import Xdccget.SpeedLimits

set_option autoImplicit false

/-!
# Random indices

`rand_range` brings a random number below `high` with a remainder, which has the sign of the
number. On Windows the number is made positive before, as far as a `long` can.
-/
namespace Xdccget.RandomIndices
open CText SpeedLimits

/-- What the source of the system delivers: `random()`, or the bytes of a 32-bit `long`. -/
inductive RandomValue
  | unix (r : ℤ) (h : 0 ≤ r ∧ r < 2 ^ 63)
  | windows (r : ℤ) (h : -2 ^ 31 ≤ r ∧ r < 2 ^ 31)

/-- The product with `-1` goes to a `long` of 32 bits, like an `int`. -/
def randRangeWindows (int : IntStore) (r low high : ℤ) : ℤ :=
  if high = 0 then 0
  else
    let randomNumber := if r < 0 then int.store (r * -1) else r
    randomNumber.tmod high + low

def randRangeUnix (r low high : ℤ) : ℤ := if high = 0 then 0 else r.tmod high + low

def randRange (int : IntStore) (low high : ℤ) : RandomValue → ℤ
  | .unix r _ => randRangeUnix r low high
  | .windows r _ => randRangeWindows int r low high

def possibleChars : Bytes := bytes "abcdefghiklmnopqrstuvwxyzABCDEFGHIJHKLMOPQRSTUVWXYZ"

def numChars : ℕ := possibleChars.length

def nickIndex (int : IntStore) (v : RandomValue) : ℤ := randRange int 0 (numChars - 1) v

def Inside (length : ℕ) (index : ℤ) : Prop := 0 ≤ index ∧ index < length

instance (length : ℕ) (index : ℤ) : Decidable (Inside length index) :=
  inferInstanceAs (Decidable (_ ∧ _))

/-- `possibleChars[index]`, read. -/
def charAt (index : ℤ) : Option UInt8 :=
  if Inside numChars index then possibleChars[index.toNat]? else none

/-- The loop of `createRandomNick`, a random number for each character. -/
def createRandomNick (int : IntStore) (values : List RandomValue) : Option Bytes :=
  values.mapM fun v => charAt (nickIndex int v)

/-- A list of addresses is counted in an `int`, and none is returned that is empty. -/
structure AddressCount where
  numAddresses : ℕ
  pos : 0 < numAddresses
  lt : numAddresses < 2 ^ 31

/-- Where `irc_connect_generic` starts. -/
def selectedAddress (int : IntStore) (n : AddressCount) (v : RandomValue) : ℤ :=
  int.store (randRange int 0 (n.numAddresses - 1) v)

/-- The least `long` of 32 bits has no negation. -/
def RandomValue.IsLeast : RandomValue → Prop
  | .unix _ _ => False
  | .windows r _ => r = -2 ^ 31

instance (v : RandomValue) : Decidable v.IsLeast :=
  match v with
  | .unix _ _ => inferInstanceAs (Decidable False)
  | .windows r _ => inferInstanceAs (Decidable (r = -2 ^ 31))

theorem randRange_nonneg (int : IntStore) (high : ℤ) {v : RandomValue} (hv : ¬ v.IsLeast) :
    0 ≤ randRange int 0 high v := by
  cases v with
  | unix r h =>
    rw [randRange, randRangeUnix]
    split
    · exact le_refl 0
    · rw [Int.add_zero]
      exact Int.tmod_nonneg high h.1
  | windows r h =>
    have hne : r ≠ -2 ^ 31 := hv
    rw [randRange, randRangeWindows]
    split
    · exact le_refl 0
    dsimp only
    rw [Int.add_zero]
    by_cases hneg : r < 0
    · rw [if_pos hneg, int.exact _ (by omega) (by omega)]
      exact Int.tmod_nonneg high (by omega)
    · rw [if_neg hneg]
      exact Int.tmod_nonneg high (by omega)

/-- The least `long` stays what it is, and its remainder is at most zero. -/
theorem least_nonneg_iff (high : ℤ) {v : RandomValue} (hv : v.IsLeast) :
    0 ≤ randRange .wrap 0 high v ↔ high = 0 ∨ high ∣ 2 ^ 31 := by
  cases v with
  | unix r h => exact absurd hv id
  | windows r h =>
    have hr : r = -2 ^ 31 := hv
    have hstore : IntStore.wrap.store (-2 ^ 31 * -1) = -2 ^ 31 := by decide
    have hneg : (-2 ^ 31 : ℤ) < 0 := by decide
    subst hr
    rw [randRange, randRangeWindows]
    by_cases hzero : high = 0
    · rw [if_pos hzero]
      exact iff_of_true (le_refl 0) (.inl hzero)
    rw [if_neg hzero]
    dsimp only
    rw [Int.add_zero, if_pos hneg, hstore, Int.neg_tmod, Int.dvd_iff_tmod_eq_zero]
    have hlower := Int.tmod_nonneg high (show (0 : ℤ) ≤ 2 ^ 31 by decide)
    constructor
    · intro hnonneg
      right
      omega
    · intro hdvd
      have hmod := hdvd.resolve_left hzero
      omega

theorem randRange_nonneg_iff (high : ℤ) (v : RandomValue) :
    0 ≤ randRange .wrap 0 high v ↔ (v.IsLeast → high = 0 ∨ high ∣ 2 ^ 31) := by
  by_cases hv : v.IsLeast
  · rw [least_nonneg_iff high hv]
    exact ⟨fun h _ => h, fun h => h hv⟩
  · exact iff_of_true (randRange_nonneg .wrap high hv) fun h => absurd h hv

/-- The remainder is less than `high` on either side of zero. -/
theorem randRange_bounds (int : IntStore) {high : ℤ} (hhigh : 0 ≤ high) (v : RandomValue) :
    -high ≤ randRange int 0 high v ∧ randRange int 0 high v ≤ high := by
  have hmod : ∀ r : ℤ, high ≠ 0 → -high ≤ r.tmod high + 0 ∧ r.tmod high + 0 ≤ high := by
    intro r hne
    have hpos : 0 < high := by omega
    have hlower := Int.lt_tmod_of_pos r hpos
    have hupper := Int.tmod_lt_of_pos r hpos
    omega
  cases v with
  | unix r h =>
    rw [randRange, randRangeUnix]
    split
    · omega
    · next hne => exact hmod r hne
  | windows r h =>
    rw [randRange, randRangeWindows]
    split
    · omega
    · next hne => exact hmod _ hne

theorem inside_iff_nonneg (int : IntStore) {length : ℕ} (hlength : 0 < length) (v : RandomValue) :
    Inside length (randRange int 0 (length - 1) v) ↔ 0 ≤ randRange int 0 (length - 1) v := by
  have hhigh : (0 : ℤ) ≤ length - 1 := by omega
  have hupper := (randRange_bounds int hhigh v).2
  constructor
  · exact fun h => h.1
  · exact fun h => ⟨h, by omega⟩

theorem inside_iff {length : ℕ} (hlength : 0 < length) (v : RandomValue) :
    Inside length (randRange .wrap 0 (length - 1) v) ↔
      (v.IsLeast → (length : ℤ) - 1 = 0 ∨ (length : ℤ) - 1 ∣ 2 ^ 31) := by
  rw [inside_iff_nonneg .wrap hlength]
  exact randRange_nonneg_iff _ v

theorem nickIndex_inside_iff (v : RandomValue) :
    Inside numChars (nickIndex .wrap v) ↔ ¬ v.IsLeast := by
  have hnone : ¬ ((numChars : ℤ) - 1 = 0 ∨ (numChars : ℤ) - 1 ∣ 2 ^ 31) := by decide
  rw [nickIndex, inside_iff (by decide)]
  exact ⟨fun h hv => hnone (h hv), fun h hv => absurd hv h⟩

theorem charAt_isSome_iff (index : ℤ) : (charAt index).isSome = true ↔ Inside numChars index := by
  rw [charAt]
  split
  · next h =>
    have hlt : index.toNat < possibleChars.length := by
      obtain ⟨hlower, hupper⟩ := h
      unfold numChars at hupper
      omega
    rw [List.getElem?_eq_getElem hlt]
    exact iff_of_true rfl h
  · next h => exact iff_of_false (by simp) h

theorem createRandomNick_isSome_iff (int : IntStore) (values : List RandomValue) :
    (createRandomNick int values).isSome = true ↔
      ∀ v ∈ values, Inside numChars (nickIndex int v) := by
  induction values with
  | nil => simp [createRandomNick]
  | cons v values ih =>
    rw [createRandomNick, List.mapM_cons, List.forall_mem_cons, ← charAt_isSome_iff, ← ih,
      createRandomNick]
    cases charAt (nickIndex int v) with
    | none => simp
    | some c => cases values.mapM fun v => charAt (nickIndex int v) <;> simp

theorem selectedAddress_eq (int : IntStore) (n : AddressCount) (v : RandomValue) :
    selectedAddress int n v = randRange int 0 (n.numAddresses - 1) v := by
  have hpos := n.pos
  have hlt := n.lt
  have hhigh : (0 : ℤ) ≤ n.numAddresses - 1 := by omega
  obtain ⟨hlower, hupper⟩ := randRange_bounds int hhigh v
  exact int.exact _ (by omega) (by omega)

theorem selectedAddress_inside_iff (n : AddressCount) (v : RandomValue) :
    Inside n.numAddresses (selectedAddress .wrap n v) ↔
      (v.IsLeast → n.numAddresses = 1 ∨ n.numAddresses - 1 ∣ 2 ^ 31) := by
  have hpos := n.pos
  have hcast : ((n.numAddresses - 1 : ℕ) : ℤ) = n.numAddresses - 1 := by omega
  have hzero : (n.numAddresses : ℤ) - 1 = 0 ↔ n.numAddresses = 1 := by omega
  have hdvd : (n.numAddresses : ℤ) - 1 ∣ 2 ^ 31 ↔ n.numAddresses - 1 ∣ 2 ^ 31 := by
    rw [← hcast]
    exact_mod_cast Int.natCast_dvd_natCast
  rw [selectedAddress_eq, inside_iff hpos, hzero, hdvd]

/-- With a product that wraps, every index is inside exactly when the least `long` comes only where
its remainder is zero, which is never for the table. -/
theorem indices_inside_iff (values : List RandomValue) (n : AddressCount) (v : RandomValue) :
    ((∀ v ∈ values, Inside numChars (nickIndex .wrap v)) ↔ ∀ v ∈ values, ¬ v.IsLeast) ∧
    (Inside n.numAddresses (selectedAddress .wrap n v) ↔
      (v.IsLeast → n.numAddresses = 1 ∨ n.numAddresses - 1 ∣ 2 ^ 31)) := by
  refine ⟨?_, selectedAddress_inside_iff n v⟩
  exact forall₂_congr fun v _ => nickIndex_inside_iff v

/-- The least `long` leads to the index -48 of the table. -/
theorem least_long_outside :
    ¬ Inside numChars (nickIndex .wrap (.windows (-2 ^ 31) (by decide))) := by
  decide

end Xdccget.RandomIndices
