import Mathlib.Data.Int.GCD
import Mathlib.Data.Int.ModEq
import Mathlib.Data.List.Basic
import Mathlib.Logic.Function.Iterate
import Mathlib.Tactic

set_option autoImplicit false

/-!
# Blocks exchanged in place

Two neighbouring blocks of a list change places by swaps alone. The places form cycles, and
in each of them every value is swapped with the one at the start, in the order of the cycle.
-/
namespace Xdccget.RotatedBlocks

variable {α : Type}

def swapAt (l : List α) (i j : ℕ) : List α :=
  match l[i]? with
  | none => l
  | some x =>
    match l[j]? with
    | none => l
    | some y => (l.set i y).set j x

/-- `k` swaps with the place `start`, along the places that `move` goes to. -/
def swaps (move : ℕ → ℕ) (start : ℕ) : ℕ → ℕ → List α → List α
  | 0, _, l => l
  | k + 1, pos, l => swaps move start k (move pos) (swapAt l (move pos) start)

@[simp] theorem length_swapAt (l : List α) (i j : ℕ) : (swapAt l i j).length = l.length := by
  unfold swapAt
  split
  · rfl
  · split
    · rfl
    · rw [List.length_set, List.length_set]

theorem getElem?_swapAt {l : List α} {i j : ℕ} (hi : i < l.length) (hj : j < l.length) (q : ℕ) :
    (swapAt l i j)[q]? = if q = j then l[i]? else if q = i then l[j]? else l[q]? := by
  have hx := List.getElem?_eq_getElem hi
  have hy := List.getElem?_eq_getElem hj
  rw [swapAt, hx, hy]
  dsimp only
  rw [List.getElem?_set, List.length_set, List.getElem?_set]
  split_ifs <;> first | rfl | omega

/-- Each value of the places has gone where `move` leads, and nothing else has changed. -/
structure Carried (move : ℕ → ℕ) (places : ℕ → Prop) (l l' : List α) : Prop where
  length_eq : l'.length = l.length
  moved : ∀ p, places p → l'[move p]? = l[p]?
  kept : ∀ q, ¬ places q → l'[q]? = l[q]?

theorem carried_none (move : ℕ → ℕ) (l : List α) : Carried move (fun _ => False) l l :=
  ⟨rfl, fun _ h => h.elim, fun _ _ => rfl⟩

theorem Carried.congr {move : ℕ → ℕ} {places places' : ℕ → Prop} {l l' : List α}
    (h : Carried move places l l') (hiff : ∀ p, places p ↔ places' p) :
    Carried move places' l l' :=
  ⟨h.length_eq, fun p hp => h.moved p ((hiff p).mpr hp), fun q hq => h.kept q (mt (hiff q).mp hq)⟩

/-- Places that are apart, and that `move` does not leave. -/
theorem Carried.append {move : ℕ → ℕ} {places places' : ℕ → Prop} {l l' l'' : List α}
    (h : Carried move places l l') (h' : Carried move places' l' l'')
    (hclosed : ∀ p, places p → places (move p)) (hapart : ∀ p, places p → ¬ places' p) :
    Carried move (fun p => places p ∨ places' p) l l'' where
  length_eq := h'.length_eq.trans h.length_eq
  moved := by
    rintro p (hp | hp)
    · rw [h'.kept _ (hapart _ (hclosed p hp)), h.moved p hp]
    · rw [h'.moved p hp, h.kept p fun hnot => hapart p hnot hp]
  kept := by
    intro q hq
    rw [not_or] at hq
    rw [h'.kept q hq.2, h.kept q hq.1]

/-- The places that a start runs through in `k` moves, back to itself. -/
structure Cycle (move : ℕ → ℕ) (start k : ℕ) : Prop where
  pos : 0 < k
  back : move^[k] start = start
  once : ∀ s < k, ∀ t < k, move^[s] start = move^[t] start → s = t

def Cycle.Place (move : ℕ → ℕ) (start k p : ℕ) : Prop := ∃ t < k, p = move^[t] start

section cycles
variable {move : ℕ → ℕ} {start k : ℕ} {l : List α}

/-- The values behind `t` swaps: the ones swapped are one place on, and the start has the next. -/
structure Swapped (move : ℕ → ℕ) (start t : ℕ) (l l' : List α) : Prop where
  length_eq : l'.length = l.length
  moved : ∀ s < t, l'[move^[s + 1] start]? = l[move^[s] start]?
  held : l'[start]? = l[move^[t] start]?
  kept : ∀ q, (∀ s ≤ t, q ≠ move^[s] start) → l'[q]? = l[q]?

theorem Swapped.next {l' : List α} {t : ℕ} (h : Swapped move start t l l') (hc : Cycle move start k)
    (ht : t + 1 < k) (hlt : ∀ s, move^[s] start < l.length) :
    Swapped move start (t + 1) l (swapAt l' (move^[t + 1] start) start) := by
  have hne : move^[t + 1] start ≠ start := fun he => by
    have := hc.once (t + 1) ht 0 hc.pos he
    omega
  have hget := getElem?_swapAt (l := l') (i := move^[t + 1] start) (j := start)
    (by rw [h.length_eq]; exact hlt _) (by rw [h.length_eq]; exact hlt 0)
  have hfresh : ∀ s ≤ t, move^[t + 1] start ≠ move^[s] start := fun s hs he => by
    have := hc.once (t + 1) ht s (by omega) he
    omega
  refine ⟨by rw [length_swapAt, h.length_eq], ?_, ?_, ?_⟩
  · intro s hs
    have hstart : move^[s + 1] start ≠ start := fun he => by
      have := hc.once (s + 1) (by omega) 0 hc.pos he
      omega
    rw [hget, if_neg hstart]
    split_ifs with hsame
    · have hst : s = t := by
        have := hc.once (s + 1) (by omega) (t + 1) ht hsame
        omega
      rw [h.held, hst]
    · have hst : s ≠ t := fun he => hsame (by rw [he])
      exact h.moved s (by omega)
  · rw [hget, if_pos rfl]
    exact h.kept _ hfresh
  · intro q hq
    have hstart : q ≠ start := hq 0 (by omega)
    rw [hget, if_neg hstart, if_neg (hq (t + 1) le_rfl)]
    exact h.kept q fun s hs => hq s (by omega)

theorem swaps_append (move : ℕ → ℕ) (start j k pos : ℕ) (l : List α) :
    swaps move start (j + k) pos l = swaps move start k (move^[j] pos) (swaps move start j pos l) := by
  induction j generalizing pos l with
  | zero => rw [Nat.zero_add]; rfl
  | succ j ih =>
    rw [Nat.succ_add, swaps, ih, Function.iterate_succ_apply, swaps]

theorem swapped_swaps (hc : Cycle move start k) (hlt : ∀ s, move^[s] start < l.length) {t : ℕ}
    (ht : t < k) : Swapped move start t l (swaps move start t start l) := by
  induction t with
  | zero => exact ⟨rfl, fun s hs => absurd hs (by omega), rfl, fun q _ => rfl⟩
  | succ t ih =>
    have hnext := (ih (by omega)).next hc ht hlt
    rw [swaps_append]
    rwa [Function.iterate_succ_apply'] at hnext

theorem carried_swaps (hc : Cycle move start k) (hlt : ∀ s, move^[s] start < l.length) :
    Carried move (Cycle.Place move start k) l (swaps move start k start l) := by
  obtain ⟨t, rfl⟩ : ∃ t, k = t + 1 := ⟨k - 1, by have := hc.pos; omega⟩
  have h := swapped_swaps hc hlt (by omega : t < t + 1)
  have hback : move (move^[t] start) = start := by
    rw [← Function.iterate_succ_apply' move t start]
    exact hc.back
  have hlast : swaps move start (t + 1) start l = swaps move start t start l := by
    rw [swaps_append, swaps, swaps, hback, swapAt]
    cases hx : (swaps move start t start l)[start]? with
    | none => rfl
    | some x =>
      obtain ⟨hlen, hx⟩ := List.getElem?_eq_some_iff.mp hx
      dsimp only
      rw [← hx, List.set_set, List.set_getElem_self]
  rw [hlast]
  refine ⟨h.length_eq, ?_, ?_⟩
  · rintro p ⟨s, hs, rfl⟩
    by_cases hst : s = t
    · rw [hst, hback, h.held]
    · have hmoved := h.moved s (by omega)
      rwa [Function.iterate_succ_apply'] at hmoved
  · intro q hq
    exact h.kept q fun s hs he => hq ⟨s, by omega, he⟩

end cycles

/-- Where a value goes when a block of `a` places from `start` on and one of `b` behind it change
    places. -/
def exchange (start a b p : ℕ) : ℕ := if start + a ≤ p then p - a else p + b

section blocks
variable {start a b : ℕ}

theorem iterate_exchange (start : ℕ) {r : ℕ} (hr : r < a + b) (t : ℕ) :
    (exchange start a b)^[t] (start + r) = start + (r + t * b) % (a + b) := by
  induction t with
  | zero => rw [Nat.zero_mul, Nat.add_zero, Nat.mod_eq_of_lt hr, Function.iterate_zero_apply]
  | succ t ih =>
    have hlt : (r + t * b) % (a + b) < a + b := Nat.mod_lt _ (by omega)
    have hnext : (r + (t + 1) * b) % (a + b) = ((r + t * b) % (a + b) + b) % (a + b) := by
      rw [Nat.mod_add_mod]
      congr 1
      ring
    rw [Function.iterate_succ_apply', ih, hnext, exchange]
    generalize (r + t * b) % (a + b) = m at hlt ⊢
    split_ifs with hge
    · have hwrap : m + b = m - a + (a + b) := by omega
      rw [hwrap, Nat.add_mod_right, Nat.mod_eq_of_lt (by omega)]
      omega
    · rw [Nat.mod_eq_of_lt (by omega)]
      omega

theorem gcd_add_eq (a b : ℕ) : (a + b).gcd b = a.gcd b := by
  rw [Nat.gcd_add_self_left]

theorem mod_injective (hb : 0 < b) {r s t : ℕ} (hs : s < (a + b) / a.gcd b)
    (ht : t < (a + b) / a.gcd b) (h : (r + s * b) % (a + b) = (r + t * b) % (a + b)) : s = t := by
  have hmod : s * b ≡ t * b [MOD a + b] := Nat.ModEq.add_left_cancel' r h
  have hcancel := Nat.ModEq.cancel_right_div_gcd (by omega) hmod
  rw [gcd_add_eq] at hcancel
  exact Nat.ModEq.eq_of_lt_of_lt hcancel hs ht

theorem mul_div_gcd (a b : ℕ) : (a + b) / a.gcd b * b = (a + b) * (b / a.gcd b) := by
  have hsum : a.gcd b ∣ a + b := Nat.dvd_add (Nat.gcd_dvd_left a b) (Nat.gcd_dvd_right a b)
  rw [Nat.div_mul_right_comm hsum, Nat.mul_div_assoc _ (Nat.gcd_dvd_right a b)]

theorem cycle_exchange (start : ℕ) (hb : 0 < b) {i : ℕ} (hi : i < a.gcd b) :
    Cycle (exchange start a b) (start + (a + i)) ((a + b) / a.gcd b) := by
  have hle := Nat.gcd_le_right a hb
  have hlt : a + i < a + b := by omega
  have hle' : a.gcd b ≤ a + b := by omega
  refine ⟨Nat.div_pos hle' (by omega), ?_, ?_⟩
  · rw [iterate_exchange start hlt, mul_div_gcd, Nat.add_mul_mod_self_left, Nat.mod_eq_of_lt hlt]
  · intro s hs t ht h
    rw [iterate_exchange start hlt, iterate_exchange start hlt] at h
    exact mod_injective hb hs ht (Nat.add_left_cancel h)

theorem exists_iterate (hb : 0 < b) {r : ℕ} (hr : r < a + b) :
    ∃ t < (a + b) / a.gcd b, (a + r % a.gcd b + t * b) % (a + b) = r := by
  have hdvd : Int.gcd (b : ℤ) ((a + b : ℕ) : ℤ) ∣ b + a.gcd b * (r / a.gcd b) := by
    rw [Int.gcd_natCast_natCast, Nat.gcd_comm, gcd_add_eq]
    exact Nat.dvd_add (Nat.gcd_dvd_right a b) (Nat.dvd_mul_right _ _)
  obtain ⟨x, y, hxy⟩ := Int.gcd_dvd_iff.mp hdvd
  have hk : 0 < (a + b) / a.gcd b := by
    have hle := Nat.gcd_le_right a hb
    exact Nat.div_pos (by omega) (Nat.gcd_pos_of_pos_right a hb)
  have hdiv : ((a.gcd b * (r / a.gcd b) + r % a.gcd b : ℕ) : ℤ) = r := by rw [Nat.div_add_mod]
  have hnat : (((a + b) / a.gcd b * b : ℕ) : ℤ) = ((a + b) * (b / a.gcd b) : ℕ) := by
    rw [mul_div_gcd]
  generalize (a + b) / a.gcd b = k at hk hnat ⊢
  -- `x` counts modulo the length of the cycle.
  have hnonneg : 0 ≤ x % k := Int.emod_nonneg x (by omega)
  have hlt : x % k < k := Int.emod_lt_of_pos x (by omega)
  have hx := Int.emod_add_mul_ediv x k
  have hcast : ((x % k).toNat : ℤ) = x % k := Int.toNat_of_nonneg hnonneg
  refine ⟨(x % k).toNat, by omega, ?_⟩
  have hint : ((a + r % a.gcd b + (x % k).toNat * b : ℕ) : ℤ) =
      r + ((a + b : ℕ) : ℤ) * (1 - y - (b / a.gcd b : ℕ) * (x / k)) := by
    push_cast at hxy hdiv hnat ⊢
    linear_combination (b : ℤ) * hcast + b * hx - (x / k) * hnat - hxy + hdiv
  have hmod : ((a + r % a.gcd b + (x % k).toNat * b : ℕ) : ℤ) % ((a + b : ℕ) : ℤ) = r := by
    rw [hint, Int.add_mul_emod_self_left, Int.emod_eq_of_lt (by omega) (by omega)]
  exact_mod_cast hmod

theorem place_exchange_iff (hb : 0 < b) {i : ℕ} (hi : i < a.gcd b) (p : ℕ) :
    Cycle.Place (exchange start a b) (start + (a + i)) ((a + b) / a.gcd b) p ↔
      start ≤ p ∧ p < start + (a + b) ∧ (p - start) % a.gcd b = i := by
  have hle := Nat.gcd_le_right a hb
  have hlt : a + i < a + b := by omega
  constructor
  · rintro ⟨t, ht, rfl⟩
    have hmod : (a + i + t * b) % (a + b) < a + b := Nat.mod_lt _ (by omega)
    have hsum : a.gcd b ∣ a + b := Nat.dvd_add (Nat.gcd_dvd_left a b) (Nat.gcd_dvd_right a b)
    have hres : (a + i + t * b) % (a + b) % a.gcd b = i := by
      obtain ⟨a', ha'⟩ := Nat.gcd_dvd_left a b
      obtain ⟨b', hb'⟩ := Nat.gcd_dvd_right a b
      have hterm : a + i + t * b = i + a.gcd b * (a' + t * b') := by
        linear_combination ha' + t * hb'
      rw [Nat.mod_mod_of_dvd _ hsum, hterm, Nat.add_mul_mod_self_left, Nat.mod_eq_of_lt hi]
    rw [iterate_exchange start hlt, Nat.add_sub_cancel_left]
    omega
  · rintro ⟨hge, hend, hres⟩
    obtain ⟨t, ht, hr⟩ := exists_iterate hb (by omega : p - start < a + b)
    refine ⟨t, ht, ?_⟩
    rw [iterate_exchange start hlt, ← hres, hr]
    omega

/-- The cycles of the first `k` residues, one behind the other. -/
def cycles (start a b k : ℕ) (l : List α) : List α :=
  (List.range k).foldl (fun l i =>
    swaps (exchange start a b) (start + (a + i)) ((a + b) / a.gcd b) (start + (a + i)) l) l

theorem exchange_closed {p : ℕ} (hge : start ≤ p) (hlt : p < start + (a + b)) :
    start ≤ exchange start a b p ∧ exchange start a b p < start + (a + b) ∧
      (exchange start a b p - start) % a.gcd b = (p - start) % a.gcd b := by
  obtain ⟨a', ha'⟩ := Nat.gcd_dvd_left a b
  obtain ⟨b', hb'⟩ := Nat.gcd_dvd_right a b
  rw [exchange]
  split_ifs with hsecond
  · have hres : (p - start) % a.gcd b = (p - a - start) % a.gcd b := by
      have hsplit : p - start = p - a - start + a.gcd b * a' := by omega
      rw [hsplit, Nat.add_mul_mod_self_left]
    exact ⟨by omega, by omega, hres.symm⟩
  · have hres : (p + b - start) % a.gcd b = (p - start) % a.gcd b := by
      have hsplit : p + b - start = p - start + a.gcd b * b' := by omega
      rw [hsplit, Nat.add_mul_mod_self_left]
    exact ⟨by omega, by omega, hres⟩

theorem carried_cycles (hb : 0 < b) {l : List α} (hlen : start + (a + b) ≤ l.length) {k : ℕ}
    (hk : k ≤ a.gcd b) : Carried (exchange start a b)
      (fun p => start ≤ p ∧ p < start + (a + b) ∧ (p - start) % a.gcd b < k) l
      (cycles start a b k l) := by
  induction k with
  | zero => exact (carried_none _ l).congr fun p => by simp
  | succ k ih =>
    have hcycle := cycle_exchange start hb (by omega : k < a.gcd b)
    have hcarried := ih (by omega)
    have hle := Nat.gcd_le_right a hb
    have hlt : ∀ s, (exchange start a b)^[s] (start + (a + k)) < (cycles start a b k l).length := by
      intro s
      have hmod : (a + k + s * b) % (a + b) < a + b := Nat.mod_lt _ (by omega)
      rw [iterate_exchange start (by omega), hcarried.length_eq]
      omega
    have hnext := carried_swaps hcycle hlt
    rw [cycles, List.range_succ, List.foldl_append, List.foldl_cons, List.foldl_nil]
    refine (hcarried.append hnext ?_ ?_).congr fun p => ?_
    · rintro p ⟨hge, hend, hres⟩
      obtain ⟨hge', hend', hres'⟩ := exchange_closed hge hend
      exact ⟨hge', hend', by rw [hres']; exact hres⟩
    · intro p hp hplace
      rw [place_exchange_iff hb (by omega)] at hplace
      omega
    · rw [place_exchange_iff hb (by omega)]
      constructor
      · rintro (⟨h₁, h₂, h₃⟩ | ⟨h₁, h₂, h₃⟩)
        · exact ⟨h₁, h₂, by omega⟩
        · exact ⟨h₁, h₂, by omega⟩
      · rintro ⟨h₁, h₂, h₃⟩
        by_cases hres : (p - start) % a.gcd b = k
        · exact .inr ⟨h₁, h₂, hres⟩
        · exact .inl ⟨h₁, h₂, by omega⟩

end blocks

theorem cycles_blocks (front x y back : List α) (hy : y ≠ []) :
    cycles front.length x.length y.length (x.length.gcd y.length) (front ++ (x ++ (y ++ back))) =
      front ++ (y ++ (x ++ back)) := by
  have hb : 0 < y.length := List.length_pos_of_ne_nil hy
  have hg : 0 < x.length.gcd y.length := Nat.gcd_pos_of_pos_right _ hb
  have hlen : front.length + (x.length + y.length) ≤ (front ++ (x ++ (y ++ back))).length := by
    simp only [List.length_append]
    omega
  have h := carried_cycles hb hlen le_rfl
  have hres : ∀ p, (p - front.length) % x.length.gcd y.length < x.length.gcd y.length :=
    fun p => Nat.mod_lt _ hg
  apply List.ext_getElem?
  intro q
  by_cases hfront : q < front.length
  · rw [h.kept q (by omega), List.getElem?_append_left hfront, List.getElem?_append_left hfront]
  obtain ⟨r, rfl⟩ := Nat.exists_eq_add_of_le (Nat.le_of_not_lt hfront)
  rw [List.getElem?_append_right (Nat.le_add_right _ r), Nat.add_sub_cancel_left]
  by_cases hsecond : r < y.length
  · have hmoved := h.moved (front.length + (x.length + r)) ⟨by omega, by omega, hres _⟩
    rw [exchange, if_pos (by omega), List.getElem?_append_right (by omega), Nat.add_sub_cancel_left,
      List.getElem?_append_right (by omega), Nat.add_sub_cancel_left,
      List.getElem?_append_left hsecond] at hmoved
    rw [List.getElem?_append_left hsecond, ← hmoved]
    congr 1
    omega
  obtain ⟨r, rfl⟩ := Nat.exists_eq_add_of_le (Nat.le_of_not_lt hsecond)
  rw [List.getElem?_append_right (Nat.le_add_right _ r), Nat.add_sub_cancel_left]
  by_cases hfirst : r < x.length
  · have hmoved := h.moved (front.length + r) ⟨by omega, by omega, hres _⟩
    rw [exchange, if_neg (by omega), List.getElem?_append_right (by omega), Nat.add_sub_cancel_left,
      List.getElem?_append_left hfirst] at hmoved
    rw [List.getElem?_append_left hfirst, ← hmoved]
    congr 1
    omega
  obtain ⟨r, rfl⟩ := Nat.exists_eq_add_of_le (Nat.le_of_not_lt hfirst)
  have hback : front.length + (y.length + (x.length + r)) =
      front.length + (x.length + (y.length + r)) := by omega
  rw [List.getElem?_append_right (Nat.le_add_right _ r), Nat.add_sub_cancel_left,
    h.kept _ (by omega), hback]
  simp only [List.getElem?_append_right (Nat.le_add_right _ _), Nat.add_sub_cancel_left]

end Xdccget.RotatedBlocks
