import Xdccget.CText

set_option autoImplicit false

/-!
# Hash strings

What `hashing_algo.c` and `sph_md5.c` make of a digest in text form. A character that is
no hexadecimal digit counts as the digit 0.
-/
namespace Xdccget.HashStrings
open CText

/-- `MD5_SIZE` -/
def md5Size : ℕ := 16

def hexCharToBin (c : UInt8) : UInt8 :=
  if 0x30 ≤ c && c ≤ 0x39 then c - 0x30
  else if 0x61 ≤ c && c ≤ 0x66 then c - 0x61 + 10
  else if 0x41 ≤ c && c ≤ 0x46 then c - 0x41 + 10
  else 0

def hexToBin (c1 c2 : UInt8) : UInt8 := hexCharToBin c2 ||| hexCharToBin c1 <<< 4

/-- `hashString` is the memory behind the pointer. -/
def convertHashStringToBinary (hashSize : ℕ) (hashString : ℕ → UInt8) : Bytes :=
  (List.range hashSize).map fun i => hexToBin (hashString (2 * i)) (hashString (2 * i + 1))

def hashReads (hashSize : ℕ) : List ℕ := (List.range hashSize).flatMap fun i => [2 * i, 2 * i + 1]

/-- `memcmp` of 16 bytes -/
def md5EqualSph (hash1 hash2 : Bytes) : Bool := hash1.take md5Size = hash2.take md5Size

/-- A digit of `%02x`. -/
def hexDigit (n : UInt8) : UInt8 := if n < 10 then n + 0x30 else n - 10 + 0x61

def hexPair (b : UInt8) : Bytes := [hexDigit (b >>> 4), hexDigit (b &&& 0x0F)]

def md5ToString (hash : Bytes) : Bytes := (hash.take md5Size).flatMap hexPair

def isxdigit (c : UInt8) : Bool :=
  (0x30 ≤ c && c ≤ 0x39) || (0x61 ≤ c && c ≤ 0x66) || (0x41 ≤ c && c ≤ 0x46)

structure HashString where
  text : Bytes
  length_eq : text.length = 2 * md5Size

structure Digest where
  bytes : Bytes
  length_eq : bytes.length = md5Size

def HashString.memory (s : HashString) : ℕ → UInt8 := fun j => s.text.getD j nul

def verifies (s : HashString) (d : Digest) : Bool :=
  md5EqualSph (convertHashStringToBinary md5Size s.memory) d.bytes

def Renders (s : HashString) (d : Digest) : Prop := s.text.map tolower = md5ToString d.bytes

/-- What the decoder takes for the digit `x`. -/
def Fits (c x : UInt8) : Prop := if isxdigit c then tolower c = x else x = 0x30

instance (c x : UInt8) : Decidable (Fits c x) := by
  unfold Fits
  infer_instance

theorem toNat_hexCharToBin (c : UInt8) : (hexCharToBin c).toNat =
    if 0x30 ≤ c.toNat ∧ c.toNat ≤ 0x39 then c.toNat - 0x30
    else if 0x61 ≤ c.toNat ∧ c.toNat ≤ 0x66 then c.toNat - 0x57
    else if 0x41 ≤ c.toNat ∧ c.toNat ≤ 0x46 then c.toNat - 0x37
    else 0 := by
  have hc := c.toNat_lt
  simp only [hexCharToBin, Bool.and_eq_true, decide_eq_true_eq, UInt8.le_iff_toNat_le,
    UInt8.reduceToNat]
  split_ifs <;> simp only [UInt8.toNat_add, UInt8.toNat_sub, UInt8.reduceToNat] <;> omega

theorem toNat_hexDigit {x : UInt8} (hx : x < 16) :
    (hexDigit x).toNat = if x.toNat < 10 then x.toNat + 0x30 else x.toNat + 0x57 := by
  have hlt : x.toNat < 16 := UInt8.lt_iff_toNat_lt.mp hx
  simp only [hexDigit, UInt8.lt_iff_toNat_lt, UInt8.reduceToNat]
  split_ifs <;> simp only [UInt8.toNat_add, UInt8.toNat_sub, UInt8.reduceToNat] <;> omega

theorem toNat_tolower (c : UInt8) : (tolower c).toNat =
    if 0x41 ≤ c.toNat ∧ c.toNat ≤ 0x5A then c.toNat + 0x20 else c.toNat := by
  have hc := c.toNat_lt
  simp only [tolower, Bool.and_eq_true, decide_eq_true_eq, UInt8.le_iff_toNat_le,
    UInt8.reduceToNat]
  split_ifs
  · simp only [UInt8.toNat_add, UInt8.reduceToNat]
    omega
  · rfl

theorem isxdigit_iff (c : UInt8) : isxdigit c = true ↔ (0x30 ≤ c.toNat ∧ c.toNat ≤ 0x39) ∨
    (0x61 ≤ c.toNat ∧ c.toNat ≤ 0x66) ∨ (0x41 ≤ c.toNat ∧ c.toNat ≤ 0x46) := by
  simp only [isxdigit, Bool.and_eq_true, Bool.or_eq_true, decide_eq_true_eq,
    UInt8.le_iff_toNat_le, UInt8.reduceToNat]
  exact or_assoc

theorem hexCharToBin_lt (c : UInt8) : hexCharToBin c < 16 := by
  rw [UInt8.lt_iff_toNat_lt, toNat_hexCharToBin]
  change _ < 16
  split_ifs <;> omega

theorem fits_hexDigit {x : UInt8} (hx : x < 16) (c : UInt8) :
    Fits c (hexDigit x) ↔ hexCharToBin c = x := by
  have hlt : x.toNat < 16 := UInt8.lt_iff_toNat_lt.mp hx
  have hdigit := isxdigit_iff c
  have hzero : (0x30 : UInt8).toNat = 0x30 := rfl
  rw [Fits, ← UInt8.toNat_inj, ← UInt8.toNat_inj, ← UInt8.toNat_inj, toNat_tolower,
    toNat_hexDigit hx, toNat_hexCharToBin, hzero]
  by_cases h : isxdigit c = true
  · rw [if_pos h]
    have hrange := hdigit.mp h
    split_ifs <;> omega
  · rw [if_neg h]
    have hrange := mt hdigit.mpr h
    split_ifs <;> omega

theorem hexDigit_isxdigit {x : UInt8} (hx : x < 16) (c : UInt8) (h : tolower c = hexDigit x) :
    isxdigit c = true := by
  have hlt : x.toNat < 16 := UInt8.lt_iff_toNat_lt.mp hx
  rw [← UInt8.toNat_inj, toNat_tolower, toNat_hexDigit hx] at h
  rw [isxdigit_iff]
  split_ifs at h <;> omega

theorem toNat_high (b : UInt8) : (b >>> 4).toNat = b.toNat / 16 := by
  rw [UInt8.toNat_shiftRight]
  exact Nat.shiftRight_eq_div_pow b.toNat 4

theorem toNat_low (b : UInt8) : (b &&& 0x0F).toNat = b.toNat % 16 := by
  rw [UInt8.toNat_and]
  exact Nat.and_two_pow_sub_one_eq_mod b.toNat 4

theorem toNat_joined {x y : UInt8} (hx : x < 16) (hy : y < 16) :
    (y ||| x <<< 4).toNat = 16 * x.toNat + y.toNat := by
  have hxlt : x.toNat < 16 := UInt8.lt_iff_toNat_lt.mp hx
  have hylt : y.toNat < 16 := UInt8.lt_iff_toNat_lt.mp hy
  have hor := Nat.shiftLeft_add_eq_or_of_lt (i := 4) hylt x.toNat
  have hshift : x.toNat <<< 4 = 16 * x.toNat := by rw [Nat.shiftLeft_eq, Nat.mul_comm]
  rw [UInt8.toNat_or, UInt8.toNat_shiftLeft]
  change y.toNat ||| x.toNat <<< 4 % 256 = _
  rw [Nat.mod_eq_of_lt (by omega), Nat.or_comm, ← hor, hshift]

theorem halves_lt (b : UInt8) : b >>> 4 < 16 ∧ b &&& 0x0F < 16 := by
  have hb := b.toNat_lt
  rw [UInt8.lt_iff_toNat_lt, UInt8.lt_iff_toNat_lt, toNat_high, toNat_low]
  change b.toNat / 16 < 16 ∧ b.toNat % 16 < 16
  omega

theorem halves_eq {x y : UInt8} (hx : x < 16) (hy : y < 16) :
    (y ||| x <<< 4) >>> 4 = x ∧ (y ||| x <<< 4) &&& 0x0F = y := by
  have hylt : y.toNat < 16 := UInt8.lt_iff_toNat_lt.mp hy
  rw [← UInt8.toNat_inj, ← UInt8.toNat_inj, toNat_high, toNat_low, toNat_joined hx hy]
  omega

theorem byte_of_halves (b : UInt8) : (b &&& (0x0F : UInt8)) ||| (b >>> 4) <<< 4 = b := by
  obtain ⟨hhigh, hlow⟩ := halves_lt b
  rw [← UInt8.toNat_inj, toNat_joined hhigh hlow, toNat_high, toNat_low]
  omega

theorem hexToBin_eq_iff (c1 c2 b : UInt8) :
    hexToBin c1 c2 = b ↔ hexCharToBin c1 = b >>> 4 ∧ hexCharToBin c2 = b &&& 0x0F := by
  constructor
  · rintro rfl
    have h := halves_eq (hexCharToBin_lt c1) (hexCharToBin_lt c2)
    exact ⟨h.1.symm, h.2.symm⟩
  · rintro ⟨h1, h2⟩
    rw [hexToBin, h1, h2, byte_of_halves]

theorem hexToBin_eq_iff_fits (c1 c2 b : UInt8) :
    hexToBin c1 c2 = b ↔ Fits c1 (hexDigit (b >>> 4)) ∧ Fits c2 (hexDigit (b &&& 0x0F)) := by
  rw [hexToBin_eq_iff, fits_hexDigit (halves_lt b).1, fits_hexDigit (halves_lt b).2]

theorem mem_hashReads {hashSize j : ℕ} : j ∈ hashReads hashSize ↔ j < 2 * hashSize := by
  simp only [hashReads, List.mem_flatMap, List.mem_range, List.mem_pair]
  constructor
  · rintro ⟨i, hi, rfl | rfl⟩ <;> omega
  · intro hj
    exact ⟨j / 2, by omega, by omega⟩

theorem convertHashStringToBinary_cons (n : ℕ) (c1 c2 : UInt8) (rest : Bytes) :
    convertHashStringToBinary (n + 1) (fun j => (c1 :: c2 :: rest).getD j nul) =
      hexToBin c1 c2 :: convertHashStringToBinary n (fun j => rest.getD j nul) := by
  unfold convertHashStringToBinary
  rw [List.range_succ_eq_map, List.map_cons, List.map_map]
  rfl

theorem convertHashStringToBinary_eq_iff {text digest : Bytes}
    (h : text.length = 2 * digest.length) :
    convertHashStringToBinary digest.length (fun j => text.getD j nul) = digest ↔
      List.Forall₂ Fits text (digest.flatMap hexPair) := by
  induction digest generalizing text with
  | nil =>
    obtain rfl : text = [] := List.length_eq_zero_iff.mp h
    exact iff_of_true rfl .nil
  | cons b digest ih =>
    obtain ⟨c1, c2, rest, rfl⟩ : ∃ c1 c2 rest, text = c1 :: c2 :: rest := by
      match text, h with
      | [], h => simp at h
      | [_], h => simp at h; omega
      | c1 :: c2 :: rest, _ => exact ⟨c1, c2, rest, rfl⟩
    have hrest : rest.length = 2 * digest.length := by
      simp only [List.length_cons] at h
      omega
    rw [List.length_cons, convertHashStringToBinary_cons, List.cons.injEq, ih hrest,
      hexToBin_eq_iff_fits, List.flatMap_cons, hexPair, List.cons_append, List.cons_append,
      List.nil_append, List.forall₂_cons, List.forall₂_cons, and_assoc]

theorem length_flatMap_hexPair (digest : Bytes) :
    (digest.flatMap hexPair).length = 2 * digest.length := by
  induction digest with
  | nil => rfl
  | cons b digest ih =>
    rw [List.flatMap_cons, List.length_append, ih, List.length_cons]
    change 2 + _ = _
    omega

theorem md5ToString_digest (d : Digest) : md5ToString d.bytes = d.bytes.flatMap hexPair := by
  rw [md5ToString, List.take_of_length_le d.length_eq.le]

theorem verifies_iff (s : HashString) (d : Digest) :
    verifies s d = true ↔ List.Forall₂ Fits s.text (md5ToString d.bytes) := by
  have hlen : (convertHashStringToBinary md5Size s.memory).length = md5Size := by
    rw [convertHashStringToBinary, List.length_map, List.length_range]
  have hpairs : s.text.length = 2 * d.bytes.length := by rw [s.length_eq, d.length_eq]
  have hdecoded := convertHashStringToBinary_eq_iff hpairs
  rw [d.length_eq] at hdecoded
  rw [verifies, md5EqualSph, decide_eq_true_iff, List.take_of_length_le hlen.le,
    List.take_of_length_le d.length_eq.le, md5ToString_digest]
  exact hdecoded

theorem mem_md5ToString {x : UInt8} {hash : Bytes} (h : x ∈ md5ToString hash) :
    ∃ n < 16, x = hexDigit n := by
  obtain ⟨b, -, hx⟩ := List.mem_flatMap.mp h
  rcases List.mem_pair.mp hx with rfl | rfl
  · exact ⟨_, (halves_lt b).1, rfl⟩
  · exact ⟨_, (halves_lt b).2, rfl⟩

theorem renders_iff (s : HashString) (d : Digest) :
    Renders s d ↔ (∀ c ∈ s.text, isxdigit c = true) ∧ verifies s d = true := by
  rw [verifies_iff, Renders]
  have hdigits : ∀ x ∈ md5ToString d.bytes, ∃ n < 16, x = hexDigit n := fun x => mem_md5ToString
  generalize md5ToString d.bytes = digits at hdigits ⊢
  generalize s.text = text
  induction text generalizing digits with
  | nil => cases digits <;> simp
  | cons c text ih =>
    cases digits with
    | nil => simp
    | cons x digits =>
      obtain ⟨n, hn, rfl⟩ := hdigits x List.mem_cons_self
      have hdigit := hexDigit_isxdigit hn c
      have ih' := ih digits fun y hy => hdigits y (List.mem_cons_of_mem _ hy)
      rw [List.map_cons, List.cons.injEq, List.forall₂_cons, List.forall_mem_cons]
      refine (and_congr_right' ih').trans ?_
      constructor
      · rintro ⟨hc, hall, hrest⟩
        refine ⟨⟨hdigit hc, hall⟩, ?_, hrest⟩
        rw [Fits, if_pos (hdigit hc)]
        exact hc
      · rintro ⟨⟨hc, hall⟩, hfits, hrest⟩
        rw [Fits, if_pos hc] at hfits
        exact ⟨hfits, hall, hrest⟩

/-- The verdict is exact unless the digits of the string are right, and every other character of it
    stands for a 0. -/
theorem verdict_exact_iff (s : HashString) (d : Digest) :
    (verifies s d = true ↔ Renders s d) ↔
      (∀ c ∈ s.text, isxdigit c = true) ∨
        ∃ c x, (c, x) ∈ s.text.zip (md5ToString d.bytes) ∧ ¬ Fits c x := by
  have hlen : s.text.length = (md5ToString d.bytes).length := by
    rw [md5ToString_digest, length_flatMap_hexPair, s.length_eq, d.length_eq]
  have hmisfit : verifies s d = true ↔
      ¬ ∃ c x, (c, x) ∈ s.text.zip (md5ToString d.bytes) ∧ ¬ Fits c x := by
    rw [verifies_iff, List.forall₂_iff_zip]
    constructor
    · rintro ⟨-, hall⟩ ⟨c, x, hmem, hnot⟩
      exact hnot (hall hmem)
    · intro hnone
      refine ⟨hlen, fun {c x} hmem => ?_⟩
      by_contra hnot
      exact hnone ⟨c, x, hmem, hnot⟩
  rw [renders_iff]
  by_cases hverifies : verifies s d = true
  · constructor
    · intro h
      exact .inl (h.mp hverifies).1
    · rintro (hall | hsome)
      · exact ⟨fun hv => ⟨hall, hv⟩, fun h => h.2⟩
      · exact absurd hsome (hmisfit.mp hverifies)
  · have hsome := not_imp_comm.mp hmisfit.mpr hverifies
    exact iff_of_true (iff_of_false hverifies fun h => hverifies h.2) (.inr hsome)

def Digest.ofA : Digest :=
  ⟨[0x0C, 0xC1, 0x75, 0xB9, 0xC0, 0xF1, 0xB6, 0xA8, 0x31, 0xC3, 0x99, 0xE2, 0x69, 0x77, 0x26, 0x61],
    rfl⟩

/-- The letter O in place of the first digit of the sum of `a` verifies. -/
theorem letter_verifies :
    ∃ s : HashString, s.text = bytes "Occ175b9c0f1b6a831c399e269772661" ∧
      ¬ (verifies s Digest.ofA = true ↔ Renders s Digest.ofA) := by
  refine ⟨⟨bytes "Occ175b9c0f1b6a831c399e269772661", by decide⟩, rfl, fun h => ?_⟩
  have hrenders := h.mp (by decide)
  revert hrenders
  unfold Renders
  decide

end Xdccget.HashStrings
