import Mathlib.Data.List.Basic
import Mathlib.Data.List.DropRight
import Mathlib.Data.List.TakeWhile
import Mathlib.Tactic

set_option autoImplicit false

/-!
# C byte strings

A `char` array is a `List UInt8`. A C string is the part before the first NUL.
The character classes are those of the "C" locale.
-/
namespace Xdccget.CText

abbrev Bytes := List UInt8

def bytes (s : String) : Bytes := s.toList.map Char.toUInt8

def nul : UInt8 := 0
def cr : UInt8 := 0x0D
def lf : UInt8 := 0x0A
def space : UInt8 := 0x20
def colon : UInt8 := 0x3A
def at_ : UInt8 := 0x40
def bang : UInt8 := 0x21
def quote : UInt8 := 0x22
def percent : UInt8 := 0x25

/-- What `strlen`, `strcpy` and `%s` see of a buffer. -/
def cstr (s : Bytes) : Bytes := s.takeWhile (· ≠ nul)

/-- `snprintf` into a buffer of `size` bytes keeps room for the terminator. -/
def snprintf (size : ℕ) (s : Bytes) : Bytes := (cstr s).take (size - 1)

def isspace (c : UInt8) : Bool :=
  c = 0x20 || c = 0x09 || c = 0x0A || c = 0x0B || c = 0x0C || c = 0x0D

def isdigit (c : UInt8) : Bool := 0x30 ≤ c && c ≤ 0x39

def blanks : Bytes := bytes " \t"

/-- `strchr` finds the terminator of the set too. -/
def trims (cset : Bytes) (c : UInt8) : Bool := c ∈ nul :: cset

def sdstrim (cset s : Bytes) : Bytes := (s.dropWhile (trims cset)).rdropWhile (trims cset)

def tolower (c : UInt8) : UInt8 := if 0x41 ≤ c && c ≤ 0x5A then c + 0x20 else c

def strcasecmpEq (a b : Bytes) : Bool := (cstr a).map tolower = (cstr b).map tolower

/-- `%u`, `%lu` and `PRIu64` of `printf`. -/
def decimal (n : ℕ) : Bytes := (Nat.toDigits 10 n).map Char.toUInt8

def digitsValue (s : Bytes) : ℕ := s.foldl (fun v c => 10 * v + (c.toNat - 0x30)) 0

theorem cstr_of_no_nul {s : Bytes} (h : nul ∉ s) : cstr s = s := by
  unfold cstr
  rw [List.takeWhile_eq_self_iff]
  intro c hc
  have hne : c ≠ nul := fun he => h (he ▸ hc)
  simpa using hne

theorem mem_of_mem_sdstrim {cset s : Bytes} {c : UInt8} (h : c ∈ sdstrim cset s) : c ∈ s :=
  (List.dropWhile_suffix _).subset ((List.rdropWhile_prefix _ _).subset h)

theorem nul_not_mem_cstr (s : Bytes) : nul ∉ cstr s := by
  intro h
  have hne := List.mem_takeWhile_imp h
  simp at hne

theorem not_isspace_of_isdigit {c : UInt8} (h : isdigit c = true) : isspace c = false := by
  cases hs : isspace c with
  | false => rfl
  | true =>
    simp only [isspace, Bool.or_eq_true, decide_eq_true_eq] at hs
    rcases hs with ((((rfl | rfl) | rfl) | rfl) | rfl) | rfl <;> exact absurd h (by decide)

theorem toUInt8_digit {c : Char} (h : c.isDigit = true) :
    isdigit c.toUInt8 = true ∧ c.toUInt8.toNat - 0x30 = c.toNat - 0x30 := by
  have hr : 48 ≤ c.toNat ∧ c.toNat ≤ 57 := by
    simp only [Char.isDigit, Bool.and_eq_true, decide_eq_true_eq, ge_iff_le,
      UInt32.le_iff_toNat_le] at h
    exact h
  have hn : c.toUInt8.toNat = c.toNat := by
    have hs : c.toUInt8.toNat = c.toNat % 256 := UInt32.toNat_toUInt8 c.val
    omega
  refine ⟨?_, by rw [hn]⟩
  simp only [isdigit, Bool.and_eq_true, decide_eq_true_eq, UInt8.le_iff_toNat_le, hn]
  exact hr

theorem decimal_isdigit {n : ℕ} {c : UInt8} (h : c ∈ decimal n) : isdigit c = true := by
  obtain ⟨d, hd, rfl⟩ := List.mem_map.mp h
  exact (toUInt8_digit (Nat.isDigit_of_mem_toDigits (by omega) (by omega) hd)).1

theorem decimal_ne_nil (n : ℕ) : decimal n ≠ [] := by
  simp [decimal, Nat.toDigits_ne_nil]

theorem digitsValue_decimal (n : ℕ) : digitsValue (decimal n) = n := by
  have hfold : ∀ (l : List Char) (v : ℕ), (∀ c ∈ l, c.isDigit = true) →
      (l.map Char.toUInt8).foldl (fun v c => 10 * v + (c.toNat - 0x30)) v =
        Nat.ofDigitChars 10 l v := by
    intro l
    induction l with
    | nil => intro v _; rfl
    | cons c l ih =>
      intro v h
      have hc := (toUInt8_digit (h c (by simp))).2
      simp only [List.map_cons, List.foldl_cons, Nat.ofDigitChars_cons, hc]
      exact ih _ (fun d hd => h d (by simp [hd]))
  have hdigits : ∀ c ∈ Nat.toDigits 10 n, c.isDigit = true := fun c hc =>
    Nat.isDigit_of_mem_toDigits (by omega) (by omega) hc
  exact (hfold _ 0 hdigits).trans Nat.ofDigitChars_ten_toDigits

theorem toDigits_head_ne_zero (n : ℕ) (h : 0 < n) : (Nat.toDigits 10 n).head? ≠ some '0' := by
  induction n using Nat.strong_induction_on with
  | _ n ih =>
    by_cases hlt : n < 10
    · rw [Nat.toDigits_of_lt_base hlt]
      interval_cases n <;> decide
    · rw [Nat.toDigits_of_base_le (by omega) (by omega),
        List.head?_append_of_ne_nil _ Nat.toDigits_ne_nil]
      exact ih (n / 10) (by omega) (by omega)

/-- `printf` prints no leading zero. -/
theorem decimal_cons_of_pos {n : ℕ} (h : 0 < n) : ∃ c s, decimal n = c :: s ∧ c ≠ 0x30 := by
  cases hd : Nat.toDigits 10 n with
  | nil => exact absurd hd Nat.toDigits_ne_nil
  | cons c s =>
    have hne : c ≠ '0' := fun he => toDigits_head_ne_zero n h (by simp [hd, he])
    have hc : c.isDigit = true := Nat.isDigit_of_mem_toDigits (by omega) (by omega)
      (hd ▸ List.mem_cons_self)
    refine ⟨c.toUInt8, s.map Char.toUInt8, by simp [decimal, hd], fun he => hne ?_⟩
    have hval := (toUInt8_digit hc).2
    have hle : 48 ≤ c.toNat := by
      simp only [Char.isDigit, Bool.and_eq_true, decide_eq_true_eq, ge_iff_le,
        UInt32.le_iff_toNat_le] at hc
      exact hc.1
    have h30 : c.toUInt8.toNat = 0x30 := congrArg UInt8.toNat he
    have hnat : c.toNat = '0'.toNat := by
      change c.toNat = 48
      omega
    exact Char.toNat_inj.mp hnat

end Xdccget.CText
