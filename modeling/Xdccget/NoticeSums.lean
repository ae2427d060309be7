import Xdccget.Commands
import Xdccget.HashStrings

set_option autoImplicit false

/-!
# The sum in a notice

`extractMD5` copies 32 bytes from a fixed distance behind the name of the sum, wherever
the text ends. The checksum thread reads 32 bytes of what it has copied.
-/
namespace Xdccget.NoticeSums
open CText HashStrings
open Commands (md5Names strstr)

structure Text where
  chars : Bytes
  no_nul : nul ∉ chars

/-- What a pointer to the text finds; `behind` stands behind the terminator. -/
def Text.memory (t : Text) (behind : ℕ → UInt8) : ℕ → UInt8 := fun i =>
  (t.chars ++ [nul]).getD i (behind i)

structure Copy where
  copied : Bytes
  read : ℕ

/-- The bytes that `strncpy` copies before it pads, and how many it reads. -/
def strncpy (memory : ℕ → UInt8) (source : ℕ) : ℕ → Copy
  | 0 => ⟨[], 0⟩
  | n + 1 =>
    if memory source = nul then ⟨[], 1⟩
    else
      let rest := strncpy memory (source + 1) n
      ⟨memory source :: rest.copied, rest.read + 1⟩

/-- `MD5_STR_SIZE` -/
def md5StrSize : ℕ := 32

/-- Where the copy starts: behind the first name that `strstr` finds. -/
def sumStart (t : Text) : Option ℕ :=
  md5Names.findSome? fun n =>
    (strstr t.chars n.1).map fun found => t.chars.length - found.length + n.2

structure Extraction where
  sum : Option Bytes
  limit : ℕ

/-- `strstr` reads the terminator at most. -/
def extractMD5 (t : Text) (behind : ℕ → UInt8) : Extraction :=
  match sumStart t with
  | none => ⟨none, t.chars.length + 1⟩
  | some start =>
    let copy := strncpy (t.memory behind) start md5StrSize
    ⟨some copy.copied, max (t.chars.length + 1) (start + copy.read)⟩

structure SumRight (t : Text) (behind : ℕ → UInt8) : Prop where
  inside : (extractMD5 t behind).limit ≤ t.chars.length + 1
  whole : ∀ md5 ∈ (extractMD5 t behind).sum, md5.length = md5StrSize ∧ md5 <:+: t.chars
  decoded : ∀ md5 ∈ (extractMD5 t behind).sum, ∀ j ∈ hashReads md5Size, j < md5.length

theorem memory_of_lt (t : Text) (behind : ℕ → UInt8) {i : ℕ} (h : i < t.chars.length) :
    t.memory behind i = t.chars[i] ∧ t.memory behind i ≠ nul := by
  have hi : t.memory behind i = t.chars[i] := by
    rw [Text.memory, List.getD_eq_getElem?_getD, List.getElem?_append_left h,
      List.getElem?_eq_getElem h, Option.getD_some]
  refine ⟨hi, fun hnul => t.no_nul ?_⟩
  rw [← hnul, hi]
  exact List.getElem_mem h

theorem memory_end (t : Text) (behind : ℕ → UInt8) : t.memory behind t.chars.length = nul := by
  simp [Text.memory, List.getD_eq_getElem?_getD]

theorem strncpy_inside (t : Text) (behind : ℕ → UInt8) (n : ℕ) {source : ℕ}
    (h : source ≤ t.chars.length) :
    (strncpy (t.memory behind) source n).copied = (t.chars.drop source).take n ∧
      source + (strncpy (t.memory behind) source n).read ≤ t.chars.length + 1 := by
  induction n generalizing source with
  | zero =>
    rw [strncpy, List.take_zero]
    exact ⟨rfl, h.trans (Nat.le_succ _)⟩
  | succ n ih =>
    by_cases hend : source = t.chars.length
    · rw [strncpy, hend, if_pos (memory_end t behind), List.drop_length]
      exact ⟨rfl, le_refl _⟩
    · have hlt : source < t.chars.length := by omega
      obtain ⟨hvalue, hne⟩ := memory_of_lt t behind hlt
      have hnext : source + 1 ≤ t.chars.length := hlt
      obtain ⟨hcopied, hread⟩ := ih hnext
      rw [strncpy, if_neg hne]
      constructor
      · dsimp only
        rw [hvalue, hcopied, List.drop_eq_getElem_cons hlt, List.take_succ_cons]
      · dsimp only
        omega

theorem strncpy_reads (memory : ℕ → UInt8) (source n : ℕ) :
    1 ≤ (strncpy memory source (n + 1)).read := by
  rw [strncpy]
  split
  · exact le_refl 1
  · exact Nat.le_add_left 1 _

/-- All is right exactly when there is no name, or 32 characters are left behind it. -/
theorem sum_right_iff (t : Text) (behind : ℕ → UInt8) :
    SumRight t behind ↔ ∀ start ∈ sumStart t, start + md5StrSize ≤ t.chars.length := by
  cases hstart : sumStart t with
  | none =>
    have hnone : extractMD5 t behind = ⟨none, t.chars.length + 1⟩ := by rw [extractMD5, hstart]
    refine iff_of_true ⟨?_, ?_, ?_⟩ (by simp)
    · rw [hnone]
    · simp [hnone]
    · simp [hnone]
  | some start =>
    have hsome : extractMD5 t behind =
        ⟨some (strncpy (t.memory behind) start md5StrSize).copied,
          max (t.chars.length + 1) (start + (strncpy (t.memory behind) start md5StrSize).read)⟩ := by
      rw [extractMD5, hstart]
    constructor
    · intro h i hi
      obtain rfl : start = i := Option.some.inj hi
      have hinside := h.inside
      have hreads : 1 ≤ (strncpy (t.memory behind) start md5StrSize).read :=
        strncpy_reads _ _ 31
      rw [hsome] at hinside
      have hle : start ≤ t.chars.length := by
        have hlimit := (le_max_right _ _).trans hinside
        omega
      have hwhole := h.whole
      rw [hsome] at hwhole
      obtain ⟨hlength, -⟩ := hwhole _ rfl
      rw [(strncpy_inside t behind md5StrSize hle).1, List.length_take, List.length_drop] at hlength
      unfold md5StrSize at hlength ⊢
      omega
    · intro h
      have hroom := h start rfl
      have hle : start ≤ t.chars.length := by omega
      obtain ⟨hcopied, hread⟩ := strncpy_inside t behind md5StrSize hle
      have hlength : ((t.chars.drop start).take md5StrSize).length = md5StrSize := by
        rw [List.length_take, List.length_drop]
        omega
      rw [hcopied] at hsome
      refine ⟨?_, ?_, ?_⟩
      · rw [hsome]
        exact max_le (le_refl _) hread
      · rw [hsome]
        rintro md5 ⟨⟩
        exact ⟨hlength, (List.take_prefix _ _).isInfix.trans (List.drop_suffix _ _).isInfix⟩
      · rw [hsome]
        rintro md5 ⟨⟩ j hj
        have hlt := mem_hashReads.mp hj
        rw [hlength]
        exact hlt

theorem strstr_suffix {s pattern found : Bytes} (h : strstr s pattern = some found) :
    found <:+ s := by
  induction s with
  | nil =>
    rw [strstr] at h
    split at h
    · exact Option.some.inj h ▸ List.suffix_refl _
    · cases h
  | cons a rest ih =>
    rw [strstr] at h
    split at h
    · exact Option.some.inj h ▸ List.suffix_refl _
    · exact (ih h).trans (List.suffix_cons a rest)

theorem extractMD5_eq (t : Text) (behind : ℕ → UInt8)
    (h : ∀ start ∈ sumStart t, start ≤ t.chars.length) :
    (extractMD5 t behind).sum = Commands.extractMD5 t.chars := by
  have hfound : Commands.extractMD5 t.chars =
      (sumStart t).map fun start => (t.chars.drop start).take md5StrSize := by
    rw [Commands.extractMD5, sumStart, List.map_findSome?]
    congr 1
    funext n
    cases hn : strstr t.chars n.1 with
    | none => simp [hn]
    | some found =>
      have hdrop := List.suffix_iff_eq_drop.mp (strstr_suffix hn)
      simp only [Function.comp_apply, hn, Option.map_some, md5StrSize]
      conv_lhs => rw [hdrop, List.drop_drop]
  rw [hfound]
  cases hstart : sumStart t with
  | none => rw [extractMD5, hstart, Option.map_none]
  | some start =>
    have hle := h start hstart
    rw [extractMD5, hstart, Option.map_some]
    exact congrArg some (strncpy_inside t behind md5StrSize hle).1

/-- Behind a text that ends with the name, the copy starts past the terminator. -/
theorem name_at_end_reads_past :
    ∃ t : Text, t.chars = bytes "md5" ∧ ¬ SumRight t fun _ => 0x61 := by
  refine ⟨⟨bytes "md5", by decide⟩, rfl, fun h => ?_⟩
  have hinside := h.inside
  revert hinside
  decide

end Xdccget.NoticeSums
