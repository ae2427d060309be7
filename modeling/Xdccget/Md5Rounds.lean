import Xdccget.CText
import Mathlib.Data.UInt

set_option autoImplicit false

/-!
# The MD5 round

`md5_round` is unrolled: the four words keep their places, and each line names the ones it
takes. MD5 itself turns the words after each of its 64 steps.
-/
namespace Xdccget.Md5
open CText

/-- An array of four words, `sph_u32 [4]`. -/
structure Words where
  a : UInt32
  b : UInt32
  c : UInt32
  d : UInt32
deriving DecidableEq, Repr

def IV : Words := ⟨0x67452301, 0xEFCDAB89, 0x98BADCFE, 0x10325476⟩

def F (b c d : UInt32) : UInt32 := ((c ^^^ d) &&& b) ^^^ d
def G (b c d : UInt32) : UInt32 := ((c ^^^ b) &&& d) ^^^ c
def H (b c d : UInt32) : UInt32 := b ^^^ c ^^^ d
def I (b c d : UInt32) : UInt32 := c ^^^ (b ||| ~~~d)

/-- `SPH_ROTL32` -/
def rotl (x n : UInt32) : UInt32 := (x <<< n) ||| (x >>> (32 - n))

/-- Four lines of `MD5_ROUND_BODY`, which set `A`, `D`, `C` and `B` in this order. -/
def fourLines (f : UInt32 → UInt32 → UInt32 → UInt32) (n₁ n₂ n₃ n₄ : UInt32)
    (x₁ k₁ x₂ k₂ x₃ k₃ x₄ k₄ : UInt32) (r : Words) : Words :=
  let a := r.b + rotl (r.a + f r.b r.c r.d + x₁ + k₁) n₁
  let d := a + rotl (r.d + f a r.b r.c + x₂ + k₂) n₂
  let c := d + rotl (r.c + f d a r.b + x₃ + k₃) n₃
  let b := c + rotl (r.b + f c d a + x₄ + k₄) n₄
  ⟨a, b, c, d⟩

def linesF := fourLines F 7 12 17 22
def linesG := fourLines G 5 9 14 20
def linesH := fourLines H 4 11 16 23
def linesI := fourLines I 6 10 15 21

/-- The lines of `MD5_ROUND_BODY` before the sum. -/
def roundLines (x : ℕ → UInt32) (r : Words) : Words :=
  let r := linesF (x 0) 0xD76AA478 (x 1) 0xE8C7B756 (x 2) 0x242070DB (x 3) 0xC1BDCEEE r
  let r := linesF (x 4) 0xF57C0FAF (x 5) 0x4787C62A (x 6) 0xA8304613 (x 7) 0xFD469501 r
  let r := linesF (x 8) 0x698098D8 (x 9) 0x8B44F7AF (x 10) 0xFFFF5BB1 (x 11) 0x895CD7BE r
  let r := linesF (x 12) 0x6B901122 (x 13) 0xFD987193 (x 14) 0xA679438E (x 15) 0x49B40821 r
  let r := linesG (x 1) 0xF61E2562 (x 6) 0xC040B340 (x 11) 0x265E5A51 (x 0) 0xE9B6C7AA r
  let r := linesG (x 5) 0xD62F105D (x 10) 0x02441453 (x 15) 0xD8A1E681 (x 4) 0xE7D3FBC8 r
  let r := linesG (x 9) 0x21E1CDE6 (x 14) 0xC33707D6 (x 3) 0xF4D50D87 (x 8) 0x455A14ED r
  let r := linesG (x 13) 0xA9E3E905 (x 2) 0xFCEFA3F8 (x 7) 0x676F02D9 (x 12) 0x8D2A4C8A r
  let r := linesH (x 5) 0xFFFA3942 (x 8) 0x8771F681 (x 11) 0x6D9D6122 (x 14) 0xFDE5380C r
  let r := linesH (x 1) 0xA4BEEA44 (x 4) 0x4BDECFA9 (x 7) 0xF6BB4B60 (x 10) 0xBEBFBC70 r
  let r := linesH (x 13) 0x289B7EC6 (x 0) 0xEAA127FA (x 3) 0xD4EF3085 (x 6) 0x04881D05 r
  let r := linesH (x 9) 0xD9D4D039 (x 12) 0xE6DB99E5 (x 15) 0x1FA27CF8 (x 2) 0xC4AC5665 r
  let r := linesI (x 0) 0xF4292244 (x 7) 0x432AFF97 (x 14) 0xAB9423A7 (x 5) 0xFC93A039 r
  let r := linesI (x 12) 0x655B59C3 (x 3) 0x8F0CCC92 (x 10) 0xFFEFF47D (x 1) 0x85845DD1 r
  let r := linesI (x 8) 0x6FA87E4F (x 15) 0xFE2CE6E0 (x 6) 0xA3014314 (x 13) 0x4E0811A1 r
  linesI (x 4) 0xF7537E82 (x 11) 0xBD3AF235 (x 2) 0x2AD7D2BB (x 9) 0xEB86D391 r

/-- `sph_md5_comp` -/
def sphMd5Comp (msg : ℕ → UInt32) (val : Words) : Words :=
  let r := roundLines msg val
  ⟨val.a + r.a, val.b + r.b, val.c + r.c, val.d + r.d⟩

/-- `sph_dec32le_aligned` at the place `i` -/
def dec32le (data : Bytes) (i : ℕ) : UInt32 :=
  (data.getD i 0).toUInt32 ||| (data.getD (i + 1) 0).toUInt32 <<< 8 |||
    (data.getD (i + 2) 0).toUInt32 <<< 16 ||| (data.getD (i + 3) 0).toUInt32 <<< 24

def md5Round (data : Bytes) (r : Words) : Words := sphMd5Comp (fun idx => dec32le data (4 * idx)) r

def T : List UInt32 := [
  0xD76AA478, 0xE8C7B756, 0x242070DB, 0xC1BDCEEE, 0xF57C0FAF, 0x4787C62A, 0xA8304613, 0xFD469501,
  0x698098D8, 0x8B44F7AF, 0xFFFF5BB1, 0x895CD7BE, 0x6B901122, 0xFD987193, 0xA679438E, 0x49B40821,
  0xF61E2562, 0xC040B340, 0x265E5A51, 0xE9B6C7AA, 0xD62F105D, 0x02441453, 0xD8A1E681, 0xE7D3FBC8,
  0x21E1CDE6, 0xC33707D6, 0xF4D50D87, 0x455A14ED, 0xA9E3E905, 0xFCEFA3F8, 0x676F02D9, 0x8D2A4C8A,
  0xFFFA3942, 0x8771F681, 0x6D9D6122, 0xFDE5380C, 0xA4BEEA44, 0x4BDECFA9, 0xF6BB4B60, 0xBEBFBC70,
  0x289B7EC6, 0xEAA127FA, 0xD4EF3085, 0x04881D05, 0xD9D4D039, 0xE6DB99E5, 0x1FA27CF8, 0xC4AC5665,
  0xF4292244, 0x432AFF97, 0xAB9423A7, 0xFC93A039, 0x655B59C3, 0x8F0CCC92, 0xFFEFF47D, 0x85845DD1,
  0x6FA87E4F, 0xFE2CE6E0, 0xA3014314, 0x4E0811A1, 0xF7537E82, 0xBD3AF235, 0x2AD7D2BB, 0xEB86D391]

/-- The function of the step `i`: choice, choice by the third word, parity, and the last one. -/
def mixing (i : ℕ) (x y z : UInt32) : UInt32 :=
  if i < 16 then (x &&& y) ||| (~~~x &&& z)
  else if i < 32 then (x &&& z) ||| (y &&& ~~~z)
  else if i < 48 then x ^^^ y ^^^ z
  else y ^^^ (x ||| ~~~z)

/-- The word of the block that the step `i` takes. -/
def wordAt (i : ℕ) : ℕ :=
  if i < 16 then i else if i < 32 then (5 * i + 1) % 16 else if i < 48 then (3 * i + 5) % 16
  else 7 * i % 16

def shiftAt (i : ℕ) : UInt32 :=
  if i < 16 then [7, 12, 17, 22].getD (i % 4) 0
  else if i < 32 then [5, 9, 14, 20].getD (i % 4) 0
  else if i < 48 then [4, 11, 16, 23].getD (i % 4) 0
  else [6, 10, 15, 21].getD (i % 4) 0

def turn (f : UInt32 → UInt32 → UInt32 → UInt32) (n x k : UInt32) (r : Words) : Words :=
  ⟨r.d, r.b + rotl (r.a + f r.b r.c r.d + x + k) n, r.b, r.c⟩

def step (x : ℕ → UInt32) (r : Words) (i : ℕ) : Words :=
  turn (mixing i) (shiftAt i) (x (wordAt i)) (T.getD i 0) r

def Words.add (r v : Words) : Words := ⟨r.a + v.a, r.b + v.b, r.c + v.c, r.d + v.d⟩

def compress (r : Words) (block : Bytes) : Words :=
  r.add ((List.range 64).foldl (step fun idx => dec32le block (4 * idx)) r)

theorem choice_eq (b c d : UInt32) : ((c ^^^ d) &&& b) ^^^ d = (b &&& c) ||| (~~~b &&& d) := by
  apply UInt32.toBitVec_inj.mp
  ext i hi
  simp only [UInt32.toBitVec_xor, UInt32.toBitVec_and, UInt32.toBitVec_or, UInt32.toBitVec_not,
    BitVec.getElem_xor, BitVec.getElem_and, BitVec.getElem_or, BitVec.getElem_not]
  cases b.toBitVec[i] <;> cases c.toBitVec[i] <;> cases d.toBitVec[i] <;> rfl

theorem F_eq : F = mixing 0 := by
  funext b c d
  exact choice_eq b c d

theorem G_eq : G = mixing 16 := by
  funext b c d
  change ((c ^^^ b) &&& d) ^^^ c = (b &&& d) ||| (c &&& ~~~d)
  rw [UInt32.xor_comm c b, choice_eq d b c, UInt32.and_comm d b, UInt32.and_comm (~~~d) c]

theorem fourLines_eq (f : UInt32 → UInt32 → UInt32 → UInt32)
    (n₁ n₂ n₃ n₄ x₁ k₁ x₂ k₂ x₃ k₃ x₄ k₄ : UInt32) (r : Words) :
    fourLines f n₁ n₂ n₃ n₄ x₁ k₁ x₂ k₂ x₃ k₃ x₄ k₄ r =
      turn f n₄ x₄ k₄ (turn f n₃ x₃ k₃ (turn f n₂ x₂ k₂ (turn f n₁ x₁ k₁ r))) := rfl

theorem roundLines_eq (x : ℕ → UInt32) (r : Words) :
    roundLines x r = (List.range 64).foldl (step x) r := by
  simp only [roundLines, linesF, linesG, linesH, linesI, fourLines_eq, F_eq, G_eq]
  rfl

theorem md5Round_eq (data : Bytes) (r : Words) : md5Round data r = compress r data := by
  rw [md5Round, sphMd5Comp, roundLines_eq]
  rfl

theorem dec32le_take {n i : ℕ} (h : i + 4 ≤ n) (data : Bytes) :
    dec32le (data.take n) i = dec32le data i := by
  have hget : ∀ j < n, (data.take n).getD j 0 = data.getD j 0 := by
    intro j hj
    rw [List.getD_eq_getElem?_getD, List.getD_eq_getElem?_getD, List.getElem?_take_of_lt hj]
  rw [dec32le, dec32le, hget i (by omega), hget (i + 1) (by omega), hget (i + 2) (by omega),
    hget (i + 3) (by omega)]

theorem wordAt_lt (i : ℕ) : wordAt i < 16 := by
  unfold wordAt
  split_ifs <;> omega

theorem compress_take (r : Words) (data : Bytes) : compress r (data.take 64) = compress r data := by
  have hstep : ∀ v i, step (fun idx => dec32le (data.take 64) (4 * idx)) v i =
      step (fun idx => dec32le data (4 * idx)) v i := by
    intro v i
    have hword := wordAt_lt i
    rw [step, step, dec32le_take (by omega)]
  exact congrArg r.add (List.foldl_ext _ _ r fun v i _ => hstep v i)

end Xdccget.Md5
