import Xdccget.Md5Context
import Xdccget.StepRuns

set_option autoImplicit false

/-!
# The digests of a context

RFC 1321 defines the digest of a list of bits. In whatever pieces a message reaches the
context, it gets the digest of the whole message.
-/
namespace Xdccget.Md5
open CText StreamedBlocks StepRuns

def bitsOf (b : UInt8) : List Bool := (List.range 8).map fun i => b.toNat.testBit (7 - i)

def byteOf (bits : List Bool) : UInt8 :=
  UInt8.ofNat (bits.foldl (fun v bit => 2 * v + bit.toNat) 0)

def pack : List Bool → Bytes
  | b₇ :: b₆ :: b₅ :: b₄ :: b₃ :: b₂ :: b₁ :: b₀ :: bits =>
    byteOf [b₇, b₆, b₅, b₄, b₃, b₂, b₁, b₀] :: pack bits
  | _ => []

/-- The low `k` bytes of a number, the lowest first. -/
def littleEndian (k v : ℕ) : Bytes := (List.range k).map fun i => UInt8.ofNat (v / 256 ^ i)

/-- A one, and as few zeros as leave 64 bits of the last block for the length. -/
def padded (m : List Bool) : List Bool :=
  m ++ true :: List.replicate ((959 - m.length % 512) % 512) false ++
    (littleEndian 8 m.length).flatMap bitsOf

def md5 (m : List Bool) : Bytes :=
  let r := absorbed 64 compress IV (pack (padded m))
  [r.a, r.b, r.c, r.d].flatMap fun x => littleEndian 4 x.toNat

section bytes

theorem foldl_bits (n k v : ℕ) :
    ((List.range k).map fun i => n.testBit (k - 1 - i)).foldl (fun v bit => 2 * v + bit.toNat) v =
      v * 2 ^ k + n % 2 ^ k := by
  induction k generalizing v with
  | zero => simp [Nat.mod_one]
  | succ k ih =>
    have hrest : ((List.range k).map fun i => n.testBit (k + 1 - 1 - (i + 1))) =
        (List.range k).map fun i => n.testBit (k - 1 - i) := by
      apply List.map_congr_left
      intro i _
      congr 1
      omega
    rw [List.range_succ_eq_map, List.map_cons, List.map_map, List.foldl_cons]
    change List.foldl _ _ ((List.range k).map fun i => n.testBit (k + 1 - 1 - (i + 1))) = _
    rw [hrest, ih, Nat.mod_pow_succ, ← Nat.toNat_testBit, pow_succ]
    simp only [Nat.add_sub_cancel, Nat.sub_zero]
    ring

theorem byteOf_bitsOf (b : UInt8) : byteOf (bitsOf b) = b := by
  rw [byteOf, bitsOf, foldl_bits b.toNat 8 0, Nat.zero_mul, Nat.zero_add, Nat.mod_eq_of_lt b.toNat_lt,
    UInt8.ofNat_toNat]

theorem pack_bytes (m : Bytes) (rest : List Bool) : pack (m.flatMap bitsOf ++ rest) = m ++ pack rest := by
  induction m with
  | nil => rfl
  | cons b m ih =>
    rw [List.flatMap_cons, List.append_assoc]
    change byteOf (bitsOf b) :: pack (m.flatMap bitsOf ++ rest) = b :: (m ++ pack rest)
    rw [byteOf_bitsOf, ih]

theorem length_bitsOf (m : Bytes) : (m.flatMap bitsOf).length = 8 * m.length := by
  induction m with
  | nil => rfl
  | cons b m ih =>
    rw [List.flatMap_cons, List.length_append, ih, List.length_cons]
    change 8 + _ = _
    omega

theorem toUInt8_shiftRight (val : UInt32) {k : UInt32} (i : ℕ) (hk : k.toNat = 8 * i)
    (hi : i < 4) : (val >>> k).toUInt8 = UInt8.ofNat (val.toNat / 256 ^ i) := by
  have hpow : 2 ^ (8 * i) = 256 ^ i := Nat.pow_mul 2 8 i
  rw [← UInt8.toNat_inj, UInt32.toNat_toUInt8, UInt32.toNat_shiftRight, hk, UInt8.toNat_ofNat',
    Nat.mod_eq_of_lt (by omega : 8 * i < 32), Nat.shiftRight_eq_div_pow, hpow]

theorem toUInt8_shiftRight_wide (val : UInt64) {k : UInt64} (i : ℕ) (hk : k.toNat = 8 * i)
    (hi : i < 8) : (val >>> k).toUInt8 = UInt8.ofNat (val.toNat / 256 ^ i) := by
  have hpow : 2 ^ (8 * i) = 256 ^ i := Nat.pow_mul 2 8 i
  rw [← UInt8.toNat_inj, UInt64.toNat_toUInt8, UInt64.toNat_shiftRight, hk, UInt8.toNat_ofNat',
    Nat.mod_eq_of_lt (by omega : 8 * i < 64), Nat.shiftRight_eq_div_pow, hpow]

theorem enc32le_eq (val : UInt32) : enc32le val = littleEndian 4 val.toNat := by
  have hlow : val.toUInt8 = UInt8.ofNat (val.toNat / 256 ^ 0) := by
    rw [pow_zero, Nat.div_one, UInt8.ofNat_uInt32ToNat]
  rw [enc32le, hlow, toUInt8_shiftRight val 1 rfl (by omega), toUInt8_shiftRight val 2 rfl (by omega),
    toUInt8_shiftRight val 3 rfl (by omega)]
  rfl

theorem enc64le_eq (val : UInt64) : enc64le val = littleEndian 8 val.toNat := by
  have hlow : val.toUInt8 = UInt8.ofNat (val.toNat / 256 ^ 0) := by
    rw [pow_zero, Nat.div_one, UInt8.ofNat_uInt64ToNat]
  have h : ∀ (i : ℕ) (k : UInt64), k.toNat = 8 * i → i < 8 →
      (val >>> k).toUInt8 = UInt8.ofNat (val.toNat / 256 ^ i) :=
    fun i k => toUInt8_shiftRight_wide val i
  rw [enc64le, hlow, h 1 8 rfl (by omega), h 2 16 rfl (by omega), h 3 24 rfl (by omega),
    h 4 32 rfl (by omega), h 5 40 rfl (by omega), h 6 48 rfl (by omega), h 7 56 rfl (by omega)]
  rfl

end bytes

def Count.Counts (len : ℕ) : Count → Prop
  | .wide count => count.toNat = len % 2 ^ 64
  | .split high low => high.toNat * 2 ^ 32 + low.toNat = len % 2 ^ 64

section counters
variable {len : ℕ} {c : Count}

theorem Count.Counts.current_eq (h : c.Counts len) : c.current = len % 64 := by
  cases c with
  | wide count =>
    change count.toNat = len % 2 ^ 64 at h
    have hlow := Nat.and_two_pow_sub_one_eq_mod count.toUInt32.toNat 6
    rw [Count.current, UInt32.toNat_and]
    change count.toUInt32.toNat &&& (2 ^ 6 - 1) = _
    rw [hlow, UInt64.toNat_toUInt32, h]
    omega
  | split high low =>
    change high.toNat * 2 ^ 32 + low.toNat = len % 2 ^ 64 at h
    have hlow := Nat.and_two_pow_sub_one_eq_mod low.toNat 6
    rw [Count.current, UInt32.toNat_and]
    change low.toNat &&& (2 ^ 6 - 1) = _
    rw [hlow]
    omega

theorem toNat_carried (high low : UInt32) (n : ℕ) :
    let low₂ := low + UInt32.ofNat n
    ((if low₂ < low then high + 1 else high).toNat * 2 ^ 32 + low₂.toNat) % 2 ^ 64 =
      (high.toNat * 2 ^ 32 + low.toNat + n % 2 ^ 32) % 2 ^ 64 := by
  have hhigh := high.toNat_lt
  have hlow := low.toNat_lt
  have hsum : (low + UInt32.ofNat n).toNat = (low.toNat + n % 2 ^ 32) % 2 ^ 32 := by
    rw [UInt32.toNat_add, UInt32.toNat_ofNat']
  intro low₂
  have hlt : low₂ < low ↔ low₂.toNat < low.toNat := UInt32.lt_iff_toNat_lt
  change low₂.toNat = _ at hsum
  split_ifs with hcarry
  · rw [UInt32.toNat_add, hsum]
    have h := hlt.mp hcarry
    change ((high.toNat + 1) % 2 ^ 32 * 2 ^ 32 + _) % 2 ^ 64 = _
    omega
  · rw [hsum]
    have h := mt hlt.mpr hcarry
    omega

theorem joined_eq_mod (x q : ℕ) {y : ℕ} (hy : y < 2 ^ 32) :
    (x + q) % 2 ^ 32 * 2 ^ 32 + y = (x * 2 ^ 32 + y + q * 2 ^ 32) % 2 ^ 64 := by
  omega

theorem Count.Counts.addLow (h : c.Counts len) {n : ℕ} (hn : n < 2 ^ 32) :
    (c.addLow n).Counts (len + n) := by
  cases c with
  | wide count =>
    change count.toNat = len % 2 ^ 64 at h
    change (count + UInt64.ofNat n).toNat = (len + n) % 2 ^ 64
    rw [UInt64.toNat_add, UInt64.toNat_ofNat', h, ← Nat.add_mod]
  | split high low =>
    change high.toNat * 2 ^ 32 + low.toNat = len % 2 ^ 64 at h
    have hcarried := toNat_carried high low n
    have hhigh := (if low + UInt32.ofNat n < low then high + 1 else high).toNat_lt
    have hlow := (low + UInt32.ofNat n).toNat_lt
    dsimp only at hcarried
    rw [h, Nat.mod_eq_of_lt hn, Nat.mod_add_mod] at hcarried
    change (if low + UInt32.ofNat n < low then high + 1 else high).toNat * 2 ^ 32 +
      (low + UInt32.ofNat n).toNat = (len + n) % 2 ^ 64
    rw [← hcarried, Nat.mod_eq_of_lt]
    omega

theorem Count.Counts.addLen (h : c.Counts len) (n : ℕ) : (c.addLen n).Counts (len + n) := by
  cases c with
  | wide count =>
    change count.toNat = len % 2 ^ 64 at h
    change (count + UInt64.ofNat n).toNat = (len + n) % 2 ^ 64
    rw [UInt64.toNat_add, UInt64.toNat_ofNat', h, ← Nat.add_mod]
  | split high low =>
    change high.toNat * 2 ^ 32 + low.toNat = len % 2 ^ 64 at h
    have hcarried := toNat_carried high low n
    have hshift : n >>> 12 >>> 10 >>> 10 = n / 2 ^ 32 := by
      rw [← Nat.shiftRight_add, ← Nat.shiftRight_add, Nat.shiftRight_eq_div_pow]
    have hdiv := Nat.mod_add_div n (2 ^ 32)
    have hlow := (low + UInt32.ofNat n).toNat_lt
    dsimp only at hcarried
    rw [h, Nat.mod_add_mod] at hcarried
    change ((if low + UInt32.ofNat n < low then high + 1 else high) +
      UInt32.ofNat (n >>> 12 >>> 10 >>> 10)).toNat * 2 ^ 32 + (low + UInt32.ofNat n).toNat =
        (len + n) % 2 ^ 64
    rw [UInt32.toNat_add, UInt32.toNat_ofNat', hshift, Nat.add_mod_mod, joined_eq_mod _ _ hlow,
      ← Nat.mod_add_mod, hcarried, Nat.mod_add_mod, Nat.add_assoc, Nat.mul_comm (n / 2 ^ 32), hdiv]

end counters

structure Takes (m : Bytes) (sc : Md5Context) : Prop where
  held : Holds 64 compress IV m sc.val sc.buf
  counted : sc.count.Counts m.length

section pieces
variable {m : Bytes} {sc : Md5Context}

theorem takes_init (build : Build) (hbuf : sc.buf.length = 64) : Takes [] (sphMd5Init build sc) where
  held := holds_nil hbuf (by omega)
  counted := by
    unfold sphMd5Init
    cases build.SPH_64 <;> rfl

theorem takes_shortLoop {fuel current : ℕ} {data : Bytes} (h : Takes m sc)
    (hcurrent : current = m.length % 64) (hfuel : data.length ≤ fuel) :
    Takes (m ++ data) (md5ShortLoop fuel current sc data) := by
  induction fuel generalizing m sc current data with
  | zero =>
    have hnil : data = [] := List.length_eq_zero_iff.mp (by omega)
    rwa [hnil, List.append_nil]
  | succ fuel ih =>
    rw [md5ShortLoop]
    split_ifs with hpos
    · have hlt : current < 64 := by omega
      have hclen : (data.take (min (64 - current) data.length)).length =
          min (64 - current) data.length := by
        rw [List.length_take]
        omega
      have hcount := h.counted.addLow (n := min (64 - current) data.length) (by omega)
      have hdrop : (data.drop (min (64 - current) data.length)).length ≤ fuel := by
        rw [List.length_drop]
        omega
      have hsplit : m ++ data = m ++ data.take (min (64 - current) data.length) ++
          data.drop (min (64 - current) data.length) := by
        rw [List.append_assoc, List.take_append_drop]
      have hlen : (m ++ data.take (min (64 - current) data.length)).length =
          m.length + min (64 - current) data.length := by rw [List.length_append, hclen]
      rw [← hlen] at hcount
      rw [hsplit]
      dsimp only
      split_ifs with hfull
      · have hheld := h.held.fill (d := data.take (min (64 - current) data.length)) (by omega)
          (by omega)
        rw [← hcurrent, ← md5Round_eq] at hheld
        exact ih ⟨hheld, hcount⟩ (by omega) hdrop
      · have hheld := h.held.keep (d := data.take (min (64 - current) data.length)) (by omega)
        rw [← hcurrent] at hheld
        exact ih ⟨hheld, hcount⟩ (by omega) hdrop
    · have hnil : data = [] := List.length_eq_zero_iff.mp (by omega)
      rwa [hnil, List.append_nil]

theorem takes_md5Short (h : Takes m sc) (data : Bytes) : Takes (m ++ data) (md5Short sc data) :=
  takes_shortLoop h h.counted.current_eq le_rfl

theorem roundsOver_eq {fuel : ℕ} (val : Words) {data : Bytes} (hfuel : data.length ≤ fuel) :
    roundsOver fuel val data = (absorbed 64 compress val data, pending 64 data) := by
  induction fuel generalizing val data with
  | zero =>
    have hnil : data = [] := List.length_eq_zero_iff.mp (by omega)
    rw [hnil]
    rfl
  | succ fuel ih =>
    rw [roundsOver]
    split_ifs with hlen
    · have htake : (data.take 64).length = 64 * 1 := by
        rw [List.length_take]
        omega
      have hpending := pending_append (n := 64) (by omega) htake (data.drop 64)
      rw [List.take_append_drop] at hpending
      rw [ih _ (by rw [List.length_drop]; omega), md5Round_eq, ← compress_take,
        absorbed_step val (by omega) hlen, hpending]
    · rw [absorbed_of_lt val (by omega), pending_of_lt (by omega)]

theorem takes_md5Long (build : Build) (h : Takes m sc) (addr : ℕ) {data : Bytes}
    (hlen : 64 ≤ data.length) : Takes (m ++ data) (md5Long build sc addr data) := by
  have hcurrent := h.counted.current_eq
  have hfirst : ∃ t sc₁, t = (if sc.count.current > 0 then 64 - sc.count.current else 0) ∧
      sc₁ = (if sc.count.current > 0 then md5Short sc (data.take t) else sc) ∧
      Takes (m ++ data.take t) sc₁ ∧ (m ++ data.take t).length % 64 = 0 := by
    refine ⟨_, _, rfl, rfl, ?_, ?_⟩
    · split_ifs with hpos
      · exact takes_md5Short h _
      · rwa [List.take_zero, List.append_nil]
    · rw [List.length_append, List.length_take]
      split_ifs <;> omega
  obtain ⟨t, sc₁, ht, hsc₁, htakes, hmod⟩ := hfirst
  have hsplit : m ++ data = m ++ data.take t ++ data.drop t := by
    rw [List.append_assoc, List.take_append_drop]
  rw [md5Long, ← ht, ← hsc₁, hsplit]
  dsimp only
  by_cases halign : (!build.SPH_UNALIGNED && decide ((addr + t) % 4 ≠ 0)) = true
  · rw [if_pos halign]
    exact takes_md5Short htakes _
  · have hcount := htakes.counted.addLen (data.drop t).length
    rw [← List.length_append] at hcount
    have hbuf : (if (pending 64 (data.drop t)).length > 0 then
        overwrite sc₁.buf 0 (pending 64 (data.drop t)) else sc₁.buf) =
          overwrite sc₁.buf 0 (pending 64 (data.drop t)) := by
      split_ifs with hrest
      · rfl
      · have hnil : pending 64 (data.drop t) = [] := List.length_eq_zero_iff.mp (by omega)
        rw [hnil, overwrite_nil]
    rw [if_neg halign, roundsOver_eq sc₁.val le_rfl]
    dsimp only
    rw [hbuf]
    exact ⟨htakes.held.direct hmod (by omega) (data.drop t), hcount⟩

/-- `sph_md5` takes a piece in, on every platform, wherever it is. -/
theorem takes_sphMd5 (build : Build) (h : Takes m sc) (addr : ℕ) (data : Bytes) :
    Takes (m ++ data) (sphMd5 build sc addr data) := by
  rw [sphMd5]
  split_ifs with hshort
  · exact takes_md5Short h data
  · simp only [Bool.or_eq_true, decide_eq_true_eq, not_or] at hshort
    exact takes_md5Long build h addr (by omega)

end pieces

section closing

theorem littleEndian_mod (k v : ℕ) : littleEndian k (v % 256 ^ k) = littleEndian k v := by
  apply List.map_congr_left
  intro i hi
  have hlt := List.mem_range.mp hi
  have hpow : 256 ^ k = 256 ^ i * (256 * 256 ^ (k - i - 1)) := by
    rw [← pow_succ', ← pow_add]
    congr 1
    omega
  rw [← UInt8.toNat_inj, UInt8.toNat_ofNat', UInt8.toNat_ofNat', hpow, Nat.mod_mul_right_div_self]
  exact Nat.mod_mul_right_mod _ 256 _

theorem littleEndian_add (j k v : ℕ) :
    littleEndian (j + k) v = littleEndian j v ++ littleEndian k (v / 256 ^ j) := by
  rw [littleEndian, List.range_add, List.map_append, List.map_map, littleEndian, littleEndian]
  congr 1
  apply List.map_congr_left
  intro i _
  rw [Function.comp_apply, Nat.div_div_eq_div_mul, pow_add]

theorem Count.Counts.bits_eq {len : ℕ} {c : Count} (h : c.Counts len) {n : UInt32} (hn : n.toNat < 8) :
    c.bits n = littleEndian 8 (8 * len + n.toNat) := by
  cases c with
  | wide count =>
    change count.toNat = len % 2 ^ 64 at h
    have hsum : (count <<< 3 + n.toUInt64).toNat = (8 * len + n.toNat) % 256 ^ 8 := by
      rw [UInt64.toNat_add, UInt64.toNat_shiftLeft, UInt32.toNat_toUInt64, h, Nat.shiftLeft_eq]
      change (len % 2 ^ 64 * 2 ^ 3 % 2 ^ 64 + n.toNat) % 2 ^ 64 = _
      omega
    rw [Count.bits, enc64le_eq, hsum, littleEndian_mod]
  | split high low =>
    change high.toNat * 2 ^ 32 + low.toNat = len % 2 ^ 64 at h
    have hlow : (low <<< 3 + n).toNat = (8 * len + n.toNat) % 256 ^ 4 := by
      rw [UInt32.toNat_add, UInt32.toNat_shiftLeft, Nat.shiftLeft_eq]
      change (low.toNat * 2 ^ 3 % 2 ^ 32 + n.toNat) % 2 ^ 32 = _
      omega
    have hhigh : (high <<< 3 ||| low >>> 29).toNat = (8 * len + n.toNat) / 256 ^ 4 % 256 ^ 4 := by
      have hlt := low.toNat_lt
      have hor := Nat.shiftLeft_add_eq_or_of_lt (i := 3) (b := low.toNat / 2 ^ 29) (by omega)
        (high.toNat % 2 ^ 29)
      rw [UInt32.toNat_or, UInt32.toNat_shiftLeft, UInt32.toNat_shiftRight]
      change high.toNat <<< 3 % 2 ^ 32 ||| low.toNat >>> 29 = _
      have hhigh3 : high.toNat <<< 3 % 2 ^ 32 = (high.toNat % 2 ^ 29) <<< 3 := by
        rw [Nat.shiftLeft_eq, Nat.shiftLeft_eq]
        omega
      rw [hhigh3, Nat.shiftRight_eq_div_pow, ← hor, Nat.shiftLeft_eq]
      omega
    rw [Count.bits, enc32le_eq, enc32le_eq, hlow, hhigh, littleEndian_mod, littleEndian_mod,
      ← littleEndian_add]

theorem closing_bits {n : ℕ} (hn : n < 8) {j : ℕ} (hj : j < 8) :
    (-(0x80 >>> UInt32.ofNat n : UInt32)).toNat.testBit j = decide (7 - n ≤ j) ∧
      (0x80 >>> UInt32.ofNat n : UInt32).toNat.testBit j = decide (j = 7 - n) := by
  interval_cases n <;> interval_cases j <;> decide

theorem testBit_closingByte (ub : UInt32) {n : ℕ} (hn : n < 8) {j : ℕ} (hj : j < 8) :
    (closingByte ub (UInt32.ofNat n)).toNat.testBit j =
      ((ub.toUInt8.toNat.testBit j && decide (7 - n ≤ j)) || decide (j = 7 - n)) := by
  obtain ⟨hmask, hone⟩ := closing_bits hn hj
  have hbyte : (0xFF : UInt32).toNat.testBit j = true := by
    interval_cases j <;> decide
  have hub : ub.toUInt8.toNat.testBit j = ub.toNat.testBit j := by
    rw [UInt32.toNat_toUInt8, Nat.testBit_mod_two_pow, decide_eq_true hj, Bool.true_and]
  rw [closingByte, UInt32.toNat_toUInt8, Nat.testBit_mod_two_pow, decide_eq_true hj, Bool.true_and,
    UInt32.toNat_and, Nat.testBit_and, UInt32.toNat_or, Nat.testBit_or, UInt32.toNat_and,
    Nat.testBit_and, hmask, hone, hub, hbyte, Bool.and_true]

theorem bitsOf_closingByte (ub : UInt32) {n : ℕ} (hn : n < 8) :
    bitsOf (closingByte ub (UInt32.ofNat n)) =
      (bitsOf ub.toUInt8).take n ++ true :: List.replicate (7 - n) false := by
  have hbits : bitsOf (closingByte ub (UInt32.ofNat n)) = (List.range 8).map fun i =>
      (ub.toUInt8.toNat.testBit (7 - i) && decide (i ≤ n)) || decide (i = n) := by
    apply List.map_congr_left
    intro i hi
    have hlt := List.mem_range.mp hi
    rw [testBit_closingByte ub hn (by omega)]
    congr 2
    · exact decide_eq_decide.mpr (by omega)
    · exact propext (by omega)
  rw [hbits, bitsOf]
  generalize ub.toUInt8.toNat.testBit = bit
  interval_cases n <;> simp [List.range, List.range.loop]

theorem flatMap_bitsOf_zeros (z : ℕ) :
    (List.replicate z (0 : UInt8)).flatMap bitsOf = List.replicate (8 * z) false := by
  induction z with
  | zero => rfl
  | succ z ih =>
    rw [List.replicate_succ, List.flatMap_cons, ih, Nat.mul_succ, Nat.add_comm, List.replicate_add]
    rfl

theorem pack_padded (m : Bytes) (ub : UInt32) {n : ℕ} (hn : n < 8) :
    pack (padded (m.flatMap bitsOf ++ (bitsOf ub.toUInt8).take n)) =
      m ++ closingByte ub (UInt32.ofNat n) :: List.replicate ((119 - m.length % 64) % 64) 0 ++
        littleEndian 8 (8 * m.length + n) := by
  have hlen : (m.flatMap bitsOf ++ (bitsOf ub.toUInt8).take n).length = 8 * m.length + n := by
    have h8 : (bitsOf ub.toUInt8).length = 8 := rfl
    rw [List.length_append, length_bitsOf, List.length_take, h8]
    omega
  have hzeros : (959 - (8 * m.length + n) % 512) % 512 =
      (7 - n) + 8 * ((119 - m.length % 64) % 64) := by omega
  have hbytes : padded (m.flatMap bitsOf ++ (bitsOf ub.toUInt8).take n) =
      (m ++ closingByte ub (UInt32.ofNat n) :: List.replicate ((119 - m.length % 64) % 64) 0 ++
        littleEndian 8 (8 * m.length + n)).flatMap bitsOf ++ [] := by
    rw [padded, hlen, hzeros, List.replicate_add, List.flatMap_append, List.flatMap_append,
      List.flatMap_cons, bitsOf_closingByte ub hn, flatMap_bitsOf_zeros]
    simp only [List.append_assoc, List.cons_append, List.append_nil]
  rw [hbytes, pack_bytes, pack, List.append_nil]
  intros
  contradiction

theorem encode_eq (r : Words) :
    r.encode = [r.a, r.b, r.c, r.d].flatMap fun x => littleEndian 4 x.toNat := by
  simp only [Words.encode, enc32le_eq, List.flatMap_cons, List.flatMap_nil, List.append_nil,
    List.append_assoc]

theorem Takes.closed {m : Bytes} {sc : Md5Context} (h : Takes m sc) (ub : UInt32) {n : ℕ}
    (hn : n < 8) : (md5AddbitsAndClose sc ub (UInt32.ofNat n)).1.buf.length = 64 ∧
      (md5AddbitsAndClose sc ub (UInt32.ofNat n)).2 =
        md5 (m.flatMap bitsOf ++ (bitsOf ub.toUInt8).take n) := by
  have hcurrent := h.counted.current_eq
  have hnat : (UInt32.ofNat n).toNat = n := by
    rw [UInt32.toNat_ofNat']
    omega
  have hbits := h.counted.bits_eq (n := UInt32.ofNat n) (by omega)
  rw [hnat] at hbits
  have h8 : (littleEndian 8 (8 * m.length + n)).length = 8 := by
    rw [littleEndian, List.length_map, List.length_range]
  have hlt : m.length % 64 < 64 := Nat.mod_lt _ (by omega)
  have hsize := h.held.size
  rw [md5, pack_padded m ub hn, ← encode_eq, md5AddbitsAndClose, hcurrent, hbits]
  dsimp only
  generalize closingByte ub (UInt32.ofNat n) = last at *
  generalize littleEndian 8 (8 * m.length + n) = len at *
  split_ifs with hfull
  · -- The length goes into a block of its own.
    have hzeros : (119 - m.length % 64) % 64 = (64 - (m.length % 64 + 1)) + 56 := by omega
    have hd : (last :: List.replicate (64 - (m.length % 64 + 1)) (0 : UInt8)).length =
        64 - m.length % 64 := by
      rw [List.length_cons, List.length_replicate]
      omega
    have hd' : (List.replicate 56 (0 : UInt8) ++ len).length = 64 := by
      rw [List.length_append, List.length_replicate, h8]
    have hfirst := h.held.fill (d := last :: List.replicate (64 - (m.length % 64 + 1)) 0)
      (by omega) (by omega)
    have hmod : (m ++ last :: List.replicate (64 - (m.length % 64 + 1)) 0).length % 64 = 0 := by
      rw [List.length_append, hd]
      omega
    have hsecond := hfirst.fill (d := List.replicate 56 0 ++ len) (by omega) (by omega)
    rw [hmod] at hsecond
    dsimp only
    rw [overwrite_overwrite (k := m.length % 64 + 1) (hlt.le.trans hsize.ge) rfl,
      List.singleton_append, overwrite_overwrite (k := 56) (Nat.zero_le _) (by rw [List.length_replicate]), md5Round_eq, md5Round_eq,
      hzeros, List.replicate_add]
    refine ⟨hsecond.size, ?_⟩
    rw [hsecond.state]
    simp only [List.append_assoc, List.cons_append]
  · have hzeros : (119 - m.length % 64) % 64 = 56 - (m.length % 64 + 1) := by omega
    have hd : (last :: List.replicate (56 - (m.length % 64 + 1)) (0 : UInt8)).length =
        56 - m.length % 64 := by
      rw [List.length_cons, List.length_replicate]
      omega
    have hlast := h.held.fill
      (d := last :: List.replicate (56 - (m.length % 64 + 1)) 0 ++ len)
      (by rw [List.length_append, hd]; omega) (by omega)
    dsimp only
    rw [overwrite_overwrite (k := m.length % 64 + 1) (hlt.le.trans hsize.ge) rfl,
      List.singleton_append, overwrite_overwrite (k := 56) (hlt.le.trans hsize.ge) (by omega),
      md5Round_eq, hzeros]
    refine ⟨hlast.size, ?_⟩
    rw [hlast.state]
    simp only [List.append_assoc, List.cons_append]

theorem Takes.close {m : Bytes} {sc : Md5Context} (h : Takes m sc) (build : Build) (ub : UInt32)
    {n : ℕ} (hn : n < 8) : Takes [] (sphMd5AddbitsAndClose build sc ub (UInt32.ofNat n)).1 ∧
      (sphMd5AddbitsAndClose build sc ub (UInt32.ofNat n)).2 =
        md5 (m.flatMap bitsOf ++ (bitsOf ub.toUInt8).take n) :=
  ⟨takes_init build (h.closed ub hn).1, (h.closed ub hn).2⟩

end closing

/-- A call of the interface. What an update takes is somewhere in the memory. -/
inductive Call
  | init
  | update (addr : ℕ) (data : Bytes)
  | close (ub : UInt32) (n : Fin 8)

/-- A context, and what has been written to the destinations of its calls. -/
structure Hasher where
  sc : Md5Context
  digests : List Bytes

def call (build : Build) (s : Hasher) : Call → Hasher
  | .init => { s with sc := sphMd5Init build s.sc }
  | .update addr data => { s with sc := sphMd5 build s.sc addr data }
  | .close ub n =>
    let (sc, dst) := sphMd5AddbitsAndClose build s.sc ub (UInt32.ofNat n)
    ⟨sc, s.digests ++ [dst]⟩

/-- What a context is for: it collects a message, and gives the digest of the whole of it. -/
structure Collector where
  message : Bytes
  digests : List Bytes

def collect (s : Collector) : Call → Collector
  | .init => { s with message := [] }
  | .update _ data => { s with message := s.message ++ data }
  | .close ub n =>
    ⟨[], s.digests ++ [md5 (s.message.flatMap bitsOf ++ (bitsOf ub.toUInt8).take n)]⟩

structure Collects (s : Hasher) (t : Collector) : Prop where
  takes : Takes t.message s.sc
  digests : s.digests = t.digests

theorem collects_call (build : Build) {s : Hasher} {t : Collector} (h : Collects s t) (c : Call) :
    Collects (call build s c) (collect t c) := by
  cases c with
  | init => exact ⟨takes_init build h.takes.held.size, h.digests⟩
  | update addr data => exact ⟨takes_sphMd5 build h.takes addr data, h.digests⟩
  | close ub n =>
    obtain ⟨htakes, hdigest⟩ := h.takes.close build ub n.isLt
    exact ⟨htakes, congrArg₂ (fun digests dst => digests ++ [dst]) h.digests hdigest⟩

theorem collects_run (build : Build) {s : Hasher} {t : Collector} (h : Collects s t)
    (calls : List Call) : Collects (run (call build) s calls) (run collect t calls) := by
  induction calls generalizing s t with
  | nil => exact h
  | cons c calls ih => exact ih (collects_call build h c)

def allocated (memory : Vector UInt8 64) (val : Words) (count : Count) : Md5Context :=
  ⟨memory.toList, val, count⟩

theorem digests_of_calls (build : Build) (memory : Vector UInt8 64) (val : Words) (count : Count)
    (calls : List Call) :
    (run (call build) ⟨sphMd5Init build (allocated memory val count), []⟩ calls).digests =
      (run collect ⟨[], []⟩ calls).digests :=
  (collects_run build ⟨takes_init build memory.length_toList, rfl⟩ calls).digests

end Xdccget.Md5
