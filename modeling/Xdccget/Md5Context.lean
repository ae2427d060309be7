import Xdccget.Md5Rounds
import Xdccget.StreamedBlocks

set_option autoImplicit false

/-!
# The MD5 context

`md_helper.c` takes a message in pieces, keeps the bytes that fill no block, and pads at the
end. What the platform is like decides which counter it has, and whether it may take blocks
from where the data is.
-/
namespace Xdccget.Md5
open CText StreamedBlocks

/-- What `sph_types.h` finds out about the platform. -/
structure Build where
  SPH_64 : Bool
  SPH_UPTR : Bool
  SPH_UNALIGNED : Bool

/-- `count`, or without a type of 64 bits `count_high` and `count_low` -/
inductive Count
  | wide (count : UInt64)
  | split (high low : UInt32)
deriving DecidableEq

/-- `sph_md5_context` -/
structure Md5Context where
  buf : Bytes
  val : Words
  count : Count
deriving DecidableEq

def sphMd5Init (build : Build) (sc : Md5Context) : Md5Context :=
  { sc with
    val := IV
    count := if build.SPH_64 then .wide 0 else .split 0 0 }

def Count.current : Count → ℕ
  | .wide count => (count.toUInt32 &&& 63).toNat
  | .split _ low => (low &&& 63).toNat

/-- `clow2 < clow` carries. -/
def Count.addLow (len : ℕ) : Count → Count
  | .wide count => .wide (count + UInt64.ofNat len)
  | .split high low =>
    let low₂ := low + UInt32.ofNat len
    .split (if low₂ < low then high + 1 else high) low₂

/-- Behind a whole piece, `size_t` may have more than 32 bits. -/
def Count.addLen (len : ℕ) (c : Count) : Count :=
  match c.addLow len with
  | .wide count => .wide count
  | .split high low => .split (high + UInt32.ofNat (len >>> 12 >>> 10 >>> 10)) low

/-- The loop of `md5_short`. Each turn takes at least one byte of the data. -/
def md5ShortLoop : ℕ → ℕ → Md5Context → Bytes → Md5Context
  | 0, _, sc, _ => sc
  | fuel + 1, current, sc, data =>
    if data.length > 0 then
      let clen := min (64 - current) data.length
      let buf := overwrite sc.buf current (data.take clen)
      if current + clen = 64 then
        md5ShortLoop fuel 0 ⟨buf, md5Round buf sc.val, sc.count.addLow clen⟩ (data.drop clen)
      else
        md5ShortLoop fuel (current + clen) ⟨buf, sc.val, sc.count.addLow clen⟩ (data.drop clen)
    else sc

def md5Short (sc : Md5Context) (data : Bytes) : Md5Context :=
  md5ShortLoop data.length sc.count.current sc data

def roundsOver : ℕ → Words → Bytes → Words × Bytes
  | 0, val, data => (val, data)
  | fuel + 1, val, data =>
    if 64 ≤ data.length then roundsOver fuel (md5Round data val) (data.drop 64) else (val, data)

/-- `sph_md5` behind the first test; `addr` is where the data is. -/
def md5Long (build : Build) (sc : Md5Context) (addr : ℕ) (data : Bytes) : Md5Context :=
  let current := sc.count.current
  let t := if current > 0 then 64 - current else 0
  let sc := if current > 0 then md5Short sc (data.take t) else sc
  let data := data.drop t
  if !build.SPH_UNALIGNED && (addr + t) % 4 ≠ 0 then md5Short sc data
  else
    let (val, rest) := roundsOver data.length sc.val data
    { buf := if rest.length > 0 then overwrite sc.buf 0 rest else sc.buf
      val
      count := sc.count.addLen data.length }

def sphMd5 (build : Build) (sc : Md5Context) (addr : ℕ) (data : Bytes) : Md5Context :=
  if !build.SPH_UPTR || data.length < 2 * 64 then md5Short sc data else md5Long build sc addr data

/-- `sph_enc32le` -/
def enc32le (val : UInt32) : Bytes :=
  [val.toUInt8, (val >>> 8).toUInt8, (val >>> 16).toUInt8, (val >>> 24).toUInt8]

/-- `sph_enc64le_aligned` -/
def enc64le (val : UInt64) : Bytes :=
  [val.toUInt8, (val >>> 8).toUInt8, (val >>> 16).toUInt8, (val >>> 24).toUInt8,
    (val >>> 32).toUInt8, (val >>> 40).toUInt8, (val >>> 48).toUInt8, (val >>> 56).toUInt8]

def Count.bits (n : UInt32) : Count → Bytes
  | .wide count => enc64le (count <<< 3 + n.toUInt64)
  | .split high low => enc32le (low <<< 3 + n) ++ enc32le (high <<< 3 ||| low >>> 29)

/-- The byte behind the message: `n` more bits, and the one that closes. -/
def closingByte (ub n : UInt32) : UInt8 :=
  let z := 0x80 >>> n
  (((ub &&& -z) ||| z) &&& 0xFF).toUInt8

def Words.encode (val : Words) : Bytes :=
  enc32le val.a ++ enc32le val.b ++ enc32le val.c ++ enc32le val.d

/-- `md5_addbits_and_close` -/
def md5AddbitsAndClose (sc : Md5Context) (ub n : UInt32) : Md5Context × Bytes :=
  let current := sc.count.current
  let buf := overwrite sc.buf current [closingByte ub n]
  let current := current + 1
  let (buf, val) :=
    if current > 56 then
      let buf := overwrite buf current (List.replicate (64 - current) 0)
      (overwrite buf 0 (List.replicate 56 0), md5Round buf sc.val)
    else (overwrite buf current (List.replicate (56 - current) 0), sc.val)
  let buf := overwrite buf 56 (sc.count.bits n)
  let val := md5Round buf val
  (⟨buf, val, sc.count⟩, val.encode)

def sphMd5AddbitsAndClose (build : Build) (sc : Md5Context) (ub n : UInt32) : Md5Context × Bytes :=
  let (sc, dst) := md5AddbitsAndClose sc ub n
  (sphMd5Init build sc, dst)

def sphMd5Close (build : Build) (sc : Md5Context) : Md5Context × Bytes :=
  sphMd5AddbitsAndClose build sc 0 0

end Xdccget.Md5
