import Xdccget.ConfigText
import Xdccget.TerminatedBuffers

set_option autoImplicit false

/-!
# Dynamic strings

The strings of `sds.c`: a header of one of five sizes, and a buffer that it says the length
and the capacity of. What is read or written outside the buffer is a fault.
-/
namespace Xdccget.SdsStrings
open CText ConfigText StreamedBlocks

inductive SdsType
  | SDS_TYPE_5 | SDS_TYPE_8 | SDS_TYPE_16 | SDS_TYPE_32 | SDS_TYPE_64
deriving DecidableEq, Repr

open SdsType

def SdsType.bits : SdsType → ℕ
  | SDS_TYPE_5 => 5
  | SDS_TYPE_8 => 8
  | SDS_TYPE_16 => 16
  | SDS_TYPE_32 => 32
  | SDS_TYPE_64 => 64

def sdsHdrSize : SdsType → ℕ
  | SDS_TYPE_5 => 1
  | SDS_TYPE_8 => 3
  | SDS_TYPE_16 => 5
  | SDS_TYPE_32 => 9
  | SDS_TYPE_64 => 17

/-- The bits of a `long`. A `size_t` has 64. -/
inductive Long
  | bits32 | bits64
deriving DecidableEq, Repr

def Long.bits : Long → ℕ
  | .bits32 => 32
  | .bits64 => 64

def sdsReqType (long : Long) (string_size : ℕ) : SdsType :=
  if string_size < 2 ^ 5 then SDS_TYPE_5
  else if string_size < 2 ^ 8 then SDS_TYPE_8
  else if string_size < 2 ^ 16 then SDS_TYPE_16
  else
    match long with
    | .bits64 => if string_size < 2 ^ 32 then SDS_TYPE_32 else SDS_TYPE_64
    | .bits32 => SDS_TYPE_32

/-- `type` and the length of a type 5 share the byte of the flags; such a string has no `alloc`.
    `buf` is the allocated memory behind the header. -/
structure Sds where
  type : SdsType
  len : ℕ
  alloc : ℕ
  buf : Bytes
deriving DecidableEq

def Sds.sdslen (s : Sds) : ℕ := s.len

def Sds.sdsavail (s : Sds) : ℕ :=
  match s.type with
  | SDS_TYPE_5 => 0
  | SDS_TYPE_32 => (s.alloc + 2 ^ 32 - s.len) % 2 ^ 32
  | _ => (s.alloc + 2 ^ 64 - s.len) % 2 ^ 64

def Sds.sdsalloc (s : Sds) : ℕ := if s.type = SDS_TYPE_5 then s.len else s.alloc

def Sds.sdssetlen (s : Sds) (newlen : ℕ) : Sds := { s with len := newlen % 2 ^ s.type.bits }

def Sds.sdssetalloc (s : Sds) (newlen : ℕ) : Sds :=
  if s.type = SDS_TYPE_5 then s else { s with alloc := newlen % 2 ^ s.type.bits }

/-- `noMemory` stands for the null pointer that is returned. -/
inductive Fault
  | noMemory | outOfBounds
deriving DecidableEq

/-- An allocator: what is in the memory it hands out, if it has any. -/
structure Malloc where
  block : ℕ → Option Bytes
  sized : ∀ n b, block n = some b → b.length = n

/-- `s_malloc` for a header and a string with its terminator, whose place is returned. -/
def Malloc.malloc (m : Malloc) (hdrlen newlen : ℕ) : Except Fault Bytes :=
  match m.block ((hdrlen + newlen + 1) % 2 ^ 64) with
  | none => throw .noMemory
  | some b => return b.drop hdrlen

/-- `s_realloc` keeps what fits. -/
def Malloc.realloc (m : Malloc) (hdrlen newlen : ℕ) (buf : Bytes) : Except Fault Bytes := do
  let fresh ← m.malloc hdrlen newlen
  return buf.take fresh.length ++ fresh.drop buf.length

/-- `memcpy`, `memmove` or an assignment to a place of the buffer. -/
def Sds.write (s : Sds) (pos : ℕ) (data : Bytes) : Except Fault Sds :=
  if pos + data.length ≤ s.buf.length then return { s with buf := overwrite s.buf pos data }
  else throw .outOfBounds

/-- The source of a `memcpy` or `memmove`. -/
def Sds.read (s : Sds) (pos n : ℕ) : Except Fault Bytes :=
  if pos + n ≤ s.buf.length then return (s.buf.drop pos).take n else throw .outOfBounds

/-- `sdsnewlen`, with the bytes at `init`. A string of zeros is made for a null pointer. -/
def sdsnewlen (long : Long) (m : Malloc) (init : Bytes) : Except Fault Sds := do
  let type := sdsReqType long init.length
  let type := if type = SDS_TYPE_5 ∧ init.length = 0 then SDS_TYPE_8 else type
  let buf ← m.malloc (sdsHdrSize type) init.length
  let s : Sds := ⟨type, init.length % 2 ^ type.bits, init.length % 2 ^ type.bits, buf⟩
  let s ← (if init = [] then pure s else s.write 0 init : Except Fault Sds)
  s.write init.length [nul]

def sdsMaxPrealloc : ℕ := 1024 * 1024

def preallocated (newlen : ℕ) : ℕ :=
  if newlen < sdsMaxPrealloc then newlen * 2 % 2 ^ 64
  else (newlen + sdsMaxPrealloc) % 2 ^ 64

/-- A string that is appended to has no header of type 5. -/
def appendType (long : Long) (newlen : ℕ) : SdsType :=
  if sdsReqType long newlen = SDS_TYPE_5 then SDS_TYPE_8 else sdsReqType long newlen

def sdsMakeRoomFor (long : Long) (m : Malloc) (s : Sds) (addlen : ℕ) : Except Fault Sds :=
  if addlen ≤ s.sdsavail then return s
  else do
    let newlen := preallocated ((s.sdslen + addlen) % 2 ^ 64)
    let type := appendType long newlen
    let hdrlen := sdsHdrSize type
    if s.type = type then
      let buf ← m.realloc hdrlen newlen s.buf
      return { s with buf }.sdssetalloc newlen
    else
      let buf ← m.malloc hdrlen newlen
      let old ← s.read 0 (s.sdslen + 1)
      let moved ← Sds.write { s with type, buf } 0 old
      return (moved.sdssetlen s.sdslen).sdssetalloc newlen

def sdsRemoveFreeSpace (long : Long) (m : Malloc) (s : Sds) : Except Fault Sds :=
  if s.sdsavail = 0 then return s
  else do
    let len := s.sdslen
    let type := sdsReqType long len
    if s.type = type ∨ SDS_TYPE_8.bits < type.bits then
      let buf ← m.realloc (sdsHdrSize s.type) len s.buf
      return { s with buf }.sdssetalloc len
    else
      let buf ← m.malloc (sdsHdrSize type) len
      let old ← s.read 0 (len + 1)
      let moved ← Sds.write { s with type, buf } 0 old
      return (moved.sdssetlen len).sdssetalloc len

def sdscatlen (long : Long) (m : Malloc) (s : Sds) (t : Bytes) : Except Fault Sds := do
  let curlen := s.sdslen
  let s ← sdsMakeRoomFor long m s t.length
  let s ← s.write curlen t
  (s.sdssetlen (curlen + t.length)).write (curlen + t.length) [nul]

def sdscpylen (long : Long) (m : Malloc) (s : Sds) (t : Bytes) : Except Fault Sds := do
  let s ← (if s.sdsalloc < t.length then sdsMakeRoomFor long m s (t.length - s.sdslen)
    else pure s : Except Fault Sds)
  let s ← s.write 0 t
  let s ← s.write t.length [nul]
  return s.sdssetlen t.length

def sdsgrowzero (long : Long) (m : Malloc) (s : Sds) (len : ℕ) : Except Fault Sds :=
  let curlen := s.sdslen
  if len ≤ curlen then return s
  else do
    let s ← sdsMakeRoomFor long m s (len - curlen)
    let s ← s.write curlen (List.replicate (len - curlen + 1) nul)
    return s.sdssetlen len

/-- `vsnprintf` into `buflen` bytes, where the last but one is zero before. As long as it is not
    zero behind, the buffer is made twice as long. -/
def formatted (m : Malloc) (text : Bytes) : ℕ → ℕ → Except Fault Bytes
  | 0, buflen => return text.take (buflen - 1)
  | fuel + 1, buflen =>
    if text[buflen - 2]?.getD nul = nul then return text.take (buflen - 1)
    else if (m.block (buflen * 2)).isNone then throw .noMemory
    else formatted m text fuel (buflen * 2)

/-- The size of the first buffer of `sdscatvprintf`; 1024 bytes need no memory. -/
def firstBuflen (fmtlen : ℕ) : ℕ := if 1024 < fmtlen * 2 then fmtlen * 2 else 1024

/-- `sdscatvprintf`, where `text` is what the format makes of the arguments. -/
def sdscatvprintf (long : Long) (m : Malloc) (s : Sds) (fmtlen : ℕ) (text : Bytes) :
    Except Fault Sds :=
  if 1024 < fmtlen * 2 ∧ (m.block (fmtlen * 2)).isNone then throw .noMemory
  else do
    let buf ← formatted m text text.length (firstBuflen fmtlen)
    sdscatlen long m s (cstr buf)

def sdsclear (s : Sds) : Except Fault Sds := (s.sdssetlen 0).write 0 [nul]

def sdsupdatelen (s : Sds) : Sds := s.sdssetlen (cstr s.buf).length

/-- `memmove(s, s + pos, n)` -/
def Sds.moveDown (s : Sds) (pos n : ℕ) : Except Fault Sds := do s.write 0 (← s.read pos n)

/-- `while (sp <= end && strchr(cset, *sp)) sp++`, with the bytes up to `end` counted. -/
def trimStart (cset buf : Bytes) : ℕ → ℕ → Except Fault ℕ
  | 0, sp => return sp
  | left + 1, sp =>
    match buf[sp]? with
    | none => throw .outOfBounds
    | some c => if trims cset c then trimStart cset buf left (sp + 1) else return sp

/-- `while (ep > sp && strchr(cset, *ep)) ep--`, from the byte behind `ep` on. -/
def trimEnd (cset buf : Bytes) (sp : ℕ) : ℕ → Except Fault ℕ
  | 0 => return 0
  | ep + 1 =>
    if ep ≤ sp then return ep + 1
    else
      match buf[ep]? with
      | none => throw .outOfBounds
      | some c => if trims cset c then trimEnd cset buf sp ep else return ep + 1

def sdstrim (s : Sds) (cset : Bytes) : Except Fault Sds := do
  let sp ← trimStart cset s.buf s.sdslen 0
  let ep ← trimEnd cset s.buf sp s.sdslen
  let len := ep - sp
  let s ← (if sp ≠ 0 then s.moveDown sp len else pure s : Except Fault Sds)
  let s ← s.write len [nul]
  return s.sdssetlen len

/-- A conversion to `long`. -/
def Long.wrap (long : Long) (z : ℤ) : ℤ := z.bmod (2 ^ long.bits)

def Long.fromStart (long : Long) (len : ℕ) (i : ℤ) : ℤ :=
  if i < 0 then max 0 (long.wrap (len + i)) else i

def newlenOf (first last : ℤ) : ℕ := if first > last then 0 else (last - first + 1).toNat

def rangePlace (long : Long) (len : ℕ) (first last : ℤ) : ℤ × ℕ :=
  if newlenOf first last ≠ 0 then
    if (len % 2 ^ 32 : ℕ) ≤ first then (first, 0)
    else if (len % 2 ^ long.bits : ℕ) ≤ last then (first, newlenOf first (long.wrap (len - 1)))
    else (first, newlenOf first last)
  else (0, newlenOf first last)

def sdsrange (long : Long) (s : Sds) (start stop : ℤ) : Except Fault Sds :=
  let len := s.sdslen
  if len = 0 then return s
  else do
    let place := rangePlace long len (long.fromStart len start) (long.fromStart len stop)
    let s ← (if place.1 ≠ 0 ∧ place.2 ≠ 0 then s.moveDown place.1.toNat place.2
      else pure s : Except Fault Sds)
    let s ← s.write place.2 [nul]
    return s.sdssetlen place.2

def Sds.mapBytes (s : Sds) (f : UInt8 → UInt8) : Except Fault Sds := do
  s.write 0 ((← s.read 0 s.sdslen).map f)

def toupper (c : UInt8) : UInt8 := if 0x61 ≤ c && c ≤ 0x7A then c - 0x20 else c

def sdstolower (s : Sds) : Except Fault Sds := s.mapBytes tolower

def sdstoupper (s : Sds) : Except Fault Sds := s.mapBytes toupper

def sdsmapchars (s : Sds) (set : List (UInt8 × UInt8)) : Except Fault Sds :=
  s.mapBytes fun c => (set.lookup c).getD c

end Xdccget.SdsStrings
