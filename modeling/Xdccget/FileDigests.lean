import Xdccget.HashStrings
import Xdccget.Md5Digests

set_option autoImplicit false

/-!
# Digests of files

`readFile` hands a file over in buffers of `BUFSIZ` bytes and takes a shorter one for the
end, and the checksum thread compares the digest of what it got with the announced one.
-/
namespace Xdccget.FileDigests
open CText HashStrings StreamedBlocks Md5

/-- `FILE_READ_BUFFER_SIZE`, which is an `int`. -/
structure BufferSize where
  size : ℕ
  pos : 0 < size
  lt : size < 2 ^ 31

/-- What `read` does at a place of the file: it fails, or it gives at most so many bytes, but none
    only at the end. -/
abbrev ReadAnswers := ℕ → Option ℕ

/-- The loop of `Read` without `FILE_API`: the bytes read, and the rest of the file. -/
def readLoop (answer : ReadAnswers) : ℕ → ℕ → ℕ → Bytes → Option (Bytes × Bytes)
  | 0, _, _, _ => none
  | fuel + 1, pos, count, rest =>
    match answer pos with
    | none => none
    | some most =>
      let got := rest.take (min count (max most 1))
      if got.length = 0 then some ([], rest)
      else if got.length < count then
        (readLoop answer fuel (pos + got.length) (count - got.length)
          (rest.drop got.length)).map fun r => (got ++ r.1, r.2)
      else some (got, rest.drop got.length)

/-- With `FILE_API`, the file is a stream, which may fail behind so many bytes. -/
inductive Api
  | stdio (failsBehind : Option ℕ)
  | unistd (answer : ReadAnswers)

/-- `fread` gives less at the end and where the stream fails. -/
def Api.Read (api : Api) (pos count : ℕ) (rest : Bytes) : Option (Bytes × Bytes) :=
  match api with
  | .stdio none => some (rest.take count, rest.drop count)
  | .stdio (some limit) =>
    let got := rest.take (min count (limit - pos))
    some (got, rest.drop got.length)
  | .unistd answer => readLoop answer count pos count rest

def Api.readable (api : Api) (content : Bytes) : Bytes :=
  match api with
  | .stdio (some limit) => content.take limit
  | _ => content

section reading
variable {σ : Type}

/-- The loop of `readFile`. A failing `read` ends the program. -/
def readFileLoop (api : Api) (b : BufferSize) (callback : Bytes → σ → σ) :
    ℕ → ℕ → Bytes → σ → Option σ
  | 0, _, _, _ => none
  | fuel + 1, pos, rest, ctx =>
    match api.Read pos b.size rest with
    | none => none
    | some (buffer, rest) =>
      let ctx := callback buffer ctx
      if buffer.length = b.size then
        readFileLoop api b callback fuel (pos + buffer.length) rest ctx
      else some ctx

/-- `readFile` on an open file; there are no more than `length + 1` buffers. -/
def readFile (api : Api) (b : BufferSize) (content : Bytes) (callback : Bytes → σ → σ) (ctx : σ) :
    Option σ :=
  readFileLoop api b callback (content.length + 1) 0 content ctx

end reading

/-- `updateHash`; `bytesRead` is an `unsigned int`, and `addr` is where the buffer is. -/
def updateHash (build : Build) (addr : ℕ) (buffer : Bytes) (ctx : Md5Context) : Md5Context :=
  sphMd5 build ctx addr (buffer.take (buffer.length % 2 ^ 32))

def getHashFromFile (build : Build) (api : Api) (b : BufferSize) (addr : ℕ) (ctx : Md5Context)
    (content : Bytes) : Option Bytes :=
  (readFile api b content (updateHash build addr) (sphMd5Init build ctx)).map fun ctx =>
    (sphMd5Close build ctx).2

inductive Verdict
  | succeeded
  | failed
deriving DecidableEq

def Verdict.text : Verdict → Bytes
  | .succeeded => bytes "Checksum-Verification succeeded!"
  | .failed => bytes "Checksum-Verification failed!"

/-- `checksum_verification_thread`: `none` where the program exits. -/
def checksumVerificationThread (build : Build) (api : Api) (b : BufferSize) (addr : ℕ)
    (ctx : Md5Context) (files : Bytes → Option Bytes) (expectedHash : ℕ → UInt8)
    (completePath : Bytes) : Option Verdict :=
  match files completePath with
  | none => none
  | some content =>
    (getHashFromFile build api b addr ctx content).map fun hashFromFile =>
      if md5EqualSph (convertHashStringToBinary md5Size expectedHash) hashFromFile then .succeeded
      else .failed

section reading
variable {σ : Type} {api : Api}

/-- `Read` gives all that it is asked for, or all there is. -/
theorem readLoop_eq {answer : ReadAnswers} {fuel pos count : ℕ} {rest : Bytes} (hcount : 0 < count)
    (hfuel : count ≤ fuel) {r : Bytes × Bytes} (h : readLoop answer fuel pos count rest = some r) :
    r = (rest.take count, rest.drop count) := by
  induction fuel generalizing pos count rest r with
  | zero => omega
  | succ fuel ih =>
    rw [readLoop] at h
    cases hanswer : answer pos with
    | none => simp [hanswer] at h
    | some most =>
      simp only [hanswer] at h
      generalize hk : min count (max most 1) = k at h
      have hk1 : 1 ≤ k := by omega
      have hlen : (rest.take k).length = min k rest.length := List.length_take
      have hcut : rest.take (rest.take k).length = rest.take k := by
        rw [List.take_eq_take_iff]
        omega
      split_ifs at h with hzero hless
      · have hnil : rest = [] := List.length_eq_zero_iff.mp (by omega)
        cases h
        rw [hnil, List.take_nil, List.drop_nil]
      · obtain ⟨r', hr', rfl⟩ := Option.map_eq_some_iff.mp h
        have hsum : count = (rest.take k).length + (count - (rest.take k).length) := by omega
        rw [ih (by omega) (by omega) hr']
        dsimp only
        conv_rhs => rw [hsum]
        rw [List.take_add, hcut, List.drop_drop]
      · have hk : (rest.take k).length = count := by omega
        rw [hk] at hcut h
        cases h
        rw [hcut]

theorem exists_readLoop {answer : ReadAnswers} (hanswer : ∀ pos, answer pos ≠ none)
    {fuel count : ℕ} (hcount : 0 < count) (hfuel : count ≤ fuel) (pos : ℕ) (rest : Bytes) :
    ∃ r, readLoop answer fuel pos count rest = some r := by
  induction fuel generalizing pos count rest with
  | zero => omega
  | succ fuel ih =>
    obtain ⟨most, hmost⟩ := Option.ne_none_iff_exists'.mp (hanswer pos)
    simp only [readLoop, hmost]
    split_ifs with hzero hless
    · exact ⟨_, rfl⟩
    · have hleft : 0 < count - (rest.take (min count (max most 1))).length := by omega
      obtain ⟨r, hr⟩ := ih hleft (by omega) (pos + (rest.take (min count (max most 1))).length)
        (rest.drop (rest.take (min count (max most 1))).length)
      rw [hr]
      exact ⟨_, rfl⟩
    · exact ⟨_, rfl⟩

/-- No `read` of the file fails. -/
def Api.Reads : Api → Prop
  | .stdio _ => True
  | .unistd answer => ∀ pos, answer pos ≠ none

theorem read_eq {pos count : ℕ} {content : Bytes} {r : Bytes × Bytes} (hcount : 0 < count)
    (h : api.Read pos count (content.drop pos) = some r) :
    r.1 = ((api.readable content).drop pos).take count ∧
      (r.1.length = count → r.2 = content.drop (pos + count)) := by
  cases api with
  | stdio failsBehind =>
    cases failsBehind with
    | none =>
      obtain rfl := Option.some.inj h
      exact ⟨rfl, fun _ => List.drop_drop⟩
    | some limit =>
      obtain rfl := Option.some.inj h
      refine ⟨?_, fun hlen => ?_⟩
      · rw [Api.readable, List.drop_take, List.take_take]
      · dsimp only at hlen ⊢
        rw [hlen, List.drop_drop]
  | unistd answer =>
    rw [readLoop_eq hcount le_rfl h]
    exact ⟨rfl, fun _ => List.drop_drop⟩

theorem exists_read (hreads : api.Reads) {count : ℕ} (hcount : 0 < count) (pos : ℕ) (rest : Bytes) :
    ∃ r, api.Read pos count rest = some r := by
  cases api with
  | stdio failsBehind => cases failsBehind <;> exact ⟨_, rfl⟩
  | unistd answer => exact exists_readLoop hreads hcount le_rfl pos rest

theorem readFileLoop_eq {b : BufferSize} {callback : Bytes → σ → σ} {content : Bytes}
    {fuel pos : ℕ} {ctx ctx' : σ}
    (h : readFileLoop api b callback fuel pos (content.drop pos) ctx = some ctx') :
    ∃ buffers : List Bytes, (∀ buffer ∈ buffers, buffer.length ≤ b.size) ∧
      buffers.flatten = (api.readable content).drop pos ∧
      ctx' = buffers.foldl (fun ctx buffer => callback buffer ctx) ctx := by
  induction fuel generalizing pos ctx with
  | zero => simp [readFileLoop] at h
  | succ fuel ih =>
    rw [readFileLoop] at h
    cases hr : api.Read pos b.size (content.drop pos) with
    | none => simp [hr] at h
    | some r =>
      obtain ⟨hgot, hrest⟩ := read_eq b.pos hr
      have hle : r.1.length ≤ b.size := by
        rw [hgot, List.length_take]
        omega
      simp only [hr] at h
      split_ifs at h with hfull
      · rw [hfull, hrest hfull] at h
        obtain ⟨buffers, hsizes, hflatten, hctx⟩ := ih h
        refine ⟨r.1 :: buffers, ?_, ?_, ?_⟩
        · simpa using ⟨hle, hsizes⟩
        · rw [List.flatten_cons, hflatten, hgot, ← List.drop_drop, List.take_append_drop]
        · rw [List.foldl_cons, hctx]
      · refine ⟨[r.1], ?_, ?_, ?_⟩
        · simpa using hle
        · have hshort : ((api.readable content).drop pos).length ≤ b.size := by
            rw [hgot, List.length_take] at hfull
            omega
          rw [List.flatten_singleton, hgot, List.take_of_length_le hshort]
        · exact (Option.some.inj h).symm

theorem exists_readFileLoop (hreads : api.Reads) (b : BufferSize) (callback : Bytes → σ → σ)
    {content : Bytes} {fuel pos : ℕ} (hpos : pos ≤ (api.readable content).length)
    (hfuel : (api.readable content).length < fuel + pos) (ctx : σ) :
    ∃ ctx', readFileLoop api b callback fuel pos (content.drop pos) ctx = some ctx' := by
  induction fuel generalizing pos ctx with
  | zero => omega
  | succ fuel ih =>
    obtain ⟨r, hr⟩ := exists_read hreads b.pos pos (content.drop pos)
    obtain ⟨hgot, hrest⟩ := read_eq b.pos hr
    have hsize := b.pos
    simp only [readFileLoop, hr]
    split_ifs with hfull
    · have hroom : pos + b.size ≤ (api.readable content).length := by
        rw [hgot, List.length_take, List.length_drop] at hfull
        omega
      rw [hfull, hrest hfull]
      exact ih hroom (by omega) _
    · exact ⟨_, rfl⟩

end reading

section hashing
variable (build : Build) {api : Api} (b : BufferSize) (addr : ℕ)

theorem length_readable (api : Api) (content : Bytes) : (api.readable content).length ≤ content.length := by
  unfold Api.readable
  split
  · rw [List.length_take]
    omega
  · exact le_rfl

theorem takes_updateHash {m : Bytes} {sc : Md5Context} (h : Takes m sc) {buffers : List Bytes}
    (hsizes : ∀ buffer ∈ buffers, buffer.length ≤ b.size) :
    Takes (m ++ buffers.flatten)
      (buffers.foldl (fun ctx buffer => updateHash build addr buffer ctx) sc) := by
  induction buffers generalizing m sc with
  | nil => rwa [List.flatten_nil, List.append_nil]
  | cons buffer buffers ih =>
    have hsize := hsizes buffer List.mem_cons_self
    have hlt := b.lt
    have hmod : buffer.length % 2 ^ 32 = buffer.length := Nat.mod_eq_of_lt (by omega)
    have hstep := takes_sphMd5 build h addr buffer
    rw [List.flatten_cons, ← List.append_assoc, List.foldl_cons, updateHash, hmod, List.take_length]
    exact ih hstep fun other hother => hsizes other (List.mem_cons_of_mem _ hother)

theorem getHashFromFile_eq {ctx : Md5Context} (hbuf : ctx.buf.length = 64) {content hash : Bytes}
    (h : getHashFromFile build api b addr ctx content = some hash) :
    hash = md5 ((api.readable content).flatMap bitsOf) := by
  obtain ⟨ctx', hread, rfl⟩ := Option.map_eq_some_iff.mp h
  obtain ⟨buffers, hsizes, hflatten, rfl⟩ := readFileLoop_eq hread
  rw [List.drop_zero] at hflatten
  have htakes := takes_updateHash build b addr (takes_init build hbuf) hsizes
  rw [List.nil_append, hflatten] at htakes
  have hclose := (htakes.close build 0 (n := 0) (by omega)).2
  rw [List.take_zero, List.append_nil] at hclose
  exact hclose

theorem exists_getHashFromFile (hreads : api.Reads) (ctx : Md5Context) (content : Bytes) :
    ∃ hash, getHashFromFile build api b addr ctx content = some hash := by
  have hlen := length_readable api content
  have hfuel : (api.readable content).length < content.length + 1 + 0 := by omega
  obtain ⟨ctx', hctx'⟩ := exists_readFileLoop hreads b (updateHash build addr) (Nat.zero_le _) hfuel
    (sphMd5Init build ctx)
  rw [List.drop_zero] at hctx'
  rw [getHashFromFile, readFile, hctx']
  exact ⟨_, rfl⟩

theorem length_md5 (m : List Bool) : (md5 m).length = md5Size := by
  simp only [md5, List.length_flatMap, List.map_cons, List.map_nil, littleEndian, List.length_map,
    List.length_range]
  rfl

def sumOf (content : Bytes) : Digest := ⟨md5 (content.flatMap bitsOf), length_md5 _⟩

/-- The thread succeeds exactly where the announced text is the sum of what can be read; characters
    that are no digits count as the digit 0. -/
theorem verdict_of_file (hreads : api.Reads) (memory : Vector UInt8 64) (val : Words)
    (count : Count) {files : Bytes → Option Bytes} {completePath content : Bytes}
    (hfile : files completePath = some content) (s : HashString) :
    ∃ verdict, checksumVerificationThread build api b addr (allocated memory val count) files
        s.memory completePath = some verdict ∧
      (verdict = .succeeded ↔
        List.Forall₂ Fits s.text (md5ToString (sumOf (api.readable content)).bytes)) ∧
      ((∀ c ∈ s.text, isxdigit c = true) →
        (verdict = .succeeded ↔ Renders s (sumOf (api.readable content)))) := by
  obtain ⟨hash, hhash⟩ :=
    exists_getHashFromFile build b addr hreads (allocated memory val count) content
  have hsum : hash = (sumOf (api.readable content)).bytes :=
    getHashFromFile_eq build b addr memory.length_toList hhash
  have hverifies : ((if md5EqualSph (convertHashStringToBinary md5Size s.memory) hash then
      Verdict.succeeded else .failed) = .succeeded) ↔
        verifies s (sumOf (api.readable content)) = true := by
    rw [hsum, verifies]
    split_ifs with h <;> simp [h]
  refine ⟨_, by rw [checksumVerificationThread, hfile]; dsimp only; rw [hhash]; rfl, ?_, ?_⟩
  · rw [hverifies, verifies_iff]
  · intro hdigits
    rw [hverifies, renders_iff, and_iff_right hdigits]

end hashing

def HashString.ofA : HashString := ⟨bytes "0CC175B9C0F1B6A831C399E269772661", by decide⟩

theorem sumOf_a : (sumOf (bytes "a")).bytes = Digest.ofA.bytes := by
  decide +kernel

/-- A file that holds `a`, read byte by byte. -/
theorem file_of_a_verifies :
    checksumVerificationThread ⟨true, true, true⟩ (.unistd fun _ => some 1)
      ⟨8192, by decide, by decide⟩ 0 (allocated (Vector.replicate 64 0xFF) IV (.wide 7))
      (fun _ => some (bytes "a")) HashString.ofA.memory (bytes "f") = some .succeeded := by
  obtain ⟨verdict, hverdict, -, hdigits⟩ := @verdict_of_file ⟨true, true, true⟩
    (.unistd fun _ => some 1) ⟨8192, by decide, by decide⟩ 0 (fun _ => by simp)
    (Vector.replicate 64 0xFF) IV (.wide 7) (fun _ => some (bytes "a")) (bytes "f") (bytes "a") rfl
    HashString.ofA
  rw [hverdict, (hdigits (by decide +kernel)).mpr]
  change Renders _ (sumOf (bytes "a"))
  rw [Renders, sumOf_a]
  decide

end Xdccget.FileDigests
