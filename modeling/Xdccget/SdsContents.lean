import Xdccget.SdsStrings

set_option autoImplicit false

/-!
# What a dynamic string holds

Every operation makes of the contents of a string what its name says, and stays inside the
buffer.
-/
namespace Xdccget.SdsStrings
open CText ConfigText TerminatedBuffers SdsType
open StreamedBlocks hiding Holds

structure Sds.Is (s : Sds) (contents : Bytes) : Prop where
  holds : Holds s.buf nul contents
  len : s.len = contents.length
  fits : contents.length ≤ s.sdsalloc
  small : s.sdsalloc < 2 ^ s.type.bits
  room : s.sdsalloc < s.buf.length

inductive Outcome {α : Type} (m : Malloc) (P : α → Prop) : Except Fault α → Prop
  | refused (n : ℕ) (h : m.block n = none) : Outcome m P (.error .noMemory)
  | ok (a : α) (h : P a) : Outcome m P (.ok a)

theorem Outcome.bind {α β : Type} {m : Malloc} {P : α → Prop} {Q : β → Prop} {r : Except Fault α}
    {f : α → Except Fault β} (h : Outcome m P r) (hf : ∀ a, P a → Outcome m Q (f a)) :
    Outcome m Q (r >>= f) := by
  cases h with
  | refused n h => exact .refused n h
  | ok a h => exact hf a h

theorem Outcome.mono {α : Type} {m : Malloc} {P Q : α → Prop} {r : Except Fault α}
    (h : Outcome m P r) (hPQ : ∀ a, P a → Q a) : Outcome m Q r := by
  cases h with
  | refused n h => exact .refused n h
  | ok a h => exact .ok a (hPQ a h)

/-- The lengths that the header has room for, with what is allocated in advance. -/
def Long.limit : Long → ℕ
  | .bits32 => 2 ^ 32
  | .bits64 => 2 ^ 64 - 18

def Fits (long : Long) (n : ℕ) : Prop := n + sdsMaxPrealloc < long.limit

section headers
variable {long : Long} {n : ℕ}

theorem Long.limit_le (long : Long) : long.limit + 18 ≤ 2 ^ 64 := by
  cases long <;> simp [Long.limit]

theorem sdsHdrSize_le (type : SdsType) : sdsHdrSize type ≤ 17 := by
  cases type <;> simp [sdsHdrSize]

theorem lt_sdsReqType (h : n < long.limit) : n < 2 ^ (sdsReqType long n).bits := by
  have hlimit := long.limit_le
  cases long with
  | bits32 =>
    unfold sdsReqType
    dsimp only
    split_ifs with h5 h8 h16
    · exact h5
    · exact h8
    · exact h16
    · exact h
  | bits64 =>
    unfold sdsReqType
    dsimp only
    split_ifs with h5 h8 h16 h32
    · exact h5
    · exact h8
    · exact h16
    · exact h32
    · simp only [SdsType.bits]
      omega

theorem preallocated_bounds (h : Fits long n) : n ≤ preallocated n ∧ preallocated n < long.limit := by
  have hlimit := long.limit_le
  rw [Fits, sdsMaxPrealloc] at h
  unfold preallocated sdsMaxPrealloc
  have hmax : 2 ^ 32 ≤ long.limit := by cases long <;> simp [Long.limit]
  split_ifs with hn
  · rw [Nat.mod_eq_of_lt (by omega)]
    omega
  · rw [Nat.mod_eq_of_lt (by omega)]
    omega

end headers

section memory
variable {m : Malloc} {s : Sds} {contents : Bytes}

theorem Malloc.malloc_outcome (m : Malloc) {hdrlen newlen : ℕ} (h : hdrlen + newlen + 1 < 2 ^ 64) :
    Outcome m (fun b => b.length = newlen + 1) (m.malloc hdrlen newlen) := by
  unfold Malloc.malloc
  rw [Nat.mod_eq_of_lt h]
  cases hb : m.block (hdrlen + newlen + 1) with
  | none => exact .refused _ hb
  | some b =>
    refine .ok _ ?_
    have hlen := m.sized _ _ hb
    rw [List.length_drop]
    omega

theorem Malloc.realloc_outcome (m : Malloc) {hdrlen newlen : ℕ} (h : hdrlen + newlen + 1 < 2 ^ 64)
    (buf : Bytes) : Outcome m (fun b => b.length = newlen + 1 ∧
      ∃ fresh, b = buf.take (newlen + 1) ++ fresh) (m.realloc hdrlen newlen buf) := by
  refine (m.malloc_outcome h).bind fun fresh hfresh => .ok _ ⟨?_, fresh.drop buf.length, ?_⟩
  · rw [List.length_append, List.length_take, List.length_drop]
    omega
  · rw [hfresh]

theorem Sds.write_eq {pos : ℕ} {data : Bytes} (h : pos + data.length ≤ s.buf.length) :
    s.write pos data = .ok { s with buf := overwrite s.buf pos data } := by
  rw [Sds.write, if_pos h]
  rfl

theorem Sds.read_eq {pos n : ℕ} (h : pos + n ≤ s.buf.length) :
    s.read pos n = .ok ((s.buf.drop pos).take n) := by
  rw [Sds.read, if_pos h]
  rfl

theorem Sds.Is.lt (h : s.Is contents) : contents.length < 2 ^ s.type.bits :=
  lt_of_le_of_lt h.fits h.small

theorem Sds.Is.avail (h : s.Is contents) : s.sdsavail = s.sdsalloc - contents.length := by
  have hfits := h.fits
  have hsmall := h.small
  have hlen := h.len
  unfold Sds.sdsavail Sds.sdsalloc at *
  cases htype : s.type <;> simp only [htype, SdsType.bits, reduceCtorEq, if_true, if_false] at * <;>
    omega

theorem Sds.Is.stored (h : s.Is contents) {buf new : Bytes} (hholds : Holds buf nul new)
    (hbuf : buf.length = s.buf.length) (hnew : new.length ≤ s.sdsalloc) :
    Sds.Is { s with buf, len := new.length % 2 ^ s.type.bits } new := by
  have hsmall := h.small
  have hroom := h.room
  have hlt : new.length < 2 ^ s.type.bits := lt_of_le_of_lt hnew hsmall
  rw [Nat.mod_eq_of_lt hlt]
  refine ⟨hholds, rfl, ?_, ?_, ?_⟩
  all_goals
    unfold Sds.sdsalloc at *
    dsimp only at *
    split_ifs at * <;> omega

theorem Sds.Is.headed {type : SdsType} (htype : type ≠ SDS_TYPE_5) {buf : Bytes} {newlen : ℕ}
    (hholds : Holds buf nul contents) (hfits : contents.length ≤ newlen)
    (hsmall : newlen < 2 ^ type.bits) (hbuf : buf.length = newlen + 1) :
    Sds.Is ⟨type, contents.length, newlen, buf⟩ contents := by
  have halloc : Sds.sdsalloc ⟨type, contents.length, newlen, buf⟩ = newlen := if_neg htype
  refine ⟨hholds, rfl, ?_, ?_, ?_⟩ <;> rw [halloc]
  · exact hfits
  · exact hsmall
  · dsimp only
    omega

/-- A header for just the contents; without one for the capacity, `alloc` does not matter. -/
theorem Sds.Is.fresh {type : SdsType} {alloc : ℕ}
    (halloc : type ≠ SDS_TYPE_5 → alloc = contents.length) {buf : Bytes}
    (hholds : Holds buf nul contents) (hsmall : contents.length < 2 ^ type.bits)
    (hbuf : buf.length = contents.length + 1) :
    Sds.Is ⟨type, contents.length, alloc, buf⟩ contents := by
  have hsame : Sds.sdsalloc ⟨type, contents.length, alloc, buf⟩ = contents.length := by
    unfold Sds.sdsalloc
    dsimp only
    split_ifs with htype
    · rfl
    · exact halloc htype
  refine ⟨hholds, rfl, ?_, ?_, ?_⟩ <;> rw [hsame]
  · exact hsmall
  · dsimp only
    omega

theorem appendType_ne (long : Long) (newlen : ℕ) : appendType long newlen ≠ SDS_TYPE_5 := by
  unfold appendType
  split_ifs with h
  · exact SdsType.noConfusion
  · exact h

theorem lt_appendType {long : Long} {newlen : ℕ} (h : newlen < long.limit) :
    newlen < 2 ^ (appendType long newlen).bits := by
  have hreq := lt_sdsReqType h
  unfold appendType
  split_ifs with h5
  · rw [h5] at hreq
    simp only [SdsType.bits] at hreq ⊢
    omega
  · exact hreq

theorem Sds.Is.makeRoom (h : s.Is contents) (long : Long) (m : Malloc) {addlen : ℕ}
    (hfits : Fits long (contents.length + addlen)) :
    Outcome m (fun s' => s'.Is contents ∧ contents.length + addlen ≤ s'.sdsalloc)
      (sdsMakeRoomFor long m s addlen) := by
  have hlimit := long.limit_le
  have hbounds := preallocated_bounds hfits
  have hroom := h.room
  have hold := h.fits
  have havail := h.avail
  unfold sdsMakeRoomFor
  by_cases hleft : addlen ≤ s.sdsavail
  · rw [if_pos hleft]
    refine .ok _ ⟨h, ?_⟩
    omega
  · have hsum : contents.length + addlen < 2 ^ 64 := by
      rw [Fits] at hfits
      omega
    rw [if_neg hleft, Sds.sdslen, h.len, Nat.mod_eq_of_lt hsum]
    generalize preallocated (contents.length + addlen) = newlen at hbounds ⊢
    dsimp only
    have htype := appendType_ne long newlen
    have hsmall := lt_appendType hbounds.2
    have hhdr := sdsHdrSize_le (appendType long newlen)
    have hsize : sdsHdrSize (appendType long newlen) + newlen + 1 < 2 ^ 64 := by omega
    have hlt := h.lt
    generalize appendType long newlen = type at *
    have henough : contents.length + addlen ≤ Sds.sdsalloc ⟨type, contents.length, newlen, []⟩ := by
      rw [Sds.sdsalloc, if_neg htype]
      exact hbounds.1
    by_cases hsame : s.type = type
    · rw [if_pos hsame]
      refine (m.realloc_outcome hsize s.buf).bind fun buf hbuf => .ok _ ?_
      obtain ⟨hlen, fresh, rfl⟩ := hbuf
      rw [Sds.sdssetalloc, if_neg (hsame ▸ htype), hsame, Nat.mod_eq_of_lt hsmall]
      refine ⟨Sds.Is.headed htype (h.holds.resized (by omega) fresh) (by omega) hsmall hlen, ?_⟩
      exact henough
    · rw [if_neg hsame]
      refine (m.malloc_outcome hsize).bind fun buf hbuf => ?_
      have hread : s.read 0 (contents.length + 1) = .ok (s.buf.take (contents.length + 1)) := by
        rw [Sds.read_eq (by omega), List.drop_zero]
      have hcopied := h.holds.copied buf
      have hcopy : 0 + (s.buf.take (contents.length + 1)).length ≤ buf.length := by
        rw [List.length_take]
        omega
      rw [hread]
      change Outcome m _ (Sds.write _ 0 _ >>= _)
      rw [Sds.write_eq hcopy]
      refine .ok _ ?_
      rw [Sds.sdssetlen, Sds.sdssetalloc, if_neg htype]
      dsimp only
      rw [Nat.mod_eq_of_lt hsmall, Nat.mod_eq_of_lt (by omega)]
      refine ⟨Sds.Is.headed htype hcopied (by omega) hsmall ?_, henough⟩
      rw [length_overwrite hcopy, hbuf]

theorem Sds.Is.removeFreeSpace (h : s.Is contents) (long : Long) (m : Malloc)
    (hfits : Fits long contents.length) :
    Outcome m (fun s' => s'.Is contents) (sdsRemoveFreeSpace long m s) := by
  have hlimit := long.limit_le
  have hroom := h.room
  have hold := h.fits
  have hlt := h.lt
  have hreq : contents.length < 2 ^ (sdsReqType long contents.length).bits := by
    apply lt_sdsReqType
    rw [Fits] at hfits
    omega
  have hsize : ∀ type, sdsHdrSize type + contents.length + 1 < 2 ^ 64 := by
    intro type
    have hhdr := sdsHdrSize_le type
    rw [Fits, sdsMaxPrealloc] at hfits
    omega
  unfold sdsRemoveFreeSpace
  by_cases hnone : s.sdsavail = 0
  · rw [if_pos hnone]
    exact .ok _ h
  · have htype : s.type ≠ SDS_TYPE_5 := by
      intro hfive
      rw [Sds.sdsavail, hfive] at hnone
      exact hnone rfl
    rw [if_neg hnone, Sds.sdslen, h.len]
    dsimp only
    generalize sdsReqType long contents.length = type at hreq ⊢
    by_cases hkeep : s.type = type ∨ SDS_TYPE_8.bits < type.bits
    · rw [if_pos hkeep]
      refine (m.realloc_outcome (hsize _) s.buf).bind fun buf hbuf => .ok _ ?_
      obtain ⟨hlen, fresh, rfl⟩ := hbuf
      rw [Sds.sdssetalloc, if_neg htype, Nat.mod_eq_of_lt hlt]
      exact Sds.Is.headed htype (h.holds.resized (by omega) fresh) le_rfl hlt hlen
    · rw [if_neg hkeep]
      refine (m.malloc_outcome (hsize _)).bind fun buf hbuf => ?_
      have hread : s.read 0 (contents.length + 1) = .ok (s.buf.take (contents.length + 1)) := by
        rw [Sds.read_eq (by omega), List.drop_zero]
      have hcopied := h.holds.copied buf
      have hcopy : 0 + (s.buf.take (contents.length + 1)).length ≤ buf.length := by
        rw [List.length_take]
        omega
      rw [hread]
      change Outcome m _ (Sds.write _ 0 _ >>= _)
      rw [Sds.write_eq hcopy]
      refine .ok _ ?_
      have hbuf' := (length_overwrite hcopy).trans hbuf
      unfold Sds.sdssetalloc Sds.sdssetlen
      dsimp only
      rw [Nat.mod_eq_of_lt hreq]
      split_ifs with hfive
      · exact Sds.Is.fresh (fun hne => absurd hfive hne) hcopied hreq hbuf'
      · exact Sds.Is.fresh (fun _ => rfl) hcopied hreq hbuf'

theorem Sds.Is.catlen (h : s.Is contents) (long : Long) (m : Malloc) {t : Bytes}
    (hfits : Fits long (contents.length + t.length)) :
    Outcome m (fun s' => s'.Is (contents ++ t)) (sdscatlen long m s t) := by
  unfold sdscatlen
  rw [Sds.sdslen, h.len]
  refine (h.makeRoom long m hfits).bind fun s' ⟨h', henough⟩ => ?_
  have hroom := h'.room
  have hfirst : contents.length + t.length ≤ s'.buf.length := by omega
  have hsame := length_overwrite hfirst
  have hlast : contents.length + t.length + [nul].length ≤
      (overwrite s'.buf contents.length t).length := by
    rw [hsame, List.length_singleton]
    omega
  have hholds := h'.holds.append (by omega : contents.length + t.length < s'.buf.length)
  rw [Sds.write_eq hfirst]
  change Outcome m _ (Sds.write _ _ _)
  rw [Sds.sdssetlen, Sds.write_eq hlast]
  refine .ok _ ?_
  rw [← List.length_append] at hlast henough hholds ⊢
  exact h'.stored hholds ((length_overwrite hlast).trans hsame) henough

theorem Sds.Is.cpylen (h : s.Is contents) (long : Long) (m : Malloc) {t : Bytes}
    (hfits : Fits long (max contents.length t.length)) :
    Outcome m (fun s' => s'.Is t) (sdscpylen long m s t) := by
  unfold sdscpylen
  have hgrown : Outcome m (fun s' => s'.Is contents ∧ t.length ≤ s'.sdsalloc)
      (if s.sdsalloc < t.length then sdsMakeRoomFor long m s (t.length - s.sdslen) else pure s) := by
    split_ifs with hsmall
    · have hold := h.fits
      have hsum : contents.length + (t.length - s.sdslen) = t.length := by
        rw [Sds.sdslen, h.len]
        omega
      have hmax : max contents.length t.length = t.length := by omega
      have hroom := h.makeRoom long m (by rwa [hsum, ← hmax] : Fits long (contents.length + (t.length - s.sdslen)))
      rwa [hsum] at hroom
    · exact .ok _ ⟨h, by omega⟩
  refine hgrown.bind fun s' ⟨h', henough⟩ => ?_
  have hroom := h'.room
  have hfirst : 0 + t.length ≤ s'.buf.length := by omega
  have hsame := length_overwrite hfirst
  have hlast : t.length + [nul].length ≤ (overwrite s'.buf 0 t).length := by
    rw [hsame, List.length_singleton]
    omega
  rw [Sds.write_eq hfirst]
  change Outcome m _ (Sds.write _ _ _ >>= _)
  rw [Sds.write_eq hlast]
  exact .ok _ (h'.stored (holds_replaced nul (by omega)) ((length_overwrite hlast).trans hsame) henough)

theorem Sds.Is.growzero (h : s.Is contents) (long : Long) (m : Malloc) {len : ℕ}
    (hfits : Fits long (max contents.length len)) :
    Outcome m (fun s' => s'.Is (contents ++ List.replicate (len - contents.length) nul))
      (sdsgrowzero long m s len) := by
  unfold sdsgrowzero
  dsimp only
  rw [Sds.sdslen, h.len]
  split_ifs with hshort
  · rw [Nat.sub_eq_zero_of_le hshort, List.replicate_zero, List.append_nil]
    exact .ok _ h
  · have hsum : contents.length + (len - contents.length) = len := by omega
    have hmax : max contents.length len = len := by omega
    rw [hmax] at hfits
    refine (h.makeRoom long m (hsum.symm ▸ hfits)).bind fun s' ⟨h', henough⟩ => ?_
    have hroom := h'.room
    have hzeros : (List.replicate (len - contents.length) nul).length = len - contents.length :=
      List.length_replicate
    have hwrite : contents.length + (List.replicate (len - contents.length + 1) nul).length ≤
        s'.buf.length := by
      rw [List.length_replicate]
      omega
    have hholds := h'.holds.append (by rw [hzeros]; omega : contents.length +
      (List.replicate (len - contents.length) nul).length < s'.buf.length)
    rw [overwrite_overwrite (by omega) rfl, ← List.replicate_succ'] at hholds
    rw [Sds.write_eq hwrite]
    refine .ok _ ?_
    have hnew : (contents ++ List.replicate (len - contents.length) nul).length = len := by
      rw [List.length_append, hzeros, hsum]
    have hstored := h'.stored hholds (length_overwrite hwrite) (by rw [hnew]; omega)
    rwa [hnew] at hstored

theorem sdsnewlen_outcome (long : Long) (m : Malloc) {init : Bytes}
    (hfits : Fits long init.length) :
    Outcome m (fun s => s.Is init) (sdsnewlen long m init) := by
  have hlimit := long.limit_le
  have hreq : init.length < 2 ^ (sdsReqType long init.length).bits := by
    apply lt_sdsReqType
    rw [Fits] at hfits
    omega
  unfold sdsnewlen
  dsimp only
  have hsmall : init.length < 2 ^ (if sdsReqType long init.length = SDS_TYPE_5 ∧ init.length = 0
      then SDS_TYPE_8 else sdsReqType long init.length).bits := by
    split_ifs with hempty
    · rw [hempty.2]
      exact Nat.two_pow_pos _
    · exact hreq
  generalize (if sdsReqType long init.length = SDS_TYPE_5 ∧ init.length = 0 then SDS_TYPE_8
    else sdsReqType long init.length) = type at hsmall ⊢
  have hhdr := sdsHdrSize_le type
  have hsize : sdsHdrSize type + init.length + 1 < 2 ^ 64 := by
    rw [Fits, sdsMaxPrealloc] at hfits
    omega
  refine (m.malloc_outcome hsize).bind fun buf hbuf => ?_
  have hfirst : 0 + init.length ≤ buf.length := by omega
  have hsame := length_overwrite hfirst
  have hlast : init.length + [nul].length ≤ (overwrite buf 0 init).length := by
    rw [hsame, List.length_singleton]
    omega
  have hcopy : ∀ s : Sds, s.buf = buf → (if init = [] then pure s else s.write 0 init) =
      .ok { s with buf := overwrite buf 0 init } := by
    intro s hs
    split_ifs with hnil
    · rw [hnil, overwrite_nil, ← hs]
      rfl
    · rw [Sds.write_eq (hs ▸ hfirst), hs]
  rw [hcopy _ rfl]
  change Outcome m _ (Sds.write _ _ _)
  rw [Sds.write_eq hlast, Nat.mod_eq_of_lt hsmall]
  refine .ok _ (Sds.Is.fresh (fun _ => rfl) (holds_replaced nul (by omega)) hsmall ?_)
  rw [length_overwrite hlast, hsame, hbuf]

theorem Sds.Is.clear (h : s.Is contents) : ∃ s', sdsclear s = .ok s' ∧ s'.Is [] := by
  have hroom := h.room
  have hwrite : 0 + [nul].length ≤ s.buf.length := by
    rw [List.length_singleton]
    omega
  have hholds := h.holds.shortened (Nat.zero_le _)
  rw [List.take_zero] at hholds
  refine ⟨_, Sds.write_eq hwrite, ?_⟩
  exact h.stored hholds (length_overwrite hwrite) (Nat.zero_le _)

theorem cstr_of_holds {buf : Bytes} (h : Holds buf nul contents) : cstr buf = cstr contents := by
  obtain ⟨rest, rfl⟩ := h
  unfold cstr
  induction contents with
  | nil => simp
  | cons c cs ih =>
    simp only [List.cons_append, List.takeWhile_cons]
    split_ifs
    · rw [ih]
    · rfl

theorem nul_behind_cstr (s : Bytes) : cstr s ++ [nul] <+: s ++ [nul] := by
  induction s with
  | nil => exact List.prefix_rfl
  | cons c s ih =>
    by_cases hc : c = nul
    · have hempty : cstr (c :: s) = [] := by simp [cstr, hc]
      rw [hempty, hc, List.nil_append, List.cons_append, List.cons_prefix_cons]
      exact ⟨rfl, List.nil_prefix⟩
    · have hcons : cstr (c :: s) = c :: cstr s := by simp [cstr, hc]
      rw [hcons, List.cons_append, List.cons_append, List.cons_prefix_cons]
      exact ⟨rfl, ih⟩

theorem Sds.Is.updatelen (h : s.Is contents) : (sdsupdatelen s).Is (cstr contents) := by
  have hfits := h.fits
  have hpre : cstr contents <+: contents := List.takeWhile_prefix _
  have hholds : Holds s.buf nul (cstr contents) := (nul_behind_cstr contents).trans h.holds
  have hstored := h.stored hholds rfl (hpre.length_le.trans hfits)
  rwa [← cstr_of_holds h.holds] at hstored ⊢

theorem Sds.Is.mapBytes (h : s.Is contents) (f : UInt8 → UInt8) :
    ∃ s', s.mapBytes f = .ok s' ∧ s'.Is (contents.map f) := by
  have hroom := h.room
  have hfits := h.fits
  have hread : s.read 0 s.sdslen = .ok contents := by
    rw [Sds.sdslen, h.len, Sds.read_eq (by omega), List.drop_zero, h.holds.take_length]
  have hlen : (contents.map f).length = contents.length := List.length_map f
  have hwrite : 0 + (contents.map f).length ≤ s.buf.length := by
    rw [hlen]
    omega
  refine ⟨{ s with buf := overwrite s.buf 0 (contents.map f) }, ?_, ?_⟩
  · rw [Sds.mapBytes, hread]
    exact Sds.write_eq hwrite
  · have hstored := h.stored (h.holds.sameLength hlen) (length_overwrite hwrite)
      (hlen.symm ▸ hfits)
    rwa [hlen, Nat.mod_eq_of_lt h.lt, ← h.len] at hstored

theorem Sds.Is.piece (h : s.Is contents) {pos n : ℕ} (moves : Prop) [Decidable moves]
    (hn : ¬ moves ∧ n = 0 ∨ pos + n ≤ contents.length) (hmoves : ¬ moves → pos = 0 ∨ n = 0) :
    ∃ s', (do
      let s ← (if moves then s.moveDown pos n else pure s : Except Fault Sds)
      let s ← s.write n [nul]
      return s.sdssetlen n) = .ok s' ∧ s'.Is ((contents.drop pos).take n) := by
  have hroom := h.room
  have hfits := h.fits
  have hstop : n + [nul].length ≤ s.buf.length := by
    rw [List.length_singleton]
    omega
  by_cases hmove : moves
  · have hle : pos + n ≤ contents.length := hn.resolve_left fun hnot => hnot.1 hmove
    have hlen : ((contents.drop pos).take n).length = n := by
      rw [List.length_take, List.length_drop]
      omega
    have hpiece : ((s.buf.drop pos).take n).length = n := by
      rw [List.length_take, List.length_drop]
      omega
    have hfirst : 0 + ((s.buf.drop pos).take n).length ≤ s.buf.length := by omega
    have hsame := length_overwrite hfirst
    have hmoved : s.moveDown pos n =
        .ok { s with buf := overwrite s.buf 0 ((s.buf.drop pos).take n) } := by
      rw [Sds.moveDown, Sds.read_eq (by omega)]
      exact Sds.write_eq hfirst
    have hlast : n + [nul].length ≤ (overwrite s.buf 0 ((s.buf.drop pos).take n)).length :=
      hsame ▸ hstop
    refine ⟨_, ?_, h.stored (h.holds.moved hle) ((length_overwrite hlast).trans hsame) (by omega)⟩
    rw [if_pos hmove, hmoved, hlen]
    change (Sds.write _ _ _ >>= _) = _
    rw [Sds.write_eq hlast]
    rfl
  · have hfront : (contents.drop pos).take n = contents.take n := by
      rcases hmoves hmove with rfl | rfl
      · rw [List.drop_zero]
      · rw [List.take_zero, List.take_zero]
    have hle : n ≤ contents.length := by omega
    have hlen : (contents.take n).length = n := List.length_take_of_le hle
    rw [hfront]
    refine ⟨_, ?_, h.stored (h.holds.shortened hle) (length_overwrite hstop) (by omega)⟩
    rw [if_neg hmove, hlen]
    change (Sds.write _ _ _ >>= _) = _
    rw [Sds.write_eq hstop]
    rfl

theorem trimStart_eq (cset : Bytes) {buf l : Bytes} {sp : ℕ} (h : l <+: buf.drop sp) :
    trimStart cset buf l.length sp = .ok (sp + (l.takeWhile (trims cset)).length) := by
  induction l generalizing sp with
  | nil => rfl
  | cons c l ih =>
    obtain ⟨rest, hrest⟩ := h
    have hget : buf[sp]? = some c := by
      rw [← Nat.add_zero sp, ← List.getElem?_drop, ← hrest]
      rfl
    have hnext : l <+: buf.drop (sp + 1) := by
      refine ⟨rest, ?_⟩
      rw [← List.drop_drop, ← hrest]
      rfl
    rw [List.length_cons, trimStart, hget, List.takeWhile_cons]
    dsimp only
    split_ifs with hc
    · rw [ih hnext, List.length_cons]
      congr 1
      omega
    · rfl

theorem trimEnd_eq (cset : Bytes) {buf front l : Bytes} (h : front ++ l <+: buf)
    (hfirst : ∀ c ∈ l.head?, trims cset c = false) :
    trimEnd cset buf front.length (front.length + l.length) =
      .ok (front.length + (l.rdropWhile (trims cset)).length) := by
  induction l using List.reverseRecOn with
  | nil =>
    rw [List.rdropWhile_nil, List.length_nil, Nat.add_zero]
    cases front.length with
    | zero => rfl
    | succ n => rw [trimEnd, if_pos (Nat.le_succ n)]; rfl
  | append_singleton l c ih =>
    have hget : buf[front.length + l.length]? = some c := by
      obtain ⟨rest, rfl⟩ := h
      simp
    have hplace : front.length + (l ++ [c]).length = front.length + l.length + 1 := by
      rw [List.length_append, List.length_singleton, Nat.add_assoc]
    have hback : front ++ l <+: buf := by
      rw [← List.append_assoc] at h
      exact (List.prefix_append _ _).trans h
    rw [hplace, trimEnd, hget, List.rdropWhile_concat]
    dsimp only
    by_cases hnil : l = []
    · subst hnil
      have hc : trims cset c = false := hfirst c rfl
      have hhere : front.length + ([] : Bytes).length ≤ front.length := le_rfl
      rw [if_pos hhere, if_neg (by simp [hc])]
      rfl
    · have hpos : 0 < l.length := List.length_pos_of_ne_nil hnil
      have hhead : ∀ c ∈ l.head?, trims cset c = false := by
        rw [List.head?_append_of_ne_nil _ hnil] at hfirst
        exact hfirst
      rw [if_neg (by omega)]
      split_ifs with hc
      · exact ih hback hhead
      · rw [hplace]
        rfl

theorem Sds.Is.trim (h : s.Is contents) (cset : Bytes) :
    ∃ s', sdstrim s cset = .ok s' ∧ s'.Is (CText.sdstrim cset contents) := by
  obtain ⟨front, hfront⟩ : ∃ front, front = contents.takeWhile (trims cset) := ⟨_, rfl⟩
  obtain ⟨l, hl⟩ : ∃ l, l = contents.dropWhile (trims cset) := ⟨_, rfl⟩
  have hsplit : front ++ l = contents := by rw [hfront, hl, List.takeWhile_append_dropWhile]
  have hwhole : contents <+: s.buf := (List.prefix_append _ _).trans h.holds
  have hfirst : ∀ c ∈ l.head?, trims cset c = false := by
    intro c hc
    rw [hl] at hc
    have hnot := List.head?_dropWhile_not (trims cset) contents
    rw [Option.mem_def.mp hc] at hnot
    simpa using hnot
  have hstart : trimStart cset s.buf s.sdslen 0 = .ok front.length := by
    rw [Sds.sdslen, h.len, trimStart_eq cset (List.drop_zero ▸ hwhole), Nat.zero_add, ← hfront]
  have hend : trimEnd cset s.buf front.length s.sdslen =
      .ok (front.length + (l.rdropWhile (trims cset)).length) := by
    have hlen : s.sdslen = front.length + l.length := by
      rw [Sds.sdslen, h.len, ← hsplit, List.length_append]
    rw [hlen, trimEnd_eq cset (hsplit ▸ hwhole) hfirst]
  have hkept : l.rdropWhile (trims cset) <+: l := List.rdropWhile_prefix _ _
  have hle : front.length + (l.rdropWhile (trims cset)).length ≤ contents.length := by
    rw [← hsplit, List.length_append]
    have hkeptle := hkept.length_le
    omega
  have hpiece : (contents.drop front.length).take (l.rdropWhile (trims cset)).length =
      CText.sdstrim cset contents := by
    rw [← hsplit, List.drop_left, ← List.prefix_iff_eq_take.mp hkept, hsplit,
      CText.sdstrim, ← hl]
  obtain ⟨s', hrun, hs'⟩ := h.piece (front.length ≠ 0) (.inr hle)
    (fun hstays => .inl (not_not.mp hstays))
  refine ⟨s', ?_, hpiece ▸ hs'⟩
  rw [sdstrim, hstart]
  change (trimEnd cset s.buf front.length s.sdslen >>= _) = _
  rw [hend]
  dsimp only [Bind.bind, Except.bind]
  rw [Nat.add_sub_cancel_left]
  exact hrun

/-- The bytes from one index to another, both of them counted from the end where negative. -/
def rangeOf (start stop : ℤ) (l : Bytes) : Bytes :=
  let place : ℤ → ℤ := fun i => if i < 0 then max 0 (l.length + i) else i
  (l.take (place stop + 1).toNat).drop (place start).toNat

theorem Long.wrap_eq (long : Long) {z : ℤ} (hmin : -2 ^ 31 ≤ z) (hmax : z < 2 ^ 31) :
    long.wrap z = z := by
  unfold Long.wrap
  apply Int.bmod_eq_of_le <;> cases long <;> simp only [Long.bits] <;> omega

theorem Long.fromStart_eq (long : Long) {len : ℕ} (hlen : len < 2 ^ 31) {i : ℤ} (hi : -2 ^ 31 ≤ i) :
    long.fromStart len i = if i < 0 then max 0 (len + i) else i := by
  unfold Long.fromStart
  split_ifs with hneg
  · rw [long.wrap_eq (by omega) (by omega)]
  · rfl

theorem newlenOf_eq (pos back : ℕ) : newlenOf pos back = back + 1 - pos := by
  unfold newlenOf
  split_ifs <;> omega

theorem rangePlace_eq (long : Long) (hlen : contents.length < 2 ^ 31) (pos back : ℕ) :
    ∃ k n : ℕ, rangePlace long contents.length pos back = ((k : ℤ), n) ∧
      (n = 0 ∨ k + n ≤ contents.length) ∧
      (contents.drop k).take n = (contents.take (back + 1)).drop pos := by
  have hlow : contents.length % 2 ^ 32 = contents.length := Nat.mod_eq_of_lt (by omega)
  have hlong : contents.length % 2 ^ long.bits = contents.length := by
    apply Nat.mod_eq_of_lt
    cases long <;> simp only [Long.bits] <;> omega
  have hend : long.wrap ((contents.length : ℤ) - 1) = (contents.length : ℤ) - 1 :=
    long.wrap_eq (by omega) (by omega)
  unfold rangePlace
  rw [hlow, hlong, hend, newlenOf_eq]
  by_cases horder : back + 1 - pos = 0
  · rw [if_neg (not_not.mpr horder), horder]
    refine ⟨0, 0, rfl, .inl rfl, ?_⟩
    rw [List.take_zero, List.drop_eq_nil_of_le]
    rw [List.length_take]
    omega
  · rw [if_pos horder]
    by_cases hbehind : contents.length ≤ pos
    · rw [if_pos (by omega)]
      refine ⟨pos, 0, rfl, .inl rfl, ?_⟩
      rw [List.take_zero, List.drop_eq_nil_of_le]
      rw [List.length_take]
      omega
    · rw [if_neg (by omega)]
      by_cases hlast : contents.length ≤ back
      · have hrest : newlenOf (pos : ℤ) ((contents.length : ℤ) - 1) = contents.length - pos := by
          have hcast : (contents.length : ℤ) - 1 = ((contents.length - 1 : ℕ) : ℤ) := by omega
          rw [hcast, newlenOf_eq]
          omega
        rw [if_pos (by omega), hrest]
        refine ⟨pos, contents.length - pos, rfl, .inr (by omega), ?_⟩
        rw [List.take_of_length_le (by omega : contents.length ≤ back + 1), List.take_of_length_le]
        rw [List.length_drop]
      · rw [if_neg (by omega)]
        refine ⟨pos, back + 1 - pos, rfl, .inr (by omega), ?_⟩
        rw [List.drop_take]

theorem Sds.Is.range (h : s.Is contents) (long : Long) (hlen : contents.length < 2 ^ 31)
    {start stop : ℤ} (hstart : -2 ^ 31 ≤ start) (hstop : -2 ^ 31 ≤ stop) :
    ∃ s', sdsrange long s start stop = .ok s' ∧ s'.Is (rangeOf start stop contents) := by
  unfold sdsrange
  dsimp only
  rw [Sds.sdslen, h.len]
  by_cases hempty : contents.length = 0
  · rw [if_pos hempty]
    have hnil : contents = [] := List.length_eq_zero_iff.mp hempty
    refine ⟨s, rfl, ?_⟩
    rw [hnil] at h ⊢
    simpa [rangeOf] using h
  · rw [if_neg hempty, long.fromStart_eq hlen hstart, long.fromStart_eq hlen hstop]
    unfold rangeOf
    dsimp only
    generalize hfirst : (if start < 0 then max 0 ((contents.length : ℤ) + start) else start) = first
    generalize hlast : (if stop < 0 then max 0 ((contents.length : ℤ) + stop) else stop) = last
    have hfirst0 : 0 ≤ first := by split_ifs at hfirst <;> omega
    have hlast0 : 0 ≤ last := by split_ifs at hlast <;> omega
    obtain ⟨pos, rfl⟩ := Int.eq_ofNat_of_zero_le hfirst0
    obtain ⟨back, rfl⟩ := Int.eq_ofNat_of_zero_le hlast0
    obtain ⟨k, n, hplace, hinside, hpiece⟩ := rangePlace_eq long hlen pos back
    have hback : ((back : ℤ) + 1).toNat = back + 1 := by omega
    have hpos : ((pos : ℤ)).toNat = pos := Int.toNat_natCast pos
    rw [hplace, hback, hpos, ← hpiece]
    refine h.piece ((k : ℤ) ≠ 0 ∧ n ≠ 0) ?_ ?_
    · rcases hinside with hnone | hin
      · exact .inl ⟨fun hmoves => hmoves.2 hnone, hnone⟩
      · exact .inr hin
    · intro hstays
      omega

theorem formatted_outcome (m : Malloc) {text : Bytes} {fuel buflen : ℕ} (hbuflen : 2 ≤ buflen)
    (hfuel : text.length + 2 ≤ fuel + buflen) :
    Outcome m (fun b => cstr b = cstr text) (formatted m text fuel buflen) := by
  induction fuel generalizing buflen with
  | zero =>
    refine .ok _ ?_
    rw [List.take_of_length_le (by omega)]
  | succ fuel ih =>
    rw [formatted]
    split_ifs with hend hnone
    · refine .ok _ ?_
      by_cases hlong : buflen - 2 < text.length
      · have hget : text[buflen - 2]? = some nul := by
          rw [List.getElem?_eq_getElem hlong] at hend ⊢
          exact congrArg some hend
        have hsucc : buflen - 1 = buflen - 2 + 1 := by omega
        have hholds : Holds text nul (text.take (buflen - 2)) := by
          rw [Holds, ← Option.toList_some, ← hget, ← List.take_add_one]
          exact List.take_prefix _ _
        have hcut : Holds (text.take (buflen - 1)) nul (text.take (buflen - 2)) := by
          rw [Holds, ← Option.toList_some, ← hget, ← List.take_add_one, ← hsucc]
        rw [cstr_of_holds hholds, cstr_of_holds hcut]
      · rw [List.take_of_length_le (by omega)]
    · exact .refused _ (Option.isNone_iff_eq_none.mp hnone)
    · exact ih (by omega) (by omega)

theorem Sds.Is.catvprintf (h : s.Is contents) (long : Long) (m : Malloc) (fmtlen : ℕ) {text : Bytes}
    (hfits : Fits long (contents.length + (cstr text).length)) :
    Outcome m (fun s' => s'.Is (contents ++ cstr text)) (sdscatvprintf long m s fmtlen text) := by
  have hformat : Outcome m (fun b => cstr b = cstr text)
      (formatted m text text.length (firstBuflen fmtlen)) := by
    apply formatted_outcome <;> unfold firstBuflen <;> split_ifs <;> omega
  unfold sdscatvprintf
  split_ifs with hrefused
  · exact .refused _ (Option.isNone_iff_eq_none.mp hrefused.2)
  · refine hformat.bind fun b hb => ?_
    rw [hb]
    exact h.catlen long m hfits

end memory

inductive Op
  | makeRoom (addlen : ℕ)
  | removeFreeSpace
  | catlen (t : Bytes)
  | cpylen (t : Bytes)
  | catvprintf (fmtlen : ℕ) (text : Bytes)
  | growzero (len : ℕ)
  | clear
  | updatelen
  | trim (cset : Bytes)
  | range (start stop : ℤ)
  | lower
  | upper
  | mapchars (set : List (UInt8 × UInt8))

def Op.exec (long : Long) (m : Malloc) (s : Sds) : Op → Except Fault Sds
  | .makeRoom addlen => sdsMakeRoomFor long m s addlen
  | .removeFreeSpace => sdsRemoveFreeSpace long m s
  | .catlen t => sdscatlen long m s t
  | .cpylen t => sdscpylen long m s t
  | .catvprintf fmtlen text => sdscatvprintf long m s fmtlen text
  | .growzero len => sdsgrowzero long m s len
  | .clear => sdsclear s
  | .updatelen => return sdsupdatelen s
  | .trim cset => sdstrim s cset
  | .range start stop => sdsrange long s start stop
  | .lower => sdstolower s
  | .upper => sdstoupper s
  | .mapchars set => sdsmapchars s set

def Op.apply (contents : Bytes) : Op → Bytes
  | .makeRoom _ => contents
  | .removeFreeSpace => contents
  | .catlen t => contents ++ t
  | .cpylen t => t
  | .catvprintf _ text => contents ++ cstr text
  | .growzero len => contents ++ List.replicate (len - contents.length) nul
  | .clear => []
  | .updatelen => cstr contents
  | .trim cset => CText.sdstrim cset contents
  | .range start stop => rangeOf start stop contents
  | .lower => contents.map tolower
  | .upper => contents.map toupper
  | .mapchars set => contents.map fun c => (set.lookup c).getD c

/-- The lengths that an operation comes to can be stored. The indices of `sdsrange` are those of
    a 32-bit `long`. -/
def Op.InBounds (long : Long) (contents : Bytes) : Op → Prop
  | .makeRoom addlen => Fits long (contents.length + addlen)
  | .removeFreeSpace => Fits long contents.length
  | .catlen t => Fits long (contents.length + t.length)
  | .cpylen t => Fits long (max contents.length t.length)
  | .catvprintf _ text => Fits long (contents.length + (cstr text).length)
  | .growzero len => Fits long (max contents.length len)
  | .range start stop => contents.length < 2 ^ 31 ∧ -2 ^ 31 ≤ start ∧ -2 ^ 31 ≤ stop
  | _ => True

theorem Op.outcome {long : Long} {s : Sds} {contents : Bytes} (h : s.Is contents) (m : Malloc) {op : Op}
    (hop : op.InBounds long contents) :
    Outcome m (fun s' => s'.Is (op.apply contents)) (op.exec long m s) := by
  have hdone : ∀ {r : Except Fault Sds} {new : Bytes}, (∃ s', r = .ok s' ∧ s'.Is new) →
      Outcome m (fun s' => s'.Is new) r := by
    rintro r new ⟨s', rfl, hs'⟩
    exact .ok s' hs'
  cases op with
  | makeRoom addlen => exact (h.makeRoom long m hop).mono fun _ h' => h'.1
  | removeFreeSpace => exact h.removeFreeSpace long m hop
  | catlen t => exact h.catlen long m hop
  | cpylen t => exact h.cpylen long m hop
  | catvprintf fmtlen text => exact h.catvprintf long m fmtlen hop
  | growzero len => exact h.growzero long m hop
  | clear => exact hdone h.clear
  | updatelen => exact .ok _ h.updatelen
  | trim cset => exact hdone (h.trim cset)
  | range start stop => exact hdone (h.range long hop.1 hop.2.1 hop.2.2)
  | lower => exact hdone (h.mapBytes tolower)
  | upper => exact hdone (h.mapBytes toupper)
  | mapchars set => exact hdone (h.mapBytes _)

def run (long : Long) (s : Sds) (steps : List (Op × Malloc)) : Except Fault Sds :=
  steps.foldlM (fun s step => step.1.exec long step.2 s) s

def AllInBounds (long : Long) : Bytes → List Op → Prop
  | _, [] => True
  | contents, op :: ops => op.InBounds long contents ∧ AllInBounds long (op.apply contents) ops

inductive Runs (mallocs : List Malloc) (contents : Bytes) : Except Fault Sds → Prop
  | refused (m : Malloc) (hm : m ∈ mallocs) (n : ℕ) (h : m.block n = none) :
      Runs mallocs contents (.error .noMemory)
  | holds (s : Sds) (h : s.Is contents) : Runs mallocs contents (.ok s)

theorem run_runs {long : Long} {steps : List (Op × Malloc)} {s : Sds} {contents : Bytes}
    (h : s.Is contents) (hsteps : AllInBounds long contents (steps.map Prod.fst)) :
    Runs (steps.map Prod.snd) ((steps.map Prod.fst).foldl Op.apply contents)
      (run long s steps) := by
  induction steps generalizing s contents with
  | nil => exact .holds s h
  | cons step steps ih =>
    have hstep := Op.outcome h step.2 hsteps.1
    rw [run, List.foldlM_cons]
    generalize step.1.exec long step.2 s = r at hstep ⊢
    cases hstep with
    | refused n hn => exact .refused step.2 List.mem_cons_self n hn
    | ok s' hs' =>
      have hrest := ih hs' hsteps.2
      change Runs _ _ (run long s' steps)
      generalize run long s' steps = r' at hrest ⊢
      cases hrest with
      | refused m hm n hn => exact .refused m (List.mem_cons_of_mem _ hm) n hn
      | holds s'' hs'' => exact .holds s'' hs''

/-- From its creation on, a string holds what the operations say, or memory has run out. Nothing is
    read or written outside the buffer. -/
theorem strings_hold (long : Long) (init : Bytes) (m : Malloc) (steps : List (Op × Malloc))
    (hinit : Fits long init.length) (hsteps : AllInBounds long init (steps.map Prod.fst)) :
    Runs (m :: steps.map Prod.snd) ((steps.map Prod.fst).foldl Op.apply init)
      (sdsnewlen long m init >>= fun s => run long s steps) := by
  have hnew := sdsnewlen_outcome long m hinit
  generalize sdsnewlen long m init = r at hnew ⊢
  cases hnew with
  | refused n hn => exact .refused m List.mem_cons_self n hn
  | ok s hs =>
    have hrun := run_runs hs hsteps
    change Runs _ _ (run long s steps)
    generalize run long s steps = r' at hrun ⊢
    cases hrun with
    | refused m' hm' n hn => exact .refused m' (List.mem_cons_of_mem _ hm') n hn
    | holds s' hs' => exact .holds s' hs'

def Malloc.filled : Malloc where
  block n := some (List.replicate n 0xCD)
  sized n b h := by
    obtain rfl := Option.some.inj h
    exact List.length_replicate

theorem loginCommand_held :
    Runs [.filled, .filled, .filled, .filled]
      ([Op.trim blanks, .catlen (bytes "!"), .range 9 (-1)].foldl Op.apply
        (bytes " NickServ identify pw "))
      (sdsnewlen .bits32 .filled (bytes " NickServ identify pw ") >>= fun s => run .bits32 s
        [(.trim blanks, .filled), (.catlen (bytes "!"), .filled), (.range 9 (-1), .filled)]) :=
  strings_hold .bits32 _ .filled
    [(.trim blanks, .filled), (.catlen (bytes "!"), .filled), (.range 9 (-1), .filled)]
    (by unfold Fits; decide)
    ⟨trivial, by unfold Op.InBounds Fits; decide, by unfold Op.InBounds; decide, trivial⟩

end Xdccget.SdsStrings
