import Xdccget.SessionStreams

set_option autoImplicit false

/-!
# What one event does to the two streams

Each event takes bytes from the sockets, cuts lines off, queues texts and hands bytes
over. Its effect is stated once for the incoming and once for the outgoing side.
-/
namespace Xdccget.StreamEffects
open CText DccMessages PairFraming StepRuns SessionStreams
open ClientState hiding ircSendRaw
open IrcParser (slice)

theorem usub32_of_le {a b : ℕ} (h : b ≤ a) : usub32 a b = a - b := if_pos h

theorem usub64_of_le {a b : ℕ} (h : b ≤ a) : usub64 a b = a - b := if_pos h

@[simp] theorem slice_length (buf : ℕ → UInt8) (start n : ℕ) : (slice buf start n).length = n := by
  simp [slice]

theorem slice_getElem {buf : ℕ → UInt8} {start n j : ℕ} (h : j < (slice buf start n).length) :
    (slice buf start n)[j] = buf (start + j) := by
  simp [slice]

theorem slice_take {buf : ℕ → UInt8} {m n : ℕ} (h : m ≤ n) :
    (slice buf 0 n).take m = slice buf 0 m := by
  apply List.ext_getElem
  · simp [h]
  · intro j _ _
    rw [List.getElem_take, slice_getElem, slice_getElem]

theorem slice_store (buf : ℕ → UInt8) (n : ℕ) (data : Bytes) :
    slice (store buf n data) 0 (n + data.length) = slice buf 0 n ++ data := by
  apply List.ext_getElem
  · simp
  · intro j hj _
    rw [slice_length] at hj
    rw [slice_getElem, Nat.zero_add]
    by_cases hlt : j < n
    · have hout : ¬ (n ≤ j ∧ j < n + data.length) := by omega
      rw [List.getElem_append_left (by simpa using hlt), slice_getElem, Nat.zero_add]
      simp [store, hout]
    · have hin : n ≤ j ∧ j < n + data.length := by omega
      have hd : j - n < data.length := by omega
      rw [List.getElem_append_right (by simpa using hlt)]
      simp [store, hin, List.getD_eq_getElem?_getD, hd]

theorem slice_memmove (buf : ℕ → UInt8) (k n : ℕ) :
    slice (memmove buf 0 k n) 0 n = (slice buf 0 (k + n)).drop k := by
  apply List.ext_getElem
  · simp
  · intro j hj _
    rw [slice_length] at hj
    rw [List.getElem_drop, slice_getElem, slice_getElem]
    simp [memmove, hj]

/-- The compaction after `k` bytes have gone. -/
theorem slice_compacted (buf : ℕ → UInt8) {k n : ℕ} {c : Prop} [Decidable c]
    (hc : ¬ c → k = 0 ∨ usub32 n k = 0) (hk : k ≤ n) :
    slice (if c then memmove buf 0 k (usub64 n k) else buf) 0 (usub32 n k) =
      (slice buf 0 n).drop k := by
  rw [usub32_of_le hk] at hc ⊢
  rw [usub64_of_le hk]
  by_cases hmove : c
  · rw [if_pos hmove, slice_memmove, Nat.add_sub_cancel' hk]
  · rw [if_neg hmove]
    rcases hc hmove with rfl | hall
    · simp
    · rw [hall, List.drop_eq_nil_of_le (by simpa using Nat.sub_eq_zero_iff_le.mp hall)]
      rfl

theorem dropIncoming_effect {s : IrcSession} {offset : ℕ} (hle : offset ≤ s.incomingOffset) :
    (dropIncoming s offset).incomingOffset = s.incomingOffset - offset ∧
      (dropIncoming s offset).incoming = s.incoming.drop offset := by
  refine ⟨usub32_of_le hle, slice_compacted s.incomingBuf ?_ hle⟩
  intro hstay
  exact Or.inr (Nat.eq_zero_of_not_pos hstay)

theorem dropOutgoing_effect {s : IrcSession} {length : ℕ} (hle : length ≤ s.outgoingOffset) :
    (dropOutgoing s length).outgoingOffset = s.outgoingOffset - length ∧
      (dropOutgoing s length).outgoing = s.outgoing.drop length := by
  refine ⟨usub32_of_le hle, slice_compacted s.outgoingBuf ?_ hle⟩
  intro hstay
  by_cases hzero : length = 0
  · exact Or.inl hzero
  · exact Or.inr (Nat.eq_zero_of_not_pos fun h => hstay ⟨Nat.pos_of_ne_zero hzero, h⟩)

theorem hasPair_slice {buf : ℕ → UInt8} {n : ℕ} :
    HasPair cr lf (slice buf 0 n) ↔ ∃ j, j + 1 < n ∧ buf j = cr ∧ buf (j + 1) = lf := by
  have hcell : ∀ {j : ℕ}, j < n → (slice buf 0 n)[j]? = some (buf j) := by
    intro j hj
    rw [List.getElem?_eq_getElem (by simpa using hj), slice_getElem, Nat.zero_add]
  rw [hasPair_iff]
  constructor
  · rintro ⟨j, hc, hl⟩
    have hj : j + 1 < n := by
      by_contra hge
      rw [List.getElem?_eq_none (by simpa using hge)] at hl
      cases hl
    rw [hcell (by omega)] at hc
    rw [hcell hj] at hl
    exact ⟨j, hj, by simpa using hc, by simpa using hl⟩
  · rintro ⟨j, hj, hc, hl⟩
    exact ⟨j, by rw [hcell (by omega), hc], by rw [hcell hj, hl]⟩

theorem findcrlf_cases (buf : ℕ → UInt8) (n : ℕ) :
    libircFindcrlf buf n = 0 ∧ ¬ HasPair cr lf (slice buf 0 n) ∨
    2 ≤ libircFindcrlf buf n ∧ libircFindcrlf buf n ≤ n ∧
      Line cr lf (slice buf 0 (libircFindcrlf buf n)) := by
  cases hfind : (List.range (n - 1)).find? fun o => buf o = cr ∧ buf (o + 1) = lf with
  | none =>
    left
    constructor
    · rw [libircFindcrlf, hfind]
    · rw [hasPair_slice]
      rintro ⟨j, hj, hc, hl⟩
      have hnot := List.find?_range_eq_none.mp hfind j (by omega)
      simp only [Bool.not_eq_true', decide_eq_false_iff_not] at hnot
      exact hnot ⟨hc, hl⟩
  | some o =>
    right
    obtain ⟨ho, hmem, hfirst⟩ := List.find?_range_eq_some.mp hfind
    simp only [decide_eq_true_eq] at ho
    simp only [List.mem_range] at hmem
    have hvalue : libircFindcrlf buf n = o + 2 := by rw [libircFindcrlf, hfind]
    rw [hvalue]
    refine ⟨by omega, by omega, slice buf 0 o, ?_, ?_⟩
    · apply List.ext_getElem
      · simp
      · intro j hj _
        rw [slice_length] at hj
        rw [slice_getElem, Nat.zero_add]
        rcases Nat.lt_or_ge j o with hlt | hge
        · rw [List.getElem_append_left (by simpa using hlt), slice_getElem, Nat.zero_add]
        · rw [List.getElem_append_right (by simpa using hge)]
          obtain rfl | rfl : j = o ∨ j = o + 1 := by omega
          · simp [ho.1]
          · simp [ho.2]
    · have hone : slice buf 0 o ++ [cr] = slice buf 0 (o + 1) := by
        simp only [slice, List.range_succ, List.map_append, List.map_cons, List.map_nil,
          Nat.zero_add, ho.1]
      rw [hone, hasPair_slice]
      rintro ⟨j, hj, hc, hl⟩
      have hnot := hfirst j (by omega)
      simp only [Bool.not_eq_true', decide_eq_false_iff_not] at hnot
      exact hnot ⟨hc, hl⟩

structure Bounded (s : IrcSession) : Prop where
  incoming : s.incomingOffset < libircBufferSize
  outgoing : s.outgoingOffset < libircBufferSize

theorem appendOutgoing_outgoing {s : IrcSession} (data : Bytes)
    (h : s.outgoingOffset + data.length < 2 ^ 32) :
    (appendOutgoing s data).outgoingOffset = s.outgoingOffset + data.length ∧
      (appendOutgoing s data).outgoing = s.outgoing ++ data := by
  have hoffset : u32 (s.outgoingOffset + data.length) = s.outgoingOffset + data.length :=
    Nat.mod_eq_of_lt h
  constructor
  · exact hoffset
  · simp only [IrcSession.outgoing, appendOutgoing, hoffset, slice_store]

/-- Both ways `irc_send_raw` can end. -/
inductive SendRaw (s : IrcSession) (formatted : Bytes) : ℕ × IrcSession → Prop
  | refused (err : ℕ) : SendRaw s formatted (1, { s with lasterror := err })
  | queued (buf : ℕ → UInt8) (offset : ℕ) (hfits : offset < libircBufferSize)
      (hbuf : slice buf 0 offset = s.outgoing ++ (snprintf 1024 formatted ++ [cr, lf])) :
      SendRaw s formatted (0, { s with outgoingBuf := buf, outgoingOffset := offset })

theorem ircSendRaw_cases {s : IrcSession} (formatted : Bytes)
    (h : s.outgoingOffset < libircBufferSize) : SendRaw s formatted (ircSendRaw s formatted) := by
  unfold ircSendRaw
  dsimp only
  split_ifs with hstate hroom
  · exact .refused libircErrState
  · exact .refused libircErrNomem
  · set buf := snprintf 1024 formatted
    have hsize : libircBufferSize = 2048 := rfl
    rw [usub64_of_le h.le] at hroom
    have hone := appendOutgoing_outgoing (s := s) buf (by omega)
    have htwo := appendOutgoing_outgoing (s := appendOutgoing s buf) [cr]
      (by rw [hone.1, List.length_singleton]; omega)
    have hthree := appendOutgoing_outgoing (s := appendOutgoing (appendOutgoing s buf) [cr]) [lf]
      (by rw [htwo.1, hone.1, List.length_singleton, List.length_singleton]; omega)
    refine .queued (appendOutgoing (appendOutgoing (appendOutgoing s buf) [cr]) [lf]).outgoingBuf
      (appendOutgoing (appendOutgoing (appendOutgoing s buf) [cr]) [lf]).outgoingOffset ?_ ?_
    · rw [hthree.1, htwo.1, hone.1, List.length_singleton, List.length_singleton]
      omega
    · change (appendOutgoing (appendOutgoing (appendOutgoing s buf) [cr]) [lf]).outgoing = _
      rw [hthree.2, htwo.2, hone.2]
      simp [buf]

theorem queued_append (a b : List (ℕ × Bytes)) : queued (a ++ b) = queued a ++ queued b := by
  simp [queued]

/-- Texts have been queued, and nothing went through the sockets. -/
structure Queues (k k' : Link) : Prop where
  sock : k'.session.sock = k.session.sock
  ssl : k'.session.ssl = k.session.ssl
  sent : k'.sent = k.sent
  received : k'.received = k.received
  fits : k'.session.outgoingOffset < libircBufferSize
  grown : ∃ more, k'.calls = k.calls ++ more ∧
    k'.session.outgoing = k.session.outgoing ++ queued more

theorem Queues.refl {k : Link} (h : k.session.outgoingOffset < libircBufferSize) : Queues k k where
  sock := rfl
  ssl := rfl
  sent := rfl
  received := rfl
  fits := h
  grown := ⟨[], by simp, by simp [queued]⟩

theorem Queues.trans {k k' k'' : Link} (h : Queues k k') (h' : Queues k' k'') : Queues k k'' where
  sock := h'.sock.trans h.sock
  ssl := h'.ssl.trans h.ssl
  sent := h'.sent.trans h.sent
  received := h'.received.trans h.received
  fits := h'.fits
  grown := by
    obtain ⟨more, hcalls, hout⟩ := h.grown
    obtain ⟨more', hcalls', hout'⟩ := h'.grown
    refine ⟨more ++ more', ?_, ?_⟩
    · rw [hcalls', hcalls, List.append_assoc]
    · rw [hout', hout, queued_append, List.append_assoc]

structure SameIncoming (k k' : Link) : Prop where
  buf : k'.session.incomingBuf = k.session.incomingBuf
  offset : k'.session.incomingOffset = k.session.incomingOffset
  blocks : k'.blocks = k.blocks

theorem sendRaw_queues {k : Link} (formatted : Bytes)
    (h : k.session.outgoingOffset < libircBufferSize) :
    Queues k (sendRaw k formatted) ∧ SameIncoming k (sendRaw k formatted) := by
  have hcases := ircSendRaw_cases formatted h
  unfold sendRaw
  generalize ircSendRaw k.session formatted = r at hcases ⊢
  cases hcases with
  | refused err =>
    refine ⟨⟨rfl, rfl, rfl, rfl, h, [(1, formatted)], rfl, ?_⟩, ⟨rfl, rfl, rfl⟩⟩
    simp [queued, IrcSession.outgoing]
  | queued buf offset hfits hbuf =>
    refine ⟨⟨rfl, rfl, rfl, rfl, hfits, [(0, formatted)], rfl, ?_⟩, ⟨rfl, rfl, rfl⟩⟩
    change slice buf 0 offset = k.session.outgoing ++ queued [(0, formatted)]
    rw [hbuf]
    simp [queued]

theorem sendAll_queues {k : Link} (texts : List Bytes)
    (h : k.session.outgoingOffset < libircBufferSize) :
    Queues k (sendAll k texts) ∧ SameIncoming k (sendAll k texts) := by
  induction texts generalizing k with
  | nil => exact ⟨.refl h, ⟨rfl, rfl, rfl⟩⟩
  | cons text texts ih =>
    obtain ⟨hfirst, hin⟩ := sendRaw_queues text h
    obtain ⟨hrest, hin'⟩ := ih hfirst.fits
    exact ⟨hfirst.trans hrest, hin'.buf.trans hin.buf, hin'.offset.trans hin.offset,
      hin'.blocks.trans hin.blocks⟩

theorem Queues.dropIncoming {k handled : Link} {blocks : List Bytes} (offset : ℕ)
    (h : Queues { k with blocks := blocks } handled) :
    Queues k { handled with session := SessionStreams.dropIncoming handled.session offset } where
  sock := h.sock
  ssl := h.ssl
  sent := h.sent
  received := h.received
  fits := h.fits
  grown := h.grown

theorem processLine_effect {k : Link} {offset : ℕ} (replies : List Bytes) (h : Bounded k.session)
    (hoffset : offset ≤ k.session.incomingOffset) :
    Queues k (processLine k offset replies) ∧
      (processLine k offset replies).blocks = k.blocks ++ [slice k.session.incomingBuf 0 offset] ∧
      (processLine k offset replies).session.incomingOffset = k.session.incomingOffset - offset ∧
      (processLine k offset replies).session.incoming = k.session.incoming.drop offset := by
  have hsends := sendAll_queues
    (k := { k with blocks := k.blocks ++ [slice k.session.incomingBuf 0 offset] }) replies h.outgoing
  unfold processLine
  dsimp only
  generalize sendAll _ replies = handled at hsends ⊢
  obtain ⟨hqueues, hin⟩ := hsends
  have hoff : handled.session.incomingOffset = k.session.incomingOffset := hin.offset
  have hbuf : handled.session.incoming = k.session.incoming := by
    rw [IrcSession.incoming, hoff, hin.buf, IrcSession.incoming]
  rw [← hoff] at hoffset
  obtain ⟨hoffset', hincoming⟩ := dropIncoming_effect hoffset
  rw [← hoff, ← hbuf]
  exact ⟨hqueues.dropIncoming offset, hin.blocks, hoffset', hincoming⟩

theorem processLines_effect {k : Link} (fuel : ℕ) (replies : List (List Bytes))
    (h : Bounded k.session) (hfuel : k.session.incomingOffset ≤ fuel) :
    Queues k (processLines fuel replies k) ∧
      (processLines fuel replies k).session.incomingOffset ≤ k.session.incomingOffset ∧
      ∃ lines, (processLines fuel replies k).blocks = k.blocks ++ lines ∧
        Framed cr lf k.session.incoming lines (processLines fuel replies k).session.incoming := by
  induction fuel generalizing k replies with
  | zero =>
    have hnone : k.session.incoming = [] := by
      rw [IrcSession.incoming, Nat.le_zero.mp hfuel]
      rfl
    refine ⟨.refl h.outgoing, le_rfl, [], (List.append_nil _).symm, framed_of_not_hasPair ?_⟩
    rw [hnone]
    exact not_hasPair_nil
  | succ fuel ih =>
    rw [processLines]
    rcases findcrlf_cases k.session.incomingBuf k.session.incomingOffset with
      ⟨hzero, hrest⟩ | ⟨htwo, hle, hline⟩
    · rw [if_neg (by omega)]
      exact ⟨.refl h.outgoing, le_rfl, [], (List.append_nil _).symm, framed_of_not_hasPair hrest⟩
    · set offset := libircFindcrlf k.session.incomingBuf k.session.incomingOffset
      rw [if_pos (by omega)]
      obtain ⟨hqueues, hblocks, hoffset, hincoming⟩ :=
        processLine_effect (replies.headD []) h hle
      have hbound := h.incoming
      obtain ⟨hqueues', hless, lines, hblocks', hframed⟩ := ih replies.tail
        ⟨by omega, hqueues.fits⟩ (by omega)
      refine ⟨hqueues.trans hqueues', by omega, slice k.session.incomingBuf 0 offset :: lines, ?_, ?_⟩
      · rw [hblocks', hblocks, List.append_assoc]
        rfl
      · have hsplit : k.session.incoming =
            slice k.session.incomingBuf 0 offset ++ k.session.incoming.drop offset := by
          rw [← slice_take hle, IrcSession.incoming, List.take_append_drop]
        rw [hsplit]
        rw [hincoming] at hframed
        exact hframed.cons hline

/-- What a call into the socket layer leaves alone, and where the bytes that came in stand. -/
structure Turned (s : IrcSession) (t : IoTurn) : Prop where
  sock : t.session.sock = s.sock
  ssl : t.session.ssl = s.ssl
  incomingOffset : t.session.incomingOffset = s.incomingOffset
  outgoingBuf : t.session.outgoingBuf = s.outgoingBuf
  outgoingOffset : t.session.outgoingOffset = s.outgoingOffset
  stored : slice t.session.incomingBuf 0 (s.incomingOffset + t.received.length) =
    s.incoming ++ t.received

def Counts (length : ℤ) (data : Bytes) : Prop := length = -1 ∧ data = [] ∨ length = data.length

theorem sslHandleError_cases (s : IrcSession) (err : SslError) :
    ∃ code, sslHandleError s err = { s with lasterror := code } := by
  cases err with
  | certificateVerifyFailed => exact ⟨_, rfl⟩
  | unknownProtocol => exact ⟨_, rfl⟩
  | other => exact ⟨s.lasterror, rfl⟩

theorem turned_of_silent {s s' : IrcSession} {length : ℤ} {sent : Bytes}
    (hsock : s'.sock = s.sock) (hssl : s'.ssl = s.ssl) (hbuf : s'.incomingBuf = s.incomingBuf)
    (hoffset : s'.incomingOffset = s.incomingOffset) (hout : s'.outgoingBuf = s.outgoingBuf)
    (hcount : s'.outgoingOffset = s.outgoingOffset) : Turned s ⟨length, s', [], sent⟩ where
  sock := hsock
  ssl := hssl
  incomingOffset := hoffset
  outgoingBuf := hout
  outgoingOffset := hcount
  stored := by
    rw [List.append_nil, List.length_nil, Nat.add_zero, hbuf]
    rfl

theorem turned_storeIncoming (s : IrcSession) (data : Bytes) :
    Turned s ⟨data.length, storeIncoming s data, data, []⟩ where
  sock := rfl
  ssl := rfl
  incomingOffset := rfl
  outgoingBuf := rfl
  outgoingOffset := rfl
  stored := slice_store s.incomingBuf s.incomingOffset data

theorem sslRecv_effect (s : IrcSession) (a : RecvAnswer) :
    Turned s (sslRecv s a) ∧ (sslRecv s a).sent = [] ∧ (sslRecv s a).received = a.data s ∧
      Counts (sslRecv s a).length (a.data s) := by
  cases a with
  | bytes data =>
    rw [sslRecv]
    split_ifs with hnil
    · exact ⟨turned_of_silent rfl rfl rfl rfl rfl rfl, rfl, hnil.symm, Or.inl ⟨rfl, hnil⟩⟩
    · exact ⟨turned_storeIncoming s _, rfl, rfl, Or.inr rfl⟩
  | wantRead => exact ⟨turned_of_silent rfl rfl rfl rfl rfl rfl, rfl, rfl, Or.inr rfl⟩
  | wantWrite => exact ⟨turned_of_silent rfl rfl rfl rfl rfl rfl, rfl, rfl, Or.inr rfl⟩
  | failed err =>
    obtain ⟨code, hcode⟩ := sslHandleError_cases s err
    rw [sslRecv, hcode]
    exact ⟨turned_of_silent rfl rfl rfl rfl rfl rfl, rfl, rfl, Or.inl ⟨rfl, rfl⟩⟩

theorem count_le (s : IrcSession) (a : SendAnswer) : a.count s ≤ s.outgoingOffset := by
  cases a with
  | accepted n => exact Nat.min_le_right n s.outgoingOffset
  | wantRead => exact Nat.zero_le _
  | wantWrite => exact Nat.zero_le _
  | failed err => exact Nat.zero_le _

def taken (s : IrcSession) (a : SendAnswer) : Bytes := slice s.outgoingBuf 0 (a.count s)

theorem sslSend_effect (s : IrcSession) (a : SendAnswer) :
    Turned s (sslSend s a) ∧ (sslSend s a).received = [] ∧ (sslSend s a).sent = taken s a ∧
      Counts (sslSend s a).length (taken s a) := by
  cases a with
  | accepted n =>
    rw [sslSend]
    split_ifs with hzero
    · have hnil : taken s (.accepted n) = [] := by rw [taken, hzero]; rfl
      exact ⟨turned_of_silent rfl rfl rfl rfl rfl rfl, rfl, hnil.symm, Or.inl ⟨rfl, hnil⟩⟩
    · refine ⟨turned_of_silent rfl rfl rfl rfl rfl rfl, rfl, rfl, Or.inr ?_⟩
      rw [taken, slice_length]
  | wantRead => exact ⟨turned_of_silent rfl rfl rfl rfl rfl rfl, rfl, rfl, Or.inr rfl⟩
  | wantWrite => exact ⟨turned_of_silent rfl rfl rfl rfl rfl rfl, rfl, rfl, Or.inr rfl⟩
  | failed err =>
    obtain ⟨code, hcode⟩ := sslHandleError_cases s err
    rw [sslSend, hcode]
    exact ⟨turned_of_silent rfl rfl rfl rfl rfl rfl, rfl, rfl, Or.inl ⟨rfl, rfl⟩⟩

/-- A read that repeats `SSL_write`, and a write that repeats `SSL_read`. -/
def readRetries (s : IrcSession) : Prop := s.ssl = true ∧ s.sslReadWantsWrite = true

def writeRetries (s : IrcSession) : Prop := s.ssl = true ∧ s.sslWriteWantsRead = true

instance (s : IrcSession) : Decidable (readRetries s) := by unfold readRetries; infer_instance

instance (s : IrcSession) : Decidable (writeRetries s) := by unfold writeRetries; infer_instance

theorem sessionSocketRead_effect (s : IrcSession) (a : Answers) :
    Turned s (sessionSocketRead s a) ∧
      (sessionSocketRead s a).received = (if readRetries s then [] else a.recv.data s) ∧
      (sessionSocketRead s a).sent = (if readRetries s then taken s a.send else []) ∧
      Counts (sessionSocketRead s a).length (sessionSocketRead s a).received := by
  by_cases hssl : s.ssl = true
  · by_cases hwants : s.sslReadWantsWrite = true
    · have hretries : readRetries s := ⟨hssl, hwants⟩
      obtain ⟨hturned, hreceived, hsent, -⟩ := sslSend_effect { s with sslReadWantsWrite := false } a.send
      rw [sessionSocketRead, if_pos hssl, if_pos hwants, if_pos hretries, if_pos hretries]
      exact ⟨⟨hturned.sock, hturned.ssl, hturned.incomingOffset, hturned.outgoingBuf,
        hturned.outgoingOffset, hturned.stored⟩, hreceived, hsent, Or.inr (by rw [hreceived]; rfl)⟩
    · have hplain : ¬ readRetries s := fun h => hwants h.2
      obtain ⟨hturned, hsent, hreceived, hcounts⟩ := sslRecv_effect s a.recv
      rw [sessionSocketRead, if_pos hssl, if_neg hwants, if_neg hplain, if_neg hplain]
      exact ⟨hturned, hreceived, hsent, hreceived ▸ hcounts⟩
  · have hplain : ¬ readRetries s := fun h => hssl h.1
    rw [sessionSocketRead, if_neg hssl, if_neg hplain, if_neg hplain]
    dsimp only
    split_ifs with hnil
    · exact ⟨turned_of_silent rfl rfl rfl rfl rfl rfl, hnil.symm, rfl, Or.inl ⟨rfl, rfl⟩⟩
    · exact ⟨turned_storeIncoming s _, rfl, rfl, Or.inr rfl⟩

theorem sessionSocketWrite_effect (s : IrcSession) (a : Answers) :
    Turned s (sessionSocketWrite s a) ∧
      (sessionSocketWrite s a).received = (if writeRetries s then a.recv.data s else []) ∧
      (sessionSocketWrite s a).sent = (if writeRetries s then [] else taken s a.send) ∧
      Counts (sessionSocketWrite s a).length (sessionSocketWrite s a).sent := by
  by_cases hssl : s.ssl = true
  · by_cases hwants : s.sslWriteWantsRead = true
    · have hretries : writeRetries s := ⟨hssl, hwants⟩
      obtain ⟨hturned, hsent, hreceived, -⟩ := sslRecv_effect { s with sslWriteWantsRead := false } a.recv
      rw [sessionSocketWrite, if_pos hssl, if_pos hwants, if_pos hretries, if_pos hretries]
      exact ⟨⟨hturned.sock, hturned.ssl, hturned.incomingOffset, hturned.outgoingBuf,
        hturned.outgoingOffset, hturned.stored⟩, hreceived, hsent, Or.inr (by rw [hsent]; rfl)⟩
    · have hplain : ¬ writeRetries s := fun h => hwants h.2
      obtain ⟨hturned, hreceived, hsent, hcounts⟩ := sslSend_effect s a.send
      rw [sessionSocketWrite, if_pos hssl, if_neg hwants, if_neg hplain, if_neg hplain]
      exact ⟨hturned, hreceived, hsent, hsent ▸ hcounts⟩
  · have hplain : ¬ writeRetries s := fun h => hssl h.1
    rw [sessionSocketWrite, if_neg hssl, if_neg hplain, if_neg hplain]
    dsimp only
    split_ifs with hzero
    · have hnil : taken s a.send = [] := by rw [taken, hzero]; rfl
      exact ⟨turned_of_silent rfl rfl rfl rfl rfl rfl, rfl, hnil.symm, Or.inl ⟨rfl, rfl⟩⟩
    · refine ⟨turned_of_silent rfl rfl rfl rfl rfl rfl, rfl, rfl, Or.inr ?_⟩
      rw [slice_length]

/-- What came in on the regular path, and what a retrying write read and left behind the
    offset. -/
def arrived (s : IrcSession) : IoEvent → Bytes
  | .readable a _ => if s.state = .connected ∧ ¬ readRetries s then a.recv.data s else []
  | _ => []

def stranded (s : IrcSession) : IoEvent → Bytes
  | .writable a => if s.state = .connected ∧ writeRetries s then a.recv.data s else []
  | _ => []

/-- What went out on the regular path, and what a retrying read wrote and left in the buffer. -/
def written (s : IrcSession) : IoEvent → Bytes
  | .writable a => if s.state = .connected ∧ ¬ writeRetries s then taken s a.send else []
  | _ => []

def uncounted (s : IrcSession) : IoEvent → Bytes
  | .readable a _ => if s.state = .connected ∧ readRetries s then taken s a.send else []
  | _ => []

/-- The effect of one event, given the bytes that went through the sockets. -/
structure Effect (k k' : Link) (arrived stranded written uncounted : Bytes) : Prop where
  sock : k'.session.sock = k.session.sock
  ssl : k'.session.ssl = k.session.ssl
  bounded : Bounded k'.session
  received : k'.received = k.received ++ arrived ++ stranded
  framed : ∃ lines, k'.blocks = k.blocks ++ lines ∧
    Framed cr lf (k.session.incoming ++ arrived) lines k'.session.incoming
  sent : k'.sent = k.sent ++ uncounted ++ written
  grown : ∃ more, k'.calls = k.calls ++ more ∧
    written ++ k'.session.outgoing = k.session.outgoing ++ queued more

/-- No complete line waits in `incoming_buf`. -/
structure Settled (s : IrcSession) : Prop where
  bounded : Bounded s
  rest : ¬ HasPair cr lf s.incoming

theorem Effect.settled {k k' : Link} {arrived stranded written uncounted : Bytes}
    (h : Effect k k' arrived stranded written uncounted) : Settled k'.session where
  bounded := h.bounded
  rest := by
    obtain ⟨lines, -, hframed⟩ := h.framed
    exact hframed.rest_ok

theorem SameIncoming.incoming {k k' : Link} (h : SameIncoming k k') :
    k'.session.incoming = k.session.incoming := by
  rw [IrcSession.incoming, h.buf, h.offset, IrcSession.incoming]

theorem Queues.effect {k k' : Link} (h : Queues k k') (hin : SameIncoming k k')
    (hsettled : Settled k.session) : Effect k k' [] [] [] [] where
  sock := h.sock
  ssl := h.ssl
  bounded := ⟨hin.offset ▸ hsettled.bounded.incoming, h.fits⟩
  received := by simpa using h.received
  framed := by
    refine ⟨[], by simpa using hin.blocks, ?_⟩
    rw [hin.incoming, List.append_nil]
    exact framed_of_not_hasPair hsettled.rest
  sent := by simpa using h.sent
  grown := h.grown

theorem data_room {s : IrcSession} (a : RecvAnswer) (h : s.incomingOffset < libircBufferSize) :
    s.incomingOffset + (a.data s).length < libircBufferSize := by
  have hsize : libircBufferSize = 2048 := rfl
  have hamount : amount s = 2047 - s.incomingOffset := usub64_of_le (by omega)
  cases a with
  | bytes data =>
    rw [RecvAnswer.data, List.length_take, hamount]
    omega
  | wantRead => exact h
  | wantWrite => exact h
  | failed err => exact h

theorem Turned.incoming {s : IrcSession} {t : IoTurn} (h : Turned s t) :
    t.session.incoming = s.incoming := by
  have hstored := congrArg (List.take s.incomingOffset) h.stored
  rw [slice_take (Nat.le_add_right _ _), List.take_left' (by simp [IrcSession.incoming])] at hstored
  rw [IrcSession.incoming, h.incomingOffset]
  exact hstored

theorem Turned.outgoing {s : IrcSession} {t : IoTurn} (h : Turned s t) :
    t.session.outgoing = s.outgoing := by
  rw [IrcSession.outgoing, h.outgoingBuf, h.outgoingOffset, IrcSession.outgoing]

theorem Turned.terminated {k : Link} {t : IoTurn} (h : Turned k.session t)
    (hsettled : Settled k.session) :
    Effect k (terminated (k.took t)) [] t.received [] t.sent where
  sock := h.sock
  ssl := h.ssl
  bounded := by
    constructor
    · exact h.incomingOffset ▸ hsettled.bounded.incoming
    · exact h.outgoingOffset ▸ hsettled.bounded.outgoing
  received := by rw [List.append_nil]; rfl
  framed := by
    have hincoming : (SessionStreams.terminated (k.took t)).session.incoming = k.session.incoming :=
      h.incoming
    refine ⟨[], (List.append_nil _).symm, ?_⟩
    rw [hincoming, List.append_nil]
    exact framed_of_not_hasPair hsettled.rest
  sent := by rw [List.append_nil]; rfl
  grown := by
    have hout : (SessionStreams.terminated (k.took t)).session.outgoing = k.session.outgoing :=
      h.outgoing
    refine ⟨[], (List.append_nil _).symm, ?_⟩
    rw [hout]
    simp [queued]

theorem readPart_effect {k : Link} (a : Answers) (replies : List (List Bytes))
    (hsettled : Settled k.session) :
    Effect k (readPart k a replies).2 (if readRetries k.session then [] else a.recv.data k.session) []
      [] (if readRetries k.session then taken k.session a.send else []) := by
  obtain ⟨hturned, hreceived, hsent, hcounts⟩ := sessionSocketRead_effect k.session a
  have hroom : k.session.incomingOffset + (sessionSocketRead k.session a).received.length <
      libircBufferSize := by
    rw [hreceived]
    split_ifs with hretries
    · exact hsettled.bounded.incoming
    · exact data_room a.recv hsettled.bounded.incoming
  rw [← hreceived, ← hsent]
  unfold readPart
  generalize sessionSocketRead k.session a = t at hturned hcounts hroom
  have hsize : libircBufferSize = 2048 := rfl
  rcases hcounts with ⟨hlength, hnil⟩ | hlength
  · dsimp only
    rw [if_pos (by omega), hnil]
    exact hnil ▸ hturned.terminated hsettled
  · have hoffset : u32 (t.session.incomingOffset + t.length.toNat) =
        k.session.incomingOffset + t.received.length := by
      rw [hturned.incomingOffset, hlength, Int.toNat_natCast]
      exact Nat.mod_eq_of_lt (by omega)
    dsimp only
    rw [if_neg (by omega), hoffset]
    set offset := k.session.incomingOffset + t.received.length
    set fed := k.took { t with session := { t.session with incomingOffset := offset } }
    have hincoming : fed.session.incoming = k.session.incoming ++ t.received := hturned.stored
    have hout : fed.session.outgoing = k.session.outgoing := hturned.outgoing
    have hbounded : Bounded fed.session :=
      ⟨hroom, hturned.outgoingOffset ▸ hsettled.bounded.outgoing⟩
    obtain ⟨hqueues, hless, lines, hblocks, hframed⟩ :=
      processLines_effect offset replies hbounded le_rfl
    rw [hincoming] at hframed
    exact
      { sock := hqueues.sock.trans hturned.sock
        ssl := hqueues.ssl.trans hturned.ssl
        bounded := ⟨hless.trans_lt hroom, hqueues.fits⟩
        received := by rw [hqueues.received, List.append_nil]; rfl
        framed := ⟨lines, hblocks, hframed⟩
        sent := by rw [hqueues.sent, List.append_nil]; rfl
        grown := by
          obtain ⟨more, hcalls, hgrown⟩ := hqueues.grown
          exact ⟨more, hcalls, by rw [hgrown, hout]; rfl⟩ }

theorem writePart_effect {k : Link} (a : Answers) (hsettled : Settled k.session) :
    Effect k (writePart k a).2 [] (if writeRetries k.session then a.recv.data k.session else [])
      (if writeRetries k.session then [] else taken k.session a.send) [] := by
  obtain ⟨hturned, hreceived, hsent, hcounts⟩ := sessionSocketWrite_effect k.session a
  have hprefix : ∃ n ≤ k.session.outgoingOffset, (sessionSocketWrite k.session a).sent =
      slice k.session.outgoingBuf 0 n := by
    rw [hsent]
    split_ifs with hretries
    · exact ⟨0, Nat.zero_le _, rfl⟩
    · exact ⟨a.send.count k.session, count_le _ _, rfl⟩
  rw [← hreceived, ← hsent]
  unfold writePart
  generalize sessionSocketWrite k.session a = t at hturned hcounts hprefix
  rcases hcounts with ⟨hlength, hnil⟩ | hlength
  · dsimp only
    rw [if_pos (by omega)]
    exact hnil ▸ hturned.terminated hsettled
  · obtain ⟨n, hn, htaken⟩ := hprefix
    have hcount : t.length.toNat = n := by rw [hlength, htaken, slice_length, Int.toNat_natCast]
    have hle : n ≤ t.session.outgoingOffset := hturned.outgoingOffset ▸ hn
    obtain ⟨hoffset, hout⟩ := dropOutgoing_effect hle
    dsimp only
    rw [if_neg (by omega), hcount]
    exact
      { sock := hturned.sock
        ssl := hturned.ssl
        bounded := by
          constructor
          · exact hturned.incomingOffset ▸ hsettled.bounded.incoming
          · refine lt_of_le_of_lt ?_ hsettled.bounded.outgoing
            rw [← hturned.outgoingOffset]
            exact hoffset.trans_le (Nat.sub_le _ _)
        received := by rw [List.append_nil]; rfl
        framed := by
          have hincoming : (dropOutgoing t.session n).incoming = k.session.incoming :=
            hturned.incoming
          refine ⟨[], (List.append_nil _).symm, ?_⟩
          change Framed cr lf _ [] (dropOutgoing t.session n).incoming
          rw [List.append_nil, hincoming]
          exact framed_of_not_hasPair hsettled.rest
        sent := by rw [List.append_nil]; rfl
        grown := by
          refine ⟨[], (List.append_nil _).symm, ?_⟩
          have hrest : (dropOutgoing t.session n).outgoing = k.session.outgoing.drop n := by
            rw [hout, hturned.outgoing]
          have hsplit : t.sent ++ (dropOutgoing t.session n).outgoing = k.session.outgoing := by
            rw [htaken, hrest, ← slice_take hn]
            exact List.take_append_drop n k.session.outgoing
          exact hsplit.trans (by simp [queued]) }

theorem handleConnectingState_effect {k : Link} (c : ConnectAnswer) (hsettled : Settled k.session) :
    Effect k (handleConnectingState k c).2 [] [] [] [] := by
  unfold handleConnectingState
  split_ifs with hpeer
  · have hqueues : Queues k { k with
        session := { k.session with state := .disconnected, lasterror := libircErrConnect } } :=
      ⟨rfl, rfl, rfl, rfl, hsettled.bounded.outgoing, (Queues.refl hsettled.bounded.outgoing).grown⟩
    exact hqueues.effect ⟨rfl, rfl, rfl⟩ hsettled
  · obtain ⟨hqueues, hin⟩ := sendAll_queues
      (k := { k with session := { k.session with state := .connected } })
      ((registration k.session).map c.format) hsettled.bounded.outgoing
    have hsame : Queues k (sendAll { k with session := { k.session with state := .connected } }
        ((registration k.session).map c.format)) :=
      ⟨hqueues.sock, hqueues.ssl, hqueues.sent, hqueues.received, hqueues.fits, hqueues.grown⟩
    exact hsame.effect ⟨hin.buf, hin.offset, hin.blocks⟩ hsettled

theorem step_effect {k : Link} (e : IoEvent) (hsettled : Settled k.session) :
    Effect k (step k e) (arrived k.session e) (stranded k.session e) (written k.session e)
      (uncounted k.session e) := by
  have hsame : Queues k k := .refl hsettled.bounded.outgoing
  have hquiet : ∀ (state : LibircState) (err : ℕ), Effect k
      { k with session := { k.session with state := state, lasterror := err } } [] [] [] [] := by
    intro state err
    exact Queues.effect ⟨rfl, rfl, rfl, rfl, hsame.fits, hsame.grown⟩ ⟨rfl, rfl, rfl⟩ hsettled
  have hidle : Effect k k [] [] [] [] := hsame.effect ⟨rfl, rfl, rfl⟩ hsettled
  cases e with
  | send formatted =>
    obtain ⟨hqueues, hin⟩ := sendRaw_queues formatted hsettled.bounded.outgoing
    exact hqueues.effect hin hsettled
  | enter => exact hquiet k.session.state libircErrOk
  | refuse => exact hquiet k.session.state libircErrState
  | connecting c =>
    rw [step]
    split_ifs with hstate
    · exact handleConnectingState_effect c hsettled
    · exact hidle
  | stray =>
    rw [step]
    split_ifs with hstate
    · exact hquiet .disconnected libircErrState
    · exact hidle
  | readable a replies =>
    by_cases hstate : k.session.state = .connected
    · have h := readPart_effect a replies hsettled
      simp only [step, arrived, stranded, written, uncounted, hstate, true_and, if_true, ite_not]
      exact h
    · simp only [step, arrived, stranded, written, uncounted, hstate, false_and, if_false]
      exact hidle
  | writable a =>
    by_cases hstate : k.session.state = .connected
    · have h := writePart_effect a hsettled
      simp only [step, arrived, stranded, written, uncounted, hstate, true_and, if_true, ite_not]
      exact h
    · simp only [step, arrived, stranded, written, uncounted, hstate, false_and, if_false]
      exact hidle

theorem connectingSession_settled (sock : ℕ) (ssl : Bool) (serverPassword : Option Bytes)
    (nick : Bytes) (realname : Option Bytes) :
    Settled (connectingSession sock ssl serverPassword nick realname) where
  bounded := ⟨Nat.succ_pos 2047, Nat.succ_pos 2047⟩
  rest := not_hasPair_nil

@[simp] theorem sendRaw_state (k : Link) (formatted : Bytes) :
    (sendRaw k formatted).session.state = k.session.state := by
  unfold sendRaw ircSendRaw
  dsimp only
  split_ifs <;> rfl

@[simp] theorem sendAll_state (k : Link) (texts : List Bytes) :
    (sendAll k texts).session.state = k.session.state := by
  induction texts generalizing k with
  | nil => rfl
  | cons text texts ih => exact (ih (sendRaw k text)).trans (sendRaw_state k text)

theorem processLines_state (fuel : ℕ) (replies : List (List Bytes)) (k : Link) :
    (processLines fuel replies k).session.state = k.session.state := by
  induction fuel generalizing replies k with
  | zero => rfl
  | succ fuel ih =>
    rw [processLines]
    split_ifs
    · exact (ih _ _).trans (sendAll_state _ _)
    · rfl

theorem sslRecv_state (s : IrcSession) (a : RecvAnswer) : (sslRecv s a).session.state = s.state := by
  cases a with
  | bytes data =>
    rw [sslRecv]
    split_ifs <;> rfl
  | wantRead => rfl
  | wantWrite => rfl
  | failed err => cases err <;> rfl

theorem sslSend_state (s : IrcSession) (a : SendAnswer) : (sslSend s a).session.state = s.state := by
  cases a with
  | accepted n =>
    rw [sslSend]
    split_ifs <;> rfl
  | wantRead => rfl
  | wantWrite => rfl
  | failed err => cases err <;> rfl

theorem sessionSocketRead_state (s : IrcSession) (a : Answers) :
    (sessionSocketRead s a).session.state = s.state := by
  unfold sessionSocketRead
  dsimp only
  split_ifs
  · exact sslSend_state _ _
  · exact sslRecv_state _ _
  · rfl
  · rfl

theorem readPart_state (k : Link) (a : Answers) (replies : List (List Bytes)) :
    (readPart k a replies).1 = 0 ∧ (readPart k a replies).2.session.state = k.session.state ∨
    (readPart k a replies).1 = 1 ∧ (readPart k a replies).2.session.state = .disconnected := by
  unfold readPart
  dsimp only
  split_ifs
  · exact Or.inr ⟨rfl, rfl⟩
  · exact Or.inl ⟨rfl, (processLines_state _ _ _).trans (sessionSocketRead_state _ _)⟩

theorem run_sends (k : Link) (texts : List Bytes) : run step k (texts.map .send) = sendAll k texts := by
  rw [run, List.foldl_map]
  rfl

/-- A call of `irc_process_select_descriptors` is a run of the events. -/
theorem ircProcessSelectDescriptors_eq_run (k : Link) (r : Round) :
    (ircProcessSelectDescriptors k r).2 = run step k (roundEvents k.session r) := by
  unfold ircProcessSelectDescriptors roundEvents
  by_cases hrefuses : refuses k.session
  · rw [if_pos hrefuses, if_pos hrefuses]
    rfl
  rw [if_neg hrefuses, if_neg hrefuses, run_append, run_cons, run_sends]
  change _ = run step (sendAll (setError k libircErrOk) r.dccSends) _
  have hstate : (sendAll (setError k libircErrOk) r.dccSends).session.state = k.session.state :=
    sendAll_state _ _
  generalize sendAll (setError k libircErrOk) r.dccSends = k' at hstate
  dsimp only
  rw [hstate]
  by_cases hconnecting : k.session.state = .connecting ∧ r.writable = true
  · rw [if_pos hconnecting, if_pos hconnecting, run_cons, run_nil, step,
      if_pos (hstate.trans hconnecting.1)]
  rw [if_neg hconnecting, if_neg hconnecting]
  by_cases hconnected : k.session.state ≠ .connected
  · rw [if_pos hconnected, if_pos hconnected, run_cons, run_nil, step, if_pos (hstate ▸ hconnected)]
  rw [if_neg hconnected, if_neg hconnected, run_append]
  have hup : k'.session.state = .connected := hstate.trans (not_not.mp hconnected)
  have hwrite : ∀ k'' : Link, k''.session.state = .connected →
      (if r.writable = true then writePart k'' r.onWrite else (0, k'')).2 =
        run step k'' (if r.writable = true then [.writable r.onWrite] else []) := by
    intro k'' hk''
    split_ifs
    · rw [run_cons, run_nil, step, if_pos hk'']
    · rfl
  by_cases hread : r.readable = true
  · rw [if_pos hread, if_pos hread, run_cons, run_nil, step, if_pos hup]
    rcases readPart_state k' r.onRead r.replies with ⟨hzero, hstay⟩ | ⟨hone, hdown⟩
    · rw [if_neg (by omega)]
      exact hwrite _ (hstay.trans hup)
    · rw [if_pos (by omega)]
      split_ifs
      · rw [run_cons, run_nil, step, if_neg (by rw [hdown]; decide)]
      · rfl
  · rw [if_neg hread, if_neg hread, if_neg (not_not.mpr rfl), run_nil]
    exact hwrite k' hup

end Xdccget.StreamEffects
