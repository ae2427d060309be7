import Xdccget.ServerStream
import Xdccget.SpokenLines

set_option autoImplicit false

/-!
# The client at its sockets

The connection reads and writes bytes in pieces of any size, the loop takes whole lines and
queues whole texts. Here one machine does both: what it reads is cut into blocks that the loop
handles one by one, and what the loop queues goes into `outgoing_buf`.
-/
namespace Xdccget.WiredClient
open CText DccMessages ClientState HaltingPrograms ProgramRelations StepRuns PairFraming
open ClientLoop (Loop LoopEvent Setup Format)
open SessionStreams (Link IoEvent IrcSession RecvAnswer sessionSocketRead sessionSocketWrite
  processLine processLines sendRaw sendAll libircFindcrlf connectingSession u32)
open StreamEffects (Bounded Settled findcrlf_cases)
open IrcParser (slice)
open IrcParserCarry (IsBlock)
open LoopFrames (accepts sentClient)
open QueuedTexts (queuedTexts queuedSince queuedBy onWire)
open SpokenLines (Adds Kept)

structure Wired where
  link : Link
  loop : Loop

def blockEvents (answers : ClientLoop.Answers) (block : Bytes) : List LoopEvent :=
  if h : IsBlock block then [.line answers ⟨block, h⟩] else []

def turn (w : Wired) (e : LoopEvent) : Wired :=
  let t := ClientLoop.step w.loop e
  ⟨sendAll w.link (queuedBy w.loop t), t⟩

inductive WireEvent
  | clock (now : ℕ)
  | keepAlive (outputFlag : Bool)
  | socket (dccid : ℕ) (ready : DccEvents.SocketReady)
  | addDescriptors
  | interrupt
  | connecting (peer : Bool) (format : Format)
  | readable (a : SessionStreams.Answers)
  | writable (a : SessionStreams.Answers)

section machine
variable (answers : ℕ → ClientLoop.Answers)

/-- `libirc_process_incoming_data` for each complete line; the system's answers are those to the
    `n`-th of them. -/
def handleLines : ℕ → Wired → Wired
  | 0, w => w
  | fuel + 1, w =>
    let offset := libircFindcrlf w.link.session.incomingBuf w.link.session.incomingOffset
    if 0 < offset then
      let block := slice w.link.session.incomingBuf 0 offset
      let t := run ClientLoop.step w.loop (blockEvents (answers w.link.blocks.length) block)
      handleLines fuel ⟨processLine w.link offset (queuedBy w.loop t), t⟩
    else w

/-- The part of `irc_process_select_descriptors` that reads. -/
def readPart (w : Wired) (a : SessionStreams.Answers) : Wired :=
  let t := sessionSocketRead w.link.session a
  if t.length < 0 then
    ⟨SessionStreams.terminated (w.link.took t), ClientLoop.step w.loop .closed⟩
  else
    let offset := u32 (t.session.incomingOffset + t.length.toNat)
    let taken := w.link.took { t with session := { t.session with incomingOffset := offset } }
    handleLines answers offset ⟨taken, w.loop⟩

def writePart (w : Wired) (a : SessionStreams.Answers) : Wired :=
  let t := sessionSocketWrite w.link.session a
  ⟨(SessionStreams.writePart w.link a).2,
    ClientLoop.step w.loop (if t.length < 0 then .closed else .writable t.length.toNat)⟩

def step (w : Wired) (e : WireEvent) : Wired :=
  if w.loop.session.halted.isSome then w
  else
    match e with
    | .clock now => turn w (.clock now)
    | .keepAlive outputFlag => turn w (.keepAlive outputFlag)
    | .socket dccid ready => turn w (.socket dccid ready)
    | .addDescriptors => turn w .addDescriptors
    | .interrupt => turn w .interrupt
    | .connecting peer format =>
      ⟨SessionStreams.step w.link (.connecting ⟨peer, format.render⟩),
        ClientLoop.step w.loop (.connecting peer format)⟩
    | .readable a => if w.link.session.state = .connected then readPart answers w a else w
    | .writable a => if w.link.session.state = .connected then writePart w a else w

end machine

/-- `irc_connect` has been called for what the user has configured, without a password. -/
def start (c : Setup) (sock : ℕ) : Wired where
  link := .open_ (connectingSession sock false none (cstr c.nick) none)
  loop := c.start

/-- The queue of the client is what waits in `outgoing_buf`. -/
structure Agrees (k : Link) (client : Client) : Prop where
  state : client.net.state = k.session.state
  outgoing : client.net.outgoing = k.session.outgoing

section queue
variable {k : Link} {client client' : Client}

theorem Agrees.offset (h : Agrees k client) :
    client.net.outgoing.length = k.session.outgoingOffset := by
  rw [h.outgoing, IrcSession.outgoing, StreamEffects.slice_length]

theorem agrees_sendRaw (h : Agrees k client) (hfits : k.session.outgoingOffset < libircBufferSize)
    (text : Bytes) : Agrees (sendRaw k text) (sentClient client text) := by
  have hoffset := h.offset
  refine ⟨?_, ?_⟩
  · rw [StreamEffects.sendRaw_state]
    exact (LoopFrames.afterSend_state client.net text).trans h.state
  by_cases haccepts : accepts client.net text = true
  · have hroom := haccepts
    simp only [accepts, Bool.and_eq_true, decide_eq_true_eq] at hroom
    have hqueued := (Registration.sendRaw_outgoing (h.state.symm.trans hroom.1) text (by omega)).2
    rw [hqueued, ← h.outgoing, ← List.append_assoc]
    simp only [sentClient, LoopFrames.afterSend, haccepts, if_true]
  · have hrefused : (sendRaw k text).session.outgoing = k.session.outgoing := by
      unfold sendRaw SessionStreams.ircSendRaw
      by_cases hstate : k.session.state = .connected
      · have hfull : libircBufferSize - k.session.outgoingOffset ≤
            (snprintf 1024 text).length + 2 := by
          simp only [accepts, h.state, hstate, decide_true, Bool.true_and,
            decide_eq_true_eq] at haccepts
          omega
        dsimp only
        rw [if_neg (not_not.mpr hstate), StreamEffects.usub64_of_le hfits.le, if_pos hfull]
        rfl
      · dsimp only
        rw [if_pos hstate]
        rfl
    rw [hrefused, ← h.outgoing]
    simp only [sentClient, LoopFrames.afterSend, haccepts]
    rfl

theorem agrees_sendAll (h : Agrees k client) {l : List Bytes} (hadds : Adds client client' l) :
    Agrees (sendAll k l) client' := by
  refine ⟨?_, ?_⟩
  · rw [StreamEffects.sendAll_state]
    exact hadds.state.trans h.state
  · by_cases hnil : l = []
    · subst hnil
      rw [hadds.outgoing, h.outgoing]
      exact List.append_nil _
    · have hstate : client.net.state = .connected := by
        by_contra hne
        exact hnil (hadds.silent hne)
      have hmap : l.map (snprintf 1024) = l :=
        (List.map_congr_left fun text htext => hadds.whole text htext).trans (List.map_id l)
      have hroom : k.session.outgoingOffset + (Registration.wire (l.map (snprintf 1024))).length <
          libircBufferSize := by
        have hsize := hadds.room.resolve_right hnil
        rw [hadds.outgoing, List.length_append, h.offset] at hsize
        rw [hmap]
        exact hsize
      rw [Registration.sendAll_outgoing (h.state.symm.trans hstate) l hroom, hmap, ← h.outgoing]
      exact hadds.outgoing

theorem queuedBy_of_adds {s t : Loop} {l : List Bytes}
    (h : Adds s.session.client t.session.client l) : queuedBy s t = l := by
  rw [queuedBy, queuedSince, h.texts, List.drop_left]

end queue

/-- The events of blocks that follow `n` others. -/
def linesEvents (answers : ℕ → ClientLoop.Answers) : ℕ → List Bytes → List LoopEvent
  | _, [] => []
  | n, block :: lines => blockEvents (answers n) block ++ linesEvents answers (n + 1) lines

def lineOf : LoopEvent → Option Bytes
  | .line _ block => some block.line
  | _ => none

theorem findcrlf_of_body {body : Bytes} (h : ¬ HasPair cr lf (body ++ [cr])) :
    IrcParserCarry.libircFindcrlf (body ++ [cr, lf]) = body.length + 2 := by
  induction body with
  | nil => rfl
  | cons a body ih =>
    have hrest : ¬ HasPair cr lf (body ++ [cr]) := fun hpair =>
      h (hpair.mono (List.suffix_cons a (body ++ [cr])).isInfix)
    have hfound := ih hrest
    cases body with
    | nil =>
      have hne : ¬ (a = cr ∧ cr = lf) := by simp [cr, lf]
      change IrcParserCarry.libircFindcrlf (a :: cr :: [lf]) = 3
      rw [IrcParserCarry.libircFindcrlf, if_neg hne]
      rfl
    | cons b body =>
      have hne : ¬ (a = cr ∧ b = lf) := by
        rintro ⟨rfl, rfl⟩
        exact h ⟨[], body ++ [cr], rfl⟩
      change IrcParserCarry.libircFindcrlf (a :: b :: (body ++ [cr, lf])) = _
      rw [IrcParserCarry.libircFindcrlf, if_neg hne]
      rw [List.cons_append] at hfound
      rw [hfound, List.length_cons, List.length_cons]
      rfl

theorem isBlock_of_line {line : Bytes} (h : Line cr lf line) : IsBlock line := by
  obtain ⟨body, rfl, hbody⟩ := h
  refine ⟨by simp, ?_⟩
  rw [findcrlf_of_body hbody, List.length_append]
  rfl

section turns
variable {answers : ℕ → ClientLoop.Answers} {c : Setup} {w : Wired}

/-- What the user has configured stays, and both sides have one queue. -/
structure Joint (c : Setup) (w : Wired) : Prop where
  kept : Kept c w.loop.session
  agrees : Agrees w.link w.loop.session.client

theorem speaks_step {e : LoopEvent} (h : ¬ SpokenLines.AtConnection e) (s : Loop) :
    SpokenLines.Speaks c s (ClientLoop.step s e) := by
  refine LoopLines.step_of_moves (SpokenLines.speaks_frame c).refl ?_
    (SpokenLines.speaks_handle h) s
  intro s t fault hspeaks hs
  obtain ⟨hkept, hwritten, hsaid⟩ := hspeaks hs
  exact ⟨{ hkept with }, hwritten, hsaid⟩

theorem speaks_blockEvents (a : ClientLoop.Answers) (block : Bytes) (s : Loop) :
    SpokenLines.Speaks c s (run ClientLoop.step s (blockEvents a block)) := by
  unfold blockEvents
  split
  · exact speaks_step id s
  · exact (SpokenLines.speaks_frame c).refl s

theorem linesEvents_lines {n : ℕ} {lines : List Bytes} (h : ∀ line ∈ lines, IsBlock line) :
    (linesEvents answers n lines).filterMap lineOf = lines := by
  induction lines generalizing n with
  | nil => rfl
  | cons block lines ih =>
    have hfirst : blockEvents (answers n) block =
        [.line (answers n) ⟨block, h block List.mem_cons_self⟩] :=
      dif_pos (h block List.mem_cons_self)
    rw [linesEvents, hfirst, List.filterMap_append, ih fun line hline =>
      h line (List.mem_cons_of_mem block hline)]
    rfl

structure Handled (answers : ℕ → ClientLoop.Answers) (c : Setup) (w v : Wired) (fuel : ℕ)
    (replies : List (List Bytes)) (lines : List Bytes) : Prop where
  joint : Joint c v
  link : v.link = processLines fuel replies w.link
  loop : v.loop = run ClientLoop.step w.loop (linesEvents answers w.link.blocks.length lines)
  blocks : v.link.blocks = w.link.blocks ++ lines
  isBlock : ∀ line ∈ lines, IsBlock line
  written : v.loop.written = w.loop.written

variable (answers) in
theorem handleLines_handled (h : Joint c w) (fuel : ℕ) (hbounded : Bounded w.link.session)
    (hfuel : w.link.session.incomingOffset ≤ fuel) :
    ∃ replies lines, Handled answers c w (handleLines answers fuel w) fuel replies lines := by
  induction fuel generalizing w with
  | zero => exact ⟨[], [], h, rfl, rfl, (List.append_nil _).symm, by simp, rfl⟩
  | succ fuel ih =>
    rw [handleLines]
    rcases findcrlf_cases w.link.session.incomingBuf w.link.session.incomingOffset with
      ⟨hzero, -⟩ | ⟨htwo, hle, hline⟩
    · rw [if_neg (by omega)]
      refine ⟨[], [], h, ?_, rfl, (List.append_nil _).symm, by simp, rfl⟩
      rw [processLines, if_neg (by omega)]
    · set offset := libircFindcrlf w.link.session.incomingBuf w.link.session.incomingOffset
        with hoffset
      set block := slice w.link.session.incomingBuf 0 offset
      rw [if_pos (by omega)]
      dsimp only
      have hspeaks := speaks_blockEvents (c := c) (answers w.link.blocks.length) block w.loop
      obtain ⟨hkept, hwritten, l, hadds, -⟩ := hspeaks h.kept
      generalize ht :
        run ClientLoop.step w.loop (blockEvents (answers w.link.blocks.length) block) = t
        at hkept hwritten hadds
      rw [queuedBy_of_adds hadds]
      obtain ⟨hqueues, hblocks, hrest, -⟩ := StreamEffects.processLine_effect l hbounded hle
      have hagrees : Agrees (processLine w.link offset l) t.session.client := by
        have hgiven :
            Agrees { w.link with blocks := w.link.blocks ++ [block] } w.loop.session.client :=
          ⟨h.agrees.state, h.agrees.outgoing⟩
        have hsent := agrees_sendAll hgiven hadds
        exact ⟨hsent.state, hsent.outgoing⟩
      have hbound := hbounded.incoming
      obtain ⟨replies, lines, hhandled⟩ := ih (w := ⟨processLine w.link offset l, t⟩)
        ⟨hkept, hagrees⟩ ⟨by rw [hrest]; omega, hqueues.fits⟩ (by rw [hrest]; omega)
      refine ⟨l :: replies, block :: lines, hhandled.joint, ?_, ?_, ?_, ?_, ?_⟩
      · rw [hhandled.link, processLines, if_pos (by omega)]
        rfl
      · rw [hhandled.loop, linesEvents, run_append, ht, hblocks, List.length_append]
        rfl
      · rw [hhandled.blocks, hblocks, List.append_assoc]
        rfl
      · exact List.forall_mem_cons.mpr ⟨isBlock_of_line hline, hhandled.isBlock⟩
      · exact hhandled.written.trans hwritten

def Registers (w : Wired) : Prop := w.link.session.state = .connecting →
  SessionStreams.registration w.link.session = ClientLoop.registration w.loop.session

theorem registers_of_state (h : w.link.session.state ≠ .connecting) : Registers w :=
  fun hstate => absurd hstate h

/-- What one event makes of both machines: each follows its own events. -/
structure Moved (c : Setup) (w v : Wired) (ios : List IoEvent) (events : List LoopEvent) :
    Prop where
  joint : Joint c v
  registers : Registers w → Registers v
  link : v.link = run SessionStreams.step w.link ios
  loop : v.loop = run ClientLoop.step w.loop events
  blocks : v.link.blocks = w.link.blocks ++ events.filterMap lineOf
  written : w.loop.written = w.link.sent → v.loop.written = v.link.sent

theorem registration_sendAll (k : Link) (texts : List Bytes) :
    SessionStreams.registration (sendAll k texts).session =
      SessionStreams.registration k.session := by
  induction texts generalizing k with
  | nil => rfl
  | cons text texts ih =>
    refine (ih (sendRaw k text)).trans ?_
    unfold sendRaw SessionStreams.ircSendRaw
    dsimp only
    split_ifs <;> rfl

theorem moved_turn (h : Joint c w) (hfits : w.link.session.outgoingOffset < libircBufferSize)
    {e : LoopEvent} (he : ¬ SpokenLines.AtConnection e) (hline : lineOf e = none) :
    ∃ ios, Moved c w (turn w e) ios [e] := by
  obtain ⟨hkept, hwritten, l, hadds, -⟩ := speaks_step (c := c) he w.loop h.kept
  obtain ⟨hqueues, hin⟩ := StreamEffects.sendAll_queues l hfits
  have hturn : turn w e = ⟨sendAll w.link l, ClientLoop.step w.loop e⟩ := by
    rw [turn, queuedBy_of_adds hadds]
  rw [hturn]
  refine ⟨l.map .send, ⟨hkept, agrees_sendAll h.agrees hadds⟩, fun hregisters hstate => ?_, ?_, rfl,
    ?_, fun hsent => ?_⟩
  · have hother : ∀ a block, e ≠ .line a block := by
      rintro a block rfl
      cases hline
    have hnick := (LoopLines.step_outer hother w.loop).untaken.nick
    rw [StreamEffects.sendAll_state] at hstate
    rw [registration_sendAll, hregisters hstate, ClientLoop.registration, ClientLoop.registration,
      hnick, hkept.realname, h.kept.realname]
  · exact (StreamEffects.run_sends w.link l).symm
  · rw [List.filterMap_cons, hline]
    exact hin.blocks.trans (List.append_nil _).symm
  · exact hwritten.trans (hsent.trans hqueues.sent.symm)

theorem not_readRetries {s : IrcSession} (h : s.ssl = false) : ¬ StreamEffects.readRetries s := by
  rintro ⟨hssl, -⟩
  rw [h] at hssl
  cases hssl

theorem not_writeRetries {s : IrcSession} (h : s.ssl = false) : ¬ StreamEffects.writeRetries s := by
  rintro ⟨hssl, -⟩
  rw [h] at hssl
  cases hssl

theorem closed_loop {s : Loop} (hlive : s.session.halted = none)
    (hstate : s.session.client.net.state = .connected) :
    ClientLoop.step s .closed =
      endState (ClientLoop.onSession (ClientLoop.setState .disconnected libircErrClosed)) s := by
  have hidle : ClientLoop.idle s .closed = false := by
    simp [ClientLoop.idle, ClientLoop.reaches, hlive, hstate]
  exact LoopLines.step_of_ok hidle rfl

variable (answers) in
theorem moved_readable (h : Joint c w) (hsettled : Settled w.link.session)
    (hplain : w.link.session.ssl = false) (hlive : w.loop.session.halted = none)
    (hstate : w.link.session.state = .connected) (a : SessionStreams.Answers) :
    ∃ ios events, Moved c w (readPart answers w a) ios events ∧
      ((readPart answers w a).link.session.state = .connected →
        ∃ lines, (∀ line ∈ lines, IsBlock line) ∧
          events = linesEvents answers w.link.blocks.length lines) := by
  obtain ⟨hturned, hreceived, hsent, hcounts⟩ :=
    StreamEffects.sessionSocketRead_effect w.link.session a
  rw [if_neg (not_readRetries hplain)] at hreceived hsent
  have hkeeps := StreamEffects.sessionSocketRead_state w.link.session a
  have hroom := StreamEffects.data_room a.recv hsettled.bounded.incoming
  rw [← hreceived] at hroom
  have hio (replies : List (List Bytes)) : SessionStreams.step w.link (.readable a replies) =
      (SessionStreams.readPart w.link a replies).2 := if_pos hstate
  unfold readPart
  unfold SessionStreams.readPart at hio
  generalize sessionSocketRead w.link.session a = t at *
  have hsize : libircBufferSize = 2048 := rfl
  dsimp only at hio ⊢
  rcases hcounts with ⟨hlength, hnil⟩ | hlength
  · simp only [if_pos (show t.length < 0 by omega)] at hio ⊢
    have hclosed := closed_loop hlive (h.agrees.state.trans hstate)
    have hdown : (SessionStreams.terminated (w.link.took t)).session.state ≠ .connecting := by
      simp [SessionStreams.terminated]
    refine ⟨[.readable a []], [.closed], ⟨⟨?_, ?_, ?_⟩, fun _ => registers_of_state hdown,
      (hio []).symm, rfl, ?_, fun hw => ?_⟩, fun hopen => by cases hopen⟩
    · rw [hclosed]
      exact SpokenLines.kept_client h.kept rfl rfl
    · rw [hclosed]
      rfl
    · rw [hclosed]
      exact h.agrees.outgoing.trans hturned.outgoing.symm
    · exact (List.append_nil _).symm
    · rw [hclosed]
      change w.loop.written = w.link.sent ++ t.sent
      rw [hsent, List.append_nil, hw]
  · simp only [if_neg (show ¬ t.length < 0 by omega)] at hio ⊢
    have hoffset : u32 (t.session.incomingOffset + t.length.toNat) =
        w.link.session.incomingOffset + t.received.length := by
      rw [hturned.incomingOffset, hlength, Int.toNat_natCast]
      exact Nat.mod_eq_of_lt (by omega)
    rw [hoffset] at hio ⊢
    set offset := w.link.session.incomingOffset + t.received.length
    set fed := w.link.took { t with session := { t.session with incomingOffset := offset } }
    have hjoint : Joint c ⟨fed, w.loop⟩ :=
      ⟨h.kept, h.agrees.state.trans hkeeps.symm, h.agrees.outgoing.trans hturned.outgoing.symm⟩
    have hbounded : Bounded fed.session :=
      ⟨hroom, hturned.outgoingOffset ▸ hsettled.bounded.outgoing⟩
    obtain ⟨replies, lines, hhandled⟩ := handleLines_handled answers hjoint offset hbounded le_rfl
    have hopen : (handleLines answers offset ⟨fed, w.loop⟩).link.session.state ≠ .connecting := by
      have hfed : fed.session.state = .connected := hkeeps.trans hstate
      rw [hhandled.link, StreamEffects.processLines_state, hfed]
      decide
    refine ⟨[.readable a replies], linesEvents answers w.link.blocks.length lines,
      ⟨hhandled.joint, fun _ => registers_of_state hopen, ?_, hhandled.loop, ?_, fun hw => ?_⟩,
      fun _ => ⟨lines, hhandled.isBlock, rfl⟩⟩
    · rw [hhandled.link]
      exact (hio replies).symm
    · rw [linesEvents_lines hhandled.isBlock]
      exact hhandled.blocks
    · have hqueues := (StreamEffects.processLines_effect offset replies hbounded le_rfl).1
      rw [hhandled.written, hhandled.link, hqueues.sent]
      change w.loop.written = w.link.sent ++ t.sent
      rw [hsent, List.append_nil, hw]

theorem sessionSocketWrite_state (s : IrcSession) (a : SessionStreams.Answers) :
    (sessionSocketWrite s a).session.state = s.state := by
  unfold sessionSocketWrite
  dsimp only
  split_ifs
  · exact StreamEffects.sslRecv_state _ _
  · exact StreamEffects.sslSend_state _ _
  · rfl
  · rfl

theorem moved_writable (h : Joint c w) (hplain : w.link.session.ssl = false)
    (hlive : w.loop.session.halted = none) (hstate : w.link.session.state = .connected)
    (a : SessionStreams.Answers) : ∃ ios events, Moved c w (writePart w a) ios events := by
  obtain ⟨hturned, -, hsent, hcounts⟩ := StreamEffects.sessionSocketWrite_effect w.link.session a
  rw [if_neg (not_writeRetries hplain)] at hsent
  have hio : SessionStreams.step w.link (.writable a) = (SessionStreams.writePart w.link a).2 :=
    if_pos hstate
  have hkeeps := sessionSocketWrite_state w.link.session a
  have hconnected := h.agrees.state.trans hstate
  unfold writePart
  rw [← hio]
  unfold SessionStreams.writePart at hio
  generalize sessionSocketWrite w.link.session a = t at *
  dsimp only at hio ⊢
  rcases hcounts with ⟨hlength, hnil⟩ | hlength
  · simp only [if_pos (show t.length < 0 by omega)] at hio ⊢
    have hclosed := closed_loop hlive hconnected
    refine ⟨[.writable a], [.closed], ⟨?_, ?_, ?_⟩, fun _ => registers_of_state ?_, rfl, rfl, ?_,
      fun hw => ?_⟩
    · rw [hclosed]
      exact SpokenLines.kept_client h.kept rfl rfl
    · rw [hclosed, hio]
      rfl
    · rw [hclosed, hio]
      exact h.agrees.outgoing.trans hturned.outgoing.symm
    · rw [hio]
      simp [SessionStreams.terminated]
    · rw [hio]
      exact (List.append_nil _).symm
    · rw [hclosed, hio]
      change w.loop.written = w.link.sent ++ t.sent
      rw [hnil, List.append_nil, hw]
  · simp only [if_neg (show ¬ t.length < 0 by omega)] at hio ⊢
    have hcount : t.length.toNat = a.send.count w.link.session := by
      rw [hlength, hsent, Int.toNat_natCast]
      exact StreamEffects.slice_length _ _ _
    rw [hcount] at hio ⊢
    have hle := StreamEffects.count_le w.link.session a.send
    generalize hn : a.send.count w.link.session = n at hio hle ⊢
    have htook : t.sent = w.link.session.outgoing.take n := by
      rw [hsent, StreamEffects.taken, hn]
      exact (StreamEffects.slice_take hle).symm
    have hidle : ClientLoop.idle w.loop (.writable n) = false := by
      simp [ClientLoop.idle, ClientLoop.reaches, hlive, hconnected]
    have hwrites :
        ClientLoop.step w.loop (.writable n) = endState (ClientLoop.socketWrite n) w.loop :=
      LoopLines.step_of_ok hidle rfl
    have hout := (StreamEffects.dropOutgoing_effect
      (show n ≤ t.session.outgoingOffset from hturned.outgoingOffset ▸ hle)).2
    have hopen : (SessionStreams.dropOutgoing t.session n).state ≠ .connecting := by
      have hsame : (SessionStreams.dropOutgoing t.session n).state = .connected :=
        hkeeps.trans hstate
      rw [hsame]
      decide
    refine ⟨[.writable a], [.writable n], ⟨?_, ?_, ?_⟩, fun _ => registers_of_state ?_, rfl, rfl,
      ?_, fun hw => ?_⟩
    · rw [hwrites]
      exact SpokenLines.kept_client h.kept rfl rfl
    · rw [hwrites, hio]
      exact h.agrees.state.trans hkeeps.symm
    · rw [hwrites, hio]
      change w.loop.session.client.net.outgoing.drop n =
        (SessionStreams.dropOutgoing t.session n).outgoing
      rw [hout, hturned.outgoing, h.agrees.outgoing]
    · rw [hio]
      exact hopen
    · rw [hio]
      exact (List.append_nil _).symm
    · rw [hwrites, hio]
      change w.loop.written ++ w.loop.session.client.net.outgoing.take n = w.link.sent ++ t.sent
      rw [htook, hw, h.agrees.outgoing]

theorem runs_registration (format : Format) (texts : List Bytes) (s : Loop) :
    (texts.forM fun buf => ClientLoop.onSession (Commands.send (format.render buf))).run s =
      .ok ⟨⟩ { s with session := { s.session with
        client := (texts.map format.render).foldl sentClient s.session.client } } := by
  induction texts generalizing s with
  | nil => rfl
  | cons text texts ih =>
    have hsend : (ClientLoop.onSession (Commands.send (format.render text))).run s =
        .ok ⟨⟩ { s with session := { s.session with
          client := sentClient s.session.client (format.render text) } } := by
      rw [ClientLoop.onSession, zoom_run, LoopFrames.send_run]
    have hcons : ((text :: texts).forM fun buf =>
        ClientLoop.onSession (Commands.send (format.render buf))) =
        (ClientLoop.onSession (Commands.send (format.render text)) >>= fun _ =>
          texts.forM fun buf => ClientLoop.onSession (Commands.send (format.render buf))) := rfl
    rw [hcons, run_bind_of_ok hsend, ih]
    rfl

theorem agrees_foldl {k : Link} {client : Client} (h : Agrees k client)
    (hfits : k.session.outgoingOffset < libircBufferSize) (texts : List Bytes) :
    Agrees (sendAll k texts) (texts.foldl sentClient client) ∧
      (texts.foldl sentClient client).cfg = client.cfg := by
  induction texts generalizing k client with
  | nil => exact ⟨h, rfl⟩
  | cons text texts ih =>
    have hsent := (StreamEffects.sendRaw_queues text hfits).1.fits
    obtain ⟨hagrees, hcfg⟩ := ih (agrees_sendRaw h hfits text) hsent
    exact ⟨hagrees, hcfg⟩

theorem moved_connecting (h : Joint c w) (hsettled : Settled w.link.session)
    (hlive : w.loop.session.halted = none) (hregistration : Registers w) (peer : Bool)
    (format : Format) :
    Moved c w ⟨SessionStreams.step w.link (.connecting ⟨peer, format.render⟩),
        ClientLoop.step w.loop (.connecting peer format)⟩
      [.connecting ⟨peer, format.render⟩] [.connecting peer format] := by
  have hlinked : SessionStreams.step w.link (.connecting ⟨peer, format.render⟩) =
      if w.link.session.state = .connecting then
        (SessionStreams.handleConnectingState w.link ⟨peer, format.render⟩).2 else w.link := rfl
  by_cases hstate : w.link.session.state = .connecting
  · have hidle : ClientLoop.idle w.loop (.connecting peer format) = false := by
      simp [ClientLoop.idle, ClientLoop.reaches, hlive, h.agrees.state, hstate]
    have hget : (get : ClientLoop.LoopM Loop).run w.loop = .ok w.loop w.loop := rfl
    rw [if_pos hstate] at hlinked
    cases peer with
    | false =>
      have hloop : ClientLoop.step w.loop (.connecting false format) =
          endState (ClientLoop.onSession
            (ClientLoop.setState .disconnected libircErrConnect)) w.loop :=
        LoopLines.step_of_ok hidle rfl
      refine ⟨⟨?_, ?_, ?_⟩, fun _ => registers_of_state ?_, rfl, rfl, ?_, fun hw => ?_⟩
      · rw [hloop]
        exact SpokenLines.kept_client h.kept rfl rfl
      · rw [hloop, hlinked]
        rfl
      · rw [hloop, hlinked]
        exact h.agrees.outgoing
      · rw [hlinked]
        simp [SessionStreams.handleConnectingState]
      · rw [hlinked]
        exact (List.append_nil _).symm
      · rw [hloop, hlinked]
        exact hw
    | true =>
      let s := endState (ClientLoop.onSession
        (ClientLoop.setState .connected w.loop.session.client.net.lasterror)) w.loop
      let k : Link := { w.link with session := { w.link.session with state := .connected } }
      have hset : (ClientLoop.onSession
          (ClientLoop.setState .connected w.loop.session.client.net.lasterror)).run w.loop =
            .ok ⟨⟩ s := rfl
      let texts := (ClientLoop.registration w.loop.session).map format.render
      let client := texts.foldl sentClient s.session.client
      have hloop : ClientLoop.step w.loop (.connecting true format) =
          { s with session := { s.session with client := client } } := by
        apply LoopLines.step_of_ok hidle
        change (ClientLoop.handleConnectingState true format).run w.loop = _
        unfold ClientLoop.handleConnectingState
        rw [run_bind_of_ok hget, if_pos rfl, run_bind_of_ok hset, runs_registration]
      have hsends : SessionStreams.step w.link (.connecting ⟨true, format.render⟩) =
          sendAll k texts := by
        rw [hlinked]
        change sendAll k ((SessionStreams.registration w.link.session).map format.render) = _
        rw [hregistration hstate]
      have hgiven : Agrees k s.session.client := ⟨rfl, h.agrees.outgoing⟩
      obtain ⟨hagrees, hcfg⟩ := agrees_foldl hgiven hsettled.bounded.outgoing texts
      obtain ⟨hqueues, hin⟩ :=
        StreamEffects.sendAll_queues (k := k) texts hsettled.bounded.outgoing
      have hkept : Kept c s.session := SpokenLines.kept_client h.kept rfl rfl
      refine ⟨⟨?_, ?_⟩, fun _ => registers_of_state ?_, rfl, rfl, ?_, fun hw => ?_⟩
      · rw [hloop]
        exact SpokenLines.kept_client hkept (by rw [hcfg]) (by rw [hcfg])
      · rw [hloop, hsends]
        exact hagrees
      · rw [hsends, StreamEffects.sendAll_state]
        exact (by decide : LibircState.connected ≠ .connecting)
      · rw [hsends]
        exact hin.blocks.trans (List.append_nil _).symm
      · rw [hloop, hsends]
        exact hw.trans hqueues.sent.symm
  · have hidle : ClientLoop.idle w.loop (.connecting peer format) = true := by
      simp [ClientLoop.idle, ClientLoop.reaches, h.agrees.state, hstate]
    rw [if_neg hstate] at hlinked
    refine ⟨?_, fun _ => registers_of_state ?_, rfl, rfl, ?_, fun hw => ?_⟩
    · rw [hlinked, LoopLines.step_of_idle hidle]
      exact h
    · rw [hlinked]
      exact hstate
    · rw [hlinked]
      exact (List.append_nil _).symm
    · rw [hlinked, LoopLines.step_of_idle hidle]
      exact hw

/-- The machine is a run of the connection and a run of the loop, side by side. -/
structure Served (c : Setup) (sock : ℕ) (w : Wired) : Prop where
  joint : Joint c w
  registers : Registers w
  written : w.loop.written = w.link.sent
  link : ∃ ios, w.link = run SessionStreams.step (start c sock).link ios
  loop : ∃ events, w.loop = run ClientLoop.step c.start events ∧
    events.filterMap lineOf = w.link.blocks

theorem served_start (c : Setup) (sock : ℕ) : Served c sock (start c sock) where
  joint := ⟨⟨rfl, rfl, rfl, rfl, rfl, rfl⟩, ⟨rfl, rfl⟩⟩
  registers := fun _ => rfl
  written := rfl
  link := ⟨[], rfl⟩
  loop := ⟨[], rfl, rfl⟩

theorem Served.moved {sock : ℕ} {v : Wired} {ios : List IoEvent} {events : List LoopEvent}
    (h : Served c sock w) (hmoved : Moved c w v ios events) : Served c sock v where
  joint := hmoved.joint
  registers := hmoved.registers h.registers
  written := hmoved.written h.written
  link := by
    obtain ⟨before, hbefore⟩ := h.link
    exact ⟨before ++ ios, by rw [hmoved.link, hbefore, run_append]⟩
  loop := by
    obtain ⟨before, hbefore, hlines⟩ := h.loop
    refine ⟨before ++ events, by rw [hmoved.loop, hbefore, run_append], ?_⟩
    rw [List.filterMap_append, hlines, hmoved.blocks]

theorem Served.plain {sock : ℕ} (h : Served c sock w) :
    w.link.session.ssl = false ∧ ServerStream.Kept w.link := by
  obtain ⟨ios, hlink⟩ := h.link
  have hstep : ∀ k e, k.session.ssl = false ∧ ServerStream.Kept k →
      (SessionStreams.step k e).session.ssl = false ∧ ServerStream.Kept (SessionStreams.step k e) :=
    fun _ e hk => ServerStream.step_plain e hk.1 hk.2
  rw [hlink]
  exact run_invariant hstep
    ⟨rfl, ServerStream.kept_open sock false none (cstr c.nick) none⟩ ios

theorem served_step {sock : ℕ} (h : Served c sock w) (e : WireEvent) :
    Served c sock (step answers w e) := by
  obtain ⟨hplain, hkept⟩ := h.plain
  have hfits := hkept.settled.bounded.outgoing
  have hturn {e : LoopEvent} (he : ¬ SpokenLines.AtConnection e) (hline : lineOf e = none) :
      Served c sock (turn w e) := by
    obtain ⟨ios, hmoved⟩ := moved_turn h.joint hfits he hline
    exact h.moved hmoved
  unfold step
  by_cases hhalted : w.loop.session.halted.isSome = true
  · rw [if_pos hhalted]
    exact h
  · rw [if_neg hhalted]
    have hlive : w.loop.session.halted = none := by simpa using hhalted
    cases e with
    | clock | keepAlive | socket | addDescriptors | interrupt => exact hturn id rfl
    | connecting peer format =>
      exact h.moved (moved_connecting h.joint hkept.settled hlive h.registers peer format)
    | readable a =>
      by_cases hstate : w.link.session.state = .connected
      · obtain ⟨ios, events, hmoved, -⟩ :=
          moved_readable answers h.joint hkept.settled hplain hlive hstate a
        dsimp only
        rw [if_pos hstate]
        exact h.moved hmoved
      · dsimp only
        rw [if_neg hstate]
        exact h
    | writable a =>
      by_cases hstate : w.link.session.state = .connected
      · obtain ⟨ios, events, hmoved⟩ := moved_writable h.joint hplain hlive hstate a
        dsimp only
        rw [if_pos hstate]
        exact h.moved hmoved
      · dsimp only
        rw [if_neg hstate]
        exact h

theorem served_run (answers : ℕ → ClientLoop.Answers) (c : Setup) (sock : ℕ)
    (events : List WireEvent) : Served c sock (run (step answers) (start c sock) events) := by
  have hstep : ∀ w e, Served c sock w → Served c sock (step answers w e) :=
    fun _ e h => served_step h e
  exact run_invariant hstep (served_start c sock) events

def delivered (w : Wired) : WireEvent → Bytes
  | .readable a =>
    if w.loop.session.halted = none ∧ w.link.session.state = .connected then
      a.recv.data w.link.session
    else []
  | _ => []

theorem sendAll_received (k : Link) (texts : List Bytes) :
    (sendAll k texts).received = k.received := by
  induction texts generalizing k with
  | nil => rfl
  | cons text texts ih => exact ih (sendRaw k text)

theorem handleLines_received (answers : ℕ → ClientLoop.Answers) (fuel : ℕ) (w : Wired) :
    (handleLines answers fuel w).link.received = w.link.received := by
  induction fuel generalizing w with
  | zero => rfl
  | succ fuel ih =>
    rw [handleLines]
    split_ifs
    · rw [ih]
      exact sendAll_received _ _
    · rfl

theorem readPart_received (answers : ℕ → ClientLoop.Answers) {w : Wired}
    (hplain : w.link.session.ssl = false) (a : SessionStreams.Answers) :
    (readPart answers w a).link.received = w.link.received ++ a.recv.data w.link.session := by
  have hretries : ¬ StreamEffects.readRetries w.link.session := fun h => by
    simp [StreamEffects.readRetries, hplain] at h
  obtain ⟨-, hreceived, -, -⟩ := StreamEffects.sessionSocketRead_effect w.link.session a
  rw [if_neg hretries] at hreceived
  rw [← hreceived]
  unfold readPart
  dsimp only
  split_ifs
  · rfl
  · rw [handleLines_received]
    rfl

theorem writePart_received {w : Wired} (hplain : w.link.session.ssl = false)
    (a : SessionStreams.Answers) : (writePart w a).link.received = w.link.received := by
  have hretries : ¬ StreamEffects.writeRetries w.link.session := fun h => by
    simp [StreamEffects.writeRetries, hplain] at h
  obtain ⟨-, hreceived, -, -⟩ := StreamEffects.sessionSocketWrite_effect w.link.session a
  rw [if_neg hretries] at hreceived
  have htook : (w.link.took (sessionSocketWrite w.link.session a)).received = w.link.received := by
    rw [Link.took, hreceived, List.append_nil]
  unfold writePart SessionStreams.writePart
  dsimp only
  split_ifs <;> exact htook

theorem received_step {sock : ℕ} (h : Served c sock w) (e : WireEvent) :
    (step answers w e).link.received = w.link.received ++ delivered w e := by
  obtain ⟨hplain, -⟩ := h.plain
  unfold step
  by_cases hhalted : w.loop.session.halted = none
  · rw [if_neg (by simp [hhalted])]
    cases e with
    | clock | keepAlive | socket | addDescriptors | interrupt =>
      exact (sendAll_received _ _).trans (List.append_nil _).symm
    | connecting peer format =>
      refine Eq.trans ?_ (List.append_nil _).symm
      dsimp only [SessionStreams.step, SessionStreams.handleConnectingState]
      split_ifs
      · rfl
      · exact sendAll_received _ _
      · rfl
    | readable a =>
      dsimp only [delivered]
      by_cases hstate : w.link.session.state = .connected
      · rw [if_pos hstate, if_pos ⟨hhalted, hstate⟩, readPart_received answers hplain]
      · rw [if_neg hstate, if_neg fun hreads => hstate hreads.2, List.append_nil]
    | writable a =>
      refine Eq.trans ?_ (List.append_nil _).symm
      dsimp only
      split_ifs
      · exact writePart_received hplain a
      · rfl
  · have hnothing : delivered w e = [] := by
      cases e <;> simp [delivered, hhalted]
    rw [if_pos (by simpa [Option.isSome_iff_ne_none] using hhalted), hnothing, List.append_nil]

theorem received_run {sock : ℕ} (h : Served c sock w) (events : List WireEvent) :
    (run (step answers) w events).link.received =
      w.link.received ++ concatAlong (step answers) delivered w events := by
  induction events generalizing w with
  | nil => exact (List.append_nil _).symm
  | cons e events ih =>
    rw [run_cons, ih (served_step h e), received_step h, concatAlong, List.append_assoc]

end turns

/-- Over a plain connection the two models are one client, in whatever pieces the bytes come and
    go: the lines of the loop are those of the stream that the reads were given, what it has written
    is what went out, and what it has queued waits in the buffer. -/
theorem wire_refines_loop (answers : ℕ → ClientLoop.Answers) (c : Setup) (sock : ℕ)
    (events : List WireEvent) :
    let w := run (step answers) (start c sock) events
    let stream := concatAlong (step answers) delivered (start c sock) events
    w.link.received = stream ∧
    ∃ ios turns, w.link = run SessionStreams.step (start c sock).link ios ∧
      w.loop = run ClientLoop.step c.start turns ∧
      Framed cr lf stream (turns.filterMap lineOf) w.link.session.incoming ∧
      w.loop.written = w.link.sent ∧
      w.loop.session.client.net.outgoing = w.link.session.outgoing ∧
      w.loop.session.client.net.state = w.link.session.state := by
  intro w stream
  have h : Served c sock w := served_run answers c sock events
  have hstream : w.link.received = stream := received_run (served_start c sock) events
  obtain ⟨ios, hlink⟩ := h.link
  obtain ⟨turns, hloop, hlines⟩ := h.loop
  refine ⟨hstream, ios, turns, hlink, hloop, ?_, h.written, h.joint.agrees.outgoing,
    h.joint.agrees.state⟩
  rw [hlines, ← hstream]
  exact h.plain.2.incoming

section pieces
variable {answers : ℕ → ClientLoop.Answers} {c : Setup} {sock : ℕ} {w : Wired}

theorem linesEvents_append (n : ℕ) (l m : List Bytes) : linesEvents answers n (l ++ m) =
    linesEvents answers n l ++ linesEvents answers (n + l.length) m := by
  induction l generalizing n with
  | nil => rfl
  | cons block l ih =>
    rw [List.cons_append, linesEvents, linesEvents, ih, List.append_assoc, List.length_cons,
      Nat.add_assoc, Nat.add_comm 1]

theorem reads_idle (h : w.link.session.state ≠ .connected) (reads : List SessionStreams.Answers) :
    run (step answers) w (reads.map .readable) = w := by
  induction reads with
  | nil => rfl
  | cons a reads ih =>
    have hstep : step answers w (.readable a) = w := by
      unfold step
      dsimp only
      rw [if_neg h, ite_self]
    rw [List.map_cons, run_cons, hstep, ih]

theorem reads_lines (h : Served c sock w) (reads : List SessionStreams.Answers)
    (hopen : (run (step answers) w (reads.map .readable)).link.session.state = .connected) :
    let v := run (step answers) w (reads.map .readable)
    ∃ lines, v.link.blocks = w.link.blocks ++ lines ∧
      v.loop = run ClientLoop.step w.loop (linesEvents answers w.link.blocks.length lines) := by
  induction reads generalizing w with
  | nil => exact ⟨[], (List.append_nil _).symm, rfl⟩
  | cons a reads ih =>
    rw [List.map_cons, run_cons] at hopen ⊢
    have hserved : Served c sock (step answers w (.readable a)) := served_step h (.readable a)
    obtain ⟨rest, hblocks, hloop⟩ := ih hserved hopen
    obtain ⟨first, hcut, hhandled⟩ :
        ∃ first, (step answers w (.readable a)).link.blocks = w.link.blocks ++ first ∧
          (step answers w (.readable a)).loop =
            run ClientLoop.step w.loop (linesEvents answers w.link.blocks.length first) := by
      by_cases hreads : w.loop.session.halted = none ∧ w.link.session.state = .connected
      · obtain ⟨hlive, hstate⟩ := hreads
        obtain ⟨hplain, hkept⟩ := h.plain
        obtain ⟨ios, events, hmoved, hlines⟩ :=
          moved_readable answers h.joint hkept.settled hplain hlive hstate a
        have hstep : step answers w (.readable a) = readPart answers w a := by
          unfold step
          dsimp only
          rw [if_neg (by simp [hlive]), if_pos hstate]
        rw [hstep] at hopen ⊢
        -- a read that fails ends the connection, and no later one opens it again
        have hstill : (readPart answers w a).link.session.state = .connected := by
          by_contra hdown
          rw [reads_idle hdown] at hopen
          exact hdown hopen
        obtain ⟨lines, hisBlock, rfl⟩ := hlines hstill
        refine ⟨lines, ?_, hmoved.loop⟩
        rw [hmoved.blocks, linesEvents_lines hisBlock]
      · have hstep : step answers w (.readable a) = w := by
          unfold step
          dsimp only
          split_ifs with hhalted hstate
          · rfl
          · exact absurd ⟨by simpa using hhalted, hstate⟩ hreads
          · rfl
        rw [hstep]
        exact ⟨[], (List.append_nil _).symm, rfl⟩
    refine ⟨first ++ rest, ?_, ?_⟩
    · rw [hblocks, hcut, List.append_assoc]
    · rw [hloop, hhandled, hcut, List.length_append, linesEvents_append, run_append]

end pieces

/-- However the bytes of a plain connection are cut into reads, the client comes to the same: what its loop has
    done with them, what it goes on to write, and the start of a line that it holds back. -/
theorem pieces_do_not_matter (answers : ℕ → ClientLoop.Answers) (c : Setup) (sock : ℕ)
    (events : List WireEvent) (first second : List SessionStreams.Answers) :
    let w := run (step answers) (start c sock) events
    let v := run (step answers) w (first.map .readable)
    let v' := run (step answers) w (second.map .readable)
    concatAlong (step answers) delivered w (first.map .readable) =
        concatAlong (step answers) delivered w (second.map .readable) →
      v.link.session.state = .connected → v'.link.session.state = .connected →
      v.loop = v'.loop ∧ v.link.session.outgoing = v'.link.session.outgoing ∧
        v.link.session.incoming = v'.link.session.incoming := by
  intro w v v' hdelivered hopen hopen'
  have h : Served c sock w := served_run answers c sock events
  have hreceived : v.link.received = v'.link.received := by
    rw [received_run h, received_run h, hdelivered]
  have hserved {reads : List SessionStreams.Answers} :
      Served c sock (run (step answers) w (reads.map .readable)) := by
    rw [← run_append]
    exact served_run answers c sock (events ++ reads.map .readable)
  obtain ⟨lines, hblocks, hloop⟩ := reads_lines h first hopen
  obtain ⟨lines', hblocks', hloop'⟩ := reads_lines h second hopen'
  have hframed : Framed cr lf v.link.received v.link.blocks v.link.session.incoming :=
    hserved.plain.2.incoming
  have hframed' : Framed cr lf v'.link.received v'.link.blocks v'.link.session.incoming :=
    hserved.plain.2.incoming
  rw [← hreceived] at hframed'
  obtain ⟨hsame, hincoming⟩ := hframed.unique hframed'
  have hlines : lines = lines' :=
    List.append_cancel_left (hblocks.symm.trans (hsame.trans hblocks'))
  have hloops : v.loop = v'.loop := by
    rw [hloop, hloop', hlines]
  refine ⟨hloops, ?_, hincoming⟩
  rw [← hserved.joint.agrees.outgoing, ← hserved.joint.agrees.outgoing]
  exact congrArg (·.session.client.net.outgoing) hloops

def reads (text : String) : SessionStreams.Answers := ⟨.bytes (bytes text), .accepted 0⟩

theorem ping_in_pieces :
    let w := run (step fun _ => ClientLoop.readyAnswers) (start ClientLoop.botSetup 3)
      [.connecting true ClientLoop.plainFormat]
    let v := run (step fun _ => ClientLoop.readyAnswers) w
      ([reads "PING :a\x0d\x0a"].map .readable)
    let v' := run (step fun _ => ClientLoop.readyAnswers) w
      ([reads "PI", reads "NG :a\x0d", reads "\x0a"].map .readable)
    v.loop = v'.loop ∧ v.link.session.outgoing = v'.link.session.outgoing ∧
      v.link.session.incoming = v'.link.session.incoming :=
  pieces_do_not_matter (fun _ => ClientLoop.readyAnswers) ClientLoop.botSetup 3
    [.connecting true ClientLoop.plainFormat] [reads "PING :a\x0d\x0a"]
    [reads "PI", reads "NG :a\x0d", reads "\x0a"]
    (by decide +kernel) (by decide +kernel) (by decide +kernel)

end Xdccget.WiredClient
