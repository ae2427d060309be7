import Xdccget.LoopLines
import Xdccget.QueuedTexts

set_option autoImplicit false

/-!
# No reply takes over a line end

The parser never stores a line end, so no part of a parsed line has one, whatever comes
in. From there on no text that the client keeps or sends gets one.
-/
namespace Xdccget.ReplyLines
open CText LineParser DccMessages ClientState HaltingPrograms ProgramRelations StepRuns ClientLoop
  LoopFrames LoopLines QueuedTexts
open IrcParser (Parser Turn slice readByte turn executeFrom ircParserExecute)
open IrcParserCarry (callbacks)
open Commands (LineEnv LineSession IrcCommand HandlerM setLine send ctcpBuf replaceParam moveMode
  replyToNotice)

/-- `raw` holds no line end. -/
def CleanRaw (p : Parser) : Prop := ∀ j, p.raw j ≠ cr ∧ p.raw j ≠ lf

def CleanCalls (events : List IrcParser.Event) : Prop :=
  ∀ cb i n text, .call cb i n text ∈ events → OneLine text

section parser
variable {p q : Parser} {a : UInt8}

theorem cleanRaw_init : CleanRaw IrcParser.ircParserInit := by
  intro j
  have hzero : IrcParser.ircParserInit.raw j = 0 := by
    change (if j < IrcParser.ircParserRawBufferSize then (0 : UInt8) else 0) = 0
    split <;> rfl
  rw [hzero]
  decide

theorem oneLine_slice (h : CleanRaw p) (start n : ℕ) : OneLine (slice p.raw start n) := by
  constructor
  all_goals
    intro hmem
    obtain ⟨j, -, hj⟩ := List.mem_map.mp hmem
  · exact (h (start + j)).1 hj
  · exact (h (start + j)).2 hj

theorem cleanCalls_nil : CleanCalls [] := fun _ _ _ _ h => absurd h List.not_mem_nil

theorem CleanCalls.append {a b : List IrcParser.Event} (ha : CleanCalls a) (hb : CleanCalls b) :
    CleanCalls (a ++ b) := by
  intro cb i n text h
  rcases List.mem_append.mp h with h | h
  · exact ha cb i n text h
  · exact hb cb i n text h

theorem cleanCalls_forceCall (h : CleanRaw p) (f : IrcParser.Callback) :
    CleanCalls (IrcParser.ircParserForceCall p f).2 := by
  intro cb i n text hmem
  rw [IrcParser.forceCall_events, List.mem_singleton] at hmem
  obtain ⟨-, -, -, rfl⟩ := IrcParser.Event.call.inj hmem
  exact oneLine_slice h _ _

theorem appendedTurn_clean (h : CleanRaw q) (a : UInt8) :
    CleanRaw (IrcParser.appendedTurn q a).parser ∧ CleanCalls (IrcParser.appendedTurn q a).events := by
  have hcases := IrcParser.appendedTurn_cases q a
  generalize IrcParser.appendedTurn q a = t at hcases ⊢
  cases hcases with
  | called s hs hnext => exact ⟨h, cleanCalls_forceCall h _⟩
  | started | unread | trailed | quiet | failed => exact ⟨h, cleanCalls_nil⟩

theorem turn_clean (h : CleanRaw p) (a : UInt8) :
    CleanRaw (turn p a).parser ∧ CleanCalls (turn p a).events := by
  by_cases hcr : a = cr
  · subst hcr
    exact ⟨h, cleanCalls_nil⟩
  by_cases hlf : a = lf
  · subst hlf
    by_cases hend : p.state = .end_
    · rw [IrcParser.turn_lf p hend]
      have hgrown : CleanRaw { p with len := p.len + 1 } := h
      refine ⟨fun j => ?_, (cleanCalls_forceCall hgrown _).append (cleanCalls_forceCall hgrown _)⟩
      dsimp only [IrcParser.ircParserReset]
      split
      · decide
      · exact h j
    · rw [IrcParser.turn_lf_early p hend]
      exact ⟨h, cleanCalls_nil⟩
  · -- only here a byte is stored, and it is no line end
    have hstored : CleanRaw (IrcParser.ircParserAppendRaw p a).1 := by
      intro j
      have hraw : (IrcParser.ircParserAppendRaw p a).1.raw = Function.update p.raw p.len a := by
        unfold IrcParser.ircParserAppendRaw
        dsimp only
        split <;> rfl
      rw [hraw]
      by_cases hj : j = p.len
      · subst hj
        rw [Function.update_self]
        exact ⟨hcr, hlf⟩
      · rw [Function.update_of_ne hj]
        exact h j
    obtain ⟨hparser, hevents⟩ := appendedTurn_clean hstored a
    rw [IrcParser.turn_other p a hcr hlf]
    refine ⟨hparser, fun cb i n text hmem => ?_⟩
    rcases List.mem_cons.mp hmem with hwrite | hmem
    · cases hwrite
    · exact hevents cb i n text hmem

theorem readByte_clean (h : CleanRaw p) (a : UInt8) :
    CleanRaw (readByte p a).parser ∧ CleanCalls (readByte p a).events := by
  obtain ⟨hfirst, hcalls⟩ := turn_clean h a
  unfold readByte
  dsimp only
  split
  · obtain ⟨hsecond, hcalls'⟩ := turn_clean hfirst a
    exact ⟨hsecond, hcalls.append hcalls'⟩
  · exact ⟨hfirst, hcalls⟩

theorem executeFrom_clean (h : CleanRaw p) (total i : ℕ) (data : Bytes) :
    CleanRaw (executeFrom total p i data).parser ∧ CleanCalls (executeFrom total p i data).events := by
  induction data generalizing p i with
  | nil => exact ⟨h, cleanCalls_nil⟩
  | cons a rest ih =>
    obtain ⟨hparser, hcalls⟩ := readByte_clean h a
    have hnext := ih hparser (i + 1)
    rw [executeFrom]
    dsimp only
    generalize readByte p a = t at hparser hcalls hnext ⊢
    cases t.flow with
    | returnMinusOne => exact ⟨hparser, hcalls⟩
    | returnIndex => exact ⟨hparser, hcalls.append (by simp [CleanCalls])⟩
    | next => exact ⟨hnext.1, hcalls.append hnext.2⟩
    | again => exact ⟨hnext.1, hcalls.append hnext.2⟩

theorem oneLine_of_mem_callbacks {events : List IrcParser.Event} (h : CleanCalls events)
    {call : LineWords.Call} (hmem : call ∈ callbacks events) : OneLine call.2 := by
  obtain ⟨event, hevent, hcall⟩ := List.mem_filterMap.mp hmem
  cases event with
  | call cb i n text =>
    have htext : call.2 = text := by
      cases cb <;> first | cases hcall; rfl | cases hcall
    rw [htext]
    exact h cb i n text hevent
  | write index => cases hcall
  | callData offset len => cases hcall

end parser

theorem oneLine_ctcpBuf {text : Bytes} (h : OneLine text) (size : ℕ) : OneLine (ctcpBuf text size) := by
  have hterminated : OneLine (text ++ [nul]) := oneLine_append.mpr ⟨h, by decide⟩
  exact ((hterminated.drop 1).take _).cstr

structure CleanResult (r : ParserResult) : Prop where
  nick : ∀ str ∈ r.nick, OneLine str.text
  host : ∀ str ∈ r.host, OneLine str.text
  params : ∀ i, ∀ str ∈ r.params i, OneLine str.text

structure Clean (s : LineSession) : Prop where
  raw : CleanRaw s.parser
  result : CleanResult s.line.result
  nick : OneLine s.nick
  username : s.username = none
  realname : s.realname = none
  login : ∀ login ∈ s.loginCommand, OneLine login
  channels : ∀ channel ∈ s.channelsToJoin, OneLine channel
  bots : ∀ r ∈ requests s.client.cfg, OneLine r.1 ∧ OneLine r.2

section results
variable {st : LineState}

theorem cleanResult_fresh : CleanResult createLineParser.result where
  nick := by simp [createLineParser]
  host := by simp [createLineParser]
  params := by simp [createLineParser]

theorem cleanResult_freed (h : CleanResult st.result) : CleanResult (freeParserResult st).result where
  nick := by simp [freeParserResult]
  host := by simp [freeParserResult]
  params := by
    intro i str hstr
    dsimp only [freeParserResult] at hstr
    split at hstr
    · cases hstr
    · exact h.params i str hstr

theorem cleanResult_update {r : ParserResult} (h : CleanResult r) {p : Option Str}
    (hp : ∀ str ∈ p, OneLine str.text) (i n : ℕ) :
    CleanResult { r with params := Function.update r.params i p, numParams := n } where
  nick := h.nick
  host := h.host
  params := by
    intro j str hstr
    dsimp only at hstr
    by_cases hj : j = i
    · subst hj
      rw [Function.update_self] at hstr
      exact hp str hstr
    · rw [Function.update_of_ne hj] at hstr
      exact h.params j str hstr

theorem cleanResult_replaced (h : CleanResult st.result) {text : Bytes} (htext : OneLine text)
    (i n : ℕ) : CleanResult (replaceParam i text n st).result := by
  refine cleanResult_update h (fun str hstr => ?_) i n
  rw [← Option.some.inj hstr]
  exact htext.cstr

theorem cleanResult_moved (h : CleanResult st.result) : CleanResult (moveMode st).result :=
  cleanResult_update h (h.params 1) 0 1

theorem cleanResult_replied (h : CleanResult st.result) {text : Bytes} (htext : OneLine text) :
    CleanResult (replyToNotice text st).result := by
  have hbuf : OneLine (ctcpBuf text Commands.pointerSize) := oneLine_ctcpBuf htext _
  refine cleanResult_replaced ?_ hbuf 0 1
  refine ⟨h.nick, h.host, fun i str hstr => ?_⟩
  dsimp only [Commands.freeParams] at hstr
  split at hstr
  · cases hstr
  · exact h.params i str hstr

theorem cleanResult_onCall (h : CleanResult st.result) {call : LineWords.Call}
    (hcall : OneLine call.2) : CleanResult (onCall st call).result := by
  obtain ⟨cb, text⟩ := call
  have hnew : ∀ str ∈ some (callocAndCopyString st text).1, OneLine str.text := by
    intro str hstr
    rw [← Option.some.inj hstr]
    exact OneLine.cstr hcall
  cases cb with
  | onNick => exact ⟨hnew, h.host, h.params⟩
  | onHost => exact ⟨h.nick, hnew, h.params⟩
  | onParam =>
    simp only [onCall, onParam]
    split
    · exact cleanResult_update h hnew _ _
    · exact h
  | onName | onCommand | onEnd | onError => exact ⟨h.nick, h.host, h.params⟩

end results

def Replies (s t : LineSession) : Prop := Clean s → Clean t ∧ Queues s.client t.client

theorem replies_frame : Frame Replies where
  refl _ h := ⟨h, queues_frame.refl _⟩
  trans s t u h h' hs := by
    obtain ⟨ht, hqueues⟩ := h hs
    obtain ⟨hu, hqueues'⟩ := h' ht
    exact ⟨hu, queues_frame.trans _ _ _ hqueues hqueues'⟩

section session

theorem replies_get_bind {α : Type} {f : LineSession → HandlerM α}
    (h : ∀ s, Clean s → Moves Replies (f s)) : Moves Replies (get >>= f) :=
  fun s hs => h s hs s hs

theorem Clean.client {s : LineSession} {c : Client} (h : Clean s)
    (hbots : requests c.cfg = requests s.client.cfg) : Clean { s with client := c } where
  raw := h.raw
  result := h.result
  nick := h.nick
  username := h.username
  realname := h.realname
  login := h.login
  channels := h.channels
  bots := by
    rw [hbots]
    exact h.bots

theorem replies_onClient_send {text : Bytes} (h : OneLine text) :
    Moves Replies (Commands.onClient (ircSendRaw text)) := by
  intro s hs
  have hqueues := queues_ircSendRaw h s.client
  rw [endState_of_ok (ircSendRaw_eq text s.client)] at hqueues
  rw [endState_of_ok (onClient_send_run text s)]
  exact ⟨hs.client rfl, hqueues⟩

theorem replies_send {text : Bytes} (h : OneLine text) : Moves Replies (send text) :=
  moves_discard (replies_onClient_send h)

theorem replies_setLine {f : LineState → LineState}
    (h : ∀ st : LineState, CleanResult st.result → CleanResult (f st).result) :
    Moves Replies (setLine f) := fun s hs =>
  ⟨{ hs with result := h s.line hs.result }, queues_frame.refl _⟩

theorem oneLine_privmsg {nch text : Bytes} (hnch : OneLine nch) (htext : OneLine text) :
    OneLine (privmsg nch text) := by
  unfold privmsg
  simp only [oneLine_append]
  exact ⟨⟨⟨by decide, hnch.cstr⟩, by decide⟩, htext⟩

theorem replies_joinChannels : Moves Replies Commands.joinChannels :=
  replies_get_bind fun s hs => replies_frame.forM_of_mem fun channel hchannel =>
    replies_send (oneLine_append.mpr ⟨by decide, hs.channels channel hchannel⟩)

theorem oneLine_sdstrim {text : Bytes} (h : OneLine text) : OneLine (sdstrim blanks text) := by
  exact h.of_subset fun c hc => mem_of_mem_sdstrim hc

theorem replies_sendLoginCommand {login : Bytes} (h : OneLine login) :
    Moves Replies (Commands.sendLoginCommand login) := by
  have htrimmed := oneLine_sdstrim h
  have hset : Moves Replies (modify fun s : LineSession =>
      { s with loginCommand := some (sdstrim blanks login) } : HandlerM PUnit) := by
    intro s hs
    refine ⟨{ hs with login := fun text htext => ?_ }, queues_frame.refl _⟩
    rw [← Option.some.inj htext]
    exact htrimmed
  exact replies_frame.bind hset fun _ => moves_ite
    (replies_send (oneLine_privmsg (htrimmed.take 9) (htrimmed.drop 9))) (replies_frame.pure _)

theorem replies_onConnectEvent : Moves Replies Commands.onConnectEvent := by
  have hdone : Moves Replies (modify fun s : LineSession => { s with onConnectEventDone := true } :
      HandlerM PUnit) := fun s hs => ⟨{ hs with }, queues_frame.refl _⟩
  refine replies_get_bind fun s hs => moves_ite (replies_frame.pure _) ?_
  cases hlogin : s.loginCommand with
  | some login =>
    exact replies_frame.bind (replies_sendLoginCommand (hs.login login hlogin)) fun _ => hdone
  | none => exact replies_frame.bind replies_joinChannels fun _ => hdone

end session

def Answering (s t : Loop) : Prop :=
  Clean s.session →
    Clean t.session ∧ Queues s.session.client t.session.client ∧ t.written = s.written

theorem answering_frame : Frame Answering where
  refl _ h := ⟨h, queues_frame.refl _, rfl⟩
  trans s t u h h' hs := by
    obtain ⟨ht, hqueues, hwritten⟩ := h hs
    obtain ⟨hu, hqueues', hwritten'⟩ := h' ht
    exact ⟨hu, queues_frame.trans _ _ _ hqueues hqueues', hwritten'.trans hwritten⟩

section loops

theorem answering_get_bind {α : Type} {f : Loop → LoopM α}
    (h : ∀ s, Clean s.session → Moves Answering (f s)) : Moves Answering (get >>= f) :=
  fun s hs => h s hs s hs

theorem answering_onSession {α : Type} {x : HandlerM α} (h : Moves Replies x) :
    Moves Answering (onSession x) := by
  intro s hs
  have hend : endState (onSession x) s = { s with session := endState x s.session } :=
    endState_zoom _ _ _ x s
  obtain ⟨hclean, hqueues⟩ := h s.session hs
  rw [hend]
  exact ⟨hclean, hqueues, rfl⟩

theorem answering_send {text : Bytes} (h : OneLine text) : Moves Answering (onSession (send text)) :=
  answering_onSession (replies_send h)

theorem answering_setLine {f : LineState → LineState}
    (h : ∀ st : LineState, CleanResult st.result → CleanResult (f st).result) :
    Moves Answering (onSession (setLine f)) := answering_onSession (replies_setLine h)

theorem answering_deref_bind {α : Type} {p : Option Str} {f : Bytes → LoopM α}
    (hp : ∀ str ∈ p, OneLine str.text) (h : ∀ text, OneLine text → Moves Answering (f text)) :
    Moves Answering (deref p >>= f) := by
  intro s
  cases htext : textAt s.session.line p with
  | none =>
    obtain ⟨fault, hrun⟩ := deref_run_of_none htext
    rw [endState_bind_of_error hrun]
    exact answering_frame.refl s
  | some text =>
    rw [endState_bind_of_ok (deref_run_of_some htext)]
    refine h text ?_ s
    cases p with
    | none => cases htext
    | some str =>
      rw [textAt] at htext
      split at htext
      · cases htext
      · rw [← Option.some.inj htext]
        exact hp str rfl

theorem answering_param_bind {α : Type} {i : ℕ} {f : Bytes → LoopM α}
    (h : ∀ text, OneLine text → Moves Answering (f text)) : Moves Answering (param i >>= f) := by
  have hassoc : param i >>= f = get >>= fun s => deref (s.session.line.result.params i) >>= f := rfl
  rw [hassoc]
  exact answering_get_bind fun s hs => answering_deref_bind (hs.result.params i) h

theorem answering_param (i : ℕ) : Moves Answering (param i) := by
  refine (still_param i).mono fun s t h => ?_
  rw [h]
  exact answering_frame.refl s

theorem answering_dumpEvent : Moves Answering dumpEvent :=
  answering_frame.get_bind fun _ =>
    answering_frame.forM (fun cnt => moves_discard (answering_param cnt)) _

theorem answering_onEvent {e : DccEvents.Event} (h : CleanEvent e) : Moves Answering (onEvent e) := by
  intro s hs
  rw [endState_onEvent]
  exact ⟨hs.client (by rw [TableChanges.cfg_step]), queues_step h s.session.client, rfl⟩

theorem answering_askBot {d : DccDownload} (hnick : OneLine d.botNick) (hcmd : OneLine d.xdccCmd) :
    Moves Answering (askBot d) :=
  answering_frame.bind (answering_onSession (replies_onClient_send (oneLine_privmsg hnick hcmd)))
    fun _ => moves_modify fun _ hs => ⟨hs, queues_frame.refl _, rfl⟩

theorem answering_sendXdccRequests : Moves Answering sendXdccRequests := by
  have hset : Moves Answering (onSession (modify fun t : LineSession => { t with sended := true })) :=
    answering_onSession fun _ hs => ⟨{ hs with }, queues_frame.refl _⟩
  refine answering_get_bind fun s hs => moves_ite ?_ (answering_frame.pure _)
  refine answering_frame.bind (answering_frame.forM_of_mem fun d hd => ?_) fun _ => hset
  obtain ⟨hnick, hcmd⟩ := hs.bots (d.botNick, d.xdccCmd) (List.mem_map.mpr ⟨d, hd, rfl⟩)
  exact answering_askBot hnick hcmd

theorem answering_eventConnect : Moves Answering eventConnect :=
  answering_frame.bind answering_dumpEvent fun _ => answering_onSession replies_onConnectEvent

theorem answering_eventNumeric (code : ℕ) : Moves Answering (eventNumeric code) :=
  answering_frame.get_bind fun _ => moves_ite
    (answering_frame.bind answering_dumpEvent fun _ => moves_discard (answering_param 1))
    (answering_frame.pure _)

theorem answering_eventJoin : Moves Answering eventJoin := by
  refine answering_get_bind fun s hs => ?_
  have hline : OneLine (userModeLine s.session.nick) := by
    unfold userModeLine
    simp only [oneLine_append]
    exact ⟨⟨by decide, hs.nick⟩, by decide⟩
  exact answering_frame.bind (answering_send hline) fun _ =>
    moves_ite answering_sendXdccRequests (answering_frame.pure _)

theorem answering_eventMode : Moves Answering eventMode :=
  answering_frame.get_bind fun _ => moves_ite
    (answering_frame.bind (answering_param 1) fun _ =>
      moves_ite answering_sendXdccRequests (answering_frame.pure _))
    (answering_frame.pure _)

theorem answering_eventUmode : Moves Answering eventUmode :=
  answering_frame.get_bind fun _ => moves_ite
    (answering_frame.bind (answering_param 0) fun _ =>
      moves_ite (answering_onSession replies_joinChannels) (answering_frame.pure _))
    (answering_frame.pure _)

theorem queuedTexts_checksum (md5 : Bytes) (path : Option Bytes) :
    queuedTexts [.startChecksum md5 path] = [] := rfl

theorem answering_useMD5 (md5 : Bytes) : Moves Answering (useMD5 md5) := by
  have hkeep : Moves Replies (Commands.onClient (modify fun c : Client =>
      { c with cfg := keepMD5 md5 c.cfg })) := by
    intro s hs
    refine ⟨hs.client (requests_keepMD5 md5 s.client.cfg), rfl, [], ?_, ?_, by simp [queuedTexts]⟩
    · exact (List.append_nil _).symm
    · exact (List.append_nil _).symm
  have hcheck (path : Option Bytes) :
      Moves Replies (Commands.onClient (record (.startChecksum md5 path))) := by
    intro s hs
    refine ⟨hs.client rfl, rfl, [.startChecksum md5 path], rfl, ?_, by simp [queuedTexts_checksum]⟩
    exact (List.append_nil _).symm
  refine answering_frame.get_bind fun s => ?_
  dsimp only
  cases s.session.client.lastDownload with
  | none => exact moves_ite (answering_onSession hkeep) (answering_frame.pure _)
  | some context => exact answering_onSession (hcheck _)

theorem answering_checkMD5ChecksumNotice (event : Bytes) :
    Moves Answering (checkMD5ChecksumNotice event) := by
  refine answering_frame.get_bind fun _ => moves_ite (answering_frame.pure _)
    (answering_frame.bind (answering_param 1) fun text => ?_)
  cases Commands.extractMD5 text with
  | none => exact answering_frame.pure _
  | some md5 => exact answering_useMD5 md5

theorem answering_checkConnectedEvent (event : Bytes) :
    Moves Answering (checkConnectedEvent event) :=
  answering_frame.get_bind fun _ => moves_ite (answering_frame.pure _)
    (answering_frame.bind (answering_param 1) fun _ =>
      moves_ite (answering_onSession replies_onConnectEvent) (answering_frame.pure _))

theorem answering_eventNotice (event : Bytes) : Moves Answering (eventNotice event) :=
  answering_frame.bind answering_dumpEvent fun _ =>
    answering_frame.bind (answering_checkMD5ChecksumNotice event) fun _ =>
      answering_checkConnectedEvent event

end loops

section handlers
variable {env : LineEnv}

theorem oneLine_ctcpReply {s : LineSession} (hs : Clean s) (henv : OneLine env.time)
    {request reply : Bytes} (h : OneLine request) (hreply : ctcpReply env s request = some reply) :
    OneLine reply := by
  unfold ctcpReply at hreply
  split_ifs at hreply
  · rw [← Option.some.inj hreply]
    exact h
  · rw [← Option.some.inj hreply]
    decide
  · rw [← Option.some.inj hreply, hs.username, hs.realname]
    decide
  · rw [← Option.some.inj hreply]
    exact henv

theorem oneLine_targetNick {target : Bytes} (h : OneLine target) (size : ℕ) :
    OneLine (Commands.ircTargetGetNick target size) := (h.takeWhile _).take _

theorem answering_libircEventCtcpInternal (henv : OneLine env.time) :
    Moves Answering (libircEventCtcpInternal env) := by
  refine answering_get_bind fun s hs => ?_
  dsimp only [handling_deref]
  cases hhost : s.session.line.result.host with
  | none => exact answering_frame.pure _
  | some origin =>
    have horigin : ∀ str ∈ some origin, OneLine str.text := hhost ▸ hs.result.host
    refine answering_deref_bind horigin fun target htarget => ?_
    refine answering_param_bind fun request hrequest => ?_
    cases hreply : ctcpReply env s.session request with
    | none => exact answering_frame.pure _
    | some reply =>
      have hnick := oneLine_targetNick htarget 128
      have htext := oneLine_ctcpReply hs henv hrequest hreply
      refine answering_send ?_
      simp only [oneLine_append]
      exact ⟨⟨⟨⟨⟨by decide, hnick⟩, by decide⟩, by decide⟩, htext⟩, by decide⟩

theorem answering_handleCtcpRequest (henv : OneLine env.time) :
    Moves Answering (handleCtcpRequest env) := by
  refine answering_param_bind fun text htext => ?_
  have hbuf := oneLine_ctcpBuf htext libircBufferSize
  refine moves_ite ?_ (moves_ite ?_ ?_)
  · refine answering_get_bind fun s hs => answering_onEvent ⟨fun n hn => ?_, hbuf⟩
    obtain ⟨str, hstr, rfl⟩ := Option.map_eq_some_iff.mp hn
    exact hs.result.nick str hstr
  · exact answering_frame.bind
      (answering_setLine fun _ h => cleanResult_replaced h (hbuf.drop 7) 1 2) fun _ =>
        answering_dumpEvent
  · exact answering_frame.bind (answering_setLine fun _ h => cleanResult_replaced h hbuf 0 1) fun _ =>
      answering_libircEventCtcpInternal henv

theorem answering_ircPingCommand : Moves Answering ircPingCommand :=
  answering_frame.get_bind fun _ => moves_ite (answering_frame.pure _)
    (answering_param_bind fun _ htext => answering_send (oneLine_append.mpr ⟨by decide, htext⟩))

theorem answering_take (a : Taken) : Moves Answering (take a) :=
  moves_modify fun _ hs => ⟨hs, queues_frame.refl _, rfl⟩

theorem answering_ircNickCommand : Moves Answering ircNickCommand := by
  have hset {nick : Bytes} (h : OneLine nick) :
      Moves Answering (onSession (modify fun t : LineSession => { t with nick := nick })) :=
    answering_onSession fun s hs => ⟨{ hs with nick := h }, queues_frame.refl _⟩
  refine answering_get_bind fun s hs => ?_
  refine answering_deref_bind hs.result.nick fun _ _ => moves_ite ?_ (answering_frame.pure _)
  exact answering_param_bind fun _ htext => hset htext

theorem answering_ircModeCommand : Moves Answering ircModeCommand :=
  answering_frame.get_bind fun _ => moves_ite
    (answering_frame.bind (answering_param 0) fun _ => moves_ite
      (answering_frame.bind (answering_take _) fun _ =>
        answering_frame.bind (answering_setLine fun _ => cleanResult_moved) fun _ =>
          answering_eventUmode)
      answering_eventMode)
    answering_eventMode

theorem answering_ircPrivmsgCommand (henv : OneLine env.time) :
    Moves Answering (ircPrivmsgCommand env) :=
  answering_frame.get_bind fun _ => moves_ite (answering_frame.pure _)
    (answering_frame.bind (answering_param 1) fun _ =>
      moves_ite (answering_handleCtcpRequest henv)
        (answering_frame.bind (answering_param 0) fun _ =>
          moves_ite (answering_frame.bind (answering_take _) fun _ => answering_dumpEvent)
            (answering_frame.pure _)))

theorem answering_ircNoticeCommand (event : Bytes) : Moves Answering (ircNoticeCommand event) :=
  answering_param_bind fun _ htext => answering_frame.get_bind fun _ =>
    moves_ite
      (answering_frame.bind (answering_setLine fun _ h => cleanResult_replied h htext) fun _ =>
        answering_dumpEvent)
      (answering_frame.bind (answering_param 0) fun _ =>
        moves_ite (answering_frame.bind (answering_take _) fun _ => answering_eventNotice event)
          (answering_frame.pure _))

theorem answering_execute (henv : OneLine env.time) (command : Bytes) (handler : IrcCommand) :
    Moves Answering (execute env command handler) := by
  cases handler with
  | ping => exact answering_ircPingCommand
  | nick => exact answering_ircNickCommand
  | join => exact answering_eventJoin
  | mode => exact answering_ircModeCommand
  | privmsg => exact answering_ircPrivmsgCommand henv
  | notice => exact answering_ircNoticeCommand command
  | unknown => exact answering_dumpEvent
  | quit | part | topic | kick | invite | kill => exact answering_frame.pure _

theorem answering_dispatch (d : Commands.Dispatch) :
    Moves Answering (onSession (Commands.dispatch d)) :=
  answering_onSession fun _ hs => ⟨{ hs with }, queues_frame.refl _⟩

theorem answering_handleNumeric (command : Bytes) : Moves Answering (handleNumeric command) := by
  have hset : Moves Answering (onSession (modify fun t : LineSession => { t with motdReceived := true })) :=
    answering_onSession fun _ hs => ⟨{ hs with }, queues_frame.refl _⟩
  have hconnect : Moves Answering (connectOnMotd (digitsValue command)) :=
    answering_frame.get_bind fun _ =>
      moves_ite (answering_frame.bind hset fun _ => answering_eventConnect) (answering_frame.pure _)
  exact answering_frame.bind hconnect fun _ =>
    answering_frame.bind (answering_dispatch _) fun _ => answering_eventNumeric _

theorem answering_handleParserResult (henv : OneLine env.time) :
    Moves Answering (handleParserResult env) := by
  refine answering_frame.get_bind fun s => ?_
  dsimp only
  cases s.session.line.result.command with
  | none => exact answering_frame.pure _
  | some command =>
    exact moves_ite (answering_handleNumeric command.text)
      (answering_frame.bind (answering_dispatch _) fun _ => answering_execute henv _ _)

theorem answering_runCalls (henv : OneLine env.time) {calls : List LineWords.Call}
    (h : ∀ call ∈ calls, OneLine call.2) : Moves Answering (runCalls env calls) := by
  induction calls with
  | nil => exact answering_frame.pure _
  | cons call calls ih =>
    have hrest := ih fun other hother => h other (List.mem_cons_of_mem call hother)
    have hcall := h call List.mem_cons_self
    obtain ⟨cb, text⟩ := call
    cases cb with
    | onEnd => exact answering_frame.bind (answering_handleParserResult henv) fun _ => hrest
    | _ =>
      exact answering_frame.bind (answering_setLine fun _ hresult => cleanResult_onCall hresult hcall)
        fun _ => hrest

theorem answering_process (henv : OneLine env.time) (line : Bytes) :
    Moves Answering (libircProcessIncomingData env line) := by
  refine answering_get_bind fun s hs => ?_
  obtain ⟨hraw, hcalls⟩ := executeFrom_clean hs.raw line.length 0 line
  have hset : Moves Answering (onSession (modify fun t : LineSession =>
      { t with
        parser := (ircParserExecute s.session.parser line).parser
        lineStart := t.line.allocated })) :=
    answering_onSession fun t ht => ⟨{ ht with raw := hraw }, queues_frame.refl _⟩
  have htexts : ∀ call ∈ callbacks (ircParserExecute s.session.parser line).events, OneLine call.2 :=
    fun call hcall => oneLine_of_mem_callbacks hcalls hcall
  refine answering_frame.bind hset fun _ => ?_
  refine answering_frame.bind (answering_runCalls henv htexts) fun _ => ?_
  exact answering_setLine fun _ => cleanResult_freed

end handlers

/-- What has been written and what waits is what was queued, each text with its CRLF. Until the
    connection stands the nick is the configured one. -/
structure Tidy (s : Loop) : Prop where
  clean : Clean s.session
  wire : s.written ++ s.session.client.net.outgoing = onWire (queuedTexts s.session.client.trace)
  texts : ∀ text ∈ queuedTexts s.session.client.trace, OneLine text
  unregistered : s.session.client.net.state = .connecting → percent ∉ s.session.nick

section runs
variable {s t : Loop} {e : LoopEvent}

theorem Tidy.answer (h : Tidy s) (hanswering : Answering s t)
    (hnick : t.session.client.net.state = .connecting → percent ∉ t.session.nick) : Tidy t := by
  obtain ⟨hclean, hqueues, hwritten⟩ := hanswering h.clean
  obtain ⟨l, htrace, hout, hl⟩ := hqueues.texts
  have hqueued : queuedTexts t.session.client.trace =
      queuedTexts s.session.client.trace ++ queuedTexts l := by
    rw [htrace]
    exact List.filterMap_append
  refine ⟨hclean, ?_, ?_, hnick⟩
  · rw [hwritten, hout, hqueued, ← List.append_assoc, h.wire]
    exact List.flatMap_append.symm
  · intro text htext
    rw [hqueued] at htext
    rcases List.mem_append.mp htext with htext | htext
    · exact h.texts text htext
    · exact hl text htext

theorem Tidy.setState (h : Tidy s) {state : LibircState} (hstate : state ≠ .connecting) (err : ℕ) :
    Tidy (endState (onSession (setState state err)) s) where
  clean := h.clean.client rfl
  wire := h.wire
  texts := h.texts
  unregistered := fun hconnecting => absurd hconnecting hstate

theorem registration_texts (h : Tidy s) (hstate : s.session.client.net.state = .connecting)
    (format : Format) : ∀ buf ∈ registration s.session, OneLine (format.render buf) := by
  have hpercent : percent ∉ s.session.nick := h.unregistered hstate
  have hplain {buf : Bytes} (hbuf : OneLine buf) (hnone : percent ∉ buf) :
      OneLine (format.render (snprintf 256 buf)) := by
    rw [format.plain]
    · exact hbuf.snprintf 256
    · intro hmem
      exact hnone ((List.takeWhile_sublist _).mem (List.mem_of_mem_take hmem))
  have hreal : s.session.realname.getD (bytes "realname") = bytes "realname" := by
    rw [h.clean.realname]
    rfl
  intro buf hbuf
  rw [registration, registrationTexts, Option.map_none, Option.toList_none, List.nil_append, hreal,
    List.mem_cons, List.mem_singleton] at hbuf
  have hnick := h.clean.nick
  rcases hbuf with rfl | rfl
  · refine hplain (oneLine_append.mpr ⟨by decide, hnick⟩) ?_
    rw [List.mem_append, not_or]
    exact ⟨by decide, hpercent⟩
  · refine hplain ?_ ?_
    · simp only [oneLine_append]
      exact ⟨⟨⟨⟨⟨by decide, hnick⟩, by decide⟩, hnick⟩, by decide⟩, by decide⟩
    · simp only [List.mem_append, not_or]
      exact ⟨⟨⟨⟨⟨by decide, hpercent⟩, by decide⟩, hpercent⟩, by decide⟩, by decide⟩

theorem tidy_connecting (h : Tidy s) (hstate : s.session.client.net.state = .connecting)
    (peer : Bool) (format : Format) : Tidy (endState (handleConnectingState peer format) s) := by
  have hget : (get : LoopM Loop).run s = .ok s s := rfl
  unfold handleConnectingState
  rw [endState_bind_of_ok hget]
  cases peer with
  | false => exact h.setState (by decide) libircErrConnect
  | true =>
    let t := endState (onSession (setState .connected s.session.client.net.lasterror)) s
    have ht : Tidy t := h.setState (by decide) _
    have hrun : (onSession (setState .connected s.session.client.net.lasterror)).run s =
        .ok ⟨⟩ t := rfl
    have hsends : Moves Answering
        ((registration s.session).forM fun buf => onSession (send (format.render buf))) :=
      answering_frame.forM_of_mem fun buf hbuf =>
        answering_send (registration_texts h hstate format buf hbuf)
    rw [if_pos rfl, endState_bind_of_ok hrun]
    refine ht.answer (hsends t) fun hconnecting => ?_
    have hsame : (endState ((registration s.session).forM fun buf =>
        onSession (send (format.render buf))) t).session.client.net.state = .connected :=
      (hsends t ht.clean).2.1.state
    rw [hsame] at hconnecting
    cases hconnecting

theorem answering_printOutputCallback (flag : Bool) : Moves Answering (printOutputCallback flag) := by
  have hevent : Moves Answering (if flag then onEvent .outputTimer else pure ⟨⟩ : LoopM Unit) :=
    moves_ite (answering_onEvent trivial) (answering_frame.pure _)
  exact answering_frame.get_bind fun _ =>
    moves_ite (answering_frame.bind answering_sendXdccRequests fun _ => hevent) hevent

theorem tidy_of_answering (h : Tidy s) (hidle : idle s e = false)
    (hline : ∀ answers block, e ≠ .line answers block) (hanswering : Moves Answering (handle e)) :
    Tidy (endState (handle e) s) := by
  refine h.answer (hanswering s) fun hconnecting => ?_
  have hstate := (hanswering s h.clean).2.1.state
  have hnick : (endState (handle e) s).session.nick = s.session.nick := by
    have hstep := step_endState hidle
    have houter := (step_outer hline s).untaken.nick
    generalize step s e = u at hstep houter
    cases hstep with
    | same => exact houter
    | halted fault => exact houter
  rw [hnick]
  exact h.unregistered (hstate.symm.trans hconnecting)

theorem tidy_handle (h : Tidy s) (hidle : idle s e = false) : Tidy (endState (handle e) s) := by
  have hreaches : reaches s.session.client.net.state e = true := by
    unfold idle at hidle
    simp only [Bool.or_eq_false_iff, Bool.not_eq_false'] at hidle
    exact hidle.2
  cases e with
  | clock now =>
    exact tidy_of_answering h hidle (by simp) (moves_modify fun _ hs => ⟨hs, queues_frame.refl _, rfl⟩)
  | keepAlive flag => exact tidy_of_answering h hidle (by simp) (answering_printOutputCallback flag)
  | connecting peer format =>
    have hstate : s.session.client.net.state = .connecting := by simpa [reaches] using hreaches
    exact tidy_connecting h hstate peer format
  | line answers block =>
    have hstate : s.session.client.net.state = .connected := by simpa [reaches] using hreaches
    have htime : OneLine answers.env.time := answers.oneLine
    have hanswering : Moves Answering (handle (.line answers block)) :=
      answering_process htime block.line
    refine h.answer (hanswering s) fun hconnecting => ?_
    rw [(hanswering s h.clean).2.1.state, hstate] at hconnecting
    cases hconnecting
  | writable length =>
    refine ⟨h.clean.client rfl, ?_, h.texts, h.unregistered⟩
    have hsplit : (s.written ++ s.session.client.net.outgoing.take length) ++
        s.session.client.net.outgoing.drop length = s.written ++ s.session.client.net.outgoing := by
      rw [List.append_assoc, List.take_append_drop]
    exact hsplit.trans h.wire
  | socket dccid ready =>
    exact tidy_of_answering h hidle (by simp) (answering_onEvent trivial)
  | addDescriptors => exact tidy_of_answering h hidle (by simp) (answering_onEvent trivial)
  | closed => exact h.setState (by decide) _
  | interrupt => exact tidy_of_answering h hidle (by simp) (answering_send (by decide))

theorem tidy_step (h : Tidy s) (e : LoopEvent) : Tidy (step s e) := by
  cases hidle : idle s e with
  | true =>
    rw [step_of_idle hidle]
    exact h
  | false =>
    have hend := tidy_handle h hidle
    have hstep := step_endState hidle
    generalize step s e = u at hstep ⊢
    cases hstep with
    | same => exact hend
    | halted fault => exact ⟨{ hend.clean with }, hend.wire, hend.texts, hend.unregistered⟩

end runs

def Harmless (text : Bytes) : Prop := OneLine text ∧ percent ∉ text

instance : DecidablePred Harmless := fun text => by unfold Harmless; infer_instance

structure HarmlessSetup (c : Setup) : Prop where
  nick : Harmless c.nick
  login : ∀ login ∈ c.loginCommand, Harmless login
  channels : ∀ channel ∈ c.channelsToJoin, Harmless channel
  bots : ∀ r ∈ requests c.cfg, Harmless r.1 ∧ Harmless r.2

theorem tidy_start {c : Setup} (h : HarmlessSetup c) : Tidy c.start where
  clean :=
    { raw := cleanRaw_init
      result := cleanResult_fresh
      nick := h.nick.1.cstr
      username := rfl
      realname := rfl
      login := fun login hlogin => (h.login login hlogin).1
      channels := fun channel hchannel => (h.channels channel hchannel).1
      bots := fun r hr => ⟨(h.bots r hr).1.1, (h.bots r hr).2.1⟩ }
  wire := rfl
  texts := by simp [Setup.start, DccEvents.initial, queuedTexts]
  unregistered := fun _ hmem => h.nick.2 ((List.takeWhile_sublist _).mem hmem)

/-- In every run what the client has written, and what waits, is the texts of the calls of
    `irc_send_raw` that returned 0, with a CRLF behind each and no line end in any of them. -/
theorem one_line_end_per_text (c : Setup) (h : HarmlessSetup c) (events : List LoopEvent) :
    let s := run step c.start events
    s.written ++ s.session.client.net.outgoing = onWire (queuedTexts s.session.client.trace) ∧
      ∀ text ∈ queuedTexts s.session.client.trace, OneLine text := by
  have hstep : ∀ s e, Tidy s → Tidy (step s e) := fun _ e hs => tidy_step hs e
  have hrun := run_invariant hstep (tidy_start h) events
  exact ⟨hrun.wire, hrun.texts⟩

def strayBlock : Block := ⟨bytes ":x\x0ay!u@h PRIVMSG me\x0d :\x01VERSION\x01\x0d\x0a", by decide +kernel⟩

theorem one_line_end_per_text_stray :
    let s := run step botSetup.start [connects, .line readyAnswers strayBlock]
    s.written ++ s.session.client.net.outgoing = onWire (queuedTexts s.session.client.trace) ∧
      ∀ text ∈ queuedTexts s.session.client.trace, OneLine text := by
  refine one_line_end_per_text botSetup ⟨by decide, ?_, by decide, by decide⟩ _
  intro login hlogin
  cases hlogin

end Xdccget.ReplyLines
