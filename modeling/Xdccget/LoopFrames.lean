import Xdccget.ClientLoop
import Xdccget.HandlerOutcomes
import Xdccget.TableChanges

set_option autoImplicit false

/-!
# What the handlers of the loop leave alone

Each handler is followed through once. It changes the client by a few kinds of turns
only, and what it does not touch is listed: most handlers touch neither the requests
nor the nick.
-/
namespace Xdccget.LoopFrames
open CText LineParser DccMessages ClientState HaltingPrograms ProgramRelations ClientLoop
open Commands (Fault LineEnv LineSession IrcCommand HandlerM Handling setLine send extractMD5 moveMode
  isNumericCommand getCommand strlen)
open HandlerOutcomes (handlerOf)

/-- `irc_send_raw` takes the text. -/
def accepts (net : Net) (text : Bytes) : Bool :=
  net.state = .connected && net.outgoing.length + ((snprintf 1024 text).length + 2) < libircBufferSize

def afterSend (net : Net) (text : Bytes) : Net :=
  if accepts net text then { net with outgoing := net.outgoing ++ snprintf 1024 text ++ [cr, lf] }
  else { net with lasterror := if net.state = .connected then libircErrNomem else libircErrState }

@[simp] theorem afterSend_state (net : Net) (text : Bytes) : (afterSend net text).state = net.state := by
  unfold afterSend
  split <;> rfl

/-- The actions of `irc_send_raw`. -/
def sendActions (net : Net) (text : Bytes) : List Action :=
  if accepts net text then [.queued (snprintf 1024 text)] else []

def sentClient (s : Client) (text : Bytes) : Client :=
  { s with net := afterSend s.net text, trace := s.trace ++ sendActions s.net text }

theorem ircSendRaw_eq (text : Bytes) (s : Client) :
    (ircSendRaw text).run s = .ok (if accepts s.net text then 0 else 1) (sentClient s text) := by
  unfold ircSendRaw sentClient afterSend sendActions accepts
  simp only [EStateM.run_bind, EStateM.run_get]
  by_cases hstate : s.net.state = .connected
  · by_cases hfull : libircBufferSize - s.net.outgoing.length ≤ (snprintf 1024 text).length + 2
    · have hnot : ¬ s.net.outgoing.length + ((snprintf 1024 text).length + 2) < libircBufferSize := by
        omega
      simp [hstate, hfull, hnot, setLasterror]
    · have hroom : s.net.outgoing.length + ((snprintf 1024 text).length + 2) < libircBufferSize := by
        omega
      simp [hstate, hfull, hroom, record]
  · simp [hstate, setLasterror]

inductive ClientTurn : Client → Client → Prop
  | sent (s : Client) (text : Bytes) : ClientTurn s (sentClient s text)
  | keptSum (s : Client) (md5 : Bytes) : ClientTurn s { s with cfg := keepMD5 md5 s.cfg }
  | startedChecksum {s : Client} {context : ℕ} (h : s.lastDownload = some context) (md5 : Bytes) :
      ClientTurn s
        { s with trace := s.trace ++
            [.startChecksum md5 ((s.downloadContext[context]?).map (·.progress.completePath))] }
  | request (s : Client) (env : Env) (nick : Option Bytes) (req : Bytes) :
      ClientTurn s (DccEvents.step s (.request env nick req))

abbrev ClientTurns : Client → Client → Prop := Relation.ReflTransGen ClientTurn

/-- The pairs that `-p` names, in order. -/
def requests (cfg : XdccGetConfig) : List (Bytes × Bytes) :=
  (cfg.dccDownloadArray.getD []).map fun d => (d.botNick, d.xdccCmd)

theorem requests_keepMD5 (md5 : Bytes) (cfg : XdccGetConfig) :
    requests (keepMD5 md5 cfg) = requests cfg := by
  unfold requests keepMD5
  cases cfg.dccDownloadArray with
  | none => rfl
  | some ds => cases ds <;> rfl

theorem requests_of_turns {s t : Client} (h : ClientTurns s t) : requests t.cfg = requests s.cfg := by
  induction h with
  | refl => rfl
  | tail _ hturn ih =>
    refine Eq.trans ?_ ih
    cases hturn with
    | sent text => rfl
    | keptSum md5 => exact requests_keepMD5 md5 _
    | startedChecksum h md5 => rfl
    | request env nick req => rw [TableChanges.cfg_step]

structure Steady (s t : Loop) : Prop where
  parser : t.session.parser = s.session.parser
  sendDelay : t.session.sendDelay = s.session.sendDelay
  login : t.session.loginCommand.isSome = s.session.loginCommand.isSome
  timeToSendCommand : t.timeToSendCommand = s.timeToSendCommand
  now : t.now = s.now
  written : t.written = s.written
  halted : t.session.halted = s.session.halted
  client : ClientTurns s.session.client t.session.client

structure Unasked (s t : Loop) : Prop where
  sended : t.session.sended = s.session.sended
  asked : t.asked = s.asked

structure Untaken (s t : Loop) : Prop where
  nick : t.session.nick = s.session.nick
  taken : t.taken = s.taken

structure Asking (s t : Loop) : Prop where
  steady : Steady s t
  untaken : Untaken s t

/-- The turns of the programs that may take something for the nick. -/
structure Taking (s t : Loop) : Prop where
  steady : Steady s t
  unasked : Unasked s t

structure Aside (s t : Loop) : Prop extends Taking s t where
  untaken : Untaken s t

theorem steady_frame : Frame Steady where
  refl _ := ⟨rfl, rfl, rfl, rfl, rfl, rfl, rfl, .refl⟩
  trans _ _ _ h h' :=
    { parser := h'.parser.trans h.parser
      sendDelay := h'.sendDelay.trans h.sendDelay
      login := h'.login.trans h.login
      timeToSendCommand := h'.timeToSendCommand.trans h.timeToSendCommand
      now := h'.now.trans h.now
      written := h'.written.trans h.written
      halted := h'.halted.trans h.halted
      client := h.client.trans h'.client }

theorem unasked_frame : Frame Unasked where
  refl _ := ⟨rfl, rfl⟩
  trans _ _ _ h h' := ⟨h'.sended.trans h.sended, h'.asked.trans h.asked⟩

theorem untaken_frame : Frame Untaken where
  refl _ := ⟨rfl, rfl⟩
  trans _ _ _ h h' := ⟨h'.nick.trans h.nick, h'.taken.trans h.taken⟩

theorem asking_frame : Frame Asking where
  refl s := ⟨steady_frame.refl s, untaken_frame.refl s⟩
  trans s t u h h' :=
    ⟨steady_frame.trans s t u h.steady h'.steady, untaken_frame.trans s t u h.untaken h'.untaken⟩

theorem taking_frame : Frame Taking where
  refl s := ⟨steady_frame.refl s, unasked_frame.refl s⟩
  trans s t u h h' :=
    ⟨steady_frame.trans s t u h.steady h'.steady, unasked_frame.trans s t u h.unasked h'.unasked⟩

theorem aside_frame : Frame Aside where
  refl s := ⟨taking_frame.refl s, untaken_frame.refl s⟩
  trans s t u h h' := ⟨taking_frame.trans s t u h.toTaking h'.toTaking,
    untaken_frame.trans s t u h.untaken h'.untaken⟩

theorem Aside.asking {s t : Loop} (h : Aside s t) : Asking s t := ⟨h.steady, h.untaken⟩

/-- The part of `Aside` that a session shows. -/
structure Calm (s t : LineSession) : Prop where
  parser : t.parser = s.parser
  nick : t.nick = s.nick
  sended : t.sended = s.sended
  sendDelay : t.sendDelay = s.sendDelay
  login : t.loginCommand.isSome = s.loginCommand.isSome
  halted : t.halted = s.halted
  client : ClientTurns s.client t.client

theorem calm_frame : Frame Calm where
  refl _ := ⟨rfl, rfl, rfl, rfl, rfl, rfl, .refl⟩
  trans _ _ _ h h' :=
    { parser := h'.parser.trans h.parser
      nick := h'.nick.trans h.nick
      sended := h'.sended.trans h.sended
      sendDelay := h'.sendDelay.trans h.sendDelay
      login := h'.login.trans h.login
      halted := h'.halted.trans h.halted
      client := h.client.trans h'.client }

theorem calm_client {s : LineSession} {c : Client} (h : ClientTurn s.client c) :
    Calm s { s with client := c } := ⟨rfl, rfl, rfl, rfl, rfl, rfl, .single h⟩

theorem Calm.aside {s : Loop} {t : LineSession} (h : Calm s.session t) :
    Aside s { s with session := t } :=
  ⟨⟨⟨h.parser, h.sendDelay, h.login, rfl, rfl, rfl, h.halted, h.client⟩, ⟨h.sended, rfl⟩⟩,
    ⟨h.nick, rfl⟩⟩

section session

theorem calm_modify {f : LineSession → LineSession} (h : ∀ s, Calm s (f s)) :
    Moves Calm (modify f : HandlerM PUnit) := moves_modify h

theorem onClient_send_run (text : Bytes) (s : LineSession) :
    (Commands.onClient (ircSendRaw text)).run s =
      .ok (if accepts s.client.net text then 0 else 1)
        { s with client := sentClient s.client text } := by
  rw [HandlerOutcomes.onClient_run, ircSendRaw_eq]

theorem send_run (text : Bytes) (s : LineSession) :
    (send text).run s = .ok ⟨⟩ { s with client := sentClient s.client text } :=
  run_discard (onClient_send_run text s)

theorem calm_send (text : Bytes) : Moves Calm (send text) := by
  intro s
  rw [endState_of_ok (send_run text s)]
  exact calm_client (.sent s.client text)

theorem calm_setLine (f : LineState → LineState) : Moves Calm (setLine f) := fun _ =>
  ⟨rfl, rfl, rfl, rfl, rfl, rfl, .refl⟩

theorem calm_joinChannels : Moves Calm Commands.joinChannels :=
  calm_frame.get_bind fun s =>
    calm_frame.forM (fun channel => calm_send (bytes "JOIN " ++ channel)) s.channelsToJoin

theorem calm_sendLoginCommand (s : LineSession) {login : Bytes} (h : s.loginCommand = some login) :
    Calm s (endState (Commands.sendLoginCommand login) s) := by
  let t : LineSession := { s with loginCommand := some (sdstrim blanks login) }
  have hset : Calm s t := ⟨rfl, rfl, rfl, rfl, by rw [h]; rfl, rfl, .refl⟩
  have hrest : Moves Calm (if 9 ≤ (sdstrim blanks login).length then
      Commands.ircCmdMsg ((sdstrim blanks login).take 9) ((sdstrim blanks login).drop 9)
      else pure ⟨⟩ : HandlerM PUnit) := moves_ite (calm_send _) (calm_frame.pure _)
  exact calm_frame.trans s t _ hset (hrest t)

theorem calm_onConnectEvent : Moves Calm Commands.onConnectEvent := by
  have hdone : Moves Calm (modify fun s : LineSession => { s with onConnectEventDone := true }) :=
    calm_modify fun _ => ⟨rfl, rfl, rfl, rfl, rfl, rfl, .refl⟩
  intro s
  by_cases h : s.onConnectEventDone = true
  · have hrun : Commands.onConnectEvent.run s = .ok ⟨⟩ s := by
      unfold Commands.onConnectEvent
      simp [EStateM.run_bind, h]
    rw [endState_of_ok hrun]
    exact calm_frame.refl s
  · have hrun (x : HandlerM Unit) (hx : Calm s (endState x s)) :
        Calm s (endState (x >>= fun _ => modify fun s : LineSession =>
          { s with onConnectEventDone := true }) s) :=
      calm_frame.trans s _ _ hx (endState_bind_moves calm_frame.refl (fun _ => hdone) s)
    cases hlogin : s.loginCommand with
    | some login =>
      have hstep := hrun _ (calm_sendLoginCommand s hlogin)
      simpa [Commands.onConnectEvent, endState, EStateM.run_bind, h, hlogin] using hstep
    | none =>
      have hstep := hrun _ (calm_joinChannels s)
      simpa [Commands.onConnectEvent, endState, EStateM.run_bind, h, hlogin] using hstep

end session

section aside

theorem aside_onSession {α : Type} {x : HandlerM α} (h : Moves Calm x) : Moves Aside (onSession x) := by
  intro s
  have hend : endState (onSession x) s = { s with session := endState x s.session } :=
    endState_zoom _ _ _ x s
  rw [hend]
  exact (h s.session).aside

theorem aside_setLine (f : LineState → LineState) : Moves Aside (onSession (setLine f)) :=
  aside_onSession (calm_setLine f)

theorem aside_send (text : Bytes) : Moves Aside (onSession (send text)) := aside_onSession (calm_send text)

theorem aside_onConnectEvent : Moves Aside (onSession Commands.onConnectEvent) :=
  aside_onSession calm_onConnectEvent

theorem still_deref (p : Option Str) : Moves (fun s t => t = s) (deref p) := by
  intro s
  cases p with
  | none => rfl
  | some str =>
    by_cases h : str.id ∈ s.session.line.freed
    · simp [deref, endState, EStateM.run_bind, h]
    · simp [deref, endState, EStateM.run_bind, h]

def textAt (st : LineState) : Option Str → Option Bytes
  | none => none
  | some str => if str.id ∈ st.freed then none else some str.text

def paramText (s : LineSession) (i : ℕ) : Option Bytes := textAt s.line (s.line.result.params i)

theorem deref_run_of_some {s : Loop} {p : Option Str} {text : Bytes}
    (h : textAt s.session.line p = some text) : (deref p).run s = .ok text s := by
  cases p with
  | none => cases h
  | some str =>
    by_cases hstale : str.id ∈ s.session.line.freed
    · rw [textAt, if_pos hstale] at h
      cases h
    · rw [textAt, if_neg hstale] at h
      cases h
      simp [deref, EStateM.run_bind, hstale]

theorem deref_run_of_none {s : Loop} {p : Option Str} (h : textAt s.session.line p = none) :
    ∃ fault, (deref p).run s = .error fault s := by
  cases p with
  | none => exact ⟨.nullString, rfl⟩
  | some str =>
    by_cases hstale : str.id ∈ s.session.line.freed
    · exact ⟨.staleString, by simp [deref, EStateM.run_bind, hstale]⟩
    · rw [textAt, if_neg hstale] at h
      cases h

theorem param_run_of_some {s : Loop} {i : ℕ} {text : Bytes} (h : paramText s.session i = some text) :
    (param i).run s = .ok text s := deref_run_of_some h

theorem param_run_of_none {s : Loop} {i : ℕ} (h : paramText s.session i = none) :
    ∃ fault, (param i).run s = .error fault s := deref_run_of_none h

theorem still_param (i : ℕ) : Moves (fun s t => t = s) (param i) := fun s =>
  still_deref (s.session.line.result.params i) s

theorem aside_deref (p : Option Str) : Moves Aside (deref p) := by
  refine (still_deref p).mono fun s t h => ?_
  rw [h]
  exact aside_frame.refl s

theorem aside_param (i : ℕ) : Moves Aside (param i) := aside_frame.get_bind fun _ => aside_deref _

theorem aside_dumpEvent : Moves Aside dumpEvent :=
  aside_frame.get_bind fun _ => aside_frame.forM (fun cnt => moves_discard (aside_param cnt)) _

def eventLoop (s : Loop) (e : DccEvents.Event) : Loop :=
  { s with session := { s.session with client := DccEvents.step s.session.client e } }

theorem onEvent_run (e : DccEvents.Event) (s : Loop) :
    (onEvent e).run s =
      match (eventLoop s e).session.client.halted with
      | some h => .error (.client h) (eventLoop s e)
      | none => .ok ⟨⟩ (eventLoop s e) := rfl

theorem endState_onEvent (e : DccEvents.Event) (s : Loop) : endState (onEvent e) s = eventLoop s e := by
  unfold endState
  rw [onEvent_run]
  cases (eventLoop s e).session.client.halted <;> rfl

theorem aside_request (env : Env) (nick : Option Bytes) (req : Bytes) :
    Moves Aside (onEvent (.request env nick req)) := by
  intro s
  rw [endState_onEvent]
  exact (calm_client (ClientTurn.request s.session.client env nick req)).aside

theorem aside_eventConnect : Moves Aside eventConnect :=
  aside_frame.bind aside_dumpEvent fun _ => aside_onConnectEvent

theorem aside_eventNumeric (code : ℕ) : Moves Aside (eventNumeric code) :=
  aside_frame.get_bind fun _ => moves_ite
    (aside_frame.bind aside_dumpEvent fun _ => moves_discard (aside_param 1)) (aside_frame.pure _)

theorem aside_eventUmode : Moves Aside eventUmode :=
  aside_frame.get_bind fun _ => moves_ite
    (aside_frame.bind (aside_param 0) fun _ =>
      moves_ite (aside_onSession calm_joinChannels) (aside_frame.pure _))
    (aside_frame.pure _)

theorem aside_onClient {x : ClientM Unit} {s : Loop}
    (h : ClientTurn s.session.client (endState x s.session.client)) :
    Aside s (endState (onSession (Commands.onClient x)) s) := by
  have hend : endState (onSession (Commands.onClient x)) s =
      { s with session := { s.session with client := endState x s.session.client } } := by
    unfold onSession
    rw [endState_zoom]
    unfold endState
    rw [HandlerOutcomes.onClient_run]
    cases x.run s.session.client <;> rfl
  rw [hend]
  exact (calm_client h).aside

theorem aside_useMD5 (md5 : Bytes) : Moves Aside (useMD5 md5) := by
  intro s
  cases hlast : s.session.client.lastDownload with
  | none =>
    by_cases hone : s.session.client.cfg.numDownloads = 1
    · have hend : endState (useMD5 md5) s = endState (onSession (Commands.onClient (modify fun c =>
          { c with cfg := keepMD5 md5 c.cfg }))) s := by
        simp [useMD5, Handling.useMD5, endState, EStateM.run_bind, hlast, hone]
      rw [hend]
      exact aside_onClient (.keptSum _ md5)
    · have hend : endState (useMD5 md5) s = s := by
        simp [useMD5, Handling.useMD5, endState, EStateM.run_bind, hlast, hone]
      rw [hend]
      exact aside_frame.refl s
  | some context =>
    have hend : endState (useMD5 md5) s = endState (onSession (Commands.onClient
        (record (.startChecksum md5
          ((s.session.client.downloadContext[context]?).map (·.progress.completePath)))))) s := by
      simp [useMD5, Handling.useMD5, endState, EStateM.run_bind, hlast]
    rw [hend]
    exact aside_onClient (.startedChecksum hlast md5)

theorem aside_checkMD5ChecksumNotice (event : Bytes) : Moves Aside (checkMD5ChecksumNotice event) := by
  refine aside_frame.get_bind fun _ => moves_ite (aside_frame.pure _)
    (aside_frame.bind (aside_param 1) fun text => ?_)
  cases extractMD5 text with
  | none => exact aside_frame.pure _
  | some md5 => exact aside_useMD5 md5

theorem aside_checkConnectedEvent (event : Bytes) : Moves Aside (checkConnectedEvent event) :=
  aside_frame.get_bind fun _ => moves_ite (aside_frame.pure _)
    (aside_frame.bind (aside_param 1) fun _ => moves_ite aside_onConnectEvent (aside_frame.pure _))

theorem aside_eventNotice (event : Bytes) : Moves Aside (eventNotice event) :=
  aside_frame.bind aside_dumpEvent fun _ =>
    aside_frame.bind (aside_checkMD5ChecksumNotice event) fun _ => aside_checkConnectedEvent event

theorem aside_libircEventCtcpInternal (env : LineEnv) : Moves Aside (libircEventCtcpInternal env) := by
  refine aside_frame.get_bind fun s => ?_
  dsimp only [handling_deref]
  cases s.session.line.result.host with
  | none => exact aside_frame.pure _
  | some origin =>
    refine aside_frame.bind (aside_deref _) fun target => aside_frame.bind (aside_param 0) fun request => ?_
    cases ctcpReply env s.session request with
    | none => exact aside_frame.pure _
    | some reply => exact aside_send _

theorem aside_handleCtcpRequest (env : LineEnv) : Moves Aside (handleCtcpRequest env) := by
  refine aside_frame.bind (aside_param 1) fun text => moves_ite ?_ (moves_ite ?_ ?_)
  · exact aside_frame.get_bind fun _ => aside_request _ _ _
  · exact aside_frame.bind (aside_setLine _) fun _ => aside_dumpEvent
  · exact aside_frame.bind (aside_setLine _) fun _ => aside_libircEventCtcpInternal env

theorem aside_ircPingCommand : Moves Aside ircPingCommand :=
  aside_frame.get_bind fun _ => moves_ite (aside_frame.pure _)
    (aside_frame.bind (aside_param 0) fun _ => aside_send _)

theorem aside_dispatch (d : Commands.Dispatch) : Moves Aside (onSession (Commands.dispatch d)) :=
  aside_onSession (calm_modify fun _ => ⟨rfl, rfl, rfl, rfl, rfl, rfl, .refl⟩)

theorem aside_connectOnMotd (code : ℕ) : Moves Aside (connectOnMotd code) := by
  have hset : Moves Aside (onSession (modify fun t : LineSession => { t with motdReceived := true })) :=
    aside_onSession (calm_modify fun _ => ⟨rfl, rfl, rfl, rfl, rfl, rfl, .refl⟩)
  exact aside_frame.get_bind fun _ =>
    moves_ite (aside_frame.bind hset fun _ => aside_eventConnect) (aside_frame.pure _)

theorem aside_handleNumeric (command : Bytes) : Moves Aside (handleNumeric command) :=
  aside_frame.bind (aside_connectOnMotd _) fun _ =>
    aside_frame.bind (aside_dispatch _) fun _ => aside_eventNumeric _

end aside

section handlers

theorem asking_of_aside {α : Type} {x : LoopM α} (h : Moves Aside x) : Moves Asking x :=
  h.mono fun _ _ => Aside.asking

theorem taking_of_aside {α : Type} {x : LoopM α} (h : Moves Aside x) : Moves Taking x :=
  h.mono fun _ _ => Aside.toTaking

theorem steady_of_aside {α : Type} {x : LoopM α} (h : Moves Aside x) : Moves Steady x :=
  h.mono fun _ _ => fun h => h.steady

theorem asking_askBot (d : DccDownload) : Moves Asking (askBot d) := by
  have hsend : Moves Aside (onSession (Commands.onClient (ircSendRaw (privmsg d.botNick d.xdccCmd)))) := by
    refine aside_onSession fun s => ?_
    rw [endState_of_ok (onClient_send_run _ s)]
    exact calm_client (.sent s.client _)
  exact asking_frame.bind (asking_of_aside hsend) fun ret => moves_modify fun s =>
    ⟨⟨rfl, rfl, rfl, rfl, rfl, rfl, rfl, .refl⟩, ⟨rfl, rfl⟩⟩

theorem asking_sendXdccRequests : Moves Asking sendXdccRequests := by
  have hset : Moves Asking (onSession (modify fun t : LineSession => { t with sended := true })) :=
    fun _ => ⟨⟨rfl, rfl, rfl, rfl, rfl, rfl, rfl, .refl⟩, ⟨rfl, rfl⟩⟩
  exact asking_frame.get_bind fun s =>
    moves_ite (asking_frame.bind (asking_frame.forM asking_askBot _) fun _ => hset) (asking_frame.pure _)

theorem asking_eventJoin : Moves Asking eventJoin :=
  asking_frame.get_bind fun _ => asking_frame.bind (asking_of_aside (aside_send _)) fun _ =>
    moves_ite asking_sendXdccRequests (asking_frame.pure _)

theorem asking_eventMode : Moves Asking eventMode :=
  asking_frame.get_bind fun _ => moves_ite
    (asking_frame.bind (asking_of_aside (aside_param 1)) fun _ =>
      moves_ite asking_sendXdccRequests (asking_frame.pure _))
    (asking_frame.pure _)

theorem taking_take (a : Taken) : Moves Taking (take a) := fun _ =>
  ⟨⟨rfl, rfl, rfl, rfl, rfl, rfl, rfl, .refl⟩, ⟨rfl, rfl⟩⟩

theorem taking_ircNickCommand : Moves Taking ircNickCommand := by
  have hset (nick : Bytes) :
      Moves Taking (onSession (modify fun t : LineSession => { t with nick := nick })) :=
    fun _ => ⟨⟨rfl, rfl, rfl, rfl, rfl, rfl, rfl, .refl⟩, ⟨rfl, rfl⟩⟩
  exact taking_frame.get_bind fun _ => taking_frame.bind (taking_of_aside (aside_deref _)) fun _ =>
    moves_ite (taking_frame.bind (taking_of_aside (aside_param 0)) fun nick => hset nick)
      (taking_frame.pure _)

theorem taking_ircPrivmsgCommand (env : LineEnv) : Moves Taking (ircPrivmsgCommand env) :=
  taking_frame.get_bind fun _ => moves_ite (taking_frame.pure _)
    (taking_frame.bind (taking_of_aside (aside_param 1)) fun _ =>
      moves_ite (taking_of_aside (aside_handleCtcpRequest env))
        (taking_frame.bind (taking_of_aside (aside_param 0)) fun _ =>
          moves_ite (taking_frame.bind (taking_take _) fun _ => taking_of_aside aside_dumpEvent)
            (taking_frame.pure _)))

theorem taking_ircNoticeCommand (event : Bytes) : Moves Taking (ircNoticeCommand event) :=
  taking_frame.bind (taking_of_aside (aside_param 1)) fun _ => taking_frame.get_bind fun _ =>
    moves_ite
      (taking_frame.bind (taking_of_aside (aside_setLine _)) fun _ => taking_of_aside aside_dumpEvent)
      (taking_frame.bind (taking_of_aside (aside_param 0)) fun _ =>
        moves_ite (taking_frame.bind (taking_take _) fun _ => taking_of_aside (aside_eventNotice event))
          (taking_frame.pure _))

theorem steady_ircModeCommand : Moves Steady ircModeCommand := by
  have hasking : Moves Steady eventMode := asking_eventMode.mono fun _ _ h => h.steady
  have htaking (a : Taken) : Moves Steady (take a) := (taking_take a).mono fun _ _ h => h.steady
  exact steady_frame.get_bind fun _ => moves_ite
    (steady_frame.bind (steady_of_aside (aside_param 0)) fun _ => moves_ite
      (steady_frame.bind (htaking _) fun _ =>
        steady_frame.bind (steady_of_aside (aside_setLine moveMode)) fun _ =>
          steady_of_aside aside_eventUmode)
      hasking)
    hasking

theorem steady_execute (env : LineEnv) (command : Bytes) (handler : IrcCommand) :
    Moves Steady (execute env command handler) := by
  cases handler with
  | ping => exact steady_of_aside aside_ircPingCommand
  | nick => exact taking_ircNickCommand.mono fun _ _ h => h.steady
  | join => exact asking_eventJoin.mono fun _ _ h => h.steady
  | mode => exact steady_ircModeCommand
  | privmsg => exact (taking_ircPrivmsgCommand env).mono fun _ _ h => h.steady
  | notice => exact (taking_ircNoticeCommand command).mono fun _ _ h => h.steady
  | unknown => exact steady_of_aside aside_dumpEvent
  | quit | part | topic | kick | invite | kill => exact steady_frame.pure _

theorem steady_handleParserResult (env : LineEnv) : Moves Steady (handleParserResult env) := by
  refine steady_frame.get_bind fun s => ?_
  dsimp only
  cases s.session.line.result.command with
  | none => exact steady_frame.pure _
  | some command =>
    exact moves_ite (steady_of_aside (aside_handleNumeric command.text))
      (steady_frame.bind (steady_of_aside (aside_dispatch _)) fun _ => steady_execute env _ _)

/-- The loop with one more entry in the record of `handle_parser_result`. -/
def dispatched (s : Loop) (d : Commands.Dispatch) : Loop :=
  { s with session := { s.session with dispatched := s.session.dispatched ++ [d] } }

theorem handleParserResult_cases (env : LineEnv) (s : Loop) :
    (∃ x : LoopM Unit, Moves Aside x ∧ handlerOf s.session.line.result = none ∧
        endState (handleParserResult env) s = endState x s) ∨
      ∃ command handler, handlerOf s.session.line.result = some handler ∧
        endState (handleParserResult env) s =
          endState (execute env command handler) (dispatched s (.command handler command)) := by
  cases hcommand : s.session.line.result.command with
  | none =>
    left
    refine ⟨pure ⟨⟩, aside_frame.pure _, by rw [handlerOf, hcommand]; rfl, ?_⟩
    simp [handleParserResult, Handling.handleParserResult, endState, EStateM.run_bind, hcommand]
  | some command =>
    by_cases hnumeric : isNumericCommand command.text = true
    · left
      refine ⟨handleNumeric command.text, aside_handleNumeric command.text, ?_, ?_⟩
      · rw [handlerOf, hcommand]
        exact if_pos hnumeric
      · simp [handleParserResult, Handling.handleParserResult, handleNumeric, endState,
          EStateM.run_bind, hcommand, hnumeric]
    · right
      refine ⟨command.text, getCommand command.text (strlen command.text), ?_, ?_⟩
      · rw [handlerOf, hcommand]
        exact if_neg hnumeric
      · simp [handleParserResult, Handling.handleParserResult, Handling.handleCommand, endState,
          EStateM.run_bind, hcommand, hnumeric]
        rfl

end handlers

end Xdccget.LoopFrames
