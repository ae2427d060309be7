import Xdccget.LoopLines

set_option autoImplicit false

/-!
# When the client asks for the downloads

Three turns of the loop come to `send_xdcc_requests`, and they find the flag clear once
at most. What is asked then, and what of it is taken, depends on the connection alone.
-/
namespace Xdccget.RequestTurns
open CText IrcParserCarry LineParser ClientState DccMessages HaltingPrograms StepRuns ClientLoop
  LoopFrames LoopLines
open Commands (Fault LineEnv LineSession IrcCommand strnEquals strlen send moveMode)
open HandlerOutcomes (handlerOf)
open LineSteps (Ends)

/-- The calls of `irc_cmd_msg` for the downloads, one after another. -/
def answers (now : ℕ) : Net → List DccDownload → List Asked
  | _, [] => []
  | net, d :: ds =>
    { botNick := d.botNick, xdccCmd := d.xdccCmd, accepted := accepts net (privmsg d.botNick d.xdccCmd),
      time := now } :: answers now (afterSend net (privmsg d.botNick d.xdccCmd)) ds

def downloads (s : LineSession) : List DccDownload := s.client.cfg.dccDownloadArray.getD []

section asking
variable {s : Loop}

theorem askBot_run (d : DccDownload) (s : Loop) :
    (askBot d).run s = .ok ⟨⟩
      { s with
        session :=
          { s.session with client := sentClient s.session.client (privmsg d.botNick d.xdccCmd) }
        asked := s.asked ++
          [{ botNick := d.botNick, xdccCmd := d.xdccCmd
             accepted := accepts s.session.client.net (privmsg d.botNick d.xdccCmd)
             time := s.now }] } := by
  have hsend : (onSession (Commands.onClient (ircSendRaw (privmsg d.botNick d.xdccCmd)))).run s =
      .ok (if accepts s.session.client.net (privmsg d.botNick d.xdccCmd) then 0 else 1)
        { s with session :=
            { s.session with client := sentClient s.session.client (privmsg d.botNick d.xdccCmd) } } := by
    unfold onSession
    rw [ProgramRelations.zoom_run, onClient_send_run]
  unfold askBot
  rw [run_bind_of_ok hsend]
  cases accepts s.session.client.net (privmsg d.botNick d.xdccCmd) <;> rfl

theorem askAll_run (ds : List DccDownload) (s : Loop) :
    ∃ t, (ds.forM askBot).run s = .ok ⟨⟩ t ∧
      t.asked = s.asked ++ answers s.now s.session.client.net ds := by
  induction ds generalizing s with
  | nil => exact ⟨s, rfl, (List.append_nil _).symm⟩
  | cons d ds ih =>
    obtain ⟨t, hrun, hasked⟩ := ih _
    refine ⟨t, ?_, hasked.trans ?_⟩
    · rw [List.forM, run_bind_of_ok (askBot_run d s)]
      exact hrun
    · rw [List.append_assoc]
      rfl

theorem sendXdccRequests_run_of_sended (h : s.session.sended = true) :
    sendXdccRequests.run s = .ok ⟨⟩ s := by
  unfold sendXdccRequests Commands.Handling.sendXdccRequests
  simp [EStateM.run_bind, h]

theorem sendXdccRequests_run (h : s.session.sended = false) :
    ∃ t, sendXdccRequests.run s = .ok ⟨⟩ t ∧ t.session.sended = true ∧
      t.asked = s.asked ++ answers s.now s.session.client.net (downloads s.session) := by
  obtain ⟨t, hrun, hasked⟩ := askAll_run (downloads s.session) s
  refine ⟨{ t with session := { t.session with sended := true } }, ?_, rfl, hasked⟩
  have hbind : ((downloads s.session).forM askBot >>= fun _ =>
      onSession (modify fun t => { t with sended := true })).run s =
        .ok ⟨⟩ { t with session := { t.session with sended := true } } := by
    rw [run_bind_of_ok hrun]
    rfl
  have hget : sendXdccRequests.run s = _ := run_get_bind _ s
  rw [hget]
  dsimp only
  rw [h]
  exact hbind

end asking

/-- A mode `+v` of somebody else. -/
def VoicesOther (s : LineSession) : Prop :=
  1 < s.line.result.numParams ∧ paramText s 1 = some (bytes "+v") ∧
    (paramText s 0).any (fun target => !strnEquals target s.nick (strlen s.nick)) = true

instance (s : LineSession) : Decidable (VoicesOther s) := by
  unfold VoicesOther
  infer_instance

def lineAsks (s : LineSession) : Option Net :=
  match handlerOf s.line.result with
  | some .join =>
    if !s.sendDelay && s.loginCommand.isNone then some (afterSend s.client.net (userModeLine s.nick))
    else none
  | some .mode => if s.loginCommand.isSome ∧ VoicesOther s then some s.client.net else none
  | _ => none

def unlessSended (s : LineSession) (net : Option Net) : Option Net := if s.sended then none else net

def turnAsks (s : Loop) : LoopEvent → Option Net
  | .keepAlive _ => if shouldSendXdccRequests s then some s.session.client.net else none
  | .line _ block =>
    if Ends s.session block.line then lineAsks (LineSteps.entered s.session block.line) else none
  | _ => none

def asks (s : Loop) (e : LoopEvent) : Option Net :=
  if idle s e then none else unlessSended s.session (turnAsks s e)

/-- What a program that may ask has done with the requests: nothing, or all of it at once. -/
def Follows (s : Loop) (net : Option Net) (t : Loop) : Prop :=
  match net with
  | none => Unasked s t
  | some net => t.session.sended = true ∧ t.asked = s.asked ++ answers s.now net (downloads s.session)

section follows
variable {s : Loop}

theorem Follows.unasked {net : Option Net} {t : Loop} (hnone : net = none) (h : Unasked s t) :
    Follows s (unlessSended s.session net) t := by
  have hboth : unlessSended s.session net = none := by
    rw [hnone]
    exact ite_self none
  rw [hboth]
  exact h

theorem Follows.of_start {s' t : Loop} {net : Option Net} (h : Follows s' net t) (hsame : Unasked s s')
    (hnow : s'.now = s.now) (hdownloads : downloads s'.session = downloads s.session) :
    Follows s net t := by
  cases net with
  | none => exact unasked_frame.trans s s' t hsame h
  | some net =>
    have hasked : t.asked = s'.asked ++ answers s'.now net (downloads s'.session) := h.2
    rw [hsame.asked, hnow, hdownloads] at hasked
    exact ⟨h.1, hasked⟩

theorem sendXdccRequests_follows (s : Loop) :
    Follows s (unlessSended s.session (some s.session.client.net)) (endState sendXdccRequests s) := by
  unfold unlessSended
  cases hsended : s.session.sended with
  | true =>
    rw [endState_of_ok (sendXdccRequests_run_of_sended hsended)]
    exact unasked_frame.refl s
  | false =>
    obtain ⟨t, hrun, hresult⟩ := sendXdccRequests_run hsended
    rw [endState_of_ok hrun]
    exact hresult

theorem eventJoin_follows (s : Loop) :
    Follows s (unlessSended s.session
      (if !s.session.sendDelay && s.session.loginCommand.isNone then
        some (afterSend s.session.client.net (userModeLine s.session.nick)) else none))
      (endState eventJoin s) := by
  let text := userModeLine s.session.nick
  let s' : Loop := { s with session := { s.session with client := sentClient s.session.client text } }
  have hsend : (onSession (send text)).run s = .ok ⟨⟩ s' := by
    unfold onSession
    rw [ProgramRelations.zoom_run, send_run]
  have hend : endState eventJoin s =
      endState (if !s.session.sendDelay && s.session.loginCommand.isNone then sendXdccRequests
        else pure ⟨⟩ : LoopM Unit) s' := endState_bind_of_ok hsend
  rw [hend]
  by_cases h : (!s.session.sendDelay && s.session.loginCommand.isNone) = true
  · rw [if_pos h, if_pos h]
    exact (sendXdccRequests_follows s').of_start ⟨rfl, rfl⟩ rfl rfl
  · rw [if_neg h, if_neg h]
    exact Follows.unasked rfl ⟨rfl, rfl⟩

theorem eventMode_follows (s : Loop) :
    Follows s (unlessSended s.session
      (if s.session.loginCommand.isSome ∧ 1 < s.session.line.result.numParams ∧
          paramText s.session 1 = some (bytes "+v") then some s.session.client.net else none))
      (endState eventMode s) := by
  have hend : endState eventMode s =
      endState (if s.session.loginCommand.isSome ∧ 1 < s.session.line.result.numParams then
        param 1 >>= fun text => if text = bytes "+v" then sendXdccRequests else pure ⟨⟩
        else pure ⟨⟩ : LoopM Unit) s := rfl
  rw [hend]
  by_cases h : s.session.loginCommand.isSome ∧ 1 < s.session.line.result.numParams
  · rw [if_pos h]
    cases htext : paramText s.session 1 with
    | none =>
      obtain ⟨fault, hrun⟩ := param_run_of_none htext
      rw [endState_bind_of_error hrun]
      exact Follows.unasked (by simp) (unasked_frame.refl s)
    | some text =>
      rw [endState_bind_of_ok (param_run_of_some htext)]
      by_cases hvoice : text = bytes "+v"
      · rw [if_pos hvoice, if_pos ⟨h.1, h.2, by rw [hvoice]⟩]
        exact sendXdccRequests_follows s
      · rw [if_neg hvoice]
        exact Follows.unasked (by simp [hvoice]) (unasked_frame.refl s)
  · rw [if_neg h]
    exact Follows.unasked (if_neg fun hall => h ⟨hall.1, hall.2.1⟩) (unasked_frame.refl s)

theorem ircModeCommand_follows (s : Loop) :
    Follows s (unlessSended s.session
      (if s.session.loginCommand.isSome ∧ VoicesOther s.session then some s.session.client.net
        else none))
      (endState ircModeCommand s) := by
  have hend : endState ircModeCommand s =
      endState (if 0 < s.session.line.result.numParams then
        param 0 >>= fun target =>
          if strnEquals target s.session.nick (strlen s.session.nick) then do
            take (.userMode target s.session.nick)
            onSession (Commands.setLine moveMode)
            eventUmode
          else eventMode
        else eventMode : LoopM Unit) s := rfl
  rw [hend]
  by_cases hparams : 0 < s.session.line.result.numParams
  · rw [if_pos hparams]
    cases htarget : paramText s.session 0 with
    | none =>
      obtain ⟨fault, hrun⟩ := param_run_of_none htarget
      rw [endState_bind_of_error hrun]
      exact Follows.unasked (by simp [VoicesOther, htarget]) (unasked_frame.refl s)
    | some target =>
      rw [endState_bind_of_ok (param_run_of_some htarget)]
      by_cases hown : strnEquals target s.session.nick (strlen s.session.nick) = true
      · rw [if_pos hown]
        refine Follows.unasked (by simp [VoicesOther, htarget, hown]) ?_
        exact (taking_frame.bind (taking_take _) fun _ =>
          taking_frame.bind (taking_of_aside (aside_setLine moveMode)) fun _ =>
            taking_of_aside aside_eventUmode) s |>.unasked
      · have hmode := eventMode_follows s
        rw [if_neg hown]
        have hsame : (s.session.loginCommand.isSome ∧ VoicesOther s.session) ↔
            (s.session.loginCommand.isSome ∧ 1 < s.session.line.result.numParams ∧
              paramText s.session 1 = some (bytes "+v")) := by
          simp [VoicesOther, htarget, hown]
        simp only [hsame]
        exact hmode
  · have hmode := eventMode_follows s
    have hnot : ¬ 1 < s.session.line.result.numParams := by omega
    rw [if_neg hparams]
    simp only [hnot, false_and, and_false, if_false] at hmode
    simp only [VoicesOther, hnot, false_and, and_false, if_false]
    exact hmode

theorem execute_follows (env : LineEnv) (command : Bytes) {handler : IrcCommand}
    (h : handlerOf s.session.line.result = some handler) :
    Follows s (unlessSended s.session (lineAsks s.session)) (endState (execute env command handler) s) := by
  have haside {x : LoopM Unit} (hx : Moves Taking x) (hnone : lineAsks s.session = none) :
      Follows s (unlessSended s.session (lineAsks s.session)) (endState x s) :=
    Follows.unasked hnone (hx s).unasked
  unfold lineAsks
  unfold lineAsks at haside
  rw [h] at haside ⊢
  cases handler with
  | join => exact eventJoin_follows s
  | mode => exact ircModeCommand_follows s
  | ping => exact haside (taking_of_aside aside_ircPingCommand) rfl
  | nick => exact haside taking_ircNickCommand rfl
  | privmsg => exact haside (taking_ircPrivmsgCommand env) rfl
  | notice => exact haside (taking_ircNoticeCommand command) rfl
  | unknown => exact haside (taking_of_aside aside_dumpEvent) rfl
  | quit | part | topic | kick | invite | kill => exact haside (taking_frame.pure _) rfl

theorem handleParserResult_follows (env : LineEnv) (s : Loop) :
    Follows s (unlessSended s.session (lineAsks s.session)) (endState (handleParserResult env) s) := by
  have hnone {x : LoopM Unit} (hx : Moves Aside x) (h : handlerOf s.session.line.result = none) :
      Follows s (unlessSended s.session (lineAsks s.session)) (endState x s) := by
    refine Follows.unasked ?_ (hx s).unasked
    unfold lineAsks
    rw [h]
  rcases handleParserResult_cases env s with ⟨x, hx, hhandler, hend⟩ | ⟨command, handler, hhandler, hend⟩
  · rw [hend]
    exact hnone hx hhandler
  · rw [hend]
    exact (execute_follows env command (s := dispatched s (.command handler command)) hhandler).of_start
      ⟨rfl, rfl⟩ rfl rfl

theorem Follows.of_end {t u : Loop} {net : Option Net} (h : Follows s net t) (hsame : Unasked t u) :
    Follows s net u := by
  cases net with
  | none => exact unasked_frame.trans s t u h hsame
  | some net => exact ⟨hsame.sended.trans h.1, hsame.asked.trans h.2⟩

theorem printOutputCallback_follows (flag : Bool) (s : Loop) :
    Follows s (unlessSended s.session
      (if shouldSendXdccRequests s then some s.session.client.net else none))
      (endState (printOutputCallback flag) s) := by
  have hevent : Moves Unasked (if flag then onEvent .outputTimer else pure ⟨⟩ : LoopM Unit) :=
    moves_ite ((apart_onEvent .outputTimer).mono fun _ _ h => h.unasked) (unasked_frame.pure _)
  have hend : endState (printOutputCallback flag) s =
      endState (if shouldSendXdccRequests s then
        sendXdccRequests >>= fun _ => if flag then onEvent .outputTimer else pure ⟨⟩
        else if flag then onEvent .outputTimer else pure ⟨⟩ : LoopM Unit) s := rfl
  rw [hend]
  by_cases h : shouldSendXdccRequests s = true
  · rw [if_pos h, if_pos h]
    exact (sendXdccRequests_follows s).of_end
      (endState_bind_moves unasked_frame.refl (fun _ => hevent) s)
  · rw [if_neg h, if_neg h]
    exact Follows.unasked rfl (hevent s)

theorem step_follows (hb : Between s) (e : LoopEvent) : Follows s (asks s e) (step s e) := by
  cases hidle : idle s e with
  | true =>
    rw [step_of_idle hidle, asks, if_pos hidle]
    exact unasked_frame.refl s
  | false =>
    have hasks : asks s e = unlessSended s.session (turnAsks s e) := by
      rw [asks, hidle]
      rfl
    rw [hasks]
    cases e with
    | keepAlive flag =>
      exact (printOutputCallback_follows flag s).of_end (step_endState hidle).unasked
    | line answers block =>
      obtain ⟨c, hp⟩ := hb (live_of_not_idle hidle)
      rcases step_line hidle hp with ⟨hends, hstep⟩ | ⟨hends, hfin⟩
      · rw [hstep]
        exact Follows.unasked (if_neg hends) ⟨rfl, rfl⟩
      · have hturn := (handleParserResult_follows answers.env (entered s block.line)).of_end
          hfin.unasked
        rw [turnAsks, if_pos hends]
        exact hturn.of_start ⟨rfl, rfl⟩ rfl rfl
    | clock now => exact Follows.unasked rfl (step_apart (by simp) (by simp) s).unasked
    | connecting peer format => exact Follows.unasked rfl (step_apart (by simp) (by simp) s).unasked
    | writable length => exact Follows.unasked rfl (step_apart (by simp) (by simp) s).unasked
    | socket dccid ready => exact Follows.unasked rfl (step_apart (by simp) (by simp) s).unasked
    | addDescriptors => exact Follows.unasked rfl (step_apart (by simp) (by simp) s).unasked
    | closed => exact Follows.unasked rfl (step_apart (by simp) (by simp) s).unasked
    | interrupt => exact Follows.unasked rfl (step_apart (by simp) (by simp) s).unasked

end follows

section answers

theorem answers_pairs (now : ℕ) (net : Net) (ds : List DccDownload) :
    (answers now net ds).map (fun a => (a.botNick, a.xdccCmd)) =
      ds.map fun d => (d.botNick, d.xdccCmd) := by
  induction ds generalizing net with
  | nil => rfl
  | cons d ds ih => rw [answers, List.map_cons, List.map_cons, ih]

theorem answers_time {now : ℕ} {net : Net} {ds : List DccDownload} {a : Asked}
    (h : a ∈ answers now net ds) : a.time = now := by
  induction ds generalizing net with
  | nil => cases h
  | cons d ds ih =>
    rcases List.mem_cons.mp h with rfl | h
    · rfl
    · exact ih h

def requestBytes (ds : List DccDownload) : ℕ :=
  (ds.map fun d => (snprintf 1024 (privmsg d.botNick d.xdccCmd)).length + 2).sum

/-- All request lines fit into `outgoing_buf`, one behind the other. -/
def Room (net : Net) (ds : List DccDownload) : Prop :=
  ds = [] ∨ (net.state = .connected ∧ net.outgoing.length + requestBytes ds < libircBufferSize)

instance (net : Net) (ds : List DccDownload) : Decidable (Room net ds) := by
  unfold Room
  infer_instance

theorem accepts_iff {net : Net} {text : Bytes} : accepts net text = true ↔
    net.state = .connected ∧
      net.outgoing.length + ((snprintf 1024 text).length + 2) < libircBufferSize := by
  simp [accepts]

theorem afterSend_of_accepts {net : Net} {text : Bytes} (h : accepts net text = true) :
    afterSend net text = { net with outgoing := net.outgoing ++ snprintf 1024 text ++ [cr, lf] } :=
  if_pos h

theorem afterSend_of_not_accepts {net : Net} {text : Bytes} (h : accepts net text = false) :
    (afterSend net text).outgoing = net.outgoing := by
  unfold afterSend
  rw [h]
  rfl

theorem outgoing_length_afterSend {net : Net} {text : Bytes} (h : accepts net text = true) :
    (afterSend net text).outgoing.length =
      net.outgoing.length + ((snprintf 1024 text).length + 2) := by
  rw [afterSend_of_accepts h]
  simp only [List.length_append, List.length_cons, List.length_nil]
  omega

theorem answers_accepted_iff (now : ℕ) (net : Net) (ds : List DccDownload) :
    (∀ a ∈ answers now net ds, a.accepted = true) ↔ Room net ds := by
  induction ds generalizing net with
  | nil => simp [answers, Room]
  | cons d ds ih =>
    let text := privmsg d.botNick d.xdccCmd
    have hbytes : requestBytes (d :: ds) = (snprintf 1024 text).length + 2 + requestBytes ds := by
      simp [requestBytes, text]
    have hsplit : (∀ a ∈ answers now net (d :: ds), a.accepted = true) ↔
        accepts net text = true ∧ Room (afterSend net text) ds := by
      rw [← ih (afterSend net text)]
      exact List.forall_mem_cons
    have hroom : Room net (d :: ds) ↔ net.state = .connected ∧
        net.outgoing.length + requestBytes (d :: ds) < libircBufferSize := by simp [Room]
    rw [hsplit, hroom, hbytes]
    constructor
    · rintro ⟨haccepts, hrest⟩
      obtain ⟨hstate, hfits⟩ := accepts_iff.mp haccepts
      rcases hrest with hnil | ⟨-, hmore⟩
      · refine ⟨hstate, ?_⟩
        rw [hnil]
        exact hfits
      · rw [outgoing_length_afterSend haccepts] at hmore
        exact ⟨hstate, by omega⟩
    · rintro ⟨hstate, hfits⟩
      have haccepts : accepts net text = true := accepts_iff.mpr ⟨hstate, by omega⟩
      refine ⟨haccepts, Or.inr ⟨?_, ?_⟩⟩
      · rw [afterSend_state]
        exact hstate
      · rw [outgoing_length_afterSend haccepts]
        omega

theorem exists_accepted_iff (now : ℕ) (net : Net) (ds : List DccDownload) :
    (∃ a ∈ answers now net ds, a.accepted = true) ↔
      ∃ d ∈ ds, accepts net (privmsg d.botNick d.xdccCmd) = true := by
  induction ds generalizing net with
  | nil => simp [answers]
  | cons d ds ih =>
    let text := privmsg d.botNick d.xdccCmd
    cases haccepts : accepts net text with
    | true =>
      exact iff_of_true ⟨_, List.mem_cons_self, haccepts⟩ ⟨d, List.mem_cons_self, haccepts⟩
    | false =>
      have hsame : ∀ other, accepts (afterSend net text) other = accepts net other := by
        intro other
        unfold accepts
        rw [afterSend_state, afterSend_of_not_accepts haccepts]
      have hrest := ih (afterSend net text)
      simp only [hsame] at hrest
      simp only [answers, List.mem_cons, exists_eq_or_imp]
      exact or_congr_right hrest

end answers

end Xdccget.RequestTurns
