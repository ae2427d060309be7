import Xdccget.DccAccepts
import Xdccget.CallbackSteps

set_option autoImplicit false

/-!
# Which session an acknowledgement reaches

Sessions are looked up by port or by token alone, newest first. An acknowledgement
from any permitted nick reaches that one session and no other.
-/
namespace Xdccget.ResumeAddressing
open CText DccMessages DccAccepts ClientState DccSessions Downloads DccEvents HaltingPrograms
  SessionSpecs DownloadSpecs EventSpecs TableChanges SessionCallbacks CallbackSteps StepRuns

def newestByPort (s : Client) (port : ℕ) : Option DccSession :=
  s.dccSessions.find? fun d => d.sinPort = port

def newestByToken (s : Client) (token : ℕ) : Option DccSession :=
  s.dccSessions.find? fun d => d.passiveConnection && d.token = token

/-- The session alone is told the position, and its callback is called. -/
structure ResumesOnly (s s' : Client) (id position : ℕ) (cb : Callback) : Prop where
  sessions : ∃ g : DccSession → DccSession,
    (∀ d, (g d).id = d.id ∧ (g d).fileConfirmOffset = position) ∧
      s'.dccSessions = updateSession id g s.dccSessions
  called : ∃ l, s'.trace = s.trace ++ .call id (some cb) :: l

def connectedAt (position : ℕ) (d : DccSession) : DccSession :=
  { d with
    state := if d.ssl then .connected else .connecting
    fileConfirmOffset := position
    cb := some .callbackDccRecvFile }

structure ContinuesAt (s s' : Client) (d : DccSession) (context : ℕ) (fd : FileIo)
    (position : ℕ) : Prop where
  running : s'.halted = none
  sessions : s'.dccSessions = updateSession d.id (connectedAt position) s.dccSessions
  table : s'.downloadContext = s.downloadContext.modify context (rewound fd position)

/-- What the system must grant for a session to go on at a position. -/
structure Grants (env : Env) (position : ℕ) (ssl : Bool) : Prop where
  seek : env.fseek = true ∧ position < 2 ^ 63
  connect : env.connect = true
  sslConnect : ssl = true → env.sslConnect = true

section callback
variable {s : Client} {id : ℕ}

theorem updateSession_self (ds : List DccSession) : updateSession id (fun d => d) ds = ds := by
  unfold updateSession
  simp

theorem callbackDccResumeFile_effect (env : Env) (id : ℕ) (ctx : Option ℕ) (length : ℕ)
    (s : Client) :
    ∃ g : DccSession → DccSession,
      (∀ d, (g d).id = d.id ∧ (g d).fileConfirmOffset = d.fileConfirmOffset) ∧
      (endState (callbackDccResumeFile env id ctx length) s).dccSessions =
        updateSession id g s.dccSessions ∧
      ∃ l, (endState (callbackDccResumeFile env id ctx length) s).trace = s.trace ++ l := by
  have htrace := changes_trace (b := true) (callbackDccResumeFile_moves env id ctx length s)
  have hself : ∃ g : DccSession → DccSession,
      (∀ d, (g d).id = d.id ∧ (g d).fileConfirmOffset = d.fileConfirmOffset) ∧
        s.dccSessions = updateSession id g s.dccSessions :=
    ⟨fun d => d, fun _ => ⟨rfl, rfl⟩, (updateSession_self _).symm⟩
  suffices h : ∃ g : DccSession → DccSession,
      (∀ d, (g d).id = d.id ∧ (g d).fileConfirmOffset = d.fileConfirmOffset) ∧
      (endState (callbackDccResumeFile env id ctx length) s).dccSessions =
        updateSession id g s.dccSessions by
    obtain ⟨g, hg, hsessions⟩ := h
    exact ⟨g, hg, hsessions, htrace⟩
  cases ctx with
  | none => exact hself
  | some context =>
    rw [callbackDccResumeFile]
    rcases seekToResume_run_cases env context length s with ⟨fault, hseek⟩ | ⟨-, fd, -, -, hseek⟩
    · rw [endState_bind_of_error hseek]
      exact hself
    · rw [endState_bind_of_ok hseek]
      let t := { s with downloadContext := s.downloadContext.modify context (rewound fd length) }
      have hexit (call : ClientM ℕ) : (endState (exitOnFailure call) t).dccSessions =
          (endState call t).dccSessions := by
        unfold endState exitOnFailure
        rw [EStateM.run_bind]
        cases call.run t with
        | error fault t' => rfl
        | ok ret t' =>
          by_cases hret : ret = 0 <;> simp [hret, exitPgm]
      rw [hexit]
      rcases exists_init_or_notInit t id with ⟨d, hd, hinit⟩ | hnot
      · obtain ⟨ret, net, f, hrun, haccepted⟩ := ircDccAccept_run hd hinit env (some context)
          .callbackDccRecvFile
        rw [endState_of_ok hrun]
        exact ⟨f, by cases haccepted <;> exact fun _ => ⟨rfl, rfl⟩, rfl⟩
      · obtain ⟨net, hrun⟩ := ircDccAccept_run_of_notInit hnot env (some context)
          .callbackDccRecvFile
        rw [endState_of_ok hrun]
        exact hself

/-- With its file open, the callback returns where the system grants the seek and the connection;
    else the process ends. -/
theorem callbackDccResumeFile_cases {d : DccSession} {context : ℕ} {c : DccDownloadContext}
    {fd : FileIo} (hf : s.dccSessions.find? (fun d => d.id = id) = some d)
    (hinit : d.state = .init) (hc : s.downloadContext[context]? = some c) (hfd : c.fd = some fd)
    (env : Env) (length : ℕ) :
    (∃ net l, (callbackDccResumeFile env id (some context) length).run s =
      .ok ⟨⟩ (sessionOp { s with downloadContext := s.downloadContext.modify context (rewound fd length) }
        net id (fun d =>
          { d with
            cb := some .callbackDccRecvFile
            ctx := some context
            state := if d.ssl then .connected else .connecting }) l)) ∨
    ¬ Grants env length d.ssl ∧
      ∃ s', (callbackDccResumeFile env id (some context) length).run s = .error .exitPgm s' ∧
        s'.files = s.files := by
  rw [callbackDccResumeFile]
  by_cases hseek : ¬ (env.fseek = true ∧ length < 2 ^ 63)
  · exact .inr ⟨fun h => hseek h.seek, s,
      run_bind_of_error (seekToResume_run_of_refused hc hfd hseek), rfl⟩
  rw [run_bind_of_ok (seekToResume_run_of_open hc hfd (not_not.mp hseek))]
  let t := { s with downloadContext := s.downloadContext.modify context (rewound fd length) }
  have hft : t.dccSessions.find? (fun d => d.id = id) = some d := hf
  obtain ⟨ret, net, f, hrun, haccepted⟩ := ircDccAccept_run hft hinit env (some context)
    .callbackDccRecvFile
  cases haccepted with
  | done _ _ => exact .inl ⟨net, _, exitOnFailure_run_of_ok hrun⟩
  | refused hrefused =>
    exact .inr ⟨fun h => absurd h.connect (by simp [hrefused]), _,
      exitOnFailure_run_of_failure hrun (by decide), rfl⟩
  | noHandshake hssl hfailed =>
    exact .inr ⟨fun h => absurd (h.sslConnect hssl) (by simp [hfailed]), _,
      exitOnFailure_run_of_failure hrun (by decide), rfl⟩

end callback

section lookups
variable {s : Client} {env : Env} {position : ℕ} {d : DccSession}

theorem updateSession_congr {id : ℕ} {f g : DccSession → DccSession} {ds : List DccSession}
    (h : ∀ d ∈ ds, d.id = id → f d = g d) : updateSession id f ds = updateSession id g ds := by
  apply List.map_congr_left
  intro d hd
  by_cases hid : d.id = id
  · simp [hid, h d hd hid]
  · simp [hid]

theorem acceptResume_run_of_not_waiting {port : ℕ}
    (h : ∀ d, newestByPort s port = some d → d.state ≠ .waitingForResumeAck) :
    ∃ net, (acceptResume env port position).run s = .ok ⟨⟩ (withNet s net) := by
  cases hf : newestByPort s port with
  | none =>
    refine ⟨s.net, ?_⟩
    rw [acceptResume_eq, libircFindDccSessionByPort, run_bind_of_ok (libircFind_run_of_none hf true)]
    rfl
  | some d =>
    have hstate := h d hf
    refine ⟨lockedNet s.net, ?_⟩
    rw [acceptResume_eq, libircFindDccSessionByPort, run_bind_of_ok (libircFind_run_of_some hf)]
    simp only [ne_eq, hstate, not_false_eq_true, if_true, EStateM.run_pure]

theorem acceptResumeReverse_of_not_waiting {token : ℕ} (nick : Option Bytes)
    (h : ∀ d, newestByToken s token = some d → d.state ≠ .waitingForResumeAck) :
    (endState (acceptResumeReverse env nick position token) s).dccSessions = s.dccSessions := by
  cases hf : newestByToken s token with
  | none =>
    rw [acceptResumeReverse_eq, libircFindDccSessionByToken,
      endState_bind_of_ok (libircFind_run_of_none hf true)]
    rfl
  | some d =>
    have hstate := h d hf
    rw [acceptResumeReverse_eq, libircFindDccSessionByToken,
      endState_bind_of_ok (libircFind_run_of_some hf)]
    simp only [ne_eq, hstate, not_false_eq_true, if_true]
    rfl

theorem find?_acknowledgedSession (h : Sound s) (hd : d ∈ s.dccSessions) (position : ℕ) :
    (acknowledgedSession s d.id position).dccSessions.find? (fun e => e.id = d.id) =
      some (resumed .init position d) :=
  find?_sessionOp (h.find_of_mem hd) s.net (by exact fun _ => rfl) []

theorem acceptResume_run_of_active {port : ℕ} (h : Sound s) (hf : newestByPort s port = some d)
    (hstate : d.state = .waitingForResumeAck) (hactive : d.passiveConnection = false) :
    (acceptResume env port position).run s =
      (callbackDccResumeFile env d.id d.ctx position).run
        (called (acknowledgedSession s d.id position) d.id (some (.data .callbackDccResumeFile))) := by
  have hmem : d ∈ s.dccSessions := List.mem_of_find?_eq_some hf
  obtain ⟨hcb, -⟩ := (h.ready d hmem).awaits (.data .callbackDccResumeFile)
    (by simp [awaited, hstate, hactive])
  have hfind := find?_acknowledgedSession h hmem position
  rw [acceptResume_run_of_waiting hf hstate, callCb_run_of_resumeFile hfind hcb]
  rfl

theorem acceptResume_resumes {port : ℕ} (h : Sound s) (hf : newestByPort s port = some d)
    (hstate : d.state = .waitingForResumeAck) (hactive : d.passiveConnection = false) :
    ResumesOnly s (endState (acceptResume env port position) s) d.id position
      (.data .callbackDccResumeFile) := by
  obtain ⟨g, hg, hsessions, l, htrace⟩ := callbackDccResumeFile_effect env d.id d.ctx position
    (called (acknowledgedSession s d.id position) d.id (some (.data .callbackDccResumeFile)))
  have hend : endState (acceptResume env port position) s =
      endState (callbackDccResumeFile env d.id d.ctx position)
        (called (acknowledgedSession s d.id position) d.id (some (.data .callbackDccResumeFile))) := by
    unfold endState
    rw [acceptResume_run_of_active h hf hstate hactive]
  rw [← hend] at hsessions htrace
  constructor
  · refine ⟨fun e => g (resumed .init position e), fun e => ?_, ?_⟩
    · obtain ⟨hid, hoffset⟩ := hg (resumed .init position e)
      exact ⟨hid, hoffset⟩
    · rw [hsessions, called_dccSessions, acknowledgedSession, withNet_dccSessions,
        sessionOp_dccSessions, updateSession_updateSession]
      exact fun _ => rfl
  · refine ⟨l, ?_⟩
    rw [htrace, called_trace, acknowledgedSession, withNet_trace, sessionOp_trace, List.append_nil,
      List.append_assoc]
    rfl

theorem acceptResumeReverse_resumes {token : ℕ} (h : Sound s) (hf : newestByToken s token = some d)
    (hstate : d.state = .waitingForResumeAck) (nick : Option Bytes) :
    ResumesOnly s (endState (acceptResumeReverse env nick position token) s) d.id position
      (.reverse .callbackDccResumeFileReverse) := by
  have hmem : d ∈ s.dccSessions := List.mem_of_find?_eq_some hf
  have hpassive : d.passiveConnection = true := by
    have hfound := List.find?_some hf
    simp only [Bool.and_eq_true] at hfound
    exact hfound.1
  obtain ⟨hcb, -⟩ := (h.ready d hmem).awaits (.reverse .callbackDccResumeFileReverse)
    (by simp [awaited, hstate, hpassive])
  have hcb' : d.reverseCb = some .callbackDccResumeFileReverse := hcb
  obtain ⟨fault, s', hrun, hsessions, htrace⟩ :=
    acceptResumeReverse_halts hf hstate (h.find_of_mem hmem) env nick position
  rw [endState_of_error hrun]
  rw [hcb'] at htrace
  exact ⟨⟨resumed .initPassive position, fun _ => ⟨rfl, rfl⟩, hsessions⟩, [], htrace⟩

theorem acceptResume_cases {port context : ℕ} {c : DccDownloadContext} {fd : FileIo}
    (h : Sound s) (hs : s.halted = none) (hf : newestByPort s port = some d)
    (hstate : d.state = .waitingForResumeAck) (hactive : d.passiveConnection = false)
    (hctx : d.ctx = some context) (hc : s.downloadContext[context]? = some c)
    (hfd : c.fd = some fd) (env : Env) (position : ℕ) :
    (∃ s', (acceptResume env port position).run s = .ok ⟨⟩ s' ∧
      ContinuesAt s s' d context fd position ∧ s'.files = s.files) ∨
    ¬ Grants env position d.ssl ∧
      ∃ s', (acceptResume env port position).run s = .error .exitPgm s' ∧ s'.files = s.files := by
  have hmem : d ∈ s.dccSessions := List.mem_of_find?_eq_some hf
  rw [acceptResume_run_of_active h hf hstate hactive, hctx]
  rcases callbackDccResumeFile_cases
    (s := called (acknowledgedSession s d.id position) d.id (some (.data .callbackDccResumeFile)))
    (find?_acknowledgedSession h hmem position) rfl hc hfd env position with
    ⟨net, l, hrun⟩ | ⟨hfailed, s', hrun, hfiles⟩
  · refine .inl ⟨_, hrun, ⟨hs, ?_, rfl⟩, rfl⟩
    rw [sessionOp_dccSessions]
    change updateSession d.id _ (updateSession d.id (resumed .init position) s.dccSessions) = _
    rw [updateSession_updateSession]
    · refine updateSession_congr fun e he hid => ?_
      rw [h.eq_of_find (h.find_of_mem hmem) he hid]
      simp [resumed, connectedAt, hctx]
    · exact fun _ => rfl
  · exact .inr ⟨hfailed, s', hrun, hfiles⟩

end lookups

/-- What an acknowledgement by port may do: an active session that waits goes on. -/
def AcknowledgedByPort (env : Env) (s s' : Client) (port position : ℕ) : Prop :=
  match newestByPort s port with
  | none => s'.dccSessions = s.dccSessions
  | some d =>
    if d.state = .waitingForResumeAck then
      d.passiveConnection = false →
        ResumesOnly s s' d.id position (.data .callbackDccResumeFile) ∧
        ∀ context c fd, d.ctx = some context → s.downloadContext[context]? = some c →
          c.fd = some fd → Grants env position d.ssl → ContinuesAt s s' d context fd position
    else s'.dccSessions = s.dccSessions

def AcknowledgedByToken (s s' : Client) (token position : ℕ) : Prop :=
  match newestByToken s token with
  | none => s'.dccSessions = s.dccSessions
  | some d =>
    if d.state = .waitingForResumeAck then
      ResumesOnly s s' d.id position (.reverse .callbackDccResumeFileReverse)
    else s'.dccSessions = s.dccSessions

section steps
variable {s : Client} {nick : Option Bytes} {env : Env} {position : ℕ}

theorem resumesOnly_of_handle {e : Event} {id : ℕ} {cb : Callback} (hs : s.halted = none)
    (h : ResumesOnly s (endState (handle e) s) id position cb) :
    ResumesOnly s (step s e) id position cb := by
  rcases step_eq_or hs e with heq | ⟨fault, heq⟩
  · rw [heq]
    exact h
  · rw [heq]
    exact ⟨h.sessions, h.called⟩

theorem dccSessions_step {e : Event} (hs : s.halted = none) :
    (step s e).dccSessions = (endState (handle e) s).dccSessions := by
  rcases step_eq_or hs e with heq | ⟨fault, heq⟩ <;> rw [heq]

theorem handle_acceptText (env : Env) (hnick : isValidRequestFromNick s.cfg nick = some true)
    {port : ℕ} (hport : port < 2 ^ 16) (hposition : position < 2 ^ 64) :
    (handle (.request env nick (acceptText port position))).run s =
      (acceptResume env port position).run s := by
  have hget : (get : ClientM Client).run s = .ok s s := rfl
  rw [handle, libircDccRequest, run_bind_of_ok hget, hnick]
  simp only [dccRequestCall_acceptText hport hposition]
  rfl

theorem handle_acceptReverseText (env : Env)
    (hnick : isValidRequestFromNick s.cfg nick = some true) {token : ℕ} (htoken : token < 2 ^ 64)
    (hposition : position < 2 ^ 64) :
    (handle (.request env nick (acceptReverseText position token))).run s =
      (acceptResumeReverse env nick position token).run s := by
  have hget : (get : ClientM Client).run s = .ok s s := rfl
  rw [handle, libircDccRequest, run_bind_of_ok hget, hnick]
  simp only [dccRequestCall_acceptReverseText hposition htoken]
  rfl

theorem acknowledgedByPort_step (h : Sound s) (hs : s.halted = none)
    (hnick : isValidRequestFromNick s.cfg nick = some true) {port : ℕ} (hport : port < 2 ^ 16)
    (hposition : position < 2 ^ 64) :
    AcknowledgedByPort env s (step s (.request env nick (acceptText port position))) port
      position := by
  have hhandle := handle_acceptText env hnick hport hposition
  have hend : endState (handle (.request env nick (acceptText port position))) s =
      endState (acceptResume env port position) s := by
    unfold endState
    rw [hhandle]
  have hsame (hnot : ∀ d, newestByPort s port = some d → d.state ≠ .waitingForResumeAck) :
      (step s (.request env nick (acceptText port position))).dccSessions = s.dccSessions := by
    obtain ⟨net, hrun⟩ := acceptResume_run_of_not_waiting hnot
    rw [dccSessions_step hs, hend, endState_of_ok hrun]
    rfl
  unfold AcknowledgedByPort
  cases hf : newestByPort s port with
  | none => exact hsame fun d hd => absurd (hf.symm.trans hd) (by simp)
  | some d =>
    dsimp only
    split
    · next hstate =>
      intro hactive
      refine ⟨resumesOnly_of_handle hs ?_, fun context c fd hctx hc hfd hgrants => ?_⟩
      · rw [hend]
        exact acceptResume_resumes h hf hstate hactive
      · rcases acceptResume_cases h hs hf hstate hactive hctx hc hfd env position with
          ⟨s', hrun, hcontinues, -⟩ | ⟨hfailed, -⟩
        · have hstep : step s (.request env nick (acceptText port position)) = s' := by
            unfold step
            rw [hs, hhandle, hrun]
          rw [hstep]
          exact hcontinues
        · exact absurd hgrants hfailed
    · next hstate =>
      refine hsame fun e he => ?_
      rw [← Option.some.inj (hf.symm.trans he)]
      exact hstate

theorem acknowledgedByToken_step (h : Sound s) (hs : s.halted = none)
    (hnick : isValidRequestFromNick s.cfg nick = some true) {token : ℕ} (htoken : token < 2 ^ 64)
    (hposition : position < 2 ^ 64) :
    AcknowledgedByToken s (step s (.request env nick (acceptReverseText position token))) token
      position := by
  have hend : endState (handle (.request env nick (acceptReverseText position token))) s =
      endState (acceptResumeReverse env nick position token) s := by
    unfold endState
    rw [handle_acceptReverseText env hnick htoken hposition]
  have hsame (hnot : ∀ d, newestByToken s token = some d → d.state ≠ .waitingForResumeAck) :
      (step s (.request env nick (acceptReverseText position token))).dccSessions =
        s.dccSessions := by
    rw [dccSessions_step hs, hend, acceptResumeReverse_of_not_waiting nick hnot]
  unfold AcknowledgedByToken
  cases hf : newestByToken s token with
  | none => exact hsame fun d hd => absurd (hf.symm.trans hd) (by simp)
  | some d =>
    dsimp only
    split
    · next hstate =>
      refine resumesOnly_of_handle hs ?_
      rw [hend]
      exact acceptResumeReverse_resumes h hf hstate nick
    · next hstate =>
      refine hsame fun e he => ?_
      rw [← Option.some.inj (hf.symm.trans he)]
      exact hstate

end steps

/-- In every state that a run reaches, an acknowledgement from any permitted nick reaches the
    newest session with its port, or the newest passive one with its token, and no other. -/
theorem acknowledgement_reaches_newest {cfg : XdccGetConfig} {net : Net}
    {files : Bytes → Option Bytes} {events : List Event} {s : Client}
    (hs : s = run step (initial cfg net files) events) (hrunning : s.halted = none)
    {nick : Option Bytes} (hnick : isValidRequestFromNick s.cfg nick = some true) (env : Env)
    {position : ℕ} (hposition : position < 2 ^ 64) :
    (∀ port < 2 ^ 16, AcknowledgedByPort env s
      (step s (.request env nick (acceptText port position))) port position) ∧
    ∀ token < 2 ^ 64, AcknowledgedByToken s
      (step s (.request env nick (acceptReverseText position token))) token position := by
  have h : Sound s := by
    rw [hs] at hrunning ⊢
    exact sound_of_running cfg net files events hrunning
  exact ⟨fun port hport => acknowledgedByPort_step h hrunning hnick hport hposition,
    fun token htoken => acknowledgedByToken_step h hrunning hnick htoken hposition⟩

/-- Two downloads are requested from two bots, and half of each file is there. -/
def twoBots : XdccGetConfig :=
  { oneBot false with
    dccDownloadArray :=
      some [{ botNick := bytes "bot", xdccCmd := bytes "xdcc send #1", md5 := none },
        { botNick := bytes "tob", xdccCmd := bytes "xdcc send #2", md5 := none }]
    numDownloads := 2 }

def request (nick text : String) : Event := .request readyEnv (some (bytes nick)) (bytes text)

def portShared : Client :=
  run step (initial twoBots connected fun _ => some (bytes "ab"))
    [request "bot" "DCC SEND a 16909060 5000 4", request "tob" "DCC SEND b 16909061 5000 4"]

theorem acknowledgement_reaches_newest_portShared :
    AcknowledgedByPort readyEnv portShared
      (step portShared (.request readyEnv (some (bytes "bot")) (acceptText 5000 2))) 5000 2 :=
  (acknowledgement_reaches_newest (s := portShared) rfl (by decide +kernel) (by decide +kernel)
    readyEnv (by decide)).1 5000 (by decide)

/-- The first bot echoes the RESUME for its session 1, and session 2 of the other bot is resumed. -/
theorem acknowledgement_resumes_other_bot :
    portShared.dccSessions.map (fun d => (d.id, d.state, d.fileConfirmOffset)) =
        [(2, .waitingForResumeAck, 0), (1, .waitingForResumeAck, 0)] ∧
      (step portShared (request "bot" "DCC ACCEPT file.ext 5000 2")).dccSessions.map
          (fun d => (d.id, d.state, d.fileConfirmOffset)) =
        [(2, .connecting, 2), (1, .waitingForResumeAck, 0)] := by
  decide +kernel

end Xdccget.ResumeAddressing
