import Xdccget.DccAccepts
import Xdccget.CallbackSteps

set_option autoImplicit false

/-!
# Resuming a passive session

The acknowledgement of a passive session writes `LIBIRC_STATE_INIT_PASSIVE`, and
the callback then asks `irc_dcc_accept_reverse` for a session that is in
`LIBIRC_STATE_INIT`. It never succeeds.
-/
namespace Xdccget.PassiveResume
open CText DccMessages DccAccepts ClientState DccSessions Downloads DccEvents HaltingPrograms
  SessionSpecs EventSpecs SessionCallbacks

/-- The session waits for its peer to connect and the offer has been answered. -/
structure PassiveResumed (id position : ℕ) (nick : Bytes) (token : ℕ) (s : Client) : Prop where
  running : s.halted = none
  session : ∀ d ∈ s.dccSessions, d.id = id →
    d.state = .initPassive ∧ d.cb = some .callbackDccRecvFile ∧ d.fileConfirmOffset = position
  answered : ∃ ip size, .queued (ctcpLine nick
    (dccSendReverseText (bytes "file.ext") ip s.cfg.listenPort size token)) ∈ s.trace

theorem acceptResumeReverse_cases {s : Client} {d : DccSession} (hd : d ∈ s.dccSessions)
    (hpassive : d.passiveConnection = true) (env : Env) (nick : Option Bytes) (size : ℕ) :
    (∃ fault s', (acceptResumeReverse env nick size d.token).run s = .error fault s') ∨
      ∃ net, (acceptResumeReverse env nick size d.token).run s = .ok ⟨⟩ (withNet s net) := by
  cases hf : s.dccSessions.find? (fun e => e.passiveConnection && decide (e.token = d.token)) with
  | none =>
    have hnone := List.find?_eq_none.mp hf d hd
    exact absurd (by simp [hpassive]) hnone
  | some e =>
    by_cases hstate : e.state = .waitingForResumeAck
    · have hmem : e ∈ s.dccSessions := List.mem_of_find?_eq_some hf
      obtain ⟨e', he'⟩ : ∃ e', s.dccSessions.find? (fun x => x.id = e.id) = some e' := by
        rw [← Option.isSome_iff_exists, List.find?_isSome]
        exact ⟨e, hmem, by simp⟩
      obtain ⟨fault, s', hrun, -⟩ := acceptResumeReverse_halts hf hstate he' env nick size
      exact .inl ⟨fault, s', hrun⟩
    · refine .inr ⟨lockedNet s.net, ?_⟩
      rw [acceptResumeReverse_eq, libircFindDccSessionByToken,
        run_bind_of_ok (libircFind_run_of_some hf)]
      simp only [ne_eq, hstate, not_false_eq_true, if_true, EStateM.run_pure]

/-- No acknowledgement resumes a passive session. -/
theorem passive_resume_never {s : Client} (hs : s.halted = none) {d : DccSession}
    (hd : d ∈ s.dccSessions) (hpassive : d.passiveConnection = true)
    (hstate : d.state = .waitingForResumeAck) (htoken : d.token < 2 ^ 64) {nick : Bytes}
    (hnick : isValidRequestFromNick s.cfg (some nick) = some true) {position : ℕ}
    (hposition : position < 2 ^ 64) (env : Env) :
    ¬ PassiveResumed d.id position nick d.token
      (step s (.request env (some nick) (acceptReverseText position d.token))) := by
  intro h
  have hget : (get : ClientM Client).run s = .ok s s := rfl
  have hhandle : (handle (.request env (some nick) (acceptReverseText position d.token))).run s =
      (acceptResumeReverse env (some nick) position d.token).run s := by
    rw [handle, libircDccRequest, run_bind_of_ok hget, hnick]
    simp only [dccRequestCall_acceptReverseText hposition htoken]
    rfl
  rcases acceptResumeReverse_cases hd hpassive env (some nick) position with
    ⟨fault, s', hrun⟩ | ⟨net, hrun⟩
  · have hhalted := h.running
    unfold step at hhalted
    rw [hs, hhandle, hrun] at hhalted
    exact absurd hhalted (by simp)
  · have hsession := h.session
    unfold step at hsession
    rw [hs, hhandle, hrun] at hsession
    have hpassiveInit := (hsession d hd rfl).1
    exact absurd (hstate.symm.trans hpassiveInit) (by simp)

/-- Half of the file is there and its reverse offer has been answered by a RESUME. -/
def halfOffered : Client :=
  step (initial (oneBot false) connected (oneFile (bytes "d/f") (bytes "ab")))
    (botRequest "DCC SEND f 16909060 0 4 7")

def waitingSession : DccSession :=
  { id := 1
    passiveConnection := true
    token := 7
    ctx := some 0
    sock := some 3
    state := .waitingForResumeAck
    ssl := false
    receivedFileSize := 0
    fileConfirmOffset := 0
    sinAddr := 16909060
    sinPort := 0
    cb := none
    reverseCb := some .callbackDccResumeFileReverse }

theorem halfOffered_waits :
    halfOffered.halted = none ∧ halfOffered.dccSessions = [waitingSession] := by
  decide +kernel

theorem passive_resume_never_half :
    ¬ PassiveResumed 1 2 (bytes "bot") 7
      (step halfOffered (.request readyEnv (some (bytes "bot")) (acceptReverseText 2 7))) :=
  passive_resume_never (d := waitingSession) halfOffered_waits.1
    (by rw [halfOffered_waits.2]; simp) rfl rfl (by decide) (by decide +kernel) (by decide) readyEnv

/-- The acknowledgement of the two bytes ends the process. -/
theorem acknowledged_half_exits :
    waitingSession ∈ halfOffered.dccSessions ∧
      (step halfOffered (botRequest "DCC ACCEPT file.ext 0 2 7")).halted = some .exitPgm := by
  rw [halfOffered_waits.2]
  exact ⟨by simp, by decide +kernel⟩

end Xdccget.PassiveResume
