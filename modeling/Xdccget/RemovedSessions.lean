import Xdccget.FreeCallbacks
import Xdccget.CallbackSteps

set_option autoImplicit false

/-!
# Removed sessions

A session is removed when its socket is closed, and stays so until it is unlinked, in every
run without a failing `accept` and without a callback that destroys the session whose data
it is handed.
-/
namespace Xdccget.RemovedSessions
open CText DccMessages ClientState DccSessions HaltingPrograms SessionSpecs StepRuns FreeCallbacks
open SocketTurns (Turn)
open TableChanges (exists_init_or_notInit)
open DccEvents (initial oneBot connected noFiles readyEnv)

/-- A session is in `LIBIRC_STATE_REMOVED` exactly when its socket is -1. -/
def Coherent (s : Client) : Prop := ∀ d ∈ s.dccSessions, d.state = .removed ↔ d.sock = none

def StaysRemoved (s s' : Client) : Prop :=
  ∀ d ∈ s.dccSessions, d.state = .removed → ∀ e ∈ s'.dccSessions, e.id = d.id → e.state = .removed

/-- The invariant, with the ids of sessions that were removed at an earlier time. -/
structure Good (dead : Set ℕ) (s : Client) : Prop where
  nodup : (s.dccSessions.map (·.id)).Nodup
  id_lt : ∀ d ∈ s.dccSessions, d.id < s.dccLastId
  coherent : Coherent s
  dead_lt : ∀ id ∈ dead, id < s.dccLastId
  removed : ∀ d ∈ s.dccSessions, d.id ∈ dead → d.state = .removed

section invariant
variable {dead : Set ℕ} {s s' : Client} {id : ℕ}

theorem Good.eq_of_find (h : Good dead s) {d e : DccSession}
    (hd : s.dccSessions.find? (fun d => d.id = id) = some d) (he : e ∈ s.dccSessions)
    (hid : e.id = id) : e = d := by
  have hmem : d ∈ s.dccSessions := List.mem_of_find?_eq_some hd
  have hdid : d.id = id := by simpa using List.find?_some hd
  exact List.inj_on_of_nodup_map h.nodup he hmem (hid.trans hdid.symm)

theorem Good.same (h : Good dead s) (hsessions : s'.dccSessions = s.dccSessions)
    (hlast : s'.dccLastId = s.dccLastId) : Good dead s' where
  nodup := hsessions ▸ h.nodup
  id_lt := hsessions ▸ hlast ▸ h.id_lt
  coherent := by
    unfold Coherent
    rw [hsessions]
    exact h.coherent
  dead_lt := hlast ▸ h.dead_lt
  removed := hsessions ▸ h.removed

theorem Good.operate (h : Good dead s) {f : DccSession → DccSession} (hid : ∀ d, (f d).id = d.id)
    (hf : ∀ d ∈ s.dccSessions, d.id = id →
      ((f d).state = .removed ↔ (f d).sock = none) ∧ (d.state = .removed → (f d).state = .removed))
    (hsessions : s'.dccSessions = updateSession id f s.dccSessions)
    (hlast : s'.dccLastId = s.dccLastId) : Good dead s' := by
  have hmem : ∀ d ∈ s'.dccSessions,
      (∃ e ∈ s.dccSessions, e.id = id ∧ d = f e) ∨ (d ∈ s.dccSessions ∧ d.id ≠ id) := by
    intro d hd
    exact mem_updateSession (hsessions ▸ hd)
  constructor
  · rw [hsessions, map_id_updateSession hid]
    exact h.nodup
  · intro d hd
    rw [hlast]
    rcases hmem d hd with ⟨e, he, -, rfl⟩ | ⟨hd, -⟩
    · rw [hid]
      exact h.id_lt e he
    · exact h.id_lt d hd
  · intro d hd
    rcases hmem d hd with ⟨e, he, heid, rfl⟩ | ⟨hd, -⟩
    · exact (hf e he heid).1
    · exact h.coherent d hd
  · rw [hlast]
    exact h.dead_lt
  · intro d hd hdead
    rcases hmem d hd with ⟨e, he, heid, rfl⟩ | ⟨hd, -⟩
    · rw [hid] at hdead
      exact (hf e he heid).2 (h.removed e he hdead)
    · exact h.removed d hd hdead

theorem Good.advance (h : Good dead s) {d : DccSession}
    (hd : s.dccSessions.find? (fun d => d.id = id) = some d) (hstate : d.state ≠ .removed)
    {f : DccSession → DccSession} (hid : ∀ d, (f d).id = d.id)
    (hf : (f d).sock = d.sock ∧ (f d).state ≠ .removed)
    (hsessions : s'.dccSessions = updateSession id f s.dccSessions)
    (hlast : s'.dccLastId = s.dccLastId) : Good dead s' := by
  refine h.operate hid (fun e he heid => ?_) hsessions hlast
  rw [h.eq_of_find hd he heid, hf.1]
  have hsock := h.coherent d (List.mem_of_find?_eq_some hd)
  exact ⟨by simp [hf.2, ← hsock, hstate], fun hremoved => absurd hremoved hstate⟩

theorem Good.remove (h : Good dead s) {f : DccSession → DccSession} (hid : ∀ d, (f d).id = d.id)
    (hf : ∀ d, (f d).sock = none ∧ (f d).state = .removed)
    (hsessions : s'.dccSessions = updateSession id f s.dccSessions)
    (hlast : s'.dccLastId = s.dccLastId) : Good dead s' := by
  refine h.operate hid (fun e _ _ => ?_) hsessions hlast
  simp [hf e]

end invariant

abbrev Preserves (P : Client → Prop) {α : Type} (x : ClientM α) : Prop := Ensures P x (fun _ => P) P

section operations
variable {dead : Set ℕ} {id : ℕ}

theorem setLasterror_good (err : ℕ) : Preserves (Good dead) (setLasterror err) :=
  ensures_modify fun _ h => h.same rfl rfl

theorem lock_good : Preserves (Good dead) libircMutexLock := ensures_modify fun _ h => h.same rfl rfl

theorem unlock_good : Preserves (Good dead) libircMutexUnlock :=
  ensures_modify fun _ h => h.same rfl rfl

theorem libircDccDestroyNolock_good : Preserves (Good dead) (libircDccDestroyNolock id) := by
  intro s h
  rw [libircDccDestroyNolock_run]
  exact h.remove (f := SessionSpecs.removed) (fun _ => rfl) (fun _ => ⟨rfl, rfl⟩) rfl rfl

theorem ircDccDestroy_good : Preserves (Good dead) (ircDccDestroy id) := by
  intro s h
  cases hf : s.dccSessions.find? (fun d => decide (d.id = id)) with
  | none =>
    rw [ircDccDestroy, libircFindDccSession, run_bind_of_ok (libircFind_run_of_none hf true)]
    exact h
  | some d =>
    rw [ircDccDestroy, libircFindDccSession, run_bind_of_ok (libircFind_run_of_some hf)]
    exact h.remove (f := SessionSpecs.removed) (fun _ => rfl) (fun _ => ⟨rfl, rfl⟩) rfl rfl

theorem perform_run_of_notInit {s : Client} (h : NotInit s id) {call : DccOperation}
    (hcall : call.destroys = false) :
    ∃ net, (call.perform id).run s = .ok 1 (withNet s net) := by
  cases call with
  | destroy => cases hcall
  | decline =>
    cases hf : s.dccSessions.find? (fun d => decide (d.id = id)) with
    | none =>
      refine ⟨s.net, ?_⟩
      rw [DccOperation.perform, ircDccDecline, libircFindDccSession,
        run_bind_of_ok (libircFind_run_of_none hf true)]
      rfl
    | some d =>
      have hstate : d.state ≠ .init := h d hf
      rw [DccOperation.perform, ircDccDecline, libircFindDccSession,
        run_bind_of_ok (libircFind_run_of_some hf)]
      simp [hstate, setLasterror, libircMutexUnlock, withNet]
  | accept env ctx callback => exact ircDccAccept_run_of_notInit h env ctx callback
  | resume ctx callback nick filePosition =>
    exact ircDccResume_run_of_notInit h ctx callback nick filePosition
  | acceptReverse env ctx callback nick filename size token =>
    exact ircDccAcceptReverse_run_of_notInit h env ctx callback nick filename size token
  | resumeReverse ctx callback nick filePosition token =>
    exact ircDccResumeReverse_run_of_notInit h ctx callback nick filePosition token

theorem perform_run_of_init {s : Client} (h : Good dead s) {d : DccSession}
    (hd : s.dccSessions.find? (fun d => d.id = id) = some d) (hinit : d.state = .init)
    {call : DccOperation} (hcall : call.destroys = false) :
    ∃ ret s', (call.perform id).run s = .ok ret s' ∧ Good dead s' := by
  have hstate : d.state ≠ .removed := by simp [hinit]
  cases call with
  | destroy => cases hcall
  | decline =>
    rw [DccOperation.perform, ircDccDecline, libircFindDccSession,
      run_bind_of_ok (libircFind_run_of_some hd)]
    simp only [hinit, ne_eq, not_true_eq_false, if_false, EStateM.run_bind,
      libircDccDestroyNolock_run, libircMutexUnlock, EStateM.run_modify, EStateM.run_pure]
    exact ⟨_, _, rfl, h.remove (f := SessionSpecs.removed) (fun _ => rfl) (fun _ => ⟨rfl, rfl⟩) rfl rfl⟩
  | accept env ctx callback =>
    obtain ⟨ret, net, f, hrun, haccepted⟩ := ircDccAccept_run hd hinit env ctx callback
    refine ⟨ret, _, hrun, ?_⟩
    cases haccepted with
    | done _ _ =>
      refine h.advance hd hstate (by exact fun _ => rfl) ⟨rfl, ?_⟩ rfl rfl
      cases d.ssl <;> simp
    | refused _ => exact h.remove (by exact fun _ => rfl) (fun _ => ⟨rfl, rfl⟩) rfl rfl
    | noHandshake _ _ => exact h.advance hd hstate (by exact fun _ => rfl) ⟨rfl, hstate⟩ rfl rfl
  | resume ctx callback nick filePosition =>
    obtain ⟨net, l, hrun, -⟩ := ircDccResume_run hd hinit ctx callback nick filePosition
    exact ⟨_, _, hrun, h.advance hd hstate (by exact fun _ => rfl) ⟨rfl, by simp⟩ rfl rfl⟩
  | acceptReverse env ctx callback nick filename size token =>
    rcases ircDccAcceptReverse_run hd hinit env ctx callback nick filename size token with
      ⟨-, net, hrun⟩ | ⟨addr, net, l, -, hrun, -⟩
    · exact ⟨_, _, hrun, h.same rfl rfl⟩
    · exact ⟨_, _, hrun, h.advance hd hstate (by exact fun _ => rfl) ⟨rfl, by simp⟩ rfl rfl⟩
  | resumeReverse ctx callback nick filePosition token =>
    obtain ⟨net, l, hrun, -⟩ :=
      ircDccResumeReverse_run hd hinit ctx callback nick filePosition token
    exact ⟨_, _, hrun, h.advance hd hstate (by exact fun _ => rfl) ⟨rfl, by simp⟩ rfl rfl⟩

theorem perform_good (call : DccOperation) : Preserves (Good dead) (call.perform id) := by
  cases hcall : call.destroys with
  | true =>
    cases call with
    | destroy => exact ircDccDestroy_good
    | _ => cases hcall
  | false =>
    intro s h
    rcases exists_init_or_notInit s id with ⟨d, hd, hinit⟩ | hnot
    · obtain ⟨ret, s', hrun, hgood⟩ := perform_run_of_init h hd hinit hcall
      rw [hrun]
      exact hgood
    · obtain ⟨net, hrun⟩ := perform_run_of_notInit hnot hcall
      rw [hrun]
      exact h.same rfl rfl

theorem performAll_good (calls : List DccOperation) : Preserves (Good dead) (performAll id calls) := by
  induction calls with
  | nil => exact ensures_pure fun _ h => h
  | cons call calls ih => exact ensures_bind (ensures_discard (perform_good call)) fun _ => ih

theorem invoke_good {s : Client} (hs : Good dead s) (calls : List DccOperation) (c : Prop) [Decidable c] :
    Ensures (fun t => t = s)
      (if c then throw Halt.nullCallback >>= fun _ : PUnit => performAll id calls else performAll id calls)
      (fun _ => Good dead) (Good dead) := by
  have hcalls : Ensures (fun t => t = s) (performAll id calls) (fun _ => Good dead) (Good dead) :=
    (performAll_good calls).weaken (fun _ ht => ht ▸ hs) (fun _ _ h => h) fun _ h => h
  exact ensures_ite (fun _ => ensures_bind (ensures_throw fun _ ht => ht ▸ hs) fun _ => hcalls)
    fun _ => hcalls

theorem callCb_good (calls : List DccOperation) : Preserves (Good dead) (callCb id calls) := by
  refine ensures_get_bind fun s hs => ?_
  cases s.dccSessions.find? (fun d => decide (d.id = id)) with
  | none => exact ensures_pure fun _ ht => ht ▸ hs
  | some d => exact invoke_good hs calls (d.cb.isNone = true)

end operations

section requests
variable {dead : Set ℕ}

theorem good_withSession {s : Client} (h : Good dead s) (net : Net) (sock ip port : ℕ) (ssl : Bool) :
    Good dead (withSession s net (newSession s.dccLastId sock ip port none ssl)) := by
  constructor
  · rw [withSession_dccSessions, List.map_cons, List.nodup_cons]
    refine ⟨fun hmem => ?_, h.nodup⟩
    obtain ⟨d, hd, hid⟩ := List.mem_map.mp hmem
    exact absurd hid (h.id_lt d hd).ne
  · intro d hd
    rw [withSession_dccLastId]
    rcases List.mem_cons.mp hd with rfl | hd
    · exact Nat.lt_succ_self _
    · exact (h.id_lt d hd).trans (Nat.lt_succ_self _)
  · intro d hd
    rcases List.mem_cons.mp hd with rfl | hd
    · simp [newSession]
    · exact h.coherent d hd
  · intro id hid
    exact (h.dead_lt id hid).trans (Nat.lt_succ_self _)
  · intro d hd hdead
    rcases List.mem_cons.mp hd with rfl | hd
    · exact absurd (h.dead_lt _ hdead) (lt_irrefl _)
    · exact h.removed d hd hdead

theorem newDccSession_good (env : Env) (ip port : ℕ) (ssl : Bool) :
    Preserves (Good dead) (libircNewDccSession env ip port none ssl) := by
  intro s h
  by_cases hopen : CanOpen env ssl s
  · obtain ⟨sock, net, hnew⟩ := libircNewDccSession_run_of_canOpen hopen ip port none
    rw [hnew]
    exact good_withSession h net sock ip port ssl
  · rcases libircNewDccSession_run_of_not_canOpen hopen ip port none with hnew | hnew
    · rw [hnew]
      exact h
    · rw [hnew]
      exact h

theorem modifySession_good {id : ℕ} {f : DccSession → DccSession} (hid : ∀ d, (f d).id = d.id)
    (hf : ∀ d, (f d).state = d.state ∧ (f d).sock = d.sock) :
    Preserves (Good dead) (modifySession id f) := by
  refine ensures_modify fun s h => h.operate hid (fun d hd _ => ?_) rfl rfl
  rw [(hf d).1, (hf d).2]
  exact ⟨h.coherent d hd, fun h => h⟩

theorem acceptDccSend_good (env : Env) (filename : Bytes) (ip size port : ℕ) (ssl : Bool)
    (calls : List DccOperation) :
    Preserves (Good dead) ((requests env calls).acceptDccSend filename ip size port ssl) := by
  refine ensures_bind (newDccSession_good env ip port ssl) fun created => ?_
  cases created with
  | error err => exact setLasterror_good err
  | ok id =>
    refine ensures_bind (performAll_good calls) fun _ => ?_
    exact modifySession_good (fun _ => rfl) fun _ => ⟨rfl, rfl⟩

theorem acceptReverseDccSend_good (env : Env) (filename : Bytes) (ip size token : ℕ) (ssl : Bool)
    (calls : List DccOperation) :
    Preserves (Good dead) ((requests env calls).acceptReverseDccSend filename ip size token ssl) := by
  have hfail (err : ℕ) : Preserves (Good dead) (do setLasterror err; return) :=
    ensures_bind (setLasterror_good err) fun _ => ensures_pure fun _ h => h
  refine ensures_bind (newDccSession_good env ip 0 ssl) fun created => ?_
  cases created with
  | error err => exact setLasterror_good err
  | ok id =>
    have hrest : Preserves (Good dead) (do
        if !env.bind then
          setLasterror libircBindFailed
          return
        if !env.listen then
          setLasterror libircListenFailed
          return
        performAll id calls) :=
      ensures_ite (fun _ => hfail _) fun _ =>
        ensures_ite (fun _ => hfail _) fun _ => performAll_good calls
    exact ensures_bind (modifySession_good (fun _ => rfl) fun _ => ⟨rfl, rfl⟩) fun _ => hrest

def Live (dead : Set ℕ) (id : ℕ) (s : Client) : Prop :=
  Good dead s ∧ ∃ d, s.dccSessions.find? (fun d => d.id = id) = some d ∧ d.state ≠ .removed

theorem setState_good {id : ℕ} {f : DccSession → DccSession} (hid : ∀ d, (f d).id = d.id)
    (hf : ∀ d, (f d).sock = d.sock ∧ (f d).state ≠ .removed) :
    Ensures (Live dead id) (modifySession id f) (fun _ => Good dead) (Good dead) :=
  ensures_modify fun _ ⟨h, d, hd, hstate⟩ => h.advance hd hstate hid (hf d) rfl rfl

theorem Good.find_of_mem {s : Client} (h : Good dead s) {d : DccSession} (hd : d ∈ s.dccSessions) :
    s.dccSessions.find? (fun e => e.id = d.id) = some d := by
  cases hf : s.dccSessions.find? (fun e => decide (e.id = d.id)) with
  | none => exact absurd hd fun hmem => by simpa using List.find?_eq_none.mp hf d hmem
  | some e => rw [h.eq_of_find hf hd rfl]

theorem acknowledge_good {found : DccSession → Bool} {state : LibircState}
    (hstate : state ≠ .removed) (size : ℕ) {call : ℕ → ClientM Unit}
    (hcall : ∀ id, Preserves (Good dead) (call id)) :
    Preserves (Good dead) (do
      match ← libircFind found true with
      | none => return
      | some dcc =>
        if dcc.state ≠ .waitingForResumeAck then
          return
        modifySession dcc.id fun d => { d with state := state, fileConfirmOffset := size }
        libircMutexUnlock
        call dcc.id) := by
  have hfound : Ensures (Good dead) (libircFind found true)
      (fun d s => Good dead s ∧ ∀ e, d = some e → e ∈ s.dccSessions) (Good dead) := by
    intro s h
    cases hf : s.dccSessions.find? found with
    | none =>
      rw [libircFind_run_of_none hf]
      exact ⟨h, by simp⟩
    | some d =>
      rw [libircFind_run_of_some hf]
      refine ⟨h.same rfl rfl, fun e he => ?_⟩
      rw [← Option.some.inj he]
      exact List.mem_of_find?_eq_some hf
  refine ensures_bind hfound fun d => ?_
  cases d with
  | none => exact ensures_pure fun _ h => h.1
  | some d =>
    refine ensures_ite (fun _ => ensures_pure fun _ h => h.1) fun hwaiting => ?_
    have hlive : ∀ s, (Good dead s ∧ ∀ e, some d = some e → e ∈ s.dccSessions) → Live dead d.id s := by
      intro s ⟨h, hmem⟩
      refine ⟨h, d, h.find_of_mem (hmem d rfl), ?_⟩
      rw [not_not.mp hwaiting]
      simp
    refine ensures_bind (R := fun _ => Good dead) ?_ fun _ => ?_
    · have hwrite := @setState_good dead d.id
        (fun d => { d with state := state, fileConfirmOffset := size }) (fun _ => rfl)
        fun _ => ⟨rfl, hstate⟩
      exact hwrite.weaken hlive (fun _ _ h => h) fun _ h => h
    · exact ensures_bind unlock_good fun _ => hcall d.id

theorem callReverseCb_good {id : ℕ} (calls : List DccOperation) :
    Preserves (Good dead) (callReverseCb id calls) := by
  refine ensures_get_bind fun s hs => ?_
  cases s.dccSessions.find? (fun d => decide (d.id = id)) with
  | none => exact ensures_pure fun _ ht => ht ▸ hs
  | some d => exact invoke_good hs calls (d.reverseCb.isNone = true)

theorem acceptResumeReverse_good (env : Env) (size token : ℕ) (calls : List DccOperation) :
    Preserves (Good dead) ((requests env calls).acceptResumeReverse size token) := by
  have hpassive : LibircState.initPassive ≠ .removed := by simp
  exact acknowledge_good hpassive size fun id => @callReverseCb_good dead id calls

theorem acceptResume_good (env : Env) (port size : ℕ) (calls : List DccOperation) :
    Preserves (Good dead) ((requests env calls).acceptResume port size) := by
  have hinit : LibircState.init ≠ .removed := by simp
  exact acknowledge_good hinit size fun id => @callCb_good dead id calls

theorem libircDccRequest_good (env : Env) (verified : Bool) (req : Bytes)
    (calls : List DccOperation) :
    Preserves (Good dead) (libircDccRequest env verified req calls) := by
  unfold libircDccRequest
  cases dccRequestCall verified req with
  | acceptReverseDccSend filename ip size token ssl => exact acceptReverseDccSend_good _ _ _ _ _ _ _
  | acceptDccSend filename ip size port ssl => exact acceptDccSend_good _ _ _ _ _ _ _
  | acceptResumeReverse size token => exact acceptResumeReverse_good env size token calls
  | acceptResume port size => exact acceptResume_good env port size calls
  | unhandled => exact ensures_pure fun _ h => h
  | ignored => exact ensures_pure fun _ h => h

end requests

/-- No callback destroys the session whose data it is handed. With SSL the loop goes on. -/
def spares (ssl : Bool) : List RecvResult → Bool
  | [] => true
  | .again :: more => ssl || spares ssl more
  | .wantWrite :: more => ssl || spares ssl more
  | .error _ :: _ => true
  | .closed _ :: _ => true
  | .data _ calls :: more => !calls.any (·.destroys) && (!ssl || spares ssl more)

/-- The session receives: it has a callback, and is neither new nor removed. -/
structure Open (dead : Set ℕ) (id : ℕ) (d : DccSession) (s : Client) : Prop where
  good : Good dead s
  found : ∃ e, s.dccSessions.find? (fun d => d.id = id) = some e ∧ e.cb = d.cb ∧
    e.state ≠ .removed ∧ e.state ≠ .init

section turns
variable {dead : Set ℕ} {id : ℕ} {d : DccSession}

theorem Open.live {s : Client} (h : Open dead id d s) : Live dead id s := by
  obtain ⟨e, he, -, hstate, -⟩ := h.found
  exact ⟨h.good, e, he, hstate⟩

theorem Open.same {s s' : Client} (h : Open dead id d s) (hsessions : s'.dccSessions = s.dccSessions)
    (hlast : s'.dccLastId = s.dccLastId) : Open dead id d s' :=
  ⟨h.good.same hsessions hlast, by rw [hsessions]; exact h.found⟩

theorem modifySession_open {f : DccSession → DccSession} (hid : ∀ d, (f d).id = d.id)
    (hf : ∀ d, (f d).cb = d.cb ∧ (f d).sock = d.sock)
    (hstate : ∀ d, d.state ≠ .removed ∧ d.state ≠ .init →
      (f d).state ≠ .removed ∧ (f d).state ≠ .init) :
    Preserves (Open dead id d) (modifySession id f) := by
  refine ensures_modify fun s h => ?_
  obtain ⟨e, he, hcb, hremoved, hinit⟩ := h.found
  have hnew := hstate e ⟨hremoved, hinit⟩
  refine ⟨h.good.advance he hremoved hid ⟨(hf e).2, hnew.1⟩ rfl rfl, f e, ?_, ?_, hnew⟩
  · change (updateSession id f s.dccSessions).find? _ = _
    rw [find?_updateSession hid, he]
    rfl
  · rw [(hf e).1, hcb]

theorem performAll_open {calls : List DccOperation} (hcalls : calls.any (·.destroys) = false) :
    Preserves (Open dead id d) (performAll id calls) := by
  induction calls with
  | nil => exact ensures_pure fun _ h => h
  | cons call calls ih =>
    rw [List.any_cons, Bool.or_eq_false_iff] at hcalls
    refine ensures_bind (ensures_discard fun s h => ?_) fun _ => ih hcalls.2
    obtain ⟨e, he, -, -, hinit⟩ := h.found
    have hnot : NotInit s id := by
      intro e' he'
      rw [← Option.some.inj (he.symm.trans he')]
      exact hinit
    obtain ⟨net, hrun⟩ := perform_run_of_notInit hnot hcalls.1
    rw [hrun]
    exact h.same rfl rfl

theorem callCb_open {calls : List DccOperation} (hcalls : calls.any (·.destroys) = false) :
    Preserves (Open dead id d) (callCb id calls) := by
  refine ensures_get_bind fun s hs => ?_
  cases s.dccSessions.find? (fun d => decide (d.id = id)) with
  | none => exact ensures_pure fun _ ht => ht ▸ hs
  | some e =>
    have hopen : Ensures (fun t => t = s) (performAll id calls) (fun _ => Open dead id d)
        (Open dead id d) :=
      (performAll_open hcalls).weaken (fun _ ht => ht ▸ hs) (fun _ _ h => h) fun _ h => h
    exact ensures_ite (fun _ => ensures_bind (ensures_throw fun _ ht => ht ▸ hs) fun _ => hopen)
      fun _ => hopen

theorem callCb_of_null {calls : List DccOperation} (hd : d.cb = none) :
    Ensures (Open dead id d) (callCb id calls) (fun _ _ => False) (Open dead id d) := by
  intro s h
  obtain ⟨e, he, hcb, -⟩ := h.found
  have hget : (get : ClientM Client).run s = .ok s s := rfl
  rw [callCb, run_bind_of_ok hget, he]
  simp only [hcb, hd, Option.isNone_none, if_true]
  exact h

theorem lock_open : Preserves (Open dead id d) libircMutexLock :=
  ensures_modify fun _ h => h.same rfl rfl

theorem unlock_open : Preserves (Open dead id d) libircMutexUnlock :=
  ensures_modify fun _ h => h.same rfl rfl

theorem receiveChunk_open (length : ℕ) {calls : List DccOperation}
    (hcalls : d.cb ≠ none → calls.any (·.destroys) = false) :
    Preserves (Open dead id d) ((turn id).receiveChunk length (callCb id calls)) := by
  have hafter : Preserves (Open dead id d) (do
      let dontConfirm := (← get).cfg.dontConfirmOffsets
      modifySession id fun d => { d with state := if dontConfirm then .connected else .confirmSize }
      libircMutexLock) := by
    refine ensures_get_bind fun s hs => ?_
    refine ensures_bind (R := fun _ => Open dead id d) ?_ fun _ => lock_open
    let f : DccSession → DccSession := fun d =>
      { d with state := if s.cfg.dontConfirmOffsets then .connected else .confirmSize }
    have hwrite : Preserves (Open dead id d) (modifySession id f) := by
      refine modifySession_open (fun _ => rfl) (fun _ => ⟨rfl, rfl⟩) fun d _ => ?_
      cases hconfirm : s.cfg.dontConfirmOffsets <;> simp [f, hconfirm]
    exact hwrite.weaken (fun t ht => ht ▸ hs) (fun _ _ h => h) fun _ h => h
  refine ensures_bind unlock_open fun _ => ?_
  refine ensures_bind (modifySession_open (fun _ => rfl) (fun _ => ⟨rfl, rfl⟩) fun _ h => h) fun _ => ?_
  by_cases hd : d.cb = none
  · exact ensures_bind (callCb_of_null hd) fun _ s h => h.elim
  · exact ensures_bind (callCb_open (hcalls hd)) fun _ => hafter

theorem receiveFailed_good (calls : List DccOperation) :
    Preserves (Good dead) ((turn id).receiveFailed (callCb id calls)) := by
  refine ensures_bind unlock_good fun _ => ?_
  refine ensures_bind (callCb_good calls) fun _ => ?_
  exact ensures_bind lock_good fun _ => libircDccDestroyNolock_good

theorem good_of_open {P : Client → Prop} {x : ClientM Unit} (h : Preserves (Good dead) x)
    (hP : ∀ s, P s → Good dead s) : Ensures P x (fun _ => Good dead) (Good dead) :=
  h.weaken hP (fun _ _ h => h) fun _ h => h

theorem recvDccFile_good (ssl : Bool) (results : List RecvResult)
    (hspares : d.cb ≠ none → spares ssl results = true) :
    Ensures (Open dead id d) ((turn id).recvDccFile ssl (results.map (·.turn (callCb id))))
      (fun _ => Good dead) (Good dead) := by
  have hpure : Ensures (Open dead id d) (pure () : ClientM Unit) (fun _ => Good dead) (Good dead) :=
    ensures_pure fun _ h => h.good
  induction results with
  | nil => exact hpure
  | cons result more ih =>
    cases result with
    | again =>
      refine ensures_ite (fun _ => hpure) fun hssl => ih fun hd => ?_
      simpa [spares, hssl] using hspares hd
    | wantWrite =>
      refine ensures_ite (fun _ => ?_) fun hssl => ih fun hd => ?_
      · have hwrite := @setState_good dead id
          (fun d => { d with state := .confirmSize }) (fun _ => rfl) fun _ => ⟨rfl, by simp⟩
        exact hwrite.weaken (fun _ h => h.live) (fun _ _ h => h) fun _ h => h
      · simpa [spares, hssl] using hspares hd
    | error calls => exact good_of_open (receiveFailed_good calls) fun _ h => h.good
    | closed calls => exact good_of_open (receiveFailed_good calls) fun _ h => h.good
    | data length calls =>
      have hboth : d.cb ≠ none → calls.any (·.destroys) = false ∧ (ssl = true → spares ssl more = true) := by
        intro hd
        have h := hspares hd
        simp only [spares, Bool.and_eq_true, Bool.not_eq_true'] at h
        exact ⟨h.1, fun hssl => by simpa [hssl] using h.2⟩
      have hchunk : Preserves (Open dead id d) ((turn id).receiveChunk length (callCb id calls)) :=
        receiveChunk_open length fun hd => (hboth hd).1
      refine ensures_bind (hchunk.weaken (fun _ h => h) (fun _ _ h => h) fun _ h => h.good) fun _ => ?_
      exact ensures_ite (fun hssl => ih fun hd => (hboth hd).2 hssl) fun _ => hpure

theorem sendCurrentFileOffsetToSender_good (result : SendResult) :
    Ensures (Live dead d.id)
      ((turn d.id).sendCurrentFileOffsetToSender d (result.turn (callCb d.id)))
      (fun _ => Good dead) (Good dead) := by
  have hpure : Ensures (Live dead d.id) (pure () : ClientM Unit) (fun _ => Good dead) (Good dead) :=
    ensures_pure fun _ h => h.1
  have hconnected : Ensures (Live dead d.id)
      (modifySession d.id fun d => { d with state := .connected }) (fun _ => Good dead)
      (Good dead) := setState_good (fun _ => rfl) fun _ => ⟨rfl, by simp⟩
  have hreport (calls : List DccOperation) : Ensures (Live dead d.id) (do
      libircMutexUnlock
      callCb d.id calls
      libircMutexLock) (fun _ => Good dead) (Good dead) := by
    refine good_of_open ?_ fun _ h => h.1
    refine ensures_bind unlock_good fun _ => ?_
    exact ensures_bind (callCb_good calls) fun _ => lock_good
  cases result with
  | again => exact hpure
  | wantRead => exact ensures_ite (fun _ => hconnected) fun _ => hpure
  | error calls => exact hreport calls
  | sent len calls =>
    cases len with
    | zero => exact hreport calls
    | succ len =>
      refine ensures_ite (fun _ => ?_) fun _ => hconnected
      exact good_of_open (receiveFailed_good calls) fun _ h => h.1

end turns

/-- The turn of a session neither fails to accept its peer nor destroys the session from within
    the callback for its data. -/
def SparesTurn (sessions : List DccSession) (dccid : ℕ) (ready : SocketReady) : Prop :=
  ∀ d, sessions.find? (fun d => d.id = dccid) = some d →
    match d.state, ready with
    | .connected, .receiving results => d.cb ≠ none → spares d.ssl results = true
    | .initPassive, .accepting sock => sock ≠ none
    | _, _ => True

def Sparing (s : Client) : Event → Prop
  | .socket dccid ready => s.halted = none → SparesTurn s.dccSessions dccid ready
  | _ => True

section steps
variable {dead : Set ℕ} {s : Client}

theorem processDescriptor_good {id : ℕ} {ready : SocketReady} :
    Ensures (fun s => Good dead s ∧ SparesTurn s.dccSessions id ready) (processDescriptor id ready)
      (fun _ => Good dead) (Good dead) := by
  let P : Client → Prop := fun s => Good dead s ∧ SparesTurn s.dccSessions id ready
  have hlookup : Ensures P (libircFindDccSession id false)
      (fun found s => P s ∧ s.dccSessions.find? (fun d => d.id = id) = found) (Good dead) := by
    intro s h
    rw [libircFindDccSession, libircFind_run_nolock]
    exact ⟨h, rfl⟩
  refine ensures_bind hlookup fun found => ?_
  cases found with
  | none => exact ensures_pure fun _ h => h.1.1
  | some d =>
    have hlive (hstate : d.state ≠ .removed) : ∀ s, P s ∧
        s.dccSessions.find? (fun d => d.id = id) = some d → Live dead id s :=
      fun s h => ⟨h.1.1, d, h.2, hstate⟩
    intro s h
    obtain rfl : d.id = id := by simpa using List.find?_some h.2
    have hturn := h.1.2 d h.2
    dsimp only
    unfold Turn.processDescriptor
    cases hstate : d.state with
    | connecting =>
      cases ready with
      | connecting getpeername =>
        have hconnected := @setState_good dead d.id (fun d => { d with state := .connected })
          (fun _ => rfl) fun _ => ⟨rfl, by simp⟩
        have hdone := hconnected.weaken (hlive (by simp [hstate])) (fun _ _ h => h) fun _ h => h
        refine ensures_ite (fun _ => hdone) (fun _ => ?_) s h
        exact good_of_open libircDccDestroyNolock_good fun _ h => h.1.1
      | _ => exact h.1.1
    | connected =>
      cases ready with
      | receiving results =>
        rw [hstate] at hturn
        exact recvDccFile_good d.ssl results hturn s
          ⟨h.1.1, d, h.2, rfl, by simp [hstate], by simp [hstate]⟩
      | _ => exact h.1.1
    | confirmSize =>
      cases ready with
      | confirming result =>
        exact sendCurrentFileOffsetToSender_good result s (hlive (by simp [hstate]) s h)
      | _ => exact h.1.1
    | initPassive =>
      cases ready with
      | accepting sock =>
        rw [hstate] at hturn
        have hsock : sock ≠ none := hturn
        refine h.1.1.operate (f := fun d => { d with sock := sock, state := .connected })
          (fun _ => rfl) (fun e he heid => ?_) rfl rfl
        rw [h.1.1.eq_of_find h.2 he heid, hstate]
        simp [hsock]
      | _ => exact h.1.1
    | _ => exact h.1.1

theorem handle_good (e : Event) :
    Ensures (fun s => Good dead s ∧ s.halted = none ∧ Sparing s e) (handle e) (fun _ => Good dead)
      (Good dead) := by
  cases e with
  | request env verified req calls =>
    exact good_of_open (libircDccRequest_good env verified req calls) fun _ h => h.1
  | operation dccid call => exact good_of_open (ensures_discard (perform_good call)) fun _ h => h.1
  | socket dccid ready =>
    have hlock : Ensures (fun s => Good dead s ∧ s.halted = none ∧ Sparing s (.socket dccid ready))
        libircMutexLock (fun _ s => Good dead s ∧ SparesTurn s.dccSessions dccid ready) (Good dead) :=
      ensures_modify fun s h => ⟨h.1.same rfl rfl, h.2.2 h.2.1⟩
    exact ensures_bind hlock fun _ => ensures_bind processDescriptor_good fun _ => unlock_good
  | addDescriptors =>
    refine ensures_modify fun s h => ?_
    have hsub : List.Sublist (s.dccSessions.filter fun d => d.state ≠ .removed) s.dccSessions :=
      List.filter_sublist
    exact ⟨h.1.nodup.sublist (hsub.map _), fun d hd => h.1.id_lt d (hsub.subset hd),
      fun d hd => h.1.coherent d (hsub.subset hd), h.1.dead_lt,
      fun d hd => h.1.removed d (hsub.subset hd)⟩

theorem step_good (e : Event) (h : Good dead s) (hsparing : Sparing s e) : Good dead (step s e) := by
  unfold step
  cases hs : s.halted with
  | some fault => exact h
  | none =>
    have hhandle := handle_good e s ⟨h, hs, hsparing⟩
    cases hrun : (handle e).run s with
    | ok a s' =>
      rw [hrun] at hhandle
      exact hhandle
    | error fault s' =>
      rw [hrun] at hhandle
      exact hhandle.same rfl rfl

theorem run_good {events : List Event} (h : Good dead s) (hall : AllAlong step Sparing s events) :
    Good dead (run step s events) :=
  run_invariant_of_allAlong (fun _ e h hsparing => step_good e h hsparing) h hall

theorem good_initial (cfg : XdccGetConfig) (net : Net) (files : Bytes → Option Bytes) :
    Good ∅ (initial cfg net files) where
  nodup := List.nodup_nil
  id_lt := by simp [initial]
  coherent := by simp [Coherent, initial]
  dead_lt := by simp
  removed := by simp

theorem Good.follow (h : Good dead s) :
    Good {id | ∃ d ∈ s.dccSessions, d.id = id ∧ d.state = .removed} s where
  nodup := h.nodup
  id_lt := h.id_lt
  coherent := h.coherent
  dead_lt := by
    rintro id ⟨d, hd, rfl, -⟩
    exact h.id_lt d hd
  removed := by
    rintro d hd ⟨e, he, hid, hstate⟩
    rw [← List.inj_on_of_nodup_map h.nodup he hd hid]
    exact hstate

end steps

/-- In a run whose turns all spare their sessions, being removed and having no socket are the
    same in every state, and what is removed stays so until it is unlinked. -/
theorem removed_iff_closed {cfg : XdccGetConfig} {net : Net} {files : Bytes → Option Bytes}
    {before after : List Event}
    (hall : AllAlong step Sparing (initial cfg net files) (before ++ after)) :
    Coherent (run step (initial cfg net files) (before ++ after)) ∧
      StaysRemoved (run step (initial cfg net files) before)
        (run step (initial cfg net files) (before ++ after)) := by
  obtain ⟨hbefore, hafter⟩ := allAlong_append.mp hall
  have hmiddle := run_good (good_initial cfg net files) hbefore
  have hlast := run_good hmiddle.follow hafter
  rw [run_append]
  refine ⟨hlast.coherent, fun d hd hstate e he hid => ?_⟩
  exact hlast.removed e he ⟨d, hd, hid.symm, hstate⟩

def accepted : Event :=
  .request readyEnv true (bytes "DCC SEND f 16909060 5000 4") [.accept readyEnv none .callbackDccRecvFile]

def acceptedReverse : Event :=
  .request readyEnv true (bytes "DCC SEND f 16909060 0 4 7")
    [.acceptReverse readyEnv none .callbackDccRecvFile (some (bytes "bot")) (bytes "f") 4 7]

/-- The session receives two bytes and is destroyed between two turns. -/
theorem removed_iff_closed_destroyed :
    Coherent (run step (initial (oneBot false) connected noFiles)
        ([accepted, .socket 1 (.connecting true), .socket 1 (.receiving [.data 2 []]),
          .operation 1 .destroy] ++ [.socket 1 (.confirming (.error [])), .addDescriptors])) ∧
      StaysRemoved
        (run step (initial (oneBot false) connected noFiles)
          [accepted, .socket 1 (.connecting true), .socket 1 (.receiving [.data 2 []]),
            .operation 1 .destroy])
        (run step (initial (oneBot false) connected noFiles)
          ([accepted, .socket 1 (.connecting true), .socket 1 (.receiving [.data 2 []]),
            .operation 1 .destroy] ++ [.socket 1 (.confirming (.error [])), .addDescriptors])) := by
  have hturn (sessions : List DccSession) (id : ℕ) (ready : SocketReady)
      (hready : ready = .connecting true ∨ ready = .receiving [.data 2 []] ∨
        ready = .confirming (.error [])) : SparesTurn sessions id ready := by
    rintro d -
    rcases hready with rfl | rfl | rfl <;> cases d.state <;> simp [spares]
  refine removed_iff_closed ⟨trivial, fun _ => hturn _ _ _ ?_, fun _ => hturn _ _ _ ?_, trivial,
    fun _ => hturn _ _ _ ?_, trivial, trivial⟩ <;> simp

/-- The peer of a passive session is gone before it is accepted: the session is connected to -1. -/
theorem failed_accept_stays_connected :
    ¬ Coherent (run step (initial (oneBot false) connected noFiles)
      [acceptedReverse, .socket 1 (.accepting none)]) := by
  intro h
  have hsession : ∃ d ∈ (run step (initial (oneBot false) connected noFiles)
      [acceptedReverse, .socket 1 (.accepting none)]).dccSessions,
      d.state = .connected ∧ d.sock = none := by
    decide +kernel
  obtain ⟨d, hd, hstate, hsock⟩ := hsession
  have hremoved := (h d hd).mpr hsock
  rw [hstate] at hremoved
  cases hremoved

theorem destroyed_in_callback_confirms :
    ¬ Coherent (run step (initial (oneBot false) connected noFiles)
      [accepted, .socket 1 (.connecting true), .socket 1 (.receiving [.data 2 [.destroy]])]) := by
  intro h
  have hsession : ∃ d ∈ (run step (initial (oneBot false) connected noFiles)
      [accepted, .socket 1 (.connecting true),
        .socket 1 (.receiving [.data 2 [.destroy]])]).dccSessions,
      d.state = .confirmSize ∧ d.sock = none := by
    decide +kernel
  obtain ⟨d, hd, hstate, hsock⟩ := hsession
  have hremoved := (h d hd).mpr hsock
  rw [hstate] at hremoved
  cases hremoved

end Xdccget.RemovedSessions
