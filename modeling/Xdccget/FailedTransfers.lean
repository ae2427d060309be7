import Xdccget.LoggedTurns
import Xdccget.QuitTiming

set_option autoImplicit false

/-!
# Failed transfers

What the application is told when `recv` or `send` fails on a session: one call with an error,
made without data, which `callback_dcc_recv_file` drops before it looks at the status. The session
is removed when reading fails and kept when an acknowledgement does.
-/
namespace Xdccget.FailedTransfers
open CText DccMessages ClientState DccSessions Downloads HaltingPrograms SessionSpecs StepRuns
open LoggedTurns ProgramRelations
open SocketTurns (Turn)
open DccEvents (Chunk RecvResult SendResult SocketReady Event noEnv oneBot connected noFiles botRequest)

/-- How `callback_dcc_recv_file` leaves: at one of its guards, or behind them. -/
inductive RecvFileBranch
  | noData | noContext | noLength | error | receive
  deriving DecidableEq, Repr

def recvFileBranch (call : DataCall) : RecvFileBranch :=
  match call.data, call.ctx with
  | none, _ => .noData
  | some _, none => .noContext
  | some _, some _ =>
    if call.length = 0 then .noLength else if call.status ≠ 0 then .error else .receive

/-- `recv_dcc_file` comes to a read that returns 0 or an error. -/
def readFails (ssl : Bool) : List RecvResult → Bool
  | [] => false
  | .again :: more => !ssl && readFails ssl more
  | .wantWrite :: more => !ssl && readFails ssl more
  | .error :: _ => true
  | .closed :: _ => true
  | .data _ :: more => ssl && readFails ssl more

def writeFails : SendResult → Bool
  | .error => true
  | .sent 0 => true
  | _ => false

def Fails (d : DccSession) : SocketReady → Prop
  | .receiving results => d.state = .connected ∧ readFails d.ssl results = true
  | .confirming result => d.state = .confirmSize ∧ writeFails result = true
  | _ => False

def RemovedAfter (s : LoggedClient) (id : ℕ) (e : Event) : Prop :=
  ∃ d, (step s e).client.dccSessions.find? (fun d => d.id = id) = some d ∧ d.state = .removed

/-- The turn reports a failure once, to the error branch, and removes the session. -/
def HandlesFailure (s : LoggedClient) (id : ℕ) (ready : SocketReady) : Prop :=
  ∃ call, (toldBy s (.socket id ready)).filter (fun c => c.status ≠ 0) = [call] ∧
    recvFileBranch call = .error ∧ RemovedAfter s id (.socket id ready)

theorem admits_guarded : Admits fun call => recvFileBranch call ≠ .error where
  failed := fun id status ctx length _ => by simp [recvFileBranch]
  chunk := fun id ctx data length => by
    cases ctx <;> simp [recvFileBranch]
    split <;> simp

theorem toldBy_guarded (s : LoggedClient) (id : ℕ) (ready : SocketReady) :
    ∀ call ∈ toldBy s (.socket id ready), recvFileBranch call ≠ .error := by
  obtain ⟨l, hl, hguarded⟩ := step_adds admits_guarded s (e := .socket id ready)
    fun _ _ _ id ctx => by simp [recvFileBranch]
  rw [toldBy_of_append hl]
  exact hguarded

section reports
variable {n id : ℕ}

/-- So many calls with an error have been made, and the session is there with the callback that
    receives. -/
def Going (n id : ℕ) (s : LoggedClient) : Prop :=
  (s.dataCalls.filter fun c => c.status ≠ 0).length = n ∧
    ∃ d, s.client.dccSessions.find? (fun d => d.id = id) = some d ∧ d.cb = some .callbackDccRecvFile

def Standing (n id : ℕ) (state : LibircState) (s : LoggedClient) : Prop :=
  (s.dataCalls.filter fun c => c.status ≠ 0).length = n ∧
    ∃ d, s.client.dccSessions.find? (fun d => d.id = id) = some d ∧
      d.cb = some .callbackDccRecvFile ∧ d.state = state

def Leaves (x : ClientM Unit) : Prop :=
  ∀ c, ∃ c', x.run c = .ok ⟨⟩ c' ∧ c'.dccSessions = c.dccSessions

theorem lock_leaves : Leaves libircMutexLock := fun _ => ⟨_, rfl, rfl⟩

theorem unlock_leaves : Leaves libircMutexUnlock := fun _ => ⟨_, rfl, rfl⟩

theorem record_leaves (a : Action) : Leaves (record a) := fun _ => ⟨_, rfl, rfl⟩

theorem Leaves.keeps {x : ClientM Unit} (h : Leaves x) {P : List DataCall → List DccSession → Prop} :
    Keeps (fun s => P s.dataCalls s.client.dccSessions) (onClient x) := by
  intro s hs
  obtain ⟨c, hrun, hsessions⟩ := h s.client
  rw [onClient_run_of_ok hrun]
  change P s.dataCalls c.dccSessions
  rw [hsessions]
  exact hs

theorem Leaves.going {x : ClientM Unit} (h : Leaves x) : Keeps (Going n id) (onClient x) :=
  h.keeps (P := fun calls ds => (calls.filter fun c => c.status ≠ 0).length = n ∧
    ∃ d, ds.find? (fun d => d.id = id) = some d ∧ d.cb = some .callbackDccRecvFile)

theorem Leaves.standing {state : LibircState} {x : ClientM Unit} (h : Leaves x) :
    Keeps (Standing n id state) (onClient x) :=
  h.keeps (P := fun calls ds => (calls.filter fun c => c.status ≠ 0).length = n ∧
    ∃ d, ds.find? (fun d => d.id = id) = some d ∧ d.cb = some .callbackDccRecvFile ∧ d.state = state)

theorem modifySession_going {f : DccSession → DccSession} (hid : ∀ d, (f d).id = d.id)
    (hcb : ∀ d, (f d).cb = d.cb) : Keeps (Going n id) (onClient (modifySession id f)) := by
  intro s hs
  obtain ⟨hn, d, hd, hrecv⟩ := hs
  refine ⟨hn, f d, ?_, (hcb d).trans hrecv⟩
  change (updateSession id f s.client.dccSessions).find? _ = _
  rw [find?_updateSession hid, hd]
  rfl

theorem callCb_report {P : DccSession → Prop} (env : Env) {status : ℕ} (hstatus : status ≠ 0)
    (hP : ∀ d, P d → d.cb = some .callbackDccRecvFile) :
    Ensures
      (fun s => (s.dataCalls.filter fun c => c.status ≠ 0).length = n ∧
        ∃ d, s.client.dccSessions.find? (fun d => d.id = id) = some d ∧ P d)
      (callCb env id status none 0)
      (fun _ s => (s.dataCalls.filter fun c => c.status ≠ 0).length = n + 1 ∧
        ∃ d, s.client.dccSessions.find? (fun d => d.id = id) = some d ∧ P d)
      fun _ => False := by
  rintro s ⟨hn, d, hd, hPd⟩
  have hget : (get : LoggedM LoggedClient).run s = .ok s s := rfl
  rw [callCb, run_bind_of_ok hget]
  simp only [hd, hP d hPd]
  refine ⟨?_, d, hd, hPd⟩
  simp only [List.filter_append, List.length_append, hn]
  simp [hstatus]

theorem callCb_chunk (chunk : Chunk) :
    Ensures (Going n id) (callCb noEnv id libircErrOk (some chunk.data) chunk.data.length)
      (fun _ => Going n id) fun _ => True := by
  rintro s ⟨hn, d, hd, hcb⟩
  have hget : (get : LoggedM LoggedClient).run s = .ok s s := rfl
  rw [callCb, run_bind_of_ok hget]
  simp only [hd, hcb]
  let call : DataCall :=
    { id := id, status := libircErrOk, ctx := d.ctx, data := some chunk.data,
      length := chunk.data.length }
  let s' : LoggedClient :=
    { s with
      client := { s.client with trace := s.client.trace ++ [.call id (some (.data .callbackDccRecvFile))] }
      dataCalls := s.dataCalls ++ [call] }
  have hreceive : Ensures (fun t => t = s')
      (onClient (callbackDccRecvFile libircErrOk d.ctx (some chunk.data) chunk.data.length))
      (fun _ => Going n id) fun _ => True := by
    rintro t rfl
    rw [onClient, zoom_run]
    rcases CallbackSteps.callbackDccRecvFile_keeps chunk.pos d.ctx s'.client with
      ⟨fault, c, hrun, -⟩ | ⟨c, hrun, hsessions, -⟩
    · rw [hrun]
      trivial
    · rw [hrun]
      refine ⟨?_, d, ?_, hcb⟩
      · simpa [s', call, libircErrOk] using hn
      · change c.dccSessions.find? _ = _
        rw [hsessions]
        exact hd
  exact hreceive s' rfl

theorem receiveChunk_going (chunk : Chunk) :
    Ensures (Going n id)
      ((turn id).receiveChunk chunk.data.length
        (callCb noEnv id libircErrOk (some chunk.data) chunk.data.length))
      (fun _ => Going n id) fun _ => True := by
  have halt {α : Type} {x : LoggedM α} (h : Keeps (Going n id) x) :
      Ensures (Going n id) x (fun _ => Going n id) fun _ => True :=
    h.weaken (fun _ h => h) (fun _ _ h => h) fun _ _ => trivial
  refine ensures_bind (halt unlock_leaves.going) fun _ => ?_
  refine ensures_bind (halt (record_leaves _).going) fun _ => ?_
  refine ensures_bind (halt (modifySession_going (fun _ => rfl) fun _ => rfl)) fun _ => ?_
  refine ensures_bind (callCb_chunk chunk) fun _ => ensures_get_bind fun s hs => ?_
  have hlast : Keeps (Going n id) (do
      onClient (modifySession id fun d =>
        { d with state := if s.client.cfg.dontConfirmOffsets then .connected else .confirmSize })
      onClient libircMutexLock) :=
    ensures_bind (modifySession_going (fun _ => rfl) fun _ => rfl) fun _ => lock_leaves.going
  exact hlast.weaken (fun t ht => ht ▸ hs) (fun _ _ h => h) fun _ _ => trivial

theorem receiveFailed_tells {err : ℕ} (herr : err ≠ 0) :
    Ensures (Going n id) ((turn id).receiveFailed (callCb noEnv id err none 0))
      (fun _ => Standing (n + 1) id .removed) fun _ => False := by
  refine ensures_bind unlock_leaves.going fun _ => ?_
  have hcall := @callCb_report n id (fun d => d.cb = some .callbackDccRecvFile) noEnv err herr
    fun _ h => h
  refine ensures_bind hcall fun _ => ?_
  refine ensures_bind (lock_leaves.going (n := n + 1)) fun _ => ?_
  rintro s ⟨hn, d, hd, hcb⟩
  dsimp only [turn]
  rw [onClient_run_of_ok (libircDccDestroyNolock_run id s.client)]
  refine ⟨hn, SessionSpecs.removed d, ?_, hcb, rfl⟩
  change (updateSession id SessionSpecs.removed s.client.dccSessions).find? _ = _
  rw [find?_updateSession (by exact fun _ => rfl), hd]
  rfl

theorem recvDccFile_tells (ssl : Bool) {results : List RecvResult}
    (hfails : readFails ssl results = true) :
    Ensures (Going n id) ((turn id).recvDccFile ssl (results.map (·.turn (callCb noEnv id))))
      (fun _ => Standing (n + 1) id .removed) fun _ => True := by
  have hreport {err : ℕ} (herr : err ≠ 0) : Ensures (Going n id)
      ((turn id).receiveFailed (callCb noEnv id err none 0))
      (fun _ => Standing (n + 1) id .removed) fun _ => True :=
    (receiveFailed_tells herr).weaken (fun _ h => h) (fun _ _ h => h) fun _ _ => trivial
  induction results with
  | nil => cases hfails
  | cons result more ih =>
    cases result with
    | again =>
      simp only [readFails, Bool.and_eq_true, Bool.not_eq_true'] at hfails
      refine ensures_ite (fun hssl => absurd hssl (by simp [hfails.1])) fun _ => ih hfails.2
    | wantWrite =>
      simp only [readFails, Bool.and_eq_true, Bool.not_eq_true'] at hfails
      refine ensures_ite (fun hssl => absurd hssl (by simp [hfails.1])) fun _ => ih hfails.2
    | error => exact hreport (by decide)
    | closed => exact hreport (by decide)
    | data chunk =>
      simp only [readFails, Bool.and_eq_true] at hfails
      refine ensures_bind (receiveChunk_going chunk) fun _ => ?_
      exact ensures_ite (fun _ => ih hfails.2) fun hssl => absurd hfails.1 hssl

theorem report_tells {err : ℕ} (herr : err ≠ 0) {state : LibircState} :
    Ensures (Standing n id state) ((turn id).report (callCb noEnv id err none 0))
      (fun _ => Standing (n + 1) id state) fun _ => False := by
  refine ensures_bind unlock_leaves.standing fun _ => ?_
  have hcall := @callCb_report n id
    (fun d => d.cb = some .callbackDccRecvFile ∧ d.state = state) noEnv err herr fun _ h => h.1
  exact ensures_bind hcall fun _ => lock_leaves.standing (n := n + 1)

theorem processDescriptor_run_of_receiving {s : LoggedClient} {d : DccSession}
    (hd : s.client.dccSessions.find? (fun d => d.id = id) = some d) (hstate : d.state = .connected)
    (results : List RecvResult) :
    (processDescriptor id (.receiving results)).run s =
      ((turn id).recvDccFile d.ssl (results.map (·.turn (callCb noEnv id)))).run s := by
  have hfind : (onClient (libircFindDccSession id false)).run s = .ok (some d) s := by
    rw [onClient, zoom_run, libircFindDccSession, libircFind_run_nolock, hd]
  obtain rfl : d.id = id := by simpa using List.find?_some hd
  rw [processDescriptor, run_bind_of_ok hfind]
  simp only [Turn.processDescriptor, hstate]
  rfl

theorem processDescriptor_run_of_confirming {s : LoggedClient} {d : DccSession}
    (hd : s.client.dccSessions.find? (fun d => d.id = id) = some d) (hstate : d.state = .confirmSize)
    (result : SendResult) :
    (processDescriptor id (.confirming result)).run s =
      ((turn d.id).sendCurrentFileOffsetToSender d (result.turn (callCb noEnv d.id))).run s := by
  have hfind : (onClient (libircFindDccSession id false)).run s = .ok (some d) s := by
    rw [onClient, zoom_run, libircFindDccSession, libircFind_run_nolock, hd]
  rw [processDescriptor, run_bind_of_ok hfind]
  simp only [Turn.processDescriptor, hstate]
  rfl

def failedState : SocketReady → LibircState
  | .receiving _ => .removed
  | _ => .confirmSize

theorem processDescriptor_tells {s : LoggedClient} {ready : SocketReady} {d : DccSession}
    (hn : (s.dataCalls.filter fun c => c.status ≠ 0).length = n)
    (hd : s.client.dccSessions.find? (fun d => d.id = id) = some d)
    (hcb : d.cb = some .callbackDccRecvFile) (hfails : Fails d ready) :
    Ensures (fun t => t = s) (processDescriptor id ready)
      (fun _ => Standing (n + 1) id (failedState ready)) fun _ => True := by
  have hid : d.id = id := by simpa using List.find?_some hd
  rintro t rfl
  cases ready with
  | receiving results =>
    rw [processDescriptor_run_of_receiving hd hfails.1]
    exact recvDccFile_tells d.ssl hfails.2 t ⟨hn, d, hd, hcb⟩
  | confirming result =>
    rw [processDescriptor_run_of_confirming hd hfails.1]
    have hreport {err : ℕ} (herr : err ≠ 0) : Ensures (Standing n id .confirmSize)
        ((turn d.id).report (callCb noEnv d.id err none 0))
        (fun _ => Standing (n + 1) id .confirmSize) fun _ => True := by
      rw [hid]
      exact (report_tells herr).weaken (fun _ h => h) (fun _ _ h => h) fun _ _ => trivial
    have hstanding : Standing n id .confirmSize t := ⟨hn, d, hd, hcb, hfails.1⟩
    have hwrite := hfails.2
    cases result with
    | again => cases hwrite
    | wantRead => cases hwrite
    | error => exact hreport (by decide) t hstanding
    | sent len =>
      cases len with
      | zero => exact hreport (by decide) t hstanding
      | succ len => cases hwrite
  | connecting getpeername => exact hfails.elim
  | accepting sock => exact hfails.elim

/-- A failing turn that the process survives makes one call with an error. The session is removed
    when it was receiving, and is kept when it was acknowledging. -/
theorem failure_told_once {s : LoggedClient} {ready : SocketReady} {d : DccSession}
    (hs : s.client.halted = none) (hsound : SessionCallbacks.Sound s.client)
    (hd : s.client.dccSessions.find? (fun d => d.id = id) = some d) (hfails : Fails d ready)
    (hend : (step s (.socket id ready)).client.halted = none) :
    ((toldBy s (.socket id ready)).filter fun c => c.status ≠ 0).length = 1 ∧
      (RemovedAfter s id (.socket id ready) ↔ d.state = .connected) := by
  have hcb : d.cb = some .callbackDccRecvFile := by
    refine ((hsound.ready d (List.mem_of_find?_eq_some hd)).awaits (.data .callbackDccRecvFile) ?_).1
    cases ready with
    | receiving results => simp [SessionCallbacks.awaited, hfails.1]
    | confirming result => simp [SessionCallbacks.awaited, hfails.1]
    | connecting getpeername => exact hfails.elim
    | accepting sock => exact hfails.elim
  let n := (s.dataCalls.filter fun c => c.status ≠ 0).length
  have hturn : Ensures (fun t => t = s) (handle (.socket id ready))
      (fun _ => Standing (n + 1) id (failedState ready)) fun _ => True := by
    let locked : LoggedClient := { s with client := withNet s.client (lockedNet s.client.net) }
    have hlock : Ensures (fun t => t = s) (onClient libircMutexLock) (fun _ t => t = locked)
        fun _ => True := by
      rintro t rfl
      rfl
    refine ensures_bind hlock fun _ => ?_
    refine ensures_bind (processDescriptor_tells (s := locked) rfl hd hcb hfails) fun _ => ?_
    exact unlock_leaves.standing.weaken (fun _ h => h) (fun _ _ h => h) fun _ _ => trivial
  have hstep : Standing (n + 1) id (failedState ready) (step s (.socket id ready)) := by
    have h := hturn s rfl
    unfold step at hend ⊢
    rw [hs] at hend ⊢
    cases hrun : (handle (.socket id ready)).run s with
    | ok a s' =>
      rw [hrun] at h
      exact h
    | error fault s' =>
      rw [hrun] at hend
      cases hend
  obtain ⟨hcount, d', hd', -, hstate'⟩ := hstep
  constructor
  · obtain ⟨l, hl, -⟩ := step_adds admits_guarded s (e := .socket id ready)
      fun _ _ _ id ctx => by simp [recvFileBranch]
    rw [toldBy_of_append hl]
    rw [hl, List.filter_append, List.length_append] at hcount
    exact Nat.add_left_cancel hcount
  · have hremoved : RemovedAfter s id (.socket id ready) ↔ failedState ready = .removed := by
      rw [← hstate']
      constructor
      · rintro ⟨e, he, hremoved⟩
        rw [hd'] at he
        cases he
        exact hremoved
      · exact fun h => ⟨d', hd', h⟩
    rw [hremoved]
    cases ready with
    | receiving results => simp [failedState, hfails.1]
    | confirming result => simp [failedState, hfails.1]
    | connecting getpeername => exact hfails.elim
    | accepting sock => exact hfails.elim

end reports

/-- No failure is handled as it should be: in no state, on no session, at no point. -/
theorem failure_never_handled (s : LoggedClient) (id : ℕ) (ready : SocketReady) :
    ¬ HandlesFailure s id ready := by
  rintro ⟨call, htold, hbranch, -⟩
  have hmem : call ∈ (toldBy s (.socket id ready)).filter fun c => c.status ≠ 0 := by
    rw [htold]
    exact List.mem_singleton_self call
  exact toldBy_guarded s id ready call (List.mem_of_mem_filter hmem) hbranch

def acknowledging : LoggedClient :=
  run step (initial (oneBot false) connected noFiles)
    [botRequest "DCC SEND f 16909060 5000 4", .socket 1 (.connecting true),
      .socket 1 (.receiving [.data ⟨[1, 2], by decide, by decide⟩])]

/-- The peer closes the connection in front of an acknowledgement. -/
theorem closed_before_acknowledgement :
    ∃ d, acknowledging.client.dccSessions.find? (fun d => d.id = 1) = some d ∧
      Fails d (.confirming (.sent 0)) ∧
      ¬ HandlesFailure acknowledging 1 (.confirming (.sent 0)) := by
  have hsession : ∃ d, acknowledging.client.dccSessions.find? (fun d => d.id = 1) = some d ∧
      d.state = .confirmSize := by
    decide +kernel
  obtain ⟨d, hd, hstate⟩ := hsession
  refine ⟨d, hd, ⟨hstate, rfl⟩, ?_⟩
  rintro ⟨call, htold, hbranch, -⟩
  have hcalls : toldBy acknowledging (.socket 1 (.confirming (.sent 0))) =
      [{ id := 1, status := libircErrClosed, ctx := some 0, data := none, length := 0 }] := by
    decide +kernel
  rw [hcalls] at htold
  obtain rfl := List.singleton_inj.mp htold
  cases hbranch

end Xdccget.FailedTransfers
