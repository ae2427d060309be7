import Xdccget.DownloadSpecs

set_option autoImplicit false

/-!
# What calls, chunks and acknowledgements do

The calls through the function pointers of a session, one received chunk, and
the acknowledgement of an offset, each with the state it ends in.
-/
namespace Xdccget.EventSpecs
open CText DccMessages ClientState DccSessions Downloads DccEvents HaltingPrograms SessionSpecs
  DownloadSpecs

section turns
variable {R : Client → Client → Prop} (F : Frame R) {id : ℕ}
include F

/-- A relation that the steps of a turn respect is one that its turns respect. -/
theorem turn_keeps (hlock : Moves R libircMutexLock) (hunlock : Moves R libircMutexUnlock)
    (hreceived : ∀ length, Moves R (record (.received id length)))
    (hacknowledged : ∀ word len, Moves R (record (.acknowledged id word len)))
    (hmodify : ∀ f, Moves R (modifySession id f)) (hdestroy : Moves R (libircDccDestroyNolock id)) :
    (turn id).Keeps (Moves R) where
  pure := F.pure _
  bind h h' := F.bind h fun _ => h'
  lock := hlock
  unlock := hunlock
  received length _ _ h := F.bind (hreceived length) fun _ => h
  acknowledged word len _ _ h := F.bind (hacknowledged word len) fun _ => h
  modify _ _ _ _ := hmodify _
  withConfig h := F.get_bind fun s => h s.cfg
  destroy := hdestroy

theorem moves_processDescriptor (hturn : ∀ id, (turn id).Keeps (Moves R))
    (hfails : ∀ id err, Moves R (callCb noEnv id err none 0))
    (hdata : ∀ id (chunk : Chunk),
      Moves R (callCb noEnv id libircErrOk (some chunk.data) chunk.data.length))
    (id : ℕ) (ready : SocketReady) : Moves R (processDescriptor id ready) := by
  intro s
  have hfind : (libircFindDccSession id false).run s =
      .ok (s.dccSessions.find? fun d => d.id = id) s := libircFind_run_nolock _ s
  rw [processDescriptor, endState_bind_of_ok hfind]
  cases s.dccSessions.find? (fun d => decide (d.id = id)) with
  | none => exact F.pure _ s
  | some dcc =>
    refine (hturn dcc.id).processDescriptor dcc ?_ s
    exact SocketReady.turn_alike (fun err _ => hfails dcc.id err) (hdata dcc.id)
      fun _ _ => hfails dcc.id _

end turns

theorem processDescriptor_eq (dccid : ℕ) (ready : SocketReady) :
    processDescriptor dccid ready = do
      match ← libircFindDccSession dccid false with
      | none => return
      | some dcc =>
        match dcc.state, ready with
        | .connecting, .connecting getpeername =>
          if getpeername then modifySession dccid fun d => { d with state := .connected }
          else libircDccDestroyNolock dccid
        | .connected, .receiving results => recvDccFile dccid dcc.ssl results
        | .confirmSize, .confirming result => sendCurrentFileOffsetToSender dcc result
        | .initPassive, .accepting sock =>
          modifySession dccid fun d => { d with sock := sock, state := .connected }
        | _, _ => return := by
  unfold processDescriptor
  funext s
  have hfind : (libircFindDccSession dccid false).run s =
      .ok (s.dccSessions.find? fun d => d.id = dccid) s := libircFind_run_nolock _ s
  change EStateM.run _ s = EStateM.run _ s
  rw [run_bind_of_ok hfind, run_bind_of_ok hfind]
  cases hd : s.dccSessions.find? (fun d => decide (d.id = dccid)) with
  | none => rfl
  | some dcc =>
    obtain rfl : dcc.id = dccid := by simpa using List.find?_some hd
    dsimp only
    unfold SocketTurns.Turn.processDescriptor
    cases ready <;> cases dcc.state <;> rfl

section runs
variable {s : Client} {id : ℕ} {d : DccSession}

theorem processDescriptor_run_of_none (hf : s.dccSessions.find? (fun d => d.id = id) = none)
    (ready : SocketReady) : (processDescriptor id ready).run s = .ok ⟨⟩ s := by
  have hfind := libircFind_run_nolock (fun d => decide (d.id = id)) s
  simp only [processDescriptor, libircFindDccSession, EStateM.run_bind, hfind, hf, EStateM.run_pure]

theorem processDescriptor_run_of_find (hf : s.dccSessions.find? (fun d => d.id = id) = some d)
    (ready : SocketReady) :
    (processDescriptor id ready).run s =
      (match d.state, ready with
      | .connecting, .connecting getpeername =>
        if getpeername then modifySession id fun d => { d with state := .connected }
        else libircDccDestroyNolock id
      | .connected, .receiving results => recvDccFile id d.ssl results
      | .confirmSize, .confirming result => sendCurrentFileOffsetToSender d result
      | .initPassive, .accepting sock =>
        modifySession id fun d => { d with sock := sock, state := .connected }
      | _, _ => return : ClientM Unit).run s := by
  have hfind := libircFind_run_nolock (fun d => decide (d.id = id)) s
  simp only [processDescriptor_eq, libircFindDccSession, EStateM.run_bind, hfind, hf]

end runs

@[simps]
def called (s : Client) (id : ℕ) (cb : Option Callback) : Client :=
  { s with trace := s.trace ++ [.call id cb] }

section calls
variable {s : Client} {id : ℕ} {d : DccSession}

theorem callCb_run_of_recvFile (hf : s.dccSessions.find? (fun d => d.id = id) = some d)
    (hcb : d.cb = some .callbackDccRecvFile) (env : Env) (status : ℕ) (data : Option Bytes)
    (length : ℕ) :
    (callCb env id status data length).run s =
      (callbackDccRecvFile status d.ctx data length).run
        (called s id (some (.data .callbackDccRecvFile))) := by
  simp only [callCb, EStateM.run_bind, EStateM.run_get, hf, hcb, record, EStateM.run_modify]
  rfl

theorem callCb_run_of_resumeFile (hf : s.dccSessions.find? (fun d => d.id = id) = some d)
    (hcb : d.cb = some .callbackDccResumeFile) (env : Env) (status : ℕ) (data : Option Bytes)
    (length : ℕ) :
    (callCb env id status data length).run s =
      (callbackDccResumeFile env id d.ctx length).run
        (called s id (some (.data .callbackDccResumeFile))) := by
  simp only [callCb, EStateM.run_bind, EStateM.run_get, hf, hcb, record, EStateM.run_modify]
  rfl

theorem callCb_run_of_null (hf : s.dccSessions.find? (fun d => d.id = id) = some d)
    (hcb : d.cb = none) (env : Env) (status : ℕ) (data : Option Bytes) (length : ℕ) :
    (callCb env id status data length).run s = .error .nullCallback (called s id none) := by
  simp only [callCb, EStateM.run_bind, EStateM.run_get, hf, hcb, record, EStateM.run_modify,
    run_throw_any]
  rfl

theorem callReverseCb_run_of_null (hf : s.dccSessions.find? (fun d => d.id = id) = some d)
    (hcb : d.reverseCb = none) (env : Env) (size : ℕ) (nick : Option Bytes) (token : ℕ) :
    (callReverseCb env id size nick token).run s = .error .nullCallback (called s id none) := by
  simp only [callReverseCb, EStateM.run_bind, EStateM.run_get, hf, hcb, record, EStateM.run_modify,
    run_throw_any]
  rfl

theorem callReverseCb_run_of_resumeFile (hf : s.dccSessions.find? (fun d => d.id = id) = some d)
    (hcb : d.reverseCb = some .callbackDccResumeFileReverse) (env : Env) (size : ℕ)
    (nick : Option Bytes) (token : ℕ) :
    (callReverseCb env id size nick token).run s =
      (callbackDccResumeFileReverse env id d.ctx size nick (bytes "file.ext") token).run
        (called s id (some (.reverse .callbackDccResumeFileReverse))) := by
  simp only [callReverseCb, EStateM.run_bind, EStateM.run_get, hf, hcb, record, EStateM.run_modify]
  rfl

end calls

@[simps]
def withTable (s : Client) (net : Net) (contexts : List DccDownloadContext) : Client :=
  { s with net := net, downloadContext := contexts }

theorem callbackDccResumeFileReverse_halts {s : Client} {id : ℕ} (h : NotInit s id) (env : Env)
    (ctx : Option ℕ) (length : ℕ) (nick : Option Bytes) (filename : Bytes) (token : ℕ) :
    ∃ fault net contexts, (callbackDccResumeFileReverse env id ctx length nick filename token).run s =
      .error fault (withTable s net contexts) := by
  cases ctx with
  | none => exact ⟨.nullContext, s.net, s.downloadContext, rfl⟩
  | some context =>
    rw [callbackDccResumeFileReverse]
    rcases seekToResume_run_cases env context length s with ⟨fault, hseek⟩ | ⟨-, fd, -, -, hseek⟩
    · exact ⟨fault, s.net, s.downloadContext, run_bind_of_error hseek⟩
    · change _ = EStateM.Result.ok _ (withTable s s.net _) at hseek
      generalize s.downloadContext.modify context (rewound fd length) = contexts at hseek
      rw [run_bind_of_ok hseek]
      simp only [EStateM.run_bind, EStateM.run_get]
      cases hc : (withTable s s.net contexts).downloadContext[context]? with
      | none => exact ⟨.nullContext, s.net, contexts, rfl⟩
      | some c =>
        obtain ⟨net, haccept⟩ := ircDccAcceptReverse_run_of_notInit (s := withTable s s.net contexts)
          h env (some context) .callbackDccRecvFile nick filename c.progress.completeFileSize token
        exact ⟨.exitPgm, net, contexts, exitOnFailure_run_of_failure haccept (by decide)⟩

def resumed (state : LibircState) (offset : ℕ) (d : DccSession) : DccSession :=
  { d with state := state, fileConfirmOffset := offset }

/-- The acknowledgement of a waiting passive session never returns: the state it writes is not
    the one that the callback needs. -/
theorem acceptResumeReverse_halts {s : Client} {token : ℕ} {d d' : DccSession}
    (hf : s.dccSessions.find? (fun d => d.passiveConnection && d.token = token) = some d)
    (hstate : d.state = .waitingForResumeAck)
    (hid : s.dccSessions.find? (fun e => e.id = d.id) = some d') (env : Env) (nick : Option Bytes)
    (size : ℕ) :
    ∃ fault s', (acceptResumeReverse env nick size token).run s = .error fault s' ∧
      s'.dccSessions = updateSession d.id (resumed .initPassive size) s.dccSessions ∧
      s'.trace = s.trace ++ [.call d.id (d'.reverseCb.map .reverse)] := by
  let s₁ := withNet (sessionOp s (lockedNet s.net) d.id (resumed .initPassive size) []) s.net
  have hfind : s₁.dccSessions.find? (fun e => e.id = d.id) = some (resumed .initPassive size d') :=
    find?_sessionOp hid _ (by exact fun _ => rfl) []
  have htrace : s₁.trace = s.trace := List.append_nil _
  have hrun : (acceptResumeReverse env nick size token).run s =
      (callReverseCb env d.id size nick token).run s₁ := by
    rw [acceptResumeReverse_eq, libircFindDccSessionByToken, run_bind_of_ok (libircFind_run_of_some hf)]
    simp only [hstate, ne_eq, not_true_eq_false, if_false, EStateM.run_bind, modifySession,
      libircMutexUnlock, EStateM.run_modify, s₁, sessionOp, withNet, List.append_nil, lockedNet,
      add_sub_cancel_right]
    rfl
  rw [hrun]
  cases hcb : d'.reverseCb with
  | none =>
    have hnull := callReverseCb_run_of_null hfind hcb env size nick token
    exact ⟨_, _, hnull, rfl, by rw [called_trace, htrace]; rfl⟩
  | some cb =>
    cases cb with
    | callbackDccResumeFileReverse =>
      have hnot : NotInit (called s₁ d.id (some (.reverse .callbackDccResumeFileReverse))) d.id := by
        intro e he
        obtain rfl := Option.some.inj (hfind.symm.trans he)
        simp [resumed]
      obtain ⟨fault, net, contexts, hhalt⟩ := callbackDccResumeFileReverse_halts hnot env
        (resumed .initPassive size d').ctx size nick (bytes "file.ext") token
      rw [callReverseCb_run_of_resumeFile hfind hcb, hhalt]
      exact ⟨fault, _, rfl, rfl, by rw [withTable_trace, called_trace, htrace]; rfl⟩

def withOffset (length : ℕ) (d : DccSession) : DccSession :=
  { d with fileConfirmOffset := u64 (d.fileConfirmOffset + length) }

def unlockedNet (net : Net) : Net := { net with mutexDcc := net.mutexDcc - 1 }

/-- The client when a chunk has been counted by the library and the callback is called. -/
@[simps!]
def arrived (s : Client) (id length : ℕ) : Client :=
  sessionOp s (unlockedNet s.net) id (withOffset length)
    [.received id length, .call id (some (.data .callbackDccRecvFile))]

/-- What `recv_dcc_file` does behind the callback. -/
def afterChunk (id : ℕ) : ClientM Unit := do
  let dontConfirm := (← get).cfg.dontConfirmOffsets
  modifySession id fun d => { d with state := if dontConfirm then .connected else .confirmSize }
  libircMutexLock

@[simps!]
def confirming (s : Client) (id : ℕ) : Client :=
  sessionOp s (lockedNet s.net) id
    (fun d => { d with state := if s.cfg.dontConfirmOffsets then .connected else .confirmSize }) []

theorem afterChunk_run (id : ℕ) (s : Client) : (afterChunk id).run s = .ok ⟨⟩ (confirming s id) := by
  simp only [afterChunk, EStateM.run_bind, EStateM.run_get, modifySession, libircMutexLock,
    EStateM.run_modify, confirming, sessionOp, List.append_nil]
  rfl

theorem receiveChunk_run {s : Client} {id : ℕ} {d : DccSession}
    (hf : s.dccSessions.find? (fun d => d.id = id) = some d)
    (hcb : d.cb = some .callbackDccRecvFile) (chunk : Chunk) :
    (receiveChunk id chunk).run s =
      (do
        callbackDccRecvFile libircErrOk d.ctx (some chunk.data) chunk.data.length
        afterChunk id).run (arrived s id chunk.data.length) := by
  let s' := sessionOp s (unlockedNet s.net) id (withOffset chunk.data.length)
    [.received id chunk.data.length]
  have hfind : s'.dccSessions.find? (fun d => d.id = id) =
      some (withOffset chunk.data.length d) := find?_sessionOp hf _ (by exact fun _ => rfl) _
  have hcall := callCb_run_of_recvFile hfind hcb noEnv libircErrOk (some chunk.data)
    chunk.data.length
  have hstate : called s' id (some (.data .callbackDccRecvFile)) =
      arrived s id chunk.data.length := by
    simp [s', called, arrived, sessionOp]
  rw [hstate] at hcall
  change (callCb noEnv id libircErrOk (some chunk.data) chunk.data.length >>=
    fun _ => afterChunk id).run s' = _
  rw [EStateM.run_bind, hcall, EStateM.run_bind]
  rfl

end Xdccget.EventSpecs
