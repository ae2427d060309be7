import Xdccget.DownloadFrames
import Xdccget.TableChanges

set_option autoImplicit false

/-!
# Relations along the transfers

What a relation must put up with to hold from the start to the end of every program of the
transfers, whatever the peers and the server do.
-/
namespace Xdccget.TransferFrames
open CText DccMessages ClientState DccSessions Downloads DccEvents HaltingPrograms

/-- A relation that looks only at what is queued and acknowledged and at the state of the
    connection. -/
structure Bears (R : Client → Client → Prop) : Prop extends DownloadFrames.Watches R where
  elsewhere : ∀ s t : Client, t.net.state = s.net.state → t.net.outgoing = s.net.outgoing →
    t.trace = s.trace → R s t

/-- It allows the requests to `nick`, too, about files with a name in `names`. -/
structure Carries (R : Client → Client → Prop) (nick : Option Bytes) (names : Bytes → Prop) : Prop
    extends Bears R where
  named : names (bytes "file.ext")
  resume : ∀ port position, Moves R (ircCmdCtcpRequest nick (dccResumeText port position))
  resumeReverse : ∀ position token,
    Moves R (ircCmdCtcpRequest nick (dccResumeReverseText position token))
  sendReverse : ∀ filename ip port size token, names filename →
    Moves R (ircCmdCtcpRequest nick (dccSendReverseText filename ip port size token))

section programs
variable {R : Client → Client → Prop} {nick : Option Bytes} {names : Bytes → Prop}
  (C : Carries R nick names)
include C

theorem Carries.moves_modify {f : Client → Client}
    (h : ∀ s, (f s).net.state = s.net.state ∧ (f s).net.outgoing = s.net.outgoing ∧
      (f s).trace = s.trace) : Moves R (modify f : ClientM PUnit) :=
  HaltingPrograms.moves_modify fun s => C.elsewhere s _ (h s).1 (h s).2.1 (h s).2.2

theorem Carries.moves_setLasterror (err : ℕ) : Moves R (setLasterror err) :=
  C.moves_modify fun _ => ⟨rfl, rfl, rfl⟩

theorem Carries.moves_lock : Moves R libircMutexLock := C.moves_modify fun _ => ⟨rfl, rfl, rfl⟩

theorem Carries.moves_unlock : Moves R libircMutexUnlock := C.moves_modify fun _ => ⟨rfl, rfl, rfl⟩

theorem Carries.moves_modifySession (id : ℕ) (f : DccSession → DccSession) :
    Moves R (modifySession id f) := C.moves_modify fun _ => ⟨rfl, rfl, rfl⟩

theorem Carries.moves_exitPgm : Moves R exitPgm := C.frame.throw _

theorem Carries.moves_libircFind (found : DccSession → Bool) (lockList : Bool) :
    Moves R (libircFind found lockList) := by
  have hrest : Moves R (do
      let d := (← get).dccSessions.find? found
      if d.isNone && lockList then
        libircMutexUnlock
      return d : ClientM (Option DccSession)) :=
    C.frame.get_bind fun _ => moves_ite (C.frame.bind C.moves_unlock fun _ => C.frame.pure _)
      (C.frame.pure _)
  exact moves_ite (C.frame.bind C.moves_lock fun _ => hrest) hrest

theorem Carries.moves_libircDccDestroyNolock (id : ℕ) : Moves R (libircDccDestroyNolock id) := by
  refine C.frame.bind (C.moves_libircFind _ _) fun d => ?_
  cases d with
  | none => exact C.frame.pure _
  | some d => exact C.moves_modifySession _ _

theorem Carries.moves_refusal : Moves R (do
    setLasterror libircErrState
    libircMutexUnlock
    return 1 : ClientM ℕ) :=
  C.frame.bind (C.moves_setLasterror _) fun _ => C.frame.bind C.moves_unlock fun _ =>
    C.frame.pure _

theorem Carries.moves_libircNewDccSession (env : Env) (ip port : ℕ) (ctx : Option ℕ) (ssl : Bool) :
    Moves R (libircNewDccSession env ip port ctx ssl) := by
  unfold libircNewDccSession
  cases env.socket with
  | none => exact C.frame.pure _
  | some sock =>
    have hnew : Moves R (do
        let dccid := (← get).dccLastId
        let dcc : DccSession :=
          { id := dccid, passiveConnection := false, token := 0, ctx := ctx, sock := some sock,
            state := .init, ssl := ssl, receivedFileSize := 0, fileConfirmOffset := 0,
            sinAddr := ip % 2 ^ 32, sinPort := port, cb := none, reverseCb := none }
        modify fun s => { s with dccLastId := dccid + 1, dccSessions := dcc :: s.dccSessions }
        return .ok dccid : ClientM (Except ℕ ℕ)) :=
      C.frame.get_bind fun _ => C.frame.bind (C.moves_modify fun _ => ⟨rfl, rfl, rfl⟩)
        fun _ => C.frame.pure _
    have hssl : Moves R (modify fun s => { s with net := { s.net with sslContext := true } } :
        ClientM PUnit) := C.moves_modify fun _ => ⟨rfl, rfl, rfl⟩
    refine C.frame.get_bind fun s => moves_ite ?_ hnew
    exact moves_ite (C.frame.bind C.moves_exitPgm fun _ => C.frame.bind hssl fun _ => hnew)
      (C.frame.bind hssl fun _ => hnew)

theorem Carries.moves_ircDccAccept (env : Env) (id : ℕ) (ctx : Option ℕ) (cb : DataCallback) :
    Moves R (ircDccAccept env id ctx cb) := by
  refine C.frame.bind (C.moves_libircFind _ _) fun d => ?_
  cases d with
  | none => exact C.frame.pure _
  | some dcc =>
    have hready : Moves R (do
        modifySession id fun d => { d with state := if d.ssl then .connected else .connecting }
        libircMutexUnlock
        return 0 : ClientM ℕ) :=
      C.frame.bind (C.moves_modifySession _ _) fun _ => C.frame.bind C.moves_unlock fun _ =>
        C.frame.pure _
    have hfailed : Moves R (do setLasterror libircErrConnect; return 1 : ClientM ℕ) :=
      C.frame.bind (C.moves_setLasterror _) fun _ => C.frame.pure _
    refine moves_ite C.moves_refusal ?_
    refine C.frame.bind (C.moves_modifySession _ _) fun _ => ?_
    refine C.frame.bind (C.recorded _ (by simp) (by simp)) fun _ => ?_
    refine moves_ite ?_ (moves_ite hfailed hready)
    refine C.frame.bind (C.moves_libircDccDestroyNolock _) fun _ => ?_
    exact C.frame.bind C.moves_unlock fun _ => hfailed

theorem Carries.moves_askResume {text : Bytes} (hask : Moves R (ircCmdCtcpRequest nick text))
    (id : ℕ) (f g : DccSession → DccSession) (cb : Callback) :
    Moves R (do
      modifySession id f
      record (.install id cb)
      discard (ircCmdCtcpRequest nick text)
      modifySession id g
      libircMutexUnlock
      return 0) := by
  refine C.frame.bind (C.moves_modifySession _ _) fun _ => ?_
  refine C.frame.bind (C.recorded _ (by simp) (by simp)) fun _ => ?_
  refine C.frame.bind (moves_discard hask) fun _ => ?_
  refine C.frame.bind (C.moves_modifySession _ _) fun _ => ?_
  exact C.frame.bind C.moves_unlock fun _ => C.frame.pure _

theorem Carries.moves_ircDccResume (id : ℕ) (ctx : Option ℕ) (cb : DataCallback)
    (position : ℕ) :
    Moves R (ircDccResume id ctx cb nick position) := by
  refine C.frame.bind (C.moves_libircFind _ _) fun d => ?_
  cases d with
  | none => exact C.frame.pure _
  | some dcc =>
    exact moves_ite C.moves_refusal (C.moves_askResume (C.resume _ _) id _ _ _)

theorem Carries.moves_ircDccResumeReverse (id : ℕ) (ctx : Option ℕ) (cb : ReverseCallback)
    (position token : ℕ) :
    Moves R (ircDccResumeReverse id ctx cb nick position token) := by
  refine C.frame.bind (C.moves_libircFind _ _) fun d => ?_
  cases d with
  | none => exact C.frame.pure _
  | some dcc =>
    exact moves_ite C.moves_refusal (C.moves_askResume (C.resumeReverse _ _) id _ _ _)

theorem Carries.moves_ircDccAcceptReverse (env : Env) (id : ℕ) (ctx : Option ℕ) (cb : DataCallback)
    {filename : Bytes} (hname : names filename) (size token : ℕ) :
    Moves R (ircDccAcceptReverse env id ctx cb nick filename size token) := by
  unfold ircDccAcceptReverse
  refine C.frame.bind (C.moves_libircFind _ _) fun d => ?_
  cases d with
  | none => exact C.frame.pure _
  | some dcc =>
    refine moves_ite C.moves_refusal ?_
    cases env.inetPton with
    | none => exact C.frame.bind (C.moves_setLasterror _) fun _ => C.frame.pure _
    | some addr =>
      refine C.frame.get_bind fun s => ?_
      have hask := C.sendReverse filename addr s.cfg.listenPort size token hname
      refine C.frame.bind (moves_discard hask) fun _ => ?_
      refine C.frame.bind (C.moves_modifySession _ _) fun _ => ?_
      refine C.frame.bind (C.recorded _ (by simp) (by simp)) fun _ => ?_
      exact C.frame.bind C.moves_unlock fun _ => C.frame.pure _

theorem Carries.moves_exitOnFailure {call : ClientM ℕ} (h : Moves R call) :
    Moves R (exitOnFailure call) :=
  C.frame.bind h fun _ => moves_ite C.moves_exitPgm (C.frame.pure _)

theorem Carries.moves_callbackDccResumeFile (env : Env) (id : ℕ) (ctx : Option ℕ) (length : ℕ) :
    Moves R (callbackDccResumeFile env id ctx length) := by
  cases ctx with
  | none => exact C.frame.throw _
  | some context =>
    exact C.frame.bind (C.toWatches.moves_seekToResume _ _ _) fun _ =>
      C.moves_exitOnFailure (C.moves_ircDccAccept env id _ _)

theorem Carries.moves_callbackDccResumeFileReverse (env : Env) (id : ℕ) (ctx : Option ℕ)
    (length : ℕ) {filename : Bytes} (hname : names filename) (token : ℕ) :
    Moves R (callbackDccResumeFileReverse env id ctx length nick filename token) := by
  cases ctx with
  | none => exact C.frame.throw _
  | some context =>
    refine C.frame.bind (C.toWatches.moves_seekToResume _ _ _) fun _ => C.frame.get_bind fun s => ?_
    cases s.downloadContext[context]? with
    | none => exact C.frame.throw _
    | some c => exact C.moves_exitOnFailure (C.moves_ircDccAcceptReverse env id _ _ hname _ token)

theorem Carries.moves_recvFileWith (env : Env) (filename : Bytes) (size : ℕ) {accept : ℕ → ClientM ℕ}
    {resume : ℕ → ℕ → ClientM ℕ} (haccept : ∀ context, Moves R (accept context))
    (hresume : ∀ context position, Moves R (resume context position)) :
    Moves R (recvFileWith env filename size accept resume) := by
  refine C.frame.bind (C.toWatches.moves_prepareRecvFileRequest env filename size) fun context => ?_
  refine C.frame.get_bind fun s => ?_
  dsimp only
  cases s.files (getCompletePath s.cfg filename) with
  | none =>
    exact C.frame.bind (C.toWatches.moves_openFile _ _ _ _) fun _ => C.moves_exitOnFailure (haccept _)
  | some content =>
    have hrest : Moves R (if content.length = 0 then exitOnFailure (accept context)
        else exitOnFailure (resume context content.length)) :=
      moves_ite (C.moves_exitOnFailure (haccept _)) (C.moves_exitOnFailure (hresume _ _))
    refine C.frame.bind (C.toWatches.moves_openFile _ _ _ _) fun _ => ?_
    exact moves_ite (C.frame.bind C.moves_exitPgm fun _ => hrest) hrest

theorem Carries.moves_recvFileRequest (env : Env) (filename : Bytes) (size id : ℕ) :
    Moves R (recvFileRequest env nick filename size id) :=
  C.moves_recvFileWith env filename size (fun _ => C.moves_ircDccAccept env id _ _)
    fun _ _ => C.moves_ircDccResume id _ _ _

theorem Carries.moves_recvFileRequestReverse (env : Env) {filename : Bytes} (hname : names filename)
    (size id token : ℕ) : Moves R (recvFileRequestReverse env nick filename size id token) :=
  C.moves_recvFileWith env filename size
    (fun _ => C.moves_ircDccAcceptReverse env id _ _ hname size token)
    fun _ _ => C.moves_ircDccResumeReverse id _ _ _ token

theorem Carries.moves_callCb (env : Env) (id status : ℕ) (data : Option Bytes) (length : ℕ) :
    Moves R (callCb env id status data length) := by
  refine C.frame.get_bind fun s => ?_
  cases s.dccSessions.find? (fun d => decide (d.id = id)) with
  | none => exact C.frame.pure _
  | some dcc =>
    refine C.frame.bind (C.recorded _ (by simp) (by simp)) fun _ => ?_
    cases dcc.cb with
    | none => exact C.frame.throw _
    | some cb =>
      cases cb with
      | callbackDccRecvFile => exact C.toWatches.moves_callbackDccRecvFile _ _ _ _
      | callbackDccResumeFile => exact C.moves_callbackDccResumeFile _ _ _ _

theorem Carries.moves_callReverseCb (env : Env) (id size : ℕ) (token : ℕ) :
    Moves R (callReverseCb env id size nick token) := by
  refine C.frame.get_bind fun s => ?_
  cases s.dccSessions.find? (fun d => decide (d.id = id)) with
  | none => exact C.frame.pure _
  | some dcc =>
    refine C.frame.bind (C.recorded _ (by simp) (by simp)) fun _ => ?_
    cases dcc.reverseCb with
    | none => exact C.frame.throw _
    | some cb =>
      cases cb with
      | callbackDccResumeFileReverse =>
        exact C.moves_callbackDccResumeFileReverse env id _ size C.named token

theorem Carries.moves_found {found : DccSession → Bool} {x : ℕ → DccSession → ClientM Unit}
    (h : ∀ id d, Moves R (x id d)) :
    Moves R (do
      match ← libircFind found true with
      | none => return
      | some dcc => x dcc.id dcc) := by
  refine C.frame.bind (C.moves_libircFind _ _) fun d => ?_
  cases d with
  | none => exact C.frame.pure _
  | some dcc => exact h dcc.id dcc

theorem Carries.requests_keep (env : Env) : (requests env nick).Keeps (Moves R) names where
  env := rfl
  pure := C.frame.pure _
  bind h h' := C.frame.bind h fun _ => h'
  setLasterror := C.moves_setLasterror
  unlock := C.moves_unlock
  newDccSession ip port ssl _ _ h :=
    C.frame.bind (C.moves_libircNewDccSession env ip port none ssl) h
  withToken _ _ _ h := C.moves_found h
  withPort _ _ _ h := C.moves_found h
  noted _ _ _ _ h := h
  modify := C.moves_modifySession
  eventDccSendReq filename size id _ := C.moves_recvFileRequest env filename size id
  eventDccSendReqReverse _ size id token hname :=
    C.moves_recvFileRequestReverse env hname size id token
  cb id size := C.moves_callCb env id 1 none size
  reverseCb id size token := C.moves_callReverseCb env id size token

section turns
variable (hack : ∀ id word len, Moves R (record (.acknowledged id word len)))
include hack

theorem Carries.moves_processDescriptor (id : ℕ) (ready : SocketReady) :
    Moves R (processDescriptor id ready) :=
  EventSpecs.moves_processDescriptor C.frame
    (fun id => EventSpecs.turn_keeps C.frame C.moves_lock C.moves_unlock
      (fun _ => C.recorded _ (by simp) (by simp)) (hack id) (C.moves_modifySession id)
      (C.moves_libircDccDestroyNolock id))
    (fun id err => C.moves_callCb noEnv id err none 0)
    (fun id _ => C.moves_callCb noEnv id _ _ _) id ready

theorem Carries.moves_handle {e : Event} (h : ∀ env from_ req, e ≠ .request env from_ req) :
    Moves R (handle e) := by
  cases e with
  | request env from_ req => exact absurd rfl (h env from_ req)
  | socket id ready =>
    exact C.frame.bind C.moves_lock fun _ =>
      C.frame.bind (C.moves_processDescriptor hack id ready) fun _ => C.moves_unlock
  | addDescriptors => exact C.moves_modify fun _ => ⟨rfl, rfl, rfl⟩
  | outputTimer => exact C.moves_modify fun _ => ⟨rfl, rfl, rfl⟩

end turns

end programs

section steps
variable {R : Client → Client → Prop} {s : Client} {e : Event}

theorem Bears.step_of_handle (B : Bears R) (h : R s (endState (handle e) s)) : R s (step s e) := by
  cases hs : s.halted with
  | some fault =>
    rw [TableChanges.step_of_halted hs]
    exact B.frame.refl s
  | none =>
    rcases TableChanges.step_eq_or hs e with heq | ⟨fault, heq⟩
    · rw [heq]
      exact h
    · rw [heq]
      exact B.frame.trans s _ _ h (B.elsewhere _ _ rfl rfl rfl)

theorem Carries.step {nick : Option Bytes} {names : Bytes → Prop} (C : Carries R nick names)
    (hack : ∀ id word len, Moves R (record (.acknowledged id word len)))
    (h : ∀ env from_ req, e ≠ .request env from_ req) (s : Client) : R s (step s e) :=
  C.toBears.step_of_handle (C.moves_handle hack h s)

theorem Bears.moves_request (B : Bears R) (env : Env) (nick : Option Bytes) (req : Bytes)
    {names : Bytes → Prop}
    (hname : ∀ filename, (dccRequestCall true req).filename = some filename → names filename)
    (h : isValidRequestFromNick s.cfg nick = some true → Carries R nick names) :
    R s (endState (handle (.request env nick req)) s) := by
  change R s (endState (libircDccRequest env nick req) s)
  have hget : (get : ClientM Client).run s = .ok s s := rfl
  unfold libircDccRequest
  rw [endState_bind_of_ok hget]
  cases hvalid : isValidRequestFromNick s.cfg nick with
  | none => exact B.frame.throw _ s
  | some verified =>
    cases verified with
    | true => exact ((h hvalid).requests_keep env).handleCall hname s
    | false => exact B.frame.pure _ s

theorem Bears.step_request (B : Bears R) (env : Env) (nick : Option Bytes) (req : Bytes)
    {names : Bytes → Prop}
    (hname : ∀ filename, (dccRequestCall true req).filename = some filename → names filename)
    (h : isValidRequestFromNick s.cfg nick = some true → Carries R nick names) :
    R s (DccEvents.step s (.request env nick req)) :=
  B.step_of_handle (B.moves_request env nick req hname h)

end steps

end Xdccget.TransferFrames
