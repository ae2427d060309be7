import Xdccget.DownloadSpecs
import Xdccget.DccEvents

set_option autoImplicit false

/-!
# Where a null nick is followed

`libirc_dcc_request` compares the nick with the nicks of the bots first. Behind
this check a null nick is only handed on to `irc_cmd_ctcp_request`, which checks it.
-/
namespace Xdccget.NickFaults
open CText DccMessages ClientState DccSessions Downloads DccEvents HaltingPrograms SessionSpecs
  DownloadSpecs

abbrev Guarded {α : Type} (x : ClientM α) : Prop := Never (· = Halt.nullNick) x

section sessions

theorem ircSendRaw_guarded (text : Bytes) : Guarded (ircSendRaw text) := by
  intro s
  obtain ⟨ret, net, l, hrun, -⟩ := ircSendRaw_run text s
  exact avoids_of_ok hrun

theorem ircCmdCtcpRequest_guarded (nick : Option Bytes) (reply : Bytes) :
    Guarded (ircCmdCtcpRequest nick reply) := by
  cases nick with
  | none => exact never_bind (never_modify _) fun _ => never_pure _
  | some nick => exact ircSendRaw_guarded _

theorem exitPgm_guarded : Guarded exitPgm := never_throw (by decide)

theorem libircFind_guarded (found : DccSession → Bool) (lockList : Bool) :
    Guarded (libircFind found lockList) := by
  intro s
  cases lockList with
  | false => exact avoids_of_ok (libircFind_run_nolock found s)
  | true =>
    cases h : s.dccSessions.find? found with
    | none => exact avoids_of_ok (libircFind_run_of_none h true)
    | some d => exact avoids_of_ok (libircFind_run_of_some h)

theorem guarded_lookup {α : Type} {found : DccSession → Bool} {lockList : Bool} {x : ClientM α}
    {y : DccSession → ClientM α} (hx : Guarded x) (hy : ∀ d, Guarded (y d)) :
    Guarded (libircFind found lockList >>= fun r => match r with
      | none => x
      | some d => y d) := by
  apply never_bind (libircFind_guarded _ _)
  intro r
  cases r with
  | none => exact hx
  | some d => exact hy d

theorem refused_guarded (ret : ℕ) : Guarded (do
    setLasterror libircErrState
    libircMutexUnlock
    return ret) :=
  never_bind (never_modify _) fun _ => never_bind (never_modify _) fun _ => never_pure _

theorem libircDccDestroyNolock_guarded (dccid : ℕ) : Guarded (libircDccDestroyNolock dccid) :=
  guarded_lookup (never_pure _) fun _ => never_modify _

theorem libircNewDccSession_guarded (env : Env) (ip port : ℕ) (ctx : Option ℕ) (ssl : Bool) :
    Guarded (libircNewDccSession env ip port ctx ssl) := by
  unfold libircNewDccSession
  cases env.socket with
  | none => exact never_pure _
  | some sock =>
    repeat' first
      | exact never_pure _
      | exact never_get
      | exact never_modify _
      | exact exitPgm_guarded
      | refine never_bind ?_ fun _ => ?_
      | apply never_ite

theorem ircDccAccept_guarded (env : Env) (dccid : ℕ) (ctx : Option ℕ) (callback : DataCallback) :
    Guarded (ircDccAccept env dccid ctx callback) := by
  refine guarded_lookup (never_pure _) fun dcc => never_ite (refused_guarded 1) ?_
  refine never_bind (never_modify _) fun _ => never_bind (never_modify _) fun _ => ?_
  apply never_ite
  · exact never_bind (libircDccDestroyNolock_guarded dccid) fun _ =>
      never_bind (never_modify _) fun _ => never_bind (never_modify _) fun _ => never_pure _
  · apply never_ite
    · exact never_bind (never_modify _) fun _ => never_pure _
    · exact never_bind (never_modify _) fun _ => never_bind (never_modify _) fun _ => never_pure _

theorem requested_guarded {x : ClientM ℕ} (nick : Option Bytes) (reply : Bytes) (hx : Guarded x) :
    Guarded (discard (ircCmdCtcpRequest nick reply) >>= fun _ => x) :=
  never_bind (never_discard (ircCmdCtcpRequest_guarded nick reply)) fun _ => hx

theorem ircDccResume_guarded (dccid : ℕ) (ctx : Option ℕ) (callback : DataCallback)
    (nick : Option Bytes) (filePosition : ℕ) :
    Guarded (ircDccResume dccid ctx callback nick filePosition) := by
  refine guarded_lookup (never_pure _) fun dcc => never_ite (refused_guarded 1) ?_
  refine never_bind (never_modify _) fun _ => never_bind (never_modify _) fun _ => ?_
  apply requested_guarded
  exact never_bind (never_modify _) fun _ => never_bind (never_modify _) fun _ => never_pure _

theorem ircDccResumeReverse_guarded (dccid : ℕ) (ctx : Option ℕ) (callback : ReverseCallback)
    (nick : Option Bytes) (filePosition token : ℕ) :
    Guarded (ircDccResumeReverse dccid ctx callback nick filePosition token) := by
  refine guarded_lookup (never_pure _) fun dcc => never_ite (refused_guarded 1) ?_
  refine never_bind (never_modify _) fun _ => never_bind (never_modify _) fun _ => ?_
  apply requested_guarded
  exact never_bind (never_modify _) fun _ => never_bind (never_modify _) fun _ => never_pure _

theorem ircDccAcceptReverse_guarded (env : Env) (dccid : ℕ) (ctx : Option ℕ)
    (callback : DataCallback) (nick : Option Bytes) (filename : Bytes) (size token : ℕ) :
    Guarded (ircDccAcceptReverse env dccid ctx callback nick filename size token) := by
  refine guarded_lookup (never_pure _) fun dcc => never_ite (refused_guarded 1) ?_
  cases env.inetPton with
  | none => exact never_bind (never_modify _) fun _ => never_pure _
  | some addr =>
    refine never_bind never_get fun s => requested_guarded _ _ ?_
    exact never_bind (never_modify _) fun _ => never_bind (never_modify _) fun _ =>
      never_bind (never_modify _) fun _ => never_pure _

end sessions

section downloads

theorem exitOnFailure_guarded {call : ClientM ℕ} (h : Guarded call) : Guarded (exitOnFailure call) :=
  never_bind h fun _ => never_ite exitPgm_guarded (never_pure _)

theorem openFile_guarded (env : Env) (context : ℕ) (path : Bytes) (append : Bool) :
    Guarded (openFile env context path append) := by
  intro s
  cases h : env.fopen with
  | true => exact avoids_of_ok (openFile_run h s context path append)
  | false =>
    exact (avoids_iff_of_error (openFile_run_of_failure h s context path append)).mpr (by decide)

theorem prepareRecvFileRequest_guarded (env : Env) (filename : Bytes) (size : ℕ) :
    Guarded (prepareRecvFileRequest env filename size) := by
  unfold prepareRecvFileRequest
  repeat' first
    | exact never_pure _
    | exact never_get
    | exact never_modify _
    | exact exitPgm_guarded
    | refine never_bind ?_ fun _ => ?_
    | apply never_ite

theorem recvFileWith_guarded (env : Env) (filename : Bytes) (size : ℕ) {accept : ℕ → ClientM ℕ}
    {resume : ℕ → ℕ → ClientM ℕ} (haccept : ∀ context, Guarded (accept context))
    (hresume : ∀ context fileSize, Guarded (resume context fileSize)) :
    Guarded (recvFileWith env filename size accept resume) := by
  refine never_bind (prepareRecvFileRequest_guarded env filename size) fun context =>
    never_bind never_get fun s => ?_
  dsimp only
  split
  · refine never_bind (openFile_guarded _ _ _ _) fun _ => ?_
    have htail (fileSize : ℕ) : Guarded (if fileSize = 0 then exitOnFailure (accept context)
        else exitOnFailure (resume context fileSize)) :=
      never_ite (exitOnFailure_guarded (haccept context))
        (exitOnFailure_guarded (hresume context fileSize))
    exact never_ite (never_bind exitPgm_guarded fun _ => htail _) (htail _)
  · exact never_bind (openFile_guarded _ _ _ _) fun _ => exitOnFailure_guarded (haccept context)

theorem recvFileRequest_guarded (env : Env) (nick : Option Bytes) (filename : Bytes)
    (size dccid : ℕ) : Guarded (recvFileRequest env nick filename size dccid) :=
  recvFileWith_guarded env filename size (fun _ => ircDccAccept_guarded _ _ _ _)
    fun _ _ => ircDccResume_guarded _ _ _ _ _

theorem recvFileRequestReverse_guarded (env : Env) (nick : Option Bytes) (filename : Bytes)
    (size dccid token : ℕ) : Guarded (recvFileRequestReverse env nick filename size dccid token) :=
  recvFileWith_guarded env filename size (fun _ => ircDccAcceptReverse_guarded _ _ _ _ _ _ _ _)
    fun _ _ => ircDccResumeReverse_guarded _ _ _ _ _ _

theorem seekToResume_guarded (env : Env) (context length : ℕ) :
    Guarded (seekToResume env context length) := by
  refine never_bind (never_bind never_get fun s => ?_) fun _ => never_modify _
  cases s.downloadContext[context]? with
  | none => exact never_throw (by decide)
  | some c =>
    dsimp only
    cases c.fd with
    | none => exact never_throw (by decide)
    | some fd => exact never_ite (never_modify _) (never_throw (by decide))

theorem callbackDccResumeFile_guarded (env : Env) (dccid : ℕ) (ctx : Option ℕ) (length : ℕ) :
    Guarded (callbackDccResumeFile env dccid ctx length) := by
  cases ctx with
  | none => exact never_throw (by decide)
  | some context =>
    exact never_bind (seekToResume_guarded env context length) fun _ =>
      exitOnFailure_guarded (ircDccAccept_guarded _ _ _ _)

theorem callbackDccResumeFileReverse_guarded (env : Env) (dccid : ℕ) (ctx : Option ℕ) (length : ℕ)
    (nick : Option Bytes) (filename : Bytes) (token : ℕ) :
    Guarded (callbackDccResumeFileReverse env dccid ctx length nick filename token) := by
  cases ctx with
  | none => exact never_throw (by decide)
  | some context =>
    refine never_bind (seekToResume_guarded env context length) fun _ => never_bind never_get fun s => ?_
    cases s.downloadContext[context]? with
    | none => exact never_throw (by decide)
    | some c => exact exitOnFailure_guarded (ircDccAcceptReverse_guarded _ _ _ _ _ _ _ _)

end downloads

section requests

theorem callCb_guarded (env : Env) (dccid status length : ℕ) :
    Guarded (callCb env dccid status none length) := by
  refine never_bind never_get fun s => ?_
  cases s.dccSessions.find? (fun d => d.id = dccid) with
  | none => exact never_pure _
  | some dcc =>
    refine never_bind (never_modify _) fun _ => ?_
    cases dcc.cb with
    | none => exact never_throw (by decide)
    | some cb =>
      cases cb with
      | callbackDccRecvFile =>
        exact fun t => avoids_of_ok (callbackDccRecvFile_run_of_none status dcc.ctx length t)
      | callbackDccResumeFile => exact callbackDccResumeFile_guarded _ _ _ _

theorem callReverseCb_guarded (env : Env) (dccid size : ℕ) (nick : Option Bytes) (token : ℕ) :
    Guarded (callReverseCb env dccid size nick token) := by
  refine never_bind never_get fun s => ?_
  cases s.dccSessions.find? (fun d => d.id = dccid) with
  | none => exact never_pure _
  | some dcc =>
    refine never_bind (never_modify _) fun _ => ?_
    cases dcc.reverseCb with
    | none => exact never_throw (by decide)
    | some cb => exact callbackDccResumeFileReverse_guarded _ _ _ _ _ _ _

theorem requests_guarded (env : Env) (nick : Option Bytes) :
    (requests env nick).Keeps Guarded fun _ => True where
  env := rfl
  pure := never_pure _
  bind h h' := never_bind h fun _ => h'
  setLasterror _ := never_modify _
  unlock := never_modify _
  newDccSession _ _ _ _ _ h := never_bind (libircNewDccSession_guarded _ _ _ _ _) h
  withToken _ _ _ h := guarded_lookup (never_pure _) fun _ => h _ _
  withPort _ _ _ h := guarded_lookup (never_pure _) fun _ => h _ _
  noted _ _ _ _ h := h
  modify _ _ := never_modify _
  eventDccSendReq _ _ _ _ := recvFileRequest_guarded _ _ _ _ _
  eventDccSendReqReverse _ _ _ _ _ := recvFileRequestReverse_guarded _ _ _ _ _ _
  cb _ _ := callCb_guarded _ _ _ _
  reverseCb _ _ _ := callReverseCb_guarded _ _ _ _ _

theorem libircDccRequest_avoids_iff (env : Env) (nick : Option Bytes) (req : Bytes) (c : Client) :
    Avoids (· = Halt.nullNick) (libircDccRequest env nick req) c ↔
      isValidRequestFromNick c.cfg nick ≠ none := by
  have hget : (get : ClientM Client).run c = .ok c c := rfl
  apply (avoids_bind_iff_of_ok hget).trans
  cases isValidRequestFromNick c.cfg nick with
  | none => exact (avoids_iff_of_error rfl).trans (by simp)
  | some verified =>
    exact iff_of_true ((requests_guarded env nick).handleCall (fun _ _ => trivial) c) (by simp)

end requests

end Xdccget.NickFaults
