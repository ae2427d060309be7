import Xdccget.EventSpecs

set_option autoImplicit false

/-!
# The library over any user callbacks

The functions of `dcc.c` once more, with every lock and unlock of the session list
and with the function pointers as a parameter. With the callbacks of `xdccget.c`
they are the functions of `DccSessions` and `DccEvents`.
-/
namespace Xdccget.LockedCalls
open CText DccMessages ClientState DccSessions Downloads HaltingPrograms
open DccEvents (SocketReady noEnv)
open DccRequests (Requests)

inductive UserCall : Type → Type
  | verifyIncomingDccRequestsReq (nick : Option Bytes) : UserCall Bool
  | eventDccSendReq (env : Env) (nick : Option Bytes) (filename : Bytes) (size dccid : ℕ) :
    UserCall Unit
  | eventDccSendReqReverse (env : Env) (nick : Option Bytes) (filename : Bytes)
    (size dccid token : ℕ) : UserCall Unit
  | cb (env : Env) (pointer : Option DataCallback) (dccid status : ℕ) (ctx : Option ℕ)
    (data : Option Bytes) (length : ℕ) : UserCall Unit
  | reverseCb (env : Env) (pointer : Option ReverseCallback) (dccid : ℕ) (ctx : Option ℕ)
    (size : ℕ) (nick : Option Bytes) (filename : Bytes) (token : ℕ) : UserCall Unit

def Callbacks := ∀ α : Type, UserCall α → ClientM α

def verifyNick (nick : Option Bytes) : ClientM Bool := do
  match isValidRequestFromNick (← get).cfg nick with
  | none => throw .nullNick
  | some verified => return verified

def dataCallback (env : Env) (dccid status : ℕ) (ctx : Option ℕ) (data : Option Bytes)
    (length : ℕ) : Option DataCallback → ClientM Unit
  | none => throw .nullCallback
  | some .callbackDccRecvFile => callbackDccRecvFile status ctx data length
  | some .callbackDccResumeFile => callbackDccResumeFile env dccid ctx length

def reverseCallback (env : Env) (dccid : ℕ) (ctx : Option ℕ) (size : ℕ) (nick : Option Bytes)
    (filename : Bytes) (token : ℕ) : Option ReverseCallback → ClientM Unit
  | none => throw .nullCallback
  | some .callbackDccResumeFileReverse =>
    callbackDccResumeFileReverse env dccid ctx size nick filename token

/-- The callbacks that `xdccget.c` sets. -/
def xdccget : Callbacks
  | _, .verifyIncomingDccRequestsReq nick => verifyNick nick
  | _, .eventDccSendReq env nick filename size dccid => recvFileRequest env nick filename size dccid
  | _, .eventDccSendReqReverse env nick filename size dccid token =>
    recvFileRequestReverse env nick filename size dccid token
  | _, .cb env pointer dccid status ctx data length =>
    dataCallback env dccid status ctx data length pointer
  | _, .reverseCb env pointer dccid ctx size nick filename token =>
    reverseCallback env dccid ctx size nick filename token pointer

/-- `libirc_new_dcc_session`; the lock is held while the session gets its id and is linked. -/
def libircNewDccSession (env : Env) (ip port : ℕ) (ctx : Option ℕ) (ssl : Bool) :
    ClientM (Except ℕ ℕ) := do
  match env.socket with
  | none => return .error libircErrSocket
  | some sock =>
    if ssl && !(← get).net.sslContext then
      if !env.initSslContext then
        exitPgm
      modify fun s => { s with net := { s.net with sslContext := true } }
    libircMutexLock
    let dccid := (← get).dccLastId
    modify fun s => { s with
      dccLastId := dccid + 1
      dccSessions := SessionSpecs.newSession dccid sock ip port ctx ssl :: s.dccSessions }
    libircMutexUnlock
    return .ok dccid

section library
variable (c : Callbacks)

/-- `(*dcc->cb) (session, dcc->id, status, dcc->ctx, data, length)` -/
def callCb (env : Env) (dccid status : ℕ) (data : Option Bytes) (length : ℕ) : ClientM Unit := do
  match (← get).dccSessions.find? (fun d => d.id = dccid) with
  | none => return
  | some dcc =>
    record (.call dccid (dcc.cb.map .data))
    c _ (.cb env dcc.cb dccid status dcc.ctx data length)

/-- `(*dcc->reverse_cb) (session, dcc->id, 1, dcc->ctx, NULL, size, nick, "file.ext", token)` -/
def callReverseCb (env : Env) (dccid size : ℕ) (nick : Option Bytes) (token : ℕ) :
    ClientM Unit := do
  match (← get).dccSessions.find? (fun d => d.id = dccid) with
  | none => return
  | some dcc =>
    record (.call dccid (dcc.reverseCb.map .reverse))
    c _ (.reverseCb env dcc.reverseCb dccid dcc.ctx size nick (bytes "file.ext") token)

def requests (env : Env) (nick : Option Bytes) : Requests ClientM :=
  { DccEvents.requests env nick with
    newDccSession := fun ip port ssl => libircNewDccSession env ip port none ssl
    eventDccSendReq := fun filename size dccid =>
      c _ (.eventDccSendReq env nick filename size dccid)
    eventDccSendReqReverse := fun filename size dccid token =>
      c _ (.eventDccSendReqReverse env nick filename size dccid token)
    cb := fun dccid size => callCb c env dccid 1 none size
    reverseCb := fun dccid size token => callReverseCb c env dccid size nick token }

def libircDccRequest (env : Env) (nick : Option Bytes) (req : Bytes) : ClientM Unit := do
  let verified ← c _ (.verifyIncomingDccRequestsReq nick)
  (requests c env nick).handleCall (dccRequestCall verified req)

def processDescriptor (dccid : ℕ) (ready : SocketReady) : ClientM Unit := do
  match ← libircFindDccSession dccid false with
  | none => return
  | some dcc =>
    (DccEvents.turn dcc.id).processDescriptor dcc (ready.turn (callCb c noEnv dcc.id))

/-- `ready` tells for each session what its socket is ready for. -/
def libircDccProcessDescriptors (ready : ℕ → SocketReady) : ClientM Unit := do
  libircMutexLock
  let s ← get
  (s.dccSessions.map (·.id)).forM fun dccid => processDescriptor c dccid (ready dccid)
  libircMutexUnlock

end library

/-- The clean-up of `libirc_dcc_add_descriptors`; what it then watches is not modelled here. -/
def libircDccAddDescriptors : ClientM Unit := do
  libircMutexLock
  DccEvents.removeDccSessions
  libircMutexUnlock

/-- The entry points of the library that take the lock of the session list. -/
inductive LibraryCall
  | request (env : Env) (nick : Option Bytes) (req : Bytes)
  | accept (env : Env) (dccid : ℕ) (ctx : Option ℕ) (callback : DataCallback)
  | acceptReverse (env : Env) (dccid : ℕ) (ctx : Option ℕ) (callback : DataCallback)
    (nick : Option Bytes) (filename : Bytes) (size token : ℕ)
  | resume (dccid : ℕ) (ctx : Option ℕ) (callback : DataCallback) (nick : Option Bytes)
    (filePosition : ℕ)
  | resumeReverse (dccid : ℕ) (ctx : Option ℕ) (callback : ReverseCallback)
    (nick : Option Bytes) (filePosition token : ℕ)
  | decline (dccid : ℕ)
  | destroy (dccid : ℕ)
  | addDescriptors
  | processDescriptors (ready : ℕ → SocketReady)

/-- What the call runs, without its return value. -/
def LibraryCall.program (c : Callbacks) : LibraryCall → ClientM Unit
  | .request env nick req => libircDccRequest c env nick req
  | .accept env dccid ctx callback => discard (ircDccAccept env dccid ctx callback)
  | .acceptReverse env dccid ctx callback nick filename size token =>
    discard (ircDccAcceptReverse env dccid ctx callback nick filename size token)
  | .resume dccid ctx callback nick filePosition =>
    discard (ircDccResume dccid ctx callback nick filePosition)
  | .resumeReverse dccid ctx callback nick filePosition token =>
    discard (ircDccResumeReverse dccid ctx callback nick filePosition token)
  | .decline dccid => discard (ircDccDecline dccid)
  | .destroy dccid => discard (ircDccDestroy dccid)
  | .addDescriptors => libircDccAddDescriptors
  | .processDescriptors ready => libircDccProcessDescriptors c ready

section agreement

theorem libircNewDccSession_eq (env : Env) (ip port : ℕ) (ctx : Option ℕ) (ssl : Bool) :
    libircNewDccSession env ip port ctx ssl =
      DccSessions.libircNewDccSession env ip port ctx ssl := by
  unfold libircNewDccSession DccSessions.libircNewDccSession
  cases env.socket with
  | none => rfl
  | some sock =>
    funext s
    change EStateM.run _ s = EStateM.run _ s
    simp only [EStateM.run_bind, EStateM.run_get, libircMutexLock, libircMutexUnlock]
    by_cases hneed : (ssl && !s.net.sslContext) = true
    · cases hinit : env.initSslContext with
      | true => simp [hneed, SessionSpecs.newSession]
      | false => simp [hneed, exitPgm]
    · simp [hneed, SessionSpecs.newSession]

theorem requests_xdccget (env : Env) (nick : Option Bytes) :
    requests xdccget env nick = DccEvents.requests env nick := by
  simp only [requests, libircNewDccSession_eq]
  rfl

theorem libircDccRequest_xdccget (env : Env) (nick : Option Bytes) (req : Bytes) :
    libircDccRequest xdccget env nick req = DccEvents.libircDccRequest env nick req := by
  funext s
  change EStateM.run _ s = EStateM.run _ s
  simp only [xdccget, verifyNick, EStateM.run_bind, EStateM.run_get]
  cases isValidRequestFromNick s.cfg nick with
  | none => rfl
  | some verified =>
    dsimp only [EStateM.run_pure]
    rw [requests_xdccget]

theorem callCb_xdccget (env : Env) (dccid : ℕ) :
    callCb xdccget env dccid = DccEvents.callCb env dccid := rfl

theorem processDescriptor_xdccget (dccid : ℕ) (ready : SocketReady) :
    processDescriptor xdccget dccid ready = DccEvents.processDescriptor dccid ready := by
  simp only [processDescriptor, callCb_xdccget]
  rfl

end agreement

end Xdccget.LockedCalls
