import Xdccget.ClientState

set_option autoImplicit false

/-!
# The session operations of `dcc.c`
-/
namespace Xdccget.DccSessions
open CText DccMessages ClientState

/-- The lookups of `dcc.c`, newest session first: a session that is found leaves the list locked
    when the lookup was asked to lock it. -/
def libircFind (found : DccSession → Bool) (lockList : Bool) : ClientM (Option DccSession) := do
  if lockList then
    libircMutexLock
  let d := (← get).dccSessions.find? found
  if d.isNone && lockList then
    libircMutexUnlock
  return d

def libircFindDccSession (dccid : ℕ) (lockList : Bool) : ClientM (Option DccSession) :=
  libircFind (fun d => d.id = dccid) lockList

def libircFindDccSessionByPort (port : ℕ) (lockList : Bool) : ClientM (Option DccSession) :=
  libircFind (fun d => d.sinPort = port) lockList

def libircFindDccSessionByToken (token : ℕ) (lockList : Bool) : ClientM (Option DccSession) :=
  libircFind (fun d => d.passiveConnection && d.token = token) lockList

def libircDccDestroyNolock (dccid : ℕ) : ClientM Unit := do
  match ← libircFindDccSession dccid false with
  | none => return
  | some _ => modifySession dccid fun d => { d with sock := none, state := .removed }

/-- A new session at the head of the list, or the error of `libirc_new_dcc_session`. -/
def libircNewDccSession (env : Env) (ip port : ℕ) (ctx : Option ℕ) (ssl : Bool) :
    ClientM (Except ℕ ℕ) := do
  match env.socket with
  | none => return .error libircErrSocket
  | some sock =>
    if ssl && !(← get).net.sslContext then
      if !env.initSslContext then
        exitPgm
      modify fun s => { s with net := { s.net with sslContext := true } }
    let dccid := (← get).dccLastId
    let dcc : DccSession :=
      { id := dccid
        passiveConnection := false
        token := 0
        ctx := ctx
        sock := some sock
        state := .init
        ssl := ssl
        receivedFileSize := 0
        fileConfirmOffset := 0
        sinAddr := ip % 2 ^ 32
        sinPort := port
        cb := none
        reverseCb := none }
    modify fun s => { s with dccLastId := dccid + 1, dccSessions := dcc :: s.dccSessions }
    return .ok dccid

/-- `irc_dcc_accept`. The handshake retries until it succeeds or fails for good. -/
def ircDccAccept (env : Env) (dccid : ℕ) (ctx : Option ℕ) (callback : DataCallback) :
    ClientM ℕ := do
  match ← libircFindDccSession dccid true with
  | none => return 1
  | some dcc =>
    if dcc.state ≠ .init then
      setLasterror libircErrState
      libircMutexUnlock
      return 1
    modifySession dccid fun d => { d with cb := some callback, ctx := ctx }
    record (.install dccid (.data callback))
    if !env.connect then
      libircDccDestroyNolock dccid
      libircMutexUnlock
      setLasterror libircErrConnect
      return 1
    if dcc.ssl && !env.sslConnect then
      -- the list stays locked
      setLasterror libircErrConnect
      return 1
    modifySession dccid fun d => { d with state := if d.ssl then .connected else .connecting }
    libircMutexUnlock
    return 0

def dccResumeText (port position : ℕ) : Bytes :=
  snprintf 512 (bytes "DCC RESUME file.ext " ++ decimal port ++ [space] ++ decimal position)

def dccResumeReverseText (position token : ℕ) : Bytes :=
  snprintf 512 (bytes "DCC RESUME file.ext 0 " ++ decimal position ++ [space] ++ decimal token)

def ircDccResume (dccid : ℕ) (ctx : Option ℕ) (callback : DataCallback) (nick : Option Bytes)
    (filePosition : ℕ) : ClientM ℕ := do
  match ← libircFindDccSession dccid true with
  | none => return 1
  | some dcc =>
    if dcc.state ≠ .init then
      setLasterror libircErrState
      libircMutexUnlock
      return 1
    modifySession dccid fun d => { d with cb := some callback, ctx := ctx }
    record (.install dccid (.data callback))
    discard (ircCmdCtcpRequest nick (dccResumeText dcc.sinPort filePosition))
    modifySession dccid fun d => { d with state := .waitingForResumeAck }
    libircMutexUnlock
    return 0

def ircDccResumeReverse (dccid : ℕ) (ctx : Option ℕ) (callback : ReverseCallback)
    (nick : Option Bytes) (filePosition token : ℕ) : ClientM ℕ := do
  match ← libircFindDccSession dccid true with
  | none => return 1
  | some dcc =>
    if dcc.state ≠ .init then
      setLasterror libircErrState
      libircMutexUnlock
      return 1
    modifySession dccid fun d => { d with reverseCb := some callback, ctx := ctx }
    record (.install dccid (.reverse callback))
    discard (ircCmdCtcpRequest nick (dccResumeReverseText filePosition token))
    modifySession dccid fun d => { d with state := .waitingForResumeAck }
    libircMutexUnlock
    return 0

/-- The answer to a reverse offer, with the name in quotes when it has a blank. -/
def dccSendReverseText (filename : Bytes) (ip port size token : ℕ) : Bytes :=
  let name := if filename.contains space then quote :: (filename ++ [quote]) else filename
  snprintf 4096 (bytes "DCC SEND " ++ name ++ [space] ++ decimal ip ++ [space] ++ decimal port ++
    [space] ++ decimal size ++ [space] ++ decimal token)

def ircDccAcceptReverse (env : Env) (dccid : ℕ) (ctx : Option ℕ) (callback : DataCallback)
    (nick : Option Bytes) (filename : Bytes) (size token : ℕ) : ClientM ℕ := do
  match ← libircFindDccSession dccid true with
  | none => return 1
  | some dcc =>
    if dcc.state ≠ .init then
      setLasterror libircErrState
      libircMutexUnlock
      return 1
    match env.inetPton with
    | none =>
      -- the list stays locked
      setLasterror libircListenIpInvalid
      return 1
    | some addr =>
      let port := (← get).cfg.listenPort
      discard (ircCmdCtcpRequest nick (dccSendReverseText filename addr port size token))
      modifySession dccid fun d =>
        { d with state := .initPassive, cb := some callback, ctx := ctx }
      record (.install dccid (.data callback))
      libircMutexUnlock
      return 0

/-- Only the state is changed and the socket closed; the memory is freed later. -/
def ircDccDestroy (dccid : ℕ) : ClientM ℕ := do
  match ← libircFindDccSession dccid true with
  | none => return 1
  | some _ =>
    modifySession dccid fun d => { d with sock := none, state := .removed }
    libircMutexUnlock
    return 0

def ircDccDecline (dccid : ℕ) : ClientM ℕ := do
  match ← libircFindDccSession dccid true with
  | none => return 1
  | some dcc =>
    if dcc.state ≠ .init then
      setLasterror libircErrState
      libircMutexUnlock
      return 1
    libircDccDestroyNolock dccid
    libircMutexUnlock
    return 0

end Xdccget.DccSessions
