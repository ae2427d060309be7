import Xdccget.FreeCallbacks
import Xdccget.LinkedNodes
import Xdccget.ProgramRelations

set_option autoImplicit false

/-!
# The sessions of `dcc.c` as nodes

The functions of `dcc.c` over `session->dcc_sessions` as it is: nodes from `malloc`, linked by
`next`, with ids of 32 bits. A loop takes no more rounds than there are nodes when it starts;
one that would is endless.
-/
namespace Xdccget.SessionNodes
open CText DccMessages ClientState LinkedNodes ProgramRelations
open DccSessions (dccResumeText dccResumeReverseText dccSendReverseText)
open FreeCallbacks (DccOperation SocketReady)
open DccRequests (Requests)
open SocketTurns (Turn)

/-- How the process ends early, the use of freed memory and an endless loop included. -/
inductive Fault
  | halt (h : Halt)
  | freed
  | endless
  deriving DecidableEq, Repr

/-- `irc_session_t`. The rest of it and of the process is a `client` that has no sessions of its
    own. -/
structure NodeSession where
  nodes : Heap DccSession
  dccSessions : Option ℕ
  dccLastId : ℕ
  client : Client
  fault : Option Fault

abbrev SessionM := EStateM Fault NodeSession

/-- A function that does not look at the sessions. -/
def onClient {α : Type} (x : ClientM α) : SessionM α :=
  zoom .halt NodeSession.client (fun c s => { s with client := c }) x

/-- `*dcc` -/
def load (dcc : ℕ) : SessionM (Node DccSession) := do
  match (← get).nodes.lookup dcc with
  | none => throw .freed
  | some node => return node

def store (dcc : ℕ) (node : Node DccSession) : SessionM Unit :=
  modify fun s => { s with nodes := s.nodes.insert dcc node }

/-- `dcc->field = value` -/
def write (dcc : ℕ) (f : DccSession → DccSession) : SessionM Unit := do
  let node ← load dcc
  store dcc { node with item := f node.item }

def findLoop (found : DccSession → Bool) : ℕ → Option ℕ → SessionM (Option ℕ)
  | _, none => return none
  | 0, some _ => throw .endless
  | rounds + 1, some s => do
    let node ← load s
    if found node.item then
      return some s
    findLoop found rounds node.next

/-- The three lookups of `dcc.c`. -/
def libircFind (found : DccSession → Bool) (lockList : Bool) : SessionM (Option ℕ) := do
  if lockList then
    onClient libircMutexLock
  let s ← get
  let dcc ← findLoop found s.nodes.keys.length s.dccSessions
  if dcc.isNone && lockList then
    onClient libircMutexUnlock
  return dcc

def libircFindDccSession (dccid : ℕ) (lockList : Bool) : SessionM (Option ℕ) :=
  libircFind (fun d => d.id = dccid) lockList

def libircFindDccSessionByPort (port : ℕ) (lockList : Bool) : SessionM (Option ℕ) :=
  libircFind (fun d => d.sinPort = port) lockList

def libircFindDccSessionByToken (token : ℕ) (lockList : Bool) : SessionM (Option ℕ) :=
  libircFind (fun d => d.passiveConnection && d.token = token) lockList

def libircDccDestroyNolock (dccid : ℕ) : SessionM Unit := do
  match ← libircFindDccSession dccid false with
  | none => return
  | some dcc => write dcc fun d => { d with sock := none, state := .removed }

/-- The loop of `libirc_remove_dcc_session` for a session that is not the first. -/
def unlinkLoop (dcc : ℕ) : ℕ → Option ℕ → SessionM Unit
  | _, none => return
  | 0, some _ => throw .endless
  | rounds + 1, some s => do
    let node ← load s
    if node.next = some dcc then
      store s { node with next := (← load dcc).next }
    else
      unlinkLoop dcc rounds node.next

def libircRemoveDccSession (dcc : ℕ) (lockList : Bool) : SessionM Unit := do
  write dcc fun d => { d with sock := none }
  if lockList then
    onClient libircMutexLock
  let s ← get
  if s.dccSessions ≠ some dcc then
    unlinkLoop dcc s.nodes.keys.length s.dccSessions
  else
    let node ← load dcc
    modify fun s => { s with dccSessions := node.next }
  if lockList then
    onClient libircMutexUnlock
  modify fun s => { s with nodes := s.nodes.erase dcc }

/-- The first loop of `libirc_dcc_add_descriptors`. The successor is read before the session is
    freed. -/
def removeLoop : ℕ → Option ℕ → SessionM Unit
  | _, none => return
  | 0, some _ => throw .endless
  | rounds + 1, some dcc => do
    let node ← load dcc
    let dccNext := node.next
    if node.item.state = .removed then
      libircRemoveDccSession dcc false
    removeLoop rounds dccNext

inductive FdWatch
  | read | write
  deriving DecidableEq, Repr

/-- What `fdwatch_set_fd` is told of a session. -/
def watched : LibircState → Option FdWatch
  | .connecting => some .write
  | .connected => some .read
  | .confirmSize => some .write
  | .initPassive => some .read
  | _ => none

def watchLoop : ℕ → Option ℕ → SessionM (List (Option ℕ × Option FdWatch))
  | _, none => return []
  | 0, some _ => throw .endless
  | rounds + 1, some dcc => do
    let node ← load dcc
    let fds ← watchLoop rounds node.next
    return (node.item.sock, watched node.item.state) :: fds

def libircDccAddDescriptors : SessionM (List (Option ℕ × Option FdWatch)) := do
  onClient libircMutexLock
  let s ← get
  removeLoop s.nodes.keys.length s.dccSessions
  let s ← get
  let fds ← watchLoop s.nodes.keys.length s.dccSessions
  onClient libircMutexUnlock
  return fds

/-- `memory` is the block that `malloc` would hand out. -/
def libircNewDccSession (env : Env) (memory : Option ℕ) (ip port : ℕ) (ctx : Option ℕ)
    (ssl : Bool) : SessionM (Except ℕ ℕ) := do
  match memory with
  | none => return .error libircErrNomem
  | some choice =>
    match env.socket with
    | none => return .error libircErrSocket
    | some sock =>
      if ssl && !(← get).client.net.sslContext then
        if !env.initSslContext then
          onClient exitPgm
        onClient (modify fun s => { s with net := { s.net with sslContext := true } })
      let s ← get
      let dcc := fresh s.nodes choice
      let item : DccSession :=
        { id := s.dccLastId
          passiveConnection := false
          token := 0
          ctx := ctx
          sock := some sock
          state := .init
          ssl := ssl
          receivedFileSize := 0
          fileConfirmOffset := 0
          sinAddr := ip % 2 ^ 32
          sinPort := port
          cb := none
          reverseCb := none }
      modify fun s => { s with
        dccLastId := (s.dccLastId + 1) % 2 ^ 32
        nodes := s.nodes.insert dcc { item := item, next := s.dccSessions }
        dccSessions := some dcc }
      return .ok dcc

def ircDccDestroy (dccid : ℕ) : SessionM ℕ := do
  match ← libircFindDccSession dccid true with
  | none => return 1
  | some dcc =>
    write dcc fun d => { d with sock := none, state := .removed }
    onClient libircMutexUnlock
    return 0

def ircDccDecline (dccid : ℕ) : SessionM ℕ := do
  match ← libircFindDccSession dccid true with
  | none => return 1
  | some dcc =>
    let node ← load dcc
    if node.item.state ≠ .init then
      onClient (setLasterror libircErrState)
      onClient libircMutexUnlock
      return 1
    libircDccDestroyNolock dccid
    onClient libircMutexUnlock
    return 0

def ircDccAccept (env : Env) (dccid : ℕ) (ctx : Option ℕ) (callback : DataCallback) :
    SessionM ℕ := do
  match ← libircFindDccSession dccid true with
  | none => return 1
  | some dcc =>
    let node ← load dcc
    if node.item.state ≠ .init then
      onClient (setLasterror libircErrState)
      onClient libircMutexUnlock
      return 1
    write dcc fun d => { d with cb := some callback, ctx := ctx }
    onClient (record (.install dccid (.data callback)))
    if !env.connect then
      libircDccDestroyNolock dccid
      onClient libircMutexUnlock
      onClient (setLasterror libircErrConnect)
      return 1
    if node.item.ssl && !env.sslConnect then
      onClient (setLasterror libircErrConnect)
      return 1
    write dcc fun d => { d with state := if d.ssl then .connected else .connecting }
    onClient libircMutexUnlock
    return 0

def ircDccResume (dccid : ℕ) (ctx : Option ℕ) (callback : DataCallback) (nick : Option Bytes)
    (filePosition : ℕ) : SessionM ℕ := do
  match ← libircFindDccSession dccid true with
  | none => return 1
  | some dcc =>
    let node ← load dcc
    if node.item.state ≠ .init then
      onClient (setLasterror libircErrState)
      onClient libircMutexUnlock
      return 1
    write dcc fun d => { d with cb := some callback, ctx := ctx }
    onClient (record (.install dccid (.data callback)))
    discard (onClient (ircCmdCtcpRequest nick (dccResumeText node.item.sinPort filePosition)))
    write dcc fun d => { d with state := .waitingForResumeAck }
    onClient libircMutexUnlock
    return 0

def ircDccResumeReverse (dccid : ℕ) (ctx : Option ℕ) (callback : ReverseCallback)
    (nick : Option Bytes) (filePosition token : ℕ) : SessionM ℕ := do
  match ← libircFindDccSession dccid true with
  | none => return 1
  | some dcc =>
    let node ← load dcc
    if node.item.state ≠ .init then
      onClient (setLasterror libircErrState)
      onClient libircMutexUnlock
      return 1
    write dcc fun d => { d with reverseCb := some callback, ctx := ctx }
    onClient (record (.install dccid (.reverse callback)))
    discard (onClient (ircCmdCtcpRequest nick (dccResumeReverseText filePosition token)))
    write dcc fun d => { d with state := .waitingForResumeAck }
    onClient libircMutexUnlock
    return 0

def ircDccAcceptReverse (env : Env) (dccid : ℕ) (ctx : Option ℕ) (callback : DataCallback)
    (nick : Option Bytes) (filename : Bytes) (size token : ℕ) : SessionM ℕ := do
  match ← libircFindDccSession dccid true with
  | none => return 1
  | some dcc =>
    let node ← load dcc
    if node.item.state ≠ .init then
      onClient (setLasterror libircErrState)
      onClient libircMutexUnlock
      return 1
    match env.inetPton with
    | none =>
      onClient (setLasterror libircListenIpInvalid)
      return 1
    | some addr =>
      let port := (← get).client.cfg.listenPort
      discard (onClient (ircCmdCtcpRequest nick (dccSendReverseText filename addr port size token)))
      write dcc fun d => { d with state := .initPassive, cb := some callback, ctx := ctx }
      onClient (record (.install dccid (.data callback)))
      onClient libircMutexUnlock
      return 0

def perform (dccid : ℕ) : DccOperation → SessionM ℕ
  | .destroy => ircDccDestroy dccid
  | .decline => ircDccDecline dccid
  | .accept env ctx callback => ircDccAccept env dccid ctx callback
  | .resume ctx callback nick filePosition => ircDccResume dccid ctx callback nick filePosition
  | .acceptReverse env ctx callback nick filename size token =>
    ircDccAcceptReverse env dccid ctx callback nick filename size token
  | .resumeReverse ctx callback nick filePosition token =>
    ircDccResumeReverse dccid ctx callback nick filePosition token

def performAll (dccid : ℕ) : List DccOperation → SessionM Unit
  | [] => return
  | call :: calls => do
    discard (perform dccid call)
    performAll dccid calls

/-- `(*dcc->cb) (...)`, which makes these calls. -/
def callCb (dcc : ℕ) (calls : List DccOperation) : SessionM Unit := do
  let node ← load dcc
  if node.item.cb.isNone then
    throw (.halt .nullCallback)
  performAll node.item.id calls

/-- `(*dcc->reverse_cb) (...)`, which makes these calls. -/
def callReverseCb (dcc : ℕ) (calls : List DccOperation) : SessionM Unit := do
  let node ← load dcc
  if node.item.reverseCb.isNone then
    throw (.halt .nullCallback)
  performAll node.item.id calls

/-- `memory` is where the node of a new session goes. -/
def requests (env : Env) (memory : Option ℕ) (calls : List DccOperation) : Requests SessionM where
  env := env
  setLasterror err := onClient (setLasterror err)
  unlock := onClient libircMutexUnlock
  newDccSession ip port ssl := libircNewDccSession env memory ip port none ssl
  withToken token x := do
    match ← libircFindDccSessionByToken token true with
    | none => return
    | some dcc => x dcc (← load dcc).item
  withPort port x := do
    match ← libircFindDccSessionByPort port true with
    | none => return
    | some dcc => x dcc (← load dcc).item
  noted _ _ x := x
  modify := write
  eventDccSendReq _ _ dcc := do performAll (← load dcc).item.id calls
  eventDccSendReqReverse _ _ dcc _ := do performAll (← load dcc).item.id calls
  cb dcc _ := callCb dcc calls
  reverseCb dcc _ _ := callReverseCb dcc calls

def libircDccRequest (env : Env) (memory : Option ℕ) (verified : Bool) (req : Bytes)
    (calls : List DccOperation) : SessionM Unit :=
  (requests env memory calls).handleCall (dccRequestCall verified req)

def turn (dcc : ℕ) : Turn SessionM where
  lock := onClient libircMutexLock
  unlock := onClient libircMutexUnlock
  noted _ x := x
  modify := write dcc
  withConfig k := do k (← get).client.cfg
  destroy := do libircDccDestroyNolock (← load dcc).item.id

/-- One round of `libirc_dcc_process_descriptors`, for a socket that is ready. -/
def processDescriptor (dcc : ℕ) (ready : SocketReady) : SessionM Unit := do
  (turn dcc).processDescriptor (← load dcc).item (ready.turn (callCb dcc))

/-- `ready` says for each session what its socket is ready for. -/
def processLoop (ready : ℕ → Option SocketReady) : ℕ → Option ℕ → SessionM Unit
  | _, none => return
  | 0, some _ => throw .endless
  | rounds + 1, some dcc => do
    let node ← load dcc
    match ready node.item.id with
    | none => pure ()
    | some r => processDescriptor dcc r
    -- `dcc->next`, after all that the callbacks have done
    let node ← load dcc
    processLoop ready rounds node.next

def libircDccProcessDescriptors (ready : ℕ → Option SocketReady) : SessionM Unit := do
  onClient libircMutexLock
  let s ← get
  processLoop ready s.nodes.keys.length s.dccSessions
  onClient libircMutexUnlock

inductive Event
  | request (env : Env) (memory : Option ℕ) (verified : Bool) (req : Bytes)
      (calls : List DccOperation)
  | operation (dccid : ℕ) (call : DccOperation)
  | addDescriptors
  | processDescriptors (ready : ℕ → Option SocketReady)

def handle : Event → SessionM Unit
  | .request env memory verified req calls => libircDccRequest env memory verified req calls
  | .operation dccid call => discard (perform dccid call)
  | .addDescriptors => discard libircDccAddDescriptors
  | .processDescriptors ready => libircDccProcessDescriptors ready

def step (s : NodeSession) (e : Event) : NodeSession :=
  match s.fault with
  | some _ => s
  | none =>
    match (handle e).run s with
    | .ok _ s' => s'
    | .error fault s' => { s' with fault := some fault }

/-- `irc_create_session` -/
def initial (client : Client) : NodeSession where
  nodes := ∅
  dccSessions := none
  dccLastId := 1
  client := client
  fault := none

end Xdccget.SessionNodes
