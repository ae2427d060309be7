import Xdccget.DccRequests
import Xdccget.Downloads
import Xdccget.SocketTurns

set_option autoImplicit false

/-!
# Requests, socket turns and the steps of the client

What a CTCP request or a ready socket makes `dcc.c` and the callbacks do. A step
is one of them; after an exit or a fault nothing happens any more.
-/
namespace Xdccget.DccEvents
open CText DccMessages ClientState DccSessions Downloads
open DccRequests (Requests)
open SocketTurns (Turn ReadTurn SendTurn SocketTurn)

/-- `(*dcc->cb) (session, dcc->id, status, dcc->ctx, data, length)` -/
def callCb (env : Env) (dccid status : ℕ) (data : Option Bytes) (length : ℕ) : ClientM Unit := do
  match (← get).dccSessions.find? (fun d => d.id = dccid) with
  | none => return
  | some dcc =>
    record (.call dccid (dcc.cb.map .data))
    match dcc.cb with
    | none => throw .nullCallback
    | some .callbackDccRecvFile => callbackDccRecvFile status dcc.ctx data length
    | some .callbackDccResumeFile => callbackDccResumeFile env dccid dcc.ctx length

/-- `(*dcc->reverse_cb) (session, dcc->id, 1, dcc->ctx, NULL, size, nick, "file.ext", token)` -/
def callReverseCb (env : Env) (dccid size : ℕ) (nick : Option Bytes) (token : ℕ) :
    ClientM Unit := do
  match (← get).dccSessions.find? (fun d => d.id = dccid) with
  | none => return
  | some dcc =>
    record (.call dccid (dcc.reverseCb.map .reverse))
    match dcc.reverseCb with
    | none => throw .nullCallback
    | some .callbackDccResumeFileReverse =>
      callbackDccResumeFileReverse env dccid dcc.ctx size nick (bytes "file.ext") token

def requests (env : Env) (nick : Option Bytes) : Requests ClientM where
  env := env
  setLasterror := setLasterror
  unlock := libircMutexUnlock
  newDccSession ip port ssl := libircNewDccSession env ip port none ssl
  withToken token x := do
    match ← libircFindDccSessionByToken token true with
    | none => return
    | some dcc => x dcc.id dcc
  withPort port x := do
    match ← libircFindDccSessionByPort port true with
    | none => return
    | some dcc => x dcc.id dcc
  noted _ _ x := x
  modify := modifySession
  eventDccSendReq filename size dccid := recvFileRequest env nick filename size dccid
  eventDccSendReqReverse filename size dccid token :=
    recvFileRequestReverse env nick filename size dccid token
  cb dccid size := callCb env dccid 1 none size
  reverseCb dccid size token := callReverseCb env dccid size nick token

def acceptDccSend (env : Env) (nick : Option Bytes) (filename : Bytes) (ip size port : ℕ)
    (ssl : Bool) : ClientM Unit := (requests env nick).acceptDccSend filename ip size port ssl

theorem acceptDccSend_eq (env : Env) (nick : Option Bytes) (filename : Bytes) (ip size port : ℕ)
    (ssl : Bool) :
    acceptDccSend env nick filename ip size port ssl = (do
      match ← libircNewDccSession env ip port none ssl with
      | .error err => setLasterror err
      | .ok dccid =>
        recvFileRequest env nick filename size dccid
        modifySession dccid fun d => { d with receivedFileSize := size }) := rfl

def acceptReverseDccSend (env : Env) (nick : Option Bytes) (filename : Bytes) (ip size token : ℕ)
    (ssl : Bool) : ClientM Unit :=
  (requests env nick).acceptReverseDccSend filename ip size token ssl

theorem acceptReverseDccSend_eq (env : Env) (nick : Option Bytes) (filename : Bytes)
    (ip size token : ℕ) (ssl : Bool) :
    acceptReverseDccSend env nick filename ip size token ssl = (do
      match ← libircNewDccSession env ip 0 none ssl with
      | .error err => setLasterror err
      | .ok dccid =>
        modifySession dccid fun d => { d with passiveConnection := true, token := token }
        if !env.bind then
          setLasterror libircBindFailed
          return
        if !env.listen then
          setLasterror libircListenFailed
          return
        recvFileRequestReverse env nick filename size dccid token) := rfl

def acceptResumeReverse (env : Env) (nick : Option Bytes) (size token : ℕ) : ClientM Unit :=
  (requests env nick).acceptResumeReverse size token

theorem acceptResumeReverse_eq (env : Env) (nick : Option Bytes) (size token : ℕ) :
    acceptResumeReverse env nick size token = (do
      match ← libircFindDccSessionByToken token true with
      | none => return
      | some dcc =>
        if dcc.state ≠ .waitingForResumeAck then
          return
        modifySession dcc.id fun d => { d with state := .initPassive, fileConfirmOffset := size }
        libircMutexUnlock
        callReverseCb env dcc.id size nick token) := rfl

def acceptResume (env : Env) (port size : ℕ) : ClientM Unit :=
  (requests env none).acceptResume port size

theorem acceptResume_eq (env : Env) (port size : ℕ) :
    acceptResume env port size = (do
      match ← libircFindDccSessionByPort port true with
      | none => return
      | some dcc =>
        if dcc.state ≠ .waitingForResumeAck then
          return
        modifySession dcc.id fun d => { d with state := .init, fileConfirmOffset := size }
        libircMutexUnlock
        callCb env dcc.id 1 none size) := rfl

def libircDccRequest (env : Env) (nick : Option Bytes) (req : Bytes) : ClientM Unit := do
  match isValidRequestFromNick (← get).cfg nick with
  | none => throw .nullNick
  | some verified => (requests env nick).handleCall (dccRequestCall verified req)

/-- `LIBIRC_DCC_BUFFER_SIZE`, the `BUFSIZ` of glibc. -/
def libircDccBufferSize : ℕ := 8192

/-- What one `recv` or `SSL_read` brings. -/
structure Chunk where
  data : Bytes
  pos : 0 < data.length
  le : data.length ≤ libircDccBufferSize

/-- `again` is `EINTR` or `EAGAIN`, or the wish of SSL to read. `wantWrite` is a wish of SSL
    only; a plain socket just tries again. -/
inductive RecvResult
  | again | wantWrite | error | closed
  | data (chunk : Chunk)

/-- `sent 0` is a connection that the peer has closed. -/
inductive SendResult
  | again | wantRead | error
  | sent (len : ℕ)

/-- The environment is not asked for anything while data arrives. -/
def noEnv : Env :=
  { socket := none, initSslContext := false, bind := false, listen := false, connect := false,
    sslConnect := false, inetPton := none, fopen := false, fseek := false, junk := 0 }

/-- What the watched socket of a session is ready for, with the results of the calls made. -/
inductive SocketReady
  | connecting (getpeername : Bool)
  | receiving (results : List RecvResult)
  | confirming (result : SendResult)
  | accepting (sock : Option ℕ)

section turns
variable {m : Type → Type} (call : ℕ → Option Bytes → ℕ → m Unit)

/-- The callback gets the status, the data and its length. -/
def RecvResult.turn : RecvResult → ReadTurn m
  | .again => .again
  | .wantWrite => .wantWrite
  | .error => .fails (call libircErrRead none 0)
  | .closed => .fails (call libircErrClosed none 0)
  | .data chunk => .data chunk.data.length (call libircErrOk (some chunk.data) chunk.data.length)

def SendResult.turn : SendResult → SendTurn m
  | .again => .again
  | .wantRead => .wantRead
  | .error => .fails (call libircErrWrite none 0)
  | .sent 0 => .fails (call libircErrClosed none 0)
  | .sent (len + 1) => .sent (len + 1) (call libircErrOk none 0)

def SocketReady.turn : SocketReady → SocketTurn m
  | .connecting getpeername => .connecting getpeername
  | .receiving results => .receiving (results.map (·.turn call))
  | .confirming result => .confirming (result.turn call)
  | .accepting sock => .accepting sock

section alike
variable {n : Type → Type} {S : m Unit → n Unit → Prop} {call : ℕ → Option Bytes → ℕ → m Unit}
  {call' : ℕ → Option Bytes → ℕ → n Unit}
  (hfails : ∀ err, err ≠ libircErrOk → S (call err none 0) (call' err none 0))
include hfails

theorem RecvResult.turn_alike (hdata : ∀ chunk : Chunk,
      S (call libircErrOk (some chunk.data) chunk.data.length)
        (call' libircErrOk (some chunk.data) chunk.data.length)) (result : RecvResult) :
    ReadTurn.Alike S (result.turn call) (result.turn call') := by
  cases result with
  | again => exact .again
  | wantWrite => exact .wantWrite
  | error => exact .fails (hfails _ (by decide))
  | closed => exact .fails (hfails _ (by decide))
  | data chunk => exact .data _ (hdata chunk)

theorem RecvResult.turns_alike (hdata : ∀ chunk : Chunk,
      S (call libircErrOk (some chunk.data) chunk.data.length)
        (call' libircErrOk (some chunk.data) chunk.data.length)) (results : List RecvResult) :
    List.Forall₂ (ReadTurn.Alike S) (results.map (·.turn call)) (results.map (·.turn call')) := by
  refine List.forall₂_map_left_iff.mpr (List.forall₂_map_right_iff.mpr ?_)
  exact List.forall₂_same.mpr fun result _ => RecvResult.turn_alike hfails hdata result

theorem SendResult.turn_alike {result : SendResult}
    (hsent : ∀ len, result = .sent (len + 1) → S (call libircErrOk none 0) (call' libircErrOk none 0)) :
    SendTurn.Alike S (result.turn call) (result.turn call') := by
  cases result with
  | again => exact .again
  | wantRead => exact .wantRead
  | error => exact .fails (hfails _ (by decide))
  | sent len =>
    cases len with
    | zero => exact .fails (hfails _ (by decide))
    | succ len => exact .sent _ (hsent len rfl)

theorem SocketReady.turn_alike (hdata : ∀ chunk : Chunk,
      S (call libircErrOk (some chunk.data) chunk.data.length)
        (call' libircErrOk (some chunk.data) chunk.data.length)) {ready : SocketReady}
    (hsent : ∀ len, ready = .confirming (.sent (len + 1)) →
      S (call libircErrOk none 0) (call' libircErrOk none 0)) :
    SocketTurn.Alike S (ready.turn call) (ready.turn call') := by
  cases ready with
  | connecting getpeername => exact .connecting getpeername
  | accepting sock => exact .accepting sock
  | confirming result =>
    exact .confirming (SendResult.turn_alike hfails fun len h => hsent len (h ▸ rfl))
  | receiving results => exact .receiving (RecvResult.turns_alike hfails hdata results)

end alike

end turns

def turn (dccid : ℕ) : Turn ClientM where
  lock := libircMutexLock
  unlock := libircMutexUnlock
  noted a x := do record (a dccid); x
  modify := modifySession dccid
  withConfig k := do k (← get).cfg
  destroy := libircDccDestroyNolock dccid

def receiveFailed (dccid err : ℕ) : ClientM Unit :=
  (turn dccid).receiveFailed (callCb noEnv dccid err none 0)

def receiveChunk (dccid : ℕ) (chunk : Chunk) : ClientM Unit :=
  (turn dccid).receiveChunk chunk.data.length
    (callCb noEnv dccid libircErrOk (some chunk.data) chunk.data.length)

def recvDccFile (dccid : ℕ) (ssl : Bool) (results : List RecvResult) : ClientM Unit :=
  (turn dccid).recvDccFile ssl (results.map (·.turn (callCb noEnv dccid)))

theorem recvDccFile_data (dccid : ℕ) (ssl : Bool) (chunk : Chunk) (more : List RecvResult) :
    recvDccFile dccid ssl (.data chunk :: more) = (do
      receiveChunk dccid chunk
      if ssl then recvDccFile dccid ssl more else return) := rfl

def sendCurrentFileOffsetToSender (dcc : DccSession) (result : SendResult) : ClientM Unit :=
  (turn dcc.id).sendCurrentFileOffsetToSender dcc (result.turn (callCb noEnv dcc.id))

theorem sendCurrentFileOffsetToSender_sent (dcc : DccSession) (len : ℕ) :
    sendCurrentFileOffsetToSender dcc (.sent (len + 1)) = (do
      record (.acknowledged dcc.id (dcc.fileConfirmOffset % 2 ^ 32) (len + 1))
      if dcc.receivedFileSize = dcc.fileConfirmOffset then receiveFailed dcc.id libircErrOk
      else modifySession dcc.id fun d => { d with state := .connected }) := rfl

def processDescriptor (dccid : ℕ) (ready : SocketReady) : ClientM Unit := do
  match ← libircFindDccSession dccid false with
  | none => return
  | some dcc => (turn dcc.id).processDescriptor dcc (ready.turn (callCb noEnv dcc.id))

/-- The clean-up at the start of `libirc_dcc_add_descriptors`. -/
def removeDccSessions : ClientM Unit :=
  modify fun s => { s with dccSessions := s.dccSessions.filter fun d => d.state ≠ .removed }

inductive Event
  | request (env : Env) (nick : Option Bytes) (req : Bytes)
  | socket (dccid : ℕ) (ready : SocketReady)
  | addDescriptors
  | outputTimer

def handle : Event → ClientM Unit
  | .request env nick req => libircDccRequest env nick req
  | .socket dccid ready => do
    libircMutexLock
    processDescriptor dccid ready
    libircMutexUnlock
  | .addDescriptors => removeDccSessions
  | .outputTimer => outputAllProgesses

def step (s : Client) (e : Event) : Client :=
  match s.halted with
  | some _ => s
  | none =>
    match (handle e).run s with
    | .ok _ s' => s'
    | .error h s' => { s' with halted := some h }

/-- The client after `main` has set it up and the connection stands. -/
def initial (cfg : XdccGetConfig) (net : Net) (files : Bytes → Option Bytes) : Client :=
  { cfg := cfg
    net := net
    dccLastId := 1
    dccSessions := []
    downloadContext := []
    numActiveDownloads := 0
    finishedDownloads := 0
    lastDownload := none
    curDownload := none
    files := files
    trace := []
    halted := none }

/-- One download is requested from the nick `bot`. -/
def oneBot (dontConfirmOffsets : Bool) : XdccGetConfig :=
  { dccDownloadArray :=
      some [{ botNick := bytes "bot", xdccCmd := bytes "xdcc send #1", md5 := none }]
    numDownloads := 1
    acceptAllNicks := false
    dontConfirmOffsets := dontConfirmOffsets
    verifyChecksum := false
    targetDir := bytes "d"
    listenPort := 4000 }

def connected : Net :=
  { state := .connected, lasterror := libircErrOk, outgoing := [], mutexDcc := 0,
    sslContext := false, alarm := true }

def noFiles : Bytes → Option Bytes := fun _ => none

def oneFile (path content : Bytes) : Bytes → Option Bytes :=
  fun p => if p = path then some content else none

def readyEnv : Env :=
  { socket := some 3, initSslContext := true, bind := true, listen := true, connect := true,
    sslConnect := true, inetPton := some 16909060, fopen := true, fseek := true, junk := 0 }

def botRequest (text : String) : Event := .request readyEnv (some (bytes "bot")) (bytes text)

end Xdccget.DccEvents
