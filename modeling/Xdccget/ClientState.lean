import Xdccget.DccMessages

set_option autoImplicit false

/-!
# The state of the client

The parts of `irc_session_t` and of the globals of `xdccget.c` that the transfers
use, and the outside world they touch: the files and the queue of outgoing lines.
Ids and counters are drawn without wrapping.
-/
namespace Xdccget.ClientState
open CText DccMessages

/-- `LIBIRC_STATE_*` -/
inductive LibircState
  | init | initPassive | listening | connecting | connected | disconnected | confirmSize | removed
  | waitingForResumeAck
  deriving DecidableEq, Repr

/-- The values that `lasterror` and a callback's `status` take here. -/
def libircErrOk : ℕ := 0
def libircErrSocket : ℕ := 3
def libircErrConnect : ℕ := 4
def libircErrClosed : ℕ := 5
def libircErrNomem : ℕ := 6
def libircErrRead : ℕ := 10
def libircErrWrite : ℕ := 11
def libircErrState : ℕ := 12
def libircBindFailed : ℕ := 21
def libircListenFailed : ℕ := 22
def libircListenIpInvalid : ℕ := 23

/-- The functions that `xdccget.c` installs as `irc_dcc_callback_t`. -/
inductive DataCallback
  | callbackDccRecvFile | callbackDccResumeFile
  deriving DecidableEq, Repr

/-- The function that it installs as `irc_dcc_reverse_callback_t`. -/
inductive ReverseCallback
  | callbackDccResumeFileReverse
  deriving DecidableEq, Repr

inductive Callback
  | data (cb : DataCallback)
  | reverse (cb : ReverseCallback)
  deriving DecidableEq, Repr

/-- `irc_dcc_session_t`. A null pointer or the socket -1 is `none`; `ctx` is the index of the
    download context it points to. -/
structure DccSession where
  id : ℕ
  passiveConnection : Bool
  token : ℕ
  ctx : Option ℕ
  sock : Option ℕ
  state : LibircState
  ssl : Bool
  receivedFileSize : ℕ
  fileConfirmOffset : ℕ
  sinAddr : ℕ
  sinPort : ℕ
  cb : Option DataCallback
  reverseCb : Option ReverseCallback
  deriving DecidableEq, Repr

/-- `NUM_AVERAGE_SPEED_VALUES` -/
def numAverageSpeedValues : ℕ := 8

structure DccCurrentSpeed where
  curSpeed : List ℕ
  speedIndex : ℕ
  isSpeedArrayFilled : Bool
  deriving DecidableEq, Repr

structure DccDownloadProgress where
  completeFileSize : ℕ
  sizeRcvd : ℕ
  sizeNow : ℕ
  sizeLast : ℕ
  averageSpeed : ℕ
  completePath : Bytes
  curSpeed : DccCurrentSpeed
  deriving DecidableEq, Repr

/-- `file_io_t`: a stream opened with mode `"a"` or `"w"`. -/
structure FileIo where
  fileName : Bytes
  append : Bool
  position : ℕ
  deriving DecidableEq, Repr

structure DccDownloadContext where
  progress : DccDownloadProgress
  fd : Option FileIo
  deriving DecidableEq, Repr

structure DccDownload where
  botNick : Bytes
  xdccCmd : Bytes
  md5 : Option Bytes
  deriving DecidableEq, Repr

structure XdccGetConfig where
  dccDownloadArray : Option (List DccDownload)
  numDownloads : ℕ
  acceptAllNicks : Bool
  dontConfirmOffsets : Bool
  verifyChecksum : Bool
  targetDir : Bytes
  listenPort : ℕ

/-- What happens, in order. `install` and `call` name the session and the function pointer,
    `writeClosed` is a write through a null `fd`. -/
inductive Action
  | storeContext (index : ℕ)
  | install (id : ℕ) (cb : Callback)
  | call (id : ℕ) (cb : Option Callback)
  | received (id len : ℕ)
  | acknowledged (id offset sent : ℕ)
  | write (context : ℕ) (data : Bytes)
  | writeClosed (context : ℕ)
  | finish (context : ℕ)
  | queued (line : Bytes)
  | startChecksum (md5 : Bytes) (path : Option Bytes)
  deriving DecidableEq, Repr

/-- How the process ends early: `exit`, or a fault on a null pointer. -/
inductive Halt
  | exitPgm | nullCallback | nullFile | nullNick | nullContext
  deriving DecidableEq, Repr

/-- The rest of `irc_session_t`, the alarm and whether the SSL context exists. `mutexDcc` counts
    the locks of the recursive mutex that are held. -/
structure Net where
  state : LibircState
  lasterror : ℕ
  outgoing : Bytes
  mutexDcc : ℤ
  sslContext : Bool
  alarm : Bool
  deriving DecidableEq, Repr

/-- `PASS`, `NICK` and `USER`, as `handle_connecting_state` gives them to `irc_send_raw`. -/
def registrationTexts (serverPassword : Option Bytes) (nick : Bytes) (realname : Option Bytes) :
    List Bytes :=
  (serverPassword.map fun password => snprintf 256 (bytes "PASS " ++ password)).toList ++
    [snprintf 256 (bytes "NICK " ++ nick),
     snprintf 256 (bytes "USER " ++ nick ++ bytes " " ++ nick ++ bytes " unknown :" ++
       realname.getD (bytes "realname"))]

structure Client where
  cfg : XdccGetConfig
  net : Net
  dccLastId : ℕ
  dccSessions : List DccSession
  downloadContext : List DccDownloadContext
  numActiveDownloads : ℕ
  finishedDownloads : ℕ
  lastDownload : Option ℕ
  curDownload : Option ℕ
  files : Bytes → Option Bytes
  trace : List Action
  halted : Option Halt

/-- The answers of the system to the calls that one request can make. `junk` is what `malloc`
    leaves in `averageSpeed`. -/
structure Env where
  socket : Option ℕ
  initSslContext : Bool
  bind : Bool
  listen : Bool
  connect : Bool
  sslConnect : Bool
  inetPton : Option ℕ
  fopen : Bool
  fseek : Bool
  junk : ℕ

abbrev ClientM := EStateM Halt Client

def u64 (n : ℕ) : ℕ := n % 2 ^ 64

def record (a : Action) : ClientM Unit := modify fun s => { s with trace := s.trace ++ [a] }

def setLasterror (err : ℕ) : ClientM Unit :=
  modify fun s => { s with net := { s.net with lasterror := err } }

def libircMutexLock : ClientM Unit :=
  modify fun s => { s with net := { s.net with mutexDcc := s.net.mutexDcc + 1 } }

def libircMutexUnlock : ClientM Unit :=
  modify fun s => { s with net := { s.net with mutexDcc := s.net.mutexDcc - 1 } }

def enableAlarm (on : Bool) : ClientM Unit :=
  modify fun s => { s with net := { s.net with alarm := on } }

def exitPgm : ClientM Unit := throw .exitPgm

def updateSession (id : ℕ) (f : DccSession → DccSession) (ds : List DccSession) :
    List DccSession :=
  ds.map fun d => if d.id = id then f d else d

def modifySession (id : ℕ) (f : DccSession → DccSession) : ClientM Unit :=
  modify fun s => { s with dccSessions := updateSession id f s.dccSessions }

def modifyContext (context : ℕ) (f : DccDownloadContext → DccDownloadContext) : ClientM Unit :=
  modify fun s => { s with downloadContext := s.downloadContext.modify context f }

def modifyProgress (context : ℕ) (f : DccDownloadProgress → DccDownloadProgress) : ClientM Unit :=
  modifyContext context fun c => { c with progress := f c.progress }

/-- `irc_send_raw` of the formatted text, through its buffer of 1024 bytes. -/
def ircSendRaw (text : Bytes) : ClientM ℕ := do
  let s ← get
  if s.net.state ≠ .connected then
    setLasterror libircErrState
    return 1
  let buf := snprintf 1024 text
  if libircBufferSize - s.net.outgoing.length ≤ buf.length + 2 then
    setLasterror libircErrNomem
    return 1
  modify fun s => { s with net := { s.net with outgoing := s.net.outgoing ++ buf ++ [cr, lf] } }
  record (.queued buf)
  return 0

def quitLine : Bytes := bytes "QUIT :Goodbye!"

/-- `irc_cmd_quit(cfg.session, "Goodbye!")` -/
def ircCmdQuit : ClientM ℕ := ircSendRaw quitLine

def ircCmdCtcpRequest (nick : Option Bytes) (reply : Bytes) : ClientM ℕ :=
  match nick with
  | none => do
    setLasterror libircErrState
    return 1
  | some nick => ircSendRaw (bytes "PRIVMSG " ++ cstr nick ++ bytes " :" ++ [1] ++ cstr reply ++ [1])

end Xdccget.ClientState
