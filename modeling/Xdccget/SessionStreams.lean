import Xdccget.ClientState
import Xdccget.IrcParser
import Xdccget.PairFraming
import Xdccget.StepRuns

set_option autoImplicit false

/-!
# The byte streams of the server connection

The part of `irc_session_t` that `libircclient.c` and `ssl.c` read and write for the
connection to the server: two buffers, the state and the flags of the TLS layer. What
the sockets took and gave is recorded next to it.
-/
namespace Xdccget.SessionStreams
open CText DccMessages ClientState PairFraming
open IrcParser (slice)

def libircErrTerminated : ℕ := 15
def libircErrConnectSslFailed : ℕ := 19
def libircErrSslCertVerifyFailed : ℕ := 20

def u32 (n : ℕ) : ℕ := n % 2 ^ 32

/-- Subtraction of two values of `unsigned int`, and of two of `size_t`. -/
def usub32 (a b : ℕ) : ℕ := if b ≤ a then a - b else a + 2 ^ 32 - b
def usub64 (a b : ℕ) : ℕ := if b ≤ a then a - b else a + 2 ^ 64 - b

/-- `data` copied to `buf + start`. -/
def store (buf : ℕ → UInt8) (start : ℕ) (data : Bytes) : ℕ → UInt8 := fun j =>
  if start ≤ j ∧ j < start + data.length then data.getD (j - start) 0 else buf j

def memmove (buf : ℕ → UInt8) (dest src n : ℕ) : ℕ → UInt8 := fun j =>
  if dest ≤ j ∧ j < dest + n then buf (src + (j - dest)) else buf j

/-- `libirc_findcrlf` -/
def libircFindcrlf (buf : ℕ → UInt8) (length : ℕ) : ℕ :=
  match (List.range (length - 1)).find? fun offset => buf offset = cr ∧ buf (offset + 1) = lf with
  | some offset => offset + 2
  | none => 0

/-- `irc_session_t`. `ssl` says whether the session has an SSL object; the two flags are
    `SESSIONFL_SSL_READ_WANTS_WRITE` and `SESSIONFL_SSL_WRITE_WANTS_READ`. -/
structure IrcSession where
  sock : ℤ
  state : LibircState
  lasterror : ℕ
  ssl : Bool
  sslReadWantsWrite : Bool
  sslWriteWantsRead : Bool
  serverPassword : Option Bytes
  nick : Bytes
  realname : Option Bytes
  incomingBuf : ℕ → UInt8
  incomingOffset : ℕ
  outgoingBuf : ℕ → UInt8
  outgoingOffset : ℕ

/-- `incoming_buf[0..incoming_offset)` -/
def IrcSession.incoming (s : IrcSession) : Bytes := slice s.incomingBuf 0 s.incomingOffset

/-- `outgoing_buf[0..outgoing_offset)` -/
def IrcSession.outgoing (s : IrcSession) : Bytes := slice s.outgoingBuf 0 s.outgoingOffset

/-- The session that `irc_create_session` and a successful `irc_connect` leave. -/
def connectingSession (sock : ℕ) (ssl : Bool) (serverPassword : Option Bytes) (nick : Bytes)
    (realname : Option Bytes) : IrcSession where
  sock := sock
  state := .connecting
  lasterror := libircErrOk
  ssl := ssl
  sslReadWantsWrite := false
  sslWriteWantsRead := false
  serverPassword := serverPassword
  nick := nick
  realname := realname
  incomingBuf := fun _ => 0
  incomingOffset := 0
  outgoingBuf := fun _ => 0
  outgoingOffset := 0

/-- The bytes behind the ones that wait in `outgoing_buf`. -/
def appendOutgoing (s : IrcSession) (data : Bytes) : IrcSession :=
  { s with
    outgoingBuf := store s.outgoingBuf s.outgoingOffset data
    outgoingOffset := u32 (s.outgoingOffset + data.length) }

/-- `irc_send_raw`, for what `vsnprintf` makes of the format and its arguments. -/
def ircSendRaw (s : IrcSession) (formatted : Bytes) : ℕ × IrcSession :=
  if s.state ≠ .connected then (1, { s with lasterror := libircErrState })
  else
    let buf := snprintf 1024 formatted
    if usub64 libircBufferSize s.outgoingOffset ≤ buf.length + 2 then
      (1, { s with lasterror := libircErrNomem })
    else (0, appendOutgoing (appendOutgoing (appendOutgoing s buf) [cr]) [lf])

/-- What `ssl_handle_error` tells apart. -/
inductive SslError
  | certificateVerifyFailed | unknownProtocol | other
  deriving DecidableEq, Repr

/-- What a read is answered with. A call takes no more bytes than it asked for; `wantRead` and
    `wantWrite` come from the TLS layer only. -/
inductive RecvAnswer
  | bytes (data : Bytes)
  | wantRead
  | wantWrite
  | failed (err : SslError)

inductive SendAnswer
  | accepted (n : ℕ)
  | wantRead
  | wantWrite
  | failed (err : SslError)

/-- The answers to the calls that one `session_socket_read` or `session_socket_write` makes. -/
structure Answers where
  recv : RecvAnswer
  send : SendAnswer

/-- A call into the socket layer: its value, the session after it, and what went through. -/
structure IoTurn where
  length : ℤ
  session : IrcSession
  received : Bytes
  sent : Bytes

def sslHandleError (s : IrcSession) (err : SslError) : IrcSession :=
  match err with
  | .certificateVerifyFailed => { s with lasterror := libircErrSslCertVerifyFailed }
  | .unknownProtocol => { s with lasterror := libircErrConnectSslFailed }
  | .other => s

def amount (s : IrcSession) : ℕ := usub64 (libircBufferSize - 1) s.incomingOffset

def RecvAnswer.data (s : IrcSession) : RecvAnswer → Bytes
  | .bytes data => data.take (amount s)
  | _ => []

def SendAnswer.count (s : IrcSession) : SendAnswer → ℕ
  | .accepted n => min n s.outgoingOffset
  | _ => 0

def storeIncoming (s : IrcSession) (data : Bytes) : IrcSession :=
  { s with incomingBuf := store s.incomingBuf s.incomingOffset data }

def sslRecv (s : IrcSession) (a : RecvAnswer) : IoTurn :=
  match a with
  | .bytes _ =>
    let data := a.data s
    if data = [] then ⟨-1, s, [], []⟩ else ⟨data.length, storeIncoming s data, data, []⟩
  | .wantRead => ⟨0, s, [], []⟩
  | .wantWrite => ⟨0, { s with sslReadWantsWrite := true }, [], []⟩
  | .failed err => ⟨-1, sslHandleError s err, [], []⟩

def sslSend (s : IrcSession) (a : SendAnswer) : IoTurn :=
  match a with
  | .accepted _ =>
    let count := a.count s
    if count = 0 then ⟨-1, s, [], []⟩ else ⟨count, s, [], slice s.outgoingBuf 0 count⟩
  | .wantRead => ⟨0, { s with sslWriteWantsRead := true }, [], []⟩
  | .wantWrite => ⟨0, s, [], []⟩
  | .failed err => ⟨-1, sslHandleError s err, [], []⟩

def sessionSocketRead (s : IrcSession) (a : Answers) : IoTurn :=
  if s.ssl then
    if s.sslReadWantsWrite then
      { sslSend { s with sslReadWantsWrite := false } a.send with length := 0 }
    else sslRecv s a.recv
  else
    let data := a.recv.data s
    if data = [] then ⟨-1, s, [], []⟩ else ⟨data.length, storeIncoming s data, data, []⟩

def sessionSocketWrite (s : IrcSession) (a : Answers) : IoTurn :=
  if s.ssl then
    if s.sslWriteWantsRead then
      { sslRecv { s with sslWriteWantsRead := false } a.recv with length := 0 }
    else sslSend s a.send
  else
    let count := a.send.count s
    if count = 0 then ⟨-1, s, [], []⟩ else ⟨count, s, [], slice s.outgoingBuf 0 count⟩

/-- The session and its history: the calls of `irc_send_raw` with their value, the bytes that
    the sockets took and gave, and the blocks given to `libirc_process_incoming_data`. -/
structure Link where
  session : IrcSession
  calls : List (ℕ × Bytes)
  sent : Bytes
  received : Bytes
  blocks : List Bytes

def Link.open_ (s : IrcSession) : Link := ⟨s, [], [], [], []⟩

def queued (calls : List (ℕ × Bytes)) : Bytes :=
  (calls.filter fun call => call.1 = 0).flatMap fun call => snprintf 1024 call.2 ++ [cr, lf]

def sendRaw (k : Link) (formatted : Bytes) : Link :=
  let r := ircSendRaw k.session formatted
  { k with session := r.2, calls := k.calls ++ [(r.1, formatted)] }

def sendAll (k : Link) (texts : List Bytes) : Link := texts.foldl sendRaw k

def Link.took (k : Link) (t : IoTurn) : Link :=
  { k with session := t.session, received := k.received ++ t.received, sent := k.sent ++ t.sent }

/-- A read or a write that returned -1. -/
def terminated (k : Link) : Link :=
  { k with
    session :=
      { k.session with
        lasterror := if k.session.lasterror = 0 then libircErrTerminated else k.session.lasterror
        state := .disconnected } }

/-- The first `offset` bytes leave `incoming_buf`, and `length` bytes leave `outgoing_buf`. -/
def dropIncoming (s : IrcSession) (offset : ℕ) : IrcSession :=
  { s with
    incomingBuf :=
      if 0 < usub32 s.incomingOffset offset then
        memmove s.incomingBuf 0 offset (usub64 s.incomingOffset offset)
      else s.incomingBuf
    incomingOffset := usub32 s.incomingOffset offset }

def dropOutgoing (s : IrcSession) (length : ℕ) : IrcSession :=
  { s with
    outgoingBuf :=
      if 0 < length ∧ 0 < usub32 s.outgoingOffset length then
        memmove s.outgoingBuf 0 length (usub64 s.outgoingOffset length)
      else s.outgoingBuf
    outgoingOffset := usub32 s.outgoingOffset length }

/-- `libirc_process_incoming_data` on the first `offset` bytes, whose handlers send `replies`,
    and the removal of these bytes. -/
def processLine (k : Link) (offset : ℕ) (replies : List Bytes) : Link :=
  let block := slice k.session.incomingBuf 0 offset
  let handled := sendAll { k with blocks := k.blocks ++ [block] } replies
  { handled with session := dropIncoming handled.session offset }

/-- The loop over the complete lines. Each turn shortens the buffer, which bounds the turns. -/
def processLines : ℕ → List (List Bytes) → Link → Link
  | 0, _, k => k
  | fuel + 1, replies, k =>
    let offset := libircFindcrlf k.session.incomingBuf k.session.incomingOffset
    if 0 < offset then processLines fuel replies.tail (processLine k offset (replies.headD []))
    else k

def readPart (k : Link) (a : Answers) (replies : List (List Bytes)) : ℕ × Link :=
  let t := sessionSocketRead k.session a
  if t.length < 0 then (1, terminated (k.took t))
  else
    let offset := u32 (t.session.incomingOffset + t.length.toNat)
    let taken := k.took { t with session := { t.session with incomingOffset := offset } }
    (0, processLines offset replies taken)

def writePart (k : Link) (a : Answers) : ℕ × Link :=
  let t := sessionSocketWrite k.session a
  if t.length < 0 then (1, terminated (k.took t))
  else
    (0, k.took { t with session := dropOutgoing t.session t.length.toNat })

/-- `peer` says whether `getsockname` and `getpeername` succeed. The texts are given to
    `irc_send_raw` as formats; `format` is what `vsnprintf` makes of one without arguments. -/
structure ConnectAnswer where
  peer : Bool
  format : Bytes → Bytes

def registration (s : IrcSession) : List Bytes :=
  registrationTexts s.serverPassword s.nick s.realname

/-- `handle_connecting_state` -/
def handleConnectingState (k : Link) (c : ConnectAnswer) : ℕ × Link :=
  if c.peer = false then
    (1, { k with
      session := { k.session with state := .disconnected, lasterror := libircErrConnect } })
  else
    let connected := { k with session := { k.session with state := .connected } }
    (0, sendAll connected ((registration k.session).map c.format))

/-- One round of `irc_process_select_descriptors`: what `libirc_dcc_process_descriptors` sends
    to the server, what `fdwatch` reports, and the answers. -/
structure Round where
  dccSends : List Bytes
  readable : Bool
  writable : Bool
  connect : ConnectAnswer
  onRead : Answers
  replies : List (List Bytes)
  onWrite : Answers

def setError (k : Link) (err : ℕ) : Link :=
  { k with session := { k.session with lasterror := err } }

/-- A round that finds the session neither connected nor able to finish connecting. -/
def strayed (k : Link) : Link :=
  { k with session := { k.session with state := .disconnected, lasterror := libircErrState } }

def refuses (s : IrcSession) : Prop := s.sock < 0 ∨ s.state = .init ∨ s.state = .disconnected

instance (s : IrcSession) : Decidable (refuses s) := by unfold refuses; infer_instance

/-- `irc_process_select_descriptors` -/
def ircProcessSelectDescriptors (k : Link) (r : Round) : ℕ × Link :=
  if refuses k.session then (1, setError k libircErrState)
  else
    let k := sendAll (setError k libircErrOk) r.dccSends
    if k.session.state = .connecting ∧ r.writable then handleConnectingState k r.connect
    else if k.session.state ≠ .connected then (1, strayed k)
    else
      let read := if r.readable then readPart k r.onRead r.replies else (0, k)
      if read.1 ≠ 0 then read
      else if r.writable then writePart read.2 r.onWrite
      else (0, read.2)

/-- What `irc_add_select_descriptors` watches the socket for. -/
structure Armed where
  read : Bool
  write : Bool
  deriving DecidableEq, Repr

/-- `irc_add_select_descriptors`, for the socket of the session. -/
def ircAddSelectDescriptors (s : IrcSession) : ℕ × IrcSession × Armed :=
  if refuses s then (1, { s with lasterror := libircErrState }, ⟨false, false⟩)
  else
    match s.state with
    | .connecting => (0, s, ⟨false, true⟩)
    | .connected =>
      (0, s,
        ⟨s.incomingOffset < libircBufferSize - 1 ∨ s.sslWriteWantsRead,
          0 < libircFindcrlf s.outgoingBuf s.outgoingOffset ∨ s.sslReadWantsWrite⟩)
    | _ => (0, s, ⟨false, false⟩)

/-- What happens to the connection, cut where another caller can come between. -/
inductive IoEvent
  | send (formatted : Bytes)
  | enter
  | refuse
  | connecting (c : ConnectAnswer)
  | stray
  | readable (a : Answers) (replies : List (List Bytes))
  | writable (a : Answers)

def step (k : Link) : IoEvent → Link
  | .send formatted => sendRaw k formatted
  | .enter => setError k libircErrOk
  | .refuse => setError k libircErrState
  | .connecting c => if k.session.state = .connecting then (handleConnectingState k c).2 else k
  | .stray => if k.session.state ≠ .connected then strayed k else k
  | .readable a replies => if k.session.state = .connected then (readPart k a replies).2 else k
  | .writable a => if k.session.state = .connected then (writePart k a).2 else k

def roundEvents (s : IrcSession) (r : Round) : List IoEvent :=
  if refuses s then [.refuse]
  else
    .enter :: r.dccSends.map .send ++
      (if s.state = .connecting ∧ r.writable then [.connecting r.connect]
      else if s.state ≠ .connected then [.stray]
      else (if r.readable then [.readable r.onRead r.replies] else []) ++
        (if r.writable then [.writable r.onWrite] else []))

end Xdccget.SessionStreams
