import Xdccget.DccEvents
import Xdccget.LineParser

set_option autoImplicit false

/-!
# The commands of `commands.c`

What `handle_parser_result` makes of a parsed line: the table of commands, their
handlers, and the callbacks of `xdccget.c` behind them. The handlers are written over
the way in which they come to the session and its strings; here a pointer that must
not be followed stops them with a fault.
-/
namespace Xdccget.Commands
open CText IrcParser LineParser DccMessages ClientState DccEvents

/-- The entries of `commands`, and `unknownCommand`. -/
inductive IrcCommand
  | ping | nick | quit | join | part | mode | topic | kick | privmsg | notice | invite | kill
  | unknown
  deriving DecidableEq, Repr

def IrcCommand.name : IrcCommand → Bytes
  | .ping => bytes "PING"
  | .nick => bytes "NICK"
  | .quit => bytes "QUIT"
  | .join => bytes "JOIN"
  | .part => bytes "PART"
  | .mode => bytes "MODE"
  | .topic => bytes "TOPIC"
  | .kick => bytes "KICK"
  | .privmsg => bytes "PRIVMSG"
  | .notice => bytes "NOTICE"
  | .invite => bytes "INVITE"
  | .kill => bytes "KILL"
  | .unknown => bytes "UNKNOWN"

def commands : List IrcCommand :=
  [.ping, .nick, .quit, .join, .part, .mode, .topic, .kick, .privmsg, .notice, .invite, .kill]

def strlen (s : Bytes) : ℕ := (cstr s).length

/-- `strncmp(a, b, n) == 0` -/
def strnEquals (a b : Bytes) (n : ℕ) : Bool := (cstr a ++ [nul]).take n = (cstr b ++ [nul]).take n

/-- `strncasecmp(a, b, n) == 0` -/
def strncasecmpEq (a b : Bytes) (n : ℕ) : Bool :=
  ((cstr a ++ [nul]).take n).map tolower = ((cstr b ++ [nul]).take n).map tolower

/-- The suffix of `s` that starts with the first occurrence. -/
def strstr (s pattern : Bytes) : Option Bytes :=
  match s with
  | [] => if pattern = [] then some [] else none
  | a :: rest => if pattern <+: a :: rest then some (a :: rest) else strstr rest pattern

def getCommand (commandString : Bytes) (n : ℕ) : IrcCommand :=
  if n = 0 then .unknown
  else (commands.find? fun c => strnEquals commandString c.name n).getD .unknown

/-- What `handle_parser_result` hands a line to. -/
inductive Dispatch
  | numeric (code : ℕ) (command : Bytes)
  | command (handler : IrcCommand) (command : Bytes)
  deriving DecidableEq, Repr

/-- How a handler stops: `NULL` is passed to a string function, a parameter behind `num_params` or
    a string that is not one of this line is followed, or the client ends. -/
inductive Fault
  | nullString | behindParams | staleString
  | client (h : Halt)
  deriving DecidableEq, Repr

/-- `irc_session_t` as the lines see it, with the parts of `cfg` that the handlers read. `lineStart` tells the strings
    of the current line, which were allocated from it on; `dispatched` is the record of
    `handle_parser_result`. -/
structure LineSession where
  client : Client
  parser : Parser
  line : LineState
  lineStart : ℕ
  nick : Bytes
  username : Option Bytes
  realname : Option Bytes
  motdReceived : Bool
  loginCommand : Option Bytes
  sendDelay : Bool
  channelsToJoin : List Bytes
  sended : Bool
  onConnectEventDone : Bool
  dispatched : List Dispatch
  halted : Option Fault

/-- The answers of the system to one line; `time` is the text of `strftime`. -/
structure LineEnv where
  dcc : Env
  time : Bytes

abbrev HandlerM := EStateM Fault LineSession

def onClient {α : Type} (x : ClientM α) : HandlerM α := fun s =>
  match x.run s.client with
  | .ok a c => .ok a { s with client := c }
  | .error h c => .error (.client h) { s with client := c }

def send (text : Bytes) : HandlerM Unit := discard (onClient (ircSendRaw text))

def setLine (f : LineState → LineState) : HandlerM Unit := modify fun s => { s with line := f s.line }

/-- A target that a handler takes for the nick of the client. -/
inductive Taken
  | userMode (target nick : Bytes)
  | privateMessage (target nick : Bytes)
  deriving DecidableEq, Repr

def joinChannels : HandlerM Unit := do
  (← get).channelsToJoin.forM fun channel => send (bytes "JOIN " ++ channel)

def privmsg (nch text : Bytes) : Bytes := bytes "PRIVMSG " ++ cstr nch ++ bytes " :" ++ text

def ircCmdMsg (nch text : Bytes) : HandlerM Unit := send (privmsg nch text)

def sendLoginCommand (login : Bytes) : HandlerM Unit := do
  let login := sdstrim blanks login
  modify fun s => { s with loginCommand := some login }
  if 9 ≤ login.length then
    ircCmdMsg (login.take 9) (login.drop 9)

def onConnectEvent : HandlerM Unit := do
  let s ← get
  if s.onConnectEventDone then
    return
  match s.loginCommand with
  | some login => sendLoginCommand login
  | none => joinChannels
  modify fun s => { s with onConnectEventDone := true }

def userModeLine (nick : Bytes) : Bytes := bytes "MODE " ++ nick ++ bytes " +i"

def md5Names : List (Bytes × ℕ) := [(bytes "md5sum", 8), (bytes "MD5", 4), (bytes "md5", 4)]

/-- Text behind the end of the string reads as empty. -/
def extractMD5 (string : Bytes) : Option Bytes :=
  md5Names.findSome? fun n => (strstr string n.1).map fun found => (found.drop n.2).take 32

/-- The sum is kept for the only download there is. -/
def keepMD5 (md5 : Bytes) (cfg : XdccGetConfig) : XdccGetConfig :=
  { cfg with dccDownloadArray :=
      cfg.dccDownloadArray.map (·.modifyHead ({ · with md5 := some md5 })) }

def isCtcpRequest (string : Bytes) : Bool := string.head? = some 1 && string.getLast? = some 1

def isPrivateMessage (string nick : Bytes) : Bool := strncasecmpEq string nick (strlen nick)

def isDccRequest (string : Bytes) : Bool := strncasecmpEq string (bytes "DCC ") 4

def isActionMessage (string : Bytes) : Bool := strncasecmpEq string (bytes "ACTION ") 7

/-- The text that `memcpy` brings into a buffer of `size` bytes, as a string. For a single byte the
    length wraps, and the copy starts with the terminator. -/
def ctcpBuf (string : Bytes) (size : ℕ) : Bytes :=
  let msglen := min ((string.length + 2 ^ 64 - 2) % 2 ^ 64) (size - 1)
  cstr (((string ++ [nul]).drop 1).take msglen)

/-- A handler's own string takes the place of parameter `i`. -/
def replaceParam (i : ℕ) (text : Bytes) (numParams : ℕ) (st : LineState) : LineState :=
  let c := callocAndCopyString st text
  setResult c.2
    { st.result with
      params := Function.update st.result.params i (some c.1)
      numParams := numParams }

@[simp] theorem replaceParam_self (i : ℕ) (text : Bytes) (n : ℕ) (st : LineState) :
    (replaceParam i text n st).result.params i = some ⟨st.allocated, cstr text⟩ :=
  Function.update_self _ _ _

theorem replaceParam_of_ne {i j : ℕ} (h : j ≠ i) (text : Bytes) (n : ℕ) (st : LineState) :
    (replaceParam i text n st).result.params j = st.result.params j :=
  Function.update_of_ne h _ _

def ircTargetGetNick (target : Bytes) (size : ℕ) : Bytes :=
  (target.takeWhile (· ≠ bang)).take (size - 1)

def ircCmdCtcpReply (nick reply : Bytes) : HandlerM Unit :=
  send (bytes "NOTICE " ++ nick ++ bytes " :" ++ [1] ++ reply ++ [1])

def fingerText (username realname : Option Bytes) : Bytes :=
  bytes "FINGER " ++ username.getD (bytes "nobody") ++ bytes " (" ++
    realname.getD (bytes "noname") ++ bytes ") Idle 0 seconds"

/-- The answer to a CTCP request, if it gets one. -/
def ctcpReply (env : LineEnv) (s : LineSession) (request : Bytes) : Option Bytes :=
  if bytes "PING" <+: request then some request
  else if request = bytes "VERSION" then some (bytes "VERSION  mIRC v6.16")
  else if request = bytes "FINGER" then some (fingerText s.username s.realname)
  else if request = bytes "TIME" then some env.time
  else none

/-- The second parameter takes the place of the first; it stays where it was, too. -/
def moveMode (st : LineState) : LineState :=
  setResult st
    { st.result with
      params := Function.update st.result.params 0 (st.result.params 1)
      numParams := 1 }

@[simp] theorem moveMode_zero (st : LineState) :
    (moveMode st).result.params 0 = st.result.params 1 := by
  simp [moveMode, setResult]

theorem moveMode_of_ne {i : ℕ} (h : i ≠ 0) (st : LineState) :
    (moveMode st).result.params i = st.result.params i := by
  simp [moveMode, setResult, h]

/-- `sizeof(ctcp_buf)` is the size of a pointer. -/
def pointerSize : ℕ := 8

/-- The `FREE` loop over the parameters, which sets each slot to `NULL`. -/
def freeParams (st : LineState) : LineState :=
  { st with
    result :=
      { st.result with
        params := fun i => if i < st.result.numParams then none else st.result.params i }
    freed := st.freed ++ ((List.range st.result.numParams).filterMap st.result.params).map (·.id) }

def replyToNotice (text : Bytes) (st : LineState) : LineState :=
  replaceParam 0 (ctcpBuf text pointerSize) 1 (freeParams st)

def isNumericCommand (command : Bytes) : Bool := strlen command = 3 && (cstr command).all isdigit

def dispatch (d : Dispatch) : HandlerM Unit :=
  modify fun s => { s with dispatched := s.dispatched ++ [d] }

/-- `RPL_ENDOFMOTD` and `ERR_NOMOTD` -/
def endsMotd (code : ℕ) : Bool := code = 376 || code = 422

/-- How the handlers come to the session, to its strings and to the transfers. A target that is
    taken for the nick is told to what is done about it, and `askBot` is `irc_cmd_msg` for a
    requested download. -/
structure Handling (m : Type → Type) where
  withSession : (LineSession → m Unit) → m Unit
  onSession : HandlerM Unit → m Unit
  deref : Option Str → m Bytes
  param : ℕ → m Bytes
  askBot : DccDownload → m Unit
  taken : Taken → m Unit → m Unit
  request : Env → Option Bytes → Bytes → m Unit

namespace Handling
variable {m : Type → Type} [Monad m] (h : Handling m)

/-- The text goes to the log only. -/
def dumpEvent : m Unit := h.withSession fun s =>
  (List.range s.line.result.numParams).forM fun cnt => discard (h.param cnt)

def sendXdccRequests : m Unit := h.withSession fun s => do
  if !s.sended then
    (s.client.cfg.dccDownloadArray.getD []).forM h.askBot
    h.onSession (modify fun t => { t with sended := true })

def eventConnect : m Unit := do
  h.dumpEvent
  h.onSession onConnectEvent

/-- The address found in the text is looked up for `cfg.listen_ip`. -/
def eventNumeric (code : ℕ) : m Unit := h.withSession fun s => do
  if code = 1 ∧ 2 ≤ s.line.result.numParams then
    h.dumpEvent
    discard (h.param 1)

def eventJoin : m Unit := h.withSession fun s => do
  h.onSession (send (userModeLine s.nick))
  if !s.sendDelay && s.loginCommand.isNone then
    h.sendXdccRequests

def eventMode : m Unit := h.withSession fun s => do
  if s.loginCommand.isSome ∧ 1 < s.line.result.numParams then
    if (← h.param 1) = bytes "+v" then
      h.sendXdccRequests

def eventUmode : m Unit := h.withSession fun s => do
  if s.loginCommand.isSome then
    if (← h.param 0) = bytes "+r" then
      h.onSession joinChannels

/-- What `checkMD5ChecksumNotice` does with the sum it has found. -/
def useMD5 (md5 : Bytes) : m Unit := h.withSession fun s => do
  match s.client.lastDownload with
  | none =>
    if s.client.cfg.numDownloads = 1 then
      h.onSession (onClient (modify fun c => { c with cfg := keepMD5 md5 c.cfg }))
  | some context =>
    let path := (s.client.downloadContext[context]?).map (·.progress.completePath)
    h.onSession (onClient (record (.startChecksum md5 path)))

def checkMD5ChecksumNotice (event : Bytes) : m Unit := h.withSession fun s => do
  if event ≠ bytes "NOTICE" ∨ s.line.result.numParams ≠ 2 then
    return
  match extractMD5 (← h.param 1) with
  | none => return
  | some md5 => h.useMD5 md5

def checkConnectedEvent (event : Bytes) : m Unit := h.withSession fun s => do
  if event ≠ bytes "NOTICE" ∨ s.line.result.numParams ≠ 2 then
    return
  if (strstr (← h.param 1) (bytes "You are connected")).isSome then
    h.onSession onConnectEvent

def eventNotice (event : Bytes) : m Unit := do
  h.dumpEvent
  h.checkMD5ChecksumNotice event
  h.checkConnectedEvent event

def libircEventCtcpInternal (env : LineEnv) : m Unit := h.withSession fun s => do
  match s.line.result.host with
  | none => return
  | some origin =>
    let nickbuf := ircTargetGetNick (← h.deref (some origin)) 128
    match ctcpReply env s (← h.param 0) with
    | none => return
    | some reply => h.onSession (ircCmdCtcpReply nickbuf reply)

/-- `handle_ctcp_request` behind the copy. -/
def handleCtcpText (env : LineEnv) (buf : Bytes) : m Unit := do
  if isDccRequest buf then
    h.withSession fun s => h.request env.dcc (s.line.result.nick.map (·.text)) buf
  else if isActionMessage buf then
    h.onSession (setLine (replaceParam 1 (buf.drop 7) 2))
    h.dumpEvent
  else
    h.onSession (setLine (replaceParam 0 buf 1))
    h.libircEventCtcpInternal env

def handleCtcpRequest (env : LineEnv) : m Unit := do
  h.handleCtcpText env (ctcpBuf (← h.param 1) libircBufferSize)

def ircPingCommand : m Unit := h.withSession fun s => do
  if s.line.result.params 0 = none then
    return
  h.onSession (send (bytes "PONG " ++ (← h.param 0)))

def ircNickCommand : m Unit := h.withSession fun s => do
  let nick ← h.deref s.line.result.nick
  if strnEquals nick s.nick (strlen s.nick) ∧ 0 < s.line.result.numParams then
    let newNick ← h.param 0
    h.onSession (modify fun t => { t with nick := newNick })

def ircModeCommand : m Unit := h.withSession fun s => do
  if 0 < s.line.result.numParams then
    let target ← h.param 0
    if strnEquals target s.nick (strlen s.nick) then
      h.taken (.userMode target s.nick) do
        h.onSession (setLine moveMode)
        h.eventUmode
    else h.eventMode
  else h.eventMode

def ircPrivmsgCommand (env : LineEnv) : m Unit := h.withSession fun s => do
  if s.line.result.numParams ≤ 1 then
    return
  if isCtcpRequest (← h.param 1) then
    h.handleCtcpRequest env
  else
    let target ← h.param 0
    if isPrivateMessage target s.nick then
      h.taken (.privateMessage target s.nick) h.dumpEvent

/-- `strlen(params[1])` comes before the number of the parameters is looked at. -/
def ircNoticeCommand (event : Bytes) : m Unit := do
  let text ← h.param 1
  h.withSession fun s => do
    if 1 < s.line.result.numParams ∧ isCtcpRequest text then
      h.onSession (setLine (replyToNotice text))
      h.dumpEvent
    else
      let target ← h.param 0
      if isPrivateMessage target s.nick then
        h.taken (.privateMessage target s.nick) (h.eventNotice event)

/-- The callbacks behind the commands that do nothing here are not installed. -/
def execute (env : LineEnv) (command : Bytes) : IrcCommand → m Unit
  | .ping => h.ircPingCommand
  | .nick => h.ircNickCommand
  | .quit => return
  | .join => h.eventJoin
  | .part => return
  | .mode => h.ircModeCommand
  | .topic => return
  | .kick => return
  | .privmsg => h.ircPrivmsgCommand env
  | .notice => h.ircNoticeCommand command
  | .invite => return
  | .kill => return
  | .unknown => h.dumpEvent

/-- The first end of the MOTD tells that the connection stands. -/
def connectOnMotd (code : ℕ) : m Unit := h.withSession fun s => do
  if endsMotd code && !s.motdReceived then
    h.onSession (modify fun t => { t with motdReceived := true })
    h.eventConnect

def handleNumeric (command : Bytes) : m Unit := do
  let code := digitsValue command
  h.connectOnMotd code
  h.onSession (dispatch (.numeric code command))
  h.eventNumeric code

def handleCommand (env : LineEnv) (command : Bytes) : m Unit := do
  let handler := getCommand command (strlen command)
  h.onSession (dispatch (.command handler command))
  h.execute env command handler

def handleParserResult (env : LineEnv) : m Unit := h.withSession fun s => do
  match s.line.result.command with
  | none => return
  | some command =>
    if isNumericCommand command.text then
      h.handleNumeric command.text
    else
      h.handleCommand env command.text

/-- The callbacks of one line, `handle_parser_result` among them. -/
def runCalls (env : LineEnv) : List (IrcParser.Callback × Bytes) → m Unit
  | [] => return
  | (.onEnd, _) :: calls => do
    h.handleParserResult env
    runCalls env calls
  | call :: calls => do
    h.onSession (setLine (onCall · call))
    runCalls env calls

def libircProcessIncomingData (env : LineEnv) (line : Bytes) : m Unit := h.withSession fun s => do
  let outcome := ircParserExecute s.parser line
  h.onSession (modify fun t => { t with parser := outcome.parser, lineStart := t.line.allocated })
  h.runCalls env (IrcParserCarry.callbacks outcome.events)
  h.onSession (setLine freeParserResult)

end Handling

/-- A string is one of this line. -/
def deref : Option Str → HandlerM Bytes
  | none => throw .nullString
  | some str => do
    let s ← get
    if str.id < s.lineStart ∨ str.id ∈ s.line.freed then
      throw .staleString
    return str.text

/-- `result->params[i]` is one of the `num_params` that there are. -/
def param (i : ℕ) : HandlerM Bytes := do
  let r := (← get).line.result
  if r.numParams ≤ i then
    throw .behindParams
  deref (r.params i)

/-- The handlers on their own, with every string checked. -/
def handling : Handling HandlerM where
  withSession k := get >>= k
  onSession x := x
  deref := deref
  param := param
  askBot d := ircCmdMsg d.botNick d.xdccCmd
  taken _ x := x
  request env nick buf := onClient (libircDccRequest env nick buf)

section fields
variable (k : LineSession → HandlerM Unit) (x : HandlerM Unit) (p : Option Str) (i : ℕ)

@[simp] theorem handling_withSession : handling.withSession k = get >>= k := rfl
@[simp] theorem handling_onSession : handling.onSession x = x := rfl
@[simp] theorem handling_deref : handling.deref p = deref p := rfl
@[simp] theorem handling_param : handling.param i = param i := rfl
@[simp] theorem handling_taken (a : Taken) : handling.taken a x = x := rfl

end fields

def dumpEvent : HandlerM Unit := handling.dumpEvent

def sendXdccRequests : HandlerM Unit := handling.sendXdccRequests

def eventConnect : HandlerM Unit := handling.eventConnect

def eventNumeric (code : ℕ) : HandlerM Unit := handling.eventNumeric code

def eventJoin : HandlerM Unit := handling.eventJoin

def eventMode : HandlerM Unit := handling.eventMode

def eventUmode : HandlerM Unit := handling.eventUmode

def useMD5 (md5 : Bytes) : HandlerM Unit := handling.useMD5 md5

def checkMD5ChecksumNotice (event : Bytes) : HandlerM Unit := handling.checkMD5ChecksumNotice event

def checkConnectedEvent (event : Bytes) : HandlerM Unit := handling.checkConnectedEvent event

def eventNotice (event : Bytes) : HandlerM Unit := handling.eventNotice event

def libircEventCtcpInternal (env : LineEnv) : HandlerM Unit := handling.libircEventCtcpInternal env

def handleCtcpRequest (env : LineEnv) : HandlerM Unit := handling.handleCtcpRequest env

def ircPingCommand : HandlerM Unit := handling.ircPingCommand

def ircNickCommand : HandlerM Unit := handling.ircNickCommand

def ircModeCommand : HandlerM Unit := handling.ircModeCommand

def ircPrivmsgCommand (env : LineEnv) : HandlerM Unit := handling.ircPrivmsgCommand env

def ircNoticeCommand (event : Bytes) : HandlerM Unit := handling.ircNoticeCommand event

def IrcCommand.execute (env : LineEnv) (command : Bytes) (handler : IrcCommand) : HandlerM Unit :=
  handling.execute env command handler

def connectOnMotd (code : ℕ) : HandlerM Unit := handling.connectOnMotd code

def handleNumeric (command : Bytes) : HandlerM Unit := handling.handleNumeric command

def handleCommand (env : LineEnv) (command : Bytes) : HandlerM Unit :=
  handling.handleCommand env command

def handleParserResult (env : LineEnv) : HandlerM Unit := handling.handleParserResult env

def runCalls (env : LineEnv) (calls : List (IrcParser.Callback × Bytes)) : HandlerM Unit :=
  handling.runCalls env calls

def libircProcessIncomingData (env : LineEnv) (line : Bytes) : HandlerM Unit :=
  handling.libircProcessIncomingData env line

/-- One line of the server. After a fault nothing happens any more. -/
def step (s : LineSession) (e : LineEnv × Bytes) : LineSession :=
  if s.halted.isSome then s
  else
    match (libircProcessIncomingData e.1 e.2).run s with
    | .ok _ s' => s'
    | .error fault s' => { s' with halted := some fault }

end Xdccget.Commands
