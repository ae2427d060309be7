import Xdccget.Commands
import Xdccget.ProgramRelations

set_option autoImplicit false

/-!
# The loop of the client

`irc_run` takes turns with the lines of the server, the transfers, the clock and the
connection, and all of them work on one session. A parameter is read here as the code
reads it: the slot is followed whatever `num_params` says, so what an earlier line left
there is found again.
-/
namespace Xdccget.ClientLoop
open CText IrcParserCarry LineParser DccMessages ClientState ProgramRelations
open IrcParser (ircParserInit)
open DccEvents (Event SocketReady)
open Commands (Fault LineEnv LineSession IrcCommand HandlerM Handling send)
export Commands (Taken privmsg userModeLine keepMD5 ctcpReply fingerText)

/-- One call of `irc_cmd_msg` for a requested download: its arguments, whether the line was taken,
    and the time. -/
structure Asked where
  botNick : Bytes
  xdccCmd : Bytes
  accepted : Bool
  time : ℕ
  deriving DecidableEq, Repr

/-- The session with the clock, the delay of `cfg.sendDelay` and the bytes that have left
    `outgoing_buf`. `asked` and `taken` are records. -/
structure Loop where
  session : LineSession
  timeToSendCommand : ℕ
  now : ℕ
  written : Bytes
  asked : List Asked
  taken : List Taken

abbrev LoopM := EStateM Fault Loop

def onSession {α : Type} (x : HandlerM α) : LoopM α :=
  zoom id Loop.session (fun t s => { s with session := t }) x

def onEvent (e : Event) : LoopM Unit := fun s =>
  let client := DccEvents.step s.session.client e
  let t := { s with session := { s.session with client := client } }
  match client.halted with
  | some h => .error (.client h) t
  | none => .ok ⟨⟩ t

def take (a : Taken) : LoopM Unit := modify fun s => { s with taken := s.taken ++ [a] }

def deref : Option Str → LoopM Bytes
  | none => throw .nullString
  | some str => do
    if str.id ∈ (← get).session.line.freed then
      throw .staleString
    return str.text

/-- `result->params[i]`, read. -/
def param (i : ℕ) : LoopM Bytes := do deref ((← get).session.line.result.params i)

/-- `irc_cmd_msg` for a requested download. -/
def askBot (d : DccDownload) : LoopM Unit := do
  let ret ← onSession (Commands.onClient (ircSendRaw (privmsg d.botNick d.xdccCmd)))
  modify fun s =>
    { s with
      asked := s.asked ++
        [{ botNick := d.botNick, xdccCmd := d.xdccCmd, accepted := ret = 0, time := s.now }] }

/-- A slot is followed as it is. -/
def handling : Handling LoopM where
  withSession k := do k (← get).session
  onSession := onSession
  deref := deref
  param := param
  askBot := askBot
  taken a x := do take a; x
  request env nick buf := onEvent (.request env nick buf)

section fields
variable (k : LineSession → LoopM Unit) (x : LoopM Unit) (y : HandlerM Unit)

@[simp] theorem handling_withSession : handling.withSession k = get >>= fun s => k s.session := rfl
@[simp] theorem handling_onSession : handling.onSession y = onSession y := rfl
@[simp] theorem handling_deref (p : Option Str) : handling.deref p = deref p := rfl
@[simp] theorem handling_param (i : ℕ) : handling.param i = param i := rfl
@[simp] theorem handling_request (env : Env) (nick : Option Bytes) (buf : Bytes) :
    handling.request env nick buf = onEvent (.request env nick buf) := rfl
@[simp] theorem handling_taken (a : Taken) : handling.taken a x = (do take a; x) := rfl

end fields

def dumpEvent : LoopM Unit := handling.dumpEvent

def sendXdccRequests : LoopM Unit := handling.sendXdccRequests

def eventConnect : LoopM Unit := handling.eventConnect

def eventNumeric (code : ℕ) : LoopM Unit := handling.eventNumeric code

def eventJoin : LoopM Unit := handling.eventJoin

def eventMode : LoopM Unit := handling.eventMode

def eventUmode : LoopM Unit := handling.eventUmode

def useMD5 (md5 : Bytes) : LoopM Unit := handling.useMD5 md5

def checkMD5ChecksumNotice (event : Bytes) : LoopM Unit := handling.checkMD5ChecksumNotice event

def checkConnectedEvent (event : Bytes) : LoopM Unit := handling.checkConnectedEvent event

def eventNotice (event : Bytes) : LoopM Unit := handling.eventNotice event

def libircEventCtcpInternal (env : LineEnv) : LoopM Unit := handling.libircEventCtcpInternal env

def handleCtcpText (env : LineEnv) (buf : Bytes) : LoopM Unit := handling.handleCtcpText env buf

def handleCtcpRequest (env : LineEnv) : LoopM Unit := handling.handleCtcpRequest env

def ircPingCommand : LoopM Unit := handling.ircPingCommand

def ircNickCommand : LoopM Unit := handling.ircNickCommand

def ircModeCommand : LoopM Unit := handling.ircModeCommand

def ircPrivmsgCommand (env : LineEnv) : LoopM Unit := handling.ircPrivmsgCommand env

def ircNoticeCommand (event : Bytes) : LoopM Unit := handling.ircNoticeCommand event

def execute (env : LineEnv) (command : Bytes) (handler : IrcCommand) : LoopM Unit :=
  handling.execute env command handler

def connectOnMotd (code : ℕ) : LoopM Unit := handling.connectOnMotd code

def handleNumeric (command : Bytes) : LoopM Unit := handling.handleNumeric command

def handleCommand (env : LineEnv) (command : Bytes) : LoopM Unit :=
  handling.handleCommand env command

def handleParserResult (env : LineEnv) : LoopM Unit := handling.handleParserResult env

def runCalls (env : LineEnv) (calls : List (IrcParser.Callback × Bytes)) : LoopM Unit :=
  handling.runCalls env calls

def libircProcessIncomingData (env : LineEnv) (line : Bytes) : LoopM Unit :=
  handling.libircProcessIncomingData env line

/-- What `vsnprintf` makes of a format that has no arguments. -/
structure Format where
  render : Bytes → Bytes
  plain : ∀ text, percent ∉ text → render text = text

/-- The answers of the system to one line. `strftime` prints no line end for its format. -/
structure Answers where
  dcc : Env
  time : Bytes
  oneLine : cr ∉ time ∧ lf ∉ time

def Answers.env (a : Answers) : LineEnv := ⟨a.dcc, a.time⟩

/-- What `libirc_findcrlf` cuts off. -/
structure Block where
  line : Bytes
  isBlock : IsBlock line

/-- The client has no server password. -/
def registration (s : LineSession) : List Bytes := registrationTexts none s.nick s.realname

def setState (state : LibircState) (err : ℕ) : HandlerM Unit :=
  modify fun t =>
    { t with client := { t.client with net := { t.client.net with state := state, lasterror := err } } }

/-- `handle_connecting_state`; `peer` tells whether the socket is connected. -/
def handleConnectingState (peer : Bool) (format : Format) : LoopM Unit := do
  let s ← get
  if peer then
    onSession (setState .connected s.session.client.net.lasterror)
    (registration s.session).forM fun buf => onSession (send (format.render buf))
  else
    onSession (setState .disconnected libircErrConnect)

def shouldSendXdccRequests (s : Loop) : Bool :=
  s.session.sendDelay && !s.session.sended && s.timeToSendCommand < s.now

/-- `print_output_callback`, which does not sleep here; `outputFlag` is `OUTPUT_FLAG`. -/
def printOutputCallback (outputFlag : Bool) : LoopM Unit := do
  if shouldSendXdccRequests (← get) then
    sendXdccRequests
  if outputFlag then
    onEvent .outputTimer

/-- `session_socket_write` of `length` bytes. -/
def socketWrite (length : ℕ) : LoopM Unit :=
  modify fun s =>
    { s with
      written := s.written ++ s.session.client.net.outgoing.take length
      session :=
        { s.session with
          client :=
            { s.session.client with
              net :=
                { s.session.client.net with
                  outgoing := s.session.client.net.outgoing.drop length } } } }

/-- What `irc_run` comes to. -/
inductive LoopEvent
  | clock (now : ℕ)
  | keepAlive (outputFlag : Bool)
  | connecting (peer : Bool) (format : Format)
  | line (answers : Answers) (block : Block)
  | writable (length : ℕ)
  | socket (dccid : ℕ) (ready : SocketReady)
  | addDescriptors
  | closed
  | interrupt

def reaches (state : LibircState) : LoopEvent → Bool
  | .clock _ => true
  | .connecting _ _ => state = .connecting
  | .line _ _ => state = .connected
  | .writable _ => state = .connected
  | .closed => state = .connected
  | .keepAlive _ => state = .connecting || state = .connected
  | .socket _ _ => state = .connecting || state = .connected
  | .addDescriptors => state = .connecting || state = .connected
  | .interrupt => state = .connecting || state = .connected

def handle : LoopEvent → LoopM Unit
  | .clock now => modify fun s => { s with now := now }
  | .keepAlive outputFlag => printOutputCallback outputFlag
  | .connecting peer format => handleConnectingState peer format
  | .line answers block => libircProcessIncomingData answers.env block.line
  | .writable length => socketWrite length
  | .socket dccid ready => onEvent (.socket dccid ready)
  | .addDescriptors => onEvent .addDescriptors
  | .closed => onSession (setState .disconnected libircErrClosed)
  | .interrupt => onSession (send quitLine)

def Loop.halt (s : Loop) (fault : Fault) : Loop :=
  { s with session := { s.session with halted := some fault } }

/-- The loop is at its end, or it does not come to the event. -/
def idle (s : Loop) (e : LoopEvent) : Bool :=
  s.session.halted.isSome || !reaches s.session.client.net.state e

def step (s : Loop) (e : LoopEvent) : Loop :=
  if idle s e then s
  else
    match (handle e).run s with
    | .ok _ t => t
    | .error fault t => t.halt fault

/-- What the user has configured, with the time that `cfg.sendDelay` waits for. -/
structure Setup where
  cfg : XdccGetConfig
  nick : Bytes
  loginCommand : Option Bytes
  sendDelay : Option ℕ
  channelsToJoin : List Bytes
  files : Bytes → Option Bytes
  now : ℕ

def connectingNet : Net :=
  { state := .connecting, lasterror := libircErrOk, outgoing := [], mutexDcc := 0,
    sslContext := false, alarm := true }

/-- `main` comes to `irc_run`. -/
def Setup.start (c : Setup) : Loop :=
  { session :=
      { client := DccEvents.initial c.cfg connectingNet c.files
        parser := ircParserInit
        line := createLineParser
        lineStart := 0
        nick := cstr c.nick
        username := none
        realname := none
        motdReceived := false
        loginCommand := c.loginCommand
        sendDelay := c.sendDelay.isSome
        channelsToJoin := c.channelsToJoin
        sended := false
        onConnectEventDone := false
        dispatched := []
        halted := none }
    timeToSendCommand := c.sendDelay.getD 0
    now := c.now
    written := []
    asked := []
    taken := [] }

/-- The client `me` with a download requested from `bot`. -/
def botSetup : Setup :=
  { cfg := DccEvents.oneBot false
    nick := bytes "me"
    loginCommand := none
    sendDelay := none
    channelsToJoin := [bytes "#c"]
    files := DccEvents.noFiles
    now := 0 }

def plainFormat : Format := ⟨id, fun _ _ => rfl⟩

def connects : LoopEvent := .connecting true plainFormat

def readyAnswers : Answers := ⟨DccEvents.readyEnv, [], by decide⟩

end Xdccget.ClientLoop
