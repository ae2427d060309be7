import Xdccget.CText
import Mathlib.Logic.Function.Basic

set_option autoImplicit false

/-!
# The line parser of `irc_parser.c`

The parser turns the bytes of a line into callbacks. Every write to `raw` and
every slice handed to a callback is recorded, so that an access outside the
buffer can be seen; `raw` itself is modelled without an end.
-/
namespace Xdccget.IrcParser
open CText

/-- `raw` has one cell more than this. -/
def ircParserRawBufferSize : ℕ := 512

inductive ParserState
  | init | nick | name | host | command | params | trailing | end_ | error
  deriving DecidableEq, Repr

inductive ParserError
  | none | parse | undefState | length | user
  deriving DecidableEq, Repr

inductive Callback
  | onNick | onName | onHost | onCommand | onParam | onEnd | onError
  deriving DecidableEq, Repr

structure Parser where
  len : ℕ
  last : ℕ
  state : ParserState
  error : ParserError
  raw : ℕ → UInt8

/-- What the parser does to memory, in order. `call` hands `raw + at_` with `len`
    bytes to a callback; `callData` hands the rest of the input to `on_error`. -/
inductive Event
  | write (index : ℕ)
  | call (cb : Callback) (at_ : ℕ) (len : ℤ) (text : Bytes)
  | callData (offset len : ℕ)
  deriving DecidableEq, Repr

/-- The functions that `create_line_parser` installs: `on_nick`, `on_name`,
    `on_host`, `on_command`, `on_param`, `handle_parser_result` and `on_error`
    all return 0. -/
def callbackResult : Callback → ℤ
  | .onNick => 0
  | .onName => 0
  | .onHost => 0
  | .onCommand => 0
  | .onParam => 0
  | .onEnd => 0
  | .onError => 0

def ircParserGetCb (p : Parser) : Callback :=
  match p.state with
  | .init => .onNick
  | .nick => .onNick
  | .name => .onName
  | .host => .onHost
  | .command => .onCommand
  | .params => .onParam
  | .trailing => .onParam
  | .end_ => .onParam
  | .error => .onError

def ircGetNextState (p : Parser) : ParserState :=
  match p.state with
  | .init => .nick
  | .nick => .name
  | .name => .host
  | .host => .command
  | .command => .params
  | .params => .trailing
  | .trailing => .end_
  | .end_ => .init
  | .error => .error

def andThen (r : Parser × List Event) (f : Parser → Parser × List Event) :
    Parser × List Event :=
  let s := f r.1
  (s.1, r.2 ++ s.2)

def slice (raw : ℕ → UInt8) (start n : ℕ) : Bytes := (List.range n).map (fun j => raw (start + j))

def ircParserForceCall (p : Parser) (f : Callback) : Parser × List Event :=
  let n : ℤ := (p.len : ℤ) - (p.last : ℤ) - 1
  let e := Event.call f p.last n (slice p.raw p.last n.toNat)
  if callbackResult f ≠ 0 then ({ p with state := .error, error := .user }, [e]) else (p, [e])

def ircParserCall (p : Parser) : Parser × List Event := ircParserForceCall p (ircParserGetCb p)

def ircParserSetState (p : Parser) (state : ParserState) : Parser :=
  { p with state := state, last := p.len }

def ircParserProgressState (p : Parser) : Parser := ircParserSetState p (ircGetNextState p)

def ircParserCallAndProgress (p : Parser) : Parser × List Event :=
  andThen (ircParserCall p) (fun q => (ircParserProgressState q, []))

def ircParserCallAndProgressOn (p : Parser) (a b : UInt8) : Parser × List Event :=
  if a = b then ircParserCallAndProgress p else (p, [])

def ircParserSwitchToStateIfCharReceived (p : Parser) (currentChar expectedChar : UInt8)
    (state : ParserState) : Parser × List Event :=
  if currentChar = expectedChar then
    andThen (ircParserCall p) (fun q => (ircParserSetState q state, []))
  else (p, [])

def ircParserSwitchToCommandIfSpaceReceived (p : Parser) (currentChar : UInt8) :
    Parser × List Event :=
  ircParserSwitchToStateIfCharReceived p currentChar space .command

def ircParserSwitchToHostIfAtReceived (p : Parser) (currentChar : UInt8) : Parser × List Event :=
  ircParserSwitchToStateIfCharReceived p currentChar at_ .host

/-- `memset` clears `IRC_PARSER_RAW_BUFFER_SIZE` cells, so the last one keeps its byte. -/
def ircParserReset (p : Parser) : Parser :=
  { len := 0
    last := 0
    state := .init
    error := .none
    raw := fun j => if j < ircParserRawBufferSize then 0 else p.raw j }

/-- `irc_parser_init` on the zeroed memory that `create_line_parser` allocates. -/
def ircParserInit : Parser :=
  ircParserReset { len := 0, last := 0, state := .init, error := .none, raw := fun _ => 0 }

def ircParserAppendRaw (p : Parser) (a : UInt8) : Parser × List Event :=
  let q := { p with raw := Function.update p.raw p.len a, len := p.len + 1 }
  (if ircParserRawBufferSize < q.len then { q with state := .error, error := .length } else q,
    [.write p.len])

/-- How a turn of the loop ends: with the next byte, with the same byte (`i--`),
    or with a return of -1 or of `i`. -/
inductive Flow
  | next | again | returnMinusOne | returnIndex
  deriving DecidableEq, Repr

structure Turn where
  parser : Parser
  events : List Event
  flow : Flow

def Turn.next (r : Parser × List Event) : Turn := ⟨r.1, r.2, .next⟩

/-- The inner `switch`, entered after the byte has been appended. -/
def appendedTurn (q : Parser) (a : UInt8) : Turn :=
  match q.state with
  | .init =>
    if a = colon then ⟨{ q with last := 1, state := .nick }, [], .next⟩
    else ⟨{ q with len := q.len - 1, state := .command }, [], .again⟩
  | .nick =>
    .next (andThen (andThen (ircParserSwitchToHostIfAtReceived q a)
      (fun r => ircParserSwitchToCommandIfSpaceReceived r a))
      (fun r => ircParserCallAndProgressOn r a bang))
  | .name =>
    .next (andThen (ircParserSwitchToCommandIfSpaceReceived q a)
      (fun r => ircParserCallAndProgressOn r a at_))
  | .host => .next (ircParserCallAndProgressOn q a space)
  | .command => .next (ircParserCallAndProgressOn q a space)
  | .params =>
    if a = space then
      .next (andThen (ircParserCall q) (fun r => ({ r with last := r.len }, [])))
    else if a = colon ∧ q.len = q.last + 1 then .next (ircParserProgressState q, [])
    else .next (q, [])
  | .trailing => .next (q, [])
  | .error => ⟨{ q with state := .error }, [], .returnIndex⟩
  | .end_ => ⟨{ q with error := .undefState, state := .error }, [], .returnIndex⟩

/-- One turn of the loop of `irc_parser_execute`, for the byte `a`. -/
def turn (p : Parser) (a : UInt8) : Turn :=
  if a = cr then ⟨{ p with state := .end_ }, [], .next⟩
  else if a = lf then
    if p.state = .end_ then
      .next (andThen (andThen (ircParserCall { p with len := p.len + 1 })
        (fun q => ircParserForceCall q .onEnd)) (fun q => (ircParserReset q, [])))
    else ⟨p, [], .returnMinusOne⟩
  else
    let r := ircParserAppendRaw p a
    let t := appendedTurn r.1 a
    ⟨t.parser, r.2 ++ t.events, t.flow⟩

/-- The turns that one byte takes: `i--` is only reached in the initial state and
    leaves the command state, so the byte is read at most twice. -/
def readByte (p : Parser) (a : UInt8) : Turn :=
  let t := turn p a
  if t.flow = .again then
    let u := turn t.parser a
    ⟨u.parser, t.events ++ u.events, u.flow⟩
  else t

/-- `value` is the returned `size_t`. -/
structure Execution where
  parser : Parser
  events : List Event
  value : ℕ

def sizeMax : ℕ := 2 ^ 64 - 1

/-- The loop, at index `i` of `total` bytes. -/
def executeFrom (total : ℕ) (p : Parser) (i : ℕ) : Bytes → Execution
  | [] => ⟨p, [], i⟩
  | a :: rest =>
    let t := readByte p a
    match t.flow with
    | .returnMinusOne => ⟨t.parser, t.events, sizeMax⟩
    | .returnIndex => ⟨t.parser, t.events ++ [.callData i (total - i)], i⟩
    | .next | .again =>
      let r := executeFrom total t.parser (i + 1) rest
      ⟨r.parser, t.events ++ r.events, r.value⟩

def ircParserExecute (p : Parser) (data : Bytes) : Execution := executeFrom data.length p 0 data

/-- `libirc_process_incoming_data` on one block after another. The return value is
    dropped and the parser is kept as it is; `free_parser_result` only touches the result. -/
def feedLines (p : Parser) : List Bytes → Parser × List Event
  | [] => (p, [])
  | line :: rest =>
    let r := ircParserExecute p line
    let s := feedLines r.parser rest
    (s.1, r.events ++ s.2)

theorem callbackResult_zero (f : Callback) : callbackResult f = 0 := by cases f <;> rfl

@[simp] theorem forceCall_fst (p : Parser) (f : Callback) : (ircParserForceCall p f).1 = p := by
  simp [ircParserForceCall, callbackResult_zero]

theorem forceCall_events (p : Parser) (f : Callback) : (ircParserForceCall p f).2 =
    [.call f p.last ((p.len : ℤ) - p.last - 1)
      (slice p.raw p.last ((p.len : ℤ) - p.last - 1).toNat)] := by
  simp [ircParserForceCall, callbackResult_zero]

@[simp] theorem call_fst (p : Parser) : (ircParserCall p).1 = p := forceCall_fst p _

@[simp] theorem andThen_fst (r : Parser × List Event) (f : Parser → Parser × List Event) :
    (andThen r f).1 = (f r.1).1 := rfl

@[simp] theorem andThen_snd (r : Parser × List Event) (f : Parser → Parser × List Event) :
    (andThen r f).2 = r.2 ++ (f r.1).2 := rfl

theorem turn_cr (p : Parser) : turn p cr = ⟨{ p with state := .end_ }, [], .next⟩ := rfl

theorem turn_lf (p : Parser) (h : p.state = .end_) : turn p lf =
    ⟨ircParserReset { p with len := p.len + 1 },
      (ircParserCall { p with len := p.len + 1 }).2 ++
        (ircParserForceCall { p with len := p.len + 1 } .onEnd).2, .next⟩ := by
  simp [turn, h, Turn.next, lf, cr]

theorem turn_lf_early (p : Parser) (h : p.state ≠ .end_) :
    turn p lf = ⟨p, [], .returnMinusOne⟩ := by
  simp [turn, h, lf, cr]

theorem turn_other (p : Parser) (a : UInt8) (hc : a ≠ cr) (hl : a ≠ lf) : turn p a =
    ⟨(appendedTurn (ircParserAppendRaw p a).1 a).parser,
      .write p.len :: (appendedTurn (ircParserAppendRaw p a).1 a).events,
      (appendedTurn (ircParserAppendRaw p a).1 a).flow⟩ := by
  simp [turn, hc, hl, ircParserAppendRaw]

theorem appendedTurn_nick {q : Parser} (a : UInt8) (hs : q.state = .nick) : appendedTurn q a =
    if a = at_ then .next (ircParserSetState q .host, (ircParserCall q).2)
    else if a = space then .next (ircParserSetState q .command, (ircParserCall q).2)
    else if a = bang then .next (ircParserSetState q .name, (ircParserCall q).2)
    else .next (q, []) := by
  have hsp : space ≠ at_ := by decide
  have hb : bang ≠ at_ ∧ bang ≠ space := by decide
  have hn : ircGetNextState q = .name := by simp [ircGetNextState, hs]
  simp only [appendedTurn, hs, ircParserSwitchToHostIfAtReceived,
    ircParserSwitchToCommandIfSpaceReceived, ircParserSwitchToStateIfCharReceived,
    ircParserCallAndProgressOn, ircParserCallAndProgress, ircParserProgressState]
  by_cases h1 : a = at_
  · subst h1; simp [andThen, hsp.symm, hb.1.symm]
  by_cases h2 : a = space
  · subst h2; simp [andThen, hsp, hb.2.symm]
  by_cases h3 : a = bang
  · subst h3; simp [andThen, hb, hn]
  simp [andThen, h1, h2, h3]

theorem appendedTurn_name {q : Parser} (a : UInt8) (hs : q.state = .name) : appendedTurn q a =
    if a = space then .next (ircParserSetState q .command, (ircParserCall q).2)
    else if a = at_ then .next (ircParserSetState q .host, (ircParserCall q).2)
    else .next (q, []) := by
  have hsp : at_ ≠ space := by decide
  have hn : ircGetNextState q = .host := by simp [ircGetNextState, hs]
  simp only [appendedTurn, hs, ircParserSwitchToCommandIfSpaceReceived,
    ircParserSwitchToStateIfCharReceived, ircParserCallAndProgressOn, ircParserCallAndProgress,
    ircParserProgressState]
  by_cases h1 : a = space
  · subst h1; simp [andThen, hsp.symm]
  by_cases h2 : a = at_
  · subst h2; simp [andThen, hsp, hn]
  simp [andThen, h1, h2]

theorem appendedTurn_host {q : Parser} (a : UInt8) (hs : q.state = .host) : appendedTurn q a =
    if a = space then .next (ircParserSetState q .command, (ircParserCall q).2)
    else .next (q, []) := by
  have hn : ircGetNextState q = .command := by simp [ircGetNextState, hs]
  simp only [appendedTurn, hs, ircParserCallAndProgressOn, ircParserCallAndProgress,
    ircParserProgressState]
  by_cases h1 : a = space <;> simp [andThen, h1, hn]

theorem appendedTurn_command {q : Parser} (a : UInt8) (hs : q.state = .command) :
    appendedTurn q a =
      if a = space then .next (ircParserSetState q .params, (ircParserCall q).2)
      else .next (q, []) := by
  have hn : ircGetNextState q = .params := by simp [ircGetNextState, hs]
  simp only [appendedTurn, hs, ircParserCallAndProgressOn, ircParserCallAndProgress,
    ircParserProgressState]
  by_cases h1 : a = space <;> simp [andThen, h1, hn]

theorem appendedTurn_params {q : Parser} (a : UInt8) (hs : q.state = .params) :
    appendedTurn q a =
      if a = space then .next (ircParserSetState q .params, (ircParserCall q).2)
      else if a = colon ∧ q.len = q.last + 1 then .next (ircParserSetState q .trailing, [])
      else .next (q, []) := by
  have hn : ircGetNextState q = .trailing := by simp [ircGetNextState, hs]
  have hsame : { q with last := q.len } = ircParserSetState q .params := by
    simp [ircParserSetState, hs]
  simp only [appendedTurn, hs, ircParserProgressState, hn]
  by_cases h1 : a = space
  · simp [andThen, h1, hsame]
  · simp [h1]

/-- Everything that the inner `switch` can do. -/
inductive AppendedTurn (q : Parser) : Turn → Prop
  | started (hs : q.state = .init) :
      AppendedTurn q ⟨{ q with last := 1, state := .nick }, [], .next⟩
  | unread (hs : q.state = .init) :
      AppendedTurn q ⟨{ q with len := q.len - 1, state := .command }, [], .again⟩
  | called (s : ParserState) (hs : q.state ∉ [.init, .trailing, .end_, .error])
      (hnext : s ∈ [.name, .host, .command, .params]) :
      AppendedTurn q (.next (ircParserSetState q s, (ircParserCall q).2))
  | trailed (hs : q.state = .params) :
      AppendedTurn q (.next (ircParserSetState q .trailing, []))
  | quiet (hs : q.state ∉ [.init, .end_, .error]) : AppendedTurn q (.next (q, []))
  | failed (e : ParserError) (hs : q.state ∈ [.end_, .error]) :
      AppendedTurn q ⟨{ q with error := e, state := .error }, [], .returnIndex⟩

theorem appendedTurn_cases (q : Parser) (a : UInt8) : AppendedTurn q (appendedTurn q a) := by
  have hcalled : ∀ s, q.state ∉ [.init, .trailing, .end_, .error] →
      s ∈ [.name, .host, .command, .params] →
      AppendedTurn q (.next (ircParserSetState q s, (ircParserCall q).2)) := .called
  cases hs : q.state with
  | init =>
    simp only [appendedTurn, hs]
    split
    · exact .started hs
    · exact .unread hs
  | nick =>
    rw [appendedTurn_nick a hs]
    split_ifs
    iterate 3 exact hcalled _ (by simp [hs]) (by simp)
    exact .quiet (by simp [hs])
  | name =>
    rw [appendedTurn_name a hs]
    split_ifs
    iterate 2 exact hcalled _ (by simp [hs]) (by simp)
    exact .quiet (by simp [hs])
  | host =>
    rw [appendedTurn_host a hs]
    split_ifs
    · exact hcalled _ (by simp [hs]) (by simp)
    · exact .quiet (by simp [hs])
  | command =>
    rw [appendedTurn_command a hs]
    split_ifs
    · exact hcalled _ (by simp [hs]) (by simp)
    · exact .quiet (by simp [hs])
  | params =>
    rw [appendedTurn_params a hs]
    split_ifs
    · exact hcalled _ (by simp [hs]) (by simp)
    · exact .trailed hs
    · exact .quiet (by simp [hs])
  | trailing =>
    simp only [appendedTurn, hs]
    exact .quiet (by simp [hs])
  | end_ =>
    simp only [appendedTurn, hs]
    exact .failed .undefState (by simp [hs])
  | error =>
    simp only [appendedTurn, hs]
    exact .failed q.error (by simp [hs])

theorem appendedTurn_again {q : Parser} {a : UInt8} (h : (appendedTurn q a).flow = .again) :
    q.state = .init ∧ (appendedTurn q a).parser.state = .command := by
  have hcases := appendedTurn_cases q a
  generalize appendedTurn q a = t at h hcases ⊢
  cases hcases with
  | unread hs => exact ⟨hs, rfl⟩
  | started | called | trailed | quiet | failed => cases h

theorem turn_again {p : Parser} {a : UInt8} (h : (turn p a).flow = .again) :
    (turn p a).parser.state = .command ∧ a ≠ cr ∧ a ≠ lf := by
  by_cases hc : a = cr
  · subst hc; simp [turn_cr] at h
  by_cases hl : a = lf
  · subst hl
    by_cases hs : p.state = .end_
    · simp [turn_lf p hs] at h
    · simp [turn_lf_early p hs] at h
  rw [turn_other p a hc hl] at h ⊢
  exact ⟨(appendedTurn_again h).2, hc, hl⟩

theorem turn_command_flow {p : Parser} {a : UInt8} (hs : p.state = .command) :
    (turn p a).flow ≠ .again := by
  intro h
  obtain ⟨-, hc, hl⟩ := turn_again h
  rw [turn_other p a hc hl] at h
  have hi := (appendedTurn_again h).1
  simp only [ircParserAppendRaw] at hi
  split at hi
  · cases hi
  · exact absurd (hs.symm.trans hi) (by decide)

theorem readByte_flow (p : Parser) (a : UInt8) : (readByte p a).flow ≠ .again := by
  unfold readByte
  dsimp only
  split
  · rename_i h
    exact turn_command_flow (turn_again h).1
  · assumption

end Xdccget.IrcParser
