import Xdccget.CtcpReplies
import Xdccget.PairedTurns

set_option autoImplicit false

/-!
# Lines of strangers

A DCC request from a nick that no download is requested from is ignored, and yet it is
parsed and freed as any line is. What it frees is the second slot, so a run without the
line can only differ where a later line takes the slot with no parameter in it.
-/
namespace Xdccget.StrangerLines
open CText IrcParser IrcParserBounds IrcParserCarry LineWords LineParser LineOwnership DccMessages ClientState
  HaltingPrograms StepRuns ClientLoop LoopFrames LoopLines MessageLines PairedLines PairedTurns CtcpReplies
open Commands (LineEnv LineSession ctcpBuf isCtcpRequest isDccRequest getCommand strlen isNumericCommand)
open LineSteps (callsOf Ends)

def arrival (line : Bytes) : LineState :=
  (callbacks (ircParserExecute ircParserInit line).events).foldl onCall createLineParser

/-- A DCC request in a `PRIVMSG`, from a nick that is none of the bots'. -/
def fromStranger (bots : List Bytes) (line : Bytes) : Bool :=
  let r := (arrival line).result
  1 < r.numParams && r.command.any (·.text = bytes "PRIVMSG") &&
    (r.params 1).any (fun str =>
      isCtcpRequest str.text && isDccRequest (ctcpBuf str.text libircBufferSize)) &&
    r.nick.any fun str => bots.all fun bot => !strcasecmpEq bot str.text

def lineOf : LoopEvent → Option Bytes
  | .line _ block => some block.line
  | .clock _ => none
  | .keepAlive _ => none
  | .connecting _ _ => none
  | .writable _ => none
  | .socket _ _ => none
  | .addDescriptors => none
  | .closed => none
  | .interrupt => none

def ofStranger (bots : List Bytes) (e : LoopEvent) : Bool := (lineOf e).any (fromStranger bots)

def Inbound (line : Bytes) : Prop :=
  ∃ w, line = w ++ [cr, lf] ∧ w.length ≤ ircParserRawBufferSize ∧ w.head? = some colon ∧
    ∀ a ∈ w, a ≠ cr ∧ a ≠ lf ∧ a ≠ nul

/-- The list of the sessions, the table of the downloads and its counters are the same. -/
structure SameTransfers (s t : Loop) : Prop where
  dccSessions : s.session.client.dccSessions = t.session.client.dccSessions
  downloadContext : s.session.client.downloadContext = t.session.client.downloadContext
  numActiveDownloads : s.session.client.numActiveDownloads = t.session.client.numActiveDownloads
  finishedDownloads : s.session.client.finishedDownloads = t.session.client.finishedDownloads
  lastDownload : s.session.client.lastDownload = t.session.client.lastDownload
  curDownload : s.session.client.curDownload = t.session.client.curDownload

/-- The loop, and whether a line of a stranger has emptied the second slot since a line last had a
    second parameter. -/
structure Watched where
  loop : Loop
  emptied : Bool

def watch (s : Loop) : Watched := ⟨s, false⟩

def emptiedBy (bots : List Bytes) (w : Watched) (line : Bytes) : Bool :=
  if fromStranger bots line then w.emptied || (w.loop.session.line.result.params 1).isSome
  else w.emptied && (LineSteps.entered w.loop.session line).line.result.numParams < 2

def Watched.step (bots : List Bytes) (w : Watched) (e : LoopEvent) : Watched :=
  { loop := ClientLoop.step w.loop e
    emptied :=
      if idle w.loop e then w.emptied else (lineOf e).elim w.emptied (emptiedBy bots w) }

def Untouched (w : Watched) (e : LoopEvent) : Prop :=
  w.emptied = true → idle w.loop e = false → ∀ line ∈ lineOf e,
    ¬ ReadsSecond (LineSteps.entered w.loop.session line)

def bots (cfg : XdccGetConfig) : List Bytes := (requests cfg).map (·.1)

theorem lineCarry_of_short {w : Bytes} {n : ℕ} (hw : ∀ a ∈ w, a ≠ cr ∧ a ≠ lf)
    (hlen : n + w.length ≤ ircParserRawBufferSize) : lineCarry (.live n) (w ++ [cr, lf]) = .live 0 := by
  induction w generalizing n with
  | nil =>
    have hne : cr ≠ lf := by decide
    simp [lineCarry, crCarry, hne]
  | cons a w ih =>
    obtain ⟨hc, hl⟩ := hw a List.mem_cons_self
    rw [List.length_cons] at hlen
    have hroom : n < ircParserRawBufferSize := by omega
    rw [List.cons_append, lineCarry, if_neg hl, if_neg hc, if_pos hroom]
    exact ih (fun b hb => hw b (List.mem_cons_of_mem a hb)) (by omega)

theorem Inbound.carry {line : Bytes} (h : Inbound line) : lineCarry (.live 0) line = .live 0 := by
  obtain ⟨w, rfl, hlen, -, hw⟩ := h
  exact lineCarry_of_short (fun a ha => ⟨(hw a ha).1, (hw a ha).2.1⟩) (by omega)

section lines
variable {s : LineSession} {line : Bytes}

theorem callsOf_fresh (h : Holds (.live 0) s.parser) :
    callsOf s line = callbacks (ircParserExecute ircParserInit line).events := by
  have hevents : (ircParserExecute s.parser line).events =
      (ircParserExecute ircParserInit line).events := (agree_init h).executeFrom _ _ _
  rw [callsOf, hevents]

theorem ends_iff {t : LineSession} (hs : Holds (.live 0) s.parser) (ht : Holds (.live 0) t.parser)
    (line : Bytes) : Ends s line ↔ Ends t line := by
  unfold Ends
  rw [callsOf_fresh hs, callsOf_fresh ht]

theorem entered_atLineStart (h : AtLineStart s) {line : Bytes} (hline : Inbound line) (hblock : IsBlock line) :
    Holds (.live 0) (LineSteps.entered s line).parser ∧ Bounded (LineSteps.entered s line).line := by
  have hholds := LineSteps.entered_holds h.parser hblock
  rw [hline.carry] at hholds
  exact ⟨hholds, (LineSteps.entered_parsed h.line line).bounded⟩

theorem entered_arrival (h : AtLineStart s) (line : Bytes) :
    SameLine False (LineSteps.entered s line).line (arrival line) := by
  have hline : (LineSteps.entered s line).line = (callsOf s line).foldl onCall s.line := rfl
  rw [hline, callsOf_fresh h.parser]
  exact (sameLine_settled h.line createLineParser_clean.settled False.elim).foldl _

structure Strange (bots : List Bytes) (s : LineSession) (nick body : Bytes) : Prop where
  command : s.line.result.command.map (·.text) = some (bytes "PRIVMSG")
  numParams : 1 < s.line.result.numParams
  second : paramText s 1 = some body
  ctcp : isCtcpRequest body = true
  dcc : isDccRequest (ctcpBuf body libircBufferSize) = true
  source : s.line.result.nick.map (·.text) = some nick
  other : ∀ bot ∈ bots, strcasecmpEq bot nick = false

theorem map_text_of_any {p : Option Str} {f : Str → Bool} (h : p.any f = true) :
    ∃ str, p = some str ∧ f str = true := by
  cases p with
  | none => cases h
  | some str => exact ⟨str, rfl, h⟩

theorem strange_of_stranger {bots : List Bytes} (h : AtLineStart s)
    (hfrom : fromStranger bots line = true) :
    ∃ nick body, Strange bots (LineSteps.entered s line) nick body := by
  obtain ⟨ρ, -, hr⟩ := entered_arrival h line
  have hparsed := LineSteps.entered_parsed h.line line
  simp only [fromStranger, Bool.and_eq_true, decide_eq_true_eq] at hfrom
  obtain ⟨⟨⟨hnum, hcommand⟩, hbody⟩, hnick⟩ := hfrom
  rw [← hr.numParams] at hnum
  obtain ⟨command, hcommand, hprivmsg⟩ := map_text_of_any hcommand
  obtain ⟨body, hbody, hdcc⟩ := map_text_of_any hbody
  obtain ⟨nick, hnick, hother⟩ := map_text_of_any hnick
  rw [Bool.and_eq_true] at hdcc
  have htext := (hr.params 1 (.inl hnum)).text
  obtain ⟨str, hstr, hlive⟩ := hparsed.params 1 hnum
  rw [hstr, hbody, Option.map_some, Option.map_some, Option.some.injEq] at htext
  refine ⟨nick.text, body.text, ?_, hnum, ?_, hdcc.1, hdcc.2, ?_, ?_⟩
  · rw [hr.command.text, hcommand, Option.map_some, of_decide_eq_true hprivmsg]
  · rw [paramText, hstr, ← htext]
    exact if_neg hlive.2
  · rw [hr.nick.text, hnick, Option.map_some]
  · intro bot hbot
    exact Bool.not_eq_true' _ ▸ List.all_eq_true.mp hother bot hbot

end lines

def Checked (names : List Bytes) (cfg : XdccGetConfig) : Prop :=
  cfg.acceptAllNicks = false ∧ bots cfg = names

theorem isValidRequestFromNick_other {names : List Bytes} {cfg : XdccGetConfig} (h : Checked names cfg)
    {nick : Bytes} (hother : ∀ bot ∈ names, strcasecmpEq bot nick = false) :
    Downloads.isValidRequestFromNick cfg (some nick) = some false := by
  obtain ⟨hall, rfl⟩ := h
  unfold Downloads.isValidRequestFromNick
  cases hds : cfg.dccDownloadArray with
  | none => rfl
  | some ds =>
    have hnone : (ds.any fun d => strcasecmpEq d.botNick nick) = false := by
      rw [List.any_eq_false]
      intro d hd
      have hbot : d.botNick ∈ bots cfg := by
        simp only [bots, requests, hds, Option.getD_some, List.map_map]
        exact List.mem_map_of_mem (f := fun d => d.botNick) hd
      rw [hother d.botNick hbot]
      exact Bool.false_ne_true
    dsimp only
    rw [hall, if_neg Bool.false_ne_true, hnone]

theorem step_request_other {names : List Bytes} {c : Client} (h : Checked names c.cfg)
    (hlive : c.halted = none) {nick : Bytes} (hother : ∀ bot ∈ names, strcasecmpEq bot nick = false)
    (env : Env) (req : Bytes) : DccEvents.step c (.request env (some nick) req) = c := by
  have hget : (get : ClientM Client).run c = .ok c c := rfl
  have hrun : (DccEvents.libircDccRequest env (some nick) req).run c = .ok ⟨⟩ c := by
    rw [DccEvents.libircDccRequest, run_bind_of_ok hget, isValidRequestFromNick_other h hother]
    rfl
  simp only [DccEvents.step, hlive, DccEvents.handle, hrun]

section handlers
variable {s : Loop} {names : List Bytes} {nick body : Bytes}

theorem handleParserResult_strange (env : LineEnv) (h : Strange names s.session nick body)
    (hcfg : Checked names s.session.client.cfg) (hlive : s.session.client.halted = none) :
    (handleParserResult env).run s =
      .ok ⟨⟩ (LoopFrames.dispatched s (.command .privmsg (bytes "PRIVMSG"))) := by
  let t : Loop := LoopFrames.dispatched s (.command .privmsg (bytes "PRIVMSG"))
  have hnumeric : isNumericCommand (bytes "PRIVMSG") = false := by decide
  have hhandler : getCommand (bytes "PRIVMSG") (strlen (bytes "PRIVMSG")) = .privmsg := by decide
  have hbody : paramText t.session 1 = some body := h.second
  have hnick : t.session.line.result.nick.map (·.text) = some nick := h.source
  have hstep := step_request_other hcfg hlive h.other env.dcc (ctcpBuf body libircBufferSize)
  have hevent : eventLoop t (.request env.dcc (some nick) (ctcpBuf body libircBufferSize)) = t := by
    unfold eventLoop
    rw [show t.session.client = s.session.client from rfl, hstep]
    rfl
  rw [handleParserResult_run h.command hnumeric hhandler]
  change (ircPrivmsgCommand env).run t = _
  rw [CtcpUnwrapping.ircPrivmsgCommand_run env hbody h.numParams h.ctcp, handleCtcpText,
    Commands.Handling.handleCtcpText, if_pos h.dcc, handling_withSession, run_get_bind]
  dsimp only [handling_request]
  rw [hnick, onEvent_run, hevent, show t.session.client = s.session.client from rfl, hlive]

end handlers

/-- The turns besides the lines change neither the parse result nor the configuration. -/
structure Unread (s t : Loop) : Prop where
  parser : t.session.parser = s.session.parser
  line : t.session.line = s.session.line
  cfg : t.session.client.cfg = s.session.client.cfg

theorem unread_frame : Frame Unread where
  refl _ := ⟨rfl, rfl, rfl⟩
  trans _ _ _ h h' := ⟨h'.parser.trans h.parser, h'.line.trans h.line, h'.cfg.trans h.cfg⟩

theorem unread_onSession {α : Type} {x : Commands.HandlerM α}
    (h : Moves (fun s t => t.parser = s.parser ∧ t.line = s.line ∧ t.client.cfg = s.client.cfg) x) :
    Moves Unread (onSession x) := by
  intro s
  have hend : endState (onSession x) s = { s with session := endState x s.session } :=
    ProgramRelations.endState_zoom _ _ _ x s
  obtain ⟨hparser, hline, hcfg⟩ := h s.session
  rw [hend]
  exact ⟨hparser, hline, hcfg⟩

theorem unread_send (text : Bytes) : Moves Unread (onSession (Commands.send text)) := by
  apply unread_onSession
  intro s
  rw [endState_of_ok (send_run text s)]
  exact ⟨rfl, rfl, rfl⟩

theorem unread_onEvent (e : DccEvents.Event) : Moves Unread (onEvent e) := by
  intro s
  rw [endState_onEvent]
  exact ⟨rfl, rfl, TableChanges.cfg_step _ _⟩

theorem unread_askBot (d : DccDownload) : Moves Unread (askBot d) := by
  refine unread_frame.bind (unread_onSession fun s => ?_) fun _ => moves_modify fun _ => ⟨rfl, rfl, rfl⟩
  rw [endState_of_ok (onClient_send_run _ s)]
  exact ⟨rfl, rfl, rfl⟩

theorem unread_sendXdccRequests : Moves Unread sendXdccRequests := by
  have hsended : Moves Unread (onSession (modify fun t => { t with sended := true })) :=
    unread_onSession (moves_modify fun _ => ⟨rfl, rfl, rfl⟩)
  exact unread_frame.get_bind fun _ =>
    moves_ite (unread_frame.bind (unread_frame.forM unread_askBot _) fun _ => hsended)
      (unread_frame.pure _)

theorem unread_handleConnectingState (peer : Bool) (format : Format) :
    Moves Unread (handleConnectingState peer format) := by
  have hset (state : LibircState) (err : ℕ) : Moves Unread (onSession (setState state err)) :=
    unread_onSession (moves_modify fun _ => ⟨rfl, rfl, rfl⟩)
  exact unread_frame.get_bind fun _ => moves_ite
    (unread_frame.bind (hset _ _) fun _ => unread_frame.forM (fun _ => unread_send _) _) (hset _ _)

theorem unread_printOutputCallback (outputFlag : Bool) : Moves Unread (printOutputCallback outputFlag) := by
  have htimer : Moves Unread (if outputFlag then onEvent .outputTimer else pure ⟨⟩ : LoopM Unit) :=
    moves_ite (unread_onEvent _) (unread_frame.pure _)
  exact unread_frame.get_bind fun _ =>
    moves_ite (unread_frame.bind unread_sendXdccRequests fun _ => htimer) htimer

theorem unread_handle {e : LoopEvent} (hline : lineOf e = none) : Moves Unread (handle e) := by
  cases e with
  | clock now => exact moves_modify fun _ => ⟨rfl, rfl, rfl⟩
  | keepAlive outputFlag => exact unread_printOutputCallback outputFlag
  | connecting peer format => exact unread_handleConnectingState peer format
  | line answers block => cases hline
  | writable length => exact moves_modify fun _ => ⟨rfl, rfl, rfl⟩
  | socket dccid ready => exact unread_onEvent _
  | addDescriptors => exact unread_onEvent _
  | closed => exact unread_onSession (moves_modify fun _ => ⟨rfl, rfl, rfl⟩)
  | interrupt => exact unread_send _

theorem checked_of_turns {names : List Bytes} {c c' : Client} (h : ClientTurns c c')
    (hchecked : Checked names c.cfg) : Checked names c'.cfg := by
  induction h with
  | refl => exact hchecked
  | tail _ hturn ih =>
    cases hturn with
    | sent text => exact ih
    | keptSum md5 => exact ⟨ih.1, by rw [bots, requests_keepMD5]; exact ih.2⟩
    | startedChecksum h md5 => exact ih
    | request env nick req => rw [TableChanges.cfg_step]; exact ih

/-- Both loops stand before a line, and only the parts of the parse results are in other places. -/
structure Ready (shown : Prop) (s t : Loop) : Prop where
  line : SameLine shown s.session.line t.session.line
  left : AtLineStart s.session
  right : AtLineStart t.session
  client : s.session.client.halted = none

structure Together (names : List Bytes) (shown : Prop) (s t : Loop) : Prop where
  aligned : Aligned s t
  checked : Checked names s.session.client.cfg
  ready : s.session.halted = none → Ready shown s t

section runs
variable {s t : Loop} {names : List Bytes} {shown : Prop}

theorem Ready.beside (h : Ready shown s t) (haligned : Aligned s t) : LoopsBeside shown s t := by
  obtain ⟨parser, line, lineStart, dispatched, rfl⟩ := haligned
  exact ⟨_, rfl, parser, line, lineStart, dispatched, rfl, h.line, h.left.line.parsed.bounded,
    h.right.line.parsed.bounded, h.client⟩

theorem together_halted (h : Aligned s t) (hchecked : Checked names s.session.client.cfg)
    (fault : Commands.Fault) : Together names shown (s.halt fault) (t.halt fault) where
  aligned := h.halt fault
  checked := hchecked
  ready := by
    intro hlive
    cases hlive

theorem atLineStart_of_unread (h : AtLineStart s.session) (hunread : Unread s t) : AtLineStart t.session :=
  ⟨by rw [hunread.parser]; exact h.parser, by rw [hunread.line]; exact h.line⟩

theorem together_turn {e : LoopEvent} (h : Together names shown s t) (hline : lineOf e = none) :
    Together names shown (step s e) (step t e) := by
  have hidle := h.aligned.idle e
  cases hlive : idle s e with
  | true =>
    rw [hlive] at hidle
    rw [step_of_idle hlive, step_of_idle hidle]
    exact h
  | false =>
    rw [hlive] at hidle
    have hready := h.ready (live_of_not_idle hlive)
    have hnot : ∀ answers block, e ≠ .line answers block := by
      rintro answers block rfl
      cases hline
    have hunread := unread_handle hline
    rcases (alikeFrom (hready.beside h.aligned) (alike_handle hnot)).cases with
      ⟨a, u, v, hs, ht, hbeside⟩ | ⟨fault, u, v, hs, ht, haligned⟩
    · have hu := hunread.of_ok hs
      rw [step_of_ok hlive hs, step_of_ok hidle ht]
      exact ⟨hbeside.aligned, by rw [hu.cfg]; exact h.checked, fun _ =>
        ⟨hbeside.sameLine, atLineStart_of_unread hready.left hu,
          atLineStart_of_unread hready.right (hunread.of_ok ht), hbeside.client_halted⟩⟩
    · rw [step_of_error hlive hs, step_of_error hidle ht]
      exact together_halted haligned (by rw [(hunread.of_error hs).cfg]; exact h.checked) fault

theorem together_freed (h : LoopsBeside shown s t) (hs : Holds (.live 0) s.session.parser)
    (ht : Holds (.live 0) t.session.parser) (hchecked : Checked names s.session.client.cfg) :
    Together names shown (freed s) (freed t) := by
  have haligned := h.aligned
  have hline := h.sameLine.free
  have hclient := h.client_halted
  obtain ⟨hboundedS, hboundedT⟩ := h.bounded
  obtain ⟨parser, line, lineStart, dispatched, rfl⟩ := haligned
  exact ⟨⟨_, _, _, _, rfl⟩, hchecked, fun _ =>
    ⟨hline, ⟨hs, hboundedS.settled⟩, ⟨ht, hboundedT.settled⟩, hclient⟩⟩

variable {answers : Answers} {block : Block}

theorem entered_beside (h : LoopsBeside shown s t) (hs : AtLineStart s.session) (ht : AtLineStart t.session)
    (line : Bytes) (hidden : Prop)
    (hshown : hidden → shown ∨ 1 < (LineSteps.entered s.session line).line.result.numParams) :
    LoopsBeside hidden (entered s line) (entered t line) := by
  have hsame : SameLine shown (LineSteps.entered s.session line).line
      (LineSteps.entered t.session line).line := by
    have hleft : (LineSteps.entered s.session line).line =
        (callsOf s.session line).foldl onCall s.session.line := rfl
    have hright : (LineSteps.entered t.session line).line =
        (callsOf t.session line).foldl onCall t.session.line := rfl
    rw [hleft, hright, callsOf_fresh hs.parser, callsOf_fresh ht.parser]
    exact h.sameLine.foldl _
  have hboundedS := (LineSteps.entered_parsed hs.line line).bounded
  have hboundedT := (LineSteps.entered_parsed ht.line line).bounded
  have hclient := h.client_halted
  obtain ⟨parser, l, lineStart, dispatched, rfl⟩ := h.aligned
  exact ⟨_, rfl, _, _, _, dispatched, rfl, hsame.mono hshown, hboundedS, hboundedT, hclient⟩

theorem together_line (h : Together names shown s t) (hlive : idle s (.line answers block) = false)
    (hinbound : Inbound block.line)
    (hsecond : ¬ shown → ¬ ReadsSecond (LineSteps.entered s.session block.line)) :
    Together names (shown ∨ 1 < (LineSteps.entered s.session block.line).line.result.numParams)
      (step s (.line answers block)) (step t (.line answers block)) := by
  have hidle : idle t (.line answers block) = false := (h.aligned.idle _).trans hlive
  obtain ⟨hline, hs, ht, hclient⟩ := h.ready (live_of_not_idle hlive)
  have hentered := entered_beside (Ready.beside ⟨hline, hs, ht, hclient⟩ h.aligned) hs ht block.line _ id
  have hholdsS := (entered_atLineStart hs hinbound block.isBlock).1
  have hholdsT := (entered_atLineStart ht hinbound block.isBlock).1
  by_cases hends : Ends s.session block.line
  · have hprocessS := @process_of_ends s answers.env block.line _ hs.parser block.isBlock hends
    have hprocessT := @process_of_ends t answers.env block.line _ ht.parser block.isBlock
      ((ends_iff hs.parser ht.parser _).mp hends)
    have hsteadyS := @steady_line s answers.env block.line
    have hsteadyT := @steady_line t answers.env block.line
    have halike := alikeFrom_handleParserResult answers.env hentered
      fun hnot => hsecond fun hshown => hnot (.inl hshown)
    rcases halike.cases with ⟨a, u, v, hu, hv, hbeside⟩ | ⟨fault, u, v, hu, hv, haligned⟩
    · rw [run_bind_of_ok hu] at hprocessS
      rw [run_bind_of_ok hv] at hprocessT
      rw [endState_of_ok hu] at hsteadyS
      rw [endState_of_ok hv] at hsteadyT
      have hstepS : step s (.line answers block) = freed u := step_of_ok hlive hprocessS
      have hstepT : step t (.line answers block) = freed v := step_of_ok hidle hprocessT
      rw [hstepS, hstepT]
      exact together_freed hbeside (hsteadyS.parser ▸ hholdsS) (hsteadyT.parser ▸ hholdsT)
        (checked_of_turns hsteadyS.client h.checked)
    · rw [run_bind_of_error hu] at hprocessS
      rw [run_bind_of_error hv] at hprocessT
      rw [endState_of_error hu] at hsteadyS
      rw [step_of_error hlive hprocessS, step_of_error hidle hprocessT]
      exact together_halted haligned (checked_of_turns hsteadyS.client h.checked) fault
  · have hendsT := mt (ends_iff hs.parser ht.parser _).mpr hends
    rw [step_of_ok hlive (process_of_not_ends hends), step_of_ok hidle (process_of_not_ends hendsT)]
    exact together_freed hentered hholdsS hholdsT h.checked

theorem together_stranger (h : Together names shown s t) (hlive : idle s (.line answers block) = false)
    (hinbound : Inbound block.line) (hfrom : fromStranger names block.line = true) :
    Together names (shown ∧ s.session.line.result.params 1 = none) (step s (.line answers block)) t := by
  obtain ⟨hline, hs, ht, hclient⟩ := h.ready (live_of_not_idle hlive)
  obtain ⟨nick, body, hstrange⟩ := strange_of_stranger hs hfrom
  obtain ⟨hholds, hbounded⟩ := entered_atLineStart hs hinbound block.isBlock
  have hstep : ∃ entries, step s (.line answers block) = freed
      { entered s block.line with session :=
          { (entered s block.line).session with dispatched := entries } } := by
    by_cases hends : Ends s.session block.line
    · have hprocess := @process_of_ends s answers.env block.line _ hs.parser block.isBlock hends
      have hrun := handleParserResult_strange (s := entered s block.line) answers.env hstrange h.checked hclient
      rw [run_bind_of_ok hrun] at hprocess
      exact ⟨_, step_of_ok hlive hprocess⟩
    · exact ⟨_, step_of_ok hlive (process_of_not_ends hends)⟩
  obtain ⟨entries, hstep⟩ := hstep
  rw [hstep]
  obtain ⟨parser, l, lineStart, dispatched, rfl⟩ := h.aligned
  refine ⟨⟨parser, l, lineStart, dispatched, rfl⟩, h.checked, fun _ => ?_⟩
  refine ⟨sameLine_settled hbounded.settled ht.line ?_, ⟨hholds, hbounded.settled⟩, ht, hclient⟩
  rintro ⟨hshown, hnone⟩
  obtain ⟨ρ, -, hr⟩ := hline
  exact ⟨if_pos hstrange.numParams, (hr.params 1 (.inr (.inr ⟨rfl, hshown⟩))).none_iff.mp hnone⟩

def Follows (names : List Bytes) (w : Watched) (t : Loop) : Prop :=
  Together names (w.emptied = false) w.loop t

theorem Together.mono {hidden : Prop} (h : Together names shown s t) (hshown : hidden → shown) :
    Together names hidden s t :=
  ⟨h.aligned, h.checked, fun hlive =>
    have hready := h.ready hlive
    ⟨hready.line.mono fun hhidden => .inl (hshown hhidden), hready.left, hready.right, hready.client⟩⟩

variable {w : Watched} {e : LoopEvent}

theorem watched_of_idle (h : idle w.loop e = true) : Watched.step names w e = w := by
  have hstep : step w.loop e = w.loop := step_of_idle h
  unfold Watched.step
  rw [if_pos h, hstep]

theorem follows_kept (h : Follows names w t) (hinbound : ∀ line ∈ lineOf e, Inbound line)
    (huntouched : Untouched w e) (hkept : ofStranger names e = false) :
    Follows names (Watched.step names w e) (step t e) := by
  cases hlive : idle w.loop e with
  | true =>
    rw [watched_of_idle hlive, step_of_idle ((h.aligned.idle e).trans hlive)]
    exact h
  | false =>
    cases hline : lineOf e with
    | none =>
      have hemptied : (Watched.step names w e).emptied = w.emptied := by
        simp [Watched.step, hline]
      unfold Follows
      rw [hemptied]
      exact together_turn h hline
    | some line =>
      cases e with
      | line answers block =>
        cases hline
        have hnot : fromStranger names block.line = false := hkept
        have hemptied : (Watched.step names w (.line answers block)).emptied =
            (w.emptied && decide ((LineSteps.entered w.loop.session block.line).line.result.numParams < 2)) := by
          simp [Watched.step, hlive, lineOf, emptiedBy, hnot]
        have hnext := together_line h hlive (hinbound block.line rfl) fun hshown =>
          huntouched (by simpa using hshown) hlive block.line rfl
        refine hnext.mono fun hshown => ?_
        rw [hemptied, Bool.and_eq_false_iff, decide_eq_false_iff_not] at hshown
        exact hshown.imp_right (by omega)
      | _ => cases hline

theorem follows_left (h : Follows names w t) (hinbound : ∀ line ∈ lineOf e, Inbound line)
    (hleft : ofStranger names e = true) : Follows names (Watched.step names w e) t := by
  cases hlive : idle w.loop e with
  | true =>
    rw [watched_of_idle hlive]
    exact h
  | false =>
    cases e with
    | line answers block =>
      have hfrom : fromStranger names block.line = true := hleft
      have hemptied : (Watched.step names w (.line answers block)).emptied =
          (w.emptied || (w.loop.session.line.result.params 1).isSome) := by
        simp [Watched.step, hlive, lineOf, emptiedBy, hfrom]
      have hnext := together_stranger h hlive (hinbound block.line rfl) hfrom
      refine hnext.mono fun hshown => ?_
      rw [hemptied, Bool.or_eq_false_iff, Option.isSome_eq_false_iff, Option.isNone_iff_eq_none] at hshown
      exact hshown
    | _ => cases hleft

end runs

theorem follows_start (c : Setup) (hnicks : c.cfg.acceptAllNicks = false) :
    Follows (bots c.cfg) (watch c.start) c.start where
  aligned := ⟨_, _, _, _, rfl⟩
  checked := ⟨hnicks, rfl⟩
  ready := fun _ =>
    have hstart : AtLineStart c.start.session := ⟨holds_init, createLineParser_clean.settled⟩
    ⟨sameLine_settled hstart.line hstart.line fun _ => ⟨rfl, rfl⟩, hstart, hstart, rfl⟩

theorem watched_loop (names : List Bytes) (w : Watched) (events : List LoopEvent) :
    (run (Watched.step names) w events).loop = run step w.loop events := by
  induction events generalizing w with
  | nil => rfl
  | cons e events ih => exact ih _

theorem transfers_of_aligned {s t : Loop} (h : Aligned s t) : SameTransfers s t := by
  have hclient := h.client
  constructor <;> rw [hclient]

/-- A run in which no line takes the slot that a stranger has emptied ends with the transfers of the
    run without the strangers' lines. -/
theorem strangers_leave_transfers (c : Setup) (events : List LoopEvent)
    (hnicks : c.cfg.acceptAllNicks = false)
    (hinbound : ∀ e ∈ events, ∀ line ∈ lineOf e, Inbound line)
    (huntouched : AllAlong (Watched.step (bots c.cfg)) Untouched (watch c.start) events) :
    SameTransfers (run step c.start events)
      (run step c.start (events.filter fun e => !ofStranger (bots c.cfg) e)) := by
  let names := bots c.cfg
  let keep : LoopEvent → Bool := fun e => !ofStranger names e
  let p : Watched → LoopEvent → Prop := fun w e => Untouched w e ∧ ∀ line ∈ lineOf e, Inbound line
  have hkept : ∀ w t e, Follows names w t → p w e → keep e = true →
      Follows names (Watched.step names w e) (step t e) := fun w t e hfollows hp hkeep =>
    follows_kept hfollows hp.2 hp.1 (by simpa [keep] using hkeep)
  have hleft : ∀ w t e, Follows names w t → p w e → keep e = false →
      Follows names (Watched.step names w e) t := fun w t e hfollows hp hkeep =>
    follows_left hfollows hp.2 (by simpa [keep] using hkeep)
  have hall := huntouched.and (allAlong_of_forall hinbound (watch c.start))
  have haligned := (run_filter hkept hleft (follows_start c hnicks) hall).aligned
  rw [watched_loop] at haligned
  exact transfers_of_aligned haligned

def arrives (w : Bytes) (h : ∀ a ∈ w, a ≠ cr ∧ a ≠ lf ∧ a ≠ nul) : LoopEvent :=
  .line readyAnswers ⟨w ++ [cr, lf], isBlock_of_words fun a ha => ⟨(h a ha).1, (h a ha).2.1⟩⟩

theorem inbound_arrives {w : Bytes} (h : ∀ a ∈ w, a ≠ cr ∧ a ≠ lf ∧ a ≠ nul)
    (hlen : w.length ≤ ircParserRawBufferSize) (hcolon : w.head? = some colon) :
    ∀ line ∈ lineOf (arrives w h), Inbound line := by
  intro line hline
  cases hline
  exact ⟨w, rfl, hlen, hcolon, h⟩

/-- `bot` asks for the version, and the text of the request stays in the second slot. -/
def versionLine : LoopEvent := arrives (bytes ":bot!b@h PRIVMSG me :\x01VERSION\x01") (by decide +kernel)

/-- `eve`, who is no bot, offers a file. -/
def strangerLine : LoopEvent :=
  arrives (bytes ":eve!e@h PRIVMSG me :\x01DCC SEND f 1 4000 9\x01") (by decide +kernel)

def botOffer : LoopEvent :=
  arrives (bytes ":bot!b@h PRIVMSG me :\x01DCC SEND f 1 4000 9\x01") (by decide +kernel)

def offersAround (notice : LoopEvent) : List LoopEvent :=
  [connects, versionLine, strangerLine, notice, botOffer]

theorem inbound_offersAround {notice : LoopEvent} (h : ∀ line ∈ lineOf notice, Inbound line) :
    ∀ e ∈ offersAround notice, ∀ line ∈ lineOf e, Inbound line := by
  have hconnects : ∀ line ∈ lineOf connects, Inbound line := by
    intro line hline
    cases hline
  have hversion : ∀ line ∈ lineOf versionLine, Inbound line :=
    inbound_arrives _ (by decide +kernel) (by decide +kernel)
  have hstranger : ∀ line ∈ lineOf strangerLine, Inbound line :=
    inbound_arrives _ (by decide +kernel) (by decide +kernel)
  have hoffer : ∀ line ∈ lineOf botOffer, Inbound line :=
    inbound_arrives _ (by decide +kernel) (by decide +kernel)
  simp only [offersAround, List.forall_mem_cons]
  exact ⟨hconnects, hversion, hstranger, h, hoffer, fun _ hmem => absurd hmem List.not_mem_nil⟩

def noticeLine : LoopEvent := arrives (bytes ":srv NOTICE me :welcome") (by decide +kernel)

theorem noticeLine_untouched :
    AllAlong (Watched.step (bots botSetup.cfg)) Untouched (watch botSetup.start) (offersAround noticeLine) := by
  refine ⟨?_, ?_, ?_, ?_, ?_, trivial⟩
  · exact fun h => absurd h (by decide +kernel)
  · exact fun h => absurd h (by decide +kernel)
  · exact fun h => absurd h (by decide +kernel)
  · intro _ _ line hline
    cases hline
    decide +kernel
  · exact fun h => absurd h (by decide +kernel)

/-- The notice has a text, which takes the emptied slot. -/
theorem strangers_leave_transfers_welcome :
    SameTransfers (run step botSetup.start (offersAround noticeLine))
        (run step botSetup.start
          ((offersAround noticeLine).filter fun e => !ofStranger (bots botSetup.cfg) e)) ∧
      (run step botSetup.start (offersAround noticeLine)).session.client.dccSessions.length = 1 ∧
      ((offersAround noticeLine).filter fun e => !ofStranger (bots botSetup.cfg) e).length = 4 :=
  have hnotice := inbound_arrives (w := bytes ":srv NOTICE me :welcome") (by decide +kernel) (by decide +kernel)
    (by decide +kernel)
  ⟨strangers_leave_transfers botSetup (offersAround noticeLine) rfl (inbound_offersAround hnotice)
    noticeLine_untouched, by decide +kernel, by decide +kernel⟩

def bareNotice : LoopEvent := arrives (bytes ":srv NOTICE me") (by decide +kernel)

/-- The notice reads the slot that the stranger has emptied, and the client stops before the bot's offer. -/
theorem stranger_stops_transfer :
    botSetup.cfg.acceptAllNicks = false ∧
      (∀ e ∈ offersAround bareNotice, ∀ line ∈ lineOf e, Inbound line) ∧
      ¬ SameTransfers (run step botSetup.start (offersAround bareNotice))
        (run step botSetup.start
          ((offersAround bareNotice).filter fun e => !ofStranger (bots botSetup.cfg) e)) := by
  have hnotice := inbound_arrives (w := bytes ":srv NOTICE me") (by decide +kernel) (by decide +kernel)
    (by decide +kernel)
  refine ⟨rfl, inbound_offersAround hnotice, fun h => ?_⟩
  have hlength := congrArg List.length h.dccSessions
  exact absurd hlength (by decide +kernel)

end Xdccget.StrangerLines
