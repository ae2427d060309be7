import Xdccget.LoopLines
import Xdccget.RenderedLines

set_option autoImplicit false

/-!
# Messages that come in

What the handlers find when a rendered message comes in between two lines, whatever the
lines before it have left in the parser and in the slots.
-/
namespace Xdccget.MessageLines
open CText IrcParser IrcParserBounds IrcParserCarry LineWords LineParser LineOwnership RenderedLines
  LoopFrames
open Commands (LineSession)
open LineSteps (Ends callsOf entered entered_parsed)

/-- The parser stands in front of a line, and the result is empty. -/
structure AtLineStart (s : LineSession) : Prop where
  parser : Holds (.live 0) s.parser
  line : Settled s.line

/-- The result holds the parts of the message, and all of them can be read. -/
structure Arrived (s : LineSession) (m : Message) : Prop where
  nick : textAt s.line s.line.result.nick = m.source.map (·.nick)
  host : textAt s.line s.line.result.host = m.source.bind (·.host)
  command : s.line.result.command.map (·.text) = some m.command
  numParams : s.line.result.numParams = m.params.length
  params : ∀ i < m.params.length, paramText s i = m.params[i]?
  fresh : s.line.allocated ∉ s.line.freed

section parser
variable {s : LineSession} {line : Bytes}

theorem agree_init {p : Parser} (h : Holds (.live 0) p) : Agree p ircParserInit where
  len_eq := h.2.1
  last_eq := h.2.2
  state_eq := h.1
  raw_eq := fun j hj => absurd hj (by rw [h.2.1]; omega)

theorem callsOf_line (h : Holds (.live 0) s.parser) (hne : line ≠ [])
    (hw : ∀ a ∈ line, a ≠ cr ∧ a ≠ lf) (hlen : line.length ≤ ircParserRawBufferSize) :
    callsOf s (line ++ [cr, lf]) = lineCalls line := by
  have hevents : (ircParserExecute s.parser (line ++ [cr, lf])).events =
      (ircParserExecute ircParserInit (line ++ [cr, lf])).events := (agree_init h).executeFrom _ _ _
  rw [callsOf, hevents]
  exact (execute_words hne hw hlen).1

theorem wordTurn_ne_end (r : Reading) (a : UInt8) : ∀ call ∈ (wordTurn r a).2, call.1 ≠ .onEnd := by
  unfold wordTurn
  split
  · intro call hcall
    rw [List.mem_singleton.mp hcall]
    cases r.state <;> simp [callbackOf]
  · split <;> exact fun _ hcall => absurd hcall List.not_mem_nil

theorem executeFrom_long {p : Parser} {r : Reading} {n : ℕ} (h : Pending p r n)
    (hn : n ≤ ircParserRawBufferSize) (hw : ∀ a ∈ line, a ≠ cr ∧ a ≠ lf)
    (hlong : ircParserRawBufferSize < n + line.length) (total i : ℕ) (rest : Bytes) :
    ∀ call ∈ callbacks (executeFrom total p i (line ++ rest)).events, call.1 ≠ .onEnd := by
  induction line generalizing p r n i with
  | nil => exact absurd hlong (by rw [List.length_nil]; omega)
  | cons a line ih =>
    obtain ⟨hc, hl⟩ := hw a List.mem_cons_self
    rw [List.length_cons] at hlong
    rw [List.cons_append]
    by_cases hfull : ircParserRawBufferSize ≤ n
    · obtain ⟨-, hflow, hevents⟩ := readByte_overflow (p := p) hc hl (by rw [h.len]; exact hfull)
      have hnone : callbacks (executeFrom total p i (a :: (line ++ rest))).events = [] := by
        simp only [executeFrom, hflow, hevents]
        rfl
      rw [hnone]
      exact fun _ hcall => absurd hcall List.not_mem_nil
    · obtain ⟨hflow, hpending, hcalls⟩ := readByte_word h hc hl (by omega)
      have hrest := ih hpending (by omega) (fun b hb => hw b (List.mem_cons_of_mem a hb))
        (by omega) (i + 1)
      rw [executeFrom_next total i _ hflow, callbacks_append, hcalls]
      intro call hcall
      rcases List.mem_append.mp hcall with hcall | hcall
      · exact wordTurn_ne_end r a call hcall
      · exact hrest call hcall

/-- A line that does not fit into `raw` never reaches its end. -/
theorem execute_long (hw : ∀ a ∈ line, a ≠ cr ∧ a ≠ lf)
    (hlong : ircParserRawBufferSize < line.length) :
    ∀ call ∈ callbacks (ircParserExecute ircParserInit (line ++ [cr, lf])).events, call.1 ≠ .onEnd := by
  cases line with
  | nil => cases hlong
  | cons a line =>
    obtain ⟨hc, hl⟩ := hw a List.mem_cons_self
    obtain ⟨hflow, hpending, hcalls⟩ := readByte_start hc hl
    have hstart : ∀ call ∈ (startTurn a).2, call.1 ≠ .onEnd := by
      unfold startTurn
      split
      · exact fun _ hcall => absurd hcall List.not_mem_nil
      · exact wordTurn_ne_end _ a
    rw [ircParserExecute, List.cons_append, executeFrom_next _ 0 _ hflow, callbacks_append, hcalls]
    intro call hcall
    rcases List.mem_append.mp hcall with hcall | hcall
    · exact hstart call hcall
    · rw [List.length_cons] at hlong
      exact executeFrom_long hpending (by decide) (fun b hb => hw b (List.mem_cons_of_mem a hb))
        (by omega) (a :: (line ++ [cr, lf])).length 1 [cr, lf] call hcall

theorem not_ends_long (h : Holds (.live 0) s.parser) (hw : ∀ a ∈ line, a ≠ cr ∧ a ≠ lf)
    (hlong : ircParserRawBufferSize < line.length) : ¬ Ends s (line ++ [cr, lf]) := by
  have hevents : (ircParserExecute s.parser (line ++ [cr, lf])).events =
      (ircParserExecute ircParserInit (line ++ [cr, lf])).events := (agree_init h).executeFrom _ _ _
  intro hends
  obtain ⟨call, hcall, hend⟩ := List.mem_map.mp hends
  rw [callsOf, hevents] at hcall
  exact execute_long hw hlong call hcall hend

end parser

section arrival
variable {s : LineSession} {m : Message} {st : LineState}

theorem foldl_source (h : Settled st) (source : Option Source) :
    let t := (source.elim [] Source.calls).foldl onCall st
    t.result.nick.map (·.text) = source.map (·.nick) ∧
      t.result.host.map (·.text) = source.bind (·.host) ∧ t.result.numParams = 0 := by
  cases source with
  | none => exact ⟨by simp [h.nick], by simp [h.host], h.numParams⟩
  | some source =>
    have hnick := cstr_of_no_nul source.nick_ok.2.no_nul
    have hhost : ∀ w, source.host = some w → cstr w = w := fun w hw =>
      cstr_of_no_nul (source.host_ok w hw).2.no_nul
    cases huser : source.user <;> cases hh : source.host <;>
      simp [Source.calls, huser, hh, onCall, onNick, onName, onHost, setResult, callocAndCopyString,
        hnick, hhost, h.host, h.numParams]

theorem textAt_of_live {start : ℕ} {p : Option Str} (h : ∀ str, p = some str → Live start st str) :
    textAt st p = p.map (·.text) := by
  cases p with
  | none => rfl
  | some str => exact if_neg (h str rfl).2

theorem foldl_message (h : Settled st) (m : Message) :
    let r := (m.calls.foldl onCall st).result
    r.nick.map (·.text) = m.source.map (·.nick) ∧ r.host.map (·.text) = m.source.bind (·.host) ∧
      r.command.map (·.text) = some m.command ∧ r.numParams = m.params.length ∧
      ∀ i < m.params.length, (r.params i).map (·.text) = m.params[i]? := by
  obtain ⟨hnick, hhost, hzero⟩ := foldl_source h m.source
  let t := (m.source.elim [] Source.calls).foldl onCall st
  have hlength := m.params_length_le
  have hempty : (onCommand t m.command).result.numParams = 0 := hzero
  have hgained : Gained (onCommand t m.command).result
      (m.params.foldl onParam (onCommand t m.command)).result m.params :=
    foldl_onParam (by omega) m.params_no_nul
  have hfold : m.calls.foldl onCall st = m.params.foldl onParam (onCommand t m.command) := by
    rw [Message.calls, List.foldl_append, List.foldl_cons, List.foldl_append, List.foldl_map]
    rfl
  dsimp only
  rw [hfold]
  refine ⟨?_, ?_, ?_, ?_, ?_⟩
  · rw [hgained.nick]
    exact hnick
  · rw [hgained.host]
    exact hhost
  · rw [hgained.command]
    exact congrArg some (cstr_of_no_nul m.command_ok.2.1.no_nul)
  · rw [hgained.count, hempty, Nat.zero_add]
  · intro i hi
    have hslot := hgained.gained i hi
    rw [hempty, Nat.zero_add] at hslot
    rw [hslot, List.getElem?_eq_getElem hi]

theorem callsOf_message (h : Holds (.live 0) s.parser)
    (hlen : m.render.length ≤ ircParserRawBufferSize) : callsOf s (m.render ++ [cr, lf]) = m.calls := by
  rw [callsOf_line h (render_ne_nil m) (fun _ ha => mem_render ha) hlen, lineCalls_render]

theorem ends_message (h : Holds (.live 0) s.parser)
    (hlen : m.render.length ≤ ircParserRawBufferSize) : Ends s (m.render ++ [cr, lf]) := by
  unfold Ends
  rw [callsOf_message h hlen]
  simp [Message.calls]

theorem entered_arrived (h : AtLineStart s) (hlen : m.render.length ≤ ircParserRawBufferSize) :
    Arrived (entered s (m.render ++ [cr, lf])) m := by
  have hparsed := entered_parsed h.line (m.render ++ [cr, lf])
  have hline : (entered s (m.render ++ [cr, lf])).line = m.calls.foldl onCall s.line := by
    change (callsOf s _).foldl onCall s.line = _
    rw [callsOf_message h.parser hlen]
  obtain ⟨hnick, hhost, hcommand, hnum, hparams⟩ := foldl_message h.line m
  rw [← hline] at hnick hhost hcommand hnum hparams
  refine ⟨?_, ?_, hcommand, hnum, ?_, ?_⟩
  · rw [textAt_of_live hparsed.nick]
    exact hnick
  · rw [textAt_of_live hparsed.host]
    exact hhost
  · intro i hi
    obtain ⟨str, hstr, hlive⟩ := hparsed.params i (by rw [hnum]; exact hi)
    have hread := textAt_of_live (p := some str) fun t ht => by rw [← Option.some.inj ht]; exact hlive
    rw [paramText, hstr, hread, ← hstr]
    exact hparams i hi
  · intro hmem
    have hlt := hparsed.freed_lt _ hmem
    have hle := hparsed.start_le
    omega

end arrival

end Xdccget.MessageLines
