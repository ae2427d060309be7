import Xdccget.ParameterUse
import Xdccget.RenderedLines

set_option autoImplicit false

/-!
# Which handler a command reaches

A result with a command is dispatched once. The command gets into the result only
if a space follows it, and the table of handlers is searched for a name that
begins with it.
-/
namespace Xdccget.CommandDispatch
open CText IrcParser IrcParserCarry LineWords LineParser LineOwnership RenderedLines HaltingPrograms
  Commands HandlerOutcomes LineSteps ParameterUse

def handlerNamed (command : Bytes) : IrcCommand :=
  (commands.find? fun h => h.name = command).getD .unknown

def ThreeDigits (command : Bytes) : Prop := command.length = 3 ∧ command.all isdigit = true

instance : DecidablePred ThreeDigits := fun _ => by unfold ThreeDigits; infer_instance

section table
variable {c : Bytes}

theorem strnEquals_iff_prefix {name : Bytes} (hc : nul ∉ c) (hname : nul ∉ name) :
    strnEquals c name c.length = true ↔ c <+: name := by
  unfold strnEquals
  rw [cstr_of_no_nul hc, cstr_of_no_nul hname, List.take_left, decide_eq_true_eq]
  constructor
  · intro h
    by_cases hlen : c.length ≤ name.length
    · rw [List.take_append_of_le_length hlen] at h
      rw [h]
      exact List.take_prefix _ _
    · have hmem : nul ∈ c := by
        rw [h, List.take_of_length_le (by rw [List.length_append, List.length_singleton]; omega)]
        exact List.mem_append_right _ (List.mem_singleton.mpr rfl)
      exact absurd hmem hc
  · rintro ⟨rest, rfl⟩
    rw [List.append_assoc, List.take_left]

theorem names_no_nul : ∀ h ∈ commands, nul ∉ h.name := by decide

theorem getCommand_eq_find (hne : c ≠ []) (hc : nul ∉ c) :
    getCommand c (strlen c) = (commands.find? fun h => decide (c <+: h.name)).getD .unknown := by
  have hlen : strlen c = c.length := by rw [strlen, cstr_of_no_nul hc]
  have hzero : c.length ≠ 0 := fun h => hne (List.length_eq_zero_iff.mp h)
  rw [getCommand, hlen, if_neg hzero]
  congr 1
  apply List.find?_congr
  intro h hh
  rw [Bool.eq_iff_iff, decide_eq_true_eq]
  exact strnEquals_iff_prefix hc (names_no_nul h hh)

theorem getCommand_eq_iff (hne : c ≠ []) (hc : nul ∉ c) :
    getCommand c (strlen c) = handlerNamed c ↔
      (∃ h ∈ commands, h.name = c) ∨ ∀ h ∈ commands, ¬ c <+: h.name := by
  constructor
  · intro heq
    by_contra hnot
    rw [not_or] at hnot
    obtain ⟨hname, hprefix⟩ := hnot
    have hunknown : handlerNamed c = .unknown := by
      have hnone : (commands.find? fun h => decide (h.name = c)) = none := by
        rw [List.find?_eq_none]
        intro h hh hc
        exact hname ⟨h, hh, of_decide_eq_true hc⟩
      rw [handlerNamed, hnone]
      rfl
    rw [hunknown, getCommand_eq_find hne hc] at heq
    cases hfind : commands.find? fun h => decide (c <+: h.name) with
    | none =>
      rw [List.find?_eq_none] at hfind
      exact hprefix fun h hh hp => hfind h hh (decide_eq_true hp)
    | some h =>
      rw [hfind] at heq
      have hmem : h ∈ commands := List.mem_of_find?_eq_some hfind
      have hknown : ∀ h ∈ commands, h ≠ .unknown := by decide
      exact hknown h hmem heq
  · rintro (⟨h, hh, rfl⟩ | hnone)
    · have htable : ∀ h ∈ commands, getCommand h.name (strlen h.name) = handlerNamed h.name := by
        decide
      exact htable h hh
    · have hfind : (commands.find? fun h => decide (c <+: h.name)) = none := by
        rw [List.find?_eq_none]
        exact fun h hh hp => hnone h hh (of_decide_eq_true hp)
      have hnamed : (commands.find? fun h => decide (h.name = c)) = none := by
        rw [List.find?_eq_none]
        intro h hh hp
        exact hnone h hh (of_decide_eq_true hp ▸ List.prefix_rfl)
      rw [getCommand_eq_find hne hc, handlerNamed, hfind, hnamed]

end table

def dispatchOf (r : ParserResult) : Option Dispatch :=
  r.command.map fun c =>
    if isNumericCommand c.text then .numeric (digitsValue c.text) c.text
    else .command (getCommand c.text (strlen c.text)) c.text

section results
variable {s : LineSession}

theorem Leads.framed {x : HandlerM Unit} (h : Leads s x) : Framed s (endState x s) := by
  have hrun := h s rfl
  cases hx : x.run s with
  | ok a t =>
    rw [hx] at hrun
    rw [endState_of_ok hx]
    exact hrun.1
  | error fault t =>
    rw [hx] at hrun
    rw [endState_of_error hx]
    exact hrun

theorem handleNumeric_dispatched (h : LiveParams s) (command : Bytes) :
    (endState (handleNumeric command) s).dispatched =
      s.dispatched ++ [.numeric (digitsValue command) command] := by
  let d : Dispatch := .numeric (digitsValue command) command
  obtain ⟨_, t, hrun, hsame⟩ := (reader_connectOnMotd h (digitsValue command)).run
  have hdispatch : (dispatch d).run t = .ok ⟨⟩ { t with dispatched := t.dispatched ++ [d] } := rfl
  have hend : endState (handleNumeric command) s =
      endState (eventNumeric (digitsValue command))
        { t with dispatched := t.dispatched ++ [d] } :=
    (endState_bind_of_ok hrun).trans (endState_bind_of_ok hdispatch)
  rw [hend, (Leads.framed (eventNumeric_quiet _).leads).dispatched, hsame.dispatched]

theorem handleCommand_dispatched {command : Str} (hcommand : s.line.result.command = some command)
    (hnumeric : ¬ isNumericCommand command.text = true) (env : LineEnv) :
    (endState (handleCommand env command.text) s).dispatched =
      s.dispatched ++ [.command (getCommand command.text (strlen command.text)) command.text] := by
  let handler := getCommand command.text (strlen command.text)
  let d : Dispatch := .command handler command.text
  let s' : LineSession := { s with dispatched := s.dispatched ++ [d] }
  have hdispatch : (dispatch d).run s = .ok ⟨⟩ s' := rfl
  have hhandler : handlerOf s'.line.result = some handler := by
    apply (handlerOf_eq hcommand).trans
    exact if_neg hnumeric
  have hend : endState (handleCommand env command.text) s =
      endState (handler.execute env command.text) s' := endState_bind_of_ok hdispatch
  rw [hend, (Leads.framed (execute_leads env command.text hhandler)).dispatched]

theorem handleParserResult_dispatched (h : LiveParams s) (env : LineEnv) :
    (endState (handleParserResult env) s).dispatched =
      s.dispatched ++ (dispatchOf s.line.result).toList := by
  have hget : (get : HandlerM LineSession).run s = .ok s s := rfl
  have hend : endState (handleParserResult env) s = _ := endState_bind_of_ok hget
  rw [hend]
  unfold dispatchOf
  cases hcommand : s.line.result.command with
  | none => exact (List.append_nil _).symm
  | some command =>
    dsimp only [Option.map_some]
    by_cases hnumeric : isNumericCommand command.text = true
    · rw [if_pos hnumeric, if_pos hnumeric]
      exact handleNumeric_dispatched h command.text
    · rw [if_neg hnumeric, if_neg hnumeric]
      exact handleCommand_dispatched hcommand hnumeric env

theorem step_dispatched (hbetween : Between s) (hlive : s.halted = none) (env : LineEnv)
    {line : Bytes} (hblock : IsBlock line) (hends : Ends s line) :
    (step s (env, line)).dispatched =
      s.dispatched ++ (dispatchOf (entered s line).line.result).toList := by
  obtain ⟨⟨c, hholds⟩, hsettled⟩ := hbetween hlive
  have hhandled := handleParserResult_dispatched (entered_parsed hsettled line).params env
  cases hrun : (handleParserResult env).run (entered s line) with
  | ok a t =>
    rw [endState_of_ok hrun] at hhandled
    rw [step_of_handled hholds hblock hlive hends hrun]
    exact hhandled
  | error fault t =>
    rw [endState_of_error hrun] at hhandled
    rw [step_of_fault hholds hblock hlive hends hrun]
    exact hhandled

end results

/-- `[':' source ' '] command [' ' rest]` -/
def commandLine (source : Option Bytes) (command : Bytes) (rest : Option Bytes) : Bytes :=
  source.elim [] (fun w => colon :: (w ++ [space])) ++ (command ++ rest.elim [] (space :: ·))

structure CommandLine where
  source : Option Bytes
  command : Bytes
  rest : Option Bytes
  source_ok : ∀ w, source = some w → w ≠ [] ∧ Plain [space] w
  command_ok : Middle command
  rest_ok : ∀ w, rest = some w → Plain [] w
  length_le : (commandLine source command rest).length ≤ ircParserRawBufferSize

def CommandLine.render (l : CommandLine) : Bytes := commandLine l.source l.command l.rest

def CommandLine.target (l : CommandLine) : Dispatch :=
  if ThreeDigits l.command then .numeric (digitsValue l.command) l.command
  else .command (handlerNamed l.command) l.command

/-- Something follows the command, and the command is not a name that is cut short. -/
def CommandLine.Recognised (l : CommandLine) : Prop :=
  l.rest ≠ none ∧ (ThreeDigits l.command ∨ (∃ h ∈ commands, h.name = l.command) ∨
    ∀ h ∈ commands, ¬ l.command <+: h.name)

section words
variable {r : Reading} {w : Bytes}

def Apart (calls : List Call) : Prop := ∀ call ∈ calls, call.1 ≠ .onCommand

theorem Apart.append {calls more : List Call} (h : Apart calls) (hmore : Apart more) :
    Apart (calls ++ more) := by
  intro call hcall
  rcases List.mem_append.mp hcall with hcall | hcall
  · exact h call hcall
  · exact hmore call hcall

theorem wordTurn_apart (h : r.state ≠ .command) (a : UInt8) : Apart (wordTurn r a).2 := by
  have hcb : callbackOf r.state ≠ .onCommand := by
    cases hs : r.state <;> simp_all [callbackOf]
  unfold wordTurn
  split
  · intro call hcall
    rw [List.mem_singleton.mp hcall]
    exact hcb
  · split <;> exact fun call hcall => absurd hcall List.not_mem_nil

theorem wordTurn_source (h : r.state ∈ [.nick, .name, .host]) {a : UInt8} (ha : a ≠ space) :
    (wordTurn r a).1.state ∈ [.nick, .name, .host] := by
  have hdelimits : ∀ s, delimits r.state a = some s → s ∈ [ParserState.nick, .name, .host] := by
    intro s hs
    simp only [List.mem_cons, List.not_mem_nil, or_false] at h
    rcases h with h | h | h <;> simp only [h, delimits, ha, if_false] at hs
    · split_ifs at hs <;> cases hs <;> decide
    · split_ifs at hs
      cases hs
      decide
    · cases hs
  unfold wordTurn
  split
  · next s hs => exact hdelimits s hs
  · split
    · next hc =>
      rw [hc.1] at h
      exact absurd h (by decide)
    · exact h

theorem readWords_source_space (h : r.state ∈ [.nick, .name, .host]) (hw : space ∉ w)
    (rest : Bytes) :
    ∃ calls, Apart calls ∧ readWords r (w ++ space :: rest) =
      ((readWords ⟨.command, []⟩ rest).1, calls ++ (readWords ⟨.command, []⟩ rest).2) := by
  have hne {r : Reading} (h : r.state ∈ [.nick, .name, .host]) : r.state ≠ .command := by
    intro hs
    rw [hs] at h
    exact absurd h (by decide)
  induction w generalizing r with
  | nil =>
    have hspace : delimits r.state space = some .command := by
      simp only [List.mem_cons, List.not_mem_nil, or_false] at h
      rcases h with h | h | h <;> rw [h] <;> decide
    have hturn : (wordTurn r space).1 = ⟨.command, []⟩ := by simp only [wordTurn, hspace]
    refine ⟨(wordTurn r space).2, wordTurn_apart (hne h) space, ?_⟩
    simp only [List.nil_append, readWords, hturn]
  | cons a w ih =>
    rw [List.mem_cons, not_or] at hw
    obtain ⟨calls, hcalls, hread⟩ := ih (wordTurn_source h (Ne.symm hw.1)) hw.2
    refine ⟨(wordTurn r a).2 ++ calls, (wordTurn_apart (hne h) a).append hcalls, ?_⟩
    simp only [List.cons_append, readWords, hread, List.append_assoc]

theorem readWords_params_apart (h : r.state ∈ [.params, .trailing]) (w : Bytes) :
    Apart (readWords r w).2 := by
  have hturn {r : Reading} (h : r.state ∈ [.params, .trailing]) (a : UInt8) :
      (wordTurn r a).1.state ∈ [.params, .trailing] := by
    simp only [List.mem_cons, List.not_mem_nil, or_false] at h
    rcases h with h | h <;> simp only [wordTurn, h, delimits]
    · split_ifs <;> simp
    · simp
  induction w generalizing r with
  | nil => exact fun call hcall => absurd hcall List.not_mem_nil
  | cons a w ih =>
    have hne : r.state ≠ .command := by
      intro hs
      rw [hs] at h
      exact absurd h (by decide)
    exact (wordTurn_apart hne a).append (ih (hturn h a))

end words

section lines
variable {l : CommandLine}

theorem endCalls_apart (r : Reading) : Apart (endCalls r) := by
  intro call hcall
  rcases List.mem_pair.mp hcall with rfl | rfl <;> simp

theorem readWords_command (l : CommandLine) :
    let u := readWords ⟨.command, []⟩ (l.command ++ l.rest.elim [] (space :: ·))
    match l.rest with
    | none => Apart (u.2 ++ endCalls u.1)
    | some _ => ∃ after, Apart after ∧ u.2 ++ endCalls u.1 = (.onCommand, l.command) :: after := by
  obtain ⟨-, hplain, -⟩ := l.command_ok
  have hcommand : ∀ a ∈ l.command, delimits .command a = none :=
    delimits_of_no_space (by simp) hplain
  cases l.rest with
  | none =>
    dsimp only [Option.elim_none]
    rw [List.append_nil, readWords_of_plain hcommand fun hs => absurd hs (by simp)]
    exact endCalls_apart _
  | some rest =>
    dsimp only [Option.elim_some]
    rw [readWords_delimited hcommand (fun hs => absurd hs (by simp)) rfl]
    exact ⟨_, (readWords_params_apart (by simp) rest).append (endCalls_apart _), rfl⟩

theorem lineCalls_command (l : CommandLine) :
    ∃ before, Apart before ∧
      match l.rest with
      | none => lineCalls l.render = before
      | some _ => ∃ after, Apart after ∧
          lineCalls l.render = before ++ (.onCommand, l.command) :: after := by
  obtain ⟨hne, -, hhead⟩ := l.command_ok
  have hwords := readWords_command l
  dsimp only at hwords
  generalize hbody : l.command ++ l.rest.elim [] (space :: ·) = body at hwords
  have hlines : ∃ before, Apart before ∧ lineCalls l.render =
      before ++ ((readWords ⟨.command, []⟩ body).2 ++ endCalls (readWords ⟨.command, []⟩ body).1) := by
    unfold CommandLine.render commandLine
    rw [hbody]
    cases hsource : l.source with
    | none =>
      have hstart : body ≠ [] ∧ body.head? ≠ some colon := by
        rw [← hbody]
        cases hc : l.command with
        | nil => exact absurd hc hne
        | cons a w =>
          rw [hc] at hhead
          exact ⟨List.cons_ne_nil _ _, hhead⟩
      exact ⟨[], fun call hcall => absurd hcall List.not_mem_nil,
        lineCalls_of_command hstart.1 hstart.2⟩
    | some source =>
      have hspace : space ∉ source := fun hmem => (l.source_ok source hsource).2.not_mem hmem (by simp)
      obtain ⟨calls, hcalls, hread⟩ :=
        @readWords_source_space ⟨.nick, []⟩ source (by simp) hspace body
      refine ⟨calls, hcalls, ?_⟩
      have hline : colon :: (source ++ [space]) ++ body = colon :: (source ++ space :: body) := by
        simp
      dsimp only [Option.elim_some]
      rw [hline, lineCalls_of_source, hread, List.append_assoc]
  obtain ⟨before, hbefore, hcalls⟩ := hlines
  cases hrest : l.rest with
  | none =>
    rw [hrest] at hwords
    exact ⟨_, hbefore.append hwords, hcalls⟩
  | some rest =>
    rw [hrest] at hwords
    obtain ⟨after, hafter, hbodyCalls⟩ := hwords
    exact ⟨before, hbefore, after, hafter, by rw [hcalls, hbodyCalls]⟩

theorem foldl_onCall_apart {calls : List Call} (h : Apart calls) (st : LineState) :
    (calls.foldl onCall st).result.command = st.result.command := by
  induction calls generalizing st with
  | nil => rfl
  | cons call calls ih =>
    obtain ⟨cb, text⟩ := call
    have hcall : (onCall st (cb, text)).result.command = st.result.command := by
      have hne := h (cb, text) List.mem_cons_self
      cases cb with
      | onCommand => exact absurd rfl hne
      | onParam =>
        change (onParam st text).result.command = _
        unfold LineParser.onParam
        split <;> rfl
      | onNick | onName | onHost | onEnd | onError => rfl
    exact (ih (fun other hother => h other (List.mem_cons_of_mem _ hother)) _).trans hcall

theorem mem_commandLine {a : UInt8} (ha : a ∈ l.render) : a ≠ cr ∧ a ≠ lf := by
  unfold CommandLine.render commandLine at ha
  rcases List.mem_append.mp ha with ha | ha
  · cases hsource : l.source with
    | none =>
      rw [hsource] at ha
      exact absurd ha List.not_mem_nil
    | some w =>
      simp only [hsource, Option.elim_some, List.mem_cons, List.mem_append, List.not_mem_nil,
        or_false] at ha
      rcases ha with rfl | ha | rfl
      · decide
      · exact (l.source_ok w hsource).2.no_line_end a ha
      · decide
  · rcases List.mem_append.mp ha with ha | ha
    · exact l.command_ok.2.1.no_line_end a ha
    · cases hrest : l.rest with
      | none =>
        rw [hrest] at ha
        exact absurd ha List.not_mem_nil
      | some w =>
        rw [hrest] at ha
        rcases List.mem_cons.mp ha with rfl | ha
        · decide
        · exact (l.rest_ok w hrest).no_line_end a ha

theorem commandLine_ne_nil (l : CommandLine) : l.render ≠ [] := by
  intro h
  obtain ⟨-, hbody⟩ := List.append_eq_nil_iff.mp h
  exact l.command_ok.1 (List.append_eq_nil_iff.mp hbody).1

theorem callsOf_commandLine (s : LineSession) (l : CommandLine) :
    callsOf (fresh s) (l.render ++ [cr, lf]) = lineCalls l.render :=
  (execute_words (commandLine_ne_nil l) (fun _ ha => mem_commandLine ha) l.length_le).1

theorem ends_commandLine (s : LineSession) (l : CommandLine) : Ends (fresh s) (l.render ++ [cr, lf]) := by
  unfold Ends
  rw [callsOf_commandLine]
  cases hline : l.render with
  | nil => exact absurd hline (commandLine_ne_nil l)
  | cons a w => simp [lineCalls, endCalls]

theorem entered_command (s : LineSession) (l : CommandLine) :
    ((entered (fresh s) (l.render ++ [cr, lf])).line.result.command).map (·.text) =
      l.rest.map fun _ => l.command := by
  have hline : (entered (fresh s) (l.render ++ [cr, lf])).line =
      (lineCalls l.render).foldl onCall createLineParser := by
    change (callsOf (fresh s) (l.render ++ [cr, lf])).foldl onCall createLineParser = _
    rw [callsOf_commandLine]
  rw [hline]
  obtain ⟨before, hbefore, hcalls⟩ := lineCalls_command l
  cases hrest : l.rest with
  | none =>
    rw [hrest] at hcalls
    rw [hcalls, foldl_onCall_apart hbefore]
    rfl
  | some rest =>
    rw [hrest] at hcalls
    obtain ⟨after, hafter, hcalls⟩ := hcalls
    rw [hcalls, List.foldl_append, List.foldl_cons, foldl_onCall_apart hafter]
    exact congrArg some (cstr_of_no_nul l.command_ok.2.1.no_nul)

theorem isNumericCommand_iff {c : Bytes} (hc : nul ∉ c) :
    isNumericCommand c = true ↔ ThreeDigits c := by
  unfold isNumericCommand ThreeDigits strlen
  rw [cstr_of_no_nul hc, Bool.and_eq_true, decide_eq_true_eq]

/-- Dispatched once, to where the command belongs: exactly if the line is a recognised one. -/
theorem dispatched_once_iff (s : LineSession) (env : LineEnv) (l : CommandLine) :
    (step (fresh s) (env, l.render ++ [cr, lf])).dispatched = [l.target] ↔ l.Recognised := by
  obtain ⟨hne, hplain, -⟩ := l.command_ok
  have hnul := hplain.no_nul
  have hblock : IsBlock (l.render ++ [cr, lf]) := isBlock_of_words fun _ ha => mem_commandLine ha
  have hcommand := entered_command s l
  rw [step_dispatched (between_fresh s) rfl env hblock (ends_commandLine s l)]
  change (dispatchOf (entered (fresh s) (l.render ++ [cr, lf])).line.result).toList = _ ↔ _
  unfold CommandLine.Recognised dispatchOf
  cases hrest : l.rest with
  | none =>
    rw [hrest, Option.map_none, Option.map_eq_none_iff] at hcommand
    rw [hcommand]
    simp
  | some rest =>
    rw [hrest, Option.map_some, Option.map_eq_some_iff] at hcommand
    obtain ⟨command, hresult, htext⟩ := hcommand
    rw [hresult, Option.map_some, htext]
    simp only [Option.toList_some, List.cons.injEq, and_true, ne_eq, reduceCtorEq,
      not_false_eq_true, true_and]
    unfold CommandLine.target
    by_cases hdigits : ThreeDigits l.command
    · rw [if_pos ((isNumericCommand_iff hnul).mpr hdigits), if_pos hdigits]
      exact iff_of_true rfl (Or.inl hdigits)
    · rw [if_neg fun h => hdigits ((isNumericCommand_iff hnul).mp h), if_neg hdigits]
      have hfound := getCommand_eq_iff hne hnul
      simp only [Dispatch.command.injEq, and_true, hfound, hdigits, false_or]

end lines

/-- `PI x` -/
def cutPing : CommandLine where
  source := none
  command := bytes "PI"
  rest := some (bytes "x")
  source_ok := by simp
  command_ok := by decide +kernel
  rest_ok := by
    rintro w ⟨⟩
    decide +kernel
  length_le := by decide +kernel

/-- `QUIT` -/
def bareQuit : CommandLine where
  source := none
  command := bytes "QUIT"
  rest := none
  source_ok := by simp
  command_ok := by decide +kernel
  rest_ok := by simp
  length_le := by decide +kernel

/-- A command that is cut short reaches a handler, and a command without anything behind it reaches
    none. -/
theorem cut_ping_dispatched :
    (step (fresh (newSession none)) (lineEnv, cutPing.render ++ [cr, lf])).dispatched =
        [.command .ping (bytes "PI")] ∧
      cutPing.target = .command .unknown (bytes "PI") ∧
      (step (fresh (newSession none)) (lineEnv, bareQuit.render ++ [cr, lf])).dispatched = [] ∧
      bareQuit.target = .command .quit (bytes "QUIT") := by
  decide +kernel

end Xdccget.CommandDispatch
