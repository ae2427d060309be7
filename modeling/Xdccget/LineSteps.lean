import Xdccget.HandlerOutcomes
import Xdccget.LineOwnership
import Xdccget.StepRuns

set_option autoImplicit false

/-!
# One line of the server

`handle_parser_result` is the last callback of a line, if it comes at all. What
the line does is then: build the result, handle it, free it.
-/
namespace Xdccget.LineSteps
open CText IrcParser IrcParserCarry LineWords LineParser LineOwnership HaltingPrograms StepRuns
  Commands HandlerOutcomes

def callsOf (s : LineSession) (line : Bytes) : List Call :=
  callbacks (ircParserExecute s.parser line).events

def started (s : LineSession) (line : Bytes) : LineSession :=
  { s with parser := (ircParserExecute s.parser line).parser, lineStart := s.line.allocated }

/-- The session as `handle_parser_result` finds it. -/
def entered (s : LineSession) (line : Bytes) : LineSession :=
  { started s line with line := (callsOf s line).foldl onCall s.line }

/-- The line reaches `handle_parser_result`. -/
def Ends (s : LineSession) (line : Bytes) : Prop := .onEnd ∈ (callsOf s line).map (·.1)

instance (s : LineSession) (line : Bytes) : Decidable (Ends s line) := by
  unfold Ends
  infer_instance

theorem callbacks_ne_error (events : List Event) : ∀ call ∈ callbacks events, call.1 ≠ .onError := by
  intro call hcall
  obtain ⟨event, -, hevent⟩ := List.mem_filterMap.mp hcall
  cases event with
  | write index => cases hevent
  | callData offset len => cases hevent
  | call cb at_ len text =>
    cases cb <;> simp only [Option.some.injEq, reduceCtorEq] at hevent <;> rw [← hevent] <;> simp

/-- `on_end` comes last. -/
theorem split_inOrder {n : ℕ} {calls : List Call} (h : InOrder n calls)
    (herror : ∀ call ∈ calls, call.1 ≠ .onError) :
    (∀ call ∈ calls, call.1 ≠ .onEnd) ∨
      ∃ before text, calls = before ++ [(.onEnd, text)] ∧ ∀ call ∈ before, call.1 ≠ .onEnd := by
  induction calls generalizing n with
  | nil => exact Or.inl (by simp)
  | cons call calls ih =>
    obtain ⟨cb, text⟩ := call
    have hrest := ih h.2 fun other hother => herror other (List.mem_cons_of_mem _ hother)
    by_cases hend : cb = .onEnd
    · subst hend
      have hnil : calls = [] := by
        cases calls with
        | nil => rfl
        | cons other calls =>
          obtain ⟨cb, other⟩ := other
          have hplace : 6 ≤ place cb := h.2.1
          have hne := herror (cb, other) (List.mem_cons_of_mem _ List.mem_cons_self)
          cases cb <;> simp [place] at hplace hne
      exact Or.inr ⟨[], text, by rw [hnil]; rfl, by simp⟩
    · have hhead (l : List Call) (hl : ∀ call ∈ l, call.1 ≠ .onEnd) :
          ∀ call ∈ (cb, text) :: l, call.1 ≠ .onEnd := by
        intro call hcall
        rcases List.mem_cons.mp hcall with rfl | hcall
        · exact hend
        · exact hl call hcall
      rcases hrest with hnone | ⟨before, last, hcalls, hbefore⟩
      · exact Or.inl (hhead calls hnone)
      · exact Or.inr ⟨(cb, text) :: before, last, by rw [hcalls]; rfl, hhead before hbefore⟩

section run
variable {s : LineSession} {env : LineEnv}

theorem runCalls_append {calls : List Call} (h : ∀ call ∈ calls, call.1 ≠ .onEnd)
    (rest : List Call) : (runCalls env (calls ++ rest)).run s =
      (runCalls env rest).run { s with line := calls.foldl onCall s.line } := by
  induction calls generalizing s with
  | nil => rfl
  | cons call calls ih =>
    have hrest := fun other hother => h other (List.mem_cons_of_mem call hother)
    have hcall : runCalls env ((call :: calls) ++ rest) =
        (setLine (onCall · call) >>= fun _ => runCalls env (calls ++ rest)) := by
      obtain ⟨cb, text⟩ := call
      have hne := h (cb, text) List.mem_cons_self
      cases cb <;> first | rfl | exact absurd rfl hne
    rw [hcall]
    exact @ih { s with line := onCall s.line call } hrest

theorem foldl_onCall_end (calls : List Call) (text : Bytes) (st : LineState) :
    (calls ++ [(Callback.onEnd, text)]).foldl onCall st = calls.foldl onCall st := by
  rw [List.foldl_append]
  rfl

theorem process_of_not_ends {line : Bytes} (h : ¬ Ends s line) :
    (libircProcessIncomingData env line).run s =
      .ok ⟨⟩ { entered s line with line := freeParserResult (entered s line).line } := by
  have hcalls : ∀ call ∈ callsOf s line, call.1 ≠ .onEnd := by
    intro call hcall hend
    exact h (List.mem_map.mpr ⟨call, hcall, hend⟩)
  have hrun : (runCalls env (callsOf s line)).run (started s line) = .ok ⟨⟩ (entered s line) := by
    have happend := @runCalls_append (started s line) env _ hcalls []
    rw [List.append_nil] at happend
    exact happend
  change (runCalls env (callsOf s line) >>= fun _ => setLine freeParserResult).run
    (started s line) = _
  rw [run_bind_of_ok hrun]
  rfl

theorem process_of_ends {c : Carry} {line : Bytes} (hp : Holds c s.parser) (hblock : IsBlock line)
    (h : Ends s line) : (libircProcessIncomingData env line).run s =
      (handleParserResult env >>= fun _ => setLine freeParserResult).run (entered s line) := by
  rcases split_inOrder (block_inOrder hp hblock) (callbacks_ne_error _) with hnone | hsome
  · obtain ⟨call, hcall, hend⟩ := List.mem_map.mp h
    exact absurd hend (hnone call hcall)
  · obtain ⟨before, text, hcalls, hbefore⟩ := hsome
    have hline : (entered s line).line = before.foldl onCall s.line := by
      change (callsOf s line).foldl onCall s.line = _
      rw [callsOf, hcalls, foldl_onCall_end]
    have hentered : { started s line with line := before.foldl onCall s.line } = entered s line := by
      rw [← hline]
      rfl
    have hrun : (runCalls env (callsOf s line)).run (started s line) =
        (handleParserResult env).run (entered s line) := by
      have happend := @runCalls_append (started s line) env _ hbefore [(.onEnd, text)]
      rw [callsOf, hcalls, happend]
      change (handleParserResult env >>= fun _ => pure PUnit.unit).run
        { started s line with line := before.foldl onCall s.line } = _
      rw [bind_pure, hentered]
    change (runCalls env (callsOf s line) >>= fun _ => setLine freeParserResult).run
      (started s line) = _
    rw [EStateM.run_bind, hrun, EStateM.run_bind]

theorem entered_holds {c : Carry} {line : Bytes} (hp : Holds c s.parser) (hblock : IsBlock line) :
    Holds (lineCarry c line) (entered s line).parser :=
  executeFrom_holds _ 0 c s.parser line hp hblock

theorem entered_parsed (h : Settled s.line) (line : Bytes) :
    Parsed (entered s line).lineStart (entered s line).line := by
  have hfold (calls : List Call) : ∀ st, Parsed s.line.allocated st →
      Parsed s.line.allocated (calls.foldl onCall st) := by
    induction calls with
    | nil => exact fun st hst => hst
    | cons call calls ih => exact fun st hst => ih _ (hst.onCall call)
  exact hfold _ _ h.parsed

theorem step_of_ok {e : LineEnv × Bytes} {t : LineSession} (hlive : s.halted = none)
    (h : (libircProcessIncomingData e.1 e.2).run s = .ok ⟨⟩ t) : step s e = t := by
  rw [step, hlive, h]
  rfl

theorem step_of_error {e : LineEnv × Bytes} {t : LineSession} {fault : Fault}
    (hlive : s.halted = none) (h : (libircProcessIncomingData e.1 e.2).run s = .error fault t) :
    step s e = { t with halted := some fault } := by
  rw [step, hlive, h]
  rfl

theorem step_of_handled {c : Carry} {line : Bytes} {t : LineSession} (hp : Holds c s.parser)
    (hblock : IsBlock line) (hlive : s.halted = none) (hends : Ends s line)
    (h : (handleParserResult env).run (entered s line) = .ok ⟨⟩ t) :
    step s (env, line) = { t with line := freeParserResult t.line } := by
  apply step_of_ok hlive
  rw [process_of_ends hp hblock hends, run_bind_of_ok h]
  rfl

theorem step_of_fault {c : Carry} {line : Bytes} {t : LineSession} {fault : Fault}
    (hp : Holds c s.parser) (hblock : IsBlock line) (hlive : s.halted = none) (hends : Ends s line)
    (h : (handleParserResult env).run (entered s line) = .error fault t) :
    step s (env, line) = { t with halted := some fault } := by
  apply step_of_error hlive
  rw [process_of_ends hp hblock hends, run_bind_of_error h]

/-- The line as a step: it is freed untouched, or it is handled, and what the handler has made of
    the result is freed. -/
theorem step_cases {c : Carry} {line : Bytes} (hp : Holds c s.parser) (hblock : IsBlock line)
    (hlive : s.halted = none) (hnext : (step s (env, line)).halted = none) :
    ∃ l, (step s (env, line)).line = freeParserResult l ∧
      (step s (env, line)).parser = (entered s line).parser ∧
      (l = (entered s line).line ∨ (Ends s line ∧ Outcome (entered s line) l)) := by
  by_cases hends : Ends s line
  · have hout := handleParserResult_outcome env (entered s line) rfl
    cases hrun : (handleParserResult env).run (entered s line) with
    | ok a t =>
      rw [hrun] at hout
      rw [step_of_handled hp hblock hlive hends hrun]
      exact ⟨t.line, rfl, hout.1, Or.inr ⟨hends, hout.2⟩⟩
    | error fault t =>
      rw [step_of_fault hp hblock hlive hends hrun] at hnext
      cases hnext
  · rw [step_of_ok hlive (process_of_not_ends hends)]
    exact ⟨_, rfl, rfl, Or.inl rfl⟩

end run

section outcomes
variable {st : LineState}

theorem Bounded.replaceParam (h : Bounded st) (i n : ℕ) (text : Bytes) :
    Bounded (replaceParam i text (n + 1) st) where
  first := fun hzero => absurd hzero (Nat.succ_ne_zero n)
  freed_lt := fun id hid => (h.freed_lt id hid).trans (Nat.lt_succ_self _)
  parts_lt := fun str hstr => (h.parts_lt str hstr).trans (Nat.lt_succ_self _)
  stored_lt := by
    intro j str hstr
    by_cases hj : j = i
    · subst hj
      rw [replaceParam_self] at hstr
      cases hstr
      exact Nat.lt_succ_self _
    · rw [replaceParam_of_ne hj] at hstr
      exact (h.stored_lt j str hstr).trans (Nat.lt_succ_self _)

theorem Bounded.freeParams (h : Bounded st) : Bounded (freeParams st) where
  first := by
    intro hzero
    change st.result.numParams = 0 at hzero
    change (if 0 < st.result.numParams then none else st.result.params 0) = none
    rw [hzero]
    exact h.first hzero
  freed_lt := by
    intro id hid
    rcases List.mem_append.mp hid with hid | hid
    · exact h.freed_lt id hid
    · obtain ⟨str, hstr, rfl⟩ := List.mem_map.mp hid
      obtain ⟨i, hi⟩ := mem_paramStrs hstr
      exact h.stored_lt i str hi
  parts_lt := h.parts_lt
  stored_lt := fun i str hstr => h.stored_lt i str (params_of_freed hstr)

theorem Bounded.moveMode (h : Bounded st) : Bounded (moveMode st) where
  first := fun hone => absurd hone Nat.one_ne_zero
  freed_lt := h.freed_lt
  parts_lt := h.parts_lt
  stored_lt := by
    intro i str hstr
    by_cases hi : i = 0
    · rw [hi, moveMode_zero] at hstr
      exact h.stored_lt 1 str hstr
    · rw [moveMode_of_ne hi] at hstr
      exact h.stored_lt i str hstr

end outcomes

theorem Outcome.bounded {s : LineSession} {l : LineState} (ho : Outcome s l) (h : Bounded s.line) :
    Bounded l := by
  cases ho with
  | kept => exact h
  | replied text _ => exact Bounded.replaceParam (Bounded.freeParams h) 0 0 _
  | moved _ => exact Bounded.moveMode h
  | action _ text => exact Bounded.replaceParam h 1 1 text
  | request _ text => exact Bounded.replaceParam h 0 0 text

def Between (s : LineSession) : Prop :=
  s.halted = none → (∃ c, Holds c s.parser) ∧ Settled s.line

theorem between_step {s : LineSession} {e : LineEnv × Bytes} (h : Between s) (hblock : IsBlock e.2) :
    Between (step s e) := by
  intro hnext
  by_cases hlive : s.halted = none
  · obtain ⟨⟨c, hholds⟩, hsettled⟩ := h hlive
    obtain ⟨l, hline, hparser, hl⟩ := step_cases hholds hblock hlive hnext
    have hentered : Bounded (entered s e.2).line := (entered_parsed hsettled e.2).bounded
    have hbounded : Bounded l := by
      rcases hl with rfl | ⟨-, hout⟩
      · exact hentered
      · exact Outcome.bounded hout hentered
    rw [hline, hparser]
    exact ⟨⟨_, entered_holds hholds hblock⟩, hbounded.settled⟩
  · have hstuck : step s e = s := if_pos (Option.isSome_iff_ne_none.mpr hlive)
    rw [hstuck] at hnext
    exact absurd hnext hlive

/-- `create_line_parser`: the session before its first line. -/
def fresh (s : LineSession) : LineSession :=
  { s with parser := ircParserInit, line := createLineParser, dispatched := [], halted := none }

theorem between_fresh (s : LineSession) : Between (fresh s) := fun _ =>
  ⟨⟨.live 0, holds_init⟩, createLineParser_clean.settled⟩

theorem between_run (s : LineSession) {lines : List (LineEnv × Bytes)}
    (h : ∀ e ∈ lines, IsBlock e.2) : Between (run step (fresh s) lines) := by
  have hrun (events : List (LineEnv × Bytes)) : ∀ t, Between t → (∀ e ∈ events, IsBlock e.2) →
      Between (run step t events) := by
    induction events with
    | nil => exact fun t ht _ => ht
    | cons e events ih =>
      intro t ht hblock
      exact ih _ (between_step ht (hblock e List.mem_cons_self))
        fun other hother => hblock other (List.mem_cons_of_mem e hother)
  exact hrun lines _ (between_fresh s) h

/-- The client `me` with a download requested from `bot`. -/
def newSession (loginCommand : Option Bytes) : LineSession :=
  { client := DccEvents.initial (DccEvents.oneBot false) DccEvents.connected DccEvents.noFiles
    parser := ircParserInit
    line := createLineParser
    lineStart := 0
    nick := bytes "me"
    username := none
    realname := none
    motdReceived := false
    loginCommand := loginCommand
    sendDelay := false
    channelsToJoin := [bytes "#c"]
    sended := false
    onConnectEventDone := false
    dispatched := []
    halted := none }

def lineEnv : LineEnv := ⟨DccEvents.readyEnv, []⟩

end Xdccget.LineSteps
