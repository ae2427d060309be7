import Xdccget.LineSteps
import Xdccget.LoopFrames

set_option autoImplicit false

/-!
# The turns of the loop

A line is built, handled and freed, as in `LineSteps`, and what the handler does is
framed by `LoopFrames`. The other turns change the client, the clock or the stream of
bytes, and only one of them can ask for the downloads.
-/
namespace Xdccget.LoopLines
open CText IrcParserCarry LineParser LineOwnership ClientState HaltingPrograms ProgramRelations
  StepRuns ClientLoop LoopFrames
open Commands (Fault LineEnv LineSession HandlerM setLine send)
open LineSteps (Ends callsOf started)
open LineWords (Call)

/-- The loop as `handle_parser_result` finds it. -/
def entered (s : Loop) (line : Bytes) : Loop :=
  { s with session := LineSteps.entered s.session line }

/-- `free_parser_result` has run. -/
def freed (s : Loop) : Loop :=
  { s with session := { s.session with line := freeParserResult s.session.line } }

section lines
variable {s : Loop} {env : LineEnv} {line : Bytes}

theorem runCalls_append {calls : List Call} (h : ∀ call ∈ calls, call.1 ≠ .onEnd)
    (rest : List Call) : (runCalls env (calls ++ rest)).run s =
      (runCalls env rest).run
        { s with session := { s.session with line := calls.foldl onCall s.session.line } } := by
  induction calls generalizing s with
  | nil => rfl
  | cons call calls ih =>
    have hrest := fun other hother => h other (List.mem_cons_of_mem call hother)
    have hcall : runCalls env ((call :: calls) ++ rest) =
        (onSession (setLine (onCall · call)) >>= fun _ => runCalls env (calls ++ rest)) := by
      obtain ⟨cb, text⟩ := call
      have hne := h (cb, text) List.mem_cons_self
      cases cb <;> first | rfl | exact absurd rfl hne
    rw [hcall]
    exact @ih { s with session := { s.session with line := onCall s.session.line call } } hrest

theorem process_of_not_ends (h : ¬ Ends s.session line) :
    (libircProcessIncomingData env line).run s = .ok ⟨⟩ (freed (entered s line)) := by
  have hcalls : ∀ call ∈ callsOf s.session line, call.1 ≠ .onEnd := by
    intro call hcall hend
    exact h (List.mem_map.mpr ⟨call, hcall, hend⟩)
  have hrun : (runCalls env (callsOf s.session line)).run
      { s with session := started s.session line } = .ok ⟨⟩ (entered s line) := by
    have happend := @runCalls_append { s with session := started s.session line } env _ hcalls []
    rw [List.append_nil] at happend
    exact happend
  change (runCalls env (callsOf s.session line) >>= fun _ => onSession (setLine freeParserResult)).run
    { s with session := started s.session line } = _
  rw [run_bind_of_ok hrun]
  rfl

theorem process_of_ends {c : Carry} (hp : Holds c s.session.parser) (hblock : IsBlock line)
    (h : Ends s.session line) : (libircProcessIncomingData env line).run s =
      (handleParserResult env >>= fun _ => onSession (setLine freeParserResult)).run
        (entered s line) := by
  rcases LineSteps.split_inOrder (block_inOrder hp hblock) (LineSteps.callbacks_ne_error _) with
    hnone | hsome
  · obtain ⟨call, hcall, hend⟩ := List.mem_map.mp h
    exact absurd hend (hnone call hcall)
  · obtain ⟨before, text, hcalls, hbefore⟩ := hsome
    let s' : Loop := { s with session := started s.session line }
    have hline : (entered s line).session.line = before.foldl onCall s.session.line := by
      change (callsOf s.session line).foldl onCall s.session.line = _
      rw [callsOf, hcalls, LineSteps.foldl_onCall_end]
    have hentered : { s' with session := { s'.session with
        line := before.foldl onCall s.session.line } } = entered s line := by
      rw [← hline]
      rfl
    have hrun : (runCalls env (callsOf s.session line)).run s' =
        (handleParserResult env).run (entered s line) := by
      have happend := @runCalls_append s' env _ hbefore [(.onEnd, text)]
      rw [callsOf, hcalls, happend]
      change (handleParserResult env >>= fun _ => pure PUnit.unit).run
        { s' with session := { s'.session with line := before.foldl onCall s.session.line } } = _
      rw [bind_pure, hentered]
    change (runCalls env (callsOf s.session line) >>= fun _ =>
      onSession (setLine freeParserResult)).run s' = _
    rw [EStateM.run_bind, hrun, EStateM.run_bind]

end lines

/-- `t`, up to its parse result and the end of the loop. -/
inductive Finished (t : Loop) : Loop → Prop
  | freed : Finished t (freed t)
  | halted (fault : Fault) : Finished t (t.halt fault)

section steps
variable {s t : Loop} {e : LoopEvent}

theorem step_of_idle (h : idle s e = true) : step s e = s := if_pos h

theorem step_of_ok (hlive : idle s e = false) (h : (handle e).run s = .ok ⟨⟩ t) : step s e = t := by
  unfold step
  rw [hlive, h]
  rfl

theorem step_of_error {fault : Fault} (hlive : idle s e = false)
    (h : (handle e).run s = .error fault t) : step s e = t.halt fault := by
  unfold step
  rw [hlive, h]
  rfl

/-- A step is its program, run to its end, or marked with a fault. -/
inductive Stepped (t : Loop) : Loop → Prop
  | same : Stepped t t
  | halted (fault : Fault) : Stepped t (t.halt fault)

theorem step_endState (hlive : idle s e = false) : Stepped (endState (handle e) s) (step s e) := by
  cases hrun : (handle e).run s with
  | ok a t =>
    rw [step_of_ok hlive hrun, endState_of_ok hrun]
    exact .same
  | error fault t =>
    rw [step_of_error hlive hrun, endState_of_error hrun]
    exact .halted fault

theorem Stepped.unasked {u : Loop} (h : Stepped t u) : Unasked t u := by cases h <;> exact ⟨rfl, rfl⟩

theorem Finished.untaken {u : Loop} (h : Finished t u) : Untaken t u := by
  cases h <;> exact ⟨rfl, rfl⟩

theorem Finished.unasked {u : Loop} (h : Finished t u) : Unasked t u := by
  cases h <;> exact ⟨rfl, rfl⟩

theorem live_of_not_idle (h : idle s e = false) : s.session.halted = none := by
  unfold idle at h
  cases hhalted : s.session.halted with
  | none => rfl
  | some fault => simp [hhalted] at h

theorem step_line {answers : Answers} {block : Block}
    (hlive : idle s (.line answers block) = false) {c : Carry} (hp : Holds c s.session.parser) :
    (¬ Ends s.session block.line ∧
        step s (.line answers block) = freed (entered s block.line)) ∨
      (Ends s.session block.line ∧
        Finished (endState (handleParserResult answers.env) (entered s block.line))
          (step s (.line answers block))) := by
  by_cases hends : Ends s.session block.line
  · right
    refine ⟨hends, ?_⟩
    have hrun := @process_of_ends s answers.env block.line _ hp block.isBlock hends
    cases hhandle : (handleParserResult answers.env).run (entered s block.line) with
    | ok a u =>
      rw [run_bind_of_ok hhandle] at hrun
      rw [step_of_ok hlive hrun, endState_of_ok hhandle]
      exact .freed
    | error fault u =>
      rw [run_bind_of_error hhandle] at hrun
      rw [step_of_error hlive hrun, endState_of_error hhandle]
      exact .halted fault
  · exact Or.inl ⟨hends, step_of_ok hlive (process_of_not_ends hends)⟩

end steps

structure Outer (s t : Loop) : Prop where
  parser : t.session.parser = s.session.parser
  sendDelay : t.session.sendDelay = s.session.sendDelay
  login : t.session.loginCommand.isSome = s.session.loginCommand.isSome
  timeToSendCommand : t.timeToSendCommand = s.timeToSendCommand
  requests : requests t.session.client.cfg = requests s.session.client.cfg
  untaken : Untaken s t

theorem outer_frame : Frame Outer where
  refl s := ⟨rfl, rfl, rfl, rfl, rfl, untaken_frame.refl s⟩
  trans s t u h h' :=
    { parser := h'.parser.trans h.parser
      sendDelay := h'.sendDelay.trans h.sendDelay
      login := h'.login.trans h.login
      timeToSendCommand := h'.timeToSendCommand.trans h.timeToSendCommand
      requests := h'.requests.trans h.requests
      untaken := untaken_frame.trans s t u h.untaken h'.untaken }

theorem outer_of_asking {s t : Loop} (h : Asking s t) : Outer s t :=
  ⟨h.steady.parser, h.steady.sendDelay, h.steady.login, h.steady.timeToSendCommand,
    requests_of_turns h.steady.client, h.untaken⟩

structure Apart (s t : Loop) : Prop where
  outer : Outer s t
  unasked : Unasked s t

theorem apart_frame : Frame Apart where
  refl s := ⟨outer_frame.refl s, unasked_frame.refl s⟩
  trans s t u h h' :=
    ⟨outer_frame.trans s t u h.outer h'.outer, unasked_frame.trans s t u h.unasked h'.unasked⟩

section apart

theorem apart_client (s : Loop) {c : Client} (h : requests c.cfg = requests s.session.client.cfg) :
    Apart s { s with session := { s.session with client := c } } :=
  ⟨⟨rfl, rfl, rfl, rfl, h, ⟨rfl, rfl⟩⟩, ⟨rfl, rfl⟩⟩

theorem apart_onEvent (e : DccEvents.Event) : Moves Apart (onEvent e) := by
  intro s
  rw [endState_onEvent]
  exact apart_client s (by rw [TableChanges.cfg_step])

theorem apart_send (text : Bytes) : Moves Apart (onSession (send text)) :=
  (aside_send text).mono fun _ _ h => ⟨outer_of_asking h.asking, h.unasked⟩

theorem apart_setState (state : LibircState) (err : ℕ) : Moves Apart (onSession (setState state err)) :=
  fun s => apart_client s rfl

theorem apart_handleConnectingState (peer : Bool) (format : Format) :
    Moves Apart (handleConnectingState peer format) :=
  apart_frame.get_bind fun _ => moves_ite
    (apart_frame.bind (apart_setState _ _) fun _ =>
      apart_frame.forM (fun buf => apart_send (format.render buf)) _)
    (apart_setState _ _)

/-- Every turn but a line and the call of `print_output_callback`. -/
theorem apart_handle {e : LoopEvent} (hline : ∀ answers block, e ≠ .line answers block)
    (halive : ∀ flag, e ≠ .keepAlive flag) : Moves Apart (handle e) := by
  cases e with
  | clock now => exact moves_modify fun s => ⟨⟨rfl, rfl, rfl, rfl, rfl, ⟨rfl, rfl⟩⟩, ⟨rfl, rfl⟩⟩
  | keepAlive flag => exact absurd rfl (halive flag)
  | connecting peer format => exact apart_handleConnectingState peer format
  | line answers block => exact absurd rfl (hline answers block)
  | writable length => exact moves_modify fun s => ⟨⟨rfl, rfl, rfl, rfl, rfl, ⟨rfl, rfl⟩⟩, ⟨rfl, rfl⟩⟩
  | socket dccid ready => exact apart_onEvent _
  | addDescriptors => exact apart_onEvent _
  | closed => exact apart_setState _ _
  | interrupt => exact apart_send _

theorem outer_printOutputCallback (flag : Bool) : Moves Outer (printOutputCallback flag) := by
  have hevent : Moves Outer (if flag then onEvent .outputTimer else pure ⟨⟩ : LoopM Unit) :=
    moves_ite ((apart_onEvent .outputTimer).mono fun _ _ h => h.outer) (outer_frame.pure _)
  have hask : Moves Outer sendXdccRequests := asking_sendXdccRequests.mono fun _ _ => outer_of_asking
  exact outer_frame.get_bind fun _ => moves_ite (outer_frame.bind hask fun _ => hevent) hevent

end apart

theorem step_of_moves {R : Loop → Loop → Prop} (hrefl : ∀ s, R s s)
    (hhalt : ∀ s t fault, R s t → R s (t.halt fault)) {e : LoopEvent} (h : Moves R (handle e))
    (s : Loop) : R s (step s e) := by
  cases hidle : idle s e with
  | true =>
    rw [step_of_idle hidle]
    exact hrefl s
  | false =>
    have hend := h s
    have hstep := step_endState hidle
    generalize step s e = u at hstep ⊢
    cases hstep with
    | same => exact hend
    | halted fault => exact hhalt s _ fault hend

theorem Outer.halt {s t : Loop} (h : Outer s t) (fault : Fault) : Outer s (t.halt fault) :=
  ⟨h.parser, h.sendDelay, h.login, h.timeToSendCommand, h.requests, h.untaken.nick, h.untaken.taken⟩

theorem step_apart {e : LoopEvent} (hline : ∀ answers block, e ≠ .line answers block)
    (halive : ∀ flag, e ≠ .keepAlive flag) (s : Loop) : Apart s (step s e) :=
  step_of_moves apart_frame.refl
    (fun _ _ fault h => ⟨h.outer.halt fault, h.unasked.sended, h.unasked.asked⟩)
    (apart_handle hline halive) s

theorem step_keepAlive (flag : Bool) (s : Loop) : Outer s (step s (.keepAlive flag)) :=
  step_of_moves outer_frame.refl (fun _ _ fault h => h.halt fault)
    (show Moves Outer (handle (.keepAlive flag)) from outer_printOutputCallback flag) s

theorem step_outer {e : LoopEvent} (hline : ∀ answers block, e ≠ .line answers block) (s : Loop) :
    Outer s (step s e) := by
  by_cases halive : ∀ flag, e ≠ .keepAlive flag
  · exact (step_apart hline halive s).outer
  · simp only [not_forall, not_not] at halive
    obtain ⟨flag, rfl⟩ := halive
    exact step_keepAlive flag s

def Between (s : Loop) : Prop := s.session.halted = none → ∃ c, Holds c s.session.parser

theorem between_start (c : Setup) : Between c.start := fun _ => ⟨.live 0, holds_init⟩

theorem steady_line {s : Loop} (env : LineEnv) (line : Bytes) :
    Steady (entered s line) (endState (handleParserResult env) (entered s line)) :=
  steady_handleParserResult env _

theorem Finished.parser {t u : Loop} (h : Finished t u) : u.session.parser = t.session.parser := by
  cases h <;> rfl

theorem between_step {s : Loop} (h : Between s) (e : LoopEvent) : Between (step s e) := by
  cases hidle : idle s e with
  | true =>
    rw [step_of_idle hidle]
    exact h
  | false =>
    intro _
    obtain ⟨c, hp⟩ := h (live_of_not_idle hidle)
    by_cases hline : ∀ answers block, e ≠ .line answers block
    · exact ⟨c, by rw [(step_outer hline s).parser]; exact hp⟩
    · simp only [not_forall, not_not] at hline
      obtain ⟨answers, block, rfl⟩ := hline
      have hentered := LineSteps.entered_holds hp block.isBlock
      rcases step_line hidle hp with ⟨-, hstep⟩ | ⟨-, hfin⟩
      · rw [hstep]
        exact ⟨_, hentered⟩
      · rw [hfin.parser, (steady_line answers.env block.line).parser]
        exact ⟨_, hentered⟩

structure Configured (s t : Loop) : Prop where
  sendDelay : t.session.sendDelay = s.session.sendDelay
  login : t.session.loginCommand.isSome = s.session.loginCommand.isSome
  timeToSendCommand : t.timeToSendCommand = s.timeToSendCommand
  requests : requests t.session.client.cfg = requests s.session.client.cfg

theorem step_configured {s : Loop} (hb : Between s) (e : LoopEvent) : Configured s (step s e) := by
  cases hidle : idle s e with
  | true =>
    rw [step_of_idle hidle]
    exact ⟨rfl, rfl, rfl, rfl⟩
  | false =>
    by_cases hline : ∀ answers block, e ≠ .line answers block
    · have h := step_outer hline s
      exact ⟨h.sendDelay, h.login, h.timeToSendCommand, h.requests⟩
    · simp only [not_forall, not_not] at hline
      obtain ⟨answers, block, rfl⟩ := hline
      obtain ⟨c, hp⟩ := hb (live_of_not_idle hidle)
      rcases step_line hidle hp with ⟨-, hstep⟩ | ⟨-, hfin⟩
      · rw [hstep]
        exact ⟨rfl, rfl, rfl, rfl⟩
      · have h := steady_line answers.env block.line (s := s)
        have hend : Configured s (endState (handleParserResult answers.env) (entered s block.line)) :=
          ⟨h.sendDelay, h.login, h.timeToSendCommand, requests_of_turns h.client⟩
        generalize step s (.line answers block) = u at hfin ⊢
        cases hfin with
        | freed => exact ⟨hend.sendDelay, hend.login, hend.timeToSendCommand, hend.requests⟩
        | halted fault => exact ⟨hend.sendDelay, hend.login, hend.timeToSendCommand, hend.requests⟩

theorem between_run (c : Setup) (events : List LoopEvent) : Between (run step c.start events) :=
  @run_invariant _ _ step Between (fun _ e h => between_step h e) _ (between_start c) events

end Xdccget.LoopLines
