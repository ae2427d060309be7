import Xdccget.AskedRequests

set_option autoImplicit false

/-!
# Requests and the configured delay

With a delay set, a join no longer asks and the timer waits. A mode `+v` asks whatever
the time is, once there is a login command.
-/
namespace Xdccget.DelayedRequests
open CText ClientState StepRuns ClientLoop LoopFrames LoopLines RequestTurns AskedRequests
open HandlerOutcomes (handlerOf)
open LineSteps (Ends)

def OnTime (s : Loop) : Prop := ∀ a ∈ s.asked, a.accepted = true → s.timeToSendCommand ≤ a.time

instance (s : Loop) : Decidable (OnTime s) := by
  unfold OnTime
  infer_instance

/-- A mode `+v` makes the client ask before the time: a login command is set, the flag is clear,
    and one of the request lines is taken. -/
def VoicedEarly (s : Loop) : LoopEvent → Prop
  | .line answers block =>
    idle s (.line answers block) = false ∧ s.session.sended = false ∧
      s.session.loginCommand.isSome = true ∧ s.now < s.timeToSendCommand ∧
      Ends s.session block.line ∧
      handlerOf (entered s block.line).session.line.result = some .mode ∧
      VoicesOther (entered s block.line).session ∧
      ∃ d ∈ downloads s.session,
        accepts s.session.client.net (privmsg d.botNick d.xdccCmd) = true
  | _ => False

structure Delayed (s : Loop) : Prop where
  between : Between s
  delay : s.session.sendDelay = true

section steps
variable {s : Loop}

theorem delayed_step (h : Delayed s) (e : LoopEvent) : Delayed (step s e) where
  between := between_step h.between e
  delay := (step_configured h.between e).sendDelay.trans h.delay

theorem asks_eq_some {e : LoopEvent} {net : Net} (hasks : asks s e = some net) :
    idle s e = false ∧ s.session.sended = false ∧ turnAsks s e = some net := by
  unfold asks unlessSended at hasks
  cases hidle : idle s e with
  | true => simp [hidle] at hasks
  | false =>
    cases hsended : s.session.sended with
    | true => simp [hidle, hsended] at hasks
    | false => exact ⟨rfl, rfl, by simpa [hidle, hsended] using hasks⟩

/-- With a delay set, a line that asks is a mode `+v` of somebody else. -/
theorem lineAsks_of_delayed {t : Commands.LineSession} {net : Net} (hdelay : t.sendDelay = true)
    (hasks : lineAsks t = some net) : net = t.client.net ∧ t.loginCommand.isSome = true ∧
      handlerOf t.line.result = some .mode ∧ VoicesOther t := by
  unfold lineAsks at hasks
  cases hhandler : handlerOf t.line.result with
  | none => simp [hhandler] at hasks
  | some handler =>
    cases handler with
    | mode =>
      by_cases hvoice : t.loginCommand.isSome = true ∧ VoicesOther t
      · have hnet : some t.client.net = some net := by simpa [hhandler, hvoice] using hasks
        exact ⟨(Option.some.inj hnet).symm, hvoice.1, rfl, hvoice.2⟩
      · simp [hhandler, hvoice] at hasks
    | join => simp [hhandler, hdelay] at hasks
    | ping | nick | quit | part | topic | kick | privmsg | notice | invite | kill | unknown =>
      simp [hhandler] at hasks

/-- What asks is the timer, after the time, or a mode `+v`. -/
theorem asks_of_delayed (h : Delayed s) {e : LoopEvent} {net : Net} (hasks : asks s e = some net) :
    net = s.session.client.net ∧ (s.timeToSendCommand < s.now ∨
      ∃ answers block, e = .line answers block ∧ s.session.loginCommand.isSome = true ∧
        Ends s.session block.line ∧
        handlerOf (entered s block.line).session.line.result = some .mode ∧
        VoicesOther (entered s block.line).session) := by
  obtain ⟨-, -, hturn⟩ := asks_eq_some hasks
  cases e with
  | keepAlive flag =>
    by_cases hshould : shouldSendXdccRequests s = true
    · have hnet : some s.session.client.net = some net := by
        simpa [turnAsks, hshould] using hturn
      have htime : s.timeToSendCommand < s.now := by
        unfold shouldSendXdccRequests at hshould
        simp only [Bool.and_eq_true, decide_eq_true_eq] at hshould
        exact hshould.2
      exact ⟨(Option.some.inj hnet).symm, Or.inl htime⟩
    · simp [turnAsks, hshould] at hturn
  | line answers block =>
    by_cases hends : Ends s.session block.line
    · rw [turnAsks, if_pos hends] at hturn
      obtain ⟨hnet, hlogin, hmode, hvoice⟩ := lineAsks_of_delayed
        (t := LineSteps.entered s.session block.line) h.delay hturn
      exact ⟨hnet, Or.inr ⟨answers, block, rfl, hlogin, hends, hmode, hvoice⟩⟩
    · rw [turnAsks, if_neg hends] at hturn
      cases hturn
  | clock _ | connecting _ _ | writable _ | socket _ _ | addDescriptors | closed | interrupt =>
    cases hturn

theorem asks_of_voiced {answers : Answers} {block : Block}
    (hlive : idle s (.line answers block) = false) (hclear : s.session.sended = false)
    (hlogin : s.session.loginCommand.isSome = true) (hends : Ends s.session block.line)
    (hmode : handlerOf (entered s block.line).session.line.result = some .mode)
    (hvoice : VoicesOther (entered s block.line).session) :
    asks s (.line answers block) = some s.session.client.net := by
  have hline : lineAsks (LineSteps.entered s.session block.line) = some s.session.client.net := by
    unfold lineAsks
    rw [show handlerOf (LineSteps.entered s.session block.line).line.result = _ from hmode]
    exact if_pos ⟨hlogin, hvoice⟩
  unfold asks unlessSended
  rw [hlive, hclear, turnAsks, if_pos hends, hline]
  rfl

theorem onTime_step_iff (h : Delayed s) (hon : OnTime s) (e : LoopEvent) :
    OnTime (step s e) ↔ ¬ VoicedEarly s e := by
  have htime := (step_configured h.between e).timeToSendCommand
  have hfollows := step_follows h.between e
  cases hasks : asks s e with
  | none =>
    rw [hasks] at hfollows
    refine iff_of_true ?_ ?_
    · unfold OnTime
      rw [htime, (show Unasked s (step s e) from hfollows).asked]
      exact hon
    · cases e with
      | line answers block =>
        rintro ⟨hlive, hclear, hlogin, -, hends, hmode, hvoice, -⟩
        rw [asks_of_voiced hlive hclear hlogin hends hmode hvoice] at hasks
        cases hasks
      | clock _ | keepAlive _ | connecting _ _ | writable _ | socket _ _ | addDescriptors | closed
      | interrupt => exact id
  | some net =>
    obtain ⟨hidle, hclear, -⟩ := asks_eq_some hasks
    obtain ⟨rfl, hwhen⟩ := asks_of_delayed h hasks
    rw [hasks] at hfollows
    have hasked : (step s e).asked = s.asked ++
        answers s.now s.session.client.net (downloads s.session) := hfollows.2
    have hsplit : OnTime (step s e) ↔
        ∀ a ∈ answers s.now s.session.client.net (downloads s.session), a.accepted = true →
          s.timeToSendCommand ≤ s.now := by
      unfold OnTime
      rw [htime, hasked]
      constructor
      · intro hall a ha haccepted
        have hle := hall a (List.mem_append_right _ ha) haccepted
        rwa [answers_time ha] at hle
      · intro hall a ha haccepted
        rcases List.mem_append.mp ha with ha | ha
        · exact hon a ha haccepted
        · rw [answers_time ha]
          exact hall a ha haccepted
    rw [hsplit]
    rcases hwhen with hlate | ⟨answers, block, rfl, hlogin, hends, hmode, hvoice⟩
    · refine iff_of_true (fun _ _ _ => hlate.le) ?_
      cases e with
      | line answers block =>
        rintro ⟨-, -, -, hearly, -⟩
        omega
      | clock _ | keepAlive _ | connecting _ _ | writable _ | socket _ _ | addDescriptors | closed
      | interrupt => exact id
    · have hsome := exists_accepted_iff s.now s.session.client.net (downloads s.session)
      constructor
      · rintro hall ⟨-, -, -, hearly, -, -, -, hroom⟩
        obtain ⟨a, ha, haccepted⟩ := hsome.mpr hroom
        have hle := hall a ha haccepted
        omega
      · intro hnot a ha haccepted
        by_contra hearly
        exact hnot ⟨hidle, hclear, hlogin, by omega, hends, hmode, hvoice,
          hsome.mp ⟨a, ha, haccepted⟩⟩

theorem late_step (h : Delayed s) (hlate : ¬ OnTime s) (e : LoopEvent) : ¬ OnTime (step s e) := by
  have htime := (step_configured h.between e).timeToSendCommand
  have hmore : ∀ a ∈ s.asked, a ∈ (step s e).asked := by
    intro a ha
    have hfollows := step_follows h.between e
    cases hasks : asks s e with
    | none =>
      rw [hasks] at hfollows
      rw [(show Unasked s (step s e) from hfollows).asked]
      exact ha
    | some net =>
      rw [hasks] at hfollows
      rw [hfollows.2]
      exact List.mem_append_left _ ha
  intro hon
  refine hlate fun a ha haccepted => ?_
  have hle := hon a (hmore a ha) haccepted
  rwa [htime] at hle

end steps

/-- With a delay, no request is sent before its time if and only if no mode `+v` of somebody else
    comes in before it with a login command set, the requests pending and room for one of them. -/
theorem delay_respected_iff (c : Setup) (time : ℕ) (events : List LoopEvent) :
    OnTime (run step (Setup.start { c with sendDelay := some time }) events) ↔
      AllAlong step (fun s e => ¬ VoicedEarly s e) (Setup.start { c with sendDelay := some time })
        events := by
  have hstart : Delayed (Setup.start { c with sendDelay := some time }) := ⟨between_start _, rfl⟩
  have hon : OnTime (Setup.start { c with sendDelay := some time }) := by simp [OnTime, Setup.start]
  constructor
  · intro hrun
    have hinv : ∀ s e, Delayed s ∧ OnTime s → ¬ VoicedEarly s e →
        Delayed (step s e) ∧ OnTime (step s e) := fun s e h hnot =>
      ⟨delayed_step h.1 e, (onTime_step_iff h.1 h.2 e).mpr hnot⟩
    have hbad : ∀ s e, Delayed s ∧ OnTime s → ¬ ¬ VoicedEarly s e →
        Delayed (step s e) ∧ ¬ OnTime (step s e) := fun s e h hnot =>
      ⟨delayed_step h.1 e, mt (onTime_step_iff h.1 h.2 e).mp hnot⟩
    have hkeep : ∀ s e, Delayed s ∧ ¬ OnTime s → Delayed (step s e) ∧ ¬ OnTime (step s e) :=
      fun s e h => ⟨delayed_step h.1 e, late_step h.1 h.2 e⟩
    exact allAlong_of_run hinv hbad hkeep ⟨hstart, hon⟩ fun hlate => hlate.2 hrun
  · intro hall
    have hstep : ∀ s e, Delayed s ∧ OnTime s → ¬ VoicedEarly s e →
        Delayed (step s e) ∧ OnTime (step s e) := fun s e h hnot =>
      ⟨delayed_step h.1 e, (onTime_step_iff h.1 h.2 e).mpr hnot⟩
    exact (run_invariant_of_allAlong hstep ⟨hstart, hon⟩ hall).2

def loginSetup : Setup := { botSetup with loginCommand := some (bytes "NickServ identify x") }

def voiceBlock : Block := ⟨bytes ":s MODE #c +v\x0d\x0a", by decide +kernel⟩

/-- The request goes out at second 0, ten seconds early. -/
theorem voice_sends_too_early :
    ¬ OnTime (run step (Setup.start { loginSetup with sendDelay := some 10 })
      [connects, .line readyAnswers voiceBlock]) := by
  decide +kernel

end Xdccget.DelayedRequests
