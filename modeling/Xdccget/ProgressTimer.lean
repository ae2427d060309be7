import Xdccget.AlarmTurns
import Xdccget.StepRuns

set_option autoImplicit false

/-!
# The life of the progress timer

The first download that is complete deletes the timer and its queue for good. That does
no harm as long as it is the only download, no tick is still to run, and none is
started later.
-/
namespace Xdccget.ProgressTimer
open ClientState Downloads DccEvents HaltingPrograms TableChanges StepRuns QuitTiming SessionCallbacks
  ResumeAddressing
open AlarmTurns (AlarmClient AlarmM Timers TimerCall WinApi Disarms DisarmFails Shadows ShadowsAt disarmed timerGone)

/-- The timer waits or a tick is to come while a download is open, and no call was made on a
    queue or a timer that had been deleted. -/
def TimerKept (s : AlarmClient) : Prop :=
  (s.client.halted = none → s.client.finishedDownloads < s.client.numActiveDownloads →
    s.timers.waiting ≠ [] ∨ 0 < s.timers.ticks) ∧
  ∀ call ∈ s.timers.calls, call.onDeleted = false

/-- A tick runs while nothing is finished. The first download that is completed is the only one,
    and none starts behind it, unless a tick is still to come. -/
def Alone (s : AlarmClient) : AlarmTurns.Event → Prop
  | .expire _ => True
  | .timerRoutine _ =>
    s.client.halted = none → 0 < s.timers.ticks → s.client.finishedDownloads = 0
  | .turn e _ =>
    (Completes s.client e → s.client.finishedDownloads = 0 ∧
      (s.client.numActiveDownloads = 1 ∨ 0 < s.timers.ticks)) ∧
    (StartsDownload s.client e → s.client.finishedDownloads = 0 ∨ 0 < s.timers.ticks)

inductive TurnOutcome (s s' : AlarmClient) (e : Event) : Prop
  | done (hclient : s'.client = step s.client e) (h : Disarms s s')
  | exits (hhalted : s'.client.halted = some .exitPgm) {t : AlarmClient} (h : Disarms s t)
      (hfails : DisarmFails t.timers s'.timers)
      (hlt : t.client.finishedDownloads < (step s.client e).finishedDownloads)
  | printed (he : e = .outputTimer) (hclient : s'.client = step s.client e ∨ s'.client = s.client)
      (htimers : s'.timers = s.timers ∨ s'.timers = { s.timers with outputFlag := false })

section turns
variable {s : AlarmClient}

theorem step_finishedDownloads {c : Client} (h : c.halted = none) (e : Event) :
    (step c e).finishedDownloads = (endState (handle e) c).finishedDownloads := by
  rcases step_eq_or h e with heq | ⟨fault, heq⟩ <;> rw [heq]

theorem turn_of_shadows {e : Event} {w : WinApi} (hs : s.client.halted = none)
    (h : ShadowsAt (AlarmTurns.handle (.turn e w)) (handle e) s) :
    TurnOutcome s (AlarmTurns.step s (.turn e w)) e := by
  have hfinished := step_finishedDownloads hs e
  have hok {c : Client} (hrun : (handle e).run s.client = .ok ⟨⟩ c) : step s.client e = c := by
    unfold step
    rw [hs, hrun]
  have herror {fault : Halt} {c : Client} (hrun : (handle e).run s.client = .error fault c) :
      step s.client e = { c with halted := some fault } := by
    unfold step
    rw [hs, hrun]
  obtain ⟨-, h⟩ := h
  unfold AlarmTurns.step
  rw [hs]
  cases hrun : (AlarmTurns.handle (.turn e w)).run s with
  | ok a s' =>
    rw [hrun] at h
    exact .done (hok h.1).symm h.2
  | error fault s' =>
    rw [hrun] at h
    rcases h with ⟨hy, hdisarms⟩ | ⟨rfl, t, ht, hfails, hlt⟩
    · exact .done (herror hy).symm hdisarms
    · exact .exits rfl ht hfails (hfinished ▸ hlt)

theorem turn_outcome (hs : s.client.halted = none) (e : Event) (w : WinApi) :
    TurnOutcome s (AlarmTurns.step s (.turn e w)) e := by
  cases e with
  | request env nick req =>
    have hsame := AlarmTurns.request_finishes hs env nick req
    exact turn_of_shadows hs (AlarmTurns.shadowsAt_client hsame)
  | socket dccid ready =>
    have hturn : Shadows (AlarmTurns.handle (.turn (.socket dccid ready) w))
        (handle (.socket dccid ready)) := by
      refine AlarmTurns.shadows_bind
        (AlarmTurns.shadows_client (AlarmTurns.finished_of_changes lock_moves)) fun _ => ?_
      refine AlarmTurns.shadows_bind (AlarmTurns.processDescriptor_shadows w dccid ready) fun _ => ?_
      exact AlarmTurns.shadows_client (AlarmTurns.finished_of_changes unlock_moves)
    exact turn_of_shadows hs (hturn s)
  | addDescriptors =>
    have hturn := AlarmTurns.shadows_client (AlarmTurns.finished_of_changes removeDccSessions_moves)
    exact turn_of_shadows hs (hturn s)
  | outputTimer =>
    have hget : (get : AlarmM AlarmClient).run s = .ok s s := rfl
    cases hflag : s.timers.outputFlag with
    | false =>
      have hstep : AlarmTurns.step s (.turn .outputTimer w) = s := by
        unfold AlarmTurns.step AlarmTurns.handle AlarmTurns.printOutputCallback
        rw [hs, run_bind_of_ok hget]
        simp [hflag]
      rw [hstep]
      exact .printed rfl (.inr rfl) (.inl rfl)
    | true =>
      have hstep : AlarmTurns.step s (.turn .outputTimer w) =
          { client := step s.client .outputTimer, timers := { s.timers with outputFlag := false } } := by
        unfold AlarmTurns.step AlarmTurns.handle AlarmTurns.printOutputCallback step
        rw [hs, run_bind_of_ok hget]
        simp only [hflag]
        rfl
      rw [hstep]
      exact .printed rfl (.inl rfl) (.inr rfl)

theorem finished_step {c : Client} (hsound : c.halted = none → Sound c) (e : Event) :
    (step c e).finishedDownloads = c.finishedDownloads ∨
      Completes c e ∧ (step c e).finishedDownloads = c.finishedDownloads + 1 := by
  by_cases hstarts : StartsDownload c e
  · obtain ⟨t, progress, fd, files, ht, hs'⟩ := step_starts (b := false) hstarts
    exact .inl ((quiet_of_changes hs').1.trans (quiet_of_changes ht).1)
  · rcases step_cases hstarts hsound with ⟨-, h⟩ | ⟨hcompletes, hcompletion⟩
    · exact .inl (quiet_of_changes h).1
    · refine .inr ⟨hcompletes, ?_⟩
      cases hcompletion with
      | of _ hbefore hl hafter =>
        rw [(quiet_of_changes hafter).1, ← (quiet_of_changes hbefore).1]
        rfl

theorem numActive_step {c : Client} (htally : Tallied c) {e : Event} (h : ¬ StartsDownload c e) :
    (step c e).numActiveDownloads = c.numActiveDownloads :=
  (DownloadTable.filled_of_changes htally.filled (step_changes h)).2.1

end turns

/-- What is known of a process that runs. Before the first download is finished the timer lives;
    afterwards a download is open only while a tick is to come. -/
structure Timed (s : AlarmClient) : Prop where
  sound : Sound s.client
  tally : Tallied s.client
  live : s.client.finishedDownloads = 0 → s.timers.queueDeleted = false ∧
    s.timers.deletedTimers = [] ∧ (s.timers.waiting ≠ [] ∨ 0 < s.timers.ticks)
  last : s.client.finishedDownloads ≠ 0 →
    s.client.finishedDownloads = s.client.numActiveDownloads ∨ 0 < s.timers.ticks

def Fresh (t : Timers) : Prop := ∀ call ∈ t.calls, call.onDeleted = false

def Kept (s : AlarmClient) : Prop :=
  Fresh s.timers ∧ (s.client.halted = none → Timed s)

section steps
variable {s : AlarmClient}

theorem fresh_append {t t' : Timers} (h : Fresh t) {l : List TimerCall}
    (hcalls : t'.calls = t.calls ++ l) (hl : ∀ call ∈ l, call.onDeleted = false) : Fresh t' := by
  intro call hcall
  rw [hcalls, List.mem_append] at hcall
  exact hcall.elim (h call) (hl call)

theorem fresh_of_live {t t' : Timers} (h : Fresh t) (hqueue : t.queueDeleted = false)
    (hdeleted : t.deletedTimers = []) (ht' : DisarmFails t t') : Fresh t' := by
  have hgone : timerGone t = false := by
    rw [timerGone, hqueue, hdeleted]
    rfl
  rcases ht' with hcalls | hcalls
  · exact fresh_append h hcalls (by simp [hgone])
  · exact fresh_append h (hcalls.trans rfl) (by simp [hgone, hqueue])

theorem kept_of_timed (h : Kept s) : TimerKept s := by
  refine ⟨fun hs hopen => ?_, h.1⟩
  obtain ⟨-, -, hlive, hlast⟩ := h.2 hs
  by_cases hzero : s.client.finishedDownloads = 0
  · exact (hlive hzero).2.2
  · exact (hlast hzero).elim (fun hall => absurd hall hopen.ne) .inr

theorem timed_expire (h : Timed s) (timer : ℕ) :
    Timed { s with timers := if s.timers.waiting.contains timer then
      { s.timers with waiting := s.timers.waiting.erase timer, ticks := s.timers.ticks + 1 }
      else s.timers } := by
  obtain ⟨hsound, htally, hlive, hlast⟩ := h
  split
  · refine ⟨hsound, htally, fun hzero => ?_, fun hne => .inr (Nat.succ_pos _)⟩
    exact ⟨(hlive hzero).1, (hlive hzero).2.1, .inr (Nat.succ_pos _)⟩
  · exact ⟨hsound, htally, hlive, hlast⟩

theorem step_of_ok {e : AlarmTurns.Event} {t : AlarmClient} (hs : s.client.halted = none)
    (hrun : (AlarmTurns.handle e).run s = .ok ⟨⟩ t) : AlarmTurns.step s e = t := by
  unfold AlarmTurns.step
  rw [hs, hrun]

theorem step_of_error {e : AlarmTurns.Event} {fault : Halt} {t : AlarmClient}
    (hs : s.client.halted = none) (hrun : (AlarmTurns.handle e).run s = .error fault t) :
    AlarmTurns.step s e = { t with client := { t.client with halted := some fault } } := by
  unfold AlarmTurns.step
  rw [hs, hrun]

theorem kept_timerRoutine (hs : s.client.halted = none) (h : Kept s) (w : WinApi)
    (halone : Alone s (.timerRoutine w)) : Kept (AlarmTurns.step s (.timerRoutine w)) := by
  have hget : (get : AlarmM AlarmClient).run s = .ok s s := rfl
  by_cases hticks : s.timers.ticks = 0
  · have hrun : (AlarmTurns.handle (.timerRoutine w)).run s = .ok ⟨⟩ s := by
      rw [AlarmTurns.handle, run_bind_of_ok hget, if_pos hticks]
      rfl
    rw [step_of_ok hs hrun]
    exact h
  · obtain ⟨hfresh, htimed⟩ := h
    obtain ⟨hsound, htally, hlive, -⟩ := htimed hs
    have hzero := halone hs (Nat.pos_of_ne_zero hticks)
    obtain ⟨hqueue, hdeleted, -⟩ := hlive hzero
    let called : Timers := { s.timers with
      ticks := s.timers.ticks - 1
      calls := s.timers.calls ++ [⟨.createTimerQueueTimer, false⟩] }
    have hcalled : Fresh called := fresh_append hfresh rfl (by simp)
    cases hcreate : w.createTimerQueueTimer with
    | false =>
      have hrun : (AlarmTurns.handle (.timerRoutine w)).run s =
          .error .exitPgm { s with timers := called } := by
        rw [AlarmTurns.handle, run_bind_of_ok hget, if_neg hticks]
        simp [AlarmTurns.modifyTimers, AlarmTurns.outputHandler, AlarmTurns.enableAlarm,
          AlarmTurns.createTimerQueueTimer, AlarmTurns.callApi, hqueue, hcreate, called]
      rw [step_of_error hs hrun]
      exact ⟨hcalled, fun hrunning => absurd hrunning (by simp)⟩
    | true =>
      have hrun : (AlarmTurns.handle (.timerRoutine w)).run s =
          .ok ⟨⟩ { s with timers := { called with
            hTimer := s.timers.created
            created := s.timers.created + 1
            waiting := s.timers.created :: s.timers.waiting
            outputFlag := true } } := by
        rw [AlarmTurns.handle, run_bind_of_ok hget, if_neg hticks]
        simp [AlarmTurns.modifyTimers, AlarmTurns.outputHandler, AlarmTurns.enableAlarm,
          AlarmTurns.createTimerQueueTimer, AlarmTurns.callApi, hqueue, hcreate, called]
      rw [step_of_ok hs hrun]
      refine ⟨hcalled, fun _ => ⟨hsound, htally, fun _ => ?_, fun hne => absurd hzero hne⟩⟩
      exact ⟨hqueue, hdeleted, .inl (List.cons_ne_nil _ _)⟩

theorem timed_of_unfinished {s' : AlarmClient} {e : Event} {w : WinApi} (h : Timed s)
    (halone : Alone s (.turn e w)) (hclient : s'.client = step s.client e)
    (hsame : s'.client.finishedDownloads = s.client.finishedDownloads)
    (htimers : s'.timers.waiting = s.timers.waiting ∧ s'.timers.ticks = s.timers.ticks ∧
      s'.timers.queueDeleted = s.timers.queueDeleted ∧
      s'.timers.deletedTimers = s.timers.deletedTimers)
    (hs' : s'.client.halted = none) : Timed s' := by
  obtain ⟨hwaiting, hticks, hqueue, hdeleted⟩ := htimers
  refine ⟨?_, ?_, fun hzero => ?_, fun hne => ?_⟩
  · rw [hclient] at hs' ⊢
    exact CallbackSteps.sound_step e (fun _ => h.sound) hs'
  · rw [hclient]
    exact tallied_step h.tally e
  · rw [hwaiting, hticks, hqueue, hdeleted]
    exact h.live (hsame ▸ hzero)
  · rw [hsame] at hne ⊢
    rw [hticks]
    by_cases hstarts : StartsDownload s.client e
    · exact .inr ((halone.2 hstarts).resolve_left hne)
    · rw [hclient, numActive_step h.tally hstarts]
      exact h.last hne

theorem kept_turn (hs : s.client.halted = none) (h : Kept s) {e : Event} {w : WinApi}
    (halone : Alone s (.turn e w)) : Kept (AlarmTurns.step s (.turn e w)) := by
  obtain ⟨hfresh, htimed⟩ := h
  have htime := htimed hs
  have hcount := finished_step (fun _ => htime.sound) e
  cases turn_outcome hs e w with
  | done hclient hdisarms =>
    obtain ⟨k, hk, htimers⟩ := hdisarms
    rw [← hclient] at hcount
    rcases hcount with hsame | ⟨hcompletes, hone⟩
    · obtain rfl : k = 0 := by omega
      refine ⟨by rw [htimers]; exact hfresh, fun hs' => ?_⟩
      exact timed_of_unfinished htime halone hclient hsame (by rw [htimers]; simp) hs'
    · obtain rfl : k = 1 := by omega
      obtain ⟨hzero, hlast⟩ := halone.1 hcompletes
      obtain ⟨hqueue, hdeleted, -⟩ := htime.live hzero
      have htimers' : (AlarmTurns.step s (.turn e w)).timers = disarmed s.timers := htimers
      refine ⟨?_, fun hs' => ⟨?_, ?_, fun hnone => ?_, fun _ => ?_⟩⟩
      · rw [htimers']
        exact fresh_of_live hfresh hqueue hdeleted (.inr rfl)
      · rw [hclient] at hs' ⊢
        exact CallbackSteps.sound_step e (fun _ => htime.sound) hs'
      · rw [hclient]
        exact tallied_step htime.tally e
      · omega
      · have hstarts : ¬ StartsDownload s.client e := by
          cases e with
          | socket id ready => exact fun hstarts => hstarts.elim
          | request env nick req => exact hcompletes.elim
          | addDescriptors => exact hcompletes.elim
          | outputTimer => exact hcompletes.elim
        have hactive := numActive_step htime.tally hstarts
        rw [← hclient] at hactive
        rw [htimers', hactive, hone, hzero]
        exact hlast.imp (fun hactive => hactive.symm) id
  | exits hhalted ht hfails hlt =>
    obtain ⟨k, hk, htimers⟩ := ht
    rcases hcount with hsame | ⟨hcompletes, hone⟩
    · omega
    · obtain rfl : k = 0 := by omega
      obtain ⟨hzero, -⟩ := halone.1 hcompletes
      obtain ⟨hqueue, hdeleted, -⟩ := htime.live hzero
      rw [htimers] at hfails
      refine ⟨fresh_of_live hfresh hqueue hdeleted hfails, fun hrunning => ?_⟩
      rw [hhalted] at hrunning
      cases hrunning
  | printed he hclient htimers =>
    subst he
    have hfresh' : Fresh (AlarmTurns.step s (.turn .outputTimer w)).timers := by
      rcases htimers with htimers | htimers <;> rw [htimers] <;> exact hfresh
    refine ⟨hfresh', fun hs' => ?_⟩
    rcases hclient with hclient | hclient
    · refine timed_of_unfinished htime halone hclient ?_ ?_ hs'
      · rw [hclient]
        exact hcount.elim id fun hcompletes => hcompletes.1.elim
      · rcases htimers with htimers | htimers <;> rw [htimers] <;> exact ⟨rfl, rfl, rfl, rfl⟩
    · obtain ⟨hsound, htally, hlive, hlast⟩ := htime
      refine ⟨hclient ▸ hsound, hclient ▸ htally, ?_, ?_⟩ <;>
      rcases htimers with htimers | htimers <;> rw [htimers, hclient] <;> assumption

theorem kept_step (e : AlarmTurns.Event) (h : Kept s) (halone : Alone s e) :
    Kept (AlarmTurns.step s e) := by
  cases hs : s.client.halted with
  | some fault =>
    have hstep : AlarmTurns.step s e = s := by
      unfold AlarmTurns.step
      rw [hs]
    rw [hstep]
    exact h
  | none =>
    cases e with
    | expire timer =>
      refine ⟨?_, fun _ => ?_⟩
      · rw [step_of_ok hs (e := .expire timer) rfl]
        intro call hcall
        refine h.1 call ?_
        dsimp only at hcall
        split at hcall <;> exact hcall
      · rw [step_of_ok hs (e := .expire timer) rfl]
        exact timed_expire (h.2 hs) timer
    | timerRoutine w => exact kept_timerRoutine hs h w halone
    | turn e w => exact kept_turn hs h halone

end steps

theorem kept_initial (cfg : XdccGetConfig) (net : Net) (files : CText.Bytes → Option CText.Bytes) :
    Kept (AlarmTurns.initial cfg net files) := by
  refine ⟨fun call hcall => absurd hcall List.not_mem_nil, fun hs => ?_⟩
  refine ⟨(CallbackSteps.soundRun_initial cfg net files).2 hs, tallied_initial cfg net files,
    fun _ => ⟨rfl, rfl, .inl (List.cons_ne_nil _ _)⟩, fun hne => absurd rfl hne⟩

/-- In every run in which the first download to be completed is the only one, the timer is kept. -/
theorem timer_kept (cfg : XdccGetConfig) (net : Net) (files : CText.Bytes → Option CText.Bytes)
    {events : List AlarmTurns.Event}
    (hall : AllAlong AlarmTurns.step Alone (AlarmTurns.initial cfg net files) events) :
    TimerKept (run AlarmTurns.step (AlarmTurns.initial cfg net files) events) :=
  kept_of_timed (run_invariant_of_allAlong (fun _ e h halone => kept_step e h halone)
    (kept_initial cfg net files) hall)

def working : WinApi :=
  { createTimerQueueTimer := true, deleteTimerQueueTimer := true, deleteTimerQueueEx := true }

theorem alone_of_only {s : AlarmClient} (hzero : s.client.finishedDownloads = 0)
    (hone : s.client.numActiveDownloads = 1) (e : AlarmTurns.Event) : Alone s e := by
  cases e with
  | expire timer => trivial
  | timerRoutine w => exact fun _ _ => hzero
  | turn e w => exact ⟨fun _ => ⟨hzero, .inl hone⟩, fun _ => .inl hzero⟩

def oneDownload : List AlarmTurns.Event :=
  [.turn (request "bot" "DCC SEND a 16909060 5000 2") working, .turn (.socket 1 (.connecting true)) working,
    .expire 0, .timerRoutine working, .turn .outputTimer working,
    .turn (.socket 1 (.receiving [.data twoBytes])) working]

theorem timer_kept_one :
    TimerKept (run AlarmTurns.step (AlarmTurns.initial (oneBot false) connected noFiles) oneDownload) := by
  refine timer_kept (oneBot false) connected noFiles ⟨⟨fun h => h.elim, fun _ => .inl rfl⟩, ?_⟩
  refine ⟨alone_of_only ?_ ?_ _, alone_of_only ?_ ?_ _, alone_of_only ?_ ?_ _, alone_of_only ?_ ?_ _,
    alone_of_only ?_ ?_ _, trivial⟩ <;> decide +kernel

/-- With the first of two downloads the timer is gone, though the second is open. -/
theorem timer_lost_with_first :
    ¬ TimerKept (run AlarmTurns.step (AlarmTurns.initial twoBots connected noFiles)
      [.turn (request "bot" "DCC SEND a 16909060 5000 2") working,
        .turn (request "tob" "DCC SEND b 16909061 5001 2") working,
        .turn (.socket 1 (.connecting true)) working,
        .turn (.socket 1 (.receiving [.data twoBytes])) working]) := by
  intro h
  exact absurd (h.1 (by decide +kernel) (by decide +kernel)) (by decide +kernel)

end Xdccget.ProgressTimer
