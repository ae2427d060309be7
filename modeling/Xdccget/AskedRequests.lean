import Xdccget.RequestTurns

set_option autoImplicit false

/-!
# Requested downloads are asked for once

The requests are asked for together, and `SENDED_FLAG` is set whatever becomes of the
calls. So nothing is lost exactly where the connection stands and `outgoing_buf` has
room for all of the lines.
-/
namespace Xdccget.AskedRequests
open CText ClientState StepRuns ClientLoop LoopFrames LoopLines RequestTurns

def accepted (s : Loop) : List (Bytes × Bytes) :=
  (s.asked.filter (·.accepted)).map fun a => (a.botNick, a.xdccCmd)

/-- Once the flag is set, each pair has been taken once and in list order, and while a command
    could not be queued the flag is clear. -/
def AskedOnce (s : Loop) : Prop :=
  (s.session.sended = true → accepted s = requests s.session.client.cfg) ∧
    ∀ a ∈ s.asked, a.accepted = false → s.session.sended = false

instance (s : Loop) : Decidable (AskedOnce s) := by
  unfold AskedOnce
  infer_instance

def RoomToAsk (s : Loop) (e : LoopEvent) : Prop := ∀ net ∈ asks s e, Room net (downloads s.session)

structure Pending (s : Loop) : Prop where
  between : Between s
  unasked : s.session.sended = false → s.asked = []

theorem pending_start (c : Setup) : Pending c.start := ⟨between_start c, fun _ => rfl⟩

section steps
variable {s : Loop}

theorem asks_of_sended (h : s.session.sended = true) (e : LoopEvent) : asks s e = none := by
  unfold asks unlessSended
  rw [h]
  exact ite_self none

theorem step_answers (h : Pending s) {e : LoopEvent} {net : Net} (hasks : asks s e = some net) :
    (step s e).session.sended = true ∧
      (step s e).asked = answers s.now net (downloads s.session) := by
  have hclear : s.session.sended = false := by
    by_contra hset
    rw [asks_of_sended (by simpa using hset) e] at hasks
    cases hasks
  have hfollows := step_follows h.between e
  rw [hasks] at hfollows
  refine ⟨hfollows.1, ?_⟩
  rw [hfollows.2, h.unasked hclear, List.nil_append]

theorem step_unasked (hb : Between s) {e : LoopEvent} (hasks : asks s e = none) :
    Unasked s (step s e) := by
  have hfollows := step_follows hb e
  rw [hasks] at hfollows
  exact hfollows

theorem pending_step (h : Pending s) (e : LoopEvent) : Pending (step s e) where
  between := between_step h.between e
  unasked := by
    intro hclear
    cases hasks : asks s e with
    | none =>
      have hsame := step_unasked h.between hasks
      rw [hsame.asked]
      exact h.unasked (hsame.sended.symm.trans hclear)
    | some net =>
      rw [(step_answers h hasks).1] at hclear
      cases hclear

end steps

theorem askedOnce_iff_room {s : Loop} {now : ℕ} {net : Net} {ds : List DccDownload}
    (hsended : s.session.sended = true) (hasked : s.asked = answers now net ds)
    (hrequests : requests s.session.client.cfg = ds.map fun d => (d.botNick, d.xdccCmd)) :
    AskedOnce s ↔ Room net ds := by
  rw [← answers_accepted_iff now net ds, ← hasked]
  constructor
  · intro h a ha
    by_contra hrefused
    have hclear := h.2 a ha (by simpa using hrefused)
    rw [hsended] at hclear
    cases hclear
  · intro hall
    refine ⟨fun _ => ?_, fun a ha hrefused => ?_⟩
    · have hfilter : s.asked.filter (·.accepted) = s.asked := List.filter_eq_self.mpr hall
      rw [accepted, hfilter, hasked, answers_pairs, hrequests]
    · rw [hall a ha] at hrefused
      cases hrefused

theorem askedOnce_step {s : Loop} {e : LoopEvent} (h : Pending s) (hasks : asks s e = none) :
    AskedOnce (step s e) ↔ AskedOnce s := by
  have hsame := step_unasked h.between hasks
  unfold AskedOnce accepted
  rw [hsame.sended, hsame.asked, (step_configured h.between e).requests]

theorem askedOnce_step_iff_room {s : Loop} {e : LoopEvent} {net : Net} (h : Pending s)
    (hasks : asks s e = some net) : AskedOnce (step s e) ↔ Room net (downloads s.session) := by
  obtain ⟨hsended, hasked⟩ := step_answers h hasks
  exact askedOnce_iff_room hsended hasked (step_configured h.between e).requests

/-- Nothing is lost and nothing is asked for twice if and only if every turn that comes to the
    requests finds the connection established and room for all of their lines. -/
theorem asked_once_iff (c : Setup) (events : List LoopEvent) :
    AskedOnce (run step c.start events) ↔ AllAlong step RoomToAsk c.start events := by
  have hstart : AskedOnce c.start := ⟨by simp [Setup.start], by simp [Setup.start]⟩
  constructor
  · intro hrun
    have hinv : ∀ s e, Pending s → RoomToAsk s e → Pending (step s e) := fun s e h _ => pending_step h e
    -- once the flag is set too early, the requests are never asked for again
    have hbad : ∀ s e, Pending s → ¬ RoomToAsk s e →
        Pending (step s e) ∧ (step s e).session.sended = true ∧ ¬ AskedOnce (step s e) := by
      intro s e h hroom
      unfold RoomToAsk at hroom
      simp only [not_forall] at hroom
      obtain ⟨net, hasks, hroom⟩ := hroom
      exact ⟨pending_step h e, (step_answers h hasks).1,
        fun hasked => hroom ((askedOnce_step_iff_room h hasks).mp hasked)⟩
    have hkeep : ∀ s e, (Pending s ∧ s.session.sended = true ∧ ¬ AskedOnce s) →
        Pending (step s e) ∧ (step s e).session.sended = true ∧ ¬ AskedOnce (step s e) := by
      rintro s e ⟨h, hsended, hlost⟩
      have hnone := asks_of_sended hsended e
      exact ⟨pending_step h e, (step_unasked h.between hnone).sended.trans hsended,
        mt (askedOnce_step h hnone).mp hlost⟩
    exact allAlong_of_run hinv hbad hkeep (pending_start c) fun hlost => hlost.2.2 hrun
  · intro hall
    have hstep : ∀ s e, Pending s ∧ AskedOnce s → RoomToAsk s e →
        Pending (step s e) ∧ AskedOnce (step s e) := by
      rintro s e ⟨h, hasked⟩ hroom
      refine ⟨pending_step h e, ?_⟩
      cases hasks : asks s e with
      | none => exact (askedOnce_step h hasks).mpr hasked
      | some net => exact (askedOnce_step_iff_room h hasks).mpr (hroom net hasks)
    exact (run_invariant_of_allAlong hstep ⟨pending_start c, hstart⟩ hall).2

def delayedSetup : Setup := { botSetup with sendDelay := some 10, now := 10 }

/-- The delay is over before the connection stands: the request is refused and marked as sent. -/
theorem early_timer_loses_request :
    ¬ AskedOnce (run step delayedSetup.start [.clock 11, .keepAlive false]) := by
  decide +kernel

end Xdccget.AskedRequests
