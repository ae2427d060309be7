import Mathlib.Data.List.Basic
import Mathlib.Tactic

set_option autoImplicit false

/-!
# Runs of a step function

A system is a total step function on states. Facts about a run are carried over
its events: invariants, conditions that every step meets, and sums along the run.
-/
namespace Xdccget.StepRuns

variable {σ ε : Type}

def run (step : σ → ε → σ) (s : σ) (events : List ε) : σ := events.foldl step s

@[simp] theorem run_nil (step : σ → ε → σ) (s : σ) : run step s [] = s := rfl

@[simp] theorem run_cons (step : σ → ε → σ) (s : σ) (e : ε) (events : List ε) :
    run step s (e :: events) = run step (step s e) events := rfl

theorem run_append (step : σ → ε → σ) (s : σ) (a b : List ε) :
    run step s (a ++ b) = run step (run step s a) b := List.foldl_append

/-- Every step of the run starts in a state that meets the condition with its event. -/
def AllAlong (step : σ → ε → σ) (p : σ → ε → Prop) : σ → List ε → Prop
  | _, [] => True
  | s, e :: events => p s e ∧ AllAlong step p (step s e) events

/-- The sum of what the steps contribute, each measured in the state it starts in. -/
def sumAlong (step : σ → ε → σ) (f : σ → ε → ℕ) : σ → List ε → ℕ
  | _, [] => 0
  | s, e :: events => f s e + sumAlong step f (step s e) events

def concatAlong {α : Type} (step : σ → ε → σ) (f : σ → ε → List α) : σ → List ε → List α
  | _, [] => []
  | s, e :: events => f s e ++ concatAlong step f (step s e) events

theorem concatAlong_append {α : Type} (step : σ → ε → σ) (f : σ → ε → List α) (s : σ)
    (a b : List ε) :
    concatAlong step f s (a ++ b) = concatAlong step f s a ++ concatAlong step f (run step s a) b := by
  induction a generalizing s with
  | nil => rfl
  | cons e a ih =>
    rw [List.cons_append, concatAlong, ih, concatAlong, List.append_assoc]
    rfl

theorem run_invariant {step : σ → ε → σ} {inv : σ → Prop} (hstep : ∀ s e, inv s → inv (step s e))
    {s : σ} (h : inv s) (events : List ε) : inv (run step s events) := by
  induction events generalizing s with
  | nil => exact h
  | cons e events ih => exact ih (hstep s e h)

theorem allAlong_append {step : σ → ε → σ} {p : σ → ε → Prop} {s : σ} {a b : List ε} :
    AllAlong step p s (a ++ b) ↔ AllAlong step p s a ∧ AllAlong step p (run step s a) b := by
  induction a generalizing s with
  | nil => simp [AllAlong]
  | cons e a ih =>
    rw [List.cons_append, AllAlong, AllAlong, ih, run_cons, and_assoc]

theorem run_invariant_of_allAlong {step : σ → ε → σ} {inv : σ → Prop} {p : σ → ε → Prop}
    (hstep : ∀ s e, inv s → p s e → inv (step s e)) {s : σ} (h : inv s) {events : List ε}
    (hall : AllAlong step p s events) : inv (run step s events) := by
  induction events generalizing s with
  | nil => exact h
  | cons e events ih => exact ih (hstep s e h hall.1) hall.2

theorem allAlong_of_run {step : σ → ε → σ} {inv bad : σ → Prop} {p : σ → ε → Prop}
    (hinv : ∀ s e, inv s → p s e → inv (step s e)) (hbad : ∀ s e, inv s → ¬ p s e → bad (step s e))
    (hkeep : ∀ s e, bad s → bad (step s e)) {s : σ} (h : inv s) {events : List ε}
    (hrun : ¬ bad (run step s events)) : AllAlong step p s events := by
  induction events generalizing s with
  | nil => trivial
  | cons e events ih =>
    have hp : p s e := by
      by_contra hp
      exact hrun (run_invariant hkeep (hbad s e h hp) events)
    exact ⟨hp, ih (hinv s e h hp) hrun⟩

theorem AllAlong.mono {step : σ → ε → σ} {p q : σ → ε → Prop} (h : ∀ s e, p s e → q s e) {s : σ}
    {events : List ε} (hall : AllAlong step p s events) : AllAlong step q s events := by
  induction events generalizing s with
  | nil => trivial
  | cons e events ih => exact ⟨h s e hall.1, ih hall.2⟩

theorem AllAlong.and {step : σ → ε → σ} {p q : σ → ε → Prop} {s : σ} {events : List ε}
    (hp : AllAlong step p s events) (hq : AllAlong step q s events) :
    AllAlong step (fun s e => p s e ∧ q s e) s events := by
  induction events generalizing s with
  | nil => trivial
  | cons e events ih => exact ⟨⟨hp.1, hq.1⟩, ih hp.2 hq.2⟩

theorem allAlong_congr {step : σ → ε → σ} {inv : σ → Prop} {p q : σ → ε → Prop}
    (hinv : ∀ s e, inv s → inv (step s e)) (h : ∀ s e, inv s → (p s e ↔ q s e)) {s : σ} (hs : inv s)
    {events : List ε} : AllAlong step p s events ↔ AllAlong step q s events := by
  induction events generalizing s with
  | nil => exact Iff.rfl
  | cons e events ih => exact and_congr (h s e hs) (ih (hinv s e hs))

theorem allAlong_of_forall {step : σ → ε → σ} {p : ε → Prop} {events : List ε}
    (h : ∀ e ∈ events, p e) (s : σ) : AllAlong step (fun _ => p) s events := by
  induction events generalizing s with
  | nil => trivial
  | cons e events ih =>
    exact ⟨h e List.mem_cons_self, ih (fun other hother => h other (List.mem_cons_of_mem e hother)) _⟩

theorem run_filter {τ : Type} {step : σ → ε → σ} {step' : τ → ε → τ} {R : σ → τ → Prop}
    {p : σ → ε → Prop} {keep : ε → Bool}
    (hkept : ∀ s t e, R s t → p s e → keep e = true → R (step s e) (step' t e))
    (hleft : ∀ s t e, R s t → p s e → keep e = false → R (step s e) t) {s : σ} {t : τ} (h : R s t)
    {events : List ε} (hall : AllAlong step p s events) :
    R (run step s events) (run step' t (events.filter keep)) := by
  induction events generalizing s t with
  | nil => exact h
  | cons e events ih =>
    cases hkeep : keep e with
    | true =>
      rw [List.filter_cons_of_pos hkeep]
      exact ih (hkept s t e h hall.1 hkeep) hall.2
    | false =>
      rw [List.filter_cons_of_neg (by simp [hkeep])]
      exact ih (hleft s t e h hall.1 hkeep) hall.2

theorem exists_split_of_not_mem {α : Type} {a : α} {history l before after : List α}
    (h : history ++ l = before ++ a :: after) (ha : a ∉ l) :
    ∃ after', history = before ++ a :: after' := by
  rcases List.append_eq_append_iff.mp h with ⟨mid, -, hmid⟩ | ⟨mid, hmid, hl⟩
  · exact absurd (hmid ▸ List.mem_append_right mid List.mem_cons_self) ha
  · cases mid with
    | nil =>
      rw [List.nil_append] at hl
      rw [← hl] at ha
      exact absurd List.mem_cons_self ha
    | cons b mid =>
      rw [List.cons_append, List.cons.injEq] at hl
      rw [← hl.1] at hmid
      exact ⟨mid, hmid⟩

theorem split_concat {α : Type} {a b : α} {history before after : List α}
    (h : history ++ [a] = before ++ b :: after) :
    (before = history ∧ b = a) ∨ ∃ after', history = before ++ b :: after' := by
  cases after using List.reverseRecOn with
  | nil =>
    obtain ⟨rfl, hlast⟩ := List.append_inj' h rfl
    exact Or.inl ⟨rfl, (List.singleton_inj.mp hlast).symm⟩
  | append_singleton after c _ =>
    have h' : history ++ [a] = (before ++ b :: after) ++ [c] := by
      rw [h]
      simp
    exact Or.inr ⟨after, (List.append_inj' h' rfl).1⟩

theorem allAlong_of_invariant {step : σ → ε → σ} {inv : σ → Prop} {p : σ → ε → Prop}
    (hstep : ∀ s e, inv s → p s e → inv (step s e)) {s : σ} (h : inv s) {events : List ε}
    (hall : AllAlong step p s events) : AllAlong step (fun s e => inv (step s e)) s events := by
  induction events generalizing s with
  | nil => trivial
  | cons e events ih =>
    have hnext := hstep s e h hall.1
    exact ⟨hnext, ih hnext hall.2⟩

theorem allAlong_iff_of_step {step : σ → ε → σ} {inv : σ → Prop} {p : σ → ε → Prop}
    (hstep : ∀ s e, inv s → (inv (step s e) ↔ p s e)) {s : σ} (h : inv s) {events : List ε} :
    AllAlong step (fun s e => inv (step s e)) s events ↔ AllAlong step p s events := by
  induction events generalizing s with
  | nil => exact Iff.rfl
  | cons e events ih =>
    constructor
    · rintro ⟨hnext, hrest⟩
      exact ⟨(hstep s e h).mp hnext, (ih hnext).mp hrest⟩
    · rintro ⟨hp, hrest⟩
      have hnext := (hstep s e h).mpr hp
      exact ⟨hnext, (ih hnext).mpr hrest⟩

end Xdccget.StepRuns
