import Xdccget.HaltingPrograms

set_option autoImplicit false

/-!
# Two programs side by side

`Relates` is a triple about two `EStateM` programs: from related states both
return or both halt, with related results in related states. `Simulates` is the
case of one relation that holds before and behind.
-/
namespace Xdccget.ProgramRelations
open HaltingPrograms

variable {ε δ σ τ α β γ κ : Type}

/-- From states in `P` both programs return in `Q` or both halt in `E`. -/
def Relates (P : σ → τ → Prop) (x : EStateM ε σ α) (y : EStateM δ τ β)
    (Q : α → β → σ → τ → Prop) (E : ε → δ → σ → τ → Prop) : Prop :=
  ∀ s t, P s t →
    match x.run s, y.run t with
    | .ok a s', .ok b t' => Q a b s' t'
    | .error e s', .error d t' => E e d s' t'
    | _, _ => False

section rules
variable {P : σ → τ → Prop} {Q : α → β → σ → τ → Prop} {E : ε → δ → σ → τ → Prop}

theorem relates_pure {a : α} {b : β} (h : ∀ s t, P s t → Q a b s t) :
    Relates P (pure a : EStateM ε σ α) (pure b : EStateM δ τ β) Q E := fun s t hst => h s t hst

theorem relates_throw {e : ε} {d : δ} (h : ∀ s t, P s t → E e d s t) :
    Relates P (throw e : EStateM ε σ α) (throw d : EStateM δ τ β) Q E := fun s t hst => h s t hst

theorem relates_modify {f : σ → σ} {g : τ → τ} {Q : PUnit → PUnit → σ → τ → Prop}
    (h : ∀ s t, P s t → Q ⟨⟩ ⟨⟩ (f s) (g t)) :
    Relates P (modify f : EStateM ε σ PUnit) (modify g : EStateM δ τ PUnit) Q E :=
  fun s t hst => h s t hst

theorem Relates.weaken {P' : σ → τ → Prop} {Q' : α → β → σ → τ → Prop}
    {E' : ε → δ → σ → τ → Prop} {x : EStateM ε σ α} {y : EStateM δ τ β} (h : Relates P x y Q E)
    (hP : ∀ s t, P' s t → P s t) (hQ : ∀ a b s t, Q a b s t → Q' a b s t)
    (hE : ∀ e d s t, E e d s t → E' e d s t) : Relates P' x y Q' E' := by
  intro s t hst
  have h' := h s t (hP s t hst)
  cases hx : x.run s <;> cases hy : y.run t <;> rw [hx, hy] at h'
  · exact hQ _ _ _ _ h'
  · exact h'.elim
  · exact h'.elim
  · exact hE _ _ _ _ h'

theorem relates_bind {x : EStateM ε σ γ} {y : EStateM δ τ κ} {f : γ → EStateM ε σ α}
    {g : κ → EStateM δ τ β} {R : γ → κ → σ → τ → Prop} (hxy : Relates P x y R E)
    (hfg : ∀ c k, Relates (R c k) (f c) (g k) Q E) : Relates P (x >>= f) (y >>= g) Q E := by
  intro s t hst
  have h := hxy s t hst
  cases hx : x.run s with
  | ok c s' =>
    cases hy : y.run t with
    | ok k t' =>
      rw [hx, hy] at h
      rw [run_bind_of_ok hx, run_bind_of_ok hy]
      exact hfg c k s' t' h
    | error d t' =>
      rw [hx, hy] at h
      exact h.elim
  | error e s' =>
    cases hy : y.run t with
    | ok k t' =>
      rw [hx, hy] at h
      exact h.elim
    | error d t' =>
      rw [hx, hy] at h
      rw [run_bind_of_error hx, run_bind_of_error hy]
      exact h

theorem relates_ite {c c' : Prop} [Decidable c] [Decidable c'] {x x' : EStateM ε σ α}
    {y y' : EStateM δ τ β} (hc : c ↔ c') (hthen : c → Relates P x y Q E)
    (helse : ¬ c → Relates P x' y' Q E) :
    Relates P (if c then x else x') (if c' then y else y') Q E := by
  by_cases h : c
  · rw [if_pos h, if_pos (hc.mp h)]
    exact hthen h
  · rw [if_neg h, if_neg (mt hc.mpr h)]
    exact helse h

theorem relates_get_bind {f : σ → EStateM ε σ α} {g : τ → EStateM δ τ β}
    (h : ∀ s t, P s t → Relates (fun s' t' => s' = s ∧ t' = t) (f s) (g t) Q E) :
    Relates P (get >>= f) (get >>= g) Q E := fun s t hst => h s t hst s t ⟨rfl, rfl⟩

theorem relates_bind_left {x : EStateM ε σ γ} {f : γ → EStateM ε σ α} {y : EStateM δ τ β}
    {R : γ → σ → τ → Prop} (hx : ∀ s t, P s t → ∃ c s', x.run s = .ok c s' ∧ R c s' t)
    (hf : ∀ c, Relates (R c) (f c) y Q E) : Relates P (x >>= f) y Q E := by
  intro s t hst
  obtain ⟨c, s', hrun, hR⟩ := hx s t hst
  rw [run_bind_of_ok hrun]
  exact hf c s' t hR

theorem relates_discard {x : EStateM ε σ α} {y : EStateM δ τ β} {Q : PUnit → PUnit → σ → τ → Prop}
    (h : Relates P x y (fun _ _ => Q ⟨⟩ ⟨⟩) E) : Relates P (discard x) (discard y) Q E := by
  intro s t hst
  have h' := h s t hst
  cases hx : x.run s <;> cases hy : y.run t <;> rw [hx, hy] at h'
  · rw [run_discard hx, run_discard hy]
    exact h'
  · exact h'.elim
  · exact h'.elim
  · rw [run_discard_of_error hx, run_discard_of_error hy]
    exact h'

theorem relates_of_false {x : EStateM ε σ α} {y : EStateM δ τ β} (h : ∀ s t, ¬ P s t) :
    Relates P x y Q E := fun s t hst => (h s t hst).elim

theorem relates_of_and {p : Prop} {x : EStateM ε σ α} {y : EStateM δ τ β}
    (h : p → Relates P x y Q E) : Relates (fun s t => p ∧ P s t) x y Q E :=
  fun s t hst => h hst.1 s t hst.2

end rules

def zoom (ρ : δ → ε) (get : σ → τ) (set : τ → σ → σ) (x : EStateM δ τ α) : EStateM ε σ α := fun s =>
  match x.run (get s) with
  | .ok a t => .ok a (set t s)
  | .error d t => .error (ρ d) (set t s)

theorem zoom_run (ρ : δ → ε) (get : σ → τ) (set : τ → σ → σ) (x : EStateM δ τ α) (s : σ) :
    (zoom ρ get set x).run s =
      match x.run (get s) with
      | .ok a t => .ok a (set t s)
      | .error d t => .error (ρ d) (set t s) := rfl

theorem endState_zoom (ρ : δ → ε) (get : σ → τ) (set : τ → σ → σ) (x : EStateM δ τ α) (s : σ) :
    endState (zoom ρ get set x) s = set (endState x (get s)) s := by
  unfold endState
  rw [zoom_run]
  cases x.run (get s) <;> rfl

/-- The programs return equal results, or halt in corresponding ways, and what relates the states
    before relates them behind. -/
def Simulates (ρ : δ → ε) (R : σ → τ → Prop) (x : EStateM ε σ α) (y : EStateM δ τ α) : Prop :=
  Relates R x y (fun a b s t => a = b ∧ R s t) fun e d s t => e = ρ d ∧ R s t

section simulations
variable {ρ : δ → ε} {R : σ → τ → Prop}

theorem simulates_pure (a : α) : Simulates ρ R (pure a) (pure a) :=
  relates_pure fun _ _ h => ⟨rfl, h⟩

theorem simulates_throw (d : δ) :
    Simulates ρ R (throw (ρ d) : EStateM ε σ α) (throw d : EStateM δ τ α) :=
  relates_throw fun _ _ h => ⟨rfl, h⟩

theorem simulates_modify {f : σ → σ} {g : τ → τ} (h : ∀ s t, R s t → R (f s) (g t)) :
    Simulates ρ R (modify f : EStateM ε σ PUnit) (modify g) :=
  relates_modify fun s t hst => ⟨rfl, h s t hst⟩

theorem simulates_bind {x : EStateM ε σ γ} {y : EStateM δ τ γ} {f : γ → EStateM ε σ α}
    {g : γ → EStateM δ τ α} (hxy : Simulates ρ R x y) (hfg : ∀ c, Simulates ρ R (f c) (g c)) :
    Simulates ρ R (x >>= f) (y >>= g) := by
  refine relates_bind hxy fun c k => relates_of_and fun hck => ?_
  subst hck
  exact hfg c

theorem simulates_ite {c c' : Prop} [Decidable c] [Decidable c'] {x x' : EStateM ε σ α}
    {y y' : EStateM δ τ α} (hc : c ↔ c') (hthen : c → Simulates ρ R x y)
    (helse : ¬ c → Simulates ρ R x' y') :
    Simulates ρ R (if c then x else x') (if c' then y else y') := relates_ite hc hthen helse

theorem simulates_get_bind {f : σ → EStateM ε σ α} {g : τ → EStateM δ τ α}
    (h : ∀ s t, R s t → Simulates ρ R (f s) (g t)) :
    Simulates ρ R (get >>= f) (get >>= g) := by
  refine relates_get_bind fun s t hst => (h s t hst).weaken ?_ (fun _ _ _ _ h => h) fun _ _ _ _ h => h
  rintro s' t' ⟨rfl, rfl⟩
  exact hst

theorem simulates_discard {x : EStateM ε σ α} {y : EStateM δ τ α} (h : Simulates ρ R x y) :
    Simulates ρ R (discard x) (discard y) :=
  relates_discard (h.weaken (fun _ _ h => h) (fun _ _ _ _ h => ⟨rfl, h.2⟩) fun _ _ _ _ h => h)

theorem simulates_forM {f : γ → EStateM ε σ PUnit} {g : γ → EStateM δ τ PUnit} {cs : List γ}
    (h : ∀ c ∈ cs, Simulates ρ R (f c) (g c)) : Simulates ρ R (cs.forM f) (cs.forM g) := by
  induction cs with
  | nil => exact simulates_pure PUnit.unit
  | cons c cs ih =>
    rw [List.forM, List.forM]
    exact simulates_bind (h c (by simp)) fun _ => ih fun c' hc' => h c' (by simp [hc'])

theorem simulates_zoom {get : σ → τ} {set : τ → σ → σ} (hset : ∀ s t, get (set t s) = t)
    (x : EStateM δ τ α) : Simulates ρ (fun s t => get s = t) (zoom ρ get set x) x := by
  intro s t hst
  subst hst
  rw [zoom_run]
  cases x.run (get s) with
  | ok a t => exact ⟨rfl, hset s t⟩
  | error d t => exact ⟨rfl, hset s t⟩

theorem Simulates.of_ok {x : EStateM ε σ α} {y : EStateM δ τ α} (h : Simulates ρ R x y) {s : σ}
    {t : τ} (hst : R s t) {a : α} {t' : τ} (hy : y.run t = .ok a t') :
    ∃ s', x.run s = .ok a s' ∧ R s' t' := by
  have h' := h s t hst
  rw [hy] at h'
  cases hx : x.run s with
  | ok b s' =>
    rw [hx] at h'
    obtain ⟨hab, hR⟩ := h'
    exact ⟨s', by rw [hab], hR⟩
  | error e s' =>
    rw [hx] at h'
    exact h'.elim

theorem Simulates.of_error {x : EStateM ε σ α} {y : EStateM δ τ α} (h : Simulates ρ R x y) {s : σ}
    {t : τ} (hst : R s t) {d : δ} {t' : τ} (hy : y.run t = .error d t') :
    ∃ s', x.run s = .error (ρ d) s' ∧ R s' t' := by
  have h' := h s t hst
  rw [hy] at h'
  cases hx : x.run s with
  | ok b s' =>
    rw [hx] at h'
    exact h'.elim
  | error e s' =>
    rw [hx] at h'
    obtain ⟨hed, hR⟩ := h'
    exact ⟨s', by rw [hed], hR⟩

end simulations

end Xdccget.ProgramRelations
