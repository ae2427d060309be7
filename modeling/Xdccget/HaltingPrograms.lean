import Mathlib.Data.List.Basic
import Mathlib.Tactic

set_option autoImplicit false

/-!
# Programs that may halt

Rules for `EStateM` programs whose exceptions end the process: the state at the
end counts, however the end is reached. `Ensures` is a triple with one
postcondition for a return and one for a halt; `Moves` follows a relation.
-/
namespace Xdccget.HaltingPrograms

variable {ε σ α β : Type}

@[simp] theorem run_throw_any (e : ε) (s : σ) :
    (throw e : EStateM ε σ α).run s = .error e s := rfl

@[simp] theorem run_map (f : α → β) (x : EStateM ε σ α) (s : σ) :
    (f <$> x).run s =
      match x.run s with
      | .ok a s' => .ok (f a) s'
      | .error e s' => .error e s' := rfl

theorem run_bind_of_ok {x : EStateM ε σ β} {f : β → EStateM ε σ α} {s s' : σ} {b : β}
    (h : x.run s = .ok b s') : (x >>= f).run s = (f b).run s' := by
  rw [EStateM.run_bind, h]

theorem run_bind_of_error {x : EStateM ε σ β} {f : β → EStateM ε σ α} {s s' : σ} {e : ε}
    (h : x.run s = .error e s') : (x >>= f).run s = .error e s' := by
  rw [EStateM.run_bind, h]

theorem run_get_bind (f : σ → EStateM ε σ α) (s : σ) : (get >>= f).run s = (f s).run s := rfl

theorem run_discard {x : EStateM ε σ α} {s s' : σ} {a : α} (h : x.run s = .ok a s') :
    (discard x).run s = .ok ⟨⟩ s' := by
  change ((fun _ => PUnit.unit) <$> x).run s = _
  rw [run_map, h]

theorem run_discard_of_error {x : EStateM ε σ α} {s s' : σ} {e : ε} (h : x.run s = .error e s') :
    (discard x).run s = .error e s' := by
  change ((fun _ => PUnit.unit) <$> x).run s = _
  rw [run_map, h]

def endState (x : EStateM ε σ α) (s : σ) : σ :=
  match x.run s with
  | .ok _ s' => s'
  | .error _ s' => s'

theorem endState_of_ok {x : EStateM ε σ α} {s s' : σ} {a : α} (h : x.run s = .ok a s') :
    endState x s = s' := by
  simp [endState, h]

theorem endState_of_error {x : EStateM ε σ α} {s s' : σ} {e : ε} (h : x.run s = .error e s') :
    endState x s = s' := by
  simp [endState, h]

theorem endState_bind_of_ok {x : EStateM ε σ β} {f : β → EStateM ε σ α} {s s' : σ} {b : β}
    (h : x.run s = .ok b s') : endState (x >>= f) s = endState (f b) s' := by
  unfold endState
  rw [run_bind_of_ok h]

theorem endState_get_bind (f : σ → EStateM ε σ α) (s : σ) :
    endState (get >>= f) s = endState (f s) s := rfl

theorem endState_bind_of_error {x : EStateM ε σ β} {f : β → EStateM ε σ α} {s s' : σ} {e : ε}
    (h : x.run s = .error e s') : endState (x >>= f) s = s' := by
  unfold endState
  rw [run_bind_of_error h]

/-- From a state in `P` the program returns in `Q` or halts in `H`. -/
def Ensures (P : σ → Prop) (x : EStateM ε σ α) (Q : α → σ → Prop) (H : σ → Prop) : Prop :=
  ∀ s, P s →
    match x.run s with
    | .ok a s' => Q a s'
    | .error _ s' => H s'

section triples
variable {P : σ → Prop} {Q : α → σ → Prop} {H : σ → Prop}

theorem Ensures.of_ok {x : EStateM ε σ α} (h : Ensures P x Q H) {s s' : σ} {a : α} (hs : P s)
    (hx : x.run s = .ok a s') : Q a s' := by
  have h' := h s hs
  rw [hx] at h'
  exact h'

theorem Ensures.of_error {x : EStateM ε σ α} (h : Ensures P x Q H) {s s' : σ} {e : ε} (hs : P s)
    (hx : x.run s = .error e s') : H s' := by
  have h' := h s hs
  rw [hx] at h'
  exact h'

theorem Ensures.weaken {P' : σ → Prop} {Q' : α → σ → Prop} {H' : σ → Prop} {x : EStateM ε σ α}
    (h : Ensures P x Q H) (hP : ∀ s, P' s → P s) (hQ : ∀ a s, Q a s → Q' a s)
    (hH : ∀ s, H s → H' s) : Ensures P' x Q' H' := by
  intro s hs
  have h' := h s (hP s hs)
  cases hx : x.run s with
  | ok a s' => rw [hx] at h'; exact hQ a s' h'
  | error e s' => rw [hx] at h'; exact hH s' h'

theorem ensures_pure {a : α} (h : ∀ s, P s → Q a s) :
    Ensures P (pure a : EStateM ε σ α) Q H := fun s hs => h s hs

theorem ensures_modify {f : σ → σ} {Q : PUnit → σ → Prop} (h : ∀ s, P s → Q ⟨⟩ (f s)) :
    Ensures P (modify f : EStateM ε σ PUnit) Q H := fun s hs => h s hs

theorem ensures_throw {e : ε} (h : ∀ s, P s → H s) :
    Ensures P (throw e : EStateM ε σ α) Q H := fun s hs => h s hs

theorem ensures_bind {x : EStateM ε σ β} {f : β → EStateM ε σ α} {R : β → σ → Prop}
    (hx : Ensures P x R H) (hf : ∀ b, Ensures (R b) (f b) Q H) : Ensures P (x >>= f) Q H := by
  intro s hs
  have h := hx s hs
  rw [EStateM.run_bind]
  cases hr : x.run s with
  | ok b s' => rw [hr] at h; exact hf b s' h
  | error e s' => rw [hr] at h; exact h

theorem ensures_discard {x : EStateM ε σ α} {R : σ → Prop} (h : Ensures P x (fun _ => R) H) :
    Ensures P (discard x) (fun _ => R) H := by
  intro s hs
  have h' := h s hs
  cases hx : x.run s with
  | ok a s' =>
    rw [hx] at h'
    rw [run_discard hx]
    exact h'
  | error e s' =>
    rw [hx] at h'
    rw [run_discard_of_error hx]
    exact h'

theorem ensures_get_bind {f : σ → EStateM ε σ α}
    (h : ∀ s, P s → Ensures (fun t => t = s) (f s) Q H) : Ensures P (get >>= f) Q H := by
  intro s hs
  exact h s hs s rfl

theorem ensures_ite {c : Prop} [Decidable c] {x y : EStateM ε σ α} (hx : c → Ensures P x Q H)
    (hy : ¬ c → Ensures P y Q H) : Ensures P (if c then x else y) Q H := by
  split
  · next h => exact hx h
  · next h => exact hy h

abbrev Keeps (P : σ → Prop) (x : EStateM ε σ α) : Prop :=
  Ensures P x (fun _ => P) fun _ => False

theorem Keeps.exists_ok {x : EStateM ε σ α} (h : Keeps P x) {s : σ} (hs : P s) :
    ∃ a s', x.run s = .ok a s' ∧ P s' := by
  have h' := h s hs
  cases hx : x.run s with
  | ok a s' => rw [hx] at h'; exact ⟨a, s', rfl, h'⟩
  | error e s' => rw [hx] at h'; exact h'.elim

end triples

/-- Every run of the program ends, by return or halt, in a state related to the first. -/
def Moves (R : σ → σ → Prop) (x : EStateM ε σ α) : Prop := ∀ s, R s (endState x s)

section moves
variable {R : σ → σ → Prop}

theorem moves_pure (hrefl : ∀ s, R s s) (a : α) : Moves R (pure a : EStateM ε σ α) := hrefl

theorem moves_get (hrefl : ∀ s, R s s) : Moves R (get : EStateM ε σ σ) := hrefl

theorem moves_throw (hrefl : ∀ s, R s s) (e : ε) : Moves R (throw e : EStateM ε σ α) := hrefl

theorem moves_modify {f : σ → σ} (h : ∀ s, R s (f s)) : Moves R (modify f : EStateM ε σ PUnit) := h

theorem endState_bind_moves (hrefl : ∀ s, R s s) {x : EStateM ε σ β} {f : β → EStateM ε σ α}
    (hf : ∀ b, Moves R (f b)) (s : σ) : R (endState x s) (endState (x >>= f) s) := by
  cases hr : x.run s with
  | ok b s' =>
    rw [endState_of_ok hr, endState_bind_of_ok hr]
    exact hf b s'
  | error e s' =>
    rw [endState_of_error hr, endState_bind_of_error hr]
    exact hrefl s'

theorem moves_bind (htrans : ∀ s t u, R s t → R t u → R s u) {x : EStateM ε σ β}
    {f : β → EStateM ε σ α} (hx : Moves R x) (hf : ∀ b, Moves R (f b)) : Moves R (x >>= f) := by
  intro s
  have h := hx s
  cases hr : x.run s with
  | ok b s' =>
    rw [endState_of_ok hr] at h
    rw [endState_bind_of_ok hr]
    exact htrans s s' _ h (hf b s')
  | error e s' =>
    rw [endState_of_error hr] at h
    rw [endState_bind_of_error hr]
    exact h

theorem moves_ite {c : Prop} [Decidable c] {x y : EStateM ε σ α} (hx : Moves R x) (hy : Moves R y) :
    Moves R (if c then x else y) := by
  split
  · exact hx
  · exact hy

theorem Moves.of_ok {x : EStateM ε σ α} (h : Moves R x) {s s' : σ} {a : α}
    (hx : x.run s = .ok a s') : R s s' := by
  have h' := h s
  simpa [endState, hx] using h'

theorem Moves.of_error {x : EStateM ε σ α} (h : Moves R x) {s s' : σ} {e : ε}
    (hx : x.run s = .error e s') : R s s' := by
  have h' := h s
  simpa [endState, hx] using h'

theorem Moves.mono {R' : σ → σ → Prop} {x : EStateM ε σ α} (h : Moves R x)
    (hR : ∀ s t, R s t → R' s t) : Moves R' x := fun s => hR _ _ (h s)

theorem endState_discard (x : EStateM ε σ α) (s : σ) : endState (discard x) s = endState x s := by
  cases hx : x.run s with
  | ok a t => rw [endState_of_ok hx, endState_of_ok (run_discard hx)]
  | error e t => rw [endState_of_error hx, endState_of_error (run_discard_of_error hx)]

theorem moves_discard {x : EStateM ε σ α} (h : Moves R x) : Moves R (discard x) := by
  intro s
  rw [endState_discard]
  exact h s

structure Frame (R : σ → σ → Prop) : Prop where
  refl : ∀ s, R s s
  trans : ∀ s t u, R s t → R t u → R s u

namespace Frame
variable (F : Frame R)
include F

theorem pure (a : α) : Moves R (pure a : EStateM ε σ α) := moves_pure F.refl a

theorem throw (e : ε) : Moves R (throw e : EStateM ε σ α) := moves_throw F.refl e

theorem bind {x : EStateM ε σ β} {f : β → EStateM ε σ α} (hx : Moves R x) (hf : ∀ b, Moves R (f b)) :
    Moves R (x >>= f) := moves_bind F.trans hx hf

theorem get_bind {f : σ → EStateM ε σ α} (hf : ∀ s, Moves R (f s)) : Moves R (get >>= f) :=
  F.bind (moves_get F.refl) hf

theorem forM_of_mem {f : β → EStateM ε σ PUnit} {l : List β} (hf : ∀ b ∈ l, Moves R (f b)) :
    Moves R (l.forM f) := by
  induction l with
  | nil => exact F.pure _
  | cons b l ih =>
    have hrest := fun c hc => hf c (List.mem_cons_of_mem b hc)
    exact F.bind (hf b List.mem_cons_self) fun _ => ih hrest

theorem forM {f : β → EStateM ε σ PUnit} (hf : ∀ b, Moves R (f b)) (l : List β) :
    Moves R (l.forM f) := F.forM_of_mem fun b _ => hf b

end Frame

end moves

/-- From `s` the program does not halt in a bad way. -/
def Avoids (bad : ε → Prop) (x : EStateM ε σ α) (s : σ) : Prop :=
  ∀ e s', x.run s = .error e s' → ¬ bad e

def Never (bad : ε → Prop) (x : EStateM ε σ α) : Prop := ∀ s, Avoids bad x s

section avoids
variable {bad : ε → Prop}

theorem avoids_of_ok {x : EStateM ε σ α} {s s' : σ} {a : α} (h : x.run s = .ok a s') :
    Avoids bad x s := by
  intro e t ht
  rw [h] at ht
  cases ht

theorem avoids_iff_of_error {x : EStateM ε σ α} {s s' : σ} {e : ε} (h : x.run s = .error e s') :
    Avoids bad x s ↔ ¬ bad e := by
  constructor
  · exact fun hx => hx e s' h
  · intro he e' t ht
    rw [h] at ht
    cases ht
    exact he

theorem avoids_bind_iff_of_ok {x : EStateM ε σ β} {f : β → EStateM ε σ α} {s s' : σ} {b : β}
    (h : x.run s = .ok b s') : Avoids bad (x >>= f) s ↔ Avoids bad (f b) s' := by
  unfold Avoids
  rw [run_bind_of_ok h]

instance [DecidablePred bad] (x : EStateM ε σ α) (s : σ) : Decidable (Avoids bad x s) :=
  match h : x.run s with
  | .ok _ _ => .isTrue (avoids_of_ok h)
  | .error e _ => decidable_of_iff (¬ bad e) (avoids_iff_of_error h).symm

theorem never_pure (a : α) : Never bad (pure a : EStateM ε σ α) := fun _ => avoids_of_ok rfl

theorem never_get : Never bad (get : EStateM ε σ σ) := fun _ => avoids_of_ok rfl

theorem never_modify (f : σ → σ) : Never bad (modify f : EStateM ε σ PUnit) := fun _ =>
  avoids_of_ok rfl

theorem never_throw {e : ε} (h : ¬ bad e) : Never bad (throw e : EStateM ε σ α) := fun s =>
  (avoids_iff_of_error (run_throw_any e s)).mpr h

theorem never_bind {x : EStateM ε σ β} {f : β → EStateM ε σ α} (hx : Never bad x)
    (hf : ∀ b, Never bad (f b)) : Never bad (x >>= f) := by
  intro s e s' h
  cases hr : x.run s with
  | ok b t =>
    rw [run_bind_of_ok hr] at h
    exact hf b t e s' h
  | error e' t =>
    rw [run_bind_of_error hr] at h
    cases h
    exact hx s e s' hr

theorem never_ite {c : Prop} [Decidable c] {x y : EStateM ε σ α} (hx : Never bad x)
    (hy : Never bad y) : Never bad (if c then x else y) := by
  split
  · exact hx
  · exact hy

theorem never_discard {x : EStateM ε σ α} (hx : Never bad x) : Never bad (discard x) := by
  intro s e s' h
  cases hr : x.run s with
  | ok a t =>
    rw [run_discard hr] at h
    cases h
  | error e' t =>
    rw [run_discard_of_error hr] at h
    cases h
    exact hx s e s' hr

end avoids

end Xdccget.HaltingPrograms
