import Xdccget.StepRuns

set_option autoImplicit false

/-!
# Sums that stay at zero

A sum of positive and negative steps that never goes below zero. It stays below a bound
exactly when no stretch of its steps reaches the bound.
-/
namespace Xdccget.ReflectedSums
open StepRuns

def reflect (s : ℕ) (x : ℤ) : ℕ := (s + x).toNat

theorem forall_infix_cons (x : ℤ) (xs : List ℤ) (bound : ℤ) (hbound : 0 < bound) :
    (∀ m, m <:+: x :: xs → m.sum < bound) ↔
      (∀ p, p <+: xs → x + p.sum < bound) ∧ ∀ m, m <:+: xs → m.sum < bound := by
  constructor
  · intro h
    refine ⟨fun p hp => ?_, fun m hm => h m (List.infix_cons hm)⟩
    have hcons := h (x :: p) ((List.prefix_cons_inj x).mpr hp).isInfix
    rwa [List.sum_cons] at hcons
  · rintro ⟨hfront, hinfix⟩ m hm
    rcases List.infix_cons_iff.mp hm with hm | hm
    · rcases List.prefix_cons_iff.mp hm with rfl | ⟨p, rfl, hp⟩
      · exact hbound
      · rw [List.sum_cons]
        exact hfront p hp
    · exact hinfix m hm

theorem forall_prefix_cons (x : ℤ) (xs : List ℤ) (s bound : ℤ) (hs : s < bound) :
    (∀ p, p <+: x :: xs → s + p.sum < bound) ↔ ∀ p, p <+: xs → s + x + p.sum < bound := by
  constructor
  · intro h p hp
    have hcons := h (x :: p) ((List.prefix_cons_inj x).mpr hp)
    rwa [List.sum_cons, ← add_assoc] at hcons
  · intro h p hp
    rcases List.prefix_cons_iff.mp hp with rfl | ⟨rest, rfl, hrest⟩
    · rwa [List.sum_nil, add_zero]
    · rw [List.sum_cons, ← add_assoc]
      exact h rest hrest

theorem allAlong_lt_of (bound : ℕ) {s : ℕ} (hs : s < bound) (xs : List ℤ) :
    AllAlong reflect (fun s x => (s + x : ℤ) < bound) s xs ↔
      (∀ p, p <+: xs → s + p.sum < bound) ∧ ∀ m, m <:+: xs → m.sum < (bound : ℤ) := by
  induction xs generalizing s with
  | nil =>
    refine iff_of_true trivial ⟨?_, ?_⟩
    · intro p hp
      rw [List.prefix_nil.mp hp, List.sum_nil]
      omega
    · intro m hm
      rw [List.infix_nil.mp hm, List.sum_nil]
      omega
  | cons x xs ih =>
    rw [AllAlong, forall_infix_cons x xs bound (by omega), forall_prefix_cons x xs s bound (by omega)]
    by_cases hx : (s + x : ℤ) < bound
    · have hreflect : reflect s x < bound := by
        unfold reflect
        omega
      have hstart : (reflect s x : ℤ) = s + x ∨ (reflect s x : ℤ) = 0 ∧ (s + x : ℤ) ≤ 0 := by
        unfold reflect
        omega
      rw [ih hreflect]
      constructor
      · rintro ⟨-, hfront, hinfix⟩
        refine ⟨fun p hp => ?_, fun p hp => ?_, hinfix⟩
        · have h := hfront p hp
          omega
        · have h := hfront p hp
          omega
      · rintro ⟨hfront, -, hinfix⟩
        refine ⟨hx, fun p hp => ?_, hinfix⟩
        have h := hfront p hp
        have hp' := hinfix p hp.isInfix
        omega
    · refine iff_of_false (fun h => hx h.1) fun h => hx ?_
      have hnil := h.1 [] List.nil_prefix
      rwa [List.sum_nil, add_zero] at hnil

theorem allAlong_lt_iff (bound : ℕ) (hbound : 0 < bound) (xs : List ℤ) :
    AllAlong reflect (fun s x => (s + x : ℤ) < bound) 0 xs ↔
      ∀ m, m <:+: xs → m.sum < (bound : ℤ) := by
  rw [allAlong_lt_of bound hbound]
  refine and_iff_right_of_imp fun h p hp => ?_
  have hp' := h p hp.isInfix
  omega

end Xdccget.ReflectedSums
