import Mathlib.Algebra.Group.Nat.Defs
import Mathlib.Data.Nat.Cast.Defs
import Mathlib.Data.List.Basic
import Mathlib.Tactic

set_option autoImplicit false

/-!
# Sized writers

Code that is run twice over the same text. Without a place to write to it counts what it
would write, and with one it writes.
-/
namespace Xdccget.SizedWriters

variable {α C σ τ : Type} [AddMonoidWithOne C]

/-- The place, as far as it is filled, and the counter, which may be a machine integer. -/
structure Dest (α C : Type) where
  written : Option (List α)
  count : C
deriving DecidableEq

def Dest.put (dest : Dest α C) (text : List α) : Dest α C :=
  match dest.written with
  | some out => { dest with written := some (out ++ text) }
  | none => { dest with count := dest.count + text.length }

@[simp] theorem Dest.put_nil (dest : Dest α C) : dest.put [] = dest := by
  obtain ⟨written, count⟩ := dest
  cases written with
  | none => simp [Dest.put]
  | some out => simp [Dest.put]

@[simp] theorem Dest.put_put (dest : Dest α C) (a b : List α) :
    (dest.put a).put b = dest.put (a ++ b) := by
  obtain ⟨written, count⟩ := dest
  cases written with
  | none => simp [Dest.put, add_assoc]
  | some out => simp [Dest.put]

abbrev Writer (σ α C : Type) := σ → Dest α C → σ × Dest α C

/-- State and text depend on the state alone, never on whether there is a place. -/
def Writes (w : Writer σ α C) (next : σ → σ) (text : σ → List α) : Prop :=
  ∀ s dest, w s dest = (next s, dest.put (text s))

theorem Writes.counted {w : Writer σ α C} {next : σ → σ} {text : σ → List α}
    (h : Writes w next text) (s : σ) (c : C) :
    w s ⟨none, c⟩ = (next s, ⟨none, c + (text s).length⟩) := h s ⟨none, c⟩

theorem Writes.filled {w : Writer σ α C} {next : σ → σ} {text : σ → List α}
    (h : Writes w next text) (s : σ) (out : List α) (c : C) :
    w s ⟨some out, c⟩ = (next s, ⟨some (out ++ text s), c⟩) := h s ⟨some out, c⟩

def Writer.comp (w₁ w₂ : Writer σ α C) : Writer σ α C := fun s dest =>
  let r := w₁ s dest
  w₂ r.1 r.2

theorem Writes.comp {w₁ w₂ : Writer σ α C} {next₁ next₂ : σ → σ} {text₁ text₂ : σ → List α}
    (h₁ : Writes w₁ next₁ text₁) (h₂ : Writes w₂ next₂ text₂) :
    Writes (w₁.comp w₂) (fun s => next₂ (next₁ s)) fun s => text₁ s ++ text₂ (next₁ s) := by
  intro s dest
  rw [Writer.comp, h₁ s dest]
  dsimp only
  rw [h₂, Dest.put_put]

def nextAll (next : τ → σ → σ) : List τ → σ → σ
  | [], s => s
  | t :: ts, s => nextAll next ts (next t s)

def textAll (next : τ → σ → σ) (text : τ → σ → List α) : List τ → σ → List α
  | [], _ => []
  | t :: ts, s => text t s ++ textAll next text ts (next t s)

section
variable {next : τ → σ → σ} {text : τ → σ → List α}

theorem nextAll_append (ts us : List τ) (s : σ) :
    nextAll next (ts ++ us) s = nextAll next us (nextAll next ts s) := by
  induction ts generalizing s with
  | nil => rfl
  | cons t ts ih => exact ih (next t s)

theorem textAll_append (ts us : List τ) (s : σ) :
    textAll next text (ts ++ us) s =
      textAll next text ts s ++ textAll next text us (nextAll next ts s) := by
  induction ts generalizing s with
  | nil => rfl
  | cons t ts ih =>
    rw [List.cons_append, textAll, textAll, ih, List.append_assoc]
    rfl

def WritesAll (next : τ → σ → σ) (text : τ → σ → List α) (w : Writer σ α C) (ts : List τ) : Prop :=
  Writes w (nextAll next ts) (textAll next text ts)

theorem writesAll_nil : WritesAll next text (fun s dest => (s, dest) : Writer σ α C) [] := by
  intro s dest
  rw [textAll, Dest.put_nil]
  rfl

theorem WritesAll.single {w : Writer σ α C} {t : τ} (h : Writes w (next t) (text t)) :
    WritesAll next text w [t] := by
  intro s dest
  rw [h s dest, textAll, textAll, List.append_nil]
  rfl

theorem WritesAll.append {w₁ w₂ : Writer σ α C} {ts us : List τ} (h₁ : WritesAll next text w₁ ts)
    (h₂ : WritesAll next text w₂ us) : WritesAll next text (w₁.comp w₂) (ts ++ us) := by
  intro s dest
  rw [Writes.comp h₁ h₂ s dest, nextAll_append, textAll_append]

end

end Xdccget.SizedWriters
