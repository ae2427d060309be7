import Mathlib.Data.List.Infix
import Mathlib.Tactic

set_option autoImplicit false

/-!
# Lines that end with a pair of symbols

A stream is cut behind each first occurrence of the pair. The cut is unique, and
what has been cut already does not change when more arrives.
-/
namespace Xdccget.PairFraming

variable {α : Type} {c l : α}

def HasPair (c l : α) (s : List α) : Prop := [c, l] <:+: s

def Line (c l : α) (s : List α) : Prop := ∃ body, s = body ++ [c, l] ∧ ¬ HasPair c l (body ++ [c])

/-- The stream is these lines and a rest in which the pair has not come yet. -/
structure Framed (c l : α) (stream : List α) (lines : List (List α)) (rest : List α) : Prop where
  split : stream = lines.flatten ++ rest
  lines_ok : ∀ s ∈ lines, Line c l s
  rest_ok : ¬ HasPair c l rest

theorem hasPair_iff {s : List α} :
    HasPair c l s ↔ ∃ j, s[j]? = some c ∧ s[j + 1]? = some l := by
  constructor
  · rintro ⟨a, b, rfl⟩
    refine ⟨a.length, ?_, ?_⟩
    · simp
    · rw [List.append_assoc, List.getElem?_append_right (Nat.le_succ _)]
      simp
  · rintro ⟨j, hc, hl⟩
    obtain ⟨hj, hc⟩ := List.getElem?_eq_some_iff.mp hc
    obtain ⟨hj', hl⟩ := List.getElem?_eq_some_iff.mp hl
    refine ⟨s.take j, s.drop (j + 2), ?_⟩
    have hsplit : s.drop j = c :: l :: s.drop (j + 2) := by
      rw [List.drop_eq_getElem_cons hj, List.drop_eq_getElem_cons hj', hc, hl]
    rw [List.append_assoc]
    change s.take j ++ c :: l :: s.drop (j + 2) = s
    rw [← hsplit, List.take_append_drop]

theorem not_hasPair_nil : ¬ HasPair c l [] := by
  rw [hasPair_iff]
  simp

theorem HasPair.mono {s t : List α} (h : HasPair c l s) (hst : s <:+: t) : HasPair c l t :=
  h.trans hst

theorem framed_nil : Framed c l [] [] [] where
  split := rfl
  lines_ok := fun _ hs => absurd hs List.not_mem_nil
  rest_ok := not_hasPair_nil

theorem framed_of_not_hasPair {s : List α} (h : ¬ HasPair c l s) : Framed c l s [] s where
  split := rfl
  lines_ok := fun _ hs => absurd hs List.not_mem_nil
  rest_ok := h

theorem Framed.cons {x s : List α} {lines : List (List α)} {rest : List α} (hx : Line c l x)
    (h : Framed c l s lines rest) : Framed c l (x ++ s) (x :: lines) rest where
  split := by rw [h.split, List.flatten_cons, List.append_assoc]
  lines_ok := List.forall_mem_cons.mpr ⟨hx, h.lines_ok⟩
  rest_ok := h.rest_ok

theorem Framed.append {s t : List α} {lines lines' : List (List α)} {rest rest' : List α}
    (h : Framed c l s lines rest) (h' : Framed c l (rest ++ t) lines' rest') :
    Framed c l (s ++ t) (lines ++ lines') rest' where
  split := by
    rw [h.split, List.append_assoc, h'.split, List.flatten_append, List.append_assoc]
  lines_ok := by
    intro x hx
    rcases List.mem_append.mp hx with hx | hx
    · exact h.lines_ok x hx
    · exact h'.lines_ok x hx
  rest_ok := h'.rest_ok

theorem Line.hasPair {x : List α} (h : Line c l x) : HasPair c l x := by
  obtain ⟨body, rfl, -⟩ := h
  exact List.suffix_append body [c, l] |>.isInfix

theorem Line.two_le {x : List α} (h : Line c l x) : 2 ≤ x.length := by
  obtain ⟨body, rfl, -⟩ := h
  simp

theorem Line.eq_of_isPrefix {x y : List α} (hx : Line c l x) (hy : Line c l y) (h : x <+: y) :
    x = y := by
  obtain ⟨body, rfl, hbody⟩ := hy
  by_contra hne
  have hlt : x.length < (body ++ [c, l]).length := by
    refine lt_of_le_of_ne h.length_le fun hlen => hne ?_
    exact h.eq_of_length hlen
  have hsplit : body ++ [c, l] = (body ++ [c]) ++ [l] := by simp
  rw [hsplit] at h hlt
  have hshort : x <+: body ++ [c] := by
    refine List.prefix_of_prefix_length_le h (List.prefix_append _ _) ?_
    simp only [List.length_append, List.length_singleton] at hlt ⊢
    omega
  exact hbody (hx.hasPair.mono hshort.isInfix)

theorem Line.not_isPrefix {x s : List α} (hx : Line c l x) (hs : ¬ HasPair c l s) : ¬ x <+: s :=
  fun h => hs (hx.hasPair.mono h.isInfix)

theorem Framed.tail {x s : List α} {lines : List (List α)} {rest : List α} (hx : Line c l x)
    (h : Framed c l (x ++ s) lines rest) : ∃ lines', lines = x :: lines' ∧ Framed c l s lines' rest := by
  have hprefix : x <+: x ++ s := List.prefix_append x s
  have hsplit := h.split
  cases lines with
  | nil =>
    rw [List.flatten_nil, List.nil_append] at hsplit
    exact absurd (hsplit ▸ hprefix) (hx.not_isPrefix h.rest_ok)
  | cons y lines' =>
    have hy : Line c l y := h.lines_ok y List.mem_cons_self
    rw [List.flatten_cons, List.append_assoc] at hsplit
    obtain rfl : x = y := by
      have hy' : y <+: x ++ s := hsplit ▸ List.prefix_append y _
      rcases List.prefix_or_prefix_of_prefix hprefix hy' with hxy | hyx
      · exact hx.eq_of_isPrefix hy hxy
      · exact (hy.eq_of_isPrefix hx hyx).symm
    refine ⟨lines', rfl, List.append_cancel_left hsplit, ?_, h.rest_ok⟩
    intro z hz
    exact h.lines_ok z (List.mem_cons_of_mem x hz)

theorem Framed.tails {done : List (List α)} {s : List α} {lines : List (List α)} {rest : List α}
    (hdone : ∀ x ∈ done, Line c l x) (h : Framed c l (done.flatten ++ s) lines rest) :
    ∃ lines', lines = done ++ lines' ∧ Framed c l s lines' rest := by
  induction done generalizing lines with
  | nil => exact ⟨lines, rfl, h⟩
  | cons x done ih =>
    rw [List.flatten_cons, List.append_assoc] at h
    obtain ⟨lines₁, rfl, hframed⟩ := h.tail (hdone x List.mem_cons_self)
    obtain ⟨lines', rfl, hrest⟩ := ih (fun y hy => hdone y (List.mem_cons_of_mem x hy)) hframed
    exact ⟨lines', rfl, hrest⟩

theorem Framed.unique {s : List α} {lines lines' : List (List α)} {rest rest' : List α}
    (h : Framed c l s lines rest) (h' : Framed c l s lines' rest') :
    lines = lines' ∧ rest = rest' := by
  have hsplit := h.split
  rw [hsplit] at h'
  obtain ⟨more, rfl, hmore⟩ := h'.tails h.lines_ok
  cases more with
  | nil => exact ⟨(List.append_nil lines).symm, hmore.split⟩
  | cons y more =>
    have hy : Line c l y := hmore.lines_ok y List.mem_cons_self
    have hprefix : y <+: rest := by
      rw [hmore.split, List.flatten_cons, List.append_assoc]
      exact List.prefix_append y _
    exact absurd hprefix (hy.not_isPrefix h.rest_ok)

/-- While lines of at most `n` symbols arrive, less than `n` of the last one are there. -/
theorem Framed.rest_short {s : List α} {done lines : List (List α)} {rest : List α} {n : ℕ}
    (h : Framed c l s done rest) (hn : 0 < n) (hlines : ∀ x ∈ lines, Line c l x ∧ x.length ≤ n)
    (hs : s <+: lines.flatten) : rest.length < n := by
  obtain ⟨more, hmore⟩ := hs
  have hall : Framed c l (done.flatten ++ (rest ++ more)) lines [] := by
    refine ⟨?_, fun x hx => (hlines x hx).1, not_hasPair_nil⟩
    rw [List.append_nil, ← hmore, h.split, List.append_assoc]
  obtain ⟨todo, rfl, htodo⟩ := hall.tails h.lines_ok
  have hsplit := htodo.split
  rw [List.append_nil] at hsplit
  cases todo with
  | nil =>
    rw [List.flatten_nil, List.append_eq_nil_iff] at hsplit
    rw [hsplit.1]
    exact hn
  | cons y todo =>
    obtain ⟨hy, hlen⟩ := hlines y (by simp)
    have hy' : y <+: rest ++ more := by
      rw [hsplit, List.flatten_cons]
      exact List.prefix_append y _
    have hrest : rest <+: y := by
      rcases List.prefix_or_prefix_of_prefix (List.prefix_append rest more) hy' with hle | hge
      · exact hle
      · exact absurd hge (hy.not_isPrefix h.rest_ok)
    have hne : rest ≠ y := fun heq => h.rest_ok (heq ▸ hy.hasPair)
    have hlt : rest.length < y.length :=
      lt_of_le_of_ne hrest.length_le fun heq => hne (hrest.eq_of_length heq)
    omega

end Xdccget.PairFraming
