import Mathlib.Data.List.AList
import Mathlib.Tactic

set_option autoImplicit false

/-!
# Singly linked lists on a heap

Nodes at addresses, each with an item and the address of the next one. A chain is
what a walk along these addresses meets; it is shown what is left of it when one
node is put in front, written to, or unlinked.
-/
namespace Xdccget.LinkedNodes

structure Node (α : Type) where
  item : α
  next : Option ℕ
  deriving DecidableEq, Repr

abbrev Heap (α : Type) := AList fun _ : ℕ => Node α

/-- A walk from `q` meets these addresses and items and comes to `r`. -/
inductive Segment {α : Type} (h : Heap α) : Option ℕ → List (ℕ × α) → Option ℕ → Prop where
  | nil (q : Option ℕ) : Segment h q [] q
  | cons {p : ℕ} {a : α} {next r : Option ℕ} {xs : List (ℕ × α)}
      (node : h.lookup p = some ⟨a, next⟩) (rest : Segment h next xs r) :
      Segment h (some p) ((p, a) :: xs) r

abbrev Chain {α : Type} (h : Heap α) (first : Option ℕ) (xs : List (ℕ × α)) : Prop :=
  Segment h first xs none

variable {α : Type} {h h' : Heap α} {q r : Option ℕ} {xs ys : List (ℕ × α)}

theorem Segment.frame (hs : Segment h q xs r)
    (hsame : ∀ x ∈ xs, h'.lookup x.1 = h.lookup x.1) : Segment h' q xs r := by
  induction hs with
  | nil q => exact .nil q
  | cons node rest ih =>
    refine .cons ?_ (ih fun x hx => hsame x (by simp [hx]))
    rw [hsame _ List.mem_cons_self, node]

theorem Segment.append {m : Option ℕ} (hx : Segment h q xs m) (hy : Segment h m ys r) :
    Segment h q (xs ++ ys) r := by
  induction hx with
  | nil q => exact hy
  | cons node rest ih => exact .cons node (ih hy)

theorem Segment.split (hs : Segment h q (xs ++ ys) r) :
    ∃ m, Segment h q xs m ∧ Segment h m ys r := by
  induction xs generalizing q with
  | nil => exact ⟨q, .nil q, hs⟩
  | cons x xs ih =>
    cases hs with
    | cons node rest =>
      obtain ⟨m, hx, hy⟩ := ih rest
      exact ⟨m, .cons node hx, hy⟩

theorem Segment.lookup_of_mem (hs : Segment h q xs r) {x : ℕ × α} (hx : x ∈ xs) :
    ∃ next, h.lookup x.1 = some ⟨x.2, next⟩ := by
  induction hs with
  | nil q => cases hx
  | cons node rest ih =>
    rcases List.mem_cons.mp hx with rfl | hx
    · exact ⟨_, node⟩
    · exact ih hx

theorem Segment.mem_heap (hs : Segment h q xs r) {x : ℕ × α} (hx : x ∈ xs) : x.1 ∈ h := by
  obtain ⟨next, hnext⟩ := hs.lookup_of_mem hx
  rw [← AList.lookup_isSome, hnext]
  rfl

section chains

theorem Segment.unique (hx : Chain h q xs) (hy : Chain h q ys) : xs = ys := by
  induction xs generalizing q ys with
  | nil =>
    cases hx with
    | nil =>
      cases hy with
      | nil => rfl
  | cons x xs ih =>
    cases hx with
    | cons node rest =>
      cases hy with
      | cons node' rest' =>
        rw [node] at node'
        cases node'
        rw [ih rest rest']

theorem Segment.nodup (hs : Chain h q xs) : (xs.map Prod.fst).Nodup := by
  induction xs generalizing q with
  | nil => exact List.nodup_nil
  | cons x xs ih =>
    cases hs with
    | @cons p a next _ _ node rest =>
      rw [List.map_cons, List.nodup_cons]
      refine ⟨fun hmem => ?_, ih rest⟩
      obtain ⟨⟨p', b⟩, hy, heq⟩ := List.mem_map.mp hmem
      cases heq
      -- the walk would start again at `p`, and could not have got shorter
      obtain ⟨as, bs, rfl⟩ := List.append_of_mem hy
      obtain ⟨m, -, hagain⟩ := rest.split
      have hstart : m = some p := by
        cases hagain with
        | cons _ _ => rfl
      subst hstart
      have hlength := congrArg List.length (hagain.unique (.cons node rest))
      simp at hlength
      omega

theorem Segment.length_le (hs : Chain h q xs) : xs.length ≤ h.keys.length := by
  have hsub : xs.map Prod.fst ⊆ h.keys := by
    intro p hp
    obtain ⟨x, hx, rfl⟩ := List.mem_map.mp hp
    exact AList.mem_keys.mp (hs.mem_heap hx)
  have hle := (hs.nodup.subperm hsub).length_le
  simpa using hle

end chains

section changes

theorem Segment.push (hs : Chain h q xs) {p : ℕ} (hp : p ∉ h) (a : α) :
    Chain (h.insert p ⟨a, q⟩) (some p) ((p, a) :: xs) := by
  refine .cons (AList.lookup_insert h) (hs.frame fun x hx => ?_)
  refine AList.lookup_insert_ne fun hxp => hp ?_
  rw [← hxp]
  exact hs.mem_heap hx

/-- The items after a write to the node at `p`. -/
def writeItem (p : ℕ) (f : α → α) (xs : List (ℕ × α)) : List (ℕ × α) :=
  xs.map fun x => if x.1 = p then (x.1, f x.2) else x

theorem Segment.write (hs : Segment h q xs r) {p : ℕ} {a : α} {next : Option ℕ}
    (hp : h.lookup p = some ⟨a, next⟩) (f : α → α) :
    Segment (h.insert p ⟨f a, next⟩) q (writeItem p f xs) r := by
  induction hs with
  | nil q => exact .nil q
  | @cons p' b next' r xs node rest ih =>
    by_cases heq : p' = p
    · subst heq
      rw [hp] at node
      cases node
      simp only [writeItem, List.map_cons, if_true]
      exact .cons (AList.lookup_insert h) ih
    · simp only [writeItem, List.map_cons, if_neg heq]
      exact .cons ((AList.lookup_insert_ne heq).trans node) ih

@[simp] theorem writeItem_length (p : ℕ) (f : α → α) (xs : List (ℕ × α)) :
    (writeItem p f xs).length = xs.length := List.length_map _

theorem writeItem_of_notMem {p : ℕ} (hp : p ∉ xs.map Prod.fst) (f : α → α) :
    writeItem p f xs = xs := by
  refine (List.map_congr_left fun x hx => if_neg fun heq => hp ?_).trans (List.map_id xs)
  rw [← heq]
  exact List.mem_map_of_mem hx

theorem Segment.write_at {x : ℕ × α} {next : Option ℕ} (hs : Chain h q (xs ++ x :: ys))
    (hx : h.lookup x.1 = some ⟨x.2, next⟩) (f : α → α) :
    Chain (h.insert x.1 ⟨f x.2, next⟩) q (xs ++ (x.1, f x.2) :: ys) := by
  have hnodup := hs.nodup
  simp only [List.map_append, List.map_cons, List.nodup_append, List.nodup_cons, List.mem_cons] at hnodup
  obtain ⟨-, ⟨hys, -⟩, hdisjoint⟩ := hnodup
  have hxs : x.1 ∉ xs.map Prod.fst := fun hmem => hdisjoint _ hmem _ (Or.inl rfl) rfl
  have hwritten := hs.write hx f
  rw [writeItem, List.map_append, List.map_cons, if_pos rfl] at hwritten
  change Chain _ q (writeItem x.1 f xs ++ (x.1, f x.2) :: writeItem x.1 f ys) at hwritten
  rwa [writeItem_of_notMem hxs, writeItem_of_notMem hys] at hwritten

theorem Segment.first_eq (hs : Chain h q xs) : q = xs.head?.map Prod.fst := by
  cases hs with
  | nil => rfl
  | cons node rest => rfl

theorem Segment.first_ne {x y : ℕ × α} (hs : Chain h q (xs ++ x :: y :: ys)) : q ≠ some y.1 := by
  have hnodup := hs.nodup
  rw [hs.first_eq]
  intro hfirst
  cases xs with
  | nil =>
    simp only [List.nil_append, List.map_cons, List.nodup_cons, List.mem_cons, not_or] at hnodup
    exact hnodup.1.1 (by simpa using hfirst)
  | cons z xs =>
    simp only [List.cons_append, List.map_cons, List.map_append, List.nodup_cons, List.mem_append,
      List.mem_cons, not_or] at hnodup
    exact hnodup.1.2.2.1 (by simpa using hfirst)

theorem Segment.erase (hs : Segment h q xs r) {p : ℕ} (hp : p ∉ xs.map Prod.fst) :
    Segment (h.erase p) q xs r := by
  refine hs.frame fun x hx => AList.lookup_erase_ne fun heq => hp ?_
  rw [← heq]
  exact List.mem_map_of_mem hx

theorem Segment.unlink_first {x : ℕ × α} {next : Option ℕ} (hs : Chain h q (x :: xs))
    (hx : h.lookup x.1 = some ⟨x.2, next⟩) : Chain (h.erase x.1) next xs := by
  have hnodup := hs.nodup
  rw [List.map_cons, List.nodup_cons] at hnodup
  cases hs with
  | cons node rest =>
    rw [node] at hx
    cases hx
    exact rest.erase hnodup.1

theorem Segment.unlink {x y : ℕ × α} {next : Option ℕ}
    (hs : Chain h q (xs ++ x :: y :: ys)) (hy : h.lookup y.1 = some ⟨y.2, next⟩) :
    Chain ((h.insert x.1 ⟨x.2, next⟩).erase y.1) q (xs ++ x :: ys) := by
  have hnodup := hs.nodup
  simp only [List.map_append, List.map_cons, List.nodup_append, List.nodup_cons, List.mem_cons,
    not_or] at hnodup
  obtain ⟨-, ⟨⟨hxy, hxys⟩, hyys, -⟩, hdisjoint⟩ := hnodup
  obtain ⟨m, hfirst, hrest⟩ := hs.split
  cases hrest with
  | @cons s a _ _ _ _ hrest =>
    cases hrest with
    | @cons p b next' _ _ node hlast =>
      rw [node] at hy
      cases hy
      have hkeep : ∀ p', p' ≠ p → p' ≠ s →
          ((h.insert s ⟨a, next⟩).erase p).lookup p' = h.lookup p' := fun p' h₁ h₂ => by
        rw [AList.lookup_erase_ne h₁, AList.lookup_insert_ne h₂]
      refine (hfirst.frame fun z hz => ?_).append (.cons ?_ (hlast.frame fun z hz => ?_))
      · have hmem : z.1 ∈ xs.map Prod.fst := List.mem_map_of_mem hz
        exact hkeep z.1 (hdisjoint z.1 hmem p (by simp)) (hdisjoint z.1 hmem _ (by simp))
      · rw [AList.lookup_erase_ne hxy, AList.lookup_insert]
      · have hmem : z.1 ∈ ys.map Prod.fst := List.mem_map_of_mem hz
        refine hkeep z.1 (fun heq => hyys ?_) fun heq => hxys ?_
        · rw [← heq]
          exact hmem
        · rw [← heq]
          exact hmem

end changes

def fresh (h : Heap α) (choice : ℕ) : ℕ :=
  if choice ∈ h then h.keys.sum + 1 else choice

theorem fresh_notMem (h : Heap α) (choice : ℕ) : fresh h choice ∉ h := by
  unfold fresh
  split
  · intro hmem
    have hle := List.le_sum_of_mem (AList.mem_keys.mp hmem)
    omega
  · next hfree => exact hfree

end Xdccget.LinkedNodes
