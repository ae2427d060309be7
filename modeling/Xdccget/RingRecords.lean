import Mathlib.Data.List.Rotate
import Mathlib.Tactic

set_option autoImplicit false

/-!
# Rings

An array that is written round and round. Read from the slot that is written next, it
holds what was written last, the oldest entry first.
-/
namespace Xdccget.RingRecords

variable {α : Type}

structure SlotRing (α : Type) where
  slots : List α
  index : ℕ
  index_lt : index < slots.length

def SlotRing.record (r : SlotRing α) (a : α) : SlotRing α where
  slots := r.slots.set r.index a
  index := (r.index + 1) % r.slots.length
  index_lt := by
    rw [List.length_set]
    exact Nat.mod_lt _ (Nat.zero_lt_of_lt r.index_lt)

def SlotRing.recordAll (r : SlotRing α) (as : List α) : SlotRing α := as.foldl SlotRing.record r

def SlotRing.inOrder (r : SlotRing α) : List α := r.slots.rotate r.index

@[simp] theorem length_inOrder (r : SlotRing α) : r.inOrder.length = r.slots.length :=
  List.length_rotate _ _

@[simp] theorem length_record (r : SlotRing α) (a : α) :
    (r.record a).slots.length = r.slots.length := List.length_set

theorem rotate_set {l : List α} {i : ℕ} (h : i < l.length) (a : α) :
    (l.set i a).rotate ((i + 1) % l.length) = (l.rotate i).tail ++ [a] := by
  have hlen : (l.set i a).length = l.length := List.length_set
  have hmod := List.rotate_mod (l.set i a) (i + 1)
  rw [hlen] at hmod
  rw [hmod, List.rotate_eq_drop_append_take (by omega), List.rotate_eq_drop_append_take (by omega),
    List.drop_set_of_lt (by omega), List.drop_eq_getElem_cons h, List.cons_append, List.tail_cons,
    List.append_assoc]
  congr 1
  rw [List.take_succ_eq_append_getElem (by omega), List.take_set_of_le (le_refl i),
    List.getElem_set_self]

theorem inOrder_record (r : SlotRing α) (a : α) : (r.record a).inOrder = r.inOrder.tail ++ [a] :=
  rotate_set r.index_lt a

theorem length_recordAll (r : SlotRing α) (as : List α) :
    (r.recordAll as).slots.length = r.slots.length := by
  induction as generalizing r with
  | nil => rfl
  | cons a as ih => exact (ih (r.record a)).trans (length_record r a)

theorem index_recordAll (r : SlotRing α) (as : List α) :
    (r.recordAll as).index = (r.index + as.length) % r.slots.length := by
  induction as generalizing r with
  | nil => exact (Nat.mod_eq_of_lt r.index_lt).symm
  | cons a as ih =>
    change ((r.record a).recordAll as).index = _
    rw [ih, length_record, List.length_cons]
    change ((r.index + 1) % r.slots.length + as.length) % r.slots.length = _
    rw [Nat.mod_add_mod]
    congr 1
    omega

theorem inOrder_recordAll (r : SlotRing α) (as : List α) :
    (r.recordAll as).inOrder = (r.inOrder ++ as).drop as.length := by
  induction as generalizing r with
  | nil => simp [SlotRing.recordAll]
  | cons a as ih =>
    change ((r.record a).recordAll as).inOrder = _
    have hpos : r.inOrder ≠ [] := by
      intro hnil
      have hlen := length_inOrder r
      have hlt := r.index_lt
      rw [hnil, List.length_nil] at hlen
      omega
    obtain ⟨oldest, rest, heq⟩ := List.exists_cons_of_ne_nil hpos
    rw [ih, inOrder_record, heq, List.tail_cons, List.append_assoc, List.singleton_append,
      List.length_cons, List.cons_append, List.drop_succ_cons]

theorem inOrder_of_full (r : SlotRing α) {as : List α} (h : r.slots.length ≤ as.length) :
    (r.recordAll as).inOrder = as.drop (as.length - r.slots.length) := by
  have hlen := length_inOrder r
  rw [inOrder_recordAll, List.drop_append, List.drop_eq_nil_of_le (by omega), hlen, List.nil_append]

end Xdccget.RingRecords
