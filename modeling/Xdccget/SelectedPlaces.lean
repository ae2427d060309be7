import Mathlib.Data.List.Basic
import Mathlib.Data.List.Nodup
import Mathlib.Data.Set.Card
import Mathlib.Tactic

set_option autoImplicit false

/-!
# Selected places

The entries of a list at the places that satisfy a predicate, in order.
-/
namespace Xdccget.SelectedPlaces

variable {α : Type} {P Q : ℕ → Prop} {l out : List α}

def Selects (P : ℕ → Prop) (l out : List α) : Prop :=
  ∃ places : List ℕ, places.Pairwise (· < ·) ∧ (∀ i, i ∈ places ↔ i < l.length ∧ P i) ∧
    out.map some = places.map (l[·]?)

theorem selects_nil (P : ℕ → Prop) : Selects P ([] : List α) [] :=
  ⟨[], .nil, fun i => by simp, rfl⟩

theorem Selects.congr (h : Selects P l out) (hPQ : ∀ i, P i ↔ Q i) : Selects Q l out := by
  obtain ⟨places, hsorted, hmem, hout⟩ := h
  exact ⟨places, hsorted, fun i => by rw [hmem, hPQ], hout⟩

theorem pairwise_map_succ {places : List ℕ} (h : places.Pairwise (· < ·)) :
    (places.map Nat.succ).Pairwise (· < ·) :=
  List.pairwise_map.mpr (h.imp fun hlt => Nat.succ_lt_succ hlt)

theorem map_succ_getElem? (a : α) (l : List α) (places : List ℕ) :
    (places.map Nat.succ).map ((a :: l)[·]?) = places.map (l[·]?) := by
  rw [List.map_map]
  rfl

theorem mem_map_succ {places : List ℕ} (a : α)
    (h : ∀ i, i ∈ places ↔ i < l.length ∧ P (i + 1)) (i : ℕ) :
    i ∈ places.map Nat.succ ↔ i ≠ 0 ∧ i < (a :: l).length ∧ P i := by
  rw [List.mem_map, List.length_cons]
  constructor
  · rintro ⟨j, hj, rfl⟩
    obtain ⟨hlt, hP⟩ := (h j).mp hj
    exact ⟨Nat.succ_ne_zero j, Nat.succ_lt_succ hlt, hP⟩
  · rintro ⟨hi, hlt, hP⟩
    cases i with
    | zero => exact absurd rfl hi
    | succ j => exact ⟨j, (h j).mpr ⟨by omega, hP⟩, rfl⟩

theorem Selects.drop {a : α} (h0 : ¬ P 0) (h : Selects (fun i => P (i + 1)) l out) :
    Selects P (a :: l) out := by
  obtain ⟨places, hsorted, hmem, hout⟩ := h
  refine ⟨places.map Nat.succ, pairwise_map_succ hsorted, ?_, ?_⟩
  · intro i
    rw [mem_map_succ a hmem]
    constructor
    · exact fun hi => hi.2
    · rintro ⟨hlt, hP⟩
      exact ⟨fun hi => h0 (hi ▸ hP), hlt, hP⟩
  · rw [map_succ_getElem?, hout]

theorem Selects.keep {a : α} (h0 : P 0) (h : Selects (fun i => P (i + 1)) l out) :
    Selects P (a :: l) (a :: out) := by
  obtain ⟨places, hsorted, hmem, hout⟩ := h
  refine ⟨0 :: places.map Nat.succ, ?_, ?_, ?_⟩
  · refine List.pairwise_cons.mpr ⟨?_, pairwise_map_succ hsorted⟩
    intro i hi
    obtain ⟨j, -, rfl⟩ := List.mem_map.mp hi
    exact Nat.succ_pos j
  · intro i
    rw [List.mem_cons, mem_map_succ a hmem]
    by_cases hi : i = 0
    · subst hi
      exact iff_of_true (.inl rfl) ⟨Nat.succ_pos _, h0⟩
    · simp [hi]
  · rw [List.map_cons, List.map_cons, map_succ_getElem?, hout]
    rfl

theorem Selects.forall_mem {R : α → Prop} (h : Selects P l out)
    (hR : ∀ i a, P i → l[i]? = some a → R a) : ∀ a ∈ out, R a := by
  obtain ⟨places, -, hmem, hout⟩ := h
  intro a ha
  have hsome : some a ∈ places.map (l[·]?) := by
    rw [← hout]
    exact List.mem_map_of_mem ha
  obtain ⟨i, hi, hget⟩ := List.mem_map.mp hsome
  exact hR i a ((hmem i).mp hi).2 hget

theorem Selects.length_eq (h : Selects P l out) :
    out.length = {i | i < l.length ∧ P i}.ncard := by
  obtain ⟨places, hsorted, hmem, hout⟩ := h
  have hset : {i | i < l.length ∧ P i} = places.toFinset := by
    ext i
    rw [List.coe_toFinset]
    exact (hmem i).symm
  have hlen : out.length = places.length := by
    simpa only [List.length_map] using congrArg List.length hout
  rw [hset, Set.ncard_coe_finset, List.toFinset_card_of_nodup (hsorted.imp Nat.ne_of_lt), hlen]

end Xdccget.SelectedPlaces
