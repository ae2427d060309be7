import Mathlib.Data.List.Basic
import Mathlib.Tactic

set_option autoImplicit false

/-!
# Messages taken in blocks

A state is carried over the whole blocks of a message. The message may come in pieces of
any length: what does not fill a block waits at the front of a buffer.
-/
namespace Xdccget.StreamedBlocks

variable {α σ : Type}

/-- The state behind the first `k` blocks of a list. -/
def blocks (n : ℕ) (compress : σ → List α → σ) : ℕ → σ → List α → σ
  | 0, s, _ => s
  | k + 1, s, l => blocks n compress k (compress s (l.take n)) (l.drop n)

def absorbed (n : ℕ) (compress : σ → List α → σ) (s : σ) (m : List α) : σ :=
  blocks n compress (m.length / n) s m

def pending (n : ℕ) (m : List α) : List α := m.drop (n * (m.length / n))

/-- `data` copied into `buf`, from the place `pos` on. -/
def overwrite (buf : List α) (pos : ℕ) (data : List α) : List α :=
  buf.take pos ++ data ++ buf.drop (pos + data.length)

section whole
variable {n : ℕ} {compress : σ → List α → σ} (s : σ)

theorem blocks_append {k : ℕ} {a : List α} (h : n * k ≤ a.length) (b : List α) :
    blocks n compress k s (a ++ b) = blocks n compress k s a := by
  induction k generalizing s a with
  | zero => rfl
  | succ k ih =>
    rw [Nat.mul_succ] at h
    have hn : n ≤ a.length := by omega
    rw [blocks, blocks, List.take_append_of_le_length hn, List.drop_append_of_le_length hn, ih]
    rw [List.length_drop]
    omega

theorem blocks_add (j k : ℕ) (l : List α) :
    blocks n compress (j + k) s l = blocks n compress k (blocks n compress j s l) (l.drop (n * j)) := by
  induction j generalizing s l with
  | zero => rw [Nat.zero_add, Nat.mul_zero, List.drop_zero, blocks]
  | succ j ih =>
    rw [Nat.succ_add, blocks, ih, blocks, List.drop_drop, Nat.mul_succ, Nat.add_comm n]

theorem absorbed_of_lt {m : List α} (h : m.length < n) : absorbed n compress s m = s := by
  rw [absorbed, Nat.div_eq_of_lt h, blocks]

theorem absorbed_block (hn : 0 < n) {m : List α} (h : m.length = n) :
    absorbed n compress s m = compress s m := by
  rw [absorbed, h, Nat.div_self hn, blocks, blocks, ← h, List.take_length]

theorem absorbed_append {k : ℕ} {a : List α} (hn : 0 < n) (h : a.length = n * k) (b : List α) :
    absorbed n compress s (a ++ b) = absorbed n compress (absorbed n compress s a) b := by
  have hlen : (a ++ b).length / n = k + b.length / n := by
    rw [List.length_append, h, Nat.mul_add_div hn]
  have ha : a.length / n = k := by rw [h, Nat.mul_div_cancel_left k hn]
  rw [absorbed, hlen, blocks_add, blocks_append s h.ge, ← h, List.drop_left, absorbed, absorbed, ha]

theorem absorbed_step (hn : 0 < n) {m : List α} (h : n ≤ m.length) :
    absorbed n compress s m = absorbed n compress (compress s (m.take n)) (m.drop n) := by
  have hlen : (m.take n).length = n := by
    rw [List.length_take]
    omega
  have hone : (m.take n).length = n * 1 := by rw [hlen, Nat.mul_one]
  conv_lhs => rw [← List.take_append_drop n m]
  rw [absorbed_append s hn hone, absorbed_block s hn hlen]

theorem pending_of_lt {m : List α} (h : m.length < n) : pending n m = m := by
  rw [pending, Nat.div_eq_of_lt h, Nat.mul_zero, List.drop_zero]

@[simp] theorem length_pending (m : List α) : (pending n m).length = m.length % n := by
  have h := Nat.div_add_mod m.length n
  rw [pending, List.length_drop]
  omega

theorem pending_append {k : ℕ} {a : List α} (hn : 0 < n) (h : a.length = n * k) (b : List α) :
    pending n (a ++ b) = pending n b := by
  have hdrop : n * (k + b.length / n) = a.length + n * (b.length / n) := by rw [Nat.mul_add, h]
  rw [pending, List.length_append, h, Nat.mul_add_div hn, hdrop, List.drop_length_add_append, pending]

theorem pending_of_multiple {k : ℕ} {m : List α} (hn : 0 < n) (h : m.length = n * k) :
    pending n m = [] := by
  have hk : m.length / n = k := by rw [h, Nat.mul_div_cancel_left k hn]
  rw [pending, hk, ← h, List.drop_length]

theorem exists_whole (n : ℕ) (m : List α) :
    ∃ k w, w.length = n * k ∧ m = w ++ pending n m := by
  have h := Nat.div_add_mod m.length n
  refine ⟨m.length / n, m.take (n * (m.length / n)), ?_, (List.take_append_drop _ m).symm⟩
  rw [List.length_take]
  omega

theorem absorbed_pending (hn : 0 < n) (m d : List α) :
    absorbed n compress s (m ++ d) =
      absorbed n compress (absorbed n compress s m) (pending n m ++ d) := by
  obtain ⟨k, w, hw, hm⟩ := exists_whole n m
  have hlt : (pending n m).length < n := by
    rw [length_pending]
    exact Nat.mod_lt _ hn
  have hstate : absorbed n compress s m = absorbed n compress s w := by
    conv_lhs => rw [hm]
    rw [absorbed_append s hn hw, absorbed_of_lt _ hlt]
  conv_lhs => rw [hm, List.append_assoc]
  rw [absorbed_append s hn hw, hstate]

theorem pending_pending (hn : 0 < n) (m d : List α) :
    pending n (m ++ d) = pending n (pending n m ++ d) := by
  obtain ⟨k, w, hw, hm⟩ := exists_whole n m
  conv_lhs => rw [hm, List.append_assoc]
  rw [pending_append hn hw]

end whole

section buffers

theorem overwrite_nil (buf : List α) (pos : ℕ) : overwrite buf pos [] = buf := by
  rw [overwrite, List.append_nil, List.length_nil, Nat.add_zero, List.take_append_drop]

theorem length_overwrite {buf : List α} {pos : ℕ} {data : List α}
    (h : pos + data.length ≤ buf.length) : (overwrite buf pos data).length = buf.length := by
  simp only [overwrite, List.length_append, List.length_take, List.length_drop]
  omega

theorem take_overwrite {buf : List α} {pos k : ℕ} {data : List α} (hpos : pos ≤ buf.length)
    (hk : k = pos + data.length) : (overwrite buf pos data).take k = buf.take pos ++ data := by
  have hlen : (buf.take pos ++ data).length = k := by
    rw [List.length_append, List.length_take]
    omega
  rw [overwrite, ← hlen, List.take_left]

theorem overwrite_overwrite {buf : List α} {pos k : ℕ} {a : List α} (hpos : pos ≤ buf.length)
    (hk : k = pos + a.length) (b : List α) :
    overwrite (overwrite buf pos a) k b = overwrite buf pos (a ++ b) := by
  have hlen : (buf.take pos ++ a).length = k := by
    rw [List.length_append, List.length_take]
    omega
  have hdrop : (overwrite buf pos a).drop (k + b.length) = buf.drop (pos + (a ++ b).length) := by
    rw [overwrite, ← hlen, List.drop_length_add_append, List.drop_drop, List.length_append,
      Nat.add_assoc]
  rw [overwrite, take_overwrite hpos hk, hdrop, overwrite, List.append_assoc _ a b]

theorem overwrite_end {buf : List α} {pos : ℕ} {data : List α}
    (h : pos + data.length = buf.length) : overwrite buf pos data = buf.take pos ++ data := by
  rw [overwrite, h, List.drop_length, List.append_nil]

end buffers

/-- The state has taken in the whole blocks of the message `m`, and the buffer holds the rest. -/
structure Holds (n : ℕ) (compress : σ → List α → σ) (iv : σ) (m : List α) (s : σ)
    (buf : List α) : Prop where
  state : s = absorbed n compress iv m
  size : buf.length = n
  front : buf.take (m.length % n) = pending n m

section held
variable {n : ℕ} {compress : σ → List α → σ} {iv s : σ} {m buf : List α}

theorem holds_nil (hbuf : buf.length = n) (hn : 0 < n) : Holds n compress iv [] iv buf where
  state := (absorbed_of_lt iv hn).symm
  size := hbuf
  front := by rw [List.length_nil, Nat.zero_mod, List.take_zero, pending_of_lt (by exact hn)]

theorem Holds.keep (h : Holds n compress iv m s buf) {d : List α}
    (hd : m.length % n + d.length < n) :
    Holds n compress iv (m ++ d) s (overwrite buf (m.length % n) d) := by
  have hn : 0 < n := by omega
  have hlen : (pending n m ++ d).length < n := by
    rw [List.length_append, length_pending]
    exact hd
  have hmod : (m ++ d).length % n = m.length % n + d.length := by
    rw [List.length_append, ← Nat.mod_add_mod, Nat.mod_eq_of_lt hd]
  refine ⟨?_, ?_, ?_⟩
  · rw [absorbed_pending iv hn, absorbed_of_lt _ hlen, h.state]
  · rw [length_overwrite (by rw [h.size]; omega), h.size]
  · rw [hmod, take_overwrite (by rw [h.size]; omega) rfl, h.front, pending_pending hn,
      pending_of_lt hlen]

theorem Holds.fill (h : Holds n compress iv m s buf) {d : List α}
    (hd : m.length % n + d.length = n) (hn : 0 < n) :
    Holds n compress iv (m ++ d) (compress s (overwrite buf (m.length % n) d))
      (overwrite buf (m.length % n) d) := by
  have hlen : (pending n m ++ d).length = n := by
    rw [List.length_append, length_pending]
    exact hd
  have hmod : (m ++ d).length % n = 0 := by
    rw [List.length_append, ← Nat.mod_add_mod, hd, Nat.mod_self]
  have hblock : overwrite buf (m.length % n) d = pending n m ++ d := by
    rw [overwrite_end (by rw [h.size, hd]), h.front]
  refine ⟨?_, ?_, ?_⟩
  · rw [absorbed_pending iv hn, absorbed_block _ hn hlen, ← h.state, hblock]
  · rw [hblock, hlen]
  · rw [hmod, List.take_zero, pending_pending hn, pending_of_multiple hn (hlen.trans n.mul_one.symm)]

theorem Holds.direct (h : Holds n compress iv m s buf) (hm : m.length % n = 0) (hn : 0 < n)
    (d : List α) : Holds n compress iv (m ++ d) (absorbed n compress s d)
      (overwrite buf 0 (pending n d)) := by
  have hnone : pending n m = [] := by
    apply List.eq_nil_of_length_eq_zero
    rw [length_pending, hm]
  have hrest : pending n (m ++ d) = pending n d := by
    rw [pending_pending hn, hnone, List.nil_append]
  have hle : (pending n d).length ≤ buf.length := by
    rw [length_pending, h.size]
    exact (Nat.mod_lt _ hn).le
  refine ⟨?_, ?_, ?_⟩
  · rw [absorbed_pending iv hn, hnone, List.nil_append, ← h.state]
  · rw [length_overwrite (by omega), h.size]
  · rw [hrest, ← length_pending, hrest, take_overwrite (Nat.zero_le _) (Nat.zero_add _).symm,
      List.take_zero, List.nil_append]

end held

end Xdccget.StreamedBlocks
