import Xdccget.StreamedBlocks

set_option autoImplicit false

/-!
# Buffers with a terminator

A list stands at the front of a buffer, a terminator behind it, and anything behind that.
-/
namespace Xdccget.TerminatedBuffers
open StreamedBlocks

variable {α : Type} {buf : List α} {stop : α} {contents : List α}

def Holds (buf : List α) (stop : α) (contents : List α) : Prop := contents ++ [stop] <+: buf

theorem Holds.length_lt (h : Holds buf stop contents) : contents.length < buf.length := by
  have hlen := h.length_le
  rw [List.length_append, List.length_singleton] at hlen
  omega

theorem Holds.take_length (h : Holds buf stop contents) : buf.take contents.length = contents := by
  obtain ⟨rest, rfl⟩ := h
  rw [List.append_assoc, List.take_left]

theorem Holds.take_le (h : Holds buf stop contents) {k : ℕ} (hk : k ≤ contents.length) :
    buf.take k = contents.take k := by
  rw [← h.take_length, List.take_take, min_eq_left hk]

theorem Holds.drop_take (h : Holds buf stop contents) {pos n : ℕ}
    (hn : pos + n ≤ contents.length) : (buf.drop pos).take n = (contents.drop pos).take n := by
  rw [List.take_drop, List.take_drop, h.take_le hn]

variable (stop) in
theorem holds_overwrite {pos k : ℕ} {data : List α} (h : pos + data.length < buf.length)
    (hk : k = pos + data.length) :
    Holds (overwrite (overwrite buf pos data) k [stop]) stop (buf.take pos ++ data) := by
  have hpos : pos ≤ buf.length := by omega
  rw [overwrite_overwrite hpos hk]
  refine ⟨buf.drop (pos + (data ++ [stop]).length), ?_⟩
  rw [overwrite, List.append_assoc (buf.take pos)]

theorem Holds.append (h : Holds buf stop contents) {data : List α}
    (hroom : contents.length + data.length < buf.length) :
    Holds (overwrite (overwrite buf contents.length data) (contents.length + data.length) [stop])
      stop (contents ++ data) := by
  have hold := holds_overwrite stop hroom rfl
  rwa [h.take_length] at hold

variable (stop) in
theorem holds_replaced {data : List α} (hroom : data.length < buf.length) :
    Holds (overwrite (overwrite buf 0 data) data.length [stop]) stop data := by
  have hlt : 0 + data.length < buf.length := by omega
  have hold := holds_overwrite stop hlt (Nat.zero_add _).symm
  rwa [List.take_zero, List.nil_append] at hold

theorem Holds.shortened (h : Holds buf stop contents) {k : ℕ} (hk : k ≤ contents.length) :
    Holds (overwrite buf k [stop]) stop (contents.take k) := by
  have hlen := h.length_lt
  have hlt : k + ([] : List α).length < buf.length := by
    rw [List.length_nil]
    omega
  have hold := holds_overwrite stop hlt rfl
  rwa [overwrite_nil, List.length_nil, Nat.add_zero, List.append_nil, h.take_le hk] at hold

theorem Holds.moved (h : Holds buf stop contents) {pos n : ℕ} (hn : pos + n ≤ contents.length) :
    Holds (overwrite (overwrite buf 0 ((buf.drop pos).take n)) n [stop]) stop
      ((contents.drop pos).take n) := by
  have hlen := h.length_lt
  have hpiece : ((contents.drop pos).take n).length = n := by
    rw [List.length_take, List.length_drop]
    omega
  have hroom : ((contents.drop pos).take n).length < buf.length := by omega
  have hold := holds_replaced stop hroom
  rw [hpiece] at hold
  rwa [h.drop_take hn]

theorem Holds.sameLength (h : Holds buf stop contents) {data : List α}
    (hlen : data.length = contents.length) : Holds (overwrite buf 0 data) stop data := by
  obtain ⟨rest, rfl⟩ := h
  refine ⟨rest, ?_⟩
  rw [overwrite, List.take_zero, List.nil_append, Nat.zero_add, hlen, List.append_assoc contents,
    List.drop_left, List.append_assoc]

theorem Holds.resized (h : Holds buf stop contents) {n : ℕ} (hn : contents.length < n)
    (fresh : List α) : Holds (buf.take n ++ fresh) stop contents := by
  have hcut : contents ++ [stop] <+: buf.take n := by
    rw [List.prefix_take_iff]
    refine ⟨h, ?_⟩
    rw [List.length_append, List.length_singleton]
    omega
  exact hcut.trans (List.prefix_append _ _)

theorem Holds.copied (h : Holds buf stop contents) (fresh : List α) :
    Holds (overwrite fresh 0 (buf.take (contents.length + 1))) stop contents := by
  have hcopy : buf.take (contents.length + 1) = contents ++ [stop] := by
    obtain ⟨rest, rfl⟩ := h
    rw [List.take_left' (by simp)]
  rw [hcopy, overwrite, List.take_zero, List.nil_append]
  exact List.prefix_append _ _

end Xdccget.TerminatedBuffers
