import Xdccget.DownloadTurns

set_option autoImplicit false

/-!
# The bytes of one download

A download that has just been accepted stays within its announced size, and is
finished with its last byte, as long as its peer sends no more than announced.
-/
namespace Xdccget.ReceivedBytes
open CText DccMessages ClientState DccSessions Downloads DccEvents HaltingPrograms SessionSpecs
  DownloadSpecs EventSpecs TableChanges StepRuns DownloadTurns

/-- An accepted offer of `size` bytes of which nothing has been received. -/
structure FreshDownload (s : Client) (id context size : ℕ) : Prop where
  running : s.halted = none
  session : Delivers s id context
  table : ∃ c fd, s.downloadContext[context]? = some c ∧ c.fd = some fd ∧
    c.progress.completeFileSize = size ∧ c.progress.sizeRcvd = 0
  size_lt : size < 2 ^ 64
  untouched : ∀ a ∈ s.trace, Silent id context a

/-- The download has stayed within its size and was finished when all of it was there. -/
structure WithinSize (s : Client) (id context size : ℕ) : Prop where
  written_le : written context s.trace ≤ size
  not_closed : Action.writeClosed context ∉ s.trace
  finish_le : finishes context s.trace ≤ 1
  finish_iff : finishes context s.trace = 1 ↔ size ≤ receivedBytes id s.trace
  rcvd_le : ∀ c, s.downloadContext[context]? = some c →
    c.progress.sizeRcvd ≤ c.progress.completeFileSize

section transfer
variable {id context size : ℕ} {s : Client}

theorem receiving_of_fresh (h : FreshDownload s id context size) :
    ∃ t : Transfer, t.id = id ∧ t.context = context ∧ t.size = size ∧ t.start = 0 ∧
      t.past = s.trace ∧ Receiving t [] s := by
  obtain ⟨c, fd, hc, hfd, hcomplete, hrcvd⟩ := h.table
  exact ⟨startingTransfer s id context size 0 fd h.size_lt, rfl, rfl, rfl, rfl, rfl,
    receiving_startingTransfer h.running h.session hc hfd hcomplete hrcvd h.size_lt⟩

theorem withinSize_of_receiving {t : Transfer} {received : Bytes} (h : Receiving t received s)
    (hstart : t.start = 0) (hsize : 0 < t.size) (hpast : ∀ a ∈ t.past, Silent t.id t.context a) :
    WithinSize s t.id t.context t.size := by
  obtain ⟨l, hl, hcounts⟩ := h.counted
  have hle : received.length ≤ t.size := by
    by_cases hne : received = []
    · rw [hne, List.length_nil]
      omega
    · have hle := h.le_size hne
      omega
  have hended : t.Ended received ↔ t.size ≤ received.length := by
    constructor
    · intro hended
      have hsum := hended.2
      omega
    · intro hge
      have hne : received ≠ [] := List.ne_nil_of_length_pos (by omega)
      exact ⟨hne, by omega⟩
  exact {
    written_le := by
      rw [hl, written_append, written_of_silent hpast, hcounts.written_eq]
      omega
    not_closed := by
      rw [hl, List.mem_append, not_or]
      exact ⟨not_writeClosed_of_silent hpast, hcounts.not_closed⟩
    finish_le := by
      rw [hl, finishes_append, finishes_of_silent hpast, Nat.zero_add]
      exact hcounts.finish_le
    finish_iff := by
      rw [hl, finishes_append, finishes_of_silent hpast, Nat.zero_add, receivedBytes_append,
        receivedBytes_of_silent hpast, Nat.zero_add, hcounts.finish_iff, hcounts.received_eq, hended]
    rcvd_le := by
      intro c hc
      obtain ⟨c', hc', hcomplete, hrcvd, -⟩ := h.table
      obtain rfl := Option.some.inj (hc.symm.trans hc')
      rw [hrcvd, hcomplete, hstart, Nat.zero_add]
      exact hle }

theorem not_withinSize_of_overrun (h : Overrun context size s) : ¬ WithinSize s id context size := by
  intro hw
  rcases h with hclosed | hwritten
  · exact hw.not_closed hclosed
  · have hle := hw.written_le
    omega

end transfer

/-- A download keeps to its announced size, is never written behind its end and is finished once,
    with its last byte, exactly when no more than the announced bytes arrive. -/
theorem within_size_iff {id context size : ℕ} {s : Client} (h : FreshDownload s id context size)
    (hsize : 0 < size) {events : List Event} (hown : ∀ e ∈ events, OwnEvent id e) :
    WithinSize (run step s events) id context size ↔
      (concatAlong step (arriving id) s events).length ≤ size := by
  obtain ⟨t, rfl, rfl, rfl, hstart, hpast, hreceiving⟩ := receiving_of_fresh h
  constructor
  · intro hwithin
    by_contra hgt
    have hoverrun := overrun_of_receiving hstart hown hreceiving (Nat.zero_le _)
      (Nat.lt_of_not_le hgt)
    exact not_withinSize_of_overrun hoverrun hwithin
  · intro hle
    refine withinSize_of_receiving (receiving_run hown hreceiving fun _ => ?_) hstart hsize ?_
    · rw [hstart, Nat.zero_add]
      exact hle
    · rw [hpast]
      exact h.untouched

def threeBytesOffered : Client :=
  step (initial (oneBot false) connected noFiles) (botRequest "DCC SEND a 16909060 5000 3")

theorem threeBytesOffered_fresh : FreshDownload threeBytesOffered 1 0 3 where
  running := by decide +kernel
  session := by unfold Delivers; decide +kernel
  table := ⟨_, _, rfl, rfl, rfl, rfl⟩
  size_lt := by decide
  untouched := by
    have htrace : threeBytesOffered.trace =
        [.storeContext 0, .install 1 (.data .callbackDccRecvFile)] := by decide +kernel
    simp [htrace, Silent]

/-- The connection stands and the peer sends `data`. -/
def sends (chunk : Chunk) : List Event :=
  [.socket 1 (.connecting true), .socket 1 (.receiving [.data chunk])]

def threeBytes : Chunk := ⟨bytes "abc", by decide, by decide⟩
def fiveBytes : Chunk := ⟨bytes "abcde", by decide, by decide⟩

theorem within_size_three_bytes :
    WithinSize (run step threeBytesOffered (sends threeBytes)) 1 0 3 :=
  (within_size_iff threeBytesOffered_fresh (by decide) (by simp [sends, OwnEvent])).mpr
    (by decide +kernel)

/-- All five bytes are written, and the download never ends. -/
theorem five_bytes_written_of_three :
    FreshDownload threeBytesOffered 1 0 3 ∧
      ¬ WithinSize (run step threeBytesOffered (sends fiveBytes)) 1 0 3 :=
  ⟨threeBytesOffered_fresh, fun h => absurd h.written_le (by decide +kernel)⟩

end Xdccget.ReceivedBytes
