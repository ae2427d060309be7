import Xdccget.StepRuns
import Xdccget.TableChanges

set_option autoImplicit false

/-!
# The bounds of the download table

`main` allocates `numDownloads` entries. Every accepted offer stores one more,
whatever was requested.
-/
namespace Xdccget.DownloadTable
open CText DccMessages ClientState DccSessions Downloads DccEvents HaltingPrograms SessionSpecs
  DownloadSpecs TableChanges StepRuns

def storedIndex : Action → Option ℕ
  | .storeContext index => some index
  | _ => none

/-- The indices of the stores into `downloadContext`. -/
def stores (trace : List Action) : List ℕ := trace.filterMap storedIndex

def Filled (cfg : XdccGetConfig) (n : ℕ) (s : Client) : Prop :=
  s.cfg = cfg ∧ s.numActiveDownloads = n ∧ stores s.trace = List.range n

theorem stores_append_nil {trace l : List Action} (h : ∀ a ∈ l, storedIndex a = none) :
    stores (trace ++ l) = stores trace := by
  unfold stores
  rw [List.filterMap_append, List.filterMap_eq_nil_iff.mpr h, List.append_nil]

theorem storedIndex_of_sessionAction {a : Action} (h : SessionAction a) : storedIndex a = none := by
  cases a <;> first | rfl | exact h.elim

theorem storedIndex_of_completion {s : Client} {l : List Action} (h : CompletionActions s l)
    (context : ℕ) : ∀ a ∈ .finish context :: l, storedIndex a = none := by
  cases h <;> simp [storedIndex]

theorem filled_of_change {b : Bool} {cfg : XdccGetConfig} {n : ℕ} {s s' : Client} (h : Filled cfg n s)
    (hc : Change b s s') : Filled cfg n s' := by
  obtain ⟨hcfg, hn, hstores⟩ := h
  cases hc with
  | sessions net lastId ds hl =>
    refine ⟨hcfg, hn, ?_⟩
    rw [withSessions_trace, stores_append_nil fun a ha => storedIndex_of_sessionAction (hl a ha)]
    exact hstores
  | chunk data hc hfd => exact ⟨hcfg, hn, (stores_append_nil (by simp [storedIndex])).trans hstores⟩
  | lost length hc hfd => exact ⟨hcfg, hn, (stores_append_nil (by simp [storedIndex])).trans hstores⟩
  | complete hb net hc hfd hsize hl =>
    exact ⟨hcfg, hn, (stores_append_nil (storedIndex_of_completion hl _)).trans hstores⟩
  | rewind length hc hfd => exact ⟨hcfg, hn, hstores⟩
  | output => exact ⟨hcfg, hn, hstores⟩
  | halt fault => exact ⟨hcfg, hn, hstores⟩

theorem filled_of_changes {b : Bool} {cfg : XdccGetConfig} {n : ℕ} {s s' : Client} (h : Filled cfg n s)
    (hc : Changes b s s') : Filled cfg n s' :=
  hc.invariant (fun _ _ => filled_of_change) h

theorem filled_of_start {b : Bool} {cfg : XdccGetConfig} {n : ℕ} {s s' : Client} (h : Filled cfg n s)
    (hs : StartThen b s s') : Filled cfg (n + 1) s' := by
  obtain ⟨t, progress, fd, files, ht, hs'⟩ := hs
  obtain ⟨hcfg, hn, hstores⟩ := filled_of_changes h ht
  have hstored : stores (t.trace ++ [.storeContext t.numActiveDownloads]) =
      stores t.trace ++ [t.numActiveDownloads] := by
    simp [stores, storedIndex]
  have hstart : Filled cfg (n + 1) (withDownload t progress fd files) := by
    refine ⟨hcfg, by rw [withDownload_numActiveDownloads, hn], ?_⟩
    rw [withDownload_trace, hstored, hstores, hn, List.range_succ]
  exact filled_of_changes hstart hs'

def starts (s : Client) (e : Event) : ℕ := if StartsDownload s e then 1 else 0

theorem filled_step {cfg : XdccGetConfig} {n : ℕ} {s : Client} (h : Filled cfg n s) (e : Event) :
    Filled cfg (n + starts s e) (step s e) := by
  unfold starts
  split
  · next hstarts => exact filled_of_start h (step_starts (b := true) hstarts)
  · next hstarts => exact filled_of_changes h (step_changes hstarts)

theorem filled_run {cfg : XdccGetConfig} {n : ℕ} {s : Client} (h : Filled cfg n s)
    (events : List Event) : Filled cfg (n + sumAlong step starts s events) (run step s events) := by
  induction events generalizing s n with
  | nil => exact h
  | cons e events ih =>
    have hstep := ih (filled_step h e)
    rw [Nat.add_assoc] at hstep
    exact hstep

theorem filled_initial (cfg : XdccGetConfig) (net : Net) (files : Bytes → Option Bytes) :
    Filled cfg 0 (initial cfg net files) := ⟨rfl, rfl, rfl⟩

/-- In every run the stores stay inside the table, and the counter within its bound, exactly when
    no more offers are accepted than downloads were requested. -/
theorem stores_in_bounds_iff (cfg : XdccGetConfig) (net : Net) (files : Bytes → Option Bytes)
    (events : List Event) :
    ((∀ index ∈ stores (run step (initial cfg net files) events).trace, index < cfg.numDownloads) ∧
      (run step (initial cfg net files) events).numActiveDownloads ≤ cfg.numDownloads) ↔
    sumAlong step starts (initial cfg net files) events ≤ cfg.numDownloads := by
  obtain ⟨-, hn, hstores⟩ := filled_run (filled_initial cfg net files) events
  rw [Nat.zero_add] at hn hstores
  rw [hn, hstores]
  constructor
  · exact And.right
  · intro h
    refine ⟨fun index hindex => ?_, h⟩
    have hlt := List.mem_range.mp hindex
    omega

/-- One download is requested and the bot offers two files: the second entry is not there. -/
theorem second_offer_stored_behind_table :
    ∃ index ∈ stores (run step (initial (oneBot false) connected noFiles)
        [botRequest "DCC SEND a 16909060 5000 100", botRequest "DCC SEND b 16909060 5001 100"]).trace,
      ¬ index < (oneBot false).numDownloads := by
  decide +kernel

end Xdccget.DownloadTable
