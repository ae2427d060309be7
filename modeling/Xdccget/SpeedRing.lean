import Xdccget.Downloads
import Xdccget.RingRecords

set_option autoImplicit false

/-!
# The ring of speeds

`saveCurrentSpeed` writes the samples of a download round and round, `getAverageSpeed`
walks the array from slot 0. Which sample stands there depends on how many came before.
-/
namespace Xdccget.SpeedRing
open ClientState Downloads RingRecords

/-- `curSpeed` as `newDccProgress` leaves it. -/
def freshSpeed : DccCurrentSpeed :=
  { curSpeed := List.replicate numAverageSpeedValues 0
    speedIndex := 0
    isSpeedArrayFilled := false }

def recorded (samples : List ℕ) : DccCurrentSpeed := samples.foldl saveCurrentSpeed freshSpeed

def lastSamples (samples : List ℕ) : List ℕ :=
  samples.drop (samples.length - numAverageSpeedValues)

/-- The samples do not overflow where two of them are added. -/
def Addable (samples : List ℕ) : Prop := samples.Pairwise fun a b => a + b < 2 ^ 64

instance (samples : List ℕ) : Decidable (Addable samples) := by
  unfold Addable
  infer_instance

/-- The ring holds the last eight samples, their average lies between them, and it is the one that
    they have without the samples before them. -/
structure AveragesLast (samples : List ℕ) : Prop where
  holds : (recorded samples).curSpeed.rotate (recorded samples).speedIndex = lastSamples samples
  between : ∀ lo hi, (∀ v ∈ lastSamples samples, lo ≤ v ∧ v ≤ hi) →
    ∀ cur, lo ≤ getAverageSpeed (recorded samples) cur ∧ getAverageSpeed (recorded samples) cur ≤ hi
  timed : ∀ cur cur', getAverageSpeed (recorded samples) cur =
    getAverageSpeed (recorded (lastSamples samples)) cur'

def freshRing : SlotRing ℕ := ⟨freshSpeed.curSpeed, freshSpeed.speedIndex, by decide⟩

structure Rings (samples : List ℕ) (c : DccCurrentSpeed) : Prop where
  slots : c.curSpeed = (freshRing.recordAll samples).slots
  index : c.speedIndex = (freshRing.recordAll samples).index
  filled : c.isSpeedArrayFilled = decide (numAverageSpeedValues ≤ samples.length)

theorem length_ring (samples : List ℕ) :
    (freshRing.recordAll samples).slots.length = numAverageSpeedValues :=
  length_recordAll freshRing samples

theorem index_ring (samples : List ℕ) :
    (freshRing.recordAll samples).index = samples.length % numAverageSpeedValues := by
  have h := index_recordAll freshRing samples
  have hzero : freshRing.index + samples.length = samples.length := Nat.zero_add _
  rw [hzero] at h
  exact h

theorem saveCurrentSpeed_rings {samples : List ℕ} {c : DccCurrentSpeed} (h : Rings samples c)
    (v : ℕ) : Rings (samples ++ [v]) (saveCurrentSpeed c v) := by
  have hring : freshRing.recordAll (samples ++ [v]) = (freshRing.recordAll samples).record v :=
    List.foldl_append
  refine ⟨?_, ?_, ?_⟩
  · rw [hring, saveCurrentSpeed, h.slots, h.index]
    rfl
  · rw [hring, saveCurrentSpeed, h.index]
    change _ = ((freshRing.recordAll samples).index + 1) % (freshRing.recordAll samples).slots.length
    rw [length_ring]
  · have hindex := h.index.trans (index_ring samples)
    rw [saveCurrentSpeed, h.filled, hindex, List.length_append, List.length_singleton,
      numAverageSpeedValues, Bool.eq_iff_iff]
    simp only [Bool.or_eq_true, decide_eq_true_eq]
    omega

theorem recorded_rings (samples : List ℕ) : Rings samples (recorded samples) := by
  induction samples using List.reverseRecOn with
  | nil => exact ⟨rfl, rfl, rfl⟩
  | append_singleton samples v ih =>
    have hstep : recorded (samples ++ [v]) = saveCurrentSpeed (recorded samples) v :=
      List.foldl_append
    rw [hstep]
    exact saveCurrentSpeed_rings ih v

section full
variable {samples : List ℕ}

theorem recorded_holds (h : numAverageSpeedValues ≤ samples.length) :
    (recorded samples).curSpeed.rotate (recorded samples).speedIndex = lastSamples samples := by
  have hrings := recorded_rings samples
  have hfull : (freshRing.recordAll samples).inOrder = lastSamples samples :=
    inOrder_of_full freshRing h
  rw [hrings.slots, hrings.index]
  exact hfull

theorem length_curSpeed (samples : List ℕ) :
    (recorded samples).curSpeed.length = numAverageSpeedValues := by
  rw [(recorded_rings samples).slots, length_ring]

theorem curSpeed_perm (h : numAverageSpeedValues ≤ samples.length) :
    (recorded samples).curSpeed.Perm (lastSamples samples) := by
  rw [← recorded_holds h]
  exact (List.rotate_perm _ _).symm

theorem curSpeed_of_dvd (h : numAverageSpeedValues ≤ samples.length)
    (hdvd : numAverageSpeedValues ∣ samples.length) :
    (recorded samples).curSpeed = lastSamples samples := by
  have hindex := (recorded_rings samples).index.trans (index_ring samples)
  have hholds := recorded_holds h
  rw [hindex, Nat.mod_eq_zero_of_dvd hdvd, List.rotate_zero] at hholds
  exact hholds

end full

/-- What `getAverageSpeed` makes of the slots, without overflow. -/
def halvings : List ℕ → ℕ
  | [] => 0
  | v :: vs => vs.foldl (fun average v => (average + v) / 2) v

theorem foldl_exact {a : ℕ} {vs : List ℕ} (h : Addable (a :: vs)) :
    vs.foldl (fun average v => u64 (average + v) / 2) a =
      vs.foldl (fun average v => (average + v) / 2) a := by
  induction vs generalizing a with
  | nil => rfl
  | cons v vs ih =>
    obtain ⟨ha, hv, hvs⟩ : (∀ w ∈ v :: vs, a + w < 2 ^ 64) ∧ (∀ w ∈ vs, v + w < 2 ^ 64) ∧
        Addable vs := by simpa [Addable, List.pairwise_cons] using h
    have hsum : u64 (a + v) = a + v := Nat.mod_eq_of_lt (ha v List.mem_cons_self)
    have hnext : Addable ((a + v) / 2 :: vs) := by
      refine List.pairwise_cons.mpr ⟨fun w hw => ?_, hvs⟩
      have haw := ha w (List.mem_cons_of_mem v hw)
      have hvw := hv w hw
      omega
    rw [List.foldl_cons, List.foldl_cons, hsum, ih hnext]

theorem foldl_between {lo hi a : ℕ} {vs : List ℕ} (h : ∀ v ∈ a :: vs, lo ≤ v ∧ v ≤ hi) :
    lo ≤ vs.foldl (fun average v => (average + v) / 2) a ∧
      vs.foldl (fun average v => (average + v) / 2) a ≤ hi := by
  induction vs generalizing a with
  | nil => exact h a List.mem_cons_self
  | cons v vs ih =>
    have ha := h a List.mem_cons_self
    have hv := h v (by simp)
    apply ih
    intro w hw
    rcases List.mem_cons.mp hw with rfl | hw
    · dsimp only
      omega
    · exact h w (by simp [hw])

theorem halvings_between {lo hi : ℕ} {vs : List ℕ} (hne : vs ≠ [])
    (h : ∀ v ∈ vs, lo ≤ v ∧ v ≤ hi) : lo ≤ halvings vs ∧ halvings vs ≤ hi := by
  obtain ⟨v, rest, rfl⟩ := List.exists_cons_of_ne_nil hne
  exact foldl_between h

section full
variable {samples : List ℕ}

theorem getAverageSpeed_eq (h : numAverageSpeedValues ≤ samples.length) (hadd : Addable samples)
    (cur : ℕ) : getAverageSpeed (recorded samples) cur = halvings (recorded samples).curSpeed := by
  have hfilled : (recorded samples).isSpeedArrayFilled = true := by
    rw [(recorded_rings samples).filled]
    exact decide_eq_true h
  have hlast : Addable (lastSamples samples) := hadd.sublist (List.drop_sublist _ _)
  have hslots : Addable (recorded samples).curSpeed := by
    refine (curSpeed_perm h).symm.pairwise hlast fun hab => ?_
    omega
  have hne : (recorded samples).curSpeed ≠ [] := by
    intro hnil
    have hlen := length_curSpeed samples
    rw [hnil] at hlen
    cases hlen
  obtain ⟨v, vs, heq⟩ := List.exists_cons_of_ne_nil hne
  rw [heq] at hslots
  rw [getAverageSpeed, hfilled, heq, if_pos rfl]
  exact foldl_exact hslots

theorem averages_between (h : numAverageSpeedValues ≤ samples.length) (hadd : Addable samples)
    {lo hi : ℕ} (hbounds : ∀ v ∈ lastSamples samples, lo ≤ v ∧ v ≤ hi) (cur : ℕ) :
    lo ≤ getAverageSpeed (recorded samples) cur ∧ getAverageSpeed (recorded samples) cur ≤ hi := by
  rw [getAverageSpeed_eq h hadd]
  apply halvings_between
  · intro hnil
    have hlen := length_curSpeed samples
    rw [hnil] at hlen
    cases hlen
  · intro v hv
    exact hbounds v ((curSpeed_perm h).mem_iff.mp hv)

theorem length_lastSamples (h : numAverageSpeedValues ≤ samples.length) :
    (lastSamples samples).length = numAverageSpeedValues := by
  rw [lastSamples, List.length_drop]
  omega

theorem lastSamples_lastSamples (h : numAverageSpeedValues ≤ samples.length) :
    lastSamples (lastSamples samples) = lastSamples samples := by
  rw [lastSamples, length_lastSamples h]
  simp

theorem averagesLast_of_dvd (h : numAverageSpeedValues ≤ samples.length) (hadd : Addable samples)
    (hdvd : numAverageSpeedValues ∣ samples.length) : AveragesLast samples := by
  have hlen := length_lastSamples h
  have hlast : Addable (lastSamples samples) := hadd.sublist (List.drop_sublist _ _)
  refine ⟨recorded_holds h, fun lo hi hbounds => averages_between h hadd hbounds, fun cur cur' => ?_⟩
  rw [getAverageSpeed_eq h hadd, getAverageSpeed_eq hlen.ge hlast, curSpeed_of_dvd h hdvd,
    curSpeed_of_dvd hlen.ge (by rw [hlen]), lastSamples_lastSamples h]

end full

def lateSample (earlier : ℕ) : List ℕ := List.replicate (earlier + 7) 0 ++ [2]

theorem length_lateSample (earlier : ℕ) :
    (lateSample earlier).length = earlier + numAverageSpeedValues := by
  simp [lateSample, numAverageSpeedValues]

theorem addable_lateSample (earlier : ℕ) : Addable (lateSample earlier) := by
  refine List.pairwise_append.mpr ⟨List.pairwise_replicate.mpr (by omega), by simp, ?_⟩
  intro a ha b hb
  rw [List.eq_of_mem_replicate ha, List.mem_singleton.mp hb]
  omega

theorem lastSamples_lateSample (earlier : ℕ) :
    lastSamples (lateSample earlier) = List.replicate 7 0 ++ [2] := by
  rw [lastSamples, length_lateSample, Nat.add_sub_cancel, lateSample, List.drop_append,
    List.drop_replicate, List.length_replicate]
  have hback : earlier - (earlier + 7) = 0 := by omega
  rw [hback, Nat.add_sub_cancel_left, List.drop_zero]

theorem halvings_of_rotate {l : List ℕ} {i : ℕ} (hi : i < 8)
    (h : l.rotate i = List.replicate 7 0 ++ [2]) : halvings l = if i = 0 then 1 else 0 := by
  have hlen : l.length = 8 := by
    rw [← List.length_rotate l i, h]
    rfl
  have hl : l = (List.replicate 7 0 ++ [2]).rotate (8 - i) := by
    rw [← h, List.rotate_rotate, Nat.add_sub_cancel' hi.le, ← hlen, List.rotate_length]
  rw [hl]
  clear hl h
  interval_cases i <;> rfl

theorem not_averagesLast_lateSample {earlier : ℕ} (h : ¬ numAverageSpeedValues ∣ earlier) :
    ¬ AveragesLast (lateSample earlier) := by
  intro hall
  have hlen := length_lateSample earlier
  have hfull : numAverageSpeedValues ≤ (lateSample earlier).length := by omega
  have hindex := (recorded_rings (lateSample earlier)).index.trans (index_ring (lateSample earlier))
  have hlt : (lateSample earlier).length % numAverageSpeedValues < 8 := Nat.mod_lt _ (by decide)
  have hne : (lateSample earlier).length % numAverageSpeedValues ≠ 0 := by
    rw [hlen, Nat.add_mod_right]
    exact fun hzero => h (Nat.dvd_of_mod_eq_zero hzero)
  have hslots := halvings_of_rotate hlt (hindex ▸ (hall.holds.trans (lastSamples_lateSample earlier)))
  rw [if_neg hne] at hslots
  have htimed := hall.timed 0 0
  rw [getAverageSpeed_eq hfull (addable_lateSample earlier), hslots, lastSamples_lateSample] at htimed
  exact absurd htimed (by decide)

/-- The average is that of the last eight samples in time order for every sequence exactly when the
    number of the samples before them is a multiple of eight. -/
theorem averages_last_iff (earlier : ℕ) :
    (∀ samples : List ℕ, samples.length = earlier + numAverageSpeedValues → Addable samples →
      AveragesLast samples) ↔ numAverageSpeedValues ∣ earlier := by
  constructor
  · intro h
    by_contra hdvd
    exact not_averagesLast_lateSample hdvd
      (h _ (length_lateSample earlier) (addable_lateSample earlier))
  · intro hdvd samples hlen hadd
    apply averagesLast_of_dvd (by omega) hadd
    rw [hlen]
    exact Nat.dvd_add hdvd (dvd_refl _)

/-- A ninth sample of 256 bytes counts as 2, and as 128 where it is the eighth. -/
theorem ninth_sample_halved_away : ¬ AveragesLast (List.replicate 8 0 ++ [256]) := by
  intro h
  have htimed := h.timed 0 0
  revert htimed
  decide

end Xdccget.SpeedRing
