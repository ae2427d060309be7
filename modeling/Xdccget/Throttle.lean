import Xdccget.ReflectedSums
import Xdccget.SpeedLimits

set_option autoImplicit false

/-!
# The throttle

`getSleepTime` keeps the sleep time in a static 32-bit variable and adds to it what the
reading exceeds the limit by, as a quotient of 64 bits.
-/
namespace Xdccget.Throttle
open StepRuns ReflectedSums
open SpeedLimits (noSpeedLimit)

def getAdjustmentValue (a b : ℕ) : ℕ := if b ≠ 0 then a / b else 1

def factor : ℕ := 5

structure Call where
  sleepTime : ℕ
  returned : ℕ

def getSleepTime (maxTransferSpeed sleepTime currentSpeed : ℕ) : Call :=
  if maxTransferSpeed = noSpeedLimit then ⟨sleepTime, 0⟩
  else
    let next :=
      if maxTransferSpeed < currentSpeed then
        (sleepTime + getAdjustmentValue currentSpeed maxTransferSpeed * factor % 2 ^ 64) % 2 ^ 32
      else
        let adjustment := getAdjustmentValue maxTransferSpeed currentSpeed * factor % 2 ^ 64
        if adjustment ≤ sleepTime then sleepTime - adjustment else 0
    ⟨next, next⟩

def sleepTimes (maxTransferSpeed : ℕ) : ℕ → List ℕ → List ℕ
  | _, [] => []
  | sleepTime, currentSpeed :: readings =>
    let call := getSleepTime maxTransferSpeed sleepTime currentSpeed
    call.returned :: sleepTimes maxTransferSpeed call.sleepTime readings

structure CallRight (maxTransferSpeed before currentSpeed after : ℕ) : Prop where
  rises : maxTransferSpeed < currentSpeed → before ≤ after
  falls : currentSpeed ≤ maxTransferSpeed → after ≤ before
  unwrapped : maxTransferSpeed < currentSpeed →
    after = before + getAdjustmentValue currentSpeed maxTransferSpeed * factor

/-- Every call against the one before it, the first against the static variable's start. -/
def SleepRight (maxTransferSpeed : ℕ) (readings : List ℕ) : Prop :=
  let times := sleepTimes maxTransferSpeed 0 readings
  ∀ i before after currentSpeed : ℕ, (0 :: times)[i]? = some before → times[i]? = some after →
    readings[i]? = some currentSpeed → CallRight maxTransferSpeed before currentSpeed after

def change (maxTransferSpeed currentSpeed : ℕ) : ℤ :=
  if maxTransferSpeed < currentSpeed then (currentSpeed / maxTransferSpeed * factor : ℕ)
  else -(getAdjustmentValue maxTransferSpeed currentSpeed * factor % 2 ^ 64 : ℕ)

def sleepStep (maxTransferSpeed sleepTime currentSpeed : ℕ) : ℕ :=
  (getSleepTime maxTransferSpeed sleepTime currentSpeed).sleepTime

theorem getSleepTime_eq {maxTransferSpeed : ℕ} (hlimit : 0 < maxTransferSpeed)
    (sleepTime currentSpeed : ℕ) : getSleepTime maxTransferSpeed sleepTime currentSpeed =
      ⟨sleepStep maxTransferSpeed sleepTime currentSpeed,
        sleepStep maxTransferSpeed sleepTime currentSpeed⟩ := by
  have hne : maxTransferSpeed ≠ noSpeedLimit := by
    unfold noSpeedLimit
    omega
  simp only [sleepStep, getSleepTime, if_neg hne]

theorem sleepStep_above {maxTransferSpeed currentSpeed : ℕ} (hlimit : 0 < maxTransferSpeed)
    (habove : maxTransferSpeed < currentSpeed) (sleepTime : ℕ) :
    sleepStep maxTransferSpeed sleepTime currentSpeed =
      (sleepTime + currentSpeed / maxTransferSpeed * factor) % 2 ^ 32 := by
  have hne : maxTransferSpeed ≠ noSpeedLimit := by
    unfold noSpeedLimit
    omega
  simp only [sleepStep, getSleepTime, if_neg hne, if_pos habove, getAdjustmentValue,
    if_pos hlimit.ne']
  omega

theorem sleepStep_below {maxTransferSpeed currentSpeed : ℕ} (hlimit : 0 < maxTransferSpeed)
    (hbelow : currentSpeed ≤ maxTransferSpeed) (sleepTime : ℕ) :
    sleepStep maxTransferSpeed sleepTime currentSpeed =
      sleepTime - getAdjustmentValue maxTransferSpeed currentSpeed * factor % 2 ^ 64 := by
  have hne : maxTransferSpeed ≠ noSpeedLimit := by
    unfold noSpeedLimit
    omega
  simp only [sleepStep, getSleepTime, if_neg hne, if_neg (not_lt.mpr hbelow)]
  split <;> omega

theorem callRight_iff {maxTransferSpeed : ℕ} (hlimit : 0 < maxTransferSpeed) {sleepTime : ℕ}
    (hsleep : sleepTime < 2 ^ 32) (currentSpeed : ℕ) :
    CallRight maxTransferSpeed sleepTime currentSpeed
        (sleepStep maxTransferSpeed sleepTime currentSpeed) ↔
      (sleepTime + change maxTransferSpeed currentSpeed : ℤ) < (2 ^ 32 : ℕ) := by
  by_cases habove : maxTransferSpeed < currentSpeed
  · have hvalue : getAdjustmentValue currentSpeed maxTransferSpeed =
        currentSpeed / maxTransferSpeed := if_pos hlimit.ne'
    rw [sleepStep_above hlimit habove, change, if_pos habove]
    constructor
    · intro h
      have hexact := h.unwrapped habove
      rw [hvalue] at hexact
      omega
    · intro h
      have hexact : (sleepTime + currentSpeed / maxTransferSpeed * factor) % 2 ^ 32 =
          sleepTime + currentSpeed / maxTransferSpeed * factor := Nat.mod_eq_of_lt (by omega)
      refine ⟨fun _ => ?_, fun hbelow => absurd habove (not_lt.mpr hbelow), fun _ => ?_⟩
      · omega
      · rw [hexact, hvalue]
  · have hbelow : currentSpeed ≤ maxTransferSpeed := not_lt.mp habove
    rw [sleepStep_below hlimit hbelow, change, if_neg habove]
    refine iff_of_true ⟨fun h => absurd h habove, fun _ => ?_, fun h => absurd h habove⟩ ?_
    · omega
    · omega

theorem sleepStep_eq_reflect {maxTransferSpeed : ℕ} (hlimit : 0 < maxTransferSpeed) {sleepTime : ℕ}
    {currentSpeed : ℕ}
    (hfits : (sleepTime + change maxTransferSpeed currentSpeed : ℤ) < (2 ^ 32 : ℕ)) :
    sleepStep maxTransferSpeed sleepTime currentSpeed =
      reflect sleepTime (change maxTransferSpeed currentSpeed) := by
  unfold reflect
  by_cases habove : maxTransferSpeed < currentSpeed
  · rw [sleepStep_above hlimit habove]
    rw [change, if_pos habove] at hfits ⊢
    omega
  · rw [sleepStep_below hlimit (not_lt.mp habove), change, if_neg habove]
    omega

theorem allAlong_callRight {maxTransferSpeed : ℕ} (hlimit : 0 < maxTransferSpeed) {sleepTime : ℕ}
    (hsleep : sleepTime < 2 ^ 32) (readings : List ℕ) :
    AllAlong (sleepStep maxTransferSpeed) (fun s r =>
        CallRight maxTransferSpeed s r (sleepStep maxTransferSpeed s r)) sleepTime readings ↔
      AllAlong reflect (fun s x => (s + x : ℤ) < (2 ^ 32 : ℕ)) sleepTime
        (readings.map (change maxTransferSpeed)) := by
  induction readings generalizing sleepTime with
  | nil => exact Iff.rfl
  | cons r readings ih =>
    rw [AllAlong, List.map_cons, AllAlong, callRight_iff hlimit hsleep]
    refine and_congr_right fun hfits => ?_
    rw [sleepStep_eq_reflect hlimit hfits]
    apply ih
    unfold reflect
    omega

theorem allAlong_times {maxTransferSpeed : ℕ} (hlimit : 0 < maxTransferSpeed) (sleepTime : ℕ)
    (readings : List ℕ) :
    AllAlong (sleepStep maxTransferSpeed) (fun s r =>
        CallRight maxTransferSpeed s r (sleepStep maxTransferSpeed s r)) sleepTime readings ↔
      ∀ i before after currentSpeed : ℕ,
        (sleepTime :: sleepTimes maxTransferSpeed sleepTime readings)[i]? = some before →
        (sleepTimes maxTransferSpeed sleepTime readings)[i]? = some after →
        readings[i]? = some currentSpeed → CallRight maxTransferSpeed before currentSpeed after := by
  induction readings generalizing sleepTime with
  | nil => exact iff_of_true trivial fun i _ _ _ _ _ h => nomatch h
  | cons r readings ih =>
    rw [AllAlong, ih, sleepTimes, getSleepTime_eq hlimit]
    dsimp only
    constructor
    · rintro ⟨hfirst, hrest⟩ i before after currentSpeed hbefore hafter hr
      cases i with
      | zero =>
        obtain rfl := Option.some.inj hbefore
        obtain rfl := Option.some.inj hafter
        obtain rfl := Option.some.inj hr
        exact hfirst
      | succ i => exact hrest i before after currentSpeed hbefore hafter hr
    · intro h
      refine ⟨h 0 _ _ _ rfl rfl rfl, fun i before after currentSpeed hbefore hafter hr => ?_⟩
      exact h (i + 1) before after currentSpeed hbefore hafter hr

/-- The calls are right exactly when no stretch of them adds up to 2 ^ 32. -/
theorem sleepRight_iff (maxTransferSpeed : ℕ) (hlimit : 0 < maxTransferSpeed)
    (readings : List ℕ) : SleepRight maxTransferSpeed readings ↔
      ∀ stretch, stretch <:+: readings →
        (stretch.map (change maxTransferSpeed)).sum < (2 ^ 32 : ℤ) := by
  rw [SleepRight, ← allAlong_times hlimit, allAlong_callRight hlimit (by decide),
    allAlong_lt_iff _ (by decide)]
  constructor
  · intro h stretch hstretch
    exact_mod_cast h _ (hstretch.map _)
  · intro h m hm
    obtain ⟨stretch, hstretch, rfl⟩ := List.infix_map_iff.mp hm
    exact_mod_cast h stretch hstretch

/-- The second of two readings above the limit wraps the sum, and the sleep time falls. -/
theorem second_reading_wraps : ¬ SleepRight 1 [2, 4294967295] := by
  intro h
  have hsecond := (h 1 10 5 4294967295 rfl rfl rfl).rises (by decide)
  omega

theorem sleepRight_at_limit : 0 < 1024 ∧ (SleepRight 1024 [2048, 512] ↔
    ∀ stretch, stretch <:+: [2048, 512] → (stretch.map (change 1024)).sum < (2 ^ 32 : ℤ)) :=
  ⟨by decide, sleepRight_iff 1024 (by decide) [2048, 512]⟩

end Xdccget.Throttle
