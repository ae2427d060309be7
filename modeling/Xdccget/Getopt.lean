import Xdccget.CText
import Xdccget.RotatedBlocks

set_option autoImplicit false

/-!
# The option parser

`getopt_long_only` as `parseArguments` calls it, with no option letters. Arguments that are
no options are put behind those that are, block by block, while the arguments are read.
-/
namespace Xdccget.Getopt
open CText RotatedBlocks

def dash : UInt8 := 0x2D
def equals : UInt8 := 0x3D

inductive HasArg
  | noArgument | requiredArgument | optionalArgument
deriving DecidableEq, Repr

/-- `struct option`. Every `flag` of the program is null. -/
structure LongOption where
  name : Bytes
  hasArg : HasArg
  val : ℕ
deriving DecidableEq

/-- The loop of `gcd`, where `b` decreases. -/
def gcdLoop : ℕ → ℕ → ℕ → ℕ
  | 0, _, b => b
  | fuel + 1, a, b => if a % b ≠ 0 then gcdLoop fuel b (a % b) else b

inductive Ends
  | exitPgm (status : ℤ)
  | divisionByZero
  | nullArgument
deriving DecidableEq

def gcd (a b : ℕ) : Except Ends ℕ :=
  if b = 0 then throw .divisionByZero else pure (gcdLoop b a b)

def permuteArgs (panonoptStart panonoptEnd optEnd : ℕ) (nargv : List Bytes) :
    Except Ends (List Bytes) := do
  let nnonopts := panonoptEnd - panonoptStart
  let nopts := optEnd - panonoptEnd
  let ncycle ← gcd nnonopts nopts
  let cyclelen := (optEnd - panonoptStart) / ncycle
  return (List.range ncycle).foldl (fun nargv i =>
    let cstart := panonoptEnd + i
    swaps (fun pos => if pos ≥ panonoptEnd then pos - nnonopts else pos + nopts) cstart cyclelen
      cstart nargv) nargv

/-- `BADCH`, and `BADARG` without a leading colon. -/
def badch : ℕ := 0x3F

/-- The variables of `getopt.c`, the index that the caller passes, and the lines on `stderr`
    without the name of the program in front. `place` is empty between two calls. -/
structure State where
  nargv : List Bytes
  optind : ℕ
  nonoptStart : Option ℕ
  nonoptEnd : Option ℕ
  optarg : Option Bytes
  idx : ℕ
  stderr : List Bytes

def State.warnx (s : State) (text : Bytes) : State := { s with stderr := s.stderr ++ [text] }

/-- `IDENTICAL_INTERPRETATION` -/
def identical (x y : LongOption) : Bool := x.hasArg = y.hasArg && x.val = y.val

/-- What a partial match makes of `match` and `ambiguous`. -/
def partialMatch (longOptions : List LongOption) (i : ℕ) (o : LongOption) :
    Option ℕ → Bool → Option ℕ × Bool
  | none, ambiguous => (some i, ambiguous)
  | some j, ambiguous =>
    (some j, ambiguous || !(longOptions[j]?.map (identical o)).getD true)

/-- The loop over the long options, from the `i`th on; the second value is `ambiguous`. -/
def matchLoop (longOptions : List LongOption) (name : Bytes) :
    ℕ → List LongOption → Option ℕ → Bool → Option ℕ × Bool
  | _, [], found, ambiguous => (found, ambiguous)
  | i, o :: os, found, ambiguous =>
    if !name.isPrefixOf o.name then matchLoop longOptions name (i + 1) os found ambiguous
    else if o.name.length = name.length then (some i, false)
    else
      let r := partialMatch longOptions i o found ambiguous
      matchLoop longOptions name (i + 1) os r.1 r.2

/-- `parse_long_options`, with `short_too` unset. -/
def parseLongOptions (longOptions : List LongOption) (currentArgv : Bytes) (s : State) :
    State × ℕ :=
  let s := { s with optind := s.optind + 1 }
  let name := currentArgv.takeWhile (· ≠ equals)
  let hasEqual := if equals ∈ currentArgv then some (currentArgv.drop (name.length + 1)) else none
  match matchLoop longOptions name 0 longOptions none false with
  | (_, true) => (s.warnx (bytes "ambiguous option -- " ++ name), badch)
  | (none, false) => (s.warnx (bytes "unknown option -- " ++ currentArgv), badch)
  | (some found, false) =>
    match longOptions[found]? with
    | none => (s, badch)
    | some o =>
      if o.hasArg = .noArgument ∧ hasEqual.isSome then
        (s.warnx (bytes "option doesn't take an argument -- " ++ name), badch)
      else
        let s :=
          if o.hasArg = .noArgument then s
          else if hasEqual.isSome then { s with optarg := hasEqual }
          else if o.hasArg = .requiredArgument then
            -- Behind the last argument is a null pointer.
            { s with optarg := s.nargv[s.optind]?, optind := s.optind + 1 }
          else s
        if o.hasArg = .requiredArgument ∧ s.optarg = none then
          ({ s with optind := s.optind - 1 }.warnx
            (bytes "option requires an argument -- " ++ currentArgv), badch)
        else ({ s with idx := found }, o.val)

/-- An argument that is no option: without a dash, or a single one. -/
def nonOption (arg : Bytes) : Bool := arg.head? ≠ some dash || arg = [dash]

def State.permute (s : State) : Except Ends State :=
  match s.nonoptStart with
  | none => return { s with nonoptEnd := none }
  | some start =>
    match s.nonoptEnd with
    | none => return { s with nonoptStart := none }
    | some stop => do
      let nargv ← permuteArgs start stop s.optind s.nargv
      return { s with
        nargv
        optind := s.optind - (stop - start)
        nonoptStart := none
        nonoptEnd := none }

/-- At the end of the arguments, `optind` goes back to those skipped. -/
def State.finish (s : State) : Except Ends State :=
  match s.nonoptStart with
  | none => s.permute
  | some start =>
    match s.nonoptEnd with
    | none => return { s with optind := start, nonoptStart := none }
    | some _ => s.permute

/-- An argument that is no option is skipped. -/
def State.skip (s : State) : Except Ends State :=
  match s.nonoptStart, s.nonoptEnd with
  | none, _ => return { s with nonoptStart := some s.optind, optind := s.optind + 1 }
  | some _, none => return { s with optind := s.optind + 1 }
  | some start, some stop => do
    let nargv ← permuteArgs start stop s.optind s.nargv
    return { s with
      nargv
      nonoptStart := some (s.optind - (stop - start))
      nonoptEnd := none
      optind := s.optind + 1 }

def State.endSkipped (s : State) : State :=
  match s.nonoptStart with
  | none => s
  | some _ =>
    match s.nonoptEnd with
    | none => { s with nonoptEnd := some s.optind }
    | some _ => s

def placeOf (arg : Bytes) : Bytes :=
  let place := arg.drop 1
  if place.head? = some dash then place.drop 1 else place

/-- `getopt_internal` from `start` on; -1 is `none`. `posixly_correct` clears `FLAG_PERMUTE`. Each
    turn takes one more argument. -/
def getoptFrom (longOptions : List LongOption) (posixlyCorrect : Bool) :
    ℕ → State → Except Ends (State × Option ℕ)
  | 0, s => return (s, none)
  | fuel + 1, s =>
    match s.nargv[s.optind]? with
    | none => do return (← s.finish, none)
    | some arg =>
      if nonOption arg then
        if posixlyCorrect then return (s, none)
        else do getoptFrom longOptions posixlyCorrect fuel (← s.skip)
      else
        let s := s.endSkipped
        if arg = [dash, dash] then do return (← { s with optind := s.optind + 1 }.permute, none)
        else
          let (s, optchar) := parseLongOptions longOptions (placeOf arg) s
          return (s, some optchar)

def getoptLongOnly (longOptions : List LongOption) (posixlyCorrect : Bool) (s : State) :
    Except Ends (State × Option ℕ) :=
  getoptFrom longOptions posixlyCorrect (s.nargv.length + 1) { s with optarg := none }

/-- What a call has returned: the character code, `option_index` and `optarg`. -/
structure Returned where
  code : ℕ
  idx : ℕ
  optarg : Option Bytes
deriving DecidableEq

/-- The `while` loop over the options, with `handle` as its body. Each turn takes an argument. -/
def optionLoop {σ : Type} (longOptions : List LongOption) (posixlyCorrect : Bool)
    (handle : σ → Returned → Except Ends σ) : ℕ → State → σ → Except Ends (State × σ)
  | 0, s, cfg => return (s, cfg)
  | fuel + 1, s, cfg => do
    match ← getoptLongOnly longOptions posixlyCorrect s with
    | (s, none) => return (s, cfg)
    | (s, some c) =>
      let cfg ← handle cfg ⟨c, s.idx, s.optarg⟩
      optionLoop longOptions posixlyCorrect handle fuel s cfg

theorem gcdLoop_eq {fuel a b : ℕ} (hb : 0 < b) (hfuel : b ≤ fuel) :
    gcdLoop fuel a b = a.gcd b := by
  induction fuel generalizing a b with
  | zero => omega
  | succ fuel ih =>
    have hlt : a % b < b := Nat.mod_lt a hb
    have hgcd : a.gcd b = b.gcd (a % b) := by
      rw [Nat.gcd_comm a b, Nat.gcd_rec b a, Nat.gcd_comm]
    rw [gcdLoop]
    split_ifs with hmod
    · rw [ih (by omega) (by omega), ← hgcd]
    · have hzero : a % b = 0 := by omega
      rw [hgcd, hzero, Nat.gcd_zero_right]

theorem permuteArgs_blocks (front nonopts : List Bytes) {opts : List Bytes} (hopts : opts ≠ [])
    (back : List Bytes) :
    permuteArgs front.length (front.length + nonopts.length)
        (front.length + (nonopts.length + opts.length)) (front ++ (nonopts ++ (opts ++ back))) =
      .ok (front ++ (opts ++ (nonopts ++ back))) := by
  have hpos : 0 < opts.length := List.length_pos_of_ne_nil hopts
  have hnopts : front.length + (nonopts.length + opts.length) - (front.length + nonopts.length) =
      opts.length := by omega
  have hgcd : gcd nonopts.length opts.length = .ok (nonopts.length.gcd opts.length) := by
    rw [gcd, if_neg hpos.ne', gcdLoop_eq hpos le_rfl]
    rfl
  have hblocks := cycles_blocks front nonopts opts back hopts
  rw [permuteArgs, Nat.add_sub_cancel_left, Nat.add_sub_cancel_left, hnopts, hgcd, ← hblocks]
  simp only [cycles, ge_iff_le, Nat.add_assoc]
  rfl

end Xdccget.Getopt
