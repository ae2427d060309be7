import Xdccget.Getopt

set_option autoImplicit false

/-!
# Command lines

What a command line says, read from the left to the right without moving anything, and that
the calls of `getopt_long_only` return just that.
-/
namespace Xdccget.CommandLines
open CText Getopt

/-- What a name stands for: the option that has it, or whose name it begins, unless it begins the
    names of options that are different. -/
inductive Resolved
  | found (i : ℕ) (o : LongOption)
  | ambiguous
  | unknown

def Abbreviates (name : Bytes) (o : LongOption) : Bool := name.isPrefixOf o.name

def resolve (long : List LongOption) (name : Bytes) : Resolved :=
  match long.zipIdx.find? fun x => x.1.name = name with
  | some x => .found x.2 x.1
  | none =>
    match long.zipIdx.find? fun x => Abbreviates name x.1 with
    | none => .unknown
    | some x =>
      if long.any fun o => Abbreviates name o && !identical o x.1 then .ambiguous
      else .found x.2 x.1

/-- What is read of an option: the code, the index of a valid one, its argument, the message, and
    whether the argument was the next word. -/
structure Reading where
  code : ℕ
  idx : Option ℕ
  optarg : Option Bytes
  message : Option Bytes
  takesNext : Bool

def Reading.bad (message : Bytes) : Reading := ⟨badch, none, none, some message, false⟩

def interpret (long : List LongOption) (place : Bytes) (next : Option Bytes) : Reading :=
  let name := place.takeWhile (· ≠ equals)
  let value := if equals ∈ place then some (place.drop (name.length + 1)) else none
  match resolve long name with
  | .ambiguous => .bad (bytes "ambiguous option -- " ++ name)
  | .unknown => .bad (bytes "unknown option -- " ++ place)
  | .found i o =>
    match o.hasArg with
    | .noArgument =>
      match value with
      | some _ => .bad (bytes "option doesn't take an argument -- " ++ name)
      | none => ⟨o.val, some i, none, none, false⟩
    | .requiredArgument =>
      match value, next with
      | some v, _ => ⟨o.val, some i, some v, none, false⟩
      | none, none => .bad (bytes "option requires an argument -- " ++ place)
      | none, some word => ⟨o.val, some i, some word, none, true⟩
    | .optionalArgument => ⟨o.val, some i, value, none, false⟩

/-- The options that are read, the words that they are made of, and the other words. -/
structure Parsed where
  readings : List Reading
  options : List Bytes
  operands : List Bytes

/-- Two dashes end the options. Without permutations, the first operand does, too. -/
def parse (long : List LongOption) (posixly : Bool) : List Bytes → Parsed
  | [] => ⟨[], [], []⟩
  | arg :: rest =>
    if nonOption arg then
      if posixly then ⟨[], [], arg :: rest⟩
      else
        let p := parse long posixly rest
        { p with operands := arg :: p.operands }
    else if arg = [dash, dash] then ⟨[], [arg], rest⟩
    else
      let r := interpret long (placeOf arg) rest.head?
      let n := if r.takesNext then 1 else 0
      let p := parse long posixly (rest.drop n)
      ⟨r :: p.readings, arg :: (rest.take n ++ p.options), p.operands⟩
termination_by args => args.length
decreasing_by
  all_goals simp only [List.length_cons, List.length_drop]; omega

/-- What the calls return; an option that is not valid leaves the index as it was. -/
def returned (idx : ℕ) : List Reading → List Returned
  | [] => []
  | r :: rs => ⟨r.code, r.idx.getD idx, r.optarg⟩ :: returned (r.idx.getD idx) rs

section matching
variable {long : List LongOption} {name : Bytes}

variable (name) in
theorem name_eq_iff (o : LongOption) :
    o.name = name ↔ Abbreviates name o = true ∧ o.name.length = name.length := by
  rw [Abbreviates, List.isPrefixOf_iff_prefix]
  constructor
  · rintro rfl
    exact ⟨List.prefix_rfl, rfl⟩
  · rintro ⟨hfront, hlen⟩
    exact (hfront.eq_of_length hlen.symm).symm

theorem matchLoop_cons (i : ℕ) (o : LongOption) (os : List LongOption) (found : Option ℕ)
    (ambiguous : Bool) : matchLoop long name i (o :: os) found ambiguous =
      if o.name = name then (some i, false)
      else if Abbreviates name o then
        matchLoop long name (i + 1) os (partialMatch long i o found ambiguous).1
          (partialMatch long i o found ambiguous).2
      else matchLoop long name (i + 1) os found ambiguous := by
  have hname := name_eq_iff name o
  rw [Abbreviates] at hname ⊢
  rw [matchLoop]
  by_cases hfront : name.isPrefixOf o.name = true
  · simp only [hfront, Bool.not_true, Bool.false_eq_true, if_false, if_true, hname, true_and]
  · simp only [hfront, Bool.not_false, if_true, hname, false_and, if_false, Bool.false_eq_true]

theorem matchLoop_exact {os : List LongOption} {i : ℕ} {x : LongOption × ℕ}
    (h : (os.zipIdx i).find? (fun x => x.1.name = name) = some x) (found : Option ℕ)
    (ambiguous : Bool) : matchLoop long name i os found ambiguous = (some x.2, false) := by
  induction os generalizing i found ambiguous with
  | nil => simp at h
  | cons o os ih =>
    rw [matchLoop_cons]
    rw [List.zipIdx_cons, List.find?_cons] at h
    by_cases hname : o.name = name
    · rw [decide_eq_true hname] at h
      obtain rfl := Option.some.inj h
      rw [if_pos hname]
    · rw [decide_eq_false hname] at h
      rw [if_neg hname]
      split_ifs
      · exact ih h _ _
      · exact ih h _ _

theorem matchLoop_found {os : List LongOption} (h : ∀ o ∈ os, o.name ≠ name) (i : ℕ) {j : ℕ}
    {o : LongOption} (hj : long[j]? = some o) (ambiguous : Bool) :
    matchLoop long name i os (some j) ambiguous =
      (some j, ambiguous || os.any fun o' => Abbreviates name o' && !identical o' o) := by
  induction os generalizing i ambiguous with
  | nil => simp [matchLoop]
  | cons o' os ih =>
    have hrest : ∀ o ∈ os, o.name ≠ name := fun o ho => h o (List.mem_cons_of_mem _ ho)
    have hsame : partialMatch long i o' (some j) ambiguous =
        (some j, ambiguous || !identical o' o) := by
      rw [partialMatch, hj]
      rfl
    rw [matchLoop_cons, if_neg (h o' List.mem_cons_self), List.any_cons, hsame]
    split_ifs with hfront
    · rw [ih hrest, hfront, Bool.true_and, Bool.or_assoc]
    · rw [ih hrest, Bool.eq_false_iff.mpr hfront, Bool.false_and, Bool.false_or]

theorem matchLoop_none {os : List LongOption} (h : ∀ o ∈ os, o.name ≠ name) (i : ℕ)
    (hos : ∀ k, os[k]? = long[i + k]?) :
    matchLoop long name i os none false =
      match (os.zipIdx i).find? fun x => Abbreviates name x.1 with
      | some x => (some x.2, os.any fun o => Abbreviates name o && !identical o x.1)
      | none => (none, false) := by
  induction os generalizing i with
  | nil => rfl
  | cons o os ih =>
    have hrest : ∀ o ∈ os, o.name ≠ name := fun o ho => h o (List.mem_cons_of_mem _ ho)
    have hnext : ∀ k, os[k]? = long[i + 1 + k]? := by
      intro k
      have hk := hos (k + 1)
      rw [List.getElem?_cons_succ] at hk
      rw [hk]
      congr 1
      omega
    rw [matchLoop_cons, if_neg (h o List.mem_cons_self), List.zipIdx_cons, List.find?_cons]
    by_cases hfront : Abbreviates name o = true
    · have hhere : long[i]? = some o := (hos 0).symm
      have hself : identical o o = true := by simp [identical]
      rw [if_pos hfront, hfront]
      dsimp only [partialMatch]
      rw [matchLoop_found hrest _ hhere, List.any_cons, hself, Bool.not_true, Bool.and_false,
        Bool.false_or]
    · rw [if_neg hfront, Bool.eq_false_iff.mpr hfront, ih hrest (i + 1) hnext]
      cases (os.zipIdx (i + 1)).find? fun x => Abbreviates name x.1 with
      | none => rfl
      | some x =>
        dsimp only
        rw [List.any_cons, Bool.eq_false_iff.mpr hfront, Bool.false_and, Bool.false_or]

theorem matchLoop_resolve (long : List LongOption) (name : Bytes) :
    match resolve long name with
    | .found i o => matchLoop long name 0 long none false = (some i, false) ∧ long[i]? = some o
    | .ambiguous => ∃ found, matchLoop long name 0 long none false = (found, true)
    | .unknown => matchLoop long name 0 long none false = (none, false) := by
  have hplace : ∀ x ∈ long.zipIdx, long[x.2]? = some x.1 := fun x hx =>
    List.mk_mem_zipIdx_iff_getElem?.mp hx
  unfold resolve
  cases hexact : long.zipIdx.find? fun x => x.1.name = name with
  | some x => exact ⟨matchLoop_exact hexact none false, hplace x (List.mem_of_find?_eq_some hexact)⟩
  | none =>
    have hnone : ∀ o ∈ long, o.name ≠ name := by
      intro o ho
      obtain ⟨k, hk⟩ := List.mem_iff_getElem?.mp ho
      have h := List.find?_eq_none.mp hexact (o, k) (List.mk_mem_zipIdx_iff_getElem?.mpr hk)
      simpa using h
    have hall : ∀ k, long[k]? = long[0 + k]? := fun k => by rw [Nat.zero_add]
    have hloop := matchLoop_none hnone 0 hall
    dsimp only
    cases hfirst : long.zipIdx.find? fun x => Abbreviates name x.1 with
    | none =>
      rw [hfirst] at hloop
      exact hloop
    | some x =>
      rw [hfirst] at hloop
      dsimp only at hloop ⊢
      split_ifs with hother
      · rw [hother] at hloop
        exact ⟨_, hloop⟩
      · rw [Bool.eq_false_iff.mpr hother] at hloop
        exact ⟨hloop, hplace x (List.mem_of_find?_eq_some hfirst)⟩

end matching

def after (r : Reading) (s : State) : State :=
  { s with
    optind := s.optind + (if r.takesNext then 2 else 1)
    optarg := r.optarg
    idx := r.idx.getD s.idx
    stderr := s.stderr ++ r.message.toList }

theorem parseLongOptions_eq (long : List LongOption) (place : Bytes) {s : State}
    (h : s.optarg = none) : parseLongOptions long place s =
      (after (interpret long place s.nargv[s.optind + 1]?) s,
        (interpret long place s.nargv[s.optind + 1]?).code) := by
  have hmatch := matchLoop_resolve long (place.takeWhile (· ≠ equals))
  obtain ⟨nargv, optind, start, stop, optarg, idx, stderr⟩ := s
  obtain rfl : optarg = none := h
  unfold parseLongOptions interpret
  dsimp only
  cases hres : resolve long (place.takeWhile (· ≠ equals)) with
  | ambiguous =>
    rw [hres] at hmatch
    obtain ⟨found, hfound⟩ := hmatch
    rw [hfound]
    rfl
  | unknown =>
    rw [hres] at hmatch
    dsimp only at hmatch
    rw [hmatch]
    rfl
  | found i o =>
    rw [hres] at hmatch
    obtain ⟨hloop, hget⟩ := hmatch
    rw [hloop]
    dsimp only
    rw [hget]
    dsimp only
    generalize (if equals ∈ place then some (place.drop _) else none) = value
    cases o.hasArg <;> cases value <;> cases nargv[optind + 1]? <;>
      simp [after, Reading.bad, State.warnx]

/-- Where the words are between two turns: options that have their place, words that have been
    skipped, options behind these, and what has not been read. -/
structure Scanned (s : State) (front skipped behind rest : List Bytes) : Prop where
  nargv : s.nargv = front ++ (skipped ++ (behind ++ rest))
  optind : s.optind = front.length + (skipped.length + behind.length)
  start : s.nonoptStart = if skipped = [] then none else some front.length
  stop : s.nonoptEnd = if behind = [] then none else some (front.length + skipped.length)
  none_behind : skipped = [] → behind = []

structure SameOutput (s s' : State) : Prop where
  optarg : s'.optarg = s.optarg
  idx : s'.idx = s.idx
  stderr : s'.stderr = s.stderr

section scanning
variable {s : State} {front skipped behind rest : List Bytes}

theorem Scanned.get (h : Scanned s front skipped behind rest) (k : ℕ) :
    s.nargv[s.optind + k]? = rest[k]? := by
  have hplace : s.optind + k = front.length + (skipped.length + (behind.length + k)) := by
    rw [h.optind]
    omega
  rw [h.nargv, hplace]
  simp only [List.getElem?_append_right (Nat.le_add_right _ _), Nat.add_sub_cancel_left]

theorem Scanned.permuteArgs_eq (h : Scanned s front skipped behind rest) (hbehind : behind ≠ []) :
    permuteArgs front.length (front.length + skipped.length) s.optind s.nargv =
      .ok (front ++ (behind ++ (skipped ++ rest))) := by
  rw [h.optind, h.nargv, permuteArgs_blocks front skipped hbehind rest]

theorem Scanned.skip (h : Scanned s front skipped behind rest) {arg : Bytes} {rest' : List Bytes}
    (hrest : rest = arg :: rest') : ∃ s', s.skip = .ok s' ∧ SameOutput s s' ∧
      Scanned s' (front ++ behind) (skipped ++ [arg]) [] rest' := by
  have hstart := h.start
  have hstop := h.stop
  have hoptind := h.optind
  have hnargv := h.nargv
  have hlen : (skipped ++ [arg]).length = skipped.length + 1 := by simp
  by_cases hskipped : skipped = []
  · have hbehind := h.none_behind hskipped
    rw [if_pos hskipped] at hstart
    refine ⟨{ s with nonoptStart := some s.optind, optind := s.optind + 1 }, ?_, ⟨rfl, rfl, rfl⟩, ?_⟩
    · rw [State.skip, hstart]
      rfl
    · subst hskipped hbehind hrest
      refine ⟨?_, ?_, ?_, ?_, ?_⟩
      · simpa using hnargv
      · simpa using hoptind
      · simpa using hoptind
      · simpa using hstop
      · simp
  · rw [if_neg hskipped] at hstart
    by_cases hbehind : behind = []
    · rw [if_pos hbehind] at hstop
      refine ⟨{ s with optind := s.optind + 1 }, ?_, ⟨rfl, rfl, rfl⟩, ?_⟩
      · rw [State.skip, hstart, hstop]
        rfl
      · subst hbehind hrest
        refine ⟨?_, ?_, ?_, ?_, ?_⟩
        · simpa using hnargv
        · simp only [List.append_nil, List.length_nil, hlen]
          simp only [List.length_nil] at hoptind
          omega
        · simpa using hstart
        · simpa using hstop
        · simp
    · rw [if_neg hbehind] at hstop
      have hperm := h.permuteArgs_eq hbehind
      refine ⟨{ s with
        nargv := front ++ (behind ++ (skipped ++ rest))
        nonoptStart := some (s.optind - (front.length + skipped.length - front.length))
        nonoptEnd := none
        optind := s.optind + 1 }, ?_, ⟨rfl, rfl, rfl⟩, ?_⟩
      · rw [State.skip, hstart, hstop]
        dsimp only
        rw [hperm]
        rfl
      · subst hrest
        refine ⟨?_, ?_, ?_, ?_, ?_⟩
        · simp
        · simp only [List.length_append, List.length_cons, List.length_nil]
          omega
        · simp only [List.append_eq_nil_iff, List.cons_ne_self, and_false, if_false,
            List.length_append]
          congr 1
          omega
        · simp
        · simp

theorem Scanned.option (h : Scanned s front skipped behind rest) {took rest' : List Bytes}
    (hrest : rest = took ++ rest') (htook : took ≠ []) : ∃ front' behind',
      front' ++ behind' = front ++ behind ++ took ∧ (skipped = [] ∨ behind' ≠ []) ∧
        ∀ s', s'.nargv = s.nargv → s'.optind = s.optind + took.length →
          s'.nonoptStart = s.endSkipped.nonoptStart → s'.nonoptEnd = s.endSkipped.nonoptEnd →
          Scanned s' front' skipped behind' rest' := by
  have hstart := h.start
  have hstop := h.stop
  have hoptind := h.optind
  have hnargv := h.nargv
  by_cases hskipped : skipped = []
  · have hbehind := h.none_behind hskipped
    rw [if_pos hskipped] at hstart
    refine ⟨front ++ took, [], by rw [hbehind]; simp, .inl hskipped, ?_⟩
    intro s' hs'nargv hs'optind hs'start hs'stop
    have hsame : s.endSkipped = s := by rw [State.endSkipped, hstart]
    rw [hsame] at hs'start hs'stop
    subst hskipped hbehind hrest
    refine ⟨?_, ?_, ?_, ?_, fun _ => rfl⟩
    · rw [hs'nargv, hnargv]
      simp
    · rw [hs'optind, hoptind]
      simp
    · rw [hs'start, hstart, if_pos rfl]
    · rw [hs'stop, hstop]
      simp
  · rw [if_neg hskipped] at hstart
    have hbehind : behind ++ took ≠ [] := by simp [htook]
    refine ⟨front, behind ++ took, by simp, .inr hbehind, ?_⟩
    intro s' hs'nargv hs'optind hs'start hs'stop
    have hend : s.endSkipped.nonoptStart = some front.length ∧
        s.endSkipped.nonoptEnd = some (front.length + skipped.length) := by
      rw [State.endSkipped, hstart]
      by_cases hnil : behind = []
      · rw [if_pos hnil] at hstop
        rw [hstop]
        refine ⟨rfl, congrArg some ?_⟩
        rw [hoptind, hnil]
        rfl
      · rw [if_neg hnil] at hstop
        rw [hstop]
        exact ⟨hstart, hstop⟩
    refine ⟨?_, ?_, ?_, ?_, fun hnil => absurd hnil hskipped⟩
    · rw [hs'nargv, hnargv, hrest, List.append_assoc]
    · rw [hs'optind, hoptind, List.length_append]
      omega
    · rw [hs'start, hend.1, if_neg hskipped]
    · rw [hs'stop, hend.2, if_neg hbehind]

structure Ended (s : State) (options operands : List Bytes) : Prop where
  nargv : s.nargv = options ++ operands
  optind : s.optind = options.length

theorem Scanned.permute (h : Scanned s front skipped behind rest)
    (hdue : skipped = [] ∨ behind ≠ []) : ∃ s', s.permute = .ok s' ∧ SameOutput s s' ∧
      Ended s' (front ++ behind) (skipped ++ rest) := by
  have hstart := h.start
  have hstop := h.stop
  have hoptind := h.optind
  by_cases hskipped : skipped = []
  · have hbehind := h.none_behind hskipped
    rw [if_pos hskipped] at hstart
    refine ⟨{ s with nonoptStart := none, nonoptEnd := none }, ?_, ⟨rfl, rfl, rfl⟩, ?_⟩
    · rw [State.permute, hstart]
      rfl
    · rw [hskipped, hbehind] at h ⊢
      exact ⟨by simpa using h.nargv, by simpa using h.optind⟩
  · have hbehind := hdue.resolve_left hskipped
    rw [if_neg hskipped] at hstart
    rw [if_neg hbehind] at hstop
    have hperm := h.permuteArgs_eq hbehind
    refine ⟨{ s with
      nargv := front ++ (behind ++ (skipped ++ rest))
      optind := s.optind - (front.length + skipped.length - front.length)
      nonoptStart := none
      nonoptEnd := none }, ?_, ⟨rfl, rfl, rfl⟩, ?_, ?_⟩
    · rw [State.permute, hstart, hstop]
      dsimp only
      rw [hperm]
      rfl
    · simp
    · rw [List.length_append]
      dsimp only
      omega

theorem Scanned.finish (h : Scanned s front skipped behind []) :
    ∃ s', s.finish = .ok s' ∧ SameOutput s s' ∧ Ended s' (front ++ behind) skipped := by
  have hstart := h.start
  have hstop := h.stop
  by_cases hdue : skipped = [] ∨ behind ≠ []
  · have hpermute := h.permute hdue
    rw [List.append_nil] at hpermute
    have hfinish : s.finish = s.permute := by
      rcases hdue with hskipped | hbehind
      · rw [State.finish, hstart, if_pos hskipped]
      · rw [State.finish, hstop, if_neg hbehind]
        split <;> rfl
    rwa [hfinish]
  · rw [not_or, not_not] at hdue
    rw [if_neg hdue.1] at hstart
    rw [if_pos hdue.2] at hstop
    refine ⟨{ s with optind := front.length, nonoptStart := none }, ?_, ⟨rfl, rfl, rfl⟩, ?_⟩
    · rw [State.finish, hstart, hstop]
      rfl
    · rw [hdue.2] at h ⊢
      exact ⟨by simpa using h.nargv, by simp⟩

end scanning

section calls
variable {long : List LongOption} {posixly : Bool}

/-- What a call does with the words that have not been read: it ends the options, or returns the
    next one. -/
inductive CallOutcome (long : List LongOption) (posixly : Bool) (s : State)
    (front skipped behind rest : List Bytes) : State → Option ℕ → Prop
  | ended (s' : State) (hidx : s'.idx = s.idx) (hstderr : s'.stderr = s.stderr)
      (hreadings : (parse long posixly rest).readings = [])
      (hended : Ended s' (front ++ behind ++ (parse long posixly rest).options)
        (skipped ++ (parse long posixly rest).operands)) :
      CallOutcome long posixly s front skipped behind rest s' none
  | option (s' : State) (r : Reading) (passed took rest' front' behind' : List Bytes)
      (hoptarg : s'.optarg = r.optarg) (hidx : s'.idx = r.idx.getD s.idx)
      (hstderr : s'.stderr = s.stderr ++ r.message.toList)
      (hshort : rest'.length < rest.length)
      (hwords : front' ++ behind' = front ++ behind ++ took)
      (hscanned : Scanned s' front' (skipped ++ passed) behind' rest')
      (hposixly : posixly = true → passed = [])
      (hparse : parse long posixly rest = ⟨r :: (parse long posixly rest').readings,
        took ++ (parse long posixly rest').options, passed ++ (parse long posixly rest').operands⟩) :
      CallOutcome long posixly s front skipped behind rest s' (some r.code)

theorem parse_operand (long : List LongOption) {arg : Bytes} (harg : nonOption arg = true) (rest : List Bytes) :
    parse long false (arg :: rest) = { parse long false rest with
      operands := arg :: (parse long false rest).operands } := by
  rw [parse, if_pos harg, if_neg Bool.false_ne_true]

theorem parse_option (long : List LongOption) (posixly : Bool) {arg : Bytes} (harg : ¬ nonOption arg = true) (hstop : arg ≠ [dash, dash])
    (rest : List Bytes) {r : Reading} (hr : r = interpret long (placeOf arg) rest.head?)
    {n : ℕ} (hn : n = if r.takesNext then 1 else 0) :
    parse long posixly (arg :: rest) = ⟨r :: (parse long posixly (rest.drop n)).readings,
      arg :: (rest.take n ++ (parse long posixly (rest.drop n)).options),
      (parse long posixly (rest.drop n)).operands⟩ := by
  rw [parse, if_neg harg, if_neg hstop, hn, hr]

theorem interpret_none_takesNext (long : List LongOption) (place : Bytes) :
    (interpret long place none).takesNext = false := by
  unfold interpret
  dsimp only
  cases resolve long (place.takeWhile (· ≠ equals)) with
  | ambiguous => rfl
  | unknown => rfl
  | found i o =>
    dsimp only
    cases o.hasArg <;> cases (if equals ∈ place then some (place.drop _) else none) <;> rfl

theorem endSkipped_same (s : State) : s.endSkipped.nargv = s.nargv ∧
    s.endSkipped.optind = s.optind ∧ SameOutput s s.endSkipped := by
  unfold State.endSkipped
  split
  · exact ⟨rfl, rfl, rfl, rfl, rfl⟩
  · split <;> exact ⟨rfl, rfl, rfl, rfl, rfl⟩

theorem CallOutcome.skipped {s s₁ s' : State} {front skipped behind rest : List Bytes} {arg : Bytes}
    {c : Option ℕ} (harg : nonOption arg = true) (hsame : SameOutput s s₁)
    (h : CallOutcome long false s₁ (front ++ behind) (skipped ++ [arg]) [] rest s' c) :
    CallOutcome long false s front skipped behind (arg :: rest) s' c := by
  have hparse := parse_operand long harg rest
  cases h with
  | ended hidx hstderr hreadings hended =>
    refine .ended s' (hidx.trans hsame.idx) (hstderr.trans hsame.stderr) ?_ ?_
    · rw [hparse]
      exact hreadings
    · rw [hparse]
      simpa using hended
  | option r passed took rest' front' behind' hoptarg hidx hstderr hshort hwords hscanned hposixly
      hrest =>
    refine .option s' r (arg :: passed) took rest' front' behind' hoptarg ?_ ?_ ?_ ?_ ?_ ?_ ?_
    · rw [hidx, hsame.idx]
    · rw [hstderr, hsame.stderr]
    · rw [List.length_cons]
      omega
    · simpa using hwords
    · simpa using hscanned
    · simp
    · rw [hparse, hrest]
      rfl

theorem getoptFrom_outcome {fuel : ℕ} {s : State} {front skipped behind rest : List Bytes}
    (h : Scanned s front skipped behind rest) (hoptarg : s.optarg = none)
    (hposixly : posixly = true → skipped = []) (hfuel : rest.length < fuel) :
    ∃ s' c, getoptFrom long posixly fuel s = .ok (s', c) ∧
      CallOutcome long posixly s front skipped behind rest s' c := by
  induction rest generalizing s front skipped behind fuel with
  | nil =>
    obtain ⟨fuel, rfl⟩ : ∃ n, fuel = n + 1 := ⟨fuel - 1, by simp at hfuel; omega⟩
    have hget := h.get 0
    obtain ⟨s', hfinish, hsame, hended⟩ := h.finish
    refine ⟨s', none, ?_, .ended s' hsame.idx hsame.stderr ?_ ?_⟩
    · rw [getoptFrom]
      rw [Nat.add_zero] at hget
      rw [hget]
      dsimp only [List.getElem?_nil]
      rw [hfinish]
      rfl
    · rw [parse]
    · rw [parse]
      simpa using hended
  | cons arg rest ih =>
    obtain ⟨fuel, rfl⟩ : ∃ n, fuel = n + 1 := ⟨fuel - 1, by simp at hfuel; omega⟩
    have hget := h.get 0
    rw [Nat.add_zero, List.getElem?_cons_zero] at hget
    rw [getoptFrom, hget]
    dsimp only
    by_cases harg : nonOption arg = true
    · rw [if_pos harg]
      cases posixly with
      | true =>
        have hskipped := hposixly rfl
        have hbehind := h.none_behind hskipped
        have hparse : parse long true (arg :: rest) = ⟨[], [], arg :: rest⟩ := by
          rw [parse, if_pos harg, if_pos rfl]
        refine ⟨s, none, rfl, .ended s rfl rfl (by rw [hparse]) ?_⟩
        rw [hparse]
        rw [hskipped, hbehind] at h ⊢
        exact ⟨by simpa using h.nargv, by simpa using h.optind⟩
      | false =>
        obtain ⟨s₁, hskip, hsame, hscanned⟩ := h.skip rfl
        have hlen : rest.length < fuel := by
          rw [List.length_cons] at hfuel
          omega
        obtain ⟨s', c, hrun, houtcome⟩ := ih hscanned (hsame.optarg.trans hoptarg) (by simp) hlen
        refine ⟨s', c, ?_, houtcome.skipped harg hsame⟩
        rw [hskip]
        exact hrun
    · rw [if_neg harg]
      obtain ⟨hnargv, hoptind, hsame⟩ := endSkipped_same s
      by_cases hstop : arg = [dash, dash]
      · rw [if_pos hstop]
        have hparse : parse long posixly (arg :: rest) = ⟨[], [arg], rest⟩ := by
          rw [parse, if_neg harg, if_pos hstop]
        have hsplit : arg :: rest = [arg] ++ rest := rfl
        obtain ⟨front', behind', hwords, hdue, hscanned⟩ := h.option hsplit (List.cons_ne_nil _ _)
        obtain ⟨s', hpermute, hsame', hended⟩ :=
          (hscanned { s.endSkipped with optind := s.endSkipped.optind + 1 } hnargv
            (congrArg (· + 1) hoptind) rfl rfl).permute hdue
        refine ⟨s', none, ?_, .ended s' (hsame'.idx.trans hsame.idx)
          (hsame'.stderr.trans hsame.stderr) (by rw [hparse]) ?_⟩
        · rw [hpermute]
          rfl
        · rw [hparse, ← hwords]
          exact hended
      · rw [if_neg hstop, parseLongOptions_eq long _ (hsame.optarg.trans hoptarg), hnargv, hoptind,
          h.get 1, List.getElem?_cons_succ, ← List.head?_eq_getElem?]
        generalize hr : interpret long (placeOf arg) rest.head? = r
        obtain ⟨n, hn⟩ : ∃ n, n = if r.takesNext = true then 1 else 0 := ⟨_, rfl⟩
        have hparse := parse_option long posixly harg hstop rest hr.symm hn
        have hnext : r.takesNext = true → 0 < rest.length := by
          intro htakes
          cases rest with
          | nil => rw [← hr, List.head?_nil, interpret_none_takesNext] at htakes; cases htakes
          | cons word rest => simp
        have htake : (arg :: rest.take n).length = if r.takesNext then 2 else 1 := by
          rw [List.length_cons, List.length_take, hn]
          split_ifs with htakes
          · have hpos := hnext htakes
            omega
          · rfl
        have hsplit : arg :: rest = (arg :: rest.take n) ++ rest.drop n := by
          rw [List.cons_append, List.take_append_drop]
        obtain ⟨front', behind', hwords, -, hscanned⟩ := h.option hsplit (List.cons_ne_nil _ _)
        refine ⟨_, _, rfl, .option _ r [] (arg :: rest.take n) (rest.drop n) front' behind' rfl ?_ ?_
          ?_ hwords ?_ (fun _ => rfl) hparse⟩
        · rw [after, hsame.idx]
        · rw [after, hsame.stderr]
        · rw [List.length_drop, List.length_cons]
          omega
        · rw [List.append_nil]
          refine hscanned _ hnargv ?_ rfl rfl
          rw [htake, after, hoptind]

variable (long posixly) in
/-- The loop handles what the command line says, one option after the other, and leaves the words
    that are no options behind those that are. -/
theorem optionLoop_eq {σ : Type} (handle : σ → Returned → Except Ends σ) {fuel : ℕ} {s : State}
    {front skipped behind rest : List Bytes} (h : Scanned s front skipped behind rest)
    (hposixly : posixly = true → skipped = []) (hfuel : rest.length < fuel) (cfg : σ) :
    ∃ s', Ended s' (front ++ behind ++ (parse long posixly rest).options)
        (skipped ++ (parse long posixly rest).operands) ∧
      s'.stderr = s.stderr ++ (parse long posixly rest).readings.filterMap Reading.message ∧
      optionLoop long posixly handle fuel s cfg =
        ((returned s.idx (parse long posixly rest).readings).foldlM handle cfg).map fun cfg =>
          (s', cfg) := by
  induction fuel generalizing s front skipped behind rest cfg with
  | zero => omega
  | succ fuel ih =>
    have hclear : Scanned { s with optarg := none } front skipped behind rest :=
      ⟨h.nargv, h.optind, h.start, h.stop, h.none_behind⟩
    have hlen : rest.length < s.nargv.length + 1 := by
      rw [h.nargv]
      simp only [List.length_append]
      omega
    obtain ⟨s₁, c, hrun, houtcome⟩ := getoptFrom_outcome hclear rfl hposixly hlen
    have hcall : getoptLongOnly long posixly s = .ok (s₁, c) := hrun
    rw [optionLoop, hcall]
    cases houtcome with
    | ended hidx hstderr hreadings hended =>
      refine ⟨s₁, hended, ?_, ?_⟩
      · rw [hreadings, hstderr]
        simp
      · rw [hreadings]
        rfl
    | option r passed took rest' front' behind' hoptarg hidx hstderr hshort hwords hscanned
        hpassed hparse =>
      have hstays : posixly = true → skipped ++ passed = [] := by
        intro hp
        rw [hposixly hp, hpassed hp]
        rfl
      have hless : rest'.length < fuel := by omega
      have hreturned : (⟨r.code, s₁.idx, s₁.optarg⟩ : Returned) =
          ⟨r.code, r.idx.getD s.idx, r.optarg⟩ := by
        rw [hoptarg, hidx]
      rw [hparse]
      dsimp only [returned]
      change ∃ s', _ ∧ _ ∧ (handle cfg ⟨r.code, s₁.idx, s₁.optarg⟩ >>= fun cfg =>
        optionLoop long posixly handle fuel s₁ cfg) = _
      rw [hreturned, List.foldlM_cons, ← hidx]
      cases hhandle : handle cfg ⟨r.code, s₁.idx, r.optarg⟩ with
      | error e =>
        obtain ⟨s', hended, hmessages, -⟩ := ih hscanned hstays hless cfg
        refine ⟨s', ?_, ?_, rfl⟩
        · rw [hwords] at hended
          simpa using hended
        · rw [hmessages, hstderr]
          cases hm : r.message <;> simp [hm]
      | ok cfg' =>
        obtain ⟨s', hended, hmessages, hloop⟩ := ih hscanned hstays hless cfg'
        refine ⟨s', ?_, ?_, hloop⟩
        · rw [hwords] at hended
          simpa using hended
        · rw [hmessages, hstderr]
          cases hm : r.message <;> simp [hm]

end calls

end Xdccget.CommandLines
