import Xdccget.CText

set_option autoImplicit false

/-!
# `sscanf`

The conversions that decimal messages need: `%<width>s`, `%<width>[^c]` and the
unsigned integers, between white space and literal bytes. Reading stops at the
first directive that does not match.
-/
namespace Xdccget.Scanf
open CText

inductive Directive
  | white
  | lit (c : UInt8)
  | str (width : ℕ)
  | until_ (stop : UInt8) (width : ℕ)
  | unsigned (bits : ℕ)
  deriving DecidableEq, Repr

inductive Value
  | text (s : Bytes)
  | num (n : ℕ)
  deriving DecidableEq, Repr

def plus : UInt8 := 0x2B
def minus : UInt8 := 0x2D
def zero : UInt8 := 0x30

/-- `ULONG_MAX` of a 64-bit `unsigned long`, and of `unsigned long long`. -/
def ulongMax : ℕ := 2 ^ 64 - 1

def skipSpace (s : Bytes) : Bytes := s.dropWhile isspace

def optionalSign : Bytes → Bool × Bytes
  | [] => (false, [])
  | c :: s => if c = minus then (true, s) else if c = plus then (false, s) else (false, c :: s)

/-- `strtoul` saturates, negates in 64 bits, and the store keeps the low bits. -/
def strtoulValue (negative : Bool) (digits : Bytes) (bits : ℕ) : ℕ :=
  let v := digitsValue digits
  (if ulongMax < v then ulongMax else if negative then (ulongMax + 1 - v) % (ulongMax + 1) else v) %
    2 ^ bits

def readDigits (negative : Bool) (bits : ℕ) (s : Bytes) : Option (List Value × Bytes) :=
  let digits := s.takeWhile isdigit
  if digits = [] then none
  else some ([.num (strtoulValue negative digits bits)], s.dropWhile isdigit)

def Directive.read : Directive → Bytes → Option (List Value × Bytes)
  | .white, s => some ([], skipSpace s)
  | .lit _, [] => none
  | .lit c, a :: s => if a = c then some ([], s) else none
  | .str width, s =>
    let t := skipSpace s
    let word := (t.takeWhile (fun c => !isspace c)).take width
    if word = [] then none else some ([.text word], t.drop word.length)
  | .until_ stop width, s =>
    let word := (s.takeWhile (fun c => c != stop)).take width
    if word = [] then none else some ([.text word], s.drop word.length)
  | .unsigned bits, s =>
    let t := optionalSign (skipSpace s)
    readDigits t.1 bits t.2

def scan : List Directive → Bytes → List Value
  | [], _ => []
  | d :: ds, s =>
    match d.read s with
    | none => []
    | some (values, rest) => values ++ scan ds rest

def literal (s : String) : List Directive :=
  (bytes s).map (fun c => if isspace c then .white else .lit c)

/-- The stored values. The count that `sscanf` returns is their number. -/
def sscanf (format : List Directive) (s : Bytes) : List Value := scan format (cstr s)

/-- `%lu` and its kin with a blank before each. -/
def numbers (bits : List ℕ) : List Directive := bits.flatMap (fun b => [.white, .unsigned b])

def numbersText (ns : List ℕ) : Bytes := ns.flatMap (fun n => space :: decimal n)

/-- The input does not go on with a byte of the class. -/
def Stops (p : UInt8 → Bool) (s : Bytes) : Prop := ∀ c ∈ s.head?, p c = false

theorem takeWhile_of_stops {p : UInt8 → Bool} {s : Bytes} (h : Stops p s) : s.takeWhile p = [] := by
  cases s with
  | nil => rfl
  | cons c s =>
    have hc : p c = false := h c rfl
    simp [hc]

theorem dropWhile_of_stops {p : UInt8 → Bool} {s : Bytes} (h : Stops p s) : s.dropWhile p = s := by
  cases s with
  | nil => rfl
  | cons c s =>
    have hc : p c = false := h c rfl
    simp [hc]

theorem stops_dropWhile (p : UInt8 → Bool) (s : Bytes) : Stops p (s.dropWhile p) := by
  intro c hc
  have hnot := List.head?_dropWhile_not p s
  rw [Option.mem_def] at hc
  simpa [hc] using hnot

theorem takeWhile_append_stops {p : UInt8 → Bool} {w s : Bytes} (hw : ∀ c ∈ w, p c = true)
    (hs : Stops p s) : (w ++ s).takeWhile p = w := by
  rw [List.takeWhile_append_of_pos hw, takeWhile_of_stops hs, List.append_nil]

theorem dropWhile_append_stops {p : UInt8 → Bool} {w s : Bytes} (hw : ∀ c ∈ w, p c = true)
    (hs : Stops p s) : (w ++ s).dropWhile p = s := by
  rw [List.dropWhile_append_of_pos hw, dropWhile_of_stops hs]

theorem stops_numbersText (ns : List ℕ) {s : Bytes} {p : UInt8 → Bool} (h : p space = false)
    (hs : Stops p s) : Stops p (numbersText ns ++ s) := by
  cases ns with
  | nil => exact hs
  | cons n ns =>
    intro c hc
    have hhead : space = c := Option.some.inj hc
    rw [← hhead]
    exact h

theorem stops_decimal (n : ℕ) (s : Bytes) {p : UInt8 → Bool}
    (h : ∀ c, isdigit c = true → p c = false) : Stops p (decimal n ++ s) := by
  intro c hc
  have hne := decimal_ne_nil n
  rw [List.head?_append_of_ne_nil _ hne] at hc
  exact h c (decimal_isdigit (List.mem_of_mem_head? hc))

theorem nul_not_mem_numbersText (ns : List ℕ) : nul ∉ numbersText ns := by
  intro h
  obtain ⟨n, -, hn⟩ := List.mem_flatMap.mp h
  rcases List.mem_cons.mp hn with hspace | hdigit
  · exact absurd hspace (by decide)
  · exact absurd (decimal_isdigit hdigit) (by decide)

theorem optionalSign_of_stops {s : Bytes} (h : Stops (fun c => c == minus || c == plus) s) :
    optionalSign s = (false, s) := by
  cases s with
  | nil => rfl
  | cons c s =>
    have hc : (c == minus || c == plus) = false := h c rfl
    simp only [Bool.or_eq_false_iff, beq_eq_false_iff_ne, ne_eq] at hc
    simp [optionalSign, hc.1, hc.2]

theorem not_sign_of_isdigit {c : UInt8} (h : isdigit c = true) :
    (c == minus || c == plus) = false := by
  cases hc : (c == minus || c == plus) with
  | false => rfl
  | true =>
    simp only [Bool.or_eq_true, beq_iff_eq] at hc
    rcases hc with rfl | rfl <;> exact absurd h (by decide)

theorem strtoulValue_decimal {n bits : ℕ} (h : n < 2 ^ bits) (hn : n < 2 ^ 64) :
    strtoulValue false (decimal n) bits = n := by
  have hmax : ¬ ulongMax < n := by unfold ulongMax; omega
  simp only [strtoulValue, digitsValue_decimal, hmax, if_false, Bool.false_eq_true]
  exact Nat.mod_eq_of_lt h

theorem read_unsigned_decimal {n bits : ℕ} {s : Bytes} (h : n < 2 ^ bits) (hn : n < 2 ^ 64)
    (hs : Stops isdigit s) :
    (Directive.unsigned bits).read (decimal n ++ s) = some ([.num n], s) := by
  have hskip : skipSpace (decimal n ++ s) = decimal n ++ s :=
    dropWhile_of_stops (stops_decimal n s fun _ hc => not_isspace_of_isdigit hc)
  have hsign := optionalSign_of_stops (stops_decimal n s fun _ hc => not_sign_of_isdigit hc)
  have hdigits : ∀ c ∈ decimal n, isdigit c = true := fun _ hc => decimal_isdigit hc
  simp only [Directive.read, hskip, hsign, readDigits,
    takeWhile_append_stops hdigits hs, dropWhile_append_stops hdigits hs, decimal_ne_nil, if_false,
    strtoulValue_decimal h hn]

theorem scan_cons {d : Directive} {s rest : Bytes} {values : List Value} (ds : List Directive)
    (h : d.read s = some (values, rest)) : scan (d :: ds) s = values ++ scan ds rest := by
  simp [scan, h]

theorem scan_lit (c : UInt8) (ds : List Directive) (s : Bytes) :
    scan (.lit c :: ds) (c :: s) = scan ds s := by
  simp [scan, Directive.read]

theorem scan_white_space (ds : List Directive) (s : Bytes) :
    scan (.white :: ds) (space :: s) = scan (.white :: ds) s := rfl

theorem scan_white_of_stops (ds : List Directive) {s : Bytes} (h : Stops isspace s) :
    scan (.white :: ds) s = scan ds s := by
  have hskip : skipSpace s = s := dropWhile_of_stops h
  simp [scan, Directive.read, hskip]

theorem scan_number {n bits : ℕ} {s : Bytes} (ds : List Directive) (h : n < 2 ^ bits)
    (hn : n < 2 ^ 64) (hs : Stops isdigit s) :
    scan (.white :: .unsigned bits :: ds) (space :: (decimal n ++ s)) = .num n :: scan ds s := by
  rw [scan_white_space,
    scan_white_of_stops _ (stops_decimal n s fun _ hc => not_isspace_of_isdigit hc)]
  simp [scan, read_unsigned_decimal h hn hs]

theorem scan_numbers (l : List (ℕ × ℕ)) (ds : List Directive) (s : Bytes)
    (h : ∀ x ∈ l, x.2 < 2 ^ x.1 ∧ x.2 < 2 ^ 64) (hs : Stops isdigit s) :
    scan (numbers (l.map Prod.fst) ++ ds) (numbersText (l.map Prod.snd) ++ s) =
      l.map (fun x => .num x.2) ++ scan ds s := by
  induction l with
  | nil => rfl
  | cons x l ih =>
    have hx := h x (by simp)
    have hrest := stops_numbersText (l.map Prod.snd) (p := isdigit) (by decide) hs
    have hstep := scan_number (numbers (l.map Prod.fst) ++ ds) hx.1 hx.2 hrest
    have ih' := ih fun y hy => h y (by simp [hy])
    simp only [numbers, numbersText, List.map_cons, List.flatMap_cons, List.cons_append,
      List.nil_append, List.append_assoc] at hstep ih' ⊢
    rw [hstep, ih']

theorem read_str {word s : Bytes} {width : ℕ} (hne : word ≠ [])
    (hword : ∀ c ∈ word, isspace c = false) (hwidth : word.length ≤ width)
    (hs : Stops (fun c => !isspace c) s) :
    (Directive.str width).read (word ++ s) = some ([.text word], s) := by
  have hskip : skipSpace (word ++ s) = word ++ s := by
    refine dropWhile_of_stops fun c hc => ?_
    rw [List.head?_append_of_ne_nil _ hne] at hc
    exact hword c (List.mem_of_mem_head? hc)
  have htake := takeWhile_append_stops (p := fun c => !isspace c) (w := word) (s := s)
    (fun c hc => by simp [hword c hc]) hs
  simp only [Directive.read, hskip, htake, List.take_of_length_le hwidth, hne, if_false,
    List.drop_left]

theorem read_until {word s : Bytes} {stop : UInt8} {width : ℕ} (hne : word ≠ [])
    (hword : stop ∉ word) (hwidth : word.length ≤ width) :
    (Directive.until_ stop width).read (word ++ stop :: s) = some ([.text word], stop :: s) := by
  have htake := takeWhile_append_stops (p := fun c => c != stop) (w := word) (s := stop :: s)
    (fun c hc => by simpa using fun he : c = stop => hword (he ▸ hc))
    (fun c hc => by simp at hc; simp [hc])
  simp only [Directive.read, htake, List.take_of_length_le hwidth, hne, if_false, List.drop_left]

/-- The directives that cannot take the byte `stop` from the input. -/
def Directive.haltsAt (stop : UInt8) : Directive → Prop
  | .white => isspace stop = false
  | .lit c => c ≠ stop
  | .unsigned _ => isspace stop = false ∧ isdigit stop = false ∧ stop ≠ minus ∧ stop ≠ plus
  | .str _ => False
  | .until_ _ _ => False

theorem skipSpace_append_stop {stop : UInt8} (h : isspace stop = false) (s t : Bytes) :
    skipSpace (s ++ stop :: t) = skipSpace s ++ stop :: t := by
  induction s with
  | nil => simp [skipSpace, h]
  | cons c s ih =>
    cases hc : isspace c with
    | true => simpa [skipSpace, hc] using ih
    | false => simp [skipSpace, hc]

theorem readDigits_append_stop {stop : UInt8} (h : isdigit stop = false) (negative : Bool)
    (bits : ℕ) (s t : Bytes) :
    readDigits negative bits (s ++ stop :: t) =
      (readDigits negative bits s).map (fun r => (r.1, r.2 ++ stop :: t)) := by
  have htake : (s ++ stop :: t).takeWhile isdigit = s.takeWhile isdigit := by
    induction s with
    | nil => simp [h]
    | cons c s ih => cases hc : isdigit c <;> simp [hc, ih]
  have hdrop : (s ++ stop :: t).dropWhile isdigit = s.dropWhile isdigit ++ stop :: t := by
    induction s with
    | nil => simp [h]
    | cons c s ih =>
      cases hc : isdigit c with
      | true => simpa [hc] using ih (by simpa [hc] using htake)
      | false => simp [hc]
  by_cases hd : s.takeWhile isdigit = []
  · simp [readDigits, htake, hd]
  · simp [readDigits, htake, hdrop, hd]

theorem read_append_stop {stop : UInt8} {d : Directive} (h : d.haltsAt stop) (s t : Bytes) :
    d.read (s ++ stop :: t) = (d.read s).map (fun r => (r.1, r.2 ++ stop :: t)) := by
  cases d with
  | white => simp [Directive.read, skipSpace_append_stop h]
  | lit c =>
    cases s with
    | nil =>
      have hne : ¬ stop = c := fun he => h he.symm
      simp [Directive.read, hne]
    | cons a s => by_cases ha : a = c <;> simp [Directive.read, ha]
  | str width => exact absurd h id
  | until_ c width => exact absurd h id
  | unsigned bits =>
    obtain ⟨hspace, hdigit, hminus, hplus⟩ := h
    have hsign : optionalSign (skipSpace s ++ stop :: t) =
        ((optionalSign (skipSpace s)).1, (optionalSign (skipSpace s)).2 ++ stop :: t) := by
      cases skipSpace s with
      | nil => simp [optionalSign, hminus, hplus]
      | cons c u =>
        by_cases hm : c = minus
        · simp [optionalSign, hm]
        · by_cases hp : c = plus
          · subst hp; simp [optionalSign, hm]
          · simp [optionalSign, hm, hp]
    simp only [Directive.read, skipSpace_append_stop hspace, hsign, readDigits_append_stop hdigit]

theorem scan_append_stop {stop : UInt8} (ds : List Directive) (h : ∀ d ∈ ds, d.haltsAt stop)
    (s t : Bytes) : scan ds (s ++ stop :: t) = scan ds s := by
  induction ds generalizing s with
  | nil => rfl
  | cons d ds ih =>
    have hd := read_append_stop (h d (by simp)) s t
    simp only [scan, hd]
    cases hr : d.read s with
    | none => rfl
    | some r => simp [ih (fun e he => h e (by simp [he]))]

theorem haltsAt_numbers {stop : UInt8} (hspace : isspace stop = false) (hdigit : isdigit stop = false)
    (hminus : stop ≠ minus) (hplus : stop ≠ plus) (bits : List ℕ) :
    ∀ d ∈ numbers bits, d.haltsAt stop := by
  intro d hd
  obtain ⟨b, -, hb⟩ := List.mem_flatMap.mp hd
  simp only [List.mem_cons, List.not_mem_nil, or_false] at hb
  rcases hb with rfl | rfl
  · exact hspace
  · exact ⟨hspace, hdigit, hminus, hplus⟩

def numberRest (s : Bytes) : Option Bytes :=
  let u := (optionalSign (skipSpace s)).2
  if u.takeWhile isdigit = [] then none else some (u.dropWhile isdigit)

/-- How many of `n` numbers stand at the start of the input. -/
def countNumbers : ℕ → Bytes → ℕ
  | 0, _ => 0
  | n + 1, s =>
    match numberRest s with
    | none => 0
    | some rest => countNumbers n rest + 1

theorem skipSpace_idem (s : Bytes) : skipSpace (skipSpace s) = skipSpace s :=
  dropWhile_of_stops (stops_dropWhile isspace s)

theorem read_unsigned (bits : ℕ) (s : Bytes) :
    ∃ n, (Directive.unsigned bits).read (skipSpace s) =
      (numberRest s).map (fun rest => ([.num n], rest)) := by
  refine ⟨strtoulValue (optionalSign (skipSpace s)).1
    ((optionalSign (skipSpace s)).2.takeWhile isdigit) bits, ?_⟩
  by_cases hd : (optionalSign (skipSpace s)).2.takeWhile isdigit = []
  · simp [Directive.read, readDigits, numberRest, skipSpace_idem, hd]
  · simp [Directive.read, readDigits, numberRest, skipSpace_idem, hd]

theorem countNumbers_skipSpace (n : ℕ) (s : Bytes) :
    countNumbers n (skipSpace s) = countNumbers n s := by
  cases n with
  | zero => rfl
  | succ n => simp [countNumbers, numberRest, skipSpace_idem]

theorem scan_numbers_all_num (bits : List ℕ) (s : Bytes) :
    ∃ ns : List ℕ, scan (numbers bits) s = ns.map .num ∧ ns.length = countNumbers bits.length s := by
  induction bits generalizing s with
  | nil => exact ⟨[], rfl, rfl⟩
  | cons b bits ih =>
    change ∃ ns : List ℕ, scan (.unsigned b :: numbers bits) (skipSpace s) = ns.map .num ∧ _
    obtain ⟨n, hread⟩ := read_unsigned b s
    cases hrest : numberRest s with
    | none => exact ⟨[], by simp [scan, hread, hrest], by simp [countNumbers, hrest]⟩
    | some rest =>
      obtain ⟨ns, hscan, hlen⟩ := ih rest
      exact ⟨n :: ns, by simp [scan, hread, hrest, hscan], by simp [countNumbers, hrest, hlen]⟩

theorem countNumbers_succ {s : Bytes} {n : ℕ} (h : countNumbers (n + 1) s = n + 1) :
    ∃ rest, numberRest s = some rest ∧ countNumbers n rest = n := by
  cases hrest : numberRest s with
  | none => simp [countNumbers, hrest] at h
  | some rest => exact ⟨rest, rfl, by simpa [countNumbers, hrest] using h⟩

theorem countNumbers_of_succ {s : Bytes} {n : ℕ} (h : countNumbers (n + 1) s = n + 1) :
    countNumbers n s = n := by
  induction n generalizing s with
  | zero => rfl
  | succ n ih =>
    obtain ⟨rest, hrest, hcount⟩ := countNumbers_succ h
    simp [countNumbers, hrest, ih hcount]

/-- A `0` read alone before a number, or as the start of that number: the numbers behind
    are read as far. -/
theorem countNumbers_zero_cons {s : Bytes} {n : ℕ} (h : countNumbers (n + 1) s = n + 1) :
    countNumbers (n + 1) (zero :: s) = n + 1 := by
  have hzero : numberRest (zero :: s) = some (s.dropWhile isdigit) := rfl
  suffices hrest : countNumbers n (s.dropWhile isdigit) = n by
    simp [countNumbers, hzero, hrest]
  cases s with
  | nil => exact countNumbers_of_succ h
  | cons a s =>
    cases ha : isdigit a with
    | false =>
      rw [dropWhile_of_stops fun c hc => Option.some.inj hc ▸ ha]
      exact countNumbers_of_succ h
    | true =>
      obtain ⟨rest, hrest, hcount⟩ := countNumbers_succ h
      have hskip : skipSpace (a :: s) = a :: s := by simp [skipSpace, not_isspace_of_isdigit ha]
      have hsign : optionalSign (a :: s) = (false, a :: s) :=
        optionalSign_of_stops fun c hc => Option.some.inj hc ▸ not_sign_of_isdigit ha
      have hdrop : numberRest (a :: s) = some ((a :: s).dropWhile isdigit) := by
        simp [numberRest, hskip, hsign, ha]
      rw [hdrop] at hrest
      rw [Option.some.inj hrest]
      exact hcount

end Xdccget.Scanf
