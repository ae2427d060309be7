import Xdccget.Scanf

set_option autoImplicit false

/-!
# The speed limit

`setMaxTransferSpeed` reads an `int` and a size name, and multiplies in 64 bits.
Zero is `NO_SPEED_LIMIT`.
-/
namespace Xdccget.SpeedLimits
open CText Scanf

/-- What `%d` stores for a number. The library is free outside the range of `int`. -/
structure IntStore where
  store : ℤ → ℤ
  range : ∀ n, -2 ^ 31 ≤ store n ∧ store n < 2 ^ 31
  exact : ∀ n, -2 ^ 31 ≤ n → n < 2 ^ 31 → store n = n

def IntStore.wrap : IntStore where
  store n := (n + 2 ^ 31) % 2 ^ 32 - 2 ^ 31
  range n := by omega
  exact n hlow hhigh := by omega

def signed (negative : Bool) (digits : Bytes) : ℤ :=
  if negative then -(digitsValue digits : ℤ) else digitsValue digits

/-- The number that `%d` finds, and the input behind it. -/
def scanInt (s : Bytes) : Option (ℤ × Bytes) :=
  let t := optionalSign (skipSpace s)
  let digits := t.2.takeWhile isdigit
  if digits = [] then none else some (signed t.1 digits, t.2.dropWhile isdigit)

def sizeWidth : ℕ := 100

structure SpeedItems where
  ret : ℕ
  val : ℤ
  size : Bytes

/-- `sscanf(value, "%d%100s", &val, size)` -/
def sscanfSpeed (int : IntStore) (value : Bytes) : SpeedItems :=
  match scanInt (cstr value) with
  | none => ⟨0, 0, []⟩
  | some (n, rest) =>
    match (Directive.str sizeWidth).read rest with
    | some ([.text size], _) => ⟨2, int.store n, size⟩
    | _ => ⟨1, int.store n, []⟩

def sizeNames : List Bytes :=
  [bytes "Byte", bytes "KByte", bytes "MByte", bytes "GByte", bytes "TByte", bytes "PByte"]

def powUint64 (number : ℕ) : ℕ → ℕ
  | 0 => 1
  | exp + 1 => powUint64 number exp * number % 2 ^ 64

/-- The 64-bit product. A name that is not known gives `-1`. -/
def getSizeOf (value : ℕ) (size : Bytes) : ℕ :=
  match sizeNames.findIdx? (· = size) with
  | none => 2 ^ 64 - 1
  | some foundSize => value * powUint64 1024 foundSize % 2 ^ 64

def noSpeedLimit : ℕ := 0

/-- An `int` where an `unsigned int` is expected. -/
def toUnsigned (val : ℤ) : ℕ := (val % 2 ^ 32).toNat

/-- The `maxTransferSpeed` that is stored. -/
def setMaxTransferSpeed (int : IntStore) (value : Bytes) : ℕ :=
  let items := sscanfSpeed int value
  if items.ret = 2 then
    let maxSpeed := getSizeOf (toUnsigned items.val) items.size
    if 0 < maxSpeed then maxSpeed else noSpeedLimit
  else noSpeedLimit

/-- A number and a word, as the format sees them. Anything may follow behind a blank. -/
structure Reads (value : Bytes) (n : ℤ) (word : Bytes) : Prop where
  parts : ∃ blanks sign digits gap rest : Bytes,
    cstr value = blanks ++ (sign ++ (digits ++ (gap ++ (word ++ rest)))) ∧
    (∀ c ∈ blanks ++ gap, isspace c = true) ∧
    (sign = [] ∨ sign = [plus] ∨ sign = [minus]) ∧
    digits ≠ [] ∧ (∀ c ∈ digits, isdigit c = true) ∧
    n = signed (sign = [minus]) digits ∧
    word ≠ [] ∧ (∀ c ∈ word, isspace c = false) ∧ Stops isdigit (gap ++ word) ∧
    Stops (fun c => !isspace c) rest

/-- A positive `int` with the name of a size, whose product fits in 64 bits. -/
def Limit (value : Bytes) (n : ℤ) (k : ℕ) : Prop :=
  ∃ word, Reads value n word ∧ sizeNames[k]? = some word ∧
    0 < n ∧ n < 2 ^ 31 ∧ n * 1024 ^ k < 2 ^ 64

structure LimitRight (int : IntStore) (value : Bytes) : Prop where
  exact : ∀ n k, Limit value n k → (setMaxTransferSpeed int value : ℤ) = n * 1024 ^ k
  none : (¬ ∃ n k, Limit value n k) → setMaxTransferSpeed int value = noSpeedLimit

theorem powUint64_eq {k : ℕ} (h : k < 6) : powUint64 1024 k = 1024 ^ k := by
  interval_cases k <;> decide

theorem sizeNames_lt {k : ℕ} {word : Bytes} (h : sizeNames[k]? = some word) : k < 6 :=
  (List.getElem?_eq_some_iff.mp h).1

theorem sizeNames_findIdx {k : ℕ} {word : Bytes} (h : sizeNames[k]? = some word) :
    sizeNames.findIdx? (· = word) = some k ∧ word.length ≤ sizeWidth := by
  have hk := sizeNames_lt h
  interval_cases k <;> obtain rfl := Option.some.inj h <;> decide

theorem getSizeOf_name {value k : ℕ} {word : Bytes} (h : sizeNames[k]? = some word) :
    getSizeOf value word = value * 1024 ^ k % 2 ^ 64 := by
  rw [getSizeOf, (sizeNames_findIdx h).1]
  dsimp only
  rw [powUint64_eq (sizeNames_lt h)]

theorem getSizeOf_unknown {value : ℕ} {word : Bytes} (h : ∀ k : ℕ, sizeNames[k]? ≠ some word) :
    getSizeOf value word = 2 ^ 64 - 1 := by
  have hnone : sizeNames.findIdx? (· = word) = none := by
    rw [List.findIdx?_eq_none_iff]
    intro name hname
    obtain ⟨k, hk⟩ := List.mem_iff_getElem?.mp hname
    simpa using fun he : name = word => h k (he ▸ hk)
  rw [getSizeOf, hnone]

theorem product_zero_iff {val : ℤ} {k : ℕ} (hk : k < 6) (hlow : -2 ^ 31 ≤ val)
    (hhigh : val < 2 ^ 31) :
    toUnsigned val * 1024 ^ k % 2 ^ 64 = 0 ↔ 2 ^ (64 - 10 * k) ∣ val := by
  have hcast : (toUnsigned val : ℤ) = val % 2 ^ 32 := Int.toNat_of_nonneg (by omega)
  have hsmall : toUnsigned val < 2 ^ 32 := by omega
  have hmod : (toUnsigned val : ℤ) = val ∨ (toUnsigned val : ℤ) = val + 2 ^ 32 := by omega
  clear hcast
  interval_cases k <;> omega

theorem stops_spaces {gap word : Bytes} (hgap : ∀ c ∈ gap, isspace c = true)
    (hword : ∀ c ∈ word, isspace c = false) (rest : Bytes) (hne : word ≠ []) :
    skipSpace (gap ++ (word ++ rest)) = word ++ rest := by
  have hstops : Stops isspace (word ++ rest) := by
    cases word with
    | nil => exact absurd rfl hne
    | cons c word =>
      intro a ha
      obtain rfl := Option.some.inj ha
      exact hword _ List.mem_cons_self
  exact dropWhile_append_stops hgap hstops

theorem scanInt_of_parts {blanks sign digits rest : Bytes} (hblanks : ∀ c ∈ blanks, isspace c = true)
    (hsign : sign = [] ∨ sign = [plus] ∨ sign = [minus]) (hne : digits ≠ [])
    (hdigits : ∀ c ∈ digits, isdigit c = true) (hrest : Stops isdigit rest) :
    scanInt (blanks ++ (sign ++ (digits ++ rest))) =
      some (signed (sign = [minus]) digits, rest) := by
  have hskip : skipSpace (blanks ++ (sign ++ (digits ++ rest))) = sign ++ (digits ++ rest) := by
    apply dropWhile_append_stops hblanks
    cases digits with
    | nil => exact absurd rfl hne
    | cons d digits =>
      have hd := not_isspace_of_isdigit (hdigits d List.mem_cons_self)
      rcases hsign with rfl | rfl | rfl <;> intro c hc <;> obtain rfl := Option.some.inj hc
      · exact hd
      · decide
      · decide
  have hsplit : optionalSign (sign ++ (digits ++ rest)) =
      (decide (sign = [minus]), digits ++ rest) := by
    rcases hsign with rfl | rfl | rfl
    · cases digits with
      | nil => exact absurd rfl hne
      | cons d digits =>
        have hd := hdigits d List.mem_cons_self
        have hminus : d ≠ minus := fun he => by rw [he] at hd; revert hd; decide
        have hplus : d ≠ plus := fun he => by rw [he] at hd; revert hd; decide
        simp [optionalSign, hminus, hplus]
    · rfl
    · rfl
  rw [scanInt, hskip, hsplit]
  dsimp only
  rw [takeWhile_append_stops hdigits hrest, dropWhile_append_stops hdigits hrest, if_neg hne]

theorem scan_of_reads {value word : Bytes} {n : ℤ} (h : Reads value n word) : ∃ rest,
    scanInt (cstr value) = some (n, rest) ∧
      (skipSpace rest).takeWhile (fun c => !isspace c) = word := by
  obtain ⟨blanks, sign, digits, gap, rest, hvalue, hspace, hsign, hne, hdigits, hn, hword, hnospace,
    hstops, hrest⟩ := h.parts
  have hrestStops : Stops isdigit (gap ++ (word ++ rest)) := by
    intro c hc
    apply hstops c
    rw [← List.append_assoc, List.head?_append_of_ne_nil _ (by simp [hword])] at hc
    exact hc
  refine ⟨gap ++ (word ++ rest), ?_, ?_⟩
  · rw [hvalue, hn]
    exact scanInt_of_parts (fun c hc => hspace c (List.mem_append_left _ hc)) hsign hne hdigits
      hrestStops
  · rw [stops_spaces (fun c hc => hspace c (List.mem_append_right _ hc)) hnospace rest hword]
    exact takeWhile_append_stops (fun c hc => by rw [hnospace c hc]; rfl) hrest

theorem reads_unique {value word word' : Bytes} {n n' : ℤ} (h : Reads value n word)
    (h' : Reads value n' word') : n = n' ∧ word = word' := by
  obtain ⟨rest, hscan, hword⟩ := scan_of_reads h
  obtain ⟨rest', hscan', hword'⟩ := scan_of_reads h'
  obtain ⟨hn, hrest⟩ := Prod.mk.inj (Option.some.inj (hscan.symm.trans hscan'))
  exact ⟨hn, by rw [← hword, hrest, hword']⟩

theorem sscanfSpeed_of_reads (int : IntStore) {value word : Bytes} {n : ℤ}
    (h : Reads value n word) :
    sscanfSpeed int value = ⟨2, int.store n, word.take sizeWidth⟩ := by
  obtain ⟨rest, hscan, hword⟩ := scan_of_reads h
  obtain ⟨-, -, -, -, -, -, -, -, -, -, -, hne, -⟩ := h.parts
  have hcut : word.take sizeWidth ≠ [] := by
    rw [Ne, List.take_eq_nil_iff]
    exact fun h => h.elim (by decide) hne
  rw [sscanfSpeed, hscan]
  dsimp only
  rw [Directive.read, hword, if_neg hcut]

theorem optionalSign_parts (s : Bytes) : ∃ sign : Bytes,
    (sign = [] ∨ sign = [plus] ∨ sign = [minus]) ∧
      s = sign ++ (optionalSign s).2 ∧ (optionalSign s).1 = decide (sign = [minus]) := by
  cases s with
  | nil => exact ⟨[], .inl rfl, rfl, rfl⟩
  | cons c s =>
    by_cases hminus : c = minus
    · refine ⟨[minus], .inr (.inr rfl), ?_⟩
      simp [optionalSign, hminus]
    · by_cases hplus : c = plus
      · refine ⟨[plus], .inr (.inl rfl), ?_⟩
        rw [hplus]
        exact ⟨rfl, rfl⟩
      · refine ⟨[], .inl rfl, ?_⟩
        simp [optionalSign, hminus, hplus]

theorem reads_of_sscanfSpeed (int : IntStore) {value : Bytes} (h : (sscanfSpeed int value).ret = 2) :
    ∃ n word, Reads value n word := by
  rw [sscanfSpeed, scanInt] at h
  generalize hblanks : (cstr value).takeWhile isspace = blanks at h
  generalize hs : skipSpace (cstr value) = s at h
  have hvalue : cstr value = blanks ++ s := by
    rw [← hblanks, ← hs]
    exact List.takeWhile_append_dropWhile.symm
  obtain ⟨sign, hsign, hsplit, hnegative⟩ := optionalSign_parts s
  generalize (optionalSign s).2 = t at h hsplit
  by_cases hdigits : t.takeWhile isdigit = []
  · simp [hdigits] at h
  · simp only [hdigits, if_false, Directive.read] at h
    generalize hrest : t.dropWhile isdigit = rest at h
    have ht : t = t.takeWhile isdigit ++ rest := by
      rw [← hrest]
      exact List.takeWhile_append_dropWhile.symm
    generalize hu : skipSpace rest = u at h
    have hgap : rest = rest.takeWhile isspace ++ u := by
      rw [← hu]
      exact List.takeWhile_append_dropWhile.symm
    by_cases hword : u.takeWhile (fun c => !isspace c) = []
    · simp [hword] at h
    · have hu' : u = u.takeWhile (fun c => !isspace c) ++ u.dropWhile (fun c => !isspace c) :=
        List.takeWhile_append_dropWhile.symm
      refine ⟨signed (sign = [minus]) (t.takeWhile isdigit), u.takeWhile (fun c => !isspace c),
        ⟨blanks, sign, t.takeWhile isdigit, rest.takeWhile isspace,
          u.dropWhile (fun c => !isspace c), ?_, ?_, hsign, hdigits, ?_, rfl, hword, ?_, ?_, ?_⟩⟩
      · rw [← hu', ← hgap, ← ht, ← hsplit, hvalue]
      · intro c hc
        rcases List.mem_append.mp hc with hc | hc
        · rw [← hblanks] at hc
          exact List.mem_takeWhile_imp hc
        · exact List.mem_takeWhile_imp hc
      · exact fun c hc => List.mem_takeWhile_imp hc
      · intro c hc
        have hnot := List.mem_takeWhile_imp hc
        simpa using hnot
      · have hstops : Stops isdigit rest := hrest ▸ stops_dropWhile isdigit t
        intro c hc
        apply hstops c
        rw [hgap, hu', ← List.append_assoc, List.head?_append_of_ne_nil _ (by simp [hword])]
        exact hc
      · exact stops_dropWhile _ u

theorem setMaxTransferSpeed_of_reads (int : IntStore) {value word : Bytes} {n : ℤ}
    (h : Reads value n word) :
    setMaxTransferSpeed int value = getSizeOf (toUnsigned (int.store n)) (word.take sizeWidth) := by
  rw [setMaxTransferSpeed, sscanfSpeed_of_reads int h]
  dsimp only
  rw [if_pos rfl]
  split
  · rfl
  · next hzero => exact (Nat.eq_zero_of_not_pos hzero).symm

theorem setMaxTransferSpeed_unread (int : IntStore) {value : Bytes}
    (h : ¬ ∃ n word, Reads value n word) : setMaxTransferSpeed int value = noSpeedLimit := by
  rw [setMaxTransferSpeed]
  exact if_neg fun hret => h (reads_of_sscanfSpeed int hret)

theorem setMaxTransferSpeed_name (int : IntStore) {value word : Bytes} {n : ℤ} {k : ℕ}
    (h : Reads value n word) (hk : sizeNames[k]? = some word) :
    setMaxTransferSpeed int value = toUnsigned (int.store n) * 1024 ^ k % 2 ^ 64 := by
  rw [setMaxTransferSpeed_of_reads int h, List.take_of_length_le (sizeNames_findIdx hk).2,
    getSizeOf_name hk]

theorem setMaxTransferSpeed_unknown (int : IntStore) {value word : Bytes} {n : ℤ}
    (h : Reads value n word) (hk : ∀ k : ℕ, sizeNames[k]? ≠ some word) :
    setMaxTransferSpeed int value = 2 ^ 64 - 1 := by
  rw [setMaxTransferSpeed_of_reads int h, getSizeOf_unknown]
  intro k hcut
  -- A name is shorter than the width, so a word that was cut is none.
  have hshort : word.length ≤ sizeWidth := by
    have hk6 := sizeNames_lt hcut
    have hlength : (word.take sizeWidth).length ≤ 5 := by
      interval_cases k <;> obtain he := Option.some.inj hcut <;> rw [← he] <;> decide
    rw [List.length_take] at hlength
    unfold sizeWidth at hlength ⊢
    omega
  exact hk k (List.take_of_length_le hshort ▸ hcut)

theorem limit_iff {value word : Bytes} {n : ℤ} {k : ℕ} (h : Reads value n word)
    (hk : sizeNames[k]? = some word) (n' : ℤ) (k' : ℕ) :
    Limit value n' k' ↔ n' = n ∧ k' = k ∧ 0 < n ∧ n < 2 ^ 31 ∧ n * 1024 ^ k < 2 ^ 64 := by
  constructor
  · rintro ⟨word', hread, hk', hbounds⟩
    obtain ⟨rfl, rfl⟩ := reads_unique h hread
    obtain rfl := Option.some.inj ((sizeNames_findIdx hk).1.symm.trans (sizeNames_findIdx hk').1)
    exact ⟨rfl, rfl, hbounds⟩
  · rintro ⟨rfl, rfl, hbounds⟩
    exact ⟨word, h, hk, hbounds⟩

theorem toUnsigned_product {n : ℤ} {k : ℕ} (hpos : 0 < n) (hint : n < 2 ^ 31)
    (hfits : n * 1024 ^ k < 2 ^ 64) : ((toUnsigned n * 1024 ^ k % 2 ^ 64 : ℕ) : ℤ) = n * 1024 ^ k := by
  have hcast : (toUnsigned n : ℤ) = n := by
    rw [toUnsigned, Int.toNat_of_nonneg (by omega)]
    omega
  have hproduct : ((toUnsigned n * 1024 ^ k : ℕ) : ℤ) = n * 1024 ^ k := by
    push_cast
    rw [hcast]
  have hlt : toUnsigned n * 1024 ^ k < 2 ^ 64 := by
    rw [← hproduct] at hfits
    exact_mod_cast hfits
  rw [Nat.mod_eq_of_lt hlt, hproduct]

theorem limitRight_name (int : IntStore) {value word : Bytes} {n : ℤ} {k : ℕ}
    (h : Reads value n word) (hk : sizeNames[k]? = some word) :
    LimitRight int value ↔
      0 < n ∧ n < 2 ^ 31 ∧ n * 1024 ^ k < 2 ^ 64 ∨ 2 ^ (64 - 10 * k) ∣ int.store n := by
  have hset := setMaxTransferSpeed_name int h hk
  by_cases hbounds : 0 < n ∧ n < 2 ^ 31 ∧ n * 1024 ^ k < 2 ^ 64
  · refine iff_of_true ⟨?_, ?_⟩ (.inl hbounds)
    · intro n' k' hlimit
      obtain ⟨rfl, rfl, hpos, hint, hfits⟩ := (limit_iff h hk n' k').mp hlimit
      rw [hset, int.exact _ (by omega) hint]
      exact toUnsigned_product hpos hint hfits
    · exact fun hnone => absurd ⟨n, k, (limit_iff h hk n k).mpr ⟨rfl, rfl, hbounds⟩⟩ hnone
  · have hnone : ¬ ∃ n' k', Limit value n' k' := by
      rintro ⟨n', k', hlimit⟩
      exact hbounds ((limit_iff h hk n' k').mp hlimit).2.2
    have hdvd := product_zero_iff (sizeNames_lt hk) (int.range n).1 (int.range n).2
    rw [or_iff_right hbounds, ← hdvd, ← hset]
    constructor
    · exact fun hright => hright.none hnone
    · intro hzero
      exact ⟨fun n' k' hlimit => absurd ⟨n', k', hlimit⟩ hnone, fun _ => hzero⟩

theorem not_limitRight_unknown (int : IntStore) {value word : Bytes} {n : ℤ}
    (h : Reads value n word) (hk : ∀ k : ℕ, sizeNames[k]? ≠ some word) :
    ¬ LimitRight int value := by
  intro hright
  have hnone : ¬ ∃ n' k', Limit value n' k' := by
    rintro ⟨n', k', word', hread, hk', -⟩
    obtain ⟨-, rfl⟩ := reads_unique h hread
    exact hk k' hk'
  have hset := hright.none hnone
  rw [setMaxTransferSpeed_unknown int h hk] at hset
  exact absurd hset (by decide)

/-- The limit is right exactly for a text that no two items are read of, and for a size name
behind a number that is a limit, or that the product leaves nothing of. -/
theorem limitRight_iff (int : IntStore) (value : Bytes) :
    LimitRight int value ↔ ∀ n word, Reads value n word → ∃ k : ℕ, sizeNames[k]? = some word ∧
      (0 < n ∧ n < 2 ^ 31 ∧ n * 1024 ^ k < 2 ^ 64 ∨ 2 ^ (64 - 10 * k) ∣ int.store n) := by
  by_cases hread : ∃ n word, Reads value n word
  · obtain ⟨n, word, hread⟩ := hread
    constructor
    · intro hright n' word' hread'
      by_cases hk : ∃ k : ℕ, sizeNames[k]? = some word'
      · obtain ⟨k, hk⟩ := hk
        exact ⟨k, hk, (limitRight_name int hread' hk).mp hright⟩
      · exact absurd hright (not_limitRight_unknown int hread' fun k hk' => hk ⟨k, hk'⟩)
    · intro h
      obtain ⟨k, hk, hnumber⟩ := h n word hread
      exact (limitRight_name int hread hk).mpr hnumber
  · refine iff_of_true ⟨?_, ?_⟩ ?_
    · rintro n k ⟨word, hlimit, -⟩
      exact absurd ⟨n, word, hlimit⟩ hread
    · exact fun _ => setMaxTransferSpeed_unread int hread
    · exact fun n word h => absurd ⟨n, word, h⟩ hread

/-- A word that names no size gives the largest limit there is, not none. -/
theorem unknown_name_limits : ¬ LimitRight IntStore.wrap (bytes "5foo") := by
  have hdigits : (bytes "5").all isdigit = true := by decide
  have hword : (bytes "foo").all (fun c => !isspace c) = true := by decide
  have hread : Reads (bytes "5foo") 5 (bytes "foo") := by
    refine ⟨[], [], bytes "5", [], [], by decide, List.forall_mem_nil _, .inl rfl, by decide,
      List.all_eq_true.mp hdigits, by decide, by decide, ?_, ?_, ?_⟩
    · intro c hc
      simpa using List.all_eq_true.mp hword c hc
    · intro c hc
      obtain rfl := Option.some.inj hc
      decide
    · exact fun c hc => nomatch hc
  apply not_limitRight_unknown IntStore.wrap hread
  intro k hk
  have hk6 := sizeNames_lt hk
  interval_cases k <;> revert hk <;> decide

end Xdccget.SpeedLimits
