import Xdccget.ColorSizing
import Xdccget.SelectedPlaces

set_option autoImplicit false

/-!
# Stripped messages

What a colour code takes with it is the longest argument behind it. The bytes that are kept
are all others except the controls.
-/
namespace Xdccget.ColorStrip
open CText SizedWriters ColorCodes ColorSizing SelectedPlaces

def controls : Bytes := [0x02, 0x03, 0x0F, 0x16, 0x1F]

inductive Number : Bytes → Prop
  | one {c : UInt8} (hc : isdigit c = true) : Number [c]
  | two {c d : UInt8} (hc : isdigit c = true) (hd : isdigit d = true) : Number [c, d]

inductive Argument : Bytes → Prop
  | color {a : Bytes} (ha : Number a) : Argument a
  | both {a b : Bytes} (ha : Number a) (hb : Number b) : Argument (a ++ comma :: b)

/-- The argument that `rest` begins with, as long as possible. -/
structure ArgumentOf (rest arg : Bytes) : Prop where
  begins : arg <+: rest
  argument : Argument arg
  longest : ∀ other, Argument other → other <+: rest → other.length ≤ arg.length

def InArgument (message : Bytes) (i : ℕ) : Prop :=
  ∃ k arg, message[k]? = some 0x03 ∧ ArgumentOf (message.drop (k + 1)) arg ∧
    k < i ∧ i ≤ k + arg.length

/-- The byte is no control and not part of a colour argument. -/
def Kept (message : Bytes) (i : ℕ) : Prop :=
  (∀ c, message[i]? = some c → c ∉ controls) ∧ ¬ InArgument message i

def Returns (malloc : BitVec 32 → Bool) (message : Bytes) (result : Option Line) : Prop :=
  ∃ fuel, ircColorStripFromMirc malloc message fuel = some result

structure Stripped (message : Bytes) (line : Line) : Prop where
  fits : line.Fits
  kept : Selects (Kept message) message line.text
  sublist : line.text.Sublist message
  noControl : ∀ c ∈ line.text, c ∉ controls

def StripsRight (message : Bytes) : Prop :=
  ∀ malloc, ∃ result, Returns malloc message result ∧ (result = none → ∃ n, malloc n = false) ∧
    ∀ line, result = some line → Stripped (cstr message) line ∧ Returns malloc line.text (some line)

theorem number_of_maximal {a t : Bytes} {e : UInt8} (ha : Number a) (he : isdigit e = false) :
    ∃ v, number (a ++ e :: t) = some (v, a.length) := by
  have hnone : ¬ isdigit e = true := by rw [he]; decide
  cases ha with
  | @one c hc =>
    rw [List.singleton_append, number_cons_cons, if_pos hc, if_neg hnone]
    exact ⟨_, rfl⟩
  | @two c d hc hd =>
    rw [List.cons_append, List.cons_append, number_cons_cons, if_pos hc, if_pos hd]
    exact ⟨_, rfl⟩

theorem number_of_begins {a s : Bytes} (ha : Number a) (h : a <+: s) :
    ∃ v n, number s = some (v, n) ∧ a.length ≤ n := by
  obtain ⟨t, rfl⟩ := h
  cases ha with
  | @one c hc =>
    cases t with
    | nil =>
      rw [List.append_nil, number_single, if_pos hc]
      exact ⟨_, _, rfl, le_refl 1⟩
    | cons d t =>
      rw [List.singleton_append, number_cons_cons, if_pos hc]
      split
      · exact ⟨_, _, rfl, Nat.le_succ 1⟩
      · exact ⟨_, _, rfl, le_refl 1⟩
  | @two c d hc hd =>
    rw [List.cons_append, List.cons_append, number_cons_cons, if_pos hc, if_pos hd]
    exact ⟨_, _, rfl, le_refl 2⟩

theorem number_take {s : Bytes} {v n : ℕ} (h : number s = some (v, n)) :
    Number (s.take n) ∧ n ≤ s.length := by
  match s, h with
  | [c], h =>
    rw [number_single] at h
    split at h
    · next hc =>
      cases h
      exact ⟨.one hc, le_refl 1⟩
    · cases h
  | c :: d :: rest, h =>
    rw [number_cons_cons] at h
    split_ifs at h with hc hd
    · cases h
      exact ⟨.two hc hd, by simp⟩
    · cases h
      exact ⟨.one hc, by simp⟩

theorem argument_le_moved {arg rest : Bytes} (h : Argument arg) (hbegins : arg <+: rest) :
    ∃ a, colorArgument rest = some a ∧ arg.length ≤ a.moved := by
  cases h with
  | color ha =>
    obtain ⟨v, n, hnumber, hle⟩ := number_of_begins ha hbegins
    rw [colorArgument, hnumber]
    dsimp only
    cases background (rest.drop n) with
    | none => exact ⟨_, rfl, hle⟩
    | some r => exact ⟨_, rfl, hle.trans (Nat.le_add_right n _)⟩
  | @both a b ha hb =>
    obtain ⟨t, rfl⟩ := hbegins
    obtain ⟨v, hnumber⟩ := number_of_maximal (t := b ++ t) ha (by decide : isdigit comma = false)
    obtain ⟨w, m, hbackground, hle⟩ := number_of_begins hb (List.prefix_append b t)
    rw [colorArgument, List.append_assoc, List.cons_append, hnumber]
    dsimp only
    rw [List.drop_left, background, if_pos rfl, hbackground]
    refine ⟨_, rfl, ?_⟩
    rw [List.length_append, List.length_cons]
    dsimp only
    omega

theorem background_cases {s : Bytes} {w m : ℕ} (h : background s = some (w, m)) :
    ∃ more, s = comma :: more ∧ number more = some (w, m) := by
  cases s with
  | nil => cases h
  | cons c more =>
    rw [background] at h
    split at h
    · next hc => exact ⟨more, by rw [hc], h⟩
    · cases h

theorem take_moved {rest : Bytes} {a : ColorArgument} (h : colorArgument rest = some a) :
    Argument (rest.take a.moved) ∧ a.moved ≤ rest.length := by
  unfold colorArgument at h
  split at h
  · cases h
  · next v n hnumber =>
    obtain ⟨ha, hn⟩ := number_take hnumber
    split at h
    · cases h
      exact ⟨.color ha, hn⟩
    · next w m hbackground =>
      obtain ⟨more, hmore, hsecond⟩ := background_cases hbackground
      obtain ⟨hb, hm⟩ := number_take hsecond
      have hlen := congrArg List.length hmore
      rw [List.length_drop, List.length_cons] at hlen
      cases h
      dsimp only
      refine ⟨?_, by omega⟩
      rw [List.take_add, hmore, Nat.add_comm 1 m, List.take_succ_cons]
      exact .both ha hb

theorem argumentOf_iff_moved (rest : Bytes) (j : ℕ) :
    (∃ arg, ArgumentOf rest arg ∧ j < arg.length) ↔ j < movedBy 0x03 rest := by
  rw [movedBy, if_pos rfl]
  cases h : colorArgument rest with
  | none =>
    refine iff_of_false ?_ (Nat.not_lt_zero j)
    rintro ⟨arg, harg, -⟩
    obtain ⟨a, ha, -⟩ := argument_le_moved harg.argument harg.begins
    rw [h] at ha
    cases ha
  | some a =>
    obtain ⟨htake, hle⟩ := take_moved h
    have hlen : (rest.take a.moved).length = a.moved := List.length_take_of_le hle
    change _ ↔ j < a.moved
    constructor
    · rintro ⟨arg, harg, hj⟩
      obtain ⟨b, hb, hmoved⟩ := argument_le_moved harg.argument harg.begins
      rw [h] at hb
      cases hb
      omega
    · intro hj
      refine ⟨rest.take a.moved, ⟨List.take_prefix _ _, htake, ?_⟩, by omega⟩
      intro other hother hbegins
      obtain ⟨b, hb, hmoved⟩ := argument_le_moved hother hbegins
      rw [h] at hb
      cases hb
      omega

theorem inArgument_cons (c : UInt8) (rest : Bytes) (i : ℕ) : InArgument (c :: rest) i ↔
    (c = 0x03 ∧ ∃ arg, ArgumentOf rest arg ∧ 0 < i ∧ i ≤ arg.length) ∨
      ∃ j, i = j + 1 ∧ InArgument rest j := by
  constructor
  · rintro ⟨k, arg, hk, harg, hlt, hle⟩
    cases k with
    | zero =>
      left
      exact ⟨Option.some.inj hk, arg, harg, hlt, by omega⟩
    | succ k =>
      right
      exact ⟨i - 1, by omega, k, arg, hk, harg, by omega, by omega⟩
  · rintro (⟨rfl, arg, harg, hlt, hle⟩ | ⟨j, rfl, k, arg, hk, harg, hlt, hle⟩)
    · exact ⟨0, arg, rfl, harg, hlt, by omega⟩
    · exact ⟨k + 1, arg, hk, harg, by omega, by omega⟩

theorem kept_zero (c : UInt8) (rest : Bytes) : Kept (c :: rest) 0 ↔ c ∉ controls := by
  have hnot : ¬ InArgument (c :: rest) 0 := by
    rintro ⟨k, arg, -, -, hlt, -⟩
    omega
  constructor
  · exact fun h => h.1 c rfl
  · refine fun hc => ⟨?_, hnot⟩
    intro d hd
    rwa [← Option.some.inj hd]

theorem kept_succ (c : UInt8) (rest : Bytes) (j : ℕ) :
    Kept (c :: rest) (j + 1) ↔ movedBy c rest ≤ j ∧ Kept rest j := by
  rw [Kept, Kept, List.getElem?_cons_succ, inArgument_cons]
  have hrest : (∃ k, j + 1 = k + 1 ∧ InArgument rest k) ↔ InArgument rest j := by
    constructor
    · rintro ⟨k, hk, h⟩
      rwa [Nat.succ.inj hk]
    · exact fun h => ⟨j, rfl, h⟩
  have hfirst : (c = 0x03 ∧ ∃ arg, ArgumentOf rest arg ∧ 0 < j + 1 ∧ j + 1 ≤ arg.length) ↔
      j < movedBy c rest := by
    by_cases hc : c = 0x03
    · subst hc
      rw [← argumentOf_iff_moved]
      simp
    · rw [movedBy, if_neg hc]
      simp [hc]
  rw [hrest, hfirst, not_or, Nat.not_lt]
  exact and_left_comm

theorem Number.isdigit {a : Bytes} (h : Number a) : ∀ c ∈ a, isdigit c = true := by
  cases h with
  | one hc => simpa using hc
  | two hc hd => simpa using ⟨hc, hd⟩

theorem Argument.no_code {arg : Bytes} (h : Argument arg) : 0x03 ∉ arg := by
  have hnumber : ∀ {a : Bytes}, Number a → 0x03 ∉ a := by
    intro a ha hmem
    exact absurd (ha.isdigit 0x03 hmem) (by decide)
  cases h with
  | color ha => exact hnumber ha
  | both ha hb =>
    rw [List.mem_append, List.mem_cons]
    rintro (hmem | hmem | hmem)
    · exact hnumber ha hmem
    · exact absurd hmem (by decide)
    · exact hnumber hb hmem

theorem no_code_in_moved (c : UInt8) (rest : Bytes) : 0x03 ∉ rest.take (movedBy c rest) := by
  rw [movedBy]
  split
  · cases h : colorArgument rest with
    | none => exact List.not_mem_nil
    | some a => exact (take_moved h).1.no_code
  · exact List.not_mem_nil

def plainByte : Token → Option UInt8
  | .plain c => some c
  | _ => none

def plainBytes (ts : List Token) : Bytes := ts.filterMap plainByte

theorem plainBytes_token (c : UInt8) (rest : Bytes) :
    plainBytes (token c rest).toList = if c ∈ controls then [] else [c] := by
  by_cases hc : c ∈ controls
  · rw [if_pos hc]
    simp only [controls, List.mem_cons, List.not_mem_nil, or_false] at hc
    rcases hc with rfl | rfl | rfl | rfl | rfl
    · rfl
    · change plainBytes ((colorArgument rest).bind _).toList = []
      cases colorArgument rest with
      | none => rfl
      | some a =>
        rw [Option.bind_some]
        split <;> rfl
    · rfl
    · rfl
    · rfl
  · rw [if_neg hc]
    simp only [controls, List.mem_cons, List.not_mem_nil, or_false, not_or] at hc
    obtain ⟨hbold, hcolor, hreset, hreverse, hunderline⟩ := hc
    rw [token, if_neg hbold, if_neg hunderline, if_neg hreverse, if_neg hreset, if_neg hcolor]
    rfl

theorem plainBytes_tokens_cons (c : UInt8) (rest : Bytes) : plainBytes (tokens (c :: rest) 0) =
    (if c ∈ controls then [] else [c]) ++ plainBytes (tokens rest (movedBy c rest)) := by
  rw [tokens, ← plainBytes_token c rest]
  exact List.filterMap_append

theorem tokens_select (p : Bytes) (skip : ℕ) (hskip : 0x03 ∉ p.take skip) :
    Selects (fun i => skip ≤ i ∧ Kept p i) p (plainBytes (tokens p skip)) := by
  induction p generalizing skip with
  | nil => exact selects_nil _
  | cons c rest ih =>
    cases skip with
    | succ skip =>
      rw [List.take_succ_cons, List.mem_cons, not_or] at hskip
      obtain ⟨hc, hrest⟩ := hskip
      have hmoved : movedBy c rest = 0 := if_neg (Ne.symm hc)
      refine .drop (fun h => absurd h.1 (Nat.not_succ_le_zero skip)) ((ih skip hrest).congr ?_)
      intro i
      rw [kept_succ, hmoved, Nat.succ_le_succ_iff]
      simp
    | zero =>
      have hbehind : Selects (fun i => 0 ≤ i + 1 ∧ Kept (c :: rest) (i + 1)) rest
          (plainBytes (tokens rest (movedBy c rest))) := by
        refine (ih _ (no_code_in_moved c rest)).congr ?_
        intro i
        rw [kept_succ]
        simp
      rw [plainBytes_tokens_cons]
      by_cases hc : c ∈ controls
      · rw [if_pos hc, List.nil_append]
        exact .drop (fun h => (kept_zero c rest).mp h.2 hc) hbehind
      · rw [if_neg hc, List.singleton_append]
        exact .keep ⟨le_refl 0, (kept_zero c rest).mpr hc⟩ hbehind

theorem plainBytes_sublist (p : Bytes) (skip : ℕ) : (plainBytes (tokens p skip)).Sublist p := by
  induction p generalizing skip with
  | nil => exact .slnil
  | cons c rest ih =>
    cases skip with
    | succ skip => exact (ih skip).cons c
    | zero =>
      rw [plainBytes_tokens_cons]
      split
      · exact (ih _).cons c
      · exact (ih _).cons_cons c

theorem plainBytes_of_no_controls {p : Bytes} (h : ∀ c ∈ p, c ∉ controls) :
    plainBytes (tokens p 0) = p := by
  induction p with
  | nil => rfl
  | cons c rest ih =>
    obtain ⟨hc, hrest⟩ := List.forall_mem_cons.mp h
    have hmoved : movedBy c rest = 0 := if_neg fun he => hc (by rw [he]; decide)
    rw [plainBytes_tokens_cons, if_neg hc, hmoved, ih hrest]
    rfl

theorem nextAll_stripped (ts : List Token) (s : Colors) :
    nextAll Token.next (shown true ts) s = s := by
  induction ts with
  | nil => rfl
  | cons t ts ih => cases t <;> exact ih

theorem textAll_stripped (ts : List Token) (s : Colors) :
    textAll Token.next Token.text (shown true ts) s = plainBytes ts := by
  induction ts with
  | nil => rfl
  | cons t ts ih =>
    cases t with
    | plain c => exact congrArg (c :: ·) ih
    | toggle tag => exact ih
    | reset => exact ih
    | color colorid bgcolor => exact ih

def keptText (message : Bytes) : Bytes := plainBytes (tokens (cstr message) 0)

theorem converted_stripped (message : Bytes) :
    converted message true .start = keptText message := by
  rw [converted, colorsBehind, shownTokens, nextAll_stripped, textAll_stripped]
  exact List.append_nil _

theorem colorsBetween_stripped (message : Bytes) : colorsBetween message true = .start := by
  rw [colorsBetween, colorsBehind, shownTokens, nextAll_stripped]
  rfl

theorem keptText_select (message : Bytes) :
    Selects (Kept (cstr message)) (cstr message) (keptText message) :=
  (tokens_select (cstr message) 0 List.not_mem_nil).congr fun _ => by simp

theorem keptText_noControl (message : Bytes) : ∀ c ∈ keptText message, c ∉ controls :=
  (keptText_select message).forall_mem fun _ a hkept ha => hkept.1 a ha

theorem keptText_keptText (message : Bytes) : keptText (keptText message) = keptText message := by
  have hnul : nul ∉ keptText message := fun hmem =>
    nul_not_mem_cstr message ((plainBytes_sublist (cstr message) 0).subset hmem)
  rw [keptText, cstr_of_no_nul hnul]
  exact plainBytes_of_no_controls (keptText_noControl message)

def block (message : Bytes) : BitVec 32 := (firstPass message true).2.count

theorem block_toNat (message : Bytes) :
    (block message).toNat = ((keptText message).length + 1) % 2 ^ 32 := by
  rw [block, firstPass_count, converted_stripped]

theorem block_keptText (message : Bytes) : block (keptText message) = block message := by
  apply BitVec.eq_of_toNat_eq
  rw [block_toNat, block_toNat, keptText_keptText]

theorem strip_eq (malloc : BitVec 32 → Bool) {message : Bytes}
    (h : (keptText message).length + 1 < 2 ^ 32) : ircColorStripFromMirc malloc message 2 =
      some (if malloc (block message) then some ⟨block message, keptText message⟩ else none) := by
  have hpos : 0 < block message := by
    rw [BitVec.lt_def, block_toNat, Nat.mod_eq_of_lt h]
    exact Nat.succ_pos _
  rw [ircColorStripFromMirc, irc2code_eq malloc message true hpos, colorsBetween_stripped,
    converted_stripped]
  rfl

theorem stripped_of_fits {message : Bytes} (h : (keptText message).length + 1 < 2 ^ 32) :
    Stripped (cstr message) ⟨block message, keptText message⟩ where
  fits := by
    rw [Line.Fits, block_toNat, Nat.mod_eq_of_lt h]
  kept := keptText_select message
  sublist := plainBytes_sublist (cstr message) 0
  noControl := keptText_noControl message

theorem keptText_length (message : Bytes) : (keptText message).length =
    {i | i < (cstr message).length ∧ Kept (cstr message) i}.ncard :=
  (keptText_select message).length_eq

theorem fits_of_stripsRight {message : Bytes} (h : StripsRight message) :
    (keptText message).length + 1 < 2 ^ 32 := by
  obtain ⟨result, -, hnull, hline⟩ := h fun _ => true
  cases result with
  | none =>
    obtain ⟨n, hn⟩ := hnull rfl
    cases hn
  | some line =>
    obtain ⟨hstripped, -⟩ := hline line rfl
    have hfits : line.text.length + 1 ≤ line.allocated.toNat := hstripped.fits
    have hlt := line.allocated.isLt
    have hlength := hstripped.kept.length_eq
    rw [← keptText_length] at hlength
    omega

/-- A message is stripped right exactly when the counter holds the size of what is kept. -/
theorem stripsRight_iff (message : Bytes) : StripsRight message ↔
    {i | i < (cstr message).length ∧ Kept (cstr message) i}.ncard + 1 < 2 ^ 32 := by
  rw [← keptText_length]
  constructor
  · exact fits_of_stripsRight
  · intro h malloc
    refine ⟨_, ⟨2, strip_eq malloc h⟩, ?_, ?_⟩
    · intro hnull
      refine ⟨block message, ?_⟩
      cases hmalloc : malloc (block message) with
      | false => rfl
      | true =>
        rw [hmalloc] at hnull
        cases hnull
    · intro line hline
      have hagain : (keptText (keptText message)).length + 1 < 2 ^ 32 := by
        rwa [keptText_keptText]
      have hstrip := strip_eq malloc hagain
      rw [block_keptText, keptText_keptText, hline] at hstrip
      split at hline
      · cases hline
        exact ⟨stripped_of_fits h, 2, hstrip⟩
      · cases hline

/-- The count of a message of 2 ^ 32 - 1 letters comes back to zero. -/
theorem long_message_not_stripped : ¬ StripsRight (List.replicate (2 ^ 32 - 1) 0x61) := by
  intro h
  have hfits := fits_of_stripsRight h
  have hletters : ∀ c ∈ List.replicate (2 ^ 32 - 1) (0x61 : UInt8), c ∉ controls := by
    intro c hc
    rw [List.eq_of_mem_replicate hc]
    decide
  have hnul : nul ∉ List.replicate (2 ^ 32 - 1) (0x61 : UInt8) := by
    intro hmem
    exact absurd (List.eq_of_mem_replicate hmem) (by decide)
  rw [keptText, cstr_of_no_nul hnul, plainBytes_of_no_controls hletters,
    List.length_replicate] at hfits
  exact absurd hfits (by decide)

end Xdccget.ColorStrip
