import Xdccget.ColorCodes
import Mathlib.Data.List.ReduceOption

set_option autoImplicit false

/-!
# The size of a converted message

The first pass starts without a background and the second with the last one of the message.
They differ in the colours before the first background.
-/
namespace Xdccget.ColorSizing
open CText SizedWriters ColorCodes

def firstPass (source : Bytes) (strip : Bool) : Colors × Dest :=
  pass source strip .start ⟨none, 0⟩

/-- The size that the first pass counts is allocated, and the second pass fills it. -/
def Sized (source : Bytes) (strip : Bool) : Prop :=
  ∀ malloc v, whileTurn malloc source strip (firstPass source strip) = some v →
    ∃ text, v.2.written = some text ∧ text.length + 1 = (firstPass source strip).2.count.toNat

def givenBackground : Token → Option (Option ℕ)
  | .color _ bgcolor => some bgcolor
  | _ => none

def backgrounds (ts : List Token) : List (Option ℕ) := ts.filterMap givenBackground

def lastBackground (bgs : List (Option ℕ)) (bg : ℕ) : ℕ := bgs.reduceOption.getLast?.getD bg

def Settled (bgs : List (Option ℕ)) : Prop := bgs.head? ≠ some none ∨ lastBackground bgs 0 = 0

instance (bgs : List (Option ℕ)) : Decidable (Settled bgs) := inferInstanceAs (Decidable (_ ∨ _))

theorem whileTurn_start (malloc : BitVec 32 → Bool) (source : Bytes) (strip : Bool) :
    whileTurn malloc source strip (.start, ⟨none, 0⟩) = some (firstPass source strip) := by
  rw [whileTurn, if_neg (by decide)]
  rfl

theorem token_currentBg (t : Token) (s : Colors) :
    (t.next s).currentBg = lastBackground (givenBackground t).toList s.currentBg := by
  cases t with
  | color colorid bgcolor => cases bgcolor <;> rfl
  | plain c => rfl
  | toggle tag => rfl
  | reset => rfl

theorem lastBackground_append (as bs : List (Option ℕ)) (bg : ℕ) :
    lastBackground (as ++ bs) bg = lastBackground bs (lastBackground as bg) := by
  rw [lastBackground, lastBackground, lastBackground, List.reduceOption_append,
    List.getLast?_append]
  cases bs.reduceOption.getLast? <;> rfl

theorem backgrounds_cons (t : Token) (ts : List Token) :
    backgrounds (t :: ts) = (givenBackground t).toList ++ backgrounds ts := by
  rw [backgrounds, List.filterMap_cons]
  cases givenBackground t <;> rfl

theorem nextAll_currentBg (ts : List Token) (s : Colors) :
    (nextAll Token.next ts s).currentBg = lastBackground (backgrounds ts) s.currentBg := by
  induction ts generalizing s with
  | nil => rfl
  | cons t ts ih =>
    rw [nextAll, ih, backgrounds_cons, lastBackground_append, token_currentBg]

theorem token_mask (t : Token) {s s' : Colors} (h : s.mask = s'.mask) :
    (t.next s).mask = (t.next s').mask := by
  cases t with
  | color colorid bgcolor => simp only [Token.next, Colors.set, h]
  | plain c => exact h
  | toggle tag => simp only [Token.next, Colors.set, h]
  | reset => rfl

theorem nextAll_mask (ts : List Token) {s s' : Colors} (h : s.mask = s'.mask) :
    (nextAll Token.next ts s).mask = (nextAll Token.next ts s').mask := by
  induction ts generalizing s s' with
  | nil => exact h
  | cons t ts ih => exact ih (token_mask t h)

theorem stopText_congr (tag : Tag) {s s' : Colors} (h : s.mask = s'.mask) :
    stopText tag s = stopText tag s' := by
  rw [stopText, stopText, h]

theorem closing_congr {s s' : Colors} (h : s.mask = s'.mask) : closing s = closing s' := by
  simp only [closing, stopText_congr _ h]

theorem token_text_congr {t : Token} {s s' : Colors} (h : s.mask = s'.mask)
    (ht : givenBackground t ≠ some none) : t.text s = t.text s' := by
  cases t with
  | color colorid bgcolor =>
    cases bgcolor with
    | none => exact absurd rfl ht
    | some bg => rw [Token.text, Token.text, stopText_congr _ h]; rfl
  | plain c => rfl
  | toggle tag => simp only [Token.text, h]
  | reset => exact closing_congr h

theorem startbuf_length_lt (colorid : ℕ) {bg : ℕ} (h : bg ≠ 0) :
    (startbuf colorid 0).length < (startbuf colorid bg).length := by
  rw [startbuf, startbuf, if_neg (by decide), if_pos h]
  simp only [List.length_append]
  have hslash : (bytes "/").length = 1 := by decide
  omega

theorem token_text_lt {t : Token} {s s' : Colors} (h : s.mask = s'.mask)
    (ht : givenBackground t = some none) (hs : s.currentBg = 0) (hs' : s'.currentBg ≠ 0) :
    (t.text s).length < (t.text s').length := by
  cases t with
  | color colorid bgcolor =>
    obtain rfl : bgcolor = none := Option.some.inj ht
    rw [Token.text, Token.text, stopText_congr _ h, List.length_append, List.length_append]
    have hlt := startbuf_length_lt colorid hs'
    simp only [Option.getD_none, hs]
    omega
  | plain c => cases ht
  | toggle tag => cases ht
  | reset => cases ht

theorem next_eq_of_given {t : Token} {s s' : Colors} {bg : ℕ} (h : s.mask = s'.mask)
    (ht : givenBackground t = some (some bg)) : t.next s = t.next s' := by
  have hbg : (t.next s).currentBg = (t.next s').currentBg := by
    rw [token_currentBg, token_currentBg, ht]
    rfl
  have hmask := token_mask t h
  cases hs : t.next s
  cases hs' : t.next s'
  rw [hs, hs'] at hbg hmask
  exact congrArg₂ Colors.mk hmask hbg

theorem textAll_congr (ts : List Token) {s s' : Colors} (h : s.mask = s'.mask)
    (hts : (backgrounds ts).head? ≠ some none) :
    textAll Token.next Token.text ts s = textAll Token.next Token.text ts s' := by
  induction ts generalizing s s' with
  | nil => rfl
  | cons t ts ih =>
    rw [backgrounds_cons] at hts
    rw [textAll, textAll]
    cases ht : givenBackground t with
    | none =>
      rw [ht] at hts
      rw [token_text_congr h (by rw [ht]; decide), ih (token_mask t h) hts]
    | some given =>
      rw [ht] at hts
      cases given with
      | none => exact absurd rfl hts
      | some bg => rw [token_text_congr h (by rw [ht]; simp), next_eq_of_given h ht]

theorem token_currentBg_of_bare {t : Token} (s : Colors)
    (ht : ∀ bg, givenBackground t ≠ some (some bg)) : (t.next s).currentBg = s.currentBg := by
  rw [token_currentBg]
  cases h : givenBackground t with
  | none => rfl
  | some given =>
    cases given with
    | none => rfl
    | some bg => exact absurd h (ht bg)

theorem length_textAll_le (ts : List Token) {s s' : Colors} (h : s.mask = s'.mask)
    (hs : s.currentBg = 0) (hs' : s'.currentBg ≠ 0) :
    (textAll Token.next Token.text ts s).length ≤
      (textAll Token.next Token.text ts s').length := by
  induction ts generalizing s s' with
  | nil => exact le_refl _
  | cons t ts ih =>
    rw [textAll, textAll, List.length_append, List.length_append]
    by_cases hgiven : ∃ bg, givenBackground t = some (some bg)
    · obtain ⟨bg, ht⟩ := hgiven
      rw [token_text_congr h (by rw [ht]; simp), next_eq_of_given h ht]
    have hbare : ∀ bg, givenBackground t ≠ some (some bg) := fun bg ht => hgiven ⟨bg, ht⟩
    have hrest := ih (token_mask t h) ((token_currentBg_of_bare s hbare).trans hs)
      (by rwa [token_currentBg_of_bare s' hbare])
    by_cases ht : givenBackground t = some none
    · have htext := token_text_lt h ht hs hs'
      omega
    · rw [token_text_congr h ht]
      omega

theorem length_textAll_lt (ts : List Token) {s s' : Colors} (h : s.mask = s'.mask)
    (hs : s.currentBg = 0) (hs' : s'.currentBg ≠ 0) (hts : (backgrounds ts).head? = some none) :
    (textAll Token.next Token.text ts s).length <
      (textAll Token.next Token.text ts s').length := by
  induction ts generalizing s s' with
  | nil => cases hts
  | cons t ts ih =>
    rw [backgrounds_cons] at hts
    rw [textAll, textAll, List.length_append, List.length_append]
    have hbare : ∀ bg, givenBackground t ≠ some (some bg) := by
      intro bg ht
      rw [ht] at hts
      cases hts
    have hnext := (token_currentBg_of_bare s hbare).trans hs
    have hnext' : (t.next s').currentBg ≠ 0 := by rwa [token_currentBg_of_bare s' hbare]
    cases ht : givenBackground t with
    | none =>
      rw [ht] at hts
      rw [token_text_congr h (by rw [ht]; decide)]
      have hrest := ih (token_mask t h) hnext hnext' hts
      omega
    | some given =>
      cases given with
      | none =>
        have htext := token_text_lt h ht hs hs'
        have hrest := length_textAll_le ts (token_mask t h) hnext hnext'
        omega
      | some bg => exact absurd ht (hbare bg)

def colorsBetween (source : Bytes) (strip : Bool) : Colors :=
  (colorsBehind source strip .start).closed

theorem length_converted (source : Bytes) (strip : Bool) {s : Colors}
    (hs : s.mask = Colors.start.mask) : (converted source strip s).length =
      (textAll Token.next Token.text (shownTokens source strip) s).length +
        (closing (colorsBehind source strip .start)).length := by
  have hclosing : closing (colorsBehind source strip s) =
      closing (colorsBehind source strip .start) := closing_congr (nextAll_mask _ hs)
  rw [converted, hclosing, List.length_append]

theorem length_converted_eq_iff (source : Bytes) (strip : Bool) {s : Colors}
    (hs : s.mask = Colors.start.mask) :
    (converted source strip s).length = (converted source strip .start).length ↔
      (backgrounds (shownTokens source strip)).head? ≠ some none ∨ s.currentBg = 0 := by
  by_cases hbg : s.currentBg = 0
  · have hstart : s = .start := congrArg₂ Colors.mk hs hbg
    rw [hstart]
    exact iff_of_true rfl (.inr rfl)
  rw [length_converted source strip hs, length_converted source strip rfl,
    Nat.add_right_cancel_iff]
  by_cases hhead : (backgrounds (shownTokens source strip)).head? = some none
  · have hlt := length_textAll_lt _ hs.symm rfl hbg hhead
    exact iff_of_false (by omega) (by simp [hhead, hbg])
  · rw [textAll_congr _ hs hhead]
    exact iff_of_true rfl (.inl hhead)

theorem length_converted_le (source : Bytes) (strip : Bool) {s : Colors}
    (hs : s.mask = Colors.start.mask) :
    (converted source strip .start).length ≤ (converted source strip s).length := by
  by_cases hbg : s.currentBg = 0
  · have hstart : s = .start := congrArg₂ Colors.mk hs hbg
    rw [hstart]
  rw [length_converted source strip hs, length_converted source strip rfl]
  have hle := length_textAll_le (shownTokens source strip) hs.symm rfl hbg
  omega

theorem colorsBetween_mask (source : Bytes) (strip : Bool) :
    (colorsBetween source strip).mask = Colors.start.mask := rfl

theorem firstPass_eq (source : Bytes) (strip : Bool) :
    firstPass source strip = (colorsBetween source strip,
      ⟨none, 0 + (converted source strip .start).length + 1⟩) := pass_counts source strip .start 0

theorem firstPass_count (source : Bytes) (strip : Bool) : (firstPass source strip).2.count.toNat =
    ((converted source strip .start).length + 1) % 2 ^ 32 := by
  rw [firstPass_eq]
  dsimp only
  rw [zero_add, ← Nat.cast_succ, BitVec.natCast_eq_ofNat, BitVec.toNat_ofNat]

theorem colorsBetween_currentBg (source : Bytes) (strip : Bool) :
    (colorsBetween source strip).currentBg =
      lastBackground (backgrounds (shownTokens source strip)) 0 :=
  nextAll_currentBg (shownTokens source strip) .start

theorem secondPass_eq (malloc : BitVec 32 → Bool) (source : Bytes) (strip : Bool)
    (hpos : 0 < (firstPass source strip).2.count)
    (hmalloc : malloc (firstPass source strip).2.count = true) :
    whileTurn malloc source strip (firstPass source strip) =
      some ((colorsBehind source strip (colorsBetween source strip)).closed,
        ⟨some (converted source strip (colorsBetween source strip)),
          (firstPass source strip).2.count + 1⟩) := by
  rw [whileTurn, if_pos hpos, if_pos hmalloc]
  rw [firstPass_eq, pass_fills]

theorem irc2code_eq (malloc : BitVec 32 → Bool) (source : Bytes) (strip : Bool)
    (hpos : 0 < (firstPass source strip).2.count) : irc2code malloc source strip 2 =
      some (if malloc (firstPass source strip).2.count then
        some ⟨(firstPass source strip).2.count, converted source strip (colorsBetween source strip)⟩
      else none) := by
  have hnone : (firstPass source strip).2.written = none := by rw [firstPass_eq]
  rw [irc2code, rounds, whileTurn_start]
  dsimp only
  rw [hnone]
  dsimp only
  rw [rounds]
  by_cases hmalloc : malloc (firstPass source strip).2.count = true
  · rw [secondPass_eq malloc source strip hpos hmalloc, if_pos hmalloc]
  · rw [whileTurn, if_pos hpos, if_neg hmalloc, if_neg hmalloc]

theorem sized_iff_lengths (source : Bytes) (strip : Bool) : Sized source strip ↔
    (converted source strip (colorsBetween source strip)).length + 1 =
      ((converted source strip .start).length + 1) % 2 ^ 32 := by
  rw [← firstPass_count]
  constructor
  · intro h
    by_cases hpos : 0 < (firstPass source strip).2.count
    · have hsecond := secondPass_eq (fun _ => true) source strip hpos rfl
      obtain ⟨text, htext, hlen⟩ := h _ _ hsecond
      rw [Option.some.inj htext]
      exact hlen
    · obtain ⟨text, htext, -⟩ := h (fun _ => true) _ (if_neg hpos)
      rw [firstPass_eq, pass_counts] at htext
      cases htext
  · intro h malloc v hv
    have hpos : 0 < (firstPass source strip).2.count := by
      rw [BitVec.lt_def, ← h]
      exact Nat.succ_pos _
    cases hmalloc : malloc (firstPass source strip).2.count with
    | false =>
      rw [whileTurn, if_pos hpos, hmalloc, if_neg (by decide)] at hv
      cases hv
    | true =>
      rw [secondPass_eq malloc source strip hpos hmalloc] at hv
      cases hv
      exact ⟨_, rfl, h⟩

theorem fits_iff_sized (source : Bytes) (strip : Bool) :
    Line.Fits ⟨(firstPass source strip).2.count,
      converted source strip (colorsBetween source strip)⟩ ↔ Sized source strip := by
  have hle := length_converted_le source strip (colorsBetween_mask source strip)
  have hmod := Nat.mod_le ((converted source strip .start).length + 1) (2 ^ 32)
  rw [sized_iff_lengths, Line.Fits, firstPass_count]
  dsimp only
  constructor
  · intro hfits
    omega
  · exact le_of_eq

theorem convert_of_sized (malloc : BitVec 32 → Bool) {message : Bytes} (h : Sized message false) :
    ∃ result, ircColorConvertFromMirc malloc message 2 = some result ∧
      ∀ line, result = some line → line.Fits := by
  have hsize := (sized_iff_lengths message false).mp h
  have hpos : 0 < (firstPass message false).2.count := by
    rw [BitVec.lt_def, firstPass_count, ← hsize]
    exact Nat.succ_pos _
  refine ⟨_, irc2code_eq malloc message false hpos, ?_⟩
  intro line hline
  split at hline
  · cases hline
    exact (fits_iff_sized message false).mpr h
  · cases hline

theorem backgrounds_stripped (ts : List Token) : backgrounds (shown true ts) = [] := by
  rw [shown, if_pos rfl, backgrounds, List.filterMap_filter, List.filterMap_eq_nil_iff]
  intro t _
  cases t <;> rfl

/-- The second pass fills the block exactly when the counter holds the size and no colour of the
text gets a background that it has not had before. -/
theorem sized_iff (source : Bytes) (strip : Bool) : Sized source strip ↔
    (converted source strip .start).length + 1 < 2 ^ 32 ∧
      (strip = true ∨ Settled (backgrounds (tokens (cstr source) 0))) := by
  have hle := length_converted_le source strip (colorsBetween_mask source strip)
  have heq := length_converted_eq_iff source strip (colorsBetween_mask source strip)
  rw [colorsBetween_currentBg] at heq
  have hsettled : ((converted source strip (colorsBetween source strip)).length =
      (converted source strip .start).length) ↔
        (strip = true ∨ Settled (backgrounds (tokens (cstr source) 0))) := by
    rw [heq, shownTokens]
    cases strip with
    | true => exact iff_of_true (by simp [backgrounds_stripped]) (.inl rfl)
    | false => simp [Settled, shown]
  rw [sized_iff_lengths, ← hsettled]
  have hmod := Nat.mod_le ((converted source strip .start).length + 1) (2 ^ 32)
  have hlt := Nat.mod_lt ((converted source strip .start).length + 1) (show 0 < 2 ^ 32 by decide)
  constructor
  · intro h
    omega
  · rintro ⟨hfits, hlen⟩
    rw [hlen, Nat.mod_eq_of_lt hfits]

/-- A black letter, then one on a dark blue ground: the second pass repeats the ground before. -/
theorem bare_color_overruns :
    ¬ Sized ([0x03] ++ bytes "1a" ++ [0x03] ++ bytes "1,2b") false := by
  rw [sized_iff_lengths]
  decide

end Xdccget.ColorSizing
