import Xdccget.CText
import Xdccget.SizedWriters
import Mathlib.Data.BitVec

set_option autoImplicit false

/-!
# Colour codes

`libirc_colorparser_irc2code` and its helpers, and over them the message as a list of tokens,
each with its text.
-/
namespace Xdccget.ColorCodes
open CText SizedWriters

inductive Tag
  | bold
  | underline
  | reverse
  | color
deriving DecidableEq

/-- `mask` and `current_bg`. -/
structure Colors where
  mask : Tag → Bool
  currentBg : ℕ

def Colors.start : Colors := ⟨fun _ => false, 0⟩

def Colors.set (s : Colors) (tag : Tag) (on : Bool) : Colors :=
  { s with mask := fun other => if other = tag then on else s.mask other }

/-- `destline` and `destlen`, an `unsigned int`. -/
abbrev Dest := SizedWriters.Dest UInt8 (BitVec 32)

abbrev Step := Writer Colors UInt8 (BitVec 32)

def maxColors : ℕ := 15

def colorReplacementTable : List Bytes :=
  ["WHITE", "BLACK", "DARKBLUE", "DARKGREEN", "RED", "BROWN", "PURPLE", "OLIVE", "YELLOW", "GREEN",
    "TEAL", "CYAN", "BLUE", "MAGENTA", "DARKGRAY", "LIGHTGRAY"].map bytes

def colorName (colorid : ℕ) : Bytes := colorReplacementTable.getD colorid []

def addorcat (str : Bytes) : Step := fun s dest => (s, dest.put str)

def applymask (bit : Tag) (start stop : Bytes) : Step := fun s dest =>
  if s.mask bit then addorcat stop (s.set bit false) dest
  else addorcat start (s.set bit true) dest

def startbuf (colorid bgcolorid : ℕ) : Bytes :=
  if bgcolorid ≠ 0 then
    bytes "[COLOR=" ++ colorName colorid ++ bytes "/" ++ colorName bgcolorid ++ bytes "]"
  else bytes "[COLOR=" ++ colorName colorid ++ bytes "]"

def applycolor (colorid bgcolorid : ℕ) : Step := fun s dest =>
  let dest := if s.mask .color then (addorcat (bytes "[/COLOR]") s dest).2 else dest
  addorcat (startbuf colorid bgcolorid) (s.set .color true) dest

/-- No start text is given, and none is needed. -/
def closetag (bit : Tag) (stop : Bytes) : Step := fun s dest =>
  if s.mask bit then applymask bit [] stop s dest else (s, dest)

def closetags : Step :=
  (closetag .bold (bytes "[/B]")).comp <|
    (closetag .underline (bytes "[/U]")).comp <|
      (closetag .reverse (bytes "[/I]")).comp (closetag .color (bytes "[/COLOR]"))

def number : Bytes → Option (ℕ × ℕ)
  | [] => none
  | c :: rest =>
    if isdigit c then
      match rest with
      | [] => some (c.toNat - 0x30, 1)
      | d :: _ =>
        if isdigit d then some ((c.toNat - 0x30) * 10 + (d.toNat - 0x30), 2)
        else some (c.toNat - 0x30, 1)
    else none

theorem number_single (c : UInt8) :
    number [c] = if isdigit c then some (c.toNat - 0x30, 1) else none := rfl

theorem number_cons_cons (c d : UInt8) (rest : Bytes) : number (c :: d :: rest) =
    if isdigit c then
      if isdigit d then some ((c.toNat - 0x30) * 10 + (d.toNat - 0x30), 2)
      else some (c.toNat - 0x30, 1)
    else none := rfl

def comma : UInt8 := 0x2C

/-- What `bgcolor` is read from. -/
def background : Bytes → Option (ℕ × ℕ)
  | [] => none
  | c :: rest => if c = comma then number rest else none

structure ColorArgument where
  color : ℕ
  bgcolor : Option ℕ
  /-- How far `p` moves. -/
  moved : ℕ
deriving DecidableEq

def colorArgument (rest : Bytes) : Option ColorArgument :=
  match number rest with
  | none => none
  | some (color, n) =>
    match background (rest.drop n) with
    | none => some ⟨color, none, n⟩
    | some (bgcolor, m) => some ⟨color, some bgcolor, n + (1 + m)⟩

/-- A missing background is -1, which is in range. -/
def ColorArgument.InRange (a : ColorArgument) : Prop :=
  a.color ≤ maxColors ∧ a.bgcolor.all (· ≤ maxColors) = true

instance (a : ColorArgument) : Decidable a.InRange := inferInstanceAs (Decidable (_ ∧ _))

def setColor (a : ColorArgument) : Step := fun s dest =>
  let s := { s with currentBg := a.bgcolor.getD s.currentBg }
  applycolor a.color s.currentBg s dest

def movedBy (c : UInt8) (rest : Bytes) : ℕ :=
  if c = 0x03 then (colorArgument rest).elim 0 ColorArgument.moved else 0

def idle : Step := fun s dest => (s, dest)

/-- The `switch` of the loop, with `p` at `c` and `rest` behind it. -/
def turn (strip : Bool) (c : UInt8) (rest : Bytes) : Step :=
  if c = 0x02 then if strip then idle else applymask .bold (bytes "[B]") (bytes "[/B]")
  else if c = 0x1F then if strip then idle else applymask .underline (bytes "[U]") (bytes "[/U]")
  else if c = 0x16 then if strip then idle else applymask .reverse (bytes "[I]") (bytes "[/I]")
  else if c = 0x0F then if strip then idle else closetags
  else if c = 0x03 then
    match colorArgument rest with
    | none => idle
    | some a => if a.InRange then if strip then idle else setColor a else idle
  else addorcat [c]

/-- The `for` loop. The turn of a colour code moves `p` over its argument, which `skip` counts. -/
def scan (strip : Bool) : Bytes → ℕ → Step
  | [], _ => idle
  | _ :: rest, skip + 1 => scan strip rest skip
  | c :: rest, 0 => (turn strip c rest).comp (scan strip rest (movedBy c rest))

def terminate : Step := fun s dest => (s, { dest with count := dest.count + 1 })

/-- The body of the `while` loop behind the allocation. -/
def pass (source : Bytes) (strip : Bool) : Step :=
  ((scan strip (cstr source) 0).comp closetags).comp terminate

/-- One turn of the `while` loop. A size that `malloc` refuses ends the function. -/
def whileTurn (malloc : BitVec 32 → Bool) (source : Bytes) (strip : Bool) (v : Colors × Dest) :
    Option (Colors × Dest) :=
  if 0 < v.2.count then
    if malloc v.2.count then some (pass source strip v.1 { v.2 with written := some [] }) else none
  else some (pass source strip v.1 v.2)

/-- What is returned: the size of the block and the text before the terminator. -/
structure Line where
  allocated : BitVec 32
  text : Bytes
deriving DecidableEq

def Line.Fits (line : Line) : Prop := line.text.length + 1 ≤ line.allocated.toNat

/-- The rounds until there is a destination. The inner `none` is the null pointer. -/
def rounds (malloc : BitVec 32 → Bool) (source : Bytes) (strip : Bool) :
    ℕ → Colors × Dest → Option (Option Line)
  | 0, _ => none
  | fuel + 1, v =>
    match whileTurn malloc source strip v with
    | none => some none
    | some w =>
      match w.2.written with
      | some text => some (some ⟨v.2.count, text⟩)
      | none => rounds malloc source strip fuel w

def irc2code (malloc : BitVec 32 → Bool) (source : Bytes) (strip : Bool) (fuel : ℕ) :
    Option (Option Line) :=
  rounds malloc source strip fuel (.start, ⟨none, 0⟩)

def ircColorStripFromMirc (malloc : BitVec 32 → Bool) (message : Bytes) (fuel : ℕ) :
    Option (Option Line) :=
  irc2code malloc message true fuel

def ircColorConvertFromMirc (malloc : BitVec 32 → Bool) (message : Bytes) (fuel : ℕ) :
    Option (Option Line) :=
  irc2code malloc message false fuel

def Tag.start : Tag → Bytes
  | .bold => bytes "[B]"
  | .underline => bytes "[U]"
  | .reverse => bytes "[I]"
  | .color => []

def Tag.stop : Tag → Bytes
  | .bold => bytes "[/B]"
  | .underline => bytes "[/U]"
  | .reverse => bytes "[/I]"
  | .color => bytes "[/COLOR]"

/-- What stands in a message for the reader, codes without an effect left out. -/
inductive Token
  | plain (c : UInt8)
  | toggle (tag : Tag)
  | reset
  | color (colorid : ℕ) (bgcolor : Option ℕ)
deriving DecidableEq

def Colors.closed (s : Colors) : Colors := { s with mask := fun _ => false }

def stopText (tag : Tag) (s : Colors) : Bytes := if s.mask tag then tag.stop else []

def closing (s : Colors) : Bytes :=
  stopText .bold s ++ (stopText .underline s ++ (stopText .reverse s ++ stopText .color s))

def Token.next : Token → Colors → Colors
  | .plain _, s => s
  | .toggle tag, s => s.set tag (!s.mask tag)
  | .reset, s => s.closed
  | .color _ bgcolor, s => { s with currentBg := bgcolor.getD s.currentBg }.set .color true

def Token.text : Token → Colors → Bytes
  | .plain c, _ => [c]
  | .toggle tag, s => if s.mask tag then tag.stop else tag.start
  | .reset, s => closing s
  | .color colorid bgcolor, s => stopText .color s ++ startbuf colorid (bgcolor.getD s.currentBg)

def token (c : UInt8) (rest : Bytes) : Option Token :=
  if c = 0x02 then some (.toggle .bold)
  else if c = 0x1F then some (.toggle .underline)
  else if c = 0x16 then some (.toggle .reverse)
  else if c = 0x0F then some .reset
  else if c = 0x03 then
    (colorArgument rest).bind fun a => if a.InRange then some (.color a.color a.bgcolor) else none
  else some (.plain c)

def tokens : Bytes → ℕ → List Token
  | [], _ => []
  | _ :: rest, skip + 1 => tokens rest skip
  | c :: rest, 0 => (token c rest).toList ++ tokens rest (movedBy c rest)

def Token.isPlain : Token → Bool
  | .plain _ => true
  | _ => false

def shown (strip : Bool) (ts : List Token) : List Token :=
  if strip then ts.filter Token.isPlain else ts

theorem shown_append (strip : Bool) (ts us : List Token) :
    shown strip (ts ++ us) = shown strip ts ++ shown strip us := by
  cases strip with
  | true => exact List.filter_append ts us
  | false => rfl

theorem applymask_writes (tag : Tag) : Writes (applymask tag tag.start tag.stop)
    (Token.next (.toggle tag)) (Token.text (.toggle tag)) := by
  intro s dest
  rw [applymask, Token.next, Token.text]
  cases s.mask tag <;> rfl

theorem Colors.set_of_eq {s : Colors} {tag : Tag} {on : Bool} (h : s.mask tag = on) :
    s.set tag on = s := by
  have hmask : (fun other => if other = tag then on else s.mask other) = s.mask := by
    funext other
    by_cases hother : other = tag
    · rw [if_pos hother, hother, h]
    · rw [if_neg hother]
  rw [Colors.set, hmask]

theorem closetag_writes (tag : Tag) :
    Writes (closetag tag tag.stop) (fun s => s.set tag false) (stopText tag) := by
  intro s dest
  rw [closetag, stopText]
  cases h : s.mask tag with
  | true =>
    rw [if_pos rfl, if_pos rfl, applymask, if_pos h]
    rfl
  | false =>
    dsimp only
    rw [if_neg (by decide), if_neg (by decide), Colors.set_of_eq h, Dest.put_nil]

theorem closetags_writes : Writes closetags Colors.closed closing := by
  intro s dest
  have hchain := (closetag_writes .bold).comp ((closetag_writes .underline).comp
    ((closetag_writes .reverse).comp (closetag_writes .color)))
  have hstate : (((s.set .bold false).set .underline false).set .reverse false).set .color false =
      s.closed := by
    rw [Colors.closed, Colors.set, Colors.mk.injEq]
    refine ⟨?_, rfl⟩
    funext tag
    cases tag <;> rfl
  refine (hchain s dest).trans ?_
  dsimp only
  rw [hstate]
  rfl

theorem setColor_writes (a : ColorArgument) : Writes (setColor a)
    (Token.next (.color a.color a.bgcolor)) (Token.text (.color a.color a.bgcolor)) := by
  intro s dest
  rw [setColor, applycolor, Token.next, Token.text, stopText, addorcat, ← Dest.put_put]
  cases s.mask .color <;> simp [addorcat, Tag.stop]

theorem plain_writes (c : UInt8) :
    Writes (addorcat [c]) (Token.next (.plain c)) (Token.text (.plain c)) := fun _ _ => rfl

theorem writes_shown {w : Step} {t : Token} (strip : Bool) (h : Writes w t.next t.text)
    (ht : t.isPlain = false) :
    WritesAll Token.next Token.text (if strip then idle else w) (shown strip [t]) := by
  cases strip with
  | true =>
    rw [if_pos rfl, shown, if_pos rfl, List.filter_cons_of_neg (by rw [ht]; decide)]
    exact writesAll_nil
  | false => exact .single h

theorem turn_writes (strip : Bool) (c : UInt8) (rest : Bytes) :
    WritesAll Token.next Token.text (turn strip c rest) (shown strip (token c rest).toList) := by
  have hidle : WritesAll Token.next Token.text idle (shown strip []) := by
    cases strip <;> exact writesAll_nil
  unfold turn token
  by_cases hbold : c = 0x02
  · rw [if_pos hbold, if_pos hbold]
    exact writes_shown strip (applymask_writes .bold) rfl
  rw [if_neg hbold, if_neg hbold]
  by_cases hunderline : c = 0x1F
  · rw [if_pos hunderline, if_pos hunderline]
    exact writes_shown strip (applymask_writes .underline) rfl
  rw [if_neg hunderline, if_neg hunderline]
  by_cases hreverse : c = 0x16
  · rw [if_pos hreverse, if_pos hreverse]
    exact writes_shown strip (applymask_writes .reverse) rfl
  rw [if_neg hreverse, if_neg hreverse]
  by_cases hreset : c = 0x0F
  · rw [if_pos hreset, if_pos hreset]
    exact writes_shown strip closetags_writes rfl
  rw [if_neg hreset, if_neg hreset]
  by_cases hcolor : c = 0x03
  · rw [if_pos hcolor, if_pos hcolor]
    cases colorArgument rest with
    | none => exact hidle
    | some a =>
      by_cases hrange : a.InRange
      · simp only [Option.bind_some, if_pos hrange]
        exact writes_shown strip (setColor_writes a) rfl
      · simp only [Option.bind_some, if_neg hrange]
        exact hidle
  · rw [if_neg hcolor, if_neg hcolor]
    cases strip <;> exact .single (plain_writes c)

theorem scan_writes (strip : Bool) (p : Bytes) (skip : ℕ) :
    WritesAll Token.next Token.text (scan strip p skip) (shown strip (tokens p skip)) := by
  induction p generalizing skip with
  | nil => cases strip <;> exact writesAll_nil
  | cons c rest ih =>
    cases skip with
    | zero =>
      rw [scan, tokens, shown_append]
      exact (turn_writes strip c rest).append (ih _)
    | succ skip => exact ih skip

def shownTokens (source : Bytes) (strip : Bool) : List Token := shown strip (tokens (cstr source) 0)

def colorsBehind (source : Bytes) (strip : Bool) (s : Colors) : Colors :=
  nextAll Token.next (shownTokens source strip) s

def converted (source : Bytes) (strip : Bool) (s : Colors) : Bytes :=
  textAll Token.next Token.text (shownTokens source strip) s ++
    closing (colorsBehind source strip s)

theorem scan_closetags_writes (source : Bytes) (strip : Bool) :
    Writes ((scan strip (cstr source) 0).comp closetags)
      (fun s => (colorsBehind source strip s).closed) (converted source strip) :=
  Writes.comp (scan_writes strip (cstr source) 0) closetags_writes

theorem pass_counts (source : Bytes) (strip : Bool) (s : Colors) (destlen : BitVec 32) :
    pass source strip s ⟨none, destlen⟩ =
      ((colorsBehind source strip s).closed,
        ⟨none, destlen + (converted source strip s).length + 1⟩) := by
  rw [pass, Writer.comp, (scan_closetags_writes source strip).counted]
  rfl

theorem pass_fills (source : Bytes) (strip : Bool) (s : Colors) (destlen : BitVec 32) :
    pass source strip s ⟨some [], destlen⟩ =
      ((colorsBehind source strip s).closed,
        ⟨some (converted source strip s), destlen + 1⟩) := by
  rw [pass, Writer.comp, (scan_closetags_writes source strip).filled, List.nil_append]
  rfl

end Xdccget.ColorCodes
