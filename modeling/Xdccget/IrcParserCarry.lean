import Xdccget.IrcParser

set_option autoImplicit false

/-!
# What one line leaves for the next

`libirc_process_incoming_data` never resets the parser. A line that ends
normally leaves it as new, a lone LF leaves the bytes before it pending, and
every other malformed line leaves the error state.
-/
namespace Xdccget.IrcParserCarry
open CText IrcParser

def libircFindcrlf : Bytes → ℕ
  | a :: b :: rest =>
    if a = cr ∧ b = lf then 2
    else match libircFindcrlf (b :: rest) with
      | 0 => 0
      | n + 1 => n + 2
  | _ => 0

/-- The blocks that `irc_process_select_descriptors` cuts off: the first CRLF ends them. -/
def IsBlock (line : Bytes) : Prop := 0 < line.length ∧ libircFindcrlf line = line.length

instance : DecidablePred IsBlock := fun _ => by unfold IsBlock; infer_instance

/-- The callbacks that build the parse result, with the text each one is given. -/
def callbacks (events : List Event) : List (Callback × Bytes) :=
  events.filterMap fun
    | .call .onError _ _ _ => none
    | .call cb _ _ text => some (cb, text)
    | _ => none

/-- What the parser carries between two lines: the bytes of an unfinished line, or a
    pending error. -/
inductive Carry
  | live (pending : ℕ)
  | stuck
  deriving DecidableEq, Repr

def crCarry : Bytes → Carry
  | [] => .stuck
  | a :: rest => if a = lf then .live 0 else if a = cr then crCarry rest else .stuck

def lineCarry : Carry → Bytes → Carry
  | c, [] => c
  | .stuck, a :: rest => if a = cr then crCarry rest else .stuck
  | .live n, a :: rest =>
    if a = lf then .live n
    else if a = cr then crCarry rest
    else if n < ircParserRawBufferSize then lineCarry (.live (n + 1)) rest
    else .stuck

def carryOf (lines : List Bytes) : Carry := lines.foldl lineCarry (.live 0)

/-- The parsers that `c` describes. -/
def Holds : Carry → Parser → Prop
  | .live 0, p => p.state = .init ∧ p.len = 0 ∧ p.last = 0
  | .live (n + 1), p => p.state ∉ [.init, .end_, .error] ∧ p.len = n + 1 ∧ p.last ≤ n + 1
  | .stuck, p => p.state = .error

theorem holds_init : Holds (.live 0) ircParserInit := ⟨rfl, rfl, rfl⟩

theorem block_tail {a : UInt8} {rest : Bytes} (h : IsBlock (a :: rest)) :
    (a = cr ∧ rest = [lf]) ∨ (IsBlock rest ∧ ¬ (a = cr ∧ rest.head? = some lf)) := by
  obtain ⟨-, h⟩ := h
  cases rest with
  | nil => simp [libircFindcrlf] at h
  | cons b rest =>
    by_cases hab : a = cr ∧ b = lf
    · left
      simp only [libircFindcrlf, hab, and_self, ↓reduceIte, List.length_cons] at h
      have hnil : rest = [] := List.length_eq_zero_iff.mp (by omega)
      exact ⟨hab.1, by rw [hab.2, hnil]⟩
    · right
      simp only [libircFindcrlf, hab, ↓reduceIte] at h
      refine ⟨⟨by simp, ?_⟩, by simpa using hab⟩
      cases hn : libircFindcrlf (b :: rest) with
      | zero => simp [hn] at h
      | succ n =>
        simp only [hn, List.length_cons] at h ⊢
        omega

/-- Equal up to the cells that have not been written since the last reset. -/
structure Agree (p q : Parser) : Prop where
  len_eq : p.len = q.len
  last_eq : p.last = q.last
  state_eq : p.state = q.state
  raw_eq : ∀ j < p.len, p.raw j = q.raw j

theorem forceCall_congr {p q : Parser} (f : Callback) (hlen : p.len = q.len)
    (hlast : p.last = q.last) (hraw : ∀ j, j + 1 < p.len → p.raw j = q.raw j) :
    (ircParserForceCall p f).2 = (ircParserForceCall q f).2 := by
  rw [forceCall_events, forceCall_events, ← hlen, ← hlast]
  congr 2
  unfold slice
  apply List.map_congr_left
  intro j hj
  have hj' := List.mem_range.mp hj
  exact hraw _ (by omega)

theorem Agree.forceCall {p q : Parser} (h : Agree p q) (f : Callback) :
    (ircParserForceCall p f).2 = (ircParserForceCall q f).2 :=
  forceCall_congr f h.len_eq h.last_eq (fun j hj => h.raw_eq j (by omega))

theorem Agree.call {p q : Parser} (h : Agree p q) : (ircParserCall p).2 = (ircParserCall q).2 := by
  have hcb : ircParserGetCb p = ircParserGetCb q := by
    unfold ircParserGetCb
    rw [h.state_eq]
  unfold ircParserCall
  rw [hcb]
  exact h.forceCall _

theorem Agree.setState {p q : Parser} (h : Agree p q) (s : ParserState) :
    Agree (ircParserSetState p s) (ircParserSetState q s) :=
  ⟨h.len_eq, h.len_eq, rfl, h.raw_eq⟩

theorem Agree.appendRaw {p q : Parser} (h : Agree p q) (a : UInt8) :
    Agree (ircParserAppendRaw p a).1 (ircParserAppendRaw q a).1 := by
  have hraw : ∀ j < p.len + 1, Function.update p.raw p.len a j = Function.update q.raw q.len a j := by
    intro j hj
    by_cases he : j = p.len
    · rw [he, Function.update_self, h.len_eq, Function.update_self]
    · rw [Function.update_of_ne he, Function.update_of_ne (h.len_eq ▸ he)]
      exact h.raw_eq j (by omega)
  simp only [ircParserAppendRaw, h.len_eq]
  rw [h.len_eq] at hraw
  split
  · exact ⟨rfl, h.last_eq, rfl, hraw⟩
  · exact ⟨rfl, h.last_eq, h.state_eq, hraw⟩

structure SameTurn (t u : Turn) : Prop where
  parser : Agree t.parser u.parser
  events : t.events = u.events
  flow : t.flow = u.flow

theorem Agree.called {p q : Parser} (h : Agree p q) (s : ParserState) :
    SameTurn (.next (ircParserSetState p s, (ircParserCall p).2))
      (.next (ircParserSetState q s, (ircParserCall q).2)) :=
  ⟨h.setState s, h.call, rfl⟩

theorem Agree.quiet {p q : Parser} (h : Agree p q) : SameTurn (.next (p, [])) (.next (q, [])) :=
  ⟨h, rfl, rfl⟩

theorem Agree.appendedTurn {p q : Parser} (h : Agree p q) (a : UInt8) :
    SameTurn (appendedTurn p a) (appendedTurn q a) := by
  have hq : ∀ {s}, p.state = s → q.state = s := fun hs => h.state_eq ▸ hs
  cases hs : p.state with
  | init =>
    simp only [IrcParser.appendedTurn, hs, hq hs]
    split
    · exact ⟨⟨h.len_eq, rfl, rfl, h.raw_eq⟩, rfl, rfl⟩
    · refine ⟨⟨congrArg (· - 1) h.len_eq, h.last_eq, rfl, ?_⟩, rfl, rfl⟩
      intro j hj
      change j < p.len - 1 at hj
      exact h.raw_eq j (by omega)
  | nick =>
    rw [appendedTurn_nick a hs, appendedTurn_nick a (hq hs)]
    split_ifs
    · exact h.called .host
    · exact h.called .command
    · exact h.called .name
    · exact h.quiet
  | name =>
    rw [appendedTurn_name a hs, appendedTurn_name a (hq hs)]
    split_ifs
    · exact h.called .command
    · exact h.called .host
    · exact h.quiet
  | host =>
    rw [appendedTurn_host a hs, appendedTurn_host a (hq hs)]
    split_ifs
    · exact h.called .command
    · exact h.quiet
  | command =>
    rw [appendedTurn_command a hs, appendedTurn_command a (hq hs)]
    split_ifs
    · exact h.called .params
    · exact h.quiet
  | params =>
    rw [appendedTurn_params a hs, appendedTurn_params a (hq hs), h.len_eq, h.last_eq]
    split_ifs
    · exact h.called .params
    · exact ⟨h.setState .trailing, rfl, rfl⟩
    · exact h.quiet
  | trailing =>
    simp only [IrcParser.appendedTurn, hs, hq hs]
    exact h.quiet
  | end_ =>
    simp only [IrcParser.appendedTurn, hs, hq hs]
    exact ⟨⟨h.len_eq, h.last_eq, rfl, h.raw_eq⟩, rfl, rfl⟩
  | error =>
    simp only [IrcParser.appendedTurn, hs, hq hs]
    exact ⟨⟨h.len_eq, h.last_eq, rfl, h.raw_eq⟩, rfl, rfl⟩

theorem Agree.turn {p q : Parser} (h : Agree p q) (a : UInt8) : SameTurn (turn p a) (turn q a) := by
  by_cases hc : a = cr
  · subst hc
    rw [turn_cr, turn_cr]
    exact ⟨⟨h.len_eq, h.last_eq, rfl, h.raw_eq⟩, rfl, rfl⟩
  by_cases hl : a = lf
  · subst hl
    by_cases hs : p.state = .end_
    · have hs' : q.state = .end_ := h.state_eq ▸ hs
      have hcell : ∀ f, (ircParserForceCall { p with len := p.len + 1 } f).2 =
          (ircParserForceCall { q with len := q.len + 1 } f).2 := by
        intro f
        refine forceCall_congr f (congrArg (· + 1) h.len_eq) h.last_eq ?_
        intro j hj
        exact h.raw_eq j (Nat.lt_of_succ_lt_succ hj)
      rw [turn_lf p hs, turn_lf q hs']
      refine ⟨⟨rfl, rfl, rfl, fun j hj => absurd hj (Nat.not_lt_zero j)⟩, ?_, rfl⟩
      simp only [ircParserCall, ircParserGetCb, hs, hs'] at hcell ⊢
      rw [hcell, hcell]
    · rw [turn_lf_early p hs, turn_lf_early q (h.state_eq ▸ hs)]
      exact ⟨h, rfl, rfl⟩
  have happ := (h.appendRaw a).appendedTurn a
  rw [turn_other p a hc hl, turn_other q a hc hl]
  exact ⟨happ.parser, by rw [h.len_eq, happ.events], happ.flow⟩

theorem Agree.readByte {p q : Parser} (h : Agree p q) (a : UInt8) :
    SameTurn (readByte p a) (readByte q a) := by
  have hfirst := h.turn a
  have hsecond := hfirst.parser.turn a
  unfold IrcParser.readByte
  dsimp only
  rw [hfirst.flow]
  split
  · exact ⟨hsecond.parser, by rw [hfirst.events, hsecond.events], hsecond.flow⟩
  · exact hfirst

theorem Agree.executeFrom {p q : Parser} (h : Agree p q) (total i : ℕ) (data : Bytes) :
    (executeFrom total p i data).events = (executeFrom total q i data).events := by
  induction data generalizing p q i with
  | nil => rfl
  | cons a rest ih =>
    have hstep := h.readByte a
    have hrest := ih hstep.parser (i + 1)
    rw [IrcParser.executeFrom, IrcParser.executeFrom]
    simp only [← hstep.flow, ← hstep.events]
    cases (IrcParser.readByte p a).flow <;> simp only [hrest]

theorem readByte_of_turn {p : Parser} {a : UInt8} (h : (turn p a).flow ≠ .again) :
    readByte p a = turn p a := by
  simp [readByte, h]

theorem appendRaw_live {p : Parser} (a : UInt8) (h : p.len < ircParserRawBufferSize) :
    (ircParserAppendRaw p a).1 =
      { p with raw := Function.update p.raw p.len a, len := p.len + 1 } := by
  simp only [ircParserAppendRaw]
  rw [if_neg (by omega)]

theorem readByte_overflow {p : Parser} {a : UInt8} (hc : a ≠ cr) (hl : a ≠ lf)
    (h : ircParserRawBufferSize ≤ p.len) :
    (readByte p a).parser.state = .error ∧ (readByte p a).flow = .returnIndex ∧
      (readByte p a).events = [.write p.len] := by
  have happ : (ircParserAppendRaw p a).1.state = .error := by
    simp only [ircParserAppendRaw]
    rw [if_pos (by omega)]
  have hturn : appendedTurn (ircParserAppendRaw p a).1 a =
      ⟨{ (ircParserAppendRaw p a).1 with state := .error }, [], .returnIndex⟩ := by
    simp only [appendedTurn, happ]
  have hread : readByte p a = turn p a := readByte_of_turn (by simp [turn_other p a hc hl, hturn])
  rw [hread, turn_other p a hc hl, hturn]
  exact ⟨rfl, rfl, rfl⟩

theorem readByte_failed {p : Parser} {a : UInt8} (hc : a ≠ cr) (hl : a ≠ lf)
    (hs : p.state = .error ∨ p.state = .end_) :
    (readByte p a).parser.state = .error ∧ (readByte p a).flow = .returnIndex ∧
      (readByte p a).events = [.write p.len] := by
  by_cases hfull : ircParserRawBufferSize ≤ p.len
  · exact readByte_overflow hc hl hfull
  have happ := appendRaw_live (p := p) a (by omega)
  have hturn : ∃ e, appendedTurn (ircParserAppendRaw p a).1 a =
      ⟨{ (ircParserAppendRaw p a).1 with error := e, state := .error }, [], .returnIndex⟩ := by
    rw [happ]
    rcases hs with hs | hs
    · exact ⟨p.error, by simp only [appendedTurn, hs]⟩
    · exact ⟨.undefState, by simp only [appendedTurn, hs]⟩
  obtain ⟨e, hturn⟩ := hturn
  have hread : readByte p a = turn p a := readByte_of_turn (by simp [turn_other p a hc hl, hturn])
  rw [hread, turn_other p a hc hl, hturn]
  exact ⟨rfl, rfl, rfl⟩

theorem readByte_live {p : Parser} {a : UInt8} (hc : a ≠ cr) (hl : a ≠ lf)
    (hs : p.state ∉ [.init, .end_, .error]) (hlast : p.last ≤ p.len)
    (hroom : p.len < ircParserRawBufferSize) :
    (readByte p a).flow = .next ∧ Holds (.live (p.len + 1)) (readByte p a).parser := by
  have happ := appendRaw_live (p := p) a hroom
  have hcases := appendedTurn_cases (ircParserAppendRaw p a).1 a
  have hturn : (appendedTurn (ircParserAppendRaw p a).1 a).flow = .next ∧
      Holds (.live (p.len + 1)) (appendedTurn (ircParserAppendRaw p a).1 a).parser := by
    rw [happ] at hcases ⊢
    generalize appendedTurn _ a = t at hcases ⊢
    cases hcases with
    | started hi => exact absurd (by simp [show p.state = .init from hi]) hs
    | unread hi => exact absurd (by simp [show p.state = .init from hi]) hs
    | called s hi hnext =>
      refine ⟨rfl, ?_, rfl, le_rfl⟩
      change s ∉ _
      simp only [List.mem_cons, List.not_mem_nil, or_false] at hnext ⊢
      rcases hnext with rfl | rfl | rfl | rfl <;> simp
    | trailed hi => exact ⟨rfl, by simp [Turn.next, ircParserSetState], rfl, le_rfl⟩
    | quiet hi => exact ⟨rfl, hs, rfl, Nat.le_succ_of_le hlast⟩
    | failed e hi =>
      have hor : p.state = .end_ ∨ p.state = .error := by simpa using hi
      rcases hor with hi | hi <;> exact absurd (by simp [hi]) hs
  have hread : readByte p a = turn p a :=
    readByte_of_turn (by rw [turn_other p a hc hl]; simp [hturn.1])
  rw [hread, turn_other p a hc hl]
  exact hturn

/-- The first byte of a line: a colon starts the nick, any other byte is unread and
    then read as part of the command. -/
theorem readByte_first {p : Parser} {a : UInt8} (hc : a ≠ cr) (hl : a ≠ lf)
    (h : Holds (.live 0) p) :
    (readByte p a).flow = .next ∧ Holds (.live 1) (readByte p a).parser := by
  obtain ⟨hs, hlen, hlast⟩ := h
  have happ := appendRaw_live (p := p) a (by rw [hlen]; decide)
  by_cases hcol : a = colon
  · have hturn : turn p a = ⟨{ (ircParserAppendRaw p a).1 with last := 1, state := .nick },
        [.write p.len], .next⟩ := by
      rw [turn_other p a hc hl, happ]
      simp only [appendedTurn, hs, hcol, ↓reduceIte]
    rw [readByte_of_turn (by rw [hturn]; simp), hturn, happ]
    exact ⟨rfl, by simp, by change p.len + 1 = 1; omega, le_rfl⟩
  · have hturn : turn p a = ⟨{ (ircParserAppendRaw p a).1 with len := p.len, state := .command },
        [.write p.len], .again⟩ := by
      rw [turn_other p a hc hl, happ]
      simp only [appendedTurn, hs, hcol, ↓reduceIte, Nat.add_sub_cancel]
    have hsecond := readByte_live (p := (turn p a).parser) hc hl
      (by rw [hturn]; simp)
      (by rw [hturn, happ]; change p.last ≤ p.len; omega)
      (by rw [hturn]; change p.len < _; rw [hlen]; decide)
    have hread : (readByte p a).parser = (readByte (turn p a).parser a).parser ∧
        (readByte p a).flow = (readByte (turn p a).parser a).flow := by
      have hcmd : (turn p a).parser.state = .command := by rw [hturn]
      rw [readByte_of_turn (turn_command_flow hcmd)]
      simp [readByte, show (turn p a).flow = .again by rw [hturn]]
    have hone : (turn p a).parser.len + 1 = 1 := by
      rw [hturn]
      change p.len + 1 = 1
      omega
    rw [hread.1, hread.2]
    exact ⟨hsecond.1, hone ▸ hsecond.2⟩

theorem holds_live_state {n : ℕ} {p : Parser} (h : Holds (.live n) p) :
    p.state ≠ .end_ ∧ p.state ≠ .error ∧ p.len = n := by
  cases n with
  | zero => exact ⟨by simp [h.1], by simp [h.1], h.2.1⟩
  | succ n =>
    obtain ⟨hs, hlen, -⟩ := h
    refine ⟨?_, ?_, hlen⟩
    · intro he
      simp [he] at hs
    · intro he
      simp [he] at hs

theorem readByte_kept {n : ℕ} {p : Parser} {a : UInt8} (hc : a ≠ cr) (hl : a ≠ lf)
    (h : Holds (.live n) p) (hn : n < ircParserRawBufferSize) :
    (readByte p a).flow = .next ∧ Holds (.live (n + 1)) (readByte p a).parser := by
  cases n with
  | zero => exact readByte_first hc hl h
  | succ n =>
    obtain ⟨hs, hlen, hlast⟩ := h
    have hkept := readByte_live hc hl hs (by omega) (by omega)
    rw [hlen] at hkept
    exact hkept

theorem executeFrom_cr (total i : ℕ) (p : Parser) (rest : Bytes) (hs : p.state = .end_)
    (hblock : rest = [lf] ∨ IsBlock rest ∧ rest.head? ≠ some lf) :
    Holds (crCarry rest) (executeFrom total p i rest).parser := by
  induction rest generalizing p i with
  | nil => rcases hblock with h | h <;> simp [IsBlock] at h
  | cons a rest ih =>
    by_cases hl : a = lf
    · subst hl
      have hnil : rest = [] := by
        rcases hblock with h | h
        · exact (List.cons.inj h).2
        · exact absurd rfl h.2
      have hread : readByte p lf = turn p lf := readByte_of_turn (by rw [turn_lf p hs]; simp)
      subst hnil
      simp only [executeFrom, hread, turn_lf p hs, crCarry, ↓reduceIte]
      exact ⟨rfl, rfl, rfl⟩
    have hrest : IsBlock (a :: rest) := by
      rcases hblock with h | h
      · exact absurd (List.cons.inj h).1 hl
      · exact h.1
    by_cases hc : a = cr
    · subst hc
      have hread : readByte p cr = ⟨{ p with state := .end_ }, [], .next⟩ := rfl
      have htail : rest = [lf] ∨ IsBlock rest ∧ rest.head? ≠ some lf := by
        rcases block_tail hrest with h | h
        · exact Or.inl h.2
        · exact Or.inr ⟨h.1, fun he => h.2 ⟨rfl, he⟩⟩
      simp only [executeFrom, hread, crCarry, hl, ↓reduceIte]
      exact ih (i + 1) _ rfl htail
    · obtain ⟨hstate, hflow, -⟩ := readByte_failed hc hl (Or.inr hs)
      simp only [executeFrom, hflow, crCarry, hl, hc, ↓reduceIte]
      exact hstate

theorem executeFrom_holds (total i : ℕ) (c : Carry) (p : Parser) (line : Bytes)
    (h : Holds c p) (hblock : IsBlock line) :
    Holds (lineCarry c line) (executeFrom total p i line).parser := by
  induction line generalizing p i c with
  | nil => exact absurd hblock.1 (by simp)
  | cons a rest ih =>
    by_cases hc : a = cr
    · subst hc
      have hread : readByte p cr = ⟨{ p with state := .end_ }, [], .next⟩ := rfl
      have hne : cr ≠ lf := by decide
      have hcarry : lineCarry c (cr :: rest) = crCarry rest := by
        cases c <;> simp [lineCarry, hne]
      have htail : rest = [lf] ∨ IsBlock rest ∧ rest.head? ≠ some lf := by
        rcases block_tail hblock with h | h
        · exact Or.inl h.2
        · exact Or.inr ⟨h.1, fun he => h.2 ⟨rfl, he⟩⟩
      rw [hcarry]
      simp only [executeFrom, hread]
      exact executeFrom_cr total (i + 1) _ rest rfl htail
    by_cases hl : a = lf
    · -- a lone LF: the call returns -1 and leaves the parser as it was
      subst hl
      have hs : p.state ≠ .end_ := by
        cases c with
        | live n => exact (holds_live_state h).1
        | stuck => intro he; rw [show p.state = .error from h] at he; cases he
      have hread : readByte p lf = ⟨p, [], .returnMinusOne⟩ := by
        simp [readByte, turn_lf_early p hs]
      have hcarry : lineCarry c (lf :: rest) = c := by
        cases c <;> simp [lineCarry, hc]
      rw [hcarry]
      simp only [executeFrom, hread]
      exact h
    cases c with
    | stuck =>
      obtain ⟨hstate, hflow, -⟩ := readByte_failed hc hl (Or.inl h)
      simp only [executeFrom, hflow, lineCarry, hc, ↓reduceIte]
      exact hstate
    | live n =>
      have hlen := (holds_live_state h).2.2
      by_cases hn : n < ircParserRawBufferSize
      · obtain ⟨hflow, hholds⟩ := readByte_kept hc hl h hn
        have htail : IsBlock rest := by
          rcases block_tail hblock with hb | hb
          · exact absurd hb.1 hc
          · exact hb.1
        simp only [executeFrom, hflow, lineCarry, hc, hl, hn, ↓reduceIte]
        exact ih (i + 1) _ _ hholds htail
      · have hfull : ircParserRawBufferSize ≤ p.len := by omega
        obtain ⟨hstate, hflow, -⟩ := readByte_overflow hc hl hfull
        simp only [executeFrom, hflow, lineCarry, hc, hl, hn, ↓reduceIte]
        exact hstate

theorem feedLines_holds (c : Carry) (p : Parser) (lines : List Bytes) (h : Holds c p)
    (hblock : ∀ line ∈ lines, IsBlock line) :
    Holds (lines.foldl lineCarry c) (feedLines p lines).1 := by
  induction lines generalizing p c with
  | nil => exact h
  | cons line rest ih =>
    have hfirst := executeFrom_holds line.length 0 c p line h (hblock line (by simp))
    exact ih _ _ hfirst (fun l hl => hblock l (by simp [hl]))

theorem callbacks_append (xs ys : List Event) :
    callbacks (xs ++ ys) = callbacks xs ++ callbacks ys := List.filterMap_append

theorem callbacks_forceCall (p : Parser) (f : Callback) (hf : f ≠ .onError) :
    callbacks (ircParserForceCall p f).2 =
      [(f, slice p.raw p.last ((p.len : ℤ) - p.last - 1).toNat)] := by
  rw [forceCall_events]
  cases f <;> first | rfl | exact absurd rfl hf

/-- Past the nick no callback is `on_nick`, up to the end of the line. -/
theorem turn_no_nick {p : Parser} (a : UInt8) (hs : p.state ∉ [.init, .nick]) :
    (∀ e ∈ callbacks (turn p a).events, e.1 ≠ .onNick) ∧
      (a ≠ lf → (turn p a).parser.state ∉ [.init, .nick]) ∧ (turn p a).flow ≠ .again := by
  by_cases hc : a = cr
  · subst hc
    rw [turn_cr]
    exact ⟨by simp [callbacks], fun _ => by simp, by simp⟩
  by_cases hl : a = lf
  · subst hl
    by_cases he : p.state = .end_
    · rw [turn_lf p he]
      refine ⟨?_, fun h => absurd rfl h, by simp⟩
      have hcb : ircParserGetCb { p with len := p.len + 1 } = .onParam := by
        simp [ircParserGetCb, he]
      simp only [callbacks_append, ircParserCall, hcb]
      rw [callbacks_forceCall _ _ (by simp), callbacks_forceCall _ _ (by simp)]
      simp
    · rw [turn_lf_early p he]
      exact ⟨by simp [callbacks], fun h => absurd rfl h, by simp⟩
  rw [turn_other p a hc hl]
  have hstate : (ircParserAppendRaw p a).1.state ∉ [.init, .nick] := by
    simp only [ircParserAppendRaw]
    split
    · simp
    · exact hs
  have hcases := appendedTurn_cases (ircParserAppendRaw p a).1 a
  generalize (ircParserAppendRaw p a).1 = q at hstate hcases ⊢
  have hwrite : ∀ evs, callbacks (.write p.len :: evs) = callbacks evs := fun _ => rfl
  simp only [hwrite]
  generalize appendedTurn q a = t at hcases ⊢
  cases hcases with
  | started hi => exact absurd (by simp [hi]) hstate
  | unread hi => exact absurd (by simp [hi]) hstate
  | called s hi hnext =>
    refine ⟨?_, fun _ => ?_, by simp [Turn.next]⟩
    · have hcb : ircParserGetCb q ≠ .onNick ∧ ircParserGetCb q ≠ .onError := by
        unfold ircParserGetCb
        cases hq : q.state <;> simp [hq] at hi hstate ⊢
      intro e he
      change e ∈ callbacks (ircParserCall q).2 at he
      rw [ircParserCall, callbacks_forceCall _ _ hcb.2, List.mem_singleton] at he
      subst he
      exact hcb.1
    · change s ∉ _
      simp only [List.mem_cons, List.not_mem_nil, or_false] at hnext ⊢
      rcases hnext with rfl | rfl | rfl | rfl <;> simp
  | trailed hi => exact ⟨by simp [Turn.next, callbacks], fun _ => by simp [Turn.next,
      ircParserSetState], by simp [Turn.next]⟩
  | quiet hi => exact ⟨by simp [Turn.next, callbacks], fun _ => hstate, by simp [Turn.next]⟩
  | failed e hi => exact ⟨by simp [callbacks], fun _ => by simp, by simp⟩

theorem executeFrom_no_nick (total i : ℕ) (p : Parser) (line : Bytes)
    (hs : p.state ∉ [.init, .nick]) (hl : lf ∉ line) :
    ∀ e ∈ callbacks (executeFrom total p i (line ++ [lf])).events, e.1 ≠ .onNick := by
  induction line generalizing p i with
  | nil =>
    obtain ⟨hev, -, hflow⟩ := turn_no_nick lf hs
    simp only [List.nil_append, executeFrom, readByte_of_turn hflow]
    intro e he
    cases hf : (turn p lf).flow <;> simp only [hf, callbacks_append] at he
    · exact hev e (by simpa [callbacks] using he)
    · exact absurd hf hflow
    · exact hev e he
    · exact hev e (by simpa [callbacks] using he)
  | cons a rest ih =>
    obtain ⟨hev, hstate, hflow⟩ := turn_no_nick a hs
    have ha : a ≠ lf := fun h => hl (by simp [h])
    have hrest := ih (i + 1) (turn p a).parser (hstate ha) (fun h => hl (by simp [h]))
    simp only [List.cons_append, executeFrom, readByte_of_turn hflow]
    intro e he
    cases hf : (turn p a).flow <;> simp only [hf, callbacks_append] at he
    · rcases List.mem_append.mp he with he | he
      · exact hev e he
      · exact hrest e he
    · exact absurd hf hflow
    · exact hev e he
    · exact hev e (by simpa [callbacks] using he)

/-- A prefix with an empty nick: a parser at the start of a line hands out exactly it. -/
def probe : Bytes := [colon, space, cr, lf]

theorem probe_fresh : (callbacks (ircParserExecute ircParserInit probe).events).head? =
    some (.onNick, []) := by decide

theorem executeFrom_failed {p : Parser} {a : UInt8} (total i : ℕ) (rest : Bytes)
    (hflow : (readByte p a).flow = .returnIndex) (hev : (readByte p a).events = [.write p.len]) :
    callbacks (executeFrom total p i (a :: rest)).events = [] := by
  simp only [executeFrom, hflow, hev]
  rfl

/-- A parser after a byte that only went into `raw`. -/
def kept (p : Parser) (a : UInt8) : Parser :=
  { p with raw := Function.update p.raw p.len a, len := p.len + 1 }

theorem readByte_nick_colon {p : Parser} (hs : p.state = .nick)
    (h : p.len < ircParserRawBufferSize) :
    readByte p colon = ⟨kept p colon, [.write p.len], .next⟩ := by
  have happ : (ircParserAppendRaw p colon).1 = kept p colon := appendRaw_live colon h
  have hturn : turn p colon = ⟨kept p colon, [.write p.len], .next⟩ := by
    rw [turn_other p colon (by decide) (by decide), happ,
      appendedTurn_nick (q := kept p colon) colon hs]
    rfl
  rw [readByte_of_turn (by rw [hturn]; simp), hturn]

theorem readByte_nick_space {p : Parser} (hs : p.state = .nick)
    (h : p.len < ircParserRawBufferSize) :
    (readByte p space).flow = .next ∧ callbacks (readByte p space).events =
      [(.onNick, slice (kept p space).raw p.last (p.len - p.last))] := by
  have happ : (ircParserAppendRaw p space).1 = kept p space := appendRaw_live space h
  have hturn : turn p space = ⟨ircParserSetState (kept p space) .command,
      .write p.len :: (ircParserCall (kept p space)).2, .next⟩ := by
    rw [turn_other p space (by decide) (by decide), happ,
      appendedTurn_nick (q := kept p space) space hs]
    rfl
  have hcb : ircParserGetCb (kept p space) = .onNick := by
    simp [ircParserGetCb, kept, hs]
  have hlen : (((kept p space).len : ℤ) - (kept p space).last - 1).toNat = p.len - p.last := by
    change (((p.len + 1 : ℕ) : ℤ) - p.last - 1).toNat = _
    omega
  rw [readByte_of_turn (by rw [hturn]; simp), hturn]
  refine ⟨rfl, ?_⟩
  change callbacks (ircParserCall (kept p space)).2 = _
  rw [ircParserCall, hcb, callbacks_forceCall _ _ (by simp), hlen]
  rfl

theorem probe_nick_pending {p : Parser} (hs : p.state = .nick) (hlast : p.last ≤ p.len) :
    (callbacks (ircParserExecute p probe).events).head? ≠ some (.onNick, []) := by
  unfold ircParserExecute probe
  by_cases hroom : p.len < ircParserRawBufferSize
  · have hskip : callbacks [Event.write p.len] = [] := rfl
    rw [executeFrom]
    simp only [readByte_nick_colon hs hroom, callbacks_append, hskip, List.nil_append]
    by_cases hroom' : (kept p colon).len < ircParserRawBufferSize
    · obtain ⟨hflow, hev⟩ := readByte_nick_space (p := kept p colon) hs hroom'
      rw [executeFrom]
      simp only [hflow, callbacks_append, hev]
      intro he
      have hnil : slice (kept (kept p colon) space).raw (kept p colon).last
          ((kept p colon).len - (kept p colon).last) = [] := by
        simpa using he
      have hzero : (kept p colon).len - (kept p colon).last = 0 := by
        simpa [slice] using hnil
      change p.len + 1 - p.last = 0 at hzero
      omega
    · obtain ⟨-, hflow, hev⟩ := readByte_overflow (p := kept p colon) (a := space)
        (by decide) (by decide) (by omega)
      rw [executeFrom_failed _ _ _ hflow hev]
      simp
  · obtain ⟨-, hflow, hev⟩ := readByte_overflow (p := p) (a := colon)
      (by decide) (by decide) (by omega)
    rw [executeFrom_failed _ _ _ hflow hev]
    simp

theorem probe_carried {c : Carry} {p : Parser} (h : Holds c p) (hc : c ≠ .live 0) :
    (callbacks (ircParserExecute p probe).events).head? ≠ some (.onNick, []) := by
  have hpast : p.state ∉ [.init, .nick] →
      (callbacks (ircParserExecute p probe).events).head? ≠ some (.onNick, []) := by
    intro hs he
    have hno := executeFrom_no_nick probe.length 0 p [colon, space, cr] hs (by decide)
    exact hno _ (List.mem_of_head? he) rfl
  cases c with
  | stuck => exact hpast (by simp [show p.state = .error from h])
  | live n =>
    cases n with
    | zero => exact absurd rfl hc
    | succ n =>
      by_cases hs : p.state = .nick
      · exact probe_nick_pending hs (h.2.1 ▸ h.2.2)
      · refine hpast ?_
        have hlive := h.1
        intro hmem
        simp only [List.mem_cons, List.not_mem_nil, or_false] at hmem hlive
        rcases hmem with hi | hi
        · exact hlive (Or.inl hi)
        · exact hs hi

theorem ready_agrees {p : Parser} (h : Holds (.live 0) p) : Agree p ircParserInit where
  len_eq := h.2.1
  last_eq := h.2.2
  state_eq := h.1
  raw_eq := by
    intro j hj
    rw [h.2.1] at hj
    exact absurd hj (Nat.not_lt_zero j)

/-- Whatever blocks came before, every later block is parsed as by a new parser exactly
    when the earlier ones carry nothing over. -/
theorem earlier_lines_harmless_iff (earlier : List Bytes) (h : ∀ line ∈ earlier, IsBlock line) :
    (∀ line, IsBlock line →
      callbacks (ircParserExecute (feedLines ircParserInit earlier).1 line).events =
        callbacks (ircParserExecute ircParserInit line).events) ↔
      carryOf earlier = .live 0 := by
  have hholds : Holds (carryOf earlier) (feedLines ircParserInit earlier).1 :=
    feedLines_holds (.live 0) ircParserInit earlier holds_init h
  constructor
  · intro hall
    by_contra hc
    have hprobe := hall probe (by decide)
    have hhead := probe_carried hholds hc
    rw [hprobe, probe_fresh] at hhead
    exact hhead rfl
  · intro hc line _
    rw [hc] at hholds
    unfold ircParserExecute
    rw [(ready_agrees hholds).executeFrom]

theorem earlier_lines_harmless_two_lines :
    carryOf [bytes "PING :a\r\n", bytes "PING :b\r\n"] = .live 0 ∧
      ∀ line, IsBlock line →
        callbacks (ircParserExecute (feedLines ircParserInit
          [bytes "PING :a\r\n", bytes "PING :b\r\n"]).1 line).events =
        callbacks (ircParserExecute ircParserInit line).events :=
  ⟨by decide, (earlier_lines_harmless_iff _ (by decide)).mpr (by decide)⟩

/-- After a line with a lone CR the parser reports nothing of the next line. -/
theorem lone_cr_silences_next_line : IsBlock (bytes "a\rb\r\n") ∧ IsBlock (bytes "PING x\r\n") ∧
    callbacks (ircParserExecute (feedLines ircParserInit [bytes "a\rb\r\n"]).1
      (bytes "PING x\r\n")).events ≠
    callbacks (ircParserExecute ircParserInit (bytes "PING x\r\n")).events := by
  decide

end Xdccget.IrcParserCarry
