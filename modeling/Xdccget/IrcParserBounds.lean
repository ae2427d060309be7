import Xdccget.IrcParser

set_option autoImplicit false

/-!
# Accesses of the line parser to its buffer

A parser with room for a byte stays inside `raw`. An over-long line leaves the
error state with `raw` full, and no caller resets the parser, so the next line
that appends a byte writes behind the buffer.
-/
namespace Xdccget.IrcParserBounds
open CText IrcParser

/-- `raw` has `ircParserRawBufferSize + 1` cells. -/
def InBounds : Event → Prop
  | .write index => index ≤ ircParserRawBufferSize
  | .call _ start n _ => 0 ≤ n ∧ (start : ℤ) + n ≤ ircParserRawBufferSize + 1
  | .callData _ _ => True

instance : DecidablePred InBounds := fun e => by
  cases e <;> unfold InBounds <;> infer_instance

structure BufferInv (p : Parser) : Prop where
  len_le : p.len ≤ ircParserRawBufferSize + 1
  last_le : p.last ≤ p.len
  full : p.len = ircParserRawBufferSize + 1 → p.state = .error ∨ p.state = .end_
  init_len : p.state = .init → p.len = 0

def Room (p : Parser) : Prop := p.len ≤ ircParserRawBufferSize

instance (p : Parser) : Decidable (Room p) := by unfold Room; infer_instance

/-- Past any leading CRs the line has a byte that is not LF, so some byte of it
    reaches `IRC_PARSER_APPEND_RAW` from the state that the last line left. -/
def appendsByte (line : Bytes) : Bool :=
  match line.dropWhile (· = cr) with
  | [] => false
  | a :: _ => a ≠ lf

theorem init_inv : BufferInv ircParserInit where
  len_le := by decide
  last_le := by decide
  full := by decide
  init_len := by decide

theorem reset_inv (p : Parser) : BufferInv (ircParserReset p) where
  len_le := Nat.zero_le _
  last_le := le_rfl
  full := fun h => absurd h (by simp [ircParserReset])
  init_len := fun _ => rfl

theorem reset_room (p : Parser) : Room (ircParserReset p) := Nat.zero_le _

theorem forceCall_inBounds {p : Parser} (f : Callback) (hlast : p.last < p.len)
    (hlen : p.len ≤ ircParserRawBufferSize + 2) : ∀ e ∈ (ircParserForceCall p f).2, InBounds e := by
  intro e he
  rw [forceCall_events, List.mem_singleton] at he
  subst he
  simp only [InBounds]
  omega

/-- What the append leaves for the inner `switch`. -/
structure Appended (q : Parser) : Prop where
  len_le : q.len ≤ ircParserRawBufferSize + 1
  last_lt : q.last < q.len
  full : q.len = ircParserRawBufferSize + 1 → q.state = .error
  init_len : q.state = .init → q.len = 1

theorem append_appended {p : Parser} (a : UInt8) (h : BufferInv p) (room : Room p) :
    Appended (ircParserAppendRaw p a).1 := by
  have hlast := h.last_le
  unfold Room at room
  simp only [ircParserAppendRaw]
  split
  · rename_i hfull
    refine ⟨?_, ?_, fun _ => rfl, ?_⟩
    · change p.len + 1 ≤ _
      omega
    · change p.last < p.len + 1
      omega
    · intro hs
      cases hs
  · rename_i hfull
    refine ⟨?_, ?_, ?_, ?_⟩
    · change p.len + 1 ≤ _
      omega
    · change p.last < p.len + 1
      omega
    · intro he
      change p.len + 1 = _ at he
      change ¬ ircParserRawBufferSize < p.len + 1 at hfull
      omega
    · intro hs
      change p.len + 1 = 1
      rw [h.init_len hs]

/-- What a turn from an appended state leaves: accesses inside `raw`, and room for
    another byte unless the call returns. -/
structure SafeTurn (t : Turn) : Prop where
  inBounds : ∀ e ∈ t.events, InBounds e
  inv : BufferInv t.parser
  room : t.flow = .next ∨ t.flow = .again → Room t.parser

theorem appendedTurn_safe {q : Parser} (a : UInt8) (h : Appended q) :
    SafeTurn (appendedTurn q a) := by
  obtain ⟨hlen, hlast, hfull, hinit⟩ := h
  have hroom : q.state ≠ .error → Room q := fun hs => by
    have hne : q.len ≠ ircParserRawBufferSize + 1 := fun he => hs (hfull he)
    unfold Room
    omega
  have hcall : ∀ e ∈ (ircParserCall q).2, InBounds e :=
    forceCall_inBounds _ hlast (Nat.le_succ_of_le hlen)
  have hnone : ∀ e ∈ ([] : List Event), InBounds e := by simp
  have hcases := appendedTurn_cases q a
  generalize appendedTurn q a = t at hcases ⊢
  cases hcases with
  | started hs =>
    refine ⟨hnone, ⟨hlen, ?_, ?_, ?_⟩, fun _ => hroom (by simp [hs])⟩
    · change 1 ≤ q.len
      omega
    · intro he
      change q.len = _ at he
      rw [hinit hs] at he
      cases he
    · intro hn
      cases hn
  | unread hs =>
    have hone := hinit hs
    have hzero : q.len - 1 = 0 := by omega
    refine ⟨hnone, ⟨?_, ?_, ?_, ?_⟩, fun _ => ?_⟩
    · change q.len - 1 ≤ _
      omega
    · change q.last ≤ q.len - 1
      omega
    · intro he
      change q.len - 1 = _ at he
      rw [hzero] at he
      cases he
    · intro _
      exact hzero
    · change q.len - 1 ≤ _
      omega
  | called s hs hnext =>
    have hr := hroom (by intro he; simp [he] at hs)
    refine ⟨hcall, ⟨hlen, le_rfl, ?_, ?_⟩, fun _ => hr⟩
    · intro he
      change q.len = _ at he
      unfold Room at hr
      omega
    · intro he
      change s = _ at he
      simp [he] at hnext
  | trailed hs =>
    have hr := hroom (by simp [hs])
    refine ⟨hnone, ⟨hlen, le_rfl, ?_, ?_⟩, fun _ => hr⟩
    · intro he
      change q.len = _ at he
      unfold Room at hr
      omega
    · intro he
      cases he
  | quiet hs =>
    have hr := hroom (by intro he; simp [he] at hs)
    refine ⟨hnone, ⟨hlen, hlast.le, fun he => Or.inl (hfull he), ?_⟩, fun _ => hr⟩
    intro he
    change q.state = _ at he
    simp [he] at hs
  | failed e hs =>
    refine ⟨hnone, ⟨hlen, hlast.le, fun _ => Or.inl rfl, ?_⟩, ?_⟩
    · intro he
      cases he
    · intro hf
      rcases hf with hf | hf <;> cases hf

theorem turn_safe {p : Parser} (a : UInt8) (h : BufferInv p)
    (room : Room p ∨ a = cr ∨ a = lf ∧ p.state = .end_) :
    (∀ e ∈ (turn p a).events, InBounds e) ∧ BufferInv (turn p a).parser ∧
      (Room p → (turn p a).flow = .next ∨ (turn p a).flow = .again → Room (turn p a).parser) := by
  by_cases hc : a = cr
  · subst hc
    rw [turn_cr]
    refine ⟨by simp, ⟨h.len_le, h.last_le, fun _ => Or.inr rfl, ?_⟩, fun hr _ => hr⟩
    intro hs
    cases hs
  by_cases hl : a = lf
  · subst hl
    by_cases hs : p.state = .end_
    · rw [turn_lf p hs]
      have hlast := h.last_le
      have hlen := h.len_le
      refine ⟨?_, reset_inv _, fun _ _ => reset_room _⟩
      intro e he
      rcases List.mem_append.mp he with he | he
      · refine forceCall_inBounds _ ?_ ?_ e he
        · change p.last < p.len + 1
          omega
        · change p.len + 1 ≤ _
          omega
      · refine forceCall_inBounds _ ?_ ?_ e he
        · change p.last < p.len + 1
          omega
        · change p.len + 1 ≤ _
          omega
    · rw [turn_lf_early p hs]
      exact ⟨by simp, h, fun hr _ => hr⟩
  have hroom : Room p := by
    rcases room with hr | hr | hr
    · exact hr
    · exact absurd hr hc
    · exact absurd hr.1 hl
  have hsafe := appendedTurn_safe a (append_appended a h hroom)
  rw [turn_other p a hc hl]
  refine ⟨?_, hsafe.inv, fun _ => hsafe.room⟩
  intro e he
  rcases List.mem_cons.mp he with rfl | he
  · exact hroom
  · exact hsafe.inBounds e he

theorem readByte_safe {p : Parser} (a : UInt8) (h : BufferInv p)
    (room : Room p ∨ a = cr ∨ a = lf ∧ p.state = .end_) :
    (∀ e ∈ (readByte p a).events, InBounds e) ∧ BufferInv (readByte p a).parser ∧
      (Room p → (readByte p a).flow = .next → Room (readByte p a).parser) := by
  obtain ⟨hev, hinv, hroom⟩ := turn_safe a h room
  unfold readByte
  dsimp only
  split
  · rename_i hagain
    obtain ⟨-, hc, hl⟩ := turn_again hagain
    have hr : Room p := by
      rcases room with hr | hr | hr
      · exact hr
      · exact absurd hr hc
      · exact absurd hr.1 hl
    have hr' := hroom hr (Or.inr hagain)
    obtain ⟨hev', hinv', hroom'⟩ := turn_safe a hinv (Or.inl hr')
    refine ⟨?_, hinv', fun _ hnext => hroom' hr' (Or.inl hnext)⟩
    intro e he
    rcases List.mem_append.mp he with he | he
    · exact hev e he
    · exact hev' e he
  · exact ⟨hev, hinv, fun hr hnext => hroom hr (Or.inl hnext)⟩

theorem executeFrom_next {p : Parser} {a : UInt8} (total i : ℕ) (rest : Bytes)
    (h : (readByte p a).flow = .next) : executeFrom total p i (a :: rest) =
      ⟨(executeFrom total (readByte p a).parser (i + 1) rest).parser,
        (readByte p a).events ++ (executeFrom total (readByte p a).parser (i + 1) rest).events,
        (executeFrom total (readByte p a).parser (i + 1) rest).value⟩ := by
  rw [executeFrom]
  simp only [h]

theorem executeFrom_return {p : Parser} {a : UInt8} (total i : ℕ) (rest : Bytes)
    (h : (readByte p a).flow ≠ .next) :
    (executeFrom total p i (a :: rest)).parser = (readByte p a).parser ∧
      ∃ tail, (executeFrom total p i (a :: rest)).events = (readByte p a).events ++ tail ∧
        ∀ e ∈ tail, ∃ offset len, e = .callData offset len := by
  have hagain := readByte_flow p a
  rw [executeFrom]
  cases hf : (readByte p a).flow with
  | next => exact absurd hf h
  | again => exact absurd hf hagain
  | returnMinusOne => exact ⟨rfl, [], by simp, by simp⟩
  | returnIndex => exact ⟨rfl, _, rfl, by simp⟩

theorem executeFrom_room (total i : ℕ) (p : Parser) (data : Bytes) (h : BufferInv p)
    (room : Room p) : (∀ e ∈ (executeFrom total p i data).events, InBounds e) ∧
      BufferInv (executeFrom total p i data).parser := by
  induction data generalizing p i with
  | nil => exact ⟨by simp [executeFrom], h⟩
  | cons a rest ih =>
    obtain ⟨hev, hinv, hroom⟩ := readByte_safe a h (Or.inl room)
    by_cases hf : (readByte p a).flow = .next
    · obtain ⟨hev', hinv'⟩ := ih (i + 1) (readByte p a).parser hinv (hroom room hf)
      rw [executeFrom_next total i rest hf]
      refine ⟨?_, hinv'⟩
      intro e he
      rcases List.mem_append.mp he with he | he
      · exact hev e he
      · exact hev' e he
    · obtain ⟨hp, tail, htail, hdata⟩ := executeFrom_return total i rest hf
      rw [hp, htail]
      refine ⟨?_, hinv⟩
      intro e he
      rcases List.mem_append.mp he with he | he
      · exact hev e he
      · obtain ⟨offset, len, rfl⟩ := hdata e he
        trivial

theorem readByte_cr (p : Parser) : readByte p cr = ⟨{ p with state := .end_ }, [], .next⟩ := rfl

theorem appendsByte_cr (rest : Bytes) : appendsByte (cr :: rest) = appendsByte rest := by
  simp [appendsByte]

theorem appendsByte_lf (rest : Bytes) : appendsByte (lf :: rest) = false := by
  have hne : lf ≠ cr := by decide
  simp [appendsByte, hne]

theorem appendsByte_other {a : UInt8} (rest : Bytes) (hc : a ≠ cr) (hl : a ≠ lf) :
    appendsByte (a :: rest) = true := by
  simp [appendsByte, hc, hl]

theorem executeFrom_blank (total i : ℕ) (p : Parser) (data : Bytes) (h : BufferInv p)
    (blank : appendsByte data = false) :
    (∀ e ∈ (executeFrom total p i data).events, InBounds e) ∧
      BufferInv (executeFrom total p i data).parser := by
  induction data generalizing p i with
  | nil => exact ⟨by simp [executeFrom], h⟩
  | cons a rest ih =>
    by_cases hc : a = cr
    · subst hc
      have hinv : BufferInv { p with state := .end_ } :=
        ⟨h.len_le, h.last_le, fun _ => Or.inr rfl, fun hs => by cases hs⟩
      rw [appendsByte_cr] at blank
      rw [executeFrom_next total i rest (by rw [readByte_cr]), readByte_cr]
      exact ih (i + 1) _ hinv blank
    by_cases hl : a = lf
    · subst hl
      by_cases hs : p.state = .end_
      · obtain ⟨hev, hinv, -⟩ := readByte_safe lf h (Or.inr (Or.inr ⟨rfl, hs⟩))
        have hturn : (readByte p lf).parser = ircParserReset { p with len := p.len + 1 } ∧
            (readByte p lf).flow = .next := by
          simp [readByte, turn_lf p hs]
        have hroom : Room (readByte p lf).parser := hturn.1 ▸ reset_room _
        obtain ⟨hev', hinv'⟩ := executeFrom_room total (i + 1) _ rest hinv hroom
        rw [executeFrom_next total i rest hturn.2]
        refine ⟨?_, hinv'⟩
        intro e he
        rcases List.mem_append.mp he with he | he
        · exact hev e he
        · exact hev' e he
      · have hread : readByte p lf = ⟨p, [], .returnMinusOne⟩ := by
          simp [readByte, turn_lf_early p hs]
        simp only [executeFrom, hread]
        exact ⟨by simp, h⟩
    rw [appendsByte_other rest hc hl] at blank
    cases blank

theorem readByte_writes {p : Parser} {a : UInt8} (hc : a ≠ cr) (hl : a ≠ lf) :
    Event.write p.len ∈ (readByte p a).events := by
  have hw : Event.write p.len ∈ (turn p a).events := by
    rw [turn_other p a hc hl]
    simp
  unfold readByte
  dsimp only
  split
  · exact List.mem_append_left _ hw
  · exact hw

/-- A full parser that appends a byte of the line writes behind `raw`. -/
theorem executeFrom_overrun (total i : ℕ) (p : Parser) (data : Bytes) (full : ¬ Room p)
    (appends : appendsByte data = true) :
    ∃ e ∈ (executeFrom total p i data).events, ¬ InBounds e := by
  induction data generalizing p i with
  | nil => cases appends
  | cons a rest ih =>
    by_cases hc : a = cr
    · subst hc
      rw [appendsByte_cr] at appends
      rw [executeFrom_next total i rest (by rw [readByte_cr]), readByte_cr]
      exact ih (i + 1) _ full appends
    by_cases hl : a = lf
    · subst hl
      rw [appendsByte_lf] at appends
      cases appends
    have hmem : Event.write p.len ∈ (executeFrom total p i (a :: rest)).events := by
      by_cases hf : (readByte p a).flow = .next
      · rw [executeFrom_next total i rest hf]
        exact List.mem_append_left _ (readByte_writes hc hl)
      · obtain ⟨-, tail, htail, -⟩ := executeFrom_return total i rest hf
        rw [htail]
        exact List.mem_append_left _ (readByte_writes hc hl)
    exact ⟨_, hmem, full⟩

theorem execute_inBounds_iff {p : Parser} (line : Bytes) (h : BufferInv p) :
    (∀ e ∈ (ircParserExecute p line).events, InBounds e) ↔
      (Room p ∨ appendsByte line = false) := by
  constructor
  · intro hall
    by_contra hno
    obtain ⟨hfull, happ⟩ := not_or.mp hno
    obtain ⟨e, he, hout⟩ :=
      executeFrom_overrun line.length 0 p line hfull (by simpa using happ)
    exact hout (hall e he)
  · rintro (hroom | hblank)
    · exact (executeFrom_room _ _ p line h hroom).1
    · exact (executeFrom_blank _ _ p line h hblank).1

theorem execute_inv {p : Parser} {line : Bytes} (h : BufferInv p)
    (fits : Room p ∨ appendsByte line = false) : BufferInv (ircParserExecute p line).parser := by
  rcases fits with hroom | hblank
  · exact (executeFrom_room _ _ p line h hroom).2
  · exact (executeFrom_blank _ _ p line h hblank).2

theorem feedLines_inBounds_iff (p : Parser) (lines : List Bytes) (h : BufferInv p) :
    (∀ e ∈ (feedLines p lines).2, InBounds e) ↔
      ∀ before line after, lines = before ++ line :: after →
        Room (feedLines p before).1 ∨ appendsByte line = false := by
  induction lines generalizing p with
  | nil => simp [feedLines]
  | cons first rest ih =>
    have hstep := execute_inBounds_iff first h
    constructor
    · intro hall before line after heq
      have hfirst : Room p ∨ appendsByte first = false :=
        hstep.mp (fun e he => hall e (List.mem_append_left _ he))
      cases before with
      | nil =>
        obtain ⟨rfl, -⟩ := List.cons.inj heq
        exact hfirst
      | cons b before =>
        obtain ⟨rfl, hrest⟩ := List.cons.inj heq
        exact (ih _ (execute_inv h hfirst)).mp
          (fun e he => hall e (List.mem_append_right _ he)) before line after hrest
    · intro hfits e he
      have hfirst : Room p ∨ appendsByte first = false := hfits [] first rest rfl
      rcases List.mem_append.mp he with he | he
      · exact hstep.mpr hfirst e he
      · refine (ih _ (execute_inv h hfirst)).mpr ?_ e he
        intro before line after heq
        exact hfits (first :: before) line after (by rw [heq]; rfl)

/-- Over every sequence of lines, all accesses stay inside `raw` exactly when no line
    that appends a byte meets a parser that an earlier error has left full. -/
theorem incoming_lines_in_bounds_iff (lines : List Bytes) :
    (∀ e ∈ (feedLines ircParserInit lines).2, InBounds e) ↔
      ∀ before line after, lines = before ++ line :: after →
        Room (feedLines ircParserInit before).1 ∨ appendsByte line = false :=
  feedLines_inBounds_iff ircParserInit lines init_inv

/-- 513 letters fill `raw` and leave the error state; the next line writes `raw[513]`. -/
theorem overlong_line_then_line_writes_behind_raw :
    ¬ ∀ e ∈ (feedLines ircParserInit
      [List.replicate 513 0x61 ++ [cr, lf], [0x61, cr, lf]]).2, InBounds e := by
  decide +kernel

end Xdccget.IrcParserBounds
