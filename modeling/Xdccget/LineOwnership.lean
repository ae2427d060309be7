import Xdccget.LineParser
import Xdccget.LineWords

set_option autoImplicit false

/-!
# Who owns the strings of a line

The callbacks of a block come in the order of the grammar, so none of them
overwrites what another one has stored. Every string that was allocated is then
in the result or has been freed, and each only once.
-/
namespace Xdccget.LineOwnership
open CText IrcParser IrcParserBounds IrcParserCarry LineWords LineParser

def place : Callback → ℕ
  | .onNick => 0
  | .onName => 1
  | .onHost => 2
  | .onCommand => 3
  | .onParam => 4
  | .onEnd => 5
  | .onError => 6

def nextPlace (cb : Callback) : ℕ := if cb = .onParam then place cb else place cb + 1

def InOrder : ℕ → List Call → Prop
  | _, [] => True
  | n, (cb, _) :: calls => n ≤ place cb ∧ InOrder (nextPlace cb) calls

def statePlace (s : ParserState) : ℕ := place (callbackOf s)

theorem statePlace_le (s : ParserState) : statePlace s ≤ 4 := by cases s <;> decide

theorem InOrder.mono {m n : ℕ} {calls : List Call} (h : InOrder n calls) (hmn : m ≤ n) :
    InOrder m calls := by
  cases calls with
  | nil => trivial
  | cons call calls => exact ⟨hmn.trans h.1, h.2⟩

theorem nextPlace_le_of_delimits {s t : ParserState} {a : UInt8} (h : delimits s a = some t) :
    nextPlace (callbackOf s) ≤ statePlace t := by
  cases s with
  | init | trailing | end_ | error => cases h
  | nick =>
    simp only [delimits] at h
    split_ifs at h <;> cases h <;> decide
  | name =>
    simp only [delimits] at h
    split_ifs at h <;> cases h <;> decide
  | host | command | params =>
    simp only [delimits] at h
    split_ifs at h
    cases h
    decide

theorem callbacks_ircParserCall {q : Parser} (h : q.state ≠ .error) :
    ∃ text, callbacks (ircParserCall q).2 = [(callbackOf q.state, text)] := by
  have hcb : callbackOf q.state ≠ .onError := by cases q.state <;> simp [callbackOf]
  rw [ircParserCall, getCb_eq_callbackOf h, callbacks_forceCall _ _ hcb]
  exact ⟨_, rfl⟩

section order
variable {rest : List Call}

theorem appendedTurn_inOrder {q : Parser} {a : UInt8}
    (h : InOrder (statePlace (appendedTurn q a).parser.state) rest) :
    InOrder (statePlace q.state) (callbacks (appendedTurn q a).events ++ rest) := by
  by_cases hlive : q.state ∈ [.init, .end_, .error]
  · have hevents : (appendedTurn q a).events = [] := by
      simp only [List.mem_cons, List.not_mem_nil, or_false] at hlive
      rcases hlive with hs | hs | hs <;> simp only [appendedTurn, hs]
      split <;> rfl
    have hstate : statePlace q.state ≤ statePlace (appendedTurn q a).parser.state := by
      simp only [List.mem_cons, List.not_mem_nil, or_false] at hlive
      rcases hlive with hs | hs | hs <;> simp only [appendedTurn, hs]
      · exact Nat.zero_le _
      · decide
      · decide
    rw [hevents]
    exact h.mono hstate
  · have herror : q.state ≠ .error := fun he => hlive (by simp [he])
    have hturn := appendedTurn_live a hlive
    cases hd : delimits q.state a with
    | some s =>
      rw [hd] at hturn
      rw [hturn] at h ⊢
      obtain ⟨text, hcalls⟩ := callbacks_ircParserCall herror
      change InOrder _ (callbacks (ircParserCall q).2 ++ rest)
      rw [hcalls]
      exact ⟨le_rfl, h.mono (nextPlace_le_of_delimits hd)⟩
    | none =>
      rw [hd] at hturn
      dsimp only at hturn
      split at hturn
      · next hc =>
        rw [hturn] at h ⊢
        rw [hc.1]
        exact h
      · rw [hturn] at h ⊢
        exact h

theorem appendRaw_state (p : Parser) (a : UInt8) :
    statePlace p.state ≤ statePlace (ircParserAppendRaw p a).1.state := by
  simp only [ircParserAppendRaw]
  split
  · exact statePlace_le p.state
  · exact le_rfl

theorem turn_inOrder {p : Parser} {a : UInt8} (hc : a ≠ cr) (hl : a ≠ lf)
    (h : InOrder (statePlace (turn p a).parser.state) rest) :
    InOrder (statePlace p.state) (callbacks (turn p a).events ++ rest) := by
  rw [turn_other p a hc hl] at h ⊢
  have hskip (events : List Event) : callbacks (.write p.len :: events) = callbacks events := rfl
  rw [hskip]
  exact (appendedTurn_inOrder h).mono (appendRaw_state p a)

theorem readByte_inOrder {p : Parser} {a : UInt8} (hc : a ≠ cr) (hl : a ≠ lf)
    (h : InOrder (statePlace (readByte p a).parser.state) rest) :
    InOrder (statePlace p.state) (callbacks (readByte p a).events ++ rest) := by
  by_cases hagain : (turn p a).flow = .again
  · simp only [readByte, hagain, if_true, callbacks_append, List.append_assoc] at h ⊢
    exact turn_inOrder hc hl (turn_inOrder hc hl h)
  · rw [readByte_of_turn hagain] at h ⊢
    exact turn_inOrder hc hl h

theorem readByte_state_ne_end {p : Parser} {a : UInt8} (hc : a ≠ cr) (hl : a ≠ lf)
    (h : (readByte p a).flow = .next) : (readByte p a).parser.state ≠ .end_ := by
  have hturn (q : Parser) (hq : (turn q a).flow = .next) : (turn q a).parser.state ≠ .end_ := by
    rw [turn_other q a hc hl] at hq ⊢
    have hcases := appendedTurn_cases (ircParserAppendRaw q a).1 a
    generalize appendedTurn _ a = t at hq hcases ⊢
    cases hcases with
    | started | trailed => exact ParserState.noConfusion
    | unread | failed => cases hq
    | called s hs hnext =>
      intro he
      have hend : s = .end_ := he
      simp [hend] at hnext
    | quiet hs =>
      intro he
      exact hs (by rw [show (ircParserAppendRaw q a).1.state = .end_ from he]; simp)
  by_cases hagain : (turn p a).flow = .again
  · simp only [readByte, hagain, if_true] at h ⊢
    exact hturn _ h
  · rw [readByte_of_turn hagain] at h ⊢
    exact hturn p h

/-- What can follow in a block: its last byte, or a block in which the parser is not already
    behind a CR. -/
def Tail (p : Parser) (line : Bytes) : Prop :=
  line = [lf] ∨ (IsBlock line ∧ ¬ (p.state = .end_ ∧ line.head? = some lf))

theorem executeFrom_inOrder (total i : ℕ) (p : Parser) (line : Bytes) (h : Tail p line) :
    InOrder (statePlace p.state) (callbacks (executeFrom total p i line).events) := by
  induction line generalizing p i with
  | nil => rcases h with h | h <;> simp [IsBlock] at h
  | cons a rest ih =>
    by_cases hl : a = lf
    · subst hl
      by_cases hs : p.state = .end_
      · have hnil : rest = [] := by
          rcases h with h | h
          · exact (List.cons.inj h).2
          · exact absurd ⟨hs, rfl⟩ h.2
        have hread : readByte p lf = turn p lf := readByte_of_turn (by rw [turn_lf p hs]; simp)
        have hcb : ircParserGetCb { p with len := p.len + 1 } = .onParam := by
          simp [ircParserGetCb, hs]
        subst hnil
        simp only [executeFrom, hread, turn_lf p hs, List.append_nil, callbacks_append,
          ircParserCall, hcb]
        rw [callbacks_forceCall _ _ (by simp), callbacks_forceCall _ _ (by simp)]
        exact ⟨statePlace_le p.state, by decide, trivial⟩
      · have hread : readByte p lf = turn p lf := readByte_of_turn (by rw [turn_lf_early p hs]; simp)
        simp only [executeFrom, hread, turn_lf_early p hs]
        trivial
    have hblock : IsBlock (a :: rest) := by
      rcases h with h | h
      · exact absurd (List.cons.inj h).1 hl
      · exact h.1
    have htail := block_tail hblock
    by_cases hc : a = cr
    · subst hc
      have hrest : Tail { p with state := .end_ } rest := by
        rcases htail with htail | ⟨hrest, hne⟩
        · exact Or.inl htail.2
        · exact Or.inr ⟨hrest, fun he => hne ⟨rfl, he.2⟩⟩
      have hcalls := ih (i + 1) { p with state := .end_ } hrest
      simp only [executeFrom, readByte_cr, List.nil_append]
      exact hcalls.mono (statePlace_le p.state)
    · have hread (calls : List Call) :
          InOrder (statePlace (readByte p a).parser.state) calls →
            InOrder (statePlace p.state) (callbacks (readByte p a).events ++ calls) :=
        readByte_inOrder hc hl
      cases hflow : (readByte p a).flow with
      | next =>
        have hrest : Tail (readByte p a).parser rest := by
          rcases htail with htail | ⟨hrest, -⟩
          · exact absurd htail.1 hc
          · exact Or.inr ⟨hrest, fun he => readByte_state_ne_end hc hl hflow he.1⟩
        rw [executeFrom_next total i rest hflow]
        dsimp only
        rw [callbacks_append]
        exact hread _ (ih (i + 1) _ hrest)
      | again => exact absurd hflow (readByte_flow p a)
      | returnMinusOne =>
        have hnone := hread [] trivial
        simp only [executeFrom, hflow]
        rwa [List.append_nil] at hnone
      | returnIndex =>
        have hnone := hread [] trivial
        have hdata (offset len : ℕ) : callbacks [Event.callData offset len] = [] := rfl
        simp only [executeFrom, hflow, callbacks_append, hdata]
        exact hnone

end order

/-- One line of the server calls each of the first four callbacks once at most, and ends with
    `on_end`. -/
theorem block_inOrder {c : Carry} {p : Parser} (hp : Holds c p) {line : Bytes} (h : IsBlock line) :
    InOrder 0 (callbacks (ircParserExecute p line).events) := by
  have hend : p.state ≠ .end_ := by
    cases c with
    | live n => exact (holds_live_state hp).1
    | stuck =>
      rw [show p.state = .error from hp]
      decide
  exact (executeFrom_inOrder _ 0 p line (Or.inr ⟨h, fun he => hend he.1⟩)).mono (Nat.zero_le _)

/-- Nothing is left of the lines so far, and each of their strings was freed once. -/
structure Clean (st : LineState) : Prop where
  nick : st.result.nick = none
  name : st.result.name = none
  host : st.result.host = none
  command : st.result.command = none
  numParams : st.result.numParams = 0
  params : ∀ i, st.result.params i = none
  freed : st.freed.Perm (List.range st.allocated)

theorem createLineParser_clean : Clean createLineParser :=
  ⟨rfl, rfl, rfl, rfl, rfl, fun _ => rfl, List.Perm.refl _⟩

structure Ledger (st : LineState) : Prop where
  owned : (st.freed ++ st.result.strs.map (·.id)).Perm (List.range st.allocated)
  behind : ∀ i, st.result.numParams ≤ i → st.result.params i = none

/-- The callbacks from place `n` on have not come yet. -/
structure Open (n : ℕ) (st : LineState) : Prop where
  nick : n ≤ 0 → st.result.nick = none
  name : n ≤ 1 → st.result.name = none
  host : n ≤ 2 → st.result.host = none
  command : n ≤ 3 → st.result.command = none

def paramStrs (r : ParserResult) : List Str := (List.range r.numParams).filterMap r.params

theorem strs_eq (r : ParserResult) :
    r.strs = r.nick.toList ++ (r.name.toList ++ (r.host.toList ++ (r.command.toList ++ paramStrs r))) := by
  cases r with
  | mk nick name host command numParams params =>
    cases nick <;> cases name <;> cases host <;> cases command <;> rfl

theorem Clean.ledger {st : LineState} (h : Clean st) : Ledger st where
  owned := by
    have hstrs : st.result.strs = [] := by
      rw [strs_eq, h.nick, h.name, h.host, h.command, paramStrs, h.numParams]
      rfl
    rw [hstrs, List.map_nil, List.append_nil]
    exact h.freed
  behind := fun i _ => h.params i

theorem Clean.isOpen {st : LineState} (h : Clean st) : Open 0 st :=
  ⟨fun _ => h.nick, fun _ => h.name, fun _ => h.host, fun _ => h.command⟩

theorem Ledger.free {st : LineState} (h : Ledger st) : Clean (freeParserResult st) where
  nick := rfl
  name := rfl
  host := rfl
  command := rfl
  numParams := rfl
  params := by
    intro i
    change (if i < st.result.numParams then none else st.result.params i) = none
    split
    · rfl
    · next hi => exact h.behind i (by omega)
  freed := h.owned

section ledger
variable {st : LineState} {n : ℕ}

theorem Ledger.owned_of_new (h : Ledger st) {r : ParserResult} {text : Bytes}
    (hr : r.strs.Perm (⟨st.allocated, text⟩ :: st.result.strs)) :
    (st.freed ++ r.strs.map (·.id)).Perm (List.range (st.allocated + 1)) := by
  have hnew : (r.strs.map (·.id)).Perm (st.allocated :: st.result.strs.map (·.id)) :=
    hr.map (·.id)
  have hall : (st.freed ++ r.strs.map (·.id)).Perm
      (st.allocated :: (st.freed ++ st.result.strs.map (·.id))) :=
    (hnew.append_left st.freed).trans List.perm_middle
  rw [List.range_succ]
  exact hall.trans ((h.owned.cons st.allocated).trans (List.perm_append_singleton _ _).symm)

theorem Ledger.onNick (h : Ledger st) (hnone : st.result.nick = none) (text : Bytes) :
    Ledger (onNick st text) where
  owned := by
    apply @Ledger.owned_of_new st h _ (cstr text)
    rw [strs_eq, strs_eq st.result, hnone]
    exact List.Perm.refl _
  behind := h.behind

theorem Ledger.onName (h : Ledger st) (hnone : st.result.name = none) (text : Bytes) :
    Ledger (onName st text) where
  owned := by
    apply @Ledger.owned_of_new st h _ (cstr text)
    rw [strs_eq, strs_eq st.result, hnone]
    exact List.perm_middle
  behind := h.behind

theorem Ledger.onHost (h : Ledger st) (hnone : st.result.host = none) (text : Bytes) :
    Ledger (onHost st text) where
  owned := by
    apply @Ledger.owned_of_new st h _ (cstr text)
    have hmiddle := @List.perm_middle _ ⟨st.allocated, cstr text⟩
      (st.result.nick.toList ++ st.result.name.toList)
      (st.result.command.toList ++ paramStrs st.result)
    rw [List.append_assoc, List.append_assoc] at hmiddle
    rw [strs_eq, strs_eq st.result, hnone]
    exact hmiddle
  behind := h.behind

theorem Ledger.onCommand (h : Ledger st) (hnone : st.result.command = none) (text : Bytes) :
    Ledger (onCommand st text) where
  owned := by
    apply @Ledger.owned_of_new st h _ (cstr text)
    have hmiddle := @List.perm_middle _ ⟨st.allocated, cstr text⟩
      (st.result.nick.toList ++ (st.result.name.toList ++ st.result.host.toList))
      (paramStrs st.result)
    rw [List.append_assoc, List.append_assoc, List.append_assoc, List.append_assoc] at hmiddle
    rw [strs_eq, strs_eq st.result, hnone]
    exact hmiddle
  behind := h.behind

theorem paramStrs_update (r : ParserResult) (str : Str) :
    (List.range (r.numParams + 1)).filterMap (Function.update r.params r.numParams (some str)) =
      paramStrs r ++ [str] := by
  have hbelow : (List.range r.numParams).filterMap
      (Function.update r.params r.numParams (some str)) = paramStrs r := by
    apply List.filterMap_congr
    intro i hi
    have hlt := List.mem_range.mp hi
    exact Function.update_of_ne (by omega) _ _
  rw [List.range_succ, List.filterMap_append, hbelow]
  simp

theorem Ledger.onParam (h : Ledger st) (text : Bytes) : Ledger (onParam st text) := by
  unfold LineParser.onParam
  split
  · refine ⟨?_, ?_⟩
    · apply @Ledger.owned_of_new st h _ (cstr text)
      rw [strs_eq, strs_eq st.result]
      dsimp only [setResult, callocAndCopyString, paramStrs]
      rw [paramStrs_update]
      simp only [← List.append_assoc]
      exact List.perm_append_singleton _ _
    · intro i hi
      change st.result.numParams + 1 ≤ i at hi
      change Function.update st.result.params st.result.numParams _ i = none
      rw [Function.update_of_ne (by omega)]
      exact h.behind i (by omega)
  · exact h

theorem Open.onCall (h : Open n st) {cb : Callback} (hn : n ≤ place cb) (text : Bytes) :
    Open (nextPlace cb) (onCall st (cb, text)) := by
  have hparam : Open n (onParam st text) := by
    unfold LineParser.onParam
    split
    · exact ⟨h.nick, h.name, h.host, h.command⟩
    · exact h
  have hlater {st' : LineState} (hst : Open n st') {m : ℕ} (hm : n ≤ m) : Open m st' :=
    ⟨fun hle => hst.nick (hm.trans hle), fun hle => hst.name (hm.trans hle),
      fun hle => hst.host (hm.trans hle), fun hle => hst.command (hm.trans hle)⟩
  cases cb with
  | onNick =>
    exact ⟨fun hle => absurd hle (by decide), fun _ => h.name (hn.trans (by decide)),
      fun _ => h.host (hn.trans (by decide)), fun _ => h.command (hn.trans (by decide))⟩
  | onName =>
    exact ⟨fun hle => absurd hle (by decide), fun hle => absurd hle (by decide),
      fun _ => h.host (hn.trans (by decide)), fun _ => h.command (hn.trans (by decide))⟩
  | onHost =>
    exact ⟨fun hle => absurd hle (by decide), fun hle => absurd hle (by decide),
      fun hle => absurd hle (by decide), fun _ => h.command (hn.trans (by decide))⟩
  | onCommand =>
    exact ⟨fun hle => absurd hle (by decide), fun hle => absurd hle (by decide),
      fun hle => absurd hle (by decide), fun hle => absurd hle (by decide)⟩
  | onParam => exact hlater hparam hn
  | onEnd => exact hlater h (hn.trans (by decide))
  | onError => exact hlater h (hn.trans (by decide))

theorem Ledger.onCall (h : Ledger st) (hopen : Open n st) {cb : Callback} (hn : n ≤ place cb)
    (text : Bytes) : Ledger (onCall st (cb, text)) := by
  cases cb with
  | onNick => exact h.onNick (hopen.nick hn) text
  | onName => exact h.onName (hopen.name hn) text
  | onHost => exact h.onHost (hopen.host hn) text
  | onCommand => exact h.onCommand (hopen.command hn) text
  | onParam => exact h.onParam text
  | onEnd | onError => exact h

end ledger

/-- A string of the line that began with allocation `start`. -/
def Live (start : ℕ) (st : LineState) (str : Str) : Prop := start ≤ str.id ∧ str.id ∉ st.freed

def Part (r : ParserResult) (str : Str) : Prop :=
  r.nick = some str ∨ r.name = some str ∨ r.host = some str ∨ r.command = some str

/-- The result as the callbacks build it: what it has belongs to this line, and a slot behind the
    parameters can hold a pointer of an earlier line only. -/
structure Parsed (start : ℕ) (st : LineState) : Prop where
  nick : ∀ str, st.result.nick = some str → Live start st str
  host : ∀ str, st.result.host = some str → Live start st str
  params : ∀ i < st.result.numParams, ∃ str, st.result.params i = some str ∧ Live start st str
  behind : ∀ i, st.result.numParams ≤ i → ∀ str, st.result.params i = some str → str.id < start
  first : st.result.numParams = 0 → st.result.params 0 = none
  start_le : start ≤ st.allocated
  freed_lt : ∀ id ∈ st.freed, id < start
  parts_lt : ∀ str, Part st.result str → str.id < st.allocated
  stored_lt : ∀ i str, st.result.params i = some str → str.id < st.allocated

/-- Between two lines: the first slot at least is empty, and the others hold old pointers. -/
structure Settled (st : LineState) : Prop where
  nick : st.result.nick = none
  name : st.result.name = none
  host : st.result.host = none
  command : st.result.command = none
  numParams : st.result.numParams = 0
  first : st.result.params 0 = none
  stored_lt : ∀ i str, st.result.params i = some str → str.id < st.allocated
  freed_lt : ∀ id ∈ st.freed, id < st.allocated

theorem Clean.settled {st : LineState} (h : Clean st) : Settled st where
  nick := h.nick
  name := h.name
  host := h.host
  command := h.command
  numParams := h.numParams
  first := h.params 0
  stored_lt := fun i str hstr => absurd hstr (by rw [h.params i]; simp)
  freed_lt := fun _ hid => List.mem_range.mp (h.freed.mem_iff.mp hid)

theorem Settled.parsed {st : LineState} (h : Settled st) : Parsed st.allocated st where
  nick := fun str hstr => absurd hstr (by rw [h.nick]; simp)
  host := fun str hstr => absurd hstr (by rw [h.host]; simp)
  params := fun i hi => absurd hi (by rw [h.numParams]; omega)
  behind := fun i _ str hstr => h.stored_lt i str hstr
  first := fun _ => h.first
  start_le := le_rfl
  freed_lt := h.freed_lt
  parts_lt := by
    rintro str (hstr | hstr | hstr | hstr)
    · exact absurd hstr (by rw [h.nick]; simp)
    · exact absurd hstr (by rw [h.name]; simp)
    · exact absurd hstr (by rw [h.host]; simp)
    · exact absurd hstr (by rw [h.command]; simp)
  stored_lt := h.stored_lt

section parsed
variable {start : ℕ} {st : LineState}

theorem Parsed.live_new (h : Parsed start st) (text : Bytes) : Live start st ⟨st.allocated, text⟩ :=
  ⟨h.start_le, fun hmem => absurd (h.freed_lt _ hmem) (Nat.not_lt.mpr h.start_le)⟩

theorem Parsed.onParam (h : Parsed start st) (text : Bytes) : Parsed start (onParam st text) := by
  unfold LineParser.onParam
  split
  · have hslot {i : ℕ} (hi : i ≠ st.result.numParams) :
        Function.update st.result.params st.result.numParams (some ⟨st.allocated, cstr text⟩) i =
          st.result.params i := Function.update_of_ne hi _ _
    refine ⟨h.nick, h.host, ?_, ?_, fun hz => absurd hz (by simp [setResult]),
      h.start_le.trans (Nat.le_succ _), h.freed_lt,
      fun str hstr => (h.parts_lt str hstr).trans (Nat.lt_succ_self _), ?_⟩
    · intro i hi
      change i < st.result.numParams + 1 at hi
      by_cases hlast : i = st.result.numParams
      · subst hlast
        exact ⟨⟨st.allocated, cstr text⟩, Function.update_self _ _ _, h.live_new _⟩
      · obtain ⟨str, hstr, hlive⟩ := h.params i (by omega)
        exact ⟨str, (hslot hlast).trans hstr, hlive⟩
    · intro i hi str hstr
      change st.result.numParams + 1 ≤ i at hi
      exact h.behind i (by omega) str ((hslot (by omega)).symm.trans hstr)
    · intro i str hstr
      by_cases hlast : i = st.result.numParams
      · change Function.update st.result.params st.result.numParams _ i = some str at hstr
        rw [hlast, Function.update_self] at hstr
        rw [← Option.some.inj hstr]
        exact Nat.lt_succ_self _
      · exact (h.stored_lt i str ((hslot hlast).symm.trans hstr)).trans (Nat.lt_succ_self _)
  · exact h

theorem Parsed.onCall (h : Parsed start st) (call : Callback × Bytes) :
    Parsed start (onCall st call) := by
  obtain ⟨cb, text⟩ := call
  have hle : start ≤ st.allocated + 1 := h.start_le.trans (Nat.le_succ _)
  have hnew : Live start st ⟨st.allocated, cstr text⟩ := h.live_new _
  have hold {str : Str} (hstr : Part st.result str) : str.id < st.allocated + 1 :=
    (h.parts_lt str hstr).trans (Nat.lt_succ_self _)
  have hstored (i : ℕ) (str : Str) (hstr : st.result.params i = some str) :
      str.id < st.allocated + 1 := (h.stored_lt i str hstr).trans (Nat.lt_succ_self _)
  have hself {str : Str} (hstr : some (⟨st.allocated, cstr text⟩ : Str) = some str) :
      str.id < st.allocated + 1 := Option.some.inj hstr ▸ Nat.lt_succ_self _
  cases cb with
  | onNick =>
    refine ⟨fun str hstr => Option.some.inj hstr ▸ hnew, h.host, h.params, h.behind, h.first, hle,
      h.freed_lt, ?_, hstored⟩
    rintro str (hstr | hstr | hstr | hstr)
    · exact hself hstr
    · exact hold (Or.inr (Or.inl hstr))
    · exact hold (Or.inr (Or.inr (Or.inl hstr)))
    · exact hold (Or.inr (Or.inr (Or.inr hstr)))
  | onName =>
    refine ⟨h.nick, h.host, h.params, h.behind, h.first, hle, h.freed_lt, ?_, hstored⟩
    rintro str (hstr | hstr | hstr | hstr)
    · exact hold (Or.inl hstr)
    · exact hself hstr
    · exact hold (Or.inr (Or.inr (Or.inl hstr)))
    · exact hold (Or.inr (Or.inr (Or.inr hstr)))
  | onHost =>
    refine ⟨h.nick, fun str hstr => Option.some.inj hstr ▸ hnew, h.params, h.behind, h.first, hle,
      h.freed_lt, ?_, hstored⟩
    rintro str (hstr | hstr | hstr | hstr)
    · exact hold (Or.inl hstr)
    · exact hold (Or.inr (Or.inl hstr))
    · exact hself hstr
    · exact hold (Or.inr (Or.inr (Or.inr hstr)))
  | onCommand =>
    refine ⟨h.nick, h.host, h.params, h.behind, h.first, hle, h.freed_lt, ?_, hstored⟩
    rintro str (hstr | hstr | hstr | hstr)
    · exact hold (Or.inl hstr)
    · exact hold (Or.inr (Or.inl hstr))
    · exact hold (Or.inr (Or.inr (Or.inl hstr)))
    · exact hself hstr
  | onParam => exact h.onParam text
  | onEnd | onError => exact h

end parsed

structure Bounded (st : LineState) : Prop where
  first : st.result.numParams = 0 → st.result.params 0 = none
  freed_lt : ∀ id ∈ st.freed, id < st.allocated
  parts_lt : ∀ str, Part st.result str → str.id < st.allocated
  stored_lt : ∀ i str, st.result.params i = some str → str.id < st.allocated

theorem Parsed.bounded {start : ℕ} {st : LineState} (h : Parsed start st) : Bounded st where
  first := h.first
  freed_lt := fun id hid => (h.freed_lt id hid).trans_le h.start_le
  parts_lt := h.parts_lt
  stored_lt := h.stored_lt

theorem mem_paramStrs {r : ParserResult} {str : Str} (h : str ∈ paramStrs r) :
    ∃ i, r.params i = some str := by
  obtain ⟨i, -, hi⟩ := List.mem_filterMap.mp h
  exact ⟨i, hi⟩

section bounded
variable {st : LineState}

theorem Bounded.strs_lt (h : Bounded st) {str : Str} (hstr : str ∈ st.result.strs) :
    str.id < st.allocated := by
  rw [strs_eq] at hstr
  simp only [List.mem_append, Option.mem_toList] at hstr
  rcases hstr with hstr | hstr | hstr | hstr | hstr
  · exact h.parts_lt str (Or.inl hstr)
  · exact h.parts_lt str (Or.inr (Or.inl hstr))
  · exact h.parts_lt str (Or.inr (Or.inr (Or.inl hstr)))
  · exact h.parts_lt str (Or.inr (Or.inr (Or.inr hstr)))
  · obtain ⟨i, hi⟩ := mem_paramStrs hstr
    exact h.stored_lt i str hi

theorem params_of_freed {i : ℕ} {str : Str}
    (h : (if i < st.result.numParams then none else st.result.params i) = some str) :
    st.result.params i = some str := by
  split at h
  · cases h
  · exact h

theorem Bounded.settled (h : Bounded st) : Settled (freeParserResult st) where
  nick := rfl
  name := rfl
  host := rfl
  command := rfl
  numParams := rfl
  first := by
    change (if 0 < st.result.numParams then none else st.result.params 0) = none
    split
    · rfl
    · next hzero => exact h.first (by omega)
  stored_lt := fun i str hstr => h.stored_lt i str (params_of_freed hstr)
  freed_lt := by
    intro id hid
    change id ∈ st.freed ++ st.result.strs.map (·.id) at hid
    rcases List.mem_append.mp hid with hid | hid
    · exact h.freed_lt id hid
    · obtain ⟨str, hstr, rfl⟩ := List.mem_map.mp hid
      exact h.strs_lt hstr

end bounded

end Xdccget.LineOwnership
