import Xdccget.IrcParserBounds
import Xdccget.IrcParserCarry

set_option autoImplicit false

/-!
# Lines as words

The parser without its buffer: a state and the word that is pending in it. On a line that
fits into `raw` the callbacks are those of this machine.
-/
namespace Xdccget.LineWords
open CText IrcParser IrcParserBounds IrcParserCarry

abbrev Call := Callback × Bytes

structure Reading where
  state : ParserState
  word : Bytes
  deriving DecidableEq

def delimits (s : ParserState) (a : UInt8) : Option ParserState :=
  match s with
  | .nick =>
    if a = at_ then some .host
    else if a = space then some .command
    else if a = bang then some .name
    else none
  | .name => if a = space then some .command else if a = at_ then some .host else none
  | .host => if a = space then some .command else none
  | .command => if a = space then some .params else none
  | .params => if a = space then some .params else none
  | _ => none

def callbackOf : ParserState → Callback
  | .init => .onNick
  | .nick => .onNick
  | .name => .onName
  | .host => .onHost
  | .command => .onCommand
  | _ => .onParam

def wordTurn (r : Reading) (a : UInt8) : Reading × List Call :=
  match delimits r.state a with
  | some s => (⟨s, []⟩, [(callbackOf r.state, r.word)])
  | none =>
    if r.state = .params ∧ a = colon ∧ r.word = [] then (⟨.trailing, []⟩, [])
    else (⟨r.state, r.word ++ [a]⟩, [])

def readWords (r : Reading) : Bytes → Reading × List Call
  | [] => (r, [])
  | a :: rest =>
    let t := wordTurn r a
    let u := readWords t.1 rest
    (u.1, t.2 ++ u.2)

def startTurn (a : UInt8) : Reading × List Call :=
  if a = colon then (⟨.nick, []⟩, []) else wordTurn ⟨.command, []⟩ a

/-- What is pending at the end goes to `on_param`, whatever state it is pending in. -/
def endCalls (r : Reading) : List Call := [(.onParam, r.word), (.onEnd, r.word)]

def lineCalls : Bytes → List Call
  | [] => endCalls ⟨.init, []⟩
  | a :: rest =>
    let t := startTurn a
    let u := readWords t.1 rest
    t.2 ++ u.2 ++ endCalls u.1

theorem readWords_append (r : Reading) (v w : Bytes) :
    readWords r (v ++ w) =
      ((readWords (readWords r v).1 w).1, (readWords r v).2 ++ (readWords (readWords r v).1 w).2) := by
  induction v generalizing r with
  | nil => rfl
  | cons a v ih => simp only [List.cons_append, readWords, ih, List.append_assoc]

theorem readWords_of_plain {r : Reading} {w : Bytes} (hw : ∀ a ∈ w, delimits r.state a = none)
    (hstart : r.state = .params → r.word = [] → w.head? ≠ some colon) :
    readWords r w = (⟨r.state, r.word ++ w⟩, []) := by
  induction w generalizing r with
  | nil => rw [List.append_nil]; rfl
  | cons a w ih =>
    have hturn : wordTurn r a = (⟨r.state, r.word ++ [a]⟩, []) := by
      have hnot : ¬ (r.state = .params ∧ a = colon ∧ r.word = []) := by
        rintro ⟨hs, rfl, hword⟩
        exact hstart hs hword rfl
      simp only [wordTurn, hw a List.mem_cons_self, hnot, if_false]
    have hrest := @ih ⟨r.state, r.word ++ [a]⟩ (fun b hb => hw b (List.mem_cons_of_mem a hb))
      fun _ hword => absurd hword (by simp)
    simp only [readWords, hturn, hrest, List.append_assoc, List.singleton_append, List.nil_append]

theorem readWords_delimited {r : Reading} {w : Bytes} {a : UInt8} {s : ParserState}
    (hw : ∀ a ∈ w, delimits r.state a = none)
    (hstart : r.state = .params → r.word = [] → w.head? ≠ some colon)
    (ha : delimits r.state a = some s) (rest : Bytes) :
    readWords r (w ++ a :: rest) =
      ((readWords ⟨s, []⟩ rest).1, (callbackOf r.state, r.word ++ w) :: (readWords ⟨s, []⟩ rest).2) := by
  rw [readWords_append, readWords_of_plain hw hstart]
  simp [readWords, wordTurn, ha]

theorem isBlock_of_words {w : Bytes} (hw : ∀ a ∈ w, a ≠ cr ∧ a ≠ lf) : IsBlock (w ++ [cr, lf]) := by
  have hfind : libircFindcrlf (w ++ [cr, lf]) = (w ++ [cr, lf]).length := by
    induction w with
    | nil => rfl
    | cons a w ih =>
      have hrest := ih fun b hb => hw b (List.mem_cons_of_mem a hb)
      have hne : a ≠ cr := (hw a List.mem_cons_self).1
      cases hw' : w ++ [cr, lf] with
      | nil => exact absurd hw' (by simp)
      | cons b rest =>
        rw [hw', List.length_cons] at hrest
        rw [List.cons_append, hw']
        simp only [libircFindcrlf, hne, false_and, if_false, hrest, List.length_cons]
  exact ⟨by simp, hfind⟩

/-- The word is what lies in `raw` behind `last`. -/
structure Pending (p : Parser) (r : Reading) (n : ℕ) : Prop where
  state : p.state = r.state
  live : r.state ∉ [.init, .end_, .error]
  len : p.len = n
  last : p.last + r.word.length = n
  text : slice p.raw p.last r.word.length = r.word

theorem slice_succ (raw : ℕ → UInt8) (start n : ℕ) :
    slice raw start (n + 1) = slice raw start n ++ [raw (start + n)] := by
  simp [slice, List.range_succ]

theorem slice_update_of_le (raw : ℕ → UInt8) {start n j : ℕ} (a : UInt8) (h : start + n ≤ j) :
    slice (Function.update raw j a) start n = slice raw start n := by
  unfold slice
  apply List.map_congr_left
  intro i hi
  rw [List.mem_range] at hi
  exact Function.update_of_ne (by omega) _ _

theorem getCb_eq_callbackOf {p : Parser} (h : p.state ≠ .error) :
    ircParserGetCb p = callbackOf p.state := by
  cases hs : p.state <;> simp_all [ircParserGetCb, callbackOf]

/-- The inner `switch` in a live state. -/
theorem appendedTurn_live {q : Parser} (a : UInt8) (h : q.state ∉ [.init, .end_, .error]) :
    appendedTurn q a =
      match delimits q.state a with
      | some s => .next (ircParserSetState q s, (ircParserCall q).2)
      | none =>
        if q.state = .params ∧ a = colon ∧ q.len = q.last + 1 then
          .next (ircParserSetState q .trailing, [])
        else .next (q, []) := by
  cases hs : q.state with
  | init => simp [hs] at h
  | end_ => simp [hs] at h
  | error => simp [hs] at h
  | nick =>
    rw [appendedTurn_nick a hs]
    simp only [delimits]
    split_ifs <;> simp_all
  | name =>
    rw [appendedTurn_name a hs]
    simp only [delimits]
    split_ifs <;> simp_all
  | host =>
    rw [appendedTurn_host a hs]
    simp only [delimits]
    split_ifs <;> simp_all
  | command =>
    rw [appendedTurn_command a hs]
    simp only [delimits]
    split_ifs <;> simp_all
  | params =>
    rw [appendedTurn_params a hs]
    simp only [delimits]
    split_ifs <;> simp_all
  | trailing => simp [appendedTurn, hs, delimits]

section bytes
variable {p : Parser} {r : Reading} {n : ℕ} {a : UInt8}

theorem Pending.kept_text (h : Pending p r n) (a : UInt8) :
    slice (kept p a).raw p.last r.word.length = r.word ∧
      slice (kept p a).raw p.last (r.word.length + 1) = r.word ++ [a] := by
  have hlast : p.last + r.word.length = p.len := h.last.trans h.len.symm
  have hword : slice (kept p a).raw p.last r.word.length = r.word := by
    rw [kept, slice_update_of_le p.raw a hlast.le]
    exact h.text
  refine ⟨hword, ?_⟩
  have hcell : (kept p a).raw p.len = a := by simp [kept]
  rw [slice_succ, hword, hlast, hcell]

theorem Pending.call (h : Pending p r n) (a : UInt8) :
    callbacks (ircParserCall (kept p a)).2 = [(callbackOf r.state, r.word)] := by
  have hstate : (kept p a).state ≠ .error := by
    intro he
    have hr : r.state = .error := h.state.symm.trans he
    exact h.live (by simp [hr])
  have hcb : callbackOf (kept p a).state ≠ .onError := by
    cases (kept p a).state <;> simp [callbackOf]
  have hlen : (((kept p a).len : ℤ) - (kept p a).last - 1).toNat = r.word.length := by
    have hlast := h.last
    have hn := h.len
    change (((p.len + 1 : ℕ) : ℤ) - p.last - 1).toNat = _
    omega
  rw [ircParserCall, getCb_eq_callbackOf hstate, callbacks_forceCall _ _ hcb, hlen]
  have hs : (kept p a).state = r.state := h.state
  rw [hs]
  exact congrArg (fun text => [(callbackOf r.state, text)]) (h.kept_text a).1

theorem Pending.setState (h : Pending p r n) (a : UInt8) {s : ParserState}
    (hs : s ∉ [.init, .end_, .error]) : Pending (ircParserSetState (kept p a) s) ⟨s, []⟩ (n + 1) where
  state := rfl
  live := hs
  len := congrArg (· + 1) h.len
  last := congrArg (· + 1) h.len
  text := rfl

theorem delimits_live {s t : ParserState} (h : delimits s a = some t) :
    t ∉ [.init, .end_, .error] := by
  cases s with
  | init | trailing | end_ | error => cases h
  | nick =>
    simp only [delimits] at h
    split_ifs at h <;> cases h <;> simp
  | name =>
    simp only [delimits] at h
    split_ifs at h <;> cases h <;> simp
  | host | command | params =>
    simp only [delimits] at h
    split_ifs at h
    cases h
    simp

theorem readByte_word (h : Pending p r n) (hc : a ≠ cr) (hl : a ≠ lf)
    (hn : n < ircParserRawBufferSize) :
    (readByte p a).flow = .next ∧ Pending (readByte p a).parser (wordTurn r a).1 (n + 1) ∧
      callbacks (readByte p a).events = (wordTurn r a).2 := by
  have happ : (ircParserAppendRaw p a).1 = kept p a := appendRaw_live a (by rw [h.len]; exact hn)
  have hstate : (kept p a).state = r.state := h.state
  have hturn := appendedTurn_live a (q := kept p a) (by rw [hstate]; exact h.live)
  have hword : (kept p a).len = (kept p a).last + 1 ↔ r.word = [] := by
    have hlast := h.last
    have hlen := h.len
    rw [← List.length_eq_zero_iff]
    change p.len + 1 = p.last + 1 ↔ _
    omega
  rw [hstate] at hturn
  have hread : readByte p a = turn p a := by
    apply readByte_of_turn
    rw [turn_other p a hc hl, happ, hturn]
    cases delimits r.state a with
    | some s => simp [Turn.next]
    | none => dsimp only; split <;> simp [Turn.next]
  have hskip (events : List Event) : callbacks (.write p.len :: events) = callbacks events := rfl
  rw [hread, turn_other p a hc hl, happ, hturn, hskip]
  unfold wordTurn
  cases hdelimits : delimits r.state a with
  | some s => exact ⟨rfl, h.setState a (delimits_live hdelimits), h.call a⟩
  | none =>
    dsimp only
    simp only [hword]
    split
    · exact ⟨rfl, h.setState a (by simp), rfl⟩
    · refine ⟨rfl, ⟨hstate, h.live, congrArg (· + 1) h.len, ?_, ?_⟩, rfl⟩
      · have hlast := h.last
        simp only [List.length_append, List.length_singleton]
        change p.last + (r.word.length + 1) = n + 1
        omega
      · simp only [List.length_append, List.length_singleton]
        exact (h.kept_text a).2

end bytes

section lines
variable {p : Parser} {r : Reading} {n : ℕ}

theorem callbacks_end (h : Pending p r n) (total i : ℕ) :
    callbacks (executeFrom total p i [cr, lf]).events = endCalls r ∧
      (executeFrom total p i [cr, lf]).value = i + 2 := by
  let q : Parser := { p with state := .end_, len := p.len + 1 }
  have hlf : readByte { p with state := .end_ } lf =
      ⟨ircParserReset q, (ircParserCall q).2 ++ (ircParserForceCall q .onEnd).2, .next⟩ := by
    have hturn := turn_lf { p with state := .end_ } rfl
    rw [readByte_of_turn (by rw [hturn]; simp), hturn]
  have hrun : executeFrom total p i [cr, lf] =
      ⟨ircParserReset q, (ircParserCall q).2 ++ (ircParserForceCall q .onEnd).2, i + 2⟩ := by
    simp only [executeFrom, readByte_cr, hlf, List.nil_append, List.append_nil]
  have hlen : ((q.len : ℤ) - q.last - 1).toNat = r.word.length := by
    have hlast := h.last
    have hlen := h.len
    change (((p.len + 1 : ℕ) : ℤ) - p.last - 1).toNat = _
    omega
  have hcb : ircParserGetCb q = .onParam := rfl
  rw [hrun]
  refine ⟨?_, rfl⟩
  rw [callbacks_append, ircParserCall, hcb, callbacks_forceCall _ _ (by simp),
    callbacks_forceCall _ _ (by simp), hlen]
  exact congrArg (fun text => [(Callback.onParam, text), (Callback.onEnd, text)]) h.text

theorem executeFrom_words (h : Pending p r n) {w : Bytes} (hw : ∀ a ∈ w, a ≠ cr ∧ a ≠ lf)
    (hn : n + w.length ≤ ircParserRawBufferSize) (total i : ℕ) :
    callbacks (executeFrom total p i (w ++ [cr, lf])).events =
        (readWords r w).2 ++ endCalls (readWords r w).1 ∧
      (executeFrom total p i (w ++ [cr, lf])).value = i + w.length + 2 := by
  induction w generalizing p r n i with
  | nil => exact callbacks_end h total i
  | cons a w ih =>
    rw [List.length_cons] at hn
    obtain ⟨hc, hl⟩ := hw a List.mem_cons_self
    obtain ⟨hflow, hpending, hcalls⟩ := readByte_word h hc hl (by omega)
    obtain ⟨hrest, hvalue⟩ := ih hpending (fun b hb => hw b (List.mem_cons_of_mem a hb)) (by omega)
      (i + 1)
    rw [List.cons_append, executeFrom_next total i _ hflow]
    refine ⟨?_, ?_⟩
    · rw [callbacks_append, hcalls, hrest]
      simp only [readWords, List.append_assoc]
    · rw [hvalue, List.length_cons]
      omega

theorem readByte_start {a : UInt8} (hc : a ≠ cr) (hl : a ≠ lf) :
    (readByte ircParserInit a).flow = .next ∧
      Pending (readByte ircParserInit a).parser (startTurn a).1 1 ∧
      callbacks (readByte ircParserInit a).events = (startTurn a).2 := by
  have happ : (ircParserAppendRaw ircParserInit a).1 = kept ircParserInit a :=
    appendRaw_live a (by decide)
  have hskip (events : List Event) :
      callbacks (.write ircParserInit.len :: events) = callbacks events := rfl
  have hstate : (kept ircParserInit a).state = .init := rfl
  by_cases hcolon : a = colon
  · subst hcolon
    have hturn : turn ircParserInit colon = ⟨{ kept ircParserInit colon with last := 1, state := .nick },
        [.write ircParserInit.len], .next⟩ := by
      rw [turn_other _ colon hc hl, happ]
      simp only [appendedTurn, hstate, if_true]
    have hstart : startTurn colon = (⟨.nick, []⟩, []) := if_pos rfl
    rw [readByte_of_turn (by rw [hturn]; simp), hturn, hskip, hstart]
    exact ⟨rfl, ⟨rfl, by simp, rfl, rfl, rfl⟩, rfl⟩
  · let p : Parser := { kept ircParserInit a with len := 0, state := .command }
    have hturn : turn ircParserInit a = ⟨p, [.write ircParserInit.len], .again⟩ := by
      rw [turn_other _ a hc hl, happ]
      simp only [appendedTurn, hstate, hcolon, if_false]
      rfl
    have hpending : Pending p ⟨.command, []⟩ 0 := ⟨rfl, by simp, rfl, rfl, rfl⟩
    obtain ⟨hflow, hnext, hcalls⟩ := readByte_word hpending hc hl (by decide)
    have hread : readByte ircParserInit a = ⟨(readByte p a).parser,
        [.write ircParserInit.len] ++ (readByte p a).events, (readByte p a).flow⟩ := by
      rw [readByte_of_turn (turn_command_flow (p := p) rfl)]
      simp only [readByte, hturn, if_true]
    have hstart : startTurn a = wordTurn ⟨.command, []⟩ a := if_neg hcolon
    rw [hread, hstart, callbacks_append, hcalls]
    exact ⟨hflow, hnext, rfl⟩

/-- A line that fits into `raw` is read as its words, and its length is returned. -/
theorem execute_words {line : Bytes} (hne : line ≠ []) (hw : ∀ a ∈ line, a ≠ cr ∧ a ≠ lf)
    (hlen : line.length ≤ ircParserRawBufferSize) :
    callbacks (ircParserExecute ircParserInit (line ++ [cr, lf])).events = lineCalls line ∧
      (ircParserExecute ircParserInit (line ++ [cr, lf])).value = (line ++ [cr, lf]).length := by
  cases line with
  | nil => exact absurd rfl hne
  | cons a w =>
    rw [List.length_cons] at hlen
    obtain ⟨hc, hl⟩ := hw a List.mem_cons_self
    obtain ⟨hflow, hpending, hcalls⟩ := readByte_start hc hl
    obtain ⟨hrest, hvalue⟩ := executeFrom_words hpending
      (fun b hb => hw b (List.mem_cons_of_mem a hb)) (by omega)
      ((a :: w) ++ [cr, lf]).length (0 + 1)
    rw [ircParserExecute, List.cons_append, executeFrom_next _ 0 _ hflow]
    refine ⟨?_, ?_⟩
    · rw [callbacks_append, hcalls]
      simp only [lineCalls, List.append_assoc]
      exact congrArg ((startTurn a).2 ++ ·) hrest
    · refine hvalue.trans ?_
      simp only [List.length_cons, List.length_append, List.length_nil]
      omega

end lines

end Xdccget.LineWords
