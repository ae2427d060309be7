import Xdccget.IrcParserCarry

set_option autoImplicit false

/-!
# The parse result of `irc_line_parser.c`

The callbacks of the parser copy each part of a line onto the heap. A string is known by
its allocation, so that it can be told what has been freed.
-/
namespace Xdccget.LineParser
open CText IrcParser

def maxParamsAllowed : ℕ := 100

/-- A string on the heap, the `id`-th that was allocated. -/
structure Str where
  id : ℕ
  text : Bytes
  deriving DecidableEq

/-- `irc_parser_result_t` without its session. -/
structure ParserResult where
  nick : Option Str
  name : Option Str
  host : Option Str
  command : Option Str
  numParams : ℕ
  params : ℕ → Option Str

/-- The result and the heap behind it: how many strings were allocated, and which ones were freed,
    one entry for each `free`. -/
structure LineState where
  result : ParserResult
  allocated : ℕ
  freed : List ℕ

/-- The result that `create_line_parser` allocates. -/
def createLineParser : LineState :=
  { result :=
      { nick := none, name := none, host := none, command := none, numParams := 0,
        params := fun _ => none }
    allocated := 0
    freed := [] }

def callocAndCopyString (st : LineState) (text : Bytes) : Str × LineState :=
  (⟨st.allocated, cstr text⟩, { st with allocated := st.allocated + 1 })

def setResult (st : LineState) (r : ParserResult) : LineState := { st with result := r }

def onNick (st : LineState) (text : Bytes) : LineState :=
  let c := callocAndCopyString st text
  setResult c.2 { st.result with nick := some c.1 }

def onName (st : LineState) (text : Bytes) : LineState :=
  let c := callocAndCopyString st text
  setResult c.2 { st.result with name := some c.1 }

def onHost (st : LineState) (text : Bytes) : LineState :=
  let c := callocAndCopyString st text
  setResult c.2 { st.result with host := some c.1 }

def onCommand (st : LineState) (text : Bytes) : LineState :=
  let c := callocAndCopyString st text
  setResult c.2 { st.result with command := some c.1 }

def onParam (st : LineState) (text : Bytes) : LineState :=
  if st.result.numParams < maxParamsAllowed then
    let c := callocAndCopyString st text
    setResult c.2
      { st.result with
        params := Function.update st.result.params st.result.numParams (some c.1)
        numParams := st.result.numParams + 1 }
  else st

/-- The callbacks but the last one, which is `handle_parser_result`. -/
def onCall (st : LineState) : Callback × Bytes → LineState
  | (.onNick, text) => onNick st text
  | (.onName, text) => onName st text
  | (.onHost, text) => onHost st text
  | (.onCommand, text) => onCommand st text
  | (.onParam, text) => onParam st text
  | (.onEnd, _) => st
  | (.onError, _) => st

/-- The calls of a block, with the results that `handle_parser_result` is called with. -/
def feedCalls (handle : LineState → LineState) (st : LineState) :
    List (Callback × Bytes) → LineState × List ParserResult
  | [] => (st, [])
  | (.onEnd, _) :: calls =>
    let r := feedCalls handle (handle st) calls
    (r.1, st.result :: r.2)
  | call :: calls => feedCalls handle (onCall st call) calls

/-- The strings that the result points to, in the order in which they are freed. -/
def ParserResult.strs (r : ParserResult) : List Str :=
  [r.nick, r.name, r.host, r.command].filterMap id ++ (List.range r.numParams).filterMap r.params

def freeParserResult (st : LineState) : LineState :=
  { st with
    result :=
      { nick := none, name := none, host := none, command := none, numParams := 0,
        params := fun i => if i < st.result.numParams then none else st.result.params i }
    freed := st.freed ++ st.result.strs.map (·.id) }

/-- The result has got these further parameters, and is the same otherwise. -/
structure Gained (r r' : ParserResult) (texts : List Bytes) : Prop where
  nick : r'.nick = r.nick
  name : r'.name = r.name
  host : r'.host = r.host
  command : r'.command = r.command
  count : r'.numParams = r.numParams + texts.length
  below : ∀ i < r.numParams, r'.params i = r.params i
  gained : ∀ i (hi : i < texts.length), (r'.params (r.numParams + i)).map (·.text) = some texts[i]
  above : ∀ i, r'.numParams ≤ i → r'.params i = r.params i

section params
variable {st : LineState}

theorem feedCalls_cons {handle : LineState → LineState} {cb : Callback} (h : cb ≠ .onEnd)
    (text : Bytes) (calls : List (Callback × Bytes)) :
    feedCalls handle st ((cb, text) :: calls) = feedCalls handle (onCall st (cb, text)) calls := by
  cases cb <;> first | rfl | exact absurd rfl h

theorem feedCalls_append {handle : LineState → LineState} {calls : List (Callback × Bytes)}
    (h : ∀ call ∈ calls, call.1 ≠ .onEnd) (rest : List (Callback × Bytes)) :
    feedCalls handle st (calls ++ rest) = feedCalls handle (calls.foldl onCall st) rest := by
  induction calls generalizing st with
  | nil => rfl
  | cons call calls ih =>
    obtain ⟨cb, text⟩ := call
    rw [List.cons_append, feedCalls_cons (h (cb, text) List.mem_cons_self),
      ih fun other hother => h other (List.mem_cons_of_mem _ hother)]
    rfl

theorem onParam_gained (h : st.result.numParams < maxParamsAllowed) {text : Bytes} (ht : nul ∉ text) :
    Gained st.result (onParam st text).result [text] := by
  have hparam : (onParam st text).result =
      { st.result with
        params := Function.update st.result.params st.result.numParams
          (some ⟨st.allocated, cstr text⟩)
        numParams := st.result.numParams + 1 } := by
    rw [onParam, if_pos h]
    rfl
  have hslot (i : ℕ) (hi : i ≠ st.result.numParams) :
      (onParam st text).result.params i = st.result.params i := by
    rw [hparam]
    exact Function.update_of_ne hi _ _
  rw [hparam] at hslot ⊢
  refine ⟨rfl, rfl, rfl, rfl, rfl, fun i hi => hslot i (by omega), fun i hi => ?_,
    fun i hi => hslot i (by dsimp only at hi; omega)⟩
  have hzero : i = 0 := by simpa using hi
  subst hzero
  simp [cstr_of_no_nul ht]

theorem Gained.trans {r r' r'' : ParserResult} {texts texts' : List Bytes} (h : Gained r r' texts)
    (h' : Gained r' r'' texts') : Gained r r'' (texts ++ texts') where
  nick := h'.nick.trans h.nick
  name := h'.name.trans h.name
  host := h'.host.trans h.host
  command := h'.command.trans h.command
  count := by
    rw [h'.count, h.count, List.length_append]
    omega
  below := by
    intro i hi
    have hcount := h.count
    rw [h'.below i (by omega), h.below i hi]
  gained := by
    intro i hi
    have hcount := h.count
    by_cases hfirst : i < texts.length
    · rw [h'.below _ (by omega), h.gained i hfirst, List.getElem_append_left hfirst]
    · rw [List.length_append] at hi
      have hindex : r.numParams + i = r'.numParams + (i - texts.length) := by omega
      rw [hindex, h'.gained (i - texts.length) (by omega), List.getElem_append_right (by omega)]
  above := by
    intro i hi
    have hcount := h'.count
    rw [h'.above i hi, h.above i (by omega)]

theorem foldl_onParam {texts : List Bytes} (h : st.result.numParams + texts.length ≤ maxParamsAllowed)
    (htexts : ∀ text ∈ texts, nul ∉ text) :
    Gained st.result (texts.foldl onParam st).result texts := by
  induction texts generalizing st with
  | nil => exact ⟨rfl, rfl, rfl, rfl, rfl, fun _ _ => rfl, by simp, fun _ _ => rfl⟩
  | cons text texts ih =>
    rw [List.length_cons] at h
    have hfirst := @onParam_gained st (by omega) text (htexts text List.mem_cons_self)
    have hcount : (onParam st text).result.numParams = st.result.numParams + 1 := hfirst.count
    exact hfirst.trans (ih (by omega) fun t ht => htexts t (List.mem_cons_of_mem text ht))

end params

end Xdccget.LineParser
