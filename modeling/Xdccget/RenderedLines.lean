import Xdccget.LineWords
import Xdccget.LineParser

set_option autoImplicit false

/-!
# Parsing undoes rendering

A message of the grammar, rendered with single spaces, reaches `handle_parser_result`
with exactly its parts.
-/
namespace Xdccget.RenderedLines
open CText IrcParser IrcParserCarry LineWords LineParser

def Plain (delimiters : List UInt8) (w : Bytes) : Prop :=
  ∀ a ∈ w, a ∉ nul :: cr :: lf :: delimiters

instance (delimiters : List UInt8) (w : Bytes) : Decidable (Plain delimiters w) :=
  List.decidableBAll (fun a => a ∉ nul :: cr :: lf :: delimiters) w

/-- `nick ['!' user] ['@' host]` -/
structure Source where
  nick : Bytes
  user : Option Bytes
  host : Option Bytes
  nick_ok : nick ≠ [] ∧ Plain [space, bang, at_] nick
  user_ok : ∀ w, user = some w → w ≠ [] ∧ Plain [space, at_] w
  host_ok : ∀ w, host = some w → w ≠ [] ∧ Plain [space] w

def Middle (w : Bytes) : Prop := w ≠ [] ∧ Plain [space] w ∧ w.head? ≠ some colon

instance (w : Bytes) : Decidable (Middle w) :=
  inferInstanceAs (Decidable (w ≠ [] ∧ Plain [space] w ∧ w.head? ≠ some colon))

inductive LastParam
  | middle (w : Bytes) (h : Middle w)
  | trailing (w : Bytes) (h : Plain [] w)

def LastParam.text : LastParam → Bytes
  | .middle w _ => w
  | .trailing w _ => w

def LastParam.render : LastParam → Bytes
  | .middle w _ => w
  | .trailing w _ => colon :: w

structure Message where
  source : Option Source
  command : Bytes
  middles : List Bytes
  last : LastParam
  command_ok : Middle command
  middles_ok : ∀ w ∈ middles, Middle w
  count_le : middles.length + 1 ≤ maxParamsAllowed

def Message.params (m : Message) : List Bytes := m.middles ++ [m.last.text]

def Source.render (s : Source) : Bytes :=
  s.nick ++ (s.user.elim [] (bang :: ·)) ++ (s.host.elim [] (at_ :: ·))

def Message.body (m : Message) : Bytes :=
  m.command ++ space :: (m.middles.flatMap (· ++ [space]) ++ m.last.render)

def Message.render (m : Message) : Bytes :=
  match m.source with
  | none => m.body
  | some s => colon :: (s.render ++ space :: m.body)

def Source.calls (s : Source) : List Call :=
  (.onNick, s.nick) :: ((s.user.toList.map (Prod.mk .onName)) ++ (s.host.toList.map (Prod.mk .onHost)))

def Message.calls (m : Message) : List Call :=
  (m.source.elim [] Source.calls) ++ (.onCommand, m.command) ::
    (m.params.map (Prod.mk .onParam) ++ [(.onEnd, m.last.text)])

section words
variable {w : Bytes} {delimiters : List UInt8}

theorem Plain.not_mem (h : Plain delimiters w) {a : UInt8} (ha : a ∈ w) : a ∉ delimiters := by
  intro hd
  exact h a ha (by simp [hd])

theorem delimits_nick (h : Plain [space, bang, at_] w) : ∀ a ∈ w, delimits .nick a = none := by
  intro a ha
  have hnot := h.not_mem ha
  simp only [List.mem_cons, List.not_mem_nil, or_false, not_or] at hnot
  simp [delimits, hnot]

theorem delimits_name (h : Plain [space, at_] w) : ∀ a ∈ w, delimits .name a = none := by
  intro a ha
  have hnot := h.not_mem ha
  simp only [List.mem_cons, List.not_mem_nil, or_false, not_or] at hnot
  simp [delimits, hnot]

theorem delimits_of_no_space {s : ParserState} (hs : s ∈ [.host, .command, .params])
    (h : Plain [space] w) : ∀ a ∈ w, delimits s a = none := by
  intro a ha
  have hne : a ≠ space := fun he => h.not_mem ha (by simp [he])
  simp only [List.mem_cons, List.not_mem_nil, or_false] at hs
  rcases hs with rfl | rfl | rfl <;> simp [delimits, hne]

theorem lineCalls_of_source (rest : Bytes) :
    lineCalls (colon :: rest) =
      (readWords ⟨.nick, []⟩ rest).2 ++ endCalls (readWords ⟨.nick, []⟩ rest).1 := rfl

theorem lineCalls_of_command {line : Bytes} (hne : line ≠ []) (h : line.head? ≠ some colon) :
    lineCalls line =
      (readWords ⟨.command, []⟩ line).2 ++ endCalls (readWords ⟨.command, []⟩ line).1 := by
  cases line with
  | nil => exact absurd rfl hne
  | cons a rest =>
    have hstart : startTurn a = wordTurn ⟨.command, []⟩ a := if_neg fun ha => h (by rw [ha]; rfl)
    simp only [lineCalls, hstart, readWords]

theorem readWords_source (s : Source) (rest : Bytes) :
    readWords ⟨.nick, []⟩ (s.render ++ space :: rest) =
      ((readWords ⟨.command, []⟩ rest).1, s.calls ++ (readWords ⟨.command, []⟩ rest).2) := by
  have hnick := delimits_nick s.nick_ok.2
  have hstart (t : ParserState) (ht : t ≠ .params) (w : Bytes) :
      t = .params → ([] : Bytes) = [] → w.head? ≠ some colon := fun h => absurd h ht
  have hhost (w : Bytes) (hw : Plain [space] w) : readWords ⟨.host, []⟩ (w ++ space :: rest) =
      ((readWords ⟨.command, []⟩ rest).1, (.onHost, w) :: (readWords ⟨.command, []⟩ rest).2) :=
    readWords_delimited (delimits_of_no_space (by simp) hw) (hstart _ (by simp) w) rfl rest
  have hspace : delimits .nick space = some .command := by decide
  have hat : delimits .nick at_ = some .host := by decide
  have hbang : delimits .nick bang = some .name := by decide
  unfold Source.render Source.calls
  cases huser : s.user with
  | none =>
    cases hh : s.host with
    | none =>
      simp only [Option.elim_none, List.append_nil, Option.toList_none, List.map_nil]
      exact readWords_delimited hnick (hstart _ (by simp) _) hspace rest
    | some host =>
      simp only [Option.elim_none, Option.elim_some, List.append_nil, Option.toList_none,
        Option.toList_some, List.map_nil, List.map_cons, List.append_assoc, List.cons_append]
      rw [readWords_delimited hnick (hstart _ (by simp) _) hat (host ++ space :: rest),
        hhost host (s.host_ok host hh).2]
      rfl
  | some user =>
    have hname := delimits_name (s.user_ok user huser).2
    cases hh : s.host with
    | none =>
      simp only [Option.elim_none, Option.elim_some, List.append_nil, Option.toList_none,
        Option.toList_some, List.map_nil, List.map_cons, List.append_assoc, List.cons_append]
      rw [readWords_delimited hnick (hstart _ (by simp) _) hbang (user ++ space :: rest),
        readWords_delimited hname (hstart _ (by simp) _)
          (show delimits .name space = some .command by decide) rest]
      rfl
    | some host =>
      simp only [Option.elim_some, Option.toList_some, List.map_nil, List.map_cons,
        List.append_assoc, List.cons_append]
      rw [readWords_delimited hnick (hstart _ (by simp) _) hbang
          (user ++ at_ :: (host ++ space :: rest)),
        readWords_delimited hname (hstart _ (by simp) _)
          (show delimits .name at_ = some .host by decide) (host ++ space :: rest),
        hhost host (s.host_ok host hh).2]
      rfl

theorem readWords_middles {middles : List Bytes} (h : ∀ w ∈ middles, Middle w) (rest : Bytes) :
    readWords ⟨.params, []⟩ (middles.flatMap (· ++ [space]) ++ rest) =
      ((readWords ⟨.params, []⟩ rest).1,
        middles.map (Prod.mk .onParam) ++ (readWords ⟨.params, []⟩ rest).2) := by
  induction middles with
  | nil => rfl
  | cons w middles ih =>
    obtain ⟨-, hplain, hhead⟩ := h w List.mem_cons_self
    have hrest := ih fun v hv => h v (List.mem_cons_of_mem w hv)
    simp only [List.flatMap_cons, List.append_assoc, List.cons_append, List.nil_append]
    rw [readWords_delimited (delimits_of_no_space (by simp) hplain) (fun _ _ => hhead) rfl, hrest]
    rfl

theorem readWords_last (last : LastParam) :
    (readWords ⟨.params, []⟩ last.render).2 = [] ∧
      (readWords ⟨.params, []⟩ last.render).1.word = last.text := by
  cases last with
  | middle w h =>
    have hwords := readWords_of_plain (r := ⟨.params, []⟩)
      (delimits_of_no_space (by simp) h.2.1) fun _ _ => h.2.2
    rw [LastParam.render, hwords]
    exact ⟨rfl, rfl⟩
  | trailing w h =>
    have hturn : wordTurn ⟨.params, []⟩ colon = (⟨.trailing, []⟩, []) := by decide
    have hwords := readWords_of_plain (r := ⟨.trailing, []⟩) (w := w) (fun _ _ => rfl)
      fun hs => absurd hs (by simp)
    rw [LastParam.render]
    simp only [readWords, hturn, hwords]
    exact ⟨rfl, rfl⟩

theorem readWords_body (m : Message) :
    (readWords ⟨.command, []⟩ m.body).2 ++ endCalls (readWords ⟨.command, []⟩ m.body).1 =
      (.onCommand, m.command) :: (m.params.map (Prod.mk .onParam) ++ [(.onEnd, m.last.text)]) := by
  obtain ⟨-, hplain, -⟩ := m.command_ok
  obtain ⟨hcalls, hword⟩ := readWords_last m.last
  have hcommand : ∀ a ∈ m.command, delimits .command a = none :=
    delimits_of_no_space (by simp) hplain
  rw [Message.body, readWords_delimited hcommand (fun hs => absurd hs (by simp)) rfl,
    readWords_middles m.middles_ok, hcalls, List.append_nil]
  simp only [endCalls, hword, Message.params, List.map_append, List.map_cons, List.map_nil,
    List.cons_append, List.append_assoc, List.nil_append, callbackOf]

theorem lineCalls_render (m : Message) : lineCalls m.render = m.calls := by
  obtain ⟨hne, -, hhead⟩ := m.command_ok
  unfold Message.render Message.calls
  cases m.source with
  | none =>
    have hbody : m.body.head? ≠ some colon := by
      cases hc : m.command with
      | nil => exact absurd hc hne
      | cons a w =>
        rw [hc] at hhead
        simpa [Message.body, hc] using hhead
    rw [lineCalls_of_command (by simp [Message.body]) hbody, readWords_body]
    rfl
  | some s =>
    rw [lineCalls_of_source, readWords_source, List.append_assoc, readWords_body]
    rfl

end words

/-- The result holds the parts of the message, and `NULL` for those it does not have. -/
structure Shows (r : ParserResult) (m : Message) : Prop where
  nick : r.nick.map (·.text) = m.source.map (·.nick)
  name : r.name.map (·.text) = m.source.bind (·.user)
  host : r.host.map (·.text) = m.source.bind (·.host)
  command : r.command.map (·.text) = some m.command
  numParams : r.numParams = m.params.length
  params : ∀ i, (r.params i).map (·.text) = m.params[i]?

structure ShowsSource (st : LineState) (source : Option Source) : Prop where
  nick : st.result.nick.map (·.text) = source.map (·.nick)
  name : st.result.name.map (·.text) = source.bind (·.user)
  host : st.result.host.map (·.text) = source.bind (·.host)
  numParams : st.result.numParams = 0
  params : ∀ i, st.result.params i = none

theorem Plain.no_nul {delimiters : List UInt8} {w : Bytes} (h : Plain delimiters w) : nul ∉ w :=
  fun hmem => h nul hmem (by simp)

theorem Plain.no_line_end {delimiters : List UInt8} {w : Bytes} (h : Plain delimiters w) :
    ∀ a ∈ w, a ≠ cr ∧ a ≠ lf := by
  intro a ha
  have hnot := h a ha
  simp only [List.mem_cons, not_or] at hnot
  exact ⟨hnot.2.1, hnot.2.2.1⟩

theorem LastParam.plain (last : LastParam) : Plain [] last.text := by
  cases last with
  | middle w h =>
    intro a ha
    have hnot := h.2.1 a ha
    simp only [List.mem_cons, not_or] at hnot
    simp [hnot]
  | trailing w h => exact h

theorem showsSource_foldl (source : Option Source) :
    ShowsSource ((source.elim [] Source.calls).foldl onCall createLineParser) source := by
  cases source with
  | none => exact ⟨rfl, rfl, rfl, rfl, fun _ => rfl⟩
  | some s =>
    have hnick := cstr_of_no_nul s.nick_ok.2.no_nul
    have huser : ∀ w, s.user = some w → cstr w = w := fun w h =>
      cstr_of_no_nul (s.user_ok w h).2.no_nul
    have hhost : ∀ w, s.host = some w → cstr w = w := fun w h =>
      cstr_of_no_nul (s.host_ok w h).2.no_nul
    cases hu : s.user <;> cases hh : s.host <;>
      constructor <;>
      simp [Source.calls, hu, hh, onCall, onNick, onName, onHost, setResult, callocAndCopyString,
        createLineParser, hnick, huser, hhost]

theorem Message.params_no_nul (m : Message) : ∀ text ∈ m.params, nul ∉ text := by
  intro text htext
  rcases List.mem_append.mp htext with hmiddle | hlast
  · exact (m.middles_ok text hmiddle).2.1.no_nul
  · rw [List.mem_singleton.mp hlast]
    exact m.last.plain.no_nul

theorem Message.params_length_le (m : Message) : m.params.length ≤ maxParamsAllowed := by
  have hcount := m.count_le
  simpa [Message.params] using hcount

/-- The callbacks of the message fill the result, and `handle_parser_result` sees it once. -/
theorem feedCalls_message (m : Message) (handle : LineState → LineState) :
    ∃ r, (feedCalls handle createLineParser m.calls).2 = [r] ∧ Shows r m := by
  let st := (m.source.elim [] Source.calls).foldl onCall createLineParser
  have hst : ShowsSource st m.source := showsSource_foldl m.source
  have hsource : ∀ call ∈ m.source.elim [] Source.calls, call.1 ≠ .onEnd := by
    cases m.source with
    | none => simp
    | some s =>
      intro call hcall
      simp only [Option.elim_some, Source.calls, List.mem_cons, List.mem_append, List.mem_map] at hcall
      rcases hcall with rfl | ⟨_, -, rfl⟩ | ⟨_, -, rfl⟩ <;> simp
  have hparams : ∀ call ∈ m.params.map (Prod.mk Callback.onParam), call.1 ≠ .onEnd := by
    intro call hcall
    obtain ⟨_, -, rfl⟩ := List.mem_map.mp hcall
    simp
  have hlength := m.params_length_le
  have hgained : Gained (onCommand st m.command).result
      (m.params.foldl onParam (onCommand st m.command)).result m.params := by
    apply foldl_onParam _ m.params_no_nul
    have hzero : (onCommand st m.command).result.numParams = 0 := hst.numParams
    omega
  have hfold : (m.params.map (Prod.mk Callback.onParam)).foldl onCall (onCommand st m.command) =
      m.params.foldl onParam (onCommand st m.command) := by
    rw [List.foldl_map]
    rfl
  refine ⟨(m.params.foldl onParam (onCommand st m.command)).result, ?_, ?_⟩
  · rw [Message.calls, feedCalls_append hsource, feedCalls_cons (by simp), feedCalls_append hparams]
    change (feedCalls handle ((m.params.map (Prod.mk Callback.onParam)).foldl onCall
      (onCommand st m.command)) [(.onEnd, m.last.text)]).2 = _
    rw [hfold]
    rfl
  · have hzero : (onCommand st m.command).result.numParams = 0 := hst.numParams
    have hcount := hgained.count
    rw [hzero, Nat.zero_add] at hcount
    refine ⟨?_, ?_, ?_, ?_, hcount, ?_⟩
    · rw [hgained.nick]
      exact hst.nick
    · rw [hgained.name]
      exact hst.name
    · rw [hgained.host]
      exact hst.host
    · rw [hgained.command]
      exact congrArg some (cstr_of_no_nul m.command_ok.2.1.no_nul)
    · intro i
      by_cases hi : i < m.params.length
      · have hslot := hgained.gained i hi
        rw [hzero, Nat.zero_add] at hslot
        rw [hslot, List.getElem?_eq_getElem hi]
      · have hnone : (onCommand st m.command).result.params i = none := hst.params i
        rw [hgained.above i (by omega), hnone, List.getElem?_eq_none (by omega)]
        rfl

theorem mem_render {m : Message} {a : UInt8} (ha : a ∈ m.render) : a ≠ cr ∧ a ≠ lf := by
  have hbody : ∀ b ∈ m.body, b ≠ cr ∧ b ≠ lf := by
    intro b hb
    simp only [Message.body, List.mem_append, List.mem_cons, List.mem_flatMap, List.not_mem_nil,
      or_false] at hb
    rcases hb with hb | rfl | ⟨w, hw, hb | rfl⟩ | hb
    · exact m.command_ok.2.1.no_line_end b hb
    · decide
    · exact (m.middles_ok w hw).2.1.no_line_end b hb
    · decide
    · cases hlast : m.last with
      | middle w h =>
        rw [hlast] at hb
        exact h.2.1.no_line_end b hb
      | trailing w h =>
        rw [hlast] at hb
        rcases List.mem_cons.mp hb with rfl | hb
        · decide
        · exact h.no_line_end b hb
  unfold Message.render at ha
  cases hsource : m.source with
  | none =>
    rw [hsource] at ha
    exact hbody a ha
  | some s =>
    rw [hsource] at ha
    simp only [Source.render, List.mem_cons, List.mem_append] at ha
    rcases ha with rfl | ((ha | ha) | ha) | rfl | ha
    · decide
    · exact s.nick_ok.2.no_line_end a ha
    · cases hu : s.user with
      | none => simp [hu] at ha
      | some user =>
        rw [hu] at ha
        rcases List.mem_cons.mp ha with rfl | ha
        · decide
        · exact (s.user_ok user hu).2.no_line_end a ha
    · cases hh : s.host with
      | none => simp [hh] at ha
      | some host =>
        rw [hh] at ha
        rcases List.mem_cons.mp ha with rfl | ha
        · decide
        · exact (s.host_ok host hh).2.no_line_end a ha
    · decide
    · exact hbody a ha

theorem render_ne_nil (m : Message) : m.render ≠ [] := by
  unfold Message.render
  cases m.source <;> simp [Message.body]

/-- Parsing undoes rendering: a fresh parser, given the rendered message and its line end, calls
    `handle_parser_result` once, with the parts of the message. -/
theorem execute_render (m : Message) (hlen : m.render.length ≤ ircParserRawBufferSize)
    (handle : LineState → LineState) :
    ∃ r, (feedCalls handle createLineParser
        (callbacks (ircParserExecute ircParserInit (m.render ++ [cr, lf])).events)).2 = [r] ∧
      Shows r m ∧
      (ircParserExecute ircParserInit (m.render ++ [cr, lf])).value = (m.render ++ [cr, lf]).length := by
  obtain ⟨hcalls, hvalue⟩ := execute_words (render_ne_nil m) (fun _ ha => mem_render ha) hlen
  obtain ⟨r, hseen, hshows⟩ := feedCalls_message m handle
  refine ⟨r, ?_, hshows, hvalue⟩
  rw [hcalls, lineCalls_render, hseen]

/-- `:bot!xdcc@host PRIVMSG me :DCC SEND f 1 2 3` -/
def offerMessage : Message where
  source := some
    { nick := bytes "bot"
      user := some (bytes "xdcc")
      host := some (bytes "host")
      nick_ok := by decide +kernel
      user_ok := by
        rintro w ⟨⟩
        decide +kernel
      host_ok := by
        rintro w ⟨⟩
        decide +kernel }
  command := bytes "PRIVMSG"
  middles := [bytes "me"]
  last := .trailing (bytes "DCC SEND f 1 2 3") (by decide +kernel)
  command_ok := by decide +kernel
  middles_ok := by decide +kernel
  count_le := by decide

theorem execute_render_offer :
    offerMessage.render.length ≤ ircParserRawBufferSize ∧
      ∃ r, (feedCalls freeParserResult createLineParser (callbacks
          (ircParserExecute ircParserInit (offerMessage.render ++ [cr, lf])).events)).2 = [r] ∧
        Shows r offerMessage ∧
        (ircParserExecute ircParserInit (offerMessage.render ++ [cr, lf])).value =
          (offerMessage.render ++ [cr, lf]).length :=
  have hlen : offerMessage.render.length ≤ ircParserRawBufferSize := by decide +kernel
  ⟨hlen, execute_render offerMessage hlen freeParserResult⟩

end Xdccget.RenderedLines
