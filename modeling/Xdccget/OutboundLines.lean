import Xdccget.CtcpReplies
import Xdccget.DownloadArguments
import Xdccget.ReplyLines

set_option autoImplicit false

/-!
# What the lines of the client say

A queued line is read with the parser of the client. `PONG` comes without the colon of a
last parameter, and a login command is cut behind its ninth byte.
-/
namespace Xdccget.OutboundLines
open CText IrcParserCarry LineWords LineParser RenderedLines DccMessages ClientState HaltingPrograms
  ClientLoop LoopFrames LoopLines MessageLines QueuedTexts ReplyLines CtcpReplies DownloadArguments
open IrcParser (ircParserExecute ircParserInit ircParserRawBufferSize)
open Commands (LineEnv LineSession send isNumericCommand getCommand strlen dispatch)
open LineSteps (Ends)

def seen (line : Bytes) : List ParserResult :=
  (feedCalls freeParserResult createLineParser
    (callbacks (ircParserExecute ircParserInit (line ++ [cr, lf])).events)).2

structure ReadAs (r : ParserResult) (command : Bytes) (params : List Bytes) : Prop where
  command : r.command.map (·.text) = some command
  numParams : r.numParams = params.length
  params : ∀ i < params.length, (r.params i).map (·.text) = params[i]?

/-- One line is queued, and it is read as this command with these parameters. -/
def Says (queued : List Bytes) (command : Bytes) (params : List Bytes) : Prop :=
  ∃ line, queued = [line] ∧ ∃ r, seen line = [r] ∧ ReadAs r command params

theorem ReadAs.unique {r : ParserResult} {command command' : Bytes} {params params' : List Bytes}
    (h : ReadAs r command params) (h' : ReadAs r command' params') : params = params' := by
  have hlength : params.length = params'.length := h.numParams.symm.trans h'.numParams
  apply List.ext_getElem? fun i => ?_
  by_cases hi : i < params.length
  · rw [← h.params i hi, h'.params i (by omega)]
  · rw [List.getElem?_eq_none (by omega), List.getElem?_eq_none (by omega)]

def wordsOf (rest : Bytes) : List Bytes :=
  (readWords ⟨.params, []⟩ rest).2.map Prod.snd ++ [(readWords ⟨.params, []⟩ rest).1.word]

section reading
variable {w rest : Bytes}

theorem delimits_params (h : space ∉ w) : ∀ a ∈ w, delimits .params a = none := by
  intro a ha
  have hne : a ≠ space := fun he => h (he ▸ ha)
  simp [delimits, hne]

theorem wordsOf_append (h : space ∉ w) (hcolon : w.head? ≠ some colon) (rest : Bytes) :
    wordsOf (w ++ space :: rest) = w :: wordsOf rest := by
  rw [wordsOf, readWords_delimited (delimits_params h) (fun _ _ => hcolon) rfl]
  rfl

theorem wordsOf_trailing (w : Bytes) : wordsOf (colon :: w) = [w] := by
  have hturn : wordTurn ⟨.params, []⟩ colon = (⟨.trailing, []⟩, []) := by decide
  have hwords := readWords_of_plain (r := ⟨.trailing, []⟩) (w := w) (fun _ _ => rfl)
    fun hs => absurd hs (by simp)
  simp only [wordsOf, readWords, hturn, hwords]
  rfl

theorem wordsOf_single (h : space ∉ w) (hcolon : w.head? ≠ some colon) : wordsOf w = [w] := by
  rw [wordsOf, readWords_of_plain (delimits_params h) fun _ _ => hcolon]
  rfl

theorem wordsOf_ne_nil (rest : Bytes) : wordsOf rest ≠ [] := List.concat_ne_nil _ _

theorem two_le_wordsOf (h : space ∈ rest) (hcolon : rest.head? ≠ some colon) :
    2 ≤ (wordsOf rest).length := by
  obtain ⟨before, after, rfl, hfree⟩ := List.eq_append_cons_of_mem h
  have hbefore : before.head? ≠ some colon := by
    cases before with
    | nil => simp
    | cons a before => exact hcolon
  have hpos := List.length_pos_iff.mpr (wordsOf_ne_nil after)
  rw [wordsOf_append hfree hbefore, List.length_cons]
  omega

theorem readWords_params {r : Reading} (hr : r.state ∈ [.params, .trailing]) (w : Bytes) :
    ∀ call ∈ (readWords r w).2, call.1 = .onParam := by
  induction w generalizing r with
  | nil => exact fun _ hcall => absurd hcall List.not_mem_nil
  | cons a w ih =>
    have hturn : (wordTurn r a).1.state ∈ [.params, .trailing] ∧
        ∀ call ∈ (wordTurn r a).2, call.1 = .onParam := by
      obtain ⟨state, word⟩ := r
      simp only [List.mem_cons, List.not_mem_nil, or_false] at hr
      rcases hr with rfl | rfl
      · unfold wordTurn delimits
        dsimp only
        split_ifs <;> simp [callbackOf]
      · simp [wordTurn, delimits]
    simp only [readWords, List.mem_append]
    rintro call (hcall | hcall)
    · exact hturn.2 call hcall
    · exact ih hturn.1 call hcall

theorem readWords_bytes (r : Reading) (w : Bytes) :
    (∀ a ∈ (readWords r w).1.word, a ∈ r.word ∨ a ∈ w) ∧
      ∀ call ∈ (readWords r w).2, ∀ a ∈ call.2, a ∈ r.word ∨ a ∈ w := by
  induction w generalizing r with
  | nil => exact ⟨fun _ ha => .inl ha, fun _ hcall => absurd hcall List.not_mem_nil⟩
  | cons b w ih =>
    have hturn : (∀ a ∈ (wordTurn r b).1.word, a ∈ r.word ∨ a = b) ∧
        ∀ call ∈ (wordTurn r b).2, ∀ a ∈ call.2, a ∈ r.word := by
      unfold wordTurn
      split
      · simp
      · split <;> simp
    obtain ⟨hword, hcalls⟩ := ih (wordTurn r b).1
    simp only [readWords, List.mem_append, List.mem_cons]
    refine ⟨fun a ha => ?_, ?_⟩
    · have hsrc := hword a ha
      have hfirst := hturn.1 a
      tauto
    · rintro call (hcall | hcall) a ha
      · exact .inl (hturn.2 call hcall a ha)
      · have hsrc := hcalls call hcall a ha
        have hfirst := hturn.1 a
        tauto

theorem mem_of_mem_wordsOf {a : UInt8} (h : w ∈ wordsOf rest) (ha : a ∈ w) : a ∈ rest := by
  obtain ⟨hword, hcalls⟩ := readWords_bytes ⟨.params, []⟩ rest
  have hnot : a ∉ ([] : Bytes) := List.not_mem_nil
  rcases List.mem_append.mp h with h | h
  · obtain ⟨call, hcall, rfl⟩ := List.mem_map.mp h
    exact (hcalls call hcall a ha).resolve_left hnot
  · rw [List.mem_singleton.mp h] at ha
    exact (hword a ha).resolve_left hnot

end reading

section lines
variable {command rest line : Bytes}

theorem foldl_onParam_full {st : LineState} (h : st.result.numParams = maxParamsAllowed)
    (texts : List Bytes) : texts.foldl onParam st = st := by
  induction texts with
  | nil => rfl
  | cons text texts ih =>
    have hfull : onParam st text = st := if_neg (by omega)
    rw [List.foldl_cons, hfull, ih]

theorem gained_take {st : LineState} (h : st.result.numParams = 0) {texts : List Bytes}
    (htexts : ∀ text ∈ texts, nul ∉ text) :
    Gained st.result (texts.foldl onParam st).result (texts.take maxParamsAllowed) := by
  have hlength := List.length_take_le maxParamsAllowed texts
  have htaken : Gained st.result ((texts.take maxParamsAllowed).foldl onParam st).result
      (texts.take maxParamsAllowed) :=
    foldl_onParam (by omega) fun text ht => htexts text (List.mem_of_mem_take ht)
  have hsplit : texts.foldl onParam st =
      (texts.drop maxParamsAllowed).foldl onParam ((texts.take maxParamsAllowed).foldl onParam st) := by
    rw [← List.foldl_append, List.take_append_drop]
  rw [hsplit]
  by_cases hmany : texts.length ≤ maxParamsAllowed
  · rw [List.drop_of_length_le hmany]
    exact htaken
  · have hcount := htaken.count
    rw [List.length_take] at hcount
    rw [foldl_onParam_full (by omega)]
    exact htaken

theorem lineCalls_words (hcommand : Middle command) (rest : Bytes) :
    ∃ last, lineCalls (command ++ space :: rest) =
      (.onCommand, command) :: ((wordsOf rest).map (Prod.mk .onParam) ++ [(.onEnd, last)]) := by
  obtain ⟨hne, hplain, hcolon⟩ := hcommand
  have hhead : (command ++ space :: rest).head? ≠ some colon := by
    cases command with
    | nil => exact absurd rfl hne
    | cons a command => exact hcolon
  have hfree : ∀ a ∈ command, delimits .command a = none :=
    delimits_of_no_space (by simp) hplain
  have hcalls : ((readWords ⟨.params, []⟩ rest).2.map Prod.snd).map (Prod.mk .onParam) =
      (readWords ⟨.params, []⟩ rest).2 := by
    have hsame : ∀ call ∈ (readWords ⟨.params, []⟩ rest).2,
        (Prod.mk IrcParser.Callback.onParam ∘ Prod.snd) call = id call := by
      intro call hcall
      exact Prod.ext (readWords_params (by simp) rest call hcall).symm rfl
    rw [List.map_map, List.map_congr_left hsame, List.map_id]
  refine ⟨(readWords ⟨.params, []⟩ rest).1.word, ?_⟩
  rw [lineCalls_of_command (by simp) hhead, readWords_delimited hfree (fun hs => absurd hs (by simp)) rfl,
    wordsOf, List.map_append, hcalls]
  simp [endCalls, callbackOf]

theorem seen_words (hcommand : Middle command) (hline : OneLine rest) (hnul : nul ∉ rest)
    (hlen : (command ++ space :: rest).length ≤ ircParserRawBufferSize) :
    ∃ r, seen (command ++ space :: rest) = [r] ∧
      ReadAs r command ((wordsOf rest).take maxParamsAllowed) := by
  obtain ⟨last, hcalls⟩ := lineCalls_words hcommand rest
  have hclean : ∀ a ∈ command ++ space :: rest, a ≠ cr ∧ a ≠ lf := by
    intro a ha
    rcases List.mem_append.mp ha with ha | ha
    · exact hcommand.2.1.no_line_end a ha
    · rcases List.mem_cons.mp ha with rfl | ha
      · decide
      · exact ⟨fun he => hline.1 (he ▸ ha), fun he => hline.2 (he ▸ ha)⟩
  have hexecute := (execute_words (by simp) hclean hlen).1
  let st := onCommand createLineParser command
  have hparams : ∀ call ∈ (wordsOf rest).map (Prod.mk IrcParser.Callback.onParam), call.1 ≠ .onEnd := by
    intro call hcall
    obtain ⟨_, -, rfl⟩ := List.mem_map.mp hcall
    simp
  have hfold : ((wordsOf rest).map (Prod.mk IrcParser.Callback.onParam)).foldl onCall st =
      (wordsOf rest).foldl onParam st := by
    rw [List.foldl_map]
    rfl
  have hgained : Gained st.result ((wordsOf rest).foldl onParam st).result
      ((wordsOf rest).take maxParamsAllowed) :=
    gained_take rfl fun w hw hmem => hnul (mem_of_mem_wordsOf hw hmem)
  refine ⟨((wordsOf rest).foldl onParam st).result, ?_, ?_, ?_, ?_⟩
  · rw [seen, hexecute, hcalls, feedCalls_cons (by simp), feedCalls_append hparams]
    change (feedCalls freeParserResult (((wordsOf rest).map (Prod.mk IrcParser.Callback.onParam)).foldl
      onCall st) [(.onEnd, last)]).2 = _
    rw [hfold]
    rfl
  · rw [hgained.command]
    exact congrArg some (cstr_of_no_nul hcommand.2.1.no_nul)
  · rw [hgained.count]
    exact Nat.zero_add _
  · intro i hi
    have hslot := hgained.gained i hi
    have hzero : st.result.numParams = 0 := rfl
    rw [hzero, Nat.zero_add] at hslot
    rw [hslot, List.getElem?_eq_getElem hi]

theorem feedCalls_of_not_end {handle : LineState → LineState} {st : LineState} {calls : List Call}
    (h : ∀ call ∈ calls, call.1 ≠ .onEnd) : (feedCalls handle st calls).2 = [] := by
  have hall : feedCalls handle st (calls ++ []) = feedCalls handle (calls.foldl onCall st) [] :=
    feedCalls_append h []
  rw [List.append_nil] at hall
  rw [hall]
  rfl

theorem seen_long (hline : OneLine line) (hlong : ircParserRawBufferSize < line.length) :
    seen line = [] := by
  apply feedCalls_of_not_end
  apply execute_long _ hlong
  intro a ha
  exact ⟨fun he => hline.1 (he ▸ ha), fun he => hline.2 (he ▸ ha)⟩

theorem feedCalls_clean {st : LineState} {calls : List Call} (h : CleanResult st.result)
    (hcalls : ∀ call ∈ calls, OneLine call.2) :
    ∀ r ∈ (feedCalls freeParserResult st calls).2, CleanResult r := by
  induction calls generalizing st with
  | nil => exact fun _ hr => absurd hr List.not_mem_nil
  | cons call calls ih =>
    obtain ⟨cb, text⟩ := call
    have hrest : ∀ call ∈ calls, OneLine call.2 := fun other hother =>
      hcalls other (List.mem_cons_of_mem _ hother)
    by_cases hend : cb = .onEnd
    · subst hend
      intro r hr
      rcases List.mem_cons.mp hr with rfl | hr
      · exact h
      · exact ih (cleanResult_freed h) hrest r hr
    · rw [feedCalls_cons hend]
      exact ih (cleanResult_onCall h (hcalls _ List.mem_cons_self)) hrest

theorem ReadAs.oneLine {r : ParserResult} {params : List Bytes} (h : ReadAs r command params)
    (hseen : r ∈ seen line) : ∀ text ∈ params, OneLine text := by
  have hcalls := (executeFrom_clean cleanRaw_init (line ++ [cr, lf]).length 0 (line ++ [cr, lf])).2
  have hclean := feedCalls_clean cleanResult_fresh (fun _ => oneLine_of_mem_callbacks hcalls) r hseen
  intro text htext
  obtain ⟨i, hi, hget⟩ := List.getElem_of_mem htext
  have hslot := h.params i hi
  rw [List.getElem?_eq_getElem hi, hget] at hslot
  obtain ⟨str, hstr, rfl⟩ := Option.map_eq_some_iff.mp hslot
  exact hclean.params i str hstr

theorem read_words_iff (hcommand : Middle command) (hline : OneLine rest) (hnul : nul ∉ rest)
    {params : List Bytes} (hfew : params.length < maxParamsAllowed) :
    (∃ r, seen (snprintf 1024 (command ++ space :: rest)) = [r] ∧ ReadAs r command params) ↔
      (command ++ space :: rest).length ≤ ircParserRawBufferSize ∧ wordsOf rest = params := by
  have htext : OneLine (command ++ space :: rest) := by
    have hplain : OneLine command := ⟨fun h => (hcommand.2.1.no_line_end cr h).1 rfl,
      fun h => (hcommand.2.1.no_line_end lf h).2 rfl⟩
    exact oneLine_append.mpr ⟨hplain, oneLine_append.mpr ⟨(by decide : OneLine [space]), hline⟩⟩
  have hclean : nul ∉ command ++ space :: rest := by
    intro h
    rcases List.mem_append.mp h with h | h
    · exact hcommand.2.1.no_nul h
    · rcases List.mem_cons.mp h with h | h
      · exact absurd h (by decide)
      · exact hnul h
  have hsize : ircParserRawBufferSize = 512 := rfl
  by_cases hlen : (command ++ space :: rest).length ≤ ircParserRawBufferSize
  · have hwhole : snprintf 1024 (command ++ space :: rest) = command ++ space :: rest := by
      rw [snprintf, cstr_of_no_nul hclean, List.take_of_length_le (by omega)]
    obtain ⟨r, hseen, hread⟩ := seen_words hcommand hline hnul hlen
    rw [hwhole]
    constructor
    · rintro ⟨r', hseen', hread'⟩
      obtain rfl : r = r' := List.singleton_inj.mp (hseen.symm.trans hseen')
      have htake := hread.unique hread'
      have hcount := congrArg List.length htake
      rw [List.length_take] at hcount
      rw [List.take_of_length_le (by omega)] at htake
      exact ⟨hlen, htake⟩
    · rintro ⟨-, hwords⟩
      rw [hwords, List.take_of_length_le (by omega)] at hread
      exact ⟨r, hseen, hread⟩
  · refine iff_of_false ?_ fun h => hlen h.1
    rintro ⟨r, hseen, -⟩
    have hlong : ircParserRawBufferSize < (snprintf 1024 (command ++ space :: rest)).length := by
      rw [snprintf, cstr_of_no_nul hclean, List.length_take]
      omega
    rw [seen_long (htext.snprintf 1024) hlong] at hseen
    cases hseen

end lines

theorem says_sent (s : Client) (text command : Bytes) (params : List Bytes) :
    Says (queuedSince s (sentClient s text)) command params ↔
      accepts s.net text = true ∧
        ∃ r, seen (snprintf 1024 text) = [r] ∧ ReadAs r command params := by
  rw [Says, queuedSince, queuedTexts_sent, sendActions]
  by_cases haccepts : accepts s.net text = true
  · rw [if_pos haccepts]
    constructor
    · rintro ⟨line, hline, hread⟩
      cases hline
      exact ⟨haccepts, hread⟩
    · rintro ⟨-, hread⟩
      exact ⟨_, rfl, hread⟩
  · rw [if_neg haccepts]
    refine iff_of_false ?_ fun h => haccepts h.1
    rintro ⟨line, hline, -⟩
    cases hline

/-- `target ++ ' ' ++ text`, as it is configured. -/
structure Login where
  target : Bytes
  text : Bytes
  target_ok : target ≠ [] ∧ space ∉ target
  no_nul : nul ∉ target ∧ nul ∉ text

def Login.command (l : Login) : Bytes := l.target ++ space :: l.text

/-- The logins that come out right: a target of nine bytes and no text. -/
structure Login.Fits (l : Login) (net : Net) : Prop where
  text : l.text = []
  nine : l.target.length = 9
  trimmed : sdstrim blanks l.target = l.target
  colon : l.target.head? ≠ some colon
  oneLine : OneLine l.target
  accepted : accepts net (privmsg l.target []) = true

section login
variable {u v : Bytes} {s : LineSession}

theorem sdstrim_split (s : Bytes) : ∃ front back, s = front ++ (sdstrim blanks s ++ back) ∧
    (∀ c ∈ front, trims blanks c = true) ∧ ∀ c ∈ back, trims blanks c = true := by
  refine ⟨s.takeWhile (trims blanks),
    ((s.dropWhile (trims blanks)).reverse.takeWhile (trims blanks)).reverse, ?_,
    fun c hc => List.mem_takeWhile_imp hc, fun c hc => List.mem_takeWhile_imp (List.mem_reverse.mp hc)⟩
  rw [sdstrim, List.rdropWhile, ← List.reverse_append, List.takeWhile_append_dropWhile, List.reverse_reverse,
    List.takeWhile_append_dropWhile]

theorem sdstrim_append_blank {s : Bytes} {c : UInt8} (h : trims blanks c = true) :
    sdstrim blanks (s ++ [c]) = sdstrim blanks s := by
  unfold sdstrim
  rw [List.dropWhile_append]
  by_cases hall : s.dropWhile (trims blanks) = []
  · simp [hall, h]
  · simp [hall, h]

theorem sdstrim_back {s rest : Bytes} (hrest : rest ≠ []) (h : sdstrim blanks s = rest ++ v)
    {w : Bytes} (hs : s = rest ++ w) :
    ∃ back, s = sdstrim blanks s ++ back ∧ ∀ c ∈ back, trims blanks c = true := by
  obtain ⟨front, back, hsplit, hfront, hback⟩ := sdstrim_split s
  cases rest with
  | nil => exact absurd rfl hrest
  | cons a rest =>
    cases front with
    | nil => exact ⟨back, hsplit, hback⟩
    | cons b front =>
      have hhead := congrArg List.head? (hs.symm.trans hsplit)
      obtain rfl : a = b := Option.some.inj hhead
      have hblank := hfront a List.mem_cons_self
      rw [sdstrim_cons h] at hblank
      cases hblank

theorem eq_of_shifted {x y b : Bytes} {a c : UInt8} (h : b ++ a :: x = c :: (b ++ y)) : a = c := by
  induction b generalizing c with
  | nil => exact (List.cons.inj h).1
  | cons d b ih =>
    obtain ⟨hd, hrest⟩ := List.cons.inj h
    exact (ih hrest).trans hd

/-- Two parameters are read from a cut command if the cut falls behind the first. The other way is
    a text that starts with a colon. -/
theorem wordsOf_cut {target text : Bytes} (h : wordsOf (u ++ space :: colon :: v) = [target, text]) :
    (space ∉ u ∧ u.head? ≠ some colon ∧ target = u ∧ text = v) ∨
      ∃ b, u = target ++ space :: colon :: b ∧ text = b ++ space :: colon :: v := by
  by_cases hcolon : u.head? = some colon
  · obtain ⟨rest, rfl⟩ : ∃ rest, u = colon :: rest := by
      cases u with
      | nil => cases hcolon
      | cons a rest => exact ⟨rest, by rw [Option.some.inj hcolon]⟩
    rw [List.cons_append, wordsOf_trailing] at h
    cases h
  by_cases hspace : space ∈ u
  · obtain ⟨w, b, rfl, hfree⟩ := List.eq_append_cons_of_mem hspace
    have hw : w.head? ≠ some colon := by
      cases w with
      | nil => simp
      | cons a w => exact hcolon
    rw [List.append_assoc, List.cons_append, wordsOf_append hfree hw] at h
    obtain ⟨rfl, hrest⟩ := List.cons.inj h
    by_cases hb : b.head? = some colon
    · obtain ⟨rest, rfl⟩ : ∃ rest, b = colon :: rest := by
        cases b with
        | nil => cases hb
        | cons a rest => exact ⟨rest, by rw [Option.some.inj hb]⟩
      rw [List.cons_append, wordsOf_trailing] at hrest
      exact .inr ⟨rest, rfl, (List.cons.inj hrest).1.symm⟩
    · have hhead : (b ++ space :: colon :: v).head? ≠ some colon := by
        cases b with
        | nil => exact fun he => absurd (Option.some.inj he) (by decide)
        | cons a b => exact hb
      have htwo := two_le_wordsOf (List.mem_append_right b List.mem_cons_self) hhead
      rw [hrest] at htwo
      exact absurd htwo (by simp)
  · rw [wordsOf_append hspace hcolon, wordsOf_trailing] at h
    obtain ⟨htarget, htext⟩ := List.cons.inj h
    exact .inl ⟨hspace, hcolon, htarget.symm, (List.cons.inj htext).1.symm⟩

theorem sendLoginCommand_client (s : LineSession) (login : Bytes) :
    (endState (Commands.sendLoginCommand login) s).client =
      if 9 ≤ (sdstrim blanks login).length then
        sentClient s.client (privmsg ((sdstrim blanks login).take 9) ((sdstrim blanks login).drop 9))
      else s.client := by
  let t : LineSession := { s with loginCommand := some (sdstrim blanks login) }
  have hrun : endState (Commands.sendLoginCommand login) s =
      endState (if 9 ≤ (sdstrim blanks login).length then
        Commands.ircCmdMsg ((sdstrim blanks login).take 9) ((sdstrim blanks login).drop 9)
        else pure ⟨⟩ : Commands.HandlerM PUnit) t := rfl
  rw [hrun]
  split
  · rw [Commands.ircCmdMsg, endState_of_ok (send_run _ t)]
  · rfl

theorem Login.command_trimmed (l : Login) (htext : l.text = []) :
    sdstrim blanks l.command = sdstrim blanks l.target := by
  rw [Login.command, htext]
  exact sdstrim_append_blank (by decide)

theorem Login.cut_of_words (l : Login) (hlong : 9 ≤ (sdstrim blanks l.command).length)
    (h : wordsOf ((sdstrim blanks l.command).take 9 ++
        space :: colon :: (sdstrim blanks l.command).drop 9) =
      [l.target, l.text]) :
    l.text = [] ∧ l.target.length = 9 ∧ sdstrim blanks l.target = l.target ∧
      l.target.head? ≠ some colon := by
  have hcut := List.take_append_drop 9 (sdstrim blanks l.command)
  rcases wordsOf_cut h with ⟨-, hcolon, htarget, htext⟩ | ⟨b, hu, htext⟩
  · rw [← htarget] at hcut hcolon
    rw [← htext] at hcut
    obtain ⟨back, hback, hblank⟩ := sdstrim_back l.target_ok.1 hcut.symm rfl
    have hlength := congrArg List.length htarget
    rw [List.length_take, Nat.min_eq_left hlong] at hlength
    have hempty : l.text = [] := by
      by_contra hne
      obtain ⟨front, c, hlast⟩ : ∃ front c, l.text = front ++ [c] :=
        ⟨_, _, (List.dropLast_concat_getLast hne).symm⟩
      have hends : sdstrim blanks l.command = (l.target ++ front) ++ [c] := by
        rw [← hcut, hlast, List.append_assoc]
      have hstay := sdstrim_concat hends
      rw [← hcut, Login.command, List.append_assoc, List.append_cancel_left_eq, hlast] at hback
      have hcount := congrArg List.length hback
      simp only [List.length_cons, List.length_append, List.length_nil] at hcount
      obtain ⟨d, rfl⟩ := List.length_eq_one_iff.mp (by omega : back.length = 1)
      have hsame := congrArg List.getLast? hback
      rw [← List.cons_append, List.getLast?_concat, List.getLast?_concat] at hsame
      obtain rfl : c = d := Option.some.inj hsame
      rw [hblank c List.mem_cons_self] at hstay
      cases hstay
    refine ⟨hempty, hlength, ?_, hcolon⟩
    rw [← l.command_trimmed hempty, ← hcut, hempty, List.append_nil]
  · generalize (sdstrim blanks l.command).drop 9 = v at hcut htext
    rw [hu, List.append_assoc] at hcut
    obtain ⟨back, hback, -⟩ := sdstrim_back l.target_ok.1 hcut.symm rfl
    rw [← hcut, Login.command, htext, List.append_assoc, List.append_cancel_left_eq] at hback
    have hrest : b ++ space :: colon :: v = colon :: (b ++ (v ++ back)) := by
      simpa using (List.cons.inj hback).2
    exact absurd (eq_of_shifted hrest) (by decide)

theorem privmsg_eq {nch : Bytes} (h : nul ∉ nch) (text : Bytes) :
    privmsg nch text = bytes "PRIVMSG" ++ space :: (nch ++ space :: colon :: text) := by
  have hcommand : bytes "PRIVMSG " = bytes "PRIVMSG" ++ [space] := by decide
  have hcolon : bytes " :" = [space, colon] := by decide
  rw [privmsg, cstr_of_no_nul h, hcommand, hcolon]
  simp

theorem oneLine_cut (hu : OneLine u) (hv : OneLine v) : OneLine (u ++ space :: colon :: v) :=
  oneLine_append.mpr ⟨hu, oneLine_append.mpr ⟨(by decide : OneLine [space, colon]), hv⟩⟩

theorem login_says_iff (s : LineSession) (l : Login) :
    Says (queuedSince s.client (endState (Commands.sendLoginCommand l.command) s).client)
        (bytes "PRIVMSG") [l.target, l.text] ↔ l.Fits s.client.net := by
  have hclient := sendLoginCommand_client s l.command
  have hnul : ∀ c ∈ sdstrim blanks l.command, c ≠ nul := by
    rintro c hc rfl
    rcases List.mem_append.mp (mem_of_mem_sdstrim hc) with hmem | hmem
    · exact l.no_nul.1 hmem
    · rcases List.mem_cons.mp hmem with hmem | hmem
      · exact absurd hmem (by decide)
      · exact l.no_nul.2 hmem
  have htake : nul ∉ (sdstrim blanks l.command).take 9 :=
    fun hmem => hnul nul (List.mem_of_mem_take hmem) rfl
  have hrest : nul ∉ (sdstrim blanks l.command).take 9 ++
      space :: colon :: (sdstrim blanks l.command).drop 9 := by
    intro hmem
    rcases List.mem_append.mp hmem with hmem | hmem
    · exact htake hmem
    · rcases List.mem_cons.mp hmem with hmem | hmem
      · exact absurd hmem (by decide)
      · rcases List.mem_cons.mp hmem with hmem | hmem
        · exact absurd hmem (by decide)
        · exact hnul nul (List.mem_of_mem_drop hmem) rfl
  have hfew : [l.target, l.text].length < maxParamsAllowed := by
    rw [maxParamsAllowed, List.length_cons, List.length_singleton]
    omega
  have hread (hline : OneLine l.command) := read_words_iff middle_privmsg
    (oneLine_cut ((oneLine_sdstrim hline).take 9) ((oneLine_sdstrim hline).drop 9)) hrest hfew
  by_cases hlong : 9 ≤ (sdstrim blanks l.command).length
  · rw [hclient, if_pos hlong, says_sent]
    constructor
    · rintro ⟨haccepts, r, hseen, hparams⟩
      have htexts := hparams.oneLine (by rw [hseen]; exact List.mem_singleton_self r)
      have hline : OneLine l.command := oneLine_append.mpr ⟨htexts _ (by simp),
        oneLine_append.mpr ⟨(by decide : OneLine [space]), htexts _ (by simp)⟩⟩
      have hwords := ((hread hline).mp ⟨r, by rw [← privmsg_eq htake]; exact hseen, hparams⟩).2
      obtain ⟨htext, hnine, htrim, hcolon⟩ := l.cut_of_words hlong hwords
      rw [l.command_trimmed htext, htrim, ← hnine, List.take_length, List.drop_length] at haccepts
      exact ⟨htext, hnine, htrim, hcolon, htexts _ (by simp), haccepts⟩
    · intro h
      have hcommand : sdstrim blanks l.command = l.target := (l.command_trimmed h.text).trans h.trimmed
      have hline : OneLine l.command := by
        rw [Login.command, h.text]
        exact oneLine_append.mpr ⟨h.oneLine, by decide⟩
      have hwhole : l.target.take 9 = l.target ∧ l.target.drop 9 = [] := by
        rw [← h.nine, List.take_length, List.drop_length]
        exact ⟨rfl, rfl⟩
      rw [hcommand, hwhole.1, hwhole.2] at hread ⊢
      rw [hcommand, hwhole.1] at htake
      refine ⟨h.accepted, ?_⟩
      rw [privmsg_eq htake]
      refine (hread hline).mpr ⟨?_, ?_⟩
      · have hnine := h.nine
        have hseven : (bytes "PRIVMSG").length = 7 := by decide
        have hsize : ircParserRawBufferSize = 512 := rfl
        simp only [List.length_append, List.length_cons, List.length_nil]
        omega
      · rw [wordsOf_append l.target_ok.2 h.colon, wordsOf_trailing, h.text]
  · rw [hclient, if_neg hlong]
    refine iff_of_false ?_ fun h => ?_
    · rintro ⟨line, hline, -⟩
      rw [queuedSince, List.drop_length] at hline
      cases hline
    · rw [l.command_trimmed h.text, h.trimmed, h.nine] at hlong
      exact hlong (Nat.le_refl 9)

end login

/-- `PING` in a message of the grammar, from any source. -/
structure Ping where
  message : Message
  command_eq : message.command = bytes "PING"

def Ping.param (p : Ping) : Bytes := p.message.params.headD []

def Ping.block (p : Ping) : Block where
  line := p.message.render ++ [cr, lf]
  isBlock := isBlock_of_words fun _ ha => mem_render ha

def pong (param : Bytes) : Bytes := bytes "PONG " ++ param

structure Ping.Fits (p : Ping) (net : Net) : Prop where
  space : space ∉ p.param
  colon : p.param.head? ≠ some colon
  arrives : p.message.render.length ≤ ircParserRawBufferSize
  accepted : accepts net (pong p.param) = true

section ping
variable {s : Loop} {p : Ping} {env : LineEnv} {answers : Answers}

theorem Ping.params_zero (p : Ping) : 0 < p.message.params.length ∧
    p.message.params[0]? = some p.param := by
  have hpos : p.message.params ≠ [] := List.concat_ne_nil _ _
  cases hparams : p.message.params with
  | nil => exact absurd hparams hpos
  | cons t rest => exact ⟨Nat.succ_pos _, by rw [Ping.param, hparams]; rfl⟩

theorem handlePing_client (harrived : Arrived s.session p.message) :
    (endState (handleParserResult env) s).session.client = sentClient s.session.client (pong p.param) := by
  have hcommand := harrived.command
  rw [p.command_eq] at hcommand
  let t : Loop := LoopFrames.dispatched s (.command .ping (bytes "PING"))
  have hhandler : getCommand (bytes "PING") (strlen (bytes "PING")) = .ping := by decide
  have hnumeric : isNumericCommand (bytes "PING") = false := by decide
  obtain ⟨hpos, hfirst⟩ := p.params_zero
  have hparam : paramText t.session 0 = some p.param := (harrived.params 0 hpos).trans hfirst
  have hslot : t.session.line.result.params 0 ≠ none := by
    intro hnone
    rw [paramText, hnone] at hparam
    cases hparam
  have hget : endState ircPingCommand t = _ := endState_get_bind _ t
  rw [handleParserResult_endState hcommand hnumeric hhandler]
  change (endState ircPingCommand t).session.client = _
  rw [hget]
  dsimp only [handling_param, handling_onSession]
  rw [if_neg hslot, endState_bind_of_ok (param_run_of_some hparam), onSession, ProgramRelations.endState_zoom,
    endState_of_ok (send_run _ t.session)]
  rfl

theorem step_ping_client (hstart : AtLineStart s.session)
    (hlive : idle s (.line answers p.block) = false) :
    (step s (.line answers p.block)).session.client =
      if p.message.render.length ≤ ircParserRawBufferSize then
        sentClient s.session.client (pong p.param)
      else s.session.client := by
  apply step_message_client rfl hstart hlive
  intro harrived _
  exact handlePing_client harrived

theorem Ping.param_ok (p : Ping) : OneLine p.param ∧ nul ∉ p.param ∧
    (pong p.param).length ≤ p.message.render.length := by
  have hplain : ∀ text ∈ p.message.params, Plain [] text := by
    intro text htext a ha
    rcases List.mem_append.mp htext with hmiddle | hlast
    · have hnot := (p.message.middles_ok text hmiddle).2.1 a ha
      simp only [List.mem_cons, not_or] at hnot
      simp [hnot]
    · rw [List.mem_singleton.mp hlast] at ha
      exact p.message.last.plain a ha
  obtain ⟨hpos, hfirst⟩ := p.params_zero
  have hparam := hplain p.param (List.mem_of_getElem? hfirst)
  have hpong : (bytes "PONG ").length = 5 := by decide
  have hping : p.message.command.length = 4 := by
    rw [p.command_eq]
    decide
  have hbody : p.param.length + 5 ≤ p.message.body.length := by
    rw [Message.params] at hfirst
    rw [Message.body, List.length_append, List.length_cons, List.length_append, hping]
    cases hmiddles : p.message.middles with
    | nil =>
      rw [hmiddles] at hfirst
      obtain hlast : p.message.last.text = p.param := Option.some.inj hfirst
      have hrendered : p.message.last.text.length ≤ p.message.last.render.length := by
        cases p.message.last with
        | middle w h => exact Nat.le_refl _
        | trailing w h => exact Nat.le_succ _
      rw [← hlast, List.flatMap_nil, List.length_nil]
      omega
    | cons w middles =>
      rw [hmiddles] at hfirst
      obtain rfl : w = p.param := Option.some.inj hfirst
      simp only [List.flatMap_cons, List.length_append, List.length_singleton]
      omega
  have hrender : p.message.body.length ≤ p.message.render.length := by
    unfold Message.render
    cases p.message.source with
    | none => exact Nat.le_refl _
    | some source =>
      simp only [List.length_cons, List.length_append]
      omega
  refine ⟨⟨fun h => (hparam.no_line_end cr h).1 rfl, fun h => (hparam.no_line_end lf h).2 rfl⟩,
    hparam.no_nul, ?_⟩
  rw [pong, List.length_append, hpong]
  omega

theorem wordsOf_self_iff (w : Bytes) : wordsOf w = [w] ↔ space ∉ w ∧ w.head? ≠ some colon := by
  constructor
  · intro h
    have hcolon : w.head? ≠ some colon := by
      intro hhead
      cases w with
      | nil => cases hhead
      | cons a w =>
        rw [Option.some.inj hhead, wordsOf_trailing] at h
        have hlength := congrArg List.length (List.cons.inj h).1
        rw [List.length_cons] at hlength
        omega
    refine ⟨fun hspace => ?_, hcolon⟩
    have htwo := two_le_wordsOf hspace hcolon
    rw [h, List.length_singleton] at htwo
    omega
  · rintro ⟨hspace, hcolon⟩
    exact wordsOf_single hspace hcolon

theorem ping_says_iff (hstart : AtLineStart s.session)
    (hlive : idle s (.line answers p.block) = false) :
    Says (queuedSince s.session.client (step s (.line answers p.block)).session.client)
        (bytes "PONG") [p.param] ↔ p.Fits s.session.client.net := by
  obtain ⟨hline, hnul, hlength⟩ := p.param_ok
  have hpong : pong p.param = bytes "PONG" ++ space :: p.param := by
    have hcommand : bytes "PONG " = bytes "PONG" ++ [space] := by decide
    rw [pong, hcommand, List.append_assoc, List.singleton_append]
  have hfew : [p.param].length < maxParamsAllowed := by
    rw [maxParamsAllowed, List.length_singleton]
    omega
  have hmiddle : Middle (bytes "PONG") := by decide +kernel
  rw [step_ping_client hstart hlive]
  by_cases hlen : p.message.render.length ≤ ircParserRawBufferSize
  · have hread := read_words_iff hmiddle hline hnul hfew
    rw [← hpong, wordsOf_self_iff] at hread
    rw [if_pos hlen, says_sent, hread]
    constructor
    · rintro ⟨haccepts, -, hspace, hcolon⟩
      exact ⟨hspace, hcolon, hlen, haccepts⟩
    · intro h
      exact ⟨h.accepted, hlength.trans hlen, h.space, h.colon⟩
  · rw [if_neg hlen]
    refine iff_of_false ?_ fun h => hlen h.arrives
    rintro ⟨line, hqueued, -⟩
    rw [queuedSince, List.drop_length] at hqueued
    cases hqueued

end ping

/-- A login command is read as it was meant exactly if its target has nine bytes and no text follows,
    and a pong exactly if the parameter has no space and starts with no colon. -/
theorem outbound_lines_iff (s : LineSession) (l : Login) (answers : Answers) {t : Loop} (p : Ping)
    (hstart : AtLineStart t.session) (hlive : idle t (.line answers p.block) = false) :
    (Says (queuedSince s.client (endState (Commands.sendLoginCommand l.command) s).client)
        (bytes "PRIVMSG") [l.target, l.text] ↔ l.Fits s.client.net) ∧
      (Says (queuedSince t.session.client (step t (.line answers p.block)).session.client)
        (bytes "PONG") [p.param] ↔ p.Fits t.session.client.net) :=
  ⟨login_says_iff s l, ping_says_iff hstart hlive⟩

/-- `PING :srv` -/
def serverPing : Ping where
  message :=
    { source := none
      command := bytes "PING"
      middles := []
      last := .trailing (bytes "srv") (by decide +kernel)
      command_ok := by decide +kernel
      middles_ok := by simp
      count_le := by decide }
  command_eq := rfl

def chanServ : Login where
  target := bytes "ChanServ2"
  text := []
  target_ok := by decide +kernel
  no_nul := by decide +kernel

theorem outbound_lines_iff_nine :
    idle connectedLoop (.line readyAnswers serverPing.block) = false ∧
      Says (queuedSince connectedLoop.session.client
          (endState (Commands.sendLoginCommand chanServ.command) connectedLoop.session).client)
        (bytes "PRIVMSG") [bytes "ChanServ2", []] ∧
      Says (queuedSince connectedLoop.session.client
        (step connectedLoop (.line readyAnswers serverPing.block)).session.client)
          (bytes "PONG") [bytes "srv"] :=
  have hlive : idle connectedLoop (.line readyAnswers serverPing.block) = false := by decide +kernel
  have h := outbound_lines_iff connectedLoop.session chanServ readyAnswers serverPing connectedLoop_start hlive
  ⟨hlive, h.1.mpr ⟨rfl, by decide, by decide +kernel, by decide +kernel, by decide +kernel, by decide +kernel⟩,
    h.2.mpr ⟨by decide +kernel, by decide +kernel, by decide +kernel, by decide +kernel⟩⟩

/-- `NickServ identify pw` -/
def nickServ : Login where
  target := bytes "NickServ"
  text := bytes "identify pw"
  target_ok := by decide +kernel
  no_nul := by decide +kernel

/-- The cut behind the ninth byte leaves the space with the target, so a third parameter is read. -/
theorem login_misread :
    queuedSince connectedLoop.session.client
          (endState (Commands.sendLoginCommand nickServ.command) connectedLoop.session).client =
        [bytes "PRIVMSG NickServ  :identify pw"] ∧
      ¬ Says (queuedSince connectedLoop.session.client
          (endState (Commands.sendLoginCommand nickServ.command) connectedLoop.session).client)
        (bytes "PRIVMSG") [nickServ.target, nickServ.text] := by
  refine ⟨by decide +kernel, fun h => ?_⟩
  have htext := ((login_says_iff connectedLoop.session nickServ).mp h).text
  exact absurd htext (by decide +kernel)

end Xdccget.OutboundLines
