import Xdccget.CtcpUnwrapping
import Xdccget.MessageLines
import Xdccget.QueuedTexts

set_option autoImplicit false

/-!
# Whom the answers to CTCP requests go to

The handler takes `result->host` for a full prefix and cuts it in front of `!`. The
answer goes to what is left of the host, not to the nick of the sender.
-/
namespace Xdccget.CtcpReplies
open CText IrcParserBounds IrcParserCarry LineWords LineParser LineOwnership RenderedLines DccMessages
  ClientState HaltingPrograms ProgramRelations ClientLoop LoopFrames LoopLines MessageLines CtcpUnwrapping
  QueuedTexts
open IrcParser (ircParserRawBufferSize)
open Commands (LineEnv LineSession setLine send ctcpBuf isCtcpRequest isDccRequest isActionMessage
  isNumericCommand getCommand strlen replaceParam ircTargetGetNick ircCmdCtcpReply dispatch)
open LineSteps (Ends)

/-- `:nick!user@host PRIVMSG target :\x01payload\x01`, neither a DCC request nor an action. -/
structure CtcpLine where
  nick : Bytes
  user : Bytes
  host : Bytes
  target : Bytes
  payload : Bytes
  nick_ok : nick ≠ [] ∧ Plain [space, bang, at_] nick
  user_ok : user ≠ [] ∧ Plain [space, at_] user
  host_ok : host ≠ [] ∧ Plain [space] host
  target_ok : Middle target
  payload_ok : Plain [] payload
  other : isDccRequest payload = false ∧ isActionMessage payload = false

def CtcpLine.body (l : CtcpLine) : Bytes := [1] ++ l.payload ++ [1]

theorem CtcpLine.body_ok (l : CtcpLine) : Plain [] l.body := by
  intro a ha
  simp only [CtcpLine.body, List.mem_append, List.mem_singleton] at ha
  rcases ha with (rfl | ha) | rfl
  · decide
  · exact l.payload_ok a ha
  · decide

theorem middle_privmsg : Middle (bytes "PRIVMSG") := by decide +kernel

def CtcpLine.message (l : CtcpLine) : Message where
  source := some
    { nick := l.nick
      user := some l.user
      host := some l.host
      nick_ok := l.nick_ok
      user_ok := by
        rintro w ⟨⟩
        exact l.user_ok
      host_ok := by
        rintro w ⟨⟩
        exact l.host_ok }
  command := bytes "PRIVMSG"
  middles := [l.target]
  last := .trailing l.body l.body_ok
  command_ok := middle_privmsg
  middles_ok := by simpa using l.target_ok
  count_le := by simp [maxParamsAllowed]

def CtcpLine.block (l : CtcpLine) : Block where
  line := l.message.render ++ [cr, lf]
  isBlock := isBlock_of_words fun _ ha => mem_render ha

/-- `NOTICE nick :rest` -/
def noticeTo (nick rest : Bytes) : Bytes := bytes "NOTICE " ++ nick ++ bytes " :" ++ rest

def Known (payload : Bytes) : Prop :=
  bytes "PING" <+: payload ∨ payload ∈ [bytes "VERSION", bytes "FINGER", bytes "TIME"]

/-- The texts that are queued are the answer that the sender of the line is to get. -/
structure Answered (l : CtcpLine) (texts : List Bytes) : Prop where
  one : texts.length ≤ 1
  addressed : ∀ text ∈ texts, noticeTo (l.nick.take 127) [] <+: text
  echo : bytes "PING" <+: l.payload → ∀ text ∈ texts, text = noticeTo (l.nick.take 127) l.body
  unknown : ¬ Known l.payload → texts = []

def answerText (l : CtcpLine) (reply : Bytes) : Bytes :=
  noticeTo (ircTargetGetNick l.host 128) ([1] ++ reply ++ [1])

section handler
variable {s : Loop} {l : CtcpLine} {env : LineEnv}

theorem body_unwrapped (l : CtcpLine) : unwrapped l.body = l.payload := by
  simp [unwrapped, CtcpLine.body]

theorem isCtcpRequest_body (l : CtcpLine) : isCtcpRequest l.body = true := by
  rw [isCtcpRequest, CtcpLine.body, List.getLast?_concat]
  rfl

theorem libircEventCtcpInternal_client {origin request : Bytes}
    (horigin : textAt s.session.line s.session.line.result.host = some origin)
    (hparam : paramText s.session 0 = some request) :
    (endState (libircEventCtcpInternal env) s).session.client =
      (ctcpReply env s.session request).elim s.session.client fun reply =>
        sentClient s.session.client (noticeTo (ircTargetGetNick origin 128) ([1] ++ reply ++ [1])) := by
  obtain ⟨str, hstr⟩ : ∃ str, s.session.line.result.host = some str := by
    cases hhost : s.session.line.result.host with
    | none =>
      rw [hhost] at horigin
      cases horigin
    | some str => exact ⟨str, rfl⟩
  have hderef : (deref (some str)).run s = .ok origin s := by
    rw [← hstr]
    exact deref_run_of_some horigin
  have hend : endState (libircEventCtcpInternal env) s = _ := endState_get_bind _ s
  rw [hend]
  dsimp only [handling_deref, handling_param, handling_onSession]
  rw [hstr]
  dsimp only
  rw [endState_bind_of_ok hderef, endState_bind_of_ok (param_run_of_some hparam)]
  cases ctcpReply env s.session request with
  | none => rfl
  | some reply =>
    have htext : bytes "NOTICE " ++ ircTargetGetNick origin 128 ++ bytes " :" ++ [1] ++ reply ++ [1] =
        noticeTo (ircTargetGetNick origin 128) ([1] ++ reply ++ [1]) := by
      simp only [noticeTo, List.append_assoc]
    have hsent := endState_of_ok
      (send_run (noticeTo (ircTargetGetNick origin 128) ([1] ++ reply ++ [1])) s.session)
    dsimp only [Option.elim_some]
    rw [ircCmdCtcpReply, htext, onSession, endState_zoom, hsent]

def answeredClient (env : LineEnv) (s : LineSession) (l : CtcpLine) : Client :=
  (ctcpReply env s l.payload).elim s.client fun reply => sentClient s.client (answerText l reply)

theorem ctcpBuf_body (hlen : l.message.render.length ≤ ircParserRawBufferSize) :
    ctcpBuf l.body libircBufferSize = l.payload := by
  have hbody : l.body.length ≤ l.message.render.length := by
    simp only [CtcpLine.message, Message.render, Message.body, LastParam.render, List.length_cons,
      List.length_append]
    omega
  have htwo : 2 ≤ l.body.length := by simp [CtcpLine.body]
  have hsize : ircParserRawBufferSize = 512 := rfl
  have hbuffer : libircBufferSize = 2048 := rfl
  rw [← body_unwrapped l]
  exact (ctcpBuf_eq_unwrapped_iff htwo (by omega) l.body_ok.no_nul).mpr (by omega)

theorem handleCtcpText_client (harrived : Arrived s.session l.message) :
    (endState (handleCtcpText env l.payload) s).session.client = answeredClient env s.session l := by
  let t : Loop :=
    { s with session := { s.session with line := replaceParam 0 l.payload 1 s.session.line } }
  have hset : (onSession (setLine (replaceParam 0 l.payload 1))).run s = .ok ⟨⟩ t := rfl
  have hhost : textAt t.session.line t.session.line.result.host = some l.host := harrived.host
  have hparam : paramText t.session 0 = some l.payload := by
    have hslot : t.session.line.result.params 0 = some ⟨s.session.line.allocated, cstr l.payload⟩ :=
      Commands.replaceParam_self 0 l.payload 1 s.session.line
    rw [paramText, hslot, cstr_of_no_nul l.payload_ok.no_nul]
    exact if_neg harrived.fresh
  have hend : endState (handleCtcpText env l.payload) s = endState (libircEventCtcpInternal env) t := by
    rw [handleCtcpText, Commands.Handling.handleCtcpText,
      if_neg (by rw [l.other.1]; exact Bool.false_ne_true),
      if_neg (by rw [l.other.2]; exact Bool.false_ne_true)]
    exact endState_bind_of_ok hset
  rw [hend, libircEventCtcpInternal_client hhost hparam]
  rfl

theorem handleParserResult_run {name : Bytes} {handler : Commands.IrcCommand}
    (hcommand : s.session.line.result.command.map (·.text) = some name)
    (hnumeric : isNumericCommand name = false) (hhandler : getCommand name (strlen name) = handler) :
    (handleParserResult env).run s =
      (execute env name handler).run (LoopFrames.dispatched s (.command handler name)) := by
  obtain ⟨command, hslot, htext⟩ := Option.map_eq_some_iff.mp hcommand
  have hdispatch : (onSession (dispatch (.command handler name))).run s =
      .ok ⟨⟩ (LoopFrames.dispatched s (.command handler name)) := rfl
  have hget : (handleParserResult env).run s = _ := run_get_bind _ s
  rw [hget]
  dsimp only
  rw [hslot]
  dsimp only
  rw [htext, if_neg (by rw [hnumeric]; exact Bool.false_ne_true)]
  subst hhandler
  exact run_bind_of_ok hdispatch

theorem handleParserResult_endState {name : Bytes} {handler : Commands.IrcCommand}
    (hcommand : s.session.line.result.command.map (·.text) = some name)
    (hnumeric : isNumericCommand name = false) (hhandler : getCommand name (strlen name) = handler) :
    endState (handleParserResult env) s =
      endState (execute env name handler) (LoopFrames.dispatched s (.command handler name)) := by
  unfold endState
  rw [handleParserResult_run hcommand hnumeric hhandler]

theorem handleParserResult_client (harrived : Arrived s.session l.message)
    (hlen : l.message.render.length ≤ ircParserRawBufferSize) :
    (endState (handleParserResult env) s).session.client = answeredClient env s.session l := by
  let t : Loop := LoopFrames.dispatched s (.command .privmsg (bytes "PRIVMSG"))
  have harrived' : Arrived t.session l.message :=
    ⟨harrived.nick, harrived.host, harrived.command, harrived.numParams, harrived.params, harrived.fresh⟩
  have hnum : 1 < t.session.line.result.numParams := by
    rw [harrived'.numParams]
    exact Nat.one_lt_two
  have hparam : paramText t.session 1 = some l.body := harrived'.params 1 Nat.one_lt_two
  have hprivmsg : endState (ircPrivmsgCommand env) t = endState (handleCtcpText env l.payload) t := by
    unfold endState
    rw [ircPrivmsgCommand_run env hparam hnum (isCtcpRequest_body l), ctcpBuf_body hlen]
  have hcommand : s.session.line.result.command.map (·.text) = some (bytes "PRIVMSG") := harrived.command
  have hnumeric : isNumericCommand (bytes "PRIVMSG") = false := by decide
  have hhandler : getCommand (bytes "PRIVMSG") (strlen (bytes "PRIVMSG")) = .privmsg := by decide
  rw [handleParserResult_endState hcommand hnumeric hhandler]
  change (endState (ircPrivmsgCommand env) t).session.client = _
  rw [hprivmsg, handleCtcpText_client harrived']
  rfl

end handler

section lines
variable {s : Loop} {l : CtcpLine} {answers : Answers}

theorem Finished.client {t u : Loop} (h : Finished t u) : u.session.client = t.session.client := by
  cases h <;> rfl

theorem step_message_client {m : Message} {block : Block} (hblock : block.line = m.render ++ [cr, lf])
    (hstart : AtLineStart s.session) (hlive : idle s (.line answers block) = false) {c : Client}
    (hhandled : Arrived (entered s block.line).session m → m.render.length ≤ ircParserRawBufferSize →
      (endState (handleParserResult answers.env) (entered s block.line)).session.client = c) :
    (step s (.line answers block)).session.client =
      if m.render.length ≤ ircParserRawBufferSize then c else s.session.client := by
  obtain ⟨line, hisBlock⟩ := block
  subst hblock
  by_cases hlen : m.render.length ≤ ircParserRawBufferSize
  · rw [if_pos hlen]
    rcases step_line hlive hstart.parser with ⟨hnot, -⟩ | ⟨-, hfinished⟩
    · exact absurd (ends_message hstart.parser hlen) hnot
    · rw [Finished.client hfinished]
      exact hhandled (entered_arrived hstart hlen) hlen
  · rw [if_neg hlen]
    rcases step_line hlive hstart.parser with ⟨-, hstep⟩ | ⟨hends, -⟩
    · rw [hstep]
      rfl
    · exact absurd hends (not_ends_long hstart.parser (fun _ ha => mem_render ha) (by omega))

theorem step_ctcp_client (hstart : AtLineStart s.session)
    (hlive : idle s (.line answers l.block) = false) :
    (step s (.line answers l.block)).session.client =
      if l.message.render.length ≤ ircParserRawBufferSize then
        answeredClient answers.env s.session l
      else s.session.client := by
  apply step_message_client rfl hstart hlive
  intro harrived hlen
  exact handleParserResult_client harrived hlen

def Replied (answers : Answers) (s : Loop) (l : CtcpLine) (reply : Bytes) : Prop :=
  l.message.render.length ≤ ircParserRawBufferSize ∧
    ctcpReply answers.env s.session l.payload = some reply ∧
    accepts s.session.client.net (answerText l reply) = true

theorem queuedTexts_sent (s : Client) (text : Bytes) :
    (queuedTexts (sentClient s text).trace).drop (queuedTexts s.trace).length =
      queuedTexts (sendActions s.net text) := by
  change (queuedTexts (s.trace ++ _)).drop _ = _
  unfold queuedTexts
  rw [List.filterMap_append]
  exact List.drop_left

theorem queuedBy_step (hstart : AtLineStart s.session)
    (hlive : idle s (.line answers l.block) = false) :
    (∃ reply, Replied answers s l reply ∧
        queuedBy s (step s (.line answers l.block)) = [snprintf 1024 (answerText l reply)]) ∨
      ((∀ reply, ¬ Replied answers s l reply) ∧ queuedBy s (step s (.line answers l.block)) = []) := by
  have hclient := step_ctcp_client hstart hlive
  have hsame : (step s (.line answers l.block)).session.client = s.session.client →
      queuedBy s (step s (.line answers l.block)) = [] := by
    intro h
    rw [queuedBy, queuedSince, h]
    exact List.drop_length
  by_cases hlen : l.message.render.length ≤ ircParserRawBufferSize
  · rw [if_pos hlen, answeredClient] at hclient
    cases hkind : ctcpReply answers.env s.session l.payload with
    | none =>
      rw [hkind] at hclient
      exact Or.inr ⟨fun reply h => Option.some_ne_none reply (h.2.1.symm.trans hkind), hsame hclient⟩
    | some reply =>
      rw [hkind] at hclient
      have htexts : queuedBy s (step s (.line answers l.block)) =
          queuedTexts (sendActions s.session.client.net (answerText l reply)) := by
        rw [queuedBy, queuedSince, hclient]
        exact queuedTexts_sent s.session.client (answerText l reply)
      by_cases haccepts : accepts s.session.client.net (answerText l reply) = true
      · refine Or.inl ⟨reply, ⟨hlen, hkind, haccepts⟩, ?_⟩
        rw [htexts, sendActions, if_pos haccepts]
        rfl
      · refine Or.inr ⟨fun other h => ?_, ?_⟩
        · have hother : reply = other := Option.some.inj (hkind.symm.trans h.2.1)
          subst hother
          exact haccepts h.2.2
        · rw [htexts, sendActions, if_neg haccepts]
          rfl
  · rw [if_neg hlen] at hclient
    exact Or.inr ⟨fun _ h => hlen h.1, hsame hclient⟩

end lines

section addresses
variable {a b text : Bytes}

theorem address_unique (ha : space ∉ a) (hb : space ∉ b) (hta : noticeTo a [] <+: text)
    (htb : noticeTo b [] <+: text) : a = b := by
  have hword {c : Bytes} (hc : space ∉ c) (ht : noticeTo c [] <+: text) :
      (text.drop 7).takeWhile (· ≠ space) = c := by
    obtain ⟨rest, rfl⟩ := ht
    have hdrop : (noticeTo c [] ++ rest).drop 7 = c ++ (space :: (bytes ":" ++ rest)) := by
      have hlen : (bytes "NOTICE ").length = 7 := by decide
      have hsplit : noticeTo c [] ++ rest =
          bytes "NOTICE " ++ (c ++ (space :: (bytes ":" ++ rest))) := by
        have hcolon : bytes " :" = space :: bytes ":" := by decide
        simp only [noticeTo, hcolon, List.append_assoc, List.append_nil, List.cons_append]
      rw [hsplit, ← hlen, List.drop_left]
    rw [hdrop, List.takeWhile_append_of_pos]
    · simp
    · intro x hx
      have hne : x ≠ space := fun he => hc (he ▸ hx)
      simpa using hne
  exact (hword ha hta).symm.trans (hword hb htb)

/-- The address fits in front of the cut of `irc_send_raw`. -/
theorem noticeTo_starts (ha : nul ∉ a) (hlen : a.length ≤ 127) (rest : Bytes) :
    noticeTo a [] <+: snprintf 1024 (noticeTo a rest) := by
  have hsplit : noticeTo a rest = noticeTo a [] ++ rest := by simp [noticeTo]
  have hclean : nul ∉ noticeTo a [] := by
    have hnotice : nul ∉ bytes "NOTICE " := by decide
    have hcolon : nul ∉ bytes " :" := by decide
    simp [noticeTo, hnotice, hcolon, ha]
  have hfits : (noticeTo a []).length ≤ 1023 := by
    have hnotice : (bytes "NOTICE ").length = 7 := by decide
    have hcolon : (bytes " :").length = 2 := by decide
    simp only [noticeTo, List.length_append, List.length_nil, hnotice, hcolon]
    omega
  have hcstr : cstr (noticeTo a rest) = noticeTo a [] ++ cstr rest := by
    rw [hsplit, cstr, List.takeWhile_append_of_pos]
    · rfl
    · intro x hx
      have hne : x ≠ nul := fun he => hclean (he ▸ hx)
      simpa using hne
  rw [snprintf, hcstr, List.take_append, List.take_of_length_le hfits]
  exact List.prefix_append _ _

theorem origin_ok (l : CtcpLine) : space ∉ ircTargetGetNick l.host 128 ∧
    nul ∉ ircTargetGetNick l.host 128 ∧ (ircTargetGetNick l.host 128).length ≤ 127 := by
  have hsub {a : UInt8} (ha : a ∈ ircTargetGetNick l.host 128) : a ∈ l.host :=
    (List.takeWhile_prefix _).subset (List.mem_of_mem_take ha)
  refine ⟨fun h => l.host_ok.2.not_mem (hsub h) (by simp), fun h => l.host_ok.2.no_nul (hsub h), ?_⟩
  exact List.length_take_le _ _

theorem nick_no_space (l : CtcpLine) : space ∉ l.nick.take 127 := fun h =>
  l.nick_ok.2.not_mem (List.mem_of_mem_take h) (by simp)

end addresses

section answers
variable {s : Loop} {l : CtcpLine} {answers : Answers}

/-- A `PING` that fits into a line comes back in full. -/
theorem echo_fits (hlen : l.message.render.length ≤ ircParserRawBufferSize) :
    snprintf 1024 (answerText l l.payload) = answerText l l.payload := by
  obtain ⟨-, hnul, horigin⟩ := origin_ok l
  have hpayload : l.payload.length ≤ l.message.render.length := by
    simp only [CtcpLine.message, CtcpLine.body, Message.render, Message.body, LastParam.render,
      List.length_cons, List.length_append]
    omega
  have hsize : ircParserRawBufferSize = 512 := rfl
  have hclean : nul ∉ answerText l l.payload := by
    have hnotice : nul ∉ bytes "NOTICE " := by decide
    have hcolon : nul ∉ bytes " :" := by decide
    have hmark : nul ≠ (1 : UInt8) := by decide
    simp [answerText, noticeTo, hnotice, hcolon, hmark, hnul, l.payload_ok.no_nul]
  have hfits : (answerText l l.payload).length ≤ 1023 := by
    have hnotice : (bytes "NOTICE ").length = 7 := by decide
    have hcolon : (bytes " :").length = 2 := by decide
    simp only [answerText, noticeTo, List.length_append, List.length_singleton, hnotice, hcolon]
    omega
  rw [snprintf, cstr_of_no_nul hclean, List.take_of_length_le hfits]

theorem known_of_reply {env : LineEnv} {t : LineSession} {request reply : Bytes}
    (h : ctcpReply env t request = some reply) : Known request := by
  unfold ctcpReply at h
  unfold Known
  split_ifs at h with hping hversion hfinger htime
  · exact Or.inl hping
  · simp [hversion]
  · simp [hfinger]
  · simp [htime]

/-- The line is answered rightly exactly if the host, up to an exclamation mark, is the nick, or no
    answer goes out. -/
theorem ctcp_reply_addressed_iff (answers : Answers) (l : CtcpLine) (hstart : AtLineStart s.session)
    (hlive : idle s (.line answers l.block) = false) :
    Answered l (queuedBy s (step s (.line answers l.block))) ↔
      ((∃ reply, Replied answers s l reply) → ircTargetGetNick l.host 128 = l.nick.take 127) := by
  obtain ⟨hspace, hnul, hlength⟩ := origin_ok l
  rcases queuedBy_step hstart hlive with ⟨reply, hreplied, htexts⟩ | ⟨hnone, htexts⟩
  · rw [htexts]
    constructor
    · intro h _
      apply address_unique hspace (nick_no_space l) (noticeTo_starts hnul hlength _)
      exact h.addressed _ List.mem_cons_self
    · intro h
      have horigin := h ⟨reply, hreplied⟩
      refine ⟨by simp, ?_, ?_, ?_⟩
      · intro text htext
        rw [List.mem_singleton.mp htext, ← horigin]
        exact noticeTo_starts hnul hlength _
      · intro hping text htext
        have hsame : reply = l.payload := by
          have hkind := hreplied.2.1
          rw [ctcpReply, if_pos hping] at hkind
          exact (Option.some.inj hkind).symm
        rw [List.mem_singleton.mp htext, hsame, echo_fits hreplied.1, ← horigin]
        rfl
      · exact fun hunknown => absurd (known_of_reply hreplied.2.1) hunknown
  · rw [htexts]
    refine iff_of_true ⟨Nat.zero_le _, ?_, ?_, fun _ => rfl⟩ fun ⟨reply, h⟩ => absurd h (hnone reply)
    · exact fun _ h => absurd h List.not_mem_nil
    · exact fun _ _ h => absurd h List.not_mem_nil

end answers

/-- `:bob!u@host PRIVMSG me :PING 5`, marked. -/
def pingLine (host : Bytes) (h : host ≠ [] ∧ Plain [space] host) : CtcpLine where
  nick := bytes "bob"
  user := bytes "u"
  host := host
  target := bytes "me"
  payload := bytes "PING 5"
  nick_ok := by decide +kernel
  user_ok := by decide +kernel
  host_ok := h
  target_ok := by decide +kernel
  payload_ok := by decide +kernel
  other := by decide +kernel

/-- The client of `botSetup`, connected. -/
def connectedLoop : Loop := step botSetup.start connects

theorem connectedLoop_start : AtLineStart connectedLoop.session where
  parser := ⟨rfl, rfl, rfl⟩
  line := createLineParser_clean.settled

def homePing : CtcpLine := pingLine (bytes "bob") (by decide +kernel)

def awayPing : CtcpLine := pingLine (bytes "h.net") (by decide +kernel)

theorem ctcp_reply_addressed_iff_home :
    queuedBy connectedLoop (step connectedLoop (.line readyAnswers homePing.block)) ≠ [] ∧
      Answered homePing (queuedBy connectedLoop (step connectedLoop (.line readyAnswers homePing.block))) :=
  ⟨by decide +kernel,
    (ctcp_reply_addressed_iff readyAnswers homePing connectedLoop_start (by decide +kernel)).mpr
      fun _ => by decide +kernel⟩

/-- The answer for `bob` goes to his host. -/
theorem ctcp_reply_misses_sender :
    queuedBy connectedLoop (step connectedLoop (.line readyAnswers awayPing.block)) =
        [bytes "NOTICE h.net :\x01PING 5\x01"] ∧
      ¬ Answered awayPing
        (queuedBy connectedLoop (step connectedLoop (.line readyAnswers awayPing.block))) := by
  have htexts : queuedBy connectedLoop (step connectedLoop (.line readyAnswers awayPing.block)) =
      [bytes "NOTICE h.net :\x01PING 5\x01"] := by decide +kernel
  refine ⟨htexts, fun h => ?_⟩
  rw [htexts] at h
  exact absurd (h.addressed _ List.mem_cons_self) (by decide +kernel)

end Xdccget.CtcpReplies
