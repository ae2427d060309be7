import Xdccget.LoopFrames

set_option autoImplicit false

/-!
# Taking a CTCP message out of its marks

`handle_ctcp_request` and `irc_notice_command` compute the same length, and cut it to the
capacity that `sizeof` tells: of the buffer in the one, of the pointer to it in the other.
-/
namespace Xdccget.CtcpUnwrapping
open CText LineParser DccMessages ClientState HaltingPrograms ProgramRelations ClientLoop LoopFrames
open Commands (LineEnv setLine ctcpBuf isCtcpRequest isDccRequest isActionMessage pointerSize
  replaceParam replyToNotice freeParams)

/-- `msglen`, the number of bytes that are copied from the second one on. -/
def copyLength (body : Bytes) (size : ℕ) : ℕ := min ((body.length + 2 ^ 64 - 2) % 2 ^ 64) (size - 1)

def unwrapped (body : Bytes) : Bytes := body.tail.dropLast

/-- A `PRIVMSG` with this body: only its own bytes are copied, and its inner bytes are handled. -/
structure RequestUnwrapped (env : LineEnv) (s : Loop) (body : Bytes) : Prop where
  inside : 1 + copyLength body libircBufferSize ≤ body.length
  handled : (ircPrivmsgCommand env).run s = (handleCtcpText env (unwrapped body)).run s

/-- A `NOTICE` with this body: only its own bytes are copied, and its inner bytes become the
    parameter of the reply. -/
structure ReplyUnwrapped (event : Bytes) (s : Loop) (body : Bytes) : Prop where
  inside : 1 + copyLength body pointerSize ≤ body.length
  reply : ((endState (ircNoticeCommand event) s).session.line.result.params 0).map (·.text) =
    some (unwrapped body)

section copies
variable {body : Bytes} {size : ℕ}

theorem ctcpBuf_eq (body : Bytes) (size : ℕ) :
    ctcpBuf body size = cstr (((body ++ [nul]).drop 1).take (copyLength body size)) := rfl

theorem copyLength_of_one (h : body.length = 1) (hsize : size ≤ 2 ^ 64) :
    copyLength body size = size - 1 := by
  unfold copyLength
  rw [h]
  have hwrap : (1 + 2 ^ 64 - 2) % 2 ^ 64 = 2 ^ 64 - 1 := by norm_num
  rw [hwrap]
  omega

theorem copyLength_of_two_le (h : 2 ≤ body.length) (hlen : body.length < 2 ^ 64) :
    copyLength body size = min (body.length - 2) (size - 1) := by
  unfold copyLength
  have hsub : body.length + 2 ^ 64 - 2 = 2 ^ 64 + (body.length - 2) := by omega
  rw [hsub, Nat.add_mod_left, Nat.mod_eq_of_lt (by omega)]

theorem unwrapped_eq_take (body : Bytes) : unwrapped body = body.tail.take (body.length - 2) := by
  rw [unwrapped, List.dropLast_eq_take, List.length_tail]
  rfl

theorem inside_iff (hne : body ≠ []) (hlen : body.length < 2 ^ 64) (hsize : 2 ≤ size)
    (hmax : size ≤ 2 ^ 64) : 1 + copyLength body size ≤ body.length ↔ 2 ≤ body.length := by
  have hpos : 0 < body.length := List.length_pos_iff.mpr hne
  constructor
  · intro hinside
    by_contra hshort
    rw [copyLength_of_one (by omega) hmax] at hinside
    omega
  · intro htwo
    rw [copyLength_of_two_le htwo hlen]
    omega

theorem ctcpBuf_of_two_le (h : 2 ≤ body.length) (hlen : body.length < 2 ^ 64) (hnul : nul ∉ body) :
    ctcpBuf body size = (unwrapped body).take (size - 1) := by
  have htail : (body ++ [nul]).drop 1 = body.tail ++ [nul] := by
    cases body with
    | nil => simp at h
    | cons a rest => rfl
  have hcopied : ((body ++ [nul]).drop 1).take (copyLength body size) =
      (unwrapped body).take (size - 1) := by
    rw [copyLength_of_two_le h hlen, htail, unwrapped_eq_take, List.take_take,
      List.take_append_of_le_length (by rw [List.length_tail]; omega), Nat.min_comm]
  have hclean : nul ∉ (unwrapped body).take (size - 1) := by
    intro hmem
    exact hnul (List.mem_of_mem_tail (List.mem_of_mem_dropLast (List.mem_of_mem_take hmem)))
  rw [ctcpBuf_eq, hcopied, cstr_of_no_nul hclean]

theorem ctcpBuf_eq_unwrapped_iff (h : 2 ≤ body.length) (hlen : body.length < 2 ^ 64)
    (hnul : nul ∉ body) : ctcpBuf body size = unwrapped body ↔ body.length ≤ size - 1 + 2 := by
  have hinner : (unwrapped body).length = body.length - 2 := by
    rw [unwrapped, List.length_dropLast, List.length_tail]
    rfl
  rw [ctcpBuf_of_two_le h hlen hnul, List.take_eq_self_iff, hinner]
  omega

end copies

section handlers
variable {s : Loop} {body : Bytes}

theorem ircPrivmsgCommand_run (env : LineEnv) (hparam : paramText s.session 1 = some body)
    (hnum : 1 < s.session.line.result.numParams) (hctcp : isCtcpRequest body = true) :
    (ircPrivmsgCommand env).run s = (handleCtcpText env (ctcpBuf body libircBufferSize)).run s := by
  have hread := param_run_of_some hparam
  have hhandle : (handleCtcpRequest env).run s =
      (handleCtcpText env (ctcpBuf body libircBufferSize)).run s := run_bind_of_ok hread
  have hget : (ircPrivmsgCommand env).run s = _ := run_get_bind _ s
  rw [hget]
  dsimp only [handling_param]
  rw [if_neg (Nat.not_le.mpr hnum), run_bind_of_ok hread, if_pos hctcp]
  exact hhandle

theorem ircNoticeCommand_line (event : Bytes) (hparam : paramText s.session 1 = some body)
    (hnum : 1 < s.session.line.result.numParams) (hctcp : isCtcpRequest body = true) :
    (endState (ircNoticeCommand event) s).session.line = replyToNotice body s.session.line := by
  have hread := param_run_of_some hparam
  have hstill : Moves (fun s t => t = s) dumpEvent := by
    have hframe : Frame (fun s t : Loop => t = s) := ⟨fun _ => rfl, fun _ _ _ h h' => h'.trans h⟩
    exact hframe.get_bind fun _ => hframe.forM (fun cnt => moves_discard (still_param cnt)) _
  let s' : Loop :=
    { s with session := { s.session with line := replyToNotice body s.session.line } }
  have hset : (onSession (setLine (replyToNotice body))).run s = .ok ⟨⟩ s' := rfl
  have hend : endState (ircNoticeCommand event) s = endState dumpEvent s' := by
    apply (endState_bind_of_ok hread).trans
    apply (endState_get_bind _ s).trans
    dsimp only [handling_onSession]
    rw [if_pos ⟨hnum, hctcp⟩]
    exact endState_bind_of_ok hset
  rw [hend, hstill s']

/-- A request is unwrapped unless it is a single byte, and a reply only up to nine bytes. -/
theorem ctcp_unwrapping_iff (env : LineEnv) (event : Bytes)
    (hparam : paramText s.session 1 = some body) (hnum : 1 < s.session.line.result.numParams)
    (hctcp : isCtcpRequest body = true) (hnul : nul ∉ body) (hfits : body.length ≤ libircBufferSize) :
    (RequestUnwrapped env s body ∧ ReplyUnwrapped event s body ↔
        2 ≤ body.length ∧ body.length ≤ 9) ∧
      (RequestUnwrapped env s body ↔ 2 ≤ body.length) := by
  have hne : body ≠ [] := by
    rintro rfl
    cases hctcp
  have hsize : libircBufferSize = 2048 := rfl
  have hlen : body.length < 2 ^ 64 := by omega
  have hrequest : RequestUnwrapped env s body ↔ 2 ≤ body.length := by
    have htwo : 2 ≤ libircBufferSize := by decide
    have hinside := inside_iff hne hlen htwo (by decide)
    constructor
    · exact fun h => hinside.mp h.inside
    · intro htwo
      refine ⟨hinside.mpr htwo, ?_⟩
      rw [ircPrivmsgCommand_run env hparam hnum hctcp,
        (ctcpBuf_eq_unwrapped_iff htwo hlen hnul).mpr (by omega)]
  have hreply : ReplyUnwrapped event s body ↔ 2 ≤ body.length ∧ body.length ≤ 9 := by
    have htwo : 2 ≤ pointerSize := by decide
    have hinside := inside_iff hne hlen htwo (by decide)
    have hslot : ((endState (ircNoticeCommand event) s).session.line.result.params 0).map (·.text) =
        some (ctcpBuf body pointerSize) := by
      rw [ircNoticeCommand_line event hparam hnum hctcp, replyToNotice, Commands.replaceParam_self,
        Option.map_some, ctcpBuf_eq, cstr_of_no_nul (nul_not_mem_cstr _)]
    constructor
    · rintro ⟨hin, htext⟩
      have htwo := hinside.mp hin
      rw [hslot, Option.some.injEq, ctcpBuf_eq_unwrapped_iff htwo hlen hnul] at htext
      exact ⟨htwo, htext⟩
    · rintro ⟨htwo, hnine⟩
      refine ⟨hinside.mpr htwo, ?_⟩
      rw [hslot, (ctcpBuf_eq_unwrapped_iff htwo hlen hnul).mpr hnine]
  refine ⟨?_, hrequest⟩
  rw [hrequest, hreply]
  exact ⟨And.right, fun h => ⟨h.1, h⟩⟩

end handlers

/-- The client with a line `:n!u@h NOTICE me :body`, or `PRIVMSG`, in front of its handler. -/
def bodyLoop (body : Bytes) : Loop :=
  { botSetup.start with
    session :=
      { botSetup.start.session with
        line := [(.onNick, bytes "n"), (.onName, bytes "u"), (.onHost, bytes "h"),
          (.onParam, bytes "me"), (.onParam, body)].foldl onCall createLineParser } }

def pingReply : Bytes := bytes "\x01PING 123456\x01"

theorem ctcp_unwrapping_iff_time :
    let body := bytes "\x01TIME\x01"
    paramText (bodyLoop body).session 1 = some body ∧ isCtcpRequest body = true ∧
      RequestUnwrapped readyAnswers.env (bodyLoop body) body ∧
      ReplyUnwrapped (bytes "NOTICE") (bodyLoop body) body :=
  have hparam : paramText (bodyLoop (bytes "\x01TIME\x01")).session 1 = some (bytes "\x01TIME\x01") := by
    decide +kernel
  have h := ctcp_unwrapping_iff readyAnswers.env (bytes "NOTICE") hparam (by decide +kernel)
    (by decide +kernel) (by decide +kernel) (by decide +kernel)
  ⟨by decide +kernel, by decide +kernel, h.1.mpr (by decide +kernel)⟩

/-- A longer reply is cut, and for a single mark the copy runs far behind the body. -/
theorem ctcp_reply_cut :
    (paramText (bodyLoop pingReply).session 1 = some pingReply ∧ isCtcpRequest pingReply = true ∧
      unwrapped pingReply = bytes "PING 123456" ∧
      ((endState (ircNoticeCommand (bytes "NOTICE")) (bodyLoop pingReply)).session.line.result.params
        0).map (·.text) = some (bytes "PING 12") ∧
      ¬ ReplyUnwrapped (bytes "NOTICE") (bodyLoop pingReply) pingReply) ∧
    paramText (bodyLoop [1]).session 1 = some [1] ∧ isCtcpRequest [1] = true ∧
      copyLength [1] libircBufferSize = 2047 ∧ copyLength [1] pointerSize = 7 ∧
      ¬ RequestUnwrapped readyAnswers.env (bodyLoop [1]) [1] := by
  have hcut : ((endState (ircNoticeCommand (bytes "NOTICE"))
      (bodyLoop pingReply)).session.line.result.params 0).map (·.text) = some (bytes "PING 12") := by
    decide +kernel
  refine ⟨⟨by decide +kernel, by decide +kernel, by decide +kernel, hcut, fun h => ?_⟩,
    by decide +kernel, by decide +kernel, by decide +kernel, by decide +kernel, fun h => ?_⟩
  · exact absurd (hcut.symm.trans h.reply) (by decide +kernel)
  · exact absurd h.inside (by decide +kernel)

end Xdccget.CtcpUnwrapping
