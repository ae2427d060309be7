import Xdccget.StreamEffects

set_option autoImplicit false

/-!
# The registration

`handle_connecting_state` prints its lines into a buffer of 256 bytes and hands them to
`irc_send_raw` as formats.
-/
namespace Xdccget.Registration
open CText DccMessages SessionStreams StreamEffects

/-- What a format without arguments gives, where C says what that is. -/
def plainFormat : Bytes → Option Bytes
  | [] => some []
  | [c] => if c = percent then none else some [c]
  | c :: d :: rest =>
    if c = percent then
      if d = percent then (plainFormat rest).map (percent :: ·) else none
    else (plainFormat (d :: rest)).map (c :: ·)

def Documented (c : ConnectAnswer) : Prop :=
  ∀ text out, plainFormat text = some out → c.format text = out

theorem plainFormat_of_plain {text : Bytes} (h : percent ∉ text) : plainFormat text = some text := by
  fun_induction plainFormat text with
  | case1 => rfl
  | case2 => exact absurd List.mem_cons_self h
  | case3 c hc => rfl
  | case4 rest ih => exact absurd List.mem_cons_self h
  | case5 d rest hd => exact absurd List.mem_cons_self h
  | case6 c d rest hc ih =>
    rw [ih fun hmem => h (List.mem_cons_of_mem c hmem)]
    rfl

theorem length_plainFormat {text out : Bytes} (h : plainFormat text = some out) :
    out.length ≤ text.length ∧ (percent ∈ text → out.length < text.length) := by
  fun_induction plainFormat text generalizing out with
  | case1 =>
    obtain rfl := Option.some.inj h
    exact ⟨le_refl _, fun hmem => absurd hmem List.not_mem_nil⟩
  | case2 => cases h
  | case3 c hc =>
    obtain rfl := Option.some.inj h
    exact ⟨le_refl _, fun hmem => absurd (List.mem_singleton.mp hmem).symm hc⟩
  | case4 rest ih =>
    obtain ⟨tail, htail, rfl⟩ := Option.map_eq_some_iff.mp h
    have hle := (ih htail).1
    simp only [List.length_cons]
    omega
  | case5 d rest hd => cases h
  | case6 c d rest hc ih =>
    obtain ⟨tail, htail, rfl⟩ := Option.map_eq_some_iff.mp h
    obtain ⟨hle, hlt⟩ := ih htail
    simp only [List.length_cons] at hle hlt ⊢
    refine ⟨by omega, fun hmem => ?_⟩
    rcases List.mem_cons.mp hmem with heq | hmem
    · exact absurd heq.symm hc
    · have hshort := hlt hmem
      omega

/-- The formatting that prints nothing where C does not say what is printed. -/
def sparing : ConnectAnswer where
  peer := true
  format text := (plainFormat text).getD []

theorem sparing_documented : Documented sparing := by
  intro text out h
  change (plainFormat text).getD [] = out
  rw [h]
  rfl

theorem length_sparing (text : Bytes) :
    (sparing.format text).length ≤ text.length ∧
      (percent ∈ text → (sparing.format text).length < text.length) := by
  change ((plainFormat text).getD []).length ≤ _ ∧ (_ → ((plainFormat text).getD []).length < _)
  cases hout : plainFormat text with
  | none => exact ⟨Nat.zero_le _, fun hmem => List.length_pos_of_mem hmem⟩
  | some out => exact length_plainFormat hout

/-- The lines as they should reach the server, without their ends. -/
def lines (s : IrcSession) : List Bytes :=
  (s.serverPassword.map (bytes "PASS " ++ ·)).toList ++
    [bytes "NICK " ++ s.nick,
      bytes "USER " ++ s.nick ++ bytes " " ++ s.nick ++ bytes " unknown :" ++
        s.realname.getD (bytes "realname")]

def wire (texts : List Bytes) : Bytes := texts.flatMap (· ++ [cr, lf])

@[simp] theorem wire_nil : wire [] = [] := rfl

@[simp] theorem wire_cons (text : Bytes) (texts : List Bytes) :
    wire (text :: texts) = text ++ [cr, lf] ++ wire texts := rfl

theorem length_wire_cons (text : Bytes) (texts : List Bytes) :
    (wire (text :: texts)).length = text.length + 2 + (wire texts).length := by
  rw [wire_cons, List.length_append, List.length_append]
  rfl

/-- However the formatting treats what C leaves open, the lines reach the buffer as they are. -/
def Verbatim (k : Link) : Prop :=
  ∀ c : ConnectAnswer, c.peer = true → Documented c →
    (handleConnectingState k c).2.session.outgoing = wire (lines k.session)

structure Detail (text : Bytes) : Prop where
  no_cr : cr ∉ text
  no_lf : lf ∉ text
  no_nul : nul ∉ text
  short : text.length ≤ 200

theorem registration_eq (s : IrcSession) : registration s = (lines s).map (snprintf 256) := by
  unfold registration ClientState.registrationTexts lines
  cases s.serverPassword <;> rfl

theorem sendRaw_outgoing {k : Link} (hstate : k.session.state = .connected) (formatted : Bytes)
    (hroom : k.session.outgoingOffset + (snprintf 1024 formatted).length + 2 < libircBufferSize) :
    (sendRaw k formatted).session.state = .connected ∧
      (sendRaw k formatted).session.outgoing =
        k.session.outgoing ++ (snprintf 1024 formatted ++ [cr, lf]) := by
  refine ⟨(sendRaw_state k formatted).trans hstate, ?_⟩
  have hcases := ircSendRaw_cases formatted (s := k.session) (by omega)
  have hzero : (ircSendRaw k.session formatted).1 = 0 := by
    unfold ircSendRaw
    rw [if_neg (not_not.mpr hstate)]
    dsimp only
    rw [usub64_of_le (by omega), if_neg (by omega)]
  unfold sendRaw
  generalize ircSendRaw k.session formatted = r at hcases hzero ⊢
  cases hcases with
  | refused err => cases hzero
  | queued buf offset hfits hbuf => exact hbuf

theorem sendAll_outgoing {k : Link} (hstate : k.session.state = .connected) (texts : List Bytes)
    (hroom : k.session.outgoingOffset + (wire (texts.map (snprintf 1024))).length < libircBufferSize) :
    (sendAll k texts).session.outgoing =
      k.session.outgoing ++ wire (texts.map (snprintf 1024)) := by
  induction texts generalizing k with
  | nil => exact (List.append_nil _).symm
  | cons text texts ih =>
    rw [List.map_cons, length_wire_cons] at hroom
    obtain ⟨hstate', hout⟩ := sendRaw_outgoing hstate text (by omega)
    have hoffset : (sendRaw k text).session.outgoingOffset =
        k.session.outgoingOffset + (snprintf 1024 text).length + 2 := by
      have hlengths := congrArg List.length hout
      simpa [IrcSession.outgoing, Nat.add_assoc] using hlengths
    have hrest := ih hstate' (by omega)
    change (sendAll (sendRaw k text) texts).session.outgoing = _
    rw [hrest, hout, List.map_cons, wire_cons, List.append_assoc]

theorem length_eq_of_wire {a b : Bytes → Bytes} {texts : List Bytes}
    (hle : ∀ text ∈ texts, (a text).length ≤ (b text).length)
    (hwire : (wire (texts.map b)).length ≤ (wire (texts.map a)).length) :
    ∀ text ∈ texts, (a text).length = (b text).length := by
  have hall : ∀ rest : List Bytes, (∀ text ∈ rest, (a text).length ≤ (b text).length) →
      (wire (rest.map a)).length ≤ (wire (rest.map b)).length := by
    intro rest
    induction rest with
    | nil => exact fun _ => le_refl _
    | cons text rest ih =>
      intro h
      have hfirst := h text List.mem_cons_self
      have hrest := ih fun other hother => h other (List.mem_cons_of_mem text hother)
      rw [List.map_cons, List.map_cons, length_wire_cons, length_wire_cons]
      omega
  induction texts with
  | nil => exact fun text h => absurd h List.not_mem_nil
  | cons text texts ih =>
    have hfirst := hle text List.mem_cons_self
    have hrest := fun other hother => hle other (List.mem_cons_of_mem text hother)
    have htail := hall texts hrest
    rw [List.map_cons, List.map_cons, length_wire_cons, length_wire_cons] at hwire
    intro other hother
    rcases List.mem_cons.mp hother with rfl | hother
    · omega
    · exact ih hrest (by omega) other hother

theorem snprintf_of_short {size : ℕ} {text : Bytes} (hnul : nul ∉ text)
    (h : text.length ≤ size - 1) : snprintf size text = text := by
  rw [snprintf, cstr_of_no_nul hnul, List.take_of_length_le h]

theorem length_snprintf (size : ℕ) (text : Bytes) : (snprintf size text).length ≤ text.length := by
  rw [snprintf, List.length_take]
  exact (min_le_right _ _).trans (List.takeWhile_sublist _).length_le

theorem handleConnectingState_outgoing {k : Link} (hempty : k.session.outgoingOffset = 0)
    {c : ConnectAnswer} (hpeer : c.peer = true)
    (hroom : (wire ((lines k.session).map fun line =>
      snprintf 1024 (c.format (snprintf 256 line)))).length < libircBufferSize) :
    (handleConnectingState k c).2.session.outgoing =
      wire ((lines k.session).map fun line => snprintf 1024 (c.format (snprintf 256 line))) := by
  have hnot : ¬ c.peer = false := by simp [hpeer]
  rw [handleConnectingState, if_neg hnot, registration_eq, List.map_map]
  dsimp only
  rw [sendAll_outgoing rfl]
  · rw [List.map_map]
    change IrcParser.slice k.session.outgoingBuf 0 k.session.outgoingOffset ++ _ = _
    rw [hempty]
    rfl
  · rw [List.map_map]
    change k.session.outgoingOffset + _ < _
    rw [hempty, Nat.zero_add]
    exact hroom

theorem wire_room {texts : List Bytes} (hcount : texts.length ≤ 3)
    (hlength : ∀ text ∈ texts, text.length ≤ 255) : (wire texts).length < libircBufferSize := by
  have hwire : (wire texts).length ≤ 257 * texts.length := by
    clear hcount
    induction texts with
    | nil => exact le_refl _
    | cons text texts ih =>
      have hfirst := hlength text List.mem_cons_self
      have hrest := ih fun other hother => hlength other (List.mem_cons_of_mem text hother)
      rw [length_wire_cons, List.length_cons]
      omega
  have hsize : libircBufferSize = 2048 := rfl
  omega

theorem length_lines (s : IrcSession) : (lines s).length ≤ 3 := by
  unfold lines
  cases s.serverPassword <;> simp

theorem length_printed (line : Bytes) :
    (snprintf 1024 (sparing.format (snprintf 256 line))).length ≤ (snprintf 256 line).length :=
  (length_snprintf 1024 _).trans (length_sparing _).1

theorem length_snprintf_256 (line : Bytes) : (snprintf 256 line).length ≤ 255 := by
  rw [snprintf, List.length_take]
  exact min_le_left _ _

theorem verbatim_lines_iff {k : Link} (hempty : k.session.outgoingOffset = 0)
    (hnul : ∀ line ∈ lines k.session, nul ∉ line) :
    Verbatim k ↔ ∀ line ∈ lines k.session, percent ∉ line ∧ line.length ≤ 255 := by
  constructor
  · intro h
    have hprinted : ∀ text ∈ (lines k.session).map fun line =>
        snprintf 1024 (sparing.format (snprintf 256 line)), text.length ≤ 255 := by
      intro text htext
      obtain ⟨line, -, rfl⟩ := List.mem_map.mp htext
      exact (length_printed line).trans (length_snprintf_256 line)
    have hout := handleConnectingState_outgoing hempty (c := sparing) rfl
      (wire_room (by rw [List.length_map]; exact length_lines _) hprinted)
    rw [h sparing rfl sparing_documented] at hout
    have hlengths := length_eq_of_wire (b := id)
      (fun line (_ : line ∈ lines k.session) => (length_printed line).trans (length_snprintf 256 line))
      (by rw [List.map_id, ← hout])
    intro line hline
    have hlength : (snprintf 1024 (sparing.format (snprintf 256 line))).length = line.length :=
      hlengths line hline
    have hshort : line.length ≤ 255 := by
      have hcut := length_printed line
      have hbuf := length_snprintf_256 line
      omega
    refine ⟨fun hpercent => ?_, hshort⟩
    have hlt := (length_sparing line).2 hpercent
    have hle := length_snprintf 1024 (sparing.format line)
    rw [snprintf_of_short (hnul line hline) hshort] at hlength
    omega
  · intro h c hpeer hdocumented
    have hline : ∀ line ∈ lines k.session, snprintf 1024 (c.format (snprintf 256 line)) = line := by
      intro line hline
      obtain ⟨hpercent, hshort⟩ := h line hline
      have hno := hnul line hline
      rw [snprintf_of_short hno hshort, hdocumented line line (plainFormat_of_plain hpercent),
        snprintf_of_short hno (by omega)]
    have hmap : (lines k.session).map (fun line => snprintf 1024 (c.format (snprintf 256 line))) =
        lines k.session := (List.map_congr_left hline).trans (List.map_id _)
    have hout := handleConnectingState_outgoing hempty hpeer
      (by rw [hmap]; exact wire_room (length_lines _) fun line hl => (h line hl).2)
    rw [hout, hmap]

theorem forall_lines {s : IrcSession} {P : Bytes → Prop} : (∀ line ∈ lines s, P line) ↔
    (∀ password ∈ s.serverPassword, P (bytes "PASS " ++ password)) ∧ P (bytes "NICK " ++ s.nick) ∧
      P (bytes "USER " ++ s.nick ++ bytes " " ++ s.nick ++ bytes " unknown :" ++
        s.realname.getD (bytes "realname")) := by
  unfold lines
  cases s.serverPassword <;> simp

theorem not_mem_name {c : UInt8} (hdefault : c ∉ bytes "realname") (realname : Option Bytes) :
    c ∉ realname.getD (bytes "realname") ↔ ∀ name ∈ realname, c ∉ name := by
  cases realname with
  | none => simp [hdefault]
  | some name => simp

theorem not_mem_parts {c : UInt8} (hpass : c ∉ bytes "PASS ") (hnick : c ∉ bytes "NICK ")
    (huser : c ∉ bytes "USER " ++ bytes " " ++ bytes " unknown :") (hname : c ∉ bytes "realname")
    (s : IrcSession) : (∀ line ∈ lines s, c ∉ line) ↔
      (∀ password ∈ s.serverPassword, c ∉ password) ∧ c ∉ s.nick ∧
        ∀ realname ∈ s.realname, c ∉ realname := by
  simp only [List.mem_append, not_or] at huser
  rw [forall_lines, ← not_mem_name hname s.realname]
  simp only [List.mem_append, not_or, hpass, hnick, huser, true_and, not_false_eq_true, and_true]
  tauto

theorem length_lines_iff {s : IrcSession} (hnick : Detail s.nick)
    (hpassword : ∀ password ∈ s.serverPassword, Detail password) :
    (∀ line ∈ lines s, line.length ≤ 255) ↔
      2 * s.nick.length + (s.realname.getD (bytes "realname")).length + 16 ≤ 255 := by
  have hpass : (bytes "PASS ").length = 5 := rfl
  have hnickName : (bytes "NICK ").length = 5 := rfl
  have huser : (bytes "USER ").length = 5 := rfl
  have hunknown : (bytes " unknown :").length = 10 := rfl
  have hblank : (bytes " ").length = 1 := rfl
  have hshort := hnick.short
  rw [forall_lines]
  simp only [List.length_append, hpass, hnickName, huser, hunknown, hblank]
  constructor
  · rintro ⟨-, -, h⟩
    omega
  · intro h
    refine ⟨fun password hmem => ?_, by omega, by omega⟩
    have hp := (hpassword password hmem).short
    omega

/-- Of nick, password and name none may hold a percent sign, and `USER` has to fit its buffer. -/
theorem registration_verbatim_iff (k : Link) (hempty : k.session.outgoingOffset = 0)
    (hnick : Detail k.session.nick) (hpassword : ∀ password ∈ k.session.serverPassword, Detail password)
    (hrealname : ∀ realname ∈ k.session.realname, Detail realname) :
    Verbatim k ↔
      ((∀ password ∈ k.session.serverPassword, percent ∉ password) ∧ percent ∉ k.session.nick ∧
        ∀ realname ∈ k.session.realname, percent ∉ realname) ∧
      2 * k.session.nick.length + (k.session.realname.getD (bytes "realname")).length + 16 ≤ 255 := by
  have hnul : ∀ line ∈ lines k.session, nul ∉ line := by
    rw [not_mem_parts (by decide) (by decide) (by decide) (by decide)]
    exact ⟨fun p hp => (hpassword p hp).no_nul, hnick.no_nul, fun r hr => (hrealname r hr).no_nul⟩
  rw [verbatim_lines_iff hempty hnul, ← length_lines_iff hnick hpassword,
    ← not_mem_parts (by decide) (by decide) (by decide) (by decide)]
  exact forall₂_and

def registering (nick : String) : Link :=
  Link.open_ (connectingSession 3 false none (bytes nick) none)

/-- A doubled percent sign in the nick reaches the server as one. -/
theorem percent_sign_lost : ¬ Verbatim (registering "a%%b") := by
  intro h
  have hout := h sparing rfl sparing_documented
  revert hout
  decide

theorem detail_nick : Detail (bytes "nick") := ⟨by decide, by decide, by decide, by decide⟩

theorem registration_verbatim_nick : Verbatim (registering "nick") ↔
    ((∀ password ∈ (none : Option Bytes), percent ∉ password) ∧ percent ∉ bytes "nick" ∧
      ∀ realname ∈ (none : Option Bytes), percent ∉ realname) ∧
    2 * (bytes "nick").length + ((none : Option Bytes).getD (bytes "realname")).length + 16 ≤ 255 :=
  registration_verbatim_iff (registering "nick") rfl detail_nick (fun _ h => nomatch h)
    fun _ h => nomatch h

end Xdccget.Registration
