import Xdccget.LineSteps
import Xdccget.NickFaults

set_option autoImplicit false

/-!
# Which parts of a line the handlers follow

Each handler guards its optional parts itself. Run on a parsed line, four of them
follow a pointer that is not there, and each does so in one situation only.
-/
namespace Xdccget.ParameterUse
open DccEvents (libircDccRequest)
open CText IrcParser IrcParserCarry LineWords LineParser LineOwnership DccMessages ClientState Downloads
  HaltingPrograms StepRuns Commands HandlerOutcomes LineSteps NickFaults

/-- The handler has followed a parameter behind `num_params`, a string of another line, or `NULL`. -/
def Misuse : Fault → Prop
  | .nullString => True
  | .behindParams => True
  | .staleString => True
  | .client h => h = .nullNick

instance : DecidablePred Misuse := fun fault => by cases fault <;> unfold Misuse <;> infer_instance

def UsesOk (env : LineEnv) (s : LineSession) (line : Bytes) : Prop :=
  Avoids Misuse (libircProcessIncomingData env line) s

/-- The DCC request comes without a nick, and there are bots to compare it with. -/
def StrangerUnnamed (s : LineSession) : Prop :=
  s.line.result.nick = none ∧ s.client.cfg.acceptAllNicks = false ∧
    s.client.cfg.dccDownloadArray.getD [] ≠ []

def MisusedBy : IrcCommand → LineSession → Prop
  | .nick, s => s.line.result.nick = none
  | .notice, s => s.line.result.numParams ≤ 1
  | .mode, s =>
    s.line.result.numParams = 1 ∧ s.loginCommand.isSome = true ∧
      (s.line.result.params 0).any (fun target => strnEquals target.text s.nick (strlen s.nick)) = true
  | .privmsg, s =>
    1 < s.line.result.numParams ∧
      (s.line.result.params 1).any (fun body =>
        isCtcpRequest body.text && isDccRequest (ctcpBuf body.text libircBufferSize)) = true ∧
      StrangerUnnamed s
  | _, _ => False

instance (s : LineSession) : Decidable (StrangerUnnamed s) := by
  unfold StrangerUnnamed
  infer_instance

instance (handler : IrcCommand) (s : LineSession) : Decidable (MisusedBy handler s) := by
  cases handler <;> unfold MisusedBy <;> infer_instance

def Misused (s : LineSession) : Prop := ∃ handler ∈ handlerOf s.line.result, MisusedBy handler s

def MisusingLine (s : LineSession) (line : Bytes) : Prop := Ends s line ∧ Misused (entered s line)

instance (env : LineEnv) (s : LineSession) (line : Bytes) : Decidable (UsesOk env s line) := by
  unfold UsesOk
  infer_instance

instance (s : LineSession) (line : Bytes) : Decidable (MisusingLine s line) := by
  unfold MisusingLine Misused
  infer_instance

def LiveParams (s : LineSession) : Prop :=
  ∀ i < s.line.result.numParams, ∃ str, s.line.result.params i = some str ∧
    Live s.lineStart s.line str

section reading
variable {s : LineSession}

theorem deref_run {str : Str} (h : Live s.lineStart s.line str) :
    (deref (some str)).run s = .ok str.text s := by
  have hlive : ¬ (str.id < s.lineStart ∨ str.id ∈ s.line.freed) := by
    rintro (hlt | hmem)
    · exact absurd h.1 (by omega)
    · exact h.2 hmem
  simp [deref, EStateM.run_bind, hlive]

theorem param_run {i : ℕ} {str : Str} (hi : i < s.line.result.numParams)
    (hstr : s.line.result.params i = some str) (h : Live s.lineStart s.line str) :
    (param i).run s = .ok str.text s := by
  have hread := deref_run h
  rw [← hstr] at hread
  have hnot : ¬ s.line.result.numParams ≤ i := by omega
  simp only [param, EStateM.run_bind, EStateM.run_get, hnot, if_false]
  exact hread

theorem param_run_of_behind {i : ℕ} (hi : s.line.result.numParams ≤ i) :
    (param i).run s = .error .behindParams s := by
  simp [param, EStateM.run_bind, hi]

theorem LiveParams.of_same {t : LineSession} (h : LiveParams s) (hsame : Same s t) : LiveParams t := by
  unfold LiveParams
  rw [hsame.line, hsame.lineStart]
  exact h

end reading

/-- On a line whose parameters are there the program returns and leaves the result alone. -/
def Reader {α : Type} (s₀ : LineSession) (x : HandlerM α) : Prop := Keeps (Same s₀) x

section readers
variable {α β : Type} {s₀ : LineSession}

theorem reader_pure (a : α) : Reader s₀ (pure a) := silent_pure a s₀

theorem reader_bind {x : HandlerM β} {f : β → HandlerM α} (hx : Reader s₀ x)
    (hf : ∀ b, Reader s₀ (f b)) : Reader s₀ (x >>= f) := ensures_bind hx hf

theorem reader_get_bind {f : LineSession → HandlerM α} (hf : ∀ s, Same s₀ s → Reader s₀ (f s)) :
    Reader s₀ (get >>= f) :=
  ensures_get_bind fun s hs =>
    (hf s hs).weaken (fun _ ht => ht ▸ hs) (fun _ _ ht => ht) fun _ h => h

theorem reader_ite {c : Prop} [Decidable c] {x y : HandlerM α} (hx : c → Reader s₀ x)
    (hy : ¬ c → Reader s₀ y) : Reader s₀ (if c then x else y) := ensures_ite hx hy

theorem reader_param (h : LiveParams s₀) {i : ℕ} (hi : i < s₀.line.result.numParams) :
    Reader s₀ (param i) := by
  intro t ht
  have hi' : i < t.line.result.numParams := by rw [ht.line]; exact hi
  obtain ⟨str, hstr, hlive⟩ := h.of_same ht i hi'
  rw [param_run hi' hstr hlive]
  exact ht

theorem reader_dumpEvent (h : LiveParams s₀) : Reader s₀ dumpEvent := by
  have hloop (l : List ℕ) (hl : ∀ i ∈ l, i < s₀.line.result.numParams) :
      Reader s₀ (l.forM fun cnt => discard (param cnt)) := by
    induction l with
    | nil => exact reader_pure _
    | cons i l ih =>
      exact reader_bind (ensures_discard (reader_param h (hl i List.mem_cons_self))) fun _ =>
        ih fun j hj => hl j (List.mem_cons_of_mem i hj)
  apply reader_get_bind
  intro s hs
  apply hloop
  intro i hi
  rw [← hs.line]
  exact List.mem_range.mp hi

theorem Reader.run {x : HandlerM α} (h : Reader s₀ x) : ∃ a t, x.run s₀ = .ok a t ∧ Same s₀ t :=
  Keeps.exists_ok h (Same.refl s₀)

theorem Reader.avoids {x : HandlerM α} (h : Reader s₀ x) : Avoids Misuse x s₀ := by
  obtain ⟨a, t, hrun, -⟩ := h.run
  exact avoids_of_ok hrun

theorem reader_eventConnect (h : LiveParams s₀) : Reader s₀ eventConnect :=
  reader_bind (reader_dumpEvent h) fun _ => onConnectEvent_silent s₀

theorem reader_connectOnMotd (h : LiveParams s₀) (code : ℕ) : Reader s₀ (connectOnMotd code) := by
  have hset : Silent (modify fun s : LineSession => { s with motdReceived := true }) :=
    silent_modify (fun _ => rfl) (fun _ => rfl) (fun _ => rfl) fun _ => rfl
  exact reader_get_bind fun _ _ => reader_ite
    (fun _ => reader_bind (hset s₀) fun _ => reader_eventConnect h) fun _ => reader_pure _

theorem reader_eventNumeric (h : LiveParams s₀) (code : ℕ) : Reader s₀ (eventNumeric code) := by
  apply reader_get_bind
  intro s hs
  apply reader_ite
  · intro hc
    rw [hs.line] at hc
    exact reader_bind (reader_dumpEvent h) fun _ =>
      ensures_discard (reader_param h (by omega))
  · exact fun _ => reader_pure _

theorem reader_eventMode (h : LiveParams s₀) : Reader s₀ eventMode := by
  apply reader_get_bind
  intro s hs
  apply reader_ite
  · intro hc
    rw [hs.line] at hc
    exact reader_bind (reader_param h hc.2) fun _ =>
      reader_ite (fun _ => sendXdccRequests_silent s₀) fun _ => reader_pure _
  · exact fun _ => reader_pure _

theorem reader_eventUmode (h : LiveParams s₀) (hparam : 0 < s₀.line.result.numParams) :
    Reader s₀ eventUmode :=
  reader_get_bind fun _ _ => reader_ite
    (fun _ => reader_bind (reader_param h hparam) fun _ =>
      reader_ite (fun _ => joinChannels_silent s₀) fun _ => reader_pure _)
    fun _ => reader_pure _

theorem reader_checkMD5ChecksumNotice (h : LiveParams s₀) (event : Bytes) :
    Reader s₀ (checkMD5ChecksumNotice event) := by
  apply reader_get_bind
  intro s hs
  apply reader_ite
  · exact fun _ => reader_pure _
  · intro hc
    rw [hs.line] at hc
    refine reader_bind (reader_param h (by omega)) fun text => ?_
    cases extractMD5 text with
    | none => exact reader_pure _
    | some md5 => exact useMD5_silent md5 s₀

theorem reader_checkConnectedEvent (h : LiveParams s₀) (event : Bytes) :
    Reader s₀ (checkConnectedEvent event) := by
  apply reader_get_bind
  intro s hs
  apply reader_ite
  · exact fun _ => reader_pure _
  · intro hc
    rw [hs.line] at hc
    exact reader_bind (reader_param h (by omega)) fun _ =>
      reader_ite (fun _ => onConnectEvent_silent s₀) fun _ => reader_pure _

theorem reader_eventNotice (h : LiveParams s₀) (event : Bytes) : Reader s₀ (eventNotice event) :=
  reader_bind (reader_dumpEvent h) fun _ =>
    reader_bind (reader_checkMD5ChecksumNotice h event) fun _ => reader_checkConnectedEvent h event

theorem reader_libircEventCtcpInternal (h : LiveParams s₀) (hparam : 0 < s₀.line.result.numParams)
    (hhost : ∀ str, s₀.line.result.host = some str → Live s₀.lineStart s₀.line str) (env : LineEnv) :
    Reader s₀ (libircEventCtcpInternal env) := by
  apply reader_get_bind
  intro s hs
  cases horigin : s.line.result.host with
  | none => exact reader_pure _
  | some origin =>
    have hread : Reader s₀ (deref (some origin)) := by
      intro t ht
      have hlive : Live t.lineStart t.line origin := by
        rw [ht.line, ht.lineStart]
        exact hhost origin (by rw [← hs.line]; exact horigin)
      rw [deref_run hlive]
      exact ht
    refine reader_bind hread fun target => reader_bind (reader_param h hparam) fun request => ?_
    cases ctcpReply env s request with
    | none => exact reader_pure _
    | some reply => exact send_silent _ s₀

end readers

section handlers
variable {s : LineSession} {env : LineEnv}

theorem avoids_get_bind_iff {f : LineSession → HandlerM Unit} :
    Avoids Misuse (get >>= f) s ↔ Avoids Misuse (f s) s := avoids_bind_iff_of_ok rfl

theorem avoids_setLine_bind_iff {f : LineState → LineState} {x : HandlerM Unit} :
    Avoids Misuse (setLine f >>= fun _ => x) s ↔ Avoids Misuse x { s with line := f s.line } :=
  avoids_bind_iff_of_ok rfl

/-- Parameter `i` of a parsed line, with the text it has. -/
theorem parsed_param_run (h : Parsed s.lineStart s.line) {i : ℕ} (hi : i < s.line.result.numParams) :
    ∃ str, s.line.result.params i = some str ∧ (param i).run s = .ok str.text s := by
  obtain ⟨str, hstr, hlive⟩ := h.params i hi
  exact ⟨str, hstr, param_run hi hstr hlive⟩

/-- A string that the handler puts into slot `i` is one of this line. -/
theorem replaced_params (h : Parsed s.lineStart s.line) {i n : ℕ} (text : Bytes)
    (hn : ∀ j < n, j ≠ i → j < s.line.result.numParams) :
    LiveParams { s with line := replaceParam i text n s.line } := by
  intro j hj
  by_cases hji : j = i
  · subst hji
    exact ⟨_, replaceParam_self _ _ _ _, h.live_new _⟩
  · obtain ⟨str, hstr, hlive⟩ := h.params j (hn j hj hji)
    exact ⟨str, (replaceParam_of_ne hji _ _ _).trans hstr, hlive⟩

theorem replied_params (h : Parsed s.lineStart s.line) (text : Bytes) :
    LiveParams { s with line := replyToNotice text s.line } := by
  intro j hj
  change j < 1 at hj
  have hzero : j = 0 := by omega
  subst hzero
  refine ⟨_, replaceParam_self _ _ _ _, h.start_le, ?_⟩
  change s.line.allocated ∉ s.line.freed ++ (paramStrs s.line.result).map (·.id)
  intro hmem
  rcases List.mem_append.mp hmem with hfreed | hparam
  · exact absurd (h.freed_lt _ hfreed) (Nat.not_lt.mpr h.start_le)
  · obtain ⟨str, hstr, hid⟩ := List.mem_map.mp hparam
    obtain ⟨i, -, hi⟩ := List.mem_filterMap.mp hstr
    exact absurd (h.stored_lt i str hi) (by omega)

theorem ircPingCommand_avoids (h : Parsed s.lineStart s.line) : Avoids Misuse ircPingCommand s := by
  apply avoids_get_bind_iff.mpr
  by_cases hnone : s.line.result.params 0 = none
  · rw [if_pos hnone]
    exact avoids_of_ok rfl
  · have hi : 0 < s.line.result.numParams := by
      by_contra hzero
      exact hnone (h.first (by omega))
    obtain ⟨str, -, hrun⟩ := parsed_param_run h hi
    rw [if_neg hnone]
    apply (avoids_bind_iff_of_ok hrun).mpr
    exact Reader.avoids (send_silent _ s)

theorem ircNickCommand_avoids_iff (h : Parsed s.lineStart s.line) :
    Avoids Misuse ircNickCommand s ↔ ¬ MisusedBy .nick s := by
  apply avoids_get_bind_iff.trans
  change _ ↔ ¬ s.line.result.nick = none
  cases hnick : s.line.result.nick with
  | none =>
    have hrun : (deref none).run s = .error .nullString s := rfl
    apply (avoids_iff_of_error (run_bind_of_error hrun)).trans
    simp [Misuse]
  | some nick =>
    refine iff_of_true ((avoids_bind_iff_of_ok (deref_run (h.nick nick hnick))).mpr ?_) (by simp)
    split
    · next hc =>
      obtain ⟨str, -, hrun⟩ := parsed_param_run h hc.2
      exact (avoids_bind_iff_of_ok hrun).mpr (avoids_of_ok rfl)
    · exact avoids_of_ok rfl

theorem param_run_of_moved (h : Parsed s.lineStart s.line) (hone : s.line.result.numParams = 1) :
    ∃ fault, (param 0).run { s with line := moveMode s.line } =
      .error fault { s with line := moveMode s.line } ∧ Misuse fault := by
  have hzero : ¬ (moveMode s.line).result.numParams ≤ 0 := Nat.not_succ_le_zero 0
  cases hstr : s.line.result.params 1 with
  | none =>
    refine ⟨.nullString, ?_, trivial⟩
    simp only [param, EStateM.run_bind, EStateM.run_get, hzero, if_false, moveMode_zero, hstr]
    rfl
  | some str =>
    have hold : str.id < s.lineStart := h.behind 1 (by omega) str hstr
    refine ⟨.staleString, ?_, trivial⟩
    simp only [param, EStateM.run_bind, EStateM.run_get, hzero, if_false, moveMode_zero, hstr]
    simp [deref, EStateM.run_bind, hold]

theorem eventUmode_moved_avoids_iff (h : Parsed s.lineStart s.line)
    (hparam : 0 < s.line.result.numParams) :
    Avoids Misuse eventUmode { s with line := moveMode s.line } ↔
      ¬ (s.line.result.numParams = 1 ∧ s.loginCommand.isSome = true) := by
  by_cases hone : s.line.result.numParams = 1
  · apply avoids_get_bind_iff.trans
    simp only [hone, true_and]
    by_cases hlogin : s.loginCommand.isSome = true
    · obtain ⟨fault, hrun, hmisuse⟩ := param_run_of_moved h hone
      rw [if_pos hlogin]
      exact (avoids_iff_of_error (run_bind_of_error hrun)).trans
        (iff_of_false (not_not_intro hmisuse) (not_not_intro hlogin))
    · rw [if_neg hlogin]
      exact iff_of_true (avoids_of_ok rfl) hlogin
  · refine iff_of_true (Reader.avoids (reader_eventUmode ?_ ?_)) fun hc => hone hc.1
    · intro j hj
      change j < 1 at hj
      have hzero : j = 0 := by omega
      subst hzero
      obtain ⟨str, hstr, hlive⟩ := h.params 1 (by omega)
      exact ⟨str, (moveMode_zero s.line).trans hstr, hlive⟩
    · exact Nat.one_pos

theorem ircModeCommand_avoids_iff (h : Parsed s.lineStart s.line) :
    Avoids Misuse ircModeCommand s ↔ ¬ MisusedBy .mode s := by
  apply avoids_get_bind_iff.trans
  by_cases hi : 0 < s.line.result.numParams
  · obtain ⟨str, hstr, hrun⟩ := parsed_param_run h hi
    rw [if_pos hi]
    apply (avoids_bind_iff_of_ok hrun).trans
    by_cases hown : strnEquals str.text s.nick (strlen s.nick) = true
    · rw [if_pos hown]
      apply avoids_setLine_bind_iff.trans
      apply (eventUmode_moved_avoids_iff h hi).trans
      simp [MisusedBy, hstr, hown]
    · rw [if_neg hown]
      refine iff_of_true (Reader.avoids (reader_eventMode h.params)) ?_
      rintro ⟨-, -, hmatch⟩
      rw [hstr] at hmatch
      exact hown hmatch
  · rw [if_neg hi]
    refine iff_of_true (Reader.avoids (reader_eventMode h.params)) ?_
    rintro ⟨hone, -⟩
    omega

theorem dccRequest_avoids_iff (req : Bytes) (env : LineEnv) :
    Avoids Misuse (onClient (libircDccRequest env.dcc (s.line.result.nick.map (·.text)) req)) s ↔
      ¬ StrangerUnnamed s := by
  have hclient : Avoids Misuse
      (onClient (libircDccRequest env.dcc (s.line.result.nick.map (·.text)) req)) s ↔
      Avoids (· = Halt.nullNick)
        (libircDccRequest env.dcc (s.line.result.nick.map (·.text)) req) s.client := by
    cases hrun : (libircDccRequest env.dcc (s.line.result.nick.map (·.text)) req).run s.client with
    | ok a c =>
      have hok : (onClient (libircDccRequest env.dcc (s.line.result.nick.map (·.text)) req)).run s =
          .ok a { s with client := c } := by
        rw [onClient_run, hrun]
      exact iff_of_true (avoids_of_ok hok) (avoids_of_ok hrun)
    | error halt c =>
      have herror : (onClient (libircDccRequest env.dcc (s.line.result.nick.map (·.text)) req)).run s =
          .error (.client halt) { s with client := c } := by
        rw [onClient_run, hrun]
      have hleft : Avoids Misuse _ s ↔ ¬ Misuse (.client halt) := avoids_iff_of_error herror
      have hright : Avoids (· = Halt.nullNick) _ s.client ↔ ¬ halt = .nullNick :=
        avoids_iff_of_error hrun
      exact hleft.trans hright.symm
  apply hclient.trans
  apply (libircDccRequest_avoids_iff _ _ _ _).trans
  unfold StrangerUnnamed isValidRequestFromNick
  cases s.line.result.nick with
  | some nick =>
    cases s.client.cfg.dccDownloadArray with
    | none => simp
    | some dccDownloads => cases s.client.cfg.acceptAllNicks <;> simp
  | none =>
    cases s.client.cfg.dccDownloadArray with
    | none => simp
    | some dccDownloads =>
      cases s.client.cfg.acceptAllNicks <;> cases dccDownloads <;> simp

theorem handleCtcpRequest_avoids_iff (h : Parsed s.lineStart s.line)
    (hi : 1 < s.line.result.numParams) {body : Str} (hbody : s.line.result.params 1 = some body) :
    Avoids Misuse (handleCtcpRequest env) s ↔
      ¬ (isDccRequest (ctcpBuf body.text libircBufferSize) = true ∧ StrangerUnnamed s) := by
  obtain ⟨str, hstr, hrun⟩ := parsed_param_run h hi
  have hsame : str = body := Option.some.inj (hstr.symm.trans hbody)
  rw [hsame] at hrun
  apply (avoids_bind_iff_of_ok hrun).trans
  generalize ctcpBuf body.text libircBufferSize = buf
  unfold Handling.handleCtcpText
  by_cases hdcc : isDccRequest buf = true
  · rw [if_pos hdcc]
    apply avoids_get_bind_iff.trans
    simp only [hdcc, true_and]
    exact dccRequest_avoids_iff buf env
  · rw [if_neg hdcc]
    refine iff_of_true ?_ fun hc => hdcc hc.1
    by_cases haction : isActionMessage buf = true
    · rw [if_pos haction]
      apply avoids_setLine_bind_iff.mpr
      exact Reader.avoids (reader_dumpEvent (replaced_params h _ fun j hj _ => by omega))
    · rw [if_neg haction]
      apply avoids_setLine_bind_iff.mpr
      refine Reader.avoids (reader_libircEventCtcpInternal
        (replaced_params h _ fun j hj _ => by omega) Nat.one_pos ?_ env)
      exact fun origin horigin => h.host origin horigin

theorem ircPrivmsgCommand_avoids_iff (h : Parsed s.lineStart s.line) :
    Avoids Misuse (ircPrivmsgCommand env) s ↔ ¬ MisusedBy .privmsg s := by
  apply avoids_get_bind_iff.trans
  by_cases hi : s.line.result.numParams ≤ 1
  · rw [if_pos hi]
    refine iff_of_true (avoids_of_ok rfl) ?_
    rintro ⟨htwo, -⟩
    omega
  · obtain ⟨body, hbody, hrun⟩ := parsed_param_run h (show 1 < s.line.result.numParams by omega)
    rw [if_neg hi]
    apply (avoids_bind_iff_of_ok hrun).trans
    by_cases hctcp : isCtcpRequest body.text = true
    · rw [if_pos hctcp]
      apply (handleCtcpRequest_avoids_iff h (by omega) hbody).trans
      have htwo : 1 < s.line.result.numParams := by omega
      simp only [MisusedBy, hbody, Option.any_some, hctcp, Bool.true_and, htwo, true_and]
    · rw [if_neg hctcp]
      obtain ⟨target, -, hread⟩ := parsed_param_run h (show 0 < s.line.result.numParams by omega)
      refine iff_of_true ((avoids_bind_iff_of_ok hread).mpr ?_) ?_
      · split
        · exact Reader.avoids (reader_dumpEvent h.params)
        · exact avoids_of_ok rfl
      · rintro ⟨-, hmatch, -⟩
        simp [hbody, hctcp] at hmatch

theorem ircNoticeCommand_avoids_iff (h : Parsed s.lineStart s.line) (event : Bytes) :
    Avoids Misuse (ircNoticeCommand event) s ↔ ¬ MisusedBy .notice s := by
  change _ ↔ ¬ s.line.result.numParams ≤ 1
  by_cases hi : s.line.result.numParams ≤ 1
  · have hrun := run_bind_of_error (param_run_of_behind hi) (f := fun text => do
      let s ← get
      if 1 < s.line.result.numParams ∧ isCtcpRequest text then
        setLine (replyToNotice text)
        dumpEvent
      else if isPrivateMessage (← param 0) s.nick then
        eventNotice event)
    exact (avoids_iff_of_error hrun).trans (by simp [Misuse, hi])
  · refine iff_of_true ?_ hi
    obtain ⟨text, -, hrun⟩ := parsed_param_run h (show 1 < s.line.result.numParams by omega)
    apply (avoids_bind_iff_of_ok hrun).mpr
    apply avoids_get_bind_iff.mpr
    split
    · apply avoids_setLine_bind_iff.mpr
      exact Reader.avoids (reader_dumpEvent (replied_params h _))
    · obtain ⟨target, -, hread⟩ := parsed_param_run h (show 0 < s.line.result.numParams by omega)
      apply (avoids_bind_iff_of_ok hread).mpr
      split
      · exact Reader.avoids (reader_eventNotice h.params event)
      · exact avoids_of_ok rfl

theorem execute_avoids_iff (h : Parsed s.lineStart s.line) (handler : IrcCommand)
    (command : Bytes) : Avoids Misuse (handler.execute env command) s ↔ ¬ MisusedBy handler s := by
  have hnever {P : Prop} (hP : ¬ P) {x : HandlerM Unit} (hx : Avoids Misuse x s) :
      Avoids Misuse x s ↔ ¬ P := iff_of_true hx hP
  cases handler with
  | ping => exact hnever (fun hP => hP) (ircPingCommand_avoids h)
  | nick => exact ircNickCommand_avoids_iff h
  | join => exact hnever (fun hP => hP) (Reader.avoids (eventJoin_silent s))
  | mode => exact ircModeCommand_avoids_iff h
  | privmsg => exact ircPrivmsgCommand_avoids_iff h
  | notice => exact ircNoticeCommand_avoids_iff h command
  | unknown => exact hnever (fun hP => hP) (Reader.avoids (reader_dumpEvent h.params))
  | quit | part | topic | kick | invite | kill => exact hnever (fun hP => hP) (avoids_of_ok rfl)

end handlers

section lines
variable {s : LineSession}

theorem handlerOf_eq {command : Str} (h : s.line.result.command = some command) :
    handlerOf s.line.result = if isNumericCommand command.text then none
      else some (getCommand command.text (strlen command.text)) := by
  rw [handlerOf, h, Option.bind_some]

theorem handleNumeric_avoids (h : LiveParams s) (command : Bytes) :
    Avoids Misuse (handleNumeric command) s := by
  let d : Dispatch := .numeric (digitsValue command) command
  obtain ⟨_, t, hrun, hsame⟩ := (reader_connectOnMotd h (digitsValue command)).run
  have hlive : LiveParams t := h.of_same hsame
  have hdispatch : (dispatch d).run t = .ok ⟨⟩ { t with dispatched := t.dispatched ++ [d] } := rfl
  apply (avoids_bind_iff_of_ok hrun).mpr
  apply (avoids_bind_iff_of_ok hdispatch).mpr
  exact Reader.avoids (@reader_eventNumeric { t with dispatched := t.dispatched ++ [d] } hlive _)

theorem handleCommand_avoids_iff (h : Parsed s.lineStart s.line) (env : LineEnv) (command : Bytes) :
    Avoids Misuse (handleCommand env command) s ↔
      ¬ MisusedBy (getCommand command (strlen command)) s := by
  let handler := getCommand command (strlen command)
  let d : Dispatch := .command handler command
  let s' : LineSession := { s with dispatched := s.dispatched ++ [d] }
  have hdispatch : (dispatch d).run s = .ok ⟨⟩ s' := rfl
  have hparsed : Parsed s'.lineStart s'.line := h
  have hkept : MisusedBy handler s' ↔ MisusedBy handler s := by cases handler <;> exact Iff.rfl
  apply (avoids_bind_iff_of_ok hdispatch).trans
  exact (execute_avoids_iff hparsed handler command).trans (not_congr hkept)

theorem handleParserResult_avoids_iff (h : Parsed s.lineStart s.line) (env : LineEnv) :
    Avoids Misuse (handleParserResult env) s ↔ ¬ Misused s := by
  apply avoids_get_bind_iff.trans
  unfold Misused
  cases hcommand : s.line.result.command with
  | none => exact iff_of_true (avoids_of_ok rfl) (by simp [handlerOf, hcommand])
  | some command =>
    rw [handlerOf_eq hcommand]
    dsimp only
    by_cases hnumeric : isNumericCommand command.text = true
    · rw [if_pos hnumeric, if_pos hnumeric]
      exact iff_of_true (handleNumeric_avoids h.params _) (by simp)
    · rw [if_neg hnumeric, if_neg hnumeric]
      exact (handleCommand_avoids_iff h env command.text).trans (by simp)

theorem process_avoids_iff (hbetween : Between s) (hlive : s.halted = none) (env : LineEnv)
    {line : Bytes} (hblock : IsBlock line) : UsesOk env s line ↔ ¬ MisusingLine s line := by
  obtain ⟨⟨c, hholds⟩, hsettled⟩ := hbetween hlive
  unfold MisusingLine
  by_cases hends : Ends s line
  · have hentered := handleParserResult_avoids_iff (entered_parsed hsettled line) env
    have hfree : Avoids Misuse (handleParserResult env >>= fun _ => setLine freeParserResult)
        (entered s line) ↔ Avoids Misuse (handleParserResult env) (entered s line) := by
      cases hrun : (handleParserResult env).run (entered s line) with
      | ok a t => exact iff_of_true ((avoids_bind_iff_of_ok hrun).mpr (avoids_of_ok rfl)) (avoids_of_ok hrun)
      | error fault t =>
        exact (avoids_iff_of_error (run_bind_of_error hrun)).trans (avoids_iff_of_error hrun).symm
    have hprocess : UsesOk env s line ↔
        Avoids Misuse (handleParserResult env >>= fun _ => setLine freeParserResult)
          (entered s line) := by
      unfold UsesOk Avoids
      rw [process_of_ends hholds hblock hends]
    rw [hprocess, hfree, hentered]
    simp [hends]
  · exact iff_of_true (avoids_of_ok (process_of_not_ends hends)) fun h => hends h.1

end lines

/-- After any lines that the session has survived, the handlers of the next line follow only what it
    has, except in the four situations. -/
theorem usesOk_iff (s : LineSession) {lines : List (LineEnv × Bytes)}
    (hblocks : ∀ e ∈ lines, IsBlock e.2) (hlive : (run step (fresh s) lines).halted = none)
    (env : LineEnv) {line : Bytes} (hblock : IsBlock line) :
    UsesOk env (run step (fresh s) lines) line ↔ ¬ MisusingLine (run step (fresh s) lines) line :=
  process_avoids_iff (between_run s hblocks) hlive env hblock

def greetingLine : Bytes := bytes ":irc.x NOTICE me :hello\x0d\x0a"

def ownModeLine : Bytes := bytes "MODE me\x0d\x0a"

/-- Without a login command nobody looks at the mode. -/
theorem usesOk_after_greeting :
    UsesOk lineEnv (run step (fresh (newSession none)) [(lineEnv, greetingLine)]) ownModeLine := by
  have hblocks : ∀ e ∈ [(lineEnv, greetingLine)], IsBlock e.2 := by
    intro e he
    rw [List.mem_singleton.mp he]
    decide +kernel
  have hlive : (run step (fresh (newSession none)) [(lineEnv, greetingLine)]).halted = none := by
    decide +kernel
  have hblock : IsBlock ownModeLine := by decide +kernel
  exact (usesOk_iff (newSession none) hblocks hlive lineEnv hblock).mpr (by decide +kernel)

def namelessNickLine : Bytes := bytes "NICK x\x0d\x0a"

def shortNoticeLine : Bytes := bytes "NOTICE me\x0d\x0a"

def namelessOfferLine : Bytes := bytes "PRIVMSG me :\x01DCC SEND f 1 2 3\x01\x0d\x0a"

/-- Each of the four situations comes up on the first line of a session. -/
theorem missing_parts_followed :
    (IsBlock namelessNickLine ∧ ¬ UsesOk lineEnv (fresh (newSession none)) namelessNickLine) ∧
      (IsBlock shortNoticeLine ∧ ¬ UsesOk lineEnv (fresh (newSession none)) shortNoticeLine) ∧
      (IsBlock ownModeLine ∧
        ¬ UsesOk lineEnv (fresh (newSession (some (bytes "NickServ identify p")))) ownModeLine) ∧
      (IsBlock namelessOfferLine ∧
        ¬ UsesOk lineEnv (fresh (newSession none)) namelessOfferLine) := by
  decide +kernel

end Xdccget.ParameterUse
