import Xdccget.Commands
import Xdccget.SessionSpecs

set_option autoImplicit false

/-!
# What a handler can do to the result

Most handlers only read the result. Four branches put a string of their own, or
a parameter, into another parameter's place.
-/
namespace Xdccget.HandlerOutcomes
open CText IrcParser LineParser DccMessages ClientState DccEvents HaltingPrograms SessionSpecs Commands

/-- Handlers do not touch the parser, and the record of dispatches is not theirs. -/
structure Framed (s t : LineSession) : Prop where
  parser : t.parser = s.parser
  dispatched : t.dispatched = s.dispatched

structure Same (s t : LineSession) : Prop extends Framed s t where
  line : t.line = s.line
  lineStart : t.lineStart = s.lineStart

theorem Same.refl (s : LineSession) : Same s s := ⟨⟨rfl, rfl⟩, rfl, rfl⟩

def Quiet {α : Type} (x : HandlerM α) : Prop :=
  ∀ s₀, Ensures (Same s₀) x (fun _ => Same s₀) (Framed s₀)

def Silent {α : Type} (x : HandlerM α) : Prop := ∀ s₀, Keeps (Same s₀) x

section rules
variable {α β : Type}

theorem Silent.quiet {x : HandlerM α} (h : Silent x) : Quiet x := fun s₀ =>
  (h s₀).weaken (fun _ hs => hs) (fun _ _ ht => ht) fun _ => False.elim

theorem Silent.run {x : HandlerM α} (h : Silent x) (s : LineSession) :
    ∃ a t, x.run s = .ok a t ∧ Same s t := (h s).exists_ok (Same.refl s)

theorem silent_pure (a : α) : Silent (pure a) := fun _ => ensures_pure fun _ h => h

theorem silent_modify {f : LineSession → LineSession} (hparser : ∀ s, (f s).parser = s.parser)
    (hdispatched : ∀ s, (f s).dispatched = s.dispatched) (hline : ∀ s, (f s).line = s.line)
    (hstart : ∀ s, (f s).lineStart = s.lineStart) : Silent (modify f : HandlerM PUnit) := fun _ =>
  ensures_modify fun s h => ⟨⟨(hparser s).trans h.parser, (hdispatched s).trans h.dispatched⟩,
    (hline s).trans h.line, (hstart s).trans h.lineStart⟩

theorem silent_bind {x : HandlerM β} {f : β → HandlerM α} (hx : Silent x) (hf : ∀ b, Silent (f b)) :
    Silent (x >>= f) := fun s₀ => ensures_bind (hx s₀) fun b => hf b s₀

theorem silent_get_bind {f : LineSession → HandlerM α} (hf : ∀ s, Silent (f s)) :
    Silent (get >>= f) := fun s₀ =>
  ensures_get_bind fun s hs =>
    (hf s s₀).weaken (fun _ ht => ht ▸ hs) (fun _ _ ht => ht) fun _ h => h

theorem silent_ite {c : Prop} [Decidable c] {x y : HandlerM α} (hx : Silent x) (hy : Silent y) :
    Silent (if c then x else y) := fun s₀ => ensures_ite (fun _ => hx s₀) fun _ => hy s₀

theorem silent_forM {l : List β} {f : β → HandlerM PUnit} (hf : ∀ b, Silent (f b)) :
    Silent (l.forM f) := by
  induction l with
  | nil => exact silent_pure _
  | cons b l ih => exact silent_bind (hf b) fun _ => ih

theorem quiet_pure (a : α) : Quiet (pure a) := (silent_pure a).quiet

theorem quiet_throw (fault : Fault) : Quiet (throw fault : HandlerM α) := fun _ =>
  ensures_throw fun _ h => h.toFramed

theorem quiet_bind {x : HandlerM β} {f : β → HandlerM α} (hx : Quiet x) (hf : ∀ b, Quiet (f b)) :
    Quiet (x >>= f) := fun s₀ => ensures_bind (hx s₀) fun b => hf b s₀

theorem quiet_get_bind {f : LineSession → HandlerM α} (hf : ∀ s, Quiet (f s)) :
    Quiet (get >>= f) := fun s₀ =>
  ensures_get_bind fun s hs =>
    (hf s s₀).weaken (fun _ ht => ht ▸ hs) (fun _ _ ht => ht) fun _ h => h

theorem quiet_ite {c : Prop} [Decidable c] {x y : HandlerM α} (hx : Quiet x) (hy : Quiet y) :
    Quiet (if c then x else y) := fun s₀ => ensures_ite (fun _ => hx s₀) fun _ => hy s₀

theorem quiet_discard {x : HandlerM α} (hx : Quiet x) : Quiet (discard x) := fun s₀ =>
  ensures_discard (hx s₀)

theorem quiet_forM {l : List β} {f : β → HandlerM PUnit} (hf : ∀ b, Quiet (f b)) :
    Quiet (l.forM f) := by
  induction l with
  | nil => exact quiet_pure _
  | cons b l ih => exact quiet_bind (hf b) fun _ => ih

theorem onClient_run (x : ClientM α) (s : LineSession) :
    (onClient x).run s =
      match x.run s.client with
      | .ok a c => .ok a { s with client := c }
      | .error h c => .error (Fault.client h) { s with client := c } := rfl

theorem Same.setClient {s₀ s : LineSession} (h : Same s₀ s) (c : Client) :
    Same s₀ { s with client := c } :=
  ⟨⟨h.parser, h.dispatched⟩, h.line, h.lineStart⟩

theorem quiet_onClient (x : ClientM α) : Quiet (onClient x) := by
  intro s₀ s hs
  rw [onClient_run]
  cases x.run s.client with
  | ok a c => exact hs.setClient c
  | error h c => exact (hs.setClient c).toFramed

theorem silent_onClient {x : ClientM α} (h : ∀ c, ∃ a c', x.run c = .ok a c') :
    Silent (onClient x) := by
  intro s₀ s hs
  obtain ⟨a, c, hrun⟩ := h s.client
  rw [onClient_run, hrun]
  exact hs.setClient c

end rules

theorem send_silent (text : Bytes) : Silent (send text) := fun s₀ =>
  ensures_discard <| silent_onClient (fun c => by
    obtain ⟨ret, net, l, hrun, -⟩ := ircSendRaw_run text c
    exact ⟨ret, _, hrun⟩) s₀

theorem joinChannels_silent : Silent joinChannels :=
  silent_get_bind fun _ => silent_forM fun _ => send_silent _

theorem sendXdccRequests_silent : Silent sendXdccRequests := by
  refine silent_get_bind fun s => silent_ite (silent_bind ?_ fun _ => ?_) (silent_pure _)
  · exact silent_forM fun _ => send_silent _
  · exact silent_modify (fun _ => rfl) (fun _ => rfl) (fun _ => rfl) fun _ => rfl

theorem sendLoginCommand_silent (login : Bytes) : Silent (sendLoginCommand login) := by
  refine silent_bind ?_ fun _ => silent_ite (send_silent _) (silent_pure _)
  exact silent_modify (fun _ => rfl) (fun _ => rfl) (fun _ => rfl) fun _ => rfl

theorem onConnectEvent_silent : Silent onConnectEvent := by
  have hdone : Silent (modify fun s : LineSession => { s with onConnectEventDone := true }) :=
    silent_modify (fun _ => rfl) (fun _ => rfl) (fun _ => rfl) fun _ => rfl
  refine silent_get_bind fun s => silent_ite (silent_pure _) ?_
  cases s.loginCommand with
  | none => exact silent_bind joinChannels_silent fun _ => hdone
  | some login => exact silent_bind (sendLoginCommand_silent login) fun _ => hdone

theorem eventJoin_silent : Silent eventJoin :=
  silent_get_bind fun _ => silent_bind (send_silent _) fun _ =>
    silent_ite sendXdccRequests_silent (silent_pure _)

theorem deref_quiet (p : Option Str) : Quiet (deref p) := by
  cases p with
  | none => exact quiet_throw _
  | some str => exact quiet_get_bind fun s => quiet_ite (quiet_throw _) (quiet_pure _)

theorem param_quiet (i : ℕ) : Quiet (param i) :=
  quiet_get_bind fun _ => quiet_ite (quiet_throw _) (deref_quiet _)

theorem dumpEvent_quiet : Quiet dumpEvent :=
  quiet_get_bind fun _ => quiet_forM fun _ => quiet_discard (param_quiet _)

theorem eventConnect_quiet : Quiet eventConnect :=
  quiet_bind dumpEvent_quiet fun _ => onConnectEvent_silent.quiet

theorem eventNumeric_quiet (code : ℕ) : Quiet (eventNumeric code) :=
  quiet_get_bind fun _ =>
    quiet_ite (quiet_bind dumpEvent_quiet fun _ => quiet_discard (param_quiet 1)) (quiet_pure _)

theorem eventMode_quiet : Quiet eventMode :=
  quiet_get_bind fun _ => quiet_ite
    (quiet_bind (param_quiet 1) fun _ => quiet_ite sendXdccRequests_silent.quiet (quiet_pure _))
    (quiet_pure _)

theorem eventUmode_quiet : Quiet eventUmode :=
  quiet_get_bind fun _ => quiet_ite
    (quiet_bind (param_quiet 0) fun _ => quiet_ite joinChannels_silent.quiet (quiet_pure _))
    (quiet_pure _)

theorem useMD5_silent (md5 : Bytes) : Silent (useMD5 md5) := by
  refine silent_get_bind fun s => ?_
  dsimp only [handling_onSession]
  cases s.client.lastDownload with
  | none => exact silent_ite (silent_onClient fun c => ⟨_, _, rfl⟩) (silent_pure _)
  | some context => exact silent_onClient fun c => ⟨_, _, rfl⟩

theorem checkMD5ChecksumNotice_quiet (event : Bytes) : Quiet (checkMD5ChecksumNotice event) := by
  refine quiet_get_bind fun s => quiet_ite (quiet_pure _) (quiet_bind (param_quiet 1) fun text => ?_)
  cases extractMD5 text with
  | none => exact quiet_pure _
  | some md5 => exact (useMD5_silent md5).quiet

theorem checkConnectedEvent_quiet (event : Bytes) : Quiet (checkConnectedEvent event) :=
  quiet_get_bind fun _ => quiet_ite (quiet_pure _)
    (quiet_bind (param_quiet 1) fun _ => quiet_ite onConnectEvent_silent.quiet (quiet_pure _))

theorem eventNotice_quiet (event : Bytes) : Quiet (eventNotice event) :=
  quiet_bind dumpEvent_quiet fun _ =>
    quiet_bind (checkMD5ChecksumNotice_quiet event) fun _ => checkConnectedEvent_quiet event

theorem libircEventCtcpInternal_quiet (env : LineEnv) : Quiet (libircEventCtcpInternal env) := by
  refine quiet_get_bind fun s => ?_
  dsimp only [handling_deref, handling_param, handling_onSession]
  cases s.line.result.host with
  | none => exact quiet_pure _
  | some origin =>
    refine quiet_bind (deref_quiet _) fun target => quiet_bind (param_quiet 0) fun request => ?_
    cases ctcpReply env s request with
    | none => exact quiet_pure _
    | some reply => exact (send_silent _).quiet

theorem ircPingCommand_quiet : Quiet ircPingCommand :=
  quiet_get_bind fun _ => quiet_ite (quiet_pure _)
    (quiet_bind (param_quiet 0) fun _ => (send_silent _).quiet)

theorem ircNickCommand_quiet : Quiet ircNickCommand := by
  have hset (newNick : Bytes) : Silent (modify fun s : LineSession => { s with nick := newNick }) :=
    silent_modify (fun _ => rfl) (fun _ => rfl) (fun _ => rfl) fun _ => rfl
  exact quiet_get_bind fun s => quiet_bind (deref_quiet _) fun nick =>
    quiet_ite (quiet_bind (param_quiet 0) fun newNick => (hset newNick).quiet) (quiet_pure _)

def handlerOf (r : ParserResult) : Option IrcCommand :=
  r.command.bind fun c =>
    if isNumericCommand c.text then none else some (getCommand c.text (strlen c.text))

/-- Parameter `i` is there and has this text. -/
def Reads (r : ParserResult) (i : ℕ) (text : Bytes) : Prop :=
  i < r.numParams ∧ (r.params i).map (·.text) = some text

theorem Reads.any {r : ParserResult} {i : ℕ} {text : Bytes} (h : Reads r i text)
    {p : Bytes → Bool} (hp : p text = true) : (r.params i).any (fun str => p str.text) = true := by
  obtain ⟨-, hstr⟩ := h
  cases hi : r.params i with
  | none =>
    rw [hi] at hstr
    exact absurd hstr (by simp)
  | some str =>
    rw [hi] at hstr
    have htext : str.text = text := Option.some.inj hstr
    rw [Option.any_some, htext]
    exact hp

def OwnMode (s : LineSession) : Prop :=
  handlerOf s.line.result = some .mode ∧ 0 < s.line.result.numParams ∧
    (s.line.result.params 0).any (fun target => strnEquals target.text s.nick (strlen s.nick)) = true

def RewritingRequest (s : LineSession) : Prop :=
  handlerOf s.line.result = some .privmsg ∧ 1 < s.line.result.numParams ∧
    (s.line.result.params 1).any (fun body =>
      isCtcpRequest body.text && !isDccRequest (ctcpBuf body.text libircBufferSize)) = true

instance (s : LineSession) : Decidable (OwnMode s) := by unfold OwnMode; infer_instance

instance (s : LineSession) : Decidable (RewritingRequest s) := by
  unfold RewritingRequest
  infer_instance

inductive Outcome (s : LineSession) : LineState → Prop
  | kept : Outcome s s.line
  | replied (text : Bytes) (h : 0 < s.line.result.numParams) : Outcome s (replyToNotice text s.line)
  | moved (h : OwnMode s) : Outcome s (moveMode s.line)
  | action (h : RewritingRequest s) (text : Bytes) : Outcome s (replaceParam 1 text 2 s.line)
  | request (h : RewritingRequest s) (text : Bytes) : Outcome s (replaceParam 0 text 1 s.line)

/-- From `s` the program returns with an outcome of `s`, or stops. -/
abbrev Leads (s : LineSession) (x : HandlerM Unit) : Prop :=
  Ensures (fun t => t = s) x (fun _ t => Framed s t ∧ Outcome s t.line) (Framed s)

section leads
variable {s : LineSession}

theorem Quiet.leads {x : HandlerM Unit} (h : Quiet x) : Leads s x :=
  (h s).weaken (fun _ ht => ht ▸ Same.refl s)
    (fun _ _ ht => ⟨ht.toFramed, ht.line ▸ .kept⟩) fun _ ht => ht

theorem setLine_leads {f : LineState → LineState} {x : HandlerM Unit} (hx : Quiet x)
    (hf : Outcome s (f s.line)) : Leads s (setLine f >>= fun _ => x) := by
  have hframe {t : LineSession} (ht : Framed { s with line := f s.line } t) : Framed s t :=
    ⟨ht.parser, ht.dispatched⟩
  have hset : Ensures (fun t => t = s) (setLine f) (fun _ t => Same { s with line := f s.line } t)
      (Framed s) := by
    apply ensures_modify
    rintro _ rfl
    exact Same.refl _
  apply ensures_bind hset
  intro _
  exact (hx _).weaken (fun _ ht => ht) (fun _ _ ht => ⟨hframe ht.toFramed, ht.line ▸ hf⟩)
    fun _ ht => hframe ht

theorem param_reads (i : ℕ) :
    Ensures (fun t => t = s) (param i) (fun text t => t = s ∧ Reads s.line.result i text)
      (Framed s) := by
  intro t ht
  rw [ht]
  by_cases hi : s.line.result.numParams ≤ i
  · have hrun : (param i).run s = .error .behindParams s := by
      simp [param, EStateM.run_bind, hi]
    rw [hrun]
    exact (Same.refl s).toFramed
  · cases hstr : s.line.result.params i with
    | none =>
      have hrun : (param i).run s = .error .nullString s := by
        simp [param, EStateM.run_bind, hi, hstr, deref]
      rw [hrun]
      exact (Same.refl s).toFramed
    | some str =>
      by_cases hstale : str.id < s.lineStart ∨ str.id ∈ s.line.freed
      · have hrun : (param i).run s = .error .staleString s := by
          simp [param, EStateM.run_bind, hi, hstr, deref, hstale]
        rw [hrun]
        exact (Same.refl s).toFramed
      · have hrun : (param i).run s = .ok str.text s := by
          simp [param, EStateM.run_bind, hi, hstr, deref, hstale]
        rw [hrun]
        exact ⟨rfl, by omega, by rw [hstr]; rfl⟩

theorem param_leads {i : ℕ} {f : Bytes → HandlerM Unit}
    (h : ∀ text, Reads s.line.result i text → Leads s (f text)) : Leads s (param i >>= f) := by
  apply ensures_bind (param_reads i)
  intro text t ht
  exact h text ht.2 t ht.1

theorem get_leads {f : LineSession → HandlerM Unit} (h : Leads s (f s)) : Leads s (get >>= f) := by
  apply ensures_get_bind
  rintro _ rfl
  exact h

theorem handleCtcpRequest_leads (env : LineEnv) (hhandler : handlerOf s.line.result = some .privmsg)
    {text : Bytes} (htext : Reads s.line.result 1 text) (hctcp : isCtcpRequest text = true) :
    Leads s (handleCtcpRequest env) := by
  apply param_leads
  intro text' htext'
  have hsame : text' = text := Option.some.inj (htext'.2.symm.trans htext.2)
  subst hsame
  generalize hbuf : ctcpBuf text' libircBufferSize = buf
  apply ensures_ite
  · intro _
    exact Quiet.leads (quiet_get_bind fun _ => quiet_onClient _)
  · intro hdcc
    have hbody : (isCtcpRequest text' && !isDccRequest (ctcpBuf text' libircBufferSize)) = true := by
      rw [hctcp, hbuf, Bool.eq_false_iff.mpr hdcc]
      rfl
    have hrewrites : RewritingRequest s := ⟨hhandler, htext.1, @Reads.any _ _ _ htext (fun text =>
      isCtcpRequest text && !isDccRequest (ctcpBuf text libircBufferSize)) hbody⟩
    apply ensures_ite
    · intro _
      exact setLine_leads dumpEvent_quiet (.action hrewrites _)
    · intro _
      exact setLine_leads (libircEventCtcpInternal_quiet env) (.request hrewrites _)

theorem ircPrivmsgCommand_leads (env : LineEnv)
    (hhandler : handlerOf s.line.result = some .privmsg) : Leads s (ircPrivmsgCommand env) := by
  apply get_leads
  apply ensures_ite
  · intro _
    exact (quiet_pure _).leads
  · intro _
    apply param_leads
    intro text htext
    apply ensures_ite
    · intro hctcp
      exact handleCtcpRequest_leads env hhandler htext hctcp
    · intro _
      exact Quiet.leads (quiet_bind (param_quiet 0) fun _ => quiet_ite dumpEvent_quiet (quiet_pure _))

theorem ircModeCommand_leads (hhandler : handlerOf s.line.result = some .mode) :
    Leads s ircModeCommand := by
  apply get_leads
  apply ensures_ite
  · intro _
    apply param_leads
    intro target htarget
    apply ensures_ite
    · intro hown
      exact setLine_leads eventUmode_quiet (.moved ⟨hhandler, htarget.1,
        @Reads.any _ _ _ htarget (fun text => strnEquals text s.nick (strlen s.nick)) hown⟩)
    · intro _
      exact eventMode_quiet.leads
  · intro _
    exact eventMode_quiet.leads

theorem ircNoticeCommand_leads (event : Bytes) : Leads s (ircNoticeCommand event) := by
  apply param_leads
  intro text htext
  apply get_leads
  apply ensures_ite
  · intro _
    exact setLine_leads dumpEvent_quiet (.replied _ (by have := htext.1; omega))
  · intro _
    exact Quiet.leads
      (quiet_bind (param_quiet 0) fun _ => quiet_ite (eventNotice_quiet event) (quiet_pure _))

theorem execute_leads (env : LineEnv) (command : Bytes) {handler : IrcCommand}
    (h : handlerOf s.line.result = some handler) : Leads s (handler.execute env command) := by
  cases handler with
  | ping => exact ircPingCommand_quiet.leads
  | nick => exact ircNickCommand_quiet.leads
  | join => exact eventJoin_silent.quiet.leads
  | mode => exact ircModeCommand_leads h
  | privmsg => exact ircPrivmsgCommand_leads env h
  | notice => exact ircNoticeCommand_leads command
  | unknown => exact dumpEvent_quiet.leads
  | quit | part | topic | kick | invite | kill => exact (quiet_pure _).leads

theorem Quiet.keepsLine {x : HandlerM Unit} (h : Quiet x) (p : Parser) (l : LineState) :
    Ensures (fun t => t.parser = p ∧ t.line = l) x (fun _ t => t.parser = p ∧ t.line = l)
      (fun _ => True) := by
  intro t ht
  have ht' := h t t (Same.refl t)
  cases hx : x.run t with
  | ok a u =>
    rw [hx] at ht'
    exact ⟨ht'.parser.trans ht.1, ht'.line.trans ht.2⟩
  | error e u => trivial

theorem connectOnMotd_quiet (code : ℕ) : Quiet (connectOnMotd code) := by
  have hset : Silent (modify fun s : LineSession => { s with motdReceived := true }) :=
    silent_modify (fun _ => rfl) (fun _ => rfl) (fun _ => rfl) fun _ => rfl
  exact quiet_get_bind fun _ =>
    quiet_ite (quiet_bind hset.quiet fun _ => eventConnect_quiet) (quiet_pure _)

theorem Outcome.of_dispatched {ds : List Dispatch} {l : LineState}
    (h : Outcome { s with dispatched := ds } l) : Outcome s l := by
  cases h with
  | kept => exact .kept
  | replied text h => exact .replied text h
  | moved h => exact .moved h
  | action h text => exact @Outcome.action s h text
  | request h text => exact @Outcome.request s h text

theorem handleCommand_outcome (env : LineEnv) {command : Str}
    (hcommand : s.line.result.command = some command)
    (hnumeric : ¬ isNumericCommand command.text = true) :
    Ensures (fun t => t = s) (handleCommand env command.text)
      (fun _ t => t.parser = s.parser ∧ Outcome s t.line) (fun _ => True) := by
  let handler := getCommand command.text (strlen command.text)
  let d : Dispatch := .command handler command.text
  let s' : LineSession := { s with dispatched := s.dispatched ++ [d] }
  have hdispatch : Ensures (fun t => t = s) (dispatch d) (fun _ t => t = s') (fun _ => True) := by
    apply ensures_modify
    intro t ht
    rw [ht]
  have hhandler : handlerOf s'.line.result = some handler := by
    change s.line.result.command.bind _ = _
    rw [hcommand]
    exact if_neg hnumeric
  exact ensures_bind hdispatch fun _ => (execute_leads env command.text hhandler).weaken
    (fun _ ht => ht) (fun _ _ ht => ⟨ht.1.parser, ht.2.of_dispatched⟩) fun _ _ => trivial

theorem handleParserResult_outcome (env : LineEnv) :
    Ensures (fun t => t = s) (handleParserResult env)
      (fun _ t => t.parser = s.parser ∧ Outcome s t.line) (fun _ => True) := by
  have hkept {x : HandlerM Unit} (hx : Quiet x) := hx.keepsLine s.parser s.line
  have hdispatch (d : Dispatch) : Ensures (fun t => t.parser = s.parser ∧ t.line = s.line)
      (dispatch d) (fun _ t => t.parser = s.parser ∧ t.line = s.line) (fun _ => True) :=
    ensures_modify fun _ ht => ht
  apply ensures_get_bind
  intro s' hs'
  rw [hs']
  cases hcommand : s.line.result.command with
  | none => exact ensures_pure fun _ ht => ht ▸ ⟨rfl, .kept⟩
  | some command =>
    dsimp only
    apply ensures_ite
    · intro _
      have hrun := ensures_bind (hkept (connectOnMotd_quiet (digitsValue command.text))) fun _ =>
        ensures_bind (hdispatch (.numeric (digitsValue command.text) command.text)) fun _ =>
          hkept (eventNumeric_quiet (digitsValue command.text))
      exact hrun.weaken (fun _ ht => ht ▸ ⟨rfl, rfl⟩) (fun _ _ ht => ⟨ht.1, ht.2 ▸ .kept⟩)
        fun _ ht => ht
    · intro hnumeric
      exact handleCommand_outcome env hcommand hnumeric

end leads

end Xdccget.HandlerOutcomes
