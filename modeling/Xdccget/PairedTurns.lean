import Xdccget.LoopLines
import Xdccget.PairedLines

set_option autoImplicit false

/-!
# Two loops side by side

The loops differ in what the parser left behind, and in how the parts of the line are
allocated. Every program of the client does the same in both.
-/
namespace Xdccget.PairedTurns
open CText LineParser LineOwnership PairedLines DccMessages ClientState HaltingPrograms ProgramRelations ClientLoop
  LoopFrames
open Commands (LineEnv LineSession IrcCommand HandlerM setLine send ctcpBuf strnEquals strlen dispatch)

/-- The sessions differ in what the lines before have left, and the clients run. -/
def Beside (shown : Prop) (s t : LineSession) : Prop :=
  ∃ parser line lineStart dispatched,
    t = { s with parser := parser, line := line, lineStart := lineStart, dispatched := dispatched } ∧
      SameLine shown s.line line ∧ Bounded s.line ∧ Bounded line ∧ s.client.halted = none

def LoopsBeside (shown : Prop) (s t : Loop) : Prop :=
  ∃ session, t = { s with session := session } ∧ Beside shown s.session session

def Aligned (s t : Loop) : Prop :=
  ∃ parser line lineStart dispatched,
    t = { s with session := { s.session with
      parser := parser, line := line, lineStart := lineStart, dispatched := dispatched } }

def Alike {α : Type} (shown : Prop) (x : LoopM α) : Prop :=
  Relates (LoopsBeside shown) x x (fun a b s t => a = b ∧ LoopsBeside shown s t)
    fun e d s t => e = d ∧ Aligned s t

section session
variable {shown : Prop}

theorem simulates_onClient {α : Type} {x : ClientM α}
    (hlive : ∀ c, c.halted = none → (endState x c).halted = none) :
    Simulates id (Beside shown) (Commands.onClient x) (Commands.onClient x) := by
  rintro s t ⟨parser, line, lineStart, dispatched, rfl, hline, hs, ht, hclient⟩
  have hend := hlive s.client hclient
  rw [HandlerOutcomes.onClient_run, HandlerOutcomes.onClient_run]
  dsimp only
  cases hrun : x.run s.client with
  | ok a c =>
    rw [endState_of_ok hrun] at hend
    exact ⟨rfl, parser, line, lineStart, dispatched, rfl, hline, hs, ht, hend⟩
  | error h c =>
    rw [endState_of_error hrun] at hend
    exact ⟨rfl, parser, line, lineStart, dispatched, rfl, hline, hs, ht, hend⟩

theorem simulates_sendRaw (text : Bytes) : Simulates id (Beside shown)
    (Commands.onClient (ircSendRaw text)) (Commands.onClient (ircSendRaw text)) := by
  apply simulates_onClient
  intro c hc
  have hrun : (ircSendRaw text).run c = _ := ircSendRaw_eq text c
  rw [endState_of_ok hrun]
  exact hc

theorem simulates_send (text : Bytes) : Simulates id (Beside shown) (send text) (send text) :=
  simulates_discard (simulates_sendRaw text)

theorem simulates_setLine {f : LineState → LineState} (hbounded : ∀ l, Bounded l → Bounded (f l))
    (h : ∀ l l', SameLine shown l l' → SameLine shown (f l) (f l')) :
    Simulates id (Beside shown) (setLine f) (setLine f) := by
  apply simulates_modify
  rintro s t ⟨parser, line, lineStart, dispatched, rfl, hline, hs, ht, hclient⟩
  exact ⟨parser, f line, lineStart, dispatched, rfl, h s.line line hline, hbounded _ hs, hbounded _ ht,
    hclient⟩

theorem simulates_joinChannels :
    Simulates id (Beside shown) Commands.joinChannels Commands.joinChannels := by
  apply simulates_get_bind
  rintro s t ⟨parser, line, lineStart, dispatched, rfl, hline⟩
  exact simulates_forM fun channel _ => simulates_send _

theorem simulates_sendLoginCommand (login : Bytes) :
    Simulates id (Beside shown) (Commands.sendLoginCommand login) (Commands.sendLoginCommand login) := by
  apply simulates_bind
  · apply simulates_modify
    rintro s t ⟨parser, line, lineStart, dispatched, rfl, hline⟩
    exact ⟨parser, line, lineStart, dispatched, rfl, hline⟩
  · intro _
    exact simulates_ite Iff.rfl (fun _ => simulates_send _) fun _ => simulates_pure _

theorem simulates_onConnectEvent :
    Simulates id (Beside shown) Commands.onConnectEvent Commands.onConnectEvent := by
  apply simulates_get_bind
  rintro s t ⟨parser, line, lineStart, dispatched, rfl, hline⟩
  have hdone : Simulates id (Beside shown)
      (modify fun s : LineSession => { s with onConnectEventDone := true } : HandlerM PUnit)
      (modify fun s => { s with onConnectEventDone := true }) := by
    apply simulates_modify
    rintro s t ⟨parser, line, lineStart, dispatched, rfl, hline⟩
    exact ⟨parser, line, lineStart, dispatched, rfl, hline⟩
  refine simulates_ite Iff.rfl (fun _ => simulates_pure _) fun _ => ?_
  dsimp only
  cases s.loginCommand with
  | some login => exact simulates_bind (simulates_sendLoginCommand login) fun _ => hdone
  | none => exact simulates_bind simulates_joinChannels fun _ => hdone

end session

section loop
variable {shown : Prop} {s t : Loop}

theorem LoopsBeside.aligned (h : LoopsBeside shown s t) : Aligned s t := by
  obtain ⟨session, rfl, parser, line, lineStart, dispatched, rfl, -⟩ := h
  exact ⟨parser, line, lineStart, dispatched, rfl⟩

theorem Aligned.idle (h : Aligned s t) (e : LoopEvent) : idle t e = idle s e := by
  obtain ⟨parser, line, lineStart, dispatched, rfl⟩ := h
  rfl

theorem Aligned.halt (h : Aligned s t) (fault : Commands.Fault) : Aligned (s.halt fault) (t.halt fault) := by
  obtain ⟨parser, line, lineStart, dispatched, rfl⟩ := h
  exact ⟨parser, line, lineStart, dispatched, rfl⟩

theorem Aligned.client (h : Aligned s t) : t.session.client = s.session.client := by
  obtain ⟨parser, line, lineStart, dispatched, rfl⟩ := h
  rfl

theorem LoopsBeside.client_halted (h : LoopsBeside shown s t) : s.session.client.halted = none := by
  obtain ⟨session, rfl, parser, line, lineStart, dispatched, rfl, -, -, -, hclient⟩ := h
  exact hclient

theorem LoopsBeside.bounded (h : LoopsBeside shown s t) : Bounded s.session.line ∧ Bounded t.session.line := by
  obtain ⟨session, rfl, parser, line, lineStart, dispatched, rfl, -, hs, ht, -⟩ := h
  exact ⟨hs, ht⟩

theorem alike_pure {α : Type} (a : α) : Alike shown (pure a : LoopM α) :=
  relates_pure fun _ _ h => ⟨rfl, h⟩

theorem alike_bind {α β : Type} {x : LoopM β} {f : β → LoopM α} (hx : Alike shown x)
    (hf : ∀ b, Alike shown (f b)) : Alike shown (x >>= f) := by
  refine relates_bind hx fun a b => relates_of_and fun hab => ?_
  subst hab
  exact hf a

theorem alike_ite {α : Type} {c : Prop} [Decidable c] {x y : LoopM α} (hx : Alike shown x)
    (hy : Alike shown y) : Alike shown (if c then x else y) :=
  relates_ite Iff.rfl (fun _ => hx) fun _ => hy

theorem alike_forM {γ : Type} {f : γ → LoopM PUnit} (h : ∀ c, Alike shown (f c)) (cs : List γ) :
    Alike shown (cs.forM f) := by
  induction cs with
  | nil => exact alike_pure PUnit.unit
  | cons c cs ih => exact alike_bind (h c) fun _ => ih

theorem alike_onSession {α : Type} {x : HandlerM α} (h : Simulates id (Beside shown) x x) :
    Alike shown (onSession x) := by
  rintro s t ⟨session, rfl, hbeside⟩
  have h' := h s.session session hbeside
  unfold onSession
  rw [zoom_run, zoom_run]
  dsimp only
  cases hs : x.run s.session <;> cases ht : x.run session <;> rw [hs, ht] at h'
  · exact ⟨h'.1, _, rfl, h'.2⟩
  · exact h'
  · exact h'
  · exact ⟨h'.1, LoopsBeside.aligned ⟨_, rfl, h'.2⟩⟩

theorem alike_onEvent (e : DccEvents.Event) : Alike shown (onEvent e) := by
  rintro s t ⟨session, rfl, parser, line, lineStart, dispatched, rfl, hline, hs, ht, -⟩
  rw [onEvent_run, onEvent_run]
  dsimp only [eventLoop]
  cases hclient : (DccEvents.step s.session.client e).halted with
  | none => exact ⟨rfl, _, rfl, parser, line, lineStart, dispatched, rfl, hline, hs, ht, hclient⟩
  | some h => exact ⟨rfl, parser, line, lineStart, dispatched, rfl⟩

theorem alike_modify {f : Loop → Loop}
    (h : ∀ s session, f { s with session := session } = { f s with session := session })
    (hsession : ∀ s, (f s).session = s.session) : Alike shown (modify f : LoopM PUnit) := by
  apply relates_modify
  rintro s t ⟨session, rfl, hbeside⟩
  exact ⟨rfl, session, h s session, by rw [hsession]; exact hbeside⟩

theorem alike_take (a : Taken) : Alike shown (take a) := alike_modify (fun _ _ => rfl) fun _ => rfl

theorem alike_askBot (d : DccDownload) : Alike shown (askBot d) := by
  apply alike_bind (alike_onSession (simulates_sendRaw _))
  intro ret
  exact alike_modify (fun _ _ => rfl) fun _ => rfl

def Reads {α : Type} (s t : Loop) (x y : LoopM α) : Prop :=
  (∃ a, x.run s = .ok a s ∧ y.run t = .ok a t) ∨ ∃ e, x.run s = .error e s ∧ y.run t = .error e t

def AlikeFrom {α : Type} (shown : Prop) (s t : Loop) (x y : LoopM α) : Prop :=
  Relates (fun s' t' => s' = s ∧ t' = t) x y (fun a b s t => a = b ∧ LoopsBeside shown s t)
    fun e d s t => e = d ∧ Aligned s t

theorem alike_of_from {α : Type} {x : LoopM α}
    (h : ∀ s t, LoopsBeside shown s t → AlikeFrom shown s t x x) : Alike shown x :=
  fun s t hst => h s t hst s t ⟨rfl, rfl⟩

theorem alikeFrom {α : Type} {x : LoopM α} (hst : LoopsBeside shown s t) (h : Alike shown x) :
    AlikeFrom shown s t x x :=
  h.weaken (by rintro s' t' ⟨rfl, rfl⟩; exact hst) (fun _ _ _ _ h => h) fun _ _ _ _ h => h

theorem AlikeFrom.cases {α : Type} {x y : LoopM α} (h : AlikeFrom shown s t x y) :
    (∃ a u v, x.run s = .ok a u ∧ y.run t = .ok a v ∧ LoopsBeside shown u v) ∨
      ∃ fault u v, x.run s = .error fault u ∧ y.run t = .error fault v ∧ Aligned u v := by
  have hrun := h s t ⟨rfl, rfl⟩
  cases hs : x.run s <;> cases ht : y.run t <;> rw [hs, ht] at hrun
  · obtain ⟨rfl, hbeside⟩ := hrun
    exact .inl ⟨_, _, _, rfl, rfl, hbeside⟩
  · exact hrun.elim
  · exact hrun.elim
  · obtain ⟨rfl, haligned⟩ := hrun
    exact .inr ⟨_, _, _, rfl, rfl, haligned⟩

theorem alikeFrom_get_bind {α : Type} {f g : Loop → LoopM α} (h : AlikeFrom shown s t (f s) (g t)) :
    AlikeFrom shown s t (get >>= f) (get >>= g) := by
  rintro s' t' ⟨rfl, rfl⟩
  exact h _ _ ⟨rfl, rfl⟩

theorem alikeFrom_ite {α : Type} {c c' : Prop} [Decidable c] [Decidable c'] {x x' y y' : LoopM α}
    (hc : c ↔ c') (hthen : c → AlikeFrom shown s t x y) (helse : ¬ c → AlikeFrom shown s t x' y') :
    AlikeFrom shown s t (if c then x else x') (if c' then y else y') := relates_ite hc hthen helse

theorem Reads.bind_of_ok {α β : Type} {x y : LoopM β} {f g : β → LoopM α} (hst : LoopsBeside shown s t)
    (h : Reads s t x y) (hf : ∀ a, x.run s = .ok a s → AlikeFrom shown s t (f a) (g a)) :
    AlikeFrom shown s t (x >>= f) (y >>= g) := by
  rintro s' t' ⟨rfl, rfl⟩
  rcases h with ⟨a, hx, hy⟩ | ⟨e, hx, hy⟩
  · rw [run_bind_of_ok hx, run_bind_of_ok hy]
    exact hf a hx _ _ ⟨rfl, rfl⟩
  · rw [run_bind_of_error hx, run_bind_of_error hy]
    exact ⟨rfl, hst.aligned⟩

theorem Reads.bind {α β : Type} {x y : LoopM β} {f g : β → LoopM α} (hst : LoopsBeside shown s t)
    (h : Reads s t x y) (hf : ∀ a, AlikeFrom shown s t (f a) (g a)) :
    AlikeFrom shown s t (x >>= f) (y >>= g) := h.bind_of_ok hst fun a _ => hf a

theorem Reads.alikeFrom {α : Type} {x y : LoopM α} (hst : LoopsBeside shown s t) (h : Reads s t x y) :
    AlikeFrom shown s t x y := by
  rintro s' t' ⟨rfl, rfl⟩
  rcases h with ⟨a, hx, hy⟩ | ⟨e, hx, hy⟩
  · rw [hx, hy]
    exact ⟨rfl, hst⟩
  · rw [hx, hy]
    exact ⟨rfl, hst.aligned⟩

theorem Reads.discard {α : Type} {x y : LoopM α} (h : Reads s t x y) : Reads s t (discard x) (discard y) := by
  rcases h with ⟨a, hx, hy⟩ | ⟨e, hx, hy⟩
  · exact .inl ⟨⟨⟩, run_discard hx, run_discard hy⟩
  · exact .inr ⟨e, run_discard_of_error hx, run_discard_of_error hy⟩

theorem reads_forM {γ : Type} {f g : γ → LoopM PUnit} {cs : List γ} (h : ∀ c ∈ cs, Reads s t (f c) (g c)) :
    Reads s t (cs.forM f) (cs.forM g) := by
  induction cs with
  | nil => exact .inl ⟨⟨⟩, rfl, rfl⟩
  | cons c cs ih =>
    have hrest := ih fun d hd => h d (List.mem_cons_of_mem c hd)
    rw [List.forM, List.forM]
    rcases h c List.mem_cons_self with ⟨a, hx, hy⟩ | ⟨e, hx, hy⟩
    · rcases hrest with ⟨b, hx', hy'⟩ | ⟨e, hx', hy'⟩
      · exact .inl ⟨b, by rw [run_bind_of_ok hx, hx'], by rw [run_bind_of_ok hy, hy']⟩
      · exact .inr ⟨e, by rw [run_bind_of_ok hx, hx'], by rw [run_bind_of_ok hy, hy']⟩
    · exact .inr ⟨e, run_bind_of_error hx, run_bind_of_error hy⟩

theorem reads_deref {ρ : Pairing} {p p' : Option Str} (hheap : Heaps ρ s.session.line t.session.line)
    (hp : Paired ρ p p') : Reads s t (deref p) (deref p') := by
  cases hp with
  | none => exact .inr ⟨.nullString, rfl, rfl⟩
  | @some str str' hpair =>
    have hfreed := hheap.freed _ _ hpair.1
    by_cases hstale : str.id ∈ s.session.line.freed
    · have hstale' := hfreed.mp hstale
      exact .inr ⟨.staleString, by simp [deref, EStateM.run_bind, hstale],
        by simp [deref, EStateM.run_bind, hstale']⟩
    · have hstale' := mt hfreed.mpr hstale
      exact .inl ⟨str.text, by simp [deref, EStateM.run_bind, hstale],
        by simp [deref, EStateM.run_bind, hstale', hpair.2]⟩

theorem LoopsBeside.sameLine (h : LoopsBeside shown s t) :
    SameLine shown s.session.line t.session.line := by
  obtain ⟨session, rfl, parser, line, lineStart, dispatched, rfl, hline, -⟩ := h
  exact hline

theorem reads_param (h : LoopsBeside shown s t) {i : ℕ}
    (hi : i < s.session.line.result.numParams ∨ i = 0 ∨ (i = 1 ∧ shown)) :
    Reads s t (param i) (param i) := by
  obtain ⟨ρ, hheap, hr⟩ := h.sameLine
  exact reads_deref hheap (hr.params i hi)

theorem LoopsBeside.numParams (h : LoopsBeside shown s t) :
    s.session.line.result.numParams = t.session.line.result.numParams := by
  obtain ⟨ρ, hheap, hr⟩ := h.sameLine
  exact hr.numParams

theorem reads_dumpEvent (h : LoopsBeside shown s t) : Reads s t dumpEvent dumpEvent := by
  have hreads : Reads s t ((List.range s.session.line.result.numParams).forM fun cnt => discard (param cnt))
      ((List.range t.session.line.result.numParams).forM fun cnt => discard (param cnt)) := by
    rw [← h.numParams]
    apply reads_forM
    intro cnt hcnt
    exact (reads_param h (.inl (List.mem_range.mp hcnt))).discard
  exact hreads

theorem AlikeFrom.bind {α β : Type} {x y : LoopM β} {f : β → LoopM α} (hxy : AlikeFrom shown s t x y)
    (hf : ∀ a, Alike shown (f a)) : AlikeFrom shown s t (x >>= f) (y >>= f) := by
  refine relates_bind hxy fun a b => relates_of_and fun hab => ?_
  subst hab
  exact hf a

theorem alikeFrom_onSession_bind {α β : Type} {x : HandlerM β} {f : β → LoopM α}
    (hst : LoopsBeside shown s t) (hx : Simulates id (Beside shown) x x) (hf : ∀ a, Alike shown (f a)) :
    AlikeFrom shown s t (onSession x >>= f) (onSession x >>= f) :=
  (alikeFrom hst (alike_onSession hx)).bind hf

theorem alike_sendXdccRequests : Alike shown sendXdccRequests := by
  apply alike_of_from
  intro s t hst
  apply alikeFrom_get_bind
  obtain ⟨session, rfl, parser, line, lineStart, dispatched, rfl, hline⟩ := id hst
  have hsended : Alike shown (onSession (modify fun t => { t with sended := true })) := by
    apply alike_onSession
    apply simulates_modify
    rintro s t ⟨parser, line, lineStart, dispatched, rfl, hline⟩
    exact ⟨parser, line, lineStart, dispatched, rfl, hline⟩
  refine alikeFrom_ite Iff.rfl (fun _ => alikeFrom hst ?_) fun _ => alikeFrom hst (alike_pure _)
  exact alike_bind (alike_forM alike_askBot _) fun _ => hsended

theorem alike_useMD5 (md5 : Bytes) : Alike shown (useMD5 md5) := by
  apply alike_of_from
  intro s t hst
  apply alikeFrom_get_bind
  obtain ⟨session, rfl, parser, line, lineStart, dispatched, rfl, hline⟩ := id hst
  dsimp only [handling_onSession]
  cases s.session.client.lastDownload with
  | none =>
    refine alikeFrom_ite Iff.rfl (fun _ => ?_) fun _ => alikeFrom hst (alike_pure _)
    exact alikeFrom hst (alike_onSession (simulates_onClient fun _ hc => hc))
  | some context => exact alikeFrom hst (alike_onSession (simulates_onClient fun _ hc => hc))

theorem alike_eventConnect : Alike shown eventConnect :=
  alike_of_from fun _ _ hst => (reads_dumpEvent hst).bind hst fun _ =>
    alikeFrom hst (alike_onSession simulates_onConnectEvent)

theorem alike_eventNumeric (code : ℕ) : Alike shown (eventNumeric code) := by
  apply alike_of_from
  intro s t hst
  apply alikeFrom_get_bind
  refine alikeFrom_ite (by rw [hst.numParams]) (fun hcode => ?_) fun _ => alikeFrom hst (alike_pure _)
  refine (reads_dumpEvent hst).bind hst fun _ => ?_
  exact (reads_param hst (.inl (by omega))).discard.alikeFrom hst

theorem alike_eventJoin : Alike shown eventJoin := by
  apply alike_of_from
  intro s t hst
  apply alikeFrom_get_bind
  obtain ⟨session, rfl, parser, line, lineStart, dispatched, rfl, hline⟩ := id hst
  refine alikeFrom_onSession_bind hst (simulates_send _) fun _ => ?_
  exact alike_ite alike_sendXdccRequests (alike_pure _)

theorem LoopsBeside.login (h : LoopsBeside shown s t) : s.session.loginCommand = t.session.loginCommand := by
  obtain ⟨session, rfl, parser, line, lineStart, dispatched, rfl, -⟩ := h
  rfl

theorem LoopsBeside.nick (h : LoopsBeside shown s t) : s.session.nick = t.session.nick := by
  obtain ⟨session, rfl, parser, line, lineStart, dispatched, rfl, -⟩ := h
  rfl

theorem alike_eventMode : Alike shown eventMode := by
  apply alike_of_from
  intro s t hst
  apply alikeFrom_get_bind
  refine alikeFrom_ite (by rw [hst.login, hst.numParams]) (fun hlogin => ?_) fun _ =>
    alikeFrom hst (alike_pure _)
  refine (reads_param hst (.inl hlogin.2)).bind hst fun mode => alikeFrom hst ?_
  exact alike_ite alike_sendXdccRequests (alike_pure _)

theorem alike_eventUmode : Alike shown eventUmode := by
  apply alike_of_from
  intro s t hst
  apply alikeFrom_get_bind
  refine alikeFrom_ite (by rw [hst.login]) (fun _ => ?_) fun _ => alikeFrom hst (alike_pure _)
  refine (reads_param hst (.inr (.inl rfl))).bind hst fun mode => alikeFrom hst ?_
  exact alike_ite (alike_onSession simulates_joinChannels) (alike_pure _)

theorem alike_notice {event : Bytes} {f : Bytes → LoopM PUnit} (hf : ∀ text, Alike shown (f text)) :
    Alike shown (do
      let s ← get
      if event ≠ bytes "NOTICE" ∨ s.session.line.result.numParams ≠ 2 then
        return
      f (← param 1)) := by
  apply alike_of_from
  intro s t hst
  apply alikeFrom_get_bind
  refine alikeFrom_ite (by rw [hst.numParams]) (fun _ => alikeFrom hst (alike_pure _)) fun htwo => ?_
  rw [not_or, not_not, not_not] at htwo
  exact (reads_param hst (.inl (by omega))).bind hst fun text => alikeFrom hst (hf text)

theorem alike_checkMD5ChecksumNotice (event : Bytes) : Alike shown (checkMD5ChecksumNotice event) := by
  refine alike_notice fun text => ?_
  cases Commands.extractMD5 text with
  | none => exact alike_pure _
  | some md5 => exact alike_useMD5 md5

theorem alike_checkConnectedEvent (event : Bytes) : Alike shown (checkConnectedEvent event) :=
  alike_notice fun _ => alike_ite (alike_onSession simulates_onConnectEvent) (alike_pure _)

theorem alike_eventNotice (event : Bytes) : Alike shown (eventNotice event) :=
  alike_of_from fun _ _ hst => (reads_dumpEvent hst).bind hst fun _ => alikeFrom hst
    (alike_bind (alike_checkMD5ChecksumNotice event) fun _ => alike_checkConnectedEvent event)

theorem LoopsBeside.ctcpReply (h : LoopsBeside shown s t) (env : LineEnv) (request : Bytes) :
    ctcpReply env t.session request = ctcpReply env s.session request := by
  obtain ⟨session, rfl, parser, line, lineStart, dispatched, rfl, -⟩ := h
  rfl

theorem alike_libircEventCtcpInternal (env : LineEnv) : Alike shown (libircEventCtcpInternal env) := by
  apply alike_of_from
  intro s t hst
  apply alikeFrom_get_bind
  dsimp only [handling_deref, handling_onSession]
  obtain ⟨ρ, hheap, hr⟩ := hst.sameLine
  have hhost := hr.host
  have hreads := reads_deref hheap hhost
  cases hs : s.session.line.result.host with
  | none =>
    rw [hhost.none_iff.mp hs]
    exact alikeFrom hst (alike_pure _)
  | some origin =>
    cases ht : t.session.line.result.host with
    | none =>
      rw [hhost.none_iff.mpr ht] at hs
      cases hs
    | some origin' =>
      rw [hs, ht] at hreads
      refine hreads.bind hst fun text => ?_
      refine (reads_param hst (.inr (.inl rfl))).bind hst fun request => ?_
      rw [hst.ctcpReply]
      cases ClientLoop.ctcpReply env s.session request with
      | none => exact alikeFrom hst (alike_pure _)
      | some reply => exact alikeFrom hst (alike_onSession (simulates_send _))

theorem alike_dumpEvent : Alike shown dumpEvent :=
  alike_of_from fun _ _ hst => (reads_dumpEvent hst).alikeFrom hst

theorem LoopsBeside.mono {hidden : Prop} (h : LoopsBeside shown s t)
    (hshown : hidden → shown ∨ 1 < s.session.line.result.numParams) : LoopsBeside hidden s t := by
  obtain ⟨session, rfl, parser, line, lineStart, dispatched, rfl, hline, hrest⟩ := h
  exact ⟨_, rfl, parser, line, lineStart, dispatched, rfl, hline.mono hshown, hrest⟩

theorem alikeFrom_of_second {α : Type} {x : LoopM α} (hst : LoopsBeside shown s t)
    (hsecond : shown ∨ 1 < s.session.line.result.numParams) (hx : Alike True x) :
    AlikeFrom shown s t x x :=
  (alikeFrom (hst.mono fun _ => hsecond) hx).weaken (fun _ _ h => h)
    (fun _ _ _ _ h => ⟨h.1, h.2.mono fun _ => .inl trivial⟩) fun _ _ _ _ h => h

theorem alike_param (i : ℕ) (hi : i < 2) : Alike True (param i) := by
  apply alike_of_from
  intro s t hst
  refine (reads_param hst ?_).alikeFrom hst
  rcases Nat.lt_succ_iff_lt_or_eq.mp hi with hi | rfl
  · exact .inr (.inl (by omega))
  · exact .inr (.inr ⟨rfl, trivial⟩)

theorem alike_handleCtcpRequest (env : LineEnv) : Alike True (handleCtcpRequest env) := by
  apply alike_bind (alike_param 1 (by omega))
  intro text
  generalize ctcpBuf text libircBufferSize = buf
  refine alike_ite ?_ (alike_ite ?_ ?_)
  · apply alike_of_from
    intro s t hst
    apply alikeFrom_get_bind
    obtain ⟨ρ, hheap, hr⟩ := hst.sameLine
    dsimp only
    rw [hr.nick.text]
    exact alikeFrom hst (alike_onEvent _)
  · refine alike_bind (alike_onSession (simulates_setLine ?_ ?_)) fun _ => alike_dumpEvent
    · exact fun _ hl => LineSteps.Bounded.replaceParam hl 1 1 _
    · intro l l' h
      refine h.replaceParam 1 _ fun j hj hne => .inr (.inl ?_)
      rcases hj with hj | hj | hj
      · omega
      · exact hj
      · exact absurd hj.1 hne
  · refine alike_bind (alike_onSession (simulates_setLine ?_ ?_)) fun _ =>
      alike_libircEventCtcpInternal env
    · exact fun _ hl => LineSteps.Bounded.replaceParam hl 0 0 _
    · intro l l' h
      refine h.replaceParam 0 _ fun j hj hne => .inr ?_
      rcases hj with hj | hj
      · exact absurd (by omega) hne
      · exact hj

theorem alike_ircPingCommand : Alike shown ircPingCommand := by
  apply alike_of_from
  intro s t hst
  apply alikeFrom_get_bind
  obtain ⟨ρ, hheap, hr⟩ := hst.sameLine
  refine alikeFrom_ite (hr.params 0 (.inr (.inl rfl))).none_iff
    (fun _ => alikeFrom hst (alike_pure _)) fun _ => ?_
  exact (reads_param hst (.inr (.inl rfl))).bind hst fun text =>
    alikeFrom hst (alike_onSession (simulates_send _))

theorem alike_ircNickCommand : Alike shown ircNickCommand := by
  apply alike_of_from
  intro s t hst
  apply alikeFrom_get_bind
  dsimp only [handling_onSession]
  obtain ⟨ρ, hheap, hr⟩ := hst.sameLine
  refine (reads_deref hheap hr.nick).bind hst fun nick => ?_
  refine alikeFrom_ite (by rw [hst.nick, hst.numParams]) (fun _ => ?_) fun _ =>
    alikeFrom hst (alike_pure _)
  refine (reads_param hst (.inr (.inl rfl))).bind hst fun newNick => alikeFrom hst (alike_onSession ?_)
  apply simulates_modify
  rintro s t ⟨parser, line, lineStart, dispatched, rfl, hline⟩
  exact ⟨parser, line, lineStart, dispatched, rfl, hline⟩

theorem alike_ircPrivmsgCommand (env : LineEnv) : Alike shown (ircPrivmsgCommand env) := by
  apply alike_of_from
  intro s t hst
  apply alikeFrom_get_bind
  refine alikeFrom_ite (by rw [hst.numParams]) (fun _ => alikeFrom hst (alike_pure _)) fun hnum => ?_
  have hsecond : 1 < s.session.line.result.numParams := by omega
  refine (reads_param hst (.inl hsecond)).bind hst fun text => ?_
  refine alikeFrom_ite Iff.rfl (fun _ => ?_) fun _ => ?_
  · exact alikeFrom_of_second hst (.inr hsecond) (alike_handleCtcpRequest env)
  · refine (reads_param hst (.inr (.inl rfl))).bind hst fun target => ?_
    rw [← hst.nick]
    exact alikeFrom hst
      (alike_ite (alike_bind (alike_take _) fun _ => alike_dumpEvent) (alike_pure _))

theorem alike_ircNoticeCommand (event : Bytes) : Alike True (ircNoticeCommand event) := by
  apply alike_bind (alike_param 1 (by omega))
  intro text
  apply alike_of_from
  intro s t hst
  apply alikeFrom_get_bind
  refine alikeFrom_ite (by rw [hst.numParams]) (fun _ => alikeFrom hst ?_) fun _ => ?_
  · refine alike_bind (alike_onSession (simulates_setLine ?_ ?_)) fun _ => alike_dumpEvent
    · exact fun _ hl => LineSteps.Bounded.replaceParam (LineSteps.Bounded.freeParams hl) 0 0 _
    · exact fun _ _ h => h.replyToNotice text
  · refine (reads_param hst (.inr (.inl rfl))).bind hst fun target => ?_
    rw [← hst.nick]
    exact alikeFrom hst
      (alike_ite (alike_bind (alike_take _) fun _ => alike_eventNotice event) (alike_pure _))

def targetsNick (s : LineSession) : Bool :=
  0 < s.line.result.numParams && (paramText s 0).any fun target => strnEquals target s.nick (strlen s.nick)

theorem paramText_of_run {i : ℕ} {text : Bytes} (h : (param i).run s = .ok text s) :
    paramText s.session i = some text := by
  cases htext : paramText s.session i with
  | none =>
    obtain ⟨fault, hrun⟩ := param_run_of_none htext
    rw [h] at hrun
    cases hrun
  | some text' =>
    rw [param_run_of_some htext] at h
    cases h
    rfl

theorem alikeFrom_ircModeCommand (hst : LoopsBeside shown s t)
    (hsecond : targetsNick s.session = true → shown ∨ 1 < s.session.line.result.numParams) :
    AlikeFrom shown s t ircModeCommand ircModeCommand := by
  apply alikeFrom_get_bind
  refine alikeFrom_ite (by rw [hst.numParams]) (fun hnum => ?_) fun _ => alikeFrom hst alike_eventMode
  refine (reads_param hst (.inr (.inl rfl))).bind_of_ok hst fun target hrun => ?_
  rw [← hst.nick]
  refine alikeFrom_ite Iff.rfl (fun hown => ?_) fun _ => alikeFrom hst alike_eventMode
  have htargets : targetsNick s.session = true := by
    simp [targetsNick, paramText_of_run hrun, hnum, hown]
  refine alikeFrom_of_second hst (hsecond htargets) (alike_bind (alike_take _) fun _ =>
    alike_bind (alike_onSession (simulates_setLine ?_ ?_)) fun _ => alike_eventUmode)
  · exact fun _ hl => LineSteps.Bounded.moveMode hl
  · exact fun _ _ h => h.moveMode (.inr trivial)

/-- The handler takes the second slot, whether the line has a second parameter or not. -/
def takesSecond (s : LineSession) (handler : IrcCommand) : Bool :=
  handler = .notice || (handler = .mode && targetsNick s)

theorem alikeFrom_execute (env : LineEnv) (command : Bytes) {handler : IrcCommand}
    (hst : LoopsBeside shown s t)
    (hsecond : takesSecond s.session handler = true → shown ∨ 1 < s.session.line.result.numParams) :
    AlikeFrom shown s t (execute env command handler) (execute env command handler) := by
  cases handler with
  | ping => exact alikeFrom hst alike_ircPingCommand
  | nick => exact alikeFrom hst alike_ircNickCommand
  | join => exact alikeFrom hst alike_eventJoin
  | mode => exact alikeFrom_ircModeCommand hst fun h => hsecond (by simp [takesSecond, h])
  | privmsg => exact alikeFrom hst (alike_ircPrivmsgCommand env)
  | notice => exact alikeFrom_of_second hst (hsecond rfl) (alike_ircNoticeCommand command)
  | unknown => exact alikeFrom hst alike_dumpEvent
  | quit | part | topic | kick | invite | kill => exact alikeFrom hst (alike_pure _)

theorem simulates_dispatch (d : Commands.Dispatch) :
    Simulates id (Beside shown) (dispatch d) (dispatch d) := by
  apply simulates_modify
  rintro s t ⟨parser, line, lineStart, dispatched, rfl, hline⟩
  exact ⟨parser, line, lineStart, dispatched ++ [d], rfl, hline⟩

theorem alike_connectOnMotd (code : ℕ) : Alike shown (connectOnMotd code) := by
  apply alike_of_from
  intro s t hst
  apply alikeFrom_get_bind
  obtain ⟨session, rfl, parser, line, lineStart, dispatched, rfl, hline⟩ := id hst
  have hreceived : Alike shown (onSession (modify fun t => { t with motdReceived := true })) := by
    apply alike_onSession
    apply simulates_modify
    rintro s t ⟨parser, line, lineStart, dispatched, rfl, hline⟩
    exact ⟨parser, line, lineStart, dispatched, rfl, hline⟩
  exact alikeFrom hst (alike_ite (alike_bind hreceived fun _ => alike_eventConnect) (alike_pure _))

theorem alike_handleNumeric (command : Bytes) : Alike shown (handleNumeric command) :=
  alike_bind (alike_connectOnMotd _) fun _ =>
    alike_bind (alike_onSession (simulates_dispatch _)) fun _ => alike_eventNumeric _

theorem alikeFrom_handleCommand (env : LineEnv) {command : Bytes} (hst : LoopsBeside shown s t)
    (hsecond : takesSecond s.session (Commands.getCommand command (strlen command)) = true →
      shown ∨ 1 < s.session.line.result.numParams) :
    AlikeFrom shown s t (handleCommand env command) (handleCommand env command) := by
  let d : Commands.Dispatch := .command (Commands.getCommand command (strlen command)) command
  have hnext : LoopsBeside shown (dispatched s d) (dispatched t d) := by
    obtain ⟨session, rfl, parser, line, lineStart, entries, rfl, hline⟩ := hst
    exact ⟨_, rfl, parser, line, lineStart, entries ++ [d], rfl, hline⟩
  rintro s' t' ⟨rfl, rfl⟩
  exact alikeFrom_execute env command hnext hsecond _ _ ⟨rfl, rfl⟩

def ReadsSecond (s : LineSession) : Prop :=
  s.line.result.numParams < 2 ∧ (HandlerOutcomes.handlerOf s.line.result).any (takesSecond s) = true

instance (s : LineSession) : Decidable (ReadsSecond s) := by
  unfold ReadsSecond
  infer_instance

theorem alikeFrom_handleParserResult (env : LineEnv) (hst : LoopsBeside shown s t)
    (hsecond : ¬ shown → ¬ ReadsSecond s.session) :
    AlikeFrom shown s t (handleParserResult env) (handleParserResult env) := by
  apply alikeFrom_get_bind
  dsimp only
  obtain ⟨ρ, hheap, hr⟩ := hst.sameLine
  have hcommand := hr.command
  cases hs : s.session.line.result.command with
  | none =>
    rw [hcommand.none_iff.mp hs]
    exact alikeFrom hst (alike_pure _)
  | some command =>
    cases ht : t.session.line.result.command with
    | none =>
      rw [hcommand.none_iff.mpr ht] at hs
      cases hs
    | some command' =>
      have htext := hcommand.text
      rw [hs, ht, Option.map_some, Option.map_some, Option.some.injEq] at htext
      dsimp only
      rw [← htext]
      refine alikeFrom_ite Iff.rfl (fun _ => alikeFrom hst (alike_handleNumeric _)) fun hnumeric => ?_
      apply alikeFrom_handleCommand env hst
      intro htakes
      by_contra hnot
      rw [not_or] at hnot
      apply hsecond hnot.1
      refine ⟨by omega, ?_⟩
      have hhandler : HandlerOutcomes.handlerOf s.session.line.result =
          some (Commands.getCommand command.text (strlen command.text)) := by
        rw [HandlerOutcomes.handlerOf, hs]
        exact if_neg hnumeric
      rw [hhandler]
      exact htakes

theorem simulates_setState (state : LibircState) (err : ℕ) :
    Simulates id (Beside shown) (setState state err) (setState state err) := by
  apply simulates_modify
  rintro s t ⟨parser, line, lineStart, dispatched, rfl, hline⟩
  exact ⟨parser, line, lineStart, dispatched, rfl, hline⟩

theorem alike_handleConnectingState (peer : Bool) (format : Format) :
    Alike shown (handleConnectingState peer format) := by
  apply alike_of_from
  intro s t hst
  apply alikeFrom_get_bind
  obtain ⟨session, rfl, parser, line, lineStart, dispatched, rfl, hline⟩ := id hst
  refine alikeFrom hst (alike_ite ?_ (alike_onSession (simulates_setState _ _)))
  exact alike_bind (alike_onSession (simulates_setState _ _)) fun _ =>
    alike_forM (fun buf => alike_onSession (simulates_send _)) _

theorem alike_printOutputCallback (outputFlag : Bool) : Alike shown (printOutputCallback outputFlag) := by
  apply alike_of_from
  intro s t hst
  apply alikeFrom_get_bind
  obtain ⟨session, rfl, parser, line, lineStart, dispatched, rfl, hline⟩ := id hst
  have htimer : Alike shown (if outputFlag then onEvent .outputTimer else pure ⟨⟩ : LoopM Unit) :=
    alike_ite (alike_onEvent _) (alike_pure _)
  exact alikeFrom hst (alike_ite (alike_bind alike_sendXdccRequests fun _ => htimer) htimer)

theorem alike_socketWrite (length : ℕ) : Alike shown (socketWrite length) := by
  apply relates_modify
  rintro s t ⟨session, rfl, parser, line, lineStart, dispatched, rfl, hline⟩
  exact ⟨rfl, _, rfl, parser, line, lineStart, dispatched, rfl, hline⟩

theorem alike_handle {e : LoopEvent} (hline : ∀ answers block, e ≠ .line answers block) :
    Alike shown (handle e) := by
  cases e with
  | clock now => exact alike_modify (fun _ _ => rfl) fun _ => rfl
  | keepAlive outputFlag => exact alike_printOutputCallback outputFlag
  | connecting peer format => exact alike_handleConnectingState peer format
  | line answers block => exact absurd rfl (hline answers block)
  | writable length => exact alike_socketWrite length
  | socket dccid ready => exact alike_onEvent _
  | addDescriptors => exact alike_onEvent _
  | closed => exact alike_onSession (simulates_setState _ _)
  | interrupt => exact alike_onSession (simulates_send _)

end loop

end Xdccget.PairedTurns
