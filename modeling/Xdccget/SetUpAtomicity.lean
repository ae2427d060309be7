import Xdccget.LockBalance
import Xdccget.LoopFrames

set_option autoImplicit false

/-!
# Set-ups that fail half way

What the functions that set a transfer up leave behind: which session they have
worked on, what they report, and whether the message they rely on was queued.
-/
namespace Xdccget.SetUpAtomicity
open CText DccMessages ClientState DccSessions Downloads DccEvents HaltingPrograms SessionSpecs
  DownloadSpecs LoopFrames
open LockBalance (NoHandshake)

/-- The text of a CTCP request before it is cut to the buffer of `irc_send_raw`. -/
def ctcpText (nick reply : Bytes) : Bytes :=
  bytes "PRIVMSG " ++ cstr nick ++ bytes " :" ++ [1] ++ cstr reply ++ [1]

/-- There is a nick to send to, and `irc_send_raw` takes the request. -/
def Takes (net : Net) (nick : Option Bytes) (reply : Bytes) : Prop :=
  ∃ n, nick = some n ∧ accepts net (ctcpText n reply) = true

def MessageQueued (s s' : Client) (nick : Option Bytes) (reply : Bytes) : Prop :=
  ∃ n, nick = some n ∧ s'.net.outgoing = s.net.outgoing ++ ctcpLine n reply ++ [cr, lf]

/-- The buffer has changed as the request tells, and by nothing else. -/
def Asks (nick : Option Bytes) (reply : Bytes) (s s' : Client) : Prop :=
  (Takes s.net nick reply ∧ MessageQueued s s' nick reply) ∨
    (¬ Takes s.net nick reply ∧ s'.net.outgoing = s.net.outgoing)

/-- Neither the connection nor the buffer nor the configuration is touched. -/
structure Silent (s t : Client) : Prop where
  state : t.net.state = s.net.state
  outgoing : t.net.outgoing = s.net.outgoing
  cfg : t.cfg = s.cfg

theorem silent_frame : Frame Silent where
  refl _ := ⟨rfl, rfl, rfl⟩
  trans _ _ _ h h' :=
    ⟨h'.state.trans h.state, h'.outgoing.trans h.outgoing, h'.cfg.trans h.cfg⟩

section messages
variable {nick : Option Bytes} {reply : Bytes} {s t u : Client}

theorem Takes.silent (h : Silent s t) : Takes t.net nick reply ↔ Takes s.net nick reply := by
  unfold Takes accepts
  rw [h.state, h.outgoing]

theorem Asks.silent_left (h : Silent s t) (ht : Asks nick reply t u) : Asks nick reply s u := by
  unfold Asks MessageQueued at ht ⊢
  rwa [Takes.silent h, h.outgoing] at ht

theorem Asks.silent_right (hs : Asks nick reply s t) (h : Silent t u) : Asks nick reply s u := by
  unfold Asks MessageQueued at hs ⊢
  rwa [h.outgoing]

theorem Asks.messageQueued_iff (h : Asks nick reply s t) :
    (∃ reply', MessageQueued s t nick reply') ↔ Takes s.net nick reply := by
  rcases h with ⟨htakes, hqueued⟩ | ⟨hnot, hsame⟩
  · exact ⟨fun _ => htakes, fun _ => ⟨reply, hqueued⟩⟩
  · refine ⟨?_, fun htakes => absurd htakes hnot⟩
    rintro ⟨reply', n, -, hqueued⟩
    have hlen := congrArg List.length (hsame.symm.trans hqueued)
    simp at hlen

theorem Asks.queued_iff (h : Asks nick reply s t) :
    MessageQueued s t nick reply ↔ Takes s.net nick reply :=
  ⟨fun hqueued => h.messageQueued_iff.mp ⟨reply, hqueued⟩, fun htakes => by
    rcases h with ⟨-, hqueued⟩ | ⟨hnot, -⟩
    · exact hqueued
    · exact absurd htakes hnot⟩

theorem ircCmdCtcpRequest_asks (nick : Option Bytes) (reply : Bytes) :
    Moves (Asks nick reply) (ircCmdCtcpRequest nick reply) := by
  intro s
  cases nick with
  | none => exact .inr ⟨by simp [Takes], rfl⟩
  | some n =>
    have hrun := ircSendRaw_eq (ctcpText n reply) s
    change Asks (some n) reply s (endState (ircSendRaw (ctcpText n reply)) s)
    rw [endState_of_ok hrun]
    by_cases h : accepts s.net (ctcpText n reply) = true
    · refine .inl ⟨⟨n, rfl, h⟩, n, rfl, ?_⟩
      simp only [sentClient, afterSend, h, if_true]
      rfl
    · refine .inr ⟨?_, ?_⟩
      · rintro ⟨m, hm, htake⟩
        obtain rfl := Option.some.inj hm
        exact h htake
      · simp only [sentClient, afterSend, h]
        rfl

theorem ensures_before {α : Type} {x : ClientM α} (h : Moves Silent x) :
    Ensures (Silent s) x (fun _ => Silent s) fun _ => True := by
  intro t ht
  cases hx : x.run t with
  | ok a u => exact silent_frame.trans s t u ht (h.of_ok hx)
  | error e u => trivial

theorem ensures_request (nick : Option Bytes) (reply : Bytes) :
    Ensures (Silent s) (discard (ircCmdCtcpRequest nick reply)) (fun _ => Asks nick reply s)
      fun _ => True := by
  intro t ht
  cases hx : (discard (ircCmdCtcpRequest nick reply)).run t with
  | ok a u => exact ((moves_discard (ircCmdCtcpRequest_asks nick reply)).of_ok hx).silent_left ht
  | error e u => trivial

theorem ensures_after {α : Type} {x : ClientM α} (h : Moves Silent x) :
    Ensures (Asks nick reply s) x (fun _ => Asks nick reply s) fun _ => True := by
  intro t ht
  cases hx : x.run t with
  | ok a u => exact ht.silent_right (h.of_ok hx)
  | error e u => trivial

theorem silent_modify {f : Client → Client} (h : ∀ s, Silent s (f s)) :
    Moves Silent (modify f : ClientM PUnit) := h

theorem silent_record (a : Action) : Moves Silent (record a) := silent_modify fun _ => ⟨rfl, rfl, rfl⟩

theorem silent_unlock : Moves Silent libircMutexUnlock := silent_modify fun _ => ⟨rfl, rfl, rfl⟩

theorem silent_modifySession (id : ℕ) (f : DccSession → DccSession) :
    Moves Silent (modifySession id f) := silent_modify fun _ => ⟨rfl, rfl, rfl⟩

theorem ensures_found {α : Type} {found : DccSession → Bool} {dcc : DccSession}
    {f : Option DccSession → ClientM α} {Q : α → Client → Prop}
    (hf : s.dccSessions.find? found = some dcc)
    (h : Ensures (Silent s) (f (some dcc)) Q fun _ => True) :
    Ensures (fun t => t = s) (libircFind found true >>= f) Q fun _ => True := by
  rintro t rfl
  rw [run_bind_of_ok (libircFind_run_of_some hf)]
  exact h _ ⟨rfl, rfl, rfl⟩

end messages

section requests
variable {s : Client} {id : ℕ} {dcc : DccSession}

theorem ircDccResume_asks (hf : s.dccSessions.find? (fun d => d.id = id) = some dcc)
    (hinit : dcc.state = .init) (ctx : Option ℕ) (cb : DataCallback) (nick : Option Bytes)
    (position : ℕ) :
    Ensures (fun t => t = s) (ircDccResume id ctx cb nick position)
      (fun _ => Asks nick (dccResumeText dcc.sinPort position) s) fun _ => True := by
  refine ensures_found hf (ensures_ite (fun h => absurd hinit h) fun _ => ?_)
  refine ensures_bind (ensures_before (silent_modifySession _ _)) fun _ => ?_
  refine ensures_bind (ensures_before (silent_record _)) fun _ => ?_
  refine ensures_bind (ensures_request _ _) fun _ => ?_
  refine ensures_bind (ensures_after (silent_modifySession _ _)) fun _ => ?_
  exact ensures_bind (ensures_after silent_unlock) fun _ => ensures_pure fun _ h => h

theorem ircDccResumeReverse_asks (hf : s.dccSessions.find? (fun d => d.id = id) = some dcc)
    (hinit : dcc.state = .init) (ctx : Option ℕ) (cb : ReverseCallback) (nick : Option Bytes)
    (position token : ℕ) :
    Ensures (fun t => t = s) (ircDccResumeReverse id ctx cb nick position token)
      (fun _ => Asks nick (dccResumeReverseText position token) s) fun _ => True := by
  refine ensures_found hf (ensures_ite (fun h => absurd hinit h) fun _ => ?_)
  refine ensures_bind (ensures_before (silent_modifySession _ _)) fun _ => ?_
  refine ensures_bind (ensures_before (silent_record _)) fun _ => ?_
  refine ensures_bind (ensures_request _ _) fun _ => ?_
  refine ensures_bind (ensures_after (silent_modifySession _ _)) fun _ => ?_
  exact ensures_bind (ensures_after silent_unlock) fun _ => ensures_pure fun _ h => h

theorem ircDccAcceptReverse_asks (hf : s.dccSessions.find? (fun d => d.id = id) = some dcc)
    (hinit : dcc.state = .init) {env : Env} {addr : ℕ} (haddr : env.inetPton = some addr)
    (ctx : Option ℕ) (cb : DataCallback) (nick : Option Bytes) (filename : Bytes)
    (size token : ℕ) :
    Ensures (fun t => t = s) (ircDccAcceptReverse env id ctx cb nick filename size token)
      (fun _ => Asks nick (dccSendReverseText filename addr s.cfg.listenPort size token) s)
      fun _ => True := by
  refine ensures_found hf (ensures_ite (fun h => absurd hinit h) fun _ => ?_)
  simp only [haddr]
  refine ensures_get_bind fun t ht => ?_
  rw [← ht.cfg]
  refine Ensures.weaken (P := Silent s) ?_ (fun _ hu => hu ▸ ht) (fun _ _ h => h) fun _ h => h
  refine ensures_bind (ensures_request _ _) fun _ => ?_
  refine ensures_bind (ensures_after (silent_modifySession _ _)) fun _ => ?_
  refine ensures_bind (ensures_after (silent_record _)) fun _ => ?_
  exact ensures_bind (ensures_after silent_unlock) fun _ => ensures_pure fun _ h => h

end requests

def Began (s : Client) (id : ℕ) : Prop :=
  ∃ d, s.dccSessions.find? (fun d => d.id = id) = some d ∧ d.state = .init

def IsRemoved (s : Client) (id : ℕ) : Prop :=
  ∃ d, s.dccSessions.find? (fun d => d.id = id) = some d ∧ d.state = .removed

def OthersSame (id : ℕ) (s s' : Client) : Prop :=
  s'.dccSessions.filter (fun d => d.id ≠ id) = s.dccSessions.filter (fun d => d.id ≠ id)

/-- A success means that the step is complete; a failure leaves the session REMOVED, or the list
    as it was where there was no new session to work on. -/
def AtomicOn (s : Client) (id : ℕ) (call : ClientM ℕ) (complete : Client → Prop) : Prop :=
  ∀ ret s', call.run s = .ok ret s' →
    OthersSame id s s' ∧ (ret = 0 → Began s id ∧ complete s') ∧
      (ret ≠ 0 → (Began s id → IsRemoved s' id) ∧
        (¬ Began s id → s'.dccSessions = s.dccSessions))

/-- What `accept_reverse_dcc_send` has to report, if the calls for its new session fail. -/
def offerError (env : Env) (ssl : Bool) (s : Client) : Option ℕ :=
  if ¬ CanOpen env ssl s then some libircErrSocket
  else if !env.bind then some libircBindFailed
  else if !env.listen then some libircListenFailed
  else none

/-- A failure is reported and the new session is REMOVED or not in the list; without one a message
    to the bot is queued. -/
def AtomicOffer (s : Client) (env : Env) (nick : Option Bytes) (ssl : Bool)
    (call : ClientM Unit) : Prop :=
  ∀ s', call.run s = .ok ⟨⟩ s' →
    (∀ err, offerError env ssl s = some err → s'.net.lasterror = err ∧
      (s'.dccSessions = s.dccSessions ∨
        ∃ d : DccSession, d.state = .removed ∧ s'.dccSessions = d :: s.dccSessions)) ∧
      (offerError env ssl s = none → ∃ reply, MessageQueued s s' nick reply)

inductive SetUp
  | acceptReverseDccSend (env : Env) (nick : Option Bytes) (filename : Bytes)
    (ip size token : ℕ) (ssl : Bool)
  | accept (env : Env) (dccid : ℕ) (ctx : Option ℕ) (callback : DataCallback)
  | acceptReverse (env : Env) (dccid : ℕ) (ctx : Option ℕ) (callback : DataCallback)
    (nick : Option Bytes) (filename : Bytes) (size token : ℕ)
  | resume (dccid : ℕ) (ctx : Option ℕ) (callback : DataCallback) (nick : Option Bytes)
    (position : ℕ)
  | resumeReverse (dccid : ℕ) (ctx : Option ℕ) (callback : ReverseCallback)
    (nick : Option Bytes) (position token : ℕ)

def SetUp.Atomic (s : Client) : SetUp → Prop
  | .acceptReverseDccSend env nick filename ip size token ssl =>
    AtomicOffer s env nick ssl (DccEvents.acceptReverseDccSend env nick filename ip size token ssl)
  | .accept env dccid ctx callback =>
    AtomicOn s dccid (ircDccAccept env dccid ctx callback) fun _ =>
      ∀ d, s.dccSessions.find? (fun d => d.id = dccid) = some d →
        env.connect = true ∧ (d.ssl = true → env.sslConnect = true)
  | .acceptReverse env dccid ctx callback nick filename size token =>
    AtomicOn s dccid (ircDccAcceptReverse env dccid ctx callback nick filename size token)
      fun s' => ∃ addr, env.inetPton = some addr ∧
        MessageQueued s s' nick (dccSendReverseText filename addr s.cfg.listenPort size token)
  | .resume dccid ctx callback nick position =>
    AtomicOn s dccid (ircDccResume dccid ctx callback nick position) fun s' =>
      ∀ d, s.dccSessions.find? (fun d => d.id = dccid) = some d →
        MessageQueued s s' nick (dccResumeText d.sinPort position)
  | .resumeReverse dccid ctx callback nick position token =>
    AtomicOn s dccid (ircDccResumeReverse dccid ctx callback nick position token)
      fun s' => MessageQueued s s' nick (dccResumeReverseText position token)

/-- What the request callback asks the bot for; `none` where it ends the process instead. -/
def offerReply (s : Client) (env : Env) (filename : Bytes) (size token : ℕ) : Option Bytes :=
  if containsIllegalChars filename || !env.fopen then none
  else
    let accept := env.inetPton.map fun addr =>
      dccSendReverseText filename addr s.cfg.listenPort size token
    match s.files (getCompletePath s.cfg filename) with
    | none => accept
    | some content =>
      if size = content.length then none
      else if content.length = 0 then accept
      else some (dccResumeReverseText content.length token)

/-- No step fails behind the first, and the buffer takes the message. -/
def SetUp.Undisturbed (s : Client) : SetUp → Prop
  | .acceptReverseDccSend env nick filename _ size token ssl =>
    CanOpen env ssl s → env.bind = true ∧ env.listen = true ∧
      ∀ reply, offerReply s env filename size token = some reply → Takes s.net nick reply
  | .accept env dccid _ _ =>
    ¬ ∃ d, s.dccSessions.find? (fun d => d.id = dccid) = some d ∧ NoHandshake env d
  | .acceptReverse env dccid _ _ nick filename size token =>
    Began s dccid → ∃ addr, env.inetPton = some addr ∧
      Takes s.net nick (dccSendReverseText filename addr s.cfg.listenPort size token)
  | .resume dccid _ _ nick position =>
    ∀ d, s.dccSessions.find? (fun d => d.id = dccid) = some d → d.state = .init →
      Takes s.net nick (dccResumeText d.sinPort position)
  | .resumeReverse dccid _ _ nick position token =>
    Began s dccid → Takes s.net nick (dccResumeReverseText position token)

section operations
variable {s s' : Client} {id ret : ℕ} {call : ClientM ℕ} {complete : Client → Prop}

theorem othersSame_sessionOp (s : Client) (net : Net) {f : DccSession → DccSession}
    (hf : ∀ d, (f d).id = d.id) (l : List Action) : OthersSame id s (sessionOp s net id f l) := by
  unfold OthersSame
  rw [sessionOp_dccSessions]
  induction s.dccSessions with
  | nil => rfl
  | cons d ds ih =>
    have hcons : updateSession id f (d :: ds) =
        (if d.id = id then f d else d) :: updateSession id f ds := rfl
    rw [hcons]
    by_cases hd : d.id = id
    · simpa [hd, hf] using ih
    · simpa [hd] using ih

theorem atomicOn_iff_of_success (hbegan : Began s id) (hrun : call.run s = .ok 0 s')
    (hothers : OthersSame id s s') : AtomicOn s id call complete ↔ complete s' := by
  constructor
  · exact fun h => ((h 0 s' hrun).2.1 rfl).2
  · intro hcomplete ret t ht
    rw [hrun] at ht
    cases ht
    exact ⟨hothers, fun _ => ⟨hbegan, hcomplete⟩, fun h => absurd rfl h⟩

theorem atomicOn_iff_of_failure (hbegan : Began s id) (hrun : call.run s = .ok ret s')
    (hret : ret ≠ 0) (hothers : OthersSame id s s') :
    AtomicOn s id call complete ↔ IsRemoved s' id := by
  constructor
  · exact fun h => ((h ret s' hrun).2.2 hret).1 hbegan
  · intro hremoved ret' t ht
    rw [hrun] at ht
    cases ht
    exact ⟨hothers, fun h => absurd h hret, fun _ => ⟨fun _ => hremoved, fun h => absurd hbegan h⟩⟩

theorem began_of_init {d : DccSession} (hd : s.dccSessions.find? (fun d => d.id = id) = some d)
    (hinit : d.state = .init) : Began s id := ⟨d, hd, hinit⟩

theorem not_began_of_notInit (h : NotInit s id) : ¬ Began s id := fun ⟨d, hd, hinit⟩ =>
  h d hd hinit

theorem atomicOn_of_refused (h : NotInit s id) {net : Net}
    (hrun : call.run s = .ok 1 (withNet s net)) : AtomicOn s id call complete := by
  intro ret t ht
  rw [hrun] at ht
  cases ht
  exact ⟨rfl, fun h => absurd h (by decide),
    fun _ => ⟨fun hb => absurd hb (not_began_of_notInit h), fun _ => rfl⟩⟩

theorem accept_atomic_iff (env : Env) (ctx : Option ℕ) (callback : DataCallback) :
    (SetUp.accept env id ctx callback).Atomic s ↔
      (SetUp.accept env id ctx callback).Undisturbed s := by
  rcases TableChanges.exists_init_or_notInit s id with ⟨dcc, hd, hinit⟩ | hnot
  · have hbegan := began_of_init hd hinit
    have hfound (d : DccSession) (h : s.dccSessions.find? (fun d => d.id = id) = some d) :
        d = dcc := Option.some.inj (h.symm.trans hd)
    cases hconnect : env.connect with
    | false =>
      obtain ⟨net, hrun⟩ := ircDccAccept_run_of_refused hd hinit hconnect ctx callback
      refine (atomicOn_iff_of_failure hbegan hrun (by decide)
        (othersSame_sessionOp s net (by exact fun _ => rfl) _)).trans ⟨fun _ => ?_, fun _ => ?_⟩
      · rintro ⟨d, -, -, hyes, -⟩
        rw [hconnect] at hyes
        cases hyes
      · exact ⟨_, find?_sessionOp hd net (by exact fun _ => rfl) _, rfl⟩
    | true =>
      by_cases hno : dcc.ssl = true ∧ env.sslConnect = false
      · obtain ⟨net, hrun, -⟩ :=
          ircDccAccept_run_of_noHandshake hd hinit hconnect hno.1 hno.2 ctx callback
        refine (atomicOn_iff_of_failure hbegan hrun (by decide)
          (othersSame_sessionOp s net (by exact fun _ => rfl) _)).trans ⟨?_, fun h => ?_⟩
        · rintro ⟨d, hfind, hremoved⟩
          obtain rfl := Option.some.inj
            ((find?_sessionOp hd net (by exact fun _ => rfl) _).symm.trans hfind)
          rw [hinit] at hremoved
          cases hremoved
        · exact absurd ⟨dcc, hd, hinit, hconnect, hno.1, hno.2⟩ h
      · have hssl : dcc.ssl = true → env.sslConnect = true := by
          intro hneed
          cases hshake : env.sslConnect with
          | true => rfl
          | false => exact absurd ⟨hneed, hshake⟩ hno
        obtain ⟨ret, net, f, hrun, haccepted⟩ := ircDccAccept_run hd hinit env ctx callback
        cases haccepted with
        | done _ _ =>
          refine (atomicOn_iff_of_success hbegan hrun
            (othersSame_sessionOp s net (by exact fun _ => rfl) _)).trans ⟨fun _ => ?_, fun _ => ?_⟩
          · rintro ⟨d, h, -, -, hneed, hfail⟩
            obtain rfl := hfound d h
            exact hno ⟨hneed, hfail⟩
          · intro d h
            obtain rfl := hfound d h
            exact ⟨hconnect, hssl⟩
        | refused hfail =>
          rw [hconnect] at hfail
          cases hfail
        | noHandshake hneed hfail => exact absurd ⟨hneed, hfail⟩ hno
  · obtain ⟨net, hrun⟩ := ircDccAccept_run_of_notInit hnot env ctx callback
    refine ⟨fun _ => ?_, fun _ => atomicOn_of_refused hnot hrun⟩
    rintro ⟨d, hd, hno⟩
    exact hnot d hd hno.1

theorem asking_atomic_iff {dcc : DccSession} {nick : Option Bytes} {reply : Bytes} {net : Net}
    {f : DccSession → DccSession} {l : List Action}
    (hd : s.dccSessions.find? (fun d => d.id = id) = some dcc) (hinit : dcc.state = .init)
    (hrun : call.run s = .ok 0 (sessionOp s net id f l)) (hf : ∀ d, (f d).id = d.id)
    (hasks : Ensures (fun t => t = s) call (fun _ => Asks nick reply s) fun _ => True)
    (hcomplete : ∀ t, complete t ↔ MessageQueued s t nick reply) :
    AtomicOn s id call complete ↔ Takes s.net nick reply := by
  rw [atomicOn_iff_of_success (began_of_init hd hinit) hrun (othersSame_sessionOp s net hf l),
    hcomplete]
  exact (hasks.of_ok rfl hrun).queued_iff

theorem resume_atomic_iff (ctx : Option ℕ) (callback : DataCallback) (nick : Option Bytes)
    (position : ℕ) :
    (SetUp.resume id ctx callback nick position).Atomic s ↔
      (SetUp.resume id ctx callback nick position).Undisturbed s := by
  rcases TableChanges.exists_init_or_notInit s id with ⟨dcc, hd, hinit⟩ | hnot
  · obtain ⟨net, l, hrun, -⟩ := ircDccResume_run hd hinit ctx callback nick position
    have hfound (d : DccSession) (h : s.dccSessions.find? (fun d => d.id = id) = some d) :
        d = dcc := Option.some.inj (h.symm.trans hd)
    refine (asking_atomic_iff hd hinit hrun (by exact fun _ => rfl)
      (ircDccResume_asks hd hinit ctx callback nick position) ?_).trans ⟨?_, ?_⟩
    · intro t
      refine ⟨fun h => h dcc hd, fun h d hd' => ?_⟩
      rw [hfound d hd']
      exact h
    · intro h d hd' _
      rw [hfound d hd']
      exact h
    · exact fun h => h dcc hd hinit
  · obtain ⟨net, hrun⟩ := ircDccResume_run_of_notInit hnot ctx callback nick position
    exact ⟨fun _ d hd hinit => absurd hinit (hnot d hd), fun _ => atomicOn_of_refused hnot hrun⟩

theorem resumeReverse_atomic_iff (ctx : Option ℕ) (callback : ReverseCallback)
    (nick : Option Bytes) (position token : ℕ) :
    (SetUp.resumeReverse id ctx callback nick position token).Atomic s ↔
      (SetUp.resumeReverse id ctx callback nick position token).Undisturbed s := by
  rcases TableChanges.exists_init_or_notInit s id with ⟨dcc, hd, hinit⟩ | hnot
  · obtain ⟨net, l, hrun, -⟩ := ircDccResumeReverse_run hd hinit ctx callback nick position token
    refine (asking_atomic_iff hd hinit hrun (by exact fun _ => rfl)
      (ircDccResumeReverse_asks hd hinit ctx callback nick position token) fun _ => Iff.rfl).trans ?_
    exact ⟨fun h _ => h, fun h => h (began_of_init hd hinit)⟩
  · obtain ⟨net, hrun⟩ := ircDccResumeReverse_run_of_notInit hnot ctx callback nick position token
    exact ⟨fun _ h => absurd h (not_began_of_notInit hnot), fun _ => atomicOn_of_refused hnot hrun⟩

theorem acceptReverse_atomic_iff (env : Env) (ctx : Option ℕ) (callback : DataCallback)
    (nick : Option Bytes) (filename : Bytes) (size token : ℕ) :
    (SetUp.acceptReverse env id ctx callback nick filename size token).Atomic s ↔
      (SetUp.acceptReverse env id ctx callback nick filename size token).Undisturbed s := by
  rcases TableChanges.exists_init_or_notInit s id with ⟨dcc, hd, hinit⟩ | hnot
  · have hbegan := began_of_init hd hinit
    rcases ircDccAcceptReverse_run hd hinit env ctx callback nick filename size token with
      ⟨haddr, net, hrun⟩ | ⟨addr, net, l, haddr, hrun, -⟩
    · refine (atomicOn_iff_of_failure hbegan hrun (by decide) rfl).trans ⟨?_, fun h => ?_⟩
      · rintro ⟨d, hfind, hremoved⟩
        obtain rfl := Option.some.inj (hd.symm.trans hfind)
        rw [hinit] at hremoved
        cases hremoved
      · obtain ⟨addr, hsome, -⟩ := h hbegan
        rw [haddr] at hsome
        cases hsome
    · have hthis (other : ℕ) (h : env.inetPton = some other) : other = addr :=
        Option.some.inj (h.symm.trans haddr)
      refine (asking_atomic_iff hd hinit hrun (by exact fun _ => rfl)
        (ircDccAcceptReverse_asks hd hinit haddr ctx callback nick filename size token) ?_).trans
        ⟨fun h _ => ⟨addr, haddr, h⟩, fun h => ?_⟩
      · intro t
        refine ⟨?_, fun h => ⟨addr, haddr, h⟩⟩
        rintro ⟨other, hsome, h⟩
        rwa [hthis other hsome] at h
      · obtain ⟨other, hsome, htakes⟩ := h hbegan
        rwa [hthis other hsome] at htakes
  · obtain ⟨net, hrun⟩ :=
      ircDccAcceptReverse_run_of_notInit hnot env ctx callback nick filename size token
    exact ⟨fun _ h => absurd h (not_began_of_notInit hnot), fun _ => atomicOn_of_refused hnot hrun⟩

end operations

section offers
variable {s u t : Client} {id : ℕ} {nick : Option Bytes} {reply : Bytes} {dcc : DccSession}

/-- From `u` the program returns only with a message queued since `s`. -/
def ReturnsQueued (s u : Client) (nick : Option Bytes) (x : ClientM Unit) : Prop :=
  ∀ s', x.run u = .ok ⟨⟩ s' → ∃ reply, MessageQueued s s' nick reply

theorem returnsQueued_of_error {x : ClientM Unit} {h : Halt} (hrun : x.run u = .error h t) :
    ReturnsQueued s u nick x := by
  intro s' hs'
  rw [hrun] at hs'
  cases hs'

theorem returnsQueued_iff {call : ClientM ℕ} (hrun : call.run u = .ok 0 t)
    (hasks : Asks nick reply s t) :
    ReturnsQueued s u nick (exitOnFailure call) ↔ Takes s.net nick reply := by
  rw [← hasks.messageQueued_iff]
  constructor
  · exact fun h => h t (exitOnFailure_run_of_ok hrun)
  · intro h s' hs'
    rw [exitOnFailure_run_of_ok hrun] at hs'
    cases hs'
    exact h

theorem returnsQueued_accept (hsilent : Silent s u)
    (hd : u.dccSessions.find? (fun d => d.id = id) = some dcc) (hinit : dcc.state = .init)
    (env : Env) (ctx : Option ℕ) (filename : Bytes) (size token : ℕ) :
    ReturnsQueued s u nick (exitOnFailure
      (ircDccAcceptReverse env id ctx .callbackDccRecvFile nick filename size token)) ↔
      ∀ reply, env.inetPton.map (fun addr =>
        dccSendReverseText filename addr s.cfg.listenPort size token) = some reply →
        Takes s.net nick reply := by
  rcases ircDccAcceptReverse_run hd hinit env ctx .callbackDccRecvFile nick filename size token with
    ⟨haddr, net, hrun⟩ | ⟨addr, net, l, haddr, hrun, -⟩
  · rw [haddr]
    exact ⟨fun _ _ h => (nomatch h),
      fun _ => returnsQueued_of_error (exitOnFailure_run_of_failure hrun (by decide))⟩
  · have hasks := (ircDccAcceptReverse_asks hd hinit haddr ctx .callbackDccRecvFile nick filename size
      token).of_ok rfl hrun
    rw [returnsQueued_iff hrun (hasks.silent_left hsilent), haddr, hsilent.cfg]
    exact ⟨fun h reply hreply => Option.some.inj hreply ▸ h, fun h => h _ rfl⟩

theorem returnsQueued_resume (hsilent : Silent s u)
    (hd : u.dccSessions.find? (fun d => d.id = id) = some dcc) (hinit : dcc.state = .init)
    (ctx : Option ℕ) (position token : ℕ) :
    ReturnsQueued s u nick (exitOnFailure
      (ircDccResumeReverse id ctx .callbackDccResumeFileReverse nick position token)) ↔
      Takes s.net nick (dccResumeReverseText position token) := by
  obtain ⟨net, l, hrun, -⟩ :=
    ircDccResumeReverse_run hd hinit ctx .callbackDccResumeFileReverse nick position token
  have hasks := (ircDccResumeReverse_asks hd hinit ctx .callbackDccResumeFileReverse nick position
    token).of_ok rfl hrun
  exact returnsQueued_iff hrun (hasks.silent_left hsilent)

theorem silent_started (hsilent : Silent s u) (env : Env) (filename : Bytes) (size : ℕ)
    (append : Bool) : Silent s (started u env filename size append) :=
  ⟨hsilent.state, hsilent.outgoing, hsilent.cfg⟩

theorem returnsQueued_recvFile (hsilent : Silent s u) (hfiles : u.files = s.files)
    (hd : u.dccSessions.find? (fun d => d.id = id) = some dcc) (hinit : dcc.state = .init)
    (env : Env) (filename : Bytes) (size token : ℕ) :
    ReturnsQueued s u nick (recvFileRequestReverse env nick filename size id token) ↔
      ∀ reply, offerReply s env filename size token = some reply → Takes s.net nick reply := by
  have hnone {x : ClientM Unit} (h : offerReply s env filename size token = none)
      (hx : ReturnsQueued s u nick x) : ReturnsQueued s u nick x ↔
        ∀ reply, offerReply s env filename size token = some reply → Takes s.net nick reply := by
    rw [h]
    exact ⟨fun _ _ hr => (nomatch hr), fun _ => hx⟩
  unfold recvFileRequestReverse
  cases hillegal : containsIllegalChars filename with
  | true =>
    exact hnone (by simp [offerReply, hillegal])
      (returnsQueued_of_error (recvFileWith_run_of_illegal hillegal))
  | false =>
    cases hopen : env.fopen with
    | false =>
      exact hnone (by simp [offerReply, hopen])
        (returnsQueued_of_error (recvFileWith_run_of_unopened hillegal hopen))
    | true =>
      cases hfile : s.files (getCompletePath s.cfg filename) with
      | none =>
        have hrun := @recvFileWith_run_of_missing u env filename size
          (fun context => ircDccAcceptReverse env id (some context) .callbackDccRecvFile nick
            filename size token)
          (fun context fileSize => ircDccResumeReverse id (some context)
            .callbackDccResumeFileReverse nick fileSize token) hillegal hopen
          (by rw [hfiles, hsilent.cfg, hfile])
        unfold ReturnsQueued
        rw [hrun]
        refine (returnsQueued_accept (silent_started hsilent env filename size false) hd hinit env _
          filename size token).trans ?_
        simp [offerReply, hillegal, hopen, hfile]
      | some content =>
        have hrun := @recvFileWith_run_of_existing u env filename size
          (fun context => ircDccAcceptReverse env id (some context) .callbackDccRecvFile nick
            filename size token)
          (fun context fileSize => ircDccResumeReverse id (some context)
            .callbackDccResumeFileReverse nick fileSize token) hillegal hopen content
          (by rw [hfiles, hsilent.cfg, hfile])
        have hstarted := silent_started hsilent env filename size true
        by_cases hsize : size = content.length
        · refine hnone (by simp [offerReply, hfile, hsize]) ?_
          rw [if_pos hsize] at hrun
          exact returnsQueued_of_error hrun
        · unfold ReturnsQueued
          rw [hrun, if_neg hsize]
          by_cases hempty : content.length = 0
          · rw [if_pos hempty]
            refine (returnsQueued_accept hstarted hd hinit env _ filename size token).trans ?_
            simp only [offerReply, hillegal, hopen, hfile, if_neg hsize, if_pos hempty]
            rfl
          · rw [if_neg hempty]
            refine (returnsQueued_resume hstarted hd hinit _ _ token).trans ?_
            simp [offerReply, hillegal, hopen, hfile, hsize, hempty]

theorem silent_libircNewDccSession (env : Env) (ip port : ℕ) (ctx : Option ℕ) (ssl : Bool) :
    Moves Silent (libircNewDccSession env ip port ctx ssl) := by
  unfold libircNewDccSession
  cases env.socket with
  | none => exact silent_frame.pure _
  | some sock =>
    have hinsert : Moves Silent (do
        let dccid := (← get).dccLastId
        modify fun s => { s with
          dccLastId := dccid + 1
          dccSessions := newSession dccid sock ip port ctx ssl :: s.dccSessions }
        return .ok dccid : ClientM (Except ℕ ℕ)) :=
      silent_frame.get_bind fun _ => silent_frame.bind (silent_modify fun _ => ⟨rfl, rfl, rfl⟩)
        fun _ => silent_frame.pure _
    have hcontext : Moves Silent
        (modify fun s => { s with net := { s.net with sslContext := true } } : ClientM PUnit) :=
      silent_modify fun _ => ⟨rfl, rfl, rfl⟩
    refine silent_frame.get_bind fun s => moves_ite (moves_ite ?_ ?_) hinsert
    · exact silent_frame.bind (silent_frame.throw _) fun _ => silent_frame.bind hcontext fun _ => hinsert
    · exact silent_frame.bind hcontext fun _ => hinsert

def offered (token : ℕ) (d : DccSession) : DccSession :=
  { d with passiveConnection := true, token := token }

theorem not_atomic_of_left {env : Env} {ssl : Bool} {call : ClientM Unit} {err : ℕ} {d : DccSession}
    {ds : List DccSession} (hrun : call.run s = .ok ⟨⟩ t) (herr : offerError env ssl s = some err)
    (hd : d.state = .init) (hlist : t.dccSessions = d :: ds)
    (hlen : ds.length = s.dccSessions.length) : ¬ AtomicOffer s env nick ssl call := by
  intro h
  obtain ⟨-, hsame | ⟨e, he, hcons⟩⟩ := (h t hrun).1 err herr
  · have hle := congrArg List.length (hlist.symm.trans hsame)
    rw [List.length_cons, hlen] at hle
    omega
  · obtain ⟨rfl, -⟩ := List.cons.inj (hlist.symm.trans hcons)
    rw [hd] at he
    cases he

theorem offer_atomic_iff (env : Env) (filename : Bytes) (ip size token : ℕ) (ssl : Bool) :
    (SetUp.acceptReverseDccSend env nick filename ip size token ssl).Atomic s ↔
      (SetUp.acceptReverseDccSend env nick filename ip size token ssl).Undisturbed s := by
  by_cases hopen : CanOpen env ssl s
  · obtain ⟨sock, net, hnew⟩ := libircNewDccSession_run_of_canOpen hopen ip 0 none
    let u := { withSession s net (newSession s.dccLastId sock ip 0 none ssl) with
      dccSessions := updateSession s.dccLastId (offered token)
        (newSession s.dccLastId sock ip 0 none ssl :: s.dccSessions) }
    have hlist : u.dccSessions = offered token (newSession s.dccLastId sock ip 0 none ssl) ::
        updateSession s.dccLastId (offered token) s.dccSessions :=
      congrArg (· :: _) (if_pos rfl)
    have hlen : (updateSession s.dccLastId (offered token) s.dccSessions).length =
        s.dccSessions.length := List.length_map ..
    have hrun : (DccEvents.acceptReverseDccSend env nick filename ip size token ssl).run s =
        (if !env.bind then (do setLasterror libircBindFailed; return)
          else if !env.listen then (do setLasterror libircListenFailed; return)
          else recvFileRequestReverse env nick filename size s.dccLastId token : ClientM Unit).run u := by
      rw [DccEvents.acceptReverseDccSend_eq]
      rw [run_bind_of_ok hnew]
      rfl
    change AtomicOffer s env nick ssl _ ↔ (CanOpen env ssl s → env.bind = true ∧ env.listen = true ∧
      ∀ reply, offerReply s env filename size token = some reply → Takes s.net nick reply)
    cases hbind : env.bind with
    | false =>
      simp only [hbind, Bool.not_false, if_true] at hrun
      have herr : offerError env ssl s = some libircBindFailed := by simp [offerError, hopen, hbind]
      refine iff_of_false (not_atomic_of_left hrun herr rfl hlist hlen) fun h => ?_
      · cases (h hopen).1
    | true =>
      cases hlisten : env.listen with
      | false =>
        simp only [hbind, hlisten, Bool.not_false, Bool.not_true, Bool.false_eq_true, if_true,
          if_false] at hrun
        have herr : offerError env ssl s = some libircListenFailed := by
          simp [offerError, hopen, hbind, hlisten]
        refine iff_of_false (not_atomic_of_left hrun herr rfl hlist hlen) fun h => ?_
        · cases (h hopen).2.1
      | true =>
        simp only [hbind, hlisten, Bool.not_true, Bool.false_eq_true, if_false] at hrun
        have hnone : offerError env ssl s = none := by simp [offerError, hopen, hbind, hlisten]
        have hsilent : Silent s u :=
          have h := (silent_libircNewDccSession env ip 0 none ssl).of_ok hnew
          ⟨h.state, h.outgoing, h.cfg⟩
        have hd : u.dccSessions.find? (fun d => d.id = s.dccLastId) =
            some (offered token (newSession s.dccLastId sock ip 0 none ssl)) := by
          rw [hlist]
          exact List.find?_cons_of_pos (by simp [offered, newSession])
        have hreturns := @returnsQueued_recvFile s u _ nick _ hsilent rfl hd rfl env filename size
          token
        unfold ReturnsQueued at hreturns
        unfold AtomicOffer
        rw [hrun, hnone]
        refine ⟨fun h _ => ⟨rfl, rfl, hreturns.mp fun s' hs' => (h s' hs').2 rfl⟩, fun h s' hs' => ?_⟩
        refine ⟨fun err herr => ?_, fun _ => hreturns.mpr (h hopen).2.2 s' hs'⟩
        cases herr
  · refine ⟨fun _ h => absurd h hopen, fun _ s' hs' => ?_⟩
    have herr : offerError env ssl s = some libircErrSocket := if_pos hopen
    rcases libircNewDccSession_run_of_not_canOpen hopen ip 0 none with hnew | hnew
    · rw [DccEvents.acceptReverseDccSend_eq] at hs'
      rw [run_bind_of_ok hnew] at hs'
      cases hs'
      refine ⟨fun err h => ?_, fun h => ?_⟩
      · obtain rfl := Option.some.inj (herr.symm.trans h)
        exact ⟨rfl, .inl rfl⟩
      · rw [herr] at h
        cases h
    · rw [DccEvents.acceptReverseDccSend_eq] at hs'
      rw [run_bind_of_error hnew] at hs'
      cases hs'

end offers

/-- A set-up is atomic exactly when no step behind its first fails without a clean-up and the
    output buffer takes the message that it relies on. -/
theorem set_up_atomic_iff (s : Client) (op : SetUp) : op.Atomic s ↔ op.Undisturbed s := by
  cases op with
  | acceptReverseDccSend env nick filename ip size token ssl =>
    exact offer_atomic_iff env filename ip size token ssl
  | accept env dccid ctx callback => exact accept_atomic_iff env ctx callback
  | acceptReverse env dccid ctx callback nick filename size token =>
    exact acceptReverse_atomic_iff env ctx callback nick filename size token
  | resume dccid ctx callback nick position => exact resume_atomic_iff ctx callback nick position
  | resumeReverse dccid ctx callback nick position token =>
    exact resumeReverse_atomic_iff ctx callback nick position token

def portTaken : Env := { readyEnv with bind := false }

theorem failed_bind_leaves_session :
    ¬ (SetUp.acceptReverseDccSend portTaken (some (bytes "bot")) (bytes "f") 1 9 7 false).Atomic
      (initial (oneBot false) connected noFiles) :=
  have herr : offerError portTaken false (initial (oneBot false) connected noFiles) =
      some libircBindFailed := by decide
  not_atomic_of_left rfl herr rfl rfl rfl

end Xdccget.SetUpAtomicity
