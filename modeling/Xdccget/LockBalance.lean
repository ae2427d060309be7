import Xdccget.DownloadFrames
import Xdccget.LockedCalls

set_option autoImplicit false

/-!
# The balance of the list lock

How often the lock of the session list is held when a function of the library
returns, and at which depth it calls the program. Three early returns keep the lock.
-/
namespace Xdccget.LockBalance
open CText DccMessages ClientState DccSessions Downloads HaltingPrograms SessionSpecs LockedCalls
open SocketTurns (Turn)
open DccEvents (SocketReady noEnv)

/-- The lock is held `k` times. -/
def Depth (k : ℤ) (s : Client) : Prop := s.net.mutexDcc = k

def Level (s t : Client) : Prop := t.net.mutexDcc = s.net.mutexDcc

/-- From depth `i` the program returns at depth `j`. A halt ends the process at any depth. -/
abbrev Goes {α : Type} (i j : ℤ) (x : ClientM α) : Prop :=
  Ensures (Depth i) x (fun _ => Depth j) fun _ => True

theorem level_frame : Frame Level where
  refl _ := rfl
  trans _ _ _ h h' := Eq.trans h' h

section programs
variable {α : Type} {k : ℤ}

theorem goes_of_level {x : ClientM α} (h : Moves Level x) : Goes k k x := by
  intro s hs
  cases hx : x.run s with
  | ok a t => exact (h.of_ok hx).trans hs
  | error e t => trivial

theorem goes_lock : Goes k (k + 1) libircMutexLock := ensures_modify fun _ hs => congrArg (· + 1) hs

theorem goes_unlock : Goes (k + 1) k libircMutexUnlock :=
  ensures_modify fun s hs => by
    have h : s.net.mutexDcc = k + 1 := hs
    exact sub_eq_of_eq_add h

theorem level_modify {f : Client → Client} (h : ∀ s, (f s).net.mutexDcc = s.net.mutexDcc) :
    Moves Level (modify f : ClientM PUnit) := h

theorem level_record (a : Action) : Moves Level (record a) := level_modify fun _ => rfl

theorem level_setLasterror (err : ℕ) : Moves Level (setLasterror err) := level_modify fun _ => rfl

theorem level_modifySession (id : ℕ) (f : DccSession → DccSession) :
    Moves Level (modifySession id f) := level_modify fun _ => rfl

theorem level_exitPgm : Moves Level exitPgm := level_frame.throw _

theorem level_ircSendRaw (text : Bytes) : Moves Level (ircSendRaw text) := by
  refine level_frame.get_bind fun s => moves_ite ?_ (moves_ite ?_ ?_)
  · exact level_frame.bind (level_setLasterror _) fun _ => level_frame.pure _
  · exact level_frame.bind (level_setLasterror _) fun _ => level_frame.pure _
  · refine level_frame.bind (level_modify fun _ => rfl) fun _ => ?_
    exact level_frame.bind (level_record _) fun _ => level_frame.pure _

theorem level_ircCmdCtcpRequest (nick : Option Bytes) (reply : Bytes) :
    Moves Level (ircCmdCtcpRequest nick reply) := by
  cases nick with
  | none => exact level_frame.bind (level_setLasterror _) fun _ => level_frame.pure _
  | some nick => exact level_ircSendRaw _

theorem level_libircFind_nolock (found : DccSession → Bool) : Moves Level (libircFind found false) :=
  fun s => by
    rw [endState_of_ok (libircFind_run_nolock found s)]
    exact level_frame.refl s

theorem level_libircDccDestroyNolock (id : ℕ) : Moves Level (libircDccDestroyNolock id) := fun s => by
  rw [endState_of_ok (libircDccDestroyNolock_run id s)]
  rfl

theorem level_watches : DownloadFrames.Watches Level where
  frame := level_frame
  aside _ _ _ _ hdepth _ := hdepth
  recorded a _ _ := level_record a
  quit := level_ircSendRaw quitLine

theorem ensures_find {β : Type} {found : DccSession → Bool} {P : DccSession → Prop}
    {f : Option DccSession → ClientM β} {Q : β → Client → Prop} {H : Client → Prop}
    (hnone : Ensures (Depth k) (f none) Q H)
    (hsome : ∀ d, P d → Ensures (Depth (k + 1)) (f (some d)) Q H) :
    Ensures (fun s => Depth k s ∧ ∀ d, s.dccSessions.find? found = some d → P d)
      (libircFind found true >>= f) Q H := by
  intro s hs
  cases hf : s.dccSessions.find? found with
  | none =>
    have h := hnone s hs.1
    rwa [← run_bind_of_ok (f := f) (libircFind_run_of_none hf true)] at h
  | some d =>
    have h := hsome d (hs.2 d hf) (withNet s (lockedNet s.net)) (congrArg (· + 1) hs.1)
    rwa [← run_bind_of_ok (f := f) (libircFind_run_of_some hf)] at h

theorem goes_refusal : Goes (k + 1) k (do
    setLasterror libircErrState
    libircMutexUnlock
    return 1 : ClientM ℕ) :=
  ensures_bind (goes_of_level (level_setLasterror _)) fun _ => ensures_bind goes_unlock fun _ =>
    ensures_pure fun _ hs => hs

/-- The session that is accepted has reached its peer and fails in the handshake. -/
def NoHandshake (env : Env) (d : DccSession) : Prop :=
  d.state = .init ∧ env.connect = true ∧ d.ssl = true ∧ env.sslConnect = false

/-- A new session is accepted the passive way with an address that cannot be read. -/
def NoAddress (env : Env) (d : DccSession) : Prop := d.state = .init ∧ env.inetPton = none

theorem ensures_ircDccAccept {P : DccSession → Prop} (env : Env) (dccid : ℕ) (ctx : Option ℕ)
    (callback : DataCallback) :
    Ensures (fun s => Depth k s ∧
        ∀ d, s.dccSessions.find? (fun d => d.id = dccid) = some d → P d)
      (ircDccAccept env dccid ctx callback)
      (fun ret s => Depth k s ∨ ret ≠ 0 ∧ ∃ d, P d ∧ NoHandshake env d) fun _ => True := by
  refine ensures_find (ensures_pure fun _ hs => .inl hs) fun d hd => ensures_ite ?_ ?_
  · intro _
    exact goes_refusal.weaken (fun _ hs => hs) (fun _ _ hs => .inl hs) fun _ hs => hs
  · intro hinit
    refine ensures_bind (goes_of_level (level_modifySession _ _)) fun _ => ?_
    refine ensures_bind (goes_of_level (level_record _)) fun _ => ensures_ite ?_ ?_
    · intro _
      refine ensures_bind (goes_of_level (level_libircDccDestroyNolock _)) fun _ => ?_
      refine ensures_bind goes_unlock fun _ => ?_
      refine ensures_bind (goes_of_level (level_setLasterror _)) fun _ => ?_
      exact ensures_pure fun _ hs => .inl hs
    · intro hconnect
      refine ensures_ite ?_ ?_
      · intro hssl
        refine ensures_bind (goes_of_level (level_setLasterror _)) fun _ => ?_
        refine ensures_pure fun _ _ => .inr ⟨by decide, d, hd, ?_⟩
        simp only [ne_eq, not_not] at hinit
        simp only [Bool.not_eq_true, Bool.not_eq_false'] at hconnect
        simp only [Bool.and_eq_true, Bool.not_eq_true'] at hssl
        exact ⟨hinit, hconnect, hssl.1, hssl.2⟩
      · intro _
        refine ensures_bind (goes_of_level (level_modifySession _ _)) fun _ => ?_
        exact ensures_bind goes_unlock fun _ => ensures_pure fun _ hs => .inl hs

theorem ensures_ircDccAcceptReverse {P : DccSession → Prop} (env : Env) (dccid : ℕ)
    (ctx : Option ℕ) (callback : DataCallback) (nick : Option Bytes) (filename : Bytes)
    (size token : ℕ) :
    Ensures (fun s => Depth k s ∧
        ∀ d, s.dccSessions.find? (fun d => d.id = dccid) = some d → P d)
      (ircDccAcceptReverse env dccid ctx callback nick filename size token)
      (fun ret s => Depth k s ∨ ret ≠ 0 ∧ ∃ d, P d ∧ NoAddress env d) fun _ => True := by
  refine ensures_find (ensures_pure fun _ hs => .inl hs) fun d hd => ensures_ite ?_ ?_
  · intro _
    exact goes_refusal.weaken (fun _ hs => hs) (fun _ _ hs => .inl hs) fun _ hs => hs
  · intro hinit
    simp only [ne_eq, not_not] at hinit
    cases haddr : env.inetPton with
    | none =>
      refine ensures_bind (goes_of_level (level_setLasterror _)) fun _ => ?_
      exact ensures_pure fun _ _ => .inr ⟨by decide, d, hd, hinit, haddr⟩
    | some addr =>
      refine ensures_get_bind fun s hs => ?_
      refine Ensures.weaken (P := Depth (k + 1)) ?_ (fun _ ht => ht ▸ hs) (fun _ _ hs => hs)
        fun _ hs => hs
      refine ensures_bind (goes_of_level (moves_discard (level_ircCmdCtcpRequest _ _))) fun _ => ?_
      refine ensures_bind (goes_of_level (level_modifySession _ _)) fun _ => ?_
      refine ensures_bind (goes_of_level (level_record _)) fun _ => ?_
      exact ensures_bind goes_unlock fun _ => ensures_pure fun _ hs => .inl hs

theorem goes_find {β : Type} {found : DccSession → Bool} {f : Option DccSession → ClientM β}
    (hnone : Goes k k (f none)) (hsome : ∀ d, Goes (k + 1) k (f (some d))) :
    Goes k k (libircFind found true >>= f) :=
  (ensures_find (P := fun _ => True) hnone fun d _ => hsome d).weaken
    (fun _ hs => ⟨hs, fun _ _ => trivial⟩) (fun _ _ hs => hs) fun _ hs => hs

theorem goes_pure {β : Type} (b : β) : Goes k k (pure b : ClientM β) := ensures_pure fun _ hs => hs

theorem goes_ircDccResume (dccid : ℕ) (ctx : Option ℕ) (callback : DataCallback)
    (nick : Option Bytes) (position : ℕ) :
    Goes k k (ircDccResume dccid ctx callback nick position) := by
  refine goes_find (goes_pure _) fun d => ensures_ite (fun _ => goes_refusal) fun _ => ?_
  refine ensures_bind (goes_of_level (level_modifySession _ _)) fun _ => ?_
  refine ensures_bind (goes_of_level (level_record _)) fun _ => ?_
  refine ensures_bind (goes_of_level (moves_discard (level_ircCmdCtcpRequest _ _))) fun _ => ?_
  refine ensures_bind (goes_of_level (level_modifySession _ _)) fun _ => ?_
  exact ensures_bind goes_unlock fun _ => goes_pure _

theorem goes_ircDccResumeReverse (dccid : ℕ) (ctx : Option ℕ) (callback : ReverseCallback)
    (nick : Option Bytes) (position token : ℕ) :
    Goes k k (ircDccResumeReverse dccid ctx callback nick position token) := by
  refine goes_find (goes_pure _) fun d => ensures_ite (fun _ => goes_refusal) fun _ => ?_
  refine ensures_bind (goes_of_level (level_modifySession _ _)) fun _ => ?_
  refine ensures_bind (goes_of_level (level_record _)) fun _ => ?_
  refine ensures_bind (goes_of_level (moves_discard (level_ircCmdCtcpRequest _ _))) fun _ => ?_
  refine ensures_bind (goes_of_level (level_modifySession _ _)) fun _ => ?_
  exact ensures_bind goes_unlock fun _ => goes_pure _

theorem goes_ircDccDecline (dccid : ℕ) : Goes k k (ircDccDecline dccid) := by
  refine goes_find (goes_pure _) fun d => ensures_ite (fun _ => goes_refusal) fun _ => ?_
  refine ensures_bind (goes_of_level (level_libircDccDestroyNolock _)) fun _ => ?_
  exact ensures_bind goes_unlock fun _ => goes_pure _

theorem goes_ircDccDestroy (dccid : ℕ) : Goes k k (ircDccDestroy dccid) := by
  refine goes_find (goes_pure _) fun d => ?_
  refine ensures_bind (goes_of_level (level_modifySession _ _)) fun _ => ?_
  exact ensures_bind goes_unlock fun _ => goes_pure _

theorem goes_libircDccAddDescriptors : Goes k k libircDccAddDescriptors :=
  ensures_bind goes_lock fun _ =>
    ensures_bind (goes_of_level (level_modify fun _ => rfl)) fun _ => goes_unlock

theorem goes_exitOnFailure {call : ClientM ℕ}
    (h : Ensures (Depth k) call (fun ret s => Depth k s ∨ ret ≠ 0) fun _ => True) :
    Goes k k (exitOnFailure call) :=
  ensures_bind h fun _ => ensures_ite (fun _ => ensures_throw fun _ _ => trivial) fun hret =>
    ensures_pure fun _ hs => hs.resolve_right hret

theorem goes_accept (env : Env) (dccid : ℕ) (ctx : Option ℕ) (callback : DataCallback) :
    Goes k k (exitOnFailure (ircDccAccept env dccid ctx callback)) :=
  goes_exitOnFailure ((ensures_ircDccAccept (P := fun _ => True) env dccid ctx callback).weaken
    (fun _ hs => ⟨hs, fun _ _ => trivial⟩) (fun _ _ hs => hs.imp_right And.left) fun _ hs => hs)

theorem goes_acceptReverse (env : Env) (dccid : ℕ) (ctx : Option ℕ) (callback : DataCallback)
    (nick : Option Bytes) (filename : Bytes) (size token : ℕ) :
    Goes k k (exitOnFailure
      (ircDccAcceptReverse env dccid ctx callback nick filename size token)) :=
  goes_exitOnFailure ((ensures_ircDccAcceptReverse (P := fun _ => True) env dccid ctx callback nick
    filename size token).weaken
    (fun _ hs => ⟨hs, fun _ _ => trivial⟩) (fun _ _ hs => hs.imp_right And.left) fun _ hs => hs)

theorem goes_resumed {call : ClientM ℕ} (h : Goes k k call) : Goes k k (exitOnFailure call) :=
  goes_exitOnFailure (h.weaken (fun _ hs => hs) (fun _ _ hs => .inl hs) fun _ hs => hs)

theorem goes_get_bind {β : Type} {i j : ℤ} {f : Client → ClientM β} (h : ∀ s, Goes i j (f s)) :
    Goes i j (get >>= f) :=
  ensures_get_bind fun s hs => (h s).weaken (fun _ ht => ht ▸ hs) (fun _ _ ht => ht) fun _ ht => ht

theorem goes_recvFileWith (env : Env) (filename : Bytes) (size : ℕ) {accept : ℕ → ClientM ℕ}
    {resume : ℕ → ℕ → ClientM ℕ} (haccept : ∀ context, Goes k k (exitOnFailure (accept context)))
    (hresume : ∀ context position, Goes k k (exitOnFailure (resume context position))) :
    Goes k k (recvFileWith env filename size accept resume) := by
  refine ensures_bind (goes_of_level (level_watches.moves_prepareRecvFileRequest env filename size))
    fun context => goes_get_bind fun s => ?_
  dsimp only
  cases s.files (getCompletePath s.cfg filename) with
  | none =>
    exact ensures_bind (goes_of_level (level_watches.moves_openFile _ _ _ _)) fun _ => haccept _
  | some content =>
    have hrest : Goes k k (if content.length = 0 then exitOnFailure (accept context)
        else exitOnFailure (resume context content.length)) :=
      ensures_ite (fun _ => haccept _) fun _ => hresume _ _
    refine ensures_bind (goes_of_level (level_watches.moves_openFile _ _ _ _)) fun _ => ?_
    exact ensures_ite (fun _ => ensures_bind (goes_of_level level_exitPgm) fun _ => hrest)
      fun _ => hrest

theorem goes_dataCallback (env : Env) (dccid status : ℕ) (ctx : Option ℕ) (data : Option Bytes)
    (length : ℕ) (pointer : Option DataCallback) :
    Goes k k (dataCallback env dccid status ctx data length pointer) := by
  cases pointer with
  | none => exact ensures_throw fun _ _ => trivial
  | some cb =>
    cases cb with
    | callbackDccRecvFile => exact goes_of_level (level_watches.moves_callbackDccRecvFile _ _ _ _)
    | callbackDccResumeFile =>
      cases ctx with
      | none => exact ensures_throw fun _ _ => trivial
      | some context =>
        exact ensures_bind (goes_of_level (level_watches.moves_seekToResume _ _ _)) fun _ =>
          goes_accept env dccid _ _

theorem goes_reverseCallback (env : Env) (dccid : ℕ) (ctx : Option ℕ) (size : ℕ)
    (nick : Option Bytes) (filename : Bytes) (token : ℕ) (pointer : Option ReverseCallback) :
    Goes k k (reverseCallback env dccid ctx size nick filename token pointer) := by
  cases pointer with
  | none => exact ensures_throw fun _ _ => trivial
  | some cb =>
    cases cb
    cases ctx with
    | none => exact ensures_throw fun _ _ => trivial
    | some context =>
      refine ensures_bind (goes_of_level (level_watches.moves_seekToResume _ _ _)) fun _ => ?_
      refine goes_get_bind fun s => ?_
      cases s.downloadContext[context]? with
      | none => exact ensures_throw fun _ _ => trivial
      | some c => exact goes_acceptReverse env dccid _ _ nick filename _ token

theorem goes_verifyNick (nick : Option Bytes) : Goes k k (verifyNick nick) := by
  refine goes_get_bind fun s => ?_
  cases isValidRequestFromNick s.cfg nick with
  | none => exact ensures_throw fun _ _ => trivial
  | some verified => exact goes_pure _

def KeepsDepth (c : Callbacks) : Prop := ∀ (α : Type) (u : UserCall α) (k : ℤ), Goes k k (c α u)

theorem keepsDepth_xdccget : KeepsDepth xdccget := by
  intro α u k
  cases u <;> dsimp only [xdccget]
  case verifyIncomingDccRequestsReq nick => exact goes_verifyNick nick
  case eventDccSendReq env nick filename size dccid =>
    exact goes_recvFileWith env filename size (fun _ => goes_accept env dccid _ _)
      fun _ _ => goes_resumed (goes_ircDccResume dccid _ _ nick _)
  case eventDccSendReqReverse env nick filename size dccid token =>
    exact goes_recvFileWith env filename size
      (fun _ => goes_acceptReverse env dccid _ _ nick filename size token)
      fun _ _ => goes_resumed (goes_ircDccResumeReverse dccid _ _ nick _ token)
  case cb env pointer dccid status ctx data length =>
    exact goes_dataCallback env dccid status ctx data length pointer
  case reverseCb env pointer dccid ctx size nick filename token =>
    exact goes_reverseCallback env dccid ctx size nick filename token pointer

end programs

/-- The callbacks do the same when the lock is held `k` times. -/
def AgreeAt (k : ℤ) (c d : Callbacks) : Prop :=
  ∀ (α : Type) (u : UserCall α) (s : Client), Depth k s → (d α u).run s = (c α u).run s

/-- From `P` the program returns in `Q`, and it calls back at depth `k` only: what the callbacks
    would do at another depth makes no difference. -/
structure Outside (c : Callbacks) (k : ℤ) {α : Type} (P : Client → Prop)
    (p : Callbacks → ClientM α) (Q : α → Client → Prop) : Prop where
  ends : Ensures P (p c) Q fun _ => True
  calls : ∀ d, AgreeAt k c d → ∀ s, P s → (p d).run s = (p c).run s

section outside
variable {α β : Type} {c : Callbacks} {k i j : ℤ} {P : Client → Prop} {Q : α → Client → Prop}

theorem outside_const {x : ClientM α} (h : Ensures P x Q fun _ => True) :
    Outside c k P (fun _ => x) Q := ⟨h, fun _ _ _ _ => rfl⟩

theorem Outside.weaken {P' : Client → Prop} {Q' : α → Client → Prop} {p : Callbacks → ClientM α}
    (h : Outside c k P p Q) (hP : ∀ s, P' s → P s) (hQ : ∀ a s, Q a s → Q' a s) :
    Outside c k P' p Q' where
  ends := h.ends.weaken hP hQ fun _ hs => hs
  calls d hd s hs := h.calls d hd s (hP s hs)

theorem outside_bind {p : Callbacks → ClientM β} {f : Callbacks → β → ClientM α}
    {R : β → Client → Prop} (hp : Outside c k P p R)
    (hf : ∀ b, Outside c k (R b) (fun d => f d b) Q) : Outside c k P (fun d => p d >>= f d) Q where
  ends := ensures_bind hp.ends fun b => (hf b).ends
  calls d hd s hs := by
    have hcall := hp.calls d hd s hs
    cases hrun : (p c).run s with
    | ok b t =>
      rw [run_bind_of_ok hrun, run_bind_of_ok (hcall.trans hrun)]
      exact (hf b).calls d hd t (hp.ends.of_ok hs hrun)
    | error e t =>
      rw [run_bind_of_error hrun, run_bind_of_error (hcall.trans hrun)]

theorem outside_ite {b : Prop} [Decidable b] {p q : Callbacks → ClientM α}
    (hp : b → Outside c k P p Q) (hq : ¬ b → Outside c k P q Q) :
    Outside c k P (fun d => if b then p d else q d) Q := by
  by_cases h : b
  · simp only [h, if_true]
    exact hp h
  · simp only [h, if_false]
    exact hq h

theorem outside_get_bind {f : Callbacks → Client → ClientM α}
    (h : ∀ s, Outside c k P (fun d => f d s) Q) : Outside c k P (fun d => get >>= f d) Q where
  ends := ensures_get_bind fun s hs =>
    (h s).ends.weaken (fun _ ht => ht ▸ hs) (fun _ _ ht => ht) fun _ ht => ht
  calls d hd s hs := (h s).calls d hd s hs

theorem outside_call (hc : KeepsDepth c) (u : UserCall α) :
    Outside c k (Depth k) (fun d => d α u) fun _ => Depth k :=
  ⟨hc α u k, fun _ hd s hs => hd α u s hs⟩

/-- The rule of `ensures_find` for programs that call back. -/
theorem outside_find {found : DccSession → Bool} {D : DccSession → Prop}
    {f : Callbacks → Option DccSession → ClientM α}
    (hnone : Outside c k (Depth i) (fun d => f d none) Q)
    (hsome : ∀ x, D x → Outside c k (Depth (i + 1)) (fun d => f d (some x)) Q) :
    Outside c k (fun s => Depth i s ∧ ∀ x, s.dccSessions.find? found = some x → D x)
      (fun d => libircFind found true >>= f d) Q where
  ends := ensures_find hnone.ends fun x hx => (hsome x hx).ends
  calls d hd s hs := by
    cases hf : s.dccSessions.find? found with
    | none =>
      rw [run_bind_of_ok (libircFind_run_of_none hf true),
        run_bind_of_ok (libircFind_run_of_none hf true)]
      exact hnone.calls d hd s hs.1
    | some x =>
      rw [run_bind_of_ok (libircFind_run_of_some hf), run_bind_of_ok (libircFind_run_of_some hf)]
      exact (hsome x (hs.2 x hf)).calls d hd _ (congrArg (· + 1) hs.1)

theorem outside_level {x : ClientM α} (h : Moves Level x) :
    Outside c k (Depth i) (fun _ => x) fun _ => Depth i := outside_const (goes_of_level h)

theorem outside_pure (a : α) :
    Outside c k (Depth i) (fun _ => (pure a : ClientM α)) fun _ => Depth i :=
  outside_const (goes_pure a)

theorem outside_lock : Outside c k (Depth i) (fun _ => libircMutexLock) fun _ => Depth (i + 1) :=
  outside_const goes_lock

theorem outside_unlock : Outside c k (Depth (i + 1)) (fun _ => libircMutexUnlock) fun _ => Depth i :=
  outside_const goes_unlock

end outside

section library
variable {c : Callbacks} {k : ℤ} (hc : KeepsDepth c)
include hc

/-- From depth `i` to depth `j` with every callback at depth `k`. -/
abbrev Passes (c : Callbacks) (k i j : ℤ) {α : Type} (p : Callbacks → ClientM α) : Prop :=
  Outside c k (Depth i) p fun _ => Depth j

theorem passes_callCb (env : Env) (dccid status : ℕ) (data : Option Bytes) (length : ℕ) :
    Passes c k k k fun c => callCb c env dccid status data length := by
  refine outside_get_bind fun s => ?_
  cases s.dccSessions.find? (fun d => decide (d.id = dccid)) with
  | none => exact outside_pure _
  | some dcc => exact outside_bind (outside_level (level_record _)) fun _ => outside_call hc _

theorem passes_callReverseCb (env : Env) (dccid size : ℕ) (nick : Option Bytes) (token : ℕ) :
    Passes c k k k fun c => callReverseCb c env dccid size nick token := by
  refine outside_get_bind fun s => ?_
  cases s.dccSessions.find? (fun d => decide (d.id = dccid)) with
  | none => exact outside_pure _
  | some dcc => exact outside_bind (outside_level (level_record _)) fun _ => outside_call hc _

omit hc in
theorem goes_libircNewDccSession (env : Env) (ip port : ℕ) (ctx : Option ℕ) (ssl : Bool) :
    Goes k k (LockedCalls.libircNewDccSession env ip port ctx ssl) := by
  unfold LockedCalls.libircNewDccSession
  cases env.socket with
  | none => exact goes_pure _
  | some sock =>
    have hinsert : Goes k k (do
        libircMutexLock
        let dccid := (← get).dccLastId
        modify fun s => { s with
          dccLastId := dccid + 1
          dccSessions := newSession dccid sock ip port ctx ssl :: s.dccSessions }
        libircMutexUnlock
        return .ok dccid : ClientM (Except ℕ ℕ)) := by
      refine ensures_bind goes_lock fun _ => goes_get_bind fun s => ?_
      refine ensures_bind (goes_of_level (level_modify fun _ => rfl)) fun _ => ?_
      exact ensures_bind goes_unlock fun _ => goes_pure _
    refine goes_get_bind fun s => ensures_ite (fun _ => ?_) fun _ => hinsert
    have hcontext : Goes k k (modify fun s => { s with net := { s.net with sslContext := true } }) :=
      goes_of_level (level_modify fun _ => rfl)
    exact ensures_ite
      (fun _ => ensures_bind (goes_of_level level_exitPgm) fun _ => ensures_bind hcontext fun _ => hinsert)
      fun _ => ensures_bind hcontext fun _ => hinsert

theorem passes_acceptDccSend (env : Env) (nick : Option Bytes) (filename : Bytes)
    (ip size port : ℕ) (ssl : Bool) :
    Passes c k k k fun c => (requests c env nick).acceptDccSend filename ip size port ssl := by
  refine outside_bind (outside_const (goes_libircNewDccSession env ip port none ssl)) fun r => ?_
  cases r with
  | error err => exact outside_level (level_setLasterror err)
  | ok id =>
    exact outside_bind (outside_call hc _) fun _ => outside_level (level_modifySession _ _)

theorem passes_acceptReverseDccSend (env : Env) (nick : Option Bytes) (filename : Bytes)
    (ip size token : ℕ) (ssl : Bool) :
    Passes c k k k fun c =>
      (requests c env nick).acceptReverseDccSend filename ip size token ssl := by
  have hfail (err : ℕ) : Passes c k k k fun _ => (do setLasterror err; return : ClientM PUnit) :=
    outside_bind (outside_level (level_setLasterror err)) fun _ => outside_pure _
  refine outside_bind (outside_const (goes_libircNewDccSession env ip 0 none ssl)) fun r => ?_
  cases r with
  | error err => exact outside_level (level_setLasterror err)
  | ok id =>
    refine outside_bind (outside_level (level_modifySession _ _)) fun _ => ?_
    refine outside_ite (fun _ : (!env.bind) = true => hfail _) fun _ => ?_
    refine outside_ite (fun _ : (!env.listen) = true => hfail _) fun _ => ?_
    exact outside_call hc _

/-- One program that calls back, with the callbacks `c` and with others. The lock is held `k` times,
    or once more by the library. -/
def Paired (c d : Callbacks) (k : ℤ) (i j : Bool) (x y : ClientM Unit) : Prop :=
  ∃ p, Passes c k (if i then k + 1 else k) (if j then k + 1 else k) p ∧ x = p c ∧ y = p d

omit hc in
theorem turn_paired (d : Callbacks) (id : ℕ) :
    Turn.Alike (Paired c d k) (DccEvents.turn id) (DccEvents.turn id) where
  pure := ⟨fun _ => pure ⟨⟩, outside_pure _, rfl, rfl⟩
  bind := by
    rintro _ _ _ _ _ _ _ ⟨p, hp, rfl, rfl⟩ ⟨q, hq, rfl, rfl⟩
    exact ⟨fun c => do p c; q c, outside_bind hp fun _ => hq, rfl, rfl⟩
  lock := ⟨fun _ => libircMutexLock, outside_lock, rfl, rfl⟩
  unlock := ⟨fun _ => libircMutexUnlock, outside_unlock, rfl, rfl⟩
  received := by
    rintro length _ _ ⟨p, hp, rfl, rfl⟩
    exact ⟨fun c => do record (.received id length); p c,
      outside_bind (outside_level (level_record _)) fun _ => hp, rfl, rfl⟩
  acknowledged := by
    rintro word len _ _ ⟨p, hp, rfl, rfl⟩
    exact ⟨fun c => do record (.acknowledged id word len); p c,
      outside_bind (outside_level (level_record _)) fun _ => hp, rfl, rfl⟩
  modify i offset state sock :=
    ⟨fun _ => modifySession id _, outside_level (level_modifySession _ _), rfl, rfl⟩
  withConfig := by
    intro f g h
    choose p hp hf hg using h
    refine ⟨fun c => get >>= fun s => p s.cfg c, outside_get_bind fun s => hp s.cfg, ?_, ?_⟩
    · exact congrArg (get >>= ·) (funext fun s => hf s.cfg)
    · exact congrArg (get >>= ·) (funext fun s => hg s.cfg)
  destroy :=
    ⟨fun _ => libircDccDestroyNolock id, outside_level (level_libircDccDestroyNolock id), rfl, rfl⟩

omit hc in
theorem passes_of_paired {i j : Bool} {p : Callbacks → ClientM Unit}
    (h : ∀ d, Paired c d k i j (p c) (p d)) :
    Passes c k (if i then k + 1 else k) (if j then k + 1 else k) p where
  ends := by
    obtain ⟨q, hq, hp, -⟩ := h c
    rw [hp]
    exact hq.ends
  calls d hd s hs := by
    obtain ⟨q, hq, hp, hpd⟩ := h d
    rw [hp, hpd]
    exact hq.calls d hd s hs

theorem passes_processDescriptor (id : ℕ) (ready : SocketReady) :
    Passes c k (k + 1) (k + 1) fun c => processDescriptor c id ready := by
  refine outside_bind (outside_level (level_libircFind_nolock _)) fun x => ?_
  cases x with
  | none => exact outside_pure _
  | some dcc =>
    refine passes_of_paired (i := true) (j := true) fun d => ?_
    apply (turn_paired d dcc.id).processDescriptor dcc
    have hcall (err : ℕ) (data : Option Bytes) (length : ℕ) : Paired c d k false false
        (callCb c noEnv dcc.id err data length) (callCb d noEnv dcc.id err data length) :=
      ⟨_, passes_callCb hc noEnv dcc.id err data length, rfl, rfl⟩
    exact SocketReady.turn_alike (fun _ _ => hcall _ _ _) (fun _ => hcall _ _ _) fun _ _ => hcall _ _ _

omit hc in
theorem passes_forM {p : Callbacks → ℕ → ClientM Unit}
    (h : ∀ id, Passes c k (k + 1) (k + 1) fun c => p c id) (ids : List ℕ) :
    Passes c k (k + 1) (k + 1) fun c => ids.forM (p c) := by
  induction ids with
  | nil => exact outside_pure _
  | cons id ids ih => exact outside_bind (h id) fun _ => ih

theorem passes_libircDccProcessDescriptors (ready : ℕ → SocketReady) :
    Passes c k k k fun c => libircDccProcessDescriptors c ready := by
  refine outside_bind outside_lock fun _ => outside_get_bind fun s => ?_
  exact outside_bind (passes_forM (p := fun c id => processDescriptor c id (ready id))
    (fun id => passes_processDescriptor hc id (ready id)) _) fun _ => outside_unlock

end library

/-- The acknowledgement is for a session that is there and does not wait for one. -/
def StrayAck (s : Client) : DccCall → Prop
  | .acceptResumeReverse _ token =>
    ∃ d, s.dccSessions.find? (fun d => d.passiveConnection && d.token = token) = some d ∧
      d.state ≠ .waitingForResumeAck
  | .acceptResume port _ =>
    ∃ d, s.dccSessions.find? (fun d => d.sinPort = port) = some d ∧ d.state ≠ .waitingForResumeAck
  | _ => False

def KeepsLock (s : Client) : LibraryCall → Prop
  | .request _ nick req =>
    ∃ verified, isValidRequestFromNick s.cfg nick = some verified ∧
      StrayAck s (dccRequestCall verified req)
  | .accept env dccid _ _ =>
    ∃ d, s.dccSessions.find? (fun d => d.id = dccid) = some d ∧ NoHandshake env d
  | .acceptReverse env dccid _ _ _ _ _ _ =>
    ∃ d, s.dccSessions.find? (fun d => d.id = dccid) = some d ∧ NoAddress env d
  | _ => False

/-- The call returns at the depth it was entered with, and calls the program at that depth only. -/
def Balanced (s : Client) (e : LibraryCall) : Prop :=
  (∀ s', (e.program xdccget).run s = .ok ⟨⟩ s' → s'.net.mutexDcc = s.net.mutexDcc) ∧
    ∀ other, AgreeAt s.net.mutexDcc xdccget other →
      (e.program other).run s = (e.program xdccget).run s

section entries
variable {s : Client}

theorem Outside.balanced {e : LibraryCall}
    (h : Outside xdccget s.net.mutexDcc (fun t => t = s) e.program
      fun _ => Depth s.net.mutexDcc) : Balanced s e :=
  ⟨fun _ hrun => h.ends.of_ok rfl hrun, fun other hother => h.calls other hother s rfl⟩

theorem Outside.at_state {α : Type} {c : Callbacks} {k : ℤ} {p : Callbacks → ClientM α}
    {Q : α → Client → Prop} (h : Outside c k (Depth s.net.mutexDcc) p Q) :
    Outside c k (fun t => t = s) p Q :=
  h.weaken (fun _ ht => ht ▸ rfl) fun _ _ hq => hq

theorem outside_discard {x : ClientM ℕ} {P : Client → Prop} {k : ℤ}
    (h : Ensures P x (fun _ => Depth k) fun _ => True) :
    Outside xdccget k P (fun _ => discard x) fun _ => Depth k := outside_const (ensures_discard h)

theorem outside_handleCall (env : Env) (nick : Option Bytes) {call : DccCall}
    (h : ¬ StrayAck s call) :
    Outside xdccget s.net.mutexDcc (fun t => t = s) (fun c => (requests c env nick).handleCall call)
      fun _ => Depth s.net.mutexDcc := by
  have hwaits {found : DccSession → Bool}
      (hnot : ¬ ∃ d, s.dccSessions.find? found = some d ∧ d.state ≠ .waitingForResumeAck) :
      ∀ t, t = s → Depth s.net.mutexDcc t ∧
        ∀ d, t.dccSessions.find? found = some d → d.state = .waitingForResumeAck := by
    rintro t rfl
    refine ⟨rfl, fun d hd => ?_⟩
    by_contra hstate
    exact hnot ⟨d, hd, hstate⟩
  cases call with
  | acceptReverseDccSend filename ip size token ssl =>
    exact (passes_acceptReverseDccSend keepsDepth_xdccget env nick filename ip size token ssl).at_state
  | acceptDccSend filename ip size port ssl =>
    exact (passes_acceptDccSend keepsDepth_xdccget env nick filename ip size port ssl).at_state
  | acceptResumeReverse size token =>
    refine Outside.weaken (outside_find ?_ fun d hd => ?_) (hwaits h) fun _ _ ht => ht
    · exact outside_pure _
    refine outside_ite (fun hstate => absurd hd hstate) fun _ => ?_
    refine outside_bind (outside_level (level_modifySession _ _)) fun _ => ?_
    exact outside_bind outside_unlock fun _ => passes_callReverseCb keepsDepth_xdccget _ _ _ _ _
  | acceptResume port size =>
    refine Outside.weaken (outside_find ?_ fun d hd => ?_) (hwaits h) fun _ _ ht => ht
    · exact outside_pure _
    refine outside_ite (fun hstate => absurd hd hstate) fun _ => ?_
    refine outside_bind (outside_level (level_modifySession _ _)) fun _ => ?_
    exact outside_bind outside_unlock fun _ => passes_callCb keepsDepth_xdccget _ _ _ _ _
  | unhandled => exact (outside_pure _).at_state
  | ignored => exact (outside_pure _).at_state

theorem outside_verify (nick : Option Bytes) (s : Client) :
    Outside xdccget s.net.mutexDcc (fun t => t = s)
      (fun c => c _ (.verifyIncomingDccRequestsReq nick))
      fun verified t => t = s ∧ isValidRequestFromNick s.cfg nick = some verified where
  ends := by
    rintro t rfl
    dsimp only [xdccget]
    unfold verifyNick
    simp only [EStateM.run_bind, EStateM.run_get]
    cases isValidRequestFromNick t.cfg nick with
    | none => trivial
    | some verified => exact ⟨rfl, rfl⟩
  calls d hd t ht := hd _ _ t (ht ▸ rfl)

theorem balanced_of_not_keepsLock {e : LibraryCall} (h : ¬ KeepsLock s e) : Balanced s e := by
  cases e with
  | request env nick req =>
    refine Outside.balanced (outside_bind (outside_verify nick s) fun verified => ?_)
    by_cases hvalid : isValidRequestFromNick s.cfg nick = some verified
    · have hstray : ¬ StrayAck s (dccRequestCall verified req) := fun hs => h ⟨verified, hvalid, hs⟩
      exact (outside_handleCall env nick hstray).weaken (fun _ ht => ht.1) fun _ _ ht => ht
    · exact ⟨fun t ht => absurd ht.2 hvalid, fun _ _ t ht => absurd ht.2 hvalid⟩
  | accept env dccid ctx callback =>
    have hends := ensures_ircDccAccept (k := s.net.mutexDcc) (P := fun d => ¬ NoHandshake env d) env
      dccid ctx callback
    refine Outside.balanced (outside_discard (hends.weaken ?_ ?_ fun _ ht => ht))
    · rintro t rfl
      exact ⟨rfl, fun d hd hno => h ⟨d, hd, hno⟩⟩
    · rintro ret t (ht | ⟨-, d, hno, hyes⟩)
      · exact ht
      · exact absurd hyes hno
  | acceptReverse env dccid ctx callback nick filename size token =>
    have hends := ensures_ircDccAcceptReverse (k := s.net.mutexDcc) (P := fun d => ¬ NoAddress env d)
      env dccid ctx callback nick filename size token
    refine Outside.balanced (outside_discard (hends.weaken ?_ ?_ fun _ ht => ht))
    · rintro t rfl
      exact ⟨rfl, fun d hd hno => h ⟨d, hd, hno⟩⟩
    · rintro ret t (ht | ⟨-, d, hno, hyes⟩)
      · exact ht
      · exact absurd hyes hno
  | resume dccid ctx callback nick position =>
    exact (outside_discard (goes_ircDccResume dccid ctx callback nick position)).at_state.balanced
  | resumeReverse dccid ctx callback nick position token =>
    exact (outside_discard
      (goes_ircDccResumeReverse dccid ctx callback nick position token)).at_state.balanced
  | decline dccid => exact (outside_discard (goes_ircDccDecline dccid)).at_state.balanced
  | destroy dccid => exact (outside_discard (goes_ircDccDestroy dccid)).at_state.balanced
  | addDescriptors => exact (outside_const goes_libircDccAddDescriptors).at_state.balanced
  | processDescriptors ready =>
    exact (passes_libircDccProcessDescriptors keepsDepth_xdccget ready).at_state.balanced

theorem run_of_keepsLock {e : LibraryCall} (h : KeepsLock s e) :
    ∃ s', (e.program xdccget).run s = .ok ⟨⟩ s' ∧ s'.net.mutexDcc = s.net.mutexDcc + 1 := by
  cases e with
  | request env nick req =>
    obtain ⟨verified, hvalid, hstray⟩ := h
    have hverify : (verifyNick nick).run s = .ok verified s := by
      unfold verifyNick
      simp only [EStateM.run_bind, EStateM.run_get, hvalid, EStateM.run_pure]
    have hrun : (LibraryCall.program xdccget (.request env nick req)).run s =
        ((DccEvents.requests env nick).handleCall (dccRequestCall verified req)).run s := by
      rw [← requests_xdccget]
      exact run_bind_of_ok hverify
    rw [hrun]
    cases hcall : dccRequestCall verified req with
    | acceptResumeReverse size token =>
      rw [hcall] at hstray
      obtain ⟨d, hd, hstate⟩ := hstray
      refine ⟨withNet s (lockedNet s.net), ?_, rfl⟩
      change (DccEvents.acceptResumeReverse env nick size token).run s = _
      simp only [DccEvents.acceptResumeReverse_eq, libircFindDccSessionByToken]
      rw [run_bind_of_ok (libircFind_run_of_some hd)]
      simp only [hstate, ne_eq, not_false_eq_true, if_true, EStateM.run_pure]
    | acceptResume port size =>
      rw [hcall] at hstray
      obtain ⟨d, hd, hstate⟩ := hstray
      refine ⟨withNet s (lockedNet s.net), ?_, rfl⟩
      change (DccEvents.acceptResume env port size).run s = _
      simp only [DccEvents.acceptResume_eq, libircFindDccSessionByPort]
      rw [run_bind_of_ok (libircFind_run_of_some hd)]
      simp only [hstate, ne_eq, not_false_eq_true, if_true, EStateM.run_pure]
    | acceptReverseDccSend _ _ _ _ _ => rw [hcall] at hstray; exact hstray.elim
    | acceptDccSend _ _ _ _ _ => rw [hcall] at hstray; exact hstray.elim
    | unhandled => rw [hcall] at hstray; exact hstray.elim
    | ignored => rw [hcall] at hstray; exact hstray.elim
  | accept env dccid ctx callback =>
    obtain ⟨d, hd, hinit, hconnect, hssl, hshake⟩ := h
    obtain ⟨net, hrun, hdepth⟩ :=
      ircDccAccept_run_of_noHandshake hd hinit hconnect hssl hshake ctx callback
    exact ⟨_, run_discard hrun, hdepth⟩
  | acceptReverse env dccid ctx callback nick filename size token =>
    obtain ⟨d, hd, hinit, haddr⟩ := h
    have hfind := libircFind_run_of_some hd
    have hrun : ∃ s', (ircDccAcceptReverse env dccid ctx callback nick filename size token).run s =
        .ok 1 s' ∧ s'.net.mutexDcc = s.net.mutexDcc + 1 := by
      simp only [ircDccAcceptReverse, libircFindDccSession, EStateM.run_bind, hfind, hinit, haddr,
        setLasterror, ne_eq, not_true_eq_false, if_false, EStateM.run_modify, EStateM.run_pure]
      exact ⟨_, rfl, rfl⟩
    obtain ⟨s', hrun, hdepth⟩ := hrun
    exact ⟨s', run_discard hrun, hdepth⟩
  | _ => exact h.elim

theorem not_balanced_of_keepsLock {e : LibraryCall} (h : KeepsLock s e) : ¬ Balanced s e := by
  intro hbalanced
  obtain ⟨s', hrun, hdepth⟩ := run_of_keepsLock h
  have heq := hbalanced.1 s' hrun
  omega

end entries

/-- The functions of the library return with the lock held as often as they found it, and call the
    program only then, unless they take one of the three early returns without an unlock. -/
theorem lock_balanced_iff (s : Client) (e : LibraryCall) : Balanced s e ↔ ¬ KeepsLock s e :=
  ⟨fun h hkeeps => not_balanced_of_keepsLock hkeeps h, balanced_of_not_keepsLock⟩

def fetching : Client :=
  DccEvents.step (DccEvents.initial (DccEvents.oneBot false) DccEvents.connected DccEvents.noFiles)
    (DccEvents.botRequest "DCC SEND f 1 4000 9")

def strayAccept : LibraryCall :=
  .request DccEvents.readyEnv (some (bytes "bot")) (bytes "DCC ACCEPT file.ext 4000 5")

theorem stray_accept_unbalanced : ¬ Balanced fetching strayAccept :=
  not_balanced_of_keepsLock ⟨true, by decide, by
    have hcall : dccRequestCall true (bytes "DCC ACCEPT file.ext 4000 5") = .acceptResume 4000 5 := by
      decide +kernel
    rw [hcall]
    exact ⟨_, rfl, by decide⟩⟩

end Xdccget.LockBalance
