import Xdccget.DccEvents
import Xdccget.ProgramRelations

set_option autoImplicit false

/-!
# Turns with a log

The steps of `DccEvents`, with what they do not keep: the arguments of every call
through `dcc->cb`, and the size that each session was offered with. Without the
log they are the steps they were.
-/
namespace Xdccget.LoggedTurns
open CText DccMessages ClientState DccSessions Downloads HaltingPrograms ProgramRelations
open DccEvents (SocketReady Event noEnv)
open DccRequests (Requests)
open SocketTurns (Turn)

/-- `(*dcc->cb) (session, dcc->id, status, dcc->ctx, data, length)` -/
structure DataCall where
  id : ℕ
  status : ℕ
  ctx : Option ℕ
  data : Option Bytes
  length : ℕ
  deriving DecidableEq, Repr

structure LoggedClient where
  client : Client
  dataCalls : List DataCall
  announced : List (ℕ × ℕ)

abbrev LoggedM := EStateM Halt LoggedClient

def onClient {α : Type} (x : ClientM α) : LoggedM α :=
  zoom id LoggedClient.client (fun c s => { s with client := c }) x

theorem onClient_run_of_ok {α : Type} {x : ClientM α} {s : LoggedClient} {a : α} {c : Client}
    (h : x.run s.client = .ok a c) : (onClient x).run s = .ok a { s with client := c } := by
  rw [onClient, zoom_run, h]

theorem onClient_run_of_error {α : Type} {x : ClientM α} {s : LoggedClient} {fault : Halt} {c : Client}
    (h : x.run s.client = .error fault c) :
    (onClient x).run s = .error fault { s with client := c } := by
  rw [onClient, zoom_run, h]
  rfl

def logCall (call : DataCall) : LoggedM Unit :=
  modify fun s => { s with dataCalls := s.dataCalls ++ [call] }

def logSize (dccid size : ℕ) : LoggedM Unit :=
  modify fun s => { s with announced := s.announced ++ [(dccid, size)] }

def callCb (env : Env) (dccid status : ℕ) (data : Option Bytes) (length : ℕ) : LoggedM Unit := do
  match (← get).client.dccSessions.find? (fun d => d.id = dccid) with
  | none => return
  | some dcc =>
    onClient (record (.call dccid (dcc.cb.map .data)))
    match dcc.cb with
    | none => throw .nullCallback
    | some .callbackDccRecvFile =>
      logCall { id := dccid, status := status, ctx := dcc.ctx, data := data, length := length }
      onClient (callbackDccRecvFile status dcc.ctx data length)
    | some .callbackDccResumeFile =>
      logCall { id := dccid, status := status, ctx := dcc.ctx, data := data, length := length }
      onClient (callbackDccResumeFile env dccid dcc.ctx length)

/-- A new session is noted with the size of its offer. -/
def requests (env : Env) (nick : Option Bytes) : Requests LoggedM where
  env := env
  setLasterror err := onClient (setLasterror err)
  unlock := onClient libircMutexUnlock
  newDccSession ip port ssl := onClient (libircNewDccSession env ip port none ssl)
  withToken token x := do
    match ← onClient (libircFindDccSessionByToken token true) with
    | none => return
    | some dcc => x dcc.id dcc
  withPort port x := do
    match ← onClient (libircFindDccSessionByPort port true) with
    | none => return
    | some dcc => x dcc.id dcc
  noted dccid size x := do logSize dccid size; x
  modify dccid f := onClient (modifySession dccid f)
  eventDccSendReq filename size dccid := onClient (recvFileRequest env nick filename size dccid)
  eventDccSendReqReverse filename size dccid token :=
    onClient (recvFileRequestReverse env nick filename size dccid token)
  cb dccid size := callCb env dccid 1 none size
  reverseCb dccid size token := onClient (DccEvents.callReverseCb env dccid size nick token)

def libircDccRequest (env : Env) (nick : Option Bytes) (req : Bytes) : LoggedM Unit := do
  match isValidRequestFromNick (← get).client.cfg nick with
  | none => throw .nullNick
  | some verified => (requests env nick).handleCall (dccRequestCall verified req)

def turn (dccid : ℕ) : Turn LoggedM where
  lock := onClient libircMutexLock
  unlock := onClient libircMutexUnlock
  noted a x := do onClient (record (a dccid)); x
  modify f := onClient (modifySession dccid f)
  withConfig k := do k (← get).client.cfg
  destroy := onClient (libircDccDestroyNolock dccid)

def processDescriptor (dccid : ℕ) (ready : SocketReady) : LoggedM Unit := do
  match ← onClient (libircFindDccSession dccid false) with
  | none => return
  | some dcc => (turn dcc.id).processDescriptor dcc (ready.turn (callCb noEnv dcc.id))

def handle : Event → LoggedM Unit
  | .request env nick req => libircDccRequest env nick req
  | .socket dccid ready => do
    onClient libircMutexLock
    processDescriptor dccid ready
    onClient libircMutexUnlock
  | .addDescriptors => onClient DccEvents.removeDccSessions
  | .outputTimer => onClient outputAllProgesses

def step (s : LoggedClient) (e : Event) : LoggedClient :=
  match s.client.halted with
  | some _ => s
  | none =>
    match (handle e).run s with
    | .ok _ s' => s'
    | .error h s' => { s' with client := { s'.client with halted := some h } }

def initial (cfg : XdccGetConfig) (net : Net) (files : Bytes → Option Bytes) : LoggedClient :=
  { client := DccEvents.initial cfg net files, dataCalls := [], announced := [] }

def Logs (s : LoggedClient) (c : Client) : Prop := s.client = c

section erasure

theorem onClient_erased {α : Type} (x : ClientM α) : Simulates id Logs (onClient x) x :=
  simulates_zoom (fun _ _ => rfl) x

theorem logged_erased {α : Type} {entry : LoggedM Unit}
    (hentry : ∀ s, ∃ s', entry.run s = .ok ⟨⟩ s' ∧ s'.client = s.client) {x : LoggedM α}
    {y : ClientM α} (h : Simulates id Logs x y) : Simulates id Logs (entry >>= fun _ => x) y := by
  refine relates_bind_left (R := fun _ => Logs) (fun s c hsc => ?_) fun _ => h
  obtain ⟨s', hrun, hclient⟩ := hentry s
  exact ⟨⟨⟩, s', hrun, hclient.trans hsc⟩

theorem logCall_run (call : DataCall) (s : LoggedClient) :
    ∃ s', (logCall call).run s = .ok ⟨⟩ s' ∧ s'.client = s.client := ⟨_, rfl, rfl⟩

theorem logSize_run (dccid size : ℕ) (s : LoggedClient) :
    ∃ s', (logSize dccid size).run s = .ok ⟨⟩ s' ∧ s'.client = s.client := ⟨_, rfl, rfl⟩

theorem callCb_erased (env : Env) (dccid status : ℕ) (data : Option Bytes) (length : ℕ) :
    Simulates id Logs (callCb env dccid status data length)
      (DccEvents.callCb env dccid status data length) := by
  refine simulates_get_bind fun s c hsc => ?_
  rw [show s.client = c from hsc]
  cases c.dccSessions.find? (fun d => decide (d.id = dccid)) with
  | none => exact simulates_pure ()
  | some dcc =>
    refine simulates_bind (onClient_erased _) fun _ => ?_
    cases dcc.cb with
    | none => exact simulates_throw _
    | some cb =>
      cases cb with
      | callbackDccRecvFile => exact logged_erased (logCall_run _) (onClient_erased _)
      | callbackDccResumeFile => exact logged_erased (logCall_run _) (onClient_erased _)

theorem found_erased {found : ClientM (Option DccSession)} {x : ℕ → DccSession → LoggedM Unit}
    {y : ℕ → DccSession → ClientM Unit} (h : ∀ dcc d, Simulates id Logs (x dcc d) (y dcc d)) :
    Simulates id Logs (do
        match ← onClient found with
        | none => return
        | some dcc => x dcc.id dcc)
      (do
        match ← found with
        | none => return
        | some dcc => y dcc.id dcc) := by
  refine simulates_bind (onClient_erased _) fun d => ?_
  cases d with
  | none => exact simulates_pure ()
  | some dcc => exact h dcc.id dcc

theorem requests_erased (env : Env) (nick : Option Bytes) :
    Requests.Alike (Simulates id Logs) (fun _ => True) (requests env nick)
      (DccEvents.requests env nick) where
  env := rfl
  pure := simulates_pure ()
  bind h h' := simulates_bind h fun _ => h'
  setLasterror err := onClient_erased (setLasterror err)
  unlock := onClient_erased libircMutexUnlock
  newDccSession _ _ _ _ _ h := simulates_bind (onClient_erased _) h
  withToken _ _ _ h := found_erased h
  withPort _ _ _ h := found_erased h
  noted dccid size _ _ h := logged_erased (logSize_run dccid size) h
  modify dccid f := onClient_erased (modifySession dccid f)
  eventDccSendReq filename size dccid _ :=
    onClient_erased (recvFileRequest env nick filename size dccid)
  eventDccSendReqReverse filename size dccid token _ :=
    onClient_erased (recvFileRequestReverse env nick filename size dccid token)
  cb dccid size := callCb_erased env dccid 1 none size
  reverseCb dccid size token := onClient_erased (DccEvents.callReverseCb env dccid size nick token)

theorem libircDccRequest_erased (env : Env) (nick : Option Bytes) (req : Bytes) :
    Simulates id Logs (libircDccRequest env nick req) (DccEvents.libircDccRequest env nick req) := by
  refine simulates_get_bind fun s c hsc => ?_
  rw [show s.client = c from hsc]
  cases isValidRequestFromNick c.cfg nick with
  | none => exact simulates_throw _
  | some verified => exact (requests_erased env nick).handleCall fun _ _ => trivial

theorem turn_erased (dccid : ℕ) :
    Turn.Alike (fun _ _ => Simulates id Logs) (turn dccid) (DccEvents.turn dccid) where
  pure := simulates_pure ()
  bind h h' := simulates_bind h fun _ => h'
  lock := onClient_erased libircMutexLock
  unlock := onClient_erased libircMutexUnlock
  received _ _ _ h := simulates_bind (onClient_erased _) fun _ => h
  acknowledged _ _ _ _ h := simulates_bind (onClient_erased _) fun _ => h
  modify _ _ _ _ := onClient_erased (modifySession dccid _)
  withConfig h := simulates_get_bind fun s c hsc => by
    rw [show s.client = c from hsc]
    exact h c.cfg
  destroy := onClient_erased (libircDccDestroyNolock dccid)

theorem processDescriptor_erased (dccid : ℕ) (ready : SocketReady) :
    Simulates id Logs (processDescriptor dccid ready) (DccEvents.processDescriptor dccid ready) := by
  refine simulates_bind (onClient_erased _) fun found => ?_
  cases found with
  | none => exact simulates_pure ()
  | some dcc =>
    apply (turn_erased dcc.id).processDescriptor dcc
    exact SocketReady.turn_alike (fun _ _ => callCb_erased _ _ _ _ _) (fun _ => callCb_erased _ _ _ _ _)
      fun _ _ => callCb_erased _ _ _ _ _

theorem handle_erased (e : Event) : Simulates id Logs (handle e) (DccEvents.handle e) := by
  cases e with
  | request env nick req => exact libircDccRequest_erased env nick req
  | socket dccid ready =>
    refine simulates_bind (onClient_erased _) fun _ => ?_
    exact simulates_bind (processDescriptor_erased dccid ready) fun _ => onClient_erased _
  | addDescriptors => exact onClient_erased _
  | outputTimer => exact onClient_erased _

theorem step_client (s : LoggedClient) (e : Event) : (step s e).client = DccEvents.step s.client e := by
  unfold step DccEvents.step
  cases s.client.halted with
  | some fault => rfl
  | none =>
    have h := handle_erased e s s.client rfl
    cases hx : (handle e).run s <;> cases hy : (DccEvents.handle e).run s.client <;> rw [hx, hy] at h
    · exact h.2
    · exact h.elim
    · exact h.elim
    · obtain ⟨rfl, hclient⟩ := h
      simp only [Logs] at hclient
      rw [← hclient]

end erasure

def Adds (p : DataCall → Prop) (s s' : LoggedClient) : Prop :=
  ∃ l, s'.dataCalls = s.dataCalls ++ l ∧ ∀ call ∈ l, p call

structure Admits (p : DataCall → Prop) : Prop where
  failed : ∀ id status ctx length, status ≠ 0 → p ⟨id, status, ctx, none, length⟩
  chunk : ∀ id ctx data length, p ⟨id, 0, ctx, some data, length⟩

section additions
variable {p : DataCall → Prop}

theorem adds_nil {s s' : LoggedClient} (h : s'.dataCalls = s.dataCalls) : Adds p s s' :=
  ⟨[], by rw [h, List.append_nil], by simp⟩

theorem adds_refl (s : LoggedClient) : Adds p s s := adds_nil rfl

theorem adds_trans (s t u : LoggedClient) (h : Adds p s t) (h' : Adds p t u) : Adds p s u := by
  obtain ⟨l, ht, hl⟩ := h
  obtain ⟨l', hu, hl'⟩ := h'
  refine ⟨l ++ l', by rw [hu, ht, List.append_assoc], fun call hcall => ?_⟩
  rcases List.mem_append.mp hcall with hmem | hmem
  · exact hl call hmem
  · exact hl' call hmem

theorem onClient_adds {α : Type} (x : ClientM α) : Moves (Adds p) (onClient x) := by
  intro s
  rw [onClient, endState_zoom]
  exact adds_nil rfl

theorem logSize_adds (dccid size : ℕ) : Moves (Adds p) (logSize dccid size) :=
  moves_modify fun _ => adds_nil rfl

theorem logCall_adds {call : DataCall} (h : p call) : Moves (Adds p) (logCall call) :=
  moves_modify fun _ => ⟨[call], rfl, by simpa using h⟩

theorem bind_adds {α β : Type} {x : LoggedM β} {f : β → LoggedM α} (hx : Moves (Adds p) x)
    (hf : ∀ b, Moves (Adds p) (f b)) : Moves (Adds p) (x >>= f) := moves_bind adds_trans hx hf

theorem pure_adds {α : Type} (a : α) : Moves (Adds p) (pure a : LoggedM α) := moves_pure adds_refl a

theorem callCb_adds (env : Env) {dccid status : ℕ} {data : Option Bytes} {length : ℕ}
    (h : ∀ ctx, p ⟨dccid, status, ctx, data, length⟩) :
    Moves (Adds p) (callCb env dccid status data length) := by
  refine bind_adds (moves_get adds_refl) fun s => ?_
  cases s.client.dccSessions.find? (fun d => decide (d.id = dccid)) with
  | none => exact pure_adds ()
  | some dcc =>
    refine bind_adds (onClient_adds _) fun _ => ?_
    cases dcc.cb with
    | none => exact moves_throw adds_refl _
    | some cb =>
      cases cb with
      | callbackDccRecvFile => exact bind_adds (logCall_adds (h _)) fun _ => onClient_adds _
      | callbackDccResumeFile => exact bind_adds (logCall_adds (h _)) fun _ => onClient_adds _

theorem found_adds {found : ClientM (Option DccSession)} {x : ℕ → DccSession → LoggedM Unit}
    (h : ∀ dcc d, Moves (Adds p) (x dcc d)) :
    Moves (Adds p) (do
      match ← onClient found with
      | none => return
      | some dcc => x dcc.id dcc) := by
  refine bind_adds (onClient_adds _) fun d => ?_
  cases d with
  | none => exact pure_adds ()
  | some dcc => exact h dcc.id dcc

variable (hp : Admits p)
include hp

theorem requests_adds (env : Env) (nick : Option Bytes) :
    (requests env nick).Keeps (Moves (Adds p)) fun _ => True where
  env := rfl
  pure := pure_adds ()
  bind h h' := bind_adds h fun _ => h'
  setLasterror err := onClient_adds (setLasterror err)
  unlock := onClient_adds libircMutexUnlock
  newDccSession _ _ _ _ _ h := bind_adds (onClient_adds _) h
  withToken _ _ _ h := found_adds h
  withPort _ _ _ h := found_adds h
  noted dccid size _ _ h := bind_adds (logSize_adds dccid size) fun _ => h
  modify dccid f := onClient_adds (modifySession dccid f)
  eventDccSendReq filename size dccid _ :=
    onClient_adds (recvFileRequest env nick filename size dccid)
  eventDccSendReqReverse filename size dccid token _ :=
    onClient_adds (recvFileRequestReverse env nick filename size dccid token)
  cb dccid size := callCb_adds env fun ctx => hp.failed _ _ ctx _ (by decide)
  reverseCb dccid size token := onClient_adds (DccEvents.callReverseCb env dccid size nick token)

theorem libircDccRequest_adds (env : Env) (nick : Option Bytes) (req : Bytes) :
    Moves (Adds p) (libircDccRequest env nick req) := by
  refine bind_adds (moves_get adds_refl) fun s => ?_
  cases isValidRequestFromNick s.client.cfg nick with
  | none => exact moves_throw adds_refl _
  | some verified => exact (requests_adds hp env nick).handleCall fun _ _ => trivial

omit hp in
theorem turn_adds (dccid : ℕ) : (turn dccid).Keeps (Moves (Adds p)) where
  pure := pure_adds ()
  bind h h' := bind_adds h fun _ => h'
  lock := onClient_adds libircMutexLock
  unlock := onClient_adds libircMutexUnlock
  received _ _ _ h := bind_adds (onClient_adds _) fun _ => h
  acknowledged _ _ _ _ h := bind_adds (onClient_adds _) fun _ => h
  modify _ _ _ _ := onClient_adds (modifySession dccid _)
  withConfig h := bind_adds (moves_get adds_refl) fun s => h s.client.cfg
  destroy := onClient_adds (libircDccDestroyNolock dccid)

theorem processDescriptor_adds (dccid : ℕ) {ready : SocketReady}
    (hdone : ∀ len, ready = .confirming (.sent (len + 1)) → ∀ id ctx, p ⟨id, 0, ctx, none, 0⟩) :
    Moves (Adds p) (processDescriptor dccid ready) := by
  refine bind_adds (onClient_adds _) fun found => ?_
  cases found with
  | none => exact pure_adds ()
  | some dcc =>
    apply (turn_adds dcc.id).processDescriptor dcc
    refine SocketReady.turn_alike (fun err herr => ?_) (fun chunk => ?_) fun len hlen => ?_
    · exact callCb_adds _ fun ctx => hp.failed dcc.id err ctx 0 herr
    · exact callCb_adds _ fun ctx => hp.chunk dcc.id ctx _ _
    · exact callCb_adds _ (hdone len hlen dcc.id)

theorem step_adds (s : LoggedClient) {e : Event}
    (hdone : ∀ id len, e = .socket id (.confirming (.sent (len + 1))) →
      ∀ id ctx, p ⟨id, 0, ctx, none, 0⟩) : Adds p s (step s e) := by
  have hhandle : Moves (Adds p) (handle e) := by
    cases e with
    | request env nick req => exact libircDccRequest_adds hp env nick req
    | socket dccid ready =>
      refine bind_adds (onClient_adds _) fun _ => bind_adds ?_ fun _ => onClient_adds _
      exact processDescriptor_adds hp dccid fun len hready => hdone dccid len (by rw [hready])
    | addDescriptors => exact onClient_adds _
    | outputTimer => exact onClient_adds _
  unfold step
  cases s.client.halted with
  | some fault => exact adds_refl s
  | none =>
    have h := hhandle s
    unfold endState at h
    cases hrun : (handle e).run s with
    | ok a s' =>
      rw [hrun] at h
      exact h
    | error fault s' =>
      rw [hrun] at h
      exact h

end additions

def toldBy (s : LoggedClient) (e : Event) : List DataCall :=
  (step s e).dataCalls.drop s.dataCalls.length

theorem toldBy_of_append {s : LoggedClient} {e : Event} {l : List DataCall}
    (h : (step s e).dataCalls = s.dataCalls ++ l) : toldBy s e = l := by
  rw [toldBy, h, List.drop_left]

end Xdccget.LoggedTurns
