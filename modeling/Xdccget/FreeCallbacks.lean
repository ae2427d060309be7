import Xdccget.DccEvents

set_option autoImplicit false

/-!
# `dcc.c` under any application

The sessions of `dcc.c` with callbacks that are free to call the public operations on
their session. What a callback calls is part of the event that reaches it.
-/
namespace Xdccget.FreeCallbacks
open CText DccMessages ClientState DccSessions
open DccEvents (removeDccSessions)
open DccRequests (Requests)
open SocketTurns (Turn ReadTurn SendTurn SocketTurn)

/-- A public operation, with its arguments and the outcomes of the calls it makes. -/
inductive DccOperation
  | destroy
  | decline
  | accept (env : Env) (ctx : Option ℕ) (callback : DataCallback)
  | resume (ctx : Option ℕ) (callback : DataCallback) (nick : Option Bytes) (filePosition : ℕ)
  | acceptReverse (env : Env) (ctx : Option ℕ) (callback : DataCallback) (nick : Option Bytes)
      (filename : Bytes) (size token : ℕ)
  | resumeReverse (ctx : Option ℕ) (callback : ReverseCallback) (nick : Option Bytes)
      (filePosition token : ℕ)

def DccOperation.perform (dccid : ℕ) : DccOperation → ClientM ℕ
  | .destroy => ircDccDestroy dccid
  | .decline => ircDccDecline dccid
  | .accept env ctx callback => ircDccAccept env dccid ctx callback
  | .resume ctx callback nick filePosition => ircDccResume dccid ctx callback nick filePosition
  | .acceptReverse env ctx callback nick filename size token =>
    ircDccAcceptReverse env dccid ctx callback nick filename size token
  | .resumeReverse ctx callback nick filePosition token =>
    ircDccResumeReverse dccid ctx callback nick filePosition token

def DccOperation.destroys : DccOperation → Bool
  | .destroy => true
  | _ => false

def performAll (dccid : ℕ) : List DccOperation → ClientM Unit
  | [] => return
  | call :: calls => do
    discard (call.perform dccid)
    performAll dccid calls

/-- `(*dcc->cb) (...)`, which makes these calls. -/
def callCb (dccid : ℕ) (calls : List DccOperation) : ClientM Unit := do
  match (← get).dccSessions.find? (fun d => d.id = dccid) with
  | none => return
  | some dcc =>
    if dcc.cb.isNone then
      throw .nullCallback
    performAll dccid calls

/-- `(*dcc->reverse_cb) (...)`, which makes these calls. -/
def callReverseCb (dccid : ℕ) (calls : List DccOperation) : ClientM Unit := do
  match (← get).dccSessions.find? (fun d => d.id = dccid) with
  | none => return
  | some dcc =>
    if dcc.reverseCb.isNone then
      throw .nullCallback
    performAll dccid calls

def requests (env : Env) (calls : List DccOperation) : Requests ClientM :=
  { DccEvents.requests env none with
    eventDccSendReq := fun _ _ dccid => performAll dccid calls
    eventDccSendReqReverse := fun _ _ dccid _ => performAll dccid calls
    cb := fun dccid _ => callCb dccid calls
    reverseCb := fun dccid _ _ => callReverseCb dccid calls }

def libircDccRequest (env : Env) (verified : Bool) (req : Bytes) (calls : List DccOperation) :
    ClientM Unit := (requests env calls).handleCall (dccRequestCall verified req)

/-- What a read brings, with the calls of the callback that is told of it. -/
inductive RecvResult
  | again | wantWrite
  | error (calls : List DccOperation)
  | closed (calls : List DccOperation)
  | data (length : ℕ) (calls : List DccOperation)

/-- What a write brings, with the calls of the callback if one is told of it. -/
inductive SendResult
  | again | wantRead
  | error (calls : List DccOperation)
  | sent (len : ℕ) (calls : List DccOperation)

/-- `accepting none` is an `accept` that fails. -/
inductive SocketReady
  | connecting (getpeername : Bool)
  | receiving (results : List RecvResult)
  | confirming (result : SendResult)
  | accepting (sock : Option ℕ)

section turns
variable {m : Type → Type} (call : List DccOperation → m Unit)

def RecvResult.turn : RecvResult → ReadTurn m
  | .again => .again
  | .wantWrite => .wantWrite
  | .error calls => .fails (call calls)
  | .closed calls => .fails (call calls)
  | .data length calls => .data length (call calls)

def SendResult.turn : SendResult → SendTurn m
  | .again => .again
  | .wantRead => .wantRead
  | .error calls => .fails (call calls)
  | .sent 0 calls => .fails (call calls)
  | .sent (len + 1) calls => .sent (len + 1) (call calls)

def SocketReady.turn : SocketReady → SocketTurn m
  | .connecting getpeername => .connecting getpeername
  | .receiving results => .receiving (results.map (·.turn call))
  | .confirming result => .confirming (result.turn call)
  | .accepting sock => .accepting sock

theorem SocketReady.turn_alike {n : Type → Type} {S : m Unit → n Unit → Prop}
    {call : List DccOperation → m Unit} {call' : List DccOperation → n Unit}
    (h : ∀ calls, S (call calls) (call' calls)) (ready : SocketReady) :
    SocketTurn.Alike S (ready.turn call) (ready.turn call') := by
  cases ready with
  | connecting getpeername => exact .connecting getpeername
  | accepting sock => exact .accepting sock
  | confirming result =>
    apply SocketTurn.Alike.confirming
    cases result with
    | again => exact .again
    | wantRead => exact .wantRead
    | error calls => exact .fails (h calls)
    | sent len calls =>
      cases len with
      | zero => exact .fails (h calls)
      | succ len => exact .sent _ (h calls)
  | receiving results =>
    refine .receiving (List.forall₂_map_left_iff.mpr (List.forall₂_map_right_iff.mpr ?_))
    refine List.forall₂_same.mpr fun result _ => ?_
    cases result with
    | again => exact .again
    | wantWrite => exact .wantWrite
    | error calls => exact .fails (h calls)
    | closed calls => exact .fails (h calls)
    | data length calls => exact .data length (h calls)

end turns

/-- Nothing is recorded. -/
def turn (dccid : ℕ) : Turn ClientM where
  lock := libircMutexLock
  unlock := libircMutexUnlock
  noted _ x := x
  modify := modifySession dccid
  withConfig k := do k (← get).cfg
  destroy := libircDccDestroyNolock dccid

def processDescriptor (dccid : ℕ) (ready : SocketReady) : ClientM Unit := do
  match ← libircFindDccSession dccid false with
  | none => return
  | some dcc => (turn dcc.id).processDescriptor dcc (ready.turn (callCb dcc.id))

inductive Event
  | request (env : Env) (verified : Bool) (req : Bytes) (calls : List DccOperation)
  | operation (dccid : ℕ) (call : DccOperation)
  | socket (dccid : ℕ) (ready : SocketReady)
  | addDescriptors

def handle : Event → ClientM Unit
  | .request env verified req calls => libircDccRequest env verified req calls
  | .operation dccid call => discard (call.perform dccid)
  | .socket dccid ready => do
    libircMutexLock
    processDescriptor dccid ready
    libircMutexUnlock
  | .addDescriptors => removeDccSessions

def step (s : Client) (e : Event) : Client :=
  match s.halted with
  | some _ => s
  | none =>
    match (handle e).run s with
    | .ok _ s' => s'
    | .error h s' => { s' with halted := some h }

end Xdccget.FreeCallbacks
