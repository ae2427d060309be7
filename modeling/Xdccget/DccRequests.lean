import Xdccget.SocketTurns

set_option autoImplicit false

/-!
# The requests of a peer

The branches of `libirc_dcc_request`, over the steps of the model that they run in.
-/
namespace Xdccget.DccRequests
open CText DccMessages ClientState
open SocketTurns (alike_ite)

/-- The steps for the requests of one peer. A session is named by its id or by the place of its
    node; the lookups leave the list locked. What is `noted` of a new session, with the size of
    its offer, is up to the model. -/
structure Requests (m : Type → Type) where
  env : Env
  setLasterror : ℕ → m Unit
  unlock : m Unit
  newDccSession : (ip port : ℕ) → (ssl : Bool) → m (Except ℕ ℕ)
  withToken : (token : ℕ) → (ℕ → DccSession → m Unit) → m Unit
  withPort : (port : ℕ) → (ℕ → DccSession → m Unit) → m Unit
  noted : (dcc size : ℕ) → m Unit → m Unit
  modify : (dcc : ℕ) → (DccSession → DccSession) → m Unit
  eventDccSendReq : (filename : Bytes) → (size dcc : ℕ) → m Unit
  eventDccSendReqReverse : (filename : Bytes) → (size dcc token : ℕ) → m Unit
  cb : (dcc size : ℕ) → m Unit
  reverseCb : (dcc size token : ℕ) → m Unit

namespace Requests
variable {m : Type → Type} [Monad m] (r : Requests m)

def acceptDccSend (filename : Bytes) (ip size port : ℕ) (ssl : Bool) : m Unit := do
  match ← r.newDccSession ip port ssl with
  | .error err => r.setLasterror err
  | .ok dcc =>
    r.noted dcc size do
      r.eventDccSendReq filename size dcc
      r.modify dcc fun d => { d with receivedFileSize := size }

def acceptReverseDccSend (filename : Bytes) (ip size token : ℕ) (ssl : Bool) : m Unit := do
  match ← r.newDccSession ip 0 ssl with
  | .error err => r.setLasterror err
  | .ok dcc =>
    r.noted dcc size do
      r.modify dcc fun d => { d with passiveConnection := true, token := token }
      if !r.env.bind then
        r.setLasterror libircBindFailed
        return
      if !r.env.listen then
        r.setLasterror libircListenFailed
        return
      r.eventDccSendReqReverse filename size dcc token

/-- The acknowledgement of a passive session. A session that does not wait leaves the list
    locked. -/
def acceptResumeReverse (size token : ℕ) : m Unit :=
  r.withToken token fun dcc d => do
    if d.state ≠ .waitingForResumeAck then
      return
    r.modify dcc fun d => { d with state := .initPassive, fileConfirmOffset := size }
    r.unlock
    r.reverseCb dcc size token

def acceptResume (port size : ℕ) : m Unit :=
  r.withPort port fun dcc d => do
    if d.state ≠ .waitingForResumeAck then
      return
    r.modify dcc fun d => { d with state := .init, fileConfirmOffset := size }
    r.unlock
    r.cb dcc size

def handleCall : DccCall → m Unit
  | .acceptReverseDccSend filename ip size token ssl =>
    r.acceptReverseDccSend filename ip size token ssl
  | .acceptDccSend filename ip size port ssl => r.acceptDccSend filename ip size port ssl
  | .acceptResumeReverse size token => r.acceptResumeReverse size token
  | .acceptResume port size => r.acceptResume port size
  | .unhandled => return
  | .ignored => return

end Requests

variable {m n : Type → Type} [Monad m] [Monad n]

/-- What a relation between programs must allow for to hold between the branches that they make.
    Only files with names in `names` are offered. -/
structure Requests.Alike (S : m Unit → n Unit → Prop) (names : Bytes → Prop) (r : Requests m)
    (r' : Requests n) : Prop where
  env : r.env = r'.env
  pure : S (Pure.pure ⟨⟩) (Pure.pure ⟨⟩)
  bind : ∀ {x x' : m Unit} {y y' : n Unit}, S x y → S x' y' → S (do x; x') (do y; y')
  setLasterror : ∀ err, S (r.setLasterror err) (r'.setLasterror err)
  unlock : S r.unlock r'.unlock
  newDccSession : ∀ (ip port : ℕ) (ssl : Bool) {x : Except ℕ ℕ → m Unit} {y : Except ℕ ℕ → n Unit},
    (∀ created, S (x created) (y created)) →
      S (r.newDccSession ip port ssl >>= x) (r'.newDccSession ip port ssl >>= y)
  withToken : ∀ (token : ℕ) {x : ℕ → DccSession → m Unit} {y : ℕ → DccSession → n Unit},
    (∀ dcc d, S (x dcc d) (y dcc d)) → S (r.withToken token x) (r'.withToken token y)
  withPort : ∀ (port : ℕ) {x : ℕ → DccSession → m Unit} {y : ℕ → DccSession → n Unit},
    (∀ dcc d, S (x dcc d) (y dcc d)) → S (r.withPort port x) (r'.withPort port y)
  noted : ∀ (dcc size : ℕ) {x : m Unit} {y : n Unit}, S x y →
    S (r.noted dcc size x) (r'.noted dcc size y)
  modify : ∀ dcc f, S (r.modify dcc f) (r'.modify dcc f)
  eventDccSendReq : ∀ filename size dcc, names filename →
    S (r.eventDccSendReq filename size dcc) (r'.eventDccSendReq filename size dcc)
  eventDccSendReqReverse : ∀ filename size dcc token, names filename →
    S (r.eventDccSendReqReverse filename size dcc token)
      (r'.eventDccSendReqReverse filename size dcc token)
  cb : ∀ dcc size, S (r.cb dcc size) (r'.cb dcc size)
  reverseCb : ∀ dcc size token, S (r.reverseCb dcc size token) (r'.reverseCb dcc size token)

/-- The steps keep a property of programs. -/
abbrev Requests.Keeps (P : m Unit → Prop) (names : Bytes → Prop) (r : Requests m) : Prop :=
  Requests.Alike (fun x _ => P x) names r r

namespace Requests.Alike
variable {S : m Unit → n Unit → Prop} {names : Bytes → Prop} {r : Requests m} {r' : Requests n}
  (A : Requests.Alike S names r r')
include A

theorem acceptDccSend {filename : Bytes} (hname : names filename) (ip size port : ℕ) (ssl : Bool) :
    S (r.acceptDccSend filename ip size port ssl) (r'.acceptDccSend filename ip size port ssl) := by
  refine A.newDccSession ip port ssl fun created => ?_
  cases created with
  | error err => exact A.setLasterror err
  | ok dcc => exact A.noted _ _ (A.bind (A.eventDccSendReq _ _ _ hname) (A.modify _ _))

theorem acceptReverseDccSend {filename : Bytes} (hname : names filename) (ip size token : ℕ)
    (ssl : Bool) :
    S (r.acceptReverseDccSend filename ip size token ssl)
      (r'.acceptReverseDccSend filename ip size token ssl) := by
  have hfail (err : ℕ) : S (do r.setLasterror err; return) (do r'.setLasterror err; return) :=
    A.bind (A.setLasterror err) A.pure
  refine A.newDccSession ip 0 ssl fun created => ?_
  cases created with
  | error err => exact A.setLasterror err
  | ok dcc =>
    refine A.noted _ _ (A.bind (A.modify _ _) ?_)
    rw [A.env]
    refine alike_ite (hfail _) (alike_ite (hfail _) ?_)
    exact A.eventDccSendReqReverse _ _ _ _ hname

theorem acceptResumeReverse (size token : ℕ) :
    S (r.acceptResumeReverse size token) (r'.acceptResumeReverse size token) :=
  A.withToken token fun _ _ =>
    alike_ite A.pure (A.bind (A.modify _ _) (A.bind A.unlock (A.reverseCb _ _ _)))

theorem acceptResume (port size : ℕ) : S (r.acceptResume port size) (r'.acceptResume port size) :=
  A.withPort port fun _ _ =>
    alike_ite A.pure (A.bind (A.modify _ _) (A.bind A.unlock (A.cb _ _)))

theorem handleCall {call : DccCall} (hname : ∀ filename, call.filename = some filename →
    names filename) : S (r.handleCall call) (r'.handleCall call) := by
  cases call with
  | acceptReverseDccSend filename ip size token ssl =>
    exact A.acceptReverseDccSend (hname filename rfl) ip size token ssl
  | acceptDccSend filename ip size port ssl =>
    exact A.acceptDccSend (hname filename rfl) ip size port ssl
  | acceptResumeReverse size token => exact A.acceptResumeReverse size token
  | acceptResume port size => exact A.acceptResume port size
  | unhandled => exact A.pure
  | ignored => exact A.pure

end Requests.Alike

theorem Requests.Keeps.handleCall {P : m Unit → Prop} {names : Bytes → Prop} {r : Requests m}
    (K : r.Keeps P names) {call : DccCall} (hname : ∀ filename, call.filename = some filename →
    names filename) : P (r.handleCall call) := Requests.Alike.handleCall K hname

end Xdccget.DccRequests
