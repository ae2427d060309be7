import Xdccget.ClientState

set_option autoImplicit false

/-!
# The turns of a socket

What `libirc_dcc_process_descriptors` does with a session whose socket is ready, over the
steps of the model that it runs in.
-/
namespace Xdccget.SocketTurns
open ClientState

variable {m n : Type → Type}

/-- The steps for one session. `noted` is told what the session does in a step. -/
structure Turn (m : Type → Type) where
  lock : m Unit
  unlock : m Unit
  noted : (ℕ → Action) → m Unit → m Unit
  modify : (DccSession → DccSession) → m Unit
  withConfig : (XdccGetConfig → m Unit) → m Unit
  destroy : m Unit

/-- What one `recv` or `SSL_read` comes to, with the call of the callback that is told of it. -/
inductive ReadTurn (m : Type → Type)
  | again | wantWrite
  | fails (call : m Unit)
  | data (length : ℕ) (call : m Unit)

/-- What one `send` or `SSL_write` comes to, with the call of the callback. -/
inductive SendTurn (m : Type → Type)
  | again | wantRead
  | fails (call : m Unit)
  | sent (len : ℕ) (call : m Unit)

inductive SocketTurn (m : Type → Type)
  | connecting (getpeername : Bool)
  | receiving (results : List (ReadTurn m))
  | confirming (result : SendTurn m)
  | accepting (sock : Option ℕ)

namespace Turn
variable [Monad m] (t : Turn m)

/-- The callback is called while the list is unlocked. -/
def report (call : m Unit) : m Unit := do
  t.unlock
  call
  t.lock

/-- The callback is told of the end and the session is removed. -/
def receiveFailed (call : m Unit) : m Unit := do
  t.unlock
  call
  t.lock
  t.destroy

/-- One chunk of `recv_dcc_file`. The state is written behind the callback, whatever that has
    done. -/
def receiveChunk (length : ℕ) (call : m Unit) : m Unit := do
  t.unlock
  t.noted (.received · length) do
    t.modify fun d => { d with fileConfirmOffset := u64 (d.fileConfirmOffset + length) }
    call
    t.withConfig fun cfg => do
      t.modify fun d => { d with state := if cfg.dontConfirmOffsets then .connected else .confirmSize }
      t.lock

/-- `recv_dcc_file`: with SSL the loop goes on while there is pending data, which is what the
    further results stand for. -/
def recvDccFile (ssl : Bool) : List (ReadTurn m) → m Unit
  | [] => return
  | .again :: more => if ssl then return else recvDccFile ssl more
  | .wantWrite :: more =>
    if ssl then t.modify fun d => { d with state := .confirmSize } else recvDccFile ssl more
  | .fails call :: _ => t.receiveFailed call
  | .data length call :: more => do
    t.receiveChunk length call
    if ssl then recvDccFile ssl more else return

/-- `send_current_file_offset_to_sender`; an error is reported and the session stays. -/
def sendCurrentFileOffsetToSender (dcc : DccSession) : SendTurn m → m Unit
  | .again => return
  | .wantRead => if dcc.ssl then t.modify fun d => { d with state := .connected } else return
  | .fails call => t.report call
  | .sent len call =>
    t.noted (.acknowledged · (dcc.fileConfirmOffset % 2 ^ 32) len) do
      if dcc.receivedFileSize = dcc.fileConfirmOffset then t.receiveFailed call
      else t.modify fun d => { d with state := .connected }

/-- The body of the loop of `libirc_dcc_process_descriptors`. The result of `accept` is not
    looked at. -/
def processDescriptor (dcc : DccSession) (ready : SocketTurn m) : m Unit :=
  match dcc.state, ready with
  | .connecting, .connecting getpeername =>
    if getpeername then t.modify fun d => { d with state := .connected } else t.destroy
  | .connected, .receiving results => t.recvDccFile dcc.ssl results
  | .confirmSize, .confirming result => t.sendCurrentFileOffsetToSender dcc result
  | .initPassive, .accepting sock => t.modify fun d => { d with sock := sock, state := .connected }
  | _, _ => return

end Turn

section alike
variable (S : m Unit → n Unit → Prop)

inductive ReadTurn.Alike : ReadTurn m → ReadTurn n → Prop
  | again : Alike .again .again
  | wantWrite : Alike .wantWrite .wantWrite
  | fails {x : m Unit} {y : n Unit} (h : S x y) : Alike (.fails x) (.fails y)
  | data (length : ℕ) {x : m Unit} {y : n Unit} (h : S x y) : Alike (.data length x) (.data length y)

inductive SendTurn.Alike : SendTurn m → SendTurn n → Prop
  | again : Alike .again .again
  | wantRead : Alike .wantRead .wantRead
  | fails {x : m Unit} {y : n Unit} (h : S x y) : Alike (.fails x) (.fails y)
  | sent (len : ℕ) {x : m Unit} {y : n Unit} (h : S x y) : Alike (.sent len x) (.sent len y)

inductive SocketTurn.Alike : SocketTurn m → SocketTurn n → Prop
  | connecting (getpeername : Bool) : Alike (.connecting getpeername) (.connecting getpeername)
  | receiving {rs : List (ReadTurn m)} {rs' : List (ReadTurn n)}
      (h : List.Forall₂ (ReadTurn.Alike S) rs rs') : Alike (.receiving rs) (.receiving rs')
  | confirming {r : SendTurn m} {r' : SendTurn n} (h : SendTurn.Alike S r r') :
      Alike (.confirming r) (.confirming r')
  | accepting (sock : Option ℕ) : Alike (.accepting sock) (.accepting sock)

/-- What relations between programs must allow for to hold between the turns that they make. The
    indices say whether the list is locked before and after. -/
structure Turn.Alike [Monad m] [Monad n] (S : Bool → Bool → m Unit → n Unit → Prop) (t : Turn m)
    (t' : Turn n) : Prop where
  pure : S true true (Pure.pure ⟨⟩) (Pure.pure ⟨⟩)
  bind : ∀ {i j k : Bool} {x x' : m Unit} {y y' : n Unit}, S i j x y → S j k x' y' →
    S i k (do x; x') (do y; y')
  lock : S false true t.lock t'.lock
  unlock : S true false t.unlock t'.unlock
  received : ∀ (length : ℕ) {x : m Unit} {y : n Unit}, S false true x y →
    S false true (t.noted (.received · length) x) (t'.noted (.received · length) y)
  acknowledged : ∀ (word len : ℕ) {x : m Unit} {y : n Unit}, S true true x y →
    S true true (t.noted (.acknowledged · word len) x) (t'.noted (.acknowledged · word len) y)
  modify : ∀ (i : Bool) (offset : DccSession → ℕ) (state : DccSession → LibircState)
    (sock : DccSession → Option ℕ),
    S i i
      (t.modify fun d => { d with fileConfirmOffset := offset d, state := state d, sock := sock d })
      (t'.modify fun d => { d with fileConfirmOffset := offset d, state := state d, sock := sock d })
  withConfig : ∀ {k : XdccGetConfig → m Unit} {k' : XdccGetConfig → n Unit},
    (∀ cfg, S false true (k cfg) (k' cfg)) → S false true (t.withConfig k) (t'.withConfig k')
  destroy : S true true t.destroy t'.destroy

/-- The steps keep a property of programs. With two equal turns a relation is one. -/
abbrev Turn.Keeps [Monad m] (P : m Unit → Prop) (t : Turn m) : Prop :=
  Turn.Alike (fun _ _ x _ => P x) t t

end alike

theorem alike_ite {S : m Unit → n Unit → Prop} {c : Prop} [Decidable c] {x x' : m Unit}
    {y y' : n Unit} (hthen : S x y) (helse : S x' y') :
    S (if c then x else x') (if c then y else y') := by
  split
  · exact hthen
  · exact helse

namespace Turn.Alike
variable [Monad m] [Monad n] {S : Bool → Bool → m Unit → n Unit → Prop} {t : Turn m} {t' : Turn n}
  (A : Turn.Alike S t t')
include A

theorem report {x : m Unit} {y : n Unit} (h : S false false x y) : S true true (t.report x) (t'.report y) :=
  A.bind A.unlock (A.bind h A.lock)

theorem receiveFailed {x : m Unit} {y : n Unit} (h : S false false x y) :
    S true true (t.receiveFailed x) (t'.receiveFailed y) :=
  A.bind A.unlock (A.bind h (A.bind A.lock A.destroy))

theorem receiveChunk (length : ℕ) {x : m Unit} {y : n Unit} (h : S false false x y) :
    S true true (t.receiveChunk length x) (t'.receiveChunk length y) := by
  refine A.bind A.unlock (A.received _ (A.bind (A.modify _ _ _ _) (A.bind h ?_)))
  exact A.withConfig fun cfg => A.bind (A.modify _ _ _ _) A.lock

theorem recvDccFile (ssl : Bool) {rs : List (ReadTurn m)} {rs' : List (ReadTurn n)}
    (h : List.Forall₂ (ReadTurn.Alike (S false false)) rs rs') :
    S true true (t.recvDccFile ssl rs) (t'.recvDccFile ssl rs') := by
  induction h with
  | nil => exact A.pure
  | cons hr _ ih =>
    cases hr with
    | again => exact alike_ite A.pure ih
    | wantWrite => exact alike_ite (A.modify _ _ _ _) ih
    | fails h => exact A.receiveFailed h
    | data length h => exact A.bind (A.receiveChunk length h) (alike_ite ih A.pure)

theorem sendCurrentFileOffsetToSender (dcc : DccSession) {r : SendTurn m} {r' : SendTurn n}
    (h : SendTurn.Alike (S false false) r r') :
    S true true (t.sendCurrentFileOffsetToSender dcc r) (t'.sendCurrentFileOffsetToSender dcc r') := by
  cases h with
  | again => exact A.pure
  | wantRead => exact alike_ite (A.modify _ _ _ _) A.pure
  | fails h => exact A.report h
  | sent len h => exact A.acknowledged _ _ (alike_ite (A.receiveFailed h) (A.modify _ _ _ _))

/-- What holds between the steps and between the callbacks holds between the turns. -/
theorem processDescriptor (dcc : DccSession) {ready : SocketTurn m} {ready' : SocketTurn n}
    (h : SocketTurn.Alike (S false false) ready ready') :
    S true true (t.processDescriptor dcc ready) (t'.processDescriptor dcc ready') := by
  unfold Turn.processDescriptor
  generalize dcc.state = state
  cases h with
  | connecting getpeername =>
    cases state with
    | connecting => exact alike_ite (A.modify _ _ _ _) A.destroy
    | _ => exact A.pure
  | receiving h =>
    cases state with
    | connected => exact A.recvDccFile dcc.ssl h
    | _ => exact A.pure
  | confirming h =>
    cases state with
    | confirmSize => exact A.sendCurrentFileOffsetToSender dcc h
    | _ => exact A.pure
  | accepting sock =>
    cases state with
    | initPassive => exact A.modify _ _ _ _
    | _ => exact A.pure

end Turn.Alike

namespace Turn.Keeps
variable [Monad m] {P : m Unit → Prop} {t : Turn m} (K : t.Keeps P)
include K

theorem receiveFailed {x : m Unit} (h : P x) : P (t.receiveFailed x) :=
  @Turn.Alike.receiveFailed m m _ _ (fun _ _ x _ => P x) t t K x x h

theorem recvDccFile (ssl : Bool) {results : List (ReadTurn m)}
    (h : List.Forall₂ (ReadTurn.Alike fun x _ => P x) results results) :
    P (t.recvDccFile ssl results) := Turn.Alike.recvDccFile K ssl h

theorem sendCurrentFileOffsetToSender (dcc : DccSession) {result : SendTurn m}
    (h : SendTurn.Alike (fun x _ => P x) result result) :
    P (t.sendCurrentFileOffsetToSender dcc result) :=
  Turn.Alike.sendCurrentFileOffsetToSender K dcc h

theorem processDescriptor (dcc : DccSession) {ready : SocketTurn m}
    (h : SocketTurn.Alike (fun x _ => P x) ready ready) : P (t.processDescriptor dcc ready) :=
  Turn.Alike.processDescriptor K dcc h

end Turn.Keeps

end Xdccget.SocketTurns
