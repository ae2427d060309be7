import Xdccget.Scanf

set_option autoImplicit false

/-!
# The texts that `libirc_dcc_request` understands

The `sscanf` patterns of `libirc_dcc_request` in the order in which they are
tried, and the call that the first one that matches leads to.
-/
namespace Xdccget.DccMessages
open CText Scanf

/-- `LIBIRC_BUFFER_SIZE`; `ctcp_buf` has this size, with the terminator. -/
def libircBufferSize : ℕ := 2048

/-- What the request leads to. The two resumes are the branches of an
    acknowledgement. -/
inductive DccCall
  | acceptReverseDccSend (filename : Bytes) (ip size token : ℕ) (ssl : Bool)
  | acceptDccSend (filename : Bytes) (ip size port : ℕ) (ssl : Bool)
  | acceptResumeReverse (size token : ℕ)
  | acceptResume (port size : ℕ)
  | unhandled
  | ignored
  deriving DecidableEq, Repr

/-- `DCC SEND %2048s %lu 0 %llu %lu` -/
def reverseSendFormat : List Directive :=
  literal "DCC SEND " ++ .str libircBufferSize :: (numbers [64] ++ literal " 0" ++ numbers [64, 64])

/-- `DCC SEND %2048s %lu %hu %llu` -/
def sendFormat : List Directive :=
  literal "DCC SEND " ++ .str libircBufferSize :: numbers [64, 16, 64]

/-- The same with `"%2048[^"]"` for the file name. -/
def quotedSendFormat : List Directive :=
  literal "DCC SEND " ++
    .lit quote :: .until_ quote libircBufferSize :: .lit quote :: numbers [64, 16, 64]

/-- `DCC SEND %2048s %lu %hu` -/
def sendWithoutSizeFormat : List Directive :=
  literal "DCC SEND " ++ .str libircBufferSize :: numbers [64, 16]

/-- `DCC SSEND %2048s %lu %hu %llu` -/
def ssendFormat : List Directive :=
  literal "DCC SSEND " ++ .str libircBufferSize :: numbers [64, 16, 64]

/-- `DCC ACCEPT file.ext 0 %llu %lu` -/
def acceptReverseFormat : List Directive := literal "DCC ACCEPT file.ext 0" ++ numbers [64, 64]

/-- `DCC ACCEPT file.ext %hu %llu` -/
def acceptFormat : List Directive := literal "DCC ACCEPT file.ext" ++ numbers [16, 64]

def reverseSendCall (req : Bytes) : Option DccCall :=
  match sscanf reverseSendFormat req with
  | [.text filename, .num ip, .num size, .num token] =>
    some (.acceptReverseDccSend filename ip size token false)
  | _ => none

def sendCall (format : List Directive) (ssl : Bool) (req : Bytes) : Option DccCall :=
  match sscanf format req with
  | [.text filename, .num ip, .num port, .num size] =>
    some (.acceptDccSend filename ip size port ssl)
  | _ => none

def sendWithoutSizeCall (req : Bytes) : Option DccCall :=
  match sscanf sendWithoutSizeFormat req with
  | [.text filename, .num ip, .num port] => some (.acceptDccSend filename ip 0 port false)
  | _ => none

def acceptReverseCall (req : Bytes) : Option DccCall :=
  match sscanf acceptReverseFormat req with
  | [.num size, .num token] => some (.acceptResumeReverse size token)
  | _ => none

def acceptCall (req : Bytes) : Option DccCall :=
  match sscanf acceptFormat req with
  | [.num port, .num size] => some (.acceptResume port size)
  | _ => none

/-- The `if` chain of `libirc_dcc_request`, first match first. -/
def dccPatterns : List (Bytes → Option DccCall) :=
  [reverseSendCall, sendCall sendFormat false, sendCall quotedSendFormat false,
    sendWithoutSizeCall, sendCall ssendFormat true, acceptReverseCall, acceptCall]

/-- `verified` is the answer of `verify_incoming_dcc_requests_req` about the nick. -/
def dccRequestCall (verified : Bool) (req : Bytes) : DccCall :=
  if verified then (dccPatterns.findSome? (fun pattern => pattern req)).getD .unhandled
  else .ignored

def DccCall.filename : DccCall → Option Bytes
  | .acceptReverseDccSend f _ _ _ _ => some f
  | .acceptDccSend f _ _ _ _ => some f
  | _ => none

theorem reverseSendCall_eq_some {req : Bytes} {call : DccCall}
    (h : reverseSendCall req = some call) :
    ∃ f ip size token, sscanf reverseSendFormat req = [.text f, .num ip, .num size, .num token] ∧
      call = .acceptReverseDccSend f ip size token false := by
  unfold reverseSendCall at h
  split at h
  · next f ip size token heq => exact ⟨f, ip, size, token, heq, (Option.some.inj h).symm⟩
  · exact absurd h (by simp)

theorem sendCall_eq_some {format : List Directive} {ssl : Bool} {req : Bytes} {call : DccCall}
    (h : sendCall format ssl req = some call) :
    ∃ f ip port size, sscanf format req = [.text f, .num ip, .num port, .num size] ∧
      call = .acceptDccSend f ip size port ssl := by
  unfold sendCall at h
  split at h
  · next f ip port size heq => exact ⟨f, ip, port, size, heq, (Option.some.inj h).symm⟩
  · exact absurd h (by simp)

theorem sendWithoutSizeCall_eq_some {req : Bytes} {call : DccCall}
    (h : sendWithoutSizeCall req = some call) :
    ∃ f ip port, sscanf sendWithoutSizeFormat req = [.text f, .num ip, .num port] ∧
      call = .acceptDccSend f ip 0 port false := by
  unfold sendWithoutSizeCall at h
  split at h
  · next f ip port heq => exact ⟨f, ip, port, heq, (Option.some.inj h).symm⟩
  · exact absurd h (by simp)

theorem acceptReverseCall_eq_some {req : Bytes} {call : DccCall}
    (h : acceptReverseCall req = some call) : ∃ size token, call = .acceptResumeReverse size token := by
  unfold acceptReverseCall at h
  split at h
  · next size token _ => exact ⟨size, token, (Option.some.inj h).symm⟩
  · exact absurd h (by simp)

theorem acceptCall_eq_some {req : Bytes} {call : DccCall} (h : acceptCall req = some call) :
    ∃ port size, call = .acceptResume port size := by
  unfold acceptCall at h
  split at h
  · next port size _ => exact ⟨port, size, (Option.some.inj h).symm⟩
  · exact absurd h (by simp)

theorem dccRequestCall_of_send {req : Bytes} {call : DccCall}
    (h : sendCall sendFormat false req = some call) :
    dccRequestCall true req = (reverseSendCall req).getD call := by
  cases hr : reverseSendCall req with
  | none => simp [dccRequestCall, dccPatterns, hr, h]
  | some c => simp [dccRequestCall, dccPatterns, hr]

theorem exists_pattern_of_dccRequestCall {req : Bytes} {call : DccCall}
    (h : dccRequestCall true req = call) (hne : call ≠ .unhandled) :
    ∃ pattern ∈ dccPatterns, pattern req = some call := by
  have hget : (dccPatterns.findSome? (fun pattern => pattern req)).getD .unhandled = call := h
  cases hf : dccPatterns.findSome? (fun pattern => pattern req) with
  | none =>
    rw [hf] at hget
    exact absurd hget.symm hne
  | some c =>
    rw [hf] at hget
    exact List.exists_of_findSome?_eq_some (hget ▸ hf)

end Xdccget.DccMessages
