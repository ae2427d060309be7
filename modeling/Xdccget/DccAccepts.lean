import Xdccget.DccMessages

set_option autoImplicit false

/-!
# The acknowledgements of a resume

A bot echoes the text of the RESUME it was sent as an ACCEPT, with a port and a
position or, for a reverse offer, with 0, a position and a token.
-/
namespace Xdccget.DccAccepts
open CText Scanf DccMessages

/-- `DCC ACCEPT file.ext port position` -/
def acceptText (port position : ℕ) : Bytes :=
  bytes "DCC ACCEPT file.ext" ++ numbersText [port, position]

/-- `DCC ACCEPT file.ext 0 position token` -/
def acceptReverseText (position token : ℕ) : Bytes :=
  bytes "DCC ACCEPT file.ext" ++ numbersText [0, position, token]

theorem sscanf_accept (ns : List ℕ) (format : List Directive) :
    sscanf format (bytes "DCC ACCEPT file.ext" ++ numbersText ns) =
      scan format (bytes "DCC ACCEPT file.ext" ++ numbersText ns) := by
  have hnul : nul ∉ bytes "DCC ACCEPT file.ext" ++ numbersText ns := by
    rw [List.mem_append, not_or]
    exact ⟨by decide, nul_not_mem_numbersText ns⟩
  rw [sscanf, cstr_of_no_nul hnul]

theorem scan_send_of_accept (ds : List Directive) (s : Bytes) :
    scan (literal "DCC SEND " ++ ds) (bytes "DCC ACCEPT file.ext" ++ s) = [] := rfl

theorem scan_ssend_of_accept (ds : List Directive) (s : Bytes) :
    scan (literal "DCC SSEND " ++ ds) (bytes "DCC ACCEPT file.ext" ++ s) = [] := rfl

theorem dccRequestCall_of_no_offer {req : Bytes} (hreverse : reverseSendCall req = none)
    (hsend : sendCall sendFormat false req = none)
    (hquoted : sendCall quotedSendFormat false req = none)
    (hwithout : sendWithoutSizeCall req = none) (hssend : sendCall ssendFormat true req = none) :
    dccRequestCall true req =
      ([acceptReverseCall, acceptCall].findSome? fun pattern => pattern req).getD .unhandled := by
  simp only [dccRequestCall, if_true, dccPatterns, List.findSome?_cons, hreverse, hsend, hquoted,
    hwithout, hssend]

theorem dccRequestCall_accept (ns : List ℕ) :
    dccRequestCall true (bytes "DCC ACCEPT file.ext" ++ numbersText ns) =
      (([acceptReverseCall, acceptCall].findSome? fun pattern =>
        pattern (bytes "DCC ACCEPT file.ext" ++ numbersText ns))).getD .unhandled := by
  have hreverse : reverseSendCall (bytes "DCC ACCEPT file.ext" ++ numbersText ns) = none := by
    rw [reverseSendCall, reverseSendFormat, sscanf_accept, scan_send_of_accept]
  have hsend : sendCall sendFormat false (bytes "DCC ACCEPT file.ext" ++ numbersText ns) = none := by
    rw [sendCall, sendFormat, sscanf_accept, scan_send_of_accept]
  have hquoted : sendCall quotedSendFormat false
      (bytes "DCC ACCEPT file.ext" ++ numbersText ns) = none := by
    rw [sendCall, quotedSendFormat, sscanf_accept, scan_send_of_accept]
  have hwithout : sendWithoutSizeCall (bytes "DCC ACCEPT file.ext" ++ numbersText ns) = none := by
    rw [sendWithoutSizeCall, sendWithoutSizeFormat, sscanf_accept, scan_send_of_accept]
  have hssend : sendCall ssendFormat true (bytes "DCC ACCEPT file.ext" ++ numbersText ns) = none := by
    rw [sendCall, ssendFormat, sscanf_accept, scan_ssend_of_accept]
  exact dccRequestCall_of_no_offer hreverse hsend hquoted hwithout hssend

theorem scan_reverse_of_accept (port : ℕ) {position : ℕ} (hposition : position < 2 ^ 64) :
    scan acceptReverseFormat (acceptText port position) = [] ∨
      scan acceptReverseFormat (acceptText port position) = [.num position] := by
  have hhead : scan acceptReverseFormat (acceptText port position) =
      scan (.white :: .lit zero :: numbers [64, 64])
        (space :: (decimal port ++ numbersText [position])) := rfl
  rw [hhead, scan_white_space]
  rcases Nat.eq_zero_or_pos port with rfl | hpos
  · right
    have hnumbers := scan_numbers [(64, position)] (numbers [64]) []
      (by simp only [List.mem_cons, List.not_mem_nil, or_false, forall_eq]; omega)
      (fun c hc => absurd hc (by simp))
    have hzero : scan (.white :: .lit zero :: numbers [64, 64])
        (decimal 0 ++ numbersText [position]) =
          scan (numbers [64] ++ numbers [64]) (numbersText [position]) := rfl
    rw [hzero]
    simpa [numbers, scan, Directive.read, readDigits, skipSpace, optionalSign] using hnumbers
  · left
    obtain ⟨c, s, hdec, hc⟩ := decimal_cons_of_pos hpos
    have hdigit : isdigit c = true := decimal_isdigit (n := port) (by rw [hdec]; simp)
    rw [hdec, List.cons_append, scan_white_of_stops]
    · simp [scan, Directive.read, zero, hc]
    · intro d hd
      rw [← Option.some.inj hd]
      exact not_isspace_of_isdigit hdigit

theorem dccRequestCall_acceptText {port position : ℕ} (hport : port < 2 ^ 16)
    (hposition : position < 2 ^ 64) :
    dccRequestCall true (acceptText port position) = .acceptResume port position := by
  have hreverse : acceptReverseCall (acceptText port position) = none := by
    rw [acceptReverseCall, acceptText, sscanf_accept]
    rcases scan_reverse_of_accept port hposition with h | h
    · rw [acceptText] at h
      rw [h]
    · rw [acceptText] at h
      rw [h]
  have hnumbers := scan_numbers [(16, port), (64, position)] [] []
    (by simp only [List.mem_cons, List.not_mem_nil, or_false, forall_eq_or_imp, forall_eq]; omega)
    (fun c hc => absurd hc (by simp))
  have haccept : acceptCall (acceptText port position) = some (.acceptResume port position) := by
    have hhead : scan acceptFormat (bytes "DCC ACCEPT file.ext" ++ numbersText [port, position]) =
        scan (numbers [16, 64]) (numbersText [port, position]) := rfl
    have hscan : scan (numbers [16, 64]) (numbersText [port, position]) =
        [.num port, .num position] := by
      simpa [scan] using hnumbers
    rw [acceptCall, acceptText, sscanf_accept, hhead, hscan]
  have hchain := dccRequestCall_accept [port, position]
  rw [← acceptText, List.findSome?_cons, hreverse, List.findSome?_cons, haccept] at hchain
  exact hchain

theorem dccRequestCall_acceptReverseText {position token : ℕ} (hposition : position < 2 ^ 64)
    (htoken : token < 2 ^ 64) :
    dccRequestCall true (acceptReverseText position token) = .acceptResumeReverse position token := by
  have hnumbers := scan_numbers [(64, position), (64, token)] [] []
    (by simp only [List.mem_cons, List.not_mem_nil, or_false, forall_eq_or_imp, forall_eq]; omega)
    (fun c hc => absurd hc (by simp))
  have hreverse : acceptReverseCall (acceptReverseText position token) =
      some (.acceptResumeReverse position token) := by
    have hhead : scan acceptReverseFormat
        (bytes "DCC ACCEPT file.ext" ++ numbersText [0, position, token]) =
          scan (numbers [64, 64]) (numbersText [position, token]) := rfl
    have hscan : scan (numbers [64, 64]) (numbersText [position, token]) =
        [.num position, .num token] := by
      simpa [scan] using hnumbers
    rw [acceptReverseCall, acceptReverseText, sscanf_accept, hhead, hscan]
  have hchain := dccRequestCall_accept [0, position, token]
  rw [← acceptReverseText, List.findSome?_cons, hreverse] at hchain
  exact hchain

end Xdccget.DccAccepts
