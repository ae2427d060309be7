import Xdccget.CText
import Xdccget.StepRuns

set_option autoImplicit false

/-!
# The trust prompts

`ask_for_yes_via_console_input` reads at most nine bytes of a line. What it leaves is what
the next prompt reads.
-/
namespace Xdccget.TrustPrompts
open CText StepRuns

/-- The bytes that `fgets` reads with room for `n` of them, and the input behind them. -/
def fgets : ℕ → Bytes → Bytes × Bytes
  | 0, s => ([], s)
  | _ + 1, [] => ([], [])
  | n + 1, c :: s =>
    if c = lf then ([c], s)
    else
      let rest := fgets n s
      (c :: rest.1, rest.2)

def linesOf : Bytes → List Bytes
  | [] => []
  | c :: s =>
    if c = lf then [c] :: linesOf s
    else
      match linesOf s with
      | [] => [[c]]
      | line :: lines => (c :: line) :: lines

/-- `sizeof(input) - 1` -/
def inputSize : ℕ := 9

def isYes (s : Bytes) : Bool := s.map tolower = bytes "y" || s.map tolower = bytes "yes"

def answer (input : Bytes) : Bytes := cstr (input.takeWhile (· ≠ lf))

def SaysYes (line : Bytes) : Prop := isYes (line.takeWhile (· ≠ lf)) = true

/-- `X509_V_ERR_DEPTH_ZERO_SELF_SIGNED_CERT`, `X509_V_ERR_SELF_SIGNED_CERT_IN_CHAIN` -/
def depthZeroSelfSignedCert : ℤ := 18
def selfSignedCertInChain : ℤ := 19

/-- A call of the callback, with what it finds in the context. `checkCa` is the result of
`X509_check_ca` for the current certificate. -/
structure Call (Cert : Type) where
  verifyResult : ℤ
  currentCert : Option Cert
  chain : Option (List Cert)
  errorCode : ℤ
  checkCa : ℤ

/-- The input that is left, the line that each prompt to come stands for, whether a line so far
was longer than what its prompt reads, and the certificates added to the folder. -/
structure Console (Cert : Type) where
  stdin : Bytes
  own : List Bytes
  cut : Bool
  added : List Cert

section callback
variable {Cert : Type}

def Console.start (stdin : Bytes) : Console Cert := ⟨stdin, linesOf stdin, false, []⟩

/-- `ask_for_yes_via_console_input` -/
def askForYesViaConsoleInput (s : Console Cert) : Bool × Console Cert :=
  let input := fgets inputSize s.stdin
  let asked :=
    { s with
      stdin := input.2
      own := s.own.tail
      cut := s.cut || s.own.head?.any fun line => inputSize < line.length }
  if input.1 = [] then (false, asked) else (isYes (answer input.1), asked)

/-- `get_ca_cert_of_chain` -/
def getCaCertOfChain (chain : Option (List Cert)) : Option Cert :=
  match chain with
  | none => none
  | some chain => if 1 < chain.length then chain.getLast? else none

/-- `add_x509_cert_to_local_ca_folder` -/
def addX509CertToLocalCaFolder (s : Console Cert) (cert : Cert) : Console Cert :=
  { s with added := s.added ++ [cert] }

def askToAdd (s : Console Cert) (cert : Cert) (verifyResult : ℤ) : ℤ × Console Cert :=
  let asked := askForYesViaConsoleInput s
  if asked.1 then (1, addX509CertToLocalCaFolder asked.2 cert) else (verifyResult, asked.2)

def opensslCheckCertificateCallback (allowAllCerts : Bool) (s : Console Cert) (c : Call Cert) :
    ℤ × Console Cert :=
  match c.currentCert with
  | none => (0, s)
  | some cert =>
    if allowAllCerts then (1, s)
    else if c.verifyResult = 0 then
      if c.errorCode = selfSignedCertInChain ∨ c.errorCode = depthZeroSelfSignedCert then
        askToAdd s cert c.verifyResult
      else
        match getCaCertOfChain c.chain with
        | some caCert =>
          if c.checkCa ≠ 0 then askToAdd s caCert c.verifyResult
          else
            let asked := askForYesViaConsoleInput s
            (if asked.1 then 1 else c.verifyResult, asked.2)
        | none =>
          let asked := askForYesViaConsoleInput s
          (if asked.1 then 1 else c.verifyResult, asked.2)
    else (c.verifyResult, s)

def Prompts (allowAllCerts : Bool) (c : Call Cert) : Prop :=
  c.currentCert ≠ none ∧ allowAllCerts = false ∧ c.verifyResult = 0

def OwnLineSaysYes (allowAllCerts : Bool) (s : Console Cert) (c : Call Cert) : Prop :=
  Prompts allowAllCerts c ∧ ∃ line, s.own.head? = some line ∧ SaysYes line

structure TrustRight (allowAllCerts : Bool) (s : Console Cert) (c : Call Cert) : Prop where
  returned : (opensslCheckCertificateCallback allowAllCerts s c).1 ≠ 0 →
    c.verifyResult ≠ 0 ∨ allowAllCerts = true ∨ OwnLineSaysYes allowAllCerts s c
  added : (opensslCheckCertificateCallback allowAllCerts s c).2.added ≠ s.added →
    OwnLineSaysYes allowAllCerts s c

/-- A prompt finds its own line, and no NUL in it. -/
def FindsOwnLine (allowAllCerts : Bool) (s : Console Cert) (c : Call Cert) : Prop :=
  Prompts allowAllCerts c → s.cut = false ∧ ∀ line ∈ s.own.head?, nul ∉ line

def step (allowAllCerts : Bool) (s : Console Cert) (c : Call Cert) : Console Cert :=
  (opensslCheckCertificateCallback allowAllCerts s c).2

end callback

theorem fgets_first (n : ℕ) (s : Bytes) : (fgets n s).1 = ((linesOf s).headD []).take n := by
  induction n generalizing s with
  | zero => rw [fgets, List.take_zero]
  | succ n ih =>
    cases s with
    | nil => rfl
    | cons c s =>
      rw [fgets, linesOf]
      by_cases hc : c = lf
      · rw [if_pos hc, if_pos hc]
        simp
      · rw [if_neg hc, if_neg hc]
        dsimp only
        rw [ih s]
        cases linesOf s <;> simp

theorem fgets_rest (n : ℕ) (s : Bytes) (h : ((linesOf s).headD []).length ≤ n) :
    linesOf (fgets n s).2 = (linesOf s).tail := by
  induction n generalizing s with
  | zero =>
    cases s with
    | nil => rfl
    | cons c s =>
      exfalso
      rw [linesOf] at h
      split at h
      · simp at h
      · revert h
        cases linesOf s <;> simp
  | succ n ih =>
    cases s with
    | nil => rfl
    | cons c s =>
      rw [fgets, linesOf]
      rw [linesOf] at h
      by_cases hc : c = lf
      · rw [if_pos hc, if_pos hc]
        rfl
      · rw [if_neg hc] at h
        rw [if_neg hc, if_neg hc]
        dsimp only
        cases hs : linesOf s with
        | nil =>
          have hrest := ih s (by rw [hs]; exact Nat.zero_le n)
          rw [hs] at hrest
          exact hrest
        | cons line lines =>
          rw [hs] at h
          have hline : line.length ≤ n := by
            change (c :: line).length ≤ n + 1 at h
            rw [List.length_cons] at h
            omega
          have hrest := ih s (by rw [hs]; exact hline)
          rw [hs] at hrest
          exact hrest

theorem length_of_isYes {s : Bytes} (h : isYes s = true) : s.length ≤ 3 := by
  unfold isYes at h
  rw [Bool.or_eq_true, decide_eq_true_eq, decide_eq_true_eq] at h
  have hlength : ∀ word : Bytes, s.map tolower = word → word.length ≤ 3 → s.length ≤ 3 := by
    rintro _ rfl hword
    rwa [List.length_map] at hword
  rcases h with h | h
  · exact hlength _ h (by decide)
  · exact hlength _ h (by decide)

theorem saysYes_of_answer {line : Bytes} (hnul : nul ∉ line)
    (h : isYes (answer (line.take inputSize)) = true) : SaysYes line := by
  have hcut : (line.take inputSize).takeWhile (· ≠ lf) =
      (line.takeWhile (· ≠ lf)).take inputSize := List.take_takeWhile.symm
  have hclean : nul ∉ (line.takeWhile (· ≠ lf)).take inputSize := fun hmem =>
    hnul ((List.takeWhile_sublist _).subset (List.mem_of_mem_take hmem))
  rw [answer, hcut, cstr_of_no_nul hclean] at h
  -- An answer of three bytes is not cut off.
  have hlength := length_of_isYes h
  rw [List.length_take] at hlength
  have hsize : inputSize = 9 := rfl
  rwa [List.take_of_length_le (by omega)] at h

section steps
variable {Cert : Type} {allowAllCerts : Bool} {s : Console Cert} {c : Call Cert}

theorem ask_yes (haligned : s.own = linesOf s.stdin) (hnul : ∀ line ∈ s.own.head?, nul ∉ line)
    (h : (askForYesViaConsoleInput s).1 = true) : ∃ line, s.own.head? = some line ∧ SaysYes line := by
  have hread := fgets_first inputSize s.stdin
  rw [← haligned] at hread
  unfold askForYesViaConsoleInput at h
  dsimp only at h
  split at h
  · cases h
  · next hne =>
    cases hown : s.own with
    | nil =>
      rw [hown] at hread
      exact absurd hread hne
    | cons line lines =>
      rw [hown] at hread hnul
      refine ⟨line, rfl, saysYes_of_answer (hnul line rfl) ?_⟩
      rwa [hread] at h

theorem ask_state (s : Console Cert) :
    (askForYesViaConsoleInput s).2 =
      { s with
        stdin := (fgets inputSize s.stdin).2
        own := s.own.tail
        cut := s.cut || s.own.head?.any fun line => inputSize < line.length } := by
  unfold askForYesViaConsoleInput
  dsimp only
  split <;> rfl

/-- As long as no line was cut, the prompts to come are answered by their lines. -/
def Aligned (s : Console Cert) : Prop := s.cut = false → s.own = linesOf s.stdin

theorem aligned_ask (h : Aligned s) : Aligned (askForYesViaConsoleInput s).2 := by
  rw [ask_state]
  intro hcut
  dsimp only at hcut ⊢
  rw [Bool.or_eq_false_iff] at hcut
  obtain ⟨hbefore, hfits⟩ := hcut
  have haligned := h hbefore
  have hshort : ((linesOf s.stdin).headD []).length ≤ inputSize := by
    rw [← haligned]
    cases hown : s.own with
    | nil => exact Nat.zero_le _
    | cons line lines =>
      rw [hown] at hfits
      simpa using hfits
  rw [fgets_rest inputSize s.stdin hshort, haligned]

/-- A call does nothing of its own, or asks once and goes by the answer. -/
inductive Outcome (allowAllCerts : Bool) (s : Console Cert) (c : Call Cert) :
    ℤ × Console Cert → Prop
  | silent (ret : ℤ) (hret : ret ≠ 0 → c.verifyResult ≠ 0 ∨ allowAllCerts = true) :
      Outcome allowAllCerts s c (ret, s)
  | asked (ret : ℤ) (certs : List Cert) (hprompts : Prompts allowAllCerts c)
      (hno : (askForYesViaConsoleInput s).1 = false → ret = 0 ∧ certs = []) :
      Outcome allowAllCerts s c
        (ret, { (askForYesViaConsoleInput s).2 with
          added := (askForYesViaConsoleInput s).2.added ++ certs })

theorem askToAdd_outcome (hprompts : Prompts allowAllCerts c) (cert : Cert) :
    Outcome allowAllCerts s c (askToAdd s cert c.verifyResult) := by
  rw [askToAdd, hprompts.2.2]
  split
  · next hyes => exact .asked 1 [cert] hprompts fun hno => absurd (hyes.symm.trans hno) (by decide)
  · have h := Outcome.asked (s := s) 0 [] hprompts fun _ => ⟨rfl, rfl⟩
    rwa [List.append_nil] at h

theorem ask_outcome (hprompts : Prompts allowAllCerts c) :
    Outcome allowAllCerts s c (if (askForYesViaConsoleInput s).1 then 1 else c.verifyResult,
      (askForYesViaConsoleInput s).2) := by
  rw [hprompts.2.2]
  have h := Outcome.asked (s := s) (if (askForYesViaConsoleInput s).1 then 1 else 0) [] hprompts
    fun hno => ⟨by simp [hno], rfl⟩
  rwa [List.append_nil] at h

theorem callback_outcome (allowAllCerts : Bool) (s : Console Cert) (c : Call Cert) :
    Outcome allowAllCerts s c (opensslCheckCertificateCallback allowAllCerts s c) := by
  unfold opensslCheckCertificateCallback
  cases hcert : c.currentCert with
  | none => exact .silent 0 fun h => absurd rfl h
  | some cert =>
    cases allowAllCerts with
    | true => exact .silent 1 fun _ => .inr rfl
    | false =>
      dsimp only
      rw [if_neg Bool.false_ne_true]
      by_cases hverify : c.verifyResult = 0
      · have hprompts : Prompts false c := ⟨by rw [hcert]; exact Option.some_ne_none _, rfl, hverify⟩
        rw [if_pos hverify]
        split
        · exact askToAdd_outcome hprompts cert
        · cases getCaCertOfChain c.chain with
          | none => exact ask_outcome hprompts
          | some caCert =>
            dsimp only
            split
            · exact askToAdd_outcome hprompts caCert
            · exact ask_outcome hprompts
      · rw [if_neg hverify]
        exact .silent _ fun _ => .inl hverify

theorem aligned_step (h : Aligned s) (c : Call Cert) : Aligned (step allowAllCerts s c) := by
  have houtcome := callback_outcome allowAllCerts s c
  unfold step
  generalize opensslCheckCertificateCallback allowAllCerts s c = r at houtcome ⊢
  cases houtcome with
  | silent ret hret => exact h
  | asked ret certs hprompts hno => exact aligned_ask h

theorem trustRight_of_aligned (h : Aligned s) (hown : FindsOwnLine allowAllCerts s c) :
    TrustRight allowAllCerts s c := by
  have houtcome := callback_outcome allowAllCerts s c
  have hyes : Prompts allowAllCerts c → (askForYesViaConsoleInput s).1 = true →
      OwnLineSaysYes allowAllCerts s c := by
    intro hprompts hasked
    obtain ⟨hcut, hnul⟩ := hown hprompts
    exact ⟨hprompts, ask_yes (h hcut) hnul hasked⟩
  suffices hresult : ((opensslCheckCertificateCallback allowAllCerts s c).1 ≠ 0 →
      c.verifyResult ≠ 0 ∨ allowAllCerts = true ∨ OwnLineSaysYes allowAllCerts s c) ∧
      ((opensslCheckCertificateCallback allowAllCerts s c).2.added ≠ s.added →
        OwnLineSaysYes allowAllCerts s c) from ⟨hresult.1, hresult.2⟩
  generalize opensslCheckCertificateCallback allowAllCerts s c = r at houtcome ⊢
  cases houtcome with
  | silent ret hret =>
    refine ⟨fun hne => ?_, fun hne => absurd rfl hne⟩
    rcases hret hne with hverify | hallow
    · exact .inl hverify
    · exact .inr (.inl hallow)
  | asked ret certs hprompts hno =>
    cases hasked : (askForYesViaConsoleInput s).1 with
    | true => exact ⟨fun _ => .inr (.inr (hyes hprompts hasked)), fun _ => hyes hprompts hasked⟩
    | false =>
      obtain ⟨rfl, rfl⟩ := hno hasked
      refine ⟨fun hne => absurd rfl hne, fun hne => absurd ?_ hne⟩
      rw [ask_state]
      exact List.append_nil _

end steps

/-- In every run whose prompts find their own lines, every trust decision comes from the answer to
its prompt. -/
theorem trust_from_own_line {Cert : Type} (allowAllCerts : Bool) (stdin : Bytes)
    {calls : List (Call Cert)}
    (h : AllAlong (step allowAllCerts) (FindsOwnLine allowAllCerts) (.start stdin) calls) :
    AllAlong (step allowAllCerts) (TrustRight allowAllCerts) (.start stdin) calls := by
  have hstart : Aligned (Console.start stdin : Console Cert) := fun _ => rfl
  generalize (Console.start stdin : Console Cert) = s at h hstart
  induction calls generalizing s with
  | nil => trivial
  | cons c calls ih =>
    exact ⟨trustRight_of_aligned hstart h.1, ih _ h.2 (aligned_step hstart c)⟩

/-- The certificate signs itself, and nothing vouches for it. -/
def selfSigned : Call ℕ := ⟨0, some 0, none, depthZeroSelfSignedCert, 0⟩

/-- The tail of a long first line answers the second prompt, whose own line says no. -/
theorem rest_of_line_trusted : ¬ AllAlong (step false) (TrustRight false)
    (.start (bytes "nnnnnnnnnyes\nno\n")) [selfSigned, selfSigned] := by
  rintro ⟨-, hsecond, -⟩
  obtain ⟨-, line, hline, hyes⟩ := hsecond.added (by decide)
  obtain rfl : bytes "no\n" = line := by
    apply Option.some.inj
    rw [← hline]
    decide
  revert hyes
  unfold SaysYes
  decide

theorem trust_from_own_line_yes :
    AllAlong (step false) (TrustRight false) (.start (bytes "yes\n")) [selfSigned] :=
  trust_from_own_line false (bytes "yes\n") ⟨fun _ => ⟨rfl, by decide⟩, trivial⟩

end Xdccget.TrustPrompts
