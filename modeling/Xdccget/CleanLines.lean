import Xdccget.LineSteps
import Xdccget.StepRuns

set_option autoImplicit false

/-!
# What is left of a line

The result is clean between two lines as long as no handler puts one string in
another one's place: `free_parser_result` frees what the result still shows.
-/
namespace Xdccget.CleanLines
open CText IrcParser IrcParserCarry LineWords LineParser LineOwnership StepRuns Commands
  HandlerOutcomes LineSteps

/-- The line is a mode of the client itself, or a CTCP request that is no DCC request. -/
def LeakyLine (s : LineSession) (line : Bytes) : Prop :=
  Ends s line ∧ (OwnMode (entered s line) ∨ RewritingRequest (entered s line))

instance (s : LineSession) (line : Bytes) : Decidable (LeakyLine s line) := by
  unfold LeakyLine
  infer_instance

section ledger
variable {st : LineState}

theorem Ledger.foldl {n : ℕ} (h : Ledger st) (hopen : Open n st) {calls : List Call}
    (ho : InOrder n calls) : Ledger (calls.foldl onCall st) := by
  induction calls generalizing st n with
  | nil => exact h
  | cons call calls ih =>
    obtain ⟨cb, text⟩ := call
    exact ih (h.onCall hopen ho.1 text) (hopen.onCall ho.1 text) ho.2

theorem Ledger.replied (h : Ledger st) (text : Bytes) : Ledger (replyToNotice text st) where
  owned := by
    let c : Str := ⟨st.allocated, cstr (ctcpBuf text pointerSize)⟩
    have hstrs : (replyToNotice text st).result.strs =
        st.result.nick.toList ++ (st.result.name.toList ++ (st.result.host.toList ++
          (st.result.command.toList ++ [c]))) := strs_eq _
    have howned := h.owned
    rw [strs_eq] at howned
    rw [hstrs]
    change (st.freed ++ (paramStrs st.result).map (·.id) ++ _).Perm (List.range (st.allocated + 1))
    rw [List.range_succ]
    rw [List.perm_iff_count] at howned ⊢
    intro id
    have hid := howned id
    have hc : c.id = st.allocated := rfl
    simp only [List.count_append, List.map_append, List.map_cons, List.map_nil, hc] at hid ⊢
    omega
  behind := by
    intro i hi
    change 1 ≤ i at hi
    change Function.update (freeParams st).result.params 0 _ i = none
    rw [Function.update_of_ne (by omega)]
    change (if i < st.result.numParams then none else st.result.params i) = none
    split
    · rfl
    · next hbehind => exact h.behind i (by omega)

end ledger

theorem Outcome.ledger {s : LineSession} {l : LineState} (ho : Outcome s l) (h : Ledger s.line)
    (hleak : ¬ (OwnMode s ∨ RewritingRequest s)) : Ledger l := by
  cases ho with
  | kept => exact h
  | replied text _ => exact Ledger.replied h text
  | moved hmode => exact absurd (Or.inl hmode) hleak
  | action hrequest text => exact absurd (Or.inr hrequest) hleak
  | request hrequest text => exact absurd (Or.inr hrequest) hleak

def Ready (s : LineSession) : Prop :=
  s.halted = none → (∃ c, Holds c s.parser) ∧ Clean s.line

theorem ready_fresh (s : LineSession) : Ready (fresh s) := fun _ =>
  ⟨⟨.live 0, holds_init⟩, createLineParser_clean⟩

theorem ready_step {s : LineSession} {e : LineEnv × Bytes} (h : Ready s) (hblock : IsBlock e.2)
    (hleak : ¬ LeakyLine s e.2) : Ready (step s e) := by
  intro hnext
  by_cases hlive : s.halted = none
  · obtain ⟨⟨c, hholds⟩, hclean⟩ := h hlive
    obtain ⟨l, hline, hparser, hl⟩ := step_cases hholds hblock hlive hnext
    have hledger : Ledger (entered s e.2).line :=
      Ledger.foldl hclean.ledger hclean.isOpen (block_inOrder hholds hblock)
    have hfreed : Ledger l := by
      rcases hl with rfl | ⟨hends, hout⟩
      · exact hledger
      · exact Outcome.ledger hout hledger fun hor => hleak ⟨hends, hor⟩
    rw [hline, hparser]
    exact ⟨⟨_, entered_holds hholds hblock⟩, hfreed.free⟩
  · have hstuck : step s e = s := if_pos (Option.isSome_iff_ne_none.mpr hlive)
    rw [hstuck] at hnext
    exact absurd hnext hlive

/-- In a run whose lines are all harmless, nothing is left of any line: the result is empty, and
    every string was freed once. -/
theorem clean_between_lines (s : LineSession) {lines : List (LineEnv × Bytes)}
    (hblocks : ∀ e ∈ lines, IsBlock e.2)
    (hall : AllAlong step (fun t e => ¬ LeakyLine t e.2) (fresh s) lines)
    {done : List (LineEnv × Bytes)} (hdone : done <+: lines)
    (hlive : (run step (fresh s) done).halted = none) : Clean (run step (fresh s) done).line := by
  have hrun (events : List (LineEnv × Bytes)) : ∀ t, Ready t → (∀ e ∈ events, IsBlock e.2) →
      AllAlong step (fun t e => ¬ LeakyLine t e.2) t events → Ready (run step t events) := by
    induction events with
    | nil => exact fun t ht _ _ => ht
    | cons e events ih =>
      intro t ht hblock hmeets
      exact ih _ (ready_step ht (hblock e List.mem_cons_self) hmeets.1)
        (fun other hother => hblock other (List.mem_cons_of_mem e hother)) hmeets.2
  obtain ⟨rest, rfl⟩ := hdone
  have hfirst := (allAlong_append.mp hall).1
  exact (hrun done _ (ready_fresh s)
    (fun e he => hblocks e (List.mem_append_left rest he)) hfirst hlive).2

def pingLine : Bytes := bytes "PING x\x0d\x0a"

theorem clean_between_pings :
    Clean (run step (fresh (newSession none)) [(lineEnv, pingLine), (lineEnv, pingLine)]).line := by
  have hblocks : ∀ e ∈ [(lineEnv, pingLine), (lineEnv, pingLine)], IsBlock e.2 := by
    intro e he
    have hline : e.2 = pingLine := by
      rcases List.mem_pair.mp he with rfl | rfl <;> rfl
    rw [hline]
    decide +kernel
  have hall : AllAlong step (fun t e => ¬ LeakyLine t e.2) (fresh (newSession none))
      [(lineEnv, pingLine), (lineEnv, pingLine)] := ⟨by decide +kernel, by decide +kernel, trivial⟩
  exact clean_between_lines (newSession none) hblocks hall List.prefix_rfl (by decide +kernel)

def versionLine : Bytes := bytes ":a!b@c PRIVMSG me :\x01VERSION\x01\x0d\x0a"

/-- Two of seven strings are never freed, and the second slot keeps its pointer. -/
theorem version_request_leaks :
    IsBlock versionLine ∧ (step (fresh (newSession none)) (lineEnv, versionLine)).halted = none ∧
      (step (fresh (newSession none)) (lineEnv, versionLine)).line.allocated = 7 ∧
      (step (fresh (newSession none)) (lineEnv, versionLine)).line.freed = [0, 1, 2, 3, 6] ∧
      (step (fresh (newSession none)) (lineEnv, versionLine)).line.result.params 1 ≠ none := by
  decide +kernel

end Xdccget.CleanLines
