import Xdccget.LoopFrames
import Xdccget.TransferFrames

set_option autoImplicit false

/-!
# The texts that the transfers queue

What the programs of the transfers append to `outgoing_buf`: texts without a line end,
each of them with one behind it, if the nick and the file name that they are called with
have none.
-/
namespace Xdccget.QueuedTexts
open CText DccMessages ClientState DccSessions Downloads DccEvents HaltingPrograms TransferFrames
open Scanf (Directive Value optionalSign readDigits scan skipSpace sscanf)

def OneLine (text : Bytes) : Prop := cr ∉ text ∧ lf ∉ text

instance : DecidablePred OneLine := fun text => by unfold OneLine; infer_instance

section texts
variable {a b : Bytes}

theorem OneLine.of_subset (h : OneLine a) (hsub : ∀ c ∈ b, c ∈ a) : OneLine b :=
  ⟨fun hc => h.1 (hsub cr hc), fun hc => h.2 (hsub lf hc)⟩

@[simp] theorem oneLine_append : OneLine (a ++ b) ↔ OneLine a ∧ OneLine b := by
  unfold OneLine
  simp only [List.mem_append]
  tauto

theorem OneLine.take (h : OneLine a) (n : ℕ) : OneLine (a.take n) :=
  h.of_subset fun _ => List.mem_of_mem_take

theorem OneLine.drop (h : OneLine a) (n : ℕ) : OneLine (a.drop n) :=
  h.of_subset fun _ => List.mem_of_mem_drop

theorem OneLine.takeWhile (h : OneLine a) (p : UInt8 → Bool) : OneLine (a.takeWhile p) :=
  h.of_subset fun _ => (List.takeWhile_sublist p).mem

theorem OneLine.cstr (h : OneLine a) : OneLine (cstr a) := h.takeWhile _

theorem OneLine.snprintf (h : OneLine a) (size : ℕ) : OneLine (snprintf size a) := h.cstr.take _

theorem oneLine_decimal (n : ℕ) : OneLine (decimal n) :=
  ⟨fun h => absurd (decimal_isdigit h) (by decide), fun h => absurd (decimal_isdigit h) (by decide)⟩

/-- What `sscanf` stores is taken from its input. -/
theorem mem_of_read {d : Directive} {s rest word : Bytes} {values : List Value}
    (h : d.read s = some (values, rest)) :
    (∀ c ∈ rest, c ∈ s) ∧ (.text word ∈ values → ∀ c ∈ word, c ∈ s) := by
  have hskip : ∀ c ∈ skipSpace s, c ∈ s := fun c => (List.dropWhile_sublist isspace).mem
  cases d with
  | white =>
    obtain ⟨rfl, rfl⟩ := Prod.mk.inj (Option.some.inj h)
    exact ⟨hskip, by simp⟩
  | lit c =>
    cases s with
    | nil => cases h
    | cons a s =>
      rw [Directive.read] at h
      split at h
      · obtain ⟨rfl, rfl⟩ := Prod.mk.inj (Option.some.inj h)
        exact ⟨fun c => List.mem_cons_of_mem a, by simp⟩
      · cases h
  | str width =>
    simp only [Directive.read] at h
    split at h
    · cases h
    · obtain ⟨rfl, rfl⟩ := Prod.mk.inj (Option.some.inj h)
      refine ⟨fun c hc => hskip c (List.mem_of_mem_drop hc), fun hword c hc => hskip c ?_⟩
      rw [List.mem_singleton, Value.text.injEq] at hword
      rw [hword] at hc
      exact (List.takeWhile_sublist _).mem (List.mem_of_mem_take hc)
  | until_ stop width =>
    simp only [Directive.read] at h
    split at h
    · cases h
    · obtain ⟨rfl, rfl⟩ := Prod.mk.inj (Option.some.inj h)
      refine ⟨fun c hc => List.mem_of_mem_drop hc, fun hword c hc => ?_⟩
      rw [List.mem_singleton, Value.text.injEq] at hword
      rw [hword] at hc
      exact (List.takeWhile_sublist _).mem (List.mem_of_mem_take hc)
  | unsigned bits =>
    have hsign : ∀ t : Bytes, ∀ c ∈ (optionalSign t).2, c ∈ t := by
      intro t
      cases t with
      | nil => exact fun c hc => hc
      | cons a t =>
        have hrest : ∀ c ∈ t, c ∈ a :: t := fun c => List.mem_cons_of_mem a
        simp only [optionalSign]
        split
        · exact hrest
        · split
          · exact hrest
          · exact fun c hc => hc
    simp only [Directive.read, readDigits] at h
    split at h
    · cases h
    · obtain ⟨rfl, rfl⟩ := Prod.mk.inj (Option.some.inj h)
      refine ⟨fun c hc => hskip c (hsign _ c ?_), by simp⟩
      exact (List.dropWhile_sublist _).mem hc

theorem mem_of_scan {format : List Directive} {s word : Bytes} (h : .text word ∈ scan format s) :
    ∀ c ∈ word, c ∈ s := by
  induction format generalizing s with
  | nil => exact absurd h List.not_mem_nil
  | cons d format ih =>
    rw [scan] at h
    cases hread : d.read s with
    | none =>
      rw [hread] at h
      exact absurd h List.not_mem_nil
    | some r =>
      obtain ⟨values, rest⟩ := r
      rw [hread] at h
      obtain ⟨hrest, hword⟩ := @mem_of_read d s rest word values hread
      rcases List.mem_append.mp h with h | h
      · exact hword h
      · exact fun c hc => hrest c (ih h c hc)

theorem oneLine_filename {req filename : Bytes} (h : OneLine req) {verified : Bool}
    (hname : (dccRequestCall verified req).filename = some filename) : OneLine filename := by
  cases verified with
  | false => cases hname
  | true =>
    have hne : dccRequestCall true req ≠ .unhandled := by
      intro hcall
      rw [hcall] at hname
      cases hname
    obtain ⟨pattern, hmem, hpattern⟩ := exists_pattern_of_dccRequestCall rfl hne
    generalize dccRequestCall true req = call at hname hpattern
    have hfrom {format : List Directive} {f : Bytes} (hf : .text f ∈ sscanf format req)
        (hcall : call.filename = some f) : OneLine filename := by
      obtain rfl := Option.some.inj (hcall.symm.trans hname)
      exact h.cstr.of_subset (mem_of_scan hf)
    simp only [dccPatterns, List.mem_cons, List.not_mem_nil, or_false] at hmem
    rcases hmem with rfl | rfl | rfl | rfl | rfl | rfl | rfl
    · obtain ⟨f, ip, size, token, hscan, rfl⟩ := reverseSendCall_eq_some hpattern
      exact hfrom (by rw [hscan]; simp) rfl
    · obtain ⟨f, ip, port, size, hscan, rfl⟩ := sendCall_eq_some hpattern
      exact hfrom (by rw [hscan]; simp) rfl
    · obtain ⟨f, ip, port, size, hscan, rfl⟩ := sendCall_eq_some hpattern
      exact hfrom (by rw [hscan]; simp) rfl
    · obtain ⟨f, ip, port, hscan, rfl⟩ := sendWithoutSizeCall_eq_some hpattern
      exact hfrom (by rw [hscan]; simp) rfl
    · obtain ⟨f, ip, port, size, hscan, rfl⟩ := sendCall_eq_some hpattern
      exact hfrom (by rw [hscan]; simp) rfl
    · obtain ⟨size, token, rfl⟩ := acceptReverseCall_eq_some hpattern
      cases hname
    · obtain ⟨port, size, rfl⟩ := acceptCall_eq_some hpattern
      cases hname

theorem oneLine_dccResumeText (port position : ℕ) : OneLine (dccResumeText port position) := by
  unfold dccResumeText
  refine OneLine.snprintf ?_ 512
  simp only [oneLine_append, oneLine_decimal, and_true]
  decide

theorem oneLine_dccResumeReverseText (position token : ℕ) :
    OneLine (dccResumeReverseText position token) := by
  unfold dccResumeReverseText
  refine OneLine.snprintf ?_ 512
  simp only [oneLine_append, oneLine_decimal, and_true]
  decide

theorem oneLine_dccSendReverseText {filename : Bytes} (h : OneLine filename) (ip port size token : ℕ) :
    OneLine (dccSendReverseText filename ip port size token) := by
  have hname : OneLine (if filename.contains space then quote :: (filename ++ [quote]) else filename) := by
    split
    · have hquote : OneLine [quote] := by decide
      have hcons : quote :: (filename ++ [quote]) = [quote] ++ (filename ++ [quote]) := rfl
      rw [hcons]
      simp only [oneLine_append]
      exact ⟨hquote, h, hquote⟩
    · exact h
  unfold dccSendReverseText
  refine OneLine.snprintf ?_ 4096
  simp only [oneLine_append, oneLine_decimal, and_true]
  exact ⟨⟨⟨⟨⟨by decide, hname⟩, by decide⟩, by decide⟩, by decide⟩, by decide⟩

end texts

def queuedText : Action → Option Bytes
  | .queued text => some text
  | _ => none

/-- The texts of the calls of `irc_send_raw` that returned 0, in order. -/
def queuedTexts (trace : List Action) : List Bytes := trace.filterMap queuedText

def queuedSince (s t : Client) : List Bytes := (queuedTexts t.trace).drop (queuedTexts s.trace).length

def queuedBy (s t : ClientLoop.Loop) : List Bytes := queuedSince s.session.client t.session.client

def onWire (texts : List Bytes) : Bytes := texts.flatMap (· ++ [cr, lf])

/-- The buffer has got the texts that were queued, each with a CRLF, and none has a line end. -/
structure Queues (s t : Client) : Prop where
  state : t.net.state = s.net.state
  texts : ∃ l, t.trace = s.trace ++ l ∧
    t.net.outgoing = s.net.outgoing ++ onWire (queuedTexts l) ∧ ∀ text ∈ queuedTexts l, OneLine text

theorem queues_frame : Frame Queues where
  refl s := ⟨rfl, [], (List.append_nil _).symm, (List.append_nil _).symm, by simp [queuedTexts]⟩
  trans s t u h h' := by
    obtain ⟨l, htrace, hout, hl⟩ := h.texts
    obtain ⟨l', htrace', hout', hl'⟩ := h'.texts
    refine ⟨h'.state.trans h.state, l ++ l', by rw [htrace', htrace, List.append_assoc], ?_, ?_⟩
    · rw [hout', hout, queuedTexts, queuedTexts, queuedTexts, List.filterMap_append, onWire, onWire,
        onWire, List.flatMap_append, List.append_assoc]
    · intro text htext
      rw [queuedTexts, List.filterMap_append] at htext
      rcases List.mem_append.mp htext with htext | htext
      · exact hl text htext
      · exact hl' text htext

section programs
variable {nick : Option Bytes}

theorem queues_of_eq {s t : Client} (hstate : t.net.state = s.net.state)
    (hout : t.net.outgoing = s.net.outgoing) (htrace : t.trace = s.trace) : Queues s t := by
  refine ⟨hstate, [], ?_, ?_, by simp [queuedTexts]⟩
  · rw [List.append_nil]
    exact htrace
  · exact hout.trans (List.append_nil _).symm

theorem queues_record {a : Action} (h : queuedText a = none) : Moves Queues (record a) := by
  intro s
  have hnone : queuedTexts [a] = [] := by simp [queuedTexts, h]
  exact ⟨rfl, [a], rfl, by rw [hnone]; exact (List.append_nil _).symm, by simp [hnone]⟩

theorem queues_ircSendRaw {text : Bytes} (h : OneLine text) : Moves Queues (ircSendRaw text) := by
  intro s
  rw [endState_of_ok (LoopFrames.ircSendRaw_eq text s)]
  refine ⟨LoopFrames.afterSend_state s.net text, LoopFrames.sendActions s.net text, rfl, ?_, ?_⟩
  · unfold LoopFrames.sentClient LoopFrames.afterSend LoopFrames.sendActions
    split
    · simp [queuedTexts, queuedText, onWire]
    · simp [queuedTexts, onWire]
  · unfold LoopFrames.sendActions
    split
    · simpa [queuedTexts, queuedText] using h.snprintf 1024
    · simp [queuedTexts]

theorem queues_ircCmdCtcpRequest (hnick : ∀ n ∈ nick, OneLine n) {reply : Bytes} (h : OneLine reply) :
    Moves Queues (ircCmdCtcpRequest nick reply) := by
  cases nick with
  | none =>
    refine queues_frame.bind ?_ fun _ => queues_frame.pure _
    exact moves_modify fun _ => queues_of_eq rfl rfl rfl
  | some n =>
    refine queues_ircSendRaw ?_
    simp only [oneLine_append]
    exact ⟨⟨⟨⟨⟨by decide, (hnick n rfl).cstr⟩, by decide⟩, by decide⟩, h.cstr⟩, by decide⟩

theorem queues_bears : Bears Queues where
  frame := queues_frame
  aside s t hstate hout _ htrace := queues_of_eq hstate hout htrace
  elsewhere s t hstate hout htrace := queues_of_eq hstate hout htrace
  recorded a ha _ := queues_record (by cases a <;> simp_all [queuedText])
  quit := queues_ircSendRaw (by decide)

theorem queues_carries (hnick : ∀ n ∈ nick, OneLine n) : Carries Queues nick OneLine where
  toBears := queues_bears
  named := by decide
  resume port position := queues_ircCmdCtcpRequest hnick (oneLine_dccResumeText port position)
  resumeReverse position token :=
    queues_ircCmdCtcpRequest hnick (oneLine_dccResumeReverseText position token)
  sendReverse _ ip port size token hname :=
    queues_ircCmdCtcpRequest hnick (oneLine_dccSendReverseText hname ip port size token)

def CleanEvent : Event → Prop
  | .request _ nick req => (∀ n ∈ nick, OneLine n) ∧ OneLine req
  | _ => True

theorem queues_step {e : Event} (h : CleanEvent e) (s : Client) : Queues s (step s e) := by
  by_cases hrequest : ∀ env from_ req, e ≠ .request env from_ req
  · have hcarries : Carries Queues none OneLine := queues_carries (by simp)
    exact hcarries.step (fun _ _ _ => queues_record rfl) hrequest s
  · simp only [not_forall, not_not] at hrequest
    obtain ⟨env, from_, req, rfl⟩ := hrequest
    exact queues_bears.step_request env from_ req (fun _ => oneLine_filename h.2) fun _ =>
      queues_carries h.1

end programs

end Xdccget.QueuedTexts
