import Xdccget.LoopLines
import Xdccget.QuitTiming

set_option autoImplicit false

/-!
# Which file a checksum is verified against

`lastDownload` is set where a download ends, but from `curDownload`, which is set
where one is offered. The two name the same download only while no other one has
been offered in between.
-/
namespace Xdccget.ChecksumPaths
open CText DccMessages ClientState HaltingPrograms ProgramRelations StepRuns ClientLoop SessionSpecs
  DownloadSpecs TableChanges QuitTiming LoopFrames LoopLines
open Commands (LineEnv setLine)
open SessionCallbacks (Sound)

section clients
variable {s s' : Client}

/-- `lastDownload` names the download that has ended last, and each checksum is verified against
    the file of a download that had been completely received. -/
structure ChecksCompleted (s : Client) : Prop where
  last : s.lastDownload = (finished s.trace).getLast?
  paths : ∀ before md5 path after, s.trace = before ++ .startChecksum md5 path :: after →
    ∃ k ∈ finished before, ∃ p, pathAt s.downloadContext k = some p ∧ path = some p

structure Plain (a : Action) : Prop where
  unfinished : finishedContext a = none
  unchecked : ∀ md5 path, a ≠ .startChecksum md5 path

theorem plain_of_sessionAction {a : Action} (h : SessionAction a) : Plain a where
  unfinished := finishedContext_of_sessionAction h
  unchecked := by
    rintro md5 path rfl
    exact h

structure Unfinished (s s' : Client) : Prop where
  last : s'.lastDownload = s.lastDownload
  trace : ∃ l, s'.trace = s.trace ++ l ∧ ∀ a ∈ l, Plain a
  path : ∀ k p, pathAt s.downloadContext k = some p → pathAt s'.downloadContext k = some p

theorem unfinished_frame : Frame Unfinished where
  refl s := ⟨rfl, ⟨[], (List.append_nil _).symm, by simp⟩, fun _ _ h => h⟩
  trans s t u h h' := by
    obtain ⟨l, hl, hplain⟩ := h.trace
    obtain ⟨l', hl', hplain'⟩ := h'.trace
    refine ⟨h'.last.trans h.last, ⟨l ++ l', by rw [hl', hl, List.append_assoc], ?_⟩,
      fun k p hp => h'.path k p (h.path k p hp)⟩
    intro a ha
    rcases List.mem_append.mp ha with ha | ha
    · exact hplain a ha
    · exact hplain' a ha

theorem Unfinished.finished_eq (h : Unfinished s s') : finished s'.trace = finished s.trace := by
  obtain ⟨l, hl, hplain⟩ := h.trace
  rw [hl, finished_append_nil fun a ha => (hplain a ha).unfinished]

theorem unfinished_of_path {l : List Action} (hlast : s'.lastDownload = s.lastDownload)
    (htrace : s'.trace = s.trace ++ l) (hl : ∀ a ∈ l, Plain a)
    (hpath : ∀ k, pathAt s'.downloadContext k = pathAt s.downloadContext k) : Unfinished s s' :=
  ⟨hlast, ⟨l, htrace, hl⟩, fun k _ h => (hpath k).trans h⟩

/-- A change that ends no download; `curDownload` is left alone, too. -/
theorem unfinished_of_change (h : Change false s s') :
    Unfinished s s' ∧ s'.curDownload = s.curDownload := by
  cases h with
  | sessions net lastId ds hl =>
    exact ⟨unfinished_of_path rfl rfl (fun a ha => plain_of_sessionAction (hl a ha)) fun _ => rfl, rfl⟩
  | chunk data hc hfd =>
    refine ⟨unfinished_of_path rfl rfl ?_ (pathAt_modify (by exact fun _ => rfl) _ _), rfl⟩
    simpa using (⟨rfl, by simp⟩ : Plain _)
  | lost length hc hfd =>
    refine ⟨unfinished_of_path rfl rfl ?_ (pathAt_modify (by exact fun _ => rfl) _ _), rfl⟩
    simpa using (⟨rfl, by simp⟩ : Plain _)
  | complete hb net hc hfd hsize hl => exact absurd hb (by simp)
  | rewind length hc hfd =>
    exact ⟨unfinished_of_path rfl (List.append_nil _).symm (by simp)
      (pathAt_modify (by exact fun _ => rfl) _ _), rfl⟩
  | output =>
    exact ⟨unfinished_of_path rfl (List.append_nil _).symm (by simp) (pathAt_output _), rfl⟩
  | halt fault =>
    exact ⟨unfinished_of_path rfl (List.append_nil _).symm (by simp) fun _ => rfl, rfl⟩

theorem unfinished_of_changes (h : Changes false s s') :
    Unfinished s s' ∧ s'.curDownload = s.curDownload := by
  induction h with
  | refl => exact ⟨unfinished_frame.refl s, rfl⟩
  | tail _ hc ih =>
    obtain ⟨hstep, hcur⟩ := unfinished_of_change hc
    exact ⟨unfinished_frame.trans _ _ _ ih.1 hstep, hcur.trans ih.2⟩

theorem unfinished_of_start (s : Client) (progress : DccDownloadProgress) (fd : Option FileIo)
    (files : Bytes → Option Bytes) : Unfinished s (withDownload s progress fd files) where
  last := rfl
  trace := by
    refine ⟨_, rfl, ?_⟩
    simpa using (⟨rfl, by simp⟩ : Plain _)
  path := by
    intro k p hp
    have hlt : k < s.downloadContext.length := by
      by_contra hge
      rw [pathAt, List.getElem?_eq_none (by omega)] at hp
      cases hp
    rw [pathAt, withDownload_downloadContext, List.getElem?_append_left hlt]
    exact hp

structure Recorded (s : Client) : Prop where
  checks : ChecksCompleted s
  stored : ∀ k ∈ finished s.trace, ∃ p, pathAt s.downloadContext k = some p

theorem Recorded.keep (h : Recorded s) (hs' : Unfinished s s') : Recorded s' where
  checks :=
    { last := by rw [hs'.last, hs'.finished_eq, h.checks.last]
      paths := by
        intro before md5 path after htrace
        obtain ⟨l, hl, hplain⟩ := hs'.trace
        have hnot : .startChecksum md5 path ∉ l := fun hmem => (hplain _ hmem).unchecked md5 path rfl
        obtain ⟨after', htrace'⟩ := exists_split_of_not_mem (hl.symm.trans htrace) hnot
        obtain ⟨k, hk, p, hp, hpath⟩ := h.checks.paths before md5 path after' htrace'
        exact ⟨k, hk, p, hs'.path k p hp, hpath⟩ }
  stored := by
    intro k hk
    rw [hs'.finished_eq] at hk
    obtain ⟨p, hp⟩ := h.stored k hk
    exact ⟨p, hs'.path k p hp⟩

/-- A checksum is started for the download that `lastDownload` names. -/
theorem Recorded.check (h : Recorded s) {context : ℕ} (hlast : s.lastDownload = some context)
    (md5 : Bytes) : Recorded
      { s with trace := s.trace ++ [.startChecksum md5 (pathAt s.downloadContext context)] } := by
  have hfinished : finished (s.trace ++ [.startChecksum md5 (pathAt s.downloadContext context)]) =
      finished s.trace := finished_append_nil (by simp [finishedContext])
  have hmem : context ∈ finished s.trace :=
    List.mem_of_getLast? (h.checks.last.symm.trans hlast)
  obtain ⟨p, hp⟩ := h.stored context hmem
  refine ⟨⟨h.checks.last.trans (congrArg _ hfinished.symm), ?_⟩, fun k hk => h.stored k (hfinished ▸ hk)⟩
  intro before md5' path after htrace
  rcases split_concat htrace with ⟨rfl, haction⟩ | ⟨after', htrace'⟩
  · obtain ⟨-, rfl⟩ := Action.startChecksum.inj haction
    exact ⟨context, hmem, p, hp, hp⟩
  · exact h.checks.paths before md5' path after' htrace'

theorem Recorded.complete (h : Recorded s) {context : ℕ} (hcur : s.curDownload = some context)
    {p : Bytes} (hp : pathAt s.downloadContext context = some p) (net : Net) {l : List Action}
    (hl : CompletionActions s l) : Recorded (completed s net context l) := by
  let t := completed s net context []
  have hpath : ∀ k, pathAt t.downloadContext k = pathAt s.downloadContext k :=
    pathAt_modify completePath_closed s.downloadContext context
  have hfinished : finished t.trace = finished s.trace ++ [context] :=
    finished_append_finish context (by simp)
  have ht : Recorded t := by
    refine ⟨⟨?_, ?_⟩, ?_⟩
    · rw [hfinished, List.getLast?_concat]
      exact hcur
    · intro before md5 path after htrace
      rcases split_concat htrace with ⟨-, haction⟩ | ⟨after', htrace'⟩
      · cases haction
      · obtain ⟨k, hk, q, hq, hqpath⟩ := h.checks.paths before md5 path after' htrace'
        exact ⟨k, hk, q, (hpath k).trans hq, hqpath⟩
    · intro k hk
      rw [hfinished] at hk
      rcases List.mem_append.mp hk with hk | hk
      · obtain ⟨q, hq⟩ := h.stored k hk
        exact ⟨q, (hpath k).trans hq⟩
      · rw [List.mem_singleton.mp hk]
        exact ⟨p, (hpath context).trans hp⟩
  cases hl with
  | nothing => exact ht
  | quit hverify hcount =>
    refine ht.keep (unfinished_of_path rfl (l := [.queued quitLine]) ?_ ?_ fun _ => rfl)
    · simp [t, completed]
    · simpa using (⟨rfl, by simp⟩ : Plain _)
  | checksum md5 path hverify hpathEq =>
    have hlast : t.lastDownload = some context := hcur
    have hcheck := ht.check hlast md5
    rw [hcur] at hpathEq
    have hsame : path = pathAt t.downloadContext context := by
      rw [hpathEq, hpath context]
      rfl
    rw [← hsame] at hcheck
    simpa [t, completed] using hcheck

end clients

inductive Turn : Client → Client → Prop
  | handled {s t : Client} (h : ClientTurn s t) : Turn s t
  | stepped (s : Client) {e : DccEvents.Event} (h : ∀ id ready, e ≠ .socket id ready) :
      Turn s (DccEvents.step s e)
  | connection (s : Client) (net : Net) : Turn s (withNet s net)

def Turns (s t : Loop) : Prop := Relation.ReflTransGen Turn s.session.client t.session.client

theorem turns_frame : Frame Turns where
  refl _ := .refl
  trans _ _ _ h h' := h.trans h'

section turns
variable {s : Loop} {e : LoopEvent}

theorem turns_of_client {s t : Loop} (h : ClientTurns s.session.client t.session.client) : Turns s t :=
  Relation.ReflTransGen.mono (fun _ _ => Turn.handled) _ _ h

theorem turns_aside {α : Type} {x : LoopM α} (h : Moves Aside x) : Moves Turns x :=
  h.mono fun _ _ h => turns_of_client h.steady.client

theorem turns_onEvent {event : DccEvents.Event} (h : ∀ id ready, event ≠ .socket id ready) :
    Moves Turns (onEvent event) := by
  intro s
  rw [endState_onEvent]
  exact .single (.stepped s.session.client h)

theorem turns_setState (state : LibircState) (err : ℕ) : Moves Turns (onSession (setState state err)) :=
  fun s => .single (.connection s.session.client _)

theorem turns_handleConnectingState (peer : Bool) (format : Format) :
    Moves Turns (handleConnectingState peer format) :=
  turns_frame.get_bind fun _ => moves_ite
    (turns_frame.bind (turns_setState _ _) fun _ =>
      turns_frame.forM (fun buf => turns_aside (aside_send (format.render buf))) _)
    (turns_setState _ _)

theorem turns_printOutputCallback (flag : Bool) : Moves Turns (printOutputCallback flag) := by
  have hask : Moves Turns sendXdccRequests :=
    asking_sendXdccRequests.mono fun _ _ h => turns_of_client h.steady.client
  have hevent : Moves Turns (if flag then onEvent .outputTimer else pure ⟨⟩ : LoopM Unit) :=
    moves_ite (turns_onEvent (by simp)) (turns_frame.pure _)
  exact turns_frame.get_bind fun _ => moves_ite (turns_frame.bind hask fun _ => hevent) hevent

theorem turns_runCalls (env : LineEnv) (calls : List LineWords.Call) :
    Moves Turns (runCalls env calls) := by
  induction calls with
  | nil => exact turns_frame.pure _
  | cons call calls ih =>
    obtain ⟨cb, text⟩ := call
    have hhandle : Moves Turns (handleParserResult env) :=
      (steady_handleParserResult env).mono fun _ _ h => turns_of_client h.client
    cases cb with
    | onEnd => exact turns_frame.bind hhandle fun _ => ih
    | _ =>
      refine turns_frame.bind ?_ fun _ => ih
      exact turns_aside (aside_setLine fun st => LineParser.onCall st _)

theorem turns_process (env : LineEnv) (line : Bytes) :
    Moves Turns (libircProcessIncomingData env line) := by
  refine turns_frame.get_bind fun s => ?_
  refine turns_frame.bind (fun _ => .refl) fun _ => ?_
  exact turns_frame.bind (turns_runCalls env _) fun _ => turns_aside (aside_setLine _)

theorem turns_handle (h : ∀ id ready, e ≠ .socket id ready) : Moves Turns (handle e) := by
  cases e with
  | clock now => exact moves_modify fun s => .refl
  | keepAlive flag => exact turns_printOutputCallback flag
  | connecting peer format => exact turns_handleConnectingState peer format
  | line answers block => exact turns_process answers.env block.line
  | writable length => exact moves_modify fun s => .single (.connection s.session.client _)
  | socket dccid ready => exact absurd rfl (h dccid ready)
  | addDescriptors => exact turns_onEvent (by simp)
  | closed => exact turns_setState _ _
  | interrupt => exact turns_aside (aside_send _)

theorem step_turns (h : ∀ id ready, e ≠ .socket id ready) (s : Loop) : Turns s (step s e) :=
  step_of_moves turns_frame.refl (fun _ _ _ h => h) (turns_handle h) s

theorem step_socket (id : ℕ) (ready : DccEvents.SocketReady) (hlive : idle s (.socket id ready) = false) :
    (step s (.socket id ready)).session.client =
      DccEvents.step s.session.client (.socket id ready) := by
  have hstep := step_endState hlive
  have hend : endState (handle (.socket id ready)) s = eventLoop s (.socket id ready) :=
    endState_onEvent _ s
  rw [hend] at hstep
  generalize step s (.socket id ready) = t at hstep ⊢
  cases hstep <;> rfl

end turns

section runs
variable {c c' : Client} {s : Loop}

theorem sound_of_turn (h : c.halted = none → Sound c) (hturn : Turn c c') :
    c'.halted = none → Sound c' := by
  cases hturn with
  | handled hturn =>
    cases hturn with
    | sent text =>
      intro hlive
      refine (h hlive).keep rfl rfl rfl fun a ha => ?_
      unfold sendActions at ha
      split at ha
      · rw [List.mem_singleton.mp ha]
        trivial
      · exact absurd ha List.not_mem_nil
    | keptSum md5 => exact fun hlive => (h hlive).keep rfl rfl (List.append_nil _).symm (by simp)
    | startedChecksum hlast md5 =>
      exact fun hlive => (h hlive).keep rfl rfl rfl (by simp [SessionCallbacks.Neutral])
    | request env nick req => exact CallbackSteps.sound_step _ h
  | stepped e => exact CallbackSteps.sound_step _ h
  | connection net => exact fun hlive => (h hlive).changeNet net

theorem recorded_of_event (h : Recorded c) (hsound : c.halted = none → Sound c)
    {e : DccEvents.Event} (hno : ¬ Completes c e) : Recorded (DccEvents.step c e) := by
  by_cases hstarts : StartsDownload c e
  · obtain ⟨t, progress, fd, files, ht, hc'⟩ := step_starts (b := false) hstarts
    have hstart := (h.keep (unfinished_of_changes ht).1).keep (unfinished_of_start t progress fd files)
    exact hstart.keep (unfinished_of_changes hc').1
  · rcases QuitTiming.step_cases hstarts hsound with ⟨-, hc⟩ | ⟨hcompletes, -⟩
    · exact h.keep (unfinished_of_changes hc).1
    · exact absurd hcompletes hno

theorem recorded_of_turn (h : Recorded c) (hsound : c.halted = none → Sound c) (hturn : Turn c c') :
    Recorded c' := by
  cases hturn with
  | handled hturn =>
    cases hturn with
    | sent text =>
      refine h.keep (unfinished_of_path rfl rfl (fun a ha => ?_) fun _ => rfl)
      unfold sendActions at ha
      split at ha
      · rw [List.mem_singleton.mp ha]
        exact ⟨rfl, by simp⟩
      · exact absurd ha List.not_mem_nil
    | keptSum md5 =>
      exact h.keep (unfinished_of_path rfl (List.append_nil _).symm (by simp) fun _ => rfl)
    | startedChecksum hlast md5 => exact h.check hlast md5
    | request env nick req => exact recorded_of_event h hsound fun hcompletes => hcompletes
  | @stepped e hno =>
    refine recorded_of_event h hsound fun hcompletes => ?_
    cases e with
    | socket id ready => exact hno id ready rfl
    | _ => exact hcompletes
  | connection net =>
    exact h.keep (unfinished_of_path rfl (List.append_nil _).symm (by simp) fun _ => rfl)

theorem exists_path_of_completes {e : DccEvents.Event} (h : Completes c e) :
    ∃ k p, eventContext c e = some k ∧ pathAt c.downloadContext k = some p := by
  cases e with
  | socket id ready =>
    cases ready with
    | receiving results =>
      obtain ⟨-, d, hd, -, -, k, context, fd, hctx, hcontext, -⟩ := h
      refine ⟨k, context.progress.completePath, ?_, by rw [pathAt, hcontext]; rfl⟩
      rw [eventContext, hd]
      exact hctx
    | _ => exact h.elim
  | _ => exact h.elim

theorem completion_of_completes {id : ℕ} {ready : DccEvents.SocketReady}
    (hsound : c.halted = none → Sound c) (h : Completes c (.socket id ready)) :
    Completion (eventContext c (.socket id ready)) c (DccEvents.step c (.socket id ready)) := by
  have hstarts : ¬ StartsDownload c (.socket id ready) := fun hstarts => hstarts
  rcases QuitTiming.step_cases hstarts hsound with ⟨hnot, -⟩ | ⟨-, hcompletion⟩
  · exact absurd h hnot
  · exact hcompletion

theorem recorded_of_completion (h : Recorded c) {k : ℕ} {p : Bytes}
    (hp : pathAt c.downloadContext k = some p) (hcur : c.curDownload = some k)
    (hcompletion : Completion (some k) c c') : Recorded c' := by
  cases hcompletion with
  | @of t context net l hctx hbefore hl hafter =>
    obtain rfl := Option.some.inj hctx
    obtain ⟨hunfinished, hsame⟩ := unfinished_of_changes hbefore
    have ht := (h.keep hunfinished).complete (hsame.trans hcur) (hunfinished.path k p hp) net hl
    exact ht.keep (unfinished_of_changes hafter).1

/-- `lastDownload` is where `curDownload` was, whatever download has ended. -/
theorem curDownload_of_completion {ctx : Option ℕ} (hcompletion : Completion ctx c c')
    (h : ChecksCompleted c') : ctx = c.curDownload := by
  cases hcompletion with
  | @of t context net l hctx hbefore hl hafter =>
    have hafter' := (unfinished_of_changes hafter).1
    have hquiet : ∀ a ∈ l, finishedContext a = none := by
      cases hl <;> simp [finishedContext]
    have hfinished : finished c'.trace = finished t.trace ++ [context] :=
      hafter'.finished_eq.trans (finished_append_finish context hquiet)
    have hlast := h.last
    rw [hafter'.last, hfinished, List.getLast?_concat, completed_lastDownload] at hlast
    rw [hctx, ← hlast]
    exact (unfinished_of_changes hbefore).2

def LatestCompletes (s : Loop) : LoopEvent → Prop
  | .socket id ready => idle s (.socket id ready) = false →
      Completes s.session.client (.socket id ready) →
        eventContext s.session.client (.socket id ready) = s.session.client.curDownload
  | _ => True

def Kept (s : Loop) : Prop := s.session.client.halted = none → Sound s.session.client

theorem kept_of_turns {t : Loop} (h : Kept s) (hturns : Turns s t) :
    Kept t ∧ (Recorded s.session.client → Recorded t.session.client) := by
  have hclients {c c' : Client} (h : c.halted = none → Sound c)
      (hturns : Relation.ReflTransGen Turn c c') :
      (c'.halted = none → Sound c') ∧ (Recorded c → Recorded c') := by
    induction hturns with
    | refl => exact ⟨h, fun hc => hc⟩
    | tail _ hturn ih =>
      exact ⟨sound_of_turn ih.1 hturn, fun hc => recorded_of_turn (ih.2 hc) ih.1 hturn⟩
  exact hclients h hturns

theorem step_cases (s : Loop) (e : LoopEvent) :
    (∃ id ready, e = .socket id ready ∧ idle s e = false ∧
      (step s e).session.client = DccEvents.step s.session.client (.socket id ready)) ∨
    (Turns s (step s e) ∧ LatestCompletes s e) := by
  by_cases hsocket : ∃ id ready, e = .socket id ready
  · obtain ⟨id, ready, rfl⟩ := hsocket
    cases hidle : idle s (.socket id ready) with
    | false => exact Or.inl ⟨id, ready, rfl, rfl, step_socket id ready hidle⟩
    | true =>
      refine Or.inr ⟨?_, fun hlive => absurd (hidle.symm.trans hlive) (by simp)⟩
      rw [step_of_idle hidle]
      exact turns_frame.refl s
  · simp only [not_exists] at hsocket
    refine Or.inr ⟨step_turns hsocket s, ?_⟩
    cases e with
    | socket id ready => exact absurd rfl (hsocket id ready)
    | _ => trivial

theorem kept_step (s : Loop) (e : LoopEvent) (h : Kept s) : Kept (step s e) := by
  rcases step_cases s e with ⟨id, ready, -, -, hstep⟩ | ⟨hturns, -⟩
  · unfold Kept
    rw [hstep]
    exact CallbackSteps.sound_step _ h
  · exact (kept_of_turns h hturns).1

theorem recorded_step {e : LoopEvent} (hkept : Kept s) (h : Recorded s.session.client)
    (hlatest : LatestCompletes s e) : Recorded (step s e).session.client := by
  rcases step_cases s e with ⟨id, ready, rfl, hidle, hstep⟩ | ⟨hturns, -⟩
  · rw [hstep]
    by_cases hcompletes : Completes s.session.client (.socket id ready)
    · have hcur := hlatest hidle hcompletes
      obtain ⟨k, p, hk, hp⟩ := exists_path_of_completes hcompletes
      have hcompletion := completion_of_completes hkept hcompletes
      rw [hk] at hcompletion
      exact recorded_of_completion h hp (hcur.symm.trans hk) hcompletion
    · exact recorded_of_event h hkept hcompletes
  · exact (kept_of_turns hkept hturns).2 h

/-- Where a step has ended a download and `lastDownload` is right, it ended the latest one. -/
theorem latest_of_checks {e : LoopEvent} (hkept : Kept s)
    (h : ChecksCompleted (step s e).session.client) : LatestCompletes s e := by
  rcases step_cases s e with ⟨id, ready, rfl, hidle, hstep⟩ | ⟨-, hlatest⟩
  · intro _ hcompletes
    rw [hstep] at h
    exact curDownload_of_completion (completion_of_completes hkept hcompletes) h
  · exact hlatest

theorem kept_start (c : Setup) : Kept c.start := by
  have hinitial := CallbackSteps.soundRun_initial c.cfg connectingNet c.files
  exact hinitial.2

theorem recorded_start (c : Setup) : Recorded c.start.session.client where
  checks :=
    { last := rfl
      paths := by
        intro before md5 path after h
        exact absurd h (by simp [Setup.start, DccEvents.initial]) }
  stored := fun k hk => absurd hk List.not_mem_nil

/-- In a run `lastDownload` names the download that has just ended, and all checksums are verified
    against files that had been completely received, if and only if each download that ends is the
    one that was offered last. -/
theorem checks_completed_iff (c : Setup) (events : List LoopEvent) :
    AllAlong step (fun s e => ChecksCompleted (step s e).session.client) c.start events ↔
      AllAlong step LatestCompletes c.start events := by
  constructor
  · intro hall
    have hlatest : ∀ s e, Kept s → (ChecksCompleted (step s e).session.client ↔
        ChecksCompleted (step s e).session.client ∧ LatestCompletes s e) :=
      fun s e hkept => ⟨fun h => ⟨h, latest_of_checks hkept h⟩, fun h => h.1⟩
    exact ((allAlong_congr kept_step hlatest (kept_start c)).mp hall).mono fun _ _ h => h.2
  · intro hall
    let inv : Loop → Prop := fun s => Kept s ∧ Recorded s.session.client
    have hstep : ∀ s e, inv s → LatestCompletes s e → inv (step s e) :=
      fun s e h hlatest => ⟨kept_step s e h.1, recorded_step h.1 h.2 hlatest⟩
    have hrecorded := allAlong_of_invariant hstep ⟨kept_start c, recorded_start c⟩ hall
    exact hrecorded.mono fun _ _ h => h.2.checks

end runs

def twoBotsSetup : Setup := { botSetup with cfg := ResumeAddressing.twoBots }

def offerOfBot : Block :=
  ⟨bytes ":bot!u@h PRIVMSG me :\x01DCC SEND a 16909060 5000 2\x01\x0d\x0a", by decide +kernel⟩

def offerOfTob : Block :=
  ⟨bytes ":tob!u@h PRIVMSG me :\x01DCC SEND b 16909061 5001 2\x01\x0d\x0a", by decide +kernel⟩

def sumOfBot : Block :=
  ⟨bytes ":bot!u@h NOTICE me :md5 0cc175b9c0f1b6a831c399e269772661\x0d\x0a", by decide +kernel⟩

/-- The first download ends while the second one is going on, then its sum comes. -/
def overlapping : List LoopEvent :=
  [connects, .line readyAnswers offerOfBot, .line readyAnswers offerOfTob,
    .socket 1 (.connecting true), .socket 1 (.receiving [.data twoBytes]),
    .line readyAnswers sumOfBot]

/-- The sum of the file `a` is compared with that of `b`, of which nothing has been received. -/
theorem checksum_of_unfinished_file :
    ¬ AllAlong step (fun s e => ChecksCompleted (step s e).session.client) twoBotsSetup.start
      overlapping := by
  intro h
  let c := (run step twoBotsSetup.start overlapping).session.client
  have hchecks : ChecksCompleted c :=
    @run_invariant_of_allAlong _ _ step (fun s => ChecksCompleted s.session.client) _
      (fun _ _ _ h => h) _ (recorded_start twoBotsSetup).checks _ h
  -- one evaluation of the run for all three
  obtain ⟨htrace, hfinished, hpath⟩ : c.trace = c.trace.dropLast ++
      [.startChecksum (bytes "0cc175b9c0f1b6a831c399e269772661") (some (bytes "d/b"))] ∧
      finished c.trace.dropLast = [0] ∧ pathAt c.downloadContext 0 = some (bytes "d/a") := by
    decide +kernel
  obtain ⟨k, hk, p, hp, hchecked⟩ := hchecks.paths _ _ _ _ htrace
  rw [hfinished, List.mem_singleton] at hk
  rw [hk, hpath] at hp
  rw [← hp] at hchecked
  exact absurd hchecked (by decide)

end Xdccget.ChecksumPaths
