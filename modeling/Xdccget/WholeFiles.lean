import Xdccget.SeparateFiles
import Xdccget.ChecksumPaths

set_option autoImplicit false

/-!
# Finished downloads are whole

A bot that streams its file from the position it was asked for, beside any other downloads. The
local file is a prefix of it all the time, and `finish` is recorded exactly with the last byte.
-/
namespace Xdccget.WholeFiles
open CText DccMessages ClientState DccSessions Downloads DccEvents HaltingPrograms SessionSpecs
  DownloadSpecs EventSpecs TableChanges StepRuns SeparateFiles
open DownloadTurns (arriving arrivingChunks chunksData chunksData_cons fileContent
  arriving_of_find_none arriving_of_connected processDescriptor_run_of_receiving)
open CallbackSteps (acknowledgedSession acceptResume_run_of_waiting calls_of_awaited)
open ByteCounts (Present Receives SoundCounts CountsRun receiveChunk_present report_receiving
  lock_receiving unlock_receiving countsRun_step countsRun_initial)
open DccAccepts (acceptText)
open ResumeAddressing (newestByPort acceptResume_run_of_not_waiting twoBots request)
open QuitTiming (finished finishedContext finishedContext_of_sessionAction finished_append_nil
  finished_append_finish mem_finished)
open ChecksumPaths (unfinished_of_changes unfinished_of_start)

section records
variable {s s' : Client} {k : ℕ} {l : List Action}

theorem unfinished_of_completionActions (h : CompletionActions s l) :
    ∀ a ∈ l, finishedContext a = none := by
  cases h <;> simp [finishedContext]

def Listed (s : Client) : Prop := ∀ k ∈ finished s.trace, k < s.downloadContext.length

theorem Listed.keep (h : Listed s) (hlength : s.downloadContext.length ≤ s'.downloadContext.length)
    (htrace : s'.trace = s.trace ++ l) (hl : ∀ a ∈ l, finishedContext a = none) : Listed s' := by
  intro k hk
  rw [htrace, finished_append_nil hl] at hk
  exact (h k hk).trans_le hlength

theorem listed_change {b : Bool} (h : Listed s) (hchange : Change b s s') : Listed s' := by
  have hmodify (k : ℕ) (g : DccDownloadContext → DccDownloadContext) :
      s.downloadContext.length ≤ (s.downloadContext.modify k g).length :=
    (List.length_modify _ _ _).ge
  cases hchange with
  | sessions net lastId ds hl =>
    exact h.keep le_rfl rfl fun a ha => finishedContext_of_sessionAction (hl a ha)
  | chunk data hc hfd => exact h.keep (hmodify _ _) rfl (by simp [finishedContext])
  | lost length hc hfd => exact h.keep (hmodify _ _) rfl (by simp [finishedContext])
  | @complete j c fd hb net l hc hfd hsize hl =>
    intro k hk
    rw [completed_trace,
      finished_append_finish _ (unfinished_of_completionActions hl)] at hk
    rw [completed_downloadContext, List.length_modify]
    rcases List.mem_append.mp hk with hk | hk
    · exact h k hk
    · obtain rfl := List.mem_singleton.mp hk
      exact (List.getElem?_eq_some_iff.mp hc).1
  | rewind length hc hfd => exact h.keep (hmodify _ _) (List.append_nil _).symm (by simp)
  | output => exact h.keep (List.length_map _).ge (List.append_nil _).symm (by simp)
  | halt fault => exact h

/-- The file of the download is closed exactly when the download is recorded as finished. -/
def Told (k : ℕ) (s : Client) : Prop :=
  ∃ c, s.downloadContext[k]? = some c ∧ (c.fd = none ↔ k ∈ finished s.trace)

theorem Told.keep (h : Told k s) {j : ℕ} {g : DccDownloadContext → DccDownloadContext}
    (htable : s'.downloadContext = s.downloadContext.modify j g)
    (hg : ∀ c, s.downloadContext[j]? = some c → ((g c).fd = none ↔ c.fd = none))
    (htrace : s'.trace = s.trace ++ l) (hl : ∀ a ∈ l, finishedContext a = none) : Told k s' := by
  obtain ⟨c, hc, htold⟩ := h
  rw [Told, htable, htrace, finished_append_nil hl, ← htold]
  by_cases hjk : j = k
  · subst hjk
    exact ⟨g c, by simp [hc], hg c hc⟩
  · exact ⟨c, by simp [hc, hjk], Iff.rfl⟩

theorem told_change {b : Bool} (h : Told k s) (hchange : Change b s s') : Told k s' := by
  cases hchange with
  | sessions net lastId ds hl =>
    obtain ⟨c, hc, htold⟩ := h
    refine ⟨c, hc, ?_⟩
    rw [withSessions_trace,
      finished_append_nil fun a ha => finishedContext_of_sessionAction (hl a ha)]
    exact htold
  | chunk data hc hfd =>
    refine h.keep rfl (fun c hc' => ?_) rfl (by simp [finishedContext])
    obtain rfl := Option.some.inj (hc.symm.trans hc')
    simp [receivedInto, hfd]
  | lost length hc hfd => exact h.keep rfl (fun _ _ => Iff.rfl) rfl (by simp [finishedContext])
  | @complete j c fd hb net l hc hfd hsize hl =>
    obtain ⟨c', hc', htold⟩ := h
    rw [Told, completed_downloadContext, completed_trace,
      finished_append_finish _ (unfinished_of_completionActions hl)]
    by_cases hjk : j = k
    · subst hjk
      exact ⟨closed c', by simp [hc'], iff_of_true rfl (by simp)⟩
    · refine ⟨c', by simp [hc', hjk], htold.trans ?_⟩
      rw [List.mem_append, List.mem_singleton, or_iff_left (Ne.symm hjk)]
  | rewind length hc hfd =>
    refine h.keep rfl (fun c hc' => ?_) (List.append_nil _).symm (by simp)
    obtain rfl := Option.some.inj (hc.symm.trans hc')
    simp [rewound, hfd]
  | output =>
    obtain ⟨c, hc, htold⟩ := h
    exact ⟨{ c with progress := outputProgress c.progress }, by simp [hc], htold⟩
  | halt fault => exact h

theorem listed_of_changes {b : Bool} (h : Listed s) (hs' : Changes b s s') : Listed s' :=
  hs'.invariant (fun _ _ hs hc => listed_change hs hc) h

theorem told_of_changes {b : Bool} (h : Told k s) (hs' : Changes b s s') : Told k s' :=
  hs'.invariant (fun _ _ hs hc => told_change hs hc) h

theorem listed_step (s : Client) (e : Event) (h : Listed s) : Listed (step s e) := by
  by_cases hstarts : StartsDownload s e
  · obtain ⟨t, progress, fd, files, ht, hs'⟩ := step_starts (b := true) hstarts
    refine listed_of_changes ?_ hs'
    refine (listed_of_changes h ht).keep ?_ rfl (by simp [finishedContext])
    rw [withDownload_downloadContext, List.length_append]
    exact Nat.le_add_right _ _
  · exact listed_of_changes h (step_changes hstarts)

theorem told_step (s : Client) (e : Event) (h : Told k s) : Told k (step s e) := by
  by_cases hstarts : StartsDownload s e
  · obtain ⟨t, progress, fd, files, ht, hs'⟩ := step_starts (b := true) hstarts
    refine told_of_changes ?_ hs'
    obtain ⟨c, hc, htold⟩ := told_of_changes h ht
    rw [Told, withDownload_downloadContext, withDownload_trace,
      finished_append_nil (by simp [finishedContext]),
      List.getElem?_append_left (List.getElem?_eq_some_iff.mp hc).1]
    exact ⟨c, hc, htold⟩
  · exact told_of_changes h (step_changes hstarts)

theorem unfinished_of_starts (h : Listed s) {e : Event} (hstarts : StartsDownload s e) :
    s.downloadContext.length ∉ finished (step s e).trace := by
  obtain ⟨t, progress, fd, files, ht, hs'⟩ := step_starts (b := false) hstarts
  rw [(unfinished_of_changes hs').1.finished_eq,
    (unfinished_of_start t progress fd files).finished_eq, (unfinished_of_changes ht).1.finished_eq]
  exact fun hmem => (h _ hmem).false

end records

/-- The download that is watched, with the size its bot has announced and the position that the
    bot is asked to start from. -/
structure Expected extends Watched where
  size : ℕ
  asked : ℕ

section level
variable {p : Expected} {content : Bytes} {s t : Client}

/-- The session of the download has counted what is in the file, as soon as it receives. While it
    waits for an acknowledgement, nothing is added. -/
structure Even (p : Expected) (content : Bytes) (d : DccSession) : Prop where
  counted : d.id = p.id → d.cb = some .callbackDccRecvFile →
    d.fileConfirmOffset = u64 content.length
  waits : d.id = p.id → d.state = .waitingForResumeAck → content.length = p.asked

/-- The file is closed when it has the announced size, and something has been received for it. -/
structure Level (p : Expected) (content : Bytes) (s : Client) : Prop where
  asked_le : p.asked ≤ content.length
  sessions : ∀ d ∈ s.dccSessions, Even p content d
  context : ∀ c, s.downloadContext[p.context]? = some c → c.progress.completeFileSize = p.size ∧
    (c.fd = none ↔ u64 content.length = p.size ∧ content.length ≠ p.asked)

theorem even_of_other {d : DccSession} (h : d.id ≠ p.id) : Even p content d where
  counted hid := absurd hid h
  waits hid := absurd hid h

theorem even_of_same {d e : DccSession} (hid : e.id = d.id) (hcb : e.cb = d.cb)
    (hoffset : e.fileConfirmOffset = d.fileConfirmOffset)
    (hstate : e.state = .waitingForResumeAck → d.state = .waitingForResumeAck)
    (h : Even p content d) : Even p content e where
  counted := by
    rw [hid, hcb, hoffset]
    exact h.counted
  waits hown hwaits := h.waits (hid.symm.trans hown) (hstate hwaits)

theorem Level.same (h : Level p content s) (hsessions : t.dccSessions = s.dccSessions)
    (htable : t.downloadContext = s.downloadContext) : Level p content t where
  asked_le := h.asked_le
  sessions := hsessions ▸ h.sessions
  context := htable ▸ h.context

theorem Level.sessionOp (h : Level p content s) (net : Net) {i : ℕ} {f : DccSession → DccSession}
    (hf : ∀ d ∈ s.dccSessions, d.id = i → Even p content d → Even p content (f d))
    (l : List Action) : Level p content (sessionOp s net i f l) where
  asked_le := h.asked_le
  sessions := by
    intro d hd
    rcases mem_updateSession hd with ⟨e, he, hid, rfl⟩ | ⟨hd, -⟩
    · exact hf e he hid (h.sessions e he)
    · exact h.sessions d hd
  context := h.context

theorem Level.update (h : Level p content s) {i : ℕ} {f : DccSession → DccSession}
    (hf : ∀ d, d.id = i → Even p content d → Even p content (f d)) :
    Level p content { s with dccSessions := updateSession i f s.dccSessions } :=
  (h.sessionOp s.net (fun d _ => hf d) []).same rfl rfl

theorem Level.modify (h : Level p content s) (hsessions : t.dccSessions = s.dccSessions) {k : ℕ}
    {g : DccDownloadContext → DccDownloadContext}
    (htable : t.downloadContext = s.downloadContext.modify k g)
    (hg : ∀ c, s.downloadContext[k]? = some c → k = p.context →
      (g c).progress.completeFileSize = c.progress.completeFileSize ∧
        ((g c).fd = none ↔ c.fd = none)) : Level p content t where
  asked_le := h.asked_le
  sessions := hsessions ▸ h.sessions
  context := by
    intro c hc
    rw [htable, List.getElem?_modify] at hc
    obtain ⟨c, hold, rfl⟩ := Option.map_eq_some_iff.mp hc
    by_cases hk : k = p.context
    · rw [if_pos hk]
      obtain ⟨hsize, hfd⟩ := hg c (hk ▸ hold) hk
      rw [hsize, hfd]
      exact h.context c hold
    · rw [if_neg hk]
      exact h.context c hold

theorem Level.started (h : Level p content s) (env : Env) (filename : Bytes) {size : ℕ}
    (append : Bool) (hown : s.downloadContext.length = p.context → size = p.size ∧
      content.length = p.asked) : Level p content (started s env filename size append) where
  asked_le := h.asked_le
  sessions := h.sessions
  context := by
    intro c hc
    change (s.downloadContext ++ [_])[p.context]? = some c at hc
    rcases Nat.lt_trichotomy p.context s.downloadContext.length with hlt | heq | hgt
    · rw [List.getElem?_append_left hlt] at hc
      exact h.context c hc
    · rw [heq, List.getElem?_concat_length] at hc
      obtain rfl := Option.some.inj hc
      obtain ⟨hsize, hlength⟩ := hown heq.symm
      exact ⟨hsize, iff_of_false (by simp) fun hcontent => hcontent.2 hlength⟩
    · rw [List.getElem?_eq_none (by simp only [List.length_append, List.length_singleton]; omega)]
        at hc
      exact nomatch hc

theorem Level.withSession (h : Level p content s) (net : Net) {d : DccSession} (hcb : d.cb = none)
    (hstate : d.state ≠ .waitingForResumeAck) : Level p content (withSession s net d) where
  asked_le := h.asked_le
  sessions := by
    intro e he
    rcases List.mem_cons.mp he with rfl | he
    · exact ⟨fun _ hrecv => absurd (hcb.symm.trans hrecv) (by simp),
        fun _ hwaits => absurd hwaits hstate⟩
    · exact h.sessions e he
  context := h.context

abbrev Levels (p : Expected) (content : Bytes) {α : Type} (P : Client → Prop) (x : ClientM α) :
    Prop :=
  Ensures (fun s => P s ∧ Level p content s) x (fun _ => Level p content) fun _ => True

end level

theorem ensures_both {σ ε α : Type} {P : σ → Prop} {Q R : α → σ → Prop} {x : EStateM ε σ α}
    (hx : Ensures P x Q fun _ => True) (hy : Ensures P x R fun _ => True) :
    Ensures P x (fun a s => Q a s ∧ R a s) fun _ => True := by
  intro s hs
  have hleft := hx s hs
  have hright := hy s hs
  cases hrun : x.run s with
  | ok a t =>
    rw [hrun] at hleft hright
    exact ⟨hleft, hright⟩
  | error fault t => trivial

section programs
variable {p : Expected} {content : Bytes} {i : ℕ}

theorem modify_levels {P : Client → Prop} {f : Client → Client}
    (h : ∀ s, (f s).dccSessions = s.dccSessions ∧ (f s).downloadContext = s.downloadContext) :
    Levels p content P (modify f : ClientM PUnit) :=
  ensures_modify fun s hs => hs.2.same (h s).1 (h s).2

theorem pure_levels {P : Client → Prop} {α : Type} (a : α) :
    Levels p content P (pure a : ClientM α) := ensures_pure fun _ h => h.2

theorem throw_levels {P : Client → Prop} {α : Type} (fault : Halt) :
    Levels p content P (throw fault : ClientM α) := ensures_throw fun _ _ => trivial

theorem modifySession_levels {P : Client → Prop} {f : DccSession → DccSession}
    (hf : ∀ d, d.id = i → Even p content d → Even p content (f d)) :
    Levels p content P (modifySession i f) :=
  ensures_modify fun _ h => h.2.update hf

theorem setState_levels {P : Client → Prop} {state : LibircState}
    (hstate : state ≠ .waitingForResumeAck) :
    Levels p content P (modifySession i fun d => { d with state := state }) :=
  modifySession_levels fun d _ hd =>
    even_of_same (d := d) rfl rfl rfl (fun hwaits => absurd hwaits hstate) hd

theorem libircDccDestroyNolock_levels {P : Client → Prop} :
    Levels p content P (libircDccDestroyNolock i) := by
  intro s h
  rw [libircDccDestroyNolock_run]
  exact h.2.update fun d _ hd => even_of_same (d := d) rfl rfl rfl nofun hd

theorem withNet_level {s : Client} (h : Level p content s) (net : Net) :
    Level p content (withNet s net) := h.same rfl rfl

theorem callCb_levels (status length : ℕ) :
    Levels p content (Receives i) (callCb noEnv i status none length) := by
  rintro s ⟨hreceives, h⟩
  cases hf : s.dccSessions.find? (fun d => decide (d.id = i)) with
  | none =>
    simp only [callCb, EStateM.run_bind, EStateM.run_get, hf]
    exact h
  | some d =>
    have hid : d.id = i := by simpa using List.find?_some hf
    have hcb := (hreceives.1.2 d (List.mem_of_find?_eq_some hf) hid).1
    rw [callCb_run_of_recvFile hf hcb, callbackDccRecvFile_run_of_none]
    exact h.same rfl rfl

abbrev ReceivesLevel (p : Expected) (content : Bytes) (i : ℕ) (s : Client) : Prop :=
  Receives i s ∧ Level p content s

theorem receives_level {x : ClientM Unit} (hx : ByteCounts.Receiving i x)
    (h : Levels p content (Receives i) x) :
    Ensures (ReceivesLevel p content i) x (fun _ => ReceivesLevel p content i) fun _ => True :=
  ensures_both (hx.weaken (fun _ h => h.1) (fun _ _ h => h) fun _ h => h) h

theorem lock_receives : Ensures (ReceivesLevel p content i) libircMutexLock
    (fun _ => ReceivesLevel p content i) fun _ => True :=
  receives_level lock_receiving (modify_levels fun _ => ⟨rfl, rfl⟩)

theorem unlock_receives : Ensures (ReceivesLevel p content i) libircMutexUnlock
    (fun _ => ReceivesLevel p content i) fun _ => True :=
  receives_level unlock_receiving (modify_levels fun _ => ⟨rfl, rfl⟩)

theorem callCb_receives (status : ℕ) : Ensures (ReceivesLevel p content i)
    (callCb noEnv i status none 0) (fun _ => ReceivesLevel p content i) fun _ => True :=
  receives_level (report_receiving status 0) (callCb_levels status 0)

theorem report_levels (err : ℕ) : Levels p content (Receives i) (do
    libircMutexUnlock
    callCb noEnv i err none 0
    libircMutexLock) := by
  refine ensures_bind unlock_receives fun _ => ?_
  refine ensures_bind (callCb_receives err) fun _ => ?_
  exact lock_receives.weaken (fun _ h => h) (fun _ _ h => h.2) fun _ h => h

theorem reportAndDestroy_levels (err : ℕ) : Levels p content (Receives i) (do
    libircMutexUnlock
    callCb noEnv i err none 0
    libircMutexLock
    libircDccDestroyNolock i) := by
  refine ensures_bind unlock_receives fun _ => ?_
  refine ensures_bind (callCb_receives err) fun _ => ?_
  exact ensures_bind lock_receives fun _ => libircDccDestroyNolock_levels

theorem sendCurrentFileOffsetToSender_levels (dcc : DccSession) (result : SendResult) :
    Levels p content (Receives dcc.id) (sendCurrentFileOffsetToSender dcc result) := by
  have hconnected : Levels p content (Receives dcc.id)
      (modifySession dcc.id fun d => { d with state := .connected }) := setState_levels (by simp)
  cases result with
  | again => exact pure_levels ()
  | wantRead => exact ensures_ite (fun _ => hconnected) fun _ => pure_levels ()
  | error => exact report_levels _
  | sent len =>
    cases len with
    | zero => exact report_levels _
    | succ len =>
      have hrecord : Ensures (ReceivesLevel p content dcc.id)
          (record (.acknowledged dcc.id (dcc.fileConfirmOffset % 2 ^ 32) (len + 1)))
          (fun _ => ReceivesLevel p content dcc.id) fun _ => True :=
        receives_level (ByteCounts.receiving_of (CallbackSteps.record_calls (by exact trivial))
          (ByteCounts.counts_of (ByteCounts.modify_counts fun _ => ⟨rfl, rfl⟩) fun _ h => h.2))
          (modify_levels fun _ => ⟨rfl, rfl⟩)
      refine ensures_bind hrecord fun _ => ?_
      exact ensures_ite (fun _ => reportAndDestroy_levels _) fun _ => hconnected

def counting (length : ℕ) (state : LibircState) (d : DccSession) : DccSession :=
  { withOffset length d with state := state }

theorem even_counting {d : DccSession} {data : Bytes} {state : LibircState} (hid : d.id = p.id)
    (hcb : d.cb = some .callbackDccRecvFile) (hstate : state ≠ .waitingForResumeAck)
    (h : Even p content d) : Even p (content ++ data) (counting data.length state d) where
  counted _ _ := by
    change u64 (d.fileConfirmOffset + data.length) = _
    rw [h.counted hid hcb, List.length_append, u64, u64, u64, Nat.mod_add_mod]
  waits _ hwaits := absurd hwaits hstate

theorem Level.receive {s t : Client} {k : ℕ} {c : DccDownloadContext} {data : Bytes}
    {g : DccDownloadContext → DccDownloadContext} {state : LibircState} (h : Level p content s)
    (hcb : ∀ d ∈ s.dccSessions, d.id = i → d.cb = some .callbackDccRecvFile)
    (hpair : i = p.id ↔ k = p.context) (hc : s.downloadContext[k]? = some c) (hpos : data ≠ [])
    (hstate : state ≠ .waitingForResumeAck)
    (hsize : (g c).progress.completeFileSize = c.progress.completeFileSize)
    (hfd : i = p.id → ((g c).fd = none ↔ u64 (content ++ data).length = p.size))
    (hsessions : t.dccSessions = updateSession i (counting data.length state) s.dccSessions)
    (htable : t.downloadContext = s.downloadContext.modify k g) :
    Level p (content ++ p.gain i data) t := by
  by_cases hi : i = p.id
  · have hk := hpair.mp hi
    rw [Watched.gain, if_pos hi]
    have hadded := List.length_pos_of_ne_nil hpos
    have hmore : p.asked < (content ++ data).length := by
      rw [List.length_append]
      exact h.asked_le.trans_lt (Nat.lt_add_of_pos_right hadded)
    refine ⟨hmore.le, ?_, ?_⟩
    · intro d hd
      rw [hsessions] at hd
      rcases mem_updateSession hd with ⟨e, he, hid, rfl⟩ | ⟨-, hne⟩
      · exact even_counting (hid.trans hi) (hcb e he hid) hstate (h.sessions e he)
      · exact even_of_other fun hid => hne (hid.trans hi.symm)
    · intro c' hc'
      rw [htable, ← hk, List.getElem?_modify_eq, hc] at hc'
      obtain rfl := Option.some.inj hc'
      refine ⟨hsize.trans (h.context c (hk ▸ hc)).1, (hfd hi).trans ?_⟩
      exact (and_iff_left hmore.ne').symm
  · have hk : k ≠ p.context := fun hk => hi (hpair.mpr hk)
    rw [Watched.gain, if_neg hi, List.append_nil]
    refine ⟨h.asked_le, ?_, ?_⟩
    · intro d hd
      rw [hsessions] at hd
      rcases mem_updateSession hd with ⟨e, he, hid, rfl⟩ | ⟨hd, -⟩
      · exact even_of_other fun hown => hi (hid.symm.trans hown)
      · exact h.sessions d hd
    · intro c' hc'
      rw [htable, List.getElem?_modify_ne _ _ hk] at hc'
      exact h.context c' hc'

theorem receiveChunk_levels (chunk : Chunk) :
    Ensures (fun s => (Present i s ∧ Stores p.toWatched content s) ∧ Level p content s)
      (receiveChunk i chunk) (fun _ => Level p (content ++ p.gain i chunk.data)) fun _ => True := by
  rintro s ⟨⟨⟨⟨hcalls, hcounted⟩, d, hd⟩, hstores⟩, h⟩
  have hmem : d ∈ s.dccSessions := List.mem_of_find?_eq_some hd
  have hid : d.id = i := by simpa using List.find?_some hd
  have hcb : d.cb = some .callbackDccRecvFile := (hcalls.2 d hmem hid).1
  obtain ⟨k, hctx⟩ := Option.ne_none_iff_exists'.mp (hcounted.given d hmem (by simp [hcb]))
  obtain ⟨c, hc, hcount⟩ := hcounted.attached d hmem k hctx
  have hpair := (hstores.sessions d hmem).pairs k hctx
  rw [hid] at hpair
  have hpos : chunk.data ≠ [] := List.ne_nil_of_length_pos chunk.pos
  have hc₁ : (arrived s i chunk.data.length).downloadContext[k]? = some c := hc
  -- the context counts what its session counts, and so what is in the file
  have htotal (hi : i = p.id) :
      (u64 (c.progress.sizeRcvd + chunk.data.length) = c.progress.completeFileSize ↔
        u64 (content ++ chunk.data).length = p.size) := by
    rw [hcount, ((h.sessions d hmem).counted (hid.trans hi) hcb), List.length_append, u64, u64, u64,
      Nat.mod_add_mod, (h.context c (hpair.mp hi ▸ hc)).1]
  have hsessions (t : Client) (ht : t.dccSessions = (arrived s i chunk.data.length).dccSessions) :
      (confirming t i).dccSessions = updateSession i (counting chunk.data.length
        (if t.cfg.dontConfirmOffsets then .connected else .confirmSize)) s.dccSessions := by
    rw [confirming_dccSessions, ht, arrived_dccSessions, updateSession_updateSession]
    · rfl
    · exact fun _ => rfl
  have hstate (t : Client) : (if t.cfg.dontConfirmOffsets then LibircState.connected
      else .confirmSize) ≠ .waitingForResumeAck := by split <;> simp
  have hcbs : ∀ e ∈ s.dccSessions, e.id = i → e.cb = some .callbackDccRecvFile :=
    fun e he heid => (hcalls.2 e he heid).1
  have hrun := receiveChunk_run hd hcb chunk
  rw [hctx] at hrun
  cases hfd : c.fd with
  | none =>
    rw [hrun, run_bind_of_error (callbackDccRecvFile_run_of_closed hc₁ hfd chunk.pos)]
    trivial
  | some fd =>
    by_cases hsize : u64 (c.progress.sizeRcvd + chunk.data.length) = c.progress.completeFileSize
    · obtain ⟨net, l, hlast, -⟩ := callbackDccRecvFile_run_of_last hc₁ hfd chunk.pos hsize
      rw [hrun, run_bind_of_ok hlast, afterChunk_run]
      refine h.receive hcbs hpair hc hpos (hstate _) ?_ (fun hi => ?_) (hsessions _ rfl)
        (g := closed ∘ receivedInto fd chunk.data.length) ?_
      · exact DownloadTurns.outputProgress_completeFileSize _
      · exact iff_of_true rfl ((htotal hi).mp hsize)
      · exact List.modify_modify_eq _ _ _ _
    · have hmore := callbackDccRecvFile_run_of_unfinished hc₁ hfd chunk.pos hsize
      rw [hrun, run_bind_of_ok hmore, afterChunk_run]
      refine h.receive hcbs hpair hc hpos (hstate _) rfl (fun hi => ?_) (hsessions _ rfl) rfl
      exact iff_of_false (by simp [receivedInto]) fun htold => hsize ((htotal hi).mpr htold)

abbrev StoresLevel (p : Expected) (content : Bytes) (i : ℕ) (s : Client) : Prop :=
  (Present i s ∧ Stores p.toWatched content s) ∧ Level p content s

theorem nothing_levels {x : ClientM Unit} (hx : Levels p content (Receives i) x) :
    Ensures (StoresLevel p content i) x
      (fun _ => Level p (content ++ p.gain i (chunksData []))) fun _ => True := by
  rw [chunksData, List.flatMap_nil, gain_nil, List.append_nil]
  exact hx.weaken (fun _ h => ⟨h.1.1.1, h.2⟩) (fun _ _ h => h) fun _ h => h

theorem recvDccFile_levels (ssl : Bool) (results : List RecvResult) :
    Ensures (StoresLevel p content i) (recvDccFile i ssl results)
      (fun _ => Level p (content ++ p.gain i (chunksData (arrivingChunks ssl results))))
      fun _ => True := by
  induction results generalizing content with
  | nil => exact nothing_levels (pure_levels ())
  | cons result more ih =>
    cases result with
    | again =>
      cases ssl with
      | true => exact nothing_levels (pure_levels ())
      | false => exact ih
    | wantWrite =>
      cases ssl with
      | true => exact nothing_levels (setState_levels (by simp))
      | false => exact ih
    | error => exact nothing_levels (reportAndDestroy_levels libircErrRead)
    | closed => exact nothing_levels (reportAndDestroy_levels libircErrClosed)
    | data chunk =>
      rw [arrivingChunks, chunksData_cons, gain_append, ← List.append_assoc]
      have hchunk : Ensures (StoresLevel p content i) (receiveChunk i chunk)
          (fun _ => StoresLevel p (content ++ p.gain i chunk.data) i) fun _ => True :=
        ensures_both ((receiveChunk_stores i chunk).weaken (fun _ h => h.1) (fun _ _ h => h)
          fun _ h => h) (receiveChunk_levels chunk)
      refine ensures_bind hchunk fun _ => ?_
      cases ssl with
      | true => exact ih
      | false => exact nothing_levels (pure_levels ())

theorem quiet_levels {s : Client} {e : Event} {P : Client → Prop} (hP : P s)
    (h : Level p content s) {x : ClientM Unit} (hx : Levels p content P x)
    (he : arriving p.id s e = []) :
    Ensures (fun t => t = s) x (fun _ => Level p (content ++ arriving p.id s e)) fun _ => True := by
  rw [he, List.append_nil]
  exact hx.weaken (fun _ ht => ht ▸ ⟨hP, h⟩) (fun _ _ h => h) fun _ h => h

theorem processDescriptor_levels {s : Client} (hs : s.halted = none) (hsound : SoundCounts s)
    (hstores : Stores p.toWatched content s) (h : Level p content s) (ready : SocketReady) :
    Ensures (fun t => t = s) (processDescriptor i ready)
      (fun _ => Level p (content ++ arriving p.id s (.socket i ready))) fun _ => True := by
  cases hd : s.dccSessions.find? (fun d => decide (d.id = i)) with
  | none =>
    have hnothing : arriving p.id s (.socket i ready) = [] := by
      by_cases hi : i = p.id
      · exact arriving_of_find_none (hi ▸ hd) _
      · exact arriving_of_other hi ready
    rintro t rfl
    rw [processDescriptor_run_of_none hd, hnothing, List.append_nil]
    exact h
  | some d =>
    have hid : d.id = i := by simpa using List.find?_some hd
    have hpresent (hawaits : SessionCallbacks.awaited d = some (.data .callbackDccRecvFile)) :
        Present i s := ⟨⟨calls_of_awaited hsound.1 hd hawaits, hsound.2⟩, d, hd⟩
    by_cases hreceiving : ∃ results, d.state = .connected ∧ ready = .receiving results
    · obtain ⟨results, hstate, rfl⟩ := hreceiving
      have hgain : arriving p.id s (.socket i (.receiving results)) =
          p.gain i (chunksData (arrivingChunks d.ssl results)) := by
        by_cases hi : i = p.id
        · subst hi
          rw [arriving_of_connected hs hd hstate, Watched.gain, if_pos rfl]
        · rw [arriving_of_other hi, Watched.gain, if_neg hi]
      rintro t rfl
      rw [hgain, processDescriptor_run_of_receiving hd hstate]
      refine recvDccFile_levels d.ssl results t ⟨⟨hpresent ?_, hstores⟩, h⟩
      simp [SessionCallbacks.awaited, hstate]
    · have hno : ∀ results, d.state = .connected → ready ≠ .receiving results :=
        fun results hstate hready => hreceiving ⟨results, hstate, hready⟩
      have hturn : ∃ x P, (processDescriptor i ready).run s = x.run s ∧ P s ∧
          Levels p content P x := by
        rw [processDescriptor_run_of_find hd]
        split
        · next getpeername _ =>
          cases getpeername with
          | true => exact ⟨_, fun _ => True, rfl, trivial, setState_levels (by simp)⟩
          | false => exact ⟨_, fun _ => True, rfl, trivial, libircDccDestroyNolock_levels⟩
        · next results hstate => exact absurd rfl (hno results hstate)
        · next result hstate =>
          have hreceives : Receives d.id s :=
            hid ▸ (hpresent (by simp [SessionCallbacks.awaited, hstate])).1
          exact ⟨_, _, rfl, hreceives, sendCurrentFileOffsetToSender_levels d result⟩
        · next sock _ =>
          refine ⟨_, fun _ => True, rfl, trivial, modifySession_levels fun e _ he => ?_⟩
          exact even_of_same (d := e) rfl rfl rfl (fun hwaits => absurd hwaits (by simp)) he
        · exact ⟨_, fun _ => True, rfl, trivial, pure_levels ()⟩
      obtain ⟨x, P, hrun, hP, hx⟩ := hturn
      rintro t rfl
      rw [hrun]
      exact quiet_levels hP h hx (arriving_of_quiet hd hno p.id) t rfl

def CountsFile (p : Expected) (content : Bytes) (i : ℕ) (s : Client) : Prop :=
  i = p.id → ∀ d ∈ s.dccSessions, d.id = i → d.fileConfirmOffset = u64 content.length

theorem even_accepted {d e : DccSession} (hid : e.id = d.id)
    (hoffset : e.fileConfirmOffset = d.fileConfirmOffset)
    (hstate : e.state = .waitingForResumeAck → d.state = .waitingForResumeAck)
    (hcount : d.id = p.id → d.fileConfirmOffset = u64 content.length) (h : Even p content d) :
    Even p content e where
  counted hown _ := hoffset.trans (hcount (hid.symm.trans hown))
  waits hown hwaits := h.waits (hid.symm.trans hown) (hstate hwaits)

theorem ircDccAccept_levels (env : Env) (ctx : Option ℕ) :
    Levels p content (CountsFile p content i) (ircDccAccept env i ctx .callbackDccRecvFile) := by
  rintro s ⟨hcount, h⟩
  rcases exists_init_or_notInit s i with ⟨d, hd, hinit⟩ | hnot
  · obtain ⟨ret, net, f, hrun, haccepted⟩ := ircDccAccept_run hd hinit env ctx .callbackDccRecvFile
    rw [hrun]
    refine h.sessionOp net (fun e he hid heven => ?_) _
    have hcounted (hown : e.id = p.id) : e.fileConfirmOffset = u64 content.length :=
      hcount (hid.symm.trans hown) e he hid
    cases haccepted with
    | done hconnect hssl =>
      refine even_accepted (d := e) rfl rfl (fun hwaits => ?_) hcounted heven
      dsimp only at hwaits
      split at hwaits <;> cases hwaits
    | refused hconnect => exact even_accepted (d := e) rfl rfl nofun hcounted heven
    | noHandshake hssl hconnect => exact even_accepted (d := e) rfl rfl id hcounted heven
  · obtain ⟨net, hrun⟩ := ircDccAccept_run_of_notInit hnot env ctx .callbackDccRecvFile
    rw [hrun]
    exact withNet_level h net

theorem ircDccAcceptReverse_levels (env : Env) (ctx : Option ℕ) (nick : Option Bytes)
    (filename : Bytes) (size token : ℕ) :
    Levels p content (CountsFile p content i)
      (ircDccAcceptReverse env i ctx .callbackDccRecvFile nick filename size token) := by
  rintro s ⟨hcount, h⟩
  rcases exists_init_or_notInit s i with ⟨d, hd, hinit⟩ | hnot
  · rcases ircDccAcceptReverse_run hd hinit env ctx .callbackDccRecvFile nick filename size
        token with ⟨-, net, hrun⟩ | ⟨addr, net, l, -, hrun, -⟩
    · rw [hrun]
      exact withNet_level h net
    · rw [hrun]
      refine h.sessionOp net (fun e he hid heven => ?_) l
      exact even_accepted (d := e) rfl rfl nofun
        (fun hown => hcount (hid.symm.trans hown) e he hid) heven
  · obtain ⟨net, hrun⟩ := ircDccAcceptReverse_run_of_notInit hnot env ctx .callbackDccRecvFile nick
      filename size token
    rw [hrun]
    exact withNet_level h net

def AsksLength (p : Expected) (content : Bytes) (i : ℕ) (_ : Client) : Prop :=
  i = p.id → content.length = p.asked

theorem ircDccResume_levels (ctx : Option ℕ) (nick : Option Bytes) (position : ℕ) :
    Levels p content (AsksLength p content i)
      (ircDccResume i ctx .callbackDccResumeFile nick position) := by
  rintro s ⟨hasks, h⟩
  rcases exists_init_or_notInit s i with ⟨d, hd, hinit⟩ | hnot
  · obtain ⟨net, l, hrun, -⟩ := ircDccResume_run hd hinit ctx .callbackDccResumeFile nick position
    rw [hrun]
    refine h.sessionOp net (fun e he hid _ => ?_) l
    exact ⟨fun _ => nofun, fun hown _ => hasks (hid.symm.trans hown)⟩
  · obtain ⟨net, hrun⟩ := ircDccResume_run_of_notInit hnot ctx .callbackDccResumeFile nick position
    rw [hrun]
    exact withNet_level h net

theorem ircDccResumeReverse_levels (ctx : Option ℕ) (nick : Option Bytes) (position token : ℕ) :
    Levels p content (AsksLength p content i)
      (ircDccResumeReverse i ctx .callbackDccResumeFileReverse nick position token) := by
  rintro s ⟨hasks, h⟩
  rcases exists_init_or_notInit s i with ⟨d, hd, hinit⟩ | hnot
  · obtain ⟨net, l, hrun, -⟩ :=
      ircDccResumeReverse_run hd hinit ctx .callbackDccResumeFileReverse nick position token
    rw [hrun]
    refine h.sessionOp net (fun e he hid heven => ?_) l
    exact ⟨heven.counted, fun hown _ => hasks (hid.symm.trans hown)⟩
  · obtain ⟨net, hrun⟩ := ircDccResumeReverse_run_of_notInit hnot ctx .callbackDccResumeFileReverse
      nick position token
    rw [hrun]
    exact withNet_level h net

theorem exitOnFailure_levels {P : Client → Prop} {call : ClientM ℕ} (h : Levels p content P call) :
    Levels p content P (exitOnFailure call) :=
  ensures_bind h fun _ => ensures_ite (fun _ => ensures_throw fun _ _ => trivial)
    fun _ => ensures_pure fun _ h => h

theorem callbackDccResumeFile_levels (env : Env) (ctx : Option ℕ) (length : ℕ) :
    Levels p content (CountsFile p content i) (callbackDccResumeFile env i ctx length) := by
  cases ctx with
  | none => exact throw_levels _
  | some k =>
    have hseek : Ensures (fun s => CountsFile p content i s ∧ Level p content s)
        (seekToResume env k length) (fun _ s => CountsFile p content i s ∧ Level p content s)
        fun _ => True := by
      rintro s ⟨hcount, h⟩
      rcases seekToResume_run_cases env k length s with ⟨fault, hrun⟩ | ⟨c, fd, hc, hfd, hrun⟩
      · rw [hrun]
        trivial
      · rw [hrun]
        refine ⟨hcount, h.modify rfl rfl fun c' hc' _ => ⟨rfl, ?_⟩⟩
        obtain rfl := Option.some.inj (hc.symm.trans hc')
        simp [rewound, hfd]
    exact ensures_bind hseek fun _ => exitOnFailure_levels (ircDccAccept_levels env _)

structure Announces (p : Expected) (content : Bytes) (filename : Bytes) (size i : ℕ)
    (s : Client) : Prop where
  pairs : i = p.id ↔ s.downloadContext.length = p.context
  size_eq : i = p.id → size = p.size
  content_eq : i = p.id → fileContent s (getCompletePath s.cfg filename) = content
  asked_eq : i = p.id → content.length = p.asked
  fresh : i = p.id → ∀ d ∈ s.dccSessions, d.id = i → d.fileConfirmOffset = 0

theorem recvFileWith_levels {env : Env} {filename : Bytes} {size : ℕ} {accept : ℕ → ClientM ℕ}
    {resume : ℕ → ℕ → ClientM ℕ}
    (haccept : ∀ k, Levels p content (CountsFile p content i) (accept k))
    (hresume : ∀ k position, Levels p content (AsksLength p content i) (resume k position)) :
    Levels p content (Announces p content filename size i)
      (recvFileWith env filename size accept resume) := by
  rintro s ⟨ha, h⟩
  have hstarted (append : Bool) : Level p content (started s env filename size append) := by
    refine h.started env filename append fun hown => ?_
    have hi := ha.pairs.mpr hown
    exact ⟨ha.size_eq hi, ha.asked_eq hi⟩
  have hcounts (append : Bool) (hempty : i = p.id → content = []) :
      CountsFile p content i (started s env filename size append) := by
    intro hi d hd hid
    rw [hempty hi]
    exact ha.fresh hi d hd hid
  cases hlegal : containsIllegalChars filename with
  | true =>
    rw [recvFileWith_run_of_illegal hlegal]
    trivial
  | false =>
    cases hopen : env.fopen with
    | false =>
      rw [recvFileWith_run_of_unopened hlegal hopen]
      trivial
    | true =>
      cases hf : s.files (getCompletePath s.cfg filename) with
      | none =>
        have hempty (hi : i = p.id) : content = [] := by
          rw [← ha.content_eq hi, fileContent, hf]
          rfl
        rw [recvFileWith_run_of_missing hlegal hopen hf]
        exact exitOnFailure_levels (haccept _) _ ⟨hcounts false hempty, hstarted false⟩
      | some old =>
        have hold (hi : i = p.id) : content = old := by
          rw [← ha.content_eq hi, fileContent, hf]
          rfl
        rw [recvFileWith_run_of_existing hlegal hopen hf]
        by_cases hsize : size = old.length
        · rw [if_pos hsize]
          trivial
        · rw [if_neg hsize]
          by_cases hzero : old.length = 0
          · rw [if_pos hzero]
            have hempty (hi : i = p.id) : content = [] :=
              (hold hi).trans (List.eq_nil_of_length_eq_zero hzero)
            exact exitOnFailure_levels (haccept _) _ ⟨hcounts true hempty, hstarted true⟩
          · rw [if_neg hzero]
            exact exitOnFailure_levels (hresume _ _) _ ⟨ha.asked_eq, hstarted true⟩

section offers
variable {env : Env} {filename : Bytes} {size : ℕ} {s : Client}

theorem recvFileRequest_levels (nick : Option Bytes) :
    Levels p content (Announces p content filename size i)
      (recvFileRequest env nick filename size i) :=
  recvFileWith_levels (fun _ => ircDccAccept_levels env _)
    fun _ position => ircDccResume_levels _ nick position

theorem recvFileRequestReverse_levels (nick : Option Bytes) (token : ℕ) :
    Levels p content (Announces p content filename size i)
      (recvFileRequestReverse env nick filename size i token) :=
  recvFileWith_levels
    (fun _ => ircDccAcceptReverse_levels env _ nick filename size token)
    fun _ position => ircDccResumeReverse_levels _ nick position token

variable (ha : Announces p content filename size s.dccLastId s) (h : Level p content s)
include ha h

omit h in
theorem announces_withSession (hnew : ∀ d ∈ s.dccSessions, d.id < s.dccLastId) (net : Net)
    (sock ip port : ℕ) (ssl : Bool) : Announces p content filename size s.dccLastId
      (withSession s net (newSession s.dccLastId sock ip port none ssl)) where
  pairs := ha.pairs
  size_eq := ha.size_eq
  content_eq := ha.content_eq
  asked_eq := ha.asked_eq
  fresh := by
    intro _ d hd hid
    rcases List.mem_cons.mp hd with rfl | hd
    · rfl
    · exact absurd hid (hnew d hd).ne

theorem acceptDccSend_levels (hnew : ∀ d ∈ s.dccSessions, d.id < s.dccLastId)
    (nick : Option Bytes) (ip port : ℕ) (ssl : Bool) :
    Ensures (fun t => t = s) (acceptDccSend env nick filename ip size port ssl)
      (fun _ => Level p content) fun _ => True := by
  rintro t rfl
  by_cases hopen : CanOpen env ssl t
  · obtain ⟨sock, net, hrun⟩ := libircNewDccSession_run_of_canOpen hopen ip port none
    rw [acceptDccSend_eq, run_bind_of_ok hrun]
    refine ensures_bind (recvFileRequest_levels nick) (fun _ => ?_) _
      ⟨announces_withSession ha hnew net sock ip port ssl,
        h.withSession net rfl (by simp [newSession])⟩
    have hsized : Levels p content (fun _ => True)
        (modifySession t.dccLastId fun d => { d with receivedFileSize := size }) :=
      modifySession_levels fun d _ hd => even_of_same (d := d) rfl rfl rfl id hd
    exact hsized.weaken (fun _ h => ⟨trivial, h⟩) (fun _ _ h => h) fun _ h => h
  · rcases libircNewDccSession_run_of_not_canOpen hopen ip port none with hrun | hrun
    · rw [acceptDccSend_eq, run_bind_of_ok hrun]
      exact h.same rfl rfl
    · rw [acceptDccSend_eq, run_bind_of_error hrun]
      trivial

theorem acceptReverseDccSend_levels (hnew : ∀ d ∈ s.dccSessions, d.id < s.dccLastId)
    (nick : Option Bytes) (ip token : ℕ) (ssl : Bool) :
    Ensures (fun t => t = s) (acceptReverseDccSend env nick filename ip size token ssl)
      (fun _ => Level p content) fun _ => True := by
  rintro t rfl
  by_cases hopen : CanOpen env ssl t
  · obtain ⟨sock, net, hrun⟩ := libircNewDccSession_run_of_canOpen hopen ip 0 none
    let P : Client → Prop := fun u =>
      Announces p content filename size t.dccLastId u ∧ Level p content u
    have hpassive : Ensures P (modifySession t.dccLastId fun d =>
        { d with passiveConnection := true, token := token }) (fun _ => P) fun _ => True := by
      refine ensures_modify fun u hu => ⟨{ hu.1 with fresh := ?_ }, ?_⟩
      · intro hown d hd hid
        rcases mem_updateSession hd with ⟨e, he, heid, rfl⟩ | ⟨-, hne⟩
        · exact hu.1.fresh hown e he heid
        · exact absurd hid hne
      · exact hu.2.update fun d _ hd => even_of_same (d := d) rfl rfl rfl id hd
    have hfail (err : ℕ) : Ensures P (do setLasterror err; return) (fun _ => Level p content)
        fun _ => True := ensures_modify fun u hu => hu.2.same rfl rfl
    rw [acceptReverseDccSend_eq, run_bind_of_ok hrun]
    refine ensures_bind hpassive (fun _ => ?_) _
      ⟨announces_withSession ha hnew net sock ip 0 ssl,
        h.withSession net rfl (by simp [newSession])⟩
    refine ensures_ite (fun _ => hfail _) fun _ => ?_
    refine ensures_ite (fun _ => hfail _) fun _ => ?_
    exact recvFileRequestReverse_levels nick token
  · rcases libircNewDccSession_run_of_not_canOpen hopen ip 0 none with hrun | hrun
    · rw [acceptReverseDccSend_eq, run_bind_of_ok hrun]
      exact h.same rfl rfl
    · rw [acceptReverseDccSend_eq, run_bind_of_error hrun]
      trivial

end offers

section acknowledgements
variable {env : Env} {s : Client} (h : Level p content s)
include h

theorem acceptResume_levels (hasked : p.asked < 2 ^ 64) {port position : ℕ}
    (hposition : ∀ d, newestByPort s port = some d → d.id = p.id →
      d.state = .waitingForResumeAck → position = p.asked) :
    Ensures (fun t => t = s) (acceptResume env port position) (fun _ => Level p content)
      fun _ => True := by
  rintro t rfl
  by_cases hwaiting : ∃ d, newestByPort t port = some d ∧ d.state = .waitingForResumeAck
  · obtain ⟨d, hf, hstate⟩ := hwaiting
    have hmem : d ∈ t.dccSessions := List.mem_of_find?_eq_some hf
    have hoffset (hown : d.id = p.id) : position = u64 content.length := by
      rw [(h.sessions d hmem).waits hown hstate, u64, Nat.mod_eq_of_lt hasked]
      exact hposition d hf hown hstate
    have hacknowledged : Level p content (acknowledgedSession t d.id position) := by
      refine withNet_level (h.sessionOp t.net (fun e he hid _ => ?_) []) _
      exact ⟨fun hown _ => hoffset (hid.symm.trans hown),
        fun _ hwaits => absurd hwaits (by simp [resumed])⟩
    have hcount : CountsFile p content d.id (acknowledgedSession t d.id position) := by
      intro hown e he hid
      rcases mem_updateSession he with ⟨e', -, -, rfl⟩ | ⟨-, hne⟩
      · exact hoffset hown
      · exact absurd hid hne
    rw [acceptResume_run_of_waiting hf hstate]
    generalize acknowledgedSession t d.id position = u at hacknowledged hcount
    have hlevel (cb : Option Callback) : Level p content (called u d.id cb) :=
      hacknowledged.same rfl rfl
    cases hd : u.dccSessions.find? (fun e => decide (e.id = d.id)) with
    | none =>
      simp only [callCb, EStateM.run_bind, EStateM.run_get, hd]
      exact hacknowledged
    | some e =>
      cases hcb : e.cb with
      | none =>
        rw [callCb_run_of_null hd hcb]
        trivial
      | some cb =>
        cases cb with
        | callbackDccRecvFile =>
          rw [callCb_run_of_recvFile hd hcb, callbackDccRecvFile_run_of_none]
          exact hlevel _
        | callbackDccResumeFile =>
          rw [callCb_run_of_resumeFile hd hcb]
          exact callbackDccResumeFile_levels env e.ctx position _ ⟨hcount, hlevel _⟩
  · have hnot : ∀ d, newestByPort t port = some d → d.state ≠ .waitingForResumeAck :=
      fun d hf hstate => hwaiting ⟨d, hf, hstate⟩
    obtain ⟨net, hrun⟩ := @acceptResume_run_of_not_waiting t env position port hnot
    rw [hrun]
    exact withNet_level h net

theorem acceptResumeReverse_levels (nick : Option Bytes) (size token : ℕ) :
    Ensures (fun t => t = s) (acceptResumeReverse env nick size token) (fun _ => Level p content)
      fun _ => True := by
  rintro t rfl
  cases hf : t.dccSessions.find? (fun d => d.passiveConnection && decide (d.token = token)) with
  | none =>
    rw [acceptResumeReverse_eq, libircFindDccSessionByToken,
      run_bind_of_ok (libircFind_run_of_none hf true)]
    exact h
  | some d =>
    by_cases hstate : d.state = .waitingForResumeAck
    · have hfound : (t.dccSessions.find? fun e => decide (e.id = d.id)).isSome :=
        List.find?_isSome.mpr ⟨d, List.mem_of_find?_eq_some hf, by simp⟩
      obtain ⟨d', hd'⟩ := Option.isSome_iff_exists.mp hfound
      obtain ⟨fault, t', hrun, -⟩ := acceptResumeReverse_halts hf hstate hd' env nick size
      rw [hrun]
      trivial
    · rw [acceptResumeReverse_eq, libircFindDccSessionByToken,
        run_bind_of_ok (libircFind_run_of_some hf)]
      simp only [ne_eq, hstate, not_false_eq_true, if_true]
      exact withNet_level h _

end acknowledgements

/-- An acknowledgement that reaches the session states the position that was asked for. -/
def AsAsked (id asked : ℕ) (s : Client) : Event → Prop
  | .request _ nick req => ∀ verified port position d,
      isValidRequestFromNick s.cfg nick = some verified →
      dccRequestCall verified req = .acceptResume port position → newestByPort s port = some d →
      d.id = id → d.state = .waitingForResumeAck → position = asked
  | _ => True

def announcedSize : DccCall → Option ℕ
  | .acceptReverseDccSend _ _ size _ _ => some size
  | .acceptDccSend _ _ size _ _ => some size
  | _ => none

section steps
variable {s : Client} (hasked : p.asked < 2 ^ 64) (h : Level p content s)
include hasked h

theorem libircDccRequest_levels (hsound : SoundCounts s) {env : Env} {nick : Option Bytes}
    {req : Bytes} (hposition : AsAsked p.id p.asked s (.request env nick req))
    (hoffer : ∀ verified filename size, isValidRequestFromNick s.cfg nick = some verified →
      (dccRequestCall verified req).filename = some filename →
      announcedSize (dccRequestCall verified req) = some size →
      Announces p content filename size s.dccLastId s) :
    Ensures (fun t => t = s) (libircDccRequest env nick req) (fun _ => Level p content)
      fun _ => True := by
  refine ensures_get_bind fun t ht => ?_
  subst ht
  cases hverified : isValidRequestFromNick t.cfg nick with
  | none => exact ensures_throw fun _ _ => trivial
  | some verified =>
    have hnew := hsound.1.id_lt
    have hann := hoffer verified
    dsimp only
    cases hcall : dccRequestCall verified req with
    | acceptReverseDccSend filename ip size token ssl =>
      rw [hcall] at hann
      exact acceptReverseDccSend_levels (hann filename size hverified rfl rfl) h hnew nick ip
        token ssl
    | acceptDccSend filename ip size port ssl =>
      rw [hcall] at hann
      exact acceptDccSend_levels (hann filename size hverified rfl rfl) h hnew nick ip port
        ssl
    | acceptResumeReverse size token => exact acceptResumeReverse_levels h nick size token
    | acceptResume port position =>
      refine acceptResume_levels h hasked fun d hd hown hstate => ?_
      exact hposition verified port position d hverified hcall hd hown hstate
    | unhandled => exact ensures_pure fun _ ht => ht ▸ h
    | ignored => exact ensures_pure fun _ ht => ht ▸ h

omit hasked in
theorem removeDccSessions_levels :
    Ensures (fun t => t = s) removeDccSessions (fun _ => Level p content) fun _ => True := by
  refine ensures_modify fun t ht => ?_
  subst ht
  exact ⟨h.asked_le, fun d hd => h.sessions d (List.mem_of_mem_filter hd), h.context⟩

omit hasked in
theorem outputAllProgesses_levels :
    Ensures (fun t => t = s) outputAllProgesses (fun _ => Level p content) fun _ => True := by
  refine ensures_modify fun t ht => ?_
  subst ht
  refine ⟨h.asked_le, h.sessions, fun c hc => ?_⟩
  rw [List.getElem?_map] at hc
  obtain ⟨c', hold, rfl⟩ := Option.map_eq_some_iff.mp hc
  obtain ⟨hsize, hfd⟩ := h.context c' hold
  exact ⟨(DownloadTurns.outputProgress_completeFileSize _).trans hsize, hfd⟩

theorem handle_levels {e : Event} (hs : s.halted = none) (hsound : SoundCounts s)
    (hstores : Stores p.toWatched content s) (hposition : AsAsked p.id p.asked s e) :
    Ensures (fun t => t = s) (handle e) (fun _ => Level p (content ++ arriving p.id s e))
      fun _ => True := by
  cases e with
  | request env nick req =>
    -- the offer is another one: the download that is watched has its session and its context
    have hoffer (filename : Bytes) (size : ℕ) :
        Announces p content filename size s.dccLastId s := by
      have hother : s.dccLastId ≠ p.id := hstores.newer.ne'
      exact {
        pairs := iff_of_false hother hstores.older.ne'
        size_eq := fun hown => absurd hown hother
        content_eq := fun hown => absurd hown hother
        asked_eq := fun hown => absurd hown hother
        fresh := fun hown => absurd hown hother }
    rw [show arriving p.id s (.request env nick req) = [] from rfl, List.append_nil]
    exact libircDccRequest_levels hasked h hsound hposition fun _ filename size _ _ _ =>
      hoffer filename size
  | addDescriptors =>
    rw [show arriving p.id s .addDescriptors = [] from rfl, List.append_nil]
    exact removeDccSessions_levels h
  | outputTimer =>
    rw [show arriving p.id s .outputTimer = [] from rfl, List.append_nil]
    exact outputAllProgesses_levels h
  | socket i ready =>
    let s₁ := withNet s (lockedNet s.net)
    have hsound₁ : SoundCounts s₁ := ⟨hsound.1.changeNet _, hsound.2.same rfl rfl⟩
    have hlock : Ensures (fun t => t = s) libircMutexLock (fun _ t => t = s₁) fun _ => True := by
      rintro t rfl
      rfl
    refine ensures_bind hlock fun _ => ?_
    have hturn := processDescriptor_levels (s := s₁) (i := i) hs hsound₁
      (withNet_stores hstores _) (withNet_level h _) ready
    exact ensures_bind hturn fun _ => ensures_modify fun _ ht => ht.same rfl rfl

end steps

theorem run_levels {s : Client} {events : List Event} (hasked : p.asked < 2 ^ 64)
    (hsound : CountsRun s) (hstores : Stores p.toWatched content s) (h : Level p content s)
    (helse : ∀ e ∈ events, Elsewhere p.cfg p.path e)
    (hposition : AllAlong step (AsAsked p.id p.asked) s events)
    (hend : (run step s events).halted = none) :
    Level p (content ++ concatAlong step (arriving p.id) s events) (run step s events) := by
  induction events generalizing s content with
  | nil =>
    rw [concatAlong, List.append_nil]
    exact h
  | cons e events ih =>
    have hnext : (step s e).halted = none := running_of_run hend
    have hs := running_of_step hnext
    have hfile := step_of_ensures hs
      (handle_stores hs (hsound hs) hstores (helse e List.mem_cons_self)) hnext
    have hlevel := step_of_ensures hs
      (handle_levels hasked h hs (hsound hs) hstores hposition.1) hnext
    rw [concatAlong, ← List.append_assoc]
    exact ih (countsRun_step e hsound) hfile hlevel
      (fun e' he' => helse e' (List.mem_cons_of_mem e he')) hposition.2 hend

end programs

/-- The file `F` is offered, and what is there of it is its beginning. -/
structure Offered (s : Client) (env : Env) (nick : Option Bytes) (req filename F : Bytes) :
    Prop where
  taken : TakenUp s env nick req filename
  announced : announcedSize (dccRequestCall true req) = some F.length
  size_lt : F.length < 2 ^ 64
  there : fileContent s (getCompletePath s.cfg filename) <+: F

def nextExpected (s : Client) (filename : Bytes) (size : ℕ) : Expected :=
  { toWatched := nextDownload s filename
    size := size
    asked := (fileContent s (getCompletePath s.cfg filename)).length }

section runs
variable {s : Client} {env : Env} {nick : Option Bytes} {req filename F : Bytes}

theorem step_levels (hsound : SoundCounts s) (h : Offered s env nick req filename F)
    (hend : (step s (.request env nick req)).halted = none) :
    Level (nextExpected s filename F.length) (fileContent s (getCompletePath s.cfg filename))
      (step s (.request env nick req)) := by
  let p := nextExpected s filename F.length
  have hold (d : DccSession) (hd : d ∈ s.dccSessions) : d.id ≠ p.id := (hsound.1.id_lt d hd).ne
  have hbefore : Level p (fileContent s (getCompletePath s.cfg filename)) s :=
    { asked_le := le_rfl
      sessions := fun d hd => even_of_other (hold d hd)
      context := fun c hc => absurd (List.getElem?_eq_some_iff.mp hc).1 (lt_irrefl _) }
  have hasked : p.asked < 2 ^ 64 := h.there.length_le.trans_lt h.size_lt
  obtain ⟨hs, hpermitted, -⟩ := h.taken.starts
  refine step_of_ensures hs (libircDccRequest_levels hasked hbefore hsound ?_ ?_) hend
  · intro verified port position d _ _ hd hown
    exact absurd hown (hold d (List.mem_of_find?_eq_some hd))
  · intro verified filename' size hverified hname hsize
    obtain rfl := Option.some.inj (hpermitted.symm.trans hverified)
    obtain rfl := Option.some.inj (h.taken.name.symm.trans hname)
    obtain rfl := Option.some.inj (h.announced.symm.trans hsize)
    exact ⟨iff_of_true rfl rfl, fun _ => rfl, fun _ => rfl, fun _ => rfl,
      fun _ d hd hid => absurd hid (hold d hd)⟩

theorem told_of_taken (hlisted : Listed s) (h : Offered s env nick req filename F)
    (hstores : Stores (nextDownload s filename)
      (fileContent s (getCompletePath s.cfg filename)) (step s (.request env nick req)))
    (hlevel : Level (nextExpected s filename F.length)
      (fileContent s (getCompletePath s.cfg filename)) (step s (.request env nick req))) :
    Told s.downloadContext.length (step s (.request env nick req)) := by
  have hc := List.getElem?_eq_getElem hstores.older
  refine ⟨_, hc, iff_of_false (fun hfd => ?_) (unfinished_of_starts hlisted h.taken.starts)⟩
  exact ((hlevel.context _ hc).2.mp hfd).2 rfl

theorem Level.finish_iff {p : Expected} {content : Bytes} (h : Level p content s)
    (htold : Told p.context s) (hsize : p.size = F.length) (hlt : F.length < 2 ^ 64)
    (hbegins : content <+: F) :
    .finish p.context ∈ s.trace ↔ content = F ∧ p.asked ≠ F.length := by
  obtain ⟨c, hc, hfinished⟩ := htold
  have hlength : u64 content.length = content.length :=
    Nat.mod_eq_of_lt (hbegins.length_le.trans_lt hlt)
  rw [← mem_finished, ← hfinished, (h.context c hc).2, hlength, hsize]
  constructor
  · rintro ⟨hwhole, hmissing⟩
    exact ⟨hbegins.eq_of_length hwhole, fun hasked => hmissing (hwhole.trans hasked.symm)⟩
  · rintro ⟨rfl, hmissing⟩
    exact ⟨rfl, hmissing.symm⟩

theorem listed_initial (cfg : XdccGetConfig) (net : Net) (files : Bytes → Option Bytes) :
    Listed (initial cfg net files) := by
  intro k hk
  exact absurd hk (by simp [initial, finished])

/-- The bot streams its file from the position that it was asked to start from, beside whatever
    other downloads there are. The local file is a prefix of it, and the download is recorded as
    finished exactly when the file is whole, and some of it had been missing. -/
theorem finished_iff_whole {cfg : XdccGetConfig} {net : Net} {files : Bytes → Option Bytes}
    {before after : List Event} (hs : s = run step (initial cfg net files) before)
    (h : Offered s env nick req filename F)
    (helse : ∀ e ∈ after, Elsewhere cfg (getCompletePath cfg filename) e)
    (hposition : AllAlong step
      (AsAsked s.dccLastId (fileContent s (getCompletePath cfg filename)).length)
      (step s (.request env nick req)) after)
    (hstream : concatAlong step (arriving s.dccLastId) s (.request env nick req :: after) <+:
      F.drop (fileContent s (getCompletePath cfg filename)).length)
    (hend : (run step s (.request env nick req :: after)).halted = none) :
    ∃ content, (run step s (.request env nick req :: after)).files (getCompletePath cfg filename) =
        some content ∧ content <+: F ∧
      (.finish s.downloadContext.length ∈ (run step s (.request env nick req :: after)).trace ↔
        content = F ∧ fileContent s (getCompletePath cfg filename) ≠ F) := by
  let Configured : Client → Prop := fun s => s.cfg = cfg
  have hkeeps : ∀ s e, CountsRun s → CountsRun (step s e) := fun _ e hs => countsRun_step e hs
  have hconfigured : ∀ s e, Configured s → Configured (step s e) :=
    fun s e hs => (cfg_step s e).trans hs
  have hsound : CountsRun s := hs ▸ run_invariant hkeeps (countsRun_initial cfg net files) before
  have hcfg : Configured s := hs ▸ run_invariant hconfigured rfl before
  have hlisted : Listed s := hs ▸ run_invariant listed_step (listed_initial cfg net files) before
  obtain rfl : s.cfg = cfg := hcfg
  have hnext : (step s (.request env nick req)).halted = none := running_of_run hend
  have hcounts := hsound (running_of_step hnext)
  have hasked : (nextExpected s filename F.length).asked < 2 ^ 64 :=
    h.there.length_le.trans_lt h.size_lt
  have hfile := step_stores hcounts h.taken hnext
  have hlevel := step_levels hcounts h hnext
  have htold := run_invariant told_step (told_of_taken hlisted h hfile hlevel) after
  have hstored := run_stores (countsRun_step _ hsound) hfile helse hend
  have hlevels := run_levels hasked (countsRun_step _ hsound) hfile hlevel helse hposition hend
  have hbegins : fileContent s (getCompletePath s.cfg filename) ++
      concatAlong step (arriving s.dccLastId) (step s (.request env nick req)) after <+: F := by
    obtain ⟨rest, hrest⟩ := h.there
    rw [← hrest, List.drop_left] at hstream
    rw [← hrest]
    exact (List.prefix_append_right_inj _).mpr hstream
  refine ⟨_, hstored.content, hbegins, ?_⟩
  refine (hlevels.finish_iff htold rfl h.size_lt hbegins).trans (and_congr_right fun _ => ?_)
  exact not_congr ⟨h.there.eq_of_length, congrArg List.length⟩

end runs

/-- Half of the file `one!` of the first bot is there. -/
def halfOfOne : Client :=
  initial twoBots connected (oneFile (bytes "d/a") (bytes "on"))

/-- The second bot offers its file, the first one acknowledges the half, and both send by turns. -/
def resumedByTurns : List Event :=
  [request "tob" "DCC SEND b 16909061 5001 4",
    .request readyEnv (some (bytes "bot")) (acceptText 5000 2), .socket 1 (.connecting true),
    .socket 2 (.connecting true),
    .socket 2 (.receiving [.data (chunkOf "2nd" (by decide) (by decide))]),
    .socket 1 (.receiving [.data (chunkOf "e!" (by decide) (by decide))]),
    .socket 2 (.confirming (.sent 4)), .socket 1 (.confirming (.sent 4))]

theorem offered_half : Offered halfOfOne readyEnv (some (bytes "bot"))
    (bytes "DCC SEND a 16909060 5000 4") (bytes "a") (bytes "one!") where
  taken := ⟨by decide +kernel, by decide +kernel, by simp [halfOfOne, initial]⟩
  announced := by decide +kernel
  size_lt := by decide
  there := by decide +kernel

theorem permitted_twoBots {nick : String} {verified : Bool}
    (hnick : isValidRequestFromNick twoBots (some (bytes nick)) = some true)
    (h : isValidRequestFromNick twoBots (some (bytes nick)) = some verified) : verified = true :=
  Option.some.inj (h.symm.trans hnick)

theorem elsewhere_resumedByTurns : ∀ e ∈ resumedByTurns, Elsewhere twoBots (bytes "d/a") e := by
  intro e he
  simp only [resumedByTurns, List.mem_cons, List.not_mem_nil, or_false] at he
  rcases he with rfl | rfl | rfl | rfl | rfl | rfl | rfl | rfl
  · intro verified name hverified hname
    obtain rfl := permitted_twoBots (by decide +kernel) hverified
    have hb : (dccRequestCall true (bytes "DCC SEND b 16909061 5001 4")).filename =
        some (bytes "b") := by decide +kernel
    obtain rfl := Option.some.inj (hb.symm.trans hname)
    decide +kernel
  · intro verified name hverified hname
    obtain rfl := permitted_twoBots (by decide +kernel) hverified
    have hnone : (dccRequestCall true (acceptText 5000 2)).filename = none := by decide +kernel
    exact absurd (hnone.symm.trans hname) (by simp)
  all_goals trivial

theorem asAsked_resumedByTurns {s : Client} (hs : s.cfg = twoBots) :
    AllAlong step (AsAsked 1 2) s resumedByTurns := by
  let Configured : Client → Prop := fun s => s.cfg = twoBots
  have hkeep : ∀ s e, Configured s → Configured (step s e) := fun s e h => (cfg_step s e).trans h
  have hiff : ∀ s e, Configured s → (AsAsked 1 2 s e ↔ (Configured s → AsAsked 1 2 s e)) :=
    fun s e h => ⟨fun hasked _ => hasked, fun hasked => hasked h⟩
  have hevents : ∀ e ∈ resumedByTurns, ∀ s, Configured s → AsAsked 1 2 s e := by
    intro e he
    simp only [resumedByTurns, List.mem_cons, List.not_mem_nil, or_false] at he
    rcases he with rfl | rfl | rfl | rfl | rfl | rfl | rfl | rfl
    · intro s hs verified port position d hverified hcall
      rw [hs] at hverified
      obtain rfl := permitted_twoBots (by decide +kernel) hverified
      have hsend : (dccRequestCall true (bytes "DCC SEND b 16909061 5001 4")).filename =
          some (bytes "b") := by decide +kernel
      rw [hcall] at hsend
      exact absurd hsend (by simp [DccCall.filename])
    · intro s hs verified port position d hverified hcall _ _ _
      rw [hs] at hverified
      obtain rfl := permitted_twoBots (by decide +kernel) hverified
      have haccept : dccRequestCall true (acceptText 5000 2) = .acceptResume 5000 2 := by
        decide +kernel
      exact (DccCall.acceptResume.inj (hcall.symm.trans haccept)).2
    all_goals exact fun _ _ => trivial
  refine (allAlong_congr hkeep hiff hs).mpr ?_
  exact (allAlong_of_forall hevents s).mono fun s e h => h s

theorem halfOfOne_reached : halfOfOne =
    run step (initial twoBots connected (oneFile (bytes "d/a") (bytes "on"))) [] := rfl

theorem finished_by_turns :
    (run step halfOfOne (request "bot" "DCC SEND a 16909060 5000 4" :: resumedByTurns)).files
        (bytes "d/a") = some (bytes "one!") ∧
      .finish 0 ∈ (run step halfOfOne
        (request "bot" "DCC SEND a 16909060 5000 4" :: resumedByTurns)).trace := by
  have hpath : getCompletePath twoBots (bytes "a") = bytes "d/a" := by decide +kernel
  have hthere : (fileContent halfOfOne (bytes "d/a")).length = 2 := by decide +kernel
  have hposition : AllAlong step
      (AsAsked halfOfOne.dccLastId (fileContent halfOfOne (bytes "d/a")).length)
      (step halfOfOne (request "bot" "DCC SEND a 16909060 5000 4")) resumedByTurns := by
    rw [hthere]
    exact asAsked_resumedByTurns (cfg_step _ _)
  obtain ⟨content, hcontent, -, hfinish⟩ := finished_iff_whole halfOfOne_reached offered_half
    (hpath ▸ elsewhere_resumedByTurns) (hpath ▸ hposition) (by decide +kernel) (by decide +kernel)
  have hwhole : (run step halfOfOne
      (request "bot" "DCC SEND a 16909060 5000 4" :: resumedByTurns)).files
        (getCompletePath twoBots (bytes "a")) = some (bytes "one!") := by decide +kernel
  refine ⟨hpath ▸ hwhole, hfinish.mpr ⟨?_, by decide +kernel⟩⟩
  exact Option.some.inj (hcontent.symm.trans hwhole)

end Xdccget.WholeFiles
