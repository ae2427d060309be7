import Xdccget.DownloadTable
import Xdccget.DownloadTurns
import Xdccget.ResumeAddressing

set_option autoImplicit false

/-!
# When the client says goodbye

The number of finished downloads is compared with the number of those that have
been offered so far. A request that no bot has answered yet does not count.
-/
namespace Xdccget.QuitTiming
open CText DccMessages ClientState DccSessions Downloads DccEvents HaltingPrograms SessionSpecs
  DownloadSpecs EventSpecs TableChanges StepRuns DownloadTable SessionCallbacks CallbackSteps
  ResumeAddressing DownloadTurns

section histories
variable {trace l : List Action}

def finishedContext : Action → Option ℕ
  | .finish context => some context
  | _ => none

def finished (trace : List Action) : List ℕ := trace.filterMap finishedContext

theorem finished_append_nil (h : ∀ a ∈ l, finishedContext a = none) :
    finished (trace ++ l) = finished trace := by
  unfold finished
  rw [List.filterMap_append, List.filterMap_eq_nil_iff.mpr h, List.append_nil]

theorem finished_append_finish (context : ℕ) (h : ∀ a ∈ l, finishedContext a = none) :
    finished (trace ++ .finish context :: l) = finished trace ++ [context] := by
  have hsplit : trace ++ .finish context :: l = (trace ++ [.finish context]) ++ l := by simp
  rw [hsplit, finished_append_nil h]
  simp [finished, finishedContext]

theorem mem_finished {context : ℕ} : context ∈ finished trace ↔ .finish context ∈ trace := by
  unfold finished
  rw [List.mem_filterMap]
  constructor
  · rintro ⟨a, ha, hcontext⟩
    cases a with
    | finish k =>
      obtain rfl : k = context := Option.some.inj hcontext
      exact ha
    | _ => exact absurd hcontext (by simp [finishedContext])
  · intro h
    exact ⟨_, h, rfl⟩

def AtQuit (P : List Action → Prop) (trace : List Action) : Prop :=
  ∀ before after, trace = before ++ .queued quitLine :: after → P before

theorem AtQuit.mono {P Q : List Action → Prop} (h : AtQuit P trace) (hPQ : ∀ t, P t → Q t) :
    AtQuit Q trace := fun before after ht => hPQ before (h before after ht)

theorem AtQuit.append {P : List Action → Prop} (h : AtQuit P trace)
    (hl : .queued quitLine ∉ l) : AtQuit P (trace ++ l) := by
  intro before after ht
  obtain ⟨after', ht'⟩ := exists_split_of_not_mem ht hl
  exact h before after' ht'

theorem AtQuit.quit {P : List Action → Prop} (h : AtQuit P trace) (hP : P trace) :
    AtQuit P (trace ++ [.queued quitLine]) := by
  intro before after ht
  rcases split_concat ht with ⟨rfl, -⟩ | ⟨after', htrace⟩
  · exact hP
  · exact h before after' htrace

def AllFinished (trace : List Action) : Prop := ∀ k ∈ stores trace, .finish k ∈ trace

/-- Distinct numbers below `n`, as many as `n`, are all of them. -/
theorem mem_of_nodup_of_length {ks : List ℕ} {n : ℕ} (hnodup : ks.Nodup) (hlt : ∀ k ∈ ks, k < n)
    (hlength : ks.length = n) {k : ℕ} (hk : k < n) : k ∈ ks := by
  have hsub : ks ⊆ List.range n := fun k hk => List.mem_range.mpr (hlt k hk)
  have hperm : ks.Perm (List.range n) := by
    apply (hnodup.subperm hsub).perm_of_length_le
    rw [List.length_range, hlength]
  exact hperm.mem_iff.mpr (List.mem_range.mpr hk)

theorem finishedContext_of_sessionAction {a : Action} (h : SessionAction a) :
    finishedContext a = none := by
  cases a <;> first | rfl | exact h.elim

theorem not_quit_of_sessionActions (h : ∀ a ∈ l, SessionAction a) : .queued quitLine ∉ l :=
  fun hmem => h _ hmem rfl

end histories

def Closed (s : Client) (k : ℕ) : Prop := ∃ c, s.downloadContext[k]? = some c ∧ c.fd = none

/-- The counters agree with what has happened, and every QUIT came when all of the stored
    downloads were finished. -/
structure Tallied (s : Client) : Prop where
  filled : Filled s.cfg s.numActiveDownloads s
  length_eq : s.downloadContext.length = s.numActiveDownloads
  count : s.finishedDownloads = (finished s.trace).length
  nodup : (finished s.trace).Nodup
  closed : ∀ k ∈ finished s.trace, Closed s k
  quits : AtQuit AllFinished s.trace

section tally
variable {s s' : Client} {context : ℕ}

theorem closed_modify {g : DccDownloadContext → DccDownloadContext}
    (hs' : s'.downloadContext = s.downloadContext.modify context g)
    {k : ℕ} (h : Closed s k) (hg : context = k → ∀ c, c.fd = none → (g c).fd = none) :
    Closed s' k := by
  obtain ⟨c, hc, hfd⟩ := h
  by_cases hk : context = k
  · refine ⟨g c, ?_, hg hk c hfd⟩
    rw [hs', hk, List.getElem?_modify_eq, hc]
    rfl
  · refine ⟨c, ?_, hfd⟩
    rw [hs', List.getElem?_modify, hc]
    simp [hk]

theorem ne_of_closed {k : ℕ} {c : DccDownloadContext} {fd : FileIo} (h : Closed s k)
    (hc : s.downloadContext[context]? = some c) (hfd : c.fd = some fd) : context ≠ k := by
  rintro rfl
  obtain ⟨c', hc', hfd'⟩ := h
  obtain rfl := Option.some.inj (hc.symm.trans hc')
  exact absurd (hfd.symm.trans hfd') (by simp)

theorem Tallied.keep (h : Tallied s) (hfilled : Filled s.cfg s.numActiveDownloads s')
    (hlength : s'.downloadContext.length = s.downloadContext.length)
    (hfinished : s'.finishedDownloads = s.finishedDownloads) {l : List Action}
    (htrace : s'.trace = s.trace ++ l) (hl : ∀ a ∈ l, finishedContext a = none)
    (hquit : .queued quitLine ∉ l) (hclosed : ∀ k, Closed s k → Closed s' k) : Tallied s' := by
  have hsame : finished s'.trace = finished s.trace := by rw [htrace, finished_append_nil hl]
  have hactive : s'.numActiveDownloads = s.numActiveDownloads := hfilled.2.1
  exact {
    filled := by
      rw [hfilled.1, hactive]
      exact hfilled
    length_eq := by rw [hlength, h.length_eq, hactive]
    count := by rw [hfinished, h.count, hsame]
    nodup := hsame ▸ h.nodup
    closed := fun k hk => hclosed k (h.closed k (hsame ▸ hk))
    quits := by
      rw [htrace]
      exact h.quits.append hquit }

theorem Tallied.lt {k : ℕ} (h : Tallied s) (hk : k ∈ finished s.trace) :
    k < s.numActiveDownloads := by
  obtain ⟨c, hc, -⟩ := h.closed k hk
  rw [← h.length_eq]
  exact (List.getElem?_eq_some_iff.mp hc).1

theorem allFinished_of_last (h : Tallied s) {c : DccDownloadContext} {fd : FileIo}
    (hc : s.downloadContext[context]? = some c) (hfd : c.fd = some fd)
    (hcount : s.finishedDownloads + 1 = s.numActiveDownloads) :
    AllFinished (s.trace ++ [.finish context]) := by
  have hfinished : finished (s.trace ++ [.finish context]) = finished s.trace ++ [context] :=
    finished_append_finish context (by simp)
  have hstores : stores (s.trace ++ [.finish context]) = List.range s.numActiveDownloads := by
    rw [stores_append_nil (by simp [storedIndex]), h.filled.2.2]
  have hlt : context < s.numActiveDownloads := by
    rw [← h.length_eq]
    exact (List.getElem?_eq_some_iff.mp hc).1
  intro k hk
  rw [hstores, List.mem_range] at hk
  rw [← mem_finished, hfinished]
  refine mem_of_nodup_of_length ?_ ?_ ?_ hk
  · rw [List.nodup_append]
    refine ⟨h.nodup, List.nodup_singleton _, fun j hj i hi => ?_⟩
    rw [List.mem_singleton.mp hi]
    exact (ne_of_closed (h.closed j hj) hc hfd).symm
  · intro j hj
    rcases List.mem_append.mp hj with hj | hj
    · exact h.lt hj
    · rw [List.mem_singleton.mp hj]
      exact hlt
  · rw [List.length_append, ← h.count]
    exact hcount

theorem tallied_of_complete (h : Tallied s) {c : DccDownloadContext} {fd : FileIo}
    (hc : s.downloadContext[context]? = some c) (hfd : c.fd = some fd) (net : Net)
    {l : List Action} (hl : CompletionActions s l)
    (hfilled : Filled s.cfg s.numActiveDownloads (completed s net context l)) :
    Tallied (completed s net context l) := by
  have hquiet : ∀ a ∈ l, finishedContext a = none := by
    cases hl <;> simp [finishedContext]
  have hfinished : finished (completed s net context l).trace = finished s.trace ++ [context] :=
    finished_append_finish context hquiet
  have hclosed {k : ℕ} (hk : Closed s k) : Closed (completed s net context l) k :=
    closed_modify rfl hk fun _ _ _ => rfl
  exact {
    filled := hfilled
    length_eq := by
      rw [completed_downloadContext, List.length_modify]
      exact h.length_eq
    count := by
      rw [hfinished, completed_finishedDownloads, h.count, List.length_append]
      rfl
    nodup := by
      rw [hfinished, List.nodup_append]
      refine ⟨h.nodup, List.nodup_singleton _, fun j hj i hi => ?_⟩
      rw [List.mem_singleton.mp hi]
      exact (ne_of_closed (h.closed j hj) hc hfd).symm
    closed := by
      intro k hk
      rw [hfinished] at hk
      rcases List.mem_append.mp hk with hk | hk
      · exact hclosed (h.closed k hk)
      · rw [List.mem_singleton.mp hk]
        refine ⟨DownloadSpecs.closed c, ?_, rfl⟩
        exact getElem?_modify_self hc _
    quits := by
      have hfinish : AtQuit AllFinished (s.trace ++ [.finish context]) :=
        h.quits.append (by simp)
      rw [completed_trace]
      cases hl with
      | nothing => exact hfinish
      | quit hverify hcount =>
        have hall := hfinish.quit (allFinished_of_last h hc hfd hcount)
        rw [List.append_assoc] at hall
        exact hall
      | checksum md5 path hverify =>
        have hall := hfinish.append (l := [.startChecksum md5 path]) (by simp)
        rw [List.append_assoc] at hall
        exact hall }

theorem tallied_of_change (h : Tallied s) (hc : Change true s s') : Tallied s' := by
  have hfilled := filled_of_change h.filled hc
  cases hc with
  | sessions net lastId ds hl =>
    exact h.keep hfilled rfl rfl rfl (fun a ha => finishedContext_of_sessionAction (hl a ha))
      (not_quit_of_sessionActions hl) fun _ hk => hk
  | chunk data hc hfd =>
    refine h.keep hfilled (List.length_modify _ _ _) rfl rfl (by simp [finishedContext]) (by simp) ?_
    intro k hk
    exact closed_modify rfl hk fun heq => absurd heq (ne_of_closed hk hc hfd)
  | lost length hc hfd =>
    refine h.keep hfilled (List.length_modify _ _ _) rfl rfl (by simp [finishedContext]) (by simp) ?_
    intro k hk
    have hkept : ∀ c, c.fd = none → (addRcvd length c).fd = none := fun _ hnone => hnone
    exact closed_modify rfl hk fun _ => hkept
  | complete hb net hc hfd hsize hl => exact tallied_of_complete h hc hfd net hl hfilled
  | rewind length hc hfd =>
    refine h.keep hfilled (List.length_modify _ _ _) rfl (List.append_nil _).symm (by simp) (by simp) ?_
    intro k hk
    exact closed_modify rfl hk fun heq => absurd heq (ne_of_closed hk hc hfd)
  | output =>
    refine h.keep hfilled (List.length_map _) rfl (List.append_nil _).symm (by simp) (by simp) ?_
    rintro k ⟨c, hc, hnone⟩
    refine ⟨{ c with progress := outputProgress c.progress }, ?_, hnone⟩
    rw [List.getElem?_map, hc]
    rfl
  | halt fault =>
    exact h.keep hfilled rfl rfl (List.append_nil _).symm (by simp) (by simp) fun _ hk => hk

theorem tallied_of_start (h : Tallied s) (progress : DccDownloadProgress) (fd : Option FileIo)
    (files : Bytes → Option Bytes) : Tallied (withDownload s progress fd files) := by
  have hstart : StartThen true s (withDownload s progress fd files) :=
    ⟨s, progress, fd, files, .refl, .refl⟩
  have hsame : finished (withDownload s progress fd files).trace = finished s.trace :=
    finished_append_nil (by simp [finishedContext])
  exact {
    filled := filled_of_start h.filled hstart
    length_eq := by
      rw [withDownload_downloadContext, List.length_append, h.length_eq]
      rfl
    count := by
      rw [hsame]
      exact h.count
    nodup := hsame ▸ h.nodup
    closed := by
      intro k hk
      rw [hsame] at hk
      obtain ⟨c, hc, hnone⟩ := h.closed k hk
      refine ⟨c, ?_, hnone⟩
      have hlt := (List.getElem?_eq_some_iff.mp hc).1
      rw [withDownload_downloadContext, List.getElem?_append_left hlt]
      exact hc
    quits := h.quits.append (by simp) }

theorem tallied_step (h : Tallied s) (e : Event) : Tallied (step s e) :=
  step_keeps (fun _ _ h hc => tallied_of_change h hc)
    (fun _ progress fd files h => tallied_of_start h progress fd files) s e h

theorem tallied_initial (cfg : XdccGetConfig) (net : Net) (files : Bytes → Option Bytes) :
    Tallied (initial cfg net files) where
  filled := filled_initial cfg net files
  length_eq := rfl
  count := rfl
  nodup := List.nodup_nil
  closed := fun k hk => absurd hk List.not_mem_nil
  quits := by
    intro before after h
    exact absurd h (by simp [initial])

end tally

def CompletesWith (s : Client) (ctx : Option ℕ) (chunks : List Chunk) : Prop :=
  ∃ context c fd, ctx = some context ∧ s.downloadContext[context]? = some c ∧ c.fd = some fd ∧
    ∃ first, first ≠ [] ∧ first <+: chunks ∧
      u64 (c.progress.sizeRcvd + (chunksData first).length) = c.progress.completeFileSize

def Completes (s : Client) : Event → Prop
  | .socket id (.receiving results) =>
    s.halted = none ∧ ∃ d, s.dccSessions.find? (fun d => d.id = id) = some d ∧
      d.state = .connected ∧ d.cb = some .callbackDccRecvFile ∧
        CompletesWith s d.ctx (arrivingChunks d.ssl results)
  | _ => False

def eventContext (s : Client) : Event → Option ℕ
  | .socket id _ => (s.dccSessions.find? fun d => d.id = id).bind (·.ctx)
  | _ => none

/-- One download ends between the two states, that of the context. -/
inductive Completion (ctx : Option ℕ) (s s' : Client) : Prop
  | of {t : Client} {context : ℕ} {net : Net} {l : List Action} (hctx : ctx = some context)
      (hbefore : Changes false s t) (hl : CompletionActions t l)
      (hafter : Changes false (completed t net context l) s')

inductive ChunkOutcome (s s' : Client) (ctx : Option ℕ) (length : ℕ) : Prop
  | ignored (hctx : ctx = none) (h : Changes false s s')
  | stored {context : ℕ} {c : DccDownloadContext} {fd : FileIo} (hctx : ctx = some context)
      (hc : s.downloadContext[context]? = some c) (hfd : c.fd = some fd)
      (hsize : u64 (c.progress.sizeRcvd + length) ≠ c.progress.completeFileSize)
      (hget : s'.downloadContext[context]? = some (receivedInto fd length c))
      (h : Changes false s s')
  | last {context : ℕ} {c : DccDownloadContext} {fd : FileIo} (hctx : ctx = some context)
      (hc : s.downloadContext[context]? = some c) (hfd : c.fd = some fd)
      (hsize : u64 (c.progress.sizeRcvd + length) = c.progress.completeFileSize)
      (hclosed : Closed s' context) (h : Completion ctx s s')

section completion
variable {s s' : Client} {id : ℕ} {d : DccSession} {ctx : Option ℕ}

theorem Completion.head {t : Client} (h : Changes false s t) (h' : Completion ctx t s') :
    Completion ctx s s' := by
  cases h' with
  | of hctx hbefore hl hafter => exact .of hctx (h.trans hbefore) hl hafter

theorem Completion.trans {t : Client} (h : Completion ctx s t) (h' : Changes false t s') :
    Completion ctx s s' := by
  cases h with
  | of hctx hbefore hl hafter => exact .of hctx hbefore hl (hafter.trans h')

theorem arrived_changes (s : Client) (id length : ℕ) : Changes false s (arrived s id length) :=
  sessionOp_changes s _ id _ (by simp [SessionAction])

theorem confirming_changes (s : Client) (id : ℕ) : Changes false s (confirming s id) :=
  sessionOp_changes s _ id _ (by simp)

theorem find?_confirming_arrived (hd : s.dccSessions.find? (fun d => d.id = id) = some d)
    (length : ℕ) {t : Client} (ht : t.dccSessions = (arrived s id length).dccSessions) :
    ∃ d', (confirming t id).dccSessions.find? (fun d => d.id = id) = some d' ∧ d'.cb = d.cb ∧
      d'.ctx = d.ctx ∧ d'.ssl = d.ssl := by
  have harrived : t.dccSessions.find? (fun d => d.id = id) = some (withOffset length d) := by
    rw [ht]
    exact find?_sessionOp hd _ (by exact fun _ => rfl) _
  exact ⟨_, find?_sessionOp harrived _ (by exact fun _ => rfl) _, rfl, rfl, rfl⟩

theorem not_completesWith_of_closed {context : ℕ} {chunks : List Chunk} (h : Closed s context) :
    ¬ CompletesWith s (some context) chunks := by
  rintro ⟨_, c, fd, hcontext, hc, hfd, -⟩
  obtain rfl := Option.some.inj hcontext
  exact ne_of_closed h hc hfd rfl

theorem receiveChunk_cases (hd : s.dccSessions.find? (fun d => d.id = id) = some d)
    (hcb : d.cb = some .callbackDccRecvFile) (chunk : Chunk) :
    (∃ fault t, (receiveChunk id chunk).run s = .error fault t ∧
      (∀ chunks, ¬ CompletesWith s d.ctx chunks) ∧ Changes false s t) ∨
    ∃ t, (receiveChunk id chunk).run s = .ok ⟨⟩ t ∧
      (∃ d', t.dccSessions.find? (fun d => d.id = id) = some d' ∧ d'.cb = d.cb ∧ d'.ctx = d.ctx ∧
        d'.ssl = d.ssl) ∧
      ChunkOutcome s t d.ctx chunk.data.length := by
  have hpos := chunk.pos
  have harrived := arrived_changes s id chunk.data.length
  have hfind {t : Client} (ht : t.dccSessions = (arrived s id chunk.data.length).dccSessions) :=
    find?_confirming_arrived hd chunk.data.length ht
  rw [receiveChunk_run hd hcb]
  cases hctx : d.ctx with
  | none =>
    have hrun : (callbackDccRecvFile libircErrOk none (some chunk.data) chunk.data.length).run
        (arrived s id chunk.data.length) = .ok ⟨⟩ (arrived s id chunk.data.length) := rfl
    rw [run_bind_of_ok hrun, afterChunk_run]
    exact .inr ⟨_, rfl, hctx ▸ hfind rfl, .ignored rfl (harrived.trans (confirming_changes _ id))⟩
  | some context =>
    cases hc : s.downloadContext[context]? with
    | none =>
      refine .inl ⟨.nullContext, _, run_bind_of_error ?_, ?_, harrived⟩
      · exact callbackDccRecvFile_run_of_missing hc hpos
      · rintro chunks ⟨k, c, fd, hk, hget, -⟩
        obtain rfl := Option.some.inj hk
        exact absurd (hc.symm.trans hget) (by simp)
    | some c =>
      have hc₁ : (arrived s id chunk.data.length).downloadContext[context]? = some c := hc
      cases hfd : c.fd with
      | none =>
        refine .inl ⟨.nullFile, _, run_bind_of_error
          (callbackDccRecvFile_run_of_closed hc₁ hfd hpos), ?_, harrived.tail (.lost _ hc₁ hfd)⟩
        exact fun chunks => not_completesWith_of_closed ⟨c, hc, hfd⟩
      | some fd =>
        have hstored : Changes false s
            (chunkOp (arrived s id chunk.data.length) context fd chunk.data) :=
          harrived.tail (.chunk _ hc₁ hfd)
        by_cases hsize : u64 (c.progress.sizeRcvd + chunk.data.length) = c.progress.completeFileSize
        · obtain ⟨net, l, hrun, hl⟩ := callbackDccRecvFile_run_of_last hc₁ hfd hpos hsize
          rw [run_bind_of_ok hrun, afterChunk_run]
          refine .inr ⟨_, rfl, hctx ▸ hfind rfl, .last rfl hc hfd hsize ?_
            (.of rfl hstored hl (confirming_changes _ id))⟩
          exact ⟨_, getElem?_modify_self (getElem?_modify_self hc₁ _) closed, rfl⟩
        · rw [run_bind_of_ok (callbackDccRecvFile_run_of_unfinished hc₁ hfd hpos hsize),
            afterChunk_run]
          exact .inr ⟨_, rfl, hctx ▸ hfind rfl, .stored rfl hc hfd hsize
            (getElem?_modify_self hc₁ _) (hstored.trans (confirming_changes _ id))⟩

theorem completesWith_cons {t : Client} {context : ℕ} {c : DccDownloadContext} {fd : FileIo}
    {chunk : Chunk} {chunks : List Chunk} (hc : s.downloadContext[context]? = some c)
    (hfd : c.fd = some fd)
    (hget : t.downloadContext[context]? = some (receivedInto fd chunk.data.length c))
    (h : CompletesWith t (some context) chunks) :
    CompletesWith s (some context) (chunk :: chunks) := by
  obtain ⟨_, c', fd', hcontext, hc', hfd', first, hne, hfirst, hsize⟩ := h
  obtain rfl := Option.some.inj hcontext
  obtain rfl := Option.some.inj (hget.symm.trans hc')
  refine ⟨context, c, fd, rfl, hc, hfd, chunk :: first, List.cons_ne_nil _ _,
    List.cons_prefix_cons.mpr ⟨rfl, hfirst⟩, ?_⟩
  rw [chunksData_cons, List.length_append]
  simp only [receivedInto, u64] at hsize ⊢
  omega

theorem completesWith_tail {t : Client} {context : ℕ} {c : DccDownloadContext} {fd : FileIo}
    {chunk : Chunk} {chunks : List Chunk} (hc : s.downloadContext[context]? = some c)
    (hsize : u64 (c.progress.sizeRcvd + chunk.data.length) ≠ c.progress.completeFileSize)
    (hget : t.downloadContext[context]? = some (receivedInto fd chunk.data.length c))
    (h : CompletesWith s (some context) (chunk :: chunks)) :
    CompletesWith t (some context) chunks := by
  obtain ⟨_, c', fd', hcontext, hc', -, first, hne, hfirst, hsum⟩ := h
  obtain rfl := Option.some.inj hcontext
  obtain rfl := Option.some.inj (hc.symm.trans hc')
  cases first with
  | nil => exact absurd rfl hne
  | cons other first =>
    obtain ⟨rfl, hrest⟩ := List.cons_prefix_cons.mp hfirst
    rw [chunksData_cons, List.length_append] at hsum
    refine ⟨context, _, _, rfl, hget, rfl, first, ?_, hrest, ?_⟩
    · rintro rfl
      exact hsize (by simpa [chunksData] using hsum)
    · simp only [receivedInto, u64] at hsum ⊢
      omega

theorem completesWith_first {context : ℕ} {c : DccDownloadContext} {fd : FileIo} {chunk : Chunk}
    (chunks : List Chunk) (hc : s.downloadContext[context]? = some c) (hfd : c.fd = some fd)
    (hsize : u64 (c.progress.sizeRcvd + chunk.data.length) = c.progress.completeFileSize) :
    CompletesWith s (some context) (chunk :: chunks) := by
  refine ⟨context, c, fd, rfl, hc, hfd, [chunk], List.cons_ne_nil _ _, ?_, ?_⟩
  · exact List.cons_prefix_cons.mpr ⟨rfl, List.nil_prefix⟩
  · rw [chunksData_cons]
    simpa [chunksData] using hsize

theorem not_completesWith_nil : ¬ CompletesWith s ctx [] := by
  rintro ⟨k, c, fd, -, -, -, first, hne, hfirst, -⟩
  exact hne (List.prefix_nil.mp hfirst)

theorem recvDccFile_cases (ssl : Bool) (results : List RecvResult)
    (hd : s.dccSessions.find? (fun d => d.id = id) = some d)
    (hcb : d.cb = some .callbackDccRecvFile) (hctx : d.ctx = ctx) :
    (¬ CompletesWith s ctx (arrivingChunks ssl results) ∧
        Changes false s (endState (recvDccFile id ssl results) s)) ∨
      (CompletesWith s ctx (arrivingChunks ssl results) ∧
        Completion ctx s (endState (recvDccFile id ssl results) s)) := by
  induction results generalizing s d with
  | nil => exact .inl ⟨not_completesWith_nil, .refl⟩
  | cons result more ih =>
    cases result with
    | again =>
      cases ssl with
      | true => exact .inl ⟨not_completesWith_nil, .refl⟩
      | false => exact ih hd hcb hctx
    | wantWrite =>
      cases ssl with
      | true => exact .inl ⟨not_completesWith_nil, modifySession_moves id _ s⟩
      | false => exact ih hd hcb hctx
    | error => exact .inl ⟨not_completesWith_nil, receiveFailed_moves id _ s⟩
    | closed => exact .inl ⟨not_completesWith_nil, receiveFailed_moves id _ s⟩
    | data chunk =>
      rcases receiveChunk_cases hd hcb chunk with ⟨fault, t, hrun, hnever, ht⟩ |
        ⟨t, hrun, ⟨d', hd', hcb', hctx', -⟩, houtcome⟩
      · rw [recvDccFile_data, endState_bind_of_error hrun]
        exact .inl ⟨hctx ▸ hnever _, ht⟩
      · rw [hctx] at houtcome
        have hrest : (¬ CompletesWith t ctx (if ssl then arrivingChunks ssl more else []) ∧
              Changes false t (endState (recvDccFile id ssl (.data chunk :: more)) s)) ∨
            (CompletesWith t ctx (if ssl then arrivingChunks ssl more else []) ∧
              Completion ctx t (endState (recvDccFile id ssl (.data chunk :: more)) s)) := by
          rw [recvDccFile_data, endState_bind_of_ok hrun]
          cases ssl with
          | true => exact ih hd' (hcb'.trans hcb) (hctx'.trans hctx)
          | false => exact .inl ⟨not_completesWith_nil, .refl⟩
        rw [arrivingChunks]
        cases houtcome with
        | ignored hnone h =>
          rcases hrest with ⟨-, hrest⟩ | ⟨⟨_, _, _, hsome, -⟩, -⟩
          · refine .inl ⟨?_, h.trans hrest⟩
            rintro ⟨_, _, _, hsome, -⟩
            exact absurd (hnone.symm.trans hsome) (by simp)
          · exact absurd (hnone.symm.trans hsome) (by simp)
        | stored hsome hc hfd hsize hget h =>
          subst hsome
          rcases hrest with ⟨hnot, hrest⟩ | ⟨hcompletes, hrest⟩
          · exact .inl ⟨fun hall => hnot (completesWith_tail hc hsize hget hall), h.trans hrest⟩
          · exact .inr ⟨completesWith_cons hc hfd hget hcompletes, hrest.head h⟩
        | last hsome hc hfd hsize hclosed h =>
          subst hsome
          rcases hrest with ⟨-, hrest⟩ | ⟨hcompletes, -⟩
          · exact .inr ⟨completesWith_first _ hc hfd hsize, h.trans hrest⟩
          · exact absurd hcompletes (not_completesWith_of_closed hclosed)

end completion

section steps
variable {s s' : Client} {id : ℕ}

theorem processDescriptor_changes {d : DccSession} {ready : SocketReady}
    (hd : s.dccSessions.find? (fun d => d.id = id) = some d)
    (hno : ∀ results, d.state = .connected → ready ≠ .receiving results) :
    Changes false s (endState (processDescriptor id ready) s) := by
  have hfind := libircFind_run_nolock (fun d => decide (d.id = id)) s
  rw [hd] at hfind
  rw [processDescriptor_eq, libircFindDccSession, endState_bind_of_ok hfind]
  dsimp only
  split
  · exact moves_ite (modifySession_moves _ _) (libircDccDestroyNolock_moves id) s
  · next results hstate => exact absurd rfl (hno results hstate)
  · exact sendCurrentFileOffsetToSender_moves d _ s
  · exact modifySession_moves _ _ s
  · exact .refl

theorem processDescriptor_changes_of_none
    (hd : s.dccSessions.find? (fun d => d.id = id) = none) (ready : SocketReady) :
    Changes false s (endState (processDescriptor id ready) s) := by
  have hfind := libircFind_run_nolock (fun d => decide (d.id = id)) s
  rw [hd] at hfind
  rw [processDescriptor_eq, libircFindDccSession, endState_bind_of_ok hfind]
  exact .refl

/-- The data of a connected session goes to `callback_dcc_recv_file`. -/
theorem Sound.cb_of_connected (h : Sound s) {d : DccSession}
    (hd : s.dccSessions.find? (fun d => d.id = id) = some d) (hstate : d.state = .connected) :
    d.cb = some .callbackDccRecvFile :=
  ((h.ready d (List.mem_of_find?_eq_some hd)).awaits (.data .callbackDccRecvFile)
    (by simp [awaited, hstate])).1

theorem not_completes_of_find {d : DccSession} {ready : SocketReady}
    (hd : s.dccSessions.find? (fun d => d.id = id) = some d)
    (hno : ∀ results, d.state = .connected → ready ≠ .receiving results) :
    ¬ Completes s (.socket id ready) := by
  cases ready with
  | receiving results =>
    rintro ⟨-, d', hd', hstate, -⟩
    obtain rfl := Option.some.inj (hd.symm.trans hd')
    exact hno results hstate rfl
  | _ => exact fun h => h

theorem not_completes_of_find_none (hd : s.dccSessions.find? (fun d => d.id = id) = none)
    (ready : SocketReady) : ¬ Completes s (.socket id ready) := by
  cases ready with
  | receiving results =>
    rintro ⟨-, d, hd', -⟩
    exact absurd (hd.symm.trans hd') (by simp)
  | _ => exact fun h => h

theorem processDescriptor_cases (id : ℕ) (hs : s.halted = none) (hsound : Sound s)
    (ready : SocketReady) :
    (¬ Completes s (.socket id ready) ∧
        Changes false s (endState (processDescriptor id ready) s)) ∨
      (Completes s (.socket id ready) ∧
        Completion (eventContext s (.socket id ready)) s
          (endState (processDescriptor id ready) s)) := by
  cases hd : s.dccSessions.find? (fun d => d.id = id) with
  | none =>
    exact .inl ⟨not_completes_of_find_none hd ready, processDescriptor_changes_of_none hd ready⟩
  | some d =>
    by_cases hrecv : ∃ results, d.state = .connected ∧ ready = .receiving results
    · obtain ⟨results, hstate, rfl⟩ := hrecv
      have hcb := Sound.cb_of_connected hsound hd hstate
      have hend : endState (processDescriptor id (.receiving results)) s =
          endState (recvDccFile id d.ssl results) s := by
        unfold endState
        rw [DownloadTurns.processDescriptor_run_of_receiving hd hstate]
      rw [hend]
      have hturn := recvDccFile_cases d.ssl results hd hcb rfl
      rcases hturn with ⟨hnot, h⟩ | ⟨hcompletes, h⟩
      · refine .inl ⟨?_, h⟩
        rintro ⟨-, d', hd', -, -, hcompletes⟩
        obtain rfl := Option.some.inj (hd.symm.trans hd')
        exact hnot hcompletes
      · refine .inr ⟨⟨hs, d, hd, hstate, hcb, hcompletes⟩, ?_⟩
        rw [eventContext, hd]
        exact h
    · have hno : ∀ results, d.state = .connected → ready ≠ .receiving results :=
        fun results hstate hready => hrecv ⟨results, hstate, hready⟩
      exact .inl ⟨not_completes_of_find hd hno, processDescriptor_changes hd hno⟩

theorem step_cases {e : Event} (hstarts : ¬ StartsDownload s e)
    (hsound : s.halted = none → Sound s) :
    (¬ Completes s e ∧ Changes false s (step s e)) ∨
      (Completes s e ∧ Completion (eventContext s e) s (step s e)) := by
  cases hs : s.halted with
  | some fault =>
    rw [step_of_halted hs]
    refine .inl ⟨fun h => ?_, .refl⟩
    cases e with
    | socket id ready =>
      cases ready with
      | receiving results => exact absurd (hs.symm.trans h.1) (by simp)
      | _ => exact h
    | _ => exact h
  | none =>
    have hstep : Changes false (endState (handle e) s) (step s e) := step_changes_handle hs e
    cases e with
    | request env nick req => exact .inl ⟨fun h => h, ((request_cases hs).2 hstarts).trans hstep⟩
    | addDescriptors => exact .inl ⟨fun h => h, (removeDccSessions_moves s).trans hstep⟩
    | outputTimer => exact .inl ⟨fun h => h, .head (.output s) hstep⟩
    | socket dccid ready =>
      let t := withNet s (lockedNet s.net)
      have hlock : Changes false s t := withNet_changes s _
      have hsoundLocked : Sound t := (hsound hs).changeNet _
      have hend : endState (handle (.socket dccid ready)) s =
          endState (processDescriptor dccid ready >>= fun _ => libircMutexUnlock) t := by
        have hrun : libircMutexLock.run s = .ok ⟨⟩ t := rfl
        exact endState_bind_of_ok hrun
      have hunlock : Changes false (endState (processDescriptor dccid ready) t) (step s _) :=
        Relation.ReflTransGen.trans
          (endState_bind_moves Changes.refl' (fun _ => unlock_moves) t) (hend ▸ hstep)
      have hcases := processDescriptor_cases (s := t) dccid hs hsoundLocked ready
      rcases hcases with ⟨hnot, h⟩ | ⟨hcompletes, h⟩
      · exact .inl ⟨hnot, (hlock.trans h).trans hunlock⟩
      · exact .inr ⟨hcompletes, (h.head hlock).trans hunlock⟩

def Quiet (s s' : Client) : Prop :=
  s'.finishedDownloads = s.finishedDownloads ∧
    ∃ l, s'.trace = s.trace ++ l ∧ .queued quitLine ∉ l

theorem quiet_of_change (h : Change false s s') : Quiet s s' := by
  cases h with
  | sessions net lastId ds hl => exact ⟨rfl, _, rfl, not_quit_of_sessionActions hl⟩
  | chunk data hc hfd => exact ⟨rfl, _, rfl, by simp⟩
  | lost length hc hfd => exact ⟨rfl, _, rfl, by simp⟩
  | complete hb net hc hfd hsize hl => exact absurd hb (by simp)
  | rewind length hc hfd => exact ⟨rfl, [], (List.append_nil _).symm, by simp⟩
  | output => exact ⟨rfl, [], (List.append_nil _).symm, by simp⟩
  | halt fault => exact ⟨rfl, [], (List.append_nil _).symm, by simp⟩

theorem quiet_of_changes (h : Changes false s s') : Quiet s s' := by
  induction h with
  | refl => exact ⟨rfl, [], (List.append_nil _).symm, by simp⟩
  | tail _ hc ih =>
    obtain ⟨hcount, l, hl, hquit⟩ := ih
    obtain ⟨hcount', l', hl', hquit'⟩ := quiet_of_change hc
    refine ⟨hcount'.trans hcount, l ++ l', by rw [hl', hl, List.append_assoc], ?_⟩
    rw [List.mem_append, not_or]
    exact ⟨hquit, hquit'⟩

theorem AtQuit.quiet {P : List Action → Prop} (h : AtQuit P s.trace) (hs' : Quiet s s') :
    AtQuit P s'.trace := by
  obtain ⟨-, l, hl, hquit⟩ := hs'
  rw [hl]
  exact h.append hquit

end steps

/-- Every requested download has been offered: `answers` says which request a stored download
    answers. -/
def Offered (answers : ℕ → Option ℕ) (n : ℕ) (trace : List Action) : Prop :=
  ∀ r < n, ∃ k ∈ stores trace, answers k = some r

/-- Where the data completes the last of the open downloads, all requested ones have been offered. -/
def OfferedFirst (answers : ℕ → Option ℕ) (s : Client) (e : Event) : Prop :=
  Completes s e → s.finishedDownloads + 1 = s.numActiveDownloads →
    ∀ r < s.cfg.numDownloads, ∃ k < s.numActiveDownloads, answers k = some r

section runs
variable {answers : ℕ → Option ℕ} {s s' : Client}

theorem atQuit_of_completion {P : List Action → Prop} (htally : Tallied s) (h : AtQuit P s.trace)
    {ctx : Option ℕ} (hc : Completion ctx s s')
    (hP : s.finishedDownloads + 1 = s.numActiveDownloads →
      ∀ trace, stores trace = List.range s.numActiveDownloads → P trace) :
    AtQuit P s'.trace := by
  cases hc with
  | @of t context net l _ hbefore hl hafter =>
    refine AtQuit.quiet ?_ (quiet_of_changes hafter)
    have hquiet := quiet_of_changes hbefore
    have hfilled := filled_of_changes htally.filled hbefore
    have hfinish : AtQuit P (t.trace ++ [.finish context]) :=
      (h.quiet hquiet).append (by simp)
    rw [completed_trace]
    cases hl with
    | nothing => exact hfinish
    | quit hverify hcount =>
      rw [hquiet.1, hfilled.2.1] at hcount
      have hstores : stores (t.trace ++ [.finish context]) = List.range s.numActiveDownloads := by
        rw [stores_append_nil (by simp [storedIndex]), hfilled.2.2]
      have hquit := hfinish.quit (hP hcount _ hstores)
      rw [List.append_assoc] at hquit
      exact hquit
    | checksum md5 path hverify =>
      have hall := hfinish.append (l := [.startChecksum md5 path]) (by simp)
      rw [List.append_assoc] at hall
      exact hall

theorem offered_step {e : Event} (hsound : s.halted = none → Sound s) (htally : Tallied s)
    (h : AtQuit (Offered answers s.cfg.numDownloads) s.trace) (hoffered : OfferedFirst answers s e) :
    AtQuit (Offered answers s.cfg.numDownloads) (step s e).trace := by
  by_cases hstarts : StartsDownload s e
  · obtain ⟨t, progress, fd, files, ht, hs'⟩ := step_starts (b := false) hstarts
    refine AtQuit.quiet ?_ (quiet_of_changes hs')
    exact (h.quiet (quiet_of_changes ht)).append (by simp)
  · rcases step_cases hstarts hsound with ⟨-, hchanges⟩ | ⟨hcompletes, hcompletion⟩
    · exact h.quiet (quiet_of_changes hchanges)
    · refine atQuit_of_completion htally h hcompletion fun hcount trace hstores r hr => ?_
      obtain ⟨k, hk, hanswers⟩ := hoffered hcompletes hcount r hr
      refine ⟨k, ?_, hanswers⟩
      rw [hstores]
      exact List.mem_range.mpr hk

theorem tallied_run (cfg : XdccGetConfig) (net : Net) (files : Bytes → Option Bytes)
    (events : List Event) : Tallied (run step (initial cfg net files) events) := by
  have hstep : ∀ s e, Tallied s → Tallied (step s e) := fun _ e h => tallied_step h e
  exact run_invariant hstep (tallied_initial cfg net files) events

theorem offered_run (cfg : XdccGetConfig) (net : Net) (files : Bytes → Option Bytes)
    {events : List Event}
    (hall : AllAlong step (OfferedFirst answers) (initial cfg net files) events) :
    AtQuit (Offered answers cfg.numDownloads) (run step (initial cfg net files) events).trace := by
  let inv : Client → Prop := fun s => (s.halted = none → Sound s) ∧ Tallied s ∧ s.cfg = cfg ∧
    AtQuit (Offered answers cfg.numDownloads) s.trace
  have hstep : ∀ s e, inv s → OfferedFirst answers s e → inv (step s e) := by
    rintro s e ⟨hsound, htally, hcfg, hquit⟩ hoffered
    refine ⟨sound_step e hsound, tallied_step htally e, (cfg_step s e).trans hcfg, ?_⟩
    rw [← hcfg] at hquit ⊢
    exact offered_step hsound htally hquit hoffered
  have hquit : AtQuit (Offered answers cfg.numDownloads) (initial cfg net files).trace := by
    intro before after h
    exact absurd h (by simp [initial])
  have hinit : inv (initial cfg net files) :=
    ⟨(soundRun_initial cfg net files).2, tallied_initial cfg net files, rfl, hquit⟩
  exact (run_invariant_of_allAlong hstep hinit hall).2.2.2

end runs

def AllReceived (answers : ℕ → Option ℕ) (n : ℕ) (trace : List Action) : Prop :=
  ∀ r < n, ∃ k, answers k = some r ∧ .finish k ∈ trace

/-- In a run in which the last open download never ends while a request is unanswered, QUIT is
    queued only when all requested downloads have been received. -/
theorem quit_when_all_received (cfg : XdccGetConfig) (net : Net) (files : Bytes → Option Bytes)
    (answers : ℕ → Option ℕ) {events : List Event}
    (hall : AllAlong step (OfferedFirst answers) (initial cfg net files) events) :
    AtQuit (AllReceived answers cfg.numDownloads) (run step (initial cfg net files) events).trace := by
  intro before after htrace r hr
  obtain ⟨k, hk, hanswers⟩ := offered_run cfg net files hall before after htrace r hr
  exact ⟨k, hanswers, (tallied_run cfg net files events).quits before after htrace k hk⟩

def twoBytes : Chunk := ⟨bytes "hi", by decide, by decide⟩

def transfer (id : ℕ) : List Event :=
  [.socket id (.connecting true), .socket id (.receiving [.data twoBytes])]

theorem offeredFirst_of_le {s : Client} (h : s.cfg.numDownloads ≤ s.numActiveDownloads) (e : Event) :
    OfferedFirst some s e := fun _ _ r hr => ⟨r, hr.trans_le h, rfl⟩

/-- Both bots offer before the first download ends. -/
theorem quit_when_all_received_two :
    AtQuit (AllReceived some 2) (run step (initial twoBots connected noFiles)
      (request "bot" "DCC SEND a 16909060 5000 2" :: request "tob" "DCC SEND b 16909061 5001 2" ::
        (transfer 1 ++ transfer 2))).trace := by
  refine quit_when_all_received twoBots connected noFiles some
    ⟨fun h => h.elim, fun h => h.elim, ?_, ?_, ?_, ?_, trivial⟩ <;>
  exact offeredFirst_of_le (by decide +kernel) _

/-- The first download ends before the second bot has answered. -/
theorem quit_after_one_of_two :
    ¬ ∃ answers, AtQuit (AllReceived answers twoBots.numDownloads)
      (run step (initial twoBots connected noFiles)
        (request "bot" "DCC SEND a 16909060 5000 2" :: transfer 1)).trace := by
  rintro ⟨answers, h⟩
  have htrace : (run step (initial twoBots connected noFiles)
      (request "bot" "DCC SEND a 16909060 5000 2" :: transfer 1)).trace =
        [.storeContext 0, .install 1 (.data .callbackDccRecvFile), .received 1 2,
          .call 1 (some (.data .callbackDccRecvFile)), .write 0 (bytes "hi"), .finish 0] ++
          .queued quitLine :: [] := by decide +kernel
  have hreceived := h _ [] htrace
  obtain ⟨k, hk, hfinish⟩ := hreceived 0 (by decide)
  obtain ⟨k', hk', hfinish'⟩ := hreceived 1 (by decide)
  obtain rfl : k = 0 := by simpa using hfinish
  obtain rfl : k' = 0 := by simpa using hfinish'
  exact absurd (hk.symm.trans hk') (by simp)

end Xdccget.QuitTiming
