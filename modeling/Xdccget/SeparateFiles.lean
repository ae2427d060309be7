import Xdccget.ByteCounts

set_option autoImplicit false

/-!
# Files of downloads that go on side by side

What the peer of one session sends goes to the end of one file. Other sessions, offers,
acknowledgements and failures leave that file alone, as long as no other download has its name.
-/
namespace Xdccget.SeparateFiles
open CText DccMessages ClientState DccSessions Downloads DccEvents HaltingPrograms SessionSpecs
  DownloadSpecs EventSpecs StepRuns
open DownloadTurns (arriving arrivingChunks chunksData chunksData_cons fileContent
  arriving_of_find_none arriving_of_connected arriving_of_not_connected
  processDescriptor_run_of_receiving)
open CallbackSteps (acknowledgedSession acceptResume_run_of_waiting)
open ByteCounts (Present SoundCounts CountsRun receiveChunk_present countsRun_step
  countsRun_initial)
open ResumeAddressing (newestByPort acceptResume_run_of_not_waiting twoBots request)
open TableChanges (StartsDownload step_of_halted cfg_step)

/-- The download that is watched: its session, its context, the path of its file and the mode the
    file is opened in. -/
structure Watched where
  id : ℕ
  context : ℕ
  path : Bytes
  append : Bool
  cfg : XdccGetConfig

section watched
variable (w : Watched)

/-- The session and the context belong together; only a file in append mode is resumed. -/
structure Watched.Fits (d : DccSession) : Prop where
  pairs : ∀ k, d.ctx = some k → (d.id = w.id ↔ k = w.context)
  mode : d.id = w.id → d.cb = some .callbackDccResumeFile → w.append = true

def Watched.AtEnd (fd : FileIo) (content : Bytes) : Prop :=
  fd.append = w.append ∧ (w.append = false → fd.position = content.length)

structure Watched.Opens (content : Bytes) (k : ℕ) (c : DccDownloadContext) : Prop where
  own : k = w.context → ∀ fd, c.fd = some fd → fd.fileName = w.path ∧ w.AtEnd fd content
  other : k ≠ w.context → ∀ fd, c.fd = some fd → fd.fileName ≠ w.path

/-- The download has been taken up, and its file holds the content. -/
structure Stores (content : Bytes) (s : Client) : Prop where
  cfg : s.cfg = w.cfg
  newer : w.id < s.dccLastId
  older : w.context < s.downloadContext.length
  sessions : ∀ d ∈ s.dccSessions, w.Fits d
  contexts : ∀ k c, s.downloadContext[k]? = some c → w.Opens content k c
  content : s.files w.path = some content

abbrev Spares (content : Bytes) {α : Type} (x : ClientM α) : Prop :=
  Ensures (Stores w content) x (fun _ => Stores w content) fun _ => True

end watched

section changes
variable {w : Watched} {content : Bytes} {s t : Client}

theorem Stores.same (h : Stores w content s) (hcfg : t.cfg = s.cfg)
    (hlast : t.dccLastId = s.dccLastId) (hsessions : t.dccSessions = s.dccSessions)
    (htable : t.downloadContext = s.downloadContext) (hfiles : t.files = s.files) :
    Stores w content t where
  cfg := hcfg.trans h.cfg
  newer := hlast ▸ h.newer
  older := htable ▸ h.older
  sessions := hsessions ▸ h.sessions
  contexts := htable ▸ h.contexts
  content := hfiles ▸ h.content

theorem Stores.sessionOp (h : Stores w content s) (net : Net) {i : ℕ} {f : DccSession → DccSession}
    (hf : ∀ d, d.id = i → w.Fits d → w.Fits (f d)) (l : List Action) :
    Stores w content (sessionOp s net i f l) where
  cfg := h.cfg
  newer := h.newer
  older := h.older
  sessions := by
    intro d hd
    rcases mem_updateSession hd with ⟨e, he, hid, rfl⟩ | ⟨hd, -⟩
    · exact hf e hid (h.sessions e he)
    · exact h.sessions d hd
  contexts := h.contexts
  content := h.content

theorem Stores.modify (h : Stores w content s) {content' : Bytes}
    (hcfg : t.cfg = s.cfg) (hlast : t.dccLastId = s.dccLastId)
    (hsessions : t.dccSessions = s.dccSessions) {k : ℕ} {g : DccDownloadContext → DccDownloadContext}
    (htable : t.downloadContext = s.downloadContext.modify k g)
    (hlater : ∀ fd, w.AtEnd fd content → k ≠ w.context → w.AtEnd fd content')
    (hg : ∀ c, s.downloadContext[k]? = some c → w.Opens content' k (g c))
    (hcontent : t.files w.path = some content') : Stores w content' t where
  cfg := hcfg.trans h.cfg
  newer := hlast ▸ h.newer
  older := by
    rw [htable, List.length_modify]
    exact h.older
  sessions := hsessions ▸ h.sessions
  contexts := by
    intro j c hc
    rw [htable, List.getElem?_modify] at hc
    obtain ⟨c, hold, rfl⟩ := Option.map_eq_some_iff.mp hc
    by_cases hjk : k = j
    · subst hjk
      rw [if_pos rfl]
      exact hg c hold
    · rw [if_neg hjk]
      refine ⟨fun hj fd hfd => ?_, (h.contexts j c hold).other⟩
      obtain ⟨hname, hend⟩ := (h.contexts j c hold).own hj fd hfd
      exact ⟨hname, hlater fd hend fun hk => hjk (hk.trans hj.symm)⟩
  content := hcontent

theorem Stores.modify_same (h : Stores w content s) (hcfg : t.cfg = s.cfg)
    (hlast : t.dccLastId = s.dccLastId) (hsessions : t.dccSessions = s.dccSessions) {k : ℕ}
    {g : DccDownloadContext → DccDownloadContext}
    (htable : t.downloadContext = s.downloadContext.modify k g) (hfiles : t.files = s.files)
    (hg : ∀ c fd', (g c).fd = some fd' → ∃ fd, c.fd = some fd ∧ fd'.fileName = fd.fileName ∧
      (k = w.context → fd' = fd)) : Stores w content t := by
  refine h.modify hcfg hlast hsessions htable (fun _ hend _ => hend) (fun c hc => ?_) ?_
  · constructor
    · intro hk fd' hfd'
      obtain ⟨fd, hfd, -, hsame⟩ := hg c fd' hfd'
      rw [hsame hk]
      exact (h.contexts k c hc).own hk fd hfd
    · intro hk fd' hfd'
      obtain ⟨fd, hfd, hname, -⟩ := hg c fd' hfd'
      rw [hname]
      exact (h.contexts k c hc).other hk fd hfd
  · rw [hfiles]
    exact h.content

theorem Stores.chunk (h : Stores w content s) {k : ℕ} {c : DccDownloadContext} {fd : FileIo}
    (hc : s.downloadContext[k]? = some c) (hfd : c.fd = some fd) (data : Bytes) :
    Stores w (content ++ if k = w.context then data else []) (chunkOp s k fd data) := by
  have hopens := h.contexts k c hc
  by_cases hk : k = w.context
  · obtain ⟨hname, hend⟩ := hopens.own hk fd hfd
    have hwritten : (chunkOp s k fd data).files w.path = some (content ++ data) := by
      change writtenFiles s.files fd data w.path = some (content ++ data)
      rw [writtenFiles, if_pos hname.symm, h.content, Option.getD_some, fwriteContent]
      by_cases happend : fd.append = true
      · rw [if_pos happend]
      · have hposition := hend.2 (hend.1.symm.trans (by simpa using happend))
        rw [if_neg happend, hposition, List.take_length, Nat.sub_self,
          List.drop_eq_nil_of_le (by omega)]
        simp
    rw [if_pos hk]
    refine h.modify rfl rfl rfl rfl (fun _ _ hne => absurd hk hne) (fun c' _ => ?_) hwritten
    refine ⟨fun _ fd' hfd' => ?_, fun hne => absurd hk hne⟩
    obtain rfl := Option.some.inj hfd'
    refine ⟨hname, hend.1, fun happend => ?_⟩
    change fd.position + data.length = _
    rw [hend.2 happend, List.length_append]
  · have hname := hopens.other hk fd hfd
    rw [if_neg hk, List.append_nil]
    refine h.modify rfl rfl rfl rfl (fun _ hend _ => hend) (fun c' _ => ?_) ?_
    · refine ⟨fun heq => absurd heq hk, fun _ fd' hfd' => ?_⟩
      obtain rfl := Option.some.inj hfd'
      exact hname
    · change writtenFiles s.files fd data w.path = some content
      rw [writtenFiles, if_neg hname.symm]
      exact h.content

theorem Stores.withSession (h : Stores w content s) (net : Net) {d : DccSession}
    (hid : d.id = s.dccLastId) (hctx : d.ctx = none) : Stores w content (withSession s net d) where
  cfg := h.cfg
  newer := h.newer.trans (Nat.lt_succ_self _)
  older := h.older
  sessions := by
    intro e he
    rcases List.mem_cons.mp he with rfl | he
    · refine ⟨fun k hk => absurd (hctx.symm.trans hk) (by simp), fun hown => ?_⟩
      exact absurd (hid.symm.trans hown) h.newer.ne'
    · exact h.sessions e he
  contexts := h.contexts
  content := h.content

theorem Stores.started (h : Stores w content s) (env : Env) {filename : Bytes} (size : ℕ)
    (append : Bool) (hname : getCompletePath w.cfg filename ≠ w.path) :
    Stores w content (started s env filename size append) where
  cfg := h.cfg
  newer := h.newer
  older := by
    change w.context < (s.downloadContext ++ [_]).length
    rw [List.length_append]
    exact h.older.trans_le (Nat.le_add_right _ _)
  sessions := h.sessions
  contexts := by
    intro k c hc
    change (s.downloadContext ++ [_])[k]? = some c at hc
    by_cases hk : k < s.downloadContext.length
    · rw [List.getElem?_append_left hk] at hc
      exact h.contexts k c hc
    · rw [List.getElem?_append_right (Nat.le_of_not_lt hk)] at hc
      have hne : k ≠ w.context := fun heq => hk (heq ▸ h.older)
      refine ⟨fun heq => absurd heq hne, fun _ fd hfd => ?_⟩
      have hmem := List.mem_of_getElem? hc
      obtain rfl := List.mem_singleton.mp hmem
      obtain rfl := Option.some.inj hfd
      change getCompletePath s.cfg filename ≠ w.path
      rw [h.cfg]
      exact hname
  content := by
    change openedFiles s.files (getCompletePath s.cfg filename) append w.path = some content
    rw [h.cfg, openedFiles]
    split
    · exact h.content
    · dsimp only
      rw [if_neg hname.symm]
      exact h.content

/-- The download that is watched has an offer, and no context yet. -/
structure Awaits (w : Watched) (content : Bytes) (s : Client) : Prop where
  cfg : s.cfg = w.cfg
  next : s.downloadContext.length = w.context
  sessions : ∀ d ∈ s.dccSessions, w.Fits d
  contexts : ∀ c ∈ s.downloadContext, ∀ fd, c.fd = some fd → fd.fileName ≠ w.path
  mode : (s.files w.path).isSome = w.append
  content : fileContent s w.path = content

theorem Awaits.withSession (h : Awaits w content s) (net : Net) {d : DccSession}
    (hctx : d.ctx = none) (hcb : d.cb = none) : Awaits w content (withSession s net d) where
  cfg := h.cfg
  next := h.next
  sessions := by
    intro e he
    rcases List.mem_cons.mp he with rfl | he
    · exact ⟨fun k hk => absurd (hctx.symm.trans hk) (by simp),
        fun _ hresume => absurd (hcb.symm.trans hresume) (by simp)⟩
    · exact h.sessions e he
  contexts := h.contexts
  mode := h.mode
  content := h.content

theorem Awaits.updateSession (h : Awaits w content s) {i : ℕ} {f : DccSession → DccSession}
    (hf : ∀ d, w.Fits d → w.Fits (f d)) :
    Awaits w content { s with dccSessions := ClientState.updateSession i f s.dccSessions } where
  cfg := h.cfg
  next := h.next
  sessions := by
    intro d hd
    rcases mem_updateSession hd with ⟨e, he, -, rfl⟩ | ⟨hd, -⟩
    · exact hf e (h.sessions e he)
    · exact h.sessions d hd
  contexts := h.contexts
  mode := h.mode
  content := h.content

theorem Awaits.started (h : Awaits w content s) (hnewer : w.id < s.dccLastId) (env : Env)
    {filename : Bytes} (size : ℕ) (hname : getCompletePath w.cfg filename = w.path) :
    Stores w content (started s env filename size w.append) := by
  have hcontent : (DownloadSpecs.started s env filename size w.append).files w.path =
      some content := by
    change openedFiles s.files (getCompletePath s.cfg filename) w.append w.path = some content
    rw [h.cfg, hname, ← h.content, fileContent, openedFiles]
    by_cases happend : w.append = true
    · have hthere : (s.files w.path).isSome := h.mode.trans happend
      rw [if_pos happend]
      exact (Option.some_get hthere).symm.trans (by rw [Option.get_eq_getD])
    · have hmissing : s.files w.path = none := by
        rw [← Option.not_isSome_iff_eq_none, h.mode]
        exact happend
      rw [if_neg happend, if_pos rfl, hmissing]
      rfl
  exact {
    cfg := h.cfg
    newer := hnewer
    older := by
      change w.context < (s.downloadContext ++ [_]).length
      rw [List.length_append, h.next]
      exact Nat.lt_succ_self _
    sessions := h.sessions
    contexts := by
      intro k c hc
      change (s.downloadContext ++ [_])[k]? = some c at hc
      by_cases hk : k < s.downloadContext.length
      · rw [List.getElem?_append_left hk] at hc
        refine ⟨fun hown => absurd (hown.trans h.next.symm) hk.ne, fun _ => ?_⟩
        exact h.contexts c (List.mem_of_getElem? hc)
      · have hlt := (List.getElem?_eq_some_iff.mp hc).1
        rw [List.length_append, List.length_singleton] at hlt
        have hown : k = w.context := h.next ▸ (by omega)
        rw [List.getElem?_append_right (Nat.le_of_not_lt hk)] at hc
        obtain rfl := List.mem_singleton.mp (List.mem_of_getElem? hc)
        refine ⟨fun _ fd hfd => ?_, fun hne => absurd hown hne⟩
        obtain rfl := Option.some.inj hfd
        refine ⟨h.cfg ▸ hname, rfl, fun happend => ?_⟩
        have hmissing : s.files w.path = none := by
          rw [← Option.not_isSome_iff_eq_none, h.mode]
          simp [happend]
        rw [← h.content, fileContent, hmissing]
        rfl
    content := hcontent }

end changes

section programs
variable {w : Watched} {content : Bytes}

theorem modify_spares {f : Client → Client} (h : ∀ s, (f s).cfg = s.cfg ∧
    (f s).dccLastId = s.dccLastId ∧ (f s).dccSessions = s.dccSessions ∧
    (f s).downloadContext = s.downloadContext ∧ (f s).files = s.files) :
    Spares w content (modify f : ClientM PUnit) :=
  ensures_modify fun s hs =>
    hs.same (h s).1 (h s).2.1 (h s).2.2.1 (h s).2.2.2.1 (h s).2.2.2.2

theorem setLasterror_spares (err : ℕ) : Spares w content (setLasterror err) :=
  modify_spares fun _ => ⟨rfl, rfl, rfl, rfl, rfl⟩

theorem lock_spares : Spares w content libircMutexLock :=
  modify_spares fun _ => ⟨rfl, rfl, rfl, rfl, rfl⟩

theorem unlock_spares : Spares w content libircMutexUnlock :=
  modify_spares fun _ => ⟨rfl, rfl, rfl, rfl, rfl⟩

theorem record_spares (a : Action) : Spares w content (record a) :=
  modify_spares fun _ => ⟨rfl, rfl, rfl, rfl, rfl⟩

theorem pure_spares {α : Type} (a : α) : Spares w content (pure a : ClientM α) :=
  ensures_pure fun _ h => h

theorem throw_spares {α : Type} (fault : Halt) : Spares w content (throw fault : ClientM α) :=
  ensures_throw fun _ _ => trivial

theorem modifySession_spares {i : ℕ} {f : DccSession → DccSession}
    (hf : ∀ d, d.id = i → w.Fits d → w.Fits (f d)) : Spares w content (modifySession i f) := by
  refine ensures_modify fun s h => ?_
  have hop := h.sessionOp s.net hf []
  rw [sessionOp, List.append_nil] at hop
  exact hop

theorem fits_of_same {d e : DccSession} (hid : e.id = d.id) (hcb : e.cb = d.cb)
    (hctx : e.ctx = d.ctx) (h : w.Fits d) : w.Fits e where
  pairs := by
    rw [hid, hctx]
    exact h.pairs
  mode := by
    rw [hid, hcb]
    exact h.mode

theorem libircDccDestroyNolock_spares (i : ℕ) : Spares w content (libircDccDestroyNolock i) := by
  intro s h
  rw [libircDccDestroyNolock_run]
  have hremoved (d : DccSession) (hd : w.Fits d) : w.Fits (removed d) :=
    fits_of_same (d := d) rfl rfl rfl hd
  have hop := h.sessionOp s.net (i := i) (fun d _ hd => hremoved d hd) []
  rw [sessionOp, List.append_nil] at hop
  exact hop

theorem withNet_stores {s : Client} (h : Stores w content s) (net : Net) :
    Stores w content (withNet s net) := h.same rfl rfl rfl rfl rfl

theorem fits_attached {d e : DccSession} {i k : ℕ} (hpair : i = w.id ↔ k = w.context)
    (hd : d.id = i) (hid : e.id = d.id) (hctx : e.ctx = some k)
    (hmode : i = w.id → e.cb = some .callbackDccResumeFile → w.append = true) : w.Fits e where
  pairs j hj := by
    obtain rfl := Option.some.inj (hctx.symm.trans hj)
    rw [hid, hd]
    exact hpair
  mode := by
    rw [hid, hd]
    exact hmode

section attached
variable {i k : ℕ} (hpair : i = w.id ↔ k = w.context) (hmode : i = w.id → w.append = true)
include hpair

theorem ircDccAccept_spares (env : Env) :
    Spares w content (ircDccAccept env i (some k) .callbackDccRecvFile) := by
  intro s h
  rcases TableChanges.exists_init_or_notInit s i with ⟨d, hd, hinit⟩ | hnot
  · obtain ⟨ret, net, f, hrun, haccepted⟩ :=
      ircDccAccept_run hd hinit env (some k) .callbackDccRecvFile
    rw [hrun]
    refine h.sessionOp net (fun e he _ => ?_) _
    cases haccepted <;> exact fits_attached hpair he rfl rfl fun _ hcb => nomatch hcb
  · obtain ⟨net, hrun⟩ := ircDccAccept_run_of_notInit hnot env (some k) .callbackDccRecvFile
    rw [hrun]
    exact withNet_stores h net

theorem ircDccAcceptReverse_spares (env : Env) (nick : Option Bytes) (filename : Bytes)
    (size token : ℕ) :
    Spares w content
      (ircDccAcceptReverse env i (some k) .callbackDccRecvFile nick filename size token) := by
  intro s h
  rcases TableChanges.exists_init_or_notInit s i with ⟨d, hd, hinit⟩ | hnot
  · rcases ircDccAcceptReverse_run hd hinit env (some k) .callbackDccRecvFile nick filename size
        token with ⟨-, net, hrun⟩ | ⟨addr, net, l, -, hrun, -⟩
    · rw [hrun]
      exact withNet_stores h net
    · rw [hrun]
      refine h.sessionOp net (fun e he _ => ?_) l
      exact fits_attached hpair he rfl rfl fun _ hcb => nomatch hcb
  · obtain ⟨net, hrun⟩ := ircDccAcceptReverse_run_of_notInit hnot env (some k)
      .callbackDccRecvFile nick filename size token
    rw [hrun]
    exact withNet_stores h net

include hmode

theorem ircDccResume_spares (cb : DataCallback) (nick : Option Bytes) (position : ℕ) :
    Spares w content (ircDccResume i (some k) cb nick position) := by
  intro s h
  rcases TableChanges.exists_init_or_notInit s i with ⟨d, hd, hinit⟩ | hnot
  · obtain ⟨net, l, hrun, -⟩ := ircDccResume_run hd hinit (some k) cb nick position
    rw [hrun]
    refine h.sessionOp net (fun e he _ => ?_) l
    exact fits_attached hpair he rfl rfl fun hown _ => hmode hown
  · obtain ⟨net, hrun⟩ := ircDccResume_run_of_notInit hnot (some k) cb nick position
    rw [hrun]
    exact withNet_stores h net

theorem ircDccResumeReverse_spares (cb : ReverseCallback) (nick : Option Bytes)
    (position token : ℕ) :
    Spares w content (ircDccResumeReverse i (some k) cb nick position token) := by
  intro s h
  rcases TableChanges.exists_init_or_notInit s i with ⟨d, hd, hinit⟩ | hnot
  · obtain ⟨net, l, hrun, -⟩ := ircDccResumeReverse_run hd hinit (some k) cb nick position token
    rw [hrun]
    refine h.sessionOp net (fun e he _ => ?_) l
    exact fits_attached hpair he rfl rfl fun hown _ => hmode hown
  · obtain ⟨net, hrun⟩ := ircDccResumeReverse_run_of_notInit hnot (some k) cb nick position token
    rw [hrun]
    exact withNet_stores h net

omit hpair hmode in
theorem exitOnFailure_spares {call : ClientM ℕ} (h : Spares w content call) :
    Spares w content (exitOnFailure call) :=
  ensures_bind h fun _ => ensures_ite (fun _ => throw_spares _) fun _ => pure_spares _

theorem seekToResume_spares (env : Env) (length : ℕ) :
    Spares w content (seekToResume env k length) := by
  intro s h
  rcases seekToResume_run_cases env k length s with ⟨fault, hrun⟩ | ⟨c, fd, hc, hfd, hrun⟩
  · rw [hrun]
    trivial
  · rw [hrun]
    refine h.modify rfl rfl rfl rfl (fun _ hend _ => hend) (fun c' _ => ?_) h.content
    constructor
    · intro hk fd' hfd'
      obtain rfl := Option.some.inj hfd'
      obtain ⟨hname, hend⟩ := (h.contexts k c hc).own hk fd hfd
      refine ⟨hname, hend.1, fun happend => ?_⟩
      exact absurd (hmode (hpair.mpr hk)) (by simp [happend])
    · intro hk fd' hfd'
      obtain rfl := Option.some.inj hfd'
      exact (h.contexts k c hc).other hk fd hfd

theorem callbackDccResumeFile_spares (env : Env) (length : ℕ) :
    Spares w content (callbackDccResumeFile env i (some k) length) :=
  ensures_bind (seekToResume_spares hpair hmode env length) fun _ =>
    exitOnFailure_spares (ircDccAccept_spares hpair env)

end attached

theorem callCb_spares (env : Env) (i status length : ℕ) :
    Spares w content (callCb env i status none length) := by
  intro s h
  cases hf : s.dccSessions.find? (fun d => decide (d.id = i)) with
  | none =>
    simp only [callCb, EStateM.run_bind, EStateM.run_get, hf]
    exact h
  | some d =>
    have hid : d.id = i := by simpa using List.find?_some hf
    have hfits := h.sessions d (List.mem_of_find?_eq_some hf)
    have hcalled (cb : Option Callback) : Stores w content (called s i cb) :=
      h.same rfl rfl rfl rfl rfl
    cases hcb : d.cb with
    | none =>
      rw [callCb_run_of_null hf hcb]
      trivial
    | some cb =>
      cases cb with
      | callbackDccRecvFile =>
        rw [callCb_run_of_recvFile hf hcb, callbackDccRecvFile_run_of_none]
        exact hcalled _
      | callbackDccResumeFile =>
        rw [callCb_run_of_resumeFile hf hcb]
        cases hctx : d.ctx with
        | none => trivial
        | some k =>
          have hpair := hid ▸ hfits.pairs k hctx
          have hmode (hown : i = w.id) : w.append = true := hfits.mode (hid.trans hown) hcb
          exact callbackDccResumeFile_spares hpair hmode env length _ (hcalled _)

theorem setState_spares (i : ℕ) (state : LibircState) :
    Spares w content (modifySession i fun d => { d with state := state }) :=
  modifySession_spares fun d _ hd => fits_of_same (d := d) rfl rfl rfl hd

theorem setSize_spares (i size : ℕ) :
    Spares w content (modifySession i fun d => { d with receivedFileSize := size }) :=
  modifySession_spares fun d _ hd => fits_of_same (d := d) rfl rfl rfl hd

theorem turn_spares (i : ℕ) : (turn i).Keeps (Spares w content) where
  pure := pure_spares _
  bind h h' := ensures_bind h fun _ => h'
  lock := lock_spares
  unlock := unlock_spares
  received _ _ _ h := ensures_bind (record_spares _) fun _ => h
  acknowledged _ _ _ _ h := ensures_bind (record_spares _) fun _ => h
  modify _ _ _ _ := modifySession_spares fun d _ hd => fits_of_same (d := d) rfl rfl rfl hd
  withConfig h := ensures_get_bind fun s hs =>
    (h s.cfg).weaken (fun _ ht => ht ▸ hs) (fun _ _ ht => ht) fun _ ht => ht
  destroy := libircDccDestroyNolock_spares i

theorem receiveFailed_spares (i err : ℕ) : Spares w content (receiveFailed i err) :=
  (turn_spares i).receiveFailed (callCb_spares noEnv i err 0)

theorem sendCurrentFileOffsetToSender_spares (dcc : DccSession) (result : SendResult) :
    Spares w content (sendCurrentFileOffsetToSender dcc result) :=
  (turn_spares dcc.id).sendCurrentFileOffsetToSender dcc
    (SendResult.turn_alike (fun err _ => callCb_spares noEnv dcc.id err 0)
      fun _ _ => callCb_spares noEnv dcc.id _ 0)

/-- What arrives for this session is added to the file, and what arrives for others is not. -/
def Watched.gain (w : Watched) (i : ℕ) (data : Bytes) : Bytes := if i = w.id then data else []

theorem gain_nil (i : ℕ) : w.gain i [] = [] := ite_self _

theorem gain_append (i : ℕ) (a b : Bytes) : w.gain i (a ++ b) = w.gain i a ++ w.gain i b := by
  unfold Watched.gain
  split <;> rfl

theorem confirming_stores {t : Client} (h : Stores w content t) (i : ℕ) :
    Stores w content (confirming t i) := by
  let f : DccSession → DccSession := fun d =>
    { d with state := if t.cfg.dontConfirmOffsets then .connected else .confirmSize }
  exact h.sessionOp (f := f) _ (fun d _ hd => fits_of_same (d := d) rfl rfl rfl hd) []

theorem completed_stores {t : Client} (h : Stores w content t) (net : Net) (k : ℕ)
    (l : List Action) : Stores w content (completed t net k l) :=
  h.modify_same rfl rfl rfl rfl rfl fun _ _ hfd => nomatch hfd

theorem receiveChunk_stores (i : ℕ) (chunk : Chunk) :
    Ensures (fun s => Present i s ∧ Stores w content s) (receiveChunk i chunk)
      (fun _ s => Present i s ∧ Stores w (content ++ w.gain i chunk.data) s) fun _ => True := by
  rintro s ⟨hpresent, h⟩
  have hkept := receiveChunk_present chunk s hpresent
  obtain ⟨⟨hcalls, hcounted⟩, d, hd⟩ := hpresent
  have hmem : d ∈ s.dccSessions := List.mem_of_find?_eq_some hd
  have hid : d.id = i := by simpa using List.find?_some hd
  have hcb : d.cb = some .callbackDccRecvFile := (hcalls.2 d hmem hid).1
  obtain ⟨k, hctx⟩ := Option.ne_none_iff_exists'.mp (hcounted.given d hmem (by simp [hcb]))
  obtain ⟨c, hc, -⟩ := hcounted.attached d hmem k hctx
  -- the session writes to the file that is watched exactly when it is the one that is watched
  have hgain : (if k = w.context then chunk.data else []) = w.gain i chunk.data := by
    have hpair := (h.sessions d hmem).pairs k hctx
    rw [hid] at hpair
    simp only [Watched.gain, hpair]
  have harrived : Stores w content (arrived s i chunk.data.length) :=
    h.sessionOp (f := withOffset chunk.data.length) _
      (fun d _ hd => fits_of_same (d := d) rfl rfl rfl hd) _
  have hc₁ : (arrived s i chunk.data.length).downloadContext[k]? = some c := hc
  have hrun := receiveChunk_run hd hcb chunk
  rw [hctx] at hrun
  cases hfd : c.fd with
  | none =>
    rw [hrun, run_bind_of_error (callbackDccRecvFile_run_of_closed hc₁ hfd chunk.pos)]
    trivial
  | some fd =>
    have hchunk := harrived.chunk hc₁ hfd chunk.data
    rw [hgain] at hchunk
    by_cases hsize : u64 (c.progress.sizeRcvd + chunk.data.length) = c.progress.completeFileSize
    · obtain ⟨net, l, hlast, -⟩ := callbackDccRecvFile_run_of_last hc₁ hfd chunk.pos hsize
      rw [hrun, run_bind_of_ok hlast, afterChunk_run] at hkept ⊢
      exact ⟨hkept, confirming_stores (completed_stores hchunk net k l) i⟩
    · have hmore := callbackDccRecvFile_run_of_unfinished hc₁ hfd chunk.pos hsize
      rw [hrun, run_bind_of_ok hmore, afterChunk_run] at hkept ⊢
      exact ⟨hkept, confirming_stores hchunk i⟩

theorem nothing_stores {i : ℕ} {x : ClientM Unit} (hx : Spares w content x) :
    Ensures (fun s => Present i s ∧ Stores w content s) x
      (fun _ => Stores w (content ++ w.gain i (chunksData []))) fun _ => True := by
  rw [chunksData, List.flatMap_nil, gain_nil, List.append_nil]
  exact hx.weaken (fun _ h => h.2) (fun _ _ h => h) fun _ h => h

theorem recvDccFile_stores (i : ℕ) (ssl : Bool) (results : List RecvResult) :
    Ensures (fun s => Present i s ∧ Stores w content s) (recvDccFile i ssl results)
      (fun _ => Stores w (content ++ w.gain i (chunksData (arrivingChunks ssl results))))
      fun _ => True := by
  induction results generalizing content with
  | nil => exact nothing_stores (pure_spares _)
  | cons result more ih =>
    cases result with
    | again =>
      cases ssl with
      | true => exact nothing_stores (pure_spares _)
      | false => exact ih
    | wantWrite =>
      cases ssl with
      | true => exact nothing_stores (setState_spares _ _)
      | false => exact ih
    | error => exact nothing_stores (receiveFailed_spares i libircErrRead)
    | closed => exact nothing_stores (receiveFailed_spares i libircErrClosed)
    | data chunk =>
      rw [arrivingChunks, chunksData_cons, gain_append, ← List.append_assoc]
      refine ensures_bind (receiveChunk_stores i chunk) fun _ => ?_
      cases ssl with
      | true => exact ih
      | false => exact nothing_stores (pure_spares _)

theorem arriving_of_other {s : Client} {i j : ℕ} (hi : i ≠ j) (ready : SocketReady) :
    arriving j s (.socket i ready) = [] := by
  cases ready with
  | receiving results =>
    simp only [arriving, hi, false_and, if_false]
    split <;> rfl
  | _ => rfl

theorem arriving_of_quiet {s : Client} {i : ℕ} {d : DccSession}
    (hd : s.dccSessions.find? (fun d => d.id = i) = some d) {ready : SocketReady}
    (hno : ∀ results, d.state = .connected → ready ≠ .receiving results) (j : ℕ) :
    arriving j s (.socket i ready) = [] := by
  by_cases hi : i = j
  · subst hi
    cases ready with
    | receiving results =>
      exact arriving_of_not_connected hd (fun hstate => hno results hstate rfl) _
    | _ => rfl
  · exact arriving_of_other hi ready

theorem quiet_stores {s : Client} {e : Event} (h : Stores w content s) {x : ClientM Unit}
    (hx : Spares w content x) (he : arriving w.id s e = []) :
    Ensures (fun t => t = s) x (fun _ => Stores w (content ++ arriving w.id s e)) fun _ => True := by
  rw [he, List.append_nil]
  exact hx.weaken (fun _ ht => ht ▸ h) (fun _ _ h => h) fun _ h => h

theorem processDescriptor_stores {s : Client} (hs : s.halted = none) (hsound : SoundCounts s)
    (h : Stores w content s) (i : ℕ) (ready : SocketReady) :
    Ensures (fun t => t = s) (processDescriptor i ready)
      (fun _ => Stores w (content ++ arriving w.id s (.socket i ready))) fun _ => True := by
  cases hd : s.dccSessions.find? (fun d => decide (d.id = i)) with
  | none =>
    have hnothing : arriving w.id s (.socket i ready) = [] := by
      by_cases hi : i = w.id
      · exact arriving_of_find_none (hi ▸ hd) _
      · exact arriving_of_other hi ready
    rintro t rfl
    rw [processDescriptor_run_of_none hd, hnothing, List.append_nil]
    exact h
  | some d =>
    by_cases hreceiving : ∃ results, d.state = .connected ∧ ready = .receiving results
    · obtain ⟨results, hstate, rfl⟩ := hreceiving
      have hpresent : Present i s :=
        ⟨⟨CallbackSteps.calls_of_awaited hsound.1 hd (by simp [SessionCallbacks.awaited, hstate]), hsound.2⟩, d, hd⟩
      have hgain : arriving w.id s (.socket i (.receiving results)) =
          w.gain i (chunksData (arrivingChunks d.ssl results)) := by
        by_cases hi : i = w.id
        · subst hi
          rw [arriving_of_connected hs hd hstate, Watched.gain, if_pos rfl]
        · rw [arriving_of_other hi, Watched.gain, if_neg hi]
      rintro t rfl
      rw [hgain, processDescriptor_run_of_receiving hd hstate]
      exact recvDccFile_stores i d.ssl results t ⟨hpresent, h⟩
    · have hno : ∀ results, d.state = .connected → ready ≠ .receiving results :=
        fun results hstate hready => hreceiving ⟨results, hstate, hready⟩
      have hturn : ∃ x, (processDescriptor i ready).run s = x.run s ∧ Spares w content x := by
        rw [processDescriptor_run_of_find hd]
        split
        · next getpeername _ =>
          cases getpeername with
          | true => exact ⟨_, rfl, setState_spares _ _⟩
          | false => exact ⟨_, rfl, libircDccDestroyNolock_spares i⟩
        · next results hstate => exact absurd rfl (hno results hstate)
        · next result _ => exact ⟨_, rfl, sendCurrentFileOffsetToSender_spares d result⟩
        · next sock _ =>
          refine ⟨_, rfl, modifySession_spares fun e _ he => ?_⟩
          exact fits_of_same (d := e) rfl rfl rfl he
        · exact ⟨_, rfl, pure_spares _⟩
      obtain ⟨x, hrun, hx⟩ := hturn
      rintro t rfl
      rw [hrun]
      exact quiet_stores h hx (arriving_of_quiet hd hno w.id) t rfl

section requests
variable {env : Env} {filename : Bytes} {size i : ℕ}

/-- What the application needs to know of an offer: with its context the download is taken up, and
    the session and the context belong together. -/
structure Starts (w : Watched) (content : Bytes) (env : Env) (filename : Bytes) (size i : ℕ)
    (s : Client) : Prop where
  stores : Stores w content
    (started s env filename size (s.files (getCompletePath s.cfg filename)).isSome)
  pairs : i = w.id ↔ s.downloadContext.length = w.context
  mode : (s.files (getCompletePath s.cfg filename)).isSome = true → i = w.id → w.append = true

theorem Stores.starts {s : Client} (h : Stores w content s)
    (hname : getCompletePath w.cfg filename ≠ w.path) (hi : i ≠ w.id) :
    Starts w content env filename size i s where
  stores := h.started env size _ hname
  pairs := iff_of_false hi h.older.ne'
  mode := fun _ hown => absurd hown hi

theorem Awaits.starts {s : Client} (h : Awaits w content s) (hnewer : w.id < s.dccLastId)
    (hname : getCompletePath w.cfg filename = w.path) :
    Starts w content env filename size w.id s := by
  have hmode : (s.files (getCompletePath s.cfg filename)).isSome = w.append := by
    rw [h.cfg, hname]
    exact h.mode
  exact {
    stores := hmode ▸ h.started hnewer env size hname
    pairs := iff_of_true rfl h.next
    mode := fun hsome _ => hmode.symm.trans hsome }

theorem recvFileWith_stores {accept : ℕ → ClientM ℕ} {resume : ℕ → ℕ → ClientM ℕ}
    (haccept : ∀ k, (i = w.id ↔ k = w.context) → Spares w content (accept k))
    (hresume : ∀ k, (i = w.id ↔ k = w.context) → (i = w.id → w.append = true) →
      ∀ position, Spares w content (resume k position)) :
    Ensures (Starts w content env filename size i) (recvFileWith env filename size accept resume)
      (fun _ => Stores w content) fun _ => True := by
  intro s h
  have hstarted := h.stores
  have hmode := h.mode
  cases hlegal : containsIllegalChars filename with
  | true =>
    rw [recvFileWith_run_of_illegal hlegal]
    trivial
  | false =>
    cases hopen : env.fopen with
    | false =>
      rw [recvFileWith_run_of_unopened hlegal hopen]
      trivial
    | true =>
      cases hf : s.files (getCompletePath s.cfg filename) with
      | none =>
        rw [hf] at hstarted
        rw [recvFileWith_run_of_missing hlegal hopen hf]
        exact exitOnFailure_spares (haccept _ h.pairs) _ hstarted
      | some old =>
        rw [hf] at hstarted hmode
        rw [recvFileWith_run_of_existing hlegal hopen hf]
        refine ensures_ite (fun _ => throw_spares _) (fun _ => ?_) _ hstarted
        exact ensures_ite (fun _ => exitOnFailure_spares (haccept _ h.pairs))
          fun _ => exitOnFailure_spares (hresume _ h.pairs (hmode rfl) _)

theorem recvFileRequest_stores (nick : Option Bytes) :
    Ensures (Starts w content env filename size i) (recvFileRequest env nick filename size i)
      (fun _ => Stores w content) fun _ => True :=
  recvFileWith_stores (fun _ hpair => ircDccAccept_spares hpair env)
    fun _ hpair hmode position => ircDccResume_spares hpair hmode _ nick position

theorem recvFileRequestReverse_stores (nick : Option Bytes) (token : ℕ) :
    Ensures (Starts w content env filename size i)
      (recvFileRequestReverse env nick filename size i token)
      (fun _ => Stores w content) fun _ => True :=
  recvFileWith_stores
    (fun _ hpair => ircDccAcceptReverse_spares hpair env nick filename size token)
    fun _ hpair hmode position => ircDccResumeReverse_spares hpair hmode _ nick position token

section others
variable (hname : getCompletePath w.cfg filename ≠ w.path)
include hname

theorem recvFileRequest_spares (hi : i ≠ w.id) (nick : Option Bytes) :
    Spares w content (recvFileRequest env nick filename size i) :=
  (recvFileRequest_stores nick).weaken (fun _ h => h.starts hname hi) (fun _ _ h => h) fun _ h => h

theorem recvFileRequestReverse_spares (hi : i ≠ w.id) (nick : Option Bytes) (token : ℕ) :
    Spares w content (recvFileRequestReverse env nick filename size i token) :=
  (recvFileRequestReverse_stores nick token).weaken (fun _ h => h.starts hname hi)
    (fun _ _ h => h) fun _ h => h

theorem acceptDccSend_spares (nick : Option Bytes) (ip port : ℕ) (ssl : Bool) :
    Spares w content (acceptDccSend env nick filename ip size port ssl) := by
  intro s h
  by_cases hopen : CanOpen env ssl s
  · obtain ⟨sock, net, hnew⟩ := libircNewDccSession_run_of_canOpen hopen ip port none
    have hsession := h.withSession net (d := newSession s.dccLastId sock ip port none ssl) rfl rfl
    rw [acceptDccSend_eq, run_bind_of_ok hnew]
    refine ensures_bind (recvFileRequest_spares hname h.newer.ne' nick) (fun _ => ?_) _ hsession
    exact setSize_spares _ size
  · rcases libircNewDccSession_run_of_not_canOpen hopen ip port none with hnew | hnew
    · rw [acceptDccSend_eq, run_bind_of_ok hnew]
      exact setLasterror_spares _ s h
    · rw [acceptDccSend_eq, run_bind_of_error hnew]
      trivial

theorem acceptReverseDccSend_spares (nick : Option Bytes) (ip token : ℕ) (ssl : Bool) :
    Spares w content (acceptReverseDccSend env nick filename ip size token ssl) := by
  intro s h
  by_cases hopen : CanOpen env ssl s
  · obtain ⟨sock, net, hnew⟩ := libircNewDccSession_run_of_canOpen hopen ip 0 none
    have hsession := h.withSession net (d := newSession s.dccLastId sock ip 0 none ssl) rfl rfl
    have hpassive : Spares w content (modifySession s.dccLastId fun d =>
        { d with passiveConnection := true, token := token }) :=
      modifySession_spares fun d _ hd => fits_of_same (d := d) rfl rfl rfl hd
    rw [acceptReverseDccSend_eq, run_bind_of_ok hnew]
    refine ensures_bind hpassive (fun _ => ?_) _ hsession
    refine ensures_ite (fun _ => setLasterror_spares _) fun _ => ?_
    refine ensures_ite (fun _ => setLasterror_spares _) fun _ => ?_
    exact recvFileRequestReverse_spares hname h.newer.ne' nick token
  · rcases libircNewDccSession_run_of_not_canOpen hopen ip 0 none with hnew | hnew
    · rw [acceptReverseDccSend_eq, run_bind_of_ok hnew]
      exact setLasterror_spares _ s h
    · rw [acceptReverseDccSend_eq, run_bind_of_error hnew]
      trivial

end others

section own
variable {s : Client} {ssl : Bool} (h : Awaits w content s) (hid : s.dccLastId = w.id)
  (hname : getCompletePath w.cfg filename = w.path) (hopen : CanOpen env ssl s)
include h hid hname hopen

theorem acceptDccSend_stores (nick : Option Bytes) (ip port : ℕ) :
    Ensures (fun t => t = s) (acceptDccSend env nick filename ip size port ssl)
      (fun _ => Stores w content) fun _ => True := by
  rintro t rfl
  obtain ⟨sock, net, hnew⟩ := libircNewDccSession_run_of_canOpen hopen ip port none
  have hsession := h.withSession net (d := newSession w.id sock ip port none ssl) rfl rfl
  have hstarts : Starts w content env filename size w.id _ :=
    hsession.starts (hid ▸ Nat.lt_succ_self _) hname
  have htaken : Ensures (Starts w content env filename size w.id) (do
      recvFileRequest env nick filename size w.id
      modifySession w.id fun d => { d with receivedFileSize := size })
      (fun _ => Stores w content) fun _ => True :=
    ensures_bind (recvFileRequest_stores nick) fun _ => setSize_spares _ size
  rw [acceptDccSend_eq, run_bind_of_ok hnew, hid]
  exact htaken _ hstarts

theorem acceptReverseDccSend_stores (hbind : env.bind = true) (hlisten : env.listen = true)
    (nick : Option Bytes) (ip token : ℕ) :
    Ensures (fun t => t = s) (acceptReverseDccSend env nick filename ip size token ssl)
      (fun _ => Stores w content) fun _ => True := by
  rintro t rfl
  obtain ⟨sock, net, hnew⟩ := libircNewDccSession_run_of_canOpen hopen ip 0 none
  let P : Client → Prop := fun t => Awaits w content t ∧ w.id < t.dccLastId
  have hsession : P (withSession t net (newSession w.id sock ip 0 none ssl)) :=
    ⟨h.withSession net rfl rfl, hid ▸ Nat.lt_succ_self _⟩
  have hpassive : Ensures P (modifySession w.id fun d =>
      { d with passiveConnection := true, token := token }) (fun _ => P) fun _ => True := by
    refine ensures_modify fun t ht => ⟨?_, ht.2⟩
    exact ht.1.updateSession fun d hd => fits_of_same (d := d) rfl rfl rfl hd
  have htaken : Ensures P (recvFileRequestReverse env nick filename size w.id token)
      (fun _ => Stores w content) fun _ => True :=
    (recvFileRequestReverse_stores nick token).weaken (fun _ ht => ht.1.starts ht.2 hname)
      (fun _ _ h => h) fun _ h => h
  rw [acceptReverseDccSend_eq, run_bind_of_ok hnew, hid]
  simp only [hbind, hlisten]
  exact ensures_bind hpassive (fun _ => htaken) _ hsession

end own

theorem acceptResume_spares (port position : ℕ) :
    Spares w content (acceptResume env port position) := by
  intro s h
  by_cases hwaiting : ∃ d, newestByPort s port = some d ∧ d.state = .waitingForResumeAck
  · obtain ⟨d, hf, hstate⟩ := hwaiting
    have hd := h.sessions d (List.mem_of_find?_eq_some hf)
    have hacknowledged : Stores w content (acknowledgedSession s d.id position) :=
      withNet_stores (h.sessionOp (f := resumed .init position) s.net
        (fun e _ he => fits_of_same (d := e) rfl rfl rfl he) []) _
    rw [acceptResume_run_of_waiting hf hstate]
    exact callCb_spares env d.id 1 position _ hacknowledged
  · have hnot : ∀ d, newestByPort s port = some d → d.state ≠ .waitingForResumeAck :=
      fun d hf hstate => hwaiting ⟨d, hf, hstate⟩
    obtain ⟨net, hrun⟩ := @acceptResume_run_of_not_waiting s env position port hnot
    rw [hrun]
    exact withNet_stores h net

theorem acceptResumeReverse_spares (nick : Option Bytes) (token : ℕ) :
    Spares w content (acceptResumeReverse env nick size token) := by
  intro s h
  cases hf : s.dccSessions.find? (fun d => d.passiveConnection && decide (d.token = token)) with
  | none =>
    rw [acceptResumeReverse_eq, libircFindDccSessionByToken,
      run_bind_of_ok (libircFind_run_of_none hf true)]
    exact h
  | some d =>
    by_cases hstate : d.state = .waitingForResumeAck
    · have hfound : (s.dccSessions.find? fun e => decide (e.id = d.id)).isSome :=
        List.find?_isSome.mpr ⟨d, List.mem_of_find?_eq_some hf, by simp⟩
      obtain ⟨d', hd'⟩ := Option.isSome_iff_exists.mp hfound
      obtain ⟨fault, s', hrun, -⟩ := acceptResumeReverse_halts hf hstate hd' env nick size
      rw [hrun]
      trivial
    · rw [acceptResumeReverse_eq, libircFindDccSessionByToken,
        run_bind_of_ok (libircFind_run_of_some hf)]
      simp only [ne_eq, hstate, not_false_eq_true, if_true]
      exact withNet_stores h _

end requests

def Elsewhere (cfg : XdccGetConfig) (path : Bytes) : Event → Prop
  | .request _ nick req => ∀ verified name, isValidRequestFromNick cfg nick = some verified →
      (dccRequestCall verified req).filename = some name → getCompletePath cfg name ≠ path
  | _ => True

theorem libircDccRequest_spares (env : Env) {nick : Option Bytes} {req : Bytes}
    (h : Elsewhere w.cfg w.path (.request env nick req)) :
    Spares w content (libircDccRequest env nick req) := by
  refine ensures_get_bind fun s hs => ?_
  have hof {x : ClientM Unit} (hx : Spares w content x) :
      Ensures (fun t => t = s) x (fun _ => Stores w content) fun _ => True :=
    hx.weaken (fun _ ht => ht ▸ hs) (fun _ _ h => h) fun _ h => h
  rw [hs.cfg]
  cases hverified : isValidRequestFromNick w.cfg nick with
  | none => exact hof (throw_spares _)
  | some verified =>
    have hname := h verified
    dsimp only
    cases hcall : dccRequestCall verified req with
    | acceptReverseDccSend filename ip size token ssl =>
      exact hof (acceptReverseDccSend_spares (hname filename hverified (by rw [hcall]; rfl)) nick ip
        token ssl)
    | acceptDccSend filename ip size port ssl =>
      exact hof (acceptDccSend_spares (hname filename hverified (by rw [hcall]; rfl)) nick ip port
        ssl)
    | acceptResumeReverse size token => exact hof (acceptResumeReverse_spares nick token)
    | acceptResume port size => exact hof (acceptResume_spares port size)
    | unhandled => exact hof (pure_spares _)
    | ignored => exact hof (pure_spares _)

theorem removeDccSessions_spares : Spares w content removeDccSessions := by
  refine ensures_modify fun s h => ?_
  exact {
    cfg := h.cfg
    newer := h.newer
    older := h.older
    sessions := fun d hd => h.sessions d (List.mem_of_mem_filter hd)
    contexts := h.contexts
    content := h.content }

theorem outputAllProgesses_spares : Spares w content outputAllProgesses := by
  refine ensures_modify fun s h => ?_
  exact {
    cfg := h.cfg
    newer := h.newer
    older := by
      dsimp only
      rw [List.length_map]
      exact h.older
    sessions := h.sessions
    contexts := by
      intro k c hc
      rw [List.getElem?_map] at hc
      obtain ⟨c', hold, rfl⟩ := Option.map_eq_some_iff.mp hc
      exact ⟨(h.contexts k c' hold).own, (h.contexts k c' hold).other⟩
    content := h.content }

theorem handle_stores {s : Client} {e : Event} (hs : s.halted = none) (hsound : SoundCounts s)
    (h : Stores w content s) (he : Elsewhere w.cfg w.path e) :
    Ensures (fun t => t = s) (handle e) (fun _ => Stores w (content ++ arriving w.id s e))
      fun _ => True := by
  cases e with
  | request env nick req => exact quiet_stores h (libircDccRequest_spares env he) rfl
  | addDescriptors => exact quiet_stores h removeDccSessions_spares rfl
  | outputTimer => exact quiet_stores h outputAllProgesses_spares rfl
  | socket i ready =>
    let s₁ := withNet s (lockedNet s.net)
    have hsound₁ : SoundCounts s₁ := ⟨hsound.1.changeNet _, hsound.2.same rfl rfl⟩
    have hlock : Ensures (fun t => t = s) libircMutexLock (fun _ t => t = s₁) fun _ => True := by
      rintro t rfl
      rfl
    refine ensures_bind hlock fun _ => ?_
    have hturn := processDescriptor_stores (s := s₁) hs hsound₁ (withNet_stores h _) i ready
    exact ensures_bind hturn fun _ => unlock_spares

theorem step_of_ensures {s : Client} {e : Event} {Q : Client → Prop} (hs : s.halted = none)
    (h : Ensures (fun t => t = s) (handle e) (fun _ => Q) fun _ => True)
    (hend : (step s e).halted = none) : Q (step s e) := by
  have hrun := h s rfl
  unfold step at hend ⊢
  rw [hs] at hend ⊢
  cases hr : (handle e).run s with
  | ok a s' =>
    rw [hr] at hrun
    exact hrun
  | error fault s' =>
    rw [hr] at hend
    exact absurd hend (by simp)

theorem running_of_step {s : Client} {e : Event} (hend : (step s e).halted = none) :
    s.halted = none := by
  cases hs : s.halted with
  | none => rfl
  | some fault =>
    rw [step_of_halted hs, hs] at hend
    exact absurd hend (by simp)

theorem running_of_run {s : Client} {events : List Event}
    (hend : (run step s events).halted = none) : s.halted = none := by
  induction events generalizing s with
  | nil => exact hend
  | cons e events ih => exact running_of_step (ih hend)

theorem run_stores {s : Client} {events : List Event} (hsound : CountsRun s)
    (h : Stores w content s) (he : ∀ e ∈ events, Elsewhere w.cfg w.path e)
    (hend : (run step s events).halted = none) :
    Stores w (content ++ concatAlong step (arriving w.id) s events) (run step s events) := by
  induction events generalizing s content with
  | nil =>
    rw [concatAlong, List.append_nil]
    exact h
  | cons e events ih =>
    have hnext : (step s e).halted = none := running_of_run hend
    have hs := running_of_step hnext
    have hstep := step_of_ensures hs
      (handle_stores hs (hsound hs) h (he e List.mem_cons_self)) hnext
    rw [concatAlong, ← List.append_assoc]
    exact ih (countsRun_step e hsound) hstep (fun e' he' => he e' (List.mem_cons_of_mem e he')) hend

end programs

/-- The offer is accepted, and no other download has its file open. -/
structure TakenUp (s : Client) (env : Env) (nick : Option Bytes) (req filename : Bytes) :
    Prop where
  starts : StartsDownload s (.request env nick req)
  name : (dccRequestCall true req).filename = some filename
  closed : ∀ c ∈ s.downloadContext, ∀ fd, c.fd = some fd →
    fd.fileName ≠ getCompletePath s.cfg filename

def nextDownload (s : Client) (filename : Bytes) : Watched :=
  let path := getCompletePath s.cfg filename
  { id := s.dccLastId, context := s.downloadContext.length, path := path,
    append := (s.files path).isSome, cfg := s.cfg }

section runs
variable {s : Client} {env : Env} {nick : Option Bytes} {req filename : Bytes}

theorem awaits_nextDownload (hsound : SoundCounts s)
    (hclosed : ∀ c ∈ s.downloadContext, ∀ fd, c.fd = some fd →
      fd.fileName ≠ getCompletePath s.cfg filename) :
    Awaits (nextDownload s filename) (fileContent s (getCompletePath s.cfg filename)) s where
  cfg := rfl
  next := rfl
  sessions := by
    intro d hd
    have hid : d.id ≠ s.dccLastId := (hsound.1.id_lt d hd).ne
    refine ⟨fun k hk => iff_of_false hid ?_, fun hown => absurd hown hid⟩
    obtain ⟨c, hc, -⟩ := hsound.2.attached d hd k hk
    exact (List.getElem?_eq_some_iff.mp hc).1.ne
  contexts := hclosed
  mode := rfl
  content := rfl

theorem step_stores (hsound : SoundCounts s) (h : TakenUp s env nick req filename)
    (hend : (step s (.request env nick req)).halted = none) :
    Stores (nextDownload s filename) (fileContent s (getCompletePath s.cfg filename))
      (step s (.request env nick req)) := by
  obtain ⟨hs, hpermitted, hcall⟩ := h.starts
  have hawaits := awaits_nextDownload hsound h.closed
  have hname := h.name
  refine step_of_ensures hs (ensures_get_bind fun t ht => ?_) hend
  subst ht
  rw [hpermitted]
  dsimp only
  cases hc : dccRequestCall true req with
  | acceptDccSend name ip size port ssl =>
    rw [hc] at hcall hname
    obtain rfl := Option.some.inj hname
    exact acceptDccSend_stores hawaits rfl rfl hcall.1 nick ip port
  | acceptReverseDccSend name ip size token ssl =>
    rw [hc] at hcall hname
    obtain rfl := Option.some.inj hname
    obtain ⟨⟨hopen, -⟩, hbind, hlisten⟩ := hcall
    exact acceptReverseDccSend_stores hawaits rfl rfl hopen hbind hlisten nick ip token
  | acceptResumeReverse size token => rw [hc] at hcall; exact hcall.elim
  | acceptResume port size => rw [hc] at hcall; exact hcall.elim
  | unhandled => rw [hc] at hcall; exact hcall.elim
  | ignored => rw [hc] at hcall; exact hcall.elim

/-- What the peer of a download sends is added to its file, and nothing else is, whatever other
    downloads do at the same time. -/
theorem download_kept_apart (cfg : XdccGetConfig) (net : Net) (files : Bytes → Option Bytes)
    (before after : List Event)
    (h : TakenUp (run step (initial cfg net files) before) env nick req filename)
    (helse : ∀ e ∈ after, Elsewhere cfg (getCompletePath cfg filename) e)
    (hend : (run step (initial cfg net files) (before ++ .request env nick req :: after)).halted =
      none) :
    (run step (initial cfg net files) (before ++ .request env nick req :: after)).files
        (getCompletePath cfg filename) =
      some (fileContent (run step (initial cfg net files) before) (getCompletePath cfg filename) ++
        concatAlong step (arriving (run step (initial cfg net files) before).dccLastId)
          (run step (initial cfg net files) before) (.request env nick req :: after)) := by
  let Configured : Client → Prop := fun s => s.cfg = cfg
  have hkeeps : ∀ s e, CountsRun s → CountsRun (step s e) := fun _ e hs => countsRun_step e hs
  have hconfigured : ∀ s e, Configured s → Configured (step s e) :=
    fun s e hs => (cfg_step s e).trans hs
  have hsound := run_invariant hkeeps (countsRun_initial cfg net files) before
  have hcfg : Configured (run step (initial cfg net files) before) :=
    run_invariant hconfigured rfl before
  rw [run_append] at hend ⊢
  generalize run step (initial cfg net files) before = s at *
  obtain rfl : s.cfg = cfg := hcfg
  have hnext : (step s (.request env nick req)).halted = none := running_of_run hend
  have hstep := step_stores (hsound (running_of_step hnext)) h hnext
  exact (run_stores (countsRun_step _ hsound) hstep helse hend).content

end runs

def chunkOf (text : String) (pos : 0 < (bytes text).length)
    (le : (bytes text).length ≤ libircDccBufferSize) : Chunk := ⟨bytes text, pos, le⟩

def byTurns : List Event :=
  [request "tob" "DCC SEND b 16909061 5000 4", .socket 1 (.connecting true),
    .socket 2 (.connecting true), .socket 1 (.receiving [.data (chunkOf "one" (by decide) (by decide))]),
    .socket 2 (.receiving [.data (chunkOf "tw" (by decide) (by decide))]),
    .socket 1 (.confirming (.sent 4)),
    .socket 1 (.receiving [.data (chunkOf "!" (by decide) (by decide))]),
    .socket 2 (.confirming (.sent 4)),
    .socket 2 (.receiving [.closed])]

theorem elsewhere_byTurns : ∀ e ∈ byTurns, Elsewhere twoBots (bytes "d/a") e := by
  intro e he
  simp only [byTurns, List.mem_cons, List.not_mem_nil, or_false] at he
  rcases he with rfl | rfl | rfl | rfl | rfl | rfl | rfl | rfl | rfl
  · intro verified name hverified hname
    have hpermitted : isValidRequestFromNick twoBots (some (bytes "tob")) = some true := by
      decide +kernel
    have hb : (dccRequestCall true (bytes "DCC SEND b 16909061 5000 4")).filename =
        some (bytes "b") := by decide +kernel
    obtain rfl := Option.some.inj (hverified.symm.trans hpermitted)
    obtain rfl := Option.some.inj (hname.symm.trans hb)
    decide +kernel
  all_goals trivial

theorem both_by_turns :
    (run step (initial twoBots connected noFiles)
        (request "bot" "DCC SEND a 16909060 5000 4" :: byTurns)).files (bytes "d/a") =
      some (bytes "one!") := by
  have h : TakenUp (run step (initial twoBots connected noFiles) []) readyEnv (some (bytes "bot"))
      (bytes "DCC SEND a 16909060 5000 4") (bytes "a") :=
    ⟨by decide +kernel, by decide +kernel, by simp [initial]⟩
  have hpath : getCompletePath twoBots (bytes "a") = bytes "d/a" := by decide +kernel
  have hkept := download_kept_apart twoBots connected noFiles [] byTurns h
    (hpath ▸ elsewhere_byTurns) (by decide +kernel)
  rw [hpath] at hkept
  exact hkept.trans (by decide +kernel)

end Xdccget.SeparateFiles
