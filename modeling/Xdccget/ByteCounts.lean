import Xdccget.DownloadTurns
import Xdccget.ResumeAddressing

set_option autoImplicit false

/-!
# The two counts of a transfer

The library counts the bytes of a session in `file_confirm_offset`, the application
counts them in the progress record that the session points to. Between two steps of a
process that runs the counts are equal, and the acknowledgement carries their low half.
-/
namespace Xdccget.ByteCounts
open CText DccMessages ClientState DccSessions Downloads DccEvents HaltingPrograms SessionSpecs
  DownloadSpecs EventSpecs TableChanges SessionCallbacks CallbackSteps ResumeAddressing StepRuns
open DownloadTurns (outputProgress_sizeRcvd)

def CountedAt (s : Client) (context n : ℕ) : Prop :=
  ∃ c, s.downloadContext[context]? = some c ∧ c.progress.sizeRcvd = n

/-- Every session that points to a record has counted the same, and no two point to the same.
    The pointer comes with the callback. -/
structure Counted (s : Client) : Prop where
  nodup : (s.dccSessions.map (·.id)).Nodup
  given : ∀ d ∈ s.dccSessions, d.cb ≠ none → d.ctx ≠ none
  attached : ∀ d ∈ s.dccSessions, ∀ k, d.ctx = some k → CountedAt s k d.fileConfirmOffset
  apart : ∀ d ∈ s.dccSessions, ∀ e ∈ s.dccSessions, ∀ k, d.ctx = some k → e.ctx = some k →
    d.id = e.id

section counted
variable {s s' : Client} {id : ℕ} {d : DccSession} {f : DccSession → DccSession}

theorem Counted.eq_of_find (h : Counted s) {e : DccSession}
    (hd : s.dccSessions.find? (fun d => d.id = id) = some d) (he : e ∈ s.dccSessions)
    (hid : e.id = id) : e = d := by
  have hmem : d ∈ s.dccSessions := List.mem_of_find?_eq_some hd
  have hdid : d.id = id := by simpa using List.find?_some hd
  exact List.inj_on_of_nodup_map h.nodup he hmem (hid.trans hdid.symm)

theorem Counted.keep (h : Counted s) (hid : ∀ d, (f d).id = d.id)
    (hf : ∀ d, (f d).cb = d.cb ∧ (f d).ctx = d.ctx ∧ (f d).fileConfirmOffset = d.fileConfirmOffset)
    (hsessions : s'.dccSessions = updateSession id f s.dccSessions)
    (htable : ∀ k n, CountedAt s k n → CountedAt s' k n) : Counted s' := by
  have hold : ∀ d ∈ s'.dccSessions, ∃ e ∈ s.dccSessions, d.id = e.id ∧ d.cb = e.cb ∧
      d.ctx = e.ctx ∧ d.fileConfirmOffset = e.fileConfirmOffset := by
    intro d hd
    rw [hsessions] at hd
    rcases mem_updateSession hd with ⟨e, he, -, rfl⟩ | ⟨hd, -⟩
    · exact ⟨e, he, hid e, hf e⟩
    · exact ⟨d, hd, rfl, rfl, rfl, rfl⟩
  constructor
  · rw [hsessions, map_id_updateSession hid]
    exact h.nodup
  · intro d hd hcb
    obtain ⟨e, he, -, hecb, hctx, -⟩ := hold d hd
    rw [hctx]
    exact h.given e he (hecb ▸ hcb)
  · intro d hd k hk
    obtain ⟨e, he, -, -, hctx, hoffset⟩ := hold d hd
    rw [hoffset]
    exact htable k _ (h.attached e he k (hctx ▸ hk))
  · intro d hd e he k hdk hek
    obtain ⟨d', hd', hdid, -, hdctx, -⟩ := hold d hd
    obtain ⟨e', he', heid, -, hectx, -⟩ := hold e he
    rw [hdid, heid]
    exact h.apart d' hd' e' he' k (hdctx ▸ hdk) (hectx ▸ hek)

theorem Counted.rework (h : Counted s) (hsessions : s'.dccSessions = s.dccSessions)
    (htable : ∀ k n, CountedAt s k n → CountedAt s' k n) : Counted s' := by
  have hself : s'.dccSessions = updateSession 0 (fun d => d) s.dccSessions := by
    rw [hsessions, updateSession_self]
  exact h.keep (fun _ => rfl) (fun _ => ⟨rfl, rfl, rfl⟩) hself htable

theorem Counted.same (h : Counted s) (hsessions : s'.dccSessions = s.dccSessions)
    (htable : s'.downloadContext = s.downloadContext) : Counted s' := by
  refine h.rework hsessions ?_
  intro k n hk
  unfold CountedAt
  rw [htable]
  exact hk

theorem Counted.change (h : Counted s) (hd : s.dccSessions.find? (fun d => d.id = id) = some d)
    (hid : ∀ d, (f d).id = d.id)
    (hsessions : s'.dccSessions = updateSession id f s.dccSessions)
    (hgiven : (f d).ctx ≠ none)
    (hown : ∀ k, (f d).ctx = some k → CountedAt s' k (f d).fileConfirmOffset ∧
      ∀ e ∈ s.dccSessions, e.ctx = some k → e.id = id)
    (hother : ∀ e ∈ s.dccSessions, e.id ≠ id → ∀ k n, e.ctx = some k → CountedAt s k n →
      CountedAt s' k n) : Counted s' := by
  have hmem : ∀ e ∈ s'.dccSessions, e = f d ∨ e ∈ s.dccSessions ∧ e.id ≠ id := by
    intro e he
    rw [hsessions] at he
    rcases mem_updateSession he with ⟨e', he', heid, rfl⟩ | hother
    · exact Or.inl (by rw [h.eq_of_find hd he' heid])
    · exact Or.inr hother
  constructor
  · rw [hsessions, map_id_updateSession hid]
    exact h.nodup
  · intro e he hcb
    rcases hmem e he with rfl | ⟨he, -⟩
    · exact hgiven
    · exact h.given e he hcb
  · intro e he k hk
    rcases hmem e he with rfl | ⟨he, hne⟩
    · exact (hown k hk).1
    · exact hother e he hne k _ hk (h.attached e he k hk)
  · intro e he e' he' k hk hk'
    rcases hmem e he with rfl | ⟨he, hne⟩ <;> rcases hmem e' he' with rfl | ⟨he', hne'⟩
    · rfl
    · exact absurd ((hown k hk).2 e' he' hk') hne'
    · exact absurd ((hown k hk').2 e he hk) hne
    · exact h.apart e he e' he' k hk hk'

theorem countedAt_modify {k : ℕ} {g : DccDownloadContext → DccDownloadContext} {c : DccDownloadContext}
    (hc : s.downloadContext[k]? = some c)
    (htable : s'.downloadContext = s.downloadContext.modify k g) :
    CountedAt s' k (g c).progress.sizeRcvd := by
  refine ⟨g c, ?_, rfl⟩
  rw [htable]
  exact getElem?_modify_self hc g

theorem countedAt_modify_ne {j k n : ℕ} {g : DccDownloadContext → DccDownloadContext} (hjk : k ≠ j)
    (htable : s'.downloadContext = s.downloadContext.modify k g) (h : CountedAt s j n) :
    CountedAt s' j n := by
  obtain ⟨c, hc, hcount⟩ := h
  exact ⟨c, by simp [htable, hjk, hc], hcount⟩

theorem countedAt_modify_of_same {j k n : ℕ} {g : DccDownloadContext → DccDownloadContext}
    (hg : ∀ c, (g c).progress.sizeRcvd = c.progress.sizeRcvd)
    (htable : s'.downloadContext = s.downloadContext.modify k g) (h : CountedAt s j n) :
    CountedAt s' j n := by
  by_cases hjk : k = j
  · subst hjk
    obtain ⟨c, hc, rfl⟩ := h
    exact hg c ▸ countedAt_modify hc htable
  · exact countedAt_modify_ne hjk htable h

theorem Counted.free (h : Counted s) {k : ℕ}
    (hd : s.dccSessions.find? (fun d => d.id = id) = some d) (hk : d.ctx = some k) :
    ∀ e ∈ s.dccSessions, e.ctx = some k → e.id = id := by
  have hmem : d ∈ s.dccSessions := List.mem_of_find?_eq_some hd
  have hid : d.id = id := by simpa using List.find?_some hd
  intro e he hek
  exact (h.apart e he d hmem k hek hk).trans hid

theorem Counted.recount (h : Counted s) {k : ℕ} {g : DccDownloadContext → DccDownloadContext}
    (hd : s.dccSessions.find? (fun d => d.id = id) = some d) (hid : ∀ d, (f d).id = d.id)
    (hk : d.ctx = some k) (hctx : (f d).ctx = some k) {c : DccDownloadContext}
    (hc : s.downloadContext[k]? = some c)
    (hg : (g c).progress.sizeRcvd = (f d).fileConfirmOffset)
    (hsessions : s'.dccSessions = updateSession id f s.dccSessions)
    (htable : s'.downloadContext = s.downloadContext.modify k g) : Counted s' := by
  have hfree := h.free hd hk
  refine h.change hd hid hsessions (by simp [hctx]) ?_ ?_
  · intro j hj
    obtain rfl : k = j := Option.some.inj (hctx.symm.trans hj)
    exact ⟨hg ▸ countedAt_modify hc htable, hfree⟩
  · intro e he hne j n hj
    refine countedAt_modify_ne (fun hkj => hne (hfree e he ?_)) htable
    rw [hkj]
    exact hj

end counted

abbrev Counts (P : Client → Prop) {α : Type} (x : ClientM α) : Prop :=
  Ensures P x (fun _ => Counted) fun _ => True

def Receives (id : ℕ) (s : Client) : Prop := Calls id .callbackDccRecvFile s ∧ Counted s

abbrev Receiving (id : ℕ) (x : ClientM Unit) : Prop :=
  Ensures (Receives id) x (fun _ => Receives id) fun _ => True

section turns
variable {id : ℕ}

theorem receiving_of {x : ClientM Unit}
    (hcalls : Ensures (Calls id .callbackDccRecvFile) x (fun _ => Calls id .callbackDccRecvFile) Quiet)
    (hcounts : Counts (Receives id) x) : Receiving id x := by
  intro s h
  have hleft := hcalls s h.1
  have hright := hcounts s h
  cases hx : x.run s with
  | ok a s' =>
    rw [hx] at hleft hright
    exact ⟨hleft, hright⟩
  | error fault s' => trivial

theorem modify_counts {g : Client → Client} (h : ∀ s, (g s).dccSessions = s.dccSessions ∧
    (g s).downloadContext = s.downloadContext) : Counts Counted (modify g : ClientM PUnit) :=
  ensures_modify fun s hs => hs.same (h s).1 (h s).2

theorem modifySession_counts {f : DccSession → DccSession} (hid : ∀ d, (f d).id = d.id)
    (hf : ∀ d, (f d).cb = d.cb ∧ (f d).ctx = d.ctx ∧
      (f d).fileConfirmOffset = d.fileConfirmOffset) : Counts Counted (modifySession id f) :=
  ensures_modify fun _ hs => hs.keep hid hf rfl fun _ _ h => h

theorem libircDccDestroyNolock_counts : Counts Counted (libircDccDestroyNolock id) := by
  intro s h
  rw [libircDccDestroyNolock_run]
  exact h.keep (f := removed) (fun _ => rfl) (fun _ => ⟨rfl, rfl, rfl⟩) rfl fun _ _ h => h

theorem counts_of {α : Type} {P : Client → Prop} {x : ClientM α} (h : Counts Counted x)
    (hP : ∀ s, P s → Counted s) : Counts P x :=
  h.weaken hP (fun _ _ h => h) fun _ h => h

theorem lock_receiving : Receiving id libircMutexLock :=
  receiving_of lock_calls (counts_of (modify_counts fun _ => ⟨rfl, rfl⟩) fun _ h => h.2)

theorem unlock_receiving : Receiving id libircMutexUnlock :=
  receiving_of unlock_calls (counts_of (modify_counts fun _ => ⟨rfl, rfl⟩) fun _ h => h.2)

theorem report_receiving (status length : ℕ) : Receiving id (callCb noEnv id status none length) := by
  refine receiving_of (report_keeps status length) fun s h => ?_
  cases hf : s.dccSessions.find? (fun d => decide (d.id = id)) with
  | none =>
    simp only [callCb, EStateM.run_bind, EStateM.run_get, hf]
    exact h.2
  | some d =>
    have hmem : d ∈ s.dccSessions := List.mem_of_find?_eq_some hf
    have hid : d.id = id := by simpa using List.find?_some hf
    rw [callCb_run_of_recvFile hf (h.1.2 d hmem hid).1, callbackDccRecvFile_run_of_none]
    exact h.2.same rfl rfl

theorem receiveFailed_counts (err : ℕ) : Counts (Receives id) (receiveFailed id err) := by
  refine ensures_bind unlock_receiving fun _ => ?_
  refine ensures_bind (report_receiving err 0) fun _ => ?_
  refine ensures_bind lock_receiving fun _ => ?_
  exact counts_of libircDccDestroyNolock_counts fun _ h => h.2

theorem receiveChunk_counts {s : Client} {d : DccSession} (h : Counted s)
    (hd : s.dccSessions.find? (fun d => d.id = id) = some d) (hcb : d.cb = some .callbackDccRecvFile)
    (chunk : Chunk) :
    (∃ fault t, (receiveChunk id chunk).run s = .error fault t) ∨
    ∃ t, (receiveChunk id chunk).run s = .ok ⟨⟩ t ∧ Counted t ∧
      ∃ d', t.dccSessions.find? (fun d => d.id = id) = some d' ∧ d'.cb = some .callbackDccRecvFile := by
  have hpos := chunk.pos
  have hfind : ∀ t : Client, t.dccSessions = (arrived s id chunk.data.length).dccSessions →
      ∃ d', (confirming t id).dccSessions.find? (fun d => d.id = id) = some d' ∧
        d'.cb = some .callbackDccRecvFile := by
    intro t ht
    have harrived : t.dccSessions.find? (fun d => d.id = id) = some (withOffset chunk.data.length d) := by
      rw [ht]
      exact find?_sessionOp hd _ (by exact fun _ => rfl) _
    exact ⟨_, find?_sessionOp harrived _ (by exact fun _ => rfl) _, hcb⟩
  have hconfirm : ∀ t : Client, Counted t → Counted (confirming t id) := by
    intro t ht
    let f : DccSession → DccSession := fun d =>
      { d with state := if t.cfg.dontConfirmOffsets then .connected else .confirmSize }
    exact ht.keep (f := f) (fun _ => rfl) (fun _ => ⟨rfl, rfl, rfl⟩) rfl fun _ _ h => h
  rw [receiveChunk_run hd hcb]
  cases hctx : d.ctx with
  | none => exact absurd hctx (h.given d (List.mem_of_find?_eq_some hd) (by simp [hcb]))
  | some k =>
    obtain ⟨c, hc, hcount⟩ := h.attached d (List.mem_of_find?_eq_some hd) k hctx
    have hc₁ : (arrived s id chunk.data.length).downloadContext[k]? = some c := hc
    cases hfd : c.fd with
    | none =>
      left
      exact ⟨.nullFile, _, run_bind_of_error (callbackDccRecvFile_run_of_closed hc₁ hfd hpos)⟩
    | some fd =>
      have hstored : Counted (chunkOp (arrived s id chunk.data.length) k fd chunk.data) := by
        refine h.recount (f := withOffset chunk.data.length) (g := receivedInto fd chunk.data.length)
          hd (by exact fun _ => rfl) hctx hctx hc ?_ rfl rfl
        simp only [receivedInto, withOffset, hcount]
      by_cases hsize : u64 (c.progress.sizeRcvd + chunk.data.length) = c.progress.completeFileSize
      · obtain ⟨net, l, hrun, -⟩ := callbackDccRecvFile_run_of_last hc₁ hfd hpos hsize
        rw [run_bind_of_ok hrun, afterChunk_run]
        refine Or.inr ⟨_, rfl, hconfirm _ (hstored.rework rfl fun j n hj => ?_), hfind _ rfl⟩
        exact countedAt_modify_of_same (fun c => outputProgress_sizeRcvd c.progress) rfl hj
      · rw [run_bind_of_ok (callbackDccRecvFile_run_of_unfinished hc₁ hfd hpos hsize), afterChunk_run]
        exact Or.inr ⟨_, rfl, hconfirm _ hstored, hfind _ rfl⟩

def Present (id : ℕ) (s : Client) : Prop :=
  Receives id s ∧ ∃ d, s.dccSessions.find? (fun d => d.id = id) = some d

theorem receiveChunk_present (chunk : Chunk) :
    Ensures (Present id) (receiveChunk id chunk) (fun _ => Present id) fun _ => True := by
  intro s ⟨h, d, hd⟩
  have hmem : d ∈ s.dccSessions := List.mem_of_find?_eq_some hd
  have hid : d.id = id := by simpa using List.find?_some hd
  have hcalls := receiveChunk_keeps chunk s h.1
  rcases receiveChunk_counts h.2 hd (h.1.2 d hmem hid).1 chunk with
    ⟨fault, t, hrun⟩ | ⟨t, hrun, hcounted, d', hd', -⟩
  · rw [hrun]
    trivial
  · rw [hrun] at hcalls ⊢
    exact ⟨⟨hcalls, hcounted⟩, d', hd'⟩

theorem recvDccFile_counts (ssl : Bool) (results : List RecvResult) :
    Counts (Present id) (recvDccFile id ssl results) := by
  have hpure : Counts (Present id) (pure ()) := ensures_pure fun _ h => h.1.2
  have hfailed (err : ℕ) : Counts (Present id) (receiveFailed id err) :=
    (receiveFailed_counts err).weaken (fun _ h => h.1) (fun _ _ h => h) fun _ h => h
  induction results with
  | nil => exact hpure
  | cons result more ih =>
    cases result with
    | again => exact ensures_ite (fun _ => hpure) fun _ => ih
    | wantWrite =>
      refine ensures_ite (fun _ => ?_) fun _ => ih
      exact counts_of (modifySession_counts (fun _ => rfl) fun _ => ⟨rfl, rfl, rfl⟩) fun _ h => h.1.2
    | error => exact hfailed libircErrRead
    | closed => exact hfailed libircErrClosed
    | data chunk =>
      refine ensures_bind (receiveChunk_present chunk) fun _ => ?_
      exact ensures_ite (fun _ => ih) fun _ => hpure

theorem sendCurrentFileOffsetToSender_counts (dcc : DccSession) (result : SendResult) :
    Counts (Receives dcc.id) (sendCurrentFileOffsetToSender dcc result) := by
  have hpure : Counts (Receives dcc.id) (pure ()) := ensures_pure fun _ h => h.2
  have hstate (state : LibircState) :
      Counts (Receives dcc.id) (modifySession dcc.id fun d => { d with state := state }) :=
    counts_of (modifySession_counts (fun _ => rfl) fun _ => ⟨rfl, rfl, rfl⟩) fun _ h => h.2
  have hreport (err : ℕ) : Receiving dcc.id (do
      libircMutexUnlock
      callCb noEnv dcc.id err none 0
      libircMutexLock) := by
    refine ensures_bind unlock_receiving fun _ => ?_
    exact ensures_bind (report_receiving err 0) fun _ => lock_receiving
  have hreported (err : ℕ) : Counts (Receives dcc.id) (do
      libircMutexUnlock
      callCb noEnv dcc.id err none 0
      libircMutexLock) :=
    (hreport err).weaken (fun _ h => h) (fun _ _ h => h.2) fun _ h => h
  have hrecord (a : Action) (ha : Neutral a) : Receiving dcc.id (record a) :=
    receiving_of (record_calls ha) (counts_of (modify_counts fun _ => ⟨rfl, rfl⟩) fun _ h => h.2)
  cases result with
  | again => exact hpure
  | wantRead => exact ensures_ite (fun _ => hstate .connected) fun _ => hpure
  | error => exact hreported _
  | sent len =>
    cases len with
    | zero => exact hreported _
    | succ len =>
      refine ensures_bind (hrecord _ (by exact trivial)) fun _ => ?_
      refine ensures_ite (fun _ => ?_) fun _ => hstate .connected
      refine ensures_bind unlock_receiving fun _ => ?_
      refine ensures_bind (report_receiving libircErrOk 0) fun _ => ?_
      refine ensures_bind lock_receiving fun _ => ?_
      exact counts_of libircDccDestroyNolock_counts fun _ h => h.2

/-- What every step keeps: the invariant of the callbacks and that of the counts. -/
def SoundCounts (s : Client) : Prop := Sound s ∧ Counted s

theorem processDescriptor_counts (ready : SocketReady) :
    Counts SoundCounts (processDescriptor id ready) := by
  have hlookup : Ensures SoundCounts (libircFindDccSession id false)
      (fun found s => SoundCounts s ∧ s.dccSessions.find? (fun d => d.id = id) = found)
      fun _ => True := by
    intro s h
    rw [libircFindDccSession, libircFind_run_nolock]
    exact ⟨h, rfl⟩
  rw [processDescriptor_eq]
  refine ensures_bind hlookup fun found => ?_
  cases found with
  | none => exact ensures_pure fun _ h => h.1.2
  | some d =>
    have hpresent : ∀ s, awaited d = some (.data .callbackDccRecvFile) →
        SoundCounts s ∧ s.dccSessions.find? (fun d => d.id = id) = some d → Present id s :=
      fun s hawaited h => ⟨⟨calls_of_awaited h.1.1 h.2 hawaited, h.1.2⟩, d, h.2⟩
    dsimp only
    split
    · refine ensures_ite (fun _ => ?_) fun _ => ?_
      · exact counts_of (modifySession_counts (fun _ => rfl) fun _ => ⟨rfl, rfl, rfl⟩) fun _ h => h.1.2
      · exact counts_of libircDccDestroyNolock_counts fun _ h => h.1.2
    · next hstate =>
      exact (recvDccFile_counts d.ssl _).weaken
        (fun s h => hpresent s (by simp [awaited, hstate]) h) (fun _ _ h => h) fun _ h => h
    · next hstate =>
      intro s h
      have hid : d.id = id := by simpa using List.find?_some h.2
      subst hid
      exact sendCurrentFileOffsetToSender_counts d _ s
        (hpresent s (by simp [awaited, hstate]) h).1
    · exact counts_of (modifySession_counts (fun _ => rfl) fun _ => ⟨rfl, rfl, rfl⟩) fun _ h => h.1.2
    · exact ensures_pure fun _ h => h.1.2

end turns

/-- The record is free for the sessions of this id, and has counted the same. -/
structure Attachable (id k : ℕ) (s : Client) : Prop where
  counted : Counted s
  same : ∀ d ∈ s.dccSessions, d.id = id → CountedAt s k d.fileConfirmOffset
  free : ∀ d ∈ s.dccSessions, d.ctx = some k → d.id = id

abbrev Attaches (id k : ℕ) (call : ClientM ℕ) : Prop :=
  Ensures (Attachable id k) call (fun ret s => ret = 0 → Counted s) fun _ => True

section requests
variable {id k : ℕ} {env : Env} {filename : Bytes} {size : ℕ}

theorem Attachable.attach {s : Client} (h : Attachable id k s) {d : DccSession}
    (hd : s.dccSessions.find? (fun d => d.id = id) = some d) (net : Net)
    {f : DccSession → DccSession} (hid : ∀ d, (f d).id = d.id)
    (hf : ∀ d, (f d).ctx = some k ∧ (f d).fileConfirmOffset = d.fileConfirmOffset)
    (l : List Action) : Counted (sessionOp s net id f l) := by
  refine h.counted.change hd hid rfl (by simp [(hf d).1]) ?_ fun _ _ _ _ _ _ h => h
  intro j hj
  obtain rfl : k = j := Option.some.inj ((hf d).1.symm.trans hj)
  have hmem : d ∈ s.dccSessions := List.mem_of_find?_eq_some hd
  have hdid : d.id = id := by simpa using List.find?_some hd
  rw [(hf d).2]
  exact ⟨h.same d hmem hdid, h.free⟩

theorem attaches_of {call : ClientM ℕ}
    (hnot : ∀ s, NotInit s id → ∃ net, call.run s = .ok 1 (withNet s net))
    (hnew : ∀ s d, s.dccSessions.find? (fun d => d.id = id) = some d → d.state = .init →
      (∃ s', call.run s = .ok 1 s') ∨
      ∃ net f l, call.run s = .ok 0 (sessionOp s net id f l) ∧ (∀ d, (f d).id = d.id) ∧
        ∀ d, (f d).ctx = some k ∧ (f d).fileConfirmOffset = d.fileConfirmOffset) :
    Attaches id k call := by
  intro s h
  rcases exists_init_or_notInit s id with ⟨d, hd, hinit⟩ | hs
  · rcases hnew s d hd hinit with ⟨s', hrun⟩ | ⟨net, f, l, hrun, hid, hf⟩
    · rw [hrun]
      simp
    · rw [hrun]
      exact fun _ => h.attach hd net hid hf l
  · obtain ⟨net, hrun⟩ := hnot s hs
    rw [hrun]
    simp

theorem ircDccAccept_attaches (env : Env) (id k : ℕ) :
    Attaches id k (ircDccAccept env id (some k) .callbackDccRecvFile) := by
  refine attaches_of (fun s hs => ircDccAccept_run_of_notInit hs env _ _) fun s d hd hinit => ?_
  obtain ⟨ret, net, f, hrun, haccepted⟩ :=
    ircDccAccept_run hd hinit env (some k) .callbackDccRecvFile
  cases haccepted with
  | done _ _ => exact Or.inr ⟨net, _, _, hrun, fun _ => rfl, fun _ => ⟨rfl, rfl⟩⟩
  | refused _ => exact Or.inl ⟨_, hrun⟩
  | noHandshake _ _ => exact Or.inl ⟨_, hrun⟩

theorem ircDccResume_attaches (id k : ℕ) (nick : Option Bytes) (position : ℕ) :
    Attaches id k (ircDccResume id (some k) .callbackDccResumeFile nick position) := by
  refine attaches_of (fun s hs => ircDccResume_run_of_notInit hs _ _ nick position)
    fun s d hd hinit => ?_
  obtain ⟨net, l, hrun, -⟩ :=
    ircDccResume_run hd hinit (some k) .callbackDccResumeFile nick position
  exact Or.inr ⟨net, _, l, hrun, fun _ => rfl, fun _ => ⟨rfl, rfl⟩⟩

theorem ircDccResumeReverse_attaches (id k : ℕ) (nick : Option Bytes) (position token : ℕ) :
    Attaches id k
      (ircDccResumeReverse id (some k) .callbackDccResumeFileReverse nick position token) := by
  refine attaches_of (fun s hs => ircDccResumeReverse_run_of_notInit hs _ _ nick position token)
    fun s d hd hinit => ?_
  obtain ⟨net, l, hrun, -⟩ := ircDccResumeReverse_run hd hinit (some k)
    .callbackDccResumeFileReverse nick position token
  exact Or.inr ⟨net, _, l, hrun, fun _ => rfl, fun _ => ⟨rfl, rfl⟩⟩

theorem ircDccAcceptReverse_attaches (env : Env) (id k : ℕ) (nick : Option Bytes)
    (filename : Bytes) (size token : ℕ) :
    Attaches id k
      (ircDccAcceptReverse env id (some k) .callbackDccRecvFile nick filename size token) := by
  refine attaches_of
    (fun s hs => ircDccAcceptReverse_run_of_notInit hs env _ _ nick filename size token)
    fun s d hd hinit => ?_
  rcases ircDccAcceptReverse_run hd hinit env (some k) .callbackDccRecvFile nick filename size token
    with ⟨-, net, hrun⟩ | ⟨addr, net, l, -, hrun, -⟩
  · exact Or.inl ⟨_, hrun⟩
  · exact Or.inr ⟨net, _, l, hrun, fun _ => rfl, fun _ => ⟨rfl, rfl⟩⟩

theorem exitOnFailure_counts {P : Client → Prop} {call : ClientM ℕ}
    (h : Ensures P call (fun ret s => ret = 0 → Counted s) fun _ => True) :
    Counts P (exitOnFailure call) := by
  refine ensures_bind h fun ret => ensures_ite (fun _ => ?_) fun hret => ?_
  · exact ensures_throw fun _ _ => trivial
  · exact ensures_pure fun _ hs => hs (not_not.mp hret)

def Unreceived (id : ℕ) (s : Client) : Prop :=
  Counted s ∧ ∀ d ∈ s.dccSessions, d.id = id → d.fileConfirmOffset = 0

theorem attachable_withDownload {s : Client} (h : Unreceived id s)
    {progress : DccDownloadProgress} (hprogress : progress.sizeRcvd = 0) (fd : Option FileIo)
    (files : Bytes → Option Bytes) :
    Attachable id s.downloadContext.length (withDownload s progress fd files) := by
  have hold : ∀ k n, CountedAt s k n → CountedAt (withDownload s progress fd files) k n := by
    intro k n ⟨c, hc, hcount⟩
    have hlt : k < s.downloadContext.length := (List.getElem?_eq_some_iff.mp hc).1
    refine ⟨c, ?_, hcount⟩
    rw [withDownload_downloadContext, List.getElem?_append_left hlt]
    exact hc
  constructor
  · exact h.1.rework rfl hold
  · intro d hd hid
    rw [h.2 d hd hid]
    exact ⟨_, List.getElem?_concat_length, hprogress⟩
  · intro d hd hctx
    obtain ⟨c, hc, -⟩ := h.1.attached d hd _ hctx
    exact absurd hc (by simp)

theorem recvFileWith_counts {accept : ℕ → ClientM ℕ} {resume : ℕ → ℕ → ClientM ℕ}
    (haccept : ∀ k, Attaches id k (accept k))
    (hresume : ∀ k position, Attaches id k (resume k position)) :
    Counts (Unreceived id) (recvFileWith env filename size accept resume) := by
  intro s h
  cases hlegal : containsIllegalChars filename with
  | true =>
    rw [recvFileWith_run_of_illegal hlegal]
    trivial
  | false =>
    cases hopen : env.fopen with
    | false =>
      rw [recvFileWith_run_of_unopened hlegal hopen]
      trivial
    | true =>
      cases hf : s.files (getCompletePath s.cfg filename) with
      | none =>
        rw [recvFileWith_run_of_missing hlegal hopen hf]
        exact exitOnFailure_counts (haccept _) _ (attachable_withDownload h rfl _ _)
      | some content =>
        rw [recvFileWith_run_of_existing hlegal hopen hf]
        refine ensures_ite (fun _ => ensures_throw fun _ _ => trivial) (fun _ => ?_) _
          (attachable_withDownload h rfl _ _)
        exact ensures_ite (fun _ => exitOnFailure_counts (haccept _))
          fun _ => exitOnFailure_counts (hresume _ _)

theorem recvFileRequest_counts (nick : Option Bytes) :
    Counts (Unreceived id) (recvFileRequest env nick filename size id) :=
  recvFileWith_counts (ircDccAccept_attaches env id) fun k => ircDccResume_attaches id k nick

theorem recvFileRequestReverse_counts (nick : Option Bytes) (token : ℕ) :
    Counts (Unreceived id) (recvFileRequestReverse env nick filename size id token) :=
  recvFileWith_counts (fun k => ircDccAcceptReverse_attaches env id k nick filename size token)
    fun k position => ircDccResumeReverse_attaches id k nick position token

theorem unreceived_withSession {s : Client} (h : SoundCounts s) (net : Net)
    (sock ip port : ℕ) (ssl : Bool) :
    Unreceived s.dccLastId
      (withSession s net (newSession s.dccLastId sock ip port none ssl)) := by
  have hfresh : ∀ d ∈ s.dccSessions, d.id ≠ s.dccLastId := fun d hd => (h.1.id_lt d hd).ne
  have hnone : ∀ k, (newSession s.dccLastId sock ip port none ssl).ctx ≠ some k :=
    fun k hk => absurd hk (by simp [newSession])
  refine ⟨⟨(sound_withSession h.1 net sock ip port none ssl).1.nodup, ?_, ?_, ?_⟩, ?_⟩
  · intro d hd hcb
    rcases List.mem_cons.mp hd with rfl | hd
    · exact absurd rfl hcb
    · exact h.2.given d hd hcb
  · intro d hd k hk
    rcases List.mem_cons.mp hd with rfl | hd
    · exact absurd hk (hnone k)
    · exact h.2.attached d hd k hk
  · intro d hd e he k hdk hek
    rcases List.mem_cons.mp hd with rfl | hd
    · exact absurd hdk (hnone k)
    · rcases List.mem_cons.mp he with rfl | he
      · exact absurd hek (hnone k)
      · exact h.2.apart d hd e he k hdk hek
  · intro d hd hid
    rcases List.mem_cons.mp hd with rfl | hd
    · rfl
    · exact absurd hid (hfresh d hd)

theorem acceptDccSend_counts (nick : Option Bytes) (ip port : ℕ) (ssl : Bool) :
    Counts SoundCounts (acceptDccSend env nick filename ip size port ssl) := by
  intro s h
  by_cases hopen : CanOpen env ssl s
  · obtain ⟨sock, net, hnew⟩ := libircNewDccSession_run_of_canOpen hopen ip port none
    rw [acceptDccSend_eq, run_bind_of_ok hnew]
    refine ensures_bind (recvFileRequest_counts nick) (fun _ => ?_) _
      (unreceived_withSession h net sock ip port ssl)
    exact modifySession_counts (fun _ => rfl) fun _ => ⟨rfl, rfl, rfl⟩
  · rcases libircNewDccSession_run_of_not_canOpen hopen ip port none with hnew | hnew
    · rw [acceptDccSend_eq, run_bind_of_ok hnew]
      exact h.2.same rfl rfl
    · rw [acceptDccSend_eq, run_bind_of_error hnew]
      trivial

theorem acceptReverseDccSend_counts (nick : Option Bytes) (ip token : ℕ) (ssl : Bool) :
    Counts SoundCounts (acceptReverseDccSend env nick filename ip size token ssl) := by
  intro s h
  by_cases hopen : CanOpen env ssl s
  · obtain ⟨sock, net, hnew⟩ := libircNewDccSession_run_of_canOpen hopen ip 0 none
    rw [acceptReverseDccSend_eq, run_bind_of_ok hnew]
    let f : DccSession → DccSession := fun d => { d with passiveConnection := true, token := token }
    have hmodify : Ensures (Unreceived s.dccLastId) (modifySession s.dccLastId f)
        (fun _ => Unreceived s.dccLastId) fun _ => True := by
      refine ensures_modify fun t ht => ⟨?_, fun d hd hid => ?_⟩
      · exact ht.1.keep (f := f) (fun _ => rfl) (fun _ => ⟨rfl, rfl, rfl⟩) rfl fun _ _ h => h
      · rcases mem_updateSession hd with ⟨e, he, heid, rfl⟩ | ⟨-, hne⟩
        · exact ht.2 e he heid
        · exact absurd hid hne
    have hfail (err : ℕ) : Counts (Unreceived s.dccLastId) (do setLasterror err; return) :=
      counts_of (modify_counts fun _ => ⟨rfl, rfl⟩) fun _ h => h.1
    have hrest : Counts (Unreceived s.dccLastId) (do
        if !env.bind then
          setLasterror libircBindFailed
          return
        if !env.listen then
          setLasterror libircListenFailed
          return
        recvFileRequestReverse env nick filename size s.dccLastId token) :=
      ensures_ite (fun _ => hfail _) fun _ =>
        ensures_ite (fun _ => hfail _) fun _ => recvFileRequestReverse_counts nick token
    exact ensures_bind hmodify (fun _ => hrest) _ (unreceived_withSession h net sock ip 0 ssl)
  · rcases libircNewDccSession_run_of_not_canOpen hopen ip 0 none with hnew | hnew
    · rw [acceptReverseDccSend_eq, run_bind_of_ok hnew]
      exact h.2.same rfl rfl
    · rw [acceptReverseDccSend_eq, run_bind_of_error hnew]
      trivial

end requests

section acknowledgements
variable {env : Env}

theorem acceptResumeReverse_counts (nick : Option Bytes) (size token : ℕ) :
    Counts SoundCounts (acceptResumeReverse env nick size token) := by
  intro s h
  cases hf : s.dccSessions.find? (fun d => d.passiveConnection && decide (d.token = token)) with
  | none =>
    rw [acceptResumeReverse_eq, libircFindDccSessionByToken,
      run_bind_of_ok (libircFind_run_of_none hf true)]
    exact h.2
  | some d =>
    by_cases hstate : d.state = .waitingForResumeAck
    · obtain ⟨fault, s', hrun, -⟩ := acceptResumeReverse_halts hf hstate
        (h.1.find_of_mem (List.mem_of_find?_eq_some hf)) env nick size
      rw [hrun]
      trivial
    · rw [acceptResumeReverse_eq, libircFindDccSessionByToken,
        run_bind_of_ok (libircFind_run_of_some hf)]
      simp only [ne_eq, hstate, not_false_eq_true, if_true]
      exact h.2.same rfl rfl

theorem acceptResume_counts (port position : ℕ) :
    Counts (fun s => SoundCounts s ∧ s.halted = none) (acceptResume env port position) := by
  intro s ⟨h, hs⟩
  by_cases hwaiting : ∃ d, newestByPort s port = some d ∧ d.state = .waitingForResumeAck
  · obtain ⟨d, hf, hstate⟩ := hwaiting
    have hmem : d ∈ s.dccSessions := List.mem_of_find?_eq_some hf
    cases hpassive : d.passiveConnection with
    | true =>
      obtain ⟨id, s', hrun, -⟩ :=
        acceptResume_run_of_misaddressed h.1 ⟨d, hf, hpassive, hstate⟩ env position
      rw [hrun]
      trivial
    | false =>
      have hrun := @acceptResume_run_of_active s env position d port h.1 hf hstate
        hpassive
      cases hctx : d.ctx with
      | none =>
        rw [hrun, hctx]
        trivial
      | some k =>
        obtain ⟨c, hc, -⟩ := h.2.attached d hmem k hctx
        cases hfd : c.fd with
        | none =>
          let t := called (acknowledgedSession s d.id position) d.id
            (some (.data .callbackDccResumeFile))
          rcases seekToResume_run_cases env k position t with ⟨fault, hseek⟩ | ⟨c', fd, hc', hfd', -⟩
          · rw [hrun, hctx, callbackDccResumeFile, run_bind_of_error hseek]
            trivial
          · obtain rfl := Option.some.inj (hc.symm.trans hc')
            exact absurd (hfd.symm.trans hfd') (by simp)
        | some fd =>
          rcases acceptResume_cases h.1 hs hf hstate hpassive hctx hc hfd env position with
            ⟨s', hrun, hcontinues, -⟩ | ⟨-, s', hrun, -⟩
          · rw [hrun]
            exact h.2.recount (h.1.find_of_mem hmem) (by exact fun _ => rfl) hctx hctx hc rfl
              hcontinues.sessions hcontinues.table
          · rw [hrun]
            trivial
  · have hnot : ∀ d, newestByPort s port = some d → d.state ≠ .waitingForResumeAck :=
      fun d hf hstate => hwaiting ⟨d, hf, hstate⟩
    obtain ⟨net, hrun⟩ := @acceptResume_run_of_not_waiting s env position port hnot
    rw [hrun]
    exact h.2.same rfl rfl

end acknowledgements

section steps
variable {s : Client}

theorem libircDccRequest_counts (env : Env) (nick : Option Bytes) (req : Bytes) :
    Counts (fun s => SoundCounts s ∧ s.halted = none) (libircDccRequest env nick req) := by
  refine ensures_get_bind fun s hs => ?_
  have hof {x : ClientM Unit} (hx : Counts SoundCounts x) : Counts (fun t => t = s) x :=
    hx.weaken (fun _ ht => ht ▸ hs.1) (fun _ _ h => h) fun _ h => h
  have hpure : Counts SoundCounts (pure ()) := ensures_pure fun _ h => h.2
  cases isValidRequestFromNick s.cfg nick with
  | none => exact ensures_throw fun _ _ => trivial
  | some verified =>
    dsimp only
    cases dccRequestCall verified req with
    | acceptReverseDccSend filename ip size token ssl =>
      exact hof (acceptReverseDccSend_counts nick ip token ssl)
    | acceptDccSend filename ip size port ssl => exact hof (acceptDccSend_counts nick ip port ssl)
    | acceptResumeReverse size token => exact hof (acceptResumeReverse_counts nick size token)
    | acceptResume port size =>
      exact (acceptResume_counts port size).weaken (fun _ ht => ht ▸ hs) (fun _ _ h => h) fun _ h => h
    | unhandled => exact hof hpure
    | ignored => exact hof hpure

theorem handle_counts (e : Event) :
    Counts (fun s => SoundCounts s ∧ s.halted = none) (handle e) := by
  cases e with
  | request env nick req => exact libircDccRequest_counts env nick req
  | socket dccid ready =>
    have hlock : Ensures SoundCounts libircMutexLock (fun _ => SoundCounts) fun _ => True :=
      ensures_modify fun s h => ⟨h.1.changeNet _, h.2.same rfl rfl⟩
    refine ensures_bind (hlock.weaken (fun _ h => h.1) (fun _ _ h => h) fun _ h => h) fun _ => ?_
    exact ensures_bind (processDescriptor_counts ready) fun _ => modify_counts fun _ => ⟨rfl, rfl⟩
  | addDescriptors =>
    refine ensures_modify fun s ⟨h, _⟩ => ?_
    have hsub : List.Sublist (s.dccSessions.filter fun d => d.state ≠ .removed) s.dccSessions :=
      List.filter_sublist
    exact ⟨h.2.nodup.sublist (hsub.map _), fun d hd => h.2.given d (hsub.subset hd),
      fun d hd => h.2.attached d (hsub.subset hd),
      fun d hd e he => h.2.apart d (hsub.subset hd) e (hsub.subset he)⟩
  | outputTimer =>
    refine ensures_modify fun s ⟨h, _⟩ => h.2.rework rfl fun k n ⟨c, hc, hcount⟩ => ?_
    refine ⟨{ c with progress := outputProgress c.progress }, ?_, ?_⟩
    · simp [hc]
    · rw [← hcount]
      exact outputProgress_sizeRcvd c.progress

def CountsRun (s : Client) : Prop := s.halted = none → SoundCounts s

theorem countsRun_step (e : Event) (h : CountsRun s) : CountsRun (step s e) := by
  intro hrunning
  have hsound := sound_step e (fun hs => (h hs).1) hrunning
  cases hs : s.halted with
  | some fault =>
    rw [step_of_halted hs, hs] at hrunning
    exact absurd hrunning (by simp)
  | none =>
    have hhandle := handle_counts e s ⟨h hs, hs⟩
    refine ⟨hsound, ?_⟩
    unfold step at hrunning ⊢
    rw [hs] at hrunning ⊢
    cases hrun : (handle e).run s with
    | ok a s' =>
      rw [hrun] at hhandle
      exact hhandle
    | error fault s' =>
      rw [hrun] at hrunning
      exact absurd hrunning (by simp)

theorem countsRun_initial (cfg : XdccGetConfig) (net : Net) (files : Bytes → Option Bytes) :
    CountsRun (initial cfg net files) := by
  intro hrunning
  have hsound := (soundRun_initial cfg net files).2 hrunning
  exact ⟨hsound, hsound.nodup, by simp [initial], by simp [initial], by simp [initial]⟩

end steps

/-- The bytes of `htobe32` as they lie in memory. -/
def htobe32 (value : ℕ) : Bytes :=
  [value / 2 ^ 24, value / 2 ^ 16, value / 2 ^ 8, value].map UInt8.ofNat

/-- What `send_current_file_offset_to_sender` hands to the socket. -/
def confirmSizeNetworkOrder (d : DccSession) : Bytes := htobe32 d.fileConfirmOffset

/-- The number that bytes stand for, the first one being the most significant. -/
def bigEndian (b : Bytes) : ℕ := b.foldl (fun n c => 256 * n + c.toNat) 0

theorem bigEndian_htobe32 (value : ℕ) : bigEndian (htobe32 value) = value % 2 ^ 32 := by
  simp only [bigEndian, htobe32, List.map_cons, List.map_nil, List.foldl_cons, List.foldl_nil,
    UInt8.toNat_ofNat']
  omega

section values
variable {s : Client} {d : DccSession}

theorem sendCurrentFileOffsetToSender_records (d : DccSession) (len : ℕ) (s : Client) :
    ∃ l, (endState (sendCurrentFileOffsetToSender d (.sent (len + 1))) s).trace =
      s.trace ++ .acknowledged d.id (bigEndian (confirmSizeNetworkOrder d)) (len + 1) :: l := by
  have hrest : Moves (Changes true)
      (if d.receivedFileSize = d.fileConfirmOffset then receiveFailed d.id libircErrOk
        else modifySession d.id fun d => { d with state := .connected }) :=
    moves_ite (receiveFailed_moves d.id _) (modifySession_moves _ _)
  obtain ⟨l, hl⟩ := changes_trace (endState_bind_moves Changes.refl' (fun _ => hrest) s
    (x := record (.acknowledged d.id (d.fileConfirmOffset % 2 ^ 32) (len + 1))))
  refine ⟨l, ?_⟩
  rw [confirmSizeNetworkOrder, bigEndian_htobe32, sendCurrentFileOffsetToSender_sent, hl]
  simp [record, endState]

theorem step_acknowledges (hs : s.halted = none) (h : Sound s) (hd : d ∈ s.dccSessions)
    (hstate : d.state = .confirmSize) (len : ℕ) :
    ∃ l, (step s (.socket d.id (.confirming (.sent (len + 1))))).trace =
      s.trace ++ .acknowledged d.id (bigEndian (confirmSizeNetworkOrder d)) (len + 1) :: l := by
  let s₁ := withNet s (lockedNet s.net)
  have hlock : (libircMutexLock : ClientM Unit).run s = .ok ⟨⟩ s₁ := rfl
  have hfind : s₁.dccSessions.find? (fun e => e.id = d.id) = some d := h.find_of_mem hd
  have hturn : endState (processDescriptor d.id (.confirming (.sent (len + 1)))) s₁ =
      endState (sendCurrentFileOffsetToSender d (.sent (len + 1))) s₁ := by
    unfold endState
    simp only [processDescriptor_run_of_find hfind, hstate]
  obtain ⟨l, hl⟩ := sendCurrentFileOffsetToSender_records d len s₁
  obtain ⟨l', hl'⟩ := changes_trace (b := true) (endState_bind_moves Changes.refl'
    (fun _ => unlock_moves) s₁ (x := processDescriptor d.id (.confirming (.sent (len + 1)))))
  obtain ⟨l'', hl''⟩ := changes_trace (b := true)
    (step_changes_handle hs (.socket d.id (.confirming (.sent (len + 1)))))
  refine ⟨l ++ l' ++ l'', ?_⟩
  rw [hl'', handle, endState_bind_of_ok hlock, hl', hturn, hl]
  simp [s₁]

end values

/-- Both sides of every transfer have counted the same, which is what is acknowledged. -/
structure CountsAgree (s : Client) : Prop where
  attached : ∀ d ∈ s.dccSessions, ∀ k, d.ctx = some k → CountedAt s k d.fileConfirmOffset
  acknowledged : ∀ d ∈ s.dccSessions, d.state = .confirmSize →
    ∃ k n, d.ctx = some k ∧ CountedAt s k n ∧
      bigEndian (confirmSizeNetworkOrder d) = n % 2 ^ 32 ∧
      ∀ len, ∃ l, (step s (.socket d.id (.confirming (.sent (len + 1))))).trace =
        s.trace ++ .acknowledged d.id (n % 2 ^ 32) (len + 1) :: l

/-- Whatever the sessions do, the counts of a process that runs agree. -/
theorem counts_agree (cfg : XdccGetConfig) (net : Net) (files : Bytes → Option Bytes)
    (events : List Event) (hrunning : (run step (initial cfg net files) events).halted = none) :
    CountsAgree (run step (initial cfg net files) events) := by
  have hstep : ∀ s e, CountsRun s → CountsRun (step s e) := fun _ e hs => countsRun_step e hs
  have h := run_invariant hstep (countsRun_initial cfg net files) events hrunning
  refine ⟨h.2.attached, fun d hd hstate => ?_⟩
  obtain ⟨hcb, -⟩ := (h.1.ready d hd).awaits (.data .callbackDccRecvFile)
    (by simp [awaited, hstate])
  have hcb' : d.cb = some .callbackDccRecvFile := hcb
  obtain ⟨k, hk⟩ := Option.ne_none_iff_exists'.mp (h.2.given d hd (by simp [hcb']))
  refine ⟨k, d.fileConfirmOffset, hk, h.2.attached d hd k hk, bigEndian_htobe32 _, fun len => ?_⟩
  rw [← bigEndian_htobe32]
  exact step_acknowledges hrunning h.1 hd hstate len

/-- Two bytes of the file are there, the bot resumes behind them and sends the third. -/
def resumedTransfer : List Event :=
  [request "bot" "DCC SEND a 16909060 5000 4", request "bot" "DCC ACCEPT file.ext 5000 2",
    .socket 1 (.connecting true), .socket 1 (.receiving [.data ⟨bytes "c", by decide, by decide⟩])]

theorem counts_agree_resumed :
    CountsAgree (run step (initial twoBots connected fun _ => some (bytes "ab")) resumedTransfer) :=
  counts_agree twoBots connected (fun _ => some (bytes "ab")) resumedTransfer (by decide +kernel)

example : (run step (initial twoBots connected fun _ => some (bytes "ab")) resumedTransfer).dccSessions.map
    (fun d => (d.state, confirmSizeNetworkOrder d)) = [(.confirmSize, [0, 0, 0, 3])] := by
  decide +kernel

end Xdccget.ByteCounts
