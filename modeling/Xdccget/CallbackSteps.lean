import Xdccget.SessionCallbacks

set_option autoImplicit false

/-!
# The calls of a whole run

Every program of the client keeps the link between a session's state and its
callback, and so does every step but one kind.
-/
namespace Xdccget.CallbackSteps
open CText DccMessages ClientState DccSessions Downloads DccEvents HaltingPrograms SessionSpecs
  DownloadSpecs EventSpecs TableChanges SessionCallbacks StepRuns

def Quiet (s : Client) : Prop := CallsOk s.trace

/-- From `P` the program returns in a sound state, or halts without a wrong call. -/
abbrev Safe (P : Client → Prop) {α : Type} (x : ClientM α) : Prop :=
  Ensures P x (fun _ => Sound) Quiet

section downloads

theorem keep_safe {f : Client → Client} (h : ∀ s, (f s).dccSessions = s.dccSessions ∧
    (f s).dccLastId = s.dccLastId ∧ (f s).trace = s.trace) :
    Safe Sound (modify f : ClientM PUnit) := by
  refine ensures_modify fun s hs => ?_
  obtain ⟨hsessions, hlast, htrace⟩ := h s
  exact hs.keep hsessions hlast (htrace.trans (List.append_nil _).symm) (by simp)

theorem setLasterror_safe (err : ℕ) : Safe Sound (setLasterror err) :=
  keep_safe fun _ => ⟨rfl, rfl, rfl⟩

theorem lock_safe : Safe Sound libircMutexLock := keep_safe fun _ => ⟨rfl, rfl, rfl⟩

theorem unlock_safe : Safe Sound libircMutexUnlock := keep_safe fun _ => ⟨rfl, rfl, rfl⟩

theorem pure_safe {α : Type} (a : α) : Safe Sound (pure a : ClientM α) := ensures_pure fun _ h => h

theorem throw_safe {α : Type} (fault : Halt) : Safe Sound (throw fault : ClientM α) :=
  ensures_throw fun _ h => h.calls

theorem neutral_of_completion {s : Client} {l : List Action} (h : CompletionActions s l) :
    ∀ a ∈ l, Neutral a := by
  cases h <;> simp [Neutral]

theorem callbackDccRecvFile_keeps {data : Bytes} (hdata : 0 < data.length) (ctx : Option ℕ)
    (s : Client) :
    (∃ fault s', (callbackDccRecvFile libircErrOk ctx (some data) data.length).run s =
        .error fault s' ∧ ∃ l, s'.trace = s.trace ++ l ∧ ∀ a ∈ l, Neutral a) ∨
      ∃ s', (callbackDccRecvFile libircErrOk ctx (some data) data.length).run s = .ok ⟨⟩ s' ∧
        s'.dccSessions = s.dccSessions ∧ s'.dccLastId = s.dccLastId ∧
        ∃ l, s'.trace = s.trace ++ l ∧ ∀ a ∈ l, Neutral a := by
  cases ctx with
  | none => exact .inr ⟨s, rfl, rfl, rfl, [], (List.append_nil _).symm, by simp⟩
  | some context =>
    cases hc : s.downloadContext[context]? with
    | none =>
      exact .inl ⟨_, _, callbackDccRecvFile_run_of_missing hc hdata, [], (List.append_nil _).symm,
        by simp⟩
    | some c =>
      cases hfd : c.fd with
      | none =>
        exact .inl ⟨_, _, callbackDccRecvFile_run_of_closed hc hfd hdata, _, rfl, by simp [Neutral]⟩
      | some fd =>
        by_cases hsize : u64 (c.progress.sizeRcvd + data.length) = c.progress.completeFileSize
        · obtain ⟨net, l, hrun, hl⟩ := callbackDccRecvFile_run_of_last hc hfd hdata hsize
          refine .inr ⟨_, hrun, rfl, rfl, [.write context data] ++ .finish context :: l, ?_, ?_⟩
          · rw [completed_trace, chunkOp, contextOp_trace, List.append_assoc]
          · intro a ha
            rcases List.mem_append.mp ha with hw | hf
            · simp_all [Neutral]
            · rcases List.mem_cons.mp hf with rfl | hmem
              · trivial
              · exact neutral_of_completion hl a hmem
        · exact .inr ⟨_, callbackDccRecvFile_run_of_unfinished hc hfd hdata hsize, rfl, rfl, _, rfl,
            by simp [Neutral]⟩

theorem seekToResume_safe (env : Env) (context length : ℕ) :
    Safe Sound (seekToResume env context length) := by
  intro s h
  rcases seekToResume_run_cases env context length s with ⟨fault, hrun⟩ | ⟨-, fd, -, -, hrun⟩
  · rw [hrun]
    exact h.calls
  · rw [hrun]
    exact h.keep rfl rfl (List.append_nil _).symm (by simp)

abbrev Succeeds (P : Client → Prop) (call : ClientM ℕ) : Prop :=
  Ensures P call (fun ret s => Quiet s ∧ (ret = 0 → Sound s)) Quiet

theorem exitOnFailure_safe {P : Client → Prop} {call : ClientM ℕ} (h : Succeeds P call) :
    Safe P (exitOnFailure call) := by
  refine ensures_bind h fun ret => ensures_ite (fun _ => ?_) fun hret => ?_
  · exact ensures_throw fun _ hs => hs.1
  · exact ensures_pure fun _ hs => hs.2 (not_not.mp hret)

end downloads

section operations

def OfKind (id : ℕ) (passive : Bool) (s : Client) : Prop :=
  Sound s ∧ ∀ d ∈ s.dccSessions, d.id = id → d.passiveConnection = passive

theorem modifySession_safe {P : Client → Prop} {id : ℕ} {f : DccSession → DccSession}
    (hid : ∀ d, (f d).id = d.id)
    (h : ∀ s, P s → Sound s ∧ ∀ d ∈ s.dccSessions, d.id = id → Ready s.trace (f d)) :
    Safe P (modifySession id f) := by
  refine ensures_modify fun s hs => ?_
  obtain ⟨hsound, hready⟩ := h s hs
  have hop : Sound (sessionOp s s.net id f []) := hsound.operate s.net hid
    (by simpa using hready) (by simp) (by simpa using hsound.calls)
  rw [sessionOp, List.append_nil] at hop
  exact hop

theorem ready_of_awaited_none {trace : List Action} {d : DccSession} (h : awaited d = none)
    (hunset : d.passiveConnection = true → d.state = .init → d.cb = none) : Ready trace d where
  awaits cb hcb := absurd (h.symm.trans hcb) (by simp)
  unset hpassive hstate := by
    rcases hstate with hinit | hwaiting
    · exact hunset hpassive hinit
    · exact absurd h (by simp [awaited, hwaiting, hpassive])

theorem libircDccDestroyNolock_safe (id : ℕ) : Safe Sound (libircDccDestroyNolock id) := by
  intro s h
  rw [libircDccDestroyNolock_run]
  have hmodify : Safe Sound (modifySession id removed) := modifySession_safe (fun _ => rfl)
    fun s hs => ⟨hs, fun d _ _ => ready_of_awaited_none rfl (by simp [removed])⟩
  exact hmodify s h

theorem succeeds_of_sound {s : Client} (h : Sound s) {ret : ℕ} :
    Quiet s ∧ (ret = 0 → Sound s) := ⟨h.calls, fun _ => h⟩

theorem ircDccAccept_safe (env : Env) (id : ℕ) (ctx : Option ℕ) :
    Succeeds Sound (ircDccAccept env id ctx .callbackDccRecvFile) := by
  intro s h
  rcases exists_init_or_notInit s id with ⟨dcc, hdcc, hinit⟩ | hnot
  · obtain ⟨ret, net, f, hrun, haccepted⟩ := ircDccAccept_run hdcc hinit env ctx .callbackDccRecvFile
    rw [hrun]
    have hasked : Asked id (.data .callbackDccRecvFile) none []
        [.install id (.data .callbackDccRecvFile)] := .inl rfl
    cases haccepted with
    | done hconnect hssl =>
      refine succeeds_of_sound ?_
      refine h.install net (by exact fun _ => rfl) hasked (fun d hd hid => ⟨rfl, .inr ?_⟩)
        fun d hd hid _ hstate => ?_
      · cases hd : d.ssl <;> simp [awaited]
      · cases hd : d.ssl <;> simp [hd] at hstate
    | refused hconnect =>
      refine succeeds_of_sound ?_
      refine h.install net (by exact fun _ => rfl) hasked (fun d hd hid => ⟨rfl, .inl rfl⟩)
        fun d hd hid _ hstate => ?_
      simp [removed] at hstate
    | noHandshake hssl hconnect => exact ⟨h.calls.append (not_call_of_asked hasked), by simp⟩
  · obtain ⟨net, hrun⟩ := ircDccAccept_run_of_notInit hnot env ctx .callbackDccRecvFile
    rw [hrun]
    exact succeeds_of_sound (h.changeNet net)

theorem ircDccResume_safe (id : ℕ) (ctx : Option ℕ) (nick : Option Bytes) (position : ℕ) :
    Succeeds (OfKind id false) (ircDccResume id ctx .callbackDccResumeFile nick position) := by
  intro s ⟨h, hkind⟩
  rcases exists_init_or_notInit s id with ⟨dcc, hdcc, hinit⟩ | hnot
  · obtain ⟨net, l, hrun, hl⟩ := ircDccResume_run hdcc hinit ctx .callbackDccResumeFile nick position
    rw [hrun]
    refine succeeds_of_sound ?_
    refine h.install net (by exact fun _ => rfl) hl (fun d hd hid => ⟨rfl, .inr ?_⟩)
      fun d hd hid hpassive => ?_
    · simp [awaited, hkind d hd hid]
    · exact absurd ((hkind d hd hid).symm.trans hpassive) (by simp)
  · obtain ⟨net, hrun⟩ := ircDccResume_run_of_notInit hnot ctx .callbackDccResumeFile nick position
    rw [hrun]
    exact succeeds_of_sound (h.changeNet net)

theorem ircDccResumeReverse_safe (id : ℕ) (ctx : Option ℕ) (nick : Option Bytes)
    (position token : ℕ) :
    Succeeds (OfKind id true)
      (ircDccResumeReverse id ctx .callbackDccResumeFileReverse nick position token) := by
  intro s ⟨h, hkind⟩
  rcases exists_init_or_notInit s id with ⟨dcc, hdcc, hinit⟩ | hnot
  · obtain ⟨net, l, hrun, hl⟩ :=
      ircDccResumeReverse_run hdcc hinit ctx .callbackDccResumeFileReverse nick position token
    rw [hrun]
    refine succeeds_of_sound ?_
    refine h.install net (by exact fun _ => rfl) hl (fun d hd hid => ⟨rfl, .inr ?_⟩)
      fun d hd hid _ _ => ?_
    · simp [awaited, hkind d hd hid]
    · obtain rfl := h.eq_of_find hdcc hd hid
      exact (h.ready d hd).unset (hkind d hd hid) (.inl hinit)
  · obtain ⟨net, hrun⟩ :=
      ircDccResumeReverse_run_of_notInit hnot ctx .callbackDccResumeFileReverse nick position token
    rw [hrun]
    exact succeeds_of_sound (h.changeNet net)

theorem ircDccAcceptReverse_safe (env : Env) (id : ℕ) (ctx : Option ℕ) (nick : Option Bytes)
    (filename : Bytes) (size token : ℕ) :
    Succeeds Sound
      (ircDccAcceptReverse env id ctx .callbackDccRecvFile nick filename size token) := by
  intro s h
  rcases exists_init_or_notInit s id with ⟨dcc, hdcc, hinit⟩ | hnot
  · rcases ircDccAcceptReverse_run hdcc hinit env ctx .callbackDccRecvFile nick filename size token
      with ⟨-, net, hrun⟩ | ⟨addr, net, l, -, hrun, hl⟩
    · rw [hrun]
      exact succeeds_of_sound (h.changeNet net)
    · rw [hrun]
      refine succeeds_of_sound ?_
      exact h.install net (by exact fun _ => rfl) hl (fun d hd hid => ⟨rfl, .inr rfl⟩)
        fun d hd hid _ hstate => by simp at hstate
  · obtain ⟨net, hrun⟩ :=
      ircDccAcceptReverse_run_of_notInit hnot env ctx .callbackDccRecvFile nick filename size token
    rw [hrun]
    exact succeeds_of_sound (h.changeNet net)

end operations

section requests
variable {env : Env} {filename : Bytes} {size id : ℕ} {passive : Bool}

theorem recvFileWith_safe {accept : ℕ → ClientM ℕ} {resume : ℕ → ℕ → ClientM ℕ}
    (haccept : ∀ context, Succeeds Sound (accept context))
    (hresume : ∀ context position, Succeeds (OfKind id passive) (resume context position)) :
    Safe (OfKind id passive) (recvFileWith env filename size accept resume) := by
  intro s ⟨h, hkind⟩
  have hdownload (progress : DccDownloadProgress) (fd : Option FileIo)
      (files : Bytes → Option Bytes) : Sound (withDownload s progress fd files) :=
    h.keep rfl rfl (withDownload_trace _ _ _ _) (by simp [Neutral])
  cases hlegal : containsIllegalChars filename with
  | true =>
    rw [recvFileWith_run_of_illegal hlegal]
    exact h.calls
  | false =>
    cases hopen : env.fopen with
    | false =>
      rw [recvFileWith_run_of_unopened hlegal hopen]
      exact (hdownload _ _ _).calls
    | true =>
      cases hf : s.files (getCompletePath s.cfg filename) with
      | none =>
        rw [recvFileWith_run_of_missing hlegal hopen hf]
        exact exitOnFailure_safe (haccept _) _ (hdownload _ _ _)
      | some content =>
        rw [recvFileWith_run_of_existing hlegal hopen hf]
        have hstarted : OfKind id passive (started s env filename size true) :=
          ⟨hdownload _ _ _, hkind⟩
        refine ensures_ite (fun _ => ?_) (fun _ => ?_) _ hstarted
        · exact (throw_safe _).weaken (fun _ h => h.1) (fun _ _ h => h) fun _ h => h
        · refine ensures_ite (fun _ => ?_) fun _ => exitOnFailure_safe (hresume _ _)
          exact (exitOnFailure_safe (haccept _)).weaken (fun _ h => h.1) (fun _ _ h => h) fun _ h => h

theorem recvFileRequest_safe (nick : Option Bytes) :
    Safe (OfKind id false) (recvFileRequest env nick filename size id) :=
  recvFileWith_safe (fun _ => ircDccAccept_safe env id _) fun _ _ => ircDccResume_safe id _ nick _

theorem recvFileRequestReverse_safe (nick : Option Bytes) (token : ℕ) :
    Safe (OfKind id true) (recvFileRequestReverse env nick filename size id token) :=
  recvFileWith_safe (fun _ => ircDccAcceptReverse_safe env id _ nick filename size token)
    fun _ _ => ircDccResumeReverse_safe id _ nick _ token

theorem sound_withSession {s : Client} (h : Sound s) (net : Net) (sock ip port : ℕ)
    (ctx : Option ℕ) (ssl : Bool) :
    OfKind s.dccLastId false
      (withSession s net (newSession s.dccLastId sock ip port ctx ssl)) := by
  have hfresh : ∀ d ∈ s.dccSessions, d.id ≠ s.dccLastId := fun d hd => (h.id_lt d hd).ne
  constructor
  · constructor
    · rw [withSession_dccSessions, List.map_cons, List.nodup_cons]
      refine ⟨fun hmem => ?_, h.nodup⟩
      obtain ⟨d, hd, hid⟩ := List.mem_map.mp hmem
      exact hfresh d hd hid
    · intro d hd
      rw [withSession_dccLastId]
      rcases List.mem_cons.mp hd with rfl | hd
      · exact Nat.lt_succ_self _
      · exact (h.id_lt d hd).trans (Nat.lt_succ_self _)
    · intro d hd
      rcases List.mem_cons.mp hd with rfl | hd
      · exact ready_of_awaited_none rfl fun _ _ => rfl
      · exact h.ready d hd
    · exact h.calls
  · intro d hd hid
    rcases List.mem_cons.mp hd with rfl | hd
    · rfl
    · exact absurd hid (hfresh d hd)

theorem acceptDccSend_safe (nick : Option Bytes) (ip port : ℕ) (ssl : Bool) :
    Safe Sound (acceptDccSend env nick filename ip size port ssl) := by
  intro s h
  by_cases hopen : CanOpen env ssl s
  · obtain ⟨sock, net, hnew⟩ := libircNewDccSession_run_of_canOpen hopen ip port none
    rw [acceptDccSend_eq, run_bind_of_ok hnew]
    refine ensures_bind (recvFileRequest_safe nick) (fun _ => ?_) _
      (sound_withSession h net sock ip port none ssl)
    exact modifySession_safe (by exact fun _ => rfl) fun s hs =>
      ⟨hs, fun d hd _ => ⟨(hs.ready d hd).awaits, (hs.ready d hd).unset⟩⟩
  · rcases libircNewDccSession_run_of_not_canOpen hopen ip port none with hnew | hnew
    · rw [acceptDccSend_eq, run_bind_of_ok hnew]
      exact setLasterror_safe _ s h
    · rw [acceptDccSend_eq, run_bind_of_error hnew]
      exact h.calls

theorem acceptReverseDccSend_safe (nick : Option Bytes) (ip token : ℕ) (ssl : Bool) :
    Safe Sound (acceptReverseDccSend env nick filename ip size token ssl) := by
  intro s h
  by_cases hopen : CanOpen env ssl s
  · obtain ⟨sock, net, hnew⟩ := libircNewDccSession_run_of_canOpen hopen ip 0 none
    rw [acceptReverseDccSend_eq, run_bind_of_ok hnew]
    let s₁ := withSession s net (newSession s.dccLastId sock ip 0 none ssl)
    let f : DccSession → DccSession := fun d => { d with passiveConnection := true, token := token }
    have hnewest : s₁.dccSessions.find? (fun d => d.id = s.dccLastId) =
        some (newSession s.dccLastId sock ip 0 none ssl) := by
      simp [s₁, newSession]
    obtain ⟨h₁, -⟩ := sound_withSession h net sock ip 0 none ssl
    have hready : ∀ d ∈ s₁.dccSessions, d.id = s.dccLastId → Ready s₁.trace (f d) := by
      intro d hd hid
      rw [h₁.eq_of_find hnewest hd hid]
      exact ready_of_awaited_none rfl fun _ _ => rfl
    have hmodify : Ensures (fun t => t = s₁) (modifySession s.dccLastId f)
        (fun _ => OfKind s.dccLastId true) Quiet := by
      refine ensures_modify fun t ht => ?_
      subst ht
      refine ⟨modifySession_safe (P := fun t => t = s₁) (by exact fun _ => rfl)
        (fun t ht => ht ▸ ⟨h₁, hready⟩) s₁ rfl, fun d hd hid => ?_⟩
      rcases mem_updateSession hd with ⟨e, -, -, rfl⟩ | ⟨-, hne⟩
      · rfl
      · exact absurd hid hne
    have hfail (err : ℕ) : Safe (OfKind s.dccLastId true) (do setLasterror err; return) :=
      (ensures_bind (setLasterror_safe err) fun _ => pure_safe _).weaken (fun _ h => h.1)
        (fun _ _ h => h) fun _ h => h
    have hrest : Safe (OfKind s.dccLastId true) (do
        if !env.bind then
          setLasterror libircBindFailed
          return
        if !env.listen then
          setLasterror libircListenFailed
          return
        recvFileRequestReverse env nick filename size s.dccLastId token) :=
      ensures_ite (fun _ => hfail _) fun _ =>
        ensures_ite (fun _ => hfail _) fun _ => recvFileRequestReverse_safe nick token
    exact ensures_bind hmodify (fun _ => hrest) s₁ rfl
  · rcases libircNewDccSession_run_of_not_canOpen hopen ip 0 none with hnew | hnew
    · rw [acceptReverseDccSend_eq, run_bind_of_ok hnew]
      exact setLasterror_safe _ s h
    · rw [acceptReverseDccSend_eq, run_bind_of_error hnew]
      exact h.calls

end requests

section calls
variable {env : Env} {id : ℕ}

def Calls (id : ℕ) (cb : DataCallback) (s : Client) : Prop :=
  Sound s ∧ ∀ d ∈ s.dccSessions, d.id = id →
    d.cb = some cb ∧ lastInstalled id s.trace = some (.data cb)

theorem sound_called {s : Client} (h : Sound s) {d : DccSession}
    (hf : s.dccSessions.find? (fun d => d.id = id) = some d) {cb : DataCallback}
    (hcalls : Calls id cb s) : Calls id cb (called s id (some (.data cb))) := by
  have hmem : d ∈ s.dccSessions := List.mem_of_find?_eq_some hf
  have hid : d.id = id := by simpa using List.find?_some hf
  have hlast := (hcalls.2 d hmem hid).2
  have hother (i : ℕ) : ∀ a ∈ [Action.call id (some (.data cb))], ∀ cb', a ≠ .install i cb' := by
    simp
  refine ⟨⟨h.nodup, h.id_lt, fun e he => (h.ready e he).append (hother e.id), ?_⟩, ?_⟩
  · exact h.calls.call hlast
  · intro e he heid
    rw [called_trace, lastInstalled_append_of_other (hother id)]
    exact hcalls.2 e he heid

theorem callCb_keeps {data : Bytes} (hdata : 0 < data.length) :
    Ensures (Calls id .callbackDccRecvFile)
      (callCb env id libircErrOk (some data) data.length)
      (fun _ => Calls id .callbackDccRecvFile) Quiet := by
  intro s h
  cases hf : s.dccSessions.find? (fun d => decide (d.id = id)) with
  | none =>
    simp only [callCb, EStateM.run_bind, EStateM.run_get, hf]
    exact h
  | some d =>
    have hmem : d ∈ s.dccSessions := List.mem_of_find?_eq_some hf
    have hid : d.id = id := by simpa using List.find?_some hf
    have hcalled := sound_called h.1 hf h
    rw [callCb_run_of_recvFile hf (h.2 d hmem hid).1]
    rcases callbackDccRecvFile_keeps hdata d.ctx
        (called s id (some (.data .callbackDccRecvFile))) with
      ⟨fault, s', hrun, l, htrace, hl⟩ | ⟨s', hrun, hsessions, hlast, l, htrace, hl⟩
    · rw [hrun]
      change CallsOk s'.trace
      rw [htrace]
      refine hcalled.1.calls.append fun a ha i p hcall => ?_
      have hn := hl a ha
      rw [hcall] at hn
      exact hn
    · rw [hrun]
      refine ⟨hcalled.1.keep hsessions hlast htrace hl, fun e he heid => ?_⟩
      rw [hsessions] at he
      rw [htrace, lastInstalled_append_of_other (not_install_of_neutral hl)]
      exact hcalled.2 e he heid

theorem report_keeps (status length : ℕ) :
    Ensures (Calls id .callbackDccRecvFile) (callCb env id status none length)
      (fun _ => Calls id .callbackDccRecvFile) Quiet := by
  intro s h
  cases hf : s.dccSessions.find? (fun d => decide (d.id = id)) with
  | none =>
    simp only [callCb, EStateM.run_bind, EStateM.run_get, hf]
    exact h
  | some d =>
    have hmem : d ∈ s.dccSessions := List.mem_of_find?_eq_some hf
    have hid : d.id = id := by simpa using List.find?_some hf
    rw [callCb_run_of_recvFile hf (h.2 d hmem hid).1, callbackDccRecvFile_run_of_none]
    exact sound_called h.1 hf h

theorem callbackDccResumeFile_safe (ctx : Option ℕ) (length : ℕ) :
    Safe Sound (callbackDccResumeFile env id ctx length) := by
  cases ctx with
  | none => exact throw_safe _
  | some context =>
    refine ensures_bind (seekToResume_safe env context length) fun _ => ?_
    exact exitOnFailure_safe (ircDccAccept_safe env id _)

theorem resume_safe (status length : ℕ) :
    Safe (Calls id .callbackDccResumeFile) (callCb env id status none length) := by
  intro s h
  cases hf : s.dccSessions.find? (fun d => decide (d.id = id)) with
  | none =>
    simp only [callCb, EStateM.run_bind, EStateM.run_get, hf]
    exact h.1
  | some d =>
    have hmem : d ∈ s.dccSessions := List.mem_of_find?_eq_some hf
    have hid : d.id = id := by simpa using List.find?_some hf
    rw [callCb_run_of_resumeFile hf (h.2 d hmem hid).1]
    exact callbackDccResumeFile_safe _ _ _ (sound_called h.1 hf h).1

theorem modifySession_calls {f : DccSession → DccSession} (hid : ∀ d, (f d).id = d.id)
    (hcb : ∀ d, (f d).cb = d.cb)
    (hready : ∀ trace d, Ready trace d → d.cb = some .callbackDccRecvFile →
      lastInstalled d.id trace = some (.data .callbackDccRecvFile) → Ready trace (f d)) :
    Ensures (Calls id .callbackDccRecvFile) (modifySession id f)
      (fun _ => Calls id .callbackDccRecvFile) Quiet := by
  refine ensures_modify fun s hs => ⟨?_, fun e he heid => ?_⟩
  · refine modifySession_safe (P := Calls id .callbackDccRecvFile) hid (fun s hs => ?_) s hs
    refine ⟨hs.1, fun d hd hdid => ?_⟩
    obtain ⟨hdcb, hlast⟩ := hs.2 d hd hdid
    exact hready s.trace d (hs.1.ready d hd) hdcb (by rw [hdid, hlast])
  · rcases mem_updateSession he with ⟨d, hd, hdid, rfl⟩ | ⟨-, hne⟩
    · rw [hcb]
      exact hs.2 d hd hdid
    · exact absurd heid hne

theorem setState_calls {state : DccSession → LibircState}
    (h : ∀ d : DccSession, state d = .connected ∨ state d = .confirmSize) :
    Ensures (Calls id .callbackDccRecvFile)
      (modifySession id fun d : DccSession => { d with state := state d })
      (fun _ => Calls id .callbackDccRecvFile) Quiet := by
  refine modifySession_calls (fun _ => rfl) (fun _ => rfl) fun trace d _ hdcb hlast => ⟨?_, ?_⟩
  · intro cb hcb
    have hawaited : awaited { d with state := state d } = some (.data .callbackDccRecvFile) := by
      rcases h d with hs | hs <;> simp [awaited, hs]
    obtain rfl := Option.some.inj (hawaited.symm.trans hcb)
    exact ⟨hdcb, hlast⟩
  · intro _ hstate
    rcases h d with hs | hs <;> simp [hs] at hstate

theorem lock_calls {cb : DataCallback} :
    Ensures (Calls id cb) libircMutexLock (fun _ => Calls id cb) Quiet :=
  ensures_modify fun _ h => ⟨h.1.changeNet _, h.2⟩

theorem unlock_calls {cb : DataCallback} :
    Ensures (Calls id cb) libircMutexUnlock (fun _ => Calls id cb) Quiet :=
  ensures_modify fun _ h => ⟨h.1.changeNet _, h.2⟩

end calls

section turns
variable {id : ℕ}

theorem record_calls {a : Action} (ha : Neutral a) {cb : DataCallback} :
    Ensures (Calls id cb) (record a) (fun _ => Calls id cb) Quiet := by
  have hl : ∀ b ∈ [a], Neutral b := by simpa using ha
  refine ensures_modify fun s h => ⟨h.1.keep rfl rfl rfl hl, fun d hd hid => ?_⟩
  rw [lastInstalled_append_of_other (not_install_of_neutral hl)]
  exact h.2 d hd hid

theorem safe_of_calls {cb : DataCallback} {x : ClientM Unit} (h : Safe Sound x) :
    Safe (Calls id cb) x :=
  h.weaken (fun _ h => h.1) (fun _ _ h => h) fun _ h => h

theorem calls_safe {cb : DataCallback} {α : Type} {P : Client → Prop} {x : ClientM α}
    (h : Ensures P x (fun _ => Calls id cb) Quiet) : Safe P x :=
  h.weaken (fun _ h => h) (fun _ _ h => h.1) fun _ h => h

theorem receiveChunk_keeps (chunk : Chunk) :
    Ensures (Calls id .callbackDccRecvFile) (receiveChunk id chunk)
      (fun _ => Calls id .callbackDccRecvFile) Quiet := by
  refine ensures_bind unlock_calls fun _ => ?_
  refine ensures_bind (record_calls (by exact trivial)) fun _ => ?_
  refine ensures_bind (modifySession_calls (fun _ => rfl) (fun _ => rfl)
    fun _ _ hready _ _ => ⟨hready.awaits, hready.unset⟩) fun _ => ?_
  refine ensures_bind (callCb_keeps chunk.pos) fun _ => ?_
  refine ensures_get_bind fun s hs => ?_
  refine ensures_bind (R := fun _ => Calls id .callbackDccRecvFile) ?_ fun _ => lock_calls
  refine (setState_calls fun d => ?_).weaken (fun t ht => ht ▸ hs) (fun _ _ h => h) fun _ h => h
  cases s.cfg.dontConfirmOffsets <;> simp

theorem receiveFailed_safe (err : ℕ) :
    Safe (Calls id .callbackDccRecvFile) (receiveFailed id err) := by
  refine ensures_bind unlock_calls fun _ => ?_
  refine ensures_bind (report_keeps err 0) fun _ => ?_
  refine ensures_bind lock_calls fun _ => ?_
  exact safe_of_calls (libircDccDestroyNolock_safe id)

theorem recvDccFile_safe (ssl : Bool) (results : List RecvResult) :
    Safe (Calls id .callbackDccRecvFile) (recvDccFile id ssl results) := by
  have hpure : Safe (Calls id .callbackDccRecvFile) (pure ()) := safe_of_calls (pure_safe _)
  induction results with
  | nil => exact hpure
  | cons result more ih =>
    cases result with
    | again => exact ensures_ite (fun _ => hpure) fun _ => ih
    | wantWrite =>
      exact ensures_ite (fun _ => calls_safe (setState_calls fun _ => by simp)) fun _ => ih
    | error => exact receiveFailed_safe _
    | closed => exact receiveFailed_safe _
    | data chunk =>
      refine ensures_bind (receiveChunk_keeps chunk) fun _ => ?_
      exact ensures_ite (fun _ => ih) fun _ => hpure

theorem sendCurrentFileOffsetToSender_safe (dcc : DccSession) (result : SendResult) :
    Safe (Calls dcc.id .callbackDccRecvFile) (sendCurrentFileOffsetToSender dcc result) := by
  have hpure : Safe (Calls dcc.id .callbackDccRecvFile) (pure ()) := safe_of_calls (pure_safe _)
  have hreport (err : ℕ) : Safe (Calls dcc.id .callbackDccRecvFile) (do
      libircMutexUnlock
      callCb noEnv dcc.id err none 0
      libircMutexLock) := by
    refine ensures_bind unlock_calls fun _ => ?_
    refine ensures_bind (report_keeps err 0) fun _ => ?_
    exact calls_safe lock_calls
  cases result with
  | again => exact hpure
  | wantRead =>
    exact ensures_ite (fun _ => calls_safe (setState_calls fun _ => by simp)) fun _ => hpure
  | error => exact hreport _
  | sent len =>
    cases len with
    | zero => exact hreport _
    | succ len =>
      refine ensures_bind (record_calls (by exact trivial)) fun _ => ?_
      refine ensures_ite (fun _ => ?_) fun _ => calls_safe (setState_calls fun _ => by simp)
      refine ensures_bind unlock_calls fun _ => ?_
      refine ensures_bind (report_keeps _ 0) fun _ => ?_
      refine ensures_bind lock_calls fun _ => ?_
      exact safe_of_calls (libircDccDestroyNolock_safe dcc.id)

theorem calls_of_awaited {s : Client} (h : Sound s) {d : DccSession}
    (hf : s.dccSessions.find? (fun d => d.id = id) = some d) {cb : DataCallback}
    (hawaited : awaited d = some (.data cb)) : Calls id cb s := by
  refine ⟨h, fun e he hid => ?_⟩
  obtain rfl := h.eq_of_find hf he hid
  obtain ⟨hcb, hlast⟩ := (h.ready e he).awaits _ hawaited
  exact ⟨hcb, hid ▸ hlast⟩

theorem processDescriptor_safe (ready : SocketReady) : Safe Sound (processDescriptor id ready) := by
  have hlookup : Ensures Sound (libircFindDccSession id false)
      (fun found s => Sound s ∧ s.dccSessions.find? (fun d => d.id = id) = found) Quiet := by
    intro s h
    rw [libircFindDccSession, libircFind_run_nolock]
    exact ⟨h, rfl⟩
  rw [processDescriptor_eq]
  refine ensures_bind hlookup fun found => ?_
  cases found with
  | none => exact (pure_safe _).weaken (fun _ h => h.1) (fun _ _ h => h) fun _ h => h
  | some d =>
    have hreceiving {x : ClientM Unit} (hawaited : awaited d = some (.data .callbackDccRecvFile))
        (hx : Safe (Calls id .callbackDccRecvFile) x) :
        Safe (fun s => Sound s ∧ s.dccSessions.find? (fun d => d.id = id) = some d) x :=
      hx.weaken (fun _ h => calls_of_awaited h.1 h.2 hawaited) (fun _ _ h => h) fun _ h => h
    dsimp only
    split
    · next hstate =>
      refine hreceiving (by simp [awaited, hstate]) (ensures_ite (fun _ => ?_) fun _ => ?_)
      · exact calls_safe (setState_calls fun _ => by simp)
      · exact safe_of_calls (libircDccDestroyNolock_safe id)
    · next hstate =>
      exact hreceiving (by simp [awaited, hstate]) (recvDccFile_safe d.ssl _)
    · next hstate =>
      intro s h
      have hid : d.id = id := by simpa using List.find?_some h.2
      subst hid
      exact hreceiving (by simp [awaited, hstate]) (sendCurrentFileOffsetToSender_safe d _) s h
    · next sock hstate =>
      have hconnected : Ensures (Calls id .callbackDccRecvFile)
          (modifySession id fun d => { d with sock := sock, state := .connected })
          (fun _ => Calls id .callbackDccRecvFile) Quiet := by
        refine modifySession_calls (fun _ => rfl) (fun _ => rfl) fun _ e _ hecb hlast => ⟨?_, ?_⟩
        · intro cb hcb
          obtain rfl : Callback.data .callbackDccRecvFile = cb := Option.some.inj hcb
          exact ⟨hecb, hlast⟩
        · simp
      exact hreceiving (by simp [awaited, hstate]) (calls_safe hconnected)
    · exact (pure_safe _).weaken (fun _ h => h.1) (fun _ _ h => h) fun _ h => h

end turns

section acknowledgements
variable {env : Env} {s : Client}

theorem acceptResumeReverse_safe (nick : Option Bytes) (size token : ℕ) :
    Safe Sound (acceptResumeReverse env nick size token) := by
  intro s h
  cases hf : s.dccSessions.find? (fun d => d.passiveConnection && decide (d.token = token)) with
  | none =>
    rw [acceptResumeReverse_eq, libircFindDccSessionByToken,
      run_bind_of_ok (libircFind_run_of_none hf true)]
    exact h
  | some d =>
    have hmem : d ∈ s.dccSessions := List.mem_of_find?_eq_some hf
    have hpassive : d.passiveConnection = true := by
      have hfound := List.find?_some hf
      simp only [Bool.and_eq_true] at hfound
      exact hfound.1
    by_cases hstate : d.state = .waitingForResumeAck
    · obtain ⟨fault, s', hrun, -, htrace⟩ :=
        acceptResumeReverse_halts hf hstate (h.find_of_mem hmem) env nick size
      obtain ⟨hcb, hlast⟩ := (h.ready d hmem).awaits (.reverse .callbackDccResumeFileReverse)
        (by simp [awaited, hstate, hpassive])
      have hcb' : d.reverseCb = some .callbackDccResumeFileReverse := hcb
      rw [hrun]
      change CallsOk s'.trace
      rw [htrace, hcb']
      exact h.calls.call hlast
    · rw [acceptResumeReverse_eq, libircFindDccSessionByToken,
        run_bind_of_ok (libircFind_run_of_some hf)]
      simp only [ne_eq, hstate, not_false_eq_true, if_true]
      exact h.changeNet _

def acknowledgedSession (s : Client) (id size : ℕ) : Client :=
  withNet (sessionOp s s.net id (resumed .init size) []) s.net

theorem acceptResume_run_of_waiting {port : ℕ} {d : DccSession}
    (hf : s.dccSessions.find? (fun d => d.sinPort = port) = some d)
    (hstate : d.state = .waitingForResumeAck) (env : Env) (size : ℕ) :
    (acceptResume env port size).run s =
      (callCb env d.id 1 none size).run (acknowledgedSession s d.id size) := by
  rw [acceptResume_eq, libircFindDccSessionByPort, run_bind_of_ok (libircFind_run_of_some hf)]
  simp only [hstate, ne_eq, not_true_eq_false, if_false, EStateM.run_bind, modifySession,
    libircMutexUnlock, EStateM.run_modify, acknowledgedSession, sessionOp, withNet,
    List.append_nil, lockedNet, add_sub_cancel_right]
  rfl

/-- What goes wrong: the newest session with the port is a passive one that waits. -/
def Misaddressed (s : Client) (port : ℕ) : Prop :=
  ∃ d, s.dccSessions.find? (fun d => d.sinPort = port) = some d ∧ d.passiveConnection = true ∧
    d.state = .waitingForResumeAck

theorem sound_acknowledgedSession (h : Sound s) {d : DccSession} (hd : d ∈ s.dccSessions)
    (hactive : d.passiveConnection = false) (size : ℕ) : Sound (acknowledgedSession s d.id size) := by
  refine (h.operate s.net (by exact fun _ => rfl) (fun e he hid => ?_) (by simp) ?_).changeNet s.net
  · rw [h.eq_of_find (h.find_of_mem hd) he hid]
    exact ready_of_awaited_none rfl fun hpassive => absurd (hactive.symm.trans hpassive) (by simp)
  · rw [List.append_nil]
    exact h.calls

theorem acceptResume_safe (port size : ℕ) :
    Safe (fun s => Sound s ∧ ¬ Misaddressed s port) (acceptResume env port size) := by
  intro s ⟨h, haddress⟩
  cases hf : s.dccSessions.find? (fun d => decide (d.sinPort = port)) with
  | none =>
    rw [acceptResume_eq, libircFindDccSessionByPort, run_bind_of_ok (libircFind_run_of_none hf true)]
    exact h
  | some d =>
    have hmem : d ∈ s.dccSessions := List.mem_of_find?_eq_some hf
    by_cases hstate : d.state = .waitingForResumeAck
    · have hactive : d.passiveConnection = false := by
        by_contra hpassive
        exact haddress ⟨d, hf, by simpa using hpassive, hstate⟩
      obtain ⟨hcb, hlast⟩ := (h.ready d hmem).awaits (.data .callbackDccResumeFile)
        (by simp [awaited, hstate, hactive])
      have hcalls : Calls d.id .callbackDccResumeFile (acknowledgedSession s d.id size) := by
        refine ⟨sound_acknowledgedSession h hmem hactive size, fun e he hid => ?_⟩
        rcases mem_updateSession he with ⟨e', he', hid', rfl⟩ | ⟨-, hne⟩
        · rw [h.eq_of_find (h.find_of_mem hmem) he' hid']
          refine ⟨hcb, ?_⟩
          rw [acknowledgedSession, withNet_trace, sessionOp_trace, List.append_nil]
          exact hlast
        · exact absurd hid hne
      rw [acceptResume_run_of_waiting hf hstate]
      exact resume_safe 1 size _ hcalls
    · rw [acceptResume_eq, libircFindDccSessionByPort, run_bind_of_ok (libircFind_run_of_some hf)]
      simp only [ne_eq, hstate, not_false_eq_true, if_true]
      exact h.changeNet _

theorem acceptResume_run_of_misaddressed {port : ℕ} (h : Sound s) (haddress : Misaddressed s port)
    (env : Env) (size : ℕ) :
    ∃ id s', (acceptResume env port size).run s = .error .nullCallback s' ∧
      s'.trace = s.trace ++ [.call id none] := by
  obtain ⟨d, hf, hpassive, hstate⟩ := haddress
  have hmem : d ∈ s.dccSessions := List.mem_of_find?_eq_some hf
  have hcb : (resumed .init size d).cb = none := (h.ready d hmem).unset hpassive (.inr hstate)
  have hfind : (acknowledgedSession s d.id size).dccSessions.find? (fun e => e.id = d.id) =
      some (resumed .init size d) :=
    find?_sessionOp (h.find_of_mem hmem) s.net (by exact fun _ => rfl) []
  rw [acceptResume_run_of_waiting hf hstate, callCb_run_of_null hfind hcb]
  refine ⟨d.id, _, rfl, ?_⟩
  rw [called_trace, acknowledgedSession, withNet_trace, sessionOp_trace, List.append_nil]

end acknowledgements

section runs
variable {s : Client}

def Addressed (s : Client) : Event → Prop
  | .request _ nick req =>
    s.halted = none → isValidRequestFromNick s.cfg nick = some true →
      match dccRequestCall true req with
      | .acceptResume port _ => ¬ Misaddressed s port
      | _ => True
  | _ => True

def SoundRun (s : Client) : Prop := CallsOk s.trace ∧ (s.halted = none → Sound s)

theorem libircDccRequest_safe (env : Env) (nick : Option Bytes) (req : Bytes) :
    Safe (fun s => (Sound s ∧ s.halted = none) ∧ Addressed s (.request env nick req))
      (libircDccRequest env nick req) := by
  refine ensures_get_bind fun s hs => ?_
  obtain ⟨⟨hsound, hhalted⟩, haddressed⟩ := hs
  have hof {x : ClientM Unit} (hx : Safe Sound x) : Safe (fun t => t = s) x :=
    hx.weaken (fun _ ht => ht ▸ hsound) (fun _ _ h => h) fun _ h => h
  cases hnick : isValidRequestFromNick s.cfg nick with
  | none => exact hof (throw_safe _)
  | some verified =>
    cases verified with
    | false => exact hof (pure_safe _)
    | true =>
      have haddress := haddressed hhalted hnick
      dsimp only
      cases hcall : dccRequestCall true req with
      | acceptReverseDccSend filename ip size token ssl =>
        exact hof (acceptReverseDccSend_safe nick ip token ssl)
      | acceptDccSend filename ip size port ssl => exact hof (acceptDccSend_safe nick ip port ssl)
      | acceptResumeReverse size token => exact hof (acceptResumeReverse_safe nick size token)
      | acceptResume port size =>
        rw [hcall] at haddress
        exact (acceptResume_safe port size).weaken (fun _ ht => ht ▸ ⟨hsound, haddress⟩)
          (fun _ _ h => h) fun _ h => h
      | unhandled => exact hof (pure_safe _)
      | ignored => exact hof (pure_safe _)

theorem handle_safe (e : Event) :
    Safe (fun s => (Sound s ∧ s.halted = none) ∧ Addressed s e) (handle e) := by
  have hof {x : ClientM Unit} (hx : Safe Sound x) :
      Safe (fun s => (Sound s ∧ s.halted = none) ∧ Addressed s e) x :=
    hx.weaken (fun _ h => h.1.1) (fun _ _ h => h) fun _ h => h
  cases e with
  | request env nick req => exact libircDccRequest_safe env nick req
  | socket dccid ready =>
    refine hof (ensures_bind lock_safe fun _ => ?_)
    exact ensures_bind (processDescriptor_safe ready) fun _ => unlock_safe
  | addDescriptors =>
    refine hof (ensures_modify fun s h => ?_)
    have hsub : List.Sublist (s.dccSessions.filter fun d => d.state ≠ .removed) s.dccSessions :=
      List.filter_sublist
    exact ⟨h.nodup.sublist (hsub.map _), fun d hd => h.id_lt d (hsub.subset hd),
      fun d hd => h.ready d (hsub.subset hd), h.calls⟩
  | outputTimer => exact hof (keep_safe fun _ => ⟨rfl, rfl, rfl⟩)

theorem step_sound (e : Event) (h : SoundRun s) (haddressed : Addressed s e) :
    SoundRun (step s e) := by
  cases hs : s.halted with
  | some fault =>
    rw [step_of_halted hs]
    exact h
  | none =>
    have hhandle := handle_safe e s ⟨⟨h.2 hs, hs⟩, haddressed⟩
    unfold step
    rw [hs]
    cases hrun : (handle e).run s with
    | ok a s' =>
      rw [hrun] at hhandle
      exact ⟨hhandle.calls, fun _ => hhandle⟩
    | error fault s' =>
      rw [hrun] at hhandle
      exact ⟨hhandle, fun hnone => absurd hnone (by simp)⟩

theorem step_trace (s : Client) (e : Event) : ∃ l, (step s e).trace = s.trace ++ l := by
  let inv : Client → Prop := fun t => ∃ l, t.trace = s.trace ++ l
  have hinit : inv s := ⟨[], (List.append_nil _).symm⟩
  refine step_keeps ?_ ?_ s e hinit
  · intro t t' ⟨l, hl⟩ hc
    obtain ⟨l', hl'⟩ := changes_trace (.single hc)
    exact ⟨l ++ l', by rw [hl', hl, List.append_assoc]⟩
  · intro t progress fd files ⟨l, hl⟩
    exact ⟨l ++ [.storeContext t.numActiveDownloads],
      by rw [withDownload_trace, hl, List.append_assoc]⟩

theorem step_misaddressed (e : Event) (h : Sound s) (hs : s.halted = none)
    (haddressed : ¬ Addressed s e) :
    (step s e).halted = some .nullCallback ∧
      ∃ id, (step s e).trace = s.trace ++ [.call id none] := by
  cases e with
  | request env nick req =>
    simp only [Addressed, Classical.not_imp] at haddressed
    obtain ⟨-, hnick, haddress⟩ := haddressed
    have hget : (get : ClientM Client).run s = .ok s s := rfl
    cases hcall : dccRequestCall true req with
    | acceptResume port size =>
      rw [hcall] at haddress
      obtain ⟨id, s', hrun, htrace⟩ :=
        acceptResume_run_of_misaddressed h (not_not.mp haddress) env size
      have hhandle : (handle (.request env nick req)).run s = .error .nullCallback s' := by
        rw [handle, libircDccRequest, run_bind_of_ok hget, hnick]
        simp only [hcall]
        exact hrun
      unfold step
      rw [hs, hhandle]
      exact ⟨rfl, id, htrace⟩
    | _ =>
      rw [hcall] at haddress
      exact absurd trivial haddress
  | _ => exact absurd trivial haddressed

theorem step_not_callsOk (e : Event) (h : SoundRun s) (haddressed : ¬ Addressed s e) :
    ¬ CallsOk (step s e).trace := by
  cases hs : s.halted with
  | some fault =>
    refine absurd ?_ haddressed
    cases e with
    | request env nick req => exact fun hnone => absurd (hnone.symm.trans hs) (by simp)
    | _ => trivial
  | none =>
    obtain ⟨-, id, htrace⟩ := step_misaddressed e (h.2 hs) hs haddressed
    intro hok
    exact (hok s.trace id none [] htrace).1 rfl

theorem soundRun_initial (cfg : XdccGetConfig) (net : Net) (files : Bytes → Option Bytes) :
    SoundRun (initial cfg net files) := by
  have hcalls : CallsOk [] := by
    intro before id p after h
    exact absurd h (by simp)
  exact ⟨hcalls, fun _ => ⟨List.nodup_nil, fun d hd => absurd hd (by simp [initial]),
    fun d hd => absurd hd (by simp [initial]), hcalls⟩⟩

theorem sound_step (e : Event) (h : s.halted = none → Sound s) :
    (step s e).halted = none → Sound (step s e) := by
  intro hrunning
  have hbefore : s.halted = none := by
    cases hhalted : s.halted with
    | none => rfl
    | some fault => rw [step_of_halted hhalted, hhalted] at hrunning; exact absurd hrunning (by simp)
  have hsound := h hbefore
  by_cases haddressed : Addressed s e
  · exact (step_sound e ⟨hsound.calls, fun _ => hsound⟩ haddressed).2 hrunning
  · have hhalt := (step_misaddressed e hsound hbefore haddressed).1
    exact absurd (hrunning.symm.trans hhalt) (by simp)

theorem sound_of_running (cfg : XdccGetConfig) (net : Net) (files : Bytes → Option Bytes)
    (events : List Event) (h : (run step (initial cfg net files) events).halted = none) :
    Sound (run step (initial cfg net files) events) := by
  let inv : Client → Prop := fun s => s.halted = none → Sound s
  have hinit : inv (initial cfg net files) := (soundRun_initial cfg net files).2
  have hstep : ∀ s e, inv s → inv (step s e) := fun _ e hs => sound_step e hs
  exact run_invariant hstep hinit events h

/-- In every run each call goes through a pointer that is not null and was installed last on that
    session, exactly when no acknowledgement by port finds a passive session that waits. -/
theorem calls_ok_iff (cfg : XdccGetConfig) (net : Net) (files : Bytes → Option Bytes)
    (events : List Event) :
    CallsOk (run step (initial cfg net files) events).trace ↔
      AllAlong step Addressed (initial cfg net files) events := by
  have hinit := soundRun_initial cfg net files
  constructor
  · intro hcalls
    let bad : Client → Prop := fun s => ¬ CallsOk s.trace
    have hkeep : ∀ s e, bad s → bad (step s e) := by
      intro s e hbad hok
      obtain ⟨l, hl⟩ := step_trace s e
      rw [hl] at hok
      exact hbad hok.of_append
    exact allAlong_of_run (fun s e h hp => step_sound e h hp)
      (fun s e h hp => step_not_callsOk e h hp) hkeep hinit (not_not.mpr hcalls)
  · intro hall
    exact (run_invariant_of_allAlong (fun s e h hp => step_sound e h hp) hinit hall).1

/-- Half of the file is there, so a reverse offer of it is resumed; the acknowledgement leaves the
    token out. -/
theorem tokenless_acknowledgement_calls_null :
    ¬ CallsOk (run step (initial (oneBot false) connected (oneFile (bytes "d/f") (bytes "ab")))
      [botRequest "DCC SEND f 16909060 0 4 7", botRequest "DCC ACCEPT file.ext 0 2"]).trace := by
  intro h
  have htrace : Action.call 1 none ∈ (run step
      (initial (oneBot false) connected (oneFile (bytes "d/f") (bytes "ab")))
      [botRequest "DCC SEND f 16909060 0 4 7", botRequest "DCC ACCEPT file.ext 0 2"]).trace := by
    decide +kernel
  obtain ⟨before, after, hsplit⟩ := List.append_of_mem htrace
  exact (h before 1 none after hsplit).1 rfl

end runs

end Xdccget.CallbackSteps
