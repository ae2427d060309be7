import Xdccget.FailedTransfers

set_option autoImplicit false

/-!
# Completed transfers

A transfer ends when an acknowledgement carries the size that its session knows. An
active session is given the announced size; a passive one never is, and keeps 0.
-/
namespace Xdccget.CompletedTransfers
open CText DccMessages ClientState DccSessions Downloads HaltingPrograms SessionSpecs StepRuns
open LoggedTurns ProgramRelations
open SocketTurns (Turn)
open DccEvents (Chunk RecvResult SendResult SocketReady Event noEnv oneBot connected noFiles botRequest)

/-- The session was there. One that is spared is not removed unless it was. -/
structure Carries (spared : Prop) (d d' : DccSession) : Prop where
  id_eq : d'.id = d.id
  passive_eq : d'.passiveConnection = d.passiveConnection
  size_eq : d'.receivedFileSize = d.receivedFileSize
  removed : spared → d'.state = .removed → d.state = .removed

theorem carries_refl {spared : Prop} (d : DccSession) : Carries spared d d :=
  ⟨rfl, rfl, rfl, fun _ => id⟩

theorem Carries.trans {spared : Prop} {d e f : DccSession} (h : Carries spared d e)
    (h' : Carries spared e f) : Carries spared d f where
  id_eq := h'.id_eq.trans h.id_eq
  passive_eq := h'.passive_eq.trans h.passive_eq
  size_eq := h'.size_eq.trans h.size_eq
  removed := fun hspared hf => h.removed hspared (h'.removed hspared hf)

def Carried (spared : Prop) (ds : List DccSession) (n : ℕ) (c : Client) : Prop :=
  List.Forall₂ (Carries spared) ds c.dccSessions ∧ c.dccLastId = n

theorem carried_self {spared : Prop} (c : Client) : Carried spared c.dccSessions c.dccLastId c :=
  ⟨List.forall₂_same.mpr fun d _ => carries_refl d, rfl⟩

abbrev Survives {σ : Type} (P Q : σ → Prop) {α : Type} (x : EStateM Halt σ α) : Prop :=
  Ensures P x (fun _ => Q) fun _ => True

theorem survives_get_bind {σ α : Type} {P Q : σ → Prop} {f : σ → EStateM Halt σ α}
    (h : ∀ s, Survives P Q (f s)) : Survives P Q (get >>= f) :=
  ensures_get_bind fun s hs =>
    (h s).weaken (fun _ ht => ht ▸ hs) (fun _ _ h => h) fun _ h => h

theorem survives_ite {σ α : Type} {P Q : σ → Prop} {c : Prop} [Decidable c] {x y : EStateM Halt σ α}
    (hx : Survives P Q x) (hy : Survives P Q y) : Survives P Q (if c then x else y) :=
  ensures_ite (fun _ => hx) fun _ => hy

theorem ensures_any {σ α : Type} {P : σ → Prop} {x : EStateM Halt σ α} :
    Ensures P x (fun _ _ => True) fun _ => True := by
  intro s _
  cases x.run s <;> trivial

section walk
variable {spared : Prop} {ds : List DccSession} {n : ℕ}

abbrev Carrying (spared : Prop) (ds : List DccSession) (n : ℕ) {α : Type} (x : ClientM α) : Prop :=
  Survives (Carried spared ds n) (Carried spared ds n) x

abbrev Answering (spared : Prop) (ds : List DccSession) (n : ℕ) (call : ClientM ℕ) : Prop :=
  Ensures (Carried spared ds n) call (fun ret c => ret = 0 → Carried spared ds n c) fun _ => True

theorem answers_of_carrying {call : ClientM ℕ} (h : Carrying spared ds n call) : Answering spared ds n call :=
  h.weaken (fun _ h => h) (fun _ _ h _ => h) fun _ h => h

theorem pure_carries {α : Type} (a : α) : Carrying spared ds n (pure a) := ensures_pure fun _ h => h

theorem throw_carries {α : Type} (fault : Halt) : Carrying spared ds n (throw fault : ClientM α) :=
  ensures_throw fun _ _ => trivial

theorem modify_carries {f : Client → Client}
    (h : ∀ c, (f c).dccSessions = c.dccSessions ∧ (f c).dccLastId = c.dccLastId) :
    Carrying spared ds n (modify f) := ensures_modify fun c hc => by
  rw [Carried, (h c).1, (h c).2]
  exact hc

theorem record_carries (a : Action) : Carrying spared ds n (record a) := modify_carries fun _ => ⟨rfl, rfl⟩

theorem setLasterror_carries (err : ℕ) : Carrying spared ds n (setLasterror err) :=
  modify_carries fun _ => ⟨rfl, rfl⟩

theorem lock_carries : Carrying spared ds n libircMutexLock := modify_carries fun _ => ⟨rfl, rfl⟩

theorem unlock_carries : Carrying spared ds n libircMutexUnlock := modify_carries fun _ => ⟨rfl, rfl⟩

theorem modifyContext_carries (context : ℕ) (f : DccDownloadContext → DccDownloadContext) :
    Carrying spared ds n (modifyContext context f) := modify_carries fun _ => ⟨rfl, rfl⟩

theorem modifySession_carries (id : ℕ) {f : DccSession → DccSession} (hf : ∀ d, Carries spared d (f d)) :
    Carrying spared ds n (modifySession id f) := by
  refine ensures_modify fun c hc => ⟨?_, hc.2⟩
  rw [updateSession, List.forall₂_map_right_iff]
  refine hc.1.imp fun d e hde => ?_
  split
  · exact hde.trans (hf e)
  · exact hde

theorem carries_setState {d e : DccSession} (hid : e.id = d.id)
    (hpassive : e.passiveConnection = d.passiveConnection)
    (hsize : e.receivedFileSize = d.receivedFileSize) (hstate : e.state ≠ .removed) : Carries spared d e :=
  ⟨hid, hpassive, hsize, fun _ h => absurd h hstate⟩

theorem ircSendRaw_carries (text : Bytes) : Carrying spared ds n (ircSendRaw text) := by
  have hfail (err : ℕ) : Carrying spared ds n (do setLasterror err; return 1) :=
    ensures_bind (setLasterror_carries err) fun _ => pure_carries 1
  refine survives_get_bind fun c => survives_ite (hfail _) (survives_ite (hfail _) ?_)
  refine ensures_bind (modify_carries fun _ => ⟨rfl, rfl⟩) fun _ => ?_
  exact ensures_bind (record_carries _) fun _ => pure_carries 0

theorem ircCmdCtcpRequest_carries (nick : Option Bytes) (reply : Bytes) :
    Carrying spared ds n (ircCmdCtcpRequest nick reply) := by
  cases nick with
  | none => exact ensures_bind (setLasterror_carries _) fun _ => pure_carries 1
  | some nick => exact ircSendRaw_carries _

theorem libircFind_carries (found : DccSession → Bool) (lockList : Bool) :
    Carrying spared ds n (libircFind found lockList) := by
  have hrest : Carrying spared ds n (do
      let d := (← get).dccSessions.find? found
      if d.isNone && lockList then
        libircMutexUnlock
      return d) :=
    survives_get_bind fun c => survives_ite (ensures_bind unlock_carries fun _ => pure_carries _) (pure_carries _)
  exact survives_ite (ensures_bind lock_carries fun _ => hrest) hrest

theorem refused_carries : Carrying spared ds n (do
    setLasterror libircErrState
    libircMutexUnlock
    return 1) :=
  ensures_bind (setLasterror_carries _) fun _ => ensures_bind unlock_carries fun _ => pure_carries 1

theorem ircDccAccept_answers (env : Env) (dccid : ℕ) (ctx : Option ℕ) (callback : DataCallback) :
    Answering spared ds n (ircDccAccept env dccid ctx callback) := by
  refine ensures_bind (libircFind_carries _ _) fun found => ?_
  cases found with
  | none => exact answers_of_carrying (pure_carries 1)
  | some dcc =>
    refine ensures_ite (fun _ => answers_of_carrying refused_carries) fun _ => ?_
    refine ensures_bind (modifySession_carries dccid fun _ => ⟨rfl, rfl, rfl, fun _ => id⟩) fun _ => ?_
    refine ensures_bind (record_carries _) fun _ => ensures_ite (fun _ => ?_) fun _ => ?_
    · -- the session is removed, but the caller is told
      refine ensures_bind ensures_any fun _ => ensures_bind ensures_any fun _ => ?_
      refine ensures_bind ensures_any fun _ => ensures_pure fun _ _ hret => absurd hret (by decide)
    · refine ensures_ite (fun _ => ?_) fun _ => ?_
      · exact answers_of_carrying (ensures_bind (setLasterror_carries _) fun _ => pure_carries 1)
      · refine ensures_bind (modifySession_carries dccid fun d => ?_) fun _ => ?_
        · exact carries_setState rfl rfl rfl (by dsimp only; split <;> decide)
        · exact answers_of_carrying (ensures_bind unlock_carries fun _ => pure_carries 0)

theorem askResume_carries {f : DccSession → DccSession} (hf : ∀ d, Carries spared d (f d)) (dccid : ℕ)
    (cb : Callback) (nick : Option Bytes) (text : Bytes) :
    Carrying spared ds n (do
      modifySession dccid f
      record (.install dccid cb)
      discard (ircCmdCtcpRequest nick text)
      modifySession dccid fun d => { d with state := .waitingForResumeAck }
      libircMutexUnlock
      return 0) := by
  refine ensures_bind (modifySession_carries dccid hf) fun _ => ?_
  refine ensures_bind (record_carries _) fun _ => ?_
  refine ensures_bind (ensures_discard (ircCmdCtcpRequest_carries _ _)) fun _ => ?_
  refine ensures_bind (modifySession_carries dccid fun _ => carries_setState rfl rfl rfl (by simp)) fun _ => ?_
  exact ensures_bind unlock_carries fun _ => pure_carries 0

theorem ircDccResume_carries (dccid : ℕ) (ctx : Option ℕ) (callback : DataCallback)
    (nick : Option Bytes) (filePosition : ℕ) :
    Carrying spared ds n (ircDccResume dccid ctx callback nick filePosition) := by
  refine ensures_bind (libircFind_carries _ _) fun found => ?_
  cases found with
  | none => exact pure_carries 1
  | some dcc =>
    refine survives_ite refused_carries (askResume_carries (fun d => ?_) dccid _ nick _)
    exact ⟨rfl, rfl, rfl, fun _ => id⟩

theorem ircDccResumeReverse_carries (dccid : ℕ) (ctx : Option ℕ) (callback : ReverseCallback)
    (nick : Option Bytes) (filePosition token : ℕ) :
    Carrying spared ds n (ircDccResumeReverse dccid ctx callback nick filePosition token) := by
  refine ensures_bind (libircFind_carries _ _) fun found => ?_
  cases found with
  | none => exact pure_carries 1
  | some dcc =>
    refine survives_ite refused_carries (askResume_carries (fun d => ?_) dccid _ nick _)
    exact ⟨rfl, rfl, rfl, fun _ => id⟩

theorem ircDccAcceptReverse_carries (env : Env) (dccid : ℕ) (ctx : Option ℕ)
    (callback : DataCallback) (nick : Option Bytes) (filename : Bytes) (size token : ℕ) :
    Carrying spared ds n (ircDccAcceptReverse env dccid ctx callback nick filename size token) := by
  refine ensures_bind (libircFind_carries _ _) fun found => ?_
  cases found with
  | none => exact pure_carries 1
  | some dcc =>
    refine survives_ite refused_carries ?_
    cases env.inetPton with
    | none => exact ensures_bind (setLasterror_carries _) fun _ => pure_carries 1
    | some addr =>
      refine survives_get_bind fun c => ?_
      refine ensures_bind (ensures_discard (ircCmdCtcpRequest_carries _ _)) fun _ => ?_
      refine ensures_bind (modifySession_carries dccid fun _ => carries_setState rfl rfl rfl (by simp)) fun _ => ?_
      exact ensures_bind (record_carries _) fun _ => ensures_bind unlock_carries fun _ => pure_carries 0

theorem exitOnFailure_carries {call : ClientM ℕ} (h : Answering spared ds n call) :
    Carrying spared ds n (exitOnFailure call) := by
  refine ensures_bind h fun ret => ensures_ite (fun _ => ensures_throw fun _ _ => trivial) fun hret => ?_
  exact ensures_pure fun c hc => hc (not_not.mp hret)

theorem writeFile_carries (context : ℕ) (data : Bytes) : Carrying spared ds n (writeFile context data) := by
  refine survives_get_bind fun c => ?_
  cases c.downloadContext[context]? with
  | none => exact throw_carries _
  | some k =>
    dsimp only
    cases k.fd with
    | none => exact ensures_bind (record_carries _) fun _ => throw_carries _
    | some fd =>
      refine ensures_bind (modify_carries fun _ => ⟨rfl, rfl⟩) fun _ => ?_
      exact ensures_bind (modifyContext_carries _ _) fun _ => record_carries _

theorem downloadCompleted_carries (context : ℕ) : Carrying spared ds n (downloadCompleted context) := by
  refine ensures_bind (modify_carries fun _ => ⟨rfl, rfl⟩) fun _ => ?_
  refine ensures_bind (modifyContext_carries _ _) fun _ => ?_
  refine ensures_bind (modify_carries fun _ => ⟨rfl, rfl⟩) fun _ => ?_
  refine ensures_bind (modifyContext_carries _ _) fun _ => ?_
  refine ensures_bind (modify_carries fun _ => ⟨rfl, rfl⟩) fun _ => ?_
  refine ensures_bind (record_carries _) fun _ => survives_get_bind fun c => ?_
  refine survives_ite (survives_ite (ensures_discard (ircSendRaw_carries _)) (pure_carries ())) ?_
  refine survives_ite ?_ (pure_carries ())
  cases ((c.cfg.dccDownloadArray.getD [])[0]?).bind (·.md5) with
  | none => exact pure_carries ()
  | some md5 => exact record_carries _

theorem callbackDccRecvFile_carries (status : ℕ) (ctx : Option ℕ) (data : Option Bytes) (length : ℕ) :
    Carrying spared ds n (callbackDccRecvFile status ctx data length) := by
  cases data with
  | none => exact pure_carries ()
  | some data =>
    cases ctx with
    | none => exact pure_carries ()
    | some context =>
      refine survives_ite (pure_carries ()) (survives_ite (pure_carries ()) ?_)
      refine ensures_bind (modifyContext_carries _ _) fun _ => ?_
      refine ensures_bind (writeFile_carries _ _) fun _ => survives_get_bind fun c => ?_
      cases c.downloadContext[context]? with
      | none => exact throw_carries _
      | some k => exact survives_ite (downloadCompleted_carries context) (pure_carries ())

theorem seekToResume_carries (env : Env) (context length : ℕ) :
    Carrying spared ds n (seekToResume env context length) := by
  refine ensures_bind (survives_get_bind fun c => ?_) fun _ => modifyContext_carries _ _
  cases c.downloadContext[context]? with
  | none => exact throw_carries _
  | some k =>
    dsimp only
    cases k.fd with
    | none => exact throw_carries _
    | some fd => exact survives_ite (modifyContext_carries _ _) (throw_carries _)

theorem callbackDccResumeFile_carries (env : Env) (dccid : ℕ) (ctx : Option ℕ) (length : ℕ) :
    Carrying spared ds n (callbackDccResumeFile env dccid ctx length) := by
  cases ctx with
  | none => exact throw_carries _
  | some context =>
    refine ensures_bind (seekToResume_carries env context length) fun _ => ?_
    exact exitOnFailure_carries (ircDccAccept_answers _ _ _ _)

theorem callbackDccResumeFileReverse_carries (env : Env) (dccid : ℕ) (ctx : Option ℕ) (length : ℕ)
    (nick : Option Bytes) (filename : Bytes) (token : ℕ) :
    Carrying spared ds n (callbackDccResumeFileReverse env dccid ctx length nick filename token) := by
  cases ctx with
  | none => exact throw_carries _
  | some context =>
    refine ensures_bind (seekToResume_carries env context length) fun _ => survives_get_bind fun c => ?_
    cases c.downloadContext[context]? with
    | none => exact throw_carries _
    | some k => exact exitOnFailure_carries (answers_of_carrying (ircDccAcceptReverse_carries _ _ _ _ _ _ _ _))

theorem openFile_carries (env : Env) (context : ℕ) (path : Bytes) (append : Bool) :
    Carrying spared ds n (openFile env context path append) := by
  have hopen : Carrying spared ds n (do
      if !append then
        modify fun s => { s with files := fun p => if p = path then some [] else s.files p }
      modifyContext context fun c =>
        { c with fd := some { fileName := path, append := append, position := 0 } }) :=
    survives_ite (ensures_bind (modify_carries fun _ => ⟨rfl, rfl⟩) fun _ => modifyContext_carries _ _)
      (modifyContext_carries _ _)
  exact survives_ite (ensures_bind (throw_carries _) fun _ => hopen) hopen

theorem prepareRecvFileRequest_carries (env : Env) (filename : Bytes) (size : ℕ) :
    Carrying spared ds n (prepareRecvFileRequest env filename size) := by
  have hprepare : Carrying spared ds n (do
      let s ← get
      let context := s.downloadContext.length
      let progress := newDccProgress env (getCompletePath s.cfg filename) size
      record (.storeContext s.numActiveDownloads)
      modify fun s =>
        { s with
          downloadContext := s.downloadContext ++ [{ progress := progress, fd := none }]
          curDownload := some context
          numActiveDownloads := s.numActiveDownloads + 1 }
      return context) :=
    survives_get_bind fun c => ensures_bind (record_carries _) fun _ =>
      ensures_bind (modify_carries fun _ => ⟨rfl, rfl⟩) fun _ => pure_carries _
  exact survives_ite (ensures_bind (throw_carries _) fun _ => hprepare) hprepare

theorem recvFileWith_carries (env : Env) (filename : Bytes) (size : ℕ) {accept : ℕ → ClientM ℕ}
    {resume : ℕ → ℕ → ClientM ℕ} (haccept : ∀ context, Answering spared ds n (accept context))
    (hresume : ∀ context position, Answering spared ds n (resume context position)) :
    Carrying spared ds n (recvFileWith env filename size accept resume) := by
  refine ensures_bind (prepareRecvFileRequest_carries env filename size) fun context => ?_
  refine survives_get_bind fun c => ?_
  dsimp only
  cases c.files (getCompletePath c.cfg filename) with
  | some content =>
    refine ensures_bind (openFile_carries _ _ _ _) fun _ => ?_
    have hrest : Carrying spared ds n (do
        if content.length = 0 then
          exitOnFailure (accept context)
        else
          exitOnFailure (resume context content.length)) :=
      survives_ite (exitOnFailure_carries (haccept _)) (exitOnFailure_carries (hresume _ _))
    exact survives_ite (ensures_bind (throw_carries _) fun _ => hrest) hrest
  | none => exact ensures_bind (openFile_carries _ _ _ _) fun _ => exitOnFailure_carries (haccept _)

theorem recvFileRequest_carries (env : Env) (nick : Option Bytes) (filename : Bytes)
    (size dccid : ℕ) : Carrying spared ds n (recvFileRequest env nick filename size dccid) :=
  recvFileWith_carries env filename size (fun _ => ircDccAccept_answers _ _ _ _) fun _ _ =>
    answers_of_carrying (ircDccResume_carries _ _ _ _ _)

theorem recvFileRequestReverse_carries (env : Env) (nick : Option Bytes) (filename : Bytes)
    (size dccid token : ℕ) :
    Carrying spared ds n (recvFileRequestReverse env nick filename size dccid token) :=
  recvFileWith_carries env filename size (fun _ => answers_of_carrying (ircDccAcceptReverse_carries _ _ _ _ _ _ _ _))
    fun _ _ => answers_of_carrying (ircDccResumeReverse_carries _ _ _ _ _ _)

end walk

def announcedSize (announced : List (ℕ × ℕ)) (id : ℕ) : Option ℕ :=
  (announced.find? fun a => a.1 = id).map Prod.snd

/-- Every session was announced with a size. An active one knows it, a passive one knows 0. -/
structure Sized (announced : List (ℕ × ℕ)) (ds : List DccSession) (n : ℕ) : Prop where
  known : ∀ d ∈ ds, ∃ size, announcedSize announced d.id = some size ∧
    d.receivedFileSize = if d.passiveConnection then 0 else size
  announced_lt : ∀ a ∈ announced, a.1 < n
  id_lt : ∀ d ∈ ds, d.id < n

def RemovedIn (ds : List DccSession) (id : ℕ) : Prop :=
  ∃ d, ds.find? (fun d => d.id = id) = some d ∧ d.state = .removed

section sizes
variable {spared : Prop} {announced : List (ℕ × ℕ)} {ds : List DccSession} {n : ℕ}

theorem Sized.carried (h : Sized announced ds n) {c : Client} (hc : Carried spared ds n c) :
    Sized announced c.dccSessions c.dccLastId := by
  obtain ⟨hall, rfl⟩ := hc
  have hback : ∀ d' ∈ c.dccSessions, ∃ d ∈ ds, Carries spared d d' := by
    intro d' hd'
    obtain ⟨i, hi, rfl⟩ := List.getElem_of_mem hd'
    have hi' : i < ds.length := hall.length_eq ▸ hi
    exact ⟨ds[i], List.getElem_mem hi', (List.forall₂_iff_get.mp hall).2 i hi' hi⟩
  refine ⟨fun d' hd' => ?_, h.announced_lt, fun d' hd' => ?_⟩
  · obtain ⟨d, hd, hcarries⟩ := hback d' hd'
    rw [hcarries.id_eq, hcarries.size_eq, hcarries.passive_eq]
    exact h.known d hd
  · obtain ⟨d, hd, hcarries⟩ := hback d' hd'
    rw [hcarries.id_eq]
    exact h.id_lt d hd

theorem Sized.push (h : Sized announced ds n) {d : DccSession} (hid : d.id = n) {size : ℕ}
    (hsize : d.receivedFileSize = if d.passiveConnection then 0 else size) :
    Sized (announced ++ [(n, size)]) (d :: ds) (n + 1) := by
  have hold : ∀ id, id < n → announcedSize (announced ++ [(n, size)]) id = announcedSize announced id := by
    intro id hid
    rw [announcedSize, List.find?_append]
    cases hfind : announced.find? fun a => decide (a.1 = id) with
    | none => simp [announcedSize, hfind, hid.ne']
    | some a => simp [announcedSize, hfind]
  constructor
  · intro e he
    rcases List.mem_cons.mp he with rfl | he
    · refine ⟨size, ?_, hsize⟩
      have hnone : announced.find? (fun a => decide (a.1 = n)) = none := by
        rw [List.find?_eq_none]
        intro a ha heq
        exact absurd (of_decide_eq_true heq) (h.announced_lt a ha).ne
      simp [announcedSize, List.find?_append, hnone, hid]
    · obtain ⟨size', hsize', hknown⟩ := h.known e he
      exact ⟨size', (hold e.id (h.id_lt e he)).trans hsize', hknown⟩
  · intro a ha
    rcases List.mem_append.mp ha with ha | ha
    · exact (h.announced_lt a ha).trans (Nat.lt_succ_self n)
    · rw [List.mem_singleton.mp ha]
      exact Nat.lt_succ_self n
  · intro e he
    rcases List.mem_cons.mp he with rfl | he
    · rw [hid]
      exact Nat.lt_succ_self n
    · exact (h.id_lt e he).trans (Nat.lt_succ_self n)

theorem removedIn_of_carries (hspared : spared) {ds' : List DccSession} (h : List.Forall₂ (Carries spared) ds ds') {id : ℕ}
    (hremoved : RemovedIn ds' id) : RemovedIn ds id := by
  induction h with
  | nil => exact hremoved
  | @cons d d' ds ds' hd _ ih =>
    obtain ⟨e, hfind, hstate⟩ := hremoved
    by_cases hid : d.id = id
    · have hid' : d'.id = id := hd.id_eq.trans hid
      obtain rfl : d' = e := by simpa [List.find?_cons, hid'] using hfind
      exact ⟨d, by simp [hid], hd.removed hspared hstate⟩
    · have hid' : d'.id ≠ id := fun h => hid (hd.id_eq.symm.trans h)
      obtain ⟨e', hfind', hstate'⟩ := ih ⟨e, by simpa [List.find?_cons, hid'] using hfind, hstate⟩
      exact ⟨e', by simpa [List.find?_cons, hid] using hfind', hstate'⟩

def Pending (spared : Prop) (announced : List (ℕ × ℕ)) (ds : List DccSession) (n : ℕ) (s : LoggedClient) : Prop :=
  s.announced = announced ∧ Carried spared ds n s.client

def Unended (spared : Prop) (ds : List DccSession) (s : LoggedClient) : Prop :=
  Sized s.announced s.client.dccSessions s.client.dccLastId ∧
    (spared → ∀ id, RemovedIn s.client.dccSessions id → RemovedIn ds id)

theorem unended_of_pending (h : Sized announced ds n) {s : LoggedClient}
    (hs : Pending spared announced ds n s) : Unended spared ds s := by
  refine ⟨?_, fun hspared id => removedIn_of_carries hspared hs.2.1⟩
  rw [hs.1]
  exact h.carried hs.2

theorem unended_of_pending_push (h : Sized announced ds n) {d : DccSession} (hid : d.id = n)
    {size : ℕ} (hsize : d.receivedFileSize = if d.passiveConnection then 0 else size)
    (hstate : d.state = .init) {s : LoggedClient}
    (hs : Pending spared (announced ++ [(n, size)]) (d :: ds) (n + 1) s) : Unended spared ds s := by
  refine ⟨?_, fun hspared id hremoved => ?_⟩
  · rw [hs.1]
    exact (h.push hid hsize).carried hs.2
  · obtain ⟨e, hfind, hremoved⟩ := removedIn_of_carries hspared hs.2.1 hremoved
    by_cases hd : d.id = id
    · obtain rfl : d = e := by simpa [List.find?_cons, hd] using hfind
      rw [hstate] at hremoved
      cases hremoved
    · exact ⟨e, by simpa [List.find?_cons, hd] using hfind, hremoved⟩

theorem onClient_pending {α : Type} {x : ClientM α} (hx : Carrying spared ds n x) :
    Survives (Pending spared announced ds n) (Pending spared announced ds n) (onClient x) := by
  rintro s ⟨hannounced, hcarried⟩
  have h := hx s.client hcarried
  rw [onClient, zoom_run]
  cases hrun : x.run s.client with
  | ok a c =>
    rw [hrun] at h
    exact ⟨hannounced, h⟩
  | error fault c => trivial

theorem modifySession_pending {d : DccSession} (hd : d.id = n) (hlt : ∀ e ∈ ds, e.id < n)
    {f : DccSession → DccSession} (hf : ∀ e e', Carries spared e e' → Carries spared (f e) (f e')) :
    Survives (Pending spared announced (d :: ds) (n + 1)) (Pending spared announced (f d :: ds) (n + 1))
      (onClient (modifySession n f)) := by
  rintro s ⟨hannounced, hcarried, hlast⟩
  refine ⟨hannounced, ?_, hlast⟩
  change List.Forall₂ (Carries spared) (f d :: ds) (updateSession n f s.client.dccSessions)
  obtain ⟨d', ds', hd', hds', hsessions⟩ := List.forall₂_cons_left_iff.mp hcarried
  rw [hsessions, updateSession, List.map_cons, if_pos (hd'.id_eq.trans hd)]
  refine .cons (hf d d' hd') ?_
  rw [List.forall₂_map_right_iff, List.forall₂_iff_get]
  refine ⟨hds'.length_eq, fun i hi hi' => ?_⟩
  have he : Carries spared (ds.get ⟨i, hi⟩) (ds'.get ⟨i, hi'⟩) := (List.forall₂_iff_get.mp hds').2 i hi hi'
  have hne : (ds'.get ⟨i, hi'⟩).id ≠ n := he.id_eq ▸ (hlt _ (List.get_mem ds ⟨i, hi⟩)).ne
  rw [if_neg hne]
  exact he

theorem newDccSession_pending {Q : LoggedClient → Prop} (env : Env) (ip port : ℕ) (ssl : Bool)
    {f : ℕ → LoggedM Unit} (hfail : ∀ s, Pending spared announced ds n s → Q s)
    (hf : ∀ sock, Survives
      (Pending spared announced (newSession n sock ip port none ssl :: ds) (n + 1)) Q (f n)) :
    Survives (Pending spared announced ds n) Q (do
      match ← onClient (libircNewDccSession env ip port none ssl) with
      | .error err => onClient (setLasterror err)
      | .ok dccid => f dccid) := by
  rintro s ⟨hannounced, hcarried⟩
  by_cases hopen : CanOpen env ssl s.client
  · obtain ⟨sock, net, hrun⟩ := libircNewDccSession_run_of_canOpen hopen ip port none
    rw [run_bind_of_ok (onClient_run_of_ok hrun), hcarried.2]
    refine hf sock _ ⟨hannounced, ?_, ?_⟩
    · exact .cons (carries_refl _) hcarried.1
    · change s.client.dccLastId + 1 = n + 1
      rw [hcarried.2]
  · rcases libircNewDccSession_run_of_not_canOpen hopen ip port none with hrun | hrun
    · rw [run_bind_of_ok (onClient_run_of_ok hrun)]
      exact (onClient_pending (setLasterror_carries _)).weaken (fun _ h => h) (fun _ _ h => hfail _ h)
        (fun _ h => h) _ ⟨hannounced, hcarried⟩
    · rw [run_bind_of_error (onClient_run_of_error hrun)]
      trivial

theorem logSize_pending (size : ℕ) :
    Survives (Pending spared announced ds (n + 1)) (Pending spared (announced ++ [(n, size)]) ds (n + 1))
      (logSize n size) := ensures_modify fun s hs => by
  refine ⟨?_, hs.2⟩
  rw [hs.1]

end sizes

section requests
variable {spared : Prop} {announced : List (ℕ × ℕ)} {ds : List DccSession} {n : ℕ} (h : Sized announced ds n)
include h

theorem acceptDccSend_ends (env : Env) (nick : Option Bytes) (filename : Bytes)
    (ip size port : ℕ) (ssl : Bool) :
    Survives (Pending spared announced ds n) (Unended spared ds)
      ((requests env nick).acceptDccSend filename ip size port ssl) := by
  refine newDccSession_pending env ip port ssl (fun _ hs => unended_of_pending h hs) fun sock => ?_
  refine ensures_bind (logSize_pending size) fun _ => ?_
  refine ensures_bind (onClient_pending (recvFileRequest_carries _ _ _ _ _)) fun _ => ?_
  let d : DccSession := newSession n sock ip port none ssl
  have hsized : Survives (Pending spared (announced ++ [(n, size)]) (d :: ds) (n + 1))
      (Pending spared (announced ++ [(n, size)]) ({ d with receivedFileSize := size } :: ds) (n + 1))
      (onClient (modifySession n fun d => { d with receivedFileSize := size })) :=
    modifySession_pending rfl h.id_lt fun e e' he => ⟨he.id_eq, he.passive_eq, rfl, he.removed⟩
  exact hsized.weaken (fun _ hs => hs)
    (fun _ _ hs => unended_of_pending_push h rfl (by simp [d, newSession]) rfl hs) fun _ h => h

theorem acceptReverseDccSend_ends (env : Env) (nick : Option Bytes) (filename : Bytes)
    (ip size token : ℕ) (ssl : Bool) :
    Survives (Pending spared announced ds n) (Unended spared ds)
      ((requests env nick).acceptReverseDccSend filename ip size token ssl) := by
  refine newDccSession_pending env ip 0 ssl (fun _ hs => unended_of_pending h hs) fun sock => ?_
  refine ensures_bind (logSize_pending size) fun _ => ?_
  let d : DccSession := newSession n sock ip 0 none ssl
  let e : DccSession := { d with passiveConnection := true, token := token }
  have hpassive : Survives (Pending spared (announced ++ [(n, size)]) (d :: ds) (n + 1))
      (Pending spared (announced ++ [(n, size)]) (e :: ds) (n + 1))
      (onClient (modifySession n fun d => { d with passiveConnection := true, token := token })) :=
    modifySession_pending rfl h.id_lt fun e e' he => ⟨he.id_eq, rfl, he.size_eq, he.removed⟩
  refine ensures_bind hpassive fun _ => ?_
  have hend {x : LoggedM Unit}
      (hx : Survives (Pending spared (announced ++ [(n, size)]) (e :: ds) (n + 1))
        (Pending spared (announced ++ [(n, size)]) (e :: ds) (n + 1)) x) :
      Survives (Pending spared (announced ++ [(n, size)]) (e :: ds) (n + 1)) (Unended spared ds) x :=
    hx.weaken (fun _ hs => hs)
      (fun _ _ hs => unended_of_pending_push h rfl (by simp [e, d, newSession]) rfl hs) fun _ h => h
  have hfail (err : ℕ) : Survives (Pending spared (announced ++ [(n, size)]) (e :: ds) (n + 1))
      (Unended spared ds) (do onClient (setLasterror err); return) :=
    hend (ensures_bind (onClient_pending (setLasterror_carries err)) fun _ => ensures_pure fun _ h => h)
  refine survives_ite (hfail _) (survives_ite (hfail _) ?_)
  exact hend (onClient_pending (recvFileRequestReverse_carries _ _ _ _ _ _))

end requests

section turns
variable {spared : Prop} {announced : List (ℕ × ℕ)} {ds : List DccSession} {n : ℕ}

abbrev Pends (spared : Prop) (announced : List (ℕ × ℕ)) (ds : List DccSession) (n : ℕ)
    (x : LoggedM Unit) : Prop :=
  Survives (Pending spared announced ds n) (Pending spared announced ds n) x

theorem pure_pending : Pends spared announced ds n (pure ()) := ensures_pure fun _ h => h

theorem logCall_pending (call : DataCall) : Pends spared announced ds n (logCall call) :=
  ensures_modify fun _ h => h

theorem callCb_pending (env : Env) (dccid status : ℕ) (data : Option Bytes) (length : ℕ) :
    Pends spared announced ds n (callCb env dccid status data length) := by
  refine survives_get_bind fun s => ?_
  cases s.client.dccSessions.find? (fun d => decide (d.id = dccid)) with
  | none => exact pure_pending
  | some dcc =>
    refine ensures_bind (onClient_pending (record_carries _)) fun _ => ?_
    cases dcc.cb with
    | none => exact ensures_throw fun _ _ => trivial
    | some cb =>
      cases cb with
      | callbackDccRecvFile =>
        exact ensures_bind (logCall_pending _) fun _ =>
          onClient_pending (callbackDccRecvFile_carries _ _ _ _)
      | callbackDccResumeFile =>
        exact ensures_bind (logCall_pending _) fun _ =>
          onClient_pending (callbackDccResumeFile_carries _ _ _ _)

theorem callReverseCb_carries (env : Env) (dccid size : ℕ) (nick : Option Bytes) (token : ℕ) :
    Carrying spared ds n (DccEvents.callReverseCb env dccid size nick token) := by
  refine survives_get_bind fun c => ?_
  cases c.dccSessions.find? (fun d => decide (d.id = dccid)) with
  | none => exact pure_carries ()
  | some dcc =>
    refine ensures_bind (record_carries _) fun _ => ?_
    cases dcc.reverseCb with
    | none => exact throw_carries _
    | some cb => exact callbackDccResumeFileReverse_carries _ _ _ _ _ _ _

theorem requests_modify_pending (env : Env) (nick : Option Bytes) (dccid : ℕ)
    {f : DccSession → DccSession} (hf : ∀ d, Carries spared d (f d)) :
    Pends spared announced ds n ((requests env nick).modify dccid f) :=
  onClient_pending (modifySession_carries _ hf)

theorem acceptResumeReverse_pending (env : Env) (nick : Option Bytes) (size token : ℕ) :
    Pends spared announced ds n ((requests env nick).acceptResumeReverse size token) := by
  refine ensures_bind (onClient_pending (libircFind_carries _ _)) fun found => ?_
  cases found with
  | none => exact pure_pending
  | some dcc =>
    have hmodify := fun d : DccSession => @carries_setState spared d
      { d with state := .initPassive, fileConfirmOffset := size } rfl rfl rfl (by simp)
    refine survives_ite pure_pending ?_
    refine ensures_bind (requests_modify_pending env nick _ hmodify) fun _ => ?_
    exact ensures_bind (onClient_pending unlock_carries) fun _ =>
      onClient_pending (callReverseCb_carries _ _ _ _ _)

theorem acceptResume_pending (env : Env) (nick : Option Bytes) (port size : ℕ) :
    Pends spared announced ds n ((requests env nick).acceptResume port size) := by
  refine ensures_bind (onClient_pending (libircFind_carries _ _)) fun found => ?_
  cases found with
  | none => exact pure_pending
  | some dcc =>
    have hmodify := fun d : DccSession => @carries_setState spared d
      { d with state := .init, fileConfirmOffset := size } rfl rfl rfl (by simp)
    refine survives_ite pure_pending ?_
    refine ensures_bind (requests_modify_pending env nick _ hmodify) fun _ => ?_
    exact ensures_bind (onClient_pending unlock_carries) fun _ => callCb_pending _ _ _ _ _

theorem libircDccRequest_ends (h : Sized announced ds n) (env : Env) (nick : Option Bytes)
    (req : Bytes) :
    Survives (Pending spared announced ds n) (Unended spared ds) (libircDccRequest env nick req) := by
  have hend {x : LoggedM Unit} (hx : Pends spared announced ds n x) :
      Survives (Pending spared announced ds n) (Unended spared ds) x :=
    hx.weaken (fun _ hs => hs) (fun _ _ hs => unended_of_pending h hs) fun _ h => h
  refine survives_get_bind fun s => ?_
  cases isValidRequestFromNick s.client.cfg nick with
  | none => exact ensures_throw fun _ _ => trivial
  | some verified =>
    dsimp only
    cases dccRequestCall verified req with
    | acceptReverseDccSend filename ip size token ssl =>
      exact acceptReverseDccSend_ends h _ _ _ _ _ _ _
    | acceptDccSend filename ip size port ssl => exact acceptDccSend_ends h _ _ _ _ _ _ _
    | acceptResumeReverse size token => exact hend (acceptResumeReverse_pending env nick size token)
    | acceptResume port size => exact hend (acceptResume_pending env nick port size)
    | unhandled => exact hend pure_pending
    | ignored => exact hend pure_pending

theorem libircDccDestroyNolock_carries (hspared : ¬ spared) (dccid : ℕ) :
    Carrying spared ds n (libircDccDestroyNolock dccid) := by
  refine ensures_bind (libircFind_carries _ _) fun found => ?_
  cases found with
  | none => exact pure_carries ()
  | some d => exact modifySession_carries dccid fun _ => ⟨rfl, rfl, rfl, fun h => absurd h hspared⟩

theorem turn_modify_pending (dccid : ℕ) {f : DccSession → DccSession}
    (hf : ∀ d, Carries spared d (f d)) : Pends spared announced ds n ((turn dccid).modify f) :=
  onClient_pending (modifySession_carries _ hf)

theorem receiveChunk_pending (dccid : ℕ) (chunk : Chunk) :
    Pends spared announced ds n ((turn dccid).receiveChunk chunk.data.length
      (callCb noEnv dccid libircErrOk (some chunk.data) chunk.data.length)) := by
  refine ensures_bind (onClient_pending unlock_carries) fun _ => ?_
  refine ensures_bind (onClient_pending (record_carries _)) fun _ => ?_
  refine ensures_bind (turn_modify_pending _ fun _ => ⟨rfl, rfl, rfl, fun _ => id⟩) fun _ => ?_
  refine ensures_bind (callCb_pending _ _ _ _ _) fun _ => survives_get_bind fun s => ?_
  refine ensures_bind (turn_modify_pending _ fun d => ?_) fun _ => onClient_pending lock_carries
  exact carries_setState rfl rfl rfl (by dsimp only; split <;> decide)

theorem receiveFailed_pending (hspared : ¬ spared) (dccid err : ℕ) :
    Pends spared announced ds n ((turn dccid).receiveFailed (callCb noEnv dccid err none 0)) := by
  refine ensures_bind (onClient_pending unlock_carries) fun _ => ?_
  refine ensures_bind (callCb_pending _ _ _ _ _) fun _ => ?_
  exact ensures_bind (onClient_pending lock_carries) fun _ =>
    onClient_pending (libircDccDestroyNolock_carries hspared dccid)

theorem recvDccFile_pending (dccid : ℕ) (ssl : Bool) {results : List RecvResult}
    (hfine : spared → FailedTransfers.readFails ssl results = false) :
    Pends spared announced ds n
      ((turn dccid).recvDccFile ssl (results.map (·.turn (callCb noEnv dccid)))) := by
  induction results with
  | nil => exact pure_pending
  | cons result more ih =>
    cases result with
    | again =>
      refine ensures_ite (fun _ => pure_pending) fun hssl => ih fun hspared => ?_
      simpa [FailedTransfers.readFails, hssl] using hfine hspared
    | wantWrite =>
      refine ensures_ite (fun _ => turn_modify_pending _ fun _ => ?_)
        fun hssl => ih fun hspared => ?_
      · exact carries_setState rfl rfl rfl (by simp)
      · simpa [FailedTransfers.readFails, hssl] using hfine hspared
    | error => exact receiveFailed_pending (fun hspared => absurd (hfine hspared) (by simp [FailedTransfers.readFails])) _ _
    | closed => exact receiveFailed_pending (fun hspared => absurd (hfine hspared) (by simp [FailedTransfers.readFails])) _ _
    | data chunk =>
      refine ensures_bind (receiveChunk_pending dccid chunk) fun _ => ?_
      refine ensures_ite (fun hssl => ih fun hspared => ?_) fun _ => pure_pending
      simpa [FailedTransfers.readFails, hssl] using hfine hspared

theorem report_pending (dccid err : ℕ) :
    Pends spared announced ds n ((turn dccid).report (callCb noEnv dccid err none 0)) := by
  refine ensures_bind (onClient_pending unlock_carries) fun _ => ?_
  exact ensures_bind (callCb_pending _ _ _ _ _) fun _ => onClient_pending lock_carries

theorem sendCurrentFileOffsetToSender_pending (dcc : DccSession) {result : SendResult}
    (hfine : spared → ∀ len, result ≠ .sent (len + 1)) :
    Pends spared announced ds n
      ((turn dcc.id).sendCurrentFileOffsetToSender dcc (result.turn (callCb noEnv dcc.id))) := by
  cases result with
  | again => exact pure_pending
  | wantRead =>
    refine survives_ite (turn_modify_pending _ fun _ => ?_) pure_pending
    exact carries_setState rfl rfl rfl (by simp)
  | error => exact report_pending _ _
  | sent len =>
    cases len with
    | zero => exact report_pending _ _
    | succ len =>
      have hspared : ¬ spared := fun hspared => hfine hspared len rfl
      refine ensures_bind (onClient_pending (record_carries _)) fun _ => survives_ite ?_ ?_
      · exact receiveFailed_pending hspared _ _
      · exact turn_modify_pending _ fun _ => carries_setState rfl rfl rfl (by simp)

def Fine (d : DccSession) (ready : SocketReady) : Prop :=
  ¬ FailedTransfers.Fails d ready ∧ ¬ (d.state = .connecting ∧ ready = .connecting false) ∧
    ∀ len, ¬ (d.state = .confirmSize ∧ ready = .confirming (.sent (len + 1)))

theorem processDescriptor_pending {dccid : ℕ} {ready : SocketReady} {s : LoggedClient}
    (hfine : spared → ∀ d, s.client.dccSessions.find? (fun d => d.id = dccid) = some d → Fine d ready) :
    Survives (fun t => t = s ∧ Pending spared announced ds n t) (Pending spared announced ds n)
      (processDescriptor dccid ready) := by
  rintro t ⟨rfl, ht⟩
  have hfind : (onClient (libircFindDccSession dccid false)).run t =
      .ok (t.client.dccSessions.find? fun d => decide (d.id = dccid)) t :=
    onClient_run_of_ok (libircFind_run_nolock _ _)
  rw [processDescriptor, run_bind_of_ok hfind]
  cases hd : t.client.dccSessions.find? (fun d => decide (d.id = dccid)) with
  | none => exact ht
  | some d =>
    have hd' : spared → Fine d ready := fun hspared => hfine hspared d hd
    refine (?_ : Pends spared announced ds n _) t ht
    dsimp only
    unfold Turn.processDescriptor
    cases hstate : d.state with
    | connecting =>
      cases ready with
      | connecting getpeername =>
        refine ensures_ite (fun _ => turn_modify_pending _ fun _ => carries_setState rfl rfl rfl (by simp))
          fun hfalse => onClient_pending (libircDccDestroyNolock_carries (fun hspared => ?_) _)
        exact (hd' hspared).2.1 ⟨hstate, by rw [Bool.eq_false_of_not_eq_true hfalse]⟩
      | _ => exact pure_pending
    | connected =>
      cases ready with
      | receiving results =>
        refine recvDccFile_pending _ _ fun hspared => ?_
        exact Bool.eq_false_of_not_eq_true fun hfails => (hd' hspared).1 ⟨hstate, hfails⟩
      | _ => exact pure_pending
    | confirmSize =>
      cases ready with
      | confirming result =>
        refine sendCurrentFileOffsetToSender_pending _ fun hspared len hlen => ?_
        exact (hd' hspared).2.2 len ⟨hstate, by rw [hlen]⟩
      | _ => exact pure_pending
    | initPassive =>
      cases ready with
      | accepting sock => exact turn_modify_pending _ fun _ => carries_setState rfl rfl rfl (by simp)
      | _ => exact pure_pending
    | _ => exact pure_pending

end turns

/-- The turn of the socket fails, at `recv`, at `send` or at connecting. -/
def IoFails (s : LoggedClient) : Event → Prop
  | .socket dccid ready => ∃ d, s.client.dccSessions.find? (fun d => d.id = dccid) = some d ∧
      (FailedTransfers.Fails d ready ∨ d.state = .connecting ∧ ready = .connecting false)
  | _ => False

def acknowledged (s : LoggedClient) : Event → Option DccSession
  | .socket dccid (.confirming (.sent (_ + 1))) =>
    if s.client.halted = none then
      (s.client.dccSessions.find? fun d => d.id = dccid).filter fun d => d.state = .confirmSize
    else none
  | _ => none

def finalCalls (s : LoggedClient) (e : Event) : List ℕ :=
  ((toldBy s e).filter fun call => call.status = 0 ∧ call.data = none).map (·.id)

/-- These sessions are complete with the step: told and removed, and no others. -/
structure Ends (s : LoggedClient) (e : Event) (ids : List ℕ) : Prop where
  told : finalCalls s e = ids
  removed : ∀ id ∈ ids, RemovedIn (step s e).client.dccSessions id
  others : ∀ id, RemovedIn (step s e).client.dccSessions id →
    id ∈ ids ∨ RemovedIn s.client.dccSessions id

def SizesKnown (s : LoggedClient) : Prop :=
  Sized s.announced s.client.dccSessions s.client.dccLastId

section steps
variable {s : LoggedClient}

theorem acknowledged_eq_some {e : Event} {d : DccSession} (h : acknowledged s e = some d) :
    ∃ len, e = .socket d.id (.confirming (.sent (len + 1))) ∧ s.client.halted = none ∧
      s.client.dccSessions.find? (fun d' => d'.id = d.id) = some d ∧ d.state = .confirmSize := by
  unfold acknowledged at h
  split at h
  · next dccid len =>
    split at h
    · next hs =>
      obtain ⟨hfind, hstate⟩ := Option.filter_eq_some_iff.mp h
      obtain rfl : d.id = dccid := by simpa using List.find?_some hfind
      exact ⟨len, rfl, hs, hfind, of_decide_eq_true hstate⟩
    · cases h
  · cases h

theorem step_of_halted {fault : Halt} (hs : s.client.halted = some fault) (e : Event) :
    step s e = s := by
  unfold step
  rw [hs]

theorem running_of_step {e : Event} (hend : (step s e).client.halted = none) :
    s.client.halted = none := by
  cases hs : s.client.halted with
  | none => rfl
  | some fault =>
    rw [step_of_halted hs, hs] at hend
    cases hend

theorem step_of_ensures {e : Event} {Q : LoggedClient → Prop} (hs : s.client.halted = none)
    (hend : (step s e).client.halted = none) (h : Survives (fun t => t = s) Q (handle e)) :
    Q (step s e) := by
  have h' := h s rfl
  unfold step at hend ⊢
  rw [hs] at hend ⊢
  cases hrun : (handle e).run s with
  | ok a s' =>
    rw [hrun] at h'
    exact h'
  | error fault s' =>
    rw [hrun] at hend
    cases hend

theorem sized_filter {announced : List (ℕ × ℕ)} {ds : List DccSession} {n : ℕ}
    (h : Sized announced ds n) (p : DccSession → Bool) : Sized announced (ds.filter p) n where
  known := fun d hd => h.known d (List.mem_of_mem_filter hd)
  announced_lt := h.announced_lt
  id_lt := fun d hd => h.id_lt d (List.mem_of_mem_filter hd)

theorem step_unended {spared : Prop} {e : Event} (hs : s.client.halted = none)
    (hend : (step s e).client.halted = none) (hsized : SizesKnown s)
    (hfine : spared → ¬ IoFails s e ∧ acknowledged s e = none) :
    Unended spared s.client.dccSessions (step s e) := by
  have hself : Pending spared s.announced s.client.dccSessions s.client.dccLastId s :=
    ⟨rfl, carried_self s.client⟩
  refine step_of_ensures hs hend ?_
  cases e with
  | request env nick req =>
    exact (libircDccRequest_ends hsized env nick req).weaken (fun t ht => ht ▸ hself)
      (fun _ _ h => h) fun _ h => h
  | socket dccid ready =>
    let locked : LoggedClient := { s with client := withNet s.client (lockedNet s.client.net) }
    have hlock : Survives (fun t => t = s)
        (fun t => t = locked ∧ Pending spared s.announced s.client.dccSessions s.client.dccLastId t)
        (onClient libircMutexLock) := by
      rintro t rfl
      exact ⟨rfl, hself⟩
    have hturn : Survives (fun t => t = s)
        (Pending spared s.announced s.client.dccSessions s.client.dccLastId)
        (handle (.socket dccid ready)) := by
      refine ensures_bind hlock fun _ => ensures_bind (processDescriptor_pending ?_) fun _ =>
        onClient_pending unlock_carries
      intro hspared d hd
      obtain ⟨hio, hack⟩ := hfine hspared
      refine ⟨fun h => hio ⟨d, hd, .inl h⟩, fun h => hio ⟨d, hd, .inr h⟩, fun len h => ?_⟩
      obtain ⟨hstate, rfl⟩ := h
      change s.client.dccSessions.find? _ = some d at hd
      simp [acknowledged, hs, hd, hstate] at hack
    exact hturn.weaken (fun _ h => h) (fun _ _ h => unended_of_pending hsized h) fun _ h => h
  | addDescriptors =>
    rintro t rfl
    refine ⟨sized_filter hsized _, fun _ id hremoved => ?_⟩
    obtain ⟨d, hd, hstate⟩ := hremoved
    have hmem := List.mem_of_find?_eq_some hd
    exact absurd hstate (by simpa using (List.mem_filter.mp hmem).2)
  | outputTimer =>
    rintro t rfl
    exact unended_of_pending hsized hself

def Final (call : DataCall) : Prop := call.status = 0 ∧ call.data = none

theorem admits_notFinal : Admits fun call => ¬ Final call where
  failed := fun id status ctx length hstatus h => hstatus h.1
  chunk := fun id ctx data length h => by cases h.2

theorem finalCalls_of_append {e : Event} {l : List DataCall}
    (h : (step s e).dataCalls = s.dataCalls ++ l) (hl : ∀ call ∈ l, ¬ Final call) :
    finalCalls s e = [] := by
  rw [finalCalls, toldBy_of_append h, List.map_eq_nil_iff, List.filter_eq_nil_iff]
  intro call hcall hfinal
  exact hl call hcall (by simpa [Final] using hfinal)

theorem processDescriptor_idle {dccid len : ℕ} {t : LoggedClient}
    (h : (t.client.dccSessions.find? fun d => d.id = dccid).filter (fun d => d.state = .confirmSize) =
      none) :
    (processDescriptor dccid (.confirming (.sent (len + 1)))).run t = .ok ⟨⟩ t := by
  have hfind : (onClient (libircFindDccSession dccid false)).run t =
      .ok (t.client.dccSessions.find? fun d => decide (d.id = dccid)) t :=
    onClient_run_of_ok (libircFind_run_nolock _ _)
  rw [processDescriptor, run_bind_of_ok hfind]
  cases hd : t.client.dccSessions.find? (fun d => decide (d.id = dccid)) with
  | none => rfl
  | some d =>
    have hstate : d.state ≠ .confirmSize := by simpa [hd, Option.filter] using h
    cases hstate' : d.state with
    | confirmSize => exact absurd hstate' hstate
    | _ => simp only [Turn.processDescriptor, hstate']; rfl

theorem finalCalls_of_unacknowledged {e : Event} (hack : acknowledged s e = none) :
    finalCalls s e = [] := by
  by_cases hsent : ∃ dccid len, e = .socket dccid (.confirming (.sent (len + 1)))
  · obtain ⟨dccid, len, rfl⟩ := hsent
    cases hs : s.client.halted with
    | some fault =>
      exact finalCalls_of_append (l := []) (by rw [step_of_halted hs, List.append_nil]) (by simp)
    | none =>
      have hidle : (s.client.dccSessions.find? fun d => d.id = dccid).filter
          (fun d => d.state = .confirmSize) = none := by
        simpa [acknowledged, hs] using hack
      let locked : LoggedClient := { s with client := withNet s.client (lockedNet s.client.net) }
      have hturn : (handle (.socket dccid (.confirming (.sent (len + 1))))).run s =
          (onClient libircMutexUnlock).run locked := by
        have hlock : (onClient libircMutexLock).run s = .ok ⟨⟩ locked := rfl
        have hnothing := @processDescriptor_idle dccid len locked hidle
        rw [handle, run_bind_of_ok hlock, run_bind_of_ok hnothing]
      have hstep : (step s (.socket dccid (.confirming (.sent (len + 1))))).dataCalls =
          s.dataCalls := by
        unfold step
        rw [hs, hturn]
        rfl
      exact finalCalls_of_append (l := []) (by rw [hstep, List.append_nil]) (by simp)
  · obtain ⟨l, hl, hnot⟩ := step_adds admits_notFinal s (e := e)
      fun dccid len he => absurd ⟨dccid, len, he⟩ hsent
    exact finalCalls_of_append hl hnot

def Told (calls : List DataCall) (ds : List DccSession) (s : LoggedClient) : Prop :=
  s.dataCalls = calls ∧ s.client.dccSessions = ds

theorem onClient_told {calls : List DataCall} {ds : List DccSession} {x : ClientM Unit}
    (hx : FailedTransfers.Leaves x) : Keeps (Told calls ds) (onClient x) :=
  hx.keeps (P := fun calls' ds' => calls' = calls ∧ ds' = ds)

theorem callCb_told {calls : List DataCall} {ds : List DccSession} {d : DccSession}
    (hfind : ds.find? (fun d' => d'.id = d.id) = some d) (hcb : d.cb = some .callbackDccRecvFile) :
    Ensures (Told calls ds) (callCb noEnv d.id libircErrOk none 0)
      (fun _ => Told (calls ++ [⟨d.id, 0, d.ctx, none, 0⟩]) ds) fun _ => False := by
  rintro t ⟨hcalls, hds⟩
  have hget : (get : LoggedM LoggedClient).run t = .ok t t := rfl
  rw [callCb, run_bind_of_ok hget]
  simp only [hds, hfind, hcb]
  exact ⟨by rw [← hcalls]; rfl, hds⟩

theorem updateSession_told {calls : List DataCall} {ds : List DccSession} {x : ClientM Unit}
    {id : ℕ} {f : DccSession → DccSession}
    (hx : ∀ c, x.run c = .ok ⟨⟩ { c with dccSessions := updateSession id f c.dccSessions }) :
    Ensures (Told calls ds) (onClient x) (fun _ => Told calls (updateSession id f ds))
      fun _ => False := by
  rintro t ⟨hcalls, hds⟩
  rw [onClient_run_of_ok (hx t.client)]
  exact ⟨hcalls, by rw [← hds]⟩

def completedBy (d : DccSession) : List ℕ :=
  if d.receivedFileSize = d.fileConfirmOffset then [d.id] else []

def answered (d : DccSession) (d' : DccSession) : DccSession :=
  if d.receivedFileSize = d.fileConfirmOffset then SessionSpecs.removed d'
  else { d' with state := .connected }

theorem sendCurrentFileOffsetToSender_told {calls : List DataCall} {ds : List DccSession}
    {d : DccSession} (hfind : ds.find? (fun d' => d'.id = d.id) = some d)
    (hcb : d.cb = some .callbackDccRecvFile) (len : ℕ) :
    Ensures (Told calls ds)
      ((turn d.id).sendCurrentFileOffsetToSender d
        (SendResult.turn (callCb noEnv d.id) (.sent (len + 1))))
      (fun _ => Told (calls ++ (completedBy d).map fun id => ⟨id, 0, d.ctx, none, 0⟩)
        (updateSession d.id (answered d) ds)) fun _ => False := by
  refine ensures_bind (onClient_told (FailedTransfers.record_leaves _)) fun _ => ?_
  refine ensures_ite (fun hsize => ?_) fun hsize => ?_
  · have hall : answered d = SessionSpecs.removed := funext fun d' => if_pos hsize
    rw [hall, completedBy, if_pos hsize]
    refine ensures_bind (onClient_told FailedTransfers.unlock_leaves) fun _ => ?_
    refine ensures_bind (callCb_told hfind hcb) fun _ => ?_
    refine ensures_bind (onClient_told FailedTransfers.lock_leaves) fun _ => ?_
    exact updateSession_told (libircDccDestroyNolock_run d.id)
  · have hall : answered d = fun d' => { d' with state := .connected } := funext fun d' => if_neg hsize
    rw [hall, completedBy, if_neg hsize, List.map_nil, List.append_nil]
    exact updateSession_told fun _ => rfl

theorem acknowledged_ends {e : Event} {d : DccSession} (hsound : SessionCallbacks.Sound s.client)
    (hack : acknowledged s e = some d) : Ends s e (completedBy d) := by
  obtain ⟨len, rfl, hs, hfind, hstate⟩ := acknowledged_eq_some hack
  have hcb : d.cb = some .callbackDccRecvFile :=
    ((hsound.ready d (List.mem_of_find?_eq_some hfind)).awaits (.data .callbackDccRecvFile)
      (by simp [SessionCallbacks.awaited, hstate])).1
  let locked : LoggedClient := { s with client := withNet s.client (lockedNet s.client.net) }
  have hlock : (onClient libircMutexLock).run s = .ok ⟨⟩ locked := rfl
  have hturn := FailedTransfers.processDescriptor_run_of_confirming (s := locked) hfind hstate
    (.sent (len + 1))
  have htold : Ensures (fun t => t = s) (handle (.socket d.id (.confirming (.sent (len + 1)))))
      (fun _ => Told (s.dataCalls ++ (completedBy d).map fun id => ⟨id, 0, d.ctx, none, 0⟩)
        (updateSession d.id (answered d) s.client.dccSessions)) fun _ => False := by
    rintro t rfl
    rw [handle, run_bind_of_ok hlock]
    refine ensures_bind (P := fun t' => t' = locked) ?_
      (fun _ => onClient_told FailedTransfers.unlock_leaves) locked rfl
    rintro t' rfl
    rw [hturn]
    exact sendCurrentFileOffsetToSender_told hfind hcb len locked ⟨rfl, rfl⟩
  have hstep := htold s rfl
  have hafter : Told (s.dataCalls ++ (completedBy d).map fun id => ⟨id, 0, d.ctx, none, 0⟩)
      (updateSession d.id (answered d) s.client.dccSessions)
      (step s (.socket d.id (.confirming (.sent (len + 1))))) := by
    unfold step
    rw [hs]
    cases hrun : (handle (.socket d.id (.confirming (.sent (len + 1))))).run s with
    | ok a s' =>
      rw [hrun] at hstep
      exact hstep
    | error fault s' =>
      rw [hrun] at hstep
      exact hstep.elim
  have hid (d' : DccSession) : (answered d d').id = d'.id := by
    unfold answered
    split <;> rfl
  constructor
  · rw [finalCalls, toldBy_of_append hafter.1]
    unfold completedBy
    split <;> rfl
  · intro id hmem
    unfold completedBy at hmem
    split at hmem
    · next hsize =>
      obtain rfl := List.mem_singleton.mp hmem
      refine ⟨answered d d, ?_, ?_⟩
      · rw [hafter.2, find?_updateSession hid, hfind]
        rfl
      · rw [answered, if_pos hsize]
        rfl
    · cases hmem
  · rintro id ⟨d', hd', hremoved⟩
    rw [hafter.2] at hd'
    by_cases heq : id = d.id
    · subst heq
      rw [find?_updateSession hid, hfind] at hd'
      obtain rfl : answered d d = d' := by simpa using hd'
      left
      unfold answered at hremoved
      split at hremoved
      · next hsize =>
        rw [completedBy, if_pos hsize]
        exact List.mem_singleton_self _
      · cases hremoved
    · right
      rw [find?_updateSession_ne hid heq] at hd'
      exact ⟨d', hd', hremoved⟩

def Running (s : LoggedClient) : Prop :=
  s.client.halted = none → SizesKnown s ∧ SessionCallbacks.Sound s.client

theorem running_initial (cfg : XdccGetConfig) (net : Net) (files : Bytes → Option Bytes) :
    Running (initial cfg net files) := by
  intro hs
  have hnone : ∀ d, d ∉ (initial cfg net files).client.dccSessions := fun d hd => by cases hd
  have hquiet : ∀ a, a ∉ (initial cfg net files).announced := fun a ha => by cases ha
  refine ⟨⟨fun d hd => absurd hd (hnone d), fun a ha => absurd ha (hquiet a),
    fun d hd => absurd hd (hnone d)⟩, ?_⟩
  exact (CallbackSteps.soundRun_initial cfg net files).2 hs

theorem running_step (s : LoggedClient) (e : Event) (h : Running s) : Running (step s e) := by
  intro hend
  have hs := running_of_step hend
  obtain ⟨hsized, hsound⟩ := h hs
  have hunended : Unended False s.client.dccSessions (step s e) :=
    step_unended hs hend hsized fun h => h.elim
  refine ⟨hunended.1, ?_⟩
  rw [step_client] at hend ⊢
  exact CallbackSteps.sound_step e (fun _ => hsound) hend

/-- A transfer of announced size is complete with the acknowledgement of that size, and with
    nothing else that does not fail. -/
def CompletesRight (s : LoggedClient) (e : Event) : Prop :=
  match acknowledged s e with
  | some d => ∀ size, announcedSize s.announced d.id = some size → 0 < size →
      Ends s e (if d.fileConfirmOffset = size then [d.id] else [])
  | none => ¬ IoFails s e → (step s e).client.halted = none → Ends s e []

/-- What is acknowledged on a passive session is neither its whole size nor nothing. -/
def ActiveOrPartial (s : LoggedClient) (e : Event) : Prop :=
  ∀ d, acknowledged s e = some d → d.passiveConnection = true →
    ∀ size, announcedSize s.announced d.id = some size → 0 < size →
      d.fileConfirmOffset ≠ size ∧ d.fileConfirmOffset ≠ 0

theorem completesRight_iff (s : LoggedClient) (e : Event) (h : Running s) :
    CompletesRight s e ↔ ActiveOrPartial s e := by
  cases hack : acknowledged s e with
  | none =>
    simp only [CompletesRight, ActiveOrPartial, hack]
    refine ⟨fun _ d hd => absurd hd (by simp), fun _ hio hend => ?_⟩
    have hs := running_of_step hend
    have hspared : Unended True s.client.dccSessions (step s e) :=
      step_unended hs hend (h hs).1 fun _ => ⟨hio, hack⟩
    have hunended := hspared.2 trivial
    exact ⟨finalCalls_of_unacknowledged hack, by simp, fun id hid => .inr (hunended id hid)⟩
  | some d =>
    obtain ⟨len, -, hs, hfind, -⟩ := acknowledged_eq_some hack
    obtain ⟨hsized, hsound⟩ := h hs
    have hends := acknowledged_ends hsound hack
    obtain ⟨size, hsize, hknown⟩ := hsized.known d (List.mem_of_find?_eq_some hfind)
    have hright : Ends s e (if d.fileConfirmOffset = size then [d.id] else []) ↔
        (d.fileConfirmOffset = size ↔ d.receivedFileSize = d.fileConfirmOffset) := by
      have heq : Ends s e (if d.fileConfirmOffset = size then [d.id] else []) ↔
          (if d.fileConfirmOffset = size then [d.id] else []) = completedBy d :=
        ⟨fun h => h.told.symm.trans hends.told, fun h => h ▸ hends⟩
      rw [heq, completedBy]
      split <;> split <;> simp_all
    simp only [CompletesRight, ActiveOrPartial, hack, Option.some.injEq, forall_eq', hsize]
    rw [hright]
    cases hpassive : d.passiveConnection with
    | false =>
      have hsame : d.receivedFileSize = size := by simpa [hpassive] using hknown
      rw [hsame]
      exact ⟨fun _ hfalse => absurd hfalse (by simp), fun _ _ => eq_comm⟩
    | true =>
      have hzero : d.receivedFileSize = 0 := by simpa [hpassive] using hknown
      rw [hzero]
      constructor
      · intro hiff _ hpos
        constructor
        · intro hfull
          have := hiff hpos |>.mp hfull
          omega
        · intro hnothing
          have := hiff hpos |>.mpr hnothing.symm
          omega
      · intro hpartial hpos
        have hne := hpartial rfl hpos
        exact ⟨fun hfull => absurd hfull hne.1, fun hnothing => absurd hnothing.symm hne.2⟩

end steps

/-- In every run transfers complete as they should, exactly when no passive session acknowledges
    its whole size, or nothing. -/
theorem completes_right_iff (cfg : XdccGetConfig) (net : Net) (files : Bytes → Option Bytes)
    (events : List Event) :
    AllAlong step CompletesRight (initial cfg net files) events ↔
      AllAlong step ActiveOrPartial (initial cfg net files) events :=
  allAlong_congr running_step completesRight_iff (running_initial cfg net files)

def passiveTransfer : List Event :=
  [botRequest "DCC SEND f 16909060 0 2 77", .socket 1 (.accepting (some 5)),
    .socket 1 (.receiving [.data QuitTiming.twoBytes])]

/-- The acknowledgement of the whole file leaves a passive session as it is. -/
theorem passive_transfer_never_completes :
    ¬ AllAlong step CompletesRight (initial (oneBot false) connected noFiles)
      (passiveTransfer ++ [.socket 1 (.confirming (.sent 4))]) := by
  rw [allAlong_append]
  rintro ⟨-, hlast, -⟩
  let s := run step (initial (oneBot false) connected noFiles) passiveTransfer
  have hack : ∃ d, acknowledged s (.socket 1 (.confirming (.sent 4))) = some d ∧
      announcedSize s.announced d.id = some 2 ∧ d.fileConfirmOffset = 2 := by
    decide +kernel
  obtain ⟨d, hd, hsize, hoffset⟩ := hack
  simp only [CompletesRight, s] at hlast hd
  rw [hd] at hlast
  have hends := hlast 2 hsize (by decide)
  rw [if_pos hoffset] at hends
  have hnone : finalCalls s (.socket 1 (.confirming (.sent 4))) = [] := by
    decide +kernel
  exact absurd (hends.told.symm.trans hnone) (by simp)

end Xdccget.CompletedTransfers
