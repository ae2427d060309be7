import Xdccget.StepRuns
import Xdccget.EventSpecs
import Xdccget.TableChanges

set_option autoImplicit false

/-!
# The turns of one download

An accepted download receives its chunks through the turns of its session. As long
as the chunks fit into the announced size, what has arrived is what was counted,
written and, in append mode, added to the file.
-/
namespace Xdccget.DownloadTurns
open CText DccMessages ClientState DccSessions Downloads DccEvents HaltingPrograms SessionSpecs
  DownloadSpecs EventSpecs TableChanges StepRuns

section counters

def writtenBy (context : ℕ) : Action → ℕ
  | .write c data => if c = context then data.length else 0
  | _ => 0

def receivedBy (id : ℕ) : Action → ℕ
  | .received i len => if i = id then len else 0
  | _ => 0

def written (context : ℕ) (trace : List Action) : ℕ := (trace.map (writtenBy context)).sum

def receivedBytes (id : ℕ) (trace : List Action) : ℕ := (trace.map (receivedBy id)).sum

def finishes (context : ℕ) (trace : List Action) : ℕ := trace.count (.finish context)

theorem written_append (context : ℕ) (a b : List Action) :
    written context (a ++ b) = written context a + written context b := by
  simp [written]

theorem receivedBytes_append (id : ℕ) (a b : List Action) :
    receivedBytes id (a ++ b) = receivedBytes id a + receivedBytes id b := by
  simp [receivedBytes]

theorem finishes_append (context : ℕ) (a b : List Action) :
    finishes context (a ++ b) = finishes context a + finishes context b := by
  simp [finishes]

def Silent (id context : ℕ) : Action → Prop
  | .write c _ => c ≠ context
  | .writeClosed c => c ≠ context
  | .finish c => c ≠ context
  | .received i _ => i ≠ id
  | _ => True

variable {id context : ℕ} {l : List Action}

theorem written_of_silent (h : ∀ a ∈ l, Silent id context a) : written context l = 0 := by
  rw [written, List.sum_eq_zero]
  intro n hn
  obtain ⟨a, ha, rfl⟩ := List.mem_map.mp hn
  have hs := h a ha
  cases a with
  | write c data => exact if_neg hs
  | _ => rfl

theorem receivedBytes_of_silent (h : ∀ a ∈ l, Silent id context a) : receivedBytes id l = 0 := by
  rw [receivedBytes, List.sum_eq_zero]
  intro n hn
  obtain ⟨a, ha, rfl⟩ := List.mem_map.mp hn
  have hs := h a ha
  cases a with
  | received i len => exact if_neg hs
  | _ => rfl

theorem finishes_of_silent (h : ∀ a ∈ l, Silent id context a) : finishes context l = 0 := by
  rw [finishes, List.count_eq_zero]
  intro hmem
  exact h _ hmem rfl

theorem not_writeClosed_of_silent (h : ∀ a ∈ l, Silent id context a) :
    Action.writeClosed context ∉ l := fun hmem => h _ hmem rfl

end counters

/-- The chunks that `recv_dcc_file` takes from the results of one turn. -/
def arrivingChunks (ssl : Bool) : List RecvResult → List Chunk
  | [] => []
  | .again :: more => if ssl then [] else arrivingChunks ssl more
  | .wantWrite :: more => if ssl then [] else arrivingChunks ssl more
  | .error :: _ => []
  | .closed :: _ => []
  | .data chunk :: more => chunk :: if ssl then arrivingChunks ssl more else []

def chunksData (chunks : List Chunk) : Bytes := chunks.flatMap (·.data)

def arriving (id : ℕ) (s : Client) : Event → Bytes
  | .socket dccid (.receiving results) =>
    match s.halted, s.dccSessions.find? (fun d => d.id = id) with
    | none, some d =>
      if dccid = id ∧ d.state = .connected then chunksData (arrivingChunks d.ssl results) else []
    | _, _ => []
  | _ => []

def Delivers (s : Client) (id context : ℕ) : Prop :=
  ∀ d ∈ s.dccSessions, d.id = id → d.cb = some .callbackDccRecvFile ∧ d.ctx = some context

def fileContent (s : Client) (path : Bytes) : Bytes := (s.files path).getD []

/-- What is known of a download when it starts: its counter, its size, the file that is open for
    it, with the content it has, and what has happened so far. -/
structure Transfer where
  id : ℕ
  context : ℕ
  size : ℕ
  start : ℕ
  path : Bytes
  append : Bool
  base : Bytes
  past : List Action
  size_lt : size < 2 ^ 64

def Transfer.Ended (t : Transfer) (received : Bytes) : Prop :=
  received ≠ [] ∧ t.start + received.length = t.size

structure Counts (t : Transfer) (received : Bytes) (l : List Action) : Prop where
  written_eq : written t.context l = received.length
  received_eq : receivedBytes t.id l = received.length
  finish_le : finishes t.context l ≤ 1
  finish_iff : finishes t.context l = 1 ↔ t.Ended received
  not_closed : Action.writeClosed t.context ∉ l

structure Receiving (t : Transfer) (received : Bytes) (s : Client) : Prop where
  running : s.halted = none
  session : Delivers s t.id t.context
  table : ∃ c, s.downloadContext[t.context]? = some c ∧ c.progress.completeFileSize = t.size ∧
    c.progress.sizeRcvd = t.start + received.length ∧ (c.fd = none ↔ t.Ended received) ∧
    ∀ fd, c.fd = some fd → fd.fileName = t.path ∧ fd.append = t.append
  content : t.append = true → fileContent s t.path = t.base ++ received
  le_size : received ≠ [] → t.start + received.length ≤ t.size
  counted : ∃ l, s.trace = t.past ++ l ∧ Counts t received l

def Overrun (context size : ℕ) (s : Client) : Prop :=
  Action.writeClosed context ∈ s.trace ∨ size < written context s.trace

section frame
variable {t : Transfer} {received : Bytes} {s : Client}

theorem Overrun.changes {context size : ℕ} {s' : Client} (h : Overrun context size s)
    (hs : Changes true s s') : Overrun context size s' := by
  obtain ⟨l, hl⟩ := changes_trace hs
  unfold Overrun at h ⊢
  rw [hl, written_append]
  rcases h with hclosed | hwritten
  · exact .inl (List.mem_append_left _ hclosed)
  · exact .inr (by omega)

theorem delivers_of_updateSession {id context : ℕ} {f : DccSession → DccSession}
    (h : Delivers s id context) (hcb : ∀ d, (f d).cb = d.cb) (hctx : ∀ d, (f d).ctx = d.ctx)
    {s' : Client} (hs : s'.dccSessions = updateSession id f s.dccSessions) :
    Delivers s' id context := by
  intro d hd hdid
  rw [hs] at hd
  rcases mem_updateSession hd with ⟨e, he, heid, rfl⟩ | ⟨hd, hne⟩
  · rw [hcb, hctx]
    exact h e he heid
  · exact absurd hdid hne

theorem Delivers.of_find {id context : ℕ} (h : Delivers s id context) {d : DccSession}
    (hd : s.dccSessions.find? (fun d => d.id = id) = some d) :
    d.cb = some .callbackDccRecvFile ∧ d.ctx = some context :=
  h d (List.mem_of_find?_eq_some hd) (by simpa using List.find?_some hd)

theorem counts_nil (t : Transfer) : Counts t [] [] where
  written_eq := rfl
  received_eq := rfl
  finish_le := Nat.zero_le 1
  finish_iff := iff_of_false (by simp [finishes]) fun hended => hended.1 rfl
  not_closed := List.not_mem_nil

/-- A download with its file open, of which `start` bytes count as received. -/
def startingTransfer (s : Client) (id context size start : ℕ) (fd : FileIo)
    (hsize : size < 2 ^ 64) : Transfer where
  id := id
  context := context
  size := size
  start := start
  path := fd.fileName
  append := fd.append
  base := fileContent s fd.fileName
  past := s.trace
  size_lt := hsize

theorem receiving_startingTransfer {id context size start : ℕ} {c : DccDownloadContext}
    {fd : FileIo} (hs : s.halted = none) (hdelivers : Delivers s id context)
    (hc : s.downloadContext[context]? = some c) (hfd : c.fd = some fd)
    (hcomplete : c.progress.completeFileSize = size) (hrcvd : c.progress.sizeRcvd = start)
    (hsize : size < 2 ^ 64) :
    Receiving (startingTransfer s id context size start fd hsize) [] s where
  running := hs
  session := hdelivers
  table := by
    refine ⟨c, hc, hcomplete, hrcvd, iff_of_false (by simp [hfd]) fun hended => hended.1 rfl, ?_⟩
    intro fd' hfd'
    obtain rfl := Option.some.inj (hfd.symm.trans hfd')
    exact ⟨rfl, rfl⟩
  content := fun _ => (List.append_nil _).symm
  le_size := fun hne => absurd rfl hne
  counted := ⟨[], (List.append_nil _).symm, counts_nil _⟩

theorem Counts.append_silent {l l' : List Action} (h : Counts t received l)
    (hl' : ∀ a ∈ l', Silent t.id t.context a) : Counts t received (l ++ l') where
  written_eq := by rw [written_append, written_of_silent hl', h.written_eq, Nat.add_zero]
  received_eq := by rw [receivedBytes_append, receivedBytes_of_silent hl', h.received_eq, Nat.add_zero]
  finish_le := by
    rw [finishes_append, finishes_of_silent hl']
    exact h.finish_le
  finish_iff := by
    rw [finishes_append, finishes_of_silent hl']
    exact h.finish_iff
  not_closed := by
    rw [List.mem_append, not_or]
    exact ⟨h.not_closed, not_writeClosed_of_silent hl'⟩

theorem Receiving.keep {s' : Client} (h : Receiving t received s) (hhalted : s'.halted = s.halted)
    (hcontext : s'.downloadContext = s.downloadContext) (hfiles : s'.files = s.files)
    (hsession : Delivers s' t.id t.context) {l : List Action} (htrace : s'.trace = s.trace ++ l)
    (hl : ∀ a ∈ l, Silent t.id t.context a) : Receiving t received s' where
  running := hhalted.trans h.running
  session := hsession
  table := hcontext ▸ h.table
  content := by
    unfold fileContent
    rw [hfiles]
    exact h.content
  le_size := h.le_size
  counted := by
    obtain ⟨l₀, hl₀, hcounts⟩ := h.counted
    exact ⟨l₀ ++ l, by rw [htrace, hl₀, List.append_assoc], hcounts.append_silent hl⟩

end frame

section silence
variable {t : Transfer} {received : Bytes}

abbrev Stays (t : Transfer) (received : Bytes) {α : Type} (x : ClientM α) : Prop :=
  Keeps (Receiving t received) x

theorem Receiving.withNet {s : Client} (h : Receiving t received s) (net : Net) :
    Receiving t received (withNet s net) :=
  h.keep rfl rfl rfl h.session (List.append_nil _).symm (by simp)

theorem lock_stays : Stays t received libircMutexLock :=
  ensures_modify fun _ h => h.withNet _

theorem unlock_stays : Stays t received libircMutexUnlock :=
  ensures_modify fun _ h => h.withNet _

theorem record_stays {a : Action} (ha : Silent t.id t.context a) :
    Stays t received (record a) :=
  ensures_modify fun _ h => h.keep rfl rfl rfl h.session rfl (by simpa using ha)

theorem modifySession_stays {f : DccSession → DccSession} (hcb : ∀ d, (f d).cb = d.cb)
    (hctx : ∀ d, (f d).ctx = d.ctx) : Stays t received (modifySession t.id f) :=
  ensures_modify fun _ h => h.keep rfl rfl rfl (delivers_of_updateSession h.session hcb hctx rfl)
    (List.append_nil _).symm (by simp)

theorem libircDccDestroyNolock_stays : Stays t received (libircDccDestroyNolock t.id) := by
  intro s h
  rw [libircDccDestroyNolock_run]
  exact h.keep rfl rfl rfl (delivers_of_updateSession (f := removed) h.session (fun _ => rfl)
    (fun _ => rfl) rfl) (List.append_nil _).symm (by simp)

theorem report_stays (status : ℕ) : Stays t received (callCb noEnv t.id status none 0) := by
  intro s h
  cases hd : s.dccSessions.find? (fun d => d.id = t.id) with
  | none =>
    simp only [callCb, EStateM.run_bind, EStateM.run_get, hd]
    exact h
  | some d =>
    rw [callCb_run_of_recvFile hd (h.session.of_find hd).1, callbackDccRecvFile_run_of_none]
    exact h.keep rfl rfl rfl h.session rfl (by simp [Silent])

theorem receiveFailed_stays (err : ℕ) : Stays t received (receiveFailed t.id err) := by
  refine ensures_bind unlock_stays fun _ => ?_
  refine ensures_bind (report_stays err) fun _ => ?_
  refine ensures_bind lock_stays fun _ => ?_
  exact libircDccDestroyNolock_stays

theorem sendCurrentFileOffsetToSender_stays {dcc : DccSession} (hid : dcc.id = t.id)
    (result : SendResult) :
    Stays t received (sendCurrentFileOffsetToSender dcc result) := by
  have hignored (err : ℕ) : Stays t received (callCb noEnv dcc.id err none 0) := by
    rw [hid]
    exact report_stays err
  have hreport (err : ℕ) : Stays t received (do
      libircMutexUnlock
      callCb noEnv dcc.id err none 0
      libircMutexLock) := by
    refine ensures_bind unlock_stays fun _ => ?_
    refine ensures_bind (hignored err) fun _ => ?_
    exact lock_stays
  have hconnected : Stays t received
      (modifySession dcc.id fun d => { d with state := .connected }) := by
    rw [hid]
    apply modifySession_stays <;> exact fun _ => rfl
  cases result with
  | again => exact ensures_pure fun _ h => h
  | wantRead => exact ensures_ite (fun _ => hconnected) fun _ => ensures_pure fun _ h => h
  | error => exact hreport _
  | sent len =>
    cases len with
    | zero => exact hreport _
    | succ len =>
      refine ensures_bind (record_stays trivial) fun _ => ?_
      refine ensures_ite (fun _ => ?_) fun _ => hconnected
      refine ensures_bind unlock_stays fun _ => ?_
      refine ensures_bind (hignored _) fun _ => ?_
      refine ensures_bind lock_stays fun _ => ?_
      rw [hid]
      exact libircDccDestroyNolock_stays

theorem removeDccSessions_stays : Stays t received removeDccSessions :=
  ensures_modify fun _ h => h.keep rfl rfl rfl
    (fun d hd hid => h.session d (List.mem_of_mem_filter hd) hid) (List.append_nil _).symm (by simp)

theorem outputProgress_completeFileSize (p : DccDownloadProgress) :
    (outputProgress p).completeFileSize = p.completeFileSize := by
  unfold outputProgress
  split <;> rfl

theorem outputProgress_sizeRcvd (p : DccDownloadProgress) :
    (outputProgress p).sizeRcvd = p.sizeRcvd := by
  unfold outputProgress
  split <;> rfl

theorem outputAllProgesses_stays : Stays t received outputAllProgesses := by
  refine ensures_modify fun s h => ?_
  obtain ⟨c, hc, hcomplete, hrcvd, hfd, hopen⟩ := h.table
  refine { h with table := ⟨{ c with progress := outputProgress c.progress }, ?_, ?_, ?_, hfd, hopen⟩ }
  · rw [List.getElem?_map, hc]
    rfl
  · rw [outputProgress_completeFileSize, hcomplete]
  · rw [outputProgress_sizeRcvd, hrcvd]

end silence

section chunks
variable {t : Transfer} {received : Bytes} {s : Client}

def chunkActions (id context : ℕ) (data : Bytes) : List Action :=
  [.received id data.length, .call id (some (.data .callbackDccRecvFile)), .write context data]

theorem chunkOp_arrived_trace (s : Client) (id context : ℕ) (fd : FileIo) (data : Bytes) :
    (chunkOp (arrived s id data.length) context fd data).trace =
      s.trace ++ chunkActions id context data := by
  simp [chunkOp, contextOp, arrived, sessionOp, chunkActions]

theorem written_chunkActions (id context : ℕ) (data : Bytes) :
    written context (chunkActions id context data) = data.length := by
  simp [written, chunkActions, writtenBy]

theorem receivedBytes_chunkActions (id context : ℕ) (data : Bytes) :
    receivedBytes id (chunkActions id context data) = data.length := by
  simp [receivedBytes, chunkActions, receivedBy]

theorem finishes_chunkActions (id context : ℕ) (data : Bytes) :
    finishes context (chunkActions id context data) = 0 := by
  simp [finishes, chunkActions]

theorem not_writeClosed_chunkActions (id context : ℕ) (data : Bytes) :
    Action.writeClosed context ∉ chunkActions id context data := by
  simp [chunkActions]

theorem silent_of_completion (id context : ℕ) {l : List Action} (h : CompletionActions s l) :
    ∀ a ∈ l, Silent id context a := by
  cases h <;> simp [Silent]

theorem written_finish (context : ℕ) (l : List Action) :
    written context (.finish context :: l) = written context l := by
  simp [written, writtenBy]

theorem receivedBytes_finish (id context : ℕ) (l : List Action) :
    receivedBytes id (.finish context :: l) = receivedBytes id l := by
  simp [receivedBytes, receivedBy]

theorem finishes_finish (context : ℕ) (l : List Action) :
    finishes context (.finish context :: l) = finishes context l + 1 := by
  simp [finishes]

theorem Counts.chunk {l : List Action} {data : Bytes} (h : Counts t received l)
    (hbefore : ¬ t.Ended received) (hafter : ¬ t.Ended (received ++ data)) :
    Counts t (received ++ data) (l ++ chunkActions t.id t.context data) where
  written_eq := by rw [written_append, written_chunkActions, h.written_eq, List.length_append]
  received_eq := by
    rw [receivedBytes_append, receivedBytes_chunkActions, h.received_eq, List.length_append]
  finish_le := by
    rw [finishes_append, finishes_chunkActions]
    exact h.finish_le
  finish_iff := by
    rw [finishes_append, finishes_chunkActions]
    exact iff_of_false (mt h.finish_iff.mp hbefore) hafter
  not_closed := by
    rw [List.mem_append, not_or]
    exact ⟨h.not_closed, not_writeClosed_chunkActions _ _ _⟩

theorem Counts.lastChunk {l l' : List Action} {data : Bytes} (h : Counts t received l)
    (hbefore : ¬ t.Ended received) (hafter : t.Ended (received ++ data))
    (hl' : ∀ a ∈ l', Silent t.id t.context a) :
    Counts t (received ++ data)
      (l ++ chunkActions t.id t.context data ++ .finish t.context :: l') := by
  have hunfinished : finishes t.context l = 0 := by
    have hle := h.finish_le
    have hne := mt h.finish_iff.mp hbefore
    omega
  have hcount : finishes t.context
      (l ++ chunkActions t.id t.context data ++ .finish t.context :: l') = 1 := by
    rw [finishes_append, finishes_append, finishes_finish, finishes_of_silent hl',
      finishes_chunkActions, hunfinished]
  exact {
    written_eq := by
      rw [written_append, written_append, written_finish, written_of_silent hl',
        written_chunkActions, h.written_eq, Nat.add_zero, List.length_append]
    received_eq := by
      rw [receivedBytes_append, receivedBytes_append, receivedBytes_finish,
        receivedBytes_of_silent hl', receivedBytes_chunkActions, h.received_eq, Nat.add_zero,
        List.length_append]
    finish_le := hcount.le
    finish_iff := iff_of_true hcount hafter
    not_closed := by
      simp only [List.mem_append, List.mem_cons, not_or]
      exact ⟨⟨h.not_closed, not_writeClosed_chunkActions _ _ _⟩, by simp,
        not_writeClosed_of_silent hl'⟩ }

theorem exists_find?_of_sessionOp {id : ℕ} {net : Net} {f : DccSession → DccSession}
    {l : List Action} (h : ∃ d, s.dccSessions.find? (fun d => d.id = id) = some d)
    (hid : ∀ d, (f d).id = d.id) :
    ∃ d, (sessionOp s net id f l).dccSessions.find? (fun d => d.id = id) = some d := by
  obtain ⟨d, hd⟩ := h
  exact ⟨f d, find?_sessionOp hd net hid l⟩

theorem confirming_receiving (h : Receiving t received s)
    (hd : ∃ d, s.dccSessions.find? (fun d => d.id = t.id) = some d) :
    Receiving t received (confirming s t.id) ∧
      ∃ d, (confirming s t.id).dccSessions.find? (fun d => d.id = t.id) = some d := by
  constructor
  · refine h.keep rfl rfl rfl ?_ (l := []) ?_ (by simp)
    · exact delivers_of_updateSession h.session (by exact fun _ => rfl) (by exact fun _ => rfl)
        (confirming_dccSessions s t.id)
    · rw [confirming_trace, List.append_nil]
  · exact exists_find?_of_sessionOp hd (by exact fun _ => rfl)

theorem fileContent_chunkOp {context : ℕ} {fd : FileIo} {data : Bytes} (happend : fd.append = true) :
    fileContent (chunkOp s context fd data) fd.fileName = fileContent s fd.fileName ++ data := by
  simp [fileContent, chunkOp, writtenFiles, fwriteContent, happend]

theorem receiveChunk_receiving (h : Receiving t received s)
    (hd : ∃ d, s.dccSessions.find? (fun d => d.id = t.id) = some d) {chunk : Chunk}
    (hle : t.start + (received ++ chunk.data).length ≤ t.size) :
    ∃ s', (receiveChunk t.id chunk).run s = .ok ⟨⟩ s' ∧
      Receiving t (received ++ chunk.data) s' ∧
      ∃ d, s'.dccSessions.find? (fun d => d.id = t.id) = some d := by
  obtain ⟨d, hd⟩ := hd
  obtain ⟨hcb, hctx⟩ := h.session.of_find hd
  obtain ⟨c, hc, hcomplete, hrcvd, hfd, hopen⟩ := h.table
  have hpos := chunk.pos
  have hlt := t.size_lt
  rw [List.length_append] at hle
  have hnotEnded : ¬ t.Ended received := fun hended => by
    have hsum := hended.2
    omega
  obtain ⟨l₀, hl₀, hcounts⟩ := h.counted
  obtain ⟨fd, hfd⟩ : ∃ fd, c.fd = some fd :=
    Option.ne_none_iff_exists'.mp fun hnone => hnotEnded (hfd.mp hnone)
  obtain ⟨hpath, happend⟩ := hopen fd hfd
  have hne : received ++ chunk.data ≠ [] := by
    intro hnil
    have hlen := congrArg List.length hnil
    rw [List.length_append, List.length_nil] at hlen
    omega
  have hc₁ : (arrived s t.id chunk.data.length).downloadContext[t.context]? = some c := hc
  have hadd : u64 (c.progress.sizeRcvd + chunk.data.length) =
      t.start + (received ++ chunk.data).length := by
    rw [hrcvd, u64, List.length_append]
    omega
  have hended : t.Ended (received ++ chunk.data) ↔
      t.start + (received ++ chunk.data).length = t.size := and_iff_right hne
  have hfound : ∃ d, (arrived s t.id chunk.data.length).dccSessions.find? (fun d => d.id = t.id) =
      some d := exists_find?_of_sessionOp ⟨d, hd⟩ (by exact fun _ => rfl)
  have hsession : Delivers (arrived s t.id chunk.data.length) t.id t.context :=
    delivers_of_updateSession h.session (by exact fun _ => rfl) (by exact fun _ => rfl)
      (arrived_dccSessions s t.id chunk.data.length)
  have hget : (chunkOp (arrived s t.id chunk.data.length) t.context fd
      chunk.data).downloadContext[t.context]? = some (receivedInto fd chunk.data.length c) :=
    getElem?_modify_self hc₁ _
  have hcontent : t.append = true →
      fileContent (chunkOp (arrived s t.id chunk.data.length) t.context fd chunk.data) t.path =
        t.base ++ (received ++ chunk.data) := by
    intro ha
    rw [← hpath, fileContent_chunkOp (happend.trans ha), hpath, ← List.append_assoc, ← h.content ha]
    rfl
  rw [receiveChunk_run hd hcb, hctx]
  by_cases hlast : t.start + (received ++ chunk.data).length = t.size
  · obtain ⟨net, l, hrun, hl⟩ := callbackDccRecvFile_run_of_last hc₁ hfd hpos
      (by rw [hadd, hlast, hcomplete])
    have hsilent := silent_of_completion t.id t.context hl
    have hclosed := getElem?_modify_self hget closed
    rw [run_bind_of_ok hrun, afterChunk_run]
    refine ⟨_, rfl, confirming_receiving ?_ hfound⟩
    exact {
      running := h.running
      session := hsession
      table := by
        refine ⟨_, hclosed, ?_, ?_, ?_, by simp [closed]⟩
        · rw [closed, outputProgress_completeFileSize]
          exact hcomplete
        · rw [closed, outputProgress_sizeRcvd]
          exact hadd
        · simp only [closed, true_iff]
          exact hended.mpr hlast
      content := hcontent
      le_size := fun _ => hlast.le
      counted := by
        refine ⟨_, ?_, hcounts.lastChunk hnotEnded (hended.mpr hlast) hsilent⟩
        rw [completed_trace, chunkOp_arrived_trace, hl₀]
        simp only [List.append_assoc] }
  · have hrun := callbackDccRecvFile_run_of_unfinished hc₁ hfd hpos (by rw [hadd, hcomplete]; exact hlast)
    rw [run_bind_of_ok hrun, afterChunk_run]
    refine ⟨_, rfl, confirming_receiving ?_ hfound⟩
    exact {
      running := h.running
      session := hsession
      table := by
        refine ⟨_, hget, hcomplete, hadd, ?_, ?_⟩
        · rw [hended]
          exact iff_of_false (by simp [receivedInto]) hlast
        · intro fd' hfd'
          rw [← Option.some.inj hfd']
          exact ⟨hpath, happend⟩
      content := hcontent
      le_size := fun _ => by rw [List.length_append]; exact hle
      counted := by
        refine ⟨_, ?_, hcounts.chunk hnotEnded (mt hended.mp hlast)⟩
        rw [chunkOp_arrived_trace, hl₀, List.append_assoc] }

theorem receiveChunk_overrun (h : Receiving t received s)
    (hd : ∃ d, s.dccSessions.find? (fun d => d.id = t.id) = some d) {chunk : Chunk}
    (hgt : t.size < (received ++ chunk.data).length) :
    Overrun t.context t.size (endState (receiveChunk t.id chunk) s) := by
  obtain ⟨d, hd⟩ := hd
  obtain ⟨hcb, hctx⟩ := h.session.of_find hd
  obtain ⟨c, hc, -⟩ := h.table
  have hpos := chunk.pos
  have hc₁ : (arrived s t.id chunk.data.length).downloadContext[t.context]? = some c := hc
  have hrun := receiveChunk_run hd hcb chunk
  rw [hctx] at hrun
  rw [List.length_append] at hgt
  unfold endState
  rw [hrun]
  cases hopen : c.fd with
  | none =>
    rw [run_bind_of_error (callbackDccRecvFile_run_of_closed hc₁ hopen hpos)]
    refine .inl ?_
    simp [contextOp]
  | some fd =>
    have hwritten : t.size < written t.context
        (chunkOp (arrived s t.id chunk.data.length) t.context fd chunk.data).trace := by
      obtain ⟨l₀, hl₀, hcounts⟩ := h.counted
      rw [chunkOp_arrived_trace, hl₀, written_append, written_append, written_chunkActions,
        hcounts.written_eq]
      omega
    by_cases hsize : u64 (c.progress.sizeRcvd + chunk.data.length) = c.progress.completeFileSize
    · obtain ⟨net, l, hlast, -⟩ := callbackDccRecvFile_run_of_last hc₁ hopen hpos hsize
      rw [run_bind_of_ok hlast, afterChunk_run]
      refine .inr ?_
      rw [confirming_trace, completed_trace, written_append]
      omega
    · rw [run_bind_of_ok (callbackDccRecvFile_run_of_unfinished hc₁ hopen hpos hsize), afterChunk_run]
      refine .inr ?_
      rw [confirming_trace]
      exact hwritten

end chunks

section turns
variable {t : Transfer} {received : Bytes} {s : Client}

theorem chunksData_cons (chunk : Chunk) (chunks : List Chunk) :
    chunksData (chunk :: chunks) = chunk.data ++ chunksData chunks := rfl

def Transfer.Fits (t : Transfer) (received data : Bytes) : Prop :=
  data ≠ [] → t.start + (received ++ data).length ≤ t.size

theorem fits_append {a b : Bytes} (ha : a ≠ []) (h : t.Fits received (a ++ b)) :
    t.start + (received ++ a).length ≤ t.size ∧ t.Fits (received ++ a) b := by
  have hle := h (by simp [ha])
  simp only [List.length_append] at hle ⊢
  refine ⟨by omega, fun _ => ?_⟩
  simp only [List.length_append]
  omega

theorem recvDccFile_receiving (ssl : Bool) (results : List RecvResult) (h : Receiving t received s)
    (hd : ∃ d, s.dccSessions.find? (fun d => d.id = t.id) = some d)
    (hfits : t.Fits received (chunksData (arrivingChunks ssl results))) :
    ∃ s', (recvDccFile t.id ssl results).run s = .ok ⟨⟩ s' ∧
      Receiving t (received ++ chunksData (arrivingChunks ssl results)) s' := by
  have hnone : received ++ chunksData [] = received := List.append_nil _
  induction results generalizing s received with
  | nil => exact ⟨s, rfl, hnone.symm ▸ h⟩
  | cons result more ih =>
    cases result with
    | again =>
      cases ssl with
      | true => exact ⟨s, rfl, hnone.symm ▸ h⟩
      | false => exact ih h hd hfits hnone
    | wantWrite =>
      cases ssl with
      | true =>
        have hstays : Stays t received
            (modifySession t.id fun d => { d with state := .confirmSize }) := by
          apply modifySession_stays <;> exact fun _ => rfl
        obtain ⟨_, s', hrun, hs'⟩ := hstays.exists_ok h
        exact ⟨s', hrun, hnone.symm ▸ hs'⟩
      | false => exact ih h hd hfits hnone
    | error =>
      obtain ⟨_, s', hrun, hs'⟩ := (receiveFailed_stays libircErrRead).exists_ok h
      exact ⟨s', hrun, hnone.symm ▸ hs'⟩
    | closed =>
      obtain ⟨_, s', hrun, hs'⟩ := (receiveFailed_stays libircErrClosed).exists_ok h
      exact ⟨s', hrun, hnone.symm ▸ hs'⟩
    | data chunk =>
      have hchunk : chunk.data ≠ [] := List.ne_nil_of_length_pos chunk.pos
      rw [arrivingChunks, chunksData_cons] at hfits ⊢
      obtain ⟨hle, hrest⟩ := fits_append hchunk hfits
      obtain ⟨s₁, hrun, h₁, hd₁⟩ := receiveChunk_receiving h hd hle
      rw [recvDccFile_data, run_bind_of_ok hrun, ← List.append_assoc]
      cases ssl with
      | true => exact ih h₁ hd₁ hrest (List.append_nil _)
      | false => exact ⟨s₁, rfl, (List.append_nil (received ++ chunk.data)).symm ▸ h₁⟩

theorem recvDccFile_overrun (hstart : t.start = 0) (ssl : Bool) (results : List RecvResult)
    (h : Receiving t received s) (hd : ∃ d, s.dccSessions.find? (fun d => d.id = t.id) = some d)
    (hle : received.length ≤ t.size)
    (hgt : t.size < (received ++ chunksData (arrivingChunks ssl results)).length) :
    Overrun t.context t.size (endState (recvDccFile t.id ssl results) s) := by
  have hnone : ¬ t.size < (received ++ chunksData []).length := by
    rw [chunksData, List.flatMap_nil, List.append_nil]
    omega
  induction results generalizing s received with
  | nil => exact absurd hgt hnone
  | cons result more ih =>
    cases result with
    | again =>
      cases ssl with
      | true => exact absurd hgt hnone
      | false => exact ih h hd hle hgt hnone
    | wantWrite =>
      cases ssl with
      | true => exact absurd hgt hnone
      | false => exact ih h hd hle hgt hnone
    | error => exact absurd hgt hnone
    | closed => exact absurd hgt hnone
    | data chunk =>
      rw [arrivingChunks, chunksData_cons, ← List.append_assoc] at hgt
      by_cases hfits : (received ++ chunk.data).length ≤ t.size
      · obtain ⟨s₁, hrun, h₁, hd₁⟩ := receiveChunk_receiving h hd
          (by rw [hstart, Nat.zero_add]; exact hfits)
        rw [recvDccFile_data, endState_bind_of_ok hrun]
        have hrest : ¬ t.size < ((received ++ chunk.data) ++ chunksData []).length := by
          rw [chunksData, List.flatMap_nil, List.append_nil]
          omega
        cases ssl with
        | true => exact ih h₁ hd₁ hfits hgt hrest
        | false => exact absurd hgt hrest
      · -- the rest of the turn cannot undo it
        have hchunk := receiveChunk_overrun h hd (Nat.lt_of_not_le hfits)
        refine hchunk.changes (endState_bind_moves Changes.refl' (fun _ => ?_) s)
        exact moves_ite (recvDccFile_moves t.id ssl more) (moves_pure Changes.refl' _)

theorem arriving_of_find_none {id : ℕ} (hd : s.dccSessions.find? (fun d => d.id = id) = none)
    (e : Event) : arriving id s e = [] := by
  unfold arriving
  split
  · rw [hd]
    split <;> simp_all
  · rfl

theorem arriving_of_connected {id : ℕ} {d : DccSession} (hs : s.halted = none)
    (hd : s.dccSessions.find? (fun d => d.id = id) = some d) (hstate : d.state = .connected)
    (results : List RecvResult) :
    arriving id s (.socket id (.receiving results)) = chunksData (arrivingChunks d.ssl results) := by
  simp only [arriving, hs, hd, hstate, and_self, if_true]

theorem arriving_of_not_connected {id : ℕ} {d : DccSession}
    (hd : s.dccSessions.find? (fun d => d.id = id) = some d) (hstate : d.state ≠ .connected)
    (ready : SocketReady) : arriving id s (.socket id ready) = [] := by
  cases ready with
  | receiving results => cases hs : s.halted <;> simp [arriving, hs, hd, hstate]
  | _ => rfl

theorem arriving_of_halted {fault : Halt} (hs : s.halted = some fault) (id : ℕ) (e : Event) :
    arriving id s e = [] := by
  unfold arriving
  split
  · rw [hs]
  · rfl

theorem processDescriptor_stays {d : DccSession} {ready : SocketReady}
    (hd : s.dccSessions.find? (fun d => d.id = t.id) = some d)
    (hno : ∀ results, d.state = .connected → ready ≠ .receiving results)
    (h : Receiving t received s) :
    ∃ s', (processDescriptor t.id ready).run s = .ok ⟨⟩ s' ∧ Receiving t received s' := by
  have hmodify (f : DccSession → DccSession) (hcb : ∀ d, (f d).cb = d.cb)
      (hctx : ∀ d, (f d).ctx = d.ctx) :
      ∃ s', (modifySession t.id f).run s = .ok ⟨⟩ s' ∧ Receiving t received s' := by
    obtain ⟨_, s', hrun, hs'⟩ := (modifySession_stays hcb hctx).exists_ok h
    exact ⟨s', hrun, hs'⟩
  rw [processDescriptor_run_of_find hd]
  split
  · next getpeername _ =>
    cases getpeername with
    | true => exact hmodify _ (by exact fun _ => rfl) (by exact fun _ => rfl)
    | false =>
      obtain ⟨_, s', hrun, hs'⟩ := libircDccDestroyNolock_stays.exists_ok h
      exact ⟨s', hrun, hs'⟩
  · next results hstate => exact absurd rfl (hno results hstate)
  · next result _ =>
    have hid : d.id = t.id := by simpa using List.find?_some hd
    obtain ⟨_, s', hrun, hs'⟩ := (sendCurrentFileOffsetToSender_stays hid result).exists_ok h
    exact ⟨s', hrun, hs'⟩
  · exact hmodify _ (by exact fun _ => rfl) (by exact fun _ => rfl)
  · exact ⟨s, rfl, h⟩

theorem processDescriptor_run_of_receiving {id : ℕ} {d : DccSession}
    (hd : s.dccSessions.find? (fun d => d.id = id) = some d) (hstate : d.state = .connected)
    (results : List RecvResult) :
    (processDescriptor id (.receiving results)).run s = (recvDccFile id d.ssl results).run s := by
  simp only [processDescriptor_run_of_find hd, hstate]

theorem processDescriptor_receiving {ready : SocketReady} (h : Receiving t received s)
    (hfits : t.Fits received (arriving t.id s (.socket t.id ready))) :
    ∃ s', (processDescriptor t.id ready).run s = .ok ⟨⟩ s' ∧
      Receiving t (received ++ arriving t.id s (.socket t.id ready)) s' := by
  cases hd : s.dccSessions.find? (fun d => d.id = t.id) with
  | none =>
    rw [arriving_of_find_none hd, List.append_nil]
    exact ⟨s, processDescriptor_run_of_none hd ready, h⟩
  | some d =>
    by_cases hrecv : ∃ results, d.state = .connected ∧ ready = .receiving results
    · obtain ⟨results, hstate, rfl⟩ := hrecv
      rw [arriving_of_connected h.running hd hstate] at hfits ⊢
      rw [processDescriptor_run_of_receiving hd hstate]
      exact recvDccFile_receiving d.ssl results h ⟨d, hd⟩ hfits
    · have hnothing : arriving t.id s (.socket t.id ready) = [] := by
        by_cases hstate : d.state = .connected
        · cases ready with
          | receiving results => exact absurd ⟨results, hstate, rfl⟩ hrecv
          | _ => rfl
        · exact arriving_of_not_connected hd hstate ready
      rw [hnothing, List.append_nil]
      exact processDescriptor_stays hd (fun results hs hr => hrecv ⟨results, hs, hr⟩) h

theorem processDescriptor_overrun (hstart : t.start = 0) {ready : SocketReady}
    (h : Receiving t received s) (hle : received.length ≤ t.size)
    (hgt : t.size < (received ++ arriving t.id s (.socket t.id ready)).length) :
    Overrun t.context t.size (endState (processDescriptor t.id ready) s) := by
  have hnothing : ¬ t.size < (received ++ []).length := by
    rw [List.append_nil]
    omega
  cases hd : s.dccSessions.find? (fun d => d.id = t.id) with
  | none =>
    rw [arriving_of_find_none hd] at hgt
    exact absurd hgt hnothing
  | some d =>
    by_cases hstate : d.state = .connected
    · cases ready with
      | receiving results =>
        rw [arriving_of_connected h.running hd hstate] at hgt
        have hoverrun := recvDccFile_overrun hstart d.ssl results h ⟨d, hd⟩ hle hgt
        unfold endState at hoverrun ⊢
        rw [processDescriptor_run_of_receiving hd hstate]
        exact hoverrun
      | _ => exact absurd hgt hnothing
    · rw [arriving_of_not_connected hd hstate] at hgt
      exact absurd hgt hnothing

/-- The turns of one download: those of its socket, the tidying up, and the display. -/
def OwnEvent (id : ℕ) : Event → Prop
  | .socket dccid _ => dccid = id
  | .addDescriptors => True
  | .outputTimer => True
  | .request _ _ _ => False

theorem step_of_ok {e : Event} {s' : Client} {a : Unit} (hs : s.halted = none)
    (h : (handle e).run s = .ok a s') : step s e = s' := by
  unfold step
  rw [hs, h]

theorem step_receiving {e : Event} (hown : OwnEvent t.id e) (h : Receiving t received s)
    (hfits : t.Fits received (arriving t.id s e)) :
    Receiving t (received ++ arriving t.id s e) (step s e) := by
  cases e with
  | request env nick req => exact hown.elim
  | socket dccid ready =>
    obtain rfl : dccid = t.id := hown
    obtain ⟨s', hrun, hs'⟩ := processDescriptor_receiving (h.withNet (lockedNet s.net)) hfits
    have hhandle : (handle (.socket t.id ready)).run s =
        .ok ⟨⟩ (withNet s' (unlockedNet s'.net)) := by
      change (libircMutexLock >>= fun _ => processDescriptor t.id ready >>= fun _ =>
        libircMutexUnlock).run s = _
      have hlock : libircMutexLock.run s = .ok ⟨⟩ (withNet s (lockedNet s.net)) := rfl
      rw [run_bind_of_ok hlock, run_bind_of_ok hrun]
      rfl
    rw [step_of_ok h.running hhandle]
    exact hs'.withNet _
  | addDescriptors =>
    obtain ⟨_, s', hrun, hs'⟩ := removeDccSessions_stays.exists_ok h
    rw [step_of_ok (e := .addDescriptors) h.running hrun]
    exact (List.append_nil received).symm ▸ hs'
  | outputTimer =>
    obtain ⟨_, s', hrun, hs'⟩ := outputAllProgesses_stays.exists_ok h
    rw [step_of_ok (e := .outputTimer) h.running hrun]
    exact (List.append_nil received).symm ▸ hs'

theorem step_overrun (hstart : t.start = 0) {e : Event} (hown : OwnEvent t.id e)
    (h : Receiving t received s) (hle : received.length ≤ t.size)
    (hgt : t.size < (received ++ arriving t.id s e).length) :
    Overrun t.context t.size (step s e) := by
  have hnothing : ¬ t.size < (received ++ []).length := by
    rw [List.append_nil]
    omega
  cases e with
  | request env nick req => exact hown.elim
  | socket dccid ready =>
    obtain rfl : dccid = t.id := hown
    have hturn := processDescriptor_overrun hstart (h.withNet (lockedNet s.net)) hle hgt
    refine Overrun.changes (Overrun.changes hturn ?_) (step_changes_handle h.running _)
    exact endState_bind_moves (x := processDescriptor t.id ready) Changes.refl'
      (fun _ => unlock_moves) (withNet s (lockedNet s.net))
  | addDescriptors => exact absurd hgt hnothing
  | outputTimer => exact absurd hgt hnothing

theorem not_startsDownload_of_own {id : ℕ} {e : Event} (hown : OwnEvent id e) :
    ¬ StartsDownload s e := by
  cases e with
  | request env nick req => exact hown.elim
  | _ => exact fun hstarts => hstarts

theorem overrun_run {id context size : ℕ} (h : Overrun context size s) {events : List Event}
    (hown : ∀ e ∈ events, OwnEvent id e) : Overrun context size (run step s events) := by
  induction events generalizing s with
  | nil => exact h
  | cons e events ih =>
    rw [List.forall_mem_cons] at hown
    exact ih (h.changes (step_changes (not_startsDownload_of_own hown.1))) hown.2

theorem receiving_run {events : List Event} (hown : ∀ e ∈ events, OwnEvent t.id e)
    (h : Receiving t received s)
    (hfits : t.Fits received (concatAlong step (arriving t.id) s events)) :
    Receiving t (received ++ concatAlong step (arriving t.id) s events) (run step s events) := by
  induction events generalizing s received with
  | nil => exact (List.append_nil received).symm ▸ h
  | cons e events ih =>
    rw [List.forall_mem_cons] at hown
    rw [concatAlong] at hfits ⊢
    rw [← List.append_assoc]
    by_cases hnothing : arriving t.id s e = []
    · have hstep := step_receiving hown.1 h (fun hne => absurd hnothing hne)
      rw [hnothing, List.append_nil] at hstep ⊢
      exact ih hown.2 hstep (by rw [hnothing] at hfits; exact hfits)
    · obtain ⟨hle, hrest⟩ := fits_append hnothing hfits
      exact ih hown.2 (step_receiving hown.1 h fun _ => hle) hrest

theorem overrun_of_receiving (hstart : t.start = 0) {events : List Event}
    (hown : ∀ e ∈ events, OwnEvent t.id e) (h : Receiving t received s)
    (hle : received.length ≤ t.size)
    (hgt : t.size < (received ++ concatAlong step (arriving t.id) s events).length) :
    Overrun t.context t.size (run step s events) := by
  induction events generalizing s received with
  | nil =>
    rw [concatAlong, List.append_nil] at hgt
    omega
  | cons e events ih =>
    rw [List.forall_mem_cons] at hown
    rw [concatAlong, ← List.append_assoc] at hgt
    by_cases hfits : (received ++ arriving t.id s e).length ≤ t.size
    · refine ih hown.2 (step_receiving hown.1 h fun _ => ?_) hfits hgt
      rw [hstart, Nat.zero_add]
      exact hfits
    · exact overrun_run (step_overrun hstart hown.1 h hle (Nat.lt_of_not_le hfits)) hown.2

end turns

end Xdccget.DownloadTurns
