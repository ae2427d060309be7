import Xdccget.EventSpecs

set_option autoImplicit false

/-!
# How the steps change the download table

Whatever a step does to the contexts, the counters and the files is a sequence of
a few changes. A step either starts one download or only makes such changes.
-/
namespace Xdccget.TableChanges
open CText DccMessages ClientState DccSessions Downloads DccEvents HaltingPrograms SessionSpecs
  DownloadSpecs

def SessionAction : Action → Prop
  | .install _ _ => True
  | .call _ _ => True
  | .received _ _ => True
  | .acknowledged _ _ _ => True
  | .queued line => line ≠ quitLine
  | _ => False

@[simps]
def withSessions (s : Client) (net : Net) (lastId : ℕ) (ds : List DccSession) (l : List Action) :
    Client :=
  { s with net := net, dccLastId := lastId, dccSessions := ds, trace := s.trace ++ l }

/-- One change. A download ends only where `b` allows it. -/
inductive Change (b : Bool) : Client → Client → Prop
  | sessions (s : Client) (net : Net) (lastId : ℕ) (ds : List DccSession) {l : List Action}
      (hl : ∀ a ∈ l, SessionAction a) : Change b s (withSessions s net lastId ds l)
  | chunk {s : Client} {context : ℕ} {c : DccDownloadContext} {fd : FileIo} (data : Bytes)
      (hc : s.downloadContext[context]? = some c) (hfd : c.fd = some fd) :
      Change b s (chunkOp s context fd data)
  | lost {s : Client} {context : ℕ} {c : DccDownloadContext} (length : ℕ)
      (hc : s.downloadContext[context]? = some c) (hfd : c.fd = none) :
      Change b s (contextOp s context (addRcvd length) s.files [.writeClosed context])
  | complete {s : Client} {context : ℕ} {c : DccDownloadContext} {fd : FileIo} (hb : b = true)
      (net : Net) {l : List Action} (hc : s.downloadContext[context]? = some c) (hfd : c.fd = some fd)
      (hsize : c.progress.sizeRcvd = c.progress.completeFileSize) (hl : CompletionActions s l) :
      Change b s (completed s net context l)
  | rewind {s : Client} {context : ℕ} {c : DccDownloadContext} {fd : FileIo} (length : ℕ)
      (hc : s.downloadContext[context]? = some c) (hfd : c.fd = some fd) :
      Change b s { s with downloadContext := s.downloadContext.modify context (rewound fd length) }
  | output (s : Client) :
      Change b s { s with downloadContext :=
        s.downloadContext.map fun c => { c with progress := outputProgress c.progress } }
  | halt (s : Client) (h : Halt) : Change b s { s with halted := some h }

abbrev Changes (b : Bool) : Client → Client → Prop := Relation.ReflTransGen (Change b)

variable {b : Bool}

theorem Changes.trans' : ∀ s t u, Changes b s t → Changes b t u → Changes b s u :=
  fun _ _ _ => Relation.ReflTransGen.trans

theorem Changes.refl' : ∀ s, Changes b s s := fun _ => Relation.ReflTransGen.refl

theorem Changes.invariant {P : Client → Prop} (hstep : ∀ s s', P s → Change b s s' → P s')
    {s s' : Client} (hc : Changes b s s') (h : P s) : P s' := by
  induction hc with
  | refl => exact h
  | tail _ hc ih => exact hstep _ _ ih hc

theorem withNet_changes (s : Client) (net : Net) : Changes b s (withNet s net) := by
  have h := Change.sessions (b := b) s net s.dccLastId s.dccSessions (l := []) (by simp)
  rw [withSessions, List.append_nil] at h
  exact .single h

theorem sessionOp_changes (s : Client) (net : Net) (id : ℕ) (f : DccSession → DccSession)
    {l : List Action} (hl : ∀ a ∈ l, SessionAction a) : Changes b s (sessionOp s net id f l) :=
  .single (.sessions s net s.dccLastId (updateSession id f s.dccSessions) hl)

theorem setLasterror_moves (err : ℕ) : Moves (Changes b) (setLasterror err) :=
  fun s => withNet_changes s _

theorem lock_moves : Moves (Changes b) libircMutexLock := fun s => withNet_changes s _

theorem unlock_moves : Moves (Changes b) libircMutexUnlock := fun s => withNet_changes s _

theorem modifySession_moves (id : ℕ) (f : DccSession → DccSession) :
    Moves (Changes b) (modifySession id f) := by
  intro s
  have h := sessionOp_changes (b := b) s s.net id f (l := []) (by simp)
  rw [sessionOp, List.append_nil] at h
  exact h

theorem record_moves {a : Action} (h : SessionAction a) : Moves (Changes b) (record a) := by
  intro s
  exact .single (.sessions s s.net s.dccLastId s.dccSessions (l := [a]) (by simpa using h))

theorem exitPgm_moves : Moves (Changes b) exitPgm := Changes.refl'

theorem libircFind_moves (found : DccSession → Bool) (lockList : Bool) :
    Moves (Changes b) (libircFind found lockList) := by
  intro s
  cases hf : s.dccSessions.find? found with
  | none =>
    have hrun := libircFind_run_of_none hf lockList
    rw [endState_of_ok hrun]
  | some d =>
    cases lockList with
    | false =>
      have hrun := libircFind_run_nolock found s
      rw [endState_of_ok hrun]
    | true =>
      have hrun := libircFind_run_of_some hf
      rw [endState_of_ok hrun]
      exact withNet_changes s _

theorem libircDccDestroyNolock_moves (id : ℕ) : Moves (Changes b) (libircDccDestroyNolock id) := by
  intro s
  have hrun := libircDccDestroyNolock_run id s
  rw [endState_of_ok hrun]
  exact modifySession_moves id removed s

theorem sessionAction_install (id : ℕ) (cb : Callback) : SessionAction (.install id cb) := trivial

theorem sessionAction_of_asked {id : ℕ} {cb : Callback} {nick : Option Bytes} {reply : Bytes}
    {l : List Action} (h : Asked id cb nick reply l) : ∀ a ∈ l, SessionAction a := by
  have hline (n : Bytes) : SessionAction (.queued (ctcpLine n reply)) := ctcpLine_ne_quitLine n reply
  rcases h with rfl | ⟨n, -, rfl | rfl⟩
  · simp [sessionAction_install]
  · simp [sessionAction_install, hline]
  · simp [sessionAction_install, hline]

theorem exists_init_or_notInit (s : Client) (id : ℕ) :
    (∃ d, s.dccSessions.find? (fun d => d.id = id) = some d ∧ d.state = .init) ∨ NotInit s id := by
  by_cases h : ∃ d, s.dccSessions.find? (fun d => d.id = id) = some d ∧ d.state = .init
  · exact .inl h
  · exact .inr fun d hd hs => h ⟨d, hd, hs⟩

theorem ircDccAccept_moves (env : Env) (id : ℕ) (ctx : Option ℕ) (cb : DataCallback) :
    Moves (Changes b) (ircDccAccept env id ctx cb) := by
  intro s
  rcases exists_init_or_notInit s id with ⟨d, hd, hinit⟩ | hnot
  · obtain ⟨ret, net, f, hrun, -⟩ := ircDccAccept_run hd hinit env ctx cb
    rw [endState_of_ok hrun]
    exact sessionOp_changes s net id f (by simp [sessionAction_install])
  · obtain ⟨net, hrun⟩ := ircDccAccept_run_of_notInit hnot env ctx cb
    rw [endState_of_ok hrun]
    exact withNet_changes s net

theorem ircDccResume_moves (id : ℕ) (ctx : Option ℕ) (cb : DataCallback) (nick : Option Bytes)
    (position : ℕ) : Moves (Changes b) (ircDccResume id ctx cb nick position) := by
  intro s
  rcases exists_init_or_notInit s id with ⟨d, hd, hinit⟩ | hnot
  · obtain ⟨net, l, hrun, hl⟩ := ircDccResume_run hd hinit ctx cb nick position
    rw [endState_of_ok hrun]
    exact sessionOp_changes s net id _ (sessionAction_of_asked hl)
  · obtain ⟨net, hrun⟩ := ircDccResume_run_of_notInit hnot ctx cb nick position
    rw [endState_of_ok hrun]
    exact withNet_changes s net

theorem ircDccResumeReverse_moves (id : ℕ) (ctx : Option ℕ) (cb : ReverseCallback)
    (nick : Option Bytes) (position token : ℕ) :
    Moves (Changes b) (ircDccResumeReverse id ctx cb nick position token) := by
  intro s
  rcases exists_init_or_notInit s id with ⟨d, hd, hinit⟩ | hnot
  · obtain ⟨net, l, hrun, hl⟩ := ircDccResumeReverse_run hd hinit ctx cb nick position token
    rw [endState_of_ok hrun]
    exact sessionOp_changes s net id _ (sessionAction_of_asked hl)
  · obtain ⟨net, hrun⟩ := ircDccResumeReverse_run_of_notInit hnot ctx cb nick position token
    rw [endState_of_ok hrun]
    exact withNet_changes s net

theorem ircDccAcceptReverse_moves (env : Env) (id : ℕ) (ctx : Option ℕ) (cb : DataCallback)
    (nick : Option Bytes) (filename : Bytes) (size token : ℕ) :
    Moves (Changes b) (ircDccAcceptReverse env id ctx cb nick filename size token) := by
  intro s
  rcases exists_init_or_notInit s id with ⟨d, hd, hinit⟩ | hnot
  · rcases ircDccAcceptReverse_run hd hinit env ctx cb nick filename size token with
      ⟨-, net, hrun⟩ | ⟨addr, net, l, -, hrun, hl⟩
    · simp only [endState, hrun]
      exact withNet_changes s net
    · simp only [endState, hrun]
      exact sessionOp_changes s net id _ (sessionAction_of_asked hl)
  · obtain ⟨net, hrun⟩ := ircDccAcceptReverse_run_of_notInit hnot env ctx cb nick filename size token
    rw [endState_of_ok hrun]
    exact withNet_changes s net

theorem exitOnFailure_moves {call : ClientM ℕ} (h : Moves (Changes b) call) :
    Moves (Changes b) (exitOnFailure call) := by
  refine moves_bind Changes.trans' h fun ret => ?_
  exact moves_ite exitPgm_moves (moves_pure Changes.refl' _)

theorem seekToResume_moves (env : Env) (context length : ℕ) :
    Moves (Changes b) (seekToResume env context length) := by
  intro s
  rcases seekToResume_run_cases env context length s with ⟨fault, hrun⟩ | ⟨c, fd, hc, hfd, hrun⟩
  · rw [endState_of_error hrun]
  · rw [endState_of_ok hrun]
    exact .single (.rewind length hc hfd)

theorem callbackDccResumeFile_moves (env : Env) (id : ℕ) (ctx : Option ℕ) (length : ℕ) :
    Moves (Changes b) (callbackDccResumeFile env id ctx length) := by
  cases ctx with
  | none => exact moves_throw Changes.refl' _
  | some context =>
    refine moves_bind Changes.trans' (seekToResume_moves env context length) fun _ => ?_
    exact exitOnFailure_moves (ircDccAccept_moves env id _ _)

theorem callbackDccResumeFileReverse_moves (env : Env) (id : ℕ) (ctx : Option ℕ) (length : ℕ)
    (nick : Option Bytes) (filename : Bytes) (token : ℕ) :
    Moves (Changes b) (callbackDccResumeFileReverse env id ctx length nick filename token) := by
  cases ctx with
  | none => exact moves_throw Changes.refl' _
  | some context =>
    refine moves_bind Changes.trans' (seekToResume_moves env context length) fun _ => ?_
    refine moves_bind Changes.trans' (moves_get Changes.refl') fun s => ?_
    cases s.downloadContext[context]? with
    | none => exact moves_throw Changes.refl' _
    | some c => exact exitOnFailure_moves (ircDccAcceptReverse_moves env id _ _ nick filename _ token)

theorem callbackDccRecvFile_moves (ctx : Option ℕ) {data : Bytes} (hdata : 0 < data.length) :
    Moves (Changes true) (callbackDccRecvFile libircErrOk ctx (some data) data.length) := by
  cases ctx with
  | none => exact moves_pure Changes.refl' _
  | some context =>
    intro s
    cases hc : s.downloadContext[context]? with
    | none =>
      rw [endState_of_error (callbackDccRecvFile_run_of_missing hc hdata)]
    | some c =>
      cases hfd : c.fd with
      | none =>
        rw [endState_of_error (callbackDccRecvFile_run_of_closed hc hfd hdata)]
        exact .single (.lost data.length hc hfd)
      | some fd =>
        have hchunk := Change.chunk (b := true) data hc hfd
        by_cases hsize : u64 (c.progress.sizeRcvd + data.length) = c.progress.completeFileSize
        · obtain ⟨net, l, hrun, hl⟩ := callbackDccRecvFile_run_of_last hc hfd hdata hsize
          have hcomplete := Change.complete rfl net (getElem?_modify_self hc _) rfl hsize hl
          rw [endState_of_ok hrun]
          exact .tail (.single hchunk) hcomplete
        · rw [endState_of_ok (callbackDccRecvFile_run_of_unfinished hc hfd hdata hsize)]
          exact .single hchunk

theorem callCb_moves_of_recv (env : Env) (id : ℕ) {status length : ℕ} {data : Option Bytes}
    (hrecv : ∀ ctx, Moves (Changes b) (callbackDccRecvFile status ctx data length)) :
    Moves (Changes b) (callCb env id status data length) := by
  refine moves_bind Changes.trans' (moves_get Changes.refl') fun s => ?_
  cases s.dccSessions.find? (fun d => decide (d.id = id)) with
  | none => exact moves_pure Changes.refl' _
  | some dcc =>
    refine moves_bind Changes.trans' (record_moves trivial) fun _ => ?_
    cases dcc.cb with
    | none => exact moves_throw Changes.refl' _
    | some cb =>
      cases cb with
      | callbackDccRecvFile => exact hrecv dcc.ctx
      | callbackDccResumeFile => exact callbackDccResumeFile_moves env id dcc.ctx length

theorem callCb_moves_of_none (env : Env) (id status length : ℕ) :
    Moves (Changes b) (callCb env id status none length) :=
  callCb_moves_of_recv env id fun _ => moves_pure Changes.refl' _

theorem callCb_moves (env : Env) (id : ℕ) {data : Bytes} (hdata : 0 < data.length) :
    Moves (Changes true) (callCb env id libircErrOk (some data) data.length) :=
  callCb_moves_of_recv env id fun ctx => callbackDccRecvFile_moves ctx hdata

theorem callReverseCb_moves (env : Env) (id size : ℕ) (nick : Option Bytes) (token : ℕ) :
    Moves (Changes b) (callReverseCb env id size nick token) := by
  refine moves_bind Changes.trans' (moves_get Changes.refl') fun s => ?_
  cases s.dccSessions.find? (fun d => decide (d.id = id)) with
  | none => exact moves_pure Changes.refl' _
  | some dcc =>
    refine moves_bind Changes.trans' (record_moves trivial) fun _ => ?_
    cases dcc.reverseCb with
    | none => exact moves_throw Changes.refl' _
    | some cb =>
      cases cb with
      | callbackDccResumeFileReverse =>
        exact callbackDccResumeFileReverse_moves env id dcc.ctx size nick _ token

theorem acknowledge_moves {found : DccSession → Bool} {f : DccSession → DccSession}
    {call : ℕ → ClientM Unit} (hcall : ∀ id, Moves (Changes b) (call id)) :
    Moves (Changes b) (do
      match ← libircFind found true with
      | none => return
      | some dcc =>
        if dcc.state ≠ .waitingForResumeAck then
          return
        modifySession dcc.id f
        libircMutexUnlock
        call dcc.id) := by
  refine moves_bind Changes.trans' (libircFind_moves _ true) fun d => ?_
  cases d with
  | none => exact moves_pure Changes.refl' _
  | some dcc =>
    refine moves_ite (moves_pure Changes.refl' _) ?_
    refine moves_bind Changes.trans' (modifySession_moves _ _) fun _ => ?_
    exact moves_bind Changes.trans' unlock_moves fun _ => hcall dcc.id

theorem acceptResumeReverse_moves (env : Env) (nick : Option Bytes) (size token : ℕ) :
    Moves (Changes b) (acceptResumeReverse env nick size token) :=
  acknowledge_moves fun id => callReverseCb_moves env id size nick token

theorem acceptResume_moves (env : Env) (port size : ℕ) :
    Moves (Changes b) (acceptResume env port size) :=
  acknowledge_moves fun id => callCb_moves_of_none env id 1 size

theorem changes_frame : Frame (Changes b) := ⟨Changes.refl', Changes.trans'⟩

theorem turn_keeps (id : ℕ) : (turn id).Keeps (Moves (Changes b)) :=
  EventSpecs.turn_keeps changes_frame lock_moves unlock_moves (fun _ => record_moves trivial)
    (fun _ _ => record_moves trivial) (modifySession_moves id) (libircDccDestroyNolock_moves id)

theorem receiveFailed_moves (id err : ℕ) : Moves (Changes b) (receiveFailed id err) :=
  (turn_keeps id).receiveFailed (callCb_moves_of_none noEnv id err 0)

theorem recvDccFile_moves (id : ℕ) (ssl : Bool) (results : List RecvResult) :
    Moves (Changes true) (recvDccFile id ssl results) :=
  (turn_keeps id).recvDccFile ssl
    (RecvResult.turns_alike (fun err _ => callCb_moves_of_none noEnv id err 0)
      (fun chunk => callCb_moves noEnv id chunk.pos) results)

theorem sendCurrentFileOffsetToSender_moves (dcc : DccSession) (result : SendResult) :
    Moves (Changes b) (sendCurrentFileOffsetToSender dcc result) :=
  (turn_keeps dcc.id).sendCurrentFileOffsetToSender dcc
    (SendResult.turn_alike (fun err _ => callCb_moves_of_none noEnv dcc.id err 0)
      fun _ _ => callCb_moves_of_none noEnv dcc.id _ 0)

theorem processDescriptor_moves (id : ℕ) (ready : SocketReady) :
    Moves (Changes true) (processDescriptor id ready) :=
  EventSpecs.moves_processDescriptor changes_frame turn_keeps
    (fun id err => callCb_moves_of_none noEnv id err 0)
    (fun id chunk => callCb_moves noEnv id chunk.pos) id ready

theorem removeDccSessions_moves : Moves (Changes b) removeDccSessions := by
  intro s
  have h := Change.sessions (b := b) s s.net s.dccLastId
    (s.dccSessions.filter fun d => d.state ≠ .removed) (l := []) (by simp)
  rw [withSessions, List.append_nil] at h
  exact .single h

def Startable (env : Env) (filename : Bytes) (ssl : Bool) (s : Client) : Prop :=
  CanOpen env ssl s ∧ containsIllegalChars filename = false

instance (env : Env) (filename : Bytes) (ssl : Bool) (s : Client) :
    Decidable (Startable env filename ssl s) := by
  unfold Startable
  infer_instance

/-- The request is an offer of a permitted nick that is accepted into the download table. -/
def StartsDownload (s : Client) : Event → Prop
  | .request env nick req =>
    s.halted = none ∧ isValidRequestFromNick s.cfg nick = some true ∧
      match dccRequestCall true req with
      | .acceptDccSend filename _ _ _ ssl => Startable env filename ssl s
      | .acceptReverseDccSend filename _ _ _ ssl =>
        Startable env filename ssl s ∧ env.bind = true ∧ env.listen = true
      | _ => False
  | _ => False

instance (s : Client) (e : Event) : Decidable (StartsDownload s e) := by
  unfold StartsDownload
  split
  · split <;> infer_instance
  · infer_instance

def StartThen (b : Bool) (s s' : Client) : Prop :=
  ∃ t progress fd files, Changes b s t ∧ Changes b (withDownload t progress fd files) s'

/-- The download that is started has this name, a new record, and its file if that could be
opened. -/
def StartedAs (b : Bool) (env : Env) (filename : Bytes) (s s' : Client) : Prop :=
  ∃ t size fd files, Changes b s t ∧
    (∀ file ∈ fd, file.fileName = getCompletePath t.cfg filename) ∧
    Changes b (withDownload t (newDccProgress env (getCompletePath t.cfg filename) size) fd files) s'

theorem StartedAs.startThen {env : Env} {filename : Bytes} {s s' : Client}
    (h : StartedAs b env filename s s') : StartThen b s s' := by
  obtain ⟨t, size, fd, files, ht, -, hs'⟩ := h
  exact ⟨t, _, fd, files, ht, hs'⟩

theorem StartedAs.trans {env : Env} {filename : Bytes} {s t u : Client}
    (h : StartedAs b env filename s t) (h' : Changes b t u) : StartedAs b env filename s u := by
  obtain ⟨v, size, fd, files, hv, hfd, ht⟩ := h
  exact ⟨v, size, fd, files, hv, hfd, ht.trans h'⟩

theorem StartedAs.head {env : Env} {filename : Bytes} {s t u : Client} (h : Changes b s t)
    (h' : StartedAs b env filename t u) : StartedAs b env filename s u := by
  obtain ⟨v, size, fd, files, hv, hfd, ht⟩ := h'
  exact ⟨v, size, fd, files, h.trans hv, hfd, ht⟩

theorem started_startedAs (s : Client) (env : Env) (filename : Bytes) (size : ℕ) (append : Bool)
    {s' : Client} (h : Changes b (started s env filename size append) s') :
    StartedAs b env filename s s' := by
  refine ⟨s, size, _, openedFiles s.files (getCompletePath s.cfg filename) append, .refl, ?_, h⟩
  rintro file ⟨⟩
  rfl

theorem recvFileWith_starts {env : Env} {filename : Bytes} {size : ℕ} {accept : ℕ → ClientM ℕ}
    {resume : ℕ → ℕ → ClientM ℕ} (h : containsIllegalChars filename = false)
    (haccept : ∀ context, Moves (Changes b) (accept context))
    (hresume : ∀ context position, Moves (Changes b) (resume context position)) (s : Client) :
    StartedAs b env filename s (endState (recvFileWith env filename size accept resume) s) := by
  cases hopen : env.fopen with
  | false =>
    rw [endState_of_error (recvFileWith_run_of_unopened h hopen)]
    exact ⟨s, size, none, s.files, .refl, by simp, .refl⟩
  | true =>
    cases hf : s.files (getCompletePath s.cfg filename) with
    | none =>
      refine started_startedAs s env filename size false ?_
      rw [endState, recvFileWith_run_of_missing h hopen hf]
      exact exitOnFailure_moves (haccept _) _
    | some content =>
      refine started_startedAs s env filename size true ?_
      rw [endState, recvFileWith_run_of_existing h hopen hf]
      refine moves_ite exitPgm_moves (moves_ite ?_ ?_) _
      · exact exitOnFailure_moves (haccept _)
      · exact exitOnFailure_moves (hresume _ _)

theorem recvFileRequest_starts {filename : Bytes} (h : containsIllegalChars filename = false)
    (env : Env) (nick : Option Bytes) (size id : ℕ) (s : Client) :
    StartedAs b env filename s (endState (recvFileRequest env nick filename size id) s) :=
  recvFileWith_starts h (fun _ => ircDccAccept_moves env id _ _)
    (fun _ _ => ircDccResume_moves id _ _ nick _) s

theorem recvFileRequestReverse_starts {filename : Bytes} (h : containsIllegalChars filename = false)
    (env : Env) (nick : Option Bytes) (size id token : ℕ) (s : Client) :
    StartedAs b env filename s (endState (recvFileRequestReverse env nick filename size id token) s) :=
  recvFileWith_starts h (fun _ => ircDccAcceptReverse_moves env id _ _ nick filename size token)
    (fun _ _ => ircDccResumeReverse_moves id _ _ nick _ token) s

theorem withSession_changes (s : Client) (net : Net) (d : DccSession) :
    Changes b s (withSession s net d) := by
  have h := Change.sessions (b := b) s net (s.dccLastId + 1) (d :: s.dccSessions) (l := []) (by simp)
  rw [withSessions, List.append_nil] at h
  exact .single h

theorem acceptDccSend_starts {env : Env} {filename : Bytes} {ssl : Bool} {s : Client}
    (h : Startable env filename ssl s) (nick : Option Bytes) (ip size port : ℕ) :
    StartedAs b env filename s (endState (acceptDccSend env nick filename ip size port ssl) s) := by
  obtain ⟨sock, net, hnew⟩ := libircNewDccSession_run_of_canOpen h.1 ip port none
  have hsession := withSession_changes (b := b) s net (newSession s.dccLastId sock ip port none ssl)
  rw [acceptDccSend_eq, endState_bind_of_ok hnew]
  refine StartedAs.head hsession ?_
  refine StartedAs.trans (recvFileRequest_starts h.2 env nick size s.dccLastId _) ?_
  exact endState_bind_moves Changes.refl' (fun _ => modifySession_moves _ _) _

theorem acceptReverseDccSend_starts {env : Env} {filename : Bytes} {ssl : Bool} {s : Client}
    (h : Startable env filename ssl s) (hbind : env.bind = true) (hlisten : env.listen = true)
    (nick : Option Bytes) (ip size token : ℕ) :
    StartedAs b env filename s
      (endState (acceptReverseDccSend env nick filename ip size token ssl) s) := by
  obtain ⟨sock, net, hnew⟩ := libircNewDccSession_run_of_canOpen h.1 ip 0 none
  have hsession := withSession_changes (b := b) s net (newSession s.dccLastId sock ip 0 none ssl)
  rw [acceptReverseDccSend_eq, endState_bind_of_ok hnew]
  simp only [hbind, hlisten, Bool.not_true, Bool.false_eq_true, if_false]
  refine StartedAs.head hsession ?_
  refine StartedAs.head (modifySession_moves s.dccLastId
    (fun d => { d with passiveConnection := true, token := token }) _) ?_
  exact recvFileRequestReverse_starts h.2 env nick size s.dccLastId token _

theorem recvFileWith_moves_of_illegal {env : Env} {filename : Bytes} {size : ℕ}
    {accept : ℕ → ClientM ℕ} {resume : ℕ → ℕ → ClientM ℕ}
    (h : containsIllegalChars filename = true) :
    Moves (Changes b) (recvFileWith env filename size accept resume) := by
  intro s
  rw [endState_of_error (recvFileWith_run_of_illegal h)]

theorem not_startable_cases {env : Env} {filename : Bytes} {ssl : Bool} {s : Client}
    (h : ¬ Startable env filename ssl s) :
    ¬ CanOpen env ssl s ∨ (CanOpen env ssl s ∧ containsIllegalChars filename = true) := by
  by_cases hopen : CanOpen env ssl s
  · refine .inr ⟨hopen, ?_⟩
    by_contra hlegal
    exact h ⟨hopen, Bool.not_eq_true _ ▸ hlegal⟩
  · exact .inl hopen

theorem acceptDccSend_changes_of_not_startable {env : Env} {filename : Bytes} {ssl : Bool}
    {s : Client} (h : ¬ Startable env filename ssl s) (nick : Option Bytes) (ip size port : ℕ) :
    Changes b s (endState (acceptDccSend env nick filename ip size port ssl) s) := by
  rcases not_startable_cases h with hopen | ⟨hopen, hillegal⟩
  · rcases libircNewDccSession_run_of_not_canOpen hopen ip port none with hnew | hnew
    · rw [acceptDccSend_eq, endState_bind_of_ok hnew]
      exact setLasterror_moves _ s
    · rw [acceptDccSend_eq, endState_bind_of_error hnew]
  · obtain ⟨sock, net, hnew⟩ := libircNewDccSession_run_of_canOpen hopen ip port none
    have hsession := withSession_changes (b := b) s net (newSession s.dccLastId sock ip port none ssl)
    rw [acceptDccSend_eq, endState_bind_of_ok hnew]
    refine hsession.trans ?_
    refine moves_bind Changes.trans' (recvFileWith_moves_of_illegal hillegal) (fun _ => ?_) _
    exact modifySession_moves _ _

theorem acceptReverseDccSend_changes_of_not_startable {env : Env} {filename : Bytes} {ssl : Bool}
    {s : Client} (h : ¬ (Startable env filename ssl s ∧ env.bind = true ∧ env.listen = true))
    (nick : Option Bytes) (ip size token : ℕ) :
    Changes b s (endState (acceptReverseDccSend env nick filename ip size token ssl) s) := by
  by_cases hopen : CanOpen env ssl s
  · obtain ⟨sock, net, hnew⟩ := libircNewDccSession_run_of_canOpen hopen ip 0 none
    have hsession := withSession_changes (b := b) s net (newSession s.dccLastId sock ip 0 none ssl)
    rw [acceptReverseDccSend_eq, endState_bind_of_ok hnew]
    refine hsession.trans ?_
    have hfail (err : ℕ) : Moves (Changes b) (do setLasterror err; return : ClientM PUnit) :=
      moves_bind Changes.trans' (setLasterror_moves err) fun _ => moves_pure Changes.refl' _
    cases hbind : env.bind with
    | false =>
      simp only [Bool.not_false, if_true]
      exact moves_bind Changes.trans' (modifySession_moves _ _) (fun _ => hfail _) _
    | true =>
      cases hlisten : env.listen with
      | false =>
        simp only [Bool.not_false, Bool.not_true, Bool.false_eq_true, if_true, if_false]
        exact moves_bind Changes.trans' (modifySession_moves _ _) (fun _ => hfail _) _
      | true =>
        have hillegal : containsIllegalChars filename = true := by
          by_contra hlegal
          exact h ⟨⟨hopen, Bool.not_eq_true _ ▸ hlegal⟩, hbind, hlisten⟩
        simp only [Bool.not_true, Bool.false_eq_true, if_false]
        exact moves_bind Changes.trans' (modifySession_moves _ _)
          (fun _ => recvFileWith_moves_of_illegal hillegal) _
  · rcases libircNewDccSession_run_of_not_canOpen hopen ip 0 none with hnew | hnew
    · rw [acceptReverseDccSend_eq, endState_bind_of_ok hnew]
      exact setLasterror_moves _ s
    · rw [acceptReverseDccSend_eq, endState_bind_of_error hnew]

theorem step_eq_or {s : Client} (h : s.halted = none) (e : Event) :
    step s e = endState (handle e) s ∨
      ∃ fault, step s e = { endState (handle e) s with halted := some fault } := by
  unfold step endState
  rw [h]
  cases (handle e).run s with
  | ok a s' => exact .inl rfl
  | error fault s' => exact .inr ⟨fault, rfl⟩

theorem step_of_halted {s : Client} {fault : Halt} (h : s.halted = some fault) (e : Event) :
    step s e = s := by
  unfold step
  rw [h]

theorem step_changes_handle {s : Client} (h : s.halted = none) (e : Event) :
    Changes b (endState (handle e) s) (step s e) := by
  rcases step_eq_or h e with heq | ⟨fault, heq⟩
  · rw [heq]
  · rw [heq]
    exact .single (.halt _ fault)

theorem request_cases_as {s : Client} {env : Env} {nick : Option Bytes} {req : Bytes}
    (h : s.halted = none) :
    (StartsDownload s (.request env nick req) → ∃ filename,
      (dccRequestCall true req).filename = some filename ∧ containsIllegalChars filename = false ∧
        StartedAs b env filename s (endState (libircDccRequest env nick req) s)) ∧
    (¬ StartsDownload s (.request env nick req) →
      Changes b s (endState (libircDccRequest env nick req) s)) := by
  have hget : (get : ClientM Client).run s = .ok s s := rfl
  unfold libircDccRequest StartsDownload
  rw [endState_bind_of_ok hget]
  cases hnick : isValidRequestFromNick s.cfg nick with
  | none => exact ⟨fun hs => absurd (hnick.symm.trans hs.2.1) (by simp), fun _ => .refl⟩
  | some verified =>
    cases verified with
    | false => exact ⟨fun hs => absurd (hnick.symm.trans hs.2.1) (by simp), fun _ => .refl⟩
    | true =>
      simp only [h, hnick, true_and]
      cases dccRequestCall true req with
      | acceptReverseDccSend filename ip size token ssl =>
        refine ⟨fun hs => ⟨filename, rfl, hs.1.2, ?_⟩,
          fun hs => acceptReverseDccSend_changes_of_not_startable hs nick ip size token⟩
        exact acceptReverseDccSend_starts hs.1 hs.2.1 hs.2.2 nick ip size token
      | acceptDccSend filename ip size port ssl =>
        refine ⟨fun hs => ⟨filename, rfl, hs.2, ?_⟩,
          fun hs => acceptDccSend_changes_of_not_startable hs nick ip size port⟩
        exact acceptDccSend_starts hs nick ip size port
      | acceptResumeReverse size token =>
        exact ⟨fun hs => hs.elim, fun _ => acceptResumeReverse_moves env nick size token s⟩
      | acceptResume port size =>
        exact ⟨fun hs => hs.elim, fun _ => acceptResume_moves env port size s⟩
      | unhandled => exact ⟨fun hs => hs.elim, fun _ => .refl⟩
      | ignored => exact ⟨fun hs => hs.elim, fun _ => .refl⟩

theorem request_cases {s : Client} {env : Env} {nick : Option Bytes} {req : Bytes}
    (h : s.halted = none) :
    (StartsDownload s (.request env nick req) →
      StartThen b s (endState (libircDccRequest env nick req) s)) ∧
    (¬ StartsDownload s (.request env nick req) →
      Changes b s (endState (libircDccRequest env nick req) s)) := by
  refine ⟨fun hs => ?_, (request_cases_as h).2⟩
  obtain ⟨filename, -, -, hstarted⟩ := (request_cases_as h).1 hs
  exact hstarted.startThen

theorem step_starts_as {s : Client} {env : Env} {nick : Option Bytes} {req : Bytes}
    (h : StartsDownload s (.request env nick req)) : ∃ filename,
      (dccRequestCall true req).filename = some filename ∧ containsIllegalChars filename = false ∧
        StartedAs b env filename s (step s (.request env nick req)) := by
  obtain ⟨filename, hname, hlegal, hstarted⟩ := (request_cases_as h.1).1 h
  exact ⟨filename, hname, hlegal, hstarted.trans (step_changes_handle h.1 (.request env nick req))⟩

theorem step_starts {s : Client} {e : Event} (h : StartsDownload s e) : StartThen b s (step s e) := by
  cases e with
  | request env nick req =>
    obtain ⟨filename, -, -, hstarted⟩ := step_starts_as h
    exact hstarted.startThen
  | socket dccid ready => exact h.elim
  | addDescriptors => exact h.elim
  | outputTimer => exact h.elim

theorem step_changes {s : Client} {e : Event} (h : ¬ StartsDownload s e) :
    Changes true s (step s e) := by
  cases hs : s.halted with
  | some fault => rw [step_of_halted hs]
  | none =>
    refine Relation.ReflTransGen.trans ?_ (step_changes_handle hs e)
    cases e with
    | request env nick req => exact (request_cases hs).2 h
    | socket dccid ready =>
      refine moves_bind Changes.trans' lock_moves (fun _ => ?_) s
      exact moves_bind Changes.trans' (processDescriptor_moves dccid ready) fun _ => unlock_moves
    | addDescriptors => exact removeDccSessions_moves s
    | outputTimer => exact .single (.output s)

theorem changes_trace {s s' : Client} (h : Changes b s s') : ∃ l, s'.trace = s.trace ++ l := by
  induction h with
  | refl => exact ⟨[], (List.append_nil _).symm⟩
  | tail _ hc ih =>
    obtain ⟨l, hl⟩ := ih
    have hstep : ∀ t t' : Client, Change b t t' → ∃ l, t'.trace = t.trace ++ l := by
      intro t t' hc
      cases hc with
      | sessions net lastId ds hl => exact ⟨_, rfl⟩
      | chunk data hc hfd => exact ⟨_, rfl⟩
      | lost length hc hfd => exact ⟨_, rfl⟩
      | complete hb net hc hfd hsize hl => exact ⟨_, rfl⟩
      | rewind length hc hfd => exact ⟨[], (List.append_nil _).symm⟩
      | output => exact ⟨[], (List.append_nil _).symm⟩
      | halt fault => exact ⟨[], (List.append_nil _).symm⟩
    obtain ⟨l', hl'⟩ := hstep _ _ hc
    exact ⟨l ++ l', by rw [hl', hl, List.append_assoc]⟩

theorem step_keeps {inv : Client → Prop} (hchange : ∀ s s', inv s → Change true s s' → inv s')
    (hstart : ∀ s progress fd files, inv s → inv (withDownload s progress fd files)) (s : Client)
    (e : Event) (h : inv s) : inv (step s e) := by
  have hchanges : ∀ s s', inv s → Changes true s s' → inv s' := by
    intro s s' hs hc
    induction hc with
    | refl => exact hs
    | tail _ hc ih => exact hchange _ _ ih hc
  by_cases hstarts : StartsDownload s e
  · obtain ⟨t, progress, fd, files, ht, hs'⟩ := step_starts hstarts
    exact hchanges _ _ (hstart t progress fd files (hchanges s t h ht)) hs'
  · exact hchanges s _ h (step_changes hstarts)

theorem cfg_step (s : Client) (e : Event) : (step s e).cfg = s.cfg := by
  let inv : Client → Prop := fun t => t.cfg = s.cfg
  have hchange : ∀ t t', inv t → Change true t t' → inv t' := by
    intro t t' h hc
    cases hc <;> exact h
  have hstart : ∀ t progress fd files, inv t → inv (withDownload t progress fd files) :=
    fun _ _ _ _ h => h
  exact step_keeps hchange hstart s e rfl

end Xdccget.TableChanges
