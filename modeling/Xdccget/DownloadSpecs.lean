import Xdccget.SessionSpecs

set_option autoImplicit false

/-!
# What the download callbacks do

The callbacks of `xdccget.c` change one download context, the files, the counters
and the trace, and no session but through the operations of `dcc.c`.
-/
namespace Xdccget.DownloadSpecs
open CText ClientState DccSessions Downloads HaltingPrograms SessionSpecs

@[simps]
def contextOp (s : Client) (context : ℕ) (g : DccDownloadContext → DccDownloadContext)
    (files : Bytes → Option Bytes) (l : List Action) : Client :=
  { s with
    downloadContext := s.downloadContext.modify context g
    files := files
    trace := s.trace ++ l }

def writtenFiles (files : Bytes → Option Bytes) (fd : FileIo) (data : Bytes) :
    Bytes → Option Bytes := fun path =>
  if path = fd.fileName then some (fwriteContent fd ((files path).getD []) data) else files path

def addRcvd (length : ℕ) (c : DccDownloadContext) : DccDownloadContext :=
  { c with progress := { c.progress with sizeRcvd := u64 (c.progress.sizeRcvd + length) } }

/-- What a chunk of `length` bytes leaves of an open context. -/
def receivedInto (fd : FileIo) (length : ℕ) (c : DccDownloadContext) : DccDownloadContext :=
  { progress := { c.progress with sizeRcvd := u64 (c.progress.sizeRcvd + length) }
    fd := some { fd with position := fd.position + length } }

theorem writeFile_run_of_closed {s : Client} {context : ℕ} {c : DccDownloadContext}
    (hc : s.downloadContext[context]? = some c) (hfd : c.fd = none) (data : Bytes) :
    (writeFile context data).run s =
      .error .nullFile { s with trace := s.trace ++ [.writeClosed context] } := by
  simp only [writeFile, EStateM.run_bind, EStateM.run_get, hc, hfd, record, EStateM.run_modify,
    run_throw_any]

theorem writeFile_run_of_open {s : Client} {context : ℕ} {c : DccDownloadContext} {fd : FileIo}
    (hc : s.downloadContext[context]? = some c) (hfd : c.fd = some fd) (data : Bytes) :
    (writeFile context data).run s =
      .ok ⟨⟩ (contextOp s context
        (fun c => { c with fd := some { fd with position := fd.position + data.length } })
        (writtenFiles s.files fd data) [.write context data]) := by
  simp only [writeFile, EStateM.run_bind, EStateM.run_get, hc, hfd, modifyContext, record,
    EStateM.run_modify]
  rfl

/-- What the end of a download adds to the trace behind its `finish`. -/
inductive CompletionActions (s : Client) : List Action → Prop
  | nothing : CompletionActions s []
  | quit (hverify : s.cfg.verifyChecksum = false)
      (hcount : s.finishedDownloads + 1 = s.numActiveDownloads) :
      CompletionActions s [.queued quitLine]
  | checksum (md5 : Bytes) (path : Option Bytes) (hverify : s.cfg.verifyChecksum = true)
      (hpath : path = (s.curDownload.bind (s.downloadContext[·]?)).map (·.progress.completePath)) :
      CompletionActions s [.startChecksum md5 path]

def closed (c : DccDownloadContext) : DccDownloadContext :=
  { progress := outputProgress c.progress, fd := none }

def pathAt (contexts : List DccDownloadContext) (context : ℕ) : Option Bytes :=
  (contexts[context]?).map (·.progress.completePath)

theorem pathAt_modify {g : DccDownloadContext → DccDownloadContext}
    (hg : ∀ c, (g c).progress.completePath = c.progress.completePath)
    (contexts : List DccDownloadContext) (context k : ℕ) :
    pathAt (contexts.modify context g) k = pathAt contexts k := by
  unfold pathAt
  rw [List.getElem?_modify, Option.map_eq_map, Option.map_map]
  congr 1
  funext c
  by_cases h : context = k <;> simp [h, hg]

theorem completePath_outputProgress (p : DccDownloadProgress) :
    (outputProgress p).completePath = p.completePath := by
  unfold outputProgress
  dsimp only
  split <;> rfl

theorem completePath_closed (c : DccDownloadContext) :
    (closed c).progress.completePath = c.progress.completePath :=
  completePath_outputProgress c.progress

theorem pathAt_output (contexts : List DccDownloadContext) (k : ℕ) :
    pathAt (contexts.map fun c => { c with progress := outputProgress c.progress }) k =
      pathAt contexts k := by
  unfold pathAt
  rw [List.getElem?_map, Option.map_map]
  congr 1
  funext c
  exact completePath_outputProgress c.progress

theorem map_path_modify_closed (pointer : Option ℕ) (contexts : List DccDownloadContext)
    (context : ℕ) :
    (pointer.bind ((contexts.modify context closed)[·]?)).map (·.progress.completePath) =
      (pointer.bind (contexts[·]?)).map (·.progress.completePath) := by
  cases pointer with
  | none => rfl
  | some k => exact pathAt_modify completePath_closed contexts context k

@[simps]
def completed (s : Client) (net : Net) (context : ℕ) (l : List Action) : Client :=
  { s with
    net := net
    downloadContext := s.downloadContext.modify context closed
    lastDownload := s.curDownload
    finishedDownloads := s.finishedDownloads + 1
    trace := s.trace ++ .finish context :: l }

theorem downloadCompleted_run (s : Client) (context : ℕ) :
    ∃ net l, (downloadCompleted context).run s = .ok ⟨⟩ (completed s net context l) ∧
      CompletionActions s l := by
  have hprogress : (s.downloadContext.modify context
      (fun c => { c with progress := outputProgress c.progress })).modify context
        (fun c => { c with fd := none }) = s.downloadContext.modify context closed := by
    rw [List.modify_modify_eq]
    rfl
  simp only [downloadCompleted, enableAlarm, modifyProgress, modifyContext, record,
    EStateM.run_bind, EStateM.run_modify, EStateM.run_get, hprogress]
  cases hv : s.cfg.verifyChecksum with
  | false =>
    by_cases hq : s.finishedDownloads + 1 = s.numActiveDownloads
    · obtain ⟨ret, net, l, hrun, hl⟩ := ircSendRaw_run quitLine
        { s with
          net := { s.net with alarm := false }
          downloadContext := s.downloadContext.modify context closed
          lastDownload := s.curDownload
          finishedDownloads := s.finishedDownloads + 1
          trace := s.trace ++ [.finish context] }
      have hdiscard := run_discard hrun
      refine ⟨net, l, ?_, ?_⟩
      · simp only [Bool.not_false, if_true, hq] at hdiscard ⊢
        rw [ircCmdQuit, hdiscard]
        simp [completed, hq]
      · rcases hl with rfl | rfl
        · exact .nothing
        · exact .quit hv hq
    · refine ⟨{ s.net with alarm := false }, [], ?_, .nothing⟩
      simp only [Bool.not_false, if_true, hq, if_false, EStateM.run_pure]
      rfl
  | true =>
    by_cases hn : s.cfg.numDownloads = 1
    · cases hm : ((s.cfg.dccDownloadArray.getD [])[0]?).bind (·.md5) with
      | none =>
        refine ⟨{ s.net with alarm := false }, [], ?_, .nothing⟩
        simp only [Bool.not_true, Bool.false_eq_true, if_false, hn, if_true, EStateM.run_pure]
        rfl
      | some md5 =>
        refine ⟨{ s.net with alarm := false }, _, ?_, .checksum md5
          ((s.curDownload.bind fun a => (s.downloadContext.modify context closed)[a]?).map
            (·.progress.completePath)) hv (map_path_modify_closed s.curDownload _ context)⟩
        simp only [Bool.not_true, Bool.false_eq_true, if_false, hn, if_true,
          EStateM.run_modify, List.append_assoc]
        rfl
    · refine ⟨{ s.net with alarm := false }, [], ?_, .nothing⟩
      simp only [Bool.not_true, Bool.false_eq_true, if_false, hn, EStateM.run_pure]
      rfl

theorem callbackDccRecvFile_run_of_none (status : ℕ) (ctx : Option ℕ) (length : ℕ) (s : Client) :
    (callbackDccRecvFile status ctx none length).run s = .ok ⟨⟩ s := rfl

section receiving
variable {s : Client} {context : ℕ} {c : DccDownloadContext} {data : Bytes}

theorem getElem?_modify_self (hc : s.downloadContext[context]? = some c)
    (g : DccDownloadContext → DccDownloadContext) :
    (s.downloadContext.modify context g)[context]? = some (g c) := by
  simp [hc]

theorem callbackDccRecvFile_run_of_closed (hc : s.downloadContext[context]? = some c)
    (hfd : c.fd = none) (hdata : 0 < data.length) :
    (callbackDccRecvFile libircErrOk (some context) (some data) data.length).run s =
      .error .nullFile (contextOp s context (addRcvd data.length) s.files
        [.writeClosed context]) := by
  have hwrite := writeFile_run_of_closed
    (s := { s with downloadContext := s.downloadContext.modify context (addRcvd data.length) })
    (getElem?_modify_self hc _) hfd data
  unfold addRcvd at hwrite
  have hlen : data.length ≠ 0 := by omega
  simp only [callbackDccRecvFile, hlen, if_false, libircErrOk, ne_eq, not_true_eq_false,
    modifyProgress, modifyContext, EStateM.run_bind, EStateM.run_modify, hwrite]
  rfl

theorem callbackDccRecvFile_run_of_missing (hc : s.downloadContext[context]? = none)
    (hdata : 0 < data.length) :
    (callbackDccRecvFile libircErrOk (some context) (some data) data.length).run s =
      .error .nullContext s := by
  have hmodify (g : DccDownloadContext → DccDownloadContext) :
      s.downloadContext.modify context g = s.downloadContext :=
    List.modify_eq_self (List.getElem?_eq_none_iff.mp hc)
  have hlen : data.length ≠ 0 := by omega
  simp only [callbackDccRecvFile, hlen, if_false, libircErrOk, ne_eq, not_true_eq_false,
    modifyProgress, modifyContext, EStateM.run_bind, EStateM.run_modify, hmodify, writeFile,
    EStateM.run_get, hc, run_throw_any]

def chunkOp (s : Client) (context : ℕ) (fd : FileIo) (data : Bytes) : Client :=
  contextOp s context (receivedInto fd data.length) (writtenFiles s.files fd data)
    [.write context data]

theorem callbackDccRecvFile_run_of_open {fd : FileIo} (hc : s.downloadContext[context]? = some c)
    (hfd : c.fd = some fd) (hdata : 0 < data.length) :
    (callbackDccRecvFile libircErrOk (some context) (some data) data.length).run s =
      (if u64 (c.progress.sizeRcvd + data.length) = c.progress.completeFileSize then
        downloadCompleted context else pure ⟨⟩ : ClientM Unit).run (chunkOp s context fd data) := by
  have hwrite := writeFile_run_of_open
    (s := { s with downloadContext := s.downloadContext.modify context (addRcvd data.length) })
    (getElem?_modify_self hc _) hfd data
  have hstate : contextOp
      { s with downloadContext := s.downloadContext.modify context (addRcvd data.length) } context
        (fun c => { c with fd := some { fd with position := fd.position + data.length } })
        (writtenFiles s.files fd data) [.write context data] = chunkOp s context fd data := by
    simp only [chunkOp, contextOp, List.modify_modify_eq]
    rfl
  have hget := getElem?_modify_self hc (receivedInto fd data.length)
  unfold addRcvd at hwrite hstate
  have hlen : data.length ≠ 0 := by omega
  simp only [callbackDccRecvFile, hlen, if_false, libircErrOk, ne_eq, not_true_eq_false,
    modifyProgress, modifyContext, EStateM.run_bind, EStateM.run_modify, hwrite, hstate,
    EStateM.run_get, chunkOp, contextOp_downloadContext, hget]
  rfl

theorem callbackDccRecvFile_run_of_unfinished {fd : FileIo} (hc : s.downloadContext[context]? = some c)
    (hfd : c.fd = some fd) (hdata : 0 < data.length)
    (hsize : u64 (c.progress.sizeRcvd + data.length) ≠ c.progress.completeFileSize) :
    (callbackDccRecvFile libircErrOk (some context) (some data) data.length).run s =
      .ok ⟨⟩ (chunkOp s context fd data) := by
  rw [callbackDccRecvFile_run_of_open hc hfd hdata, if_neg hsize]
  rfl

theorem callbackDccRecvFile_run_of_last {fd : FileIo} (hc : s.downloadContext[context]? = some c)
    (hfd : c.fd = some fd) (hdata : 0 < data.length)
    (hsize : u64 (c.progress.sizeRcvd + data.length) = c.progress.completeFileSize) :
    ∃ net l, (callbackDccRecvFile libircErrOk (some context) (some data) data.length).run s =
        .ok ⟨⟩ (completed (chunkOp s context fd data) net context l) ∧
      CompletionActions (chunkOp s context fd data) l := by
  obtain ⟨net, l, hrun, hl⟩ := downloadCompleted_run (chunkOp s context fd data) context
  refine ⟨net, l, ?_, hl⟩
  rw [callbackDccRecvFile_run_of_open hc hfd hdata, if_pos hsize, hrun]

end receiving

/-- What a resume acknowledgement for `length` leaves of an open context. -/
def rewound (fd : FileIo) (length : ℕ) (c : DccDownloadContext) : DccDownloadContext :=
  { progress := { c.progress with sizeRcvd := length, sizeNow := length, sizeLast := length }
    fd := some { fd with position := length } }

theorem seekToResume_run_of_open {s : Client} {context : ℕ} {c : DccDownloadContext} {fd : FileIo}
    {env : Env} {length : ℕ} (hc : s.downloadContext[context]? = some c) (hfd : c.fd = some fd)
    (hseek : env.fseek = true ∧ length < 2 ^ 63) :
    (seekToResume env context length).run s =
      .ok ⟨⟩ { s with downloadContext := s.downloadContext.modify context (rewound fd length) } := by
  simp only [seekToResume, seekFile, EStateM.run_bind, EStateM.run_get, hc, hfd, if_pos hseek,
    modifyProgress, modifyContext, EStateM.run_modify, List.modify_modify_eq]
  rfl

theorem seekToResume_run_of_refused {s : Client} {context : ℕ} {c : DccDownloadContext} {fd : FileIo}
    {env : Env} {length : ℕ} (hc : s.downloadContext[context]? = some c) (hfd : c.fd = some fd)
    (hseek : ¬ (env.fseek = true ∧ length < 2 ^ 63)) :
    (seekToResume env context length).run s = .error .exitPgm s := by
  simp only [seekToResume, seekFile, EStateM.run_bind, EStateM.run_get, hc, hfd, if_neg hseek]
  rfl

theorem seekToResume_run_cases (env : Env) (context length : ℕ) (s : Client) :
    (∃ fault, (seekToResume env context length).run s = .error fault s) ∨
      ∃ c fd, s.downloadContext[context]? = some c ∧ c.fd = some fd ∧
        (seekToResume env context length).run s = .ok ⟨⟩
          { s with downloadContext := s.downloadContext.modify context (rewound fd length) } := by
  cases hc : s.downloadContext[context]? with
  | none => exact .inl ⟨.nullContext, by simp [seekToResume, seekFile, hc]⟩
  | some c =>
    cases hfd : c.fd with
    | none => exact .inl ⟨.nullFile, by simp [seekToResume, seekFile, hc, hfd]⟩
    | some fd =>
      by_cases hseek : env.fseek = true ∧ length < 2 ^ 63
      · exact .inr ⟨c, fd, rfl, hfd, seekToResume_run_of_open hc hfd hseek⟩
      · exact .inl ⟨.exitPgm, seekToResume_run_of_refused hc hfd hseek⟩

/-- The context as `Open` leaves it. -/
def opened (path : Bytes) (append : Bool) (c : DccDownloadContext) : DccDownloadContext :=
  { c with fd := some { fileName := path, append := append, position := 0 } }

def openedFiles (files : Bytes → Option Bytes) (path : Bytes) (append : Bool) :
    Bytes → Option Bytes :=
  if append then files else fun p => if p = path then some [] else files p

theorem openFile_run {env : Env} (h : env.fopen = true) (s : Client) (context : ℕ) (path : Bytes)
    (append : Bool) :
    (openFile env context path append).run s =
      .ok ⟨⟩ { s with
        downloadContext := s.downloadContext.modify context (opened path append)
        files := openedFiles s.files path append } := by
  cases append with
  | true =>
    simp only [openFile, h, modifyContext, openedFiles]
    rfl
  | false =>
    simp only [openFile, h, modifyContext, openedFiles]
    rfl

theorem openFile_run_of_failure {env : Env} (h : env.fopen = false) (s : Client) (context : ℕ)
    (path : Bytes) (append : Bool) :
    (openFile env context path append).run s = .error .exitPgm s := by
  simp [openFile, h, exitPgm]

@[simps]
def withDownload (s : Client) (progress : DccDownloadProgress) (fd : Option FileIo)
    (files : Bytes → Option Bytes) : Client :=
  { s with
    downloadContext := s.downloadContext ++ [{ progress := progress, fd := fd }]
    curDownload := some s.downloadContext.length
    numActiveDownloads := s.numActiveDownloads + 1
    files := files
    trace := s.trace ++ [.storeContext s.numActiveDownloads] }

theorem prepareRecvFileRequest_run {filename : Bytes} (h : containsIllegalChars filename = false)
    (env : Env) (size : ℕ) (s : Client) :
    (prepareRecvFileRequest env filename size).run s =
      .ok s.downloadContext.length (withDownload s
        (newDccProgress env (getCompletePath s.cfg filename) size) none s.files) := by
  simp only [prepareRecvFileRequest, h, Bool.false_eq_true, if_false, record, EStateM.run_bind,
    EStateM.run_get, EStateM.run_modify, EStateM.run_pure]
  rfl

theorem prepareRecvFileRequest_run_of_illegal {filename : Bytes}
    (h : containsIllegalChars filename = true) (env : Env) (size : ℕ) (s : Client) :
    (prepareRecvFileRequest env filename size).run s = .error .exitPgm s := by
  simp [prepareRecvFileRequest, h, exitPgm]

section requests
variable {s : Client} {env : Env} {filename : Bytes} {size : ℕ} {accept : ℕ → ClientM ℕ}
  {resume : ℕ → ℕ → ClientM ℕ}

theorem recvFileWith_run_of_illegal (h : containsIllegalChars filename = true) :
    (recvFileWith env filename size accept resume).run s = .error .exitPgm s := by
  rw [recvFileWith, run_bind_of_error (prepareRecvFileRequest_run_of_illegal h env size s)]

theorem recvFileWith_run_of_unopened (h : containsIllegalChars filename = false)
    (hopen : env.fopen = false) :
    (recvFileWith env filename size accept resume).run s =
      .error .exitPgm (withDownload s
        (newDccProgress env (getCompletePath s.cfg filename) size) none s.files) := by
  rw [recvFileWith, run_bind_of_ok (prepareRecvFileRequest_run h env size s)]
  simp only [EStateM.run_bind, EStateM.run_get, withDownload_cfg, withDownload_files]
  cases hf : s.files (getCompletePath s.cfg filename) with
  | none => simp only [EStateM.run_bind, openFile_run_of_failure hopen]
  | some content => simp only [EStateM.run_bind, openFile_run_of_failure hopen]

def started (s : Client) (env : Env) (filename : Bytes) (size : ℕ) (append : Bool) : Client :=
  let path := getCompletePath s.cfg filename
  withDownload s (newDccProgress env path size)
    (some { fileName := path, append := append, position := 0 }) (openedFiles s.files path append)

theorem modify_append_singleton {α : Type} (l : List α) (a : α) (g : α → α) :
    (l ++ [a]).modify l.length g = l ++ [g a] := by
  induction l with
  | nil => rfl
  | cons b l ih => simp [ih]

theorem openFile_run_withDownload (hopen : env.fopen = true) (append : Bool) :
    (openFile env s.downloadContext.length (getCompletePath s.cfg filename) append).run
        (withDownload s (newDccProgress env (getCompletePath s.cfg filename) size) none s.files) =
      .ok ⟨⟩ (started s env filename size append) := by
  rw [openFile_run hopen]
  simp only [withDownload, started, modify_append_singleton]
  rfl

theorem recvFileWith_run_of_missing (h : containsIllegalChars filename = false)
    (hopen : env.fopen = true) (hf : s.files (getCompletePath s.cfg filename) = none) :
    (recvFileWith env filename size accept resume).run s =
      (exitOnFailure (accept s.downloadContext.length)).run
        (started s env filename size false) := by
  rw [recvFileWith, run_bind_of_ok (prepareRecvFileRequest_run h env size s)]
  simp only [EStateM.run_bind, EStateM.run_get, withDownload_cfg, withDownload_files, hf,
    openFile_run_withDownload hopen]

/-- A file that exists is opened for appending; it ends the process when it has the announced
    size, is received from the start when it is empty, and resumed otherwise. -/
theorem recvFileWith_run_of_existing (h : containsIllegalChars filename = false)
    (hopen : env.fopen = true) {content : Bytes}
    (hf : s.files (getCompletePath s.cfg filename) = some content) :
    (recvFileWith env filename size accept resume).run s =
      (if size = content.length then exitPgm
        else if content.length = 0 then exitOnFailure (accept s.downloadContext.length)
        else exitOnFailure (resume s.downloadContext.length content.length)).run
        (started s env filename size true) := by
  rw [recvFileWith, run_bind_of_ok (prepareRecvFileRequest_run h env size s)]
  simp only [EStateM.run_bind, EStateM.run_get, withDownload_cfg, withDownload_files, hf,
    openFile_run_withDownload hopen]
  by_cases hsize : size = content.length
  · simp [hsize, exitPgm]
  · simp only [hsize, if_false]

end requests

theorem exitOnFailure_run_of_ok {call : ClientM ℕ} {s s' : Client} (h : call.run s = .ok 0 s') :
    (exitOnFailure call).run s = .ok ⟨⟩ s' := by
  simp [exitOnFailure, h]

theorem exitOnFailure_run_of_failure {call : ClientM ℕ} {s s' : Client} {ret : ℕ}
    (h : call.run s = .ok ret s') (hret : ret ≠ 0) :
    (exitOnFailure call).run s = .error .exitPgm s' := by
  simp [exitOnFailure, h, hret, exitPgm]

end Xdccget.DownloadSpecs
