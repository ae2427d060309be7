import Xdccget.DownloadSpecs

set_option autoImplicit false

/-!
# What the downloads leave alone

A download callback changes the contexts, the files and the counters, records
actions and may queue the quit line. A relation that allows this much holds from
the start to the end of each of them.
-/
namespace Xdccget.DownloadFrames
open CText ClientState DccSessions Downloads HaltingPrograms DownloadSpecs

/-- A relation that does not look at what belongs to the downloads. -/
structure Watches (R : Client → Client → Prop) : Prop where
  frame : Frame R
  aside : ∀ s t : Client, t.net.state = s.net.state → t.net.outgoing = s.net.outgoing →
    t.net.mutexDcc = s.net.mutexDcc → t.trace = s.trace → R s t
  recorded : ∀ a : Action, (∀ line, a ≠ .queued line) →
    (∀ id offset sent, a ≠ .acknowledged id offset sent) → Moves R (record a)
  quit : Moves R (ircSendRaw quitLine)

section downloads
variable {R : Client → Client → Prop}

theorem Watches.moves_modifyContext (W : Watches R) (context : ℕ)
    (f : DccDownloadContext → DccDownloadContext) : Moves R (modifyContext context f) :=
  moves_modify fun s => W.aside s _ rfl rfl rfl rfl

theorem Watches.moves_exitPgm (W : Watches R) : Moves R exitPgm := W.frame.throw _

theorem Watches.moves_openFile (W : Watches R) (env : Env) (context : ℕ) (path : Bytes)
    (append : Bool) : Moves R (openFile env context path append) := by
  intro s
  cases h : env.fopen with
  | true =>
    rw [endState_of_ok (openFile_run h s context path append)]
    exact W.aside s _ rfl rfl rfl rfl
  | false =>
    rw [endState_of_error (openFile_run_of_failure h s context path append)]
    exact W.frame.refl s

theorem Watches.moves_writeFile (W : Watches R) (context : ℕ) (data : Bytes) :
    Moves R (writeFile context data) := by
  refine W.frame.get_bind fun s => ?_
  cases s.downloadContext[context]? with
  | none => exact W.frame.throw _
  | some c =>
    obtain ⟨progress, fd⟩ := c
    cases fd with
    | none => exact W.frame.bind (W.recorded _ (by simp) (by simp)) fun _ => W.frame.throw _
    | some fd =>
      refine W.frame.bind (moves_modify fun s => W.aside s _ rfl rfl rfl rfl) fun _ => ?_
      exact W.frame.bind (W.moves_modifyContext _ _) fun _ => W.recorded _ (by simp) (by simp)

theorem Watches.moves_seekToResume (W : Watches R) (env : Env) (context length : ℕ) :
    Moves R (seekToResume env context length) := by
  have hseek : Moves R (seekFile env context length) := by
    refine W.frame.get_bind fun s => ?_
    cases s.downloadContext[context]? with
    | none => exact W.frame.throw _
    | some c =>
      obtain ⟨progress, fd⟩ := c
      cases fd with
      | none => exact W.frame.throw _
      | some fd => exact moves_ite (W.moves_modifyContext _ _) W.moves_exitPgm
  exact W.frame.bind hseek fun _ => W.moves_modifyContext _ _

theorem Watches.moves_downloadCompleted (W : Watches R) (context : ℕ) :
    Moves R (downloadCompleted context) := by
  have haside {f : Client → Client} (h : ∀ s, (f s).net.state = s.net.state ∧
      (f s).net.outgoing = s.net.outgoing ∧ (f s).net.mutexDcc = s.net.mutexDcc ∧
      (f s).trace = s.trace) : Moves R (modify f : ClientM PUnit) :=
    moves_modify fun s => W.aside s _ (h s).1 (h s).2.1 (h s).2.2.1 (h s).2.2.2
  unfold downloadCompleted
  refine W.frame.bind (haside fun _ => ⟨rfl, rfl, rfl, rfl⟩) fun _ => ?_
  refine W.frame.bind (W.moves_modifyContext _ _) fun _ => ?_
  refine W.frame.bind (haside fun _ => ⟨rfl, rfl, rfl, rfl⟩) fun _ => ?_
  refine W.frame.bind (W.moves_modifyContext _ _) fun _ => ?_
  refine W.frame.bind (haside fun _ => ⟨rfl, rfl, rfl, rfl⟩) fun _ => ?_
  refine W.frame.bind (W.recorded _ (by simp) (by simp)) fun _ => ?_
  refine W.frame.get_bind fun s => moves_ite ?_ (moves_ite ?_ (W.frame.pure _))
  · exact moves_ite (moves_discard W.quit) (W.frame.pure _)
  · cases ((s.cfg.dccDownloadArray.getD [])[0]?).bind (·.md5) with
    | none => exact W.frame.pure _
    | some md5 => exact W.recorded _ (by simp) (by simp)

theorem Watches.moves_callbackDccRecvFile (W : Watches R) (status : ℕ) (ctx : Option ℕ)
    (data : Option Bytes) (length : ℕ) : Moves R (callbackDccRecvFile status ctx data length) := by
  cases data with
  | none => exact W.frame.pure _
  | some data =>
    cases ctx with
    | none => exact W.frame.pure _
    | some context =>
      refine moves_ite (W.frame.pure _) (moves_ite (W.frame.pure _) ?_)
      refine W.frame.bind (W.moves_modifyContext _ _) fun _ => ?_
      refine W.frame.bind (W.moves_writeFile _ _) fun _ => ?_
      refine W.frame.get_bind fun s => ?_
      cases s.downloadContext[context]? with
      | none => exact W.frame.throw _
      | some c => exact moves_ite (W.moves_downloadCompleted _) (W.frame.pure _)

theorem Watches.moves_prepareRecvFileRequest (W : Watches R) (env : Env) (filename : Bytes)
    (size : ℕ) : Moves R (prepareRecvFileRequest env filename size) := by
  have hstore : Moves R (do
      let s ← get
      let context := s.downloadContext.length
      let progress := newDccProgress env (getCompletePath s.cfg filename) size
      record (.storeContext s.numActiveDownloads)
      modify fun s =>
        { s with
          downloadContext := s.downloadContext ++ [{ progress := progress, fd := none }]
          curDownload := some context
          numActiveDownloads := s.numActiveDownloads + 1 }
      return context : ClientM ℕ) :=
    W.frame.get_bind fun _ => W.frame.bind (W.recorded _ (by simp) (by simp)) fun _ =>
      W.frame.bind (moves_modify fun s => W.aside s _ rfl rfl rfl rfl) fun _ => W.frame.pure _
  exact moves_ite (W.frame.bind W.moves_exitPgm fun _ => hstore) hstore

end downloads

end Xdccget.DownloadFrames
