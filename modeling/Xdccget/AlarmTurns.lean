import Xdccget.QuitTiming
import Xdccget.ProgramRelations

set_option autoImplicit false

/-!
# Turns with the timer

The timer queue of `os_windows.c`, with the handlers that arm and disarm it. A timer is
armed for one shot, the tick arms the next one, and a download that is complete deletes
both the timer and the queue. As long as no call of the system fails, the turns are
those of `DccEvents`.
-/
namespace Xdccget.AlarmTurns
open ClientState Downloads HaltingPrograms SessionSpecs DownloadSpecs TableChanges ProgramRelations
open DccEvents (SocketReady noEnv)
open SocketTurns (Turn)

inductive TimerApi
  | createTimerQueueTimer | deleteTimerQueueTimer | deleteTimerQueueEx
  deriving DecidableEq, Repr

structure TimerCall where
  api : TimerApi
  onDeleted : Bool
  deriving DecidableEq, Repr

structure WinApi where
  createTimerQueueTimer : Bool
  deleteTimerQueueTimer : Bool
  deleteTimerQueueEx : Bool

/-- `hTimer` and `hTimerQueue`, with what the system keeps behind the handles: the timers that
    wait for their time and the routines that have been started and not run yet. -/
structure Timers where
  hTimer : ℕ
  created : ℕ
  waiting : List ℕ
  ticks : ℕ
  deletedTimers : List ℕ
  queueDeleted : Bool
  outputFlag : Bool
  calls : List TimerCall
  deriving DecidableEq, Repr

structure AlarmClient where
  client : Client
  timers : Timers

abbrev AlarmM := EStateM Halt AlarmClient

def onClient {α : Type} (x : ClientM α) : AlarmM α :=
  zoom id AlarmClient.client (fun c s => { s with client := c }) x

def modifyTimers (f : Timers → Timers) : AlarmM Unit := modify fun s => { s with timers := f s.timers }

def timerGone (t : Timers) : Bool := t.queueDeleted || t.deletedTimers.contains t.hTimer

/-- A call on a deleted handle fails. -/
def callApi (api : TimerApi) (onDeleted answer : Bool) : AlarmM Bool := do
  modifyTimers fun t => { t with calls := t.calls ++ [{ api := api, onDeleted := onDeleted }] }
  return !onDeleted && answer

def createTimerQueueTimer (w : WinApi) (seconds : ℕ) : AlarmM Unit := do
  let t := (← get).timers
  if 0 < seconds then
    if !(← callApi .createTimerQueueTimer t.queueDeleted w.createTimerQueueTimer) then
      throw .exitPgm
    modifyTimers fun t =>
      { t with hTimer := t.created, created := t.created + 1, waiting := t.created :: t.waiting }
  else
    if !(← callApi .deleteTimerQueueTimer (timerGone t) w.deleteTimerQueueTimer) then
      throw .exitPgm
    modifyTimers fun t =>
      { t with waiting := t.waiting.erase t.hTimer, deletedTimers := t.hTimer :: t.deletedTimers }
    if !(← callApi .deleteTimerQueueEx t.queueDeleted w.deleteTimerQueueEx) then
      throw .exitPgm
    modifyTimers fun t => { t with waiting := [], queueDeleted := true }

def enableAlarm (w : WinApi) (seconds : ℕ) : AlarmM Unit := createTimerQueueTimer w seconds

def outputHandler (w : WinApi) : AlarmM Unit := do
  enableAlarm w 1
  modifyTimers fun t => { t with outputFlag := true }

/-- The end of `callback_dcc_recv_file`, with the timer that its first line deletes. -/
def downloadCompleted (w : WinApi) (context : ℕ) : AlarmM Unit := do
  enableAlarm w 0
  onClient (Downloads.downloadCompleted context)

def callbackDccRecvFile (w : WinApi) (status : ℕ) (ctx : Option ℕ) (data : Option CText.Bytes)
    (length : ℕ) : AlarmM Unit := do
  match data, ctx with
  | none, _ => return
  | some _, none => return
  | some data, some context =>
    if length = 0 then
      return
    if status ≠ 0 then
      return
    onClient (modifyProgress context fun p => { p with sizeRcvd := u64 (p.sizeRcvd + length) })
    onClient (writeFile context data)
    match (← get).client.downloadContext[context]? with
    | none => throw .nullContext
    | some c =>
      if c.progress.sizeRcvd = c.progress.completeFileSize then
        downloadCompleted w context

def callCb (w : WinApi) (env : Env) (dccid status : ℕ) (data : Option CText.Bytes) (length : ℕ) :
    AlarmM Unit := do
  match (← get).client.dccSessions.find? (fun d => d.id = dccid) with
  | none => return
  | some dcc =>
    onClient (record (.call dccid (dcc.cb.map .data)))
    match dcc.cb with
    | none => throw .nullCallback
    | some .callbackDccRecvFile => callbackDccRecvFile w status dcc.ctx data length
    | some .callbackDccResumeFile => onClient (callbackDccResumeFile env dccid dcc.ctx length)

def turn (dccid : ℕ) : Turn AlarmM where
  lock := onClient libircMutexLock
  unlock := onClient libircMutexUnlock
  noted a x := do onClient (record (a dccid)); x
  modify f := onClient (modifySession dccid f)
  withConfig k := do k (← get).client.cfg
  destroy := onClient (DccSessions.libircDccDestroyNolock dccid)

def processDescriptor (w : WinApi) (dccid : ℕ) (ready : SocketReady) : AlarmM Unit := do
  match ← onClient (DccSessions.libircFindDccSession dccid false) with
  | none => return
  | some dcc => (turn dcc.id).processDescriptor dcc (ready.turn (callCb w noEnv dcc.id))

/-- The part of `print_output_callback` that the timer asks for. -/
def printOutputCallback : AlarmM Unit := do
  if (← get).timers.outputFlag then
    onClient outputAllProgesses
    modifyTimers fun t => { t with outputFlag := false }

/-- `expire` is the end of a wait, `timerRoutine` the call of the routine in the timer thread. -/
inductive Event
  | expire (timer : ℕ)
  | timerRoutine (w : WinApi)
  | turn (e : DccEvents.Event) (w : WinApi)

def handle : Event → AlarmM Unit
  | .expire timer =>
    modifyTimers fun t =>
      if t.waiting.contains timer then
        { t with waiting := t.waiting.erase timer, ticks := t.ticks + 1 }
      else t
  | .timerRoutine w => do
    if (← get).timers.ticks = 0 then
      return
    modifyTimers fun t => { t with ticks := t.ticks - 1 }
    outputHandler w
  | .turn (.socket dccid ready) w => do
    onClient libircMutexLock
    processDescriptor w dccid ready
    onClient libircMutexUnlock
  | .turn .outputTimer _ => printOutputCallback
  | .turn e _ => onClient (DccEvents.handle e)

def step (s : AlarmClient) (e : Event) : AlarmClient :=
  match s.client.halted with
  | some _ => s
  | none =>
    match (handle e).run s with
    | .ok _ s' => s'
    | .error h s' => { s' with client := { s'.client with halted := some h } }

def initial (cfg : XdccGetConfig) (net : Net) (files : CText.Bytes → Option CText.Bytes) : AlarmClient :=
  { client := DccEvents.initial cfg net files
    timers :=
      { hTimer := 0, created := 1, waiting := [0], ticks := 0, deletedTimers := [],
        queueDeleted := false, outputFlag := false, calls := [] } }

def disarmed (t : Timers) : Timers :=
  { t with
    waiting := []
    deletedTimers := t.hTimer :: t.deletedTimers
    queueDeleted := true
    calls := t.calls ++
      [⟨.deleteTimerQueueTimer, timerGone t⟩, ⟨.deleteTimerQueueEx, t.queueDeleted⟩] }

def DisarmFails (t t' : Timers) : Prop :=
  t'.calls = t.calls ++ [⟨.deleteTimerQueueTimer, timerGone t⟩] ∨ t'.calls = (disarmed t).calls

theorem enableAlarm_zero_run (w : WinApi) (s : AlarmClient) :
    (enableAlarm w 0).run s = .ok ⟨⟩ { s with timers := disarmed s.timers } ∨
      ∃ t, (enableAlarm w 0).run s = .error .exitPgm { s with timers := t } ∧
        DisarmFails s.timers t := by
  have hget : (get : AlarmM AlarmClient).run s = .ok s s := rfl
  rw [enableAlarm, createTimerQueueTimer, run_bind_of_ok hget]
  dsimp only
  rw [if_neg (lt_irrefl 0)]
  cases hfirst : !timerGone s.timers && w.deleteTimerQueueTimer with
  | false =>
    refine .inr ⟨{ s.timers with
      calls := s.timers.calls ++ [⟨.deleteTimerQueueTimer, timerGone s.timers⟩] }, ?_, .inl rfl⟩
    simp [callApi, modifyTimers, hfirst]
  | true =>
    cases hsecond : !s.timers.queueDeleted && w.deleteTimerQueueEx with
    | false =>
      refine .inr ⟨{ s.timers with
        waiting := s.timers.waiting.erase s.timers.hTimer
        deletedTimers := s.timers.hTimer :: s.timers.deletedTimers
        calls := (disarmed s.timers).calls }, ?_, .inr rfl⟩
      simp [callApi, modifyTimers, hfirst, hsecond, disarmed]
    | true =>
      refine .inl ?_
      simp [callApi, modifyTimers, hfirst, hsecond, disarmed]

/-- So many downloads were counted as finished, and the timer was deleted as often. -/
def Disarms (s s' : AlarmClient) : Prop :=
  ∃ k, s'.client.finishedDownloads = s.client.finishedDownloads + k ∧
    s'.timers = disarmed^[k] s.timers

/-- The program does on the client what the other does. It may exit early where the timer cannot
    be deleted, with a download that is not counted yet. -/
def ShadowsAt {α : Type} (x : AlarmM α) (y : ClientM α) (s : AlarmClient) : Prop :=
  s.client.finishedDownloads ≤ (endState y s.client).finishedDownloads ∧
    match x.run s with
    | .ok a s' => y.run s.client = .ok a s'.client ∧ Disarms s s'
    | .error fault s' => y.run s.client = .error fault s'.client ∧ Disarms s s' ∨
        fault = .exitPgm ∧ ∃ t, Disarms s t ∧ DisarmFails t.timers s'.timers ∧
          t.client.finishedDownloads < (endState y s.client).finishedDownloads

def Shadows {α : Type} (x : AlarmM α) (y : ClientM α) : Prop := ∀ s, ShadowsAt x y s

section shadows
variable {α β : Type}

theorem disarms_refl (s : AlarmClient) : Disarms s s := ⟨0, rfl, rfl⟩

theorem Disarms.trans {s t u : AlarmClient} (h : Disarms s t) (h' : Disarms t u) : Disarms s u := by
  obtain ⟨k, hcount, htimers⟩ := h
  obtain ⟨k', hcount', htimers'⟩ := h'
  refine ⟨k' + k, by omega, ?_⟩
  rw [htimers', htimers, Function.iterate_add_apply]

theorem shadows_bind {x : AlarmM β} {y : ClientM β} {f : β → AlarmM α} {g : β → ClientM α}
    (hx : Shadows x y) (hf : ∀ b, Shadows (f b) (g b)) : Shadows (x >>= f) (y >>= g) := by
  intro s
  obtain ⟨hle, h⟩ := hx s
  cases hrun : x.run s with
  | ok b s' =>
    rw [hrun] at h
    obtain ⟨hy, hs'⟩ := h
    obtain ⟨hle', h'⟩ := hf b s'
    rw [endState_of_ok hy] at hle
    unfold ShadowsAt
    rw [run_bind_of_ok hrun, run_bind_of_ok hy, endState_bind_of_ok hy]
    refine ⟨hle.trans hle', ?_⟩
    cases hrun' : (f b).run s' with
    | ok a s'' =>
      rw [hrun'] at h'
      exact ⟨h'.1, hs'.trans h'.2⟩
    | error fault s'' =>
      rw [hrun'] at h'
      rcases h' with ⟨hg, hs''⟩ | ⟨hfault, t, ht, hfails, hlt⟩
      · exact .inl ⟨hg, hs'.trans hs''⟩
      · exact .inr ⟨hfault, t, hs'.trans ht, hfails, hlt⟩
  | error fault s' =>
    rw [hrun] at h
    unfold ShadowsAt
    rw [run_bind_of_error hrun]
    have hmono : (endState y s.client).finishedDownloads ≤
        (endState (y >>= g) s.client).finishedDownloads := by
      cases hy : y.run s.client with
      | ok b c =>
        rw [endState_of_ok hy, endState_bind_of_ok hy]
        exact (hf b { s with client := c }).1
      | error fault c => rw [endState_of_error hy, endState_bind_of_error hy]
    refine ⟨hle.trans hmono, ?_⟩
    rcases h with ⟨hy, hs'⟩ | ⟨hfault, t, ht, hfails, hlt⟩
    · exact .inl ⟨run_bind_of_error hy, hs'⟩
    · exact .inr ⟨hfault, t, ht, hfails, hlt.trans_le hmono⟩

theorem shadows_pure (a : α) : Shadows (pure a) (pure a) :=
  fun s => ⟨le_refl s.client.finishedDownloads, rfl, disarms_refl s⟩

theorem shadows_throw (fault : Halt) : Shadows (throw fault : AlarmM α) (throw fault) :=
  fun s => ⟨le_refl s.client.finishedDownloads, .inl ⟨rfl, disarms_refl s⟩⟩

theorem shadows_ite {c : Prop} [Decidable c] {x x' : AlarmM α} {y y' : ClientM α}
    (hthen : c → Shadows x y) (helse : ¬ c → Shadows x' y') :
    Shadows (if c then x else x') (if c then y else y') := by
  by_cases h : c
  · rw [if_pos h, if_pos h]
    exact hthen h
  · rw [if_neg h, if_neg h]
    exact helse h

theorem shadows_get_bind {f : AlarmClient → AlarmM α} {g : Client → ClientM α}
    (h : ∀ s, Shadows (f s) (g s.client)) : Shadows (get >>= f) (get >>= g) := fun s => h s s

theorem shadowsAt_client {x : ClientM α} {s : AlarmClient}
    (hsame : (endState x s.client).finishedDownloads = s.client.finishedDownloads) :
    ShadowsAt (onClient x) x s := by
  refine ⟨hsame.ge, ?_⟩
  rw [onClient, zoom_run]
  cases hrun : x.run s.client with
  | ok a c =>
    rw [endState_of_ok hrun] at hsame
    exact ⟨rfl, 0, hsame, rfl⟩
  | error fault c =>
    rw [endState_of_error hrun] at hsame
    exact .inl ⟨rfl, 0, hsame, rfl⟩

theorem shadows_client {x : ClientM α}
    (h : Moves (fun c c' => c'.finishedDownloads = c.finishedDownloads) x) :
    Shadows (onClient x) x := fun s => shadowsAt_client (h s.client)

theorem finished_of_changes {x : ClientM α} (h : Moves (Changes false) x) :
    Moves (fun c c' => c'.finishedDownloads = c.finishedDownloads) x :=
  fun s => (QuitTiming.quiet_of_changes (h s)).1

theorem downloadCompleted_shadows (w : WinApi) (context : ℕ) :
    Shadows (downloadCompleted w context) (Downloads.downloadCompleted context) := by
  intro s
  obtain ⟨net, l, hrun, -⟩ := downloadCompleted_run s.client context
  have hcount : (endState (Downloads.downloadCompleted context) s.client).finishedDownloads =
      s.client.finishedDownloads + 1 := by
    rw [endState_of_ok hrun]
    rfl
  refine ⟨hcount ▸ Nat.le_succ _, ?_⟩
  rcases enableAlarm_zero_run w s with hok | ⟨t, hfail, hfails⟩
  · rw [downloadCompleted, run_bind_of_ok hok, onClient, zoom_run, hrun]
    exact ⟨rfl, 1, rfl, rfl⟩
  · rw [downloadCompleted, run_bind_of_error hfail]
    exact .inr ⟨rfl, s, disarms_refl s, hfails, hcount ▸ Nat.lt_succ_self _⟩

theorem writeFile_finishes (context : ℕ) (data : CText.Bytes) :
    Moves (fun c c' => c'.finishedDownloads = c.finishedDownloads) (writeFile context data) := by
  have hrefl : ∀ c : Client, c.finishedDownloads = c.finishedDownloads := fun _ => rfl
  have htrans : ∀ c c' c'' : Client, c'.finishedDownloads = c.finishedDownloads →
      c''.finishedDownloads = c'.finishedDownloads → c''.finishedDownloads = c.finishedDownloads :=
    fun _ _ _ h h' => h'.trans h
  refine moves_bind htrans (moves_get hrefl) fun c => ?_
  cases c.downloadContext[context]? with
  | none => exact moves_throw hrefl _
  | some k =>
    dsimp only
    cases k.fd with
    | none => exact moves_bind htrans (moves_modify fun _ => rfl) fun _ => moves_throw hrefl _
    | some fd =>
      refine moves_bind htrans (moves_modify fun _ => rfl) fun _ => ?_
      exact moves_bind htrans (moves_modify fun _ => rfl) fun _ => moves_modify fun _ => rfl

theorem callbackDccRecvFile_shadows (w : WinApi) (status : ℕ) (ctx : Option ℕ)
    (data : Option CText.Bytes) (length : ℕ) :
    Shadows (callbackDccRecvFile w status ctx data length)
      (Downloads.callbackDccRecvFile status ctx data length) := by
  cases data with
  | none => exact shadows_pure ()
  | some data =>
    cases ctx with
    | none => exact shadows_pure ()
    | some context =>
      refine shadows_ite (fun _ => shadows_pure ()) fun _ => ?_
      refine shadows_ite (fun _ => shadows_pure ()) fun _ => ?_
      refine shadows_bind (shadows_client (moves_modify fun _ => rfl)) fun _ => ?_
      refine shadows_bind (shadows_client (writeFile_finishes context data)) fun _ => ?_
      refine shadows_get_bind fun s => ?_
      cases s.client.downloadContext[context]? with
      | none => exact shadows_throw _
      | some c =>
        exact shadows_ite (fun _ => downloadCompleted_shadows w context) fun _ => shadows_pure ()

theorem record_finishes (a : Action) :
    Moves (fun c c' => c'.finishedDownloads = c.finishedDownloads) (record a) :=
  moves_modify fun _ => rfl

theorem callCb_shadows (w : WinApi) (env : Env) (dccid status : ℕ) (data : Option CText.Bytes)
    (length : ℕ) :
    Shadows (callCb w env dccid status data length) (DccEvents.callCb env dccid status data length) := by
  refine shadows_get_bind fun s => ?_
  cases s.client.dccSessions.find? (fun d => decide (d.id = dccid)) with
  | none => exact shadows_pure ()
  | some dcc =>
    refine shadows_bind (shadows_client (record_finishes _)) fun _ => ?_
    cases dcc.cb with
    | none => exact shadows_throw _
    | some cb =>
      cases cb with
      | callbackDccRecvFile => exact callbackDccRecvFile_shadows w status dcc.ctx data length
      | callbackDccResumeFile =>
        exact shadows_client (finished_of_changes (callbackDccResumeFile_moves _ _ _ _))

theorem turn_shadows (dccid : ℕ) :
    Turn.Alike (fun _ _ => Shadows) (turn dccid) (DccEvents.turn dccid) where
  pure := shadows_pure ()
  bind h h' := shadows_bind h fun _ => h'
  lock := shadows_client (finished_of_changes lock_moves)
  unlock := shadows_client (finished_of_changes unlock_moves)
  received _ _ _ h := shadows_bind (shadows_client (record_finishes _)) fun _ => h
  acknowledged _ _ _ _ h := shadows_bind (shadows_client (record_finishes _)) fun _ => h
  modify _ _ _ _ := shadows_client (finished_of_changes (modifySession_moves dccid _))
  withConfig h := shadows_get_bind fun s => h s.client.cfg
  destroy := shadows_client (finished_of_changes (libircDccDestroyNolock_moves dccid))

theorem processDescriptor_shadows (w : WinApi) (dccid : ℕ) (ready : SocketReady) :
    Shadows (processDescriptor w dccid ready) (DccEvents.processDescriptor dccid ready) := by
  refine shadows_bind (shadows_client (finished_of_changes (libircFind_moves _ _))) fun found => ?_
  cases found with
  | none => exact shadows_pure ()
  | some dcc =>
    apply (turn_shadows dcc.id).processDescriptor dcc
    exact SocketReady.turn_alike (fun _ _ => callCb_shadows w _ _ _ _ _)
      (fun _ => callCb_shadows w _ _ _ _ _) fun _ _ => callCb_shadows w _ _ _ _ _

theorem request_finishes {c : Client} (h : c.halted = none) (env : Env) (nick : Option CText.Bytes)
    (req : CText.Bytes) :
    (endState (DccEvents.libircDccRequest env nick req) c).finishedDownloads = c.finishedDownloads := by
  by_cases hstarts : StartsDownload c (.request env nick req)
  · obtain ⟨t, progress, fd, files, ht, hs'⟩ := (request_cases (b := false) h).1 hstarts
    exact ((QuitTiming.quiet_of_changes hs').1).trans (QuitTiming.quiet_of_changes ht).1
  · exact (QuitTiming.quiet_of_changes ((request_cases h).2 hstarts)).1

end shadows

end Xdccget.AlarmTurns
