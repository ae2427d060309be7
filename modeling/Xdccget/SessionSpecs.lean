import Xdccget.DccEvents
import Xdccget.HaltingPrograms

set_option autoImplicit false

/-!
# What the session operations do

Each operation of `dcc.c` changes one session, the connection record and the
trace. Its cases are listed once, with the state they end in.
-/
namespace Xdccget.SessionSpecs
open CText DccMessages ClientState DccSessions HaltingPrograms

section lists
variable {id : ℕ} {f : DccSession → DccSession}

theorem updateSession_updateSession (hf : ∀ d, (f d).id = d.id) (g : DccSession → DccSession)
    (ds : List DccSession) :
    updateSession id g (updateSession id f ds) = updateSession id (fun d => g (f d)) ds := by
  unfold updateSession
  rw [List.map_map]
  apply List.map_congr_left
  intro d _
  by_cases h : d.id = id
  · simp [h, hf]
  · simp [h]

theorem updateSession_of_find_none {ds : List DccSession}
    (h : ds.find? (fun d => d.id = id) = none) : updateSession id f ds = ds := by
  have hne : ∀ d ∈ ds, d.id ≠ id := by simpa using h
  apply (List.map_congr_left _).trans (List.map_id ds)
  intro d hd
  simp [hne d hd]

theorem find?_updateSession (hf : ∀ d, (f d).id = d.id) (ds : List DccSession) :
    (updateSession id f ds).find? (fun d => d.id = id) =
      (ds.find? (fun d => d.id = id)).map f := by
  induction ds with
  | nil => rfl
  | cons d ds ih =>
    by_cases h : d.id = id
    · simp [updateSession, h, hf]
    · simpa [updateSession, h] using ih

theorem find?_updateSession_ne {other : ℕ} (hf : ∀ d, (f d).id = d.id) (h : other ≠ id)
    (ds : List DccSession) :
    (updateSession id f ds).find? (fun d => d.id = other) =
      ds.find? (fun d => d.id = other) := by
  induction ds with
  | nil => rfl
  | cons d ds ih =>
    have hcons : updateSession id f (d :: ds) =
        (if d.id = id then f d else d) :: updateSession id f ds := rfl
    rw [hcons]
    by_cases hd : d.id = id
    · have hne : ¬ d.id = other := fun he => h (he.symm.trans hd)
      have hfd : ¬ (f d).id = other := by rw [hf]; exact hne
      rw [if_pos hd, List.find?_cons_of_neg (by simpa using hfd),
        List.find?_cons_of_neg (by simpa using hne), ih]
    · by_cases ho : d.id = other <;> simp [hd, ho, h, ih]

theorem map_id_updateSession (hf : ∀ d, (f d).id = d.id) (ds : List DccSession) :
    (updateSession id f ds).map (·.id) = ds.map (·.id) := by
  unfold updateSession
  rw [List.map_map]
  apply List.map_congr_left
  intro d _
  by_cases h : d.id = id <;> simp [h, hf]

theorem mem_updateSession {ds : List DccSession} {d : DccSession} (h : d ∈ updateSession id f ds) :
    (∃ e ∈ ds, e.id = id ∧ d = f e) ∨ (d ∈ ds ∧ d.id ≠ id) := by
  obtain ⟨e, he, hd⟩ := List.mem_map.mp h
  by_cases hid : e.id = id
  · rw [if_pos hid] at hd
    exact .inl ⟨e, he, hid, hd.symm⟩
  · rw [if_neg hid] at hd
    exact .inr (hd ▸ ⟨he, hid⟩)

end lists

@[simps]
def sessionOp (s : Client) (net : Net) (id : ℕ) (f : DccSession → DccSession)
    (l : List Action) : Client :=
  { s with net := net, dccSessions := updateSession id f s.dccSessions, trace := s.trace ++ l }

theorem find?_sessionOp {s : Client} {id : ℕ} {d : DccSession}
    (h : s.dccSessions.find? (fun d => d.id = id) = some d) (net : Net)
    {f : DccSession → DccSession} (hf : ∀ d, (f d).id = d.id) (l : List Action) :
    (sessionOp s net id f l).dccSessions.find? (fun d => d.id = id) = some (f d) := by
  rw [sessionOp_dccSessions, find?_updateSession hf, h]
  rfl

@[simps]
def withNet (s : Client) (net : Net) : Client := { s with net := net }

theorem ircSendRaw_run (text : Bytes) (s : Client) :
    ∃ ret net l, (ircSendRaw text).run s = .ok ret { s with net := net, trace := s.trace ++ l } ∧
      (l = [] ∨ l = [.queued (snprintf 1024 text)]) := by
  unfold ircSendRaw
  simp only [EStateM.run_bind, EStateM.run_get]
  by_cases hstate : s.net.state ≠ .connected
  · refine ⟨1, { s.net with lasterror := libircErrState }, [], ?_, .inl rfl⟩
    simp [hstate, setLasterror]
  · by_cases hfull : libircBufferSize - s.net.outgoing.length ≤ (snprintf 1024 text).length + 2
    · refine ⟨1, { s.net with lasterror := libircErrNomem }, [], ?_, .inl rfl⟩
      simp [hstate, hfull, setLasterror]
    · refine ⟨0, { s.net with outgoing := s.net.outgoing ++ snprintf 1024 text ++ [cr, lf] },
        [.queued (snprintf 1024 text)], ?_, .inr rfl⟩
      simp [hstate, hfull, record]

/-- The line that a CTCP request to `nick` becomes. -/
def ctcpLine (nick reply : Bytes) : Bytes :=
  snprintf 1024 (bytes "PRIVMSG " ++ cstr nick ++ bytes " :" ++ [1] ++ cstr reply ++ [1])

theorem ircCmdCtcpRequest_run (nick : Option Bytes) (reply : Bytes) (s : Client) :
    ∃ ret net l, (ircCmdCtcpRequest nick reply).run s =
        .ok ret { s with net := net, trace := s.trace ++ l } ∧
      (l = [] ∨ ∃ n, nick = some n ∧ l = [.queued (ctcpLine n reply)]) := by
  cases nick with
  | none =>
    refine ⟨1, { s.net with lasterror := libircErrState }, [], ?_, .inl rfl⟩
    simp [ircCmdCtcpRequest, setLasterror]
  | some n =>
    obtain ⟨ret, net, l, hrun, hl⟩ := ircSendRaw_run
      (bytes "PRIVMSG " ++ cstr n ++ bytes " :" ++ [1] ++ cstr reply ++ [1]) s
    refine ⟨ret, net, l, hrun, ?_⟩
    rcases hl with rfl | rfl
    · exact .inl rfl
    · exact .inr ⟨n, rfl, rfl⟩

theorem ctcpLine_ne_quitLine (nick reply : Bytes) : ctcpLine nick reply ≠ quitLine := by
  intro h
  have hhead : (ctcpLine nick reply).head? = some 0x50 := rfl
  rw [h] at hhead
  exact absurd hhead (by decide)

section lookups
variable {found : DccSession → Bool} {s : Client}

def lockedNet (net : Net) : Net := { net with mutexDcc := net.mutexDcc + 1 }

theorem libircFind_run_of_none (h : s.dccSessions.find? found = none) (lockList : Bool) :
    (libircFind found lockList).run s = .ok none s := by
  cases lockList with
  | false => simp [libircFind, h]
  | true =>
    simp only [libircFind, libircMutexLock, libircMutexUnlock, if_true, EStateM.run_bind,
      EStateM.run_modify, EStateM.run_get, h, Option.isNone_none, Bool.and_self, EStateM.run_pure,
      add_sub_cancel_right]

theorem libircFind_run_of_some {d : DccSession} (h : s.dccSessions.find? found = some d) :
    (libircFind found true).run s = .ok (some d) (withNet s (lockedNet s.net)) := by
  simp only [libircFind, libircMutexLock, if_true, EStateM.run_bind, EStateM.run_modify,
    EStateM.run_get, h, Option.isNone_some, Bool.false_and, Bool.false_eq_true, if_false,
    EStateM.run_pure]
  rfl

theorem libircFind_run_nolock (found : DccSession → Bool) (s : Client) :
    (libircFind found false).run s = .ok (s.dccSessions.find? found) s := by
  simp [libircFind]

end lookups

def removed (d : DccSession) : DccSession := { d with sock := none, state := .removed }

theorem libircDccDestroyNolock_run (id : ℕ) (s : Client) :
    (libircDccDestroyNolock id).run s =
      .ok ⟨⟩ { s with dccSessions := updateSession id removed s.dccSessions } := by
  have hfind := libircFind_run_nolock (fun d => decide (d.id = id)) s
  simp only [libircDccDestroyNolock, libircFindDccSession, EStateM.run_bind, hfind]
  cases h : s.dccSessions.find? (fun d => decide (d.id = id)) with
  | none => simp [updateSession_of_find_none h]
  | some d =>
    simp only [modifySession, EStateM.run_modify]
    rfl

/-- The session that `libirc_new_dcc_session` makes. -/
def newSession (dccid sock ip port : ℕ) (ctx : Option ℕ) (ssl : Bool) : DccSession :=
  { id := dccid
    passiveConnection := false
    token := 0
    ctx := ctx
    sock := some sock
    state := .init
    ssl := ssl
    receivedFileSize := 0
    fileConfirmOffset := 0
    sinAddr := ip % 2 ^ 32
    sinPort := port
    cb := none
    reverseCb := none }

def CanOpen (env : Env) (ssl : Bool) (s : Client) : Prop :=
  env.socket.isSome = true ∧ (ssl = true → s.net.sslContext = true ∨ env.initSslContext = true)

instance (env : Env) (ssl : Bool) (s : Client) : Decidable (CanOpen env ssl s) := by
  unfold CanOpen
  infer_instance

@[simps]
def withSession (s : Client) (net : Net) (d : DccSession) : Client :=
  { s with net := net, dccLastId := s.dccLastId + 1, dccSessions := d :: s.dccSessions }

theorem libircNewDccSession_run_of_canOpen {env : Env} {ssl : Bool} {s : Client}
    (h : CanOpen env ssl s) (ip port : ℕ) (ctx : Option ℕ) :
    ∃ sock net, (libircNewDccSession env ip port ctx ssl).run s =
      .ok (.ok s.dccLastId) (withSession s net (newSession s.dccLastId sock ip port ctx ssl)) := by
  obtain ⟨hsock, hssl⟩ := h
  obtain ⟨sock, hsome⟩ := Option.isSome_iff_exists.mp hsock
  refine ⟨sock, if ssl && !s.net.sslContext then { s.net with sslContext := true } else s.net, ?_⟩
  simp only [libircNewDccSession, hsome, EStateM.run_bind, EStateM.run_get]
  by_cases hneed : (ssl && !s.net.sslContext) = true
  · have hinit : env.initSslContext = true := by
      rw [Bool.and_eq_true, Bool.not_eq_true'] at hneed
      rcases hssl hneed.1 with hctx | hinit
      · exact absurd (hctx.symm.trans hneed.2) (by simp)
      · exact hinit
    simp [hneed, hinit, newSession, withSession]
  · simp [hneed, newSession, withSession]

theorem libircNewDccSession_run_of_not_canOpen {env : Env} {ssl : Bool} {s : Client}
    (h : ¬ CanOpen env ssl s) (ip port : ℕ) (ctx : Option ℕ) :
    (libircNewDccSession env ip port ctx ssl).run s = .ok (.error libircErrSocket) s ∨
      (libircNewDccSession env ip port ctx ssl).run s = .error .exitPgm s := by
  cases hsock : env.socket with
  | none => exact .inl (by simp [libircNewDccSession, hsock])
  | some sock =>
    refine .inr ?_
    have hneed : ssl = true ∧ s.net.sslContext = false ∧ env.initSslContext = false := by
      simp only [CanOpen, hsock, Option.isSome_some, true_and] at h
      simpa using h
    simp [libircNewDccSession, hsock, hneed.1, hneed.2.1, hneed.2.2, exitPgm]

def NotInit (s : Client) (id : ℕ) : Prop :=
  ∀ d, s.dccSessions.find? (fun d => d.id = id) = some d → d.state ≠ .init

/-- How an accepted session is left, and the value that is returned. -/
inductive Accepted (env : Env) (cb : DataCallback) (ctx : Option ℕ) (dcc : DccSession) :
    ℕ → (DccSession → DccSession) → Prop
  | done (hconnect : env.connect = true) (hssl : dcc.ssl = true → env.sslConnect = true) :
    Accepted env cb ctx dcc 0 fun d =>
      { d with cb := some cb, ctx := ctx, state := if d.ssl then .connected else .connecting }
  | refused (hconnect : env.connect = false) :
    Accepted env cb ctx dcc 1 fun d => removed { d with cb := some cb, ctx := ctx }
  | noHandshake (hssl : dcc.ssl = true) (hconnect : env.sslConnect = false) :
    Accepted env cb ctx dcc 1 fun d => { d with cb := some cb, ctx := ctx }

theorem ircDccAccept_run_of_notInit {s : Client} {id : ℕ} (h : NotInit s id) (env : Env)
    (ctx : Option ℕ) (cb : DataCallback) :
    ∃ net, (ircDccAccept env id ctx cb).run s = .ok 1 (withNet s net) := by
  cases hf : s.dccSessions.find? (fun d => decide (d.id = id)) with
  | none =>
    have hfind := libircFind_run_of_none hf true
    exact ⟨s.net, by simp [ircDccAccept, libircFindDccSession, hfind, withNet]⟩
  | some d =>
    have hfind := libircFind_run_of_some hf
    have hstate : d.state ≠ .init := h d hf
    simp [ircDccAccept, libircFindDccSession, hfind, hstate, setLasterror, libircMutexUnlock,
      withNet]

theorem ircDccAccept_run_of_refused {s : Client} {id : ℕ} {dcc : DccSession} {env : Env}
    (hf : s.dccSessions.find? (fun d => d.id = id) = some dcc) (hinit : dcc.state = .init)
    (hconnect : env.connect = false) (ctx : Option ℕ) (cb : DataCallback) :
    ∃ net, (ircDccAccept env id ctx cb).run s =
      .ok 1 (sessionOp s net id (fun d => removed { d with cb := some cb, ctx := ctx })
        [.install id (.data cb)]) := by
  have hfind := libircFind_run_of_some hf
  simp only [ircDccAccept, libircFindDccSession, EStateM.run_bind, hfind, hinit, hconnect,
    modifySession, record, setLasterror, ne_eq, not_true_eq_false, if_false, if_true,
    EStateM.run_modify, Bool.not_false, libircDccDestroyNolock_run, libircMutexUnlock,
    EStateM.run_pure]
  rw [updateSession_updateSession]
  · exact ⟨_, rfl⟩
  · exact fun _ => rfl

theorem ircDccAccept_run_of_noHandshake {s : Client} {id : ℕ} {dcc : DccSession} {env : Env}
    (hf : s.dccSessions.find? (fun d => d.id = id) = some dcc) (hinit : dcc.state = .init)
    (hconnect : env.connect = true) (hssl : dcc.ssl = true) (hshake : env.sslConnect = false)
    (ctx : Option ℕ) (cb : DataCallback) :
    ∃ net, (ircDccAccept env id ctx cb).run s =
      .ok 1 (sessionOp s net id (fun d => { d with cb := some cb, ctx := ctx })
        [.install id (.data cb)]) ∧ net.mutexDcc = s.net.mutexDcc + 1 := by
  have hfind := libircFind_run_of_some hf
  simp only [ircDccAccept, libircFindDccSession, EStateM.run_bind, hfind, hinit, hconnect, hssl,
    hshake, modifySession, record, setLasterror, ne_eq, not_true_eq_false, if_false, if_true,
    EStateM.run_modify, Bool.not_true, Bool.not_false, Bool.and_self, Bool.false_eq_true,
    EStateM.run_pure]
  exact ⟨_, rfl, rfl⟩

theorem ircDccAccept_run {s : Client} {id : ℕ} {dcc : DccSession}
    (hf : s.dccSessions.find? (fun d => d.id = id) = some dcc) (hinit : dcc.state = .init)
    (env : Env) (ctx : Option ℕ) (cb : DataCallback) :
    ∃ ret net f, (ircDccAccept env id ctx cb).run s =
        .ok ret (sessionOp s net id f [.install id (.data cb)]) ∧
      Accepted env cb ctx dcc ret f := by
  cases hc : env.connect with
  | false =>
    obtain ⟨net, hrun⟩ := ircDccAccept_run_of_refused hf hinit hc ctx cb
    exact ⟨1, net, _, hrun, .refused hc⟩
  | true =>
    cases hs : dcc.ssl && !env.sslConnect with
    | true =>
      rw [Bool.and_eq_true, Bool.not_eq_true'] at hs
      obtain ⟨net, hrun, -⟩ := ircDccAccept_run_of_noHandshake hf hinit hc hs.1 hs.2 ctx cb
      exact ⟨1, net, _, hrun, .noHandshake hs.1 hs.2⟩
    | false =>
      have hfind := libircFind_run_of_some hf
      have hssl : dcc.ssl = true → env.sslConnect = true := by
        intro hd
        simpa [hd] using hs
      simp only [ircDccAccept, libircFindDccSession, EStateM.run_bind, hfind, hinit, hc, hs,
        modifySession, record, ne_eq, not_true_eq_false, if_false, Bool.not_true,
        Bool.false_eq_true, EStateM.run_modify, libircMutexUnlock, EStateM.run_pure]
      rw [updateSession_updateSession]
      · exact ⟨_, _, _, rfl, .done hc hssl⟩
      · exact fun _ => rfl

theorem ircDccResume_run_of_notInit {s : Client} {id : ℕ} (h : NotInit s id) (ctx : Option ℕ)
    (cb : DataCallback) (nick : Option Bytes) (position : ℕ) :
    ∃ net, (ircDccResume id ctx cb nick position).run s = .ok 1 (withNet s net) := by
  cases hf : s.dccSessions.find? (fun d => decide (d.id = id)) with
  | none =>
    have hfind := libircFind_run_of_none hf true
    exact ⟨s.net, by simp [ircDccResume, libircFindDccSession, hfind, withNet]⟩
  | some d =>
    have hfind := libircFind_run_of_some hf
    have hstate : d.state ≠ .init := h d hf
    simp [ircDccResume, libircFindDccSession, hfind, hstate, setLasterror, libircMutexUnlock,
      withNet]

def Asked (id : ℕ) (cb : Callback) (nick : Option Bytes) (reply : Bytes) (l : List Action) : Prop :=
  l = [.install id cb] ∨
    ∃ n, nick = some n ∧
      (l = [.install id cb, .queued (ctcpLine n reply)] ∨
        l = [.queued (ctcpLine n reply), .install id cb])

theorem ircDccResume_run {s : Client} {id : ℕ} {dcc : DccSession}
    (hf : s.dccSessions.find? (fun d => d.id = id) = some dcc) (hinit : dcc.state = .init)
    (ctx : Option ℕ) (cb : DataCallback) (nick : Option Bytes) (position : ℕ) :
    ∃ net l, (ircDccResume id ctx cb nick position).run s =
        .ok 0 (sessionOp s net id
          (fun d => { d with cb := some cb, ctx := ctx, state := .waitingForResumeAck }) l) ∧
      Asked id (.data cb) nick (dccResumeText dcc.sinPort position) l := by
  have hfind := libircFind_run_of_some hf
  simp only [ircDccResume, libircFindDccSession, EStateM.run_bind, hfind, hinit, modifySession,
    record, ne_eq, not_true_eq_false, if_false, EStateM.run_modify]
  obtain ⟨ret, net, l, hrun, hl⟩ := ircCmdCtcpRequest_run nick (dccResumeText dcc.sinPort position)
    { s with
      net := lockedNet s.net
      dccSessions := updateSession id (fun d => { d with cb := some cb, ctx := ctx }) s.dccSessions
      trace := s.trace ++ [.install id (.data cb)] }
  have hdiscard := run_discard hrun
  simp only [withNet] at hdiscard ⊢
  rw [hdiscard]
  simp only [EStateM.run_modify, libircMutexUnlock, EStateM.run_pure]
  rw [updateSession_updateSession, List.append_assoc]
  · refine ⟨_, _, rfl, ?_⟩
    rcases hl with rfl | ⟨n, hn, rfl⟩
    · exact .inl rfl
    · exact .inr ⟨n, hn, .inl rfl⟩
  · exact fun _ => rfl

theorem ircDccResumeReverse_run_of_notInit {s : Client} {id : ℕ} (h : NotInit s id)
    (ctx : Option ℕ) (cb : ReverseCallback) (nick : Option Bytes) (position token : ℕ) :
    ∃ net, (ircDccResumeReverse id ctx cb nick position token).run s = .ok 1 (withNet s net) := by
  cases hf : s.dccSessions.find? (fun d => decide (d.id = id)) with
  | none =>
    have hfind := libircFind_run_of_none hf true
    exact ⟨s.net, by simp [ircDccResumeReverse, libircFindDccSession, hfind, withNet]⟩
  | some d =>
    have hfind := libircFind_run_of_some hf
    have hstate : d.state ≠ .init := h d hf
    simp [ircDccResumeReverse, libircFindDccSession, hfind, hstate, setLasterror,
      libircMutexUnlock, withNet]

theorem ircDccResumeReverse_run {s : Client} {id : ℕ} {dcc : DccSession}
    (hf : s.dccSessions.find? (fun d => d.id = id) = some dcc) (hinit : dcc.state = .init)
    (ctx : Option ℕ) (cb : ReverseCallback) (nick : Option Bytes) (position token : ℕ) :
    ∃ net l, (ircDccResumeReverse id ctx cb nick position token).run s =
        .ok 0 (sessionOp s net id
          (fun d => { d with reverseCb := some cb, ctx := ctx, state := .waitingForResumeAck }) l) ∧
      Asked id (.reverse cb) nick (dccResumeReverseText position token) l := by
  have hfind := libircFind_run_of_some hf
  simp only [ircDccResumeReverse, libircFindDccSession, EStateM.run_bind, hfind, hinit,
    modifySession, record, ne_eq, not_true_eq_false, if_false, EStateM.run_modify]
  obtain ⟨ret, net, l, hrun, hl⟩ := ircCmdCtcpRequest_run nick (dccResumeReverseText position token)
    { s with
      net := lockedNet s.net
      dccSessions :=
        updateSession id (fun d => { d with reverseCb := some cb, ctx := ctx }) s.dccSessions
      trace := s.trace ++ [.install id (.reverse cb)] }
  have hdiscard := run_discard hrun
  simp only [withNet] at hdiscard ⊢
  rw [hdiscard]
  simp only [EStateM.run_modify, libircMutexUnlock, EStateM.run_pure]
  rw [updateSession_updateSession, List.append_assoc]
  · refine ⟨_, _, rfl, ?_⟩
    rcases hl with rfl | ⟨n, hn, rfl⟩
    · exact .inl rfl
    · exact .inr ⟨n, hn, .inl rfl⟩
  · exact fun _ => rfl

theorem ircDccAcceptReverse_run_of_notInit {s : Client} {id : ℕ} (h : NotInit s id) (env : Env)
    (ctx : Option ℕ) (cb : DataCallback) (nick : Option Bytes) (filename : Bytes)
    (size token : ℕ) :
    ∃ net, (ircDccAcceptReverse env id ctx cb nick filename size token).run s =
      .ok 1 (withNet s net) := by
  cases hf : s.dccSessions.find? (fun d => decide (d.id = id)) with
  | none =>
    have hfind := libircFind_run_of_none hf true
    exact ⟨s.net, by simp [ircDccAcceptReverse, libircFindDccSession, hfind, withNet]⟩
  | some d =>
    have hfind := libircFind_run_of_some hf
    have hstate : d.state ≠ .init := h d hf
    simp [ircDccAcceptReverse, libircFindDccSession, hfind, hstate, setLasterror,
      libircMutexUnlock, withNet]

theorem ircDccAcceptReverse_run {s : Client} {id : ℕ} {dcc : DccSession}
    (hf : s.dccSessions.find? (fun d => d.id = id) = some dcc) (hinit : dcc.state = .init)
    (env : Env) (ctx : Option ℕ) (cb : DataCallback) (nick : Option Bytes) (filename : Bytes)
    (size token : ℕ) :
    (env.inetPton = none ∧
      ∃ net, (ircDccAcceptReverse env id ctx cb nick filename size token).run s =
        .ok 1 (withNet s net)) ∨
    ∃ addr net l, env.inetPton = some addr ∧
      (ircDccAcceptReverse env id ctx cb nick filename size token).run s =
        .ok 0 (sessionOp s net id
          (fun d => { d with state := .initPassive, cb := some cb, ctx := ctx }) l) ∧
      Asked id (.data cb) nick (dccSendReverseText filename addr s.cfg.listenPort size token) l := by
  have hfind := libircFind_run_of_some hf
  cases hp : env.inetPton with
  | none =>
    refine .inl ⟨rfl, ?_⟩
    simp [ircDccAcceptReverse, libircFindDccSession, hfind, hinit, hp, setLasterror, withNet]
  | some addr =>
    refine .inr ⟨addr, ?_⟩
    obtain ⟨ret, net, l, hrun, hl⟩ := ircCmdCtcpRequest_run nick
      (dccSendReverseText filename addr s.cfg.listenPort size token) (withNet s (lockedNet s.net))
    have hdiscard := run_discard hrun
    simp only [ircDccAcceptReverse, libircFindDccSession, EStateM.run_bind, hfind, hinit, hp,
      modifySession, record, ne_eq, not_true_eq_false, if_false, EStateM.run_modify,
      EStateM.run_get, withNet_cfg, hdiscard, libircMutexUnlock, EStateM.run_pure]
    refine ⟨{ net with mutexDcc := net.mutexDcc - 1 }, l ++ [.install id (.data cb)], trivial, ?_, ?_⟩
    · simp only [withNet, List.append_assoc]
      rfl
    · rcases hl with rfl | ⟨n, hn, rfl⟩
      · exact .inl rfl
      · exact .inr ⟨n, hn, .inr rfl⟩

end Xdccget.SessionSpecs
