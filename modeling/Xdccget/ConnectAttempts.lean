import Xdccget.BackendAgreement
import Xdccget.ClientState

set_option autoImplicit false

/-!
# Connecting to the server

`irc_connect_generic` tries the resolved addresses from a random one to the last one. An
attempt that fails at once ends it, and the socket of that attempt stays open.
-/
namespace Xdccget.ConnectAttempts
open CText ClientState FdWatcher PollIndex BackendAgreement

inductive Watcher
  | poll (w : PollWatcher)
  | select (w : SelectWatcher)

def Watcher.handle (e : Event) : Watcher → Option Watcher
  | .poll w => (pollHandle w e).map .poll
  | .select w => (selectHandle w e).map .select

def Watcher.run (w : Watcher) : List Event → Option Watcher
  | [] => some w
  | e :: events => (w.handle e).bind (·.run events)

/-- `fdwatch_check_fd` of a valid descriptor. -/
def Watcher.check (fd : ℕ) (rw : Rw) : Watcher → Bool
  | .poll w => pollCheckFd w fd rw
  | .select w => selectCheckFd w fd rw

/-- What the system answers to the attempt at one address: whether there is a function for its family,
    the results of the calls, and what the watch finds within its time. -/
structure Attempt where
  supported : Bool
  socket : Option ℕ
  nonblocking : Bool
  sslInit : ℕ
  connect : Bool
  found : Ready
  getsockname : Bool
  getpeername : Bool

/-- `irc_session_t` and the sockets that are open. -/
structure Connector where
  state : LibircState
  lasterror : ℕ
  sock : Option ℕ
  ssl : Bool
  openSockets : List ℕ
  watcher : Watcher

def libircErrInval : ℕ := 1
def libircErrResolv : ℕ := 2

def initSocket (a : Attempt) (c : Connector) : ℕ × Connector :=
  match a.socket with
  | none => (1, { c with sock := none, lasterror := libircErrSocket })
  | some fd =>
    let opened := { c with sock := some fd, openSockets := fd :: c.openSockets }
    if !a.nonblocking then (1, { opened with lasterror := libircErrSocket })
    else if c.ssl && a.sslInit ≠ 0 then (1, { opened with lasterror := a.sslInit })
    else (0, opened)

/-- `try_to_connect_ipv4` and `try_to_connect_ipv6`; a connect that is in progress has not failed. -/
def tryToConnect (a : Attempt) (c : Connector) : ℤ × Connector :=
  let t := initSocket a c
  if t.1 ≠ 0 ∨ a.connect = false then (-1, { t.2 with lasterror := libircErrSocket }) else (0, t.2)

/-- `hasConnection`, with `isConnectionEstablished`. A socket of -1 is refused by the watcher. -/
def hasConnection (a : Attempt) (c : Connector) : Option (Bool × Connector) :=
  let calls := c.sock.elim [] fun sock => [.add sock, .set sock .write]
  (c.watcher.run (.zero :: (calls ++ [.watch (some (marked fun _ => a.found))]))).map fun w =>
    (c.sock.any (w.check · .write) && (a.getsockname || a.getpeername), { c with watcher := w })

def socketClose (c : Connector) : Connector :=
  { c with sock := none, openSockets := c.sock.elim c.openSockets c.openSockets.erase }

/-- How the loop over the addresses ends: by `goto err_out`, by `break` at an index, or at the `NULL`. -/
inductive Exit
  | errOut (c : Connector)
  | connected (selectedAddress : ℕ) (c : Connector)
  | exhausted (c : Connector)

def connectFrom (c : Connector) (selectedAddress : ℕ) : List Attempt → Option Exit
  | [] => some (.exhausted c)
  | a :: rest =>
    let t := if a.supported then tryToConnect a c else (-1, c)
    if t.1 = -1 then some (.errOut t.2)
    else
      (hasConnection a t.2).bind fun u =>
        if u.1 then some (.connected selectedAddress u.2)
        else connectFrom (socketClose u.2) (selectedAddress + 1) rest

/-- The return value, the address that is connected to, and the session, behind the loop. -/
def Exit.result : Exit → ℕ × Option ℕ × Connector
  | .errOut c => (1, none, c)
  | .connected i c => (0, some i, { c with state := .connecting })
  | .exhausted c => (1, none, { c with lasterror := libircErrConnect })

/-- `SSL_PREFIX` -/
def sslPrefix : UInt8 := 0x23

def usesSsl (server : Bytes) (c : Connector) : Connector :=
  if server.head? = some sslPrefix then { c with ssl := true } else c

def ircConnectGeneric (server nick : Option Bytes) (addresses : Option (List Attempt)) (start : ℕ)
    (c : Connector) : Option (ℕ × Option ℕ × Connector) :=
  match server, nick with
  | some server, some _ =>
    if c.state ≠ .init then some (1, none, { c with lasterror := libircErrState })
    else
      let c := usesSsl server c
      match addresses with
      | none => some (1, none, { c with lasterror := libircErrResolv })
      | some addresses =>
        (connectFrom c start (addresses.drop start)).map Exit.result
  | _, _ => some (1, none, { c with lasterror := libircErrInval })

/-- An address as the system documents it: descriptors are below the size of the table, an open socket
    has a name, and it has a peer as soon as it is writable without an error. -/
structure Address (nfiles : ℕ) where
  attempt : Attempt
  socket_lt : ∀ fd, attempt.socket = some fd → fd < nfiles
  named : attempt.getsockname = true
  peer : attempt.getpeername = (attempt.found.writable && !attempt.found.failed)

/-- An attempt fails at once, with or without a socket opened, or later, with or without a report, or it
    succeeds. -/
inductive Outcome
  | immediate (opened : Bool)
  | asynchronous (reported : Bool)
  | reachable
  deriving DecidableEq, Repr

def Address.outcome {nfiles : ℕ} (ssl : Bool) (a : Address nfiles) : Outcome :=
  let t := a.attempt
  if !t.supported || t.socket.isNone then .immediate false
  else if !t.nonblocking || (ssl && t.sslInit ≠ 0) || !t.connect then .immediate true
  else if t.found.failed then .asynchronous true
  else if t.found.writable then .reachable
  else .asynchronous false

def Watcher.isSelect : Watcher → Bool
  | .poll _ => false
  | .select _ => true

/-- The loop goes on after such an outcome. Select takes a failure that is reported for a connection. -/
def skips (isSelect : Bool) : Outcome → Bool
  | .immediate _ => false
  | .asynchronous reported => !(isSelect && reported)
  | .reachable => false

/-- `fdwatch_check_fd` for a socket that has been watched. -/
def tells (isSelect : Bool) (found : Ready) : Bool :=
  if isSelect then found.writable || found.failed else found.writable && !found.failed

def Watcher.Follows (nfiles : ℕ) : Watcher → Prop
  | .poll w => ∃ r, PollFollows nfiles w r
  | .select w => ∃ r, SelectFollows nfiles w r

section watching
variable {nfiles : ℕ} {fd : ℕ}

theorem poll_watched {p : PollWatcher} {r : Round} (h : PollFollows nfiles p r) (hfd : fd < nfiles)
    (found : Ready) :
    ∃ p' r', (Watcher.poll p).run [.zero, .add fd, .set fd .write,
        .watch (some (marked fun _ => found))] = some (.poll p') ∧
      PollFollows nfiles p' r' ∧ pollCheckFd p' fd .write = tells false found := by
  have hzero := pollFollows_zero h
  obtain ⟨p₁, hadd, h₁⟩ := pollFollows_call hzero (e := .add fd) trivial ⟨hfd, List.not_mem_nil⟩
  obtain ⟨p₂, hset, h₂⟩ := pollFollows_call h₁ (e := .set fd .write) trivial
    ⟨hfd, List.mem_cons_self⟩
  have hwatch := pollFollows_watch h₂ (marked fun _ => found)
  have hrun : (Watcher.poll p).run [.zero, .add fd, .set fd .write,
      .watch (some (marked fun _ => found))] =
      some (.poll (pollWatch p₂ (some (marked fun _ => found)))) := by
    simp only [Watcher.run, Watcher.handle]
    change (((pollHandle (pollZero p) (.add fd)).map Watcher.poll).bind _) = _
    rw [hadd]
    change (((pollHandle p₁ (.set fd .write)).map Watcher.poll).bind _) = _
    rw [hset]
    rfl
  refine ⟨_, _, hrun, hwatch, ?_⟩
  rw [pollCheckFd_listed hwatch.lists List.mem_cons_self]
  obtain ⟨readable, writable, failed⟩ := found
  cases failed <;>
    simp [Round.step, Round.start, marked, Ready.revents, Revents.bit, Events.arm, tells]

theorem select_watched {q : SelectWatcher} {r : Round} (h : SelectFollows nfiles q r)
    (hfd : fd < nfiles) (found : Ready) :
    ∃ q' r', (Watcher.select q).run [.zero, .add fd, .set fd .write,
        .watch (some (marked fun _ => found))] = some (.select q') ∧
      SelectFollows nfiles q' r' ∧ selectCheckFd q' fd .write = tells true found := by
  have hn := h.nfiles_eq
  have hvalid : ¬ q.nfiles ≤ fd := by omega
  have hroom : (selectZero q).nselectFds < (selectZero q).nfiles := by
    change 0 < q.nfiles
    omega
  have hadd : SelectFollows nfiles (selectAddFd (selectZero q) fd) _ :=
    selectFollows_add (selectFollows_zero h) hroom
  have hset := selectFollows_set hadd fd .write
  have hwatch := selectFollows_watch hset (marked fun _ => found)
  have hnfiles : (selectAddFd (selectZero q) fd).nfiles = nfiles := hadd.nfiles_eq
  have hrun : (Watcher.select q).run [.zero, .add fd, .set fd .write,
      .watch (some (marked fun _ => found))] =
      some (.select (selectWatch (selectSetFd (selectAddFd (selectZero q) fd) fd .write)
        (some (marked fun _ => found)))) := by
    have haddfd : selectHandle (selectZero q) (.add fd) = some (selectAddFd (selectZero q) fd) :=
      if_neg hvalid
    have hsetfd : selectHandle (selectAddFd (selectZero q) fd) (.set fd .write) =
        some (selectSetFd (selectAddFd (selectZero q) fd) fd .write) := if_neg (by omega)
    simp only [Watcher.run, Watcher.handle]
    change (((selectHandle (selectZero q) (.add fd)).map Watcher.select).bind _) = _
    rw [haddfd]
    change (((selectHandle (selectAddFd (selectZero q) fd) (.set fd .write)).map
      Watcher.select).bind _) = _
    rw [hsetfd]
    rfl
  refine ⟨_, _, hrun, hwatch, ?_⟩
  rw [selectCheckFd_watched hset _ List.mem_cons_self]
  simp [Round.step, Round.start, marked, Ready.revents, Revents.bit, Events.arm, tells]

theorem watched {w : Watcher} (h : w.Follows nfiles) (hfd : fd < nfiles) (found : Ready) :
    ∃ w', w.run [.zero, .add fd, .set fd .write, .watch (some (marked fun _ => found))] = some w' ∧
      w'.Follows nfiles ∧ w'.isSelect = w.isSelect ∧ w'.check fd .write = tells w.isSelect found := by
  cases w with
  | poll p =>
    obtain ⟨r, hr⟩ := h
    obtain ⟨p', r', hrun, hfollows, hcheck⟩ := poll_watched hr hfd found
    exact ⟨.poll p', hrun, ⟨r', hfollows⟩, rfl, hcheck⟩
  | select q =>
    obtain ⟨r, hr⟩ := h
    obtain ⟨q', r', hrun, hfollows, hcheck⟩ := select_watched hr hfd found
    exact ⟨.select q', hrun, ⟨r', hfollows⟩, rfl, hcheck⟩

end watching

section attempts
variable {nfiles : ℕ} {c : Connector}

def Started (ssl : Bool) (a : Attempt) : Prop :=
  a.nonblocking = true ∧ (ssl && decide (a.sslInit ≠ 0)) = false ∧ a.connect = true

theorem outcome_of_started {a : Address nfiles} {ssl : Bool} {fd : ℕ}
    (hsupported : a.attempt.supported = true) (hsocket : a.attempt.socket = some fd)
    (h : Started ssl a.attempt) :
    a.outcome ssl = if a.attempt.found.failed then .asynchronous true
      else if a.attempt.found.writable then .reachable else .asynchronous false := by
  obtain ⟨hnonblocking, hssl, hconnect⟩ := h
  simp only [Address.outcome, hsupported, hsocket, hnonblocking, hssl, hconnect, Option.isNone_some,
    Bool.not_true, Bool.or_self, Bool.false_eq_true, if_false]

theorem outcome_of_not_started {a : Address nfiles} {ssl : Bool} {fd : ℕ}
    (hsupported : a.attempt.supported = true) (hsocket : a.attempt.socket = some fd)
    (h : ¬ Started ssl a.attempt) : a.outcome ssl = .immediate true := by
  have hfails : (!a.attempt.nonblocking || (ssl && decide (a.attempt.sslInit ≠ 0)) ||
      !a.attempt.connect) = true := by
    by_contra hnot
    simp only [Bool.not_eq_true, Bool.or_eq_false_iff, Bool.not_eq_false'] at hnot
    exact h ⟨hnot.1.1, hnot.1.2, hnot.2⟩
  simp only [Address.outcome, hsupported, hsocket, Option.isNone_some, Bool.not_true, Bool.or_self,
    Bool.false_eq_true, if_false, hfails, if_true]

theorem outcome_of_no_socket {a : Address nfiles} (ssl : Bool)
    (h : a.attempt.supported = false ∨ a.attempt.socket = none) :
    a.outcome ssl = .immediate false := by
  rcases h with h | h <;> simp [Address.outcome, h]

/-- `init_socket` and the connect, when the socket is there. -/
theorem tryToConnect_opened {a : Attempt} {fd : ℕ} (hsocket : a.socket = some fd) :
    (Started c.ssl a → tryToConnect a c =
        (0, { c with sock := some fd, openSockets := fd :: c.openSockets })) ∧
      (¬ Started c.ssl a → (tryToConnect a c).1 = -1 ∧ (tryToConnect a c).2.state = c.state ∧
        (tryToConnect a c).2.openSockets = fd :: c.openSockets) := by
  constructor
  · rintro ⟨hnonblocking, hssl, hconnect⟩
    simp only [tryToConnect, initSocket, hsocket, hnonblocking, hssl, hconnect, Bool.not_true,
      Bool.false_eq_true, if_false, ne_eq, not_true, or_self, reduceCtorEq]
  · intro h
    unfold tryToConnect initSocket
    rw [hsocket]
    dsimp only
    cases hnonblocking : a.nonblocking with
    | false => exact ⟨rfl, rfl, rfl⟩
    | true =>
      cases hssl : c.ssl && decide (a.sslInit ≠ 0) with
      | true => exact ⟨rfl, rfl, rfl⟩
      | false =>
        cases hconnect : a.connect with
        | false => exact ⟨rfl, rfl, rfl⟩
        | true => exact absurd ⟨hnonblocking, hssl, hconnect⟩ h

theorem tryToConnect_immediate {a : Address nfiles} {opened : Bool}
    (h : a.outcome c.ssl = .immediate opened) :
    let t := if a.attempt.supported then tryToConnect a.attempt c else (-1, c)
    t.1 = -1 ∧ t.2.state = c.state ∧ (t.2.openSockets = c.openSockets ↔ opened = false) := by
  cases hsupported : a.attempt.supported with
  | false =>
    rw [outcome_of_no_socket _ (Or.inl hsupported), Outcome.immediate.injEq] at h
    exact ⟨rfl, rfl, iff_of_true rfl h.symm⟩
  | true =>
    dsimp only
    rw [if_pos rfl]
    cases hsocket : a.attempt.socket with
    | none =>
      rw [outcome_of_no_socket _ (Or.inr hsocket), Outcome.immediate.injEq] at h
      have hrun : tryToConnect a.attempt c =
          (-1, { c with sock := none, lasterror := libircErrSocket }) := by
        simp [tryToConnect, initSocket, hsocket]
      rw [hrun]
      exact ⟨rfl, rfl, iff_of_true rfl h.symm⟩
    | some fd =>
      by_cases hstarted : Started c.ssl a.attempt
      · rw [outcome_of_started hsupported hsocket hstarted] at h
        split_ifs at h
      · rw [outcome_of_not_started hsupported hsocket hstarted, Outcome.immediate.injEq] at h
        obtain ⟨hret, hstate, hopen⟩ := (tryToConnect_opened hsocket).2 hstarted
        refine ⟨hret, hstate, iff_of_false ?_ (by rw [← h]; exact Bool.noConfusion)⟩
        rw [hopen]
        exact List.cons_ne_self fd c.openSockets

theorem tryToConnect_started {a : Address nfiles} (h : ∀ opened, a.outcome c.ssl ≠ .immediate opened) :
    ∃ fd < nfiles, a.attempt.supported = true ∧ a.attempt.socket = some fd ∧
      Started c.ssl a.attempt ∧ tryToConnect a.attempt c =
        (0, { c with sock := some fd, openSockets := fd :: c.openSockets }) := by
  have hsupported : a.attempt.supported = true := by
    by_contra hnot
    exact h false (outcome_of_no_socket _ (Or.inl (Bool.not_eq_true _ ▸ hnot)))
  cases hsocket : a.attempt.socket with
  | none => exact absurd (outcome_of_no_socket _ (Or.inr hsocket)) (h false)
  | some fd =>
    have hstarted : Started c.ssl a.attempt := by
      by_contra hnot
      exact h true (outcome_of_not_started hsupported hsocket hnot)
    exact ⟨fd, a.socket_lt fd hsocket, hsupported, rfl, hstarted, (tryToConnect_opened hsocket).1 hstarted⟩

theorem hasConnection_started {a : Address nfiles} (hw : c.watcher.Follows nfiles) {fd : ℕ}
    (hfd : fd < nfiles) (hsock : c.sock = some fd) :
    ∃ w', hasConnection a.attempt c =
        some (tells c.watcher.isSelect a.attempt.found, { c with watcher := w' }) ∧
      w'.Follows nfiles ∧ w'.isSelect = c.watcher.isSelect := by
  obtain ⟨w', hrun, hfollows, hselect, hcheck⟩ := watched hw hfd a.attempt.found
  refine ⟨w', ?_, hfollows, hselect⟩
  unfold hasConnection
  dsimp only
  rw [hsock]
  change ((c.watcher.run [.zero, .add fd, .set fd .write, .watch _]).map _) = _
  rw [hrun, Option.map_some, Option.any_some, hcheck, a.named, Bool.true_or, Bool.and_true]

theorem tells_eq {a : Address nfiles} {ssl isSelect : Bool} {fd : ℕ}
    (hsupported : a.attempt.supported = true) (hsocket : a.attempt.socket = some fd)
    (h : Started ssl a.attempt) :
    tells isSelect a.attempt.found = !skips isSelect (a.outcome ssl) := by
  rw [outcome_of_started hsupported hsocket h]
  cases hfailed : a.attempt.found.failed <;> cases hwritable : a.attempt.found.writable <;>
    cases isSelect <;> simp [tells, skips, hfailed, hwritable]

end attempts

section loop
variable {nfiles : ℕ} {c : Connector}

/-- The address that the loop does not go on from. -/
def stopsAt (isSelect ssl : Bool) (addresses : List (Address nfiles)) : Option (Address nfiles) :=
  addresses.find? fun a => !skips isSelect (a.outcome ssl)

inductive LoopEnds (c : Connector) (addresses : List (Address nfiles)) (i : ℕ) : Exit → Prop
  | exhausted {c' : Connector} (hnone : stopsAt c.watcher.isSelect c.ssl addresses = none)
      (hstate : c'.state = c.state) (hopen : c'.openSockets = c.openSockets) :
      LoopEnds c addresses i (.exhausted c')
  | errOut {c' : Connector} {a : Address nfiles} {opened : Bool}
      (hstop : stopsAt c.watcher.isSelect c.ssl addresses = some a)
      (houtcome : a.outcome c.ssl = .immediate opened) (hstate : c'.state = c.state)
      (hopen : c'.openSockets = c.openSockets ↔ opened = false) :
      LoopEnds c addresses i (.errOut c')
  | connected {c' : Connector} {a : Address nfiles} {j : ℕ}
      (hstop : stopsAt c.watcher.isSelect c.ssl addresses = some a)
      (houtcome : ∀ opened, a.outcome c.ssl ≠ .immediate opened) (hat : addresses[j]? = some a) :
      LoopEnds c addresses i (.connected (i + j) c')

theorem LoopEnds.cons {c' : Connector} {a : Address nfiles} {addresses : List (Address nfiles)} {i : ℕ}
    {exit : Exit} (hskip : skips c.watcher.isSelect (a.outcome c.ssl) = true)
    (hselect : c'.watcher.isSelect = c.watcher.isSelect) (hssl : c'.ssl = c.ssl)
    (hstate : c'.state = c.state) (hopen : c'.openSockets = c.openSockets)
    (h : LoopEnds c' addresses (i + 1) exit) : LoopEnds c (a :: addresses) i exit := by
  have hstops : stopsAt c.watcher.isSelect c.ssl (a :: addresses) =
      stopsAt c'.watcher.isSelect c'.ssl addresses := by
    rw [hselect, hssl, stopsAt, List.find?_cons_of_neg (by simp [hskip]), stopsAt]
  cases h with
  | exhausted hnone hstate' hopen' =>
    exact .exhausted (hstops.trans hnone) (hstate'.trans hstate) (hopen'.trans hopen)
  | errOut hstop houtcome hstate' hopen' =>
    rw [hopen] at hopen'
    rw [hssl] at houtcome
    exact .errOut (hstops.trans hstop) houtcome (hstate'.trans hstate) hopen'
  | @connected _ b j hstop houtcome hat =>
    rw [hssl] at houtcome
    have hindex : i + 1 + j = i + (j + 1) := by omega
    rw [hindex]
    exact .connected (hstops.trans hstop) houtcome hat

theorem connectFrom_ends (addresses : List (Address nfiles)) (i : ℕ)
    (hw : c.watcher.Follows nfiles) :
    ∃ exit, connectFrom c i (addresses.map (·.attempt)) = some exit ∧ LoopEnds c addresses i exit := by
  induction addresses generalizing c i with
  | nil => exact ⟨_, rfl, .exhausted rfl rfl rfl⟩
  | cons a addresses ih =>
    rw [List.map_cons, connectFrom]
    by_cases himmediate : ∃ opened, a.outcome c.ssl = .immediate opened
    · obtain ⟨opened, houtcome⟩ := himmediate
      obtain ⟨hret, hstate, hopen⟩ := tryToConnect_immediate houtcome
      rw [if_pos hret]
      refine ⟨_, rfl, .errOut ?_ houtcome hstate hopen⟩
      rw [stopsAt, List.find?_cons_of_pos (by rw [houtcome]; rfl)]
    · have hnot : ∀ opened, a.outcome c.ssl ≠ .immediate opened := fun opened h => himmediate ⟨opened, h⟩
      obtain ⟨fd, hfd, hsupported, hsocket, hstarted, htry⟩ := tryToConnect_started hnot
      let opened : Connector := { c with sock := some fd, openSockets := fd :: c.openSockets }
      obtain ⟨w', htest, hfollows, hselect⟩ :=
        @hasConnection_started _ opened a hw fd hfd rfl
      have htells : tells opened.watcher.isSelect a.attempt.found =
          !skips c.watcher.isSelect (a.outcome c.ssl) := tells_eq hsupported hsocket hstarted
      rw [htells] at htest
      rw [if_pos hsupported, htry, if_neg (by simp), htest, Option.bind_some]
      cases hskip : skips c.watcher.isSelect (a.outcome c.ssl) with
      | false =>
        rw [Bool.not_false, if_pos rfl]
        refine ⟨_, rfl, .connected (j := 0) ?_ hnot rfl⟩
        rw [stopsAt, List.find?_cons_of_pos (by simp [hskip])]
      | true =>
        rw [Bool.not_true, if_neg Bool.false_ne_true]
        let closed : Connector := socketClose { opened with watcher := w' }
        have hclosed : closed.openSockets = c.openSockets := List.erase_cons_head _ _
        obtain ⟨exit, hrun, hends⟩ := @ih closed (i + 1) hfollows
        exact ⟨exit, hrun,
          @LoopEnds.cons _ c closed a addresses i exit hskip hselect rfl rfl hclosed hends⟩

end loop

def Connected {nfiles : ℕ} (ssl : Bool) (addresses : List (Address nfiles)) (ret : ℕ)
    (selected : Option ℕ) : Prop :=
  ret = 0 ∧ ∃ i a, selected = some i ∧ addresses[i]? = some a ∧ a.outcome ssl = .reachable

/-- A reachable address is connected to if there is one, and without a connection nothing is left of
    the attempts. -/
structure Connects {nfiles : ℕ} (ssl : Bool) (addresses : List (Address nfiles)) (c c' : Connector)
    (ret : ℕ) (selected : Option ℕ) : Prop where
  reach : (∃ a ∈ addresses, a.outcome ssl = .reachable) → Connected ssl addresses ret selected
  failure : ¬ Connected ssl addresses ret selected →
    c'.state = .init ∧ c'.openSockets = c.openSockets

section result
variable {nfiles : ℕ} {c : Connector}

/-- The loop stops at a reachable address, or there is none and it stops at no address or without a
    socket. -/
def StopsWell (isSelect ssl : Bool) (start : ℕ) (addresses : List (Address nfiles)) : Prop :=
  (∃ a, stopsAt isSelect ssl (addresses.drop start) = some a ∧ a.outcome ssl = .reachable) ∨
    ((∀ a ∈ addresses, a.outcome ssl ≠ .reachable) ∧
      ∀ a, stopsAt isSelect ssl (addresses.drop start) = some a → a.outcome ssl = .immediate false)

theorem usesSsl_same (server : Bytes) (c : Connector) :
    (usesSsl server c).state = c.state ∧ (usesSsl server c).openSockets = c.openSockets ∧
      (usesSsl server c).watcher = c.watcher := by
  unfold usesSsl
  split <;> exact ⟨rfl, rfl, rfl⟩

theorem connects_of_exit {addresses : List (Address nfiles)} {start : ℕ} {exit : Exit}
    (hinit : c.state = .init) (h : LoopEnds c (addresses.drop start) start exit) :
    Connects c.ssl addresses c exit.result.2.2 exit.result.1 exit.result.2.1 ↔
      StopsWell c.watcher.isSelect c.ssl start addresses := by
  cases h with
  | @exhausted c' hnone hstate hopen =>
    have hnot : ¬ Connected c.ssl addresses 1 none := fun h => absurd h.1 (by decide)
    constructor
    · intro hconnects
      refine Or.inr ⟨fun a ha hreach => hnot (hconnects.reach ⟨a, ha, hreach⟩), fun a ha => ?_⟩
      rw [hnone] at ha
      cases ha
    · rintro (⟨a, hstop, -⟩ | ⟨hunreachable, -⟩)
      · rw [hnone] at hstop
        cases hstop
      · exact ⟨fun ⟨a, ha, hreach⟩ => absurd hreach (hunreachable a ha),
          fun _ => ⟨hstate.trans hinit, hopen⟩⟩
  | @errOut c' a opened hstop houtcome hstate hopen =>
    have hnot : ¬ Connected c.ssl addresses 1 none := fun h => absurd h.1 (by decide)
    constructor
    · intro hconnects
      have hclosed := hopen.mp (hconnects.failure hnot).2
      refine Or.inr ⟨fun b hb hreach => hnot (hconnects.reach ⟨b, hb, hreach⟩), fun b hb => ?_⟩
      rw [hstop] at hb
      cases hb
      rw [houtcome, hclosed]
    · rintro (⟨b, hstop', hreach⟩ | ⟨hunreachable, himmediate⟩)
      · rw [hstop] at hstop'
        cases hstop'
        rw [houtcome] at hreach
        cases hreach
      · have hclosed : opened = false := by
          have hfalse := houtcome.symm.trans (himmediate a hstop)
          exact Outcome.immediate.inj hfalse
        exact ⟨fun ⟨b, hb, hreach⟩ => absurd hreach (hunreachable b hb),
          fun _ => ⟨hstate.trans hinit, hopen.mpr hclosed⟩⟩
  | @connected c' a j hstop houtcome hat =>
    have hindex : addresses[start + j]? = some a := by
      rw [← List.getElem?_drop]
      exact hat
    constructor
    · intro hconnects
      by_cases hconnected : Connected c.ssl addresses 0 (some (start + j))
      · obtain ⟨-, i, b, hi, hb, hreach⟩ := hconnected
        rw [Option.some.injEq] at hi
        rw [← hi, hindex, Option.some.injEq] at hb
        exact Or.inl ⟨a, hstop, hb ▸ hreach⟩
      · have hstate := (hconnects.failure hconnected).1
        cases hstate
    · rintro (⟨b, hstop', hreach⟩ | ⟨-, himmediate⟩)
      · rw [hstop] at hstop'
        cases hstop'
        have hconnected : Connected c.ssl addresses 0 (some (start + j)) :=
          ⟨rfl, start + j, a, rfl, hindex, hreach⟩
        exact ⟨fun _ => hconnected, fun hnot => absurd hconnected hnot⟩
      · exact absurd (himmediate a hstop) (houtcome false)

/-- `irc_connect_generic` comes to a reachable address, or leaves nothing, exactly if the loop stops well. -/
theorem connect_generic_iff (hw : c.watcher.Follows nfiles) (hinit : c.state = .init)
    (server nick : Bytes) (addresses : List (Address nfiles)) (start : ℕ) :
    ∃ ret selected c', ircConnectGeneric (some server) (some nick)
        (some (addresses.map (·.attempt))) start c = some (ret, selected, c') ∧
      (Connects (usesSsl server c).ssl addresses c c' ret selected ↔
        StopsWell c.watcher.isSelect (usesSsl server c).ssl start addresses) := by
  obtain ⟨hstate, hopen, hwatcher⟩ := usesSsl_same server c
  obtain ⟨exit, hrun, hends⟩ := connectFrom_ends (c := usesSsl server c) (addresses.drop start) start
    (hwatcher ▸ hw)
  have hconnects := connects_of_exit (hstate.trans hinit) hends
  rw [hwatcher] at hconnects
  have hsame : Connects (usesSsl server c).ssl addresses c exit.result.2.2 exit.result.1
      exit.result.2.1 ↔ Connects (usesSsl server c).ssl addresses (usesSsl server c)
        exit.result.2.2 exit.result.1 exit.result.2.1 := by
    constructor
    · exact fun h => ⟨h.reach, fun hnot => by rw [hopen]; exact h.failure hnot⟩
    · exact fun h => ⟨h.reach, fun hnot => by rw [← hopen]; exact h.failure hnot⟩
  refine ⟨exit.result.1, exit.result.2.1, exit.result.2.2, ?_, hsame.trans hconnects⟩
  unfold ircConnectGeneric
  dsimp only
  rw [if_neg (not_not_intro hinit), ← List.map_drop, hrun]
  rfl

end result

def socketFive (connect : Bool) (found : Ready) : Address 16 where
  attempt :=
    { supported := true, socket := some 5, nonblocking := true, sslInit := 0, connect := connect,
      found := found, getsockname := true, getpeername := found.writable && !found.failed }
  socket_lt := by
    rintro fd ⟨⟩
    decide
  named := rfl
  peer := rfl

def upAddress : Address 16 := socketFive true ⟨false, true, false⟩
def refusedAddress : Address 16 := socketFive true ⟨false, false, true⟩
def unroutedAddress : Address 16 := socketFive false ⟨false, false, false⟩

def newConnector (watcher : Watcher) : Connector :=
  { state := .init, lasterror := 0, sock := none, ssl := false, openSockets := [], watcher := watcher }

def pollConnector : Connector := newConnector (.poll (pollInit 16))
def selectConnector : Connector := newConnector (.select (selectInit 16))

theorem pollConnector_follows : pollConnector.watcher.Follows 16 :=
  ⟨.start, lists_init 16, fun _ _ => ⟨rfl, rfl⟩, rfl, rfl⟩

/-- The second address is reachable, and the scan comes to it. -/
theorem connect_generic_iff_refused :
    ∃ ret selected c', ircConnectGeneric (some []) (some [])
        (some ([refusedAddress, upAddress].map (·.attempt))) 0 pollConnector =
          some (ret, selected, c') ∧
      Connects false [refusedAddress, upAddress] pollConnector c' ret selected := by
  obtain ⟨ret, selected, c', hrun, hiff⟩ :=
    connect_generic_iff pollConnector_follows rfl [] [] [refusedAddress, upAddress] 0
  exact ⟨ret, selected, c', hrun, hiff.mpr (Or.inl ⟨upAddress, by rfl, by decide⟩)⟩

/-- A reachable address is missed when the start lies behind it or when another one fails at once,
    which also leaves a socket open; and select takes a refused one for connected. -/
theorem connect_generic_misses :
    let poll (addresses : List (Address 16)) (start : ℕ) :=
      (ircConnectGeneric (some []) (some []) (some (addresses.map (·.attempt))) start
        pollConnector).map fun r => (r.1, r.2.1, r.2.2.openSockets)
    let select (addresses : List (Address 16)) (start : ℕ) :=
      (ircConnectGeneric (some []) (some []) (some (addresses.map (·.attempt))) start
        selectConnector).map fun r => (r.1, r.2.1, r.2.2.state)
    upAddress.outcome false = .reachable ∧ refusedAddress.outcome false = .asynchronous true ∧
      unroutedAddress.outcome false = .immediate true ∧
      poll [upAddress, refusedAddress, refusedAddress] 1 = some (1, none, []) ∧
      poll [unroutedAddress, upAddress] 0 = some (1, none, [5]) ∧
      select [refusedAddress, upAddress] 0 = some (0, some 0, .connecting) := by
  decide +kernel

end Xdccget.ConnectAttempts
