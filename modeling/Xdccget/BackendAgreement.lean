import Xdccget.PollIndex

set_option autoImplicit false

/-!
# Poll against select

Both backends follow the round. They differ in what they tell about a descriptor that
has failed: `poll_check_fd` returns 0 when it sees `POLLERR`.
-/
namespace Xdccget.BackendAgreement
open StepRuns FdWatcher PollIndex

/-- `select` marks a failed descriptor as ready, and `poll` reports the events with the error. -/
def marked (found : ℕ → Ready) : ℕ → Ready := fun fd =>
  { readable := (found fd).readable || (found fd).failed
    writable := (found fd).writable || (found fd).failed
    failed := (found fd).failed }

structure Backends where
  poll : Option PollWatcher
  select : Option SelectWatcher
  round : Round

def Backends.start (nfiles : ℕ) : Backends := ⟨some (pollInit nfiles), some (selectInit nfiles), .start⟩

def step (s : Backends) (e : Event) : Backends :=
  ⟨pollStep s.poll e, selectStep s.select e, s.round.step e⟩

/-- A call between `fdwatch_zero` and the watch. -/
def Watching : Event → Prop
  | .add _ => True
  | .set _ _ => True
  | _ => False

/-- One turn of the client: descriptors are added and armed, and then watched. -/
structure WatchRound (nfiles : ℕ) where
  calls : List Event
  found : ℕ → Ready
  watching : ∀ e ∈ calls, Watching e
  allowed : AllAlong Round.step (fun r e => r.Allows nfiles e) .start calls

def WatchRound.events {nfiles : ℕ} (r : WatchRound nfiles) : List Event :=
  .zero :: (r.calls ++ [.watch (some (marked r.found))])

/-- The backends agree about a descriptor, and one that fails while it is armed for writing is reported
    as writable, so that the connection is tested. -/
structure Agrees (p : PollWatcher) (q : SelectWatcher) (r : Round) (found : ℕ → Ready) (fd : ℕ) :
    Prop where
  same : ∀ rw, pollCheckFd p fd rw = selectCheckFd q fd rw
  tested : (found fd).failed = true → (r.armed fd).bit .write = true →
    pollCheckFd p fd .write = true ∧ selectCheckFd q fd .write = true

/-- The invariant of the poll backend while nothing is deleted: the slots behind the list are empty. -/
structure PollFollows (nfiles : ℕ) (w : PollWatcher) (r : Round) : Prop where
  lists : Lists w r
  behind : ∀ i, w.npollFds ≤ i → (w.pollfds i).events = .none ∧ (w.pollfds i).revents = .none
  nfiles_eq : w.nfiles = nfiles
  kept : r.listed = r.added

/-- The invariant of the select backend while nothing is deleted. -/
structure SelectFollows (nfiles : ℕ) (w : SelectWatcher) (r : Round) : Prop where
  read : ∀ fd, w.masterRfdset fd = (r.armed fd).pollin
  write : ∀ fd, w.masterWfdset fd = (r.armed fd).pollout
  below : ∀ fd ∈ r.added, (fd : ℤ) ≤ w.maxfd
  unchanged : w.maxfdChanged = false
  count : w.nselectFds = r.added.length
  nfiles_eq : w.nfiles = nfiles

section poll
variable {nfiles : ℕ} {w : PollWatcher} {r : Round}

theorem pollFollows_zero (h : PollFollows nfiles w r) : PollFollows nfiles (pollZero w) .start where
  lists := lists_zero w
  behind := by
    intro i _
    by_cases hi : i < w.npollFds
    · simp only [pollZero, if_pos hi]
      exact ⟨rfl, rfl⟩
    · simp only [pollZero, if_neg hi]
      exact h.behind i (by omega)
  nfiles_eq := h.nfiles_eq
  kept := rfl

theorem pollFollows_call (h : PollFollows nfiles w r) {e : Event} (hwatching : Watching e)
    (hallow : r.Allows nfiles e) :
    ∃ w', pollHandle w e = some w' ∧ PollFollows nfiles w' (r.step e) := by
  have hn := h.nfiles_eq
  cases e with
  | add fd =>
    obtain ⟨hfd, hnew⟩ := hallow
    have hlists := lists_add h.lists (by omega) hnew (h.behind _ le_rfl)
    have hroom := h.lists.room (by omega) fun hmem => hnew (h.lists.added fd hmem)
    refine ⟨_, if_neg (by omega), hlists, ?_, ?_, congrArg (fd :: ·) h.kept⟩
    · rw [pollAddFd, if_neg (by omega)]
      intro i hi
      dsimp only at hi ⊢
      rw [Function.update_of_ne (by omega)]
      exact h.behind i (by omega)
    · rw [pollAddFd, if_neg (by omega)]
      exact hn
  | set fd rw_ =>
    obtain ⟨hfd, hadded⟩ := hallow
    obtain ⟨w', hset, hfiles, -, hbehind, hlists⟩ := lists_set h.lists (h.kept ▸ hadded) rw_
    have hcount : w'.npollFds = w.npollFds := hlists.count.symm.trans h.lists.count
    refine ⟨w', (if_neg (by omega)).trans hset, hlists, ?_, hfiles.trans hn, h.kept⟩
    intro i hi
    rw [hbehind i (by omega)]
    exact h.behind i (by omega)
  | del fd => cases hwatching
  | zero => cases hwatching
  | watch answer => cases hwatching

theorem pollFollows_watch (h : PollFollows nfiles w r) (answer : ℕ → Ready) :
    PollFollows nfiles (pollWatch w (some answer)) (r.step (.watch (some answer))) where
  lists := lists_watch h.lists (some answer)
  behind := by
    intro i hi
    have hnot : ¬ i < w.npollFds := Nat.not_lt.mpr hi
    simp only [pollWatch, if_neg hnot]
    exact h.behind i hi
  nfiles_eq := h.nfiles_eq
  kept := h.kept

end poll

section select
variable {nfiles : ℕ} {w : SelectWatcher} {r : Round}

theorem selectFollows_zero (h : SelectFollows nfiles w r) :
    SelectFollows nfiles (selectZero w) .start where
  read := fun _ => rfl
  write := fun _ => rfl
  below := fun _ hfd => absurd hfd List.not_mem_nil
  unchanged := rfl
  count := rfl
  nfiles_eq := h.nfiles_eq

theorem selectFollows_add (h : SelectFollows nfiles w r) {fd : ℕ}
    (hroom : w.nselectFds < w.nfiles) :
    SelectFollows nfiles (selectAddFd w fd) (r.step (.add fd)) := by
  rw [selectAddFd, if_neg (by omega)]
  refine ⟨h.read, h.write, ?_, h.unchanged, congrArg (· + 1) h.count, h.nfiles_eq⟩
  intro a ha
  dsimp only
  rcases List.mem_cons.mp ha with rfl | ha
  · exact le_max_right _ _
  · exact (h.below a ha).trans (le_max_left _ _)

theorem selectFollows_set (h : SelectFollows nfiles w r) (fd : ℕ) (rw_ : Rw) :
    SelectFollows nfiles (selectSetFd w fd rw_) (r.step (.set fd rw_)) := by
  have harmed (a : ℕ) : ((r.step (.set fd rw_)).armed a) =
      if a = fd then (r.armed a).arm rw_ else r.armed a := by
    by_cases ha : a = fd
    · subst ha
      simp [Round.step]
    · simp [Round.step, ha]
  cases rw_ with
  | read =>
    refine ⟨fun a => ?_, fun a => ?_, h.below, h.unchanged, h.count, h.nfiles_eq⟩
    · rw [harmed]
      by_cases ha : a = fd <;> simp [selectSetFd, ha, Events.arm, h.read]
    · rw [harmed]
      by_cases ha : a = fd <;> simp [selectSetFd, ha, Events.arm, h.write]
  | write =>
    refine ⟨fun a => ?_, fun a => ?_, h.below, h.unchanged, h.count, h.nfiles_eq⟩
    · rw [harmed]
      by_cases ha : a = fd <;> simp [selectSetFd, ha, Events.arm, h.read]
    · rw [harmed]
      by_cases ha : a = fd <;> simp [selectSetFd, ha, Events.arm, h.write]

theorem selectGetMaxfd_eq (h : SelectFollows nfiles w r) : selectGetMaxfd w = w.maxfd := by
  rw [selectGetMaxfd, h.unchanged]
  rfl

theorem selectFollows_watch (h : SelectFollows nfiles w r) (answer : ℕ → Ready) :
    SelectFollows nfiles (selectWatch w (some answer)) (r.step (.watch (some answer))) where
  read := h.read
  write := h.write
  below := by
    intro fd hfd
    change (fd : ℤ) ≤ selectGetMaxfd w
    rw [selectGetMaxfd_eq h]
    exact h.below fd hfd
  unchanged := rfl
  count := h.count
  nfiles_eq := h.nfiles_eq

/-- `select_check_fd` behind the watch. -/
theorem selectCheckFd_watched (h : SelectFollows nfiles w r) (answer : ℕ → Ready) {fd : ℕ}
    (hfd : fd ∈ r.added) (rw_ : Rw) :
    selectCheckFd (selectWatch w (some answer)) fd rw_ =
      ((answer fd).revents (r.armed fd)).bit rw_ := by
  have hbelow : (fd : ℤ) ≤ selectGetMaxfd w := by
    rw [selectGetMaxfd_eq h]
    exact h.below fd hfd
  cases rw_ <;>
    simp [selectCheckFd, selectWatch, Revents.bit, Ready.revents, hbelow, h.read, h.write]

end select

section runs
variable {nfiles : ℕ} {s : Backends}

def Follows (nfiles : ℕ) (s : Backends) : Prop :=
  ∃ p q, s.poll = some p ∧ s.select = some q ∧ PollFollows nfiles p s.round ∧
    SelectFollows nfiles q s.round

theorem follows_start (nfiles : ℕ) : Follows nfiles (.start nfiles) :=
  ⟨_, _, rfl, rfl, ⟨lists_init nfiles, fun _ _ => ⟨rfl, rfl⟩, rfl, rfl⟩,
    ⟨fun _ => rfl, fun _ => rfl, fun _ h => absurd h List.not_mem_nil, rfl, rfl, rfl⟩⟩

theorem follows_call (h : Follows nfiles s) {e : Event} (hwatching : Watching e)
    (hallow : s.round.Allows nfiles e) : Follows nfiles (step s e) := by
  obtain ⟨poll, select, r⟩ := s
  obtain ⟨p, q, rfl, rfl, hp, hq⟩ := h
  obtain ⟨p', hp', hpoll⟩ := pollFollows_call hp hwatching hallow
  have hq' : ∃ q', selectHandle q e = some q' ∧ SelectFollows nfiles q' (r.step e) := by
    have hn := hq.nfiles_eq
    cases e with
    | add fd =>
      obtain ⟨hfd, hnew⟩ := hallow
      have hroom := hp.lists.room (hp.nfiles_eq ▸ hfd) fun hmem => hnew (hp.lists.added fd hmem)
      have hcount : q.nselectFds = p.npollFds := by
        rw [hq.count, ← hp.kept]
        exact hp.lists.count
      have hfiles := hp.nfiles_eq
      exact ⟨_, if_neg (by omega), selectFollows_add hq (by omega)⟩
    | set fd rw_ =>
      have hfd := hallow.1
      exact ⟨_, if_neg (by omega), selectFollows_set hq fd rw_⟩
    | del fd => cases hwatching
    | zero => cases hwatching
    | watch answer => cases hwatching
  obtain ⟨q', hq', hselect⟩ := hq'
  exact ⟨p', q', hp', hq', hpoll, hselect⟩

theorem follows_calls {calls : List Event} (h : Follows nfiles s)
    (hwatching : ∀ e ∈ calls, Watching e)
    (hallow : AllAlong Round.step (fun r e => r.Allows nfiles e) s.round calls) :
    Follows nfiles (run step s calls) := by
  induction calls generalizing s with
  | nil => exact h
  | cons e calls ih =>
    have hnext := follows_call h (hwatching e List.mem_cons_self) hallow.1
    exact ih hnext (fun a ha => hwatching a (List.mem_cons_of_mem e ha)) hallow.2

theorem follows_zero (h : Follows nfiles s) : Follows nfiles (step s .zero) := by
  obtain ⟨poll, select, r⟩ := s
  obtain ⟨p, q, rfl, rfl, hp, hq⟩ := h
  exact ⟨_, _, rfl, rfl, pollFollows_zero hp, selectFollows_zero hq⟩

theorem follows_watch (h : Follows nfiles s) (answer : ℕ → Ready) :
    Follows nfiles (step s (.watch (some answer))) := by
  obtain ⟨poll, select, r⟩ := s
  obtain ⟨p, q, rfl, rfl, hp, hq⟩ := h
  exact ⟨_, _, rfl, rfl, pollFollows_watch hp answer, selectFollows_watch hq answer⟩

theorem follows_armed (h : Follows nfiles s) (r : WatchRound nfiles) :
    Follows nfiles (run step (step s .zero) r.calls) :=
  follows_calls (follows_zero h) r.watching r.allowed

theorem run_events (s : Backends) (r : WatchRound nfiles) :
    run step s r.events = step (run step (step s .zero) r.calls) (.watch (some (marked r.found))) := by
  rw [WatchRound.events, run_cons, run_append]
  rfl

theorem follows_rounds (before : List (WatchRound nfiles)) (h : Follows nfiles s) :
    Follows nfiles (run step s (before.flatMap (·.events))) := by
  induction before generalizing s with
  | nil => exact h
  | cons r before ih =>
    rw [List.flatMap_cons, run_append, run_events]
    exact ih (follows_watch (follows_armed h r) _)

theorem checks_of_watch (h : Follows nfiles s) (found : ℕ → Ready) :
    ∃ p q, (step s (.watch (some (marked found)))).poll = some p ∧
      (step s (.watch (some (marked found)))).select = some q ∧
      ∀ fd ∈ s.round.added, ∀ rw,
        pollCheckFd p fd rw =
          (!(found fd).failed && ((marked found fd).revents (s.round.armed fd)).bit rw) ∧
        selectCheckFd q fd rw = ((marked found fd).revents (s.round.armed fd)).bit rw := by
  obtain ⟨poll, select, r⟩ := s
  obtain ⟨p, q, rfl, rfl, hp, hq⟩ := h
  refine ⟨_, _, rfl, rfl, fun fd hfd rw_ => ⟨?_, selectCheckFd_watched hq _ hfd rw_⟩⟩
  have hlisted : fd ∈ r.listed := hp.kept ▸ hfd
  have hwatched := pollFollows_watch hp (marked found)
  rw [pollCheckFd_listed hwatched.lists hlisted]
  simp only [Round.step, if_pos hlisted]
  rfl

/-- In every round, after any other rounds, the backends agree about a descriptor exactly if it has not
    failed while it was armed. -/
theorem backends_agree_iff (nfiles : ℕ) (before : List (WatchRound nfiles)) (last : WatchRound nfiles) :
    ∃ p q, (run step (.start nfiles) (before.flatMap (·.events) ++ last.events)).poll = some p ∧
      (run step (.start nfiles) (before.flatMap (·.events) ++ last.events)).select = some q ∧
      ∀ fd ∈ (run Round.step .start last.calls).added,
        (Agrees p q (run Round.step .start last.calls) last.found fd ↔
          ¬ ((last.found fd).failed = true ∧ (run Round.step .start last.calls).armed fd ≠ .none)) := by
  let s := run step (step (run step (.start nfiles) (before.flatMap (·.events))) .zero) last.calls
  have hfollows : Follows nfiles s := follows_armed (follows_rounds before (follows_start nfiles)) last
  have hround : s.round = run Round.step .start last.calls := by
    have hgeneral (calls : List Event) (t : Backends) :
        (run step t calls).round = run Round.step t.round calls := by
      induction calls generalizing t with
      | nil => rfl
      | cons e calls ih => exact ih (step t e)
    exact hgeneral last.calls _
  obtain ⟨p, q, hp, hq, hchecks⟩ := checks_of_watch hfollows last.found
  rw [run_append, run_events]
  refine ⟨p, q, hp, hq, fun fd hfd => ?_⟩
  rw [← hround] at hfd ⊢
  have hread := hchecks fd hfd .read
  have hwrite := hchecks fd hfd .write
  constructor
  · rintro hagrees ⟨hfailed, harmed⟩
    have hsame := hagrees.same
    have hnone : s.round.armed fd = .none := by
      have hr := hsame .read
      have hw := hsame .write
      rw [hread.1, hread.2] at hr
      rw [hwrite.1, hwrite.2] at hw
      cases hev : s.round.armed fd with
      | mk pollin pollout =>
        rw [hev] at hr hw
        simp only [hfailed, marked, Ready.revents, Revents.bit, Bool.not_true, Bool.false_and,
          Bool.or_true, Bool.and_true] at hr hw
        rw [← hr, ← hw]
        rfl
    exact harmed hnone
  · intro hnot
    cases hfailed : (last.found fd).failed with
    | false =>
      refine ⟨fun rw_ => ?_, fun h => absurd (hfailed.symm.trans h) Bool.false_ne_true⟩
      rw [(hchecks fd hfd rw_).1, (hchecks fd hfd rw_).2, hfailed]
      rfl
    | true =>
      have hquiet : s.round.armed fd = .none := by
        by_contra harmed
        exact hnot ⟨hfailed, harmed⟩
      refine ⟨fun rw_ => ?_, fun _ harmed => ?_⟩
      · rw [(hchecks fd hfd rw_).1, (hchecks fd hfd rw_).2, hfailed, hquiet]
        cases rw_ <;> rfl
      · rw [hquiet] at harmed
        cases harmed

end runs

def failedConnect : WatchRound 16 where
  calls := [.add 5, .set 5 .write]
  found := fun _ => ⟨false, false, true⟩
  watching := by simp [Watching]
  allowed := by simp [AllAlong, Round.Allows, Round.step, Round.start]

/-- Select tells that the socket is writable, and poll does not. -/
theorem failed_connect_unseen :
    ∃ p q, (run step (.start 16) failedConnect.events).poll = some p ∧
      (run step (.start 16) failedConnect.events).select = some q ∧
      5 ∈ (run Round.step .start failedConnect.calls).added ∧
      pollCheckFd p 5 .write = false ∧ selectCheckFd q 5 .write = true ∧
      ¬ Agrees p q (run Round.step .start failedConnect.calls) failedConnect.found 5 := by
  refine ⟨_, _, rfl, rfl, by decide +kernel, by decide +kernel, by decide +kernel, fun h => ?_⟩
  exact absurd (h.same .write) (by decide +kernel)

end Xdccget.BackendAgreement
