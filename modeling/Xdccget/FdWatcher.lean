import Xdccget.StepRuns

set_option autoImplicit false

/-!
# The descriptors that are watched

The poll and the select backend of `fd_watcher.c`. An access outside of an array is
`none`. The kernel answers a watch with what it finds at each descriptor.
-/
namespace Xdccget.FdWatcher

/-- `FDW_READ` and `FDW_WRITE` -/
inductive Rw
  | read | write
  deriving DecidableEq, Repr

/-- The bits of `events`. -/
structure Events where
  pollin : Bool
  pollout : Bool
  deriving DecidableEq, Repr

/-- The bits of `revents` that are looked at. -/
structure Revents where
  pollin : Bool
  pollout : Bool
  pollerr : Bool
  deriving DecidableEq, Repr

def Events.none : Events := ⟨false, false⟩

def Revents.none : Revents := ⟨false, false, false⟩

def Events.bit (e : Events) : Rw → Bool
  | .read => e.pollin
  | .write => e.pollout

def Revents.bit (e : Revents) : Rw → Bool
  | .read => e.pollin
  | .write => e.pollout

/-- `events |= POLLIN` and `events |= POLLOUT` -/
def Events.arm (e : Events) : Rw → Events
  | .read => { e with pollin := true }
  | .write => { e with pollout := true }

structure Ready where
  readable : Bool
  writable : Bool
  failed : Bool
  deriving DecidableEq, Repr

def Ready.revents (r : Ready) (e : Events) : Revents :=
  ⟨e.pollin && r.readable, e.pollout && r.writable, r.failed⟩

inductive Event
  | add (fd : ℕ)
  | set (fd : ℕ) (rw : Rw)
  | del (fd : ℕ)
  | zero
  | watch (answer : Option (ℕ → Ready))

structure PollFd where
  fd : ℤ
  events : Events
  revents : Revents
  deriving DecidableEq, Repr

/-- The slot as `poll_zero_out` leaves it. -/
def PollFd.empty : PollFd := ⟨-1, .none, .none⟩

structure PollWatcher where
  nfiles : ℕ
  pollfds : ℕ → PollFd
  npollFds : ℕ
  pollFdidx : ℕ → ℤ

def pollInit (nfiles : ℕ) : PollWatcher :=
  { nfiles := nfiles, pollfds := fun _ => .empty, npollFds := 0, pollFdidx := fun _ => -1 }

/-- `poll_add_fd`. A full list takes nothing. -/
def pollAddFd (w : PollWatcher) (fd : ℕ) : PollWatcher :=
  if w.nfiles ≤ w.npollFds then w
  else
    { w with
      pollfds := Function.update w.pollfds w.npollFds { w.pollfds w.npollFds with fd := fd }
      pollFdidx := Function.update w.pollFdidx fd w.npollFds
      npollFds := w.npollFds + 1 }

/-- The last slot takes the place of slot `i`, with its events. -/
def moveLast (w : PollWatcher) (i : ℕ) : ℕ → PollFd :=
  let cleared := Function.update w.pollfds i { w.pollfds i with events := .none, revents := .none }
  Function.update cleared i (cleared (w.npollFds - 1))

/-- `poll_del_fd`. An index of an empty list and a slot without a descriptor lead out of the arrays. -/
def pollDelFd (w : PollWatcher) (fd : ℕ) : Option PollWatcher :=
  let idx := w.pollFdidx fd
  if idx < 0 ∨ (w.nfiles : ℤ) ≤ idx then some w
  else if w.npollFds = 0 then none
  else
    let last := w.npollFds - 1
    let moved := moveLast w idx.toNat
    let movedFd := (moved idx.toNat).fd
    if movedFd < 0 then none
    else
      some
        { w with
          pollfds := Function.update moved last { moved last with fd := -1 }
          pollFdidx := Function.update (Function.update w.pollFdidx movedFd.toNat idx) fd (-1)
          npollFds := last }

/-- `poll_set_fd`, which does not look at the index. -/
def pollSetFd (w : PollWatcher) (fd : ℕ) (rw : Rw) : Option PollWatcher :=
  let idx := w.pollFdidx fd
  if idx < 0 ∨ (w.nfiles : ℤ) ≤ idx then none
  else
    let slot := w.pollfds idx.toNat
    some
      { w with
        pollfds := Function.update w.pollfds idx.toNat { slot with events := slot.events.arm rw } }

/-- `poll_zero` hands the number of the descriptors to `poll_zero_out`, which clears that many cells of
    both arrays. -/
def pollZero (w : PollWatcher) : PollWatcher :=
  { w with
    pollfds := fun i => if i < w.npollFds then .empty else w.pollfds i
    pollFdidx := fun fd => if fd < w.npollFds then -1 else w.pollFdidx fd
    npollFds := 0 }

/-- What `poll` makes of a slot. -/
def PollFd.polled (p : PollFd) (answer : ℕ → Ready) : PollFd :=
  { p with revents := if p.fd < 0 then .none else (answer p.fd.toNat).revents p.events }

/-- A call that fails leaves the slots as they are. -/
def pollWatch (w : PollWatcher) (answer : Option (ℕ → Ready)) : PollWatcher :=
  match answer with
  | none => w
  | some answer =>
    { w with
      pollfds := fun i => if i < w.npollFds then (w.pollfds i).polled answer else w.pollfds i }

def pollCheckFd (w : PollWatcher) (fd : ℕ) (rw : Rw) : Bool :=
  let idx := w.pollFdidx fd
  if idx < 0 ∨ (w.nfiles : ℤ) ≤ idx then false
  else
    let revents := (w.pollfds idx.toNat).revents
    if revents.pollerr then false else revents.bit rw

def pollHandle (w : PollWatcher) : Event → Option PollWatcher
  | .add fd => if w.nfiles ≤ fd then some w else some (pollAddFd w fd)
  | .set fd rw => if w.nfiles ≤ fd then some w else pollSetFd w fd rw
  | .del fd => if w.nfiles ≤ fd then some w else pollDelFd w fd
  | .zero => some (pollZero w)
  | .watch answer => some (pollWatch w answer)

def pollStep (w : Option PollWatcher) (e : Event) : Option PollWatcher := w.bind (pollHandle · e)

structure SelectWatcher where
  nfiles : ℕ
  masterRfdset : ℕ → Bool
  masterWfdset : ℕ → Bool
  workingRfdset : ℕ → Bool
  workingWfdset : ℕ → Bool
  selectFds : ℕ → ℤ
  selectFdidx : ℕ → ℤ
  nselectFds : ℕ
  maxfd : ℤ
  maxfdChanged : Bool

def selectInit (nfiles : ℕ) : SelectWatcher :=
  { nfiles := nfiles, masterRfdset := fun _ => false, masterWfdset := fun _ => false,
    workingRfdset := fun _ => false, workingWfdset := fun _ => false, selectFds := fun _ => -1,
    selectFdidx := fun _ => -1, nselectFds := 0, maxfd := -1, maxfdChanged := false }

def selectAddFd (w : SelectWatcher) (fd : ℕ) : SelectWatcher :=
  if w.nfiles ≤ w.nselectFds then w
  else
    { w with
      selectFds := Function.update w.selectFds w.nselectFds fd
      maxfd := max w.maxfd fd
      selectFdidx := Function.update w.selectFdidx fd w.nselectFds
      nselectFds := w.nselectFds + 1 }

def selectSetFd (w : SelectWatcher) (fd : ℕ) : Rw → SelectWatcher
  | .read => { w with masterRfdset := Function.update w.masterRfdset fd true }
  | .write => { w with masterWfdset := Function.update w.masterWfdset fd true }

def selectZero (w : SelectWatcher) : SelectWatcher :=
  { w with
    masterRfdset := fun _ => false
    masterWfdset := fun _ => false
    nselectFds := 0
    maxfdChanged := false
    maxfd := -1 }

def selectDelFd (w : SelectWatcher) (fd : ℕ) : Option SelectWatcher :=
  let idx := w.selectFdidx fd
  if idx < 0 ∨ (w.nfiles : ℤ) ≤ idx then some w
  else if w.nselectFds = 0 then none
  else
    let last := w.nselectFds - 1
    let moved := Function.update w.selectFds idx.toNat (w.selectFds last)
    let movedFd := moved idx.toNat
    if movedFd < 0 then none
    else
      some
        { w with
          selectFds := Function.update moved last (-1)
          selectFdidx := Function.update (Function.update w.selectFdidx movedFd.toNat idx) fd (-1)
          nselectFds := last
          masterRfdset := Function.update w.masterRfdset fd false
          masterWfdset := Function.update w.masterWfdset fd false
          maxfdChanged := w.maxfdChanged || decide (w.maxfd ≤ fd) }

/-- `select_get_maxfd` -/
def selectGetMaxfd (w : SelectWatcher) : ℤ :=
  if w.maxfdChanged then ((List.range w.nselectFds).map w.selectFds).foldl max (-1) else w.maxfd

/-- `select` looks at the descriptors up to the largest one. A call that fails leaves the sets as they
    are. -/
def selectWatch (w : SelectWatcher) (answer : Option (ℕ → Ready)) : SelectWatcher :=
  let mfd := selectGetMaxfd w
  let kept (fd : ℕ) (ready : Ready → Bool) : Bool :=
    match answer with
    | none => true
    | some answer => decide ((fd : ℤ) ≤ mfd) && ready (answer fd)
  { w with
    workingRfdset := fun fd => w.masterRfdset fd && kept fd (·.readable)
    workingWfdset := fun fd => w.masterWfdset fd && kept fd (·.writable)
    maxfd := mfd
    maxfdChanged := false }

def selectCheckFd (w : SelectWatcher) (fd : ℕ) : Rw → Bool
  | .read => w.workingRfdset fd
  | .write => w.workingWfdset fd

def selectHandle (w : SelectWatcher) : Event → Option SelectWatcher
  | .add fd => if w.nfiles ≤ fd then some w else some (selectAddFd w fd)
  | .set fd rw => if w.nfiles ≤ fd then some w else some (selectSetFd w fd rw)
  | .del fd => if w.nfiles ≤ fd then some w else selectDelFd w fd
  | .zero => some (selectZero w)
  | .watch answer => some (selectWatch w answer)

def selectStep (w : Option SelectWatcher) (e : Event) : Option SelectWatcher :=
  w.bind (selectHandle · e)

/-- What the callers have done since the last `fdwatch_zero`: the descriptors they have added, the ones
    among them that are not deleted, what they are armed for, and what the last watch has reported. -/
structure Round where
  added : List ℕ
  listed : List ℕ
  armed : ℕ → Events
  reported : ℕ → Revents

def Round.start : Round :=
  { added := [], listed := [], armed := fun _ => .none, reported := fun _ => .none }

def Round.step (r : Round) : Event → Round
  | .add fd => { r with added := fd :: r.added, listed := fd :: r.listed }
  | .set fd rw => { r with armed := Function.update r.armed fd ((r.armed fd).arm rw) }
  | .del fd => { r with listed := r.listed.erase fd }
  | .zero => .start
  | .watch none => r
  | .watch (some answer) =>
    { r with
      reported := fun fd =>
        if fd ∈ r.listed then (answer fd).revents (r.armed fd) else r.reported fd }

/-- Descriptors are valid, added once in a round, and used only when they have been added. -/
def Round.Allows (r : Round) (nfiles : ℕ) : Event → Prop
  | .add fd => fd < nfiles ∧ fd ∉ r.added
  | .set fd _ => fd < nfiles ∧ fd ∈ r.added
  | .del fd => fd < nfiles ∧ fd ∈ r.added
  | .zero => True
  | .watch _ => True

end Xdccget.FdWatcher
