import Xdccget.FdWatcher

set_option autoImplicit false

/-!
# The index of the poll backend

`pollfds` is indexed by slots and `poll_fdidx` by descriptors. The listed descriptors and
the used slots stay inverse to each other; what is left behind by `poll_zero` and
`poll_del_fd` lies outside of the list.
-/
namespace Xdccget.PollIndex
open StepRuns FdWatcher

/-- The slots hold the listed descriptors, with what the round has made of them. -/
structure Lists (w : PollWatcher) (r : Round) : Prop where
  nodup : r.listed.Nodup
  valid : ∀ fd ∈ r.listed, fd < w.nfiles
  added : ∀ fd ∈ r.listed, fd ∈ r.added
  count : r.listed.length = w.npollFds
  indexed : ∀ fd ∈ r.listed, ∃ i < w.npollFds, w.pollFdidx fd = i ∧
    w.pollfds i = ⟨fd, r.armed fd, r.reported fd⟩
  owned : ∀ i < w.npollFds, ∃ fd ∈ r.listed, w.pollFdidx fd = i
  unseen : ∀ fd ∉ r.added, r.armed fd = .none ∧ r.reported fd = .none

def Clear (w : PollWatcher) (r : Round) : Prop := ∀ fd ∉ r.listed, w.pollFdidx fd = -1

section lists
variable {w : PollWatcher} {r : Round} {fd : ℕ}

theorem lists_init (nfiles : ℕ) : Lists (pollInit nfiles) .start where
  nodup := List.nodup_nil
  valid := fun _ h => absurd h List.not_mem_nil
  added := fun _ h => absurd h List.not_mem_nil
  count := rfl
  indexed := fun _ h => absurd h List.not_mem_nil
  owned := fun _ h => absurd h (Nat.not_lt_zero _)
  unseen := fun _ _ => ⟨rfl, rfl⟩

theorem Lists.index_inj (h : Lists w r) {a b i : ℕ} (ha : a ∈ r.listed) (hb : b ∈ r.listed)
    (hia : w.pollFdidx a = i) (hib : w.pollFdidx b = i) : a = b := by
  obtain ⟨j, -, hja, hslot⟩ := h.indexed a ha
  obtain ⟨k, -, hkb, hslot'⟩ := h.indexed b hb
  have hj : j = i := by omega
  have hk : k = i := by omega
  rw [hj] at hslot
  rw [hk, hslot, PollFd.mk.injEq] at hslot'
  omega

theorem Lists.slot (h : Lists w r) (hfd : fd ∈ r.listed) {i : ℕ} (hi : w.pollFdidx fd = i) :
    i < w.npollFds ∧ w.pollfds i = ⟨fd, r.armed fd, r.reported fd⟩ := by
  obtain ⟨j, hj, hindex, hslot⟩ := h.indexed fd hfd
  have hij : i = j := by omega
  rw [hij]
  exact ⟨hj, hslot⟩

theorem Lists.count_le (h : Lists w r) : w.npollFds ≤ w.nfiles := by
  have hsub : r.listed ⊆ List.range w.nfiles := fun fd hfd => List.mem_range.mpr (h.valid fd hfd)
  have hle := (h.nodup.subperm hsub).length_le
  rw [List.length_range] at hle
  exact h.count ▸ hle

theorem Lists.room (h : Lists w r) (hfd : fd < w.nfiles) (hnot : fd ∉ r.listed) :
    w.npollFds < w.nfiles := by
  have hsub : fd :: r.listed ⊆ List.range w.nfiles := by
    intro a ha
    rcases List.mem_cons.mp ha with rfl | ha
    · exact List.mem_range.mpr hfd
    · exact List.mem_range.mpr (h.valid a ha)
  have hle := ((List.nodup_cons.mpr ⟨hnot, h.nodup⟩).subperm hsub).length_le
  rw [List.length_range, List.length_cons, h.count] at hle
  exact hle

def NextEmpty (w : PollWatcher) : Prop :=
  (w.pollfds w.npollFds).events = .none ∧ (w.pollfds w.npollFds).revents = .none

theorem lists_add (h : Lists w r) (hfd : fd < w.nfiles) (hnew : fd ∉ r.added)
    (hempty : NextEmpty w) : Lists (pollAddFd w fd) (r.step (.add fd)) := by
  have hnot : fd ∉ r.listed := fun hmem => hnew (h.added fd hmem)
  have hroom := h.room hfd hnot
  obtain ⟨harmed, hreported⟩ := h.unseen fd hnew
  rw [pollAddFd, if_neg (by omega)]
  refine ⟨List.nodup_cons.mpr ⟨hnot, h.nodup⟩, ?_, ?_, ?_, ?_, ?_, ?_⟩
  · intro a ha
    rcases List.mem_cons.mp ha with rfl | ha
    · exact hfd
    · exact h.valid a ha
  · intro a ha
    rcases List.mem_cons.mp ha with rfl | ha
    · exact List.mem_cons_self
    · exact List.mem_cons_of_mem fd (h.added a ha)
  · exact congrArg (· + 1) h.count
  · intro a ha
    dsimp only
    rcases List.mem_cons.mp ha with rfl | ha
    · refine ⟨w.npollFds, Nat.lt_succ_self _, Function.update_self _ _ _, ?_⟩
      rw [Function.update_self, hempty.1, hempty.2]
      change _ = PollFd.mk a (r.armed a) (r.reported a)
      rw [harmed, hreported]
    · have hne : a ≠ fd := fun he => hnot (he ▸ ha)
      obtain ⟨i, hi, hindex, hslot⟩ := h.indexed a ha
      refine ⟨i, by omega, ?_, ?_⟩
      · rw [Function.update_of_ne hne, hindex]
      · rw [Function.update_of_ne (by omega)]
        exact hslot
  · intro i hi
    by_cases hlast : i = w.npollFds
    · exact ⟨fd, List.mem_cons_self, by rw [hlast]; exact Function.update_self _ _ _⟩
    · dsimp only at hi
      obtain ⟨a, ha, hindex⟩ := h.owned i (by omega)
      have hne : a ≠ fd := fun he => hnot (he ▸ ha)
      exact ⟨a, List.mem_cons_of_mem fd ha, (Function.update_of_ne hne _ _).trans hindex⟩
  · intro a ha
    exact h.unseen a fun hmem => ha (List.mem_cons_of_mem fd hmem)

theorem lists_set (h : Lists w r) (hfd : fd ∈ r.listed) (rw_ : Rw) :
    ∃ w', pollSetFd w fd rw_ = some w' ∧ w'.nfiles = w.nfiles ∧ w'.pollFdidx = w.pollFdidx ∧
      (∀ j, w.npollFds ≤ j → w'.pollfds j = w.pollfds j) ∧ Lists w' (r.step (.set fd rw_)) := by
  obtain ⟨i, hi, hindex, hslot⟩ := h.indexed fd hfd
  have hle := h.count_le
  have hnat : (w.pollFdidx fd).toNat = i := by omega
  have hset : pollSetFd w fd rw_ = some
      { w with
        pollfds := Function.update w.pollfds i
          { w.pollfds i with events := (w.pollfds i).events.arm rw_ } } := by
    unfold pollSetFd
    dsimp only
    rw [if_neg (by omega), hnat]
  refine ⟨_, hset, rfl, rfl, fun j hj => Function.update_of_ne (by omega) _ _, h.nodup, h.valid,
    h.added, h.count, ?_, h.owned, ?_⟩
  · intro a ha
    obtain ⟨j, hj, hja, hother⟩ := h.indexed a ha
    refine ⟨j, hj, hja, ?_⟩
    by_cases hij : j = i
    · have hafd : a = fd := h.index_inj ha hfd (hij ▸ hja) hindex
      subst hij hafd
      simp [Round.step, hslot]
    · have hne : a ≠ fd := by
        rintro rfl
        omega
      simp [Round.step, hij, hne, hother]
  · intro a ha
    have hne : a ≠ fd := fun he => ha (he ▸ h.added fd hfd)
    simpa [Round.step, hne] using h.unseen a ha

/-- `poll_del_fd` for a listed descriptor: the last one takes over its slot. -/
theorem pollDelFd_eq (h : Lists w r) {i g : ℕ} (hi : i < w.npollFds) (hindex : w.pollFdidx fd = i)
    (hg : ∃ e v, moveLast w i i = ⟨g, e, v⟩) :
    pollDelFd w fd = some
      { w with
        pollfds := Function.update (moveLast w i) (w.npollFds - 1)
          { moveLast w i (w.npollFds - 1) with fd := -1 }
        pollFdidx := Function.update (Function.update w.pollFdidx g i) fd (-1)
        npollFds := w.npollFds - 1 } := by
  obtain ⟨e, v, hmoved⟩ := hg
  have hle := h.count_le
  have hnat : (w.pollFdidx fd).toNat = i := by omega
  have hfd : ¬ (moveLast w i i).fd < 0 := by
    rw [hmoved]
    dsimp only
    omega
  have hgnat : (moveLast w i i).fd.toNat = g := by
    rw [hmoved]
    exact Int.toNat_natCast g
  unfold pollDelFd
  dsimp only
  rw [if_neg (by omega), if_neg (by omega), hnat, if_neg hfd, hgnat, hindex]

theorem lists_del (h : Lists w r) (hfd : fd ∈ r.listed) :
    ∃ w', pollDelFd w fd = some w' ∧ w'.nfiles = w.nfiles ∧ Lists w' (r.step (.del fd)) ∧
      w'.pollFdidx fd = -1 ∧ ∀ a ∉ r.listed, w'.pollFdidx a = w.pollFdidx a := by
  obtain ⟨i, hi, hindex, hslot⟩ := h.indexed fd hfd
  obtain ⟨g, hg, hgindex⟩ := h.owned (w.npollFds - 1) (by omega)
  have hgslot := (h.slot hg hgindex).2
  have hmember {a : ℕ} (ha : a ∈ r.listed.erase fd) : a ∈ r.listed ∧ a ≠ fd :=
    (h.nodup.mem_erase_iff.mp ha).symm
  have hcount : (r.listed.erase fd).length = w.npollFds - 1 := by
    rw [List.length_erase_of_mem hfd, h.count]
  have hmoved : ∃ e v, moveLast w i i = ⟨g, e, v⟩ := by
    unfold moveLast
    dsimp only
    rw [Function.update_self]
    by_cases hlast : w.npollFds - 1 = i
    · rw [hlast, Function.update_self]
      rw [hlast] at hgindex
      rw [h.index_inj hg hfd hgindex hindex, hslot]
      exact ⟨_, _, rfl⟩
    · rw [Function.update_of_ne hlast, hgslot]
      exact ⟨_, _, rfl⟩
  refine ⟨_, pollDelFd_eq h hi hindex hmoved, rfl, ⟨h.nodup.erase fd, ?_, ?_, hcount, ?_, ?_, h.unseen⟩,
    Function.update_self _ _ _, ?_⟩
  · exact fun a ha => h.valid a (hmember ha).1
  · exact fun a ha => h.added a (hmember ha).1
  · intro a ha
    obtain ⟨hlisted, hne⟩ := hmember ha
    obtain ⟨j, hj, hja, hother⟩ := h.indexed a hlisted
    have hji : j ≠ i := by
      rintro rfl
      exact hne (h.index_inj hlisted hfd hja hindex)
    dsimp only
    by_cases hag : a = g
    · -- the descriptor of the last slot, which is not the one that is deleted
      subst hag
      have hjlast : j = w.npollFds - 1 := by omega
      refine ⟨i, by omega, ?_, ?_⟩
      · rw [Function.update_of_ne hne, Function.update_self]
      · rw [Function.update_of_ne (by omega), moveLast, Function.update_self,
          Function.update_of_ne (by omega), hgslot]
        rfl
    · have hjlast : j ≠ w.npollFds - 1 := by
        rintro rfl
        exact hag (h.index_inj hlisted hg hja hgindex)
      refine ⟨j, by omega, ?_, ?_⟩
      · rw [Function.update_of_ne hne, Function.update_of_ne hag, hja]
      · rw [Function.update_of_ne hjlast, moveLast, Function.update_of_ne hji,
          Function.update_of_ne hji]
        exact hother
  · intro j hj
    dsimp only at hj
    by_cases hji : j = i
    · have hgfd : g ≠ fd := by
        rintro rfl
        omega
      refine ⟨g, h.nodup.mem_erase_iff.mpr ⟨hgfd, hg⟩, ?_⟩
      dsimp only
      rw [Function.update_of_ne hgfd, Function.update_self, hji]
    · obtain ⟨a, ha, hja⟩ := h.owned j (by omega)
      have hafd : a ≠ fd := by
        rintro rfl
        omega
      have hag : a ≠ g := by
        rintro rfl
        omega
      refine ⟨a, h.nodup.mem_erase_iff.mpr ⟨hafd, ha⟩, ?_⟩
      dsimp only
      rw [Function.update_of_ne hafd, Function.update_of_ne hag, hja]
  · intro a ha
    have hafd : a ≠ fd := fun he => ha (he ▸ hfd)
    have hag : a ≠ g := fun he => ha (he ▸ hg)
    dsimp only
    rw [Function.update_of_ne hafd, Function.update_of_ne hag]

theorem lists_zero (w : PollWatcher) : Lists (pollZero w) .start where
  nodup := List.nodup_nil
  valid := fun _ h => absurd h List.not_mem_nil
  added := fun _ h => absurd h List.not_mem_nil
  count := rfl
  indexed := fun _ h => absurd h List.not_mem_nil
  owned := fun _ h => absurd h (Nat.not_lt_zero _)
  unseen := fun _ _ => ⟨rfl, rfl⟩

theorem lists_watch (h : Lists w r) (answer : Option (ℕ → Ready)) :
    Lists (pollWatch w answer) (r.step (.watch answer)) := by
  cases answer with
  | none => exact h
  | some answer =>
    refine ⟨h.nodup, h.valid, h.added, h.count, ?_, h.owned, ?_⟩
    · intro fd hfd
      obtain ⟨i, hi, hindex, hslot⟩ := h.indexed fd hfd
      refine ⟨i, hi, hindex, ?_⟩
      have hpos : ¬ (fd : ℤ) < 0 := by omega
      have hmem : fd ∈ r.listed := hfd
      simp [pollWatch, Round.step, PollFd.polled, hi, hslot, hmem, hpos]
    · intro fd hfd
      have hnot : fd ∉ r.listed := fun hmem => hfd (h.added fd hmem)
      simpa [Round.step, hnot] using h.unseen fd hfd

/-- `poll_check_fd` for a listed descriptor. -/
theorem pollCheckFd_listed (h : Lists w r) (hfd : fd ∈ r.listed) (rw_ : Rw) :
    pollCheckFd w fd rw_ = (!(r.reported fd).pollerr && (r.reported fd).bit rw_) := by
  obtain ⟨i, hi, hindex, hslot⟩ := h.indexed fd hfd
  have hle := h.count_le
  have hnat : (w.pollFdidx fd).toNat = i := by omega
  unfold pollCheckFd
  dsimp only
  rw [if_neg (by omega), hnat, hslot]
  cases (r.reported fd).pollerr <;> rfl

/-- What `poll_zero` clears is the whole index only if the descriptors are small. -/
theorem clear_zero_iff (h : Lists w r) (hclear : Clear w r) :
    Clear (pollZero w) .start ↔ ∀ fd ∈ r.listed, fd < r.listed.length := by
  constructor
  · intro hzero fd hfd
    by_contra hlarge
    obtain ⟨i, -, hindex, -⟩ := h.indexed fd hfd
    have hstale := hzero fd List.not_mem_nil
    rw [h.count] at hlarge
    simp only [pollZero, if_neg hlarge] at hstale
    omega
  · intro hsmall fd _
    by_cases hfd : fd < w.npollFds
    · exact if_pos hfd
    · have hnot : fd ∉ r.listed := fun hmem => hfd (h.count ▸ hsmall fd hmem)
      simp only [pollZero, if_neg hfd]
      exact hclear fd hnot

end lists

structure Tracked where
  poll : Option PollWatcher
  round : Round

def Tracked.start (nfiles : ℕ) : Tracked := ⟨some (pollInit nfiles), .start⟩

def step (s : Tracked) (e : Event) : Tracked := ⟨pollStep s.poll e, s.round.step e⟩

/-- The calls that leave nothing stale behind: only small descriptors are listed when the list is
    zeroed, only listed ones are armed, and the slot that is taken next is empty. -/
def Harmless (s : Tracked) : Event → Prop
  | .add _ => ∀ w, s.poll = some w → NextEmpty w
  | .set fd _ => fd ∈ s.round.listed
  | .del _ => True
  | .zero => ∀ fd ∈ s.round.listed, fd < s.round.listed.length
  | .watch _ => True

/-- An index leads to the slot of its descriptor, and a descriptor that is ready has been added and
    armed in this round and reported by the last watch. -/
structure Faithful (w : PollWatcher) (r : Round) : Prop where
  index : ∀ fd < w.nfiles, ∀ i : ℕ, w.pollFdidx fd = i → i < w.npollFds ∧ (w.pollfds i).fd = fd
  check : ∀ fd < w.nfiles, ∀ rw, pollCheckFd w fd rw = true →
    fd ∈ r.added ∧ (r.armed fd).bit rw = true ∧ (r.reported fd).bit rw = true

section runs
variable {s : Tracked} {nfiles : ℕ}

/-- The invariant of a run. What was reported was armed at that time. -/
structure Tracks (nfiles : ℕ) (w : PollWatcher) (r : Round) : Prop where
  lists : Lists w r
  clear : Clear w r
  nfiles_eq : w.nfiles = nfiles
  reported : ∀ fd rw, (r.reported fd).bit rw = true → (r.armed fd).bit rw = true

theorem bit_revents (answer : Ready) (e : Events) (rw_ : Rw)
    (h : (answer.revents e).bit rw_ = true) : e.bit rw_ = true := by
  cases rw_ <;> simp_all [Ready.revents, Revents.bit, Events.bit]

theorem bit_arm {e : Events} {a b : Rw} (h : e.bit a = true) : (e.arm b).bit a = true := by
  cases a <;> cases b <;> simp_all [Events.bit, Events.arm]

theorem reported_armed {r : Round} (h : ∀ fd rw, (r.reported fd).bit rw = true →
      (r.armed fd).bit rw = true) (e : Event) :
    ∀ fd rw, ((r.step e).reported fd).bit rw = true → ((r.step e).armed fd).bit rw = true := by
  intro fd rw_ hbit
  cases e with
  | add a => exact h fd rw_ hbit
  | del a => exact h fd rw_ hbit
  | zero => cases rw_ <;> cases hbit
  | set a b =>
    have harmed := h fd rw_ hbit
    by_cases hfd : fd = a
    · subst hfd
      simp only [Round.step, Function.update_self]
      exact bit_arm harmed
    · simpa [Round.step, hfd] using harmed
  | watch answer =>
    cases answer with
    | none => exact h fd rw_ hbit
    | some answer =>
      simp only [Round.step] at hbit
      split at hbit
      · exact bit_revents _ _ rw_ hbit
      · exact h fd rw_ hbit

theorem tracks_handle {w : PollWatcher} {r : Round} (h : Tracks nfiles w r) {e : Event}
    (hallow : r.Allows nfiles e) (hharm : Harmless ⟨some w, r⟩ e) :
    ∃ w', pollHandle w e = some w' ∧ Tracks nfiles w' (r.step e) := by
  have hreported := reported_armed h.reported e
  have hn := h.nfiles_eq
  cases e with
  | add fd =>
    have hvalid : ¬ w.nfiles ≤ fd := by
      have hlt := hallow.1
      omega
    have hlists := lists_add h.lists (by omega) hallow.2 (hharm w rfl)
    have hadd : ∀ a, a ∉ fd :: r.listed → (pollAddFd w fd).pollFdidx a = -1 := by
      intro a ha
      rw [List.mem_cons, not_or] at ha
      have hroom := h.lists.room (by omega) fun hmem => hallow.2 (h.lists.added fd hmem)
      rw [pollAddFd, if_neg (by omega)]
      exact (Function.update_of_ne ha.1 _ _).trans (h.clear a ha.2)
    have hfiles : (pollAddFd w fd).nfiles = nfiles := by
      unfold pollAddFd
      split <;> exact hn
    exact ⟨_, if_neg hvalid, hlists, hadd, hfiles, hreported⟩
  | set fd rw_ =>
    have hvalid : ¬ w.nfiles ≤ fd := by
      have hlt := hallow.1
      omega
    obtain ⟨w', hset, hfiles, hindex, -, hlists⟩ := lists_set h.lists hharm rw_
    refine ⟨w', (if_neg hvalid).trans hset, hlists, ?_, hfiles.trans hn, hreported⟩
    intro a ha
    rw [hindex]
    exact h.clear a ha
  | del fd =>
    have hvalid : ¬ w.nfiles ≤ fd := by
      have hlt := hallow.1
      omega
    by_cases hfd : fd ∈ r.listed
    · obtain ⟨w', hdel, hfiles, hlists, hself, hother⟩ := lists_del h.lists hfd
      refine ⟨w', (if_neg hvalid).trans hdel, hlists, ?_, hfiles.trans hn, hreported⟩
      intro a ha
      by_cases ha' : a ∈ r.listed
      · have hafd : a = fd := by
          by_contra hne
          exact ha (h.lists.nodup.mem_erase_iff.mpr ⟨hne, ha'⟩)
        rw [hafd]
        exact hself
      · rw [hother a ha']
        exact h.clear a ha'
    · have hnone : pollDelFd w fd = some w := by
        unfold pollDelFd
        dsimp only
        rw [h.clear fd hfd]
        exact if_pos (Or.inl (by omega))
      have hround : r.step (.del fd) = r := by
        simp only [Round.step, List.erase_of_not_mem hfd]
      rw [hround]
      exact ⟨w, (if_neg hvalid).trans hnone, h⟩
  | zero =>
    exact ⟨pollZero w, rfl, lists_zero w, (clear_zero_iff h.lists h.clear).mpr hharm, hn, hreported⟩
  | watch answer =>
    have hlists := lists_watch h.lists answer
    cases answer with
    | none => exact ⟨w, rfl, h⟩
    | some answer => exact ⟨_, rfl, hlists, h.clear, hn, hreported⟩

theorem Tracks.faithful {w : PollWatcher} {r : Round} (h : Tracks nfiles w r) : Faithful w r where
  index := by
    intro fd _ i hi
    by_cases hfd : fd ∈ r.listed
    · obtain ⟨hlt, hslot⟩ := h.lists.slot hfd hi
      exact ⟨hlt, by rw [hslot]⟩
    · have hnone := h.clear fd hfd
      omega
  check := by
    intro fd _ rw_ hcheck
    by_cases hfd : fd ∈ r.listed
    · rw [pollCheckFd_listed h.lists hfd, Bool.and_eq_true] at hcheck
      exact ⟨h.lists.added fd hfd, h.reported fd rw_ hcheck.2, hcheck.2⟩
    · unfold pollCheckFd at hcheck
      dsimp only at hcheck
      rw [h.clear fd hfd, if_pos (Or.inl (by omega))] at hcheck
      cases hcheck

/-- In a run of harmless calls the index is faithful, and no access leaves the arrays. -/
theorem poll_index_faithful (nfiles : ℕ) (events : List Event)
    (hallow : AllAlong step (fun s e => s.round.Allows nfiles e) (.start nfiles) events)
    (hharm : AllAlong step Harmless (.start nfiles) events) :
    ∃ w, (run step (.start nfiles) events).poll = some w ∧
      Faithful w (run step (.start nfiles) events).round := by
  let inv (s : Tracked) : Prop := ∃ w, s.poll = some w ∧ Tracks nfiles w s.round
  have hstart : inv (.start nfiles) :=
    ⟨_, rfl, lists_init nfiles, fun _ _ => rfl, rfl, fun _ rw_ h => by cases rw_ <;> cases h⟩
  have hstep : ∀ s e, inv s → s.round.Allows nfiles e ∧ Harmless s e → inv (step s e) := by
    rintro ⟨poll, r⟩ e ⟨w, rfl, h⟩ ⟨ha, hh⟩
    exact tracks_handle h ha hh
  obtain ⟨w, hw, h⟩ := run_invariant_of_allAlong hstep hstart (hallow.and hharm)
  exact ⟨w, hw, h.faithful⟩

end runs

def allReady : ℕ → Ready := fun _ => ⟨true, true, false⟩

def lowRounds : List Event :=
  [.add 1, .add 0, .set 0 .read, .watch (some allReady), .del 1, .zero, .add 1]

theorem poll_index_faithful_low :
    ∃ w, (run step (.start 16) lowRounds).poll = some w ∧
      Faithful w (run step (.start 16) lowRounds).round :=
  have hallow : AllAlong step (fun s e => s.round.Allows 16 e) (.start 16) lowRounds := by
    simp [AllAlong, lowRounds, step, Round.Allows, Round.step, Tracked.start, Round.start]
  have hempty (s : Tracked) (h : s.poll.all fun w => w.pollfds w.npollFds = .empty) :
      ∀ w, s.poll = some w → NextEmpty w := by
    intro w hw
    rw [hw, Option.all_some, decide_eq_true_eq] at h
    rw [NextEmpty, h]
    exact ⟨rfl, rfl⟩
  have hzero : ∀ fd ∈ [0], fd < 1 := by decide
  poll_index_faithful 16 lowRounds hallow
    ⟨hempty _ (by decide), hempty _ (by decide +kernel), List.mem_cons_self, trivial, trivial,
      hzero, hempty _ (by decide +kernel), trivial⟩

def twoRounds : List Event :=
  [.add 5, .set 5 .read, .watch (some allReady), .zero, .add 6, .set 6 .read, .watch (some allReady)]

/-- The index of socket 5 survives its round, and then leads to the slot of socket 6. -/
theorem stale_poll_index :
    AllAlong step (fun s e => s.round.Allows 16 e) (.start 16) twoRounds ∧
      ∃ w, (run step (.start 16) twoRounds).poll = some w ∧ w.pollFdidx 5 = 0 ∧
        (w.pollfds 0).fd = 6 ∧ pollCheckFd w 5 .read = true ∧
        ¬ Faithful w (run step (.start 16) twoRounds).round := by
  have hallow : AllAlong step (fun s e => s.round.Allows 16 e) (.start 16) twoRounds := by
    simp [AllAlong, twoRounds, step, Round.Allows, Round.step, Tracked.start, Round.start]
  refine ⟨hallow, _, rfl, by decide +kernel, by decide +kernel, by decide +kernel, fun h => ?_⟩
  exact absurd (h.check 5 (by decide +kernel) .read (by decide +kernel)).1 (by decide +kernel)

end Xdccget.PollIndex
