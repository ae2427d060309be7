import Xdccget.QuitTiming

set_option autoImplicit false

/-!
# The current transfer speed

`getCurrentTransferSpeed` adds up the averages that stand in the progress records. The
records are followed here under the events that write them, whatever made these happen;
every run of the client is such a run.
-/
namespace Xdccget.TransferSpeeds
open CText ClientState Downloads DccEvents DownloadSpecs TableChanges StepRuns QuitTiming

/-- An entry of `downloadContext`: its record, and whether its file is open. -/
structure Entry where
  progress : DccDownloadProgress
  isOpen : Bool

/-- The table, with the downloads that have been completed, and for each the average that
`outputProgress` has computed last. -/
structure Table where
  entries : List Entry
  finished : List ℕ
  computed : ℕ → Option ℕ

def emptyTable : Table := ⟨[], [], fun _ => none⟩

inductive TableEvent
  | offer (env : Env) (completePath : Bytes) (size : ℕ) (isOpen : Bool)
  | chunk (context length : ℕ)
  | resume (context length : ℕ)
  | output
  | complete (context : ℕ)

/-- What `outputProgress` computes for a record. -/
def average (p : DccDownloadProgress) : Option ℕ :=
  if 0 < p.sizeRcvd then some (outputProgress p).averageSpeed else none

def Table.modify (t : Table) (context : ℕ) (f : Entry → Entry) : Table :=
  { t with entries := t.entries.modify context f }

def received (length : ℕ) (e : Entry) : Entry :=
  { e with progress := { e.progress with sizeRcvd := u64 (e.progress.sizeRcvd + length) } }

def resumed (length : ℕ) (e : Entry) : Entry :=
  if e.isOpen then
    { e with progress :=
        { e.progress with sizeRcvd := length, sizeNow := length, sizeLast := length } }
  else e

def printed (e : Entry) : Entry := { e with progress := outputProgress e.progress }

/-- The download of the context has all its bytes and has not been completed before. -/
def Completable (e : Entry) : Prop :=
  e.isOpen = true ∧ e.progress.sizeRcvd = e.progress.completeFileSize

instance (e : Entry) : Decidable (Completable e) := by unfold Completable; infer_instance

def completedEntry (e : Entry) : Entry := { printed e with isOpen := false }

def tableStep (t : Table) : TableEvent → Table
  | .offer env completePath size isOpen =>
    { t with entries := t.entries ++ [⟨newDccProgress env completePath size, isOpen⟩] }
  | .chunk context length => t.modify context (received length)
  | .resume context length => t.modify context (resumed length)
  | .output =>
    { t with
      entries := t.entries.map printed
      computed := fun i => ((t.entries[i]?).bind fun e => average e.progress).or (t.computed i) }
  | .complete context =>
    match t.entries[context]? with
    | none => t
    | some e =>
      if Completable e then
        { entries := t.entries.modify context completedEntry
          finished := t.finished ++ [context]
          computed := fun i =>
            if i = context then (average e.progress).or (t.computed i) else t.computed i }
      else t

/-- The loop of `getCurrentTransferSpeed` over the records. -/
def transferSpeed (records : List DccDownloadProgress) : ℕ :=
  records.foldl (fun speed p => u64 (speed + p.averageSpeed)) 0

def getCurrentTransferSpeed (s : Client) : ℕ :=
  transferSpeed ((s.downloadContext.take s.numActiveDownloads).map (·.progress))

def Table.speed (t : Table) : ℕ := transferSpeed (t.entries.map (·.progress))

/-- What a download contributes: nothing when it is finished, or nothing was computed. -/
def Table.share (t : Table) (i : ℕ) : ℕ := if i ∈ t.finished then 0 else (t.computed i).getD 0

def SpeedRight (t : Table) : Prop :=
  t.speed = u64 (((List.range t.entries.length).map t.share).sum)

/-- What a new record holds is zero, and so is every average of a finished download. -/
def SpeedKept (t : Table) : TableEvent → Prop
  | .offer env _ _ _ => env.junk = 0
  | .output => ∀ i ∈ t.finished, ∀ e, t.entries[i]? = some e →
      (outputProgress e.progress).averageSpeed = 0
  | .complete context => ∀ e, t.entries[context]? = some e → Completable e →
      (outputProgress e.progress).averageSpeed = 0
  | _ => True

theorem averageSpeed_outputProgress (p : DccDownloadProgress) :
    (outputProgress p).averageSpeed = (average p).getD p.averageSpeed := by
  unfold average
  by_cases h : 0 < p.sizeRcvd
  · rw [if_pos h, Option.getD_some]
  · rw [if_neg h, Option.getD_none, outputProgress]
    dsimp only
    rw [if_neg h]

theorem transferSpeed_eq (records : List DccDownloadProgress) :
    transferSpeed records = u64 ((records.map (·.averageSpeed)).sum) := by
  have hfold : ∀ (rest : List DccDownloadProgress) (speed : ℕ),
      rest.foldl (fun speed p => u64 (speed + p.averageSpeed)) (u64 speed) =
        u64 (speed + (rest.map (·.averageSpeed)).sum) := by
    intro rest
    induction rest with
    | nil => exact fun speed => rfl
    | cons p rest ih =>
      intro speed
      have hsum : u64 (u64 speed + p.averageSpeed) = u64 (speed + p.averageSpeed) := by
        unfold u64
        omega
      rw [List.foldl_cons, hsum, ih, List.map_cons, List.sum_cons, Nat.add_assoc]
  have hzero := hfold records 0
  rwa [Nat.zero_add] at hzero

structure Metered (t : Table) : Prop where
  shares : ∀ (i : ℕ) e, t.entries[i]? = some e → e.progress.averageSpeed = t.share i
  fresh : ∀ i, t.entries.length ≤ i → t.computed i = none

theorem metered_emptyTable : Metered emptyTable where
  shares := fun _ _ h => nomatch h
  fresh := fun _ _ => rfl

theorem Metered.share_fresh {t : Table} (h : Metered t) {i : ℕ} (hi : t.entries.length ≤ i) :
    t.share i = 0 := by
  rw [Table.share, h.fresh i hi]
  split <;> rfl

theorem speedRight_of_metered {t : Table} (h : Metered t) : SpeedRight t := by
  have hsame : t.entries.map (fun e => e.progress.averageSpeed) =
      (List.range t.entries.length).map t.share := by
    apply List.ext_getElem
    · simp
    · intro i hi _
      rw [List.length_map] at hi
      simp [h.shares i _ (List.getElem?_eq_getElem hi)]
  rw [SpeedRight, Table.speed, transferSpeed_eq, List.map_map, ← hsame]
  rfl

section steps
variable {t : Table}

theorem metered_modify (h : Metered t) (context : ℕ) {f : Entry → Entry}
    (hf : ∀ e, (f e).progress.averageSpeed = e.progress.averageSpeed) :
    Metered (t.modify context f) where
  shares := by
    intro i e' he'
    change (t.entries.modify context f)[i]? = some e' at he'
    rw [List.getElem?_modify] at he'
    obtain ⟨e, he, rfl⟩ := Option.map_eq_some_iff.mp he'
    have hshare := h.shares i e he
    split
    · exact (hf e).trans hshare
    · exact hshare
  fresh := by
    intro i hi
    change (t.entries.modify context f).length ≤ i at hi
    rw [List.length_modify] at hi
    exact h.fresh i hi

theorem averageSpeed_resumed (length : ℕ) (e : Entry) :
    (resumed length e).progress.averageSpeed = e.progress.averageSpeed := by
  unfold resumed
  split <;> rfl

theorem metered_offer (h : Metered t) {env : Env} (hjunk : env.junk = 0) (completePath : Bytes)
    (size : ℕ) (isOpen : Bool) : Metered (tableStep t (.offer env completePath size isOpen)) where
  shares := by
    intro i e he
    change (t.entries ++ _)[i]? = some e at he
    by_cases hi : i < t.entries.length
    · rw [List.getElem?_append_left hi] at he
      exact h.shares i e he
    · have hle : t.entries.length ≤ i := by omega
      rw [List.getElem?_append_right hle, List.getElem?_singleton] at he
      split at he
      · obtain rfl := Option.some.inj he
        exact hjunk.trans (h.share_fresh hle).symm
      · cases he
  fresh := by
    intro i hi
    change (t.entries ++ _).length ≤ i at hi
    rw [List.length_append] at hi
    exact h.fresh i (by omega)

theorem metered_output (h : Metered t) (hkept : SpeedKept t .output) :
    Metered (tableStep t .output) where
  shares := by
    intro i e' he'
    change (t.entries.map printed)[i]? = some e' at he'
    rw [List.getElem?_map] at he'
    obtain ⟨e, he, rfl⟩ := Option.map_eq_some_iff.mp he'
    change (outputProgress e.progress).averageSpeed = if i ∈ t.finished then 0 else
      (((t.entries[i]?).bind fun e => average e.progress).or (t.computed i)).getD 0
    by_cases hfinished : i ∈ t.finished
    · rw [if_pos hfinished]
      exact hkept i hfinished e he
    · have hshare := h.shares i e he
      rw [Table.share, if_neg hfinished] at hshare
      rw [if_neg hfinished, he, averageSpeed_outputProgress, Option.bind_some, hshare]
      cases average e.progress <;> rfl
  fresh := by
    intro i hi
    change (t.entries.map printed).length ≤ i at hi
    rw [List.length_map] at hi
    change ((t.entries[i]?).bind fun e => average e.progress).or (t.computed i) = none
    rw [List.getElem?_eq_none_iff.mpr hi, h.fresh i hi]
    rfl

theorem metered_complete (h : Metered t) {context : ℕ} (hkept : SpeedKept t (.complete context)) :
    Metered (tableStep t (.complete context)) := by
  rw [tableStep]
  cases he : t.entries[context]? with
  | none => exact h
  | some e =>
    dsimp only
    by_cases hcomplete : Completable e
    · rw [if_pos hcomplete]
      have hzero := hkept e he hcomplete
      constructor
      · intro i e' he'
        rw [List.getElem?_modify] at he'
        obtain ⟨other, hother, rfl⟩ := Option.map_eq_some_iff.mp he'
        by_cases hi : context = i
        · subst hi
          obtain rfl := Option.some.inj (he.symm.trans hother)
          rw [if_pos rfl, Table.share, if_pos (List.mem_append_right _ (List.mem_singleton_self _))]
          exact hzero
        · have hshare := h.shares i other hother
          rw [if_neg hi, Table.share]
          simpa [Table.share, Ne.symm hi] using hshare
      · intro i hi
        rw [List.length_modify] at hi
        have hlt := (List.getElem?_eq_some_iff.mp he).1
        have hne : i ≠ context := by omega
        dsimp only
        rw [if_neg hne]
        exact h.fresh i hi
    · rw [if_neg hcomplete]
      exact h

theorem metered_step (h : Metered t) (e : TableEvent) (hkept : SpeedKept t e) :
    Metered (tableStep t e) := by
  cases e with
  | offer env completePath size isOpen => exact metered_offer h hkept completePath size isOpen
  | chunk context length => exact metered_modify h context fun _ => rfl
  | resume context length => exact metered_modify h context (averageSpeed_resumed length)
  | output => exact metered_output h hkept
  | complete context => exact metered_complete h hkept

end steps

/-- The same event, up to what `malloc` leaves in a new record. -/
def SameButJunk : TableEvent → TableEvent → Prop
  | .offer env completePath size isOpen, .offer env' completePath' size' isOpen' =>
    completePath' = completePath ∧ size' = size ∧ isOpen' = isOpen ∧
      env' = { env with junk := env'.junk }
  | e, e' => e' = e

def sameRecord (p p' : DccDownloadProgress) : Prop :=
  p' = { p with averageSpeed := p'.averageSpeed }

structure Alike (t t' : Table) : Prop where
  length : t'.entries.length = t.entries.length
  entries : ∀ (i : ℕ) e e', t.entries[i]? = some e → t'.entries[i]? = some e' →
    e'.isOpen = e.isOpen ∧ sameRecord e.progress e'.progress
  finished : t'.finished = t.finished
  computed : t'.computed = t.computed

theorem alike_emptyTable : Alike emptyTable emptyTable where
  length := rfl
  entries := fun _ _ _ he => nomatch he
  finished := rfl
  computed := rfl

theorem average_of_sameRecord {p p' : DccDownloadProgress} (h : sameRecord p p') :
    average p' = average p := by
  rw [h]
  unfold average outputProgress
  dsimp only
  split <;> rfl

theorem sameRecord_outputProgress {p p' : DccDownloadProgress} (h : sameRecord p p') :
    sameRecord (outputProgress p) (outputProgress p') := by
  rw [h]
  unfold sameRecord outputProgress
  dsimp only
  split <;> rfl

section alike
variable {t t' : Table}

theorem Alike.modify (h : Alike t t') (context : ℕ) {f : Entry → Entry}
    (hf : ∀ e e', e'.isOpen = e.isOpen → sameRecord e.progress e'.progress →
      (f e').isOpen = (f e).isOpen ∧ sameRecord (f e).progress (f e').progress) :
    Alike (t.modify context f) (t'.modify context f) where
  length := by
    change (t'.entries.modify context f).length = (t.entries.modify context f).length
    rw [List.length_modify, List.length_modify, h.length]
  entries := by
    intro i e e' he he'
    change (t.entries.modify context f)[i]? = some e at he
    change (t'.entries.modify context f)[i]? = some e' at he'
    rw [List.getElem?_modify] at he he'
    obtain ⟨a, ha, rfl⟩ := Option.map_eq_some_iff.mp he
    obtain ⟨a', ha', rfl⟩ := Option.map_eq_some_iff.mp he'
    obtain ⟨hopen, hsame⟩ := h.entries i a a' ha ha'
    split
    · exact hf a a' hopen hsame
    · exact ⟨hopen, hsame⟩
  finished := h.finished
  computed := h.computed

theorem Alike.share (h : Alike t t') : t'.share = t.share := by
  funext i
  rw [Table.share, Table.share, h.finished, h.computed]

theorem Alike.cases (h : Alike t t') (i : ℕ) :
    (t.entries[i]? = none ∧ t'.entries[i]? = none) ∨
      ∃ e e', t.entries[i]? = some e ∧ t'.entries[i]? = some e' ∧ e'.isOpen = e.isOpen ∧
        sameRecord e.progress e'.progress := by
  by_cases hi : i < t.entries.length
  · have hi' : i < t'.entries.length := h.length ▸ hi
    have he := List.getElem?_eq_getElem hi
    have he' := List.getElem?_eq_getElem hi'
    exact .inr ⟨_, _, he, he', h.entries i _ _ he he'⟩
  · have hi' : ¬ i < t'.entries.length := h.length ▸ hi
    exact .inl ⟨List.getElem?_eq_none_iff.mpr (by omega), List.getElem?_eq_none_iff.mpr (by omega)⟩

theorem Alike.average_eq (h : Alike t t') (i : ℕ) :
    ((t'.entries[i]?).bind fun e => average e.progress) =
      (t.entries[i]?).bind fun e => average e.progress := by
  rcases h.cases i with ⟨hnone, hnone'⟩ | ⟨e, e', he, he', -, hsame⟩
  · rw [hnone, hnone']
  · rw [he, he']
    exact average_of_sameRecord hsame

theorem alike_received (length : ℕ) {e e' : Entry} (hopen : e'.isOpen = e.isOpen)
    (hsame : sameRecord e.progress e'.progress) :
    (received length e').isOpen = (received length e).isOpen ∧
      sameRecord (received length e).progress (received length e').progress := by
  refine ⟨hopen, ?_⟩
  unfold received
  dsimp only
  rw [hsame]
  rfl

theorem alike_resumed (length : ℕ) {e e' : Entry} (hopen : e'.isOpen = e.isOpen)
    (hsame : sameRecord e.progress e'.progress) :
    (resumed length e').isOpen = (resumed length e).isOpen ∧
      sameRecord (resumed length e).progress (resumed length e').progress := by
  unfold resumed
  rw [hopen]
  split
  · refine ⟨rfl, ?_⟩
    dsimp only
    rw [hsame]
    rfl
  · exact ⟨hopen, hsame⟩

theorem alike_offer (h : Alike t t') (env env' : Env) (completePath : Bytes) (size : ℕ)
    (isOpen : Bool) :
    Alike (tableStep t (.offer env completePath size isOpen))
      (tableStep t' (.offer env' completePath size isOpen)) where
  length := by
    change (t'.entries ++ _).length = (t.entries ++ _).length
    rw [List.length_append, List.length_append, h.length]
    rfl
  entries := by
    intro i e e' he he'
    change (t.entries ++ _)[i]? = some e at he
    change (t'.entries ++ _)[i]? = some e' at he'
    by_cases hi : i < t.entries.length
    · rw [List.getElem?_append_left hi] at he
      rw [List.getElem?_append_left (h.length ▸ hi)] at he'
      exact h.entries i e e' he he'
    · have hlength := h.length
      rw [List.getElem?_append_right (by omega), List.getElem?_singleton] at he he'
      rw [hlength] at he'
      split at he
      · next heq =>
        rw [if_pos heq] at he'
        obtain rfl := Option.some.inj he
        obtain rfl := Option.some.inj he'
        exact ⟨rfl, rfl⟩
      · cases he
  finished := h.finished
  computed := h.computed

theorem alike_output (h : Alike t t') : Alike (tableStep t .output) (tableStep t' .output) where
  length := by
    change (t'.entries.map printed).length = (t.entries.map printed).length
    rw [List.length_map, List.length_map, h.length]
  entries := by
    intro i e e' he he'
    change (t.entries.map printed)[i]? = some e at he
    change (t'.entries.map printed)[i]? = some e' at he'
    rw [List.getElem?_map] at he he'
    obtain ⟨a, ha, rfl⟩ := Option.map_eq_some_iff.mp he
    obtain ⟨a', ha', rfl⟩ := Option.map_eq_some_iff.mp he'
    obtain ⟨hopen, hsame⟩ := h.entries i a a' ha ha'
    exact ⟨hopen, sameRecord_outputProgress hsame⟩
  finished := h.finished
  computed := by
    funext i
    change ((t'.entries[i]?).bind fun e => average e.progress).or (t'.computed i) =
      ((t.entries[i]?).bind fun e => average e.progress).or (t.computed i)
    rw [h.average_eq, h.computed]

theorem alike_complete (h : Alike t t') (context : ℕ) :
    Alike (tableStep t (.complete context)) (tableStep t' (.complete context)) := by
  rw [tableStep, tableStep]
  rcases h.cases context with ⟨hnone, hnone'⟩ | ⟨e, e', he, he', hopen, hsame⟩
  · rw [hnone, hnone']
    exact h
  · have hcompletable : Completable e' ↔ Completable e := by
      unfold Completable
      rw [hopen, hsame]
    have hprinted : ∀ a a' : Entry, a'.isOpen = a.isOpen → sameRecord a.progress a'.progress →
        (completedEntry a').isOpen = (completedEntry a).isOpen ∧
          sameRecord (completedEntry a).progress (completedEntry a').progress :=
      fun _ _ _ hsame => ⟨rfl, sameRecord_outputProgress hsame⟩
    have hmodify := h.modify context hprinted
    rw [he, he']
    dsimp only
    by_cases hcomplete : Completable e
    · rw [if_pos hcomplete, if_pos (hcompletable.mpr hcomplete)]
      refine ⟨hmodify.length, hmodify.entries, ?_, ?_⟩
      · dsimp only
        rw [h.finished]
      · dsimp only
        rw [average_of_sameRecord hsame, h.computed]
    · rw [if_neg hcomplete, if_neg fun h' => hcomplete (hcompletable.mp h')]
      exact h

theorem alike_step (h : Alike t t') {e e' : TableEvent} (he : SameButJunk e e') :
    Alike (tableStep t e) (tableStep t' e') := by
  cases e with
  | offer env completePath size isOpen =>
    cases e' with
    | offer env' completePath' size' isOpen' =>
      obtain ⟨rfl, rfl, rfl, -⟩ := he
      exact alike_offer h env env' _ _ _
    | _ => exact absurd he (by simp [SameButJunk])
  | chunk context length =>
    obtain rfl : e' = _ := he
    exact h.modify context fun _ _ hopen hsame => alike_received length hopen hsame
  | resume context length =>
    obtain rfl : e' = _ := he
    exact h.modify context fun _ _ hopen hsame => alike_resumed length hopen hsame
  | output =>
    obtain rfl : e' = _ := he
    exact alike_output h
  | complete context =>
    obtain rfl : e' = _ := he
    exact alike_complete h context

theorem alike_run (h : Alike t t') {events events' : List TableEvent}
    (hevents : List.Forall₂ SameButJunk events events') :
    Alike (run tableStep t events) (run tableStep t' events') := by
  induction hevents generalizing t t' with
  | nil => exact h
  | cons he _ ih => exact ih (alike_step h he)

end alike

/-- In every run that keeps the speed, what is added up is what the downloads contribute, and the
sum is the same whatever `malloc` left in the records. -/
theorem current_speed_right {events : List TableEvent}
    (h : AllAlong tableStep SpeedKept emptyTable events) :
    SpeedRight (run tableStep emptyTable events) ∧
      ∀ events', List.Forall₂ SameButJunk events events' →
        AllAlong tableStep SpeedKept emptyTable events' →
          (run tableStep emptyTable events').speed = (run tableStep emptyTable events).speed := by
  have hright : ∀ {events : List TableEvent}, AllAlong tableStep SpeedKept emptyTable events →
      SpeedRight (run tableStep emptyTable events) := by
    intro events hall
    have hstep : ∀ t e, Metered t → SpeedKept t e → Metered (tableStep t e) :=
      fun _ e hm hkept => metered_step hm e hkept
    exact speedRight_of_metered (run_invariant_of_allAlong hstep metered_emptyTable hall)
  refine ⟨hright h, fun events' hsame h' => ?_⟩
  have halike : Alike (run tableStep emptyTable events) (run tableStep emptyTable events') :=
    alike_run alike_emptyTable hsame
  have hvalue := hright h'
  rw [SpeedRight, halike.share, halike.length] at hvalue
  exact hvalue.trans (hright h).symm

def entriesOf (s : Client) : List Entry :=
  s.downloadContext.map fun c => ⟨c.progress, c.fd.isSome⟩

/-- The client's table is reached by these events, and they finish what the client finishes. -/
structure Follows (events : List TableEvent) (s : Client) : Prop where
  entries : (run tableStep emptyTable events).entries = entriesOf s
  finished : (run tableStep emptyTable events).finished = finished s.trace

theorem run_concat (events : List TableEvent) (e : TableEvent) :
    run tableStep emptyTable (events ++ [e]) = tableStep (run tableStep emptyTable events) e :=
  run_append tableStep emptyTable events [e]

theorem entriesOf_modify {s s' : Client} {context : ℕ} {g : DccDownloadContext → DccDownloadContext}
    {f : Entry → Entry} (hs' : s'.downloadContext = s.downloadContext.modify context g)
    (hf : ∀ c, s.downloadContext[context]? = some c →
      f ⟨c.progress, c.fd.isSome⟩ = ⟨(g c).progress, (g c).fd.isSome⟩) :
    (entriesOf s).modify context f = entriesOf s' := by
  unfold entriesOf
  rw [hs']
  apply List.ext_getElem?
  intro i
  simp only [List.getElem?_modify, List.getElem?_map, Option.map_eq_map]
  cases hc : s.downloadContext[i]? with
  | none => rfl
  | some c =>
    by_cases hi : context = i
    · subst hi
      simp [hf c hc]
    · simp [hi]

theorem follows_modify {events : List TableEvent} {s s' : Client} (h : Follows events s)
    {e : TableEvent} {context : ℕ} {f : Entry → Entry} {g : DccDownloadContext → DccDownloadContext}
    (he : ∀ t, tableStep t e = t.modify context f)
    (hs' : s'.downloadContext = s.downloadContext.modify context g)
    (hf : ∀ c, s.downloadContext[context]? = some c →
      f ⟨c.progress, c.fd.isSome⟩ = ⟨(g c).progress, (g c).fd.isSome⟩)
    (hfinished : finished s'.trace = finished s.trace) : Follows (events ++ [e]) s' := by
  constructor
  · rw [run_concat, he]
    change (run tableStep emptyTable events).entries.modify context f = _
    rw [h.entries]
    exact entriesOf_modify hs' hf
  · rw [run_concat, he, hfinished]
    exact h.finished

theorem follows_of_change {s s' : Client} (hc : Change true s s') {events : List TableEvent}
    (h : Follows events s) : ∃ events', Follows events' s' := by
  cases hc with
  | sessions net lastId ds hl =>
    refine ⟨events, h.entries, ?_⟩
    rw [h.finished, withSessions_trace,
      finished_append_nil fun a ha => finishedContext_of_sessionAction (hl a ha)]
  | @chunk context c fd data hc hfd =>
    refine ⟨events ++ [.chunk context data.length], follows_modify h (fun _ => rfl) rfl ?_
      (finished_append_nil (by simp [finishedContext]))⟩
    intro c' hc'
    obtain rfl := Option.some.inj (hc.symm.trans hc')
    rw [hfd]
    rfl
  | @lost context c length hc hfd =>
    exact ⟨events ++ [.chunk context length], follows_modify h (fun _ => rfl) rfl (fun c' _ => rfl)
      (finished_append_nil (by simp [finishedContext]))⟩
  | @complete context c fd hb net l hc hfd hsize hl =>
    have hquiet : ∀ a ∈ l, finishedContext a = none := by
      cases hl <;> simp [finishedContext]
    have hentry : (run tableStep emptyTable events).entries[context]? =
        some ⟨c.progress, c.fd.isSome⟩ := by
      rw [h.entries, entriesOf, List.getElem?_map, hc]
      rfl
    have hcompletable : Completable ⟨c.progress, c.fd.isSome⟩ := ⟨by rw [hfd]; rfl, hsize⟩
    refine ⟨events ++ [.complete context], ?_, ?_⟩
    · rw [run_concat, tableStep, hentry]
      dsimp only
      rw [if_pos hcompletable]
      dsimp only
      rw [h.entries]
      exact entriesOf_modify rfl fun c' _ => rfl
    · rw [run_concat, tableStep, hentry]
      dsimp only
      rw [if_pos hcompletable]
      dsimp only
      rw [h.finished, completed_trace, finished_append_finish context hquiet]
  | @rewind context c fd length hc hfd =>
    refine ⟨events ++ [.resume context length], follows_modify h (fun _ => rfl) rfl ?_ rfl⟩
    intro c' hc'
    obtain rfl := Option.some.inj (hc.symm.trans hc')
    rw [hfd]
    rfl
  | output =>
    refine ⟨events ++ [.output], ?_, ?_⟩
    · rw [run_concat]
      change (run tableStep emptyTable events).entries.map printed = _
      rw [h.entries, entriesOf, entriesOf, List.map_map, List.map_map]
      rfl
    · rw [run_concat]
      exact h.finished
  | halt fault => exact ⟨events, h.entries, h.finished⟩

theorem follows_of_changes {s s' : Client} (hc : Changes true s s')
    (h : ∃ events, Follows events s) : ∃ events, Follows events s' :=
  hc.invariant (P := fun s => ∃ events, Follows events s)
    (fun _ _ ⟨_, hevents⟩ hc => follows_of_change hc hevents) h

theorem follows_step {s : Client} (e : Event) (h : ∃ events, Follows events s) :
    ∃ events, Follows events (step s e) := by
  by_cases hstarts : StartsDownload s e
  · cases e with
    | request env nick req =>
      obtain ⟨filename, -, -, t, size, fd, files, ht, -, hs'⟩ := step_starts_as (b := true) hstarts
      obtain ⟨events, hevents⟩ := follows_of_changes ht h
      refine follows_of_changes hs'
        ⟨events ++ [.offer env (getCompletePath t.cfg filename) size fd.isSome], ?_, ?_⟩
      · rw [run_concat, tableStep]
        dsimp only
        rw [hevents.entries, entriesOf, entriesOf, withDownload_downloadContext, List.map_append]
        rfl
      · rw [run_concat]
        exact hevents.finished.trans (finished_append_nil (by simp [finishedContext])).symm
    | socket dccid ready => exact hstarts.elim
    | addDescriptors => exact hstarts.elim
    | outputTimer => exact hstarts.elim
  · exact follows_of_changes (step_changes hstarts) h

theorem client_follows_table (cfg : XdccGetConfig) (net : Net) (files : Bytes → Option Bytes)
    (events : List Event) : ∃ tableEvents,
      Follows tableEvents (run step (initial cfg net files) events) ∧
        getCurrentTransferSpeed (run step (initial cfg net files) events) =
          (run tableStep emptyTable tableEvents).speed := by
  have hstep : ∀ s e, (∃ tableEvents, Follows tableEvents s) →
      ∃ tableEvents, Follows tableEvents (step s e) := fun _ e h => follows_step e h
  have hfollows : ∃ tableEvents, Follows tableEvents (run step (initial cfg net files) events) :=
    run_invariant hstep ⟨[], rfl, rfl⟩ events
  have htally := tallied_run cfg net files events
  obtain ⟨tableEvents, h⟩ := hfollows
  refine ⟨tableEvents, h, ?_⟩
  rw [getCurrentTransferSpeed, Table.speed, h.entries, ← htally.length_eq, List.take_length,
    entriesOf, List.map_map]
  rfl

def fiveBytes (junk : ℕ) : List TableEvent :=
  [.offer { readyEnv with junk := junk } (bytes "d/f") 5 true, .chunk 0 5, .complete 0]

/-- A download that has received all its bytes still counts with its last average. -/
theorem finished_download_counts : ¬ SpeedRight (run tableStep emptyTable (fiveBytes 0)) := by
  unfold SpeedRight
  decide

def twoDownloads (junk : ℕ) : List TableEvent :=
  [.offer { readyEnv with junk := junk } (bytes "d/f") 500 true,
    .offer { readyEnv with junk := junk } (bytes "d/g") 400 true,
    .chunk 0 100, .chunk 1 50, .output, .chunk 1 20]

theorem current_speed_right_twoDownloads :
    (run tableStep emptyTable (twoDownloads 0)).speed = 150 ∧
      SpeedRight (run tableStep emptyTable (twoDownloads 0)) ∧
      ∀ events', List.Forall₂ SameButJunk (twoDownloads 0) events' →
        AllAlong tableStep SpeedKept emptyTable events' →
          (run tableStep emptyTable events').speed =
            (run tableStep emptyTable (twoDownloads 0)).speed := by
  refine ⟨by decide, current_speed_right ?_⟩
  exact ⟨rfl, rfl, trivial, trivial, fun _ hi => absurd hi List.not_mem_nil, trivial, trivial⟩

end Xdccget.TransferSpeeds
