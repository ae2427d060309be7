import Xdccget.StepRuns
import Xdccget.EventSpecs
import Xdccget.TableChanges

set_option autoImplicit false

/-!
# The function pointers of the sessions

Which callback a session's state leads to, and that it is the one installed last.
The invariant survives every step but the acknowledgement by port of a passive
session, which calls the pointer that was not installed.
-/
namespace Xdccget.SessionCallbacks
open CText DccMessages ClientState DccSessions Downloads DccEvents HaltingPrograms SessionSpecs
  DownloadSpecs EventSpecs TableChanges StepRuns

def installedBy (id : ℕ) (last : Option Callback) : Action → Option Callback
  | .install i cb => if i = id then some cb else last
  | _ => last

def lastInstalled (id : ℕ) (trace : List Action) : Option Callback :=
  trace.foldl (installedBy id) none

/-- Every call is through a pointer that is not null and was installed last on its session. -/
def CallsOk (trace : List Action) : Prop :=
  ∀ before id p after, trace = before ++ .call id p :: after →
    p ≠ none ∧ p = lastInstalled id before

def Neutral : Action → Prop
  | .install _ _ => False
  | .call _ _ => False
  | _ => True

section traces
variable {id : ℕ} {trace l : List Action} {cb : Callback}

theorem lastInstalled_append (id : ℕ) (trace l : List Action) :
    lastInstalled id (trace ++ l) = l.foldl (installedBy id) (lastInstalled id trace) :=
  List.foldl_append

theorem lastInstalled_append_of_other (h : ∀ a ∈ l, ∀ cb, a ≠ .install id cb) :
    lastInstalled id (trace ++ l) = lastInstalled id trace := by
  rw [lastInstalled_append]
  generalize lastInstalled id trace = last
  induction l generalizing last with
  | nil => rfl
  | cons a l ih =>
    rw [List.forall_mem_cons] at h
    have ha : installedBy id last a = last := by
      cases a with
      | install i cb => exact if_neg fun hi => h.1 cb (by rw [hi])
      | _ => rfl
    rw [List.foldl_cons, ha]
    exact ih h.2 last

theorem lastInstalled_of_asked {nick : Option Bytes} {reply : Bytes} (h : Asked id cb nick reply l) :
    lastInstalled id (trace ++ l) = some cb := by
  rw [lastInstalled_append]
  rcases h with rfl | ⟨n, -, rfl | rfl⟩ <;> simp [installedBy]

theorem not_install_of_neutral (h : ∀ a ∈ l, Neutral a) : ∀ a ∈ l, ∀ cb, a ≠ .install id cb := by
  intro a ha cb hcb
  have hn := h a ha
  rw [hcb] at hn
  exact hn

theorem CallsOk.of_append (h : CallsOk (trace ++ l)) : CallsOk trace := by
  intro before id p after ht
  refine h before id p (after ++ l) ?_
  rw [ht, List.append_assoc, List.cons_append]

theorem CallsOk.append (h : CallsOk trace) (hl : ∀ a ∈ l, ∀ id p, a ≠ .call id p) :
    CallsOk (trace ++ l) := by
  intro before id p after ht
  have hnot : .call id p ∉ l := fun hmem => hl _ hmem id p rfl
  obtain ⟨after', ht'⟩ := exists_split_of_not_mem ht hnot
  exact h before id p after' ht'

theorem CallsOk.call (h : CallsOk trace) (hlast : lastInstalled id trace = some cb) :
    CallsOk (trace ++ [.call id (some cb)]) := by
  intro before i p after ht
  cases after using List.reverseRecOn with
  | nil =>
    obtain ⟨rfl, hcall⟩ := List.append_inj' ht rfl
    obtain ⟨rfl, rfl⟩ : id = i ∧ some cb = p := by simpa using hcall
    exact ⟨by simp, hlast.symm⟩
  | append_singleton after a _ =>
    have ht' : trace ++ [.call id (some cb)] = (before ++ .call i p :: after) ++ [a] := by
      rw [ht]
      simp
    obtain ⟨htrace, -⟩ := List.append_inj' ht' rfl
    exact h before i p after htrace

end traces

def awaited (d : DccSession) : Option Callback :=
  match d.state with
  | .connecting | .connected | .confirmSize | .initPassive => some (.data .callbackDccRecvFile)
  | .waitingForResumeAck =>
    if d.passiveConnection then some (.reverse .callbackDccResumeFileReverse)
    else some (.data .callbackDccResumeFile)
  | _ => none

def Holds (d : DccSession) : Callback → Prop
  | .data cb => d.cb = some cb
  | .reverse cb => d.reverseCb = some cb

/-- What the session's state leads to is there and was installed last; a passive session gets its
    data callback not before it is accepted. -/
structure Ready (trace : List Action) (d : DccSession) : Prop where
  awaits : ∀ cb, awaited d = some cb → Holds d cb ∧ lastInstalled d.id trace = some cb
  unset : d.passiveConnection = true → d.state = .init ∨ d.state = .waitingForResumeAck → d.cb = none

structure Sound (s : Client) : Prop where
  nodup : (s.dccSessions.map (·.id)).Nodup
  id_lt : ∀ d ∈ s.dccSessions, d.id < s.dccLastId
  ready : ∀ d ∈ s.dccSessions, Ready s.trace d
  calls : CallsOk s.trace

section invariant
variable {s : Client} {id : ℕ}

theorem Ready.append {trace l : List Action} {d : DccSession} (h : Ready trace d)
    (hl : ∀ a ∈ l, ∀ cb, a ≠ .install d.id cb) : Ready (trace ++ l) d where
  awaits := by
    rw [lastInstalled_append_of_other hl]
    exact h.awaits
  unset := h.unset

theorem Sound.eq_of_find (h : Sound s) {d e : DccSession}
    (hf : s.dccSessions.find? (fun d => d.id = id) = some d) (he : e ∈ s.dccSessions)
    (hid : e.id = id) : e = d := by
  have hd : d ∈ s.dccSessions := List.mem_of_find?_eq_some hf
  have hdid : d.id = id := by simpa using List.find?_some hf
  exact List.inj_on_of_nodup_map h.nodup he hd (hid.trans hdid.symm)

theorem Sound.find_of_mem (h : Sound s) {d : DccSession} (hd : d ∈ s.dccSessions) :
    s.dccSessions.find? (fun e => e.id = d.id) = some d := by
  cases hf : s.dccSessions.find? (fun e => decide (e.id = d.id)) with
  | none => exact absurd hd fun hmem => by simpa using List.find?_eq_none.mp hf d hmem
  | some e => rw [h.eq_of_find hf hd rfl]

theorem Sound.keep {s' : Client} (h : Sound s) (hsessions : s'.dccSessions = s.dccSessions)
    (hlast : s'.dccLastId = s.dccLastId) {l : List Action} (htrace : s'.trace = s.trace ++ l)
    (hl : ∀ a ∈ l, Neutral a) : Sound s' where
  nodup := hsessions ▸ h.nodup
  id_lt := hsessions ▸ hlast ▸ h.id_lt
  ready := by
    intro d hd
    rw [hsessions] at hd
    rw [htrace]
    exact (h.ready d hd).append (not_install_of_neutral hl)
  calls := by
    rw [htrace]
    refine h.calls.append fun a ha id p hcall => ?_
    have hn := hl a ha
    rw [hcall] at hn
    exact hn

theorem Sound.operate (h : Sound s) (net : Net) {f : DccSession → DccSession} {l : List Action}
    (hid : ∀ d, (f d).id = d.id)
    (hready : ∀ d ∈ s.dccSessions, d.id = id → Ready (s.trace ++ l) (f d))
    (hother : ∀ a ∈ l, ∀ i cb, a = .install i cb → i = id) (hcalls : CallsOk (s.trace ++ l)) :
    Sound (sessionOp s net id f l) where
  nodup := by
    rw [sessionOp_dccSessions, map_id_updateSession hid]
    exact h.nodup
  id_lt := by
    intro d hd
    rcases mem_updateSession hd with ⟨e, he, -, rfl⟩ | ⟨hd, -⟩
    · rw [hid]
      exact h.id_lt e he
    · exact h.id_lt d hd
  ready := by
    intro d hd
    rcases mem_updateSession hd with ⟨e, he, heid, rfl⟩ | ⟨hd, hne⟩
    · exact hready e he heid
    · refine (h.ready d hd).append fun a ha cb hcb => ?_
      exact hne (hother a ha d.id cb hcb)
  calls := hcalls

theorem Sound.changeNet (h : Sound s) (net : Net) : Sound (withNet s net) :=
  h.keep rfl rfl (List.append_nil _).symm (by simp)

theorem not_call_of_asked {cb : Callback} {nick : Option Bytes} {reply : Bytes} {l : List Action}
    (h : Asked id cb nick reply l) : ∀ a ∈ l, ∀ i p, a ≠ .call i p := by
  rcases h with rfl | ⟨n, -, rfl | rfl⟩ <;> simp

theorem install_of_asked {cb : Callback} {nick : Option Bytes} {reply : Bytes} {l : List Action}
    (h : Asked id cb nick reply l) : ∀ a ∈ l, ∀ i cb', a = .install i cb' → i = id := by
  rcases h with rfl | ⟨n, -, rfl | rfl⟩ <;> simp +contextual

theorem Sound.install (h : Sound s) (net : Net) {f : DccSession → DccSession} {cb : Callback}
    {nick : Option Bytes} {reply : Bytes} {l : List Action} (hid : ∀ d, (f d).id = d.id)
    (hl : Asked id cb nick reply l)
    (hf : ∀ d ∈ s.dccSessions, d.id = id → Holds (f d) cb ∧
      (awaited (f d) = none ∨ awaited (f d) = some cb))
    (hunset : ∀ d ∈ s.dccSessions, d.id = id → (f d).passiveConnection = true →
      (f d).state = .init ∨ (f d).state = .waitingForResumeAck → (f d).cb = none) :
    Sound (sessionOp s net id f l) := by
  refine h.operate net hid ?_ (install_of_asked hl) (h.calls.append (not_call_of_asked hl))
  intro d hd hdid
  refine ⟨fun cb' hcb' => ?_, hunset d hd hdid⟩
  obtain ⟨hholds, hawaited⟩ := hf d hd hdid
  rcases hawaited with hnone | hsome
  · exact absurd (hnone.symm.trans hcb') (by simp)
  · obtain rfl := Option.some.inj (hsome.symm.trans hcb')
    rw [hid, hdid]
    exact ⟨hholds, lastInstalled_of_asked hl⟩

end invariant

end Xdccget.SessionCallbacks
