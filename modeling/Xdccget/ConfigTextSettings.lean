import Xdccget.ConfigTextLines

set_option autoImplicit false

/-!
# The settings of a configuration

An assignment writes one setting, so a run of them leaves each as its last line says.
-/
namespace Xdccget.ConfigText
open CText

def Key.callback : Key → ConfigLineParserFunction
  | .downloadDir => downloadDirCallback
  | .logLevel => parseLogLevel
  | .allowAllCerts => allowAllCertsCallback
  | .verifyChecksums => verifyChecksumsCallback
  | .confirmFileOffsets => confirmFileOffsetsCallback
  | .maxTransferSpeed => maxTransferSpeedCallback
  | .listenIp => listenIpCallback
  | .listenPort => listenPortCallback

theorem configLineCallbacks_eq :
    configLineCallbacks = Key.all.map fun k => (k.name, k.callback) := rfl

theorem Key.mem_all (k : Key) : k ∈ Key.all := by cases k <;> decide

theorem Key.name_inj {k k' : Key} (h : k.name = k'.name) : k = k' := by
  revert h
  cases k <;> cases k' <;> decide

theorem Key.cstr_name (k : Key) : cstr k.name = k.name := by cases k <;> decide

theorem callParsers_eq (lib : Library) (c : Config) (type value : Bytes) :
    callParsers lib c type value = Key.all.foldlM (fun c k =>
      if cstr type = k.name then k.callback lib c value else some c) c := by
  rw [callParsers, configLineCallbacks_eq, List.foldlM_map]
  congr 1
  funext c k
  simp [strEquals, k.cstr_name]

theorem foldlM_unnamed (lib : Library) (c : Config) {name : Bytes} (value : Bytes)
    {keys : List Key} (h : ∀ k ∈ keys, name ≠ k.name) :
    keys.foldlM (fun c k => if name = k.name then k.callback lib c value else some c) c = some c := by
  induction keys with
  | nil => rfl
  | cons k keys ih =>
    rw [List.foldlM_cons, if_neg (h k List.mem_cons_self)]
    exact ih fun k' hk' => h k' (List.mem_cons_of_mem _ hk')

theorem foldlM_named (lib : Library) (c : Config) (k : Key) (value : Bytes) {keys : List Key}
    (hk : k ∈ keys) (hnodup : keys.Nodup) :
    keys.foldlM (fun c k' => if k.name = k'.name then k'.callback lib c value else some c) c =
      k.callback lib c value := by
  induction keys with
  | nil => exact nomatch hk
  | cons k' keys ih =>
    obtain ⟨hnot, hnodup⟩ := List.nodup_cons.mp hnodup
    rw [List.foldlM_cons]
    by_cases he : k = k'
    · subst he
      -- The names differ, so no later callback is called.
      rw [if_pos rfl]
      have hrest : ∀ k' ∈ keys, k.name ≠ k'.name := fun k' hk' hname =>
        hnot (Key.name_inj hname ▸ hk')
      rw [funext fun c => foldlM_unnamed lib c value hrest]
      exact bind_pure _
    · rw [if_neg fun hname => he (Key.name_inj hname)]
      exact ih ((List.mem_cons.mp hk).resolve_left he) hnodup

theorem callParsers_name (lib : Library) (c : Config) {type : Bytes} {k : Key} (value : Bytes)
    (h : cstr type = k.name) : callParsers lib c type value = k.callback lib c value := by
  rw [callParsers_eq, h, foldlM_named lib c k value k.mem_all (by decide)]

theorem callParsers_other (lib : Library) (c : Config) {type : Bytes} (value : Bytes)
    (h : ∀ k : Key, cstr type ≠ k.name) : callParsers lib c type value = some c := by
  rw [callParsers_eq, foldlM_unnamed lib c value fun k _ => h k]

theorem parseLogLevel_eq (lib : Library) (c : Config) (value : Bytes) :
    parseLogLevel lib c value =
      some { c with logLevel := (levelNames.lookup (cstr value)).getD c.logLevel } := by
  have hequals : ∀ name, cstr (bytes name) = bytes name →
      strEquals value (bytes name) = (cstr value == bytes name) := by
    intro name hname
    rw [strEquals, hname, beq_eq_decide]
  rw [parseLogLevel, hequals _ (by decide), hequals _ (by decide), hequals _ (by decide),
    hequals _ (by decide)]
  simp only [levelNames, List.lookup_cons, List.lookup_nil]
  cases cstr value == bytes "information" <;> cases cstr value == bytes "warn" <;>
    cases cstr value == bytes "error" <;> cases cstr value == bytes "quiet" <;> rfl

theorem callback_get (lib : Library) (c : Config) (k : Key) {value : Bytes}
    (h : k = .listenIp → lib.inetPton (cstr value) = true) :
    ∃ c', k.callback lib c value = some c' ∧ c'.others = c.others ∧ ∀ k', c'.get k' =
      if k' = k then (meaning lib k value).getD (c.get k) else c.get k' := by
  cases k with
  | logLevel =>
    refine ⟨_, parseLogLevel_eq lib c value, rfl, ?_⟩
    intro k'
    cases k' with
    | logLevel =>
      change Value.level _ = ((levelNames.lookup (cstr value)).map Value.level).getD _
      cases levelNames.lookup (cstr value) <;> rfl
    | _ => rfl
  | listenIp =>
    refine ⟨{ c with listenIp := some value }, ?_, rfl, ?_⟩
    · rw [Key.callback, listenIpCallback, if_pos (h rfl)]
    · intro k'
      cases k' <;> rfl
  | confirmFileOffsets =>
    refine ⟨_, rfl, rfl, ?_⟩
    intro k'
    cases k' with
    | confirmFileOffsets => exact congrArg Value.flag (Bool.not_not _)
    | _ => rfl
  | _ =>
    refine ⟨_, rfl, rfl, ?_⟩
    intro k'
    cases k' <;> rfl

theorem given_cons (lib : Library) (k : Key) (a : Assignment) (as : List Assignment) (was : Value) :
    given lib k (a :: as) was = given lib k as (given lib k [a] was) := by
  unfold given
  cases h : meant lib k a with
  | none => simp [h]
  | some v => simp [h, List.getLast?_cons]

theorem given_one (lib : Library) (k : Key) (a : Assignment) (was : Value) :
    given lib k [a] was = (meant lib k a).getD was := by
  unfold given
  cases h : meant lib k a <;> simp [h]

theorem assign_rejected {lib : Library} {a : Assignment} (h : Rejected lib a) (c : Config) :
    assign lib c a = none := by
  rw [assign, callParsers_name lib c a.value ((cstr_of_no_nul a.no_nul).trans h.1), Key.callback,
    listenIpCallback, if_neg (by rw [h.2]; decide)]

theorem assign_get {lib : Library} {a : Assignment} (h : ¬ Rejected lib a) (c : Config) :
    ∃ c', assign lib c a = some c' ∧ c'.others = c.others ∧
      ∀ k, c'.get k = given lib k [a] (c.get k) := by
  have hkey := cstr_of_no_nul a.no_nul
  by_cases hname : ∃ k : Key, a.key = k.name
  · obtain ⟨k, hk⟩ := hname
    have hvalid : k = .listenIp → lib.inetPton (cstr a.value) = true := by
      rintro rfl
      exact Bool.eq_true_of_not_eq_false fun hfalse => h ⟨hk, hfalse⟩
    obtain ⟨c', hcall, hothers, hget⟩ := callback_get lib c k hvalid
    refine ⟨c', ?_, hothers, ?_⟩
    · rw [assign, callParsers_name lib c a.value (hkey.trans hk), hcall]
    · intro k'
      rw [hget, given_one, meant, hk]
      by_cases he : k' = k
      · rw [he, if_pos rfl, if_pos rfl]
      · rw [if_neg he, if_neg fun hname => he (Key.name_inj hname).symm]
        rfl
  · refine ⟨c, ?_, rfl, ?_⟩
    · exact callParsers_other lib c a.value fun k hk => hname ⟨k, hkey.symm.trans hk⟩
    · intro k
      rw [given_one, meant, if_neg fun hk => hname ⟨k, hk⟩]
      rfl

theorem run_right (lib : Library) (as : List Assignment) (c : Config) :
    ParsedRight lib c as (as.foldlM (assign lib) c) := by
  induction as generalizing c with
  | nil =>
    refine ⟨by simp, ?_, ?_⟩
    · intro c' hc' k
      obtain rfl := Option.some.inj hc'
      rfl
    · intro c' hc'
      obtain rfl := Option.some.inj hc'
      rfl
  | cons a as ih =>
    rw [List.foldlM_cons]
    by_cases hreject : Rejected lib a
    · rw [assign_rejected hreject]
      refine ⟨iff_of_true rfl ⟨a, List.mem_cons_self, hreject⟩, ?_, ?_⟩ <;>
        exact fun c' hc' => nomatch hc'
    · obtain ⟨c₁, hassign, hothers, hget⟩ := assign_get hreject c
      rw [hassign, Option.bind_eq_bind, Option.bind_some]
      refine ⟨?_, ?_, ?_⟩
      · rw [(ih c₁).ends]
        simp [hreject]
      · intro c' hc' k
        rw [(ih c₁).settings c' hc', hget, ← given_cons]
      · intro c' hc'
        rw [(ih c₁).others c' hc', hothers]

theorem mem_withoutEquals {as : List Assignment} {a : Assignment} (h : a ∈ withoutEquals as) :
    a ∈ as := (List.mem_filter.mp h).1

theorem parsedRight_iff (lib : Library) (items : List Item) (c : Config) :
    ParsedRight lib c (assignments items) (parseConfigString lib c (text items)) ↔
      NothingLost lib c (assignments items) := by
  rw [parse_text]
  generalize assignments items = as
  have hrun := run_right lib (withoutEquals as) c
  generalize (withoutEquals as).foldlM (assign lib) c = r at hrun ⊢
  have hfewer : (∃ a ∈ withoutEquals as, Rejected lib a) → ∃ a ∈ as, Rejected lib a :=
    fun ⟨a, ha, hreject⟩ => ⟨a, mem_withoutEquals ha, hreject⟩
  constructor
  · intro hright
    refine ⟨fun h => hrun.ends.mp (hright.ends.mpr h), ?_⟩
    intro hnone k
    cases hr : r with
    | none =>
      obtain ⟨a, ha, hreject⟩ := hright.ends.mp hr
      exact absurd hreject (hnone a ha)
    | some c' => rw [← hrun.settings c' hr, hright.settings c' hr]
  · intro hlost
    refine ⟨hrun.ends.trans ⟨hfewer, hlost.ends⟩, ?_, hrun.others⟩
    intro c' hc' k
    rw [hrun.settings c' hc']
    apply hlost.settings
    intro a ha hreject
    rw [hrun.ends.mpr (hlost.ends ⟨a, ha, hreject⟩)] at hc'
    exact nomatch hc'

end Xdccget.ConfigText
