import Xdccget.Commands
import Xdccget.LineOwnership

set_option autoImplicit false

/-!
# Two parse results side by side

Two sessions that have read different lines before hold the parts of the next line in
different allocations. The strings are paired off, and a pair is freed on both sides or on
neither.
-/
namespace Xdccget.PairedLines
open CText LineParser LineOwnership
open Commands (replaceParam moveMode replyToNotice freeParams)

abbrev Pairing := ℕ → ℕ → Prop

structure Heaps (ρ : Pairing) (l l' : LineState) : Prop where
  left : ∀ a b c, ρ a b → ρ a c → b = c
  right : ∀ a b c, ρ a c → ρ b c → a = b
  bounded : ∀ a b, ρ a b → a < l.allocated ∧ b < l'.allocated
  freed : ∀ a b, ρ a b → (a ∈ l.freed ↔ b ∈ l'.freed)
  freed_lt : ∀ a ∈ l.freed, a < l.allocated
  freed_lt' : ∀ b ∈ l'.freed, b < l'.allocated

/-- Both pointers are `NULL`, or they point to a pair with one text. -/
def Paired (ρ : Pairing) (p p' : Option Str) : Prop :=
  Option.Rel (fun str str' => ρ str.id str'.id ∧ str.text = str'.text) p p'

/-- Equal parts; with `shown` the second slot counts, too, when it stands behind the parameters. -/
structure Results (ρ : Pairing) (shown : Prop) (r r' : ParserResult) : Prop where
  nick : Paired ρ r.nick r'.nick
  name : Paired ρ r.name r'.name
  host : Paired ρ r.host r'.host
  command : Paired ρ r.command r'.command
  numParams : r.numParams = r'.numParams
  params : ∀ i, i < r.numParams ∨ i = 0 ∨ (i = 1 ∧ shown) → Paired ρ (r.params i) (r'.params i)

def SameLine (shown : Prop) (l l' : LineState) : Prop :=
  ∃ ρ, Heaps ρ l l' ∧ Results ρ shown l.result l'.result

section pairs
variable {ρ σ : Pairing} {l l' : LineState} {p p' : Option Str} {r r' : ParserResult} {shown : Prop}

theorem paired_none : Paired ρ none none := Option.Rel.none

theorem Paired.mono (h : Paired ρ p p') (hsub : ∀ a b, ρ a b → σ a b) : Paired σ p p' := by
  cases h with
  | some h => exact .some ⟨hsub _ _ h.1, h.2⟩
  | none => exact .none

theorem Paired.swap (h : Paired ρ p p') : Paired (fun b a => ρ a b) p' p := by
  cases h with
  | some h => exact .some ⟨h.1, h.2.symm⟩
  | none => exact .none

theorem Paired.none_iff (h : Paired ρ p p') : p = none ↔ p' = none := by cases h <;> simp

theorem Paired.text (h : Paired ρ p p') : p.map (·.text) = p'.map (·.text) := by
  cases h with
  | some h => exact congrArg some h.2
  | none => rfl

theorem Heaps.swap (h : Heaps ρ l l') : Heaps (fun b a => ρ a b) l' l where
  left := fun a b c hab hac => h.right b c a hab hac
  right := fun a b c hac hbc => h.left c a b hac hbc
  bounded := fun a b hab => (h.bounded b a hab).symm
  freed := fun a b hab => (h.freed b a hab).symm
  freed_lt := h.freed_lt'
  freed_lt' := h.freed_lt

theorem Results.swap (h : Results ρ shown r r') : Results (fun b a => ρ a b) shown r' r where
  nick := h.nick.swap
  name := h.name.swap
  host := h.host.swap
  command := h.command.swap
  numParams := h.numParams.symm
  params := fun i hi => (h.params i (by rw [h.numParams]; exact hi)).swap

theorem Results.mono {hidden : Prop} (h : Results ρ shown r r')
    (hshown : hidden → shown ∨ 1 < r.numParams) : Results ρ hidden r r' where
  nick := h.nick
  name := h.name
  host := h.host
  command := h.command
  numParams := h.numParams
  params := by
    intro i hi
    apply h.params
    rcases hi with hi | hi | ⟨rfl, hi⟩
    · exact .inl hi
    · exact .inr (.inl hi)
    · rcases hshown hi with hi | hi
      · exact .inr (.inr ⟨rfl, hi⟩)
      · exact .inl hi

def withNew (ρ : Pairing) (l l' : LineState) : Pairing := fun a b =>
  ρ a b ∨ (a = l.allocated ∧ b = l'.allocated)

theorem Paired.old (h : Paired ρ p p') : Paired (withNew ρ l l') p p' := h.mono fun _ _ => .inl

theorem paired_new (text : Bytes) :
    Paired (withNew ρ l l') (some (callocAndCopyString l text).1) (some (callocAndCopyString l' text).1) :=
  .some ⟨.inr ⟨rfl, rfl⟩, rfl⟩

theorem Heaps.new (h : Heaps ρ l l') (r r' : ParserResult) :
    Heaps (withNew ρ l l') { l with result := r, allocated := l.allocated + 1 }
      { l' with result := r', allocated := l'.allocated + 1 } where
  left := by
    rintro a b c (hab | ⟨ha, hb⟩) (hac | ⟨ha', hc⟩)
    · exact h.left a b c hab hac
    · have hlt := (h.bounded a b hab).1
      omega
    · have hlt := (h.bounded a c hac).1
      omega
    · rw [hb, hc]
  right := by
    rintro a b c (hac | ⟨ha, hc⟩) (hbc | ⟨hb, hc'⟩)
    · exact h.right a b c hac hbc
    · have hlt := (h.bounded a c hac).2
      omega
    · have hlt := (h.bounded b c hbc).2
      omega
    · rw [ha, hb]
  bounded := by
    rintro a b (hab | ⟨rfl, rfl⟩)
    · obtain ⟨ha, hb⟩ := h.bounded a b hab
      exact ⟨Nat.lt_succ_of_lt ha, Nat.lt_succ_of_lt hb⟩
    · exact ⟨Nat.lt_succ_self _, Nat.lt_succ_self _⟩
  freed := by
    rintro a b (hab | ⟨rfl, rfl⟩)
    · exact h.freed a b hab
    · exact iff_of_false (fun ha => Nat.lt_irrefl _ (h.freed_lt _ ha))
        fun hb => Nat.lt_irrefl _ (h.freed_lt' _ hb)
  freed_lt := fun a ha => Nat.lt_succ_of_lt (h.freed_lt a ha)
  freed_lt' := fun b hb => Nat.lt_succ_of_lt (h.freed_lt' b hb)

theorem Heaps.result (h : Heaps ρ l l') (r r' : ParserResult) :
    Heaps ρ (setResult l r) (setResult l' r') :=
  ⟨h.left, h.right, h.bounded, h.freed, h.freed_lt, h.freed_lt'⟩

theorem Results.update (h : Results ρ shown r r') {j n : ℕ} (hp : Paired σ p p')
    (hsub : ∀ a b, ρ a b → σ a b)
    (hold : ∀ i, i < n ∨ i = 0 ∨ (i = 1 ∧ shown) → i ≠ j → i < r.numParams ∨ i = 0 ∨ (i = 1 ∧ shown)) :
    Results σ shown
      { r with params := Function.update r.params j p, numParams := n }
      { r' with params := Function.update r'.params j p', numParams := n } where
  nick := h.nick.mono hsub
  name := h.name.mono hsub
  host := h.host.mono hsub
  command := h.command.mono hsub
  numParams := rfl
  params := by
    intro i hi
    dsimp only at hi ⊢
    by_cases hij : i = j
    · subst hij
      rw [Function.update_self, Function.update_self]
      exact hp
    · rw [Function.update_of_ne hij, Function.update_of_ne hij]
      exact (h.params i (hold i hi hij)).mono hsub

end pairs

section lines
variable {l l' : LineState} {shown : Prop}

theorem SameLine.onCall (h : SameLine shown l l') (call : LineWords.Call) :
    SameLine shown (onCall l call) (onCall l' call) := by
  obtain ⟨ρ, hheap, hr⟩ := h
  obtain ⟨cb, text⟩ := call
  have hold : ∀ i, i < l.result.numParams ∨ i = 0 ∨ (i = 1 ∧ shown) →
      Paired (withNew ρ l l') (l.result.params i) (l'.result.params i) := fun i hi => (hr.params i hi).old
  cases cb with
  | onNick =>
    exact ⟨withNew ρ l l', hheap.new _ _, paired_new text, hr.name.old, hr.host.old, hr.command.old,
      hr.numParams, hold⟩
  | onName =>
    exact ⟨withNew ρ l l', hheap.new _ _, hr.nick.old, paired_new text, hr.host.old, hr.command.old,
      hr.numParams, hold⟩
  | onHost =>
    exact ⟨withNew ρ l l', hheap.new _ _, hr.nick.old, hr.name.old, paired_new text, hr.command.old,
      hr.numParams, hold⟩
  | onCommand =>
    exact ⟨withNew ρ l l', hheap.new _ _, hr.nick.old, hr.name.old, hr.host.old, paired_new text,
      hr.numParams, hold⟩
  | onParam =>
    by_cases hroom : l.result.numParams < maxParamsAllowed
    · have hroom' : l'.result.numParams < maxParamsAllowed := hr.numParams ▸ hroom
      refine ⟨withNew ρ l l', ?_, ?_⟩
      · simp only [LineParser.onCall, onParam, if_pos hroom, if_pos hroom']
        exact hheap.new _ _
      · simp only [LineParser.onCall, onParam, if_pos hroom, ← hr.numParams]
        refine hr.update (paired_new text) (fun _ _ => .inl) fun i hi hne => ?_
        rcases hi with hi | hi
        · exact .inl (by omega)
        · exact .inr hi
    · have hroom' : ¬ l'.result.numParams < maxParamsAllowed := hr.numParams ▸ hroom
      simp only [LineParser.onCall, onParam, if_neg hroom, if_neg hroom']
      exact ⟨ρ, hheap, hr⟩
  | onEnd | onError => exact ⟨ρ, hheap, hr⟩

theorem SameLine.foldl (h : SameLine shown l l') (calls : List LineWords.Call) :
    SameLine shown (calls.foldl LineParser.onCall l) (calls.foldl LineParser.onCall l') := by
  induction calls generalizing l l' with
  | nil => exact h
  | cons call calls ih => exact ih (h.onCall call)

theorem SameLine.mono {hidden : Prop} (h : SameLine shown l l')
    (hshown : hidden → shown ∨ 1 < l.result.numParams) : SameLine hidden l l' := by
  obtain ⟨ρ, hheap, hr⟩ := h
  exact ⟨ρ, hheap, hr.mono hshown⟩

theorem SameLine.replaceParam (h : SameLine shown l l') (i : ℕ) (text : Bytes) {n : ℕ}
    (hn : ∀ j, j < n ∨ j = 0 ∨ (j = 1 ∧ shown) → j ≠ i →
      j < l.result.numParams ∨ j = 0 ∨ (j = 1 ∧ shown)) :
    SameLine shown (replaceParam i text n l) (replaceParam i text n l') := by
  obtain ⟨ρ, hheap, hr⟩ := h
  exact ⟨withNew ρ l l', hheap.new _ _, hr.update (paired_new text) (fun _ _ => .inl) hn⟩

theorem SameLine.moveMode (h : SameLine shown l l') (hsecond : 1 < l.result.numParams ∨ shown) :
    SameLine shown (moveMode l) (moveMode l') := by
  obtain ⟨ρ, hheap, hr⟩ := h
  have hp : Paired ρ (l.result.params 1) (l'.result.params 1) := by
    apply hr.params
    rcases hsecond with hsecond | hsecond
    · exact .inl hsecond
    · exact .inr (.inr ⟨rfl, hsecond⟩)
  refine ⟨ρ, hheap.result _ _, hr.update hp (fun _ _ h => h) fun j hj hne => ?_⟩
  rcases hj with hj | hj
  · exact .inr (.inl (by omega))
  · exact .inr hj

section free
variable {ρ : Pairing} {p p' : Option Str} {r r' : ParserResult}

theorem Paired.exists_toList (h : Paired ρ p p') {str : Str} (hstr : str ∈ p.toList) :
    ∃ str' ∈ p'.toList, ρ str.id str'.id := by
  cases h with
  | some h =>
    rw [Option.toList_some, List.mem_singleton] at hstr
    subst hstr
    exact ⟨_, List.mem_singleton_self _, h.1⟩
  | none => cases hstr

theorem Results.exists_paramStrs (h : Results ρ shown r r') {str : Str} (hstr : str ∈ paramStrs r) :
    ∃ str' ∈ paramStrs r', ρ str.id str'.id := by
  obtain ⟨i, hi, hslot⟩ := List.mem_filterMap.mp hstr
  rw [List.mem_range] at hi
  have hp := h.params i (.inl hi)
  rw [hslot] at hp
  obtain ⟨str', hstr', hpair⟩ := hp.exists_toList (List.mem_singleton_self str)
  refine ⟨str', List.mem_filterMap.mpr ⟨i, ?_, Option.mem_toList.mp hstr'⟩, hpair⟩
  rw [List.mem_range, ← h.numParams]
  exact hi

theorem Results.exists_strs (h : Results ρ shown r r') {str : Str} (hstr : str ∈ r.strs) :
    ∃ str' ∈ r'.strs, ρ str.id str'.id := by
  rw [strs_eq] at hstr ⊢
  simp only [List.mem_append] at hstr ⊢
  rcases hstr with hstr | hstr | hstr | hstr | hstr
  · obtain ⟨str', hmem, hpair⟩ := h.nick.exists_toList hstr
    exact ⟨str', .inl hmem, hpair⟩
  · obtain ⟨str', hmem, hpair⟩ := h.name.exists_toList hstr
    exact ⟨str', .inr (.inl hmem), hpair⟩
  · obtain ⟨str', hmem, hpair⟩ := h.host.exists_toList hstr
    exact ⟨str', .inr (.inr (.inl hmem)), hpair⟩
  · obtain ⟨str', hmem, hpair⟩ := h.command.exists_toList hstr
    exact ⟨str', .inr (.inr (.inr (.inl hmem))), hpair⟩
  · obtain ⟨str', hmem, hpair⟩ := h.exists_paramStrs hstr
    exact ⟨str', .inr (.inr (.inr (.inr hmem))), hpair⟩

structure Freed (ρ : Pairing) (xs xs' : List Str) : Prop where
  left : ∀ str ∈ xs, ∃ str' ∈ xs', ρ str.id str'.id
  right : ∀ str' ∈ xs', ∃ str ∈ xs, ρ str.id str'.id

theorem Heaps.free (h : Heaps ρ l l') {xs xs' : List Str} (hxs : Freed ρ xs xs') (r r' : ParserResult) :
    Heaps ρ { l with result := r, freed := l.freed ++ xs.map (·.id) }
      { l' with result := r', freed := l'.freed ++ xs'.map (·.id) } where
  left := h.left
  right := h.right
  bounded := h.bounded
  freed := by
    intro a b hab
    simp only [List.mem_append, h.freed a b hab, List.mem_map]
    refine or_congr_right ⟨?_, ?_⟩
    · rintro ⟨str, hstr, rfl⟩
      obtain ⟨str', hstr', hpair⟩ := hxs.left str hstr
      exact ⟨str', hstr', h.left _ _ _ hpair hab⟩
    · rintro ⟨str', hstr', rfl⟩
      obtain ⟨str, hstr, hpair⟩ := hxs.right str' hstr'
      exact ⟨str, hstr, h.right _ _ _ hpair hab⟩
  freed_lt := by
    intro a ha
    rcases List.mem_append.mp ha with ha | ha
    · exact h.freed_lt a ha
    · obtain ⟨str, hstr, rfl⟩ := List.mem_map.mp ha
      obtain ⟨str', -, hpair⟩ := hxs.left str hstr
      exact (h.bounded _ _ hpair).1
  freed_lt' := by
    intro b hb
    rcases List.mem_append.mp hb with hb | hb
    · exact h.freed_lt' b hb
    · obtain ⟨str', hstr', rfl⟩ := List.mem_map.mp hb
      obtain ⟨str, -, hpair⟩ := hxs.right str' hstr'
      exact (h.bounded _ _ hpair).2

theorem Results.emptied (h : Results ρ shown r r') (i : ℕ)
    (hi : i = 0 ∨ (i = 1 ∧ shown)) :
    Paired ρ (if i < r.numParams then none else r.params i)
      (if i < r'.numParams then none else r'.params i) := by
  rw [← h.numParams]
  split
  · exact paired_none
  · exact h.params i (.inr hi)

end free

theorem SameLine.free (h : SameLine shown l l') :
    SameLine shown (freeParserResult l) (freeParserResult l') := by
  obtain ⟨ρ, hheap, hr⟩ := h
  have hxs : Freed ρ l.result.strs l'.result.strs :=
    ⟨fun _ hstr => hr.exists_strs hstr, fun _ hstr => hr.swap.exists_strs hstr⟩
  refine ⟨ρ, hheap.free hxs _ _, paired_none, paired_none, paired_none, paired_none, rfl, ?_⟩
  intro i hi
  exact hr.emptied i (hi.resolve_left (Nat.not_lt_zero i))

theorem SameLine.freeParams (h : SameLine shown l l') :
    SameLine shown (freeParams l) (freeParams l') := by
  obtain ⟨ρ, hheap, hr⟩ := h
  have hxs : Freed ρ (paramStrs l.result) (paramStrs l'.result) :=
    ⟨fun _ hstr => hr.exists_paramStrs hstr, fun _ hstr => hr.swap.exists_paramStrs hstr⟩
  refine ⟨ρ, hheap.free hxs _ _, hr.nick, hr.name, hr.host, hr.command, hr.numParams, ?_⟩
  intro i hi
  rcases hi with hi | hi
  · have hi : i < l.result.numParams := hi
    have hi' : i < l'.result.numParams := hr.numParams ▸ hi
    simp only [Commands.freeParams, if_pos hi, if_pos hi']
    exact paired_none
  · exact hr.emptied i hi

theorem SameLine.replyToNotice (h : SameLine shown l l') (text : Bytes) :
    SameLine shown (replyToNotice text l) (replyToNotice text l') := by
  refine h.freeParams.replaceParam 0 _ fun j hj hne => ?_
  rcases hj with hj | hj
  · exact absurd (by omega) hne
  · exact .inr hj

theorem sameLine_settled (h : Settled l) (h' : Settled l')
    (hsecond : shown → l.result.params 1 = none ∧ l'.result.params 1 = none) : SameLine shown l l' := by
  refine ⟨fun _ _ => False, ⟨?_, ?_, ?_, ?_, h.freed_lt, h'.freed_lt⟩, ?_, ?_, ?_, ?_, ?_, ?_⟩
  · exact fun _ _ _ hf => hf.elim
  · exact fun _ _ _ hf => hf.elim
  · exact fun _ _ hf => hf.elim
  · exact fun _ _ hf => hf.elim
  · rw [h.nick, h'.nick]
    exact paired_none
  · rw [h.name, h'.name]
    exact paired_none
  · rw [h.host, h'.host]
    exact paired_none
  · rw [h.command, h'.command]
    exact paired_none
  · rw [h.numParams, h'.numParams]
  · intro i hi
    rcases hi with hi | rfl | ⟨rfl, hi⟩
    · rw [h.numParams] at hi
      exact absurd hi (Nat.not_lt_zero i)
    · rw [h.first, h'.first]
      exact paired_none
    · rw [(hsecond hi).1, (hsecond hi).2]
      exact paired_none

end lines

end Xdccget.PairedLines
