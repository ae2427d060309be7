import Xdccget.ConfigText

set_option autoImplicit false

/-!
# The lines of a configuration

What is left of a line when it is trimmed and cut, and what a whole text comes to: the
assignments of its lines, in order, without those whose value has an `=`.
-/
namespace Xdccget.ConfigText
open CText Scanf
open DownloadArguments (sdssplitlen sdssplitlen_eq)

theorem trims_blank {cset : Bytes} {c : UInt8} (h : c ∈ cset) : trims cset c = true :=
  decide_eq_true (List.mem_cons_of_mem _ h)

theorem trims_keeps {cset : Bytes} {c : UInt8} (hnul : c ≠ nul) (h : c ∉ cset) :
    trims cset c = false := by
  apply decide_eq_false
  rw [List.mem_cons, not_or]
  exact ⟨hnul, h⟩

theorem dropWhile_pads {cset pads : Bytes} (h : ∀ c ∈ pads, c ∈ cset) (s : Bytes) :
    (pads ++ s).dropWhile (trims cset) = s.dropWhile (trims cset) := by
  induction pads with
  | nil => rfl
  | cons c pads ih =>
    rw [List.cons_append, List.dropWhile_cons_of_pos (trims_blank (h c List.mem_cons_self))]
    exact ih fun d hd => h d (List.mem_cons_of_mem _ hd)

theorem rdropWhile_pads {cset pads : Bytes} (h : ∀ c ∈ pads, c ∈ cset) (s : Bytes) :
    (s ++ pads).rdropWhile (trims cset) = s.rdropWhile (trims cset) := by
  rw [List.rdropWhile, List.reverse_append, dropWhile_pads fun c hc => h c (List.mem_reverse.mp hc)]
  rfl

theorem rdropWhile_keeps {cset s : Bytes} (h : ∀ c ∈ s.getLast?, trims cset c = false) :
    s.rdropWhile (trims cset) = s := by
  have hstops : Stops (trims cset) s.reverse := fun c hc => h c (List.head?_reverse ▸ hc)
  rw [List.rdropWhile, dropWhile_of_stops hstops, List.reverse_reverse]

theorem sdstrim_parts {cset front s behind : Bytes} (hfront : ∀ c ∈ front, c ∈ cset)
    (hbehind : ∀ c ∈ behind, c ∈ cset) (hfirst : ∀ c ∈ s.head?, trims cset c = false)
    (hlast : ∀ c ∈ s.getLast?, trims cset c = false) :
    sdstrim cset (front ++ (s ++ behind)) = s := by
  rw [sdstrim, dropWhile_pads hfront]
  cases s with
  | nil =>
    have hnil : (([] : Bytes) ++ behind).dropWhile (trims cset) = [] := by
      rw [List.nil_append, List.dropWhile_eq_nil_iff]
      exact fun c hc => trims_blank (hbehind c hc)
    rw [hnil, List.rdropWhile_nil]
  | cons c s =>
    have hkeep : (c :: s ++ behind).dropWhile (trims cset) = c :: s ++ behind := dropWhile_of_stops hfirst
    rw [hkeep, rdropWhile_pads hbehind, rdropWhile_keeps hlast]

theorem sdstrim_at {cset : Bytes} {c : UInt8} (h : trims cset c = false) (front behind : Bytes) :
    sdstrim cset (front ++ c :: behind) =
      front.dropWhile (trims cset) ++ c :: behind.rdropWhile (trims cset) := by
  have hdrop : ∀ l l' : Bytes,
      (l ++ c :: l').dropWhile (trims cset) = l.dropWhile (trims cset) ++ c :: l' := by
    intro l l'
    induction l with
    | nil => exact dropWhile_of_stops fun d hd => Option.some.inj hd ▸ h
    | cons d l ih =>
      by_cases hd : trims cset d = true
      · rw [List.cons_append, List.dropWhile_cons_of_pos hd, List.dropWhile_cons_of_pos hd, ih]
      · rw [List.cons_append, List.dropWhile_cons_of_neg hd, List.dropWhile_cons_of_neg hd]
        rfl
  rw [sdstrim, hdrop, List.rdropWhile, List.reverse_append, List.reverse_cons, List.append_assoc,
    List.singleton_append, hdrop, List.reverse_append, List.reverse_cons, List.reverse_reverse,
    List.append_assoc, List.singleton_append]
  rfl

theorem blanks_subset {c : UInt8} (h : c ∈ blanks) : c ∈ lineBlanks := by
  revert h
  simp only [blanks, lineBlanks, bytes]
  simp
  tauto

theorem Setting.front (s : Setting) : ∃ gap, (∀ c ∈ gap, c ∈ blanks) ∧
    (s.before ++ (s.key ++ s.afterKey)).dropWhile (trims lineBlanks) = s.key ++ gap := by
  have hgap : ∀ c ∈ s.afterKey, c ∈ blanks := fun c hc => s.gaps c (List.mem_append_left _ hc)
  rw [dropWhile_pads fun c hc => s.pads c (List.mem_append_left _ hc)]
  cases hkey : s.key with
  | nil =>
    -- Without a key the gap is trimmed with the line.
    refine ⟨[], List.forall_mem_nil _, ?_⟩
    rw [List.nil_append, List.nil_append, List.dropWhile_eq_nil_iff]
    exact fun c hc => trims_blank (blanks_subset (hgap c hc))
  | cons c key =>
    refine ⟨s.afterKey, hgap, dropWhile_of_stops ?_⟩
    intro d hd
    obtain rfl := Option.some.inj hd
    apply trims_keeps
    · exact fun he => s.key_text.clean.1 (by rw [hkey, he]; exact List.mem_cons_self)
    · exact (s.key_text.first c (by rw [hkey]; rfl)).1

theorem Setting.behind_value (s : Setting) : ∃ gap, (∀ c ∈ gap, c ∈ blanks) ∧
    (s.beforeValue ++ (s.value ++ s.behind)).rdropWhile (trims lineBlanks) = gap ++ s.value := by
  have hgap : ∀ c ∈ s.beforeValue, c ∈ blanks := fun c hc => s.gaps c (List.mem_append_right _ hc)
  rw [← List.append_assoc, rdropWhile_pads fun c hc => s.pads c (List.mem_append_right _ hc)]
  by_cases hvalue : s.value = []
  · -- So it is behind the `=` without a value.
    refine ⟨[], List.forall_mem_nil _, ?_⟩
    rw [hvalue, List.append_nil, List.append_nil, List.rdropWhile_eq_nil_iff]
    exact fun c hc => trims_blank (blanks_subset (hgap c hc))
  · refine ⟨s.beforeValue, hgap, rdropWhile_keeps ?_⟩
    intro c hc
    rw [List.getLast?_append_of_ne_nil _ hvalue] at hc
    apply trims_keeps
    · exact fun he => s.value_text.clean.1 (he ▸ List.mem_of_getLast? hc)
    · exact s.value_text.last c hc

theorem equals_not_blank {gap : Bytes} (h : ∀ c ∈ gap, c ∈ blanks) : equals ∉ gap :=
  fun hmem => absurd (h equals hmem) (by decide)

theorem splitOn_ne_singleton {sep : UInt8} {s : Bytes} (h : sep ∈ s) :
    ∃ first second rest, s.splitOn sep = first :: second :: rest := by
  obtain ⟨u, v, rfl, hu⟩ := List.eq_append_cons_of_mem h
  obtain ⟨second, rest, heq⟩ := List.exists_cons_of_ne_nil (List.splitOn_ne_nil sep v)
  exact ⟨u, second, rest, by rw [List.splitOn_append_cons_self_of_not_mem hu, heq]⟩

theorem Setting.not_ignored (s : Setting) {gap : Bytes} (hgap : ∀ c ∈ gap, c ∈ blanks)
    (rest : Bytes) : ignoreLine (s.key ++ gap ++ equals :: rest) = false := by
  have hhead : ∃ c t, s.key ++ gap ++ equals :: rest = c :: t ∧ c ≠ nul ∧ c ≠ hash := by
    cases hkey : s.key with
    | cons c key =>
      refine ⟨c, key ++ gap ++ equals :: rest, rfl, ?_, ?_⟩
      · exact fun he => s.key_text.clean.1 (by rw [hkey, he]; exact List.mem_cons_self)
      · exact (s.key_text.first c (by rw [hkey]; rfl)).2
    | nil =>
      cases gap with
      | nil => exact ⟨equals, rest, rfl, by decide, by decide⟩
      | cons c gap =>
        have hc := hgap c List.mem_cons_self
        refine ⟨c, gap ++ equals :: rest, rfl, ?_, ?_⟩ <;> rintro rfl <;> exact absurd hc (by decide)
  obtain ⟨c, t, heq, hnul, hhash⟩ := hhead
  rw [heq]
  simp [ignoreLine, strEquals, cstr, hnul, hhash]

theorem Setting.trim_key (s : Setting) {gap : Bytes} (hgap : ∀ c ∈ gap, c ∈ blanks) :
    sdstrim blanks (s.key ++ gap) = s.key := by
  rw [← List.nil_append (s.key ++ gap)]
  apply sdstrim_parts (List.forall_mem_nil _) hgap
  · intro c hc
    exact trims_keeps (fun he => s.key_text.clean.1 (he ▸ List.mem_of_head? hc))
      fun hmem => (s.key_text.first c hc).1 (blanks_subset hmem)
  · intro c hc
    exact trims_keeps (fun he => s.key_text.clean.1 (he ▸ List.mem_of_getLast? hc)) (s.key_text.last c hc)

theorem Setting.trim_value (s : Setting) {gap : Bytes} (hgap : ∀ c ∈ gap, c ∈ blanks) :
    sdstrim blanks (gap ++ s.value) = s.value := by
  have hparts : sdstrim blanks (gap ++ (s.value ++ [])) = s.value := by
    apply sdstrim_parts hgap (List.forall_mem_nil _)
    · intro c hc
      exact trims_keeps (fun he => s.value_text.clean.1 (he ▸ List.mem_of_head? hc)) (s.value_text.first c hc)
    · intro c hc
      exact trims_keeps (fun he => s.value_text.clean.1 (he ▸ List.mem_of_getLast? hc))
        fun hmem => s.value_text.last c hc (blanks_subset hmem)
  rwa [List.append_nil] at hparts

theorem parseSplitted_setting (lib : Library) (c : Config) (s : Setting) :
    parseSplitted lib c s.line =
      if equals ∈ s.value then some c else callParsers lib c s.key s.value := by
  obtain ⟨gap, hgap, hfront⟩ := s.front
  obtain ⟨gap', hgap', hbehind⟩ := s.behind_value
  have htrim : sdstrim lineBlanks s.line = s.key ++ gap ++ equals :: (gap' ++ s.value) := by
    rw [Setting.line, sdstrim_at (by decide), hfront, hbehind]
  have hkey : equals ∉ s.key ++ gap := by
    rw [List.mem_append, not_or]
    exact ⟨s.key_text.no_equals, equals_not_blank hgap⟩
  have hsplit : sdssplitlen (s.key ++ gap ++ equals :: (gap' ++ s.value)) equals =
      (s.key ++ gap) :: (gap' ++ s.value).splitOn equals := by
    rw [sdssplitlen_eq (by simp), List.splitOn_append_cons_self_of_not_mem hkey]
  rw [parseSplitted, htrim]
  rw [s.not_ignored hgap, if_neg (by decide), parseConfigLine, hsplit]
  by_cases hvalue : equals ∈ s.value
  · -- At least three pieces: `count != 2`.
    obtain ⟨first, second, rest, heq⟩ :=
      splitOn_ne_singleton (List.mem_append_right gap' hvalue)
    rw [heq, if_pos hvalue]
  · have hpiece : equals ∉ gap' ++ s.value := by
      rw [List.mem_append, not_or]
      exact ⟨equals_not_blank hgap', hvalue⟩
    rw [List.splitOn_eq_singleton hpiece, if_neg hvalue]
    dsimp only
    rw [s.trim_key hgap, s.trim_value hgap']

theorem parseSplitted_comment (lib : Library) (c : Config) {before text : Bytes}
    (hpads : ∀ c ∈ before, c ∈ lineBlanks) (hfirst : text.head? = some hash) :
    parseSplitted lib c (before ++ text) = some c := by
  cases text with
  | nil => exact nomatch hfirst
  | cons d rest =>
    obtain rfl := Option.some.inj hfirst
    have hpad : before.dropWhile (trims lineBlanks) = [] := by
      rw [List.dropWhile_eq_nil_iff]
      exact fun c hc => trims_blank (hpads c hc)
    rw [parseSplitted, sdstrim_at (by decide), hpad]
    simp [ignoreLine]

theorem parseSplitted_blank (lib : Library) (c : Config) {pad : Bytes}
    (hpads : ∀ c ∈ pad, c ∈ lineBlanks) : parseSplitted lib c pad = some c := by
  have hpad : pad.dropWhile (trims lineBlanks) = [] := by
    rw [List.dropWhile_eq_nil_iff]
    exact fun c hc => trims_blank (hpads c hc)
  rw [parseSplitted, sdstrim, hpad]
  rfl

theorem parseSplitted_nil (lib : Library) (c : Config) : parseSplitted lib c [] = some c :=
  parseSplitted_blank lib c (List.forall_mem_nil _)

def assign (lib : Library) (c : Config) (a : Assignment) : Option Config :=
  callParsers lib c a.key a.value

theorem not_lf_of_pads {pads : Bytes} (h : ∀ c ∈ pads, c ∈ lineBlanks) : lf ∉ pads :=
  fun hmem => absurd (h lf hmem) (by decide)

theorem Setting.lf_not_mem (s : Setting) : lf ∉ s.line := by
  have hpads := not_lf_of_pads s.pads
  have hgaps := not_lf_of_pads fun c hc => blanks_subset (s.gaps c hc)
  have hkey := s.key_text.clean.2
  have hvalue := s.value_text.clean.2
  have hequals : lf ≠ equals := by decide
  simp only [List.mem_append, not_or] at hpads hgaps
  simp only [Setting.line, List.mem_append, List.mem_cons, not_or]
  tauto

theorem Item.lf_not_mem (item : Item) : lf ∉ item.line := by
  cases item with
  | comment before text pads first clean =>
    rw [Item.line, List.mem_append, not_or]
    exact ⟨not_lf_of_pads pads, clean.2⟩
  | blank pad pads => exact not_lf_of_pads pads
  | setting s => exact s.lf_not_mem

theorem parseConfigString_eq (lib : Library) (c : Config) (content : Bytes) :
    parseConfigString lib c content = (content.splitOn lf).foldlM (parseSplitted lib) c := by
  by_cases h : content = []
  · subst h
    rw [List.splitOn_nil, List.foldlM_cons, parseSplitted_nil]
    rfl
  · rw [parseConfigString, sdssplitlen_eq h]

theorem foldlM_lines (lib : Library) (items : List Item) (c : Config) :
    (items.map Item.line).foldlM (parseSplitted lib) c =
      (withoutEquals (assignments items)).foldlM (assign lib) c := by
  induction items generalizing c with
  | nil => rfl
  | cons item items ih =>
    rw [List.map_cons, List.foldlM_cons, funext ih]
    cases item with
    | comment before text pads first clean =>
      rw [Item.line, parseSplitted_comment lib c pads first]
      rfl
    | blank pad pads =>
      rw [Item.line, parseSplitted_blank lib c pads]
      rfl
    | setting s =>
      rw [Item.line, parseSplitted_setting]
      by_cases hvalue : equals ∈ s.value
      · simp [hvalue, assignments, Item.assignment, withoutEquals]
      · simp [hvalue, assignments, Item.assignment, withoutEquals, assign]

/-- The reader acts on the lines whose value has no `=`, in order. -/
theorem parse_text (lib : Library) (items : List Item) (c : Config) :
    parseConfigString lib c (text items) =
      (withoutEquals (assignments items)).foldlM (assign lib) c := by
  rw [parseConfigString_eq, ← foldlM_lines]
  cases items with
  | nil =>
    rw [text, List.map_nil, List.intercalate_nil, List.splitOn_nil, List.foldlM_cons,
      parseSplitted_nil]
    rfl
  | cons item items =>
    rw [text, List.splitOn_intercalate lf _ (by simp)]
    intro line hline
    obtain ⟨item', -, rfl⟩ := List.mem_map.mp hline
    exact item'.lf_not_mem

end Xdccget.ConfigText
