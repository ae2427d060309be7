import Xdccget.ConfigTextSettings

set_option autoImplicit false

/-!
# The default configuration

The file that is written where there is none, read back.
-/
namespace Xdccget.ConfigText
open CText Scanf SpeedLimits
open DownloadArguments (sdssplitlen_eq mem_of_mem_splitOn)

structure Readable (s : Bytes) : Prop where
  no_equals : equals ∉ s
  no_lf : lf ∉ s
  first : ∀ c ∈ s.head?, c ∉ blanks

theorem not_mem_of_mem_splitOn {sep : UInt8} {s piece : Bytes} (h : piece ∈ s.splitOn sep) :
    sep ∉ piece := by
  induction s generalizing piece with
  | nil =>
    rw [List.splitOn_nil, List.mem_singleton] at h
    rw [h]
    exact List.not_mem_nil
  | cons c rest ih =>
    obtain ⟨first, pieces, heq⟩ := List.exists_cons_of_ne_nil (List.splitOn_ne_nil sep rest)
    rw [List.splitOn_cons_eq_if_modifyHead, heq] at h
    rw [heq] at ih
    by_cases hc : c = sep
    · rw [if_pos (beq_iff_eq.mpr hc)] at h
      rcases List.mem_cons.mp h with rfl | hlater
      · exact List.not_mem_nil
      · exact ih hlater
    · rw [if_neg (fun he => hc (beq_iff_eq.mp he)), List.modifyHead_cons] at h
      rcases List.mem_cons.mp h with rfl | hlater
      · rw [List.mem_cons, not_or]
        exact ⟨fun he => hc he.symm, ih List.mem_cons_self⟩
      · exact ih (List.mem_cons_of_mem _ hlater)

theorem sdstrim_first (cset s : Bytes) : ∀ c ∈ (sdstrim cset s).head?, c ∉ cset := by
  intro c hc hmem
  obtain ⟨behind, hbehind⟩ := List.rdropWhile_prefix (trims cset) (s.dropWhile (trims cset))
  have hstops := stops_dropWhile (trims cset) s c
  rw [← hbehind, List.head?_append_of_ne_nil] at hstops
  · exact absurd (trims_blank hmem) (by rw [hstops hc]; decide)
  · intro hnil
    rw [sdstrim, hnil] at hc
    cases hc

theorem callParsers_targetDir {lib : Library} {c c' : Config} {type value : Bytes}
    (h : callParsers lib c type value = some c') :
    c'.targetDir = c.targetDir ∨ c'.targetDir = value := by
  by_cases hname : ∃ k : Key, cstr type = k.name
  · obtain ⟨k, hk⟩ := hname
    rw [callParsers_name lib c value hk] at h
    by_cases hvalid : k = .listenIp → lib.inetPton (cstr value) = true
    · obtain ⟨c₁, hcall, -, hget⟩ := callback_get lib c k hvalid
      obtain rfl := Option.some.inj (hcall.symm.trans h)
      have hdir := hget .downloadDir
      by_cases he : Key.downloadDir = k
      · rw [if_pos he, ← he] at hdir
        exact .inr (Value.dir.inj hdir)
      · rw [if_neg he] at hdir
        exact .inl (Value.dir.inj hdir)
    · rw [Classical.not_imp] at hvalid
      obtain ⟨rfl, hfalse⟩ := hvalid
      rw [Key.callback, listenIpCallback, if_neg hfalse] at h
      cases h
  · rw [callParsers_other lib c value fun k hk => hname ⟨k, hk⟩] at h
    exact .inl (congrArg (fun c : Config => c.targetDir) (Option.some.inj h)).symm

theorem parseSplitted_targetDir {lib : Library} {c c' : Config} {line : Bytes} (hline : lf ∉ line)
    (hc : Readable c.targetDir) (h : parseSplitted lib c line = some c') : Readable c'.targetDir := by
  rw [parseSplitted] at h
  split at h
  · exact Option.some.inj h ▸ hc
  · rw [parseConfigLine] at h
    generalize htrim : sdstrim lineBlanks line = trimmed at h
    split at h
    · next type value hsplit =>
      rcases callParsers_targetDir h with he | he
      · rw [he]
        exact hc
      · have hne : trimmed ≠ [] := by
          rintro rfl
          cases hsplit
        rw [sdssplitlen_eq hne] at hsplit
        have hvalue : value ∈ trimmed.splitOn equals := by simp [hsplit]
        rw [he]
        refine ⟨?_, ?_, sdstrim_first _ _⟩
        · exact fun hmem => not_mem_of_mem_splitOn hvalue (mem_of_mem_sdstrim hmem)
        · intro hmem
          apply hline
          apply mem_of_mem_sdstrim
          rw [htrim]
          exact mem_of_mem_splitOn hvalue (mem_of_mem_sdstrim hmem)
    · exact Option.some.inj h ▸ hc

theorem lines_targetDir {lib : Library} {c c' : Config} {lines : List Bytes}
    (hlines : ∀ line ∈ lines, lf ∉ line) (hc : Readable c.targetDir)
    (h : lines.foldlM (parseSplitted lib) c = some c') : Readable c'.targetDir := by
  induction lines generalizing c with
  | nil => exact Option.some.inj h ▸ hc
  | cons line lines ih =>
    rw [List.foldlM_cons, Option.bind_eq_bind, Option.bind_eq_some_iff] at h
    obtain ⟨c₁, hstep, hrest⟩ := h
    have hfirst := parseSplitted_targetDir (hlines line List.mem_cons_self) hc hstep
    exact ih (fun l hl => hlines l (List.mem_cons_of_mem _ hl)) hfirst hrest

theorem parse_targetDir {lib : Library} {c c' : Config} {content : Bytes}
    (hc : Readable c.targetDir) (h : parseConfigString lib c content = some c') :
    Readable c'.targetDir := by
  rw [parseConfigString_eq] at h
  exact lines_targetDir (fun line hline => not_mem_of_mem_splitOn hline) hc h

def Setting.plain (key value : Bytes) (hkey : KeyText key) (hvalue : ValueText value) : Setting where
  before := []
  key := key
  afterKey := []
  beforeValue := []
  value := value
  behind := []
  pads := List.forall_mem_nil _
  gaps := List.forall_mem_nil _
  key_text := hkey
  value_text := hvalue

theorem Setting.plain_line {key value : Bytes} (hkey : KeyText key) (hvalue : ValueText value) :
    (Setting.plain key value hkey hvalue).line = key ++ equals :: value := by
  simp [Setting.line, Setting.plain]

/-- The lines of the default file that are no comments. -/
def defaultSettings (dir : Bytes) (h : ValueText dir) : List Setting := [
  .plain (bytes "downloadDir") dir (by decide) h,
  .plain (bytes "logLevel") (bytes "information") (by decide) (by decide),
  .plain (bytes "verifyChecksums") (bytes "false") (by decide) (by decide),
  .plain (bytes "confirmFileOffsets") (bytes "false") (by decide) (by decide)]

theorem flatMap_lines (lines : List Bytes) :
    lines.flatMap (· ++ [lf]) = [lf].intercalate (lines ++ [[]]) := by
  induction lines with
  | nil => simp
  | cons line lines ih =>
    rw [List.flatMap_cons, ih, List.cons_append, List.intercalate_cons_of_ne_nil (by simp)]

theorem bytes_ofList (l : List Char) : bytes (String.ofList l) = l.map Char.toUInt8 := by
  rw [bytes, String.toList_ofList]

theorem not_mem_bytes {c : UInt8} {l : List Char} (h : c ∉ l.map Char.toUInt8) :
    c ∉ bytes (String.ofList l) := by
  rwa [bytes_ofList]

theorem filter_comment {l : List Char} (lines : List Bytes) :
    (bytes (String.ofList ('#' :: l)) :: lines).filter (fun line => line.head? ≠ some hash) =
      lines.filter fun line => line.head? ≠ some hash := by
  have hhead : (bytes (String.ofList ('#' :: l))).head? = some hash := by
    rw [bytes_ofList]
    rfl
  exact List.filter_cons_of_neg fun hkept => of_decide_eq_true hkept hhead

theorem filter_setting {line : Bytes} (h : line.head? ≠ some hash) (lines : List Bytes) :
    (line :: lines).filter (fun line => line.head? ≠ some hash) =
      line :: lines.filter fun line => line.head? ≠ some hash :=
  List.filter_cons_of_pos (decide_eq_true h)

theorem defaultLines_settings (dir : Bytes) (h : ValueText dir) :
    (defaultLines dir).filter (fun line => line.head? ≠ some hash) =
      (defaultSettings dir h).map Setting.line := by
  have hdir : (bytes "downloadDir=" ++ dir).head? ≠ some hash := by
    rw [List.head?_append_of_ne_nil _ (by decide)]
    decide
  rw [defaultLines, filter_comment, filter_setting hdir, filter_comment,
    filter_setting (by decide), filter_comment, filter_comment, filter_comment,
    filter_setting (by decide), filter_comment, filter_setting (by decide), filter_comment,
    filter_comment, filter_comment, filter_comment, filter_comment, filter_comment,
    List.filter_nil]
  simp only [defaultSettings, List.map_cons, List.map_nil, Setting.plain_line]
  rfl

set_option maxRecDepth 3000 in
theorem not_mem_defaultLines {dir : Bytes} {c : UInt8} (hc : c = lf ∨ c = nul) (hdir : c ∉ dir) :
    ∀ line ∈ defaultLines dir, c ∉ line := by
  have hwritten : c ∉ bytes "downloadDir=" ++ dir := by
    rw [List.mem_append, not_or]
    refine ⟨?_, hdir⟩
    rcases hc with rfl | rfl <;> decide
  simp only [defaultLines, List.forall_mem_cons]
  refine ⟨not_mem_bytes ?_, hwritten, not_mem_bytes ?_, not_mem_bytes ?_, not_mem_bytes ?_,
    not_mem_bytes ?_, not_mem_bytes ?_, not_mem_bytes ?_, not_mem_bytes ?_, not_mem_bytes ?_,
    not_mem_bytes ?_, not_mem_bytes ?_, not_mem_bytes ?_, not_mem_bytes ?_, not_mem_bytes ?_,
    not_mem_bytes ?_, List.forall_mem_nil _⟩
  all_goals rcases hc with rfl | rfl <;> decide

theorem foldlM_comments (lib : Library) (lines : List Bytes) (c : Config) :
    lines.foldlM (parseSplitted lib) c =
      (lines.filter fun line => line.head? ≠ some hash).foldlM (parseSplitted lib) c := by
  induction lines generalizing c with
  | nil => rfl
  | cons line lines ih =>
    rw [List.foldlM_cons, funext ih]
    by_cases h : line.head? = some hash
    · have hskip : parseSplitted lib c ([] ++ line) = some c :=
        parseSplitted_comment lib c (List.forall_mem_nil _) h
      rw [List.nil_append] at hskip
      rw [List.filter_cons_of_neg (by simp [h]), hskip]
      rfl
    · rw [List.filter_cons_of_pos (by simp [h]), List.foldlM_cons]

theorem parse_default (lib : Library) (system : System) (homeDir : Bytes)
    (h : ValueText (defaultDownloadDir system homeDir)) (c : Config) :
    parseConfigString lib c (getDefaultConfigContent system homeDir) =
      (withoutEquals (assignments ((defaultSettings (defaultDownloadDir system homeDir) h).map
        Item.setting))).foldlM (assign lib) c := by
  have hlines : ∀ line ∈ defaultLines (defaultDownloadDir system homeDir) ++ [[]], lf ∉ line := by
    intro line hline
    rcases List.mem_append.mp hline with hline | hline
    · exact not_mem_defaultLines (.inl rfl) h.clean.2 line hline
    · rw [List.mem_singleton.mp hline]
      exact List.not_mem_nil
  rw [parseConfigString_eq, getDefaultConfigContent, flatMap_lines,
    List.splitOn_intercalate lf hlines (by simp), List.foldlM_append, foldlM_comments,
    defaultLines_settings _ h, ← foldlM_lines, List.map_map]
  exact bind_pure _

theorem default_last (system : System) (homeDir : Bytes) :
    (defaultDownloadDir system homeDir).getLast? = some 0x73 := by
  rw [defaultDownloadDir, List.getLast?_append_of_ne_nil _ (by simp [bytes]),
    List.getLast?_append_of_ne_nil _ (by decide)]
  rfl

theorem default_readable_iff (system : System) (homeDir : Bytes) :
    Readable (defaultDownloadDir system homeDir) ↔ Readable (cstr homeDir) := by
  have htail : Readable (getPathSeperator system ++ bytes "Downloads") := by
    cases system <;> refine ⟨by decide, by decide, ?_⟩ <;> rintro c ⟨⟩ <;> decide
  have hmem : ∀ c ∉ getPathSeperator system ++ bytes "Downloads",
      c ∈ defaultDownloadDir system homeDir ↔ c ∈ cstr homeDir := by
    intro c hc
    rw [defaultDownloadDir, List.mem_append, or_iff_left hc]
  have hequals := hmem equals htail.no_equals
  have hlf := hmem lf htail.no_lf
  have hfirst : (∀ c ∈ (defaultDownloadDir system homeDir).head?, c ∉ blanks) ↔
      ∀ c ∈ (cstr homeDir).head?, c ∉ blanks := by
    rw [defaultDownloadDir]
    cases cstr homeDir with
    | nil => exact iff_of_true htail.first (by simp)
    | cons c home => rfl
  constructor
  · rintro ⟨he, hl, hf⟩
    exact ⟨hequals.not.mp he, hlf.not.mp hl, hfirst.mp hf⟩
  · rintro ⟨he, hl, hf⟩
    exact ⟨hequals.not.mpr he, hlf.not.mpr hl, hfirst.mpr hf⟩

theorem default_assignments {dir : Bytes} (hvalue : ValueText dir) (h : equals ∉ dir) :
    ∀ a ∈ assignments ((defaultSettings dir hvalue).map Item.setting),
      a.key ≠ Key.listenIp.name ∧ equals ∉ a.value := by
  simp only [assignments, defaultSettings, List.map_cons, List.map_nil, List.filterMap_cons,
    List.filterMap_nil, Item.assignment, Setting.plain, List.forall_mem_cons]
  exact ⟨⟨by decide, h⟩, ⟨by decide, by decide⟩, ⟨by decide, by decide⟩, ⟨by decide, by decide⟩,
    List.forall_mem_nil _⟩

theorem nul_not_mem_defaultDownloadDir (system : System) (homeDir : Bytes) :
    nul ∉ defaultDownloadDir system homeDir := by
  rw [defaultDownloadDir, List.mem_append, not_or]
  refine ⟨nul_not_mem_cstr homeDir, ?_⟩
  cases system <;> decide

theorem read_back (lib : Library) {system : System} {homeDir : Bytes}
    (h : Readable (defaultDownloadDir system homeDir)) : ReadBack lib system homeDir := by
  intro c
  have hnul := nul_not_mem_defaultDownloadDir system homeDir
  have hvalue : ValueText (defaultDownloadDir system homeDir) := by
    refine ⟨⟨hnul, h.no_lf⟩, h.first, ?_⟩
    rw [default_last]
    rintro c ⟨⟩
    decide
  rw [parse_default lib system homeDir hvalue]
  generalize defaultDownloadDir system homeDir = dir at h hvalue ⊢
  have hright := run_right lib
    (withoutEquals (assignments ((defaultSettings dir hvalue).map Item.setting))) c
  have hall := default_assignments hvalue h.no_equals
  have hkept : withoutEquals (assignments ((defaultSettings dir hvalue).map Item.setting)) =
      assignments ((defaultSettings dir hvalue).map Item.setting) :=
    List.filter_eq_self.mpr fun a ha => decide_eq_true (hall a ha).2
  rw [hkept] at hright ⊢
  generalize hr : (assignments ((defaultSettings dir hvalue).map Item.setting)).foldlM (assign lib) c
    = r at hright
  cases r with
  | none =>
    obtain ⟨a, ha, hname, -⟩ := hright.ends.mp rfl
    exact absurd hname (hall a ha).1
  | some c' => exact ⟨c', rfl, Value.dir.inj (hright.settings c' rfl .downloadDir)⟩

theorem not_read_back (lib : Library) {system : System} {homeDir : Bytes}
    (h : ¬ Readable (defaultDownloadDir system homeDir)) : ¬ ReadBack lib system homeDir := by
  intro hback
  obtain ⟨c', hparse, hdir⟩ := hback (mainConfig [])
  apply h
  rw [← hdir]
  apply parse_targetDir (c := mainConfig []) _ hparse
  exact ⟨List.not_mem_nil, List.not_mem_nil, fun c hc => nomatch hc⟩

/-- A text is read right exactly when nothing is lost with the lines whose value has an `=`.
The default file is read back exactly for a home directory without `=`, newline and leading
blank. -/
theorem text_read_iff (lib : Library) :
    (∀ (items : List Item) (c : Config),
      ParsedRight lib c (assignments items) (parseConfigString lib c (text items)) ↔
        NothingLost lib c (assignments items)) ∧
    ∀ (system : System) (homeDir : Bytes), ReadBack lib system homeDir ↔
      equals ∉ cstr homeDir ∧ lf ∉ cstr homeDir ∧ ∀ c ∈ (cstr homeDir).head?, c ∉ blanks := by
  refine ⟨parsedRight_iff lib, ?_⟩
  intro system homeDir
  have hreadable : ReadBack lib system homeDir ↔ Readable (defaultDownloadDir system homeDir) :=
    ⟨fun hback => Classical.byContradiction fun h => not_read_back lib h hback, read_back lib⟩
  rw [hreadable, default_readable_iff]
  exact ⟨fun h => ⟨h.no_equals, h.no_lf, h.first⟩, fun h => ⟨h.1, h.2.1, h.2.2⟩⟩

/-- The directory of a line with a second `=` is not taken. -/
theorem second_equals_ignored : ¬ ParsedRight ⟨IntStore.wrap, fun _ => true⟩
    (mainConfig (bytes "/home/user/Downloads"))
    (assignments [.setting (.plain (bytes "downloadDir") (bytes "/srv/a=b") (by decide) (by decide))])
    (parseConfigString ⟨IntStore.wrap, fun _ => true⟩ (mainConfig (bytes "/home/user/Downloads"))
      (text [.setting
        (.plain (bytes "downloadDir") (bytes "/srv/a=b") (by decide) (by decide))])) := by
  intro hright
  rw [parse_text] at hright
  have hdir := hright.settings (mainConfig (bytes "/home/user/Downloads")) rfl .downloadDir
  revert hdir
  decide

end Xdccget.ConfigText
