import Xdccget.Commands

set_option autoImplicit false

/-!
# The bot-command argument

`parseDccDownloads` cuts the third argument at its commas and every trimmed
piece at its first space. Memory is taken to suffice.
-/
namespace Xdccget.DownloadArguments
open CText ClientState Commands

def comma : UInt8 := 0x2C

/-- The loop of `sdssplitlen` for a separator of one byte; `token` is what stands
between `start` and `j`. -/
def splitFrom (sep : UInt8) (token : Bytes) : Bytes → List Bytes
  | [] => [token]
  | c :: rest =>
    if c = sep then token :: splitFrom sep [] rest else splitFrom sep (token ++ [c]) rest

def sdssplitlen (s : Bytes) (sep : UInt8) : List Bytes :=
  if s.length = 0 then [] else splitFrom sep [] s

/-- The first `len` bytes at `t`; the text before in `s` is gone. -/
def sdscpylen (t : Bytes) (len : ℕ) : Option Bytes := some (t.take len)

/-- `*nick` and `*xdccCmd`; the index 0 also stands for no space at all. -/
def parseDccDownload (dccDownloadString : Bytes) : Option Bytes × Option Bytes :=
  let strLen := strlen dccDownloadString
  let spaceFound := ((cstr dccDownloadString).findIdx? (· = space)).getD 0
  let nickLen := spaceFound + 1
  let cmdLen := strLen - spaceFound + 1
  let text := cstr dccDownloadString ++ [nul]
  (sdscpylen text (nickLen - 1), sdscpylen (text.drop (spaceFound + 1)) (cmdLen - 1))

def newDccDownload (botNick xdccCmd : Bytes) : DccDownload := ⟨botNick, xdccCmd, none⟩

structure Filling where
  dccDownloadArray : List (Option DccDownload)
  j : ℕ

def fillEntry (f : Filling) (piece : Bytes) : Filling :=
  match parseDccDownload (sdstrim blanks piece) with
  | (some nick, some xdccCmd) =>
    ⟨f.dccDownloadArray.set f.j (some (newDccDownload nick xdccCmd)), f.j + 1⟩
  | (some _, none) => f
  | (none, _) => f

/-- The array and `*numDownloads`. -/
def parseDccDownloads (dccDownloadString : Bytes) : List (Option DccDownload) × ℕ :=
  let splittedString := sdssplitlen (cstr dccDownloadString) comma
  let numFound := splittedString.length
  ((splittedString.foldl fillEntry ⟨List.replicate (numFound + 1) none, 0⟩).dccDownloadArray,
    numFound)

/-- The pair of a trimmed piece: its first space parts a nick from a command. -/
def readPair (piece : Bytes) : Option (Bytes × Bytes) :=
  match piece.takeWhile (· ≠ space), piece.dropWhile (· ≠ space) with
  | nick@(_ :: _), _ :: cmd@(_ :: _) => some (nick, cmd)
  | _, _ => none

def wantedPairs (argument : Bytes) : List (Bytes × Bytes) :=
  ((cstr argument).splitOn comma).filterMap fun piece => readPair (sdstrim blanks piece)

def listedPairs (array : List (Option DccDownload)) : List (Bytes × Bytes) :=
  ((array.takeWhile Option.isSome).filterMap id).map fun d => (cstr d.botNick, cstr d.xdccCmd)

/-- The result is a NULL-terminated array of the wanted pairs, with their number. -/
structure ParsedAs (argument : Bytes) (result : List (Option DccDownload) × ℕ) : Prop where
  terminated : none ∈ result.1
  pairs : listedPairs result.1 = wantedPairs argument
  counted : result.2 = (listedPairs result.1).length

theorem cstr_terminated {s : Bytes} (h : nul ∉ s) : cstr (s ++ [nul]) = s := by
  apply Scanf.takeWhile_append_stops
  · intro c hc
    have hne : c ≠ nul := fun he => h (he ▸ hc)
    simpa using hne
  · intro c hc
    cases hc
    rfl

theorem takeWhile_first {nick cmd : Bytes} (h : space ∉ nick) :
    (nick ++ space :: cmd).takeWhile (· ≠ space) = nick := by
  apply Scanf.takeWhile_append_stops
  · intro c hc
    have hne : c ≠ space := fun he => h (he ▸ hc)
    simpa using hne
  · intro c hc
    cases hc
    rfl

theorem dropWhile_first {nick cmd : Bytes} (h : space ∉ nick) :
    (nick ++ space :: cmd).dropWhile (· ≠ space) = space :: cmd := by
  apply Scanf.dropWhile_append_stops
  · intro c hc
    have hne : c ≠ space := fun he => h (he ▸ hc)
    simpa using hne
  · intro c hc
    cases hc
    rfl

theorem readPair_eq_some_iff (piece nick cmd : Bytes) :
    readPair piece = some (nick, cmd) ↔
      piece = nick ++ space :: cmd ∧ nick ≠ [] ∧ cmd ≠ [] ∧ space ∉ nick := by
  constructor
  · intro h
    by_cases hmem : space ∈ piece
    · obtain ⟨before, after, rfl, hfree⟩ := List.eq_append_cons_of_mem hmem
      unfold readPair at h
      rw [takeWhile_first hfree, dropWhile_first hfree] at h
      cases before with
      | nil => cases h
      | cons b before =>
        cases after with
        | nil => cases h
        | cons a after =>
          cases h
          exact ⟨rfl, List.cons_ne_nil _ _, List.cons_ne_nil _ _, hfree⟩
    · have hall : piece.dropWhile (· ≠ space) = [] := by
        rw [List.dropWhile_eq_nil_iff]
        intro c hc
        have hne : c ≠ space := fun he => hmem (he ▸ hc)
        simpa using hne
      unfold readPair at h
      rw [hall] at h
      split at h
      · rename_i hnone
        cases hnone
      · cases h
  · rintro ⟨rfl, hnick, hcmd, hfree⟩
    unfold readPair
    rw [takeWhile_first hfree, dropWhile_first hfree]
    cases nick with
    | nil => exact absurd rfl hnick
    | cons n nick =>
      cases cmd with
      | nil => exact absurd rfl hcmd
      | cons c cmd => rfl

theorem sdstrim_cons {s rest : Bytes} {c : UInt8} (h : sdstrim blanks s = c :: rest) :
    trims blanks c = false := by
  obtain ⟨back, hback⟩ : sdstrim blanks s <+: s.dropWhile (trims blanks) :=
    List.rdropWhile_prefix _ _
  apply Scanf.stops_dropWhile (trims blanks) s
  rw [← hback, h]
  rfl

theorem sdstrim_concat {s front : Bytes} {c : UInt8} (h : sdstrim blanks s = front ++ [c]) :
    trims blanks c = false := by
  apply Scanf.stops_dropWhile (trims blanks) (s.dropWhile (trims blanks)).reverse
  have hrev : (s.dropWhile (trims blanks)).reverse.dropWhile (trims blanks) =
      (front ++ [c]).reverse := by
    rw [← h, sdstrim, List.rdropWhile, List.reverse_reverse]
  rw [hrev, List.reverse_concat]
  rfl

theorem readPair_of_space {piece : Bytes} (h : space ∈ sdstrim blanks piece) :
    ∃ nick cmd, sdstrim blanks piece = nick ++ space :: cmd ∧ nick ≠ [] ∧ cmd ≠ [] ∧ space ∉ nick := by
  obtain ⟨nick, cmd, heq, hfree⟩ := List.eq_append_cons_of_mem h
  have hblank : trims blanks space ≠ false := by decide
  refine ⟨nick, cmd, heq, ?_, ?_, hfree⟩
  · rintro rfl
    exact hblank (sdstrim_cons heq)
  · rintro rfl
    exact hblank (sdstrim_concat heq)

theorem readPair_isSome_iff (piece : Bytes) :
    (readPair (sdstrim blanks piece)).isSome ↔ space ∈ sdstrim blanks piece := by
  rw [Option.isSome_iff_exists]
  constructor
  · rintro ⟨⟨nick, cmd⟩, h⟩
    rw [((readPair_eq_some_iff _ _ _).mp h).1]
    exact List.mem_append_right _ List.mem_cons_self
  · intro h
    obtain ⟨nick, cmd, hform⟩ := readPair_of_space h
    exact ⟨(nick, cmd), (readPair_eq_some_iff _ _ _).mpr hform⟩

theorem parseDccDownload_of_first {nick cmd : Bytes} (hfree : space ∉ nick)
    (hnul : nul ∉ nick ++ space :: cmd) :
    parseDccDownload (nick ++ space :: cmd) = (some nick, some (cmd ++ [nul])) := by
  have hindex : (nick ++ space :: cmd).findIdx? (· = space) = some nick.length := by
    rw [List.findIdx?_append, List.findIdx?_eq_none_iff.mpr]
    · simp [List.findIdx?_cons]
    · intro c hc
      have hne : c ≠ space := fun he => hfree (he ▸ hc)
      simpa using hne
  have hlen : (nick ++ space :: cmd).length - nick.length = cmd.length + 1 := by
    rw [List.length_append, List.length_cons]
    omega
  unfold parseDccDownload sdscpylen strlen
  simp only [cstr_of_no_nul hnul, hindex, Option.getD_some, hlen, Nat.add_sub_cancel]
  refine Prod.ext (congrArg some ?_) (congrArg some ?_)
  · rw [List.append_assoc, List.take_left]
  · rw [List.append_assoc, ← List.drop_drop, List.drop_left, List.cons_append, List.drop_succ_cons,
      List.drop_zero]
    exact List.take_of_length_le (by rw [List.length_append]; rfl)

theorem splitFrom_eq (sep : UInt8) (token s : Bytes) :
    splitFrom sep token s = (s.splitOn sep).modifyHead (token ++ ·) := by
  induction s generalizing token with
  | nil => simp [splitFrom, List.splitOn_nil]
  | cons c rest ih =>
    obtain ⟨piece, pieces, heq⟩ := List.exists_cons_of_ne_nil (List.splitOn_ne_nil sep rest)
    rw [splitFrom, List.splitOn_cons_eq_if_modifyHead, ih, ih, heq]
    by_cases hc : c = sep
    · simp [hc]
    · simp [hc]

theorem sdssplitlen_eq {s : Bytes} (h : s ≠ []) (sep : UInt8) : sdssplitlen s sep = s.splitOn sep := by
  have hlen : s.length ≠ 0 := fun h0 => h (List.length_eq_zero_iff.mp h0)
  rw [sdssplitlen, if_neg hlen, splitFrom_eq]
  obtain ⟨piece, pieces, heq⟩ := List.exists_cons_of_ne_nil (List.splitOn_ne_nil sep s)
  rw [heq]
  rfl

theorem mem_of_mem_splitOn {sep c : UInt8} {s piece : Bytes} (hpiece : piece ∈ s.splitOn sep)
    (hc : c ∈ piece) : c ∈ s := by
  induction s generalizing piece with
  | nil =>
    rw [List.splitOn_nil, List.mem_singleton] at hpiece
    exact hpiece ▸ hc
  | cons x rest ih =>
    obtain ⟨first, pieces, heq⟩ := List.exists_cons_of_ne_nil (List.splitOn_ne_nil sep rest)
    rw [List.splitOn_cons_eq_if_modifyHead] at hpiece
    split at hpiece
    · rcases List.mem_cons.mp hpiece with rfl | hlater
      · cases hc
      · exact List.mem_cons_of_mem _ (ih hlater hc)
    · rw [heq] at hpiece ih
      rcases List.mem_cons.mp hpiece with rfl | hlater
      · rcases List.mem_cons.mp hc with rfl | hfirst
        · exact List.mem_cons_self
        · exact List.mem_cons_of_mem _ (ih List.mem_cons_self hfirst)
      · exact List.mem_cons_of_mem _ (ih (List.mem_cons_of_mem _ hlater) hc)

/-- The entry a piece makes, well formed or not. -/
def entryOf (piece : Bytes) : DccDownload :=
  match parseDccDownload (sdstrim blanks piece) with
  | (nick, xdccCmd) => newDccDownload (nick.getD []) (xdccCmd.getD [])

/-- No piece is skipped: `sdsnewlen` gives a string for every length. -/
theorem fillEntry_eq (f : Filling) (piece : Bytes) :
    fillEntry f piece = ⟨f.dccDownloadArray.set f.j (some (entryOf piece)), f.j + 1⟩ := rfl

theorem foldl_fillEntry (pieces : List Bytes) (front : List (Option DccDownload)) (room : ℕ) :
    (pieces.foldl fillEntry
        ⟨front ++ List.replicate (pieces.length + room) none, front.length⟩).dccDownloadArray =
      front ++ pieces.map (fun piece => some (entryOf piece)) ++ List.replicate room none := by
  induction pieces generalizing front with
  | nil => simp
  | cons piece pieces ih =>
    have hset : (front ++ List.replicate (pieces.length + 1 + room) none).set front.length
          (some (entryOf piece)) =
        (front ++ [some (entryOf piece)]) ++ List.replicate (pieces.length + room) none := by
      have hroom : pieces.length + 1 + room = pieces.length + room + 1 := by omega
      rw [hroom, List.replicate_succ, List.set_append_right _ _ (Nat.le_refl _), Nat.sub_self,
        List.set_cons_zero, List.append_assoc, List.singleton_append]
    have hlen : front.length + 1 = (front ++ [some (entryOf piece)]).length := by
      rw [List.length_append, List.length_singleton]
    rw [List.foldl_cons, fillEntry_eq, List.length_cons, hset, hlen, ih, List.map_cons,
      List.append_assoc front, List.singleton_append]

theorem parseDccDownloads_eq (argument : Bytes) :
    parseDccDownloads argument =
      ((sdssplitlen (cstr argument) comma).map (fun piece => some (entryOf piece)) ++ [none],
        (sdssplitlen (cstr argument) comma).length) := by
  have h := foldl_fillEntry (sdssplitlen (cstr argument) comma) [] 1
  rw [List.nil_append, List.nil_append] at h
  exact Prod.ext h rfl

theorem listedPairs_eq (entries : List DccDownload) :
    listedPairs (entries.map some ++ [none]) =
      entries.map fun d => (cstr d.botNick, cstr d.xdccCmd) := by
  have hfront : (entries.map some ++ [none]).takeWhile Option.isSome = entries.map some := by
    induction entries with
    | nil => rfl
    | cons d entries ih => simp [ih]
  rw [listedPairs, hfront, List.filterMap_map]
  exact congrArg _ (List.filterMap_some)

def pairOf (piece : Bytes) : Bytes × Bytes :=
  (cstr (entryOf piece).botNick, cstr (entryOf piece).xdccCmd)

theorem listedPairs_parseDccDownloads (argument : Bytes) :
    listedPairs (parseDccDownloads argument).1 =
      (sdssplitlen (cstr argument) comma).map pairOf := by
  have h := listedPairs_eq ((sdssplitlen (cstr argument) comma).map entryOf)
  rw [List.map_map, List.map_map] at h
  rw [parseDccDownloads_eq]
  exact h

theorem terminated_counted (argument : Bytes) :
    none ∈ (parseDccDownloads argument).1 ∧
      (parseDccDownloads argument).2 = (listedPairs (parseDccDownloads argument).1).length := by
  rw [listedPairs_parseDccDownloads, List.length_map, parseDccDownloads_eq]
  exact ⟨List.mem_append_right _ List.mem_cons_self, rfl⟩

theorem pairOf_of_space {piece : Bytes} (hnul : nul ∉ piece) (h : space ∈ sdstrim blanks piece) :
    readPair (sdstrim blanks piece) = some (pairOf piece) := by
  obtain ⟨nick, cmd, heq, hnick, hcmd, hfree⟩ := readPair_of_space h
  have htrim : nul ∉ sdstrim blanks piece := fun hmem => hnul (mem_of_mem_sdstrim hmem)
  rw [heq] at htrim
  have hentry : entryOf piece = newDccDownload nick (cmd ++ [nul]) := by
    rw [entryOf, heq, parseDccDownload_of_first hfree htrim]
    rfl
  have hnickNul : nul ∉ nick := fun hmem => htrim (List.mem_append_left _ hmem)
  have hcmdNul : nul ∉ cmd := fun hmem =>
    htrim (List.mem_append_right _ (List.mem_cons_of_mem _ hmem))
  have hcmdText : cstr (cmd ++ [nul]) = cmd := cstr_terminated hcmdNul
  rw [readPair_eq_some_iff, pairOf, hentry]
  refine ⟨?_, ?_⟩
  · simpa [newDccDownload, cstr_of_no_nul hnickNul, hcmdText] using heq
  · simpa [newDccDownload, cstr_of_no_nul hnickNul, hcmdText] using ⟨hnick, hcmd, hfree⟩

/-- The result is right exactly when no piece has to be skipped, or nothing is given. -/
theorem parsed_as_iff (argument : Bytes) :
    ParsedAs argument (parseDccDownloads argument) ↔
      cstr argument = [] ∨ ∀ piece ∈ (cstr argument).splitOn comma, space ∈ sdstrim blanks piece := by
  by_cases hempty : cstr argument = []
  · have hnone : listedPairs (parseDccDownloads argument).1 = wantedPairs argument := by
      rw [listedPairs_parseDccDownloads, wantedPairs, hempty]
      rfl
    exact iff_of_true ⟨(terminated_counted argument).1, hnone, (terminated_counted argument).2⟩
      (.inl hempty)
  · have hsplit := sdssplitlen_eq hempty comma
    have hlisted := listedPairs_parseDccDownloads argument
    rw [hsplit] at hlisted
    constructor
    · intro h
      right
      have hlen := congrArg List.length h.pairs
      rw [hlisted, List.length_map, wantedPairs] at hlen
      intro piece hpiece
      rw [← readPair_isSome_iff]
      exact List.filterMap_length_eq_length.mp hlen.symm piece hpiece
    · rintro (h | h)
      · exact absurd h hempty
      · refine ⟨(terminated_counted argument).1, ?_, (terminated_counted argument).2⟩
        rw [hlisted, wantedPairs, ← List.filterMap_eq_map]
        apply List.filterMap_congr
        intro piece hpiece
        have hnul : nul ∉ piece := fun hmem =>
          nul_not_mem_cstr argument (mem_of_mem_splitOn hpiece hmem)
        exact (pairOf_of_space hnul (h piece hpiece)).symm

/-- A trailing comma makes a second entry with an empty nick. -/
theorem trailing_comma_listed :
    ¬ ParsedAs (bytes "bot xdcc send #1,") (parseDccDownloads (bytes "bot xdcc send #1,")) := by
  intro h
  have hpairs := h.pairs
  revert hpairs
  decide

end Xdccget.DownloadArguments
