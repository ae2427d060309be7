import Xdccget.ConfigTextDefault
import Xdccget.FileDigests
import Xdccget.StepRuns

set_option autoImplicit false

/-!
# The config file over many starts

A start that finds no config file writes the default text, and every start reads what is there.
Where a start ends while it writes, a beginning of the text stays, and no later start repairs it.
-/
namespace Xdccget.StartUp
open CText ConfigText FileDigests SpeedLimits StepRuns

abbrev Files := Bytes → Option Bytes

def getConfigDirectory (system : System) (homeDir : Bytes) : Bytes :=
  cstr homeDir ++ (getPathSeperator system ++ (bytes ".xdccget" ++ getPathSeperator system))

/-- The `configFilePath` of `parseConfigFile`, and the `configPath` of the writer. -/
def configFilePath (system : System) (homeDir : Bytes) : Bytes :=
  getConfigDirectory system homeDir ++ bytes "config"

/-- One start of the program: the configuration that `main` has by then, whether the system lets
    the file be created and opened, and how many bytes of the text are stored at most. -/
structure Start where
  config : Config
  creates : Bool
  stores : ℕ
  opens : Bool
  api : Api
  bufferSize : BufferSize

/-- Nothing fails while the file is read. -/
structure Start.Reads (start : Start) : Prop where
  opens : start.opens = true
  reads : start.api.Reads
  whole : ∀ content, start.api.readable content = content

/-- `TextReaderCallback` ends the buffer with a NUL and prints it behind the others. -/
def textReaderCallback (buffer content : Bytes) : Bytes := content ++ cstr buffer

def readTextFile (start : Start) (files : Files) (filePath : Bytes) : Option Bytes :=
  if start.opens then
    (files filePath).bind fun content =>
      readFile start.api start.bufferSize content textReaderCallback []
  else none

section program
variable (lib : Library) (system : System) (homeDir : Bytes)

/-- `writeDefaultConfigFile`, and whether it returns. The directory is there, or the file cannot be
    created. -/
def writeDefaultConfigFile (start : Start) (files : Files) : Files × Bool :=
  let content := getDefaultConfigContent system homeDir
  if start.creates then
    (Function.update files (configFilePath system homeDir) (some (content.take start.stores)),
      decide (content.length ≤ start.stores))
  else (files, false)

/-- `parseConfigFile`: the files behind it, and the configuration where the program goes on. -/
def parseConfigFile (start : Start) (files : Files) : Files × Option Config :=
  let written :=
    if (files (configFilePath system homeDir)).isSome then (files, true)
    else writeDefaultConfigFile system homeDir start files
  (written.1,
    if written.2 then
      (readTextFile start written.1 (configFilePath system homeDir)).bind
        (parseConfigString lib start.config)
    else none)

def leave (files : Files) (start : Start) : Files :=
  (parseConfigFile lib system homeDir start files).1

end program

theorem foldl_textReaderCallback (buffers : List Bytes) (content : Bytes) :
    buffers.foldl (fun ctx buffer => textReaderCallback buffer ctx) content =
      content ++ buffers.flatMap cstr := by
  induction buffers generalizing content with
  | nil => rw [List.foldl_nil, List.flatMap_nil, List.append_nil]
  | cons buffer buffers ih =>
    rw [List.foldl_cons, ih, textReaderCallback, List.append_assoc, List.flatMap_cons]

theorem readFile_text {api : Api} {b : BufferSize} {content text : Bytes}
    (h : readFile api b content textReaderCallback [] = some text) :
    ∃ buffers : List Bytes, buffers.flatten = api.readable content ∧
      text = buffers.flatMap cstr := by
  obtain ⟨buffers, -, hflatten, rfl⟩ := readFileLoop_eq h
  exact ⟨buffers, hflatten, foldl_textReaderCallback buffers []⟩

theorem flatMap_cstr {buffers : List Bytes} (h : nul ∉ buffers.flatten) :
    buffers.flatMap cstr = buffers.flatten := by
  have hall : ∀ buffer ∈ buffers, cstr buffer = buffer := fun buffer hbuffer =>
    cstr_of_no_nul fun hnul => h (List.mem_flatten_of_mem hbuffer hnul)
  rw [List.flatMap_def, List.map_congr_left hall, List.map_id']

theorem readTextFile_of_no_nul {start : Start} (hreads : start.Reads) {files : Files}
    {filePath content : Bytes} (hfile : files filePath = some content) (hnul : nul ∉ content) :
    readTextFile start files filePath = some content := by
  have hfuel : (start.api.readable content).length < content.length + 1 + 0 := by
    rw [hreads.whole]
    omega
  obtain ⟨text, htext⟩ := exists_readFileLoop hreads.reads start.bufferSize textReaderCallback
    (Nat.zero_le _) hfuel []
  rw [List.drop_zero] at htext
  obtain ⟨buffers, hflatten, rfl⟩ := readFile_text htext
  rw [hreads.whole] at hflatten
  rw [readTextFile, if_pos hreads.opens, hfile, Option.bind_some, readFile, htext,
    flatMap_cstr (hflatten ▸ hnul), hflatten]

theorem nul_not_mem_default (system : System) (homeDir : Bytes) :
    nul ∉ getDefaultConfigContent system homeDir := by
  intro hnul
  obtain ⟨line, hline, hmem⟩ := List.mem_flatMap.mp hnul
  rcases List.mem_append.mp hmem with hmem | hmem
  · exact not_mem_defaultLines (.inr rfl) (nul_not_mem_defaultDownloadDir system homeDir) line hline
      hmem
  · exact absurd hmem (by decide)

theorem nul_not_mem_take_default (system : System) (homeDir : Bytes) (stores : ℕ) :
    nul ∉ (getDefaultConfigContent system homeDir).take stores := fun hnul =>
  nul_not_mem_default system homeDir (List.mem_of_mem_take hnul)

section starts
variable {lib : Library} {system : System} {homeDir : Bytes} {files : Files}

theorem leave_of_some (h : (files (configFilePath system homeDir)).isSome) (start : Start) :
    leave lib system homeDir files start = files := by
  rw [leave, parseConfigFile, if_pos h]

theorem run_leave_of_some (h : (files (configFilePath system homeDir)).isSome)
    (starts : List Start) : run (leave lib system homeDir) files starts = files := by
  induction starts with
  | nil => rfl
  | cons start starts ih => rw [run_cons, leave_of_some h, ih]

theorem leave_of_none (h : files (configFilePath system homeDir) = none) (start : Start) :
    leave lib system homeDir files start =
      if start.creates then Function.update files (configFilePath system homeDir)
        (some ((getDefaultConfigContent system homeDir).take start.stores))
      else files := by
  rw [leave, parseConfigFile, if_neg (by simp [h]), writeDefaultConfigFile]
  split_ifs <;> rfl

theorem run_leave (h : files (configFilePath system homeDir) = none) (starts : List Start) :
    run (leave lib system homeDir) files starts =
      (starts.find? Start.creates).elim files fun first =>
        Function.update files (configFilePath system homeDir)
          (some ((getDefaultConfigContent system homeDir).take first.stores)) := by
  induction starts with
  | nil => rfl
  | cons start starts ih =>
    rw [run_cons, leave_of_none h]
    by_cases hcreates : start.creates = true
    · rw [if_pos hcreates, List.find?_cons_of_pos hcreates, Option.elim_some]
      exact run_leave_of_some (by simp) starts
    · rw [if_neg hcreates, List.find?_cons_of_neg hcreates, ih]

theorem parseConfigFile_of_some {start : Start} (hreads : start.Reads) {content : Bytes}
    (hfile : files (configFilePath system homeDir) = some content) (hnul : nul ∉ content) :
    parseConfigFile lib system homeDir start files =
      (files, parseConfigString lib start.config content) := by
  rw [parseConfigFile, if_pos (by simp [hfile])]
  dsimp only
  rw [if_pos rfl, readTextFile_of_no_nul hreads hfile hnul, Option.bind_some]

/-- The first start that can create the config file decides what every later one reads. Where it
    stores the whole text, the later ones take its directory, unless the home directory has a
    character that the reader does not expect. -/
theorem config_of_starts (lib : Library) (hnone : files (configFilePath system homeDir) = none)
    {before : List Start} {first last : Start} (hfirst : before.find? Start.creates = some first)
    (hreads : last.Reads) :
    let text := getDefaultConfigContent system homeDir
    let left := run (leave lib system homeDir) files before
    left = Function.update files (configFilePath system homeDir) (some (text.take first.stores)) ∧
      parseConfigFile lib system homeDir last left =
        (left, parseConfigString lib last.config (text.take first.stores)) ∧
      (text.length ≤ first.stores → Readable (cstr homeDir) →
        ∃ c, parseConfigFile lib system homeDir last left = (left, some c) ∧
          c.targetDir = defaultDownloadDir system homeDir) := by
  intro text left
  have hleft : left =
      Function.update files (configFilePath system homeDir) (some (text.take first.stores)) := by
    rw [show left = _ from run_leave hnone before, hfirst, Option.elim_some]
  have hread : parseConfigFile lib system homeDir last left =
      (left, parseConfigString lib last.config (text.take first.stores)) :=
    parseConfigFile_of_some hreads (by rw [hleft, Function.update_self])
      (nul_not_mem_take_default system homeDir first.stores)
  refine ⟨hleft, hread, fun hwhole hhome => ?_⟩
  obtain ⟨c, hparse, hdir⟩ :=
    read_back lib ((default_readable_iff system homeDir).mpr hhome) last.config
  refine ⟨c, ?_, hdir⟩
  rw [hread, List.take_of_length_le hwhole, hparse]

end starts

def startOf (b : BufferSize) (creates : Bool) : Start where
  config := mainConfig (bytes "/home/user")
  creates := creates
  stores := 2000
  opens := true
  api := .unistd fun _ => some 1
  bufferSize := b

theorem startOf_reads (b : BufferSize) (creates : Bool) : (startOf b creates).Reads where
  opens := rfl
  reads := fun _ => by simp
  whole := fun _ => rfl

theorem config_of_third_start :
    ∃ c, (parseConfigFile ⟨IntStore.wrap, fun _ => true⟩ .unix (bytes "/home/user")
      (startOf ⟨8192, by decide, by decide⟩ true)
      (run (leave ⟨IntStore.wrap, fun _ => true⟩ .unix (bytes "/home/user")) (fun _ => none)
        [startOf ⟨8192, by decide, by decide⟩ false,
          startOf ⟨8192, by decide, by decide⟩ true])).2 = some c ∧
      c.targetDir = bytes "/home/user/Downloads" := by
  have hhome : Readable (cstr (bytes "/home/user")) := by
    refine ⟨by decide, by decide, ?_⟩
    rintro c ⟨⟩
    decide
  obtain ⟨-, -, hwhole⟩ := @config_of_starts .unix (bytes "/home/user") (fun _ => none)
    ⟨IntStore.wrap, fun _ => true⟩ rfl
    [startOf ⟨8192, by decide, by decide⟩ false, startOf ⟨8192, by decide, by decide⟩ true] _ _ rfl
    (startOf_reads ⟨8192, by decide, by decide⟩ true)
  obtain ⟨c, hread, hdir⟩ := hwhole (by decide +kernel) hhome
  refine ⟨c, congrArg Prod.snd hread, hdir.trans ?_⟩
  decide +kernel

end Xdccget.StartUp
