import Xdccget.DownloadArguments
import Xdccget.SpeedLimits

set_option autoImplicit false

/-!
# The configuration file

`parseConfigString` cuts the text at its newlines and every line at each `=`, and acts on a
line of two pieces. `getDefaultConfigContent` writes the file that is not there yet.
-/
namespace Xdccget.ConfigText
open CText ClientState Downloads Scanf SpeedLimits
open DownloadArguments (sdssplitlen)

def equals : UInt8 := 0x3D
def hash : UInt8 := 0x23

def strEquals (str1 str2 : Bytes) : Bool := cstr str1 = cstr str2

def lineBlanks : Bytes := bytes " \r\t"

inductive LogLevel
  | err | quiet | warn | info
  deriving DecidableEq, Repr

structure Config extends XdccGetConfig where
  logLevel : LogLevel
  allowAllCerts : Bool
  maxTransferSpeed : ℕ
  listenIp : Option Bytes

/-- What the callbacks leave to the C library. `inetPton` is that of `AF_INET`. -/
structure Library where
  int : IntStore
  inetPton : Bytes → Bool

def digitValue (c : UInt8) : Option ℕ :=
  if isdigit c then some (c.toNat - 0x30)
  else if 0x61 ≤ tolower c && tolower c ≤ 0x7A then some ((tolower c).toNat - 0x61 + 10)
  else none

def isDigitOf (base : ℕ) (c : UInt8) : Bool := (digitValue c).any (· < base)

def radix (s : Bytes) : ℕ × Bytes :=
  if s.head? = some zero then
    if s[1]?.map tolower = some 0x78 ∧ s[2]?.any (isDigitOf 16) = true then (16, s.drop 2) else (8, s)
  else (10, s)

def strtoul (s : Bytes) : ℕ :=
  let t := optionalSign (skipSpace (cstr s))
  let r := radix t.2
  let v := (r.2.takeWhile (isDigitOf r.1)).foldl (fun v c => r.1 * v + (digitValue c).getD 0) 0
  if ulongMax < v then ulongMax else if t.1 then (ulongMax + 1 - v) % (ulongMax + 1) else v

/-- No configuration is left where the callback ends the program. -/
abbrev ConfigLineParserFunction := Library → Config → Bytes → Option Config

def verifyChecksumsCallback : ConfigLineParserFunction := fun _ config value =>
  some { config with verifyChecksum := strEquals value (bytes "true") }

def allowAllCertsCallback : ConfigLineParserFunction := fun _ config value =>
  some { config with allowAllCerts := strEquals value (bytes "true") }

def downloadDirCallback : ConfigLineParserFunction := fun _ config value =>
  some { config with targetDir := value }

def confirmFileOffsetsCallback : ConfigLineParserFunction := fun _ config value =>
  some { config with dontConfirmOffsets := !strEquals value (bytes "true") }

def maxTransferSpeedCallback : ConfigLineParserFunction := fun lib config value =>
  some { config with maxTransferSpeed := setMaxTransferSpeed lib.int value }

def listenIpCallback : ConfigLineParserFunction := fun lib config value =>
  if lib.inetPton (cstr value) then some { config with listenIp := some value } else none

def listenPortCallback : ConfigLineParserFunction := fun _ config value =>
  some { config with listenPort := strtoul value % 2 ^ 16 }

def parseLogLevel : ConfigLineParserFunction := fun _ config logLevel =>
  some (if strEquals logLevel (bytes "information") then { config with logLevel := .info }
    else if strEquals logLevel (bytes "warn") then { config with logLevel := .warn }
    else if strEquals logLevel (bytes "error") then { config with logLevel := .err }
    else if strEquals logLevel (bytes "quiet") then { config with logLevel := .quiet }
    else config)

def configLineCallbacks : List (Bytes × ConfigLineParserFunction) := [
  (bytes "downloadDir", downloadDirCallback),
  (bytes "logLevel", parseLogLevel),
  (bytes "allowAllCerts", allowAllCertsCallback),
  (bytes "verifyChecksums", verifyChecksumsCallback),
  (bytes "confirmFileOffsets", confirmFileOffsetsCallback),
  (bytes "maxTransferSpeed", maxTransferSpeedCallback),
  (bytes "listenIp", listenIpCallback),
  (bytes "listenPort", listenPortCallback)]

def callParsers (lib : Library) (config : Config) (type value : Bytes) : Option Config :=
  configLineCallbacks.foldlM (fun config lineParser =>
    if strEquals type lineParser.1 then lineParser.2 lib config value else some config) config

def parseConfigLine (lib : Library) (config : Config) (line : Bytes) : Option Config :=
  match sdssplitlen line equals with
  | [type, value] => callParsers lib config (sdstrim blanks type) (sdstrim blanks value)
  | _ => some config

def ignoreLine (line : Bytes) : Bool := strEquals line [] || line.head? = some hash

def parseSplitted (lib : Library) (config : Config) (splitted : Bytes) : Option Config :=
  let line := sdstrim lineBlanks splitted
  if ignoreLine line then some config else parseConfigLine lib config line

def parseConfigString (lib : Library) (config : Config) (content : Bytes) : Option Config :=
  (sdssplitlen content lf).foldlM (parseSplitted lib) config

inductive System
  | unix | windows
  deriving DecidableEq, Repr

def getPathSeperator : System → Bytes
  | .unix => [slash]
  | .windows => [backslash]

/-- The `downloadDir` of the writer. -/
def defaultDownloadDir (system : System) (homeDir : Bytes) : Bytes :=
  cstr homeDir ++ (getPathSeperator system ++ bytes "Downloads")

def defaultLines (downloadDir : Bytes) : List Bytes := [
  bytes "# default directory where to store the downloads",
  bytes "downloadDir=" ++ downloadDir,
  bytes "# default logging level, valid options: information, warn, error, quiet",
  bytes "logLevel=information",
  bytes "# allow all certificates and dont validate them",
  bytes "#allowAllCerts=true",
  bytes "# stay connected after downloads finished to automatically verify checksums",
  bytes "verifyChecksums=false",
  bytes "# Do not send file offsets to the bots if set to false. Can be used on bots where the transfer gets stucked after a short while.",
  bytes "confirmFileOffsets=false",
  bytes "# Limit the maximum transfer speed for the downloads in each xdccget instance to the specified value per seconds. valid suffixes are KByte, MByte and TByte",
  bytes "#maxTransferSpeed=1MByte",
  bytes "# Sets the listen ip for passive dcc transfers. Should normally your external ip address.",
  bytes "#listenIp=85.48.89.195",
  bytes "# Sets the listen port for passive dcc transfers. This port needs to be forwared in your router, such that external TCP acknowledgements are not blocked.",
  bytes "#listenPort=55554"]

def getDefaultConfigContent (system : System) (homeDir : Bytes) : Bytes :=
  (defaultLines (defaultDownloadDir system homeDir)).flatMap (· ++ [lf])

/-- The configuration that `main` reads the file into. -/
def mainConfig (targetDir : Bytes) : Config where
  dccDownloadArray := none
  numDownloads := 0
  acceptAllNicks := false
  dontConfirmOffsets := false
  verifyChecksum := false
  targetDir := targetDir
  listenPort := 0
  logLevel := .warn
  allowAllCerts := false
  maxTransferSpeed := noSpeedLimit
  listenIp := none

def Clean (s : Bytes) : Prop := nul ∉ s ∧ lf ∉ s

instance (s : Bytes) : Decidable (Clean s) := inferInstanceAs (Decidable (_ ∧ _))

structure KeyText (key : Bytes) : Prop where
  clean : Clean key
  no_equals : equals ∉ key
  first : ∀ c ∈ key.head?, c ∉ lineBlanks ∧ c ≠ hash
  last : ∀ c ∈ key.getLast?, c ∉ blanks

structure ValueText (value : Bytes) : Prop where
  clean : Clean value
  first : ∀ c ∈ value.head?, c ∉ blanks
  last : ∀ c ∈ value.getLast?, c ∉ lineBlanks

instance (key : Bytes) : Decidable (KeyText key) :=
  decidable_of_iff (Clean key ∧ equals ∉ key ∧
    key.head?.all (fun c => c ∉ lineBlanks ∧ c ≠ hash) = true ∧
    key.getLast?.all (fun c => c ∉ blanks) = true) (by
      rw [Option.all_eq_true, Option.all_eq_true]
      simp only [decide_eq_true_eq]
      exact ⟨fun h => ⟨h.1, h.2.1, h.2.2.1, h.2.2.2⟩,
        fun h => ⟨h.clean, h.no_equals, h.first, h.last⟩⟩)

instance (value : Bytes) : Decidable (ValueText value) :=
  decidable_of_iff (Clean value ∧ value.head?.all (fun c => c ∉ blanks) = true ∧
    value.getLast?.all (fun c => c ∉ lineBlanks) = true) (by
      rw [Option.all_eq_true, Option.all_eq_true]
      simp only [decide_eq_true_eq]
      exact ⟨fun h => ⟨h.1, h.2.1, h.2.2⟩, fun h => ⟨h.clean, h.first, h.last⟩⟩)

/-- A line `key=value` with its blanks. The carriage return is one at the ends of the line. -/
structure Setting where
  before : Bytes
  key : Bytes
  afterKey : Bytes
  beforeValue : Bytes
  value : Bytes
  behind : Bytes
  pads : ∀ c ∈ before ++ behind, c ∈ lineBlanks
  gaps : ∀ c ∈ afterKey ++ beforeValue, c ∈ blanks
  key_text : KeyText key
  value_text : ValueText value

inductive Item
  | comment (before text : Bytes) (pads : ∀ c ∈ before, c ∈ lineBlanks)
      (first : text.head? = some hash) (clean : Clean text)
  | blank (pad : Bytes) (pads : ∀ c ∈ pad, c ∈ lineBlanks)
  | setting (s : Setting)

def Setting.line (s : Setting) : Bytes :=
  s.before ++ (s.key ++ s.afterKey) ++ equals :: (s.beforeValue ++ (s.value ++ s.behind))

def Item.line : Item → Bytes
  | .comment before text _ _ _ => before ++ text
  | .blank pad _ => pad
  | .setting s => s.line

def text (items : List Item) : Bytes := [lf].intercalate (items.map Item.line)

structure Assignment where
  key : Bytes
  value : Bytes
  no_nul : nul ∉ key

def Item.assignment : Item → Option Assignment
  | .comment _ _ _ _ _ | .blank _ _ => none
  | .setting s => some ⟨s.key, s.value, s.key_text.clean.1⟩

def assignments (items : List Item) : List Assignment := items.filterMap Item.assignment

inductive Key
  | downloadDir | logLevel | allowAllCerts | verifyChecksums | confirmFileOffsets
  | maxTransferSpeed | listenIp | listenPort
  deriving DecidableEq, Repr

def Key.name : Key → Bytes
  | .downloadDir => bytes "downloadDir"
  | .logLevel => bytes "logLevel"
  | .allowAllCerts => bytes "allowAllCerts"
  | .verifyChecksums => bytes "verifyChecksums"
  | .confirmFileOffsets => bytes "confirmFileOffsets"
  | .maxTransferSpeed => bytes "maxTransferSpeed"
  | .listenIp => bytes "listenIp"
  | .listenPort => bytes "listenPort"

def Key.all : List Key :=
  [.downloadDir, .logLevel, .allowAllCerts, .verifyChecksums, .confirmFileOffsets,
    .maxTransferSpeed, .listenIp, .listenPort]

inductive Value
  | dir (path : Bytes)
  | level (l : LogLevel)
  | flag (on : Bool)
  | speed (limit : ℕ)
  | address (ip : Option Bytes)
  | port (n : ℕ)
  deriving DecidableEq, Repr

def Config.get (c : Config) : Key → Value
  | .downloadDir => .dir c.targetDir
  | .logLevel => .level c.logLevel
  | .allowAllCerts => .flag c.allowAllCerts
  | .verifyChecksums => .flag c.verifyChecksum
  | .confirmFileOffsets => .flag (!c.dontConfirmOffsets)
  | .maxTransferSpeed => .speed c.maxTransferSpeed
  | .listenIp => .address c.listenIp
  | .listenPort => .port c.listenPort

/-- What no line is about. -/
def Config.others (c : Config) : Option (List DccDownload) × ℕ × Bool :=
  (c.dccDownloadArray, c.numDownloads, c.acceptAllNicks)

def levelNames : List (Bytes × LogLevel) :=
  [(bytes "information", .info), (bytes "warn", .warn), (bytes "error", .err),
    (bytes "quiet", .quiet)]

/-- The value that a text means for a setting. A level of another name means none. -/
def meaning (lib : Library) : Key → Bytes → Option Value
  | .downloadDir, value => some (.dir value)
  | .logLevel, value => (levelNames.lookup (cstr value)).map .level
  | .allowAllCerts, value | .verifyChecksums, value | .confirmFileOffsets, value =>
    some (.flag (cstr value = bytes "true"))
  | .maxTransferSpeed, value => some (.speed (setMaxTransferSpeed lib.int value))
  | .listenIp, value => some (.address (some value))
  | .listenPort, value => some (.port (strtoul value % 2 ^ 16))

def meant (lib : Library) (k : Key) (a : Assignment) : Option Value :=
  if a.key = k.name then meaning lib k a.value else none

def given (lib : Library) (k : Key) (as : List Assignment) (was : Value) : Value :=
  (as.filterMap (meant lib k)).getLast?.getD was

/-- A `listenIp` that is no address. The program ends with an error. -/
def Rejected (lib : Library) (a : Assignment) : Prop :=
  a.key = Key.listenIp.name ∧ lib.inetPton (cstr a.value) = false

structure ParsedRight (lib : Library) (c : Config) (as : List Assignment) (r : Option Config) :
    Prop where
  ends : r = none ↔ ∃ a ∈ as, Rejected lib a
  settings : ∀ c', r = some c' → ∀ k, c'.get k = given lib k as (c.get k)
  others : ∀ c', r = some c' → c'.others = c.others

def withoutEquals (as : List Assignment) : List Assignment := as.filter fun a => equals ∉ a.value

/-- Nothing is lost with the lines whose value has an `=`. -/
structure NothingLost (lib : Library) (c : Config) (as : List Assignment) : Prop where
  ends : (∃ a ∈ as, Rejected lib a) → ∃ a ∈ withoutEquals as, Rejected lib a
  settings : (∀ a ∈ as, ¬ Rejected lib a) →
    ∀ k, given lib k (withoutEquals as) (c.get k) = given lib k as (c.get k)

def ReadBack (lib : Library) (system : System) (homeDir : Bytes) : Prop :=
  ∀ c, ∃ c', parseConfigString lib c (getDefaultConfigContent system homeDir) = some c' ∧
    c'.targetDir = defaultDownloadDir system homeDir

end Xdccget.ConfigText
