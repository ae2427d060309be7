import Xdccget.CommandLines
import Xdccget.ConfigText

set_option autoImplicit false

/-!
# The arguments of the program

`parseArguments` of the Windows build, which calls `getopt_long_only` until the options have
ended and then wants three more words.
-/
namespace Xdccget.Arguments
open CText Scanf SpeedLimits Getopt CommandLines
open ConfigText hiding Config Library equals

structure XdccSendDelay where
  sendDelayInSecs : ℕ
  timeToSendCommand : ℕ

structure Config extends ConfigText.Config where
  nick : Option Bytes
  loginCommand : Option Bytes
  port : ℕ
  sendDelay : Option XdccSendDelay
  useIpv4 : Bool
  useIpv6 : Bool
  args : List Bytes

/-- `ULONG_MAX` is that of the build. The clock stands still while the arguments are read. -/
structure Library extends ConfigText.Library where
  ulongMax : ℕ
  time : ℕ

/-- What `strtoul` makes of digits of the base and a sign. -/
def Library.ulong (lib : Library) (negative : Bool) (v : ℕ) : ℕ :=
  if lib.ulongMax < v then lib.ulongMax
  else if negative then (lib.ulongMax + 1 - v) % (lib.ulongMax + 1) else v

/-- `strtoul` of base 0. -/
def Library.strtoul (lib : Library) (s : Bytes) : ℕ :=
  let t := optionalSign (skipSpace (cstr s))
  let r := radix t.2
  lib.ulong t.1 ((r.2.takeWhile (isDigitOf r.1)).foldl
    (fun v c => r.1 * v + (digitValue c).getD 0) 0)

/-- `sscanf` with `%lu` leaves the variable alone where there is no digit. -/
def Library.sscanfUlong (lib : Library) (s : Bytes) (val : ℕ) : ℕ :=
  let t := optionalSign (skipSpace (cstr s))
  let digits := t.2.takeWhile isdigit
  if digits = [] then val else lib.ulong t.1 (digitsValue digits)

/-- The configuration and `show_version_info_called`. -/
structure Parsing where
  cfg : Config
  showVersionInfoCalled : Bool

abbrev Setter := Library → Option Bytes → Parsing → Except Ends Parsing

def setting (f : Config → Config) : Setter := fun _ _ p => return { p with cfg := f p.cfg }

def settingArg (f : Library → Config → Bytes → Except Ends Config) : Setter := fun lib arg p => do
  match arg with
  | none => throw .nullArgument
  | some arg => return { p with cfg := ← f lib p.cfg arg }

def setQuietLoglevel : Setter := setting fun cfg => { cfg with logLevel := .quiet }
def setWarnLoglevel : Setter := setting fun cfg => { cfg with logLevel := .warn }
def setInfoLoglevel : Setter := setting fun cfg => { cfg with logLevel := .info }
def setVerifyChecksum : Setter := setting fun cfg => { cfg with verifyChecksum := true }
def setAcceptAllNicks : Setter := setting fun cfg => { cfg with acceptAllNicks := true }
def setDontConfirmOffsets : Setter := setting fun cfg => { cfg with dontConfirmOffsets := true }
def setAcceptAllCerts : Setter := setting fun cfg => { cfg with allowAllCerts := true }
def setUseIpv4 : Setter := setting fun cfg => { cfg with useIpv4 := true }
def setUseIpv6 : Setter := setting fun cfg => { cfg with useIpv6 := true }

def setTargetDir : Setter := settingArg fun _ cfg arg => return { cfg with targetDir := cstr arg }
def setNickname : Setter := settingArg fun _ cfg arg => return { cfg with nick := some (cstr arg) }

def setLoginCommand : Setter := settingArg fun _ cfg arg =>
  return { cfg with loginCommand := some (cstr arg) }

def setPort : Setter := settingArg fun lib cfg arg =>
  return { cfg with port := lib.strtoul arg % 2 ^ 16 }

def setThrottleDownload : Setter := settingArg fun lib cfg arg =>
  return { cfg with
    maxTransferSpeed := setMaxTransferSpeed lib.int (sdstrim blanks (cstr arg)) }

def setDelay (lib : Library) (cfg : Config) (value : Bytes) : Config :=
  let val := lib.sscanfUlong value 0
  { cfg with sendDelay := some ⟨val, lib.time + val⟩ }

def setDelayCommand : Setter := settingArg fun lib cfg arg =>
  return setDelay lib cfg (sdstrim blanks (cstr arg))

def setListenIp : Setter := settingArg fun lib cfg arg =>
  if lib.inetPton (cstr arg) then
    return { cfg with listenIp := some (sdstrim blanks (cstr arg)) }
  else throw (.exitPgm (-1))

def setListenPort : Setter := settingArg fun lib cfg arg =>
  return { cfg with listenPort := lib.strtoul arg % 2 ^ 16 }

def showVersionInfo : Setter := fun _ _ p => return { p with showVersionInfoCalled := true }

def charCode (c : Char) : ℕ := c.toNat

def longOptions : List LongOption := [
  ⟨bytes "verbose", .noArgument, charCode 'v'⟩,
  ⟨bytes "warn", .noArgument, charCode 'w'⟩,
  ⟨bytes "quiet", .noArgument, charCode 'q'⟩,
  ⟨bytes "information", .noArgument, charCode 'i'⟩,
  ⟨bytes "checksum-verify", .noArgument, 0⟩,
  ⟨bytes "ipv4", .noArgument, charCode '4'⟩,
  ⟨bytes "ipv6", .noArgument, charCode '6'⟩,
  ⟨bytes "port", .requiredArgument, charCode 'p'⟩,
  ⟨bytes "directory", .requiredArgument, charCode 'd'⟩,
  ⟨bytes "nick", .requiredArgument, charCode 'n'⟩,
  ⟨bytes "login", .requiredArgument, charCode 'l'⟩,
  ⟨bytes "accept-all-nicks", .noArgument, 0⟩,
  ⟨bytes "accept-all-certs", .noArgument, 0⟩,
  ⟨bytes "dont-confirm-offsets", .noArgument, 0⟩,
  ⟨bytes "throttle", .requiredArgument, 0⟩,
  ⟨bytes "delay", .requiredArgument, 0⟩,
  ⟨bytes "listen-ip", .requiredArgument, 0⟩,
  ⟨bytes "listen-port", .requiredArgument, 0⟩,
  ⟨bytes "version", .noArgument, 0⟩]

def evalLongOption (optionName : Bytes) : Setter :=
  if optionName = bytes "checksum-verify" then setVerifyChecksum
  else if optionName = bytes "accept-all-nicks" then setAcceptAllNicks
  else if optionName = bytes "accept-all-certs" then setAcceptAllCerts
  else if optionName = bytes "dont-confirm-offsets" then setDontConfirmOffsets
  else if optionName = bytes "throttle" then setThrottleDownload
  else if optionName = bytes "delay" then setDelayCommand
  else if optionName = bytes "listen-ip" then setListenIp
  else if optionName = bytes "listen-port" then setListenPort
  else if optionName = bytes "version" then showVersionInfo
  else fun _ _ p => return p

/-- The `switch` over the character code. Where `option_index` is outside there is no name. -/
def evalOption (c option_index : ℕ) : Setter :=
  if c = 0 then evalLongOption (((longOptions[option_index]?).map (·.name)).getD [])
  else if c = charCode 'q' then setQuietLoglevel
  else if c = charCode 'v' then setInfoLoglevel
  else if c = charCode 'w' then setWarnLoglevel
  else if c = charCode 'i' then setInfoLoglevel
  else if c = charCode 'c' then setVerifyChecksum
  else if c = charCode 'd' then setTargetDir
  else if c = charCode 'n' then setNickname
  else if c = charCode 'l' then setLoginCommand
  else if c = charCode 'p' then setPort
  else if c = charCode '4' then setUseIpv4
  else if c = charCode '6' then setUseIpv6
  else fun _ _ p => return p

def handle (lib : Library) (p : Parsing) (r : Returned) : Except Ends Parsing :=
  evalOption r.code r.idx lib r.optarg p

/-- The variables of `getopt.c` as they start. -/
def initially (argv : List Bytes) : State where
  nargv := argv
  optind := 1
  nonoptStart := none
  nonoptEnd := none
  optarg := none
  idx := 0
  stderr := []

def takeArgs (s : State) (p : Parsing) : Except Ends Config :=
  if p.showVersionInfoCalled then throw (.exitPgm 0)
  else if s.nargv.length - s.optind ≠ 3 then throw (.exitPgm 0)
  else return { p.cfg with args := s.nargv.drop s.optind }

def parseArguments (lib : Library) (posixlyCorrect : Bool) (argv : List Bytes) (cfg : Config) :
    Except Ends Config := do
  let r ← optionLoop longOptions posixlyCorrect (handle lib) (argv.length + 1) (initially argv)
    ⟨cfg, false⟩
  takeArgs r.1 r.2

inductive Setting
  | logLevel (level : LogLevel)
  | targetDir (dir : Bytes)
  | nick (name : Bytes)
  | loginCommand (command : Bytes)
  | port (n : ℕ)
  | maxTransferSpeed (speed : ℕ)
  | sendDelay (delay : XdccSendDelay)
  | listenIp (ip : Bytes)
  | listenPort (n : ℕ)
  | verifyChecksum
  | acceptAllNicks
  | dontConfirmOffsets
  | allowAllCerts
  | useIpv4
  | useIpv6
  | version
  | refused

def settingsOf (lib : Library) (arg : Bytes) : List (Bytes × Setting) := [
  (bytes "verbose", .logLevel .info),
  (bytes "warn", .logLevel .warn),
  (bytes "quiet", .logLevel .quiet),
  (bytes "information", .logLevel .info),
  (bytes "checksum-verify", .verifyChecksum),
  (bytes "ipv4", .useIpv4),
  (bytes "ipv6", .useIpv6),
  (bytes "port", .port (lib.strtoul arg % 2 ^ 16)),
  (bytes "directory", .targetDir (cstr arg)),
  (bytes "nick", .nick (cstr arg)),
  (bytes "login", .loginCommand (cstr arg)),
  (bytes "accept-all-nicks", .acceptAllNicks),
  (bytes "accept-all-certs", .allowAllCerts),
  (bytes "dont-confirm-offsets", .dontConfirmOffsets),
  (bytes "throttle", .maxTransferSpeed (setMaxTransferSpeed lib.int (sdstrim blanks (cstr arg)))),
  (bytes "delay", .sendDelay ⟨lib.sscanfUlong (sdstrim blanks (cstr arg)) 0,
    lib.time + lib.sscanfUlong (sdstrim blanks (cstr arg)) 0⟩),
  (bytes "listen-ip", if lib.inetPton (cstr arg) then .listenIp (sdstrim blanks (cstr arg))
    else .refused),
  (bytes "listen-port", .listenPort (lib.strtoul arg % 2 ^ 16)),
  (bytes "version", .version)]

def settingOf (lib : Library) (r : Reading) : Option Setting := do
  let o ← longOptions[← r.idx]?
  (settingsOf lib (r.optarg.getD [])).lookup o.name

def lastOf {α : Type} (kind : Setting → Option α) (ss : List Setting) (otherwise : α) : α :=
  (ss.filterMap kind).getLast?.getD otherwise

def configured (ss : List Setting) (cfg : Config) : Config := { cfg with
  logLevel := lastOf (fun | .logLevel level => some level | _ => none) ss cfg.logLevel
  targetDir := lastOf (fun | .targetDir dir => some dir | _ => none) ss cfg.targetDir
  nick := lastOf (fun | .nick name => some (some name) | _ => none) ss cfg.nick
  loginCommand :=
    lastOf (fun | .loginCommand command => some (some command) | _ => none) ss cfg.loginCommand
  port := lastOf (fun | .port n => some n | _ => none) ss cfg.port
  maxTransferSpeed :=
    lastOf (fun | .maxTransferSpeed speed => some speed | _ => none) ss cfg.maxTransferSpeed
  sendDelay := lastOf (fun | .sendDelay delay => some (some delay) | _ => none) ss cfg.sendDelay
  listenIp := lastOf (fun | .listenIp ip => some (some ip) | _ => none) ss cfg.listenIp
  listenPort := lastOf (fun | .listenPort n => some n | _ => none) ss cfg.listenPort
  verifyChecksum := ss.any (· matches .verifyChecksum) || cfg.verifyChecksum
  acceptAllNicks := ss.any (· matches .acceptAllNicks) || cfg.acceptAllNicks
  dontConfirmOffsets := ss.any (· matches .dontConfirmOffsets) || cfg.dontConfirmOffsets
  allowAllCerts := ss.any (· matches .allowAllCerts) || cfg.allowAllCerts
  useIpv4 := ss.any (· matches .useIpv4) || cfg.useIpv4
  useIpv6 := ss.any (· matches .useIpv6) || cfg.useIpv6 }

/-- What the program makes of its arguments: an address that is refused ends it, then the version
    does, then a number of other words that is not three. -/
def understood (lib : Library) (posixly : Bool) (args : List Bytes) (cfg : Config) :
    Except Ends Config :=
  let p := parse longOptions posixly args
  let ss := p.readings.filterMap (settingOf lib)
  if ss.any (· matches .refused) then throw (.exitPgm (-1))
  else if ss.any (· matches .version) then throw (.exitPgm 0)
  else if p.operands.length ≠ 3 then throw (.exitPgm 0)
  else return { configured ss cfg with args := p.operands }

def Setting.apply : Setting → Parsing → Except Ends Parsing
  | .refused, _ => throw (.exitPgm (-1))
  | .version, p => return { p with showVersionInfoCalled := true }
  | s, p => return { p with cfg := configured [s] p.cfg }

/-- A reading that is not valid has the code of one, a valid one that of its option. -/
inductive Reading.Valid (r : Reading) : Prop
  | bad (hidx : r.idx = none) (hcode : r.code = badch)
  | found (i : ℕ) (o : LongOption) (hidx : r.idx = some i) (hget : longOptions[i]? = some o)
      (hcode : r.code = o.val) (harg : o.hasArg = .requiredArgument → r.optarg.isSome = true)

theorem evalOption_found (lib : Library) (p : Parsing) {i : ℕ} {o : LongOption}
    (hget : longOptions[i]? = some o) {optarg : Option Bytes}
    (harg : o.hasArg = .requiredArgument → optarg.isSome = true) :
    ∃ s, (settingsOf lib (optarg.getD [])).lookup o.name = some s ∧
      evalOption o.val i lib optarg p = s.apply p := by
  have hi : i < 19 := (List.getElem?_eq_some_iff.mp hget).1
  cases optarg with
  | none =>
    interval_cases i <;> obtain rfl := Option.some.inj hget
    all_goals first | exact ⟨_, rfl, rfl⟩ | cases harg rfl
  | some arg =>
    interval_cases i <;> obtain rfl := Option.some.inj hget
    case «16» =>
      refine ⟨_, rfl, ?_⟩
      change setListenIp lib (some arg) p =
        (if lib.inetPton (cstr arg) then _ else Setting.refused).apply p
      cases hip : lib.inetPton (cstr arg) <;> simp [setListenIp, settingArg, hip] <;> rfl
    all_goals exact ⟨_, rfl, rfl⟩

theorem interpret_valid (place : Bytes) (next : Option Bytes) :
    Reading.Valid (interpret longOptions place next) := by
  have hmatch := matchLoop_resolve longOptions (place.takeWhile (· ≠ equals))
  unfold interpret
  dsimp only
  cases hres : resolve longOptions (place.takeWhile (· ≠ equals)) with
  | ambiguous => exact .bad rfl rfl
  | unknown => exact .bad rfl rfl
  | found i o =>
    rw [hres] at hmatch
    dsimp only
    generalize (if equals ∈ place then some (place.drop _) else none) = value
    cases hhas : o.hasArg <;> cases value <;> cases next
    all_goals first
      | exact .bad rfl rfl
      | exact .found i o rfl hmatch.2 rfl (by simp [hhas])

theorem parse_valid (posixly : Bool) (args : List Bytes) :
    ∀ r ∈ (parse longOptions posixly args).readings, Reading.Valid r := by
  fun_induction parse longOptions posixly args with
  | case1 => simp
  | case2 => simp
  | case3 arg rest harg hposixly p ih => exact ih
  | case4 => simp
  | case5 arg rest harg hstop r n p ih =>
    intro r' hr'
    rcases List.mem_cons.mp hr' with rfl | hmem
    · exact interpret_valid _ _
    · exact ih r' hmem

theorem handle_reading (lib : Library) {r : Reading} (h : Reading.Valid r) (idx : ℕ) (p : Parsing) :
    handle lib p ⟨r.code, r.idx.getD idx, r.optarg⟩ =
      match settingOf lib r with
      | some s => s.apply p
      | none => .ok p := by
  cases h with
  | bad hidx hcode =>
    have hnone : settingOf lib r = none := by simp [settingOf, hidx]
    rw [hnone, hcode]
    rfl
  | found i o hidx hget hcode harg =>
    obtain ⟨s, hlookup, heval⟩ := evalOption_found lib p hget harg
    have hsome : settingOf lib r = some s := by
      simp only [settingOf, hidx, hget, Option.bind_eq_bind, Option.bind_some, hlookup]
    rw [hsome, hcode, hidx]
    exact heval

theorem handle_readings (lib : Library) {rs : List Reading} (h : ∀ r ∈ rs, Reading.Valid r)
    (idx : ℕ) (p : Parsing) : (returned idx rs).foldlM (handle lib) p =
      (rs.filterMap (settingOf lib)).foldlM (fun p s => s.apply p) p := by
  induction rs generalizing idx p with
  | nil => rfl
  | cons r rs ih =>
    have hrest := fun p => ih (fun r hr => h r (List.mem_cons_of_mem _ hr)) (r.idx.getD idx) p
    have hfirst := handle_reading lib (h r List.mem_cons_self) idx p
    rw [returned, List.foldlM_cons, hfirst, List.filterMap_cons]
    cases settingOf lib r with
    | none => exact hrest p
    | some s =>
      dsimp only
      rw [List.foldlM_cons]
      exact congrArg _ (funext hrest)

theorem lastOf_cons {α : Type} (kind : Setting → Option α) (s : Setting) (ss : List Setting)
    (d : α) : lastOf kind (s :: ss) d = lastOf kind ss (lastOf kind [s] d) := by
  unfold lastOf
  cases hs : kind s with
  | none => simp [hs]
  | some a => simp [hs, List.getLast?_cons]

theorem configured_cons (s : Setting) (ss : List Setting) (cfg : Config) :
    configured (s :: ss) cfg = configured ss (configured [s] cfg) := by
  have hflag : ∀ (kind : Setting → Bool) (b : Bool),
      ((s :: ss).any kind || b) = (ss.any kind || ([s].any kind || b)) := by
    intro kind b
    simp only [List.any_cons, List.any_nil, Bool.or_false]
    cases kind s <;> simp
  have hlast : ∀ {α : Type} (kind : Setting → Option α) (d : α),
      lastOf kind (s :: ss) d = lastOf kind ss (lastOf kind [s] d) :=
    fun kind d => lastOf_cons kind s ss d
  simp only [configured, hflag, hlast]

def Setting.ordinary : Setting → Bool
  | .refused => false
  | .version => false
  | _ => true

theorem Setting.apply_ordinary {s : Setting} (h : s.ordinary = true) (p : Parsing) :
    s.apply p = .ok { p with cfg := configured [s] p.cfg } := by
  cases s <;> first | rfl | cases h

theorem foldlM_apply (ss : List Setting) (p : Parsing) :
    ss.foldlM (fun p s => s.apply p) p =
      if ss.any (· matches .refused) then .error (.exitPgm (-1))
      else .ok ⟨configured ss p.cfg,
        ss.any (· matches .version) || p.showVersionInfoCalled⟩ := by
  induction ss generalizing p with
  | nil => rfl
  | cons s ss ih =>
    rw [List.foldlM_cons, configured_cons, List.any_cons, List.any_cons]
    cases s with
    | refused => rfl
    | version =>
      have happly : Setting.version.apply p = .ok { p with showVersionInfoCalled := true } := rfl
      rw [happly]
      change ss.foldlM _ _ = _
      rw [ih]
      simp
      rfl
    | _ =>
      rw [Setting.apply_ordinary rfl]
      change ss.foldlM _ _ = _
      rw [ih]
      simp

theorem initially_scanned (prog : Bytes) (args : List Bytes) :
    Scanned (initially (prog :: args)) [prog] [] [] args :=
  ⟨rfl, rfl, rfl, rfl, fun _ => rfl⟩

theorem parseArguments_eq (lib : Library) (posixly : Bool) (prog : Bytes) (args : List Bytes)
    (cfg : Config) :
    parseArguments lib posixly (prog :: args) cfg = understood lib posixly args cfg := by
  have hfuel : args.length < (prog :: args).length + 1 := by
    rw [List.length_cons]
    omega
  obtain ⟨s', hended, -, hloop⟩ := optionLoop_eq longOptions posixly (handle lib)
    (initially_scanned prog args) (fun _ => rfl) hfuel ⟨cfg, false⟩
  have hdrop : s'.nargv.drop s'.optind = (parse longOptions posixly args).operands := by
    rw [hended.nargv, hended.optind, List.drop_left, List.nil_append]
  have hcount : s'.nargv.length - s'.optind = (parse longOptions posixly args).operands.length := by
    rw [← List.length_drop, hdrop]
  rw [parseArguments, hloop, handle_readings lib (parse_valid posixly args), foldlM_apply,
    understood]
  generalize (parse longOptions posixly args).readings.filterMap (settingOf lib) = ss
  dsimp only
  by_cases hrefused : (ss.any (· matches .refused)) = true
  · rw [if_pos hrefused, if_pos hrefused]
    rfl
  · rw [if_neg hrefused, if_neg hrefused]
    change takeArgs s' ⟨configured ss cfg, ss.any (· matches .version) || false⟩ = _
    rw [takeArgs, Bool.or_false, hcount, hdrop]

def Opens (word : Bytes) : Prop := nonOption word = false ∧ word ≠ [dash, dash]

/-- The pieces of a command line: other words, options of one word, and options whose argument is
    the next one. -/
inductive Piece
  | operand (word : Bytes) (h : nonOption word = true)
  | option (word : Bytes) (h : Opens word)
      (halone : ∀ next, (interpret longOptions (placeOf word) next).takesNext = false)
  | pair (word arg : Bytes) (h : Opens word)
      (htakes : (interpret longOptions (placeOf word) (some arg)).takesNext = true)

def Piece.words : Piece → List Bytes
  | .operand word _ => [word]
  | .option word _ _ => [word]
  | .pair word arg _ _ => [word, arg]

def Piece.operand? : Piece → Option Bytes
  | .operand word _ => some word
  | _ => none

def Piece.reading : Piece → Option Reading
  | .operand _ _ => none
  | .option word _ _ => some (interpret longOptions (placeOf word) none)
  | .pair word arg _ _ => some (interpret longOptions (placeOf word) (some arg))

def Piece.setting (lib : Library) (piece : Piece) : Option Setting :=
  piece.reading.bind (settingOf lib)

theorem interpret_alone {place : Bytes}
    (h : ∀ next, (interpret longOptions place next).takesNext = false) (next : Option Bytes) :
    interpret longOptions place next = interpret longOptions place none := by
  cases next with
  | none => rfl
  | some word =>
    have htakes := h (some word)
    unfold interpret at htakes ⊢
    dsimp only at htakes ⊢
    cases hres : resolve longOptions (place.takeWhile (· ≠ Getopt.equals)) with
    | ambiguous => rfl
    | unknown => rfl
    | found i o =>
      rw [hres] at htakes
      dsimp only at htakes ⊢
      generalize (if Getopt.equals ∈ place then some (place.drop _) else none) = value at htakes ⊢
      cases hhas : o.hasArg with
      | noArgument => rfl
      | optionalArgument => rfl
      | requiredArgument =>
        rw [hhas] at htakes
        cases value with
        | none => cases htakes
        | some value => rfl

theorem parse_pieces (pieces : List Piece) (rest : List Bytes) :
    (parse longOptions false (pieces.flatMap Piece.words ++ rest)).readings =
        pieces.filterMap Piece.reading ++ (parse longOptions false rest).readings ∧
      (parse longOptions false (pieces.flatMap Piece.words ++ rest)).operands =
        pieces.filterMap Piece.operand? ++ (parse longOptions false rest).operands := by
  induction pieces with
  | nil => exact ⟨rfl, rfl⟩
  | cons piece pieces ih =>
    obtain ⟨hreadings, hoperands⟩ := ih
    rw [List.flatMap_cons, List.append_assoc, List.filterMap_cons, List.filterMap_cons]
    generalize pieces.flatMap Piece.words ++ rest = words at hreadings hoperands ⊢
    cases piece with
    | operand word h =>
      have hparse := parse_operand longOptions h words
      refine ⟨?_, ?_⟩
      · exact (congrArg Parsed.readings hparse).trans hreadings
      · exact (congrArg Parsed.operands hparse).trans (congrArg (word :: ·) hoperands)
    | option word h halone =>
      have hword : ¬ nonOption word = true := by simp [h.1]
      have hparse := parse_option longOptions false hword h.2 words rfl rfl
      rw [interpret_alone halone, halone none] at hparse
      refine ⟨?_, ?_⟩
      · exact (congrArg Parsed.readings hparse).trans (congrArg (_ :: ·) hreadings)
      · exact (congrArg Parsed.operands hparse).trans hoperands
    | pair word arg h htakes =>
      have hword : ¬ nonOption word = true := by simp [h.1]
      have hparse := parse_option longOptions false hword h.2 (arg :: words) rfl rfl
      rw [List.head?_cons, htakes] at hparse
      refine ⟨?_, ?_⟩
      · exact (congrArg Parsed.readings hparse).trans (congrArg (_ :: ·) hreadings)
      · exact (congrArg Parsed.operands hparse).trans hoperands

/-- Only the order of the settings counts, and that of the other words: how the two are mixed, and
    how an option is spelled, does not. -/
theorem parseArguments_mixed (lib : Library) (prog : Bytes) (pieces pieces' : List Piece)
    (hsettings : pieces.filterMap (Piece.setting lib) = pieces'.filterMap (Piece.setting lib))
    (hoperands : pieces.filterMap Piece.operand? = pieces'.filterMap Piece.operand?)
    (rest : List Bytes) (cfg : Config) :
    parseArguments lib false (prog :: (pieces.flatMap Piece.words ++ rest)) cfg =
      parseArguments lib false (prog :: (pieces'.flatMap Piece.words ++ rest)) cfg := by
  have hfold : ∀ pieces : List Piece, (pieces.filterMap Piece.reading).filterMap (settingOf lib) =
      pieces.filterMap (Piece.setting lib) := fun pieces => List.filterMap_filterMap
  simp only [parseArguments_eq, understood, parse_pieces, List.filterMap_append, hfold, hsettings,
    hoperands]

def windowsLibrary : Library where
  int := IntStore.wrap
  inetPton _ := true
  ulongMax := 2 ^ 32 - 1
  time := 0

def firstConfig : Config where
  toConfig := ConfigText.mainConfig (bytes "Downloads")
  nick := none
  loginCommand := none
  port := 6667
  sendDelay := none
  useIpv4 := false
  useIpv6 := false
  args := []

theorem quiet_alone (word : Bytes) (h : word = bytes "--quiet" ∨ word = bytes "-q")
    (next : Option Bytes) : (interpret longOptions (placeOf word) next).takesNext = false := by
  rcases h with rfl | rfl <;> cases next <;> rfl

theorem options_between_words :
    parseArguments windowsLibrary false (bytes "xdccget" :: ([bytes "irc.sample.net",
        bytes "--port", bytes "7000", bytes "#sample", bytes "--quiet"] ++
        [bytes "bot xdcc send #42"])) firstConfig =
      parseArguments windowsLibrary false (bytes "xdccget" :: ([bytes "-port=7000",
        bytes "-q", bytes "irc.sample.net", bytes "#sample"] ++
        [bytes "bot xdcc send #42"])) firstConfig :=
  parseArguments_mixed windowsLibrary (bytes "xdccget")
    [.operand (bytes "irc.sample.net") (by decide),
      .pair (bytes "--port") (bytes "7000") (by unfold Opens; decide) rfl,
      .operand (bytes "#sample") (by decide),
      .option (bytes "--quiet") (by unfold Opens; decide) (quiet_alone _ (.inl rfl))]
    [.option (bytes "-port=7000") (by unfold Opens; decide) (by intro next; cases next <;> rfl),
      .option (bytes "-q") (by unfold Opens; decide) (quiet_alone _ (.inr rfl)),
      .operand (bytes "irc.sample.net") (by decide),
      .operand (bytes "#sample") (by decide)]
    rfl rfl [bytes "bot xdcc send #42"] firstConfig

end Xdccget.Arguments
