import Xdccget.RequestTurns

set_option autoImplicit false

/-!
# Which names the client takes for its own

The handlers compare as many bytes as the nick has, so a longer name that begins with
the nick passes for it. Where no such name comes in, the nick follows exactly the
changes of its own.
-/
namespace Xdccget.OwnNick
open CText IrcParserCarry LineParser ClientState HaltingPrograms StepRuns ClientLoop LoopFrames LoopLines
open Commands (Fault LineEnv LineSession IrcCommand strnEquals strncasecmpEq strlen isCtcpRequest
  isPrivateMessage isNumericCommand getCommand moveMode replyToNotice)
open HandlerOutcomes (handlerOf)
open LineSteps (Ends)

/-- `name` begins with `nick` and goes on. -/
def Extends (name nick : Bytes) : Prop := cstr nick <+: cstr name ∧ cstr name ≠ cstr nick

def ExtendsCase (name nick : Bytes) : Prop :=
  (cstr nick).map tolower <+: (cstr name).map tolower ∧ strcasecmpEq name nick = false

instance (name nick : Bytes) : Decidable (Extends name nick) := by unfold Extends; infer_instance

instance (name nick : Bytes) : Decidable (ExtendsCase name nick) := by
  unfold ExtendsCase
  infer_instance

section names
variable {name nick : Bytes}

/-- As many bytes as a string has, up to and with the terminator of another one, are that string if
    and only if it is a prefix. -/
theorem take_terminated_iff {a b : Bytes} (hb : nul ∉ b) :
    (a ++ [nul]).take b.length = b ↔ b <+: a := by
  constructor
  · intro h
    have hbegins : b <+: a ++ [nul] := h ▸ List.take_prefix _ _
    rcases List.prefix_concat_iff.mp hbegins with hall | hbegins
    · exact absurd (hall ▸ List.mem_append_right a List.mem_cons_self) hb
    · exact hbegins
  · intro h
    exact (List.prefix_iff_eq_take.mp (h.trans (List.prefix_append a [nul]))).symm

theorem strnEquals_iff : strnEquals name nick (strlen nick) = true ↔ cstr nick <+: cstr name := by
  have hself : (cstr nick ++ [nul]).take (strlen nick) = cstr nick := List.take_left' rfl
  unfold strnEquals
  rw [decide_eq_true_iff, hself]
  exact take_terminated_iff (nul_not_mem_cstr nick)

theorem tolower_eq_nul {c : UInt8} (h : tolower c = nul) : c = nul := by
  unfold tolower at h
  split at h
  · next hupper =>
    simp only [Bool.and_eq_true, decide_eq_true_eq, UInt8.le_iff_toNat_le] at hupper
    have hval : (c + 0x20).toNat = 0 := congrArg UInt8.toNat h
    rw [UInt8.toNat_add] at hval
    have hlow : (0x41 : UInt8).toNat = 65 := rfl
    have hhigh : (0x5A : UInt8).toNat = 90 := rfl
    have hshift : (0x20 : UInt8).toNat = 32 := rfl
    omega
  · exact h

theorem isPrivateMessage_iff : isPrivateMessage name nick = true ↔
    (cstr nick).map tolower <+: (cstr name).map tolower := by
  have hself : (cstr nick ++ [nul]).take (strlen nick) = cstr nick := List.take_left' rfl
  have hlower : nul ∉ (cstr nick).map tolower := by
    intro h
    obtain ⟨c, hc, hnul⟩ := List.mem_map.mp h
    exact nul_not_mem_cstr nick (tolower_eq_nul hnul ▸ hc)
  have hlength : strlen nick = ((cstr nick).map tolower).length := (List.length_map tolower).symm
  unfold isPrivateMessage strncasecmpEq
  rw [decide_eq_true_iff, hself, List.map_take, List.map_append, hlength]
  exact take_terminated_iff hlower

end names

def nickAfter (s : LineSession) : Bytes :=
  match handlerOf s.line.result, textAt s.line s.line.result.nick, paramText s 0 with
  | some .nick, some name, some newNick =>
    if strnEquals name s.nick (strlen s.nick) ∧ 0 < s.line.result.numParams then newNick else s.nick
  | _, _, _ => s.nick

def taken (s : LineSession) (test : Bytes → Bool) (entry : Bytes → Taken) : List Taken :=
  ((paramText s 0).filter test).toList.map entry

def isPlain (s : LineSession) : Bool :=
  (paramText s 1).any fun text => !(1 < s.line.result.numParams && isCtcpRequest text)

def recognised (s : LineSession) : List Taken :=
  match handlerOf s.line.result with
  | some .mode =>
    if 0 < s.line.result.numParams then
      taken s (fun target => strnEquals target s.nick (strlen s.nick)) (.userMode · s.nick)
    else []
  | some .privmsg =>
    if 1 < s.line.result.numParams ∧ isPlain s = true then
      taken s (fun target => isPrivateMessage target s.nick) (.privateMessage · s.nick)
    else []
  | some .notice =>
    if isPlain s = true then
      taken s (fun target => isPrivateMessage target s.nick) (.privateMessage · s.nick)
    else []
  | _ => []

/-- `t` has the nick, and has taken these targets for it on top of what `s` has. -/
structure Takes (s : Loop) (nick : Bytes) (more : List Taken) (t : Loop) : Prop where
  nick : t.session.nick = nick
  taken : t.taken = s.taken ++ more

section handlers
variable {s : Loop}

theorem Takes.of_untaken {t : Loop} (h : Untaken s t) : Takes s s.session.nick [] t :=
  ⟨h.nick, h.taken.trans (List.append_nil _).symm⟩

theorem Takes.of_end {nick : Bytes} {more : List Taken} {t u : Loop} (h : Takes s nick more t)
    (hsame : Untaken t u) : Takes s nick more u :=
  ⟨hsame.nick.trans h.nick, hsame.taken.trans h.taken⟩

theorem takes_take {x : LoopM Unit} (hx : Moves Aside x) (a : Taken) :
    Takes s s.session.nick [a] (endState (take a >>= fun _ => x) s) := by
  let t : Loop := { s with taken := s.taken ++ [a] }
  have hrun : (take a).run s = .ok ⟨⟩ t := rfl
  have ht : Takes s s.session.nick [a] t := ⟨rfl, rfl⟩
  rw [endState_bind_of_ok hrun]
  exact ht.of_end (hx t).untaken

theorem ircNickCommand_takes (hhandler : handlerOf s.session.line.result = some .nick) :
    Takes s (nickAfter s.session) [] (endState ircNickCommand s) := by
  have hend : endState ircNickCommand s = endState (deref s.session.line.result.nick >>= fun nick =>
      if strnEquals nick s.session.nick (strlen s.session.nick) ∧
          0 < s.session.line.result.numParams then
        param 0 >>= fun newNick => onSession (modify fun t => { t with nick := newNick })
      else pure ⟨⟩ : LoopM Unit) s := rfl
  have hsame : Takes s s.session.nick [] s := .of_untaken (untaken_frame.refl s)
  rw [hend]
  unfold nickAfter
  rw [hhandler]
  cases hname : textAt s.session.line s.session.line.result.nick with
  | none =>
    obtain ⟨fault, hrun⟩ := deref_run_of_none hname
    rw [endState_bind_of_error hrun]
    exact hsame
  | some name =>
    rw [endState_bind_of_ok (deref_run_of_some hname)]
    by_cases hown : strnEquals name s.session.nick (strlen s.session.nick) ∧
        0 < s.session.line.result.numParams
    · rw [if_pos hown]
      cases hnew : paramText s.session 0 with
      | none =>
        obtain ⟨fault, hrun⟩ := param_run_of_none hnew
        rw [endState_bind_of_error hrun]
        exact hsame
      | some newNick =>
        rw [endState_bind_of_ok (param_run_of_some hnew)]
        dsimp only
        rw [if_pos hown]
        exact ⟨rfl, (List.append_nil _).symm⟩
    · rw [if_neg hown]
      cases paramText s.session 0 with
      | none => exact hsame
      | some newNick =>
        dsimp only
        rw [if_neg hown]
        exact hsame

theorem takes_target {test : Bytes → Bool} {entry : Bytes → Taken} {x y : LoopM Unit}
    (hx : Moves Aside x) (hy : Moves Asking y) :
    Takes s s.session.nick (taken s.session test entry)
      (endState (param 0 >>= fun target =>
        if test target then take (entry target) >>= fun _ => x else y) s) := by
  unfold taken
  cases htarget : paramText s.session 0 with
  | none =>
    obtain ⟨fault, hrun⟩ := param_run_of_none htarget
    rw [endState_bind_of_error hrun]
    exact .of_untaken (untaken_frame.refl s)
  | some target =>
    rw [endState_bind_of_ok (param_run_of_some htarget)]
    by_cases htest : test target = true
    · rw [if_pos htest, Option.filter_some_pos htest]
      exact takes_take hx _
    · rw [if_neg htest, Option.filter_some_neg (by simpa using htest)]
      exact .of_untaken (hy s).untaken

theorem ircModeCommand_takes (hhandler : handlerOf s.session.line.result = some .mode) :
    Takes s s.session.nick (recognised s.session) (endState ircModeCommand s) := by
  have hend : endState ircModeCommand s =
      endState (if 0 < s.session.line.result.numParams then
        param 0 >>= fun target =>
          if strnEquals target s.session.nick (strlen s.session.nick) then
            take (.userMode target s.session.nick) >>= fun _ =>
              onSession (Commands.setLine moveMode) >>= fun _ => eventUmode
          else eventMode
        else eventMode : LoopM Unit) s := rfl
  unfold recognised
  rw [hend, hhandler]
  dsimp only
  split
  · exact takes_target (aside_frame.bind (aside_setLine moveMode) fun _ => aside_eventUmode)
      asking_eventMode
  · exact .of_untaken (asking_eventMode s).untaken

theorem ircPrivmsgCommand_takes (env : LineEnv)
    (hhandler : handlerOf s.session.line.result = some .privmsg) :
    Takes s s.session.nick (recognised s.session) (endState (ircPrivmsgCommand env) s) := by
  have hend : endState (ircPrivmsgCommand env) s =
      endState (if s.session.line.result.numParams ≤ 1 then pure ⟨⟩
        else param 1 >>= fun text =>
          if isCtcpRequest text then handleCtcpRequest env
          else param 0 >>= fun target =>
            if isPrivateMessage target s.session.nick then
              take (.privateMessage target s.session.nick) >>= fun _ => dumpEvent
            else pure ⟨⟩ : LoopM Unit) s := rfl
  have hsame : Takes s s.session.nick [] s := .of_untaken (untaken_frame.refl s)
  unfold recognised isPlain
  rw [hend, hhandler]
  dsimp only
  by_cases hfew : s.session.line.result.numParams ≤ 1
  · have hnot : ¬ 1 < s.session.line.result.numParams := by omega
    rw [if_pos hfew, if_neg fun h => hnot h.1]
    exact hsame
  · have hmany : 1 < s.session.line.result.numParams := by omega
    rw [if_neg hfew]
    cases htext : paramText s.session 1 with
    | none =>
      obtain ⟨fault, hrun⟩ := param_run_of_none htext
      rw [endState_bind_of_error hrun]
      simpa using hsame
    | some text =>
      rw [endState_bind_of_ok (param_run_of_some htext)]
      by_cases hctcp : isCtcpRequest text = true
      · rw [if_pos hctcp, if_neg (by simp [hmany, hctcp])]
        exact .of_untaken (aside_handleCtcpRequest env s).untaken
      · rw [if_neg hctcp, if_pos (by simp [hmany, hctcp])]
        exact takes_target aside_dumpEvent (asking_frame.pure _)

theorem ircNoticeCommand_takes (event : Bytes)
    (hhandler : handlerOf s.session.line.result = some .notice) :
    Takes s s.session.nick (recognised s.session) (endState (ircNoticeCommand event) s) := by
  have hsame : Takes s s.session.nick [] s := .of_untaken (untaken_frame.refl s)
  unfold recognised isPlain
  rw [hhandler]
  dsimp only
  cases htext : paramText s.session 1 with
  | none =>
    obtain ⟨fault, hrun⟩ := param_run_of_none htext
    have hend : endState (ircNoticeCommand event) s = s := endState_bind_of_error hrun
    rw [hend]
    simpa using hsame
  | some text =>
    have hend : endState (ircNoticeCommand event) s =
        endState (if 1 < s.session.line.result.numParams ∧ isCtcpRequest text then
          onSession (Commands.setLine (replyToNotice text)) >>= fun _ => dumpEvent
          else param 0 >>= fun target =>
            if isPrivateMessage target s.session.nick then
              take (.privateMessage target s.session.nick) >>= fun _ => eventNotice event
            else pure ⟨⟩ : LoopM Unit) s := endState_bind_of_ok (param_run_of_some htext)
    rw [hend]
    by_cases hctcp : 1 < s.session.line.result.numParams ∧ isCtcpRequest text = true
    · rw [if_pos hctcp, if_neg (by simp [hctcp])]
      exact .of_untaken (aside_frame.bind (aside_setLine _) (fun _ => aside_dumpEvent) s).untaken
    · rw [if_neg hctcp, if_pos (by simpa [imp_iff_not_or] using hctcp)]
      exact takes_target (aside_eventNotice event) (asking_frame.pure _)

theorem takes_of_aside {x : LoopM Unit} (hx : Moves Asking x)
    (h : ∀ handler ∈ [IrcCommand.nick, .mode, .privmsg, .notice],
      handlerOf s.session.line.result ≠ some handler) :
    Takes s (nickAfter s.session) (recognised s.session) (endState x s) := by
  have hnick : nickAfter s.session = s.session.nick := by
    unfold nickAfter
    split
    · next hhandler _ _ => exact absurd hhandler (h .nick (by simp))
    · rfl
  have hnone : recognised s.session = [] := by
    unfold recognised
    split
    · next hhandler => exact absurd hhandler (h .mode (by simp))
    · next hhandler => exact absurd hhandler (h .privmsg (by simp))
    · next hhandler => exact absurd hhandler (h .notice (by simp))
    · rfl
  rw [hnick, hnone]
  exact .of_untaken (hx s).untaken

theorem execute_takes (env : LineEnv) (command : Bytes) {handler : IrcCommand}
    (h : handlerOf s.session.line.result = some handler) :
    Takes s (nickAfter s.session) (recognised s.session) (endState (execute env command handler) s) := by
  have hkept (hne : handler ≠ .nick) : nickAfter s.session = s.session.nick := by
    unfold nickAfter
    rw [h]
    split
    · next hnick _ _ => exact absurd (Option.some.inj hnick) hne
    · rfl
  have haside {x : LoopM Unit} (hx : Moves Asking x)
      (hnot : handler ∉ [IrcCommand.nick, .mode, .privmsg, .notice]) :
      Takes s (nickAfter s.session) (recognised s.session) (endState x s) := by
    refine takes_of_aside hx fun other hother hsame => hnot ?_
    rw [h] at hsame
    exact Option.some.inj hsame ▸ hother
  cases handler with
  | nick =>
    have hnone : recognised s.session = [] := by
      unfold recognised
      rw [h]
    rw [hnone]
    exact ircNickCommand_takes h
  | mode =>
    rw [hkept (by simp)]
    exact ircModeCommand_takes h
  | privmsg =>
    rw [hkept (by simp)]
    exact ircPrivmsgCommand_takes env h
  | notice =>
    rw [hkept (by simp)]
    exact ircNoticeCommand_takes command h
  | join => exact haside asking_eventJoin (by simp)
  | ping => exact haside (asking_of_aside aside_ircPingCommand) (by simp)
  | unknown => exact haside (asking_of_aside aside_dumpEvent) (by simp)
  | quit | part | topic | kick | invite | kill => exact haside (asking_frame.pure _) (by simp)

theorem handleParserResult_takes (env : LineEnv) (s : Loop) :
    Takes s (nickAfter s.session) (recognised s.session) (endState (handleParserResult env) s) := by
  have hnone {x : LoopM Unit} (hx : Moves Aside x) (h : handlerOf s.session.line.result = none) :
      Takes s (nickAfter s.session) (recognised s.session) (endState x s) :=
    takes_of_aside (asking_of_aside hx) fun _ _ hsome => by
      rw [h] at hsome
      cases hsome
  rcases handleParserResult_cases env s with ⟨x, hx, hhandler, hend⟩ | ⟨command, handler, hhandler, hend⟩
  · rw [hend]
    exact hnone hx hhandler
  · rw [hend]
    have htakes := execute_takes env command (s := dispatched s (.command handler command)) hhandler
    exact ⟨htakes.nick, htakes.taken⟩

end handlers

/-- What was taken for the nick is the nick: exactly for a mode, in any case for a message. -/
def IsOwn : Taken → Prop
  | .userMode target nick => cstr target = cstr nick
  | .privateMessage target nick => strcasecmpEq target nick = true

instance : DecidablePred IsOwn := fun a => by cases a <;> unfold IsOwn <;> infer_instance

/-- A `NICK` line from exactly the name `own` replaces it by its first parameter. -/
def renamed (own : Bytes) (s : LineSession) : Bytes :=
  match handlerOf s.line.result, textAt s.line s.line.result.nick, paramText s 0 with
  | some .nick, some name, some newNick =>
    if cstr name = cstr own ∧ 0 < s.line.result.numParams then newNick else own
  | _, _, _ => own

/-- What becomes of the name `own` in a turn. -/
def nextName (own : Bytes) (s : Loop) : LoopEvent → Bytes
  | .line answers block =>
    if idle s (.line answers block) = false ∧ Ends s.session block.line then
      renamed own (LineSteps.entered s.session block.line)
    else own
  | _ => own

def nameAfter (own : Bytes) : Loop → List LoopEvent → Bytes
  | _, [] => own
  | s, e :: events => nameAfter (nextName own s e) (step s e) events

/-- The nick is always what the rule makes of the name `own`, and what is taken for it is the nick. -/
def Recognises (own : Bytes) (s : Loop) (events : List LoopEvent) : Prop :=
  (∀ done rest, events = done ++ rest → (run step s done).session.nick = nameAfter own s done) ∧
    ∀ a ∈ (run step s events).taken, IsOwn a

/-- The line of somebody whose name, or to somebody whose name, begins with the nick and goes on. -/
def NamesLonger (s : LineSession) : Prop :=
  match handlerOf s.line.result with
  | some .nick =>
    0 < s.line.result.numParams ∧
      ∃ name ∈ textAt s.line s.line.result.nick, ∃ newNick ∈ paramText s 0,
        Extends name s.nick ∧ newNick ≠ s.nick
  | some .mode => 0 < s.line.result.numParams ∧ ∃ target ∈ paramText s 0, Extends target s.nick
  | some .privmsg =>
    (1 < s.line.result.numParams ∧ isPlain s = true) ∧ ∃ target ∈ paramText s 0, ExtendsCase target s.nick
  | some .notice => isPlain s = true ∧ ∃ target ∈ paramText s 0, ExtendsCase target s.nick
  | _ => False

def LongerName (s : Loop) : LoopEvent → Prop
  | .line answers block =>
    idle s (.line answers block) = false ∧ Ends s.session block.line ∧
      NamesLonger (LineSteps.entered s.session block.line)
  | _ => False

section exact_

theorem taken_right_iff {s : LineSession} {test : Bytes → Bool} {entry : Bytes → Taken}
    {longer : Bytes → Prop}
    (h : ∀ target, test target = true → (IsOwn (entry target) ↔ ¬ longer target))
    (hlonger : ∀ target, longer target → test target = true) :
    (∀ a ∈ taken s test entry, IsOwn a) ↔ ¬ ∃ target ∈ paramText s 0, longer target := by
  unfold taken
  cases paramText s 0 with
  | none => simp
  | some target =>
    by_cases htest : test target = true
    · rw [Option.filter_some_pos htest]
      simpa using h target htest
    · have hnot : ¬ longer target := mt (hlonger target) htest
      rw [Option.filter_some_neg (by simpa using htest)]
      simpa using hnot

theorem userModes_right_iff (s : LineSession) :
    (∀ a ∈ taken s (fun target => strnEquals target s.nick (strlen s.nick)) (.userMode · s.nick),
        IsOwn a) ↔ ¬ ∃ target ∈ paramText s 0, Extends target s.nick := by
  refine taken_right_iff (fun target htest => ?_) fun target hlonger => strnEquals_iff.mpr hlonger.1
  have hbegins := strnEquals_iff.mp htest
  simp [IsOwn, Extends, hbegins]

theorem privateMessages_right_iff (s : LineSession) :
    (∀ a ∈ taken s (fun target => isPrivateMessage target s.nick) (.privateMessage · s.nick),
        IsOwn a) ↔ ¬ ∃ target ∈ paramText s 0, ExtendsCase target s.nick := by
  refine taken_right_iff (fun target htest => ?_) fun target hlonger =>
    isPrivateMessage_iff.mpr hlonger.1
  have hbegins := isPrivateMessage_iff.mp htest
  simp [IsOwn, ExtendsCase, hbegins]

theorem recognised_right_iff (s : LineSession) :
    (nickAfter s = renamed s.nick s ∧ ∀ a ∈ recognised s, IsOwn a) ↔ ¬ NamesLonger s := by
  unfold nickAfter renamed recognised NamesLonger
  cases hhandler : handlerOf s.line.result with
  | none => simp
  | some handler =>
    cases handler with
    | nick =>
      cases textAt s.line s.line.result.nick with
      | none => simp
      | some name =>
        cases paramText s 0 with
        | none => simp
        | some newNick =>
          by_cases hparams : 0 < s.line.result.numParams
          · by_cases hbegins : strnEquals name s.nick (strlen s.nick) = true
            · have hname := strnEquals_iff.mp hbegins
              by_cases hsame : cstr name = cstr s.nick
              · simp [hparams, hbegins, hsame, Extends]
              · simp [hparams, hbegins, hsame, Extends, hname]
            · have hname : ¬ cstr s.nick <+: cstr name := mt strnEquals_iff.mpr hbegins
              have hdiffers : ¬ cstr name = cstr s.nick := fun he => hname (he ▸ List.prefix_rfl)
              simp [hbegins, hdiffers, Extends, hname]
          · simp [hparams]
    | mode =>
      by_cases hparams : 0 < s.line.result.numParams
      · have hmodes := userModes_right_iff s
        simp only [hparams, if_true, true_and]
        exact hmodes
      · simp [hparams]
    | privmsg =>
      by_cases hplain : 1 < s.line.result.numParams ∧ isPlain s = true
      · have hmessages := privateMessages_right_iff s
        simp only [hplain, and_self, if_true, true_and]
        exact hmessages
      · simp only [hplain, if_false, false_and, not_false_eq_true, iff_true]
        simp
    | notice =>
      by_cases hplain : isPlain s = true
      · have hmessages := privateMessages_right_iff s
        simp only [hplain, if_true, true_and]
        exact hmessages
      · simp [hplain]
    | ping | quit | join | part | topic | kick | invite | kill | unknown => simp

end exact_

def newTaken (s : Loop) : LoopEvent → List Taken
  | .line answers block =>
    if idle s (.line answers block) = false ∧ Ends s.session block.line then
      recognised (LineSteps.entered s.session block.line)
    else []
  | _ => []

def Right (s : Loop) (e : LoopEvent) : Prop :=
  (step s e).session.nick = nextName s.session.nick s e ∧ ∀ a ∈ newTaken s e, IsOwn a

section runs
variable {s : Loop}

theorem step_takes (hb : Between s) {answers : Answers} {block : Block}
    (hlive : idle s (.line answers block) = false) (hends : Ends s.session block.line) :
    Takes s (nickAfter (LineSteps.entered s.session block.line))
      (recognised (LineSteps.entered s.session block.line)) (step s (.line answers block)) := by
  obtain ⟨c, hp⟩ := hb (live_of_not_idle hlive)
  rcases step_line hlive hp with ⟨hnot, -⟩ | ⟨-, hfin⟩
  · exact absurd hends hnot
  · have htakes := handleParserResult_takes answers.env (entered s block.line)
    have hstart : Takes s (nickAfter (LineSteps.entered s.session block.line))
        (recognised (LineSteps.entered s.session block.line))
        (endState (handleParserResult answers.env) (entered s block.line)) := ⟨htakes.nick, htakes.taken⟩
    exact hstart.of_end hfin.untaken

theorem step_untaken (hb : Between s) {e : LoopEvent}
    (h : ∀ answers block, e = .line answers block →
      ¬ (idle s e = false ∧ Ends s.session block.line)) : Untaken s (step s e) := by
  cases hidle : idle s e with
  | true =>
    rw [step_of_idle hidle]
    exact untaken_frame.refl s
  | false =>
    by_cases hline : ∀ answers block, e ≠ .line answers block
    · exact (step_outer hline s).untaken
    · simp only [not_forall, not_not] at hline
      obtain ⟨answers, block, rfl⟩ := hline
      obtain ⟨c, hp⟩ := hb (live_of_not_idle hidle)
      rcases step_line hidle hp with ⟨-, hstep⟩ | ⟨hends, -⟩
      · rw [hstep]
        exact ⟨rfl, rfl⟩
      · exact absurd ⟨hidle, hends⟩ (h answers block rfl)

theorem step_taken (hb : Between s) (e : LoopEvent) :
    (step s e).taken = s.taken ++ newTaken s e := by
  cases e with
  | line answers block =>
    by_cases h : idle s (.line answers block) = false ∧ Ends s.session block.line
    · rw [newTaken, if_pos h]
      exact (step_takes hb h.1 h.2).taken
    · have hsame := step_untaken hb (e := .line answers block) (by
        intro answers' block' he
        cases he
        exact h)
      rw [newTaken, if_neg h, hsame.taken, List.append_nil]
  | clock _ | keepAlive _ | connecting _ _ | writable _ | socket _ _ | addDescriptors | closed
  | interrupt =>
    rw [(step_untaken hb (by simp)).taken]
    exact (List.append_nil _).symm

theorem right_iff (hb : Between s) (e : LoopEvent) : Right s e ↔ ¬ LongerName s e := by
  cases e with
  | line answers block =>
    by_cases h : idle s (.line answers block) = false ∧ Ends s.session block.line
    · have htakes := step_takes hb h.1 h.2
      have hrule := recognised_right_iff (LineSteps.entered s.session block.line)
      rw [Right, nextName, newTaken, if_pos h, if_pos h, htakes.nick]
      refine Iff.trans hrule ?_
      simp [LongerName, h.1, h.2]
    · have hsame := step_untaken hb (e := .line answers block) (by
        intro answers' block' he
        cases he
        exact h)
      rw [Right, nextName, newTaken, if_neg h, if_neg h, hsame.nick]
      refine iff_of_true ⟨rfl, by simp⟩ ?_
      rintro ⟨hlive, hends, -⟩
      exact h ⟨hlive, hends⟩
  | clock _ | keepAlive _ | connecting _ _ | writable _ | socket _ _ | addDescriptors | closed
  | interrupt =>
    exact iff_of_true ⟨(step_outer (by simp) s).untaken.nick, by simp [newTaken]⟩ not_false

theorem recognises_iff_right (hb : Between s) (hs : ∀ a ∈ s.taken, IsOwn a) (events : List LoopEvent) :
    Recognises s.session.nick s events ↔ AllAlong step Right s events := by
  induction events generalizing s with
  | nil =>
    refine iff_of_true ⟨fun done rest h => ?_, hs⟩ trivial
    have hnil : done = [] := (List.nil_eq_append_iff.mp h).1
    rw [hnil]
    rfl
  | cons e events ih =>
    have hnext := between_step hb e
    have htaken := step_taken hb e
    constructor
    · rintro ⟨hnick, htakes⟩
      have hfirst : (step s e).session.nick = nextName s.session.nick s e := hnick [e] events rfl
      have hkept : ∀ a ∈ (step s e).taken, a ∈ (run step (step s e) events).taken := by
        have hmono : ∀ (l : List LoopEvent) (t : Loop), Between t →
            ∀ a ∈ t.taken, a ∈ (run step t l).taken := by
          intro l
          induction l with
          | nil => exact fun t _ a ha => ha
          | cons e' l ih' =>
            intro t ht a ha
            refine ih' (step t e') (between_step ht e') a ?_
            rw [step_taken ht e']
            exact List.mem_append_left _ ha
        exact hmono events _ hnext
      have hnew : ∀ a ∈ (step s e).taken, IsOwn a := fun a ha => htakes a (hkept a ha)
      refine ⟨⟨hfirst, fun a ha => hnew a (by rw [htaken]; exact List.mem_append_right _ ha)⟩, ?_⟩
      refine (ih hnext hnew).mp ⟨fun done rest hsplit => ?_, htakes⟩
      have hdone := hnick (e :: done) rest (by rw [hsplit]; rfl)
      rw [hfirst]
      exact hdone
    · rintro ⟨⟨hfirst, hright⟩, hrest⟩
      have hnew : ∀ a ∈ (step s e).taken, IsOwn a := by
        intro a ha
        rw [htaken] at ha
        rcases List.mem_append.mp ha with ha | ha
        · exact hs a ha
        · exact hright a ha
      obtain ⟨hnick, htakes⟩ := (ih hnext hnew).mpr hrest
      refine ⟨fun done rest hsplit => ?_, htakes⟩
      cases done with
      | nil => rfl
      | cons e' done =>
        obtain ⟨rfl, hrest⟩ := List.cons.inj hsplit
        have hdone := hnick done rest hrest
        rw [hfirst] at hdone
        exact hdone

end runs

/-- The client recognises exactly its own nick, all along a run, if and only if none of its lines
    comes from, or goes to, a name that begins with the nick of that moment and goes on. -/
theorem recognises_own_nick_iff (c : Setup) (events : List LoopEvent) :
    Recognises (cstr c.nick) c.start events ↔
      AllAlong step (fun s e => ¬ LongerName s e) c.start events := by
  have hright := recognises_iff_right (between_start c) (by simp [Setup.start]) events
  have hsame := @allAlong_congr _ _ step Between Right (fun s e => ¬ LongerName s e)
    (fun _ e h => between_step h e) (fun _ e h => right_iff h e) c.start (between_start c) events
  exact Iff.trans hright hsame

/-- Somebody called `meow` changes the name. -/
def meowBlock : Block := ⟨bytes ":meow!u@h NICK x\x0d\x0a", by decide +kernel⟩

/-- The client `me` takes the new name for its own. -/
theorem longer_nick_renames_client :
    ¬ Recognises (cstr botSetup.nick) botSetup.start [connects, .line readyAnswers meowBlock] := by
  intro h
  have hnick := h.1 [connects, .line readyAnswers meowBlock] [] (List.append_nil _).symm
  exact absurd hnick (by decide +kernel)

end Xdccget.OwnNick
