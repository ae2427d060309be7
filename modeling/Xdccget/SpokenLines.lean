import Mathlib.Data.List.DropRight
import Xdccget.LoopLines
import Xdccget.QueuedTexts
import Xdccget.Registration

set_option autoImplicit false

/-!
# What the client can be made to say

Whatever the server and the bots send, what the client queues is one of a few lines that are
fixed or made from what the user has configured. They only choose the targets of the answers.
-/
namespace Xdccget.SpokenLines
open CText LineParser DccMessages ClientState Downloads HaltingPrograms ProgramRelations StepRuns
  ClientLoop LoopFrames LoopLines TransferFrames
open QueuedTexts (queuedText queuedTexts onWire)
open DccSessions (dccResumeText dccResumeReverseText dccSendReverseText)
open SessionSpecs (ctcpLine)
open Commands (LineEnv LineSession IrcCommand HandlerM setLine send ctcpBuf)

def Permitted (c : Setup) (nick : Bytes) : Prop :=
  c.cfg.acceptAllNicks = true ∨ ∃ r ∈ requests c.cfg, strcasecmpEq r.1 nick = true

inductive DccReply : Bytes → Prop
  | resume (port position : ℕ) : DccReply (dccResumeText port position)
  | resumeReverse (position token : ℕ) : DccReply (dccResumeReverseText position token)
  | sendReverse (filename : Bytes) (ip port size token : ℕ) :
      DccReply (dccSendReverseText filename ip port size token)

inductive CtcpAnswer : Bytes → Prop
  | ping {request : Bytes} (h : bytes "PING" <+: request) : CtcpAnswer request
  | version : CtcpAnswer (bytes "VERSION  mIRC v6.16")
  | finger : CtcpAnswer (fingerText none none)
  | time (answers : Answers) : CtcpAnswer answers.time

def noticeLine (nick reply : Bytes) : Bytes :=
  bytes "NOTICE " ++ nick ++ bytes " :" ++ [1] ++ reply ++ [1]

def joinLine (channel : Bytes) : Bytes := snprintf 1024 (bytes "JOIN " ++ channel)

/-- The login command after `sdstrim`: the target stands in the first nine bytes. -/
def loginLine (login : Bytes) : Bytes :=
  snprintf 1024 (privmsg ((sdstrim blanks login).take 9) ((sdstrim blanks login).drop 9))

inductive Answer (c : Setup) : Bytes → Prop
  | pong (text : Bytes) : Answer c (snprintf 1024 (bytes "PONG " ++ text))
  | userMode (nick : Bytes) : Answer c (snprintf 1024 (userModeLine nick))
  | ctcp (nick : Bytes) {reply : Bytes} (h : CtcpAnswer reply) :
      Answer c (snprintf 1024 (noticeLine nick reply))
  | dcc {nick reply : Bytes} (hnick : Permitted c nick) (h : DccReply reply) :
      Answer c (ctcpLine nick reply)
  | request {r : Bytes × Bytes} (h : r ∈ requests c.cfg) : Answer c (snprintf 1024 (privmsg r.1 r.2))
  | login {login : Bytes} (h : c.loginCommand = some login) : Answer c (loginLine login)
  | quit : Answer c quitLine

inductive Vocabulary (c : Setup) (text : Bytes) : Prop
  | answer (h : Answer c text)
  | join {channel : Bytes} (h : channel ∈ c.channelsToJoin) (htext : text = joinLine channel)

def isJoin (text : Bytes) : Bool := (bytes "JOIN ").isPrefixOf text

theorem Answer.not_join {c : Setup} {text : Bytes} (h : Answer c text) : isJoin text = false := by
  cases h <;> rfl

/-- These texts are queued, unless there is no connection or no room. -/
structure Adds (s t : Client) (l : List Bytes) : Prop where
  state : t.net.state = s.net.state
  texts : queuedTexts t.trace = queuedTexts s.trace ++ l
  outgoing : t.net.outgoing = s.net.outgoing ++ onWire l
  silent : s.net.state ≠ .connected → l = []
  room : t.net.outgoing.length < libircBufferSize ∨ l = []
  whole : ∀ text ∈ l, snprintf 1024 text = text

theorem Adds.nil {s t : Client} (hstate : t.net.state = s.net.state)
    (hout : t.net.outgoing = s.net.outgoing) (htexts : queuedTexts t.trace = queuedTexts s.trace) :
    Adds s t [] where
  state := hstate
  texts := by rw [htexts, List.append_nil]
  outgoing := by
    rw [hout]
    exact (List.append_nil _).symm
  silent _ := rfl
  room := Or.inr rfl
  whole _ h := absurd h List.not_mem_nil

theorem Adds.append {s t u : Client} {l m : List Bytes} (h : Adds s t l) (h' : Adds t u m) :
    Adds s u (l ++ m) where
  state := h'.state.trans h.state
  texts := by rw [h'.texts, h.texts, List.append_assoc]
  outgoing := by
    rw [h'.outgoing, h.outgoing, List.append_assoc, onWire, onWire, onWire, List.flatMap_append]
  silent hs := by
    rw [h.silent hs, h'.silent (by rw [h.state]; exact hs)]
    rfl
  room := by
    rcases h'.room with hroom | rfl
    · exact Or.inl hroom
    · rcases h.room with hroom | rfl
      · left
        rw [h'.outgoing]
        simpa [onWire] using hroom
      · exact Or.inr rfl
  whole text htext := by
    rcases List.mem_append.mp htext with htext | htext
    · exact h.whole text htext
    · exact h'.whole text htext

theorem snprintf_snprintf (size : ℕ) (text : Bytes) :
    snprintf size (snprintf size text) = snprintf size text := by
  refine Registration.snprintf_of_short (fun hmem => ?_) (List.length_take_le _ _)
  exact nul_not_mem_cstr text (List.mem_of_mem_take hmem)

theorem adds_sentClient (s : Client) (text : Bytes) :
    Adds s (sentClient s text) (if accepts s.net text then [snprintf 1024 text] else []) where
  state := afterSend_state s.net text
  room := by
    by_cases haccepts : accepts s.net text = true
    · left
      have hroom := haccepts
      simp only [accepts, Bool.and_eq_true, decide_eq_true_eq] at hroom
      simp only [sentClient, afterSend, haccepts, if_true, List.length_append, List.length_cons,
        List.length_nil]
      omega
    · exact Or.inr (if_neg haccepts)
  whole other hother := by
    split at hother
    · rw [List.mem_singleton.mp hother, snprintf_snprintf]
    · exact absurd hother List.not_mem_nil
  texts := by
    have hactions : queuedTexts (sendActions s.net text) =
        if accepts s.net text then [snprintf 1024 text] else [] := by
      unfold sendActions
      split <;> rfl
    rw [← hactions]
    exact List.filterMap_append
  outgoing := by
    unfold sentClient afterSend
    split <;> simp [onWire]
  silent hs := by
    have hrefused : accepts s.net text = false := by simp [accepts, hs]
    rw [hrefused]
    rfl

def Says (P : Bytes → Prop) (s t : Client) : Prop := ∃ l, Adds s t l ∧ ∀ text ∈ l, P text

section clients
variable {P : Bytes → Prop}

theorem says_frame (P : Bytes → Prop) : Frame (Says P) where
  refl _ := ⟨[], .nil rfl rfl rfl, by simp⟩
  trans s t u h h' := by
    obtain ⟨l, hadds, hl⟩ := h
    obtain ⟨m, hadds', hm⟩ := h'
    refine ⟨l ++ m, hadds.append hadds', fun text htext => ?_⟩
    rcases List.mem_append.mp htext with htext | htext
    · exact hl text htext
    · exact hm text htext

theorem says_sentClient {text : Bytes} (h : P (snprintf 1024 text)) (s : Client) :
    Says P s (sentClient s text) := by
  refine ⟨_, adds_sentClient s text, fun other hother => ?_⟩
  split at hother
  · rw [List.mem_singleton.mp hother]
    exact h
  · exact absurd hother List.not_mem_nil

theorem says_ircSendRaw {text : Bytes} (h : P (snprintf 1024 text)) :
    Moves (Says P) (ircSendRaw text) := by
  intro s
  rw [endState_of_ok (ircSendRaw_eq text s)]
  exact says_sentClient h s

theorem says_bears (hquit : P quitLine) : Bears (Says P) where
  frame := says_frame P
  aside s t hstate hout _ htrace := ⟨[], .nil hstate hout (by rw [htrace]), by simp⟩
  elsewhere s t hstate hout htrace := ⟨[], .nil hstate hout (by rw [htrace]), by simp⟩
  recorded a hqueued _ := by
    intro s
    have hnone : queuedText a = none := by
      cases a with
      | queued line => exact absurd rfl (hqueued line)
      | _ => rfl
    exact ⟨[], .nil rfl rfl (by simp [record, endState, queuedTexts, hnone]), by simp⟩
  quit := says_ircSendRaw (by
    have htext : snprintf 1024 quitLine = quitLine := by decide +kernel
    rw [htext]
    exact hquit)

theorem says_carries (hquit : P quitLine) {nick : Option Bytes}
    (h : ∀ n ∈ nick, ∀ reply, DccReply reply → P (ctcpLine n reply)) :
    Carries (Says P) nick fun _ => True :=
  have hask {reply : Bytes} (hreply : DccReply reply) :
      Moves (Says P) (ircCmdCtcpRequest nick reply) := by
    cases nick with
    | none =>
      intro s
      exact ⟨[], .nil rfl rfl rfl, by simp⟩
    | some n => exact says_ircSendRaw (h n rfl reply hreply)
  { toBears := says_bears hquit
    named := trivial
    resume := fun _ _ => hask (.resume _ _)
    resumeReverse := fun _ _ => hask (.resumeReverse _ _)
    sendReverse := fun _ _ _ _ _ _ => hask (.sendReverse _ _ _ _ _) }

theorem says_acknowledged (id word len : ℕ) :
    Moves (Says P) (record (.acknowledged id word len)) := fun _ =>
  ⟨[], .nil rfl rfl (by simp [record, endState, queuedTexts, queuedText]), by simp⟩

end clients

structure Kept (c : Setup) (s : LineSession) : Prop where
  channels : s.channelsToJoin = c.channelsToJoin
  login : s.loginCommand.map (sdstrim blanks) = c.loginCommand.map (sdstrim blanks)
  username : s.username = none
  realname : s.realname = none
  requests : requests s.client.cfg = requests c.cfg
  acceptAllNicks : s.client.cfg.acceptAllNicks = c.cfg.acceptAllNicks

def Joined (c : Setup) (s t : LineSession) (l : List Bytes) : Prop :=
  c.loginCommand = none →
    (t.onConnectEventDone = s.onConnectEventDone ∧ l.filter isJoin = []) ∨
      (s.onConnectEventDone = false ∧ t.onConnectEventDone = true ∧
        (l.filter isJoin).Sublist (c.channelsToJoin.map joinLine))

def Utters (c : Setup) (s t : LineSession) : Prop :=
  Kept c s → Kept c t ∧
    ∃ l, Adds s.client t.client l ∧ (∀ text ∈ l, Vocabulary c text) ∧ Joined c s t l

def Speaks (c : Setup) (s t : Loop) : Prop :=
  Kept c s.session → Kept c t.session ∧ t.written = s.written ∧
    ∃ l, Adds s.session.client t.session.client l ∧ (∀ text ∈ l, Vocabulary c text) ∧
      Joined c s.session t.session l

section kept
variable {c : Setup} {s t u : LineSession}

theorem Joined.append {l m : List Bytes} (h : Joined c s t l) (h' : Joined c t u m) :
    Joined c s u (l ++ m) := by
  intro hlogin
  rw [List.filter_append]
  rcases h hlogin with ⟨hdone, hl⟩ | ⟨hnew, hdone, hl⟩
  · rcases h' hlogin with ⟨hdone', hm⟩ | ⟨hnew', hdone', hm⟩
    · exact Or.inl ⟨hdone'.trans hdone, by rw [hl, hm]; rfl⟩
    · exact Or.inr ⟨hdone.symm.trans hnew', hdone', by rw [hl]; exact hm⟩
  · rcases h' hlogin with ⟨hdone', hm⟩ | ⟨hnew', -, -⟩
    · exact Or.inr ⟨hnew, hdone'.trans hdone, by rw [hm, List.append_nil]; exact hl⟩
    · rw [hdone] at hnew'
      cases hnew'

theorem joined_of_answers {l : List Bytes} (hdone : t.onConnectEventDone = s.onConnectEventDone)
    (h : ∀ text ∈ l, Answer c text) : Joined c s t l := by
  refine fun _ => Or.inl ⟨hdone, List.filter_eq_nil_iff.mpr fun text htext => ?_⟩
  rw [(h text htext).not_join]
  exact Bool.false_ne_true

theorem utters_frame (c : Setup) : Frame (Utters c) where
  refl _ h := ⟨h, [], .nil rfl rfl rfl, by simp, joined_of_answers rfl (by simp)⟩
  trans s t u h h' hs := by
    obtain ⟨ht, l, hadds, hl, hjoined⟩ := h hs
    obtain ⟨hu, m, hadds', hm, hjoined'⟩ := h' ht
    refine ⟨hu, l ++ m, hadds.append hadds', fun text htext => ?_, hjoined.append hjoined'⟩
    rcases List.mem_append.mp htext with htext | htext
    · exact hl text htext
    · exact hm text htext

theorem speaks_frame (c : Setup) : Frame (Speaks c) where
  refl _ h := ⟨h, rfl, [], .nil rfl rfl rfl, by simp, joined_of_answers rfl (by simp)⟩
  trans s t u h h' hs := by
    obtain ⟨ht, hwritten, hfirst⟩ := h hs
    obtain ⟨hu, hwritten', hsecond⟩ := h' ht
    have hboth := (utters_frame c).trans s.session t.session u.session (fun _ => ⟨ht, hfirst⟩)
      fun _ => ⟨hu, hsecond⟩
    exact ⟨hu, hwritten'.trans hwritten, (hboth hs).2⟩

theorem utters_of_answers (hkept : Kept c s → Kept c t)
    (hdone : t.onConnectEventDone = s.onConnectEventDone)
    (hsaid : Kept c s → Says (Answer c) s.client t.client) : Utters c s t := by
  intro hs
  obtain ⟨l, hadds, hl⟩ := hsaid hs
  exact ⟨hkept hs, l, hadds, fun text htext => .answer (hl text htext), joined_of_answers hdone hl⟩

theorem kept_client (h : Kept c s) {client : Client}
    (hbots : requests client.cfg = requests s.client.cfg)
    (hnicks : client.cfg.acceptAllNicks = s.client.cfg.acceptAllNicks) :
    Kept c { s with client := client } where
  channels := h.channels
  login := h.login
  username := h.username
  realname := h.realname
  requests := hbots.trans h.requests
  acceptAllNicks := hnicks.trans h.acceptAllNicks

theorem permitted_of_valid (h : Kept c s) {nick : Option Bytes}
    (hvalid : isValidRequestFromNick s.client.cfg nick = some true) : ∀ n ∈ nick, Permitted c n := by
  intro n hn
  unfold isValidRequestFromNick at hvalid
  cases hdownloads : s.client.cfg.dccDownloadArray with
  | none => simp [hdownloads] at hvalid
  | some downloads =>
    by_cases hall : s.client.cfg.acceptAllNicks = true
    · exact Or.inl (h.acceptAllNicks ▸ hall)
    · right
      have hany : downloads.any (fun d => strcasecmpEq d.botNick n) = true := by
        simpa [hdownloads, hall, Option.mem_def.mp hn] using hvalid
      obtain ⟨d, hd, heq⟩ := List.any_eq_true.mp hany
      have hmem : (d.botNick, d.xdccCmd) ∈ requests s.client.cfg := by
        rw [requests, hdownloads]
        exact List.mem_map.mpr ⟨d, hd, rfl⟩
      rw [h.requests] at hmem
      exact ⟨_, hmem, heq⟩

end kept

section session
variable {c : Setup}

theorem utters_onClient_send {text : Bytes} (h : Answer c (snprintf 1024 text)) :
    Moves (Utters c) (Commands.onClient (ircSendRaw text)) := by
  intro s
  rw [endState_of_ok (onClient_send_run text s)]
  exact utters_of_answers (fun hs => kept_client hs rfl rfl) rfl fun _ => says_sentClient h s.client

theorem utters_send {text : Bytes} (h : Answer c (snprintf 1024 text)) : Moves (Utters c) (send text) :=
  moves_discard (utters_onClient_send h)

theorem utters_modify {f : LineSession → LineSession} (hkept : ∀ s, Kept c s → Kept c (f s))
    (hdone : ∀ s, (f s).onConnectEventDone = s.onConnectEventDone)
    (hclient : ∀ s, (f s).client = s.client) : Moves (Utters c) (modify f : HandlerM PUnit) := by
  refine moves_modify fun s => utters_of_answers (hkept s) (hdone s) fun _ => ?_
  rw [hclient s]
  exact (says_frame _).refl _

theorem utters_setLine (f : LineState → LineState) : Moves (Utters c) (setLine f) :=
  utters_modify (fun _ hs => { hs with }) (fun _ => rfl) fun _ => rfl

theorem joins_of_channels (channels : List Bytes) (s : LineSession) :
    ∃ client l, (channels.forM fun channel => send (bytes "JOIN " ++ channel)).run s =
        .ok ⟨⟩ { s with client := client } ∧
      client.cfg = s.client.cfg ∧ Adds s.client client l ∧ l.Sublist (channels.map joinLine) := by
  induction channels generalizing s with
  | nil => exact ⟨s.client, [], rfl, rfl, .nil rfl rfl rfl, .slnil⟩
  | cons channel channels ih =>
    obtain ⟨client, l, hrun, hcfg, hadds, hl⟩ :=
      ih { s with client := sentClient s.client (bytes "JOIN " ++ channel) }
    have hcons : ((channel :: channels).forM fun channel => send (bytes "JOIN " ++ channel)) =
        (send (bytes "JOIN " ++ channel) >>= fun _ =>
          channels.forM fun channel => send (bytes "JOIN " ++ channel)) := rfl
    rw [hcons, run_bind_of_ok (send_run (bytes "JOIN " ++ channel) s), hrun]
    refine ⟨client, _, rfl, hcfg, (adds_sentClient s.client _).append hadds, ?_⟩
    split
    · exact hl.cons_cons _
    · exact hl.cons _

theorem sdstrim_sdstrim (s : Bytes) : sdstrim blanks (sdstrim blanks s) = sdstrim blanks s := by
  have hfront : (sdstrim blanks s).dropWhile (trims blanks) = sdstrim blanks s := by
    obtain ⟨behind, hbehind⟩ : sdstrim blanks s <+: s.dropWhile (trims blanks) :=
      List.rdropWhile_prefix _ _
    cases htrimmed : sdstrim blanks s with
    | nil => rfl
    | cons a rest =>
      have hfirst := List.head?_dropWhile_not (trims blanks) s
      rw [← hbehind, htrimmed] at hfirst
      exact List.dropWhile_cons_of_neg (by simpa using hfirst)
  calc sdstrim blanks (sdstrim blanks s)
      = ((sdstrim blanks s).dropWhile (trims blanks)).rdropWhile (trims blanks) := rfl
    _ = (sdstrim blanks s).rdropWhile (trims blanks) := by rw [hfront]
    _ = sdstrim blanks s := List.rdropWhile_idempotent _ _

theorem vocabulary_of_joins {channels l : List Bytes} (h : channels = c.channelsToJoin)
    (hl : l.Sublist (channels.map joinLine)) : ∀ text ∈ l, Vocabulary c text := by
  intro text htext
  obtain ⟨channel, hchannel, rfl⟩ := List.mem_map.mp (hl.mem htext)
  exact .join (h ▸ hchannel) rfl

theorem utters_joinChannels (h : c.loginCommand ≠ none) : Moves (Utters c) Commands.joinChannels := by
  intro s hs
  obtain ⟨client, l, hrun, hcfg, hadds, hl⟩ := joins_of_channels s.channelsToJoin s
  have hjoined : Commands.joinChannels.run s = .ok ⟨⟩ { s with client := client } := hrun
  rw [endState_of_ok hjoined]
  exact ⟨kept_client hs (by rw [hcfg]) (by rw [hcfg]), l, hadds,
    vocabulary_of_joins hs.channels hl, fun hnone => absurd hnone h⟩

theorem utters_sendLoginCommand {login configured : Bytes} (hlogin : c.loginCommand = some configured)
    (h : sdstrim blanks login = sdstrim blanks configured) :
    Moves (Utters c) (Commands.sendLoginCommand login) := by
  have hset : Moves (Utters c) (modify fun s : LineSession =>
      { s with loginCommand := some (sdstrim blanks login) } : HandlerM PUnit) := by
    refine utters_modify (fun s hs => { hs with login := ?_ }) (fun _ => rfl) fun _ => rfl
    rw [Option.map_some, sdstrim_sdstrim, h, hlogin]
    rfl
  have hline : Answer c
      (snprintf 1024 (privmsg ((sdstrim blanks login).take 9) ((sdstrim blanks login).drop 9))) := by
    rw [h]
    exact .login hlogin
  exact (utters_frame c).bind hset fun _ => moves_ite (utters_send hline) ((utters_frame c).pure _)

theorem utters_onConnectEvent : Moves (Utters c) Commands.onConnectEvent := by
  intro s hs
  have hget : (get : HandlerM LineSession).run s = .ok s s := rfl
  unfold Commands.onConnectEvent
  rw [endState_bind_of_ok hget]
  cases hdone : s.onConnectEventDone with
  | true =>
    rw [if_pos rfl]
    exact (utters_frame c).pure _ s hs
  | false =>
    rw [if_neg Bool.false_ne_true]
    cases hlogin : s.loginCommand with
    | some login =>
      have hkept := hs.login
      rw [hlogin] at hkept
      obtain ⟨configured, hconfigured, heq⟩ := Option.map_eq_some_iff.mp hkept.symm
      have hmark : Moves (Utters c)
          (modify fun s : LineSession => { s with onConnectEventDone := true } : HandlerM PUnit) := by
        refine moves_modify fun t ht => ⟨{ ht with }, [], .nil rfl rfl rfl, by simp, fun hnone => ?_⟩
        rw [hnone] at hconfigured
        cases hconfigured
      exact (utters_frame c).bind (utters_sendLoginCommand hconfigured heq.symm) (fun _ => hmark) s hs
    | none =>
      obtain ⟨client, l, hrun, hcfg, hadds, hl⟩ := joins_of_channels s.channelsToJoin s
      have hjoined : Commands.joinChannels.run s = .ok ⟨⟩ { s with client := client } := hrun
      have hkept : Kept c { s with client := client } := kept_client hs (by rw [hcfg]) (by rw [hcfg])
      dsimp only
      rw [endState_bind_of_ok hjoined]
      refine ⟨{ hkept with }, l, hadds, vocabulary_of_joins hs.channels hl, fun _ => Or.inr ?_⟩
      rw [← hs.channels]
      exact ⟨hdone, rfl, (List.filter_sublist).trans hl⟩

end session

section loops
variable {c : Setup}

theorem speaks_get_bind {α : Type} {f : Loop → LoopM α}
    (h : ∀ s, Kept c s.session → Moves (Speaks c) (f s)) : Moves (Speaks c) (get >>= f) :=
  fun s hs => h s hs s hs

theorem speaks_onSession {α : Type} {x : HandlerM α} (h : Moves (Utters c) x) :
    Moves (Speaks c) (onSession x) := by
  intro s hs
  have hend : endState (onSession x) s = { s with session := endState x s.session } :=
    endState_zoom _ _ _ x s
  obtain ⟨hkept, hsaid⟩ := h s.session hs
  rw [hend]
  exact ⟨hkept, rfl, hsaid⟩

theorem speaks_send {text : Bytes} (h : Answer c (snprintf 1024 text)) :
    Moves (Speaks c) (onSession (send text)) := speaks_onSession (utters_send h)

theorem speaks_setLine (f : LineState → LineState) : Moves (Speaks c) (onSession (setLine f)) :=
  speaks_onSession (utters_setLine f)

theorem speaks_modify {f : Loop → Loop} (hsession : ∀ s, (f s).session = s.session)
    (hwritten : ∀ s, (f s).written = s.written) : Moves (Speaks c) (modify f : LoopM PUnit) := by
  refine moves_modify fun s hs => ?_
  obtain ⟨hkept, hsaid⟩ := (utters_frame c).refl s.session hs
  rw [hsession]
  exact ⟨hkept, hwritten s, hsaid⟩

theorem speaks_of_still {α : Type} {x : LoopM α} (h : Moves (fun s t => t = s) x) :
    Moves (Speaks c) x := by
  refine h.mono fun s t heq => ?_
  rw [heq]
  exact (speaks_frame c).refl s

theorem speaks_deref (p : Option Str) : Moves (Speaks c) (deref p) := speaks_of_still (still_deref p)

theorem speaks_param (i : ℕ) : Moves (Speaks c) (param i) := speaks_of_still (still_param i)

theorem speaks_dumpEvent : Moves (Speaks c) dumpEvent :=
  (speaks_frame c).get_bind fun _ =>
    (speaks_frame c).forM (fun cnt => moves_discard (speaks_param cnt)) _

theorem speaks_onEvent (e : DccEvents.Event) : Moves (Speaks c) (onEvent e) := by
  intro s hs
  have hsaid : Says (Answer c) s.session.client (DccEvents.step s.session.client e) := by
    by_cases hrequest : ∀ env from_ req, e ≠ .request env from_ req
    · have hcarries : Carries (Says (Answer c)) none fun _ => True := says_carries .quit (by simp)
      exact hcarries.step says_acknowledged hrequest s.session.client
    · simp only [not_forall, not_not] at hrequest
      obtain ⟨env, from_, req, rfl⟩ := hrequest
      refine (says_bears .quit).step_request env from_ req (fun _ _ => trivial) fun hvalid => ?_
      exact says_carries .quit fun n hn reply hreply => .dcc (permitted_of_valid hs hvalid n hn) hreply
  have hcfg := TableChanges.cfg_step s.session.client e
  obtain ⟨l, hadds, hl⟩ := hsaid
  rw [endState_onEvent]
  exact ⟨kept_client hs (by rw [hcfg]) (by rw [hcfg]), rfl, l, hadds,
    fun text htext => .answer (hl text htext), joined_of_answers rfl hl⟩

theorem speaks_askBot {d : DccDownload} (h : (d.botNick, d.xdccCmd) ∈ requests c.cfg) :
    Moves (Speaks c) (askBot d) :=
  (speaks_frame c).bind (speaks_onSession (utters_onClient_send (.request h))) fun _ =>
    speaks_modify (fun _ => rfl) fun _ => rfl

theorem speaks_sendXdccRequests : Moves (Speaks c) sendXdccRequests := by
  have hset : Moves (Speaks c) (onSession (modify fun t : LineSession => { t with sended := true })) :=
    speaks_onSession (utters_modify (fun _ hs => { hs with }) (fun _ => rfl) fun _ => rfl)
  refine speaks_get_bind fun s hs => moves_ite ?_ ((speaks_frame c).pure _)
  refine (speaks_frame c).bind ((speaks_frame c).forM_of_mem fun d hd => speaks_askBot ?_) fun _ => hset
  rw [← hs.requests]
  exact List.mem_map.mpr ⟨d, hd, rfl⟩

theorem speaks_eventConnect : Moves (Speaks c) eventConnect :=
  (speaks_frame c).bind speaks_dumpEvent fun _ => speaks_onSession utters_onConnectEvent

theorem speaks_eventNumeric (code : ℕ) : Moves (Speaks c) (eventNumeric code) :=
  (speaks_frame c).get_bind fun _ => moves_ite
    ((speaks_frame c).bind speaks_dumpEvent fun _ => moves_discard (speaks_param 1))
    ((speaks_frame c).pure _)

theorem speaks_eventJoin : Moves (Speaks c) eventJoin :=
  (speaks_frame c).get_bind fun s =>
    (speaks_frame c).bind (speaks_send (.userMode s.session.nick)) fun _ =>
      moves_ite speaks_sendXdccRequests ((speaks_frame c).pure _)

theorem speaks_eventMode : Moves (Speaks c) eventMode :=
  (speaks_frame c).get_bind fun _ => moves_ite
    ((speaks_frame c).bind (speaks_param 1) fun _ =>
      moves_ite speaks_sendXdccRequests ((speaks_frame c).pure _))
    ((speaks_frame c).pure _)

/-- The mode `+r` counts only where a login command is configured. -/
theorem speaks_eventUmode : Moves (Speaks c) eventUmode := by
  refine speaks_get_bind fun s hs => ?_
  dsimp only
  by_cases hlogin : s.session.loginCommand.isSome
  · have hsome : c.loginCommand ≠ none := by
      intro hnone
      have hkept := hs.login
      rw [hnone, Option.map_none, Option.map_eq_none_iff] at hkept
      rw [hkept] at hlogin
      cases hlogin
    exact moves_ite ((speaks_frame c).bind (speaks_param 0) fun _ =>
      moves_ite (speaks_onSession (utters_joinChannels hsome)) ((speaks_frame c).pure _))
      ((speaks_frame c).pure _)
  · rw [if_neg hlogin]
    exact (speaks_frame c).pure _

theorem speaks_useMD5 (md5 : Bytes) : Moves (Speaks c) (useMD5 md5) := by
  have hkeep : Moves (Utters c) (Commands.onClient (modify fun client : Client =>
      { client with cfg := keepMD5 md5 client.cfg })) := by
    intro s hs
    refine ⟨kept_client hs (requests_keepMD5 md5 s.client.cfg) rfl, [], .nil rfl rfl rfl, by simp, ?_⟩
    exact joined_of_answers rfl (by simp)
  have hcheck (path : Option Bytes) :
      Moves (Utters c) (Commands.onClient (record (.startChecksum md5 path))) := by
    intro s hs
    have htexts : queuedTexts (s.client.trace ++ [.startChecksum md5 path]) =
        queuedTexts s.client.trace := by simp [queuedTexts, queuedText]
    exact ⟨kept_client hs rfl rfl, [], .nil rfl rfl htexts, by simp, joined_of_answers rfl (by simp)⟩
  refine (speaks_frame c).get_bind fun s => ?_
  dsimp only
  cases s.session.client.lastDownload with
  | none => exact moves_ite (speaks_onSession hkeep) ((speaks_frame c).pure _)
  | some context => exact speaks_onSession (hcheck _)

theorem speaks_checkMD5ChecksumNotice (event : Bytes) :
    Moves (Speaks c) (checkMD5ChecksumNotice event) := by
  refine (speaks_frame c).get_bind fun _ => moves_ite ((speaks_frame c).pure _)
    ((speaks_frame c).bind (speaks_param 1) fun text => ?_)
  cases Commands.extractMD5 text with
  | none => exact (speaks_frame c).pure _
  | some md5 => exact speaks_useMD5 md5

theorem speaks_checkConnectedEvent (event : Bytes) : Moves (Speaks c) (checkConnectedEvent event) :=
  (speaks_frame c).get_bind fun _ => moves_ite ((speaks_frame c).pure _)
    ((speaks_frame c).bind (speaks_param 1) fun _ =>
      moves_ite (speaks_onSession utters_onConnectEvent) ((speaks_frame c).pure _))

theorem speaks_eventNotice (event : Bytes) : Moves (Speaks c) (eventNotice event) :=
  (speaks_frame c).bind speaks_dumpEvent fun _ =>
    (speaks_frame c).bind (speaks_checkMD5ChecksumNotice event) fun _ =>
      speaks_checkConnectedEvent event

end loops

section handlers
variable {c : Setup} {answers : Answers}

theorem ctcpAnswer_of_reply {s : LineSession} (hs : Kept c s) {request reply : Bytes}
    (h : ctcpReply answers.env s request = some reply) : CtcpAnswer reply := by
  unfold ctcpReply at h
  split_ifs at h with hping
  · rw [← Option.some.inj h]
    exact .ping hping
  · rw [← Option.some.inj h]
    exact .version
  · rw [← Option.some.inj h, hs.username, hs.realname]
    exact .finger
  · rw [← Option.some.inj h]
    exact .time answers

theorem speaks_libircEventCtcpInternal : Moves (Speaks c) (libircEventCtcpInternal answers.env) := by
  refine speaks_get_bind fun s hs => ?_
  dsimp only [handling_deref]
  cases s.session.line.result.host with
  | none => exact (speaks_frame c).pure _
  | some origin =>
    refine (speaks_frame c).bind (speaks_deref _) fun target => ?_
    refine (speaks_frame c).bind (speaks_param 0) fun request => ?_
    cases hreply : ctcpReply answers.env s.session request with
    | none => exact (speaks_frame c).pure _
    | some reply => exact speaks_send (.ctcp _ (ctcpAnswer_of_reply hs hreply))

theorem speaks_handleCtcpRequest : Moves (Speaks c) (handleCtcpRequest answers.env) := by
  refine (speaks_frame c).bind (speaks_param 1) fun text => moves_ite ?_ (moves_ite ?_ ?_)
  · exact (speaks_frame c).get_bind fun s => speaks_onEvent _
  · exact (speaks_frame c).bind (speaks_setLine _) fun _ => speaks_dumpEvent
  · exact (speaks_frame c).bind (speaks_setLine _) fun _ => speaks_libircEventCtcpInternal

theorem speaks_ircPingCommand : Moves (Speaks c) ircPingCommand :=
  (speaks_frame c).get_bind fun _ => moves_ite ((speaks_frame c).pure _)
    ((speaks_frame c).bind (speaks_param 0) fun text => speaks_send (.pong text))

theorem speaks_take (a : Taken) : Moves (Speaks c) (take a) := speaks_modify (fun _ => rfl) fun _ => rfl

theorem speaks_ircNickCommand : Moves (Speaks c) ircNickCommand := by
  have hset (nick : Bytes) :
      Moves (Speaks c) (onSession (modify fun t : LineSession => { t with nick := nick })) :=
    speaks_onSession (utters_modify (fun _ hs => { hs with }) (fun _ => rfl) fun _ => rfl)
  exact (speaks_frame c).get_bind fun _ => (speaks_frame c).bind (speaks_deref _) fun _ =>
    moves_ite ((speaks_frame c).bind (speaks_param 0) fun nick => hset nick) ((speaks_frame c).pure _)

theorem speaks_ircModeCommand : Moves (Speaks c) ircModeCommand :=
  (speaks_frame c).get_bind fun _ => moves_ite
    ((speaks_frame c).bind (speaks_param 0) fun _ => moves_ite
      ((speaks_frame c).bind (speaks_take _) fun _ =>
        (speaks_frame c).bind (speaks_setLine _) fun _ => speaks_eventUmode)
      speaks_eventMode)
    speaks_eventMode

theorem speaks_ircPrivmsgCommand : Moves (Speaks c) (ircPrivmsgCommand answers.env) :=
  (speaks_frame c).get_bind fun _ => moves_ite ((speaks_frame c).pure _)
    ((speaks_frame c).bind (speaks_param 1) fun _ =>
      moves_ite speaks_handleCtcpRequest
        ((speaks_frame c).bind (speaks_param 0) fun _ =>
          moves_ite ((speaks_frame c).bind (speaks_take _) fun _ => speaks_dumpEvent)
            ((speaks_frame c).pure _)))

theorem speaks_ircNoticeCommand (event : Bytes) : Moves (Speaks c) (ircNoticeCommand event) :=
  (speaks_frame c).bind (speaks_param 1) fun _ => (speaks_frame c).get_bind fun _ =>
    moves_ite
      ((speaks_frame c).bind (speaks_setLine _) fun _ => speaks_dumpEvent)
      ((speaks_frame c).bind (speaks_param 0) fun _ =>
        moves_ite ((speaks_frame c).bind (speaks_take _) fun _ => speaks_eventNotice event)
          ((speaks_frame c).pure _))

theorem speaks_execute (command : Bytes) (handler : IrcCommand) :
    Moves (Speaks c) (execute answers.env command handler) := by
  cases handler with
  | ping => exact speaks_ircPingCommand
  | nick => exact speaks_ircNickCommand
  | join => exact speaks_eventJoin
  | mode => exact speaks_ircModeCommand
  | privmsg => exact speaks_ircPrivmsgCommand
  | notice => exact speaks_ircNoticeCommand command
  | unknown => exact speaks_dumpEvent
  | quit | part | topic | kick | invite | kill => exact (speaks_frame c).pure _

theorem speaks_dispatch (d : Commands.Dispatch) :
    Moves (Speaks c) (onSession (Commands.dispatch d)) :=
  speaks_onSession (utters_modify (fun _ hs => { hs with }) (fun _ => rfl) fun _ => rfl)

theorem speaks_handleNumeric (command : Bytes) : Moves (Speaks c) (handleNumeric command) := by
  have hset : Moves (Speaks c)
      (onSession (modify fun t : LineSession => { t with motdReceived := true })) :=
    speaks_onSession (utters_modify (fun _ hs => { hs with }) (fun _ => rfl) fun _ => rfl)
  have hconnect : Moves (Speaks c) (connectOnMotd (digitsValue command)) :=
    (speaks_frame c).get_bind fun _ => moves_ite
      ((speaks_frame c).bind hset fun _ => speaks_eventConnect) ((speaks_frame c).pure _)
  exact (speaks_frame c).bind hconnect fun _ =>
    (speaks_frame c).bind (speaks_dispatch _) fun _ => speaks_eventNumeric _

theorem speaks_handleParserResult : Moves (Speaks c) (handleParserResult answers.env) := by
  refine (speaks_frame c).get_bind fun s => ?_
  dsimp only
  cases s.session.line.result.command with
  | none => exact (speaks_frame c).pure _
  | some command =>
    exact moves_ite (speaks_handleNumeric command.text)
      ((speaks_frame c).bind (speaks_dispatch _) fun _ => speaks_execute _ _)

theorem speaks_runCalls (calls : List LineWords.Call) :
    Moves (Speaks c) (runCalls answers.env calls) := by
  induction calls with
  | nil => exact (speaks_frame c).pure _
  | cons call calls ih =>
    obtain ⟨cb, text⟩ := call
    cases cb with
    | onEnd => exact (speaks_frame c).bind speaks_handleParserResult fun _ => ih
    | _ =>
      refine (speaks_frame c).bind ?_ fun _ => ih
      exact speaks_setLine fun st => LineParser.onCall st _

theorem speaks_process (line : Bytes) :
    Moves (Speaks c) (libircProcessIncomingData answers.env line) := by
  refine (speaks_frame c).get_bind fun _ => ?_
  dsimp only [handling_onSession]
  refine (speaks_frame c).bind (speaks_onSession ?_) fun _ => ?_
  · exact utters_modify (fun _ hs => { hs with }) (fun _ => rfl) fun _ => rfl
  · exact (speaks_frame c).bind (speaks_runCalls _) fun _ => speaks_setLine _

theorem speaks_printOutputCallback (flag : Bool) : Moves (Speaks c) (printOutputCallback flag) := by
  have hevent : Moves (Speaks c) (if flag then onEvent .outputTimer else pure ⟨⟩ : LoopM Unit) :=
    moves_ite (speaks_onEvent _) ((speaks_frame c).pure _)
  exact (speaks_frame c).get_bind fun _ =>
    moves_ite ((speaks_frame c).bind speaks_sendXdccRequests fun _ => hevent) hevent

end handlers

/-- `NICK` and `USER`, as the client is configured. -/
def greeting (c : Setup) : List Bytes := registration c.start.session

/-- The client has greeted, unless it has said nothing, and keeps to the vocabulary since. -/
structure Spoken (c : Setup) (s : Loop) : Prop where
  kept : Kept c s.session
  wire : s.written ++ s.session.client.net.outgoing = onWire (queuedTexts s.session.client.trace)
  connecting : s.session.client.net.state = .connecting →
    s.session.nick = cstr c.nick ∧ queuedTexts s.session.client.trace = []
  connected : s.session.client.net.state = .connected → queuedTexts s.session.client.trace ≠ []
  texts : queuedTexts s.session.client.trace = [] ∨ ∃ rest,
    queuedTexts s.session.client.trace = greeting c ++ rest ∧ ∀ text ∈ rest, Vocabulary c text
  joins : c.loginCommand = none →
    ((queuedTexts s.session.client.trace).filter isJoin).Sublist (c.channelsToJoin.map joinLine) ∧
      (s.session.onConnectEventDone = false →
        (queuedTexts s.session.client.trace).filter isJoin = [])

section runs
variable {c : Setup} {s t : Loop} {e : LoopEvent}

theorem Spoken.speak (h : Spoken c s) (hspeaks : Speaks c s t)
    (hnick : t.session.client.net.state = .connecting → t.session.nick = s.session.nick) :
    Spoken c t := by
  obtain ⟨hkept, hwritten, l, hadds, hl, hjoined⟩ := hspeaks h.kept
  refine ⟨hkept, ?_, fun hstate => ?_, fun hstate => ?_, ?_, fun hlogin => ?_⟩
  · rw [hwritten, hadds.outgoing, hadds.texts, ← List.append_assoc, h.wire]
    exact List.flatMap_append.symm
  · have hbefore := hadds.state.symm.trans hstate
    obtain ⟨hconfigured, hnone⟩ := h.connecting hbefore
    refine ⟨(hnick hstate).trans hconfigured, ?_⟩
    rw [hadds.texts, hnone, hadds.silent (by rw [hbefore]; decide)]
    rfl
  · rw [hadds.texts]
    intro hnil
    exact h.connected (hadds.state.symm.trans hstate) (List.append_eq_nil_iff.mp hnil).1
  · by_cases hstate : s.session.client.net.state = .connected
    · rcases h.texts with hnone | ⟨rest, htexts, hrest⟩
      · exact absurd hnone (h.connected hstate)
      · refine Or.inr ⟨rest ++ l, by rw [hadds.texts, htexts, List.append_assoc], fun text htext => ?_⟩
        rcases List.mem_append.mp htext with htext | htext
        · exact hrest text htext
        · exact hl text htext
    · rw [hadds.texts, hadds.silent hstate, List.append_nil]
      exact h.texts
  · obtain ⟨hjoins, hnew⟩ := h.joins hlogin
    rw [hadds.texts, List.filter_append]
    rcases hjoined hlogin with ⟨hdone, hnone⟩ | ⟨hundone, hdone, hsub⟩
    · rw [hnone, List.append_nil, hdone]
      exact ⟨hjoins, hnew⟩
    · rw [hnew hundone]
      exact ⟨hsub, fun hfalse => absurd (hdone.symm.trans hfalse) (by decide)⟩

theorem Spoken.disconnect (h : Spoken c s) (err : ℕ) :
    Spoken c (endState (onSession (setState .disconnected err)) s) where
  kept := kept_client h.kept rfl rfl
  wire := h.wire
  connecting hstate := by cases hstate
  connected hstate := by cases hstate
  texts := h.texts
  joins := h.joins

theorem adds_of_room (texts : List Bytes) (hstate : s.session.client.net.state = .connected)
    (hroom : s.session.client.net.outgoing.length + (onWire texts).length < libircBufferSize)
    (hwhole : ∀ text ∈ texts, snprintf 1024 text = text) :
    ∃ client, (texts.forM fun text => onSession (send text)).run s =
        .ok ⟨⟩ { s with session := { s.session with client := client } } ∧
      client.cfg = s.session.client.cfg ∧ Adds s.session.client client texts := by
  induction texts generalizing s with
  | nil => exact ⟨s.session.client, rfl, rfl, .nil rfl rfl rfl⟩
  | cons text texts ih =>
    have htext := hwhole text List.mem_cons_self
    have hwire : (onWire (text :: texts)).length = text.length + 2 + (onWire texts).length := by
      rw [onWire, List.flatMap_cons, List.length_append, List.length_append]
      rfl
    have haccepts : accepts s.session.client.net text = true := by
      simp only [accepts, htext, hstate, Bool.and_eq_true, decide_eq_true_eq]
      exact ⟨trivial, by omega⟩
    have hadds := adds_sentClient s.session.client text
    rw [if_pos haccepts, htext] at hadds
    let u : Loop :=
      { s with session := { s.session with client := sentClient s.session.client text } }
    have hlength : u.session.client.net.outgoing.length =
        s.session.client.net.outgoing.length + (text.length + 2) := by
      rw [hadds.outgoing]
      simp [onWire]
    obtain ⟨client, hrun, hcfg, hmore⟩ := @ih u (hadds.state.trans hstate) (by omega)
      fun other hother => hwhole other (List.mem_cons_of_mem text hother)
    have hsend : (onSession (send text)).run s = .ok ⟨⟩ u := by
      rw [onSession, zoom_run, send_run]
    have hcons : ((text :: texts).forM fun text => onSession (send text)) =
        (onSession (send text) >>= fun _ => texts.forM fun text => onSession (send text)) := rfl
    refine ⟨client, ?_, hcfg, hadds.append hmore⟩
    rw [hcons, run_bind_of_ok hsend, hrun]

theorem whole_greeting (hpercent : percent ∉ c.nick) : (onWire (greeting c)).length < 1024 ∧
    ∀ text ∈ greeting c, snprintf 1024 text = text ∧ percent ∉ text := by
  have hnick : percent ∉ cstr c.nick := fun hmem => hpercent ((List.takeWhile_sublist _).mem hmem)
  have hline {line : Bytes} (hnone : percent ∉ line) :
      snprintf 1024 (snprintf 256 line) = snprintf 256 line ∧ percent ∉ snprintf 256 line := by
    have hcstr {x : UInt8} (hmem : x ∈ snprintf 256 line) : x ∈ cstr line := List.mem_of_mem_take hmem
    have hlength := Registration.length_snprintf_256 line
    have hnul : nul ∉ snprintf 256 line := fun hmem => nul_not_mem_cstr line (hcstr hmem)
    refine ⟨Registration.snprintf_of_short hnul (by omega), ?_⟩
    exact fun hmem => hnone ((List.takeWhile_sublist _).mem (hcstr hmem))
  have hlines : ∃ a b, percent ∉ a ∧ percent ∉ b ∧ greeting c = [snprintf 256 a, snprintf 256 b] := by
    refine ⟨_, _, ?_, ?_, rfl⟩
    · rw [List.mem_append, not_or]
      exact ⟨by decide, hnick⟩
    · simp only [List.mem_append, not_or]
      exact ⟨⟨⟨⟨⟨by decide, hnick⟩, by decide⟩, hnick⟩, by decide⟩,
        (by decide : percent ∉ bytes "realname")⟩
  obtain ⟨a, b, ha, hb, hgreeting⟩ := hlines
  have hlength := Registration.length_snprintf_256 a
  have hlength' := Registration.length_snprintf_256 b
  rw [hgreeting]
  refine ⟨?_, fun text htext => ?_⟩
  · simp only [onWire, List.flatMap_cons, List.flatMap_nil, List.length_append, List.length_cons,
      List.length_nil]
    omega
  · rcases List.mem_cons.mp htext with rfl | htext
    · exact hline ha
    · rw [List.mem_singleton.mp htext]
      exact hline hb

theorem greeting_not_join (c : Setup) : (greeting c).filter isJoin = [] := rfl

theorem spoken_connected (h : Spoken c s) (hpercent : percent ∉ c.nick)
    (hstate : s.session.client.net.state = .connecting) (format : Format) :
    Spoken c (endState (handleConnectingState true format) s) := by
  obtain ⟨hnick, hnone⟩ := h.connecting hstate
  obtain ⟨hshort, hwhole⟩ := whole_greeting hpercent
  have hempty : s.session.client.net.outgoing = [] := by
    have hwire := h.wire
    rw [hnone] at hwire
    exact (List.append_eq_nil_iff.mp hwire).2
  have hregistration : registration s.session = greeting c := by
    unfold greeting registration
    rw [hnick, h.kept.realname]
    rfl
  let t := endState (onSession (setState .connected s.session.client.net.lasterror)) s
  have hroom : t.session.client.net.outgoing.length + (onWire (greeting c)).length <
      libircBufferSize := by
    have hout : t.session.client.net.outgoing = [] := hempty
    have hsize : libircBufferSize = 2048 := rfl
    rw [hout, List.length_nil]
    omega
  have hkept : Kept c t.session := kept_client h.kept rfl rfl
  obtain ⟨client, hrun, hcfg, hadds⟩ :=
    @adds_of_room t (greeting c) rfl hroom fun text htext => (hwhole text htext).1
  have hrendered : ((registration s.session).forM fun buf =>
      onSession (send (format.render buf))).run t =
      .ok ⟨⟩ { t with session := { t.session with client := client } } := by
    have hplain {buf : Bytes} (hbuf : buf ∈ greeting c) : format.render buf = buf :=
      format.plain buf (hwhole buf hbuf).2
    rw [← hrun, hregistration]
    change (onSession (send (format.render _)) >>= fun _ =>
      onSession (send (format.render _)) >>= fun _ => pure ⟨⟩ : LoopM PUnit).run t = _
    rw [hplain List.mem_cons_self, hplain (List.mem_cons_of_mem _ List.mem_cons_self)]
    rfl
  have hget : (get : LoopM Loop).run s = .ok s s := rfl
  have hset : (onSession (setState .connected s.session.client.net.lasterror)).run s = .ok ⟨⟩ t := rfl
  have hend : endState (handleConnectingState true format) s =
      { t with session := { t.session with client := client } } := by
    unfold handleConnectingState
    rw [endState_bind_of_ok hget, if_pos rfl, endState_bind_of_ok hset, endState_of_ok hrendered]
  have htexts : queuedTexts client.trace = greeting c := by
    rw [hadds.texts]
    change queuedTexts s.session.client.trace ++ _ = _
    rw [hnone]
    rfl
  rw [hend]
  refine ⟨kept_client hkept (by rw [hcfg]) (by rw [hcfg]), ?_, fun hconnecting => ?_,
    fun _ => ?_, ?_, ?_⟩
  · change s.written ++ client.net.outgoing = _
    have hwire := h.wire
    have hout : t.session.client.net.outgoing = s.session.client.net.outgoing := rfl
    rw [hadds.outgoing, hout, ← List.append_assoc, hwire, htexts, hnone]
    rfl
  · cases hadds.state.symm.trans hconnecting
  · rw [htexts]
    exact List.cons_ne_nil _ _
  · exact Or.inr ⟨[], by rw [htexts, List.append_nil], by simp⟩
  · intro _
    rw [htexts, greeting_not_join]
    exact ⟨List.nil_sublist _, fun _ => rfl⟩

def AtConnection : LoopEvent → Prop
  | .connecting _ _ => True
  | .writable _ => True
  | .closed => True
  | _ => False

theorem speaks_handle {e : LoopEvent} (h : ¬ AtConnection e) : Moves (Speaks c) (handle e) := by
  cases e with
  | clock now => exact speaks_modify (fun _ => rfl) fun _ => rfl
  | keepAlive flag => exact speaks_printOutputCallback flag
  | line answers block => exact speaks_process block.line
  | socket dccid ready => exact speaks_onEvent _
  | addDescriptors => exact speaks_onEvent _
  | interrupt =>
    have hquit : Answer c (snprintf 1024 quitLine) := by
      have htext : snprintf 1024 quitLine = quitLine := by decide +kernel
      rw [htext]
      exact .quit
    exact speaks_send hquit
  | connecting | writable | closed => exact absurd trivial h

theorem spoken_of_speaks (h : Spoken c s) (hidle : idle s e = false) (hturn : ¬ AtConnection e)
    (hnick : ∀ answers block, e = .line answers block → s.session.client.net.state = .connected) :
    Spoken c (endState (handle e) s) := by
  have hspeaks : Speaks c s (endState (handle e) s) := speaks_handle hturn s
  refine h.speak hspeaks fun hconnecting => ?_
  by_cases hline : ∀ answers block, e ≠ .line answers block
  · have hstep := step_endState hidle
    have houter := (step_outer hline s).untaken.nick
    generalize step s e = u at hstep houter
    cases hstep with
    | same => exact houter
    | halted fault => exact houter
  · simp only [not_forall, not_not] at hline
    obtain ⟨answers, block, heq⟩ := hline
    obtain ⟨-, -, l, hadds, -⟩ := hspeaks h.kept
    rw [hadds.state, hnick answers block heq] at hconnecting
    cases hconnecting

theorem spoken_handle (h : Spoken c s) (hpercent : percent ∉ c.nick) (hidle : idle s e = false) :
    Spoken c (endState (handle e) s) := by
  have hreaches : reaches s.session.client.net.state e = true := by
    unfold idle at hidle
    simp only [Bool.or_eq_false_iff, Bool.not_eq_false'] at hidle
    exact hidle.2
  cases e with
  | connecting peer format =>
    have hstate : s.session.client.net.state = .connecting := by simpa [reaches] using hreaches
    cases peer with
    | true => exact spoken_connected h hpercent hstate format
    | false => exact h.disconnect libircErrConnect
  | writable length =>
    refine ⟨kept_client h.kept rfl rfl, ?_, h.connecting, h.connected, h.texts, h.joins⟩
    have hsplit : (s.written ++ s.session.client.net.outgoing.take length) ++
        s.session.client.net.outgoing.drop length = s.written ++ s.session.client.net.outgoing := by
      rw [List.append_assoc, List.take_append_drop]
    exact hsplit.trans h.wire
  | closed => exact h.disconnect _
  | line answers block =>
    exact spoken_of_speaks h hidle id fun _ _ _ => by simpa [reaches] using hreaches
  | clock | keepAlive | socket | addDescriptors | interrupt =>
    exact spoken_of_speaks h hidle id (by simp)

theorem spoken_step (h : Spoken c s) (hpercent : percent ∉ c.nick) (e : LoopEvent) :
    Spoken c (step s e) := by
  cases hidle : idle s e with
  | true =>
    rw [step_of_idle hidle]
    exact h
  | false =>
    have hend := spoken_handle h hpercent hidle
    have hstep := step_endState hidle
    generalize step s e = u at hstep ⊢
    cases hstep with
    | same => exact hend
    | halted fault =>
      exact ⟨{ hend.kept with }, hend.wire, hend.connecting, hend.connected, hend.texts, hend.joins⟩

theorem spoken_start (c : Setup) : Spoken c c.start where
  kept := ⟨rfl, rfl, rfl, rfl, rfl, rfl⟩
  wire := rfl
  connecting _ := ⟨rfl, rfl⟩
  connected hstate := by cases hstate
  texts := Or.inl rfl
  joins _ := ⟨List.nil_sublist _, fun _ => rfl⟩

theorem spoken_run (hpercent : percent ∉ c.nick) (events : List LoopEvent) :
    Spoken c (run step c.start events) := by
  have hstep : ∀ s e, Spoken c s → Spoken c (step s e) := fun _ e hs => spoken_step hs hpercent e
  exact run_invariant hstep (spoken_start c) events

end runs

/-- Whatever comes in, what the client has written and what waits is its registration and then
    lines of its vocabulary, with a CRLF behind each. -/
theorem speaks_its_vocabulary (c : Setup) (h : percent ∉ c.nick) (events : List LoopEvent) :
    let s := run step c.start events
    let texts := queuedTexts s.session.client.trace
    s.written ++ s.session.client.net.outgoing = onWire texts ∧
      (texts = [] ∨ ∃ rest, texts = greeting c ++ rest ∧ ∀ text ∈ rest, Vocabulary c text) := by
  have hrun := spoken_run h events
  exact ⟨hrun.wire, hrun.texts⟩

/-- A request for the version, and one of a bot that no download is requested from. -/
def strangerLines : List LoopEvent :=
  [connects,
    .line readyAnswers ⟨bytes ":x!u@h PRIVMSG me :\x01VERSION\x01\x0d\x0a", by decide +kernel⟩,
    .line readyAnswers
      ⟨bytes ":x!u@h PRIVMSG me :\x01DCC SEND f 1 0 9 7\x01\x0d\x0a", by decide +kernel⟩]

theorem vocabulary_of_strangers :
    let s := run step botSetup.start strangerLines
    let texts := queuedTexts s.session.client.trace
    s.written ++ s.session.client.net.outgoing = onWire texts ∧
      (texts = [] ∨
        ∃ rest, texts = greeting botSetup ++ rest ∧ ∀ text ∈ rest, Vocabulary botSetup text) :=
  speaks_its_vocabulary botSetup (by decide) strangerLines

/-- Without a login command the channels are joined in the order of the list and no entry of it
    twice, whatever the server does. -/
theorem joins_once (c : Setup) (h : percent ∉ c.nick) (hlogin : c.loginCommand = none)
    (events : List LoopEvent) :
    ((queuedTexts (run step c.start events).session.client.trace).filter isJoin).Sublist
      (c.channelsToJoin.map joinLine) :=
  ((spoken_run h events).joins hlogin).1

def welcomedTwice : List LoopEvent :=
  [connects, .line readyAnswers ⟨bytes ":s 376 me :End\x0d\x0a", by decide +kernel⟩,
    .line readyAnswers ⟨bytes ":s 376 me :End\x0d\x0a", by decide +kernel⟩]

theorem joins_once_welcomed :
    ((queuedTexts (run step botSetup.start welcomedTwice).session.client.trace).filter isJoin).Sublist
      (botSetup.channelsToJoin.map joinLine) :=
  joins_once botSetup (by decide) rfl welcomedTwice

end Xdccget.SpokenLines
