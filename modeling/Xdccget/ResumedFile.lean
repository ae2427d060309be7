import Xdccget.DownloadTurns
import Xdccget.ResumeAddressing

set_option autoImplicit false

/-!
# The file of a resumed download

The file is opened for appending, so what the bot sends goes behind what is there,
whatever position it acknowledged.
-/
namespace Xdccget.ResumedFile
open CText DccMessages DccAccepts ClientState DccSessions Downloads DccEvents HaltingPrograms
  SessionSpecs DownloadSpecs EventSpecs TableChanges StepRuns SessionCallbacks CallbackSteps
  ResumeAddressing DownloadTurns

/-- An offer of the file `F` from a permitted nick, of which the first `n` bytes are there, and
    nothing that it asks of the system fails. -/
structure PartlyThere (s : Client) (env : Env) (nick : Option Bytes) (req filename F : Bytes)
    (n port : ℕ) (ssl : Bool) : Prop where
  running : s.halted = none
  permitted : isValidRequestFromNick s.cfg nick = some true
  offered : ∃ ip, dccRequestCall true req = .acceptDccSend filename ip F.length port ssl
  startable : Startable env filename ssl s
  opened : env.fopen = true
  size_lt : F.length < 2 ^ 64
  le : n ≤ F.length
  content : s.files (getCompletePath s.cfg filename) = some (F.take n)

/-- The client when the offer has its session, its context and its open file. -/
def offerStarted (s : Client) (env : Env) (net : Net) (sock ip port : ℕ) (ssl : Bool)
    (filename : Bytes) (size : ℕ) : Client :=
  started (withSession s net (newSession s.dccLastId sock ip port none ssl)) env filename size true

def acceptOrResume (env : Env) (nick : Option Bytes) (size id context n : ℕ) : ClientM Unit :=
  if size = n then exitPgm
  else if n = 0 then exitOnFailure (ircDccAccept env id (some context) .callbackDccRecvFile)
  else exitOnFailure (ircDccResume id (some context) .callbackDccResumeFile nick n)

section offer
variable {s : Client} {env : Env} {nick : Option Bytes} {req filename F : Bytes} {n port : ℕ}
  {ssl : Bool}

theorem handle_of_partlyThere (h : PartlyThere s env nick req filename F n port ssl) :
    ∃ net sock ip, (handle (.request env nick req)).run s =
      (do
        acceptOrResume env nick F.length s.dccLastId s.downloadContext.length n
        modifySession s.dccLastId fun d => { d with receivedFileSize := F.length }).run
        (offerStarted s env net sock ip port ssl filename F.length) := by
  obtain ⟨ip, hcall⟩ := h.offered
  have hget : (get : ClientM Client).run s = .ok s s := rfl
  have hlength : (F.take n).length = n := List.length_take_of_le h.le
  obtain ⟨sock, net, hnew⟩ := libircNewDccSession_run_of_canOpen h.startable.1 ip port none
  refine ⟨net, sock, ip, ?_⟩
  let s₀ := withSession s net (newSession s.dccLastId sock ip port none ssl)
  have hcontent : s₀.files (getCompletePath s₀.cfg filename) = some (F.take n) := h.content
  have hrequest : (recvFileRequest env nick filename F.length s.dccLastId).run s₀ =
      (acceptOrResume env nick F.length s.dccLastId s.downloadContext.length n).run
        (offerStarted s env net sock ip port ssl filename F.length) := by
    unfold recvFileRequest
    rw [recvFileWith_run_of_existing h.startable.2 h.opened hcontent, hlength]
    rfl
  rw [handle, libircDccRequest, run_bind_of_ok hget, h.permitted]
  simp only [hcall]
  change (acceptDccSend env nick filename ip F.length port ssl).run s = _
  rw [acceptDccSend_eq, run_bind_of_ok hnew]
  simp only [EStateM.run_bind]
  rw [hrequest]

/-- The file of the context is open for appending, its first `n` bytes are there, and `start` bytes
    of the announced ones count as received. -/
structure OpenAt (s : Client) (context : ℕ) (path F : Bytes) (n start : ℕ) : Prop where
  table : ∃ c fd, s.downloadContext[context]? = some c ∧ c.fd = some fd ∧ fd.fileName = path ∧
    fd.append = true ∧ c.progress.completeFileSize = F.length ∧ c.progress.sizeRcvd = start
  content : fileContent s path = F.take n

theorem openAt_of_eq {s' : Client} {context start : ℕ} {path : Bytes}
    (h : OpenAt s context path F n start) (htable : s'.downloadContext = s.downloadContext)
    (hfiles : s'.files = s.files) : OpenAt s' context path F n start where
  table := htable ▸ h.table
  content := by
    unfold fileContent
    rw [hfiles]
    exact h.content

theorem openAt_offerStarted (h : PartlyThere s env nick req filename F n port ssl) (net : Net)
    (sock ip : ℕ) :
    OpenAt (offerStarted s env net sock ip port ssl filename F.length) s.downloadContext.length
      (getCompletePath s.cfg filename) F n 0 where
  table := by
    let fd : FileIo := { fileName := getCompletePath s.cfg filename, append := true, position := 0 }
    let progress := newDccProgress env (getCompletePath s.cfg filename) F.length
    exact ⟨{ progress := progress, fd := some fd }, fd, List.getElem?_concat_length, rfl, rfl, rfl,
      rfl, rfl⟩
  content := by
    change (s.files (getCompletePath s.cfg filename)).getD [] = F.take n
    rw [h.content]
    rfl

def QueuesNothing (s s' : Client) : Prop :=
  ∀ line, .queued line ∉ s'.trace.drop s.trace.length

theorem queuesNothing_of_trace {s' : Client} {l : List Action} (h : s'.trace = s.trace ++ l)
    (hl : ∀ line, .queued line ∉ l) : QueuesNothing s s' := by
  intro line
  rw [h, List.drop_left]
  exact hl line

/-- The session that the offer made, as the newest one with its port. -/
structure NewSession (s s' : Client) (port : ℕ) (d : DccSession) : Prop where
  newest : newestByPort s' port = some d
  id_eq : d.id = s.dccLastId
  ctx_eq : d.ctx = some s.downloadContext.length
  active : d.passiveConnection = false

/-- What an offer of a file that is partly there leads to: the process ends, or the session is
    accepted at once, or it waits. -/
inductive OfferOutcome (s s₁ : Client) (path F : Bytes) (n port : ℕ) : Prop
  | ended (hhalted : s₁.halted ≠ none) (hcontent : fileContent s₁ path = F.take n)
      (hqueue : QueuesNothing s s₁)
  | accepted (hn : n = 0) (hrunning : s₁.halted = none)
      (hopen : OpenAt s₁ s.downloadContext.length path F n 0)
      (hsession : ∃ d, NewSession s s₁ port d ∧ d.state ≠ .waitingForResumeAck)
      (hdelivers : Delivers s₁ s.dccLastId s.downloadContext.length) (hqueue : QueuesNothing s s₁)
  | waits (hpos : 0 < n) (hlt : n < F.length) (hrunning : s₁.halted = none)
      (hopen : OpenAt s₁ s.downloadContext.length path F n 0)
      (hsession : ∃ d, NewSession s s₁ port d ∧ d.state = .waitingForResumeAck)

theorem updateSession_newest (hsound : Sound s) {d : DccSession} (hid : d.id = s.dccLastId)
    (f : DccSession → DccSession) :
    updateSession s.dccLastId f (d :: s.dccSessions) = f d :: s.dccSessions := by
  have hold : updateSession s.dccLastId f s.dccSessions = s.dccSessions := by
    apply (List.map_congr_left _).trans (List.map_id _)
    intro d hd
    exact if_neg (hsound.id_lt d hd).ne
  change (if d.id = s.dccLastId then f d else d) :: updateSession s.dccLastId f s.dccSessions = _
  rw [if_pos hid, hold]

def sized (size : ℕ) (d : DccSession) : DccSession := { d with receivedFileSize := size }

def offerDone (s : Client) (net : Net) (id size : ℕ) (f : DccSession → DccSession)
    (l : List Action) : Client :=
  sessionOp (sessionOp s net id f l) net id (sized size) []

theorem offerDone_dccSessions (hsound : Sound s) {s₀ : Client} {d : DccSession}
    (hs₀ : s₀.dccSessions = d :: s.dccSessions) (hd : d.id = s.dccLastId) (net : Net) (size : ℕ)
    (f : DccSession → DccSession) (hf : (f d).id = d.id) (l : List Action) :
    (offerDone s₀ net s.dccLastId size f l).dccSessions = sized size (f d) :: s.dccSessions := by
  change updateSession s.dccLastId (sized size) (updateSession s.dccLastId f s₀.dccSessions) = _
  rw [hs₀, updateSession_newest hsound hd, updateSession_newest hsound (hf.trans hd)]

theorem newSession_of_cons {s' : Client} {d : DccSession} {ds : List DccSession}
    (hs' : s'.dccSessions = d :: ds) (hport : d.sinPort = port) (hid : d.id = s.dccLastId)
    (hctx : d.ctx = some s.downloadContext.length) (hactive : d.passiveConnection = false) :
    NewSession s s' port d where
  newest := by
    rw [newestByPort, hs', List.find?_cons_of_pos (by simpa using hport)]
  id_eq := hid
  ctx_eq := hctx
  active := hactive

theorem offer_outcome (hsound : Sound s) (h : PartlyThere s env nick req filename F n port ssl) :
    OfferOutcome s (step s (.request env nick req)) (getCompletePath s.cfg filename) F n port := by
  obtain ⟨net, sock, ip, hhandle⟩ := handle_of_partlyThere h
  let s₀ := offerStarted s env net sock ip port ssl filename F.length
  have hopen : OpenAt s₀ s.downloadContext.length (getCompletePath s.cfg filename) F n 0 :=
    openAt_offerStarted h net sock ip
  have hfound : s₀.dccSessions.find? (fun d => d.id = s.dccLastId) =
      some (newSession s.dccLastId sock ip port none ssl) :=
    List.find?_cons_of_pos (by simp [newSession])
  have hs₀ : s₀.dccSessions =
      newSession s.dccLastId sock ip port none ssl :: s.dccSessions := rfl
  have htrace : s₀.trace = s.trace ++ [.storeContext s.numActiveDownloads] := rfl
  have hsized (net' : Net) (f : DccSession → DccSession) (l : List Action) :
      (modifySession s.dccLastId (sized F.length)).run (sessionOp s₀ net' s.dccLastId f l) =
        .ok ⟨⟩ (offerDone s₀ net' s.dccLastId F.length f l) := by
    simp only [modifySession, EStateM.run_modify, offerDone, sessionOp, List.append_nil]
  change (handle (.request env nick req)).run s = (acceptOrResume env nick F.length s.dccLastId
    s.downloadContext.length n >>= fun _ => modifySession s.dccLastId (sized F.length)).run s₀
    at hhandle
  unfold step
  rw [h.running, hhandle]
  by_cases hsize : F.length = n
  · have hexit : exitPgm.run s₀ = .error .exitPgm s₀ := rfl
    rw [acceptOrResume, if_pos hsize, run_bind_of_error hexit]
    exact .ended (by simp) hopen.content (queuesNothing_of_trace htrace (by simp))
  · by_cases hn : n = 0
    · rw [acceptOrResume, if_neg hsize, if_pos hn]
      obtain ⟨ret, net', f, hrun, haccepted⟩ := ircDccAccept_run hfound rfl env
        (some s.downloadContext.length) .callbackDccRecvFile
      have htrace' : s₀.trace ++ [.install s.dccLastId (.data .callbackDccRecvFile)] = s.trace ++
          [.storeContext s.numActiveDownloads,
            .install s.dccLastId (.data .callbackDccRecvFile)] := by
        rw [htrace, List.append_assoc]
        rfl
      have hexit (hret : ret ≠ 0) := exitOnFailure_run_of_failure hrun hret
      cases haccepted with
      | done hconnect hssl =>
        rw [run_bind_of_ok (exitOnFailure_run_of_ok hrun), hsized]
        have hsessions := offerDone_dccSessions hsound hs₀ rfl net' F.length
          (fun d =>
            { d with
              cb := some .callbackDccRecvFile
              ctx := some s.downloadContext.length
              state := if d.ssl then .connected else .connecting })
          rfl [.install s.dccLastId (.data .callbackDccRecvFile)]
        refine .accepted hn h.running (openAt_of_eq hopen rfl rfl)
          ⟨_, newSession_of_cons hsessions rfl rfl rfl rfl, ?_⟩ ?_
          (queuesNothing_of_trace ((List.append_nil _).trans htrace') (by simp))
        · cases ssl <;> simp [sized, newSession]
        · intro d hd hid
          rw [hsessions] at hd
          rcases List.mem_cons.mp hd with rfl | hd
          · exact ⟨rfl, rfl⟩
          · exact absurd hid (hsound.id_lt d hd).ne
      | refused hconnect =>
        rw [run_bind_of_error (hexit (by decide))]
        exact .ended (by simp) hopen.content (queuesNothing_of_trace htrace' (by simp))
      | noHandshake hssl hconnect =>
        rw [run_bind_of_error (hexit (by decide))]
        exact .ended (by simp) hopen.content (queuesNothing_of_trace htrace' (by simp))
    · rw [acceptOrResume, if_neg hsize, if_neg hn]
      obtain ⟨net', l, hrun, -⟩ := ircDccResume_run hfound rfl (some s.downloadContext.length)
        .callbackDccResumeFile nick n
      have hsessions := offerDone_dccSessions hsound hs₀ rfl net' F.length
        (fun d =>
          { d with
            cb := some .callbackDccResumeFile
            ctx := some s.downloadContext.length
            state := .waitingForResumeAck })
        rfl l
      have hle := h.le
      rw [run_bind_of_ok (exitOnFailure_run_of_ok hrun), hsized]
      exact .waits (by omega) (by omega) h.running (openAt_of_eq hopen rfl rfl)
        ⟨_, newSession_of_cons hsessions rfl rfl rfl rfl, rfl⟩

end offer

/-- What becomes of the download: the process has ended with the file as it was, or what arrives is
    appended to it. -/
inductive Delivery (s : Client) (id : ℕ) (path F : Bytes) (n position : ℕ) : Prop
  | ended (hhalted : s.halted ≠ none) (hcontent : fileContent s path = F.take n)
  | appends (t : Transfer) (hid : t.id = id) (hpath : t.path = path) (happend : t.append = true)
      (hbase : t.base = F.take n) (hsize : t.size = F.length) (hstart : t.start ≤ position)
      (h : Receiving t [] s)

section delivery
variable {s : Client} {path F : Bytes} {id n position : ℕ}

theorem delivery_of_openAt {context start : ℕ} (hs : s.halted = none)
    (h : OpenAt s context path F n start) (hdelivers : Delivers s id context)
    (hstart : start ≤ position) (hsize : F.length < 2 ^ 64) : Delivery s id path F n position := by
  obtain ⟨c, fd, hc, hfd, rfl, happend, hcomplete, hrcvd⟩ := h.table
  exact .appends (startingTransfer s id context F.length start fd hsize) rfl rfl happend h.content rfl
    hstart (receiving_startingTransfer hs hdelivers hc hfd hcomplete hrcvd hsize)

theorem run_of_halted {fault : Halt} (hs : s.halted = some fault) (events : List Event) :
    run step s events = s := by
  induction events with
  | nil => rfl
  | cons e events ih => rw [run_cons, step_of_halted hs, ih]

theorem concatAlong_arriving_of_halted {fault : Halt} (hs : s.halted = some fault)
    (events : List Event) : concatAlong step (arriving id) s events = [] := by
  induction events with
  | nil => rfl
  | cons e events ih => rw [concatAlong, arriving_of_halted hs, step_of_halted hs, ih, List.nil_append]

theorem fits_of_streamed {t : Transfer} {data : Bytes} (hsize : t.size = F.length)
    (hstart : t.start ≤ position) (h : data <+: F.drop position) : t.Fits [] data := by
  intro hne
  have hle := h.length_le
  have hpos := List.length_pos_of_ne_nil hne
  rw [List.length_drop] at hle
  rw [List.nil_append]
  omega

theorem fileContent_of_delivery {events : List Event} (h : Delivery s id path F n position)
    (hown : ∀ e ∈ events, OwnEvent id e)
    (hstream : concatAlong step (arriving id) s events <+: F.drop position) :
    fileContent (run step s events) path =
      F.take n ++ concatAlong step (arriving id) s events := by
  cases h with
  | ended hhalted hcontent =>
    obtain ⟨fault, hfault⟩ := Option.ne_none_iff_exists'.mp hhalted
    rw [run_of_halted hfault, concatAlong_arriving_of_halted hfault, List.append_nil, hcontent]
  | appends t hid hpath happend hbase hsize hstart h =>
    subst hid hpath
    have hrun := receiving_run hown h (fits_of_streamed hsize hstart hstream)
    rw [hrun.content happend, hbase, List.nil_append]

end delivery

/-- The bot states a position in its acknowledgement; one that was not asked need not do so. -/
def Answers (cfg : XdccGetConfig) (n port position : ℕ) (answer : List Event) : Prop :=
  n = 0 ∧ answer = [] ∨ ∃ env nick, isValidRequestFromNick cfg nick = some true ∧
    answer = [.request env nick (acceptText port position)]

section answer
variable {s s₁ : Client} {path F : Bytes} {n port position : ℕ} {env : Env} {nick : Option Bytes}

theorem step_acceptText {s' : Client} {a : Unit} (hs : s.halted = none)
    (hnick : isValidRequestFromNick s.cfg nick = some true) (hport : port < 2 ^ 16)
    (hposition : position < 2 ^ 64) (h : (acceptResume env port position).run s = .ok a s') :
    step s (.request env nick (acceptText port position)) = s' :=
  step_of_ok hs ((handle_acceptText env hnick hport hposition).trans h)

theorem delivery_of_continuesAt {d : DccSession} {fd : FileIo} {context : ℕ}
    {c : DccDownloadContext} (hsound : Sound s) (hd : d ∈ s.dccSessions)
    (hctx : d.ctx = some context) (hc : s.downloadContext[context]? = some c)
    (happend : fd.append = true) (hcomplete : c.progress.completeFileSize = F.length)
    (hcontent : fileContent s fd.fileName = F.take n) (hsize : F.length < 2 ^ 64)
    (h : ContinuesAt s s₁ d context fd position) (hfiles : s₁.files = s.files) :
    Delivery s₁ d.id fd.fileName F n position := by
  have hdelivers : Delivers s₁ d.id context := by
    intro e he heid
    rw [h.sessions] at he
    rcases mem_updateSession he with ⟨e', he', hid, rfl⟩ | ⟨-, hne⟩
    · rw [hsound.eq_of_find (hsound.find_of_mem hd) he' hid]
      exact ⟨rfl, hctx⟩
    · exact absurd heid hne
  have hopen : OpenAt s₁ context fd.fileName F n position := by
    constructor
    · refine ⟨rewound fd position c, { fd with position := position }, ?_, rfl, rfl, happend,
        hcomplete, rfl⟩
      rw [h.table]
      exact getElem?_modify_self hc _
    · unfold fileContent
      rw [hfiles]
      exact hcontent
  exact delivery_of_openAt h.running hopen hdelivers le_rfl hsize

theorem delivery_of_acknowledgement (h : OfferOutcome s s₁ path F n port)
    (hsound : s₁.halted = none → Sound s₁) (hnick : isValidRequestFromNick s₁.cfg nick = some true)
    (hport : port < 2 ^ 16) (hposition : position < 2 ^ 64) (hsize : F.length < 2 ^ 64) :
    Delivery (step s₁ (.request env nick (acceptText port position))) s.dccLastId path F n
      position := by
  cases h with
  | ended hhalted hcontent hqueue =>
    obtain ⟨fault, hfault⟩ := Option.ne_none_iff_exists'.mp hhalted
    rw [step_of_halted hfault]
    exact .ended hhalted hcontent
  | accepted hn hrunning hopen hsession hdelivers hqueue =>
    obtain ⟨d, hd, hstate⟩ := hsession
    obtain ⟨net, hrun⟩ : ∃ net, (acceptResume env port position).run s₁ = .ok ⟨⟩ (withNet s₁ net) :=
      acceptResume_run_of_not_waiting fun e he =>
        Option.some.inj (hd.newest.symm.trans he) ▸ hstate
    rw [step_acceptText hrunning hnick hport hposition hrun]
    exact delivery_of_openAt hrunning (openAt_of_eq hopen rfl rfl) hdelivers (Nat.zero_le _) hsize
  | waits hpos hlt hrunning hopen hsession =>
    obtain ⟨d, hd, hstate⟩ := hsession
    obtain ⟨c, fd, hc, hfd, rfl, happend, hcomplete, hrcvd⟩ := hopen.table
    have hmem : d ∈ s₁.dccSessions := List.mem_of_find?_eq_some hd.newest
    rcases acceptResume_cases (hsound hrunning) hrunning hd.newest hstate hd.active hd.ctx_eq hc hfd
      env position with ⟨s', hrun, hcontinues, hfiles⟩ | ⟨-, s', hrun, hfiles⟩
    · rw [step_acceptText hrunning hnick hport hposition hrun, ← hd.id_eq]
      exact delivery_of_continuesAt (hsound hrunning) hmem hd.ctx_eq hc happend hcomplete
        hopen.content hsize hcontinues hfiles
    · have hstep : step s₁ (.request env nick (acceptText port position)) =
          { s' with halted := some .exitPgm } := by
        unfold step
        rw [hrunning, handle_acceptText env hnick hport hposition, hrun]
      rw [hstep]
      refine .ended (by simp) ?_
      change (s'.files fd.fileName).getD [] = _
      rw [hfiles]
      exact hopen.content

theorem OfferOutcome.content (h : OfferOutcome s s₁ path F n port) :
    fileContent s₁ path = F.take n := by
  cases h with
  | ended hhalted hcontent hqueue => exact hcontent
  | accepted hn hrunning hopen hsession hdelivers hqueue => exact hopen.content
  | waits hpos hlt hrunning hopen hsession => exact hopen.content

theorem OfferOutcome.resume_only (h : OfferOutcome s s₁ path F n port) {line : Bytes}
    (hline : .queued line ∈ s₁.trace.drop s.trace.length) : 0 < n ∧ n < F.length := by
  cases h with
  | ended hhalted hcontent hqueue => exact absurd hline (hqueue line)
  | accepted hn hrunning hopen hsession hdelivers hqueue => exact absurd hline (hqueue line)
  | waits hpos hlt hrunning hopen hsession => exact ⟨hpos, hlt⟩

theorem OfferOutcome.delivery (h : OfferOutcome s s₁ path F n port) (hn : n = 0)
    (hsize : F.length < 2 ^ 64) : Delivery s₁ s.dccLastId path F n position := by
  cases h with
  | ended hhalted hcontent hqueue => exact .ended hhalted hcontent
  | accepted _ hrunning hopen hsession hdelivers hqueue =>
    exact delivery_of_openAt hrunning hopen hdelivers (Nat.zero_le _) hsize
  | waits hpos hlt hrunning hopen hsession => exact absurd hn hpos.ne'

theorem fileContent_along (h : OfferOutcome s s₁ path F n port)
    (hsound : s₁.halted = none → Sound s₁) (hport : port < 2 ^ 16) (hposition : position < 2 ^ 64)
    (hsize : F.length < 2 ^ 64) {answer turns done : List Event}
    (hanswer : Answers s₁.cfg n port position answer)
    (hown : ∀ e ∈ turns, OwnEvent s.dccLastId e)
    (hstream : concatAlong step (arriving s.dccLastId) s₁ (answer ++ turns) <+: F.drop position)
    (hdone : done <+: answer ++ turns) :
    fileContent (run step s₁ done) path =
      F.take n ++ concatAlong step (arriving s.dccLastId) s₁ done := by
  obtain ⟨rest, hrest⟩ := hdone
  have hsent : concatAlong step (arriving s.dccLastId) s₁ done <+: F.drop position := by
    rw [← hrest, concatAlong_append] at hstream
    exact (List.prefix_append _ _).trans hstream
  rcases hanswer with ⟨hn, rfl⟩ | ⟨env, nick, hnick, rfl⟩
  · have hturns : done ++ rest = turns := hrest
    rw [← hturns] at hown
    exact fileContent_of_delivery (h.delivery hn hsize)
      (fun e he => hown e (List.mem_append_left rest he)) hsent
  · cases done with
    | nil => exact h.content.trans (List.append_nil _).symm
    | cons e done =>
      obtain ⟨rfl, hturns⟩ := List.cons.inj hrest
      have hacknowledged : Delivery (step s₁ (.request env nick (acceptText port position)))
          s.dccLastId path F n position :=
        delivery_of_acknowledgement h hsound hnick hport hposition hsize
      have howned (e : Event) (he : e ∈ done) : OwnEvent s.dccLastId e := by
        have hturns' : done ++ rest = turns := hturns
        rw [← hturns'] at hown
        exact hown e (List.mem_append_left rest he)
      have hcontent := fileContent_of_delivery hacknowledged howned hsent
      exact hcontent

end answer

/-- A RESUME goes out only for a part of the file, and the local file stays a prefix of it. -/
structure KeepsPrefix (s s₁ : Client) (events : List Event) (path F : Bytes) (n : ℕ) : Prop where
  resume_only : ∀ line, .queued line ∈ s₁.trace.drop s.trace.length → 0 < n ∧ n < F.length
  prefix_kept : ∀ done, done <+: events → fileContent (run step s₁ done) path <+: F

/-- The bot streams the file from the position of its acknowledgement. The local file stays a
    prefix exactly when the bytes of the file there, as many as have arrived, are the ones that
    follow the local part. -/
theorem keeps_prefix_iff {cfg : XdccGetConfig} {net : Net} {files : Bytes → Option Bytes}
    {earlier : List Event} {s : Client} (hs : s = run step (initial cfg net files) earlier)
    {env : Env} {nick : Option Bytes} {req filename F : Bytes} {n port position : ℕ} {ssl : Bool}
    (h : PartlyThere s env nick req filename F n port ssl) (hport : port < 2 ^ 16)
    (hposition : position < 2 ^ 64) {s₁ : Client} (hs₁ : s₁ = step s (.request env nick req))
    {answer turns : List Event} (hanswer : Answers s.cfg n port position answer)
    (hown : ∀ e ∈ turns, OwnEvent s.dccLastId e)
    (hstream : concatAlong step (arriving s.dccLastId) s₁ (answer ++ turns) <+: F.drop position) :
    KeepsPrefix s s₁ (answer ++ turns) (getCompletePath s.cfg filename) F n ↔
      (F.drop position).take (concatAlong step (arriving s.dccLastId) s₁ (answer ++ turns)).length <+:
        F.drop n := by
  have hsound : Sound s := by
    have hrunning := h.running
    rw [hs] at hrunning ⊢
    exact sound_of_running cfg net files earlier hrunning
  have hsound₁ : s₁.halted = none → Sound s₁ := by
    have hrun : s₁ = run step (initial cfg net files) (earlier ++ [.request env nick req]) := by
      rw [run_append, ← hs, hs₁]
      rfl
    rw [hrun]
    exact sound_of_running cfg net files _
  have hcfg : s₁.cfg = s.cfg := by rw [hs₁, cfg_step]
  have houtcome : OfferOutcome s s₁ (getCompletePath s.cfg filename) F n port := by
    rw [hs₁]
    exact offer_outcome hsound h
  have hcontent {done : List Event} (hdone : done <+: answer ++ turns) :=
    fileContent_along houtcome hsound₁ hport hposition h.size_lt (hcfg ▸ hanswer) hown hstream hdone
  have hsplit (data : Bytes) : F.take n ++ data <+: F ↔ data <+: F.drop n := by
    nth_rewrite 2 [← List.take_append_drop n F]
    exact List.prefix_append_right_inj _
  rw [← List.prefix_iff_eq_take.mp hstream]
  constructor
  · intro hkeeps
    have hall := hkeeps.prefix_kept _ (List.prefix_refl _)
    rwa [hcontent (List.prefix_refl _), hsplit] at hall
  · intro hprefix
    refine ⟨fun line hline => houtcome.resume_only hline, fun done hdone => ?_⟩
    rw [hcontent hdone, hsplit]
    obtain ⟨rest, hrest⟩ := hdone
    rw [← hrest, concatAlong_append] at hprefix
    exact (List.prefix_append _ _).trans hprefix

/-- Half of the file `abcd` is there. -/
def halfThere : Client :=
  initial (oneBot false) connected (oneFile (bytes "d/f") (bytes "ab"))

theorem halfThere_reached : halfThere =
    run step (initial (oneBot false) connected (oneFile (bytes "d/f") (bytes "ab"))) [] := rfl

theorem halfThere_partlyThere :
    PartlyThere halfThere readyEnv (some (bytes "bot")) (bytes "DCC SEND f 16909060 5000 4")
      (bytes "f") (bytes "abcd") 2 5000 false where
  running := rfl
  permitted := by decide +kernel
  offered := ⟨16909060, by decide +kernel⟩
  startable := by decide +kernel
  opened := rfl
  size_lt := by decide
  le := by decide
  content := by decide +kernel

def halfOffered : Client := step halfThere (botRequest "DCC SEND f 16909060 5000 4")

def acknowledged (position : ℕ) : List Event :=
  [.request readyEnv (some (bytes "bot")) (acceptText 5000 position)]

/-- The connection stands and the bot sends `data`. -/
def streamed (chunk : Chunk) : List Event :=
  [.socket 1 (.connecting true), .socket 1 (.receiving [.data chunk])]

theorem answers_acknowledged (position : ℕ) :
    Answers halfThere.cfg 2 5000 position (acknowledged position) :=
  .inr ⟨readyEnv, some (bytes "bot"), by decide +kernel, rfl⟩

def firstHalf : Chunk := ⟨bytes "ab", by decide, by decide⟩
def secondHalf : Chunk := ⟨bytes "cd", by decide, by decide⟩

theorem keeps_prefix_second_half :
    KeepsPrefix halfThere halfOffered (acknowledged 2 ++ streamed secondHalf) (bytes "d/f")
      (bytes "abcd") 2 :=
  (keeps_prefix_iff halfThere_reached halfThere_partlyThere (by decide) (by decide) rfl
    (answers_acknowledged 2) (by simp [streamed, OwnEvent, halfThere, initial]) (by decide +kernel)).mpr
    (by decide +kernel)

/-- The bot acknowledges position 0 and sends the file from there: it is appended to the half. -/
theorem first_half_appended_to_half :
    PartlyThere halfThere readyEnv (some (bytes "bot")) (bytes "DCC SEND f 16909060 5000 4")
        (bytes "f") (bytes "abcd") 2 5000 false ∧
      Answers halfThere.cfg 2 5000 0 (acknowledged 0) ∧
      concatAlong step (arriving 1) halfOffered (acknowledged 0 ++ streamed firstHalf) <+:
        (bytes "abcd").drop 0 ∧
      fileContent (run step halfOffered (acknowledged 0 ++ streamed firstHalf)) (bytes "d/f") =
        bytes "abab" ∧
      ¬ KeepsPrefix halfThere halfOffered (acknowledged 0 ++ streamed firstHalf) (bytes "d/f")
        (bytes "abcd") 2 := by
  have hcontent : fileContent (run step halfOffered (acknowledged 0 ++ streamed firstHalf))
      (bytes "d/f") = bytes "abab" := by decide +kernel
  refine ⟨halfThere_partlyThere, answers_acknowledged 0, by decide +kernel, hcontent, fun h => ?_⟩
  have hprefix := h.prefix_kept _ (List.prefix_refl _)
  rw [hcontent] at hprefix
  exact absurd hprefix (by decide +kernel)

end Xdccget.ResumedFile
