import Xdccget.SessionNodesAgree
import Xdccget.StepRuns

set_option autoImplicit false

/-!
# The list of sessions

Over every run with fewer than 2^32 sessions the nodes form a list whose ids go down from the
head. A lookup finds the one session of an id, and the clean-up unlinks the removed sessions and
no other.
-/
namespace Xdccget.ListIntegrity
open CText DccMessages ClientState HaltingPrograms LinkedNodes ProgramRelations SessionNodes
open SessionNodesAgree StepRuns
open FreeCallbacks (DccOperation RecvResult SendResult SocketReady)

/-- Where `malloc` fails, the list has a `socket` that fails. -/
def listEnv (env : Env) (memory : Option ℕ) : Env :=
  { env with socket := memory.bind fun _ => env.socket }

section creation
variable {n : ℕ} {ps : List (ℕ × ℕ)}

theorem represents_push {s : NodeSession} {c : Client} (h : Represents n ps s c)
    (hn : n < 2 ^ 32) {p : ℕ} (hp : p ∉ s.nodes) {d : DccSession} (hd : d.id = n) :
    Represents (n + 1) ((p, d.id) :: ps)
      { s with
        dccLastId := (s.dccLastId + 1) % 2 ^ 32
        nodes := s.nodes.insert p { item := d, next := s.dccSessions }
        dccSessions := some p }
      { c with dccLastId := n + 1, dccSessions := d :: c.dccSessions } := by
  obtain ⟨xs, hchain, hsessions, hps⟩ := h.chain
  constructor
  · exact ⟨(p, d) :: xs, hchain.push hp d, by rw [List.map_cons, hsessions], by rw [List.map_cons, hps]⟩
  · rw [List.map_cons, List.pairwise_cons]
    refine ⟨fun id hid => ?_, h.ordered⟩
    obtain ⟨pair, hpair, rfl⟩ := List.mem_map.mp hid
    rw [hd]
    exact h.below pair hpair
  · intro pair hpair
    rcases List.mem_cons.mp hpair with rfl | hpair
    · exact hd.trans_lt (Nat.lt_succ_self n)
    · exact (h.below pair hpair).trans (Nat.lt_succ_self n)
  · simp [h.lastId]
  · exact hn
  · exact h.fault
  · exact { h.beside with sessions := rfl, lastId := rfl }

/-- The outcomes of `libirc_new_dcc_session`: no session, or one more. -/
def Created (n : ℕ) (ps : List (ℕ × ℕ)) (a b : Except ℕ ℕ) (s : NodeSession) (c : Client) : Prop :=
  match a, b with
  | .error _, .error _ => Represents n ps s c
  | .ok p, .ok id => Represents (n + 1) ((p, id) :: ps) s c
  | _, _ => False

theorem exitPgm_agrees : Simulates Fault.halt (Represents n ps) (onClient exitPgm) exitPgm :=
  simulates_onClient fun _ => simulates_throw _

theorem setSslContext_agrees :
    Simulates Fault.halt (Represents n ps)
      (onClient (modify fun s => { s with net := { s.net with sslContext := true } }))
      (modify fun s => { s with net := { s.net with sslContext := true } }) :=
  simulates_onClient fun _ => simulates_modify fun _ _ h => { h with sslContext := rfl }

theorem enter_agrees (hn : n < 2 ^ 32) (choice sock ip port : ℕ) (ssl : Bool) :
    Relates (Represents n ps)
      (do
        let s ← get
        let dcc := fresh s.nodes choice
        let item := SessionSpecs.newSession s.dccLastId sock ip port none ssl
        modify fun s => { s with
          dccLastId := (s.dccLastId + 1) % 2 ^ 32
          nodes := s.nodes.insert dcc { item := item, next := s.dccSessions }
          dccSessions := some dcc }
        return .ok dcc)
      (do
        let dccid := (← get).dccLastId
        let dcc := SessionSpecs.newSession dccid sock ip port none ssl
        modify fun s => { s with dccLastId := dccid + 1, dccSessions := dcc :: s.dccSessions }
        return .ok dccid)
      (Created n ps) fun e h s c => e = Fault.halt h ∧ Represents n ps s c := by
  refine relates_get_bind fun s c h => ?_
  have hlast : s.dccLastId = n := h.lastId.trans (Nat.mod_eq_of_lt hn)
  let R : PUnit → PUnit → NodeSession → Client → Prop := fun _ _ =>
    Represents (n + 1) ((fresh s.nodes choice, c.dccLastId) :: ps)
  refine relates_bind (R := R) (relates_modify fun s' c' heq => ?_) fun _ _ => relates_pure fun _ _ h => h
  obtain ⟨rfl, rfl⟩ := heq
  subst hlast
  have hid : c'.dccLastId = s'.dccLastId := h.beside.lastId
  have hnew := represents_push h hn (fresh_notMem s'.nodes choice)
    (d := SessionSpecs.newSession s'.dccLastId sock ip port none ssl) rfl
  simp only [R, hid]
  exact hnew

theorem libircNewDccSession_agrees (hn : n < 2 ^ 32) (env : Env) (memory : Option ℕ) (ip port : ℕ)
    (ssl : Bool) :
    Relates (Represents n ps) (libircNewDccSession env memory ip port none ssl)
      (DccSessions.libircNewDccSession (listEnv env memory) ip port none ssl) (Created n ps)
      fun e h s c => e = Fault.halt h ∧ Represents n ps s c := by
  cases memory with
  | none => exact relates_pure fun _ _ h => h
  | some choice =>
    cases hsock : env.socket with
    | none =>
      simp only [libircNewDccSession, DccSessions.libircNewDccSession, listEnv, hsock, Option.bind]
      exact relates_pure fun _ _ h => h
    | some sock =>
      simp only [libircNewDccSession, DccSessions.libircNewDccSession, listEnv, hsock, Option.bind]
      have hrest := @enter_agrees n ps hn choice sock ip port ssl
      have hcontext := relates_bind (@setSslContext_agrees n ps) fun _ _ =>
        relates_of_and fun _ => hrest
      refine relates_get_bind fun s c h => Relates.weaken ?_ (P := Represents n ps)
        (by rintro _ _ ⟨rfl, rfl⟩; exact h) (fun _ _ _ _ h => h) fun _ _ _ _ h => h
      refine relates_ite (by rw [h.beside.sslContext]) (fun _ => ?_) fun _ => hrest
      refine relates_ite Iff.rfl (fun _ => ?_) fun _ => hcontext
      exact relates_bind exitPgm_agrees fun _ _ => relates_of_and fun _ => hcontext

/-- What `libirc_new_dcc_session` asks for is there. -/
def canOpen (env : Env) (memory : Option ℕ) (ssl : Bool) (s : NodeSession) : Bool :=
  memory.isSome && env.socket.isSome && (!ssl || s.client.net.sslContext || env.initSslContext)

def makesSession (s : NodeSession) : Event → Bool
  | .request env memory verified req _ =>
    s.fault.isNone &&
      match dccRequestCall verified req with
      | .acceptReverseDccSend _ _ _ _ ssl => canOpen env memory ssl s
      | .acceptDccSend _ _ _ _ ssl => canOpen env memory ssl s
      | _ => false
  | _ => false

theorem libircNewDccSession_closed (env : Env) (memory : Option ℕ) (ip port : ℕ) (ssl : Bool) :
    Relates (fun s c => Represents n ps s c ∧ canOpen env memory ssl s = false)
      (libircNewDccSession env memory ip port none ssl)
      (DccSessions.libircNewDccSession (listEnv env memory) ip port none ssl)
      (fun a b s c => (∃ err, a = .error err) ∧ (∃ err, b = .error err) ∧ Represents n ps s c)
      fun e h s c => e = Fault.halt h ∧ Represents n ps s c := by
  cases memory with
  | none => exact relates_pure fun _ _ h => ⟨⟨_, rfl⟩, ⟨_, rfl⟩, h.1⟩
  | some choice =>
    cases hsock : env.socket with
    | none =>
      simp only [libircNewDccSession, DccSessions.libircNewDccSession, listEnv, hsock, Option.bind]
      exact relates_pure fun _ _ h => ⟨⟨_, rfl⟩, ⟨_, rfl⟩, h.1⟩
    | some sock =>
      simp only [libircNewDccSession, DccSessions.libircNewDccSession, listEnv, hsock, Option.bind]
      refine relates_get_bind fun s c h => ?_
      obtain ⟨hrep, hclosed⟩ := h
      simp only [canOpen, hsock, Option.isSome_some, Bool.true_and, Bool.or_eq_false_iff,
        Bool.not_eq_false'] at hclosed
      obtain ⟨⟨hssl, hcontext⟩, hinit⟩ := hclosed
      refine relates_ite (by rw [hrep.beside.sslContext]) (fun _ => ?_) fun hc => ?_
      · refine relates_ite Iff.rfl (fun _ => ?_) fun hc => absurd hinit (by simpa using hc)
        intro s' c' heq
        obtain ⟨rfl, rfl⟩ := heq
        exact ⟨rfl, hrep.client hrep.beside⟩
      · exact absurd hc (by simp [hssl, hcontext])

/-- The nodes stand for the list, and at most `m` sessions have been made. -/
def Upto (m : ℕ) (s : NodeSession) (c : Client) : Prop := ∃ n ps, n ≤ m ∧ Represents n ps s c

abbrev Advances (m : ℕ) (P : NodeSession → Client → Prop) {α β : Type} (x : SessionM α)
    (y : ClientM β) : Prop :=
  Relates P x y (fun _ _ => Upto m) fun e h s c => e = Fault.halt h ∧ Upto m s c

theorem advances_of_simulates {m : ℕ} (hm : n ≤ m) {α : Type} {x : SessionM α} {y : ClientM α}
    (h : Simulates Fault.halt (Represents n ps) x y) : Advances m (Represents n ps) x y :=
  h.weaken (fun _ _ h => h) (fun _ _ _ _ h => ⟨n, ps, hm, h.2⟩) fun _ _ _ _ h =>
    ⟨h.1, n, ps, hm, h.2⟩

theorem create_agrees (hn : n < 2 ^ 32) (env : Env) (memory : Option ℕ) (ip port : ℕ) (ssl : Bool)
    {f : Except ℕ ℕ → SessionM Unit} {g : Except ℕ ℕ → ClientM Unit}
    (herror : ∀ err err', Simulates Fault.halt (Represents n ps) (f (.error err)) (g (.error err')))
    (hok : ∀ p id, Simulates Fault.halt (Represents (n + 1) ((p, id) :: ps)) (f (.ok p)) (g (.ok id))) :
    Advances (n + 1) (Represents n ps) (libircNewDccSession env memory ip port none ssl >>= f)
      (DccSessions.libircNewDccSession (listEnv env memory) ip port none ssl >>= g) := by
  refine relates_bind ((libircNewDccSession_agrees hn env memory ip port ssl).weaken
    (fun _ _ h => h) (fun _ _ _ _ h => h) fun _ _ _ _ h => ⟨h.1, n, ps, Nat.le_succ n, h.2⟩) fun a b => ?_
  cases a with
  | error err =>
    cases b with
    | error err' => exact advances_of_simulates (Nat.le_succ n) (herror err err')
    | ok id => exact relates_of_false fun _ _ h => h
  | ok p =>
    cases b with
    | error err' => exact relates_of_false fun _ _ h => h
    | ok id => exact advances_of_simulates le_rfl (hok p id)

theorem create_closed (env : Env) (memory : Option ℕ) (ip port : ℕ) (ssl : Bool)
    {f : Except ℕ ℕ → SessionM Unit} {g : Except ℕ ℕ → ClientM Unit}
    (herror : ∀ err err', Simulates Fault.halt (Represents n ps) (f (.error err)) (g (.error err'))) :
    Relates (fun s c => Represents n ps s c ∧ canOpen env memory ssl s = false)
      (libircNewDccSession env memory ip port none ssl >>= f)
      (DccSessions.libircNewDccSession (listEnv env memory) ip port none ssl >>= g)
      (fun _ _ => Upto n) fun e h s c => e = Fault.halt h ∧ Upto n s c := by
  have hclosed := (@libircNewDccSession_closed n ps env memory ip port ssl).weaken (fun _ _ h => h)
    (fun _ _ _ _ h => h) fun _ _ _ _ h => (⟨h.1, n, ps, le_rfl, h.2⟩ : _ ∧ Upto n _ _)
  refine relates_bind hclosed fun a b => ?_
  refine relates_of_and fun ⟨err, ha⟩ => relates_of_and fun ⟨err', hb⟩ => ?_
  subst ha hb
  exact advances_of_simulates le_rfl (herror err err')

theorem setLasterror_agrees_any (err err' : ℕ) :
    Simulates Fault.halt (Represents n ps) (onClient (setLasterror err)) (setLasterror err') := by
  intro s c h
  exact ⟨rfl, h.client { h.beside with }⟩

theorem tell_agrees {p id : ℕ} (hp : (p, id) ∈ ps) (calls : List DccOperation) :
    Simulates Fault.halt (Represents n ps) (do performAll (← load p).item.id calls)
      (FreeCallbacks.performAll id calls) :=
  simulates_load hp fun node hid => by
    rw [hid]
    exact performAll_agrees id calls

theorem acceptDccSend_agrees (hn : n < 2 ^ 32) (env : Env) (memory : Option ℕ) (filename : Bytes)
    (ip size port : ℕ) (ssl : Bool) (calls : List DccOperation) :
    Advances (n + 1) (Represents n ps)
      ((requests env memory calls).acceptDccSend filename ip size port ssl)
      ((FreeCallbacks.requests (listEnv env memory) calls).acceptDccSend filename ip size port ssl) := by
  refine create_agrees hn env memory ip port ssl (fun err err' => setLasterror_agrees_any err err')
    fun p id => ?_
  have hp : (p, id) ∈ (p, id) :: ps := List.mem_cons_self
  exact simulates_bind (tell_agrees hp calls) fun _ => modify_agrees _ _ _ _ hp fun _ => rfl

theorem acceptReverseDccSend_agrees (hn : n < 2 ^ 32) (env : Env) (memory : Option ℕ)
    (filename : Bytes) (ip size token : ℕ) (ssl : Bool) (calls : List DccOperation) :
    Advances (n + 1) (Represents n ps)
      ((requests env memory calls).acceptReverseDccSend filename ip size token ssl)
      ((FreeCallbacks.requests (listEnv env memory) calls).acceptReverseDccSend filename ip size token
        ssl) := by
  refine create_agrees hn env memory ip 0 ssl (fun err err' => setLasterror_agrees_any err err')
    fun p id => ?_
  have hp : (p, id) ∈ (p, id) :: ps := List.mem_cons_self
  have hfail (err : ℕ) : Simulates Fault.halt (Represents (n + 1) ((p, id) :: ps))
      (do onClient (setLasterror err); return) (do setLasterror err; return) :=
    simulates_bind (setLasterror_agrees err) fun _ => simulates_pure ()
  refine simulates_bind (modify_agrees _ _ _ _ hp fun _ => rfl) fun _ => ?_
  refine simulates_ite Iff.rfl (fun _ => hfail _) fun _ => ?_
  exact simulates_ite Iff.rfl (fun _ => hfail _) fun _ => tell_agrees hp calls

theorem libircDccRequest_agrees (hn : n < 2 ^ 32) (env : Env) (memory : Option ℕ) (verified : Bool)
    (req : Bytes) (calls : List DccOperation) :
    Advances (n + 1) (Represents n ps) (libircDccRequest env memory verified req calls)
      (FreeCallbacks.libircDccRequest (listEnv env memory) verified req calls) := by
  unfold libircDccRequest FreeCallbacks.libircDccRequest
  cases dccRequestCall verified req with
  | acceptReverseDccSend filename ip size token ssl => exact acceptReverseDccSend_agrees hn _ _ _ _ _ _ _ _
  | acceptDccSend filename ip size port ssl => exact acceptDccSend_agrees hn _ _ _ _ _ _ _ _
  | acceptResumeReverse size token => exact advances_of_simulates (Nat.le_succ n) (acceptResumeReverse_agrees env _ memory size token calls)
  | acceptResume port size => exact advances_of_simulates (Nat.le_succ n) (acceptResume_agrees env _ memory port size calls)
  | unhandled => exact advances_of_simulates (Nat.le_succ n) (simulates_pure ())
  | ignored => exact advances_of_simulates (Nat.le_succ n) (simulates_pure ())

theorem libircDccRequest_closed (env : Env) (memory : Option ℕ) (verified : Bool) (req : Bytes)
    (calls : List DccOperation) :
    Advances n (fun s c => Represents n ps s c ∧
        makesSession s (.request env memory verified req calls) = false)
      (libircDccRequest env memory verified req calls)
      (FreeCallbacks.libircDccRequest (listEnv env memory) verified req calls) := by
  have hsame {x : SessionM Unit} {y : ClientM Unit} {P : NodeSession → Prop}
      (h : Simulates Fault.halt (Represents n ps) x y) :
      Advances n (fun s c => Represents n ps s c ∧ P s) x y :=
    (advances_of_simulates le_rfl h).weaken (fun _ _ h => h.1) (fun _ _ _ _ h => h)
      fun _ _ _ _ h => h
  have herror (err err' : ℕ) := @setLasterror_agrees_any n ps err err'
  unfold libircDccRequest FreeCallbacks.libircDccRequest
  cases hcall : dccRequestCall verified req with
  | acceptReverseDccSend filename ip size token ssl =>
    refine (create_closed env memory ip 0 ssl herror).weaken (fun s c h => ⟨h.1, ?_⟩)
      (fun _ _ _ _ h => h) fun _ _ _ _ h => h
    simpa [h.1.fault, makesSession, hcall] using h.2
  | acceptDccSend filename ip size port ssl =>
    refine (create_closed env memory ip port ssl herror).weaken (fun s c h => ⟨h.1, ?_⟩)
      (fun _ _ _ _ h => h) fun _ _ _ _ h => h
    simpa [h.1.fault, makesSession, hcall] using h.2
  | acceptResumeReverse size token => exact hsame (acceptResumeReverse_agrees env _ memory size token calls)
  | acceptResume port size => exact hsame (acceptResume_agrees env _ memory port size calls)
  | unhandled => exact hsame (simulates_pure ())
  | ignored => exact hsame (simulates_pure ())

end creation

section removal

def kept (xs : List (ℕ × DccSession)) : List (ℕ × DccSession) :=
  xs.filter fun x => x.2.state ≠ .removed

structure SameBut (s s' : NodeSession) : Prop where
  dccLastId : s'.dccLastId = s.dccLastId
  client : s'.client = s.client
  fault : s'.fault = s.fault

theorem SameBut.trans {s s' s'' : NodeSession} (h : SameBut s s') (h' : SameBut s' s'') :
    SameBut s s'' :=
  ⟨h'.dccLastId.trans h.dccLastId, h'.client.trans h.client, h'.fault.trans h.fault⟩

theorem unlinkLoop_run {s : NodeSession} {x : ℕ × DccSession} {next : Option ℕ}
    (hx : s.nodes.lookup x.1 = some ⟨x.2, next⟩) {before : List (ℕ × DccSession)}
    {w : ℕ × DccSession} {after : List (ℕ × DccSession)} {q : Option ℕ}
    (hs : Chain s.nodes q (before ++ w :: x :: after)) {rounds : ℕ}
    (hrounds : before.length < rounds) :
    (unlinkLoop x.1 rounds q).run s =
      .ok ⟨⟩ { s with nodes := s.nodes.insert w.1 ⟨w.2, next⟩ } := by
  induction before generalizing q rounds with
  | nil =>
    cases hs with
    | cons node rest =>
      cases rounds with
      | zero => simp at hrounds
      | succ rounds =>
        have hnext := rest.first_eq
        simp only [List.head?_cons, Option.map_some] at hnext
        subst hnext
        rw [unlinkLoop, run_bind_of_ok (load_run node)]
        simp only [if_true, EStateM.run_bind, load_run hx]
        rfl
  | cons v before ih =>
    cases hs with
    | @cons p d next' _ _ node rest =>
      cases rounds with
      | zero => simp at hrounds
      | succ rounds =>
        change Chain s.nodes next' (before ++ w :: x :: after) at rest
        rw [unlinkLoop, run_bind_of_ok (load_run node), if_neg rest.first_ne]
        exact ih rest (by simpa using hrounds)

theorem libircRemoveDccSession_run {s : NodeSession} {before after : List (ℕ × DccSession)}
    {x : ℕ × DccSession} (hs : Chain s.nodes s.dccSessions (before ++ x :: after)) :
    ∃ s', (libircRemoveDccSession x.1 false).run s = .ok ⟨⟩ s' ∧
      Chain s'.nodes s'.dccSessions (before ++ after) ∧ SameBut s s' := by
  obtain ⟨next, hx⟩ := hs.lookup_of_mem (x := x) (by simp)
  let close : DccSession → DccSession := fun d => { d with sock := none }
  let s₁ : NodeSession := { s with nodes := s.nodes.insert x.1 ⟨close x.2, next⟩ }
  have hclosed : s₁.nodes.lookup x.1 = some ⟨close x.2, next⟩ := AList.lookup_insert s.nodes
  have hwrite : (write x.1 close).run s = .ok ⟨⟩ s₁ := by
    rw [write, run_bind_of_ok (load_run hx)]
    rfl
  have hchain : Chain s₁.nodes s₁.dccSessions (before ++ (x.1, close x.2) :: after) := hs.write_at hx close
  have hget : (get : SessionM NodeSession).run s₁ = .ok s₁ s₁ := rfl
  rw [libircRemoveDccSession, run_bind_of_ok hwrite]
  simp only [Bool.false_eq_true, if_false]
  rw [run_bind_of_ok hget]
  rcases List.eq_nil_or_concat before with rfl | ⟨before, w, rfl⟩
  · have hfirst : s₁.dccSessions = some x.1 := hchain.first_eq
    rw [if_neg (not_not.mpr hfirst), run_bind_of_ok (load_run hclosed)]
    exact ⟨_, rfl, hchain.unlink_first hclosed, ⟨rfl, rfl, rfl⟩⟩
  · rw [List.concat_eq_append, List.append_assoc, List.singleton_append] at hchain
    have hrounds : before.length < s₁.nodes.keys.length := by
      have hle := hchain.length_le
      simp only [List.length_append, List.length_cons] at hle
      omega
    rw [if_pos hchain.first_ne]
    have hunlink := unlinkLoop_run (x := (x.1, close x.2)) hclosed hchain hrounds
    rw [run_bind_of_ok hunlink]
    refine ⟨_, rfl, ?_, ⟨rfl, rfl, rfl⟩⟩
    rw [List.concat_eq_append, List.append_assoc, List.singleton_append]
    exact hchain.unlink hclosed

theorem removeLoop_run {s : NodeSession} {before after : List (ℕ × DccSession)} {q : Option ℕ}
    (hs : Chain s.nodes s.dccSessions (before ++ after)) (hq : q = after.head?.map Prod.fst)
    {rounds : ℕ} (hrounds : after.length ≤ rounds) :
    ∃ s', (removeLoop rounds q).run s = .ok ⟨⟩ s' ∧
      Chain s'.nodes s'.dccSessions (before ++ kept after) ∧ SameBut s s' := by
  induction after generalizing s before q rounds with
  | nil =>
    subst hq
    cases rounds <;> exact ⟨s, rfl, hs, ⟨rfl, rfl, rfl⟩⟩
  | cons x after ih =>
    subst hq
    obtain ⟨m, hbefore, hrest⟩ := hs.split
    cases hrest with
    | @cons p d next _ _ node rest =>
      cases rounds with
      | zero => simp at hrounds
      | succ rounds =>
        have hle : after.length ≤ rounds := by simpa using hrounds
        have hload : (load p).run s = .ok ⟨d, next⟩ s := load_run node
        simp only [List.head?_cons, Option.map_some, removeLoop]
        rw [run_bind_of_ok hload]
        by_cases hremoved : d.state = .removed
        · obtain ⟨s₁, hrun, hchain, hsame⟩ := libircRemoveDccSession_run hs
          obtain ⟨s₂, hrun₂, hchain₂, hsame₂⟩ := ih hchain rest.first_eq hle
          refine ⟨s₂, ?_, ?_, hsame.trans hsame₂⟩
          · simp only [hremoved, if_true]
            rw [run_bind_of_ok hrun]
            exact hrun₂
          · simpa [kept, hremoved] using hchain₂
        · have hpassed : Chain s.nodes s.dccSessions ((before ++ [(p, d)]) ++ after) := by
            simpa using hs
          obtain ⟨s₂, hrun₂, hchain₂, hsame₂⟩ := ih hpassed rest.first_eq hle
          refine ⟨s₂, ?_, ?_, hsame₂⟩
          · simp only [hremoved, if_false]
            exact hrun₂
          · simpa [kept, hremoved] using hchain₂

theorem watchLoop_run {s : NodeSession} {xs : List (ℕ × DccSession)} {q : Option ℕ}
    (hs : Chain s.nodes q xs) {rounds : ℕ} (hrounds : xs.length ≤ rounds) :
    (watchLoop rounds q).run s = .ok (xs.map fun x => (x.2.sock, watched x.2.state)) s := by
  induction xs generalizing q rounds with
  | nil =>
    cases hs with
    | nil => cases rounds <;> rfl
  | cons x xs ih =>
    cases hs with
    | @cons p d next _ _ node rest =>
      cases rounds with
      | zero => simp at hrounds
      | succ rounds =>
        have hrun := ih rest (by simpa using hrounds)
        rw [watchLoop, run_bind_of_ok (load_run node), run_bind_of_ok hrun]
        rfl

theorem libircDccAddDescriptors_run {s : NodeSession} {xs : List (ℕ × DccSession)}
    (hs : Chain s.nodes s.dccSessions xs) :
    ∃ s', libircDccAddDescriptors.run s =
        .ok ((kept xs).map fun x => (x.2.sock, watched x.2.state)) s' ∧
      Chain s'.nodes s'.dccSessions (kept xs) ∧ SameBut s s' := by
  let locked : NodeSession := { s with client := { s.client with net := SessionSpecs.lockedNet s.client.net } }
  have hlock : (onClient libircMutexLock).run s = .ok ⟨⟩ locked := rfl
  have hlocked : Chain locked.nodes locked.dccSessions ([] ++ xs) := hs
  have hrounds : xs.length ≤ locked.nodes.keys.length := hs.length_le
  obtain ⟨s₁, hremove, hchain, hsame⟩ := removeLoop_run hlocked hs.first_eq hrounds
  have hwatch := watchLoop_run hchain hchain.length_le
  have hget (t : NodeSession) : (get : SessionM NodeSession).run t = .ok t t := rfl
  refine ⟨{ s₁ with client := s.client }, ?_, hchain, ⟨hsame.dccLastId, rfl, hsame.fault⟩⟩
  rw [libircDccAddDescriptors, run_bind_of_ok hlock, run_bind_of_ok (hget locked),
    run_bind_of_ok hremove, run_bind_of_ok (hget s₁), run_bind_of_ok hwatch]
  simp only [EStateM.run_bind, onClient_run, hsame.client]
  simp [libircMutexUnlock, locked, SessionSpecs.lockedNet]

end removal

section passes
variable {n : ℕ} {ps : List (ℕ × ℕ)}

theorem addDescriptors_agrees :
    Advances n (Represents n ps) libircDccAddDescriptors DccEvents.removeDccSessions := by
  intro s c h
  obtain ⟨xs, hchain, hsessions, hps⟩ := h.chain
  obtain ⟨s', hrun, hkept, hsame⟩ := libircDccAddDescriptors_run hchain
  have hlist : DccEvents.removeDccSessions.run c =
      .ok ⟨⟩ { c with dccSessions := c.dccSessions.filter fun d => d.state ≠ .removed } := rfl
  rw [hrun, hlist]
  have hsub : ((kept xs).map fun x => (x.1, x.2.id)).Sublist ps := by
    rw [← hps]
    exact List.filter_sublist.map _
  refine ⟨n, (kept xs).map fun x => (x.1, x.2.id), le_rfl, ⟨kept xs, hkept, ?_, rfl⟩, ?_, ?_, ?_, h.bound,
    hsame.fault.trans h.fault, ?_⟩
  · rw [← hsessions, List.filter_map]
    rfl
  · exact h.ordered.sublist (hsub.map _)
  · exact fun p hp => h.below p (hsub.subset hp)
  · rw [hsame.dccLastId, h.lastId]
  · rw [hsame.client]
    exact { h.beside with sessions := rfl }

/-- The pass of the event loop over the list: each session once, newest first. -/
def passOver (ready : ℕ → Option SocketReady) : ClientM Unit := do
  libircMutexLock
  let ids := (← get).dccSessions.map (·.id)
  ids.forM fun id =>
    match ready id with
    | none => return
    | some r => FreeCallbacks.processDescriptor id r
  libircMutexUnlock

theorem represents_next {s : NodeSession} {c : Client} {before after : List (ℕ × ℕ)} {p id : ℕ}
    {node : Node DccSession} (h : Represents n (before ++ (p, id) :: after) s c)
    (hp : s.nodes.lookup p = some node) : node.next = after.head?.map Prod.fst := by
  obtain ⟨xs, hchain, -, hps⟩ := h.chain
  obtain ⟨as, bs, rfl, -, hbs⟩ := List.map_eq_append_iff.mp hps
  obtain ⟨x, cs, rfl, hx, rfl⟩ := List.map_eq_cons_iff.mp hbs
  obtain ⟨m, -, hrest⟩ := hchain.split
  cases hx
  cases hrest with
  | cons hnode rest =>
    rw [hnode] at hp
    cases hp
    rw [rest.first_eq, List.head?_map, Option.map_map]
    rfl

theorem processLoop_agrees (ready : ℕ → Option SocketReady) {before after : List (ℕ × ℕ)}
    {q : Option ℕ} (hq : q = after.head?.map Prod.fst) {rounds : ℕ} (hrounds : after.length ≤ rounds) :
    Simulates Fault.halt (Represents n (before ++ after)) (processLoop ready rounds q)
      ((after.map Prod.snd).forM fun id =>
        match ready id with
        | none => return
        | some r => FreeCallbacks.processDescriptor id r) := by
  subst hq
  induction after generalizing before rounds with
  | nil =>
    cases rounds <;> exact simulates_pure ()
  | cons pair after ih =>
    obtain ⟨p, id⟩ := pair
    cases rounds with
    | zero => simp at hrounds
    | succ rounds =>
      have hp : (p, id) ∈ before ++ (p, id) :: after := by simp
      have hrest : Simulates Fault.halt (Represents n (before ++ (p, id) :: after))
          (do
            let node ← load p
            processLoop ready rounds node.next)
          ((after.map Prod.snd).forM fun id =>
            match ready id with
            | none => return
            | some r => FreeCallbacks.processDescriptor id r) := by
        intro s c h
        obtain ⟨d, next, hlookup, -, -⟩ := h.lookup hp
        have hnext := represents_next h hlookup
        rw [run_bind_of_ok (load_run hlookup), hnext]
        have hloop := @ih (before ++ [(p, id)]) rounds (by simpa using hrounds)
        rw [List.append_assoc, List.singleton_append] at hloop
        exact hloop s c h
      simp only [List.head?_cons, Option.map_some, processLoop, List.map_cons, List.forM]
      refine simulates_load hp fun node hid => ?_
      rw [hid]
      cases ready id with
      | none => exact simulates_bind (simulates_pure ()) fun _ => hrest
      | some r => exact simulates_bind (processDescriptor_agrees hp r) fun _ => hrest

theorem processDescriptors_agrees (ready : ℕ → Option SocketReady) :
    Simulates Fault.halt (Represents n ps) (libircDccProcessDescriptors ready) (passOver ready) := by
  refine simulates_bind lock_agrees fun _ => simulates_get_bind fun s c h => ?_
  obtain ⟨xs, hchain, hsessions, hps⟩ := h.chain
  have hids : c.dccSessions.map (·.id) = ps.map Prod.snd := by
    rw [← hsessions, ← hps, List.map_map, List.map_map]
    rfl
  have hlength : ps.length = xs.length := by rw [← hps, List.length_map]
  have hfirst : s.dccSessions = ps.head?.map Prod.fst := by
    rw [hchain.first_eq, ← hps, List.head?_map, Option.map_map]
    rfl
  rw [hids]
  refine simulates_bind ?_ fun _ => unlock_agrees
  have hrounds : ps.length ≤ s.nodes.keys.length := hlength ▸ hchain.length_le
  exact @processLoop_agrees n ready [] ps s.dccSessions hfirst _ hrounds

def listHandle : Event → ClientM Unit
  | .request env memory verified req calls =>
    FreeCallbacks.libircDccRequest (listEnv env memory) verified req calls
  | .operation dccid call => discard (call.perform dccid)
  | .addDescriptors => DccEvents.removeDccSessions
  | .processDescriptors ready => passOver ready

theorem handleAddDescriptors_agrees {m : ℕ} (hm : n ≤ m) :
    Advances m (Represents n ps) (handle .addDescriptors) (listHandle .addDescriptors) := by
  intro s c h
  have hclean := addDescriptors_agrees s c h
  cases hrun : libircDccAddDescriptors.run s <;> rw [hrun] at hclean
  · obtain ⟨n', ps', hn', hps'⟩ := hclean
    rw [handle, run_discard hrun]
    exact ⟨n', ps', hn'.trans hm, hps'⟩
  · exact hclean.elim

theorem handle_open (hn : n < 2 ^ 32) (e : Event) :
    Advances (n + 1) (Represents n ps) (handle e) (listHandle e) := by
  cases e with
  | request env memory verified req calls => exact libircDccRequest_agrees hn _ _ _ _ _
  | operation dccid call =>
    exact advances_of_simulates (Nat.le_succ n) (simulates_discard (perform_agrees dccid call))
  | addDescriptors => exact handleAddDescriptors_agrees (Nat.le_succ n)
  | processDescriptors ready =>
    exact advances_of_simulates (Nat.le_succ n) (processDescriptors_agrees ready)

theorem handle_closed (e : Event) :
    Advances n (fun s c => Represents n ps s c ∧ makesSession s e = false) (handle e)
      (listHandle e) := by
  have hsame {x : SessionM Unit} {y : ClientM Unit} (h : Advances n (Represents n ps) x y) :
      Advances n (fun s c => Represents n ps s c ∧ makesSession s e = false) x y :=
    h.weaken (fun _ _ h => h.1) (fun _ _ _ _ h => h) fun _ _ _ _ h => h
  cases e with
  | request env memory verified req calls => exact libircDccRequest_closed env memory verified req calls
  | operation dccid call =>
    exact hsame (advances_of_simulates le_rfl (simulates_discard (perform_agrees dccid call)))
  | addDescriptors => exact hsame (handleAddDescriptors_agrees le_rfl)
  | processDescriptors ready =>
    exact hsame (advances_of_simulates le_rfl (processDescriptors_agrees ready))

end passes

section runs
variable {n : ℕ}

def listStep (c : Client) (e : Event) : Client :=
  match c.halted with
  | some _ => c
  | none =>
    match (listHandle e).run c with
    | .ok _ c' => c'
    | .error h c' => { c' with halted := some h }

/-- The nodes stand for the list, and the one process has ended where the other has. -/
structure Agrees (n : ℕ) (s : NodeSession) (c : Client) : Prop where
  fault : s.fault = c.halted.map Fault.halt
  represents : ∃ ps, Represents n ps { s with fault := none } { c with halted := none }

theorem Agrees.of_represents {s : NodeSession} {c : Client} {ps : List (ℕ × ℕ)}
    (h : Represents n ps s c) : Agrees n s c := by
  obtain ⟨nodes, first, last, client, fault⟩ := s
  have hfault : fault = none := h.fault
  have hhalted := h.beside.halted
  subst hfault
  refine ⟨by rw [hhalted]; rfl, ps, ?_⟩
  cases c
  simp only at hhalted
  subst hhalted
  exact h

theorem Agrees.running {s : NodeSession} {c : Client} (h : Agrees n s c) (hc : c.halted = none) :
    s.fault = none ∧ ∃ ps, Represents n ps s c := by
  obtain ⟨nodes, first, last, client, fault⟩ := s
  have hfault := h.fault
  rw [hc] at hfault
  obtain ⟨ps, hps⟩ := h.represents
  cases c
  simp only at hc hfault
  subst hc
  subst hfault
  exact ⟨rfl, ps, hps⟩

theorem step_agrees {s : NodeSession} {c : Client} (h : Agrees n s c) {e : Event}
    (hroom : makesSession s e = true → n < 2 ^ 32) :
    ∃ n', n' ≤ n + (makesSession s e).toNat ∧ Agrees n' (step s e) (listStep c e) := by
  unfold step listStep
  cases hc : c.halted with
  | some fault =>
    have hfault := h.fault
    rw [hc, Option.map_some] at hfault
    rw [hfault]
    exact ⟨n, Nat.le_add_right _ _, h⟩
  | none =>
    obtain ⟨hfault, ps, hps⟩ := h.running hc
    have hhandle : Advances (n + (makesSession s e).toNat) (fun s' c' => s' = s ∧ c' = c) (handle e)
        (listHandle e) := by
      cases hmakes : makesSession s e with
      | true =>
        refine (@handle_open n ps (hroom hmakes) e).weaken ?_ (fun _ _ _ _ h => h) fun _ _ _ _ h => h
        rintro s' c' ⟨rfl, rfl⟩
        exact hps
      | false =>
        refine (@handle_closed n ps e).weaken ?_ (fun _ _ _ _ h => h) fun _ _ _ _ h => h
        rintro s' c' ⟨rfl, rfl⟩
        exact ⟨hps, hmakes⟩
    have hends := hhandle s c ⟨rfl, rfl⟩
    rw [hfault]
    cases hx : (handle e).run s <;> cases hy : (listHandle e).run c <;> rw [hx, hy] at hends
    · obtain ⟨n', ps', hn', hps'⟩ := hends
      exact ⟨n', hn', .of_represents hps'⟩
    · exact hends.elim
    · exact hends.elim
    · obtain ⟨heq, n', ps', hn', hps'⟩ := hends
      exact ⟨n', hn', congrArg some heq, (Agrees.of_represents hps').represents⟩

def creations (s : NodeSession) (events : List Event) : ℕ :=
  sumAlong step (fun s e => (makesSession s e).toNat) s events

theorem creations_le_length (s : NodeSession) (events : List Event) :
    creations s events ≤ events.length := by
  induction events generalizing s with
  | nil => exact le_rfl
  | cons e events ih =>
    rw [creations, sumAlong, List.length_cons, add_comm]
    exact Nat.add_le_add (ih (step s e)) (Bool.toNat_le _)

def listOf (client : Client) : Client :=
  { client with dccLastId := 1, dccSessions := [], halted := none }

theorem agrees_initial (client : Client) : Agrees 1 (initial client) (listOf client) := by
  have hempty : Represents 1 [] (initial client) (listOf client) := by
    refine ⟨⟨[], .nil none, rfl, rfl⟩, .nil, ?_, rfl, by simp, rfl, ?_⟩
    · simp
    · exact ⟨rfl, rfl, rfl, rfl, rfl, rfl, rfl, rfl, rfl⟩
  exact .of_represents hempty

theorem run_agrees {s : NodeSession} {c : Client} (h : Agrees n s c) {events : List Event}
    (hcreations : n + creations s events ≤ 2 ^ 32) :
    ∃ n', Agrees n' (run step s events) (run listStep c events) := by
  induction events generalizing n s c with
  | nil => exact ⟨n, h⟩
  | cons e events ih =>
    rw [creations, sumAlong] at hcreations
    have hroom : makesSession s e = true → n < 2 ^ 32 := by
      intro hmakes
      rw [hmakes, Bool.toNat_true] at hcreations
      omega
    obtain ⟨n', hn', hagrees⟩ := step_agrees h hroom
    refine ih hagrees ?_
    rw [creations]
    omega

/-- `found` is the address of the one session with that id, or null when there is none. -/
def FindsOne (xs : List (ℕ × DccSession)) (dccid : ℕ) : Option ℕ → Prop
  | none => ∀ x ∈ xs, x.2.id ≠ dccid
  | some p => ∃ x ∈ xs, x.1 = p ∧ x.2.id = dccid ∧ ∀ y ∈ xs, y.2.id = dccid → y = x

theorem find_finds_one {s : NodeSession} {xs : List (ℕ × DccSession)}
    (hs : Chain s.nodes s.dccSessions xs) (hids : (xs.map (·.2.id)).Nodup) (dccid : ℕ)
    (lockList : Bool) :
    ∃ found s', (libircFindDccSession dccid lockList).run s = .ok found s' ∧
      s'.nodes = s.nodes ∧ s'.dccSessions = s.dccSessions ∧ FindsOne xs dccid found := by
  rw [libircFindDccSession, libircFind_nodes_run _ lockList hs]
  cases hfind : xs.find? fun x => decide (x.2.id = dccid) with
  | none =>
    refine ⟨none, s, rfl, rfl, rfl, fun x hx hid => ?_⟩
    simpa [hid] using List.find?_eq_none.mp hfind x hx
  | some x =>
    have hid : x.2.id = dccid := by simpa using List.find?_some hfind
    have hmem := List.mem_of_find?_eq_some hfind
    refine ⟨some x.1, _, rfl, ?_, ?_, x, hmem, rfl, hid, fun y hy hyid => ?_⟩
    · cases lockList <;> rfl
    · cases lockList <;> rfl
    · exact List.inj_on_of_nodup_map hids hy hmem (hyid.trans hid.symm)

/-- What the clean-up does: it ends, and leaves the sessions that are not removed at their
    addresses, in their order and with their fields. -/
def CleansUp (s : NodeSession) (xs : List (ℕ × DccSession)) : Prop :=
  ∃ fds s', libircDccAddDescriptors.run s = .ok fds s' ∧
    Chain s'.nodes s'.dccSessions (xs.filter fun x => x.2.state ≠ .removed)

structure Intact (s : NodeSession) (xs : List (ℕ × DccSession)) : Prop where
  chain : Chain s.nodes s.dccSessions xs
  distinct : (xs.map (·.2.id)).Nodup
  decreasing : (xs.map (·.2.id)).Pairwise (· > ·)
  finds : ∀ dccid lockList, ∃ found s', (libircFindDccSession dccid lockList).run s = .ok found s' ∧
    s'.nodes = s.nodes ∧ s'.dccSessions = s.dccSessions ∧ FindsOne xs dccid found
  cleansUp : CleansUp s xs
  notFreed : s.fault ≠ some .freed
  notEndless : s.fault ≠ some .endless

theorem Agrees.intact {s : NodeSession} {c : Client} (h : Agrees n s c) : ∃ xs, Intact s xs := by
  obtain ⟨ps, hps⟩ := h.represents
  obtain ⟨xs, hchain, -, rfl⟩ := hps.chain
  have hordered := hps.ordered
  rw [List.map_map] at hordered
  have hdistinct := ids_nodup hps.ordered
  obtain ⟨s', hrun, hkept, -⟩ := libircDccAddDescriptors_run (s := s) hchain
  refine ⟨xs, hchain, hdistinct, hordered, find_finds_one (s := s) hchain hdistinct,
    ⟨_, s', hrun, hkept⟩, ?_, ?_⟩ <;>
  · rw [h.fault]
    cases c.halted <;> simp

/-- In every run that makes fewer than 2^32 sessions the list is intact. -/
theorem list_stays_intact {client : Client} {events : List Event}
    (h : creations (initial client) events < 2 ^ 32) :
    ∃ xs, Intact (run step (initial client) events) xs := by
  have hroom : 1 + creations (initial client) events ≤ 2 ^ 32 := by omega
  obtain ⟨n, hagrees⟩ := run_agrees (agrees_initial client) hroom
  exact hagrees.intact

def twoOffers : List Event :=
  [.request DccEvents.readyEnv (some 4096) true (bytes "DCC SEND f 16909060 5000 4")
      [.accept DccEvents.readyEnv none .callbackDccRecvFile],
    .request DccEvents.readyEnv (some 8192) true (bytes "DCC SEND g 16909060 5001 4") [.decline]]

theorem list_stays_intact_two :
    ∃ xs, Intact (run step
      (initial (DccEvents.initial (DccEvents.oneBot false) DccEvents.connected DccEvents.noFiles))
      twoOffers) xs :=
  list_stays_intact ((creations_le_length _ _).trans_lt (by decide))

example :
    (run step
      (initial (DccEvents.initial (DccEvents.oneBot false) DccEvents.connected DccEvents.noFiles))
      (twoOffers ++ [.addDescriptors])).dccSessions = some 4096 := by
  decide +kernel

end runs

end Xdccget.ListIntegrity
