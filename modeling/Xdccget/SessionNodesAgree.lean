import Xdccget.SessionNodes
import Xdccget.SessionSpecs

set_option autoImplicit false

/-!
# The nodes stand for the list

Each function of `SessionNodes` does to the nodes what its counterpart does to the list of
sessions, as long as ids do not repeat. Ids go down along the list.
-/
namespace Xdccget.SessionNodesAgree
open CText DccMessages ClientState HaltingPrograms LinkedNodes ProgramRelations SessionNodes
open SessionSpecs (lockedNet libircFind_run_of_none libircFind_run_of_some libircFind_run_nolock)
open FreeCallbacks (DccOperation SocketReady)
open SocketTurns (Turn)

/-- What the functions of `dcc.c` use besides the sessions, apart from `lasterror`: the list knows
    no `malloc` that fails. -/
structure Beside (ds : List DccSession) (n : ℕ) (a c : Client) : Prop where
  sessions : c.dccSessions = ds
  lastId : c.dccLastId = n
  cfg : a.cfg = c.cfg
  state : a.net.state = c.net.state
  outgoing : a.net.outgoing = c.net.outgoing
  mutexDcc : a.net.mutexDcc = c.net.mutexDcc
  sslContext : a.net.sslContext = c.net.sslContext
  trace : a.trace = c.trace
  halted : c.halted = none

section beside
variable {ds : List DccSession} {n : ℕ}

theorem setLasterror_beside (err : ℕ) :
    Simulates id (Beside ds n) (setLasterror err) (setLasterror err) :=
  simulates_modify fun _ _ h => { h with }

theorem lock_beside : Simulates id (Beside ds n) libircMutexLock libircMutexLock :=
  simulates_modify fun _ _ h => { h with mutexDcc := congrArg (· + 1) h.mutexDcc }

theorem unlock_beside : Simulates id (Beside ds n) libircMutexUnlock libircMutexUnlock :=
  simulates_modify fun _ _ h => { h with mutexDcc := congrArg (· - 1) h.mutexDcc }

theorem record_beside (action : Action) :
    Simulates id (Beside ds n) (record action) (record action) :=
  simulates_modify fun _ _ h => { h with trace := congrArg (· ++ [action]) h.trace }

theorem ircSendRaw_beside (text : Bytes) :
    Simulates id (Beside ds n) (ircSendRaw text) (ircSendRaw text) := by
  have hfail (err : ℕ) : Simulates id (Beside ds n) (do setLasterror err; return 1)
      (do setLasterror err; return 1) :=
    simulates_bind (setLasterror_beside err) fun _ => simulates_pure 1
  refine simulates_get_bind fun a c h => ?_
  refine simulates_ite (by rw [h.state]) (fun _ => hfail _) fun _ => ?_
  refine simulates_ite (by rw [h.outgoing]) (fun _ => hfail _) fun _ => ?_
  refine simulates_bind (simulates_modify fun a c h => ?_) fun _ =>
    simulates_bind (record_beside _) fun _ => simulates_pure 0
  exact { h with outgoing := congrArg (· ++ snprintf 1024 text ++ [cr, lf]) h.outgoing }

theorem ircCmdCtcpRequest_beside (nick : Option Bytes) (reply : Bytes) :
    Simulates id (Beside ds n) (ircCmdCtcpRequest nick reply) (ircCmdCtcpRequest nick reply) := by
  cases nick with
  | none => exact simulates_bind (setLasterror_beside _) fun _ => simulates_pure 1
  | some nick => exact ircSendRaw_beside _

end beside

/-- The chain of nodes holds the sessions of the list; `ps` are their addresses and ids, and `n` is
    the number of sessions that have been made. -/
structure Represents (n : ℕ) (ps : List (ℕ × ℕ)) (s : NodeSession) (c : Client) : Prop where
  chain : ∃ xs, Chain s.nodes s.dccSessions xs ∧ xs.map Prod.snd = c.dccSessions ∧
    xs.map (fun x => (x.1, x.2.id)) = ps
  ordered : (ps.map Prod.snd).Pairwise (· > ·)
  below : ∀ p ∈ ps, p.2 < n
  lastId : s.dccLastId = n % 2 ^ 32
  bound : n ≤ 2 ^ 32
  fault : s.fault = none
  beside : Beside c.dccSessions n s.client c

section operations
variable {n : ℕ} {ps : List (ℕ × ℕ)}

theorem Represents.client {s : NodeSession} {c c' : Client} {a : Client} (h : Represents n ps s c)
    (hbeside : Beside c.dccSessions n a c') : Represents n ps { s with client := a } c' :=
  { h with
    chain := by
      rw [hbeside.sessions]
      exact h.chain
    beside := hbeside.sessions ▸ hbeside }

theorem ids_nodup {xs : List (ℕ × DccSession)}
    (h : ((xs.map fun x => (x.1, x.2.id)).map Prod.snd).Pairwise (· > ·)) :
    (xs.map (·.2.id)).Nodup := by
  rw [List.map_map] at h
  exact h.imp fun hgt => ne_of_gt hgt

theorem Represents.lookup {s : NodeSession} {c : Client} (h : Represents n ps s c) {p id : ℕ}
    (hp : (p, id) ∈ ps) :
    ∃ d next, s.nodes.lookup p = some ⟨d, next⟩ ∧ d.id = id ∧
      c.dccSessions.find? (fun d => d.id = id) = some d := by
  obtain ⟨xs, hchain, hsessions, rfl⟩ := h.chain
  obtain ⟨x, hx, heq⟩ := List.mem_map.mp hp
  cases heq
  obtain ⟨next, hnext⟩ := hchain.lookup_of_mem hx
  refine ⟨x.2, next, hnext, rfl, ?_⟩
  have hnodup : (c.dccSessions.map (·.id)).Nodup := by
    rw [← hsessions, List.map_map]
    exact ids_nodup h.ordered
  have hmem : x.2 ∈ c.dccSessions := hsessions ▸ List.mem_map_of_mem hx
  cases hfind : c.dccSessions.find? (fun d => decide (d.id = x.2.id)) with
  | none => exact absurd hmem fun hmem => by simpa using List.find?_eq_none.mp hfind _ hmem
  | some e =>
    have hid : e.id = x.2.id := by simpa using List.find?_some hfind
    rw [List.inj_on_of_nodup_map hnodup (List.mem_of_find?_eq_some hfind) hmem hid]

theorem load_run {s : NodeSession} {p : ℕ} {node : Node DccSession}
    (h : s.nodes.lookup p = some node) : (load p).run s = .ok node s := by
  simp [load, h]

theorem simulates_load {α : Type} {p id : ℕ} (hp : (p, id) ∈ ps) {f : Node DccSession → SessionM α}
    {y : ClientM α}
    (h : ∀ node : Node DccSession, node.item.id = id → Simulates Fault.halt (Represents n ps) (f node) y) :
    Simulates Fault.halt (Represents n ps) (load p >>= f) y := by
  refine relates_bind_left (R := fun node s c => node.item.id = id ∧ Represents n ps s c)
    (fun s c hsc => ?_) fun node => relates_of_and (h node)
  obtain ⟨d, next, hlookup, hid, -⟩ := hsc.lookup hp
  exact ⟨_, _, load_run hlookup, hid, hsc⟩

theorem onClient_run {α : Type} (x : ClientM α) (s : NodeSession) :
    (onClient x).run s =
      match x.run s.client with
      | .ok a c => .ok a { s with client := c }
      | .error h c => .error (.halt h) { s with client := c } := by
  rw [onClient, zoom_run]
  cases x.run s.client <;> rfl

theorem simulates_onClient {α : Type} {x : ClientM α}
    (h : ∀ ds, Simulates id (Beside ds n) x x) :
    Simulates Fault.halt (Represents n ps) (onClient x) x := by
  intro s c hsc
  have h' := h _ s.client c hsc.beside
  rw [onClient_run]
  cases hx : x.run s.client <;> cases hy : x.run c <;> rw [hx, hy] at h'
  · exact ⟨h'.1, hsc.client h'.2⟩
  · exact h'.elim
  · exact h'.elim
  · exact ⟨congrArg Fault.halt h'.1, hsc.client h'.2⟩

theorem lock_agrees :
    Simulates Fault.halt (Represents n ps) (onClient libircMutexLock) libircMutexLock :=
  simulates_onClient fun _ => lock_beside

theorem unlock_agrees :
    Simulates Fault.halt (Represents n ps) (onClient libircMutexUnlock) libircMutexUnlock :=
  simulates_onClient fun _ => unlock_beside

theorem setLasterror_agrees (err : ℕ) :
    Simulates Fault.halt (Represents n ps) (onClient (setLasterror err)) (setLasterror err) :=
  simulates_onClient fun _ => setLasterror_beside err

theorem record_agrees (action : Action) :
    Simulates Fault.halt (Represents n ps) (onClient (record action)) (record action) :=
  simulates_onClient fun _ => record_beside action

theorem ircCmdCtcpRequest_agrees (nick : Option Bytes) (reply : Bytes) :
    Simulates Fault.halt (Represents n ps) (onClient (ircCmdCtcpRequest nick reply))
      (ircCmdCtcpRequest nick reply) := simulates_onClient fun _ => ircCmdCtcpRequest_beside nick reply

theorem writeItem_sessions {xs : List (ℕ × DccSession)} {p id : ℕ}
    (haddresses : (xs.map Prod.fst).Nodup) (hids : (xs.map (·.2.id)).Nodup)
    (hp : (p, id) ∈ xs.map fun x => (x.1, x.2.id)) (f : DccSession → DccSession) :
    (writeItem p f xs).map Prod.snd = updateSession id f (xs.map Prod.snd) := by
  obtain ⟨x, hx, heq⟩ := List.mem_map.mp hp
  cases heq
  rw [writeItem, updateSession, List.map_map, List.map_map]
  refine List.map_congr_left fun y hy => ?_
  by_cases hyx : y = x
  · subst hyx
    simp
  · have haddress : y.1 ≠ x.1 := fun heq => hyx (List.inj_on_of_nodup_map haddresses hy hx heq)
    have hid : y.2.id ≠ x.2.id := fun heq => hyx (List.inj_on_of_nodup_map hids hy hx heq)
    simp [haddress, hid]

theorem write_agrees {p id : ℕ} (hp : (p, id) ∈ ps) {f : DccSession → DccSession}
    (hf : ∀ d, (f d).id = d.id) :
    Simulates Fault.halt (Represents n ps) (write p f) (modifySession id f) := by
  intro s c h
  obtain ⟨d, next, hlookup, -, -⟩ := h.lookup hp
  obtain ⟨xs, hchain, hsessions, hps⟩ := h.chain
  have hids : (xs.map (·.2.id)).Nodup := ids_nodup (hps ▸ h.ordered)
  rw [write, run_bind_of_ok (load_run hlookup)]
  refine ⟨rfl, ⟨writeItem p f xs, hchain.write hlookup f, ?_, ?_⟩, h.ordered, h.below, h.lastId,
    h.bound, h.fault, { h.beside with sessions := rfl }⟩
  · rw [writeItem_sessions hchain.nodup hids (hps ▸ hp), hsessions]
  · rw [← hps, writeItem, List.map_map]
    refine List.map_congr_left fun x _ => ?_
    simp only [Function.comp_apply]
    split <;> simp [hf]

theorem findLoop_run {s : NodeSession} (found : DccSession → Bool) {xs : List (ℕ × DccSession)}
    {q : Option ℕ} (hs : Chain s.nodes q xs) {rounds : ℕ} (hrounds : xs.length ≤ rounds) :
    (findLoop found rounds q).run s = .ok ((xs.find? fun x => found x.2).map Prod.fst) s := by
  induction xs generalizing q rounds with
  | nil =>
    cases hs with
    | nil => cases rounds <;> rfl
  | cons x xs ih =>
    cases hs with
    | @cons p d next _ _ node rest =>
      cases rounds with
      | zero => simp at hrounds
      | succ rounds =>
        rw [findLoop, run_bind_of_ok (load_run node), List.find?_cons]
        cases hfound : found d with
        | true => simp
        | false =>
          simp only [Bool.false_eq_true, if_false]
          exact ih rest (by simpa using hrounds)

theorem libircFind_nodes_run {s : NodeSession} (found : DccSession → Bool) (lockList : Bool)
    {xs : List (ℕ × DccSession)} (hs : Chain s.nodes s.dccSessions xs) :
    (libircFind found lockList).run s =
      match xs.find? (fun x => found x.2) with
      | none => .ok none s
      | some x => .ok (some x.1)
          (if lockList then { s with client := { s.client with net := lockedNet s.client.net } } else s) := by
  have hloop (client : Client) := findLoop_run (s := { s with client := client }) found hs hs.length_le
  cases lockList with
  | false =>
    simp only [libircFind, Bool.false_eq_true, if_false, Bool.and_false, EStateM.run_bind,
      EStateM.run_get, hloop s.client]
    cases xs.find? fun x => found x.2 <;> rfl
  | true =>
    have hlock : (onClient libircMutexLock).run s =
        .ok ⟨⟩ { s with client := { s.client with net := lockedNet s.client.net } } := rfl
    simp only [libircFind, if_true, EStateM.run_bind, hlock, EStateM.run_get, hloop, Bool.and_true]
    cases xs.find? fun x => found x.2 with
    | none => simp [onClient_run, libircMutexUnlock, lockedNet]
    | some x => rfl

theorem simulates_find {α : Type} (found : DccSession → Bool) (lockList : Bool)
    {f : Option ℕ → SessionM α} {g : Option DccSession → ClientM α}
    (hnone : Simulates Fault.halt (Represents n ps) (f none) (g none))
    (hsome : ∀ p d, (p, d.id) ∈ ps → found d = true →
      Relates (fun s c => Represents n ps s c ∧ ∃ next, s.nodes.lookup p = some ⟨d, next⟩)
        (f (some p)) (g (some d)) (fun a b s c => a = b ∧ Represents n ps s c)
        fun e h s c => e = Fault.halt h ∧ Represents n ps s c) :
    Simulates Fault.halt (Represents n ps) (libircFind found lockList >>= f)
      (DccSessions.libircFind found lockList >>= g) := by
  let R : Option ℕ → Option DccSession → NodeSession → Client → Prop := fun p d s c =>
    Represents n ps s c ∧ match p, d with
      | none, none => True
      | some p, some d => (p, d.id) ∈ ps ∧ found d = true ∧ ∃ next, s.nodes.lookup p = some ⟨d, next⟩
      | _, _ => False
  refine relates_bind (R := R) ?_ fun p d => ?_
  · intro s c h
    obtain ⟨xs, hchain, hsessions, hps⟩ := h.chain
    rw [libircFind_nodes_run found lockList hchain]
    have hfind : c.dccSessions.find? found = (xs.find? fun x => found x.2).map Prod.snd := by
      rw [← hsessions, List.find?_map]
      rfl
    cases hx : xs.find? fun x => found x.2 with
    | none =>
      rw [hx] at hfind
      rw [libircFind_run_of_none hfind]
      exact ⟨h, trivial⟩
    | some x =>
      rw [hx] at hfind
      have hmem := List.mem_of_find?_eq_some hx
      obtain ⟨next, hnext⟩ := hchain.lookup_of_mem hmem
      have hpair : (x.1, x.2.id) ∈ ps := by
        rw [← hps]
        exact List.mem_map_of_mem hmem
      have hfound : found x.2 = true := by simpa using List.find?_some hx
      cases lockList with
      | true =>
        rw [libircFind_run_of_some hfind]
        refine ⟨h.client ?_, hpair, hfound, next, hnext⟩
        exact { h.beside with mutexDcc := congrArg (· + 1) h.beside.mutexDcc }
      | false =>
        rw [libircFind_run_nolock, hfind]
        exact ⟨h, hpair, hfound, next, hnext⟩
  · cases p with
    | none =>
      cases d with
      | none => exact hnone.weaken (fun _ _ h => h.1) (fun _ _ _ _ h => h) fun _ _ _ _ h => h
      | some d => exact relates_of_false fun _ _ h => h.2
    | some p =>
      cases d with
      | none => exact relates_of_false fun _ _ h => h.2
      | some d =>
        intro s c h
        exact hsome p d h.2.1 h.2.2.1 s c ⟨h.1, h.2.2.2⟩

theorem relates_load_found {α : Type} {p : ℕ} {d : DccSession} {f : Node DccSession → SessionM α}
    {y : ClientM α}
    (h : ∀ next, Simulates Fault.halt (Represents n ps) (f ⟨d, next⟩) y) :
    Relates (fun s c => Represents n ps s c ∧ ∃ next, s.nodes.lookup p = some ⟨d, next⟩)
      (load p >>= f) y (fun a b s c => a = b ∧ Represents n ps s c)
      fun e h s c => e = Fault.halt h ∧ Represents n ps s c := by
  intro s c hsc
  obtain ⟨next, hnext⟩ := hsc.2
  rw [run_bind_of_ok (load_run hnext)]
  exact h next s c hsc.1

theorem relates_found {α : Type} {p : ℕ} {d : DccSession} {x : SessionM α} {y : ClientM α}
    (h : Simulates Fault.halt (Represents n ps) x y) :
    Relates (fun s c => Represents n ps s c ∧ ∃ next, s.nodes.lookup p = some ⟨d, next⟩) x y
      (fun a b s c => a = b ∧ Represents n ps s c)
      fun e h s c => e = Fault.halt h ∧ Represents n ps s c :=
  h.weaken (fun _ _ h => h.1) (fun _ _ _ _ h => h) fun _ _ _ _ h => h

theorem libircDccDestroyNolock_agrees (dccid : ℕ) :
    Simulates Fault.halt (Represents n ps) (libircDccDestroyNolock dccid)
      (DccSessions.libircDccDestroyNolock dccid) := by
  refine simulates_find _ false (simulates_pure ()) fun p d hp hfound => relates_found ?_
  have hid : d.id = dccid := by simpa using hfound
  exact write_agrees (hid ▸ hp) fun _ => rfl

theorem ircDccDestroy_agrees (dccid : ℕ) :
    Simulates Fault.halt (Represents n ps) (ircDccDestroy dccid)
      (DccSessions.ircDccDestroy dccid) := by
  refine simulates_find _ true (simulates_pure 1) fun p d hp hfound => relates_found ?_
  have hid : d.id = dccid := by simpa using hfound
  refine simulates_bind (write_agrees (hid ▸ hp) fun _ => rfl) fun _ => ?_
  exact simulates_bind unlock_agrees fun _ => simulates_pure 0

theorem refuse_agrees :
    Simulates Fault.halt (Represents n ps)
      (do
        onClient (setLasterror libircErrState)
        onClient libircMutexUnlock
        return 1)
      (do
        setLasterror libircErrState
        libircMutexUnlock
        return 1) :=
  simulates_bind (setLasterror_agrees _) fun _ =>
    simulates_bind unlock_agrees fun _ => simulates_pure 1

theorem ircDccDecline_agrees (dccid : ℕ) :
    Simulates Fault.halt (Represents n ps) (ircDccDecline dccid)
      (DccSessions.ircDccDecline dccid) := by
  refine simulates_find _ true (simulates_pure 1) fun p d hp hfound => relates_load_found fun next => ?_
  refine simulates_ite Iff.rfl (fun _ => refuse_agrees) fun _ => ?_
  refine simulates_bind (libircDccDestroyNolock_agrees dccid) fun _ => ?_
  exact simulates_bind unlock_agrees fun _ => simulates_pure 0

theorem ircDccAccept_agrees (env : Env) (dccid : ℕ) (ctx : Option ℕ) (callback : DataCallback) :
    Simulates Fault.halt (Represents n ps) (ircDccAccept env dccid ctx callback)
      (DccSessions.ircDccAccept env dccid ctx callback) := by
  refine simulates_find _ true (simulates_pure 1) fun p d hp hfound => relates_load_found fun next => ?_
  have hid : d.id = dccid := by simpa using hfound
  subst hid
  refine simulates_ite Iff.rfl (fun _ => refuse_agrees) fun _ => ?_
  refine simulates_bind (write_agrees hp fun _ => rfl) fun _ => ?_
  refine simulates_bind (record_agrees _) fun _ => simulates_ite Iff.rfl (fun _ => ?_) fun _ => ?_
  · refine simulates_bind (libircDccDestroyNolock_agrees d.id) fun _ => ?_
    refine simulates_bind unlock_agrees fun _ => ?_
    exact simulates_bind (setLasterror_agrees _) fun _ => simulates_pure 1
  · refine simulates_ite Iff.rfl (fun _ => ?_) fun _ => ?_
    · exact simulates_bind (setLasterror_agrees _) fun _ => simulates_pure 1
    · refine simulates_bind (write_agrees hp fun _ => rfl) fun _ => ?_
      exact simulates_bind unlock_agrees fun _ => simulates_pure 0

/-- The end of both `RESUME` calls, from the request on. -/
theorem resumeRest_agrees {p id : ℕ} (hp : (p, id) ∈ ps) (nick : Option Bytes) (reply : Bytes) :
    Simulates Fault.halt (Represents n ps)
      (do
        discard (onClient (ircCmdCtcpRequest nick reply))
        write p fun d => { d with state := .waitingForResumeAck }
        onClient libircMutexUnlock
        return 0)
      (do
        discard (ircCmdCtcpRequest nick reply)
        modifySession id fun d => { d with state := .waitingForResumeAck }
        libircMutexUnlock
        return 0) := by
  refine simulates_bind (simulates_discard (ircCmdCtcpRequest_agrees nick reply)) fun _ => ?_
  refine simulates_bind (write_agrees hp fun _ => rfl) fun _ => ?_
  exact simulates_bind unlock_agrees fun _ => simulates_pure 0

theorem ircDccResume_agrees (dccid : ℕ) (ctx : Option ℕ) (callback : DataCallback)
    (nick : Option Bytes) (filePosition : ℕ) :
    Simulates Fault.halt (Represents n ps) (ircDccResume dccid ctx callback nick filePosition)
      (DccSessions.ircDccResume dccid ctx callback nick filePosition) := by
  refine simulates_find _ true (simulates_pure 1) fun p d hp hfound => relates_load_found fun next => ?_
  have hid : d.id = dccid := by simpa using hfound
  subst hid
  refine simulates_ite Iff.rfl (fun _ => refuse_agrees) fun _ => ?_
  refine simulates_bind (write_agrees hp fun _ => rfl) fun _ => ?_
  exact simulates_bind (record_agrees _) fun _ => resumeRest_agrees hp nick _

theorem ircDccResumeReverse_agrees (dccid : ℕ) (ctx : Option ℕ) (callback : ReverseCallback)
    (nick : Option Bytes) (filePosition token : ℕ) :
    Simulates Fault.halt (Represents n ps)
      (ircDccResumeReverse dccid ctx callback nick filePosition token)
      (DccSessions.ircDccResumeReverse dccid ctx callback nick filePosition token) := by
  refine simulates_find _ true (simulates_pure 1) fun p d hp hfound => relates_load_found fun next => ?_
  have hid : d.id = dccid := by simpa using hfound
  subst hid
  refine simulates_ite Iff.rfl (fun _ => refuse_agrees) fun _ => ?_
  refine simulates_bind (write_agrees hp fun _ => rfl) fun _ => ?_
  exact simulates_bind (record_agrees _) fun _ => resumeRest_agrees hp nick _

theorem ircDccAcceptReverse_agrees (env : Env) (dccid : ℕ) (ctx : Option ℕ)
    (callback : DataCallback) (nick : Option Bytes) (filename : Bytes) (size token : ℕ) :
    Simulates Fault.halt (Represents n ps)
      (ircDccAcceptReverse env dccid ctx callback nick filename size token)
      (DccSessions.ircDccAcceptReverse env dccid ctx callback nick filename size token) := by
  refine simulates_find _ true (simulates_pure 1) fun p d hp hfound => relates_load_found fun next => ?_
  have hid : d.id = dccid := by simpa using hfound
  subst hid
  refine simulates_ite Iff.rfl (fun _ => refuse_agrees) fun _ => ?_
  cases env.inetPton with
  | none => exact simulates_bind (setLasterror_agrees _) fun _ => simulates_pure 1
  | some addr =>
    refine simulates_get_bind fun s c h => ?_
    rw [h.beside.cfg]
    refine simulates_bind (simulates_discard (ircCmdCtcpRequest_agrees nick _)) fun _ => ?_
    refine simulates_bind (write_agrees hp fun _ => rfl) fun _ => ?_
    refine simulates_bind (record_agrees _) fun _ => ?_
    exact simulates_bind unlock_agrees fun _ => simulates_pure 0

theorem perform_agrees (dccid : ℕ) (call : DccOperation) :
    Simulates Fault.halt (Represents n ps) (perform dccid call) (call.perform dccid) := by
  cases call with
  | destroy => exact ircDccDestroy_agrees dccid
  | decline => exact ircDccDecline_agrees dccid
  | accept env ctx callback => exact ircDccAccept_agrees env dccid ctx callback
  | resume ctx callback nick filePosition =>
    exact ircDccResume_agrees dccid ctx callback nick filePosition
  | acceptReverse env ctx callback nick filename size token =>
    exact ircDccAcceptReverse_agrees env dccid ctx callback nick filename size token
  | resumeReverse ctx callback nick filePosition token =>
    exact ircDccResumeReverse_agrees dccid ctx callback nick filePosition token

theorem performAll_agrees (dccid : ℕ) (calls : List DccOperation) :
    Simulates Fault.halt (Represents n ps) (performAll dccid calls)
      (FreeCallbacks.performAll dccid calls) := by
  induction calls with
  | nil => exact simulates_pure ()
  | cons call calls ih =>
    exact simulates_bind (simulates_discard (perform_agrees dccid call)) fun _ => ih

theorem callCb_agrees {p id : ℕ} (hp : (p, id) ∈ ps) (calls : List DccOperation) :
    Simulates Fault.halt (Represents n ps) (callCb p calls) (FreeCallbacks.callCb id calls) := by
  intro s c h
  obtain ⟨d, next, hlookup, hid, hfind⟩ := h.lookup hp
  have hget : (get : ClientM Client).run c = .ok c c := rfl
  rw [callCb, FreeCallbacks.callCb, run_bind_of_ok (load_run hlookup), run_bind_of_ok hget, hfind]
  subst hid
  have hcalls : Simulates Fault.halt (Represents n ps)
      (do
        if d.cb.isNone then
          throw (.halt .nullCallback)
        performAll d.id calls)
      (do
        if d.cb.isNone then
          throw .nullCallback
        FreeCallbacks.performAll d.id calls) :=
    simulates_ite Iff.rfl
      (fun _ => simulates_bind (simulates_throw _) fun _ => performAll_agrees d.id calls)
      fun _ => performAll_agrees d.id calls
  exact hcalls s c h

theorem callReverseCb_agrees {p id : ℕ} (hp : (p, id) ∈ ps) (calls : List DccOperation) :
    Simulates Fault.halt (Represents n ps) (callReverseCb p calls)
      (FreeCallbacks.callReverseCb id calls) := by
  intro s c h
  obtain ⟨d, next, hlookup, hid, hfind⟩ := h.lookup hp
  have hget : (get : ClientM Client).run c = .ok c c := rfl
  rw [callReverseCb, FreeCallbacks.callReverseCb, run_bind_of_ok (load_run hlookup),
    run_bind_of_ok hget, hfind]
  subst hid
  have hcalls : Simulates Fault.halt (Represents n ps)
      (do
        if d.reverseCb.isNone then
          throw (.halt .nullCallback)
        performAll d.id calls)
      (do
        if d.reverseCb.isNone then
          throw .nullCallback
        FreeCallbacks.performAll d.id calls) :=
    simulates_ite Iff.rfl
      (fun _ => simulates_bind (simulates_throw _) fun _ => performAll_agrees d.id calls)
      fun _ => performAll_agrees d.id calls
  exact hcalls s c h

theorem modify_agrees (env env' : Env) (memory : Option ℕ) (calls : List DccOperation) {p id : ℕ}
    (hp : (p, id) ∈ ps) {f : DccSession → DccSession} (hf : ∀ d, (f d).id = d.id) :
    Simulates Fault.halt (Represents n ps) ((requests env memory calls).modify p f)
      ((FreeCallbacks.requests env' calls).modify id f) := write_agrees hp hf

theorem acceptResumeReverse_agrees (env env' : Env) (memory : Option ℕ) (size token : ℕ)
    (calls : List DccOperation) :
    Simulates Fault.halt (Represents n ps) ((requests env memory calls).acceptResumeReverse size token)
      ((FreeCallbacks.requests env' calls).acceptResumeReverse size token) := by
  refine simulates_find _ true (simulates_pure ()) fun p d hp _ => relates_load_found fun next => ?_
  refine simulates_ite Iff.rfl (fun _ => simulates_pure ()) fun _ => ?_
  refine simulates_bind (modify_agrees _ _ _ _ hp fun _ => rfl) fun _ => ?_
  exact simulates_bind unlock_agrees fun _ => callReverseCb_agrees hp calls

theorem acceptResume_agrees (env env' : Env) (memory : Option ℕ) (port size : ℕ)
    (calls : List DccOperation) :
    Simulates Fault.halt (Represents n ps) ((requests env memory calls).acceptResume port size)
      ((FreeCallbacks.requests env' calls).acceptResume port size) := by
  refine simulates_find _ true (simulates_pure ()) fun p d hp _ => relates_load_found fun next => ?_
  refine simulates_ite Iff.rfl (fun _ => simulates_pure ()) fun _ => ?_
  refine simulates_bind (modify_agrees _ _ _ _ hp fun _ => rfl) fun _ => ?_
  exact simulates_bind unlock_agrees fun _ => callCb_agrees hp calls

theorem turn_agrees {p id : ℕ} (hp : (p, id) ∈ ps) :
    Turn.Alike (fun _ _ => Simulates Fault.halt (Represents n ps)) (turn p)
      (FreeCallbacks.turn id) where
  pure := simulates_pure ()
  bind h h' := simulates_bind h fun _ => h'
  lock := lock_agrees
  unlock := unlock_agrees
  received _ _ _ h := h
  acknowledged _ _ _ _ h := h
  modify _ _ _ _ := by
    dsimp only [turn, FreeCallbacks.turn]
    exact write_agrees hp fun _ => rfl
  withConfig hk := simulates_get_bind fun s c h => by
    rw [h.beside.cfg]
    exact hk c.cfg
  destroy := simulates_load hp fun node hid => by
    rw [hid]
    exact libircDccDestroyNolock_agrees id

theorem processDescriptor_agrees {p id : ℕ} (hp : (p, id) ∈ ps) (ready : SocketReady) :
    Simulates Fault.halt (Represents n ps) (processDescriptor p ready)
      (FreeCallbacks.processDescriptor id ready) := by
  intro s c h
  obtain ⟨d, next, hlookup, hid, hfind⟩ := h.lookup hp
  have hlook : (DccSessions.libircFindDccSession id false).run c = .ok (some d) c := by
    rw [DccSessions.libircFindDccSession, libircFind_run_nolock, hfind]
  rw [processDescriptor, FreeCallbacks.processDescriptor, run_bind_of_ok (load_run hlookup),
    run_bind_of_ok hlook]
  subst hid
  refine (turn_agrees hp).processDescriptor d ?_ s c h
  exact SocketReady.turn_alike (fun calls => callCb_agrees hp calls) ready

end operations

end Xdccget.SessionNodesAgree
