import Xdccget.ByteCounts
import Xdccget.TransferFrames

set_option autoImplicit false

/-!
# The acknowledged words

What the peer of a transfer receives back: the words of the acknowledgements, each
as far as the socket has taken it. The words stay whole as long as `send` takes
none of them in part.
-/
namespace Xdccget.Acknowledgements
open CText DccMessages ClientState DccSessions Downloads DccEvents HaltingPrograms SessionSpecs
  TableChanges StepRuns
open TransferFrames (Carries)
open ByteCounts (htobe32 bigEndian bigEndian_htobe32)

/-- The value and the length of an acknowledgement of the session that a socket took. -/
def ackOf (id : ℕ) : Action → Option (ℕ × ℕ)
  | .acknowledged i offset sent => if i = id then some (offset, sent) else none
  | _ => none

def acks (id : ℕ) (s : Client) : List (ℕ × ℕ) := s.trace.filterMap (ackOf id)

def ackStream (id : ℕ) (s : Client) : Bytes :=
  (acks id s).flatMap fun a => (htobe32 a.1).take a.2

def ackWords (id : ℕ) (s : Client) : Bytes := (acks id s).flatMap fun a => htobe32 a.1

def Aligned (s : Client) : Prop := ∀ id, ackStream id s = ackWords id s

/-- The session whose acknowledgement the step completes, and how many bytes `send` takes. -/
def completed (s : Client) : Event → Option (DccSession × ℕ)
  | .socket id (.confirming (.sent (len + 1))) =>
    if s.halted = none then
      ((s.dccSessions.find? fun d => d.id = id).filter fun d => d.state = .confirmSize).map
        fun d => (d, len + 1)
    else none
  | _ => none

/-- `send` takes a word as a whole. -/
def WholeSend (s : Client) (e : Event) : Prop :=
  ∀ d sent, completed s e = some (d, sent) → (htobe32 d.fileConfirmOffset).length ≤ sent

def Unacked (s t : Client) : Prop := ∀ id, acks id t = acks id s

theorem unacked_frame : Frame Unacked where
  refl _ _ := rfl
  trans _ _ _ h h' id := (h' id).trans (h id)

@[simp] theorem htobe32_length (value : ℕ) : (htobe32 value).length = 4 := rfl

section programs
variable {s t : Client} {l : List Action}

def NoAck (a : Action) : Prop := ∀ id offset sent, a ≠ .acknowledged id offset sent

theorem ackOf_of_noAck {a : Action} (h : NoAck a) (id : ℕ) : ackOf id a = none := by
  cases a with
  | acknowledged i offset sent => exact absurd rfl (h i offset sent)
  | _ => rfl

theorem unacked_append (h : t.trace = s.trace ++ l) (hl : ∀ a ∈ l, NoAck a) : Unacked s t := by
  intro id
  have hnone : l.filterMap (ackOf id) = [] :=
    List.filterMap_eq_nil_iff.mpr fun a ha => ackOf_of_noAck (hl a ha) id
  rw [acks, h, List.filterMap_append, hnone, List.append_nil, acks]

theorem unacked_of_trace (h : t.trace = s.trace) : Unacked s t :=
  unacked_append (h.trans (List.append_nil _).symm) (by simp)

theorem unacked_modify {f : Client → Client} (h : ∀ s, (f s).trace = s.trace) :
    Moves Unacked (modify f : ClientM PUnit) := fun s => unacked_of_trace (h s)

theorem unacked_record {a : Action} (h : NoAck a) : Moves Unacked (record a) := fun _ =>
  unacked_append rfl (by simpa using h)

theorem unacked_ircSendRaw (text : Bytes) : Moves Unacked (ircSendRaw text) := by
  intro s
  obtain ⟨ret, net, l, hrun, hl⟩ := ircSendRaw_run text s
  rw [endState_of_ok hrun]
  refine unacked_append rfl ?_
  rcases hl with rfl | rfl <;> simp [NoAck]

theorem unacked_ircCmdCtcpRequest (nick : Option Bytes) (reply : Bytes) :
    Moves Unacked (ircCmdCtcpRequest nick reply) := by
  cases nick with
  | none => exact unacked_frame.bind (unacked_modify fun _ => rfl) fun _ => unacked_frame.pure _
  | some n => exact unacked_ircSendRaw _

theorem unacked_carries (nick : Option Bytes) : Carries Unacked nick fun _ => True where
  frame := unacked_frame
  aside _ _ _ _ _ htrace := unacked_of_trace htrace
  elsewhere _ _ _ _ htrace := unacked_of_trace htrace
  recorded _ _ ha := unacked_record ha
  quit := unacked_ircSendRaw quitLine
  named := trivial
  resume _ _ := unacked_ircCmdCtcpRequest nick _
  resumeReverse _ _ := unacked_ircCmdCtcpRequest nick _
  sendReverse _ _ _ _ _ _ := unacked_ircCmdCtcpRequest nick _

theorem unacked_lock : Moves Unacked libircMutexLock := unacked_modify fun _ => rfl

theorem unacked_unlock : Moves Unacked libircMutexUnlock := unacked_modify fun _ => rfl

theorem unacked_modifySession (id : ℕ) (f : DccSession → DccSession) :
    Moves Unacked (modifySession id f) := unacked_modify fun _ => rfl

theorem unacked_libircDccDestroyNolock (id : ℕ) : Moves Unacked (libircDccDestroyNolock id) :=
  (unacked_carries none).moves_libircDccDestroyNolock id

theorem unacked_callCb (id status : ℕ) (data : Option Bytes) (length : ℕ) :
    Moves Unacked (callCb noEnv id status data length) :=
  (unacked_carries none).moves_callCb noEnv id status data length

theorem unacked_report (id status : ℕ) {rest : ClientM Unit} (hrest : Moves Unacked rest) :
    Moves Unacked (do
      libircMutexUnlock
      callCb noEnv id status none 0
      libircMutexLock
      rest) :=
  unacked_frame.bind unacked_unlock fun _ => unacked_frame.bind (unacked_callCb _ _ _ _) fun _ =>
    unacked_frame.bind unacked_lock fun _ => hrest

theorem unacked_recvDccFile (id : ℕ) (ssl : Bool) (results : List RecvResult) :
    Moves Unacked (recvDccFile id ssl results) := by
  induction results with
  | nil => exact unacked_frame.pure _
  | cons result more ih =>
    cases result with
    | again => exact moves_ite (unacked_frame.pure _) ih
    | wantWrite => exact moves_ite (unacked_modifySession _ _) ih
    | error => exact unacked_report id _ (unacked_libircDccDestroyNolock id)
    | closed => exact unacked_report id _ (unacked_libircDccDestroyNolock id)
    | data chunk =>
      have hchunk : Moves Unacked (receiveChunk id chunk) := by
        refine unacked_frame.bind unacked_unlock fun _ => ?_
        refine unacked_frame.bind (unacked_record (by simp [NoAck])) fun _ => ?_
        refine unacked_frame.bind (unacked_modifySession _ _) fun _ => ?_
        refine unacked_frame.bind (unacked_callCb _ _ _ _) fun _ => ?_
        refine unacked_frame.get_bind fun s => ?_
        exact unacked_frame.bind (unacked_modifySession _ _) fun _ => unacked_lock
      exact unacked_frame.bind hchunk fun _ => moves_ite ih (unacked_frame.pure _)

theorem acks_sendCurrentFileOffsetToSender (d : DccSession) (len id : ℕ) (s : Client) :
    acks id (endState (sendCurrentFileOffsetToSender d (.sent (len + 1))) s) =
      acks id s ++ if d.id = id then [(d.fileConfirmOffset % 2 ^ 32, len + 1)] else [] := by
  have hrest : Moves Unacked
      (if d.receivedFileSize = d.fileConfirmOffset then receiveFailed d.id libircErrOk
        else modifySession d.id fun d => { d with state := .connected }) :=
    moves_ite (unacked_report d.id _ (unacked_libircDccDestroyNolock d.id)) (unacked_modifySession _ _)
  have hend := endState_bind_moves unacked_frame.refl (fun _ => hrest) s
    (x := record (.acknowledged d.id (d.fileConfirmOffset % 2 ^ 32) (len + 1)))
  refine (hend id).trans ?_
  change (s.trace ++ [Action.acknowledged d.id (d.fileConfirmOffset % 2 ^ 32) (len + 1)]).filterMap
    (ackOf id) = _
  rw [List.filterMap_append, acks]
  by_cases h : d.id = id <;> simp [ackOf, h]

/-- No other result of `send` counts as an acknowledgement. -/
theorem unacked_of_not_sent (d : DccSession) {result : SendResult}
    (h : ∀ len, result ≠ .sent (len + 1)) : Moves Unacked (sendCurrentFileOffsetToSender d result) := by
  have hreport (status : ℕ) : Moves Unacked (do
      libircMutexUnlock
      callCb noEnv d.id status none 0
      libircMutexLock) :=
    unacked_frame.bind unacked_unlock fun _ => unacked_frame.bind (unacked_callCb _ _ _ _) fun _ =>
      unacked_lock
  cases result with
  | again => exact unacked_frame.pure _
  | wantRead => exact moves_ite (unacked_modifySession _ _) (unacked_frame.pure _)
  | error => exact hreport _
  | sent len =>
    cases len with
    | zero => exact hreport _
    | succ len => exact absurd rfl (h len)

theorem unacked_processDescriptor {id : ℕ} {ready : SocketReady}
    (h : ∀ d len, s.dccSessions.find? (fun d => d.id = id) = some d → d.state = .confirmSize →
      ready ≠ .confirming (.sent (len + 1))) :
    Unacked s (endState (processDescriptor id ready) s) := by
  have hfind := libircFind_run_nolock (fun d => decide (d.id = id)) s
  rw [EventSpecs.processDescriptor_eq, libircFindDccSession, endState_bind_of_ok hfind]
  cases hd : s.dccSessions.find? (fun d => decide (d.id = id)) with
  | none => exact unacked_frame.refl s
  | some d =>
    dsimp only
    split
    · exact moves_ite (unacked_modifySession _ _) (unacked_libircDccDestroyNolock id) s
    · exact unacked_recvDccFile id d.ssl _ s
    · next result hstate =>
      refine unacked_of_not_sent d (fun len hsent => ?_) s
      exact h d len hd hstate (congrArg SocketReady.confirming hsent)
    · exact unacked_modifySession _ _ s
    · exact unacked_frame.refl s

theorem acks_step (hs : s.halted = none) (e : Event) (id : ℕ) :
    acks id (step s e) = acks id (endState (handle e) s) := by
  rcases step_eq_or hs e with heq | ⟨fault, heq⟩
  · rw [heq]
  · rw [heq]
    rfl

theorem acks_handle_socket (id : ℕ) (ready : SocketReady) (i : ℕ) (s : Client) :
    acks i (endState (handle (.socket id ready)) s) =
      acks i (endState (processDescriptor id ready) (withNet s (lockedNet s.net))) := by
  have hlock : libircMutexLock.run s = .ok ⟨⟩ (withNet s (lockedNet s.net)) := rfl
  unfold handle
  rw [endState_bind_of_ok hlock]
  exact endState_bind_moves unacked_frame.refl (fun _ => unacked_unlock) _ i

theorem unacked_step {e : Event} (h : completed s e = none) : Unacked s (step s e) := by
  cases hs : s.halted with
  | some fault =>
    rw [step_of_halted hs]
    exact unacked_frame.refl s
  | none =>
    cases e with
    | request env nick req =>
      have hbears := (unacked_carries nick).toBears
      exact hbears.step_request env nick req (fun _ _ => trivial) fun _ => unacked_carries nick
    | socket id ready =>
      intro i
      rw [acks_step hs]
      rw [acks_handle_socket]
      refine unacked_processDescriptor (s := withNet s (lockedNet s.net)) ?_ i
      rintro d len hd hstate rfl
      rw [withNet_dccSessions] at hd
      simp [completed, hs, hd, hstate] at h
    | addDescriptors | outputTimer =>
      intro i
      rw [acks_step hs]
      exact unacked_modify (fun _ => rfl) s i

theorem step_acks {e : Event} {d : DccSession} {sent : ℕ} (h : completed s e = some (d, sent)) :
    0 < sent ∧ ∀ id, acks id (step s e) =
      acks id s ++ if d.id = id then [(d.fileConfirmOffset % 2 ^ 32, sent)] else [] := by
  unfold completed at h
  split at h
  · next i len =>
    split at h
    · next hs =>
      obtain ⟨d', hfilter, heq⟩ := Option.map_eq_some_iff.mp h
      obtain ⟨rfl, rfl⟩ := Prod.mk.inj heq
      obtain ⟨hd, hstate⟩ := Option.filter_eq_some_iff.mp hfilter
      refine ⟨Nat.succ_pos len, fun id => ?_⟩
      have hfind := libircFind_run_nolock (fun d => decide (d.id = i)) (withNet s (lockedNet s.net))
      rw [acks_step hs, acks_handle_socket]
      rw [EventSpecs.processDescriptor_eq, libircFindDccSession, endState_bind_of_ok hfind,
        withNet_dccSessions, hd]
      simp only [decide_eq_true_eq] at hstate
      simp only [hstate]
      exact acks_sendCurrentFileOffsetToSender d' len id (withNet s (lockedNet s.net))
    · cases h
  · cases h

end programs

section alignment
variable {s : Client} {e : Event}

theorem ackStream_append {t : Client} {id value sent : ℕ}
    (h : acks id t = acks id s ++ [(value, sent)]) :
    ackStream id t = ackStream id s ++ (htobe32 value).take sent ∧
      ackWords id t = ackWords id s ++ htobe32 value := by
  simp [ackStream, ackWords, h]

/-- A step keeps the words of its peer whole exactly when `send` takes a whole word. -/
theorem aligned_step (h : Aligned s) : Aligned (step s e) ↔ WholeSend s e := by
  cases hdone : completed s e with
  | none =>
    refine iff_of_true (fun id => ?_) fun d sent hsome => ?_
    · have hsame := unacked_step hdone id
      rw [ackStream, ackWords, hsame]
      exact h id
    · rw [hdone] at hsome
      cases hsome
  | some done =>
    obtain ⟨d, sent⟩ := done
    obtain ⟨-, hacks⟩ := step_acks hdone
    have hown := hacks d.id
    rw [if_pos rfl] at hown
    obtain ⟨hstream, hwords⟩ := ackStream_append hown
    constructor
    · intro haligned d' sent' hsome
      rw [hdone] at hsome
      cases hsome
      have hsplit := haligned d.id
      rw [hstream, hwords, h d.id] at hsplit
      have hlen := congrArg List.length (List.append_cancel_left hsplit)
      rw [List.length_take, htobe32_length] at hlen
      rw [htobe32_length]
      omega
    · intro hwhole id
      by_cases hid : d.id = id
      · subst hid
        have hle : (htobe32 (d.fileConfirmOffset % 2 ^ 32)).length ≤ sent := hwhole d sent hdone
        rw [hstream, hwords, h d.id, List.take_of_length_le hle]
      · have hsame := hacks id
        rw [if_neg hid, List.append_nil] at hsame
        rw [ackStream, ackWords, hsame]
        exact h id

end alignment

theorem aligned_initial (cfg : XdccGetConfig) (net : Net) (files : Bytes → Option Bytes) :
    Aligned (initial cfg net files) := fun _ => rfl

/-- Behind every step of a run the peers have received whole words, each of them the offset that
    was computed for it, if and only if `send` has taken every word as a whole. -/
theorem words_aligned_iff (cfg : XdccGetConfig) (net : Net) (files : Bytes → Option Bytes)
    (events : List Event) :
    AllAlong step (fun s e => Aligned (step s e)) (initial cfg net files) events ↔
      AllAlong step WholeSend (initial cfg net files) events :=
  allAlong_iff_of_step (fun _ _ => aligned_step) (aligned_initial cfg net files)

/-- One byte of a file has arrived, and `send` takes one byte of its acknowledgement. -/
def shortSend : List Event :=
  [botRequest "DCC SEND f 1 4000 9", .socket 1 (.connecting true),
    .socket 1 (.receiving [.data ⟨bytes "x", by decide, by decide⟩]),
    .socket 1 (.confirming (.sent 1))]

theorem short_send_cuts_word :
    ¬ AllAlong step (fun s e => Aligned (step s e)) (initial (oneBot false) connected noFiles)
      shortSend := by
  rintro ⟨-, -, -, hcut, -⟩
  exact absurd (hcut 1) (by decide +kernel)

end Xdccget.Acknowledgements
