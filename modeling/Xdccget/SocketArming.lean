import Xdccget.StreamEffects

set_option autoImplicit false

/-!
# When the socket is watched

`irc_add_select_descriptors` watches for reading while `incoming_buf` has room, and for
writing while `outgoing_buf` holds a CRLF. A write that leaves only the LF of a text, or
a read that fills the buffer without completing a line, stops the session from being
watched.
-/
namespace Xdccget.SocketArming
open CText DccMessages PairFraming StepRuns SessionStreams StreamEffects
open ClientState hiding ircSendRaw
open IrcParser (slice)

def EndsLine (s : Bytes) : Prop := s = [] ∨ ∃ body, s = body ++ [cr, lf]

theorem EndsLine.append {s t : Bytes} (hs : EndsLine s) (ht : EndsLine t) : EndsLine (s ++ t) := by
  rcases ht with rfl | ⟨body, rfl⟩
  · rwa [List.append_nil]
  · exact Or.inr ⟨s ++ body, by rw [List.append_assoc]⟩

theorem EndsLine.length {s : Bytes} (h : EndsLine s) : s.length ≠ 1 := by
  rcases h with rfl | ⟨body, rfl⟩
  · simp
  · simp

theorem EndsLine.drop {s : Bytes} {n : ℕ} (h : EndsLine s) (hn : n + 1 ≠ s.length) :
    EndsLine (s.drop n) := by
  rcases h with rfl | ⟨body, rfl⟩
  · exact Or.inl List.drop_nil
  · rcases Nat.lt_or_ge body.length n with hlt | hge
    · left
      apply List.drop_eq_nil_of_le
      simp only [List.length_append, List.length_cons, List.length_nil] at hn ⊢
      omega
    · exact Or.inr ⟨body.drop n, List.drop_append_of_le_length hge⟩

theorem EndsLine.hasPair {s : Bytes} (h : EndsLine s) (hpos : 0 < s.length) : HasPair cr lf s := by
  rcases h with rfl | ⟨body, rfl⟩
  · cases hpos
  · exact (List.suffix_append body [cr, lf]).isInfix

theorem endsLine_queued (calls : List (ℕ × Bytes)) : EndsLine (queued calls) := by
  induction calls with
  | nil => exact Or.inl rfl
  | cons call calls ih =>
    have hsplit : queued (call :: calls) = queued [call] ++ queued calls :=
      queued_append [call] calls
    rw [hsplit]
    refine EndsLine.append ?_ ih
    by_cases hzero : call.1 = 0
    · exact Or.inr ⟨snprintf 1024 call.2, by simp [queued, hzero]⟩
    · exact Or.inl (by simp [queued, hzero])

/-- The read of the event completes a line or leaves room, and its write does not stop in front
    of the last byte. -/
structure Unstalled (k : Link) (e : IoEvent) : Prop where
  read : (k.session.incoming ++ arrived k.session e).length = libircBufferSize - 1 →
    HasPair cr lf (k.session.incoming ++ arrived k.session e)
  write : (written k.session e).length + 1 ≠ k.session.outgoing.length

structure Fluent (k : Link) : Prop where
  settled : Settled k.session
  sock : 0 ≤ k.session.sock
  room : k.session.incomingOffset < libircBufferSize - 1
  ends : EndsLine k.session.outgoing

theorem written_length_le (s : IrcSession) (e : IoEvent) :
    (written s e).length ≤ s.outgoing.length := by
  rw [IrcSession.outgoing, slice_length]
  cases e with
  | writable a =>
    rw [written]
    split_ifs
    · rw [taken, slice_length]
      exact count_le s a.send
    · exact Nat.zero_le _
  | _ => exact Nat.zero_le _

theorem arrived_room {s : IrcSession} (e : IoEvent) (h : Bounded s) :
    (s.incoming ++ arrived s e).length < libircBufferSize := by
  rw [List.length_append, IrcSession.incoming, slice_length]
  cases e with
  | readable a replies =>
    rw [arrived]
    split_ifs
    · exact data_room a.recv h.incoming
    · exact h.incoming
  | _ => exact h.incoming

theorem step_fluent {k : Link} {e : IoEvent} (h : Fluent k) (he : Unstalled k e) :
    Fluent (step k e) := by
  have heffect := step_effect e h.settled
  refine ⟨heffect.settled, heffect.sock ▸ h.sock, ?_, ?_⟩
  · obtain ⟨lines, -, hframed⟩ := heffect.framed
    have hrest : (step k e).session.incomingOffset = (step k e).session.incoming.length :=
      (slice_length _ _ _).symm
    have hroom := arrived_room e h.settled.bounded
    have hsize : libircBufferSize = 2048 := rfl
    rw [hrest]
    cases lines with
    | nil =>
      have hsame : k.session.incoming ++ arrived k.session e = (step k e).session.incoming :=
        hframed.split
      have hread := he.read
      rw [hsame] at hroom hread
      have hne : (step k e).session.incoming.length ≠ libircBufferSize - 1 :=
        fun heq => hframed.rest_ok (hread heq)
      omega
    | cons line lines =>
      have hline := (hframed.lines_ok line List.mem_cons_self).two_le
      have hsplit := congrArg List.length hframed.split
      have hlen : (k.session.incoming ++ arrived k.session e).length =
          line.length + lines.flatten.length + (step k e).session.incoming.length := by
        rw [hsplit, List.flatten_cons, List.length_append, List.length_append]
      omega
  · obtain ⟨more, -, hgrown⟩ := heffect.grown
    have hshort := written_length_le k.session e
    have hends : EndsLine (k.session.outgoing ++ queued more) := h.ends.append (endsLine_queued more)
    have hrest : (step k e).session.outgoing =
        (k.session.outgoing ++ queued more).drop (written k.session e).length := by
      rw [← hgrown, List.drop_left]
    rw [hrest]
    apply hends.drop
    have hmore := (endsLine_queued more).length
    have hwrite := he.write
    rw [List.length_append]
    omega

theorem armed_of_fluent {k : Link} (h : Fluent k) (hstate : k.session.state = .connected) :
    (ircAddSelectDescriptors k.session).2.2.read = true ∧
      (0 < k.session.outgoingOffset → (ircAddSelectDescriptors k.session).2.2.write = true) := by
  have hrefuses : ¬ refuses k.session := by
    have hsock := h.sock
    rintro (hneg | hinit | hdown)
    · omega
    · rw [hstate] at hinit
      cases hinit
    · rw [hstate] at hdown
      cases hdown
  unfold ircAddSelectDescriptors
  rw [if_neg hrefuses, hstate]
  constructor
  · simp [h.room]
  · intro hpos
    have hlen : 0 < k.session.outgoing.length := by
      rw [IrcSession.outgoing, slice_length]
      exact hpos
    have hpair := h.ends.hasPair hlen
    rcases findcrlf_cases k.session.outgoingBuf k.session.outgoingOffset with
      ⟨-, hnone⟩ | ⟨htwo, -⟩
    · exact absurd hpair hnone
    · have hfound : 0 < libircFindcrlf k.session.outgoingBuf k.session.outgoingOffset := by omega
      simp [hfound]

/-- While no write leaves a lone LF and no read fills the buffer in the middle of a line, a
    connected session is watched for reading, and for writing whenever something waits. -/
theorem armed_while_connected (sock : ℕ) (ssl : Bool) (serverPassword : Option Bytes) (nick : Bytes)
    (realname : Option Bytes) (events : List IoEvent)
    (hall : AllAlong step Unstalled
      (.open_ (connectingSession sock ssl serverPassword nick realname)) events) :
    let k := run step (.open_ (connectingSession sock ssl serverPassword nick realname)) events
    k.session.state = .connected →
      (ircAddSelectDescriptors k.session).2.2.read = true ∧
        (0 < k.session.outgoingOffset → (ircAddSelectDescriptors k.session).2.2.write = true) := by
  have hstep : ∀ k e, Fluent k → Unstalled k e → Fluent (step k e) := fun _ _ => step_fluent
  have hstart : Fluent (.open_ (connectingSession sock ssl serverPassword nick realname)) :=
    ⟨connectingSession_settled sock ssl serverPassword nick realname, Int.natCast_nonneg sock,
      Nat.succ_pos 2046, Or.inl rfl⟩
  exact armed_of_fluent (run_invariant_of_allAlong hstep hstart hall)

/-- The 36 bytes that are queued on connecting, then a write that takes `n` of them. -/
def partialWrite (n : ℕ) : List IoEvent :=
  [.connecting ⟨true, id⟩, .writable ⟨.wantRead, .accepted n⟩]

theorem armed_while_connected_crlf_left :
    let k := run step (.open_ (connectingSession 3 false none (bytes "a") none)) (partialWrite 34)
    k.session.outgoing = [cr, lf] ∧ (ircAddSelectDescriptors k.session).2.2.write = true :=
  ⟨by decide +kernel,
    (armed_while_connected 3 false none (bytes "a") none (partialWrite 34)
      ⟨⟨fun h => absurd h (by decide +kernel), by decide +kernel⟩,
        ⟨fun h => absurd h (by decide +kernel), by decide +kernel⟩, trivial⟩
      (by decide +kernel)).2 (by decide +kernel)⟩

/-- The LF waits in the buffer of a connected session that is not watched for writing. -/
theorem lone_lf_not_armed :
    let k := run step (.open_ (connectingSession 3 false none (bytes "a") none)) (partialWrite 35)
    k.session.state = .connected ∧ k.session.outgoing = [lf] ∧
      ¬ (0 < k.session.outgoingOffset → (ircAddSelectDescriptors k.session).2.2.write = true) := by
  decide +kernel

end Xdccget.SocketArming
