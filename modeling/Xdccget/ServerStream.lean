import Xdccget.HaltingPrograms
import Xdccget.StreamEffects

set_option autoImplicit false

/-!
# The streams of a plain connection

Without the TLS layer every byte that a socket takes or gives is counted. What was
sent and what waits is what was queued, and the blocks are the lines of what came in,
however the two streams are cut.
-/
namespace Xdccget.ServerStream
open CText DccMessages PairFraming StepRuns SessionStreams StreamEffects
open ClientState hiding ircSendRaw
open IrcParser (slice)

structure Kept (k : Link) : Prop where
  settled : Settled k.session
  outgoing : k.sent ++ k.session.outgoing = queued k.calls
  incoming : Framed cr lf k.received k.blocks k.session.incoming

theorem kept_open (sock : ℕ) (ssl : Bool) (serverPassword : Option Bytes) (nick : Bytes)
    (realname : Option Bytes) :
    Kept (.open_ (connectingSession sock ssl serverPassword nick realname)) where
  settled := connectingSession_settled sock ssl serverPassword nick realname
  outgoing := rfl
  incoming := framed_nil

theorem kept_of_effect {k k' : Link} {arrived written : Bytes}
    (h : Effect k k' arrived [] written []) (hk : Kept k) : Kept k' where
  settled := h.settled
  outgoing := by
    obtain ⟨more, hcalls, hgrown⟩ := h.grown
    calc k'.sent ++ k'.session.outgoing
        = k.sent ++ (written ++ k'.session.outgoing) := by
          rw [h.sent, List.append_nil, List.append_assoc]
      _ = k.sent ++ k.session.outgoing ++ queued more := by rw [hgrown, List.append_assoc]
      _ = queued k'.calls := by rw [hk.outgoing, hcalls, queued_append]
  incoming := by
    obtain ⟨lines, hblocks, hframed⟩ := h.framed
    rw [h.received, List.append_nil, hblocks]
    exact hk.incoming.append hframed

theorem stranded_plain {s : IrcSession} (h : s.ssl = false) (e : IoEvent) : stranded s e = [] := by
  have hretries : ¬ writeRetries s := fun hr => by simp [writeRetries, h] at hr
  cases e <;> simp [stranded, hretries]

theorem uncounted_plain {s : IrcSession} (h : s.ssl = false) (e : IoEvent) : uncounted s e = [] := by
  have hretries : ¬ readRetries s := fun hr => by simp [readRetries, h] at hr
  cases e <;> simp [uncounted, hretries]

theorem step_plain {k : Link} (e : IoEvent) (hssl : k.session.ssl = false) (h : Kept k) :
    (step k e).session.ssl = false ∧ Kept (step k e) := by
  have heffect := step_effect e h.settled
  rw [stranded_plain hssl, uncounted_plain hssl] at heffect
  exact ⟨heffect.ssl.trans hssl, kept_of_effect heffect h⟩

theorem run_plain (sock : ℕ) (serverPassword : Option Bytes) (nick : Bytes) (realname : Option Bytes)
    (events : List IoEvent) :
    Kept (run step (.open_ (connectingSession sock false serverPassword nick realname)) events) := by
  have hstep : ∀ k e, k.session.ssl = false ∧ Kept k →
      (step k e).session.ssl = false ∧ Kept (step k e) := fun _ e h => step_plain e h.1 h.2
  exact (run_invariant hstep ⟨rfl, kept_open sock false serverPassword nick realname⟩ events).2

def delivered (k : Link) : IoEvent → Bytes
  | .readable a _ => if k.session.state = .connected then a.recv.data k.session else []
  | _ => []

theorem arrived_plain {k : Link} (h : k.session.ssl = false) (e : IoEvent) :
    arrived k.session e = delivered k e := by
  have hretries : ¬ readRetries k.session := fun hr => by simp [readRetries, h] at hr
  cases e <;> simp [arrived, delivered, hretries]

theorem received_step {k : Link} (e : IoEvent) (hssl : k.session.ssl = false) (h : Kept k) :
    (step k e).received = k.received ++ delivered k e := by
  have heffect := step_effect e h.settled
  rw [stranded_plain hssl, arrived_plain hssl] at heffect
  rw [heffect.received, List.append_nil]

theorem received_run {k : Link} (hssl : k.session.ssl = false) (h : Kept k) (events : List IoEvent) :
    (run step k events).received = k.received ++ concatAlong step delivered k events := by
  induction events generalizing k with
  | nil => exact (List.append_nil _).symm
  | cons e events ih =>
    obtain ⟨hssl', h'⟩ := step_plain e hssl h
    rw [run_cons, ih hssl' h', received_step e hssl h, concatAlong, List.append_assoc]

/-- Texts go out whole and in the order of the calls, and a refused call changes nothing. -/
theorem output_stream_integrity (sock : ℕ) (serverPassword : Option Bytes) (nick : Bytes)
    (realname : Option Bytes) (events : List IoEvent) :
    let k := run step (.open_ (connectingSession sock false serverPassword nick realname)) events
    k.sent ++ k.session.outgoing = queued k.calls ∧
      k.session.outgoingOffset < libircBufferSize ∧
      ∀ formatted, (ircSendRaw k.session formatted).1 = 1 →
        (ircSendRaw k.session formatted).2.outgoingBuf = k.session.outgoingBuf ∧
        (ircSendRaw k.session formatted).2.outgoingOffset = k.session.outgoingOffset := by
  have hkept := run_plain sock serverPassword nick realname events
  dsimp only
  generalize run step _ events = k at hkept
  have hfits := hkept.settled.bounded.outgoing
  refine ⟨hkept.outgoing, hfits, ?_⟩
  intro formatted hone
  have hcases := ircSendRaw_cases formatted hfits
  generalize ircSendRaw k.session formatted = r at hcases hone
  cases hcases with
  | refused err => exact ⟨rfl, rfl⟩
  | queued buf offset => cases hone

/-- The blocks are the terminated lines of what the reads were given and the buffer holds the rest,
    in whatever pieces it came, and while lines of at most 2047 bytes arrive each read has room. -/
theorem inbound_framing (sock : ℕ) (serverPassword : Option Bytes) (nick : Bytes)
    (realname : Option Bytes) (events : List IoEvent) :
    let opened := Link.open_ (connectingSession sock false serverPassword nick realname)
    let k := run step opened events
    let stream := concatAlong step delivered opened events
    k.received = stream ∧ Framed cr lf stream k.blocks k.session.incoming ∧
      (∀ lines rest, Framed cr lf stream lines rest →
        k.blocks = lines ∧ k.session.incoming = rest) ∧
      ∀ lines : List Bytes, (∀ line ∈ lines, Line cr lf line ∧ line.length ≤ 2047) →
        stream <+: lines.flatten → 0 < amount k.session := by
  intro opened k stream
  have hkept : Kept k := run_plain sock serverPassword nick realname events
  have hstream : k.received = stream :=
    received_run rfl (kept_open sock false serverPassword nick realname) events
  rw [← hstream]
  refine ⟨rfl, hkept.incoming, fun lines rest h => hkept.incoming.unique h, ?_⟩
  intro lines hlines hreceived
  have hshort := hkept.incoming.rest_short (by omega) hlines hreceived
  rw [IrcSession.incoming, slice_length] at hshort
  have hamount : amount k.session = 2047 - k.session.incomingOffset := usub64_of_le hshort.le
  omega

/-- The queue of the client model is the contents of `outgoing_buf`. -/
structure Represents (s : IrcSession) (c : Client) : Prop where
  state : c.net.state = s.state
  lasterror : c.net.lasterror = s.lasterror
  outgoing : c.net.outgoing = s.outgoing

theorem Represents.buffered {s : IrcSession} {c : Client} (h : Represents s c) :
    c.net.outgoing.length = s.outgoingOffset := by
  rw [h.outgoing, IrcSession.outgoing, slice_length]

/-- On that queue `irc_send_raw` does what it does on the buffer. -/
theorem ircSendRaw_refines {s : IrcSession} {c : Client} (formatted : Bytes)
    (hfits : s.outgoingOffset < libircBufferSize) (h : Represents s c) :
    ∃ c', (ClientState.ircSendRaw formatted).run c = .ok (ircSendRaw s formatted).1 c' ∧
      Represents (ircSendRaw s formatted).2 c' := by
  set buf := snprintf 1024 formatted with hbuf
  have hwide : usub64 libircBufferSize s.outgoingOffset = libircBufferSize - s.outgoingOffset :=
    usub64_of_le hfits.le
  unfold ClientState.ircSendRaw
  simp only [EStateM.run_bind, EStateM.run_get]
  by_cases hstate : s.state ≠ .connected
  · have hstate' : c.net.state ≠ .connected := h.state ▸ hstate
    have hvalue : ircSendRaw s formatted = (1, { s with lasterror := libircErrState }) := if_pos hstate
    refine ⟨{ c with net := { c.net with lasterror := libircErrState } }, ?_, ?_⟩
    · simp [hstate', hvalue, setLasterror]
    · rw [hvalue]
      exact ⟨h.state, rfl, h.outgoing⟩
  have hstate' : ¬ c.net.state ≠ .connected := h.state ▸ hstate
  by_cases hfull : libircBufferSize - s.outgoingOffset ≤ buf.length + 2
  · have hvalue : ircSendRaw s formatted = (1, { s with lasterror := libircErrNomem }) := by
      rw [ircSendRaw, if_neg hstate]
      dsimp only
      rw [hwide, if_pos hfull]
    rw [← h.buffered] at hfull
    refine ⟨{ c with net := { c.net with lasterror := libircErrNomem } }, ?_, ?_⟩
    · simp [hstate', ← hbuf, hfull, hvalue, setLasterror]
    · rw [hvalue]
      exact ⟨h.state, rfl, h.outgoing⟩
  · have hzero : (ircSendRaw s formatted).1 = 0 := by
      rw [ircSendRaw, if_neg hstate]
      dsimp only
      rw [hwide, if_neg hfull]
    rw [← h.buffered] at hfull
    have hcases := ircSendRaw_cases formatted hfits
    generalize ircSendRaw s formatted = r at hcases hzero
    cases hcases with
    | refused err => cases hzero
    | queued out offset hfits' hout =>
      let net := { c.net with outgoing := c.net.outgoing ++ buf ++ [cr, lf] }
      refine ⟨{ c with net := net, trace := c.trace ++ [.queued buf] }, ?_, ?_⟩
      · simp [hstate', ← hbuf, hfull, record, net]
      · refine ⟨h.state, h.lasterror, ?_⟩
        change c.net.outgoing ++ buf ++ [cr, lf] = slice out 0 offset
        rw [hout, h.outgoing, List.append_assoc]

end Xdccget.ServerStream
