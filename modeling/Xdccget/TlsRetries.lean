import Xdccget.ServerStream

set_option autoImplicit false

/-!
# Bytes that a retry over TLS carries

`session_socket_read` repeats a pending `SSL_write` and `session_socket_write` a pending
`SSL_read`. Both drop the count, so a retry that carries bytes is not accounted for:
what it sent stays in the buffer, what it read stays behind the offset.
-/
namespace Xdccget.TlsRetries
open CText PairFraming StepRuns SessionStreams StreamEffects ServerStream

/-- The event does not carry a byte through a retry. -/
def RetriesEmpty (k : Link) (e : IoEvent) : Prop :=
  stranded k.session e = [] ∧ uncounted k.session e = []

theorem step_kept {k : Link} {e : IoEvent} (h : Kept k) (hempty : RetriesEmpty k e) :
    Kept (step k e) := by
  have heffect := step_effect e h.settled
  rw [hempty.1, hempty.2] at heffect
  exact kept_of_effect heffect h

/-- While no retry carries a byte, what `SSL_write` took is the front of what was queued and
    what `SSL_read` gave is in the blocks and the buffer. -/
theorem exactly_once_over_tls (sock : ℕ) (serverPassword : Option Bytes) (nick : Bytes)
    (realname : Option Bytes) (events : List IoEvent)
    (hall : AllAlong step RetriesEmpty
      (.open_ (connectingSession sock true serverPassword nick realname)) events) :
    let k := run step (.open_ (connectingSession sock true serverPassword nick realname)) events
    k.sent <+: queued k.calls ∧ k.sent ++ k.session.outgoing = queued k.calls ∧
      k.blocks.flatten ++ k.session.incoming = k.received := by
  have hstep : ∀ k e, Kept k → RetriesEmpty k e → Kept (step k e) := fun _ _ => step_kept
  have hkept := run_invariant_of_allAlong hstep
    (kept_open sock true serverPassword nick realname) hall
  exact ⟨hkept.outgoing ▸ List.prefix_append _ _, hkept.outgoing, hkept.incoming.split.symm⟩

instance (k : Link) (e : IoEvent) : Decidable (RetriesEmpty k e) := by
  unfold RetriesEmpty
  infer_instance

/-- A read that has to wait for a write, then answers for the read and the write that follow. -/
def renegotiation (retry next : SendAnswer) : List IoEvent :=
  [.connecting ⟨true, id⟩, .readable ⟨.wantWrite, .wantRead⟩ [], .readable ⟨.wantRead, retry⟩ [],
    .writable ⟨.wantRead, next⟩]

theorem exactly_once_over_tls_renegotiated :
    let start := Link.open_ (connectingSession 3 true none (bytes "a") none)
    let k := run step start (renegotiation .wantWrite (.accepted 4))
    k.sent = bytes "NICK" ∧ k.sent <+: queued k.calls :=
  ⟨by decide +kernel, (exactly_once_over_tls 3 none (bytes "a") none
    (renegotiation .wantWrite (.accepted 4))
    ⟨by decide +kernel, by decide +kernel, by decide +kernel, by decide +kernel, trivial⟩).1⟩

/-- The retry sends four bytes that stay in the buffer, and the next write sends them again. -/
theorem sent_twice_over_tls :
    let start := Link.open_ (connectingSession 3 true none (bytes "a") none)
    let k := run step start (renegotiation (.accepted 4) (.accepted 4))
    k.sent = bytes "NICKNICK" ∧ ¬ k.sent <+: queued k.calls := by
  decide +kernel

/-- The bytes that are sent or waiting outnumber the queued ones, or the bytes that were read
    outnumber the ones passed on. -/
structure Miscounted (k : Link) : Prop where
  settled : Settled k.session
  surplus : (queued k.calls).length < (k.sent ++ k.session.outgoing).length ∨
    (k.blocks.flatten ++ k.session.incoming).length < k.received.length

theorem step_account {k : Link} (e : IoEvent) (h : Settled k.session) :
    (∃ n, (queued (step k e).calls).length = (queued k.calls).length + n ∧
      ((step k e).sent ++ (step k e).session.outgoing).length =
        (k.sent ++ k.session.outgoing).length + n + (uncounted k.session e).length) ∧
    ∃ n, ((step k e).blocks.flatten ++ (step k e).session.incoming).length =
        (k.blocks.flatten ++ k.session.incoming).length + n ∧
      (step k e).received.length = k.received.length + n + (stranded k.session e).length := by
  have heffect := step_effect e h
  constructor
  · obtain ⟨more, hcalls, hgrown⟩ := heffect.grown
    have hlen := congrArg List.length hgrown
    refine ⟨(queued more).length, ?_, ?_⟩
    · rw [hcalls, queued_append, List.length_append]
    · rw [heffect.sent]
      simp only [List.length_append] at hlen ⊢
      omega
  · obtain ⟨lines, hblocks, hframed⟩ := heffect.framed
    have hlen := congrArg List.length hframed.split
    refine ⟨(arrived k.session e).length, ?_, ?_⟩
    · rw [hblocks, List.flatten_append]
      simp only [List.length_append] at hlen ⊢
      omega
    · rw [heffect.received]
      simp only [List.length_append]

theorem step_miscounted {k : Link} (e : IoEvent) (h : Miscounted k) : Miscounted (step k e) := by
  obtain ⟨⟨n, hqueued, hout⟩, ⟨m, hin, hreceived⟩⟩ := step_account e h.settled
  refine ⟨(step_effect e h.settled).settled, ?_⟩
  rcases h.surplus with hless | hless
  · left
    omega
  · right
    omega

theorem miscounted_of_retry {k : Link} {e : IoEvent} (h : Kept k) (hempty : ¬ RetriesEmpty k e) :
    Miscounted (step k e) := by
  obtain ⟨⟨n, hqueued, hout⟩, ⟨m, hin, hreceived⟩⟩ := step_account e h.settled
  refine ⟨(step_effect e h.settled).settled, ?_⟩
  rw [h.outgoing] at hout
  rw [← h.incoming.split] at hin
  rw [RetriesEmpty, not_and_or] at hempty
  rcases hempty with hstranded | huncounted
  · right
    have hpos := List.length_pos_of_ne_nil hstranded
    omega
  · left
    have hpos := List.length_pos_of_ne_nil huncounted
    omega

theorem account_exact_iff (sock : ℕ) (serverPassword : Option Bytes) (nick : Bytes)
    (realname : Option Bytes) (events : List IoEvent) :
    let start := Link.open_ (connectingSession sock true serverPassword nick realname)
    let k := run step start events
    (k.sent ++ k.session.outgoing = queued k.calls ∧
      k.blocks.flatten ++ k.session.incoming = k.received) ↔
    AllAlong step RetriesEmpty start events := by
  have hkeep : ∀ k e, Kept k → RetriesEmpty k e → Kept (step k e) := fun _ _ => step_kept
  have hbad : ∀ k e, Kept k → ¬ RetriesEmpty k e → Miscounted (step k e) :=
    fun _ _ => miscounted_of_retry
  have hstay : ∀ k e, Miscounted k → Miscounted (step k e) := fun _ => step_miscounted
  dsimp only
  constructor
  · intro hexact
    apply allAlong_of_run hkeep hbad hstay (kept_open sock true serverPassword nick realname)
    intro hmiscounted
    have hsurplus := hmiscounted.surplus
    rw [hexact.1, hexact.2] at hsurplus
    omega
  · intro hall
    exact (exactly_once_over_tls sock serverPassword nick realname events hall).2

end Xdccget.TlsRetries
