import ChatRoom.Lib.Outbox
import ChatRoom.Tcp.Wiring

/-!
# The write path of a TCP connection

What a connection sends is put into an `Outbox`: `send` puts, `onWrite` takes what
the socket accepts and rests when nothing is left.
-/

namespace ChatRoom
namespace Tcp

open Socket

variable {ε : Type}

/-- The bytes of a connection that `::send` has accepted. -/
def acceptedBytes (c : ConnId) (history : List Obs) : Bytes :=
  history.flatMap fun
    | .wrote d bs => if d = c then bs else []
    | _ => []

/-- The output of a connection. -/
def outbox (w : World ε) (c : ConnId) : Outbox UInt8 where
  accepted := acceptedBytes c w.trace
  pending := (w.conns c).writeBuf.readable
  writing := (w.conns c).writing
  armed := w.reactor.awaitsOutput (w.conns c).fd

/-- A call that writes. -/
inductive OutputCall where
  | send (pkt : Packet)
  | onWrite (results : List SendResult)

/-- The state after a call. -/
def outputCall (cb : Callbacks ε) (c : ConnId) (w : World ε) : OutputCall → World ε
  | .send pkt => send w c pkt
  | .onWrite results => onWrite cb c w results

/-- What a call queues. -/
def OutputCall.queued : OutputCall → Bytes
  | .send pkt => encode pkt
  | .onWrite _ => []

/-- The descriptor of the connection is in the epoll set. -/
def Polled (c : ConnId) (w : World ε) : Prop :=
  (w.reactor.interest (w.conns c).fd).isSome = true

/-- The connection is closed, or its output flows: everything queued has been accepted or
waits. -/
def Flows (c : ConnId) (queued : Bytes) (w : World ε) : Prop :=
  (w.conns c).state = .CLOSED ∨
    Polled c w ∧ (outbox w c).Sound ∧ (outbox w c).stream = queued

section Operations

variable {c : ConnId} {w : World ε} {queued : Bytes}

theorem polled_send
    (h : Polled c w) (pkt : Packet) :
    Polled c (send w c pkt) := by
  unfold Polled at *
  by_cases hwriting : (w.conns c).writing = true
  · simpa [send, hwriting, World.setConn, World.note] using h
  · simpa [send, hwriting, World.setConn, World.note, World.modifyFd,
      Reactor.isSome_interest_modifyFd] using h

/-- `send` puts the packet. -/
theorem outbox_send
    (h : Polled c w) (pkt : Packet) :
    outbox (send w c pkt) c = (outbox w c).put (encode pkt) := by
  unfold Polled at h
  by_cases hwriting : (w.conns c).writing = true
  · simp [outbox, Outbox.put, send, hwriting, World.setConn, World.note, acceptedBytes]
  · simp [outbox, Outbox.put, send, hwriting, World.setConn, World.note, World.modifyFd,
      acceptedBytes, Reactor.awaitsOutput_modifyFd h, EPOLLINOUT]

/-- The bytes that the socket takes are taken. -/
theorem outbox_wrote
    (w : World ε) (c : ConnId) (n : Nat) :
    outbox (wrote w c n) c = (outbox w c).take n := by
  simp [outbox, Outbox.take, wrote, World.setConn, World.note, acceptedBytes]

/-- When nothing is left the output rests. -/
theorem outbox_flushed
    (h : Polled c w) :
    outbox ((w.modifyFd (w.conns c).fd EPOLLIN).setConn c { w.conns c with writing := false }) c =
      (outbox w c).rest := by
  unfold Polled at h
  simp [outbox, Outbox.rest, World.setConn, World.modifyFd, Reactor.awaitsOutput_modifyFd h,
    EPOLLIN]

theorem Flows.send
    (h : Flows c queued w) (pkt : Packet) :
    Flows c (queued ++ encode pkt) (send w c pkt) := by
  rcases h with hclosed | ⟨hpolled, hsound, hstream⟩
  · refine .inl ?_
    rw [conns_send, Function.update_self]
    exact hclosed
  · refine .inr ⟨polled_send hpolled pkt, ?_, ?_⟩
    · rw [outbox_send hpolled]
      exact hsound.put (encode pkt)
    · rw [outbox_send hpolled, Outbox.stream_put, hstream]

theorem Flows.wrote
    (h : Flows c queued w) (n : Nat) :
    Flows c queued (wrote w c n) := by
  have hfd : ((Tcp.wrote w c n).conns c).fd = (w.conns c).fd := by
    simp [Tcp.wrote, World.setConn]
  rcases h with hclosed | ⟨hpolled, hsound, hstream⟩
  · refine .inl ?_
    simpa [Tcp.wrote, World.setConn] using hclosed
  · refine .inr ⟨?_, ?_, ?_⟩
    · rw [Polled, hfd]
      exact hpolled
    · rw [outbox_wrote]
      exact hsound.take n
    · rw [outbox_wrote, Outbox.stream_take, hstream]

/-- The output rests when everything has been accepted. -/
theorem Flows.flushed
    (hempty : (w.conns c).writeBuf.readableBytes = 0) (h : Flows c queued w) :
    Flows c queued
      ((w.modifyFd (w.conns c).fd EPOLLIN).setConn c { w.conns c with writing := false }) := by
  rcases h with hclosed | ⟨hpolled, hsound, hstream⟩
  · refine .inl ?_
    simpa [World.setConn, World.modifyFd] using hclosed
  · have hnil : (outbox w c).pending = [] := Buffer.readable_eq_nil_iff.mpr hempty
    refine .inr ⟨?_, ?_, ?_⟩
    · rw [Polled] at hpolled ⊢
      simpa [World.setConn, World.modifyFd, Reactor.isSome_interest_modifyFd] using hpolled
    · rw [outbox_flushed hpolled]
      exact Outbox.Sound.rest hnil
    · rw [outbox_flushed hpolled, Outbox.stream_rest, hstream]

/-- Whatever the callback does, a connection that has been closed is closed. -/
theorem state_close
    (onClose : World ε → ConnId → World ε) (w : World ε) (c : ConnId) :
    ((close onClose w c).conns c).state = .CLOSED := by
  unfold close
  split
  · next hclosed =>
      exact hclosed
  · simp [World.closeFd, World.setConn]

theorem Flows.onWrite
    (h : Flows c queued w) (cb : Callbacks ε) (results : List SendResult) :
    Flows c queued (onWrite cb c w results) := by
  refine onWrite_keeps (I := Flows c queued) ?_ ?_ ?_ results h
  · intro w n hw
    exact hw.wrote n
  · intro w hempty hw
    exact hw.flushed hempty
  · intro w hw
    exact .inl (state_close cb.onClose w c)

theorem Flows.outputCall
    (h : Flows c queued w) (cb : Callbacks ε) (call : OutputCall) :
    Flows c (queued ++ call.queued) (outputCall cb c w call) := by
  cases call with
  | send pkt =>
      exact h.send pkt
  | onWrite results =>
      have hflows := h.onWrite cb results
      rwa [← List.append_nil queued] at hflows

theorem Flows.outputCalls
    (h : Flows c queued w) (cb : Callbacks ε) (calls : List OutputCall) :
    Flows c (queued ++ calls.flatMap OutputCall.queued) (calls.foldl (Tcp.outputCall cb c) w) := by
  refine Runs.foldl_invariant_flatMap ?_ h calls
  intro queued w call hw
  exact hw.outputCall cb call

/-- A new connection that is started has an empty output. -/
theorem flows_start
    {w₀ : World ε} {fd : Fd} {now : Int} (hnew : w₀.conns c = Connection.new fd now)
    (hstart : start w₀ c = .ok w) :
    Flows c (acceptedBytes c w.trace) w := by
  obtain ⟨r, hadd, rfl⟩ := Runs.map_eq_ok.mp hstart
  obtain ⟨-, rfl⟩ := Reactor.addFd_eq_ok hadd
  refine .inr ⟨?_, ⟨?_, ?_⟩, ?_⟩
  · simp [Polled]
  · simp [outbox, Reactor.awaitsOutput, hnew, Connection.new, EPOLLIN]
  · intro hpending
    simp [outbox, hnew, Connection.new, Buffer.readable_new] at hpending
  · simp [Outbox.stream, outbox, hnew, Connection.new, Buffer.readable_new]

end Operations

end Tcp
end ChatRoom
