import ChatRoom.Lib.Outbox
import ChatRoom.Web.Conversation

/-!
# The write path of a WebSocket connection

Frames are put into the output by `sendText`, by `sendPing` and by the answers to
ping and close frames; `onWrite` takes what the socket accepts, and rests or closes
the connection when nothing is left.
-/

namespace ChatRoom
namespace Web
namespace WsConnection

open Socket Ws

/-- The output of a connection. -/
def outbox (w : World) (x : WsId) : Outbox UInt8 where
  accepted := sentOn (w.sockets (w.wss x).fd) w.trace
  pending := (w.wss x).writeBuf.readable
  writing := (w.wss x).writing
  armed := w.reactor.awaitsOutput (w.wss x).fd

/-- A call that writes. -/
inductive OutputCall where
  | sendText (payload : Bytes)
  | sendPing (payload : Bytes)
  /-- a frame that is not a text is dispatched; pings and close frames are answered -/
  | reply (frame : Frame) (control : frame.opcode ≠ Opcode.TEXT.code)
  | onWrite (sends : List SendResult)

/-- The state after a call. -/
def outputCall (cb : Callbacks) (x : WsId) (w : World) : OutputCall → World
  | .sendText payload => sendText w x payload
  | .sendPing payload => sendPing w x payload
  | .reply frame _ => (dispatch cb w x frame).1
  | .onWrite sends => onWrite cb x w sends

/-- The frame that a call queues for an open connection. -/
def OutputCall.queued : OutputCall → Bytes
  | .sendText payload => encodeText payload
  | .sendPing payload => encodePing payload
  | .reply frame _ =>
      match Opcode.ofCode? frame.opcode with
      | some .PING => encodePong frame.payload
      | some .CLOSE => encodeClose
      | _ => []
  | .onWrite _ => []

/-- The close callback does not open the connection again. -/
def StaysClosed (cb : Callbacks) (x : WsId) : Prop :=
  ∀ w, (w.wss x).state = .CLOSED → ((cb.onClose w x).wss x).state = .CLOSED

/-- The descriptor of the connection is in the epoll set. -/
def Polled (x : WsId) (w : World) : Prop :=
  (w.reactor.interest (w.wss x).fd).isSome = true

/-- The connection is closed, or its output flows: everything queued has been accepted or
waits. -/
def Flows (x : WsId) (queued : Bytes) (w : World) : Prop :=
  (w.wss x).state = .CLOSED ∨
    Polled x w ∧ (outbox w x).Sound ∧ (outbox w x).stream = queued

section Operations

variable {cb : Callbacks} {x : WsId} {w : World} {queued : Bytes}

theorem state_queue
    (w : World) (x : WsId) (frame : Bytes) :
    ((queue w x frame).wss x).state = (w.wss x).state :=
  (queue_appends w x frame).state

theorem polled_queue
    (h : Polled x w) (frame : Bytes) :
    Polled x (queue w x frame) := by
  unfold Polled at *
  by_cases hwriting : (w.wss x).writing = true
  · simpa [queue, hwriting, World.setWs] using h
  · simpa [queue, hwriting, World.setWs, World.modifyFd, Reactor.isSome_interest_modifyFd] using h

/-- Queueing a frame puts it. -/
theorem outbox_queue
    (h : Polled x w) (frame : Bytes) :
    outbox (queue w x frame) x = (outbox w x).put frame := by
  unfold Polled at h
  by_cases hwriting : (w.wss x).writing = true
  · simp [outbox, Outbox.put, queue, hwriting, World.setWs]
  · simp [outbox, Outbox.put, queue, hwriting, World.setWs, World.modifyFd,
      Reactor.awaitsOutput_modifyFd h, EPOLLINOUT]

theorem outbox_wrote
    (w : World) (x : WsId) (n : Nat) :
    outbox (wrote w x n) x = (outbox w x).take n := by
  simp [outbox, Outbox.take, wrote, World.setWs, World.note, sentOn]

theorem outbox_flushed
    (h : Polled x w) :
    outbox ((w.modifyFd (w.wss x).fd EPOLLIN).setWs x { w.wss x with writing := false }) x =
      (outbox w x).rest := by
  unfold Polled at h
  simp [outbox, Outbox.rest, World.setWs, World.modifyFd, Reactor.awaitsOutput_modifyFd h, EPOLLIN]

theorem Flows.queue
    (h : Flows x queued w) (frame : Bytes) :
    Flows x (queued ++ frame) (queue w x frame) := by
  rcases h with hclosed | ⟨hpolled, hsound, hstream⟩
  · exact .inl ((state_queue w x frame).trans hclosed)
  · refine .inr ⟨polled_queue hpolled frame, ?_, ?_⟩
    · rw [outbox_queue hpolled]
      exact hsound.put frame
    · rw [outbox_queue hpolled, Outbox.stream_put, hstream]

/-- A closed connection sends nothing. -/
theorem Flows.ifActive
    (h : Flows x queued w) {frame : Bytes} {send : World}
    (hsend : send = if (w.wss x).state ≠ .ACTIVE then w else WsConnection.queue w x frame) :
    Flows x (queued ++ frame) send := by
  subst hsend
  split
  · next hinactive =>
      refine .inl ?_
      cases hstate : (w.wss x).state with
      | ACTIVE =>
          exact absurd hstate hinactive
      | CLOSED =>
          rfl
  · exact h.queue frame

/-- Marking the connection to be closed does not concern the output. -/
theorem Flows.closing
    (h : Flows x queued w) :
    Flows x queued (w.setWs x { w.wss x with closeAfterWrite := true }) := by
  simpa [Flows, Polled, outbox, World.setWs] using h

theorem state_close
    (hcb : StaysClosed cb x) (w : World) :
    ((close cb w x).wss x).state = .CLOSED := by
  unfold close
  split
  · next hclosed =>
      exact hclosed
  · exact hcb _ (by simp [World.removeFd, World.setWs])

/-- A frame is answered, ignored, or refused. -/
theorem Flows.reply
    (hcb : StaysClosed cb x) (h : Flows x queued w) (frame : Frame)
    (control : frame.opcode ≠ Opcode.TEXT.code) :
    Flows x (queued ++ (OutputCall.reply frame control).queued) (dispatch cb w x frame).1 := by
  rw [dispatch, OutputCall.queued]
  cases hcode : Opcode.ofCode? frame.opcode with
  | none =>
      exact .inl (state_close hcb w)
  | some opcode =>
      cases opcode with
      | TEXT =>
          exact absurd (Opcode.code_of_ofCode? hcode) control
      | PING =>
          exact h.queue _
      | PONG =>
          rw [List.append_nil]
          exact h
      | CLOSE =>
          exact h.closing.queue _
      | BINARY | CONTINUATION =>
          exact .inl (state_close hcb w)

theorem Flows.wrote
    (h : Flows x queued w) (n : Nat) :
    Flows x queued (wrote w x n) := by
  rcases h with hclosed | ⟨hpolled, hsound, hstream⟩
  · refine .inl ?_
    simpa [WsConnection.wrote, World.setWs] using hclosed
  · refine .inr ⟨?_, ?_, ?_⟩
    · simpa [Polled, WsConnection.wrote, World.setWs, World.note] using hpolled
    · rw [outbox_wrote]
      exact hsound.take n
    · rw [outbox_wrote, Outbox.stream_take, hstream]

/-- The output rests when everything has been accepted. -/
theorem Flows.flushed
    (hempty : (w.wss x).writeBuf.readableBytes = 0) (h : Flows x queued w) :
    Flows x queued
      ((w.modifyFd (w.wss x).fd EPOLLIN).setWs x { w.wss x with writing := false }) := by
  rcases h with hclosed | ⟨hpolled, hsound, hstream⟩
  · refine .inl ?_
    simpa [World.setWs, World.modifyFd] using hclosed
  · have hnil : (outbox w x).pending = [] := Buffer.readable_eq_nil_iff.mpr hempty
    refine .inr ⟨?_, ?_, ?_⟩
    · rw [Polled] at hpolled ⊢
      simpa [World.setWs, World.modifyFd, Reactor.isSome_interest_modifyFd] using hpolled
    · rw [outbox_flushed hpolled]
      exact Outbox.Sound.rest hnil
    · rw [outbox_flushed hpolled, Outbox.stream_rest, hstream]

theorem Flows.onWrite
    (hcb : StaysClosed cb x) (h : Flows x queued w) (sends : List SendResult) :
    Flows x queued (onWrite cb x w sends) := by
  refine onWrite_keeps (I := Flows x queued) ?_ ?_ ?_ h sends
  · intro w n hw
    exact hw.wrote n
  · intro w hw
    exact .inl (state_close hcb w)
  · intro w hempty hw
    exact hw.flushed hempty

theorem Flows.outputCall
    (hcb : StaysClosed cb x) (h : Flows x queued w) (call : OutputCall) :
    Flows x (queued ++ call.queued) (outputCall cb x w call) := by
  cases call with
  | sendText payload =>
      exact h.ifActive rfl
  | sendPing payload =>
      exact h.ifActive rfl
  | reply frame control =>
      exact h.reply hcb frame control
  | onWrite sends =>
      have hflows := h.onWrite hcb sends
      rwa [← List.append_nil queued] at hflows

theorem Flows.outputCalls
    (hcb : StaysClosed cb x) (h : Flows x queued w) (calls : List OutputCall) :
    Flows x (queued ++ calls.flatMap OutputCall.queued)
      (calls.foldl (WsConnection.outputCall cb x) w) := by
  refine Runs.foldl_invariant_flatMap ?_ h calls
  intro queued w call hw
  exact hw.outputCall hcb call

/-- A new connection that is started has an empty output. -/
theorem flows_start
    {w₀ : World} {fd : Fd} {username : String} (hnew : w₀.wss x = WsConnection.new fd username)
    (hstart : start w₀ x = .ok w) :
    Flows x (sentOn (w.sockets (w.wss x).fd) w.trace) w := by
  obtain ⟨r, hadd, rfl⟩ := Runs.map_eq_ok.mp hstart
  obtain ⟨-, rfl⟩ := Reactor.addFd_eq_ok hadd
  refine .inr ⟨?_, ⟨?_, ?_⟩, ?_⟩
  · simp [Polled]
  · simp [outbox, Reactor.awaitsOutput, hnew, WsConnection.new, EPOLLIN]
  · intro hpending
    simp [outbox, hnew, WsConnection.new, Buffer.readable_new] at hpending
  · simp [Outbox.stream, outbox, hnew, WsConnection.new, Buffer.readable_new]

theorem staysClosed_hub
    (J : JsonLib) (x : WsId) :
    StaysClosed (WsHub.callbacks J) x :=
  fun _ hclosed => hclosed

end Operations

end WsConnection
end Web
end ChatRoom
