import ChatRoom.Tcp.WritePath
import ChatRoom.Web.InputProtocol
import ChatRoom.Web.WritePath

/-!
# Output is not lost, repeated or reordered

TCP and WebSocket connections write in the same way (`Outbox`), and their flag
`writing_` agrees with the interest registered with the reactor.
-/

namespace ChatRoom

/-- What is said of the output of an open connection: all bytes queued since `accepted` are
accepted or wait, in order; the interest includes `EPOLLOUT` iff the flag is set; and it is
set if something waits. -/
structure Written (o : Outbox UInt8) (accepted queued : Bytes) : Prop where
  inOrder : o.accepted ++ o.pending = accepted ++ queued
  interest : o.armed = true ↔ o.writing = true
  flagged : o.pending ≠ [] → o.writing = true

theorem Outbox.Sound.written
    {o : Outbox UInt8} (h : o.Sound) {accepted queued : Bytes}
    (hstream : o.stream = accepted ++ queued) :
    Written o accepted queued where
  inOrder := hstream
  interest := by
    rw [h.agrees]
  flagged := h.flagged

/-- For a new connection that is started, of either kind, after any calls that queue packets
or frames and any writable events: while it is open, what the socket has accepted and what
waits are the packets or frames queued, in order, and the flag agrees with the interest. -/
theorem output_written_in_order :
    (∀ {ε : Type} (cb : Tcp.Callbacks ε) (c : Tcp.ConnId) (w₀ w : Tcp.World ε) (fd : Fd)
        (now : Int) (calls : List Tcp.OutputCall),
      w₀.conns c = Tcp.Connection.new fd now → Tcp.start w₀ c = .ok w →
        ((calls.foldl (Tcp.outputCall cb c) w).conns c).state ≠ .CLOSED →
          Written (Tcp.outbox (calls.foldl (Tcp.outputCall cb c) w) c)
            (Tcp.outbox w c).accepted (calls.flatMap Tcp.OutputCall.queued)) ∧
    (∀ (cb : Web.WsConnection.Callbacks) (x : Web.WsId) (w₀ w : Web.World) (fd : Fd)
        (username : String) (calls : List Web.WsConnection.OutputCall),
      Web.WsConnection.StaysClosed cb x → w₀.wss x = Web.WsConnection.new fd username →
        Web.WsConnection.start w₀ x = .ok w →
          ((calls.foldl (Web.WsConnection.outputCall cb x) w).wss x).state ≠ .CLOSED →
            Written (Web.WsConnection.outbox (calls.foldl (Web.WsConnection.outputCall cb x) w) x)
              (Web.WsConnection.outbox w x).accepted
              (calls.flatMap Web.WsConnection.OutputCall.queued)) := by
  constructor
  · intro ε cb c w₀ w fd now calls hnew hstart hopen
    obtain ⟨-, hsound, hstream⟩ :=
      ((Tcp.flows_start hnew hstart).outputCalls cb calls).resolve_left hopen
    exact hsound.written hstream
  · intro cb x w₀ w fd username calls hcb hnew hstart hopen
    obtain ⟨-, hsound, hstream⟩ :=
      ((Web.WsConnection.flows_start hnew hstart).outputCalls hcb calls).resolve_left hopen
    exact hsound.written hstream

section Samples

/-- Two packets; the socket takes them in pieces, and the second one comes in between. -/
def sampleSends : List Tcp.OutputCall :=
  [.send { type := 7, body := [65, 66] }, .onWrite [.accepts 3, .again],
    .send { type := 8, body := [67] }, .onWrite [.accepts 5]]

/-- A text, a ping and the answer to a ping of the client. -/
def sampleFramesOut : List Web.WsConnection.OutputCall :=
  [.sendText [65], .onWrite [.accepts 1], .sendPing [],
    .reply { fin := true, opcode := Ws.Opcode.PING.code, payload := [66] } (by decide),
    .onWrite [.accepts 2, .again]]

def idleCallbacks : Tcp.Callbacks Unit where
  onPacket w _ _ := .ok w
  onClose w _ := w

def oneTcpConnection : Tcp.World Unit :=
  Tcp.newConnection (Tcp.World.init () 0) 5

def oneWsConnection : Web.World :=
  { Web.World.init with
    wss := fun _ => Web.WsConnection.new 5 "a"
    openFds := fun _ => true }

theorem output_written_in_order_samples :
    (∃ w, Tcp.start oneTcpConnection 0 = .ok w ∧
      Written (Tcp.outbox (sampleSends.foldl (Tcp.outputCall idleCallbacks 0) w) 0)
        (Tcp.outbox w 0).accepted (sampleSends.flatMap Tcp.OutputCall.queued)) ∧
    ∃ w, Web.WsConnection.start oneWsConnection 0 = .ok w ∧
      Written
        (Web.WsConnection.outbox (sampleFramesOut.foldl
          (Web.WsConnection.outputCall (Web.WsHub.callbacks Web.WsConnection.noJson) 0) w) 0)
        (Web.WsConnection.outbox w 0).accepted
        (sampleFramesOut.flatMap Web.WsConnection.OutputCall.queued) := by
  constructor
  · obtain ⟨w, hstart, hopen⟩ := Runs.exists_ok_of_any (Tcp.start oneTcpConnection 0)
      (fun w => ((sampleSends.foldl (Tcp.outputCall idleCallbacks 0) w).conns 0).state ≠ .CLOSED)
      (by decide +kernel)
    exact ⟨w, hstart, output_written_in_order.1 idleCallbacks 0 oneTcpConnection w 5 0 sampleSends
      rfl hstart (of_decide_eq_true hopen)⟩
  · obtain ⟨w, hstart, hopen⟩ := Runs.exists_ok_of_any
      (Web.WsConnection.start oneWsConnection 0)
      (fun w => ((sampleFramesOut.foldl (Web.WsConnection.outputCall
        (Web.WsHub.callbacks Web.WsConnection.noJson) 0) w).wss 0).state ≠ .CLOSED)
      (by decide +kernel)
    have hcb := Web.WsConnection.staysClosed_hub Web.WsConnection.noJson 0
    exact ⟨w, hstart, output_written_in_order.2 _ 0 oneWsConnection w 5 "a" sampleFramesOut hcb
      rfl hstart (of_decide_eq_true hopen)⟩

end Samples

end ChatRoom
