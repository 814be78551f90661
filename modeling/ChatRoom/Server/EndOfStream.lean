import ChatRoom.Http.RequestFront
import ChatRoom.Tcp.EndOfStream
import ChatRoom.Web.EndOfStream
import ChatRoom.Web.Ledger
import ChatRoom.Web.Responses

/-!
# Input in front of the end of a stream

The three kinds of connection treat the end of the input alike: the event in which
the peer closes its end is not decoded.
-/

namespace ChatRoom

open Incremental Socket

/-- For each kind of connection, with callbacks that leave the connection open and return as
long as the peer is there: everything complete is handed over before the connection is closed
iff the event in which the peer closes its end completes nothing more.  A TCP connection also
ends with the first event that does not fit its read buffer; texts behind a frame that a
WebSocket connection refuses are not handed over. -/
theorem complete_input_handed_over_iff
    (stream : EndedStream) :
    (∀ {ε : Type} (cb : Tcp.Callbacks ε) (c : Tcp.ConnId) (w : Tcp.World ε),
      Tcp.LeavesOpen cb c → Tcp.Started w c →
        (Tcp.HandsOverAll cb c w stream ↔
          (packetDecoder.drain (Tcp.decodedBytes stream)).items =
            (packetDecoder.drain stream.bytes).items)) ∧
    (∀ (cb : Web.HttpConnection.Callbacks) (h : Web.HttpId) (w w' : Web.World),
      Web.HttpConnection.LeavesOpen cb h → (w.https h).state ≠ .CLOSED →
        (w.https h).readBuf.readable = [] →
          Runs.run (Web.HttpConnection.readEvent cb h) w stream.events = .ok w' →
            (Web.HttpConnection.HandsOverAll cb h w stream ↔
              (Http.requestDecoder.drain stream.early).items =
                (Http.requestDecoder.drain stream.bytes).items)) ∧
    (∀ (cb : Web.WsConnection.Callbacks) (x : Web.WsId) (w : Web.World),
      Web.WsConnection.LeavesOpen cb x → (w.wss x).state = .ACTIVE →
        (w.wss x).readBuf.readable = [] →
          (Web.WsConnection.HandsOverAll cb x w stream ↔
            Web.WsConnection.textPayloads (Web.WsConnection.taken stream.early) =
              Web.WsConnection.textPayloads (Ws.frameDecoder.drain stream.bytes).items)) := by
  refine ⟨?_, ?_, ?_⟩
  · intro ε cb c w hcb hw
    exact Tcp.handsOverAll_iff hcb hw stream
  · intro cb h w w' hcb hopen hempty hrun
    exact Web.HttpConnection.handsOverAll_iff hcb hopen hempty stream hrun
  · intro cb x w hcb hactive hempty
    exact Web.WsConnection.handsOverAll_iff hcb hactive hempty stream

section Samples

/-- All bytes in one event, and the end of the stream behind them. -/
def atOnce (bs : Bytes) : EndedStream where
  events := []
  last := { pending := bs, sizes := [], idle := .eof }
  alive := by simp
  ended := rfl

/-- All bytes in one event, and the end of the stream in the next one. -/
def apart (bs : Bytes) : EndedStream where
  events := [{ pending := bs, sizes := [], idle := .again }]
  last := { pending := [], sizes := [], idle := .eof }
  alive := by simp
  ended := rfl

theorem bytes_apart
    (bs : Bytes) :
    (apart bs).bytes = (apart bs).early := by
  simp [apart, EndedStream.bytes, EndedStream.early]

/-- The handler of requests of the server. -/
theorem leavesOpen_server
    (cfg : Web.Config) (h : Web.HttpId) :
    Web.HttpConnection.LeavesOpen (Web.HttpServer.callbacks cfg) h := by
  intro w req w' hok
  exact Web.dispatch_keeps hok

theorem leavesOpen_ignoring
    (x : Web.WsId) :
    Web.WsConnection.LeavesOpen Web.WsConnection.ignoring x where
  onText _ _ := rfl
  state _ _ := rfl
  closing _ := rfl

/-- A packet of seven bytes. -/
def samplePacket : Packet where
  type := 7
  body := [65, 66]

theorem complete_input_handed_over_apart :
    Tcp.HandsOverAll Tcp.echo 0 Tcp.oneConnection (apart (encode samplePacket)) ∧
      Web.HttpConnection.HandsOverAll (Web.HttpServer.callbacks Web.sampleConfig) 0 Web.World.init
        (apart (bytes "GET / HTTP/1.1\r\n\r\n")) ∧
      Web.WsConnection.HandsOverAll Web.WsConnection.ignoring 0 Web.World.init
        (apart (Web.WsConnection.sampleFrames.flatMap Ws.ClientFrame.wire)) := by
  refine ⟨?_, ?_, ?_⟩
  · refine ((complete_input_handed_over_iff _).1 Tcp.echo 0 Tcp.oneConnection
      (Tcp.echo_leavesOpen 0) Tcp.oneConnection_started).mpr ?_
    have hbytes : Tcp.decodedBytes (apart (encode samplePacket)) =
        (apart (encode samplePacket)).bytes := by
      decide
    rw [hbytes]
  · obtain ⟨w', hrun, -⟩ := Runs.exists_ok_of_any
      (Runs.run (Web.HttpConnection.readEvent (Web.HttpServer.callbacks Web.sampleConfig) 0)
        Web.World.init (apart (bytes "GET / HTTP/1.1\r\n\r\n")).events)
      (fun _ => true) (by decide +kernel)
    refine ((complete_input_handed_over_iff _).2.1 (Web.HttpServer.callbacks Web.sampleConfig) 0
      Web.World.init w' (leavesOpen_server Web.sampleConfig 0) (by decide) Buffer.readable_new
      hrun).mpr ?_
    rw [bytes_apart]
  · refine ((complete_input_handed_over_iff _).2.2 Web.WsConnection.ignoring 0 Web.World.init
      (leavesOpen_ignoring 0) rfl Buffer.readable_new).mpr ?_
    have hsize : ∀ f ∈ Web.WsConnection.sampleFrames, f.wire.length ≤ 2 ^ 31 - 1 := by
      decide
    have hgo : ∀ f ∈ Web.WsConnection.sampleFrames.map Ws.ClientFrame.frame,
        Web.WsConnection.goesOn f = true := by
      decide
    have hearly : (apart (Web.WsConnection.sampleFrames.flatMap Ws.ClientFrame.wire)).early =
        Web.WsConnection.sampleFrames.flatMap Ws.ClientFrame.wire := by
      simp [apart, EndedStream.early]
    rw [bytes_apart, hearly, Web.WsConnection.taken, Ws.ClientFrame.drain_wire hsize,
      List.takeWhile_eq_self_iff.mpr hgo]

theorem early_atOnce
    (bs : Bytes) :
    (atOnce bs).early = [] :=
  rfl

theorem bytes_atOnce
    (bs : Bytes) :
    (atOnce bs).bytes = bs := by
  simp [atOnce, EndedStream.bytes, EndedStream.early]

theorem packet_lost_at_once :
    ¬ Tcp.HandsOverAll Tcp.echo 0 Tcp.oneConnection (atOnce (encode samplePacket)) := by
  rw [Tcp.handsOverAll_iff (Tcp.echo_leavesOpen 0) Tcp.oneConnection_started]
  intro hlost
  have hnone : Tcp.decodedBytes (atOnce (encode samplePacket)) = [] := rfl
  have hall : (atOnce (encode samplePacket)).bytes = encode samplePacket ++ [] := by
    rw [bytes_atOnce, List.append_nil]
  have hsize : samplePacket.body.length + TYPE_SIZE ≤ MAX_BODY_LENGTH := by
    decide
  rw [hnone, hall, Decoder.drain_wait (d := packetDecoder) [] rfl,
    Decoder.drain_done (decode_encode hsize [])] at hlost
  cases hlost

theorem request_lost_at_once :
    ¬ Web.HttpConnection.HandsOverAll (Web.HttpServer.callbacks Web.sampleConfig) 0 Web.World.init
      (atOnce (bytes "GET / HTTP/1.1\r\n\r\n")) := by
  rw [Web.HttpConnection.handsOverAll_iff (leavesOpen_server Web.sampleConfig 0)
    (w := Web.World.init) (by decide) Buffer.readable_new _ rfl]
  intro hlost
  have hcomplete : (Http.HttpRequest.new.parse
      (Buffer.new.append (bytes "GET / HTTP/1.1\r\n\r\n"))).1 = true := by
    decide +kernel
  obtain ⟨n, req, hdone⟩ := (Http.fst_parse_eq_true_iff _).mp hcomplete
  rw [Buffer.readable_append, Buffer.readable_new, List.nil_append] at hdone
  have hdecode : Http.requestDecoder.decode (bytes "GET / HTTP/1.1\r\n\r\n") =
      .done n req := hdone
  rw [early_atOnce, bytes_atOnce, Decoder.drain_wait (d := Http.requestDecoder) [] rfl,
    Decoder.drain_done hdecode] at hlost
  cases hlost

theorem texts_lost_at_once :
    ¬ Web.WsConnection.HandsOverAll Web.WsConnection.ignoring 0 Web.World.init
      (atOnce (Web.WsConnection.sampleFrames.flatMap Ws.ClientFrame.wire)) := by
  rw [Web.WsConnection.handsOverAll_iff (leavesOpen_ignoring 0)
    (w := Web.World.init) rfl Buffer.readable_new]
  have hsize : ∀ f ∈ Web.WsConnection.sampleFrames, f.wire.length ≤ 2 ^ 31 - 1 := by
    decide
  rw [early_atOnce, bytes_atOnce, Ws.ClientFrame.drain_wire hsize, Web.WsConnection.taken,
    Decoder.drain_wait (d := Ws.frameDecoder) [] rfl]
  decide

/-- What arrives together with the end of the stream is lost, on each kind of connection. -/
theorem complete_input_lost_at_once :
    ¬ (∀ stream, Tcp.HandsOverAll Tcp.echo 0 Tcp.oneConnection stream) ∧
      ¬ (∀ stream, Web.HttpConnection.HandsOverAll (Web.HttpServer.callbacks Web.sampleConfig) 0
        Web.World.init stream) ∧
      ¬ ∀ stream, Web.WsConnection.HandsOverAll Web.WsConnection.ignoring 0 Web.World.init
        stream := by
  refine ⟨?_, ?_, ?_⟩
  · intro hall
    exact packet_lost_at_once (hall _)
  · intro hall
    exact request_lost_at_once (hall _)
  · intro hall
    exact texts_lost_at_once (hall _)

end Samples

end ChatRoom
