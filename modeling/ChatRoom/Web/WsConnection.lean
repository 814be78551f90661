import ChatRoom.Web.World
import ChatRoom.Ws.Frame

/-!
# WebSocket connections

`WsConnection` (server/ws_connection.h, server/ws_connection.cpp).
-/

namespace ChatRoom
namespace Web
namespace WsConnection

open Socket Ws

/-- The callbacks of a WebSocket connection. -/
structure Callbacks where
  onText : World → WsId → Bytes → World
  onClose : World → WsId → World

/-- `WsConnection::start` -/
def start (w : World) (x : WsId) : Except Exn World :=
  (w.reactor.addFd (w.wss x).fd EPOLLIN (.ws x)).map fun reactor =>
    { w with reactor := reactor }

/-- Append an encoded frame to the write buffer and ask for write events. -/
def queue (w : World) (x : WsId) (frame : Bytes) : World :=
  let conn := { w.wss x with writeBuf := (w.wss x).writeBuf.append frame }
  if conn.writing then
    w.setWs x conn
  else
    (w.modifyFd conn.fd EPOLLINOUT).setWs x { conn with writing := true }

/-- `WsConnection::sendText` -/
def sendText (w : World) (x : WsId) (payload : Bytes) : World :=
  if (w.wss x).state ≠ .ACTIVE then w else queue w x (encodeText payload)

/-- `WsConnection::sendPing` -/
def sendPing (w : World) (x : WsId) (payload : Bytes) : World :=
  if (w.wss x).state ≠ .ACTIVE then w else queue w x (encodePing payload)

/-- `WsConnection::close` -/
def close (cb : Callbacks) (w : World) (x : WsId) : World :=
  if (w.wss x).state = .CLOSED then
    w
  else
    let w := w.setWs x { w.wss x with state := .CLOSED }
    let w := w.removeFd (w.wss x).fd
    let w := cb.onClose w x
    -- the connection has been deleted by the hub; its field is read anyway
    w.closeFd (w.wss x).fd

/-- Conversion of an `int` to `size_t`. -/
def toSize (n : Int) : Nat :=
  (n % 2 ^ 64).toNat

/-- `readBuf_.consume(r.consumed)` -/
def consume (w : World) (x : WsId) (n : Int) : World :=
  w.setWs x { w.wss x with readBuf := (w.wss x).readBuf.consume (toSize n) }

/-- Dispatch of a frame; the flag says that the loop goes on. -/
def dispatch (cb : Callbacks) (w : World) (x : WsId) (frame : Frame) : World × Bool :=
  match Opcode.ofCode? frame.opcode with
  | some .TEXT => (cb.onText (w.note (.text x frame.payload)) x frame.payload, true)
  | some .PING => (queue w x (encodePong frame.payload), true)
  | some .PONG => (w, true)
  | some .BINARY => (close cb w x, false)
  | some .CLOSE =>
      (queue (w.setWs x { w.wss x with closeAfterWrite := true }) x encodeClose, true)
  | _ => (close cb w x, false)

/-- The loop of `onRead` over the frames in the read buffer.  Each frame takes
bytes off the buffer, so its length is enough `fuel`. -/
def frameLoop (cb : Callbacks) (x : WsId) : Nat → World → Except Exn World
  | 0, w => .ok w
  | fuel + 1, w =>
      let readBuf := (w.wss x).readBuf
      if readBuf.readableBytes < 2 then
        .ok w
      else
        match (tryDecode readBuf.peek readBuf.readableBytes).result with
        | .error e => .error e
        | .ok r =>
            if r.consumed = -1 then
              .ok w
            else if r.consumed = 0 then
              .ok (close cb w x)
            else
              match dispatch cb (consume w x r.consumed) x r.frame with
              | (w, true) => frameLoop cb x fuel w
              | (w, false) => .ok w

/-- `WsConnection::onRead` -/
def onRead (cb : Callbacks) (w : World) (x : WsId) (s : Input) : Except Exn World :=
  match recvLoop (s.pending.length + 1) (w.wss x).readBuf s with
  | (readBuf, .hangup) => .ok (close cb (w.setWs x { w.wss x with readBuf := readBuf }) x)
  | (readBuf, .drained) =>
      frameLoop cb x readBuf.readableBytes
        (w.setWs x { w.wss x with readBuf := readBuf })

/-- `writeBuf_.consume(n)` after `::send` took `n` bytes -/
def wrote (w : World) (x : WsId) (n : Nat) : World :=
  let conn := w.wss x
  (w.note (.wrote (w.sockets conn.fd) (conn.writeBuf.readable.take n))).setWs x
    { conn with writeBuf := conn.writeBuf.consume n }

/-- `WsConnection::onWrite`; `results` is what `::send` answers, call by call, and
`EAGAIN` from then on. -/
def onWrite (cb : Callbacks) (x : WsId) (w : World) (results : List SendResult) : World :=
  if (w.wss x).writeBuf.readableBytes > 0 then
    match results with
    | [] => w
    | result :: results =>
        match sendResult w (w.wss x).fd result with
        | .accepts want =>
            onWrite cb x (wrote w x (sendSize want (w.wss x).writeBuf.readableBytes)) results
        | .again => w
        | .zero => close cb w x
        | .error => close cb w x
  else if (w.wss x).closeAfterWrite then
    close cb w x
  else
    (w.modifyFd (w.wss x).fd EPOLLIN).setWs x { w.wss x with writing := false }

section FrameLoop

/-- The loop takes a frame off a read buffer. -/
structure TakesFrame (readBuf : Buffer) (r : Ws.DecodeResult) : Prop where
  enough : ¬ readBuf.readableBytes < 2
  decoded : (tryDecode readBuf.peek readBuf.readableBytes).result = .ok r
  complete : r.consumed ≠ -1
  valid : r.consumed ≠ 0

/-- What a turn of the loop does: it waits for more bytes, closes the connection
because of an error, or takes a frame off the buffer and dispatches it. -/
theorem frameLoop_cases
    {cb : Callbacks} {x : WsId} {fuel : Nat} {w w' : World}
    (hok : frameLoop cb x (fuel + 1) w = .ok w') :
    w' = w ∨ w' = close cb w x ∨
      ∃ r w₁ goes, TakesFrame (w.wss x).readBuf r ∧
        dispatch cb (consume w x r.consumed) x r.frame = (w₁, goes) ∧
          if goes then frameLoop cb x fuel w₁ = .ok w' else w' = w₁ := by
  rw [frameLoop] at hok
  by_cases hshort : (w.wss x).readBuf.readableBytes < 2
  · rw [if_pos hshort] at hok
    exact .inl (Except.ok.inj hok).symm
  · rw [if_neg hshort] at hok
    cases hdecode : (tryDecode (w.wss x).readBuf.peek
        (w.wss x).readBuf.readableBytes).result with
    | error e =>
        rw [hdecode] at hok
        cases hok
    | ok r =>
        rw [hdecode] at hok
        dsimp only at hok
        by_cases hmore : r.consumed = -1
        · rw [if_pos hmore] at hok
          exact .inl (Except.ok.inj hok).symm
        · rw [if_neg hmore] at hok
          by_cases hbad : r.consumed = 0
          · rw [if_pos hbad] at hok
            exact .inr (.inl (Except.ok.inj hok).symm)
          · rw [if_neg hbad] at hok
            cases hdispatch : dispatch cb (consume w x r.consumed) x r.frame with
            | mk w₁ goes =>
                rw [hdispatch] at hok
                refine .inr (.inr ⟨r, w₁, goes, ⟨hshort, hdecode, hmore, hbad⟩, hdispatch, ?_⟩)
                cases goes with
                | false =>
                    exact (Except.ok.inj hok).symm
                | true =>
                    exact hok

end FrameLoop

section Keeps

variable {cb : Callbacks} {x : WsId} {I : World → Prop}

/-- What receiving, dispatching and closing keep, a readable event keeps. -/
theorem onRead_keeps
    (hreceive : ∀ w readBuf, I w → I (w.setWs x { w.wss x with readBuf := readBuf }))
    (hdispatch : ∀ w f, f.payload.length ≤ VECTOR_MAX_SIZE → I w → I (dispatch cb w x f).1)
    (hclose : ∀ w, I w → I (close cb w x))
    {w w' : World} (hI : I w) {s : Input} (hok : onRead cb w x s = .ok w') :
    I w' := by
  have hloop : ∀ fuel w w', I w → frameLoop cb x fuel w = .ok w' → I w' := by
    intro fuel
    induction fuel with
    | zero =>
        intro w w' hI hok
        cases hok
        exact hI
    | succ fuel ih =>
        intro w w' hI hok
        rcases frameLoop_cases hok with rfl | rfl | ⟨r, w₁, goes, htakes, hd, hrest⟩
        · exact hI
        · exact hclose w hI
        · have htaken := hreceive w ((w.wss x).readBuf.consume (toSize r.consumed)) hI
          rw [← consume] at htaken
          have hnext := hdispatch _ r.frame (length_payload_le htakes.decoded) htaken
          rw [hd] at hnext
          cases goes with
          | true =>
              exact ih w₁ w' hnext hrest
          | false =>
              cases hrest
              exact hnext
  rw [onRead] at hok
  generalize recvLoop (s.pending.length + 1) (w.wss x).readBuf s = received at hok
  obtain ⟨readBuf, ending⟩ := received
  have hI₁ := hreceive w readBuf hI
  cases ending with
  | hangup =>
      cases hok
      exact hclose _ hI₁
  | drained =>
      exact hloop _ _ _ hI₁ hok

/-- What sending, closing and the end of sending keep, `onWrite` keeps. -/
theorem onWrite_keeps
    (hwrote : ∀ w n, I w → I (wrote w x n))
    (hclose : ∀ w, I w → I (close cb w x))
    (hflushed : ∀ w, (w.wss x).writeBuf.readableBytes = 0 → I w →
      I ((w.modifyFd (w.wss x).fd EPOLLIN).setWs x { w.wss x with writing := false }))
    {w : World} (hI : I w) (sends : List SendResult) :
    I (onWrite cb x w sends) := by
  induction sends generalizing w with
  | nil =>
      rw [onWrite]
      split
      · exact hI
      · next hempty =>
          split
          · exact hclose w hI
          · exact hflushed w (Nat.eq_zero_of_not_pos hempty) hI
  | cons result sends ih =>
      rw [onWrite]
      split
      · split
        · exact ih (hwrote w _ hI)
        · exact hI
        · exact hclose w hI
        · exact hclose w hI
      · next hempty =>
          split
          · exact hclose w hI
          · exact hflushed w (Nat.eq_zero_of_not_pos hempty) hI

end Keeps

end WsConnection
end Web
end ChatRoom
