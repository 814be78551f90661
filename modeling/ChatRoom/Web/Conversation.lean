import ChatRoom.Web.Delivery

/-!
# What happens to a WebSocket connection

A connection that the hub has adopted is read and written by the reactor, and
the program sends texts and pings on it (`Call`).  `Appends` says once what
sending does to a connection: bytes are appended to its write buffer and nothing
else happens to it.  The text handler of the hub does no more than that.
-/

namespace ChatRoom
namespace Web
namespace WsConnection

open Socket Ws

/-- What happens to a connection.  A `std::string` has less than `2 ^ 64` bytes. -/
inductive Call where
  /-- a readable event; the reactor has none for a connection that is closed -/
  | read (s : Input)
  /-- a writable event -/
  | write (sends : List SendResult)
  | sendText (payload : Bytes) (size : payload.length < 2 ^ 64)
  | sendPing (payload : Bytes) (size : payload.length < 2 ^ 64)
  /-- the room has a message from another connection or from a request -/
  | broadcast (m : Message)

/-- The connection `x` of the hub after a call. -/
def call (J : JsonLib) (x : WsId) (w : World) : Call → Except Exn World
  | .read s =>
      if (w.wss x).state = .ACTIVE then onRead (WsHub.callbacks J) w x s else .ok w
  | .write sends => .ok (onWrite (WsHub.callbacks J) x w sends)
  | .sendText payload _ => .ok (WsConnection.sendText w x payload)
  | .sendPing payload _ => .ok (WsConnection.sendPing w x payload)
  | .broadcast m => .ok (WsHub.broadcast J w m)

section Appends

/-- Bytes are appended to the write buffer of a connection, and nothing else happens
to it. -/
structure Appends (x : WsId) (w w' : World) (out : Bytes) : Prop where
  fd : (w'.wss x).fd = (w.wss x).fd
  state : (w'.wss x).state = (w.wss x).state
  closing : (w'.wss x).closeAfterWrite = (w.wss x).closeAfterWrite
  readBuf : (w'.wss x).readBuf = (w.wss x).readBuf
  writeBuf : (w'.wss x).writeBuf.readable = (w.wss x).writeBuf.readable ++ out
  heard : heard x w'.trace = heard x w.trace
  sent : ∀ socket, sentOn socket w'.trace = sentOn socket w.trace
  sockets : w'.sockets = w.sockets
  hub : w'.hub = w.hub

variable {J : JsonLib} {x y : WsId} {w w' w'' : World} {out out' : Bytes}

theorem Appends.refl
    (x : WsId) (w : World) :
    Appends x w w [] where
  fd := rfl
  state := rfl
  closing := rfl
  readBuf := rfl
  writeBuf := (List.append_nil _).symm
  heard := rfl
  sent _ := rfl
  sockets := rfl
  hub := rfl

theorem Appends.trans
    (h : Appends x w w' out) (h' : Appends x w' w'' out') :
    Appends x w w'' (out ++ out') where
  fd := h'.fd.trans h.fd
  state := h'.state.trans h.state
  closing := h'.closing.trans h.closing
  readBuf := h'.readBuf.trans h.readBuf
  writeBuf := by rw [h'.writeBuf, h.writeBuf, List.append_assoc]
  heard := h'.heard.trans h.heard
  sent socket := (h'.sent socket).trans (h.sent socket)
  sockets := h'.sockets.trans h.sockets
  hub := h'.hub.trans h.hub

/-- Queueing a frame changes one connection and the interest of the reactor. -/
theorem queue_eq
    (w : World) (x : WsId) (frame : Bytes) :
    ∃ reactor, queue w x frame =
      { w with
        wss := Function.update w.wss x
          { w.wss x with writeBuf := (w.wss x).writeBuf.append frame, writing := true }
        reactor := reactor } := by
  unfold queue
  dsimp only
  split
  · next hw =>
      refine ⟨w.reactor, ?_⟩
      simp only [World.setWs, hw]
  · exact ⟨_, rfl⟩

theorem queue_appends
    (w : World) (x : WsId) (frame : Bytes) :
    Appends x w (queue w x frame) frame := by
  obtain ⟨reactor, heq⟩ := queue_eq w x frame
  rw [heq]
  constructor <;> simp

/-- A frame for another connection. -/
theorem queue_appends_other
    (w : World) (hne : x ≠ y) (frame : Bytes) :
    Appends x w (queue w y frame) [] := by
  obtain ⟨reactor, heq⟩ := queue_eq w y frame
  rw [heq]
  constructor <;> simp [Function.update_of_ne hne]

/-- What a connection puts out that is asked to send a frame. -/
def ifActive (w : World) (x : WsId) (frame : Bytes) : Bytes :=
  if (w.wss x).state = .ACTIVE then frame else []

theorem sendText_appends
    (w : World) (x : WsId) (payload : Bytes) :
    Appends x w (sendText w x payload) (ifActive w x (encodeText payload)) := by
  unfold sendText ifActive
  by_cases hactive : (w.wss x).state = .ACTIVE
  · rw [if_neg (not_not.mpr hactive), if_pos hactive]
    exact queue_appends w x _
  · rw [if_pos hactive, if_neg hactive]
    exact .refl x w

theorem sendPing_appends
    (w : World) (x : WsId) (payload : Bytes) :
    Appends x w (sendPing w x payload) (ifActive w x (encodePing payload)) := by
  unfold sendPing ifActive
  by_cases hactive : (w.wss x).state = .ACTIVE
  · rw [if_neg (not_not.mpr hactive), if_pos hactive]
    exact queue_appends w x _
  · rw [if_pos hactive, if_neg hactive]
    exact .refl x w

theorem sendText_appends_other
    (w : World) (hne : x ≠ y) (payload : Bytes) :
    Appends x w (sendText w y payload) [] := by
  unfold sendText
  split
  · exact .refl x w
  · exact queue_appends_other w hne _

/-- What a connection is sent by a broadcast. -/
def announced (J : JsonLib) (w : World) (x : WsId) (m : Message) : Bytes :=
  if x ∈ w.hub then ifActive w x (encodeText (J.dump (WsHub.wsJson m))) else []

/-- The turn of the loop of `broadcast` for a connection. -/
def announceTo (text : Bytes) (w : World) (y : WsId) : World :=
  if (w.wss y).state = .ACTIVE then sendText w y text else w

theorem announceTo_eq
    (text : Bytes) (w : World) (y : WsId) :
    announceTo text w y = sendText w y text := by
  by_cases hactive : (w.wss y).state = .ACTIVE
  · rw [announceTo, if_pos hactive]
  · rw [announceTo, if_neg hactive, sendText, if_pos hactive]

/-- A connection occurs once in the hub, so it gets the text once. -/
theorem foldl_announceTo
    (text : Bytes) {ys : List WsId} (hnodup : ys.Nodup) (w : World) :
    Appends x w (ys.foldl (announceTo text) w)
      (if x ∈ ys then ifActive w x (encodeText text) else []) := by
  induction ys generalizing w with
  | nil =>
      exact .refl x w
  | cons y ys ih =>
      obtain ⟨hy, hys⟩ := List.nodup_cons.mp hnodup
      rw [List.foldl_cons, announceTo_eq]
      have hrest := ih hys (sendText w y text)
      rcases eq_or_ne x y with rfl | hne
      · rw [if_neg hy] at hrest
        have hall := (sendText_appends w x text).trans hrest
        simpa using hall
      · have hother := sendText_appends_other w hne text
        rw [ifActive, hother.state, ← ifActive] at hrest
        have hall := hother.trans hrest
        simpa [hne] using hall

theorem broadcast_appends
    (J : JsonLib) (w : World) (x : WsId) (m : Message) :
    Appends x w (WsHub.broadcast J w m) (announced J w x m) :=
  foldl_announceTo (J.dump (WsHub.wsJson m)) w.hub.nodup w

/-- What a connection is sent when a text arrives on a connection. -/
def echoed (J : JsonLib) (w : World) (x y : WsId) (payload : Bytes) : Bytes :=
  match WsHub.chatOf J payload with
  | none => []
  | some (room, content) =>
      announced J w x
        { from_ := (w.wss y).username, room := room, content := content, time := w.now }

theorem addMessage_appends
    (J : JsonLib) (w : World) (x : WsId) (m : Message) (source : Source) :
    Appends x w (WsHub.addMessage J w m source) (announced J w x m) := by
  have hentry : Appends x w
      { w.note (.message m source w.room.users) with room := w.room.push m } [] := by
    constructor <;> simp [World.note, Web.heard, sentOn]
  exact hentry.trans (broadcast_appends J _ x m)

/-- The text handler of the hub only appends to the connections. -/
theorem onText_appends
    (J : JsonLib) (w : World) (x y : WsId) (payload : Bytes) :
    Appends x w (WsHub.onText J w y payload) (echoed J w x y payload) := by
  unfold WsHub.onText echoed
  cases WsHub.chatOf J payload with
  | none =>
      exact .refl x w
  | some chat =>
      exact addMessage_appends J w x _ _

theorem ifActive_cases
    (w : World) (x : WsId) (frame : Bytes) :
    ifActive w x frame = [] ∨ (w.wss x).state = .ACTIVE ∧ ifActive w x frame = frame := by
  unfold ifActive
  split
  · next hactive =>
      exact .inr ⟨hactive, rfl⟩
  · exact .inl rfl

theorem announced_cases
    (J : JsonLib) (w : World) (x : WsId) (m : Message) :
    announced J w x m = [] ∨ x ∈ w.hub ∧ (w.wss x).state = .ACTIVE ∧
      announced J w x m = encodeText (J.dump (WsHub.wsJson m)) := by
  unfold announced
  split
  · next hmember =>
      rcases ifActive_cases w x (encodeText (J.dump (WsHub.wsJson m))) with h | ⟨hactive, h⟩
      · exact .inl h
      · exact .inr ⟨hmember, hactive, h⟩
  · exact .inl rfl

/-- A member of the hub is sent a chat message, also its own. -/
theorem echoed_cases
    (J : JsonLib) (w : World) (x y : WsId) (payload : Bytes) :
    echoed J w x y payload = [] ∨ x ∈ w.hub ∧ WsHub.chatOf J payload ≠ none ∧
      ∃ m, echoed J w x y payload = encodeText (J.dump (WsHub.wsJson m)) := by
  unfold echoed
  cases WsHub.chatOf J payload with
  | none =>
      exact .inl rfl
  | some chat =>
      dsimp only
      rcases announced_cases J w x (Message.mk _ _ _ _) with h | ⟨hmember, -, h⟩
      · exact .inl h
      · exact .inr ⟨hmember, by simp, _, h⟩

theorem keepsInput_hub
    (J : JsonLib) (x : WsId) :
    KeepsInput (WsHub.callbacks J) x where
  onText w payload := (onText_appends J w x x payload).readBuf

end Appends

section Effects

/-- Closing a connection of the hub. -/
theorem close_hub
    (J : JsonLib) (w : World) (x : WsId) :
    (close (WsHub.callbacks J) w x).wss x = { w.wss x with state := .CLOSED } ∧
      (close (WsHub.callbacks J) w x).trace = w.trace ∧
        (close (WsHub.callbacks J) w x).sockets = w.sockets := by
  unfold close
  split
  · next hclosed =>
      refine ⟨?_, rfl, rfl⟩
      rw [← hclosed]
  · refine ⟨?_, rfl, rfl⟩
    simp [WsHub.callbacks, WsHub.onClose, World.closeFd, World.removeFd, World.setWs]

end Effects

end WsConnection
end Web
end ChatRoom
