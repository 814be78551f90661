import ChatRoom.Web.WsConnection

/-!
# The hub of the WebSocket connections

`WsHub` (server/ws_hub.h, server/ws_hub.cpp).  The hub is the subscriber of the
room, so `Room::addMessage` ends in a broadcast.
-/

namespace ChatRoom
namespace Web
namespace WsHub

/-- The document of `toWsJson_`. -/
def wsJson (m : Message) : Json :=
  .obj [("content", .str m.content), ("from", .str m.from_), ("room", .str m.room),
    ("time", .int m.time), ("type", .str "chat")]

/-- `WsHub::broadcast` -/
def broadcast (J : JsonLib) (w : World) (m : Message) : World :=
  w.hub.elems.foldl
    (fun w x =>
      if (w.wss x).state = .ACTIVE then WsConnection.sendText w x (J.dump (wsJson m)) else w)
    w

/-- `Room::addMessage` with the hub as its subscriber. -/
def addMessage (J : JsonLib) (w : World) (m : Message) (source : Source) : World :=
  let w := { w.note (.message m source w.room.users) with room := w.room.push m }
  broadcast J w m

/-- What the text handler reads in a frame: the room and the content of a chat
message, unless the frame is ignored. -/
def chatOf (J : JsonLib) (payload : Bytes) : Option (String × String) :=
  match J.parse payload with
  | none => none
  | some j =>
      match j.value "type" "" with
      | .error _ => none
      | .ok type =>
          if type ≠ "chat" then
            none
          else
            match j.value "content" "" with
            | .error _ => none
            | .ok content =>
                if content = "" then
                  none
                else
                  match j.value "room" "lobby" with
                  | .error _ => none
                  | .ok room => some (room, content)

/-- The text handler set by `adoptConnection`. -/
def onText (J : JsonLib) (w : World) (x : WsId) (payload : Bytes) : World :=
  match chatOf J payload with
  | none => w
  | some (room, content) =>
      addMessage J w
        { from_ := (w.wss x).username, room := room, content := content, time := w.now }
        (.frame (w.sockets (w.wss x).fd))

/-- The close handler set by `adoptConnection`. -/
def onClose (w : World) (x : WsId) : World :=
  { w with hub := w.hub.erase x }

def callbacks (J : JsonLib) : WsConnection.Callbacks where
  onText := onText J
  onClose := onClose

/-- `WsHub::adoptConnection` -/
def adoptConnection (w : World) (fd : Fd) (username : String) : Except Exn World :=
  let x := w.wsAllocated
  let w := { w.setWs x (WsConnection.new fd username) with wsAllocated := x + 1 }
  let w := w.note (.adopt (w.sockets fd) x username)
  (WsConnection.start w x).map fun w => { w with hub := w.hub.insert x }

end WsHub
end Web
end ChatRoom
