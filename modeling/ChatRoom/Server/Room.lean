import ChatRoom.Common.Json
import ChatRoom.Lib.UnorderedSet

/-!
# The room

`Message` (server/message.cpp) and `Room` (server/room.h, server/room.cpp).  The
subscriber that `addMessage` calls at its end is the hub of the WebSocket
connections; it is part of the model of the hub.
-/

namespace ChatRoom

/-- `Message` -/
structure Message where
  from_ : String
  room : String
  content : String
  time : Int
deriving DecidableEq

/-- `Message::toJson` -/
def Message.toJson (m : Message) : Json :=
  .obj [("content", .str m.content), ("from", .str m.from_), ("room", .str m.room),
    ("time", .int m.time)]

/-- `Room` -/
structure Room where
  messages : List Message
  users : UnorderedSet String

namespace Room

/-- `Room::MAX_HISTORY` -/
def MAX_HISTORY : Nat := 200

def new : Room where
  messages := []
  users := ∅

/-- `Room::addMessage` up to the call of the subscriber. -/
def push (r : Room) (m : Message) : Room :=
  let messages := r.messages ++ [m]
  { r with messages := if messages.length > MAX_HISTORY then messages.tail else messages }

/-- `Room::recentMessages` -/
def recentMessages (r : Room) (since : Int) : List Message :=
  r.messages.filter fun m => m.time > since

/-- `Room::addUser` -/
def addUser (r : Room) (name : String) : Room :=
  { r with users := r.users.insert name }

/-- `Room::removeUser` -/
def removeUser (r : Room) (name : String) : Room :=
  { r with users := r.users.erase name }

/-- `Room::hasUser` -/
def hasUser (r : Room) (name : String) : Bool :=
  name ∈ r.users

@[simp] theorem users_push
    (r : Room) (m : Message) :
    (r.push m).users = r.users := by
  rfl

end Room
end ChatRoom
