import ChatRoom.Common.Json
import ChatRoom.Lib.UnorderedSet
import ChatRoom.Tcp.Connection
import Mathlib.Data.List.AList

/-!
# The packet handler

`UserManager` (tcp/user_manager.cpp) and `MessageHandler`
(tcp/message_handler.cpp): what the server does with a packet, by its type.
-/

namespace ChatRoom
namespace Tcp

/-- `UserManager::users_` -/
abbrev UserTable := AList fun _ : String => ConnId

/-- What the callbacks own: the table of users, and the connections that the
`ConnectionManager` watches. -/
structure ChatEnv where
  users : UserTable
  managed : UnorderedSet ConnId

/-- The state of the chat server. -/
abbrev Chat := World ChatEnv

/-- Write back the table of users. -/
def World.setUsers (w : Chat) (users : UserTable) : Chat :=
  { w with env := { w.env with users := users } }

namespace UserManager

/-- `UserManager::add`; `none` if the name is taken. -/
def add (w : Chat) (username : String) (conn : ConnId) : Option Chat :=
  if username ∈ w.env.users then
    none
  else
    some ((w.setUsers (w.env.users.insert username conn)).note (.registered conn username))

/-- The table without the first entry of a connection. -/
def removeFirst (users : UserTable) (conn : ConnId) : UserTable :=
  match users.entries.find? (fun kv => kv.2 = conn) with
  | some kv => users.erase kv.1
  | none => users

/-- `UserManager::remove(Connection*)` -/
def remove (w : Chat) (conn : ConnId) : Chat :=
  w.setUsers (removeFirst w.env.users conn)

/-- `UserManager::get` -/
def get (w : Chat) (username : String) : Option ConnId :=
  w.env.users.lookup username

/-- `UserManager::usernames` -/
def usernames (w : Chat) : List String :=
  w.env.users.keys

/-- `send` to a list of connections, one after the other. -/
def sendAll (w : Chat) (conns : List ConnId) (pkt : Packet) : Chat :=
  conns.foldl (fun w conn => send w conn pkt) w

/-- `UserManager::broadcast(pkt)` -/
def broadcast (w : Chat) (pkt : Packet) : Chat :=
  sendAll w (w.env.users.entries.map fun kv => kv.2) pkt

/-- `UserManager::broadcast(pkt, except)` -/
def broadcastExcept (w : Chat) (pkt : Packet) (except : ConnId) : Chat :=
  sendAll w ((w.env.users.entries.map fun kv => kv.2).filter fun conn => conn ≠ except) pkt

end UserManager

section MessageHandler

variable (J : JsonLib)

/-- The document of a `MSG_LOGIN_ACK`. -/
def ackJson (ok : Bool) (err : String) : Json :=
  if ok then
    .obj [("ok", .bool true)]
  else
    .obj [("error", .str err), ("ok", .bool false)]

/-- The packet that `sendAck` sends. -/
def ackPacket (ok : Bool) (err : String) : Packet where
  type := MessageType.MSG_LOGIN_ACK.code
  body := J.dump (ackJson ok err)

/-- `MessageHandler::sendAck` -/
def sendAck (w : Chat) (conn : ConnId) (ok : Bool) (err : String) : Chat :=
  send w conn (ackPacket J ok err)

/-- `MessageHandler::broadcastSystem` -/
def broadcastSystem (w : Chat) (text : String) : Chat :=
  UserManager.broadcast w
    { type := MessageType.MSG_SYSTEM.code
      body := J.dump (.obj [("content", .str text), ("time", .int w.now)]) }

/-- The packet with the names of all users. -/
def userListPacket (w : Chat) : Packet where
  type := MessageType.MSG_USER_LIST.code
  body := J.dump (.obj [("users", .arr ((UserManager.usernames w).map .str))])

/-- `MessageHandler::broadcastUserList` -/
def broadcastUserList (w : Chat) : Chat :=
  UserManager.broadcast w (userListPacket J w)

/-- `MessageHandler::handleLogin` -/
def handleLogin (w : Chat) (conn : ConnId) (pkt : Packet) : Except Exn Chat :=
  if (w.conns conn).state = .AUTHENTICATED then
    .ok (sendAck J w conn false "已登录")
  else
    match J.parse pkt.body with
    | none => .ok (sendAck J w conn false "消息格式错误")
    | some j =>
        (j.value "username" "").map fun username =>
          if username = "" then
            sendAck J w conn false "用户名不能为空"
          else
            match UserManager.add w username conn with
            | none => sendAck J w conn false "用户名已存在"
            | some w =>
                let w := setUsername w conn username
                let w := sendAck J w conn true ""
                let w := broadcastSystem J w (username ++ "上线")
                broadcastUserList J w

/-- `MessageHandler::handleChat` -/
def handleChat (w : Chat) (conn : ConnId) (pkt : Packet) : Except Exn Chat :=
  if (w.conns conn).state ≠ .AUTHENTICATED then
    .ok (sendAck J w conn false "未登录")
  else
    match J.parse pkt.body with
    | none => .ok w
    | some j =>
        (j.value "content" "").map fun content =>
          if content = "" then
            w
          else
            let out : Json := .obj
              [("content", .str content), ("from", .str (w.conns conn).username),
                ("time", .int w.now)]
            UserManager.broadcastExcept w
              { type := MessageType.MSG_CHAT_BROAD.code, body := J.dump out } conn

/-- `MessageHandler::handlePrivate` -/
def handlePrivate (w : Chat) (conn : ConnId) (pkt : Packet) : Except Exn Chat :=
  if (w.conns conn).state ≠ .AUTHENTICATED then
    .ok (sendAck J w conn false "未登录")
  else
    match J.parse pkt.body with
    | none => .ok w
    | some j =>
        (j.value "to" "").bind fun to_ =>
          (j.value "content" "").map fun content =>
            match UserManager.get w to_ with
            | none => sendAck J w conn false "对象用户不存在"
            | some target =>
                let out : Json := .obj
                  [("content", .str content), ("from", .str (w.conns conn).username),
                    ("to", .str to_)]
                send w target { type := MessageType.MSG_PRIVATE.code, body := J.dump out }

/-- `MessageHandler::handleUserList` -/
def handleUserList (w : Chat) (conn : ConnId) : Chat :=
  send w conn (userListPacket J w)

/-- `MessageHandler::handlePing` -/
def handlePing (w : Chat) (conn : ConnId) : Chat :=
  send w conn { type := MessageType.MSG_PONG.code, body := [] }

/-- `MessageHandler::handleLogOut`; `onClose_` is the callback of the connection. -/
def handleLogOut (onClose_ : Chat → ConnId → Chat) (w : Chat) (conn : ConnId) : Chat :=
  if (w.conns conn).state = .CLOSED then
    w
  else
    close onClose_ (UserManager.remove w conn) conn

/-- `MessageHandler::onPacket` -/
def onPacket (onClose_ : Chat → ConnId → Chat) (w : Chat) (conn : ConnId) (pkt : Packet) :
    Except Exn Chat :=
  match MessageType.ofCode? pkt.type with
  | some .MSG_LOGIN => handleLogin J w conn pkt
  | some .MSG_CHAT => handleChat J w conn pkt
  | some .MSG_PRIVATE => handlePrivate J w conn pkt
  | some .MSG_USER_LIST => .ok (handleUserList J w conn)
  | some .MSG_PING => .ok (handlePing w conn)
  | some .MSG_LOGOUT => .ok (handleLogOut onClose_ w conn)
  | _ => .ok w

/-- `MessageHandler::onClose` -/
def onClose (w : Chat) (conn : ConnId) : Chat :=
  if (w.conns conn).state ≠ .AUTHENTICATED then
    w
  else
    let name := (w.conns conn).username
    let w := UserManager.remove w conn
    let w := broadcastSystem J w (name ++ "离线")
    broadcastUserList J w

end MessageHandler

end Tcp
end ChatRoom
