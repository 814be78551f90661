import ChatRoom.Http.Response
import ChatRoom.Lib.Socket
import ChatRoom.Server.Reactor
import ChatRoom.Server.Room
import ChatRoom.Server.TokenStore
import ChatRoom.Common.Buffer

/-!
# The objects of the web server

The web server (server/main.cpp) has HTTP connections, WebSocket connections, the
room and the token store.  The connections are objects in memory that several
tables point to, so their methods act on a `World`.

An object stays in `https` or `wss` when its owner has released it: the code
reads a few fields of connections that are just being destroyed, and the model
gives it the values they had.

A descriptor that is reused belongs to another socket; `sockets` names the
socket behind a descriptor.  `trace` is a history that no code reads.
-/

namespace ChatRoom
namespace Web

open Http

/-- Address of an `HttpConnection`. -/
abbrev HttpId := Nat

/-- Address of a `WsConnection`. -/
abbrev WsId := Nat

/-- A connection accepted by the kernel. -/
abbrev SocketId := Nat

/-- The object whose callbacks the reactor holds for a descriptor. -/
inductive Target where
  | http (h : HttpId)
  | ws (x : WsId)
deriving DecidableEq

/-- `HttpConnection::State` and `WsConnection::State` -/
inductive State where
  | ACTIVE
  | CLOSED
deriving DecidableEq

/-- `HttpConnection` -/
structure HttpConnection where
  fd : Fd
  readBuf : Buffer
  writeBuf : Buffer
  closeAfterWrite : Bool
  writing : Bool
  state : State
  upgraded : Bool
  upgradedUser : String

/-- `HttpConnection::HttpConnection` -/
def HttpConnection.new (fd : Fd) : HttpConnection where
  fd := fd
  readBuf := Buffer.new
  writeBuf := Buffer.new
  closeAfterWrite := false
  writing := false
  state := .ACTIVE
  upgraded := false
  upgradedUser := ""

/-- `WsConnection` -/
structure WsConnection where
  fd : Fd
  username : String
  readBuf : Buffer
  writeBuf : Buffer
  writing : Bool
  state : State
  closeAfterWrite : Bool

/-- `WsConnection::WsConnection` -/
def WsConnection.new (fd : Fd) (username : String) : WsConnection where
  fd := fd
  username := username
  readBuf := Buffer.new
  writeBuf := Buffer.new
  writing := false
  state := .ACTIVE
  closeAfterWrite := false

/-- Where a message came from: a request that presented a token, or a frame on a
socket. -/
inductive Source where
  | request (tok : Bytes)
  | frame (socket : SocketId)
deriving DecidableEq

/-- Entries of the history. -/
inductive Obs where
  /-- `/api/login` has issued a token for a name -/
  | login (u : String) (tok : Bytes)
  /-- `/api/logout` has removed a name and revoked a token -/
  | logout (u : String) (tok : Bytes)
  /-- `Room::addMessage` is called when these are the users of the room -/
  | message (m : Message) (source : Source) (users : UnorderedSet String)
  /-- an upgrade request is accepted on a socket -/
  | upgrade (socket : SocketId) (tok : Bytes) (u : String)
  /-- a `WsConnection` is constructed on a socket -/
  | adopt (socket : SocketId) (x : WsId) (u : String)
  /-- `HttpConnection::send` is called -/
  | response (h : HttpId) (resp : HttpResponse)
  /-- `onText_` is called -/
  | text (x : WsId) (payload : Bytes)
  /-- `::send` has accepted bytes on a socket -/
  | wrote (socket : SocketId) (bs : Bytes)

/-- Everything the server acts on. -/
structure World where
  https : HttpId → HttpConnection
  /-- objects below this address have been constructed -/
  httpAllocated : Nat
  wss : WsId → WsConnection
  wsAllocated : Nat
  /-- `HttpServer::conns_` -/
  conns : Fd → Option HttpId
  /-- `WsHub::conns_` -/
  hub : UnorderedSet WsId
  reactor : Reactor Target
  openFds : Fd → Bool
  sockets : Fd → SocketId
  /-- sockets below this number have been accepted -/
  nextSocket : Nat
  room : Room
  tokens : TokenStore
  /-- the content of the files that can be opened, by the string given to `std::ifstream`,
  whose file name ends at the first NUL -/
  files : Bytes → Option Bytes
  /-- milliseconds -/
  now : Int
  trace : List Obs

/-- What does not change while the server runs: the JSON library, the directory
of the static files, and whether the server was given the token store and the
hub (`deps_`). -/
structure Config where
  json : JsonLib
  webroot : Bytes
  configured : Bool

namespace World

/-- Write back an HTTP connection. -/
def setHttp (w : World) (h : HttpId) (conn : HttpConnection) : World :=
  { w with https := Function.update w.https h conn }

/-- Write back a WebSocket connection. -/
def setWs (w : World) (x : WsId) (conn : WsConnection) : World :=
  { w with wss := Function.update w.wss x conn }

/-- Record an entry of the history. -/
def note (w : World) (o : Obs) : World :=
  { w with trace := w.trace ++ [o] }

/-- `::close` -/
def closeFd (w : World) (fd : Fd) : World :=
  { w with
    reactor := w.reactor.descriptorClosed fd
    openFds := Function.update w.openFds fd false }

/-- `Reactor::modifyFd` -/
def modifyFd (w : World) (fd : Fd) (events : Interest) : World :=
  { w with reactor := w.reactor.modifyFd fd events }

/-- `Reactor::removeFd` -/
def removeFd (w : World) (fd : Fd) : World :=
  { w with reactor := w.reactor.removeFd fd }

/-- `HttpServer::conns_.erase(fd)` -/
def eraseConn (w : World) (fd : Fd) : World :=
  { w with conns := Function.update w.conns fd none }

/-- The server before its first event. -/
def init : World where
  https _ := HttpConnection.new 0
  httpAllocated := 0
  wss _ := WsConnection.new 0 ""
  wsAllocated := 0
  conns _ := none
  hub := ∅
  reactor := Reactor.new
  openFds _ := false
  sockets _ := 0
  nextSocket := 0
  room := Room.new
  tokens := TokenStore.new
  files _ := none
  now := 0
  trace := []

end World

section History

/-- The payloads with which `onText_` of a connection has been called. -/
def heard (x : WsId) (history : List Obs) : List Bytes :=
  history.filterMap fun
    | .text y payload => if y = x then some payload else none
    | _ => none

/-- The bytes that `::send` has accepted on a socket. -/
def sentOn (socket : SocketId) (history : List Obs) : Bytes :=
  history.flatMap fun
    | .wrote s bs => if s = socket then bs else []
    | _ => []

@[simp] theorem heard_append
    (x : WsId) (past future : List Obs) :
    heard x (past ++ future) = heard x past ++ heard x future := by
  exact List.filterMap_append

theorem heard_note_text
    (w : World) (x : WsId) (payload : Bytes) :
    heard x (w.note (.text x payload)).trace = heard x w.trace ++ [payload] := by
  simp [World.note, heard]

@[simp] theorem sentOn_append
    (socket : SocketId) (past future : List Obs) :
    sentOn socket (past ++ future) = sentOn socket past ++ sentOn socket future := by
  exact List.flatMap_append

/-- Only `::send` adds to what has been sent. -/
theorem sentOn_note
    (w : World) (socket : SocketId) {o : Obs} (ho : ∀ s bs, o ≠ .wrote s bs) :
    sentOn socket (w.note o).trace = sentOn socket w.trace := by
  rw [World.note, sentOn_append]
  cases o with
  | wrote s bs =>
      exact absurd rfl (ho s bs)
  | login | logout | message | upgrade | adopt | response | text =>
      exact List.append_nil _

end History

section Sockets

open Socket

/-- The `recv` loop of `HttpConnection::onRead` and `WsConnection::onRead`: up to
4096 bytes at a time are appended to the read buffer.  Each turn but the last
one takes a pending byte. -/
def recvLoop : Nat → Buffer → Input → Buffer × RecvEnd
  | 0, readBuf, _ => (readBuf, .drained)
  | fuel + 1, readBuf, s =>
      match s.recv 4096 with
      | (.data bs _ _, s') => recvLoop fuel (readBuf.append bs) s'
      | (.zero, _) => (readBuf, .hangup)
      | (.again, _) => (readBuf, .drained)
      | (.error, _) => (readBuf, .hangup)

/-- Receiving puts the pending bytes behind the readable ones, and ends without a
hangup if nothing but `EAGAIN` follows them. -/
theorem recvLoop_spec
    {fuel : Nat} {s : Input} (b : Buffer) (hfuel : s.pending.length < fuel) :
    (recvLoop fuel b s).1.readable = b.readable ++ s.pending ∧
      ((recvLoop fuel b s).2 = .drained ↔ s.idle = .again) := by
  induction fuel generalizing b s with
  | zero =>
      omega
  | succ fuel ih =>
      rw [recvLoop]
      by_cases hp : s.pending.length = 0
      · have hnil := List.length_eq_zero_iff.mp hp
        by_cases hidle : s.idle = .again
        · rw [Input.recv_again _ hp hidle]
          simp [hnil, hidle]
        · rcases Input.recv_idle 4096 hp hidle with h | h
          · rw [h]
            simp [hnil, hidle]
          · rw [h]
            simp [hnil, hidle]
      · obtain ⟨bs, pos, fits, s', hrecv, hsplit, hidle⟩ :=
          Input.recv_data (s := s) (k := 4096) (by omega) (by decide)
        have hlen := congrArg List.length hsplit
        rw [List.length_append] at hlen
        obtain ⟨hread, hend⟩ := ih (b.append bs) (s := s') (by omega)
        rw [hrecv]
        dsimp only
        refine ⟨?_, ?_⟩
        · rw [hread, hsplit, Buffer.readable_append, List.append_assoc]
        · rw [hend, hidle]

/-- From a peer that is there everything pending is received. -/
theorem recvLoop_again
    {s : Input} (hidle : s.idle = .again) (b : Buffer) :
    ∃ readBuf, recvLoop (s.pending.length + 1) b s = (readBuf, .drained) ∧
      readBuf.readable = b.readable ++ s.pending := by
  obtain ⟨hread, hend⟩ := recvLoop_spec (s := s) b (Nat.lt_succ_self _)
  exact ⟨_, Prod.ext rfl (hend.mpr hidle), hread⟩

/-- The loop tells when the peer is gone. -/
theorem recvLoop_gone
    {s : Input} (hidle : s.idle ≠ .again) (b : Buffer) :
    ∃ readBuf, recvLoop (s.pending.length + 1) b s = (readBuf, .hangup) := by
  obtain ⟨-, hend⟩ := recvLoop_spec (s := s) b (Nat.lt_succ_self _)
  cases hrecv : recvLoop (s.pending.length + 1) b s with
  | mk readBuf ending =>
      rw [hrecv] at hend
      cases ending with
      | drained =>
          exact absurd (hend.mp rfl) hidle
      | hangup =>
          exact ⟨readBuf, rfl⟩

/-- The answer of `::send` on a descriptor; it fails if the descriptor is closed. -/
def sendResult (w : World) (fd : Fd) (result : SendResult) : SendResult :=
  if w.openFds fd then result else .error

end Sockets

end Web
end ChatRoom
