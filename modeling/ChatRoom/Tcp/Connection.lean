import ChatRoom.Common.Buffer
import ChatRoom.Lib.Socket
import ChatRoom.Protocol.Packet
import ChatRoom.Server.Reactor

/-!
# TCP connections

`Connection` (tcp/connection.h, tcp/connection.cpp).  A connection is an object
in memory that several tables point to, so its methods act on a `World`: the
connection objects by address, the reactor, the open descriptors, the clock, and
whatever else the callbacks of the connections own (`env`).

`trace` is a history: it records the calls that leave a connection (`onPacket_`,
`onClose_`), the packets given to `send`, the bytes taken by `::send`, and the
registrations of a name.  No code reads it.
-/

namespace ChatRoom
namespace Tcp

open Socket

/-- Address of a `Connection` object. -/
abbrev ConnId := Nat

/-- `Connection::State` -/
inductive State where
  | CONNECTING
  | AUTHENTICATED
  | CLOSED
deriving DecidableEq

/-- `Connection`; the two callbacks are parameters of the methods that call them. -/
structure Connection where
  fd : Fd
  readBuf : Buffer
  writeBuf : Buffer
  state : State
  username : String
  writing : Bool
  lastActive : Int

/-- `Connection::Connection` at time `now` -/
def Connection.new (fd : Fd) (now : Int) : Connection where
  fd := fd
  readBuf := Buffer.new
  writeBuf := Buffer.new
  state := .CONNECTING
  username := ""
  writing := false
  lastActive := now

/-- Entries of the history. -/
inductive Obs where
  /-- `onPacket_` is called -/
  | packet (c : ConnId) (pkt : Packet)
  /-- `onClose_` is called -/
  | closed (c : ConnId)
  /-- `UserManager::add` enters a name for the connection -/
  | registered (c : ConnId) (name : String)
  /-- `Connection::send` is called -/
  | sent (c : ConnId) (pkt : Packet)
  /-- `::send` has accepted bytes -/
  | wrote (c : ConnId) (bs : Bytes)
deriving DecidableEq

/-- Everything the methods of a connection act on. -/
structure World (ε : Type) where
  conns : ConnId → Connection
  /-- objects below this address exist -/
  allocated : Nat
  reactor : Reactor ConnId
  openFds : Fd → Bool
  now : Int
  trace : List Obs
  env : ε

variable {ε : Type}

namespace World

/-- Write back a connection object. -/
def setConn (w : World ε) (c : ConnId) (conn : Connection) : World ε :=
  { w with conns := Function.update w.conns c conn }

/-- Record an entry of the history. -/
def note (w : World ε) (o : Obs) : World ε :=
  { w with trace := w.trace ++ [o] }

/-- `::close` -/
def closeFd (w : World ε) (fd : Fd) : World ε :=
  { w with
    reactor := w.reactor.descriptorClosed fd
    openFds := Function.update w.openFds fd false }

/-- `Reactor::modifyFd` -/
def modifyFd (w : World ε) (fd : Fd) (events : Interest) : World ε :=
  { w with reactor := w.reactor.modifyFd fd events }

/-- `Reactor::removeFd` -/
def removeFd (w : World ε) (fd : Fd) : World ε :=
  { w with reactor := w.reactor.removeFd fd }

end World

/-- The callbacks of a connection: `onPacket_` may throw. -/
structure Callbacks (ε : Type) where
  onPacket : World ε → ConnId → Packet → Except Exn (World ε)
  onClose : World ε → ConnId → World ε

/-- A server that has just been created. -/
def World.init (env : ε) (now : Int) : World ε where
  conns _ := Connection.new 0 now
  allocated := 0
  reactor := Reactor.new
  openFds _ := false
  now := now
  trace := []
  env := env

/-- `new Connection(fd, reactor)` for a descriptor that `accept` returned; the
address of the object is `w.allocated`. -/
def newConnection (w : World ε) (fd : Fd) : World ε :=
  { w.setConn w.allocated (Connection.new fd w.now) with
    allocated := w.allocated + 1
    openFds := Function.update w.openFds fd true }

/-- `Connection::start` -/
def start (w : World ε) (c : ConnId) : Except Exn (World ε) :=
  (w.reactor.addFd (w.conns c).fd EPOLLIN c).map fun reactor => { w with reactor := reactor }

/-- `Connection::setUsername` -/
def setUsername (w : World ε) (c : ConnId) (name : String) : World ε :=
  w.setConn c { w.conns c with username := name, state := .AUTHENTICATED }

/-- `Connection::send` -/
def send (w : World ε) (c : ConnId) (pkt : Packet) : World ε :=
  let conn := { w.conns c with writeBuf := (w.conns c).writeBuf.append (encode pkt) }
  let w := w.note (.sent c pkt)
  if conn.writing then
    w.setConn c conn
  else
    (w.modifyFd conn.fd EPOLLINOUT).setConn c { conn with writing := true }

/-- `Connection::close`; `onClose` runs before the state becomes `CLOSED`. -/
def close (onClose : World ε → ConnId → World ε) (w : World ε) (c : ConnId) : World ε :=
  if (w.conns c).state = .CLOSED then
    w
  else
    let w := w.removeFd (w.conns c).fd
    let w := onClose (w.note (.closed c)) c
    let w := w.setConn c { w.conns c with state := .CLOSED }
    w.closeFd (w.conns c).fd

/-- `readBuf_.hasWritten(n); touch();` -/
def Connection.received (conn : Connection) (now : Int) (bs : Bytes)
    (h : bs.length ≤ conn.readBuf.writableBytes) : Connection :=
  { conn with readBuf := conn.readBuf.write bs h, lastActive := now }

/-- The `recv` loop of `Connection::onRead`; each turn but the last one takes a
pending byte, so `fuel` above the number of pending bytes does not run out.  It
is left with `break` on `EAGAIN`; on `0` and on an error the connection is
closed. -/
def recvLoop (now : Int) : Nat → Connection → Input → Connection × RecvEnd
  | 0, conn, _ => (conn, .drained)
  | fuel + 1, conn, s =>
      match s.recv conn.readBuf.writableBytes with
      | (.data bs _ fits, s') => recvLoop now fuel (conn.received now bs fits) s'
      | (.zero, _) => (conn, .hangup)
      | (.again, _) => (conn, .drained)
      | (.error, _) => (conn, .hangup)

/-- `readBuf_.consume(n)` -/
def consume (w : World ε) (c : ConnId) (n : Nat) : World ε :=
  w.setConn c { w.conns c with readBuf := (w.conns c).readBuf.consume n }

/-- `Connection::handlePacket` -/
def handlePacket (cb : Callbacks ε) (w : World ε) (c : ConnId) (pkt : Packet) :
    Except Exn (World ε) :=
  cb.onPacket (w.note (.packet c pkt)) c pkt

/-- The decode loop of `Connection::onRead`; each turn consumes bytes, so the
number of readable bytes is enough `fuel`. -/
def decodeLoop (cb : Callbacks ε) (c : ConnId) : Nat → World ε → Except Exn (World ε)
  | 0, w => .ok w
  | fuel + 1, w =>
      if (w.conns c).readBuf.readableBytes > 0 then
        let r := decode (w.conns c).readBuf.readable
        if r.ok then
          (handlePacket cb (consume w c r.consumed.toNat) c r.packet).bind (decodeLoop cb c fuel)
        else if r.consumed = 0 then
          .ok (close cb.onClose w c)
        else
          .ok w
      else
        .ok w

/-- `Connection::onRead` -/
def onRead (cb : Callbacks ε) (w : World ε) (c : ConnId) (s : Input) : Except Exn (World ε) :=
  match recvLoop w.now (s.pending.length + 1) (w.conns c) s with
  | (conn, .hangup) => .ok (close cb.onClose (w.setConn c conn) c)
  | (conn, .drained) =>
      decodeLoop cb c conn.readBuf.readableBytes (w.setConn c conn)

/-- `writeBuf_.consume(n); touch();` after `::send` took `n` bytes -/
def wrote (w : World ε) (c : ConnId) (n : Nat) : World ε :=
  let conn := w.conns c
  (w.note (.wrote c (conn.writeBuf.readable.take n))).setConn c
    { conn with writeBuf := conn.writeBuf.consume n, lastActive := w.now }

/-- `Connection::onWrite`; `results` is what `::send` answers, call by call, and
`EAGAIN` from then on. -/
def onWrite (cb : Callbacks ε) (c : ConnId) : World ε → List SendResult → World ε
  | w, results =>
      if (w.conns c).writeBuf.readableBytes > 0 then
        match results with
        | [] => w
        | .again :: _ => w
        | .error :: _ => close cb.onClose w c
        | .zero :: _ => close cb.onClose w c
        | .accepts want :: results =>
            onWrite cb c (wrote w c (sendSize want (w.conns c).writeBuf.readableBytes)) results
      else if (w.conns c).writing then
        (w.modifyFd (w.conns c).fd EPOLLIN).setConn c { w.conns c with writing := false }
      else
        w

/-- `Reactor::handleEvent` for a descriptor of a connection: both callbacks are
copied before the first one runs. -/
def handleEvent (cb : Callbacks ε) (w : World ε) (fd : Fd) (ready : Ready) (s : Input)
    (results : List SendResult) : Except Exn (World ε) :=
  match w.reactor.contexts fd with
  | none => .ok w
  | some c =>
      if ready.failure then
        onRead cb w c s
      else
        (if ready.input then onRead cb w c s else .ok w).map fun w =>
          if ready.output then onWrite cb c w results else w

section Loops

/-- Receiving changes nothing but the read buffer and the time stamp. -/
theorem recvLoop_frame
    (now : Int) (fuel : Nat) (conn : Connection) (s : Input) :
    (recvLoop now fuel conn s).1 =
      { conn with
        readBuf := (recvLoop now fuel conn s).1.readBuf
        lastActive := (recvLoop now fuel conn s).1.lastActive } := by
  induction fuel generalizing conn s with
  | zero =>
      rfl
  | succ fuel ih =>
      rw [recvLoop]
      split
      · rw [ih]
        rfl
      · rfl
      · rfl
      · rfl

theorem recvLoop_fd
    (now : Int) (fuel : Nat) (conn : Connection) (s : Input) :
    (recvLoop now fuel conn s).1.fd = conn.fd := by
  rw [recvLoop_frame]

theorem recvLoop_state
    (now : Int) (fuel : Nat) (conn : Connection) (s : Input) :
    (recvLoop now fuel conn s).1.state = conn.state := by
  rw [recvLoop_frame]

variable {cb : Callbacks ε} {c : ConnId} {w : World ε} {fuel : Nat}

/-- Without a complete packet in the buffer the decode loop ends. -/
theorem decodeLoop_wait
    (hdec : packetDecoder.decode (w.conns c).readBuf.readable = .wait) :
    decodeLoop cb c fuel w = .ok w := by
  obtain ⟨hno, hne⟩ := verdict_eq_wait hdec
  cases fuel with
  | zero =>
      rfl
  | succ fuel =>
      rw [decodeLoop]
      simp only [hno, Bool.false_eq_true, if_false, if_neg hne, ite_self]

/-- A packet that cannot be decoded closes the connection. -/
theorem decodeLoop_malformed
    (hdec : packetDecoder.decode (w.conns c).readBuf.readable = .malformed) :
    decodeLoop cb c (fuel + 1) w = .ok (close cb.onClose w c) := by
  obtain ⟨hno, hzero⟩ := verdict_eq_malformed hdec
  have hsome : (w.conns c).readBuf.readableBytes > 0 := by
    rw [← Buffer.length_readable, gt_iff_lt, List.length_pos_iff]
    intro hempty
    rw [hempty] at hdec
    cases hdec
  rw [decodeLoop, if_pos hsome]
  simp only [hno, Bool.false_eq_true, if_false, if_pos hzero]

/-- A complete packet is handed over, and the loop goes on. -/
theorem decodeLoop_done
    {n : Nat} {pkt : Packet}
    (hdec : packetDecoder.decode (w.conns c).readBuf.readable = .done n pkt) :
    decodeLoop cb c (fuel + 1) w =
      (handlePacket cb (consume w c n) c pkt).bind (decodeLoop cb c fuel) := by
  obtain ⟨hyes, hn, hpkt⟩ := verdict_eq_done hdec
  have hbounds := packetDecoder.done_bounds hdec
  have hlen := (w.conns c).readBuf.length_readable
  rw [decodeLoop, if_pos (by omega)]
  simp only [hyes, if_true, hn, hpkt]

/-- A loop without fuel has nothing to decode. -/
theorem decode_wait_of_no_fuel
    (hfuel : (w.conns c).readBuf.readableBytes ≤ 0) :
    packetDecoder.decode (w.conns c).readBuf.readable = .wait := by
  have hempty : (w.conns c).readBuf.readable = [] := by
    apply List.length_eq_zero_iff.mp
    rw [Buffer.length_readable]
    omega
  rw [hempty]
  rfl

end Loops

end Tcp
end ChatRoom
