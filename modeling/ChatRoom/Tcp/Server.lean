import ChatRoom.Lib.Runs
import ChatRoom.Tcp.MessageHandler

/-!
# The TCP server

`main` (tcp/main.cpp) and `ConnectionManager` (tcp/connection_manager.cpp): the
callbacks of a connection, the listening socket, the idle timeout.  A step of
the server is what the reactor does with one event; a batch of events reported
by one `epoll_wait` is a sequence of steps, so that an event of the batch may
find its descriptor closed, or open again for another connection.

`handleEvent` calls the read callback and then the write callback.  The state
between the two is the state after the same event with `output` masked.
-/

namespace ChatRoom
namespace Tcp

open Socket

/-- An event of the reactor, with the answers of the kernel it needs. -/
inductive Event where
  /-- `accept` returns a descriptor -/
  | accept (fd : Fd)
  /-- `epoll_wait` reports a descriptor -/
  | ready (fd : Fd) (events : Ready) (input : Input) (sends : List SendResult)
  /-- `epoll_wait` reports nothing within its timeout -/
  | tick
  /-- time passes -/
  | clock (now : Int)

/-- Write back the connections under watch. -/
def World.setManaged (w : Chat) (managed : UnorderedSet ConnId) : Chat :=
  { w with env := { w.env with managed := managed } }

namespace ConnectionManager

/-- `ConnectionManager::add` -/
def add (w : Chat) (c : ConnId) : Chat :=
  w.setManaged (w.env.managed.insert c)

/-- `ConnectionManager::remove` -/
def remove (w : Chat) (c : ConnId) : Chat :=
  w.setManaged (w.env.managed.erase c)

/-- The connections that `tick` closes. -/
def toClose (w : Chat) (timeoutSec : Int) : List ConnId :=
  w.env.managed.elems.filter fun c => w.now - (w.conns c).lastActive > timeoutSec

/-- `ConnectionManager::tick` -/
def tick (onClose_ : Chat → ConnId → Chat) (w : Chat) (timeoutSec : Int) : Chat :=
  (toClose w timeoutSec).foldl (close onClose_) w

end ConnectionManager

section Server

variable (J : JsonLib)

/-- The callback installed by `setCloseCallback`. -/
def closeCallback (w : Chat) (c : ConnId) : Chat :=
  ConnectionManager.remove (onClose J w c) c

/-- The callbacks installed by `main`. -/
def callbacks : Callbacks ChatEnv where
  onPacket := onPacket J (closeCallback J)
  onClose := closeCallback J

/-- The body of the accept loop of `main`, for one descriptor. -/
def accept (w : Chat) (fd : Fd) : Except Exn Chat :=
  (start (newConnection w fd) w.allocated).map fun w' =>
    ConnectionManager.add w' w.allocated

/-- What the server does with an event.  `accept` returns descriptors that are
not open. -/
def step (w : Chat) : Event → Except Exn Chat
  | .accept fd => if w.openFds fd then .ok w else accept w fd
  | .ready fd events input sends => handleEvent (callbacks J) w fd events input sends
  | .tick => .ok (ConnectionManager.tick (closeCallback J) w 30)
  | .clock now => .ok { w with now := now }

end Server

/-- The server before its first event. -/
def initial : Chat :=
  World.init { users := ∅, managed := ∅ } 0

/-- The server after a list of events. -/
def runServer (J : JsonLib) (events : List Event) : Except Exn Chat :=
  Runs.run (step J) initial events

end Tcp
end ChatRoom
