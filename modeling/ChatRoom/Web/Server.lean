import ChatRoom.Lib.Runs
import ChatRoom.Web.HttpServer

/-!
# The web server

`main` (server/main.cpp): the reactor calls the HTTP server and the WebSocket
connections.  A step of the server is what the reactor does with one event.
-/

namespace ChatRoom
namespace Web

open Socket

/-- An event of the reactor, with the answers of the kernel it needs. -/
inductive Event where
  /-- `accept4` returns a descriptor -/
  | accept (fd : Fd)
  /-- `epoll_wait` reports a descriptor -/
  | ready (fd : Fd) (events : Ready) (input : Input) (sends : List SendResult)
  /-- time passes -/
  | clock (now : Int)
  /-- the files change -/
  | files (files : Bytes → Option Bytes)

section Server

variable (cfg : Config)

/-- The read callback of a target. -/
def readCallback (w : World) (input : Input) : Target → Except Exn World
  | .http h => HttpConnection.onRead (HttpServer.callbacks cfg) w h input
  | .ws x => WsConnection.onRead (WsHub.callbacks cfg.json) w x input

/-- The write callback of a target. -/
def writeCallback (w : World) (sends : List SendResult) : Target → Except Exn World
  | .http h => HttpConnection.onWrite (HttpServer.callbacks cfg) h w sends
  | .ws x => .ok (WsConnection.onWrite (WsHub.callbacks cfg.json) x w sends)

/-- `Reactor::handleEvent`: both callbacks are copied before the first one runs. -/
def handleEvent (w : World) (fd : Fd) (events : Ready) (input : Input)
    (sends : List SendResult) : Except Exn World :=
  match w.reactor.contexts fd with
  | none => .ok w
  | some target =>
      if events.failure then
        readCallback cfg w input target
      else
        (if events.input then readCallback cfg w input target else .ok w).bind fun w =>
          if events.output then writeCallback cfg w sends target else .ok w

/-- What the server does with an event.  `accept4` returns descriptors that are
not open. -/
def step (w : World) : Event → Except Exn World
  | .accept fd => if w.openFds fd then .ok w else HttpServer.onAccept w fd
  | .ready fd events input sends => handleEvent cfg w fd events input sends
  | .clock now => .ok { w with now := now }
  | .files files => .ok { w with files := files }

/-- The server after a list of events. -/
def runServer (events : List Event) : Except Exn World :=
  Runs.run (step cfg) World.init events

end Server

/-- What a step can be: only the clock and the files may change, a new socket is accepted,
or the reactor handles an event of a registered connection. -/
inductive Stepped (cfg : Config) (w : World) : Event → World → Prop where
  | idle {e : Event} (now : Int) (files : Bytes → Option Bytes) :
      Stepped cfg w e { w with now := now, files := files }
  | accept {fd : Fd} {w' : World} (hnew : w.openFds fd = false)
      (haccept : HttpServer.onAccept w fd = .ok w') :
      Stepped cfg w (.accept fd) w'
  | handle {fd : Fd} {events : Ready} {input : Input} {sends : List SendResult} {t : Target}
      {w' : World} (ht : w.reactor.contexts fd = some t)
      (hhandle : handleEvent cfg w fd events input sends = .ok w') :
      Stepped cfg w (.ready fd events input sends) w'

theorem step_cases
    {cfg : Config} {w w' : World} {e : Event} (hok : step cfg w e = .ok w') :
    Stepped cfg w e w' := by
  cases e with
  | accept fd =>
      rw [step] at hok
      split at hok
      · cases hok
        exact .idle w.now w.files
      · next hnew =>
          exact .accept (Bool.eq_false_iff.mpr hnew) hok
  | ready fd events input sends =>
      cases ht : w.reactor.contexts fd with
      | none =>
          rw [step, handleEvent, ht] at hok
          cases hok
          exact .idle w.now w.files
      | some t =>
          exact .handle ht hok
  | clock now =>
      cases hok
      exact .idle now w.files
  | files files =>
      cases hok
      exact .idle w.now files

/-- An event of a registered connection is a call of the read callback, unless there is
nothing to read, and then of the write callback, unless the descriptor has failed. -/
theorem handleEvent_cases
    {cfg : Config} {w w' : World} {fd : Fd} {events : Ready} {input : Input}
    {sends : List SendResult} {t : Target} (ht : w.reactor.contexts fd = some t)
    (hok : handleEvent cfg w fd events input sends = .ok w') :
    ∃ w₁,
      (if events.failure || events.input then readCallback cfg w input t else .ok w) = .ok w₁ ∧
        (w' = w₁ ∨
          events.failure = false ∧ events.output = true ∧
            writeCallback cfg w₁ sends t = .ok w') := by
  unfold handleEvent at hok
  rw [ht] at hok
  dsimp only at hok
  cases hfailure : events.failure with
  | true =>
      rw [hfailure, if_pos rfl] at hok
      exact ⟨w', hok, .inl rfl⟩
  | false =>
      rw [hfailure, if_neg (by simp)] at hok
      obtain ⟨w₁, hfirst, hsecond⟩ := Runs.bind_eq_ok.mp hok
      refine ⟨w₁, by rwa [Bool.false_or], ?_⟩
      split at hsecond
      · next houtput =>
          exact .inr ⟨rfl, houtput, hsecond⟩
      · cases hsecond
        exact .inl rfl

end Web
end ChatRoom
