import Mathlib.Tactic

/-!
# Non-blocking stream sockets

What the kernel answers to `recv` and `send` on a non-blocking stream socket.

A readable event is described by the bytes that are pending, by how many bytes
the kernel hands out at each call, and by what it says once nothing is pending.
`recv` into a buffer of `k` bytes returns between `1` and `k` of the pending
bytes; every such number is possible.  Asked for `0` bytes while data is
pending, it returns `0`.  The result type carries the bounds, so a caller can
store the bytes without checking them again.
-/

namespace ChatRoom
namespace Socket

/-- Result of `recv` into a buffer of `k` bytes. -/
inductive RecvResult (k : Nat) where
  | data (bs : List UInt8) (pos : 0 < bs.length) (fits : bs.length ≤ k)
  | zero
  | again
  | error

/-- What `recv` answers when no byte is pending. -/
inductive Idle where
  | again
  | eof
  | error
deriving DecidableEq

/-- The input side of a socket during one readable event. -/
structure Input where
  pending : List UInt8
  /-- how many bytes the kernel would like to hand out at each call -/
  sizes : List Nat
  idle : Idle

namespace Input

/-- Number of bytes handed out: between `1` and both bounds. -/
def recvSize (want k pending : Nat) : Nat :=
  max 1 (min want (min k pending))

/-- The pending bytes after one call that handed out `n` of them. -/
def advance (s : Input) (n : Nat) : Input :=
  { s with pending := s.pending.drop n, sizes := s.sizes.tail }

/-- `recv` into a buffer of `k` bytes. -/
def recv (s : Input) (k : Nat) : RecvResult k × Input :=
  if hp : s.pending.length = 0 then
    match s.idle with
    | .again => (.again, s)
    | .eof => (.zero, s)
    | .error => (.error, s)
  else if hk : k = 0 then
    (.zero, s)
  else
    let n := recvSize (s.sizes.headD k) k s.pending.length
    have hn : 1 ≤ n ∧ n ≤ k ∧ n ≤ s.pending.length := by
      simp only [n, recvSize]
      omega
    (.data (s.pending.take n)
        (by rw [List.length_take]; omega)
        (by rw [List.length_take]; omega),
      s.advance n)

/-- Data and room for it: some of the pending bytes are handed out. -/
theorem recv_data
    {s : Input} {k : Nat} (hp : 0 < s.pending.length) (hk : 0 < k) :
    ∃ bs pos fits s', s.recv k = (.data bs pos fits, s') ∧
      s.pending = bs ++ s'.pending ∧ s'.idle = s.idle := by
  unfold recv
  rw [dif_neg (by omega), dif_neg (by omega)]
  exact ⟨_, _, _, _, rfl, (List.take_append_drop _ _).symm, rfl⟩

/-- Data but no room: the answer is the one for the end of the stream. -/
theorem recv_full
    {s : Input} {k : Nat} (hp : 0 < s.pending.length) (hk : k = 0) :
    s.recv k = (.zero, s) := by
  unfold recv
  rw [dif_neg (by omega), dif_pos hk]

/-- No data and a peer that is gone. -/
theorem recv_idle
    {s : Input} (k : Nat) (hp : s.pending.length = 0) (hidle : s.idle ≠ .again) :
    s.recv k = (.zero, s) ∨ s.recv k = (.error, s) := by
  unfold recv
  rw [dif_pos hp]
  cases hs : s.idle with
  | again =>
      exact absurd hs hidle
  | eof =>
      exact .inl rfl
  | error =>
      exact .inr rfl

theorem recv_again
    {s : Input} (k : Nat) (hp : s.pending.length = 0) (hidle : s.idle = .again) :
    s.recv k = (.again, s) := by
  unfold recv
  rw [dif_pos hp, hidle]

end Input

/-- The readable events of a stream that ends: the peer is there until the last event,
and closes its end then. -/
structure EndedStream where
  events : List Input
  last : Input
  alive : ∀ s ∈ events, s.idle = .again
  ended : last.idle = .eof

namespace EndedStream

/-- The bytes of the events before the last one. -/
def early (stream : EndedStream) : List UInt8 :=
  stream.events.flatMap Input.pending

/-- All bytes received before the end. -/
def bytes (stream : EndedStream) : List UInt8 :=
  stream.early ++ stream.last.pending

theorem hangup
    (stream : EndedStream) :
    stream.last.idle ≠ .again := by
  simp [stream.ended]

end EndedStream

/-- How a loop of `recv` calls ends. -/
inductive RecvEnd where
  /-- nothing is left to receive for now -/
  | drained
  /-- the stream has ended or failed, as far as the caller can tell -/
  | hangup
deriving DecidableEq

/-- What `send` answers to one call with `len` bytes. -/
inductive SendResult where
  /-- between `1` and `len` bytes are accepted -/
  | accepts (want : Nat)
  | zero
  | again
  | error
deriving DecidableEq

/-- Number of bytes `send` accepts out of `len`. -/
def sendSize (want len : Nat) : Nat :=
  max 1 (min want len)

end Socket
end ChatRoom
