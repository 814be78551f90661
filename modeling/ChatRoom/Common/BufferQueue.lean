import ChatRoom.Common.Buffer
import ChatRoom.Common.Text
import ChatRoom.Lib.Runs

/-!
# The byte buffer is a queue of bytes

What a buffer is for: bytes are put in at the end and taken out at the front.
Every sequence of calls does to the readable bytes what it does to a queue, and
the strings handed out by `retrieveAllAsString` are the same.

`makeSpace` is compared with its text in `size_t` arithmetic: as long as some
doubling of the capacity that holds the bytes is representable, the doubling
loop ends and no product wraps around.
-/

namespace ChatRoom
namespace Buffer

/-- Bytes that a caller has put into the free space at `writeBegin`. -/
def store (b : Buffer) (data : Bytes) (_h : data.length ≤ b.writableBytes) : Buffer :=
  { b with
    buf := b.buf.take b.writePos ++ data ++ b.buf.drop (b.writePos + data.length)
    write_le_size := by
      have hw := b.write_le_size
      simp only [List.length_append, List.length_take, List.length_drop]
      omega
    size_pos := by
      have hs := b.size_pos
      simp only [List.length_append, List.length_take, List.length_drop]
      omega }

theorem readPos_le_add
    (b : Buffer) (len : Nat) :
    b.readPos ≤ b.writePos + len := by
  have h := b.read_le_write
  omega

theorem writePos_add_le
    (b : Buffer) (len : Nat) (h : len ≤ b.writableBytes) :
    b.writePos + len ≤ b.buf.length := by
  have hw := b.write_le_size
  simp only [writableBytes] at h
  omega

/-- `Buffer::hasWritten` -/
def hasWritten (b : Buffer) (len : Nat) (h : len ≤ b.writableBytes) : Buffer :=
  { b with
    writePos := b.writePos + len
    read_le_write := b.readPos_le_add len
    write_le_size := b.writePos_add_le len h }

theorem le_writableBytes_store
    (b : Buffer) (data : Bytes) (h : data.length ≤ b.writableBytes) :
    data.length ≤ (b.store data h).writableBytes := by
  have hw := b.write_le_size
  simp only [store, writableBytes, List.length_append, List.length_take, List.length_drop] at *
  omega

/-- The bytes that are announced become readable. -/
theorem readable_hasWritten_store
    (b : Buffer) (data : Bytes) (h : data.length ≤ b.writableBytes)
    {n : Nat} (hn : n ≤ data.length) :
    ((b.store data h).hasWritten n (hn.trans (b.le_writableBytes_store data h))).readable =
      b.readable ++ data.take n := by
  have hws := b.write_le_size
  have hrw := b.read_le_write
  have hfront : (b.buf.take b.writePos).length = b.writePos := by
    simp [hws]
  simp only [readable, hasWritten, store]
  rw [List.append_assoc, List.take_append, hfront, List.take_of_length_le (by omega),
    Nat.add_sub_cancel_left, List.take_append_of_le_length hn,
    List.drop_append_of_le_length (by omega)]

section Queue

/-- A call on a buffer; `fill` is a write at `writeBegin` that is followed by
`hasWritten`. -/
inductive Call where
  | append (data : Bytes)
  | consume (len : Nat)
  | retrieveAllAsString
  | clear
  | fill (data : Bytes) (written : Nat)

/-- A buffer and the strings that have been retrieved from it. -/
structure Session where
  buffer : Buffer
  retrieved : List Bytes

/-- The effect of a call.  A caller that writes or announces more bytes than
there is room for is outside the contract. -/
def call (s : Session) : Call → Except Unit Session
  | .append data => .ok { s with buffer := s.buffer.append data }
  | .consume len => .ok { s with buffer := s.buffer.consume len }
  | .retrieveAllAsString =>
      let (text, buffer) := s.buffer.retrieveAllAsString
      .ok { buffer := buffer, retrieved := s.retrieved ++ [text] }
  | .clear => .ok { s with buffer := s.buffer.clear }
  | .fill data written =>
      if h : data.length ≤ s.buffer.writableBytes ∧ written ≤ data.length then
        .ok { s with
          buffer := (s.buffer.store data h.1).hasWritten written
            (h.2.trans (s.buffer.le_writableBytes_store data h.1)) }
      else
        .error ()

/-- A queue of bytes and the strings that have been taken out of it. -/
structure ByteQueue where
  bytes : Bytes
  retrieved : List Bytes
deriving DecidableEq

/-- The purpose of a call. -/
def queueCall (q : ByteQueue) : Call → ByteQueue
  | .append data => { q with bytes := q.bytes ++ data }
  | .consume len => { q with bytes := q.bytes.drop (min len q.bytes.length) }
  | .retrieveAllAsString => { bytes := [], retrieved := q.retrieved ++ [q.bytes] }
  | .clear => { q with bytes := [] }
  | .fill data written => { q with bytes := q.bytes ++ data.take written }

/-- The queue a buffer stands for. -/
def Session.queue (s : Session) : ByteQueue where
  bytes := s.buffer.readable
  retrieved := s.retrieved

/-- Every call does to the readable bytes what it does to the queue. -/
theorem queue_call
    {s s' : Session} {c : Call} (hok : call s c = .ok s') :
    s'.queue = queueCall s.queue c := by
  cases c with
  | append data =>
      cases hok
      simp [Session.queue, queueCall]
  | consume len =>
      cases hok
      have hall : s.buffer.readable.drop (min len s.buffer.readable.length) =
          s.buffer.readable.drop len := by
        rcases Nat.le_total len s.buffer.readable.length with hle | hge
        · rw [Nat.min_eq_left hle]
        · rw [Nat.min_eq_right hge, List.drop_length, List.drop_of_length_le hge]
      simp only [Session.queue, queueCall, readable_consume, hall]
  | retrieveAllAsString =>
      cases hok
      simp [Session.queue, queueCall]
  | clear =>
      cases hok
      simp [Session.queue, queueCall]
  | fill data written =>
      rw [call] at hok
      split at hok
      · next h =>
          cases hok
          simp only [Session.queue, queueCall, readable_hasWritten_store _ _ h.1 h.2]
      · cases hok

end Queue

section SizeArithmetic

/-- The doubling loop of `makeSpace` in `size_t` arithmetic; `none` if it is still
running after `fuel` turns. -/
def doublingLoop (writePos len : Nat) : Nat → Nat → Option Nat
  | 0, _ => none
  | fuel + 1, newCap =>
      if (newCap + 2 ^ 64 - writePos) % 2 ^ 64 < len then
        doublingLoop writePos len fuel (newCap * 2 % 2 ^ 64)
      else
        some newCap

/-- `makeSpace` with the loop in `size_t` arithmetic. -/
def makeSpaceWithin (fuel : Nat) (b : Buffer) (len : Nat) : Option Buffer :=
  if b.writableBytes ≥ len ∨ b.readPos + b.writableBytes ≥ len then
    some (b.makeSpace len)
  else
    (doublingLoop b.writePos len fuel (b.buf.length * 2 % 2 ^ 64)).map fun newCap =>
      { b with
        buf := b.buf ++ List.replicate (newCap - b.buf.length) 0
        write_le_size := by
          have hw := b.write_le_size
          simp only [List.length_append]
          omega
        size_pos := by
          have hs := b.size_pos
          simp only [List.length_append]
          omega }

/-- If the buffer has to grow, some doubling of its capacity that holds `len` more
bytes is a `size_t`. -/
def Representable (b : Buffer) (len : Nat) : Prop :=
  b.writableBytes < len → b.readPos + b.writableBytes < len →
    ∃ k, b.writePos + len ≤ b.buf.length * 2 ^ (k + 1) ∧ b.buf.length * 2 ^ (k + 1) < 2 ^ 64

/-- The loop does not double beyond a capacity that suffices. -/
theorem growCapacity_le
    {writePos len fuel newCap k : Nat} (hk : writePos + len ≤ newCap * 2 ^ k) :
    growCapacity writePos len fuel newCap ≤ newCap * 2 ^ k := by
  induction fuel generalizing newCap k with
  | zero =>
      exact Nat.le_mul_of_pos_right _ (by positivity)
  | succ fuel ih =>
      rw [growCapacity]
      split
      · next hless =>
          cases k with
          | zero =>
              rw [pow_zero, Nat.mul_one] at hk
              omega
          | succ k =>
              have hdouble : newCap * 2 ^ (k + 1) = newCap * 2 * 2 ^ k := by
                ring
              rw [hdouble] at hk ⊢
              exact ih hk
      · exact Nat.le_mul_of_pos_right _ (by positivity)

/-- Without a wrap-around the loop ends, with the capacity `makeSpace` grows to. -/
theorem doublingLoop_eq
    {writePos len fuel newCap : Nat}
    (hcap : 0 < newCap) (hwrite : writePos ≤ newCap) (hfuel : len ≤ newCap - writePos + fuel)
    (hsize : growCapacity writePos len fuel newCap < 2 ^ 64) :
    doublingLoop writePos len (fuel + 1) newCap =
      some (growCapacity writePos len fuel newCap) := by
  have hle := le_growCapacity writePos len fuel newCap
  have hsub : (newCap + 2 ^ 64 - writePos) % 2 ^ 64 = newCap - writePos := by
    have hshift : newCap + 2 ^ 64 - writePos = newCap - writePos + 2 ^ 64 := by
      omega
    rw [hshift, Nat.add_mod_right, Nat.mod_eq_of_lt (by omega)]
  induction fuel generalizing newCap with
  | zero =>
      rw [doublingLoop, hsub, if_neg (by omega)]
      rfl
  | succ fuel ih =>
      rw [doublingLoop, hsub]
      rw [growCapacity] at hsize hle ⊢
      split
      · next hless =>
          rw [if_pos hless] at hsize hle
          have hdouble := le_growCapacity writePos len fuel (newCap * 2)
          rw [Nat.mod_eq_of_lt (by omega)]
          apply ih (by omega) (by omega) (by omega) hsize hdouble
          have hshift : newCap * 2 + 2 ^ 64 - writePos = newCap * 2 - writePos + 2 ^ 64 := by
            omega
          rw [hshift, Nat.add_mod_right, Nat.mod_eq_of_lt (by omega)]
      · rfl

/-- In `size_t` arithmetic `makeSpace` ends and does what the model says. -/
theorem makeSpaceWithin_eq
    {b : Buffer} {len : Nat} (hlen : b.Representable len) :
    ∃ fuel, makeSpaceWithin fuel b len = some (b.makeSpace len) := by
  refine ⟨len + 1, ?_⟩
  rw [makeSpaceWithin]
  split
  · rfl
  · next hgrow =>
      have hfull : b.writableBytes < len := by
        omega
      have hcompact : b.readPos + b.writableBytes < len := by
        omega
      obtain ⟨k, hk, hsize⟩ := hlen hfull hcompact
      have hws := b.write_le_size
      have hpos := b.size_pos
      have hdouble : b.buf.length * 2 ^ (k + 1) = b.buf.length * 2 * 2 ^ k := by
        ring
      have hle : growCapacity b.writePos len len (b.buf.length * 2) ≤
          b.buf.length * 2 * 2 ^ k :=
        growCapacity_le (hdouble ▸ hk)
      have hfirst := le_growCapacity b.writePos len len (b.buf.length * 2)
      rw [Nat.mod_eq_of_lt (by omega),
        doublingLoop_eq (by omega) (by omega) (by omega) (by omega)]
      rw [makeSpace, if_neg (by omega), if_neg (by omega)]
      rfl

end SizeArithmetic

/-- A buffer refines a queue of bytes over every sequence of calls, and `makeSpace`
ends, provides the space and keeps the readable bytes. -/
theorem buffer_refines_queue :
    (∀ (calls : List Call) (s : Session),
      Runs.run call { buffer := Buffer.new, retrieved := [] } calls = .ok s →
        s.buffer.readPos ≤ s.buffer.writePos ∧
          s.buffer.writePos ≤ s.buffer.buf.length ∧
            s.queue = calls.foldl queueCall { bytes := [], retrieved := [] }) ∧
    ∀ (b : Buffer) (len : Nat), b.Representable len →
      (∃ fuel, makeSpaceWithin fuel b len = some (b.makeSpace len)) ∧
        len ≤ (b.makeSpace len).writableBytes ∧
          (b.makeSpace len).readable = b.readable := by
  constructor
  · intro calls s hrun
    have hqueue : s.queue = calls.foldl queueCall { bytes := [], retrieved := [] } := by
      refine Runs.run_simulates (R := fun s q => s.queue = q) ?_ ?_ hrun
      · rintro s q c s' rfl hok
        exact queue_call hok
      · rw [Session.queue, readable_new]
    exact ⟨s.buffer.read_le_write, s.buffer.write_le_size, hqueue⟩
  · intro b len hlen
    exact ⟨makeSpaceWithin_eq hlen, b.le_writableBytes_makeSpace len, b.readable_makeSpace len⟩

end Buffer
end ChatRoom
