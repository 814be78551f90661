import Mathlib.Tactic

/-!
# The byte buffer

`Buffer` (common/buffer.h, common/buffer.cpp) is the read and write buffer of
every connection: a byte vector `buf` with a read and a write position.  The
bytes between the two positions are the readable ones; the space behind the
write position is what `writeBegin` and `writableBytes` hand to `recv`.

The order of the two positions and the capacity is carried by the structure, so
no operation below needs it as a hypothesis.  `hasWritten` moves the write
position without a check in the source; here its caller shows that the bytes
written fit, which is what the contract of `recv` gives.

`peek_eq` to `readable_write` say what each operation does to the readable
bytes, which is all that the connections rely on.
-/

namespace ChatRoom

/-- `Buffer`: a vector of bytes with a read and a write position. -/
structure Buffer where
  buf : List UInt8
  readPos : Nat
  writePos : Nat
  read_le_write : readPos ≤ writePos
  write_le_size : writePos ≤ buf.length
  size_pos : 0 < buf.length

namespace Buffer

/-- `Buffer::INITIAL_SIZE` -/
def INITIAL_SIZE : Nat := 1024

/-- `Buffer::Buffer` -/
def new : Buffer where
  buf := List.replicate INITIAL_SIZE 0
  readPos := 0
  writePos := 0
  read_le_write := Nat.le_refl 0
  write_le_size := Nat.zero_le _
  size_pos := by
    rw [List.length_replicate]
    decide

/-- `Buffer::peek`: memory from the read position on, not bounded by the write
position.  Behind the end of the vector the value is arbitrary. -/
def peek (b : Buffer) (i : Nat) : UInt8 :=
  b.buf.getD (b.readPos + i) 0

/-- `Buffer::readableBytes` -/
def readableBytes (b : Buffer) : Nat :=
  b.writePos - b.readPos

/-- `Buffer::writableBytes` -/
def writableBytes (b : Buffer) : Nat :=
  b.buf.length - b.writePos

/-- The bytes between the read and the write position. -/
def readable (b : Buffer) : List UInt8 :=
  (b.buf.take b.writePos).drop b.readPos

@[simp] theorem length_readable
    (b : Buffer) :
    b.readable.length = b.readableBytes := by
  have h := b.write_le_size
  simp [readable, readableBytes, Nat.min_eq_left h]

theorem readable_eq_nil_iff
    {b : Buffer} :
    b.readable = [] ↔ b.readableBytes = 0 := by
  rw [← length_readable, List.length_eq_zero_iff]

/-- Below the readable length, `peek` shows the readable bytes. -/
theorem peek_eq
    (b : Buffer) {i : Nat} (hi : i < b.readableBytes) :
    b.readable[i]? = some (b.peek i) := by
  have hw := b.write_le_size
  have hi' : b.readPos + i < b.writePos := by
    simp only [readableBytes] at hi
    omega
  have hsize : b.readPos + i < b.buf.length := by
    omega
  simp [readable, peek, List.getElem?_drop, hi', hsize]

/-- `Buffer::consume` -/
def consume (b : Buffer) (len : Nat) : Buffer :=
  { b with
    readPos := b.readPos + min len b.readableBytes
    read_le_write := by
      have h := b.read_le_write
      simp only [readableBytes]
      omega }

/-- `Buffer::clear` -/
def clear (b : Buffer) : Buffer :=
  { b with
    readPos := 0
    writePos := 0
    read_le_write := Nat.le_refl 0
    write_le_size := Nat.zero_le _ }

/-- `Buffer::retrieveAllAsString` -/
def retrieveAllAsString (b : Buffer) : List UInt8 × Buffer :=
  (b.readable, b.clear)

/-- Bytes stored at `writeBegin`, followed by `hasWritten` of their number. -/
def write (b : Buffer) (data : List UInt8) (_h : data.length ≤ b.writableBytes) : Buffer where
  buf := b.buf.take b.writePos ++ data ++ b.buf.drop (b.writePos + data.length)
  readPos := b.readPos
  writePos := b.writePos + data.length
  read_le_write := Nat.le_add_right_of_le b.read_le_write
  write_le_size := by
    have hw := b.write_le_size
    simp only [List.length_append, List.length_take, List.length_drop]
    omega
  size_pos := by
    have hs := b.size_pos
    simp only [List.length_append, List.length_take, List.length_drop]
    omega

/-- The doubling loop of `makeSpace`; `fuel` bounds the number of doublings. -/
def growCapacity (writePos len : Nat) : Nat → Nat → Nat
  | 0, newCap => newCap
  | fuel + 1, newCap =>
      if newCap - writePos < len then
        growCapacity writePos len fuel (newCap * 2)
      else
        newCap

theorem le_growCapacity
    (writePos len fuel newCap : Nat) :
    newCap ≤ growCapacity writePos len fuel newCap := by
  induction fuel generalizing newCap with
  | zero =>
      exact Nat.le_refl _
  | succ fuel ih =>
      rw [growCapacity]
      split
      · have h := ih (newCap * 2)
        omega
      · exact Nat.le_refl _

/-- With as much fuel as bytes are wanted, the doubling loop ends by itself. -/
theorem growCapacity_enough
    (writePos len fuel newCap : Nat)
    (hcap : 0 < newCap) (hwrite : writePos ≤ newCap) (hfuel : len ≤ newCap - writePos + fuel) :
    len ≤ growCapacity writePos len fuel newCap - writePos := by
  induction fuel generalizing newCap with
  | zero =>
      rw [growCapacity]
      omega
  | succ fuel ih =>
      rw [growCapacity]
      split
      · exact ih _ (by omega) (by omega) (by omega)
      · omega

/-- `Buffer::makeSpace` -/
def makeSpace (b : Buffer) (len : Nat) : Buffer :=
  if b.writableBytes ≥ len then
    b
  else if b.readPos + b.writableBytes ≥ len then
    -- memmove: only the first `readableBytes` bytes of the vector change
    { b with
      buf := b.readable ++ b.buf.drop b.readableBytes
      readPos := 0
      writePos := b.readableBytes
      read_le_write := Nat.zero_le _
      write_le_size := by
        simp
      size_pos := by
        have hs := b.size_pos
        simp only [List.length_append, length_readable, List.length_drop]
        omega }
  else
    let newCap := growCapacity b.writePos len len (b.buf.length * 2)
    { b with
      buf := b.buf ++ List.replicate (newCap - b.buf.length) 0
      write_le_size := by
        have hw := b.write_le_size
        simp only [List.length_append]
        omega
      size_pos := by
        have hs := b.size_pos
        simp only [List.length_append]
        omega }

/-- `makeSpace` provides the space it was asked for. -/
theorem le_writableBytes_makeSpace
    (b : Buffer) (len : Nat) :
    len ≤ (b.makeSpace len).writableBytes := by
  have hrw := b.read_le_write
  have hws := b.write_le_size
  have hs := b.size_pos
  unfold makeSpace
  split
  · assumption
  · split
    · simp only [writableBytes, readableBytes, List.length_append, length_readable,
        List.length_drop] at *
      omega
    · have hgrow :=
        growCapacity_enough b.writePos len len (b.buf.length * 2) (by omega) (by omega)
          (by omega)
      have hle := le_growCapacity b.writePos len len (b.buf.length * 2)
      simp only [writableBytes, List.length_append, List.length_replicate]
      omega

/-- `Buffer::append` -/
def append (b : Buffer) (data : List UInt8) : Buffer :=
  if data.length = 0 then
    b
  else
    (b.makeSpace data.length).write data (b.le_writableBytes_makeSpace data.length)

@[simp] theorem readable_new :
    new.readable = [] := by
  simp [readable, new]

@[simp] theorem length_buf_new :
    new.buf.length = INITIAL_SIZE := by
  exact List.length_replicate

@[simp] theorem readable_clear
    (b : Buffer) :
    b.clear.readable = [] := by
  simp [readable, clear]

@[simp] theorem readable_consume
    (b : Buffer) (len : Nat) :
    (b.consume len).readable = b.readable.drop len := by
  have hlen := b.length_readable
  by_cases h : len ≤ b.readableBytes
  · simp [readable, consume, Nat.min_eq_left h, List.drop_drop]
  · have hall : b.readable.drop len = [] := by
      rw [List.drop_eq_nil_iff]
      omega
    have hnone : (b.consume len).readable.length = 0 := by
      simp only [length_readable, consume, readableBytes] at *
      omega
    rw [hall, List.length_eq_zero_iff.mp hnone]

theorem readableBytes_consume
    (b : Buffer) (len : Nat) :
    (b.consume len).readableBytes = b.readableBytes - len := by
  rw [← length_readable, readable_consume, List.length_drop, length_readable]

@[simp] theorem readable_write
    (b : Buffer) (data : List UInt8) (h : data.length ≤ b.writableBytes) :
    (b.write data h).readable = b.readable ++ data := by
  have hws := b.write_le_size
  have hrw := b.read_le_write
  have hfront : (b.buf.take b.writePos).length = b.writePos := by
    simp [hws]
  simp only [readable, write]
  rw [List.append_assoc, List.take_append, hfront, List.take_of_length_le (by omega),
    Nat.add_sub_cancel_left, List.take_left, List.drop_append_of_le_length (by omega)]

@[simp] theorem readable_makeSpace
    (b : Buffer) (len : Nat) :
    (b.makeSpace len).readable = b.readable := by
  have hws := b.write_le_size
  unfold makeSpace
  split
  · rfl
  · split
    · have hlen := b.length_readable
      conv_lhs => rw [readable]
      simp only [List.drop_zero]
      rw [← hlen, List.take_left]
    · simp only [readable]
      rw [List.take_append_of_le_length hws]

@[simp] theorem readable_append
    (b : Buffer) (data : List UInt8) :
    (b.append data).readable = b.readable ++ data := by
  unfold append
  split
  · next h =>
      rw [List.length_eq_zero_iff.mp h, List.append_nil]
  · rw [readable_write, readable_makeSpace]

@[simp] theorem writePos_write
    (b : Buffer) (data : List UInt8) (h : data.length ≤ b.writableBytes) :
    (b.write data h).writePos = b.writePos + data.length := by
  rfl

@[simp] theorem writePos_consume
    (b : Buffer) (len : Nat) :
    (b.consume len).writePos = b.writePos := by
  rfl

/-- Storing bytes does not change the capacity. -/
theorem length_buf_write
    (b : Buffer) (data : List UInt8) (h : data.length ≤ b.writableBytes) :
    (b.write data h).buf.length = b.buf.length := by
  have hws := b.write_le_size
  simp only [writableBytes] at h
  simp only [write, List.length_append, List.length_take, List.length_drop]
  omega

end Buffer
end ChatRoom
