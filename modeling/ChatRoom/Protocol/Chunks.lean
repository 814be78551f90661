import ChatRoom.Common.Buffer
import ChatRoom.Protocol.Packet

/-!
# Packets out of a buffer that is filled in chunks

The reader of tests/unit/test_buffer.cpp and of `Connection::onRead`: bytes are
appended to a `Buffer`, and `decode` and `consume` are repeated until `decode`
does not find a packet.  A reader stands for a drained stream
(`Reader.drained`), and a chunk extends that stream (`drained_feed`).  So what a
reader has decoded, whether it has failed and what it has not read depend on the
bytes only, and not on where they were cut.
-/

namespace ChatRoom

open Incremental

/-- A buffer, the packets decoded from it so far, and whether `decode` has reported
a protocol error. -/
structure Reader where
  buffer : Buffer
  packets : List Packet
  failed : Bool

namespace Reader

/-- A reader with a fresh buffer. -/
def new : Reader where
  buffer := Buffer.new
  packets := []
  failed := false

/-- `decode(peek(), readableBytes())` and `consume`, repeated until `decode` is not
ok.  Each turn but the last one consumes bytes, so `fuel` above the number of
readable bytes does not run out. -/
def decodeAll : Nat → Reader → Reader
  | 0, s => s
  | fuel + 1, s =>
      let r := decode s.buffer.readable
      if r.ok then
        decodeAll fuel
          { s with
            buffer := s.buffer.consume r.consumed.toNat
            packets := s.packets ++ [r.packet] }
      else
        { s with failed := r.consumed = 0 }

/-- A chunk arrives; after a protocol error nothing is decoded any more. -/
def feed (s : Reader) (chunk : Bytes) : Reader :=
  let s := { s with buffer := s.buffer.append chunk }
  if s.failed then s else decodeAll (s.buffer.readableBytes + 1) s

/-- The drained stream a reader stands for. -/
def drained (s : Reader) : Drained UInt8 Packet where
  items := s.packets
  unread := s.buffer.readable
  failed := s.failed

/-- The loop drains what is readable. -/
theorem drained_decodeAll
    {fuel : Nat} (s : Reader)
    (hfuel : s.buffer.readableBytes < fuel) :
    (decodeAll fuel s).drained =
      { packetDecoder.drain s.buffer.readable with
        items := s.packets ++ (packetDecoder.drain s.buffer.readable).items } := by
  induction fuel generalizing s with
  | zero =>
      omega
  | succ fuel ih =>
      rw [decodeAll]
      cases hdec : packetDecoder.decode s.buffer.readable with
      | done n pkt =>
          obtain ⟨hok, hn, hpkt⟩ := verdict_eq_done hdec
          have hbounds := packetDecoder.done_bounds hdec
          rw [Buffer.length_readable] at hbounds
          have hread : (s.buffer.consume n).readable = s.buffer.readable.drop n :=
            s.buffer.readable_consume n
          have hless : (s.buffer.consume n).readableBytes < fuel := by
            rw [← Buffer.length_readable, hread, List.length_drop, Buffer.length_readable]
            omega
          rw [Decoder.drain_done hdec]
          simp only [hok, if_true, hn, hpkt]
          rw [ih _ hless, hread, List.append_assoc]
          rfl
      | wait =>
          obtain ⟨hno, hne⟩ := verdict_eq_wait hdec
          rw [Decoder.drain_wait _ hdec]
          simp [hno, hne, drained]
      | malformed =>
          obtain ⟨hno, hzero⟩ := verdict_eq_malformed hdec
          rw [Decoder.drain_malformed hdec]
          simp [hno, hzero, drained]

/-- A chunk extends the stream. -/
theorem drained_feed
    (s : Reader) (chunk : Bytes) :
    (s.feed chunk).drained = packetDecoder.extend s.drained chunk := by
  have hread : (s.buffer.append chunk).readable = s.buffer.readable ++ chunk :=
    s.buffer.readable_append chunk
  rw [feed]
  cases hfailed : s.failed with
  | true =>
      simp [drained, Decoder.extend, hfailed, hread]
  | false =>
      have hloop := drained_decodeAll { s with buffer := s.buffer.append chunk }
        (Nat.lt_succ_self _)
      simp only [Bool.false_eq_true, if_false]
      rw [← hfailed, hloop, hread, Decoder.extend]
      simp [drained, hfailed]

theorem drained_new :
    new.drained = packetDecoder.drain [] := by
  rw [Decoder.drain_wait (d := packetDecoder) [] rfl, drained, new]
  simp

/-- Chunk by chunk, a reader drains what the chunks make up together. -/
theorem drained_foldl_feed
    (chunks : List Bytes) :
    (chunks.foldl feed new).drained = packetDecoder.drain chunks.flatten := by
  calc (chunks.foldl feed new).drained
      = chunks.foldl packetDecoder.extend new.drained :=
        (List.foldl_hom drained fun s chunk => (drained_feed s chunk).symm).symm
    _ = chunks.foldl packetDecoder.extend (packetDecoder.drain []) := by rw [drained_new]
    _ = packetDecoder.drain chunks.flatten := Decoder.foldl_extend [] chunks

end Reader

/-- A reader that gets the bytes in chunks ends as one that gets them at once. -/
theorem foldl_feed_flatten
    (chunks : List Bytes) :
    let s := chunks.foldl Reader.feed Reader.new
    let t := Reader.new.feed chunks.flatten
    s.packets = t.packets ∧ s.failed = t.failed ∧ s.buffer.readable = t.buffer.readable := by
  have hs := Reader.drained_foldl_feed chunks
  have ht := Reader.drained_foldl_feed [chunks.flatten]
  rw [List.flatten_singleton, ← hs] at ht
  simp only [List.foldl_cons, List.foldl_nil, Reader.drained, Drained.mk.injEq] at ht
  obtain ⟨hpackets, hunread, hfailed⟩ := ht
  exact ⟨hpackets.symm, hfailed.symm, hunread.symm⟩

end ChatRoom
