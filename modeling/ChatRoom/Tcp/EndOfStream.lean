import ChatRoom.Tcp.PacketStream

/-!
# The end of a stream of packets

`Connection::onRead` receives until the socket has nothing more to say and decodes
then; when the peer has closed its end it closes the connection without decoding.
So the packets that are handed over are those of the events before the one that
ends the connection.  That is the event in which the peer closes, or the first one
whose bytes no longer fit the read buffer.
-/

namespace ChatRoom
namespace Tcp

open Incremental Socket

variable {ε : Type}

/-- The events whose bytes fit a read buffer with `room` free bytes. -/
def fitting : Nat → List Input → List Input
  | _, [] => []
  | room, s :: events =>
      if s.pending.length ≤ room then
        s :: fitting (room - s.pending.length) events
      else
        []

/-- The bytes of a stream that the connection gets to decode. -/
def decodedBytes (stream : EndedStream) : Bytes :=
  (fitting Buffer.INITIAL_SIZE stream.events).flatMap Input.pending

/-- The run ends with the connection being closed, and all packets of the stream have been
handed over by then. -/
def HandsOverAll (cb : Callbacks ε) (c : ConnId) (w : World ε) (stream : EndedStream) : Prop :=
  ∃ w', readEvents cb c w (stream.events ++ [stream.last]) = .ok w' ∧
    ClosedWith cb c (delivered w c) (packetDecoder.drain stream.bytes).items w'

section EndOfStream

variable {cb : Callbacks ε} {c : ConnId} {base : List Packet}

/-- A run that goes on. -/
theorem readEvents_append
    {w w' : World ε} {events : List Input} (h : readEvents cb c w events = .ok w')
    (more : List Input) :
    readEvents cb c w (events ++ more) = readEvents cb c w' more := by
  induction events generalizing w with
  | nil =>
      cases h
      rfl
  | cons s events ih =>
      rw [readEvents] at h
      rw [List.cons_append, readEvents]
      split at h
      · next hreg =>
          rw [if_pos hreg]
          cases hread : onRead cb w c s with
          | error e =>
              rw [hread] at h
              cases h
          | ok w₁ =>
              rw [hread] at h
              exact ih h
      · next hreg =>
          rw [if_neg hreg]
          exact ih h

/-- The packets handed over do not change when the connection is closed. -/
theorem ClosedWith.delivered_eq
    (hcb : LeavesOpen cb c) {items : List Packet} {w : World ε}
    (h : ClosedWith cb c base items w) :
    delivered w c = base ++ items := by
  obtain ⟨w₁, rfl, hopen, hhanded⟩ := h
  have hsame := (hcb.onClose ((w₁.removeFd (w₁.conns c).fd).note (.closed c))).delivered
  rw [close, if_neg hopen, ← hhanded]
  calc delivered (((cb.onClose _ c).setConn c _).closeFd _) c
      = delivered (cb.onClose ((w₁.removeFd (w₁.conns c).fd).note (.closed c)) c) c := rfl
    _ = delivered w₁ c := by
        rw [hsame]
        simp [delivered, World.note, World.removeFd]

/-- A run of readable events of a peer that is there: what fits the buffer is decoded.
Either the connection goes on reading and everything has fitted, or it has closed
itself. -/
theorem readEvents_spec
    (hcb : LeavesOpen cb c) {w : World ε} {seen : Bytes} {events : List Input}
    (h : Reading c base seen w) (hidle : ∀ s ∈ events, s.idle = .again)
    (hseen : (packetDecoder.drain seen).failed = false) (heard : Bytes)
    (hheard : seen ++ (fitting (Buffer.INITIAL_SIZE - seen.length) events).flatMap
      Input.pending = heard) :
    ∃ w', readEvents cb c w events = .ok w' ∧
      (ClosedWith cb c base (packetDecoder.drain heard).items w' ∨ Reading c base heard w') := by
  induction events generalizing w seen with
  | nil =>
      rw [fitting, List.flatMap_nil, List.append_nil] at hheard
      subst hheard
      exact ⟨w, rfl, .inr h⟩
  | cons s events ih =>
      have hidle' : ∀ t ∈ events, t.idle = .again :=
        fun t ht => hidle t (List.mem_cons_of_mem s ht)
      have hlen := h.length_le
      rw [readEvents, if_pos h.registered]
      by_cases hfits : s.pending.length ≤ Buffer.INITIAL_SIZE - seen.length
      · have hroom : (seen ++ s.pending).length ≤ Buffer.INITIAL_SIZE := by
          rw [List.length_append]
          omega
        have hleft : Buffer.INITIAL_SIZE - seen.length - s.pending.length =
            Buffer.INITIAL_SIZE - (seen ++ s.pending).length := by
          rw [List.length_append]
          omega
        rw [fitting, if_pos hfits, List.flatMap_cons, ← List.append_assoc, hleft] at hheard
        obtain ⟨w₁, hread, hnext⟩ := onRead_fits hcb h (hidle s (by simp)) hseen hroom
        rw [hread]
        cases hfailed : (packetDecoder.drain (seen ++ s.pending)).failed with
        | true =>
            rw [if_pos hfailed] at hnext
            refine ⟨w₁, readEvents_ended (hnext.ended hcb) events, .inl ?_⟩
            rw [← hheard, Decoder.drain_append, Decoder.extend, if_pos hfailed]
            exact hnext
        | false =>
            rw [if_neg (by simp [hfailed])] at hnext
            exact ih hnext hidle' hfailed hheard
      · rw [fitting, if_neg hfits, List.flatMap_nil, List.append_nil] at hheard
        subst hheard
        have hover : Buffer.INITIAL_SIZE < (seen ++ s.pending).length := by
          rw [List.length_append]
          omega
        obtain ⟨w₁, hread, hclosed⟩ := onRead_overflows cb h hover
        rw [hread]
        exact ⟨w₁, readEvents_ended (hclosed.ended hcb) events, .inl hclosed⟩

/-- The connection is closed when it has handed over the packets of the bytes it got to
decode. -/
theorem readEvents_ends
    (hcb : LeavesOpen cb c) {w : World ε} (hw : Started w c) (stream : EndedStream) :
    ∃ w', readEvents cb c w (stream.events ++ [stream.last]) = .ok w' ∧
      ClosedWith cb c (delivered w c) (packetDecoder.drain (decodedBytes stream)).items w' := by
  obtain ⟨w₁, hrun, hw₁⟩ :=
    readEvents_spec hcb hw.reading stream.alive (by rw [Decoder.drain_wait _ rfl])
      (decodedBytes stream) rfl
  rw [readEvents_append hrun]
  rcases hw₁ with hclosed | hreading
  · exact ⟨w₁, readEvents_ended (hclosed.ended hcb) _, hclosed⟩
  · obtain ⟨w', hread, hclosed⟩ := onRead_hangup cb hreading
      (recvLoop_hangup w₁.now (w₁.conns c) stream.hangup (Nat.lt_succ_self _))
    refine ⟨w', ?_, hclosed⟩
    rw [readEvents, if_pos hreading.registered, hread]
    rfl

/-- All packets are handed over iff the bytes that are not decoded complete none. -/
theorem handsOverAll_iff
    (hcb : LeavesOpen cb c) {w : World ε} (hw : Started w c) (stream : EndedStream) :
    HandsOverAll cb c w stream ↔
      (packetDecoder.drain (decodedBytes stream)).items =
        (packetDecoder.drain stream.bytes).items := by
  obtain ⟨w', hrun, hclosed⟩ := readEvents_ends hcb hw stream
  constructor
  · rintro ⟨w'', hrun', hall⟩
    rw [hrun, Except.ok.injEq] at hrun'
    subst hrun'
    have heq := (hclosed.delivered_eq hcb).symm.trans (hall.delivered_eq hcb)
    exact List.append_cancel_left heq
  · intro heq
    exact ⟨w', hrun, heq ▸ hclosed⟩

end EndOfStream

end Tcp
end ChatRoom
