import ChatRoom.Tcp.Connection

/-!
# Packets out of a stream of reads

A connection receives the encodings of a list of packets, cut into `recv`
results in any way and spread over any number of `onRead` events.  As long as
the stream fits the read buffer once, every packet is handed to `onPacket_`
exactly once and in order: the decode loop is the drain of `packetDecoder`, and
what the reads leave behind is what draining the stream so far leaves.

`recv` writes at `writeBegin`, `consume` moves the read position only, and
nothing calls `makeSpace` for the read buffer.  So the write position is the
number of bytes ever received, and byte number `1025` finds no room: `recv` is
asked for `0` bytes and its answer is taken for the end of the stream.
-/

namespace ChatRoom
namespace Tcp

open Incremental Socket

variable {ε : Type}

/-- The packets handed to `onPacket_` of a connection so far. -/
def delivered (w : World ε) (c : ConnId) : List Packet :=
  w.trace.filterMap fun
    | .packet c' pkt => if c' = c then some pkt else none
    | _ => none

/-- The reactor has the callbacks of this connection. -/
def Registered (w : World ε) (c : ConnId) : Prop :=
  w.reactor.contexts (w.conns c).fd = some c

instance (w : World ε) (c : ConnId) : Decidable (Registered w c) :=
  inferInstanceAs (Decidable (_ = _))

/-- The reactor reports readable events, one after the other; `onRead` runs as
long as the descriptor is registered. -/
def readEvents (cb : Callbacks ε) (c : ConnId) : World ε → List Input → Except Exn (World ε)
  | w, [] => .ok w
  | w, s :: events =>
      if Registered w c then
        (onRead cb w c s).bind fun w => readEvents cb c w events
      else
        readEvents cb c w events

/-- Two worlds agree on what the read side of a connection consists of. -/
structure SameInput (c : ConnId) (w w' : World ε) : Prop where
  fd : (w'.conns c).fd = (w.conns c).fd
  readBuf : (w'.conns c).readBuf = (w.conns c).readBuf
  state : (w'.conns c).state = .CLOSED ↔ (w.conns c).state = .CLOSED
  registered : w'.reactor.contexts (w.conns c).fd = w.reactor.contexts (w.conns c).fd
  delivered : delivered w' c = delivered w c

/-- Callbacks that do not close the connection, do not throw, and leave alone
what is private to it. -/
structure LeavesOpen (cb : Callbacks ε) (c : ConnId) : Prop where
  onPacket : ∀ w pkt, ∃ w', cb.onPacket w c pkt = .ok w' ∧ SameInput c w w'
  onClose : ∀ w, SameInput c w (cb.onClose w c)

/-- A connection as `start` leaves it. -/
structure Started (w : World ε) (c : ConnId) : Prop where
  readBuf : (w.conns c).readBuf = Buffer.new
  opened : (w.conns c).state ≠ .CLOSED
  registered : Registered w c

section RecvLoop

variable (now : Int) {s : Input} (conn : Connection) {fuel : Nat}

theorem writableBytes_received
    {bs : Bytes} (fits : bs.length ≤ conn.readBuf.writableBytes) :
    (conn.received now bs fits).readBuf.writableBytes =
      conn.readBuf.writableBytes - bs.length := by
  have hbuf := Buffer.length_buf_write conn.readBuf bs fits
  simp only [Connection.received, Buffer.writableBytes, hbuf, Buffer.writePos_write]
  omega

/-- What fits the free space of the read buffer is appended to it. -/
theorem recvLoop_fits
    (hidle : s.idle = .again) (hfuel : s.pending.length < fuel)
    (hfits : s.pending.length ≤ conn.readBuf.writableBytes) :
    (recvLoop now fuel conn s).2 = .drained ∧
      (recvLoop now fuel conn s).1.readBuf.readable = conn.readBuf.readable ++ s.pending ∧
        (recvLoop now fuel conn s).1.readBuf.writePos =
            conn.readBuf.writePos + s.pending.length ∧
          (recvLoop now fuel conn s).1.readBuf.buf.length = conn.readBuf.buf.length := by
  induction fuel generalizing s conn with
  | zero =>
      omega
  | succ fuel ih =>
      rw [recvLoop]
      by_cases hp : s.pending.length = 0
      · rw [Input.recv_again _ hp hidle]
        simp [List.length_eq_zero_iff.mp hp]
      · obtain ⟨bs, pos, fits, s', hrecv, hsplit, hidle'⟩ :=
          Input.recv_data (s := s) (k := conn.readBuf.writableBytes) (by omega) (by omega)
        have hlen := congrArg List.length hsplit
        rw [List.length_append] at hlen
        have hroom := writableBytes_received now conn fits
        obtain ⟨hend, hread, hwrite, hsize⟩ :=
          ih (conn.received now bs fits) (hidle'.trans hidle) (by omega) (by omega)
        rw [hrecv]
        refine ⟨hend, ?_, ?_, ?_⟩
        · rw [hread, hsplit]
          simp [Connection.received]
        · rw [hwrite, hlen]
          simp only [Connection.received, Buffer.writePos_write]
          omega
        · rw [hsize]
          exact Buffer.length_buf_write conn.readBuf bs fits

/-- What does not fit makes the loop end as if the peer had closed. -/
theorem recvLoop_overflows
    (hfuel : s.pending.length < fuel)
    (hover : conn.readBuf.writableBytes < s.pending.length) :
    (recvLoop now fuel conn s).2 = .hangup := by
  induction fuel generalizing s conn with
  | zero =>
      omega
  | succ fuel ih =>
      rw [recvLoop]
      by_cases hk : conn.readBuf.writableBytes = 0
      · rw [Input.recv_full (by omega) hk]
      · obtain ⟨bs, pos, fits, s', hrecv, hsplit, -⟩ :=
          Input.recv_data (s := s) (k := conn.readBuf.writableBytes) (by omega) (by omega)
        have hlen := congrArg List.length hsplit
        rw [List.length_append] at hlen
        have hroom := writableBytes_received now conn fits
        rw [hrecv]
        exact ih _ (by omega) (by omega)

/-- A peer that is gone makes the loop end as such, whatever it has sent. -/
theorem recvLoop_hangup
    (hidle : s.idle ≠ .again) (hfuel : s.pending.length < fuel) :
    (recvLoop now fuel conn s).2 = .hangup := by
  induction fuel generalizing s conn with
  | zero =>
      omega
  | succ fuel ih =>
      rw [recvLoop]
      by_cases hp : s.pending.length = 0
      · rcases Input.recv_idle conn.readBuf.writableBytes hp hidle with h | h
        · rw [h]
        · rw [h]
      · by_cases hk : conn.readBuf.writableBytes = 0
        · rw [Input.recv_full (by omega) hk]
        · obtain ⟨bs, pos, fits, s', hrecv, hsplit, hidle'⟩ :=
            Input.recv_data (s := s) (k := conn.readBuf.writableBytes) (by omega) (by omega)
          have hlen := congrArg List.length hsplit
          rw [List.length_append] at hlen
          rw [hrecv]
          exact ih _ (hidle' ▸ hidle) (by omega)

/-- The loop ends without a hangup only if the peer is there and all it has sent fits. -/
theorem recvLoop_drained
    (hfuel : s.pending.length < fuel) (h : (recvLoop now fuel conn s).2 = .drained) :
    s.idle = .again ∧ s.pending.length ≤ conn.readBuf.writableBytes := by
  constructor
  · by_contra hgone
    rw [recvLoop_hangup now conn hgone hfuel] at h
    cases h
  · by_contra hover
    rw [recvLoop_overflows now conn hfuel (Nat.not_le.mp hover)] at h
    cases h

end RecvLoop

section DecodeLoop

variable {cb : Callbacks ε} {c : ConnId}

@[simp] theorem delivered_setConn
    (w : World ε) (c c' : ConnId) (conn : Connection) :
    delivered (w.setConn c' conn) c = delivered w c := by
  rfl

@[simp] theorem delivered_note_packet
    (w : World ε) (c : ConnId) (pkt : Packet) :
    delivered (w.note (.packet c pkt)) c = delivered w c ++ [pkt] := by
  simp [delivered, World.note]

/-- What the decode loop does before it ends or closes the connection: it hands over what
the readable bytes drain to, and leaves the rest. -/
structure Decodes (c : ConnId) (w w' : World ε) : Prop where
  delivered : delivered w' c =
    Tcp.delivered w c ++ (packetDecoder.drain (w.conns c).readBuf.readable).items
  unread : (w'.conns c).readBuf.readable =
    (packetDecoder.drain (w.conns c).readBuf.readable).unread
  position : (w'.conns c).readBuf.writePos = (w.conns c).readBuf.writePos
  capacity : (w'.conns c).readBuf.buf.length = (w.conns c).readBuf.buf.length
  state : (w'.conns c).state = .CLOSED ↔ (w.conns c).state = .CLOSED
  registered : Registered w' c ↔ Registered w c

/-- The decode loop hands over what the readable bytes drain to, and closes the connection
if the rest cannot be decoded. -/
theorem decodeLoop_drains
    (hcb : LeavesOpen cb c) (w : World ε) (fuel : Nat)
    (hfuel : (w.conns c).readBuf.readableBytes ≤ fuel) :
    ∃ w', Decodes c w w' ∧
      decodeLoop cb c fuel w =
        .ok (if (packetDecoder.drain (w.conns c).readBuf.readable).failed then
          close cb.onClose w' c
        else
          w') := by
  induction fuel generalizing w with
  | zero =>
      have hdec := decode_wait_of_no_fuel hfuel
      refine ⟨w, ?_, ?_⟩
      · constructor <;> simp [Decoder.drain_wait _ hdec]
      · rw [Decoder.drain_wait _ hdec]
        rfl
  | succ fuel ih =>
      cases hdec : packetDecoder.decode (w.conns c).readBuf.readable with
      | wait =>
          refine ⟨w, ?_, ?_⟩
          · constructor <;> simp [Decoder.drain_wait _ hdec]
          · rw [Decoder.drain_wait _ hdec, decodeLoop_wait hdec]
            rfl
      | malformed =>
          refine ⟨w, ?_, ?_⟩
          · constructor <;> simp [Decoder.drain_malformed hdec]
          · rw [Decoder.drain_malformed hdec, decodeLoop_malformed hdec]
            rfl
      | done n pkt =>
          have hbounds := packetDecoder.done_bounds hdec
          have hlen := (w.conns c).readBuf.length_readable
          obtain ⟨w₁, hcall, hsame⟩ := hcb.onPacket ((consume w c n).note (.packet c pkt)) pkt
          have hbuf : (w₁.conns c).readBuf = (w.conns c).readBuf.consume n := by
            rw [hsame.readBuf]
            simp [World.note, consume, World.setConn]
          have hread : (w₁.conns c).readBuf.readable = (w.conns c).readBuf.readable.drop n := by
            rw [hbuf, Buffer.readable_consume]
          have hless : (w₁.conns c).readBuf.readableBytes ≤ fuel := by
            rw [← Buffer.length_readable, hread, List.length_drop]
            omega
          obtain ⟨w', hdecodes, hloop⟩ := ih _ hless
          refine ⟨w', ?_, ?_⟩
          case refine_2 =>
            rw [decodeLoop_done hdec, handlePacket, hcall, Decoder.drain_done hdec, ← hread]
            exact hloop
          constructor
          case delivered =>
            rw [hdecodes.delivered, hsame.delivered, hread, Decoder.drain_done hdec]
            simp [consume]
          case unread =>
            rw [hdecodes.unread, hread, Decoder.drain_done hdec]
          case position =>
            rw [hdecodes.position, hbuf, Buffer.writePos_consume]
          case capacity =>
            rw [hdecodes.capacity, hbuf]
            rfl
          case state =>
            rw [hdecodes.state, hsame.state]
            simp [World.note, consume, World.setConn]
          case registered =>
            have hfd : (w₁.conns c).fd = (w.conns c).fd := by
              rw [hsame.fd]
              simp [World.note, consume, World.setConn]
            have hctx := hsame.registered
            simp only [World.note, consume, World.setConn, Function.update_self] at hctx
            rw [hdecodes.registered, Registered, Registered, hfd, hctx]

end DecodeLoop

section ReadEvents

variable {cb : Callbacks ε} {c : ConnId} {base : List Packet}

/-- The connection is open, has received `seen` since it was started, and has
handed over what `seen` drains to. -/
structure Reading (c : ConnId) (base : List Packet) (seen : Bytes) (w : World ε) : Prop where
  opened : (w.conns c).state ≠ .CLOSED
  registered : Registered w c
  capacity : (w.conns c).readBuf.buf.length = Buffer.INITIAL_SIZE
  position : (w.conns c).readBuf.writePos = seen.length
  unread : (w.conns c).readBuf.readable = (packetDecoder.drain seen).unread
  handed : delivered w c = base ++ (packetDecoder.drain seen).items

/-- The connection has closed itself. -/
structure Ended (c : ConnId) (w : World ε) : Prop where
  closed : (w.conns c).state = .CLOSED
  unregistered : ¬ Registered w c

theorem Started.reading
    {w : World ε} (h : Started w c) :
    Reading c (delivered w c) [] w where
  opened := h.opened
  registered := h.registered
  capacity := by
    rw [h.readBuf, Buffer.length_buf_new]
  position := by
    rw [h.readBuf]
    rfl
  unread := by
    rw [h.readBuf, Buffer.readable_new, Decoder.drain_wait _ rfl]
  handed := by
    rw [Decoder.drain_wait _ rfl, List.append_nil]

theorem Reading.length_le
    {w : World ε} {seen : Bytes} (h : Reading c base seen w) :
    seen.length ≤ Buffer.INITIAL_SIZE := by
  rw [← h.position, ← h.capacity]
  exact (w.conns c).readBuf.write_le_size

/-- `close` marks the connection and takes its descriptor out of the reactor. -/
theorem close_ended
    (hcb : LeavesOpen cb c) {w : World ε} (hopen : (w.conns c).state ≠ .CLOSED) :
    Ended c (close cb.onClose w c) := by
  have hsame := hcb.onClose ((w.removeFd (w.conns c).fd).note (.closed c))
  have hfd := hsame.fd
  have hctx := hsame.registered
  simp only [World.note, World.removeFd, Reactor.contexts_removeFd,
    Function.update_self] at hfd hctx
  rw [close, if_neg hopen]
  constructor
  · simp [World.closeFd, World.setConn]
  · simp only [Registered, World.closeFd, World.setConn, World.note, World.removeFd,
      Function.update_self, Reactor.contexts_descriptorClosed, hfd]
    rw [hctx]
    simp

/-- A connection that was reading has closed itself when it had handed over these
packets. -/
def ClosedWith (cb : Callbacks ε) (c : ConnId) (base items : List Packet) (w' : World ε) : Prop :=
  ∃ w₁, w' = close cb.onClose w₁ c ∧ (w₁.conns c).state ≠ .CLOSED ∧
    delivered w₁ c = base ++ items

theorem ClosedWith.ended
    (hcb : LeavesOpen cb c) {items : List Packet} {w : World ε}
    (h : ClosedWith cb c base items w) :
    Ended c w := by
  obtain ⟨w₁, rfl, hopen, -⟩ := h
  exact close_ended hcb hopen

/-- Bytes that still fit the buffer are decoded, and the connection goes on reading unless
they cannot be. -/
theorem onRead_fits
    (hcb : LeavesOpen cb c) {w : World ε} {seen : Bytes} {s : Input}
    (h : Reading c base seen w) (hidle : s.idle = .again)
    (hseen : (packetDecoder.drain seen).failed = false)
    (hfits : (seen ++ s.pending).length ≤ Buffer.INITIAL_SIZE) :
    ∃ w', onRead cb w c s = .ok w' ∧
      if (packetDecoder.drain (seen ++ s.pending)).failed then
        ClosedWith cb c base (packetDecoder.drain (seen ++ s.pending)).items w'
      else
        Reading c base (seen ++ s.pending) w' := by
  rw [List.length_append] at hfits
  have hroom : s.pending.length ≤ (w.conns c).readBuf.writableBytes := by
    rw [Buffer.writableBytes, h.capacity, h.position]
    omega
  obtain ⟨hend, hread, hwrite, hsize⟩ :=
    recvLoop_fits w.now (w.conns c) hidle (Nat.lt_succ_self _) hroom
  have hfd := recvLoop_fd w.now (s.pending.length + 1) (w.conns c) s
  have hopen := recvLoop_state w.now (s.pending.length + 1) (w.conns c) s
  cases hloop : recvLoop w.now (s.pending.length + 1) (w.conns c) s with
  | mk conn fin =>
      rw [hloop] at hend hread hwrite hsize hfd hopen
      dsimp only at hend hread hwrite hsize hfd hopen
      subst hend
      have hdrain := Decoder.drain_append (d := packetDecoder) seen s.pending
      rw [Decoder.extend, if_neg (by simp [hseen])] at hdrain
      have hself : ((w.setConn c conn).conns c) = conn := by
        simp [World.setConn]
      have hreadable : conn.readBuf.readable =
          (packetDecoder.drain seen).unread ++ s.pending := by
        rw [hread, h.unread]
      obtain ⟨w₁, hdec, hresult⟩ :=
        decodeLoop_drains hcb (w.setConn c conn) conn.readBuf.readableBytes (by rw [hself])
      have hfailed : (packetDecoder.drain ((w.setConn c conn).conns c).readBuf.readable).failed =
          (packetDecoder.drain (seen ++ s.pending)).failed := by
        rw [hself, hreadable, hdrain]
      have hstate : (w₁.conns c).state ≠ .CLOSED := by
        rw [ne_eq, hdec.state, hself, hopen]
        exact h.opened
      have hhanded : delivered w₁ c = base ++ (packetDecoder.drain (seen ++ s.pending)).items := by
        rw [hdec.delivered, delivered_setConn, h.handed, hself, hdrain, hreadable,
          List.append_assoc]
      rw [hfailed] at hresult
      refine ⟨_, by rw [onRead, hloop]; exact hresult, ?_⟩
      cases hfails : (packetDecoder.drain (seen ++ s.pending)).failed with
      | true =>
          exact ⟨w₁, rfl, hstate, hhanded⟩
      | false =>
          rw [if_neg (by simp), if_neg (by simp)]
          refine ⟨hstate, ?_, ?_, ?_, ?_, hhanded⟩
          · rw [hdec.registered, Registered, hself, hfd]
            exact h.registered
          · rw [hdec.capacity, hself, hsize, h.capacity]
          · rw [hdec.position, hself, hwrite, h.position, List.length_append]
          · rw [hdec.unread, hself, hdrain, hreadable]

/-- When the loop of `recv` calls ends as if the peer were gone, the connection closes
itself, and what was received last is not decoded. -/
theorem onRead_hangup
    (cb : Callbacks ε) {w : World ε} {seen : Bytes} {s : Input} (h : Reading c base seen w)
    (hend : (recvLoop w.now (s.pending.length + 1) (w.conns c) s).2 = .hangup) :
    ∃ w', onRead cb w c s = .ok w' ∧
      ClosedWith cb c base (packetDecoder.drain seen).items w' := by
  have hopen := recvLoop_state w.now (s.pending.length + 1) (w.conns c) s
  cases hloop : recvLoop w.now (s.pending.length + 1) (w.conns c) s with
  | mk conn fin =>
      rw [hloop] at hend hopen
      dsimp only at hend hopen
      subst hend
      refine ⟨_, by rw [onRead, hloop], w.setConn c conn, rfl, ?_, ?_⟩
      · simp only [World.setConn, Function.update_self]
        rw [hopen]
        exact h.opened
      · rw [delivered_setConn]
        exact h.handed

/-- Bytes beyond the capacity of the buffer end the connection. -/
theorem onRead_overflows
    (cb : Callbacks ε) {w : World ε} {seen : Bytes} {s : Input} (h : Reading c base seen w)
    (hover : Buffer.INITIAL_SIZE < (seen ++ s.pending).length) :
    ∃ w', onRead cb w c s = .ok w' ∧
      ClosedWith cb c base (packetDecoder.drain seen).items w' := by
  rw [List.length_append] at hover
  have hseen := h.length_le
  have hroom : (w.conns c).readBuf.writableBytes < s.pending.length := by
    rw [Buffer.writableBytes, h.capacity, h.position]
    omega
  exact onRead_hangup cb h (recvLoop_overflows w.now (w.conns c) (Nat.lt_succ_self _) hroom)

/-- A connection that has closed itself is not read again. -/
theorem readEvents_ended
    {w : World ε} (h : Ended c w) (events : List Input) :
    readEvents cb c w events = .ok w := by
  induction events with
  | nil =>
      rfl
  | cons s events ih =>
      rw [readEvents, if_neg h.unregistered, ih]

/-- A run of readable events, from what was seen so far: the connection goes on
reading exactly as long as everything fits the buffer. -/
theorem readEvents_reading
    (hcb : LeavesOpen cb c) {w : World ε} {seen : Bytes} {events : List Input}
    (h : Reading c base seen w) (hidle : ∀ s ∈ events, s.idle = .again)
    (hok : (packetDecoder.drain (seen ++ events.flatMap Input.pending)).failed = false) :
    ∃ w', readEvents cb c w events = .ok w' ∧
      if (seen ++ events.flatMap Input.pending).length ≤ Buffer.INITIAL_SIZE then
        Reading c base (seen ++ events.flatMap Input.pending) w'
      else
        Ended c w' := by
  induction events generalizing w seen with
  | nil =>
      refine ⟨w, rfl, ?_⟩
      rw [List.flatMap_nil, List.append_nil, if_pos h.length_le]
      exact h
  | cons s events ih =>
      rw [List.flatMap_cons, ← List.append_assoc] at hok ⊢
      have hidle' : ∀ s ∈ events, s.idle = .again :=
        fun t ht => hidle t (List.mem_cons_of_mem s ht)
      by_cases hfits : (seen ++ s.pending).length ≤ Buffer.INITIAL_SIZE
      · have hok₁ := Decoder.failed_of_append hok
        obtain ⟨w₁, hread, hreading⟩ :=
          onRead_fits hcb h (hidle s (by simp)) (Decoder.failed_of_append hok₁) hfits
        rw [if_neg (by simp [hok₁])] at hreading
        obtain ⟨w', hrest, hw'⟩ := ih hreading hidle' hok
        refine ⟨w', ?_, hw'⟩
        rw [readEvents, if_pos h.registered, hread]
        exact hrest
      · obtain ⟨w₁, hread, hclosed⟩ := onRead_overflows cb (s := s) h (by omega)
        have hended := hclosed.ended hcb
        refine ⟨w₁, ?_, ?_⟩
        · rw [readEvents, if_pos h.registered, hread]
          exact readEvents_ended hended events
        · rw [if_neg]
          · exact hended
          · rw [List.length_append]
            omega

end ReadEvents

section Delivery

variable {cb : Callbacks ε} {c : ConnId}

/-- A stream of encoded packets, however it is cut into reads, is handed over
packet by packet and leaves the connection open if and only if it fits the
initial capacity of the read buffer. -/
theorem readEvents_deliver_iff
    (hcb : LeavesOpen cb c) {w : World ε} (hw : Started w c)
    (ps : List Packet) (hps : ∀ p ∈ ps, p.body.length ≤ MAX_BODY_LENGTH - 1)
    (events : List Input) (hidle : ∀ s ∈ events, s.idle = .again)
    (hcut : events.flatMap Input.pending = ps.flatMap encode) :
    (∃ w', readEvents cb c w events = .ok w' ∧
        delivered w' c = delivered w c ++ ps ∧ (w'.conns c).state ≠ .CLOSED) ↔
      (ps.flatMap encode).length ≤ Buffer.INITIAL_SIZE := by
  have hlimit : ∀ p ∈ ps, p.body.length + TYPE_SIZE ≤ MAX_BODY_LENGTH := by
    intro p hp
    have := hps p hp
    simp only [MAX_BODY_LENGTH, TYPE_SIZE] at *
    omega
  have hdrain : packetDecoder.drain (ps.flatMap encode) =
      { items := ps, unread := [], failed := false } := by
    have h := Decoder.drain_flatMap ps (fun p hp => decode_encode (hlimit p hp)) []
    rw [Decoder.drain_wait (d := packetDecoder) [] rfl] at h
    simpa using h
  obtain ⟨w', hrun, hw'⟩ :=
    readEvents_reading hcb hw.reading hidle (by rw [List.nil_append, hcut, hdrain])
  rw [List.nil_append, hcut] at hw'
  constructor
  · rintro ⟨w'', hrun', -, hopen⟩
    by_contra hlong
    rw [if_neg hlong] at hw'
    rw [hrun, Except.ok.injEq] at hrun'
    exact hopen (hrun' ▸ hw'.closed)
  · intro hshort
    rw [if_pos hshort] at hw'
    refine ⟨w', hrun, ?_, hw'.opened⟩
    rw [hw'.handed, hdrain]

end Delivery

section Instances

/-- A callback that answers every packet with the packet. -/
def echo : Callbacks Unit where
  onPacket w c pkt := .ok (send w c pkt)
  onClose w _ := w

theorem sameInput_send
    (w : World ε) (c : ConnId) (pkt : Packet) :
    SameInput c w (send w c pkt) := by
  by_cases hw : (w.conns c).writing <;>
    constructor <;>
      simp [send, hw, World.setConn, World.note, World.modifyFd, delivered]

theorem echo_leavesOpen
    (c : ConnId) :
    LeavesOpen echo c where
  onPacket w pkt := ⟨send w c pkt, rfl, sameInput_send w c pkt⟩
  onClose _ := ⟨rfl, rfl, Iff.rfl, rfl, rfl⟩

/-- A connection on descriptor 5, started. -/
def oneConnection : World Unit :=
  { newConnection (World.init () 0) 5 with
    reactor := { (Reactor.new : Reactor ConnId) with
      contexts := Function.update (fun _ => none) 5 (some 0)
      interest := Function.update (fun _ => none) 5 (some EPOLLIN) } }

theorem oneConnection_started :
    Started oneConnection 0 where
  readBuf := rfl
  opened := by
    decide
  registered := by
    decide

/-- A packet of seven bytes in two reads, the first of them byte by byte. -/
theorem readEvents_deliver_short :
    ∃ w', readEvents echo 0 oneConnection
        [{ pending := [0, 0, 0], sizes := [1, 1, 1], idle := .again },
          { pending := [3, 7, 65, 66], sizes := [], idle := .again }] = .ok w' ∧
      delivered w' 0 = delivered oneConnection 0 ++ [{ type := 7, body := [65, 66] }] ∧
      (w'.conns 0).state ≠ .CLOSED :=
  (readEvents_deliver_iff (echo_leavesOpen 0) oneConnection_started
    [{ type := 7, body := [65, 66] }] (by decide) _ (by decide) (by decide)).mpr (by decide)

/-- A packet with a body of 1020 bytes: its encoding has 1025. -/
def longPacket : Packet where
  type := MessageType.MSG_CHAT.code
  body := List.replicate 1020 0x20

/-- The long packet is within the length limit, and is never handed over. -/
theorem long_packet_not_delivered :
    longPacket.body.length ≤ MAX_BODY_LENGTH - 1 ∧
      ¬ ∃ w', readEvents echo 0 oneConnection
          [{ pending := encode longPacket, sizes := [], idle := .again }] = .ok w' ∧
        delivered w' 0 = delivered oneConnection 0 ++ [longPacket] ∧
        (w'.conns 0).state ≠ .CLOSED := by
  have hlen : (encode longPacket).length = 1025 := by
    rw [encode, longPacket, List.length_append, BigEndian.length_toBigEndian,
      List.length_cons, List.length_replicate]
    rfl
  constructor
  · rw [longPacket, List.length_replicate]
    decide
  · rintro ⟨w', hrun, -, hopen⟩
    obtain ⟨w'', hread, hclosed⟩ :=
      onRead_overflows echo (s := { pending := encode longPacket, sizes := [], idle := .again })
        oneConnection_started.reading (by rw [List.nil_append, hlen]; decide)
    have hended := hclosed.ended (echo_leavesOpen 0)
    rw [readEvents, if_pos oneConnection_started.registered, hread] at hrun
    have hsame : w'' = w' := by
      simpa [readEvents, Except.bind] using hrun
    exact hopen (hsame ▸ hended.closed)

end Instances

end Tcp
end ChatRoom
