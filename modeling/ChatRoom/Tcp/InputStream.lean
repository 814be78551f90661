import ChatRoom.Tcp.OperationRule
import ChatRoom.Tcp.PacketStream

/-!
# What the server makes of the bytes of a peer

In a run of the whole server, with any number of connections whose packets close and
announce each other, each connection hands over the packets that its peer has sent: of
what has arrived on its socket a front of the packets, and while it is registered all of
them (`packets_of_arrived`).  A connection that is registered has received no more than
`INITIAL_SIZE` bytes since it was accepted, as its read buffer never gets room back.

What anything else does to the input of a connection is nothing (`InputStep`).
-/

namespace ChatRoom
namespace Tcp

open Incremental Socket

/-- The bytes that wait on the socket of a connection when its `onRead` is called. -/
def arriving (c : ConnId) (w : Chat) : Event → Bytes
  | .ready fd events input _ =>
      if w.reactor.contexts fd = some c ∧ (events.input ∨ events.failure) then
        input.pending
      else
        []
  | _ => []

/-- The bytes that have arrived on the socket of a connection. -/
def arrived (J : JsonLib) (c : ConnId) (events : List Event) : Bytes :=
  Runs.outputs (arriving c) (step J) initial events

/-- The packets `pkts` of the connection have been handed over, and nothing else has
happened to its input, unless it has been closed. -/
structure InputStep (c : ConnId) (pkts : List Packet) (w w' : Chat) : Prop where
  allocated : w'.allocated = w.allocated
  readBuf : (w'.conns c).readBuf = (w.conns c).readBuf
  delivered : delivered w' c = delivered w c ++ pkts
  registered : Registered w' c → Registered w c
  opened : (Registered w c → (w.conns c).state ≠ .CLOSED) →
    Registered w' c → (w'.conns c).state ≠ .CLOSED

section Steps

variable {J : JsonLib} {w w' w'' : Chat} {c d : ConnId} {pkts more : List Packet} {pkt : Packet}

theorem InputStep.refl
    (c : ConnId) (w : Chat) :
    InputStep c [] w w where
  allocated := rfl
  readBuf := rfl
  delivered := (List.append_nil _).symm
  registered := id
  opened := id

theorem InputStep.trans
    (h : InputStep c pkts w w') (h' : InputStep c more w' w'') :
    InputStep c (pkts ++ more) w w'' where
  allocated := h'.allocated.trans h.allocated
  readBuf := h'.readBuf.trans h.readBuf
  delivered := by
    rw [h'.delivered, h.delivered, List.append_assoc]
  registered hreg := h.registered (h'.registered hreg)
  opened hopen := h'.opened (h.opened hopen)

/-- One after the other without a packet of the connection. -/
theorem InputStep.trans_nil
    (h : InputStep c [] w w') (h' : InputStep c [] w' w'') :
    InputStep c [] w w'' :=
  h.trans h'

/-- The packet that an entry of the history hands over for a connection. -/
def handedIn (c : ConnId) : Obs → Option Packet
  | .packet d pkt => if d = c then some pkt else none
  | _ => none

theorem delivered_eq
    (w : Chat) (c : ConnId) :
    delivered w c = w.trace.filterMap (handedIn c) := by
  apply List.filterMap_congr
  intro o _
  cases o <;> rfl

/-- The packets of the entries that are new are new. -/
theorem delivered_append
    (c : ConnId) (trace : List Obs) (htrace : w'.trace = w.trace ++ trace) :
    delivered w' c = delivered w c ++ trace.filterMap (handedIn c) := by
  rw [delivered_eq, delivered_eq, htrace, List.filterMap_append]

theorem handedIn_silent
    {trace : List Obs} (hsilent : ∀ o ∈ trace, o.Silent) :
    trace.filterMap (handedIn c) = [] := by
  apply List.filterMap_eq_nil_iff.mpr
  intro o ho
  have hsilent := hsilent o ho
  cases o with
  | sent | wrote =>
      rfl
  | packet | closed | registered =>
      exact absurd hsilent id

theorem Quiet.inputStep
    (hq : Quiet w w') (hbuf : (w'.conns c).readBuf = (w.conns c).readBuf) :
    InputStep c [] w w' where
  allocated := hq.allocated
  readBuf := hbuf
  delivered := by
    obtain ⟨trace, htrace, hsilent⟩ := hq.trace
    rw [delivered_append c trace htrace, handedIn_silent hsilent]
  registered hreg := by
    rw [Registered, hq.fd, hq.contexts] at hreg
    exact hreg
  opened hopen hreg := by
    rw [Registered, hq.fd, hq.contexts] at hreg
    rw [hq.state]
    exact hopen hreg

theorem Sends.inputStep
    {out : List (ConnId × Packet)} (hout : Sends w w' out) (c : ConnId) :
    InputStep c [] w w' := by
  refine hout.quiet.inputStep ?_
  rw [hout.conns c]

/-- Closing any connection. -/
theorem InputStep.close
    (J : JsonLib) (c d : ConnId) (w : Chat) :
    InputStep c [] w (close (closeCallback J) w d) := by
  by_cases hopen : (w.conns d).state = .CLOSED
  · rw [Tcp.close, if_pos hopen]
    exact InputStep.refl c w
  · have hcl := close_closes J hopen
    have hreg : Registered (Tcp.close (closeCallback J) w d) c →
        Registered w c ∧ c ≠ d := by
      intro hreg
      have hfd : ((Tcp.close (closeCallback J) w d).conns c).fd = (w.conns c).fd := by
        rw [hcl.conns c]
      rw [Registered, hfd, hcl.contexts, Function.update_apply] at hreg
      by_cases hsame : (w.conns c).fd = (w.conns d).fd
      · rw [if_pos hsame] at hreg
        cases hreg
      · rw [if_neg hsame] at hreg
        refine ⟨hreg, ?_⟩
        rintro rfl
        exact hsame rfl
    constructor
    case allocated =>
      exact hcl.allocated
    case readBuf =>
      rw [hcl.conns c]
    case delivered =>
      obtain ⟨trace, htrace, hsilent⟩ := hcl.trace
      rw [delivered_append c _ htrace, List.filterMap_cons_none rfl, handedIn_silent hsilent]
    case registered =>
      exact fun h => (hreg h).1
    case opened =>
      intro hopen h
      obtain ⟨hreg, hne⟩ := hreg h
      rw [hcl.conns c]
      simp only [if_neg hne]
      exact hopen hreg

/-- A packet of any connection is handled. -/
theorem InputStep.handlePacket
    (c : ConnId) (hpkt : handlePacket (callbacks J) w d pkt = .ok w') :
    InputStep c (if d = c then [pkt] else []) w w' := by
  have hnoted : InputStep c (if d = c then [pkt] else []) w (w.note (.packet d pkt)) := by
    constructor
    case delivered =>
      rw [delivered_append (w := w) c [.packet d pkt] rfl]
      by_cases hd : d = c
      · simp [handedIn, hd]
      · simp [handedIn, hd]
    all_goals
      first | exact rfl | exact id
  have hrest : InputStep c [] (w.note (.packet d pkt)) w' := by
    cases onPacket_effect hpkt with
    | sends out hout =>
        exact hout.inputStep c
    | login name out hstate hfree hout =>
        have hlogin : InputStep c [] (w.note (.packet d pkt))
            (loggedIn (w.note (.packet d pkt)) d name) := by
          constructor
          case delivered =>
            exact delivered_append c [.registered d name] rfl
          all_goals
            by_cases hc : c = d
            · subst hc
              simp [Registered, loggedIn, setUsername, World.setConn, World.setUsers, World.note]
            · simp [Registered, loggedIn, setUsername, World.setConn, World.setUsers, World.note,
                hc]
        exact hlogin.trans_nil (hout.inputStep c)
    | logout htype hstate =>
        have hclose := InputStep.close J c d (UserManager.remove (w.note (.packet d pkt)) d)
        exact ⟨hclose.allocated, hclose.readBuf, hclose.delivered, hclose.registered, hclose.opened⟩
  have hboth := hnoted.trans hrest
  rwa [List.append_nil] at hboth

/-- An event of another connection. -/
theorem inputStep_rule
    (J : JsonLib) {c d : ConnId} (hd : d ≠ c) (w : Chat) :
    EventRule J d (InputStep c [] w) where
  receive w' readBuf lastActive h := by
    refine h.trans_nil (Quiet.inputStep (quiet_setConn rfl rfl rfl) ?_)
    simp [World.setConn, Ne.symm hd]
  packet w₁ pkt w₂ _ h hpkt := by
    have hstep := InputStep.handlePacket c hpkt
    rw [if_neg hd] at hstep
    exact h.trans_nil hstep
  close w' _ h := h.trans_nil (InputStep.close J c d w')
  wrote w' n h := by
    refine h.trans_nil ((wrote_writes w' d n).quiet.inputStep ?_)
    simp [wrote, World.setConn, World.note, Ne.symm hd]
  flushed w' _ _ h := by
    refine h.trans_nil ((stopWriting_writes w' d _ _).quiet.inputStep ?_)
    simp [World.setConn, World.modifyFd, Ne.symm hd]

/-- A writable event of the connection itself. -/
theorem inputStep_onWrite
    (J : JsonLib) (c : ConnId) (w : Chat) (results : List SendResult) :
    InputStep c [] w (onWrite (callbacks J) c w results) := by
  refine onWrite_keeps (I := InputStep c [] w) ?_ ?_ ?_ results (InputStep.refl c w)
  · intro w' n h
    refine h.trans_nil ((wrote_writes w' c n).quiet.inputStep ?_)
    simp [wrote, World.setConn, World.note]
  · intro w' _ h
    refine h.trans_nil ((stopWriting_writes w' c _ _).quiet.inputStep ?_)
    simp [World.setConn, World.modifyFd]
  · intro w' h
    exact h.trans_nil (InputStep.close J c c w')

end Steps

section Reading

variable {J : JsonLib} {w w' : Chat} {c : ConnId} {seen : Bytes}

/-- What was readable has been decoded: the packets have been handed over, and the rest is
left. -/
structure Decoded (c : ConnId) (r : Drained UInt8 Packet) (w w' : Chat) : Prop where
  unread : (w'.conns c).readBuf.readable = r.unread
  position : (w'.conns c).readBuf.writePos = (w.conns c).readBuf.writePos
  capacity : (w'.conns c).readBuf.buf.length = (w.conns c).readBuf.buf.length
  delivered : delivered w' c = delivered w c ++ r.items
  opened : (Registered w c → (w.conns c).state ≠ .CLOSED) →
    Registered w' c → Registered w c ∧ (w'.conns c).state ≠ .CLOSED ∧ r.failed = false

/-- A connection that is closed is registered nowhere. -/
theorem not_registered_close
    (J : JsonLib) (hopen : (w.conns c).state ≠ .CLOSED) :
    ¬ Registered (close (closeCallback J) w c) c := by
  have hcl := close_closes J hopen
  have hfd : ((close (closeCallback J) w c).conns c).fd = (w.conns c).fd := by
    rw [hcl.conns c]
  intro hreg
  rw [Registered, hfd, hcl.contexts, Function.update_self] at hreg
  cases hreg

theorem consume_conns
    (w : Chat) (c : ConnId) (n : Nat) :
    (consume w c n).conns c = { w.conns c with readBuf := (w.conns c).readBuf.consume n } :=
  Function.update_self _ _ _

/-- A packet that is handled has been consumed, and nothing else. -/
theorem readBuf_handlePacket
    {n : Nat} {pkt : Packet}
    (hpkt : handlePacket (callbacks J) (consume w c n) c pkt = .ok w') :
    (w'.conns c).readBuf = (w.conns c).readBuf.consume n := by
  rw [(InputStep.handlePacket c hpkt).readBuf, consume_conns]

/-- The decode loop hands over what the readable bytes drain to, whatever the packets do. -/
theorem decodeLoop_decodes
    {fuel : Nat} (hfuel : (w.conns c).readBuf.readableBytes ≤ fuel)
    (h : decodeLoop (callbacks J) c fuel w = .ok w') :
    Decoded c (packetDecoder.drain (w.conns c).readBuf.readable) w w' := by
  induction fuel generalizing w with
  | zero =>
      rw [Decoder.drain_wait _ (decode_wait_of_no_fuel hfuel)]
      cases h
      exact ⟨rfl, rfl, rfl, (List.append_nil _).symm, fun hopen hreg => ⟨hreg, hopen hreg, rfl⟩⟩
  | succ fuel ih =>
      cases hdec : packetDecoder.decode (w.conns c).readBuf.readable with
      | wait =>
          rw [Decoder.drain_wait _ hdec]
          rw [decodeLoop_wait hdec] at h
          cases h
          exact ⟨rfl, rfl, rfl, (List.append_nil _).symm,
            fun hopen hreg => ⟨hreg, hopen hreg, rfl⟩⟩
      | malformed =>
          rw [Decoder.drain_malformed hdec]
          rw [decodeLoop_malformed hdec] at h
          cases h
          have hclose : InputStep c [] w (close (callbacks J).onClose w c) :=
            InputStep.close J c c w
          refine ⟨by rw [hclose.readBuf], by rw [hclose.readBuf], by rw [hclose.readBuf],
            hclose.delivered, ?_⟩
          intro hopen hreg
          have hopen := hopen (hclose.registered hreg)
          exact absurd hreg (not_registered_close J hopen)
      | done n pkt =>
          have hbounds := packetDecoder.done_bounds hdec
          have hlen := (w.conns c).readBuf.length_readable
          rw [decodeLoop_done hdec] at h
          obtain ⟨w₁, hcall, hrest⟩ := Runs.bind_eq_ok.mp h
          have hstep := InputStep.handlePacket c hcall
          rw [if_pos rfl] at hstep
          have hbuf := readBuf_handlePacket hcall
          have hread : (w₁.conns c).readBuf.readable = (w.conns c).readBuf.readable.drop n := by
            rw [hbuf, Buffer.readable_consume]
          have hless : (w₁.conns c).readBuf.readableBytes ≤ fuel := by
            rw [← Buffer.length_readable, hread, List.length_drop]
            omega
          have htail := ih hless hrest
          rw [hread] at htail
          rw [Decoder.drain_done hdec]
          constructor
          case unread =>
            exact htail.unread
          case position =>
            rw [htail.position, hbuf, Buffer.writePos_consume]
          case capacity =>
            rw [htail.capacity, hbuf]
            rfl
          case delivered =>
            rw [htail.delivered, hstep.delivered, List.append_assoc]
            rfl
          case opened =>
            intro hopen hreg
            have hsame : Registered (consume w c n) c ↔ Registered w c := by
              rw [Registered, Registered, consume_conns]
              rfl
            have hfirst := hstep.opened (by rw [hsame, consume_conns]; exact hopen)
            obtain ⟨hreg₁, hstate, hok⟩ := htail.opened hfirst hreg
            exact ⟨hsame.mp (hstep.registered hreg₁), hstate, hok⟩

/-- The input of a connection of which `seen` has arrived. -/
structure Reads (c : ConnId) (seen : Bytes) (w : Chat) : Prop where
  front : delivered w c <+: (packetDecoder.drain seen).items
  fresh : w.allocated ≤ c → seen = [] ∧ delivered w c = []
  current : Registered w c →
    (w.conns c).state ≠ .CLOSED ∧ delivered w c = (packetDecoder.drain seen).items ∧
      (packetDecoder.drain seen).failed = false ∧
        (w.conns c).readBuf.readable = (packetDecoder.drain seen).unread ∧
          (w.conns c).readBuf.writePos = seen.length ∧
            (w.conns c).readBuf.buf.length = Buffer.INITIAL_SIZE

/-- Whatever happens to the input of a connection that is not read. -/
theorem Reads.inputStep
    (h : Reads c seen w) (hstep : InputStep c [] w w') :
    Reads c seen w' := by
  have hdelivered : delivered w' c = delivered w c := by
    rw [hstep.delivered, List.append_nil]
  constructor
  case front =>
    rw [hdelivered]
    exact h.front
  case fresh =>
    rw [hstep.allocated, hdelivered]
    exact h.fresh
  case current =>
    intro hreg
    obtain ⟨-, hrest⟩ := h.current (hstep.registered hreg)
    rw [hdelivered, hstep.readBuf]
    exact ⟨hstep.opened (fun hreg => (h.current hreg).1) hreg, hrest⟩

/-- A readable event of a connection that is registered. -/
theorem Reads.onRead
    (h : Reads c seen w) (hreg : Registered w c) (hlt : c < w'.allocated) {s : Input}
    (hread : onRead (callbacks J) w c s = .ok w') :
    Reads c (seen ++ s.pending) w' := by
  obtain ⟨hopen, hdelivered, hok, hunread, hposition, hcapacity⟩ := h.current hreg
  have hfresh : ¬ w'.allocated ≤ c := Nat.not_le.mpr hlt
  unfold Tcp.onRead at hread
  split at hread
  · next conn hloop =>
      -- the peer is gone or the buffer is full: nothing is decoded
      have hstate : ((w.setConn c conn).conns c).state = (w.conns c).state := by
        have hsame := recvLoop_state w.now (s.pending.length + 1) (w.conns c) s
        rw [hloop] at hsame
        simpa [World.setConn] using hsame
      have hclose := InputStep.close J c c (w.setConn c conn)
      obtain rfl : close (closeCallback J) (w.setConn c conn) c = w' := Except.ok.inj hread
      constructor
      case front =>
        rw [hclose.delivered, List.append_nil, delivered_setConn, hdelivered]
        exact Decoder.items_prefix _ _
      case fresh =>
        exact fun hle => absurd hle hfresh
      case current =>
        exact fun hreg => absurd hreg (not_registered_close J (by rw [hstate]; exact hopen))
  · next conn hloop =>
      obtain ⟨hidle, hfits⟩ := recvLoop_drained w.now (w.conns c)
        (Nat.lt_succ_self s.pending.length) (congrArg Prod.snd hloop)
      obtain ⟨-, hreadable, hwritten, hsize⟩ :=
        recvLoop_fits w.now (w.conns c) hidle (Nat.lt_succ_self s.pending.length) hfits
      rw [hloop] at hreadable hwritten hsize
      have hself : (w.setConn c conn).conns c = conn := Function.update_self _ _ _
      have hframe := recvLoop_frame w.now (s.pending.length + 1) (w.conns c) s
      rw [hloop] at hframe
      have hdecoded := decodeLoop_decodes (by rw [hself]) hread
      rw [hself, hreadable, hunread] at hdecoded
      have hdrain := Decoder.drain_append_unread (d := packetDecoder) seen s.pending
      have hitems : delivered w' c = (packetDecoder.drain (seen ++ s.pending)).items := by
        rw [hdecoded.delivered, delivered_setConn, hdelivered, hdrain]
      constructor
      case front =>
        rw [hitems]
      case fresh =>
        exact fun hle => absurd hle hfresh
      case current =>
        intro hreg'
        have hstart : Registered (w.setConn c conn) c →
            ((w.setConn c conn).conns c).state ≠ .CLOSED := by
          intro _
          rw [hself, show conn = _ from hframe]
          exact hopen
        obtain ⟨-, hstate, hfailed⟩ := hdecoded.opened hstart hreg'
        refine ⟨hstate, hitems, ?_, ?_, ?_, ?_⟩
        · rw [hdrain]
          exact hfailed
        · rw [hdecoded.unread, hdrain]
        · rw [hdecoded.position, hself, hwritten, hposition, List.length_append]
        · rw [hdecoded.capacity, hself, hsize, hcapacity]

/-- A new connection has received nothing. -/
theorem Reads.accept
    (h : Reads c seen w) {fd : Fd} (haccept : accept w fd = .ok w') :
    Reads c seen w' := by
  have hacc := accept_accepts haccept
  have hdelivered : delivered w' c = delivered w c := by
    rw [delivered, delivered, hacc.trace]
  constructor
  case front =>
    rw [hdelivered]
    exact h.front
  case fresh =>
    intro hle
    rw [hacc.allocated] at hle
    rw [hdelivered]
    exact h.fresh (Nat.le_of_succ_le hle)
  case current =>
    intro hreg
    rw [hdelivered]
    by_cases hc : c = w.allocated
    · obtain ⟨hseen, hnone⟩ := h.fresh (Nat.le_of_eq hc.symm)
      rw [hacc.conns, hc, Function.update_self, ← hc, hnone, hseen,
        Decoder.drain_wait (d := packetDecoder) [] rfl]
      exact ⟨by simp [Connection.new], rfl, rfl, Buffer.readable_new, rfl, Buffer.length_buf_new⟩
    · have hsame : w'.conns c = w.conns c := by
        rw [hacc.conns, Function.update_of_ne hc]
      have hreg : Registered w c := by
        rw [Registered, hsame, hacc.contexts, Function.update_apply] at hreg
        split at hreg
        · exact absurd (Option.some.inj hreg).symm hc
        · exact hreg
      rw [hsame]
      exact h.current hreg

theorem reads_initial
    (c : ConnId) :
    Reads c [] initial where
  front := List.nil_prefix
  fresh _ := ⟨rfl, rfl⟩
  current hreg := by
    cases hreg

/-- A step of the server, with what has arrived for the connection by then. -/
theorem Reads.step
    (h : Reads c seen w) (hs : Sessions w) (hw : Wired w) {event : Event}
    (hstep : step J w event = .ok w') :
    Reads c (seen ++ arriving c w event) w' := by
  cases event with
  | accept fd =>
      rw [show arriving c w (.accept fd) = [] from rfl, List.append_nil]
      rw [Tcp.step] at hstep
      split at hstep
      · cases hstep
        exact h
      · exact h.accept hstep
  | ready fd events input sends =>
      cases hd : w.reactor.contexts fd with
      | none =>
          rw [Tcp.step, handleEvent, hd] at hstep
          cases hstep
          rw [arriving, hd, if_neg (by simp), List.append_nil]
          exact h
      | some d =>
          have hin := within_of_registered hs hw hd
          by_cases hc : d = c
          · subst hc
            have hreg : Registered w d := by
              rw [Registered, hw.owner fd d hd]
              exact hd
            refine handleEvent_keeps (I := Reads d (seen ++ arriving d w _)) hd ?_ ?_ ?_ hstep
            · intro w₁ hready hread
              rw [arriving, if_pos ⟨hd, hready⟩]
              exact h.onRead hreg (hs.onRead hin.allocated hread).2 hread
            · intro w₁ h₁
              have hwrite := inputStep_onWrite J d w₁ sends
              exact h₁.inputStep hwrite
            · intro hno
              rw [arriving, if_neg (fun hboth => hno hboth.2), List.append_nil]
              exact h
          · rw [arriving, if_neg (fun hboth => hc (Option.some.inj (hd.symm.trans hboth.1))),
              List.append_nil]
            exact h.inputStep
              ((inputStep_rule J hc w).handleEvent hin (InputStep.refl c w) hd hstep)
  | tick =>
      cases hstep
      rw [show arriving c w .tick = [] from rfl, List.append_nil]
      refine h.inputStep (tick_invariant (I := InputStep c [] w) ?_ 30 hs.toTablesAllocated
        (InputStep.refl c w))
      intro w₁ d h₁ _
      exact h₁.trans_nil (InputStep.close J c d w₁)
  | clock now =>
      cases hstep
      rw [show arriving c w (.clock now) = [] from rfl, List.append_nil]
      exact h.inputStep ((quiet_clock w now).inputStep rfl)

/-- What the input of a connection is after a run. -/
theorem reads_runServer
    {events : List Event} (hrun : runServer J events = .ok w) (c : ConnId) :
    Reads c (arrived J c events) w := by
  have hstart : (Sessions initial ∧ Wired initial) ∧ Reads c [] initial := by
    exact ⟨⟨sessions_initial, wired_initial⟩, reads_initial c⟩
  have hkeeps : ∀ seen w event w', (Sessions w ∧ Wired w) ∧ Reads c seen w →
      step J w event = .ok w' →
        (Sessions w' ∧ Wired w') ∧ Reads c (seen ++ arriving c w event) w' := by
    rintro seen w event w' ⟨⟨hs, hw⟩, h⟩ hstep
    exact ⟨⟨hs.step hstep, hw.step hs.toTablesAllocated hstep⟩, h.step hs hw hstep⟩
  exact (Runs.outputs_invariant
    (I := fun seen w => (Sessions w ∧ Wired w) ∧ Reads c seen w) hkeeps hstart hrun).2

/-- In every run of the server, of the bytes that have arrived for a connection a front of the
packets has been handed over; while the connection is registered all of them have been, no
packet was malformed, and no more than `INITIAL_SIZE` bytes have arrived since it was
accepted. -/
theorem packets_of_arrived
    {events : List Event} (hrun : runServer J events = .ok w) (c : ConnId) :
    delivered w c <+: (packetDecoder.drain (arrived J c events)).items ∧
      (Registered w c →
        delivered w c = (packetDecoder.drain (arrived J c events)).items ∧
          (packetDecoder.drain (arrived J c events)).failed = false ∧
            (arrived J c events).length ≤ Buffer.INITIAL_SIZE) := by
  have hreads := reads_runServer hrun c
  refine ⟨hreads.front, ?_⟩
  intro hreg
  obtain ⟨-, hdelivered, hok, -, hposition, hcapacity⟩ := hreads.current hreg
  refine ⟨hdelivered, hok, ?_⟩
  rw [← hposition, ← hcapacity]
  exact (w.conns c).readBuf.write_le_size

theorem packets_of_arrived_loginRun :
    ∃ w, runServer sampleJson loginRun = .ok w ∧ Registered w 0 ∧
      arrived sampleJson 0 loginRun = encode loginPacket ∧
        delivered w 0 = (packetDecoder.drain (arrived sampleJson 0 loginRun)).items ∧
          (arrived sampleJson 0 loginRun).length ≤ Buffer.INITIAL_SIZE := by
  obtain ⟨w, hrun, hw⟩ := Runs.exists_ok_of_any
    (runServer sampleJson loginRun)
    (fun w => Registered w 0)
    (by decide +kernel)
  have hreg := of_decide_eq_true hw
  obtain ⟨hall, -, hsize⟩ := (packets_of_arrived hrun 0).2 hreg
  exact ⟨w, hrun, hreg, by decide +kernel, hall, hsize⟩

end Reading

end Tcp
end ChatRoom
