import ChatRoom.Tcp.Answers
import ChatRoom.Tcp.InputStream
import ChatRoom.Tcp.OutputStream

/-!
# What ends the TCP server

`json::value` runs under no handler, so a packet that is misshapen for the state of its
connection ends the server.  Nothing else does: the reactor never throws, since the epoll set
has only descriptors that are in the table of callbacks, and decoding, writing and closing do
not throw at all.  A run goes on to its end if and only if no packet that is handed over in it
is misshapen (`server_lives_iff`).  For this it is enough that the documents in the streams of
the connections have the texts that the handlers look for (`lives_of_shaped`).
-/

namespace ChatRoom
namespace Tcp

open Socket Incremental

/-- A call of `onPacket_`, with the state in which it happens. -/
structure PacketCall where
  world : Chat
  conn : ConnId
  pkt : Packet

/-- The calls of `onPacket_` in the decode loop of `onRead`. -/
def callsOfLoop (cb : Callbacks ChatEnv) (c : ConnId) : Nat → Chat → List PacketCall
  | 0, _ => []
  | fuel + 1, w =>
      if (w.conns c).readBuf.readableBytes > 0 then
        let r := decode (w.conns c).readBuf.readable
        if r.ok then
          let w := (consume w c r.consumed.toNat).note (.packet c r.packet)
          { world := w, conn := c, pkt := r.packet } ::
            match cb.onPacket w c r.packet with
            | .error _ => []
            | .ok w => callsOfLoop cb c fuel w
        else
          []
      else
        []

/-- The calls of `onPacket_` in `onRead`. -/
def callsOfRead (cb : Callbacks ChatEnv) (w : Chat) (c : ConnId) (s : Input) : List PacketCall :=
  match recvLoop w.now (s.pending.length + 1) (w.conns c) s with
  | (_, .hangup) => []
  | (conn, .drained) => callsOfLoop cb c conn.readBuf.readableBytes (w.setConn c conn)

/-- The calls of `onPacket_` in an event. -/
def callsOf (J : JsonLib) (w : Chat) : Event → List PacketCall
  | .ready fd events input _ =>
      match w.reactor.contexts fd with
      | some c =>
          if events.failure || events.input then callsOfRead (callbacks J) w c input else []
      | none => []
  | _ => []

/-- None of the packets that are handed over in the event is misshapen. -/
def Harmless (J : JsonLib) (w : Chat) (e : Event) : Prop :=
  ∀ call ∈ callsOf J w e, ¬ Misshapen J call.world call.conn call.pkt

section Packets

variable {J : JsonLib} {w : Chat} {c : ConnId}

/-- A packet is handled without an exception if and only if it is not misshapen. -/
theorem onPacket_returns_iff
    (J : JsonLib) (w : Chat) (c : ConnId) (pkt : Packet) :
    (∃ w', onPacket J (closeCallback J) w c pkt = .ok w') ↔ ¬ Misshapen J w c pkt := by
  have hcode (m : MessageType) : pkt.type = m.code ↔ MessageType.ofCode? pkt.type = some m := by
    constructor
    · intro htype
      rw [htype, MessageType.ofCode?_code]
    · exact MessageType.code_of_ofCode?
  unfold onPacket Misshapen
  simp only [hcode]
  cases MessageType.ofCode? pkt.type with
  | none =>
      simp
  | some type =>
      cases type with
      | MSG_LOGIN =>
          rw [handleLogin_returns_iff]
          grind
      | MSG_CHAT =>
          rw [handleChat_returns_iff]
          grind
      | MSG_PRIVATE =>
          rw [handlePrivate_returns_iff]
          grind
      | MSG_LOGIN_ACK | MSG_CHAT_BROAD | MSG_USER_LIST | MSG_PING | MSG_PONG | MSG_LOGOUT
      | MSG_SYSTEM =>
          simp

/-- The decode loop returns if and only if all packets that it hands over are handled without
an exception. -/
theorem decodeLoop_returns_iff
    (fuel : Nat) (w : Chat) :
    (∃ w', decodeLoop (callbacks J) c fuel w = .ok w') ↔
      ∀ call ∈ callsOfLoop (callbacks J) c fuel w,
        ¬ Misshapen J call.world call.conn call.pkt := by
  induction fuel generalizing w with
  | zero =>
      exact iff_of_true ⟨w, rfl⟩ (by simp [callsOfLoop])
  | succ fuel ih =>
      rw [decodeLoop, callsOfLoop]
      by_cases hsome : (w.conns c).readBuf.readableBytes > 0
      · rw [if_pos hsome, if_pos hsome]
        dsimp only
        generalize decode (w.conns c).readBuf.readable = r
        by_cases hok : r.ok = true
        · rw [if_pos hok, if_pos hok, handlePacket]
          generalize (consume w c r.consumed.toNat).note (.packet c r.packet) = w₁
          have hfirst := onPacket_returns_iff J w₁ c r.packet
          have hcall : (callbacks J).onPacket w₁ c r.packet =
              onPacket J (closeCallback J) w₁ c r.packet := rfl
          rw [hcall]
          cases hpacket : onPacket J (closeCallback J) w₁ c r.packet with
          | error e =>
              rw [hpacket] at hfirst
              simp only [reduceCtorEq, exists_false, false_iff, not_not] at hfirst
              simp [Except.bind, hfirst]
          | ok w₂ =>
              rw [hpacket] at hfirst
              simp only [Except.ok.injEq, exists_eq', true_iff] at hfirst
              simp only [Except.bind, ih w₂, List.mem_cons, forall_eq_or_imp, hfirst,
                not_false_eq_true, true_and]
        · rw [if_neg hok, if_neg hok]
          refine iff_of_true ?_ (by simp)
          split
          · exact ⟨_, rfl⟩
          · exact ⟨_, rfl⟩
      · rw [if_neg hsome, if_neg hsome]
        exact iff_of_true ⟨w, rfl⟩ (by simp)

/-- A readable event of a connection. -/
theorem onRead_returns_iff
    (w : Chat) (s : Input) :
    (∃ w', onRead (callbacks J) w c s = .ok w') ↔
      ∀ call ∈ callsOfRead (callbacks J) w c s,
        ¬ Misshapen J call.world call.conn call.pkt := by
  rw [onRead, callsOfRead]
  generalize recvLoop w.now (s.pending.length + 1) (w.conns c) s = received
  obtain ⟨conn, ending⟩ := received
  cases ending with
  | hangup =>
      exact iff_of_true ⟨_, rfl⟩ (by simp)
  | drained =>
      exact decodeLoop_returns_iff _ _

end Packets

section Listed

variable {J : JsonLib} {w w' : Chat} {fd : Fd}

theorem listed_send
    (hlisted : w.reactor.Listed) (c : ConnId) (pkt : Packet) :
    (send w c pkt).reactor.Listed := by
  unfold send
  dsimp only
  split
  · exact hlisted
  · exact hlisted.modifyFd _ _

theorem listed_accept
    (hlisted : w.reactor.Listed) (haccept : accept w fd = .ok w') :
    w'.reactor.Listed := by
  obtain ⟨w₁, hstart, rfl⟩ := Runs.map_eq_ok.mp haccept
  obtain ⟨r, hadd, rfl⟩ := Runs.map_eq_ok.mp hstart
  exact Reactor.Listed.addFd (r := w.reactor) hlisted hadd

/-- What is in the epoll set is in the table of the reactor. -/
theorem listed_rule
    (J : JsonLib) :
    OperationRule J fun w => Outgoing w ∧ w.reactor.Listed where
  users _ h := h.1.users
  receive w c readBuf lastActive h :=
    ⟨(outgoing_rule J).receive w c readBuf lastActive h.1, h.2⟩
  packet w c pkt h := ⟨(outgoing_rule J).packet w c pkt h.1, h.2⟩
  send w c pkt h hlt := ⟨(outgoing_rule J).send w c pkt h.1 hlt, listed_send h.2 c pkt⟩
  login w c pkt name h hlt hlogs := ⟨(outgoing_rule J).login w c pkt name h.1 hlt hlogs, h.2⟩
  remove w c h := ⟨(outgoing_rule J).remove w c h.1, h.2⟩
  detach w c h := ⟨(outgoing_rule J).detach w c h.1, h.2.removeFd _⟩
  release w c h hfree := ⟨(outgoing_rule J).release w c h.1 hfree, h.2.descriptorClosed _⟩
  wrote w c n h := ⟨(outgoing_rule J).wrote w c n h.1, h.2⟩
  flushed w c h halone hempty :=
    ⟨(outgoing_rule J).flushed w c h.1 halone hempty, h.2.modifyFd _ _⟩
  accept w fd w' h hs hw hnew haccept :=
    ⟨(outgoing_rule J).accept w fd w' h.1 hs hw hnew haccept, listed_accept h.2 haccept⟩
  clock w now h := ⟨(outgoing_rule J).clock w now h.1, h.2⟩

end Listed

section Streams

variable {J : JsonLib} {w w' : Chat} {c : ConnId} {pkt : Packet} {call : PacketCall}

/-- The document of the packet has the texts that the handler of its type looks for. -/
def Shaped (J : JsonLib) (pkt : Packet) : Prop :=
  ∀ j, J.parse pkt.body = some j →
    (pkt.type = MessageType.MSG_LOGIN.code → j.TextMember "username") ∧
      (pkt.type = MessageType.MSG_CHAT.code → j.TextMember "content") ∧
        (pkt.type = MessageType.MSG_PRIVATE.code → j.TextMember "to" ∧ j.TextMember "content")

/-- A packet with these texts is misshapen in no state. -/
theorem Shaped.not_misshapen
    (h : Shaped J pkt) (w : Chat) (c : ConnId) :
    ¬ Misshapen J w c pkt := by
  rintro ⟨j, hparse, hlogin | hchat | hprivate⟩
  · exact hlogin.2.2 ((h j hparse).1 hlogin.1)
  · exact hchat.2.2 ((h j hparse).2.1 hchat.1)
  · exact hprivate.2.2 ((h j hparse).2.2 hprivate.1)

/-- Without a complete packet in the buffer nothing is handed over. -/
theorem callsOfLoop_nil
    {cb : Callbacks ChatEnv} {fuel : Nat}
    (hno : (decode (w.conns c).readBuf.readable).ok = false) :
    callsOfLoop cb c fuel w = [] := by
  cases fuel with
  | zero =>
      rfl
  | succ fuel =>
      rw [callsOfLoop]
      simp only [hno, Bool.false_eq_true, if_false, ite_self]

/-- A complete packet is handed over first. -/
theorem callsOfLoop_done
    {cb : Callbacks ChatEnv} {fuel n : Nat}
    (hdec : packetDecoder.decode (w.conns c).readBuf.readable = .done n pkt) :
    callsOfLoop cb c (fuel + 1) w =
      { world := (consume w c n).note (.packet c pkt), conn := c, pkt := pkt } ::
        match handlePacket cb (consume w c n) c pkt with
        | .error _ => []
        | .ok w => callsOfLoop cb c fuel w := by
  obtain ⟨hyes, hn, hpkt⟩ := verdict_eq_done hdec
  have hbounds := packetDecoder.done_bounds hdec
  have hlen := (w.conns c).readBuf.length_readable
  rw [callsOfLoop, if_pos (by omega)]
  simp only [hyes, if_true, hn, hpkt]
  rfl

/-- What the decode loop hands over is among the packets that the readable bytes drain to. -/
theorem mem_drain_of_callsOfLoop
    {fuel : Nat} (hcall : call ∈ callsOfLoop (callbacks J) c fuel w) :
    call.pkt ∈ (packetDecoder.drain (w.conns c).readBuf.readable).items := by
  induction fuel generalizing w with
  | zero =>
      cases hcall
  | succ fuel ih =>
      cases hdec : packetDecoder.decode (w.conns c).readBuf.readable with
      | wait =>
          rw [callsOfLoop_nil (verdict_eq_wait hdec).1] at hcall
          cases hcall
      | malformed =>
          rw [callsOfLoop_nil (verdict_eq_malformed hdec).1] at hcall
          cases hcall
      | done n pkt =>
          rw [callsOfLoop_done hdec] at hcall
          rw [Decoder.drain_done hdec]
          rcases List.mem_cons.mp hcall with rfl | hrest
          · exact List.mem_cons_self
          · cases hpkt : handlePacket (callbacks J) (consume w c n) c pkt with
            | error e =>
                rw [hpkt] at hrest
                cases hrest
            | ok w₁ =>
                rw [hpkt] at hrest
                have htail := ih hrest
                rw [readBuf_handlePacket hpkt, Buffer.readable_consume] at htail
                exact List.mem_cons_of_mem _ htail

/-- What a readable event hands over is among the packets that the stream drains to. -/
theorem mem_drain_of_callsOfRead
    {seen : Bytes} (h : Reads c seen w) (hreg : Registered w c) {s : Input}
    (hcall : call ∈ callsOfRead (callbacks J) w c s) :
    call.pkt ∈ (packetDecoder.drain (seen ++ s.pending)).items := by
  obtain ⟨-, -, -, hunread, -⟩ := h.current hreg
  rw [callsOfRead] at hcall
  split at hcall
  · cases hcall
  · next conn hloop =>
      obtain ⟨hidle, hfits⟩ := recvLoop_drained w.now (w.conns c)
        (Nat.lt_succ_self s.pending.length) (congrArg Prod.snd hloop)
      obtain ⟨-, hreadable, -⟩ :=
        recvLoop_fits w.now (w.conns c) hidle (Nat.lt_succ_self s.pending.length) hfits
      rw [hloop] at hreadable
      have hself : (w.setConn c conn).conns c = conn := Function.update_self _ _ _
      have hmem := mem_drain_of_callsOfLoop hcall
      rw [hself, hreadable, hunread] at hmem
      rw [Decoder.drain_append_unread]
      exact List.mem_append_right _ hmem

/-- What an event hands over is a packet of the stream of a connection. -/
theorem mem_drain_of_callsOf
    {seen : ConnId → Bytes} (h : ∀ c, Reads c (seen c) w) (hw : Wired w) {e : Event}
    (hcall : call ∈ callsOf J w e) :
    ∃ c, call.pkt ∈ (packetDecoder.drain (seen c ++ arriving c w e)).items := by
  cases e with
  | accept | tick | clock =>
      cases hcall
  | ready fd events input sends =>
      rw [callsOf] at hcall
      cases hc : w.reactor.contexts fd with
      | none =>
          rw [hc] at hcall
          cases hcall
      | some c =>
          rw [hc] at hcall
          dsimp only at hcall
          split at hcall
          · next hready =>
              rw [Bool.or_eq_true, or_comm] at hready
              refine ⟨c, ?_⟩
              rw [arriving, if_pos ⟨hc, hready⟩]
              have hreg : Registered w c := by
                rw [Registered, hw.owner fd c hc]
                exact hc
              exact mem_drain_of_callsOfRead (h c) hreg hcall
          · cases hcall

/-- Nothing harmful is handed over when all streams have packets in the right shape only. -/
theorem harmless_of_shaped
    {seen : ConnId → Bytes} {events : List Event} (hs : Sessions w) (hw : Wired w)
    (h : ∀ c, Reads c (seen c) w)
    (hshaped : ∀ c, ∀ pkt ∈ (packetDecoder.drain
      (seen c ++ Runs.outputs (arriving c) (step J) w events)).items, Shaped J pkt) :
    Runs.Meets (Harmless J) (step J) w events := by
  induction events generalizing w seen with
  | nil =>
      trivial
  | cons e events ih =>
      simp only [Runs.outputs, ← List.append_assoc] at hshaped
      constructor
      · intro call hcall
        obtain ⟨c, hmem⟩ := mem_drain_of_callsOf h hw hcall
        exact (hshaped c call.pkt ((Decoder.items_prefix _ _).subset hmem)).not_misshapen _ _
      · intro w' hstep
        refine ih (hs.step hstep) (hw.step hs.toTablesAllocated hstep)
          (fun c => (h c).step hs hw hstep) ?_
        simpa only [hstep] using hshaped

end Streams

section Survival

variable {J : JsonLib} {w : Chat} {e : Event}

/-- A descriptor that is not open can be accepted. -/
theorem exists_accept
    (hw : Wired w) (hlisted : w.reactor.Listed) {fd : Fd} (hnew : w.openFds fd = false) :
    ∃ w', accept w fd = .ok w' := by
  have hfree : w.reactor.contexts fd = none := by
    cases hc : w.reactor.contexts fd with
    | none =>
        rfl
    | some c =>
        have hopen := hw.live fd c hc
        rw [hnew] at hopen
        cases hopen
  obtain ⟨r, hadd⟩ := hlisted.exists_addFd hfree EPOLLIN w.allocated
  have hstart : ∃ w', start (newConnection w fd) w.allocated = .ok w' := by
    refine ⟨_, Runs.map_eq_ok.mpr ⟨r, ?_, rfl⟩⟩
    simpa [newConnection, World.setConn, Connection.new] using hadd
  obtain ⟨w', hw'⟩ := hstart
  exact ⟨_, Runs.map_eq_ok.mpr ⟨w', hw', rfl⟩⟩

/-- An event goes well if and only if it is harmless. -/
theorem step_returns_iff
    (hw : Wired w) (hlisted : w.reactor.Listed) (e : Event) :
    (∃ w', step J w e = .ok w') ↔ Harmless J w e := by
  cases e with
  | accept fd =>
      refine iff_of_true ?_ (by simp [Harmless, callsOf])
      rw [step]
      split
      · exact ⟨w, rfl⟩
      · next hopen =>
          exact exists_accept hw hlisted (Bool.eq_false_iff.mpr hopen)
  | tick | clock =>
      exact iff_of_true ⟨_, rfl⟩ (by simp [Harmless, callsOf])
  | ready fd events input sends =>
      rw [step, handleEvent, Harmless, callsOf]
      cases hc : w.reactor.contexts fd with
      | none =>
          exact iff_of_true ⟨w, rfl⟩ (by simp)
      | some c =>
          dsimp only
          have hread := onRead_returns_iff (J := J) (c := c) w input
          cases hfailure : events.failure with
          | true =>
              simpa using hread
          | false =>
              cases hinput : events.input with
              | true =>
                  rw [if_neg Bool.false_ne_true, if_pos rfl, Bool.false_or, if_pos rfl, ← hread]
                  simp [Runs.map_eq_ok]
              | false =>
                  exact iff_of_true ⟨_, rfl⟩ (by simp)

/-- What holds between two events of a server that goes on. -/
structure Intact (w : Chat) : Prop where
  sessions : Sessions w
  wired : Wired w
  outgoing : Outgoing w
  listed : w.reactor.Listed

theorem intact_initial :
    Intact initial where
  sessions := sessions_initial
  wired := wired_initial
  outgoing := outgoing_initial
  listed := Reactor.listed_new

theorem Intact.step
    {w' : Chat} (h : Intact w) (hok : step J w e = .ok w') :
    Intact w' := by
  obtain ⟨houtgoing, hlisted⟩ :=
    (listed_rule J).callbacks.step h.sessions h.wired ⟨h.outgoing, h.listed⟩ hok
  exact ⟨h.sessions.step hok, h.wired.step h.sessions.toTablesAllocated hok, houtgoing, hlisted⟩

/-- The server goes on to the end of a run if and only if none of the packets that are handed
over in it is misshapen for the state of its connection. -/
theorem server_lives_iff
    (J : JsonLib) (events : List Event) :
    (∃ w, runServer J events = .ok w) ↔ Runs.Meets (Harmless J) (step J) initial events := by
  refine Runs.run_succeeds_iff (I := Intact) ?_ ?_ intact_initial events
  · intro w e w' h hok
    exact h.step hok
  · intro w e h
    exact step_returns_iff h.wired h.listed e

/-- The server goes on to the end of a run if every document in the streams of the connections
has the texts that the handler of its packet looks for. -/
theorem lives_of_shaped
    {events : List Event}
    (h : ∀ c, ∀ pkt ∈ (packetDecoder.drain (arrived J c events)).items, Shaped J pkt) :
    ∃ w, runServer J events = .ok w := by
  have hmeets := harmless_of_shaped sessions_initial wired_initial reads_initial h
  refine (Runs.run_succeeds_iff (I := Intact) ?_ ?_ intact_initial events).mpr hmeets
  · intro w e w' h hok
    exact h.step hok
  · intro w e h
    exact step_returns_iff h.wired h.listed e

end Survival

end Tcp
end ChatRoom
