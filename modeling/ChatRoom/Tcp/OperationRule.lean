import ChatRoom.Tcp.Wiring

/-!
# Rules for the operations of the server

Between two events the tables agree with the sessions and the connections are wired, and
within an event the connection it is for has its descriptor for itself (`Within`).
`EventRule` asks of a property that the callbacks of one connection keep it, with all this
given, and `CallbackRule` the same for any connection; such a property holds in every state
that the server reaches (`CallbackRule.run`).

The handlers and the callbacks are sequences of small operations: a packet is handed over,
a packet is given to `send`, a name is entered or dropped, a connection is taken out of the
tables.  `OperationRule` asks of a property that these operations keep it, and
`OperationRule.callbacks` makes a `CallbackRule` of it.
-/

namespace ChatRoom
namespace Tcp

open Socket

/-- What is left of a connection that is closed, when everybody has been told. -/
def released (w : Chat) (c : ConnId) : Chat :=
  ((ConnectionManager.remove w c).setConn c { w.conns c with state := .CLOSED }).closeFd
    (w.conns c).fd

/-- What is known of the server within an event of a connection. -/
structure Within (c : ConnId) (w : Chat) : Prop where
  sessions : Sessions w
  allocated : c < w.allocated
  wired : Wired w
  alone : Alone c w

namespace Within

variable {J : JsonLib} {w w' : Chat} {c : ConnId} {pkt : Packet}

theorem quiet
    (h : Within c w) (hq : Quiet w w') (hfds : w'.openFds = w.openFds) :
    Within c w' where
  sessions := h.sessions.quiet hq
  allocated := hq.allocated ▸ h.allocated
  wired := h.wired.quiet hq hfds
  alone := h.alone.quiet hq

theorem close
    (h : Within c w) :
    Within c (close (closeCallback J) w c) where
  sessions := h.sessions.close h.allocated
  allocated := (allocated_close J w c).symm ▸ h.allocated
  wired := h.wired.close h.alone
  alone := h.alone.close

theorem handlePacket
    (h : Within c w) (hpkt : handlePacket (callbacks J) w c pkt = .ok w') :
    Within c w' := by
  obtain ⟨hsessions, hlt⟩ := h.sessions.handlePacket h.allocated hpkt
  obtain ⟨hwired, halone⟩ := h.wired.handlePacket h.alone hpkt
  exact ⟨hsessions, hlt, hwired, halone⟩

end Within

/-- The connection that an event is for. -/
theorem within_of_registered
    {w : Chat} {c : ConnId} (hs : Sessions w) (hw : Wired w) {fd : Fd}
    (hc : w.reactor.contexts fd = some c) :
    Within c w where
  sessions := hs
  allocated := hs.registered fd c hc
  wired := hw
  alone := by
    refine alone_of_registered ?_
    rw [hw.owner fd c hc, hc]

/-- What the callbacks keep within an event of the connection `c`. -/
structure EventRule (J : JsonLib) (c : ConnId) (I : Chat → Prop) : Prop where
  receive : ∀ w readBuf lastActive, I w →
    I (w.setConn c { w.conns c with readBuf := readBuf, lastActive := lastActive })
  packet : ∀ w pkt w', Within c w → I w → handlePacket (callbacks J) w c pkt = .ok w' → I w'
  close : ∀ w, Within c w → I w → I (close (closeCallback J) w c)
  wrote : ∀ w n, I w → I (wrote w c n)
  flushed : ∀ w, Within c w → (w.conns c).writeBuf.readableBytes = 0 → I w →
    I ((w.modifyFd (w.conns c).fd EPOLLIN).setConn c { w.conns c with writing := false })

namespace EventRule

variable {J : JsonLib} {c : ConnId} {I : Chat → Prop} {w w' : Chat}

theorem onRead
    (rule : EventRule J c I) (hin : Within c w) (hI : I w) {s : Input}
    (h : onRead (callbacks J) w c s = .ok w') :
    I w' ∧ Within c w' := by
  refine onRead_keeps (I := fun w => I w ∧ Within c w) ?_ ?_ ?_ ⟨hI, hin⟩ h
  · rintro w readBuf lastActive ⟨hI, hin⟩
    exact ⟨rule.receive w readBuf lastActive hI, hin.quiet (quiet_setConn rfl rfl rfl) rfl⟩
  · rintro w pkt w' ⟨hI, hin⟩ hpkt
    exact ⟨rule.packet w pkt w' hin hI hpkt, hin.handlePacket hpkt⟩
  · rintro w ⟨hI, hin⟩
    exact ⟨rule.close w hin hI, hin.close⟩

theorem onWrite
    (rule : EventRule J c I) (hin : Within c w) (hI : I w) (results : List SendResult) :
    I (onWrite (callbacks J) c w results) ∧ Within c (onWrite (callbacks J) c w results) := by
  refine onWrite_keeps (I := fun w => I w ∧ Within c w) ?_ ?_ ?_ results ⟨hI, hin⟩
  · rintro w n ⟨hI, hin⟩
    exact ⟨rule.wrote w n hI, hin.quiet (wrote_writes w c n).quiet rfl⟩
  · rintro w hempty ⟨hI, hin⟩
    exact ⟨rule.flushed w hin hempty hI, hin.quiet (stopWriting_writes w c _ _).quiet rfl⟩
  · rintro w ⟨hI, hin⟩
    exact ⟨rule.close w hin hI, hin.close⟩

/-- An event of the connection. -/
theorem handleEvent
    (rule : EventRule J c I) (hin : Within c w) (hI : I w) {fd : Fd} {events : Ready}
    {s : Input} {results : List SendResult} (hc : w.reactor.contexts fd = some c)
    (h : handleEvent (callbacks J) w fd events s results = .ok w') :
    I w' := by
  refine (handleEvent_keeps (I := fun w => I w ∧ Within c w) hc ?_ ?_ (fun _ => ⟨hI, hin⟩) h).1
  · intro w₁ _ hread
    exact rule.onRead hin hI hread
  · rintro w ⟨hI, hin⟩
    exact rule.onWrite hin hI results

end EventRule

/-- The connections that a tick closes are under watch when they are closed. -/
theorem tick_keeps
    {J : JsonLib} {I : Chat → Prop} {w : Chat}
    (hclose : ∀ w c, Within c w → I w → I (close (closeCallback J) w c)) (timeoutSec : Int)
    (hs : Sessions w) (hw : Wired w) (hI : I w) :
    I (ConnectionManager.tick (closeCallback J) w timeoutSec) := by
  have hmem : ∀ c ∈ ConnectionManager.toClose w timeoutSec, c ∈ w.env.managed :=
    fun c hc => List.mem_of_mem_filter hc
  have hnodup : (ConnectionManager.toClose w timeoutSec).Nodup := w.env.managed.nodup.filter _
  unfold ConnectionManager.tick
  generalize ConnectionManager.toClose w timeoutSec = cs at hmem hnodup ⊢
  induction cs generalizing w with
  | nil =>
      exact hI
  | cons c cs ih =>
      rw [List.forall_mem_cons] at hmem
      obtain ⟨hnew, hnodup⟩ := List.nodup_cons.mp hnodup
      have hin := within_of_registered hs hw (hw.watched c hmem.1)
      refine ih (hin.close (J := J)).sessions hin.close.wired (hclose w c hin hI) ?_ hnodup
      intro d hd
      by_cases hclosed : (w.conns c).state = .CLOSED
      · rw [Tcp.close, if_pos hclosed]
        exact hmem.2 d hd
      · rw [(close_closes J hclosed).managed, UnorderedSet.mem_erase]
        refine ⟨?_, hmem.2 d hd⟩
        rintro rfl
        exact hnew hd

/-- What the callbacks of the server keep. -/
structure CallbackRule (J : JsonLib) (I : Chat → Prop) : Prop where
  receive : ∀ w c readBuf lastActive, I w →
    I (w.setConn c { w.conns c with readBuf := readBuf, lastActive := lastActive })
  packet : ∀ w c pkt w', Within c w → I w → handlePacket (callbacks J) w c pkt = .ok w' → I w'
  close : ∀ w c, Within c w → I w → I (close (closeCallback J) w c)
  wrote : ∀ w c n, I w → I (wrote w c n)
  flushed : ∀ w c, Within c w → (w.conns c).writeBuf.readableBytes = 0 → I w →
    I ((w.modifyFd (w.conns c).fd EPOLLIN).setConn c { w.conns c with writing := false })
  accept : ∀ w fd w', Sessions w → Wired w → w.openFds fd = false → I w →
    accept w fd = .ok w' → I w'
  clock : ∀ w now, I w → I { w with now := now }

namespace CallbackRule

variable {J : JsonLib} {I : Chat → Prop} {w w' : Chat}

theorem event
    (rule : CallbackRule J I) (c : ConnId) :
    EventRule J c I where
  receive w := rule.receive w c
  packet w := rule.packet w c
  close w := rule.close w c
  wrote w := rule.wrote w c
  flushed w := rule.flushed w c

/-- A step of the server. -/
theorem step
    (rule : CallbackRule J I) (hs : Sessions w) (hw : Wired w) (hI : I w) {event : Event}
    (hstep : Tcp.step J w event = .ok w') :
    I w' := by
  cases event with
  | accept fd =>
      rw [Tcp.step] at hstep
      split at hstep
      · cases hstep
        exact hI
      · next hnew =>
          exact rule.accept w fd w' hs hw (Bool.eq_false_iff.mpr hnew) hI hstep
  | ready fd events input sends =>
      cases hc : w.reactor.contexts fd with
      | none =>
          rw [Tcp.step, handleEvent, hc] at hstep
          cases hstep
          exact hI
      | some c =>
          exact (rule.event c).handleEvent (within_of_registered hs hw hc) hI hc hstep
  | tick =>
      cases hstep
      exact tick_keeps rule.close 30 hs hw hI
  | clock now =>
      cases hstep
      exact rule.clock w now hI

/-- What the callbacks keep holds in every state that the server reaches. -/
theorem run
    (rule : CallbackRule J I) (hI : I initial) {events : List Event}
    (hrun : runServer J events = .ok w) :
    I w := by
  have hfinal : (Sessions w ∧ Wired w) ∧ I w := by
    refine Runs.run_invariant (I := fun w => (Sessions w ∧ Wired w) ∧ I w) ?_
      ⟨⟨sessions_initial, wired_initial⟩, hI⟩ hrun
    rintro w event w' ⟨⟨hs, hw⟩, hI⟩ hstep
    exact ⟨⟨hs.step hstep, hw.step hs.toTablesAllocated hstep⟩, rule.step hs hw hI hstep⟩
  exact hfinal.2

end CallbackRule

/-- What the operations of the server keep. -/
structure OperationRule (J : JsonLib) (I : Chat → Prop) : Prop where
  users : ∀ w, I w → ∀ d ∈ recipients w.env.users, d < w.allocated
  receive : ∀ w c readBuf lastActive, I w →
    I (w.setConn c { w.conns c with readBuf := readBuf, lastActive := lastActive })
  packet : ∀ w c pkt, I w → I (w.note (.packet c pkt))
  send : ∀ w c pkt, I w → c < w.allocated → I (send w c pkt)
  login : ∀ w c pkt name, I w → c < w.allocated → LogsInAs J w c pkt name →
    I (loggedIn w c name)
  remove : ∀ w c, I w → I (UserManager.remove w c)
  detach : ∀ w c, I w → I ((w.removeFd (w.conns c).fd).note (.closed c))
  release : ∀ w c, I w → w.reactor.contexts (w.conns c).fd = none → I (released w c)
  wrote : ∀ w c n, I w → I (wrote w c n)
  flushed : ∀ w c, I w → Alone c w → (w.conns c).writeBuf.readableBytes = 0 →
    I ((w.modifyFd (w.conns c).fd EPOLLIN).setConn c { w.conns c with writing := false })
  accept : ∀ w fd w', I w → Sessions w → Wired w → w.openFds fd = false →
    accept w fd = .ok w' → I w'
  clock : ∀ w now, I w → I { w with now := now }

namespace OperationRule

variable {J : JsonLib} {I : Chat → Prop} {w w' : Chat} {c : ConnId} {pkt : Packet}

/-- What is sent to connections that exist. -/
theorem sendAll
    (rule : OperationRule J I) (hI : I w) {conns : List ConnId}
    (hconns : ∀ d ∈ conns, d < w.allocated) (pkt : Packet) :
    I (UserManager.sendAll w conns pkt) := by
  induction conns generalizing w with
  | nil =>
      exact hI
  | cons d conns ih =>
      rw [List.forall_mem_cons] at hconns
      refine ih (rule.send w d pkt hI hconns.1) ?_
      rw [(send_sends w d pkt).allocated]
      exact hconns.2

/-- An announcement goes to the users. -/
theorem announce
    (rule : OperationRule J I) (hI : I w) (text : String) :
    I (broadcastUserList J (broadcastSystem J w text)) := by
  have hsystem : I (broadcastSystem J w text) := rule.sendAll hI (rule.users w hI) _
  exact rule.sendAll hsystem (rule.users _ hsystem) _

/-- The close callback announces a user, and the connection is released. -/
theorem close
    (rule : OperationRule J I) (hI : I w) (c : ConnId) :
    I (close (closeCallback J) w c) := by
  by_cases hclosed : (w.conns c).state = .CLOSED
  · rw [Tcp.close, if_pos hclosed]
    exact hI
  · have hdetached := rule.detach w c hI
    have hnone : ((w.removeFd (w.conns c).fd).note (.closed c)).reactor.contexts
        (w.conns c).fd = none :=
      Function.update_self _ _ _
    obtain ⟨out, hout⟩ := onClose_effect J ((w.removeFd (w.conns c).fd).note (.closed c)) c
    have hcontexts := hout.contexts
    have hfd : ((onClose J ((w.removeFd (w.conns c).fd).note (.closed c)) c).conns c).fd =
        (w.conns c).fd := by
      rw [hout.conns]
      rfl
    have htold : I (onClose J ((w.removeFd (w.conns c).fd).note (.closed c)) c) := by
      unfold onClose
      split
      · exact hdetached
      · exact rule.announce (rule.remove _ c hdetached) _
    have hreleased := rule.release _ c htold (by rw [hfd, hcontexts]; exact hnone)
    rw [Tcp.close, if_neg hclosed]
    simpa [released, closeCallback, ConnectionManager.remove, World.setManaged, World.setConn,
      World.closeFd] using hreleased

/-- A packet of any type and body. -/
theorem handlePacket
    (rule : OperationRule J I) (hI : I w) (hlt : c < w.allocated)
    (hpkt : handlePacket (callbacks J) w c pkt = .ok w') :
    I w' := by
  have hnoted := rule.packet w c pkt hI
  have hack : ∀ ok err, I (sendAck J (w.note (.packet c pkt)) c ok err) :=
    fun ok err => rule.send _ c _ hnoted hlt
  have hcall : onPacket J (closeCallback J) (w.note (.packet c pkt)) c pkt = .ok w' := hpkt
  unfold onPacket at hcall
  split at hcall
  · -- MSG_LOGIN
    by_cases hlogs : ∃ name, LogsInAs J (w.note (.packet c pkt)) c pkt name
    · obtain ⟨name, hlogs⟩ := hlogs
      obtain ⟨hstate, hne, hfree, j, hj, hname⟩ := hlogs
      have hin := rule.login _ c pkt name hnoted hlt ⟨hstate, hne, hfree, j, hj, hname⟩
      have hacked := rule.send (loggedIn (w.note (.packet c pkt)) c name) c
        (ackPacket J true "") hin hlt
      simp only [handleLogin, if_neg hstate, hj, hname, Except.map, if_neg hne,
        UserManager.add, if_neg hfree, Except.ok.injEq] at hcall
      rw [← hcall]
      exact rule.announce hacked _
    · obtain ⟨err, -, rfl⟩ := handleLogin_refusal (not_exists.mp hlogs) hcall
      exact hack false err
  · -- MSG_CHAT
    unfold handleChat at hcall
    split at hcall
    · cases hcall
      exact hack false _
    · split at hcall
      · cases hcall
        exact hnoted
      · obtain ⟨content, -, hcall⟩ := Runs.map_eq_ok.mp hcall
        split at hcall
        · exact hcall ▸ hnoted
        · rw [← hcall]
          refine rule.sendAll hnoted (fun d hd => ?_) _
          exact rule.users _ hnoted d (List.mem_of_mem_filter hd)
  · -- MSG_PRIVATE
    unfold handlePrivate at hcall
    split at hcall
    · cases hcall
      exact hack false _
    · split at hcall
      · cases hcall
        exact hnoted
      · obtain ⟨to_, -, hcall⟩ := Runs.bind_eq_ok.mp hcall
        obtain ⟨content, -, hcall⟩ := Runs.map_eq_ok.mp hcall
        split at hcall
        · exact hcall ▸ hack false _
        · next target htarget =>
            have hmem : target ∈ recipients (w.note (.packet c pkt)).env.users :=
              List.mem_map.mpr ⟨⟨to_, target⟩, AList.mem_lookup_iff.mp htarget, rfl⟩
            rw [← hcall]
            exact rule.send _ target _ hnoted (rule.users _ hnoted target hmem)
  · -- MSG_USER_LIST
    cases hcall
    exact rule.send _ c _ hnoted hlt
  · -- MSG_PING
    cases hcall
    exact rule.send _ c _ hnoted hlt
  · -- MSG_LOGOUT
    cases hcall
    unfold handleLogOut
    split
    · exact hnoted
    · exact rule.close (rule.remove _ c hnoted) c
  · cases hcall
    exact hnoted

/-- A property that the operations keep is kept by the callbacks. -/
theorem callbacks
    (rule : OperationRule J I) :
    CallbackRule J I where
  receive := rule.receive
  packet _ _ _ _ hin hI hpkt := rule.handlePacket hI hin.allocated hpkt
  close _ c _ hI := rule.close hI c
  wrote := rule.wrote
  flushed w c hin hempty hI := rule.flushed w c hI hin.alone hempty
  accept w fd w' hs hw hnew hI := rule.accept w fd w' hI hs hw hnew
  clock := rule.clock

end OperationRule

end Tcp
end ChatRoom
