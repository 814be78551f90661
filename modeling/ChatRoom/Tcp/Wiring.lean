import ChatRoom.Tcp.Sessions

/-!
# Connections and their descriptors

A connection under watch is registered under its descriptor, and a connection that
has not logged in is under watch (`Wired`).  This holds between two events and, as
packets are handled in the middle of an event, also wherever a packet may be handed
over (`Reached`).  A connection that logs in after it was closed is registered
nowhere; within its own event nobody else can have its descriptor (`Alone`).
-/

namespace ChatRoom
namespace Tcp

open Incremental Socket

variable {ε : Type}

/-- The connections are registered under their descriptors, which are open; those under watch
are registered, and those that have not logged in are under watch. -/
structure Wired (w : Chat) : Prop where
  owner : ∀ fd c, w.reactor.contexts fd = some c → (w.conns c).fd = fd
  live : ∀ fd c, w.reactor.contexts fd = some c → w.openFds fd = true
  watched : ∀ c ∈ w.env.managed, w.reactor.contexts (w.conns c).fd = some c
  connecting : ∀ c < w.allocated, (w.conns c).state = .CONNECTING → c ∈ w.env.managed

/-- No other connection is registered under the descriptor of `c`. -/
def Alone (c : ConnId) (w : Chat) : Prop :=
  ∀ d, w.reactor.contexts (w.conns c).fd = some d → d = c

section Wired

variable {J : JsonLib} {w w' : Chat} {c : ConnId} {pkt : Packet}

theorem wired_initial :
    Wired initial where
  owner fd c h := by
    cases h
  live fd c h := by
    cases h
  watched c h := absurd h (UnorderedSet.not_mem_empty c)
  connecting c h := absurd h (Nat.not_lt_zero c)

theorem Wired.quiet
    (h : Wired w) (hq : Quiet w w') (hfds : w'.openFds = w.openFds) :
    Wired w' where
  owner := by
    intro fd c hc
    rw [hq.contexts] at hc
    rw [hq.fd]
    exact h.owner fd c hc
  live := by
    rw [hq.contexts, hfds]
    exact h.live
  watched := by
    intro c hc
    rw [hq.env] at hc
    rw [hq.fd, hq.contexts]
    exact h.watched c hc
  connecting := by
    intro c hlt hstate
    rw [hq.allocated] at hlt
    rw [hq.state] at hstate
    rw [hq.env]
    exact h.connecting c hlt hstate

theorem Alone.quiet
    (h : Alone c w) (hq : Quiet w w') :
    Alone c w' := by
  intro d hd
  rw [hq.fd, hq.contexts] at hd
  exact h d hd

/-- A connection that is registered has its descriptor for itself. -/
theorem alone_of_registered
    (h : w.reactor.contexts (w.conns c).fd = some c) :
    Alone c w := by
  intro d hd
  exact (Option.some.inj (h.symm.trans hd)).symm

theorem Wired.loggedIn
    (h : Wired w) (c : ConnId) (name : String) :
    Wired (loggedIn w c name) := by
  have hconn : ∀ d, ((Tcp.loggedIn w c name).conns d).fd = (w.conns d).fd ∧
      (((Tcp.loggedIn w c name).conns d).state = .CONNECTING →
        (w.conns d).state = .CONNECTING) := by
    intro d
    by_cases hd : d = c
    · subst hd
      simp [Tcp.loggedIn, setUsername, World.setConn, World.note, World.setUsers]
    · simp [Tcp.loggedIn, setUsername, World.setConn, World.note, World.setUsers, hd]
  constructor
  case owner =>
    intro fd d hd
    rw [(hconn d).1]
    exact h.owner fd d hd
  case live =>
    exact h.live
  case watched =>
    intro d hd
    rw [(hconn d).1]
    exact h.watched d hd
  case connecting =>
    intro d hlt hstate
    exact h.connecting d hlt ((hconn d).2 hstate)

theorem Alone.loggedIn
    (h : Alone c w) (name : String) :
    Alone c (loggedIn w c name) := by
  intro d hd
  have hfd : ((Tcp.loggedIn w c name).conns c).fd = (w.conns c).fd := by
    simp [Tcp.loggedIn, setUsername, World.setConn, World.note, World.setUsers]
  rw [hfd] at hd
  exact h d hd

/-- Closing a connection that has its descriptor for itself unregisters nobody else. -/
theorem Wired.close
    (h : Wired w) (halone : Alone c w) :
    Wired (close (closeCallback J) w c) := by
  by_cases hclosed : (w.conns c).state = .CLOSED
  · rw [Tcp.close, if_pos hclosed]
    exact h
  · have hcl := close_closes J hclosed
    have hother : ∀ fd d, (Tcp.close (closeCallback J) w c).reactor.contexts fd = some d →
        fd ≠ (w.conns c).fd ∧ w.reactor.contexts fd = some d := by
      intro fd d hd
      rw [hcl.contexts, Function.update_apply] at hd
      split at hd
      · cases hd
      · next hne =>
          exact ⟨hne, hd⟩
    constructor
    case owner =>
      intro fd d hd
      rw [hcl.conns d]
      exact h.owner fd d (hother fd d hd).2
    case live =>
      intro fd d hd
      obtain ⟨hne, hd⟩ := hother fd d hd
      rw [hcl.openFds, Function.update_of_ne hne]
      exact h.live fd d hd
    case watched =>
      intro d hd
      obtain ⟨hne, hd⟩ := UnorderedSet.mem_erase.mp (hcl.managed ▸ hd)
      have hregistered := h.watched d hd
      have hfd : (w.conns d).fd ≠ (w.conns c).fd :=
        fun heq => hne (halone d (heq ▸ hregistered))
      rw [hcl.conns d, hcl.contexts, Function.update_of_ne hfd]
      exact hregistered
    case connecting =>
      intro d hlt hstate
      rw [hcl.allocated] at hlt
      rw [hcl.conns d] at hstate
      by_cases hd : d = c
      · simp [hd] at hstate
      · simp only [if_neg hd] at hstate
        rw [hcl.managed, UnorderedSet.mem_erase]
        exact ⟨hd, h.connecting d hlt hstate⟩

theorem Alone.close
    (h : Alone c w) :
    Alone c (close (closeCallback J) w c) := by
  by_cases hclosed : (w.conns c).state = .CLOSED
  · rw [Tcp.close, if_pos hclosed]
    exact h
  · have hcl := close_closes J hclosed
    intro d hd
    rw [hcl.conns c, hcl.contexts, Function.update_self] at hd
    cases hd

/-- A packet of any type and body keeps the connections wired. -/
theorem Wired.handlePacket
    (h : Wired w) (halone : Alone c w)
    (hpkt : handlePacket (callbacks J) w c pkt = .ok w') :
    Wired w' ∧ Alone c w' := by
  have hnote : Wired (w.note (.packet c pkt)) := ⟨h.owner, h.live, h.watched, h.connecting⟩
  have halone : Alone c (w.note (.packet c pkt)) := halone
  cases onPacket_effect hpkt with
  | sends out hout =>
      exact ⟨hnote.quiet hout.quiet hout.openFds, halone.quiet hout.quiet⟩
  | login name out hstate hfree hout =>
      exact ⟨(hnote.loggedIn c name).quiet hout.quiet hout.openFds,
        (halone.loggedIn name).quiet hout.quiet⟩
  | logout htype hstate =>
      have hremove : Wired (UserManager.remove (w.note (.packet c pkt)) c) :=
        ⟨hnote.owner, hnote.live, hnote.watched, hnote.connecting⟩
      have halone : Alone c (UserManager.remove (w.note (.packet c pkt)) c) := halone
      exact ⟨hremove.close halone, halone.close⟩

theorem Wired.accept
    (h : Wired w) (htables : TablesAllocated w) {fd : Fd} (hnew : w.openFds fd = false)
    (hacc : accept w fd = .ok w') :
    Wired w' := by
  have hopen : w'.openFds = Function.update w.openFds fd true := by
    obtain ⟨w₁, hstart, rfl⟩ := Runs.map_eq_ok.mp hacc
    obtain ⟨r, -, rfl⟩ := Runs.map_eq_ok.mp hstart
    rfl
  have hacc := accept_accepts hacc
  have hlive : ∀ fd' d, w.reactor.contexts fd' = some d → fd' ≠ fd := by
    rintro fd' d hd rfl
    rw [h.live fd' d hd] at hnew
    cases hnew
  have hold : ∀ d < w.allocated, w'.conns d = w.conns d := by
    intro d hd
    rw [hacc.conns, Function.update_of_ne (Nat.ne_of_lt hd)]
  have hself : w'.conns w.allocated = Connection.new fd w.now := by
    rw [hacc.conns, Function.update_self]
  constructor
  case owner =>
    intro fd' d hd
    rw [hacc.contexts, Function.update_apply] at hd
    split at hd
    · next heq =>
        cases hd
        rw [hself, heq]
        rfl
    · rw [hold d (htables.registered fd' d hd)]
      exact h.owner fd' d hd
  case live =>
    intro fd' d hd
    rw [hacc.contexts, Function.update_apply] at hd
    rw [hopen, Function.update_apply]
    split
    · rfl
    · next hne =>
        rw [if_neg hne] at hd
        exact h.live fd' d hd
  case watched =>
    intro d hd
    rw [hacc.managed, UnorderedSet.mem_insert] at hd
    rcases hd with rfl | hd
    · rw [hself, hacc.contexts]
      exact Function.update_self _ _ _
    · have hregistered := h.watched d hd
      rw [hold d (htables.managed d hd), hacc.contexts,
        Function.update_of_ne (hlive _ d hregistered)]
      exact hregistered
  case connecting =>
    intro d hlt hstate
    rw [hacc.allocated] at hlt
    rw [hacc.managed, UnorderedSet.mem_insert]
    by_cases hd : d = w.allocated
    · exact .inl hd
    · have hlt : d < w.allocated := by omega
      rw [hold d hlt] at hstate
      exact .inr (h.connecting d hlt hstate)

/-- Handling an event of a connection keeps the connections wired. -/
theorem Wired.handleEvent
    (h : Wired w) {fd : Fd} {events : Ready} {s : Input} {results : List SendResult}
    (hok : handleEvent (callbacks J) w fd events s results = .ok w') :
    Wired w' := by
  cases hc : w.reactor.contexts fd with
  | none =>
      rw [Tcp.handleEvent, hc] at hok
      cases hok
      exact h
  | some c =>
      have halone : Alone c w := by
        refine alone_of_registered ?_
        rw [h.owner fd c hc, hc]
      have hclose : ∀ w, Wired w ∧ Alone c w →
          Wired (Tcp.close (closeCallback J) w c) ∧ Alone c (Tcp.close (closeCallback J) w c) :=
        fun w h => ⟨h.1.close h.2, h.2.close⟩
      have hquiet : ∀ w w', Quiet w w' → w'.openFds = w.openFds → Wired w ∧ Alone c w →
          Wired w' ∧ Alone c w' :=
        fun w w' hq hfds h => ⟨h.1.quiet hq hfds, h.2.quiet hq⟩
      refine (handleEvent_keeps (I := fun w => Wired w ∧ Alone c w) hc ?_ ?_
        (fun _ => ⟨h, halone⟩) hok).1
      · intro w₁ _ hread
        refine onRead_keeps (I := fun w => Wired w ∧ Alone c w) ?_ ?_ hclose ⟨h, halone⟩ hread
        · intro w readBuf lastActive hw
          exact hquiet w _ (quiet_setConn rfl rfl rfl) rfl hw
        · intro w pkt w' hw hpkt
          exact hw.1.handlePacket hw.2 hpkt
      · intro w hw
        refine onWrite_keeps (I := fun w => Wired w ∧ Alone c w) ?_ ?_ hclose results hw
        · intro w n hw
          exact hquiet w _ (wrote_writes w c n).quiet rfl hw
        · intro w _ hw
          exact hquiet w _ (stopWriting_writes w c _ _).quiet rfl hw

/-- A tick closes connections that are under watch. -/
theorem Wired.tick
    (h : Wired w) (timeoutSec : Int) :
    Wired (ConnectionManager.tick (closeCallback J) w timeoutSec) := by
  have hmem : ∀ c ∈ ConnectionManager.toClose w timeoutSec, c ∈ w.env.managed :=
    fun c hc => List.mem_of_mem_filter hc
  have hnodup : (ConnectionManager.toClose w timeoutSec).Nodup := w.env.managed.nodup.filter _
  unfold ConnectionManager.tick
  generalize ConnectionManager.toClose w timeoutSec = cs at hmem hnodup ⊢
  induction cs generalizing w with
  | nil =>
      exact h
  | cons c cs ih =>
      obtain ⟨hnew, hnodup⟩ := List.nodup_cons.mp hnodup
      refine ih (h.close (alone_of_registered (h.watched c (hmem c List.mem_cons_self)))) ?_ hnodup
      intro d hd
      have hdw := hmem d (List.mem_cons_of_mem c hd)
      by_cases hclosed : (w.conns c).state = .CLOSED
      · rw [Tcp.close, if_pos hclosed]
        exact hdw
      · rw [(close_closes J hclosed).managed, UnorderedSet.mem_erase]
        exact ⟨fun heq => hnew (heq ▸ hd), hdw⟩

theorem Wired.step
    (h : Wired w) (htables : TablesAllocated w) {event : Event}
    (hstep : step J w event = .ok w') :
    Wired w' := by
  cases event with
  | accept fd =>
      rw [Tcp.step] at hstep
      split at hstep
      · cases hstep
        exact h
      · next hnew =>
          exact h.accept htables (Bool.eq_false_iff.mpr hnew) hstep
  | ready fd events input sends =>
      exact h.handleEvent hstep
  | tick =>
      cases hstep
      exact h.tick 30
  | clock now =>
      cases hstep
      exact h.quiet (quiet_clock w now) rfl

end Wired

section Reached

variable {J : JsonLib} {w : Chat} {c : ConnId}

/-- A state in the decode loop of `c`, after a number of turns. -/
def InDecodeLoop (J : JsonLib) (c : ConnId) (w : Chat) : Prop :=
  ∃ events w₀ fd s conn turns,
    runServer J events = .ok w₀ ∧ w₀.reactor.contexts fd = some c ∧
      recvLoop w₀.now (s.pending.length + 1) (w₀.conns c) s = (conn, .drained) ∧
        decodeLoop (callbacks J) c turns (w₀.setConn c conn) = .ok w

/-- A state that the server reaches: between two events, in the decode loop of a connection,
or when a packet is handed over. -/
inductive Reached (J : JsonLib) : Chat → Prop where
  | between {events : List Event} {w : Chat} (hrun : runServer J events = .ok w) :
      Reached J w
  | decoding {c : ConnId} {w : Chat} (hread : InDecodeLoop J c w) :
      Reached J w
  | handing {c : ConnId} {w : Chat} {n : Nat} {pkt : Packet} (hread : InDecodeLoop J c w)
      (hdec : packetDecoder.decode (w.conns c).readBuf.readable = .done n pkt) :
      Reached J ((consume w c n).note (.packet c pkt))

/-- Between two events the users agree with the sessions and the connections are wired. -/
theorem wired_run
    {events : List Event} (hrun : runServer J events = .ok w) :
    Sessions w ∧ Wired w :=
  Runs.run_invariant (I := fun w => Sessions w ∧ Wired w)
    (fun _ _ _ h hstep => ⟨h.1.step hstep, h.2.step h.1.toTablesAllocated hstep⟩)
    ⟨sessions_initial, wired_initial⟩ hrun

theorem wired_inDecodeLoop
    (hread : InDecodeLoop J c w) :
    Sessions w ∧ Wired w := by
  obtain ⟨events, w₀, fd, s, conn, turns, hrun, hc, hrecv, hloop⟩ := hread
  obtain ⟨hsessions, hwired⟩ := wired_run hrun
  have halone : Alone c w₀ := by
    refine alone_of_registered ?_
    rw [hwired.owner fd c hc, hc]
  have hreceived : Quiet w₀ (w₀.setConn c conn) := by
    have hq := quiet_recvLoop w₀ c (s.pending.length + 1) s
    rwa [hrecv] at hq
  have hlt : c < (w₀.setConn c conn).allocated := hsessions.registered fd c hc
  have hfinal : (Sessions w ∧ c < w.allocated) ∧ Wired w ∧ Alone c w := by
    refine decodeLoop_keeps
      (I := fun w => (Sessions w ∧ c < w.allocated) ∧ Wired w ∧ Alone c w) ?_ ?_ ?_
      ⟨⟨hsessions.quiet hreceived, hlt⟩, hwired.quiet hreceived rfl, halone.quiet hreceived⟩ hloop
    · rintro w n ⟨⟨hs, hlt⟩, hw, halone⟩
      have hq := quiet_consume w c n
      exact ⟨⟨hs.quiet hq, hlt⟩, hw.quiet hq rfl, halone.quiet hq⟩
    · rintro w pkt w' ⟨⟨hs, hlt⟩, hw, halone⟩ hpkt
      exact ⟨hs.handlePacket hlt hpkt, hw.handlePacket halone hpkt⟩
    · rintro w ⟨⟨hs, hlt⟩, hw, halone⟩
      exact ⟨⟨hs.close hlt, (allocated_close J w c).symm ▸ hlt⟩, hw.close halone, halone.close⟩
  exact ⟨hfinal.1.1, hfinal.2.1⟩

/-- So they are wherever a packet may be handed over. -/
theorem Reached.wired
    (h : Reached J w) :
    Sessions w ∧ Wired w := by
  cases h with
  | between hrun =>
      exact wired_run hrun
  | decoding hread =>
      exact wired_inDecodeLoop hread
  | @handing c w n pkt hread hdec =>
      obtain ⟨hsessions, hwired⟩ := wired_inDecodeLoop hread
      have hq := quiet_consume w c n
      have hconsumed := hwired.quiet hq rfl
      exact ⟨(hsessions.quiet hq).note _,
        ⟨hconsumed.owner, hconsumed.live, hconsumed.watched, hconsumed.connecting⟩⟩

end Reached

end Tcp
end ChatRoom
