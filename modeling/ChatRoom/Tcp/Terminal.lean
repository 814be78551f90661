import ChatRoom.Tcp.Sessions

/-!
# Closed connections stay closed

`close` takes a connection out of the reactor, so nothing is read from it any
more.  But it may be called from a packet, by `handleLogOut`, while the decode
loop of `onRead` still has packets; the loop does not look at the state and goes
on, and a login among them brings the connection back.

As long as no read delivers a packet behind a logout (`Orderly`), `CLOSED` is
terminal.
-/

namespace ChatRoom
namespace Tcp

open Incremental Socket

/-- The entries of the history that must not follow the closing of `c`. -/
def Obs.Concerns (c : ConnId) : Obs → Prop
  | .packet c' _ => c' = c
  | .closed c' => c' = c
  | .registered c' _ => c' = c
  | _ => False

/-- Every connection that was closed is `CLOSED` and in no entry of the table of
users, and since it was closed it had no packet, was not entered under a name,
and was not closed again. -/
def ClosedIsTerminal (w : Chat) : Prop :=
  ∀ c past future, w.trace = past ++ .closed c :: future →
    (w.conns c).state = .CLOSED ∧
      (∀ name, w.env.users.lookup name ≠ some c) ∧
        ∀ o ∈ future, ¬ o.Concerns c

/-- A logout is the last of these packets. -/
def LogoutIsLast (pkts : List Packet) : Prop :=
  ∀ pkt pkts', pkt :: pkts' <:+ pkts → pkt.type = MessageType.MSG_LOGOUT.code → pkts' = []

/-- No read hands over a packet behind a logout: what is decoded are the packets
in the bytes left from the reads before and the bytes of this one, provided
these fit the buffer and the peer has not hung up. -/
def Orderly (w : Chat) : Event → Prop
  | .ready fd events input _ =>
      ∀ c, w.reactor.contexts fd = some c → (events.input ∨ events.failure) →
        input.idle = .again → input.pending.length ≤ (w.conns c).readBuf.writableBytes →
          LogoutIsLast
            (packetDecoder.drain ((w.conns c).readBuf.readable ++ input.pending)).items
  | _ => True

theorem LogoutIsLast.tail
    {pkt : Packet} {pkts : List Packet} (h : LogoutIsLast (pkt :: pkts)) :
    LogoutIsLast pkts := by
  intro pkt' pkts' hsuffix
  exact h pkt' pkts' (hsuffix.trans (List.suffix_cons pkt pkts))

theorem LogoutIsLast.head
    {pkt : Packet} {pkts : List Packet} (h : LogoutIsLast (pkt :: pkts))
    (htype : pkt.type = MessageType.MSG_LOGOUT.code) :
    pkts = [] := by
  exact h pkt pkts (List.suffix_refl _) htype

/-- A history in which nothing concerns a connection after it was closed. -/
def Obs.AfterClose (past : List Obs) (o : Obs) : Prop :=
  ∀ c, o.Concerns c → .closed c ∉ past

/-- The invariant: what was closed is `CLOSED`, what is registered is open. -/
structure Terminal (w : Chat) : Prop where
  closed : ∀ c, .closed c ∈ w.trace → (w.conns c).state = .CLOSED
  history : Runs.Justified Obs.AfterClose w.trace
  registered : ∀ fd c, w.reactor.contexts fd = some c →
    (w.conns c).fd = fd ∧ (w.conns c).state ≠ .CLOSED

section Preservation

variable {J : JsonLib} {w w' : Chat} {c : ConnId}

theorem Obs.Silent.afterClose
    {o : Obs} (ho : o.Silent) (past : List Obs) :
    o.AfterClose past := by
  intro c hc
  cases o <;> first | exact hc.elim | exact ho.elim

theorem Obs.Silent.ne_closed
    {o : Obs} (ho : o.Silent) (c : ConnId) :
    o ≠ .closed c := by
  rintro rfl
  exact ho

theorem terminal_initial :
    Terminal initial where
  closed := by
    intro c h
    cases h
  history := Runs.justified_nil
  registered := by
    intro fd c h
    simp [initial, World.init, Reactor.new] at h

theorem Terminal.quiet
    (h : Terminal w) (hq : Quiet w w') :
    Terminal w' := by
  obtain ⟨more, htrace, hmore⟩ := hq.trace
  constructor
  case closed =>
    intro c hc
    rw [htrace, List.mem_append] at hc
    rw [hq.state]
    rcases hc with hc | hc
    · exact h.closed c hc
    · exact absurd rfl ((hmore _ hc).ne_closed c)
  case history =>
    rw [htrace]
    exact h.history.append fun o ho => (hmore o ho).afterClose
  case registered =>
    intro fd c hc
    rw [hq.contexts] at hc
    rw [hq.fd, hq.state]
    exact h.registered fd c hc

/-- An entry about a connection that is open. -/
theorem Terminal.note
    (h : Terminal w) {o : Obs} (hopen : ∀ c, o.Concerns c → (w.conns c).state ≠ .CLOSED)
    (ho : ∀ c, o ≠ .closed c) :
    Terminal (w.note o) where
  closed c hc := by
    rcases List.mem_append.mp hc with hc | hc
    · exact h.closed c hc
    · exact absurd (List.mem_singleton.mp hc).symm (ho c)
  history := h.history.snoc fun c hc hclosed => hopen c hc (h.closed c hclosed)
  registered := h.registered

theorem Terminal.close
    (h : Terminal w) (c : ConnId) :
    Terminal (close (closeCallback J) w c) := by
  by_cases hopen : (w.conns c).state = .CLOSED
  · rw [Tcp.close, if_pos hopen]
    exact h
  · have hcl := close_closes J hopen
    obtain ⟨more, htrace, hmore⟩ := hcl.trace
    constructor
    case closed =>
      intro d hd
      rw [hcl.conns d]
      rw [htrace, List.mem_append, List.mem_cons] at hd
      by_cases hdc : d = c
      · exact if_pos hdc
      · simp only [if_neg hdc]
        rcases hd with hd | hd | hd
        · exact h.closed d hd
        · cases hd
          exact absurd rfl hdc
        · exact absurd rfl ((hmore _ hd).ne_closed d)
    case history =>
      rw [htrace, List.append_cons]
      refine (h.history.snoc ?_).append fun o ho => (hmore o ho).afterClose
      rintro d rfl hd
      exact hopen (h.closed _ hd)
    case registered =>
      intro fd d hd
      rw [hcl.contexts, Function.update_apply] at hd
      split at hd
      · cases hd
      · next hfd =>
          obtain ⟨hfd', hstate⟩ := h.registered fd d hd
          have hdc : d ≠ c := by
            rintro rfl
            exact hfd hfd'.symm
          rw [hcl.conns d]
          simp only [if_neg hdc]
          exact ⟨hfd', hstate⟩

theorem Terminal.login
    (h : Terminal w) (hopen : (w.conns c).state ≠ .CLOSED) (name : String) :
    Terminal (loggedIn w c name) := by
  have hnote : Terminal (w.note (.registered c name)) := by
    refine h.note ?_ ?_
    · rintro d rfl
      exact hopen
    · intro d heq
      cases heq
  have hconn : ∀ d, (loggedIn w c name).conns d =
      if d = c then { w.conns c with username := name, state := .AUTHENTICATED }
      else w.conns d := by
    intro d
    exact Function.update_apply _ _ _ _
  constructor
  case closed =>
    intro d hd
    have hclosed := hnote.closed d hd
    have hdc : d ≠ c := by
      rintro rfl
      exact hopen hclosed
    rw [hconn, if_neg hdc]
    exact hclosed
  case history =>
    exact hnote.history
  case registered =>
    intro fd d hd
    obtain ⟨hfd, hstate⟩ := h.registered fd d hd
    rw [hconn]
    split
    · next hdc =>
        subst hdc
        exact ⟨hfd, by simp⟩
    · exact ⟨hfd, hstate⟩

theorem Terminal.accept
    (h : Terminal w) (hs : Sessions w) {fd : Fd} (haccept : accept w fd = .ok w') :
    Terminal w' := by
  have hacc := accept_accepts haccept
  constructor
  case closed =>
    intro c hc
    rw [hacc.trace] at hc
    have hclosed := h.closed c hc
    have hne : c ≠ w.allocated := by
      rintro rfl
      rw [hs.fresh w.allocated le_rfl] at hclosed
      cases hclosed
    rw [hacc.conns, Function.update_of_ne hne]
    exact hclosed
  case history =>
    rw [hacc.trace]
    exact h.history
  case registered =>
    intro fd' c hc
    rw [hacc.contexts, Function.update_apply] at hc
    rw [hacc.conns]
    split at hc
    · next hfd =>
        cases hc
        rw [Function.update_self, hfd]
        exact ⟨rfl, by simp [Connection.new]⟩
    · have hlt := hs.registered fd' c hc
      rw [Function.update_of_ne (Nat.ne_of_lt hlt)]
      exact h.registered fd' c hc

/-- The decode loop has packets to come for a connection that is open, or none. -/
structure Decoding (c : ConnId) (pkts : List Packet) (w : Chat) : Prop where
  terminal : Terminal w
  sessions : Sessions w
  allocated : c < w.allocated
  opened : (w.conns c).state ≠ .CLOSED ∨ pkts = []
  orderly : LogoutIsLast pkts

theorem Decoding.quiet
    {pkts : List Packet} (h : Decoding c pkts w) (hq : Quiet w w') :
    Decoding c pkts w' where
  terminal := h.terminal.quiet hq
  sessions := h.sessions.quiet hq
  allocated := hq.allocated ▸ h.allocated
  opened := by
    rw [hq.state]
    exact h.opened
  orderly := h.orderly

/-- One turn of the decode loop: only a logout closes the connection, and then
no packet is left. -/
theorem Decoding.handlePacket
    {pkt : Packet} {pkts : List Packet} (h : Decoding c (pkt :: pkts) w)
    (hpkt : handlePacket (callbacks J) w c pkt = .ok w') :
    Decoding c pkts w' := by
  obtain ⟨hsessions, hlt⟩ := h.sessions.handlePacket h.allocated hpkt
  have hopen : (w.conns c).state ≠ .CLOSED := h.opened.resolve_right (List.cons_ne_nil _ _)
  have hnote : Terminal (w.note (.packet c pkt)) := by
    refine h.terminal.note ?_ ?_
    · rintro d rfl
      exact hopen
    · intro d heq
      cases heq
  cases onPacket_effect hpkt with
  | sends out hout =>
      refine ⟨hnote.quiet hout.quiet, hsessions, hlt, .inl ?_, h.orderly.tail⟩
      rw [hout.quiet.state]
      exact hopen
  | login name out hstate hfree hout =>
      refine ⟨(hnote.login hopen name).quiet hout.quiet, hsessions, hlt, .inl ?_,
        h.orderly.tail⟩
      rw [hout.quiet.state]
      simp [loggedIn, setUsername, World.setConn]
  | logout htype hstate =>
      have hremove : Terminal (UserManager.remove (w.note (.packet c pkt)) c) :=
        ⟨hnote.closed, hnote.history, hnote.registered⟩
      exact ⟨hremove.close c, hsessions, hlt, .inr (h.orderly.head htype), h.orderly.tail⟩

/-- A connection that is registered is read without being brought back. -/
theorem Terminal.onRead
    (h : Terminal w) (hs : Sessions w) {fd : Fd} (hc : w.reactor.contexts fd = some c)
    {s : Input}
    (horderly : s.idle = .again → s.pending.length ≤ (w.conns c).readBuf.writableBytes →
      LogoutIsLast (packetDecoder.drain ((w.conns c).readBuf.readable ++ s.pending)).items)
    (hread : onRead (callbacks J) w c s = .ok w') :
    Terminal w' := by
  have hopen := (h.registered fd c hc).2
  have hlt := hs.registered fd c hc
  have hend := quiet_recvLoop w c (s.pending.length + 1) s
  refine (onRead_invariant (I := Decoding c) (fun w pkt w' hpkt => readBuf_onPacket hpkt c)
    ?_ ?_ ?_ ?_ ?_ hread).terminal
  · intro pkts w n hw
    exact hw.quiet (quiet_consume w c n)
  · intro pkt pkts w w' hw hpkt
    exact hw.handlePacket hpkt
  · intro w hw
    exact
      { terminal := hw.terminal.close c
        sessions := hw.sessions.close hw.allocated
        allocated := (allocated_close J w c).symm ▸ hw.allocated
        opened := .inr rfl
        orderly := hw.orderly }
  · intro conn hloop
    rw [hloop] at hend
    have hnil : Decoding c [] w :=
      ⟨h, hs, hlt, .inr rfl, fun pkt pkts' hsuffix => by simp at hsuffix⟩
    exact hnil.quiet hend
  · intro conn hloop
    rw [hloop] at hend
    have hidle : s.idle = .again := by
      by_contra hne
      have hhang := recvLoop_hangup w.now (w.conns c) hne (Nat.lt_succ_self _)
      rw [hloop] at hhang
      cases hhang
    have hfits : s.pending.length ≤ (w.conns c).readBuf.writableBytes := by
      by_contra hover
      have hhang := recvLoop_overflows w.now (w.conns c) (s := s)
        (Nat.lt_succ_self _) (by omega)
      rw [hloop] at hhang
      cases hhang
    obtain ⟨-, hreadable, -, -⟩ :=
      recvLoop_fits w.now (w.conns c) hidle (Nat.lt_succ_self _) hfits
    rw [hloop] at hreadable
    have hstart : Decoding c (packetDecoder.drain conn.readBuf.readable).items w := by
      refine ⟨h, hs, hlt, .inl hopen, ?_⟩
      rw [hreadable]
      exact horderly hidle hfits
    exact hstart.quiet hend

theorem Terminal.step
    (h : Terminal w) (hs : Sessions w) {event : Event} (horderly : Orderly w event)
    (hstep : step J w event = .ok w') :
    Terminal w' := by
  refine step_invariant (I := Terminal) hs.toTablesAllocated
    (fun c w w' hw hwrites => hw.quiet hwrites.quiet) (fun w c hw _ => hw.close c)
    (fun fd w' => h.accept hs) ?_ (fun now => h.quiet (quiet_clock w now)) h hstep
  rintro fd events input sends c w' rfl hc hin hread
  refine ⟨h.onRead hs hc (horderly c hc hin) hread, ?_⟩
  exact (hs.onRead (hs.registered fd c hc) hread).2

/-- The invariants give the property. -/
theorem Terminal.closedIsTerminal
    (h : Terminal w) (hs : Sessions w) :
    ClosedIsTerminal w := by
  intro c past future htrace
  have hclosed : (w.conns c).state = .CLOSED := by
    apply h.closed
    rw [htrace]
    simp
  refine ⟨hclosed, ?_, ?_⟩
  · intro name hname
    have hstate := ((hs.table name c).mp hname).1
    rw [hclosed] at hstate
    cases hstate
  · intro o ho hconcerns
    obtain ⟨front, back, rfl⟩ := List.append_of_mem ho
    have hsplit : w.trace = (past ++ .closed c :: front) ++ o :: back := by
      rw [htrace]
      simp
    exact h.history _ o _ hsplit c hconcerns (by simp)

end Preservation

section OrderlyRuns

/-- In every run whose steps are all orderly, `CLOSED` is terminal in every
state the server reaches. -/
theorem closedIsTerminal_of_orderly
    {J : JsonLib} {events : List Event} {w : Chat}
    (horderly : Runs.Meets Orderly (step J) initial events)
    (hrun : runServer J events = .ok w) :
    ClosedIsTerminal w := by
  have h : Terminal w ∧ Sessions w := by
    refine Runs.run_invariant_of_meets (I := fun w => Terminal w ∧ Sessions w) ?_
      ⟨terminal_initial, sessions_initial⟩ horderly hrun
    rintro w event w' ⟨ht, hs⟩ hC hstep
    exact ⟨ht.step hs hC hstep, hs.step hstep⟩
  exact h.1.closedIsTerminal h.2

def logoutPacket : Packet where
  type := MessageType.MSG_LOGOUT.code
  body := []

/-- A connection logs out. -/
def logoutRun : List Event :=
  [.accept 5, arrive (encode logoutPacket)]

theorem logoutRun_orderly :
    Runs.Meets Orderly (step sampleJson) initial logoutRun := by
  refine ⟨trivial, ?_⟩
  intro w hw
  have hacc : Accepts 5 initial w := accept_accepts hw
  refine ⟨?_, fun _ _ => trivial⟩
  intro c hc _ _ _
  rw [hacc.contexts, Function.update_self, Option.some.injEq] at hc
  subst hc
  have hdrain : packetDecoder.drain ([] ++ encode logoutPacket) =
      { items := [logoutPacket], unread := [], failed := false } := by
    have h := Decoder.drain_flatMap [logoutPacket]
      (fun p hp => decode_encode (by cases List.mem_singleton.mp hp; decide)) []
    rw [Decoder.drain_wait (d := packetDecoder) [] rfl] at h
    simpa using h
  have hread : (w.conns initial.allocated).readBuf.readable = [] := by
    rw [hacc.conns, Function.update_self]
    exact Buffer.readable_new
  rw [hread]
  show LogoutIsLast (packetDecoder.drain ([] ++ encode logoutPacket)).items
  rw [hdrain]
  intro pkt pkts' hsuffix _
  have hlen := hsuffix.length_le
  simp only [List.length_cons, List.length_nil] at hlen
  exact List.length_eq_zero_iff.mp (by omega)

theorem logoutRun_closed :
    ∃ w, runServer sampleJson logoutRun = .ok w ∧ .closed 0 ∈ w.trace := by
  obtain ⟨w, hrun, hw⟩ := Runs.exists_ok_of_any
    (runServer sampleJson logoutRun) (fun w => .closed 0 ∈ w.trace)
    (by decide +kernel)
  exact ⟨w, hrun, of_decide_eq_true hw⟩

theorem closedIsTerminal_logoutRun :
    ∃ w, runServer sampleJson logoutRun = .ok w ∧ .closed 0 ∈ w.trace ∧ ClosedIsTerminal w := by
  obtain ⟨w, hrun, hw⟩ := logoutRun_closed
  exact ⟨w, hrun, hw, closedIsTerminal_of_orderly logoutRun_orderly hrun⟩

/-- A logout and a login in one read: the connection is closed, and then logged
in and entered in the table of users. -/
theorem logout_login_revives :
    ∃ w, runServer sampleJson
        [.accept 5, arrive (encode logoutPacket ++ encode loginPacket)] = .ok w ∧
      w.env.users.lookup "a" = some 0 ∧ ¬ ClosedIsTerminal w := by
  obtain ⟨w, hrun, hw⟩ := Runs.exists_ok_of_any
    (runServer sampleJson [.accept 5, arrive (encode logoutPacket ++ encode loginPacket)])
    (fun w => .closed 0 ∈ w.trace ∧ w.env.users.lookup "a" = some 0)
    (by decide +kernel)
  obtain ⟨hclosed, hname⟩ := of_decide_eq_true hw
  refine ⟨w, hrun, hname, ?_⟩
  intro h
  obtain ⟨past, future, htrace⟩ := List.append_of_mem hclosed
  exact (h 0 past future htrace).2.1 "a" hname

end OrderlyRuns

end Tcp
end ChatRoom
