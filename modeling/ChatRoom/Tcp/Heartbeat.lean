import ChatRoom.Tcp.Sessions

/-!
# What keeps a connection alive

`ConnectionManager::tick` closes the connections whose `lastActive_` is too old, and
`lastActive_` is set when a connection is made, when its peer sends, and when the socket
takes bytes for the peer.  `Activity` keeps these apart: with it, a tick can be compared
with what the peers have done (`tick_keeps_heard_iff`).
-/

namespace ChatRoom
namespace Tcp

open Socket

/-- What has kept a connection alive. -/
structure Activity where
  /-- when it was created, and when bytes of its peer were received, the latest first -/
  heard : List Int
  /-- when the socket last took bytes for the peer, if that was later than all of `heard` -/
  wrote : Option Int

/-- The first `recv` hands out bytes. -/
def Connection.hears (conn : Connection) (s : Input) : Bool :=
  match s.recv conn.readBuf.writableBytes with
  | (.data _ _ _, _) => true
  | _ => false

/-- The event brings bytes of the peer. -/
def hearsFrom (w : Chat) : Event → ConnId → Bool
  | .ready fd events input _, c =>
      decide (w.reactor.contexts fd = some c) && (events.input || events.failure) &&
        (w.conns c).hears input
  | _, _ => false

/-- Bytes of this connection are taken by the socket. -/
def Obs.outputOf (c : ConnId) : Obs → Bool
  | .wrote d _ => d = c
  | _ => false

/-- Between two states the socket has taken bytes of the connection. -/
def putsOut (w w' : Chat) (c : ConnId) : Bool :=
  (w'.trace.drop w.trace.length).any (Obs.outputOf c)

/-- What a step at time `now` adds. -/
def Activity.observe (now : Int) (hears puts : Bool) (a : Activity) : Activity where
  heard := if hears then now :: a.heard else a.heard
  wrote := if puts then some now else if hears then none else a.wrote

/-- A connection that is created. -/
def Activity.created (now : Int) : Activity where
  heard := [now]
  wrote := none

/-- What a step of the server adds for every connection. -/
def observe (w : Chat) (event : Event) (w' : Chat) (a : ConnId → Activity) :
    ConnId → Activity := fun c =>
  if w.allocated ≤ c then
    .created w.now
  else
    (a c).observe w.now (hearsFrom w event c) (putsOut w w' c)

/-- The server, with the activity of its connections beside it. -/
def watch (J : JsonLib) (s : Chat × (ConnId → Activity)) (event : Event) :
    Except Exn (Chat × (ConnId → Activity)) :=
  (step J s.1 event).map fun w' => (w', observe s.1 event w' s.2)

/-- The server before its first event. -/
def unwatched : Chat × (ConnId → Activity) :=
  (initial, fun _ => .created 0)

section Unmoved

/-- No byte has been received or taken. -/
structure Unmoved (w w' : Chat) : Prop where
  lastActive : ∀ c, (w'.conns c).lastActive = (w.conns c).lastActive
  allocated : w'.allocated = w.allocated
  now : w'.now = w.now
  trace : ∃ more, w'.trace = w.trace ++ more ∧ ∀ c, more.any (Obs.outputOf c) = false

variable {J : JsonLib} {w w' w'' : Chat} {c : ConnId} {pkt : Packet}

theorem Unmoved.refl
    (w : Chat) :
    Unmoved w w where
  lastActive _ := rfl
  allocated := rfl
  now := rfl
  trace := ⟨[], by simp⟩

theorem Unmoved.trans
    (h : Unmoved w w') (h' : Unmoved w' w'') :
    Unmoved w w'' where
  lastActive c := (h'.lastActive c).trans (h.lastActive c)
  allocated := h'.allocated.trans h.allocated
  now := h'.now.trans h.now
  trace := by
    obtain ⟨more, heq, hmore⟩ := h.trace
    obtain ⟨more', heq', hmore'⟩ := h'.trace
    refine ⟨more ++ more', by rw [heq', heq, List.append_assoc], ?_⟩
    intro c
    rw [List.any_append, hmore, hmore', Bool.or_self]

theorem Sends.unmoved
    {out : List (ConnId × Packet)} (h : Sends w w' out) :
    Unmoved w w' where
  lastActive c := by
    rw [h.conns c]
  allocated := h.allocated
  now := h.now
  trace := by
    refine ⟨_, h.trace, ?_⟩
    intro c
    simp [Obs.outputOf]

theorem unmoved_note
    (w : Chat) {o : Obs} (ho : ∀ c, o.outputOf c = false) :
    Unmoved w (w.note o) where
  lastActive _ := rfl
  allocated := rfl
  now := rfl
  trace := ⟨[o], rfl, by simp [ho]⟩

theorem unmoved_loggedIn
    (w : Chat) (c : ConnId) (name : String) :
    Unmoved w (loggedIn w c name) := by
  refine (unmoved_note w (o := .registered c name) fun _ => rfl).trans ?_
  constructor
  case lastActive =>
    intro d
    by_cases hd : d = c
    · simp [loggedIn, setUsername, World.setConn, World.note, World.setUsers, hd]
    · simp [loggedIn, setUsername, World.setConn, World.note, World.setUsers, hd]
  case trace =>
    exact ⟨[], by simp [loggedIn, setUsername, World.setConn, World.note, World.setUsers]⟩
  all_goals
    rfl

/-- Closing a connection sends, but writes nothing. -/
theorem unmoved_close
    (J : JsonLib) (w : Chat) (c : ConnId) :
    Unmoved w (close (closeCallback J) w c) := by
  by_cases hclosed : (w.conns c).state = .CLOSED
  · rw [close, if_pos hclosed]
    exact Unmoved.refl w
  · obtain ⟨out, hout⟩ := onClose_effect J ((w.removeFd (w.conns c).fd).note (.closed c)) c
    have hcl := close_closes J hclosed
    have hlog : (close (closeCallback J) w c).trace =
        (onClose J ((w.removeFd (w.conns c).fd).note (.closed c)) c).trace := by
      rw [close, if_neg hclosed]
      rfl
    have hnow : (close (closeCallback J) w c).now =
        (onClose J ((w.removeFd (w.conns c).fd).note (.closed c)) c).now := by
      rw [close, if_neg hclosed]
      rfl
    constructor
    case lastActive =>
      intro d
      rw [hcl.conns d]
    case allocated =>
      exact hcl.allocated
    case now =>
      rw [hnow, hout.now]
      rfl
    case trace =>
      refine ⟨.closed c :: out.map fun m => .sent m.1 m.2, ?_, ?_⟩
      · rw [hlog, hout.trace]
        simp [World.note, World.setUsers, World.removeFd]
      · intro d
        simp [Obs.outputOf]

theorem unmoved_handlePacket
    (h : handlePacket (callbacks J) w c pkt = .ok w') :
    Unmoved w w' := by
  have hnote : Unmoved w (w.note (.packet c pkt)) := unmoved_note w fun _ => rfl
  refine hnote.trans ?_
  cases onPacket_effect h with
  | sends out hout =>
      exact hout.unmoved
  | login name out hstate hfree hout =>
      exact (unmoved_loggedIn _ c name).trans hout.unmoved
  | logout htype hstate =>
      have hremove : Unmoved (w.note (.packet c pkt))
          (UserManager.remove (w.note (.packet c pkt)) c) :=
        { Unmoved.refl (w.note (.packet c pkt)) with }
      exact hremove.trans (unmoved_close J _ c)

end Unmoved

section Times

variable {J : JsonLib} {w w₁ w₂ : Chat} {c : ConnId}

/-- The time stamps, when the socket may have taken bytes since `w`: those of the
connections whose bytes it took are new. -/
structure TimesSince (w : Chat) (base : ConnId → Int) (w₁ : Chat) : Prop where
  allocated : w₁.allocated = w.allocated
  now : w₁.now = w.now
  times : ∃ more, w₁.trace = w.trace ++ more ∧
    ∀ c, (w₁.conns c).lastActive = if more.any (Obs.outputOf c) then w.now else base c

variable {base : ConnId → Int}

theorem timesSince_self
    (w : Chat) :
    TimesSince w (fun c => (w.conns c).lastActive) w where
  allocated := rfl
  now := rfl
  times := ⟨[], by simp, by simp⟩

theorem TimesSince.unmoved
    (h : TimesSince w base w₁) (hu : Unmoved w₁ w₂) :
    TimesSince w base w₂ where
  allocated := hu.allocated.trans h.allocated
  now := hu.now.trans h.now
  times := by
    obtain ⟨more, heq, htimes⟩ := h.times
    obtain ⟨more', heq', hnone⟩ := hu.trace
    refine ⟨more ++ more', by rw [heq', heq, List.append_assoc], ?_⟩
    intro c
    rw [hu.lastActive, htimes, List.any_append, hnone, Bool.or_false]

theorem TimesSince.writes
    (h : TimesSince w base w₁) (hw : Writes c w₁ w₂) :
    TimesSince w base w₂ where
  allocated := hw.allocated.trans h.allocated
  now := hw.now.trans h.now
  times := by
    obtain ⟨more, heq, htimes⟩ := h.times
    obtain ⟨outs, heq', hactive⟩ := hw.output
    refine ⟨more ++ outs.map (Obs.wrote c), by rw [heq', heq, List.append_assoc], ?_⟩
    intro d
    rw [List.any_append]
    by_cases hd : d = c
    · subst hd
      rw [hactive, htimes, h.now]
      cases outs with
      | nil =>
          simp
      | cons bs outs =>
          simp [Obs.outputOf]
    · have hnone : (outs.map (Obs.wrote c)).any (Obs.outputOf d) = false := by
        simp [Obs.outputOf, Ne.symm hd]
      rw [hnone, Bool.or_false, hw.conns, Function.update_of_ne hd]
      exact htimes d

/-- A time stamp that is up to date stays so while more is received. -/
theorem recvLoop_lastActive_now
    {now : Int} {conn : Connection} (h : conn.lastActive = now) (fuel : Nat) (s : Input) :
    (recvLoop now fuel conn s).1.lastActive = now := by
  induction fuel generalizing conn s with
  | zero =>
      exact h
  | succ fuel ih =>
      rw [recvLoop]
      split
      · exact ih rfl _
      · exact h
      · exact h
      · exact h

theorem recvLoop_lastActive
    (now : Int) (fuel : Nat) (conn : Connection) (s : Input) :
    (recvLoop now (fuel + 1) conn s).1.lastActive =
      if conn.hears s then now else conn.lastActive := by
  rw [recvLoop, Connection.hears]
  split
  · next hrecv =>
      simp only [hrecv, if_true]
      apply recvLoop_lastActive_now
      rfl
  · next hrecv =>
      simp [hrecv]
  · next hrecv =>
      simp [hrecv]
  · next hrecv =>
      simp [hrecv]

/-- Reading stamps the connection if bytes are received, and no other. -/
theorem timesSince_onRead
    {s : Input} (hread : onRead (callbacks J) w c s = .ok w₁) :
    TimesSince w
      (fun d => if d = c ∧ (w.conns d).hears s then w.now else (w.conns d).lastActive) w₁ := by
  have hstart : ∀ fin conn, recvLoop w.now (s.pending.length + 1) (w.conns c) s = (conn, fin) →
      TimesSince w
        (fun d => if d = c ∧ (w.conns d).hears s then w.now else (w.conns d).lastActive)
        (w.setConn c conn) := by
    intro fin conn hloop
    have hactive := recvLoop_lastActive w.now s.pending.length (w.conns c) s
    rw [hloop] at hactive
    refine ⟨rfl, rfl, [], by simp [World.setConn], ?_⟩
    intro d
    by_cases hd : d = c
    · subst hd
      simpa [World.setConn] using hactive
    · simp [World.setConn, hd]
  have hconsumed : ∀ w n, Unmoved w (consume w c n) := by
    intro w n
    refine ⟨?_, rfl, rfl, [], by simp [consume, World.setConn]⟩
    intro d
    by_cases hd : d = c
    · simp [consume, World.setConn, hd]
    · simp [consume, World.setConn, hd]
  refine onRead_invariant (I := fun _ => TimesSince w _)
    (fun w pkt w' hpkt => readBuf_onPacket hpkt c) ?_ ?_ ?_ (hstart _) (hstart _) hread
  · intro pkts w n hw
    exact hw.unmoved (hconsumed w n)
  · intro pkt pkts w w' hw hpkt
    exact hw.unmoved (unmoved_handlePacket hpkt)
  · intro w hw
    exact hw.unmoved (unmoved_close J w c)

/-- The time stamps that an event brings about before anything is written. -/
def stamped (w : Chat) (event : Event) (c : ConnId) : Int :=
  if hearsFrom w event c then w.now else (w.conns c).lastActive

theorem stamped_of_silent
    {event : Event} (h : ∀ c, hearsFrom w event c = false) :
    stamped w event = fun c => (w.conns c).lastActive := by
  funext c
  rw [stamped, h c]
  rfl

theorem timesSince_handleEvent
    {fd : Fd} {events : Ready} {input : Input} {sends : List SendResult}
    (h : handleEvent (callbacks J) w fd events input sends = .ok w₁) :
    TimesSince w (stamped w (.ready fd events input sends)) w₁ := by
  cases hc : w.reactor.contexts fd with
  | none =>
      rw [handleEvent, hc] at h
      cases h
      rw [stamped_of_silent fun c => by simp [hearsFrom, hc]]
      exact timesSince_self w
  | some c =>
      refine handleEvent_keeps (I := TimesSince w _) hc ?_ ?_ ?_ h
      · intro w' hin hread
        have hbase : stamped w (.ready fd events input sends) = fun d =>
            if d = c ∧ (w.conns d).hears input then w.now else (w.conns d).lastActive := by
          funext d
          have hbrings : (events.input || events.failure) = true := by
            simpa using hin
          simp only [stamped, hearsFrom, hc, hbrings, Option.some.injEq, Bool.and_true,
            Bool.and_eq_true, decide_eq_true_eq, eq_comm (a := c)]
        rw [hbase]
        exact timesSince_onRead hread
      · intro w₁ hw₁
        exact onWrite_invariant (fun _ _ => TimesSince.writes)
          (fun w₂ hw => hw.unmoved (unmoved_close J w₂ c)) sends hw₁
      · intro hno
        rw [stamped_of_silent fun d => by simp [hearsFrom, hno]]
        exact timesSince_self w

/-- The time stamp of a connection that has not just been created. -/
theorem TimesSince.lastActive
    {event : Event} (h : TimesSince w (stamped w event) w₁) {c : ConnId}
    (hc : c < w₁.allocated) :
    (w₁.conns c).lastActive =
      if w.allocated ≤ c ∨ putsOut w w₁ c ∨ hearsFrom w event c then
        w.now
      else
        (w.conns c).lastActive := by
  obtain ⟨more, htrace, htimes⟩ := h.times
  have hlt : ¬ w.allocated ≤ c := by
    rw [← h.allocated]
    exact Nat.not_le.mpr hc
  have hputs : putsOut w w₁ c = more.any (Obs.outputOf c) := by
    rw [putsOut, htrace, List.drop_left]
  rw [htimes, hputs, stamped]
  by_cases hany : more.any (Obs.outputOf c) = true
  · simp [hany]
  · simp [hany, hlt]

/-- The time stamps after a step, by what the step has heard and put out. -/
theorem lastActive_step
    (htables : TablesAllocated w) {event : Event} (hstep : step J w event = .ok w₁) (c : ConnId)
    (hc : c < w₁.allocated) :
    (w₁.conns c).lastActive =
      if w.allocated ≤ c ∨ putsOut w w₁ c ∨ hearsFrom w event c then
        w.now
      else
        (w.conns c).lastActive := by
  cases event with
  | accept fd =>
      rw [step] at hstep
      split at hstep
      · cases hstep
        exact (timesSince_self w).lastActive hc
      · have hacc := accept_accepts hstep
        rw [hacc.conns]
        by_cases hnew : c = w.allocated
        · simp [hnew, Connection.new]
        · have hlt : ¬ w.allocated ≤ c := by
            rw [hacc.allocated] at hc
            exact fun hle => hnew (Nat.le_antisymm (Nat.lt_succ_iff.mp hc) hle)
          simp [hnew, hlt, putsOut, hacc.trace, hearsFrom]
  | ready fd events input sends =>
      exact (timesSince_handleEvent hstep).lastActive hc
  | tick =>
      cases hstep
      have hticked : TimesSince w (stamped w .tick)
          (ConnectionManager.tick (closeCallback J) w 30) :=
        tick_invariant (fun w₁ c hw _ => hw.unmoved (unmoved_close J w₁ c)) 30 htables
          (timesSince_self w)
      exact hticked.lastActive hc
  | clock now =>
      cases hstep
      have hlt : ¬ w.allocated ≤ c := Nat.not_le.mpr hc
      simp [hlt, putsOut, hearsFrom]

end Times

section Watched

variable {J : JsonLib} {w w' : Chat}

/-- Every connection on the watch list is open. -/
def WatchedOpen (w : Chat) : Prop :=
  ∀ c ∈ w.env.managed, (w.conns c).state ≠ .CLOSED

theorem WatchedOpen.quiet
    (h : WatchedOpen w) (hq : Quiet w w') :
    WatchedOpen w' := by
  intro c hc
  rw [hq.state]
  exact h c (hq.env ▸ hc)

theorem WatchedOpen.close
    (h : WatchedOpen w) (c : ConnId) :
    WatchedOpen (close (closeCallback J) w c) := by
  by_cases hclosed : (w.conns c).state = .CLOSED
  · rw [Tcp.close, if_pos hclosed]
    exact h
  · have hcl := close_closes J hclosed
    intro d hd
    rw [hcl.managed, UnorderedSet.mem_erase] at hd
    rw [hcl.conns d]
    simp only [if_neg hd.1]
    exact h d hd.2

theorem WatchedOpen.handlePacket
    (h : WatchedOpen w) {c : ConnId} {pkt : Packet}
    (hpkt : handlePacket (callbacks J) w c pkt = .ok w') :
    WatchedOpen w' := by
  have hnoted : WatchedOpen (w.note (.packet c pkt)) := h
  cases onPacket_effect hpkt with
  | sends out hout =>
      exact hnoted.quiet hout.quiet
  | login name out hstate hfree hout =>
      have hlogin : WatchedOpen (loggedIn (w.note (.packet c pkt)) c name) := by
        intro d hd
        by_cases hdc : d = c
        · simp [loggedIn, setUsername, World.setConn, hdc]
        · have hconn : (loggedIn (w.note (.packet c pkt)) c name).conns d = w.conns d :=
            Function.update_of_ne hdc _ _
          rw [hconn]
          exact h d hd
      exact hlogin.quiet hout.quiet
  | logout htype hstate =>
      have hremove : WatchedOpen (UserManager.remove (w.note (.packet c pkt)) c) := h
      exact hremove.close c

theorem WatchedOpen.accept
    (h : WatchedOpen w) {fd : Fd} (hacc : accept w fd = .ok w') :
    WatchedOpen w' := by
  have hacc := accept_accepts hacc
  intro c hc
  rw [hacc.managed, UnorderedSet.mem_insert] at hc
  rw [hacc.conns]
  by_cases hnew : c = w.allocated
  · simp [hnew, Connection.new]
  · rw [Function.update_of_ne hnew]
    exact h c (hc.resolve_left hnew)

theorem WatchedOpen.step
    (hs : Sessions w) (h : WatchedOpen w) {event : Event} (hstep : step J w event = .ok w') :
    Sessions w' ∧ WatchedOpen w' := by
  refine hs.step_keeps ?_ ?_ ?_ ?_ ?_ ?_ h hstep
  · intro w c readBuf lastActive h
    exact h.quiet (quiet_setConn rfl rfl rfl)
  · intro w c pkt w' _ h hpkt
    exact h.handlePacket hpkt
  · intro w c _ h
    exact h.close c
  · intro w fd w' h hacc
    exact h.accept hacc
  · intro c w w' h hwrites
    exact h.quiet hwrites.quiet
  · intro w now h
    exact h.quiet (quiet_clock w now)

/-- Closing open connections takes them off the watch list. -/
theorem mem_managed_foldl_close
    (h : WatchedOpen w) (cs : List ConnId) {c : ConnId} :
    c ∈ (cs.foldl (close (closeCallback J)) w).env.managed ↔ c ∈ w.env.managed ∧ c ∉ cs := by
  induction cs generalizing w with
  | nil =>
      simp
  | cons d cs ih =>
      rw [List.foldl_cons, ih (h.close d), List.mem_cons, not_or, ← and_assoc]
      by_cases hclosed : (w.conns d).state = .CLOSED
      · have hne : c ∈ w.env.managed → c ≠ d := by
          rintro hc rfl
          exact h c hc hclosed
        rw [close, if_pos hclosed]
        tauto
      · rw [(close_closes J hclosed).managed, UnorderedSet.mem_erase]
        tauto

/-- A tick keeps the connections that have been active within the timeout. -/
theorem mem_managed_tick
    (h : WatchedOpen w) (timeoutSec : Int) {c : ConnId} :
    c ∈ (ConnectionManager.tick (closeCallback J) w timeoutSec).env.managed ↔
      c ∈ w.env.managed ∧ w.now - (w.conns c).lastActive ≤ timeoutSec := by
  rw [ConnectionManager.tick, mem_managed_foldl_close h, ConnectionManager.toClose,
    List.mem_filter, decide_eq_true_eq, UnorderedSet.mem_elems, gt_iff_lt, ← not_lt]
  tauto

end Watched

section Heartbeat

variable {J : JsonLib} {w w' : Chat} {a : ConnId → Activity}

/-- The time stamp is that of the last output, or that of something heard. -/
def Activity.Explains (a : Activity) (lastActive : Int) : Prop :=
  match a.wrote with
  | some t => lastActive = t
  | none => lastActive ∈ a.heard

/-- The time stamps of all connections are explained by their activity. -/
structure Watched (s : Chat × (ConnId → Activity)) : Prop where
  sessions : Sessions s.1
  opened : WatchedOpen s.1
  explained : ∀ c < s.1.allocated, (s.2 c).Explains (s.1.conns c).lastActive

theorem Activity.explains_observe
    {a : Activity} {lastActive : Int} (h : a.Explains lastActive) (now : Int)
    (hears puts : Bool) :
    (a.observe now hears puts).Explains (if puts ∨ hears then now else lastActive) := by
  cases puts with
  | true =>
      simp [observe, Explains]
  | false =>
      cases hears with
      | true =>
          simp [observe, Explains]
      | false =>
          simpa [observe, Explains] using h

theorem watched_unwatched :
    Watched unwatched where
  sessions := sessions_initial
  opened := by
    intro c hc
    exact absurd hc (UnorderedSet.not_mem_empty c)
  explained := by
    intro c hc
    exact absurd hc (Nat.not_lt_zero c)

theorem Watched.step
    {s s' : Chat × (ConnId → Activity)} (h : Watched s) {event : Event}
    (hwatch : watch J s event = .ok s') :
    Watched s' := by
  obtain ⟨w', hstep, rfl⟩ := Runs.map_eq_ok.mp hwatch
  obtain ⟨hsessions, hopened⟩ := WatchedOpen.step h.sessions h.opened hstep
  refine ⟨hsessions, hopened, ?_⟩
  intro c hc
  have htime := lastActive_step h.sessions.toTablesAllocated hstep c hc
  dsimp only at hc ⊢
  rw [htime, observe]
  by_cases hnew : s.1.allocated ≤ c
  · simp [hnew, Activity.created, Activity.Explains]
  · have hold := h.explained c (Nat.not_le.mp hnew)
    simpa [hnew] using
      Activity.explains_observe hold s.1.now (hearsFrom s.1 event c) (putsOut s.1 w' c)

/-- Right after a tick: every connection on the watch list was created, or its peer was
heard, within the timeout iff no connection that has been silent for longer was kept alive
by its own output. -/
theorem tick_keeps_heard_iff
    {events : List Event} (hrun : Runs.run (watch J) unwatched events = .ok (w, a))
    (timeoutSec : Int) :
    (∀ c ∈ (ConnectionManager.tick (closeCallback J) w timeoutSec).env.managed,
        ∃ t ∈ (a c).heard, w.now - timeoutSec ≤ t) ↔
      ∀ c ∈ w.env.managed, (∀ t ∈ (a c).heard, t < w.now - timeoutSec) →
        ∀ t, (a c).wrote = some t → t < w.now - timeoutSec := by
  have hw : Watched (w, a) :=
    Runs.run_invariant (fun s event s' hs => hs.step) watched_unwatched hrun
  have hexplained : ∀ c ∈ w.env.managed, (a c).Explains (w.conns c).lastActive :=
    fun c hc => hw.explained c (hw.sessions.managed c hc)
  simp only [mem_managed_tick hw.opened]
  constructor
  · intro hkept c hc hsilent t hwrote
    have hactive := hexplained c hc
    simp only [Activity.Explains, hwrote] at hactive
    by_contra hlate
    obtain ⟨t', ht', hrecent⟩ := hkept c ⟨hc, by omega⟩
    have := hsilent t' ht'
    omega
  · rintro hquiet c ⟨hc, hactive⟩
    by_contra hnone
    simp only [not_exists, not_and, not_le] at hnone
    have hexp := hexplained c hc
    cases hwrote : (a c).wrote with
    | none =>
        simp only [Activity.Explains, hwrote] at hexp
        have := hnone _ hexp
        omega
    | some t =>
        simp only [Activity.Explains, hwrote] at hexp
        have := hquiet c hc hnone t hwrote
        omega

/-- `b` logs in when `a` has been silent for a while. -/
def silentUserRun : List Event :=
  loginRun ++ [.clock 20, .accept 6, arriveSecond secondLogin, .clock 40]

theorem tick_keeps_heard_iff_silentUserRun :
    ∃ s, Runs.run (watch talkJson) unwatched silentUserRun = .ok s ∧
      0 ∈ s.1.env.managed ∧ 1 ∈ s.1.env.managed ∧
      0 ∉ (ConnectionManager.tick (closeCallback talkJson) s.1 30).env.managed ∧
      1 ∈ (ConnectionManager.tick (closeCallback talkJson) s.1 30).env.managed ∧
      ∀ c ∈ (ConnectionManager.tick (closeCallback talkJson) s.1 30).env.managed,
        ∃ t ∈ (s.2 c).heard, s.1.now - 30 ≤ t := by
  obtain ⟨s, hrun, hs⟩ := Runs.exists_ok_of_any
    (Runs.run (watch talkJson) unwatched silentUserRun)
    (fun s => 0 ∈ s.1.env.managed ∧ 1 ∈ s.1.env.managed ∧
      0 ∉ (ConnectionManager.tick (closeCallback talkJson) s.1 30).env.managed ∧
      1 ∈ (ConnectionManager.tick (closeCallback talkJson) s.1 30).env.managed ∧
      ∀ c ∈ s.1.env.managed.elems, (s.2 c).wrote = none)
    (by decide +kernel)
  obtain ⟨hfirst, hsecond, hgone, hkept, hquiet⟩ := of_decide_eq_true hs
  refine ⟨s, hrun, hfirst, hsecond, hgone, hkept, (tick_keeps_heard_iff hrun 30).mpr ?_⟩
  intro c hc _ t hwrote
  rw [hquiet c hc] at hwrote
  cases hwrote

/-- The peer of `a` is dead since time 0.  At time 20 `b` talks, and the socket takes the
message for `a`. -/
def deadPeerRun : List Event :=
  loginRun ++
    [.accept 6, arriveSecond secondLogin, .clock 20, arriveSecond smallTalk,
      .ready 5 { input := false, output := true, failure := false }
        { pending := [], sizes := [], idle := .again } [.accepts 4096],
      .clock 31]

/-- A dead peer is kept by what the others say. -/
theorem dead_peer_survives :
    ¬ ∀ (events : List Event) (s : Chat × (ConnId → Activity)) (timeoutSec : Int),
      Runs.run (watch talkJson) unwatched events = .ok s →
        ∀ c ∈ (ConnectionManager.tick (closeCallback talkJson) s.1 timeoutSec).env.managed,
          ∃ t ∈ (s.2 c).heard, s.1.now - timeoutSec ≤ t := by
  intro hall
  obtain ⟨s, hrun, hs⟩ := Runs.exists_ok_of_any
    (Runs.run (watch talkJson) unwatched deadPeerRun)
    (fun s =>
      decide (0 ∈ (ConnectionManager.tick (closeCallback talkJson) s.1 30).env.managed) &&
        (s.2 0).heard.all fun t => decide (t < s.1.now - 30))
    (by decide +kernel)
  simp only [Bool.and_eq_true, decide_eq_true_eq, List.all_eq_true] at hs
  obtain ⟨t, ht, hrecent⟩ := hall deadPeerRun s 30 hrun 0 hs.1
  have hold := hs.2 t ht
  omega

end Heartbeat

end Tcp
end ChatRoom
