import ChatRoom.Tcp.Effects

/-!
# The table of users agrees with the sessions

Between any two callbacks of the reactor, `UserManager::users_` holds a name for
a connection exactly if the connection is logged in under that name.  The table
and the connections are written in different places, and `close` runs its
callback before it marks the connection; `Leaving` is what holds meanwhile.

The invariant does not need a closed connection to stay closed: a connection
that logs in after it was closed is entered and marked like any other.
-/

namespace ChatRoom
namespace Tcp

open Socket

section RemoveFirst

/-- Removing the first entry of a connection removes all of them, if the
connection has one name at most. -/
theorem lookup_removeFirst
    {users : UserTable} {c : ConnId}
    (hone : ∀ name name', users.lookup name = some c → users.lookup name' = some c → name = name')
    {name : String} {d : ConnId} :
    (UserManager.removeFirst users c).lookup name = some d ↔
      users.lookup name = some d ∧ d ≠ c := by
  unfold UserManager.removeFirst
  split
  · next kv hfind =>
      have hc : kv.2 = c := by
        simpa using List.find?_some hfind
      have hkv : users.lookup kv.1 = some c := by
        rw [← hc]
        exact AList.mem_lookup_iff.mpr (List.mem_of_find?_eq_some hfind)
      by_cases hname : name = kv.1
      · subst hname
        rw [AList.lookup_erase, hkv]
        constructor
        · intro h
          cases h
        · rintro ⟨h, hne⟩
          cases h
          exact absurd rfl hne
      · rw [AList.lookup_erase_ne hname]
        constructor
        · intro h
          refine ⟨h, ?_⟩
          rintro rfl
          exact hname (hone name kv.1 h hkv)
        · exact And.left
  · next hnone =>
      constructor
      · intro h
        refine ⟨h, ?_⟩
        rintro rfl
        have hentry : (⟨name, d⟩ : Sigma fun _ : String => ConnId) ∈ users.entries :=
          AList.mem_lookup_iff.mp h
        simpa using List.find?_eq_none.mp hnone _ hentry
      · exact And.left

end RemoveFirst

/-- The connection is logged in under this name. -/
def LoggedInAs (w : Chat) (c : ConnId) (name : String) : Prop :=
  (w.conns c).state = .AUTHENTICATED ∧ (w.conns c).username = name

instance (w : Chat) (c : ConnId) (name : String) : Decidable (LoggedInAs w c name) :=
  inferInstanceAs (Decidable (_ ∧ _))

/-- The table of users agrees with the sessions. -/
structure Sessions (w : Chat) : Prop extends TablesAllocated w where
  table : ∀ name c, w.env.users.lookup name = some c ↔ LoggedInAs w c name
  fresh : ∀ c, w.allocated ≤ c → (w.conns c).state = .CONNECTING

/-- The table agrees with the sessions, but may miss the connection `c`. -/
structure Leaving (c : ConnId) (w : Chat) : Prop extends TablesAllocated w where
  sound : ∀ name d, w.env.users.lookup name = some d → LoggedInAs w d name
  complete : ∀ name d, d ≠ c → LoggedInAs w d name → w.env.users.lookup name = some d
  fresh : ∀ d, w.allocated ≤ d → (w.conns d).state = .CONNECTING

section Preservation

variable {J : JsonLib} {w w' : Chat} {c : ConnId}

theorem sessions_initial :
    Sessions initial where
  registered := by
    intro fd c h
    simp [initial, World.init, Reactor.new] at h
  managed := by
    intro c h
    exact absurd h (UnorderedSet.not_mem_empty c)
  table := by
    intro name c
    simp [initial, World.init, LoggedInAs, Connection.new]
  fresh := by
    intro c _
    rfl

theorem Quiet.loggedInAs
    (hq : Quiet w w') (c : ConnId) (name : String) :
    LoggedInAs w' c name ↔ LoggedInAs w c name := by
  rw [LoggedInAs, LoggedInAs, hq.state, hq.username]

theorem Sessions.quiet
    (h : Sessions w) (hq : Quiet w w') :
    Sessions w' where
  toTablesAllocated := h.toTablesAllocated.quiet hq
  table name c := by
    rw [hq.env, hq.loggedInAs]
    exact h.table name c
  fresh c hc := by
    rw [hq.state]
    exact h.fresh c (hq.allocated ▸ hc)

theorem Sessions.note
    (h : Sessions w) (o : Obs) :
    Sessions (w.note o) where
  registered := h.registered
  managed := h.managed
  table := h.table
  fresh := h.fresh

theorem Sessions.leaving
    (h : Sessions w) (c : ConnId) :
    Leaving c w where
  toTablesAllocated := h.toTablesAllocated
  sound name d := (h.table name d).mp
  complete name d _ := (h.table name d).mpr
  fresh := h.fresh

/-- A connection has one name at most. -/
theorem Leaving.name_unique
    (h : Leaving c w) {d : ConnId} {name name' : String}
    (hname : w.env.users.lookup name = some d) (hname' : w.env.users.lookup name' = some d) :
    name = name' := by
  rw [← (h.sound name d hname).2, ← (h.sound name' d hname').2]

theorem Leaving.remove
    (h : Leaving c w) :
    Leaving c (UserManager.remove w c) where
  registered := h.registered
  managed := h.managed
  sound name d hd := by
    rw [UserManager.remove, World.setUsers,
      lookup_removeFirst (fun _ _ => h.name_unique)] at hd
    exact h.sound name d hd.1
  complete name d hne hd := by
    rw [UserManager.remove, World.setUsers, lookup_removeFirst (fun _ _ => h.name_unique)]
    exact ⟨h.complete name d hne hd, hne⟩
  fresh := h.fresh

/-- Closing a connection completes its leaving. -/
theorem Leaving.close
    (h : Leaving c w) (hlt : c < w.allocated) :
    Sessions (close (closeCallback J) w c) := by
  by_cases hopen : (w.conns c).state = .CLOSED
  · rw [Tcp.close, if_pos hopen]
    have hout : ∀ name, ¬ LoggedInAs w c name := by
      rintro name ⟨hstate, -⟩
      rw [hopen] at hstate
      cases hstate
    exact
      { toTablesAllocated := h.toTablesAllocated
        table := by
          intro name d
          constructor
          · exact h.sound name d
          · intro hd
            refine h.complete name d ?_ hd
            rintro rfl
            exact hout name hd
        fresh := h.fresh }
  · have hcl := close_closes J hopen
    constructor
    case toTablesAllocated =>
      constructor
      · intro fd d hd
        rw [hcl.contexts, Function.update_apply] at hd
        rw [hcl.allocated]
        split at hd
        · cases hd
        · exact h.registered fd d hd
      · intro d hd
        rw [hcl.managed, UnorderedSet.mem_erase] at hd
        rw [hcl.allocated]
        exact h.managed d hd.2
    case table =>
      intro name d
      have husers : (Tcp.close (closeCallback J) w c).env.users.lookup name = some d ↔
          w.env.users.lookup name = some d ∧ d ≠ c := by
        rw [hcl.users]
        split
        · exact lookup_removeFirst (fun _ _ => h.name_unique)
        · next hstate =>
            constructor
            · intro hd
              refine ⟨hd, ?_⟩
              rintro rfl
              exact hstate (h.sound name d hd).1
            · exact And.left
      rw [husers, LoggedInAs, hcl.conns d]
      by_cases hd : d = c
      · simp [hd]
      · simp only [ne_eq, hd, not_false_eq_true, and_true, if_false]
        exact ⟨h.sound name d, h.complete name d hd⟩
    case fresh =>
      intro d hd
      rw [hcl.allocated] at hd
      rw [hcl.conns d]
      have hne : d ≠ c := Nat.ne_of_gt (Nat.lt_of_lt_of_le hlt hd)
      simp only [if_neg hne]
      exact h.fresh d hd

theorem Sessions.close
    (h : Sessions w) (hlt : c < w.allocated) :
    Sessions (Tcp.close (closeCallback J) w c) := by
  exact (h.leaving c).close hlt

/-- Entering a connection that is not logged in under a name that is free. -/
theorem Sessions.login
    (h : Sessions w) (hlt : c < w.allocated) {name : String}
    (hstate : (w.conns c).state ≠ .AUTHENTICATED) (hfree : w.env.users.lookup name = none) :
    Sessions (loggedIn w c name) where
  registered := h.registered
  managed := h.managed
  table := by
    intro name' d
    have hconn : ∀ d, (loggedIn w c name).conns d =
        if d = c then { w.conns c with username := name, state := .AUTHENTICATED }
        else w.conns d := by
      intro d
      exact Function.update_apply _ _ _ _
    have husers : (loggedIn w c name).env.users = w.env.users.insert name c := by
      rfl
    have hout : ∀ name, w.env.users.lookup name ≠ some c :=
      fun name hc => hstate ((h.table name c).mp hc).1
    rw [husers, LoggedInAs, hconn]
    by_cases hname : name' = name
    · subst hname
      rw [AList.lookup_insert]
      by_cases hd : d = c
      · simp [hd]
      · have hnone : ¬ LoggedInAs w d name' := by
          rw [← h.table, hfree]
          simp
        simp only [if_neg hd, Option.some.injEq]
        exact ⟨fun heq => absurd heq.symm hd, fun hd' => absurd hd' hnone⟩
    · rw [AList.lookup_insert_ne hname]
      by_cases hd : d = c
      · subst hd
        simp only [if_pos]
        exact ⟨fun hc => absurd hc (hout name'), fun hc => absurd hc.2.symm hname⟩
      · simp only [if_neg hd]
        exact h.table name' d
  fresh := by
    intro d hd
    have hne : d ≠ c := Nat.ne_of_gt (Nat.lt_of_lt_of_le hlt hd)
    exact (congrArg Connection.state (Function.update_of_ne hne _ _)).trans (h.fresh d hd)

/-- A packet of any type and body keeps the table and the sessions in step. -/
theorem Sessions.handlePacket
    (h : Sessions w) (hlt : c < w.allocated) {pkt : Packet}
    (hpkt : handlePacket (callbacks J) w c pkt = .ok w') :
    Sessions w' ∧ c < w'.allocated := by
  have h := h.note (.packet c pkt)
  have hlt : c < (w.note (.packet c pkt)).allocated := hlt
  cases onPacket_effect hpkt with
  | sends out hout =>
      exact ⟨h.quiet hout.quiet, hout.allocated ▸ hlt⟩
  | login name out hstate hfree hout =>
      exact ⟨(h.login hlt hstate hfree).quiet hout.quiet, hout.allocated ▸ hlt⟩
  | logout htype hstate =>
      have hlt' : c < (UserManager.remove (w.note (.packet c pkt)) c).allocated := hlt
      refine ⟨(h.leaving c).remove.close hlt', ?_⟩
      rw [allocated_close]
      exact hlt'

theorem Sessions.onRead
    (h : Sessions w) (hlt : c < w.allocated) {s : Input}
    (hread : onRead (callbacks J) w c s = .ok w') :
    Sessions w' ∧ c < w'.allocated := by
  have hkeep : ∀ w w', Quiet w w' → Sessions w ∧ c < w.allocated →
      Sessions w' ∧ c < w'.allocated :=
    fun w w' hq hw => ⟨hw.1.quiet hq, hq.allocated ▸ hw.2⟩
  have hstart : ∀ fin conn, recvLoop w.now (s.pending.length + 1) (w.conns c) s = (conn, fin) →
      Sessions (w.setConn c conn) ∧ c < (w.setConn c conn).allocated := by
    intro fin conn hloop
    have hq := quiet_recvLoop w c (s.pending.length + 1) s
    rw [hloop] at hq
    exact hkeep w _ hq ⟨h, hlt⟩
  apply onRead_invariant (I := fun _ w => Sessions w ∧ c < w.allocated)
    (fun w pkt w' hpkt => readBuf_onPacket hpkt c) ?_ ?_ ?_ (hstart _) (hstart _) hread
  · intro pkts w n hw
    exact hkeep w _ (quiet_consume w c n) hw
  · intro pkt pkts w w' hw hpkt
    exact hw.1.handlePacket hw.2 hpkt
  · intro w hw
    exact ⟨hw.1.close hw.2, (allocated_close J w c).symm ▸ hw.2⟩

theorem Sessions.accept
    (h : Sessions w) {fd : Fd} (haccept : accept w fd = .ok w') :
    Sessions w' := by
  have hacc := accept_accepts haccept
  constructor
  case toTablesAllocated =>
    constructor
    · intro fd' d hd
      rw [hacc.contexts, Function.update_apply] at hd
      rw [hacc.allocated]
      split at hd
      · cases hd
        exact Nat.lt_succ_self _
      · exact Nat.lt_succ_of_lt (h.registered fd' d hd)
    · intro d hd
      rw [hacc.managed, UnorderedSet.mem_insert] at hd
      rw [hacc.allocated]
      rcases hd with rfl | hd
      · exact Nat.lt_succ_self _
      · exact Nat.lt_succ_of_lt (h.managed d hd)
  case table =>
    intro name d
    rw [hacc.users, h.table, LoggedInAs, LoggedInAs, hacc.conns]
    by_cases hd : d = w.allocated
    · -- the new object takes the place of one that was not logged in either
      rw [hd, Function.update_self, h.fresh w.allocated le_rfl]
      simp [Connection.new]
    · rw [Function.update_of_ne hd]
  case fresh =>
    intro d hd
    rw [hacc.allocated] at hd
    rw [hacc.conns, Function.update_of_ne (Nat.ne_of_gt hd)]
    exact h.fresh d (Nat.le_of_succ_le hd)

theorem Sessions.step
    (h : Sessions w) {event : Event} (hstep : step J w event = .ok w') :
    Sessions w' := by
  refine step_invariant (I := Sessions) h.toTablesAllocated
    (fun c w w' hw hwrites => hw.quiet hwrites.quiet) (fun w c hw => hw.close)
    (fun fd w' => h.accept) ?_ (fun now => h.quiet (quiet_clock w now)) h hstep
  intro fd events input sends c w' _ hc _ hread
  exact h.onRead (h.registered fd c hc) hread

/-- The invariant of the table holds in every state the server reaches. -/
theorem sessions_run
    {events : List Event} (hrun : runServer J events = .ok w) :
    Sessions w := by
  exact Runs.run_invariant (fun w event w' hw => hw.step) sessions_initial hrun

variable {I : Chat → Prop}

/-- What the operations of the server keep, given the invariant of the table, its steps
keep. -/
theorem Sessions.step_keeps
    (hbuffers : ∀ w c readBuf lastActive, I w →
      I (w.setConn c { w.conns c with readBuf := readBuf, lastActive := lastActive }))
    (hpacket : ∀ w c pkt w', Sessions w → I w →
      Tcp.handlePacket (callbacks J) w c pkt = .ok w' → I w')
    (hclose : ∀ w c, Sessions w → I w → I (Tcp.close (closeCallback J) w c))
    (haccept : ∀ w fd w', I w → Tcp.accept w fd = .ok w' → I w')
    (hwrites : ∀ c w w', I w → Writes c w w' → I w')
    (hclock : ∀ w now, I w → I { w with now := now })
    (h : Sessions w) (hI : I w) {event : Event} (hstep : Tcp.step J w event = .ok w') :
    Sessions w' ∧ I w' := by
  have hfinal : (fun w => Sessions w ∧ I w) w' := by
    refine step_invariant (I := fun w => Sessions w ∧ I w) h.toTablesAllocated ?_ ?_ ?_ ?_ ?_
      ⟨h, hI⟩ hstep
    · rintro c w w' ⟨hw, hI⟩ hwrite
      exact ⟨hw.quiet hwrite.quiet, hwrites c w w' hI hwrite⟩
    · rintro w c ⟨hw, hI⟩ hlt
      exact ⟨hw.close hlt, hclose w c hw hI⟩
    · intro fd w' hacc
      exact ⟨h.accept hacc, haccept w fd w' hI hacc⟩
    · intro fd events input sends c w' _ hc _ hread
      have hstart : ∀ fin conn,
          recvLoop w.now (input.pending.length + 1) (w.conns c) input = (conn, fin) →
            (Sessions (w.setConn c conn) ∧ I (w.setConn c conn)) ∧
              c < (w.setConn c conn).allocated := by
        intro fin conn hloop
        have hq := quiet_recvLoop w c (input.pending.length + 1) input
        have hframe := recvLoop_frame w.now (input.pending.length + 1) (w.conns c) input
        rw [hloop] at hq hframe
        have hkeep : I (w.setConn c conn) := by
          rw [show conn = _ from hframe]
          exact hbuffers w c _ _ hI
        exact ⟨⟨h.quiet hq, hkeep⟩, h.registered fd c hc⟩
      apply onRead_invariant (I := fun _ w => (Sessions w ∧ I w) ∧ c < w.allocated)
        (fun w pkt w' hpkt => readBuf_onPacket hpkt c) ?_ ?_ ?_ (hstart _) (hstart _) hread
      · rintro pkts w n ⟨⟨hw, hI⟩, hlt⟩
        exact ⟨⟨hw.quiet (quiet_consume w c n), hbuffers w c _ _ hI⟩, hlt⟩
      · rintro pkt pkts w w' ⟨⟨hw, hI⟩, hlt⟩ hpkt
        obtain ⟨hw', hlt'⟩ := hw.handlePacket hlt hpkt
        exact ⟨⟨hw', hpacket w c pkt w' hw hI hpkt⟩, hlt'⟩
      · rintro w ⟨⟨hw, hI⟩, hlt⟩
        exact ⟨⟨hw.close hlt, hclose w c hw hI⟩, (allocated_close J w c).symm ▸ hlt⟩
    · intro now
      exact ⟨h.quiet (quiet_clock w now), hclock w now hI⟩
  exact hfinal

end Preservation

section SessionTable

/-- In every state the server reaches, a name stands for a connection in the
table of users if and only if the connection is logged in under that name; so
no two connections have one name, and no connection has two. -/
theorem users_iff_loggedInAs
    {J : JsonLib} {events : List Event} {w : Chat} (hrun : runServer J events = .ok w) :
    (∀ name c, w.env.users.lookup name = some c ↔
        (w.conns c).state = .AUTHENTICATED ∧ (w.conns c).username = name) ∧
      (∀ name c d, LoggedInAs w c name → LoggedInAs w d name → c = d) ∧
      (∀ name name' c, w.env.users.lookup name = some c → w.env.users.lookup name' = some c →
        name = name') := by
  have h := sessions_run hrun
  refine ⟨h.table, ?_, ?_⟩
  · intro name c d hc hd
    rw [← h.table] at hc hd
    rw [hc] at hd
    exact Option.some.inj hd
  · intro name name' c hname hname'
    exact (h.leaving c).name_unique hname hname'

/-- A packet that logs in as `a`. -/
def loginPacket : Packet where
  type := MessageType.MSG_LOGIN.code
  body := bytes "\x7b\"username\":\"a\"\x7d"

/-- The documents of the packets below. -/
def sampleJson : JsonLib :=
  JsonLib.ofTable [(loginPacket.body, .obj [("username", .str "a")])]

/-- Bytes arrive on descriptor 5. -/
def arrive (bs : Bytes) : Event :=
  .ready 5 { input := true, output := false, failure := false }
    { pending := bs, sizes := [], idle := .again } []

/-- A connection logs in as `a`. -/
def loginRun : List Event :=
  [.accept 5, arrive (encode loginPacket)]

/-- Packets with which `b` logs in and talks. -/
def secondLogin : Packet where
  type := MessageType.MSG_LOGIN.code
  body := bytes "\x7b\"username\":\"b\"\x7d"

def smallTalk : Packet where
  type := MessageType.MSG_CHAT.code
  body := bytes "\x7b\"content\":\"hi\"\x7d"

def talkJson : JsonLib :=
  JsonLib.ofTable
    [(loginPacket.body, .obj [("username", .str "a")]),
      (secondLogin.body, .obj [("username", .str "b")]),
      (smallTalk.body, .obj [("content", .str "hi")])]

/-- Bytes arrive on descriptor 6. -/
def arriveSecond (pkt : Packet) : Event :=
  .ready 6 { input := true, output := false, failure := false }
    { pending := encode pkt, sizes := [], idle := .again } []

/-- `a` logs in, then `b`. -/
def twoUsersRun : List Event :=
  loginRun ++ [.accept 6, arriveSecond secondLogin]

theorem twoUsersRun_loggedIn :
    ∃ w, runServer talkJson twoUsersRun = .ok w ∧ LoggedInAs w 0 "a" ∧ LoggedInAs w 1 "b" := by
  obtain ⟨w, hrun, hw⟩ := Runs.exists_ok_of_any
    (runServer talkJson twoUsersRun)
    (fun w => LoggedInAs w 0 "a" ∧ LoggedInAs w 1 "b")
    (by decide +kernel)
  exact ⟨w, hrun, of_decide_eq_true hw⟩

theorem users_iff_loggedInAs_twoUsersRun :
    ∃ w, runServer talkJson twoUsersRun = .ok w ∧
      LoggedInAs w 0 "a" ∧ LoggedInAs w 1 "b" ∧
      (∀ name c, w.env.users.lookup name = some c ↔
        (w.conns c).state = .AUTHENTICATED ∧ (w.conns c).username = name) ∧
      (∀ name c d, LoggedInAs w c name → LoggedInAs w d name → c = d) ∧
      (∀ name name' c, w.env.users.lookup name = some c → w.env.users.lookup name' = some c →
        name = name') := by
  obtain ⟨w, hrun, ha, hb⟩ := twoUsersRun_loggedIn
  exact ⟨w, hrun, ha, hb, users_iff_loggedInAs hrun⟩

end SessionTable

end Tcp
end ChatRoom
