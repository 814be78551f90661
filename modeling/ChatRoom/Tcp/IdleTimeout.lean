import ChatRoom.Tcp.Heartbeat

/-!
# What a tick closes

Closing a connection announces to all users that it leaves, also to those that the
same tick is about to close, but it touches no session but its own.  So the tick
does to each connection what its time stamp asks for (`Dropped`), and the order
in which the set of connections is visited does not show.
-/

namespace ChatRoom
namespace Tcp

/-- The table of users agrees with the sessions of the connections. -/
def TableAgrees (w : Chat) : Prop :=
  ∀ name c, w.env.users.lookup name = some c ↔ LoggedInAs w c name

/-- The connections in `gone` have been closed, dropped from the watch list and from the table
of users, and no other session has changed. -/
structure Dropped (gone : ConnId → Prop) (w w' : Chat) : Prop where
  closed : ∀ c, gone c → (w'.conns c).state = .CLOSED
  state : ∀ c, ¬ gone c → (w'.conns c).state = (w.conns c).state
  username : ∀ c, (w'.conns c).username = (w.conns c).username
  lastActive : ∀ c, (w'.conns c).lastActive = (w.conns c).lastActive
  managed : ∀ c, c ∈ w'.env.managed ↔ c ∈ w.env.managed ∧ ¬ gone c
  users : ∀ name c,
    w'.env.users.lookup name = some c ↔ w.env.users.lookup name = some c ∧ ¬ gone c

section Dropped

variable {J : JsonLib} {gone : ConnId → Prop} {w w' : Chat}

/-- Closing an open connection drops it. -/
theorem close_dropped
    (htable : TableAgrees w) {c : ConnId} (hopen : (w.conns c).state ≠ .CLOSED) :
    Dropped (fun d => d = c) w (close (closeCallback J) w c) := by
  have hcl := close_closes J hopen
  constructor
  case closed =>
    rintro d rfl
    rw [hcl.conns d]
    exact if_pos rfl
  case state =>
    intro d hd
    rw [hcl.conns d]
    exact if_neg hd
  case username | lastActive =>
    intro d
    rw [hcl.conns d]
  case managed =>
    intro d
    rw [hcl.managed, UnorderedSet.mem_erase, and_comm]
  case users =>
    intro name d
    rw [hcl.users]
    split
    · refine lookup_removeFirst ?_
      intro name name' h h'
      rw [← ((htable name c).mp h).2, ← ((htable name' c).mp h').2]
    · next hstate =>
        refine ⟨fun h => ⟨h, ?_⟩, And.left⟩
        rintro rfl
        exact hstate ((htable name d).mp h).1

/-- The table agrees with the sessions that are left. -/
theorem Dropped.tableAgrees
    (h : Dropped gone w w') (htable : TableAgrees w) :
    TableAgrees w' := by
  intro name c
  rw [h.users, htable, LoggedInAs, LoggedInAs, h.username]
  by_cases hc : gone c
  · simp [h.closed c hc, hc]
  · simp [h.state c hc, hc]

/-- Closing open connections drops them, one after the other. -/
theorem foldl_close_dropped
    (htable : TableAgrees w) {cs : List ConnId} (hnodup : cs.Nodup)
    (hopen : ∀ c ∈ cs, (w.conns c).state ≠ .CLOSED) :
    Dropped (fun c => c ∈ cs) w (cs.foldl (close (closeCallback J)) w) := by
  induction cs generalizing w with
  | nil =>
      constructor <;> simp
  | cons c cs ih =>
      obtain ⟨hnew, hnodup⟩ := List.nodup_cons.mp hnodup
      have hfirst := close_dropped (J := J) htable (hopen c List.mem_cons_self)
      have hstill : ∀ d ∈ cs, ((close (closeCallback J) w c).conns d).state ≠ .CLOSED := by
        intro d hd
        have hne : d ≠ c := fun h => hnew (h ▸ hd)
        rw [hfirst.state d hne]
        exact hopen d (List.mem_cons_of_mem c hd)
      have hrest := ih (hfirst.tableAgrees htable) hnodup hstill
      constructor
      case closed =>
        intro d hd
        rw [List.foldl_cons]
        by_cases hmem : d ∈ cs
        · exact hrest.closed d hmem
        · rw [hrest.state d hmem]
          exact hfirst.closed d ((List.mem_cons.mp hd).resolve_right hmem)
      case state =>
        intro d hd
        obtain ⟨hne, hmem⟩ := not_or.mp fun h => hd (List.mem_cons.mpr h)
        rw [List.foldl_cons, hrest.state d hmem, hfirst.state d hne]
      case username =>
        intro d
        rw [List.foldl_cons, hrest.username, hfirst.username]
      case lastActive =>
        intro d
        rw [List.foldl_cons, hrest.lastActive, hfirst.lastActive]
      case managed =>
        intro d
        rw [List.foldl_cons, hrest.managed, hfirst.managed, List.mem_cons, not_or, and_assoc]
      case users =>
        intro name d
        rw [List.foldl_cons, hrest.users, hfirst.users, List.mem_cons, not_or, and_assoc]

end Dropped

section Tick

/-- The connection is watched, and has not been active for longer than the timeout. -/
def Idle (w : Chat) (timeoutSec : Int) (c : ConnId) : Prop :=
  c ∈ w.env.managed ∧ timeoutSec < w.now - (w.conns c).lastActive

instance (w : Chat) (timeoutSec : Int) (c : ConnId) : Decidable (Idle w timeoutSec c) :=
  inferInstanceAs (Decidable (_ ∧ _))

/-- The two states differ in the order only in which the connections under watch are visited. -/
def SameButOrder (w₁ w₂ : Chat) : Prop :=
  ∃ managed : UnorderedSet ConnId, w₂ = w₁.setManaged managed ∧
    ∀ c, c ∈ managed ↔ c ∈ w₁.env.managed

/-- The two states have the same connections under watch, the same users and the same
sessions. -/
structure SameSessions (w₁ w₂ : Chat) : Prop where
  state : ∀ c, (w₂.conns c).state = (w₁.conns c).state
  username : ∀ c, (w₂.conns c).username = (w₁.conns c).username
  lastActive : ∀ c, (w₂.conns c).lastActive = (w₁.conns c).lastActive
  managed : ∀ c, c ∈ w₂.env.managed ↔ c ∈ w₁.env.managed
  users : ∀ name, w₂.env.users.lookup name = w₁.env.users.lookup name

variable {J : JsonLib} {w : Chat}

/-- A tick drops the idle connections. -/
theorem tick_dropped
    (J : JsonLib) (htable : TableAgrees w) (hwatched : WatchedOpen w) (timeoutSec : Int) :
    Dropped (Idle w timeoutSec) w
      (ConnectionManager.tick (closeCallback J) w timeoutSec) := by
  have hmem : ∀ c, c ∈ ConnectionManager.toClose w timeoutSec ↔ Idle w timeoutSec c := by
    intro c
    rw [ConnectionManager.toClose, List.mem_filter, decide_eq_true_eq, UnorderedSet.mem_elems]
    rfl
  have hnodup : (ConnectionManager.toClose w timeoutSec).Nodup :=
    w.env.managed.nodup.filter _
  have hdropped := foldl_close_dropped (J := J) htable hnodup
    (fun c hc => hwatched c (List.mem_of_mem_filter hc))
  rwa [funext fun c => propext (hmem c)] at hdropped

/-- What is left does not depend on the order. -/
theorem Dropped.sameSessions
    {gone : ConnId → Prop} {w₁ w₂ w₁' w₂' : Chat} (h₁ : Dropped gone w₁ w₁')
    (h₂ : Dropped gone w₂ w₂') (hsame : SameSessions w₁ w₂) :
    SameSessions w₁' w₂' := by
  constructor
  case state =>
    intro c
    by_cases hc : gone c
    · rw [h₂.closed c hc, h₁.closed c hc]
    · rw [h₂.state c hc, h₁.state c hc, hsame.state]
  case username =>
    intro c
    rw [h₂.username, h₁.username, hsame.username]
  case lastActive =>
    intro c
    rw [h₂.lastActive, h₁.lastActive, hsame.lastActive]
  case managed =>
    intro c
    rw [h₂.managed, h₁.managed, hsame.managed]
  case users =>
    intro name
    ext c
    rw [h₂.users, h₁.users, hsame.users]

/-- A tick closes the idle connections, for every timeout, and drops them from the watch list
and from the table of users; every other connection keeps its session; and the order in which
the connections are visited does not matter. -/
theorem tick_closes_idle
    (J : JsonLib) (htable : TableAgrees w) (hwatched : WatchedOpen w) (timeoutSec : Int) :
    Dropped (Idle w timeoutSec) w (ConnectionManager.tick (closeCallback J) w timeoutSec) ∧
      ∀ w₂, SameButOrder w w₂ →
        SameSessions (ConnectionManager.tick (closeCallback J) w timeoutSec)
          (ConnectionManager.tick (closeCallback J) w₂ timeoutSec) := by
  refine ⟨tick_dropped J htable hwatched timeoutSec, ?_⟩
  rintro _ ⟨managed, rfl, hmanaged⟩
  have hwatched₂ : WatchedOpen (w.setManaged managed) :=
    fun c hc => hwatched c ((hmanaged c).mp hc)
  have hidle : Idle (w.setManaged managed) timeoutSec = Idle w timeoutSec := by
    funext c
    exact propext (and_congr_left fun _ => hmanaged c)
  have htable₂ : TableAgrees (w.setManaged managed) := htable
  have h₂ := tick_dropped J htable₂ hwatched₂ timeoutSec
  rw [hidle] at h₂
  exact (tick_dropped J htable hwatched timeoutSec).sameSessions h₂
    ⟨fun _ => rfl, fun _ => rfl, fun _ => rfl, hmanaged, fun _ => rfl⟩

/-- Two users have been silent for longer than the timeout, and a client has just come. -/
def idleRun : List Event :=
  twoUsersRun ++ [.clock 100, .accept 7]

theorem tick_closes_idle_idleRun :
    ∃ w w₂, runServer talkJson idleRun = .ok w ∧ Idle w 30 0 ∧ Idle w 30 1 ∧
      2 ∈ w.env.managed ∧ ¬ Idle w 30 2 ∧
      w₂.env.managed.elems = w.env.managed.elems.reverse ∧
      Dropped (Idle w 30) w (ConnectionManager.tick (closeCallback talkJson) w 30) ∧
        SameSessions (ConnectionManager.tick (closeCallback talkJson) w 30)
          (ConnectionManager.tick (closeCallback talkJson) w₂ 30) := by
  obtain ⟨w, hrun, hw⟩ := Runs.exists_ok_of_any
    (runServer talkJson idleRun)
    (fun w => Idle w 30 0 ∧ Idle w 30 1 ∧ 2 ∈ w.env.managed ∧ ¬ Idle w 30 2)
    (by decide +kernel)
  obtain ⟨hfirst, hsecond, hthird, hactive⟩ := of_decide_eq_true hw
  have hwatched : Sessions w ∧ WatchedOpen w :=
    Runs.run_invariant (fun _ _ _ h hs => WatchedOpen.step h.1 h.2 hs)
      ⟨sessions_initial, fun c hc => absurd hc (UnorderedSet.not_mem_empty c)⟩ hrun
  obtain ⟨hdropped, hsame⟩ := tick_closes_idle talkJson hwatched.1.table hwatched.2 30
  let reversed : UnorderedSet ConnId :=
    ⟨w.env.managed.elems.reverse, List.nodup_reverse.mpr w.env.managed.nodup⟩
  exact ⟨w, w.setManaged reversed, hrun, hfirst, hsecond, hthird, hactive, rfl, hdropped,
    hsame _ ⟨reversed, rfl, fun c => List.mem_reverse⟩⟩

end Tick

end Tcp
end ChatRoom
