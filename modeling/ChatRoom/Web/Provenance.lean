import ChatRoom.Web.Ledger

/-!
# Where the names of messages come from

The name that a connection stands for is the name of the last upgrade accepted on
its socket (`ConnectionsKept`).  It is carried from the token store to the HTTP
connection, handed over with the descriptor, and read by the text handler; no
other connection has the socket in the meantime.

With the ledger of logins this accounts for every message of the history
(`Authentic`).
-/

namespace ChatRoom
namespace Web

open Runs

/-- What an entry says about the upgrade of a socket. -/
def Obs.upgradeOf (socket : SocketId) : Obs → Option (Bytes × String)
  | .upgrade socket' tok u => if socket' = socket then some (tok, u) else none
  | _ => none

/-- The token and the name of the last upgrade request accepted on a socket. -/
def lastUpgrade (history : List Obs) (socket : SocketId) : Option (Bytes × String) :=
  latest (Obs.upgradeOf socket) history

theorem lastUpgrade_upgrade
    (history : List Obs) (socket socket' : SocketId) (tok : Bytes) (u : String) :
    lastUpgrade (history ++ [.upgrade socket' tok u]) socket =
      if socket' = socket then some (tok, u) else lastUpgrade history socket := by
  by_cases hsocket : socket' = socket <;> simp [lastUpgrade, Obs.upgradeOf, hsocket]

theorem lastUpgrade_append
    {history : List Obs} {o : Obs} {socket : SocketId} (ho : o.upgradeOf socket = none) :
    lastUpgrade (history ++ [o]) socket = lastUpgrade history socket := by
  simp [lastUpgrade, ho]

theorem lastUpgrade_filter
    (history : List Obs) (socket : SocketId) :
    lastUpgrade (history.filter Obs.OfSession) socket = lastUpgrade history socket := by
  rw [lastUpgrade, latest_filter, lastUpgrade]
  intro o ho
  cases o with
  | login | logout | message | upgrade | adopt =>
      cases ho
  | response | text | wrote =>
      rfl

/-- The last upgrade of a socket is an entry of the history. -/
theorem split_of_lastUpgrade
    {history : List Obs} {socket : SocketId} {tok : Bytes} {u : String}
    (h : lastUpgrade history socket = some (tok, u)) :
    ∃ past future, history = past ++ .upgrade socket tok u :: future := by
  obtain ⟨past, o, future, rfl, ho, -⟩ := latest_eq_some_iff.mp h
  cases o with
  | upgrade socket' tok' u' =>
      simp only [Obs.upgradeOf, Option.ite_none_right_eq_some, Option.some.injEq,
        Prod.mk.injEq] at ho
      obtain ⟨rfl, rfl, rfl⟩ := ho
      exact ⟨past, future, rfl⟩
  | login | logout | message | adopt | response | text | wrote =>
      cases ho

namespace Sessions

/-- The descriptor of a connection. -/
def fdOf (s : Sessions) : Target → Fd
  | .http h => (s.http h).fd
  | .ws x => (s.ws x).fd

/-- The connection has been constructed. -/
def Allocated (s : Sessions) : Target → Prop
  | .http h => h < s.httpAllocated
  | .ws x => x < s.wsAllocated

/-- The name a connection stands for. -/
def boundName (s : Sessions) : Target → Option String
  | .http h => if (s.http h).upgraded then some (s.http h).upgradedUser else none
  | .ws x => some (s.ws x).username

section Targets

variable (s : Sessions) {t : Target}

/-- Closing and upgrading a connection moves no connection to another descriptor. -/
theorem fdOf_forget
    (h : HttpId) (t : Target) :
    (s.forget h).fdOf t = s.fdOf t := by
  cases t with
  | ws x =>
      rfl
  | http h' =>
      by_cases hh : h' = h
      · subst hh
        simp [fdOf, forget]
      · simp [fdOf, forget, hh]

theorem fdOf_closeWs
    (x : WsId) (t : Target) :
    (s.closeWs x).fdOf t = s.fdOf t := by
  cases t with
  | http h =>
      rfl
  | ws x' =>
      by_cases hx : x' = x
      · subst hx
        simp [fdOf, closeWs]
      · simp [fdOf, closeWs, hx]

theorem fdOf_upgrade
    (h : HttpId) (tok : Bytes) (t : Target) :
    (s.upgrade h tok).fdOf t = s.fdOf t := by
  cases t with
  | ws x =>
      rfl
  | http h' =>
      by_cases hh : h' = h
      · subst hh
        simp [fdOf, upgrade]
      · simp [fdOf, upgrade, hh]

/-- Closing a connection does not take its name. -/
theorem boundName_forget
    (h : HttpId) (t : Target) :
    (s.forget h).boundName t = s.boundName t := by
  cases t with
  | ws x =>
      rfl
  | http h' =>
      by_cases hh : h' = h
      · subst hh
        simp [boundName, forget]
      · simp [boundName, forget, hh]

theorem boundName_closeWs
    (x : WsId) (t : Target) :
    (s.closeWs x).boundName t = s.boundName t := by
  cases t with
  | http h =>
      rfl
  | ws x' =>
      by_cases hx : x' = x
      · subst hx
        simp [boundName, closeWs]
      · simp [boundName, closeWs, hx]

theorem fdOf_accept_new
    (fd : Fd) :
    (s.accept fd).fdOf (.http s.httpAllocated) = fd := by
  simp [fdOf, accept]

/-- A new connection does not concern those that exist. -/
theorem accept_allocated
    (fd : Fd) (ht : s.Allocated t) :
    (s.accept fd).fdOf t = s.fdOf t ∧ (s.accept fd).boundName t = s.boundName t ∧
      (s.accept fd).Allocated t := by
  cases t with
  | ws x =>
      exact ⟨rfl, rfl, ht⟩
  | http h =>
      have hne : h ≠ s.httpAllocated := Nat.ne_of_lt ht
      refine ⟨?_, ?_, Nat.lt_succ_of_lt ht⟩
      · simp [fdOf, accept, hne]
      · simp [boundName, accept, hne]

end Targets

end Sessions

section Connections

variable {P : Sessions → WsId → Prop} {s s' : Sessions}

/-- A registered connection has its descriptor to itself, a descriptor has its socket
to itself, and a connection stands for the name of the last upgrade on its
socket. -/
structure ConnectionsKept (s : Sessions) : Prop where
  registered : ∀ fd t, s.contexts fd = some t →
    s.fdOf t = fd ∧ s.Allocated t ∧ s.openFds fd = true
  hub : ∀ x ∈ s.hub, s.contexts (s.ws x).fd = some (.ws x)
  sockets : ∀ fd, s.openFds fd = true → s.sockets fd < s.nextSocket
  distinct : ∀ fd fd', s.openFds fd = true → s.openFds fd' = true →
    s.sockets fd = s.sockets fd' → fd = fd'
  named : ∀ fd t u, s.contexts fd = some t → s.boundName t = some u →
    ∃ tok, lastUpgrade s.history (s.sockets fd) = some (tok, u)

theorem connectionsKept_init :
    ConnectionsKept World.init.sessions := by
  refine ⟨?_, ?_, ?_, ?_, ?_⟩
  · intro fd t h
    cases h
  · intro x hx
    exact absurd hx (UnorderedSet.not_mem_empty x)
  · intro fd h
    cases h
  · intro fd fd' h
    cases h
  · intro fd t u h
    cases h

/-- What is said and who logs in does not matter to the connections. -/
theorem ConnectionsKept.of_history
    (h : ConnectionsKept s) {history : List Obs} {users : UnorderedSet String}
    {tokens : TokenStore}
    (hhistory : ∀ socket, lastUpgrade history socket = lastUpgrade s.history socket) :
    ConnectionsKept { s with history := history, users := users, tokens := tokens } := by
  refine ⟨h.registered, h.hub, h.sockets, h.distinct, ?_⟩
  intro fd t u ht hu
  obtain ⟨tok, htok⟩ := h.named fd t u ht hu
  exact ⟨tok, (hhistory _).trans htok⟩

/-- A connection is registered for one descriptor. -/
theorem ConnectionsKept.fd_unique
    (h : ConnectionsKept s) {fd fd' : Fd} {t : Target}
    (ht : s.contexts fd = some t) (ht' : s.contexts fd' = some t) :
    fd = fd' :=
  (h.registered fd t ht).1.symm.trans (h.registered fd' t ht').1

theorem ConnectionsKept.upgrade
    (hk : ConnectionsKept s) {fd : Fd} {h : HttpId} (hregistered : s.contexts fd = some (.http h))
    (tok : Bytes) :
    ConnectionsKept (s.upgrade h tok) := by
  have hfd : (s.http h).fd = fd := (hk.registered fd _ hregistered).1
  have hopen := (hk.registered fd _ hregistered).2.2
  refine ⟨?_, hk.hub, hk.sockets, hk.distinct, ?_⟩
  · intro fd' t ht
    obtain ⟨h₁, h₂, h₃⟩ := hk.registered fd' t ht
    refine ⟨(s.fdOf_upgrade h tok t).trans h₁, ?_, h₃⟩
    cases t with
    | http | ws =>
        exact h₂
  · intro fd' t u ht hu
    have hhistory : (s.upgrade h tok).history =
        s.history ++ [.upgrade (s.sockets (s.http h).fd) tok (s.tokens.lookup tok)] := rfl
    rw [hhistory, lastUpgrade_upgrade, hfd]
    show ∃ tok', (if s.sockets fd = s.sockets fd' then _ else _) = some (tok', u)
    by_cases hsame : fd' = fd
    · subst hsame
      rw [if_pos rfl]
      have htarget : t = .http h := by
        rw [show s.contexts fd' = some t from ht, Option.some.injEq] at hregistered
        exact hregistered
      subst htarget
      simp only [Sessions.boundName, Sessions.upgrade, Function.update_self, if_true,
        Option.some.injEq] at hu
      exact ⟨tok, by rw [hu]⟩
    · have hsockets : s.sockets fd ≠ s.sockets fd' := by
        intro heq
        exact hsame (hk.distinct fd fd' hopen (hk.registered fd' t ht).2.2 heq).symm
      rw [if_neg hsockets]
      have htarget : t ≠ .http h := by
        rintro rfl
        exact hsame (hk.fd_unique ht hregistered)
      refine hk.named fd' t u ht ?_
      cases t with
      | ws x =>
          exact hu
      | http h' =>
          have hh : h' ≠ h := fun heq => htarget (by rw [heq])
          simpa [Sessions.boundName, Sessions.upgrade, hh] using hu

/-- A connection leaves the table. -/
theorem ConnectionsKept.unregister
    (hk : ConnectionsKept s) (fd : Fd)
    (hfdOf : ∀ t, s'.fdOf t = s.fdOf t) (hallocated : ∀ t, s.Allocated t → s'.Allocated t)
    (hname : ∀ t, s'.boundName t = s.boundName t)
    (hcontexts : s'.contexts = Function.update s.contexts fd none)
    (hhub : ∀ x ∈ s'.hub, x ∈ s.hub ∧ (s.ws x).fd ≠ fd)
    (hopen : s'.openFds = s.openFds) (hsockets : s'.sockets = s.sockets)
    (hnext : s'.nextSocket = s.nextSocket) (hhistory : s'.history = s.history) :
    ConnectionsKept s' := by
  have hold (fd' : Fd) (t : Target) (ht : s'.contexts fd' = some t) :
      fd' ≠ fd ∧ s.contexts fd' = some t := by
    rw [hcontexts] at ht
    by_cases hfd : fd' = fd
    · rw [hfd, Function.update_self] at ht
      cases ht
    · rw [Function.update_of_ne hfd] at ht
      exact ⟨hfd, ht⟩
  refine ⟨?_, ?_, ?_, ?_, ?_⟩
  · intro fd' t ht
    obtain ⟨-, ht⟩ := hold fd' t ht
    obtain ⟨h₁, h₂, h₃⟩ := hk.registered fd' t ht
    exact ⟨(hfdOf t).trans h₁, hallocated t h₂, by rw [hopen, h₃]⟩
  · intro x hx
    obtain ⟨hmem, hfd⟩ := hhub x hx
    have hws : (s'.ws x).fd = (s.ws x).fd := hfdOf (.ws x)
    rw [hws, hcontexts, Function.update_of_ne hfd]
    exact hk.hub x hmem
  · rw [hopen, hsockets, hnext]
    exact hk.sockets
  · rw [hopen, hsockets]
    exact hk.distinct
  · intro fd' t u ht hu
    rw [hname] at hu
    rw [hhistory, hsockets]
    exact hk.named fd' t u (hold fd' t ht).2 hu

/-- A new connection enters the table for an open descriptor that has none. -/
theorem ConnectionsKept.register
    (hk : ConnectionsKept s) (fd : Fd) (t : Target)
    (hfree : s.contexts fd = none) (hopen : s.openFds fd = true)
    (hold : ∀ t', s.Allocated t' →
      s'.fdOf t' = s.fdOf t' ∧ s'.boundName t' = s.boundName t' ∧ s'.Allocated t')
    (hnew : s'.fdOf t = fd ∧ s'.Allocated t)
    (hcontexts : s'.contexts = Function.update s.contexts fd (some t))
    (hhub : ∀ x ∈ s'.hub, x ∈ s.hub ∨ t = .ws x)
    (hopenFds : s'.openFds = s.openFds) (hsockets : s'.sockets = s.sockets)
    (hnext : s'.nextSocket = s.nextSocket)
    (hhistory : ∀ socket, lastUpgrade s'.history socket = lastUpgrade s.history socket)
    (hname : ∀ u, s'.boundName t = some u →
      ∃ tok, lastUpgrade s.history (s.sockets fd) = some (tok, u)) :
    ConnectionsKept s' := by
  have hcases (fd' : Fd) (t' : Target) (ht : s'.contexts fd' = some t') :
      fd' = fd ∧ t' = t ∨ s.contexts fd' = some t' := by
    rw [hcontexts] at ht
    by_cases hfd : fd' = fd
    · rw [hfd, Function.update_self, Option.some.injEq] at ht
      exact .inl ⟨hfd, ht.symm⟩
    · rw [Function.update_of_ne hfd] at ht
      exact .inr ht
  refine ⟨?_, ?_, ?_, ?_, ?_⟩
  · intro fd' t' ht
    rw [hopenFds]
    rcases hcases fd' t' ht with ⟨rfl, rfl⟩ | ht
    · exact ⟨hnew.1, hnew.2, hopen⟩
    · obtain ⟨h₁, h₂, h₃⟩ := hk.registered fd' t' ht
      obtain ⟨hfdOf, -, hallocated⟩ := hold t' h₂
      exact ⟨hfdOf.trans h₁, hallocated, h₃⟩
  · intro x hx
    rw [hcontexts]
    rcases hhub x hx with hmem | rfl
    · have hregistered := hk.hub x hmem
      have hfdOf : (s'.ws x).fd = (s.ws x).fd :=
        (hold (.ws x) (hk.registered _ _ hregistered).2.1).1
      have hfd : (s.ws x).fd ≠ fd := by
        intro heq
        rw [heq, hfree] at hregistered
        cases hregistered
      rw [hfdOf, Function.update_of_ne hfd]
      exact hregistered
    · have hfd : (s'.ws x).fd = fd := hnew.1
      rw [hfd, Function.update_self]
  · rw [hopenFds, hsockets, hnext]
    exact hk.sockets
  · rw [hopenFds, hsockets]
    exact hk.distinct
  · intro fd' t' u ht hu
    rw [hhistory, hsockets]
    rcases hcases fd' t' ht with ⟨rfl, rfl⟩ | ht
    · exact hname u hu
    · rw [(hold t' (hk.registered fd' t' ht).2.1).2.1] at hu
      exact hk.named fd' t' u ht hu

theorem ConnectionsKept.forget
    (hk : ConnectionsKept s) {fd : Fd} {h : HttpId}
    (hregistered : s.contexts fd = some (.http h)) :
    ConnectionsKept (s.forget h) := by
  have hfd : (s.http h).fd = fd := (hk.registered fd _ hregistered).1
  refine hk.unregister (s.http h).fd (s.fdOf_forget h) ?_ (s.boundName_forget h) rfl ?_
    rfl rfl rfl rfl
  · intro t ht
    cases t with
    | http | ws =>
        exact ht
  · intro x hx
    refine ⟨hx, ?_⟩
    rw [hfd]
    intro heq
    have := hk.hub x hx
    rw [heq, hregistered] at this
    cases this

/-- Closing a descriptor that belongs to no connection. -/
theorem ConnectionsKept.closeFd
    (hk : ConnectionsKept s) (fd : Fd) (hfree : s.contexts fd = none) :
    ConnectionsKept { s with openFds := Function.update s.openFds fd false } := by
  have hopen (fd' : Fd) (h : Function.update s.openFds fd false fd' = true) :
      s.openFds fd' = true := by
    by_cases hfd : fd' = fd
    · simp [hfd] at h
    · simpa [hfd] using h
  refine ⟨?_, hk.hub, ?_, ?_, hk.named⟩
  · intro fd' t ht
    obtain ⟨h₁, h₂, h₃⟩ := hk.registered fd' t ht
    have hne : fd' ≠ fd := by
      rintro rfl
      rw [show s.contexts fd' = some t from ht] at hfree
      cases hfree
    refine ⟨h₁, h₂, ?_⟩
    show Function.update s.openFds fd false fd' = true
    rw [Function.update_of_ne hne, h₃]
  · intro fd' h
    exact hk.sockets fd' (hopen fd' h)
  · intro fd₁ fd₂ h₁ h₂
    exact hk.distinct fd₁ fd₂ (hopen fd₁ h₁) (hopen fd₂ h₂)

/-- A descriptor that is not open belongs to no connection. -/
theorem ConnectionsKept.free_of_closed
    (hk : ConnectionsKept s) {fd : Fd} (hclosed : s.openFds fd = false) :
    s.contexts fd = none := by
  cases ht : s.contexts fd with
  | none =>
      rfl
  | some t =>
      rw [(hk.registered fd t ht).2.2] at hclosed
      cases hclosed

/-- Opening a descriptor for a new socket. -/
theorem ConnectionsKept.openFd
    (hk : ConnectionsKept s) {fd : Fd} (hclosed : s.openFds fd = false) :
    ConnectionsKept
      { s with
        openFds := Function.update s.openFds fd true
        sockets := Function.update s.sockets fd s.nextSocket
        nextSocket := s.nextSocket + 1 } := by
  have hopen (fd' : Fd) (hfd : fd' ≠ fd) (h : Function.update s.openFds fd true fd' = true) :
      s.openFds fd' = true := by
    simpa [hfd] using h
  have hother (fd' : Fd) (t : Target) (ht : s.contexts fd' = some t) :
      fd' ≠ fd := by
    rintro rfl
    rw [hk.free_of_closed hclosed] at ht
    cases ht
  refine ⟨?_, hk.hub, ?_, ?_, ?_⟩
  · intro fd' t ht
    obtain ⟨h₁, h₂, h₃⟩ := hk.registered fd' t ht
    refine ⟨h₁, h₂, ?_⟩
    show Function.update s.openFds fd true fd' = true
    rw [Function.update_of_ne (hother fd' t ht), h₃]
  · intro fd' h
    show Function.update s.sockets fd s.nextSocket fd' < s.nextSocket + 1
    by_cases hfd : fd' = fd
    · rw [hfd, Function.update_self]
      exact Nat.lt_succ_self _
    · rw [Function.update_of_ne hfd]
      exact Nat.lt_succ_of_lt (hk.sockets fd' (hopen fd' hfd h))
  · intro fd₁ fd₂ h₁ h₂ heq
    have heq : Function.update s.sockets fd s.nextSocket fd₁ =
        Function.update s.sockets fd s.nextSocket fd₂ := heq
    by_cases hfd₁ : fd₁ = fd
    · by_cases hfd₂ : fd₂ = fd
      · rw [hfd₁, hfd₂]
      · rw [hfd₁, Function.update_self, Function.update_of_ne hfd₂] at heq
        exact absurd heq (Nat.ne_of_gt (hk.sockets fd₂ (hopen fd₂ hfd₂ h₂)))
    · by_cases hfd₂ : fd₂ = fd
      · rw [hfd₂, Function.update_self, Function.update_of_ne hfd₁] at heq
        exact absurd heq (Nat.ne_of_lt (hk.sockets fd₁ (hopen fd₁ hfd₁ h₁)))
      · rw [Function.update_of_ne hfd₁, Function.update_of_ne hfd₂] at heq
        exact hk.distinct fd₁ fd₂ (hopen fd₁ hfd₁ h₁) (hopen fd₂ hfd₂ h₂) heq
  · intro fd' t u ht hu
    obtain ⟨tok, htok⟩ := hk.named fd' t u ht (by cases t <;> exact hu)
    refine ⟨tok, ?_⟩
    show lastUpgrade s.history (Function.update s.sockets fd s.nextSocket fd') = _
    rw [Function.update_of_ne (hother fd' t ht)]
    exact htok

theorem ConnectionsKept.closeHttp
    (hk : ConnectionsKept s) {fd : Fd} {h : HttpId}
    (hregistered : s.contexts fd = some (.http h)) :
    ConnectionsKept (s.closeHttp h) := by
  refine (hk.forget hregistered).closeFd (s.http h).fd ?_
  simp [Sessions.forget]

theorem ConnectionsKept.closeWs
    (hk : ConnectionsKept s) {fd : Fd} {x : WsId} (hregistered : s.contexts fd = some (.ws x)) :
    ConnectionsKept (s.closeWs x) := by
  have hfd : (s.ws x).fd = fd := (hk.registered fd _ hregistered).1
  have hdrop : ConnectionsKept
      { s with
        ws := Function.update s.ws x { s.ws x with state := .CLOSED }
        contexts := Function.update s.contexts (s.ws x).fd none
        hub := s.hub.erase x } := by
    refine hk.unregister (s.ws x).fd ?_ ?_ ?_ rfl ?_ rfl rfl rfl rfl
    · intro t
      have hfdOf := s.fdOf_closeWs x t
      cases t with
      | http | ws =>
          exact hfdOf
    · intro t ht
      cases t with
      | http | ws =>
          exact ht
    · intro t
      have hname := s.boundName_closeWs x t
      cases t with
      | http | ws =>
          exact hname
    · intro x' hx'
      obtain ⟨hne, hmem⟩ := UnorderedSet.mem_erase.mp hx'
      refine ⟨hmem, ?_⟩
      intro heq
      have := hk.hub x' hmem
      rw [heq, hfd, hregistered, Option.some.injEq, Target.ws.injEq] at this
      exact hne this.symm
  exact hdrop.closeFd _ (Function.update_self _ _ _)

/-- A descriptor without a connection gets a new WebSocket connection. -/
def Sessions.adopt (s : Sessions) (fd : Fd) (u : String) : Sessions :=
  { s with
    ws := Function.update s.ws s.wsAllocated { fd := fd, state := .ACTIVE, username := u }
    wsAllocated := s.wsAllocated + 1
    contexts := Function.update s.contexts fd (some (.ws s.wsAllocated))
    hub := s.hub.insert s.wsAllocated
    history := s.history ++ [.adopt (s.sockets fd) s.wsAllocated u] }

theorem Sessions.fdOf_adopt_new
    (s : Sessions) (fd : Fd) (u : String) :
    (s.adopt fd u).fdOf (.ws s.wsAllocated) = fd := by
  simp [Sessions.fdOf, Sessions.adopt]

theorem Sessions.adopt_allocated
    (s : Sessions) (fd : Fd) (u : String) {t : Target} (ht : s.Allocated t) :
    (s.adopt fd u).fdOf t = s.fdOf t ∧ (s.adopt fd u).boundName t = s.boundName t ∧
      (s.adopt fd u).Allocated t := by
  cases t with
  | http h =>
      exact ⟨rfl, rfl, ht⟩
  | ws x =>
      have hne : x ≠ s.wsAllocated := Nat.ne_of_lt ht
      refine ⟨?_, ?_, Nat.lt_succ_of_lt ht⟩
      · simp [Sessions.fdOf, Sessions.adopt, hne]
      · simp [Sessions.boundName, Sessions.adopt, hne]

theorem ConnectionsKept.adopt
    (hk : ConnectionsKept s) {fd : Fd} {u : String} (hfree : s.contexts fd = none)
    (hopen : s.openFds fd = true)
    (hname : ∃ tok, lastUpgrade s.history (s.sockets fd) = some (tok, u)) :
    ConnectionsKept (s.adopt fd u) := by
  refine hk.register fd (.ws s.wsAllocated) hfree hopen (fun t => s.adopt_allocated fd u)
    ⟨s.fdOf_adopt_new fd u, Nat.lt_succ_self _⟩ rfl ?_ rfl rfl rfl
    (fun _ => lastUpgrade_append rfl) ?_
  · intro x hx
    rcases UnorderedSet.mem_insert.mp hx with rfl | hmem
    · exact .inr rfl
    · exact .inl hmem
  · intro v hv
    simp only [Sessions.boundName, Sessions.adopt, Function.update_self,
      Option.some.injEq] at hv
    exact hv ▸ hname

theorem handOver_eq
    (s : Sessions) (h : HttpId) :
    s.handOver h = (s.forget h).adopt (s.http h).fd (s.http h).upgradedUser := by
  unfold Sessions.handOver Sessions.adopt Sessions.forget
  dsimp only
  rw [Function.update_idem]

theorem ConnectionsKept.handOver
    (hk : ConnectionsKept s) {fd : Fd} {h : HttpId} (hregistered : s.contexts fd = some (.http h))
    (hupgraded : (s.http h).upgraded = true) :
    ConnectionsKept (s.handOver h) := by
  obtain ⟨hfd, -, hopen⟩ := hk.registered fd _ hregistered
  have hfd : (s.http h).fd = fd := hfd
  rw [handOver_eq]
  refine (hk.forget hregistered).adopt ?_ ?_ ?_
  · simp [Sessions.forget]
  · rw [hfd]
    exact hopen
  · rw [hfd]
    refine hk.named fd _ _ hregistered ?_
    simp [Sessions.boundName, hupgraded]

theorem ConnectionsKept.accept
    (hk : ConnectionsKept s) {fd : Fd} (hclosed : s.openFds fd = false) :
    ConnectionsKept (s.accept fd) := by
  refine (hk.openFd hclosed).register fd (.http s.httpAllocated) (hk.free_of_closed hclosed)
    (Function.update_self _ _ _) ?_ ⟨s.fdOf_accept_new fd, Nat.lt_succ_self _⟩ rfl
    (fun _ hx => .inl hx) rfl rfl rfl (fun _ => rfl) ?_
  · intro t ht
    cases t with
    | ws | http =>
        exact s.accept_allocated fd ht
  · intro u hu
    simp [Sessions.boundName, Sessions.accept] at hu

theorem connectionsKept_act
    (hact : Act P s s') (hk : ConnectionsKept s) :
    ConnectionsKept s' := by
  cases hact with
  | talk htalk =>
      cases htalk with
      | login u | logout tok | post tok m | speak fd x m =>
          exact hk.of_history fun _ => lastUpgrade_append rfl
      | upgrade fd h tok hregistered =>
          exact hk.upgrade hregistered tok
  | forget fd h hregistered =>
      exact hk.forget hregistered
  | closeHttp fd h hregistered =>
      exact hk.closeHttp hregistered
  | handOver fd h hregistered hupgraded =>
      exact hk.handOver hregistered hupgraded
  | closeWs fd x hregistered =>
      exact hk.closeWs hregistered
  | accept fd hclosed =>
      exact hk.accept hclosed

end Connections

section Messages

variable {P : Sessions → WsId → Prop} {s s' : Sessions}

/-- What accounts for an entry of the history: the valid token of a request, or the
last upgrade of a socket. -/
def Authentic (past : List Obs) : Obs → Prop
  | .message m (.request tok) _ => m.from_ ≠ "" ∧ nameOf past tok = m.from_
  | .message m (.frame socket) _ => ∃ tok, lastUpgrade past socket = some (tok, m.from_)
  | .upgrade _ tok u => u ≠ "" ∧ nameOf past tok = u
  | .adopt socket _ u => ∃ tok, lastUpgrade past socket = some (tok, u)
  | _ => True

/-- Tokens, connections and history together. -/
structure Accounted (s : Sessions) : Prop where
  tokens : TokensAgree s
  connections : ConnectionsKept s
  history : Justified Authentic s.history

theorem accounted_init :
    Accounted World.init.sessions :=
  ⟨tokensAgree_init, connectionsKept_init, justified_nil⟩

theorem authentic_act
    (hact : Act P s s') (h : Accounted s) :
    Justified Authentic s'.history := by
  cases hact with
  | talk htalk =>
      cases htalk with
      | login u hnew hname =>
          exact h.history.snoc trivial
      | logout tok hvalid =>
          exact h.history.snoc trivial
      | post tok m hvalid hfrom =>
          refine h.history.snoc ⟨?_, ?_⟩
          · rw [hfrom]
            exact hvalid
          · rw [hfrom, h.tokens.name]
      | speak fd x m hregistered hfrom hallowed =>
          refine h.history.snoc ?_
          have hfd : (s.ws x).fd = fd := (h.connections.registered fd _ hregistered).1
          rw [hfd]
          refine h.connections.named fd _ m.from_ hregistered ?_
          rw [hfrom]
          rfl
      | upgrade fd h' tok hregistered hvalid =>
          exact h.history.snoc ⟨hvalid, (h.tokens.name tok).symm⟩
  | handOver fd h' hregistered hupgraded =>
      refine h.history.snoc ?_
      have hfd : (s.http h').fd = fd := (h.connections.registered fd _ hregistered).1
      rw [hfd]
      refine h.connections.named fd _ _ hregistered ?_
      simp [Sessions.boundName, hupgraded]
  | forget | closeHttp | closeWs | accept =>
      exact h.history

theorem accounted_act
    (hact : Act P s s') (h : Accounted s) :
    Accounted s' :=
  ⟨tokensAgree_act hact h.tokens, connectionsKept_act hact h.connections, authentic_act hact h⟩

/-- The history of the server is accounted for if that of the sessions is. -/
theorem authentic_trace
    {w : World} (h : Justified Authentic w.sessions.history) :
    Justified Authentic w.trace := by
  refine h.of_filter ?_ ?_
  · intro past o ho hauthentic
    cases o with
    | message m source users =>
        cases source with
        | request tok =>
            simpa only [Authentic, nameOf_filter ofSession_of_ofLedger] using hauthentic
        | frame socket =>
            simpa only [Authentic, lastUpgrade_filter] using hauthentic
    | upgrade socket tok u =>
        simpa only [Authentic, nameOf_filter ofSession_of_ofLedger] using hauthentic
    | adopt socket x u =>
        simpa only [Authentic, lastUpgrade_filter] using hauthentic
    | login | logout | response | text | wrote =>
        trivial
  · intro past o ho
    cases o with
    | login | logout | message | upgrade | adopt =>
        cases ho
    | response | text | wrote =>
        trivial

end Messages

section Runs

/-- A descriptor that can be written to. -/
def writable (fd : Fd) : Event :=
  .ready fd { input := false, output := true, failure := false }
    { pending := [], sizes := [], idle := .again } [.accepts 4096]

def upgradeRequest : Bytes :=
  bytes "GET /ws?token=tok_0000000000000001 HTTP/1.1\r\nUpgrade: websocket\r\n" ++
    bytes "Connection: Upgrade\r\nSec-WebSocket-Version: 13\r\n" ++
    bytes "Sec-WebSocket-Key: dGhlIHNhbXBsZSBub25jZQ==\r\n\r\n"

/-- A text frame of a client, masked with zeros. -/
def clientText (payload : Bytes) : Bytes :=
  [0x81, 0x80 ||| UInt8.ofNat payload.length, 0, 0, 0, 0] ++ payload

/-- A client logs in, opens a WebSocket connection and says something. -/
def chatRun : List Event :=
  loginRun ++ [writable 5, .accept 6, arrive 6 upgradeRequest, writable 6,
    arrive 6 (clientText chatBody)]

/-- The name under which an entry is a message. -/
def Obs.speaker? : Obs → Option String
  | .message m _ _ => some m.from_
  | _ => none

/-- A run in which somebody speaks has a message in its history. -/
theorem exists_message_of_speaker
    {history : List Obs} {u : String} (h : some u ∈ history.map Obs.speaker?) :
    ∃ past m source users future, history = past ++ .message m source users :: future ∧
      m.from_ = u := by
  obtain ⟨o, ho, hspeaker⟩ := List.mem_map.mp h
  cases o with
  | message m source users =>
      obtain ⟨past, future, hsplit⟩ := List.append_of_mem ho
      exact ⟨past, m, source, users, future, hsplit, Option.some.inj hspeaker⟩
  | login | logout | upgrade | adopt | response | text | wrote =>
      cases hspeaker

theorem chatRun_speaks :
    ∃ w, runServer sampleConfig chatRun = .ok w ∧
      ∃ past m source users future, w.trace = past ++ .message m source users :: future ∧
        m.from_ = "a" := by
  obtain ⟨w, hrun, hw⟩ := exists_ok_of_any
    (runServer sampleConfig chatRun)
    (fun w => some "a" ∈ w.trace.map Obs.speaker?)
    (by decide +kernel)
  exact ⟨w, hrun, exists_message_of_speaker (of_decide_eq_true hw)⟩

end Runs

end Web
end ChatRoom
