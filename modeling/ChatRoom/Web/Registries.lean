import ChatRoom.Web.Locality

/-!
# The tables of the owners

A connection is in the table of its owner, `HttpServer::conns_` or `WsHub::conns_`, and its
callbacks are in the table of the reactor.  The tables should agree (`RegistriesAgree`).

Accepting, closing and handing over keep them together.  `HttpServer::stop` drops connections
and leaves their callbacks in the reactor, so the tables agree as long as it finds none to
drop.  `WsHub::remove` reads an iterator that it has just erased: for a member of the hub what
it does is undefined, and no state is reached (`registries_agree_iff`).
-/

namespace ChatRoom
namespace Web

open Http Socket Runs

/-- The descriptor of a connection of the HTTP server. -/
def HttpHolds (w : World) (fd : Fd) : Prop :=
  ∃ fd' h, w.conns fd' = some h ∧ (w.https h).fd = fd

/-- The descriptor of a connection of the hub. -/
def HubHolds (w : World) (fd : Fd) : Prop :=
  ∃ x ∈ w.hub, (w.wss x).fd = fd

/-- The descriptors with callbacks are those of the connections, each in one table. -/
structure RegistriesAgree (w : World) : Prop where
  registered : ∀ fd, (w.reactor.contexts fd).isSome = true ↔ HttpHolds w fd ∨ HubHolds w fd
  once : ∀ fd, ¬ (HttpHolds w fd ∧ HubHolds w fd)

/-- The server, and whether the HTTP server is listening.  Its listening descriptor is not
in the tables of the world. -/
structure Site where
  world : World
  listening : Bool

/-- What happens to the server. -/
inductive Occurrence where
  /-- an event of the reactor -/
  | event (e : Event)
  /-- somebody else opens a descriptor -/
  | openFd (fd : Fd)
  /-- `WsHub::adoptConnection` is called -/
  | adopt (fd : Fd) (username : String)
  /-- `WsHub::remove` is called -/
  | remove (x : WsId)
  /-- `HttpServer::stop` is called -/
  | stop

/-- A descriptor is opened for a new socket. -/
def World.openFd (w : World) (fd : Fd) : World :=
  { w with
    openFds := Function.update w.openFds fd true
    sockets := Function.update w.sockets fd w.nextSocket
    nextSocket := w.nextSocket + 1 }

/-- Why an occurrence reaches no state. -/
inductive Fault where
  /-- an exception escapes -/
  | thrown (exn : Exn)
  /-- the behaviour is undefined -/
  | undefined
deriving DecidableEq

/-- `WsHub::remove`: `delete *it` reads the iterator that `conns_.erase(it)` has invalidated. -/
def WsHub.remove (w : World) (x : WsId) : Except Fault World :=
  if x ∈ w.hub then .error .undefined else .ok w

/-- `HttpServer::stop`: `conns_.clear()` -/
def HttpServer.stop (w : World) : World :=
  { w with conns := fun _ => none }

namespace Site

/-- The server when it has started. -/
def init : Site where
  world := World.init
  listening := true

/-- Nothing is accepted when the server does not listen. -/
def deaf (s : Site) : Event → Bool
  | .accept _ => !s.listening
  | _ => false

/-- What an occurrence does.  `epoll_ctl` fails for descriptors that are not open. -/
def step (cfg : Config) (s : Site) : Occurrence → Except Fault Site
  | .event e =>
      if s.deaf e then
        .ok s
      else
        ((Web.step cfg s.world e).mapError .thrown).map fun w => { s with world := w }
  | .openFd fd => .ok (if s.world.openFds fd then s else { s with world := s.world.openFd fd })
  | .adopt fd username =>
      if s.world.openFds fd then
        ((WsHub.adoptConnection s.world fd username).mapError .thrown).map fun w =>
          { s with world := w }
      else
        .error (.thrown .runtimeError)
  | .remove x => (WsHub.remove s.world x).map fun w => { s with world := w }
  | .stop => .ok { world := HttpServer.stop s.world, listening := false }

/-- `stop` finds no connection to drop. -/
def StopsEmpty (s : Site) : Occurrence → Prop
  | .stop => ∀ fd, s.world.conns fd = none
  | _ => True

/-- `remove` is not called for a member of the hub. -/
def RemovesNoMember (s : Site) : Occurrence → Prop
  | .remove x => x ∉ s.world.hub
  | _ => True

end Site

section Kept

variable {P : Reactor Target → Prop}
variable {cfg : Config} {J : JsonLib} {h : HttpId} {x : WsId} {w w' : World}

theorem kept_queue
    (rule : Reactor.Rule P) (hkept : P w.reactor) (x : WsId) (frame : Bytes) :
    P (WsConnection.queue w x frame).reactor := by
  unfold WsConnection.queue
  dsimp only
  split
  · exact hkept
  · exact rule.modifyFd _ _ _ hkept

theorem kept_sendText
    (rule : Reactor.Rule P) (hkept : P w.reactor) (x : WsId) (payload : Bytes) :
    P (WsConnection.sendText w x payload).reactor := by
  unfold WsConnection.sendText
  split
  · exact hkept
  · exact kept_queue rule hkept x _

theorem kept_addMessage
    (rule : Reactor.Rule P) (hkept : P w.reactor) (J : JsonLib) (m : Message)
    (source : Source) :
    P (WsHub.addMessage J w m source).reactor := by
  have hloop (ys : List WsId) (text : Bytes) (w : World) (hw : P w.reactor) :
      P (ys.foldl (WsConnection.announceTo text) w).reactor := by
    induction ys generalizing w with
    | nil =>
        exact hw
    | cons y ys ih =>
        rw [List.foldl_cons, WsConnection.announceTo_eq]
        exact ih _ (kept_sendText rule hw y text)
  exact hloop w.hub.elems (J.dump (WsHub.wsJson m)) _ hkept

theorem kept_onText
    (rule : Reactor.Rule P) (hkept : P w.reactor) (J : JsonLib) (x : WsId) (payload : Bytes) :
    P (WsHub.onText J w x payload).reactor := by
  unfold WsHub.onText
  split
  · exact hkept
  · exact kept_addMessage rule hkept J _ _

theorem kept_wsClose
    (rule : Reactor.Rule P) (hkept : P w.reactor) (J : JsonLib) (x : WsId) :
    P (WsConnection.close (WsHub.callbacks J) w x).reactor := by
  unfold WsConnection.close
  split
  · exact hkept
  · have hset : P (w.setWs x { w.wss x with state := .CLOSED }).reactor := hkept
    generalize w.setWs x { w.wss x with state := .CLOSED } = w₁ at hset
    refine rule.descriptorClosed _ _ (rule.removeFd _ (w₁.wss x).fd hset) ?_
    exact Function.update_self _ _ _

theorem kept_wsDispatch
    (rule : Reactor.Rule P) (hkept : P w.reactor) (J : JsonLib) (x : WsId) (f : Ws.Frame) :
    P (WsConnection.dispatch (WsHub.callbacks J) w x f).1.reactor := by
  unfold WsConnection.dispatch
  split
  · have hnote : P (w.note (.text x f.payload)).reactor := hkept
    exact kept_onText rule hnote J x _
  · exact kept_queue rule hkept x _
  · exact hkept
  · exact kept_wsClose rule hkept J x
  · have hset : P (w.setWs x { w.wss x with closeAfterWrite := true }).reactor := hkept
    exact kept_queue rule hset x _
  · exact kept_wsClose rule hkept J x

theorem kept_ws
    (rule : Reactor.Rule P) (J : JsonLib) (x : WsId) :
    WsRule J x fun w => P w.reactor where
  receive _ _ hw := hw
  dispatch _ f _ hw := kept_wsDispatch rule hw J x f
  wrote _ _ hw := hw
  flushed _ hw := rule.modifyFd _ _ _ hw
  close _ hw := kept_wsClose rule hw J x

theorem kept_send
    (rule : Reactor.Rule P) (hkept : P w.reactor) (h : HttpId) (resp : HttpResponse) :
    P (HttpConnection.send w h resp).reactor := by
  unfold HttpConnection.send
  dsimp only
  split
  · exact hkept
  · exact rule.modifyFd _ _ _ hkept

theorem kept_request
    (rule : Reactor.Rule P) (hkept : P w.reactor) {req : HttpRequest}
    (hok : HttpServer.dispatch cfg w h req = .ok w') :
    P w'.reactor := by
  obtain ⟨resp, w₁, heff, rfl⟩ := dispatch_handled hok
  refine kept_send rule ?_ h resp
  cases heff with
  | nothing | login | logout | upgrade =>
      exact hkept
  | post m =>
      exact kept_addMessage rule hkept cfg.json m _

theorem kept_adoptConnection
    (rule : Reactor.Rule P) (hkept : P w.reactor) {fd : Fd} {user : String}
    (hok : WsHub.adoptConnection w fd user = .ok w') :
    P w'.reactor := by
  obtain ⟨w₁, hstart, rfl⟩ := map_eq_ok.mp hok
  obtain ⟨r, hadd, rfl⟩ := map_eq_ok.mp hstart
  exact rule.addFd w.reactor _ _ _ r hkept hadd

/-- The descriptor has left the table when it is closed. -/
theorem kept_httpClose
    (rule : Reactor.Rule P) (hkept : P w.reactor)
    (hok : HttpConnection.close (HttpServer.callbacks cfg) w h = .ok w') :
    P w'.reactor := by
  by_cases hclosed : (w.https h).state = .CLOSED
  · rw [HttpConnection.close, if_pos hclosed, Except.ok.injEq] at hok
    subst hok
    exact hkept
  · obtain ⟨w₁, hclose, rfl⟩ := HttpConnection.close_cases hclosed hok
    have hdetached : P (HttpConnection.detached w h).reactor :=
      rule.removeFd w.reactor _ hkept
    rcases HttpServer.onClose_cases hclose with ⟨hup, -, w₂, hadopt, rfl⟩ | ⟨-, rfl⟩
    · have hhttps := (adoptConnection_sessions hadopt).1
      rw [← hhttps] at hup
      have hup' : ((w₂.eraseConn ((HttpConnection.detached w h).https h).fd).https h).upgraded =
          true := hup
      rw [if_pos hup']
      have hw₂ : P w₂.reactor := kept_adoptConnection rule hdetached hadopt
      exact hw₂
    · split
      · exact hdetached
      · refine rule.descriptorClosed _ _ hdetached ?_
        rw [World.eraseConn]
        dsimp only
        rw [HttpConnection.https_detached]
        exact Function.update_self _ _ _

theorem kept_http
    (rule : Reactor.Rule P) (cfg : Config) (h : HttpId) :
    HttpRule cfg h (fun w => P w.reactor) fun w => P w.reactor where
  receive _ _ hw := hw
  request _ _ _ hw hok := kept_request rule hw hok
  turn _ hw := hw
  wrote _ _ hw := hw
  flushed _ hw := rule.modifyFd _ _ _ hw
  close _ _ hw hok := kept_httpClose rule hw hok

/-- What the operations of the reactor keep, the steps of the server keep. -/
theorem kept_step
    (rule : Reactor.Rule P) (hkept : P w.reactor) {e : Event} (hok : step cfg w e = .ok w') :
    P w'.reactor := by
  cases step_cases hok with
  | idle now files =>
      exact hkept
  | accept hnew haccept =>
      obtain ⟨w₁, hstart, rfl⟩ := map_eq_ok.mp haccept
      obtain ⟨r, hadd, rfl⟩ := map_eq_ok.mp hstart
      have hr : P r := rule.addFd w.reactor _ _ _ r hkept hadd
      unfold HttpServer.emplaceConn
      split
      · exact hr
      · exact hr
  | @handle _ _ _ _ t _ ht hhandle =>
      cases t with
      | http h =>
          exact (kept_http rule cfg h).handleEvent ht hkept hhandle
      | ws x =>
          exact (kept_ws rule cfg.json x).handleEvent ht hkept hhandle

end Kept

/-- The tables agree on every connection, and the connections are constructed and open. -/
structure Registry (s : Sessions) : Prop where
  http : ∀ fd h, s.contexts fd = some (.http h) ↔ s.conns fd = some h
  ws : ∀ fd x, s.contexts fd = some (.ws x) ↔ x ∈ s.hub ∧ (s.ws x).fd = fd
  registered : ∀ fd t, s.contexts fd = some t →
    s.fdOf t = fd ∧ s.Allocated t ∧ s.openFds fd = true

section Registry

variable {P : Sessions → WsId → Prop} {s s' : Sessions} {fd : Fd} {h : HttpId} {x : WsId}

theorem registry_init :
    Registry World.init.sessions where
  http fd h := by
    constructor
    · intro hcontext
      cases hcontext
    · intro hconn
      cases hconn
  ws fd x := by
    constructor
    · intro hcontext
      cases hcontext
    · rintro ⟨hx, -⟩
      exact absurd hx (UnorderedSet.not_mem_empty x)
  registered fd t hcontext := by cases hcontext

/-- A connection leaves the tables. -/
theorem Registry.unregister
    (hr : Registry s) (fd : Fd)
    (hcontexts : s'.contexts = Function.update s.contexts fd none)
    (hconns : s'.conns = Function.update s.conns fd none)
    (hhub : ∀ y, y ∈ s'.hub ↔ y ∈ s.hub ∧ (s.ws y).fd ≠ fd)
    (hfdOf : ∀ t, s'.fdOf t = s.fdOf t) (hallocated : ∀ t, s.Allocated t → s'.Allocated t)
    (hopen : ∀ fd', fd' ≠ fd → s'.openFds fd' = s.openFds fd') :
    Registry s' where
  http fd' h := by
    rw [hcontexts, hconns]
    by_cases hfd : fd' = fd
    · simp [hfd]
    · simpa [hfd] using hr.http fd' h
  ws fd' y := by
    have hws : (s'.ws y).fd = (s.ws y).fd := hfdOf (.ws y)
    rw [hcontexts, hhub, hws]
    by_cases hfd : fd' = fd
    · rw [hfd, Function.update_self]
      refine iff_of_false (fun hcontext => by cases hcontext) ?_
      rintro ⟨⟨-, hne⟩, heq⟩
      exact hne heq
    · rw [Function.update_of_ne hfd, hr.ws fd' y]
      constructor
      · rintro ⟨hy, rfl⟩
        exact ⟨⟨hy, hfd⟩, rfl⟩
      · rintro ⟨⟨hy, -⟩, heq⟩
        exact ⟨hy, heq⟩
  registered fd' t ht := by
    rw [hcontexts] at ht
    by_cases hfd : fd' = fd
    · rw [hfd, Function.update_self] at ht
      cases ht
    · rw [Function.update_of_ne hfd] at ht
      obtain ⟨h₁, h₂, h₃⟩ := hr.registered fd' t ht
      exact ⟨(hfdOf t).trans h₁, hallocated t h₂, (hopen fd' hfd).trans h₃⟩

/-- A new connection enters the tables for a descriptor that has none. -/
theorem Registry.register
    (hr : Registry s) (fd : Fd) (t : Target) (hfree : s.contexts fd = none)
    (hcontexts : s'.contexts = Function.update s.contexts fd (some t))
    (hnew : s'.fdOf t = fd ∧ s'.Allocated t ∧ s'.openFds fd = true)
    (hconns : ∀ fd' h, s'.conns fd' = some h ↔ s.conns fd' = some h ∨ fd' = fd ∧ t = .http h)
    (hhub : ∀ y, y ∈ s'.hub ↔ y ∈ s.hub ∨ t = .ws y)
    (hold : ∀ t', s.Allocated t' → s'.fdOf t' = s.fdOf t' ∧ s'.Allocated t')
    (hopen : ∀ fd', s.openFds fd' = true → s'.openFds fd' = true) :
    Registry s' where
  http fd' h := by
    rw [hcontexts, hconns, ← hr.http]
    by_cases hfd : fd' = fd
    · rw [hfd, Function.update_self, hfree]
      simp
    · rw [Function.update_of_ne hfd]
      simp [hfd]
  ws fd' y := by
    rw [hcontexts, hhub]
    constructor
    · intro hcontext
      by_cases hfd : fd' = fd
      · rw [hfd, Function.update_self, Option.some.injEq] at hcontext
        subst hcontext
        rw [hfd]
        exact ⟨.inr rfl, hnew.1⟩
      · rw [Function.update_of_ne hfd] at hcontext
        obtain ⟨hy, heq⟩ := (hr.ws fd' y).mp hcontext
        have hsame := (hold (.ws y) (hr.registered fd' _ hcontext).2.1).1
        exact ⟨.inl hy, hsame.trans heq⟩
    · rintro ⟨hy | rfl, rfl⟩
      · have hcontext := (hr.ws (s.ws y).fd y).mpr ⟨hy, rfl⟩
        have hsame : (s'.ws y).fd = (s.ws y).fd :=
          (hold (.ws y) (hr.registered _ _ hcontext).2.1).1
        rw [hsame, Function.update_of_ne, hcontext]
        intro heq
        rw [heq, hfree] at hcontext
        cases hcontext
      · have hfd : (s'.ws y).fd = fd := hnew.1
        rw [hfd, Function.update_self]
  registered fd' t' ht := by
    rw [hcontexts] at ht
    by_cases hfd : fd' = fd
    · rw [hfd, Function.update_self, Option.some.injEq] at ht
      rw [hfd, ← ht]
      exact hnew
    · rw [Function.update_of_ne hfd] at ht
      obtain ⟨h₁, h₂, h₃⟩ := hr.registered fd' t' ht
      obtain ⟨hfdOf, hallocated⟩ := hold t' h₂
      exact ⟨hfdOf.trans h₁, hallocated, hopen fd' h₃⟩

theorem Registry.talk
    (hr : Registry s) (htalk : Talk P s s') :
    Registry s' := by
  cases htalk with
  | login | logout | post | speak =>
      exact ⟨hr.http, hr.ws, hr.registered⟩
  | upgrade fd h tok hregistered =>
      refine ⟨hr.http, hr.ws, ?_⟩
      intro fd' t ht
      obtain ⟨h₁, h₂, h₃⟩ := hr.registered fd' t ht
      refine ⟨(s.fdOf_upgrade h tok t).trans h₁, ?_, h₃⟩
      cases t with
      | http | ws =>
          exact h₂

/-- A connection of the HTTP server has its descriptor to itself. -/
theorem Registry.hub_elsewhere
    (hr : Registry s) (hregistered : s.contexts fd = some (.http h)) {y : WsId} (hy : y ∈ s.hub) :
    (s.ws y).fd ≠ fd := by
  intro heq
  have hcontext := (hr.ws fd y).mpr ⟨hy, heq⟩
  rw [hregistered] at hcontext
  cases hcontext

/-- An HTTP connection leaves the tables, and its descriptor may be closed. -/
theorem Registry.leave
    (hr : Registry s) (hregistered : s.contexts fd = some (.http h)) (closed : Bool) :
    Registry { s.forget h with openFds := Function.update s.openFds (s.http h).fd closed } := by
  have hfd : (s.http h).fd = fd := (hr.registered fd _ hregistered).1
  refine hr.unregister (s.http h).fd rfl rfl ?_ ?_ ?_ ?_
  · intro y
    refine ⟨fun hy => ⟨hy, ?_⟩, And.left⟩
    rw [hfd]
    exact hr.hub_elsewhere hregistered hy
  · intro t
    have hfdOf := s.fdOf_forget h t
    cases t with
    | http | ws =>
        exact hfdOf
  · intro t ht
    cases t with
    | http | ws =>
        exact ht
  · intro fd' hne
    exact Function.update_of_ne hne _ _

theorem Registry.forget
    (hr : Registry s) (hregistered : s.contexts fd = some (.http h)) :
    Registry (s.forget h) := by
  have hleave := hr.leave hregistered (s.openFds (s.http h).fd)
  rwa [Function.update_eq_self] at hleave

theorem Registry.closeWs
    (hr : Registry s) (hregistered : s.contexts fd = some (.ws x)) :
    Registry (s.closeWs x) := by
  have hfd : (s.ws x).fd = fd := (hr.registered fd _ hregistered).1
  have hnone : s.conns fd = none := by
    cases hconn : s.conns fd with
    | none =>
        rfl
    | some h =>
        have hcontext := (hr.http fd h).mpr hconn
        rw [hregistered] at hcontext
        cases hcontext
  refine hr.unregister fd ?_ ?_ ?_ (s.fdOf_closeWs x) ?_ ?_
  · rw [← hfd]
    rfl
  · rw [← hnone, Function.update_eq_self]
    rfl
  · intro y
    refine UnorderedSet.mem_erase.trans ?_
    constructor
    · rintro ⟨hne, hy⟩
      refine ⟨hy, fun heq => hne ?_⟩
      have hcontext := (hr.ws fd y).mpr ⟨hy, heq⟩
      rw [hregistered, Option.some.injEq, Target.ws.injEq] at hcontext
      exact hcontext.symm
    · rintro ⟨hy, hne⟩
      refine ⟨?_, hy⟩
      rintro rfl
      exact hne hfd
  · intro t ht
    cases t with
    | http | ws =>
        exact ht
  · intro fd' hne
    have hne' : fd' ≠ (s.ws x).fd := hfd ▸ hne
    exact Function.update_of_ne hne' _ _

/-- A descriptor without a connection gets a WebSocket connection. -/
theorem Registry.adopt
    (hr : Registry s) (hfree : s.contexts fd = none) (hopen : s.openFds fd = true) (u : String) :
    Registry (s.adopt fd u) := by
  refine hr.register fd (.ws s.wsAllocated) hfree rfl
    ⟨s.fdOf_adopt_new fd u, Nat.lt_succ_self _, hopen⟩ ?_ ?_ ?_ fun _ hfd => hfd
  · intro fd' h
    simp [Sessions.adopt]
  · intro y
    refine UnorderedSet.mem_insert.trans ?_
    rw [or_comm, Target.ws.injEq]
    exact or_congr_right eq_comm
  · intro t ht
    obtain ⟨hfdOf, -, hallocated⟩ := s.adopt_allocated fd u ht
    exact ⟨hfdOf, hallocated⟩

theorem Registry.handOver
    (hr : Registry s) (hregistered : s.contexts fd = some (.http h)) :
    Registry (s.handOver h) := by
  obtain ⟨hfd, -, hopen⟩ := hr.registered fd _ hregistered
  have hfd : (s.http h).fd = fd := hfd
  rw [handOver_eq]
  refine (hr.forget hregistered).adopt ?_ ?_ _
  · simp [Sessions.forget]
  · rw [hfd]
    exact hopen

/-- A new socket. -/
theorem Registry.accept
    (hr : Registry s) (hclosed : s.openFds fd = false) :
    Registry (s.accept fd) := by
  have hfree : s.contexts fd = none := by
    cases hcontext : s.contexts fd with
    | none =>
        rfl
    | some t =>
        rw [(hr.registered fd t hcontext).2.2] at hclosed
        cases hclosed
  have hnone : s.conns fd = none := by
    cases hconn : s.conns fd with
    | none =>
        rfl
    | some h =>
        rw [(hr.http fd h).mpr hconn] at hfree
        cases hfree
  refine hr.register fd (.http s.httpAllocated) hfree rfl
    ⟨s.fdOf_accept_new fd, Nat.lt_succ_self _, Function.update_self _ _ _⟩ ?_ ?_ ?_ ?_
  · intro fd' h
    simp only [Sessions.accept, hnone]
    by_cases hfd : fd' = fd
    · simp [hfd, hnone]
    · simp [hfd]
  · intro y
    simp [Sessions.accept]
  · intro t ht
    obtain ⟨hfdOf, -, hallocated⟩ := s.accept_allocated fd ht
    exact ⟨hfdOf, hallocated⟩
  · intro fd' hopen
    by_cases hfd : fd' = fd
    · simp [Sessions.accept, hfd]
    · simpa [Sessions.accept, hfd] using hopen

theorem registry_act
    (hact : Act P s s') (hr : Registry s) :
    Registry s' := by
  cases hact with
  | talk htalk =>
      exact hr.talk htalk
  | forget fd h hregistered =>
      exact hr.forget hregistered
  | closeHttp fd h hregistered =>
      exact hr.leave hregistered false
  | handOver fd h hregistered _ =>
      exact hr.handOver hregistered
  | closeWs fd x hregistered =>
      exact hr.closeWs hregistered
  | accept fd hclosed =>
      exact hr.accept hclosed

end Registry

section Holders

variable {w : World} {fd : Fd}

/-- The HTTP server has one connection for a descriptor. -/
theorem Registry.httpHolds_iff
    (hr : Registry w.sessions) :
    HttpHolds w fd ↔ ∃ h, w.reactor.contexts fd = some (.http h) := by
  constructor
  · rintro ⟨fd', h, hconn, rfl⟩
    have hcontext : w.reactor.contexts fd' = some (.http h) := (hr.http fd' h).mpr hconn
    have hfd : (w.https h).fd = fd' := (hr.registered fd' _ hcontext).1
    exact ⟨h, by rw [hfd, hcontext]⟩
  · rintro ⟨h, hcontext⟩
    exact ⟨fd, h, (hr.http fd h).mp hcontext, (hr.registered fd _ hcontext).1⟩

theorem Registry.hubHolds_iff
    (hr : Registry w.sessions) :
    HubHolds w fd ↔ ∃ x, w.reactor.contexts fd = some (.ws x) := by
  constructor
  · rintro ⟨x, hx, hfd⟩
    exact ⟨x, (hr.ws fd x).mpr ⟨hx, hfd⟩⟩
  · rintro ⟨x, hcontext⟩
    obtain ⟨hx, hfd⟩ := (hr.ws fd x).mp hcontext
    exact ⟨x, hx, hfd⟩

theorem Registry.agree
    (hr : Registry w.sessions) :
    RegistriesAgree w where
  registered fd := by
    rw [hr.httpHolds_iff, hr.hubHolds_iff]
    cases hcontext : w.reactor.contexts fd with
    | none =>
        simp
    | some t =>
        cases t with
        | http h =>
            simp
        | ws x =>
            simp
  once fd := by
    rw [hr.httpHolds_iff, hr.hubHolds_iff]
    rintro ⟨⟨h, hhttp⟩, x, hws⟩
    rw [hhttp] at hws
    cases hws

/-- A connection of the HTTP server that is dropped leaves its callbacks behind. -/
theorem Registry.not_agree_stop
    (hr : Registry w.sessions) {h : HttpId} (hconn : w.conns fd = some h) :
    ¬ RegistriesAgree (HttpServer.stop w) := by
  intro hagree
  have hcontext : w.reactor.contexts fd = some (.http h) := (hr.http fd h).mpr hconn
  rcases (hagree.registered fd).mp (by rw [HttpServer.stop, hcontext]; rfl) with
    ⟨fd', h', hnone, -⟩ | hhub
  · cases hnone
  · obtain ⟨x, hx⟩ := hr.hubHolds_iff.mp hhub
    rw [hcontext] at hx
    cases hx

end Holders

namespace Site

variable {cfg : Config} {s s' : Site}

theorem mapError_eq_ok
    {α : Type} {r : Except Exn α} {a : α} :
    r.mapError Fault.thrown = .ok a ↔ r = .ok a := by
  cases r <;> simp [Except.mapError]

/-- The tables agree, and what is in the table of the reactor is in the epoll set. -/
structure Sound (s : Site) : Prop where
  registry : Registry s.world.sessions
  watched : s.world.reactor.Watched

theorem Sound.webStep
    (hs : Sound s) {e : Event} {w : World} (hok : Web.step cfg s.world e = .ok w) :
    Sound { s with world := w } where
  registry := by
    have hacts : Acts (fun _ _ => True) s.world.sessions w.sessions :=
      step_acts (fun _ _ _ _ h => h) (fun _ _ => trivial) hok
    exact Acts.keeps (fun _ _ => registry_act) hacts hs.registry
  watched := kept_step Reactor.watched_rule hs.watched hok

theorem Sound.openFd
    (hs : Sound s) (fd : Fd) :
    Sound { s with world := s.world.openFd fd } where
  registry := by
    obtain ⟨hhttp, hws, hregistered⟩ := hs.registry
    refine ⟨hhttp, hws, ?_⟩
    intro fd' t ht
    obtain ⟨hfd, hallocated, hopen⟩ := hregistered fd' t ht
    refine ⟨hfd, hallocated, ?_⟩
    show Function.update s.world.openFds fd true fd' = true
    by_cases hne : fd' = fd
    · rw [hne, Function.update_self]
    · rw [Function.update_of_ne hne]
      exact hopen
  watched := hs.watched

/-- `epoll_ctl` fails for a descriptor that has a connection. -/
theorem Sound.adopt
    (hs : Sound s) {fd : Fd} (hopen : s.world.openFds fd = true) {u : String} {w : World}
    (hok : WsHub.adoptConnection s.world fd u = .ok w) :
    Sound { s with world := w } where
  registry := by
    have hfree : s.world.reactor.contexts fd = none := by
      obtain ⟨w₁, hstart, -⟩ := map_eq_ok.mp hok
      obtain ⟨r, hadd, -⟩ := map_eq_ok.mp hstart
      have hfd : (((s.world.setWs s.world.wsAllocated (WsConnection.new fd u)).wss
          s.world.wsAllocated)).fd = fd := by
        simp [World.setWs, WsConnection.new]
      have hnot := (Reactor.addFd_eq_ok hadd).1
      refine hs.watched.contexts_eq_none ?_
      rw [← hfd]
      exact hnot
    have hadopt := (adoptConnection_sessions hok).2
    rw [hadopt]
    exact hs.registry.adopt hfree hopen u
  watched := kept_adoptConnection Reactor.watched_rule hs.watched hok

/-- What happens keeps the tables together, unless a connection is dropped. -/
theorem Sound.step
    (hs : Sound s) {o : Occurrence} (hdrops : StopsEmpty s o) (hok : step cfg s o = .ok s') :
    Sound s' := by
  cases o with
  | event e =>
      rw [Site.step] at hok
      split at hok
      · cases hok
        exact hs
      · obtain ⟨w, hstep, rfl⟩ := map_eq_ok.mp hok
        exact hs.webStep (mapError_eq_ok.mp hstep)
  | openFd fd =>
      cases hok
      split
      · exact hs
      · exact hs.openFd fd
  | adopt fd username =>
      rw [Site.step] at hok
      split at hok
      · next hopen =>
          obtain ⟨w, hadopt, rfl⟩ := map_eq_ok.mp hok
          exact hs.adopt hopen (mapError_eq_ok.mp hadopt)
      · cases hok
  | remove x =>
      obtain ⟨w, hremove, rfl⟩ := map_eq_ok.mp hok
      rw [WsHub.remove] at hremove
      split at hremove
      · cases hremove
      · cases hremove
        exact hs
  | stop =>
      cases hok
      have hnone : s.world.conns = fun _ => none := funext hdrops
      rw [HttpServer.stop, ← hnone]
      exact ⟨hs.registry, hs.watched⟩

/-- After an occurrence the tables agree iff it drops nothing. -/
theorem agree_step_iff
    (hs : Sound s) (o : Occurrence) :
    (∀ s', step cfg s o = .ok s' → RegistriesAgree s'.world) ↔ StopsEmpty s o := by
  constructor
  · intro hagree
    cases o with
    | event | openFd | adopt | remove =>
        trivial
    | stop =>
        intro fd
        cases hconn : s.world.conns fd with
        | none =>
            rfl
        | some h =>
            exact absurd (hagree _ rfl) (hs.registry.not_agree_stop hconn)
  · intro hdrops s' hok
    exact (hs.step hdrops hok).registry.agree

theorem sound_init :
    Sound init where
  registry := registry_init
  watched := Reactor.watched_new

/-- Only the removal of a member of the hub is undefined. -/
theorem step_defined_iff
    (s : Site) (o : Occurrence) :
    step cfg s o ≠ .error .undefined ↔ RemovesNoMember s o := by
  have hthrown (r : Except Exn World) :
      (r.mapError Fault.thrown).map (fun w => { s with world := w }) ≠ .error .undefined := by
    cases r with
    | ok | error =>
        exact fun h => by cases h
  cases o with
  | event e =>
      refine iff_of_true ?_ trivial
      rw [step]
      split
      · exact fun h => by cases h
      · exact hthrown _
  | openFd | stop =>
      exact iff_of_true (fun h => by cases h) trivial
  | adopt fd username =>
      refine iff_of_true ?_ trivial
      rw [step]
      split
      · exact hthrown _
      · exact fun h => by cases h
  | remove x =>
      rw [step, WsHub.remove, RemovesNoMember]
      by_cases hx : x ∈ s.world.hub
      · simp [hx, Except.map]
      · simp [hx, Except.map]

/-- In every sequence of accepts, requests, upgrades, closes and calls of `adoptConnection`,
`remove` and `stop`, the tables agree in every state that is reached iff `stop` is only called
when the HTTP server has no connection; and the sequence is free of undefined behaviour iff
`remove` is only called for connections that the hub does not have. -/
theorem registries_agree_iff
    (cfg : Config) (occurrences : List Occurrence) :
    ((∀ done s, done <+: occurrences → run (step cfg) init done = .ok s →
        RegistriesAgree s.world) ↔
      Meets StopsEmpty (step cfg) init occurrences) ∧
    (run (step cfg) init occurrences ≠ .error .undefined ↔
      Meets RemovesNoMember (step cfg) init occurrences) := by
  constructor
  · exact forall_passed_iff (fun s o hs _ => agree_step_iff hs o)
      (fun s o s' hs hdrops hok => hs.step hdrops hok) sound_init sound_init.registry.agree
      occurrences
  · exact run_ne_error_iff step_defined_iff init occurrences

/-- `stop` leaves the callbacks of a connection that has been accepted in the reactor. -/
theorem stopped_connections_keep_callbacks :
    ∃ s, run (step sampleConfig) init [.event (.accept 5), .stop] = .ok s ∧
      ¬ RegistriesAgree s.world := by
  obtain ⟨s, haccept, htest⟩ := exists_ok_of_any (step sampleConfig init (.event (.accept 5)))
    (fun s => s.world.conns 5 = some 0) (by decide +kernel)
  have hs := sound_init.step (by trivial) haccept
  refine ⟨_, run_cons.mpr ⟨s, haccept, rfl⟩, ?_⟩
  exact hs.registry.not_agree_stop (of_decide_eq_true htest)

end Site

end Web
end ChatRoom
