import ChatRoom.Web.Conversation
import ChatRoom.Web.EventRule
import ChatRoom.Web.Provenance

/-!
# What an event leaves alone

An event is about one connection.  `Aside t w w'` says what it cannot touch: the
other HTTP connections, the state and the input of the other WebSocket
connections, the table of the reactor for other descriptors, the sockets, and in the
history the entries about other connections and other sockets; and what is
registered anew is a new WebSocket connection on the same descriptor.
`handleEvent_aside` says this of everything the reactor does with a descriptor that
is ready.

The entries of the history are about connections and sockets that exist
(`Orderly`).
-/

namespace ChatRoom
namespace Web

open Http Socket Runs

/-- The bytes of the responses given to a connection. -/
def answered (h : HttpId) (history : List Obs) : Bytes :=
  history.flatMap fun
    | .response h' resp => if h' = h then resp.toString else []
    | _ => []

@[simp] theorem answered_append
    (h : HttpId) (past future : List Obs) :
    answered h (past ++ future) = answered h past ++ answered h future := by
  exact List.flatMap_append

/-- An entry that an event on a connection and its socket may add. -/
def Obs.Concerns (t : Target) (socket : SocketId) : Obs → Prop
  | .login _ _ => True
  | .logout _ _ => True
  | .message _ _ _ => True
  | .upgrade s _ _ => s = socket ∧ ∃ h, t = .http h
  | .adopt s _ _ => s = socket ∧ ∃ h, t = .http h
  | .response h _ => t = .http h
  | .text x _ => t = .ws x
  | .wrote s _ => s = socket

/-- The descriptor of a connection. -/
def World.fdOf (w : World) : Target → Fd
  | .http h => (w.https h).fd
  | .ws x => (w.wss x).fd

/-- Something happens to one connection. -/
structure Aside (t : Target) (w w' : World) : Prop where
  fdOf : w'.fdOf t = w.fdOf t
  sockets : w'.sockets = w.sockets
  nextSocket : w'.nextSocket = w.nextSocket
  httpAllocated : w'.httpAllocated = w.httpAllocated
  wsAllocated : w.wsAllocated ≤ w'.wsAllocated
  contexts : ∀ fd, fd ≠ w.fdOf t → w'.reactor.contexts fd = w.reactor.contexts fd
  registered : ∀ fd t', w'.reactor.contexts fd = some t' →
    w.reactor.contexts fd = some t' ∨
      fd = w.fdOf t ∧ (∃ h, t = .http h) ∧ ∃ x, t' = .ws x ∧ w.wsAllocated ≤ x
  https : ∀ h, t ≠ .http h → w'.https h = w.https h
  wss : ∀ x, t ≠ .ws x → x < w.wsAllocated →
    (w'.wss x).readBuf = (w.wss x).readBuf ∧ (w'.wss x).state = (w.wss x).state
  history : ∃ more, w'.trace = w.trace ++ more ∧
    ∀ o ∈ more, o.Concerns t (w.sockets (w.fdOf t))

section Aside

variable {t : Target} {w w' w'' : World} {o : Obs}

theorem Aside.refl
    (t : Target) (w : World) :
    Aside t w w where
  fdOf := rfl
  sockets := rfl
  nextSocket := rfl
  httpAllocated := rfl
  wsAllocated := le_rfl
  contexts _ _ := rfl
  registered _ _ hreg := .inl hreg
  https _ _ := rfl
  wss _ _ _ := ⟨rfl, rfl⟩
  history := ⟨[], by simp, by simp⟩

theorem Aside.trans
    (h : Aside t w w') (h' : Aside t w' w'') :
    Aside t w w'' where
  fdOf := h'.fdOf.trans h.fdOf
  sockets := h'.sockets.trans h.sockets
  nextSocket := h'.nextSocket.trans h.nextSocket
  httpAllocated := h'.httpAllocated.trans h.httpAllocated
  wsAllocated := h.wsAllocated.trans h'.wsAllocated
  contexts fd hfd := (h'.contexts fd (by rwa [h.fdOf])).trans (h.contexts fd hfd)
  registered fd t' hreg := by
    rcases h'.registered fd t' hreg with hreg | ⟨hfd, hhttp, x, rfl, hx⟩
    · exact h.registered fd t' hreg
    · exact .inr ⟨by rw [hfd, h.fdOf], hhttp, x, rfl, h.wsAllocated.trans hx⟩
  https h₁ hne := (h'.https h₁ hne).trans (h.https h₁ hne)
  wss x hne hx := by
    obtain ⟨hread, hstate⟩ := h.wss x hne hx
    obtain ⟨hread', hstate'⟩ := h'.wss x hne (hx.trans_le h.wsAllocated)
    exact ⟨hread'.trans hread, hstate'.trans hstate⟩
  history := by
    obtain ⟨more, htrace, hmore⟩ := h.history
    obtain ⟨more', htrace', hmore'⟩ := h'.history
    rw [h.sockets, h.fdOf] at hmore'
    refine ⟨more ++ more', by rw [htrace', htrace, List.append_assoc], ?_⟩
    intro o ho
    rcases List.mem_append.mp ho with ho | ho
    · exact hmore o ho
    · exact hmore' o ho

/-- No HTTP connection is registered anew. -/
theorem Aside.registered_http
    (h : Aside t w w') {fd : Fd} {h₁ : HttpId}
    (hreg : w'.reactor.contexts fd = some (.http h₁)) :
    w.reactor.contexts fd = some (.http h₁) := by
  rcases h.registered fd _ hreg with hreg | ⟨-, -, x, heq, -⟩
  · exact hreg
  · cases heq

/-- What has been sent on another socket. -/
theorem Aside.sentOn
    (h : Aside t w w') {socket : SocketId} (hne : w.sockets (w.fdOf t) ≠ socket) :
    sentOn socket w'.trace = sentOn socket w.trace := by
  obtain ⟨more, htrace, hmore⟩ := h.history
  rw [htrace, sentOn_append, List.append_right_eq_self, Web.sentOn, List.flatMap_eq_nil_iff]
  intro o ho
  have hconcerns := hmore o ho
  cases o with
  | wrote s bs =>
      obtain rfl : s = w.sockets (w.fdOf t) := hconcerns
      exact if_neg hne
  | login | logout | message | upgrade | adopt | response | text =>
      rfl

/-- What another connection has answered. -/
theorem Aside.answered
    (h : Aside t w w') {h₁ : HttpId} (hne : t ≠ .http h₁) :
    answered h₁ w'.trace = answered h₁ w.trace := by
  obtain ⟨more, htrace, hmore⟩ := h.history
  rw [htrace, answered_append, List.append_right_eq_self, Web.answered, List.flatMap_eq_nil_iff]
  intro o ho
  have hconcerns := hmore o ho
  cases o with
  | response h' resp =>
      obtain rfl : t = .http h' := hconcerns
      exact if_neg fun heq => hne (by rw [heq])
  | login | logout | message | upgrade | adopt | wrote | text =>
      rfl

end Aside

section Operations

variable {t : Target} {w w' : World}

/-- Tables that no connection is found by. -/
theorem Aside.of_tables
    (hhttps : w'.https = w.https) (hwss : w'.wss = w.wss) (hsockets : w'.sockets = w.sockets)
    (hnext : w'.nextSocket = w.nextSocket) (hhttp : w'.httpAllocated = w.httpAllocated)
    (hws : w'.wsAllocated = w.wsAllocated)
    (hreactor : w'.reactor.contexts = w.reactor.contexts) (htrace : w'.trace = w.trace) :
    Aside t w w' where
  fdOf := by
    cases t with
    | http h =>
        exact congrArg (fun https => (https h).fd) hhttps
    | ws x =>
        exact congrArg (fun wss => (wss x).fd) hwss
  sockets := hsockets
  nextSocket := hnext
  httpAllocated := hhttp
  wsAllocated := hws.ge
  contexts fd _ := congrFun hreactor fd
  registered fd _ hreg := .inl ((congrFun hreactor fd).symm.trans hreg)
  https h _ := congrFun hhttps h
  wss x _ _ := by rw [hwss]; exact ⟨rfl, rfl⟩
  history := ⟨[], by simp [htrace], by simp⟩

theorem aside_modifyFd
    (t : Target) (w : World) (fd : Fd) (events : Interest) :
    Aside t w (w.modifyFd fd events) :=
  .of_tables rfl rfl rfl rfl rfl rfl (Reactor.contexts_modifyFd _ _ _) rfl

theorem aside_closeFd
    (t : Target) (w : World) (fd : Fd) :
    Aside t w (w.closeFd fd) :=
  .of_tables rfl rfl rfl rfl rfl rfl rfl rfl

theorem aside_note
    (w : World) {o : Obs} (ho : o.Concerns t (w.sockets (w.fdOf t))) :
    Aside t w (w.note o) where
  fdOf := rfl
  sockets := rfl
  nextSocket := rfl
  httpAllocated := rfl
  wsAllocated := le_rfl
  contexts _ _ := rfl
  registered _ _ hreg := .inl hreg
  https _ _ := rfl
  wss _ _ _ := ⟨rfl, rfl⟩
  history := ⟨[o], rfl, by simpa using ho⟩

theorem aside_removeFd
    {t : Target} (w : World) {fd : Fd} (hfd : w.fdOf t = fd) :
    Aside t w (w.removeFd fd) where
  fdOf := by cases t <;> rfl
  sockets := rfl
  nextSocket := rfl
  httpAllocated := rfl
  wsAllocated := le_rfl
  contexts fd' hne := Function.update_of_ne (hfd ▸ hne) _ _
  registered fd' t' hreg := by
    rw [World.removeFd, Reactor.contexts_removeFd] at hreg
    by_cases hfd : fd' = fd
    · rw [hfd, Function.update_self] at hreg
      cases hreg
    · rw [Function.update_of_ne hfd] at hreg
      exact .inl hreg
  https _ _ := rfl
  wss _ _ _ := ⟨rfl, rfl⟩
  history := ⟨[], (List.append_nil _).symm, by simp⟩

theorem aside_setHttp
    (w : World) {h : HttpId} {conn : HttpConnection} (hfd : conn.fd = (w.https h).fd) :
    Aside (.http h) w (w.setHttp h conn) where
  fdOf := by simp [World.fdOf, World.setHttp, hfd]
  sockets := rfl
  nextSocket := rfl
  httpAllocated := rfl
  wsAllocated := le_rfl
  contexts _ _ := rfl
  registered _ _ hreg := .inl hreg
  wss _ _ _ := ⟨rfl, rfl⟩
  https h' hne := Function.update_of_ne (fun heq => hne (by rw [heq])) _ _
  history := ⟨[], (List.append_nil _).symm, by simp⟩

theorem aside_setWs
    (t : Target) (w : World) {x : WsId} {conn : WsConnection} (hfd : conn.fd = (w.wss x).fd)
    (hinput : t ≠ .ws x →
      conn.readBuf = (w.wss x).readBuf ∧ conn.state = (w.wss x).state) :
    Aside t w (w.setWs x conn) where
  fdOf := by
    cases t with
    | http h =>
        rfl
    | ws y =>
        by_cases hy : y = x
        · subst hy
          simp [World.fdOf, World.setWs, hfd]
        · simp [World.fdOf, World.setWs, hy]
  sockets := rfl
  nextSocket := rfl
  httpAllocated := rfl
  wsAllocated := le_rfl
  contexts _ _ := rfl
  registered _ _ hreg := .inl hreg
  https _ _ := rfl
  wss y hne _ := by
    by_cases hy : y = x
    · subst hy
      simpa [World.setWs] using hinput hne
    · simp [World.setWs, hy]
  history := ⟨[], (List.append_nil _).symm, by simp⟩

/-- A change of a WebSocket connection by its own event. -/
theorem aside_setWs_own
    (w : World) {x : WsId} {conn : WsConnection} (hfd : conn.fd = (w.wss x).fd) :
    Aside (.ws x) w (w.setWs x conn) :=
  aside_setWs (.ws x) w hfd fun hne => absurd rfl hne

end Operations

section Messages

variable {t : Target} {w w' : World}

theorem aside_queue
    (t : Target) (w : World) (x : WsId) (frame : Bytes) :
    Aside t w (WsConnection.queue w x frame) := by
  unfold WsConnection.queue
  dsimp only
  split
  · exact aside_setWs t w rfl fun _ => ⟨rfl, rfl⟩
  · exact (aside_modifyFd t w _ _).trans (aside_setWs t _ rfl fun _ => ⟨rfl, rfl⟩)

theorem aside_sendText
    (t : Target) (w : World) (x : WsId) (payload : Bytes) :
    Aside t w (WsConnection.sendText w x payload) := by
  unfold WsConnection.sendText
  split
  · exact .refl t w
  · exact aside_queue t w x _

theorem aside_broadcast
    (J : JsonLib) (t : Target) (w : World) (m : Message) :
    Aside t w (WsHub.broadcast J w m) := by
  have hloop (ys : List WsId) (text : Bytes) (w : World) :
      Aside t w (ys.foldl (WsConnection.announceTo text) w) := by
    induction ys generalizing w with
    | nil =>
        exact .refl t w
    | cons y ys ih =>
        rw [List.foldl_cons, WsConnection.announceTo_eq]
        exact (aside_sendText t w y text).trans (ih _)
  exact hloop w.hub.elems (J.dump (WsHub.wsJson m)) w

theorem aside_addMessage
    (J : JsonLib) (t : Target) (w : World) (m : Message) (source : Source) :
    Aside t w (WsHub.addMessage J w m source) := by
  refine Aside.trans ?_ (aside_broadcast J t _ m)
  have hnote : Aside t w (w.note (.message m source w.room.users)) := aside_note w trivial
  exact hnote.trans (.of_tables rfl rfl rfl rfl rfl rfl rfl rfl)

theorem aside_onText
    (J : JsonLib) (t : Target) (w : World) (x : WsId) (payload : Bytes) :
    Aside t w (WsHub.onText J w x payload) := by
  unfold WsHub.onText
  split
  · exact .refl t w
  · exact aside_addMessage J t w _ _

end Messages

section WsConnections

variable {J : JsonLib} {x : WsId} {w w' : World}

theorem aside_wsClose
    (J : JsonLib) (w : World) (x : WsId) :
    Aside (.ws x) w (WsConnection.close (WsHub.callbacks J) w x) := by
  unfold WsConnection.close
  split
  · exact .refl _ w
  · have hset : Aside (.ws x) w (w.setWs x { w.wss x with state := .CLOSED }) :=
      aside_setWs_own w rfl
    refine hset.trans ?_
    generalize w.setWs x { w.wss x with state := .CLOSED } = w₁
    have hforgotten : Aside (.ws x) (w₁.removeFd (w₁.wss x).fd)
        (WsHub.onClose (w₁.removeFd (w₁.wss x).fd) x) :=
      .of_tables rfl rfl rfl rfl rfl rfl rfl rfl
    exact (aside_removeFd w₁ rfl).trans (hforgotten.trans (aside_closeFd _ _ _))

theorem aside_wsDispatch
    (J : JsonLib) (w : World) (x : WsId) (f : Ws.Frame) :
    Aside (.ws x) w (WsConnection.dispatch (WsHub.callbacks J) w x f).1 := by
  unfold WsConnection.dispatch
  split
  · have hnote : Aside (.ws x) w (w.note (.text x f.payload)) := aside_note w rfl
    exact hnote.trans (aside_onText J _ _ x _)
  · exact aside_queue _ w x _
  · exact .refl _ w
  · exact aside_wsClose J w x
  · have hset : Aside (.ws x) w (w.setWs x { w.wss x with closeAfterWrite := true }) :=
      aside_setWs_own w rfl
    exact hset.trans (aside_queue _ _ x _)
  · exact aside_wsClose J w x

theorem aside_wsWrote
    (w : World) (x : WsId) (n : Nat) :
    Aside (.ws x) w (WsConnection.wrote w x n) := by
  have hnote : Aside (.ws x) w (w.note (.wrote (w.sockets (w.wss x).fd)
      ((w.wss x).writeBuf.readable.take n))) := aside_note w rfl
  exact hnote.trans (aside_setWs_own _ rfl)

theorem aside_ws
    (J : JsonLib) (x : WsId) (w : World) :
    WsRule J x (Aside (.ws x) w) where
  receive := by
    intro w₁ readBuf haside
    exact haside.trans (aside_setWs_own w₁ rfl)
  dispatch := by
    intro w₁ f _ haside
    exact haside.trans (aside_wsDispatch J w₁ x f)
  wrote := by
    intro w₁ n haside
    exact haside.trans (aside_wsWrote w₁ x n)
  flushed := by
    intro w₁ haside
    exact haside.trans ((aside_modifyFd _ w₁ _ _).trans (aside_setWs_own _ rfl))
  close := by
    intro w₁ haside
    exact haside.trans (aside_wsClose J w₁ x)

end WsConnections

section HttpConnections

variable {cfg : Config} {h : HttpId} {w w' : World}

theorem aside_send
    (w : World) (h : HttpId) (resp : HttpResponse) :
    Aside (.http h) w (HttpConnection.send w h resp) := by
  have hnote : Aside (.http h) w (w.note (.response h resp)) := aside_note w rfl
  unfold HttpConnection.send
  dsimp only
  split
  · exact hnote.trans (aside_setHttp _ rfl)
  · exact hnote.trans ((aside_modifyFd _ _ _ _).trans (aside_setHttp _ rfl))

theorem aside_request
    {req : HttpRequest} (hok : HttpServer.dispatch cfg w h req = .ok w') :
    Aside (.http h) w w' := by
  obtain ⟨resp, w₁, heff, rfl⟩ := dispatch_handled hok
  refine Aside.trans ?_ (aside_send w₁ h resp)
  cases heff with
  | nothing =>
      exact .refl _ w
  | login u =>
      have htables : Aside (.http h) w
          { w with room := w.room.addUser u, tokens := (w.tokens.issue u).2 } :=
        .of_tables rfl rfl rfl rfl rfl rfl rfl rfl
      exact htables.trans (aside_note _ trivial)
  | logout =>
      generalize Routes.presentedToken cfg.json req = tok
      have htables : Aside (.http h) w
          { w with
            room := w.room.removeUser (w.tokens.lookup tok)
            tokens := w.tokens.revoke tok } :=
        .of_tables rfl rfl rfl rfl rfl rfl rfl rfl
      exact htables.trans (aside_note _ trivial)
  | post m =>
      exact aside_addMessage cfg.json _ w m _
  | upgrade tok =>
      have hmark : Aside (.http h) w
          (HttpConnection.markUpgraded w h (w.tokens.lookup tok)) := aside_setHttp w rfl
      refine hmark.trans (aside_note _ ⟨?_, h, rfl⟩)
      rw [hmark.sockets, hmark.fdOf]
      rfl

/-- Adopting the descriptor of a connection registers a new WebSocket connection for it
and adds one entry to the history. -/
theorem adoptConnection_spec
    {fd : Fd} {user : String} (hfd : (w.https h).fd = fd)
    (hok : WsHub.adoptConnection w fd user = .ok w') :
    Aside (.http h) w w' ∧ w'.https = w.https ∧
      w'.trace = w.trace ++ [.adopt (w.sockets fd) w.wsAllocated user] ∧
        w'.reactor.contexts =
            Function.update w.reactor.contexts fd (some (.ws w.wsAllocated)) ∧
          w'.wss = Function.update w.wss w.wsAllocated (WsConnection.new fd user) ∧
            w'.wsAllocated = w.wsAllocated + 1 := by
  unfold WsHub.adoptConnection WsConnection.start at hok
  dsimp only at hok
  obtain ⟨w₁, hstart, rfl⟩ := map_eq_ok.mp hok
  obtain ⟨r, hadd, rfl⟩ := map_eq_ok.mp hstart
  have hconn : (Function.update w.wss w.wsAllocated (WsConnection.new fd user)
      w.wsAllocated).fd = fd := by
    simp [WsConnection.new]
  obtain ⟨-, hr⟩ := Reactor.addFd_eq_ok hadd
  have hcontexts : r.contexts =
      Function.update w.reactor.contexts fd (some (.ws w.wsAllocated)) := by
    rw [hr]
    exact congrArg
      (fun fd => Function.update w.reactor.contexts fd (some (Target.ws w.wsAllocated))) hconn
  refine ⟨?_, rfl, rfl, hcontexts, rfl, rfl⟩
  refine
    { fdOf := rfl
      sockets := rfl
      nextSocket := rfl
      httpAllocated := rfl
      wsAllocated := Nat.le_succ _
      contexts := ?_
      registered := ?_
      https := fun _ _ => rfl
      wss := ?_
      history := ⟨[.adopt (w.sockets fd) w.wsAllocated user], rfl, ?_⟩ }
  · intro fd' hne
    rw [World.fdOf, hfd] at hne
    show r.contexts fd' = w.reactor.contexts fd'
    rw [hcontexts, Function.update_of_ne hne]
  · intro fd' t' hreg
    have hreg : r.contexts fd' = some t' := hreg
    rw [hcontexts] at hreg
    by_cases hfd' : fd' = fd
    · rw [hfd', Function.update_self, Option.some.injEq] at hreg
      exact .inr ⟨by rw [World.fdOf, hfd, hfd'], ⟨h, rfl⟩, w.wsAllocated, hreg.symm, le_rfl⟩
    · rw [Function.update_of_ne hfd'] at hreg
      exact .inl hreg
  · intro x _ hx
    have hne : x ≠ w.wsAllocated := hx.ne
    simp [World.note, World.setWs, hne]
  · intro o ho
    obtain rfl := List.mem_singleton.mp ho
    exact ⟨by rw [World.fdOf, hfd], h, rfl⟩

/-- Closing an HTTP connection, with or without handing over its descriptor. -/
theorem aside_httpClose
    (hok : HttpConnection.close (HttpServer.callbacks cfg) w h = .ok w') :
    Aside (.http h) w w' := by
  by_cases hclosed : (w.https h).state = .CLOSED
  · rw [HttpConnection.close, if_pos hclosed, Except.ok.injEq] at hok
    subst hok
    exact .refl _ w
  · obtain ⟨w₁, hclose, rfl⟩ := HttpConnection.close_cases hclosed hok
    have hset : Aside (.http h) w (w.setHttp h { w.https h with state := .CLOSED }) :=
      aside_setHttp w rfl
    have hdetached : Aside (.http h) w (HttpConnection.detached w h) :=
      hset.trans (aside_removeFd _ hset.fdOf)
    have hclosed₁ : Aside (.http h) (HttpConnection.detached w h) w₁ := by
      rcases HttpServer.onClose_cases hclose with ⟨-, -, w₂, hadopt, rfl⟩ | ⟨-, rfl⟩
      · exact (adoptConnection_spec rfl hadopt).1.trans (.of_tables rfl rfl rfl rfl rfl rfl rfl rfl)
      · exact .of_tables rfl rfl rfl rfl rfl rfl rfl rfl
    refine hdetached.trans (hclosed₁.trans ?_)
    split
    · exact .refl _ w₁
    · exact aside_closeFd _ w₁ _

theorem aside_httpWrote
    (w : World) (h : HttpId) (n : Nat) :
    Aside (.http h) w (HttpConnection.wrote w h n) := by
  have hnote : Aside (.http h) w (w.note (.wrote (w.sockets (w.https h).fd)
      ((w.https h).writeBuf.readable.take n))) := aside_note w rfl
  exact hnote.trans (aside_setHttp _ rfl)

theorem aside_http
    (cfg : Config) (h : HttpId) (w : World) :
    HttpRule cfg h (Aside (.http h) w) (Aside (.http h) w) where
  receive := by
    intro w₁ readBuf haside
    exact haside.trans (aside_setHttp w₁ rfl)
  request := by
    intro w₁ req w₂ haside hok
    exact haside.trans (aside_request hok)
  turn := by
    intro w₁ haside
    exact haside
  wrote := by
    intro w₁ n haside
    exact haside.trans (aside_httpWrote w₁ h n)
  flushed := by
    intro w₁ haside
    exact haside.trans (aside_modifyFd _ w₁ _ _)
  close := by
    intro w₁ w₂ haside hok
    exact haside.trans (aside_httpClose hok)

theorem aside_httpRead
    {s : Input} (hok : HttpConnection.onRead (HttpServer.callbacks cfg) w h s = .ok w') :
    Aside (.http h) w w' :=
  (aside_http cfg h w).onRead (.refl _ w) hok

theorem aside_httpWrite
    {sends : List SendResult}
    (hok : HttpConnection.onWrite (HttpServer.callbacks cfg) h w sends = .ok w') :
    Aside (.http h) w w' :=
  (aside_http cfg h w).onWrite (.refl _ w) hok

end HttpConnections

/-- What the reactor does with a descriptor that is ready concerns the connection that is
registered for it. -/
theorem handleEvent_aside
    {cfg : Config} {w w' : World} {fd : Fd} {events : Ready} {input : Input}
    {sends : List SendResult} {t : Target} (ht : w.reactor.contexts fd = some t)
    (hok : handleEvent cfg w fd events input sends = .ok w') :
    Aside t w w' := by
  cases t with
  | http h =>
      exact (aside_http cfg h w).handleEvent ht (.refl _ w) hok
  | ws x =>
      exact (aside_ws cfg.json x w).handleEvent ht (.refl _ w) hok

section Orderly

variable {cfg : Config} {w w' : World}

/-- The connections and the socket of an entry exist. -/
def Obs.Known (w : World) : Obs → Prop
  | .login _ _ => True
  | .logout _ _ => True
  | .message _ _ _ => True
  | .upgrade s _ _ => s < w.nextSocket
  | .adopt s _ _ => s < w.nextSocket
  | .response h _ => h < w.httpAllocated
  | .text x _ => x < w.wsAllocated
  | .wrote s _ => s < w.nextSocket

/-- A WebSocket connection that is registered is open. -/
def RegisteredActive (s : Sessions) : Prop :=
  ∀ fd x, s.contexts fd = some (.ws x) → (s.ws x).state = .ACTIVE

/-- Only closing a connection ends its being open, and it ends the registration. -/
theorem registeredActive_act
    {P : Sessions → WsId → Prop} {s s' : Sessions} (hact : Act P s s') (hk : ConnectionsKept s)
    (hs : RegisteredActive s) :
    RegisteredActive s' := by
  cases hact with
  | talk htalk =>
      cases htalk with
      | login | logout | post | speak | upgrade =>
          exact hs
  | forget fd h hregistered | closeHttp fd h hregistered | accept fd hclosed =>
      intro fd' x hx
      refine hs fd' x ?_
      have hx : Function.update s.contexts _ _ fd' = some (Target.ws x) := hx
      rw [Function.update_apply] at hx
      split at hx
      · cases hx
      · exact hx
  | handOver fd h hregistered hupgraded =>
      intro fd' x hx
      have hx : Function.update s.contexts (s.http h).fd (some (.ws s.wsAllocated)) fd' =
          some (Target.ws x) := hx
      show (Function.update s.ws s.wsAllocated _ x).state = .ACTIVE
      rcases eq_or_ne x s.wsAllocated with rfl | hne
      · rw [Function.update_self]
      · rw [Function.update_of_ne hne]
        refine hs fd' x ?_
        rw [Function.update_apply] at hx
        split at hx
        · rw [Option.some.injEq, Target.ws.injEq] at hx
          exact absurd hx.symm hne
        · exact hx
  | closeWs fd y hregistered =>
      intro fd' x hx
      have hold : Function.update s.contexts (s.ws y).fd none fd' = some (Target.ws x) := hx
      show (Function.update s.ws y _ x).state = .ACTIVE
      rw [Function.update_apply] at hold
      split at hold
      · cases hold
      · next hfd =>
          have hne : x ≠ y := by
            rintro rfl
            exact hfd (hk.registered fd' _ hold).1.symm
          rw [Function.update_of_ne hne]
          exact hs fd' x hold

/-- The connections are kept, and the history is about what exists. -/
structure Orderly (w : World) : Prop where
  connections : ConnectionsKept w.sessions
  active : RegisteredActive w.sessions
  known : ∀ o ∈ w.trace, o.Known w

theorem orderly_init :
    Orderly World.init where
  connections := connectionsKept_init
  active fd x h := by cases h
  known := by simp [World.init]

theorem Obs.Known.mono
    {o : Obs} (h : o.Known w) (hsocket : w.nextSocket ≤ w'.nextSocket)
    (hhttp : w.httpAllocated ≤ w'.httpAllocated) (hws : w.wsAllocated ≤ w'.wsAllocated) :
    o.Known w' := by
  cases o with
  | login | logout | message =>
      trivial
  | upgrade | adopt | wrote =>
      exact lt_of_lt_of_le h hsocket
  | response =>
      exact lt_of_lt_of_le h hhttp
  | text =>
      exact lt_of_lt_of_le h hws

/-- A registered connection exists, and has its descriptor and an open socket. -/
theorem Orderly.registered
    (ho : Orderly w) {fd : Fd} {t : Target} (ht : w.reactor.contexts fd = some t) :
    w.fdOf t = fd ∧ w.sessions.Allocated t ∧ w.openFds fd = true ∧
      w.sockets fd < w.nextSocket := by
  obtain ⟨hfd, hallocated, hopen⟩ := ho.connections.registered fd t ht
  refine ⟨?_, hallocated, hopen, ho.connections.sockets fd hopen⟩
  cases t with
  | http | ws =>
      exact hfd

/-- The connections of the hub are open. -/
theorem Orderly.hub_active
    (ho : Orderly w) {x : WsId} (hx : x ∈ w.hub) :
    (w.wss x).state = .ACTIVE :=
  ho.active _ x (ho.connections.hub x hx)

/-- An entry about a registered connection and its socket. -/
theorem Orderly.known_of_concerns
    (ho : Orderly w) {fd : Fd} {t : Target} (ht : w.reactor.contexts fd = some t) {o : Obs}
    (hconcerns : o.Concerns t (w.sockets (w.fdOf t))) :
    o.Known w := by
  obtain ⟨hfd, hallocated, -, hsocket⟩ := ho.registered ht
  rw [hfd] at hconcerns
  cases o with
  | login | logout | message =>
      trivial
  | upgrade | adopt =>
      exact lt_of_eq_of_lt hconcerns.1 hsocket
  | wrote =>
      exact lt_of_eq_of_lt hconcerns hsocket
  | response | text =>
      obtain rfl := hconcerns
      exact hallocated

/-- What `accept4` leaves behind: a new connection on a new socket, registered for the
descriptor. -/
structure Accepted (fd : Fd) (w w' : World) : Prop where
  https : w'.https = Function.update w.https w.httpAllocated (HttpConnection.new fd)
  wss : w'.wss = w.wss
  contexts : w'.reactor.contexts =
    Function.update w.reactor.contexts fd (some (.http w.httpAllocated))
  sockets : w'.sockets = Function.update w.sockets fd w.nextSocket
  nextSocket : w'.nextSocket = w.nextSocket + 1
  httpAllocated : w'.httpAllocated = w.httpAllocated + 1
  wsAllocated : w'.wsAllocated = w.wsAllocated
  trace : w'.trace = w.trace

theorem onAccept_accepted
    {fd : Fd} (hok : HttpServer.onAccept w fd = .ok w') :
    Accepted fd w w' := by
  have hsessions := onAccept_sessions hok
  have htables : w'.https = Function.update w.https w.httpAllocated (HttpConnection.new fd) ∧
      w'.wss = w.wss ∧ w'.trace = w.trace := by
    unfold HttpServer.onAccept at hok
    dsimp only at hok
    obtain ⟨w₁, hstart, rfl⟩ := map_eq_ok.mp hok
    obtain ⟨r, -, rfl⟩ := map_eq_ok.mp hstart
    unfold HttpServer.emplaceConn
    split
    · exact ⟨rfl, rfl, rfl⟩
    · exact ⟨rfl, rfl, rfl⟩
  exact
    { https := htables.1
      wss := htables.2.1
      contexts := congrArg Sessions.contexts hsessions
      sockets := congrArg Sessions.sockets hsessions
      nextSocket := congrArg Sessions.nextSocket hsessions
      httpAllocated := congrArg Sessions.httpAllocated hsessions
      wsAllocated := congrArg Sessions.wsAllocated hsessions
      trace := htables.2.2 }

theorem Accepted.https_of_lt
    {fd : Fd} (hacc : Accepted fd w w') {h : HttpId} (hh : h < w.httpAllocated) :
    w'.https h = w.https h := by
  rw [hacc.https, Function.update_of_ne hh.ne]

/-- Nothing is forgotten: the numbers of sockets and connections grow. -/
theorem step_grows
    {e : Event} (hok : step cfg w e = .ok w') :
    w.nextSocket ≤ w'.nextSocket ∧ w.httpAllocated ≤ w'.httpAllocated ∧
      w.wsAllocated ≤ w'.wsAllocated := by
  cases step_cases hok with
  | idle now files =>
      exact ⟨le_rfl, le_rfl, le_rfl⟩
  | accept hnew haccept =>
      have hacc := onAccept_accepted haccept
      refine ⟨?_, ?_, hacc.wsAllocated.ge⟩
      · rw [hacc.nextSocket]
        exact Nat.le_succ _
      · rw [hacc.httpAllocated]
        exact Nat.le_succ _
  | handle ht hhandle =>
      have haside := handleEvent_aside ht hhandle
      exact ⟨haside.nextSocket.ge, haside.httpAllocated.ge, haside.wsAllocated⟩

/-- A step keeps the order. -/
theorem Orderly.step
    (ho : Orderly w) {e : Event} (hok : step cfg w e = .ok w') :
    Orderly w' := by
  have hacts : Acts (fun _ _ => True) w.sessions w'.sessions :=
    step_acts (fun _ _ _ _ h => h) (fun _ _ => trivial) hok
  obtain ⟨hnext, hhttp, hws⟩ := step_grows hok
  obtain ⟨hconnections, hactive⟩ :
      ConnectionsKept w'.sessions ∧ RegisteredActive w'.sessions := by
    refine Acts.keeps (I := fun s => ConnectionsKept s ∧ RegisteredActive s) ?_ hacts
      ⟨ho.connections, ho.active⟩
    rintro s s' hact ⟨hk, hs⟩
    exact ⟨connectionsKept_act hact hk, registeredActive_act hact hk hs⟩
  refine ⟨hconnections, hactive, ?_⟩
  intro o hmem
  suffices hknown : o.Known w from hknown.mono hnext hhttp hws
  cases step_cases hok with
  | idle now files =>
      exact ho.known o hmem
  | accept hnew haccept =>
      rw [(onAccept_accepted haccept).trace] at hmem
      exact ho.known o hmem
  | handle ht hhandle =>
      obtain ⟨more, htrace, hmore⟩ := (handleEvent_aside ht hhandle).history
      rw [htrace] at hmem
      rcases List.mem_append.mp hmem with hmem | hmem
      · exact ho.known o hmem
      · exact ho.known_of_concerns ht (hmore o hmem)

theorem orderly_runServer
    {events : List Event} (hrun : runServer cfg events = .ok w) :
    Orderly w :=
  run_invariant (fun _ _ _ ho hstep => ho.step hstep) orderly_init hrun

/-- A socket that has not been accepted has sent nothing. -/
theorem Orderly.sentOn_fresh
    (ho : Orderly w) {socket : SocketId} (hsocket : w.nextSocket ≤ socket) :
    sentOn socket w.trace = [] := by
  rw [sentOn, List.flatMap_eq_nil_iff]
  intro o hmem
  have hknown := ho.known o hmem
  cases o with
  | wrote s bs =>
      exact if_neg (lt_of_lt_of_le hknown hsocket).ne
  | login | logout | message | upgrade | adopt | response | text =>
      rfl

/-- A connection that does not exist has answered nothing. -/
theorem Orderly.answered_fresh
    (ho : Orderly w) {h : HttpId} (hh : w.httpAllocated ≤ h) :
    answered h w.trace = [] := by
  rw [answered, List.flatMap_eq_nil_iff]
  intro o hmem
  have hknown := ho.known o hmem
  cases o with
  | response h' resp =>
      exact if_neg (lt_of_lt_of_le hknown hh).ne
  | login | logout | message | upgrade | adopt | wrote | text =>
      rfl

end Orderly

end Web
end ChatRoom
