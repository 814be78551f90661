import ChatRoom.Web.Dispatch
import ChatRoom.Web.EventRule
import ChatRoom.Web.Sessions

/-!
# Every step is a sequence of session actions

The operations of the connections, the routes and the hub are followed through
the abstraction `World.sessions`.  Most of them leave the sessions alone; the
others are one of the actions of `Talk` or `Act`.  `step_acts` puts them
together.
-/

namespace ChatRoom
namespace Web

open Socket

section Stutter

variable (w : World)

/-- Writing back an HTTP connection. -/
theorem sessions_setHttp_eq
    (h : HttpId) (conn : HttpConnection) :
    (w.setHttp h conn).sessions =
      { w.sessions with http := Function.update w.sessions.http h conn.core } := by
  have hhttp : (fun h' => ((w.setHttp h conn).https h').core) =
      Function.update (fun h' => (w.https h').core) h conn.core := by
    funext h'
    by_cases hh : h' = h
    · subst hh
      simp [World.setHttp]
    · simp [World.setHttp, hh]
  unfold World.sessions
  rw [hhttp]
  rfl

/-- Writing back a WebSocket connection. -/
theorem sessions_setWs_eq
    (x : WsId) (conn : WsConnection) :
    (w.setWs x conn).sessions =
      { w.sessions with ws := Function.update w.sessions.ws x conn.core } := by
  have hws : (fun x' => ((w.setWs x conn).wss x').core) =
      Function.update (fun x' => (w.wss x').core) x conn.core := by
    funext x'
    by_cases hx : x' = x
    · subst hx
      simp [World.setWs]
    · simp [World.setWs, hx]
  unfold World.sessions
  rw [hws]
  rfl

theorem sessions_setHttp
    {w : World} {h : HttpId} {conn : HttpConnection} (hcore : conn.core = (w.https h).core) :
    (w.setHttp h conn).sessions = w.sessions := by
  rw [sessions_setHttp_eq, hcore]
  show { w.sessions with http := Function.update w.sessions.http h (w.sessions.http h) } = _
  rw [Function.update_eq_self]

theorem sessions_setWs
    {w : World} {x : WsId} {conn : WsConnection} (hcore : conn.core = (w.wss x).core) :
    (w.setWs x conn).sessions = w.sessions := by
  rw [sessions_setWs_eq, hcore]
  show { w.sessions with ws := Function.update w.sessions.ws x (w.sessions.ws x) } = _
  rw [Function.update_eq_self]

theorem sessions_modifyFd
    (fd : Fd) (events : Interest) :
    (w.modifyFd fd events).sessions = w.sessions := by
  unfold World.sessions World.modifyFd
  rw [Reactor.contexts_modifyFd]

theorem sessions_note
    {o : Obs} (ho : o.OfSession = false) :
    (w.note o).sessions = w.sessions := by
  simp [World.sessions, World.note, List.filter_append, ho]

theorem sessions_note_of_session
    {o : Obs} (ho : o.OfSession = true) :
    (w.note o).sessions = { w.sessions with history := w.sessions.history ++ [o] } := by
  simp [World.sessions, World.note, List.filter_append, ho]

theorem sessions_send
    (h : HttpId) (resp : Http.HttpResponse) :
    (HttpConnection.send w h resp).sessions = w.sessions := by
  have hnote := sessions_note w (o := .response h resp) rfl
  unfold HttpConnection.send
  dsimp only
  split
  · refine (sessions_setHttp ?_).trans hnote
    rfl
  · refine (sessions_setHttp ?_).trans ((sessions_modifyFd _ _ _).trans hnote)
    rfl

theorem sessions_queue
    (x : WsId) (frame : Bytes) :
    (WsConnection.queue w x frame).sessions = w.sessions := by
  unfold WsConnection.queue
  dsimp only
  split
  · refine sessions_setWs ?_
    rfl
  · refine (sessions_setWs ?_).trans (sessions_modifyFd _ _ _)
    rfl

theorem sessions_broadcast
    (J : JsonLib) (m : Message) :
    (WsHub.broadcast J w m).sessions = w.sessions := by
  unfold WsHub.broadcast
  generalize w.hub.elems = xs
  induction xs generalizing w with
  | nil =>
      rfl
  | cons x xs ih =>
      rw [List.foldl_cons, ih]
      unfold WsConnection.sendText
      split
      · split
        · rfl
        · exact sessions_queue w x _
      · rfl

/-- Adding a message is saying it: the broadcast is output only. -/
theorem sessions_addMessage
    (J : JsonLib) (m : Message) (source : Source) :
    (WsHub.addMessage J w m source).sessions = w.sessions.say m source := by
  rw [WsHub.addMessage, sessions_broadcast]
  simp [World.sessions, Sessions.say, World.note, List.filter_append, Obs.OfSession]

end Stutter

section Requests

variable {P : Sessions → WsId → Prop} {cfg : Config} {w w' : World} {h : HttpId} {fd : Fd}

/-- A request of a registered connection is an action, or does nothing. -/
theorem dispatch_talk
    (hregistered : w.sessions.contexts fd = some (.http h)) {req : Http.HttpRequest}
    (hok : HttpServer.dispatch cfg w h req = .ok w') :
    w'.sessions = w.sessions ∨ Talk P w.sessions w'.sessions := by
  obtain ⟨resp, w₁, heff, rfl⟩ := dispatch_handled hok
  rw [sessions_send]
  cases heff with
  | nothing =>
      exact .inl rfl
  | login u resp hstatus hname hnew =>
      have heq : (loggedIn w u).sessions = w.sessions.login u := by
        rw [loggedIn, sessions_note_of_session _ rfl]
        rfl
      rw [heq]
      exact .inr (.login u hnew hname)
  | logout resp hstatus hvalid =>
      refine .inr ?_
      generalize Routes.presentedToken cfg.json req = tok at hvalid ⊢
      have heq : (loggedOut w tok).sessions = w.sessions.logout tok := by
        rw [loggedOut, sessions_note_of_session _ rfl]
        rfl
      rw [heq]
      exact .logout tok hvalid
  | post m resp hstatus htoken hfrom =>
      rw [sessions_addMessage]
      exact .inr (.post _ m htoken.2 hfrom)
  | upgrade tok resp hstatus hvalid =>
      have heq : (markedUpgraded w h tok).sessions = w.sessions.upgrade h tok := by
        rw [markedUpgraded, sessions_note_of_session _ rfl, HttpConnection.markUpgraded,
          sessions_setHttp_eq]
        rfl
      rw [heq]
      exact .inr (.upgrade fd h tok hregistered hvalid)

end Requests

section HttpConnections

variable {P : Sessions → WsId → Prop} {cfg : Config} {w w' : World} {h : HttpId} {fd : Fd}

/-- Adopting a descriptor constructs a WebSocket connection and registers it. -/
theorem adoptConnection_sessions
    {user : String} (hok : WsHub.adoptConnection w fd user = .ok w') :
    w'.https = w.https ∧
      w'.sessions =
        { w.sessions with
          ws := Function.update w.sessions.ws w.wsAllocated
            { fd := fd, state := .ACTIVE, username := user }
          wsAllocated := w.wsAllocated + 1
          contexts := Function.update w.sessions.contexts fd (some (.ws w.wsAllocated))
          hub := w.hub.insert w.wsAllocated
          history := w.sessions.history ++
            [.adopt (w.sockets fd) w.wsAllocated user] } := by
  unfold WsHub.adoptConnection WsConnection.start at hok
  dsimp only at hok
  generalize hbase : World.note
    { w.setWs w.wsAllocated (WsConnection.new fd user) with wsAllocated := w.wsAllocated + 1 }
    (Obs.adopt _ w.wsAllocated user) = base at hok
  have hfd : (base.wss w.wsAllocated).fd = fd := by
    rw [← hbase]
    simp [World.note, World.setWs, WsConnection.new]
  have hsessions : base.sessions =
      { w.sessions with
        ws := Function.update w.sessions.ws w.wsAllocated
          { fd := fd, state := .ACTIVE, username := user }
        wsAllocated := w.wsAllocated + 1
        history := w.sessions.history ++ [.adopt (w.sockets fd) w.wsAllocated user] } := by
    have hset := sessions_setWs_eq w w.wsAllocated (WsConnection.new fd user)
    rw [← hbase, sessions_note_of_session _ rfl]
    exact congrArg (fun s : Sessions => { s with
      wsAllocated := w.wsAllocated + 1
      history := s.history ++ [Obs.adopt (w.sockets fd) w.wsAllocated user] }) hset
  have hcontexts : base.reactor.contexts = w.sessions.contexts := by
    rw [← hbase]
    rfl
  have hhttps : base.https = w.https := by
    rw [← hbase]
    rfl
  have hhub : base.hub = w.hub := by
    rw [← hbase]
    rfl
  rw [hfd] at hok
  obtain ⟨w₁, hstart, rfl⟩ := Runs.map_eq_ok.mp hok
  obtain ⟨r, hadd, rfl⟩ := Runs.map_eq_ok.mp hstart
  obtain ⟨-, rfl⟩ := Reactor.addFd_eq_ok hadd
  refine ⟨hhttps, ?_⟩
  rw [← hcontexts, ← hhub]
  exact congrArg (fun s : Sessions => { s with
    contexts := Function.update base.reactor.contexts fd (some (.ws w.wsAllocated))
    hub := base.hub.insert w.wsAllocated }) hsessions

/-- Erasing the entry of a descriptor in the table of connections. -/
theorem sessions_eraseConn
    (fd : Fd) :
    (w.eraseConn fd).sessions =
      { w.sessions with conns := Function.update w.sessions.conns fd none } := rfl

/-- The connection is marked as closed and leaves the table of the reactor. -/
theorem sessions_detached
    (w : World) (h : HttpId) :
    (HttpConnection.detached w h).sessions =
      { w.sessions with
        http := Function.update w.sessions.http h { w.sessions.http h with state := .CLOSED }
        contexts := Function.update w.sessions.contexts (w.https h).fd none } :=
  congrArg (fun s : Sessions => { s with
    contexts := Function.update w.sessions.contexts (w.https h).fd none })
    (sessions_setHttp_eq w h { w.https h with state := .CLOSED })

/-- Closing an HTTP connection that is registered. -/
theorem httpClose_act
    (hregistered : w.sessions.contexts fd = some (.http h)) (hopen : (w.https h).state ≠ .CLOSED)
    (hok : HttpConnection.close (HttpServer.callbacks cfg) w h = .ok w') :
    Act P w.sessions w'.sessions ∧ (w'.https h).state = .CLOSED := by
  obtain ⟨w₁, hclose, rfl⟩ := HttpConnection.close_cases hopen hok
  rcases HttpServer.onClose_cases hclose with ⟨hup, -, w₂, hadopt, rfl⟩ | ⟨hnot, rfl⟩
  · rw [HttpConnection.https_detached] at hup hadopt ⊢
    dsimp only at hup hadopt ⊢
    obtain ⟨hhttps, hadopted⟩ := adoptConnection_sessions hadopt
    have hconn : (w₂.eraseConn (w.https h).fd).https h =
        { w.https h with state := .CLOSED } := by
      rw [← HttpConnection.https_detached w h, ← hhttps]
      rfl
    rw [hconn, if_pos hup, hconn]
    refine ⟨?_, rfl⟩
    have heq : (w₂.eraseConn (w.https h).fd).sessions = w.sessions.handOver h := by
      rw [sessions_eraseConn, hadopted, sessions_detached]
      show Sessions.mk _ _ _ _ _ _ _ _ _ _ _ _ _ = Sessions.mk _ _ _ _ _ _ _ _ _ _ _ _ _
      congr 1
      exact Function.update_idem _ _ _
    rw [heq]
    exact .handOver fd h hregistered hup
  · rw [HttpConnection.https_detached] at hnot ⊢
    dsimp only at hnot ⊢
    have hconn : ((HttpConnection.detached w h).eraseConn (w.https h).fd).https h =
        { w.https h with state := .CLOSED } := HttpConnection.https_detached w h
    have hforget : ((HttpConnection.detached w h).eraseConn (w.https h).fd).sessions =
        w.sessions.forget h := by
      rw [sessions_eraseConn, sessions_detached]
      rfl
    rw [hconn]
    dsimp only
    by_cases hup : (w.https h).upgraded = true
    · rw [if_pos hup, hconn, hforget]
      exact ⟨.forget fd h hregistered, rfl⟩
    · rw [if_neg hup]
      have heq : (((HttpConnection.detached w h).eraseConn (w.https h).fd).closeFd
          (w.https h).fd).sessions = w.sessions.closeHttp h :=
        congrArg (fun s : Sessions => { s with
          openFds := Function.update w.openFds (w.https h).fd false }) hforget
      rw [heq]
      exact ⟨.closeHttp fd h hregistered, congrArg HttpConnection.state hconn⟩

/-- A connection that an operation may close: it is closed, or registered. -/
def Sessions.HttpLive (s : Sessions) (fd : Fd) (h : HttpId) : Prop :=
  (s.http h).state = .CLOSED ∨ s.contexts fd = some (.http h)

theorem httpClose_acts
    (hlive : w.sessions.HttpLive fd h)
    (hok : HttpConnection.close (HttpServer.callbacks cfg) w h = .ok w') :
    Acts P w.sessions w'.sessions ∧ w'.sessions.HttpLive fd h := by
  by_cases hclosed : (w.https h).state = .CLOSED
  · rw [HttpConnection.close, if_pos hclosed, Except.ok.injEq] at hok
    subst hok
    exact ⟨.refl, hlive⟩
  · obtain ⟨hact, hstate⟩ := httpClose_act (hlive.resolve_left hclosed) hclosed hok
    exact ⟨.single hact, .inl hstate⟩

theorem sessions_httpWrote
    (w : World) (h : HttpId) (n : Nat) :
    (HttpConnection.wrote w h n).sessions = w.sessions := by
  unfold HttpConnection.wrote
  refine (sessions_setHttp ?_).trans (sessions_note w rfl)
  rfl

/-- The connection is registered until its requests have been handled; from then on it
may be closed. -/
theorem acts_http
    (cfg : Config) (fd : Fd) (h : HttpId) (s : Sessions) :
    HttpRule cfg h (fun w => Acts P s w.sessions ∧ w.sessions.contexts fd = some (.http h))
      (fun w => Acts P s w.sessions ∧ w.sessions.HttpLive fd h) where
  receive := by
    intro w₁ readBuf hw₁
    have hset : (w₁.setHttp h { w₁.https h with readBuf := readBuf }).sessions = w₁.sessions :=
      sessions_setHttp rfl
    rw [hset]
    exact hw₁
  request := by
    rintro w₁ req w₂ ⟨hacts, hregistered⟩ hok
    rcases dispatch_talk (P := P) hregistered hok with hsame | htalk
    · rw [hsame]
      exact ⟨hacts, hregistered⟩
    · refine ⟨hacts.trans (.single (.talk htalk)), ?_⟩
      rw [htalk.contexts_eq]
      exact hregistered
  turn := by
    rintro w₁ ⟨hacts, hregistered⟩
    exact ⟨hacts, .inr hregistered⟩
  wrote := by
    intro w₁ n hw₁
    rw [sessions_httpWrote]
    exact hw₁
  flushed := by
    intro w₁ hw₁
    rw [sessions_modifyFd]
    exact hw₁
  close := by
    rintro w₁ w₂ ⟨hacts, hlive⟩ hok
    obtain ⟨hclose, hlive⟩ := httpClose_acts (P := P) hlive hok
    exact ⟨hacts.trans hclose, hlive⟩

theorem httpRead_acts
    {input : Input} (hregistered : w.sessions.contexts fd = some (.http h))
    (hok : HttpConnection.onRead (HttpServer.callbacks cfg) w h input = .ok w') :
    Acts P w.sessions w'.sessions ∧ w'.sessions.HttpLive fd h :=
  (acts_http cfg fd h w.sessions).onRead ⟨.refl, hregistered⟩ hok

end HttpConnections

section WsConnections

open Ws WsConnection

variable {P : Sessions → WsId → Prop} {J : JsonLib} {w w' : World} {x : WsId} {fd : Fd}

/-- A connection that an operation may close: it is closed, or registered. -/
def Sessions.WsLive (s : Sessions) (fd : Fd) (x : WsId) : Prop :=
  (s.ws x).state = .CLOSED ∨ s.contexts fd = some (.ws x)

theorem wsClose_acts
    (hlive : w.sessions.WsLive fd x) :
    Acts P w.sessions (close (WsHub.callbacks J) w x).sessions ∧
      (close (WsHub.callbacks J) w x).sessions.WsLive fd x := by
  by_cases hclosed : (w.wss x).state = .CLOSED
  · rw [close, if_pos hclosed]
    exact ⟨.refl, hlive⟩
  · have heq : (close (WsHub.callbacks J) w x).sessions = w.sessions.closeWs x := by
      have hset := sessions_setWs_eq w x { w.wss x with state := .CLOSED }
      have hfd : ((w.setWs x { w.wss x with state := .CLOSED }).wss x).fd = (w.wss x).fd := by
        simp [World.setWs]
      rw [close, if_neg hclosed]
      dsimp only
      generalize w.setWs x { w.wss x with state := .CLOSED } = w₁ at hset hfd ⊢
      have hclose : ((((WsHub.callbacks J).onClose (w₁.removeFd (w₁.wss x).fd) x).closeFd
          (w₁.wss x).fd)).sessions =
            { w₁.sessions with
              contexts := Function.update w₁.sessions.contexts (w₁.wss x).fd none
              hub := w₁.sessions.hub.erase x
              openFds := Function.update w₁.sessions.openFds (w₁.wss x).fd false } := rfl
      refine hclose.trans ?_
      rw [hset, hfd]
      rfl
    rw [heq]
    refine ⟨.single (.closeWs fd x (hlive.resolve_left hclosed)), .inl ?_⟩
    simp [Sessions.closeWs]

/-- The payloads handed over when the loop goes on with `rest` after a frame. -/
def textsThen (frame : Frame) (rest : List Bytes) : List Bytes :=
  match Opcode.ofCode? frame.opcode with
  | some .TEXT => frame.payload :: rest
  | some .PING => rest
  | some .PONG => rest
  | some .CLOSE => rest
  | _ => []

/-- The payloads of the text frames that `frameLoop` hands over. -/
def textsOf : Nat → Buffer → List Bytes
  | 0, _ => []
  | fuel + 1, readBuf =>
      if readBuf.readableBytes < 2 then
        []
      else
        match (tryDecode readBuf.peek readBuf.readableBytes).result with
        | .error _ => []
        | .ok r =>
            if r.consumed = -1 ∨ r.consumed = 0 then
              []
            else
              textsThen r.frame (textsOf fuel (readBuf.consume (toSize r.consumed)))

theorem textsOf_takesFrame
    {fuel : Nat} {readBuf : Buffer} {r : Ws.DecodeResult} (h : TakesFrame readBuf r) :
    textsOf (fuel + 1) readBuf =
      textsThen r.frame (textsOf fuel (readBuf.consume (toSize r.consumed))) := by
  rw [textsOf, if_neg h.enough, h.decoded]
  exact if_neg (not_or.mpr ⟨h.complete, h.valid⟩)

/-- The event lets the connection `x` read a chat message. -/
def Chats (cfg : Config) (w : World) (x : WsId) : Event → Prop
  | .ready fd events input _ =>
      w.reactor.contexts fd = some (.ws x) ∧ (events.failure ∨ events.input) ∧
        ∃ readBuf,
          recvLoop (input.pending.length + 1) (w.wss x).readBuf input = (readBuf, .drained) ∧
            ∃ payload ∈ textsOf readBuf.readableBytes readBuf,
              (WsHub.chatOf cfg.json payload).isSome
  | _ => False

theorem readBuf_queue
    (w : World) (x y : WsId) (frame : Bytes) :
    ((queue w y frame).wss x).readBuf = (w.wss x).readBuf := by
  unfold queue
  dsimp only
  by_cases hxy : x = y
  · subst hxy
    split <;> simp [World.setWs]
  · split <;> simp [World.setWs, World.modifyFd, hxy]

theorem readBuf_broadcast
    (w : World) (m : Message) :
    ((WsHub.broadcast J w m).wss x).readBuf = (w.wss x).readBuf := by
  unfold WsHub.broadcast
  generalize w.hub.elems = ys
  induction ys generalizing w with
  | nil =>
      rfl
  | cons y ys ih =>
      rw [List.foldl_cons, ih]
      unfold sendText
      split
      · split
        · rfl
        · exact readBuf_queue w x y _
      · rfl

/-- Handing over a text says it, if it is a chat message. -/
theorem onText_sessions
    (payload : Bytes) :
    (((WsHub.onText J w x payload).wss x).readBuf = (w.wss x).readBuf) ∧
      ((WsHub.onText J w x payload).sessions = w.sessions ∨
        (WsHub.chatOf J payload).isSome ∧ ∃ m : Message, m.from_ = (w.sessions.ws x).username ∧
          (WsHub.onText J w x payload).sessions =
            w.sessions.say m (.frame (w.sessions.sockets (w.sessions.ws x).fd))) := by
  unfold WsHub.onText
  cases hchat : WsHub.chatOf J payload with
  | none =>
      exact ⟨rfl, .inl rfl⟩
  | some chat =>
      refine ⟨?_, .inr ⟨rfl, _, ?_, sessions_addMessage w J _ _⟩⟩
      · exact readBuf_broadcast _ _
      · rfl

/-- Dispatch of a frame: the loop goes on with the same read buffer after at most
one message, or the connection is closed. -/
theorem frameDispatch_sessions
    (frame : Frame) (rest : List Bytes) :
    (∃ w₁, dispatch (WsHub.callbacks J) w x frame = (w₁, true) ∧
      (w₁.wss x).readBuf = (w.wss x).readBuf ∧ w₁.sessions = w.sessions ∧
        ∀ payload ∈ rest, payload ∈ textsThen frame rest) ∨
    (∃ w₁, dispatch (WsHub.callbacks J) w x frame = (w₁, true) ∧
      (w₁.wss x).readBuf = (w.wss x).readBuf ∧ textsThen frame rest = frame.payload :: rest ∧
        (WsHub.chatOf J frame.payload).isSome ∧
          ∃ m : Message, m.from_ = (w.sessions.ws x).username ∧
            w₁.sessions =
              w.sessions.say m (.frame (w.sessions.sockets (w.sessions.ws x).fd))) ∨
    dispatch (WsHub.callbacks J) w x frame = (close (WsHub.callbacks J) w x, false) := by
  unfold dispatch textsThen
  cases hcode : Opcode.ofCode? frame.opcode with
  | none =>
      exact .inr (.inr rfl)
  | some opcode =>
      cases opcode with
      | CONTINUATION | BINARY =>
          exact .inr (.inr rfl)
      | PONG =>
          exact .inl ⟨w, rfl, rfl, rfl, fun _ h => h⟩
      | PING =>
          exact .inl ⟨_, rfl, readBuf_queue w x x _, sessions_queue w x _, fun _ h => h⟩
      | CLOSE =>
          have hset : (w.setWs x { w.wss x with closeAfterWrite := true }).sessions = w.sessions :=
            sessions_setWs rfl
          have hread : ((w.setWs x { w.wss x with closeAfterWrite := true }).wss x).readBuf =
              (w.wss x).readBuf := by
            simp [World.setWs]
          exact .inl ⟨_, rfl, (readBuf_queue _ x x _).trans hread,
            (sessions_queue _ x _).trans hset, fun _ h => h⟩
      | TEXT =>
          have hnote := sessions_note w (o := .text x frame.payload) rfl
          obtain ⟨hread, hsame | ⟨hchat, m, hfrom, hsay⟩⟩ :=
            onText_sessions (J := J) (w := w.note (.text x frame.payload)) (x := x) frame.payload
          · exact .inl ⟨_, rfl, hread, hsame.trans hnote, fun _ h => List.mem_cons_of_mem _ h⟩
          · rw [hnote] at hfrom hsay
            exact .inr (.inl ⟨_, rfl, hread, rfl, hchat, m, hfrom, hsay⟩)

/-- The frames of a read buffer, one after the other.  The condition on who may
speak holds at the start, and messages do not change it. -/
theorem frameLoop_acts
    {fuel : Nat} (hstable : ∀ s m source, P s x → P (s.say m source) x)
    (hregistered : w.sessions.contexts fd = some (.ws x))
    (hallowed : ∀ payload ∈ textsOf fuel (w.wss x).readBuf,
      (WsHub.chatOf J payload).isSome → P w.sessions x)
    (hok : frameLoop (WsHub.callbacks J) x fuel w = .ok w') :
    Acts P w.sessions w'.sessions ∧ w'.sessions.WsLive fd x := by
  induction fuel generalizing w with
  | zero =>
      cases hok
      exact ⟨.refl, .inr hregistered⟩
  | succ fuel ih =>
      rcases frameLoop_cases hok with rfl | rfl | ⟨r, w₂, goes, htakes, hdispatch, hrest⟩
      · exact ⟨.refl, .inr hregistered⟩
      · exact wsClose_acts (.inr hregistered)
      have hconsume : (consume w x r.consumed).sessions = w.sessions :=
        sessions_setWs rfl
      have hread : ((consume w x r.consumed).wss x).readBuf =
          (w.wss x).readBuf.consume (toSize r.consumed) := by
        simp [consume, World.setWs]
      rw [textsOf_takesFrame htakes, ← hread] at hallowed
      rw [← hconsume] at hregistered hallowed ⊢
      generalize consume w x r.consumed = w₁ at hdispatch hregistered hallowed
      rcases frameDispatch_sessions (J := J) (w := w₁) (x := x) r.frame
          (textsOf fuel (w₁.wss x).readBuf) with
        ⟨w₃, hgoes, hbuf, hsame, htexts⟩ |
        ⟨w₃, hgoes, hbuf, htexts, hchat, m, hfrom, hsay⟩ | hclose
      · rw [hgoes] at hdispatch
        cases hdispatch
        rw [← hsame] at hregistered ⊢
        refine ih hregistered ?_ hrest
        intro payload hpayload hchat
        rw [hbuf] at hpayload
        rw [hsame]
        exact hallowed payload (htexts payload hpayload) hchat
      · rw [hgoes] at hdispatch
        cases hdispatch
        rw [htexts] at hallowed
        have hspeaks := hallowed _ List.mem_cons_self hchat
        have hregistered' : w₂.sessions.contexts fd = some (.ws x) := by
          rw [hsay]
          exact hregistered
        have hallowed' : ∀ payload ∈ textsOf fuel (w₂.wss x).readBuf,
            (WsHub.chatOf J payload).isSome → P w₂.sessions x := by
          rw [hsay]
          exact fun _ _ _ => hstable _ _ _ hspeaks
        obtain ⟨hacts, hlive⟩ := ih hregistered' hallowed' hrest
        refine ⟨.head (.talk ?_) hacts, hlive⟩
        rw [hsay]
        exact .speak fd x m hregistered hfrom hspeaks
      · rw [hclose] at hdispatch
        cases hdispatch
        cases hrest
        exact wsClose_acts (.inr hregistered)

theorem wsRead_acts
    {input : Input} (hstable : ∀ s m source, P s x → P (s.say m source) x)
    (hregistered : w.sessions.contexts fd = some (.ws x))
    (hallowed : ∀ readBuf,
      recvLoop (input.pending.length + 1) (w.wss x).readBuf input = (readBuf, .drained) →
        ∀ payload ∈ textsOf readBuf.readableBytes readBuf,
          (WsHub.chatOf J payload).isSome → P w.sessions x)
    (hok : WsConnection.onRead (WsHub.callbacks J) w x input = .ok w') :
    Acts P w.sessions w'.sessions ∧ w'.sessions.WsLive fd x := by
  rw [WsConnection.onRead] at hok
  cases hreceived : recvLoop (input.pending.length + 1) (w.wss x).readBuf input with
  | mk readBuf ending =>
      have hset : (w.setWs x { w.wss x with readBuf := readBuf }).sessions = w.sessions :=
        sessions_setWs rfl
      have hread : ((w.setWs x { w.wss x with readBuf := readBuf }).wss x).readBuf = readBuf := by
        simp [World.setWs]
      rw [hreceived] at hok
      cases ending with
      | hangup =>
          cases hok
          rw [← hset] at hregistered ⊢
          exact wsClose_acts (.inr hregistered)
      | drained =>
          have htexts := hallowed readBuf hreceived
          rw [← hset] at hregistered htexts ⊢
          refine frameLoop_acts hstable hregistered ?_ hok
          rw [hread]
          exact htexts

theorem sessions_wsWrote
    (w : World) (x : WsId) (n : Nat) :
    (WsConnection.wrote w x n).sessions = w.sessions := by
  unfold WsConnection.wrote
  refine (sessions_setWs ?_).trans (sessions_note w rfl)
  rfl

theorem wsWrite_acts
    {sends : List SendResult} (hlive : w.sessions.WsLive fd x) :
    Acts P w.sessions (WsConnection.onWrite (WsHub.callbacks J) x w sends).sessions := by
  refine (WsConnection.onWrite_keeps
    (I := fun w₁ => Acts P w.sessions w₁.sessions ∧ w₁.sessions.WsLive fd x)
    ?_ ?_ ?_ ⟨.refl, hlive⟩ sends).1
  · rintro w₁ n ⟨hacts, hlive⟩
    rw [sessions_wsWrote]
    exact ⟨hacts, hlive⟩
  · rintro w₁ ⟨hacts, hlive⟩
    obtain ⟨hclose, hlive⟩ := wsClose_acts (P := P) (J := J) hlive
    exact ⟨hacts.trans hclose, hlive⟩
  · rintro w₁ - ⟨hacts, hlive⟩
    rw [sessions_setWs (by rfl), sessions_modifyFd]
    exact ⟨hacts, hlive⟩

end WsConnections

section Steps

variable {P : Sessions → WsId → Prop} {cfg : Config} {w w' : World}

theorem emplaceConn_sessions
    (w : World) (fd : Fd) (h : HttpId) :
    (HttpServer.emplaceConn w fd h).sessions =
      { w.sessions with
        conns :=
          match w.conns fd with
          | some _ => w.conns
          | none => Function.update w.conns fd (some h) } := by
  unfold HttpServer.emplaceConn
  cases hfd : w.conns fd <;> rfl

/-- A new socket. -/
theorem onAccept_sessions
    {fd : Fd} (hok : HttpServer.onAccept w fd = .ok w') :
    w'.sessions = w.sessions.accept fd := by
  unfold HttpServer.onAccept HttpConnection.start at hok
  dsimp only at hok
  have hset := sessions_setHttp_eq w w.httpAllocated (HttpConnection.new fd)
  have hfd : ((w.setHttp w.httpAllocated (HttpConnection.new fd)).https w.httpAllocated).fd =
      fd := by
    simp [World.setHttp, HttpConnection.new]
  rw [hfd] at hok
  obtain ⟨w₁, hstart, rfl⟩ := Runs.map_eq_ok.mp hok
  obtain ⟨r, hadd, rfl⟩ := Runs.map_eq_ok.mp hstart
  obtain ⟨-, rfl⟩ := Reactor.addFd_eq_ok hadd
  rw [emplaceConn_sessions]
  exact congrArg (fun s : Sessions => { s with
    httpAllocated := w.httpAllocated + 1
    contexts := Function.update w.reactor.contexts fd (some (.http w.httpAllocated))
    conns :=
      match w.conns fd with
      | some _ => w.conns
      | none => Function.update w.conns fd (some w.httpAllocated)
    openFds := Function.update w.openFds fd true
    sockets := Function.update w.sockets fd w.nextSocket
    nextSocket := w.nextSocket + 1 }) hset

/-- What the reactor does with a descriptor that is ready. -/
theorem handleEvent_acts
    {fd : Fd} {events : Ready} {input : Input} {sends : List SendResult} {target : Target}
    (hstable : ∀ s m source x, P s x → P (s.say m source) x)
    (hallowed : ∀ x, Chats cfg w x (.ready fd events input sends) → P w.sessions x)
    (htarget : w.reactor.contexts fd = some target)
    (hok : handleEvent cfg w fd events input sends = .ok w') :
    Acts P w.sessions w'.sessions := by
  cases target with
  | http h =>
      exact ((acts_http cfg fd h w.sessions).handleEvent htarget ⟨.refl, htarget⟩ hok).1
  | ws x =>
      have hregistered : w.sessions.contexts fd = some (.ws x) := htarget
      obtain ⟨w₁, hread, hwrite⟩ := handleEvent_cases htarget hok
      have hspeaks (hreads : events.failure ∨ events.input) (readBuf : Buffer)
          (hreceived : recvLoop (input.pending.length + 1) (w.wss x).readBuf input =
            (readBuf, .drained)) (payload : Bytes)
          (hpayload : payload ∈ textsOf readBuf.readableBytes readBuf)
          (hchat : (WsHub.chatOf cfg.json payload).isSome) :
          P w.sessions x :=
        hallowed x ⟨htarget, hreads, readBuf, hreceived, payload, hpayload, hchat⟩
      have hfirst : Acts P w.sessions w₁.sessions ∧ w₁.sessions.WsLive fd x := by
        split at hread
        · next hreads =>
            rw [Bool.or_eq_true] at hreads
            exact wsRead_acts (hstable · · · x) hregistered (hspeaks hreads) hread
        · cases hread
          exact ⟨.refl, .inr hregistered⟩
      rcases hwrite with rfl | ⟨-, -, hwrite⟩
      · exact hfirst.1
      · cases hwrite
        exact hfirst.1.trans (wsWrite_acts hfirst.2)

/-- Every step is a sequence of session actions in which only those connections
speak that may do so at its start. -/
theorem step_acts
    {e : Event} (hstable : ∀ s m source x, P s x → P (s.say m source) x)
    (hallowed : ∀ x, Chats cfg w x e → P w.sessions x) (hok : step cfg w e = .ok w') :
    Acts P w.sessions w'.sessions := by
  cases step_cases hok with
  | idle now files =>
      exact .refl
  | accept hnew haccept =>
      rw [onAccept_sessions haccept]
      exact .single (.accept _ hnew)
  | handle ht hhandle =>
      exact handleEvent_acts hstable hallowed ht hhandle

/-- What the actions keep holds of every run. -/
theorem runServer_invariant
    {I : Sessions → Prop} (hinit : I World.init.sessions)
    (hact : ∀ s s', Act (fun _ _ => True) s s' → I s → I s')
    {events : List Event} (hrun : runServer cfg events = .ok w) :
    I w.sessions := by
  refine Runs.run_invariant (I := fun w => I w.sessions) ?_ hinit hrun
  intro w₁ e w₂ hI hstep
  exact Acts.keeps hact (step_acts (fun _ _ _ _ h => h) (fun _ _ => trivial) hstep) hI

end Steps

end Web
end ChatRoom
