import ChatRoom.Http.Query
import ChatRoom.Web.CallRule
import ChatRoom.Web.Provenance

/-!
# Authenticity

The history accounts for the names of the messages (`Authentic`).  Here it is traced
back to what the clients have sent (`Traced`): a login to a request that submitted the
name and was answered with the token, an upgrade and a message of a request to the token
that the request presented, and a message of a socket to a text of the connection that
was adopted on it.
-/

namespace ChatRoom
namespace Web

open Http Routes Runs

section Tokens

/-- A token presented by a request: the value of an item of the query, or a text in the
body. -/
inductive Presents (J : JsonLib) (req : HttpRequest) : Bytes → Prop where
  | query (tok : Bytes)
      (hitem : (bytes "token", tok) ∈ (queryItems req.query).filterMap pairOf) :
      Presents J req tok
  | body (members : List (String × Json)) (s : String)
      (hdoc : J.parse req.body = some (.obj members))
      (hmember : members.lookup "token" = some (.str s)) :
      Presents J req (bytes s)

variable {J : JsonLib} {req : HttpRequest}

theorem mem_tokenItems
    (hsome : (req.getQuery (bytes "token")).isEmpty = false) :
    (bytes "token", req.getQuery (bytes "token")) ∈ (queryItems req.query).filterMap pairOf :=
  mem_pairs_of_getQuery (by decide) hsome

theorem tokenOfBody_cases
    (J : JsonLib) (body : Bytes) :
    tokenOfBody J body = [] ∨
      ∃ members s, J.parse body = some (.obj members) ∧
        members.lookup "token" = some (.str s) ∧ tokenOfBody J body = bytes s := by
  unfold tokenOfBody
  split
  · next members hdoc =>
    split
    · next s hmember =>
      exact .inr ⟨members, s, hdoc, hmember, rfl⟩
    · exact .inl rfl
  · exact .inl rfl

/-- The token that `requireToken` finds is presented by the request. -/
theorem presents_presentedToken
    (hsome : (presentedToken J req).isEmpty = false) :
    Presents J req (presentedToken J req) := by
  have heq : presentedToken J req =
      if (req.getQuery (bytes "token")).isEmpty && !req.body.isEmpty then
        tokenOfBody J req.body
      else
        req.getQuery (bytes "token") := rfl
  rw [heq] at hsome ⊢
  cases hquery : (req.getQuery (bytes "token")).isEmpty && !req.body.isEmpty with
  | true =>
      rw [hquery, if_pos rfl] at hsome
      rw [if_pos rfl]
      rcases tokenOfBody_cases J req.body with hnone | ⟨members, s, hdoc, hmember, htok⟩
      · simp [hnone] at hsome
      · rw [htok]
        exact .body members s hdoc hmember
  | false =>
      rw [hquery, if_neg (by simp)] at hsome
      rw [if_neg (by simp)]
      exact .query _ (mem_tokenItems hsome)

end Tokens

section Calls

variable (J : JsonLib) (calls : List RequestCall)

/-- The call is a login that submits the name, and its response returns the token. -/
structure LoginCall (history : List Obs) (u : String) (tok : Bytes) (c : RequestCall) : Prop where
  submits : PostsText J c.req "/api/login" "username" u
  returns : ∃ resp s, c.world.trace ++ [.login u tok, .response c.conn resp] <+: history ∧
    tok = bytes s ∧ resp.statusCode = 200 ∧
      resp.body = J.dump (.obj [("ok", .bool true), ("token", .str s), ("username", .str u)])

/-- The call posts the message with a token of the name. -/
structure PostCall (m : Message) (tok : Bytes) (c : RequestCall) : Prop where
  posts : PostsText J c.req "/api/messages" "content" m.content
  presents : Presents J c.req tok
  named : c.world.tokens.lookup tok = m.from_

/-- The call is an upgrade request on the socket with a token of the name, and is accepted. -/
structure UpgradeCall (history : List Obs) (socket : SocketId) (tok : Bytes) (u : String)
    (c : RequestCall) : Prop where
  method : c.req.method = bytes "GET"
  path : c.req.path = bytes "/ws"
  presents : (bytes "token", tok) ∈ (queryItems c.req.query).filterMap pairOf
  seat : c.world.sockets (c.world.https c.conn).fd = socket
  named : c.world.tokens.lookup tok = u
  accepted : ∃ resp, c.world.trace ++ [.upgrade socket tok u, .response c.conn resp] <+: history ∧
    resp.statusCode = 101

/-- What an entry of the history is traced back to. -/
def Traced (history past : List Obs) : Obs → Prop
  | .login u tok => ∃ c ∈ calls, c.world.trace = past ∧ LoginCall J history u tok c
  | .upgrade socket tok u =>
      ∃ c ∈ calls, c.world.trace = past ∧ UpgradeCall history socket tok u c
  | .message m (.request tok) _ => ∃ c ∈ calls, c.world.trace = past ∧ PostCall J m tok c
  | .message m (.frame socket) _ =>
      ∃ before x payload, past = before ++ [.text x payload] ∧
        WsHub.chatOf J payload = some (m.room, m.content) ∧ .adopt socket x m.from_ ∈ before
  | _ => True

/-- All entries of a history are traced back. -/
def TracedBack (history : List Obs) : Prop :=
  Justified (Traced J calls history) history

variable {J calls} {history more past : List Obs} {o : Obs}

/-- More calls and more entries do not matter to the entries there are. -/
theorem Traced.mono
    (h : Traced J calls history past o) (later : List RequestCall) (more : List Obs) :
    Traced J (calls ++ later) (history ++ more) past o := by
  have hgrows : history <+: history ++ more := List.prefix_append _ _
  cases o with
  | login u tok =>
      obtain ⟨c, hc, hpast, hsubmits, resp, s, hreturns, hrest⟩ := h
      exact ⟨c, List.mem_append_left _ hc, hpast, hsubmits, resp, s, hreturns.trans hgrows, hrest⟩
  | upgrade socket tok u =>
      obtain ⟨c, hc, hpast, hcall⟩ := h
      obtain ⟨resp, haccepted, hstatus⟩ := hcall.accepted
      exact ⟨c, List.mem_append_left _ hc, hpast,
        { hcall with accepted := ⟨resp, haccepted.trans hgrows, hstatus⟩ }⟩
  | message m source users =>
      cases source with
      | request tok =>
          obtain ⟨c, hc, hcall⟩ := h
          exact ⟨c, List.mem_append_left _ hc, hcall⟩
      | frame socket =>
          exact h
  | logout | adopt | response | text | wrote =>
      trivial

/-- The history goes on with entries of later calls. -/
theorem TracedBack.append
    (h : TracedBack J calls history) {later : List RequestCall}
    (hmore : Justified (fun past o => Traced J later (history ++ more) (history ++ past) o) more) :
    TracedBack J (calls ++ later) (history ++ more) := by
  refine Justified.concat h (fun past o ho => ho.mono later more) ?_
  intro past o future hsplit
  have htraced := hmore past o future hsplit
  cases o with
  | login u tok =>
      obtain ⟨c, hc, hcall⟩ := htraced
      exact ⟨c, List.mem_append_right _ hc, hcall⟩
  | upgrade socket tok u =>
      obtain ⟨c, hc, hcall⟩ := htraced
      exact ⟨c, List.mem_append_right _ hc, hcall⟩
  | message m source users =>
      cases source with
      | request tok =>
          obtain ⟨c, hc, hcall⟩ := htraced
          exact ⟨c, List.mem_append_right _ hc, hcall⟩
      | frame socket =>
          exact htraced
  | logout | adopt | response | text | wrote =>
      trivial

/-- The history goes on with an entry that is traced back to no call. -/
theorem TracedBack.snoc
    (h : TracedBack J calls history) (ho : Traced J [] (history ++ [o]) history o) :
    TracedBack J calls (history ++ [o]) := by
  have hback : Traced J [] (history ++ [o]) (history ++ []) o := by
    rwa [List.append_nil]
  rw [← List.append_nil calls]
  exact h.append (justified_nil.snoc hback)

end Calls

section Steps

variable {cfg : Config} {calls : List RequestCall} {w w' : World} {h : HttpId} {x : WsId}
variable {req : HttpRequest}

/-- The entries of a request are traced back to its call. -/
theorem dispatch_traced
    (hok : HttpServer.dispatch cfg w h req = .ok w') :
    ∃ more, w'.trace = w.trace ++ more ∧
      Justified (fun past o => Traced cfg.json [{ world := w, conn := h, req := req }] w'.trace
        (w.trace ++ past) o) more := by
  obtain ⟨resp, w₁, heff, rfl⟩ := dispatch_handled hok
  rw [trace_send]
  cases heff with
  | nothing =>
      exact ⟨[.response h resp], rfl, justified_nil.snoc trivial⟩
  | login u _ hstatus hname hnew hposts hreturns =>
      have htrace : (loggedIn w u).trace ++ [.response h resp] =
          w.trace ++ [.login u (bytes (w.tokens.issue u).1), .response h resp] := by
        simp [loggedIn, World.note]
      refine ⟨_, htrace, (justified_nil.snoc ?_).snoc trivial⟩
      refine ⟨_, List.mem_singleton_self _, (List.append_nil _).symm, hposts, resp, _, ?_, rfl,
        hstatus, hreturns⟩
      rw [htrace]
  | logout =>
      have htrace : (loggedOut w (presentedToken cfg.json req)).trace = w.trace ++
          [.logout (w.tokens.lookup (presentedToken cfg.json req))
            (presentedToken cfg.json req)] := rfl
      rw [htrace, List.append_assoc]
      exact ⟨_, rfl, (justified_nil.snoc trivial).snoc trivial⟩
  | post m _ hstatus htoken hfrom hposts =>
      have htrace := (addMessage_room cfg.json w m (.request (presentedToken cfg.json req))).2
      refine ⟨[.message m (.request (presentedToken cfg.json req)) w.room.users,
        .response h resp], ?_, (justified_nil.snoc ?_).snoc trivial⟩
      · simp [htrace]
      · exact ⟨_, List.mem_singleton_self _, (List.append_nil _).symm, hposts,
          presents_presentedToken htoken.1, hfrom.symm⟩
  | upgrade tok _ hstatus hvalid hrequest htoken hsome =>
      subst htoken
      have hget : req.method = bytes "GET" ∧ req.path = bytes "/ws" := by
        unfold HttpServer.isUpgrade at hrequest
        exact ⟨(of_decide_eq_true hrequest).1, (of_decide_eq_true hrequest).2.1⟩
      have htrace : (markedUpgraded w h (req.getQuery (bytes "token"))).trace ++
          [.response h resp] = w.trace ++
            [.upgrade (w.sockets (w.https h).fd) (req.getQuery (bytes "token"))
              (w.tokens.lookup (req.getQuery (bytes "token"))), .response h resp] := by
        simp [markedUpgraded, World.note, HttpConnection.markUpgraded, World.setHttp]
      refine ⟨_, htrace, (justified_nil.snoc ?_).snoc trivial⟩
      refine ⟨_, List.mem_singleton_self _, (List.append_nil _).symm, ?_⟩
      exact
        { method := hget.1
          path := hget.2
          presents := mem_tokenItems hsome
          seat := rfl
          named := rfl
          accepted := ⟨resp, htrace ▸ List.prefix_refl _, hstatus⟩ }

/-- What the operations on an HTTP connection add to the history. -/
theorem tracedBack_http
    (cfg : Config) (h : HttpId) :
    CallRule cfg h (fun calls w => TracedBack cfg.json calls w.trace)
      (fun calls w => TracedBack cfg.json calls w.trace) where
  receive _ _ _ hw := hw
  request calls w req w' hw hok := by
    obtain ⟨more, htrace, hmore⟩ := dispatch_traced hok
    rw [htrace] at hmore ⊢
    exact hw.append hmore
  turn _ _ hw := hw
  wrote _ _ _ hw := hw.snoc trivial
  flushed _ _ hw := hw
  close calls w w' hw hok := by
    rcases httpClose_entry hok with hsame | ⟨-, -, htrace⟩
    · rwa [hsame]
    · rw [htrace]
      exact hw.snoc trivial

/-- What a frame adds to the history. -/
theorem wsDispatch_entries
    (J : JsonLib) (w : World) (x : WsId) (f : Ws.Frame) :
    (WsConnection.dispatch (WsHub.callbacks J) w x f).1.trace = w.trace ∨
    (WsConnection.dispatch (WsHub.callbacks J) w x f).1.trace = w.trace ++ [.text x f.payload] ∨
    ∃ m : Message, WsHub.chatOf J f.payload = some (m.room, m.content) ∧
      m.from_ = (w.wss x).username ∧
        (WsConnection.dispatch (WsHub.callbacks J) w x f).1.trace =
          w.trace ++ [.text x f.payload] ++
            [.message m (.frame (w.sockets (w.wss x).fd)) w.room.users] := by
  unfold WsConnection.dispatch
  split
  · show (WsHub.onText J _ x f.payload).trace = _ ∨ (WsHub.onText J _ x f.payload).trace = _ ∨
      ∃ m : Message, _ ∧ _ ∧ (WsHub.onText J _ x f.payload).trace = _
    refine .inr ?_
    unfold WsHub.onText
    cases hchat : WsHub.chatOf J f.payload with
    | none =>
        exact .inl rfl
    | some chat =>
        let m : Message :=
          { from_ := (w.wss x).username, room := chat.1, content := chat.2, time := w.now }
        exact .inr ⟨m, rfl, rfl, (addMessage_room J (w.note (.text x f.payload)) m _).2⟩
  · exact .inl (WsConnection.trace_queue _ _ _)
  · exact .inl rfl
  · exact .inl (WsConnection.close_hub J w x).2.1
  · exact .inl (WsConnection.trace_queue _ _ _)
  · exact .inl (WsConnection.close_hub J w x).2.1

/-- A connection keeps its name. -/
theorem username_wsDispatch
    (J : JsonLib) (w : World) (x : WsId) (f : Ws.Frame) :
    ((WsConnection.dispatch (WsHub.callbacks J) w x f).1.wss x).username =
      (w.wss x).username := by
  rcases frameDispatch_sessions (J := J) (w := w) (x := x) f [] with
    ⟨w₁, heq, -, hsame, -⟩ | ⟨w₁, heq, -, -, -, m, -, hsay⟩ | heq
  · rw [heq]
    exact congrArg (fun s : Sessions => (s.ws x).username) hsame
  · rw [heq]
    exact congrArg (fun s : Sessions => (s.ws x).username) hsay
  · rw [heq, (WsConnection.close_hub J w x).1]

/-- What the operations on a connection that has been adopted add to the history. -/
theorem tracedBack_ws
    (cfg : Config) (calls : List RequestCall)
    (hadopted : .adopt (w.sockets (w.wss x).fd) x (w.wss x).username ∈ w.trace) :
    WsRule cfg.json x fun w₁ =>
      Aside (.ws x) w w₁ ∧ (w₁.wss x).username = (w.wss x).username ∧
        TracedBack cfg.json calls w₁.trace where
  receive w₁ readBuf := by
    rintro ⟨haside, hname, hw₁⟩
    refine ⟨(aside_ws cfg.json x w).receive w₁ readBuf haside, ?_, hw₁⟩
    simpa [World.setWs] using hname
  dispatch w₁ f hsize := by
    rintro ⟨haside, hname, hw₁⟩
    refine ⟨(aside_ws cfg.json x w).dispatch w₁ f hsize haside,
      (username_wsDispatch cfg.json w₁ x f).trans hname, ?_⟩
    rcases wsDispatch_entries cfg.json w₁ x f with hsame | htext | ⟨m, hchat, hfrom, hmessage⟩
    · rwa [hsame]
    · rw [htext]
      exact hw₁.snoc trivial
    · rw [hmessage]
      have hfd : (w₁.wss x).fd = (w.wss x).fd := haside.fdOf
      have htext : TracedBack cfg.json calls (w₁.trace ++ [.text x f.payload]) :=
        hw₁.snoc trivial
      refine htext.snoc ⟨w₁.trace, x, f.payload, rfl, hchat, ?_⟩
      rw [hfrom, hname, hfd, haside.sockets]
      exact haside.grows.subset hadopted
  wrote w₁ n := by
    rintro ⟨haside, hname, hw₁⟩
    refine ⟨(aside_ws cfg.json x w).wrote w₁ n haside, ?_, hw₁.snoc trivial⟩
    simpa [WsConnection.wrote, World.setWs] using hname
  flushed w₁ := by
    rintro ⟨haside, hname, hw₁⟩
    refine ⟨(aside_ws cfg.json x w).flushed w₁ haside, ?_, hw₁⟩
    simpa [World.setWs] using hname
  close w₁ := by
    rintro ⟨haside, hname, hw₁⟩
    obtain ⟨hconn, htrace, -⟩ := WsConnection.close_hub cfg.json w₁ x
    refine ⟨(aside_ws cfg.json x w).close w₁ haside, ?_, ?_⟩
    · rwa [hconn]
    · rwa [htrace]

end Steps

section Adoption

variable {P : Sessions → WsId → Prop} {s s' : Sessions}

/-- A registered WebSocket connection has been adopted on the socket of its descriptor,
under its name. -/
def SocketsAdopted (s : Sessions) : Prop :=
  ∀ fd x, s.contexts fd = some (.ws x) →
    .adopt (s.sockets fd) x (s.ws x).username ∈ s.history

theorem socketsAdopted_init :
    SocketsAdopted World.init.sessions := by
  intro fd x h
  cases h

theorem socketsAdopted_act
    (hact : Act P s s') (hk : ConnectionsKept s) (h : SocketsAdopted s) :
    SocketsAdopted s' := by
  intro fd x hx
  cases hact with
  | talk htalk =>
      cases htalk with
      | login | logout | post | speak | upgrade =>
          exact List.mem_append_left _ (h fd x hx)
  | forget fd' h' | closeHttp fd' h' =>
      by_cases hfd : fd = (s.http h').fd
      · simp [Sessions.closeHttp, Sessions.forget, hfd] at hx
      · simp only [Sessions.closeHttp, Sessions.forget, Function.update_of_ne hfd] at hx
        exact h fd x hx
  | handOver fd' h' =>
      by_cases hfd : fd = (s.http h').fd
      · subst hfd
        simp only [Sessions.handOver, Function.update_self, Option.some.injEq,
          Target.ws.injEq] at hx
        subst hx
        simp [Sessions.handOver, Sessions.forget]
      · simp only [Sessions.handOver, Function.update_of_ne hfd] at hx
        have hne : x ≠ s.wsAllocated := Nat.ne_of_lt (hk.registered fd _ hx).2.1
        refine List.mem_append_left _ ?_
        simpa [Sessions.handOver, hne, Sessions.forget] using h fd x hx
  | closeWs fd' x' =>
      by_cases hfd : fd = (s.ws x').fd
      · simp [Sessions.closeWs, hfd] at hx
      · simp only [Sessions.closeWs, Function.update_of_ne hfd] at hx
        have hname : ((s.closeWs x').ws x).username = (s.ws x).username := by
          by_cases hsame : x = x'
          · subst hsame
            simp [Sessions.closeWs]
          · simp [Sessions.closeWs, hsame]
        rw [hname]
        exact h fd x hx
  | accept fd' =>
      by_cases hfd : fd = fd'
      · simp [Sessions.accept, hfd] at hx
      · simp only [Sessions.accept, Function.update_of_ne hfd] at hx ⊢
        exact h fd x hx

end Adoption

section Authenticity

variable {cfg : Config} {J : JsonLib} {calls : List RequestCall} {w w' : World}
variable {history past future : List Obs} {o : Obs} {tok : Bytes} {u : String}
variable {socket : SocketId}

/-- What comes behind an entry comes before the next one that is something else. -/
theorem prefix_of_next
    {before mid : List Obs} {e r : Obs} (hpast : past = before ++ e :: mid)
    (hpair : before ++ [e, r] <+: past ++ o :: future) (hne : r ≠ o) :
    before ++ [e, r] <+: past := by
  subst hpast
  rw [List.append_assoc, List.prefix_append_right_inj, List.cons_append,
    List.cons_prefix_cons] at hpair
  rw [List.prefix_append_right_inj, List.cons_prefix_cons]
  refine ⟨rfl, ?_⟩
  cases mid with
  | nil =>
      exact absurd (List.cons_prefix_cons.mp hpair.2).1 hne
  | cons first mid =>
      obtain ⟨rfl, -⟩ := List.cons_prefix_cons.mp hpair.2
      exact List.cons_prefix_cons.mpr ⟨rfl, List.nil_prefix⟩

/-- The front of a history is traced back if what comes next is no response. -/
theorem TracedBack.front
    (h : TracedBack J calls (past ++ o :: future)) (ho : ∀ h resp, .response h resp ≠ o) :
    TracedBack J calls past := by
  intro before e mid hpast
  have htraced := h before e (mid ++ o :: future) (by simp [hpast])
  cases e with
  | login u tok =>
      obtain ⟨c, hc, rfl, hsubmits, resp, s, hreturns, hrest⟩ := htraced
      exact ⟨c, hc, rfl, hsubmits, resp, s, prefix_of_next hpast hreturns (ho _ _), hrest⟩
  | upgrade socket tok u =>
      obtain ⟨c, hc, rfl, hcall⟩ := htraced
      obtain ⟨resp, haccepted, hstatus⟩ := hcall.accepted
      exact ⟨c, hc, rfl,
        { hcall with accepted := ⟨resp, prefix_of_next hpast haccepted (ho _ _), hstatus⟩ }⟩
  | message m source users =>
      cases source with
      | request tok | frame socket =>
          exact htraced
  | logout | adopt | response | text | wrote =>
      trivial

/-- The name was submitted by a login that has returned the token. -/
def LoggedInWith (J : JsonLib) (calls : List RequestCall) (history : List Obs) (tok : Bytes)
    (u : String) : Prop :=
  ∃ c ∈ calls, LoginCall J history u tok c

/-- An upgrade request has been accepted on the socket, with a token of the name. -/
def EnteredAs (J : JsonLib) (calls : List RequestCall) (history : List Obs) (socket : SocketId)
    (u : String) : Prop :=
  ∃ c ∈ calls, ∃ tok, UpgradeCall history socket tok u c ∧
    LoggedInWith J calls c.world.trace tok u

/-- A message comes from a request that presented a token of its name, or from a text of
a connection on a socket that has been upgraded with one. -/
def ComesFrom (J : JsonLib) (calls : List RequestCall) (past : List Obs) (m : Message) :
    Source → Prop
  | .request tok =>
      (∃ c ∈ calls, c.world.trace = past ∧ PostCall J m tok c) ∧
        LoggedInWith J calls past tok m.from_
  | .frame socket =>
      ∃ before x payload, past = before ++ [.text x payload] ∧
        WsHub.chatOf J payload = some (m.room, m.content) ∧
          .adopt socket x m.from_ ∈ before ∧ EnteredAs J calls before socket m.from_

theorem TracedBack.loggedIn
    (h : TracedBack J calls history) (hname : nameOf history tok = u) (hu : u ≠ "") :
    LoggedInWith J calls history tok u := by
  obtain ⟨past, future, hsplit⟩ := List.append_of_mem (login_mem_of_nameOf hname hu)
  obtain ⟨c, hc, -, hcall⟩ := h past _ future hsplit
  exact ⟨c, hc, hcall⟩

theorem TracedBack.entered
    (h : TracedBack J calls history) (hauthentic : Justified Authentic history)
    (hlast : lastUpgrade history socket = some (tok, u)) :
    EnteredAs J calls history socket u := by
  obtain ⟨past, future, rfl⟩ := split_of_lastUpgrade hlast
  obtain ⟨hu, hname⟩ := hauthentic past _ future rfl
  obtain ⟨c, hc, rfl, hcall⟩ := h past _ future rfl
  exact ⟨c, hc, tok, hcall, (h.front fun _ _ => by simp).loggedIn hname hu⟩

/-- What is kept by every step. -/
structure TracedServer (cfg : Config) (calls : List RequestCall) (w : World) : Prop where
  accounted : Accounted w.sessions
  adopted : SocketsAdopted w.sessions
  traced : TracedBack cfg.json calls w.trace

theorem TracedServer.traced_step
    (hw : TracedServer cfg calls w) {e : Event} (hok : step cfg w e = .ok w') :
    TracedBack cfg.json (calls ++ callsOf cfg w e) w'.trace := by
  cases e with
  | accept fd =>
      rw [callsOf_of_not_http (by simp), List.append_nil]
      rw [Web.step] at hok
      split at hok
      · cases hok
        exact hw.traced
      · rw [(onAccept_accepted hok).trace]
        exact hw.traced
  | clock | files =>
      cases hok
      rw [callsOf_of_not_http (by simp), List.append_nil]
      exact hw.traced
  | ready fd events input sends =>
      cases ht : w.reactor.contexts fd with
      | none =>
          rw [Web.step, handleEvent, ht] at hok
          cases hok
          rw [callsOf, ht, List.append_nil]
          exact hw.traced
      | some t =>
          cases t with
          | http h =>
              exact (tracedBack_http cfg h).handleEvent ht hw.traced hok
          | ws x =>
              have hfd : (w.wss x).fd = fd := (hw.accounted.connections.registered fd _ ht).1
              have hadopted : .adopt (w.sockets (w.wss x).fd) x (w.wss x).username ∈ w.trace := by
                rw [hfd]
                exact List.mem_of_mem_filter (hw.adopted fd x ht)
              rw [callsOf, ht, List.append_nil]
              exact ((tracedBack_ws cfg calls hadopted).handleEvent ht
                ⟨Aside.refl _ w, rfl, hw.traced⟩ hok).2.2

theorem tracedServer_runServer
    {events : List Event} (hrun : runServer cfg events = .ok w) :
    TracedServer cfg (requestCalls cfg events) w := by
  have hkeeps : ∀ calls w₁ e w₂, TracedServer cfg calls w₁ → step cfg w₁ e = .ok w₂ →
      TracedServer cfg (calls ++ callsOf cfg w₁ e) w₂ := by
    intro calls w₁ e w₂ hw₁ hstep
    have hacts : Acts (fun _ _ => True) w₁.sessions w₂.sessions :=
      step_acts (fun _ _ _ _ h => h) (fun _ _ => trivial) hstep
    obtain ⟨haccounted, hadopted⟩ := Acts.keeps
      (I := fun s => Accounted s ∧ SocketsAdopted s)
      (fun _ _ hact h => ⟨accounted_act hact h.1, socketsAdopted_act hact h.1.connections h.2⟩)
      hacts ⟨hw₁.accounted, hw₁.adopted⟩
    exact ⟨haccounted, hadopted, hw₁.traced_step hstep⟩
  have hstart : TracedServer cfg [] World.init :=
    ⟨accounted_init, socketsAdopted_init, justified_nil⟩
  exact outputs_invariant hkeeps hstart hrun

/-- Every message of the room is an entry of the history, and every such entry has the
name of the token presented by the request that posted it, or by an upgrade request
accepted on the socket of its frame.  Every WebSocket connection has been let in with such
a request.  The name was submitted by an earlier login that returned the token. -/
theorem messages_authentic
    {events : List Event} (hrun : runServer cfg events = .ok w) :
    (∀ m ∈ w.room.messages, ∃ past source users future,
      w.trace = past ++ .message m source users :: future) ∧
    (∀ past m source users future, w.trace = past ++ .message m source users :: future →
      ComesFrom cfg.json (requestCalls cfg events) past m source) ∧
    (∀ past socket x u future, w.trace = past ++ .adopt socket x u :: future →
      EnteredAs cfg.json (requestCalls cfg events) past socket u) ∧
    ∀ x ∈ w.hub, EnteredAs cfg.json (requestCalls cfg events) w.trace
      (w.sockets (w.wss x).fd) (w.wss x).username := by
  have hserver := tracedServer_runServer hrun
  have hauthentic := authentic_trace hserver.accounted.history
  have htraced := hserver.traced
  refine ⟨?_, ?_, ?_, ?_⟩
  · intro m hm
    rw [(recorded_runServer hrun).1] at hm
    obtain ⟨o, ho, hmessage⟩ := List.mem_filterMap.mp (List.mem_of_mem_drop hm)
    obtain ⟨past, future, hsplit⟩ := List.append_of_mem ho
    cases o with
    | message m' source users =>
        cases hmessage
        exact ⟨past, source, users, future, hsplit⟩
    | login | logout | upgrade | adopt | response | text | wrote =>
        cases hmessage
  · intro past m source users future hsplit
    have hmessage := hauthentic past _ future hsplit
    have hfrom := htraced past _ future hsplit
    rw [hsplit] at hauthentic htraced
    have hfront := htraced.front fun _ _ => by simp
    cases source with
    | request tok =>
        exact ⟨hfrom, hfront.loggedIn hmessage.2 hmessage.1⟩
    | frame socket =>
        obtain ⟨before, x, payload, rfl, hchat, hadopt⟩ := hfrom
        obtain ⟨tok, hlast⟩ := hmessage
        rw [lastUpgrade_append rfl] at hlast
        exact ⟨before, x, payload, rfl, hchat, hadopt,
          (hfront.front fun _ _ => by simp).entered hauthentic.of_append.of_append hlast⟩
  · intro past socket x u future hsplit
    obtain ⟨tok, hlast⟩ := hauthentic past _ future hsplit
    rw [hsplit] at hauthentic htraced
    exact (htraced.front fun _ _ => by simp).entered hauthentic.of_append hlast
  · intro x hx
    have hconnections := hserver.accounted.connections
    obtain ⟨tok, hlast⟩ := hconnections.named _ _ _ (hconnections.hub x hx) rfl
    exact htraced.entered hauthentic ((lastUpgrade_filter w.trace _).symm.trans hlast)

/-- A request that would like to speak under another name. -/
def spoofBody : Bytes :=
  bytes "\x7b\"from\":\"b\",\"token\":\"tok_0000000000000001\",\"content\":\"hi\"\x7d"

def spoofConfig : Config where
  json := JsonLib.ofTable
    [(loginBody, .obj [("username", .str "a")]),
      (chatBody, .obj [("type", .str "chat"), ("content", .str "hi")]),
      (spoofBody, .obj [("from", .str "b"), ("token", .str "tok_0000000000000001"),
        ("content", .str "hi")])]
  webroot := bytes "src/frontend"
  configured := true

/-- A user speaks on a WebSocket connection, and then with a request. -/
def spoofRun : List Event :=
  chatRun ++ [.accept 7,
    arrive 7 (bytes "POST /api/messages HTTP/1.1\r\nContent-Length: 58\r\n\r\n" ++ spoofBody)]

/-- The source of a message with a name. -/
def Obs.sourceOf (u : String) : Obs → Option Source
  | .message m source _ => if m.from_ = u then some source else none
  | _ => none

/-- A source of the messages with a name has one in the history. -/
theorem exists_message_of_source
    {source : Source} (h : source ∈ history.filterMap (Obs.sourceOf u)) :
    ∃ past m users future, history = past ++ .message m source users :: future ∧ m.from_ = u := by
  obtain ⟨o, ho, hsource⟩ := List.mem_filterMap.mp h
  cases o with
  | message m source' users =>
      obtain ⟨past, future, hsplit⟩ := List.append_of_mem ho
      simp only [Obs.sourceOf, Option.ite_none_right_eq_some, Option.some.injEq] at hsource
      obtain ⟨hfrom, rfl⟩ := hsource
      exact ⟨past, m, users, future, hsplit, hfrom⟩
  | login | logout | upgrade | adopt | response | text | wrote =>
      cases hsource

theorem messages_authentic_spoofRun :
    ∃ w, runServer spoofConfig spoofRun = .ok w ∧
      (∃ past m users future,
        w.trace = past ++ .message m (.frame 1) users :: future ∧ m.from_ = "a" ∧
          ComesFrom spoofConfig.json (requestCalls spoofConfig spoofRun) past m (.frame 1)) ∧
      ∃ past m users future,
        w.trace = past ++
          .message m (.request (bytes "tok_0000000000000001")) users :: future ∧
        m.from_ = "a" ∧
          ComesFrom spoofConfig.json (requestCalls spoofConfig spoofRun) past m
            (.request (bytes "tok_0000000000000001")) := by
  obtain ⟨w, hrun, hw⟩ := exists_ok_of_any (runServer spoofConfig spoofRun)
    (fun w => .frame 1 ∈ w.trace.filterMap (Obs.sourceOf "a") ∧
      .request (bytes "tok_0000000000000001") ∈ w.trace.filterMap (Obs.sourceOf "a"))
    (by decide +kernel)
  obtain ⟨hframe, hrequest⟩ := of_decide_eq_true hw
  obtain ⟨past, m, users, future, hsplit, hfrom⟩ := exists_message_of_source hframe
  obtain ⟨past', m', users', future', hsplit', hfrom'⟩ := exists_message_of_source hrequest
  have hauthentic := (messages_authentic hrun).2.1
  exact ⟨w, hrun,
    ⟨past, m, users, future, hsplit, hfrom, hauthentic past m _ users future hsplit⟩,
    past', m', users', future', hsplit', hfrom', hauthentic past' m' _ users' future' hsplit'⟩

end Authenticity

end Web
end ChatRoom
