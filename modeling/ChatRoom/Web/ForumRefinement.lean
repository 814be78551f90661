import ChatRoom.Web.CallRule
import ChatRoom.Web.Forum
import ChatRoom.Web.Provenance

/-!
# The web server is the forum

The history of the server is the state of the forum (`forum`), and the calls of
`onRequest_` are the questions of the clients (`askOf`).  Every response is the reply of
the forum, and every text of a browser is said in it, in the order of the history
(`server_refines_forum`).

The code has two tables where the forum has one: the names of the room and the tokens of
the token store.  They go together as long as the counter behind the tokens has not
wrapped.
-/

namespace ChatRoom
namespace Web

open Http Routes Runs Text

section Reading

variable (J : JsonLib) (cfg : Config)

/-- The page that a request gets, or the error. -/
def pageOf (files : Bytes → Option Bytes) (req : HttpRequest) : HttpResponse :=
  let url := if req.path = bytes "/" then bytes "/index.html" else req.path
  if Text.contains (bytes "..") url then
    HttpResponse.makeError 403 "Forbidden"
  else
    let html := url ++ bytes ".html"
    let served :=
      if (findLastOf 0x2E url).isNone && (files (cfg.webroot ++ html)).isSome then html else url
    match files (cfg.webroot ++ served) with
    | none => HttpResponse.makeError 404 "Not Found"
    | some body =>
        ((HttpResponse.ofCode 200).contentType (HttpServer.mimeType served)).setBody body

/-- What a login asks for. -/
def loginOfRequest (req : HttpRequest) : Ask :=
  if req.method ≠ bytes "POST" then
    .misfit 405 "method not allowed"
  else
    match J.parse req.body with
    | none => .misfit 400 "bad json"
    | some j => .login (j.value "username" "").toOption

/-- What a request to `/api/messages` wishes. -/
def wishOfRequest (req : HttpRequest) : Option Wish :=
  if req.method = bytes "GET" then
    some (.recent ((stoll (req.getQuery (bytes "since"))).getD 0))
  else if req.method = bytes "POST" then
    match J.parse req.body with
    | none => some (.misfit 400 "bad json")
    | some j => (j.value "content" "").toOption.map .post
  else
    some (.misfit 405 "method not allowed")

/-- What the routes are asked for. -/
def askTable : List (Bytes × (HttpRequest → Ask)) :=
  [(bytes "/api/login", loginOfRequest J),
    (bytes "/api/users", fun req => .member (presentedToken J req) (some .users)),
    (bytes "/api/messages", fun req => .member (presentedToken J req) (wishOfRequest J req)),
    (bytes "/api/logout", fun req => .member (presentedToken J req) (some .logout))]

/-- What a request asks for.  The token and the time stamp in the query are those that
`getQuery` finds. -/
def askOf (files : Bytes → Option Bytes) (req : HttpRequest) : Ask :=
  if HttpServer.isUpgrade req then
    if cfg.configured then
      .enter (req.getQuery (bytes "token")) (req.getHeader (bytes "Sec-WebSocket-Version"))
        (req.getHeader (bytes "Sec-WebSocket-Key"))
    else
      .unavailable 500 "server not configured for WS"
  else
    match (askTable cfg.json).find? fun entry => entry.1.isPrefixOf req.path with
    | some entry => entry.2 req
    | none => .page (pageOf cfg files req)

/-- The question of a call of `onRequest_`. -/
def RequestCall.question (c : RequestCall) : Question where
  now := c.world.now
  conn := c.conn
  socket := c.world.sockets (c.world.https c.conn).fd
  ask := askOf cfg c.world.files c.req

/-- The response with a reply. -/
def Reply.response : Reply → HttpResponse
  | .refused status reason => jsonResp J status (errorJson reason)
  | .denied status reason => HttpResponse.makeError status reason
  | .welcome tok name =>
      jsonResp J 200 (.obj [("ok", .bool true), ("token", .str tok), ("username", .str name)])
  | .users names => jsonResp J 200 (.obj [("users", .arr (names.map .str))])
  | .recent messages =>
      jsonResp J 200 (.obj [("messages", .arr (messages.map Message.toJson))])
  | .done => jsonResp J 200 (.obj [("ok", .bool true)])
  | .entered key => HttpServer.switchingProtocols (Ws.computeAcceptKey key)
  | .page resp => resp

/-- What can be seen of a happening. -/
inductive Seen where
  | answered (h : HttpId) (resp : HttpResponse)
  | adopted (socket : SocketId) (x : WsId) (name : String)
  | spoke (x : WsId) (chat : Option (String × String))

def Happening.seen : Happening → Seen
  | .asked q reply => .answered q.conn (reply.response J)
  | .adopted socket x name => .adopted socket x name
  | .spoke _ x chat => .spoke x chat

/-- What an entry of the history is in the forum. -/
def Obs.seen : Obs → Option Seen
  | .response h resp => some (.answered h resp)
  | .adopt socket x name => some (.adopted socket x name)
  | .text x payload => some (.spoke x (WsHub.chatOf J payload))
  | _ => none

end Reading

section States

/-- The name under which an entry adopts a connection. -/
def Obs.browserOf (x : WsId) : Obs → Option String
  | .adopt _ y name => if y = x then some name else none
  | _ => none

/-- The state of the forum after a history. -/
def forum (history : List Obs) : Forum where
  token := loginOf history
  issued := issued history
  guest socket := (lastUpgrade history socket).map Prod.snd
  browser x := latest (Obs.browserOf x) history
  said := messagesOf history

variable {history : List Obs}

/-- The forum is about the entries of the sessions. -/
theorem forum_filter
    (history : List Obs) :
    forum (history.filter Obs.OfSession) = forum history := by
  have htoken : loginOf (history.filter Obs.OfSession) = loginOf history :=
    funext fun u => loginOf_filter ofSession_of_ofLedger
  have hissued : issued (history.filter Obs.OfSession) = issued history :=
    issued_filter ofSession_of_ofLedger
  have hbrowser (x : WsId) : latest (Obs.browserOf x) (history.filter Obs.OfSession) =
      latest (Obs.browserOf x) history := by
    refine latest_filter ?_ history
    intro o ho
    cases o with
    | login | logout | message | upgrade | adopt =>
        cases ho
    | response | text | wrote =>
        rfl
  have hsaid : messagesOf (history.filter Obs.OfSession) = messagesOf history := by
    unfold messagesOf
    rw [List.filterMap_filter]
    refine List.filterMap_congr ?_
    intro o _
    cases o <;> rfl
  simp only [forum, htoken, hissued, hbrowser, hsaid, lastUpgrade_filter]

theorem forum_init :
    forum World.init.trace = Forum.empty := by
  rfl

theorem forum_login
    (history : List Obs) (name : String) (tok : Bytes) :
    forum (history ++ [.login name tok]) = (forum history).login name tok := by
  have htoken : loginOf (history ++ [.login name tok]) =
      Function.update (loginOf history) name (some tok) := by
    funext u
    rw [loginOf_login, Function.update_apply]
    simp only [eq_comm]
  simp [forum, Forum.login, htoken, lastUpgrade, Obs.upgradeOf, Obs.browserOf,
    messagesOf_singleton]

theorem forum_logout
    (history : List Obs) (name : String) (tok : Bytes) :
    forum (history ++ [.logout name tok]) = (forum history).logout name := by
  have htoken : loginOf (history ++ [.logout name tok]) =
      Function.update (loginOf history) name none := by
    funext u
    rw [loginOf_logout, Function.update_apply]
    simp only [eq_comm]
  simp [forum, Forum.logout, htoken, lastUpgrade, Obs.upgradeOf, Obs.browserOf,
    messagesOf_singleton]

/-- Entries that are not about logins leave the members and the tokens as they are. -/
theorem loginOf_append
    (history : List Obs) {o : Obs} (ho : o.OfLedger = false) :
    loginOf (history ++ [o]) = loginOf history ∧ issued (history ++ [o]) = issued history := by
  have hfilter : (history ++ [o]).filter Obs.OfLedger = history.filter Obs.OfLedger := by
    simp [List.filter_append, ho]
  refine ⟨funext fun u => ?_, ?_⟩
  · rw [← loginOf_filter (fun _ h => h), hfilter, loginOf_filter (fun _ h => h)]
  · rw [← issued_filter (fun _ h => h), hfilter, issued_filter (fun _ h => h)]

theorem forum_message
    (history : List Obs) (m : Message) (source : Source) (users : UnorderedSet String) :
    forum (history ++ [.message m source users]) = (forum history).say m := by
  obtain ⟨htoken, hissued⟩ := loginOf_append history
    (o := .message m source users) rfl
  simp [forum, Forum.say, htoken, hissued, lastUpgrade, Obs.upgradeOf, Obs.browserOf]

theorem forum_upgrade
    (history : List Obs) (socket : SocketId) (tok : Bytes) (name : String) :
    forum (history ++ [.upgrade socket tok name]) = (forum history).enter socket name := by
  obtain ⟨htoken, hissued⟩ := loginOf_append history
    (o := .upgrade socket tok name) rfl
  have hguest : (fun s => (lastUpgrade (history ++ [.upgrade socket tok name]) s).map Prod.snd) =
      Function.update (fun s => (lastUpgrade history s).map Prod.snd) socket (some name) := by
    funext s
    rw [lastUpgrade_upgrade, Function.update_apply]
    by_cases hs : socket = s
    · simp [hs]
    · simp [hs, Ne.symm hs]
  simp [forum, Forum.enter, htoken, hissued, hguest, Obs.browserOf, messagesOf_singleton]

theorem forum_adopt
    (history : List Obs) (socket : SocketId) (x : WsId) (name : String) :
    forum (history ++ [.adopt socket x name]) = (forum history).adopt x name := by
  obtain ⟨htoken, hissued⟩ := loginOf_append history
    (o := .adopt socket x name) rfl
  have hbrowser : (fun y => latest (Obs.browserOf y) (history ++ [.adopt socket x name])) =
      Function.update (fun y => latest (Obs.browserOf y) history) x (some name) := by
    funext y
    rw [latest_append, latest_singleton, Obs.browserOf, Function.update_apply]
    by_cases hy : x = y
    · simp [hy]
    · simp [hy, Ne.symm hy]
  simp only [forum, Forum.adopt, htoken, hissued, hbrowser]
  simp [lastUpgrade, Obs.upgradeOf, messagesOf_singleton]

end States

/-- The names and the tokens of the server are those of its history, and connections speak
under the names they have been adopted with. -/
structure Kept (s : Sessions) : Prop where
  connections : ConnectionsKept s
  agree : TokensAgree s
  fresh : TokensFresh s
  browsers : ∀ x < s.wsAllocated, (forum s.history).browser x = some (s.ws x).username

/-- Fewer tokens have been issued than the counter can tell apart. -/
def Few (history : List Obs) : Prop :=
  (issued history).length < 2 ^ 64

section Kept

variable {P : Sessions → WsId → Prop} {s s' : Sessions}

theorem browsers_act
    (hact : Act P s s')
    (h : ∀ x < s.wsAllocated, (forum s.history).browser x = some (s.ws x).username) :
    ∀ x < s'.wsAllocated, (forum s'.history).browser x = some (s'.ws x).username := by
  cases hact with
  | talk htalk =>
      cases htalk with
      | login u =>
          rw [Sessions.login, forum_login]
          exact h
      | logout tok =>
          rw [Sessions.logout, forum_logout]
          exact h
      | post tok m =>
          rw [Sessions.say, forum_message]
          exact h
      | speak fd x m =>
          rw [Sessions.say, forum_message]
          exact h
      | upgrade fd c tok =>
          rw [Sessions.upgrade, forum_upgrade]
          exact h
  | forget | closeHttp | accept =>
      exact h
  | closeWs fd y =>
      intro x hx
      by_cases hxy : x = y
      · subst hxy
        simpa [Sessions.closeWs] using h x hx
      · simpa [Sessions.closeWs, hxy] using h x hx
  | handOver fd c =>
      intro x hx
      rw [Sessions.handOver, forum_adopt]
      by_cases hnew : x = s.wsAllocated
      · subst hnew
        simp [Forum.adopt]
      · have hold : x < s.wsAllocated := Nat.lt_of_le_of_ne (Nat.lt_succ_iff.mp hx) hnew
        simpa [Forum.adopt, hnew] using h x hold

theorem kept_init :
    Kept World.init.sessions where
  connections := connectionsKept_init
  agree := tokensAgree_init
  fresh := tokensFresh_init
  browsers x hx := absurd hx (Nat.not_lt_zero x)

theorem kept_act
    (hact : Act P s s') (h : Kept s) :
    Kept s' where
  connections := connectionsKept_act hact h.connections
  agree := tokensAgree_act hact h.agree
  fresh := tokensFresh_act hact h.fresh
  browsers := browsers_act hact h.browsers

/-- A token that stands for a name is held by it. -/
theorem Kept.holds
    (hs : Kept s) {tok : Bytes} (htok : tok ≠ []) (hvalid : s.tokens.lookup tok ≠ "") :
    (forum s.history).Holds (s.tokens.lookup tok) tok :=
  ⟨htok, (hs.agree.valid tok _ (lookup_ne_empty hvalid)).2⟩

/-- A token that stands for no name is held by nobody. -/
theorem Kept.void
    (hs : Kept s) (hfew : Few s.history) {tok : Bytes} (hinvalid : s.tokens.lookup tok = "") :
    (forum s.history).Void tok := by
  refine .inr fun name hname => ?_
  have hlookup := hs.fresh.complete hfew name tok hname
  apply (hs.agree.valid tok name hlookup).1
  rw [TokenStore.lookup, hlookup] at hinvalid
  exact hinvalid

/-- The token of the next login has not been issued. -/
theorem Kept.unissued
    (hs : Kept s) {u : String} (hfew : Few (s.login u).history) :
    bytes (s.tokens.issue u).1 ∉ issued s.history := by
  have hnodup : (issued (s.login u).history).Nodup := by
    rw [(hs.fresh.login u).inOrder]
    exact nodup_tokens hfew
  rw [Sessions.login, issued_login, List.nodup_append] at hnodup
  exact fun hmem => hnodup.2.2 _ hmem _ (List.mem_singleton_self _) rfl

end Kept

section Few

variable {past history : List Obs}

theorem Few.of_prefix
    (hfew : Few history) (hpast : past <+: history) :
    Few past := by
  obtain ⟨future, rfl⟩ := hpast
  rw [Few, issued, List.filterMap_append, List.length_append] at hfew
  exact Nat.lt_of_le_of_lt (Nat.le_add_right _ _) hfew

theorem few_sessions
    {w : World} :
    Few w.sessions.history ↔ Few w.trace := by
  rw [Few, Few, World.sessions, issued_filter ofSession_of_ofLedger]

theorem forum_sessions
    (w : World) :
    forum w.sessions.history = forum w.trace :=
  forum_filter w.trace

/-- A response is nothing the forum has to remember. -/
theorem forum_send
    (w : World) (h : HttpId) (resp : HttpResponse) :
    forum (HttpConnection.send w h resp).trace = forum w.trace := by
  rw [← forum_sessions, sessions_send, forum_sessions]

end Few

section Requests

variable {cfg : Config} {w w' : World} {h : HttpId} {req : HttpRequest}

/-- A question is answered with the reply of the forum, and nothing else can be seen. -/
def Replied (cfg : Config) (w : World) (h : HttpId) (ask : Ask) (w' : World) : Prop :=
  ∃ w₁ reply, w' = HttpConnection.send w₁ h (reply.response cfg.json) ∧
    (forum w.trace).Answers w.now (w.sockets (w.https h).fd) ask reply (forum w₁.trace) ∧
      w₁.trace.filterMap (Obs.seen cfg.json) = w.trace.filterMap (Obs.seen cfg.json)

/-- A question that changes nothing. -/
theorem replied_same
    {ask : Ask} (reply : Reply)
    (hanswers : (forum w.trace).Answers w.now (w.sockets (w.https h).fd) ask reply
      (forum w.trace)) :
    Replied cfg w h ask (HttpConnection.send w h (reply.response cfg.json)) :=
  ⟨w, reply, rfl, hanswers, rfl⟩

/-- A question that adds an entry to the history that cannot be seen. -/
theorem replied_entry
    {ask : Ask} (reply : Reply) {w₁ : World} {o : Obs} (htrace : w₁.trace = w.trace ++ [o])
    (ho : o.seen cfg.json = none)
    (hanswers : (forum w.trace).Answers w.now (w.sockets (w.https h).fd) ask reply
      (forum (w.trace ++ [o]))) :
    Replied cfg w h ask (HttpConnection.send w₁ h (reply.response cfg.json)) := by
  refine ⟨w₁, reply, rfl, ?_, ?_⟩
  · rwa [htrace]
  · simp [htrace, ho]

theorem makeToken_ne_empty
    (n : UInt64) :
    makeToken n ≠ "" := by
  intro hempty
  have hchars := congrArg String.toList hempty
  simp [makeToken] at hchars

/-- Either the token is refused, or its name is found. -/
theorem requireToken_replies
    (hw : Kept w.sessions) (hfew : Few w.trace) (J : JsonLib) (h : HttpId) (req : HttpRequest) :
    (∃ reply : Reply,
      requireToken J w h req = (HttpConnection.send w h (reply.response J), none) ∧
        ∀ wish, (forum w.trace).Answers w.now (w.sockets (w.https h).fd)
          (.member (presentedToken J req) wish) reply (forum w.trace)) ∨
      requireToken J w h req = (w, some (w.tokens.lookup (presentedToken J req))) ∧
        (forum w.trace).Holds (w.tokens.lookup (presentedToken J req))
          (presentedToken J req) := by
  unfold requireToken
  generalize presentedToken J req = tok
  dsimp only
  by_cases htok : tok = []
  · subst htok
    exact .inl ⟨.refused 401 "missing token", rfl, .missing⟩
  · rw [if_neg (by simpa using htok)]
    by_cases hvalid : w.tokens.lookup tok = ""
    · rw [if_pos hvalid]
      have hvoid := hw.void (few_sessions.mpr hfew) hvalid
      rw [forum_sessions] at hvoid
      exact .inl ⟨.refused 401 "invalid token", rfl, fun wish => .invalid wish htok hvoid⟩
    · rw [if_neg hvalid]
      have hholds := hw.holds htok hvalid
      rw [forum_sessions] at hholds
      exact .inr ⟨rfl, hholds⟩

/-- The names of the room are the members. -/
theorem Kept.mem_users
    (hw : Kept w.sessions) (name : String) :
    name ∈ w.room.users ↔ ((forum w.trace).token name).isSome := by
  rw [← forum_sessions]
  exact hw.agree.online name

theorem login_replies
    (hw : Kept w.sessions) (hok : login cfg.json w h req = .ok w') (hfew : Few w'.trace) :
    Replied cfg w h (loginOfRequest cfg.json req) w' := by
  unfold login at hok
  unfold loginOfRequest
  by_cases hmethod : req.method ≠ bytes "POST"
  · rw [if_pos hmethod] at hok ⊢
    cases hok
    exact replied_same (.refused 405 "method not allowed") (.misfit 405 _)
  · rw [if_neg hmethod] at hok ⊢
    cases hdoc : cfg.json.parse req.body with
    | none =>
        rw [hdoc] at hok
        cases hok
        exact replied_same (.refused 400 "bad json") (.misfit 400 _)
    | some j =>
        rw [hdoc] at hok
        dsimp only at hok ⊢
        obtain ⟨u, hname, rfl⟩ := map_eq_ok.mp hok
        rw [hname]
        by_cases hempty : u = ""
        · rw [if_pos hempty, hempty]
          exact replied_same (.refused 400 "missing username") .nameless
        · rw [if_neg hempty] at hfew ⊢
          by_cases htaken : w.room.hasUser u
          · rw [if_pos htaken]
            have hmem : u ∈ w.room.users := by
              simpa [Room.hasUser] using htaken
            exact replied_same (.refused 409 "username taken")
              (.taken hempty ((hw.mem_users u).mp hmem))
          · rw [if_neg htaken] at hfew ⊢
            have hfree : (forum w.trace).token u = none := by
              have hnot : u ∉ w.room.users := by
                simpa [Room.hasUser] using htaken
              simpa using (hw.mem_users u).not.mp hnot
            have hunissued : bytes (w.tokens.issue u).1 ∉ (forum w.trace).issued := by
              have hfew₁ : Few (loggedIn w u).trace := by
                refine hfew.of_prefix ?_
                rw [trace_send]
                exact List.prefix_append _ _
              have hsame : (loggedIn w u).sessions = w.sessions.login u := by
                rw [loggedIn, sessions_note_of_session _ rfl]
                rfl
              rw [← forum_sessions]
              apply hw.unissued
              rw [← hsame]
              exact few_sessions.mpr hfew₁
            have htrace : (loggedIn w u).trace =
                w.trace ++ [.login u (bytes (w.tokens.issue u).1)] := rfl
            refine replied_entry (.welcome (w.tokens.issue u).1 u) htrace rfl ?_
            rw [forum_login]
            exact .welcome hempty hfree (makeToken_ne_empty _) hunissued

theorem users_replies
    (hw : Kept w.sessions) (hok : users cfg.json w h req = .ok w') (hfew : Few w.trace) :
    Replied cfg w h (.member (presentedToken cfg.json req) (some .users)) w' := by
  unfold users at hok
  rcases requireToken_replies hw hfew cfg.json h req with ⟨reply, heq, hrefused⟩ | ⟨heq, hholds⟩
  · rw [heq] at hok
    cases hok
    exact replied_same reply (hrefused _)
  · rw [heq] at hok
    cases hok
    have hlists : (forum w.trace).Lists w.room.users.elems :=
      ⟨w.room.users.nodup, hw.mem_users⟩
    exact replied_same (.users w.room.users.elems) (.member hholds (.users hlists))

theorem messages_replies
    (hw : Kept w.sessions) (hroom : RoomKept w) (hok : messages cfg.json w h req = .ok w')
    (hfew : Few w.trace) :
    Replied cfg w h (.member (presentedToken cfg.json req) (wishOfRequest cfg.json req)) w' := by
  unfold messages at hok
  rcases requireToken_replies hw hfew cfg.json h req with ⟨reply, heq, hrefused⟩ | ⟨heq, hholds⟩
  · rw [heq] at hok
    cases hok
    exact replied_same reply (hrefused _)
  · rw [heq] at hok
    dsimp only at hok
    unfold wishOfRequest
    by_cases hget : req.method = bytes "GET"
    · rw [if_pos hget] at hok ⊢
      generalize (stoll (req.getQuery (bytes "since"))).getD 0 = since at hok ⊢
      have hrecent : w.room.recentMessages since = (forum w.trace).recent since :=
        hroom.recentMessages since
      cases hok
      rw [hrecent]
      exact replied_same (.recent _) (.member hholds (.recent since))
    · rw [if_neg hget] at hok ⊢
      by_cases hpost : req.method = bytes "POST"
      · rw [if_pos hpost] at hok ⊢
        cases hdoc : cfg.json.parse req.body with
        | none =>
            rw [hdoc] at hok
            cases hok
            exact replied_same (.refused 400 "bad json") (.member hholds (.misfit 400 _))
        | some j =>
            rw [hdoc] at hok
            dsimp only at hok ⊢
            obtain ⟨content, hcontent, rfl⟩ := map_eq_ok.mp hok
            rw [hcontent]
            by_cases hempty : content = ""
            · rw [if_pos hempty, hempty]
              exact replied_same (.refused 400 "empty content") (.member hholds .nothing)
            · rw [if_neg hempty]
              refine replied_entry .done (addMessage_room cfg.json w _ _).2 rfl ?_
              rw [forum_message]
              exact .member hholds (.post hempty)
      · rw [if_neg hpost] at hok ⊢
        cases hok
        exact replied_same (.refused 405 "method not allowed")
          (.member hholds (.misfit 405 _))

theorem logout_replies
    (hw : Kept w.sessions) (hok : logout cfg.json w h req = .ok w') (hfew : Few w.trace) :
    Replied cfg w h (.member (presentedToken cfg.json req) (some .logout)) w' := by
  unfold logout at hok
  rcases requireToken_replies hw hfew cfg.json h req with ⟨reply, heq, hrefused⟩ | ⟨heq, hholds⟩
  · rw [heq] at hok
    cases hok
    exact replied_same reply (hrefused _)
  · rw [heq] at hok
    have htok : (presentedToken cfg.json req).isEmpty = false := by
      simpa using hholds.1
    simp only [revokedToken_eq htok, htok, Bool.false_eq_true, if_false, Except.ok.injEq] at hok
    subst hok
    have htrace : (loggedOut w (presentedToken cfg.json req)).trace =
        w.trace ++ [.logout (w.tokens.lookup (presentedToken cfg.json req))
          (presentedToken cfg.json req)] := rfl
    refine replied_entry .done htrace rfl ?_
    rw [forum_logout]
    exact .member hholds .logout

theorem staticFile_replies :
    Replied cfg w h (.page (pageOf cfg w.files req)) (HttpServer.staticFile cfg w h req) := by
  have hsend : HttpServer.staticFile cfg w h req =
      HttpConnection.send w h (pageOf cfg w.files req) := by
    unfold HttpServer.staticFile pageOf
    dsimp only
    generalize (if req.path = bytes "/" then bytes "/index.html" else req.path) = url
    rw [List.append_assoc]
    split
    · rfl
    · cases hprobe : (findLastOf 0x2E url).isNone &&
          (w.files (cfg.webroot ++ (url ++ bytes ".html"))).isSome with
      | true =>
          rw [if_pos rfl, if_pos rfl]
          cases w.files (cfg.webroot ++ (url ++ bytes ".html")) <;> rfl
      | false =>
          rw [if_neg (by simp), if_neg (by simp)]
          cases w.files (cfg.webroot ++ url) <;> rfl
  rw [hsend]
  exact replied_same (.page _) (.page _)

theorem handleWsUpgrade_replies
    (hw : Kept w.sessions) (hfew : Few w.trace) (hconfigured : cfg.configured = true) :
    Replied cfg w h
      (.enter (req.getQuery (bytes "token")) (req.getHeader (bytes "Sec-WebSocket-Version"))
        (req.getHeader (bytes "Sec-WebSocket-Key")))
      (HttpServer.handleWsUpgrade cfg w h req) := by
  unfold HttpServer.handleWsUpgrade
  generalize req.getQuery (bytes "token") = tok
  generalize req.getHeader (bytes "Sec-WebSocket-Version") = version
  generalize req.getHeader (bytes "Sec-WebSocket-Key") = key
  simp only [hconfigured, Bool.not_true, Bool.false_eq_true, if_false]
  by_cases htok : tok = []
  · subst htok
    exact replied_same (.denied 401 "invalid token") (.stranger _ _ (.inl rfl))
  · have hempty : tok.isEmpty = false := by
      simpa using htok
    simp only [hempty, Bool.false_eq_true, if_false]
    by_cases hvalid : w.tokens.lookup tok = ""
    · rw [if_pos hvalid]
      have hvoid := hw.void (few_sessions.mpr hfew) hvalid
      rw [forum_sessions] at hvoid
      exact replied_same (.denied 401 "invalid token") (.stranger _ _ hvoid)
    · rw [if_neg hvalid]
      have hholds := hw.holds htok hvalid
      rw [forum_sessions] at hholds
      by_cases hversion : version = bytes "13"
      · subst hversion
        rw [if_neg (by simp)]
        by_cases hkey : key = []
        · subst hkey
          exact replied_same (.denied 400 "missing Sec-WebSocket-Key")
            (.keyless hholds)
        · rw [if_neg (by simpa using hkey)]
          have hsocket : (HttpConnection.markUpgraded w h (w.tokens.lookup tok)).sockets
              ((HttpConnection.markUpgraded w h (w.tokens.lookup tok)).https h).fd =
                w.sockets (w.https h).fd := by
            simp [HttpConnection.markUpgraded, World.setHttp]
          rw [hsocket]
          have htrace : (markedUpgraded w h tok).trace =
              w.trace ++ [.upgrade (w.sockets (w.https h).fd) tok (w.tokens.lookup tok)] := rfl
          refine replied_entry (.entered key) htrace rfl ?_
          rw [forum_upgrade]
          exact .enters hholds hkey
      · rw [if_pos hversion]
        exact replied_same (.denied 400 "Sec-WebSocket-Version must be 13")
          (.version _ hholds hversion)

/-- A request is answered with the reply of the forum to what it asks for. -/
theorem dispatch_replies
    (hw : Kept w.sessions) (hroom : RoomKept w)
    (hok : HttpServer.dispatch cfg w h req = .ok w') (hfew : Few w'.trace) :
    Replied cfg w h (askOf cfg w.files req) w' := by
  have hbefore : Few w.trace := hfew.of_prefix (aside_request hok).grows
  unfold HttpServer.dispatch at hok
  unfold askOf
  by_cases hup : HttpServer.isUpgrade req = true
  · rw [if_pos hup] at hok ⊢
    cases hok
    by_cases hconfigured : cfg.configured = true
    · rw [if_pos hconfigured]
      exact handleWsUpgrade_replies hw hbefore hconfigured
    · rw [if_neg hconfigured, HttpServer.handleWsUpgrade, if_pos (by simpa using hconfigured)]
      exact replied_same (.denied 500 "server not configured for WS")
        (.unavailable 500 _)
  · rw [if_neg hup] at hok ⊢
    simp only [table, List.find?_cons, List.find?_nil] at hok
    simp only [askTable, List.find?_cons, List.find?_nil]
    cases hlogin : (bytes "/api/login").isPrefixOf req.path with
    | true =>
        rw [hlogin] at hok
        exact login_replies hw hok hfew
    | false =>
        cases husers : (bytes "/api/users").isPrefixOf req.path with
        | true =>
            rw [hlogin, husers] at hok
            exact users_replies hw hok hbefore
        | false =>
            cases hmessages : (bytes "/api/messages").isPrefixOf req.path with
            | true =>
                rw [hlogin, husers, hmessages] at hok
                exact messages_replies hw hroom hok hbefore
            | false =>
                cases hlogout : (bytes "/api/logout").isPrefixOf req.path with
                | true =>
                    rw [hlogin, husers, hmessages, hlogout] at hok
                    exact logout_replies hw hok hbefore
                | false =>
                    rw [hlogin, husers, hmessages, hlogout] at hok
                    cases hok
                    exact staticFile_replies

end Requests

/-- Something has happened in the forum that explains what can be seen of the server, and
the questions are the calls. -/
def Told (cfg : Config) (calls : List RequestCall) (w : World) : Prop :=
  Few w.trace →
    ∃ past, Forum.Reached past (forum w.trace) ∧
      past.filterMap Happening.question? = calls.map (RequestCall.question cfg) ∧
        past.map (Happening.seen cfg.json) = w.trace.filterMap (Obs.seen cfg.json)

section Telling

variable {cfg : Config} {calls : List RequestCall} {w w' : World} {h : HttpId} {x : WsId}

theorem told_init
    (cfg : Config) :
    Told cfg [] World.init := by
  intro _
  refine ⟨[], ?_, rfl, rfl⟩
  rw [forum_init]
  exact .start

theorem Told.same
    (hw : Told cfg calls w) (htrace : w'.trace = w.trace) :
    Told cfg calls w' := by
  unfold Told
  rw [htrace]
  exact hw

/-- Output is nothing that happens in the forum. -/
theorem Told.wrote
    (hw : Told cfg calls w) {socket : SocketId} {bs : Bytes}
    (htrace : w'.trace = w.trace ++ [.wrote socket bs]) :
    Told cfg calls w' := by
  intro hfew
  rw [htrace] at hfew ⊢
  obtain ⟨past, hreached, hcalls, hseen⟩ := hw (hfew.of_prefix (List.prefix_append _ _))
  have hforum : forum (w.trace ++ [.wrote socket bs]) = forum w.trace := by
    rw [← forum_filter, ← forum_filter w.trace, List.filter_append]
    simp [Obs.OfSession]
  refine ⟨past, ?_, hcalls, ?_⟩
  · rwa [hforum]
  · simp [hseen, Obs.seen]

/-- A request is answered. -/
theorem Told.request
    (hw : Told cfg calls w) (hkept : Kept w.sessions) (hroom : RoomKept w) {req : HttpRequest}
    (hok : HttpServer.dispatch cfg w h req = .ok w') :
    Told cfg (calls ++ [{ world := w, conn := h, req := req }]) w' := by
  intro hfew
  obtain ⟨past, hreached, hcalls, hseen⟩ := hw (hfew.of_prefix (aside_request hok).grows)
  obtain ⟨w₁, reply, rfl, hanswers, hsame⟩ := dispatch_replies hkept hroom hok hfew
  let q := RequestCall.question cfg { world := w, conn := h, req := req }
  refine ⟨past ++ [.asked q reply], ?_, ?_, ?_⟩
  · rw [forum_send]
    exact .asked hreached hanswers
  · simp [hcalls, Happening.question?, q]
  · rw [trace_send]
    simp [hseen, hsame, Happening.seen, Obs.seen, q, RequestCall.question]

/-- A browser is let in under the name of its socket. -/
theorem Told.adopted
    (hw : Told cfg calls w) {socket : SocketId} {name : String}
    (hguest : (forum w.trace).guest socket = some name)
    (htrace : w'.trace = w.trace ++ [.adopt socket x name]) :
    Told cfg calls w' := by
  intro hfew
  rw [htrace] at hfew ⊢
  obtain ⟨past, hreached, hcalls, hseen⟩ := hw (hfew.of_prefix (List.prefix_append _ _))
  refine ⟨past ++ [.adopted socket x name], ?_, ?_, ?_⟩
  · rw [forum_adopt]
    exact .adopted x hreached hguest
  · simp [hcalls, Happening.question?]
  · simp [hseen, Happening.seen, Obs.seen]

/-- A text is handed over that is no chat message. -/
theorem Told.babbled
    (hw : Told cfg calls w) {payload : Bytes} (hchat : WsHub.chatOf cfg.json payload = none)
    (htrace : w'.trace = w.trace ++ [.text x payload]) :
    Told cfg calls w' := by
  intro hfew
  rw [htrace] at hfew ⊢
  obtain ⟨past, hreached, hcalls, hseen⟩ := hw (hfew.of_prefix (List.prefix_append _ _))
  have hforum : forum (w.trace ++ [.text x payload]) = forum w.trace := by
    rw [← forum_filter, ← forum_filter w.trace, List.filter_append]
    simp [Obs.OfSession]
  refine ⟨past ++ [.spoke 0 x none], ?_, ?_, ?_⟩
  · rw [hforum]
    exact .babbled 0 x hreached
  · simp [hcalls, Happening.question?]
  · simp [hseen, Happening.seen, Obs.seen, hchat]

/-- A text is handed over that is a chat message, and is said. -/
theorem Told.spoke
    (hw : Told cfg calls w) {payload : Bytes} {name room content : String} {now : Int}
    {source : Source} {users : UnorderedSet String}
    (hchat : WsHub.chatOf cfg.json payload = some (room, content))
    (hx : (forum w.trace).browser x = some name)
    (htrace : w'.trace = w.trace ++ [.text x payload] ++
      [.message { from_ := name, room := room, content := content, time := now } source users]) :
    Told cfg calls w' := by
  intro hfew
  have hgrows : w.trace <+: w'.trace := by
    rw [htrace, List.append_assoc]
    exact List.prefix_append _ _
  obtain ⟨past, hreached, hcalls, hseen⟩ := hw (hfew.of_prefix hgrows)
  have hforum : forum (w.trace ++ [.text x payload]) = forum w.trace := by
    rw [← forum_filter, ← forum_filter w.trace, List.filter_append]
    simp [Obs.OfSession]
  refine ⟨past ++ [.spoke now x (some (room, content))], ?_, ?_, ?_⟩
  · rw [htrace, forum_message, hforum]
    exact .spoke now room content hreached hx
  · simp [hcalls, Happening.question?]
  · rw [htrace]
    simp [hseen, Happening.seen, Obs.seen, hchat]

end Telling

section Events

variable {cfg : Config} {calls : List RequestCall} {w w' : World} {h : HttpId} {x : WsId} {fd : Fd}

/-- A registered connection that has been upgraded has the name of its socket. -/
theorem Kept.guest
    (hw : Kept w.sessions) (ht : w.sessions.contexts fd = some (.http h))
    (hup : (w.https h).upgraded = true) :
    (forum w.trace).guest (w.sockets (w.https h).fd) = some (w.https h).upgradedUser := by
  have hfd : (w.https h).fd = fd := (hw.connections.registered fd _ ht).1
  obtain ⟨tok, hlast⟩ := hw.connections.named fd (.http h) (w.https h).upgradedUser ht
    (if_pos hup)
  rw [← forum_sessions, hfd]
  exact congrArg (Option.map Prod.snd) hlast

/-- The rule for the events of an HTTP connection. -/
theorem told_http
    (cfg : Config) (fd : Fd) (h : HttpId) {s : Sessions} (hs : Kept s) :
    CallRule cfg h
      (fun calls w =>
        (Acts (fun _ _ => True) s w.sessions ∧ w.sessions.contexts fd = some (.http h)) ∧
          RoomKept w ∧ Told cfg calls w)
      (fun calls w =>
        (Acts (fun _ _ => True) s w.sessions ∧ w.sessions.HttpLive fd h) ∧ Told cfg calls w) where
  receive := by
    rintro calls w readBuf ⟨hacts, hroom, htold⟩
    exact ⟨(acts_http cfg fd h s).receive w readBuf hacts,
      (roomKept_http cfg h).receive w readBuf hroom, htold.same rfl⟩
  request := by
    rintro calls w req w' ⟨hacts, hroom, htold⟩ hok
    have hkept : Kept w.sessions := Acts.keeps (fun _ _ => kept_act) hacts.1 hs
    exact ⟨(acts_http cfg fd h s).request w req w' hacts hok,
      (roomKept_http cfg h).request w req w' hroom hok, htold.request hkept hroom hok⟩
  turn := by
    rintro calls w ⟨hacts, -, htold⟩
    exact ⟨(acts_http cfg fd h s).turn w hacts, htold⟩
  wrote := by
    rintro calls w n ⟨hacts, htold⟩
    exact ⟨(acts_http cfg fd h s).wrote w n hacts, htold.wrote rfl⟩
  flushed := by
    rintro calls w ⟨hacts, htold⟩
    exact ⟨(acts_http cfg fd h s).flushed w hacts, htold.same rfl⟩
  close := by
    rintro calls w w' ⟨hacts, htold⟩ hok
    refine ⟨(acts_http cfg fd h s).close w w' hacts hok, ?_⟩
    rcases httpClose_entry hok with hsame | ⟨hopen, hup, htrace⟩
    · exact htold.same hsame
    · have hkept : Kept w.sessions := Acts.keeps (fun _ _ => kept_act) hacts.1 hs
      exact htold.adopted (hkept.guest (hacts.2.resolve_left hopen) hup) htrace

/-- The rule for the events of a browser, which speaks under one name. -/
theorem told_ws
    (cfg : Config) (calls : List RequestCall) (x : WsId) :
    WsRule cfg.json x fun w =>
      (forum w.trace).browser x = some (w.wss x).username ∧ Told cfg calls w := by
  have hkeep {w w' : World}
      (hw : (forum w.trace).browser x = some (w.wss x).username ∧ Told cfg calls w)
      (htrace : w'.trace = w.trace) (hname : (w'.wss x).username = (w.wss x).username) :
      (forum w'.trace).browser x = some (w'.wss x).username ∧ Told cfg calls w' := by
    rw [htrace, hname]
    exact ⟨hw.1, hw.2.same htrace⟩
  have hqueue (w : World) (frame : Bytes) :
      ((WsConnection.queue w x frame).wss x).username = (w.wss x).username :=
    congrArg (fun s : Sessions => (s.ws x).username) (sessions_queue w x frame)
  have hset (w : World) (conn : WsConnection) (hconn : conn.username = (w.wss x).username) :
      ((w.setWs x conn).wss x).username = (w.wss x).username := by
    simpa [World.setWs] using hconn
  have hclose {w : World}
      (hw : (forum w.trace).browser x = some (w.wss x).username ∧ Told cfg calls w) :
      (forum (WsConnection.close (WsHub.callbacks cfg.json) w x).trace).browser x =
          some ((WsConnection.close (WsHub.callbacks cfg.json) w x).wss x).username ∧
        Told cfg calls (WsConnection.close (WsHub.callbacks cfg.json) w x) := by
    unfold WsConnection.close
    split
    · exact hw
    · exact hkeep hw rfl (hset w _ rfl)
  refine
    { receive := fun w readBuf hw => hkeep hw rfl (hset w _ rfl)
      dispatch := ?_
      wrote := ?_
      flushed := fun w hw => hkeep hw rfl (hset _ _ rfl)
      close := fun w hw => hclose hw }
  · intro w f _ hw
    unfold WsConnection.dispatch
    split
    · have hforum (payload : Bytes) :
          forum (w.note (.text x payload)).trace = forum w.trace := by
        rw [← forum_sessions, sessions_note w rfl, forum_sessions]
      show (forum (WsHub.onText _ _ x _).trace).browser x =
        some ((WsHub.onText _ _ x _).wss x).username ∧ Told cfg calls (WsHub.onText _ _ x _)
      unfold WsHub.onText
      cases hchat : WsHub.chatOf cfg.json f.payload with
      | none =>
          refine ⟨?_, hw.2.babbled hchat rfl⟩
          rw [hforum]
          exact hw.1
      | some chat =>
          dsimp only
          have hsaid (m : Message) (source : Source) :
              ((WsHub.addMessage cfg.json (w.note (.text x f.payload)) m source).wss x).username =
                (w.wss x).username :=
            congrArg (fun s : Sessions => (s.ws x).username) (sessions_addMessage _ _ m source)
          have htrace := (addMessage_room cfg.json (w.note (.text x f.payload))
            { from_ := (w.wss x).username, room := chat.1, content := chat.2, time := w.now }
            (.frame (w.sockets (w.wss x).fd))).2
          refine ⟨?_, hw.2.spoke hchat hw.1 htrace⟩
          refine (?_ : _ = some (w.wss x).username).trans (congrArg some (hsaid _ _)).symm
          refine (congrArg (fun trace => (forum trace).browser x) htrace).trans ?_
          rw [forum_message, hforum]
          exact hw.1
    · exact hkeep hw (WsConnection.trace_queue _ _ _) (hqueue w _)
    · exact hw
    · exact hclose hw
    · exact hkeep hw (WsConnection.trace_queue _ _ _) ((hqueue _ _).trans (hset w _ rfl))
    · exact hclose hw
  · intro w n hw
    have hforum : forum (WsConnection.wrote w x n).trace = forum w.trace := by
      rw [← forum_sessions, sessions_wsWrote, forum_sessions]
    rw [hforum]
    refine ⟨?_, hw.2.wrote rfl⟩
    rw [hw.1]
    simp [WsConnection.wrote, World.setWs]

/-- A step of the server. -/
theorem Told.step
    (hw : Told cfg calls w) (hkept : Kept w.sessions) (hroom : RoomKept w) {e : Event}
    (hok : step cfg w e = .ok w') :
    Told cfg (calls ++ callsOf cfg w e) w' := by
  cases e with
  | accept fd =>
      rw [callsOf_of_not_http (by simp), List.append_nil]
      rw [Web.step] at hok
      split at hok
      · cases hok
        exact hw
      · exact hw.same (onAccept_accepted hok).trace
  | clock now =>
      cases hok
      rw [callsOf_of_not_http (by simp), List.append_nil]
      exact hw.same rfl
  | files files =>
      cases hok
      rw [callsOf_of_not_http (by simp), List.append_nil]
      exact hw.same rfl
  | ready fd events input sends =>
      cases ht : w.reactor.contexts fd with
      | none =>
          rw [Web.step, handleEvent, ht] at hok
          cases hok
          rw [callsOf, ht, List.append_nil]
          exact hw
      | some t =>
          cases t with
          | http h =>
              exact ((told_http cfg fd h hkept).handleEvent ht ⟨⟨.refl, ht⟩, hroom, hw⟩ hok).2
          | ws x =>
              have hx : x < w.sessions.wsAllocated := (hkept.connections.registered fd _ ht).2.1
              have hname := hkept.browsers x hx
              rw [forum_sessions] at hname
              rw [callsOf, ht, List.append_nil]
              exact ((told_ws cfg calls x).handleEvent ht ⟨hname, hw⟩ hok).2

end Events

section Refinement

variable {cfg : Config} {w : World}

/-- The server is in this state of the forum. -/
structure Shows (w : World) (s : Forum) : Prop where
  tokens : ∀ tok name, w.tokens.tok2user.lookup tok = some name ↔ s.token name = some tok
  users : ∀ name, name ∈ w.room.users ↔ (s.token name).isSome
  messages : w.room.messages = s.said.rtake Room.MAX_HISTORY
  browsers : ∀ x ∈ w.hub, s.browser x = some (w.wss x).username

theorem Kept.shows
    (hw : Kept w.sessions) (hroom : RoomKept w) (hfew : Few w.trace) :
    Shows w (forum w.trace) where
  tokens tok name := by
    rw [← forum_sessions]
    exact ⟨fun h => (hw.agree.valid tok name h).2,
      hw.fresh.complete (few_sessions.mpr hfew) name tok⟩
  users := hw.mem_users
  messages := hroom
  browsers x hx := by
    rw [← forum_sessions]
    exact hw.browsers x (hw.connections.registered _ _ (hw.connections.hub x hx)).2.1

/-- In every run in which the tokens do not run out, the server is the forum: what can be
seen of it is what happens there, in the same order, the questions are the calls, and it
ends in the same state. -/
theorem server_refines_forum
    {events : List Event} (hrun : runServer cfg events = .ok w) (hfew : Few w.trace) :
    ∃ past s, Forum.Reached past s ∧
      past.filterMap Happening.question? =
        (requestCalls cfg events).map (RequestCall.question cfg) ∧
        past.map (Happening.seen cfg.json) = w.trace.filterMap (Obs.seen cfg.json) ∧
          Shows w s := by
  have hkeeps : ∀ calls w₁ e w₂, Kept w₁.sessions ∧ RoomKept w₁ ∧ Told cfg calls w₁ →
      step cfg w₁ e = .ok w₂ →
        Kept w₂.sessions ∧ RoomKept w₂ ∧ Told cfg (calls ++ callsOf cfg w₁ e) w₂ := by
    rintro calls w₁ e w₂ ⟨hkept, hroom, htold⟩ hstep
    have hacts : Acts (fun _ _ => True) w₁.sessions w₂.sessions :=
      step_acts (fun _ _ _ _ h => h) (fun _ _ => trivial) hstep
    exact ⟨Acts.keeps (fun _ _ => kept_act) hacts hkept, hroom.step hstep,
      htold.step hkept hroom hstep⟩
  obtain ⟨hkept, hroom, htold⟩ := outputs_invariant
    (I := fun calls w => Kept w.sessions ∧ RoomKept w ∧ Told cfg calls w)
    hkeeps ⟨kept_init, roomKept_init, told_init cfg⟩ hrun
  obtain ⟨past, hreached, hcalls, hseen⟩ := htold hfew
  exact ⟨past, forum w.trace, hreached, hcalls, hseen, hkept.shows hroom hfew⟩

/-- A login, an upgrade, the adoption of a browser and what it says. -/
theorem server_refines_forum_chatRun :
    ∃ w past s, runServer sampleConfig chatRun = .ok w ∧ Forum.Reached past s ∧
      past.filterMap Happening.question? =
        (requestCalls sampleConfig chatRun).map (RequestCall.question sampleConfig) ∧
        past.length = 4 ∧ Shows w s := by
  obtain ⟨w, hrun, hw⟩ := exists_ok_of_any (runServer sampleConfig chatRun)
    (fun w => (issued w.trace).length = 1 ∧
      (w.trace.filterMap (Obs.seen sampleConfig.json)).length = 4)
    (by decide +kernel)
  obtain ⟨hone, hfour⟩ := of_decide_eq_true hw
  have hfew : Few w.trace := by
    rw [Few, hone]
    decide
  obtain ⟨past, s, hreached, hcalls, hseen, hshows⟩ := server_refines_forum hrun hfew
  refine ⟨w, past, s, hrun, hreached, hcalls, ?_, hshows⟩
  rw [← hfour, ← hseen, List.length_map]

end Refinement

end Web
end ChatRoom
