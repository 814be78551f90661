import ChatRoom.Web.Server

/-!
# What a request does

`dispatch_effect` describes a request once: some part of the server changes, or
nothing does, and then one response is sent to the connection of the request.
What a failed request leaves unchanged and what the routes do to the sessions
are both read off this description.
-/

namespace ChatRoom
namespace Web

open Http Routes HttpServer

/-- A name is entered in the room and a token issued for it. -/
def loggedIn (w : World) (u : String) : World :=
  { w with room := w.room.addUser u, tokens := (w.tokens.issue u).2 }.note
    (.login u (bytes (w.tokens.issue u).1))

/-- The name of a token is removed from the room and the token revoked. -/
def loggedOut (w : World) (tok : Bytes) : World :=
  { w with
    room := w.room.removeUser (w.tokens.lookup tok)
    tokens := w.tokens.revoke tok }.note (.logout (w.tokens.lookup tok) tok)

/-- A connection is marked to be upgraded under the name of a token. -/
def markedUpgraded (w : World) (h : HttpId) (tok : Bytes) : World :=
  (HttpConnection.markUpgraded w h (w.tokens.lookup tok)).note
    (.upgrade (w.sockets (w.https h).fd) tok (w.tokens.lookup tok))

/-- The request carries a token that is valid. -/
def TokenAccepted (J : JsonLib) (w : World) (req : HttpRequest) : Prop :=
  (presentedToken J req).isEmpty = false ∧ w.tokens.lookup (presentedToken J req) ≠ ""

/-- The request is a POST to a route, with a text under a key of its body. -/
structure PostsText (J : JsonLib) (req : HttpRequest) (route key s : String) : Prop where
  method : req.method = bytes "POST"
  path : bytes route <+: req.path
  member : ∃ members, J.parse req.body = some (.obj members) ∧
    members.lookup key = some (.str s)

/-- What a request of the connection `h` may do before `resp` is sent. -/
inductive RequestEffect (cfg : Config) (w : World) (h : HttpId) (req : HttpRequest) :
    World → HttpResponse → Prop where
  | nothing (resp : HttpResponse) : RequestEffect cfg w h req w resp
  | login (u : String) (resp : HttpResponse) (hstatus : resp.statusCode = 200)
      (hname : u ≠ "") (hnew : u ∉ w.room.users)
      (hposts : PostsText cfg.json req "/api/login" "username" u)
      (hreturns : resp.body = cfg.json.dump
        (.obj [("ok", .bool true), ("token", .str (w.tokens.issue u).1), ("username", .str u)])) :
      RequestEffect cfg w h req (loggedIn w u) resp
  | logout (resp : HttpResponse) (hstatus : resp.statusCode = 200)
      (hvalid : w.tokens.lookup (presentedToken cfg.json req) ≠ "") :
      RequestEffect cfg w h req (loggedOut w (presentedToken cfg.json req)) resp
  | post (m : Message) (resp : HttpResponse) (hstatus : resp.statusCode = 200)
      (htoken : TokenAccepted cfg.json w req)
      (hfrom : m.from_ = w.tokens.lookup (presentedToken cfg.json req))
      (hposts : PostsText cfg.json req "/api/messages" "content" m.content) :
      RequestEffect cfg w h req
        (WsHub.addMessage cfg.json w m (.request (presentedToken cfg.json req))) resp
  | upgrade (tok : Bytes) (resp : HttpResponse) (hstatus : resp.statusCode = 101)
      (hvalid : w.tokens.lookup tok ≠ "") (hrequest : isUpgrade req = true)
      (htoken : tok = req.getQuery (bytes "token")) (hsome : tok.isEmpty = false) :
      RequestEffect cfg w h req (markedUpgraded w h tok) resp

/-- The request is answered with `resp`, after what it does otherwise. -/
def Handled (cfg : Config) (w : World) (h : HttpId) (req : HttpRequest) (w' : World)
    (resp : HttpResponse) : Prop :=
  ∃ w₁, RequestEffect cfg w h req w₁ resp ∧ w' = HttpConnection.send w₁ h resp

section Routes

variable {cfg : Config} {w w' : World} {h : HttpId} {req : HttpRequest}

/-- A request that is only answered. -/
theorem handled_send
    (cfg : Config) (w : World) (h : HttpId) (req : HttpRequest) (resp : HttpResponse) :
    Handled cfg w h req (HttpConnection.send w h resp) resp :=
  ⟨w, .nothing resp, rfl⟩

/-- Without a valid token, the token check answers the request itself. -/
theorem requireToken_rejects
    {J : JsonLib} (hrejected : ¬ TokenAccepted J w req) :
    ∃ resp, requireToken J w h req = (HttpConnection.send w h resp, none) := by
  unfold requireToken
  by_cases htok : (presentedToken J req).isEmpty
  · simp only [htok, if_true]
    exact ⟨_, rfl⟩
  · by_cases hu : w.tokens.lookup (presentedToken J req) = ""
    · simp only [htok, hu, if_true]
      exact ⟨_, rfl⟩
    · exact absurd ⟨by simpa using htok, hu⟩ hrejected

/-- With a valid token, it yields the name. -/
theorem requireToken_accepts
    {J : JsonLib} (haccepted : TokenAccepted J w req) :
    requireToken J w h req = (w, some (w.tokens.lookup (presentedToken J req))) := by
  obtain ⟨htok, hu⟩ := haccepted
  simp only [requireToken, htok, hu, Bool.false_eq_true, if_false]

/-- The second look at the request finds the token that `requireToken` found. -/
theorem revokedToken_eq
    {J : JsonLib} (h : (presentedToken J req).isEmpty = false) :
    revokedToken J req = presentedToken J req := by
  unfold presentedToken revokedToken at *
  by_cases htok : (req.getQuery (bytes "token")).isEmpty
  · by_cases hbody : req.body.isEmpty
    · simp [htok, hbody] at h
    · simp [htok, hbody]
  · simp [htok]

/-- A text that is read with the empty one as default and is another one is in the document. -/
theorem member_of_value
    {j : Json} {key s : String} (hvalue : j.value key "" = .ok s) (hs : s ≠ "") :
    ∃ members, j = .obj members ∧ members.lookup key = some (.str s) := by
  cases j with
  | obj members =>
      refine ⟨members, rfl, ?_⟩
      rw [Json.value] at hvalue
      cases hmember : members.lookup key with
      | none =>
          rw [hmember] at hvalue
          cases hvalue
          exact absurd rfl hs
      | some member =>
          rw [hmember] at hvalue
          rw [Json.getString_eq_ok.mp hvalue]
  | null | bool | int | float | str | arr =>
      cases hvalue

/-- A POST whose body has been read. -/
theorem postsText_of_value
    {J : JsonLib} {route key s : String} (hpath : bytes route <+: req.path)
    (hmethod : req.method = bytes "POST") {j : Json} (hj : J.parse req.body = some j)
    (hvalue : j.value key "" = .ok s) (hs : s ≠ "") :
    PostsText J req route key s := by
  obtain ⟨members, rfl, hmember⟩ := member_of_value hvalue hs
  exact ⟨hmethod, hpath, members, hj, hmember⟩

theorem login_handled
    (hpath : bytes "/api/login" <+: req.path) (hok : login cfg.json w h req = .ok w') :
    ∃ resp, Handled cfg w h req w' resp := by
  unfold login at hok
  split at hok
  · cases hok
    exact ⟨_, handled_send cfg w h req _⟩
  · next hmethod =>
    split at hok
    · cases hok
      exact ⟨_, handled_send cfg w h req _⟩
    · next j hj =>
        obtain ⟨u, hvalue, rfl⟩ := Runs.map_eq_ok.mp hok
        by_cases hempty : u = ""
        · rw [if_pos hempty]
          exact ⟨_, handled_send cfg w h req _⟩
        · rw [if_neg hempty]
          by_cases htaken : w.room.hasUser u
          · rw [if_pos htaken]
            exact ⟨_, handled_send cfg w h req _⟩
          · rw [if_neg htaken]
            have hnew : u ∉ w.room.users := by
              simpa [Room.hasUser] using htaken
            have hposts : PostsText cfg.json req "/api/login" "username" u :=
              postsText_of_value hpath (not_not.mp hmethod) hj hvalue hempty
            exact ⟨_, loggedIn w u, .login u _ rfl hempty hnew hposts rfl, rfl⟩

theorem users_handled
    (hok : users cfg.json w h req = .ok w') :
    ∃ resp, Handled cfg w h req w' resp := by
  unfold users at hok
  by_cases htoken : TokenAccepted cfg.json w req
  · rw [requireToken_accepts htoken] at hok
    cases hok
    exact ⟨_, handled_send cfg w h req _⟩
  · obtain ⟨resp, heq⟩ := requireToken_rejects (h := h) htoken
    rw [heq] at hok
    cases hok
    exact ⟨_, handled_send cfg w h req _⟩

theorem messages_handled
    (hpath : bytes "/api/messages" <+: req.path) (hok : messages cfg.json w h req = .ok w') :
    ∃ resp, Handled cfg w h req w' resp := by
  unfold messages at hok
  by_cases htoken : TokenAccepted cfg.json w req
  · rw [requireToken_accepts htoken] at hok
    dsimp only at hok
    split at hok
    · cases hok
      exact ⟨_, handled_send cfg w h req _⟩
    · split at hok
      · next hmethod =>
        split at hok
        · cases hok
          exact ⟨_, handled_send cfg w h req _⟩
        · next j hj =>
            obtain ⟨content, hvalue, rfl⟩ := Runs.map_eq_ok.mp hok
            by_cases hempty : content = ""
            · rw [if_pos hempty]
              exact ⟨_, handled_send cfg w h req _⟩
            · rw [if_neg hempty]
              have hposts : PostsText cfg.json req "/api/messages" "content" content :=
                postsText_of_value hpath hmethod hj hvalue hempty
              exact ⟨_, _, .post _ _ rfl htoken rfl hposts, rfl⟩
      · cases hok
        exact ⟨_, handled_send cfg w h req _⟩
  · obtain ⟨resp, heq⟩ := requireToken_rejects (h := h) htoken
    rw [heq] at hok
    cases hok
    exact ⟨_, handled_send cfg w h req _⟩

theorem logout_handled
    (hok : logout cfg.json w h req = .ok w') :
    ∃ resp, Handled cfg w h req w' resp := by
  unfold logout at hok
  by_cases htoken : TokenAccepted cfg.json w req
  · rw [requireToken_accepts htoken] at hok
    simp only [revokedToken_eq htoken.1, htoken.1, Bool.false_eq_true, if_false,
      Except.ok.injEq] at hok
    subst hok
    exact ⟨_, loggedOut w (presentedToken cfg.json req), .logout _ rfl htoken.2, rfl⟩
  · obtain ⟨resp, heq⟩ := requireToken_rejects (h := h) htoken
    rw [heq] at hok
    cases hok
    exact ⟨_, handled_send cfg w h req _⟩

theorem staticFile_handled
    (cfg : Config) (w : World) (h : HttpId) (req : HttpRequest) :
    ∃ resp, Handled cfg w h req (staticFile cfg w h req) resp := by
  unfold staticFile
  dsimp only
  generalize (if req.path = bytes "/" then bytes "/index.html" else req.path) = url
  split
  · exact ⟨_, handled_send cfg w h req _⟩
  · generalize hfull : (if (Text.findLastOf 0x2E url).isNone &&
        (w.files (cfg.webroot ++ url ++ bytes ".html")).isSome then
      cfg.webroot ++ url ++ bytes ".html" else cfg.webroot ++ url) = full
    cases w.files full with
    | none =>
        exact ⟨_, handled_send cfg w h req _⟩
    | some body =>
        exact ⟨_, handled_send cfg w h req _⟩

theorem handleWsUpgrade_handled
    (cfg : Config) (w : World) (h : HttpId) (hup : isUpgrade req = true) :
    ∃ resp, Handled cfg w h req (handleWsUpgrade cfg w h req) resp := by
  unfold handleWsUpgrade
  by_cases hcfg : cfg.configured
  · by_cases htok : (req.getQuery (bytes "token")).isEmpty
    · simp only [hcfg, htok, Bool.not_true, Bool.false_eq_true, if_true, if_false]
      exact ⟨_, handled_send cfg w h req _⟩
    · simp only [hcfg, htok, Bool.not_true, Bool.false_eq_true, if_false]
      by_cases huser : w.tokens.lookup (req.getQuery (bytes "token")) = ""
      · rw [if_pos huser]
        exact ⟨_, handled_send cfg w h req _⟩
      · rw [if_neg huser]
        split
        · exact ⟨_, handled_send cfg w h req _⟩
        · split
          · exact ⟨_, handled_send cfg w h req _⟩
          · refine
              ⟨switchingProtocols
                  (Ws.computeAcceptKey (req.getHeader (bytes "Sec-WebSocket-Key"))),
                markedUpgraded w h (req.getQuery (bytes "token")),
                .upgrade _ _ rfl huser hup rfl (by simpa using htok), ?_⟩
            simp [markedUpgraded, HttpConnection.markUpgraded, World.setHttp]
  · simp only [hcfg, Bool.not_false, if_true]
    exact ⟨_, handled_send cfg w h req _⟩

/-- A request that is handled is answered with one response. -/
theorem dispatch_handled
    (hok : dispatch cfg w h req = .ok w') :
    ∃ resp, Handled cfg w h req w' resp := by
  unfold dispatch at hok
  split at hok
  · next hup =>
    cases hok
    exact handleWsUpgrade_handled cfg w h hup
  · split at hok
    · next route hroute =>
        have hmem := List.mem_of_find?_eq_some hroute
        have hpath : route.1 <+: req.path :=
          List.isPrefixOf_iff_prefix.mp (List.find?_eq_some_iff_append.mp hroute).1
        simp only [table, List.mem_cons, List.not_mem_nil, or_false] at hmem
        rcases hmem with rfl | rfl | rfl | rfl
        · exact login_handled hpath hok
        · exact users_handled hok
        · exact messages_handled hpath hok
        · exact logout_handled hok
    · cases hok
      exact staticFile_handled cfg w h req

end Routes

end Web
end ChatRoom
