import ChatRoom.Web.Hub
import ChatRoom.Web.HttpConnection

/-!
# The routes of the HTTP API

server/http_handler.cpp.
-/

namespace ChatRoom
namespace Web
namespace Routes

open Http Text

/-- The document of an error response. -/
def errorJson (msg : String) : Json :=
  .obj [("error", .str msg)]

/-- The member `token` of a body, if it is a text; the exceptions of the reading
are caught. -/
def tokenOfBody (J : JsonLib) (body : Bytes) : Bytes :=
  match J.parse body with
  | some (.obj members) =>
      match members.lookup "token" with
      | some (.str s) => bytes s
      | _ => []
  | _ => []

/-- The token that `requireToken` finds in a request. -/
def presentedToken (J : JsonLib) (req : HttpRequest) : Bytes :=
  let tok := req.getQuery (bytes "token")
  if tok.isEmpty && !req.body.isEmpty then tokenOfBody J req.body else tok

/-- `requireToken`; without a name (`outStatus` is 401) the answer has been sent. -/
def requireToken (J : JsonLib) (w : World) (h : HttpId) (req : HttpRequest) :
    World × Option String :=
  let tok := presentedToken J req
  if tok.isEmpty then
    (HttpConnection.send w h (jsonResp J 401 (errorJson "missing token")), none)
  else
    let u := w.tokens.lookup tok
    if u = "" then
      (HttpConnection.send w h (jsonResp J 401 (errorJson "invalid token")), none)
    else
      (w, some u)

/-- The route `/api/login`. -/
def login (J : JsonLib) (w : World) (h : HttpId) (req : HttpRequest) : Except Exn World :=
  if req.method ≠ bytes "POST" then
    .ok (HttpConnection.send w h (jsonResp J 405 (errorJson "method not allowed")))
  else
    match J.parse req.body with
    | none => .ok (HttpConnection.send w h (jsonResp J 400 (errorJson "bad json")))
    | some j =>
        (j.value "username" "").map fun u =>
          if u = "" then
            HttpConnection.send w h (jsonResp J 400 (errorJson "missing username"))
          else if w.room.hasUser u then
            HttpConnection.send w h (jsonResp J 409 (errorJson "username taken"))
          else
            let w := { w with room := w.room.addUser u }
            let (tok, tokens) := w.tokens.issue u
            let w := { w with tokens := tokens }.note (.login u (bytes tok))
            HttpConnection.send w h (jsonResp J 200
              (.obj [("ok", .bool true), ("token", .str tok), ("username", .str u)]))

/-- The route `/api/users`. -/
def users (J : JsonLib) (w : World) (h : HttpId) (req : HttpRequest) : Except Exn World :=
  match requireToken J w h req with
  | (w, none) => .ok w
  | (w, some _) =>
      .ok (HttpConnection.send w h (jsonResp J 200
        (.obj [("users", .arr (w.room.users.elems.map .str))])))

/-- The route `/api/messages`. -/
def messages (J : JsonLib) (w : World) (h : HttpId) (req : HttpRequest) : Except Exn World :=
  match requireToken J w h req with
  | (w, none) => .ok w
  | (w, some u) =>
      if req.method = bytes "GET" then
        let since := (stoll (req.getQuery (bytes "since"))).getD 0
        let msgs := w.room.recentMessages since
        .ok (HttpConnection.send w h (jsonResp J 200
          (.obj [("messages", .arr (msgs.map Message.toJson))])))
      else if req.method = bytes "POST" then
        match J.parse req.body with
        | none => .ok (HttpConnection.send w h (jsonResp J 400 (errorJson "bad json")))
        | some j =>
            (j.value "content" "").map fun content =>
              if content = "" then
                HttpConnection.send w h (jsonResp J 400 (errorJson "empty content"))
              else
                let w := WsHub.addMessage J w
                  { from_ := u, room := "lobby", content := content, time := w.now }
                  (.request (presentedToken J req))
                HttpConnection.send w h (jsonResp J 200 (.obj [("ok", .bool true)]))
      else
        .ok (HttpConnection.send w h (jsonResp J 405 (errorJson "method not allowed")))

/-- The token that `/api/logout` revokes: a second look at the request. -/
def revokedToken (J : JsonLib) (req : HttpRequest) : Bytes :=
  let tok := req.getQuery (bytes "token")
  if tok.isEmpty then tokenOfBody J req.body else tok

/-- The route `/api/logout`. -/
def logout (J : JsonLib) (w : World) (h : HttpId) (req : HttpRequest) : Except Exn World :=
  match requireToken J w h req with
  | (w, none) => .ok w
  | (w, some u) =>
      let tok := revokedToken J req
      let w := if tok.isEmpty then w else { w with tokens := w.tokens.revoke tok }
      let w := { w with room := w.room.removeUser u }.note (.logout u tok)
      .ok (HttpConnection.send w h (jsonResp J 200 (.obj [("ok", .bool true)])))

/-- The prefixes registered by `registerHttpRoutes`.  None of them is a prefix of
another, so it does not matter in which order the table is searched. -/
def table (J : JsonLib) :
    List (Bytes × (World → HttpId → HttpRequest → Except Exn World)) :=
  [(bytes "/api/login", login J), (bytes "/api/users", users J),
    (bytes "/api/messages", messages J), (bytes "/api/logout", logout J)]

end Routes
end Web
end ChatRoom
