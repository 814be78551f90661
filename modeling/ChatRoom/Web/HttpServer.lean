import ChatRoom.Web.Routes
import ChatRoom.Ws.Handshake

/-!
# The HTTP server

`HttpServer` (server/http_server.h, server/http_server.cpp): the routes, the
static files, the WebSocket upgrade, and what happens when a connection is
accepted and when it is closed.
-/

namespace ChatRoom
namespace Web
namespace HttpServer

open Http Text

/-- `HttpServer::mimeType` -/
def mimeType (path : Bytes) : Bytes :=
  match findLastOf 0x2E path with
  | none => bytes "application/octet-stream"
  | some dot =>
      let ext := toLower (path.drop (dot + 1))
      if ext = bytes "html" ∨ ext = bytes "htm" then bytes "text/html; charset=utf-8"
      else if ext = bytes "css" then bytes "text/css; charset=utf-8"
      else if ext = bytes "js" then bytes "application/javascript; charset=utf-8"
      else if ext = bytes "json" then bytes "application/json; charset=utf-8"
      else if ext = bytes "png" then bytes "image/png"
      else if ext = bytes "jpg" ∨ ext = bytes "jpeg" then bytes "image/jpeg"
      else if ext = bytes "gif" then bytes "image/gif"
      else if ext = bytes "svg" then bytes "image/svg+xml"
      else if ext = bytes "ico" then bytes "image/x-icon"
      else if ext = bytes "txt" then bytes "text/plain; charset=utf-8"
      else bytes "application/octet-stream"

/-- The static branch of `dispatch_`. -/
def staticFile (cfg : Config) (w : World) (h : HttpId) (req : HttpRequest) : World :=
  let url := if req.path = bytes "/" then bytes "/index.html" else req.path
  if Text.contains (bytes "..") url then
    HttpConnection.send w h (HttpResponse.makeError 403 "Forbidden")
  else
    let full := cfg.webroot ++ url
    let html := bytes ".html"
    let probe := (findLastOf 0x2E url).isNone && (w.files (full ++ html)).isSome
    let full := if probe then full ++ html else full
    let served := if probe then url ++ html else url
    match w.files full with
    | none => HttpConnection.send w h (HttpResponse.makeError 404 "Not Found")
    | some body =>
        HttpConnection.send w h
          (((HttpResponse.ofCode 200).contentType (mimeType served)).setBody body)

/-- The 101 response. -/
def switchingProtocols (accept : Bytes) : HttpResponse :=
  (((HttpResponse.new.status 101 (bytes "Switching Protocols")).header
    (bytes "Upgrade") (bytes "websocket")).header
    (bytes "Connection") (bytes "Upgrade")).header
    (bytes "Sec-WebSocket-Accept") accept

/-- `HttpServer::handleWsUpgrade_` -/
def handleWsUpgrade (cfg : Config) (w : World) (h : HttpId) (req : HttpRequest) : World :=
  if !cfg.configured then
    HttpConnection.send w h (HttpResponse.makeError 500 "server not configured for WS")
  else
    let token := req.getQuery (bytes "token")
    let user := if token.isEmpty then "" else w.tokens.lookup token
    if user = "" then
      HttpConnection.send w h (HttpResponse.makeError 401 "invalid token")
    else if req.getHeader (bytes "Sec-WebSocket-Version") ≠ bytes "13" then
      HttpConnection.send w h
        (HttpResponse.makeError 400 "Sec-WebSocket-Version must be 13")
    else
      let key := req.getHeader (bytes "Sec-WebSocket-Key")
      if key.isEmpty then
        HttpConnection.send w h (HttpResponse.makeError 400 "missing Sec-WebSocket-Key")
      else
        let accept := Ws.computeAcceptKey key
        let w := HttpConnection.markUpgraded w h user
        let w := w.note (.upgrade (w.sockets (w.https h).fd) token user)
        HttpConnection.send w h (switchingProtocols accept)

/-- The test for an upgrade request in `dispatch_`. -/
def isUpgrade (req : HttpRequest) : Bool :=
  let upg := req.getHeader (bytes "Upgrade")
  let con := req.getHeader (bytes "Connection")
  req.method = bytes "GET" ∧ req.path = bytes "/ws" ∧ upg ≠ [] ∧
    (upg = bytes "websocket" ∨ upg = bytes "WebSocket") ∧ Text.contains (bytes "Upgrade") con

/-- `HttpServer::dispatch_` -/
def dispatch (cfg : Config) (w : World) (h : HttpId) (req : HttpRequest) : Except Exn World :=
  if isUpgrade req then
    .ok (handleWsUpgrade cfg w h req)
  else
    match (Routes.table cfg.json).find? fun route => route.1.isPrefixOf req.path with
    | some route => route.2 w h req
    | none => .ok (staticFile cfg w h req)

/-- The close callback set by `onAccept_`. -/
def onClose (cfg : Config) (w : World) (h : HttpId) : Except Exn World :=
  let fd := (w.https h).fd
  if (w.https h).upgraded then
    (if cfg.configured then WsHub.adoptConnection w fd (w.https h).upgradedUser else .ok w).map
      fun w => w.eraseConn fd
  else
    .ok (w.eraseConn fd)

/-- A connection that is closed is handed over to the hub if it has been upgraded,
and leaves the table in any case. -/
theorem onClose_cases
    {cfg : Config} {w w' : World} {h : HttpId} (hok : onClose cfg w h = .ok w') :
    ((w.https h).upgraded = true ∧ cfg.configured = true ∧
      ∃ w₁, WsHub.adoptConnection w (w.https h).fd (w.https h).upgradedUser = .ok w₁ ∧
        w' = w₁.eraseConn (w.https h).fd) ∨
    ¬ ((w.https h).upgraded = true ∧ cfg.configured = true) ∧
      w' = w.eraseConn (w.https h).fd := by
  rw [onClose] at hok
  by_cases hup : (w.https h).upgraded = true
  · rw [if_pos hup] at hok
    by_cases hcfg : cfg.configured = true
    · rw [if_pos hcfg] at hok
      cases hadopt : WsHub.adoptConnection w (w.https h).fd (w.https h).upgradedUser with
      | error e =>
          rw [hadopt] at hok
          cases hok
      | ok w₁ =>
          rw [hadopt] at hok
          exact .inl ⟨hup, hcfg, w₁, rfl, (Except.ok.inj hok).symm⟩
    · rw [if_neg hcfg] at hok
      exact .inr ⟨fun h => hcfg h.2, (Except.ok.inj hok).symm⟩
  · rw [if_neg hup] at hok
    exact .inr ⟨fun h => hup h.1, (Except.ok.inj hok).symm⟩

def callbacks (cfg : Config) : HttpConnection.Callbacks where
  onRequest := dispatch cfg
  onClose := onClose cfg

/-- `conns_.emplace(fd, h)`: a descriptor that is there keeps its connection. -/
def emplaceConn (w : World) (fd : Fd) (h : HttpId) : World :=
  match w.conns fd with
  | some _ => w
  | none => { w with conns := Function.update w.conns fd (some h) }

/-- The body of the loop of `onAccept_`, for the descriptor of a new socket. -/
def onAccept (w : World) (fd : Fd) : Except Exn World :=
  let h := w.httpAllocated
  let w :=
    { w.setHttp h (HttpConnection.new fd) with
      httpAllocated := h + 1
      openFds := Function.update w.openFds fd true
      sockets := Function.update w.sockets fd w.nextSocket
      nextSocket := w.nextSocket + 1 }
  (HttpConnection.start w h).map fun w => emplaceConn w fd h

end HttpServer
end Web
end ChatRoom
