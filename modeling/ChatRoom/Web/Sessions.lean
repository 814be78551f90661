import ChatRoom.Web.Server

/-!
# The sessions of the web server

An abstract model: who is logged in with which token, which connection is
registered for which descriptor and under which name, and what has been said.
It leaves out the buffers, the interest masks, the files and the clock.

`Talk` is what requests and frames do to it, `Act` adds the life cycle of the
connections.  The invariants of the following modules are about `Act`; that
every step of the server is a sequence of such actions is shown in
`Web.Refinement`.
-/

namespace ChatRoom
namespace Web

/-- What a session depends on in an `HttpConnection`. -/
structure HttpCore where
  fd : Fd
  state : State
  upgraded : Bool
  upgradedUser : String

/-- What a session depends on in a `WsConnection`. -/
structure WsCore where
  fd : Fd
  state : State
  username : String

def HttpConnection.core (conn : HttpConnection) : HttpCore where
  fd := conn.fd
  state := conn.state
  upgraded := conn.upgraded
  upgradedUser := conn.upgradedUser

def WsConnection.core (conn : WsConnection) : WsCore where
  fd := conn.fd
  state := conn.state
  username := conn.username

/-- The entries of the history that belong to sessions. -/
def Obs.OfSession : Obs → Bool
  | .login _ _ => true
  | .logout _ _ => true
  | .message _ _ _ => true
  | .upgrade _ _ _ => true
  | .adopt _ _ _ => true
  | _ => false

/-- The abstract state. -/
structure Sessions where
  http : HttpId → HttpCore
  httpAllocated : Nat
  ws : WsId → WsCore
  wsAllocated : Nat
  contexts : Fd → Option Target
  conns : Fd → Option HttpId
  hub : UnorderedSet WsId
  openFds : Fd → Bool
  sockets : Fd → SocketId
  nextSocket : Nat
  users : UnorderedSet String
  tokens : TokenStore
  history : List Obs

/-- The abstract state of a server. -/
def World.sessions (w : World) : Sessions where
  http h := (w.https h).core
  httpAllocated := w.httpAllocated
  ws x := (w.wss x).core
  wsAllocated := w.wsAllocated
  contexts := w.reactor.contexts
  conns := w.conns
  hub := w.hub
  openFds := w.openFds
  sockets := w.sockets
  nextSocket := w.nextSocket
  users := w.room.users
  tokens := w.tokens
  history := w.trace.filter Obs.OfSession

namespace Sessions

/-- A name is entered and a token issued for it. -/
def login (s : Sessions) (u : String) : Sessions :=
  { s with
    users := s.users.insert u
    tokens := (s.tokens.issue u).2
    history := s.history ++ [.login u (bytes (s.tokens.issue u).1)] }

/-- The name of a token is removed and the token revoked. -/
def logout (s : Sessions) (tok : Bytes) : Sessions :=
  { s with
    users := s.users.erase (s.tokens.lookup tok)
    tokens := s.tokens.revoke tok
    history := s.history ++ [.logout (s.tokens.lookup tok) tok] }

/-- A message is added to the room. -/
def say (s : Sessions) (m : Message) (source : Source) : Sessions :=
  { s with history := s.history ++ [.message m source s.users] }

/-- A connection is marked to be upgraded under the name of a token. -/
def upgrade (s : Sessions) (h : HttpId) (tok : Bytes) : Sessions :=
  { s with
    http := Function.update s.http h
      { s.http h with upgraded := true, upgradedUser := s.tokens.lookup tok }
    history := s.history ++ [.upgrade (s.sockets (s.http h).fd) tok (s.tokens.lookup tok)] }

/-- An HTTP connection leaves the tables; its descriptor is left open. -/
def forget (s : Sessions) (h : HttpId) : Sessions :=
  { s with
    http := Function.update s.http h { s.http h with state := .CLOSED }
    contexts := Function.update s.contexts (s.http h).fd none
    conns := Function.update s.conns (s.http h).fd none }

/-- An HTTP connection leaves the tables and its descriptor is closed. -/
def closeHttp (s : Sessions) (h : HttpId) : Sessions :=
  { s.forget h with openFds := Function.update s.openFds (s.http h).fd false }

/-- The descriptor of an HTTP connection is handed over to a WebSocket connection
under the name it was marked with. -/
def handOver (s : Sessions) (h : HttpId) : Sessions :=
  { s.forget h with
    ws := Function.update s.ws s.wsAllocated
      { fd := (s.http h).fd, state := .ACTIVE, username := (s.http h).upgradedUser }
    wsAllocated := s.wsAllocated + 1
    contexts := Function.update s.contexts (s.http h).fd (some (.ws s.wsAllocated))
    hub := s.hub.insert s.wsAllocated
    history := s.history ++
      [.adopt (s.sockets (s.http h).fd) s.wsAllocated (s.http h).upgradedUser] }

/-- A WebSocket connection leaves the tables and its descriptor is closed. -/
def closeWs (s : Sessions) (x : WsId) : Sessions :=
  { s with
    ws := Function.update s.ws x { s.ws x with state := .CLOSED }
    contexts := Function.update s.contexts (s.ws x).fd none
    hub := s.hub.erase x
    openFds := Function.update s.openFds (s.ws x).fd false }

/-- A new socket gets a descriptor and an HTTP connection. -/
def accept (s : Sessions) (fd : Fd) : Sessions :=
  { s with
    http := Function.update s.http s.httpAllocated
      { fd := fd, state := .ACTIVE, upgraded := false, upgradedUser := "" }
    httpAllocated := s.httpAllocated + 1
    contexts := Function.update s.contexts fd (some (.http s.httpAllocated))
    conns :=
      match s.conns fd with
      | some _ => s.conns
      | none => Function.update s.conns fd (some s.httpAllocated)
    openFds := Function.update s.openFds fd true
    sockets := Function.update s.sockets fd s.nextSocket
    nextSocket := s.nextSocket + 1 }

end Sessions

/-- What requests and frames do.  A frame of `x` is only allowed to speak if
`P s x`. -/
inductive Talk (P : Sessions → WsId → Prop) : Sessions → Sessions → Prop where
  | login {s : Sessions} (u : String) (hnew : u ∉ s.users) (hname : u ≠ "") :
      Talk P s (s.login u)
  | logout {s : Sessions} (tok : Bytes) (hvalid : s.tokens.lookup tok ≠ "") :
      Talk P s (s.logout tok)
  | post {s : Sessions} (tok : Bytes) (m : Message) (hvalid : s.tokens.lookup tok ≠ "")
      (hfrom : m.from_ = s.tokens.lookup tok) :
      Talk P s (s.say m (.request tok))
  | speak {s : Sessions} (fd : Fd) (x : WsId) (m : Message)
      (hregistered : s.contexts fd = some (.ws x)) (hfrom : m.from_ = (s.ws x).username)
      (hallowed : P s x) :
      Talk P s (s.say m (.frame (s.sockets (s.ws x).fd)))
  | upgrade {s : Sessions} (fd : Fd) (h : HttpId) (tok : Bytes)
      (hregistered : s.contexts fd = some (.http h)) (hvalid : s.tokens.lookup tok ≠ "") :
      Talk P s (s.upgrade h tok)

/-- What a step of the server consists of. -/
inductive Act (P : Sessions → WsId → Prop) : Sessions → Sessions → Prop where
  | talk {s s' : Sessions} (h : Talk P s s') : Act P s s'
  | forget {s : Sessions} (fd : Fd) (h : HttpId) (hregistered : s.contexts fd = some (.http h)) :
      Act P s (s.forget h)
  | closeHttp {s : Sessions} (fd : Fd) (h : HttpId)
      (hregistered : s.contexts fd = some (.http h)) :
      Act P s (s.closeHttp h)
  | handOver {s : Sessions} (fd : Fd) (h : HttpId)
      (hregistered : s.contexts fd = some (.http h)) (hupgraded : (s.http h).upgraded = true) :
      Act P s (s.handOver h)
  | closeWs {s : Sessions} (fd : Fd) (x : WsId) (hregistered : s.contexts fd = some (.ws x)) :
      Act P s (s.closeWs x)
  | accept {s : Sessions} (fd : Fd) (hclosed : s.openFds fd = false) : Act P s (s.accept fd)

/-- A sequence of actions. -/
abbrev Acts (P : Sessions → WsId → Prop) : Sessions → Sessions → Prop :=
  Relation.ReflTransGen (Act P)

/-- What every action keeps, a sequence of actions keeps. -/
theorem Acts.keeps
    {P : Sessions → WsId → Prop} {I : Sessions → Prop} {s s' : Sessions}
    (hact : ∀ s s', Act P s s' → I s → I s') (hacts : Acts P s s') (hI : I s) :
    I s' := by
  induction hacts with
  | refl =>
      exact hI
  | tail _ hlast ih =>
      exact hact _ _ hlast ih

/-- Requests and frames do not touch the table of the reactor. -/
theorem Talk.contexts_eq
    {P : Sessions → WsId → Prop} {s s' : Sessions} (h : Talk P s s') :
    s'.contexts = s.contexts := by
  cases h with
  | login | logout | post | speak | upgrade =>
      rfl

end Web
end ChatRoom
