import ChatRoom.Web.Delivery
import ChatRoom.Web.EndOfStream
import ChatRoom.Web.Locality
import ChatRoom.Web.Responses

/-!
# The bytes behind an upgrade request

A client sends an upgrade request and goes on with WebSocket frames.  The HTTP
connection should not look at the bytes behind the request: it should answer the
request and nothing else, and the WebSocket connection should receive and decode
exactly these bytes (`HandedOver`).

Until the 101 response has been sent, the socket still belongs to the HTTP
connection.  What it reads behind the request is parsed as HTTP or destroyed
with it.  If it reads nothing behind the request, the stream is handed over
(`upgrade_stream_handed_over`).

`Stage` says what has become of the socket when some of the bytes have arrived.
-/

namespace ChatRoom
namespace Web

open Http Socket Runs Ws Incremental

/-- What the registered connection of a descriptor receives in an event. -/
structure Arrival where
  socket : SocketId
  target : Target
  bytes : Bytes
  /-- what the kernel says when the bytes have been received -/
  idle : Idle

/-- The pending bytes are received whenever the read callback is called. -/
def arrivals (w : World) : Event → List Arrival
  | .ready fd events input _ =>
      match w.reactor.contexts fd with
      | some t =>
          if events.failure || events.input then
            [{ socket := w.sockets fd, target := t, bytes := input.pending, idle := input.idle }]
          else
            []
      | none => []
  | _ => []

/-- The bytes that have arrived on a socket. -/
def bytesOn (socket : SocketId) (received : List Arrival) : Bytes :=
  received.flatMap fun a => if a.socket = socket then a.bytes else []

/-- The bytes that a connection has received. -/
def bytesFor (t : Target) (received : List Arrival) : Bytes :=
  received.flatMap fun a => if a.target = t then a.bytes else []

/-- The bytes that a connection has received and gone on to decode.  When the peer is gone, the
connection closes without looking at what it has received last. -/
def decodedFor (t : Target) (received : List Arrival) : Bytes :=
  received.flatMap fun a => if a.target = t ∧ a.idle = .again then a.bytes else []

/-- The responses given to a connection. -/
def responsesTo (h : HttpId) (history : List Obs) : List HttpResponse :=
  history.filterMap fun
    | .response h' resp => if h' = h then some resp else none
    | _ => none

/-- What a connection has made of a stream when it has decoded a front of it.  It has handed
over the texts in front of the first frame that the server refuses.  It has handed over nothing
else, unless the front cannot be read as frames.  As long as it is open, it has decoded all of
the stream, no frame has been refused, and the last, incomplete frame is in the read buffer. -/
structure Decoded (x : WsId) (stream front : Bytes) (w : World) : Prop where
  begins : front <+: stream
  texts : WsConnection.textPayloads (WsConnection.taken front) <+: heard x w.trace
  only : (frameDecoder.drain front).failed = false ∨
      (∃ f ∈ (frameDecoder.drain front).items, WsConnection.goesOn f = false) →
    heard x w.trace = WsConnection.textPayloads (WsConnection.taken front)
  opened : (w.wss x).state = .ACTIVE →
    front = stream ∧ (∀ f ∈ (frameDecoder.drain stream).items, WsConnection.goesOn f = true) ∧
      ((frameDecoder.drain stream).failed = false →
        heard x w.trace = WsConnection.textPayloads (frameDecoder.drain stream).items ∧
          (w.wss x).readBuf.readable = (frameDecoder.drain stream).unread)

/-- A connection has answered one request.  The WebSocket connection on its socket has
received, and decodes, what has arrived behind the request. -/
def HandedOver (request : Bytes) (h : HttpId) (socket : SocketId) (received : List Arrival)
    (w : World) : Prop :=
  (∃ resp, responsesTo h w.trace = [resp]) ∧
    ∀ x u, .adopt socket x u ∈ w.trace →
      bytesOn socket received = request ++ bytesFor (.ws x) received ∧
        Decoded x (bytesFor (.ws x) received) (decodedFor (.ws x) received) w

/-- An event does not bring a connection bytes behind its first request: before the
request is complete it brings at most the rest of it, and then nothing. -/
def KeepsStream (request : Bytes) (h : HttpId) (w : World) : Event → Prop
  | .ready fd events input _ =>
      w.reactor.contexts fd = some (.http h) → events.failure = true ∨ events.input = true →
        if (w.https h).upgraded then
          input.pending = []
        else
          (w.https h).readBuf.readableBytes + input.pending.length ≤ request.length
  | _ => True

section Bytes

variable {socket : SocketId} {t : Target} {w : World} {e : Event}

@[simp] theorem bytesOn_append
    (socket : SocketId) (past future : List Arrival) :
    bytesOn socket (past ++ future) = bytesOn socket past ++ bytesOn socket future := by
  exact List.flatMap_append

@[simp] theorem bytesFor_append
    (t : Target) (past future : List Arrival) :
    bytesFor t (past ++ future) = bytesFor t past ++ bytesFor t future := by
  exact List.flatMap_append

@[simp] theorem decodedFor_append
    (t : Target) (past future : List Arrival) :
    decodedFor t (past ++ future) = decodedFor t past ++ decodedFor t future := by
  exact List.flatMap_append

/-- Nothing is decoded where nothing has been received. -/
theorem decodedFor_eq_nil
    {received : List Arrival} (hnone : bytesFor t received = []) :
    decodedFor t received = [] := by
  rw [bytesFor, List.flatMap_eq_nil_iff] at hnone
  rw [decodedFor, List.flatMap_eq_nil_iff]
  intro a ha
  split
  · next hdecoded =>
      simpa [hdecoded.1] using hnone a ha
  · rfl

@[simp] theorem responsesTo_append
    (h : HttpId) (past future : List Obs) :
    responsesTo h (past ++ future) = responsesTo h past ++ responsesTo h future := by
  exact List.filterMap_append

/-- The registered connections are on the socket if and only if they are this one. -/
def Owns (w : World) (socket : SocketId) (t : Target) : Prop :=
  ∀ fd t', w.reactor.contexts fd = some t' → (w.sockets fd = socket ↔ t' = t)

theorem arrivals_registered
    {fd : Fd} {events : Ready} {input : Input} {sends : List SendResult}
    (ht : w.reactor.contexts fd = some t) :
    arrivals w (.ready fd events input sends) =
      if events.failure || events.input then
        [{ socket := w.sockets fd, target := t, bytes := input.pending, idle := input.idle }]
      else
        [] := by
  rw [arrivals, ht]

theorem arrivals_unregistered
    {fd : Fd} {events : Ready} {input : Input} {sends : List SendResult}
    (ht : w.reactor.contexts fd = none) :
    arrivals w (.ready fd events input sends) = [] := by
  rw [arrivals, ht]

/-- What a registered connection receives that is another one. -/
theorem bytesFor_arrivals_other
    {t' : Target} {fd : Fd} {events : Ready} {input : Input} {sends : List SendResult}
    (ht : w.reactor.contexts fd = some t') (hne : t' ≠ t) :
    bytesFor t (arrivals w (.ready fd events input sends)) = [] := by
  rw [arrivals_registered ht]
  split
  · simp [bytesFor, hne]
  · rfl

/-- The connection on a socket receives what arrives on the socket. -/
theorem Owns.bytesFor_arrivals
    (ho : Owns w socket t) (e : Event) :
    bytesFor t (arrivals w e) = bytesOn socket (arrivals w e) := by
  cases e with
  | ready fd events input sends =>
      cases ht : w.reactor.contexts fd with
      | none =>
          rw [arrivals_unregistered ht]
          rfl
      | some t' =>
          have hiff := ho fd t' ht
          rw [arrivals_registered ht]
          split
          · simp [bytesFor, bytesOn, hiff]
          · rfl
  | accept | clock | files =>
      rfl

end Bytes

section Aside

variable {t : Target} {w w' : World}

theorem Aside.responsesTo
    (haside : Aside t w w') {h : HttpId} (hne : t ≠ .http h) :
    responsesTo h w'.trace = responsesTo h w.trace := by
  obtain ⟨more, htrace, hmore⟩ := haside.history
  rw [htrace, responsesTo_append, List.append_right_eq_self, Web.responsesTo,
    List.filterMap_eq_nil_iff]
  intro o ho
  have hconcerns := hmore o ho
  cases o with
  | response h' resp =>
      obtain rfl : t = .http h' := hconcerns
      exact if_neg fun heq => hne (by rw [heq])
  | login | logout | message | upgrade | adopt | wrote | text =>
      rfl

theorem Aside.heard
    (haside : Aside t w w') {x : WsId} (hne : t ≠ .ws x) :
    heard x w'.trace = heard x w.trace := by
  obtain ⟨more, htrace, hmore⟩ := haside.history
  rw [htrace, heard_append, List.append_right_eq_self, Web.heard, List.filterMap_eq_nil_iff]
  intro o ho
  have hconcerns := hmore o ho
  cases o with
  | text y payload =>
      obtain rfl : t = .ws y := hconcerns
      exact if_neg fun heq => hne (by rw [heq])
  | login | logout | message | upgrade | adopt | wrote | response =>
      rfl

/-- A socket is handed over by an event of an HTTP connection on it. -/
theorem Aside.adopted
    (haside : Aside t w w') {socket : SocketId}
    (hother : w.sockets (w.fdOf t) ≠ socket ∨ ∀ h, t ≠ .http h) {x : WsId} {u : String}
    (hmem : .adopt socket x u ∈ w'.trace) :
    .adopt socket x u ∈ w.trace := by
  obtain ⟨more, htrace, hmore⟩ := haside.history
  rw [htrace] at hmem
  rcases List.mem_append.mp hmem with hmem | hmem
  · exact hmem
  · obtain ⟨hsocket, h, ht⟩ := hmore _ hmem
    rcases hother with hother | hother
    · exact absurd hsocket.symm hother
    · exact absurd ht (hother h)

/-- A socket keeps its connection in the events of other connections, and in those of a
WebSocket connection. -/
theorem Aside.owns
    (haside : Aside t w w') {socket : SocketId} {owner : Target} (howns : Owns w socket owner)
    (hallocated : w.sessions.Allocated owner)
    (hother : w.sockets (w.fdOf t) ≠ socket ∨ ∀ h, t ≠ .http h) :
    Owns w' socket owner := by
  intro fd t' hregistered
  rw [haside.sockets]
  rcases haside.registered fd t' hregistered with hold | ⟨rfl, ⟨h, ht⟩, x, rfl, hx⟩
  · exact howns fd t' hold
  · rcases hother with hother | hother
    · refine iff_of_false hother ?_
      rintro rfl
      exact absurd hallocated (Nat.not_lt.mpr hx)
    · exact absurd ht (hother h)

end Aside

section Decoded

variable {x : WsId} {stream front : Bytes} {w w' : World}

/-- What a connection has decoded depends on its texts, its state and its input. -/
theorem Decoded.same
    (hdecoded : Decoded x stream front w) (hheard : heard x w'.trace = heard x w.trace)
    (hread : (w'.wss x).readBuf = (w.wss x).readBuf)
    (hstate : (w'.wss x).state = (w.wss x).state) :
    Decoded x stream front w' := by
  refine ⟨hdecoded.begins, ?_, ?_, ?_⟩
  · rw [hheard]
    exact hdecoded.texts
  · rw [hheard]
    exact hdecoded.only
  · rw [hheard, hread, hstate]
    exact hdecoded.opened

/-- What arrives with the end of the stream is not decoded. -/
theorem Decoded.closed
    (hdecoded : Decoded x stream front w) (hheard : heard x w'.trace = heard x w.trace)
    (hclosed : (w'.wss x).state = .CLOSED) (more : Bytes) :
    Decoded x (stream ++ more) front w' := by
  refine ⟨hdecoded.begins.trans (List.prefix_append _ _), ?_, ?_, ?_⟩
  · rw [hheard]
    exact hdecoded.texts
  · rw [hheard]
    exact hdecoded.only
  · intro hactive
    rw [hclosed] at hactive
    cases hactive

end Decoded

/-- The socket belongs to an HTTP connection that is registered and has not handed it
over. -/
structure Holding (h : HttpId) (socket : SocketId) (received : List Arrival) (w : World) :
    Prop where
  registered : w.reactor.contexts (w.https h).fd = some (.http h)
  unique : ∀ fd, w.reactor.contexts fd = some (.http h) → fd = (w.https h).fd
  known : ∀ fd x, w.reactor.contexts fd = some (.ws x) → x < w.wsAllocated
  active : (w.https h).state ≠ .CLOSED
  owns : Owns w socket (.http h)
  unadopted : ∀ x u, .adopt socket x u ∉ w.trace
  silent : ∀ x, w.wsAllocated ≤ x → heard x w.trace = []
  unreceived : ∀ x, w.wsAllocated ≤ x → bytesFor (.ws x) received = []

/-- What has become of a socket on which a request arrives. -/
inductive Stage (cfg : Config) (request : Bytes) (h : HttpId) (socket : SocketId)
    (received : List Arrival) (w : World) : Prop where
  /-- the request is incomplete -/
  | reading (holding : Holding h socket received w)
      (waits : (w.https h).upgraded = false)
      (unread : (w.https h).readBuf.readable = bytesOn socket received)
      (short : (bytesOn socket received).length < request.length)
      (unanswered : responsesTo h w.trace = [])
  /-- the request has been answered, but the response has not been sent -/
  | waiting (holding : Holding h socket received w)
      (configured : cfg.configured = true)
      (upgraded : (w.https h).upgraded = true)
      (unread : (w.https h).readBuf.readable = [])
      (complete : bytesOn socket received = request)
      (answered : ∃ resp, responsesTo h w.trace = [resp])
  /-- the socket belongs to a WebSocket connection -/
  | handed (x : WsId) (owns : Owns w socket (.ws x)) (allocated : x < w.wsAllocated)
      (gone : ∀ fd, w.reactor.contexts fd ≠ some (.http h))
      (closed : (w.https h).state = .CLOSED)
      (answered : ∃ resp, responsesTo h w.trace = [resp])
      (adopted : ∀ x' u, .adopt socket x' u ∈ w.trace → x' = x)
      (behind : bytesOn socket received = request ++ bytesFor (.ws x) received)
      (decoded : Decoded x (bytesFor (.ws x) received) (decodedFor (.ws x) received) w)
  /-- the connection is closed before the request is complete -/
  | ended (gone : ∀ fd, w.reactor.contexts fd ≠ some (.http h))
      (closed : (w.https h).state = .CLOSED) (unanswered : responsesTo h w.trace = [])
  /-- the request is answered with an error -/
  | refused (resp : HttpResponse) (rest : List HttpResponse)
      (answered : responsesTo h w.trace = resp :: rest) (status : resp.statusCode ≠ 101)

section Stages

variable {cfg : Config} {request : Bytes} {h : HttpId} {socket : SocketId}
  {received : List Arrival} {w w' : World}

/-- An answer with an error stays the first one. -/
theorem Stage.refused_append
    {resp : HttpResponse} {rest : List HttpResponse}
    (hanswered : responsesTo h w.trace = resp :: rest)
    (hstatus : resp.statusCode ≠ 101) (received' : List Arrival)
    (hhistory : ∃ more, w'.trace = w.trace ++ more) :
    Stage cfg request h socket received' w' := by
  obtain ⟨more, htrace⟩ := hhistory
  refine .refused resp (rest ++ responsesTo h more) ?_ hstatus
  rw [htrace, responsesTo_append, hanswered]
  rfl

/-- What does not concern the hand-over. -/
structure Still (h : HttpId) (w w' : World) : Prop where
  contexts : w'.reactor.contexts = w.reactor.contexts
  sockets : w'.sockets = w.sockets
  wss : w'.wss = w.wss
  wsAllocated : w'.wsAllocated = w.wsAllocated
  fd : (w'.https h).fd = (w.https h).fd
  state : (w'.https h).state = (w.https h).state
  upgraded : (w'.https h).upgraded = (w.https h).upgraded
  readBuf : (w'.https h).readBuf.readable = (w.https h).readBuf.readable
  history : ∃ more, w'.trace = w.trace ++ more ∧ ∀ o ∈ more, ∃ s bs, o = .wrote s bs

section Still

variable (hstill : Still h w w')
include hstill

theorem Still.responsesTo :
    responsesTo h w'.trace = responsesTo h w.trace := by
  obtain ⟨more, htrace, hmore⟩ := hstill.history
  rw [htrace, responsesTo_append, List.append_right_eq_self, Web.responsesTo,
    List.filterMap_eq_nil_iff]
  intro o ho
  obtain ⟨s, bs, rfl⟩ := hmore o ho
  rfl

theorem Still.heard
    (x : WsId) :
    heard x w'.trace = heard x w.trace := by
  obtain ⟨more, htrace, hmore⟩ := hstill.history
  rw [htrace, heard_append, List.append_right_eq_self, Web.heard, List.filterMap_eq_nil_iff]
  intro o ho
  obtain ⟨s, bs, rfl⟩ := hmore o ho
  rfl

theorem Still.adopted
    {x : WsId} {u : String} (hmem : .adopt socket x u ∈ w'.trace) :
    .adopt socket x u ∈ w.trace := by
  obtain ⟨more, htrace, hmore⟩ := hstill.history
  rw [htrace] at hmem
  rcases List.mem_append.mp hmem with hmem | hmem
  · exact hmem
  · obtain ⟨s, bs, heq⟩ := hmore _ hmem
    cases heq

theorem Still.owns
    {t : Target} (howns : Owns w socket t) :
    Owns w' socket t := by
  unfold Owns
  rw [hstill.contexts, hstill.sockets]
  exact howns

theorem Still.holding
    (hh : Holding h socket received w) :
    Holding h socket received w' where
  registered := by rw [hstill.contexts, hstill.fd, hh.registered]
  unique := by rw [hstill.contexts, hstill.fd]; exact hh.unique
  known := by rw [hstill.contexts, hstill.wsAllocated]; exact hh.known
  active := by rw [hstill.state]; exact hh.active
  owns := hstill.owns hh.owns
  unadopted x u hmem := hh.unadopted x u (hstill.adopted hmem)
  silent x hx := by
    rw [hstill.wsAllocated] at hx
    rw [hstill.heard, hh.silent x hx]
  unreceived x hx := by
    rw [hstill.wsAllocated] at hx
    exact hh.unreceived x hx

theorem Still.decoded
    {x : WsId} {stream front : Bytes} (hdecoded : Decoded x stream front w) :
    Decoded x stream front w' :=
  hdecoded.same (hstill.heard x) (by rw [hstill.wss]) (by rw [hstill.wss])

theorem Still.stage
    (hstage : Stage cfg request h socket received w) :
    Stage cfg request h socket received w' := by
  cases hstage with
  | reading holding waits unread short unanswered =>
      refine .reading (hstill.holding holding) ?_ ?_ short ?_
      · rw [hstill.upgraded, waits]
      · rw [hstill.readBuf, unread]
      · rw [hstill.responsesTo, unanswered]
  | waiting holding configured upgraded unread complete answered =>
      refine .waiting (hstill.holding holding) configured ?_ ?_ complete ?_
      · rw [hstill.upgraded, upgraded]
      · rw [hstill.readBuf, unread]
      · rwa [hstill.responsesTo]
  | handed x owns allocated gone closed answered adopted behind decoded =>
      refine .handed x (hstill.owns owns) ?_ ?_ ?_ ?_ ?_ behind (hstill.decoded decoded)
      · rwa [hstill.wsAllocated]
      · rwa [hstill.contexts]
      · rw [hstill.state, closed]
      · rwa [hstill.responsesTo]
      · exact fun x' u hmem => adopted x' u (hstill.adopted hmem)
  | ended gone closed unanswered =>
      refine .ended ?_ ?_ ?_
      · rwa [hstill.contexts]
      · rw [hstill.state, closed]
      · rw [hstill.responsesTo, unanswered]
  | refused resp rest answered status =>
      obtain ⟨more, htrace, -⟩ := hstill.history
      exact .refused_append answered status received ⟨more, htrace⟩

end Still

/-- Tables that the hand-over does not depend on. -/
theorem Still.of_tables
    (hcontexts : w'.reactor.contexts = w.reactor.contexts) (hsockets : w'.sockets = w.sockets)
    (hwss : w'.wss = w.wss) (hws : w'.wsAllocated = w.wsAllocated) (hhttps : w'.https = w.https)
    (htrace : w'.trace = w.trace) :
    Still h w w' where
  contexts := hcontexts
  sockets := hsockets
  wss := hwss
  wsAllocated := hws
  fd := by rw [hhttps]
  state := by rw [hhttps]
  upgraded := by rw [hhttps]
  readBuf := by rw [hhttps]
  history := ⟨[], by rw [htrace, List.append_nil], by simp⟩

theorem still_modifyFd
    (w : World) (h : HttpId) (fd : Fd) (events : Interest) :
    Still h w (w.modifyFd fd events) :=
  .of_tables (Reactor.contexts_modifyFd _ _ _) rfl rfl rfl rfl rfl

theorem still_closeFd
    (w : World) (h : HttpId) (fd : Fd) :
    Still h w (w.closeFd fd) :=
  .of_tables rfl rfl rfl rfl rfl rfl

theorem still_eraseConn
    (w : World) (h : HttpId) (fd : Fd) :
    Still h w (w.eraseConn fd) :=
  .of_tables rfl rfl rfl rfl rfl rfl

theorem still_wrote
    (w : World) (h : HttpId) (n : Nat) :
    Still h w (HttpConnection.wrote w h n) := by
  have hconn : (HttpConnection.wrote w h n).https h =
      { w.https h with writeBuf := (w.https h).writeBuf.consume n } :=
    Function.update_self _ _ _
  refine ⟨rfl, rfl, rfl, rfl, ?_, ?_, ?_, ?_, [_], rfl, by simp⟩
  · rw [hconn]
  · rw [hconn]
  · rw [hconn]
  · rw [hconn]

theorem still_receive
    (w : World) (h : HttpId) {readBuf : Buffer}
    (hread : readBuf.readable = (w.https h).readBuf.readable) :
    Still h w (w.setHttp h { w.https h with readBuf := readBuf }) := by
  have hconn : (w.setHttp h { w.https h with readBuf := readBuf }).https h =
      { w.https h with readBuf := readBuf } := Function.update_self _ _ _
  refine ⟨rfl, rfl, rfl, rfl, ?_, ?_, ?_, ?_, [], (List.append_nil _).symm, by simp⟩
  · rw [hconn]
  · rw [hconn]
  · rw [hconn]
  · rw [hconn]
    exact hread

/-- What is left of a connection that is closed. -/
structure Closed (h : HttpId) (w w' : World) : Prop where
  gone : ∀ fd, w'.reactor.contexts fd ≠ some (.http h)
  closed : (w'.https h).state = .CLOSED
  responses : responsesTo h w'.trace = responsesTo h w.trace

/-- A connection that leaves the table of the reactor is registered nowhere. -/
theorem Holding.detached
    (hh : Holding h socket received w) (fd : Fd) :
    (HttpConnection.detached w h).reactor.contexts fd ≠ some (.http h) := by
  intro hregistered
  have hregistered : Function.update w.reactor.contexts (w.https h).fd none fd =
      some (.http h) := hregistered
  by_cases hfd : fd = (w.https h).fd
  · rw [hfd, Function.update_self] at hregistered
    cases hregistered
  · rw [Function.update_of_ne hfd] at hregistered
    exact hfd (hh.unique fd hregistered)

/-- Closing a connection that has not been upgraded. -/
theorem Holding.close_waits
    (hh : Holding h socket received w) (hwaits : (w.https h).upgraded = false)
    (hok : HttpConnection.close (HttpServer.callbacks cfg) w h = .ok w') :
    Closed h w w' := by
  obtain ⟨w₁, hclose, rfl⟩ := HttpConnection.close_cases hh.active hok
  have hconn := HttpConnection.https_detached w h
  have hstate : ((HttpConnection.detached w h).https h).state = .CLOSED := by
    rw [hconn]
  rcases HttpServer.onClose_cases hclose with ⟨hup, -⟩ | ⟨-, rfl⟩
  · rw [hconn] at hup
    rw [show (w.https h).upgraded = true from hup] at hwaits
    cases hwaits
  · split
    · exact ⟨hh.detached, hstate, rfl⟩
    · exact ⟨hh.detached, hstate, rfl⟩

/-- Who is registered when the descriptor has been adopted. -/
theorem Holding.adopt_registered
    (hh : Holding h socket received w) {w₁ : World}
    (hcontexts : w₁.reactor.contexts =
      Function.update (HttpConnection.detached w h).reactor.contexts (w.https h).fd
        (some (.ws w.wsAllocated)))
    {fd : Fd} {t : Target} (ht : w₁.reactor.contexts fd = some t) :
    fd = (w.https h).fd ∧ t = .ws w.wsAllocated ∨
      t ≠ .http h ∧ w.reactor.contexts fd = some t := by
  rw [hcontexts] at ht
  by_cases hfd : fd = (w.https h).fd
  · rw [hfd, Function.update_self, Option.some.injEq] at ht
    exact .inl ⟨hfd, ht.symm⟩
  · rw [Function.update_of_ne hfd] at ht
    have hother : t ≠ .http h := by
      rintro rfl
      exact hh.detached fd ht
    have hold : Function.update w.reactor.contexts (w.https h).fd none fd = some t := ht
    rw [Function.update_of_ne hfd] at hold
    exact .inr ⟨hother, hold⟩

/-- The adopted connection starts with the first byte behind the request. -/
theorem Holding.adopt
    (hh : Holding h socket received w) (hcomplete : bytesOn socket received = request)
    (hanswered : ∃ resp, responsesTo h w.trace = [resp]) {user : String}
    (hadopt : WsHub.adoptConnection (HttpConnection.detached w h) (w.https h).fd user = .ok w') :
    Stage cfg request h socket received w' := by
  have hconn := HttpConnection.https_detached w h
  obtain ⟨haside, hhttps, htrace, hcontexts, hwss, hnext⟩ :=
    adoptConnection_spec (by rw [hconn]) hadopt
  have htrace : w'.trace =
      w.trace ++ [.adopt (w.sockets (w.https h).fd) w.wsAllocated user] := htrace
  have hnext : w'.wsAllocated = w.wsAllocated + 1 := hnext
  have hsockets : w'.sockets = w.sockets := haside.sockets
  have hwss : w'.wss =
      Function.update w.wss w.wsAllocated (WsConnection.new (w.https h).fd user) := hwss
  have hregistered {fd : Fd} {t : Target} (ht : w'.reactor.contexts fd = some t) :=
    hh.adopt_registered hcontexts ht
  refine .handed w.wsAllocated ?_ ?_ ?_ ?_ ?_ ?_ ?_ ?_
  · intro fd t ht
    rw [hsockets]
    rcases hregistered ht with ⟨rfl, rfl⟩ | ⟨hother, ht⟩
    · exact iff_of_true ((hh.owns _ _ hh.registered).mpr rfl) rfl
    · refine iff_of_false (fun hs => hother ((hh.owns fd t ht).mp hs)) ?_
      rintro rfl
      exact Nat.lt_irrefl _ (hh.known fd _ ht)
  · rw [hnext]
    exact Nat.lt_succ_self _
  · intro fd ht
    rcases hregistered ht with ⟨-, heq⟩ | ⟨hother, -⟩
    · cases heq
    · exact hother rfl
  · rw [hhttps, hconn]
  · obtain ⟨resp, hresp⟩ := hanswered
    refine ⟨resp, ?_⟩
    rw [htrace, responsesTo_append, hresp]
    rfl
  · intro x u hmem
    rw [htrace] at hmem
    rcases List.mem_append.mp hmem with hmem | hmem
    · exact absurd hmem (hh.unadopted x u)
    · cases List.mem_singleton.mp hmem
      rfl
  · rw [hcomplete, hh.unreceived _ le_rfl, List.append_nil]
  · have hempty : frameDecoder.drain [] = { items := [], unread := [], failed := false } :=
      Decoder.drain_wait _ rfl
    have hnone : heard w.wsAllocated w'.trace = [] := by
      rw [htrace, heard_append, hh.silent _ le_rfl]
      rfl
    have htaken : WsConnection.taken [] = [] := by
      rw [WsConnection.taken, hempty]
      rfl
    rw [hh.unreceived _ le_rfl, decodedFor_eq_nil (hh.unreceived _ le_rfl)]
    refine ⟨List.prefix_rfl, ?_, fun _ => ?_, fun _ => ⟨rfl, ?_, fun _ => ?_⟩⟩
    · rw [htaken]
      exact List.nil_prefix
    · rw [hnone, htaken]
      rfl
    · simp [hempty]
    · rw [hnone, hempty, hwss, Function.update_self]
      exact ⟨rfl, rfl⟩

/-- Closing a connection that has been upgraded hands the socket over. -/
theorem Holding.close_upgraded
    (hh : Holding h socket received w) (hconfigured : cfg.configured = true)
    (hupgraded : (w.https h).upgraded = true)
    (hcomplete : bytesOn socket received = request)
    (hanswered : ∃ resp, responsesTo h w.trace = [resp])
    (hok : HttpConnection.close (HttpServer.callbacks cfg) w h = .ok w') :
    Stage cfg request h socket received w' := by
  obtain ⟨w₁, hclose, rfl⟩ := HttpConnection.close_cases hh.active hok
  have hconn := HttpConnection.https_detached w h
  rcases HttpServer.onClose_cases hclose with ⟨-, -, w₂, hadopt, rfl⟩ | ⟨hnot, -⟩
  · rw [hconn] at hadopt ⊢
    have hstage : Stage cfg request h socket received (w₂.eraseConn (w.https h).fd) :=
      (still_eraseConn w₂ h _).stage (hh.adopt hcomplete hanswered hadopt)
    split
    · exact hstage
    · exact (still_closeFd _ h _).stage hstage
  · rw [hconn] at hnot
    exact absurd ⟨hupgraded, hconfigured⟩ hnot

/-- Closing the HTTP connection in any stage. -/
theorem Stage.close
    (hstage : Stage cfg request h socket received w)
    (hok : HttpConnection.close (HttpServer.callbacks cfg) w h = .ok w') :
    Stage cfg request h socket received w' := by
  cases hstage with
  | reading holding waits unread short unanswered =>
      obtain ⟨hgone, hclosed, hresponses⟩ := holding.close_waits waits hok
      exact .ended hgone hclosed (hresponses.trans unanswered)
  | waiting holding configured upgraded unread complete answered =>
      exact holding.close_upgraded configured upgraded complete answered hok
  | handed x owns allocated gone closed answered adopted behind decoded =>
      rw [HttpConnection.close, if_pos closed, Except.ok.injEq] at hok
      subst hok
      exact .handed x owns allocated gone closed answered adopted behind decoded
  | ended gone closed unanswered =>
      rw [HttpConnection.close, if_pos closed, Except.ok.injEq] at hok
      subst hok
      exact .ended gone closed unanswered
  | refused resp rest answered status =>
      obtain ⟨more, htrace, -⟩ := (aside_httpClose hok).history
      exact .refused_append answered status received ⟨more, htrace⟩

/-- A writable event of the HTTP connection. -/
theorem Stage.write
    (hstage : Stage cfg request h socket received w) {sends : List SendResult}
    (hok : HttpConnection.onWrite (HttpServer.callbacks cfg) h w sends = .ok w') :
    Stage cfg request h socket received w' := by
  obtain ⟨w₁, hstage₁, hend⟩ := HttpConnection.onWrite_keeps
    (I := Stage cfg request h socket received)
    (fun w₁ n hstage₁ => (still_wrote w₁ h n).stage hstage₁) hstage hok
  rcases hend with rfl | hclose | ⟨-, rfl⟩
  · exact hstage₁
  · exact hstage₁.close hclose
  · exact (still_modifyFd w₁ h _ _).stage hstage₁

/-- An event of the connection that leaves it registered and hands nothing over. -/
theorem Holding.keep
    (hh : Holding h socket received w) (haside : Aside (.http h) w w')
    (hcontexts : w'.reactor.contexts = w.reactor.contexts)
    (hws : w'.wsAllocated = w.wsAllocated)
    (hstate : (w'.https h).state = (w.https h).state)
    (hadopted : ∀ x u, .adopt socket x u ∈ w'.trace → .adopt socket x u ∈ w.trace) :
    Holding h socket received w' := by
  have hfd : (w'.https h).fd = (w.https h).fd := haside.fdOf
  refine ⟨?_, ?_, ?_, ?_, ?_, ?_, ?_, ?_⟩
  · rw [hcontexts, hfd, hh.registered]
  · rw [hcontexts, hfd]
    exact hh.unique
  · rw [hcontexts, hws]
    exact hh.known
  · rw [hstate]
    exact hh.active
  · unfold Owns
    rw [hcontexts, haside.sockets]
    exact hh.owns
  · exact fun x u hmem => hh.unadopted x u (hadopted x u hmem)
  · rw [hws]
    exact fun x hx => (haside.heard (by simp)).trans (hh.silent x hx)
  · rw [hws]
    exact hh.unreceived

theorem Holding.receive
    (hh : Holding h socket received w) (readBuf : Buffer) :
    Holding h socket received (w.setHttp h { w.https h with readBuf := readBuf }) :=
  hh.keep (aside_setHttp w rfl) rfl rfl (by simp [World.setHttp]) fun _ _ hmem => hmem

theorem Holding.send
    (hh : Holding h socket received w) (resp : HttpResponse) :
    Holding h socket received (HttpConnection.send w h resp) := by
  have hsessions := sessions_send w h resp
  refine hh.keep (aside_send w h resp) (congrArg Sessions.contexts hsessions)
    (congrArg Sessions.wsAllocated hsessions)
    (congrArg (fun s : Sessions => (s.http h).state) hsessions) ?_
  intro x u hmem
  rw [trace_send] at hmem
  simpa using hmem

theorem Holding.markUpgraded
    (hh : Holding h socket received w) (tok : Bytes) :
    Holding h socket received (markedUpgraded w h tok) := by
  have haside : Aside (.http h) w (HttpConnection.markUpgraded w h (w.tokens.lookup tok)) :=
    aside_setHttp w rfl
  have hnote : Aside (.http h) w (markedUpgraded w h tok) := by
    refine haside.trans (aside_note _ ⟨?_, h, rfl⟩)
    rw [haside.sockets, haside.fdOf]
    rfl
  refine hh.keep hnote rfl rfl ?_ ?_
  · simp [markedUpgraded, HttpConnection.markUpgraded, World.setHttp, World.note]
  · intro x u hmem
    have hmem : .adopt socket x u ∈
        w.trace ++ [.upgrade (w.sockets (w.https h).fd) tok (w.tokens.lookup tok)] := hmem
    simpa using hmem

end Stages

section Upgrade

variable {cfg : Config} {w w' : World} {h : HttpId} {req : HttpRequest}

/-- An upgrade request is answered with an error, or accepted. -/
theorem dispatch_upgrade
    (hupgrade : HttpServer.isUpgrade req = true)
    (hok : HttpServer.dispatch cfg w h req = .ok w') :
    (∃ resp, resp.statusCode ≠ 101 ∧ w' = HttpConnection.send w h resp) ∨
      cfg.configured = true ∧
        ∃ tok resp, w' = HttpConnection.send (markedUpgraded w h tok) h resp := by
  rw [HttpServer.dispatch, if_pos hupgrade, Except.ok.injEq] at hok
  subst hok
  unfold HttpServer.handleWsUpgrade
  by_cases hcfg : cfg.configured
  · by_cases htok : (req.getQuery (bytes "token")).isEmpty
    · simp only [hcfg, htok, Bool.not_true, Bool.false_eq_true, if_true, if_false]
      exact .inl ⟨_, by decide, rfl⟩
    · simp only [hcfg, htok, Bool.not_true, Bool.false_eq_true, if_false]
      split
      · exact .inl ⟨_, by decide, rfl⟩
      · split
        · exact .inl ⟨_, by decide, rfl⟩
        · split
          · exact .inl ⟨_, by decide, rfl⟩
          · refine .inr ⟨trivial, req.getQuery (bytes "token"),
              HttpServer.switchingProtocols
                (computeAcceptKey (req.getHeader (bytes "Sec-WebSocket-Key"))), ?_⟩
            simp [markedUpgraded, HttpConnection.markUpgraded, World.setHttp]
  · simp only [hcfg, Bool.not_false, if_true]
    exact .inl ⟨_, by decide, rfl⟩

end Upgrade

section Reads

variable {cfg : Config} {request : Bytes} {h : HttpId} {socket : SocketId}
  {received received' : List Arrival} {w w' : World} {req : HttpRequest}

theorem responsesTo_send
    (w : World) (h : HttpId) (resp : HttpResponse) :
    responsesTo h (HttpConnection.send w h resp).trace = responsesTo h w.trace ++ [resp] := by
  rw [trace_send, responsesTo_append]
  simp [responsesTo]

/-- The complete request is answered. -/
theorem Holding.answer
    (hh : Holding h socket received w) (hunanswered : responsesTo h w.trace = [])
    (hunread : (w.https h).readBuf.readable = []) (hcomplete : bytesOn socket received = request)
    (hupgrade : HttpServer.isUpgrade req = true)
    (hok : HttpServer.dispatch cfg w h req = .ok w') :
    Stage cfg request h socket received w' ∧ (w'.https h).readBuf.readable = [] := by
  rcases dispatch_upgrade hupgrade hok with ⟨resp, hstatus, rfl⟩ | ⟨hcfg, tok, resp, rfl⟩
  · refine ⟨.refused resp [] ?_ hstatus, ?_⟩
    · rw [responsesTo_send, hunanswered]
      rfl
    · rw [https_send, Function.update_self, hunread]
  · have hmarked : (markedUpgraded w h tok).https h =
        { w.https h with upgraded := true, upgradedUser := w.tokens.lookup tok } :=
      Function.update_self _ _ _
    have hnone : responsesTo h (markedUpgraded w h tok).trace = responsesTo h w.trace := by
      have hentry : (markedUpgraded w h tok).trace =
          w.trace ++ [.upgrade (w.sockets (w.https h).fd) tok (w.tokens.lookup tok)] := rfl
      rw [hentry, responsesTo_append]
      exact List.append_nil _
    have hempty : ((HttpConnection.send (markedUpgraded w h tok) h resp).https h).readBuf.readable =
        [] := by
      rw [https_send, Function.update_self, hmarked]
      exact hunread
    refine ⟨.waiting ((hh.markUpgraded tok).send resp) hcfg ?_ hempty hcomplete ⟨resp, ?_⟩, hempty⟩
    · rw [https_send, Function.update_self, hmarked]
    · rw [responsesTo_send, hnone, hunanswered]
      rfl

/-- Bytes have arrived on the socket, for the HTTP connection. -/
theorem Holding.arrive
    (hh : Holding h socket received w)
    (hnew : ∀ x, bytesFor (.ws x) received' = bytesFor (.ws x) received) :
    Holding h socket received' w :=
  { hh with unreceived := fun x hx => (hnew x).trans (hh.unreceived x hx) }

/-- The verdict on a part of the request. -/
theorem requestVerdict_of_part
    (hrequest : requestDecoder.decode request = .done request.length req) {bs : Bytes}
    (hcomparable : bs <+: request) (hshort : bs.length < request.length) :
    requestVerdict bs = .wait := by
  obtain ⟨rest, rfl⟩ := hcomparable
  cases hverdict : requestVerdict bs with
  | done n req' =>
      have hbounds := requestVerdict_bounds hverdict
      have hwhole : requestDecoder.decode (bs ++ rest) = .done n req' :=
        requestVerdict_append_of_done hverdict rest
      rw [hrequest] at hwhole
      cases hwhole
      omega
  | wait =>
      rfl
  | malformed =>
      exact absurd hverdict (requestVerdict_ne_malformed bs)

/-- The loop over the requests when the request is complete and nothing follows it. -/
theorem Holding.loop_complete
    (hh : Holding h socket received w) (hunanswered : responsesTo h w.trace = [])
    (hread : (w.https h).readBuf.readable = request) (hcomplete : bytesOn socket received = request)
    (hrequest : requestDecoder.decode request = .done request.length req)
    (hupgrade : HttpServer.isUpgrade req = true) {fuel : Nat} (hfuel : 0 < fuel)
    (hok : HttpConnection.requestLoop (HttpServer.callbacks cfg) h (fuel + 1) w = .ok w') :
    Stage cfg request h socket received w' := by
  have hverdict : requestVerdict (w.https h).readBuf.readable = .done request.length req := by
    rw [hread]
    exact hrequest
  obtain ⟨readBuf, hrest, hturn⟩ :=
    HttpConnection.requestLoop_done (HttpServer.callbacks cfg) hverdict fuel
  have hconn : (w.setHttp h { w.https h with readBuf := readBuf }).https h =
      { w.https h with readBuf := readBuf } := Function.update_self _ _ _
  rw [hread, List.drop_length] at hrest
  rw [hturn] at hok
  obtain ⟨w₁, hdispatch, hloop⟩ := bind_eq_ok.mp hok
  have hempty : ((w.setHttp h { w.https h with readBuf := readBuf }).https h).readBuf.readable =
      [] := by
    rw [hconn]
    exact hrest
  obtain ⟨hstage, hleft⟩ :=
    (hh.receive readBuf).answer hunanswered hempty hcomplete hupgrade hdispatch
  obtain ⟨more, rfl⟩ := Nat.exists_eq_succ_of_ne_zero hfuel.ne'
  have hwait : requestVerdict (w₁.https h).readBuf.readable = .wait := by
    rw [hleft]
    rfl
  obtain ⟨rest, hsame, hlast⟩ :=
    HttpConnection.requestLoop_wait (HttpServer.callbacks cfg) hwait more
  rw [hlast, Except.ok.injEq] at hloop
  subst hloop
  exact (still_receive w₁ h hsame).stage hstage

/-- A readable event before the request is complete. -/
theorem Holding.read_reading
    (hh : Holding h socket received w) (hwaits : (w.https h).upgraded = false)
    (hunread : (w.https h).readBuf.readable = bytesOn socket received)
    (hunanswered : responsesTo h w.trace = [])
    (hrequest : requestDecoder.decode request = .done request.length req)
    (hupgrade : HttpServer.isUpgrade req = true) {input : Input}
    (hon : bytesOn socket received' = bytesOn socket received ++ input.pending)
    (hcomparable : bytesOn socket received' <+: request)
    (hnew : ∀ x, bytesFor (.ws x) received' = bytesFor (.ws x) received)
    (hok : HttpConnection.onRead (HttpServer.callbacks cfg) w h input = .ok w') :
    Stage cfg request h socket received' w' := by
  have hh' := hh.arrive hnew
  by_cases hidle : input.idle = .again
  · obtain ⟨readBuf, hread, hloop⟩ :=
      HttpConnection.onRead_again (HttpServer.callbacks cfg) w h hidle
    have hconn : (w.setHttp h { w.https h with readBuf := readBuf }).https h =
        { w.https h with readBuf := readBuf } := Function.update_self _ _ _
    have hreceived := hh'.receive readBuf
    rw [hunread, ← hon] at hread
    rw [hloop] at hok
    by_cases hshort : (bytesOn socket received').length < request.length
    · have hverdict := requestVerdict_of_part hrequest hcomparable hshort
      rw [← hread] at hverdict
      have hwait : requestVerdict ((w.setHttp h { w.https h with readBuf := readBuf }).https
          h).readBuf.readable = .wait := by
        rw [hconn]
        exact hverdict
      obtain ⟨rest, hrest, hturn⟩ := HttpConnection.requestLoop_wait
        (HttpServer.callbacks cfg) hwait readBuf.readableBytes
      rw [hturn, Except.ok.injEq] at hok
      subst hok
      refine (still_receive _ h hrest).stage (.reading hreceived ?_ ?_ hshort hunanswered)
      · rw [hconn]
        exact hwaits
      · rw [hconn]
        exact hread
    · have hcomplete : bytesOn socket received' = request :=
        hcomparable.eq_of_length_le (by omega)
      rw [hcomplete] at hread
      refine hreceived.loop_complete hunanswered ?_ hcomplete hrequest hupgrade ?_ hok
      · rw [hconn]
        exact hread
      · rw [← Buffer.length_readable, hread]
        exact (requestVerdict_bounds hrequest).1
  · obtain ⟨readBuf, hclose⟩ :=
      HttpConnection.onRead_hangup (HttpServer.callbacks cfg) w h hidle
    rw [hclose] at hok
    obtain ⟨hgone, hclosed, hresponses⟩ := (hh'.receive readBuf).close_waits
      (by simpa [World.setHttp] using hwaits) hok
    exact .ended hgone hclosed (hresponses.trans hunanswered)

/-- A readable event while the response is waiting to be sent. -/
theorem Holding.read_waiting
    (hh : Holding h socket received w) (hconfigured : cfg.configured = true)
    (hupgraded : (w.https h).upgraded = true) (hunread : (w.https h).readBuf.readable = [])
    (hcomplete : bytesOn socket received' = request)
    (hanswered : ∃ resp, responsesTo h w.trace = [resp]) {input : Input}
    (hnothing : input.pending = [])
    (hnew : ∀ x, bytesFor (.ws x) received' = bytesFor (.ws x) received)
    (hok : HttpConnection.onRead (HttpServer.callbacks cfg) w h input = .ok w') :
    Stage cfg request h socket received' w' := by
  have hh' := hh.arrive hnew
  by_cases hidle : input.idle = .again
  · obtain ⟨readBuf, hread, hloop⟩ :=
      HttpConnection.onRead_again (HttpServer.callbacks cfg) w h hidle
    have hconn : (w.setHttp h { w.https h with readBuf := readBuf }).https h =
        { w.https h with readBuf := readBuf } := Function.update_self _ _ _
    rw [hunread, hnothing, List.append_nil] at hread
    have hempty : ((w.setHttp h { w.https h with readBuf := readBuf }).https
        h).readBuf.readable = [] := by
      rw [hconn]
      exact hread
    have hwait : requestVerdict ((w.setHttp h { w.https h with readBuf := readBuf }).https
        h).readBuf.readable = .wait := by
      rw [hempty]
      rfl
    obtain ⟨rest, hrest, hturn⟩ := HttpConnection.requestLoop_wait
      (HttpServer.callbacks cfg) hwait readBuf.readableBytes
    rw [hloop, hturn, Except.ok.injEq] at hok
    subst hok
    refine (still_receive _ h hrest).stage
      (.waiting (hh'.receive readBuf) hconfigured ?_ hempty hcomplete hanswered)
    rw [hconn]
    exact hupgraded
  · obtain ⟨readBuf, hclose⟩ :=
      HttpConnection.onRead_hangup (HttpServer.callbacks cfg) w h hidle
    rw [hclose] at hok
    refine (hh'.receive readBuf).close_upgraded hconfigured ?_ hcomplete hanswered hok
    simpa [World.setHttp] using hupgraded

/-- A readable event of the HTTP connection. -/
theorem Stage.read
    (hstage : Stage cfg request h socket received w) {fd : Fd}
    (hregistered : w.reactor.contexts fd = some (.http h))
    (hrequest : requestDecoder.decode request = .done request.length req)
    (hupgrade : HttpServer.isUpgrade req = true) {input : Input}
    (hkeeps : if (w.https h).upgraded then
        input.pending = []
      else
        (w.https h).readBuf.readableBytes + input.pending.length ≤ request.length)
    (hon : bytesOn socket received' = bytesOn socket received ++ input.pending)
    (hcomparable : bytesOn socket received' <+: request ∨ request <+: bytesOn socket received')
    (hnew : ∀ x, bytesFor (.ws x) received' = bytesFor (.ws x) received)
    (hok : HttpConnection.onRead (HttpServer.callbacks cfg) w h input = .ok w') :
    Stage cfg request h socket received' w' := by
  cases hstage with
  | reading holding waits unread short unanswered =>
      rw [if_neg (by simp [waits]), ← Buffer.length_readable, unread, ← List.length_append,
        ← hon] at hkeeps
      have hpart : bytesOn socket received' <+: request := by
        rcases hcomparable with hcomparable | hcomparable
        · exact hcomparable
        · rw [hcomparable.eq_of_length_le hkeeps]
      exact holding.read_reading waits unread unanswered hrequest hupgrade hon hpart hnew hok
  | waiting holding configured upgraded unread complete answered =>
      rw [if_pos upgraded] at hkeeps
      rw [hkeeps, List.append_nil, complete] at hon
      exact holding.read_waiting configured upgraded unread hon answered hkeeps hnew hok
  | handed x owns allocated gone closed answered adopted behind decoded =>
      exact absurd hregistered (gone fd)
  | ended gone closed unanswered =>
      exact absurd hregistered (gone fd)
  | refused resp rest answered status =>
      obtain ⟨more, htrace, -⟩ := (aside_httpRead hok).history
      exact .refused_append answered status received' ⟨more, htrace⟩

end Reads

section Decoding

open WsConnection

variable {J : JsonLib} {x : WsId} {stream front : Bytes} {w w' : World}

/-- What the loop over the frames keeps: each text is handed over. -/
theorem heardRule
    (J : JsonLib) (x : WsId) (w : World) :
    FrameRule (WsHub.callbacks J) x fun done w₁ =>
      heard x w₁.trace = heard x w.trace ++ textPayloads done ∧
        (w₁.wss x).state = (w.wss x).state where
  keepsInput := keepsInput_hub J x
  receive := by
    rintro done w₁ readBuf ⟨hheard, hstate⟩
    exact ⟨hheard, by simpa [World.setWs] using hstate⟩
  dispatch := by
    rintro done w₁ f ⟨hheard, hstate⟩ hgo
    rcases goesOn_iff.mp hgo with hf | hf | hf | hf
    · rw [dispatch_text _ w₁ x hf]
      have happends := onText_appends J (w₁.note (.text x f.payload)) x x f.payload
      refine ⟨?_, happends.state.trans hstate⟩
      rw [show (WsHub.callbacks J).onText = WsHub.onText J from rfl, happends.heard,
        heard_note_text, hheard]
      simp [textPayloads, hf]
    · rw [dispatch_ping _ w₁ x hf, trace_queue, wss_queue]
      refine ⟨?_, hstate⟩
      simpa [textPayloads, hf, Opcode.code_inj] using hheard
    · rw [dispatch_pong _ w₁ x hf]
      refine ⟨?_, hstate⟩
      simpa [textPayloads, hf, Opcode.code_inj] using hheard
    · rw [dispatch_close _ w₁ x hf, trace_queue, wss_queue]
      refine ⟨?_, by simpa [World.setWs] using hstate⟩
      simpa [textPayloads, hf, Opcode.code_inj, World.setWs] using hheard

/-- What a readable event comes to for a connection that is open. -/
theorem onRead_heard
    (J : JsonLib) {input : Input} (hidle : input.idle = .again)
    (hok : onRead (WsHub.callbacks J) w x input = .ok w') {bs : Bytes}
    (hbs : (w.wss x).readBuf.readable ++ input.pending = bs) :
    heard x w'.trace = heard x w.trace ++ textPayloads (frameRun bs.length bs).frames ∧
      ((frameRun bs.length bs).ending ≠ .waits → (w'.wss x).state = .CLOSED) ∧
        (w'.wss x).readBuf.readable = (frameRun bs.length bs).unread := by
  have hstart : heard x w.trace = heard x w.trace ++ textPayloads [] ∧
      (w.wss x).state = (w.wss x).state := ⟨(List.append_nil _).symm, rfl⟩
  obtain ⟨w₁, ⟨hheard, -⟩, hunread, hread⟩ := onRead_frames (heardRule J x w) hstart hidle hbs
  rw [hok] at hread
  cases hend : (frameRun bs.length bs).ending with
  | waits =>
      rw [hend] at hread
      cases hread
      exact ⟨hheard, fun hne => absurd rfl hne, hunread⟩
  | rejects | refuses =>
      rw [hend] at hread
      cases hread
      obtain ⟨hconn, htrace, -⟩ := close_hub J w₁ x
      rw [htrace, hconn]
      exact ⟨hheard, fun _ => rfl, hunread⟩
  | throws =>
      rw [hend] at hread
      cases hread

/-- A readable event of a connection that can go on with what arrives. -/
theorem Decoded.received
    (hdecoded : Decoded x stream stream w) (hactive : (w.wss x).state = .ACTIVE) {input : Input}
    (hidle : input.idle = .again) (hok : onRead (WsHub.callbacks J) w x input = .ok w') :
    Decoded x (stream ++ input.pending) (stream ++ input.pending) w' := by
  obtain ⟨hheard, hclosed, hunread⟩ := onRead_heard J hidle hok rfl
  obtain ⟨-, hsupported, hopen⟩ := hdecoded.opened hactive
  cases hfront : (frameDecoder.drain stream).failed with
  | true =>
      -- nothing that follows is a frame of the stream
      obtain ⟨hfails, hitems⟩ := Decoder.drain_append_of_failed hfront input.pending
      have htexts := hdecoded.texts
      refine ⟨List.prefix_rfl, ?_, ?_, fun _ => ⟨rfl, ?_, ?_⟩⟩
      · rw [hheard, taken, hitems]
        exact htexts.trans (List.prefix_append _ _)
      · rw [hfails, hitems]
        rintro (hcontra | ⟨f, hf, hrefused⟩)
        · cases hcontra
        · rw [hsupported f hf] at hrefused
          cases hrefused
      · rw [hitems]
        exact hsupported
      · rw [hfails]
        intro hcontra
        cases hcontra
  | false =>
      obtain ⟨hfirst, hrest⟩ := hopen hfront
      have hw : Reading x stream w := ⟨hactive, hrest, hfront, hsupported⟩
      have hdrain := hw.drain_received input.pending
      rw [hfirst] at hheard
      rcases frameRun_taken (Nat.le_refl ((w.wss x).readBuf.readable ++ input.pending).length)
        with ⟨f, hend, hframes, g, hg, hrefused⟩ | ⟨hall, hmore⟩
      · -- the connection has closed itself
        have htaken := hw.taken_received hg hrefused []
        rw [List.append_nil] at htaken
        have heq : heard x w'.trace = textPayloads (taken (stream ++ input.pending)) := by
          rw [hheard, hframes, htaken, textPayloads_append]
        refine ⟨List.prefix_rfl, heq ▸ List.prefix_rfl, fun _ => heq, ?_⟩
        have hended : (w'.wss x).state = .CLOSED := by
          apply hclosed
          rw [hend]
          intro hwaits
          cases hwaits
        intro hopen'
        rw [hended] at hopen'
        cases hopen'
      · have hgo : ∀ f ∈ (frameDecoder.drain (stream ++ input.pending)).items,
            goesOn f = true := by
          rw [hdrain]
          exact List.forall_mem_append.mpr ⟨hsupported, hall⟩
        have htaken : taken (stream ++ input.pending) =
            (frameDecoder.drain (stream ++ input.pending)).items :=
          List.takeWhile_eq_self_iff.mpr hgo
        have htexts : textPayloads (frameDecoder.drain (stream ++ input.pending)).items <+:
            heard x w'.trace := by
          obtain ⟨extra, hextra⟩ := hmore
          rw [hheard, hdrain, ← hextra, textPayloads_append, textPayloads_append,
            ← List.append_assoc]
          exact List.prefix_append _ _
        have hwhole (hfailed : (frameDecoder.drain (stream ++ input.pending)).failed = false) :
            heard x w'.trace =
                textPayloads (frameDecoder.drain (stream ++ input.pending)).items ∧
              (w'.wss x).readBuf.readable =
                (frameDecoder.drain (stream ++ input.pending)).unread := by
          rw [hdrain] at hfailed
          rw [frameRun_of_drain (Nat.le_refl _) hfailed hall] at hheard hunread
          rw [hdrain, hheard, hunread, textPayloads_append]
          exact ⟨rfl, rfl⟩
        refine ⟨List.prefix_rfl, ?_, ?_, fun _ => ⟨rfl, hgo, hwhole⟩⟩
        · rw [htaken]
          exact htexts
        · rintro (hfailed | ⟨f, hf, hrefused⟩)
          · rw [htaken]
            exact (hwhole hfailed).1
          · rw [hgo f hf] at hrefused
            cases hrefused

/-- A readable event of a connection that is open. -/
theorem Decoded.read
    (hdecoded : Decoded x stream front w) (hactive : (w.wss x).state = .ACTIVE) {input : Input}
    (hok : onRead (WsHub.callbacks J) w x input = .ok w') :
    Decoded x (stream ++ input.pending)
      (front ++ if input.idle = .again then input.pending else []) w' := by
  split
  · next hidle =>
      obtain rfl := (hdecoded.opened hactive).1
      exact hdecoded.received hactive hidle hok
  · next hidle =>
      obtain ⟨readBuf, hclose⟩ := onRead_hangup (WsHub.callbacks J) w x hidle
      rw [hclose, Except.ok.injEq] at hok
      rw [← hok, List.append_nil]
      obtain ⟨hconn, htrace, -⟩ := close_hub J (w.setWs x { w.wss x with readBuf := readBuf }) x
      refine hdecoded.closed ?_ ?_ input.pending
      · rw [htrace]
        rfl
      · rw [hconn]

/-- Sending does not matter. -/
theorem Decoded.write
    (hdecoded : Decoded x stream front w) (sends : List SendResult) :
    Decoded x stream front (onWrite (WsHub.callbacks J) x w sends) := by
  refine onWrite_keeps (I := Decoded x stream front) ?_ ?_ ?_ hdecoded sends
  · intro w₁ n hdecoded
    have hconn : (wrote w₁ x n).wss x =
        { w₁.wss x with writeBuf := (w₁.wss x).writeBuf.consume n } :=
      Function.update_self _ _ _
    have htrace : heard x (wrote w₁ x n).trace = heard x w₁.trace := by
      simp [wrote, World.setWs, World.note, heard]
    exact hdecoded.same htrace (by rw [hconn]) (by rw [hconn])
  · intro w₁ hdecoded
    obtain ⟨hconn, htrace, -⟩ := close_hub J w₁ x
    have hclosed : Decoded x (stream ++ []) front (close (WsHub.callbacks J) w₁ x) :=
      hdecoded.closed (by rw [htrace]) (by rw [hconn]) []
    rwa [List.append_nil] at hclosed
  · intro w₁ _ hdecoded
    have hconn : ((w₁.modifyFd (w₁.wss x).fd EPOLLIN).setWs x
        { w₁.wss x with writing := false }).wss x = { w₁.wss x with writing := false } :=
      Function.update_self _ _ _
    exact hdecoded.same rfl (by rw [hconn]) (by rw [hconn])

/-- An event of the connection. -/
theorem Decoded.event
    {cfg : Config} (hdecoded : Decoded x stream front w) (hactive : (w.wss x).state = .ACTIVE)
    {fd : Fd} {events : Ready} {input : Input} {sends : List SendResult}
    (ht : w.reactor.contexts fd = some (.ws x))
    (hok : handleEvent cfg w fd events input sends = .ok w') :
    Decoded x (stream ++ bytesFor (.ws x) (arrivals w (.ready fd events input sends)))
      (front ++ decodedFor (.ws x) (arrivals w (.ready fd events input sends))) w' := by
  obtain ⟨w₁, hfirst, hsecond⟩ := handleEvent_cases ht hok
  have hdecoded₁ : Decoded x
      (stream ++ bytesFor (.ws x) (arrivals w (.ready fd events input sends)))
      (front ++ decodedFor (.ws x) (arrivals w (.ready fd events input sends))) w₁ := by
    rw [arrivals_registered ht]
    split at hfirst
    · next hreads =>
        rw [if_pos hreads]
        simpa [bytesFor, decodedFor] using hdecoded.read hactive hfirst
    · next hreads =>
        cases hfirst
        rw [if_neg hreads]
        simpa [bytesFor, decodedFor] using hdecoded
  rcases hsecond with rfl | ⟨-, -, hsecond⟩
  · exact hdecoded₁
  · cases hsecond
    exact hdecoded₁.write sends

end Decoding

section Steps

variable {cfg : Config} {request : Bytes} {h : HttpId} {socket : SocketId}
  {received : List Arrival} {w w' : World} {req : HttpRequest}

/-- The connection still holds the socket after an event of another connection. -/
theorem Holding.elsewhere
    (hh : Holding h socket received w) (ho : Orderly w) (ho' : Orderly w') {fd : Fd} {t : Target}
    (ht : w.reactor.contexts fd = some t) (hne : t ≠ .http h) (haside : Aside t w w')
    (events : Ready) (input : Input) (sends : List SendResult) :
    Holding h socket (received ++ arrivals w (.ready fd events input sends)) w' := by
  obtain ⟨hfd, hallocated, -, -⟩ := ho.registered ht
  have hother : w.sockets (w.fdOf t) ≠ socket := by
    rw [hfd]
    exact fun hsocket => hne ((hh.owns fd t ht).mp hsocket)
  have hhttps := haside.https h hne
  have hnew (x : WsId) (hx : w'.wsAllocated ≤ x) : t ≠ .ws x := by
    rintro rfl
    exact Nat.lt_irrefl _ (lt_of_lt_of_le hallocated (haside.wsAllocated.trans hx))
  refine ⟨?_, ?_, ?_, ?_, ?_, ?_, ?_, ?_⟩
  · have hregistered := hh.registered
    rw [hhttps, haside.contexts, hregistered]
    rw [hfd]
    rintro rfl
    rw [ht, Option.some.injEq] at hregistered
    exact hne hregistered
  · exact fun fd' hregistered => (ho'.registered hregistered).1.symm
  · exact fun fd' x hregistered => (ho'.registered hregistered).2.1
  · rw [hhttps]
    exact hh.active
  · exact haside.owns hh.owns (ho.registered hh.registered).2.1 (.inl hother)
  · exact fun x u hmem => hh.unadopted x u (haside.adopted (.inl hother) hmem)
  · intro x hx
    rw [haside.heard (hnew x hx)]
    exact hh.silent x (haside.wsAllocated.trans hx)
  · intro x hx
    rw [bytesFor_append, bytesFor_arrivals_other ht (hnew x hx),
      hh.unreceived x (haside.wsAllocated.trans hx)]
    rfl

/-- The socket of a WebSocket connection in an event. -/
theorem Stage.handed_event
    {x : WsId} (howns : Owns w socket (.ws x)) (hallocated : x < w.wsAllocated)
    (hgone : ∀ fd, w.reactor.contexts fd ≠ some (.http h))
    (hclosed : (w.https h).state = .CLOSED) (hanswered : ∃ resp, responsesTo h w.trace = [resp])
    (hadopted : ∀ x' u, .adopt socket x' u ∈ w.trace → x' = x)
    (hbehind : bytesOn socket received = request ++ bytesFor (.ws x) received)
    (hdecoded : Decoded x (bytesFor (.ws x) received) (decodedFor (.ws x) received) w)
    (ho : Orderly w) {fd : Fd} {t : Target} (ht : w.reactor.contexts fd = some t)
    {events : Ready} {input : Input} {sends : List SendResult}
    (hok : handleEvent cfg w fd events input sends = .ok w') :
    Stage cfg request h socket (received ++ arrivals w (.ready fd events input sends)) w' := by
  have haside := handleEvent_aside ht hok
  have hne : t ≠ .http h := by
    rintro rfl
    exact hgone fd ht
  have hother : w.sockets (w.fdOf t) ≠ socket ∨ ∀ h', t ≠ .http h' := by
    rw [(ho.registered ht).1]
    by_cases hself : t = .ws x
    · exact .inr fun h' heq => by cases hself.symm.trans heq
    · exact .inl fun hsocket => hself ((howns fd t ht).mp hsocket)
  refine .handed x (haside.owns howns hallocated hother)
    (hallocated.trans_le haside.wsAllocated) ?_ ?_ ?_ ?_ ?_ ?_
  · exact fun fd' hregistered => hgone fd' (haside.registered_http hregistered)
  · rw [haside.https h hne, hclosed]
  · rwa [haside.responsesTo hne]
  · exact fun x' u hmem => hadopted x' u (haside.adopted hother hmem)
  · rw [bytesOn_append, bytesFor_append, hbehind, howns.bytesFor_arrivals, List.append_assoc]
  · rw [bytesFor_append, decodedFor_append]
    by_cases hself : t = .ws x
    · subst hself
      exact hdecoded.event (ho.active fd x ht) ht hok
    · obtain ⟨hread, hstate⟩ := haside.wss x hself hallocated
      have hnone : bytesFor (.ws x) (arrivals w (.ready fd events input sends)) = [] :=
        bytesFor_arrivals_other ht hself
      rw [hnone, decodedFor_eq_nil hnone, List.append_nil, List.append_nil]
      exact hdecoded.same (haside.heard hself) hread hstate

/-- An event of the HTTP connection. -/
theorem Stage.own_event
    (hstage : Stage cfg request h socket received w) (howns : Owns w socket (.http h)) {fd : Fd}
    (ht : w.reactor.contexts fd = some (.http h))
    (hrequest : requestDecoder.decode request = .done request.length req)
    (hupgrade : HttpServer.isUpgrade req = true) {events : Ready} {input : Input}
    {sends : List SendResult}
    (hkeeps : KeepsStream request h w (.ready fd events input sends))
    (hcomparable :
      bytesOn socket (received ++ arrivals w (.ready fd events input sends)) <+: request ∨
        request <+: bytesOn socket (received ++ arrivals w (.ready fd events input sends)))
    (hok : handleEvent cfg w fd events input sends = .ok w') :
    Stage cfg request h socket (received ++ arrivals w (.ready fd events input sends)) w' := by
  have hsocket := (howns fd _ ht).mpr rfl
  rw [arrivals_registered ht] at hcomparable ⊢
  have hnew (x : WsId) :
      bytesFor (.ws x)
          (received ++ [Arrival.mk (w.sockets fd) (.http h) input.pending input.idle]) =
        bytesFor (.ws x) received := by
    simp [bytesFor]
  have hon : bytesOn socket
      (received ++ [Arrival.mk (w.sockets fd) (.http h) input.pending input.idle]) =
        bytesOn socket received ++ input.pending := by
    simp [bytesOn, hsocket]
  obtain ⟨w₁, hfirst, hsecond⟩ := handleEvent_cases ht hok
  have hstage₁ : Stage cfg request h socket
      (received ++ if events.failure || events.input then
        [{ socket := w.sockets fd, target := .http h, bytes := input.pending, idle := input.idle }]
      else
        []) w₁ := by
    split at hfirst
    · next hreads =>
        rw [if_pos hreads] at hcomparable ⊢
        rw [Bool.or_eq_true] at hreads
        exact hstage.read ht hrequest hupgrade (hkeeps ht hreads) hon hcomparable hnew hfirst
    · next hreads =>
        cases hfirst
        rw [if_neg hreads, List.append_nil]
        exact hstage
  rcases hsecond with rfl | ⟨-, -, hsecond⟩
  · exact hstage₁
  · exact hstage₁.write hsecond

/-- What arrives for a connection that does not own the socket. -/
theorem Owns.bytesOn_arrivals_other
    {owner : Target} (howns : Owns w socket owner) {fd : Fd} {t : Target}
    (ht : w.reactor.contexts fd = some t) (hne : t ≠ owner) (events : Ready) (input : Input)
    (sends : List SendResult) :
    bytesOn socket (arrivals w (.ready fd events input sends)) = [] := by
  rw [← howns.bytesFor_arrivals, bytesFor_arrivals_other ht hne]

/-- Any event of a descriptor. -/
theorem Stage.event
    (hstage : Stage cfg request h socket received w) (ho : Orderly w) (ho' : Orderly w')
    (hrequest : requestDecoder.decode request = .done request.length req)
    (hupgrade : HttpServer.isUpgrade req = true) {fd : Fd} {events : Ready} {input : Input}
    {sends : List SendResult}
    (hkeeps : KeepsStream request h w (.ready fd events input sends))
    (hcomparable :
      bytesOn socket (received ++ arrivals w (.ready fd events input sends)) <+: request ∨
        request <+: bytesOn socket (received ++ arrivals w (.ready fd events input sends)))
    (hok : handleEvent cfg w fd events input sends = .ok w') :
    Stage cfg request h socket (received ++ arrivals w (.ready fd events input sends)) w' := by
  cases ht : w.reactor.contexts fd with
  | none =>
      rw [handleEvent, ht] at hok
      cases hok
      rw [arrivals_unregistered ht, List.append_nil]
      exact hstage
  | some t =>
      have haside := handleEvent_aside ht hok
      cases hstage with
      | reading holding waits unread short unanswered =>
          by_cases hself : t = .http h
          · subst hself
            exact (Stage.reading holding waits unread short unanswered).own_event holding.owns ht
              hrequest hupgrade hkeeps hcomparable hok
          · have hnothing :=
              holding.owns.bytesOn_arrivals_other ht hself events input sends
            have hheld := holding.elsewhere ho ho' ht hself haside events input sends
            refine .reading hheld ?_ ?_ ?_ ?_
            · rw [haside.https h hself, waits]
            · rw [haside.https h hself, bytesOn_append, hnothing, List.append_nil, unread]
            · rwa [bytesOn_append, hnothing, List.append_nil]
            · rw [haside.responsesTo hself, unanswered]
      | waiting holding configured upgraded unread complete answered =>
          by_cases hself : t = .http h
          · subst hself
            exact (Stage.waiting holding configured upgraded unread complete answered).own_event
              holding.owns ht hrequest hupgrade hkeeps hcomparable hok
          · have hnothing :=
              holding.owns.bytesOn_arrivals_other ht hself events input sends
            have hheld := holding.elsewhere ho ho' ht hself haside events input sends
            refine .waiting hheld configured ?_ ?_ ?_ ?_
            · rw [haside.https h hself, upgraded]
            · rw [haside.https h hself, unread]
            · rw [bytesOn_append, hnothing, List.append_nil, complete]
            · rwa [haside.responsesTo hself]
      | handed x owns allocated gone closed answered adopted behind decoded =>
          exact Stage.handed_event owns allocated gone closed answered adopted behind decoded ho
            ht hok
      | ended gone closed unanswered =>
          have hne : t ≠ .http h := by
            rintro rfl
            exact gone fd ht
          refine .ended ?_ ?_ ?_
          · exact fun fd' hregistered => gone fd' (haside.registered_http hregistered)
          · rw [haside.https h hne, closed]
          · rw [haside.responsesTo hne, unanswered]
      | refused resp rest answered status =>
          obtain ⟨more, htrace, -⟩ := haside.history
          exact .refused_append answered status _ ⟨more, htrace⟩

/-- A new connection leaves the owner of another socket alone. -/
theorem Accepted.owns
    {fd : Fd} (hacc : Accepted fd w w') (hs : socket < w.nextSocket) {t : Target}
    (howns : Owns w socket t) (hne : t ≠ .http w.httpAllocated) :
    Owns w' socket t := by
  intro fd' t' hregistered
  rw [hacc.contexts] at hregistered
  rw [hacc.sockets]
  by_cases hfd : fd' = fd
  · rw [hfd, Function.update_self, Option.some.injEq] at hregistered
    rw [hfd, Function.update_self, ← hregistered]
    exact iff_of_false hs.ne' (Ne.symm hne)
  · rw [Function.update_of_ne hfd] at hregistered ⊢
    exact howns fd' t' hregistered

theorem Accepted.gone
    {fd : Fd} (hacc : Accepted fd w w') (hh : h < w.httpAllocated)
    (hgone : ∀ fd, w.reactor.contexts fd ≠ some (.http h)) (fd' : Fd) :
    w'.reactor.contexts fd' ≠ some (.http h) := by
  rw [hacc.contexts]
  by_cases hfd : fd' = fd
  · rw [hfd, Function.update_self]
    intro heq
    rw [Option.some.injEq, Target.http.injEq] at heq
    exact hh.ne' heq
  · rw [Function.update_of_ne hfd]
    exact hgone fd'

theorem Holding.accept
    (hold : Holding h socket received w) (ho : Orderly w) (ho' : Orderly w')
    (hh : h < w.httpAllocated) (hs : socket < w.nextSocket) {fd : Fd}
    (hclosed : w.openFds fd = false) (hacc : Accepted fd w w') :
    Holding h socket received w' := by
  have hregistered := hold.registered
  have hother : (w.https h).fd ≠ fd := by
    rintro hfd
    rw [hfd] at hregistered
    rw [(ho.registered hregistered).2.2.1] at hclosed
    cases hclosed
  refine ⟨?_, ?_, ?_, ?_, ?_, ?_, ?_, ?_⟩
  · rw [hacc.https_of_lt hh, hacc.contexts, Function.update_of_ne hother, hregistered]
  · exact fun fd' hregistered => (ho'.registered hregistered).1.symm
  · exact fun fd' x hregistered => (ho'.registered hregistered).2.1
  · rw [hacc.https_of_lt hh]
    exact hold.active
  · refine hacc.owns hs hold.owns ?_
    rw [ne_eq, Target.http.injEq]
    exact hh.ne
  · rw [hacc.trace]
    exact hold.unadopted
  · rw [hacc.trace, hacc.wsAllocated]
    exact hold.silent
  · rw [hacc.wsAllocated]
    exact hold.unreceived

/-- A new connection. -/
theorem Stage.accept
    (hstage : Stage cfg request h socket received w) (ho : Orderly w) (ho' : Orderly w')
    (hh : h < w.httpAllocated) (hs : socket < w.nextSocket) {fd : Fd}
    (hclosed : w.openFds fd = false) (hacc : Accepted fd w w') :
    Stage cfg request h socket received w' := by
  have hconn := hacc.https_of_lt hh
  cases hstage with
  | reading holding waits unread short unanswered =>
      refine .reading (holding.accept ho ho' hh hs hclosed hacc) ?_ ?_ short ?_
      · rw [hconn, waits]
      · rw [hconn, unread]
      · rw [hacc.trace, unanswered]
  | waiting holding configured upgraded unread complete answered =>
      refine .waiting (holding.accept ho ho' hh hs hclosed hacc) configured ?_ ?_ complete ?_
      · rw [hconn, upgraded]
      · rw [hconn, unread]
      · rwa [hacc.trace]
  | handed x owns allocated gone closed answered adopted behind decoded =>
      refine .handed x (hacc.owns hs owns (by simp)) ?_ (hacc.gone hh gone) ?_ ?_ ?_ behind ?_
      · rwa [hacc.wsAllocated]
      · rw [hconn, closed]
      · rwa [hacc.trace]
      · rwa [hacc.trace]
      · exact decoded.same (by rw [hacc.trace]) (by rw [hacc.wss]) (by rw [hacc.wss])
  | ended gone closed unanswered =>
      refine .ended (hacc.gone hh gone) ?_ ?_
      · rw [hconn, closed]
      · rw [hacc.trace, unanswered]
  | refused resp rest answered status =>
      exact .refused_append answered status received ⟨[], by rw [hacc.trace, List.append_nil]⟩

/-- What is known about a socket and its connections. -/
structure Follows (cfg : Config) (request : Bytes) (h : HttpId) (socket : SocketId)
    (received : List Arrival) (w : World) : Prop where
  orderly : Orderly w
  allocated : h < w.httpAllocated
  accepted : socket < w.nextSocket
  stage : bytesOn socket received <+: request ∨ request <+: bytesOn socket received →
    Stage cfg request h socket received w

/-- A step that brings the connection nothing behind the request. -/
theorem Follows.step
    (hf : Follows cfg request h socket received w)
    (hrequest : requestDecoder.decode request = .done request.length req)
    (hupgrade : HttpServer.isUpgrade req = true) {e : Event} (hkeeps : KeepsStream request h w e)
    (hok : step cfg w e = .ok w') :
    Follows cfg request h socket (received ++ arrivals w e) w' := by
  have ho' := hf.orderly.step hok
  obtain ⟨hnext, hhttp, -⟩ := step_grows hok
  refine ⟨ho', hf.allocated.trans_le hhttp, hf.accepted.trans_le hnext, ?_⟩
  intro hcomparable
  have hfront : bytesOn socket received <+: bytesOn socket (received ++ arrivals w e) := by
    rw [bytesOn_append]
    exact List.prefix_append _ _
  have hbefore : bytesOn socket received <+: request ∨ request <+: bytesOn socket received := by
    rcases hcomparable with hcomparable | hcomparable
    · exact .inl (hfront.trans hcomparable)
    · exact List.prefix_or_prefix_of_prefix hfront hcomparable
  have hstage := hf.stage hbefore
  cases e with
  | accept fd =>
      rw [show arrivals w (.accept fd) = [] from rfl, List.append_nil]
      rw [Web.step] at hok
      split at hok
      · cases hok
        exact hstage
      · next hclosed =>
          exact hstage.accept hf.orderly ho' hf.allocated hf.accepted
            (Bool.eq_false_iff.mpr hclosed) (onAccept_accepted hok)
  | ready fd events input sends =>
      exact hstage.event hf.orderly ho' hrequest hupgrade hkeeps hcomparable hok
  | clock now =>
      cases hok
      have hstill : Still h w { w with now := now } := .of_tables rfl rfl rfl rfl rfl rfl
      rw [show arrivals w (.clock now) = [] from rfl, List.append_nil]
      exact hstill.stage hstage
  | files files =>
      cases hok
      have hstill : Still h w { w with files := files } := .of_tables rfl rfl rfl rfl rfl rfl
      rw [show arrivals w (.files files) = [] from rfl, List.append_nil]
      exact hstill.stage hstage

/-- A connection that does not exist has answered nothing. -/
theorem Orderly.responsesTo_fresh
    (ho : Orderly w) (hh : w.httpAllocated ≤ h) :
    responsesTo h w.trace = [] := by
  rw [responsesTo, List.filterMap_eq_nil_iff]
  intro o hmem
  have hknown := ho.known o hmem
  cases o with
  | response h' resp =>
      exact if_neg (lt_of_lt_of_le hknown hh).ne
  | login | logout | message | upgrade | adopt | wrote | text =>
      rfl

/-- A connection that does not exist has handed nothing over. -/
theorem Orderly.heard_fresh
    (ho : Orderly w) {x : WsId} (hx : w.wsAllocated ≤ x) :
    heard x w.trace = [] := by
  rw [heard, List.filterMap_eq_nil_iff]
  intro o hmem
  have hknown := ho.known o hmem
  cases o with
  | text y payload =>
      exact if_neg (lt_of_lt_of_le hknown hx).ne
  | login | logout | message | upgrade | adopt | wrote | response =>
      rfl

/-- A new socket belongs to the new connection. -/
theorem Accepted.owns_new
    {fd : Fd} (hacc : Accepted fd w w') (ho : Orderly w) :
    Owns w' w.nextSocket (.http w.httpAllocated) := by
  intro fd' t hregistered
  rw [hacc.contexts] at hregistered
  rw [hacc.sockets]
  by_cases hfd : fd' = fd
  · rw [hfd, Function.update_self, Option.some.injEq] at hregistered
    rw [hfd, Function.update_self]
    exact iff_of_true rfl hregistered.symm
  · rw [Function.update_of_ne hfd] at hregistered ⊢
    obtain ⟨-, hallocated, -, hsocket⟩ := ho.registered hregistered
    refine iff_of_false hsocket.ne ?_
    rintro rfl
    exact Nat.lt_irrefl _ hallocated

/-- A new connection waits for its first request. -/
theorem follows_accept
    (ho : Orderly w) (hrequest : 0 < request.length) {fd : Fd} (hclosed : w.openFds fd = false)
    (hok : step cfg w (.accept fd) = .ok w') :
    Follows cfg request w.httpAllocated w.nextSocket [] w' := by
  have ho' := ho.step hok
  rw [Web.step, if_neg (by simp [hclosed])] at hok
  have hacc := onAccept_accepted hok
  have hconn : w'.https w.httpAllocated = HttpConnection.new fd := by
    rw [hacc.https, Function.update_self]
  have hunanswered : responsesTo w.httpAllocated w'.trace = [] := by
    rw [hacc.trace, ho.responsesTo_fresh le_rfl]
  have hholding : Holding w.httpAllocated w.nextSocket [] w' := by
    refine ⟨?_, ?_, ?_, ?_, hacc.owns_new ho, ?_, fun x => ho'.heard_fresh, fun _ _ => rfl⟩
    · rw [hconn, hacc.contexts]
      exact Function.update_self _ _ _
    · exact fun fd' hregistered => (ho'.registered hregistered).1.symm
    · exact fun fd' x hregistered => (ho'.registered hregistered).2.1
    · rw [hconn]
      simp [HttpConnection.new]
    · intro x u hmem
      rw [hacc.trace] at hmem
      exact Nat.lt_irrefl _ (ho.known _ hmem)
  refine ⟨ho', ?_, ?_, fun _ => .reading hholding ?_ ?_ hrequest hunanswered⟩
  · rw [hacc.httpAllocated]
    exact Nat.lt_succ_self _
  · rw [hacc.nextSocket]
    exact Nat.lt_succ_self _
  · rw [hconn]
    rfl
  · rw [hconn]
    rfl

end Steps

section Streams

variable {cfg : Config} {w₀ w : World} {request : Bytes} {req : HttpRequest}

/-- A client sends an upgrade request, which is accepted, and any bytes behind it.  If no
event brings the HTTP connection bytes behind the request, the request is the only one
that is answered, and the WebSocket connection receives and decodes the bytes behind it. -/
theorem upgrade_stream_handed_over
    {front events : List Event} {fd : Fd} (hfront : runServer cfg front = .ok w₀)
    (hclosed : w₀.openFds fd = false)
    (hrequest : requestDecoder.decode request = .done request.length req)
    (hupgrade : HttpServer.isUpgrade req = true)
    (hkeeps : Meets (KeepsStream request w₀.httpAllocated) (step cfg) w₀ (.accept fd :: events))
    (hrun : run (step cfg) w₀ (.accept fd :: events) = .ok w)
    (hstream : request <+:
      bytesOn w₀.nextSocket (outputs arrivals (step cfg) w₀ (.accept fd :: events)))
    (haccepted : (responsesTo w₀.httpAllocated w.trace).head?.map (·.statusCode) = some 101) :
    HandedOver request w₀.httpAllocated w₀.nextSocket
      (outputs arrivals (step cfg) w₀ (.accept fd :: events)) w := by
  obtain ⟨w₁, hstep, hrest⟩ := run_cons.mp hrun
  have hout : outputs arrivals (step cfg) w₀ (.accept fd :: events) =
      [] ++ outputs arrivals (step cfg) w₁ events := by
    rw [outputs, hstep]
    rfl
  rw [hout] at hstream ⊢
  have hstart := follows_accept (orderly_runServer hfront) (requestVerdict_bounds hrequest).1
    hclosed hstep
  have hfollows := outputs_invariant_of_meets
    (I := Follows cfg request w₀.httpAllocated w₀.nextSocket)
    (fun past s e s' hf hkeeps hok => Follows.step hf hrequest hupgrade hkeeps hok)
    hstart (hkeeps.2 w₁ hstep) hrest
  cases hfollows.stage (.inr hstream) with
  | reading holding waits unread short unanswered =>
      rw [unanswered] at haccepted
      cases haccepted
  | waiting holding configured upgraded unread complete answered =>
      exact ⟨answered, fun x u hmem => absurd hmem (holding.unadopted x u)⟩
  | handed x owns allocated gone closed answered adopted behind decoded =>
      refine ⟨answered, ?_⟩
      intro x' u hmem
      obtain rfl := adopted x' u hmem
      exact ⟨behind, decoded⟩
  | ended gone closed unanswered =>
      rw [unanswered] at haccepted
      cases haccepted
  | refused resp rest answered status =>
      rw [answered] at haccepted
      exact absurd (Option.some.inj haccepted) status

instance (request : Bytes) (h : HttpId) (w : World) :
    ∀ e, Decidable (KeepsStream request h w e)
  | .ready fd events input _ =>
      inferInstanceAs (Decidable (w.reactor.contexts fd = some (.http h) →
        events.failure = true ∨ events.input = true →
          if (w.https h).upgraded then
            input.pending = []
          else
            (w.https h).readBuf.readableBytes + input.pending.length ≤ request.length))
  | .accept _ => .isTrue trivial
  | .clock _ => .isTrue trivial
  | .files _ => .isTrue trivial

/-- Some bytes are an upgrade request and nothing else. -/
def isUpgradeRequest (bs : Bytes) : Bool :=
  match requestVerdict bs with
  | .done n req => n = bs.length && HttpServer.isUpgrade req
  | _ => false

theorem exists_of_isUpgradeRequest
    (bs : Bytes) (h : isUpgradeRequest bs = true) :
    ∃ req, requestDecoder.decode bs = .done bs.length req ∧ HttpServer.isUpgrade req = true := by
  unfold isUpgradeRequest at h
  cases hverdict : requestVerdict bs with
  | done n req =>
      rw [hverdict] at h
      simp only [Bool.and_eq_true, decide_eq_true_eq] at h
      obtain ⟨rfl, hup⟩ := h
      exact ⟨req, hverdict, hup⟩
  | wait =>
      rw [hverdict] at h
      cases h
  | malformed =>
      rw [hverdict] at h
      cases h

/-- A client waits for the 101 response before it says something. -/
def patientRun : List Event :=
  [.accept 6, arrive 6 upgradeRequest, writable 6, arrive 6 (clientText chatBody)]

/-- A client sends its first frame together with the upgrade request. -/
def hastyRun : List Event :=
  [.accept 6, arrive 6 (upgradeRequest ++ clientText chatBody), writable 6]

/-- The premises on a run behind the login of a client, and another test. -/
def upgradeTest (events : List Event) (test : World → List Arrival → World → Bool) : Bool :=
  (runServer sampleConfig loginRun).toOption.any fun w₀ =>
    w₀.openFds 6 = false &&
      (run (step sampleConfig) w₀ events).toOption.any fun w =>
        (responsesTo w₀.httpAllocated w.trace).head?.map (·.statusCode) = some 101 &&
          upgradeRequest.isPrefixOf
              (bytesOn w₀.nextSocket (outputs arrivals (step sampleConfig) w₀ events)) &&
            test w₀ (outputs arrivals (step sampleConfig) w₀ events) w

theorem exists_of_upgradeTest
    {events : List Event} {test : World → List Arrival → World → Bool}
    (h : upgradeTest events test = true) :
    ∃ w₀ w, runServer sampleConfig loginRun = .ok w₀ ∧ w₀.openFds 6 = false ∧
      run (step sampleConfig) w₀ events = .ok w ∧
        (responsesTo w₀.httpAllocated w.trace).head?.map (·.statusCode) = some 101 ∧
          upgradeRequest <+:
              bytesOn w₀.nextSocket (outputs arrivals (step sampleConfig) w₀ events) ∧
            test w₀ (outputs arrivals (step sampleConfig) w₀ events) w = true := by
  obtain ⟨w₀, hfront, h⟩ := exists_ok_of_any _ _ h
  rw [Bool.and_eq_true, decide_eq_true_eq] at h
  obtain ⟨w, hrun, hw⟩ := exists_ok_of_any _ _ h.2
  rw [Bool.and_eq_true, Bool.and_eq_true, decide_eq_true_eq, List.isPrefixOf_iff_prefix] at hw
  exact ⟨w₀, w, hfront, h.1, hrun, hw.1.1, hw.1.2, hw.2⟩

/-- A socket has been handed over to a connection. -/
def adoptedOn (socket : SocketId) (x : WsId) (history : List Obs) : Bool :=
  history.any fun
    | .adopt s y _ => s = socket && y = x
    | _ => false

theorem exists_of_adoptedOn
    {socket : SocketId} {x : WsId} {history : List Obs} (h : adoptedOn socket x history = true) :
    ∃ u, .adopt socket x u ∈ history := by
  obtain ⟨o, hmem, ho⟩ := List.any_eq_true.mp h
  cases o with
  | adopt s y u =>
      rw [Bool.and_eq_true, decide_eq_true_eq, decide_eq_true_eq] at ho
      obtain ⟨rfl, rfl⟩ := ho
      exact ⟨u, hmem⟩
  | login | logout | message | upgrade | response | text | wrote =>
      cases ho

theorem upgrade_stream_handed_over_patientRun :
    ∃ w₀ w, runServer sampleConfig loginRun = .ok w₀ ∧
      run (step sampleConfig) w₀ patientRun = .ok w ∧
        (∃ u, .adopt w₀.nextSocket 0 u ∈ w.trace) ∧
          HandedOver upgradeRequest w₀.httpAllocated w₀.nextSocket
            (outputs arrivals (step sampleConfig) w₀ patientRun) w := by
  have htest : upgradeTest patientRun (fun w₀ _ w =>
      meetsTest (fun w e => decide (KeepsStream upgradeRequest w₀.httpAllocated w e))
          (step sampleConfig) w₀ patientRun &&
        adoptedOn w₀.nextSocket 0 w.trace) = true := by
    decide +kernel
  obtain ⟨w₀, w, hfront, hclosed, hrun, haccepted, hstream, hrest⟩ := exists_of_upgradeTest htest
  obtain ⟨req, hrequest, hupgrade⟩ :=
    exists_of_isUpgradeRequest upgradeRequest (by decide +kernel)
  rw [Bool.and_eq_true] at hrest
  have hkeeps : Meets (KeepsStream upgradeRequest w₀.httpAllocated) (step sampleConfig) w₀
      patientRun :=
    meets_of_test (fun _ _ => of_decide_eq_true) hrest.1
  exact ⟨w₀, w, hfront, hrun, exists_of_adoptedOn hrest.2,
    upgrade_stream_handed_over hfront hclosed hrequest hupgrade hkeeps hrun hstream haccepted⟩

/-- The first frame is lost: it has arrived, but not for the WebSocket connection. -/
theorem hastyRun_loses_frame :
    ∃ w₀ w req, runServer sampleConfig loginRun = .ok w₀ ∧
      requestDecoder.decode upgradeRequest = .done upgradeRequest.length req ∧
        HttpServer.isUpgrade req = true ∧ run (step sampleConfig) w₀ hastyRun = .ok w ∧
          upgradeRequest <+:
              bytesOn w₀.nextSocket (outputs arrivals (step sampleConfig) w₀ hastyRun) ∧
            (responsesTo w₀.httpAllocated w.trace).head?.map (·.statusCode) = some 101 ∧
              ¬ HandedOver upgradeRequest w₀.httpAllocated w₀.nextSocket
                (outputs arrivals (step sampleConfig) w₀ hastyRun) w := by
  have htest : upgradeTest hastyRun (fun w₀ received w =>
      adoptedOn w₀.nextSocket 0 w.trace &&
        decide (bytesOn w₀.nextSocket received ≠
          upgradeRequest ++ bytesFor (.ws 0) received)) = true := by
    decide +kernel
  obtain ⟨w₀, w, hfront, -, hrun, haccepted, hstream, hrest⟩ := exists_of_upgradeTest htest
  obtain ⟨req, hrequest, hupgrade⟩ :=
    exists_of_isUpgradeRequest upgradeRequest (by decide +kernel)
  refine ⟨w₀, w, req, hfront, hrequest, hupgrade, hrun, hstream, haccepted, ?_⟩
  rintro ⟨-, hbehind⟩
  rw [Bool.and_eq_true, decide_eq_true_eq] at hrest
  obtain ⟨u, hmem⟩ := exists_of_adoptedOn hrest.1
  exact hrest.2 (hbehind 0 u hmem).1

end Streams

end Web
end ChatRoom
