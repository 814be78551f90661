import ChatRoom.Web.Locality
import ChatRoom.Web.Responses

/-!
# The hand-over of an upgraded connection

An HTTP connection that has been upgraded hands its descriptor over when it is
closed.  The WebSocket connection must not say anything before the 101 response
has left: whenever a descriptor is adopted, `::send` should have accepted the 101
response and what was answered before it (`AfterHandshake`).

`HttpConnection::close` hands over whatever closes the connection, also when the
peer is gone or `::send` fails while the response is still in the write buffer.
A run in which no upgraded connection is closed like that keeps the order
(`handOver_after_handshake`).
-/

namespace ChatRoom
namespace Web

open Http Socket Runs

/-- `::send` has accepted on the socket what a connection has answered up to a 101
response to an upgrade of the socket, and nothing but answers. -/
def HandshakeSent (past : List Obs) (socket : SocketId) : Prop :=
  ∃ h before tok u resp after, resp.statusCode = 101 ∧
    past = before ++ .upgrade socket tok u :: .response h resp :: after ∧
      answered h (before ++ [.upgrade socket tok u, .response h resp]) <+: sentOn socket past ∧
        sentOn socket past <+: answered h past

/-- A descriptor is adopted when the 101 response has left. -/
def AfterHandshake (past : List Obs) : Obs → Prop
  | .adopt socket _ _ => HandshakeSent past socket
  | _ => True

/-- At least so many bytes have been answered behind a 101 response to an upgrade of
the socket. -/
def QueuedBehind (h : HttpId) (socket : SocketId) (left : Nat) (history : List Obs) : Prop :=
  ∃ before tok u resp after, resp.statusCode = 101 ∧
    history = before ++ .upgrade socket tok u :: .response h resp :: after ∧
      left ≤ (answered h after).length

/-- What is left of so many bytes when `::send` fails; nothing if it does not fail. -/
def leftAtFailure : Nat → List SendResult → Nat
  | 0, _ => 0
  | _ + 1, [] => 0
  | len + 1, .accepts want :: sends =>
      leftAtFailure (len + 1 - sendSize want (len + 1)) sends
  | _ + 1, .again :: _ => 0
  | len + 1, .zero :: _ => len + 1
  | len + 1, .error :: _ => len + 1

/-- If a read finds the peer of an upgraded connection gone, then nothing is left to
send but what was queued behind the 101 response. -/
def ReadKeepsHandshake (w : World) (h : HttpId) (input : Input) : Prop :=
  (w.https h).upgraded = true → input.idle ≠ .again →
    QueuedBehind h (w.sockets (w.https h).fd) (w.https h).writeBuf.readableBytes w.trace

/-- The same when `::send` fails on an upgraded connection. -/
def WriteKeepsHandshake (w : World) (h : HttpId) (sends : List SendResult) : Prop :=
  (w.https h).upgraded = true → 0 < leftAtFailure (w.https h).writeBuf.readableBytes sends →
    QueuedBehind h (w.sockets (w.https h).fd)
      (leftAtFailure (w.https h).writeBuf.readableBytes sends) w.trace

/-- An event does not close an upgraded connection before the 101 response has left. -/
def KeepsHandshake (cfg : Config) (w : World) : Event → Prop
  | .ready fd events input sends =>
      ∀ h, w.reactor.contexts fd = some (.http h) →
        (events.failure = true ∨ events.input = true → ReadKeepsHandshake w h input) ∧
          ∀ w₁,
            (if events.input then readCallback cfg w input (.http h) else .ok w) = .ok w₁ →
              events.failure = false → events.output = true → WriteKeepsHandshake w₁ h sends
  | _ => True

section QueuedBehind

variable {h : HttpId} {socket : SocketId} {left : Nat} {history : List Obs}

theorem QueuedBehind.append
    (hq : QueuedBehind h socket left history) (more : List Obs) :
    QueuedBehind h socket left (history ++ more) := by
  obtain ⟨before, tok, u, resp, after, hstatus, rfl, hleft⟩ := hq
  refine ⟨before, tok, u, resp, after ++ more, hstatus, by simp, ?_⟩
  rw [answered_append, List.length_append]
  omega

/-- If the rest was queued behind the handshake, the handshake has been sent. -/
theorem QueuedBehind.handshakeSent
    {rest : Bytes} (hq : QueuedBehind h socket rest.length history)
    (houtput : sentOn socket history ++ rest = answered h history) :
    HandshakeSent history socket := by
  obtain ⟨before, tok, u, resp, after, hstatus, hhistory, hleft⟩ := hq
  refine ⟨h, before, tok, u, resp, after, hstatus, hhistory, ?_, ⟨rest, houtput⟩⟩
  have hsplit : answered h history =
      answered h (before ++ [.upgrade socket tok u, .response h resp]) ++ answered h after := by
    rw [← answered_append, hhistory, List.append_assoc]
    rfl
  have hlen := congrArg List.length (houtput.trans hsplit)
  rw [List.length_append, List.length_append] at hlen
  have hwhole : answered h (before ++ [.upgrade socket tok u, .response h resp]) <+:
      answered h history := ⟨_, hsplit.symm⟩
  exact List.prefix_of_prefix_length_le hwhole ⟨rest, houtput⟩ (by omega)

end QueuedBehind

section LeftAtFailure

theorem leftAtFailure_fails
    {len : Nat} (hlen : 0 < len) {result : SendResult}
    (hfails : result = .zero ∨ result = .error) (sends : List SendResult) :
    leftAtFailure len (result :: sends) = len := by
  obtain ⟨n, rfl⟩ := Nat.exists_eq_succ_of_ne_zero hlen.ne'
  rcases hfails with rfl | rfl <;> rfl

theorem leftAtFailure_accepts
    {len : Nat} (hlen : 0 < len) (want : Nat) (sends : List SendResult) :
    leftAtFailure len (.accepts want :: sends) =
      leftAtFailure (len - sendSize want len) sends := by
  obtain ⟨n, rfl⟩ := Nat.exists_eq_succ_of_ne_zero hlen.ne'
  rfl

/-- When `::send` has accepted bytes, the same bytes are left at the failure. -/
theorem WriteKeepsHandshake.wrote
    {w : World} {h : HttpId} {want : Nat} {sends : List SendResult}
    (hwrite : WriteKeepsHandshake w h (.accepts want :: sends))
    (hpos : 0 < (w.https h).writeBuf.readableBytes) :
    WriteKeepsHandshake
      (HttpConnection.wrote w h (sendSize want (w.https h).writeBuf.readableBytes)) h sends := by
  generalize hn : sendSize want (w.https h).writeBuf.readableBytes = n
  have hconn : (HttpConnection.wrote w h n).https h =
      { w.https h with writeBuf := (w.https h).writeBuf.consume n } :=
    Function.update_self _ _ _
  unfold WriteKeepsHandshake at hwrite ⊢
  rw [leftAtFailure_accepts hpos, hn] at hwrite
  rw [hconn]
  dsimp only
  rw [Buffer.readableBytes_consume]
  intro hup hleft
  exact (hwrite hup hleft).append _

end LeftAtFailure

/-- What is known about a connection on a socket. -/
structure Handing (h : HttpId) (socket : SocketId) (w : World) : Prop where
  onSocket : w.sockets (w.https h).fd = socket
  output : sentOn socket w.trace ++ (w.https h).writeBuf.readable = answered h w.trace
  upgraded : (w.https h).upgraded = true → QueuedBehind h socket 0 w.trace
  handed : Justified AfterHandshake w.trace

/-- An entry about neither sending nor adopting. -/
def Obs.Quiet : Obs → Prop
  | .response _ _ => False
  | .wrote _ _ => False
  | .adopt _ _ _ => False
  | _ => True

section Handing

variable {cfg : Config} {h : HttpId} {socket : SocketId} {w w' : World}

theorem sentOn_quiet
    (socket : SocketId) {more : List Obs} (hmore : ∀ o ∈ more, o.Quiet) :
    sentOn socket more = [] := by
  rw [sentOn, List.flatMap_eq_nil_iff]
  intro o ho
  have hquiet := hmore o ho
  cases o with
  | wrote =>
      cases hquiet
  | login | logout | message | upgrade | adopt | response | text =>
      rfl

theorem answered_quiet
    (h : HttpId) {more : List Obs} (hmore : ∀ o ∈ more, o.Quiet) :
    answered h more = [] := by
  rw [answered, List.flatMap_eq_nil_iff]
  intro o ho
  have hquiet := hmore o ho
  cases o with
  | response =>
      cases hquiet
  | login | logout | message | upgrade | adopt | wrote | text =>
      rfl

/-- What happens besides sending and adopting. -/
theorem Handing.extend
    (hh : Handing h socket w) (hsockets : w'.sockets = w.sockets)
    (hfd : (w'.https h).fd = (w.https h).fd)
    (hbuf : (w'.https h).writeBuf = (w.https h).writeBuf)
    (hupgraded : (w'.https h).upgraded = (w.https h).upgraded)
    {more : List Obs} (htrace : w'.trace = w.trace ++ more) (hmore : ∀ o ∈ more, o.Quiet) :
    Handing h socket w' where
  onSocket := by rw [hsockets, hfd, hh.onSocket]
  output := by
    rw [htrace, sentOn_append, answered_append, sentOn_quiet _ hmore, answered_quiet _ hmore,
      List.append_nil, List.append_nil, hbuf, hh.output]
  upgraded hup := by
    rw [hupgraded] at hup
    rw [htrace]
    exact (hh.upgraded hup).append more
  handed := by
    rw [htrace]
    refine hh.handed.append ?_
    intro o ho past
    have hquiet := hmore o ho
    cases o with
    | adopt =>
        cases hquiet
    | login | logout | message | upgrade | response | wrote | text =>
        trivial

/-- What neither the connection nor the history sees. -/
theorem Handing.unseen
    (hh : Handing h socket w) (hsockets : w'.sockets = w.sockets) (hhttps : w'.https = w.https)
    (htrace : w'.trace = w.trace) :
    Handing h socket w' where
  onSocket := by rw [hsockets, hhttps, hh.onSocket]
  output := by rw [hhttps, htrace, hh.output]
  upgraded := by rw [hhttps, htrace]; exact hh.upgraded
  handed := by rw [htrace]; exact hh.handed

/-- Receiving does not matter. -/
theorem Handing.receive
    (hh : Handing h socket w) (readBuf : Buffer) :
    Handing h socket (w.setHttp h { w.https h with readBuf := readBuf }) := by
  have hnothing : ∀ o ∈ ([] : List Obs), o.Quiet := by simp
  refine hh.extend rfl ?_ ?_ ?_ (List.append_nil _).symm hnothing
  · simp [World.setHttp]
  · simp [World.setHttp]
  · simp [World.setHttp]

/-- Bytes move from the write buffer to the socket. -/
theorem Handing.wrote
    (hh : Handing h socket w) (n : Nat) :
    Handing h socket (HttpConnection.wrote w h n) := by
  have hconn : (HttpConnection.wrote w h n).https h =
      { w.https h with writeBuf := (w.https h).writeBuf.consume n } :=
    Function.update_self _ _ _
  have htrace : (HttpConnection.wrote w h n).trace =
      w.trace ++ [.wrote socket ((w.https h).writeBuf.readable.take n)] := by
    rw [← hh.onSocket]
    rfl
  refine ⟨?_, ?_, ?_, ?_⟩
  · rw [hconn]
    exact hh.onSocket
  · rw [htrace, hconn, answered_append, sentOn_append, ← hh.output]
    simp [sentOn, answered]
  · rw [htrace, hconn]
    exact fun hup => (hh.upgraded hup).append _
  · rw [htrace]
    exact hh.handed.snoc trivial

/-- A response is queued. -/
theorem Handing.send
    (hh : Handing h socket w) (resp : HttpResponse) :
    Handing h socket (HttpConnection.send w h resp) := by
  have hconn : (HttpConnection.send w h resp).https h = _ :=
    (congrFun (https_send w h resp) h).trans (Function.update_self _ _ _)
  have htrace := trace_send w h resp
  refine ⟨?_, ?_, ?_, ?_⟩
  · rw [hconn, (aside_send w h resp).sockets]
    exact hh.onSocket
  · rw [htrace, hconn, answered_append, sentOn_append, ← hh.output]
    simp [sentOn, answered]
  · rw [htrace, hconn]
    exact fun hup => (hh.upgraded hup).append _
  · rw [htrace]
    exact hh.handed.snoc trivial

/-- An upgrade is accepted and answered with a 101 response. -/
theorem Handing.upgrade
    (hh : Handing h socket w) (tok : Bytes) {resp : HttpResponse}
    (hstatus : resp.statusCode = 101) :
    Handing h socket (HttpConnection.send (markedUpgraded w h tok) h resp) := by
  have hmarked : (markedUpgraded w h tok).https h =
      { w.https h with upgraded := true, upgradedUser := w.tokens.lookup tok } :=
    Function.update_self _ _ _
  have hconn := (congrFun (https_send (markedUpgraded w h tok) h resp) h).trans
    (Function.update_self _ _ _)
  have hentry : (markedUpgraded w h tok).trace =
      w.trace ++ [.upgrade socket tok (w.tokens.lookup tok)] := by
    rw [← hh.onSocket]
    rfl
  have htrace : (HttpConnection.send (markedUpgraded w h tok) h resp).trace = w.trace ++
      [.upgrade socket tok (w.tokens.lookup tok), .response h resp] := by
    rw [trace_send, hentry, List.append_assoc]
    rfl
  refine ⟨?_, ?_, ?_, ?_⟩
  · rw [hconn, hmarked, (aside_send _ h resp).sockets]
    exact hh.onSocket
  · rw [htrace, hconn, hmarked, answered_append, sentOn_append, ← hh.output]
    simp [sentOn, answered]
  · rw [htrace]
    exact fun _ => ⟨w.trace, tok, _, resp, [], hstatus, rfl, Nat.zero_le _⟩
  · rw [htrace]
    refine hh.handed.append ?_
    intro o ho past
    rcases List.mem_pair.mp ho with rfl | rfl
    · trivial
    · trivial

/-- A request is handled. -/
theorem Handing.request
    (hh : Handing h socket w) {req : HttpRequest}
    (hok : HttpServer.dispatch cfg w h req = .ok w') :
    Handing h socket w' := by
  obtain ⟨resp, w₁, heff, rfl⟩ := dispatch_handled hok
  cases heff with
  | nothing =>
      exact hh.send resp
  | login u =>
      have hquiet : ∀ o ∈ [Obs.login u (bytes (w.tokens.issue u).1)], o.Quiet := by
        simp [Obs.Quiet]
      have hlogged : Handing h socket (loggedIn w u) := hh.extend rfl rfl rfl rfl rfl hquiet
      exact hlogged.send resp
  | logout =>
      generalize Routes.presentedToken cfg.json req = tok
      have hquiet : ∀ o ∈ [Obs.logout (w.tokens.lookup tok) tok], o.Quiet := by
        simp [Obs.Quiet]
      have hlogged : Handing h socket (loggedOut w tok) := hh.extend rfl rfl rfl rfl rfl hquiet
      exact hlogged.send resp
  | post m =>
      generalize Source.request (Routes.presentedToken cfg.json req) = source
      obtain ⟨hhttps, htrace⟩ := broadcast_frame cfg.json
        { w.note (.message m source w.room.users) with room := w.room.push m } m
      have hquiet : ∀ o ∈ [Obs.message m source w.room.users], o.Quiet := by
        simp [Obs.Quiet]
      have hsaid : Handing h socket (WsHub.addMessage cfg.json w m source) := by
        refine hh.extend (aside_addMessage cfg.json (.http h) w m source).sockets ?_ ?_ ?_
          htrace hquiet
        · exact congrArg (fun https => (https h).fd) hhttps
        · exact congrArg (fun https => (https h).writeBuf) hhttps
        · exact congrArg (fun https => (https h).upgraded) hhttps
      exact hsaid.send resp
  | upgrade tok resp hstatus =>
      exact hh.upgrade tok hstatus

/-- The descriptor is adopted when only what was queued behind the handshake is left. -/
theorem Handing.adopt
    (hh : Handing h socket w)
    (hbehind : QueuedBehind h socket (w.https h).writeBuf.readableBytes w.trace) {user : String}
    (hadopt : WsHub.adoptConnection w (w.https h).fd user = .ok w') :
    Handing h socket w' := by
  obtain ⟨haside, hhttps, htrace, -⟩ := adoptConnection_spec rfl hadopt
  rw [hh.onSocket] at htrace
  rw [← Buffer.length_readable] at hbehind
  refine ⟨?_, ?_, ?_, ?_⟩
  · rw [haside.sockets, hhttps, hh.onSocket]
  · rw [htrace, hhttps, sentOn_append, answered_append, ← hh.output]
    simp [sentOn, answered]
  · rw [htrace, hhttps]
    exact fun hup => (hh.upgraded hup).append _
  · rw [htrace]
    exact hh.handed.snoc (hbehind.handshakeSent hh.output)

/-- An open connection is closed that, if it has been upgraded, has only what was queued
behind the handshake left to send. -/
theorem Handing.close
    (hh : Handing h socket w)
    (hbehind : (w.https h).state ≠ .CLOSED → (w.https h).upgraded = true →
      QueuedBehind h socket (w.https h).writeBuf.readableBytes w.trace)
    (hok : HttpConnection.close (HttpServer.callbacks cfg) w h = .ok w') :
    Handing h socket w' := by
  have hnothing : ∀ o ∈ ([] : List Obs), o.Quiet := by simp
  by_cases hclosed : (w.https h).state = .CLOSED
  · rw [HttpConnection.close, if_pos hclosed, Except.ok.injEq] at hok
    exact hok ▸ hh
  · obtain ⟨w₁, hclose, rfl⟩ := HttpConnection.close_cases hclosed hok
    have hconn := HttpConnection.https_detached w h
    have hdetached : Handing h socket (HttpConnection.detached w h) := by
      refine hh.extend rfl ?_ ?_ ?_ (List.append_nil _).symm hnothing
      · rw [hconn]
      · rw [hconn]
      · rw [hconn]
    have hclosed₁ : Handing h socket w₁ := by
      rcases HttpServer.onClose_cases hclose with ⟨hup, -, w₂, hadopt, rfl⟩ | ⟨-, rfl⟩
      · have hleft : QueuedBehind h socket
            ((HttpConnection.detached w h).https h).writeBuf.readableBytes w.trace := by
          rw [hconn] at hup ⊢
          exact hbehind hclosed hup
        exact (hdetached.adopt hleft hadopt).extend rfl rfl rfl rfl
          (List.append_nil _).symm hnothing
      · exact hdetached.extend rfl rfl rfl rfl (List.append_nil _).symm hnothing
    split
    · exact hclosed₁
    · exact hclosed₁.extend rfl rfl rfl rfl (List.append_nil _).symm hnothing

/-- A readable event. -/
theorem Handing.read
    (hh : Handing h socket w) {input : Input} (hread : ReadKeepsHandshake w h input)
    (hok : HttpConnection.onRead (HttpServer.callbacks cfg) w h input = .ok w') :
    Handing h socket w' := by
  by_cases hidle : input.idle = .again
  · obtain ⟨readBuf, -, hloop⟩ :=
      HttpConnection.onRead_again (HttpServer.callbacks cfg) w h hidle
    have hrequest : ∀ w₁ req w₂, Handing h socket w₁ →
        HttpServer.dispatch cfg w₁ h req = .ok w₂ → Handing h socket w₂ :=
      fun _ _ _ hh hreq => hh.request hreq
    rw [hloop] at hok
    exact HttpConnection.requestLoop_keeps (fun _ readBuf hh => hh.receive readBuf) hrequest
      (hh.receive readBuf) hok
  · obtain ⟨readBuf, hclose⟩ :=
      HttpConnection.onRead_hangup (HttpServer.callbacks cfg) w h hidle
    have hconn : (w.setHttp h { w.https h with readBuf := readBuf }).https h =
        { w.https h with readBuf := readBuf } := Function.update_self _ _ _
    rw [hclose] at hok
    refine (hh.receive readBuf).close ?_ hok
    rw [hconn, ← hh.onSocket]
    exact fun _ hup => hread hup hidle

/-- A writable event of a connection that is closed already. -/
theorem Handing.write_closed
    (hh : Handing h socket w) (hclosed : (w.https h).state = .CLOSED) {sends : List SendResult}
    (hok : HttpConnection.onWrite (HttpServer.callbacks cfg) h w sends = .ok w') :
    Handing h socket w' := by
  obtain ⟨w₁, ⟨hh₁, hclosed₁⟩, hend⟩ := HttpConnection.onWrite_keeps
    (I := fun w => Handing h socket w ∧ (w.https h).state = .CLOSED)
    (fun w₁ n h₁ => ⟨h₁.1.wrote n, by simpa [HttpConnection.wrote, World.setHttp] using h₁.2⟩)
    ⟨hh, hclosed⟩ hok
  have hnothing : ∀ o ∈ ([] : List Obs), o.Quiet := by simp
  rcases hend with rfl | hclose | ⟨-, rfl⟩
  · exact hh₁
  · exact hh₁.close (fun hopen => absurd hclosed₁ hopen) hclose
  · exact hh₁.extend rfl rfl rfl rfl (List.append_nil _).symm hnothing

/-- A writable event of an open connection; the induction is on the answers of `::send`. -/
theorem Handing.write_open
    (hh : Handing h socket w) (hopen : w.openFds (w.https h).fd = true)
    {sends : List SendResult} (hwrite : WriteKeepsHandshake w h sends)
    (hok : HttpConnection.onWrite (HttpServer.callbacks cfg) h w sends = .ok w') :
    Handing h socket w' := by
  have hnothing : ∀ o ∈ ([] : List Obs), o.Quiet := by simp
  have hflushed {w : World} (hh : Handing h socket w)
      (hempty : ¬ (w.https h).writeBuf.readableBytes > 0)
      (hok : (if (w.https h).closeAfterWrite then
        HttpConnection.close (HttpServer.callbacks cfg) w h
      else
        .ok (w.modifyFd (w.https h).fd EPOLLIN)) = .ok w') :
      Handing h socket w' := by
    split at hok
    · refine hh.close ?_ hok
      intro _ hup
      rw [Nat.eq_zero_of_not_pos hempty]
      exact hh.upgraded hup
    · cases hok
      exact hh.extend rfl rfl rfl rfl (List.append_nil _).symm hnothing
  induction sends generalizing w with
  | nil =>
      rw [HttpConnection.onWrite] at hok
      split at hok
      · cases hok
        exact hh
      · next hempty =>
          exact hflushed hh hempty hok
  | cons result sends ih =>
      rw [HttpConnection.onWrite] at hok
      split at hok
      · next hpos =>
          have hfails (hleft : leftAtFailure (w.https h).writeBuf.readableBytes
              (result :: sends) = (w.https h).writeBuf.readableBytes)
              (hclose : HttpConnection.close (HttpServer.callbacks cfg) w h = .ok w') :
              Handing h socket w' := by
            refine hh.close ?_ hclose
            intro _ hup
            have hbehind := hwrite hup (hleft.symm ▸ hpos)
            rwa [hleft, hh.onSocket] at hbehind
          rw [sendResult, if_pos hopen] at hok
          cases result with
          | accepts want =>
              refine ih (hh.wrote _) ?_ ?_ hok
              · simpa [HttpConnection.wrote, World.setHttp, World.note] using hopen
              · exact hwrite.wrote hpos
          | again =>
              cases hok
              exact hh
          | zero =>
              exact hfails (leftAtFailure_fails hpos (.inl rfl) sends) hok
          | error =>
              exact hfails (leftAtFailure_fails hpos (.inr rfl) sends) hok
      · next hempty =>
          exact hflushed hh hempty hok

end Handing

/-- What is known about the connections of a server. -/
structure HandshakesKept (w : World) : Prop where
  orderly : Orderly w
  handing : ∀ fd h, w.reactor.contexts fd = some (.http h) → Handing h (w.sockets fd) w
  handed : Justified AfterHandshake w.trace

section Runs

variable {cfg : Config} {w w' : World}

theorem handshakesKept_init :
    HandshakesKept World.init := by
  refine ⟨orderly_init, ?_, justified_nil⟩
  intro fd h hregistered
  cases hregistered

theorem HandshakesKept.accept
    (hk : HandshakesKept w) (ho' : Orderly w') {fd : Fd}
    (hclosed : w.openFds fd = false) (hok : HttpServer.onAccept w fd = .ok w') :
    HandshakesKept w' := by
  have hacc := onAccept_accepted hok
  refine ⟨ho', ?_, ?_⟩
  · intro fd' h hregistered
    rw [hacc.contexts] at hregistered
    rw [hacc.sockets]
    by_cases hfd : fd' = fd
    · subst hfd
      rw [Function.update_self, Option.some.injEq, Target.http.injEq] at hregistered
      subst hregistered
      rw [Function.update_self]
      have hconn : w'.https w.httpAllocated = HttpConnection.new fd' := by
        rw [hacc.https, Function.update_self]
      refine ⟨?_, ?_, ?_, ?_⟩
      · rw [hconn, hacc.sockets]
        exact Function.update_self _ _ _
      · rw [hconn, hacc.trace, hk.orderly.sentOn_fresh le_rfl,
          hk.orderly.answered_fresh le_rfl]
        rfl
      · intro hup
        rw [hconn] at hup
        cases hup
      · rw [hacc.trace]
        exact hk.handed
    · rw [Function.update_of_ne hfd] at hregistered ⊢
      have hold := hk.handing fd' h hregistered
      obtain ⟨hfd', hlt, -⟩ := hk.orderly.registered hregistered
      have hfd' : (w.https h).fd = fd' := hfd'
      have hlt : h < w.httpAllocated := hlt
      have hconn := hacc.https_of_lt hlt
      refine ⟨?_, ?_, ?_, ?_⟩
      · rw [hconn, hacc.sockets, hfd', Function.update_of_ne hfd]
      · rw [hconn, hacc.trace, hold.output]
      · rw [hconn, hacc.trace]
        exact hold.upgraded
      · rw [hacc.trace]
        exact hold.handed
  · rw [hacc.trace]
    exact hk.handed

/-- An event of another connection. -/
theorem Handing.aside
    {h : HttpId} {socket : SocketId} (hh : Handing h socket w) {t : Target}
    (haside : Aside t w w') (hne : t ≠ .http h) (hsocket : w.sockets (w.fdOf t) ≠ socket)
    (hhanded : Justified AfterHandshake w'.trace) :
    Handing h socket w' where
  onSocket := by rw [haside.sockets, haside.https h hne, hh.onSocket]
  output := by
    rw [haside.https h hne, haside.sentOn hsocket, haside.answered hne, hh.output]
  upgraded hup := by
    rw [haside.https h hne] at hup
    obtain ⟨more, htrace, -⟩ := haside.history
    rw [htrace]
    exact (hh.upgraded hup).append more
  handed := hhanded

/-- An event of a connection. -/
theorem Handing.event
    (hk : ConnectionsKept w.sessions) {fd : Fd} {h : HttpId}
    (hregistered : w.reactor.contexts fd = some (.http h)) (hh : Handing h (w.sockets fd) w)
    {events : Ready} {input : Input} {sends : List SendResult}
    (hkeeps : KeepsHandshake cfg w (.ready fd events input sends))
    (hok : handleEvent cfg w fd events input sends = .ok w') :
    Handing h (w.sockets fd) w' := by
  obtain ⟨hread, hwrite⟩ := hkeeps h hregistered
  obtain ⟨w₁, hfirst, hsecond⟩ := handleEvent_cases hregistered hok
  have hh₁ : Handing h (w.sockets fd) w₁ ∧
      Acts (fun _ _ => True) w.sessions w₁.sessions ∧ w₁.sessions.HttpLive fd h := by
    split at hfirst
    · next hreads =>
        rw [Bool.or_eq_true] at hreads
        exact ⟨hh.read (hread hreads) hfirst, httpRead_acts hregistered hfirst⟩
    · cases hfirst
      exact ⟨hh, .refl, .inr hregistered⟩
  obtain ⟨hh₁, hacts, hlive⟩ := hh₁
  rcases hsecond with rfl | ⟨hfailure, houtput, hsecond⟩
  · exact hh₁
  · rcases hlive with hclosed | hregistered₁
    · exact hh₁.write_closed hclosed hsecond
    · have hk₁ := Acts.keeps (fun _ _ => connectionsKept_act) hacts hk
      obtain ⟨hfd, -, hopen⟩ := hk₁.registered fd _ hregistered₁
      have hfd : (w₁.https h).fd = fd := hfd
      rw [hfailure, Bool.false_or] at hfirst
      refine hh₁.write_open ?_ (hwrite w₁ hfirst hfailure houtput) hsecond
      rw [hfd]
      exact hopen

theorem HandshakesKept.event
    (hk : HandshakesKept w) (ho' : Orderly w') {fd : Fd}
    {events : Ready} {input : Input} {sends : List SendResult} {t : Target}
    (ht : w.reactor.contexts fd = some t)
    (hkeeps : KeepsHandshake cfg w (.ready fd events input sends))
    (hok : handleEvent cfg w fd events input sends = .ok w') :
    HandshakesKept w' := by
  have haside := handleEvent_aside ht hok
  have hconnections := hk.orderly.connections
  obtain ⟨hfd, -, hopen, -⟩ := hk.orderly.registered ht
  have hhanded : Justified AfterHandshake w'.trace := by
    cases t with
    | http h =>
        exact (Handing.event hconnections ht (hk.handing fd h ht) hkeeps hok).handed
    | ws x =>
        obtain ⟨more, htrace, hmore⟩ := haside.history
        rw [htrace]
        refine hk.handed.append ?_
        intro o ho past
        cases o with
        | adopt =>
            obtain ⟨-, h, heq⟩ := hmore _ ho
            cases heq
        | login | logout | message | upgrade | response | text | wrote =>
            trivial
  refine ⟨ho', ?_, hhanded⟩
  intro fd' h hregistered
  have hregistered₀ := haside.registered_http hregistered
  have hh := hk.handing fd' h hregistered₀
  rw [haside.sockets]
  by_cases heq : fd' = fd
  · subst heq
    exact Handing.event hconnections hregistered₀ hh hkeeps hok
  · refine hh.aside haside ?_ ?_ hhanded
    · rintro rfl
      exact heq (hconnections.fd_unique hregistered₀ ht)
    · rw [hfd]
      intro hsame
      have hopen' := (hk.orderly.registered hregistered₀).2.2.1
      exact heq (hconnections.distinct fd fd' hopen hopen' hsame).symm

/-- A step that keeps the handshakes. -/
theorem HandshakesKept.step
    (hk : HandshakesKept w) {e : Event} (hkeeps : KeepsHandshake cfg w e)
    (hok : step cfg w e = .ok w') :
    HandshakesKept w' := by
  have ho' := hk.orderly.step hok
  cases step_cases hok with
  | idle now files =>
      exact ⟨ho', fun fd h hreg => (hk.handing fd h hreg).unseen rfl rfl rfl, hk.handed⟩
  | accept hnew haccept =>
      exact hk.accept ho' hnew haccept
  | handle ht hhandle =>
      exact hk.event ho' ht hkeeps hhandle

/-- An event in which no peer is gone and `::send` does not fail. -/
def calm : Event → Bool
  | .ready _ _ input sends =>
      input.idle = .again ∧ SendResult.zero ∉ sends ∧ SendResult.error ∉ sends
  | _ => true

theorem leftAtFailure_of_calm
    {sends : List SendResult} (hzero : SendResult.zero ∉ sends)
    (herror : SendResult.error ∉ sends) (len : Nat) :
    leftAtFailure len sends = 0 := by
  induction sends generalizing len with
  | nil =>
      cases len <;> rfl
  | cons result sends ih =>
      cases len with
      | zero =>
          rfl
      | succ len =>
          cases result with
          | accepts want =>
              exact ih (List.not_mem_of_not_mem_cons hzero) (List.not_mem_of_not_mem_cons herror) _
          | again =>
              rfl
          | zero =>
              exact absurd List.mem_cons_self hzero
          | error =>
              exact absurd List.mem_cons_self herror

theorem keepsHandshake_of_calm
    (cfg : Config) (w : World) (e : Event) (h : calm e = true) :
    KeepsHandshake cfg w e := by
  cases e with
  | ready fd events input sends =>
      obtain ⟨hidle, hzero, herror⟩ := of_decide_eq_true h
      intro h _
      refine ⟨fun _ _ hgone => absurd hidle hgone, ?_⟩
      intro w₁ _ _ _ _ hleft
      rw [leftAtFailure_of_calm hzero herror] at hleft
      exact absurd hleft (Nat.lt_irrefl 0)
  | accept | clock | files =>
      trivial

/-- The name under which an entry hands a connection over. -/
def Obs.adopted? : Obs → Option String
  | .adopt _ _ u => some u
  | _ => none

/-- A descriptor is adopted when something has been sent. -/
def AfterOutput (past : List Obs) : Obs → Prop
  | .adopt socket _ _ => sentOn socket past ≠ []
  | _ => True

instance (past : List Obs) (o : Obs) : Decidable (AfterOutput past o) := by
  cases o with
  | adopt socket x u =>
      exact inferInstanceAs (Decidable (sentOn socket past ≠ []))
  | login | logout | message | upgrade | response | text | wrote =>
      exact inferInstanceAs (Decidable True)

/-- A handshake is not empty. -/
theorem HandshakeSent.sentOn_ne_nil
    {past : List Obs} {socket : SocketId} (h : HandshakeSent past socket) :
    sentOn socket past ≠ [] := by
  obtain ⟨h, before, tok, u, resp, after, -, -, hpart, -⟩ := h
  intro hnil
  rw [hnil, List.prefix_nil, answered_append, List.append_eq_nil_iff] at hpart
  have hresp : resp.toString = [] := by
    simpa [answered] using hpart.2
  have hpos : 0 < resp.toString.length := by
    rw [HttpResponse.toString]
    simp only [List.length_append]
    have : 0 < (bytes "HTTP/1.1 ").length := by decide
    omega
  rw [hresp] at hpos
  exact Nat.lt_irrefl 0 hpos

/-- The peer of a descriptor is gone. -/
def hangup (fd : Fd) : Event :=
  .ready fd { input := true, output := false, failure := false }
    { pending := [], sizes := [], idle := .eof } []

/-- A client hangs up as soon as it has asked for a WebSocket connection. -/
def goneRun : List Event :=
  loginRun ++ [.accept 6, arrive 6 upgradeRequest, hangup 6]

end Runs

end Web
end ChatRoom
