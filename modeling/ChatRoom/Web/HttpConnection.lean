import ChatRoom.Lib.Runs
import ChatRoom.Http.RequestStream
import ChatRoom.Web.World

/-!
# HTTP connections

`HttpConnection` (server/http_connection.h, server/http_connection.cpp).
-/

namespace ChatRoom
namespace Web
namespace HttpConnection

open Http Socket

/-- The callbacks of an HTTP connection. -/
structure Callbacks where
  onRequest : World → HttpId → HttpRequest → Except Exn World
  onClose : World → HttpId → Except Exn World

/-- `HttpConnection::start` -/
def start (w : World) (h : HttpId) : Except Exn World :=
  (w.reactor.addFd (w.https h).fd EPOLLIN (.http h)).map fun reactor =>
    { w with reactor := reactor }

/-- `HttpConnection::markUpgraded` -/
def markUpgraded (w : World) (h : HttpId) (username : String) : World :=
  w.setHttp h { w.https h with upgraded := true, upgradedUser := username }

/-- `HttpConnection::send` -/
def send (w : World) (h : HttpId) (resp : HttpResponse) : World :=
  let conn :=
    { w.https h with
      writeBuf := (w.https h).writeBuf.append resp.toString
      closeAfterWrite := (w.https h).closeAfterWrite || !resp.keepAlive }
  let w := w.note (.response h resp)
  if conn.writing then
    w.setHttp h conn
  else
    (w.modifyFd conn.fd EPOLLINOUT).setHttp h { conn with writing := true }

/-- `HttpConnection::close` -/
def close (cb : Callbacks) (w : World) (h : HttpId) : Except Exn World :=
  if (w.https h).state = .CLOSED then
    .ok w
  else
    let w := w.setHttp h { w.https h with state := .CLOSED }
    let w := w.removeFd (w.https h).fd
    (cb.onClose w h).map fun w =>
      -- the connection has been destroyed by its owner; its fields are read anyway
      if (w.https h).upgraded then w else w.closeFd (w.https h).fd

/-- The loop of `onRead` over the requests in the read buffer.  Each request takes
bytes off the buffer, so its length is enough `fuel`. -/
def requestLoop (cb : Callbacks) (h : HttpId) : Nat → World → Except Exn World
  | 0, w => .ok w
  | fuel + 1, w =>
      let (complete, req, readBuf) := HttpRequest.new.parse (w.https h).readBuf
      let w := w.setHttp h { w.https h with readBuf := readBuf }
      if complete then
        (cb.onRequest w h req).bind (requestLoop cb h fuel)
      else
        .ok w

/-- `HttpConnection::onRead` -/
def onRead (cb : Callbacks) (w : World) (h : HttpId) (s : Input) : Except Exn World :=
  match recvLoop (s.pending.length + 1) (w.https h).readBuf s with
  | (readBuf, .hangup) => close cb (w.setHttp h { w.https h with readBuf := readBuf }) h
  | (readBuf, .drained) =>
      requestLoop cb h (readBuf.readableBytes + 1)
        (w.setHttp h { w.https h with readBuf := readBuf })

/-- `writeBuf_.consume(n)` after `::send` took `n` bytes -/
def wrote (w : World) (h : HttpId) (n : Nat) : World :=
  let conn := w.https h
  (w.note (.wrote (w.sockets conn.fd) (conn.writeBuf.readable.take n))).setHttp h
    { conn with writeBuf := conn.writeBuf.consume n }

/-- `HttpConnection::onWrite`; `results` is what `::send` answers, call by call, and
`EAGAIN` from then on. -/
def onWrite (cb : Callbacks) (h : HttpId) (w : World) (results : List SendResult) :
    Except Exn World :=
  if (w.https h).writeBuf.readableBytes > 0 then
    match results with
    | [] => .ok w
    | result :: results =>
        match sendResult w (w.https h).fd result with
        | .accepts want =>
            onWrite cb h (wrote w h (sendSize want (w.https h).writeBuf.readableBytes)) results
        | .again => .ok w
        | .zero => close cb w h
        | .error => close cb w h
  else if (w.https h).closeAfterWrite then
    close cb w h
  else
    .ok (w.modifyFd (w.https h).fd EPOLLIN)

/-- The state in which the close callback is called. -/
def detached (w : World) (h : HttpId) : World :=
  (w.setHttp h { w.https h with state := .CLOSED }).removeFd (w.https h).fd

@[simp] theorem https_detached
    (w : World) (h : HttpId) :
    (detached w h).https h = { w.https h with state := .CLOSED } := by
  exact Function.update_self _ _ _

/-- Closing a connection that is not closed: the callback is called, and the
descriptor is closed unless it has been upgraded. -/
theorem close_cases
    {cb : Callbacks} {w w' : World} {h : HttpId} (hopen : (w.https h).state ≠ .CLOSED)
    (hok : close cb w h = .ok w') :
    ∃ w₁, cb.onClose (detached w h) h = .ok w₁ ∧
      w' = if (w₁.https h).upgraded then w₁ else w₁.closeFd (w₁.https h).fd := by
  rw [close, if_neg hopen] at hok
  dsimp only at hok
  have hfd : ((w.setHttp h { w.https h with state := .CLOSED }).https h).fd = (w.https h).fd := by
    simp [World.setHttp]
  rw [hfd] at hok
  cases hclose : cb.onClose (detached w h) h with
  | error e =>
      rw [detached] at hclose
      rw [hclose] at hok
      cases hok
  | ok w₁ =>
      rw [detached] at hclose
      rw [hclose] at hok
      exact ⟨w₁, rfl, (Except.ok.inj hok).symm⟩

section RequestLoop

variable (cb : Callbacks) {h : HttpId} {w : World}

/-- A turn of the loop that finds no complete request. -/
theorem requestLoop_wait
    (hwait : requestVerdict (w.https h).readBuf.readable = .wait) (fuel : Nat) :
    ∃ readBuf : Buffer, readBuf.readable = (w.https h).readBuf.readable ∧
      requestLoop cb h (fuel + 1) w = .ok (w.setHttp h { w.https h with readBuf := readBuf }) := by
  obtain ⟨req, readBuf, hparse, hread⟩ := parse_of_wait hwait
  refine ⟨readBuf, hread, ?_⟩
  rw [requestLoop, hparse]
  rfl

/-- A turn of the loop that takes a request off the buffer. -/
theorem requestLoop_done
    {n : Nat} {req : HttpRequest}
    (hdone : requestVerdict (w.https h).readBuf.readable = .done n req) (fuel : Nat) :
    ∃ readBuf : Buffer, readBuf.readable = (w.https h).readBuf.readable.drop n ∧
      requestLoop cb h (fuel + 1) w =
        (cb.onRequest (w.setHttp h { w.https h with readBuf := readBuf }) h req).bind
          (requestLoop cb h fuel) := by
  obtain ⟨readBuf, hparse, hread⟩ := parse_of_done hdone
  refine ⟨readBuf, hread, ?_⟩
  rw [requestLoop, hparse]
  rfl

end RequestLoop

section Keeps

variable {cb : Callbacks} {h : HttpId} {I : World → Prop}

/-- What taking bytes off the read buffer and handling a request keep, the loop over the
requests keeps. -/
theorem requestLoop_keeps
    (hreceive : ∀ w readBuf, I w → I (w.setHttp h { w.https h with readBuf := readBuf }))
    (hrequest : ∀ w req w', I w → cb.onRequest w h req = .ok w' → I w')
    {fuel : Nat} {w w' : World} (hI : I w) (hok : requestLoop cb h fuel w = .ok w') :
    I w' := by
  induction fuel generalizing w with
  | zero =>
      cases hok
      exact hI
  | succ fuel ih =>
      rw [requestLoop] at hok
      generalize HttpRequest.new.parse (w.https h).readBuf = parsed at hok
      obtain ⟨complete, req, readBuf⟩ := parsed
      have hI₁ := hreceive w readBuf hI
      dsimp only at hok
      generalize w.setHttp h { w.https h with readBuf := readBuf } = w₁ at hok hI₁
      cases complete with
      | false =>
          cases hok
          exact hI₁
      | true =>
          rw [if_pos rfl] at hok
          cases hrun : cb.onRequest w₁ h req with
          | error e =>
              rw [hrun] at hok
              cases hok
          | ok w₂ =>
              rw [hrun] at hok
              exact ih (hrequest w₁ req w₂ hI₁ hrun) hok

/-- A readable event of a peer that is still there: the requests in the unread and the
received bytes are handled. -/
theorem onRead_again
    (cb : Callbacks) (w : World) (h : HttpId) {s : Input} (hidle : s.idle = .again) :
    ∃ readBuf : Buffer, readBuf.readable = (w.https h).readBuf.readable ++ s.pending ∧
      onRead cb w h s =
        requestLoop cb h (readBuf.readableBytes + 1)
          (w.setHttp h { w.https h with readBuf := readBuf }) := by
  obtain ⟨readBuf, hrecv, hread⟩ := recvLoop_again hidle (w.https h).readBuf
  rw [onRead, hrecv]
  exact ⟨readBuf, hread, rfl⟩

/-- If the peer is gone, the connection is closed. -/
theorem onRead_hangup
    (cb : Callbacks) (w : World) (h : HttpId) {s : Input} (hidle : s.idle ≠ .again) :
    ∃ readBuf, onRead cb w h s =
      close cb (w.setHttp h { w.https h with readBuf := readBuf }) h := by
  obtain ⟨readBuf, hrecv⟩ := recvLoop_gone hidle (w.https h).readBuf
  rw [onRead, hrecv]
  exact ⟨readBuf, rfl⟩

/-- What sending keeps holds when a writable event leaves the connection as it is or
closes it. -/
theorem onWrite_keeps
    (hwrote : ∀ w n, I w → I (wrote w h n))
    {w w' : World} (hI : I w) {sends : List SendResult} (hok : onWrite cb h w sends = .ok w') :
    ∃ w₁, I w₁ ∧ (w' = w₁ ∨ close cb w₁ h = .ok w' ∨
      (w₁.https h).writeBuf.readableBytes = 0 ∧ w' = w₁.modifyFd (w₁.https h).fd EPOLLIN) := by
  induction sends generalizing w with
  | nil =>
      rw [onWrite] at hok
      split at hok
      · cases hok
        exact ⟨_, hI, .inl rfl⟩
      · next hempty =>
          split at hok
          · exact ⟨w, hI, .inr (.inl hok)⟩
          · cases hok
            exact ⟨w, hI, .inr (.inr ⟨Nat.eq_zero_of_not_pos hempty, rfl⟩)⟩
  | cons result sends ih =>
      rw [onWrite] at hok
      split at hok
      · split at hok
        · exact ih (hwrote w _ hI) hok
        · cases hok
          exact ⟨_, hI, .inl rfl⟩
        · exact ⟨w, hI, .inr (.inl hok)⟩
        · exact ⟨w, hI, .inr (.inl hok)⟩
      · next hempty =>
          split at hok
          · exact ⟨w, hI, .inr (.inl hok)⟩
          · cases hok
            exact ⟨w, hI, .inr (.inr ⟨Nat.eq_zero_of_not_pos hempty, rfl⟩)⟩

end Keeps

end HttpConnection

section Calls

open Http Socket

/-- A call of `onRequest_`, with the state in which it happens. -/
structure RequestCall where
  world : World
  conn : HttpId
  req : HttpRequest

/-- The calls of `onRequest_` in the loop of `onRead`. -/
def callsOfLoop (cb : HttpConnection.Callbacks) (h : HttpId) : Nat → World → List RequestCall
  | 0, _ => []
  | fuel + 1, w =>
      let (complete, req, readBuf) := HttpRequest.new.parse (w.https h).readBuf
      let w := w.setHttp h { w.https h with readBuf := readBuf }
      if complete then
        { world := w, conn := h, req := req } ::
          match cb.onRequest w h req with
          | .error _ => []
          | .ok w => callsOfLoop cb h fuel w
      else
        []

/-- The calls of `onRequest_` in `onRead`. -/
def callsOfRead (cb : HttpConnection.Callbacks) (w : World) (h : HttpId) (s : Input) :
    List RequestCall :=
  match recvLoop (s.pending.length + 1) (w.https h).readBuf s with
  | (_, .hangup) => []
  | (readBuf, .drained) =>
      callsOfLoop cb h (readBuf.readableBytes + 1)
        (w.setHttp h { w.https h with readBuf := readBuf })

variable {cb : HttpConnection.Callbacks} {h : HttpId} {I : List RequestCall → World → Prop}
variable {calls : List RequestCall} {w w' : World}

/-- These are the calls: what setting the read buffer and calling the handler keep of the
calls so far, the loop keeps of them and its own. -/
theorem requestLoop_calls
    (hreceive : ∀ calls w readBuf, I calls w →
      I calls (w.setHttp h { w.https h with readBuf := readBuf }))
    (hrequest : ∀ calls w req w', I calls w → cb.onRequest w h req = .ok w' →
      I (calls ++ [{ world := w, conn := h, req := req }]) w')
    {fuel : Nat} (hI : I calls w) (hok : HttpConnection.requestLoop cb h fuel w = .ok w') :
    I (calls ++ callsOfLoop cb h fuel w) w' := by
  induction fuel generalizing calls w with
  | zero =>
      cases hok
      rw [callsOfLoop, List.append_nil]
      exact hI
  | succ fuel ih =>
      rw [HttpConnection.requestLoop] at hok
      rw [callsOfLoop]
      generalize HttpRequest.new.parse (w.https h).readBuf = parsed at hok ⊢
      obtain ⟨complete, req, readBuf⟩ := parsed
      have hI₁ := hreceive calls w readBuf hI
      dsimp only at hok ⊢
      generalize w.setHttp h { w.https h with readBuf := readBuf } = w₁ at hok hI₁ ⊢
      cases complete with
      | false =>
          cases hok
          rw [if_neg (by simp), List.append_nil]
          exact hI₁
      | true =>
          rw [if_pos rfl] at hok ⊢
          obtain ⟨w₂, hhandled, hrest⟩ := Runs.bind_eq_ok.mp hok
          have hI₂ := ih (hrequest calls w₁ req w₂ hI₁ hhandled) hrest
          rw [hhandled]
          rwa [List.append_assoc, List.singleton_append] at hI₂

/-- The same for `onRead`; when the peer is gone, it calls `close` instead. -/
theorem onRead_calls
    {K : List RequestCall → World → Prop}
    (hreceive : ∀ calls w readBuf, I calls w →
      I calls (w.setHttp h { w.https h with readBuf := readBuf }))
    (hrequest : ∀ calls w req w', I calls w → cb.onRequest w h req = .ok w' →
      I (calls ++ [{ world := w, conn := h, req := req }]) w')
    (hturn : ∀ calls w, I calls w → K calls w)
    (hclose : ∀ calls w w', K calls w → HttpConnection.close cb w h = .ok w' → K calls w')
    {s : Input} (hI : I calls w) (hok : HttpConnection.onRead cb w h s = .ok w') :
    K (calls ++ callsOfRead cb w h s) w' := by
  rw [HttpConnection.onRead] at hok
  rw [callsOfRead]
  generalize recvLoop (s.pending.length + 1) (w.https h).readBuf s = received at hok ⊢
  obtain ⟨readBuf, ending⟩ := received
  have hI₁ := hreceive calls w readBuf hI
  cases ending with
  | hangup =>
      rw [List.append_nil]
      exact hclose calls _ w' (hturn calls _ hI₁) hok
  | drained =>
      exact hturn _ w' (requestLoop_calls hreceive hrequest hI₁ hok)

end Calls

end Web
end ChatRoom
