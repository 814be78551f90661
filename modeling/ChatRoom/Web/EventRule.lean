import ChatRoom.Web.Server

/-!
# Rules for an event

An event of the reactor is a sequence of small operations on one connection:
bytes are received, a request or a frame is handled, `::send` takes bytes, the
connection is closed.  What these operations keep, the event keeps.

For an HTTP connection the rule has two invariants.  Requests are handled before
the connection is closed, so `I` is about the time before and `K` about the time
from then on.
-/

namespace ChatRoom
namespace Web

open Socket

/-- What the operations on an HTTP connection keep. -/
structure HttpRule (cfg : Config) (h : HttpId) (I K : World → Prop) : Prop where
  receive : ∀ w readBuf, I w → I (w.setHttp h { w.https h with readBuf := readBuf })
  request : ∀ w req w', I w → HttpServer.dispatch cfg w h req = .ok w' → I w'
  turn : ∀ w, I w → K w
  wrote : ∀ w n, K w → K (HttpConnection.wrote w h n)
  flushed : ∀ w, K w → K (w.modifyFd (w.https h).fd EPOLLIN)
  close : ∀ w w', K w → HttpConnection.close (HttpServer.callbacks cfg) w h = .ok w' → K w'

/-- What the operations on a WebSocket connection keep. -/
structure WsRule (J : JsonLib) (x : WsId) (I : World → Prop) : Prop where
  receive : ∀ w readBuf, I w → I (w.setWs x { w.wss x with readBuf := readBuf })
  dispatch : ∀ w f, f.payload.length ≤ Ws.VECTOR_MAX_SIZE → I w →
    I (WsConnection.dispatch (WsHub.callbacks J) w x f).1
  wrote : ∀ w n, I w → I (WsConnection.wrote w x n)
  flushed : ∀ w, I w →
    I ((w.modifyFd (w.wss x).fd EPOLLIN).setWs x { w.wss x with writing := false })
  close : ∀ w, I w → I (WsConnection.close (WsHub.callbacks J) w x)

section Http

variable {cfg : Config} {h : HttpId} {I K : World → Prop} {w w' : World}

theorem HttpRule.onRead
    (rule : HttpRule cfg h I K) (hI : I w) {s : Input}
    (hok : HttpConnection.onRead (HttpServer.callbacks cfg) w h s = .ok w') :
    K w' := by
  by_cases hidle : s.idle = .again
  · obtain ⟨readBuf, -, hread⟩ :=
      HttpConnection.onRead_again (HttpServer.callbacks cfg) w h hidle
    rw [hread] at hok
    exact rule.turn w' (HttpConnection.requestLoop_keeps rule.receive rule.request
      (rule.receive w readBuf hI) hok)
  · obtain ⟨readBuf, hread⟩ :=
      HttpConnection.onRead_hangup (HttpServer.callbacks cfg) w h hidle
    rw [hread] at hok
    exact rule.close _ w' (rule.turn _ (rule.receive w readBuf hI)) hok

theorem HttpRule.onWrite
    (rule : HttpRule cfg h I K) (hK : K w) {sends : List SendResult}
    (hok : HttpConnection.onWrite (HttpServer.callbacks cfg) h w sends = .ok w') :
    K w' := by
  obtain ⟨w₁, hK₁, hend⟩ := HttpConnection.onWrite_keeps rule.wrote hK hok
  rcases hend with rfl | hclose | ⟨-, rfl⟩
  · exact hK₁
  · exact rule.close w₁ w' hK₁ hclose
  · exact rule.flushed w₁ hK₁

/-- The rule for an event of an HTTP connection. -/
theorem HttpRule.handleEvent
    (rule : HttpRule cfg h I K) {fd : Fd} {events : Ready} {input : Input}
    {sends : List SendResult} (ht : w.reactor.contexts fd = some (.http h)) (hI : I w)
    (hok : handleEvent cfg w fd events input sends = .ok w') :
    K w' := by
  obtain ⟨w₁, hfirst, hsecond⟩ := handleEvent_cases ht hok
  have hK₁ : K w₁ := by
    split at hfirst
    · exact rule.onRead hI hfirst
    · cases hfirst
      exact rule.turn w hI
  rcases hsecond with rfl | ⟨-, -, hsecond⟩
  · exact hK₁
  · exact rule.onWrite hK₁ hsecond

end Http

section Ws

variable {cfg : Config} {x : WsId} {I : World → Prop} {w w' : World}

/-- The rule for an event of a WebSocket connection. -/
theorem WsRule.handleEvent
    (rule : WsRule cfg.json x I) {fd : Fd} {events : Ready} {input : Input}
    {sends : List SendResult} (ht : w.reactor.contexts fd = some (.ws x)) (hI : I w)
    (hok : handleEvent cfg w fd events input sends = .ok w') :
    I w' := by
  obtain ⟨w₁, hfirst, hsecond⟩ := handleEvent_cases ht hok
  have hI₁ : I w₁ := by
    split at hfirst
    · exact WsConnection.onRead_keeps rule.receive rule.dispatch rule.close hI hfirst
    · cases hfirst
      exact hI
  rcases hsecond with rfl | ⟨-, -, hsecond⟩
  · exact hI₁
  · cases hsecond
    exact WsConnection.onWrite_keeps rule.wrote rule.close (fun w₁ _ => rule.flushed w₁) hI₁ sends

end Ws

end Web
end ChatRoom
