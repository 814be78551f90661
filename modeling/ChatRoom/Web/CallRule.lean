import ChatRoom.Web.RoomHistory

/-!
# A rule for the calls of a connection

`HttpRule` says what the operations of an event keep of a state.  Here the
invariants are also about the requests that have been handled: handling one adds a
call, and an event adds those of `callsOf`.
-/

namespace ChatRoom
namespace Web

open Http Socket Runs

/-- What the operations on an HTTP connection keep of the calls and the state. -/
structure CallRule (cfg : Config) (h : HttpId) (I K : List RequestCall → World → Prop) :
    Prop where
  receive : ∀ calls w readBuf, I calls w →
    I calls (w.setHttp h { w.https h with readBuf := readBuf })
  request : ∀ calls w req w', I calls w → HttpServer.dispatch cfg w h req = .ok w' →
    I (calls ++ [{ world := w, conn := h, req := req }]) w'
  turn : ∀ calls w, I calls w → K calls w
  wrote : ∀ calls w n, K calls w → K calls (HttpConnection.wrote w h n)
  flushed : ∀ calls w, K calls w → K calls (w.modifyFd (w.https h).fd EPOLLIN)
  close : ∀ calls w w', K calls w →
    HttpConnection.close (HttpServer.callbacks cfg) w h = .ok w' → K calls w'

section Rule

variable {cfg : Config} {h : HttpId} {I K : List RequestCall → World → Prop} {w w' : World}
  {calls : List RequestCall}

theorem CallRule.onRead
    (rule : CallRule cfg h I K) (hI : I calls w) {s : Input}
    (hok : HttpConnection.onRead (HttpServer.callbacks cfg) w h s = .ok w') :
    K (calls ++ callsOfRead (HttpServer.callbacks cfg) w h s) w' :=
  onRead_calls rule.receive rule.request rule.turn rule.close hI hok

theorem CallRule.onWrite
    (rule : CallRule cfg h I K) (hK : K calls w) {sends : List SendResult}
    (hok : HttpConnection.onWrite (HttpServer.callbacks cfg) h w sends = .ok w') :
    K calls w' := by
  obtain ⟨w₁, hK₁, hend⟩ := HttpConnection.onWrite_keeps (rule.wrote calls) hK hok
  rcases hend with rfl | hclose | ⟨-, rfl⟩
  · exact hK₁
  · exact rule.close calls w₁ w' hK₁ hclose
  · exact rule.flushed calls w₁ hK₁

/-- The rule for an event of an HTTP connection. -/
theorem CallRule.handleEvent
    (rule : CallRule cfg h I K) {fd : Fd} {events : Ready} {input : Input}
    {sends : List SendResult} (ht : w.reactor.contexts fd = some (.http h)) (hI : I calls w)
    (hok : handleEvent cfg w fd events input sends = .ok w') :
    K (calls ++ callsOf cfg w (.ready fd events input sends)) w' := by
  obtain ⟨w₁, hfirst, hsecond⟩ := handleEvent_cases ht hok
  rw [callsOf, ht]
  dsimp only
  have hK₁ : K (calls ++
      (if events.failure || events.input then
        callsOfRead (HttpServer.callbacks cfg) w h input
      else
        [])) w₁ := by
    split at hfirst
    · next hreads =>
        rw [if_pos hreads]
        exact rule.onRead hI hfirst
    · next hreads =>
        cases hfirst
        rw [if_neg hreads, List.append_nil]
        exact rule.turn calls w hI
  rcases hsecond with rfl | ⟨-, -, hsecond⟩
  · exact hK₁
  · exact rule.onWrite hK₁ hsecond

end Rule

section Closing

variable {cfg : Config} {h : HttpId} {w w' : World}

/-- Closing a connection marks it and leaves its buffers alone. -/
theorem httpClose_https
    (hok : HttpConnection.close (HttpServer.callbacks cfg) w h = .ok w') :
    w'.https h = { w.https h with state := .CLOSED } := by
  by_cases hclosed : (w.https h).state = .CLOSED
  · rw [HttpConnection.close, if_pos hclosed, Except.ok.injEq] at hok
    rw [← hok, ← hclosed]
  · obtain ⟨w₁, hclose, rfl⟩ := HttpConnection.close_cases hclosed hok
    have hend (w₁ : World) :
        (if (w₁.https h).upgraded then w₁ else w₁.closeFd (w₁.https h).fd).https = w₁.https := by
      split <;> rfl
    rw [hend, ← HttpConnection.https_detached]
    rcases HttpServer.onClose_cases hclose with ⟨-, -, w₂, hadopt, rfl⟩ | ⟨-, rfl⟩
    · exact congrFun (adoptConnection_spec rfl hadopt).2.1 h
    · rfl

/-- Closing a connection adds an entry to the history if the descriptor is handed over. -/
theorem httpClose_entry
    (hok : HttpConnection.close (HttpServer.callbacks cfg) w h = .ok w') :
    w'.trace = w.trace ∨
      (w.https h).state ≠ .CLOSED ∧ (w.https h).upgraded = true ∧
        w'.trace = w.trace ++
          [.adopt (w.sockets (w.https h).fd) w.wsAllocated (w.https h).upgradedUser] := by
  by_cases hclosed : (w.https h).state = .CLOSED
  · rw [HttpConnection.close, if_pos hclosed, Except.ok.injEq] at hok
    exact .inl (by rw [hok])
  · obtain ⟨w₁, hclose, rfl⟩ := HttpConnection.close_cases hclosed hok
    have hend (w₁ : World) :
        (if (w₁.https h).upgraded then w₁ else w₁.closeFd (w₁.https h).fd).trace = w₁.trace := by
      split <;> rfl
    rw [hend]
    rcases HttpServer.onClose_cases hclose with ⟨hup, -, w₂, hadopt, rfl⟩ | ⟨-, rfl⟩
    · have htrace := (adoptConnection_spec rfl hadopt).2.2.1
      rw [HttpConnection.https_detached] at hup htrace
      exact .inr ⟨hclosed, hup, htrace⟩
    · exact .inl rfl

end Closing

/-- Only the events of registered HTTP connections have calls. -/
theorem callsOf_of_not_http
    {cfg : Config} {w : World} {e : Event}
    (hother : ∀ fd events input sends h, e = .ready fd events input sends →
      w.reactor.contexts fd ≠ some (.http h)) :
    callsOf cfg w e = [] := by
  cases e with
  | ready fd events input sends =>
      rw [callsOf]
      cases ht : w.reactor.contexts fd with
      | none =>
          rfl
      | some t =>
          cases t with
          | http h =>
              exact absurd ht (hother fd events input sends h rfl)
          | ws x =>
              rfl
  | accept | clock | files =>
      rfl

end Web
end ChatRoom
