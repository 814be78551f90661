import ChatRoom.Lib.Outbox
import ChatRoom.Web.Locality

/-!
# Responses that wait for a wake-up

`HttpConnection::send` asks the reactor for `EPOLLOUT` unless `writing_` says that it
has.  When everything has left and the connection is kept, `onWrite` takes the request
back but leaves `writing_` as it is; what is answered next then waits in vain.  In a
run without such an answer nothing waits without a wake-up
(`responses_woken_iff`).
-/

namespace ChatRoom
namespace Web
namespace HttpConnection

open Http Socket Runs Text

/-- The output of a connection. -/
def outbox (w : World) (h : HttpId) : Outbox UInt8 where
  accepted := sentOn (w.sockets (w.https h).fd) w.trace
  pending := (w.https h).writeBuf.readable
  writing := (w.https h).writing
  armed := w.reactor.awaitsOutput (w.https h).fd

/-- What a handler answers to a request. -/
abbrev Answers :=
  World → HttpRequest → List HttpResponse

/-- A handler that sends its answers. -/
def answering (answers : Answers) (onClose : World → HttpId → Except Exn World) : Callbacks where
  onRequest w h req := .ok ((answers w req).foldl (fun w resp => send w h resp) w)
  onClose := onClose

/-- A call that concerns the output. -/
inductive OutputCall where
  | send (resp : HttpResponse)
  | onRead (s : Input) (answers : Answers)
  | onWrite (sends : List SendResult)

/-- The state after a call. -/
def outputCall (onClose : World → HttpId → Except Exn World) (h : HttpId) (w : World) :
    OutputCall → Except Exn World
  | .send resp => .ok (send w h resp)
  | .onRead s answers => onRead (answering answers onClose) w h s
  | .onWrite sends => onWrite (answering (fun _ _ => []) onClose) h w sends

/-- The connection is closed, or nothing waits without a wake-up. -/
def Waking (h : HttpId) (w : World) : Prop :=
  (w.https h).state = .ACTIVE → (outbox w h).Woken

/-- `writing_` is only set when `EPOLLOUT` is registered. -/
def FlagHolds (h : HttpId) (w : World) : Prop :=
  (w.https h).writing = true → w.reactor.awaitsOutput (w.https h).fd = true

/-- No complete request in the read buffer has an answer. -/
def Unanswered (answers : Answers) (h : HttpId) : Nat → World → Prop
  | 0, _ => True
  | fuel + 1, w =>
      let (complete, req, readBuf) := HttpRequest.new.parse (w.https h).readBuf
      let w := w.setHttp h { w.https h with readBuf := readBuf }
      complete = true → answers w req = [] ∧ Unanswered answers h fuel w

/-- An open connection answers only while its flag holds. -/
def AnswersWhileFlagHolds (h : HttpId) (w : World) : OutputCall → Prop
  | .send _ => (w.https h).state = .ACTIVE → FlagHolds h w
  | .onRead s answers =>
      let readBuf := (recvLoop (s.pending.length + 1) (w.https h).readBuf s).1
      (w.https h).state = .ACTIVE → s.idle = .again → FlagHolds h w ∨
        Unanswered answers h (readBuf.readableBytes + 1)
          (w.setHttp h { w.https h with readBuf := readBuf })
  | .onWrite _ => True

/-- The descriptor of the connection is in the epoll set. -/
def Polled (h : HttpId) (w : World) : Prop :=
  (w.reactor.interest (w.https h).fd).isSome = true

/-- The connection is closed, or its descriptor is in the epoll set. -/
def Listening (h : HttpId) (w : World) : Prop :=
  (w.https h).state = .ACTIVE → Polled h w

section Operations

variable {h : HttpId} {w w' : World} {onClose : World → HttpId → Except Exn World}

theorem toString_ne_nil
    (resp : HttpResponse) :
    resp.toString ≠ [] := by
  have hversion : bytes "HTTP/1.1 " ≠ [] := by decide
  simp [HttpResponse.toString, hversion]

@[simp] theorem state_send
    (w : World) (h : HttpId) (resp : HttpResponse) :
    ((send w h resp).https h).state = (w.https h).state := by
  by_cases hwriting : (w.https h).writing = true
  · simp [send, hwriting, World.setHttp]
  · simp [send, hwriting, World.setHttp]

theorem Polled.send
    (hpolled : Polled h w) (resp : HttpResponse) :
    Polled h (send w h resp) := by
  unfold Polled at *
  by_cases hwriting : (w.https h).writing = true
  · simpa [HttpConnection.send, hwriting, World.setHttp, World.note] using hpolled
  · simpa [HttpConnection.send, hwriting, World.setHttp, World.note, World.modifyFd,
      Reactor.isSome_interest_modifyFd] using hpolled

/-- `send` puts the response. -/
theorem outbox_send
    (hpolled : Polled h w) (resp : HttpResponse) :
    outbox (send w h resp) h = (outbox w h).put resp.toString := by
  unfold Polled at hpolled
  by_cases hwriting : (w.https h).writing = true
  · simp [outbox, Outbox.put, send, hwriting, World.setHttp, World.note, sentOn]
  · simp [outbox, Outbox.put, send, hwriting, World.setHttp, World.note, World.modifyFd, sentOn,
      Reactor.awaitsOutput_modifyFd hpolled, EPOLLINOUT]

theorem outbox_wrote
    (w : World) (h : HttpId) (n : Nat) :
    outbox (wrote w h n) h = (outbox w h).take n := by
  simp [outbox, Outbox.take, wrote, World.setHttp, World.note, sentOn]

theorem outbox_drained
    (hpolled : Polled h w) :
    outbox (w.modifyFd (w.https h).fd EPOLLIN) h = (outbox w h).disarm := by
  unfold Polled at hpolled
  simp [outbox, Outbox.disarm, World.modifyFd, Reactor.awaitsOutput_modifyFd hpolled, EPOLLIN]

/-- How handling requests concerns a connection whose descriptor is in the epoll set. -/
structure Replied (h : HttpId) (unanswered : Prop) (w w' : World) : Prop where
  state : (w'.https h).state = (w.https h).state
  polled : Polled h w → Polled h w'
  silent : unanswered → outbox w' h = outbox w h
  answered : Polled h w → ¬ unanswered → (outbox w h).Grows (outbox w' h)

/-- Answering a request. -/
theorem replied_answers
    (w : World) (h : HttpId) (resps : List HttpResponse) :
    Replied h (resps = []) w (resps.foldl (fun w resp => send w h resp) w) := by
  induction resps generalizing w with
  | nil =>
      exact
        { state := rfl
          polled := id
          silent := fun _ => rfl
          answered := fun _ hsome => absurd rfl hsome }
  | cons resp resps ih =>
      rw [List.foldl_cons]
      have hrest := ih (send w h resp)
      refine
        { state := hrest.state.trans (state_send w h resp)
          polled := fun hpolled => hrest.polled (hpolled.send resp)
          silent := fun hnil => by cases hnil
          answered := ?_ }
      intro hpolled _
      have hfirst : (outbox w h).Grows (outbox (send w h resp) h) :=
        ⟨resp.toString, toString_ne_nil resp, outbox_send hpolled resp⟩
      by_cases hresps : resps = []
      · rw [hrest.silent hresps]
        exact hfirst
      · exact hfirst.trans (hrest.answered (hpolled.send resp) hresps)

/-- Taking bytes off the read buffer does not concern the output. -/
theorem replied_readBuf
    (w : World) (h : HttpId) (readBuf : Buffer) :
    Replied h True w (w.setHttp h { w.https h with readBuf := readBuf }) where
  state := by simp [World.setHttp]
  polled hpolled := by simpa [Polled, World.setHttp] using hpolled
  silent _ := by simp [outbox, World.setHttp]
  answered _ hsome := absurd trivial hsome

theorem Replied.trans
    {first second : Prop} {w'' : World} (h₁ : Replied h first w w')
    (h₂ : Replied h second w' w'') :
    Replied h (first ∧ second) w w'' where
  state := h₂.state.trans h₁.state
  polled hpolled := h₂.polled (h₁.polled hpolled)
  silent hsilent := (h₂.silent hsilent.2).trans (h₁.silent hsilent.1)
  answered hpolled hsome := by
    by_cases hfirst : first
    · rw [← h₁.silent hfirst]
      exact h₂.answered (h₁.polled hpolled) fun hsecond => hsome ⟨hfirst, hsecond⟩
    · have hgrows := h₁.answered hpolled hfirst
      by_cases hsecond : second
      · rw [h₂.silent hsecond]
        exact hgrows
      · exact hgrows.trans (h₂.answered (h₁.polled hpolled) hsecond)

/-- The loop over the requests in the read buffer answers them. -/
theorem replied_requestLoop
    (onClose : World → HttpId → Except Exn World) (answers : Answers) (h : HttpId) (fuel : Nat)
    (w : World) :
    ∃ w', requestLoop (answering answers onClose) h fuel w = .ok w' ∧
      Replied h (Unanswered answers h fuel w) w w' := by
  induction fuel generalizing w with
  | zero =>
      exact ⟨w, rfl, rfl, id, fun _ => rfl, fun _ hsome => absurd trivial hsome⟩
  | succ fuel ih =>
      unfold requestLoop Unanswered
      generalize HttpRequest.new.parse (w.https h).readBuf = parsed
      obtain ⟨complete, req, readBuf⟩ := parsed
      dsimp only
      have hread := replied_readBuf w h readBuf
      generalize w.setHttp h { w.https h with readBuf := readBuf } = w₁ at hread ⊢
      cases complete with
      | false =>
          refine ⟨w₁, rfl, ?_⟩
          simpa using hread
      | true =>
          have hanswers := replied_answers w₁ h (answers w₁ req)
          generalize hw₂ : (answers w₁ req).foldl (fun w resp => send w h resp) w₁ = w₂
            at hanswers
          obtain ⟨w', hloop, hrest⟩ := ih w₂
          refine ⟨w', ?_, ?_⟩
          · rw [if_pos rfl, ← hloop, ← hw₂]
            rfl
          · have hall := (hread.trans hanswers).trans hrest
            have hsame : ((True ∧ answers w₁ req = []) ∧ Unanswered answers h fuel w₂) ↔
                (true = true → answers w₁ req = [] ∧ Unanswered answers h fuel w₁) := by
              rw [true_and, forall_prop_of_true rfl]
              refine and_congr_right fun hnil => ?_
              rw [← hw₂, hnil, List.foldl_nil]
            rwa [hsame] at hall

/-- The close callback does not open the connection again. -/
def StaysClosed (h : HttpId) (onClose : World → HttpId → Except Exn World) : Prop :=
  ∀ w w', (w.https h).state = .CLOSED → onClose w h = .ok w' → (w'.https h).state = .CLOSED

variable {answers : Answers}

theorem state_close
    (hstays : StaysClosed h onClose) (hok : close (answering answers onClose) w h = .ok w') :
    (w'.https h).state = .CLOSED := by
  by_cases hclosed : (w.https h).state = .CLOSED
  · rw [close, if_pos hclosed] at hok
    cases hok
    exact hclosed
  · obtain ⟨w₁, hclose, rfl⟩ := close_cases hclosed hok
    have hw₁ : (w₁.https h).state = .CLOSED := hstays _ w₁ (by simp) hclose
    split
    · exact hw₁
    · exact hw₁

theorem listening_of_closed
    (hclosed : (w.https h).state = .CLOSED) :
    Listening h w := by
  intro hactive
  rw [hclosed] at hactive
  cases hactive

theorem waking_of_closed
    (hclosed : (w.https h).state = .CLOSED) :
    Waking h w := by
  intro hactive
  rw [hclosed] at hactive
  cases hactive

theorem Listening.wrote
    (hlistening : Listening h w) (n : Nat) :
    Listening h (wrote w h n) := by
  simpa [Listening, Polled, HttpConnection.wrote, World.setHttp, World.note] using hlistening

theorem Waking.wrote
    (hwaking : Waking h w) (n : Nat) :
    Waking h (wrote w h n) := by
  intro hactive
  rw [outbox_wrote]
  exact (hwaking (by simpa [HttpConnection.wrote, World.setHttp] using hactive)).take n

/-- A writable event leaves an open connection in the epoll set. -/
theorem Listening.onWrite
    (hstays : StaysClosed h onClose) (hlistening : Listening h w) {sends : List SendResult}
    (hok : onWrite (answering answers onClose) h w sends = .ok w') :
    Listening h w' := by
  obtain ⟨w₁, hw₁, rfl | hclose | ⟨-, rfl⟩⟩ :=
    onWrite_keeps (I := Listening h) (fun _ n hw => hw.wrote n) hlistening hok
  · exact hw₁
  · exact listening_of_closed (state_close hstays hclose)
  · intro hactive
    have hpolled := hw₁ hactive
    rw [Polled] at hpolled ⊢
    simpa [World.modifyFd, Reactor.isSome_interest_modifyFd] using hpolled

/-- A writable event does not leave output without a wake-up: the wake-up is only taken back
when nothing waits. -/
theorem Waking.onWrite
    (hstays : StaysClosed h onClose) (hlistening : Listening h w) (hwaking : Waking h w)
    {sends : List SendResult} (hok : onWrite (answering answers onClose) h w sends = .ok w') :
    Waking h w' := by
  obtain ⟨w₁, ⟨hlistening₁, hwaking₁⟩, rfl | hclose | ⟨hempty, rfl⟩⟩ :=
    onWrite_keeps (I := fun w => Listening h w ∧ Waking h w)
      (fun _ n hw => ⟨hw.1.wrote n, hw.2.wrote n⟩) ⟨hlistening, hwaking⟩ hok
  · exact hwaking₁
  · exact waking_of_closed (state_close hstays hclose)
  · intro hactive
    have hnil : (outbox w₁ h).pending = [] := Buffer.readable_eq_nil_iff.mpr hempty
    rw [outbox_drained (hlistening₁ hactive)]
    exact Outbox.woken_disarm hnil

/-- Answering leaves nothing without a wake-up iff nothing is answered, or the flag held. -/
theorem Replied.waking_iff
    {unanswered : Prop} (hreplied : Replied h unanswered w w')
    (hlistening : Listening h w) (hwaking : Waking h w) :
    Waking h w' ↔ ((w.https h).state = .ACTIVE → FlagHolds h w ∨ unanswered) := by
  rw [Waking, hreplied.state]
  refine forall_congr' fun hactive => ?_
  by_cases hnone : unanswered
  · rw [hreplied.silent hnone]
    exact iff_of_true (hwaking hactive) (.inr hnone)
  · rw [(hreplied.answered (hlistening hactive) hnone).woken_iff]
    exact (or_iff_left hnone).symm

end Operations

section Calls

variable {h : HttpId} {w w₀ w' : World} {fd : Fd}
variable {onClose : World → HttpId → Except Exn World}

theorem Replied.listening
    {unanswered : Prop} (hreplied : Replied h unanswered w w') (hlistening : Listening h w) :
    Listening h w' := by
  intro hactive
  rw [hreplied.state] at hactive
  exact hreplied.polled (hlistening hactive)

/-- A call of `send` answers. -/
theorem replied_send
    (w : World) (h : HttpId) (resp : HttpResponse) :
    Replied h False w (send w h resp) := by
  simpa using replied_answers w h [resp]

/-- A readable event answers the requests in the buffer, or closes the connection. -/
theorem onRead_cases
    (onClose : World → HttpId → Except Exn World) (answers : Answers) (w : World) (h : HttpId)
    (s : Input) :
    let readBuf := (recvLoop (s.pending.length + 1) (w.https h).readBuf s).1
    let w₁ := w.setHttp h { w.https h with readBuf := readBuf }
    (s.idle = .again ∧ ∃ w', onRead (answering answers onClose) w h s = .ok w' ∧
        Replied h (Unanswered answers h (readBuf.readableBytes + 1) w₁) w w') ∨
      s.idle ≠ .again ∧
        onRead (answering answers onClose) w h s = close (answering answers onClose) w₁ h := by
  intro readBuf w₁
  obtain ⟨-, hend⟩ := recvLoop_spec (s := s) (w.https h).readBuf (Nat.lt_succ_self _)
  rw [onRead]
  cases hrecv : recvLoop (s.pending.length + 1) (w.https h).readBuf s with
  | mk received ending =>
      have hreceived : readBuf = received := congrArg Prod.fst hrecv
      rw [hrecv] at hend
      cases ending with
      | drained =>
          obtain ⟨w', hloop, hreplied⟩ := replied_requestLoop onClose
            answers h (readBuf.readableBytes + 1) w₁
          refine .inl ⟨hend.mp rfl, w', ?_, ?_⟩
          · rw [← hloop, ← hreceived]
          · simpa using (replied_readBuf w h readBuf).trans hreplied
      | hangup =>
          refine .inr ⟨fun hidle => ?_, ?_⟩
          · cases hend.mpr hidle
          · rw [← hreceived]

theorem Listening.outputCall
    (hstays : StaysClosed h onClose) (hlistening : Listening h w)
    {c : OutputCall} (hok : outputCall onClose h w c = .ok w') :
    Listening h w' := by
  cases c with
  | send resp =>
      cases hok
      exact (replied_send w h resp).listening hlistening
  | onRead s answers =>
      rcases onRead_cases onClose answers w h s with
        ⟨-, w₁, hread, hreplied⟩ | ⟨-, hread⟩
      · rw [HttpConnection.outputCall, hread] at hok
        cases hok
        exact hreplied.listening hlistening
      · rw [HttpConnection.outputCall, hread] at hok
        exact listening_of_closed (state_close hstays hok)
  | onWrite sends =>
      exact hlistening.onWrite hstays hok

/-- A call leaves nothing without a wake-up iff what it answers is answered while the flag
holds. -/
theorem outputCall_waking_iff
    (hstays : StaysClosed h onClose) (hlistening : Listening h w) (hwaking : Waking h w)
    (c : OutputCall) :
    (∀ w', outputCall onClose h w c = .ok w' → Waking h w') ↔ AnswersWhileFlagHolds h w c := by
  cases c with
  | send resp =>
      rw [AnswersWhileFlagHolds]
      simpa [outputCall] using (replied_send w h resp).waking_iff hlistening hwaking
  | onRead s answers =>
      rw [AnswersWhileFlagHolds]
      rcases onRead_cases onClose answers w h s with
        ⟨hidle, w₁, hread, hreplied⟩ | ⟨hidle, hread⟩
      · rw [outputCall, hread]
        simpa [hidle] using hreplied.waking_iff hlistening hwaking
      · rw [outputCall, hread]
        refine iff_of_true ?_ fun _ hagain => absurd hagain hidle
        intro w' hclose
        exact waking_of_closed (state_close hstays hclose)
  | onWrite sends =>
      exact iff_of_true (fun w' hok => hwaking.onWrite hstays hlistening hok) trivial

/-- A new connection that is started waits for nothing. -/
theorem listening_start
    (hnew : w₀.https h = HttpConnection.new fd) (hstart : start w₀ h = .ok w) :
    Listening h w ∧ Waking h w := by
  obtain ⟨r, hadd, rfl⟩ := map_eq_ok.mp hstart
  obtain ⟨-, rfl⟩ := Reactor.addFd_eq_ok hadd
  refine ⟨fun _ => ?_, fun _ hpending => ?_⟩
  · simp [Polled]
  · simp [outbox, hnew, HttpConnection.new, Buffer.readable_new] at hpending

/-- In a run of a started connection nothing ever waits without a wake-up iff everything
that an open connection answers is answered while `writing_` is only set if `EPOLLOUT` is
registered. -/
theorem responses_woken_iff
    (hstays : StaysClosed h onClose) (hnew : w₀.https h = HttpConnection.new fd)
    (hstart : start w₀ h = .ok w) (calls : List OutputCall) :
    (∀ done w', done <+: calls → run (outputCall onClose h) w done = .ok w' → Waking h w') ↔
      Meets (AnswersWhileFlagHolds h) (outputCall onClose h) w calls := by
  obtain ⟨hlistening, hwaking⟩ := listening_start hnew hstart
  exact forall_passed_iff
    (fun w c hlistening hwaking => outputCall_waking_iff hstays hlistening hwaking c)
    (fun w c w' hlistening _ hok => hlistening.outputCall hstays hok) hlistening hwaking calls

/-- A connection on the descriptor 5. -/
def oneConnection : World :=
  { World.init with
    https := fun _ => HttpConnection.new 5
    openFds := fun _ => true }

/-- A response after which the connection is kept. -/
def keptResponse : HttpResponse :=
  (HttpResponse.new.setBody [65, 66]).setKeepAlive true

/-- Two responses; the kernel takes the output in parts. -/
def twoResponses : List OutputCall :=
  [.send keptResponse, .onWrite [.accepts 20, .again],
    .onRead { pending := bytes "GET / HTTP/1.1\r\n\r\n", sizes := [], idle := .again }
      (fun _ _ => [HttpResponse.new]),
    .onWrite [.accepts 1000]]

/-- The second response is sent when the first one has left. -/
def lateResponse : List OutputCall :=
  [.send keptResponse, .onWrite [.accepts 1000], .send keptResponse]

/-- The close callback of the server. -/
theorem staysClosed_server
    (cfg : Config) (h : HttpId) :
    StaysClosed h (HttpServer.onClose cfg) := by
  intro w w' hclosed hok
  rcases HttpServer.onClose_cases hok with ⟨-, -, w₁, hadopt, rfl⟩ | ⟨-, rfl⟩
  · obtain ⟨-, hhttps, -⟩ := adoptConnection_spec (h := h) rfl hadopt
    rw [← hhttps] at hclosed
    exact hclosed
  · exact hclosed

instance (h : HttpId) (w : World) : Decidable (FlagHolds h w) :=
  inferInstanceAs (Decidable (_ → _))

theorem responses_woken_iff_twoResponses :
    ∃ w, start oneConnection 0 = .ok w ∧
      ∀ done w', done <+: twoResponses →
        run (outputCall (HttpServer.onClose sampleConfig) 0) w done = .ok w' → Waking 0 w' := by
  obtain ⟨w, hstart, hflag⟩ := exists_ok_of_any (start oneConnection 0)
    (fun w => Meets (fun w _ => FlagHolds 0 w) (outputCall (HttpServer.onClose sampleConfig) 0) w
      twoResponses)
    (by decide +kernel)
  refine ⟨w, hstart, (responses_woken_iff (staysClosed_server sampleConfig 0) rfl hstart
    twoResponses).mpr ((of_decide_eq_true hflag).mono ?_)⟩
  intro w c hholds
  cases c with
  | send resp =>
      exact fun _ => hholds
  | onRead s answers =>
      exact fun _ _ => .inl hholds
  | onWrite sends =>
      trivial

/-- The second response waits without a wake-up. -/
theorem lateResponse_not_woken :
    ∃ w w', start oneConnection 0 = .ok w ∧
      run (outputCall (HttpServer.onClose sampleConfig) 0) w lateResponse = .ok w' ∧
        ¬ Waking 0 w' := by
  obtain ⟨w', hrun, htest⟩ := exists_ok_of_any
    ((start oneConnection 0).bind fun w =>
      run (outputCall (HttpServer.onClose sampleConfig) 0) w lateResponse)
    (fun w' => (w'.https 0).state = .ACTIVE ∧ (outbox w' 0).pending ≠ [] ∧
      (outbox w' 0).armed = false)
    (by decide +kernel)
  obtain ⟨w, hstart, hrest⟩ := bind_eq_ok.mp hrun
  obtain ⟨hactive, hpending, harmed⟩ := of_decide_eq_true htest
  refine ⟨w, w', hstart, hrest, fun hwaking => ?_⟩
  have := hwaking hactive hpending
  rw [harmed] at this
  cases this

end Calls

end HttpConnection
end Web
end ChatRoom
