import ChatRoom.Web.Broadcast
import ChatRoom.Web.Exchange

/-!
# How an HTTP connection ends

No response of the server keeps a connection open, so a connection is closed as soon as what
it has answered has left.  If its peer stays until then, nothing is lost: when the connection
is no longer registered, all its requests have been handled and a client has read all its
responses (`responses_complete`).

And this happens: once a connection has answered and its peer only takes what it gets, there
can be no more writable events than bytes in the write buffer before the connection is gone,
whatever happens to the other connections meanwhile (`responses_delivered`).
-/

namespace ChatRoom
namespace Web

open Http Socket Runs Incremental

/-- The peer of a connection does not close its end, and no `::send` fails. -/
def Stays (h : HttpId) (w : World) : Event → Prop
  | .ready fd events input sends =>
      w.reactor.contexts fd = some (.http h) →
        (events.failure = true ∨ events.input = true → input.idle = .again) ∧
          ∀ result ∈ sends, result ≠ .zero ∧ result ≠ .error
  | _ => True

/-- The peer of a connection says nothing. -/
def Listens (h : HttpId) (w : World) : Event → Prop
  | .ready fd events _ _ =>
      w.reactor.contexts fd = some (.http h) → events.failure = false ∧ events.input = false
  | _ => True

/-- The first `::send` of a writable event of a descriptor accepts something. -/
def Event.takesOn (fd : Fd) : Event → Bool
  | .ready fd' events _ (.accepts _ :: _) => fd' = fd && (events.output && !events.failure)
  | _ => false

/-- The connection has existed and is not registered. -/
def Departed (h : HttpId) (w : World) : Prop :=
  h < w.httpAllocated ∧ ∀ fd, w.reactor.contexts fd ≠ some (.http h)

section Writing

variable {cb : HttpConnection.Callbacks} {h : HttpId} {I : World → Prop} {w w' : World}

/-- If no `::send` fails, a writable event closes the connection when nothing is left to
send. -/
theorem onWrite_stays
    (hwrote : ∀ w n, I w → I (HttpConnection.wrote w h n)) (hI : I w)
    (hopen : w.openFds (w.https h).fd = true) {sends : List SendResult}
    (hsends : ∀ result ∈ sends, result ≠ .zero ∧ result ≠ .error)
    (hok : HttpConnection.onWrite cb h w sends = .ok w') :
    ∃ w₁, I w₁ ∧ (w' = w₁ ∨ (w₁.https h).writeBuf.readableBytes = 0 ∧
      (HttpConnection.close cb w₁ h = .ok w' ∨ w' = w₁.modifyFd (w₁.https h).fd EPOLLIN)) := by
  induction sends generalizing w with
  | nil =>
      rw [HttpConnection.onWrite] at hok
      split at hok
      · cases hok
        exact ⟨_, hI, .inl rfl⟩
      · next hempty =>
          have hnone := Nat.eq_zero_of_not_pos hempty
          split at hok
          · exact ⟨w, hI, .inr ⟨hnone, .inl hok⟩⟩
          · cases hok
            exact ⟨w, hI, .inr ⟨hnone, .inr rfl⟩⟩
  | cons result sends ih =>
      obtain ⟨hresult, hothers⟩ := List.forall_mem_cons.mp hsends
      rw [HttpConnection.onWrite, sendResult, if_pos hopen] at hok
      split at hok
      · cases result with
        | accepts want =>
            have hfd (n : Nat) : ((HttpConnection.wrote w h n).https h).fd = (w.https h).fd := by
              simp [HttpConnection.wrote, World.setHttp]
            refine ih (hwrote w _ hI) ?_ hothers hok
            rw [hfd]
            exact hopen
        | again =>
            cases hok
            exact ⟨_, hI, .inl rfl⟩
        | zero =>
            exact absurd rfl hresult.1
        | error =>
            exact absurd rfl hresult.2
      · next hempty =>
          have hnone := Nat.eq_zero_of_not_pos hempty
          split at hok
          · exact ⟨w, hI, .inr ⟨hnone, .inl hok⟩⟩
          · cases hok
            exact ⟨w, hI, .inr ⟨hnone, .inr rfl⟩⟩

/-- If `::send` accepts something, there is less to send afterwards, unless nothing is left
and the connection is closed. -/
theorem onWrite_takes
    (hends : (w.https h).closeAfterWrite = true) (hopen : w.openFds (w.https h).fd = true)
    {want : Nat} {sends : List SendResult}
    (hok : HttpConnection.onWrite cb h w (.accepts want :: sends) = .ok w') :
    (∃ w₁, HttpConnection.close cb w₁ h = .ok w') ∨
      (w'.https h).writeBuf.readableBytes < (w.https h).writeBuf.readableBytes := by
  rw [HttpConnection.onWrite, if_pos hends] at hok
  split at hok
  · next hsome =>
      rw [sendResult, if_pos hopen] at hok
      have hfewer (w₁ : World) (n : Nat)
          (hw₁ : (w₁.https h).writeBuf.readableBytes < (w.https h).writeBuf.readableBytes) :
          ((HttpConnection.wrote w₁ h n).https h).writeBuf.readableBytes <
            (w.https h).writeBuf.readableBytes := by
        have hconn : (HttpConnection.wrote w₁ h n).https h =
            { w₁.https h with writeBuf := (w₁.https h).writeBuf.consume n } :=
          Function.update_self _ _ _
        rw [hconn]
        dsimp only
        rw [Buffer.readableBytes_consume]
        omega
      have hfirst : ((HttpConnection.wrote w h
          (sendSize want (w.https h).writeBuf.readableBytes)).https h).writeBuf.readableBytes <
            (w.https h).writeBuf.readableBytes := by
        have hconn (n : Nat) : (HttpConnection.wrote w h n).https h =
            { w.https h with writeBuf := (w.https h).writeBuf.consume n } :=
          Function.update_self _ _ _
        rw [hconn]
        dsimp only
        rw [Buffer.readableBytes_consume, sendSize]
        omega
      obtain ⟨w₁, hw₁, hend⟩ := HttpConnection.onWrite_keeps
        (I := fun w₁ => (w₁.https h).writeBuf.readableBytes <
          (w.https h).writeBuf.readableBytes) (fun w₁ n hw₁ => hfewer w₁ n hw₁) hfirst hok
      rcases hend with rfl | hclose | ⟨-, rfl⟩
      · exact .inr hw₁
      · exact .inl ⟨w₁, hclose⟩
      · exact .inr hw₁
  · exact .inl ⟨w, hok⟩

end Writing

section Ending

variable {cfg : Config} {h : HttpId} {w w' : World}

/-- A connection that has answered is going to be closed. -/
def Ending (h : HttpId) (w : World) : Prop :=
  responsesTo h w.trace ≠ [] → (w.https h).closeAfterWrite = true

theorem ending_request
    {req : HttpRequest} (hok : HttpServer.dispatch cfg w h req = .ok w') :
    (w'.https h).closeAfterWrite = true := by
  obtain ⟨past, resp, hlast, -, hcloses⟩ := dispatch_plain hok
  obtain ⟨resp', w₁, -, rfl⟩ := dispatch_handled hok
  rw [trace_send] at hlast
  obtain ⟨-, heq⟩ := List.append_inj' hlast rfl
  cases heq
  rw [https_send, Function.update_self]
  dsimp only
  rw [hcloses, Bool.not_false, Bool.or_true]

theorem ending_http
    (cfg : Config) (h : HttpId) :
    HttpRule cfg h (Ending h) (Ending h) where
  receive w readBuf hw := by
    have hconn : (w.setHttp h { w.https h with readBuf := readBuf }).https h =
        { w.https h with readBuf := readBuf } := Function.update_self _ _ _
    intro hanswered
    rw [hconn]
    exact hw hanswered
  request _ _ _ _ hok _ := ending_request hok
  turn _ hw := hw
  wrote w n hw := by
    have hconn : (HttpConnection.wrote w h n).https h =
        { w.https h with writeBuf := (w.https h).writeBuf.consume n } :=
      Function.update_self _ _ _
    have hresponses : responsesTo h (HttpConnection.wrote w h n).trace =
        responsesTo h w.trace := by
      have htrace : (HttpConnection.wrote w h n).trace = w.trace ++
          [.wrote (w.sockets (w.https h).fd) ((w.https h).writeBuf.readable.take n)] := rfl
      rw [htrace, responsesTo_append]
      exact List.append_nil _
    rw [Ending, hresponses, hconn]
    exact hw
  flushed _ hw := hw
  close w w' hw hok := by
    have hresponses : responsesTo h w'.trace = responsesTo h w.trace := by
      rcases httpClose_entry hok with hsame | ⟨-, -, htrace⟩
      · rw [hsame]
      · rw [htrace, responsesTo_append]
        exact List.append_nil _
    rw [Ending, hresponses, httpClose_https hok]
    exact hw

theorem Ending.step
    (hw : Ending h w) (ho : Orderly w) {e : Event} (hok : step cfg w e = .ok w') :
    Ending h w' := by
  cases step_cases hok with
  | idle now files =>
      exact hw
  | accept hnew haccept =>
      have hacc := onAccept_accepted haccept
      rw [Ending, hacc.trace, hacc.https]
      intro hanswered
      by_cases hh : h = w.httpAllocated
      · exact absurd (ho.responsesTo_fresh (Nat.le_of_eq hh.symm)) hanswered
      · rw [Function.update_of_ne hh]
        exact hw hanswered
  | @handle fd events input sends t _ ht hhandle =>
      by_cases ht' : t = .http h
      · subst ht'
        exact (ending_http cfg h).handleEvent ht hw hhandle
      · have haside := handleEvent_aside ht hhandle
        rw [Ending, haside.responsesTo ht', haside.https h ht']
        exact hw

end Ending

section Serving

variable {cfg : Config} {events : List Event} {h : HttpId} {calls more : List RequestCall}
  {received : List Arrival} {seen : Bytes} {t : Target} {w w' : World} {e : Event}

/-- What is sent before the socket is passed on does not change in the events of others. -/
theorem sentBefore_aside
    (haside : Aside t w w') (hsocket : w.sockets (w.fdOf t) = h → PassedOn h w.trace) :
    sentBefore h w'.trace = sentBefore h w.trace := by
  obtain ⟨future, htrace, hfuture⟩ := haside.history
  by_cases hpast : PassedOn h w.trace
  · rw [htrace, sentBefore_append_passedOn hpast]
  · have hother : w.sockets (w.fdOf t) ≠ h := fun hs => hpast (hsocket hs)
    have hsent := haside.sentOn hother
    rw [htrace, sentOn_append, List.append_right_eq_self] at hsent
    rw [htrace]
    refine sentBefore_append_silent hsent ?_
    rintro ⟨o, ho, hpasses⟩
    have hconcerns := hfuture o ho
    cases o with
    | adopt s x u =>
        exact hother (hconcerns.1.symm.trans (of_decide_eq_true hpasses))
    | login | logout | message | upgrade | response | wrote | text =>
        cases hpasses

/-- Everything received has been handled, and if the connection is gone, everything answered
has been sent. -/
structure Served (h : HttpId) (calls : List RequestCall) (seen : Bytes) (w : World) : Prop where
  handled : requestsTo h calls = (requestDecoder.drain seen).items
  sent : Departed h w → sentBefore h w.trace = answered h w.trace

/-- The read callback is an event without output. -/
theorem step_read
    {w₁ : World} {fd : Fd} {events : Ready} {input : Input} (ht : w.reactor.contexts fd = some t)
    (hfirst : (if events.failure || events.input then readCallback cfg w input t else .ok w) =
      .ok w₁) :
    step cfg w (.ready fd { events with output := false } input []) = .ok w₁ := by
  rw [step, handleEvent, ht]
  dsimp only
  cases hfailure : events.failure with
  | true =>
      rw [hfailure, Bool.true_or, if_pos rfl] at hfirst
      rw [if_pos rfl]
      exact hfirst
  | false =>
      rw [hfailure, Bool.false_or] at hfirst
      rw [if_neg Bool.false_ne_true, hfirst]
      rfl

/-- If its peer is still there, a connection is registered when it has read, and nobody has
entered the hub. -/
theorem registered_read
    {w₁ : World} {fd : Fd} {events : Ready} {input : Input}
    (ht : w.reactor.contexts fd = some (.http h))
    (hidle : events.failure = true ∨ events.input = true → input.idle = .again)
    (hfirst : (if events.failure || events.input then
      readCallback cfg w input (.http h) else .ok w) = .ok w₁) :
    w₁.reactor.contexts fd = some (.http h) ∧ w₁.hub = w.hub := by
  split at hfirst
  · next hreads =>
      rw [Bool.or_eq_true] at hreads
      obtain ⟨readBuf, -, hread⟩ := HttpConnection.onRead_again
        (HttpServer.callbacks cfg) w h (hidle hreads)
      have hfirst : HttpConnection.onRead (HttpServer.callbacks cfg) w h input = .ok w₁ := hfirst
      rw [hread] at hfirst
      have hrule := acts_http (P := fun _ _ => True) cfg fd h w.sessions
      have hregistered := HttpConnection.requestLoop_keeps hrule.receive hrule.request
        (hrule.receive w readBuf ⟨.refl, ht⟩) hfirst
      have hset : (w.setHttp h { w.https h with readBuf := readBuf }).hub = w.hub := rfl
      refine ⟨hregistered.2, ?_⟩
      exact HttpConnection.requestLoop_keeps (I := fun w₁ => w₁.hub = w.hub)
        (fun _ _ hw₁ => hw₁) (fun _ _ _ hw₁ hcall => (dispatch_hub hcall).trans hw₁) hset hfirst
  · cases hfirst
    exact ⟨ht, rfl⟩

/-- A connection that is registered, with what is known of it. -/
structure Lasting (cfg : Config) (h : HttpId) (fd : Fd) (calls : List RequestCall) (w : World) :
    Prop where
  exchanged : Exchanged cfg h calls w
  onSocket : w.sockets (w.https h).fd = h
  kept : ¬ PassedOn h w.trace
  registered : w.reactor.contexts fd = some (.http h)

theorem Exchanging.lasting
    (hw : Exchanging cfg h calls received w) {fd : Fd}
    (ht : w.reactor.contexts fd = some (.http h)) :
    Lasting cfg h fd calls w := by
  have hfd : (w.https h).fd = fd := (hw.numbered.connections.registered fd _ ht).1
  obtain ⟨hsocket, -, hnot⟩ := hw.numbered.http fd h ht
  refine ⟨hw.exchanged, ?_, (passedOn_sessions h w).not.mp hnot, ht⟩
  rw [hfd]
  exact hsocket

theorem Lasting.wrote
    {fd : Fd} (hw : Lasting cfg h fd calls w) (n : Nat) :
    Lasting cfg h fd calls (HttpConnection.wrote w h n) := by
  obtain ⟨hsocket, hexchanged⟩ := (exchanged_http cfg h).wrote calls w n
    ⟨hw.onSocket, hw.exchanged⟩
  refine ⟨hexchanged, hsocket, ?_, hw.registered⟩
  exact fun hpast => hw.kept ((passedOn_append_iff rfl).mp hpast)

/-- A connection that is closed with nothing left to send has sent everything. -/
theorem Lasting.sent_close
    {fd : Fd} (hw : Lasting cfg h fd calls w) (hempty : (w.https h).writeBuf.readableBytes = 0)
    (hok : HttpConnection.close (HttpServer.callbacks cfg) w h = .ok w') :
    sentBefore h w'.trace = answered h w'.trace := by
  have hnone : (w.https h).writeBuf.readable = [] := by
    rw [← List.length_eq_zero_iff, Buffer.length_readable]
    exact hempty
  have hwhole := hw.exchanged.whole hw.kept
  rw [hnone, List.append_nil] at hwhole
  rcases httpClose_entry hok with hsame | ⟨-, -, htrace⟩
  · rw [hsame, sentBefore_kept hw.kept, hwhole]
  · have hresponses : responsesTo h w'.trace = responsesTo h w.trace := by
      rw [htrace, responsesTo_append]
      exact List.append_nil _
    rw [answered_eq, hresponses, ← answered_eq, ← hwhole, htrace, hw.onSocket,
      sentBefore_passOn hw.kept]

/-- An event of a connection whose peer stays: it leaves the connection registered, or the
connection is closed with nothing left to send, and that is the last thing that happens. -/
theorem handleEvent_ends
    (hw : Exchanging cfg h calls received w) {fd : Fd} {events : Ready} {input : Input}
    {sends : List SendResult} (ht : w.reactor.contexts fd = some (.http h))
    (hstays : Stays h w (.ready fd events input sends))
    (hok : handleEvent cfg w fd events input sends = .ok w') :
    requestsTo h (calls ++ callsOf cfg w (.ready fd events input sends)) =
        (requestDecoder.drain (bytesFor (.http h)
          (received ++ arrivals w (.ready fd events input sends)))).items ∧
      (w'.reactor.contexts fd = some (.http h) ∧ w'.hub = w.hub ∨
        ∃ w₁, Lasting cfg h fd (calls ++ callsOf cfg w (.ready fd events input sends)) w₁ ∧
          w₁.hub = w.hub ∧ (w₁.https h).writeBuf.readableBytes = 0 ∧
            HttpConnection.close (HttpServer.callbacks cfg) w₁ h = .ok w') := by
  obtain ⟨hidle, hsends⟩ := hstays ht
  obtain ⟨w₁, hfirst, hsecond⟩ := handleEvent_cases ht hok
  have hread : Exchanging cfg h (calls ++ callsOf cfg w (.ready fd events input sends))
      (received ++ arrivals w (.ready fd events input sends)) w₁ := by
    have hstep := hw.step (step_read ht hfirst)
    exact hstep
  obtain ⟨hregistered, hhub⟩ := registered_read ht hidle hfirst
  refine ⟨(hread.parsed.current fd hregistered).1, ?_⟩
  rcases hsecond with rfl | ⟨-, -, hsecond⟩
  · exact .inl ⟨hregistered, hhub⟩
  · obtain ⟨hfd, -, hopen⟩ := hread.numbered.connections.registered fd _ hregistered
    have hopen : w₁.openFds (w₁.https h).fd = true := by
      rw [show (w₁.https h).fd = fd from hfd]
      exact hopen
    obtain ⟨w₂, ⟨hw₂, hhub₂⟩, hend⟩ := onWrite_stays
      (I := fun w₂ => Lasting cfg h fd
        (calls ++ callsOf cfg w (.ready fd events input sends)) w₂ ∧ w₂.hub = w.hub)
      (fun w₂ n hw₂ => ⟨hw₂.1.wrote n, hw₂.2⟩) ⟨hread.lasting hregistered, hhub⟩
      hopen hsends hsecond
    rcases hend with rfl | ⟨hempty, hclose | rfl⟩
    · exact .inl ⟨hw₂.registered, hhub₂⟩
    · exact .inr ⟨w₂, hw₂, hhub₂, hempty, hclose⟩
    · refine .inl ⟨?_, hhub₂⟩
      rw [← hw₂.registered]
      exact congrFun (Reactor.contexts_modifyFd _ _ _) fd

/-- A connection whose peer stays is registered until it has nothing left to send. -/
theorem handleEvent_stays
    (hw : Exchanging cfg h calls received w) {fd : Fd} {events : Ready} {input : Input}
    {sends : List SendResult} (ht : w.reactor.contexts fd = some (.http h))
    (hstays : Stays h w (.ready fd events input sends))
    (hok : handleEvent cfg w fd events input sends = .ok w') :
    Served h (calls ++ callsOf cfg w (.ready fd events input sends))
      (bytesFor (.http h) (received ++ arrivals w (.ready fd events input sends))) w' := by
  obtain ⟨hhandled, hend⟩ := handleEvent_ends hw ht hstays hok
  refine ⟨hhandled, ?_⟩
  rintro ⟨-, hgone⟩
  rcases hend with ⟨hregistered, -⟩ | ⟨w₁, hw₁, -, hempty, hclose⟩
  · exact absurd hregistered (hgone fd)
  · exact hw₁.sent_close hempty hclose

/-- Being gone is for good. -/
theorem Departed.step
    (hw : Departed h w) (hok : step cfg w e = .ok w') :
    Departed h w' := by
  obtain ⟨hlt, hgone⟩ := hw
  cases step_cases hok with
  | idle now files =>
      exact ⟨hlt, hgone⟩
  | accept hnew haccept =>
      have hacc := onAccept_accepted haccept
      refine ⟨?_, ?_⟩
      · rw [hacc.httpAllocated]
        exact Nat.lt_succ_of_lt hlt
      · intro fd ht
        rw [hacc.contexts, Function.update_apply] at ht
        split at ht
        · cases ht
          exact Nat.lt_irrefl _ hlt
        · exact hgone fd ht
  | handle ht hhandle =>
      have haside := handleEvent_aside ht hhandle
      refine ⟨?_, fun fd ht' => hgone fd (haside.registered_http ht')⟩
      rw [haside.httpAllocated]
      exact hlt

/-- A step that has nothing to do with the connection. -/
theorem Served.aside
    (hv : Served h calls seen w) (hcalls : callsTo h more = [])
    (hdeparted : Departed h w' → Departed h w)
    (hsent : sentBefore h w'.trace = sentBefore h w.trace)
    (hanswered : answered h w'.trace = answered h w.trace) :
    Served h (calls ++ more) seen w' where
  handled := by
    have hmore : requestsTo h more = [] := by
      rw [requestsTo, hcalls]
      rfl
    rw [requestsTo_append, hmore, List.append_nil]
    exact hv.handled
  sent hgone := by
    rw [hsent, hanswered]
    exact hv.sent (hdeparted hgone)

theorem Served.step
    (hv : Served h calls (bytesFor (.http h) received) w)
    (hw : Exchanging cfg h calls received w) (hstays : Stays h w e)
    (hok : step cfg w e = .ok w') :
    Served h (calls ++ callsOf cfg w e) (bytesFor (.http h) (received ++ arrivals w e)) w' := by
  have hunseen (more : List RequestCall) (future : List Arrival) (hmore : more = [])
      (hfuture : future = []) (hdeparted : Departed h w' → Departed h w)
      (htrace : w'.trace = w.trace) :
      Served h (calls ++ more) (bytesFor (.http h) (received ++ future)) w' := by
    rw [hmore, hfuture, List.append_nil received]
    exact hv.aside rfl hdeparted (by rw [htrace]) (by rw [htrace])
  cases e with
  | clock now =>
      cases hok
      exact hunseen _ _ rfl rfl id rfl
  | files files =>
      cases hok
      exact hunseen _ _ rfl rfl id rfl
  | accept fd =>
      rw [Web.step] at hok
      split at hok
      · cases hok
        exact hunseen _ _ rfl rfl id rfl
      · next hnew =>
          have hacc := onAccept_accepted hok
          refine hunseen _ _ rfl rfl ?_ hacc.trace
          rintro ⟨hlt, hgone⟩
          rw [hacc.httpAllocated] at hlt
          rw [hacc.contexts] at hgone
          have hne : h ≠ w.httpAllocated := by
            rintro rfl
            exact hgone fd (Function.update_self _ _ _)
          refine ⟨Nat.lt_of_le_of_ne (Nat.le_of_lt_succ hlt) hne, fun fd' ht => ?_⟩
          have hfd : fd' ≠ fd := by
            rintro rfl
            exact hnew (hw.numbered.connections.registered fd' _ ht).2.2
          refine hgone fd' ?_
          rw [Function.update_of_ne hfd]
          exact ht
  | ready fd events input sends =>
      cases ht : w.reactor.contexts fd with
      | none =>
          rw [Web.step, handleEvent, ht] at hok
          cases hok
          exact hunseen _ _ (by rw [callsOf, ht]) (arrivals_unregistered ht) id rfl
      | some t =>
          by_cases ht' : t = .http h
          · subst ht'
            exact handleEvent_stays hw ht hstays hok
          · have haside := handleEvent_aside ht hok
            have hanswered : answered h w'.trace = answered h w.trace := haside.answered ht'
            have hsent := sentBefore_aside haside (hw.numbered.other_socket ht ht')
            rw [bytesFor_append, bytesFor_arrivals_other ht ht', List.append_nil]
            refine hv.aside (callsTo_other ht ht') ?_ hsent hanswered
            rintro ⟨hlt, hgone⟩
            rw [haside.httpAllocated] at hlt
            refine ⟨hlt, fun fd' ht₁ => hgone fd' ?_⟩
            rw [haside.contexts fd' ?_]
            · exact ht₁
            · rintro rfl
              have hfd : w.fdOf t = fd := by
                cases t with
                | http h' =>
                    exact (hw.numbered.connections.registered fd _ ht).1
                | ws x =>
                    exact (hw.numbered.connections.registered fd _ ht).1
              rw [hfd, ht] at ht₁
              exact ht' (Option.some.inj ht₁)

theorem served_init
    (h : HttpId) :
    Served h [] [] World.init where
  handled := by
    rw [Decoder.drain_wait (d := requestDecoder) [] rfl]
    rfl
  sent hgone := absurd hgone.1 (Nat.not_lt_zero _)

/-- In every run in which the peer of a connection stays, every request that it has received
is handled and gets a response; and when the connection is no longer registered, a client has
read all its responses. -/
theorem responses_complete
    (hrun : runServer cfg events = .ok w) {h : HttpId}
    (hstays : Meets (Stays h) (step cfg) World.init events) :
    requestsTo h (requestCalls cfg events) =
        (requestDecoder.drain (receivedBy cfg events h)).items ∧
      List.Forall₂ (RequestCall.AnsweredBy cfg) (callsTo h (requestCalls cfg events))
        (responsesTo h w.trace) ∧
      (Departed h w → (responseDecoder.drain (sentBefore h w.trace)).items =
        (responsesTo h w.trace).map HttpResponse.received) := by
  have hkeeps : ∀ calls received w₁ e w₂,
      Exchanging cfg h calls received w₁ ∧
          Served h calls (bytesFor (.http h) received) w₁ → Stays h w₁ e →
        step cfg w₁ e = .ok w₂ →
          Exchanging cfg h (calls ++ callsOf cfg w₁ e) (received ++ arrivals w₁ e) w₂ ∧
            Served h (calls ++ callsOf cfg w₁ e)
              (bytesFor (.http h) (received ++ arrivals w₁ e)) w₂ := by
    rintro calls received w₁ e w₂ ⟨hw, hv⟩ hstays hok
    exact ⟨hw.step hok, hv.step hw hstays hok⟩
  obtain ⟨hw, hv⟩ := outputs_invariant_both
    (I := fun calls received w => Exchanging cfg h calls received w ∧
      Served h calls (bytesFor (.http h) received) w)
    hkeeps ⟨exchanging_init cfg h, served_init h⟩ hstays hrun
  rw [List.nil_append, List.nil_append] at hw hv
  refine ⟨hv.handled, hw.exchanged.answers, fun hgone => ?_⟩
  have hsent := hv.sent hgone
  rw [answered_eq] at hsent
  have hfront : sentBefore h w.trace <+: (responsesTo h w.trace).flatMap HttpResponse.toString := by
    rw [hsent]
  obtain ⟨hitems, -, hall⟩ := drain_responses hw.exchanged.plain hfront
  refine hitems.eq_of_length (Nat.le_antisymm hitems.length_le ?_)
  exact (hall _ List.prefix_rfl (by rw [hsent])).length_le

end Serving

section Delivery

variable {cfg : Config} {front rest : List Event} {h : HttpId} {fd : Fd} {w w' : World}
  {e : Event}

/-- A connection that has been closed is gone. -/
theorem departed_of_close
    {w₁ : World} (hs : Numbered w'.sessions) (hlt : h < w'.httpAllocated)
    (hok : HttpConnection.close (HttpServer.callbacks cfg) w₁ h = .ok w') :
    Departed h w' := by
  refine ⟨hlt, fun fd ht => ?_⟩
  have hopen := (hs.http fd h ht).2.1
  have hstate := congrArg (·.state) (httpClose_https hok)
  exact hopen hstate

/-- A connection that is going to be closed when it has sent what is left. -/
structure Leaving (h : HttpId) (fd : Fd) (w : World) : Prop where
  numbered : Numbered w.sessions
  registered : w.reactor.contexts fd = some (.http h)
  ends : (w.https h).closeAfterWrite = true

/-- What is left to do: the bytes in the write buffer, and closing. -/
def leftToDo (h : HttpId) (w : World) : Nat :=
  (w.https h).writeBuf.readableBytes + 1

/-- An event of a connection that only listens: there is less to send, or it is gone. -/
theorem Leaving.handleEvent
    (hw : Leaving h fd w) {events : Ready} {input : Input} {sends : List SendResult}
    (hlistens : Listens h w (.ready fd events input sends))
    (hok : Web.step cfg w (.ready fd events input sends) = .ok w') :
    Departed h w' ∨ Leaving h fd w' ∧
      leftToDo h w' ≤
        leftToDo h w - (if Event.takesOn fd (.ready fd events input sends) then 1 else 0) := by
  have hs : Numbered w'.sessions := hw.numbered.step hok
  obtain ⟨hfd, hlt, hopen⟩ := hw.numbered.connections.registered fd _ hw.registered
  have haside : Aside (.http h) w w' := handleEvent_aside hw.registered hok
  have hlt : h < w'.httpAllocated := by
    rw [haside.httpAllocated]
    exact hlt
  have hgone {w₁ : World}
      (hclose : HttpConnection.close (HttpServer.callbacks cfg) w₁ h = .ok w') :
      Departed h w' := departed_of_close hs hlt hclose
  have hopen : w.openFds (w.https h).fd = true := by
    rw [show (w.https h).fd = fd from hfd]
    exact hopen
  obtain ⟨hfailure, hinput⟩ := hlistens hw.registered
  have hwrite : (if events.output then
      HttpConnection.onWrite (HttpServer.callbacks cfg) h w sends else .ok w) = .ok w' := by
    rw [Web.step, Web.handleEvent, hw.registered] at hok
    dsimp only at hok
    rw [hfailure, hinput, if_neg Bool.false_ne_true, if_neg Bool.false_ne_true] at hok
    exact hok
  cases houtput : events.output with
  | false =>
      rw [houtput] at hwrite
      cases hwrite
      have hnone : Event.takesOn fd (.ready fd events input sends) = false := by
        cases sends with
        | nil =>
            rfl
        | cons result sends =>
            cases result <;> simp [Event.takesOn, houtput]
      rw [hnone]
      exact .inr ⟨hw, Nat.le_refl _⟩
  | true =>
      rw [houtput, if_pos rfl] at hwrite
      have hwrote (w₁ : World) (n : Nat) (hw₁ : leftToDo h w₁ ≤ leftToDo h w ∧
          (w₁.https h).closeAfterWrite = true ∧ w₁.reactor.contexts = w.reactor.contexts) :
          leftToDo h (HttpConnection.wrote w₁ h n) ≤ leftToDo h w ∧
            ((HttpConnection.wrote w₁ h n).https h).closeAfterWrite = true ∧
              (HttpConnection.wrote w₁ h n).reactor.contexts = w.reactor.contexts := by
        obtain ⟨hless, hends, hcontexts⟩ := hw₁
        have hconn : (HttpConnection.wrote w₁ h n).https h =
            { w₁.https h with writeBuf := (w₁.https h).writeBuf.consume n } :=
          Function.update_self _ _ _
        refine ⟨Nat.le_trans ?_ hless, by rw [hconn]; exact hends, hcontexts⟩
        rw [leftToDo, hconn]
        dsimp only
        rw [Buffer.readableBytes_consume, leftToDo]
        omega
      obtain ⟨w₁, ⟨hless, hends, hcontexts⟩, hend⟩ :=
        HttpConnection.onWrite_keeps hwrote ⟨Nat.le_refl _, hw.ends, rfl⟩ hwrite
      have hkept : (∃ w₁, HttpConnection.close (HttpServer.callbacks cfg) w₁ h = .ok w') ∨
          Leaving h fd w' ∧ leftToDo h w' ≤ leftToDo h w := by
        have hregistered := hw.registered
        rw [← hcontexts] at hregistered
        rcases hend with rfl | hclose | ⟨-, rfl⟩
        · exact .inr ⟨⟨hs, hregistered, hends⟩, hless⟩
        · exact .inl ⟨w₁, hclose⟩
        · refine .inr ⟨⟨hs, ?_, hends⟩, hless⟩
          rw [← hregistered]
          exact congrFun (Reactor.contexts_modifyFd _ _ _) fd
      rcases hkept with ⟨w₂, hclose⟩ | ⟨hleaving, hless'⟩
      · exact .inl (hgone hclose)
      · cases sends with
        | nil =>
            exact .inr ⟨hleaving, hless'⟩
        | cons result sends =>
            cases result with
            | zero | again | error =>
                exact .inr ⟨hleaving, hless'⟩
            | accepts want =>
                rcases onWrite_takes hw.ends hopen hwrite with ⟨w₂, hclose⟩ | hfewer
                · exact .inl (hgone hclose)
                · have htakes : Event.takesOn fd (.ready fd events input
                      (.accepts want :: sends)) = true := by
                    simp [Event.takesOn, houtput, hfailure]
                  rw [htakes, if_pos rfl, leftToDo, leftToDo]
                  exact .inr ⟨hleaving, hfewer⟩

theorem Leaving.step
    (hw : Leaving h fd w) (hlistens : Listens h w e) (hok : Web.step cfg w e = .ok w') :
    Departed h w' ∨ Leaving h fd w' ∧
      leftToDo h w' ≤ leftToDo h w - (if e.takesOn fd then 1 else 0) := by
  have hs : Numbered w'.sessions := hw.numbered.step hok
  obtain ⟨-, hlt, hopen⟩ := hw.numbered.connections.registered fd _ hw.registered
  have hlt : h < w.httpAllocated := hlt
  have hopen : w.openFds fd = true := hopen
  have hother (hconn : w'.https h = w.https h)
      (hcontexts : w'.reactor.contexts fd = w.reactor.contexts fd)
      (htakes : e.takesOn fd = false) :
      Departed h w' ∨ Leaving h fd w' ∧
        leftToDo h w' ≤ leftToDo h w - (if e.takesOn fd then 1 else 0) := by
    refine .inr ⟨⟨hs, hcontexts.trans hw.registered, ?_⟩, ?_⟩
    · rw [hconn]
      exact hw.ends
    · rw [htakes, leftToDo, leftToDo, hconn]
      exact Nat.le_refl _
  cases e with
  | clock now =>
      cases hok
      exact hother rfl rfl rfl
  | files files =>
      cases hok
      exact hother rfl rfl rfl
  | accept fd' =>
      rw [Web.step] at hok
      split at hok
      · cases hok
        exact hother rfl rfl rfl
      · next hnew =>
          have hacc := onAccept_accepted hok
          have hfd : fd ≠ fd' := by
            rintro rfl
            exact hnew hopen
          refine hother ?_ ?_ rfl
          · rw [hacc.https, Function.update_of_ne (Nat.ne_of_lt hlt)]
          · rw [hacc.contexts, Function.update_of_ne hfd]
  | ready fd' events input sends =>
      by_cases hfd : fd' = fd
      · subst hfd
        exact hw.handleEvent hlistens hok
      · have htakes : Event.takesOn fd (.ready fd' events input sends) = false := by
          cases sends with
          | nil =>
              rfl
          | cons result sends =>
              cases result <;> simp [Event.takesOn, hfd]
        cases ht : w.reactor.contexts fd' with
        | none =>
            rw [Web.step, Web.handleEvent, ht] at hok
            cases hok
            exact hother rfl rfl htakes
        | some t =>
            have haside := handleEvent_aside ht hok
            have hfd' : w.fdOf t = fd' := by
              cases t with
              | http h' =>
                  exact (hw.numbered.connections.registered fd' _ ht).1
              | ws x =>
                  exact (hw.numbered.connections.registered fd' _ ht).1
            have hne : t ≠ .http h := by
              rintro rfl
              have hsame := (hw.numbered.connections.registered fd _ hw.registered).1
              exact hfd (hfd'.symm.trans hsame)
            refine hother (haside.https h hne) (haside.contexts fd ?_) htakes
            rw [hfd']
            exact Ne.symm hfd

theorem ending_runServer
    (hrun : runServer cfg front = .ok w) (h : HttpId) :
    Ending h w := by
  have hstart : Orderly World.init ∧ Ending h World.init :=
    ⟨orderly_init, fun hanswered => absurd rfl hanswered⟩
  refine (run_invariant (I := fun w => Orderly w ∧ Ending h w) ?_ hstart hrun).2
  rintro w₁ e w₂ ⟨ho, hw⟩ hok
  exact ⟨ho.step hok, hw.step ho hok⟩

/-- A connection has answered, and from then on its peer only takes what it gets.  Once
`::send` has accepted something more often than there were bytes to send, the connection is
gone and a client has read a response to every request, whatever the other connections do. -/
theorem responses_delivered
    (hfront : runServer cfg front = .ok w) (ht : w.reactor.contexts fd = some (.http h))
    (hanswered : responsesTo h w.trace ≠ [])
    (hstays : Meets (Stays h) (step cfg) World.init (front ++ rest))
    (hlistens : Meets (Listens h) (step cfg) w rest)
    (hrun : run (step cfg) w rest = .ok w')
    (hoften : (w.https h).writeBuf.readableBytes < rest.countP (Event.takesOn fd)) :
    Departed h w' ∧
      List.Forall₂ (RequestCall.AnsweredBy cfg) (callsTo h (requestCalls cfg (front ++ rest)))
        (responsesTo h w'.trace) ∧
      (responseDecoder.drain (sentBefore h w'.trace)).items =
        (responsesTo h w'.trace).map HttpResponse.received := by
  have hwhole : runServer cfg (front ++ rest) = .ok w' := run_append.mpr ⟨w, hfront, hrun⟩
  have hnumbered := (exchanging_runServer hfront h).numbered
  have hleaving : Leaving h fd w := ⟨hnumbered, ht, ending_runServer hfront h hanswered⟩
  have hends : Departed h w' ∨ Leaving h fd w' ∧
      leftToDo h w' ≤ leftToDo h w - rest.countP (Event.takesOn fd) :=
    run_wears_down (fun _ _ _ hgone hok => hgone.step hok)
      (fun _ _ _ hw hlistens hok => hw.step hlistens hok) hleaving hlistens hrun
  have hgone : Departed h w' := by
    rcases hends with hgone | ⟨-, hless⟩
    · exact hgone
    · rw [leftToDo, leftToDo] at hless
      omega
  obtain ⟨-, hanswers, hread⟩ := responses_complete hwhole hstays
  exact ⟨hgone, hanswers, hread hgone⟩

instance (h : HttpId) (w : World) :
    ∀ e, Decidable (Stays h w e)
  | .ready fd events input sends =>
      inferInstanceAs (Decidable (w.reactor.contexts fd = some (.http h) →
        (events.failure = true ∨ events.input = true → input.idle = .again) ∧
          ∀ result ∈ sends, result ≠ .zero ∧ result ≠ .error))
  | .accept _ => .isTrue trivial
  | .clock _ => .isTrue trivial
  | .files _ => .isTrue trivial

instance (h : HttpId) (w : World) :
    ∀ e, Decidable (Listens h w e)
  | .ready fd events _ _ =>
      inferInstanceAs (Decidable (w.reactor.contexts fd = some (.http h) →
        events.failure = false ∧ events.input = false))
  | .accept _ => .isTrue trivial
  | .clock _ => .isTrue trivial
  | .files _ => .isTrue trivial

/-- A connection that is registered for no descriptor of its own is gone. -/
theorem departed_of_unregistered
    (hrun : runServer cfg front = .ok w) (hlt : h < w.httpAllocated)
    (hnone : w.reactor.contexts (w.https h).fd = none) :
    Departed h w := by
  refine ⟨hlt, fun fd ht => ?_⟩
  have hfd : (w.https h).fd = fd :=
    ((orderly_runServer hrun).connections.registered fd _ ht).1
  rw [← hfd, hnone] at ht
  cases ht

theorem responses_complete_pipelinedRun :
    ∃ w, runServer sampleConfig pipelinedRun = .ok w ∧ (responsesTo 0 w.trace).length = 2 ∧
      requestsTo 0 (requestCalls sampleConfig pipelinedRun) =
        (requestDecoder.drain (receivedBy sampleConfig pipelinedRun 0)).items ∧
      (responseDecoder.drain (sentBefore 0 w.trace)).items =
        (responsesTo 0 w.trace).map HttpResponse.received := by
  have htest : meetsTest (fun w e => decide (Stays 0 w e)) (step sampleConfig) World.init
      pipelinedRun = true := by
    decide +kernel
  have hstays : Meets (Stays 0) (step sampleConfig) World.init pipelinedRun :=
    meets_of_test (fun _ _ => of_decide_eq_true) htest
  obtain ⟨w, hrun, hw⟩ := exists_ok_of_any
    (runServer sampleConfig pipelinedRun)
    (fun w => (responsesTo 0 w.trace).length = 2 ∧ 0 < w.httpAllocated ∧
      w.reactor.contexts (w.https 0).fd = none)
    (by decide +kernel)
  obtain ⟨htwo, hlt, hnone⟩ := of_decide_eq_true hw
  obtain ⟨hhandled, -, hread⟩ := responses_complete hrun hstays
  exact ⟨w, hrun, htwo, hhandled, hread (departed_of_unregistered hrun hlt hnone)⟩

/-- The client takes what it gets, again and again. -/
def takingRun : List Event :=
  List.replicate 512 (writable 5)

theorem responses_delivered_takingRun :
    ∃ w, runServer sampleConfig (pipelinedRequests ++ takingRun) = .ok w ∧ Departed 0 w ∧
      (responseDecoder.drain (sentBefore 0 w.trace)).items =
        (responsesTo 0 w.trace).map HttpResponse.received := by
  obtain ⟨w₀, hfront, hw₀⟩ := exists_ok_of_any
    (runServer sampleConfig pipelinedRequests)
    (fun w₀ => w₀.reactor.contexts 5 = some (.http 0) ∧ responsesTo 0 w₀.trace ≠ [] ∧
      (w₀.https 0).writeBuf.readableBytes < takingRun.countP (Event.takesOn 5) ∧
      meetsTest (fun w e => decide (Listens 0 w e)) (step sampleConfig) w₀ takingRun = true ∧
      (run (step sampleConfig) w₀ takingRun).toOption.any (fun _ => true) = true)
    (by decide +kernel)
  obtain ⟨ht, hanswered, hoften, hlisten, hsome⟩ := of_decide_eq_true hw₀
  obtain ⟨w, hrun, -⟩ := exists_ok_of_any _ _ hsome
  have htest : meetsTest (fun w e => decide (Stays 0 w e)) (step sampleConfig) World.init
      (pipelinedRequests ++ takingRun) = true := by
    decide +kernel
  have hstays : Meets (Stays 0) (step sampleConfig) World.init (pipelinedRequests ++ takingRun) :=
    meets_of_test (fun _ _ => of_decide_eq_true) htest
  have hlistens : Meets (Listens 0) (step sampleConfig) w₀ takingRun :=
    meets_of_test (fun _ _ => of_decide_eq_true) hlisten
  obtain ⟨hgone, -, hread⟩ :=
    responses_delivered hfront ht hanswered hstays hlistens hrun hoften
  exact ⟨w, run_append.mpr ⟨w₀, hfront, hrun⟩, hgone, hread⟩

end Delivery

end Web
end ChatRoom
