import ChatRoom.Web.CallRule
import ChatRoom.Web.Lifetime
import ChatRoom.Web.Responses

/-!
# The connections that an event closes

The functions `lifeOf…` list a connection as released where the code calls the close
callback.  So they should list exactly the connections that are open before an event and
closed behind it (`released_iff_closed`).

An event closes at most the connection that it is about, and opens none that is closed.
`Releases` says this of a callback and its list, and is put together callback by callback.
-/

namespace ChatRoom
namespace Web

open Http Socket Runs

/-- A connection is open. -/
def IsOpen (w : World) : Target → Prop
  | .http h => (w.https h).state = .ACTIVE
  | .ws x => (w.wss x).state = .ACTIVE

/-- The list of a callback: it lists a connection as released if and only if it closes it. -/
structure Releases (t : Target) (life : List LifeObs) (w w' : World) : Prop where
  closed : .released t ∈ life ↔ IsOpen w t ∧ ¬ IsOpen w' t
  stays : IsOpen w' t → IsOpen w t
  only : ∀ t', .released t' ∈ life → t' = t

section Releases

variable {t : Target} {life more : List LifeObs} {w w' w'' : World}

/-- Nothing is released, and the connection stays as it is. -/
theorem Releases.of_quiet
    (hquiet : Quiet life) (hsame : IsOpen w' t ↔ IsOpen w t) :
    Releases t life w w' := by
  refine ⟨iff_of_false (hquiet t) ?_, hsame.mp, fun t' hmem => absurd hmem (hquiet t')⟩
  rintro ⟨hopen, hclosed⟩
  exact hclosed (hsame.mpr hopen)

theorem Releases.append
    (h : Releases t life w w') (h' : Releases t more w' w'') :
    Releases t (life ++ more) w w'' := by
  constructor
  case closed =>
    rw [List.mem_append, h.closed, h'.closed]
    constructor
    · rintro (⟨hopen, hclosed⟩ | ⟨hopen, hclosed⟩)
      · exact ⟨hopen, fun hopen'' => hclosed (h'.stays hopen'')⟩
      · exact ⟨h.stays hopen, hclosed⟩
    · rintro ⟨hopen, hclosed⟩
      by_cases hbetween : IsOpen w' t
      · exact .inr ⟨hbetween, hclosed⟩
      · exact .inl ⟨hopen, hbetween⟩
  case stays =>
    exact fun hopen => h.stays (h'.stays hopen)
  case only =>
    intro t' hmem
    rcases List.mem_append.mp hmem with hmem | hmem
    · exact h.only t' hmem
    · exact h'.only t' hmem

/-- Calling a callback releases nothing. -/
theorem Releases.called
    {o : LifeObs} (ho : ∀ t, o ≠ .released t) (h : Releases t life w w') :
    Releases t (o :: life) w w' := by
  have hcall : Quiet [o] := fun t hmem => ho t (List.mem_singleton.mp hmem).symm
  exact (Releases.of_quiet hcall Iff.rfl).append h

/-- What happens before makes no difference to the connection. -/
theorem Releases.of_same
    (hsame : IsOpen w' t ↔ IsOpen w t) (h : Releases t life w' w'') :
    Releases t life w w'' :=
  (Releases.of_quiet quiet_nil hsame).append h

/-- A callback that closes the connection releases it if it has been open. -/
theorem releases_of_closed
    {ends : Bool} (hends : ends = true ↔ IsOpen w t) (hclosed : ¬ IsOpen w' t) :
    Releases t (releaseIf t ends) w w' := by
  cases ends with
  | false =>
      have hnever : ¬ IsOpen w t := fun hopen => Bool.false_ne_true (hends.mpr hopen)
      exact .of_quiet quiet_nil (iff_of_false hclosed hnever)
  | true =>
      refine ⟨?_, fun hopen => absurd hopen hclosed, ?_⟩
      · exact iff_of_true List.mem_cons_self ⟨hends.mp rfl, hclosed⟩
      · intro t' hmem
        simpa [releaseIf] using hmem

/-- A callback that leaves the connection as it is releases nothing. -/
theorem releases_of_spared
    {ends : Bool} (hends : ends = false) (hsame : IsOpen w' t ↔ IsOpen w t) :
    Releases t (releaseIf t ends) w w' := by
  subst hends
  exact .of_quiet quiet_nil hsame

end Releases

section Http

variable {cfg : Config} {h : HttpId} {w w' : World}

theorem isOpen_http
    (hstate : (w'.https h).state = (w.https h).state) :
    IsOpen w' (.http h) ↔ IsOpen w (.http h) := by
  rw [IsOpen, IsOpen, hstate]

theorem HttpConnection.not_isOpen_close
    (hok : HttpConnection.close (HttpServer.callbacks cfg) w h = .ok w') :
    ¬ IsOpen w' (.http h) := by
  rw [IsOpen, httpClose_https hok]
  intro hopen
  cases hopen

/-- `HttpConnection::close` -/
theorem HttpConnection.lifeOfClose_releases
    (howned : Owned w (.http h))
    (hok : HttpConnection.close (HttpServer.callbacks cfg) w h = .ok w') :
    Releases (.http h) (HttpConnection.lifeOfClose cfg w h) w w' := by
  rw [lifeOfClose_eq cfg howned]
  exact releases_of_closed (by simp [IsOpen]) (not_isOpen_close hok)

/-- `HttpConnection::onRead` -/
theorem HttpConnection.lifeOfRead_releases
    (howned : Owned w (.http h)) {s : Input}
    (hok : HttpConnection.onRead (HttpServer.callbacks cfg) w h s = .ok w') :
    Releases (.http h) (HttpConnection.lifeOfRead cfg w h s) w w' := by
  rw [lifeOfRead_eq howned]
  by_cases hidle : s.idle = .again
  · obtain ⟨readBuf, -, hread⟩ :=
      HttpConnection.onRead_again (HttpServer.callbacks cfg) w h hidle
    rw [hread] at hok
    have hstate : (w'.https h).state = (w.https h).state := by
      refine HttpConnection.requestLoop_keeps
        (I := fun w₁ => (w₁.https h).state = (w.https h).state) ?_ ?_ ?_ hok
      · intro w₁ readBuf hw₁
        simpa [World.setHttp] using hw₁
      · intro w₁ req w₂ hw₁ hrequest
        exact (dispatch_keeps hrequest).2.trans hw₁
      · simp [World.setHttp]
    exact releases_of_spared (by simp [hidle]) (isOpen_http hstate)
  · obtain ⟨readBuf, hread⟩ :=
      HttpConnection.onRead_hangup (HttpServer.callbacks cfg) w h hidle
    rw [hread] at hok
    exact releases_of_closed (by simp [IsOpen, hidle]) (HttpConnection.not_isOpen_close hok)

/-- The end of `HttpConnection::onWrite`, when everything has been sent. -/
theorem HttpConnection.sent_releases
    (howned : Owned w (.http h))
    (hok : (if (w.https h).closeAfterWrite then
        HttpConnection.close (HttpServer.callbacks cfg) w h
      else
        .ok (w.modifyFd (w.https h).fd EPOLLIN)) = .ok w') :
    Releases (.http h)
      (if (w.https h).closeAfterWrite then HttpConnection.lifeOfClose cfg w h else []) w w' := by
  split at hok
  · next hcloses =>
      rw [if_pos hcloses]
      exact lifeOfClose_releases howned hok
  · next hkeeps =>
      rw [if_neg hkeeps]
      cases hok
      exact .of_quiet quiet_nil Iff.rfl

/-- `HttpConnection::onWrite` -/
theorem HttpConnection.lifeOfWrite_releases
    (howned : Owned w (.http h)) {sends : List SendResult}
    (hok : HttpConnection.onWrite (HttpServer.callbacks cfg) h w sends = .ok w') :
    Releases (.http h) (HttpConnection.lifeOfWrite cfg h w sends) w w' := by
  induction sends generalizing w with
  | nil =>
      rw [HttpConnection.onWrite] at hok
      rw [HttpConnection.lifeOfWrite]
      split at hok
      · next hleft =>
          rw [if_pos hleft]
          cases hok
          exact .of_quiet quiet_nil Iff.rfl
      · next hempty =>
          rw [if_neg hempty]
          exact sent_releases howned hok
  | cons result sends ih =>
      rw [HttpConnection.onWrite] at hok
      rw [HttpConnection.lifeOfWrite]
      split at hok
      · next hleft =>
          rw [if_pos hleft]
          cases hresult : sendResult w (w.https h).fd result with
          | accepts want =>
              rw [hresult] at hok
              dsimp only at hok ⊢
              generalize sendSize want (w.https h).writeBuf.readableBytes = n at hok ⊢
              have hconn : (HttpConnection.wrote w h n).https h =
                  { w.https h with writeBuf := (w.https h).writeBuf.consume n } :=
                Function.update_self _ _ _
              have howned' : Owned (HttpConnection.wrote w h n) (.http h) := by
                rw [Owned, hconn]
                exact howned
              exact (ih howned' hok).of_same (isOpen_http (by rw [hconn]))
          | again =>
              rw [hresult] at hok
              cases hok
              exact .of_quiet quiet_nil Iff.rfl
          | zero | error =>
              rw [hresult] at hok
              exact lifeOfClose_releases howned hok
      · next hempty =>
          rw [if_neg hempty]
          exact sent_releases howned hok

end Http

section Ws

variable {J : JsonLib} {x : WsId} {w w' : World}

theorem isOpen_ws
    (hstate : (w'.wss x).state = (w.wss x).state) :
    IsOpen w' (.ws x) ↔ IsOpen w (.ws x) := by
  rw [IsOpen, IsOpen, hstate]

theorem WsConnection.not_isOpen_close
    (J : JsonLib) (w : World) (x : WsId) :
    ¬ IsOpen (WsConnection.close (WsHub.callbacks J) w x) (.ws x) := by
  rw [IsOpen, (close_hub J w x).1]
  intro hopen
  cases hopen

/-- `WsConnection::close` -/
theorem WsConnection.lifeOfClose_releases
    (J : JsonLib) (w : World) (x : WsId) :
    Releases (.ws x) (WsConnection.lifeOfClose w x) w
      (WsConnection.close (WsHub.callbacks J) w x) := by
  rw [lifeOfClose_eq]
  exact releases_of_closed (by simp [IsOpen]) (not_isOpen_close J w x)

/-- The frames that the loop takes leave the connection as it is. -/
theorem stateRule
    (J : JsonLib) (x : WsId) (w : World) :
    WsConnection.FrameRule (WsHub.callbacks J) x fun _ w₁ =>
      (w₁.wss x).state = (w.wss x).state where
  keepsInput := WsConnection.keepsInput_hub J x
  receive := by
    intro done w₁ readBuf hw₁
    simpa [World.setWs] using hw₁
  dispatch := by
    intro done w₁ f hw₁ hgo
    exact (WsConnection.state_dispatch J w₁ x hgo).trans hw₁

/-- `WsConnection::onRead` -/
theorem WsConnection.lifeOfRead_releases
    {s : Input} (hok : WsConnection.onRead (WsHub.callbacks J) w x s = .ok w') :
    Releases (.ws x) (WsConnection.lifeOfRead (WsHub.callbacks J) w x s) w w' := by
  rw [lifeOfRead_eq]
  by_cases hidle : s.idle = .again
  · have hstart : (w.wss x).state = (w.wss x).state := rfl
    obtain ⟨w₁, hstate, -, hread⟩ :=
      @onRead_frames (WsHub.callbacks J) x _ (stateRule J x w) [] w hstart s hidle _ rfl
    rw [hok] at hread
    rw [received]
    generalize (frameRun _ _).ending = ending at hread ⊢
    cases ending with
    | waits =>
        cases hread
        exact releases_of_spared (by simp [LoopEnd.isError, hidle]) (isOpen_ws hstate)
    | rejects | refuses =>
        cases hread
        exact releases_of_closed (by simp [LoopEnd.isError, IsOpen]) (not_isOpen_close J w₁ x)
    | throws =>
        cases hread
  · obtain ⟨readBuf, hclose⟩ := onRead_hangup (WsHub.callbacks J) w x hidle
    rw [hclose, Except.ok.injEq] at hok
    subst hok
    have hclosed := not_isOpen_close J (w.setWs x { w.wss x with readBuf := readBuf }) x
    exact releases_of_closed (by simp [IsOpen, hidle]) hclosed

/-- The end of `WsConnection::onWrite`, when everything has been sent. -/
theorem WsConnection.sent_releases
    (J : JsonLib) (w : World) (x : WsId) :
    Releases (.ws x) (if (w.wss x).closeAfterWrite then WsConnection.lifeOfClose w x else []) w
      (if (w.wss x).closeAfterWrite then
        WsConnection.close (WsHub.callbacks J) w x
      else
        (w.modifyFd (w.wss x).fd EPOLLIN).setWs x { w.wss x with writing := false }) := by
  split
  · exact lifeOfClose_releases J w x
  · exact .of_quiet quiet_nil (isOpen_ws (by simp [World.setWs]))

/-- `WsConnection::onWrite` -/
theorem WsConnection.lifeOfWrite_releases
    (J : JsonLib) (x : WsId) (w : World) (sends : List SendResult) :
    Releases (.ws x) (WsConnection.lifeOfWrite x w sends) w
      (WsConnection.onWrite (WsHub.callbacks J) x w sends) := by
  induction sends generalizing w with
  | nil =>
      rw [WsConnection.onWrite, WsConnection.lifeOfWrite]
      split
      · exact .of_quiet quiet_nil Iff.rfl
      · exact sent_releases J w x
  | cons result sends ih =>
      rw [WsConnection.onWrite, WsConnection.lifeOfWrite]
      split
      · cases hresult : sendResult w (w.wss x).fd result with
        | accepts want =>
            dsimp only
            refine (ih _).of_same (isOpen_ws ?_)
            simp [WsConnection.wrote, World.setWs]
        | again =>
            exact .of_quiet quiet_nil Iff.rfl
        | zero | error =>
            exact lifeOfClose_releases J w x
      · exact sent_releases J w x

end Ws

section Events

variable {cfg : Config} {w w' : World} {t : Target} {fd : Fd} {e : Event}

theorem lifeOfRead_releases
    (howned : Owned w t) {input : Input} (hok : readCallback cfg w input t = .ok w') :
    Releases t (lifeOfRead cfg w input t) w w' := by
  cases t with
  | http h =>
      exact (HttpConnection.lifeOfRead_releases howned hok).called fun _ h => by cases h
  | ws x =>
      exact (WsConnection.lifeOfRead_releases hok).called fun _ h => by cases h

theorem lifeOfWrite_releases
    (howned : Owned w t) {sends : List SendResult} (hok : writeCallback cfg w sends t = .ok w') :
    Releases t (lifeOfWrite cfg w sends t) w w' := by
  cases t with
  | http h =>
      exact (HttpConnection.lifeOfWrite_releases howned hok).called fun _ h => by cases h
  | ws x =>
      cases hok
      exact (WsConnection.lifeOfWrite_releases cfg.json x w sends).called fun _ h => by cases h

/-- `Reactor::handleEvent` -/
theorem lifeOfEvent_releases
    (hr : Registry w.sessions) (ht : w.reactor.contexts fd = some t) {events : Ready}
    {input : Input} {sends : List SendResult}
    (hok : handleEvent cfg w fd events input sends = .ok w') :
    Releases t (lifeOfEvent cfg w fd events input sends) w w' := by
  have howned := hr.owned ht
  rw [handleEvent, ht] at hok
  rw [lifeOfEvent, ht]
  dsimp only at hok ⊢
  split at hok
  · next hfailure =>
      rw [if_pos hfailure]
      exact lifeOfRead_releases howned hok
  · next hfailure =>
      rw [if_neg hfailure]
      obtain ⟨w₁, hread, hwrite⟩ := bind_eq_ok.mp hok
      have hfirst : Releases t (if events.input then lifeOfRead cfg w input t else []) w w₁ ∧
          Owned w₁ t := by
        split at hread
        · next hinput =>
            rw [if_pos hinput]
            exact ⟨lifeOfRead_releases howned hread, hr.owned_read ht hread⟩
        · next hinput =>
            rw [if_neg hinput]
            cases hread
            exact ⟨.of_quiet quiet_nil Iff.rfl, howned⟩
      rw [hread]
      refine hfirst.1.append ?_
      dsimp only
      split at hwrite
      · next houtput =>
          rw [if_pos houtput]
          exact lifeOfWrite_releases hfirst.2 hwrite
      · next houtput =>
          rw [if_neg houtput]
          cases hwrite
          exact .of_quiet quiet_nil Iff.rfl

/-- A connection that an event is not about stays as it is. -/
theorem Aside.isOpen
    (haside : Aside t w w') {t' : Target} (hne : t ≠ t') (hallocated : w.sessions.Allocated t') :
    IsOpen w' t' ↔ IsOpen w t' := by
  cases t' with
  | http h =>
      exact isOpen_http (by rw [haside.https h hne])
  | ws x =>
      exact isOpen_ws (haside.wss x hne hallocated).2

theorem released_step_iff
    (hr : Registry w.sessions) (hok : step cfg w e = .ok w') {t : Target}
    (hallocated : w.sessions.Allocated t) :
    .released t ∈ lifeOfStep cfg w e ↔ IsOpen w t ∧ ¬ IsOpen w' t := by
  have hnothing (hlife : lifeOfStep cfg w e = []) (hsame : IsOpen w' t ↔ IsOpen w t) :
      .released t ∈ lifeOfStep cfg w e ↔ IsOpen w t ∧ ¬ IsOpen w' t := by
    rw [hlife]
    exact (Releases.of_quiet quiet_nil hsame).closed
  cases e with
  | clock now | files files =>
      cases hok
      exact hnothing rfl (by cases t <;> exact Iff.rfl)
  | accept fd =>
      refine hnothing rfl ?_
      rw [step] at hok
      split at hok
      · cases hok
        exact Iff.rfl
      · have hacc := onAccept_accepted hok
        cases t with
        | http h =>
            exact isOpen_http (by rw [hacc.https_of_lt hallocated])
        | ws x =>
            exact isOpen_ws (by rw [hacc.wss])
  | ready fd events input sends =>
      cases ht : w.reactor.contexts fd with
      | none =>
          rw [step, handleEvent, ht] at hok
          cases hok
          exact hnothing (by rw [lifeOfStep, lifeOfEvent, ht]) Iff.rfl
      | some owner =>
          have hreleases := lifeOfEvent_releases hr ht hok
          by_cases hown : owner = t
          · subst hown
            exact hreleases.closed
          · refine iff_of_false ?_ ?_
            · exact fun hmem => hown (hreleases.only t hmem).symm
            · rw [(handleEvent_aside ht hok).isOpen hown hallocated]
              exact fun hopen => hopen.2 hopen.1

end Events

/-- In every run of the server, an event lists a connection as released if and only if the
connection is open before the event and closed behind it. -/
theorem released_iff_closed
    {cfg : Config} {events : List Event} {w w' : World} {e : Event}
    (hrun : runServer cfg events = .ok w) (hok : step cfg w e = .ok w') {t : Target}
    (hallocated : w.sessions.Allocated t) :
    .released t ∈ lifeOfStep cfg w e ↔ IsOpen w t ∧ ¬ IsOpen w' t := by
  have hr : Registry w.sessions := by
    refine run_invariant (I := fun w => Registry w.sessions) ?_ registry_init hrun
    intro w e w' hr hok
    exact Acts.keeps (fun _ _ => registry_act)
      (step_acts (P := fun _ _ => True) (fun _ _ _ _ h => h) (fun _ _ => trivial) hok) hr
  exact released_step_iff hr hok hallocated

end Web
end ChatRoom
