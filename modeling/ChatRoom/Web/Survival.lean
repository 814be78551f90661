import ChatRoom.Web.CallRule
import ChatRoom.Web.Lifetime

/-!
# What ends the server

None of the callbacks is called under a handler: an exception that leaves one of them ends
the server.  A step of the server fails in two cases, and in no others (`Lethal`): a request
is handled whose document has no text where the route looks for one, or the frames of a
WebSocket connection go on with a header whose length no vector can have, but which passes
the test for completeness.  The reactor itself never throws: a descriptor that `accept4`
returns is not in the epoll set, since the set has only descriptors that are in the table of
callbacks.

So a run of the server goes on to its end if and only if none of its events is lethal
(`server_survives_iff`).
-/

namespace ChatRoom
namespace Web

open Http Socket Runs Ws HttpServer Routes

/-- The bytes begin with a header whose length no vector can have, and `pos + plen` passes
the test for completeness. -/
def Oversized (bs : Bytes) : Prop :=
  2 + extensionLength (memory bs) ≤ bs.length ∧ ¬ ReservedBits (memory bs) ∧
    Masked (memory bs) ∧ VECTOR_MAX_SIZE < declaredLength (memory bs) ∧
      (headerLength (memory bs) + declaredLength (memory bs)) % 2 ^ 64 ≤ bs.length

/-- The loop over the frames comes to such a header. -/
inductive LethalFrames : Bytes → Prop where
  | here {bs : Bytes} (hsize : Oversized bs) : LethalFrames bs
  | behind {bs : Bytes} {r : Ws.DecodeResult} (hdecode : decodeBytes bs = .ok r)
      (hmore : r.consumed ≠ -1) (hvalid : r.consumed ≠ 0)
      (hgo : WsConnection.goesOn r.frame = true)
      (hrest : LethalFrames (bs.drop (WsConnection.toSize r.consumed))) : LethalFrames bs

/-- The bytes that a WebSocket connection decodes in an event. -/
def decodedIn (w : World) : Event → Option Bytes
  | .ready fd events input _ =>
      match w.reactor.contexts fd with
      | some (.ws x) =>
          if (events.failure || events.input) = true ∧ input.idle = .again then
            some ((w.wss x).readBuf.readable ++ input.pending)
          else
            none
      | _ => none
  | _ => none

/-- The event ends the server. -/
def Lethal (cfg : Config) (w : World) (e : Event) : Prop :=
  (∃ c ∈ callsOf cfg w e, MisshapenBody cfg.json c.world c.req) ∨
    ∃ bs, decodedIn w e = some bs ∧ LethalFrames bs

section Frames

variable {J : JsonLib} {x : WsId} {w : World} {bs : Bytes}

/-- A header of fourteen bytes is enough. -/
example : Oversized ([0x81, 0xFF] ++ List.replicate 8 0xFF ++ [0, 0, 0, 0]) := by
  unfold Oversized
  decide +kernel

/-- Decoding throws at a header of this kind only. -/
theorem decodeBytes_error_iff :
    (∃ e, decodeBytes bs = .error e) ↔ Oversized bs := by
  rw [decodeBytes, tryDecode_eq, Oversized]
  by_cases hlen : bs.length < 2
  · simp only [if_pos hlen, reduceCtorEq, exists_false, false_iff, not_and]
    omega
  rw [if_neg hlen]
  by_cases hrsv : ReservedBits (memory bs)
  · simp [hrsv]
  rw [if_neg hrsv]
  by_cases hext : bs.length < 2 + extensionLength (memory bs)
  · simp only [if_pos hext, reduceCtorEq, exists_false, false_iff, not_and]
    omega
  rw [if_neg hext]
  by_cases hmasked : Masked (memory bs)
  · rw [if_neg (not_not.mpr hmasked)]
    by_cases hmore : bs.length <
        (headerLength (memory bs) + declaredLength (memory bs)) % 2 ^ 64
    · simp only [if_pos hmore, reduceCtorEq, exists_false, false_iff, not_and]
      omega
    rw [if_neg hmore]
    by_cases hmax : declaredLength (memory bs) > VECTOR_MAX_SIZE
    · simp only [if_pos hmax, Except.error.injEq, exists_eq', true_iff]
      exact ⟨Nat.not_lt.mp hext, hrsv, hmasked, hmax, Nat.not_lt.mp hmore⟩
    · simp [hmax]
  · simp [hmasked]

theorem toInt_bounds
    (n : Nat) :
    -2 ^ 31 ≤ toInt n ∧ toInt n < 2 ^ 31 := by
  unfold toInt
  rw [Int.bmod_def]
  constructor
  · omega
  · omega

/-- The count of a frame is an `int`. -/
theorem consumed_bounds
    {r : Ws.DecodeResult} (hdecode : decodeBytes bs = .ok r) :
    -2 ^ 31 ≤ r.consumed ∧ r.consumed < 2 ^ 31 := by
  have hnone {r' : Ws.DecodeResult} (hr : .ok r' = (.ok r : Except Exn Ws.DecodeResult))
      (hsmall : r'.consumed = -1 ∨ r'.consumed = 0) :
      -2 ^ 31 ≤ r.consumed ∧ r.consumed < 2 ^ 31 := by
    rw [← Except.ok.inj hr]
    omega
  rw [decodeBytes, tryDecode_eq] at hdecode
  split at hdecode
  · exact hnone hdecode (.inl rfl)
  split at hdecode
  · exact hnone hdecode (.inr rfl)
  split at hdecode
  · exact hnone hdecode (.inl rfl)
  split at hdecode
  · exact hnone hdecode (.inr rfl)
  split at hdecode
  · exact hnone hdecode (.inl rfl)
  split at hdecode
  · cases hdecode
  · have hcount := congrArg Ws.DecodeResult.consumed (Except.ok.inj hdecode)
    have hint := toInt_bounds (headerLength (memory bs) + declaredLength (memory bs))
    dsimp only at hcount
    rwa [hcount] at hint

/-- A frame takes at least one byte off the buffer. -/
theorem toSize_consumed_pos
    {r : Ws.DecodeResult} (hdecode : decodeBytes bs = .ok r) (hvalid : r.consumed ≠ 0) :
    0 < WsConnection.toSize r.consumed := by
  have hbounds := consumed_bounds hdecode
  rw [WsConnection.toSize]
  omega

theorem not_lethalFrames_nil :
    ¬ LethalFrames [] := by
  intro hlethal
  cases hlethal with
  | here hsize =>
      exact absurd hsize.1 (by simp)
  | behind hdecode hmore =>
      rw [decodeBytes_of_short (by decide)] at hdecode
      cases hdecode
      exact hmore rfl

/-- The loop throws if and only if it comes to such a header. -/
theorem frameRun_throws_iff
    {fuel : Nat} (hfuel : bs.length ≤ fuel) :
    (∃ e, (WsConnection.frameRun fuel bs).ending = .throws e) ↔ LethalFrames bs := by
  induction fuel generalizing bs with
  | zero =>
      obtain rfl : bs = [] := List.length_eq_zero_iff.mp (Nat.le_zero.mp hfuel)
      exact iff_of_false (fun ⟨_, hend⟩ => by cases hend) not_lethalFrames_nil
  | succ fuel ih =>
      rw [WsConnection.frameRun]
      cases hdecode : decodeBytes bs with
      | error e =>
          exact iff_of_true ⟨e, rfl⟩ (.here (decodeBytes_error_iff.mp ⟨e, hdecode⟩))
      | ok r =>
          have hsize : ¬ Oversized bs := by
            rw [← decodeBytes_error_iff, hdecode]
            rintro ⟨e, he⟩
            cases he
          have hlethal : LethalFrames bs ↔ r.consumed ≠ -1 ∧ r.consumed ≠ 0 ∧
              WsConnection.goesOn r.frame = true ∧
                LethalFrames (bs.drop (WsConnection.toSize r.consumed)) := by
            constructor
            · intro h
              cases h with
              | here h =>
                  exact absurd h hsize
              | behind hdecode' hmore hvalid hgo hrest =>
                  obtain rfl := Except.ok.inj (hdecode.symm.trans hdecode')
                  exact ⟨hmore, hvalid, hgo, hrest⟩
            · rintro ⟨hmore, hvalid, hgo, hrest⟩
              exact .behind hdecode hmore hvalid hgo hrest
          rw [hlethal]
          dsimp only
          by_cases hmore : r.consumed = -1
          · simp [hmore]
          by_cases hvalid : r.consumed = 0
          · simp [hvalid]
          rw [if_neg hmore, if_neg hvalid]
          by_cases hgo : WsConnection.goesOn r.frame = true
          · have hpos := toSize_consumed_pos hdecode hvalid
            have hdrop : (bs.drop (WsConnection.toSize r.consumed)).length ≤ fuel := by
              rw [List.length_drop]
              omega
            rw [if_pos hgo, ih hdrop]
            simp [hmore, hvalid, hgo]
          · simp [hgo]

/-- A readable event of a WebSocket connection. -/
theorem wsRead_returns_iff
    (J : JsonLib) (w : World) (x : WsId) (s : Input) :
    (∃ w', WsConnection.onRead (WsHub.callbacks J) w x s = .ok w') ↔
      ¬ (s.idle = .again ∧ LethalFrames ((w.wss x).readBuf.readable ++ s.pending)) := by
  by_cases hidle : s.idle = .again
  · obtain ⟨w₁, -, -, hread⟩ := WsConnection.onRead_frames
      (WsConnection.followedRule J x w) (.refl x w) hidle rfl
    rw [hread, ← frameRun_throws_iff (Nat.le_refl _)]
    cases (WsConnection.frameRun _ ((w.wss x).readBuf.readable ++ s.pending)).ending with
    | waits | rejects | refuses =>
        simp [WsConnection.LoopEnd.result]
    | throws e =>
        simp [WsConnection.LoopEnd.result, hidle]
  · obtain ⟨readBuf, hread⟩ := WsConnection.onRead_hangup (WsHub.callbacks J) w x hidle
    exact iff_of_true ⟨_, hread⟩ fun h => hidle h.1

end Frames

section Requests

variable {cfg : Config} {h : HttpId} {w : World} {req : HttpRequest}

/-- Bodies are misshapen for the routes of logins and messages only. -/
theorem not_misshapen_elsewhere
    {J : JsonLib} {path : Bytes} (hpath : path <+: req.path)
    (hlogin : ¬ bytes "/api/login" <+: path ∧ ¬ path <+: bytes "/api/login")
    (hmessages : ¬ bytes "/api/messages" <+: path ∧ ¬ path <+: bytes "/api/messages") :
    ¬ MisshapenBody J w req := by
  rintro ⟨-, j, -, ⟨hroute, -⟩ | ⟨hroute, -⟩⟩
  · rcases List.prefix_or_prefix_of_prefix hroute hpath with h | h
    · exact hlogin.1 h
    · exact hlogin.2 h
  · rcases List.prefix_or_prefix_of_prefix hroute hpath with h | h
    · exact hmessages.1 h
    · exact hmessages.2 h

/-- A route returns if and only if the body has the shape that it needs. -/
theorem route_returns_iff
    {J : JsonLib} {route : Bytes × (World → HttpId → HttpRequest → Except Exn World)}
    (hroute : route ∈ table J) (hpath : route.1 <+: req.path) :
    (∃ w', route.2 w h req = .ok w') ↔ ¬ MisshapenBody J w req := by
  simp only [table, List.mem_cons, List.not_mem_nil, or_false] at hroute
  rcases hroute with rfl | rfl | rfl | rfl
  · have hmessages : ¬ bytes "/api/messages" <+: req.path := by
      rw [← List.isPrefixOf_iff_prefix, Bool.not_eq_true]
      exact not_prefix_of_prefix (b := bytes "/api/login") hpath (by decide) (by decide)
    have hlogin : bytes "/api/login" <+: req.path := hpath
    rw [login_returns_iff]
    simp only [MisshapenBody, hmessages, hlogin, true_and, false_and, or_false]
    grind
  · have husers : bytes "/api/users" <+: req.path := hpath
    exact iff_of_true users_returns (not_misshapen_elsewhere husers (by decide) (by decide))
  · have hlogin : ¬ bytes "/api/login" <+: req.path := by
      rw [← List.isPrefixOf_iff_prefix, Bool.not_eq_true]
      exact not_prefix_of_prefix (b := bytes "/api/messages") hpath (by decide) (by decide)
    have hmessages : bytes "/api/messages" <+: req.path := hpath
    rw [messages_returns_iff]
    simp only [MisshapenBody, hmessages, hlogin, true_and, false_and, false_or]
    grind
  · have hlogout : bytes "/api/logout" <+: req.path := hpath
    exact iff_of_true logout_returns (not_misshapen_elsewhere hlogout (by decide) (by decide))

/-- For every state, a request is handled without an exception if and only if its body is not
misshapen. -/
theorem dispatch_returns_iff
    (cfg : Config) (w : World) (h : HttpId) (req : HttpRequest) :
    (∃ w', dispatch cfg w h req = .ok w') ↔ ¬ MisshapenBody cfg.json w req := by
  rw [dispatch]
  by_cases hup : isUpgrade req = true
  · rw [if_pos hup]
    refine iff_of_true ⟨_, rfl⟩ fun hbody => ?_
    exact absurd ((isUpgrade_method hup).symm.trans hbody.1) (by decide)
  rw [if_neg hup]
  cases hfind : (table cfg.json).find? fun route => route.1.isPrefixOf req.path with
  | some route =>
      have hpath : route.1.isPrefixOf req.path = true := by
        simpa using List.find?_some hfind
      exact route_returns_iff (List.mem_of_find?_eq_some hfind)
        (List.isPrefixOf_iff_prefix.mp hpath)
  | none =>
      refine iff_of_true ⟨_, rfl⟩ ?_
      rintro ⟨-, j, -, ⟨hpath, -⟩ | ⟨hpath, -⟩⟩
      · rw [find_login cfg.json hpath] at hfind
        cases hfind
      · rw [find_messages cfg.json hpath] at hfind
        cases hfind

/-- The loop over the requests returns if and only if all requests that it handles are
handled without an exception. -/
theorem requestLoop_returns_iff
    (fuel : Nat) (w : World) :
    (∃ w', HttpConnection.requestLoop (callbacks cfg) h fuel w = .ok w') ↔
      ∀ c ∈ callsOfLoop (callbacks cfg) h fuel w, ¬ MisshapenBody cfg.json c.world c.req := by
  induction fuel generalizing w with
  | zero =>
      exact iff_of_true ⟨w, rfl⟩ (by simp [callsOfLoop])
  | succ fuel ih =>
      rw [HttpConnection.requestLoop, callsOfLoop]
      generalize HttpRequest.new.parse (w.https h).readBuf = parsed
      obtain ⟨complete, req, readBuf⟩ := parsed
      dsimp only
      generalize w.setHttp h { w.https h with readBuf := readBuf } = w₁
      cases complete with
      | false =>
          exact iff_of_true ⟨w₁, rfl⟩ (by simp)
      | true =>
          rw [if_pos rfl, if_pos rfl]
          have hfirst := dispatch_returns_iff cfg w₁ h req
          have hcall : (callbacks cfg).onRequest w₁ h req = dispatch cfg w₁ h req := rfl
          rw [hcall]
          cases hdispatch : dispatch cfg w₁ h req with
          | error e =>
              rw [hdispatch] at hfirst
              simp only [reduceCtorEq, exists_false, false_iff, not_not] at hfirst
              simp [Except.bind, hfirst]
          | ok w₂ =>
              rw [hdispatch] at hfirst
              simp only [Except.ok.injEq, exists_eq', true_iff] at hfirst
              simp only [Except.bind, ih w₂, List.mem_cons, forall_eq_or_imp, hfirst,
                not_false_eq_true, true_and]

/-- Closing a connection does not throw. -/
theorem exists_httpClose
    (cfg : Config) (w : World) (h : HttpId) :
    ∃ w', HttpConnection.close (callbacks cfg) w h = .ok w' := by
  rw [HttpConnection.close]
  split
  · exact ⟨w, rfl⟩
  · obtain ⟨w₁, hclose⟩ := exists_onClose cfg w h
    have hfd : ((w.setHttp h { w.https h with state := .CLOSED }).https h).fd =
        (w.https h).fd := by
      simp [World.setHttp]
    rw [HttpConnection.detached] at hclose
    dsimp only
    rw [hfd]
    exact ⟨_, map_eq_ok.mpr ⟨w₁, hclose, rfl⟩⟩

theorem httpRead_returns_iff
    (w : World) (s : Input) :
    (∃ w', HttpConnection.onRead (callbacks cfg) w h s = .ok w') ↔
      ∀ c ∈ callsOfRead (callbacks cfg) w h s, ¬ MisshapenBody cfg.json c.world c.req := by
  rw [HttpConnection.onRead, callsOfRead]
  generalize recvLoop (s.pending.length + 1) (w.https h).readBuf s = received
  obtain ⟨readBuf, ending⟩ := received
  cases ending with
  | hangup =>
      exact iff_of_true (exists_httpClose cfg _ h) (by simp)
  | drained =>
      exact requestLoop_returns_iff _ _

/-- Writing does not throw. -/
theorem exists_httpWrite
    (cfg : Config) (w : World) (h : HttpId) (sends : List SendResult) :
    ∃ w', HttpConnection.onWrite (callbacks cfg) h w sends = .ok w' := by
  induction sends generalizing w with
  | nil =>
      rw [HttpConnection.onWrite]
      split
      · exact ⟨w, rfl⟩
      · split
        · exact exists_httpClose cfg w h
        · exact ⟨_, rfl⟩
  | cons result sends ih =>
      rw [HttpConnection.onWrite]
      split
      · split
        · exact ih _
        · exact ⟨w, rfl⟩
        · exact exists_httpClose cfg w h
        · exact exists_httpClose cfg w h
      · split
        · exact exists_httpClose cfg w h
        · exact ⟨_, rfl⟩

end Requests

section Survival

variable {cfg : Config} {w : World} {e : Event}

/-- A descriptor that is not open can be accepted. -/
theorem exists_onAccept
    (ho : Orderly w) (hlisted : w.reactor.Listed) {fd : Fd} (hnew : w.openFds fd = false) :
    ∃ w', HttpServer.onAccept w fd = .ok w' := by
  have hfree : w.reactor.contexts fd = none := by
    cases ht : w.reactor.contexts fd with
    | none =>
        rfl
    | some t =>
        obtain ⟨-, -, hopen, -⟩ := ho.registered ht
        rw [hnew] at hopen
        cases hopen
  obtain ⟨r, hadd⟩ := hlisted.exists_addFd hfree EPOLLIN (.http w.httpAllocated)
  have hstart : ∃ w', HttpConnection.start
      { w.setHttp w.httpAllocated (HttpConnection.new fd) with
        httpAllocated := w.httpAllocated + 1
        openFds := Function.update w.openFds fd true
        sockets := Function.update w.sockets fd w.nextSocket
        nextSocket := w.nextSocket + 1 } w.httpAllocated = .ok w' := by
    refine ⟨_, map_eq_ok.mpr ⟨r, ?_, rfl⟩⟩
    simpa [World.setHttp, HttpConnection.new] using hadd
  obtain ⟨w', hw'⟩ := hstart
  exact ⟨_, map_eq_ok.mpr ⟨w', hw', rfl⟩⟩

/-- An event of a registered connection fails if and only if its read callback does. -/
theorem handleEvent_returns_iff
    {fd : Fd} {t : Target} (ht : w.reactor.contexts fd = some t) (events : Ready)
    (input : Input) (sends : List SendResult) :
    (∃ w', handleEvent cfg w fd events input sends = .ok w') ↔
      ((events.failure || events.input) = true → ∃ w', readCallback cfg w input t = .ok w') := by
  have hwrite (w₁ : World) : ∃ w', (if events.output then writeCallback cfg w₁ sends t
      else .ok w₁) = .ok w' := by
    split
    · cases t with
      | http h =>
          exact exists_httpWrite cfg w₁ h sends
      | ws x =>
          exact ⟨_, rfl⟩
    · exact ⟨w₁, rfl⟩
  rw [handleEvent, ht]
  dsimp only
  cases hfailure : events.failure with
  | true =>
      simp
  | false =>
      rw [if_neg Bool.false_ne_true, Bool.false_or]
      constructor
      · rintro ⟨w', hok⟩ hinput
        rw [if_pos hinput] at hok
        obtain ⟨w₁, hread, -⟩ := bind_eq_ok.mp hok
        exact ⟨w₁, hread⟩
      · intro hread
        obtain ⟨w₁, hw₁⟩ : ∃ w₁, (if events.input then readCallback cfg w input t
            else .ok w) = .ok w₁ := by
          split
          · next hinput =>
              exact hread hinput
          · exact ⟨w, rfl⟩
        obtain ⟨w', hw'⟩ := hwrite w₁
        exact ⟨w', bind_eq_ok.mpr ⟨w₁, hw₁, hw'⟩⟩

/-- An event fails if and only if it is lethal. -/
theorem step_returns_iff
    (ho : Orderly w) (hlisted : w.reactor.Listed) (e : Event) :
    (∃ w', step cfg w e = .ok w') ↔ ¬ Lethal cfg w e := by
  cases e with
  | accept fd =>
      refine iff_of_true ?_ (by simp [Lethal, callsOf, decodedIn])
      rw [step]
      split
      · exact ⟨w, rfl⟩
      · next hopen =>
          exact exists_onAccept ho hlisted (Bool.eq_false_iff.mpr hopen)
  | clock | files =>
      exact iff_of_true ⟨_, rfl⟩ (by simp [Lethal, callsOf, decodedIn])
  | ready fd events input sends =>
      rw [step, Lethal, callsOf, decodedIn]
      cases ht : w.reactor.contexts fd with
      | none =>
          refine iff_of_true ⟨w, ?_⟩ (by simp)
          rw [handleEvent, ht]
      | some t =>
          rw [handleEvent_returns_iff ht]
          cases t with
          | http h =>
              rw [readCallback, httpRead_returns_iff]
              by_cases hreads : (events.failure || events.input) = true
              · simp [hreads]
              · simp [hreads]
          | ws x =>
              rw [readCallback, wsRead_returns_iff]
              by_cases hreads : (events.failure || events.input) = true
              · simp [hreads]
              · simp [hreads]

/-- The server goes on to the end of a run if and only if none of the events is lethal: no
request is handled whose body is misshapen for its route, and no frames go on with a length
that no vector can have. -/
theorem server_survives_iff
    (cfg : Config) (events : List Event) :
    (∃ w, runServer cfg events = .ok w) ↔
      Meets (fun w e => ¬ Lethal cfg w e) (step cfg) World.init events := by
  refine run_succeeds_iff (I := fun w => Orderly w ∧ w.reactor.Listed) ?_ ?_
    ⟨orderly_init, Reactor.listed_new⟩ events
  · rintro w e w' ⟨ho, hlisted⟩ hok
    exact ⟨ho.step hok, kept_step Reactor.listed_rule hlisted hok⟩
  · rintro w e ⟨ho, hlisted⟩
    exact step_returns_iff ho hlisted e

end Survival

end Web
end ChatRoom
