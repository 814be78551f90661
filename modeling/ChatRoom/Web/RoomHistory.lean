import ChatRoom.Web.EventRule
import ChatRoom.Web.Locality
import ChatRoom.Web.Responses
import Mathlib.Data.List.DropRight

/-!
# The history of the room

The room keeps the last `MAX_HISTORY` messages of those that have been added
(`RoomKept`), at every moment, so also when a request is handled in the middle of
an event.  `callsOf` lists the calls of `onRequest_` with the state in which they
happen; one of them may ask for the messages (`AsksMessages`), and is answered
with the kept ones behind a time stamp.
-/

namespace ChatRoom

/-- Adding a message to the last ones of a list. -/
theorem Room.messages_push
    {r : Room} {all : List Message} (hkept : r.messages = all.rtake MAX_HISTORY) (m : Message) :
    (r.push m).messages = (all ++ [m]).rtake MAX_HISTORY := by
  unfold Room.push
  dsimp only
  rw [hkept]
  unfold List.rtake MAX_HISTORY
  rw [List.length_append, List.length_append, List.length_drop, List.length_singleton]
  by_cases hfull : 200 ≤ all.length
  · have hdrop : all.length + 1 - 200 = all.length - 200 + 1 := by omega
    rw [if_pos (by omega), hdrop, List.drop_append_of_le_length (by omega), ← List.drop_drop,
      List.drop_one, List.tail_append_of_ne_nil]
    rw [ne_eq, List.drop_eq_nil_iff]
    omega
  · have hall : all.length - 200 = 0 := by omega
    have hall' : all.length + 1 - 200 = 0 := by omega
    rw [if_neg (by omega), hall, hall', List.drop_zero, List.drop_zero]

namespace Web

open Http Routes Runs

section Messages

/-- The messages for which `Room::addMessage` has been called. -/
def messagesOf (history : List Obs) : List Message :=
  history.filterMap fun
    | .message m _ _ => some m
    | _ => none

@[simp] theorem messagesOf_nil :
    messagesOf [] = [] := by
  rfl

@[simp] theorem messagesOf_append
    (past future : List Obs) :
    messagesOf (past ++ future) = messagesOf past ++ messagesOf future := by
  exact List.filterMap_append

@[simp] theorem messagesOf_message
    (m : Message) (source : Source) (users : UnorderedSet String) :
    messagesOf [.message m source users] = [m] := by
  rfl

/-- Other entries add no message. -/
theorem messagesOf_singleton
    {o : Obs} (ho : ∀ m source users, o ≠ .message m source users) :
    messagesOf [o] = [] := by
  cases o with
  | message m source users =>
      exact absurd rfl (ho m source users)
  | login | logout | upgrade | adopt | response | text | wrote =>
      rfl

theorem messagesOf_prefix
    {past history : List Obs} (h : past <+: history) :
    messagesOf past <+: messagesOf history := by
  obtain ⟨future, rfl⟩ := h
  exact ⟨messagesOf future, (messagesOf_append past future).symm⟩

theorem messagesOf_suffix
    {future history : List Obs} (h : future <:+ history) :
    messagesOf future <:+ messagesOf history := by
  obtain ⟨past, rfl⟩ := h
  exact ⟨messagesOf past, (messagesOf_append past future).symm⟩

/-- The room has the last messages that have been added. -/
def RoomKept (w : World) : Prop :=
  w.room.messages = (messagesOf w.trace).rtake Room.MAX_HISTORY

end Messages

section Kept

variable {J : JsonLib} {cfg : Config} {w w' : World}

theorem roomKept_init :
    RoomKept World.init := by
  rfl

/-- The room and what has been added stay as they are. -/
theorem RoomKept.of_eq
    (hw : RoomKept w) (hroom : w'.room.messages = w.room.messages)
    (hmessages : messagesOf w'.trace = messagesOf w.trace) :
    RoomKept w' := by
  rw [RoomKept, hroom, hmessages]
  exact hw

/-- An entry that is not a message. -/
theorem RoomKept.note
    (hw : RoomKept w) {o : Obs} (ho : ∀ m source users, o ≠ .message m source users) :
    RoomKept (w.note o) := by
  apply hw.of_eq
  · rfl
  · rw [World.note, messagesOf_append, messagesOf_singleton ho, List.append_nil]

theorem queue_room
    (w : World) (x : WsId) (frame : Bytes) :
    (WsConnection.queue w x frame).room = w.room := by
  obtain ⟨reactor, heq⟩ := WsConnection.queue_eq w x frame
  rw [heq]

theorem sendText_room
    (w : World) (x : WsId) (payload : Bytes) :
    (WsConnection.sendText w x payload).room = w.room := by
  unfold WsConnection.sendText
  split
  · rfl
  · exact queue_room w x _

/-- A broadcast does not return to the room. -/
theorem broadcast_room
    (J : JsonLib) (w : World) (m : Message) :
    (WsHub.broadcast J w m).room = w.room := by
  have hloop (ys : List WsId) (text : Bytes) (w : World) :
      (ys.foldl (WsConnection.announceTo text) w).room = w.room := by
    induction ys generalizing w with
    | nil =>
        rfl
    | cons y ys ih =>
        rw [List.foldl_cons, WsConnection.announceTo_eq, ih]
        exact sendText_room w y text
  exact hloop w.hub.elems (J.dump (WsHub.wsJson m)) w

/-- What `addMessage` does to the room and to the history. -/
theorem addMessage_room
    (J : JsonLib) (w : World) (m : Message) (source : Source) :
    (WsHub.addMessage J w m source).room = w.room.push m ∧
      (WsHub.addMessage J w m source).trace =
        w.trace ++ [.message m source w.room.users] := by
  refine ⟨?_, ?_⟩
  · rw [WsHub.addMessage, broadcast_room]
  · rw [WsHub.addMessage, (broadcast_frame J _ m).2]
    rfl

theorem RoomKept.addMessage
    (hw : RoomKept w) (J : JsonLib) (m : Message) (source : Source) :
    RoomKept (WsHub.addMessage J w m source) := by
  obtain ⟨hroom, htrace⟩ := addMessage_room J w m source
  rw [RoomKept, hroom, htrace, messagesOf_append, messagesOf_message]
  exact Room.messages_push hw m

theorem RoomKept.onText
    (hw : RoomKept w) (J : JsonLib) (x : WsId) (payload : Bytes) :
    RoomKept (WsHub.onText J w x payload) := by
  unfold WsHub.onText
  split
  · exact hw
  · exact hw.addMessage J _ _

theorem RoomKept.send
    (hw : RoomKept w) (h : HttpId) (resp : HttpResponse) :
    RoomKept (HttpConnection.send w h resp) := by
  apply hw.of_eq
  · rw [(room_send w h resp).1]
  · rw [trace_send, messagesOf_append, messagesOf_singleton (by simp), List.append_nil]

theorem RoomKept.dispatch
    (hw : RoomKept w) {h : HttpId} {req : HttpRequest}
    (hok : HttpServer.dispatch cfg w h req = .ok w') :
    RoomKept w' := by
  obtain ⟨resp, w₁, heff, rfl⟩ := dispatch_handled hok
  refine RoomKept.send ?_ h resp
  cases heff with
  | nothing =>
      exact hw
  | login u =>
      exact RoomKept.note (hw.of_eq rfl rfl) (by simp)
  | logout =>
      exact RoomKept.note (hw.of_eq rfl rfl) (by simp)
  | post m =>
      exact hw.addMessage cfg.json m _
  | upgrade tok =>
      exact RoomKept.note (hw.of_eq rfl rfl) (by simp)

theorem adoptConnection_room
    {fd : Fd} {user : String} (hok : WsHub.adoptConnection w fd user = .ok w') :
    w'.room = w.room ∧ w'.hub = w.hub.insert w.wsAllocated := by
  unfold WsHub.adoptConnection WsConnection.start at hok
  dsimp only at hok
  obtain ⟨w₁, hstart, rfl⟩ := map_eq_ok.mp hok
  obtain ⟨r, -, rfl⟩ := map_eq_ok.mp hstart
  exact ⟨rfl, rfl⟩

theorem RoomKept.httpClose
    (hw : RoomKept w) {h : HttpId}
    (hok : HttpConnection.close (HttpServer.callbacks cfg) w h = .ok w') :
    RoomKept w' := by
  by_cases hclosed : (w.https h).state = .CLOSED
  · rw [HttpConnection.close, if_pos hclosed, Except.ok.injEq] at hok
    exact hok ▸ hw
  · obtain ⟨w₁, hclose, rfl⟩ := HttpConnection.close_cases hclosed hok
    have hdetached : RoomKept (HttpConnection.detached w h) := hw.of_eq rfl rfl
    have hw₁ : RoomKept w₁ := by
      rcases HttpServer.onClose_cases hclose with ⟨-, -, w₂, hadopt, rfl⟩ | ⟨-, rfl⟩
      · have htrace := (adoptConnection_spec rfl hadopt).2.2.1
        refine RoomKept.of_eq (w := w₂) ?_ rfl rfl
        refine hdetached.of_eq ?_ ?_
        · rw [(adoptConnection_room hadopt).1]
        · rw [htrace, messagesOf_append, messagesOf_singleton (by simp), List.append_nil]
      · exact hdetached.of_eq rfl rfl
    split
    · exact hw₁
    · exact hw₁.of_eq rfl rfl

theorem roomKept_http
    (cfg : Config) (h : HttpId) :
    HttpRule cfg h RoomKept RoomKept where
  receive _ _ hw := hw.of_eq rfl rfl
  request _ _ _ hw hok := hw.dispatch hok
  turn _ hw := hw
  wrote _ _ hw := RoomKept.of_eq (hw.note (by simp)) rfl rfl
  flushed _ hw := hw.of_eq rfl rfl
  close _ _ hw hok := hw.httpClose hok

theorem RoomKept.wsClose
    (hw : RoomKept w) (J : JsonLib) (x : WsId) :
    RoomKept (WsConnection.close (WsHub.callbacks J) w x) := by
  unfold WsConnection.close
  split
  · exact hw
  · exact hw.of_eq rfl rfl

theorem roomKept_ws
    (J : JsonLib) (x : WsId) :
    WsRule J x RoomKept where
  receive _ _ hw := hw.of_eq rfl rfl
  dispatch w f _ hw := by
    have hqueue {w : World} (hw : RoomKept w) (frame : Bytes) :
        RoomKept (WsConnection.queue w x frame) :=
      hw.of_eq (by rw [queue_room]) (by rw [WsConnection.trace_queue])
    unfold WsConnection.dispatch
    split
    · exact (hw.note (by simp)).onText J x _
    · exact hqueue hw _
    · exact hw
    · exact hw.wsClose J x
    · have hset : RoomKept (w.setWs x { w.wss x with closeAfterWrite := true }) :=
        hw.of_eq rfl rfl
      exact hqueue hset _
    · exact hw.wsClose J x
  wrote _ _ hw := RoomKept.of_eq (hw.note (by simp)) rfl rfl
  flushed _ hw := hw.of_eq rfl rfl
  close _ hw := hw.wsClose J x

theorem onAccept_room
    {fd : Fd} (hok : HttpServer.onAccept w fd = .ok w') :
    w'.room = w.room ∧ w'.hub = w.hub := by
  unfold HttpServer.onAccept at hok
  dsimp only at hok
  obtain ⟨w₁, hstart, rfl⟩ := map_eq_ok.mp hok
  obtain ⟨r, -, rfl⟩ := map_eq_ok.mp hstart
  unfold HttpServer.emplaceConn
  split <;> exact ⟨rfl, rfl⟩

theorem RoomKept.step
    (hw : RoomKept w) {e : Event} (hok : step cfg w e = .ok w') :
    RoomKept w' := by
  cases step_cases hok with
  | idle now files =>
      exact hw
  | accept hnew haccept =>
      refine hw.of_eq ?_ (by rw [(onAccept_accepted haccept).trace])
      rw [(onAccept_room haccept).1]
  | @handle fd events input sends t _ ht hhandle =>
      cases t with
      | http h =>
          exact (roomKept_http cfg h).handleEvent ht hw hhandle
      | ws x =>
          exact (roomKept_ws cfg.json x).handleEvent ht hw hhandle

end Kept

section Calls

/-- The calls of `onRequest_` in an event. -/
def callsOf (cfg : Config) (w : World) : Event → List RequestCall
  | .ready fd events input _ =>
      match w.reactor.contexts fd with
      | some (.http h) =>
          if events.failure || events.input then
            callsOfRead (HttpServer.callbacks cfg) w h input
          else
            []
      | _ => []
  | _ => []

/-- The calls of `onRequest_` in a run of the server. -/
def requestCalls (cfg : Config) (events : List Event) : List RequestCall :=
  outputs (callsOf cfg) (step cfg) World.init events

/-- The calls happen one after the other between two states, and the room is kept. -/
structure Recorded (w : World) (calls : List RequestCall) (w' : World) : Prop where
  grows : w.trace <+: w'.trace
  after : ∀ c ∈ calls, w.trace <+: c.world.trace
  before : ∀ c ∈ calls, c.world.trace <+: w'.trace
  inOrder : calls.Pairwise fun c d => c.world.trace <+: d.world.trace
  kept : ∀ c ∈ calls, RoomKept c.world

variable {cfg : Config} {h : HttpId} {w w' w'' : World} {calls calls' : List RequestCall}

theorem Recorded.silent
    (hgrows : w.trace <+: w'.trace) :
    Recorded w [] w' := by
  refine ⟨hgrows, ?_, ?_, .nil, ?_⟩ <;> simp

theorem Recorded.append
    (hcalls : Recorded w calls w') (hcalls' : Recorded w' calls' w'') :
    Recorded w (calls ++ calls') w'' where
  grows := hcalls.grows.trans hcalls'.grows
  after c hc := by
    rcases List.mem_append.mp hc with hc | hc
    · exact hcalls.after c hc
    · exact hcalls.grows.trans (hcalls'.after c hc)
  before c hc := by
    rcases List.mem_append.mp hc with hc | hc
    · exact (hcalls.before c hc).trans hcalls'.grows
    · exact hcalls'.before c hc
  inOrder := by
    refine List.pairwise_append.mpr ⟨hcalls.inOrder, hcalls'.inOrder, ?_⟩
    intro c hc d hd
    exact (hcalls.before c hc).trans (hcalls'.after d hd)
  kept := List.forall_mem_append.mpr ⟨hcalls.kept, hcalls'.kept⟩

theorem Aside.grows
    {t : Target} (haside : Aside t w w') :
    w.trace <+: w'.trace := by
  obtain ⟨more, htrace, -⟩ := haside.history
  exact ⟨more, htrace.symm⟩

theorem requestLoop_recorded
    {fuel : Nat} (hw : RoomKept w)
    (hok : HttpConnection.requestLoop (HttpServer.callbacks cfg) h fuel w = .ok w') :
    Recorded w (callsOfLoop (HttpServer.callbacks cfg) h fuel w) w' := by
  induction fuel generalizing w with
  | zero =>
      cases hok
      exact .silent (List.prefix_refl _)
  | succ fuel ih =>
      rw [HttpConnection.requestLoop] at hok
      rw [callsOfLoop]
      generalize HttpRequest.new.parse (w.https h).readBuf = parsed at hok ⊢
      obtain ⟨complete, req, readBuf⟩ := parsed
      have hw₁ : RoomKept (w.setHttp h { w.https h with readBuf := readBuf }) :=
        hw.of_eq rfl rfl
      have htrace : (w.setHttp h { w.https h with readBuf := readBuf }).trace = w.trace := rfl
      dsimp only at hok ⊢
      generalize w.setHttp h { w.https h with readBuf := readBuf } = w₁ at hok hw₁ htrace ⊢
      cases complete with
      | false =>
          cases hok
          exact .silent (by rw [htrace])
      | true =>
          rw [if_pos rfl] at hok ⊢
          obtain ⟨w₂, hrequest, hrest⟩ := bind_eq_ok.mp hok
          have hgrows : w₁.trace <+: w₂.trace := (aside_request hrequest).grows
          have hcall : Recorded w [{ world := w₁, conn := h, req := req }] w₂ := by
            refine ⟨by rwa [htrace] at hgrows, ?_, ?_, List.pairwise_singleton _ _, ?_⟩
            · simp [htrace]
            · simpa using hgrows
            · simpa using hw₁
          rw [hrequest]
          exact hcall.append (ih (RoomKept.dispatch hw₁ hrequest) hrest)

theorem onRead_recorded
    (hw : RoomKept w) {s : Socket.Input}
    (hok : HttpConnection.onRead (HttpServer.callbacks cfg) w h s = .ok w') :
    Recorded w (callsOfRead (HttpServer.callbacks cfg) w h s) w' := by
  rw [HttpConnection.onRead] at hok
  rw [callsOfRead]
  generalize recvLoop (s.pending.length + 1) (w.https h).readBuf s = received at hok ⊢
  obtain ⟨readBuf, ending⟩ := received
  have hset : Aside (.http h) w (w.setHttp h { w.https h with readBuf := readBuf }) :=
    aside_setHttp w rfl
  cases ending with
  | hangup =>
      exact .silent (hset.trans (aside_httpClose hok)).grows
  | drained =>
      have hw₁ : RoomKept (w.setHttp h { w.https h with readBuf := readBuf }) :=
        hw.of_eq rfl rfl
      exact (Recorded.silent hset.grows).append (requestLoop_recorded hw₁ hok)

theorem handleEvent_recorded
    (hw : RoomKept w) {fd : Fd} {events : Ready} {input : Socket.Input}
    {sends : List Socket.SendResult}
    (hok : handleEvent cfg w fd events input sends = .ok w') :
    Recorded w (callsOf cfg w (.ready fd events input sends)) w' := by
  cases ht : w.reactor.contexts fd with
  | none =>
      have hsame := hok
      rw [handleEvent, ht] at hsame
      cases hsame
      rw [callsOf, ht]
      exact .silent (List.prefix_refl _)
  | some t =>
      rw [callsOf, ht]
      cases t with
      | ws x =>
          exact .silent (handleEvent_aside ht hok).grows
      | http h =>
          obtain ⟨w₁, hfirst, hsecond⟩ := handleEvent_cases ht hok
          have hread : Recorded w
              (if events.failure || events.input then
                callsOfRead (HttpServer.callbacks cfg) w h input
              else
                []) w₁ := by
            split at hfirst
            · next hreads =>
                rw [if_pos hreads]
                exact onRead_recorded hw hfirst
            · next hreads =>
                cases hfirst
                rw [if_neg hreads]
                exact .silent (List.prefix_refl _)
          rcases hsecond with rfl | ⟨-, -, hwrite⟩
          · exact hread
          · have hrest := hread.append (.silent (aside_httpWrite hwrite).grows)
            rw [List.append_nil] at hrest
            exact hrest

/-- The history only grows. -/
theorem step_recorded
    (hw : RoomKept w) {e : Event} (hok : step cfg w e = .ok w') :
    Recorded w (callsOf cfg w e) w' := by
  cases e with
  | accept fd =>
      refine .silent ?_
      rw [Web.step] at hok
      split at hok
      · cases hok
        exact List.prefix_refl _
      · rw [(onAccept_accepted hok).trace]
  | ready fd events input sends =>
      exact handleEvent_recorded hw hok
  | clock now =>
      cases hok
      exact .silent (List.prefix_refl _)
  | files files =>
      cases hok
      exact .silent (List.prefix_refl _)

/-- The calls of a run. -/
theorem recorded_runServer
    {events : List Event} (hrun : runServer cfg events = .ok w) :
    RoomKept w ∧ Recorded World.init (requestCalls cfg events) w := by
  have hstart : RoomKept World.init ∧ Recorded World.init [] World.init :=
    ⟨roomKept_init, .silent (List.prefix_refl _)⟩
  have hkeeps : ∀ calls w₁ e w₂, RoomKept w₁ ∧ Recorded World.init calls w₁ →
      step cfg w₁ e = .ok w₂ →
        RoomKept w₂ ∧ Recorded World.init (calls ++ callsOf cfg w₁ e) w₂ := by
    rintro calls w₁ e w₂ ⟨hw₁, hcalls⟩ hstep
    exact ⟨hw₁.step hstep, hcalls.append (step_recorded hw₁ hstep)⟩
  exact outputs_invariant (I := fun calls w => RoomKept w ∧ Recorded World.init calls w)
    hkeeps hstart hrun

end Calls

section Answers

variable {cfg : Config} {c : RequestCall}

/-- The call is a request for messages, with a valid token. -/
structure AsksMessages (J : JsonLib) (c : RequestCall) : Prop where
  method : c.req.method = bytes "GET"
  path : bytes "/api/messages" <+: c.req.path
  token : TokenAccepted J c.world c.req

instance (J : JsonLib) (w : World) (req : HttpRequest) : Decidable (TokenAccepted J w req) :=
  inferInstanceAs (Decidable (_ ∧ _))

instance (J : JsonLib) (c : RequestCall) : Decidable (AsksMessages J c) :=
  decidable_of_iff
    (c.req.method = bytes "GET" ∧ bytes "/api/messages" <+: c.req.path ∧
      TokenAccepted J c.world c.req)
    ⟨fun ⟨hmethod, hpath, htoken⟩ => ⟨hmethod, hpath, htoken⟩,
      fun ⟨hmethod, hpath, htoken⟩ => ⟨hmethod, hpath, htoken⟩⟩

/-- The time stamp in the query, or 0. -/
def RequestCall.since (c : RequestCall) : Int :=
  (Text.stoll (c.req.getQuery (bytes "since"))).getD 0

/-- The messages behind the time stamp. -/
def RequestCall.returned (c : RequestCall) : List Message :=
  c.world.room.recentMessages c.since

/-- A request for messages is answered with those behind the time stamp. -/
theorem AsksMessages.answered
    (hasks : AsksMessages cfg.json c) :
    HttpServer.dispatch cfg c.world c.conn c.req =
      .ok (HttpConnection.send c.world c.conn
        (jsonResp cfg.json 200 (.obj [("messages", .arr (c.returned.map Message.toJson))]))) := by
  have hup : ¬ HttpServer.isUpgrade c.req = true := by
    intro hup
    have hpath := hasks.path
    unfold HttpServer.isUpgrade at hup
    rw [(of_decide_eq_true hup).2.1] at hpath
    exact absurd hpath (by decide)
  rw [HttpServer.dispatch, if_neg hup, find_messages cfg.json hasks.path]
  dsimp only
  rw [messages, requireToken_accepts hasks.token]
  dsimp only
  rw [if_pos hasks.method]
  rfl

/-- The connection of the call gets a response with the messages behind the time stamp, and
the room and the tokens stay as they are. -/
def RequestCall.Recalls (cfg : Config) (c : RequestCall) : Prop :=
  ∃ w' resp, HttpServer.dispatch cfg c.world c.conn c.req = .ok w' ∧
    Responded c.conn c.world w' resp ∧
    resp = jsonResp cfg.json 200 (.obj [("messages", .arr (c.returned.map Message.toJson))]) ∧
    resp.statusCode = 200 ∧
    resp.body = cfg.json.dump (.obj [("messages", .arr (c.returned.map Message.toJson))]) ∧
    w'.room = c.world.room ∧ w'.tokens = c.world.tokens

theorem AsksMessages.recalls
    (hasks : AsksMessages cfg.json c) :
    c.Recalls cfg := by
  obtain ⟨hroom, htokens⟩ := room_send c.world c.conn
    (jsonResp cfg.json 200 (.obj [("messages", .arr (c.returned.map Message.toJson))]))
  exact ⟨_, _, hasks.answered, (handled_send cfg c.world c.conn c.req _).responded, rfl, rfl, rfl,
    hroom, htokens⟩

/-- What is returned: of the last messages, those behind the time stamp. -/
theorem RoomKept.recentMessages
    {w : World} (hw : RoomKept w) (since : Int) :
    w.room.recentMessages since =
      ((messagesOf w.trace).rtake Room.MAX_HISTORY).filter fun m => m.time > since := by
  rw [Room.recentMessages, hw]

end Answers

end Web
end ChatRoom
