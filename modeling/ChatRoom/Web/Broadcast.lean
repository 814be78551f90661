import ChatRoom.Web.RoomHistory
import ChatRoom.Ws.SentFrame

/-!
# The order of broadcasts

Messages are added by requests and by frames, in the middle of events, and each is
broadcast to the connections of the hub before anything else happens.  So what is
appended to the write buffer of such a connection carries, as texts, the messages
added since its adoption, each once and in order (`broadcasts_in_order`).

`Fed` says what a part of an event does to one connection: it grows by frames that
carry the messages added meanwhile.  A connection that is adopted in an event gets
nothing in it (`Newborn`).
-/

namespace ChatRoom
namespace Web

open Http Runs Ws

section Adoption

/-- The entry is the adoption of a connection. -/
def Obs.adopts (x : WsId) : Obs → Bool
  | .adopt _ y _ => y = x
  | _ => false

/-- The entries behind the adoption of a connection. -/
def sinceAdoption (x : WsId) (history : List Obs) : List Obs :=
  history.rtakeWhile fun o => !o.adopts x

theorem sinceAdoption_suffix
    (x : WsId) (history : List Obs) :
    sinceAdoption x history <:+ history :=
  List.rtakeWhile_suffix _ _

theorem sinceAdoption_append
    {x : WsId} (history : List Obs) {more : List Obs} (hmore : ∀ o ∈ more, o.adopts x = false) :
    sinceAdoption x (history ++ more) = sinceAdoption x history ++ more := by
  induction more using List.reverseRecOn with
  | nil =>
      simp
  | append_singleton more o ih =>
      rw [List.forall_mem_append] at hmore
      have ho : o.adopts x = false := hmore.2 o (by simp)
      rw [← List.append_assoc, sinceAdoption, List.rtakeWhile_concat_pos _ _ _ (by simp [ho]),
        ← sinceAdoption, ih hmore.1, List.append_assoc]

theorem sinceAdoption_adopt
    (history : List Obs) (socket : SocketId) (x : WsId) (u : String) :
    sinceAdoption x (history ++ [.adopt socket x u]) = [] := by
  rw [sinceAdoption, List.rtakeWhile_concat_neg _ _ _ (by simp [Obs.adopts])]

/-- The connection has been adopted. -/
def Adopted (x : WsId) (history : List Obs) : Prop :=
  ∃ past socket u, history = past ++ .adopt socket x u :: sinceAdoption x history

theorem Adopted.append
    {x : WsId} {history more : List Obs} (h : Adopted x history)
    (hmore : ∀ o ∈ more, o.adopts x = false) :
    Adopted x (history ++ more) := by
  obtain ⟨past, socket, u, hsplit⟩ := h
  refine ⟨past, socket, u, ?_⟩
  rw [sinceAdoption_append history hmore, ← List.cons_append, ← List.append_assoc, ← hsplit]

theorem adopted_adopt
    (history : List Obs) (socket : SocketId) (x : WsId) (u : String) :
    Adopted x (history ++ [.adopt socket x u]) :=
  ⟨history, socket, u, by rw [sinceAdoption_adopt]⟩

end Adoption

section Fed

variable {J : JsonLib} {x y : WsId} {s : SocketId} {w w' w'' : World}
variable {history future : List Obs} {frames frames' : List SentFrame}

/-- The text of a broadcast. -/
def broadcastText (J : JsonLib) (m : Message) : Bytes :=
  J.dump (WsHub.wsJson m)

/-- The texts of the frames are the messages added in the entries, each once and in order. -/
structure Carries (J : JsonLib) (history : List Obs) (frames : List SentFrame) : Prop where
  texts : SentFrame.texts frames = (messagesOf history).map (broadcastText J)
  fits : ∀ f ∈ frames, f.opcode ≠ .TEXT → f.Fits

theorem carries_nil
    (h : messagesOf history = []) :
    Carries J history [] :=
  ⟨by rw [h]; rfl, by simp⟩

theorem Carries.append
    (h : Carries J history frames) (h' : Carries J future frames') :
    Carries J (history ++ future) (frames ++ frames') where
  texts := by
    rw [SentFrame.texts_append, h.texts, h'.texts, messagesOf_append, List.map_append]
  fits := List.forall_mem_append.mpr ⟨h.fits, h'.fits⟩

/-- Since the state `w`, what has been sent on the socket of a connection and what is in its
write buffer has grown by frames that carry the messages. -/
structure Grown (J : JsonLib) (x : WsId) (s : SocketId) (w w' : World) : Prop where
  active : (w'.wss x).state = .ACTIVE
  grows : ∃ more frames, w'.trace = w.trace ++ more ∧ (∀ o ∈ more, o.adopts x = false) ∧
    sentOn s more ++ (w'.wss x).writeBuf.readable =
      (w.wss x).writeBuf.readable ++ frames.flatMap SentFrame.wire ∧
    Carries J more frames

theorem Grown.trans
    (h : Grown J x s w w') (h' : Grown J x s w' w'') :
    Grown J x s w w'' := by
  obtain ⟨-, more, frames, htrace, hmore, hout, hcarries⟩ := h
  obtain ⟨hactive, more', frames', htrace', hmore', hout', hcarries'⟩ := h'
  refine ⟨hactive, more ++ more', frames ++ frames', ?_, ?_, ?_, hcarries.append hcarries'⟩
  · rw [htrace', htrace, List.append_assoc]
  · exact List.forall_mem_append.mpr ⟨hmore, hmore'⟩
  · rw [sentOn_append, List.append_assoc, hout', ← List.append_assoc, hout, List.flatMap_append,
      List.append_assoc]

/-- What a part of an event does to a connection, if it stays in the hub. -/
structure Fed (J : JsonLib) (x : WsId) (s : SocketId) (w w' : World) : Prop where
  hub : x ∈ w'.hub → x ∈ w.hub
  grown : x ∈ w'.hub → (w.wss x).state = .ACTIVE → Grown J x s w w'

theorem Fed.trans
    (h : Fed J x s w w') (h' : Fed J x s w' w'') :
    Fed J x s w w'' where
  hub hx := h.hub (h'.hub hx)
  grown hx hactive := by
    have hgrown := h.grown (h'.hub hx) hactive
    exact hgrown.trans (h'.grown hx hgrown.active)

/-- The connection has no part in it. -/
theorem Fed.of_eq
    (hhub : w'.hub = w.hub) (hstate : (w'.wss x).state = (w.wss x).state)
    (hbuf : (w'.wss x).writeBuf.readable = (w.wss x).writeBuf.readable)
    (htrace : w'.trace = w.trace) :
    Fed J x s w w' where
  hub hx := hhub ▸ hx
  grown _ hactive := by
    refine ⟨hstate.trans hactive, [], [], ?_, by simp, ?_, carries_nil rfl⟩
    · rw [htrace, List.append_nil]
    · simp [sentOn, hbuf]

theorem Fed.refl
    (J : JsonLib) (x : WsId) (s : SocketId) (w : World) :
    Fed J x s w w :=
  .of_eq rfl rfl rfl rfl

theorem fed_modifyFd
    (w : World) (fd : Fd) (events : Interest) :
    Fed J x s w (w.modifyFd fd events) :=
  .of_eq rfl rfl rfl rfl

/-- The connection has left the hub. -/
theorem Fed.of_not_mem
    (h : x ∉ w'.hub) :
    Fed J x s w w' :=
  ⟨fun hx => absurd hx h, fun hx => absurd hx h⟩

/-- An entry that is about something else. -/
theorem fed_note
    (w : World) {o : Obs} (hmessage : messagesOf [o] = []) (hadopts : o.adopts x = false)
    (hsent : sentOn s [o] = []) :
    Fed J x s w (w.note o) where
  hub hx := hx
  grown _ hactive := by
    refine ⟨hactive, [o], [], rfl, by simpa using hadopts, ?_, carries_nil hmessage⟩
    rw [hsent]
    simp [World.note]

/-- A frame that is not a text. -/
theorem fed_queue
    (w : World) {f : SentFrame} (htext : f.opcode ≠ .TEXT) (hfits : f.Fits) :
    Fed J x s w (WsConnection.queue w x f.wire) where
  hub hx := by
    rwa [(WsConnection.queue_appends w x f.wire).hub] at hx
  grown _ hactive := by
    have happ := WsConnection.queue_appends w x f.wire
    refine ⟨happ.state.trans hactive, [], [f], ?_, by simp, ?_, ?_, ?_⟩
    · rw [WsConnection.trace_queue, List.append_nil]
    · simp [sentOn, happ.writeBuf]
    · simp [SentFrame.texts, htext]
    · simpa using fun _ => hfits

/-- A frame for another connection. -/
theorem fed_queue_other
    (w : World) (hne : x ≠ y) (frame : Bytes) :
    Fed J x s w (WsConnection.queue w y frame) := by
  have happ := WsConnection.queue_appends_other w hne frame
  refine .of_eq happ.hub happ.state ?_ (WsConnection.trace_queue w y frame)
  rw [happ.writeBuf, List.append_nil]

/-- A message is broadcast to the connections of the hub. -/
theorem fed_addMessage
    (J : JsonLib) (w : World) (m : Message) (source : Source) :
    Fed J x s w (WsHub.addMessage J w m source) := by
  have happ := WsConnection.addMessage_appends J w x m source
  refine ⟨fun hx => happ.hub ▸ hx, ?_⟩
  intro hx hactive
  rw [happ.hub] at hx
  rw [WsConnection.announced, if_pos hx, WsConnection.ifActive, if_pos hactive] at happ
  refine ⟨happ.state.trans hactive, [.message m source w.room.users],
    [{ opcode := .TEXT, payload := broadcastText J m }], (addMessage_room J w m source).2,
    by simp [Obs.adopts], ?_, rfl, by simp⟩
  rw [happ.writeBuf]
  simp [sentOn, SentFrame.wire, encodeText, broadcastText]

theorem fed_onText
    (J : JsonLib) (w : World) (y : WsId) (payload : Bytes) :
    Fed J x s w (WsHub.onText J w y payload) := by
  unfold WsHub.onText
  split
  · exact .refl J x s w
  · exact fed_addMessage J w _ _

end Fed

section FedHttp

variable {cfg : Config} {J : JsonLib} {x : WsId} {s : SocketId} {h : HttpId} {w₀ w w' : World}

theorem fed_send
    (w : World) (h : HttpId) (resp : HttpResponse) :
    Fed J x s w (HttpConnection.send w h resp) := by
  have hnote : Fed J x s w (w.note (.response h resp)) := fed_note w rfl rfl rfl
  refine hnote.trans ?_
  unfold HttpConnection.send
  dsimp only
  split <;> exact .of_eq rfl rfl rfl rfl

theorem fed_request
    {req : HttpRequest} (hok : HttpServer.dispatch cfg w h req = .ok w') :
    Fed cfg.json x s w w' := by
  obtain ⟨resp, w₁, heff, rfl⟩ := dispatch_handled hok
  refine Fed.trans ?_ (fed_send w₁ h resp)
  cases heff with
  | nothing =>
      exact .refl _ x s w
  | login u =>
      have htables : Fed cfg.json x s w
          { w with room := w.room.addUser u, tokens := (w.tokens.issue u).2 } :=
        .of_eq rfl rfl rfl rfl
      exact htables.trans (fed_note _ rfl rfl rfl)
  | logout =>
      generalize Routes.presentedToken cfg.json req = tok
      have htables : Fed cfg.json x s w
          { w with
            room := w.room.removeUser (w.tokens.lookup tok)
            tokens := w.tokens.revoke tok } :=
        .of_eq rfl rfl rfl rfl
      exact htables.trans (fed_note _ rfl rfl rfl)
  | post m =>
      exact fed_addMessage cfg.json w m _
  | upgrade tok =>
      have hmark : Fed cfg.json x s w
          (HttpConnection.markUpgraded w h (w.tokens.lookup tok)) := .of_eq rfl rfl rfl rfl
      exact hmark.trans (fed_note _ rfl rfl rfl)

/-- Another connection is adopted. -/
theorem fed_adoptConnection
    {fd : Fd} {user : String} (hfd : (w.https h).fd = fd) (hx : x < w.wsAllocated)
    (hok : WsHub.adoptConnection w fd user = .ok w') :
    Fed J x s w w' := by
  obtain ⟨-, -, htrace, -, hwss, -⟩ := adoptConnection_spec hfd hok
  have hconn : w'.wss x = w.wss x := by
    rw [hwss, Function.update_of_ne hx.ne]
  have hadopts : (Obs.adopt (w.sockets fd) w.wsAllocated user).adopts x = false :=
    decide_eq_false hx.ne'
  refine ⟨fun hmem => ?_, fun _ hactive => ?_⟩
  · rw [(adoptConnection_room hok).2, UnorderedSet.mem_insert] at hmem
    exact hmem.resolve_left hx.ne
  · refine ⟨hconn ▸ hactive, _, [], htrace, by simpa using hadopts, ?_, carries_nil rfl⟩
    simp [sentOn, hconn]

theorem fed_httpClose
    (hx : x < w.wsAllocated)
    (hok : HttpConnection.close (HttpServer.callbacks cfg) w h = .ok w') :
    Fed J x s w w' := by
  by_cases hclosed : (w.https h).state = .CLOSED
  · rw [HttpConnection.close, if_pos hclosed, Except.ok.injEq] at hok
    subst hok
    exact .refl J x s w
  · obtain ⟨w₁, hclose, rfl⟩ := HttpConnection.close_cases hclosed hok
    have hdetached : Fed J x s w (HttpConnection.detached w h) := .of_eq rfl rfl rfl rfl
    have hclosed₁ : Fed J x s (HttpConnection.detached w h) w₁ := by
      rcases HttpServer.onClose_cases hclose with ⟨-, -, w₂, hadopt, rfl⟩ | ⟨-, rfl⟩
      · have hadopted : Fed J x s (HttpConnection.detached w h) w₂ :=
          fed_adoptConnection rfl hx hadopt
        exact hadopted.trans (.of_eq rfl rfl rfl rfl)
      · exact .of_eq rfl rfl rfl rfl
    refine hdetached.trans (hclosed₁.trans ?_)
    split
    · exact .refl J x s w₁
    · exact .of_eq rfl rfl rfl rfl

/-- What leaves on another socket. -/
theorem fed_note_wrote
    (w : World) {socket : SocketId} (hne : socket ≠ s) (bs : Bytes) :
    Fed J x s w (w.note (.wrote socket bs)) :=
  fed_note w rfl rfl (by simp [sentOn, hne])

/-- An event of an HTTP connection. -/
theorem fed_http
    (hx : x < w₀.wsAllocated) (hne : w₀.sockets (w₀.https h).fd ≠ s) :
    HttpRule cfg h (fun w => Aside (.http h) w₀ w ∧ Fed cfg.json x s w₀ w)
      (fun w => Aside (.http h) w₀ w ∧ Fed cfg.json x s w₀ w) where
  receive := by
    rintro w readBuf ⟨haside, hfed⟩
    exact ⟨haside.trans (aside_setHttp w rfl), hfed.trans (.of_eq rfl rfl rfl rfl)⟩
  request := by
    rintro w req w' ⟨haside, hfed⟩ hok
    exact ⟨haside.trans (aside_request hok), hfed.trans (fed_request hok)⟩
  turn _ hw := hw
  wrote := by
    rintro w n ⟨haside, hfed⟩
    have hsocket : w.sockets (w.https h).fd ≠ s := by
      have hfd : (w.https h).fd = (w₀.https h).fd := haside.fdOf
      rwa [haside.sockets, hfd]
    refine ⟨haside.trans (aside_httpWrote w h n), hfed.trans ?_⟩
    exact (fed_note_wrote w hsocket _).trans (.of_eq rfl rfl rfl rfl)
  flushed := by
    rintro w ⟨haside, hfed⟩
    exact ⟨haside.trans (aside_modifyFd _ w _ _), hfed.trans (.of_eq rfl rfl rfl rfl)⟩
  close := by
    rintro w w' ⟨haside, hfed⟩ hok
    exact ⟨haside.trans (aside_httpClose hok),
      hfed.trans (fed_httpClose (hx.trans_le haside.wsAllocated) hok)⟩

end FedHttp

section FedWs

variable {J : JsonLib} {x y : WsId} {s : SocketId} {w₀ w : World}

/-- A connection that closes leaves the hub. -/
theorem fed_wsClose
    (J : JsonLib) (x : WsId) (s : SocketId) (w : World) (y : WsId) :
    Fed J x s w (WsConnection.close (WsHub.callbacks J) w y) := by
  by_cases hclosed : (w.wss y).state = .CLOSED
  · rw [WsConnection.close, if_pos hclosed]
    exact .refl J x s w
  · have hhub : (WsConnection.close (WsHub.callbacks J) w y).hub = w.hub.erase y := by
      rw [WsConnection.close, if_neg hclosed]
      rfl
    obtain ⟨-, htrace, -⟩ := WsConnection.close_hub J w y
    rcases eq_or_ne x y with rfl | hne
    · apply Fed.of_not_mem
      simp [hhub]
    · have hconn : (WsConnection.close (WsHub.callbacks J) w y).wss x = w.wss x := by
        rw [WsConnection.close, if_neg hclosed]
        simp [WsHub.callbacks, WsHub.onClose, World.closeFd, World.removeFd, World.setWs, hne]
      refine ⟨fun hx => ?_, fun _ hactive => ?_⟩
      · rw [hhub, UnorderedSet.mem_erase] at hx
        exact hx.2
      · refine ⟨hconn ▸ hactive, [], [], ?_, by simp, ?_, carries_nil rfl⟩
        · rw [htrace, List.append_nil]
        · simp [sentOn, hconn]

/-- A change of another connection. -/
theorem fed_setWs_other
    (w : World) (hne : x ≠ y) (conn : WsConnection) :
    Fed J x s w (w.setWs y conn) := by
  have hconn : (w.setWs y conn).wss x = w.wss x := Function.update_of_ne hne _ _
  exact .of_eq rfl (by rw [hconn]) (by rw [hconn]) rfl

/-- A change of the connection that leaves its output alone. -/
theorem fed_setWs_own
    (w : World) {conn : WsConnection} (hstate : conn.state = (w.wss x).state)
    (hbuf : conn.writeBuf = (w.wss x).writeBuf) :
    Fed J x s w (w.setWs x conn) := by
  refine .of_eq rfl ?_ ?_ rfl
  · simp [World.setWs, hstate]
  · simp [World.setWs, hbuf]

theorem fed_dispatch_other
    (w : World) (hne : x ≠ y) (f : Frame) :
    Fed J x s w (WsConnection.dispatch (WsHub.callbacks J) w y f).1 := by
  unfold WsConnection.dispatch
  split
  · have hnote : Fed J x s w (w.note (.text y f.payload)) := fed_note w rfl rfl rfl
    exact hnote.trans (fed_onText J _ y _)
  · exact fed_queue_other w hne _
  · exact .refl J x s w
  · exact fed_wsClose J x s w y
  · exact (fed_setWs_other w hne _).trans (fed_queue_other _ hne _)
  · exact fed_wsClose J x s w y

theorem fed_dispatch_own
    (w : World) {f : Frame} (hsize : f.payload.length ≤ VECTOR_MAX_SIZE) :
    Fed J x s w (WsConnection.dispatch (WsHub.callbacks J) w x f).1 := by
  have hpong : Fed J x s w (WsConnection.queue w x (encodePong f.payload)) := by
    refine fed_queue w (f := { opcode := .PONG, payload := f.payload }) (by simp) ?_
    exact Nat.lt_of_le_of_lt hsize (by norm_num [VECTOR_MAX_SIZE])
  have hclose (w : World) : Fed J x s w (WsConnection.queue w x encodeClose) :=
    fed_queue w (f := { opcode := .CLOSE, payload := [] }) (by decide) (by decide)
  unfold WsConnection.dispatch
  split
  · have hnote : Fed J x s w (w.note (.text x f.payload)) := fed_note w rfl rfl rfl
    exact hnote.trans (fed_onText J _ x _)
  · exact hpong
  · exact .refl J x s w
  · exact fed_wsClose J x s w x
  · have hset : Fed J x s w (w.setWs x { w.wss x with closeAfterWrite := true }) :=
      fed_setWs_own w rfl rfl
    exact hset.trans (hclose _)
  · exact fed_wsClose J x s w x

/-- Bytes move from the write buffer to the socket. -/
theorem fed_wrote_own
    (w : World) (hsocket : w.sockets (w.wss x).fd = s) (n : Nat) :
    Fed J x s w (WsConnection.wrote w x n) where
  hub hx := hx
  grown _ hactive := by
    refine ⟨?_, [.wrote (w.sockets (w.wss x).fd) ((w.wss x).writeBuf.readable.take n)], [], rfl,
      by simp [Obs.adopts], ?_, carries_nil rfl⟩
    · simpa [WsConnection.wrote, World.setWs] using hactive
    · simp [WsConnection.wrote, World.setWs, sentOn, hsocket]

theorem fed_ws_own
    (x : WsId) (w₀ : World) :
    WsRule J x fun w =>
      Aside (.ws x) w₀ w ∧ Fed J x (w₀.sockets (w₀.wss x).fd) w₀ w where
  receive := by
    rintro w readBuf ⟨haside, hfed⟩
    exact ⟨haside.trans (aside_setWs_own w rfl), hfed.trans (fed_setWs_own w rfl rfl)⟩
  dispatch := by
    rintro w f hsize ⟨haside, hfed⟩
    exact ⟨haside.trans (aside_wsDispatch J w x f), hfed.trans (fed_dispatch_own w hsize)⟩
  wrote := by
    rintro w n ⟨haside, hfed⟩
    have hfd : (w.wss x).fd = (w₀.wss x).fd := haside.fdOf
    have hsocket : w.sockets (w.wss x).fd = w₀.sockets (w₀.wss x).fd := by
      rw [haside.sockets, hfd]
    exact ⟨haside.trans (aside_wsWrote w x n), hfed.trans (fed_wrote_own w hsocket n)⟩
  flushed := by
    rintro w ⟨haside, hfed⟩
    refine ⟨haside.trans ((aside_modifyFd _ w _ _).trans (aside_setWs_own _ rfl)), ?_⟩
    exact hfed.trans ((fed_modifyFd w _ _).trans (fed_setWs_own _ rfl rfl))
  close := by
    rintro w ⟨haside, hfed⟩
    exact ⟨haside.trans (aside_wsClose J w x), hfed.trans (fed_wsClose J x _ w x)⟩

theorem fed_ws_other
    (hne : x ≠ y) (hsocket : w₀.sockets (w₀.wss y).fd ≠ s) :
    WsRule J y fun w => Aside (.ws y) w₀ w ∧ Fed J x s w₀ w where
  receive := by
    rintro w readBuf ⟨haside, hfed⟩
    exact ⟨haside.trans (aside_setWs_own w rfl), hfed.trans (fed_setWs_other w hne _)⟩
  dispatch := by
    rintro w f hsize ⟨haside, hfed⟩
    exact ⟨haside.trans (aside_wsDispatch J w y f), hfed.trans (fed_dispatch_other w hne f)⟩
  wrote := by
    rintro w n ⟨haside, hfed⟩
    have hfd : (w.wss y).fd = (w₀.wss y).fd := haside.fdOf
    have hother : w.sockets (w.wss y).fd ≠ s := by
      rwa [haside.sockets, hfd]
    refine ⟨haside.trans (aside_wsWrote w y n), hfed.trans ?_⟩
    exact (fed_note_wrote w hother _).trans (fed_setWs_other _ hne _)
  flushed := by
    rintro w ⟨haside, hfed⟩
    refine ⟨haside.trans ((aside_modifyFd _ w _ _).trans (aside_setWs_own _ rfl)), ?_⟩
    exact hfed.trans ((fed_modifyFd w _ _).trans (fed_setWs_other _ hne _))
  close := by
    rintro w ⟨haside, hfed⟩
    exact ⟨haside.trans (aside_wsClose J w y), hfed.trans (fed_wsClose J x s w y)⟩

end FedWs

section Newborn

variable {cfg : Config} {x : WsId} {h : HttpId} {w w' : World} {n : Nat}

/-- A connection that has just been adopted. -/
structure Newborn (x : WsId) (w : World) : Prop where
  active : (w.wss x).state = .ACTIVE
  writeBuf : (w.wss x).writeBuf.readable = []
  adopted : Adopted x w.trace
  silent : messagesOf (sinceAdoption x w.trace) = []

/-- Entries that are no messages and no adoption of the connection. -/
theorem Newborn.later
    (hx : Newborn x w) (hconn : w'.wss x = w.wss x) {more : List Obs}
    (htrace : w'.trace = w.trace ++ more) (hmore : ∀ o ∈ more, o.adopts x = false)
    (hmessages : messagesOf more = []) :
    Newborn x w' where
  active := by rw [hconn, hx.active]
  writeBuf := by rw [hconn, hx.writeBuf]
  adopted := htrace ▸ hx.adopted.append hmore
  silent := by
    rw [htrace, sinceAdoption_append _ hmore, messagesOf_append, hx.silent, hmessages]
    rfl

/-- If the connection is in the hub, it has been adopted since `n` connections had been
constructed. -/
structure NewIn (n : Nat) (x : WsId) (w : World) : Prop where
  allocated : n ≤ w.wsAllocated
  newborn : x ∈ w.hub → n ≤ x ∧ Newborn x w

theorem NewIn.of_eq
    (hw : NewIn n x w) (hhub : w'.hub = w.hub) (hwss : w'.wss = w.wss)
    (hws : w'.wsAllocated = w.wsAllocated) (htrace : w'.trace = w.trace) :
    NewIn n x w' where
  allocated := hws ▸ hw.allocated
  newborn hx := by
    obtain ⟨hn, hborn⟩ := hw.newborn (hhub ▸ hx)
    have hnothing : w'.trace = w.trace ++ [] := by
      rw [htrace, List.append_nil]
    exact ⟨hn, hborn.later (congrFun hwss x) hnothing (by simp) rfl⟩

theorem NewIn.adoptConnection
    (hw : NewIn n x w) {fd : Fd} {user : String} (hfd : (w.https h).fd = fd)
    (hok : WsHub.adoptConnection w fd user = .ok w') :
    NewIn n x w' := by
  obtain ⟨-, -, htrace, -, hwss, hws⟩ := adoptConnection_spec hfd hok
  refine ⟨hws ▸ hw.allocated.trans (Nat.le_succ _), fun hx => ?_⟩
  rw [(adoptConnection_room hok).2, UnorderedSet.mem_insert] at hx
  rcases eq_or_ne x w.wsAllocated with rfl | hne
  · have hconn : w'.wss w.wsAllocated = WsConnection.new fd user := by
      rw [hwss, Function.update_self]
    refine ⟨hw.allocated, ?_, ?_, ?_, ?_⟩
    · rw [hconn]
      rfl
    · rw [hconn]
      rfl
    · rw [htrace]
      exact adopted_adopt _ _ _ _
    · rw [htrace, sinceAdoption_adopt]
      rfl
  · obtain ⟨hn, hborn⟩ := hw.newborn (hx.resolve_left hne)
    have hadopts : (Obs.adopt (w.sockets fd) w.wsAllocated user).adopts x = false :=
      decide_eq_false hne.symm
    refine ⟨hn, hborn.later ?_ htrace (by simpa using hadopts) rfl⟩
    rw [hwss, Function.update_of_ne hne]

theorem NewIn.httpClose
    (hw : NewIn n x w)
    (hok : HttpConnection.close (HttpServer.callbacks cfg) w h = .ok w') :
    NewIn n x w' := by
  by_cases hclosed : (w.https h).state = .CLOSED
  · rw [HttpConnection.close, if_pos hclosed, Except.ok.injEq] at hok
    exact hok ▸ hw
  · obtain ⟨w₁, hclose, rfl⟩ := HttpConnection.close_cases hclosed hok
    have hdetached : NewIn n x (HttpConnection.detached w h) := hw.of_eq rfl rfl rfl rfl
    have hw₁ : NewIn n x w₁ := by
      rcases HttpServer.onClose_cases hclose with ⟨-, -, w₂, hadopt, rfl⟩ | ⟨-, rfl⟩
      · have hadopted : NewIn n x w₂ := hdetached.adoptConnection rfl hadopt
        exact hadopted.of_eq rfl rfl rfl rfl
      · exact hdetached.of_eq rfl rfl rfl rfl
    split
    · exact hw₁
    · exact hw₁.of_eq rfl rfl rfl rfl

/-- Requests leave the hub alone. -/
theorem dispatch_hub
    {req : HttpRequest} (hok : HttpServer.dispatch cfg w h req = .ok w') :
    w'.hub = w.hub := by
  have hsend (w : World) (resp : HttpResponse) : (HttpConnection.send w h resp).hub = w.hub := by
    unfold HttpConnection.send
    dsimp only
    split <;> rfl
  obtain ⟨resp, w₁, heff, rfl⟩ := dispatch_handled hok
  rw [hsend]
  cases heff with
  | nothing | login | logout | upgrade =>
      rfl
  | post m =>
      exact (WsConnection.addMessage_appends cfg.json w 0 m _).hub

/-- An event of an HTTP connection: the requests are handled before a connection can be
adopted. -/
theorem newIn_http
    (cfg : Config) (h : HttpId) (n : Nat) (x : WsId) :
    HttpRule cfg h (fun w => n ≤ w.wsAllocated ∧ x ∉ w.hub) (NewIn n x) where
  receive _ _ hw := hw
  request := by
    rintro w req w' ⟨hn, hx⟩ hok
    exact ⟨hn.trans (aside_request hok).wsAllocated, by rwa [dispatch_hub hok]⟩
  turn w hw := ⟨hw.1, fun hx => absurd hx hw.2⟩
  wrote := by
    intro w k hw
    refine ⟨hw.allocated, fun hx => ?_⟩
    obtain ⟨hn, hborn⟩ := hw.newborn hx
    exact ⟨hn, hborn.later rfl rfl (by simp [Obs.adopts]) rfl⟩
  flushed w hw := hw.of_eq rfl rfl rfl rfl
  close w w' hw hok := hw.httpClose hok

end Newborn

section Steps

variable {cfg : Config} {x : WsId} {w w' : World} {e : Event}

theorem Orderly.hub_registered
    (ho : Orderly w) (hx : x ∈ w.hub) :
    w.reactor.contexts (w.wss x).fd = some (.ws x) :=
  ho.connections.hub x hx

theorem Orderly.hub_allocated
    (ho : Orderly w) (hx : x ∈ w.hub) :
    x < w.wsAllocated :=
  (ho.registered (ho.hub_registered hx)).2.1

/-- Other connections have other sockets. -/
theorem Orderly.other_socket
    (ho : Orderly w) (hx : x ∈ w.hub) {fd : Fd} {t : Target}
    (ht : w.reactor.contexts fd = some t) (hne : t ≠ .ws x) :
    w.sockets (w.fdOf t) ≠ w.sockets (w.wss x).fd := by
  have hreg := ho.hub_registered hx
  obtain ⟨hfd, -, hopen, -⟩ := ho.registered ht
  obtain ⟨-, -, hopenx, -⟩ := ho.registered hreg
  intro hsame
  rw [hfd] at hsame
  have hfds : fd = (w.wss x).fd := ho.connections.distinct fd _ hopen hopenx hsame
  rw [hfds, hreg, Option.some.injEq] at ht
  exact hne ht.symm

/-- What a step does to a connection of the hub. -/
theorem step_fed
    (ho : Orderly w) (hx : x ∈ w.hub) (hok : step cfg w e = .ok w') :
    Fed cfg.json x (w.sockets (w.wss x).fd) w w' := by
  cases step_cases hok with
  | idle now files =>
      exact .of_eq rfl rfl rfl rfl
  | accept hnew haccept =>
      have hacc := onAccept_accepted haccept
      exact .of_eq (onAccept_room haccept).2 (by rw [hacc.wss]) (by rw [hacc.wss]) hacc.trace
  | @handle fd events input sends t _ ht hhandle =>
      cases t with
      | http h =>
          have hother := ho.other_socket hx ht (by simp)
          exact ((fed_http (ho.hub_allocated hx) hother).handleEvent ht
            ⟨.refl _ w, .refl _ x _ w⟩ hhandle).2
      | ws y =>
          rcases eq_or_ne x y with rfl | hne
          · exact ((fed_ws_own x w).handleEvent ht ⟨.refl _ w, .refl _ x _ w⟩ hhandle).2
          · have hother := ho.other_socket hx ht (by simpa using hne.symm)
            exact ((fed_ws_other hne hother).handleEvent ht
              ⟨.refl _ w, .refl _ x _ w⟩ hhandle).2

/-- An event of a WebSocket connection lets none into the hub. -/
theorem wsEvent_hub
    {y : WsId} {fd : Fd} {events : Ready} {input : Socket.Input} {sends : List Socket.SendResult}
    (ht : w.reactor.contexts fd = some (.ws y))
    (hok : handleEvent cfg w fd events input sends = .ok w') (hx : x ∈ w'.hub) :
    x ∈ w.hub := by
  rcases eq_or_ne x y with rfl | hne
  · have hown := (fed_ws_own x w).handleEvent ht ⟨.refl _ w, .refl _ x _ w⟩ hok
    exact hown.2.hub hx
  · have hsocket : w.sockets (w.wss y).fd ≠ w.sockets (w.wss y).fd + 1 := (Nat.lt_succ_self _).ne
    have hother := (fed_ws_other hne hsocket).handleEvent ht ⟨.refl _ w, .refl _ x _ w⟩ hok
    exact hother.2.hub hx

/-- A connection that enters the hub in a step is newly constructed. -/
theorem step_newborn
    (hx : x ∉ w.hub) (hok : step cfg w e = .ok w') (hx' : x ∈ w'.hub) :
    w.wsAllocated ≤ x ∧ Newborn x w' := by
  cases step_cases hok with
  | idle now files =>
      exact absurd hx' hx
  | accept hnew haccept =>
      rw [(onAccept_room haccept).2] at hx'
      exact absurd hx' hx
  | @handle fd events input sends t _ ht hhandle =>
      cases t with
      | http h =>
          have hnew := (newIn_http cfg h w.wsAllocated x).handleEvent ht ⟨le_rfl, hx⟩ hhandle
          exact hnew.newborn hx'
      | ws y =>
          exact absurd (wsEvent_hub ht hhandle hx') hx

end Steps

section Runs

variable {cfg : Config} {events : List Event} {x : WsId} {past : Bytes} {w w' : World} {e : Event}

/-- The bytes that an event appends to the write buffer of a connection of the hub.  Off the
front of the buffer goes what `::send` accepts; the buffer of a new connection is empty. -/
def appendedBy (cfg : Config) (x : WsId) (w : World) (e : Event) : Bytes :=
  match step cfg w e with
  | .error _ => []
  | .ok w' =>
      if x ∈ w.hub then
        (sentOn (w.sockets (w.wss x).fd) (w'.trace.drop w.trace.length) ++
          (w'.wss x).writeBuf.readable).drop (w.wss x).writeBuf.readable.length
      else if x ∈ w'.hub then
        (w'.wss x).writeBuf.readable
      else
        []

/-- The bytes that a run of the server appends to the write buffer of a connection. -/
def appended (cfg : Config) (events : List Event) (x : WsId) : Bytes :=
  outputs (appendedBy cfg x) (step cfg) World.init events

/-- The bytes are the frames, and no length is too long to be written. -/
def FramesOf (bs : Bytes) (frames : List SentFrame) : Prop :=
  (∀ f ∈ frames, f.Fits) ∧ bs = frames.flatMap SentFrame.wire

/-- The bytes are frames whose texts are the messages added in the entries, each once and in
order; and as long as no text is too long for the length of a frame, the bytes cannot be read
in another way. -/
structure Transmits (J : JsonLib) (history : List Obs) (bs : Bytes) : Prop where
  carried : ∃ frames, bs = frames.flatMap SentFrame.wire ∧ Carries J history frames
  only : (∀ m ∈ messagesOf history, (broadcastText J m).length < 2 ^ 64) →
    ∀ frames, FramesOf bs frames →
      SentFrame.texts frames = (messagesOf history).map (broadcastText J)

theorem Carries.all_fit
    (h : Carries J history frames)
    (hsize : ∀ m ∈ messagesOf history, (broadcastText J m).length < 2 ^ 64) :
    ∀ f ∈ frames, f.Fits := by
  intro f hf
  by_cases htext : f.opcode = .TEXT
  · have hpayload : f.payload ∈ SentFrame.texts frames :=
      List.mem_map.mpr ⟨f, List.mem_filter.mpr ⟨hf, decide_eq_true htext⟩, rfl⟩
    rw [h.texts] at hpayload
    obtain ⟨m, hm, hpayload⟩ := List.mem_map.mp hpayload
    rw [SentFrame.Fits, ← hpayload]
    exact hsize m hm
  · exact h.fits f hf htext

theorem Carries.transmits
    (h : Carries J history frames) :
    Transmits J history (frames.flatMap SentFrame.wire) where
  carried := ⟨frames, rfl, h⟩
  only := by
    rintro hsize frames' ⟨hall, hread⟩
    rw [SentFrame.flatMap_wire_inj hall (h.all_fit hsize) hread.symm]
    exact h.texts

/-- What has been appended for a connection carries the messages since its adoption. -/
structure Listening (J : JsonLib) (x : WsId) (past : Bytes) (w : World) : Prop where
  fresh : w.wsAllocated ≤ x → past = []
  active : x ∈ w.hub → (w.wss x).state = .ACTIVE
  adopted : x ∈ w.hub → Adopted x w.trace
  carries : x ∈ w.hub → ∃ frames, past = frames.flatMap SentFrame.wire ∧
    Carries J (sinceAdoption x w.trace) frames

/-- A connection that is in the hub is appended what its output grows by. -/
theorem Grown.appendedBy
    (hx : x ∈ w.hub) (hok : step cfg w e = .ok w')
    (hgrown : Grown cfg.json x (w.sockets (w.wss x).fd) w w') :
    ∃ more frames, w'.trace = w.trace ++ more ∧ (∀ o ∈ more, o.adopts x = false) ∧
      appendedBy cfg x w e = frames.flatMap SentFrame.wire ∧ Carries cfg.json more frames := by
  obtain ⟨-, more, frames, htrace, hmore, hout, hcarries⟩ := hgrown
  refine ⟨more, frames, htrace, hmore, ?_, hcarries⟩
  rw [Web.appendedBy, hok]
  dsimp only
  rw [if_pos hx, htrace, List.drop_left, hout, List.drop_left]

/-- A connection that is not in the hub after a step has been appended nothing, unless it was
there before. -/
theorem appendedBy_absent
    (hx : x ∉ w.hub) (hx' : ∀ w', step cfg w e = .ok w' →
      x ∈ w'.hub → (w'.wss x).writeBuf.readable = []) :
    appendedBy cfg x w e = [] := by
  rw [appendedBy]
  cases hok : step cfg w e with
  | error k =>
      rfl
  | ok w' =>
      dsimp only
      rw [if_neg hx]
      split
      · next hmem =>
          exact hx' w' hok hmem
      · rfl

theorem Listening.step
    (ho : Orderly w) (hw : Listening cfg.json x past w) (hok : step cfg w e = .ok w') :
    Listening cfg.json x (past ++ appendedBy cfg x w e) w' := by
  have hnew (hx : x ∉ w.hub) : appendedBy cfg x w e = [] := by
    apply appendedBy_absent hx
    intro w₁ hok₁ hx₁
    exact (step_newborn hx hok₁ hx₁).2.writeBuf
  refine ⟨?_, ?_, ?_, ?_⟩
  · intro hfresh
    have hbefore : w.wsAllocated ≤ x := (step_grows hok).2.2.trans hfresh
    have hx : x ∉ w.hub := fun hx => Nat.not_le.mpr (ho.hub_allocated hx) hbefore
    rw [hw.fresh hbefore, hnew hx]
    rfl
  · intro hx'
    by_cases hx : x ∈ w.hub
    · exact ((step_fed ho hx hok).grown hx' (hw.active hx)).active
    · exact (step_newborn hx hok hx').2.active
  · intro hx'
    by_cases hx : x ∈ w.hub
    · obtain ⟨more, -, htrace, hmore, -, -⟩ :=
        ((step_fed ho hx hok).grown hx' (hw.active hx)).appendedBy hx hok
      exact htrace ▸ (hw.adopted hx).append hmore
    · exact (step_newborn hx hok hx').2.adopted
  · intro hx'
    by_cases hx : x ∈ w.hub
    · obtain ⟨frames, hpast, hcarries⟩ := hw.carries hx
      obtain ⟨more, frames', htrace, hmore, hout, hcarries'⟩ :=
        ((step_fed ho hx hok).grown hx' (hw.active hx)).appendedBy hx hok
      refine ⟨frames ++ frames', ?_, ?_⟩
      · rw [hpast, hout, List.flatMap_append]
      · rw [htrace, sinceAdoption_append _ hmore]
        exact hcarries.append hcarries'
    · obtain ⟨hfresh, hborn⟩ := step_newborn hx hok hx'
      refine ⟨[], ?_, carries_nil hborn.silent⟩
      rw [hw.fresh hfresh, hnew hx]
      rfl

theorem listening_runServer
    (x : WsId) (hrun : runServer cfg events = .ok w) :
    Listening cfg.json x (appended cfg events x) w := by
  have hstart : Orderly World.init ∧ Listening cfg.json x [] World.init := by
    refine ⟨orderly_init, fun _ => rfl, ?_, ?_, ?_⟩ <;>
      exact fun hx => absurd hx (UnorderedSet.not_mem_empty x)
  have hkeeps : ∀ past w₁ e w₂, Orderly w₁ ∧ Listening cfg.json x past w₁ →
      step cfg w₁ e = .ok w₂ →
        Orderly w₂ ∧ Listening cfg.json x (past ++ appendedBy cfg x w₁ e) w₂ := by
    rintro past w₁ e w₂ ⟨ho, hw₁⟩ hstep
    exact ⟨ho.step hstep, hw₁.step ho hstep⟩
  exact (outputs_invariant (I := fun past w => Orderly w ∧ Listening cfg.json x past w)
    hkeeps hstart hrun).2

theorem appended_transmits
    (hrun : runServer cfg events = .ok w) (hx : x ∈ w.hub) :
    Transmits cfg.json (sinceAdoption x w.trace) (appended cfg events x) := by
  obtain ⟨frames, happended, hcarries⟩ := (listening_runServer x hrun).carries hx
  rw [happended]
  exact hcarries.transmits

/-- In every run, the room keeps the last messages in the order in which they have been added;
and what is appended to the write buffer of a connection of the hub carries the messages added
since its adoption, each once and in that order.  So two connections agree on the order of the
messages that both receive. -/
theorem broadcasts_in_order
    (hrun : runServer cfg events = .ok w) :
    w.room.messages = (messagesOf w.trace).rtake Room.MAX_HISTORY ∧
      (∀ since, w.room.recentMessages since =
        ((messagesOf w.trace).rtake Room.MAX_HISTORY).filter fun m => m.time > since) ∧
      (∀ x ∈ w.hub, Adopted x w.trace ∧
        Transmits cfg.json (sinceAdoption x w.trace) (appended cfg events x)) ∧
      ∀ x ∈ w.hub, ∀ y ∈ w.hub,
        messagesOf (sinceAdoption x w.trace) <:+ messagesOf (sinceAdoption y w.trace) ∨
          messagesOf (sinceAdoption y w.trace) <:+ messagesOf (sinceAdoption x w.trace) := by
  have hkept := (recorded_runServer hrun).1
  refine ⟨hkept, hkept.recentMessages, ?_, ?_⟩
  · intro x hx
    exact ⟨(listening_runServer x hrun).adopted hx, appended_transmits hrun hx⟩
  · intro x _ y _
    rcases List.suffix_or_suffix_of_suffix (sinceAdoption_suffix x w.trace)
      (sinceAdoption_suffix y w.trace) with h | h
    · exact .inl (messagesOf_suffix h)
    · exact .inr (messagesOf_suffix h)

/-- Two connections are opened one after the other, and somebody speaks after each. -/
def twoListenersRun : List Event :=
  chatRun ++ [.accept 7, arrive 7 upgradeRequest, writable 7, arrive 6 (clientText chatBody)]

theorem broadcasts_in_order_twoListenersRun :
    ∃ w, runServer sampleConfig twoListenersRun = .ok w ∧ w.room.messages.length = 2 ∧
      (0 ∈ w.hub ∧ (messagesOf (sinceAdoption 0 w.trace)).length = 2) ∧
      (1 ∈ w.hub ∧ (messagesOf (sinceAdoption 1 w.trace)).length = 1) ∧
      w.room.messages = (messagesOf w.trace).rtake Room.MAX_HISTORY ∧
      (∀ x ∈ w.hub, ∀ frames, FramesOf (appended sampleConfig twoListenersRun x) frames →
        SentFrame.texts frames =
          (messagesOf (sinceAdoption x w.trace)).map (broadcastText sampleConfig.json)) := by
  obtain ⟨w, hrun, hw⟩ := exists_ok_of_any
    (runServer sampleConfig twoListenersRun)
    (fun w => (∀ m ∈ messagesOf w.trace,
        (broadcastText sampleConfig.json m).length < 2 ^ 64) ∧
      w.room.messages.length = 2 ∧
      (0 ∈ w.hub ∧ (messagesOf (sinceAdoption 0 w.trace)).length = 2) ∧
      1 ∈ w.hub ∧ (messagesOf (sinceAdoption 1 w.trace)).length = 1)
    (by decide +kernel)
  obtain ⟨hsize, hlength, hfirst, hsecond⟩ := of_decide_eq_true hw
  obtain ⟨hroom, -, htexts, -⟩ := broadcasts_in_order hrun
  refine ⟨w, hrun, hlength, hfirst, hsecond, hroom, ?_⟩
  intro x hx
  have hsince := messagesOf_suffix (sinceAdoption_suffix x w.trace)
  exact (htexts x hx).2.only fun m hm => hsize m (hsince.subset hm)

end Runs

end Web
end ChatRoom
