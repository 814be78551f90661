import ChatRoom.Web.Broadcast
import ChatRoom.Web.Departure
import ChatRoom.Ws.FrameReader

/-!
# What a browser reads on its socket

A browser asks for a WebSocket connection over HTTP and stays until it is answered.  Then
there is no gap between the responses and the frames: everything sent on the socket is the
responses of the HTTP connection, as a whole, and behind them the frames of the WebSocket
connection.  The browser reads these frames one by one, and their texts are the messages
added since the adoption, each once and in order, up to what has not been sent yet
(`subscribers_read`).
-/

namespace ChatRoom
namespace Web

open Http Socket Runs Ws Incremental

/-- What has been sent on the socket of a connection since it was adopted. -/
def sentSince (x : WsId) (socket : SocketId) (history : List Obs) : Bytes :=
  sentOn socket (sinceAdoption x history)

/-- What has been sent on the socket is the answers of the HTTP connection and then frames
that carry the messages since the adoption, of which some may be left to send. -/
structure Subscribed (J : JsonLib) (x : WsId) (s : SocketId) (w : World) : Prop where
  active : (w.wss x).state = .ACTIVE
  whole : sentOn s w.trace = answered s w.trace ++ sentSince x s w.trace
  frames : ∃ frames, sentSince x s w.trace ++ (w.wss x).writeBuf.readable =
    frames.flatMap SentFrame.wire ∧ Carries J (sinceAdoption x w.trace) frames

section Adoptions

variable {cfg : Config} {h : HttpId} {x : WsId} {s : SocketId} {calls : List RequestCall}
  {received : List Arrival} {w w' : World} {e : Event}

/-- Closing a connection adds at most the connection that is adopted to the hub. -/
theorem httpClose_hub
    (hok : HttpConnection.close (HttpServer.callbacks cfg) w h = .ok w') (hx : x ∈ w'.hub) :
    x ∈ w.hub ∨ ∃ user,
      w'.trace = w.trace ++ [.adopt (w.sockets (w.https h).fd) x user] := by
  by_cases hclosed : (w.https h).state = .CLOSED
  · rw [HttpConnection.close, if_pos hclosed, Except.ok.injEq] at hok
    exact .inl (hok ▸ hx)
  · obtain ⟨w₁, hclose, rfl⟩ := HttpConnection.close_cases hclosed hok
    have hend (w₁ : World) :
        (if (w₁.https h).upgraded then w₁ else w₁.closeFd (w₁.https h).fd).hub = w₁.hub ∧
          (if (w₁.https h).upgraded then w₁ else w₁.closeFd (w₁.https h).fd).trace =
            w₁.trace := by
      split
      · exact ⟨rfl, rfl⟩
      · exact ⟨rfl, rfl⟩
    rw [(hend w₁).1] at hx
    rw [(hend w₁).2]
    rcases HttpServer.onClose_cases hclose with ⟨-, -, w₂, hadopt, rfl⟩ | ⟨-, rfl⟩
    · have htrace := (adoptConnection_spec rfl hadopt).2.2.1
      have hhub := (adoptConnection_room hadopt).2
      rw [HttpConnection.https_detached] at htrace
      have hx : x ∈ w₂.hub := hx
      rw [hhub, UnorderedSet.mem_insert] at hx
      rcases hx with hnew | hold
      · exact .inr ⟨_, hnew ▸ htrace⟩
      · exact .inl hold
    · exact .inl hx

/-- A connection that enters the hub does so at the end of an event of the HTTP connection
on its socket.  If the peer has stayed, everything answered has been sent by then. -/
theorem step_adopts
    (hw : Exchanging cfg s calls received w) (hstays : Stays s w e)
    (hok : step cfg w e = .ok w') (hx : x ∉ w.hub) (hx' : x ∈ w'.hub)
    (hsocket : w'.sockets (w'.wss x).fd = s) :
    sinceAdoption x w'.trace = [] ∧ sentOn s w'.trace = answered s w'.trace := by
  have hregistered' := (hw.orderly.step hok).hub_registered hx'
  cases step_cases hok with
  | idle now files =>
      exact absurd hx' hx
  | accept hnew haccept =>
      rw [(onAccept_room haccept).2] at hx'
      exact absurd hx' hx
  | @handle fd events input sends t _ ht hhandle =>
      have haside := handleEvent_aside ht hhandle
      cases t with
      | ws y =>
          exact absurd (wsEvent_hub ht hhandle hx') hx
      | http h =>
          have hfd : w.fdOf (.http h) = fd := (hw.numbered.connections.registered fd _ ht).1
          have hxfd : (w'.wss x).fd = fd := by
            rcases haside.registered _ _ hregistered' with hold | ⟨hxfd, -, -⟩
            · have hlt : x < w.wsAllocated := (hw.orderly.registered hold).2.1
              have hnew : w.wsAllocated ≤ x := (step_newborn hx hok hx').1
              exact absurd hnew (Nat.not_le.mpr hlt)
            · exact hxfd.trans hfd
          rw [hxfd, haside.sockets] at hsocket
          obtain rfl : h = s := (hw.numbered.http fd h ht).1.symm.trans hsocket
          obtain ⟨-, ⟨-, hhub⟩ | ⟨w₁, hw₁, hhub, hempty, hclose⟩⟩ :=
            handleEvent_ends hw ht hstays hhandle
          · exact absurd (hhub ▸ hx') hx
          · obtain hmem | ⟨user, htrace⟩ := httpClose_hub hclose hx'
            · exact absurd (hhub ▸ hmem) hx
            · have hsent := hw₁.sent_close hempty hclose
              rw [← hsent, htrace, sinceAdoption_adopt, hw₁.onSocket,
                sentBefore_passOn hw₁.kept, sentOn_append]
              exact ⟨rfl, List.append_nil _⟩

/-- Nobody answers for a connection whose socket has been passed on. -/
theorem step_answered
    (hs : Numbered w.sessions) (hpast : PassedOn s w.trace) (hok : step cfg w e = .ok w') :
    answered s w'.trace = answered s w.trace := by
  cases step_cases hok with
  | idle now files =>
      rfl
  | accept hnew haccept =>
      rw [(onAccept_accepted haccept).trace]
  | handle ht hhandle =>
      refine (handleEvent_aside ht hhandle).answered ?_
      rintro rfl
      exact (hs.http _ s ht).2.2 ((passedOn_sessions s w).mpr hpast)

/-- A connection of the hub keeps its descriptor and its socket. -/
theorem step_socket
    (ho : Orderly w) (hok : step cfg w e = .ok w') (hx : x ∈ w.hub) (hx' : x ∈ w'.hub) :
    (w'.wss x).fd = (w.wss x).fd ∧ w'.sockets (w'.wss x).fd = w.sockets (w.wss x).fd := by
  have hregistered' := (ho.step hok).hub_registered hx'
  have hlt := ho.hub_allocated hx
  have hregistered := ho.hub_registered hx
  cases step_cases hok with
  | idle now files =>
      exact ⟨rfl, rfl⟩
  | accept hnew haccept =>
      have hacc := onAccept_accepted haccept
      obtain ⟨-, -, hopen, -⟩ := ho.registered hregistered
      rw [hacc.wss, hacc.sockets, Function.update_of_ne]
      · exact ⟨rfl, rfl⟩
      · rintro hfd
        rw [hfd, hnew] at hopen
        cases hopen
  | handle ht hhandle =>
      have haside := handleEvent_aside ht hhandle
      rcases haside.registered _ _ hregistered' with hold | ⟨-, -, y, heq, hnew⟩
      · have hfd : (w.wss x).fd = (w'.wss x).fd := (ho.registered hold).1
        rw [haside.sockets, hfd]
        exact ⟨rfl, rfl⟩
      · cases heq
        exact absurd hnew (Nat.not_le.mpr hlt)

end Adoptions

section Runs

variable {cfg : Config} {events : List Event} {x : WsId} {s : SocketId}
  {calls : List RequestCall} {received : List Arrival} {w w' : World} {e : Event}

/-- What a step adds to the output of a connection that stays in the hub. -/
theorem Subscribed.grows
    (hv : Subscribed cfg.json x s w) (ho : Orderly w) (hx : x ∈ w.hub) (hx' : x ∈ w'.hub)
    (hsocket : w.sockets (w.wss x).fd = s) (hok : step cfg w e = .ok w') :
    ∃ more frames, w'.trace = w.trace ++ more ∧ (w'.wss x).state = .ACTIVE ∧
      sinceAdoption x w'.trace = sinceAdoption x w.trace ++ more ∧
      sentSince x s w'.trace = sentSince x s w.trace ++ sentOn s more ∧
      sentOn s more ++ (w'.wss x).writeBuf.readable =
        (w.wss x).writeBuf.readable ++ frames.flatMap SentFrame.wire ∧
      Carries cfg.json more frames := by
  obtain ⟨hactive, more, frames, htrace, hmore, hout, hcarries⟩ :=
    (step_fed ho hx hok).grown hx' hv.active
  rw [hsocket] at hout
  have hsince := sinceAdoption_append w.trace hmore
  rw [← htrace] at hsince
  refine ⟨more, frames, htrace, hactive, hsince, ?_, hout, hcarries⟩
  rw [sentSince, hsince, sentOn_append]
  rfl

theorem Subscribed.step
    (hw : Exchanging cfg s calls received w) (hx : x ∈ w.hub) (hx' : x ∈ w'.hub)
    (hsocket : w.sockets (w.wss x).fd = s) (hv : Subscribed cfg.json x s w)
    (hok : step cfg w e = .ok w') :
    Subscribed cfg.json x s w' := by
  have hpast : PassedOn s w.trace := by
    rw [← passedOn_sessions, ← hsocket]
    exact hw.numbered.ws _ x (hw.orderly.hub_registered hx)
  have hanswered := step_answered hw.numbered hpast hok
  obtain ⟨more, frames', htrace, hactive, hsince, hsent, hout, hcarries'⟩ :=
    hv.grows hw.orderly hx hx' hsocket hok
  obtain ⟨frames, hframes, hcarries⟩ := hv.frames
  refine ⟨hactive, ?_, frames ++ frames', ?_, ?_⟩
  · rw [hanswered, hsent, htrace, sentOn_append, hv.whole, List.append_assoc]
  · rw [hsent, List.append_assoc, hout, ← List.append_assoc, hframes, List.flatMap_append]
  · rw [hsince]
    exact hcarries.append hcarries'

/-- A connection that is new in the hub. -/
theorem subscribed_new
    (hw : Exchanging cfg s calls received w) (hstays : Stays s w e)
    (hok : step cfg w e = .ok w') (hx : x ∉ w.hub) (hx' : x ∈ w'.hub)
    (hsocket : w'.sockets (w'.wss x).fd = s) :
    Subscribed cfg.json x s w' := by
  obtain ⟨hsince, hsent⟩ := step_adopts hw hstays hok hx hx' hsocket
  have hborn := (step_newborn hx hok hx').2
  have hnothing : sentSince x s w'.trace = [] := by
    rw [sentSince, hsince]
    rfl
  refine ⟨hborn.active, ?_, [], ?_, ?_⟩
  · rw [hnothing, List.append_nil, hsent]
  · rw [hnothing, hborn.writeBuf]
    rfl
  · rw [hsince]
    exact carries_nil rfl

/-- What has been sent of the frames is read as a front of the messages. -/
theorem Subscribed.reads
    {J : JsonLib} (hv : Subscribed J x s w)
    (hsize : ∀ m ∈ messagesOf (sinceAdoption x w.trace), (broadcastText J m).length < 2 ^ 64) :
    (serverFrameDecoder.drain (sentSince x s w.trace)).failed = false ∧
      SentFrame.texts (serverFrameDecoder.drain (sentSince x s w.trace)).items <+:
        (messagesOf (sinceAdoption x w.trace)).map (broadcastText J) ∧
      ((w.wss x).writeBuf.readableBytes = 0 →
        SentFrame.texts (serverFrameDecoder.drain (sentSince x s w.trace)).items =
          (messagesOf (sinceAdoption x w.trace)).map (broadcastText J)) := by
  obtain ⟨frames, hframes, hcarries⟩ := hv.frames
  obtain ⟨hitems, hok, hall⟩ := drain_frames (hcarries.all_fit hsize)
    (⟨_, hframes⟩ : sentSince x s w.trace <+: frames.flatMap SentFrame.wire)
  rw [← hcarries.texts]
  refine ⟨hok, (hitems.filter _).map _, fun hempty => ?_⟩
  have hnone : (w.wss x).writeBuf.readable = [] := by
    rw [← List.length_eq_zero_iff, Buffer.length_readable]
    exact hempty
  rw [hnone, List.append_nil] at hframes
  have hwhole : frames <+: (serverFrameDecoder.drain (sentSince x s w.trace)).items :=
    hall frames List.prefix_rfl (by rw [hframes])
  rw [hitems.eq_of_length (Nat.le_antisymm hitems.length_le hwhole.length_le)]

/-- If the peer stays while the socket is an HTTP connection, there is no gap. -/
theorem subscribed_runServer
    (hrun : runServer cfg events = .ok w)
    (hstays : Meets (Stays s) (step cfg) World.init events) (x : WsId) :
    (∃ calls received, Exchanging cfg s calls received w) ∧
      (x ∈ w.hub → w.sockets (w.wss x).fd = s → Subscribed cfg.json x s w) := by
  have hkeeps : ∀ calls received w₁ e w₂,
      Exchanging cfg s calls received w₁ ∧
          (x ∈ w₁.hub → w₁.sockets (w₁.wss x).fd = s → Subscribed cfg.json x s w₁) →
        Stays s w₁ e → step cfg w₁ e = .ok w₂ →
          Exchanging cfg s (calls ++ callsOf cfg w₁ e) (received ++ arrivals w₁ e) w₂ ∧
            (x ∈ w₂.hub → w₂.sockets (w₂.wss x).fd = s → Subscribed cfg.json x s w₂) := by
    rintro calls received w₁ e w₂ ⟨hw₁, hv⟩ hstays hok
    refine ⟨hw₁.step hok, fun hx₂ hsocket₂ => ?_⟩
    by_cases hx₁ : x ∈ w₁.hub
    · have hsocket₁ : w₁.sockets (w₁.wss x).fd = s := by
        rw [← (step_socket hw₁.orderly hok hx₁ hx₂).2]
        exact hsocket₂
      exact (hv hx₁ hsocket₁).step hw₁ hx₁ hx₂ hsocket₁ hok
    · exact subscribed_new hw₁ hstays hok hx₁ hx₂ hsocket₂
  have hstart : x ∈ World.init.hub → World.init.sockets (World.init.wss x).fd = s →
      Subscribed cfg.json x s World.init :=
    fun hx => absurd hx (UnorderedSet.not_mem_empty x)
  have hall := outputs_invariant_both
    (I := fun calls received w => Exchanging cfg s calls received w ∧
      (x ∈ w.hub → w.sockets (w.wss x).fd = s → Subscribed cfg.json x s w))
    hkeeps ⟨exchanging_init cfg s, hstart⟩ hstays hrun
  exact ⟨⟨_, _, hall.1⟩, hall.2⟩

/-- In every run, consider a connection of the hub whose peer has stayed while its socket was
an HTTP connection.  Everything sent on the socket is the responses, as a whole, and then
frames, and a browser reads of them the texts of the messages added since the adoption, each
once and in order: a front, and all of them if nothing is left to send. -/
theorem subscribers_read
    (hrun : runServer cfg events = .ok w) (hx : x ∈ w.hub)
    (hsocket : w.sockets (w.wss x).fd = s)
    (hstays : Meets (Stays s) (step cfg) World.init events)
    (hsize : ∀ m ∈ messagesOf (sinceAdoption x w.trace),
      (broadcastText cfg.json m).length < 2 ^ 64) :
    sentOn s w.trace =
        (responsesTo s w.trace).flatMap HttpResponse.toString ++ sentSince x s w.trace ∧
      (serverFrameDecoder.drain (sentSince x s w.trace)).failed = false ∧
      SentFrame.texts (serverFrameDecoder.drain (sentSince x s w.trace)).items <+:
        (messagesOf (sinceAdoption x w.trace)).map (broadcastText cfg.json) ∧
      ((w.wss x).writeBuf.readableBytes = 0 →
        SentFrame.texts (serverFrameDecoder.drain (sentSince x s w.trace)).items =
          (messagesOf (sinceAdoption x w.trace)).map (broadcastText cfg.json)) := by
  have hv := (subscribed_runServer hrun hstays x).2 hx hsocket
  refine ⟨?_, hv.reads hsize⟩
  rw [← answered_eq]
  exact hv.whole

theorem subscribers_read_twoListenersRun :
    ∃ w, runServer sampleConfig (twoListenersRun ++ [writable 6]) = .ok w ∧ 0 ∈ w.hub ∧
      (messagesOf (sinceAdoption 0 w.trace)).length = 2 ∧
      SentFrame.texts (serverFrameDecoder.drain (sentSince 0 1 w.trace)).items =
        (messagesOf (sinceAdoption 0 w.trace)).map (broadcastText sampleConfig.json) := by
  obtain ⟨w, hrun, hw⟩ := exists_ok_of_any
    (runServer sampleConfig (twoListenersRun ++ [writable 6]))
    (fun w => (∀ m ∈ messagesOf (sinceAdoption 0 w.trace),
        (broadcastText sampleConfig.json m).length < 2 ^ 64) ∧
      0 ∈ w.hub ∧ (messagesOf (sinceAdoption 0 w.trace)).length = 2 ∧
      w.sockets (w.wss 0).fd = 1 ∧ (w.wss 0).writeBuf.readableBytes = 0)
    (by decide +kernel)
  obtain ⟨hsize, hx, htwo, hsocket, hempty⟩ := of_decide_eq_true hw
  have htest : meetsTest (fun w e => decide (Stays 1 w e)) (step sampleConfig) World.init
      (twoListenersRun ++ [writable 6]) = true := by
    decide +kernel
  have hstays : Meets (Stays 1) (step sampleConfig) World.init
      (twoListenersRun ++ [writable 6]) :=
    meets_of_test (fun _ _ => of_decide_eq_true) htest
  obtain ⟨-, -, -, hread⟩ := subscribers_read hrun hx hsocket hstays hsize
  exact ⟨w, hrun, hx, htwo, hread hempty⟩

end Runs

section Progress

variable {cfg : Config} {front rest : List Event} {x : WsId} {s : SocketId} {fd : Fd}
  {calls : List RequestCall} {received : List Arrival} {w₀ w w' : World} {e : Event}

/-- If `::send` accepts something, bytes from the front of the write buffer are sent. -/
theorem onWrite_sends
    (J : JsonLib) (w : World) (x : WsId) (hopen : w.openFds (w.wss x).fd = true)
    (hsome : (w.wss x).writeBuf.readable ≠ []) (want : Nat) (sends : List SendResult) :
    ∃ more, (WsConnection.onWrite (WsHub.callbacks J) x w (.accepts want :: sends)).trace =
      w.trace ++ more ∧ sentOn (w.sockets (w.wss x).fd) more ≠ [] := by
  have hlen := (w.wss x).writeBuf.length_readable
  have hpos : 0 < (w.wss x).writeBuf.readableBytes := by
    rw [← hlen]
    exact List.length_pos_iff.mpr hsome
  rw [WsConnection.onWrite, if_pos hpos, sendResult, if_pos hopen]
  dsimp only
  generalize hn : sendSize want (w.wss x).writeBuf.readableBytes = n
  have hn : 0 < n := by
    rw [← hn, sendSize]
    omega
  have hrule := aside_ws J x (WsConnection.wrote w x n)
  have haside := WsConnection.onWrite_keeps hrule.wrote hrule.close (fun w₁ _ => hrule.flushed w₁)
    (.refl _ _) sends
  obtain ⟨more, htrace, -⟩ := haside.history
  refine ⟨.wrote (w.sockets (w.wss x).fd) ((w.wss x).writeBuf.readable.take n) :: more, ?_, ?_⟩
  · have hwrote : (WsConnection.wrote w x n).trace = w.trace ++
        [.wrote (w.sockets (w.wss x).fd) ((w.wss x).writeBuf.readable.take n)] := rfl
    rw [htrace, hwrote, List.append_assoc, List.singleton_append]
  · have hfirst : (w.wss x).writeBuf.readable.take n ≠ [] := by
      rw [← List.length_pos_iff, List.length_take]
      omega
    simp [sentOn, hfirst]

/-- A connection that has read, has something to send and stays in the hub. -/
theorem sends_of_read
    {w₁ : World} {events : Ready} {input : Input} {want : Nat} {sends : List SendResult}
    (ho : Orderly w) (hx : x ∈ w.hub) (hx' : x ∈ w'.hub) (hactive : (w.wss x).state = .ACTIVE)
    (hsome : (w.wss x).writeBuf.readable ≠ [])
    (hread : (if events.failure || events.input then
      readCallback cfg w input (.ws x) else .ok w) = .ok w₁)
    (hwrite : WsConnection.onWrite (WsHub.callbacks cfg.json) x w₁ (.accepts want :: sends) =
      w') :
    ∃ more, w'.trace = w.trace ++ more ∧ sentOn (w.sockets (w.wss x).fd) more ≠ [] := by
  have hrule := fed_ws_own (J := cfg.json) x w
  have hfirst : Aside (.ws x) w w₁ ∧ Fed cfg.json x (w.sockets (w.wss x).fd) w w₁ := by
    have hstart : Aside (.ws x) w w ∧ Fed cfg.json x (w.sockets (w.wss x).fd) w w :=
      ⟨.refl _ w, .refl _ x _ w⟩
    split at hread
    · exact WsConnection.onRead_keeps hrule.receive hrule.dispatch hrule.close hstart hread
    · cases hread
      exact hstart
  have hrule₁ := fed_ws_own (J := cfg.json) x w₁
  have hsecond := WsConnection.onWrite_keeps hrule₁.wrote hrule₁.close
    (fun w₂ _ => hrule₁.flushed w₂) ⟨.refl _ w₁, .refl _ x _ w₁⟩ (.accepts want :: sends)
  rw [hwrite] at hsecond
  obtain ⟨haside, hfed⟩ := hfirst
  have hx₁ : x ∈ w₁.hub := hsecond.2.hub hx'
  obtain ⟨-, more₁, frames, htrace₁, -, hout, -⟩ := hfed.grown hx₁ hactive
  obtain ⟨more₂, htrace₂, -⟩ := hsecond.1.history
  by_cases hsent : sentOn (w.sockets (w.wss x).fd) more₁ = []
  · rw [hsent, List.nil_append] at hout
    have hsome₁ : (w₁.wss x).writeBuf.readable ≠ [] := by
      rw [hout]
      exact fun hnil => hsome (List.append_eq_nil_iff.mp hnil).1
    have ho₁ : Orderly w₁ := ho.step (step_read (ho.hub_registered hx) hread)
    have hopen : w₁.openFds (w₁.wss x).fd = true :=
      (ho₁.registered (ho₁.hub_registered hx₁)).2.2.1
    obtain ⟨more, htrace, hmore⟩ := onWrite_sends cfg.json w₁ x hopen hsome₁ want sends
    rw [hwrite] at htrace
    have hsocket : w₁.sockets (w₁.wss x).fd = w.sockets (w.wss x).fd := by
      rw [haside.sockets, show (w₁.wss x).fd = (w.wss x).fd from haside.fdOf]
    refine ⟨more₁ ++ more, by rw [htrace, htrace₁, List.append_assoc], ?_⟩
    rw [sentOn_append, hsent, List.nil_append, ← hsocket]
    exact hmore
  · refine ⟨more₁ ++ more₂, by rw [htrace₂, htrace₁, List.append_assoc], ?_⟩
    rw [sentOn_append]
    exact fun hnil => hsent (List.append_eq_nil_iff.mp hnil).1

/-- If `::send` accepts something in an event of a connection that has something to send and
stays in the hub, then something is sent. -/
theorem step_sends
    (ho : Orderly w) (hx : x ∈ w.hub) (hx' : x ∈ w'.hub) (hactive : (w.wss x).state = .ACTIVE)
    (hsome : (w.wss x).writeBuf.readable ≠ []) (htakes : e.takesOn (w.wss x).fd = true)
    (hok : step cfg w e = .ok w') :
    ∃ more, w'.trace = w.trace ++ more ∧ sentOn (w.sockets (w.wss x).fd) more ≠ [] := by
  have ht := ho.hub_registered hx
  cases e with
  | accept | clock | files =>
      cases htakes
  | ready fd events input sends =>
      cases sends with
      | nil =>
          cases htakes
      | cons result sends =>
          cases result with
          | zero | again | error =>
              cases htakes
          | accepts want =>
              simp only [Event.takesOn, Bool.and_eq_true, decide_eq_true_eq,
                Bool.not_eq_true'] at htakes
              obtain ⟨rfl, houtput, hfailure⟩ := htakes
              rw [step, handleEvent, ht] at hok
              dsimp only at hok
              rw [hfailure, if_neg Bool.false_ne_true] at hok
              obtain ⟨w₁, hread, hwrite⟩ := bind_eq_ok.mp hok
              rw [houtput, if_pos rfl] at hwrite
              have hwrite : WsConnection.onWrite (WsHub.callbacks cfg.json) x w₁
                  (.accepts want :: sends) = w' := Except.ok.inj hwrite
              exact sends_of_read ho hx hx' hactive hsome (by rwa [hfailure]) hwrite

/-- A connection of the hub for which these frames have been queued since its adoption. -/
structure Queued (cfg : Config) (x : WsId) (s : SocketId) (fd : Fd) (queued : List SentFrame)
    (w : World) : Prop where
  exchanging : ∃ calls received, Exchanging cfg s calls received w
  member : x ∈ w.hub
  descriptor : (w.wss x).fd = fd
  onSocket : w.sockets (w.wss x).fd = s
  subscribed : Subscribed cfg.json x s w
  frames : ∃ more, sentSince x s w.trace ++ (w.wss x).writeBuf.readable =
    (queued ++ more).flatMap SentFrame.wire ∧
      Carries cfg.json (sinceAdoption x w.trace) (queued ++ more)

/-- How many of the bytes of the frames have not been sent yet. -/
def leftOf (queued : List SentFrame) (x : WsId) (s : SocketId) (w : World) : Nat :=
  (queued.flatMap SentFrame.wire).length - (sentSince x s w.trace).length

/-- The connection has left the hub. -/
def Left (x : WsId) (w : World) : Prop :=
  x ∉ w.hub ∧ x < w.wsAllocated

theorem Left.step
    (hw : Left x w) (hok : Web.step cfg w e = .ok w') :
    Left x w' := by
  refine ⟨fun hx' => ?_, hw.2.trans_le (step_grows hok).2.2⟩
  exact Nat.not_le.mpr hw.2 (step_newborn hw.1 hok hx').1

theorem Queued.step
    {queued : List SentFrame} (hw : Queued cfg x s fd queued w)
    (hok : Web.step cfg w e = .ok w') :
    Left x w' ∨ Queued cfg x s fd queued w' ∧
      leftOf queued x s w' ≤ leftOf queued x s w - (if e.takesOn fd then 1 else 0) := by
  obtain ⟨⟨calls, received, hex⟩, hx, rfl, hsocket, hv, later, hframes, hcarries⟩ := hw
  by_cases hx' : x ∈ w'.hub
  · obtain ⟨hfd, hsockets⟩ := step_socket hex.orderly hok hx hx'
    obtain ⟨more, frames, htrace, hactive, hsince, hsent, hout, hmore⟩ :=
      hv.grows hex.orderly hx hx' hsocket hok
    refine .inr ⟨⟨⟨_, _, hex.step hok⟩, hx', hfd, hsockets.trans hsocket,
      hv.step hex hx hx' hsocket hok, later ++ frames, ?_, ?_⟩, ?_⟩
    · rw [hsent, List.append_assoc, hout, ← List.append_assoc, hframes, ← List.append_assoc]
      exact List.flatMap_append.symm
    · rw [hsince, ← List.append_assoc]
      exact hcarries.append hmore
    · rw [leftOf, leftOf, hsent, List.length_append]
      by_cases htakes : e.takesOn (w.wss x).fd = true
      · rw [if_pos htakes]
        by_cases hsome : (w.wss x).writeBuf.readable = []
        · rw [hsome, List.append_nil, List.flatMap_append] at hframes
          have hlength := congrArg List.length hframes
          rw [List.length_append] at hlength
          omega
        · obtain ⟨more', htrace', hmore'⟩ :=
            step_sends hex.orderly hx hx' hv.active hsome htakes hok
          have hsame : more' = more := List.append_cancel_left (htrace'.symm.trans htrace)
          rw [hsame, hsocket, ← List.length_pos_iff] at hmore'
          omega
      · rw [if_neg htakes]
        omega
  · exact .inl ⟨hx', (hex.orderly.hub_allocated hx).trans_le (step_grows hok).2.2⟩

/-- A connection of the hub whose peer has stayed.  In every continuation in which it stays in
the hub and `::send` accepts something on its descriptor as often as there are bytes to send
now, whatever else happens meanwhile, a browser has read the texts of all messages added since
the adoption until now. -/
theorem messages_reach_subscribers
    (hfront : runServer cfg front = .ok w₀) (hx₀ : x ∈ w₀.hub)
    (hsocket : w₀.sockets (w₀.wss x).fd = s)
    (hstays : Meets (Stays s) (step cfg) World.init front)
    (hrun : run (step cfg) w₀ rest = .ok w) (hx : x ∈ w.hub)
    (hoften : (w₀.wss x).writeBuf.readableBytes ≤ rest.countP (Event.takesOn (w₀.wss x).fd))
    (hsize : ∀ m ∈ messagesOf (sinceAdoption x w.trace),
      (broadcastText cfg.json m).length < 2 ^ 64) :
    (messagesOf (sinceAdoption x w₀.trace)).map (broadcastText cfg.json) <+:
        SentFrame.texts (serverFrameDecoder.drain (sentSince x s w.trace)).items ∧
      SentFrame.texts (serverFrameDecoder.drain (sentSince x s w.trace)).items <+:
        (messagesOf (sinceAdoption x w.trace)).map (broadcastText cfg.json) := by
  obtain ⟨hex, hsubscribed⟩ := subscribed_runServer hfront hstays x
  have hv := hsubscribed hx₀ hsocket
  obtain ⟨frames₀, hframes₀, hcarries₀⟩ := hv.frames
  have hstart : Queued cfg x s (w₀.wss x).fd frames₀ w₀ := by
    refine ⟨hex, hx₀, rfl, hsocket, hv, [], ?_⟩
    rw [List.append_nil]
    exact ⟨hframes₀, hcarries₀⟩
  have hends : Left x w ∨ Queued cfg x s (w₀.wss x).fd frames₀ w ∧
      leftOf frames₀ x s w ≤
        leftOf frames₀ x s w₀ - rest.countP (Event.takesOn (w₀.wss x).fd) :=
    run_wears_down (fun _ _ _ hleft hok => hleft.step hok)
      (fun _ _ _ hw _ hok => hw.step hok) hstart (meets_true w₀ rest) hrun
  rcases hends with hleft | ⟨hw, hless⟩
  · exact absurd hx hleft.1
  · refine ⟨?_, (hw.subscribed.reads hsize).2.1⟩
    obtain ⟨later, hframes, hcarries⟩ := hw.frames
    obtain ⟨-, -, hall⟩ := drain_frames (hcarries.all_fit hsize)
      (⟨_, hframes⟩ : sentSince x s w.trace <+: (frames₀ ++ later).flatMap SentFrame.wire)
    -- as many bytes as the frames of that time have together have been sent
    have hsent : (frames₀.flatMap SentFrame.wire).length ≤ (sentSince x s w.trace).length := by
      have hqueued := congrArg List.length hframes₀
      rw [List.length_append, Buffer.length_readable] at hqueued
      rw [leftOf, leftOf] at hless
      omega
    have hwire : frames₀.flatMap SentFrame.wire <+: sentSince x s w.trace := by
      rw [List.flatMap_append] at hframes
      exact List.prefix_of_prefix_length_le ⟨_, hframes.symm⟩ ⟨_, rfl⟩ hsent
    rw [← hcarries₀.texts]
    exact ((hall frames₀ (List.prefix_append _ _) hwire).filter _).map _

theorem messages_reach_subscribers_twoListenersRun :
    ∃ w₀ w, runServer sampleConfig twoListenersRun = .ok w₀ ∧
      run (step sampleConfig) w₀ (List.replicate 134 (writable 6)) = .ok w ∧
      (messagesOf (sinceAdoption 0 w₀.trace)).length = 2 ∧
      (messagesOf (sinceAdoption 0 w₀.trace)).map (broadcastText sampleConfig.json) <+:
        SentFrame.texts (serverFrameDecoder.drain (sentSince 0 1 w.trace)).items := by
  obtain ⟨w₀, hfront, hw₀⟩ := exists_ok_of_any
    (runServer sampleConfig twoListenersRun)
    (fun w₀ => 0 ∈ w₀.hub ∧ (w₀.wss 0).fd = 6 ∧ w₀.sockets (w₀.wss 0).fd = 1 ∧
      (messagesOf (sinceAdoption 0 w₀.trace)).length = 2 ∧
      (w₀.wss 0).writeBuf.readableBytes ≤
        (List.replicate 134 (writable 6)).countP (Event.takesOn 6) ∧
      (run (step sampleConfig) w₀ (List.replicate 134 (writable 6))).toOption.any
        (fun w => decide (0 ∈ w.hub ∧ ∀ m ∈ messagesOf (sinceAdoption 0 w.trace),
          (broadcastText sampleConfig.json m).length < 2 ^ 64)) = true)
    (by decide +kernel)
  obtain ⟨hx₀, hfd, hsocket, htwo, hoften, hsome⟩ := of_decide_eq_true hw₀
  obtain ⟨w, hrun, hw⟩ := exists_ok_of_any _ _ hsome
  obtain ⟨hx, hsize⟩ := of_decide_eq_true hw
  have htest : meetsTest (fun w e => decide (Stays 1 w e)) (step sampleConfig) World.init
      twoListenersRun = true := by
    decide +kernel
  have hstays : Meets (Stays 1) (step sampleConfig) World.init twoListenersRun :=
    meets_of_test (fun _ _ => of_decide_eq_true) htest
  obtain ⟨hread, -⟩ :=
    messages_reach_subscribers hfront hx₀ hsocket hstays hrun hx (by rwa [hfd]) hsize
  exact ⟨w₀, w, hfront, hrun, htwo, hread⟩

end Progress

end Web
end ChatRoom
