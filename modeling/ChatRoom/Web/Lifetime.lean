import ChatRoom.Web.InputProtocol
import ChatRoom.Web.Registries

/-!
# Connections that have been released

The close callback of a connection removes it from its owner, which destroys it.  Nobody
should act on it from then on.  `close` reads its fields when the callback has returned,
and `handleEvent` may still call the write callback after the read callback has closed the
connection.  So nothing happens to a released connection only in runs in which no
connection is closed (`released_untouched_iff`).

The functions `lifeOf…` follow the code and list what happens to connections.
-/

namespace ChatRoom
namespace Web

open Http Socket Runs

/-- What happens to a connection. -/
inductive LifeObs where
  /-- `handleEvent` calls the read callback -/
  | onRead (t : Target)
  /-- `handleEvent` calls the write callback -/
  | onWrite (t : Target)
  /-- the close callback has removed the connection from its owner -/
  | released (t : Target)
  /-- the rest of `close` reads the fields of the connection -/
  | fields (t : Target)
deriving DecidableEq

/-- Nothing happens to a connection that has been released. -/
def Untouched (past : List LifeObs) : LifeObs → Prop
  | .released _ => True
  | .onRead t => .released t ∉ past
  | .onWrite t => .released t ∉ past
  | .fields t => .released t ∉ past

section Observations

variable (cfg : Config)

/-- `HttpConnection::close`: the callback erases the entry of the descriptor in `conns_`. -/
def HttpConnection.lifeOfClose (w : World) (h : HttpId) : List LifeObs :=
  if (w.https h).state = .CLOSED then
    []
  else
    match HttpServer.onClose cfg (HttpConnection.detached w h) h with
    | .error _ => []
    | .ok _ =>
        ((w.conns (w.https h).fd).toList.map fun h' => .released (.http h')) ++
          [.fields (.http h)]

/-- `HttpConnection::onRead`; a handler cannot close the connection. -/
def HttpConnection.lifeOfRead (w : World) (h : HttpId) (s : Input) : List LifeObs :=
  match recvLoop (s.pending.length + 1) (w.https h).readBuf s with
  | (readBuf, .hangup) =>
      HttpConnection.lifeOfClose cfg (w.setHttp h { w.https h with readBuf := readBuf }) h
  | (_, .drained) => []

/-- `HttpConnection::onWrite` -/
def HttpConnection.lifeOfWrite (h : HttpId) (w : World) (results : List SendResult) :
    List LifeObs :=
  if (w.https h).writeBuf.readableBytes > 0 then
    match results with
    | [] => []
    | result :: results =>
        match sendResult w (w.https h).fd result with
        | .accepts want =>
            lifeOfWrite h
              (HttpConnection.wrote w h (sendSize want (w.https h).writeBuf.readableBytes)) results
        | .again => []
        | .zero => HttpConnection.lifeOfClose cfg w h
        | .error => HttpConnection.lifeOfClose cfg w h
  else if (w.https h).closeAfterWrite then
    HttpConnection.lifeOfClose cfg w h
  else
    []

/-- `WsConnection::close`: the callback deletes the connection. -/
def WsConnection.lifeOfClose (w : World) (x : WsId) : List LifeObs :=
  if (w.wss x).state = .CLOSED then [] else [.released (.ws x), .fields (.ws x)]

/-- The loop of `WsConnection::onRead` over the frames in the read buffer. -/
def WsConnection.lifeOfLoop (cb : WsConnection.Callbacks) (x : WsId) :
    Nat → World → List LifeObs
  | 0, _ => []
  | fuel + 1, w =>
      let readBuf := (w.wss x).readBuf
      if readBuf.readableBytes < 2 then
        []
      else
        match (Ws.tryDecode readBuf.peek readBuf.readableBytes).result with
        | .error _ => []
        | .ok r =>
            if r.consumed = -1 then
              []
            else if r.consumed = 0 then
              WsConnection.lifeOfClose w x
            else
              let w := WsConnection.consume w x r.consumed
              match WsConnection.dispatch cb w x r.frame with
              | (w', true) => lifeOfLoop cb x fuel w'
              -- the frame is refused: `dispatch` has called `close`
              | (_, false) => WsConnection.lifeOfClose w x

/-- `WsConnection::onRead` -/
def WsConnection.lifeOfRead (cb : WsConnection.Callbacks) (w : World) (x : WsId) (s : Input) :
    List LifeObs :=
  match recvLoop (s.pending.length + 1) (w.wss x).readBuf s with
  | (readBuf, .hangup) =>
      WsConnection.lifeOfClose (w.setWs x { w.wss x with readBuf := readBuf }) x
  | (readBuf, .drained) =>
      WsConnection.lifeOfLoop cb x readBuf.readableBytes
        (w.setWs x { w.wss x with readBuf := readBuf })

/-- `WsConnection::onWrite` -/
def WsConnection.lifeOfWrite (x : WsId) (w : World) (results : List SendResult) :
    List LifeObs :=
  if (w.wss x).writeBuf.readableBytes > 0 then
    match results with
    | [] => []
    | result :: results =>
        match sendResult w (w.wss x).fd result with
        | .accepts want =>
            lifeOfWrite x
              (WsConnection.wrote w x (sendSize want (w.wss x).writeBuf.readableBytes)) results
        | .again => []
        | .zero => WsConnection.lifeOfClose w x
        | .error => WsConnection.lifeOfClose w x
  else if (w.wss x).closeAfterWrite then
    WsConnection.lifeOfClose w x
  else
    []

/-- The read callback of a target. -/
def lifeOfRead (w : World) (input : Input) (t : Target) : List LifeObs :=
  .onRead t ::
    match t with
    | .http h => HttpConnection.lifeOfRead cfg w h input
    | .ws x => WsConnection.lifeOfRead (WsHub.callbacks cfg.json) w x input

/-- The write callback of a target. -/
def lifeOfWrite (w : World) (sends : List SendResult) (t : Target) : List LifeObs :=
  .onWrite t ::
    match t with
    | .http h => HttpConnection.lifeOfWrite cfg h w sends
    | .ws x => WsConnection.lifeOfWrite x w sends

/-- `Reactor::handleEvent` -/
def lifeOfEvent (w : World) (fd : Fd) (events : Ready) (input : Input)
    (sends : List SendResult) : List LifeObs :=
  match w.reactor.contexts fd with
  | none => []
  | some t =>
      if events.failure then
        lifeOfRead cfg w input t
      else
        (if events.input then lifeOfRead cfg w input t else []) ++
          match if events.input then readCallback cfg w input t else .ok w with
          | .error _ => []
          | .ok w => if events.output then lifeOfWrite cfg w sends t else []

/-- What happens to connections in a step. -/
def lifeOfStep (w : World) : Event → List LifeObs
  | .ready fd events input sends => lifeOfEvent cfg w fd events input sends
  | _ => []

end Observations

/-- The output of a connection ends it: everything leaves and the connection is to be
closed, or `::send` fails before. -/
def sendsEnd (closing : Bool) : Nat → List SendResult → Bool
  | 0, _ => closing
  | _ + 1, [] => false
  | left + 1, .accepts want :: sends =>
      sendsEnd closing (left + 1 - sendSize want (left + 1)) sends
  | _ + 1, .again :: _ => false
  | _ + 1, .zero :: _ => true
  | _ + 1, .error :: _ => true

/-- The bytes end in something that is not a frame, or in a frame that is not supported. -/
def WsConnection.LoopEnd.isError : WsConnection.LoopEnd → Bool
  | .rejects => true
  | .refuses _ => true
  | .waits => false
  | .throws _ => false

/-- A read does not end the connection: the peer is there, and sends valid frames. -/
def ReadSpares (w : World) (input : Input) : Target → Prop
  | .http h => (w.https h).state = .ACTIVE → input.idle = .again
  | .ws x =>
      (w.wss x).state = .ACTIVE →
        input.idle = .again ∧ (WsConnection.received w x input).ending.isError = false

/-- A write does not end the connection. -/
def WriteSpares (w : World) (sends : List SendResult) : Target → Prop
  | .http h =>
      (w.https h).state = .ACTIVE →
        sendsEnd (w.https h).closeAfterWrite (w.https h).writeBuf.readableBytes
          (sends.map (sendResult w (w.https h).fd)) = false
  | .ws x =>
      (w.wss x).state = .ACTIVE →
        sendsEnd (w.wss x).closeAfterWrite (w.wss x).writeBuf.readableBytes
          (sends.map (sendResult w (w.wss x).fd)) = false

/-- An event does not end the connection that it is about. -/
def Spares (cfg : Config) (w : World) : Event → Prop
  | .ready fd events input sends =>
      ∀ t, w.reactor.contexts fd = some t →
        (events.failure = true ∨ events.input = true → ReadSpares w input t) ∧
          ∀ w₁, (if events.input then readCallback cfg w input t else .ok w) = .ok w₁ →
            events.failure = false → events.output = true → WriteSpares w₁ sends t
  | _ => True

/-- A connection that ends is released, and its fields are read. -/
def releaseIf (t : Target) (ends : Bool) : List LifeObs :=
  if ends then [.released t, .fields t] else []

/-- An open connection is in the table of its owner. -/
def Owned (w : World) : Target → Prop
  | .http h => (w.https h).state = .ACTIVE → w.conns (w.https h).fd = some h
  | .ws _ => True

section Http

variable {cfg : Config} {h : HttpId} {w : World}

/-- A descriptor that is not in the epoll set can be adopted. -/
theorem exists_adoptConnection
    {fd : Fd} (hfree : w.reactor.interest fd = none) (username : String) :
    ∃ w', WsHub.adoptConnection w fd username = .ok w' := by
  have hfd : ((w.setWs w.wsAllocated (WsConnection.new fd username)).wss w.wsAllocated).fd =
      fd := by
    simp [World.setWs, WsConnection.new]
  obtain ⟨r, hadd⟩ : ∃ r, w.reactor.addFd
      ((w.setWs w.wsAllocated (WsConnection.new fd username)).wss w.wsAllocated).fd EPOLLIN
      (.ws w.wsAllocated) = .ok r := by
    rw [hfd, Reactor.addFd, hfree]
    exact ⟨_, rfl⟩
  exact ⟨_, map_eq_ok.mpr ⟨_, map_eq_ok.mpr ⟨r, hadd, rfl⟩, rfl⟩⟩

/-- The close callback of an HTTP connection does not fail. -/
theorem exists_onClose
    (cfg : Config) (w : World) (h : HttpId) :
    ∃ w₁, HttpServer.onClose cfg (HttpConnection.detached w h) h = .ok w₁ := by
  rw [HttpServer.onClose, HttpConnection.https_detached]
  dsimp only
  split
  · split
    · have hfree : (HttpConnection.detached w h).reactor.interest (w.https h).fd = none := by
        simp [HttpConnection.detached, World.removeFd, Reactor.removeFd]
      obtain ⟨w₁, hadopt⟩ := exists_adoptConnection hfree (w.https h).upgradedUser
      exact ⟨_, map_eq_ok.mpr ⟨w₁, hadopt, rfl⟩⟩
    · exact ⟨_, rfl⟩
  · exact ⟨_, rfl⟩

theorem HttpConnection.lifeOfClose_eq
    (cfg : Config) (howned : Owned w (.http h)) :
    HttpConnection.lifeOfClose cfg w h = releaseIf (.http h) ((w.https h).state = .ACTIVE) := by
  rw [HttpConnection.lifeOfClose]
  cases hstate : (w.https h).state with
  | CLOSED =>
      rfl
  | ACTIVE =>
      obtain ⟨w₁, hclose⟩ := exists_onClose cfg w h
      rw [if_neg (by decide), hclose, howned hstate]
      rfl

theorem HttpConnection.lifeOfRead_eq
    (howned : Owned w (.http h)) (s : Input) :
    HttpConnection.lifeOfRead cfg w h s =
      releaseIf (.http h) ((w.https h).state = .ACTIVE && s.idle ≠ .again) := by
  obtain ⟨-, hend⟩ := recvLoop_spec (s := s) (w.https h).readBuf (Nat.lt_succ_self _)
  rw [HttpConnection.lifeOfRead]
  cases hrecv : recvLoop (s.pending.length + 1) (w.https h).readBuf s with
  | mk readBuf ending =>
      rw [hrecv] at hend
      cases ending with
      | drained =>
          have hidle : s.idle = .again := hend.mp rfl
          simp [releaseIf, hidle]
      | hangup =>
          have hidle : s.idle ≠ .again := fun hagain => by cases hend.mpr hagain
          have hconn : (w.setHttp h { w.https h with readBuf := readBuf }).https h =
              { w.https h with readBuf := readBuf } := Function.update_self _ _ _
          have howned' : Owned (w.setHttp h { w.https h with readBuf := readBuf }) (.http h) := by
            rw [Owned, hconn]
            exact howned
          dsimp only
          rw [lifeOfClose_eq cfg howned', hconn]
          simp [hidle]

/-- When there is nothing to write, only a connection that is to be closed is released. -/
theorem HttpConnection.lifeOfWrite_empty
    (howned : Owned w (.http h)) (hleft : (w.https h).writeBuf.readableBytes = 0)
    (sends : List SendResult) :
    HttpConnection.lifeOfWrite cfg h w sends =
      releaseIf (.http h) ((w.https h).state = .ACTIVE && (w.https h).closeAfterWrite) := by
  rw [HttpConnection.lifeOfWrite.eq_def, hleft, if_neg (Nat.lt_irrefl 0)]
  cases (w.https h).closeAfterWrite with
  | false =>
      simp [releaseIf]
  | true =>
      simp [lifeOfClose_eq cfg howned]

theorem HttpConnection.lifeOfWrite_eq
    (howned : Owned w (.http h)) (sends : List SendResult) :
    HttpConnection.lifeOfWrite cfg h w sends =
      releaseIf (.http h) ((w.https h).state = .ACTIVE &&
        sendsEnd (w.https h).closeAfterWrite (w.https h).writeBuf.readableBytes
          (sends.map (sendResult w (w.https h).fd))) := by
  induction sends generalizing w with
  | nil =>
      cases hleft : (w.https h).writeBuf.readableBytes with
      | zero =>
          rw [lifeOfWrite_empty howned hleft, sendsEnd]
      | succ left =>
          simp [HttpConnection.lifeOfWrite, hleft, sendsEnd, releaseIf]
  | cons result sends ih =>
      cases hleft : (w.https h).writeBuf.readableBytes with
      | zero =>
          rw [lifeOfWrite_empty howned hleft, sendsEnd]
      | succ left =>
          rw [HttpConnection.lifeOfWrite, List.map_cons, hleft, if_pos (Nat.succ_pos left)]
          cases hresult : sendResult w (w.https h).fd result with
          | accepts want =>
              dsimp only
              generalize hn : sendSize want (left + 1) = n
              have hconn : (HttpConnection.wrote w h n).https h =
                  { w.https h with writeBuf := (w.https h).writeBuf.consume n } :=
                Function.update_self _ _ _
              have howned' : Owned (HttpConnection.wrote w h n) (.http h) := by
                rw [Owned, hconn]
                exact howned
              rw [ih howned', hconn, sendsEnd, hn]
              dsimp only
              rw [Buffer.readableBytes_consume, hleft]
              rfl
          | again =>
              simp [sendsEnd, releaseIf]
          | zero | error =>
              simp [sendsEnd, lifeOfClose_eq cfg howned]

end Http

section Ws

variable {J : JsonLib} {x : WsId} {w : World}

theorem WsConnection.lifeOfClose_eq
    (w : World) (x : WsId) :
    WsConnection.lifeOfClose w x = releaseIf (.ws x) ((w.wss x).state = .ACTIVE) := by
  rw [WsConnection.lifeOfClose]
  cases (w.wss x).state with
  | ACTIVE | CLOSED =>
      rfl

/-- A frame behind which the loop goes on does not close the connection. -/
theorem WsConnection.state_dispatch
    (J : JsonLib) (w : World) (x : WsId) {f : Ws.Frame} (hgo : goesOn f = true) :
    ((dispatch (WsHub.callbacks J) w x f).1.wss x).state = (w.wss x).state := by
  rcases goesOn_iff.mp hgo with hf | hf | hf | hf
  · rw [dispatch_text _ w x hf]
    exact (onText_appends J (w.note (.text x f.payload)) x x f.payload).state
  · rw [dispatch_ping _ w x hf]
    exact (queue_appends w x _).state
  · rw [dispatch_pong _ w x hf]
  · rw [dispatch_close _ w x hf]
    refine (queue_appends _ x _).state.trans ?_
    simp [World.setWs]

/-- The loop releases the connection if it is open and the frames end in an error. -/
theorem WsConnection.lifeOfLoop_eq
    (J : JsonLib) (x : WsId) (fuel : Nat) (w : World) :
    lifeOfLoop (WsHub.callbacks J) x fuel w =
      releaseIf (.ws x) ((w.wss x).state = .ACTIVE &&
        (frameRun fuel (w.wss x).readBuf.readable).ending.isError) := by
  induction fuel generalizing w with
  | zero =>
      simp [lifeOfLoop, frameRun, LoopEnd.isError, releaseIf]
  | succ fuel ih =>
      rw [lifeOfLoop, tryDecode_peek, frameRun]
      by_cases hshort : (w.wss x).readBuf.readableBytes < 2
      · rw [if_pos hshort, Ws.decodeBytes_of_short (by rwa [Buffer.length_readable])]
        simp [LoopEnd.isError, releaseIf, Ws.needMore]
      rw [if_neg hshort]
      cases hdecode : Ws.decodeBytes (w.wss x).readBuf.readable with
      | error e =>
          simp [LoopEnd.isError, releaseIf]
      | ok r =>
          dsimp only
          by_cases hmore : r.consumed = -1
          · rw [if_pos hmore, if_pos hmore]
            simp [LoopEnd.isError, releaseIf]
          rw [if_neg hmore, if_neg hmore]
          by_cases hbad : r.consumed = 0
          · rw [if_pos hbad, if_pos hbad, lifeOfClose_eq]
            simp [LoopEnd.isError]
          rw [if_neg hbad, if_neg hbad]
          have hrest : ((consume w x r.consumed).wss x).readBuf.readable =
              (w.wss x).readBuf.readable.drop (toSize r.consumed) := by
            simp [consume, World.setWs]
          have hstate : ((consume w x r.consumed).wss x).state = (w.wss x).state := by
            simp [consume, World.setWs]
          rw [← hstate]
          generalize consume w x r.consumed = w₂ at hrest
          cases hgo : goesOn r.frame with
          | true =>
              obtain ⟨hyes, hbuf⟩ := dispatch_goesOn (keepsInput_hub J x) w₂ hgo
              have hkept := state_dispatch J w₂ x hgo
              cases hd : dispatch (WsHub.callbacks J) w₂ x r.frame with
              | mk w₃ goes =>
                  rw [hd] at hyes hbuf hkept
                  dsimp only at hyes hbuf hkept
                  subst hyes
                  dsimp only
                  rw [ih, hkept, hbuf, hrest, if_pos rfl]
          | false =>
              rw [dispatch_refuses w₂ hgo]
              dsimp only
              rw [lifeOfClose_eq]
              simp [LoopEnd.isError]

theorem WsConnection.lifeOfRead_eq
    (J : JsonLib) (w : World) (x : WsId) (s : Input) :
    lifeOfRead (WsHub.callbacks J) w x s =
      releaseIf (.ws x) ((w.wss x).state = .ACTIVE &&
        (s.idle ≠ .again || (received w x s).ending.isError)) := by
  obtain ⟨hread, hend⟩ := recvLoop_spec (s := s) (w.wss x).readBuf (Nat.lt_succ_self _)
  rw [lifeOfRead, received]
  cases hrecv : recvLoop (s.pending.length + 1) (w.wss x).readBuf s with
  | mk readBuf ending =>
      rw [hrecv] at hread hend
      have hconn : (w.setWs x { w.wss x with readBuf := readBuf }).wss x =
          { w.wss x with readBuf := readBuf } := Function.update_self _ _ _
      cases ending with
      | drained =>
          have hidle : s.idle = .again := hend.mp rfl
          dsimp only at hread ⊢
          rw [lifeOfLoop_eq, hconn, ← hread, Buffer.length_readable]
          simp [hidle]
      | hangup =>
          have hidle : s.idle ≠ .again := fun hagain => by cases hend.mpr hagain
          dsimp only
          rw [lifeOfClose_eq, hconn]
          simp [hidle]

theorem WsConnection.lifeOfWrite_empty
    (hleft : (w.wss x).writeBuf.readableBytes = 0) (sends : List SendResult) :
    lifeOfWrite x w sends =
      releaseIf (.ws x) ((w.wss x).state = .ACTIVE && (w.wss x).closeAfterWrite) := by
  rw [lifeOfWrite.eq_def, hleft, if_neg (Nat.lt_irrefl 0)]
  cases (w.wss x).closeAfterWrite with
  | false =>
      simp [releaseIf]
  | true =>
      simp [lifeOfClose_eq]

theorem WsConnection.lifeOfWrite_eq
    (x : WsId) (w : World) (sends : List SendResult) :
    lifeOfWrite x w sends =
      releaseIf (.ws x) ((w.wss x).state = .ACTIVE &&
        sendsEnd (w.wss x).closeAfterWrite (w.wss x).writeBuf.readableBytes
          (sends.map (sendResult w (w.wss x).fd))) := by
  induction sends generalizing w with
  | nil =>
      cases hleft : (w.wss x).writeBuf.readableBytes with
      | zero =>
          rw [lifeOfWrite_empty hleft, sendsEnd]
      | succ left =>
          simp [lifeOfWrite, hleft, sendsEnd, releaseIf]
  | cons result sends ih =>
      cases hleft : (w.wss x).writeBuf.readableBytes with
      | zero =>
          rw [lifeOfWrite_empty hleft, sendsEnd]
      | succ left =>
          rw [lifeOfWrite, List.map_cons, hleft, if_pos (Nat.succ_pos left)]
          cases hresult : sendResult w (w.wss x).fd result with
          | accepts want =>
              dsimp only
              generalize hn : sendSize want (left + 1) = n
              have hconn : (wrote w x n).wss x =
                  { w.wss x with writeBuf := (w.wss x).writeBuf.consume n } :=
                Function.update_self _ _ _
              rw [ih, hconn, sendsEnd, hn]
              dsimp only
              rw [Buffer.readableBytes_consume, hleft]
              rfl
          | again =>
              simp [sendsEnd, releaseIf]
          | zero | error =>
              simp [sendsEnd, lifeOfClose_eq]

end Ws

section Events

variable {cfg : Config} {w w₁ : World} {t : Target} {fd : Fd}

/-- A read releases the connection unless it spares it. -/
theorem lifeOfRead_cases
    (cfg : Config) (howned : Owned w t) (input : Input) :
    ReadSpares w input t ∧ lifeOfRead cfg w input t = [.onRead t] ∨
      ¬ ReadSpares w input t ∧ lifeOfRead cfg w input t = .onRead t :: releaseIf t true := by
  cases t with
  | http h =>
      rw [lifeOfRead, ReadSpares, HttpConnection.lifeOfRead_eq howned]
      cases hstate : (w.https h).state <;> by_cases hidle : input.idle = .again <;>
        simp [releaseIf, hidle]
  | ws x =>
      rw [lifeOfRead, ReadSpares, WsConnection.lifeOfRead_eq]
      generalize (WsConnection.received w x input).ending.isError = fails
      cases hstate : (w.wss x).state <;> by_cases hidle : input.idle = .again <;>
        cases fails <;> simp [releaseIf, hidle]

/-- The same for a write. -/
theorem lifeOfWrite_cases
    (cfg : Config) (howned : Owned w t) (sends : List SendResult) :
    WriteSpares w sends t ∧ lifeOfWrite cfg w sends t = [.onWrite t] ∨
      ¬ WriteSpares w sends t ∧ lifeOfWrite cfg w sends t = .onWrite t :: releaseIf t true := by
  cases t with
  | http h =>
      rw [lifeOfWrite, WriteSpares, HttpConnection.lifeOfWrite_eq howned]
      generalize sendsEnd (w.https h).closeAfterWrite (w.https h).writeBuf.readableBytes
        (sends.map (sendResult w (w.https h).fd)) = ends
      cases hstate : (w.https h).state <;> cases ends <;> simp [releaseIf]
  | ws x =>
      rw [lifeOfWrite, WriteSpares, WsConnection.lifeOfWrite_eq]
      generalize sendsEnd (w.wss x).closeAfterWrite (w.wss x).writeBuf.readableBytes
        (sends.map (sendResult w (w.wss x).fd)) = ends
      cases hstate : (w.wss x).state <;> cases ends <;> simp [releaseIf]

/-- A registered connection is in the table of its owner. -/
theorem Registry.owned
    (hr : Registry w.sessions) (ht : w.reactor.contexts fd = some t) :
    Owned w t := by
  cases t with
  | ws x =>
      trivial
  | http h =>
      intro _
      have hfd : (w.https h).fd = fd := (hr.registered fd _ ht).1
      rw [hfd]
      exact (hr.http fd h).mp ht

/-- So is the connection after its read callback, unless that has closed it. -/
theorem Registry.owned_read
    (hr : Registry w.sessions) (ht : w.reactor.contexts fd = some t) {input : Input}
    (hok : readCallback cfg w input t = .ok w₁) :
    Owned w₁ t := by
  cases t with
  | ws x =>
      trivial
  | http h =>
      intro hactive
      have hstart : Acts (fun _ _ => True) w.sessions w.sessions ∧
          w.sessions.contexts fd = some (.http h) := ⟨.refl, ht⟩
      obtain ⟨hacts, hclosed | hregistered⟩ := (acts_http cfg fd h w.sessions).onRead hstart hok
      · have hclosed : (w₁.https h).state = .CLOSED := hclosed
        rw [hactive] at hclosed
        cases hclosed
      · exact (Acts.keeps (fun _ _ => registry_act) hacts hr).owned hregistered hactive

end Events

section Histories

variable {cfg : Config} {w w' : World} {t : Target} {fd : Fd} {life more : List LifeObs}

/-- No connection is released. -/
def Quiet (life : List LifeObs) : Prop :=
  ∀ t, .released t ∉ life

/-- Some connection is released, and its fields are read. -/
def Torn (life : List LifeObs) : Prop :=
  ∃ before t after, life = before ++ releaseIf t true ++ after

theorem Quiet.append
    (h : Quiet life) (h' : Quiet more) :
    Quiet (life ++ more) := by
  intro t hmem
  rcases List.mem_append.mp hmem with hmem | hmem
  · exact h t hmem
  · exact h' t hmem

/-- If nothing is released, nothing is touched that has been. -/
theorem Quiet.justified
    (h : Quiet life) :
    Justified Untouched life := by
  rintro past o future rfl
  have hpast : ∀ t, .released t ∉ past := by
    intro t hmem
    exact h t (List.mem_append_left _ hmem)
  cases o with
  | released t =>
      trivial
  | onRead t | onWrite t | fields t =>
      exact hpast t

theorem Torn.append_left
    (h : Torn life) (past : List LifeObs) :
    Torn (past ++ life) := by
  obtain ⟨before, t, after, rfl⟩ := h
  exact ⟨past ++ before, t, after, by simp⟩

theorem Torn.append_right
    (h : Torn life) (future : List LifeObs) :
    Torn (life ++ future) := by
  obtain ⟨before, t, after, rfl⟩ := h
  exact ⟨before, t, after ++ future, by simp⟩

/-- The rest of `close` touches a connection that has been released. -/
theorem Torn.not_justified
    (h : Torn life) :
    ¬ Justified Untouched life := by
  obtain ⟨before, t, after, rfl⟩ := h
  intro hjustified
  have hfields := hjustified (before ++ [.released t]) (.fields t) after (by simp [releaseIf])
  exact hfields (by simp)

/-- A callback that releases its connection unless it is spared. -/
theorem callback_life
    {o : LifeObs} (ho : ∀ t, o ≠ .released t) {spares : Prop}
    (hlife : spares ∧ life = [o] ∨ ¬ spares ∧ life = o :: releaseIf t true) :
    spares ∧ Quiet life ∨ ¬ spares ∧ Torn life := by
  rcases hlife with ⟨hspares, rfl⟩ | ⟨hends, rfl⟩
  · refine .inl ⟨hspares, ?_⟩
    intro t' hmem
    exact ho t' (List.mem_singleton.mp hmem).symm
  · exact .inr ⟨hends, [o], t, [], by simp⟩

/-- What a read adds. -/
theorem read_life
    (cfg : Config) (howned : Owned w t) (input : Input) :
    ReadSpares w input t ∧ Quiet (lifeOfRead cfg w input t) ∨
      ¬ ReadSpares w input t ∧ Torn (lifeOfRead cfg w input t) :=
  callback_life (fun _ h => by cases h) (lifeOfRead_cases cfg howned input)

theorem write_life
    (cfg : Config) (howned : Owned w t) (sends : List SendResult) :
    WriteSpares w sends t ∧ Quiet (lifeOfWrite cfg w sends t) ∨
      ¬ WriteSpares w sends t ∧ Torn (lifeOfWrite cfg w sends t) :=
  callback_life (fun _ h => by cases h) (lifeOfWrite_cases cfg howned sends)

theorem quiet_nil :
    Quiet [] := by
  intro t hmem
  cases hmem

/-- What a write adds if there is one. -/
theorem output_life
    (cfg : Config) (howned : Owned w t) (output : Bool) (sends : List SendResult) :
    (output = true → WriteSpares w sends t) ∧
        Quiet (if output then lifeOfWrite cfg w sends t else []) ∨
      ¬ (output = true → WriteSpares w sends t) ∧
        Torn (if output then lifeOfWrite cfg w sends t else []) := by
  cases output with
  | false =>
      refine .inl ⟨?_, quiet_nil⟩
      intro h
      cases h
  | true =>
      rw [forall_prop_of_true rfl, if_pos rfl]
      exact write_life cfg howned sends

/-- An event ends the connection that it is about, or it spares it. -/
theorem event_life
    (cfg : Config) (hr : Registry w.sessions) (fd : Fd) (events : Ready) (input : Input)
    (sends : List SendResult) :
    Spares cfg w (.ready fd events input sends) ∧
        Quiet (lifeOfEvent cfg w fd events input sends) ∨
      ¬ Spares cfg w (.ready fd events input sends) ∧
        Torn (lifeOfEvent cfg w fd events input sends) := by
  rw [Spares, lifeOfEvent]
  cases ht : w.reactor.contexts fd with
  | none =>
      refine .inl ⟨?_, quiet_nil⟩
      intro t h
      cases h
  | some t =>
      simp only [Option.some.injEq, forall_eq']
      have howned := hr.owned ht
      cases hfailure : events.failure with
      | true =>
          rw [if_pos rfl]
          rcases read_life cfg howned input with ⟨hspares, hquiet⟩ | ⟨hends, htorn⟩
          · refine .inl ⟨⟨fun _ => hspares, ?_⟩, hquiet⟩
            intro w₁ _ h
            cases h
          · exact .inr ⟨fun h => hends (h.1 (.inl rfl)), htorn⟩
      | false =>
          cases hinput : events.input with
          | false =>
              rcases output_life cfg howned events.output sends with
                ⟨hspares, hquiet⟩ | ⟨hends, htorn⟩
              · refine .inl ⟨⟨?_, ?_⟩, hquiet⟩
                · rintro (h | h) <;> cases h
                · intro w₁ hw₁ _ houtput
                  cases hw₁
                  exact hspares houtput
              · exact .inr ⟨fun h => hends (h.2 w rfl rfl), htorn⟩
          | true =>
              rcases read_life cfg howned input with ⟨hspares, hquiet⟩ | ⟨hends, htorn⟩
              · cases hread : readCallback cfg w input t with
                | error e =>
                    refine .inl ⟨⟨fun _ => hspares, ?_⟩, hquiet.append quiet_nil⟩
                    intro w₁ hw₁
                    cases hw₁
                | ok w₁ =>
                    have howned₁ := hr.owned_read ht hread
                    rcases output_life cfg howned₁ events.output sends with
                      ⟨hwrites, hquiet₁⟩ | ⟨hends, htorn⟩
                    · refine .inl ⟨⟨fun _ => hspares, ?_⟩, hquiet.append hquiet₁⟩
                      intro w₂ hw₂ _ houtput
                      cases hw₂
                      exact hwrites houtput
                    · exact .inr ⟨fun h => hends (h.2 w₁ rfl rfl), htorn.append_left _⟩
              · exact .inr ⟨fun h => hends (h.1 (.inr rfl)), htorn.append_right _⟩

theorem step_life
    (cfg : Config) (hr : Registry w.sessions) (e : Event) :
    Spares cfg w e ∧ Quiet (lifeOfStep cfg w e) ∨ ¬ Spares cfg w e ∧ Torn (lifeOfStep cfg w e) := by
  cases e with
  | accept | clock | files =>
      exact .inl ⟨trivial, quiet_nil⟩
  | ready fd events input sends =>
      exact event_life cfg hr fd events input sends

/-- In every run of the server, with any events: nothing happens to a connection after its
owner has released it iff no event ends the connection that it is about. -/
theorem released_untouched_iff
    (cfg : Config) (events : List Event) :
    Justified Untouched (outputs (lifeOfStep cfg) (step cfg) World.init events) ↔
      Meets (Spares cfg) (step cfg) World.init events := by
  have hstep : ∀ past w e, Quiet past ∧ Registry w.sessions → Justified Untouched past →
      (Justified Untouched (past ++ lifeOfStep cfg w e) ↔ Spares cfg w e) := by
    rintro past w e ⟨hpast, hr⟩ -
    rcases step_life cfg hr e with ⟨hspares, hquiet⟩ | ⟨hends, htorn⟩
    · exact iff_of_true (hpast.append hquiet).justified hspares
    · exact iff_of_false (htorn.append_left past).not_justified hends
  have hkeeps : ∀ past w e w', Quiet past ∧ Registry w.sessions → Spares cfg w e →
      step cfg w e = .ok w' → Quiet (past ++ lifeOfStep cfg w e) ∧ Registry w'.sessions := by
    rintro past w e w' ⟨hpast, hr⟩ hspares hok
    have hacts : Acts (fun _ _ => True) w.sessions w'.sessions :=
      step_acts (fun _ _ _ _ h => h) (fun _ _ => trivial) hok
    refine ⟨?_, Acts.keeps (fun _ _ => registry_act) hacts hr⟩
    rcases step_life cfg hr e with ⟨-, hquiet⟩ | ⟨hends, -⟩
    · exact hpast.append hquiet
    · exact absurd hspares hends
  exact justified_outputs_iff hstep hkeeps ⟨quiet_nil, registry_init⟩ justified_nil events

/-- A client connects and goes away. -/
def visit : List Event :=
  [.accept 5,
    .ready 5 { input := true, output := false, failure := false }
      { pending := [], sizes := [], idle := .eof } []]

/-- `close` reads the fields of the connection that has been released. -/
theorem visit_touches_released :
    ¬ Justified Untouched (outputs (lifeOfStep sampleConfig) (step sampleConfig) World.init
      visit) := by
  intro hjustified
  have hlife : outputs (lifeOfStep sampleConfig) (step sampleConfig) World.init visit =
      [.onRead (.http 0), .released (.http 0), .fields (.http 0)] := by
    decide +kernel
  rw [hlife] at hjustified
  exact hjustified [.onRead (.http 0), .released (.http 0)] (.fields (.http 0)) [] rfl (by simp)

end Histories

end Web
end ChatRoom
