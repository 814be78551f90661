import ChatRoom.Web.InputProtocol

/-!
# The output protocol of a WebSocket connection

What a connection puts out are the bytes that `::send` has accepted on its socket
and those in its write buffer.  They should be valid frames of a server, with
nothing behind a close frame.  Four places append frames, and none of them looks
at `closeAfterWrite_` or at the length of a ping; so the protocol is kept as long
as no one has anything to say behind a close frame and pings are short
(`KeepsOutput`).
-/

namespace ChatRoom
namespace Web
namespace WsConnection

open Socket Ws Runs

/-- Everything that has been appended to the write buffer of a connection, and before
that been sent on its socket. -/
def produced (x : WsId) (w : World) : Bytes :=
  sentOn (w.sockets (w.wss x).fd) w.trace ++ (w.wss x).writeBuf.readable

/-- No close frame has been put out before. -/
def NotClosed (past : List ServerFrame) (_ : ServerFrame) : Prop :=
  ∀ g ∈ past, g.opcode ≠ .CLOSE

/-- The answer to a frame, if there is one, can be put out: no close frame has been
decoded before, and pings are short. -/
def Answerable (J : JsonLib) (member closing : Prop) (past : List Frame) (f : Frame) : Prop :=
  let closed := closing ∨ ∃ g ∈ past, g.opcode = Opcode.CLOSE.code
  (f.opcode = Opcode.PING.code → ¬ closed ∧ f.payload.length ≤ 125) ∧
    (f.opcode = Opcode.CLOSE.code → ¬ closed) ∧
      (f.opcode = Opcode.TEXT.code → member → WsHub.chatOf J f.payload ≠ none → ¬ closed)

/-- A call does not make the connection break the protocol. -/
def KeepsOutput (J : JsonLib) (x : WsId) (w : World) : Call → Prop
  | .read s =>
      (w.wss x).state = .ACTIVE → s.idle = .again →
        Justified (Answerable J (x ∈ w.hub) ((w.wss x).closeAfterWrite = true))
          (received w x s).frames
  | .write _ => True
  | .sendText _ _ => (w.wss x).state = .ACTIVE → (w.wss x).closeAfterWrite = false
  | .sendPing payload _ =>
      (w.wss x).state = .ACTIVE →
        (w.wss x).closeAfterWrite = false ∧ payload.length ≤ 125
  | .broadcast _ =>
      x ∈ w.hub → (w.wss x).state = .ACTIVE → (w.wss x).closeAfterWrite = false

section Decidability

variable (J : JsonLib) (x : WsId)

instance (member closing : Prop) [Decidable member] [Decidable closing] (past : List Frame)
    (f : Frame) : Decidable (Answerable J member closing past f) :=
  inferInstanceAs (Decidable (_ ∧ _ ∧ _))

instance (w : World) : DecidablePred (KeepsOutput J x w)
  | .read _ => inferInstanceAs (Decidable (_ → _ → _))
  | .write _ => inferInstanceAs (Decidable True)
  | .sendText _ _ => inferInstanceAs (Decidable (_ → _))
  | .sendPing _ _ => inferInstanceAs (Decidable (_ → _))
  | .broadcast _ => inferInstanceAs (Decidable (_ → _ → _))

end Decidability

section Frames

/-- A text, as the frame that carries it. -/
def textFrame (payload : Bytes) (size : payload.length < 2 ^ 64) : ServerFrame where
  opcode := .TEXT
  payload := payload
  whole := by decide
  size := size
  control h := by cases h

/-- A ping or its answer, as the frame that carries it. -/
def controlFrame (opcode : Opcode) (payload : Bytes) (whole : opcode ≠ .CONTINUATION)
    (short : payload.length ≤ 125) : ServerFrame where
  opcode := opcode
  payload := payload
  whole := whole
  size := Nat.lt_of_le_of_lt short (by decide)
  control _ := short

/-- The answer to a close frame. -/
def closeFrame : ServerFrame :=
  controlFrame .CLOSE [] (by decide) (by decide)

theorem textFrame_ne_close
    (payload : Bytes) (size : payload.length < 2 ^ 64) :
    (textFrame payload size).opcode ≠ .CLOSE := by
  intro h
  cases h

theorem controlFrame_ne_close
    {opcode : Opcode} {payload : Bytes} (hopcode : opcode ≠ .CLOSE)
    (whole : opcode ≠ .CONTINUATION) (short : payload.length ≤ 125) :
    (controlFrame opcode payload whole short).opcode ≠ .CLOSE :=
  hopcode

end Frames

section Produces

variable {J : JsonLib} {x : WsId} {w₀ w w' : World} {frames : List ServerFrame}
variable {f : ServerFrame}

/-- What a connection has put out since the state `w₀` are these frames. -/
structure Produces (x : WsId) (w₀ : World) (frames : List ServerFrame) (w : World) : Prop where
  produced : produced x w = WsConnection.produced x w₀ ++ frames.flatMap ServerFrame.wire
  closing : (w.wss x).closeAfterWrite = true ↔ ∃ f ∈ frames, f.opcode = .CLOSE
  closed : Justified NotClosed frames

/-- What is appended is put out. -/
theorem Appends.produced
    {out : Bytes} (h : Appends x w w' out) :
    produced x w' = produced x w ++ out := by
  rw [WsConnection.produced, WsConnection.produced, h.sockets, h.fd, h.sent, h.writeBuf,
    List.append_assoc]

theorem Produces.silent
    (h : Produces x w₀ frames w) (happ : Appends x w w' []) :
    Produces x w₀ frames w' where
  produced := by rw [happ.produced, List.append_nil, h.produced]
  closing := by rw [happ.closing, h.closing]
  closed := h.closed

theorem Produces.note_text
    (h : Produces x w₀ frames w) (payload : Bytes) :
    Produces x w₀ frames (w.note (.text x payload)) where
  produced := by
    rw [← h.produced, WsConnection.produced, sentOn_note w _ (fun s bs h => by cases h)]
    rfl
  closing := h.closing
  closed := h.closed

/-- As long as the connection is not closing, one more frame can be put out. -/
theorem Produces.notClosed
    (h : Produces x w₀ frames w) (hopen : (w.wss x).closeAfterWrite = false) :
    NotClosed frames f := by
  intro g hg hclose
  have := h.closing.mpr ⟨g, hg, hclose⟩
  rw [hopen] at this
  cases this

theorem Produces.emit
    (h : Produces x w₀ frames w) (hopen : (w.wss x).closeAfterWrite = false)
    (hf : f.opcode ≠ .CLOSE) (happ : Appends x w w' f.wire) :
    Produces x w₀ (frames ++ [f]) w' where
  produced := by
    rw [happ.produced, h.produced]
    simp
  closing := by
    rw [happ.closing, h.closing]
    simp [hf]
  closed := h.closed.snoc (h.notClosed hopen)

/-- The answer to a close frame. -/
theorem Produces.answerClose
    (h : Produces x w₀ frames w) (hopen : (w.wss x).closeAfterWrite = false) :
    Produces x w₀ (frames ++ [closeFrame])
      (queue (w.setWs x { w.wss x with closeAfterWrite := true }) x encodeClose) where
  produced := by
    have hset : WsConnection.produced x
        (w.setWs x { w.wss x with closeAfterWrite := true }) = WsConnection.produced x w := by
      simp [WsConnection.produced, World.setWs]
    rw [(queue_appends _ x encodeClose).produced, hset, h.produced]
    simp [encodeClose, ← ServerFrame.encodeFrame_eq_wire, closeFrame, controlFrame]
  closing := by
    rw [(queue_appends _ x encodeClose).closing]
    simp [World.setWs, closeFrame, controlFrame]
  closed := h.closed.snoc (h.notClosed hopen)

theorem Produces.close
    (h : Produces x w₀ frames w) :
    Produces x w₀ frames (WsConnection.close (WsHub.callbacks J) w x) := by
  obtain ⟨hconn, htrace, hsockets⟩ := close_hub J w x
  refine ⟨?_, ?_, h.closed⟩
  · rw [WsConnection.produced, hconn, htrace, hsockets]
    exact h.produced
  · rw [hconn]
    exact h.closing

/-- Bytes move from the write buffer to the socket. -/
theorem produced_wrote
    (w : World) (x : WsId) (n : Nat) :
    produced x (wrote w x n) = produced x w := by
  simp [produced, wrote, World.setWs, World.note, sentOn]

theorem onWrite_produces
    (h : Produces x w₀ frames w) (sends : List SendResult) :
    Produces x w₀ frames (onWrite (WsHub.callbacks J) x w sends) := by
  refine onWrite_keeps ?_ (fun w₁ h₁ => h₁.close) ?_ h sends
  · intro w₁ n h₁
    refine ⟨(produced_wrote w₁ x n).trans h₁.produced, ?_, h₁.closed⟩
    simpa [wrote, World.setWs] using h₁.closing
  · rintro w₁ - ⟨hproduced, hclosing, hclosed⟩
    refine ⟨?_, ?_, hclosed⟩
    · rw [← hproduced]
      simp [WsConnection.produced, World.setWs, World.modifyFd]
    · simpa [World.setWs] using hclosing

end Produces

section Runs

variable {J : JsonLib} {x : WsId} {w₀ w₁ w w' : World} {done : List Frame}

/-- During a read that starts in `w₁`: if the frames can be answered, what has been put
out are frames. -/
structure Replying (J : JsonLib) (x : WsId) (w₀ w₁ : World) (done : List Frame) (w : World) :
    Prop where
  followed : Followed x w₁ done w
  hub : w.hub = w₁.hub
  replies : Justified (Answerable J (x ∈ w₁.hub) ((w₁.wss x).closeAfterWrite = true)) done →
    ∃ frames, Produces x w₀ frames w

/-- A frame that is dispatched can be answered, and the connection is not closing unless it
has been asked to. -/
theorem Replying.next
    (h : Replying J x w₀ w₁ done w) {f : Frame}
    (hjust : Justified (Answerable J (x ∈ w₁.hub) ((w₁.wss x).closeAfterWrite = true))
      (done ++ [f])) :
    ∃ frames, Produces x w₀ frames w ∧
      Answerable J (x ∈ w.hub) ((w.wss x).closeAfterWrite = true) [] f := by
  obtain ⟨hdone, hf⟩ := justified_snoc_iff.mp hjust
  obtain ⟨frames, hframes⟩ := h.replies hdone
  refine ⟨frames, hframes, ?_⟩
  rw [Answerable, ← h.followed.closing, ← h.hub] at hf
  simpa [Answerable] using hf

theorem replyingRule
    (hdump : ∀ j, (J.dump j).length < 2 ^ 64) (x : WsId) (w₀ w₁ : World) :
    FrameRule (WsHub.callbacks J) x (Replying J x w₀ w₁) where
  keepsInput := keepsInput_hub J x
  receive := by
    rintro done w readBuf ⟨hfollowed, hhub, hreplies⟩
    refine ⟨(followedRule J x w₁).receive done w readBuf hfollowed, hhub, fun hjust => ?_⟩
    obtain ⟨frames, hproduced, hclosing, hclosed⟩ := hreplies hjust
    refine ⟨frames, ?_, by simpa [World.setWs] using hclosing, hclosed⟩
    rw [← hproduced]
    simp [produced, World.setWs]
  dispatch := by
    intro done w f h hgo
    have hfollowed := (followedRule J x w₁).dispatch done w f h.followed hgo
    rcases goesOn_iff.mp hgo with hf | hf | hf | hf
    · rw [dispatch_text _ w x hf] at hfollowed ⊢
      have happ := onText_appends J (w.note (.text x f.payload)) x x f.payload
      refine ⟨hfollowed, happ.hub.trans h.hub, fun hjust => ?_⟩
      obtain ⟨frames, hframes, -, -, htext⟩ := h.next hjust
      have hnote := hframes.note_text f.payload
      rcases echoed_cases J (w.note (.text x f.payload)) x x f.payload with
        hnothing | ⟨hmember, hchat, m, hout⟩
      · rw [hnothing] at happ
        exact ⟨frames, hnote.silent happ⟩
      · have hopen := htext hf hmember hchat
        rw [hout] at happ
        refine ⟨_, hnote.emit (f := textFrame (J.dump (WsHub.wsJson m)) (hdump _)) ?_ ?_ ?_⟩
        · simpa [World.note] using hopen
        · exact textFrame_ne_close _ _
        · rwa [← ServerFrame.encodeFrame_eq_wire]
    · rw [dispatch_ping _ w x hf] at hfollowed ⊢
      have happ := queue_appends w x (encodePong f.payload)
      refine ⟨hfollowed, happ.hub.trans h.hub, fun hjust => ?_⟩
      obtain ⟨frames, hframes, hping, -, -⟩ := h.next hjust
      obtain ⟨hopen, hshort⟩ := hping hf
      refine ⟨_, hframes.emit (f := controlFrame .PONG f.payload (by decide) hshort) ?_ ?_ ?_⟩
      · simpa using hopen
      · exact controlFrame_ne_close (by decide) _ _
      · rwa [← ServerFrame.encodeFrame_eq_wire]
    · rw [dispatch_pong _ w x hf] at hfollowed ⊢
      refine ⟨hfollowed, h.hub, fun hjust => h.replies hjust.of_append⟩
    · rw [dispatch_close _ w x hf] at hfollowed ⊢
      refine ⟨hfollowed, (queue_appends _ x _).hub.trans h.hub, fun hjust => ?_⟩
      obtain ⟨frames, hframes, -, hclose, -⟩ := h.next hjust
      exact ⟨_, hframes.answerClose (by simpa using hclose hf)⟩

/-- A readable event. -/
theorem onRead_produces
    (hdump : ∀ j, (J.dump j).length < 2 ^ 64) {frames : List ServerFrame}
    (h : Produces x w₀ frames w) {s : Input}
    (hanswers : s.idle = .again →
      Justified (Answerable J (x ∈ w.hub) ((w.wss x).closeAfterWrite = true))
        (received w x s).frames)
    (hok : onRead (WsHub.callbacks J) w x s = .ok w') :
    ∃ frames, Produces x w₀ frames w' := by
  have hrule := replyingRule hdump x w₀ w
  have hstart : Replying J x w₀ w [] w :=
    { followed := .refl x w, hub := rfl, replies := fun _ => ⟨frames, h⟩ }
  by_cases hidle : s.idle = .again
  · obtain ⟨w₁, hreplying, -, hread⟩ := onRead_frames hrule hstart hidle rfl
    obtain ⟨frames', hframes'⟩ := hreplying.replies (hanswers hidle)
    rw [hread] at hok
    cases hending : (frameRun _ ((w.wss x).readBuf.readable ++ s.pending)).ending with
    | waits =>
        rw [hending] at hok
        cases hok
        exact ⟨frames', hframes'⟩
    | rejects | refuses =>
        rw [hending] at hok
        cases hok
        exact ⟨frames', hframes'.close⟩
    | throws e =>
        rw [hending] at hok
        cases hok
  · obtain ⟨readBuf, hread⟩ := onRead_hangup (WsHub.callbacks J) w x hidle
    rw [hread] at hok
    cases hok
    obtain ⟨frames', hframes'⟩ := (hrule.receive [] w readBuf hstart).replies justified_nil
    exact ⟨frames', hframes'.close⟩

/-- A call that keeps the protocol. -/
theorem call_produces
    (hdump : ∀ j, (J.dump j).length < 2 ^ 64) {frames : List ServerFrame}
    (h : Produces x w₀ frames w) {c : Call} (hkeeps : KeepsOutput J x w c)
    (hok : call J x w c = .ok w') :
    ∃ frames, Produces x w₀ frames w' := by
  cases c with
  | read s =>
      rw [call] at hok
      by_cases hactive : (w.wss x).state = .ACTIVE
      · rw [if_pos hactive] at hok
        exact onRead_produces hdump h (hkeeps hactive) hok
      · rw [if_neg hactive] at hok
        cases hok
        exact ⟨frames, h⟩
  | write sends =>
      cases hok
      exact ⟨frames, onWrite_produces h sends⟩
  | sendText payload size =>
      cases hok
      have happ := sendText_appends w x payload
      rcases ifActive_cases w x (encodeText payload) with hnothing | ⟨hactive, hout⟩
      · rw [hnothing] at happ
        exact ⟨frames, h.silent happ⟩
      · rw [hout] at happ
        refine ⟨_, h.emit (f := textFrame payload size) (hkeeps hactive)
          (textFrame_ne_close _ _) ?_⟩
        rwa [← ServerFrame.encodeFrame_eq_wire]
  | sendPing payload size =>
      cases hok
      have happ := sendPing_appends w x payload
      rcases ifActive_cases w x (encodePing payload) with hnothing | ⟨hactive, hout⟩
      · rw [hnothing] at happ
        exact ⟨frames, h.silent happ⟩
      · obtain ⟨hopen, hshort⟩ := hkeeps hactive
        rw [hout] at happ
        refine ⟨_, h.emit (f := controlFrame .PING payload (by decide) hshort) hopen
          (controlFrame_ne_close (by decide) _ _) ?_⟩
        rwa [← ServerFrame.encodeFrame_eq_wire]
  | broadcast m =>
      cases hok
      have happ := broadcast_appends J w x m
      rcases announced_cases J w x m with hnothing | ⟨hmember, hactive, hout⟩
      · rw [hnothing] at happ
        exact ⟨frames, h.silent happ⟩
      · rw [hout] at happ
        refine ⟨_, h.emit (f := textFrame (J.dump (WsHub.wsJson m)) (hdump _))
          (hkeeps hmember hactive) (textFrame_ne_close _ _) ?_⟩
        rwa [← ServerFrame.encodeFrame_eq_wire]

/-- In every run of a connection that the hub has adopted whose calls keep the protocol,
the connection puts out valid frames, with nothing behind a close frame. -/
theorem output_protocol
    (hdump : ∀ j, (J.dump j).length < 2 ^ 64) (w : World) (x : WsId) (fd : Fd)
    (user : String) {calls : List Call}
    (hkeeps : Meets (KeepsOutput J x) (call J x) (w.setWs x (WsConnection.new fd user)) calls)
    (hrun : run (call J x) (w.setWs x (WsConnection.new fd user)) calls = .ok w') :
    ∃ frames : List ServerFrame,
      produced x w' = produced x (w.setWs x (WsConnection.new fd user)) ++
          frames.flatMap ServerFrame.wire ∧
        Justified NotClosed frames := by
  have hstart : Produces x (w.setWs x (WsConnection.new fd user)) []
      (w.setWs x (WsConnection.new fd user)) := by
    refine ⟨(List.append_nil _).symm, ?_, justified_nil⟩
    simp [World.setWs, WsConnection.new]
  obtain ⟨frames, hproduced, -, hclosed⟩ :=
    run_invariant_of_meets
      (I := fun s => ∃ frames, Produces x (w.setWs x (WsConnection.new fd user)) frames s)
      (fun s c s' hs hc hok => hs.elim fun frames h => call_produces hdump h hc hok)
      ⟨[], hstart⟩ hkeeps hrun
  exact ⟨frames, hproduced, hclosed⟩

/-- A client that says something, pings, and closes; meanwhile a text is sent, and the
kernel takes the output in parts. -/
def politeCalls : List Call :=
  [.sendText [0x68] (by decide),
    .read
      { pending := [0x81, 0x81, 0, 0, 0, 0, 0x69, 0x89, 0x80, 0, 0, 0, 0]
        sizes := [5]
        idle := .again },
    .write [.accepts 4, .again],
    .read { pending := [0x88, 0x80, 0, 0, 0, 0], sizes := [], idle := .again },
    .write [.accepts 100]]

theorem output_protocol_politeCalls :
    ∃ w', run (call noJson 0) (World.init.setWs 0 (WsConnection.new 3 "ann")) politeCalls =
        .ok w' ∧
      ∃ frames : List ServerFrame,
        produced 0 w' = produced 0 (World.init.setWs 0 (WsConnection.new 3 "ann")) ++
            frames.flatMap ServerFrame.wire ∧
          Justified NotClosed frames := by
  have htest : ∀ w c, decide (KeepsOutput noJson 0 w c) = true → KeepsOutput noJson 0 w c :=
    fun w c => of_decide_eq_true
  have hmeets : Meets (KeepsOutput noJson 0) (call noJson 0)
      (World.init.setWs 0 (WsConnection.new 3 "ann")) politeCalls :=
    meets_of_test htest (by decide +kernel)
  obtain ⟨w', hrun, -⟩ := exists_ok_of_any
    (run (call noJson 0) (World.init.setWs 0 (WsConnection.new 3 "ann")) politeCalls)
    (fun _ => true) (by decide +kernel)
  have hdump : ∀ j, (noJson.dump j).length < 2 ^ 64 := fun _ => Nat.two_pow_pos 64
  exact ⟨w', hrun, output_protocol hdump World.init 0 3 "ann" hmeets hrun⟩

/-- Some bytes are valid frames with nothing behind a close frame. -/
def IsServerStream (bs : Bytes) : Prop :=
  ∃ frames : List ServerFrame, bs = frames.flatMap ServerFrame.wire ∧ Justified NotClosed frames

/-- A stream that starts like a frame starts with a frame of that kind. -/
theorem IsServerStream.first
    {opcode : Opcode} {bs : Bytes} (h : IsServerStream ((0x80 ||| opcode.code) :: bs)) :
    ∃ (f : ServerFrame) (frames : List ServerFrame), f.opcode = opcode ∧
      (0x80 ||| opcode.code) :: bs = f.wire ++ frames.flatMap ServerFrame.wire ∧
        Justified NotClosed (f :: frames) := by
  obtain ⟨frames, hbs, hclosed⟩ := h
  cases frames with
  | nil =>
      cases hbs
  | cons f frames =>
      rw [List.flatMap_cons] at hbs
      have hhead := congrArg List.head? hbs
      rw [List.head?_append, ServerFrame.head_wire, List.head?_cons, Option.some_or,
        Option.some.injEq] at hhead
      refine ⟨f, frames, ?_, hbs, hclosed⟩
      revert hhead
      cases opcode <;> cases f.opcode <;> decide

/-- Behind the first byte of a control frame comes its length. -/
theorem IsServerStream.first_control
    {len : UInt8} {bs : Bytes} (opcode : Opcode)
    (h : IsServerStream ((0x80 ||| opcode.code) :: len :: bs))
    (hcontrol : opcode.isControl = true) :
    ∃ (f : ServerFrame) (frames : List ServerFrame), f.opcode = opcode ∧
      f.payload.length = len.toNat ∧ bs = f.payload ++ frames.flatMap ServerFrame.wire ∧
        Justified NotClosed (f :: frames) := by
  obtain ⟨f, frames, rfl, hbs, hclosed⟩ := h.first
  have hshort := f.control hcontrol
  rw [f.wire_control hcontrol, List.cons_append, List.cons_append] at hbs
  injection hbs with _ hbs
  injection hbs with hlen hrest
  refine ⟨f, frames, rfl, ?_, hrest, hclosed⟩
  rw [hlen, UInt8.toNat_ofNat', Nat.mod_eq_of_lt (by omega)]

/-- A pong of more than 125 bytes is not valid. -/
theorem not_isServerStream_longPong
    (bs : Bytes) :
    ¬ IsServerStream (0x8A :: 126 :: bs) := by
  intro h
  obtain ⟨f, frames, hop, hlen, -, -⟩ := h.first_control .PONG rfl
  have hshort := f.control (by rw [hop]; rfl)
  rw [hlen] at hshort
  exact absurd hshort (by decide)

/-- Nothing is valid behind a close frame. -/
theorem not_isServerStream_behindClose
    (b : UInt8) (bs : Bytes) :
    ¬ IsServerStream (0x88 :: 0 :: b :: bs) := by
  intro h
  obtain ⟨f, frames, hop, hlen, hrest, hclosed⟩ := h.first_control .CLOSE rfl
  rw [List.length_eq_zero_iff.mp hlen, List.nil_append] at hrest
  cases frames with
  | nil =>
      cases hrest
  | cons g frames =>
      exact hclosed [f] g frames rfl f (by simp) hop

/-- A client that sends a ping of 126 bytes. -/
def longPing : Bytes :=
  [0x89, 0xFE, 0, 126, 0, 0, 0, 0] ++ List.replicate 126 0x70

/-- A ping of 126 bytes is answered with a pong that is not valid; and a text that is sent
before the answer to a close frame has left follows it. -/
theorem output_breaks_protocol :
    let w₀ := World.init.setWs 0 (WsConnection.new 3 "ann")
    (∃ w', run (call noJson 0) w₀
        [.read { pending := longPing, sizes := [], idle := .again }] = .ok w' ∧
      ¬ IsServerStream (produced 0 w')) ∧
    ∃ w', run (call noJson 0) w₀
        [.read { pending := [0x88, 0x80, 0, 0, 0, 0], sizes := [], idle := .again },
          .sendText [0x68] (by decide)] = .ok w' ∧
      ¬ IsServerStream (produced 0 w') := by
  intro w₀
  refine ⟨?_, ?_⟩
  · obtain ⟨w', hrun, htest⟩ := exists_ok_of_any
      (run (call noJson 0) w₀ [.read { pending := longPing, sizes := [], idle := .again }])
      (fun w' => produced 0 w' =
        0x8A :: 126 :: (produced 0 w').drop 2) (by decide +kernel)
    refine ⟨w', hrun, ?_⟩
    rw [of_decide_eq_true htest]
    exact not_isServerStream_longPong _
  · obtain ⟨w', hrun, htest⟩ := exists_ok_of_any
      (run (call noJson 0) w₀
        [.read { pending := [0x88, 0x80, 0, 0, 0, 0], sizes := [], idle := .again },
          .sendText [0x68] (by decide)])
      (fun w' => produced 0 w' = [0x88, 0, 0x81, 1, 0x68]) (by decide +kernel)
    refine ⟨w', hrun, ?_⟩
    rw [of_decide_eq_true htest]
    exact not_isServerStream_behindClose _ _

end Runs

end WsConnection
end Web
end ChatRoom
