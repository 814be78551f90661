import ChatRoom.Lib.Runs
import ChatRoom.Web.Hub
import ChatRoom.Ws.FrameStream

/-!
# The frames of a WebSocket connection

`WsConnection::onRead` decodes frames from the read buffer and dispatches them
one after the other.  What it decodes is a function of the bytes in the buffer
(`frameRun`): the frames after which the loop goes on, the bytes it has not
taken, and how it ends.

`frameLoop_frames` is the rule for the loop: what consuming bytes and
dispatching a frame preserve holds, at the end of the loop, for the frames of
the buffer.  It needs a text handler that leaves the read buffer alone.
-/

namespace ChatRoom
namespace Web
namespace WsConnection

open Socket Ws Incremental

section Run

/-- The loop goes on behind the frame. -/
def goesOn (f : Frame) : Bool :=
  match Opcode.ofCode? f.opcode with
  | some .TEXT => true
  | some .PING => true
  | some .PONG => true
  | some .CLOSE => true
  | _ => false

/-- How the loop over the frames ends. -/
inductive LoopEnd where
  /-- more bytes are needed -/
  | waits
  /-- the bytes are not a frame -/
  | rejects
  /-- a frame that is not supported -/
  | refuses (f : Frame)
  | throws (e : Exn)

/-- What the loop decodes: the frames after which it goes on, the bytes it has not
taken, and how it ends. -/
structure FrameRun where
  frames : List Frame
  unread : Bytes
  ending : LoopEnd

/-- The frames that `onRead` decodes from the readable bytes. -/
def frameRun : Nat → Bytes → FrameRun
  | 0, bs => { frames := [], unread := bs, ending := .waits }
  | fuel + 1, bs =>
      match decodeBytes bs with
      | .error e => { frames := [], unread := bs, ending := .throws e }
      | .ok r =>
          if r.consumed = -1 then
            { frames := [], unread := bs, ending := .waits }
          else if r.consumed = 0 then
            { frames := [], unread := bs, ending := .rejects }
          else
            let rest := bs.drop (toSize r.consumed)
            if goesOn r.frame then
              { frameRun fuel rest with frames := r.frame :: (frameRun fuel rest).frames }
            else
              { frames := [], unread := rest, ending := .refuses r.frame }

/-- All frames of a run, also the one that is refused. -/
def FrameRun.decoded (run : FrameRun) : List Frame :=
  match run.ending with
  | .refuses f => run.frames ++ [f]
  | _ => run.frames

/-- The bytes behind the readable ones do not decide what is decoded. -/
theorem tryDecode_peek
    (b : Buffer) :
    (tryDecode b.peek b.readableBytes).result = decodeBytes b.readable := by
  have hagree : Agree b.readableBytes b.peek (memory b.readable) := by
    intro i hi
    simp [memory, List.getD_eq_getElem?_getD, b.peek_eq hi]
  rw [tryDecode_congr hagree, decodeBytes, Buffer.length_readable]

/-- The frame at which a run ends is one behind which the loop does not go on. -/
theorem frameRun_refuses
    {fuel : Nat} {bs : Bytes} {f : Frame} (h : (frameRun fuel bs).ending = .refuses f) :
    goesOn f = false := by
  induction fuel generalizing bs with
  | zero =>
      cases h
  | succ fuel ih =>
      rw [frameRun] at h
      cases hdecode : decodeBytes bs with
      | error e =>
          rw [hdecode] at h
          cases h
      | ok r =>
          rw [hdecode] at h
          dsimp only at h
          split at h
          · cases h
          · split at h
            · cases h
            · split at h
              · exact ih h
              · next hgo =>
                  cases h
                  exact Bool.eq_false_iff.mpr hgo

/-- The loop takes a complete frame off the front, and goes on behind it unless it refuses
the frame. -/
theorem frameRun_done
    {bs : Bytes} {n : Nat} {f : Frame} (hdec : frameDecoder.decode bs = .done n f) (fuel : Nat) :
    frameRun (fuel + 1) bs =
      if goesOn f then
        { frameRun fuel (bs.drop n) with frames := f :: (frameRun fuel (bs.drop n)).frames }
      else
        { frames := [], unread := bs.drop n, ending := .refuses f } := by
  have hbounds := frameDecoder.done_bounds hdec
  obtain ⟨-, -, -, hsmall, -, -⟩ := frameVerdict_eq_done_iff.mp hdec
  have hsize : toSize n = n := by
    unfold toSize
    omega
  have hmore : (n : Int) ≠ -1 := by
    omega
  have hvalid : (n : Int) ≠ 0 := by
    omega
  rw [frameRun, decodeBytes_of_done hdec]
  simp only [if_neg hmore, if_neg hvalid, hsize]

/-- On a stream that the protocol accepts, the run is the drain of the decoder. -/
theorem frameRun_of_drain
    {fuel : Nat} {bs : Bytes} (hfuel : bs.length ≤ fuel)
    (hok : (frameDecoder.drain bs).failed = false)
    (hgo : ∀ f ∈ (frameDecoder.drain bs).items, goesOn f = true) :
    frameRun fuel bs =
      { frames := (frameDecoder.drain bs).items
        unread := (frameDecoder.drain bs).unread
        ending := .waits } := by
  induction fuel generalizing bs with
  | zero =>
      have hempty : bs = [] := List.length_eq_zero_iff.mp (Nat.le_zero.mp hfuel)
      rw [hempty, Decoder.drain_wait (d := frameDecoder) [] rfl]
      rfl
  | succ fuel ih =>
      cases hdec : frameDecoder.decode bs with
      | malformed =>
          rw [Decoder.drain_malformed hdec] at hok
          cases hok
      | wait =>
          rw [Decoder.drain_wait _ hdec, frameRun, decodeBytes_of_wait hdec]
          rfl
      | done n f =>
          have hbounds := frameDecoder.done_bounds hdec
          rw [Decoder.drain_done hdec] at hok hgo ⊢
          have hdrop : (bs.drop n).length ≤ fuel := by
            rw [List.length_drop]
            omega
          have hrest := ih hdrop hok fun g hg => hgo g (List.mem_cons_of_mem f hg)
          rw [frameRun_done hdec, if_pos (hgo f (by simp)), hrest]

end Run

section Loop

variable {cb : Callbacks} {x : WsId}

/-- The text handler leaves the read buffer of the connection alone. -/
structure KeepsInput (cb : Callbacks) (x : WsId) : Prop where
  onText : ∀ w payload, ((cb.onText w x payload).wss x).readBuf = (w.wss x).readBuf

/-- What the loop leaves, from the state in which it ends. -/
def LoopEnd.result (cb : Callbacks) (x : WsId) (w : World) : LoopEnd → Except Exn World
  | .waits => .ok w
  | .rejects => .ok (close cb w x)
  | .refuses _ => .ok (close cb w x)
  | .throws e => .error e

/-- Appending a frame changes the write buffer and asks for write events. -/
theorem wss_queue
    (w : World) (x : WsId) (frame : Bytes) :
    (queue w x frame).wss x =
      { w.wss x with writeBuf := (w.wss x).writeBuf.append frame, writing := true } := by
  unfold queue
  dsimp only
  split
  · next hw =>
      simp [World.setWs, hw]
  · simp [World.setWs]

theorem trace_queue
    (w : World) (x : WsId) (frame : Bytes) :
    (queue w x frame).trace = w.trace := by
  unfold queue
  dsimp only
  split <;> rfl

theorem dispatch_text
    (cb : Callbacks) (w : World) (x : WsId) {f : Frame} (h : f.opcode = Opcode.TEXT.code) :
    dispatch cb w x f = (cb.onText (w.note (.text x f.payload)) x f.payload, true) := by
  rw [dispatch, h, Opcode.ofCode?_code]

theorem dispatch_ping
    (cb : Callbacks) (w : World) (x : WsId) {f : Frame} (h : f.opcode = Opcode.PING.code) :
    dispatch cb w x f = (queue w x (encodePong f.payload), true) := by
  rw [dispatch, h, Opcode.ofCode?_code]

theorem dispatch_pong
    (cb : Callbacks) (w : World) (x : WsId) {f : Frame} (h : f.opcode = Opcode.PONG.code) :
    dispatch cb w x f = (w, true) := by
  rw [dispatch, h, Opcode.ofCode?_code]

theorem dispatch_close
    (cb : Callbacks) (w : World) (x : WsId) {f : Frame} (h : f.opcode = Opcode.CLOSE.code) :
    dispatch cb w x f =
      (queue (w.setWs x { w.wss x with closeAfterWrite := true }) x encodeClose, true) := by
  rw [dispatch, h, Opcode.ofCode?_code]

/-- The frames behind which the loop goes on. -/
theorem goesOn_iff
    {f : Frame} :
    goesOn f = true ↔ f.opcode = Opcode.TEXT.code ∨ f.opcode = Opcode.PING.code ∨
      f.opcode = Opcode.PONG.code ∨ f.opcode = Opcode.CLOSE.code := by
  constructor
  · intro hgo
    unfold goesOn at hgo
    cases hcode : Opcode.ofCode? f.opcode with
    | none =>
        rw [hcode] at hgo
        cases hgo
    | some opcode =>
        have hop := Opcode.code_of_ofCode? hcode
        rw [hcode] at hgo
        cases opcode with
        | CONTINUATION | BINARY =>
            cases hgo
        | TEXT => exact .inl hop
        | PING => exact .inr (.inl hop)
        | PONG => exact .inr (.inr (.inl hop))
        | CLOSE => exact .inr (.inr (.inr hop))
  · rintro (h | h | h | h) <;> rw [goesOn, h, Opcode.ofCode?_code]

/-- A frame after which the loop goes on leaves the read buffer alone. -/
theorem dispatch_goesOn
    (hcb : KeepsInput cb x) (w : World) {f : Frame} (hgo : goesOn f = true) :
    (dispatch cb w x f).2 = true ∧
      ((dispatch cb w x f).1.wss x).readBuf = (w.wss x).readBuf := by
  rcases goesOn_iff.mp hgo with h | h | h | h
  · rw [dispatch_text cb w x h]
    exact ⟨rfl, hcb.onText _ _⟩
  · rw [dispatch_ping cb w x h]
    refine ⟨rfl, ?_⟩
    simp only [wss_queue]
  · rw [dispatch_pong cb w x h]
    exact ⟨rfl, rfl⟩
  · rw [dispatch_close cb w x h]
    refine ⟨rfl, ?_⟩
    simp only [wss_queue]
    simp [World.setWs]

/-- Other frames close the connection. -/
theorem dispatch_refuses
    (w : World) {f : Frame} (hgo : goesOn f = false) :
    dispatch cb w x f = (close cb w x, false) := by
  unfold goesOn at hgo
  unfold dispatch
  cases hcode : Opcode.ofCode? f.opcode with
  | none =>
      rfl
  | some opcode =>
      rw [hcode] at hgo
      cases opcode with
      | CONTINUATION | BINARY =>
          rfl
      | TEXT | PING | PONG | CLOSE =>
          cases hgo

/-- A turn of the loop that takes a frame, as one equation. -/
theorem frameLoop_succ
    (fuel : Nat) (w : World) :
    frameLoop cb x (fuel + 1) w =
      match decodeBytes (w.wss x).readBuf.readable with
      | .error e => .error e
      | .ok r =>
          if r.consumed = -1 then
            .ok w
          else if r.consumed = 0 then
            .ok (close cb w x)
          else
            match dispatch cb (consume w x r.consumed) x r.frame with
            | (w, true) => frameLoop cb x fuel w
            | (w, false) => .ok w := by
  rw [frameLoop, tryDecode_peek]
  by_cases hshort : (w.wss x).readBuf.readableBytes < 2
  · rewrite [if_pos hshort, decodeBytes_of_short (by rwa [Buffer.length_readable])]
    rfl
  · rewrite [if_neg hshort]
    rfl

/-- `I frames w` may say what holds after some frames have been dispatched: the loop
keeps it. -/
structure FrameRule (cb : Callbacks) (x : WsId) (I : List Frame → World → Prop) :
    Prop where
  keepsInput : KeepsInput cb x
  receive : ∀ done w readBuf, I done w →
    I done (w.setWs x { w.wss x with readBuf := readBuf })
  dispatch : ∀ done w f, I done w → goesOn f = true →
    I (done ++ [f]) (dispatch cb w x f).1

/-- The rule for the loop. -/
theorem frameLoop_frames
    {I : List Frame → World → Prop} (hrule : FrameRule cb x I)
    {done : List Frame} {w : World} (hI : I done w) (fuel : Nat) :
    ∃ w₁, I (done ++ (frameRun fuel (w.wss x).readBuf.readable).frames) w₁ ∧
      (w₁.wss x).readBuf.readable = (frameRun fuel (w.wss x).readBuf.readable).unread ∧
        frameLoop cb x fuel w =
          (frameRun fuel (w.wss x).readBuf.readable).ending.result cb x w₁ := by
  induction fuel generalizing done w with
  | zero =>
      refine ⟨w, ?_, rfl, rfl⟩
      rw [frameRun, List.append_nil]
      exact hI
  | succ fuel ih =>
      rw [frameLoop_succ, frameRun]
      cases hdecode : decodeBytes (w.wss x).readBuf.readable with
      | error e =>
          refine ⟨w, ?_, rfl, rfl⟩
          rw [List.append_nil]
          exact hI
      | ok r =>
          dsimp only
          by_cases hmore : r.consumed = -1
          · rw [if_pos hmore, if_pos hmore]
            refine ⟨w, ?_, rfl, rfl⟩
            rw [List.append_nil]
            exact hI
          rw [if_neg hmore, if_neg hmore]
          by_cases hbad : r.consumed = 0
          · rw [if_pos hbad, if_pos hbad]
            refine ⟨w, ?_, rfl, rfl⟩
            rw [List.append_nil]
            exact hI
          rw [if_neg hbad, if_neg hbad]
          have hrest : ((consume w x r.consumed).wss x).readBuf.readable =
              (w.wss x).readBuf.readable.drop (toSize r.consumed) := by
            simp [consume, World.setWs]
          have hI' := hrule.receive done w ((w.wss x).readBuf.consume (toSize r.consumed)) hI
          rw [← consume] at hI'
          generalize consume w x r.consumed = w₂ at hrest hI'
          cases hgo : goesOn r.frame with
          | true =>
              obtain ⟨hyes, hbuf⟩ := dispatch_goesOn hrule.keepsInput w₂ hgo
              have hnext := hrule.dispatch done w₂ r.frame hI' hgo
              cases hd : WsConnection.dispatch cb w₂ x r.frame with
              | mk w₃ goes =>
                  rw [hd] at hyes hbuf hnext
                  dsimp only at hyes hbuf hnext
                  subst hyes
                  obtain ⟨w₁, hI₁, hunread, hloop⟩ := ih hnext
                  rw [hbuf, hrest] at hI₁ hunread hloop
                  refine ⟨w₁, ?_, hunread, hloop⟩
                  simpa using hI₁
          | false =>
              rw [dispatch_refuses w₂ hgo]
              refine ⟨w₂, ?_, hrest, rfl⟩
              simpa using hI'

end Loop

section Reads

variable {cb : Callbacks} {x : WsId} {I : List Frame → World → Prop}

/-- One readable event: the loop runs over the unread bytes and the received ones. -/
theorem onRead_frames
    (hrule : FrameRule cb x I) {done : List Frame} {w : World} (hI : I done w)
    {s : Input} (hidle : s.idle = .again) {bs : Bytes}
    (hbs : (w.wss x).readBuf.readable ++ s.pending = bs) :
    ∃ w₁, I (done ++ (frameRun bs.length bs).frames) w₁ ∧
      (w₁.wss x).readBuf.readable = (frameRun bs.length bs).unread ∧
        onRead cb w x s = (frameRun bs.length bs).ending.result cb x w₁ := by
  obtain ⟨readBuf, hrecv, hread⟩ := recvLoop_again hidle (w.wss x).readBuf
  rw [hbs] at hread
  rw [onRead, hrecv]
  have hset : ((w.setWs x { w.wss x with readBuf := readBuf }).wss x).readBuf = readBuf := by
    simp [World.setWs]
  have hloop := frameLoop_frames hrule (hrule.receive done w readBuf hI)
    readBuf.readableBytes
  rw [hset, ← Buffer.length_readable, hread] at hloop
  dsimp only
  rw [← Buffer.length_readable, hread]
  exact hloop

/-- If the peer is gone, the received bytes are not looked at. -/
theorem onRead_hangup
    (cb : Callbacks) (w : World) (x : WsId) {s : Input} (hidle : s.idle ≠ .again) :
    ∃ readBuf, onRead cb w x s =
      .ok (close cb (w.setWs x { w.wss x with readBuf := readBuf }) x) := by
  obtain ⟨readBuf, hrecv⟩ := recvLoop_gone hidle (w.wss x).readBuf
  rw [onRead, hrecv]
  exact ⟨readBuf, rfl⟩

/-- Any number of readable events on a stream that the protocol accepts: the loop
dispatches the frames of the stream, however it is cut. -/
theorem reads_frames
    (hrule : FrameRule cb x I) {done : List Frame} {w : World} (hI : I done w)
    {inputs : List Input} (hidle : ∀ s ∈ inputs, s.idle = .again)
    (hwaits : frameDecoder.drain (w.wss x).readBuf.readable =
      { items := [], unread := (w.wss x).readBuf.readable, failed := false })
    {bs : Bytes}
    (hbs : (w.wss x).readBuf.readable ++ inputs.flatMap Input.pending = bs)
    (hok : (frameDecoder.drain bs).failed = false)
    (hgo : ∀ f ∈ (frameDecoder.drain bs).items, goesOn f = true) :
    ∃ w', Runs.run (fun w s => onRead cb w x s) w inputs = .ok w' ∧
      I (done ++ (frameDecoder.drain bs).items) w' ∧
        (w'.wss x).readBuf.readable = (frameDecoder.drain bs).unread := by
  induction inputs generalizing done w bs with
  | nil =>
      rw [List.flatMap_nil, List.append_nil] at hbs
      refine ⟨w, rfl, ?_, ?_⟩
      · rw [← hbs, hwaits, List.append_nil]
        exact hI
      · rw [← hbs, hwaits]
  | cons s inputs ih =>
      rw [List.flatMap_cons, ← List.append_assoc] at hbs
      generalize hfront : (w.wss x).readBuf.readable ++ s.pending = front at hbs
      rw [← hbs] at hok hgo ⊢
      have hokFront := Decoder.failed_of_append hok
      rw [Decoder.drain_append, Decoder.extend, if_neg (by simp [hokFront])] at hok hgo ⊢
      have hgoFront := fun f hf => hgo f (List.mem_append_left _ hf)
      obtain ⟨w₁, hI₁, hunread, hread⟩ :=
        onRead_frames hrule hI (hidle s (by simp)) hfront
      rw [frameRun_of_drain (Nat.le_refl _) hokFront hgoFront] at hI₁ hunread hread
      dsimp only at hI₁ hunread hread
      have hwaits₁ := Decoder.drain_unread hokFront
      rw [← hunread] at hok hgo hwaits₁ ⊢
      obtain ⟨w', hrun, hI', hunread'⟩ :=
        ih hI₁ (fun t ht => hidle t (List.mem_cons_of_mem s ht)) hwaits₁ rfl hok
          fun f hf => hgo f (List.mem_append_right _ hf)
      refine ⟨w', Runs.run_cons.mpr ⟨w₁, hread, hrun⟩, ?_, hunread'⟩
      rwa [List.append_assoc] at hI'

end Reads

end WsConnection
end Web
end ChatRoom
