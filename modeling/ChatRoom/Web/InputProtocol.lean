import ChatRoom.Web.Conversation

/-!
# The input protocol of a WebSocket connection

A connection may hand over complete messages only, and dispatches no frame
behind a close frame.  `framesOfRun` lists the frames that a run dispatches; what
is handed over are the payloads of the texts among them.  `input_protocol_iff`
says for every run when the protocol is kept: neither the FIN bit of a text nor a
close frame that has been answered keeps the loop from going on, so it depends on
what is received.
-/

namespace ChatRoom
namespace Web
namespace WsConnection

open Socket Ws Runs

/-- The frames that `frameLoop` dispatches. -/
def framesOfLoop (cb : Callbacks) (x : WsId) : Nat → World → List Frame
  | 0, _ => []
  | fuel + 1, w =>
      let readBuf := (w.wss x).readBuf
      if readBuf.readableBytes < 2 then
        []
      else
        match (tryDecode readBuf.peek readBuf.readableBytes).result with
        | .error _ => []
        | .ok r =>
            if r.consumed = -1 then
              []
            else if r.consumed = 0 then
              []
            else
              match dispatch cb (consume w x r.consumed) x r.frame with
              | (w, true) => r.frame :: framesOfLoop cb x fuel w
              | (_, false) => [r.frame]

/-- The frames that `onRead` dispatches. -/
def framesOfRead (cb : Callbacks) (w : World) (x : WsId) (s : Input) : List Frame :=
  match recvLoop (s.pending.length + 1) (w.wss x).readBuf s with
  | (_, .hangup) => []
  | (readBuf, .drained) =>
      framesOfLoop cb x readBuf.readableBytes
        (w.setWs x { w.wss x with readBuf := readBuf })

/-- The frames that a call dispatches. -/
def framesOf (J : JsonLib) (x : WsId) (w : World) : Call → List Frame
  | .read s =>
      if (w.wss x).state = .ACTIVE then framesOfRead (WsHub.callbacks J) w x s else []
  | _ => []

/-- The frames that a run dispatches. -/
def framesOfRun (J : JsonLib) (x : WsId) (w : World) (calls : List Call) : List Frame :=
  outputs (framesOf J x) (call J x) w calls

/-- The frames that are decoded at a readable event, if the peer is still there. -/
def received (w : World) (x : WsId) (s : Input) : FrameRun :=
  let bs := (w.wss x).readBuf.readable ++ s.pending
  frameRun bs.length bs

/-- A frame may be dispatched: a text is a complete message, and no close frame has
been decoded before. -/
def Dispatchable (past : List Frame) (f : Frame) : Prop :=
  (f.opcode = Opcode.TEXT.code → f.fin = true) ∧ ∀ g ∈ past, g.opcode ≠ Opcode.CLOSE.code

/-- Texts are complete, and nothing follows a close frame. -/
def Orderly : Bool → List Frame → Prop
  | _, [] => True
  | closing, f :: frames =>
      closing = false ∧ (f.opcode = Opcode.TEXT.code → f.fin = true) ∧
        Orderly (f.opcode = Opcode.CLOSE.code) frames

/-- What is received on an open connection is orderly. -/
def ReceivesOrderly (x : WsId) (w : World) : Call → Prop
  | .read s =>
      (w.wss x).state = .ACTIVE → s.idle = .again →
        Orderly (w.wss x).closeAfterWrite (received w x s).decoded
  | _ => True

section Dispatched

variable {cb : Callbacks} {x : WsId}

/-- The dispatched frames are the frames of the bytes. -/
theorem framesOfLoop_eq
    (hcb : KeepsInput cb x) (fuel : Nat) (w : World) :
    framesOfLoop cb x fuel w = (frameRun fuel (w.wss x).readBuf.readable).decoded := by
  induction fuel generalizing w with
  | zero =>
      rfl
  | succ fuel ih =>
      rw [framesOfLoop, tryDecode_peek, frameRun]
      by_cases hshort : (w.wss x).readBuf.readableBytes < 2
      · rw [if_pos hshort, decodeBytes_of_short (by rwa [Buffer.length_readable])]
        rfl
      rw [if_neg hshort]
      cases hdecode : decodeBytes (w.wss x).readBuf.readable with
      | error e =>
          rfl
      | ok r =>
          dsimp only
          by_cases hmore : r.consumed = -1
          · rw [if_pos hmore, if_pos hmore]
            rfl
          rw [if_neg hmore, if_neg hmore]
          by_cases hbad : r.consumed = 0
          · rw [if_pos hbad, if_pos hbad]
            rfl
          rw [if_neg hbad, if_neg hbad]
          have hrest : ((consume w x r.consumed).wss x).readBuf.readable =
              (w.wss x).readBuf.readable.drop (toSize r.consumed) := by
            simp [consume, World.setWs]
          generalize consume w x r.consumed = w₂ at hrest
          cases hgo : goesOn r.frame with
          | true =>
              obtain ⟨hyes, hbuf⟩ := dispatch_goesOn hcb w₂ hgo
              cases hd : dispatch cb w₂ x r.frame with
              | mk w₃ goes =>
                  rw [hd] at hyes hbuf
                  dsimp only at hyes hbuf
                  subst hyes
                  dsimp only
                  rw [ih, hbuf, hrest, if_pos rfl]
                  unfold FrameRun.decoded
                  dsimp only
                  split <;> rfl
          | false =>
              rw [dispatch_refuses w₂ hgo]
              rfl

/-- At a readable event, they are the received frames, unless the peer is gone. -/
theorem framesOfRead_eq
    (hcb : KeepsInput cb x) (w : World) (s : Input) :
    framesOfRead cb w x s = if s.idle = .again then (received w x s).decoded else [] := by
  obtain ⟨hread, hend⟩ := recvLoop_spec (s := s) (w.wss x).readBuf (Nat.lt_succ_self _)
  rw [framesOfRead, received]
  cases hrecv : recvLoop (s.pending.length + 1) (w.wss x).readBuf s with
  | mk readBuf ending =>
      rw [hrecv] at hread hend
      dsimp only at hread hend
      cases ending with
      | hangup =>
          rw [if_neg fun hidle => by cases hend.mpr hidle]
      | drained =>
          have hset : ((w.setWs x { w.wss x with readBuf := readBuf }).wss x).readBuf =
              readBuf := by
            simp [World.setWs]
          dsimp only
          rw [if_pos (hend.mp rfl), framesOfLoop_eq hcb, hset, ← hread, Buffer.length_readable]

end Dispatched

section Followed

variable {J : JsonLib} {x : WsId} {w₀ w w' : World} {done : List Frame} {f : Frame}

/-- What is known about the connection since the state `w₀`, when these frames have been
dispatched. -/
structure Followed (x : WsId) (w₀ : World) (done : List Frame) (w : World) : Prop where
  closing : (w.wss x).closeAfterWrite = true ↔
    (w₀.wss x).closeAfterWrite = true ∨ ∃ g ∈ done, g.opcode = Opcode.CLOSE.code
  heard : heard x w.trace = Web.heard x w₀.trace ++ textPayloads done

theorem Followed.refl
    (x : WsId) (w : World) :
    Followed x w [] w where
  closing := by simp
  heard := by simp [textPayloads]

theorem Followed.trans
    {done' : List Frame} (h : Followed x w₀ done w) (h' : Followed x w done' w') :
    Followed x w₀ (done ++ done') w' where
  closing := by
    rw [h'.closing, h.closing]
    simp only [List.mem_append, or_assoc, or_and_right, exists_or]
  heard := by
    rw [h'.heard, h.heard]
    simp [textPayloads]

/-- Sending changes nothing. -/
theorem Followed.appends
    {out : Bytes} (h : Followed x w₀ done w) (happ : Appends x w w' out) :
    Followed x w₀ done w' where
  closing := by rw [happ.closing, h.closing]
  heard := happ.heard.trans h.heard

/-- A frame that is neither a text nor a close frame changes nothing. -/
theorem Followed.skip
    (h : Followed x w₀ done w) (htext : f.opcode ≠ Opcode.TEXT.code)
    (hclose : f.opcode ≠ Opcode.CLOSE.code) :
    Followed x w₀ (done ++ [f]) w where
  closing := by simpa [hclose] using h.closing
  heard := by simpa [textPayloads, htext] using h.heard

theorem followedRule
    (J : JsonLib) (x : WsId) (w₀ : World) :
    FrameRule (WsHub.callbacks J) x (Followed x w₀) where
  keepsInput := keepsInput_hub J x
  receive := by
    rintro done w readBuf ⟨hclosing, hheard⟩
    exact ⟨by simpa [World.setWs] using hclosing, hheard⟩
  dispatch := by
    intro done w f h hgo
    rcases goesOn_iff.mp hgo with hf | hf | hf | hf
    · rw [dispatch_text _ w x hf]
      have hnote : Followed x w₀ (done ++ [f]) (w.note (.text x f.payload)) := by
        refine ⟨?_, ?_⟩
        · simpa [World.note, hf, Opcode.code_inj] using h.closing
        · rw [heard_note_text, h.heard]
          simp [textPayloads, hf]
      exact hnote.appends (onText_appends J _ x x f.payload)
    · rw [dispatch_ping _ w x hf]
      refine (h.skip ?_ ?_).appends (queue_appends w x _)
      · simp [hf, Opcode.code_inj]
      · simp [hf, Opcode.code_inj]
    · rw [dispatch_pong _ w x hf]
      refine h.skip ?_ ?_
      · simp [hf, Opcode.code_inj]
      · simp [hf, Opcode.code_inj]
    · rw [dispatch_close _ w x hf]
      have hset : Followed x w₀ (done ++ [f])
          (w.setWs x { w.wss x with closeAfterWrite := true }) := by
        refine ⟨?_, ?_⟩
        · simp [World.setWs, hf]
        · simpa [World.setWs, textPayloads, hf, Opcode.code_inj] using h.heard
      exact hset.appends (queue_appends _ x _)

theorem Followed.close
    (h : Followed x w₀ done w) :
    Followed x w₀ done (WsConnection.close (WsHub.callbacks J) w x) where
  closing := by
    rw [(close_hub J w x).1]
    exact h.closing
  heard := by
    rw [(close_hub J w x).2.1]
    exact h.heard

/-- A readable event. -/
theorem onRead_follows
    {s : Input} (hok : onRead (WsHub.callbacks J) w x s = .ok w') :
    Followed x w (framesOfRead (WsHub.callbacks J) w x s) w' := by
  have hrule := followedRule J x w
  rw [framesOfRead_eq hrule.keepsInput]
  by_cases hidle : s.idle = .again
  · obtain ⟨w₁, hfollowed, -, hread⟩ := onRead_frames hrule (.refl x w) hidle rfl
    rw [hread] at hok
    rw [if_pos hidle, FrameRun.decoded, received]
    cases hending : (frameRun _ ((w.wss x).readBuf.readable ++ s.pending)).ending with
    | waits =>
        rw [hending] at hok
        cases hok
        exact hfollowed
    | rejects =>
        rw [hending] at hok
        cases hok
        exact hfollowed.close
    | refuses f =>
        rw [hending] at hok
        cases hok
        have hstops := frameRun_refuses hending
        refine hfollowed.close.skip ?_ ?_
        · rintro htext
          simp [goesOn_iff.mpr (.inl htext)] at hstops
        · rintro hclose
          simp [goesOn_iff.mpr (.inr (.inr (.inr hclose)))] at hstops
    | throws e =>
        rw [hending] at hok
        cases hok
  · obtain ⟨readBuf, hread⟩ := onRead_hangup (WsHub.callbacks J) w x hidle
    rw [hread] at hok
    rw [if_neg hidle]
    cases hok
    exact (hrule.receive [] w readBuf (.refl x w)).close

/-- What a call does, in terms of the frames that it dispatches. -/
theorem call_follows
    {c : Call} (hok : call J x w c = .ok w') :
    Followed x w (framesOf J x w c) w' := by
  cases c with
  | read s =>
      rw [call] at hok
      rw [framesOf]
      by_cases hactive : (w.wss x).state = .ACTIVE
      · rw [if_pos hactive] at hok ⊢
        exact onRead_follows hok
      · rw [if_neg hactive] at hok ⊢
        cases hok
        exact .refl x w
  | write sends =>
      cases hok
      refine onWrite_keeps ?_ (fun w₁ h => h.close) ?_ (.refl x w) sends
      · rintro w₁ n ⟨hclosing, hheard⟩
        refine ⟨?_, ?_⟩
        · simpa [wrote, World.setWs] using hclosing
        · simpa [wrote, World.setWs, World.note, Web.heard] using hheard
      · rintro w₁ - ⟨hclosing, hheard⟩
        exact ⟨by simpa [World.setWs] using hclosing, hheard⟩
  | sendText payload size =>
      cases hok
      exact (Followed.refl x w).appends (sendText_appends w x payload)
  | sendPing payload size =>
      cases hok
      exact (Followed.refl x w).appends (sendPing_appends w x payload)
  | broadcast m =>
      cases hok
      exact (Followed.refl x w).appends (broadcast_appends J w x m)

end Followed

section Protocol

/-- More frames may be dispatched iff they are orderly. -/
theorem justified_append_iff
    {past : List Frame} (hpast : Justified Dispatchable past) {closing : Bool}
    (hclosing : closing = true ↔ ∃ g ∈ past, g.opcode = Opcode.CLOSE.code)
    (frames : List Frame) :
    Justified Dispatchable (past ++ frames) ↔ Orderly closing frames := by
  induction frames generalizing past closing with
  | nil =>
      rw [List.append_nil]
      exact iff_of_true hpast trivial
  | cons f frames ih =>
      have hopen : closing = false ↔ ∀ g ∈ past, g.opcode ≠ Opcode.CLOSE.code := by
        rw [← Bool.not_eq_true, hclosing, not_exists]
        exact forall_congr' fun g => not_and
      have hnext : (∀ g ∈ past, g.opcode ≠ Opcode.CLOSE.code) →
          (decide (f.opcode = Opcode.CLOSE.code) = true ↔
            ∃ g ∈ past ++ [f], g.opcode = Opcode.CLOSE.code) := by
        intro hnone
        rw [decide_eq_true_iff]
        constructor
        · intro hf
          exact ⟨f, by simp, hf⟩
        · rintro ⟨g, hg, hclose⟩
          rcases List.mem_append.mp hg with hg | hg
          · exact absurd hclose (hnone g hg)
          · exact List.mem_singleton.mp hg ▸ hclose
      rw [List.append_cons, Orderly, hopen]
      constructor
      · intro h
        obtain ⟨hcomplete, hnone⟩ := (justified_snoc_iff.mp h.of_append).2
        exact ⟨hnone, hcomplete, (ih h.of_append (hnext hnone)).mp h⟩
      · rintro ⟨hnone, hcomplete, hrest⟩
        exact (ih (hpast.snoc ⟨hcomplete, hnone⟩) (hnext hnone)).mpr hrest

/-- In every run of a connection that the hub has adopted, what is handed over are the
texts among the dispatched frames, and only complete texts and no frames behind a close
frame are dispatched iff every read receives such frames only. -/
theorem input_protocol_iff
    (J : JsonLib) (w : World) (x : WsId) (fd : Fd) (user : String) (calls : List Call) :
    let w₀ := w.setWs x (WsConnection.new fd user)
    (∀ w', run (call J x) w₀ calls = .ok w' →
      heard x w'.trace = heard x w₀.trace ++ textPayloads (framesOfRun J x w₀ calls)) ∧
      (Justified Dispatchable (framesOfRun J x w₀ calls) ↔
        Meets (ReceivesOrderly x) (call J x) w₀ calls) := by
  intro w₀
  have hkeeps : ∀ past s c s', Followed x w₀ past s → call J x s c = .ok s' →
      Followed x w₀ (past ++ framesOf J x s c) s' :=
    fun past s c s' h hok => h.trans (call_follows hok)
  have hstep : ∀ past s c, Followed x w₀ past s → Justified Dispatchable past →
      (Justified Dispatchable (past ++ framesOf J x s c) ↔ ReceivesOrderly x s c) := by
    intro past s c h hpast
    have hfresh : (w₀.wss x).closeAfterWrite = false := by
      simp [w₀, World.setWs, WsConnection.new]
    have hclosing := h.closing
    rw [hfresh] at hclosing
    rw [justified_append_iff hpast (hclosing.trans (by simp))]
    cases c with
    | read input =>
        rw [framesOf, ReceivesOrderly]
        by_cases hactive : (s.wss x).state = .ACTIVE
        · rw [if_pos hactive, framesOfRead_eq (keepsInput_hub J x)]
          by_cases hidle : input.idle = .again
          · simp [hactive, hidle]
          · simp [hidle, Orderly]
        · simp [hactive, Orderly]
    | write | sendText | sendPing | broadcast =>
        exact Iff.rfl
  have hstart := Followed.refl x w₀
  refine ⟨fun w' hrun => (outputs_invariant hkeeps hstart hrun).heard, ?_⟩
  exact justified_outputs_iff hstep (fun past s c s' h _ hok => hkeeps past s c s' h hok) hstart
    justified_nil calls

/-- A client that sends the first half of a text, a close frame, and then a ping and
another text. -/
def hastyClient : Bytes :=
  [0x01, 0x81, 0, 0, 0, 0, 0x68,
    0x88, 0x80, 0, 0, 0, 0,
    0x89, 0x80, 0, 0, 0, 0,
    0x81, 0x81, 0, 0, 0, 0, 0x69]

/-- A library that rejects every text. -/
def noJson : JsonLib where
  parse _ := none
  dump _ := []

/-- The client is heard before its first text is complete and behind its close frame. -/
theorem hastyClient_breaks_protocol :
    let w₀ := World.init.setWs 0 (WsConnection.new 3 "ann")
    let calls := [Call.read { pending := hastyClient, sizes := [], idle := .again }]
    (∃ w', run (call noJson 0) w₀ calls = .ok w' ∧
      (heard 0 w'.trace = [[0x68], [0x69]] ∧
        (w'.wss 0).writeBuf.readable = encodeClose ++ encodePong [])) ∧
      ¬ Justified Dispatchable (framesOfRun noJson 0 w₀ calls) := by
  intro w₀ calls
  refine ⟨?_, ?_⟩
  · obtain ⟨w', hrun, htest⟩ := exists_ok_of_any (run (call noJson 0) w₀ calls)
      (fun w' => heard 0 w'.trace = [[0x68], [0x69]] ∧
        (w'.wss 0).writeBuf.readable = encodeClose ++ encodePong []) (by decide +kernel)
    exact ⟨w', hrun, of_decide_eq_true htest⟩
  · have hframes : framesOfRun noJson 0 w₀ calls =
        [{ fin := false, opcode := Opcode.TEXT.code, payload := [0x68] },
          { fin := true, opcode := Opcode.CLOSE.code, payload := [] },
          { fin := true, opcode := Opcode.PING.code, payload := [] },
          { fin := true, opcode := Opcode.TEXT.code, payload := [0x69] }] := by
      decide +kernel
    intro hall
    rw [hframes] at hall
    have hfirst := (hall [] _ _ rfl).1 rfl
    cases hfirst

end Protocol

end WsConnection
end Web
end ChatRoom
