import ChatRoom.Web.Frames

/-!
# Delivery of client frames

A client that sends complete frames, each a text, a ping or a pong, has every
text handed over once and every ping answered once, in order, however the bytes
are cut into reads.  The text handler does not close the connection and does not
write to it.
-/

namespace ChatRoom
namespace Web
namespace WsConnection

open Socket Ws Incremental

/-- The text handler does not close the connection, write to it or read from it, and
does not call itself. -/
structure Listens (cb : Callbacks) (x : WsId) : Prop extends KeepsInput cb x where
  state : ∀ w payload, ((cb.onText w x payload).wss x).state = (w.wss x).state
  writeBuf : ∀ w payload, ((cb.onText w x payload).wss x).writeBuf = (w.wss x).writeBuf
  heard : ∀ w payload, heard x (cb.onText w x payload).trace = heard x w.trace

/-- The payloads of the texts among some frames. -/
def textPayloads (frames : List Frame) : List Bytes :=
  (frames.filter (·.opcode = Opcode.TEXT.code)).map (·.payload)

theorem textPayloads_append
    (frames more : List Frame) :
    textPayloads (frames ++ more) = textPayloads frames ++ textPayloads more := by
  simp [textPayloads]

/-- A PONG frame for every ping among some frames, with its payload. -/
def pongs (frames : List Frame) : Bytes :=
  (frames.filter (·.opcode = Opcode.PING.code)).flatMap fun f => unmaskedWire .PONG f.payload

/-- What has become of the connection since the state `w₀`, when these frames have been
dispatched. -/
structure Delivered (x : WsId) (w₀ : World) (frames : List Frame) (w : World) : Prop where
  state : (w.wss x).state = (w₀.wss x).state
  heard : heard x w.trace = Web.heard x w₀.trace ++ textPayloads frames
  replies : (w.wss x).writeBuf.readable = (w₀.wss x).writeBuf.readable ++ pongs frames

section Delivery

variable {cb : Callbacks} {x : WsId} {w₀ w : World} {done : List Frame} {f : Frame}

theorem Delivered.refl
    (x : WsId) (w : World) :
    Delivered x w [] w where
  state := rfl
  heard := by simp [textPayloads]
  replies := by simp [pongs]

/-- A text is handed over. -/
theorem Delivered.text
    (hcb : Listens cb x) (h : Delivered x w₀ done w) (hf : f.opcode = Opcode.TEXT.code) :
    Delivered x w₀ (done ++ [f]) (cb.onText (w.note (.text x f.payload)) x f.payload) where
  state := (hcb.state _ _).trans h.state
  heard := by
    rw [hcb.heard, heard_note_text, h.heard]
    simp [textPayloads, hf]
  replies := by
    rw [hcb.writeBuf]
    simpa [World.note, pongs, hf, Opcode.code_inj] using h.replies

/-- A ping is answered. -/
theorem Delivered.ping
    (h : Delivered x w₀ done w) (hf : f.opcode = Opcode.PING.code) :
    Delivered x w₀ (done ++ [f]) (queue w x (encodePong f.payload)) where
  state := by
    rw [wss_queue]
    exact h.state
  heard := by
    rw [trace_queue]
    simpa [textPayloads, hf, Opcode.code_inj] using h.heard
  replies := by
    rw [wss_queue]
    simp [h.replies, pongs, hf, encodePong, encodeFrame_eq_unmaskedWire]

/-- A pong is ignored. -/
theorem Delivered.pong
    (h : Delivered x w₀ done w) (hf : f.opcode = Opcode.PONG.code) :
    Delivered x w₀ (done ++ [f]) w where
  state := h.state
  heard := by simpa [textPayloads, hf, Opcode.code_inj] using h.heard
  replies := by simpa [pongs, hf, Opcode.code_inj] using h.replies

/-- The loop keeps it, as long as no frame asks to close the connection. -/
theorem deliveredRule
    (hcb : Listens cb x) (w₀ : World) :
    FrameRule cb x fun done w =>
      (∀ f ∈ done, f.opcode ≠ Opcode.CLOSE.code) → Delivered x w₀ done w where
  keepsInput := hcb.toKeepsInput
  receive := by
    intro done w readBuf h hopen
    obtain ⟨hstate, hheard, hreplies⟩ := h hopen
    exact ⟨by simpa [World.setWs] using hstate, hheard, by simpa [World.setWs] using hreplies⟩
  dispatch := by
    intro done w f h hgo hopen
    have hdone := h fun g hg => hopen g (List.mem_append_left _ hg)
    rcases goesOn_iff.mp hgo with hf | hf | hf | hf
    · rw [dispatch_text cb w x hf]
      exact hdone.text hcb hf
    · rw [dispatch_ping cb w x hf]
      exact hdone.ping hf
    · rw [dispatch_pong cb w x hf]
      exact hdone.pong hf
    · exact absurd hf (hopen f (by simp))

/-- The callbacks of a connection whose texts are not looked at. -/
def ignoring : Callbacks where
  onText w _ _ := w
  onClose w _ := w

theorem listens_ignoring
    (x : WsId) :
    Listens ignoring x where
  onText _ _ := rfl
  state _ _ := rfl
  writeBuf _ _ := rfl
  heard _ _ := rfl

/-- A text, a ping and a pong. -/
def sampleFrames : List ClientFrame :=
  [{ opcode := .TEXT, payload := [0x68, 0x69], key := [1, 2, 3, 4], form := .short
     key_length := rfl, fits := by decide },
   { opcode := .PING, payload := [0x70], key := [5, 6, 7, 8], form := .two
     key_length := rfl, fits := by decide },
   { opcode := .PONG, payload := [], key := [9, 9, 9, 9], form := .short
     key_length := rfl, fits := by decide }]

/-- The bytes of the sample, cut inside a masking key and inside a length. -/
def sampleReads : List Input :=
  let bs := sampleFrames.flatMap ClientFrame.wire
  [{ pending := bs.take 4, sizes := [3], idle := .again },
   { pending := (bs.drop 4).take 7, sizes := [], idle := .again },
   { pending := [], sizes := [], idle := .again },
   { pending := bs.drop 11, sizes := [1, 2], idle := .again }]

end Delivery

end WsConnection
end Web
end ChatRoom
