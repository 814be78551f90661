import ChatRoom.Lib.Incremental
import ChatRoom.Ws.FrameRoundTrip

/-!
# Streams of WebSocket frames

What `tryDecode` returns depends on its `len` bytes only, although it may read
behind them (`tryDecode_congr`).  So a byte string has a decoding of its own,
`decodeBytes`.

`frameDecoder` is the decoder of the protocol for frames of less than `2 ^ 31`
bytes: longer ones are rejected as soon as their length is known.  It is an
incremental decoder, and where it does not reject, `decodeBytes` agrees with it.
A `ClientFrame` in front of any bytes is decoded as the frame it stands for.
-/

namespace ChatRoom
namespace Ws

open Incremental BigEndian

section Agreement

variable {data data' : Nat → UInt8} {n : Nat}

/-- Two memories hold the same first `n` bytes. -/
def Agree (n : Nat) (data data' : Nat → UInt8) : Prop :=
  ∀ i < n, data i = data' i

theorem Agree.map_range'
    (h : Agree n data data') {start k : Nat} (hk : start + k ≤ n) :
    (List.range' start k).map data = (List.range' start k).map data' := by
  apply List.map_congr_left
  intro i hi
  rw [List.mem_range'_1] at hi
  exact h i (by omega)

theorem Agree.reservedBits
    (h : Agree n data data') (hn : 1 ≤ n) :
    ReservedBits data ↔ ReservedBits data' := by
  rw [ReservedBits, ReservedBits, h 0 (by omega)]

theorem Agree.masked
    (h : Agree n data data') (hn : 2 ≤ n) :
    Masked data ↔ Masked data' := by
  rw [Masked, Masked, h 1 (by omega)]

theorem Agree.extensionLength
    (h : Agree n data data') (hn : 2 ≤ n) :
    extensionLength data = extensionLength data' := by
  have hshort : shortLength data = shortLength data' := by
    rw [shortLength, shortLength, h 1 (by omega)]
  rw [Ws.extensionLength, Ws.extensionLength, hshort]

theorem Agree.headerLength
    (h : Agree n data data') (hn : 2 ≤ n) :
    headerLength data = headerLength data' := by
  rw [Ws.headerLength, Ws.headerLength, h.extensionLength hn]

theorem Agree.declaredLength
    (h : Agree n data data') (hn : 2 + Ws.extensionLength data ≤ n) :
    declaredLength data = declaredLength data' := by
  have hext := h.extensionLength (by omega)
  rw [Ws.declaredLength, Ws.declaredLength, shortLength, shortLength, h 1 (by omega), ← hext,
    h.map_range' hn]

theorem Agree.decodedFrame
    (h : Agree n data data') (hn : Ws.headerLength data + Ws.declaredLength data ≤ n) :
    decodedFrame data = decodedFrame data' := by
  have hheader : Ws.headerLength data = 2 + Ws.extensionLength data + 4 := rfl
  have hext := h.extensionLength (by omega)
  have hdeclared := h.declaredLength (by omega)
  have hkey : maskingKey data = maskingKey data' := by
    rw [maskingKey, maskingKey, ← hext, h.map_range' (by omega)]
  have hwire : wirePayload data = wirePayload data' := by
    rw [wirePayload, wirePayload, ← h.headerLength (by omega), ← hdeclared, h.map_range' hn]
  simp only [Ws.decodedFrame, h 0 (by omega), hkey, hwire]

/-- The bytes behind the input do not decide what is returned. -/
theorem tryDecode_congr
    {len : Nat} (h : Agree len data data') :
    (tryDecode data len).result = (tryDecode data' len).result := by
  rw [tryDecode_eq, tryDecode_eq]
  by_cases hlen : len < 2
  · rw [if_pos hlen, if_pos hlen]
  have hrsv := h.reservedBits (by omega)
  have hmasked := h.masked (by omega)
  have hext := h.extensionLength (by omega)
  have hheader := h.headerLength (by omega)
  rw [if_neg hlen, if_neg hlen]
  by_cases hr : ReservedBits data
  · rw [if_pos hr, if_pos (hrsv.mp hr)]
  rw [if_neg hr, if_neg fun h' => hr (hrsv.mpr h'), ← hext]
  by_cases hshort : len < 2 + extensionLength data
  · rw [if_pos hshort, if_pos hshort]
  rw [if_neg hshort, if_neg hshort]
  by_cases hm : Masked data
  · have hdeclared := h.declaredLength (by omega)
    rw [if_neg (not_not.mpr hm), if_neg (not_not.mpr (hmasked.mp hm)), ← hheader, ← hdeclared]
    by_cases hsum : len < (headerLength data + declaredLength data) % 2 ^ 64
    · rw [if_pos hsum, if_pos hsum]
    rw [if_neg hsum, if_neg hsum]
    by_cases hmax : declaredLength data > VECTOR_MAX_SIZE
    · rw [if_pos hmax, if_pos hmax]
    rw [if_neg hmax, if_neg hmax]
    have hle := headerLength_le data
    have hmod : (headerLength data + declaredLength data) % 2 ^ 64 =
        headerLength data + declaredLength data := by
      apply Nat.mod_eq_of_lt
      simp only [VECTOR_MAX_SIZE] at hmax
      omega
    simp only [h.decodedFrame (by omega)]
  · rw [if_pos hm, if_pos fun h' => hm (hmasked.mpr h')]

end Agreement

/-- The memory behind a pointer to a byte string, with zeros behind its end. -/
def memory (bs : Bytes) (i : Nat) : UInt8 :=
  bs.getD i 0

theorem agree_memory_append
    (bs ys : Bytes) :
    Agree bs.length (memory bs) (memory (bs ++ ys)) := by
  intro i hi
  simp [memory, hi, List.getElem?_append_left hi]

/-- What `tryDecode` returns for a byte string. -/
def decodeBytes (bs : Bytes) : Except Exn DecodeResult :=
  (tryDecode (memory bs) bs.length).result

theorem decodeBytes_of_short
    {bs : Bytes} (h : bs.length < 2) :
    decodeBytes bs = .ok needMore := by
  rw [decodeBytes, tryDecode_eq, if_pos h]

section Decoder

/-- The verdict of the protocol on a byte string, if frames have less than `2 ^ 31`
bytes. -/
def frameVerdict (bs : Bytes) : Verdict Frame :=
  let data := memory bs
  if bs.length < 2 then
    .wait
  else if ReservedBits data then
    .malformed
  else if bs.length < 2 + extensionLength data then
    .wait
  else if ¬ Masked data ∨ 2 ^ 31 ≤ headerLength data + declaredLength data then
    .malformed
  else if bs.length < headerLength data + declaredLength data then
    .wait
  else
    .done (headerLength data + declaredLength data) (decodedFrame data)

variable {bs : Bytes}

/-- A frame is complete, in terms of the layout. -/
theorem frameVerdict_eq_done_iff
    {n : Nat} {f : Frame} :
    frameVerdict bs = .done n f ↔
      ¬ ReservedBits (memory bs) ∧ Masked (memory bs) ∧
        n = headerLength (memory bs) + declaredLength (memory bs) ∧ n < 2 ^ 31 ∧
          n ≤ bs.length ∧ f = decodedFrame (memory bs) := by
  have hheader : headerLength (memory bs) = 2 + extensionLength (memory bs) + 4 := rfl
  unfold frameVerdict
  constructor
  · intro h
    dsimp only at h
    split at h
    · cases h
    · split at h
      · cases h
      · split at h
        · cases h
        · split at h
          · cases h
          · next hrsv _ hbad =>
              split at h
              · cases h
              · cases h
                exact ⟨hrsv, not_not.mp fun hm => hbad (.inl hm), rfl, by omega, by omega, rfl⟩
  · rintro ⟨hrsv, hmasked, rfl, hsmall, hlen, rfl⟩
    dsimp only
    rw [if_neg (by omega), if_neg hrsv, if_neg (by omega), if_neg, if_neg (by omega)]
    rintro (hm | hbig)
    · exact hm hmasked
    · omega

/-- The stream cannot go on, in terms of the layout. -/
theorem frameVerdict_eq_malformed_iff :
    frameVerdict bs = .malformed ↔
      2 ≤ bs.length ∧
        (ReservedBits (memory bs) ∨
          2 + extensionLength (memory bs) ≤ bs.length ∧
            (¬ Masked (memory bs) ∨
              2 ^ 31 ≤ headerLength (memory bs) + declaredLength (memory bs))) := by
  unfold frameVerdict
  dsimp only
  by_cases hlen : bs.length < 2
  · rw [if_pos hlen]
    exact iff_of_false (fun h => by cases h) fun h => by omega
  rw [if_neg hlen]
  by_cases hrsv : ReservedBits (memory bs)
  · rw [if_pos hrsv]
    exact iff_of_true rfl ⟨by omega, .inl hrsv⟩
  rw [if_neg hrsv]
  by_cases hshort : bs.length < 2 + extensionLength (memory bs)
  · rw [if_pos hshort]
    refine iff_of_false (fun h => by cases h) ?_
    rintro ⟨-, hr | ⟨hext, -⟩⟩
    · exact hrsv hr
    · omega
  rw [if_neg hshort]
  by_cases hbad : ¬ Masked (memory bs) ∨
      2 ^ 31 ≤ headerLength (memory bs) + declaredLength (memory bs)
  · rw [if_pos hbad]
    exact iff_of_true rfl ⟨by omega, .inr ⟨by omega, hbad⟩⟩
  · rw [if_neg hbad]
    have hno : ¬ (ReservedBits (memory bs) ∨ 2 + extensionLength (memory bs) ≤ bs.length ∧
        (¬ Masked (memory bs) ∨
          2 ^ 31 ≤ headerLength (memory bs) + declaredLength (memory bs))) := by
      rintro (hr | ⟨-, hb⟩)
      · exact hrsv hr
      · exact hbad hb
    split
    · exact iff_of_false (fun h => by cases h) fun h => hno h.2
    · exact iff_of_false (fun h => by cases h) fun h => hno h.2

/-- A frame takes bytes, and not more than there are. -/
theorem frameVerdict_bounds
    {n : Nat} {f : Frame} (h : frameVerdict bs = .done n f) :
    0 < n ∧ n ≤ bs.length := by
  obtain ⟨-, -, hn, -, hle, -⟩ := frameVerdict_eq_done_iff.mp h
  simp only [headerLength] at hn
  omega

/-- A frame stays what it is when more bytes follow. -/
theorem frameVerdict_append_of_done
    {n : Nat} {f : Frame} (h : frameVerdict bs = .done n f) (ys : Bytes) :
    frameVerdict (bs ++ ys) = .done n f := by
  obtain ⟨hrsv, hmasked, rfl, hsmall, hle, rfl⟩ := frameVerdict_eq_done_iff.mp h
  have hagree := agree_memory_append bs ys
  have hheader : headerLength (memory bs) = 2 + extensionLength (memory bs) + 4 := rfl
  rw [frameVerdict_eq_done_iff, ← hagree.reservedBits (by omega),
    ← hagree.masked (by omega), ← hagree.headerLength (by omega),
    ← hagree.declaredLength (by omega), ← hagree.decodedFrame hle, List.length_append]
  exact ⟨hrsv, hmasked, rfl, hsmall, by omega, rfl⟩

/-- A stream that cannot go on stays so. -/
theorem frameVerdict_append_of_malformed
    (h : frameVerdict bs = .malformed) (ys : Bytes) :
    frameVerdict (bs ++ ys) = .malformed := by
  obtain ⟨hlen, hbad⟩ := frameVerdict_eq_malformed_iff.mp h
  have hagree := agree_memory_append bs ys
  rw [frameVerdict_eq_malformed_iff, ← hagree.reservedBits (by omega),
    ← hagree.masked (by omega), ← hagree.extensionLength (by omega), List.length_append]
  refine ⟨by omega, ?_⟩
  rcases hbad with hrsv | ⟨hext, hbad⟩
  · exact .inl hrsv
  · rw [← hagree.headerLength (by omega), ← hagree.declaredLength hext]
    exact .inr ⟨by omega, hbad⟩

/-- The decoder of the protocol is incremental. -/
def frameDecoder : Decoder UInt8 Frame where
  decode := frameVerdict
  done_bounds := frameVerdict_bounds
  done_append := frameVerdict_append_of_done
  malformed_append := frameVerdict_append_of_malformed

/-- Where the protocol has a frame, `tryDecode` returns it. -/
theorem decodeBytes_of_done
    {n : Nat} {f : Frame} (h : frameVerdict bs = .done n f) :
    decodeBytes bs = .ok { consumed := n, frame := f } := by
  obtain ⟨hrsv, hmasked, rfl, hsmall, hle, rfl⟩ := frameVerdict_eq_done_iff.mp h
  have hheader : headerLength (memory bs) = 2 + extensionLength (memory bs) + 4 := rfl
  have hmod : (headerLength (memory bs) + declaredLength (memory bs)) % 2 ^ 64 =
      headerLength (memory bs) + declaredLength (memory bs) := Nat.mod_eq_of_lt (by omega)
  have hmax : ¬ declaredLength (memory bs) > VECTOR_MAX_SIZE := by
    simp only [VECTOR_MAX_SIZE]
    omega
  rw [decodeBytes, tryDecode_eq, if_neg (by omega), if_neg hrsv, if_neg (by omega),
    if_neg (not_not.mpr hmasked), hmod, if_neg (by omega), if_neg hmax]
  dsimp only
  rw [toInt_of_lt hsmall]

/-- Where the protocol waits, `tryDecode` asks for more data. -/
theorem decodeBytes_of_wait
    (h : frameVerdict bs = .wait) :
    decodeBytes bs = .ok needMore := by
  unfold frameVerdict at h
  dsimp only at h
  by_cases hlen : bs.length < 2
  · exact decodeBytes_of_short hlen
  rw [if_neg hlen] at h
  rw [decodeBytes, tryDecode_eq, if_neg hlen]
  by_cases hrsv : ReservedBits (memory bs)
  · rw [if_pos hrsv] at h
    cases h
  rw [if_neg hrsv] at h ⊢
  by_cases hshort : bs.length < 2 + extensionLength (memory bs)
  · rw [if_pos hshort]
  rw [if_neg hshort] at h ⊢
  by_cases hbad : ¬ Masked (memory bs) ∨
      2 ^ 31 ≤ headerLength (memory bs) + declaredLength (memory bs)
  · rw [if_pos hbad] at h
    cases h
  rw [if_neg hbad] at h
  rw [if_neg fun hm => hbad (.inl hm)]
  by_cases hcut : bs.length < headerLength (memory bs) + declaredLength (memory bs)
  · have hsmall : headerLength (memory bs) + declaredLength (memory bs) < 2 ^ 31 :=
      Nat.lt_of_not_le fun hbig => hbad (.inr hbig)
    rw [Nat.mod_eq_of_lt (by omega), if_pos hcut]
  · rw [if_neg hcut] at h
    cases h

end Decoder

section ClientFrames

/-- A complete frame of a client: masked, with FIN set and the reserved bits clear,
in any encoding of its length. -/
structure ClientFrame where
  opcode : Opcode
  payload : Bytes
  key : Bytes
  form : LengthForm
  key_length : key.length = 4
  fits : form.Fits payload.length

namespace ClientFrame

/-- The bytes of the frame. -/
def wire (f : ClientFrame) : Bytes :=
  maskedWire f.opcode.code f.form f.key f.payload

/-- What the frame says. -/
def frame (f : ClientFrame) : Frame where
  fin := true
  opcode := f.opcode.code
  payload := f.payload

/-- The decoder takes a client frame off the front of any bytes. -/
theorem decode_wire
    {f : ClientFrame} (hsize : f.wire.length ≤ 2 ^ 31 - 1) (rest : Bytes) :
    frameDecoder.decode (f.wire ++ rest) = .done f.wire.length f.frame := by
  have hdata : StartsWith (memory (f.wire ++ rest)) f.wire :=
    (startsWith_getD (f.wire ++ rest)).of_front (List.prefix_append _ _)
  have hop : f.opcode.code < 16 := by
    cases f.opcode <;> decide
  obtain ⟨hrsv, hmasked, htotal, hframe⟩ := maskedWire_layout f.key_length f.fits hop hdata
  rw [← wire] at htotal
  refine frameVerdict_eq_done_iff.mpr ⟨hrsv, hmasked, htotal.symm, by omega, ?_, hframe.symm⟩
  rw [List.length_append]
  omega

/-- The decoder drains the bytes of some client frames to these frames. -/
theorem drain_wire
    {frames : List ClientFrame} (hsize : ∀ f ∈ frames, f.wire.length ≤ 2 ^ 31 - 1) :
    frameDecoder.drain (frames.flatMap wire) =
      { items := frames.map frame, unread := [], failed := false } := by
  induction frames with
  | nil =>
      exact Decoder.drain_wait (d := frameDecoder) [] rfl
  | cons f frames ih =>
      have hrest := ih fun g hg => hsize g (List.mem_cons_of_mem f hg)
      rw [List.flatMap_cons, Decoder.drain_done (decode_wire (hsize f (by simp)) _),
        List.drop_left, hrest]
      rfl

end ClientFrame

end ClientFrames

section ServerFrames

/-- The bytes of a whole frame that is not masked: FIN is set, the reserved bits are clear and
the length has its shortest form. -/
def unmaskedWire (opcode : Opcode) (payload : Bytes) : Bytes :=
  let form := LengthForm.shortest payload.length
  (0x80 ||| opcode.code) :: UInt8.ofNat (form.field payload.length) ::
    (toBigEndian form.width payload.length ++ payload)

/-- `encodeFrame` builds whole frames. -/
theorem encodeFrame_eq_unmaskedWire
    (opcode : Opcode) (payload : Bytes) :
    encodeFrame opcode.code payload = unmaskedWire opcode payload := by
  have hcode : opcode.code &&& 0x0F = opcode.code := by
    cases opcode <;> rfl
  rw [encodeFrame_eq, hcode, unmaskedWire, LengthForm.field_shortest, LengthForm.width_shortest]

/-- CLOSE, PING and PONG -/
def Opcode.isControl : Opcode → Bool
  | CLOSE | PING | PONG => true
  | CONTINUATION | TEXT | BINARY => false

/-- A valid frame of a server: a whole message, unmasked, with FIN set, the reserved bits
clear and its length in the shortest form; control frames are short. -/
structure ServerFrame where
  opcode : Opcode
  payload : Bytes
  whole : opcode ≠ .CONTINUATION
  size : payload.length < 2 ^ 64
  control : opcode.isControl = true → payload.length ≤ 125

namespace ServerFrame

/-- The bytes of the frame. -/
def wire (f : ServerFrame) : Bytes :=
  unmaskedWire f.opcode f.payload

/-- `encodeFrame` builds valid frames, if it is given what a frame may carry. -/
theorem encodeFrame_eq_wire
    (f : ServerFrame) :
    encodeFrame f.opcode.code f.payload = f.wire :=
  encodeFrame_eq_unmaskedWire f.opcode f.payload

theorem head_wire
    (f : ServerFrame) :
    f.wire.head? = some (0x80 ||| f.opcode.code) := by
  rfl

/-- The length of a control frame is one byte. -/
theorem wire_control
    {f : ServerFrame} (hcontrol : f.opcode.isControl = true) :
    f.wire =
      (0x80 ||| f.opcode.code) :: UInt8.ofNat f.payload.length :: f.payload := by
  have hlen : f.payload.length < 126 := by
    have := f.control hcontrol
    omega
  simp [wire, unmaskedWire, LengthForm.shortest, hlen, LengthForm.field, LengthForm.width,
    toBigEndian]

end ServerFrame

end ServerFrames

end Ws
end ChatRoom
