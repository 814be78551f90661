import ChatRoom.Common.Text
import ChatRoom.Lib.Access
import ChatRoom.Lib.BigEndian

/-!
# WebSocket frames

`tryDecode` and `encodeFrame` of server/ws_frame.cpp.  `tryDecode` gets a
pointer and a length; the model gives it the memory behind the pointer, of which
the first `len` bytes are the input, and records every address it reads.

`tryDecode_eq` says once what the decoder computes, in terms of the layout of
the header: how long it is, what it declares, which key it carries.  All later
results about the decoder use this equation.
-/

namespace ChatRoom
namespace Ws

open BigEndian

/-- `Opcode` -/
inductive Opcode where
  | CONTINUATION
  | TEXT
  | BINARY
  | CLOSE
  | PING
  | PONG
deriving DecidableEq

namespace Opcode

/-- The value of the enumerator on the wire. -/
def code : Opcode → UInt8
  | CONTINUATION => 0x0
  | TEXT => 0x1
  | BINARY => 0x2
  | CLOSE => 0x8
  | PING => 0x9
  | PONG => 0xA

/-- The enumerator an opcode stands for, if any. -/
def ofCode? (c : UInt8) : Option Opcode :=
  [CONTINUATION, TEXT, BINARY, CLOSE, PING, PONG].find? fun o => o.code == c

theorem ofCode?_code
    (o : Opcode) :
    ofCode? o.code = some o := by
  cases o <;> rfl

theorem code_inj
    {o p : Opcode} :
    o.code = p.code ↔ o = p := by
  cases o <;> cases p <;> decide

theorem code_of_ofCode?
    {c : UInt8} {o : Opcode} (h : ofCode? c = some o) :
    c = o.code := by
  have := List.find?_some h
  exact (beq_iff_eq.mp this).symm

end Opcode

/-- `Frame`; the payload is already unmasked. -/
structure Frame where
  fin : Bool
  opcode : UInt8
  payload : Bytes
deriving DecidableEq

/-- `Frame{}` -/
def Frame.empty : Frame where
  fin := false
  opcode := 0
  payload := []

/-- `DecodeResult`: `consumed` is positive for a frame, `-1` for "more data is
needed" and `0` for a protocol error. -/
structure DecodeResult where
  consumed : Int
  frame : Frame
deriving DecidableEq

def needMore : DecodeResult where
  consumed := -1
  frame := Frame.empty

def protocolError : DecodeResult where
  consumed := 0
  frame := Frame.empty

/-- `std::vector<uint8_t>::max_size()` on a 64-bit platform -/
def VECTOR_MAX_SIZE : Nat := 2 ^ 63 - 1

/-- XOR of the payload with the masking key, used cyclically. -/
def applyMask (mkey payload : Bytes) : Bytes :=
  payload.mapIdx fun i b => b ^^^ mkey.getD (i % 4) 0

/-- Conversion of a `uint64_t` to `int`. -/
def toInt (n : Nat) : Int :=
  Int.bmod n (2 ^ 32)

/-- Steps 5 to 8 of `tryDecode`: masking key and payload, from `pos` on. -/
def tryDecodeFrom (data : Nat → UInt8) (len : Nat) (fin : Bool) (opcode mask : UInt8)
    (plen pos : Nat) : Access Exn DecodeResult :=
  if mask = 1 then do
    -- no check that `len` covers the four bytes of the key
    let mkey ← Access.readBytes data pos 4
    let pos := pos + 4
    -- `pos + plen` is a sum of 64-bit numbers
    if len < (pos + plen) % 2 ^ 64 then
      pure needMore
    else if plen > VECTOR_MAX_SIZE then
      Access.throw .lengthError
    else do
      let masked ← Access.readBytes data pos plen
      pure
        { consumed := toInt (pos + plen)
          frame := { fin := fin, opcode := opcode, payload := applyMask mkey masked } }
  else
    pure protocolError

/-- `tryDecode` -/
def tryDecode (data : Nat → UInt8) (len : Nat) : Access Exn DecodeResult :=
  if len < 2 then
    pure needMore
  else do
    let b0 ← Access.readByte data 0
    let fin := (b0 >>> 7) &&& 1 ≠ 0
    let opcode := b0 &&& 0x0F
    let rsv := b0 &&& 0x70
    if (rsv ||| 0x8F) ≠ 0x8F then
      pure protocolError
    else do
      let b1 ← Access.readByte data 1
      let mask := (b1 >>> 7) &&& 1
      let plen := (b1 &&& 0x7F).toNat
      let pos := 2
      if plen = 126 then
        if len < pos + 2 then
          pure needMore
        else do
          let ext ← Access.readBytes data pos 2
          let plen := (ext.getD 0 0).toNat <<< 8 ||| (ext.getD 1 0).toNat
          tryDecodeFrom data len fin opcode mask plen (pos + 2)
      else if plen = 127 then
        if len < pos + 8 then
          pure needMore
        else do
          -- eight bytes shifted in from zero do not overflow 64 bits
          let ext ← Access.readBytes data pos 8
          let plen := ext.foldl (fun plen b => plen <<< 8 ||| b.toNat) 0
          tryDecodeFrom data len fin opcode mask plen (pos + 8)
      else
        tryDecodeFrom data len fin opcode mask plen pos

/-- `encodeFrame` -/
def encodeFrame (opcode : UInt8) (payload : Bytes) : Bytes :=
  let len := payload.length
  let head : UInt8 := 0x80 ||| (opcode &&& 0x0F)
  let lengthField : Bytes :=
    if len < 126 then
      [UInt8.ofNat len]
    else if len < 65536 then
      [126, UInt8.ofNat (len >>> 8), UInt8.ofNat (len &&& 0xFF)]
    else
      127 :: [7, 6, 5, 4, 3, 2, 1, 0].map fun i => UInt8.ofNat (len >>> (i * 8) &&& 0xFF)
  head :: lengthField ++ payload

/-- `encodeText` -/
def encodeText (s : Bytes) : Bytes :=
  encodeFrame Opcode.TEXT.code s

/-- `encodePing` -/
def encodePing (s : Bytes) : Bytes :=
  encodeFrame Opcode.PING.code s

/-- `encodePong` -/
def encodePong (s : Bytes) : Bytes :=
  encodeFrame Opcode.PONG.code s

/-- `encodeClose()` -/
def encodeClose : Bytes :=
  encodeFrame Opcode.CLOSE.code []

section Layout

variable (data : Nat → UInt8)

/-- One of the bits RSV1 to RSV3 is set. -/
def ReservedBits : Prop :=
  (data 0 &&& 0x70) ||| 0x8F ≠ 0x8F

/-- The MASK bit is set. -/
def Masked : Prop :=
  (data 1 >>> 7) &&& 1 = 1

instance : Decidable (ReservedBits data) :=
  inferInstanceAs (Decidable (_ ≠ _))

instance : Decidable (Masked data) :=
  inferInstanceAs (Decidable (_ = _))

/-- The 7-bit length. -/
def shortLength : Nat :=
  (data 1 &&& 0x7F).toNat

/-- The width of the extended length. -/
def extensionLength : Nat :=
  if shortLength data = 126 then 2
  else if shortLength data = 127 then 8
  else 0

/-- The length of the header with its masking key. -/
def headerLength : Nat :=
  2 + extensionLength data + 4

/-- The payload length the header declares. -/
def declaredLength : Nat :=
  if extensionLength data = 0 then
    shortLength data
  else
    ofBigEndian ((List.range' 2 (extensionLength data)).map data)

/-- The masking key. -/
def maskingKey : Bytes :=
  (List.range' (2 + extensionLength data) 4).map data

/-- The bytes of the payload as they are on the wire. -/
def wirePayload : Bytes :=
  (List.range' (headerLength data) (declaredLength data)).map data

/-- The frame a complete header and payload stand for. -/
def decodedFrame : Frame where
  fin := (data 0 >>> 7) &&& 1 ≠ 0
  opcode := data 0 &&& 0x0F
  payload := applyMask (maskingKey data) (wirePayload data)

end Layout

/-- The shifting loop of the decoder reads a big-endian number. -/
theorem foldl_shift_eq
    (bs : Bytes) :
    bs.foldl (fun plen b => plen <<< 8 ||| b.toNat) 0 = ofBigEndian bs := by
  have hstep : ∀ (acc : Nat) (b : UInt8), acc <<< 8 ||| b.toNat = acc * 256 + b.toNat := by
    intro acc b
    exact BigEndian.or_eq_add (Nat.shiftLeft_eq acc 8) b.toNat_lt
  simp only [hstep]
  rfl

theorem tryDecodeFrom_eq
    (data : Nat → UInt8) (len : Nat) (fin : Bool) (opcode mask : UInt8) (plen pos : Nat) :
    tryDecodeFrom data len fin opcode mask plen pos =
      if mask = 1 then
        if len < (pos + 4 + plen) % 2 ^ 64 then
          { reads := List.range' pos 4, result := .ok needMore }
        else if plen > VECTOR_MAX_SIZE then
          { reads := List.range' pos 4, result := .error .lengthError }
        else
          { reads := List.range' pos 4 ++ List.range' (pos + 4) plen
            result := .ok
              { consumed := toInt (pos + 4 + plen)
                frame :=
                  { fin := fin
                    opcode := opcode
                    payload := applyMask ((List.range' pos 4).map data)
                      ((List.range' (pos + 4) plen).map data) } } }
      else
        { reads := [], result := .ok protocolError } := by
  by_cases hmask : mask = 1
  · simp only [tryDecodeFrom, if_pos hmask, Access.readBytes_eq, Access.ok_bind, Access.pure_eq]
    by_cases hlen : len < (pos + 4 + plen) % 2 ^ 64
    · simp only [if_pos hlen, List.append_nil]
    · by_cases hmax : plen > VECTOR_MAX_SIZE
      · simp only [if_neg hlen, if_pos hmax, Access.throw, List.append_nil]
      · simp only [if_neg hlen, if_neg hmax, List.append_nil]
  · simp only [tryDecodeFrom, if_neg hmask, Access.pure_eq]

/-- The two bytes and the extended length have been read, and the length field
is known: the remaining steps, in terms of the layout. -/
theorem tryDecodeFrom_layout
    (data : Nat → UInt8) (len : Nat) :
    { reads := List.range' 0 (2 + extensionLength data) ++
        (tryDecodeFrom data len ((data 0 >>> 7) &&& 1 ≠ 0) (data 0 &&& 0x0F)
          ((data 1 >>> 7) &&& 1) (declaredLength data) (2 + extensionLength data)).reads
      result := (tryDecodeFrom data len ((data 0 >>> 7) &&& 1 ≠ 0) (data 0 &&& 0x0F)
          ((data 1 >>> 7) &&& 1) (declaredLength data) (2 + extensionLength data)).result :
        Access Exn DecodeResult } =
      if ¬ Masked data then
        { reads := List.range' 0 (2 + extensionLength data), result := .ok protocolError }
      else if len < (headerLength data + declaredLength data) % 2 ^ 64 then
        { reads := List.range' 0 (headerLength data), result := .ok needMore }
      else if declaredLength data > VECTOR_MAX_SIZE then
        { reads := List.range' 0 (headerLength data), result := .error .lengthError }
      else
        { reads := List.range' 0 (headerLength data + declaredLength data)
          result := .ok
            { consumed := toInt (headerLength data + declaredLength data)
              frame := decodedFrame data } } := by
  have hkey : List.range' 0 (2 + extensionLength data) ++
      List.range' (2 + extensionLength data) 4 = List.range' 0 (headerLength data) := by
    have h := List.range'_append_1 (s := 0) (m := 2 + extensionLength data) (n := 4)
    rwa [Nat.zero_add] at h
  have hpayload : List.range' 0 (headerLength data) ++
      List.range' (headerLength data) (declaredLength data) =
        List.range' 0 (headerLength data + declaredLength data) := by
    have h := List.range'_append_1 (s := 0) (m := headerLength data) (n := declaredLength data)
    rwa [Nat.zero_add] at h
  have hheader : 2 + extensionLength data + 4 = headerLength data := by
    rfl
  rw [tryDecodeFrom_eq, hheader]
  by_cases hmask : (data 1 >>> 7) &&& 1 = 1
  · have hmasked : ¬ ¬ Masked data := not_not.mpr hmask
    rw [if_pos hmask, if_neg hmasked]
    by_cases hlen : len < (headerLength data + declaredLength data) % 2 ^ 64
    · simp only [if_pos hlen, hkey]
    · by_cases hmax : declaredLength data > VECTOR_MAX_SIZE
      · simp only [if_neg hlen, if_pos hmax, hkey]
      · simp only [if_neg hlen, if_neg hmax]
        rw [← List.append_assoc, hkey, hpayload]
        rfl
  · have hmasked : ¬ Masked data := hmask
    rw [if_neg hmask, if_pos hmasked, List.append_nil]

/-- What `tryDecode` reads and returns, in terms of the layout of the header. -/
theorem tryDecode_eq
    (data : Nat → UInt8) (len : Nat) :
    tryDecode data len =
      if len < 2 then
        { reads := [], result := .ok needMore }
      else if ReservedBits data then
        { reads := [0], result := .ok protocolError }
      else if len < 2 + extensionLength data then
        { reads := [0, 1], result := .ok needMore }
      else if ¬ Masked data then
        { reads := List.range' 0 (2 + extensionLength data), result := .ok protocolError }
      else if len < (headerLength data + declaredLength data) % 2 ^ 64 then
        { reads := List.range' 0 (headerLength data), result := .ok needMore }
      else if declaredLength data > VECTOR_MAX_SIZE then
        { reads := List.range' 0 (headerLength data), result := .error .lengthError }
      else
        { reads := List.range' 0 (headerLength data + declaredLength data)
          result := .ok
            { consumed := toInt (headerLength data + declaredLength data)
              frame := decodedFrame data } } := by
  have htail := tryDecodeFrom_layout data len
  by_cases hlen : len < 2
  · simp only [tryDecode, if_pos hlen, Access.pure_eq]
  by_cases hrsv : ReservedBits data
  · have hrsv' : (data 0 &&& 0x70) ||| 0x8F ≠ 0x8F := hrsv
    simp only [tryDecode, if_neg hlen, if_pos hrsv, if_pos hrsv', Access.readByte_eq,
      Access.ok_bind, Access.pure_eq, List.append_nil]
  have hrsv' : ¬ (data 0 &&& 0x70) ||| 0x8F ≠ 0x8F := hrsv
  simp only [if_neg hlen, if_neg hrsv]
  simp only [tryDecode, if_neg hlen, if_neg hrsv', Access.readByte_eq, Access.readBytes_eq,
    Access.ok_bind, Access.pure_eq]
  by_cases h126 : shortLength data = 126
  · have hext : extensionLength data = 2 := by
      simp [extensionLength, h126]
    have hdeclared : declaredLength data = (data 2).toNat <<< 8 ||| (data 3).toNat := by
      rw [declaredLength, if_neg (by omega), hext, ← foldl_shift_eq]
      simp [List.range'_succ]
    have h126' : (data 1 &&& 0x7F).toNat = 126 := h126
    rw [hext] at htail ⊢
    rw [if_pos h126']
    by_cases hlen4 : len < 2 + 2
    · simp only [if_pos hlen4]
      rfl
    · rw [if_neg hlen4, if_neg hlen4, ← htail, hdeclared]
      rfl
  · have h126' : ¬ (data 1 &&& 0x7F).toNat = 126 := h126
    rw [if_neg h126']
    by_cases h127 : shortLength data = 127
    · have hext : extensionLength data = 8 := by
        simp [extensionLength, h127]
      have hdeclared : declaredLength data =
          ((List.range' 2 8).map data).foldl (fun plen b => plen <<< 8 ||| b.toNat) 0 := by
        rw [declaredLength, if_neg (by omega), hext, ← foldl_shift_eq]
      have h127' : (data 1 &&& 0x7F).toNat = 127 := h127
      rw [hext] at htail ⊢
      rw [if_pos h127']
      by_cases hlen10 : len < 2 + 8
      · simp only [if_pos hlen10]
        rfl
      · rw [if_neg hlen10, if_neg hlen10, ← htail, hdeclared]
        rfl
    · have hext : extensionLength data = 0 := by
        simp [extensionLength, h126, h127]
      have hdeclared : declaredLength data = (data 1 &&& 0x7F).toNat := by
        rw [declaredLength, if_pos hext]
        rfl
      have h127' : ¬ (data 1 &&& 0x7F).toNat = 127 := h127
      rw [hext] at htail ⊢
      rw [if_neg h127', if_neg (by omega), ← htail, hdeclared]
      rfl

/-- A payload is as long as a vector can be. -/
theorem length_payload_le
    {data : Nat → UInt8} {len : Nat} {r : DecodeResult}
    (h : (tryDecode data len).result = .ok r) :
    r.frame.payload.length ≤ VECTOR_MAX_SIZE := by
  have hnone {r' : DecodeResult} (hr : .ok r' = (.ok r : Except Exn DecodeResult))
      (hempty : r'.frame = Frame.empty) :
      r.frame.payload.length ≤ VECTOR_MAX_SIZE := by
    rw [← Except.ok.inj hr, hempty]
    exact Nat.zero_le _
  rw [tryDecode_eq] at h
  split at h
  · exact hnone h rfl
  split at h
  · exact hnone h rfl
  split at h
  · exact hnone h rfl
  split at h
  · exact hnone h rfl
  split at h
  · exact hnone h rfl
  split at h
  · cases h
  · next hmax =>
      rw [← Except.ok.inj h]
      simpa [decodedFrame, applyMask, wirePayload] using hmax

end Ws
end ChatRoom
