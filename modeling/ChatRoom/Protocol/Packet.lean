import ChatRoom.Common.Text
import ChatRoom.Lib.BigEndian
import ChatRoom.Lib.Incremental

/-!
# The packet protocol of the TCP chat room

The wire format of protocol/message.h and protocol/packet.cpp: a four-byte
big-endian length that counts the type byte and the body, the type byte, the
body.  `encode` writes it, `decode` reads the first packet of a byte string or
says that more bytes are needed or that the length field is illegal.

`packetDecoder` presents `decode` as an incremental decoder: its answers do not
change when more bytes arrive.
-/

namespace ChatRoom

open BigEndian Incremental

/-- `MessageType` -/
inductive MessageType where
  | MSG_LOGIN
  | MSG_LOGIN_ACK
  | MSG_CHAT
  | MSG_CHAT_BROAD
  | MSG_USER_LIST
  | MSG_PRIVATE
  | MSG_PING
  | MSG_PONG
  | MSG_LOGOUT
  | MSG_SYSTEM
deriving DecidableEq

namespace MessageType

/-- The value of the enumerator on the wire. -/
def code : MessageType → UInt8
  | MSG_LOGIN => 1
  | MSG_LOGIN_ACK => 2
  | MSG_CHAT => 3
  | MSG_CHAT_BROAD => 4
  | MSG_USER_LIST => 5
  | MSG_PRIVATE => 6
  | MSG_PING => 7
  | MSG_PONG => 8
  | MSG_LOGOUT => 9
  | MSG_SYSTEM => 10

/-- The enumerator a type byte stands for, if any. -/
def ofCode? (t : UInt8) : Option MessageType :=
  [MSG_LOGIN, MSG_LOGIN_ACK, MSG_CHAT, MSG_CHAT_BROAD, MSG_USER_LIST, MSG_PRIVATE, MSG_PING,
    MSG_PONG, MSG_LOGOUT, MSG_SYSTEM].find? fun m => m.code == t

theorem ofCode?_code
    (m : MessageType) :
    ofCode? m.code = some m := by
  cases m <;> rfl

theorem code_of_ofCode?
    {t : UInt8} {m : MessageType} (h : ofCode? t = some m) :
    t = m.code := by
  have hm := List.find?_some h
  exact (beq_iff_eq.mp hm).symm

end MessageType

def HEADER_SIZE : Nat := 4
def TYPE_SIZE : Nat := 1
def MAX_BODY_LENGTH : Nat := 64 * 1024

/-- `Packet` -/
structure Packet where
  type : UInt8
  body : Bytes
deriving DecidableEq

/-- `encode`.  The length field is 32 bits wide.  (From a body of `2 ^ 32 - 1`
bytes on, the source writes past the end of its vector.) -/
def encode (pkt : Packet) : Bytes :=
  let bodyLength := (pkt.body.length + TYPE_SIZE) % 2 ^ 32
  toBigEndian HEADER_SIZE bodyLength ++ pkt.type :: pkt.body

/-- `DecodeResult` -/
structure DecodeResult where
  consumed : Int
  packet : Packet
  ok : Bool
deriving DecidableEq

/-- `decode` -/
def decode (data : Bytes) : DecodeResult :=
  let result : DecodeResult := { consumed := 0, packet := { type := 0, body := [] }, ok := false }
  if data.length < HEADER_SIZE then
    { result with consumed := -1 }
  else
    let bodyLen := ofBigEndian (data.take HEADER_SIZE)
    if bodyLen < TYPE_SIZE ∨ bodyLen > MAX_BODY_LENGTH then
      result
    else
      let totalLen := HEADER_SIZE + bodyLen
      if data.length < totalLen then
        { result with consumed := -1 }
      else
        { consumed := totalLen
          packet :=
            { type := data.getD HEADER_SIZE 0
              body := (data.drop (HEADER_SIZE + TYPE_SIZE)).take (bodyLen - TYPE_SIZE) }
          ok := true }

/-- What `decode` tells its caller. -/
def verdict (r : DecodeResult) : Verdict Packet :=
  if r.ok then
    .done r.consumed.toNat r.packet
  else if r.consumed = 0 then
    .malformed
  else
    .wait

theorem verdict_eq_done
    {r : DecodeResult} {n : Nat} {pkt : Packet} (h : verdict r = .done n pkt) :
    r.ok = true ∧ r.consumed.toNat = n ∧ r.packet = pkt := by
  unfold verdict at h
  split at h
  · next hok =>
      injection h with hn hpkt
      exact ⟨hok, hn, hpkt⟩
  · split at h <;> cases h

theorem verdict_eq_wait
    {r : DecodeResult} (h : verdict r = .wait) :
    r.ok = false ∧ r.consumed ≠ 0 := by
  unfold verdict at h
  split at h
  · cases h
  · next hok =>
      split at h
      · cases h
      · next hne =>
          exact ⟨by simpa using hok, hne⟩

theorem verdict_eq_malformed
    {r : DecodeResult} (h : verdict r = .malformed) :
    r.ok = false ∧ r.consumed = 0 := by
  unfold verdict at h
  split at h
  · cases h
  · next hok =>
      split at h
      · next hzero =>
          exact ⟨by simpa using hok, hzero⟩
      · cases h

section DecodeCases

variable {data : Bytes}

/-- The length field is illegal. -/
def LengthIllegal (data : Bytes) : Prop :=
  HEADER_SIZE ≤ data.length ∧
    (ofBigEndian (data.take HEADER_SIZE) < TYPE_SIZE ∨
      ofBigEndian (data.take HEADER_SIZE) > MAX_BODY_LENGTH)

/-- The first packet is complete, with a legal length field. -/
def PacketComplete (data : Bytes) : Prop :=
  HEADER_SIZE ≤ data.length ∧
    TYPE_SIZE ≤ ofBigEndian (data.take HEADER_SIZE) ∧
      ofBigEndian (data.take HEADER_SIZE) ≤ MAX_BODY_LENGTH ∧
        HEADER_SIZE + ofBigEndian (data.take HEADER_SIZE) ≤ data.length

theorem verdict_decode_malformed_iff :
    verdict (decode data) = .malformed ↔ LengthIllegal data := by
  simp only [decode, LengthIllegal]
  split
  · simp [verdict]
    omega
  · split
    · next h =>
        simp only [verdict, Bool.false_eq_true, if_false, if_true, true_iff]
        exact ⟨by omega, h⟩
    · split <;> simp [verdict] <;> omega

theorem verdict_decode_done_iff
    {n : Nat} {pkt : Packet} :
    verdict (decode data) = .done n pkt ↔
      PacketComplete data ∧
        n = HEADER_SIZE + ofBigEndian (data.take HEADER_SIZE) ∧
          pkt.type = data.getD HEADER_SIZE 0 ∧
            pkt.body = (data.drop (HEADER_SIZE + TYPE_SIZE)).take
              (ofBigEndian (data.take HEADER_SIZE) - TYPE_SIZE) := by
  obtain ⟨type, body⟩ := pkt
  simp only [decode, PacketComplete]
  split
  · simp [verdict]
    omega
  · split
    · simp [verdict]
      omega
    · split
      · simp [verdict]
        omega
      · simp only [verdict, if_true, Verdict.done.injEq, Packet.mk.injEq, Int.toNat_natCast]
        constructor
        · rintro ⟨rfl, rfl, rfl⟩
          exact ⟨⟨by omega, by omega, by omega, by omega⟩, rfl, rfl, rfl⟩
        · rintro ⟨-, rfl, rfl, rfl⟩
          exact ⟨rfl, rfl, rfl⟩

end DecodeCases

/-- `decode` as an incremental decoder. -/
def packetDecoder : Decoder UInt8 Packet where
  decode data := verdict (decode data)
  done_bounds := by
    intro data n pkt h
    obtain ⟨⟨-, hpos, -, hlen⟩, rfl, -, -⟩ := verdict_decode_done_iff.mp h
    simp only [HEADER_SIZE] at *
    omega
  done_append := by
    intro data n pkt h more
    obtain ⟨⟨hhead, hpos, hmax, hlen⟩, rfl, htype, hbody⟩ := verdict_decode_done_iff.mp h
    have htake : (data ++ more).take HEADER_SIZE = data.take HEADER_SIZE :=
      List.take_append_of_le_length hhead
    rw [verdict_decode_done_iff]
    simp only [PacketComplete, htake, List.length_append]
    refine ⟨⟨by omega, hpos, hmax, by omega⟩, trivial, ?_, ?_⟩
    · rw [htype]
      simp only [HEADER_SIZE, TYPE_SIZE] at *
      rw [List.getD_eq_getElem?_getD, List.getD_eq_getElem?_getD,
        List.getElem?_append_left (by omega)]
    · rw [hbody]
      simp only [HEADER_SIZE, TYPE_SIZE] at *
      rw [List.drop_append_of_le_length (by omega), List.take_append_of_le_length]
      rw [List.length_drop]
      omega
  malformed_append := by
    intro data h more
    obtain ⟨hhead, hbad⟩ := verdict_decode_malformed_iff.mp h
    rw [verdict_decode_malformed_iff]
    refine ⟨?_, ?_⟩
    · rw [List.length_append]
      omega
    · rw [List.take_append_of_le_length hhead]
      exact hbad

@[simp] theorem length_encode
    (pkt : Packet) :
    (encode pkt).length = HEADER_SIZE + (pkt.body.length + TYPE_SIZE) := by
  simp [encode, TYPE_SIZE]

/-- The length field of an encoding, as long as 32 bits hold the length. -/
theorem lengthField_encode
    {pkt : Packet} (hbody : pkt.body.length + TYPE_SIZE < 2 ^ 32) (rest : Bytes) :
    ofBigEndian ((encode pkt ++ rest).take HEADER_SIZE) = pkt.body.length + TYPE_SIZE := by
  rw [encode, Nat.mod_eq_of_lt hbody, List.append_assoc,
    List.take_left' (length_toBigEndian _ _)]
  exact ofBigEndian_toBigEndian_of_lt hbody

/-- A packet within the length limit is decoded from its own encoding. -/
theorem decode_encode
    {pkt : Packet} (hbody : pkt.body.length + TYPE_SIZE ≤ MAX_BODY_LENGTH) (rest : Bytes) :
    packetDecoder.decode (encode pkt ++ rest) = .done (encode pkt).length pkt := by
  have hfield : ofBigEndian ((encode pkt ++ rest).take HEADER_SIZE) =
      pkt.body.length + TYPE_SIZE := by
    apply lengthField_encode
    simp only [MAX_BODY_LENGTH] at hbody
    omega
  have hdrop : (encode pkt ++ rest).drop HEADER_SIZE = pkt.type :: pkt.body ++ rest := by
    rw [encode, List.append_assoc, List.drop_left' (length_toBigEndian _ _)]
  have hlen := length_encode pkt
  refine verdict_decode_done_iff.mpr ⟨⟨?_, ?_, ?_, ?_⟩, ?_, ?_, ?_⟩
  · rw [List.length_append, hlen]
    omega
  · rw [hfield]
    omega
  · rw [hfield]
    exact hbody
  · rw [hfield, List.length_append, hlen]
    omega
  · rw [hfield, hlen]
  · rw [List.getD_eq_getElem?_getD, ← List.head?_drop, hdrop]
    rfl
  · rw [hfield, ← List.drop_drop, hdrop, Nat.add_sub_cancel]
    exact List.take_left.symm

end ChatRoom
