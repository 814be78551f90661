import ChatRoom.Protocol.Packet

/-!
# Round trip of packets

`decode` takes the encoding of a packet off the front of whatever it is
followed by, asks for more on every proper prefix of it, and rejects it when
the body is over the limit.  In the other direction, what `decode` accepts is
the encoding of the packet it returns.
-/

namespace ChatRoom

open BigEndian Incremental

section Results

variable {data : Bytes}

/-- A packet that is complete, as the structure `decode` returns. -/
theorem decode_eq_of_done
    {n : Nat} {pkt : Packet} (h : verdict (decode data) = .done n pkt) :
    decode data = { consumed := n, packet := pkt, ok := true } := by
  obtain ⟨hok, hn, hpkt⟩ := verdict_eq_done h
  have hpos := (packetDecoder.done_bounds h).1
  have hconsumed : (decode data).consumed = n := by
    omega
  cases hd : decode data with
  | mk consumed packet ok =>
      rw [hd] at hok hpkt hconsumed
      dsimp only at hok hpkt hconsumed
      rw [hok, hpkt, hconsumed]

/-- A front that is too short for its own length field. -/
theorem decode_consumed_of_short
    (hlegal : ¬ LengthIllegal data)
    (hshort : data.length < HEADER_SIZE ∨
      data.length < HEADER_SIZE + ofBigEndian (data.take HEADER_SIZE)) :
    (decode data).consumed = -1 ∧ (decode data).ok = false := by
  rw [decode]
  by_cases hhead : data.length < HEADER_SIZE
  · rw [if_pos hhead]
    exact ⟨rfl, rfl⟩
  · have hlegal' : ¬ (ofBigEndian (data.take HEADER_SIZE) < TYPE_SIZE ∨
        ofBigEndian (data.take HEADER_SIZE) > MAX_BODY_LENGTH) :=
      fun hbad => hlegal ⟨by omega, hbad⟩
    rw [if_neg hhead]
    dsimp only
    rw [if_neg hlegal', if_pos (by omega)]
    exact ⟨rfl, rfl⟩

end Results

section Encoding

variable {pkt : Packet}

/-- The length field does not change while bytes are cut off behind it. -/
theorem lengthField_of_prefix
    (hbody : pkt.body.length + TYPE_SIZE < 2 ^ 32) {front : Bytes}
    (hfront : front <+: encode pkt) (hhead : HEADER_SIZE ≤ front.length) :
    ofBigEndian (front.take HEADER_SIZE) = pkt.body.length + TYPE_SIZE := by
  obtain ⟨back, hback⟩ := hfront
  have hfield := lengthField_encode hbody []
  rwa [List.append_nil, ← hback, List.take_append_of_le_length hhead] at hfield

/-- Every proper prefix of an encoding within the limit is answered by "more". -/
theorem decode_of_prefix
    (hbody : pkt.body.length + TYPE_SIZE ≤ MAX_BODY_LENGTH) {front : Bytes}
    (hfront : front <+: encode pkt) (hne : front ≠ encode pkt) :
    (decode front).consumed = -1 ∧ (decode front).ok = false := by
  have hlt : front.length < (encode pkt).length :=
    Nat.lt_of_le_of_ne hfront.length_le fun h => hne (hfront.eq_of_length h)
  rw [length_encode] at hlt
  have hfield : HEADER_SIZE ≤ front.length →
      ofBigEndian (front.take HEADER_SIZE) = pkt.body.length + TYPE_SIZE := by
    apply lengthField_of_prefix _ hfront
    simp only [MAX_BODY_LENGTH] at hbody
    omega
  apply decode_consumed_of_short
  · rintro ⟨hhead, hbad⟩
    rw [hfield hhead] at hbad
    simp only [TYPE_SIZE] at *
    omega
  · by_cases hhead : HEADER_SIZE ≤ front.length
    · rw [hfield hhead]
      exact .inr hlt
    · exact .inl (by omega)

/-- An encoding over the limit is rejected whatever follows it. -/
theorem decode_encode_over_limit
    (hbody : pkt.body.length + TYPE_SIZE < 2 ^ 32)
    (hover : MAX_BODY_LENGTH < pkt.body.length + TYPE_SIZE) (rest : Bytes) :
    (decode (encode pkt ++ rest)).consumed = 0 ∧ (decode (encode pkt ++ rest)).ok = false := by
  have hillegal : LengthIllegal (encode pkt ++ rest) := by
    refine ⟨?_, .inr ?_⟩
    · rw [List.length_append, length_encode]
      omega
    · rw [lengthField_encode hbody]
      exact hover
  obtain ⟨hok, hconsumed⟩ := verdict_eq_malformed (verdict_decode_malformed_iff.mpr hillegal)
  exact ⟨hconsumed, hok⟩

/-- What is accepted is the encoding of the packet that is returned. -/
theorem encode_of_decode
    {data : Bytes} {n : Nat} (h : verdict (decode data) = .done n pkt) :
    encode pkt = data.take n := by
  obtain ⟨⟨hhead, hpos, hmax, hlen⟩, rfl, htype, hbody⟩ := verdict_decode_done_iff.mp h
  have hwidth : (data.take HEADER_SIZE).length = HEADER_SIZE := by
    rw [List.length_take]
    omega
  have hbodyLength : pkt.body.length + TYPE_SIZE = ofBigEndian (data.take HEADER_SIZE) := by
    rw [hbody, List.length_take, List.length_drop]
    omega
  have hmod : ofBigEndian (data.take HEADER_SIZE) % 2 ^ 32 =
      ofBigEndian (data.take HEADER_SIZE) := by
    apply Nat.mod_eq_of_lt
    simp only [MAX_BODY_LENGTH] at hmax
    omega
  have hheader : toBigEndian HEADER_SIZE (ofBigEndian (data.take HEADER_SIZE)) =
      data.take HEADER_SIZE := by
    have hback := toBigEndian_ofBigEndian (data.take HEADER_SIZE)
    rwa [hwidth] at hback
  have htail : pkt.type :: pkt.body =
      (data.drop HEADER_SIZE).take (ofBigEndian (data.take HEADER_SIZE)) := by
    have hsome : HEADER_SIZE < data.length := by
      simp only [TYPE_SIZE] at hpos
      omega
    have hfirst : data.getD HEADER_SIZE 0 = data[HEADER_SIZE] := by
      simp [List.getD_eq_getElem?_getD, hsome]
    rw [htype, hbody, hfirst, List.drop_eq_getElem_cons hsome, ← hbodyLength]
    rfl
  rw [encode, hbodyLength, hmod, hheader, htail, List.take_add]

end Encoding

/-- The packet codec, in both directions. -/
theorem packet_codec :
    (∀ (p : Packet) (rest : Bytes), p.body.length < 2 ^ 32 - 1 →
      (p.body.length + 1 ≤ MAX_BODY_LENGTH →
        decode (encode p ++ rest) =
            { consumed := 5 + p.body.length, packet := p, ok := true } ∧
          ∀ front, front <+: encode p → front ≠ encode p →
            (decode front).consumed = -1 ∧ (decode front).ok = false) ∧
      (MAX_BODY_LENGTH < p.body.length + 1 →
        (decode (encode p ++ rest)).consumed = 0 ∧
          (decode (encode p ++ rest)).ok = false)) ∧
    ∀ (d : Bytes) (n : Int) (q : Packet),
      decode d = { consumed := n, packet := q, ok := true } →
        encode q = d.take n.toNat := by
  constructor
  · intro p rest hbody
    constructor
    · intro hlimit
      constructor
      · rw [decode_eq_of_done (decode_encode hlimit rest), length_encode]
        congr 1
        simp only [HEADER_SIZE, TYPE_SIZE]
        omega
      · intro front hfront hne
        exact decode_of_prefix hlimit hfront hne
    · intro hover
      apply decode_encode_over_limit _ hover
      simp only [TYPE_SIZE]
      omega
  · intro d n q hdecode
    apply encode_of_decode
    rw [hdecode]
    rfl

end ChatRoom
