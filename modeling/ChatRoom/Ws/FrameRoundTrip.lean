import ChatRoom.Ws.FrameSafety

/-!
# Round trip of WebSocket frames

A client sends the frames that `encodeFrame` builds with the MASK bit set, a
masking key behind the length field, and the payload XORed with the key
(`asClientMasked`, as in tests/unit/test_ws_frame.cpp).  `tryDecode` undoes
this: it takes the frame off the front of whatever it is followed by, and asks
for more on every proper prefix.

The memory behind the input is arbitrary: a prefix that ends inside the key is
answered the same way whatever the decoder finds behind it.
-/

namespace ChatRoom
namespace Ws

open BigEndian

/-- The client form of a server frame. -/
def asClientMasked (srv mk : Bytes) : Bytes :=
  let plen := (srv.getD 1 0 &&& 0x7F).toNat
  let lenPos := if plen = 126 then 4 else if plen = 127 then 10 else 2
  srv.getD 0 0 :: (srv.getD 1 0 ||| 0x80) :: ((srv.take lenPos).drop 2 ++ mk ++
    applyMask mk (srv.drop lenPos))

/-- The memory starts with the given bytes. -/
def StartsWith (data : Nat → UInt8) (bs : Bytes) : Prop :=
  ∀ i < bs.length, bs[i]? = some (data i)

section FrameFields

/-- Width of the extended length that `encodeFrame` chooses. -/
def extensionWidth (len : Nat) : Nat :=
  if len < 126 then 0 else if len < 65536 then 2 else 8

/-- The 7-bit length that `encodeFrame` writes. -/
def shortField (len : Nat) : Nat :=
  if len < 126 then len else if len < 65536 then 126 else 127

theorem shortField_lt
    (len : Nat) :
    shortField len < 128 := by
  unfold shortField
  split
  · omega
  · split <;> omega

/-- The three length encodings in one form. -/
theorem encodeFrame_eq
    (opcode : UInt8) (payload : Bytes) :
    encodeFrame opcode payload =
      (0x80 ||| (opcode &&& 0x0F)) :: UInt8.ofNat (shortField payload.length) ::
        (toBigEndian (extensionWidth payload.length) payload.length ++ payload) := by
  have hbyte : ∀ n : Nat, UInt8.ofNat (n &&& 0xFF) = UInt8.ofNat n := by
    intro n
    apply UInt8.toNat_inj.mp
    have hmask : n &&& 0xFF = n % 2 ^ 8 := Nat.and_two_pow_sub_one_eq_mod n 8
    rw [hmask]
    simp
  unfold encodeFrame shortField extensionWidth
  by_cases h126 : payload.length < 126
  · simp [h126, toBigEndian]
  · by_cases h65536 : payload.length < 65536
    · simp [h126, h65536, toBigEndian, hbyte, Nat.shiftRight_eq_div_pow]
    · simp [h126, h65536, toBigEndian, hbyte, Nat.shiftRight_eq_div_pow]

/-- The three encodings of a payload length. -/
inductive LengthForm where
  | short
  | two
  | eight
deriving DecidableEq

namespace LengthForm

/-- Width of the extended length. -/
def width : LengthForm → Nat
  | short => 0
  | two => 2
  | eight => 8

/-- The 7-bit length. -/
def field : LengthForm → Nat → Nat
  | short, len => len
  | two, _ => 126
  | eight, _ => 127

/-- The encoding has room for the length. -/
def Fits : LengthForm → Nat → Prop
  | short, len => len < 126
  | two, len => len < 2 ^ 16
  | eight, len => len < 2 ^ 64

instance (form : LengthForm) (len : Nat) : Decidable (form.Fits len) := by
  cases form <;> exact Nat.decLt _ _

/-- The encoding that `encodeFrame` chooses. -/
def shortest (len : Nat) : LengthForm :=
  if len < 126 then short else if len < 65536 then two else eight

theorem shortest_fits
    {len : Nat} (hlen : len < 2 ^ 64) :
    (shortest len).Fits len := by
  unfold shortest
  split
  · assumption
  · split
    · assumption
    · exact hlen

theorem width_shortest
    (len : Nat) :
    (shortest len).width = extensionWidth len := by
  unfold shortest extensionWidth
  split
  · rfl
  · split <;> rfl

theorem field_shortest
    (len : Nat) :
    (shortest len).field len = shortField len := by
  unfold shortest shortField
  split
  · rfl
  · split <;> rfl

theorem field_lt
    {form : LengthForm} {len : Nat} (h : form.Fits len) :
    form.field len < 128 := by
  cases form with
  | short => exact Nat.lt_of_lt_of_le h (by decide)
  | two => exact (by decide : 126 < 128)
  | eight => exact (by decide : 127 < 128)

end LengthForm

/-- A masked frame with FIN set and the reserved bits clear, in the given encoding of
its length. -/
def maskedWire (opcode : UInt8) (form : LengthForm) (mk payload : Bytes) : Bytes :=
  (0x80 ||| (opcode &&& 0x0F)) :: (UInt8.ofNat (form.field payload.length) ||| 0x80) ::
    (toBigEndian form.width payload.length ++ mk ++ applyMask mk payload)

/-- The client form, field by field. -/
theorem asClientMasked_encodeFrame
    (opcode : UInt8) (payload mk : Bytes) :
    asClientMasked (encodeFrame opcode payload) mk =
      maskedWire opcode (.shortest payload.length) mk payload := by
  rw [maskedWire, LengthForm.width_shortest, LengthForm.field_shortest]
  have hshort : ∀ n < 128, (UInt8.ofNat n &&& 0x7F).toNat = n := by
    decide
  have hwidth :
      (if shortField payload.length = 126 then 4 else
        if shortField payload.length = 127 then 10 else 2) =
      extensionWidth payload.length + 2 := by
    unfold shortField extensionWidth
    by_cases h126 : payload.length < 126
    · simp only [if_pos h126]
      rw [if_neg (by omega), if_neg (by omega)]
    · by_cases h65536 : payload.length < 65536
      · simp [h126, h65536]
      · simp [h126, h65536]
  rw [encodeFrame_eq, asClientMasked]
  simp only [List.getD_cons_succ, List.getD_cons_zero, hshort _ (shortField_lt _), hwidth]
  simp only [List.take_succ_cons, List.drop_succ_cons, List.drop_zero]
  rw [List.take_left' (length_toBigEndian _ _), List.drop_left' (length_toBigEndian _ _)]

end FrameFields

section Memory

variable {data : Nat → UInt8} {bs : Bytes}

/-- A memory that holds the given bytes and zeros behind them. -/
theorem startsWith_getD
    (bs : Bytes) :
    StartsWith (fun i => bs.getD i 0) bs := by
  intro i hi
  simp [hi]

theorem StartsWith.of_front
    {pre : Bytes} (h : StartsWith data bs) (hpre : pre <+: bs) :
    StartsWith data pre := by
  intro i hi
  obtain ⟨suffix, rfl⟩ := hpre
  have := h i (by rw [List.length_append]; omega)
  rwa [List.getElem?_append_left hi] at this

/-- Reading consecutive bytes gives that part of the known front. -/
theorem StartsWith.map_range'
    (h : StartsWith data bs) {start n : Nat} (hn : start + n ≤ bs.length) :
    (List.range' start n).map data = (bs.drop start).take n := by
  apply List.ext_getElem?
  intro i
  by_cases hi : i < n
  · rw [List.getElem?_take_of_lt hi, List.getElem?_drop, h (start + i) (by omega)]
    simp [hi]
  · rw [List.getElem?_eq_none (by simpa using hi), List.getElem?_eq_none]
    rw [List.length_take, List.length_drop]
    omega

end Memory

section MaskedFrame

variable {opcode : UInt8} {form : LengthForm} {payload mk : Bytes} {data : Nat → UInt8} {n : Nat}

/-- Applying the key twice restores the payload. -/
theorem applyMask_applyMask
    (mk payload : Bytes) :
    applyMask mk (applyMask mk payload) = payload := by
  apply List.ext_getElem
  · simp
  · intro i hi hi'
    simp only [applyMask, List.getElem_mapIdx, UInt8.xor_assoc, UInt8.xor_self, UInt8.xor_zero]

theorem length_maskedWire
    (opcode : UInt8) (form : LengthForm) (payload : Bytes) (hmk : mk.length = 4) :
    (maskedWire opcode form mk payload).length = 2 + form.width + 4 + payload.length := by
  simp only [maskedWire, List.length_cons, List.length_append, length_toBigEndian,
    length_applyMask, hmk]
  omega

/-- Behind the length field come the key and the masked payload. -/
theorem drop_length_field :
    (maskedWire opcode form mk payload).drop (2 + form.width) = mk ++ applyMask mk payload := by
  rw [maskedWire, Nat.add_comm, List.drop_succ_cons, List.drop_succ_cons, List.append_assoc]
  exact List.drop_left' (length_toBigEndian _ _)

variable (hdata : StartsWith data ((maskedWire opcode form mk payload).take n))
include hdata

theorem first_byte
    (hn : 1 ≤ n) :
    data 0 = 0x80 ||| (opcode &&& 0x0F) := by
  rw [maskedWire] at hdata
  have h := hdata 0 (by simp; omega)
  rw [List.getElem?_take_of_lt (by omega)] at h
  exact (Option.some.inj h).symm

theorem second_byte
    (hn : 2 ≤ n) :
    data 1 = UInt8.ofNat (form.field payload.length) ||| 0x80 := by
  rw [maskedWire] at hdata
  have h := hdata 1 (by simp; omega)
  rw [List.getElem?_take_of_lt (by omega)] at h
  exact (Option.some.inj h).symm

theorem not_reservedBits
    (hn : 1 ≤ n) :
    ¬ ReservedBits data := by
  have hbits : ∀ k < 256, ((0x80 ||| (UInt8.ofNat k &&& 0x0F)) &&& 0x70) ||| 0x8F = 0x8F := by
    decide +kernel
  have h := hbits opcode.toNat opcode.toNat_lt
  rw [UInt8.ofNat_toNat] at h
  rw [ReservedBits, first_byte hdata hn, not_not]
  exact h

variable (hfits : form.Fits payload.length)
include hfits

theorem masked
    (hn : 2 ≤ n) :
    Masked data := by
  have hbits : ∀ k < 128, ((UInt8.ofNat k ||| 0x80) >>> 7) &&& 1 = 1 := by
    decide
  rw [Masked, second_byte hdata hn]
  exact hbits _ (LengthForm.field_lt hfits)

theorem shortLength_eq
    (hn : 2 ≤ n) :
    shortLength data = form.field payload.length := by
  have hbits : ∀ k < 128, ((UInt8.ofNat k ||| 0x80) &&& 0x7F).toNat = k := by
    decide
  rw [shortLength, second_byte hdata hn]
  exact hbits _ (LengthForm.field_lt hfits)

theorem extensionLength_eq
    (hn : 2 ≤ n) :
    extensionLength data = form.width := by
  have hshort := shortLength_eq hdata hfits hn
  rw [extensionLength, hshort]
  cases form with
  | short =>
      have hne : ∀ k ≥ 126, LengthForm.short.field payload.length ≠ k :=
        fun k hk heq => absurd (Nat.lt_of_lt_of_le hfits hk) (heq ▸ Nat.lt_irrefl _)
      rw [if_neg (hne 126 (by decide)), if_neg (hne 127 (by decide))]
      rfl
  | two | eight =>
      rfl

omit hfits in
/-- The bytes of the extended length. -/
theorem extension_bytes
    (hn : 2 + form.width ≤ n) :
    (List.range' 2 form.width).map data = toBigEndian form.width payload.length := by
  rw [maskedWire] at hdata
  rw [hdata.map_range', List.drop_take, List.take_take, Nat.min_eq_left (by omega)]
  · simp only [List.drop_succ_cons, List.drop_zero, List.append_assoc]
    exact List.take_left' (length_toBigEndian _ _)
  · simp only [List.length_take, List.length_cons, List.length_append, length_toBigEndian]
    omega

theorem declaredLength_eq
    (hn : 2 + form.width ≤ n) :
    declaredLength data = payload.length := by
  rw [declaredLength, extensionLength_eq hdata hfits (by omega),
    shortLength_eq hdata hfits (by omega), extension_bytes hdata hn]
  cases form with
  | short =>
      rfl
  | two | eight =>
      exact ofBigEndian_toBigEndian_of_lt hfits

theorem decodedFrame_eq
    (hmk : mk.length = 4) (hop : opcode < 16)
    (hn : 2 + form.width + 4 + payload.length ≤ n) :
    decodedFrame data = { fin := true, opcode := opcode, payload := payload } := by
  have hbits : ∀ k < 16,
      (0x80 ||| (UInt8.ofNat k &&& 0x0F)) &&& 0x0F = UInt8.ofNat k ∧
        ((0x80 ||| (UInt8.ofNat k &&& 0x0F)) >>> 7) &&& 1 ≠ 0 := by
    decide
  have hop' := hbits opcode.toNat hop
  rw [UInt8.ofNat_toNat] at hop'
  have hext := extensionLength_eq hdata hfits (by omega)
  have hfirst := first_byte hdata (by omega)
  have hdeclared := declaredLength_eq hdata hfits (by omega)
  have hlength := length_maskedWire opcode form payload hmk
  have hkey : maskingKey data = mk := by
    rw [maskingKey, hext, hdata.map_range' (by rw [List.length_take]; omega), List.drop_take,
      List.take_take, Nat.min_eq_left (by omega), drop_length_field]
    exact List.take_left' hmk
  have hwire : wirePayload data = applyMask mk payload := by
    rw [wirePayload, headerLength, hext, hdeclared,
      hdata.map_range' (by rw [List.length_take]; omega), List.drop_take, List.take_take,
      Nat.min_eq_left (by omega), ← List.drop_drop, drop_length_field, List.drop_left' hmk]
    exact List.take_of_length_le (by simp)
  simp only [decodedFrame, hkey, hwire, applyMask_applyMask, hfirst, hop'.1, Frame.mk.injEq,
    and_true]
  exact decide_eq_true hop'.2

end MaskedFrame

section Halves

variable {opcode : UInt8} {form : LengthForm} {payload mk : Bytes} {data : Nat → UInt8}
variable (hmk : mk.length = 4) (hfits : form.Fits payload.length)
variable (hsize : (maskedWire opcode form mk payload).length ≤ 2 ^ 31 - 1)
include hmk hfits hsize

omit hsize in
/-- The layout of a memory that starts with a complete masked frame. -/
theorem maskedWire_layout
    (hop : opcode < 16) (hdata : StartsWith data (maskedWire opcode form mk payload)) :
    ¬ ReservedBits data ∧ Masked data ∧
      headerLength data + declaredLength data = (maskedWire opcode form mk payload).length ∧
        decodedFrame data = { fin := true, opcode := opcode, payload := payload } := by
  have hlength := length_maskedWire opcode form payload hmk
  have hfront : StartsWith data ((maskedWire opcode form mk payload).take
      (maskedWire opcode form mk payload).length) := by
    rwa [List.take_length]
  refine ⟨not_reservedBits hfront (by omega), masked hfront hfits (by omega), ?_,
    decodedFrame_eq hfront hfits hmk hop (by omega)⟩
  rw [headerLength, extensionLength_eq hfront hfits (by omega),
    declaredLength_eq hfront hfits (by omega), hlength]

/-- A complete masked frame is decoded, whatever follows it. -/
theorem tryDecode_complete
    (hop : opcode < 16) {len : Nat}
    (hdata : StartsWith data (maskedWire opcode form mk payload))
    (hlen : (maskedWire opcode form mk payload).length ≤ len) :
    (tryDecode data len).result =
      .ok
        { consumed := (maskedWire opcode form mk payload).length
          frame := { fin := true, opcode := opcode, payload := payload } } := by
  obtain ⟨hrsv, hmasked, htotal, hframe⟩ := maskedWire_layout hmk hfits hop hdata
  have hheader : headerLength data = 2 + extensionLength data + 4 := rfl
  have hmod : (headerLength data + declaredLength data) % 2 ^ 64 =
      headerLength data + declaredLength data := Nat.mod_eq_of_lt (by omega)
  have hmax : ¬ declaredLength data > VECTOR_MAX_SIZE := by
    simp only [VECTOR_MAX_SIZE]
    omega
  rw [tryDecode_eq, if_neg (by omega), if_neg hrsv, if_neg (by omega),
    if_neg (not_not.mpr hmasked), hmod, if_neg (by omega), if_neg hmax]
  simp only [htotal, hframe]
  rw [toInt_of_lt (by omega)]

/-- Every cut of a masked frame is answered by "more data". -/
theorem tryDecode_incomplete
    {n : Nat} (hn : n < (maskedWire opcode form mk payload).length)
    (hdata : StartsWith data ((maskedWire opcode form mk payload).take n)) :
    (tryDecode data n).result = .ok needMore := by
  have hlength := length_maskedWire opcode form payload hmk
  by_cases htwo : n < 2
  · rw [tryDecode_eq, if_pos htwo]
  have hext := extensionLength_eq hdata hfits (by omega)
  by_cases hfield : n < 2 + extensionLength data
  · rw [tryDecode_eq, if_neg htwo, if_neg (not_reservedBits hdata (by omega)), if_pos hfield]
  have hdeclared := declaredLength_eq hdata hfits (by omega)
  have hmod : (headerLength data + declaredLength data) % 2 ^ 64 =
      headerLength data + declaredLength data := by
    apply Nat.mod_eq_of_lt
    simp only [headerLength]
    omega
  have hshort : n < headerLength data + declaredLength data := by
    simp only [headerLength]
    omega
  -- inside the key the source has already read behind the input here
  rw [tryDecode_eq, if_neg htwo, if_neg (not_reservedBits hdata (by omega)), if_neg hfield,
    if_neg (not_not.mpr (masked hdata hfits (by omega))), hmod, if_pos hshort]

end Halves

/-- `tryDecode` takes a masked frame off the front of its input, and waits on
every proper prefix of it. -/
theorem tryDecode_asClientMasked
    (opcode : UInt8) (payload mk rest : Bytes)
    (hop : opcode < 16) (hmk : mk.length = 4)
    (hsize : (asClientMasked (encodeFrame opcode payload) mk).length ≤ 2 ^ 31 - 1) :
    (∀ data, StartsWith data (asClientMasked (encodeFrame opcode payload) mk ++ rest) →
      (tryDecode data (asClientMasked (encodeFrame opcode payload) mk ++ rest).length).result =
        .ok
          { consumed := (asClientMasked (encodeFrame opcode payload) mk).length
            frame := { fin := true, opcode := opcode, payload := payload } }) ∧
    (∀ front, front <+: asClientMasked (encodeFrame opcode payload) mk →
      front ≠ asClientMasked (encodeFrame opcode payload) mk →
        ∀ data, StartsWith data front →
          (tryDecode data front.length).result = .ok needMore) := by
  rw [asClientMasked_encodeFrame] at hsize ⊢
  have hfits : (LengthForm.shortest payload.length).Fits payload.length := by
    apply LengthForm.shortest_fits
    have hlength := length_maskedWire opcode (.shortest payload.length) payload hmk
    omega
  constructor
  · intro data hdata
    refine tryDecode_complete hmk hfits hsize hop (hdata.of_front (List.prefix_append _ _)) ?_
    rw [List.length_append]
    omega
  · intro front hfront hne data hdata
    have htake := List.prefix_iff_eq_take.mp hfront
    have hle := hfront.length_le
    have hlt : front.length <
        (maskedWire opcode (.shortest payload.length) mk payload).length :=
      Nat.lt_of_le_of_ne hle fun h => hne (hfront.eq_of_length h)
    rw [htake] at hdata
    exact tryDecode_incomplete hmk hfits hsize hlt hdata

/-- The masked text frame of the unit test. -/
theorem tryDecode_asClientMasked_Hi :
    let m := asClientMasked (encodeFrame Opcode.TEXT.code (bytes "Hi")) [0xAA, 0xBB, 0xCC, 0xDD]
    m.length ≤ 2 ^ 31 - 1 ∧
      (tryDecode (fun i => (m ++ [0x81]).getD i 0) (m ++ [0x81]).length).result =
        .ok
          { consumed := m.length
            frame := { fin := true, opcode := Opcode.TEXT.code, payload := bytes "Hi" } } := by
  refine ⟨by decide, ?_⟩
  exact (tryDecode_asClientMasked Opcode.TEXT.code (bytes "Hi") [0xAA, 0xBB, 0xCC, 0xDD] [0x81]
    (by decide) rfl (by decide)).1 _ (startsWith_getD _)

end Ws
end ChatRoom
