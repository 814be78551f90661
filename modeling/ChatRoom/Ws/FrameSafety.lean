import ChatRoom.Ws.Frame

/-!
# When the frame decoder is safe

`ws_frame.h` promises that `tryDecode` looks at the `len` bytes it was given,
reports a positive count only for a frame that lies inside them, and asks for
more data as long as something is missing.  `DecodesSafely` states this promise
for one input.

`tryDecode_safe_iff` says for which inputs it is kept.  It is broken in three
ways: the check for the four bytes of the masking key is missing, the sum of
header and payload length wraps at `2 ^ 64`, and the count is converted to a
32-bit `int`.
-/

namespace ChatRoom
namespace Ws

variable (data : Nat → UInt8) (len : Nat)

/-- The payload the frame stands for, byte by byte. -/
def unmaskedPayload : Bytes :=
  (List.range (declaredLength data)).map fun i =>
    data (headerLength data + i) ^^^ data (headerLength data - 4 + i % 4)

/-- The promise of `tryDecode` for the first `len` bytes of `data`: no address
outside them is read, no exception is thrown, and a frame that is reported lies
inside them, with the length its header declares and its payload unmasked. -/
def DecodesSafely : Prop :=
  (∀ i ∈ (tryDecode data len).reads, i < len) ∧
    ∃ r : DecodeResult, (tryDecode data len).result = .ok r ∧
      r.frame.payload.length ≤ len ∧
        (0 < r.consumed →
          r.consumed ≤ len ∧
            r.consumed = headerLength data + declaredLength data ∧
              r.frame.payload = unmaskedPayload data)

/-- The input ends inside the masking key. -/
def KeyCut : Prop :=
  2 + extensionLength data ≤ len ∧ len < headerLength data

/-- The declared length is beyond any vector, and `pos + plen` wraps around to a
value that passes the completeness check. -/
def SumWraps : Prop :=
  headerLength data ≤ len ∧
    declaredLength data > VECTOR_MAX_SIZE ∧
      (headerLength data + declaredLength data) % 2 ^ 64 ≤ len

/-- A complete frame whose length, as an `int`, is another positive number. -/
def CountTruncated : Prop :=
  headerLength data + declaredLength data ≤ len ∧
    declaredLength data ≤ VECTOR_MAX_SIZE ∧
      2 ^ 31 ≤ headerLength data + declaredLength data ∧
        0 < toInt (headerLength data + declaredLength data)

/-- The inputs on which `tryDecode` breaks its promise. -/
def Misdecoded : Prop :=
  2 ≤ len ∧ ¬ ReservedBits data ∧ Masked data ∧
    (KeyCut data len ∨ SumWraps data len ∨ CountTruncated data len)

variable {data len}

@[simp] theorem length_applyMask
    (mkey payload : Bytes) :
    (applyMask mkey payload).length = payload.length := by
  simp [applyMask]

@[simp] theorem length_wirePayload :
    (wirePayload data).length = declaredLength data := by
  simp [wirePayload]

/-- The cyclic XOR of the decoder is the payload the layout describes. -/
theorem payload_decodedFrame :
    (decodedFrame data).payload = unmaskedPayload data := by
  apply List.ext_getElem
  · simp [decodedFrame, unmaskedPayload]
  · intro i hi hi'
    have hkey : (maskingKey data).getD (i % 4) 0 = data (headerLength data - 4 + i % 4) := by
      have hmod : i % 4 < 4 := Nat.mod_lt i (by decide)
      simp [maskingKey, headerLength, hmod]
    simp only [decodedFrame, applyMask, List.getElem_mapIdx, hkey]
    simp [wirePayload, unmaskedPayload]

/-- Small numbers survive the conversion to `int`. -/
theorem toInt_of_lt
    {n : Nat} (h : n < 2 ^ 31) :
    toInt n = n := by
  unfold toInt
  rw [Int.bmod_eq_of_le] <;> omega

theorem headerLength_le
    (data : Nat → UInt8) :
    headerLength data ≤ 14 := by
  unfold headerLength extensionLength
  split
  · omega
  · split <;> omega

/-- Without a frame to report, staying inside the input is enough. -/
theorem decodesSafely_of_no_frame
    {r : DecodeResult} {n : Nat}
    (heq : tryDecode data len = { reads := List.range' 0 n, result := .ok r })
    (hempty : r.frame = Frame.empty) (hcount : r.consumed ≤ 0) (hn : n ≤ len) :
    DecodesSafely data len := by
  refine ⟨?_, r, ?_, ?_, ?_⟩
  · intro i hi
    rw [heq, List.mem_range'_1] at hi
    omega
  · rw [heq]
  · simp [hempty, Frame.empty]
  · intro h
    omega

/-- Past the check of the extended length, all of the header is read. -/
theorem header_reads
    (hlen : ¬ len < 2) (hrsv : ¬ ReservedBits data) (hext : ¬ len < 2 + extensionLength data)
    (hmask : Masked data) {i : Nat} (hi : i < headerLength data) :
    i ∈ (tryDecode data len).reads := by
  rw [tryDecode_eq, if_neg hlen, if_neg hrsv, if_neg hext, if_neg (not_not.mpr hmask)]
  split
  · exact List.mem_range'_1.mpr (by omega)
  · split
    · exact List.mem_range'_1.mpr (by omega)
    · exact List.mem_range'_1.mpr (by omega)

/-- A reported frame keeps the promise unless its length was truncated. -/
theorem decodesSafely_of_frame
    (heq : tryDecode data len =
      { reads := List.range' 0 (headerLength data + declaredLength data)
        result := .ok
          { consumed := toInt (headerLength data + declaredLength data)
            frame := decodedFrame data } })
    (hcomplete : headerLength data + declaredLength data ≤ len)
    (hmax : declaredLength data ≤ VECTOR_MAX_SIZE) :
    DecodesSafely data len ↔ ¬ CountTruncated data len := by
  constructor
  · rintro ⟨-, r, hr, -, hcount⟩ ⟨-, -, hbig, hpos⟩
    rw [heq, Except.ok.injEq] at hr
    subst hr
    dsimp only at hcount
    have hsame := (hcount hpos).2.1
    have hsmall : toInt (headerLength data + declaredLength data) < 2 ^ 31 := by
      unfold toInt
      rw [Int.bmod_def]
      omega
    omega
  · intro hfit
    refine ⟨?_, _, congrArg Access.result heq, ?_, ?_⟩
    · intro i hi
      rw [heq, List.mem_range'_1] at hi
      omega
    · rw [payload_decodedFrame]
      simp only [unmaskedPayload, List.length_map, List.length_range]
      omega
    · intro hpos
      dsimp only at hpos
      have hlt : headerLength data + declaredLength data < 2 ^ 31 :=
        Nat.lt_of_not_le fun hbig => hfit ⟨hcomplete, hmax, hbig, hpos⟩
      have hint := toInt_of_lt hlt
      refine ⟨?_, ?_, payload_decodedFrame⟩
      · simp only [hint]
        omega
      · simp only [hint]
        exact Nat.cast_add _ _

/-- `tryDecode` keeps its promise on an input if and only if the input is not one
of those on which it reads past the end, wraps, or truncates the count. -/
theorem tryDecode_safe_iff
    (data : Nat → UInt8) (len : Nat) :
    DecodesSafely data len ↔ ¬ Misdecoded data len := by
  have heq := tryDecode_eq data len
  have hheader := headerLength_le data
  by_cases hlen : len < 2
  · rw [if_pos hlen] at heq
    have hsafe := decodesSafely_of_no_frame (n := 0) heq rfl (by decide) (Nat.zero_le _)
    exact iff_of_true hsafe fun h => absurd h.1 (by omega)
  rw [if_neg hlen] at heq
  by_cases hrsv : ReservedBits data
  · rw [if_pos hrsv] at heq
    have hsafe := decodesSafely_of_no_frame (n := 1) heq rfl (by decide) (by omega)
    exact iff_of_true hsafe fun h => h.2.1 hrsv
  rw [if_neg hrsv] at heq
  by_cases hext : len < 2 + extensionLength data
  · rw [if_pos hext] at heq
    have hsafe := decodesSafely_of_no_frame (n := 2) heq rfl (by decide) (by omega)
    refine iff_of_true hsafe fun h => ?_
    have hle : 2 + extensionLength data ≤ headerLength data := Nat.le_add_right _ 4
    rcases h.2.2.2 with h | h | h
    · exact absurd h.1 (by omega)
    · exact absurd h.1 (by omega)
    · exact absurd h.1 (by omega)
  rw [if_neg hext] at heq
  by_cases hmask : Masked data
  · rw [if_neg (not_not.mpr hmask)] at heq
    by_cases hkey : len < headerLength data
    · -- the loop over the key runs into the bytes behind the input
      have hread := header_reads hlen hrsv hext hmask hkey
      refine iff_of_false (fun h => ?_) fun h => ?_
      · exact absurd (h.1 len hread) (Nat.lt_irrefl len)
      · exact h ⟨by omega, hrsv, hmask, Or.inl ⟨by omega, hkey⟩⟩
    · have hnokey : ¬ KeyCut data len := fun h => hkey h.2
      by_cases hsum : len < (headerLength data + declaredLength data) % 2 ^ 64
      · rw [if_pos hsum] at heq
        have hsafe :=
          decodesSafely_of_no_frame (n := headerLength data) heq rfl (by decide) (by omega)
        refine iff_of_true hsafe fun h => ?_
        rcases h.2.2.2 with h | h | h
        · exact hnokey h
        · exact absurd h.2.2 (by omega)
        · have hmod := Nat.mod_le (headerLength data + declaredLength data) (2 ^ 64)
          exact absurd h.1 (by omega)
      · rw [if_neg hsum] at heq
        by_cases hmax : declaredLength data > VECTOR_MAX_SIZE
        · rw [if_pos hmax] at heq
          refine iff_of_false (fun h => ?_) fun h => ?_
          · obtain ⟨-, r, hr, -⟩ := h
            rw [heq] at hr
            exact absurd hr (by simp)
          · exact h ⟨by omega, hrsv, hmask, Or.inr (Or.inl ⟨by omega, hmax, by omega⟩)⟩
        · rw [if_neg hmax] at heq
          have hnowrap : (headerLength data + declaredLength data) % 2 ^ 64 =
              headerLength data + declaredLength data := by
            apply Nat.mod_eq_of_lt
            simp only [VECTOR_MAX_SIZE] at hmax
            omega
          rw [decodesSafely_of_frame heq (by omega) (by omega), not_iff_not]
          constructor
          · exact fun h => ⟨by omega, hrsv, hmask, Or.inr (Or.inr h)⟩
          · rintro ⟨-, -, -, h | h | h⟩
            · exact absurd h hnokey
            · exact absurd h.2.1 hmax
            · exact h
  · rw [if_pos hmask] at heq
    have hsafe :=
      decodesSafely_of_no_frame (n := 2 + extensionLength data) heq rfl (by decide) (by omega)
    exact iff_of_true hsafe fun h => hmask h.2.2.1

/-- Two bytes of a masked frame make the decoder read four bytes behind them. -/
theorem tryDecode_reads_behind_two_bytes :
    ¬ DecodesSafely (fun i => ([0x81, 0x80] : Bytes).getD i 0) 2 := by
  intro h
  have hread : 2 ∈ (tryDecode (fun i => ([0x81, 0x80] : Bytes).getD i 0) 2).reads := by
    decide
  exact absurd (h.1 2 hread) (by decide)

end Ws
end ChatRoom
