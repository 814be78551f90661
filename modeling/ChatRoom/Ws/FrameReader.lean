import ChatRoom.Lib.Incremental
import ChatRoom.Ws.SentFrame

/-!
# What a browser makes of the frames of a server

A browser reads frames that are not masked and not fragmented: opcode, length, payload.
It reads of a front of what a server appends to its output a front of the frames, whatever
the opcodes and lengths are (`drain_frames`).
-/

namespace ChatRoom
namespace Ws

open BigEndian Incremental

/-- The width of the extended length that the 7-bit length announces. -/
def announcedWidth (short : Nat) : Nat :=
  if short < 126 then 0 else if short = 126 then 2 else 8

/-- The length of the payload, of which the extended length is at the front of the bytes. -/
def payloadLength (short : Nat) (rest : Bytes) : Nat :=
  if short < 126 then short else ofBigEndian (rest.take (announcedWidth short))

/-- What is behind the first two bytes. -/
def payloadVerdict (opcode : Opcode) (short : Nat) (rest : Bytes) : Verdict SentFrame :=
  if rest.length < announcedWidth short then
    .wait
  else if rest.length < announcedWidth short + payloadLength short rest then
    .wait
  else
    .done (2 + announcedWidth short + payloadLength short rest)
      { opcode := opcode
        payload := (rest.drop (announcedWidth short)).take (payloadLength short rest) }

/-- The verdict on the front of a stream.  A reserved opcode or bit, a missing FIN bit and a
MASK bit are errors. -/
def serverFrameVerdict : Bytes → Verdict SentFrame
  | b0 :: b1 :: rest =>
      match Opcode.ofCode? (b0 &&& 0x0F) with
      | none => .malformed
      | some opcode =>
          if b0 &&& 0xF0 = 0x80 ∧ b1.toNat < 128 then
            payloadVerdict opcode b1.toNat rest
          else
            .malformed
  | _ => .wait

section Verdict

variable {opcode : Opcode} {short n : Nat} {rest bs : Bytes} {f : SentFrame}

theorem payloadLength_append
    (hrest : announcedWidth short ≤ rest.length) (ys : Bytes) :
    payloadLength short (rest ++ ys) = payloadLength short rest := by
  unfold payloadLength
  rw [List.take_append_of_le_length hrest]

theorem payloadVerdict_done
    (h : payloadVerdict opcode short rest = .done n f) :
    announcedWidth short + payloadLength short rest ≤ rest.length ∧
      n = 2 + announcedWidth short + payloadLength short rest := by
  unfold payloadVerdict at h
  split at h
  · cases h
  · split at h
    · cases h
    · next hlength =>
        cases h
        exact ⟨Nat.not_lt.mp hlength, rfl⟩

theorem payloadVerdict_append
    (h : payloadVerdict opcode short rest = .done n f) (ys : Bytes) :
    payloadVerdict opcode short (rest ++ ys) = .done n f := by
  obtain ⟨hlength, -⟩ := payloadVerdict_done h
  have hwidth : announcedWidth short ≤ rest.length := by
    omega
  rw [payloadVerdict, if_neg (by omega), if_neg (by omega)] at h
  rw [payloadVerdict, payloadLength_append hwidth, List.length_append, if_neg (by omega),
    if_neg (by omega), List.drop_append_of_le_length hwidth, List.take_append_of_le_length]
  · exact h
  · rw [List.length_drop]
    omega

theorem payloadVerdict_ne_malformed
    (opcode : Opcode) (short : Nat) (rest : Bytes) :
    payloadVerdict opcode short rest ≠ .malformed := by
  unfold payloadVerdict
  split
  · simp
  · split <;> simp

/-- Two bytes decide whether there is a frame. -/
theorem serverFrameVerdict_cases
    (h : serverFrameVerdict bs ≠ .wait) :
    ∃ b0 b1 rest, bs = b0 :: b1 :: rest ∧
      (serverFrameVerdict bs = .malformed ∧
          (∀ ys, serverFrameVerdict (bs ++ ys) = .malformed) ∨
        ∃ opcode, serverFrameVerdict bs = payloadVerdict opcode b1.toNat rest ∧
          ∀ ys, serverFrameVerdict (bs ++ ys) = payloadVerdict opcode b1.toNat (rest ++ ys)) := by
  match bs, h with
  | [], h =>
      exact absurd rfl h
  | [_], h =>
      exact absurd rfl h
  | b0 :: b1 :: rest, _ =>
      refine ⟨b0, b1, rest, rfl, ?_⟩
      simp only [List.cons_append, serverFrameVerdict]
      cases Opcode.ofCode? (b0 &&& 0x0F) with
      | none =>
          exact .inl ⟨rfl, fun _ => rfl⟩
      | some opcode =>
          by_cases hplain : b0 &&& 0xF0 = 0x80 ∧ b1.toNat < 128
          · refine .inr ⟨opcode, if_pos hplain, fun _ => if_pos hplain⟩
          · exact .inl ⟨if_neg hplain, fun _ => if_neg hplain⟩

theorem serverFrameVerdict_done
    (h : serverFrameVerdict bs = .done n f) :
    (0 < n ∧ n ≤ bs.length) ∧ ∀ ys, serverFrameVerdict (bs ++ ys) = .done n f := by
  have hdecided : serverFrameVerdict bs ≠ .wait := by
    rw [h]
    simp
  obtain ⟨b0, b1, rest, rfl, ⟨hbad, -⟩ | ⟨opcode, hverdict, hmore⟩⟩ :=
    serverFrameVerdict_cases hdecided
  · rw [h] at hbad
    cases hbad
  · rw [h] at hverdict
    obtain ⟨hlength, rfl⟩ := payloadVerdict_done hverdict.symm
    refine ⟨?_, fun ys => ?_⟩
    · rw [List.length_cons, List.length_cons]
      omega
    · rw [hmore, payloadVerdict_append hverdict.symm]

theorem serverFrameVerdict_malformed
    (h : serverFrameVerdict bs = .malformed) (ys : Bytes) :
    serverFrameVerdict (bs ++ ys) = .malformed := by
  have hdecided : serverFrameVerdict bs ≠ .wait := by
    rw [h]
    simp
  obtain ⟨b0, b1, rest, rfl, ⟨-, hmore⟩ | ⟨opcode, hverdict, -⟩⟩ :=
    serverFrameVerdict_cases hdecided
  · exact hmore ys
  · rw [h] at hverdict
    exact absurd hverdict.symm (payloadVerdict_ne_malformed _ _ _)

/-- The decoder of the frames of a server. -/
def serverFrameDecoder : Decoder UInt8 SentFrame where
  decode := serverFrameVerdict
  done_bounds h := (serverFrameVerdict_done h).1
  done_append h := (serverFrameVerdict_done h).2
  malformed_append := serverFrameVerdict_malformed

/-- The 7-bit length announces the width with which the length is written. -/
theorem announcedWidth_shortField
    (len : Nat) :
    announcedWidth (shortField len) = extensionWidth len := by
  unfold announcedWidth shortField extensionWidth
  split_ifs <;> omega

/-- The length that is written is read. -/
theorem payloadLength_shortField
    {len : Nat} (hlen : len < 2 ^ 64) (bs : Bytes) :
    payloadLength (shortField len) (toBigEndian (extensionWidth len) len ++ bs) = len := by
  rw [payloadLength, announcedWidth_shortField, List.take_append_of_le_length (by simp),
    List.take_of_length_le (by simp), ofBigEndian_toBigEndian]
  unfold shortField extensionWidth
  split_ifs <;> omega

/-- A frame that is appended to the output is read. -/
theorem decode_wire
    (hfits : f.Fits) (ys : Bytes) :
    serverFrameDecoder.decode (f.wire ++ ys) = .done f.wire.length f := by
  have hhead : Opcode.ofCode? ((0x80 ||| (f.opcode.code &&& 0x0F)) &&& 0x0F) = some f.opcode ∧
      (0x80 ||| (f.opcode.code &&& 0x0F)) &&& 0xF0 = 0x80 := by
    cases f.opcode <;> decide
  have hshort := shortField_lt f.payload.length
  have hfield : (UInt8.ofNat (shortField f.payload.length)).toNat =
      shortField f.payload.length := by
    rw [UInt8.toNat_ofNat']
    omega
  have hlength : f.wire.length = 2 + extensionWidth f.payload.length + f.payload.length := by
    rw [SentFrame.wire, encodeFrame_eq]
    simp
    omega
  have hread := payloadLength_shortField hfits (f.payload ++ ys)
  show serverFrameVerdict (f.wire ++ ys) = _
  rw [hlength, SentFrame.wire, encodeFrame_eq, List.cons_append, List.cons_append,
    serverFrameVerdict, hhead.1]
  dsimp only
  rw [hfield, if_pos ⟨hhead.2, hshort⟩, payloadVerdict, announcedWidth_shortField,
    List.append_assoc, hread]
  simp

/-- Of a front of the bytes a front of the frames is read, with every frame that is in it. -/
theorem drain_frames
    {frames : List SentFrame} (hfits : ∀ f ∈ frames, f.Fits)
    (hbs : bs <+: frames.flatMap SentFrame.wire) :
    (serverFrameDecoder.drain bs).items <+: frames ∧
      (serverFrameDecoder.drain bs).failed = false ∧
        ∀ front, front <+: frames → front.flatMap SentFrame.wire <+: bs →
          front <+: (serverFrameDecoder.drain bs).items :=
  Decoder.drain_front (fun f hf => decode_wire (hfits f hf)) rfl hbs

end Verdict

end Ws
end ChatRoom
