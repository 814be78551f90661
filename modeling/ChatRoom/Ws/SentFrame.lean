import ChatRoom.Ws.FrameRoundTrip

/-!
# The frames that a server appends to its output

What a connection appends to its output is a sequence of encoded frames.  Their
lengths are written in front of them, so the bytes determine the frames
(`flatMap_wire_inj`).
-/

namespace ChatRoom
namespace Ws

open BigEndian

/-- A frame that `encodeFrame` is called for. -/
structure SentFrame where
  opcode : Opcode
  payload : Bytes
deriving DecidableEq

namespace SentFrame

/-- The bytes of the frame. -/
def wire (f : SentFrame) : Bytes :=
  encodeFrame f.opcode.code f.payload

/-- The length of the payload can be written. -/
def Fits (f : SentFrame) : Prop :=
  f.payload.length < 2 ^ 64

instance (f : SentFrame) : Decidable f.Fits :=
  inferInstanceAs (Decidable (_ < _))

/-- The payloads of the texts among the frames. -/
def texts (frames : List SentFrame) : List Bytes :=
  (frames.filter fun f => f.opcode = .TEXT).map payload

theorem texts_append
    (frames more : List SentFrame) :
    texts (frames ++ more) = texts frames ++ texts more := by
  simp [texts]

section Unique

variable {f g : SentFrame} {frames frames' : List SentFrame} {bs bs' : Bytes}

/-- The 7-bit length determines the width of the extended length. -/
theorem extensionWidth_of_shortField
    {m n : Nat} (h : shortField m = shortField n) :
    extensionWidth m = extensionWidth n := by
  unfold shortField extensionWidth at *
  split_ifs at * <;> omega

/-- The length field determines the length. -/
theorem length_of_field
    {m n : Nat} (hm : m < 2 ^ 64) (hn : n < 2 ^ 64) (hshort : shortField m = shortField n)
    (hext : toBigEndian (extensionWidth m) m = toBigEndian (extensionWidth m) n) :
    m = n := by
  have hread := congrArg ofBigEndian hext
  rw [ofBigEndian_toBigEndian, ofBigEndian_toBigEndian] at hread
  have hwidth := extensionWidth_of_shortField hshort
  unfold shortField at hshort
  unfold extensionWidth at hread hwidth
  by_cases hm126 : m < 126
  · by_cases hn126 : n < 126
    · simpa [hm126, hn126] using hshort
    · split_ifs at hwidth
  · by_cases hm65536 : m < 65536
    · have hn65536 : n < 65536 := by
        split_ifs at hwidth <;> omega
      rw [if_neg hm126, if_pos hm65536] at hread
      rwa [Nat.mod_eq_of_lt, Nat.mod_eq_of_lt] at hread
      · exact hn65536
      · exact hm65536
    · rw [if_neg hm126, if_neg hm65536] at hread
      rwa [Nat.mod_eq_of_lt, Nat.mod_eq_of_lt] at hread
      · exact hn
      · exact hm

/-- The first byte determines the opcode. -/
theorem opcode_of_head
    {o p : Opcode} (h : (0x80 ||| (o.code &&& 0x0F)) = (0x80 ||| (p.code &&& 0x0F))) :
    o = p := by
  cases o <;> cases p <;> revert h <;> decide

/-- A frame can be read off the front. -/
theorem wire_append_inj
    (hf : f.Fits) (hg : g.Fits) (h : f.wire ++ bs = g.wire ++ bs') :
    f = g ∧ bs = bs' := by
  rw [wire, wire, encodeFrame_eq, encodeFrame_eq, List.cons_append, List.cons_append,
    List.cons_append, List.cons_append, List.cons.injEq, List.cons.injEq] at h
  obtain ⟨hhead, hfield, hrest⟩ := h
  have hopcode : f.opcode = g.opcode := opcode_of_head hhead
  have hshort : shortField f.payload.length = shortField g.payload.length := by
    have hnat := congrArg UInt8.toNat hfield
    have hm := shortField_lt f.payload.length
    have hn := shortField_lt g.payload.length
    simpa [Nat.mod_eq_of_lt (show shortField f.payload.length < 256 by omega),
      Nat.mod_eq_of_lt (show shortField g.payload.length < 256 by omega)] using hnat
  rw [List.append_assoc, List.append_assoc, ← extensionWidth_of_shortField hshort] at hrest
  obtain ⟨hext, hrest⟩ := List.append_inj hrest (by simp)
  have hlength : f.payload.length = g.payload.length := length_of_field hf hg hshort hext
  obtain ⟨hpayload, hbs⟩ := List.append_inj hrest hlength
  refine ⟨?_, hbs⟩
  cases f
  cases g
  exact congrArg₂ SentFrame.mk hopcode hpayload

theorem wire_ne_nil
    (f : SentFrame) :
    f.wire ≠ [] := by
  rw [wire, encodeFrame_eq]
  exact List.cons_ne_nil _ _

/-- The bytes of a sequence of frames determine the frames. -/
theorem flatMap_wire_inj
    (hframes : ∀ f ∈ frames, f.Fits) (hframes' : ∀ f ∈ frames', f.Fits)
    (h : frames.flatMap wire = frames'.flatMap wire) :
    frames = frames' := by
  induction frames generalizing frames' with
  | nil =>
      cases frames' with
      | nil =>
          rfl
      | cons g frames' =>
          rw [List.flatMap_nil, List.flatMap_cons] at h
          exact absurd (List.append_eq_nil_iff.mp h.symm).1 g.wire_ne_nil
  | cons f frames ih =>
      cases frames' with
      | nil =>
          rw [List.flatMap_nil, List.flatMap_cons] at h
          exact absurd (List.append_eq_nil_iff.mp h).1 f.wire_ne_nil
      | cons g frames' =>
          rw [List.flatMap_cons, List.flatMap_cons] at h
          rw [List.forall_mem_cons] at hframes hframes'
          obtain ⟨rfl, hrest⟩ := wire_append_inj hframes.1 hframes'.1 h
          rw [ih hframes.2 hframes'.2 hrest]

end Unique

end SentFrame

end Ws
end ChatRoom
