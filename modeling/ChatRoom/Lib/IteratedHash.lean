import ChatRoom.Lib.Incremental

/-!
# Iterated hash functions

A hash function of the Merkle-Damgard kind pads a message to whole blocks and
folds a compression function over them.  A program that computes it from a
stream keeps the chaining value of the complete blocks and the symbols behind
them (`Absorbed`).  Such a state does not depend on how the message was cut
(`Absorbed.append`), and it is enough to finish the hash (`Absorbed.hash_eq`).
-/

namespace ChatRoom

universe u v

/-- A block size, an initial chaining value, a compression function and a padding. -/
structure IteratedHash (σ : Type u) (β : Type v) where
  blockSize : Nat
  initial : σ
  compress : σ → List β → σ
  padding : Nat → List β
  blockSize_pos : 0 < blockSize
  padding_fills : ∀ n, blockSize ∣ n + (padding n).length

namespace IteratedHash

open Incremental

variable {σ : Type u} {β : Type v} (H : IteratedHash σ β)

/-- The decoder that takes one block from a stream. -/
def blockDecoder : Decoder β (List β) where
  decode xs :=
    if H.blockSize ≤ xs.length then
      .done H.blockSize (xs.take H.blockSize)
    else
      .wait
  done_bounds := by
    intro xs n b h
    split at h
    · next hle =>
        cases h
        exact ⟨H.blockSize_pos, hle⟩
    · cases h
  done_append := by
    intro xs n b h ys
    split at h
    · next hle =>
        cases h
        rw [if_pos (by rw [List.length_append]; omega), List.take_append_of_le_length hle]
    · cases h
  malformed_append := by
    intro xs h
    split at h <;> cases h

/-- The complete blocks of a string, in order. -/
def blocks (xs : List β) : List (List β) :=
  (H.blockDecoder.drain xs).items

/-- What is behind the complete blocks. -/
def remainder (xs : List β) : List β :=
  (H.blockDecoder.drain xs).unread

/-- Fold the compression function over the complete blocks. -/
def absorb (h : σ) (xs : List β) : σ :=
  (H.blocks xs).foldl H.compress h

/-- The final chaining value of a message. -/
def hash (msg : List β) : σ :=
  H.absorb H.initial (msg ++ H.padding msg.length)

variable {H}

theorem drain_of_lt
    {xs : List β} (hlt : xs.length < H.blockSize) :
    H.blockDecoder.drain xs = { items := [], unread := xs, failed := false } := by
  apply Decoder.drain_wait
  exact if_neg (by omega)

theorem drain_of_le
    {xs : List β} (hle : H.blockSize ≤ xs.length) :
    H.blockDecoder.drain xs =
      { items := xs.take H.blockSize :: H.blocks (xs.drop H.blockSize)
        unread := H.remainder (xs.drop H.blockSize)
        failed := (H.blockDecoder.drain (xs.drop H.blockSize)).failed } :=
  Decoder.drain_done (if_pos hle)

theorem absorb_of_lt
    {xs : List β} (hlt : xs.length < H.blockSize) (h : σ) :
    H.absorb h xs = h := by
  rw [absorb, blocks, drain_of_lt hlt]
  rfl

theorem absorb_of_le
    {xs : List β} (hle : H.blockSize ≤ xs.length) (h : σ) :
    H.absorb h xs =
      H.absorb (H.compress h (xs.take H.blockSize)) (xs.drop H.blockSize) := by
  rw [absorb, blocks, drain_of_le hle]
  rfl

theorem remainder_of_lt
    {xs : List β} (hlt : xs.length < H.blockSize) :
    H.remainder xs = xs := by
  rw [remainder, drain_of_lt hlt]

theorem remainder_of_le
    {xs : List β} (hle : H.blockSize ≤ xs.length) :
    H.remainder xs = H.remainder (xs.drop H.blockSize) := by
  rw [remainder, drain_of_le hle]

/-- A block in front is compressed first. -/
theorem absorb_block_append
    {b : List β} (hb : b.length = H.blockSize) (h : σ) (xs : List β) :
    H.absorb h (b ++ xs) = H.absorb (H.compress h b) xs := by
  have hle : H.blockSize ≤ (b ++ xs).length := by
    rw [List.length_append]
    omega
  rw [absorb_of_le hle, ← hb, List.take_left, List.drop_left]

theorem remainder_block_append
    {b : List β} (hb : b.length = H.blockSize) (xs : List β) :
    H.remainder (b ++ xs) = H.remainder xs := by
  have hle : H.blockSize ≤ (b ++ xs).length := by
    rw [List.length_append]
    omega
  rw [remainder_of_le hle, ← hb, List.drop_left]

/-- A string that is one block. -/
theorem absorb_block
    {b : List β} (hb : b.length = H.blockSize) (h : σ) :
    H.absorb h b = H.compress h b := by
  have h0 : ([] : List β).length < H.blockSize := H.blockSize_pos
  rw [← List.append_nil b, absorb_block_append hb, absorb_of_lt h0, List.append_nil]

/-- Induction along the blocks of a string. -/
theorem block_induction
    {motive : List β → Prop}
    (rest : ∀ xs, xs.length < H.blockSize → motive xs)
    (block : ∀ xs, H.blockSize ≤ xs.length → motive (xs.drop H.blockSize) → motive xs)
    (xs : List β) :
    motive xs := by
  induction hlen : xs.length using Nat.strong_induction_on generalizing xs with
  | _ len ih =>
      rcases Nat.lt_or_ge xs.length H.blockSize with hlt | hge
      · exact rest xs hlt
      · have hpos := H.blockSize_pos
        refine block xs hge (ih (xs.drop H.blockSize).length ?_ _ rfl)
        rw [List.length_drop]
        omega

theorem length_remainder
    (xs : List β) :
    (H.remainder xs).length = xs.length % H.blockSize := by
  induction xs using block_induction (H := H) with
  | rest xs hlt =>
      rw [remainder_of_lt hlt, Nat.mod_eq_of_lt hlt]
  | block xs hle ih =>
      rw [remainder_of_le hle, ih, List.length_drop, ← Nat.mod_eq_sub_mod hle]

theorem drain_failed
    (xs : List β) :
    (H.blockDecoder.drain xs).failed = false := by
  induction xs using block_induction (H := H) with
  | rest xs hlt =>
      rw [drain_of_lt hlt]
  | block xs hle ih =>
      rw [drain_of_le hle]
      exact ih

theorem drain_append
    (xs ys : List β) :
    H.blockDecoder.drain (xs ++ ys) =
      { items := H.blocks xs ++ H.blocks (H.remainder xs ++ ys)
        unread := H.remainder (H.remainder xs ++ ys)
        failed := false } := by
  rw [Decoder.drain_append, Decoder.extend, drain_failed, if_neg (by simp)]
  simp only [blocks, remainder, drain_failed]

/-- A longer string goes on from what its front left. -/
theorem absorb_append
    (h : σ) (xs ys : List β) :
    H.absorb h (xs ++ ys) = H.absorb (H.absorb h xs) (H.remainder xs ++ ys) := by
  rw [absorb, blocks, drain_append, List.foldl_append]
  rfl

theorem remainder_append
    (xs ys : List β) :
    H.remainder (xs ++ ys) = H.remainder (H.remainder xs ++ ys) := by
  rw [remainder, drain_append]

/-- `chain` and `rest` are what a message read so far comes to. -/
structure Absorbed (H : IteratedHash σ β) (msg : List β) (chain : σ) (rest : List β) : Prop where
  chain_eq : chain = H.absorb H.initial msg
  rest_eq : rest = H.remainder msg

theorem absorbed_nil :
    Absorbed H [] H.initial [] := by
  have h0 : ([] : List β).length < H.blockSize := H.blockSize_pos
  exact ⟨(absorb_of_lt h0 _).symm, (remainder_of_lt h0).symm⟩

namespace Absorbed

variable {msg : List β} {chain : σ} {rest : List β}

theorem length_rest
    (h : Absorbed H msg chain rest) :
    rest.length = msg.length % H.blockSize := by
  rw [h.rest_eq, length_remainder]

/-- Reading on: the piece is put behind the rest. -/
theorem append
    (h : Absorbed H msg chain rest) (piece : List β) :
    Absorbed H (msg ++ piece) (H.absorb chain (rest ++ piece)) (H.remainder (rest ++ piece)) := by
  refine ⟨?_, ?_⟩
  · rw [h.chain_eq, h.rest_eq, ← absorb_append]
  · rw [h.rest_eq, ← remainder_append]

/-- Finishing: the padding is put behind the rest. -/
theorem hash_eq
    (h : Absorbed H msg chain rest) :
    H.hash msg = H.absorb chain (rest ++ H.padding msg.length) := by
  rw [hash, absorb_append, h.chain_eq, h.rest_eq]

end Absorbed
end IteratedHash
end ChatRoom
