import ChatRoom.Lib.Sha1
import ChatRoom.Ws.Base64Text

/-!
# The digest of the handshake

`Sha1` buffers partial blocks, compresses complete ones as they come and pads in
one block or two.  It is SHA-1: the words of the source are those of the
standard, `processBlock` is its compression function, a state reached by
`update` is what the message read so far comes to (`Streams`), and `final`
finishes the hash.  The accept key is the base64 text of such a digest.
-/

namespace ChatRoom
namespace Ws

open BigEndian (toBigEndian ofBigEndian)
open Fips180 (sha1Hash sha1 schedule)

/-- The words of the source as words of the standard. -/
def Sha1State.words (s : Sha1State) : Fips180.Words where
  a := s.h0.toBitVec
  b := s.h1.toBitVec
  c := s.h2.toBitVec
  d := s.h3.toBitVec
  e := s.h4.toBitVec

section Words

theorem toBitVec_rotl_one
    (x : UInt32) :
    (rotl x 1).toBitVec = x.toBitVec.rotateLeft 1 := by
  simp [rotl, BitVec.rotateLeft_def]

theorem toBitVec_rotl_five
    (x : UInt32) :
    (rotl x 5).toBitVec = x.toBitVec.rotateLeft 5 := by
  simp [rotl, BitVec.rotateLeft_def]

theorem toBitVec_rotl_thirty
    (x : UInt32) :
    (rotl x 30).toBitVec = x.toBitVec.rotateLeft 30 := by
  simp [rotl, BitVec.rotateLeft_def]

/-- The source chooses with "or" where the standard has an exclusive one. -/
theorem or_eq_Ch
    (x y z : Fips180.Word) :
    (x &&& y) ||| (~~~x &&& z) = Fips180.Ch x y z := by
  ext i hi
  simp only [Fips180.Ch, BitVec.getElem_or, BitVec.getElem_xor, BitVec.getElem_and,
    BitVec.getElem_not]
  cases x[i] <;> simp

theorem or_eq_Maj
    (x y z : Fips180.Word) :
    (x &&& y) ||| (x &&& z) ||| (y &&& z) = Fips180.Maj x y z := by
  ext i hi
  simp only [Fips180.Maj, BitVec.getElem_or, BitVec.getElem_xor, BitVec.getElem_and]
  cases x[i] <;> cases y[i] <;> simp

theorem toBitVec_roundParameters
    (t : Nat) (b c d : UInt32) :
    (roundParameters t b c d).1.toBitVec = Fips180.f t b.toBitVec c.toBitVec d.toBitVec ∧
      (roundParameters t b c d).2.toBitVec = Fips180.K t := by
  simp only [roundParameters, Fips180.f, Fips180.K, ← or_eq_Ch, ← or_eq_Maj, Fips180.Parity]
  split
  · exact ⟨rfl, rfl⟩
  · split
    · exact ⟨rfl, rfl⟩
    · split
      · exact ⟨rfl, rfl⟩
      · exact ⟨rfl, rfl⟩

/-- A round of the source is a step of the standard. -/
theorem words_sha1Round
    {block : Bytes} {t : Nat} {w : UInt32} (hw : w.toBitVec = schedule block t)
    (s : Sha1State) :
    (sha1Round s t w).words = Fips180.step block s.words t := by
  obtain ⟨hf, hk⟩ := toBitVec_roundParameters t s.h1 s.h2 s.h3
  simp only [sha1Round, Sha1State.words, Fips180.step, UInt32.toBitVec_add, toBitVec_rotl_five,
    toBitVec_rotl_thirty, hf, hk, hw]

theorem toNat_byte_shiftLeft
    (b : UInt8) {k : UInt32} (hk : k.toNat ≤ 24) :
    (b.toUInt32 <<< k).toNat = b.toNat * 2 ^ k.toNat := by
  have hb := b.toNat_lt
  have hlt : b.toNat * 2 ^ k.toNat < 2 ^ 32 := by
    calc b.toNat * 2 ^ k.toNat
        ≤ b.toNat * 2 ^ 24 := Nat.mul_le_mul_left _ (Nat.pow_le_pow_right (by decide) hk)
      _ < 2 ^ 32 := by omega
  have hmod : k.toNat % 32 = k.toNat := Nat.mod_eq_of_lt (by omega)
  rw [UInt32.toNat_shiftLeft, UInt8.toNat_toUInt32, hmod, Nat.shiftLeft_eq, Nat.mod_eq_of_lt hlt]

/-- Four bytes make a word, big-endian. -/
theorem toNat_four_bytes
    (b0 b1 b2 b3 : UInt8) :
    ((b0.toUInt32 <<< 24) ||| (b1.toUInt32 <<< 16) ||| (b2.toUInt32 <<< 8) |||
        b3.toUInt32).toNat =
      ofBigEndian [b0, b1, b2, b3] := by
  have h1 := b1.toNat_lt
  have h2 := b2.toNat_lt
  have h3 : b3.toUInt32.toNat < 2 ^ 8 := by
    rw [UInt8.toNat_toUInt32]
    exact b3.toNat_lt
  have e0 : (b0.toUInt32 <<< 24).toNat = b0.toNat * 2 ^ 24 := toNat_byte_shiftLeft b0 (by decide)
  have e1 : (b1.toUInt32 <<< 16).toNat = b1.toNat * 2 ^ 16 := toNat_byte_shiftLeft b1 (by decide)
  have e2 : (b2.toUInt32 <<< 8).toNat = b2.toNat * 2 ^ 8 := toNat_byte_shiftLeft b2 (by decide)
  have e01 :
      ((b0.toUInt32 <<< 24) ||| (b1.toUInt32 <<< 16)).toNat =
        (b0.toNat * 256 + b1.toNat) * 2 ^ 16 := by
    rw [UInt32.toNat_or, BigEndian.or_eq_add e0 (by omega), e1]
    ring
  have e012 :
      ((b0.toUInt32 <<< 24) ||| (b1.toUInt32 <<< 16) ||| (b2.toUInt32 <<< 8)).toNat =
        ((b0.toNat * 256 + b1.toNat) * 256 + b2.toNat) * 2 ^ 8 := by
    rw [UInt32.toNat_or, BigEndian.or_eq_add e01 (by omega), e2]
    ring
  rw [UInt32.toNat_or, BigEndian.or_eq_add e012 h3, UInt8.toNat_toUInt32]
  simp [ofBigEndian]

theorem wordBytes_eq
    (x : UInt32) :
    wordBytes x = toBigEndian 4 x.toBitVec.toNat := by
  simp only [wordBytes, toBigEndian, List.cons.injEq, and_true]
  refine ⟨?_, ?_, ?_, ?_⟩
  all_goals
    apply UInt8.toNat_inj.mp
    simp [Nat.shiftRight_eq_div_pow]

end Words

section Schedule

variable (block : Bytes)

/-- The word `t` of the schedule in the type of the source. -/
def scheduleWord (t : Nat) : UInt32 :=
  UInt32.ofBitVec (schedule block t)

/-- The first `m` words of the schedule, the last one first. -/
def wordsBefore : Nat → List UInt32
  | 0 => []
  | m + 1 => scheduleWord block m :: wordsBefore m

variable {block}

theorem getD_wordsBefore
    {m i : Nat} (hi : i < m) :
    (wordsBefore block m).getD i 0 = scheduleWord block (m - 1 - i) := by
  induction m generalizing i with
  | zero =>
      omega
  | succ m ih =>
      cases i with
      | zero =>
          rfl
      | succ i =>
          rw [wordsBefore, List.getD_cons_succ, ih (by omega)]
          congr 1
          omega

theorem reverse_wordsBefore
    (m : Nat) :
    (wordsBefore block m).reverse = (List.range m).map (scheduleWord block) := by
  induction m with
  | zero =>
      rfl
  | succ m ih =>
      rw [wordsBefore, List.reverse_cons, ih, List.range_succ, List.map_append]
      rfl

/-- The word the loop puts in front is the next one of the schedule. -/
theorem scheduleWord_next
    {m : Nat} (hm : 16 ≤ m) :
    rotl
        ((wordsBefore block m).getD 2 0 ^^^ (wordsBefore block m).getD 7 0 ^^^
          (wordsBefore block m).getD 13 0 ^^^ (wordsBefore block m).getD 15 0) 1 =
      scheduleWord block m := by
  have h3 : m - 1 - 2 = m - 3 := by omega
  have h8 : m - 1 - 7 = m - 8 := by omega
  have h14 : m - 1 - 13 = m - 14 := by omega
  have h16 : m - 1 - 15 = m - 16 := by omega
  rw [getD_wordsBefore (show 2 < m by omega), getD_wordsBefore (show 7 < m by omega),
    getD_wordsBefore (show 13 < m by omega), getD_wordsBefore (show 15 < m by omega),
    h3, h8, h14, h16]
  apply UInt32.toBitVec_inj.mp
  rw [toBitVec_rotl_one]
  exact (Fips180.schedule_of_ge hm).symm

theorem expandWords_wordsBefore
    (n : Nat) {m : Nat} (hm : 16 ≤ m) :
    expandWords n (wordsBefore block m) = wordsBefore block (m + n) := by
  induction n generalizing m with
  | zero =>
      rfl
  | succ n ih =>
      rw [expandWords, scheduleWord_next hm, ← wordsBefore, ih (show 16 ≤ m + 1 by omega)]
      congr 1
      omega

theorem drop_eq_getD_cons
    {i : Nat} (hi : i < block.length) :
    block.drop i = block.getD i 0 :: block.drop (i + 1) := by
  rw [List.drop_eq_getElem_cons hi, List.getD_eq_getElem?_getD, List.getElem?_eq_getElem hi,
    Option.getD_some]

/-- Four bytes of a block that are all there. -/
theorem take_four
    {i : Nat} (hi : i + 3 < block.length) :
    (block.drop i).take 4 =
      [block.getD i 0, block.getD (i + 1) 0, block.getD (i + 2) 0, block.getD (i + 3) 0] := by
  rw [drop_eq_getD_cons (show i < block.length by omega),
    drop_eq_getD_cons (show i + 1 < block.length by omega),
    drop_eq_getD_cons (show i + 2 < block.length by omega), drop_eq_getD_cons hi]
  rfl

theorem blockWords_eq
    (hblock : block.length = 64) :
    blockWords block = (List.range 16).map (scheduleWord block) := by
  refine List.map_congr_left fun t ht => ?_
  have ht16 := List.mem_range.mp ht
  have hbytes := take_four (show 4 * t + 3 < block.length by omega)
  apply UInt32.toBitVec_inj.mp
  rw [scheduleWord, UInt32.toBitVec_ofBitVec, Fips180.schedule_of_lt ht16, Fips180.messageWord,
    hbytes, ← toNat_four_bytes, ← UInt32.toNat_toBitVec, BitVec.ofNat_toNat,
    BitVec.setWidth_eq]

/-- The whole schedule, as the main loop reads it. -/
theorem schedule_words
    (hblock : block.length = 64) :
    (expandWords 64 (blockWords block).reverse).reverse =
      (List.range 80).map (scheduleWord block) := by
  rw [blockWords_eq hblock, ← reverse_wordsBefore, List.reverse_reverse,
    expandWords_wordsBefore 64 (le_refl 16), reverse_wordsBefore]

/-- Words with their numbers. -/
theorem zipIdx_map_range
    (n : Nat) (w : Nat → UInt32) :
    ((List.range n).map w).zipIdx = (List.range n).map fun t => (w t, t) := by
  apply List.ext_getElem
  · simp
  · intro i h1 h2
    simp

/-- The main loop runs the steps of the standard. -/
theorem words_foldl_sha1Round
    (ts : List Nat) (s : Sha1State) :
    (ts.foldl (fun s t => sha1Round s t (scheduleWord block t)) s).words =
      ts.foldl (Fips180.step block) s.words := by
  induction ts generalizing s with
  | nil =>
      rfl
  | cons t ts ih =>
      have hw : (scheduleWord block t).toBitVec = schedule block t := rfl
      rw [List.foldl_cons, List.foldl_cons, ih, words_sha1Round hw]

/-- `processBlock` is the compression function. -/
theorem words_processBlock
    (hblock : block.length = 64) (h : Sha1State) :
    (processBlock h block).words = sha1Hash.compress h.words block := by
  have hloop :
      ((List.range 80).foldl (fun s t => sha1Round s t (scheduleWord block t)) h).words =
        (List.range 80).foldl (Fips180.step block) h.words :=
    words_foldl_sha1Round (List.range 80) h
  simp only [processBlock, schedule_words hblock, zipIdx_map_range, List.foldl_map]
  simp only [sha1Hash, Fips180.compress, ← hloop]
  simp only [Sha1State.words, UInt32.toBitVec_add, BitVec.add_comm]

end Schedule

section Stream

/-- The loop of `update` takes the complete blocks and leaves what is behind them. -/
theorem updateBlocks_eq
    {fuel : Nat} {data : Bytes} (hfuel : data.length ≤ fuel) (h : Sha1State) :
    (updateBlocks fuel h data).1.words = sha1Hash.absorb h.words data ∧
      (updateBlocks fuel h data).2 = sha1Hash.remainder data := by
  induction fuel generalizing h data with
  | zero =>
      have hlt : data.length < sha1Hash.blockSize := Nat.lt_of_le_of_lt hfuel (by decide)
      rw [IteratedHash.absorb_of_lt hlt, IteratedHash.remainder_of_lt hlt]
      exact ⟨rfl, rfl⟩
  | succ fuel ih =>
      rw [updateBlocks]
      split
      · next hge =>
          have htail : (data.drop 64).length ≤ fuel := by
            rw [List.length_drop]
            omega
          have hblock : (data.take 64).length = 64 := by
            rw [List.length_take]
            omega
          obtain ⟨hchain, hrest⟩ := ih htail (processBlock h (data.take 64))
          rw [hchain, hrest, words_processBlock hblock,
            IteratedHash.absorb_of_le (H := sha1Hash) hge,
            IteratedHash.remainder_of_le (H := sha1Hash) hge]
          exact ⟨rfl, rfl⟩
      · next hlt =>
          have hlt : data.length < sha1Hash.blockSize := Nat.lt_of_not_ge hlt
          rw [IteratedHash.absorb_of_lt hlt, IteratedHash.remainder_of_lt hlt]
          exact ⟨rfl, rfl⟩

/-- `s` is what reading the message comes to. -/
structure Streams (msg : Bytes) (s : Sha1) : Prop where
  absorbed : sha1Hash.Absorbed msg s.h.words s.buf
  totalBits_eq : s.totalBits = UInt64.ofNat (8 * msg.length)

theorem streams_init :
    Streams [] Sha1.init :=
  ⟨IteratedHash.absorbed_nil, rfl⟩

namespace Streams

variable {msg : Bytes} {s : Sha1}

theorem length_buf_lt
    (hs : Streams msg s) :
    s.buf.length < 64 := by
  rw [hs.absorbed.length_rest]
  exact Nat.mod_lt _ (by decide)

theorem update_totalBits
    (hs : Streams msg s) (data : Bytes) :
    s.totalBits + UInt64.ofNat data.length * 8 = UInt64.ofNat (8 * (msg ++ data).length) := by
  have height : (8 : UInt64) = UInt64.ofNat 8 := rfl
  rw [hs.totalBits_eq, height, ← UInt64.ofNat_mul, ← UInt64.ofNat_add, List.length_append]
  congr 1
  ring

/-- The bytes and the chaining value after `update`. -/
theorem update_eq
    (hlt : s.buf.length < 64) (data : Bytes) :
    (s.update data).h.words = sha1Hash.absorb s.h.words (s.buf ++ data) ∧
      (s.update data).buf = sha1Hash.remainder (s.buf ++ data) := by
  rw [Sha1.update]
  split
  · next hshort =>
      -- the buffer is not filled up
      have hlen : (s.buf ++ data).length < sha1Hash.blockSize := by
        show _ < 64
        rw [List.length_append]
        omega
      rw [IteratedHash.absorb_of_lt hlen, IteratedHash.remainder_of_lt hlen]
      exact ⟨rfl, rfl⟩
  · next hlong =>
      rcases Nat.eq_zero_or_pos s.buf.length with hzero | hpos
      · have hnil : s.buf = [] := List.length_eq_zero_iff.mp hzero
        simp only [hnil, List.length_nil, gt_iff_lt, Nat.lt_irrefl, if_false, List.drop_zero,
          List.nil_append]
        exact updateBlocks_eq (le_refl _) s.h
      · -- the buffer is filled up and compressed, the loop takes the rest
        have hblock : (s.buf ++ data.take (64 - s.buf.length)).length = 64 := by
          rw [List.length_append, List.length_take]
          omega
        have hfuel : (data.drop (64 - s.buf.length)).length ≤ data.length := by
          rw [List.length_drop]
          omega
        have hsplit :
            s.buf ++ data =
              (s.buf ++ data.take (64 - s.buf.length)) ++ data.drop (64 - s.buf.length) := by
          rw [List.append_assoc, List.take_append_drop]
        obtain ⟨hchain, hrest⟩ := updateBlocks_eq hfuel
          (processBlock s.h (s.buf ++ data.take (64 - s.buf.length)))
        simp only [gt_iff_lt, hpos, if_true]
        rw [hchain, hrest, words_processBlock hblock, hsplit,
          IteratedHash.absorb_block_append (H := sha1Hash) hblock,
          IteratedHash.remainder_block_append (H := sha1Hash) hblock]
        exact ⟨rfl, rfl⟩

/-- `update` reads on. -/
theorem update
    (hs : Streams msg s) (data : Bytes) :
    Streams (msg ++ data) (s.update data) := by
  obtain ⟨hchain, hrest⟩ := update_eq hs.length_buf_lt data
  refine ⟨?_, ?_⟩
  · rw [hchain, hrest]
    exact hs.absorbed.append data
  · rw [← hs.update_totalBits data, Sha1.update]
    split <;> rfl

/-- Any chunks of a message come to the message. -/
theorem foldl_update
    (hs : Streams msg s) (chunks : List Bytes) :
    Streams (msg ++ chunks.flatten) (chunks.foldl Sha1.update s) := by
  induction chunks generalizing msg s with
  | nil =>
      simpa using hs
  | cons chunk chunks ih =>
      rw [List.foldl_cons, List.flatten_cons, ← List.append_assoc]
      exact ih (hs.update chunk)

end Streams

end Stream

section Final

/-- The length field, written byte by byte. -/
theorem lengthField_eq
    (n : UInt64) :
    ((List.range 8).map fun i => (n >>> (56 - UInt64.ofNat i * 8)).toUInt8) =
      toBigEndian 8 n.toNat := by
  simp only [toBigEndian, List.range_succ, List.range_zero, List.nil_append, List.cons_append,
    List.map_cons, List.map_nil, List.cons.injEq, and_true]
  refine ⟨?_, ?_, ?_, ?_, ?_, ?_, ?_, ?_⟩
  all_goals
    apply UInt8.toNat_inj.mp
    simp [Nat.shiftRight_eq_div_pow]

theorem digest_words
    (h : Sha1State) :
    wordBytes h.h0 ++ wordBytes h.h1 ++ wordBytes h.h2 ++ wordBytes h.h3 ++ wordBytes h.h4 =
      Fips180.digest h.words := by
  simp [wordBytes_eq, Fips180.digest, Sha1State.words]

/-- The padding ends the block at hand if the length field fits into it. -/
theorem append_padding_of_lt
    {buf : Bytes} {n : Nat} (hbuf : buf.length = n % 64) (hlt : buf.length < 56) :
    buf ++ Fips180.padding n =
      buf ++ [0x80] ++ List.replicate (56 - (buf ++ [0x80]).length) 0 ++
        toBigEndian 8 (8 * n) := by
  have hzeros : (119 - n % 64) % 64 = 56 - (buf ++ [0x80]).length := by
    rw [List.length_append, List.length_singleton]
    omega
  rw [Fips180.padding, hzeros]
  simp

/-- Otherwise it fills the block and takes one more. -/
theorem append_padding_of_ge
    {buf : Bytes} {n : Nat} (hbuf : buf.length = n % 64) (hge : 56 ≤ buf.length) :
    buf ++ Fips180.padding n =
      (buf ++ [0x80] ++ List.replicate (64 - (buf ++ [0x80]).length) 0) ++
        (List.replicate 56 0 ++ toBigEndian 8 (8 * n)) := by
  have hzeros : (119 - n % 64) % 64 = (64 - (buf ++ [0x80]).length) + 56 := by
    rw [List.length_append, List.length_singleton]
    omega
  rw [Fips180.padding, hzeros, List.replicate_add]
  simp

/-- `final` finishes the hash of the message read. -/
theorem Streams.final_eq
    {msg : Bytes} {s : Sha1} (hs : Streams msg s) :
    s.final = sha1 msg := by
  have hlt := hs.length_buf_lt
  have hbuf : s.buf.length = msg.length % 64 := hs.absorbed.length_rest
  have hfield :
      ((List.range 8).map fun i => (s.totalBits >>> (56 - UInt64.ofNat i * 8)).toUInt8) =
        toBigEndian 8 (8 * msg.length) := by
    rw [lengthField_eq, hs.totalBits_eq, UInt64.toNat_ofNat']
    exact BigEndian.toBigEndian_mod 8 (8 * msg.length)
  have hpadding : sha1Hash.padding = Fips180.padding := rfl
  rw [sha1, hs.absorbed.hash_eq, hpadding]
  simp only [Sha1.final, hfield, digest_words]
  congr 1
  split
  · next hlong =>
      rw [List.length_append, List.length_singleton] at hlong
      have hfirst :
          (s.buf ++ ([0x80] : Bytes) ++
            List.replicate (64 - (s.buf ++ [0x80]).length) (0 : UInt8)).length = 64 := by
        simp only [List.length_append, List.length_singleton, List.length_replicate]
        omega
      have hlast :
          (List.replicate 56 (0 : UInt8) ++ toBigEndian 8 (8 * msg.length)).length = 64 := by
        simp
      rw [append_padding_of_ge hbuf (by omega),
        IteratedHash.absorb_block_append (H := sha1Hash) hfirst,
        IteratedHash.absorb_block (H := sha1Hash) hlast, ← words_processBlock hfirst,
        ← words_processBlock hlast]
      rfl
  · next hshort =>
      rw [List.length_append, List.length_singleton] at hshort
      have hlast :
          (s.buf ++ ([0x80] : Bytes) ++
            List.replicate (56 - (s.buf ++ [0x80]).length) (0 : UInt8) ++
            toBigEndian 8 (8 * msg.length)).length = 64 := by
        simp only [List.length_append, List.length_singleton, List.length_replicate,
          BigEndian.length_toBigEndian]
        omega
      rw [append_padding_of_lt hbuf (by omega), IteratedHash.absorb_block (H := sha1Hash) hlast,
        ← words_processBlock hlast]

/-- The example of one block in the standard. -/
example : sha1 (bytes "abc") =
    [0xA9, 0x99, 0x3E, 0x36, 0x47, 0x06, 0x81, 0x6A, 0xBA, 0x3E, 0x25, 0x71, 0x78, 0x50, 0xC2,
      0x6C, 0x9C, 0xD0, 0xD8, 0x9D] := by
  have h : (Sha1.init.update (bytes "abc")).final = sha1 (bytes "abc") :=
    (streams_init.update (bytes "abc")).final_eq
  rw [← h]
  decide +kernel

end Final

/-- Every way to cut a message up gives its SHA-1, and the accept key is the base64 text
of the SHA-1 of the key with the GUID behind it. -/
theorem handshake_digest :
    (∀ chunks : List Bytes,
        (chunks.foldl Sha1.update Sha1.init).final = sha1 chunks.flatten) ∧
      ∀ clientKey : Bytes,
        computeAcceptKey clientKey =
          Base64.standard.encode (sha1 (clientKey ++ MAGIC_GUID)) := by
  refine ⟨?_, ?_⟩
  · intro chunks
    exact (streams_init.foldl_update chunks).final_eq
  · intro clientKey
    have hkey := (streams_init.update (clientKey ++ MAGIC_GUID)).final_eq
    rw [computeAcceptKey, hkey, base64Encode_eq]
    rfl

end Ws
end ChatRoom
