import ChatRoom.Lib.Base64
import ChatRoom.Ws.Handshake

/-!
# The base64 text of the handshake

`base64Encode` regroups the bits of three bytes with shifts and masks and has a
branch for each remainder.  It computes the encoding of RFC 4648 over the
standard alphabet, so its output decodes to its input.
-/

namespace ChatRoom
namespace Ws

open Base64 (standard)
open BigEndian (ofBigEndian)

/-- The table of the source is the standard alphabet. -/
theorem B64_ALPHABET_eq :
    B64_ALPHABET = standard.digits := by
  decide +kernel

theorem b64Char_eq
    {i : UInt8} {v : Nat} (hi : i.toNat = v) (hv : v < 64) :
    b64Char i = standard.digit v := by
  have hlen : v < standard.digits.length := by
    rw [standard.length_digits]
    exact hv
  simp only [b64Char, B64_ALPHABET_eq, hi, List.getD_eq_getElem?_getD,
    List.getElem?_eq_getElem hlen, Option.getD_some, Base64.Alphabet.digit, List.get_eq_getElem,
    Nat.mod_eq_of_lt hv]

/-- The bits of a byte that a shift leaves. -/
theorem toNat_shiftRight
    (b : UInt8) {k : UInt8} {n : Nat} (hk : k.toNat = n) (hn : n < 8) :
    (b >>> k).toNat = b.toNat / 2 ^ n := by
  rw [UInt8.toNat_shiftRight, hk, Nat.mod_eq_of_lt hn, Nat.shiftRight_eq_div_pow]

/-- The low bits of a byte. -/
theorem toNat_mask
    (b : UInt8) {mask : UInt8} {n : Nat} (hmask : mask.toNat = 2 ^ n - 1) :
    (b &&& mask).toNat = b.toNat % 2 ^ n := by
  rw [UInt8.toNat_and, hmask]
  exact Nat.and_two_pow_sub_one_eq_mod b.toNat n

/-- The `n` low bits of a byte, moved in front of `m` further bits. -/
theorem toNat_mask_shiftLeft
    (b : UInt8) {mask k : UInt8} {n m : Nat} (hmask : mask.toNat = 2 ^ n - 1)
    (hk : k.toNat = m) (hm : m < 8) (hnm : n + m ≤ 8) :
    ((b &&& mask) <<< k).toNat = b.toNat % 2 ^ n * 2 ^ m := by
  have hlt : b.toNat % 2 ^ n * 2 ^ m < 2 ^ 8 := by
    calc b.toNat % 2 ^ n * 2 ^ m
        < 2 ^ n * 2 ^ m :=
          Nat.mul_lt_mul_of_pos_right (Nat.mod_lt _ (by positivity)) (by positivity)
      _ = 2 ^ (n + m) := (pow_add 2 n m).symm
      _ ≤ 2 ^ 8 := Nat.pow_le_pow_right (by decide) hnm
  rw [UInt8.toNat_shiftLeft, toNat_mask b hmask, hk, Nat.mod_eq_of_lt hm, Nat.shiftLeft_eq,
    Nat.mod_eq_of_lt hlt]

/-- The low bits of a byte in front of the high bits of the next one. -/
theorem toNat_join
    (b c : UInt8) {mask k l : UInt8} {n m j : Nat} (hmask : mask.toNat = 2 ^ n - 1)
    (hk : k.toNat = m) (hl : l.toNat = j) (hm : m < 8) (hj : j < 8) (hnm : n + m ≤ 8)
    (hmj : m + j = 8) :
    (((b &&& mask) <<< k) ||| (c >>> l)).toNat = b.toNat % 2 ^ n * 2 ^ m + c.toNat / 2 ^ j := by
  have hhigh : (c >>> l).toNat < 2 ^ m := by
    rw [toNat_shiftRight c hl hj, Nat.div_lt_iff_lt_mul (by positivity), ← pow_add, hmj]
    exact c.toNat_lt
  rw [UInt8.toNat_or, BigEndian.or_eq_add (toNat_mask_shiftLeft b hmask hk hm hnm) hhigh,
    toNat_shiftRight c hl hj]

/-- The digits of a number are named by their values. -/
theorem b64Char_digit
    {i : UInt8} {n k : Nat} (hi : i.toNat = n / 64 ^ k % 64) :
    b64Char i = standard.digit (n / 64 ^ k % 64) :=
  b64Char_eq hi (Nat.mod_lt _ (by decide))

/-- The branch for three bytes. -/
theorem group_three
    (b0 b1 b2 : UInt8) :
    standard.group [b0, b1, b2] =
      [b64Char (b0 >>> 2), b64Char (((b0 &&& 0x03) <<< 4) ||| (b1 >>> 4)),
        b64Char (((b1 &&& 0x0F) <<< 2) ||| (b2 >>> 6)), b64Char (b2 &&& 0x3F)] := by
  have h0 := b0.toNat_lt
  have h1 := b1.toNat_lt
  have h2 := b2.toNat_lt
  obtain ⟨n, hn⟩ : ∃ n, n = (b0.toNat * 256 + b1.toNat) * 256 + b2.toNat := ⟨_, rfl⟩
  have d0 : (b0 >>> 2).toNat = n / 64 ^ 3 % 64 := by
    rw [toNat_shiftRight b0 (n := 2) rfl (by decide)]
    omega
  have d1 : (((b0 &&& 0x03) <<< 4) ||| (b1 >>> 4)).toNat = n / 64 ^ 2 % 64 := by
    rw [toNat_join b0 b1 (n := 2) (m := 4) (j := 4) rfl rfl rfl (by decide) (by decide)
      (by decide) rfl]
    omega
  have d2 : (((b1 &&& 0x0F) <<< 2) ||| (b2 >>> 6)).toNat = n / 64 ^ 1 % 64 := by
    rw [toNat_join b1 b2 (n := 4) (m := 2) (j := 6) rfl rfl rfl (by decide) (by decide)
      (by decide) rfl]
    omega
  have d3 : (b2 &&& 0x3F).toNat = n / 64 ^ 0 % 64 := by
    rw [toNat_mask b2 (n := 6) rfl]
    omega
  rw [b64Char_digit d0, b64Char_digit d1, b64Char_digit d2, b64Char_digit d3]
  simp [Base64.Alphabet.group, Base64.Alphabet.symbols, Base64.sextets, ofBigEndian, hn]

/-- The branch for two bytes at the end; two zero bits fill the last digit. -/
theorem group_two
    (b0 b1 : UInt8) :
    standard.group [b0, b1] =
      [b64Char (b0 >>> 2), b64Char (((b0 &&& 0x03) <<< 4) ||| (b1 >>> 4)),
        b64Char ((b1 &&& 0x0F) <<< 2), 0x3D] := by
  have h0 := b0.toNat_lt
  have h1 := b1.toNat_lt
  obtain ⟨n, hn⟩ : ∃ n, n = (b0.toNat * 256 + b1.toNat) * 4 := ⟨_, rfl⟩
  have d0 : (b0 >>> 2).toNat = n / 64 ^ 2 % 64 := by
    rw [toNat_shiftRight b0 (n := 2) rfl (by decide)]
    omega
  have d1 : (((b0 &&& 0x03) <<< 4) ||| (b1 >>> 4)).toNat = n / 64 ^ 1 % 64 := by
    rw [toNat_join b0 b1 (n := 2) (m := 4) (j := 4) rfl rfl rfl (by decide) (by decide)
      (by decide) rfl]
    omega
  have d2 : ((b1 &&& 0x0F) <<< 2).toNat = n / 64 ^ 0 % 64 := by
    rw [toNat_mask_shiftLeft b1 (n := 4) (m := 2) rfl rfl (by decide) (by decide)]
    omega
  rw [b64Char_digit d0, b64Char_digit d1, b64Char_digit d2]
  simp [Base64.Alphabet.group, Base64.Alphabet.symbols, Base64.sextets, ofBigEndian, hn,
    standard]

/-- The branch for one byte at the end; four zero bits fill the last digit. -/
theorem group_one
    (b0 : UInt8) :
    standard.group [b0] =
      [b64Char (b0 >>> 2), b64Char ((b0 &&& 0x03) <<< 4), 0x3D, 0x3D] := by
  have h0 := b0.toNat_lt
  obtain ⟨n, hn⟩ : ∃ n, n = b0.toNat * 16 := ⟨_, rfl⟩
  have d0 : (b0 >>> 2).toNat = n / 64 ^ 1 % 64 := by
    rw [toNat_shiftRight b0 (n := 2) rfl (by decide)]
    omega
  have d1 : ((b0 &&& 0x03) <<< 4).toNat = n / 64 ^ 0 % 64 := by
    rw [toNat_mask_shiftLeft b0 (n := 2) (m := 4) rfl rfl (by decide) (by decide)]
    omega
  rw [b64Char_digit d0, b64Char_digit d1]
  simp [Base64.Alphabet.group, Base64.Alphabet.symbols, Base64.sextets, ofBigEndian, hn,
    standard]

/-- `base64Encode` is the encoder of RFC 4648. -/
theorem base64Encode_eq
    (data : Bytes) :
    base64Encode data = standard.encode data := by
  induction data using base64Encode.induct with
  | case1 b0 b1 b2 data ih =>
      rw [base64Encode, ih, Base64.Alphabet.encode, group_three]
      rfl
  | case2 b0 b1 =>
      rw [base64Encode, Base64.Alphabet.encode, group_two]
  | case3 b0 =>
      rw [base64Encode, Base64.Alphabet.encode, group_one]
  | case4 =>
      rfl

/-- The text decodes to the data, has four symbols for each three bytes begun, and
consists of symbols of the alphabet with the pads behind them. -/
theorem base64Encode_round_trip
    (data : Bytes) :
    standard.decode (base64Encode data) = some data ∧
      (base64Encode data).length = 4 * ((data.length + 2) / 3) ∧
      ∃ front : Bytes,
        (∀ c ∈ front, c ∈ B64_ALPHABET) ∧
          base64Encode data = front ++ List.replicate ((3 - data.length % 3) % 3) 0x3D := by
  rw [base64Encode_eq, B64_ALPHABET_eq]
  exact ⟨Base64.Alphabet.decode_encode data, standard.length_encode data,
    standard.exists_encode_eq data⟩

/-- The decoder accepts a text only if the bits filled up are zero. -/
example :
    standard.decode (bytes "Zm9vYg==") = some (bytes "foob") ∧
      standard.decode (bytes "Zm9vYh==") = none := by
  decide +kernel

end Ws
end ChatRoom
