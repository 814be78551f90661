import ChatRoom.Lib.BigEndian

/-!
# Base 64

The encoding of RFC 4648, section 4, over any alphabet of 64 symbols and a pad.
Three bytes are read as one big-endian number and written as four digits of
base 64; one or two bytes that are left at the end are filled up with zero bits
to a whole number of digits, and the four symbols are completed with pads.

The decoder is the strict one: the length is a multiple of four, pads stand
only at the end, and the bits that were filled up are zero.  Decoding inverts
encoding (`decode_encode`).
-/

namespace ChatRoom
namespace Base64

universe u

open BigEndian (toBigEndian ofBigEndian)

/-- The `k` low digits of `n` in base 64, most significant digit first. -/
def sextets : Nat → Nat → List Nat
  | 0, _ => []
  | k + 1, n => n / 64 ^ k % 64 :: sextets k n

/-- The number denoted by digits of base 64. -/
def ofSextets : List Nat → Nat
  | [] => 0
  | v :: vs => v * 64 ^ vs.length + ofSextets vs

@[simp] theorem length_sextets
    (k n : Nat) :
    (sextets k n).length = k := by
  induction k with
  | zero =>
      rfl
  | succ k ih =>
      simp [sextets, ih]

theorem lt_of_mem_sextets
    {k n v : Nat} (hv : v ∈ sextets k n) :
    v < 64 := by
  induction k with
  | zero =>
      simp [sextets] at hv
  | succ k ih =>
      rcases List.mem_cons.mp hv with rfl | hv
      · exact Nat.mod_lt _ (by decide)
      · exact ih hv

/-- Reading back a number written with `k` digits gives it modulo `64 ^ k`. -/
theorem ofSextets_sextets
    (k n : Nat) :
    ofSextets (sextets k n) = n % 64 ^ k := by
  induction k with
  | zero =>
      simp [sextets, ofSextets, Nat.mod_one]
  | succ k ih =>
      rw [sextets, ofSextets, ih, length_sextets, pow_succ, Nat.mod_mul]
      ring

/-- An alphabet: a symbol for each value of six bits, and the pad. -/
structure Alphabet (χ : Type u) where
  digits : List χ
  pad : χ
  length_digits : digits.length = 64
  nodup_digits : digits.Nodup
  pad_not_mem : pad ∉ digits

namespace Alphabet

variable {χ : Type u} (a : Alphabet χ)

/-- The symbol of a value of six bits. -/
def digit (v : Nat) : χ :=
  a.digits.get ⟨v % 64, by rw [a.length_digits]; exact Nat.mod_lt _ (by decide)⟩

/-- The digits of a group of at most three bytes, filled up with zero bits. -/
def symbols (bs : List UInt8) : List χ :=
  (sextets (bs.length + 1) (ofBigEndian bs * 4 ^ (3 - bs.length))).map a.digit

/-- The four symbols of a group of one to three bytes. -/
def group (bs : List UInt8) : List χ :=
  a.symbols bs ++ List.replicate (3 - bs.length) a.pad

/-- The encoder. -/
def encode : List UInt8 → List χ
  | [] => []
  | [b0] => a.group [b0]
  | [b0, b1] => a.group [b0, b1]
  | b0 :: b1 :: b2 :: bs => a.group [b0, b1, b2] ++ encode bs

@[simp] theorem length_symbols
    (bs : List UInt8) :
    (a.symbols bs).length = bs.length + 1 := by
  simp [symbols]

theorem length_group
    (bs : List UInt8) (hbs : bs.length ≤ 3) :
    (a.group bs).length = 4 := by
  rw [group, List.length_append, length_symbols, List.length_replicate]
  omega

theorem digit_mem
    (v : Nat) :
    a.digit v ∈ a.digits :=
  List.get_mem _ _

/-- A digit is not a pad. -/
theorem digit_ne_pad
    (v : Nat) :
    a.digit v ≠ a.pad := by
  intro h
  exact a.pad_not_mem (h ▸ a.digit_mem v)

theorem mem_digits_of_mem_symbols
    {bs : List UInt8} {c : χ} (hc : c ∈ a.symbols bs) :
    c ∈ a.digits := by
  obtain ⟨v, -, rfl⟩ := List.mem_map.mp hc
  exact a.digit_mem v

/-- Each three bytes take four symbols, and so does what is left at the end. -/
theorem length_encode
    (bs : List UInt8) :
    (a.encode bs).length = 4 * ((bs.length + 2) / 3) := by
  induction bs using encode.induct with
  | case1 =>
      rfl
  | case2 b0 =>
      rw [encode, a.length_group [b0] (by simp)]
      simp
  | case3 b0 b1 =>
      rw [encode, a.length_group [b0, b1] (by simp)]
      simp
  | case4 b0 b1 b2 bs ih =>
      rw [encode, List.length_append, a.length_group [b0, b1, b2] (by simp), ih]
      simp only [List.length_cons]
      omega

/-- Digits, and behind them as many pads as bytes are missing in the last group. -/
theorem exists_encode_eq
    (bs : List UInt8) :
    ∃ front : List χ,
      (∀ c ∈ front, c ∈ a.digits) ∧
        a.encode bs = front ++ List.replicate ((3 - bs.length % 3) % 3) a.pad := by
  induction bs using encode.induct with
  | case1 =>
      exact ⟨[], by simp, rfl⟩
  | case2 b0 =>
      exact ⟨a.symbols [b0], fun c hc => a.mem_digits_of_mem_symbols hc, rfl⟩
  | case3 b0 b1 =>
      exact ⟨a.symbols [b0, b1], fun c hc => a.mem_digits_of_mem_symbols hc, rfl⟩
  | case4 b0 b1 b2 bs ih =>
      obtain ⟨front, hfront, heq⟩ := ih
      refine ⟨a.symbols [b0, b1, b2] ++ front, ?_, ?_⟩
      · intro c hc
        rcases List.mem_append.mp hc with hc | hc
        · exact a.mem_digits_of_mem_symbols hc
        · exact hfront c hc
      · have hlen : (b0 :: b1 :: b2 :: bs).length % 3 = bs.length % 3 := by
          simp only [List.length_cons]
          omega
        rw [encode, heq, hlen, group]
        simp

section Decode

variable [DecidableEq χ]

/-- The value of a symbol that is a digit. -/
def value? (c : χ) : Option Nat :=
  if c ∈ a.digits then some (a.digits.idxOf c) else none

/-- The bytes of the digits of one group; the bits filled up must be zero. -/
def ungroup (cs : List χ) : Option (List UInt8) := do
  let vs ← cs.mapM a.value?
  let n := ofSextets vs
  if n % 4 ^ (4 - vs.length) = 0 then
    some (toBigEndian (vs.length - 1) (n / 4 ^ (4 - vs.length)))
  else
    none

/-- Four symbols without the pads at their end, of which there are two at most. -/
def unpad (c0 c1 c2 c3 : χ) : List χ :=
  if c3 = a.pad then
    if c2 = a.pad then [c0, c1] else [c0, c1, c2]
  else
    [c0, c1, c2, c3]

/-- The decoder. -/
def decode : List χ → Option (List UInt8)
  | [] => some []
  | c0 :: c1 :: c2 :: c3 :: cs =>
      if cs.isEmpty then
        a.ungroup (a.unpad c0 c1 c2 c3)
      else do
        let front ← a.ungroup [c0, c1, c2, c3]
        let rest ← decode cs
        return front ++ rest
  | _ => none

variable {a}

theorem value?_digit
    {v : Nat} (hv : v < 64) :
    a.value? (a.digit v) = some v := by
  have hindex : a.digits.idxOf (a.digit v) = v % 64 :=
    a.nodup_digits.idxOf_getElem _ _
  rw [value?, if_pos (a.digit_mem v), hindex, Nat.mod_eq_of_lt hv]

theorem mapM_value?
    {vs : List Nat} (hvs : ∀ v ∈ vs, v < 64) :
    (vs.map a.digit).mapM a.value? = some vs := by
  induction vs with
  | nil =>
      rfl
  | cons v vs ih =>
      have hhead := value?_digit (a := a) (hvs v (by simp))
      have htail := ih (fun w hw => hvs w (List.mem_cons_of_mem v hw))
      simp [hhead, htail]

/-- A group is read back from its digits. -/
theorem ungroup_symbols
    {bs : List UInt8} (hbs : bs.length ≤ 3) :
    a.ungroup (a.symbols bs) = some bs := by
  have hvalues :
      (a.symbols bs).mapM a.value? =
        some (sextets (bs.length + 1) (ofBigEndian bs * 4 ^ (3 - bs.length))) :=
    mapM_value? (fun v hv => lt_of_mem_sextets hv)
  have hbound : ofBigEndian bs * 4 ^ (3 - bs.length) < 64 ^ (bs.length + 1) := by
    calc ofBigEndian bs * 4 ^ (3 - bs.length)
        < 256 ^ bs.length * 4 ^ (3 - bs.length) :=
          Nat.mul_lt_mul_of_pos_right (BigEndian.ofBigEndian_lt bs) (by positivity)
      _ = 4 ^ (4 * bs.length + (3 - bs.length)) := by
          rw [pow_add, pow_mul]
          norm_num
      _ = 4 ^ (3 * (bs.length + 1)) := by
          congr 1
          omega
      _ = 64 ^ (bs.length + 1) := by
          rw [pow_mul]
          norm_num
  have hfill : 4 - (bs.length + 1) = 3 - bs.length := by
    omega
  simp only [ungroup, hvalues, Option.bind_eq_bind, Option.bind_some, length_sextets,
    ofSextets_sextets, Nat.mod_eq_of_lt hbound, hfill, Nat.mul_mod_left, if_true,
    Nat.mul_div_cancel _ (show 0 < 4 ^ (3 - bs.length) by positivity),
    Nat.add_sub_cancel, BigEndian.toBigEndian_ofBigEndian]

/-- A last group is read back. -/
theorem decode_group
    (bs : List UInt8) (hpos : 0 < bs.length) (hle : bs.length ≤ 3) :
    a.decode (a.group bs) = some bs := by
  rw [← ungroup_symbols (a := a) hle]
  match bs, hpos, hle with
  | [b0], _, _ =>
      show a.decode [_, _, a.pad, a.pad] = a.ungroup [_, _]
      rw [decode, List.isEmpty_nil, if_pos rfl, unpad, if_pos rfl, if_pos rfl]
  | [b0, b1], _, _ =>
      show a.decode [_, _, a.digit _, a.pad] = a.ungroup [_, _, a.digit _]
      rw [decode, List.isEmpty_nil, if_pos rfl, unpad, if_pos rfl, if_neg (a.digit_ne_pad _)]
  | [b0, b1, b2], _, _ =>
      show a.decode [_, _, _, a.digit _] = a.ungroup [_, _, _, a.digit _]
      rw [decode, List.isEmpty_nil, if_pos rfl, unpad, if_neg (a.digit_ne_pad _)]

/-- A whole group is read back in front of what decodes. -/
theorem decode_group_append
    (b0 b1 b2 : UInt8) {cs : List χ} {bs : List UInt8} (hcs : a.decode cs = some bs) :
    a.decode (a.group [b0, b1, b2] ++ cs) = some (b0 :: b1 :: b2 :: bs) := by
  cases cs with
  | nil =>
      rw [decode, Option.some.injEq] at hcs
      rw [List.append_nil, ← hcs]
      exact decode_group [b0, b1, b2] (by simp) (by simp)
  | cons c cs =>
      have hfront : a.ungroup (a.symbols [b0, b1, b2]) = some [b0, b1, b2] :=
        ungroup_symbols (by simp)
      show a.decode (_ :: _ :: _ :: _ :: c :: cs) = _
      rw [decode, hcs]
      exact congrArg (· >>= fun front => some (front ++ bs)) hfront

/-- Decoding inverts encoding. -/
theorem decode_encode
    (bs : List UInt8) :
    a.decode (a.encode bs) = some bs := by
  induction bs using encode.induct with
  | case1 =>
      rfl
  | case2 b0 =>
      exact decode_group [b0] (by simp) (by simp)
  | case3 b0 b1 =>
      exact decode_group [b0, b1] (by simp) (by simp)
  | case4 b0 b1 b2 bs ih =>
      rw [encode]
      exact decode_group_append b0 b1 b2 ih

end Decode

end Alphabet

/-- The alphabet of RFC 4648, table 1: `A`-`Z`, `a`-`z`, `0`-`9`, `+`, `/`, and `=`. -/
def standard : Alphabet UInt8 where
  digits :=
    (List.range 26).map (fun i => UInt8.ofNat (0x41 + i)) ++
      (List.range 26).map (fun i => UInt8.ofNat (0x61 + i)) ++
      (List.range 10).map (fun i => UInt8.ofNat (0x30 + i)) ++ [0x2B, 0x2F]
  pad := 0x3D
  length_digits := by rfl
  nodup_digits := by decide +kernel
  pad_not_mem := by decide +kernel

end Base64
end ChatRoom
