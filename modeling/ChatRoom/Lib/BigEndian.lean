import Mathlib.Tactic

/-!
# Big-endian byte strings

The two maps between natural numbers and fixed-width big-endian byte strings,
and the fact that they are inverse to each other.  Network length fields of any
width are instances; nothing here knows which protocol uses them.

`toBigEndian k n` is the `k`-byte form of `n` (taken modulo `256 ^ k`), `ofBigEndian bs`
the number denoted by the bytes `bs`.
-/

namespace ChatRoom
namespace BigEndian

/-- The `k` low bytes of `n`, most significant byte first. -/
def toBigEndian : Nat → Nat → List UInt8
  | 0, _ => []
  | k + 1, n => UInt8.ofNat (n / 256 ^ k) :: toBigEndian k n

/-- The number denoted by a big-endian byte string. -/
def ofBigEndian (bs : List UInt8) : Nat :=
  bs.foldl (fun acc b => acc * 256 + b.toNat) 0

/-- Bits put behind bits that leave room for them are added. -/
theorem or_eq_add
    {a b k m : Nat} (ha : a = m * 2 ^ k) (hb : b < 2 ^ k) :
    a ||| b = m * 2 ^ k + b := by
  rw [ha, ← Nat.shiftLeft_eq]
  exact (Nat.shiftLeft_add_eq_or_of_lt hb m).symm

@[simp] theorem length_toBigEndian
    (k n : Nat) :
    (toBigEndian k n).length = k := by
  induction k with
  | zero =>
      rfl
  | succ k ih =>
      simp [toBigEndian, ih]

@[simp] theorem ofBigEndian_nil :
    ofBigEndian [] = 0 := by
  rfl

/-- A value already read is shifted by the width of what follows. -/
theorem foldl_byte_acc
    (bs : List UInt8) (acc : Nat) :
    bs.foldl (fun acc b => acc * 256 + b.toNat) acc =
      acc * 256 ^ bs.length + ofBigEndian bs := by
  induction bs generalizing acc with
  | nil =>
      simp
  | cons b bs ih =>
      have htail := ih (acc * 256 + b.toNat)
      have hhead := ih (0 * 256 + b.toNat)
      simp only [ofBigEndian, List.foldl_cons, List.length_cons] at *
      rw [htail, hhead]
      ring

theorem ofBigEndian_cons
    (b : UInt8) (bs : List UInt8) :
    ofBigEndian (b :: bs) = b.toNat * 256 ^ bs.length + ofBigEndian bs := by
  have h := foldl_byte_acc bs (0 * 256 + b.toNat)
  simpa [ofBigEndian] using h

/-- Reading back a number written in `k` bytes gives it modulo `256 ^ k`. -/
theorem ofBigEndian_toBigEndian
    (k n : Nat) :
    ofBigEndian (toBigEndian k n) = n % 256 ^ k := by
  induction k with
  | zero =>
      simp [toBigEndian, Nat.mod_one]
  | succ k ih =>
      rw [toBigEndian, ofBigEndian_cons, ih, length_toBigEndian]
      have hbyte : (UInt8.ofNat (n / 256 ^ k)).toNat = n / 256 ^ k % 256 := by
        simp
      rw [hbyte, pow_succ, Nat.mod_mul]
      ring

theorem ofBigEndian_toBigEndian_of_lt
    {k n : Nat} (h : n < 256 ^ k) :
    ofBigEndian (toBigEndian k n) = n := by
  rw [ofBigEndian_toBigEndian, Nat.mod_eq_of_lt h]

theorem ofBigEndian_lt
    (bs : List UInt8) :
    ofBigEndian bs < 256 ^ bs.length := by
  induction bs with
  | nil =>
      simp
  | cons b bs ih =>
      have hb := b.toNat_lt
      calc ofBigEndian (b :: bs)
          = b.toNat * 256 ^ bs.length + ofBigEndian bs := ofBigEndian_cons b bs
        _ < b.toNat * 256 ^ bs.length + 256 ^ bs.length := by omega
        _ = (b.toNat + 1) * 256 ^ bs.length := by ring
        _ ≤ 256 * 256 ^ bs.length := Nat.mul_le_mul_right _ hb
        _ = 256 ^ (b :: bs).length := by rw [List.length_cons, pow_succ, Nat.mul_comm]

/-- Multiples of `256 ^ k` do not show in `k` bytes. -/
theorem toBigEndian_add
    (k m n : Nat) :
    toBigEndian k (m * 256 ^ k + n) = toBigEndian k n := by
  induction k generalizing m with
  | zero =>
      rfl
  | succ k ih =>
      have hshift : m * 256 ^ (k + 1) + n = (m * 256) * 256 ^ k + n := by
        ring
      rw [toBigEndian, toBigEndian, hshift, ih, Nat.mul_comm (m * 256),
        Nat.mul_add_div (by positivity)]
      congr 1
      apply UInt8.toNat_inj.mp
      simp

/-- Only the number modulo `256 ^ k` shows in `k` bytes. -/
theorem toBigEndian_mod
    (k n : Nat) :
    toBigEndian k (n % 256 ^ k) = toBigEndian k n := by
  have h := toBigEndian_add k (n / 256 ^ k) (n % 256 ^ k)
  rw [Nat.div_add_mod'] at h
  exact h.symm

/-- A number read from a byte string is written back as that string. -/
theorem toBigEndian_ofBigEndian
    (bs : List UInt8) :
    toBigEndian bs.length (ofBigEndian bs) = bs := by
  induction bs with
  | nil =>
      rfl
  | cons b bs ih =>
      have htail := ofBigEndian_lt bs
      rw [List.length_cons, toBigEndian, ofBigEndian_cons, toBigEndian_add, ih, Nat.mul_comm,
        Nat.mul_add_div (by positivity), Nat.div_eq_of_lt htail]
      simp

end BigEndian
end ChatRoom
