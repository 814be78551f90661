import ChatRoom.Lib.BigEndian
import ChatRoom.Lib.IteratedHash

/-!
# SHA-1

The hash function of FIPS 180-4 for messages that consist of bytes: the
functions and constants of section 4, the padding of section 5.1.1, the initial
value of section 5.3.1 and the computation of section 6.1.2.  It is an iterated
hash over blocks of 64 bytes.
-/

namespace ChatRoom
namespace Fips180

open BigEndian (toBigEndian ofBigEndian)

abbrev Word := BitVec 32

/-- The working variables, and the words of a hash value in their order. -/
structure Words where
  a : Word
  b : Word
  c : Word
  d : Word
  e : Word

def Ch (x y z : Word) : Word :=
  (x &&& y) ^^^ (~~~x &&& z)

def Parity (x y z : Word) : Word :=
  x ^^^ y ^^^ z

def Maj (x y z : Word) : Word :=
  (x &&& y) ^^^ (x &&& z) ^^^ (y &&& z)

/-- The function of step `t`, section 4.1.1. -/
def f (t : Nat) (x y z : Word) : Word :=
  if t < 20 then Ch x y z
  else if t < 40 then Parity x y z
  else if t < 60 then Maj x y z
  else Parity x y z

/-- The constant of step `t`, section 4.2.1. -/
def K (t : Nat) : Word :=
  if t < 20 then 0x5a827999#32
  else if t < 40 then 0x6ed9eba1#32
  else if t < 60 then 0x8f1bbcdc#32
  else 0xca62c1d6#32

/-- The word `t` of a block. -/
def messageWord (block : List UInt8) (t : Nat) : Word :=
  BitVec.ofNat 32 (ofBigEndian ((block.drop (4 * t)).take 4))

/-- The message schedule. -/
def schedule (block : List UInt8) (t : Nat) : Word :=
  if t < 16 then
    messageWord block t
  else
    (schedule block (t - 3) ^^^ schedule block (t - 8) ^^^ schedule block (t - 14) ^^^
      schedule block (t - 16)).rotateLeft 1

/-- Step `t` of the main loop. -/
def step (block : List UInt8) (s : Words) (t : Nat) : Words where
  a := s.a.rotateLeft 5 + f t s.b s.c s.d + s.e + K t + schedule block t
  b := s.a
  c := s.b.rotateLeft 30
  d := s.c
  e := s.d

/-- The next intermediate hash value. -/
def compress (h : Words) (block : List UInt8) : Words :=
  let s := (List.range 80).foldl (step block) h
  { a := s.a + h.a
    b := s.b + h.b
    c := s.c + h.c
    d := s.d + h.d
    e := s.e + h.e }

/-- The initial hash value. -/
def initial : Words where
  a := 0x67452301#32
  b := 0xefcdab89#32
  c := 0x98badcfe#32
  d := 0x10325476#32
  e := 0xc3d2e1f0#32

/-- A one bit, the fewest zero bits that leave eight bytes to the end of a block, and the
length of the message in bits in these eight bytes. -/
def padding (n : Nat) : List UInt8 :=
  0x80 :: List.replicate ((119 - n % 64) % 64) 0 ++ toBigEndian 8 (8 * n)

/-- SHA-1 as an iterated hash function. -/
def sha1Hash : IteratedHash Words UInt8 where
  blockSize := 64
  initial := initial
  compress := compress
  padding := padding
  blockSize_pos := by decide
  padding_fills n := by
    simp only [padding, List.length_append, List.length_cons, List.length_replicate,
      BigEndian.length_toBigEndian]
    omega

/-- The bytes of a hash value. -/
def digest (h : Words) : List UInt8 :=
  [h.a, h.b, h.c, h.d, h.e].flatMap fun w => toBigEndian 4 w.toNat

/-- The message digest of a byte string. -/
def sha1 (msg : List UInt8) : List UInt8 :=
  digest (sha1Hash.hash msg)

/-- A block has its sixteen words in front of the schedule. -/
theorem schedule_of_lt
    {block : List UInt8} {t : Nat} (ht : t < 16) :
    schedule block t = messageWord block t := by
  rw [schedule, if_pos ht]

theorem schedule_of_ge
    {block : List UInt8} {t : Nat} (ht : 16 ≤ t) :
    schedule block t =
      (schedule block (t - 3) ^^^ schedule block (t - 8) ^^^ schedule block (t - 14) ^^^
        schedule block (t - 16)).rotateLeft 1 := by
  rw [schedule, if_neg (by omega)]

end Fips180
end ChatRoom
