import ChatRoom.Common.Text
import Mathlib.Tactic

/-!
# The WebSocket handshake

`computeAcceptKey` of server/ws_handshake.cpp with the SHA-1 and the base64
encoder it is built on.
-/

namespace ChatRoom
namespace Ws

/-- `Sha1::h` -/
structure Sha1State where
  h0 : UInt32
  h1 : UInt32
  h2 : UInt32
  h3 : UInt32
  h4 : UInt32

/-- `Sha1`; `buf` holds the first `bufLen` bytes of the block to come. -/
structure Sha1 where
  h : Sha1State
  totalBits : UInt64
  buf : Bytes

/-- `rotl` -/
def rotl (x : UInt32) (n : UInt32) : UInt32 :=
  (x <<< n) ||| (x >>> (32 - n))

/-- The first sixteen words of the schedule, big-endian. -/
def blockWords (block : Bytes) : List UInt32 :=
  (List.range 16).map fun i =>
    ((block.getD (4 * i) 0).toUInt32 <<< 24) |||
      ((block.getD (4 * i + 1) 0).toUInt32 <<< 16) |||
      ((block.getD (4 * i + 2) 0).toUInt32 <<< 8) |||
      (block.getD (4 * i + 3) 0).toUInt32

/-- The expansion of the schedule; `w` has the last word first. -/
def expandWords : Nat → List UInt32 → List UInt32
  | 0, w => w
  | n + 1, w =>
      expandWords n
        (rotl (w.getD 2 0 ^^^ w.getD 7 0 ^^^ w.getD 13 0 ^^^ w.getD 15 0) 1 :: w)

/-- The function `f` and the constant `K` of round `t`. -/
def roundParameters (t : Nat) (b c d : UInt32) : UInt32 × UInt32 :=
  if t < 20 then ((b &&& c) ||| (~~~b &&& d), 0x5A827999)
  else if t < 40 then (b ^^^ c ^^^ d, 0x6ED9EBA1)
  else if t < 60 then ((b &&& c) ||| (b &&& d) ||| (c &&& d), 0x8F1BBCDC)
  else (b ^^^ c ^^^ d, 0xCA62C1D6)

/-- One round of the main loop. -/
def sha1Round (s : Sha1State) (t : Nat) (w : UInt32) : Sha1State :=
  let (f, k) := roundParameters t s.h1 s.h2 s.h3
  let temp := rotl s.h0 5 + f + s.h4 + k + w
  { h0 := temp, h1 := s.h0, h2 := rotl s.h1 30, h3 := s.h2, h4 := s.h3 }

/-- `Sha1::processBlock` -/
def processBlock (h : Sha1State) (block : Bytes) : Sha1State :=
  let w := (expandWords 64 (blockWords block).reverse).reverse
  let s := w.zipIdx.foldl (fun s wt => sha1Round s wt.2 wt.1) h
  { h0 := h.h0 + s.h0
    h1 := h.h1 + s.h1
    h2 := h.h2 + s.h2
    h3 := h.h3 + s.h3
    h4 := h.h4 + s.h4 }

/-- `Sha1::init` -/
def Sha1.init : Sha1 where
  h :=
    { h0 := 0x67452301
      h1 := 0xEFCDAB89
      h2 := 0x98BADCFE
      h3 := 0x10325476
      h4 := 0xC3D2E1F0 }
  totalBits := 0
  buf := []

/-- The loop of `update` over complete blocks; each turn takes 64 bytes, so the
length is enough `fuel`.  The result has the bytes that are left. -/
def updateBlocks : Nat → Sha1State → Bytes → Sha1State × Bytes
  | 0, h, data => (h, data)
  | fuel + 1, h, data =>
      if data.length ≥ 64 then
        updateBlocks fuel (processBlock h (data.take 64)) (data.drop 64)
      else
        (h, data)

/-- `Sha1::update` -/
def Sha1.update (s : Sha1) (data : Bytes) : Sha1 :=
  let totalBits := s.totalBits + UInt64.ofNat data.length * 8
  if s.buf.length > 0 ∧ data.length < 64 - s.buf.length then
    { s with totalBits := totalBits, buf := s.buf ++ data }
  else
    let need := if s.buf.length > 0 then 64 - s.buf.length else 0
    let h :=
      if s.buf.length > 0 then processBlock s.h (s.buf ++ data.take need) else s.h
    let (h, rest) := updateBlocks data.length h (data.drop need)
    { h := h, totalBits := totalBits, buf := rest }

/-- The four bytes of a word, big-endian. -/
def wordBytes (x : UInt32) : Bytes :=
  [(x >>> 24).toUInt8, (x >>> 16).toUInt8, (x >>> 8).toUInt8, x.toUInt8]

/-- `Sha1::final` -/
def Sha1.final (s : Sha1) : Bytes :=
  let buf := s.buf ++ [0x80]
  let (h, buf) :=
    if buf.length > 56 then
      (processBlock s.h (buf ++ List.replicate (64 - buf.length) 0), [])
    else
      (s.h, buf)
  let buf := buf ++ List.replicate (56 - buf.length) 0
  let lengthField := (List.range 8).map fun i => (s.totalBits >>> (56 - UInt64.ofNat i * 8)).toUInt8
  let h := processBlock h (buf ++ lengthField)
  wordBytes h.h0 ++ wordBytes h.h1 ++ wordBytes h.h2 ++ wordBytes h.h3 ++ wordBytes h.h4

/-- `B64_ALPHABET` -/
def B64_ALPHABET : Bytes :=
  bytes "ABCDEFGHIJKLMNOPQRSTUVWXYZabcdefghijklmnopqrstuvwxyz0123456789+/"

def b64Char (i : UInt8) : UInt8 :=
  B64_ALPHABET.getD i.toNat 0

/-- `base64Encode` -/
def base64Encode : Bytes → Bytes
  | b0 :: b1 :: b2 :: data =>
      b64Char (b0 >>> 2) ::
        b64Char (((b0 &&& 0x03) <<< 4) ||| (b1 >>> 4)) ::
        b64Char (((b1 &&& 0x0F) <<< 2) ||| (b2 >>> 6)) ::
        b64Char (b2 &&& 0x3F) :: base64Encode data
  | [b0, b1] =>
      [b64Char (b0 >>> 2), b64Char (((b0 &&& 0x03) <<< 4) ||| (b1 >>> 4)),
        b64Char ((b1 &&& 0x0F) <<< 2), 0x3D]
  | [b0] => [b64Char (b0 >>> 2), b64Char ((b0 &&& 0x03) <<< 4), 0x3D, 0x3D]
  | [] => []

/-- `MAGIC_GUID` -/
def MAGIC_GUID : Bytes :=
  bytes "258EAFA5-E914-47DA-95CA-C5AB0DC85B11"

/-- `computeAcceptKey` -/
def computeAcceptKey (clientKey : Bytes) : Bytes :=
  base64Encode ((Sha1.init.update (clientKey ++ MAGIC_GUID)).final)

/-- The example of RFC 6455, which the tests of the repository use. -/
example : computeAcceptKey (bytes "dGhlIHNhbXBsZSBub25jZQ==") =
    bytes "s3pPLMBiTxaQ9kYGzzhZRbK+xOo=" := by
  decide +kernel

end Ws
end ChatRoom
