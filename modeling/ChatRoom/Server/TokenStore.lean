import ChatRoom.Common.Text
import Mathlib.Data.List.AList

/-!
# Tokens

`TokenStore` (server/token_store.h, server/token_store.cpp).  A token is the
text of a 64-bit counter: a fixed prefix and sixteen hexadecimal digits.  As long
as the counter does not wrap, no token is issued twice.
-/

namespace ChatRoom

/-- The table `hex` of `makeToken`. -/
def hex : List Char :=
  ['0', '1', '2', '3', '4', '5', '6', '7', '8', '9', 'a', 'b', 'c', 'd', 'e', 'f']

/-- The characters that the loop of `makeToken` appends for `i` from `k - 1` down
to `0`. -/
def tokenDigits (n : UInt64) : Nat → List Char
  | 0 => []
  | i + 1 => hex.getD ((n >>> (UInt64.ofNat i * 4)) &&& 0xF).toNat '0' :: tokenDigits n i

/-- `makeToken` -/
def makeToken (n : UInt64) : String :=
  "tok_" ++ String.ofList (tokenDigits n 16)

/-- `TokenStore` -/
structure TokenStore where
  tok2user : AList fun _ : Bytes => String
  counter : UInt64

namespace TokenStore

def new : TokenStore where
  tok2user := ∅
  counter := 0

/-- `TokenStore::issue` -/
def issue (s : TokenStore) (username : String) : String × TokenStore :=
  let counter := s.counter + 1
  let tok := makeToken counter
  (tok, { tok2user := s.tok2user.insert (bytes tok) username, counter := counter })

/-- `TokenStore::lookup`; the empty string if there is no such token. -/
def lookup (s : TokenStore) (token : Bytes) : String :=
  (s.tok2user.lookup token).getD ""

/-- `TokenStore::revoke` -/
def revoke (s : TokenStore) (token : Bytes) : TokenStore :=
  { s with tok2user := s.tok2user.erase token }

end TokenStore

section Injectivity

/-- Distinct nibbles have distinct digits. -/
theorem hex_injective :
    ∀ a < 16, ∀ b < 16, hex.getD a '0' = hex.getD b '0' → a = b := by
  decide

/-- Bits `4 * i` to `4 * i + 3` of a counter. -/
def nibble (n : UInt64) (i : Nat) : Nat :=
  n.toNat / 16 ^ i % 16

theorem toNat_nibble
    (n : UInt64) {i : Nat} (hi : i < 16) :
    ((n >>> (UInt64.ofNat i * 4)) &&& 0xF).toNat = nibble n i := by
  have hshift : (UInt64.ofNat i * 4).toNat = i * 4 := by
    simp [UInt64.toNat_mul]
    omega
  have hmask : (0xF : UInt64).toNat = 2 ^ 4 - 1 := by
    decide
  have hsmall : i * 4 % 64 = 4 * i := by
    omega
  rw [UInt64.toNat_and, UInt64.toNat_shiftRight, hshift, hsmall, hmask,
    Nat.and_two_pow_sub_one_eq_mod, Nat.shiftRight_eq_div_pow, pow_mul]
  rfl

/-- The digits determine the lower bits of the counter. -/
theorem tokenDigits_mod
    {m n : UInt64} {k : Nat} (hk : k ≤ 16) (h : tokenDigits m k = tokenDigits n k) :
    m.toNat % 16 ^ k = n.toNat % 16 ^ k := by
  induction k with
  | zero =>
      simp [Nat.mod_one]
  | succ i ih =>
      rw [tokenDigits, tokenDigits, List.cons.injEq, toNat_nibble m (by omega),
        toNat_nibble n (by omega)] at h
      obtain ⟨hdigit, hrest⟩ := h
      have hnibble : nibble m i = nibble n i :=
        hex_injective _ (Nat.mod_lt _ (by decide)) _ (Nat.mod_lt _ (by decide)) hdigit
      have hlow := ih (by omega) hrest
      rw [Nat.mod_pow_succ, Nat.mod_pow_succ, hlow]
      unfold nibble at hnibble
      rw [hnibble]

/-- Different counters have different tokens. -/
theorem makeToken_injective :
    Function.Injective makeToken := by
  intro m n h
  have hdigits : tokenDigits m 16 = tokenDigits n 16 := by
    have hlist := congrArg String.toList h
    simpa [makeToken] using hlist
  have hmod := tokenDigits_mod (le_refl 16) hdigits
  have hm := m.toNat_lt
  have hn := n.toNat_lt
  apply UInt64.toNat_inj.mp
  omega

end Injectivity

end ChatRoom
