import Mathlib.Data.List.DropRight
import Mathlib.Tactic

/-!
# Strings and exceptions of the C++ library

`std::string` is a byte string.  Where its bytes come from the network they are
arbitrary and the model uses `Bytes`; where they come out of the JSON parser
they are well-formed UTF-8 and the model uses `String`, whose bytes are
`bytes s`.

`Text` has the members of `std::string` and the number parsers that the server
uses, on `Bytes`: `find`, the trimming and lower-casing helpers of
server/http_request.cpp, `std::stoul` and `std::stoll`.

`Exn` are the exceptions that the code can let escape.  None of the reactor
callbacks is called under a handler, so an exception that leaves a callback ends
the server.
-/

namespace ChatRoom

/-- An exception in flight. -/
inductive Exn where
  /-- `nlohmann::json::type_error`, from `value` and `get` -/
  | typeError
  /-- `std::length_error`, from `vector::resize` -/
  | lengthError
  /-- `std::runtime_error`, from `Reactor::addFd` -/
  | runtimeError
deriving DecidableEq

abbrev Bytes := List UInt8

/-- The bytes of a text, in UTF-8. -/
def bytes (s : String) : Bytes :=
  s.toByteArray.data.toList

/-- Different texts have different bytes. -/
theorem bytes_injective :
    Function.Injective bytes := by
  intro s t h
  have hdata : s.toByteArray.data = t.toByteArray.data := Array.toList_inj.mp h
  have harray : s.toByteArray = t.toByteArray := by
    cases hs : s.toByteArray
    cases ht : t.toByteArray
    simp_all
  exact String.toByteArray_inj.mp harray

theorem bytes_append
    (s t : String) :
    bytes (s ++ t) = bytes s ++ bytes t := by
  simp [bytes, String.toByteArray_append]

namespace Text

/-- `s.find(pattern)`; `none` is `npos`. -/
def find (pattern : Bytes) : Bytes → Option Nat
  | [] => if pattern.isEmpty then some 0 else none
  | b :: s =>
      if pattern.isPrefixOf (b :: s) then
        some 0
      else
        (find pattern s).map (· + 1)

/-- `s.find(pattern, pos)` -/
def findFrom (pattern s : Bytes) (pos : Nat) : Option Nat :=
  (find pattern (s.drop pos)).map (· + pos)

/-- `s.find(pattern) != npos` -/
def contains (pattern s : Bytes) : Bool :=
  (find pattern s).isSome

/-- `s.find_last_of(c)` for a single character -/
def findLastOf (c : UInt8) (s : Bytes) : Option Nat :=
  (s.reverse.idxOf? c).map fun i => s.length - 1 - i

/-- `s.substr(pos, n)` for `pos` within the string -/
def substr (s : Bytes) (pos n : Nat) : Bytes :=
  (s.drop pos).take n

/-- `std::tolower` in the "C" locale -/
def tolower (c : UInt8) : UInt8 :=
  if 0x41 ≤ c ∧ c ≤ 0x5A then c + 0x20 else c

/-- `toLower` -/
def toLower (s : Bytes) : Bytes :=
  s.map tolower

/-- One of `" \t\r\n"`. -/
def isBlank (c : UInt8) : Bool :=
  c = 0x20 ∨ c = 0x09 ∨ c = 0x0D ∨ c = 0x0A

/-- `trim` -/
def trim (s : Bytes) : Bytes :=
  (s.dropWhile isBlank).rdropWhile isBlank

/-- `std::isspace` in the "C" locale -/
def isspace (c : UInt8) : Bool :=
  c = 0x20 ∨ 0x09 ≤ c ∧ c ≤ 0x0D

def isdigit (c : UInt8) : Bool :=
  0x30 ≤ c ∧ c ≤ 0x39

/-- The number a string of digits denotes. -/
def digitsValue (s : Bytes) : Nat :=
  s.foldl (fun n c => n * 10 + (c.toNat - 0x30)) 0

/-- What `strtoul` and `strtoll` look at: the sign, and the digits behind it;
`none` if there are no digits. -/
def signedDigits (s : Bytes) : Option (Bool × Nat) :=
  let s := s.dropWhile isspace
  let negative := s.head? = some 0x2D
  let s := if s.head? = some 0x2D ∨ s.head? = some 0x2B then s.tail else s
  let digits := s.takeWhile isdigit
  if digits.isEmpty then none else some (negative, digitsValue digits)

/-- `std::stoul`; `none` is an exception.  A minus sign negates modulo `2 ^ 64`. -/
def stoul (s : Bytes) : Option Nat :=
  match signedDigits s with
  | none => none
  | some (negative, n) =>
      if n ≥ 2 ^ 64 then none
      else some (if negative then (2 ^ 64 - n) % 2 ^ 64 else n)

/-- `std::stoll`; `none` is an exception. -/
def stoll (s : Bytes) : Option Int :=
  match signedDigits s with
  | none => none
  | some (negative, n) =>
      let z : Int := if negative then -n else n
      if z < -2 ^ 63 ∨ z ≥ 2 ^ 63 then none else some z

/-- The decimal digits of a number, as `operator<<` prints them. -/
def decimal (n : Nat) : Bytes :=
  bytes (toString n)

section Find

variable {c : UInt8} {pattern a : Bytes}

/-- The search goes on behind a byte at which the pattern does not begin. -/
theorem find_cons
    {pattern s : Bytes} {b : UInt8} (hno : pattern.isPrefixOf (b :: s) = false) :
    find pattern (b :: s) = (find pattern s).map (· + 1) := by
  rw [find, hno]
  rfl

/-- The search passes over bytes that are not the first one of the pattern. -/
theorem find_skip
    (ha : c ∉ a) (s : Bytes) :
    find (c :: pattern) (a ++ s) = (find (c :: pattern) s).map (· + a.length) := by
  induction a with
  | nil =>
      simp
  | cons b a ih =>
      have hb : c ≠ b := fun h => ha (by simp [h])
      have hrest := ih fun h => ha (List.mem_cons_of_mem b h)
      have hno : (c :: pattern).isPrefixOf (b :: (a ++ s)) = false := by
        simp [List.isPrefixOf, hb]
      rw [List.cons_append, find_cons hno, hrest]
      simp [Function.comp_def, Nat.add_assoc]

/-- The pattern itself is found where it begins. -/
theorem find_front
    (s : Bytes) :
    find (c :: pattern) (c :: pattern ++ s) = some 0 := by
  have hyes : (c :: pattern).isPrefixOf (c :: (pattern ++ s)) = true :=
    List.isPrefixOf_iff_prefix.mpr ⟨s, rfl⟩
  rw [List.cons_append, find, if_pos hyes]

/-- The first occurrence is behind bytes that cannot begin the pattern. -/
theorem find_behind
    (ha : c ∉ a) (s : Bytes) :
    find (c :: pattern) (a ++ (c :: pattern ++ s)) = some a.length := by
  rw [find_skip ha, find_front]
  simp

theorem find_eq_none
    (ha : c ∉ a) :
    find (c :: pattern) a = none := by
  have h : find (c :: pattern) (a ++ []) = (find (c :: pattern) []).map (· + a.length) :=
    find_skip ha []
  rwa [List.append_nil] at h

/-- An occurrence lies within the text. -/
theorem find_bounds
    {pattern s : Bytes} {i : Nat} (h : find pattern s = some i) :
    i + pattern.length ≤ s.length := by
  induction s generalizing i with
  | nil =>
      rw [find] at h
      split at h
      · next hempty =>
          cases h
          simp [List.isEmpty_iff.mp hempty]
      · cases h
  | cons b s ih =>
      rw [find] at h
      split at h
      · next hfront =>
          cases h
          simpa using (List.isPrefixOf_iff_prefix.mp hfront).length_le
      · obtain ⟨j, hj, rfl⟩ := Option.map_eq_some_iff.mp h
        have := ih hj
        rw [List.length_cons]
        omega

/-- A blank line takes four bytes. -/
theorem find_blank_bounds
    {s : Bytes} {i : Nat} (h : find (bytes "\r\n\r\n") s = some i) :
    i + 4 ≤ s.length := by
  have hlength : (bytes "\r\n\r\n").length = 4 := by
    decide
  rw [← hlength]
  exact find_bounds h

/-- The text is what is in front of an occurrence, the pattern, and what is behind it. -/
theorem find_split
    {pattern s : Bytes} {i : Nat} (h : find pattern s = some i) :
    s = s.take i ++ (pattern ++ s.drop (i + pattern.length)) := by
  induction s generalizing i with
  | nil =>
      rw [find] at h
      split at h
      · next hempty =>
          cases h
          simp [List.isEmpty_iff.mp hempty]
      · cases h
  | cons b s ih =>
      rw [find] at h
      split at h
      · next hfront =>
          cases h
          obtain ⟨rest, hrest⟩ := List.isPrefixOf_iff_prefix.mp hfront
          rw [← hrest]
          simp
      · obtain ⟨j, hj, rfl⟩ := Option.map_eq_some_iff.mp h
        have htail := ih hj
        rw [Nat.add_right_comm, List.take_succ_cons, List.drop_succ_cons, List.cons_append, ← htail]

/-- An occurrence is not in front of the first one. -/
theorem find_le
    {pattern s : Bytes} {j : Nat} (h : pattern <+: s.drop j) (hj : j ≤ s.length) :
    ∃ i ≤ j, find pattern s = some i := by
  induction s generalizing j with
  | nil =>
      obtain rfl : j = 0 := by simpa using hj
      obtain rfl : pattern = [] := List.prefix_nil.mp h
      exact ⟨0, le_rfl, rfl⟩
  | cons b s ih =>
      rw [find]
      by_cases hfront : pattern.isPrefixOf (b :: s) = true
      · exact ⟨0, Nat.zero_le j, by rw [if_pos hfront]⟩
      · cases j with
        | zero =>
            exact absurd (List.isPrefixOf_iff_prefix.mpr h) hfront
        | succ j =>
            obtain ⟨i, hi, hfind⟩ := ih h (by simpa using hj)
            exact ⟨i + 1, by omega, by rw [if_neg hfront, hfind]; rfl⟩

/-- A text has no blank, say, or it is split at the first one. -/
theorem find_singleton_cases
    (c : UInt8) (s : Bytes) :
    c ∉ s ∧ find [c] s = none ∨
      ∃ a b, s = a ++ c :: b ∧ c ∉ a ∧ find [c] s = some a.length := by
  by_cases hmem : c ∈ s
  · obtain ⟨a, b, rfl, ha⟩ := List.eq_append_cons_of_mem hmem
    exact .inr ⟨a, b, rfl, ha, find_behind ha b⟩
  · exact .inl ⟨hmem, find_eq_none hmem⟩

/-- The first occurrence stays the first one when more text follows. -/
theorem find_append
    {pattern s : Bytes} {i : Nat} (h : find pattern s = some i) (ys : Bytes) :
    find pattern (s ++ ys) = some i := by
  induction s generalizing i with
  | nil =>
      rw [find] at h
      split at h
      · next hempty =>
          cases h
          rw [List.isEmpty_iff.mp hempty]
          cases ys <;> rfl
      · cases h
  | cons b s ih =>
      have hlen := find_bounds h
      rw [find] at h
      rw [List.cons_append, find]
      split at h
      · next hfront =>
          cases h
          have hstart := List.isPrefixOf_iff_prefix.mp hfront
          have hlong : pattern <+: b :: (s ++ ys) := hstart.trans ⟨ys, rfl⟩
          rw [if_pos (List.isPrefixOf_iff_prefix.mpr hlong)]
      · next hfront =>
          obtain ⟨j, hj, rfl⟩ := Option.map_eq_some_iff.mp h
          have hshort : ¬ pattern.isPrefixOf (b :: (s ++ ys)) = true := by
            intro hlong
            apply hfront
            have hstart := List.isPrefixOf_iff_prefix.mp hlong
            have hself : b :: s <+: b :: (s ++ ys) := ⟨ys, rfl⟩
            exact List.isPrefixOf_iff_prefix.mpr
              (List.prefix_of_prefix_length_le hstart hself (by omega))
          rw [if_neg hshort, ih hj]
          rfl

end Find

section Split

/-- The parts of a text that is split at a byte do not contain the byte. -/
theorem not_mem_of_mem_splitOn
    {c : UInt8} {s part : Bytes} (h : part ∈ s.splitOn c) :
    c ∉ part := by
  induction s generalizing part with
  | nil =>
      rw [List.splitOn_nil, List.mem_singleton] at h
      rw [h]
      exact List.not_mem_nil
  | cons b s ih =>
      rw [List.splitOn_cons_eq_if_modifyHead] at h
      split at h
      · rcases List.mem_cons.mp h with rfl | hmem
        · exact List.not_mem_nil
        · exact ih hmem
      · next hb =>
          obtain ⟨first, rest, hsplit⟩ := List.exists_cons_of_ne_nil (List.splitOn_ne_nil c s)
          rw [hsplit, List.modifyHead_cons] at h
          rw [hsplit] at ih
          rcases List.mem_cons.mp h with rfl | hmem
          · rw [List.mem_cons]
            rintro (rfl | hfirst)
            · exact hb (beq_self_eq_true c)
            · exact ih List.mem_cons_self hfirst
          · exact ih (List.mem_cons_of_mem first hmem)

theorem infix_of_mem_intercalate
    {sep part : Bytes} {parts : List Bytes} (h : part ∈ parts) :
    part <:+: sep.intercalate parts := by
  induction parts with
  | nil =>
      cases h
  | cons first parts ih =>
      cases parts with
      | nil =>
          rw [List.mem_singleton] at h
          rw [h, List.intercalate_singleton]
      | cons second parts =>
          rw [List.intercalate_cons_cons]
          rcases List.mem_cons.mp h with rfl | hmem
          · rw [List.append_assoc]
            exact (List.prefix_append _ _).isInfix
          · exact (ih hmem).trans (List.suffix_append _ _).isInfix

/-- The parts of a text that is split occur in it. -/
theorem infix_of_mem_splitOn
    {c : UInt8} {s part : Bytes} (h : part ∈ s.splitOn c) :
    part <:+: s := by
  have hpart : part <:+: [c].intercalate (s.splitOn c) := infix_of_mem_intercalate h
  rwa [List.intercalate_splitOn] at hpart

/-- A pattern that occurs anywhere is found. -/
theorem contains_of_isInfix
    {pattern s : Bytes} (h : pattern <:+: s) :
    contains pattern s = true := by
  obtain ⟨front, back, rfl⟩ := h
  have hbehind : pattern <+: (front ++ pattern ++ back).drop front.length := by
    rw [List.append_assoc, List.drop_left]
    exact List.prefix_append _ _
  obtain ⟨i, -, hfind⟩ := find_le hbehind (by simp)
  exact Option.isSome_iff_exists.mpr ⟨i, hfind⟩

theorem findLastOf_eq_none
    {c : UInt8} {s : Bytes} :
    findLastOf c s = none ↔ c ∉ s := by
  simp [findLastOf]

end Split

section Trim

/-- There is nothing to trim off a text without blanks. -/
theorem trim_eq_self
    {s : Bytes} (hs : ∀ c ∈ s, isBlank c = false) :
    trim s = s := by
  have hfront : s.dropWhile isBlank = s := by
    rw [List.dropWhile_eq_self_iff]
    intro hpos
    simp [hs _ (List.getElem_mem hpos)]
  rw [trim, hfront, List.rdropWhile_eq_self_iff]
  intro hne
  simp [hs _ (List.getLast_mem hne)]

/-- A blank in front is trimmed off. -/
theorem trim_cons
    {c : UInt8} (hc : isBlank c = true) (s : Bytes) :
    trim (c :: s) = trim s := by
  rw [trim, List.dropWhile_cons, if_pos hc, trim]

end Trim

section Decimal

/-- The bytes of a text of ASCII characters. -/
theorem bytes_ofList
    {cs : List Char} (hascii : ∀ c ∈ cs, c.toNat ≤ 0x7F) :
    bytes (String.ofList cs) = cs.map fun c => UInt8.ofNat c.toNat := by
  have hflat : cs.flatMap String.utf8EncodeChar = cs.map fun c => UInt8.ofNat c.toNat := by
    induction cs with
    | nil =>
        rfl
    | cons c cs ih =>
        have hle : c.val.toNat ≤ 0x7F := hascii c (by simp)
        have hc : String.utf8EncodeChar c = [UInt8.ofNat c.toNat] := by
          rw [String.utf8EncodeChar, if_pos hle]
          rfl
        rw [List.flatMap_cons, hc, ih fun d hd => hascii d (List.mem_cons_of_mem c hd)]
        rfl
  rw [← hflat, bytes, String.toByteArray_ofList, List.utf8Encode]
  simp

theorem toNat_of_isDigit
    {c : Char} (hc : c.isDigit = true) :
    0x30 ≤ c.toNat ∧ c.toNat ≤ 0x39 := by
  rw [Char.isDigit, Bool.and_eq_true, decide_eq_true_eq, decide_eq_true_eq] at hc
  exact ⟨UInt32.le_iff_toNat_le.mp hc.1, UInt32.le_iff_toNat_le.mp hc.2⟩

theorem decimal_eq
    (n : Nat) :
    decimal n = (Nat.toDigits 10 n).map fun c => UInt8.ofNat c.toNat := by
  rw [decimal, Nat.toString_eq_ofList_toDigits, bytes_ofList]
  intro c hc
  have := toNat_of_isDigit (Nat.isDigit_of_mem_toDigits (by decide) (by decide) hc)
  omega

theorem toNat_of_isdigit
    {c : UInt8} (hc : isdigit c = true) :
    0x30 ≤ c.toNat ∧ c.toNat ≤ 0x39 := by
  simpa [isdigit, UInt8.le_iff_toNat_le] using hc

theorem isdigit_of_mem_decimal
    {n : Nat} {c : UInt8} (hc : c ∈ decimal n) :
    isdigit c = true := by
  rw [decimal_eq, List.mem_map] at hc
  obtain ⟨d, hd, rfl⟩ := hc
  have hrange := toNat_of_isDigit (Nat.isDigit_of_mem_toDigits (by decide) (by decide) hd)
  have hbyte : (UInt8.ofNat d.toNat).toNat = d.toNat := by
    rw [UInt8.toNat_ofNat']
    exact Nat.mod_eq_of_lt (by omega)
  simpa [isdigit, UInt8.le_iff_toNat_le, hbyte] using hrange

/-- Reading the decimal digits of a number gives the number. -/
theorem digitsValue_decimal
    (n : Nat) :
    digitsValue (decimal n) = n := by
  have hdigits : ∀ c ∈ Nat.toDigits 10 n, (UInt8.ofNat c.toNat).toNat = c.toNat := by
    intro c hc
    have := toNat_of_isDigit (Nat.isDigit_of_mem_toDigits (by decide) (by decide) hc)
    rw [UInt8.toNat_ofNat']
    exact Nat.mod_eq_of_lt (by omega)
  calc digitsValue (decimal n)
      = (Nat.toDigits 10 n).foldl
          (fun sofar c => 10 * sofar + (c.toNat - '0'.toNat)) 0 := by
        rw [decimal_eq, digitsValue, List.foldl_map]
        apply List.foldl_ext
        intro sofar c hc
        rw [hdigits c hc, Nat.mul_comm]
        rfl
    _ = n := Nat.ofDigitChars_ten_toDigits

/-- The value of a string of digits is read back if it is a `size_t`. -/
theorem stoul_of_digits
    {s : Bytes} (hne : s ≠ []) (hall : ∀ c ∈ s, isdigit c = true)
    (hsize : digitsValue s < 2 ^ 64) :
    stoul s = some (digitsValue s) := by
  obtain ⟨d, ds, rfl⟩ := List.exists_cons_of_ne_nil hne
  have hd := toNat_of_isdigit (hall d (by simp))
  have hplain : isspace d = false ∧ d ≠ 0x2D ∧ d ≠ 0x2B := by
    refine ⟨?_, ?_, ?_⟩
    · simp only [isspace, decide_eq_false_iff_not, UInt8.le_iff_toNat_le]
      rintro (rfl | h)
      · exact absurd hd.1 (by decide)
      · have hhigh : (0x0D : UInt8).toNat = 13 := by rfl
        omega
    · rintro rfl
      exact absurd hd.1 (by decide)
    · rintro rfl
      exact absurd hd.1 (by decide)
  have hsigned : signedDigits (d :: ds) = some (false, digitsValue (d :: ds)) := by
    have htake : (d :: ds).takeWhile isdigit = d :: ds :=
      List.takeWhile_eq_self_iff.mpr hall
    simp [signedDigits, hplain.1, hplain.2.1, hplain.2.2, htake]
  rw [stoul, hsigned]
  simp
  omega

/-- What `stoul` returns is a `size_t`. -/
theorem stoul_lt
    {s : Bytes} {n : Nat} (h : stoul s = some n) :
    n < 2 ^ 64 := by
  unfold stoul at h
  split at h
  · cases h
  · next negative m hsigned =>
      split at h
      · cases h
      · cases h
        split
        · exact Nat.mod_lt _ (by decide)
        · omega

theorem stoul_decimal
    {n : Nat} (hn : n < 2 ^ 64) :
    stoul (decimal n) = some n := by
  have hvalue := digitsValue_decimal n
  have hne : decimal n ≠ [] := by
    rw [decimal_eq, ne_eq, List.map_eq_nil_iff]
    exact Nat.toDigits_ne_nil
  have hread := stoul_of_digits hne (fun c hc => isdigit_of_mem_decimal hc) (by rwa [hvalue])
  rwa [hvalue] at hread

end Decimal

end Text
end ChatRoom
