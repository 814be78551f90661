import ChatRoom.Common.Text

/-!
# JSON documents

What the program uses of `nlohmann::json`.  Reading a document from its text
and writing it out are the library's own work and parameters of the model
(`JsonLib`); looking into a document, which is where the library throws, is
defined here.

The strings of a document are texts: the parser rejects whatever is not
well-formed UTF-8, so `dump` has nothing to complain about in a document built
from parsed strings and from the literals of the program.
-/

namespace ChatRoom

/-- `nlohmann::json` -/
inductive Json where
  | null
  | bool (b : Bool)
  | int (n : Int)
  /-- a number with a fraction or an exponent, by its bits -/
  | float (bits : UInt64)
  | str (s : String)
  | arr (elems : List Json)
  /-- the members of an object, by their keys -/
  | obj (members : List (String × Json))

/-- `json::parse`, where `none` is a `parse_error`, and `json::dump`. -/
structure JsonLib where
  parse : Bytes → Option Json
  dump : Json → Bytes

namespace Json

/-- `get<std::string>()` -/
def getString : Json → Except Exn String
  | .str s => .ok s
  | _ => .error .typeError

/-- `contains(key)` -/
def contains (key : String) : Json → Bool
  | .obj members => (members.lookup key).isSome
  | _ => false

/-- `value(key, default)` for a default that is a string. -/
def value (j : Json) (key default : String) : Except Exn String :=
  match j with
  | .obj members =>
      match members.lookup key with
      | some member => member.getString
      | none => .ok default
  | _ => .error .typeError

/-- The document is an object whose member `key`, if there is one, is a string. -/
def TextMember (j : Json) (key : String) : Prop :=
  ∃ members, j = .obj members ∧
    ∀ member, members.lookup key = some member → ∃ s, member = .str s

theorem getString_eq_ok
    {j : Json} {s : String} :
    j.getString = .ok s ↔ j = .str s := by
  cases j <;> simp [getString]

/-- `value` returns exactly for the documents with a text under the key. -/
theorem value_returns_iff
    (default : String) {j : Json} {key : String} :
    (∃ s, j.value key default = .ok s) ↔ j.TextMember key := by
  cases j with
  | obj members =>
      rw [value]
      cases hmember : members.lookup key with
      | none =>
          simp [TextMember, hmember]
      | some member =>
          simp [TextMember, hmember, getString_eq_ok]
  | null | bool | int | float | str | arr =>
      simp [value, TextMember]

section Dump

/-- A byte of a string as `dump` writes it. -/
def escape (b : UInt8) : Bytes :=
  if b = 0x22 then bytes "\\\""
  else if b = 0x5c then bytes "\\\\"
  else if b = 0x08 then bytes "\\b"
  else if b = 0x0c then bytes "\\f"
  else if b = 0x0a then bytes "\\n"
  else if b = 0x0d then bytes "\\r"
  else if b = 0x09 then bytes "\\t"
  else if b < 0x10 then bytes "\\u000" ++ bytes (String.ofList (Nat.toDigits 16 b.toNat))
  else if b < 0x20 then bytes "\\u00" ++ bytes (String.ofList (Nat.toDigits 16 b.toNat))
  else [b]

def dumpString (s : String) : Bytes :=
  bytes "\"" ++ (bytes s).flatMap escape ++ bytes "\""

mutual

/-- What `dump` writes for a document without numbers that have a fraction. -/
def dump : Json → Bytes
  | .null => bytes "null"
  | .bool true => bytes "true"
  | .bool false => bytes "false"
  | .int n => bytes (toString n)
  | .float _ => bytes "null"
  | .str s => dumpString s
  | .arr elems => bytes "[" ++ dumpElems elems ++ bytes "]"
  | .obj members => bytes "\x7b" ++ dumpMembers members ++ bytes "\x7d"

def dumpElems : List Json → Bytes
  | [] => []
  | [j] => dump j
  | j :: elems => dump j ++ bytes "," ++ dumpElems elems

def dumpMembers : List (String × Json) → Bytes
  | [] => []
  | [(key, j)] => dumpString key ++ bytes ":" ++ dump j
  | (key, j) :: members =>
      dumpString key ++ bytes ":" ++ dump j ++ bytes "," ++ dumpMembers members

end

end Dump

section DumpedLength

/-- The number of bytes that `dump` writes for a string: its bytes, escaped, between
quotation marks. -/
def dumpedLength (s : String) : Nat :=
  ((bytes s).map fun b => (escape b).length).sum + 2

/-- The number of bytes that `dump` writes for an integer. -/
def digitsLength (n : Int) : Nat :=
  (bytes (toString n)).length

/-- Documents that the server writes as the members of an object: neither objects
nor numbers with a fraction. -/
def Plain : Json → Prop
  | .bool _ => True
  | .int _ => True
  | .str _ => True
  | .arr elems => ∀ elem ∈ elems, ∃ s, elem = .str s
  | _ => False

/-- Objects with such members only. -/
def Flat : Json → Prop
  | .obj members => ∀ member ∈ members, member.2.Plain
  | _ => False

theorem length_dumpString
    (s : String) :
    (dumpString s).length = dumpedLength s := by
  have hquote : (bytes "\"").length = 1 := rfl
  simp only [dumpString, List.length_append, List.length_flatMap, hquote, dumpedLength]
  omega

theorem length_escape_pos
    (b : UInt8) :
    1 ≤ (escape b).length := by
  have hfront : ∀ front back : Bytes, 1 ≤ front.length → 1 ≤ (front ++ back).length := by
    intro front back h
    rw [List.length_append]
    exact Nat.le_add_right_of_le h
  unfold escape
  split_ifs
  all_goals
    first
    | decide
    | exact le_rfl
    | exact hfront (bytes "\\u000") _ (by decide)
    | exact hfront (bytes "\\u00") _ (by decide)

/-- What is written for a string is longer than the string. -/
theorem length_bytes_lt_dumpedLength
    (s : String) :
    (bytes s).length < dumpedLength s := by
  have hsum : ∀ bs : Bytes, bs.length ≤ (bs.map fun b => (escape b).length).sum := by
    intro bs
    induction bs with
    | nil =>
        rfl
    | cons b bs ih =>
        have := length_escape_pos b
        simp only [List.length_cons, List.map_cons, List.sum_cons]
        omega
  have := hsum (bytes s)
  rw [dumpedLength]
  omega

/-- Letters are written as they are. -/
theorem dumpedLength_of_unescaped
    {s : String} (hs : ∀ b ∈ bytes s, escape b = [b]) :
    dumpedLength s = (bytes s).length + 2 := by
  have hone : (bytes s).map (fun b => (escape b).length) = (bytes s).map fun _ => 1 := by
    apply List.map_congr_left
    intro b hb
    rw [hs b hb]
    rfl
  rw [dumpedLength, hone]
  simp

/-- Elements are written with commas between them. -/
theorem length_dumpElems
    (elems : List Json) :
    (dumpElems elems).length =
      (elems.map fun elem => (dump elem).length).sum + (elems.length - 1) := by
  induction elems with
  | nil =>
      rfl
  | cons elem elems ih =>
      cases elems with
      | nil =>
          simp [dumpElems]
      | cons elem' elems =>
          have hcomma : (bytes ",").length = 1 := rfl
          rw [dumpElems, List.length_append, List.length_append, ih, hcomma]
          · simp only [List.map_cons, List.sum_cons, List.length_cons]
            omega
          · simp

/-- Members are written with commas between them, each with its key and a colon. -/
theorem length_dumpMembers
    (members : List (String × Json)) :
    (dumpMembers members).length =
      (members.map fun member => dumpedLength member.1 + 1 + (dump member.2).length).sum +
        (members.length - 1) := by
  induction members with
  | nil =>
      rfl
  | cons member members ih =>
      have hcolon : (bytes ":").length = 1 := rfl
      cases members with
      | nil =>
          simp [dumpMembers, length_dumpString, hcolon, Nat.add_assoc]
      | cons member' members =>
          have hcomma : (bytes ",").length = 1 := rfl
          rw [dumpMembers, List.length_append, List.length_append, List.length_append,
            List.length_append, ih, length_dumpString, hcolon, hcomma]
          · simp only [List.map_cons, List.sum_cons, List.length_cons]
            omega
          · simp

theorem length_dump_obj
    (members : List (String × Json)) :
    (dump (.obj members)).length =
      (members.map fun member => dumpedLength member.1 + 1 + (dump member.2).length).sum +
        (members.length - 1) + 2 := by
  have hopen : (bytes "\x7b").length = 1 := rfl
  have hclose : (bytes "\x7d").length = 1 := rfl
  rw [dump, List.length_append, List.length_append, length_dumpMembers, hopen, hclose]
  omega

theorem length_dump_arr
    (elems : List Json) :
    (dump (.arr elems)).length =
      (elems.map fun elem => (dump elem).length).sum + (elems.length - 1) + 2 := by
  have hopen : (bytes "[").length = 1 := rfl
  have hclose : (bytes "]").length = 1 := rfl
  rw [dump, List.length_append, List.length_append, length_dumpElems, hopen, hclose]
  omega

theorem length_dump_str
    (s : String) :
    (dump (.str s)).length = dumpedLength s := by
  rw [dump, length_dumpString]

theorem length_dump_int
    (n : Int) :
    (dump (.int n)).length = digitsLength n := by
  rw [dump, digitsLength]

end DumpedLength

end Json

/-- The library on a table of texts: other texts are rejected. -/
def JsonLib.ofTable (texts : List (Bytes × Json)) : JsonLib where
  parse text := texts.lookup text
  dump := Json.dump

end ChatRoom
