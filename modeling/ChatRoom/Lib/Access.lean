import Mathlib.Tactic

/-!
# Computations that read memory

`Access κ α` is a computation over a byte-addressed memory that may throw an
exception of type `κ`.  It records the addresses it reads, so that "reads only
inside its input" is a statement about a definition and not about its text.

The simp lemmas evaluate a computation written with `readByte`, `readBytes`,
`pure` and `bind` to its list of addresses and its result.
-/

namespace ChatRoom

/-- The addresses a computation reads, in order, and how it ends. -/
structure Access (κ α : Type) where
  reads : List Nat
  result : Except κ α

namespace Access

variable {κ α β : Type}

/-- An exception, without a read. -/
def throw (k : κ) : Access κ α where
  reads := []
  result := .error k

/-- One computation after the other; the second is skipped after an exception. -/
def andThen (x : Access κ α) (f : α → Access κ β) : Access κ β :=
  match x.result with
  | .ok a => { reads := x.reads ++ (f a).reads, result := (f a).result }
  | .error k => { reads := x.reads, result := .error k }

instance : Monad (Access κ) where
  pure a := { reads := [], result := .ok a }
  bind := andThen

/-- Read the byte at an address. -/
def readByte (memory : Nat → UInt8) (i : Nat) : Access κ UInt8 where
  reads := [i]
  result := .ok (memory i)

/-- Read `n` bytes from an address on, in a loop. -/
def readBytes (memory : Nat → UInt8) : Nat → Nat → Access κ (List UInt8)
  | _, 0 => pure []
  | start, n + 1 => do
      let b ← readByte memory start
      let bs ← readBytes memory (start + 1) n
      pure (b :: bs)

theorem pure_eq
    (a : α) :
    (pure a : Access κ α) = { reads := [], result := .ok a } := by
  rfl

theorem ok_bind
    (reads : List Nat) (a : α) (f : α → Access κ β) :
    ({ reads := reads, result := .ok a } : Access κ α) >>= f =
      { reads := reads ++ (f a).reads, result := (f a).result } := by
  rfl

theorem readByte_eq
    (memory : Nat → UInt8) (i : Nat) :
    (readByte memory i : Access κ UInt8) = { reads := [i], result := .ok (memory i) } := by
  rfl

theorem readBytes_eq
    (memory : Nat → UInt8) (start n : Nat) :
    (readBytes memory start n : Access κ (List UInt8)) =
      { reads := List.range' start n
        result := .ok ((List.range' start n).map memory) } := by
  induction n generalizing start with
  | zero =>
      rfl
  | succ n ih =>
      rw [readBytes, ih, readByte_eq, ok_bind, ok_bind, pure_eq, List.range'_succ]
      simp

end Access
end ChatRoom
