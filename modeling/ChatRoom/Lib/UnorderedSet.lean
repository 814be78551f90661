import Mathlib.Tactic

/-!
# Finite sets with an iteration order

A set of values kept as a list without repetitions.  The list is the order in
which a loop over the set visits it; insertion and removal say nothing about
that order, as with a hash set.
-/

namespace ChatRoom

universe u

/-- A finite set together with the order in which loops visit it. -/
structure UnorderedSet (α : Type u) where
  elems : List α
  nodup : elems.Nodup

namespace UnorderedSet

variable {α : Type u}

instance : Membership α (UnorderedSet α) where
  mem s a := a ∈ s.elems

instance : EmptyCollection (UnorderedSet α) where
  emptyCollection := { elems := [], nodup := List.nodup_nil }

@[simp] theorem mem_elems
    (s : UnorderedSet α) (a : α) :
    a ∈ s.elems ↔ a ∈ s := by
  rfl

@[simp] theorem not_mem_empty
    (a : α) :
    a ∉ (∅ : UnorderedSet α) := by
  exact List.not_mem_nil

variable [DecidableEq α]

instance (s : UnorderedSet α) (a : α) : Decidable (a ∈ s) :=
  inferInstanceAs (Decidable (a ∈ s.elems))

/-- Insertion; nothing happens when the value is present. -/
def insert (s : UnorderedSet α) (a : α) : UnorderedSet α where
  elems := s.elems.insert a
  nodup := s.nodup.insert

/-- Removal; nothing happens when the value is absent. -/
def erase (s : UnorderedSet α) (a : α) : UnorderedSet α where
  elems := s.elems.erase a
  nodup := s.nodup.erase a

@[simp] theorem mem_insert
    {s : UnorderedSet α} {a b : α} :
    a ∈ s.insert b ↔ a = b ∨ a ∈ s := by
  exact List.mem_insert_iff

@[simp] theorem mem_erase
    {s : UnorderedSet α} {a b : α} :
    a ∈ s.erase b ↔ a ≠ b ∧ a ∈ s := by
  exact s.nodup.mem_erase_iff

end UnorderedSet
end ChatRoom
