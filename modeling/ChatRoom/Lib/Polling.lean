import Mathlib.Data.List.DropRight
import Mathlib.Tactic

/-!
# Polling a bounded log

Entries with keys are added to a log, in the order of their keys.  A reader polls
it: it gets those of the last `cap` entries whose keys are above its cursor, and
moves the cursor to the largest key it has got.

Between two polls the cursor is not below the keys of the old entries and not above
those of the new ones (`Between`).  So an entry that is still there at the first
poll after it has been added is returned once if its key is not the cursor, and
never if it is (`count_returned`).
-/

namespace ChatRoom
namespace Polling

universe u v

variable {α : Type u} {ι : Type v}

/-- A poll: the cursor, and the log at that time. -/
structure Poll (α : Type u) (ι : Type v) where
  cursor : ι
  log : List α

section Growth

/-- The log grows from one poll to the next, within the entries that are ever added. -/
def Grows (all : List α) : List α → List (Poll α ι) → Prop
  | old, [] => old <+: all
  | old, p :: ps => old <+: p.log ∧ Grows all p.log ps

variable {all old rest : List α} {p : Poll α ι} {ps : List (Poll α ι)}

theorem Grows.prefix_all
    (hgrows : Grows all old ps) :
    old <+: all := by
  induction ps generalizing old with
  | nil =>
      exact hgrows
  | cons p ps ih =>
      exact hgrows.1.trans (ih hgrows.2)

/-- What has been added up to the next poll. -/
theorem Grows.split
    (hgrows : Grows all old (p :: ps)) (hall : all = old ++ rest) :
    ∃ new rest', p.log = old ++ new ∧ rest = new ++ rest' ∧ all = p.log ++ rest' := by
  obtain ⟨⟨new, hlog⟩, hgrows⟩ := hgrows
  obtain ⟨rest', hrest'⟩ := hgrows.prefix_all
  refine ⟨new, rest', hlog.symm, ?_, hrest'.symm⟩
  rw [hall, ← hlog, List.append_assoc] at hrest'
  exact (List.append_cancel_left hrest').symm

end Growth

variable [LinearOrder ι]

section Definitions

variable (key : α → ι) (cap : Nat)

/-- What a poll returns. -/
def Poll.returned (p : Poll α ι) : List α :=
  (p.log.rtake cap).filter fun a => p.cursor < key a

/-- The cursor after some entries have been returned. -/
def advance (c : ι) (got : List α) : ι :=
  got.foldl (fun c a => max c (key a)) c

/-- Every poll is made with the largest key that has been returned so far. -/
def Follows : ι → List (Poll α ι) → Prop
  | _, [] => True
  | c, p :: ps => p.cursor = c ∧ Follows (advance key c (p.returned key cap)) ps

/-- The cursor is between the keys of the old entries and those of the new ones. -/
structure Between (c : ι) (old new : List α) : Prop where
  old : ∀ a ∈ old, key a ≤ c
  new : ∀ a ∈ new, c ≤ key a

end Definitions

section Window

variable {key : α → ι} {cap : Nat} {p : Poll α ι} {c : ι} {a : α}

/-- The last entries of a log that has grown. -/
theorem rtake_append
    (old new : List α) (n : Nat) :
    (old ++ new).rtake n = old.rtake (n - new.length) ++ new.rtake n := by
  unfold List.rtake
  rw [List.length_append, List.drop_append]
  have hnew : old.length + new.length - n - old.length = new.length - n := by
    omega
  rw [hnew]
  congr 1
  by_cases hn : new.length ≤ n
  · congr 1
    omega
  · rw [List.drop_eq_nil_of_le (by omega), List.drop_eq_nil_of_le (by omega)]

theorem mem_returned
    (h : a ∈ p.returned key cap) :
    a ∈ p.log ∧ p.cursor < key a := by
  obtain ⟨hwindow, hkey⟩ := List.mem_filter.mp h
  exact ⟨List.mem_of_mem_drop hwindow, of_decide_eq_true hkey⟩

/-- Of the old entries none is returned, of the new ones those whose key is not the cursor. -/
theorem returned_eq
    {old new : List α} (hlog : p.log = old ++ new) (hbetween : Between key p.cursor old new) :
    p.returned key cap = (new.rtake cap).filter fun a => key a ≠ p.cursor := by
  have hold : (old.rtake (cap - new.length)).filter (fun a => decide (p.cursor < key a)) = [] := by
    rw [List.filter_eq_nil_iff]
    intro a ha
    simpa using hbetween.old a (List.mem_of_mem_drop ha)
  rw [Poll.returned, hlog, rtake_append, List.filter_append, hold, List.nil_append]
  apply List.filter_congr
  intro a ha
  have hc := hbetween.new a (List.mem_of_mem_drop ha)
  rw [decide_eq_decide]
  exact ⟨fun h => h.ne', fun h => lt_of_le_of_ne hc h.symm⟩

theorem advance_le_iff
    {got : List α} {k : ι} :
    advance key c got ≤ k ↔ c ≤ k ∧ ∀ a ∈ got, key a ≤ k := by
  unfold advance
  induction got generalizing c with
  | nil =>
      simp
  | cons a got ih =>
      rw [List.foldl_cons, ih, max_le_iff, List.forall_mem_cons, and_assoc]

theorem le_advance
    (c : ι) (got : List α) :
    c ≤ advance key c got :=
  (advance_le_iff.mp le_rfl).1

end Window

section Polls

variable {key : α → ι} {cap : Nat} {all : List α} {p : Poll α ι} {ps : List (Poll α ι)}
variable {c : ι} {a : α}

/-- The last entry of a log has the largest key, so after a poll the cursor is not below any
key of the log. -/
theorem Between.advance
    (hcap : 0 < cap) {old new rest : List α} (hlog : p.log = old ++ new)
    (hsorted : (old ++ new ++ rest).Pairwise fun a b => key a ≤ key b)
    (hbetween : Between key p.cursor old (new ++ rest)) :
    Between key (advance key p.cursor (p.returned key cap)) (old ++ new) rest where
  old := by
    intro a ha
    rcases List.mem_append.mp ha with ha | ha
    · exact (hbetween.old a ha).trans (le_advance _ _)
    · have hne : p.log ≠ [] := by
        rw [hlog]
        exact List.append_ne_nil_of_right_ne_nil _ (List.ne_nil_of_mem ha)
      obtain ⟨front, z, hz⟩ : ∃ front z, p.log = front ++ [z] :=
        ⟨_, _, (List.dropLast_append_getLast hne).symm⟩
      have hle : key a ≤ key z := by
        have hmem : a ∈ front ++ [z] := by
          rw [← hz, hlog]
          exact List.mem_append_right _ ha
        rw [List.pairwise_append, ← hlog, hz, List.pairwise_append] at hsorted
        rcases List.mem_append.mp hmem with hfront | hlast
        · exact hsorted.1.2.2 a hfront z (by simp)
        · rw [List.mem_singleton.mp hlast]
      by_cases hcursor : p.cursor < key z
      · have hreturned : z ∈ p.returned key cap := by
          refine List.mem_filter.mpr ⟨?_, decide_eq_true hcursor⟩
          obtain ⟨n, rfl⟩ := Nat.exists_eq_add_of_lt hcap
          rw [hz, Nat.zero_add, List.rtake_concat_succ]
          simp
        exact hle.trans ((advance_le_iff.mp le_rfl).2 z hreturned)
      · exact hle.trans ((not_lt.mp hcursor).trans (le_advance _ _))
  new := by
    intro b hb
    refine advance_le_iff.mpr ⟨hbetween.new b (List.mem_append_right _ hb), ?_⟩
    intro a ha
    have hmem := (mem_returned ha).1
    rw [hlog] at hmem
    exact (List.pairwise_append.mp hsorted).2.2 a hmem b hb

/-- The cursor never goes back. -/
theorem Follows.cursor_le
    (hfollows : Follows key cap c ps) (hp : p ∈ ps) :
    c ≤ p.cursor := by
  induction ps generalizing c with
  | nil =>
      cases hp
  | cons q ps ih =>
      obtain ⟨hcursor, hrest⟩ := hfollows
      rcases List.mem_cons.mp hp with rfl | hp
      · exact hcursor.ge
      · exact (le_advance _ _).trans (ih hrest hp)

/-- Entries that the cursor has passed are not returned any more. -/
theorem Follows.not_returned
    (hfollows : Follows key cap c ps) (ha : key a ≤ c) :
    a ∉ ps.flatMap (Poll.returned key cap) := by
  intro hmem
  obtain ⟨p, hp, hreturned⟩ := List.mem_flatMap.mp hmem
  have hcursor := hfollows.cursor_le hp
  exact absurd (mem_returned hreturned).2 (not_lt.mpr (ha.trans hcursor))

variable [BEq α] [LawfulBEq α]

/-- An entry that is still there at the first poll after it has been added is returned by this
poll only, or by none if its key is the cursor. -/
theorem count_returned
    (hcap : 0 < cap) (hsorted : all.Pairwise fun a b => key a ≤ key b) (hnodup : all.Nodup)
    {earlier later : List (Poll α ι)} (hfollows : Follows key cap c (earlier ++ p :: later))
    {old rest : List α} (hall : all = old ++ rest) (hbetween : Between key c old rest)
    (hgrows : Grows all old (earlier ++ p :: later))
    (hold : a ∉ old) (hearlier : ∀ q ∈ earlier, a ∉ q.log) (ha : a ∈ p.log.rtake cap) :
    ((earlier ++ p :: later).flatMap (Poll.returned key cap)).count a =
      if key a = p.cursor then 0 else 1 := by
  induction earlier generalizing c old rest with
  | nil =>
      obtain ⟨hcursor, hrest⟩ := hfollows
      obtain ⟨new, rest', hlog, rfl, hall'⟩ := hgrows.split hall
      subst hcursor
      have hpassed := hbetween.advance hcap hlog (by rwa [← hlog, ← hall'])
      have hlater : a ∉ later.flatMap (Poll.returned key cap) := by
        refine hrest.not_returned (hpassed.old a ?_)
        rw [← hlog]
        exact List.mem_of_mem_drop ha
      have hfresh : Between key p.cursor old new :=
        ⟨hbetween.old, fun b hb => hbetween.new b (List.mem_append_left _ hb)⟩
      have hmem : a ∈ new.rtake cap := by
        rw [hlog, rtake_append] at ha
        rcases List.mem_append.mp ha with h | h
        · exact absurd (List.mem_of_mem_drop h) hold
        · exact h
      have hone : (new.rtake cap).Nodup := by
        rw [hall] at hnodup
        exact ((List.nodup_append.mp (List.nodup_append.mp hnodup).2.1).1).sublist
          (List.drop_sublist _ _)
      rw [List.nil_append, List.flatMap_cons, List.count_append, List.count_eq_zero.mpr hlater,
        Nat.add_zero, returned_eq hlog hfresh]
      by_cases hkey : key a = p.cursor
      · rw [if_pos hkey, List.count_eq_zero]
        intro h
        exact of_decide_eq_true (List.mem_filter.mp h).2 hkey
      · rw [if_neg hkey, List.count_filter (by simpa using hkey),
          List.count_eq_one_of_mem hone hmem]
  | cons q earlier ih =>
      obtain ⟨hcursor, hfollows⟩ := hfollows
      obtain ⟨new, rest', hlog, rfl, hall'⟩ := hgrows.split hall
      subst hcursor
      have hpassed := hbetween.advance hcap hlog (by rwa [← hlog, ← hall'])
      rw [← hlog] at hpassed
      obtain ⟨hq, hearlier⟩ := List.forall_mem_cons.mp hearlier
      have hnone : a ∉ q.returned key cap := fun h => hq (mem_returned h).1
      rw [List.cons_append, List.flatMap_cons, List.count_append, List.count_eq_zero.mpr hnone,
        Nat.zero_add]
      exact ih hfollows hall' hpassed hgrows.2 hq hearlier

end Polls

end Polling
end ChatRoom
