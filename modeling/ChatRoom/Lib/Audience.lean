import Mathlib.Tactic

/-!
# Members that hear each other

Members join and leave, and what one of them says is heard by all the others at once.
`log` is everything that has been said, which nobody looks at.  A member has heard
exactly what the others have said since it joined (`Faithful`).  So any two members
have heard what third parties say in one order, and the one that joined first has
heard everything of them that the other one has heard (`Faithful.agree`).
-/

namespace ChatRoom

universe u v

/-- Who has joined, and what has been said and heard, by whom. -/
structure Audience (M : Type u) (E : Type v) where
  log : List (M × E)
  /-- the length of the log when a member joined -/
  since : M → Option Nat
  /-- what a member has heard since it joined -/
  heard : M → List (M × E)

namespace Audience

variable {M : Type u} {E : Type v} [DecidableEq M]

/-- Nobody has joined. -/
def empty : Audience M E where
  log := []
  since _ := none
  heard _ := []

def join (a : Audience M E) (m : M) : Audience M E where
  log := a.log
  since := Function.update a.since m (some a.log.length)
  heard := Function.update a.heard m []

def leave (a : Audience M E) (m : M) : Audience M E where
  log := a.log
  since := Function.update a.since m none
  heard := a.heard

/-- `m` says `e`, and everybody else hears it. -/
def say (a : Audience M E) (m : M) (e : E) : Audience M E where
  log := a.log ++ [(m, e)]
  since := a.since
  heard d := if (a.since d).isSome ∧ d ≠ m then a.heard d ++ [(m, e)] else a.heard d

/-- What the others have said from the position `k` of the log on. -/
def saidByOthers (a : Audience M E) (d : M) (k : Nat) : List (M × E) :=
  (a.log.drop k).filter fun said => said.1 ≠ d

/-- Who has joined has heard what the others have said since. -/
def Faithful (a : Audience M E) : Prop :=
  ∀ d k, a.since d = some k → k ≤ a.log.length ∧ a.heard d = a.saidByOthers d k

variable {a : Audience M E}

theorem faithful_empty :
    (empty : Audience M E).Faithful := by
  intro d k h
  cases h

theorem Faithful.join
    (h : a.Faithful) (m : M) :
    (a.join m).Faithful := by
  intro d k hd
  simp only [Audience.join, Function.update_apply] at hd ⊢
  by_cases hm : d = m
  · rw [if_pos hm, Option.some.injEq] at hd
    rw [if_pos hm, ← hd]
    exact ⟨le_rfl, by simp [saidByOthers]⟩
  · rw [if_neg hm] at hd ⊢
    exact h d k hd

theorem Faithful.leave
    (h : a.Faithful) (m : M) :
    (a.leave m).Faithful := by
  intro d k hd
  simp only [Audience.leave, Function.update_apply] at hd ⊢
  by_cases hm : d = m
  · rw [if_pos hm] at hd
    cases hd
  · rw [if_neg hm] at hd
    exact h d k hd

theorem Faithful.say
    (h : a.Faithful) (m : M) (e : E) :
    (a.say m e).Faithful := by
  intro d k hd
  have hd : a.since d = some k := hd
  obtain ⟨hk, hheard⟩ := h d k hd
  have hdrop : (a.say m e).log.drop k = a.log.drop k ++ [(m, e)] :=
    List.drop_append_of_le_length hk
  refine ⟨?_, ?_⟩
  · rw [Audience.say, List.length_append]
    exact Nat.le_add_right_of_le hk
  · rw [saidByOthers, hdrop, List.filter_append, ← saidByOthers, ← hheard]
    by_cases hm : d = m
    · simp [Audience.say, hm]
    · simp [Audience.say, hd, hm, Ne.symm hm]

/-- What both have heard of third parties is for the later one the end of what it is for
the earlier one. -/
theorem Faithful.agree
    (h : a.Faithful) {d d' : M} {k k' : Nat} (hd : a.since d = some k)
    (hd' : a.since d' = some k') (hle : k ≤ k') :
    (a.heard d').filter (fun said => said.1 ≠ d) <:+
      (a.heard d).filter fun said => said.1 ≠ d' := by
  have hlater : a.log.drop k' <:+ a.log.drop k := by
    rw [← Nat.add_sub_cancel' hle, ← List.drop_drop]
    exact List.drop_suffix _ _
  rw [(h d k hd).2, (h d' k' hd').2, saidByOthers, saidByOthers, List.filter_filter,
    List.filter_filter]
  simp only [Bool.and_comm (decide (_ ≠ d))]
  exact hlater.filter _

end Audience
end ChatRoom
