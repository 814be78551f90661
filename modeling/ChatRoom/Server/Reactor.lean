import ChatRoom.Common.Text

/-!
# The reactor

`Reactor` (server/reactor.h, server/reactor.cpp): the table of callbacks by file
descriptor and the interest registered with epoll.  A callback is represented
by the object it belongs to, `α`; which of its two callbacks runs is decided by
`handleEvent` of the server that uses the reactor.
-/

namespace ChatRoom

abbrev Fd := Nat

/-- `EPOLLIN` and `EPOLLOUT` of an interest mask. -/
structure Interest where
  input : Bool
  output : Bool
deriving DecidableEq

def EPOLLIN : Interest where
  input := true
  output := false

/-- `EPOLLIN | EPOLLOUT` -/
def EPOLLINOUT : Interest where
  input := true
  output := true

/-- The events epoll reports for a descriptor. -/
structure Ready where
  input : Bool
  output : Bool
  /-- `EPOLLERR | EPOLLHUP` -/
  failure : Bool
deriving DecidableEq

/-- `Reactor`: `contexts_`, and the interest set kept by epoll. -/
structure Reactor (α : Type) where
  contexts : Fd → Option α
  interest : Fd → Option Interest

namespace Reactor

variable {α : Type}

/-- `Reactor::Reactor` -/
def new : Reactor α where
  contexts _ := none
  interest _ := none

/-- `Reactor::addFd`; `EPOLL_CTL_ADD` fails for a descriptor that is in the set. -/
def addFd (r : Reactor α) (fd : Fd) (events : Interest) (callbacks : α) :
    Except Exn (Reactor α) :=
  match r.interest fd with
  | some _ => .error .runtimeError
  | none =>
      .ok
        { contexts := Function.update r.contexts fd (some callbacks)
          interest := Function.update r.interest fd (some events) }

/-- `Reactor::modifyFd`; `EPOLL_CTL_MOD` fails silently for an unknown descriptor. -/
def modifyFd (r : Reactor α) (fd : Fd) (events : Interest) : Reactor α :=
  match r.interest fd with
  | some _ => { r with interest := Function.update r.interest fd (some events) }
  | none => r

/-- `Reactor::removeFd` -/
def removeFd (r : Reactor α) (fd : Fd) : Reactor α where
  contexts := Function.update r.contexts fd none
  interest := Function.update r.interest fd none

/-- The interest in a descriptor includes `EPOLLOUT`. -/
def awaitsOutput (r : Reactor α) (fd : Fd) : Bool :=
  (r.interest fd).any fun events => events.output

/-- The kernel drops a descriptor from the epoll set when it is closed. -/
def descriptorClosed (r : Reactor α) (fd : Fd) : Reactor α :=
  { r with interest := Function.update r.interest fd none }

@[simp] theorem contexts_modifyFd
    (r : Reactor α) (fd : Fd) (events : Interest) :
    (r.modifyFd fd events).contexts = r.contexts := by
  unfold modifyFd
  split <;> rfl

/-- The interest in a descriptor that is registered is replaced. -/
theorem interest_modifyFd_self
    {r : Reactor α} {fd : Fd} (hregistered : (r.interest fd).isSome = true) (events : Interest) :
    (r.modifyFd fd events).interest fd = some events := by
  obtain ⟨old, hold⟩ := Option.isSome_iff_exists.mp hregistered
  rw [modifyFd, hold]
  exact Function.update_self _ _ _

theorem interest_modifyFd_of_ne
    (r : Reactor α) {fd fd' : Fd} (hne : fd' ≠ fd) (events : Interest) :
    (r.modifyFd fd events).interest fd' = r.interest fd' := by
  unfold modifyFd
  split
  · exact Function.update_of_ne hne _ _
  · rfl

theorem awaitsOutput_modifyFd
    {r : Reactor α} {fd : Fd} (hregistered : (r.interest fd).isSome = true) (events : Interest) :
    (r.modifyFd fd events).awaitsOutput fd = events.output := by
  rw [awaitsOutput, interest_modifyFd_self hregistered]
  rfl

/-- A descriptor stays in the set, or out of it. -/
theorem isSome_interest_modifyFd
    (r : Reactor α) (fd fd' : Fd) (events : Interest) :
    ((r.modifyFd fd events).interest fd').isSome = (r.interest fd').isSome := by
  by_cases hfd : fd' = fd
  · subst hfd
    cases hold : r.interest fd' with
    | none =>
        simp [modifyFd, hold]
    | some old =>
        simp [modifyFd, hold]
  · rw [interest_modifyFd_of_ne r hfd]

@[simp] theorem contexts_removeFd
    (r : Reactor α) (fd : Fd) :
    (r.removeFd fd).contexts = Function.update r.contexts fd none := by
  rfl

@[simp] theorem contexts_descriptorClosed
    (r : Reactor α) (fd : Fd) :
    (r.descriptorClosed fd).contexts = r.contexts := by
  rfl

theorem addFd_eq_ok
    {r r' : Reactor α} {fd : Fd} {events : Interest} {callbacks : α}
    (h : r.addFd fd events callbacks = .ok r') :
    r.interest fd = none ∧
      r' =
        { contexts := Function.update r.contexts fd (some callbacks)
          interest := Function.update r.interest fd (some events) } := by
  unfold addFd at h
  split at h
  · cases h
  · next hnone =>
      cases h
      exact ⟨hnone, rfl⟩

/-- What is in the table of callbacks is in the epoll set. -/
def Watched (r : Reactor α) : Prop :=
  ∀ fd, (r.contexts fd).isSome = true → (r.interest fd).isSome = true

section Watched

variable {r r' : Reactor α} {fd : Fd}

theorem watched_new :
    (new : Reactor α).Watched := by
  intro fd hcontext
  cases hcontext

theorem Watched.modifyFd
    (h : r.Watched) (fd : Fd) (events : Interest) :
    (r.modifyFd fd events).Watched := by
  intro fd' hcontext
  rw [contexts_modifyFd] at hcontext
  rw [isSome_interest_modifyFd]
  exact h fd' hcontext

theorem Watched.removeFd
    (h : r.Watched) (fd : Fd) :
    (r.removeFd fd).Watched := by
  intro fd' hcontext
  by_cases hfd : fd' = fd
  · simp [Reactor.removeFd, hfd] at hcontext
  · simp only [Reactor.removeFd, Function.update_of_ne hfd] at hcontext ⊢
    exact h fd' hcontext

theorem Watched.addFd
    (h : r.Watched) {events : Interest} {callbacks : α}
    (hadd : r.addFd fd events callbacks = .ok r') :
    r'.Watched := by
  obtain ⟨-, rfl⟩ := addFd_eq_ok hadd
  intro fd' hcontext
  by_cases hfd : fd' = fd
  · simp [hfd]
  · simp only [Function.update_of_ne hfd] at hcontext ⊢
    exact h fd' hcontext

/-- A descriptor may be closed when it has left the table. -/
theorem Watched.descriptorClosed
    (h : r.Watched) (hfree : r.contexts fd = none) :
    (r.descriptorClosed fd).Watched := by
  intro fd' hcontext
  by_cases hfd : fd' = fd
  · rw [contexts_descriptorClosed, hfd, hfree] at hcontext
    cases hcontext
  · simp only [Reactor.descriptorClosed, Function.update_of_ne hfd]
    exact h fd' hcontext

/-- A descriptor that is not in the epoll set has no callbacks. -/
theorem Watched.contexts_eq_none
    (h : r.Watched) (hnot : r.interest fd = none) :
    r.contexts fd = none := by
  cases hcontext : r.contexts fd with
  | none =>
      rfl
  | some callbacks =>
      have := h fd (by rw [hcontext]; rfl)
      rw [hnot] at this
      cases this

end Watched

/-- What is in the epoll set is in the table of callbacks. -/
def Listed (r : Reactor α) : Prop :=
  ∀ fd, (r.interest fd).isSome = true → (r.contexts fd).isSome = true

section Listed

variable {r r' : Reactor α} {fd : Fd}

theorem listed_new :
    (new : Reactor α).Listed := by
  intro fd hinterest
  cases hinterest

theorem Listed.modifyFd
    (h : r.Listed) (fd : Fd) (events : Interest) :
    (r.modifyFd fd events).Listed := by
  intro fd' hinterest
  rw [isSome_interest_modifyFd] at hinterest
  rw [contexts_modifyFd]
  exact h fd' hinterest

theorem Listed.removeFd
    (h : r.Listed) (fd : Fd) :
    (r.removeFd fd).Listed := by
  intro fd' hinterest
  by_cases hfd : fd' = fd
  · simp [Reactor.removeFd, hfd] at hinterest
  · simp only [Reactor.removeFd, Function.update_of_ne hfd] at hinterest ⊢
    exact h fd' hinterest

theorem Listed.addFd
    (h : r.Listed) {events : Interest} {callbacks : α}
    (hadd : r.addFd fd events callbacks = .ok r') :
    r'.Listed := by
  obtain ⟨-, rfl⟩ := addFd_eq_ok hadd
  intro fd' hinterest
  by_cases hfd : fd' = fd
  · simp [hfd]
  · simp only [Function.update_of_ne hfd] at hinterest ⊢
    exact h fd' hinterest

theorem Listed.descriptorClosed
    (h : r.Listed) (fd : Fd) :
    (r.descriptorClosed fd).Listed := by
  intro fd' hinterest
  rw [contexts_descriptorClosed]
  by_cases hfd : fd' = fd
  · simp [Reactor.descriptorClosed, hfd] at hinterest
  · simp only [Reactor.descriptorClosed, Function.update_of_ne hfd] at hinterest
    exact h fd' hinterest

/-- A descriptor without callbacks can be added. -/
theorem Listed.exists_addFd
    (h : r.Listed) (hfree : r.contexts fd = none) (events : Interest) (callbacks : α) :
    ∃ r', r.addFd fd events callbacks = .ok r' := by
  have hinterest : r.interest fd = none := by
    rw [← Option.not_isSome_iff_eq_none]
    intro hsome
    have hcontext := h fd hsome
    rw [hfree] at hcontext
    cases hcontext
  rw [Reactor.addFd, hinterest]
  exact ⟨_, rfl⟩

end Listed

/-- What the operations keep.  A descriptor is closed when it has left the table. -/
structure Rule (P : Reactor α → Prop) : Prop where
  modifyFd : ∀ r fd events, P r → P (r.modifyFd fd events)
  removeFd : ∀ r fd, P r → P (r.removeFd fd)
  addFd : ∀ r fd events callbacks r', P r → r.addFd fd events callbacks = .ok r' → P r'
  descriptorClosed : ∀ r fd, P r → r.contexts fd = none → P (r.descriptorClosed fd)

theorem watched_rule :
    Rule (Watched : Reactor α → Prop) where
  modifyFd _ fd events h := h.modifyFd fd events
  removeFd _ fd h := h.removeFd fd
  addFd _ _ _ _ _ h hadd := h.addFd hadd
  descriptorClosed _ _ h hfree := h.descriptorClosed hfree

theorem listed_rule :
    Rule (Listed : Reactor α → Prop) where
  modifyFd _ fd events h := h.modifyFd fd events
  removeFd _ fd h := h.removeFd fd
  addFd _ _ _ _ _ h hadd := h.addFd hadd
  descriptorClosed _ fd h _ := h.descriptorClosed fd

end Reactor
end ChatRoom
