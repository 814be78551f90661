import Mathlib.Tactic

/-!
# Output that waits for a wake-up

A program that writes to a non-blocking socket keeps what the socket has not
accepted, and asks a poller to be woken when the socket can take more.  A flag of
the program records that it has asked, so that it need not ask again.  This works
as long as the flag and the poller agree: `Sound` says so, and that nothing waits
unless the flag is set.
-/

namespace ChatRoom

universe u

/-- What a program has written to a socket. -/
structure Outbox (α : Type u) where
  /-- what the socket has accepted -/
  accepted : List α
  /-- what waits -/
  pending : List α
  /-- the flag of the program -/
  writing : Bool
  /-- the poller reports that the socket can take more -/
  armed : Bool

namespace Outbox

variable {α : Type u}

/-- Everything that has been written, in order. -/
def stream (o : Outbox α) : List α :=
  o.accepted ++ o.pending

/-- More is written; the poller is asked unless the flag says that it has been. -/
def put (o : Outbox α) (more : List α) : Outbox α where
  accepted := o.accepted
  pending := o.pending ++ more
  writing := true
  armed := o.armed || !o.writing

/-- Something is written. -/
def Grows (o o' : Outbox α) : Prop :=
  ∃ more, more ≠ [] ∧ o' = o.put more

/-- The socket accepts something. -/
def take (o : Outbox α) (n : Nat) : Outbox α :=
  { o with accepted := o.accepted ++ o.pending.take n, pending := o.pending.drop n }

/-- Nothing waits any more; the poller is told, and the flag taken back. -/
def rest (o : Outbox α) : Outbox α :=
  { o with writing := false, armed := false }

/-- The poller is told that nothing waits, but the flag stays. -/
def disarm (o : Outbox α) : Outbox α :=
  { o with armed := false }

/-- The flag agrees with the poller, and nothing waits unless it is set. -/
structure Sound (o : Outbox α) : Prop where
  agrees : o.armed = o.writing
  flagged : o.pending ≠ [] → o.writing = true

/-- Nothing waits without a wake-up. -/
def Woken (o : Outbox α) : Prop :=
  o.pending ≠ [] → o.armed = true

section Stream

@[simp] theorem stream_put
    (o : Outbox α) (more : List α) :
    (o.put more).stream = o.stream ++ more := by
  simp [stream, put]

@[simp] theorem stream_take
    (o : Outbox α) (n : Nat) :
    (o.take n).stream = o.stream := by
  simp [stream, take]

@[simp] theorem stream_rest
    (o : Outbox α) :
    o.rest.stream = o.stream := by
  rfl

end Stream

section Sound

variable {o : Outbox α}

theorem Sound.put
    (h : o.Sound) (more : List α) :
    (o.put more).Sound where
  agrees := by
    rw [Outbox.put, h.agrees]
    exact Bool.or_not_self _
  flagged _ := rfl

/-- What the socket accepts was waiting. -/
theorem Sound.take
    (h : o.Sound) (n : Nat) :
    (o.take n).Sound where
  agrees := h.agrees
  flagged hpending := by
    refine h.flagged ?_
    intro hnil
    exact hpending (by simp [Outbox.take, hnil])

theorem Sound.rest
    (hnil : o.pending = []) :
    o.rest.Sound where
  agrees := rfl
  flagged hpending := absurd hnil hpending

end Sound

section Woken

variable {o : Outbox α}

/-- What is put in is woken iff the flag, if it is set, is right. -/
theorem woken_put_iff
    {more : List α} (hmore : more ≠ []) :
    (o.put more).Woken ↔ (o.writing = true → o.armed = true) := by
  rw [Woken, Outbox.put]
  dsimp only
  rw [forall_prop_of_true (by simp [hmore])]
  cases o.writing <;> simp

/-- Writing twice is writing everything at once. -/
theorem put_put
    (o : Outbox α) (first second : List α) :
    (o.put first).put second = o.put (first ++ second) := by
  simp [put]

theorem Grows.trans
    {o' o'' : Outbox α} (h : o.Grows o') (h' : o'.Grows o'') :
    o.Grows o'' := by
  obtain ⟨more, hmore, rfl⟩ := h
  obtain ⟨more', -, rfl⟩ := h'
  refine ⟨more ++ more', ?_, put_put o more more'⟩
  intro hnil
  exact hmore (List.append_eq_nil_iff.mp hnil).1

theorem Grows.woken_iff
    {o' : Outbox α} (h : o.Grows o') :
    o'.Woken ↔ (o.writing = true → o.armed = true) := by
  obtain ⟨more, hmore, rfl⟩ := h
  exact woken_put_iff hmore

theorem Woken.take
    (h : o.Woken) (n : Nat) :
    (o.take n).Woken := by
  intro hpending
  refine h ?_
  intro hnil
  exact hpending (by simp [Outbox.take, hnil])

theorem woken_disarm
    (hnil : o.pending = []) :
    o.disarm.Woken :=
  fun hpending => absurd hnil hpending

end Woken

end Outbox
end ChatRoom
