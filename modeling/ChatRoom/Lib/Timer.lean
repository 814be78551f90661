import Mathlib.Tactic

/-!
# Timers that ring at the end of a wait

Time passes in waits, and a timer rings at the end of some of them.  `Record` keeps
the clock and the times of the rings.  The timer is never silent for longer than a
limit iff no block of consecutive waits is longer in which it rings at the end only
(`within_foldl_iff`).
-/

namespace ChatRoom
namespace Timer

universe u

/-- A wait, and whether the timer rings at its end. -/
structure Wait (τ : Type u) where
  length : τ
  rings : Bool

/-- The clock, and the times at which the timer has rung, oldest first. -/
structure Record (τ : Type u) where
  clock : τ
  rings : List τ

section Records

variable {τ : Type u} [AddCommGroup τ]

/-- Nothing has happened yet. -/
def Record.start : Record τ where
  clock := 0
  rings := []

/-- Time passes. -/
def Record.wait (r : Record τ) (w : Wait τ) : Record τ where
  clock := r.clock + w.length
  rings := if w.rings then r.rings ++ [r.clock + w.length] else r.rings

/-- The time since the last ring. -/
def Record.since (r : Record τ) : τ :=
  r.clock - r.rings.getLastD 0

theorem since_wait
    (r : Record τ) (w : Wait τ) :
    (r.wait w).since = if w.rings then 0 else r.since + w.length := by
  cases hrings : w.rings with
  | true =>
      simp [Record.since, Record.wait, hrings]
  | false =>
      simp only [Record.since, Record.wait, hrings, Bool.false_eq_true, if_false]
      abel

variable [LinearOrder τ]

/-- Neither between the start and the first ring, nor between two rings, nor since the
last one did more time pass than `limit`. -/
def Record.Within (limit : τ) (r : Record τ) : Prop :=
  (0 :: (r.rings ++ [r.clock])).IsChain fun s t => t - s ≤ limit

/-- The same about the rings alone. -/
def Record.RingsWithin (limit : τ) (r : Record τ) : Prop :=
  (0 :: r.rings).IsChain fun s t => t - s ≤ limit

theorem isChain_concat
    {α : Type*} {R : α → α → Prop} (a b : α) (l : List α) :
    (a :: (l ++ [b])).IsChain R ↔ (a :: l).IsChain R ∧ R (l.getLastD a) b := by
  induction l generalizing a with
  | nil =>
      simp
  | cons c l ih =>
      rw [List.cons_append, List.isChain_cons_cons, ih, List.isChain_cons_cons, and_assoc,
        List.getLastD_cons]

theorem within_iff
    {limit : τ} {r : Record τ} :
    r.Within limit ↔ r.RingsWithin limit ∧ r.since ≤ limit := by
  exact isChain_concat 0 r.clock r.rings

theorem ringsWithin_wait
    {limit : τ} (r : Record τ) (w : Wait τ) :
    (r.wait w).RingsWithin limit ↔
      r.RingsWithin limit ∧ (w.rings = true → r.since + w.length ≤ limit) := by
  cases hrings : w.rings with
  | true =>
      have hsince : r.since + w.length = r.clock + w.length - r.rings.getLastD 0 := by
        rw [Record.since]
        abel
      simp only [Record.wait, hrings, if_true, forall_const, hsince]
      exact isChain_concat 0 (r.clock + w.length) r.rings
  | false =>
      simp [Record.RingsWithin, Record.wait, hrings]

end Records

section Blocks

variable {τ : Type u}

/-- The timer rings at the end of the block at most. -/
def SilentInside (ws : List (Wait τ)) : Prop :=
  ∀ w ∈ ws.dropLast, w.rings = false

theorem silentInside_nil :
    SilentInside ([] : List (Wait τ)) := by
  simp [SilentInside]

theorem silentInside_cons
    {w : Wait τ} {ws : List (Wait τ)} :
    SilentInside (w :: ws) ↔ ws = [] ∨ (w.rings = false ∧ SilentInside ws) := by
  cases ws with
  | nil =>
      simp [SilentInside]
  | cons v ws =>
      simp [SilentInside]

variable [AddCommGroup τ] [LinearOrder τ]

/-- The length of a block of waits. -/
def total (ws : List (Wait τ)) : τ :=
  (ws.map Wait.length).sum

/-- Every block at the front, with the time before it, is within the limit. -/
def FrontsWithin (limit since : τ) (ws : List (Wait τ)) : Prop :=
  ∀ front, front <+: ws → SilentInside front → since + total front ≤ limit

/-- Every block is within the limit. -/
def BlocksWithin (limit : τ) (ws : List (Wait τ)) : Prop :=
  ∀ block, block <:+: ws → SilentInside block → total block ≤ limit

variable {limit since : τ} {w : Wait τ} {ws : List (Wait τ)}

theorem BlocksWithin.fronts
    (h : BlocksWithin limit ws) :
    FrontsWithin limit 0 ws := by
  intro front hfront hinside
  rw [zero_add]
  exact h front hfront.isInfix hinside

theorem blocksWithin_cons :
    BlocksWithin limit (w :: ws) ↔
      FrontsWithin limit 0 (w :: ws) ∧ BlocksWithin limit ws := by
  constructor
  · intro h
    exact ⟨h.fronts, fun block hblock => h block (List.infix_cons hblock)⟩
  · rintro ⟨hfronts, hblocks⟩ block hblock hinside
    rcases List.infix_cons_iff.mp hblock with hfront | hblock
    · simpa using hfronts block hfront hinside
    · exact hblocks block hblock hinside

theorem FrontsWithin.since_le
    (h : FrontsWithin limit since ws) :
    since ≤ limit := by
  simpa [total] using h [] List.nil_prefix silentInside_nil

variable [IsOrderedAddMonoid τ]

theorem FrontsWithin.mono
    {earlier : τ} (h : FrontsWithin limit since ws) (hle : earlier ≤ since) :
    FrontsWithin limit earlier ws := by
  intro front hfront hinside
  have hless : earlier + total front ≤ since + total front := by
    gcongr
  exact hless.trans (h front hfront hinside)

theorem frontsWithin_cons
    (hw : 0 ≤ w.length) :
    FrontsWithin limit since (w :: ws) ↔
      since + w.length ≤ limit ∧
        (w.rings = false → FrontsWithin limit (since + w.length) ws) := by
  constructor
  · intro h
    refine ⟨?_, ?_⟩
    · simpa [total] using h [w] (List.prefix_append [w] ws) (by simp [SilentInside])
    · intro hsilent front hfront hinside
      have hcons := h (w :: front) ((List.prefix_cons_inj w).mpr hfront)
        (silentInside_cons.mpr (.inr ⟨hsilent, hinside⟩))
      simpa [total, add_assoc] using hcons
  · rintro ⟨hone, hmore⟩ front hfront hinside
    cases front with
    | nil =>
        have hle : since ≤ since + w.length := le_add_of_nonneg_right hw
        simpa [total] using hle.trans hone
    | cons v front =>
        obtain ⟨rfl, htail⟩ := List.cons_prefix_cons.mp hfront
        rcases silentInside_cons.mp hinside with rfl | ⟨hsilent, hinside⟩
        · simpa [total] using hone
        · simpa [total, add_assoc] using hmore hsilent front htail hinside

/-- After any waits: the record is within the limit iff it was so, and neither a block of
waits nor the time before them with a block at the front exceeds it. -/
theorem within_foldl
    (hnonneg : ∀ w ∈ ws, 0 ≤ w.length) (r : Record τ) (hsince : 0 ≤ r.since) :
    (ws.foldl Record.wait r).Within limit ↔
      r.RingsWithin limit ∧ FrontsWithin limit r.since ws ∧ BlocksWithin limit ws := by
  induction ws generalizing r with
  | nil =>
      have hfronts : FrontsWithin limit r.since [] ↔ r.since ≤ limit := by
        simp [FrontsWithin, SilentInside, total]
      have hblocks : r.since ≤ limit → BlocksWithin limit [] := by
        intro hle block hblock hinside
        rw [List.infix_nil.mp hblock]
        simpa [total] using hsince.trans hle
      rw [List.foldl_nil, within_iff, hfronts]
      tauto
  | cons w ws ih =>
      have hw := hnonneg w (by simp)
      have hrest : ∀ v ∈ ws, 0 ≤ v.length := fun v hv => hnonneg v (List.mem_cons_of_mem w hv)
      have hsince' : 0 ≤ (r.wait w).since := by
        rw [since_wait]
        split
        · exact le_refl 0
        · exact add_nonneg hsince hw
      -- the blocks at the front are also bounded by those with the time before them
      have hfront : FrontsWithin limit r.since (w :: ws) → FrontsWithin limit 0 (w :: ws) :=
        fun h => h.mono hsince
      rw [List.foldl_cons, ih hrest _ hsince', ringsWithin_wait, since_wait, blocksWithin_cons]
      cases hrings : w.rings with
      | true =>
          have hcons : FrontsWithin limit r.since (w :: ws) ↔ r.since + w.length ≤ limit := by
            simp [frontsWithin_cons hw, hrings]
          have hzero : BlocksWithin limit ws → FrontsWithin limit 0 ws := BlocksWithin.fronts
          simp only [if_true, forall_const]
          tauto
      | false =>
          have hcons : FrontsWithin limit r.since (w :: ws) ↔
              FrontsWithin limit (r.since + w.length) ws := by
            simp only [frontsWithin_cons hw, hrings, forall_const, and_iff_right_iff_imp]
            exact FrontsWithin.since_le
          simp only [Bool.false_eq_true, if_false, false_implies, and_true]
          tauto

/-- The timer is never silent for longer than the limit iff no block of waits is longer in
which it rings at the end only. -/
theorem within_foldl_iff
    (hnonneg : ∀ w ∈ ws, 0 ≤ w.length) :
    (ws.foldl Record.wait Record.start).Within limit ↔ BlocksWithin limit ws := by
  have hsince : (Record.start : Record τ).since = 0 := by
    simp [Record.since, Record.start]
  have hrings : (Record.start : Record τ).RingsWithin limit := by
    simp [Record.RingsWithin, Record.start]
  rw [within_foldl hnonneg _ hsince.ge, hsince]
  constructor
  · rintro ⟨-, -, hblocks⟩
    exact hblocks
  · intro hblocks
    exact ⟨hrings, hblocks.fronts, hblocks⟩

end Blocks

end Timer
end ChatRoom
