import Mathlib.Tactic

/-!
# Incremental decoders

A decoder that is shown the unread front of a byte stream and answers with one
decoded item, with "wait for more", or with "the stream is malformed".  The
answer must survive the arrival of further input, except for `wait`.

`drain` is the loop every reader built on such a decoder runs: decode items
until the decoder waits or rejects.  The results say that draining a stream in
pieces is draining it at once (`drain_append`, `foldl_extend`), and that the
encodings of a list of items drain to that list (`drain_flatMap`).
-/

namespace ChatRoom
namespace Incremental

universe u v

/-- One answer of an incremental decoder. -/
inductive Verdict (α : Type u) where
  | done (consumed : Nat) (item : α)
  | wait
  | malformed

/-- A decoder whose definite answers do not depend on input that comes later. -/
structure Decoder (β : Type v) (α : Type u) where
  decode : List β → Verdict α
  done_bounds : ∀ {xs n a}, decode xs = .done n a → 0 < n ∧ n ≤ xs.length
  done_append : ∀ {xs n a}, decode xs = .done n a → ∀ ys, decode (xs ++ ys) = .done n a
  malformed_append : ∀ {xs}, decode xs = .malformed → ∀ ys, decode (xs ++ ys) = .malformed

/-- What draining a stream leaves: the items, the unread input, the verdict. -/
structure Drained (β : Type v) (α : Type u) where
  items : List α
  unread : List β
  failed : Bool

variable {β : Type v} {α : Type u}

namespace Decoder

variable (d : Decoder β α)

/-- Decode items from the front until the decoder waits or rejects. -/
def drain (xs : List β) : Drained β α :=
  match _h : d.decode xs with
  | .done n a =>
      let tail := drain (xs.drop n)
      { tail with items := a :: tail.items }
  | .wait => { items := [], unread := xs, failed := false }
  | .malformed => { items := [], unread := xs, failed := true }
termination_by xs.length
decreasing_by
  have := d.done_bounds _h
  rw [List.length_drop]
  omega

variable {d}

theorem drain_done
    {xs : List β} {n : Nat} {a : α}
    (h : d.decode xs = .done n a) :
    d.drain xs =
      { items := a :: (d.drain (xs.drop n)).items
        unread := (d.drain (xs.drop n)).unread
        failed := (d.drain (xs.drop n)).failed } := by
  rw [drain]
  split
  · next h' =>
      rw [h] at h'
      cases h'
      rfl
  · next h' =>
      rw [h] at h'
      cases h'
  · next h' =>
      rw [h] at h'
      cases h'

theorem drain_wait
    (xs : List β) (h : d.decode xs = .wait) :
    d.drain xs = { items := [], unread := xs, failed := false } := by
  rw [drain]
  split <;> simp_all

theorem drain_malformed
    {xs : List β} (h : d.decode xs = .malformed) :
    d.drain xs = { items := [], unread := xs, failed := true } := by
  rw [drain]
  split <;> simp_all

/-- Induction along the items a stream drains to. -/
theorem drain_induction
    {motive : List β → Prop}
    (done : ∀ xs n a, d.decode xs = .done n a → motive (xs.drop n) → motive xs)
    (wait : ∀ xs, d.decode xs = .wait → motive xs)
    (malformed : ∀ xs, d.decode xs = .malformed → motive xs)
    (xs : List β) :
    motive xs := by
  induction hlen : xs.length using Nat.strong_induction_on generalizing xs with
  | _ len ih =>
      cases h : d.decode xs with
      | done n a =>
          have hn := d.done_bounds h
          refine done xs n a h (ih (xs.drop n).length ?_ _ rfl)
          rw [List.length_drop]
          omega
      | wait => exact wait xs h
      | malformed => exact malformed xs h

/-- What is unread is no longer than the stream. -/
theorem length_unread_le
    (xs : List β) :
    (d.drain xs).unread.length ≤ xs.length := by
  induction xs using drain_induction (d := d) with
  | done xs n a h ih =>
      rw [drain_done h]
      rw [List.length_drop] at ih
      exact ih.trans (Nat.sub_le _ _)
  | wait xs h =>
      rw [drain_wait xs h]
  | malformed xs h =>
      rw [drain_malformed h]

/-- A stream that does not fail is drained until the decoder waits. -/
theorem drain_unread
    {xs : List β} (hok : (d.drain xs).failed = false) :
    d.drain (d.drain xs).unread =
      { items := [], unread := (d.drain xs).unread, failed := false } := by
  induction xs using drain_induction (d := d) with
  | done xs n a h ih =>
      rw [drain_done h] at hok ⊢
      exact ih hok
  | wait xs h =>
      rw [drain_wait xs h]
      exact drain_wait xs h
  | malformed xs h =>
      rw [drain_malformed h] at hok
      cases hok

/-- Put further input behind what is unread and go on, unless the stream failed. -/
def extend (s : Drained β α) (ys : List β) : Drained β α :=
  if s.failed then
    { s with unread := s.unread ++ ys }
  else
    { d.drain (s.unread ++ ys) with items := s.items ++ (d.drain (s.unread ++ ys)).items }

/-- Draining a longer stream is extending what its front drained to. -/
theorem drain_append
    (xs ys : List β) :
    d.drain (xs ++ ys) = d.extend (d.drain xs) ys := by
  induction xs using drain_induction (d := d) with
  | done xs n a h ih =>
      have hn := d.done_bounds h
      rw [drain_done (d.done_append h ys), List.drop_append_of_le_length hn.2, ih,
        drain_done h]
      simp only [extend]
      split <;> simp
  | wait xs h =>
      simp [extend, drain_wait _ h]
  | malformed xs h =>
      simp [extend, drain_malformed (d.malformed_append h ys), drain_malformed h]

/-- More input is decoded behind what is unread, also when the stream has failed. -/
theorem drain_append_unread
    (xs ys : List β) :
    d.drain (xs ++ ys) =
      { d.drain ((d.drain xs).unread ++ ys) with
        items := (d.drain xs).items ++ (d.drain ((d.drain xs).unread ++ ys)).items } := by
  rw [drain_append, extend]
  split
  · next hfailed =>
      induction xs using drain_induction (d := d) with
      | done xs n a h ih =>
          rw [drain_done h] at hfailed ⊢
          have htail := ih hfailed
          simp only [Drained.mk.injEq] at htail ⊢
          exact ⟨by simpa using htail.1, htail.2⟩
      | wait xs h =>
          rw [drain_wait xs h] at hfailed
          cases hfailed
      | malformed xs h =>
          simp [drain_malformed h, drain_malformed (d.malformed_append h ys)]
  · rfl

/-- Reading a stream piece by piece yields what reading it at once yields. -/
theorem foldl_extend
    (xs : List β) (pieces : List (List β)) :
    pieces.foldl d.extend (d.drain xs) = d.drain (xs ++ pieces.flatten) := by
  induction pieces generalizing xs with
  | nil =>
      simp
  | cons piece pieces ih =>
      rw [List.foldl_cons, ← drain_append, ih, List.flatten_cons, List.append_assoc]

/-- More input does not change the items there are. -/
theorem items_prefix
    (xs ys : List β) :
    (d.drain xs).items <+: (d.drain (xs ++ ys)).items := by
  rw [drain_append, extend]
  split
  · exact List.prefix_rfl
  · exact List.prefix_append _ _

/-- Behind the point of failure nothing is decoded. -/
theorem drain_append_of_failed
    {xs : List β} (h : (d.drain xs).failed = true) (ys : List β) :
    (d.drain (xs ++ ys)).failed = true ∧ (d.drain (xs ++ ys)).items = (d.drain xs).items := by
  rw [drain_append, extend, if_pos h]
  exact ⟨h, rfl⟩

/-- A stream that does not fail has no front that fails. -/
theorem failed_of_append
    {xs ys : List β} (h : (d.drain (xs ++ ys)).failed = false) :
    (d.drain xs).failed = false := by
  rw [drain_append, extend] at h
  split at h
  · exact h
  · next hxs =>
      simpa using hxs

/-- The encodings of a list of items drain to exactly that list. -/
theorem drain_flatMap
    {encode : α → List β}
    (items : List α) (hencode : ∀ a ∈ items, ∀ ys, d.decode (encode a ++ ys) =
      .done (encode a).length a)
    (ys : List β) :
    d.drain (items.flatMap encode ++ ys) =
      { items := items ++ (d.drain ys).items
        unread := (d.drain ys).unread
        failed := (d.drain ys).failed } := by
  induction items with
  | nil =>
      simp
  | cons a items ih =>
      have ha := hencode a (by simp) (items.flatMap encode ++ ys)
      have htail := ih (fun b hb => hencode b (List.mem_cons_of_mem a hb))
      rw [List.flatMap_cons, List.append_assoc, drain_done ha]
      simp [htail]

/-- Decoders of one stream, the second of which accepts whatever the first one does: what
the first one makes of the stream, the second one makes of it too, up to a failure. -/
theorem drain_of_accepts
    (d' : Decoder β α)
    (hdone : ∀ {xs n a}, d.decode xs = .done n a → d'.decode xs = .done n a)
    (hwait : ∀ {xs}, d.decode xs = .wait → d'.decode xs = .wait) (xs : List β) :
    (d.drain xs).items <+: (d'.drain xs).items ∧
      ((d.drain xs).failed = false → d'.drain xs = d.drain xs) := by
  induction xs using drain_induction (d := d) with
  | done xs n a h ih =>
      rw [drain_done h, drain_done (hdone h)]
      refine ⟨List.cons_prefix_cons.mpr ⟨rfl, ih.1⟩, fun hok => ?_⟩
      rw [ih.2 hok]
  | wait xs h =>
      rw [drain_wait xs h, drain_wait xs (hwait h)]
      exact ⟨List.prefix_rfl, fun _ => rfl⟩
  | malformed xs h =>
      rw [drain_malformed h]
      exact ⟨List.nil_prefix, fun hok => by cases hok⟩

/-- The front of a stream of encodings drains to a front of the items, without a failure;
an item whose encoding is in the front is among them. -/
theorem drain_front
    {encode : α → List β} {items : List α}
    (hencode : ∀ a ∈ items, ∀ ys, d.decode (encode a ++ ys) = .done (encode a).length a)
    (hnil : d.decode [] = .wait) {xs : List β} (hxs : xs <+: items.flatMap encode) :
    (d.drain xs).items <+: items ∧ (d.drain xs).failed = false ∧
      ∀ front, front <+: items → front.flatMap encode <+: xs → front <+: (d.drain xs).items := by
  have hall : d.drain (items.flatMap encode) =
      { items := items, unread := [], failed := false } := by
    have h := drain_flatMap items hencode []
    rwa [drain_wait [] hnil, List.append_nil, List.append_nil] at h
  obtain ⟨ys, hys⟩ := hxs
  refine ⟨?_, ?_, ?_⟩
  · have h := items_prefix (d := d) xs ys
    rwa [hys, hall] at h
  · refine failed_of_append (?_ : (d.drain (xs ++ ys)).failed = false)
    rw [hys, hall]
  · rintro front hfront ⟨zs, rfl⟩
    rw [drain_flatMap front fun a ha => hencode a (hfront.subset ha)]
    exact List.prefix_append _ _

end Decoder
end Incremental
end ChatRoom
