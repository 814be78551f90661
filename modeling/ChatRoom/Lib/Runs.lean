import Mathlib.Tactic

/-!
# Runs of event-driven systems

A system is a step function from a state and an event to the next state, or to
a failure that ends the run.  `run` plays a list of events.  An invariant of
the steps is an invariant of the runs (`run_invariant`), also when the steps
are only known to keep it under a side condition that every step of the run
meets (`run_invariant_of_meets`).

The second half is about histories: lists of what has been observed, in which
every entry is justified by the entries before it.
-/

namespace ChatRoom
namespace Runs

universe u v w

variable {σ : Type u} {ε : Type v} {κ : Type w}

/-- The state after a list of events, or the failure that ended the run. -/
def run (step : σ → ε → Except κ σ) : σ → List ε → Except κ σ
  | s, [] => .ok s
  | s, e :: es => (step s e).bind fun s' => run step s' es

/-- Every step of the run starts in a state and with an event that meet `C`. -/
def Meets (C : σ → ε → Prop) (step : σ → ε → Except κ σ) : σ → List ε → Prop
  | _, [] => True
  | s, e :: es => C s e ∧ ∀ s', step s e = .ok s' → Meets C step s' es

variable {step : σ → ε → Except κ σ}

instance decidableMeets
    {C : σ → ε → Prop} [∀ s e, Decidable (C s e)] :
    ∀ (s : σ) (es : List ε), Decidable (Meets C step s es)
  | _, [] => isTrue trivial
  | s, e :: es =>
      match hs : step s e with
      | .error _ =>
          decidable_of_iff (C s e)
            ⟨fun h => ⟨h, fun s' h' => by rw [hs] at h'; cases h'⟩, fun h => h.1⟩
      | .ok s' =>
          have : Decidable (Meets C step s' es) := decidableMeets s' es
          decidable_of_iff (C s e ∧ Meets C step s' es)
            ⟨fun h => ⟨h.1, fun s'' h' => Except.ok.inj (hs.symm.trans h') ▸ h.2⟩,
              fun h => ⟨h.1, h.2 s' hs⟩⟩

/-- A weaker condition is met as well. -/
theorem Meets.mono
    {C D : σ → ε → Prop} {s : σ} {es : List ε} (h : Meets C step s es)
    (hCD : ∀ s e, C s e → D s e) :
    Meets D step s es := by
  induction es generalizing s with
  | nil =>
      trivial
  | cons e es ih =>
      exact ⟨hCD s e h.1, fun s' hs' => ih (h.2 s' hs')⟩

/-- A successful computation in two parts succeeds in both. -/
theorem bind_eq_ok
    {α β : Type*} {x : Except κ α} {f : α → Except κ β} {b : β} :
    x.bind f = .ok b ↔ ∃ a, x = .ok a ∧ f a = .ok b := by
  cases x with
  | error k =>
      simp [Except.bind]
  | ok a =>
      simp [Except.bind]

theorem map_eq_ok
    {α β : Type*} {x : Except κ α} {f : α → β} {b : β} :
    x.map f = .ok b ↔ ∃ a, x = .ok a ∧ f a = b := by
  cases x with
  | error k =>
      simp [Except.map]
  | ok a =>
      simp [Except.map]

@[simp] theorem run_nil
    (s : σ) :
    run step s [] = .ok s := by
  rfl

theorem run_cons
    {s s'' : σ} {e : ε} {es : List ε} :
    run step s (e :: es) = .ok s'' ↔
      ∃ s', step s e = .ok s' ∧ run step s' es = .ok s'' := by
  exact bind_eq_ok

theorem run_append
    {s s'' : σ} {es es' : List ε} :
    run step s (es ++ es') = .ok s'' ↔
      ∃ s', run step s es = .ok s' ∧ run step s' es' = .ok s'' := by
  induction es generalizing s with
  | nil =>
      simp
  | cons e es ih =>
      rw [List.cons_append, run_cons]
      simp only [ih, run_cons]
      constructor
      · rintro ⟨s₁, hs₁, s', hes, hes'⟩
        exact ⟨s', ⟨s₁, hs₁, hes⟩, hes'⟩
      · rintro ⟨s', ⟨s₁, hs₁, hes⟩, hes'⟩
        exact ⟨s₁, hs₁, s', hes, hes'⟩

/-- What the steps that meet `C` keep, the runs whose steps meet `C` keep. -/
theorem run_invariant_of_meets
    {C : σ → ε → Prop} {I : σ → Prop}
    (hstep : ∀ s e s', I s → C s e → step s e = .ok s' → I s')
    {s s' : σ} {es : List ε}
    (hI : I s) (hC : Meets C step s es) (hrun : run step s es = .ok s') :
    I s' := by
  induction es generalizing s with
  | nil =>
      simp only [run_nil, Except.ok.injEq] at hrun
      exact hrun ▸ hI
  | cons e es ih =>
      obtain ⟨s₁, hs₁, hrest⟩ := run_cons.mp hrun
      exact ih (hstep s e s₁ hI hC.1 hs₁) (hC.2 s₁ hs₁) hrest

/-- What every step keeps, every run keeps. -/
theorem run_invariant
    {I : σ → Prop}
    (hstep : ∀ s e s', I s → step s e = .ok s' → I s')
    {s s' : σ} {es : List ε}
    (hI : I s) (hrun : run step s es = .ok s') :
    I s' := by
  induction es generalizing s with
  | nil =>
      simp only [run_nil, Except.ok.injEq] at hrun
      exact hrun ▸ hI
  | cons e es ih =>
      obtain ⟨s₁, hs₁, hrest⟩ := run_cons.mp hrun
      exact ih (hstep s e s₁ hI hs₁) hrest

/-- What every step does to the abstraction of a state, every run does to it. -/
theorem run_simulates
    {τ : Type*} {R : σ → τ → Prop} {abstractStep : τ → ε → τ}
    (hstep : ∀ s t e s', R s t → step s e = .ok s' → R s' (abstractStep t e))
    {s s' : σ} {t : τ} {es : List ε}
    (hR : R s t) (hrun : run step s es = .ok s') :
    R s' (es.foldl abstractStep t) := by
  induction es generalizing s t with
  | nil =>
      simp only [run_nil, Except.ok.injEq] at hrun
      exact hrun ▸ hR
  | cons e es ih =>
      obtain ⟨s₁, hs₁, hrest⟩ := run_cons.mp hrun
      exact ih (hstep s t e s₁ hR hs₁) hrest

/-- If every marked event takes something off a quantity, and no event adds to it, then a run
takes off as much as it has marked events, unless it has come to a state that it never leaves
again. -/
theorem run_wears_down
    {C : σ → ε → Prop} {I Gone : σ → Prop} {left : σ → Nat} {mark : ε → Bool}
    (hgone : ∀ s e s', Gone s → step s e = .ok s' → Gone s')
    (hstep : ∀ s e s', I s → C s e → step s e = .ok s' →
      Gone s' ∨ I s' ∧ left s' ≤ left s - (if mark e then 1 else 0))
    {s s' : σ} {es : List ε} (hI : I s) (hC : Meets C step s es)
    (hrun : run step s es = .ok s') :
    Gone s' ∨ I s' ∧ left s' ≤ left s - es.countP mark := by
  induction es generalizing s with
  | nil =>
      simp only [run_nil, Except.ok.injEq] at hrun
      rw [← hrun]
      exact .inr ⟨hI, Nat.le_refl _⟩
  | cons e es ih =>
      obtain ⟨s₁, hs₁, hrest⟩ := run_cons.mp hrun
      rcases hstep s e s₁ hI hC.1 hs₁ with hlost | ⟨hI₁, hless⟩
      · exact .inl (run_invariant hgone hlost hrest)
      · rcases ih hI₁ (hC.2 s₁ hs₁) hrest with hlost | ⟨hI', hleft⟩
        · exact .inl hlost
        · refine .inr ⟨hI', ?_⟩
          rw [List.countP_cons]
          omega

/-- If `C` says where a step succeeds, a run succeeds iff all its steps meet `C`. -/
theorem run_succeeds_iff
    {C : σ → ε → Prop} {I : σ → Prop}
    (hkeeps : ∀ s e s', I s → step s e = .ok s' → I s')
    (hstep : ∀ s e, I s → ((∃ s', step s e = .ok s') ↔ C s e))
    {s : σ} (hI : I s) (es : List ε) :
    (∃ s', run step s es = .ok s') ↔ Meets C step s es := by
  induction es generalizing s with
  | nil =>
      exact iff_of_true ⟨s, rfl⟩ trivial
  | cons e es ih =>
      constructor
      · rintro ⟨s', hrun⟩
        obtain ⟨s₁, hs₁, hrest⟩ := run_cons.mp hrun
        refine ⟨(hstep s e hI).mp ⟨s₁, hs₁⟩, fun s₂ hs₂ => ?_⟩
        obtain rfl : s₁ = s₂ := Except.ok.inj (hs₁.symm.trans hs₂)
        exact (ih (hkeeps s e s₁ hI hs₁)).mp ⟨s', hrest⟩
      · rintro ⟨hC, hmeets⟩
        obtain ⟨s₁, hs₁⟩ := (hstep s e hI).mpr hC
        obtain ⟨s', hrest⟩ := (ih (hkeeps s e s₁ hI hs₁)).mpr (hmeets s₁ hs₁)
        exact ⟨s', run_cons.mpr ⟨s₁, hs₁, hrest⟩⟩

/-- If every step that adds to a list keeps an invariant of the list and the state, so does
every run of steps that cannot fail. -/
theorem foldl_invariant_flatMap
    {τ : Type*} {I : List τ → σ → Prop} {step : σ → ε → σ} {adds : ε → List τ}
    (hstep : ∀ all s e, I all s → I (all ++ adds e) (step s e))
    {all : List τ} {s : σ} (hI : I all s) (es : List ε) :
    I (all ++ es.flatMap adds) (es.foldl step s) := by
  induction es generalizing all s with
  | nil =>
      rwa [List.flatMap_nil, List.append_nil]
  | cons e es ih =>
      rw [List.flatMap_cons, ← List.append_assoc]
      exact ih (hstep all s e hI)

/-- A property of states holds in every state that a run passes through iff every step of
the run meets `C`, if `C` says of one step that it keeps the property. -/
theorem forall_passed_iff
    {C : σ → ε → Prop} {I Q : σ → Prop}
    (hstep : ∀ s e, I s → Q s → ((∀ s', step s e = .ok s' → Q s') ↔ C s e))
    (hkeeps : ∀ s e s', I s → C s e → step s e = .ok s' → I s')
    {s : σ} (hI : I s) (hQ : Q s) (es : List ε) :
    (∀ done s', done <+: es → run step s done = .ok s' → Q s') ↔ Meets C step s es := by
  induction es generalizing s with
  | nil =>
      refine iff_of_true ?_ trivial
      intro done s' hdone hrun
      rw [List.prefix_nil.mp hdone] at hrun
      cases hrun
      exact hQ
  | cons e es ih =>
      have hfirst := hstep s e hI hQ
      rw [Meets]
      constructor
      · intro hall
        have hpassed : ∀ s', step s e = .ok s' → Q s' := by
          intro s' hs'
          refine hall [e] s' (by simp) ?_
          exact run_cons.mpr ⟨s', hs', rfl⟩
        have hC := hfirst.mp hpassed
        refine ⟨hC, ?_⟩
        intro s₁ hs₁
        refine (ih (hkeeps s e s₁ hI hC hs₁) (hpassed s₁ hs₁)).mp ?_
        intro done s' hdone hrun
        refine hall (e :: done) s' (List.cons_prefix_cons.mpr ⟨rfl, hdone⟩) ?_
        exact run_cons.mpr ⟨s₁, hs₁, hrun⟩
      · rintro ⟨hC, hrest⟩ done s' hdone hrun
        cases done with
        | nil =>
            cases hrun
            exact hQ
        | cons e' done =>
            obtain ⟨rfl, hfront⟩ := List.cons_prefix_cons.mp hdone
            obtain ⟨s₁, hs₁, htail⟩ := run_cons.mp hrun
            have hpassed := hfirst.mpr hC s₁ hs₁
            exact (ih (hkeeps s e' s₁ hI hC hs₁) hpassed).mpr (hrest s₁ hs₁) done s' hfront htail

/-- A run does not end with the error `k` iff none of its steps does. -/
theorem run_ne_error_iff
    {C : σ → ε → Prop} {k : κ} (hstep : ∀ s e, step s e ≠ .error k ↔ C s e)
    (s : σ) (es : List ε) :
    run step s es ≠ .error k ↔ Meets C step s es := by
  induction es generalizing s with
  | nil =>
      exact iff_of_true (fun h => by cases h) trivial
  | cons e es ih =>
      rw [Meets, ← hstep]
      cases hs : step s e with
      | error k' =>
          have hrun : run step s (e :: es) = .error k' := by
            rw [run, hs]
            rfl
          rw [hrun]
          simp
      | ok s' =>
          have hrun : run step s (e :: es) = run step s' es := by
            rw [run, hs]
            rfl
          rw [hrun, ih s']
          simp

/-- The test of every step of a run. -/
def meetsTest (test : σ → ε → Bool) (step : σ → ε → Except κ σ) : σ → List ε → Bool
  | _, [] => true
  | s, e :: es => test s e && (step s e).toOption.all fun s' => meetsTest test step s' es

/-- A run passes the test if all its steps do. -/
theorem meets_of_test
    {C : σ → ε → Prop} {test : σ → ε → Bool} (htest : ∀ s e, test s e = true → C s e)
    {s : σ} {es : List ε} (h : meetsTest test step s es = true) :
    Meets C step s es := by
  induction es generalizing s with
  | nil =>
      trivial
  | cons e es ih =>
      rw [meetsTest, Bool.and_eq_true] at h
      refine ⟨htest s e h.1, ?_⟩
      intro s' hs'
      apply ih
      simpa [hs', Except.toOption] using h.2

/-- A computation that passes a test has succeeded. -/
theorem exists_ok_of_any
    {α : Type*} (x : Except κ α) (test : α → Bool) (h : x.toOption.any test = true) :
    ∃ a, x = .ok a ∧ test a = true := by
  cases x with
  | error k =>
      cases h
  | ok a =>
      exact ⟨a, rfl, h⟩

section AtEnd

/-- The last state of a computation whose failures keep the state. -/
def atEnd : Except σ σ → σ
  | .ok s => s
  | .error s => s

variable {keepStep : σ → ε → Except σ σ} {I Q : σ → Prop}

/-- What both parts of a computation keep, the computation keeps. -/
theorem atEnd_bind
    {x : Except σ σ} {f : σ → Except σ σ} (hx : I (atEnd x)) (hf : ∀ s, I s → I (atEnd (f s))) :
    I (atEnd (x.bind f)) := by
  cases x with
  | error s =>
      exact hx
  | ok s =>
      exact hf s hx

/-- What the second part cannot repair holds after the first part. -/
theorem of_atEnd_bind
    {x : Except σ σ} {f : σ → Except σ σ} (hf : ∀ s, Q (atEnd (f s)) → Q s)
    (hend : Q (atEnd (x.bind f))) :
    Q (atEnd x) := by
  cases x with
  | error s =>
      exact hend
  | ok s =>
      exact hf s hend

/-- What a step cannot repair, a run cannot repair. -/
theorem of_atEnd_run
    (hback : ∀ s e, Q (atEnd (keepStep s e)) → Q s)
    {s : σ} {es : List ε} (hend : Q (atEnd (run keepStep s es))) :
    Q s := by
  induction es generalizing s with
  | nil =>
      exact hend
  | cons e es ih =>
      exact hback s e (of_atEnd_bind (fun _ => ih) hend)

/-- A property that cannot be repaired holds at the end of a run iff every step of the run
meets `C`, if `C` says of one step that it keeps the property. -/
theorem atEnd_run_iff
    {C : σ → ε → Prop}
    (hstep : ∀ s e, I s → Q s → (Q (atEnd (keepStep s e)) ↔ C s e))
    (hkeeps : ∀ s e, I s → I (atEnd (keepStep s e)))
    (hback : ∀ s e, Q (atEnd (keepStep s e)) → Q s)
    {s : σ} (hI : I s) (hQ : Q s) (es : List ε) :
    Q (atEnd (run keepStep s es)) ↔ Meets C keepStep s es := by
  induction es generalizing s with
  | nil =>
      exact iff_of_true hQ trivial
  | cons e es ih =>
      have hfirst := hstep s e hI hQ
      have hI' := hkeeps s e hI
      rw [run, Meets]
      cases hs : keepStep s e with
      | error s' =>
          rw [hs] at hfirst
          exact hfirst.trans (and_iff_left fun s' h => by cases h).symm
      | ok s' =>
          rw [hs] at hfirst hI'
          constructor
          · intro hend
            have hQ' : Q s' := of_atEnd_run hback hend
            refine ⟨hfirst.mp hQ', ?_⟩
            intro s'' heq
            cases heq
            exact (ih hI' hQ').mp hend
          · rintro ⟨hC, hmeets⟩
            exact (ih hI' (hfirst.mpr hC)).mpr (hmeets s' rfl)

/-- What every step keeps, also when it fails, holds at the end of a run. -/
theorem atEnd_run
    (hkeeps : ∀ s e, I s → I (atEnd (keepStep s e)))
    {s : σ} (hI : I s) (es : List ε) :
    I (atEnd (run keepStep s es)) := by
  induction es generalizing s with
  | nil =>
      exact hI
  | cons e es ih =>
      exact atEnd_bind (hkeeps s e hI) fun _ => ih

end AtEnd

section Histories

variable {α : Type u}

/-- Every entry of the history satisfies `P` with respect to its past. -/
def Justified (P : List α → α → Prop) (history : List α) : Prop :=
  ∀ past a future, history = past ++ a :: future → P past a

variable {P : List α → α → Prop}

theorem justified_nil :
    Justified P [] := by
  intro past a future h
  simp at h

/-- One more entry needs to be justified by the whole history before it. -/
theorem Justified.snoc
    {history : List α} {a : α}
    (h : Justified P history) (ha : P history a) :
    Justified P (history ++ [a]) := by
  intro past b future heq
  rcases List.eq_nil_or_concat future with rfl | ⟨front, last, rfl⟩
  · obtain ⟨rfl, hb⟩ := List.append_inj' heq rfl
    cases hb
    exact ha
  · have hcut : history ++ [a] = (past ++ b :: front) ++ [last] := by
      simpa using heq
    exact h past b front (List.append_inj' hcut rfl).1

/-- A front of a justified history is justified. -/
theorem Justified.of_append
    {history more : List α} (h : Justified P (history ++ more)) :
    Justified P history := by
  rintro past a future rfl
  apply h past a (future ++ more)
  simp

theorem justified_snoc_iff
    {history : List α} {a : α} :
    Justified P (history ++ [a]) ↔ Justified P history ∧ P history a := by
  constructor
  · intro h
    exact ⟨h.of_append, h history a [] rfl⟩
  · rintro ⟨h, ha⟩
    exact h.snoc ha

/-- Entry by entry. -/
theorem justified_iff_getElem
    {history : List α} :
    Justified P history ↔ ∀ k (h : k < history.length), P (history.take k) history[k] := by
  constructor
  · intro hall k h
    apply hall (history.take k) history[k] (history.drop (k + 1))
    rw [List.getElem_cons_drop, List.take_append_drop]
  · rintro hall past a future rfl
    have := hall past.length (by simp)
    simpa using this

instance decidableJustified
    [∀ past a, Decidable (P past a)] (history : List α) :
    Decidable (Justified P history) :=
  decidable_of_iff _ justified_iff_getElem.symm

/-- Entries that need no justification can be added in any number. -/
theorem Justified.append
    {history more : List α}
    (h : Justified P history) (hmore : ∀ a ∈ more, ∀ past, P past a) :
    Justified P (history ++ more) := by
  induction more generalizing history with
  | nil =>
      simpa using h
  | cons a more ih =>
      have ha := h.snoc (hmore a (by simp) history)
      have := ih ha (fun b hb => hmore b (List.mem_cons_of_mem a hb))
      simpa using this

/-- A justified history goes on with entries that are justified behind it. -/
theorem Justified.concat
    {Q : List α → α → Prop} {history more : List α}
    (h : Justified P history) (hPQ : ∀ past a, P past a → Q past a)
    (hmore : Justified (fun past a => Q (history ++ past) a) more) :
    Justified Q (history ++ more) := by
  intro past a future heq
  rcases List.append_eq_append_iff.mp heq with ⟨front, rfl, hfront⟩ | ⟨back, rfl, hback⟩
  · exact hmore front a future hfront
  · cases back with
    | nil =>
        simpa using hmore [] a future hback.symm
    | cons b back =>
        obtain ⟨rfl, -⟩ := List.cons.inj hback
        exact hPQ past _ (h past _ back rfl)

/-- Entries that need no justification can be left out of the history. -/
theorem Justified.of_filter
    {keep : α → Bool} {history : List α}
    (h : Justified P (history.filter keep))
    (hkept : ∀ past a, keep a = true → P (past.filter keep) a → P past a)
    (hleft : ∀ past a, keep a = false → P past a) :
    Justified P history := by
  rintro past a future rfl
  cases ha : keep a with
  | false =>
      exact hleft past a ha
  | true =>
      apply hkept past a ha
      apply h (past.filter keep) a (future.filter keep)
      simp [List.filter_append, ha]

/-- What the steps of a run put out. -/
def outputs (out : σ → ε → List α) (step : σ → ε → Except κ σ) : σ → List ε → List α
  | _, [] => []
  | s, e :: es =>
      out s e ++
        match step s e with
        | .error _ => []
        | .ok s' => outputs out step s' es

/-- The output of a run that goes on. -/
theorem outputs_append
    {out : σ → ε → List α} {s s' : σ} {es : List ε} (hrun : run step s es = .ok s')
    (more : List ε) :
    outputs out step s (es ++ more) = outputs out step s es ++ outputs out step s' more := by
  induction es generalizing s with
  | nil =>
      simp only [run_nil, Except.ok.injEq] at hrun
      rw [hrun]
      rfl
  | cons e es ih =>
      obtain ⟨s₁, hs₁, hrest⟩ := run_cons.mp hrun
      rw [List.cons_append, outputs, outputs, hs₁]
      dsimp only
      rw [ih hrest, List.append_assoc]

theorem outputs_singleton
    (out : σ → ε → List α) (step : σ → ε → Except κ σ) (s : σ) (e : ε) :
    outputs out step s [e] = out s e := by
  rw [outputs]
  cases step s e <;> exact List.append_nil _

/-- What relates the past output to the state, and is kept by the steps that meet `C`,
relates the output of a run to its last state. -/
theorem outputs_invariant_of_meets
    {out : σ → ε → List α} {C : σ → ε → Prop} {I : List α → σ → Prop}
    (hkeeps : ∀ past s e s', I past s → C s e → step s e = .ok s' → I (past ++ out s e) s')
    {past : List α} {s s' : σ} {es : List ε}
    (hI : I past s) (hC : Meets C step s es) (hrun : run step s es = .ok s') :
    I (past ++ outputs out step s es) s' := by
  induction es generalizing past s with
  | nil =>
      simp only [run_nil, Except.ok.injEq] at hrun
      rw [outputs, List.append_nil]
      exact hrun ▸ hI
  | cons e es ih =>
      obtain ⟨s₁, hs₁, hrest⟩ := run_cons.mp hrun
      rw [outputs, hs₁, ← List.append_assoc]
      exact ih (hkeeps past s e s₁ hI hC.1 hs₁) (hC.2 s₁ hs₁) hrest

theorem meets_true
    (s : σ) (es : List ε) :
    Meets (fun _ _ => True) step s es := by
  induction es generalizing s with
  | nil =>
      trivial
  | cons e es ih =>
      exact ⟨trivial, fun s' _ => ih s'⟩

/-- The same for what every step keeps. -/
theorem outputs_invariant
    {out : σ → ε → List α} {I : List α → σ → Prop}
    (hkeeps : ∀ past s e s', I past s → step s e = .ok s' → I (past ++ out s e) s')
    {past : List α} {s s' : σ} {es : List ε}
    (hI : I past s) (hrun : run step s es = .ok s') :
    I (past ++ outputs out step s es) s' :=
  outputs_invariant_of_meets (fun past s e s' hI _ hs => hkeeps past s e s' hI hs) hI
    (meets_true s es) hrun

/-- The same for two outputs of one run. -/
theorem outputs_invariant_both
    {β : Type u} {out : σ → ε → List α} {out' : σ → ε → List β} {C : σ → ε → Prop}
    {I : List α → List β → σ → Prop}
    (hkeeps : ∀ past past' s e s', I past past' s → C s e → step s e = .ok s' →
      I (past ++ out s e) (past' ++ out' s e) s')
    {past : List α} {past' : List β} {s s' : σ} {es : List ε}
    (hI : I past past' s) (hC : Meets C step s es) (hrun : run step s es = .ok s') :
    I (past ++ outputs out step s es) (past' ++ outputs out' step s es) s' := by
  induction es generalizing past past' s with
  | nil =>
      simp only [run_nil, Except.ok.injEq] at hrun
      rw [outputs, outputs, List.append_nil, List.append_nil]
      exact hrun ▸ hI
  | cons e es ih =>
      obtain ⟨s₁, hs₁, hrest⟩ := run_cons.mp hrun
      rw [outputs, outputs, hs₁, ← List.append_assoc, ← List.append_assoc]
      exact ih (hkeeps past past' s e s₁ hI hC.1 hs₁) (hC.2 s₁ hs₁) hrest

/-- The output of a run is justified iff every step of the run meets `C`, if `C` says of
one step that its output is justified. -/
theorem justified_outputs_iff
    {out : σ → ε → List α} {C : σ → ε → Prop} {I : List α → σ → Prop}
    (hstep : ∀ past s e, I past s → Justified P past →
      (Justified P (past ++ out s e) ↔ C s e))
    (hkeeps : ∀ past s e s', I past s → C s e → step s e = .ok s' → I (past ++ out s e) s')
    {past : List α} {s : σ} (hI : I past s) (hpast : Justified P past) (es : List ε) :
    Justified P (past ++ outputs out step s es) ↔ Meets C step s es := by
  induction es generalizing past s with
  | nil =>
      rw [outputs, List.append_nil]
      exact iff_of_true hpast trivial
  | cons e es ih =>
      rw [outputs, Meets, ← List.append_assoc]
      cases hs : step s e with
      | error k =>
          rw [List.append_nil, hstep past s e hI hpast]
          exact (and_iff_left fun s' h => by cases h).symm
      | ok s' =>
          have hrest : C s e → Justified P (past ++ out s e) →
              (Justified P (past ++ out s e ++ outputs out step s' es) ↔
                Meets C step s' es) := fun hC => ih (hkeeps past s e s' hI hC hs)
          constructor
          · intro h
            have hfront := h.of_append
            have hC := (hstep past s e hI hpast).mp hfront
            refine ⟨hC, ?_⟩
            intro s'' heq
            cases heq
            exact (hrest hC hfront).mp h
          · rintro ⟨hC, hmeets⟩
            exact (hrest hC ((hstep past s e hI hpast).mpr hC)).mpr (hmeets s' rfl)

/-- All output of a run has a property iff every step of the run meets `C`, if `C` says
of one step that its output has the property. -/
theorem forall_outputs_iff
    {out : σ → ε → List α} {C : σ → ε → Prop} {I : σ → Prop} {Q : α → Prop}
    (hstep : ∀ s e, I s → ((∀ a ∈ out s e, Q a) ↔ C s e))
    (hkeeps : ∀ s e s', I s → step s e = .ok s' → I s')
    {s : σ} (hI : I s) (es : List ε) :
    (∀ a ∈ outputs out step s es, Q a) ↔ Meets C step s es := by
  induction es generalizing s with
  | nil =>
      simp [outputs, Meets]
  | cons e es ih =>
      rw [outputs, Meets, List.forall_mem_append, hstep s e hI]
      cases hs : step s e with
      | error k =>
          simp
      | ok s' =>
          simp only [ih (hkeeps s e s' hI hs), Except.ok.injEq, forall_eq']

/-- What `f` reads off the latest entry that it reads anything off. -/
def latest {β : Type v} (f : α → Option β) (history : List α) : Option β :=
  history.reverse.findSome? f

variable {β : Type v} {f : α → Option β}

@[simp] theorem latest_nil :
    latest f [] = none := by
  rfl

@[simp] theorem latest_append
    (past future : List α) :
    latest f (past ++ future) = (latest f future).or (latest f past) := by
  simp [latest, List.findSome?_append]

@[simp] theorem latest_singleton
    (a : α) :
    latest f [a] = f a := by
  cases hfa : f a <;> simp [latest, hfa]

/-- The latest entry is followed by entries that are not read. -/
theorem latest_eq_some_iff
    {history : List α} {b : β} :
    latest f history = some b ↔
      ∃ past a future, history = past ++ a :: future ∧ f a = some b ∧
        ∀ a' ∈ future, f a' = none := by
  unfold latest
  rw [List.findSome?_eq_some_iff]
  constructor
  · rintro ⟨front, a, back, hsplit, hfa, hfront⟩
    refine ⟨back.reverse, a, front.reverse, ?_, hfa, by simpa using hfront⟩
    have := congrArg List.reverse hsplit
    simpa using this
  · rintro ⟨past, a, future, rfl, hfa, hfuture⟩
    exact ⟨future.reverse, a, past.reverse, by simp, hfa, by simpa using hfuture⟩

/-- Entries that are not read can be left out of the history. -/
theorem latest_filter
    {keep : α → Bool} (hkeep : ∀ a, keep a = false → f a = none) (history : List α) :
    latest f (history.filter keep) = latest f history := by
  induction history using List.reverseRecOn with
  | nil =>
      rfl
  | append_singleton history a ih =>
      rw [List.filter_append, latest_append, latest_append, ih, latest_singleton]
      cases ha : keep a with
      | false =>
          simp [ha, hkeep a ha]
      | true =>
          simp [ha]

end Histories

end Runs
end ChatRoom
