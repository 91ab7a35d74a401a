import Mathlib

/-!
# Runs of a partial step function

`step s a` is the state after a call `a` in state `s`, or `none` when the call fails; `run` is a
sequence of calls that all succeed.
-/

namespace Obstor.Lib

variable {σ α : Type} (step : σ → α → Option σ)

/-- A sequence of calls, all of them successful. -/
def run (s : σ) : List α → Option σ
  | [] => some s
  | a :: as => (step s a).bind fun s' => run s' as

/-- Every call of the run from `s` meets `C` in the state it is made in. -/
def Along (C : σ → α → Prop) (s : σ) : List α → Prop
  | [] => True
  | a :: as => C s a ∧ ∀ s', step s a = some s' → Along C s' as

/-- The condition can be checked along a run. -/
instance decidableAlong {C : σ → α → Prop} [∀ s a, Decidable (C s a)] (s : σ) :
    (as : List α) → Decidable (Along step C s as)
  | [] => .isTrue trivial
  | a :: as =>
    @instDecidableAnd _ _ _ (match step s a with
      | none => .isTrue fun _ hs' => nomatch hs'
      | some s' =>
        @decidable_of_iff _ (Along step C s' as)
          ⟨fun hC _ hu => Option.some.inj hu ▸ hC, fun hC => hC s' rfl⟩ (decidableAlong s' as))

/-- The run from `s` passes through `s'`. -/
def Visits (s : σ) (as : List α) (s' : σ) : Prop :=
  ∃ pre post, as = pre ++ post ∧ run step s pre = some s'

variable {step} {s t : σ} {a : α} {as : List α}

lemma run_cons (h : run step s (a :: as) = some t) :
    ∃ s', step s a = some s' ∧ run step s' as = some t := by
  exact Option.bind_eq_some_iff.mp h

lemma visits_self : Visits step s as s := ⟨[], as, rfl, rfl⟩

lemma visits_of_step {s' u : σ} (hs : step s a = some s') (hv : Visits step s' as u) :
    Visits step s (a :: as) u := by
  obtain ⟨pre, post, rfl, hrun⟩ := hv
  refine ⟨a :: pre, post, rfl, ?_⟩
  rw [run, hs]
  exact hrun

lemma visits_cons {s' u : σ} (hs : step s a = some s') (hv : Visits step s (a :: as) u) :
    u = s ∨ Visits step s' as u := by
  obtain ⟨pre, post, heq, hrun⟩ := hv
  cases pre with
  | nil =>
    left
    exact (Option.some.inj hrun).symm
  | cons b pre =>
    right
    obtain ⟨rfl, rfl⟩ := List.cons_eq_cons.mp heq
    obtain ⟨s₁, hs₁, hrun⟩ := run_cons hrun
    rw [hs] at hs₁
    cases hs₁
    exact ⟨pre, post, rfl, hrun⟩

lemma exists_run (htotal : ∀ s a, ∃ s', step s a = some s') (s : σ) (as : List α) :
    ∃ t, run step s as = some t := by
  induction as generalizing s with
  | nil => exact ⟨s, rfl⟩
  | cons a as ih =>
    obtain ⟨s', hs'⟩ := htotal s a
    obtain ⟨t, ht⟩ := ih s'
    refine ⟨t, ?_⟩
    rw [run, hs']
    exact ht

/-- What every step keeps, a run keeps. -/
lemma run_invariant {J : σ → Prop} (hJ : ∀ s a s', J s → step s a = some s' → J s')
    (hs : J s) (h : run step s as = some t) : J t := by
  induction as generalizing s with
  | nil =>
    cases h
    exact hs
  | cons a as ih =>
    obtain ⟨s', hstep, hrun⟩ := run_cons h
    exact ih (hJ s a s' hs hstep) hrun

/-- What every step keeps under a condition, a run keeps if its steps meet it. -/
lemma run_invariant_along {J : σ → Prop} {C : σ → α → Prop}
    (hJ : ∀ s a s', J s → C s a → step s a = some s' → J s')
    (hs : J s) (hC : Along step C s as) (h : run step s as = some t) : J t := by
  induction as generalizing s with
  | nil =>
    cases h
    exact hs
  | cons a as ih =>
    obtain ⟨s', hstep, hrun⟩ := run_cons h
    exact ih (hJ s a s' hs hC.1 hstep) (hC.2 s' hstep) hrun

lemma forall_visits_iff_along {I J : σ → Prop} {C : σ → α → Prop}
    (hJ : ∀ s a s', J s → step s a = some s' → J s')
    (hI : ∀ s a s', J s → I s → step s a = some s' → (I s' ↔ C s a))
    (hJs : J s) (hIs : I s) (hrun : run step s as = some t) :
    (∀ u, Visits step s as u → I u) ↔ Along step C s as := by
  induction as generalizing s with
  | nil =>
    refine iff_of_true (fun u hu => ?_) trivial
    obtain ⟨pre, post, heq, h⟩ := hu
    obtain ⟨rfl, -⟩ := List.append_eq_nil_iff.mp heq.symm
    cases h
    exact hIs
  | cons a as ih =>
    obtain ⟨s', hs', hrest⟩ := run_cons hrun
    have hJs' := hJ s a s' hJs hs'
    constructor
    · intro hall
      have hIs' : I s' := hall s' (visits_of_step hs' visits_self)
      refine ⟨(hI s a s' hJs hIs hs').mp hIs', fun u hu => ?_⟩
      rw [hs'] at hu
      cases hu
      exact (ih hJs' hIs' hrest).mp fun u hu => hall u (visits_of_step hs' hu)
    · rintro ⟨hC, halong⟩ u hu
      have hIs' : I s' := (hI s a s' hJs hIs hs').mpr hC
      rcases visits_cons hs' hu with rfl | hu
      · exact hIs
      · exact (ih hJs' hIs' hrest).mpr (halong s' hs') u hu

end Obstor.Lib
