import Mathlib

/-!
# Scanning a list for the first element that stops the scan

A loop `for i, x := range xs` whose body returns at the first `x` with some property and otherwise
goes on is `firstHit`: it splits the list at that element. `firstHit_eq_some_iff` and
`firstHit_eq_none_iff` say what the two outcomes mean, so that a proof about such a loop needs no
induction of its own.
-/

namespace Obstor.Lib

open List

variable {α : Type}

/-- The first element with `p`, with what stands before and after it. -/
def firstHit (p : α → Bool) : List α → Option (List α × α × List α)
  | [] => none
  | a :: l => if p a then some ([], a, l) else (firstHit p l).map fun r => (a :: r.1, r.2)

variable {p : α → Bool}

lemma dropWhile_eq_filter {l : List α} (h : l.Pairwise fun a b => p b → p a) :
    l.dropWhile p = l.filter fun a => !p a := by
  induction l with
  | nil => rfl
  | cons a l ih =>
    obtain ⟨ha, hl⟩ := pairwise_cons.mp h
    by_cases hp : p a
    · rw [dropWhile_cons_of_pos hp, ih hl, filter_cons_of_neg (by simp [hp])]
    · rw [dropWhile_cons_of_neg hp, eq_comm, filter_eq_self]
      refine forall_mem_cons.mpr ⟨by simp [hp], fun b hb => ?_⟩
      simpa using mt (ha b hb) hp

lemma le_of_mem_dropWhile {κ : Type} [LinearOrder κ] {f : α → κ} {k : κ} {l : List α}
    [∀ a, Decidable (f a < k)] (h : l.Pairwise fun a b => f a ≤ f b) {a : α}
    (ha : a ∈ l.dropWhile fun a => f a < k) : k ≤ f a := by
  rw [dropWhile_eq_filter (h.imp fun hle h => ?_), mem_filter] at ha
  · simpa using ha.2
  · simpa using hle.trans_lt (of_decide_eq_true h)

lemma firstHit_cons_of_pos {a : α} (h : p a) (l : List α) :
    firstHit p (a :: l) = some ([], a, l) := by
  rw [firstHit, if_pos h]

lemma firstHit_cons_of_neg {a : α} (h : ¬ p a) (l : List α) :
    firstHit p (a :: l) = (firstHit p l).map fun r => (a :: r.1, r.2) := by
  rw [firstHit, if_neg h]

lemma firstHit_eq_none_iff {l : List α} : firstHit p l = none ↔ ∀ a ∈ l, ¬ p a := by
  induction l with
  | nil => simp [firstHit]
  | cons b l ih =>
    by_cases hb : p b
    · simp [firstHit_cons_of_pos hb, hb]
    · rw [firstHit_cons_of_neg hb, Option.map_eq_none_iff, ih, forall_mem_cons]
      exact (and_iff_right hb).symm

lemma firstHit_append {pre : List α} {a : α} (hpre : ∀ b ∈ pre, ¬ p b) (ha : p a)
    (post : List α) : firstHit p (pre ++ a :: post) = some (pre, a, post) := by
  induction pre with
  | nil => exact firstHit_cons_of_pos ha post
  | cons b pre ih =>
    obtain ⟨hb, hpre⟩ := forall_mem_cons.mp hpre
    rw [cons_append, firstHit_cons_of_neg hb, ih hpre]
    rfl

lemma firstHit_eq_some_iff {l pre post : List α} {a : α} : firstHit p l = some (pre, a, post) ↔
      l = pre ++ a :: post ∧ p a ∧ ∀ b ∈ pre, ¬ p b := by
  refine ⟨fun h => ?_, fun h => h.1 ▸ firstHit_append h.2.2 h.2.1 post⟩
  induction l generalizing pre with
  | nil => cases h
  | cons b l ih =>
    by_cases hb : p b
    · rw [firstHit_cons_of_pos hb] at h
      cases h
      exact ⟨rfl, hb, by simp⟩
    · rw [firstHit_cons_of_neg hb] at h
      obtain ⟨⟨pre', a', post'⟩, hr, heq⟩ := Option.map_eq_some_iff.mp h
      cases heq
      obtain ⟨rfl, ha, hpre⟩ := ih hr
      exact ⟨rfl, ha, forall_mem_cons.mpr ⟨hb, hpre⟩⟩

end Obstor.Lib
