import Mathlib

/-!
# The first elements of several sorted lists

Lists that are sorted by a total and transitive comparison `le`. The first `n` elements of all of
them together are among the first `n` elements of each: cutting every list before they are put
together, and sorted again, changes nothing there (`take_eq_of_cut`).
-/

namespace Obstor.Lib

open List

variable {α : Type} {le : α → α → Bool}

variable (le) in
lemma take_merge_take {n i j : ℕ} (hi : n ≤ i) (hj : n ≤ j) (a b : List α) :
    ((a.take i).merge (b.take j) le).take n = (a.merge b le).take n := by
  induction n generalizing i j a b with
  | zero => rw [take_zero, take_zero]
  | succ n ih =>
    obtain ⟨i, rfl⟩ := Nat.exists_eq_add_of_le' hi
    obtain ⟨j, rfl⟩ := Nat.exists_eq_add_of_le' hj
    cases a with
    | nil => simp [take_take]
    | cons x a =>
      cases b with
      | nil => simp [take_take]
      | cons y b =>
        rw [← add_assoc, ← add_assoc, take_succ_cons, take_succ_cons,
          cons_merge_cons, cons_merge_cons]
        split
        · have hrest := ih (i := i + n) (j := j + n + 1) (by omega) (by omega) a (y :: b)
          rw [take_succ_cons, take_succ_cons, ← hrest, take_succ_cons]
        · have hrest := ih (i := i + n + 1) (j := j + n) (by omega) (by omega) (x :: a) b
          rw [take_succ_cons, take_succ_cons, ← hrest, take_succ_cons]

def mergeAll (le : α → α → Bool) (ls : List (List α)) : List α := ls.foldr (List.merge · · le) []

lemma take_mergeAll_cut (n : ℕ) (ls : List (List α)) :
    (mergeAll le (ls.map (take n))).take n = (mergeAll le ls).take n := by
  induction ls with
  | nil => rfl
  | cons l ls ih =>
    have hcut := take_merge_take le (le_refl n) (le_refl n) (l.take n)
      (mergeAll le (ls.map (take n)))
    rw [take_take, Nat.min_self, ih] at hcut
    exact hcut.symm.trans (take_merge_take le (le_refl n) (le_refl n) l _)

lemma mergeAll_perm (ls : List (List α)) : (mergeAll le ls).Perm ls.flatten := by
  induction ls with
  | nil => rfl
  | cons l ls ih => exact (merge_perm_append le).trans (ih.append_left l)

section

variable (htrans : ∀ a b c, le a b = true → le b c = true → le a c = true)
  (htotal : ∀ a b, (le a b || le b a) = true) {ls : List (List α)}
  (hls : ∀ l ∈ ls, l.Pairwise fun a b => le a b = true)

include htrans htotal hls

lemma pairwise_mergeAll : (mergeAll le ls).Pairwise fun a b => le a b := by
  induction ls with
  | nil => exact .nil
  | cons l ls ih =>
    exact pairwise_merge htrans htotal l _ (hls l mem_cons_self)
      (ih fun l' hl' => hls l' (mem_cons_of_mem l hl'))

lemma take_eq_of_cut
    (hanti : ∀ a ∈ ls.flatten, ∀ b ∈ ls.flatten, le a b → le b a → a = b) {n : ℕ}
    {cut all : List α} (hcut : cut.Perm (ls.map (take n)).flatten) (hall : all.Perm ls.flatten)
    (hcutSorted : cut.Pairwise fun a b => le a b)
    (hallSorted : all.Pairwise fun a b => le a b) : cut.take n = all.take n := by
  have hsub : ∀ a ∈ (ls.map (take n)).flatten, a ∈ ls.flatten := by
    intro a ha
    obtain ⟨l', hl', hal'⟩ := mem_flatten.mp ha
    obtain ⟨l, hl, rfl⟩ := mem_map.mp hl'
    exact mem_flatten.mpr ⟨l, hl, mem_of_mem_take hal'⟩
  have hcuts : ∀ l ∈ ls.map (take n), l.Pairwise fun a b => le a b := by
    intro l' hl'
    obtain ⟨l, hl, rfl⟩ := mem_map.mp hl'
    exact (hls l hl).sublist (take_sublist n l)
  have hcutEq : cut = mergeAll le (ls.map (take n)) :=
    (hcut.trans (mergeAll_perm _).symm).eq_of_pairwise
      (fun a b ha hb => hanti a (hsub a (hcut.mem_iff.mp ha)) b
        (hsub b ((mergeAll_perm _).mem_iff.mp hb)))
      hcutSorted (pairwise_mergeAll htrans htotal hcuts)
  have hallEq : all = mergeAll le ls :=
    (hall.trans (mergeAll_perm _).symm).eq_of_pairwise
      (fun a b ha hb => hanti a (hall.mem_iff.mp ha) b ((mergeAll_perm _).mem_iff.mp hb))
      hallSorted (pairwise_mergeAll htrans htotal hls)
  rw [hcutEq, hallEq, take_mergeAll_cut]

end

end Obstor.Lib
