import Mathlib

/-!
# Prefixes and the lexicographic order

Lists over a linear order, compared from the left.
-/

namespace Obstor.Lib

open List

variable {α : Type}

lemma isPrefix_append_cases {q a b : List α} (h : q <+: a ++ b) :
    (q <+: a ∧ q ≠ a) ∨ ∃ q', q = a ++ q' ∧ q' <+: b := by
  have ha : a <+: a ++ b := prefix_append a b
  rcases Nat.lt_or_ge q.length a.length with hlt | hge
  · exact .inl ⟨prefix_of_prefix_length_le h ha hlt.le, fun heq => hlt.ne (congrArg length heq)⟩
  · obtain ⟨q', rfl⟩ := prefix_of_prefix_length_le ha h hge
    exact .inr ⟨q', rfl, (prefix_append_right_inj a).mp h⟩

variable [LinearOrder α]

lemma cons_le_cons_iff {x y : α} {a b : List α} : x :: a ≤ y :: b ↔ x < y ∨ x = y ∧ a ≤ b := by
  rw [← not_lt, ← not_lt]
  exact List.cons_le_cons_iff

lemma le_of_isPrefix {a b : List α} (h : a <+: b) : a ≤ b := not_lt.mp h.le

lemma append_lt_append {a b : List α} (h : a < b) (hnot : ¬ a <+: b) (s t : List α) :
    a ++ s < b ++ t := by
  induction a generalizing b with
  | nil => exact absurd nil_prefix hnot
  | cons x a ih =>
    cases b with
    | nil => exact absurd h (not_lt_nil _)
    | cons y b =>
      rw [cons_append, cons_append, cons_lt_cons_iff]
      rcases cons_lt_cons_iff.mp h with hxy | ⟨rfl, hab⟩
      · exact .inl hxy
      · exact .inr ⟨rfl, ih hab fun hpre => hnot (cons_prefix_cons.mpr ⟨rfl, hpre⟩)⟩

lemma isPrefix_of_le_of_le {pre b c : List α} (hc : pre <+: c) (hb : pre ≤ b) (hbc : b ≤ c) :
    pre <+: b := by
  by_contra hnot
  obtain ⟨rest, rfl⟩ := hc
  have hlt : pre < b := hb.lt_of_ne fun heq => hnot (heq ▸ prefix_refl pre)
  have hgt := append_lt_append hlt hnot rest []
  rw [append_nil] at hgt
  exact hbc.not_gt hgt

lemma concat_lt_concat {a b : List α} {s : α} (hab : a < b) (hb : b ≤ a ++ [s]) (hs : s ∉ b) :
    b ++ [s] < a ++ [s] := by
  by_cases hpre : a <+: b
  · obtain ⟨r, rfl⟩ := hpre
    rw [append_assoc]
    refine append_left_lt ?_
    cases r with
    | nil => exact absurd hab (by rw [append_nil]; exact lt_irrefl _)
    | cons x r =>
      have hle : x :: r ≤ [s] := not_lt.mp fun hlt => hb.not_gt (append_left_lt hlt)
      rcases cons_le_cons_iff.mp hle with hxs | ⟨rfl, -⟩
      · exact cons_lt_cons_iff.mpr (.inl hxs)
      · exact absurd (mem_append_right a mem_cons_self) hs
  · have hgt := append_lt_append hab hpre [s] []
    rw [append_nil] at hgt
    exact absurd hgt hb.not_gt

end Obstor.Lib
