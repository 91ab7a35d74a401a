import Obstor.Go.Values

/-!
# Strings as bytes

Names of objects and directories are compared byte by byte, as Go compares strings.
-/

namespace Obstor.Go

open List

/-- The order of bytes. -/
instance linearOrderUInt8 : LinearOrder UInt8 where
  le_refl := UInt8.le_refl
  le_trans := fun _ _ _ => UInt8.le_trans
  le_antisymm := fun _ _ => UInt8.le_antisymm
  le_total := UInt8.le_total
  lt_iff_le_not_ge := fun a b => by
    rw [UInt8.not_le]
    exact ⟨fun h => ⟨UInt8.le_of_lt h, h⟩, fun h => h.2⟩
  toDecidableLE := inferInstance
  toDecidableLT := inferInstance
  toDecidableEq := inferInstance

instance lawfulBEqUInt8 : LawfulBEq UInt8 := inferInstance

def trimSuffix (s suffix : Bytes) : Bytes :=
  if suffix.isSuffixOf s then s.take (s.length - suffix.length) else s

def trimPrefix (s pre : Bytes) : Bytes := if pre.isPrefixOf s then s.drop pre.length else s

def trim (s cutset : Bytes) : Bytes :=
  ((s.dropWhile (· ∈ cutset)).reverse.dropWhile (· ∈ cutset)).reverse

/-- `strings.Index`: where the text first occurs. -/
def index (s substr : Bytes) : Option ℕ :=
  (List.range (s.length + 1)).find? fun i => substr.isPrefixOf (s.drop i)

def contains (s substr : Bytes) : Bool := (index s substr).isSome

def lastIndexByte (c : UInt8) : Bytes → Option ℕ
  | [] => none
  | x :: s =>
    match lastIndexByte c s with
    | some i => some (i + 1)
    | none => if x = c then some 0 else none

lemma index_eq_some_iff {s substr : Bytes} {i : ℕ} : index s substr = some i ↔
      i ≤ s.length ∧ substr <+: s.drop i ∧ ∀ j < i, ¬ substr <+: s.drop j := by
  rw [index, find?_range_eq_some]
  simp only [List.isPrefixOf_iff_prefix, Bool.not_eq_true', mem_range, Nat.lt_succ_iff,
    ← Bool.not_eq_true]
  tauto

lemma index_isSome_iff {s substr : Bytes} :
    (index s substr).isSome ↔ ∃ i ≤ s.length, substr <+: s.drop i := by
  rw [index]
  simp

lemma contains_append (a substr b : Bytes) : contains (a ++ (substr ++ b)) substr := by
  refine index_isSome_iff.mpr ⟨a.length, by simp, ?_⟩
  rw [drop_left]
  exact prefix_append substr b

lemma lastIndexByte_eq_none_iff {c : UInt8} {s : Bytes} : lastIndexByte c s = none ↔ c ∉ s := by
  induction s with
  | nil => simp [lastIndexByte]
  | cons x s ih =>
    rw [lastIndexByte]
    cases h : lastIndexByte c s with
    | some i =>
      have hmem : c ∈ s := by
        by_contra hnot
        rw [ih.mpr hnot] at h
        cases h
      simp [hmem]
    | none => simp [ih.mp h, eq_comm]

lemma lastIndexByte_append {c : UInt8} {b : Bytes} (hb : c ∉ b) (a : Bytes) :
    lastIndexByte c (a ++ c :: b) = some a.length := by
  induction a with
  | nil => rw [nil_append, lastIndexByte, lastIndexByte_eq_none_iff.mpr hb, if_pos rfl]; rfl
  | cons x a ih => rw [cons_append, lastIndexByte, ih]; rfl

lemma lastIndexByte_eq_some {c : UInt8} {s : Bytes} {i : ℕ} (h : lastIndexByte c s = some i) :
    ∃ b, s = s.take i ++ c :: b ∧ c ∉ b := by
  induction s generalizing i with
  | nil => cases h
  | cons x s ih =>
    rw [lastIndexByte] at h
    cases hs : lastIndexByte c s with
    | some j =>
      rw [hs] at h
      cases h
      obtain ⟨b, hb, hnot⟩ := ih hs
      exact ⟨b, by rw [take_succ_cons, cons_append, ← hb], hnot⟩
    | none =>
      rw [hs] at h
      obtain ⟨rfl, hi⟩ := Option.ite_none_right_eq_some.mp h
      cases hi
      exact ⟨s, rfl, lastIndexByte_eq_none_iff.mp hs⟩

lemma trimSuffix_append (s suffix : Bytes) : trimSuffix (s ++ suffix) suffix = s := by
  have hsuffix : suffix.isSuffixOf (s ++ suffix) :=
    isSuffixOf_iff_suffix.mpr (suffix_append s suffix)
  rw [trimSuffix, if_pos hsuffix, length_append, Nat.add_sub_cancel, take_left]

lemma trimPrefix_append (pre s : Bytes) : trimPrefix (pre ++ s) pre = s := by
  have hpre : pre.isPrefixOf (pre ++ s) := isPrefixOf_iff_prefix.mpr (prefix_append pre s)
  rw [trimPrefix, if_pos hpre, drop_left]

end Obstor.Go
