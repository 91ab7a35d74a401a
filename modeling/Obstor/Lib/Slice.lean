import Mathlib

/-!
# Slices and blocks of a list

`slice o n l` is the part of `l` from `o`, `n` elements long or up to the end. `blocks b l` cuts a
list into pieces of `b` elements, the last one possibly shorter, as a loop that fills a buffer of
`b` bytes reads a stream (`blocks_cons`). `block b j l` is piece number `j`; parts of
any length are found at `partStart`.
-/

namespace Obstor.Lib

open List

variable {α : Type}

/-! ### Slices -/

/-- `l[o : o+n]`, cut off at the end of the list. -/
def slice (o n : ℕ) (l : List α) : List α := (l.drop o).take n

@[simp] lemma slice_length (o n : ℕ) (l : List α) :
    (slice o n l).length = min n (l.length - o) := by
  rw [slice, length_take, length_drop]

@[simp] lemma slice_zero (o : ℕ) (l : List α) : slice o 0 l = [] := rfl

@[simp] lemma slice_nil (o n : ℕ) : slice o n ([] : List α) = [] := by
  simp [slice]

lemma slice_add (o m n : ℕ) (l : List α) :
    slice o (m + n) l = slice o m l ++ slice (o + m) n l := by
  rw [slice, take_add, drop_drop]
  rfl

lemma slice_slice (o n o' n' : ℕ) (l : List α) :
    slice o' n' (slice o n l) = slice (o + o') (min n' (n - o')) l := by
  rw [slice, slice, slice, drop_take, take_take, drop_drop]

variable {o : ℕ} {l₁ : List α}

lemma slice_append_right (n : ℕ) (l₂ : List α) (h : l₁.length ≤ o) :
    slice o n (l₁ ++ l₂) = slice (o - l₁.length) n l₂ := by
  rw [slice, drop_append, drop_of_length_le h]
  rfl

lemma slice_append_left (n : ℕ) (l₂ : List α) (h : o ≤ l₁.length) :
    slice o n (l₁ ++ l₂) = slice o n l₁ ++ slice 0 (n - (l₁.length - o)) l₂ := by
  rw [slice, drop_append, Nat.sub_eq_zero_of_le h, take_append, length_drop]
  rfl

variable {n : ℕ}

lemma slice_append_of_le (l₂ : List α) (h : o + n ≤ l₁.length) :
    slice o n (l₁ ++ l₂) = slice o n l₁ := by
  rw [slice_append_left n l₂ (by omega), Nat.sub_eq_zero_of_le (by omega), slice_zero, append_nil]

/-! ### Blocks -/

/-- Piece number `j` of `b` elements. -/
def block (b j : ℕ) (l : List α) : List α := slice (j * b) b l

def blockCount (b n : ℕ) : ℕ := (n + b - 1) / b

def blocks (b : ℕ) (l : List α) : List (List α) :=
  (List.range (blockCount b l.length)).map fun j => block b j l

variable {b j : ℕ}

lemma slice_block (l : List α) (h : o + n ≤ b) :
    slice o n (block b j l) = slice (j * b + o) n l := by
  rw [block, slice_slice, min_eq_left (by omega)]

@[simp] lemma block_length (b j : ℕ) (l : List α) :
    (block b j l).length = min b (l.length - j * b) := slice_length _ _ _

@[simp] lemma blocks_length (b : ℕ) (l : List α) : (blocks b l).length = blockCount b l.length := by
  simp [blocks]

lemma lt_blockCount_iff (hb : 0 < b) : j < blockCount b n ↔ j * b < n := by
  rw [blockCount, Nat.lt_iff_add_one_le, Nat.le_div_iff_mul_le hb, add_mul]
  omega

lemma blockCount_pos (hb : 0 < b) (hn : 0 < n) : 0 < blockCount b n :=
  (lt_blockCount_iff hb).mpr (by simpa using hn)

lemma le_mul_blockCount (hb : 0 < b) (n : ℕ) : n ≤ b * blockCount b n := by
  by_contra h
  have := (lt_blockCount_iff (j := blockCount b n) hb).mpr (by rw [mul_comm]; omega : _ < n)
  exact absurd this (lt_irrefl _)

@[simp] lemma blockCount_zero (hb : 0 < b) : blockCount b 0 = 0 := by
  exact Nat.div_eq_of_lt (by omega)

lemma blockCount_mono {m : ℕ} (h : m ≤ n) : blockCount b m ≤ blockCount b n :=
  Nat.div_le_div_right (by omega)

@[simp] lemma blocks_nil (hb : 0 < b) : blocks b ([] : List α) = [] := by
  simp [blocks, blockCount_zero hb]

lemma blockCount_add (hb : 0 < b) (hn : 0 < n) : blockCount b n = blockCount b (n - b) + 1 := by
  unfold blockCount
  by_cases h : b ≤ n
  · rw [show n + b - 1 = n - 1 + b by omega, Nat.add_div_right _ hb,
      show n - b + b - 1 = n - 1 by omega]
  · rw [show n - b + b - 1 = b - 1 by omega, Nat.div_eq_of_lt (by omega : b - 1 < b)]
    exact Nat.div_eq_of_lt_le (by omega) (by omega)

variable {l : List α}

lemma blocks_cons (hb : 0 < b) (hl : l ≠ []) : blocks b l = l.take b :: blocks b (l.drop b) := by
  have hlen : 0 < l.length := length_pos_of_ne_nil hl
  rw [blocks, blockCount_add hb hlen, range_succ_eq_map, map_cons, map_map, blocks, length_drop]
  congr 1
  · simp [block, slice]
  · refine map_congr_left fun j _ => ?_
    simp only [Function.comp_apply, block, slice, drop_drop]
    rw [Nat.succ_mul, add_comm]

lemma blocks_of_length_le (hl : l ≠ []) (hle : l.length ≤ b) : blocks b l = [l] := by
  have hb : 0 < b := (length_pos_of_ne_nil hl).trans_le hle
  rw [blocks_cons hb hl, take_of_length_le hle, drop_of_length_le hle, blocks_nil hb]

lemma flatten_range_block (b k : ℕ) (l : List α) :
    ((List.range k).map fun j => block b j l).flatten = slice 0 (k * b) l := by
  induction k with
  | zero => simp
  | succ k ih =>
    rw [range_succ, map_append, flatten_append, ih, Nat.succ_mul, slice_add]
    simp [block]

lemma flatten_blocks (hb : 0 < b) (l : List α) : (blocks b l).flatten = l := by
  rw [blocks, flatten_range_block, mul_comm]
  exact take_of_length_le (le_mul_blockCount hb _)

lemma blocks_drop (hb : 0 < b) (n : ℕ) (l : List α) :
    (blocks b l).drop n = blocks b (l.drop (n * b)) := by
  induction n generalizing l with
  | zero => simp
  | succ n ih =>
    by_cases hl : l = []
    · rw [hl, drop_nil, blocks_nil hb, drop_nil]
    · rw [blocks_cons hb hl, drop_succ_cons, ih, drop_drop, Nat.succ_mul, add_comm]

lemma blocks_take (hb : 0 < b) (n : ℕ) (l : List α) :
    (blocks b l).take n = blocks b (l.take (n * b)) := by
  induction n generalizing l with
  | zero => simp [blocks_nil hb]
  | succ n ih =>
    by_cases hl : l = []
    · rw [hl, take_nil, blocks_nil hb, take_nil]
    · have hpos : 0 < (n + 1) * b := Nat.mul_pos (Nat.succ_pos n) hb
      have hne : l.take ((n + 1) * b) ≠ [] := by
        intro hnil
        rcases take_eq_nil_iff.mp hnil with h | h
        · omega
        · exact hl h
      rw [blocks_cons hb hl, take_succ_cons, ih, blocks_cons hb hne, take_take,
        drop_take, Nat.succ_mul, Nat.add_sub_cancel, min_eq_left (Nat.le_add_left b _)]

/-! ### Parts of any length -/

/-- Where part number `p` starts in the parts put together. -/
def partStart (ls : List (List α)) (p : ℕ) : ℕ := (ls.take p).flatten.length

@[simp] lemma partStart_zero (ls : List (List α)) : partStart ls 0 = 0 := rfl

variable {p : ℕ} {ls : List (List α)}

lemma partStart_succ (hp : p < ls.length) :
    partStart ls (p + 1) = partStart ls p + ls[p].length := by
  rw [partStart, take_succ_eq_append_getElem hp, flatten_append, length_append, flatten_singleton]
  rfl

lemma partStart_of_le (hp : ls.length ≤ p) : partStart ls p = ls.flatten.length := by
  rw [partStart, take_of_length_le hp]

lemma partStart_cons_succ (l : List α) (ls : List (List α)) (p : ℕ) :
    partStart (l :: ls) (p + 1) = l.length + partStart ls p := by
  rw [partStart, take_succ_cons, flatten_cons, length_append]
  rfl

lemma partStart_mono (ls : List (List α)) {q : ℕ} (h : p ≤ q) : partStart ls p ≤ partStart ls q :=
  (take_prefix_take_left h).flatten.length_le

lemma partStart_add_length_le
    (h : ls[p]? = some l) : partStart ls p + l.length ≤ ls.flatten.length := by
  obtain ⟨hp, rfl⟩ := List.getElem?_eq_some_iff.mp h
  rw [← partStart_succ hp, ← partStart_of_le le_rfl]
  exact partStart_mono ls hp

lemma partStart_add (ls : List (List α)) (p q : ℕ) :
    partStart ls (p + q) = partStart ls p + partStart (ls.drop p) q := by
  rw [partStart, take_add, flatten_append, length_append]
  rfl

lemma partStart_add_length_drop (ls : List (List α)) (p : ℕ) :
    partStart ls p + (ls.drop p).flatten.length = ls.flatten.length := by
  conv_rhs => rw [← take_append_drop p ls, flatten_append, length_append]
  rfl

lemma slice_partStart_add (ls : List (List α)) (p o n : ℕ) :
    slice (partStart ls p + o) n ls.flatten = slice o n (ls.drop p).flatten := by
  conv_lhs => rw [← take_append_drop p ls, flatten_append]
  rw [take_append_drop, partStart, slice_append_right _ _ (Nat.le_add_right _ _),
    Nat.add_sub_cancel_left]

lemma slice_part (hp : p < ls.length) (h : o + n ≤ ls[p].length) :
    slice (partStart ls p + o) n ls.flatten = slice o n ls[p] := by
  rw [slice_partStart_add, drop_eq_getElem_cons hp, flatten_cons, slice_append_of_le _ h]

/-! ### Records of one length -/

lemma slice_flatten {size : ℕ} (hj : j < ls.length)
    (hsize : ∀ i, (hi : i < ls.length) → i < j → ls[i].length = size) :
    slice (j * size) ls[j].length ls.flatten = ls[j] := by
  have hstart : ∀ i ≤ j, partStart ls i = i * size := by
    intro i hi
    induction i with
    | zero => rw [partStart_zero, zero_mul]
    | succ i ih =>
      rw [partStart_succ (by omega), ih (by omega), hsize i (by omega) (by omega), Nat.succ_mul]
  rw [← hstart j le_rfl, ← add_zero (partStart ls j), slice_part hj (by omega)]
  exact take_length

end Obstor.Lib
