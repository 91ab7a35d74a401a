import Mathlib

/-!
# Merging any number of sorted streams

Streams of elements with keys, each with strictly increasing keys. One round takes the least key `k`
that stands at the front of a stream, together with the elements of that key (`top k`), and goes on
with what is behind them (`rest k`). `Merges streams out` says that rounds until all streams are
empty give `out`.
-/

namespace Obstor.Lib.Merge

open List

variable {ν α : Type} [LinearOrder ν] (key : α → ν)

/-- Strictly increasing keys. -/
def Ascending (s : List α) : Prop := s.Pairwise fun a b => key a < key b

/-- The element of a stream with the given key. -/
def entryAt (k : ν) (s : List α) : Option α := s.find? fun a => key a = k

/-- The front of a stream, if it has the given key. -/
def top (k : ν) (s : List α) : Option α := s.head?.filter fun a => key a = k

/-- A stream without its front, if that has the given key. -/
def rest (k : ν) : List α → List α
  | [] => []
  | a :: s => if key a = k then s else a :: s

/-- The least key at the front of a stream. -/
structure Least (k : ν) (streams : List (List α)) : Prop where
  attained : ∃ s ∈ streams, ∃ a, s.head? = some a ∧ key a = k
  le : ∀ s ∈ streams, ∀ a, s.head? = some a → k ≤ key a

/-- The rounds until all streams are empty. -/
inductive Merges : List (List α) → List (ν × List (Option α)) → Prop
  | done {streams : List (List α)} (h : ∀ s ∈ streams, s = []) : Merges streams []
  | round {streams : List (List α)} {k : ν} {out : List (ν × List (Option α))}
      (hk : Least key k streams) (h : Merges (streams.map (rest key k)) out) :
      Merges streams ((k, streams.map (top key k)) :: out)

variable {key} {k : ν} {s : List α}

/-! ### One stream -/

variable (hs : Ascending key s) (hk : ∀ a, s.head? = some a → k ≤ key a)

include hs hk in
lemma rest_eq_filter : rest key k s = s.filter fun a => k < key a := by
  cases s with
  | nil => rfl
  | cons a s =>
    obtain ⟨hlt, -⟩ := pairwise_cons.mp hs
    have hge := hk a rfl
    have htail : ∀ b ∈ s, k < key b := fun b hb => hge.trans_lt (hlt b hb)
    have hfilter : s.filter (fun a => k < key a) = s :=
      filter_eq_self.mpr fun b hb => decide_eq_true (htail b hb)
    rw [rest]
    by_cases ha : key a = k
    · rw [if_pos ha, filter_cons_of_neg (by simp [ha]), hfilter]
    · have hak : k < key a := lt_of_le_of_ne hge (Ne.symm ha)
      rw [if_neg ha, filter_cons_of_pos (by simpa using hak), hfilter]

include hs in
lemma ascending_rest : Ascending key (rest key k s) := by
  cases s with
  | nil => exact hs
  | cons a s =>
    rw [rest]
    split_ifs
    · exact (pairwise_cons.mp hs).2
    · exact hs

include hs hk in
lemma top_eq_entryAt : top key k s = entryAt key k s := by
  cases s with
  | nil => rfl
  | cons a s =>
    rw [top, entryAt, head?_cons]
    by_cases ha : key a = k
    · rw [Option.filter_some_pos (by simpa using ha), find?_cons_of_pos (by simpa using ha)]
    · rw [Option.filter_some_neg (by simpa using ha), find?_cons_of_neg (by simpa using ha)]
      symm
      rw [find?_eq_none]
      intro b hb
      have hlt := (pairwise_cons.mp hs).1 b hb
      have hge := hk a rfl
      simpa using (hge.trans_lt hlt).ne'

include hs hk in
lemma entryAt_rest {k' : ν} (hlt : k < k') : entryAt key k' (rest key k s) = entryAt key k' s := by
  rw [rest_eq_filter hs hk, entryAt, find?_filter]
  congr 1
  funext a
  by_cases ha : key a = k'
  · simp [ha, hlt]
  · simp [ha]

include hs hk in
lemma mem_rest_iff {a : α} : a ∈ rest key k s ↔ a ∈ s ∧ k < key a := by
  rw [rest_eq_filter hs hk, mem_filter, decide_eq_true_iff]

include hs hk in
lemma le_of_mem {a : α} (ha : a ∈ s) : k ≤ key a := by
  cases s with
  | nil => cases ha
  | cons b s =>
    rcases mem_cons.mp ha with rfl | ha
    · exact hk a rfl
    · exact (hk b rfl).trans ((pairwise_cons.mp hs).1 a ha).le

/-! ### All rounds -/

variable {streams : List (List α)} {out : List (ν × List (Option α))}

/-- What the rounds give. -/
structure Spec (key : α → ν) (streams : List (List α)) (out : List (ν × List (Option α))) : Prop where
  ascending : (out.map Prod.fst).Pairwise (· < ·)
  keys : ∀ k, k ∈ out.map Prod.fst ↔ ∃ s ∈ streams, ∃ a ∈ s, key a = k
  entries : ∀ r ∈ out, r.2 = streams.map (entryAt key r.1)

lemma Merges.spec (h : Merges key streams out) (hs : ∀ s ∈ streams, Ascending key s) :
    Spec key streams out := by
  induction h with
  | done hempty =>
    refine ⟨List.Pairwise.nil, fun k => ?_, fun r hr => absurd hr not_mem_nil⟩
    refine iff_of_false not_mem_nil ?_
    rintro ⟨s, hmem, a, ha, -⟩
    rw [hempty s hmem] at ha
    cases ha
  | @round streams k out hk _ ih =>
    have hrest : ∀ s ∈ streams.map (rest key k), Ascending key s := by
      intro s hmem
      obtain ⟨s, hs', rfl⟩ := mem_map.mp hmem
      exact ascending_rest (hs s hs')
    obtain ⟨hasc, hkeys, hentries⟩ := ih hrest
    -- the later rounds have greater keys
    have hlater : ∀ k', k' ∈ out.map Prod.fst → k < k' := by
      intro k' hk'
      obtain ⟨s, hmem, a, ha, rfl⟩ := (hkeys k').mp hk'
      obtain ⟨s, hs', rfl⟩ := mem_map.mp hmem
      exact ((mem_rest_iff (hs s hs') (hk.le s hs')).mp ha).2
    refine ⟨pairwise_cons.mpr ⟨hlater, hasc⟩, fun k' => ?_, fun r hr => ?_⟩
    · rw [map_cons, mem_cons, hkeys]
      constructor
      · rintro (rfl | ⟨s, hmem, a, ha, rfl⟩)
        · obtain ⟨s, hmem, a, ha, hka⟩ := hk.attained
          exact ⟨s, hmem, a, mem_of_head? ha, hka⟩
        · obtain ⟨s, hs', rfl⟩ := mem_map.mp hmem
          exact ⟨s, hs', a, ((mem_rest_iff (hs s hs') (hk.le s hs')).mp ha).1, rfl⟩
      · rintro ⟨s, hmem, a, ha, rfl⟩
        rcases (le_of_mem (hs s hmem) (hk.le s hmem) ha).eq_or_lt with heq | hlt
        · exact .inl heq.symm
        · exact .inr ⟨rest key k s, mem_map_of_mem hmem, a,
            (mem_rest_iff (hs s hmem) (hk.le s hmem)).mpr ⟨ha, hlt⟩, rfl⟩
    · rcases mem_cons.mp hr with rfl | hr
      · exact map_congr_left fun s hmem => top_eq_entryAt (hs s hmem) (hk.le s hmem)
      · rw [hentries r hr, map_map]
        refine map_congr_left fun s hmem => ?_
        exact entryAt_rest (hs s hmem) (hk.le s hmem) (hlater r.1 (mem_map_of_mem hr))

/-! ### Rounds come to an end -/

lemma length_rest_le (s : List α) : (rest key k s).length ≤ s.length := by
  cases s with
  | nil => exact le_rfl
  | cons a s =>
    rw [rest]
    split_ifs
    · exact Nat.le_succ _
    · exact le_rfl

lemma sum_length_rest_lt (hk : Least key k streams) :
    ((streams.map (rest key k)).map length).sum < (streams.map length).sum := by
  obtain ⟨s, hmem, a, ha, hka⟩ := hk.attained
  rw [map_map]
  apply sum_lt_sum _ _ (fun s _ => length_rest_le s)
  refine ⟨s, hmem, ?_⟩
  cases s with
  | nil => cases ha
  | cons b s =>
    obtain rfl : b = a := Option.some.inj ha
    simp [rest, hka]

end Obstor.Lib.Merge
