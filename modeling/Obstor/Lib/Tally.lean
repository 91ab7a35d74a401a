import Mathlib

/-!
# Plurality votes counted in an arbitrary order

A loop over the keys of a table of counts keeps the best key seen so far: the one with the larger
count, and on equal counts the one a tie rule prefers (`voteLoop`). The order of the keys is the
caller's, so what a user may rely on is what holds for every order.
-/

namespace Obstor.Lib

open List

variable {α κ : Type}

/-- One pass over `order`: the current best count and key are replaced by the next key when its
count is larger, or equal and preferred. -/
def voteLoop (cnt : α → ℕ) (pref : α → α → Bool) (init : ℕ × α) (order : List α) : ℕ × α :=
  order.foldl
    (fun s k => if s.1 < cnt k ∨ (s.1 = cnt k ∧ pref k s.2 = true) then (cnt k, k) else s) init

variable (cnt : α → ℕ) (pref : α → α → Bool) {k : α}

lemma voteLoop_cons_of_takes {init : ℕ × α} (rest : List α)
    (h : init.1 < cnt k ∨ (init.1 = cnt k ∧ pref k init.2)) :
    voteLoop cnt pref init (k :: rest) = voteLoop cnt pref (cnt k, k) rest := by
  unfold voteLoop
  rw [foldl_cons, if_pos h]

lemma voteLoop_cons_of_keeps {init : ℕ × α} (rest : List α)
    (h : ¬ (init.1 < cnt k ∨ (init.1 = cnt k ∧ pref k init.2))) :
    voteLoop cnt pref init (k :: rest) = voteLoop cnt pref init rest := by
  unfold voteLoop
  rw [foldl_cons, if_neg h]

/-- No key has more votes than the winner. -/
lemma voteLoop_max (order : List α) (init : ℕ × α) : init.1 ≤ (voteLoop cnt pref init order).1 ∧
      ∀ k ∈ order, cnt k ≤ (voteLoop cnt pref init order).1 := by
  induction order generalizing init with
  | nil => exact ⟨le_rfl, fun _ hk => absurd hk not_mem_nil⟩
  | cons j rest ih =>
    rw [forall_mem_cons]
    by_cases h : init.1 < cnt j ∨ (init.1 = cnt j ∧ pref j init.2)
    · obtain ⟨hj, hrest⟩ := ih (cnt j, j)
      rw [voteLoop_cons_of_takes cnt pref rest h]
      have hle : init.1 ≤ cnt j := h.elim le_of_lt fun h => h.1.le
      exact ⟨hle.trans hj, hj, hrest⟩
    · obtain ⟨hinit, hrest⟩ := ih init
      rw [voteLoop_cons_of_keeps cnt pref rest h]
      have hle : cnt j ≤ init.1 := not_lt.mp fun hlt => h (.inl hlt)
      exact ⟨hinit, hle.trans hinit, hrest⟩

lemma le_voteLoop (order : List α) (init : ℕ × α) {k : α} (hk : k ∈ order) :
    cnt k ≤ (voteLoop cnt pref init order).1 := (voteLoop_max cnt pref order init).2 k hk

lemma voteLoop_mem_or (order : List α) (init : ℕ × α) : voteLoop cnt pref init order = init ∨
      ((voteLoop cnt pref init order).2 ∈ order ∧
        (voteLoop cnt pref init order).1 = cnt (voteLoop cnt pref init order).2) := by
  induction order generalizing init with
  | nil => exact Or.inl rfl
  | cons k rest ih =>
    by_cases h : init.1 < cnt k ∨ (init.1 = cnt k ∧ pref k init.2)
    · rw [voteLoop_cons_of_takes cnt pref rest h]
      rcases ih (cnt k, k) with heq | ⟨hmem, hcnt⟩
      · rw [heq]
        exact Or.inr ⟨mem_cons_self, rfl⟩
      · exact Or.inr ⟨mem_cons_of_mem _ hmem, hcnt⟩
    · rw [voteLoop_cons_of_keeps cnt pref rest h]
      rcases ih init with heq | ⟨hmem, hcnt⟩
      · exact Or.inl heq
      · exact Or.inr ⟨mem_cons_of_mem _ hmem, hcnt⟩

lemma voteLoop_mem {order : List α} (a₀ : α) (hk : k ∈ order) (hpos : 0 < cnt k) :
    (voteLoop cnt pref (0, a₀) order).2 ∈ order ∧
      (voteLoop cnt pref (0, a₀) order).1 = cnt (voteLoop cnt pref (0, a₀) order).2 := by
  rcases voteLoop_mem_or cnt pref order (0, a₀) with heq | h
  · have hle := le_voteLoop cnt pref order (0, a₀) hk
    rw [heq] at hle
    exact absurd hpos (not_lt.mpr hle)
  · exact h

lemma voteLoop_head {rest : List α} (a₀ : α) (hpos : 0 < cnt k) (hmax : ∀ j ∈ rest, cnt j ≤ cnt k) :
    voteLoop cnt (fun _ _ => false) (0, a₀) (k :: rest) = (cnt k, k) := by
  rw [voteLoop_cons_of_takes _ _ rest (.inl hpos)]
  induction rest with
  | nil => rfl
  | cons j rest ih =>
    obtain ⟨hj, hrest⟩ := forall_mem_cons.mp hmax
    rw [voteLoop_cons_of_keeps, ih hrest]
    simpa using hj

section tie

variable [LinearOrder κ] (key : α → κ)

lemma key_le_voteLoop (hle : ∀ a b, pref a b → key b ≤ key a)
    (hlt : ∀ a b, key b < key a → pref a b) (order : List α) (init : ℕ × α) :
    ((voteLoop cnt pref init order).1 = init.1 →
        key init.2 ≤ key (voteLoop cnt pref init order).2) ∧
      ∀ k ∈ order, cnt k = (voteLoop cnt pref init order).1 →
        key k ≤ key (voteLoop cnt pref init order).2 := by
  induction order generalizing init with
  | nil => exact ⟨fun _ => le_rfl, fun k hk => absurd hk not_mem_nil⟩
  | cons j rest ih =>
    rw [forall_mem_cons]
    by_cases h : init.1 < cnt j ∨ (init.1 = cnt j ∧ pref j init.2)
    · rw [voteLoop_cons_of_takes cnt pref rest h]
      obtain ⟨ih₁, ih₂⟩ := ih (cnt j, j)
      refine ⟨fun heq => ?_, fun hcnt => ih₁ hcnt.symm, ih₂⟩
      rcases h with h | ⟨h, hp⟩
      · have hup := (voteLoop_max cnt pref rest (cnt j, j)).1
        exact absurd h (not_lt.mpr (heq ▸ hup))
      · exact (hle _ _ hp).trans (ih₁ (heq.trans h))
    · rw [voteLoop_cons_of_keeps cnt pref rest h]
      obtain ⟨ih₁, ih₂⟩ := ih init
      refine ⟨ih₁, fun hcnt => ?_, ih₂⟩
      -- the key was passed over: its count is not larger, and on a tie not preferred
      have hup := (voteLoop_max cnt pref rest init).1
      have heq : init.1 = cnt j := by omega
      have hnp : ¬ key init.2 < key j := fun hl => h (Or.inr ⟨heq, hlt _ _ hl⟩)
      exact (not_lt.mp hnp).trans (ih₁ (hcnt.symm.trans heq.symm))

lemma voteLoop_eq_favourite [DecidableEq α] {w : α} (hpref : ∀ a b, pref a b ↔ a = w)
    {order : List α} (init : ℕ × α) (hw : w ∈ order)
    (hmax : cnt w = (voteLoop cnt pref init order).1) : (voteLoop cnt pref init order).2 = w := by
  have hkey := (key_le_voteLoop cnt pref (fun a => if a = w then 1 else 0)
    (fun a b hp => ?_) (fun a b hlt => ?_) order init).2 w hw hmax
  · by_contra hne
    simp [hne] at hkey
  · rw [if_pos ((hpref a b).mp hp)]
    split_ifs <;> simp
  · by_contra hp
    rw [if_neg (mt (hpref a b).mpr hp)] at hlt
    exact absurd hlt (Nat.not_lt_zero _)

end tie

/-! ### One element changed or dropped -/

lemma countP_set_add {as : List α} {i : ℕ} {a : α} (p : α → Bool) (h : as[i]? = some a) (b : α) :
    (as.set i b).countP p + (if p a then 1 else 0) = as.countP p + (if p b then 1 else 0) := by
  obtain ⟨hi, rfl⟩ := List.getElem?_eq_some_iff.mp h
  rw [countP_set hi]
  by_cases hp : p as[i]
  · have hpos : 0 < as.countP p := countP_pos_iff.mpr ⟨as[i], getElem_mem hi, hp⟩
    rw [if_pos hp]
    omega
  · rw [if_neg hp]
    omega

lemma countP_le_countP_eraseP (p q : α → Bool) (as : List α) :
    as.countP q ≤ (as.eraseP p).countP q + 1 := by
  induction as with
  | nil => exact Nat.zero_le _
  | cons a rest ih =>
    by_cases hp : p a
    · rw [eraseP_cons_of_pos hp, countP_cons]
      split <;> omega
    · rw [eraseP_cons_of_neg hp, countP_cons, countP_cons]
      omega

lemma filter_eraseP {p q : α → Bool} (h : ∀ a, p a → q a = false) (as : List α) :
    (as.eraseP p).filter q = as.filter q := by
  induction as with
  | nil => rfl
  | cons a rest ih =>
    by_cases hp : p a
    · rw [eraseP_cons_of_pos hp, filter_cons, h a hp, if_neg Bool.false_ne_true]
    · rw [eraseP_cons_of_neg hp, filter_cons, filter_cons, ih]

/-! ### Quorums -/

variable {l : List α}

lemma exists_of_length_lt_countP_add {p q : α → Bool}
    (h : l.length < l.countP p + l.countP q) : ∃ a ∈ l, p a ∧ q a := by
  by_contra hno
  push Not at hno
  have hsplit := length_eq_countP_add_countP q (l := l)
  have hle : l.countP p ≤ l.countP fun a => ¬ q a := by
    refine countP_mono_left fun a ha hp => ?_
    simpa using hno a ha hp
  omega

variable {R : α → κ → Prop}

lemma countP_le_of_forall₂ {p : α → Bool} {q : κ → Bool}
    {l' : List κ} (h : Forall₂ R l l') (hpq : ∀ a b, R a b → p a → q b) :
    l.countP p ≤ l'.countP q := by
  induction h with
  | nil => exact le_rfl
  | @cons a b as bs hab _ ih =>
    rw [countP_cons, countP_cons]
    refine add_le_add ih ?_
    by_cases hp : p a
    · rw [if_pos hp, if_pos (hpq a b hab hp)]
    · rw [if_neg hp]
      exact Nat.zero_le _

lemma exists_of_mem_forall₂ {l' : List κ}
    (h : Forall₂ R l l') {b : κ} (hb : b ∈ l') : ∃ a ∈ l, R a b := by
  induction h with
  | nil => cases hb
  | @cons a c as cs hac _ ih =>
    rcases mem_cons.mp hb with rfl | hmem
    · exact ⟨a, mem_cons_self, hac⟩
    · obtain ⟨a', ha', hr⟩ := ih hmem
      exact ⟨a', mem_cons_of_mem _ ha', hr⟩

lemma forall₂_comp {R S T : α → α → Prop} (hcomp : ∀ a b c, R a b → S b c → T a c)
    {l' l'' : List α} (h : Forall₂ R l l') (h' : Forall₂ S l' l'') :
    Forall₂ T l l'' := by
  induction h generalizing l'' with
  | nil =>
    cases h'
    exact .nil
  | cons hab _ ih =>
    cases h' with
    | cons hbc hrest => exact .cons (hcomp _ _ _ hab hbc) (ih hrest)

lemma forall₂_mapIdx {f : ℕ → α → κ} (h : ∀ i a, R a (f i a)) (l : List α) :
    Forall₂ R l (l.mapIdx f) := by
  induction l generalizing f with
  | nil => exact .nil
  | cons a rest ih =>
    rw [mapIdx_cons]
    exact .cons (h 0 a) (ih fun i a => h (i + 1) a)

lemma count_none_le_countP {ε : Type} [DecidableEq ε] {f : ℕ → α → κ × Option ε} {p : κ → Bool}
    (h : ∀ i a, (f i a).2 = none → p (f i a).1) (l : List α) :
    (l.mapIdx fun i a => (f i a).2).count none ≤ (l.mapIdx fun i a => (f i a).1).countP p := by
  induction l generalizing f with
  | nil => exact le_rfl
  | cons a rest ih =>
    rw [mapIdx_cons, mapIdx_cons, count_cons, countP_cons]
    refine add_le_add (ih fun i a => h (i + 1) a) ?_
    by_cases hnone : (f 0 a).2 = none
    · rw [if_pos (h 0 a hnone)]
      split_ifs <;> simp
    · rw [if_neg (by simpa using hnone)]
      exact Nat.zero_le _

end Obstor.Lib
