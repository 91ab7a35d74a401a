import Obstor.Lib.Scan

/-!
# Holding items back on a stack

Items come in the order of one key, `arrive`, and are to go out in the order of another, `leave`, which
is not smaller. An item that has to wait is put on a stack; before the next item comes, the items on top
of the stack that leave before it are taken off.

This sorts when the times that the items wait are nested or apart (`Nested`): an item that comes while
another one waits leaves before it.
-/

namespace Obstor.Lib

open List

variable {ι κ : Type} [LinearOrder κ] (arrive leave : ι → κ) (waits : ι → Bool)

/-- The order in which the items go out. -/
def holdBack : List ι → List ι → List ι
  | stack, [] => stack
  | stack, i :: items =>
    stack.takeWhile (fun s => leave s < arrive i) ++
      if waits i then holdBack (i :: stack.dropWhile fun s => leave s < arrive i) items
      else i :: holdBack (stack.dropWhile fun s => leave s < arrive i) items

/-- The order of what goes out. -/
def GoesBefore (i j : ι) : Prop := leave i ≤ leave j ∧ (waits i = true → leave i < leave j)

/-- An item that comes while another one waits leaves before it. -/
def Nested (i j : ι) : Prop :=
  waits i = true → leave i < arrive j ∨ leave j ≤ leave i ∧ (waits j = true → leave j < leave i)

variable {arrive leave waits}

lemma holdBack_cons [inst : DecidableLT κ] (stack : List ι) (i : ι) (items : List ι) :
    holdBack arrive leave waits stack (i :: items) =
      stack.takeWhile (fun s => leave s < arrive i) ++
        if waits i then
          holdBack arrive leave waits (i :: stack.dropWhile fun s => leave s < arrive i) items
        else i :: holdBack arrive leave waits (stack.dropWhile fun s => leave s < arrive i) items := by
  obtain rfl : inst = fun a b => LinearOrder.toDecidableLT a b := Subsingleton.elim _ _
  rfl

lemma holdBack_perm (stack items : List ι) :
    (holdBack arrive leave waits stack items).Perm (stack ++ items) := by
  induction items generalizing stack with
  | nil => rw [holdBack, append_nil]
  | cons i items ih =>
    rw [holdBack]
    have hsplit := takeWhile_append_dropWhile (p := fun s => decide (leave s < arrive i))
      (l := stack)
    generalize stack.takeWhile (fun s => decide (leave s < arrive i)) = popped at hsplit ⊢
    generalize stack.dropWhile (fun s => decide (leave s < arrive i)) = rest at hsplit ⊢
    subst hsplit
    rw [append_assoc]
    refine List.Perm.append_left popped ?_
    split_ifs
    · exact (ih (i :: rest)).trans perm_middle.symm
    · exact ((ih rest).cons i).trans perm_middle.symm

variable {stack : List ι}

lemma lt_of_mem_takeWhile {k : κ} {s : ι}
    (hs : s ∈ stack.takeWhile fun s => leave s < k) : leave s < k := by
  simpa using mem_takeWhile_imp hs

variable {items : List ι}

lemma holdBack_pairwise
    (hstack : stack.Pairwise (GoesBefore leave waits)) (hwaits : ∀ s ∈ stack, waits s)
    (hitems : items.Pairwise fun i j => arrive i ≤ arrive j ∧ Nested arrive leave waits i j)
    (hmix : ∀ s ∈ stack, ∀ i ∈ items, Nested arrive leave waits s i)
    (hleave : ∀ i ∈ items, arrive i ≤ leave i ∧ (¬ waits i → leave i = arrive i)) :
    (holdBack arrive leave waits stack items).Pairwise (GoesBefore leave waits) := by
  induction items generalizing stack with
  | nil => exact hstack
  | cons i items ih =>
    obtain ⟨hi, hitems⟩ := pairwise_cons.mp hitems
    obtain ⟨⟨hile, hiwait⟩, hleave⟩ := forall_mem_cons.mp hleave
    have hafter : ∀ x ∈ items, arrive i ≤ leave x := fun x hx =>
      (hi x hx).1.trans (hleave x hx).1
    have hpast : ∀ s ∈ stack.dropWhile fun s => leave s < arrive i, arrive i ≤ leave s :=
      fun s hs => le_of_mem_dropWhile (hstack.imp And.left) hs
    have hsub : (stack.dropWhile fun s => leave s < arrive i) ⊆ stack :=
      (dropWhile_sublist _).subset
    have hrest : (stack.dropWhile fun s => leave s < arrive i).Pairwise (GoesBefore leave waits) :=
      hstack.sublist (dropWhile_sublist _)
    have hmix' : ∀ s ∈ stack.dropWhile fun s => leave s < arrive i, ∀ x ∈ items,
        Nested arrive leave waits s x := fun s hs x hx =>
      hmix s (hsub hs) x (mem_cons_of_mem _ hx)
    refine pairwise_append.mpr ⟨hstack.sublist (takeWhile_sublist _), ?_, ?_⟩
    · split_ifs with hw
      · refine ih (pairwise_cons.mpr ⟨fun s hs => ?_, hrest⟩)
          (forall_mem_cons.mpr ⟨hw, fun s hs => hwaits s (hsub hs)⟩) hitems
          (forall_mem_cons.mpr ⟨fun x hx => (hi x hx).2, hmix'⟩) hleave
        rcases hmix s (hsub hs) i mem_cons_self (hwaits s (hsub hs)) with hlt | ⟨hle, hlt⟩
        · exact absurd hlt (not_lt.mpr (hpast s hs))
        · exact ⟨hle, fun _ => hlt hw⟩
      · refine pairwise_cons.mpr ⟨fun x hx => ?_,
          ih hrest (fun s hs => hwaits s (hsub hs)) hitems hmix' hleave⟩
        refine ⟨?_, fun h => absurd h hw⟩
        rw [hiwait hw]
        rcases mem_append.mp ((holdBack_perm _ _).mem_iff.mp hx) with hx | hx
        · exact hpast x hx
        · exact hafter x hx
    · -- what is taken off the stack leaves before the item comes
      intro p hp x hx
      have hlt := lt_of_mem_takeWhile hp
      have hgoes : ∀ {y}, arrive i ≤ leave y → GoesBefore leave waits p y := fun hy =>
        ⟨(hlt.trans_le hy).le, fun _ => hlt.trans_le hy⟩
      have hmem : x = i ∨ x ∈ stack.dropWhile (fun s => leave s < arrive i) ∨ x ∈ items := by
        split_ifs at hx
        · simpa [or_assoc] using (holdBack_perm _ _).mem_iff.mp hx
        · rcases mem_cons.mp hx with rfl | hx
          · exact .inl rfl
          · exact .inr (mem_append.mp ((holdBack_perm _ _).mem_iff.mp hx))
      rcases hmem with rfl | hx | hx
      · exact hgoes hile
      · exact hgoes (hpast x hx)
      · exact hgoes (hafter x hx)

/-! ### Items without effect -/

lemma takeWhile_of_imp {α : Type} {p q : α → Bool} (hpq : ∀ a, p a → q a)
    (l : List α) : l.takeWhile q = l.takeWhile p ++ (l.dropWhile p).takeWhile q ∧
      l.dropWhile q = (l.dropWhile p).dropWhile q := by
  induction l with
  | nil => exact ⟨rfl, rfl⟩
  | cons a l ih =>
    by_cases hp : p a
    · rw [takeWhile_cons_of_pos hp, dropWhile_cons_of_pos hp, takeWhile_cons_of_pos (hpq a hp),
        dropWhile_cons_of_pos (hpq a hp), ih.1]
      exact ⟨rfl, ih.2⟩
    · rw [takeWhile_cons_of_neg hp, dropWhile_cons_of_neg hp]
      exact ⟨rfl, rfl⟩

lemma takeWhile_congr {α : Type} {p q : α → Bool} {l : List α} (h : ∀ a ∈ l, p a = q a) :
    l.takeWhile p = l.takeWhile q ∧ l.dropWhile p = l.dropWhile q := by
  induction l with
  | nil => exact ⟨rfl, rfl⟩
  | cons a l ih =>
    obtain ⟨ha, hl⟩ := forall_mem_cons.mp h
    obtain ⟨htake, hdrop⟩ := ih hl
    rw [takeWhile_cons, takeWhile_cons, dropWhile_cons, dropWhile_cons, ha, htake, hdrop]
    exact ⟨rfl, rfl⟩

lemma holdBack_split {k : κ} (h : ∀ j ∈ items, k ≤ arrive j) :
    holdBack arrive leave waits stack items = stack.takeWhile (fun s => leave s < k) ++
        holdBack arrive leave waits (stack.dropWhile fun s => leave s < k) items := by
  cases items with
  | nil => exact takeWhile_append_dropWhile.symm
  | cons j items =>
    have hkj := h j mem_cons_self
    obtain ⟨htake, hdrop⟩ := takeWhile_of_imp (p := fun s => decide (leave s < k))
      (fun s hs => decide_eq_true ((of_decide_eq_true hs).trans_le hkj)) stack
    rw [holdBack, holdBack, htake, hdrop, append_assoc]

lemma holdBack_flatMap_filter {β : Type} {emit : ι → List β} {busy : ι → Bool} (hitems : items.Pairwise fun i j => arrive i ≤ arrive j)
    (hidle : ∀ i ∈ items, busy i = false → waits i = false ∧ emit i = []) :
    (holdBack arrive leave waits stack items).flatMap emit =
      (holdBack arrive leave waits stack (items.filter busy)).flatMap emit := by
  induction items generalizing stack with
  | nil => rfl
  | cons i items ih =>
    obtain ⟨hi, hitems⟩ := pairwise_cons.mp hitems
    obtain ⟨hidle₁, hidle⟩ := forall_mem_cons.mp hidle
    cases hbusy : busy i with
    | true =>
      rw [filter_cons_of_pos hbusy, holdBack, holdBack, flatMap_append, flatMap_append]
      split_ifs
      · rw [ih hitems hidle]
      · rw [flatMap_cons, flatMap_cons, ih hitems hidle]
    | false =>
      obtain ⟨hwaits, hemit⟩ := hidle₁ hbusy
      have hlater : ∀ j ∈ items.filter busy, arrive i ≤ arrive j := fun j hj =>
        hi j (mem_filter.mp hj).1
      rw [filter_cons_of_neg (by rw [hbusy]; exact Bool.false_ne_true), holdBack, hwaits,
        if_neg Bool.false_ne_true, holdBack_split hlater, flatMap_append,
        flatMap_append, flatMap_cons, hemit, nil_append, ih hitems hidle]

lemma holdBack_congr {leave' : ι → κ} {waits' : ι → Bool} (hstack : ∀ i ∈ stack, leave i = leave' i)
    (hitems : ∀ i ∈ items, leave i = leave' i ∧ waits i = waits' i) :
    holdBack arrive leave waits stack items = holdBack arrive leave' waits' stack items := by
  induction items generalizing stack with
  | nil => rfl
  | cons i items ih =>
    obtain ⟨⟨hleave, hwaits⟩, hitems⟩ := forall_mem_cons.mp hitems
    obtain ⟨htake,
      hdrop⟩ := takeWhile_congr (p := fun s => decide (leave s < arrive i)) fun s hs => by rw [hstack s hs]
    have hrest : ∀ j ∈ stack.dropWhile (fun s => leave' s < arrive i), leave j = leave' j :=
      fun j hj => hstack j ((dropWhile_sublist _).subset hj)
    rw [holdBack, holdBack, htake, hdrop, hwaits, ih hrest hitems,
      ih (forall_mem_cons.mpr ⟨hleave, hrest⟩) hitems]

end Obstor.Lib
