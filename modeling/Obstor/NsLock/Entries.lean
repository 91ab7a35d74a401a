import Obstor.NsLock.Table

/-!
# The entries of the lock table and the uses of a resource

`EntryFor` says what the entry of a resource is, given the uses of the resource. Each operation
changes the entry of one resource, so `TableInv`, which says it of all resources, is kept.
-/

namespace Obstor.NsLock

open Go List Function NsLockMap Use

/-! ### The mutex -/

/-- The mutex is held by so many readers and writers. -/
def LRWMutex.Agrees (lm : LRWMutex) (readers writers : ℕ) : Prop :=
  lm.isWriteLock = true ∧ lm.ref = 1 ∧ readers = 0 ∧ writers = 1 ∨
    lm.isWriteLock = false ∧ lm.ref = readers ∧ writers = 0

section Mutex

variable {lm lm' : LRWMutex} {readers writers : ℕ}

lemma LRWMutex.agrees_new : LRWMutex.Agrees {} 0 0 := Or.inr ⟨rfl, rfl, rfl⟩

lemma LRWMutex.Agrees.lock (h : lm.Agrees readers writers) (hbound : readers < 2 ^ 31)
    {readLock : Bool} (hlock : lm.lock (!readLock) = (lm', true)) :
    lm'.Agrees (readers + if readLock then 1 else 0) (writers + if readLock then 0 else 1) := by
  unfold LRWMutex.lock at hlock
  cases readLock with
  | true =>
    rcases h with ⟨hw, -⟩ | ⟨hw, href, hwriters⟩
    · rw [hw] at hlock
      cases hlock
    · rw [hw] at hlock
      cases hlock
      refine Or.inr ⟨rfl, ?_, hwriters⟩
      have : int64 (lm.ref + 1) = lm.ref + 1 := int64_eq_self (by omega) (by omega)
      rw [if_pos rfl]
      push_cast
      omega
  | false =>
    rcases h with ⟨hw, -⟩ | ⟨hw, href, hwriters⟩
    · rw [hw] at hlock
      simp at hlock
    · by_cases hzero : lm.ref = 0
      · simp only [hw, hzero, Bool.not_false, decide_true, Bool.and_self, if_true] at hlock
        cases hlock
        refine Or.inl ⟨rfl, rfl, ?_, by rw [hwriters]; rfl⟩
        rw [if_neg Bool.false_ne_true]
        omega
      · simp [hzero] at hlock

lemma LRWMutex.Agrees.unlock (readLock : Bool)
    (h : lm.Agrees (readers + if readLock then 1 else 0) (writers + if readLock then 0 else 1)) :
    ∃ lm', lm.unlock (!readLock) = (lm', true) ∧ lm'.Agrees readers writers := by
  unfold LRWMutex.unlock
  cases readLock with
  | true =>
    rcases h with ⟨-, -, hreaders, -⟩ | ⟨hw, href, hwriters⟩
    · cases hreaders
    · rw [if_pos rfl] at href
      have hpos : lm.ref > 0 := by omega
      refine ⟨{ lm with ref := lm.ref - 1 }, by simp [hw, hpos], Or.inr ⟨hw, ?_, hwriters⟩⟩
      show lm.ref - 1 = readers
      omega
  | false =>
    rcases h with ⟨hw, href, hreaders, hwriters⟩ | ⟨-, -, hwriters⟩
    · refine ⟨{ isWriteLock := false, ref := 0 }, by simp [hw, href], Or.inr ⟨rfl, ?_, ?_⟩⟩
      · show (0 : ℤ) = readers
        omega
      · exact Nat.succ.inj hwriters
    · cases hwriters

end Mutex

/-! ### The entry of a resource -/

section Entries

variable {C : Type} {n n' : NsLockMap} {r : Bytes} {p : ℕ} {lk : NSLock} {u : Use C}
  {l l' : List (Use C)}

/-- A use that holds the mutex. -/
def Use.holds (readLock : Bool) (u : Use C) : Bool := u.phase = .held && u.readLock = readLock

/-- The entry of a resource with the uses `l`. -/
def EntryFor (entry : Option (ℕ × NSLock)) (l : List (Use C)) : Prop :=
  match entry with
  | none => l = []
  | some (nsLk, lk) =>
    l ≠ [] ∧ (∀ u ∈ l, u.nsLk = nsLk) ∧ lk.ref = l.length ∧
      lk.rw.Agrees (l.countP (Use.holds true)) (l.countP (Use.holds false))

lemma EntryFor.perm {entry : Option (ℕ × NSLock)} (h : EntryFor entry l) (hl : l.Perm l') :
    EntryFor entry l' := by
  match entry, h with
  | none, h =>
    rw [h] at hl
    exact hl.symm.eq_nil
  | some (nsLk, lk), ⟨hne, hnsLk, href, hrw⟩ =>
    refine ⟨fun hnil => hne ?_, fun u hu => hnsLk u (hl.mem_iff.mpr hu), ?_, ?_⟩
    · rw [hnil] at hl
      exact hl.eq_nil
    · rw [← hl.length_eq]
      exact href
    · rw [← hl.countP_eq, ← hl.countP_eq]
      exact hrw

lemma EntryFor.enter_new (readLock : Bool) (c : C) :
    EntryFor (some (p, { ref := int32 (0 + 1), rw := {} }))
      [(⟨c, r, p, readLock, .attempting⟩ : Use C)] := by
  refine ⟨cons_ne_nil _ _, fun u hu => ?_, ?_, ?_⟩
  · rw [mem_singleton.mp hu]
  · show int32 (0 + 1) = 1
    exact int32_eq_self (by decide) (by decide)
  · exact LRWMutex.agrees_new

lemma EntryFor.enter (h : EntryFor (some (p, lk)) l) (hbound : l.length + 1 < 2 ^ 31)
    (readLock : Bool) (c : C) :
    EntryFor (some (p, { lk with ref := int32 (lk.ref + 1) }))
      (⟨c, r, p, readLock, .attempting⟩ :: l) := by
  obtain ⟨-, hnsLk, href, hrw⟩ := h
  refine ⟨cons_ne_nil _ _, fun u hu => ?_, ?_, ?_⟩
  · rcases mem_cons.mp hu with rfl | hu
    · rfl
    · exact hnsLk u hu
  · show int32 (lk.ref + 1) = ((l.length + 1 : ℕ) : ℤ)
    rw [href, int32_eq_self (by omega) (by omega)]
    rfl
  · exact hrw

lemma EntryFor.change (h : EntryFor (some (p, lk)) (u :: l)) {phase : UsePhase} {rw : LRWMutex}
    (hrw : rw.Agrees (({ u with phase := phase } :: l).countP (holds true))
      (({ u with phase := phase } :: l).countP (holds false))) :
    EntryFor (some (p, { lk with rw := rw })) ({ u with phase := phase } :: l) := by
  obtain ⟨-, hnsLk, href, -⟩ := h
  refine ⟨cons_ne_nil _ _, fun v hv => ?_, href, hrw⟩
  rcases mem_cons.mp hv with rfl | hv
  · exact hnsLk u mem_cons_self
  · exact hnsLk v (mem_cons_of_mem _ hv)

lemma countP_holds_cons (v : Use C) (l : List (Use C)) (readLock : Bool) :
    (v :: l).countP (holds readLock) =
      l.countP (holds readLock) + if v.holds readLock then 1 else 0 := countP_cons

lemma EntryFor.leave (h : EntryFor (some (p, lk)) (u :: l)) (hphase : u.phase ≠ .held)
    (hbound : l.length + 1 < 2 ^ 31) :
    int32 (lk.ref - 1) = l.length ∧
      EntryFor (if l.length = 0 then none else some (p, { lk with ref := int32 (lk.ref - 1) })) l := by
  obtain ⟨-, hnsLk, href, hrw⟩ := h
  have hcount : lk.ref = l.length + 1 := href
  have hnot : ∀ readLock, u.holds readLock = false := fun readLock => by simp [holds, hphase]
  have hint : int32 (lk.ref - 1) = l.length := by
    rw [int32_eq_self (by omega) (by omega)]
    omega
  refine ⟨hint, ?_⟩
  split
  case isTrue hzero => exact length_eq_zero_iff.mp hzero
  case isFalse hpos =>
    refine ⟨fun hnil => hpos (by rw [hnil]; rfl), fun v hv => hnsLk v (mem_cons_of_mem _ hv),
      hint, ?_⟩
    simpa [hnot] using hrw

/-! ### The operations of the table, entry by entry -/

/-- The entry of a resource: the address of its cell and what the cell holds. -/
def NsLockMap.entry (n : NsLockMap) (r : Bytes) : Option (ℕ × NSLock) :=
  (n.lockMap r).map fun p => (p, n.nsLocks p)

/-- The cells of the map are in use, and no two resources have one cell. -/
structure NsLockMap.WellFormed (n : NsLockMap) : Prop where
  lt_next : ∀ {r p}, n.lockMap r = some p → p < n.next
  injective : ∀ {r r' p}, n.lockMap r = some p → n.lockMap r' = some p → r = r'

lemma NsLockMap.entry_eq_some :
    n.entry r = some (p, lk) ↔ n.lockMap r = some p ∧ n.nsLocks p = lk := by
  unfold entry
  constructor
  · intro h
    obtain ⟨q, hq, heq⟩ := Option.map_eq_some_iff.mp h
    cases heq
    exact ⟨hq, rfl⟩
  · rintro ⟨h, rfl⟩
    rw [h]
    rfl

lemma NsLockMap.entry_eq_none : n.entry r = none ↔ n.lockMap r = none := Option.map_eq_none_iff

section

variable (hn : n.WellFormed)

include hn

lemma NsLockMap.entry_setCell (h : n.lockMap r = some p) (cell : NSLock) (r' : Bytes) :
    ({ n with nsLocks := update n.nsLocks p cell } : NsLockMap).entry r' =
      if r' = r then some (p, cell) else n.entry r' := by
  unfold entry
  by_cases hr : r' = r
  · rw [if_pos hr, hr]
    show (n.lockMap r).map (fun q => (q, update n.nsLocks p cell q)) = _
    rw [h, Option.map_some, update_self]
  · rw [if_neg hr]
    cases hp' : n.lockMap r' with
    | none => rfl
    | some p' =>
      have hne : p' ≠ p := fun heq => hr (hn.injective (heq ▸ hp') h)
      show some (p', update n.nsLocks p cell p') = some (p', n.nsLocks p')
      rw [update_of_ne hne]

lemma NsLockMap.WellFormed.setCell (cell : NSLock) (p : ℕ) :
    WellFormed { n with nsLocks := update n.nsLocks p cell } :=
  ⟨hn.lt_next, hn.injective⟩

lemma NsLockMap.entry_enter (r' : Bytes) : (n.enter r).1.entry r' =
      if r' = r then
        match n.entry r with
        | none => some ((n.enter r).2, { ref := int32 (0 + 1), rw := {} })
        | some (_, lk) => some ((n.enter r).2, { lk with ref := int32 (lk.ref + 1) })
      else n.entry r' := by
  unfold enter
  cases hp : n.lockMap r with
  | some p =>
    have hentry : n.entry r = some (p, n.nsLocks p) := entry_eq_some.mpr ⟨hp, rfl⟩
    rw [hentry]
    exact entry_setCell hn hp _ r'
  | none =>
    rw [entry_eq_none.mpr hp]
    by_cases hr : r' = r
    · rw [if_pos hr, hr]
      refine entry_eq_some.mpr ⟨?_, ?_⟩
      · exact update_self ..
      · exact update_self ..
    · rw [if_neg hr]
      show (update n.lockMap r (some n.next) r').map _ = (n.lockMap r').map _
      rw [update_of_ne hr]
      cases hp' : n.lockMap r' with
      | none => rfl
      | some p' =>
        have hne : p' ≠ n.next := ne_of_lt (hn.lt_next hp')
        show some (p', update n.nsLocks n.next _ p') = some (p', n.nsLocks p')
        rw [update_of_ne hne]

lemma NsLockMap.WellFormed.enter (r : Bytes) : (n.enter r).1.WellFormed := by
  unfold NsLockMap.enter
  cases hp : n.lockMap r with
  | some p => exact hn.setCell _ p
  | none =>
    constructor
    · intro r' p' hp'
      by_cases hr : r' = r
      · rw [hr] at hp'
        have hp' : update n.lockMap r (some n.next) r = some p' := hp'
        rw [update_self] at hp'
        rw [← Option.some.inj hp']
        exact Nat.lt_succ_self _
      · have hp' : update n.lockMap r (some n.next) r' = some p' := hp'
        rw [update_of_ne hr] at hp'
        exact Nat.lt_succ_of_lt (hn.lt_next hp')
    · intro r₁ r₂ q h₁ h₂
      have hold : ∀ r' q, r' ≠ r → update n.lockMap r (some n.next) r' = some q →
          n.lockMap r' = some q := fun r' q hr hq => by rwa [update_of_ne hr] at hq
      have hnew : ∀ r' q, r' = r → update n.lockMap r (some n.next) r' = some q →
          q = n.next := fun r' q hr hq => by
        rw [hr, update_self] at hq
        exact (Option.some.inj hq).symm
      by_cases hr₁ : r₁ = r
      · by_cases hr₂ : r₂ = r
        · rw [hr₁, hr₂]
        · have := hn.lt_next (hold r₂ q hr₂ h₂)
          rw [hnew r₁ q hr₁ h₁] at this
          exact absurd this (lt_irrefl _)
      · by_cases hr₂ : r₂ = r
        · have := hn.lt_next (hold r₁ q hr₁ h₁)
          rw [hnew r₂ q hr₂ h₂] at this
          exact absurd this (lt_irrefl _)
        · exact hn.injective (hold r₁ q hr₁ h₁) (hold r₂ q hr₂ h₂)

lemma NsLockMap.entry_leave (h : n.entry r = some (p, lk)) {count : ℕ}
    (hcount : int32 (lk.ref - 1) = count) :
    ∃ n', n.leave r = some n' ∧ n'.WellFormed ∧ ∀ r', n'.entry r' =
      if r' = r then
        if count = 0 then none else some (p, { lk with ref := int32 (lk.ref - 1) })
      else n.entry r' := by
  obtain ⟨hp, rfl⟩ := entry_eq_some.mp h
  unfold leave
  rw [hp]
  simp only [hcount]
  refine ⟨_, rfl, ?_, fun r' => ?_⟩
  · have hsub : ∀ r' q, (if (count : ℤ) = 0 then update n.lockMap r none else n.lockMap) r' =
        some q → n.lockMap r' = some q := by
      intro r' q hq
      split at hq
      · by_cases hr : r' = r
        · rw [hr, update_self] at hq
          cases hq
        · rwa [update_of_ne hr] at hq
      · exact hq
    exact ⟨fun hq => hn.lt_next (hsub _ _ hq),
      fun hq hq' => hn.injective (hsub _ _ hq) (hsub _ _ hq')⟩
  · by_cases hzero : count = 0
    · simp only [hzero, Nat.cast_zero, if_true]
      by_cases hr : r' = r
      · rw [if_pos hr, hr]
        exact entry_eq_none.mpr (update_self ..)
      · rw [if_neg hr]
        show (update n.lockMap r none r').map _ = _
        rw [update_of_ne hr]
        have hcell := entry_setCell hn hp { n.nsLocks p with ref := 0 } r'
        rw [if_neg hr] at hcell
        exact hcell
    · have hne : ¬(count : ℤ) = 0 := fun hc => hzero (by exact_mod_cast hc)
      simp only [hne, hzero, if_false]
      exact entry_setCell hn hp _ r'

end

end Entries

/-! ### The table and the uses -/

section Table

variable {C : Type} {n n' : NsLockMap} {uses uses' rest : List (Use C)} {u : Use C} {r : Bytes}

def usesOf (uses : List (Use C)) (r : Bytes) : List (Use C) := uses.filter fun u => u.resource = r

lemma usesOf_cons (u : Use C) (uses : List (Use C)) (r : Bytes) :
    usesOf (u :: uses) r = if u.resource = r then u :: usesOf uses r else usesOf uses r := by
  unfold usesOf
  by_cases h : u.resource = r
  · simp [h]
  · simp [h]

/-- The table fits the uses, and no count is out of the range of an `int32`. -/
structure TableInv (n : NsLockMap) (uses : List (Use C)) : Prop where
  wellFormed : n.WellFormed
  entryFor : ∀ r, EntryFor (n.entry r) (usesOf uses r)
  bounded : ∀ r, (usesOf uses r).length < 2 ^ 31

section

variable (h : TableInv n uses)

include h

lemma TableInv.perm (hperm : uses.Perm uses') : TableInv n uses' where
  wellFormed := h.wellFormed
  entryFor r := (h.entryFor r).perm (hperm.filter _)
  bounded r := by
    rw [usesOf, ← (hperm.filter _).length_eq]
    exact h.bounded r

lemma TableInv.entry_of_mem (hu : u ∈ uses) :
    n.entry u.resource = some (u.nsLk, n.nsLocks u.nsLk) := by
  have hmem : u ∈ usesOf uses u.resource := mem_filter.mpr ⟨hu, by simp⟩
  have hentry := h.entryFor u.resource
  cases he : n.entry u.resource with
  | none =>
    rw [he] at hentry
    rw [hentry] at hmem
    cases hmem
  | some cell =>
    obtain ⟨p, lk⟩ := cell
    rw [he] at hentry
    have hp : u.nsLk = p := hentry.2.1 u hmem
    rw [hp, (entry_eq_some.mp he).2]

lemma TableInv.lockMap_of_mem (hu : u ∈ uses) :
    n.lockMap u.resource = some u.nsLk := (entry_eq_some.mp (h.entry_of_mem hu)).1

lemma TableInv.enter (hbound : (usesOf uses r).length + 1 < 2 ^ 31) (c : C) (readLock : Bool) :
    TableInv (n.enter r).1 (⟨c, r, (n.enter r).2, readLock, .attempting⟩ :: uses) where
  wellFormed := h.wellFormed.enter r
  entryFor r' := by
    rw [entry_enter h.wellFormed, usesOf_cons]
    by_cases hr : r' = r
    · rw [if_pos hr, if_pos hr.symm, hr]
      have hentry := h.entryFor r
      cases he : n.entry r with
      | none =>
        rw [he] at hentry
        rw [hentry]
        exact EntryFor.enter_new readLock c
      | some cell =>
        obtain ⟨p, lk⟩ := cell
        rw [he] at hentry
        have hp : (n.enter r).2 = p := by
          rw [NsLockMap.enter, (entry_eq_some.mp he).1]
        simp only [hp]
        exact hentry.enter hbound readLock c
    · rw [if_neg hr, if_neg fun heq => hr heq.symm]
      exact h.entryFor r'
  bounded r' := by
    rw [usesOf_cons]
    split
    case isTrue hr =>
      rw [← hr]
      exact hbound
    case isFalse => exact h.bounded r'

end

section

variable (h : TableInv n (u :: rest))

include h

lemma TableInv.change {phase : UsePhase} {rw : LRWMutex}
    (hrw : rw.Agrees (({ u with phase := phase } :: usesOf rest u.resource).countP (holds true))
      (({ u with phase := phase } :: usesOf rest u.resource).countP (holds false))) :
    TableInv (n.setMutex u.nsLk rw) ({ u with phase := phase } :: rest) where
  wellFormed := h.wellFormed.setCell _ _
  entryFor r' := by
    have hentry := h.entry_of_mem mem_cons_self
    have hset := entry_setCell h.wellFormed (entry_eq_some.mp hentry).1
      { n.nsLocks u.nsLk with rw := rw } r'
    have hold := h.entryFor r'
    rw [usesOf_cons] at hold ⊢
    rw [setMutex, hset]
    by_cases hr : r' = u.resource
    · subst hr
      rw [if_pos rfl, hentry] at hold
      rw [if_pos rfl, if_pos rfl]
      exact hold.change hrw
    · rw [if_neg fun heq => hr heq.symm] at hold
      rw [if_neg hr, if_neg fun heq => hr heq.symm]
      exact hold
  bounded r' := by
    have hold := h.bounded r'
    rw [usesOf_cons] at hold ⊢
    by_cases hr : u.resource = r'
    · rw [if_pos hr] at hold ⊢
      exact hold
    · rw [if_neg hr] at hold ⊢
      exact hold

lemma TableInv.agrees : (n.nsLocks u.nsLk).rw.Agrees
      ((usesOf rest u.resource).countP (holds true) + if u.holds true then 1 else 0)
      ((usesOf rest u.resource).countP (holds false) + if u.holds false then 1 else 0) := by
  have hentry := h.entryFor u.resource
  rw [h.entry_of_mem mem_cons_self, usesOf_cons, if_pos rfl] at hentry
  have hrw := hentry.2.2.2
  rwa [countP_holds_cons, countP_holds_cons] at hrw

lemma TableInv.grant (hphase : u.phase = .attempting)
    {rw : LRWMutex} (hlock : (n.nsLocks u.nsLk).rw.lock (!u.readLock) = (rw, true)) :
    TableInv (n.setMutex u.nsLk rw) ({ u with phase := .held } :: rest) := by
  have hagrees := h.agrees
  have hnot : ∀ readLock, u.holds readLock = false := fun readLock => by simp [holds, hphase]
  simp only [hnot, Bool.false_eq_true, if_false, add_zero] at hagrees
  have hbound : (usesOf rest u.resource).countP (holds true) < 2 ^ 31 := by
    have := h.bounded u.resource
    rw [usesOf_cons, if_pos rfl, length_cons] at this
    exact lt_of_le_of_lt countP_le_length (by omega)
  refine h.change ?_
  have hnew := hagrees.lock hbound hlock
  cases hread : u.readLock with
  | true => simpa [holds, hread] using hnew
  | false => simpa [holds, hread] using hnew

lemma TableInv.release (hphase : u.phase = .held) :
    ∃ rw, (n.nsLocks u.nsLk).rw.unlock (!u.readLock) = (rw, true) ∧
      TableInv (n.setMutex u.nsLk rw) ({ u with phase := .leaving } :: rest) := by
  have hagrees := h.agrees
  have hholds : ∀ readLock, u.holds readLock = decide (u.readLock = readLock) := fun readLock => by
    simp [holds, hphase]
  have hagrees : (n.nsLocks u.nsLk).rw.Agrees
      ((usesOf rest u.resource).countP (holds true) + if u.readLock then 1 else 0)
      ((usesOf rest u.resource).countP (holds false) + if u.readLock then 0 else 1) := by
    cases hread : u.readLock with
    | true => simpa [hholds, hread] using hagrees
    | false => simpa [hholds, hread] using hagrees
  obtain ⟨rw, hunlock, hrw⟩ := LRWMutex.Agrees.unlock u.readLock hagrees
  refine ⟨rw, hunlock, h.change ?_⟩
  simpa [holds] using hrw

lemma TableInv.leave (hphase : u.phase ≠ .held) :
    ∃ n', n.leave u.resource = some n' ∧ TableInv n' rest := by
  have hentry := h.entryFor u.resource
  have hbound := h.bounded u.resource
  have hcell := h.entry_of_mem mem_cons_self
  rw [usesOf_cons, if_pos rfl] at hbound
  rw [hcell, usesOf_cons, if_pos rfl] at hentry
  obtain ⟨hcount, hleft⟩ := hentry.leave hphase hbound
  obtain ⟨n', hleave, hwf, hentries⟩ := entry_leave h.wellFormed hcell hcount
  refine ⟨n', hleave, hwf, fun r' => ?_, fun r' => ?_⟩
  · rw [hentries]
    by_cases hr : r' = u.resource
    · rw [if_pos hr, hr]
      exact hleft
    · rw [if_neg hr]
      have hold := h.entryFor r'
      rwa [usesOf_cons, if_neg fun heq => hr heq.symm] at hold
  · have hold := h.bounded r'
    rw [usesOf_cons] at hold
    split at hold
    · exact lt_trans (Nat.lt_succ_self _) hold
    · exact hold

end

end Table

end Obstor.NsLock
