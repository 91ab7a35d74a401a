import Obstor.NsLock.Entries

/-!
# The namespace lock table is exact

In every run the table has an entry for a resource exactly while it is used, all users of a resource
use the mutex of its entry, and the mutex keeps writers alone (`table_exact`). The reference count
is the number of uses. That is the number of clients when the paths of each client have different
names in the table; two paths with one name are counted twice (`two_paths_one_client`).

The invariant `NsInv` counts the uses of a resource by every client from the program point it is at
(`Pc.expected`). There is one lemma for each step of the programs (`NsInv.enterStep`,
`NsInv.attemptStep`, `NsInv.leaveStep`, `NsInv.releaseStep`); `nsInv_step` collects them.
-/

namespace Obstor.NsLock

open Go Lib List Use

/-! ### The clients and their uses -/

section Marks

variable {resources : List Bytes} {marks : List Bool} {si : ℕ} {r : Bytes}

def marked (resources : List Bytes) (marks : List Bool) : List Bytes :=
  ((resources.zip marks).filter Prod.snd).map Prod.fst

lemma marked_replicate (resources : List Bytes) :
    marked resources (replicate resources.length true) = resources := by
  induction resources with
  | nil => rfl
  | cons r rest ih => exact congrArg (r :: ·) ih

/-- The marks of a loop that has gone through `i` paths. -/
def successUpTo (n i : ℕ) : List Bool := replicate i true ++ replicate (n - i) false

lemma marked_successUpTo (resources : List Bytes) (i : ℕ) :
    marked resources (successUpTo resources.length i) = resources.take i := by
  induction i generalizing resources with
  | zero =>
    induction resources with
    | nil => rfl
    | cons r rest ih => exact ih
  | succ i ih =>
    cases resources with
    | nil => rfl
    | cons r rest =>
      rw [take_succ_cons, ← ih rest, successUpTo, length_cons, Nat.succ_sub_succ]
      rfl

lemma set_successUpTo {n i : ℕ} (hi : i < n) :
    (successUpTo n i).set i true = successUpTo n (i + 1) := by
  unfold successUpTo
  have hrest : n - i = (n - (i + 1)) + 1 := by omega
  rw [set_append_right _ _ (by simp), length_replicate, Nat.sub_self, hrest,
    replicate_succ, replicate_succ', append_assoc]
  rfl

lemma marked_drop_of_true (hr : resources[si]? = some r) (hm : marks[si]? = some true) :
    marked (resources.drop si) (marks.drop si) =
      r :: marked (resources.drop (si + 1)) (marks.drop (si + 1)) := by
  obtain ⟨hlt, rfl⟩ := List.getElem?_eq_some_iff.mp hr
  obtain ⟨hlt', htrue⟩ := List.getElem?_eq_some_iff.mp hm
  rw [drop_eq_getElem_cons hlt, drop_eq_getElem_cons hlt', htrue]
  rfl

lemma marked_drop_of_false (hm : marks[si]? = some false) :
    marked (resources.drop si) (marks.drop si) =
      marked (resources.drop (si + 1)) (marks.drop (si + 1)) := by
  obtain ⟨hlt', hfalse⟩ := List.getElem?_eq_some_iff.mp hm
  rw [drop_eq_getElem_cons hlt', hfalse]
  by_cases hlt : si < resources.length
  · rw [drop_eq_getElem_cons hlt]
    rfl
  · have hnil : ∀ k, si ≤ k → resources.drop k = [] := fun k hk => drop_eq_nil_of_le (by omega)
    rw [hnil si le_rfl, hnil (si + 1) (Nat.le_succ _)]
    rfl

end Marks

section Clients

variable {C : Type} [DecidableEq C] {resources : List Bytes} {pc : Pc}
  {uses : List (Use C)} {u : Use C} {c : C}

def usesBy (uses : List (Use C)) (c : C) : List (Use C) := uses.filter fun u => u.client = c

lemma usesBy_cons_self (h : u.client = c) : usesBy (u :: uses) c = u :: usesBy uses c := by
  rw [usesBy, filter_cons_of_pos (by simpa using h)]
  rfl

lemma usesBy_cons_ne (h : u.client ≠ c) : usesBy (u :: uses) c = usesBy uses c := by
  rw [usesBy, filter_cons_of_neg (by simpa using h)]
  rfl

/-- A use without its client and mutex. -/
def Use.view (u : Use C) : Bytes × Bool × UsePhase := (u.resource, u.readLock, u.phase)

/-- The loop variables of a client are in range. -/
def Pc.Fits (resources : List Bytes) : Pc → Prop
  | .idle | .refused | .locked _ => True
  | .acquiring _ i success => success = successUpTo resources.length i
  | .trying _ i success _ | .timedOut _ i success =>
    i < resources.length ∧ success = successUpTo resources.length i
  | .releasing _ _ marks _ | .leaving _ _ marks _ => marks.length = resources.length
  | .panicked => False

/-- The uses of a client, given where it stands. -/
def Pc.expected (resources : List Bytes) : Pc → List (Bytes × Bool × UsePhase)
  | .idle | .refused | .panicked => []
  | .acquiring readLock i _ => (resources.take i).map fun r => (r, readLock, .held)
  | .trying readLock i _ _ | .timedOut readLock i _ =>
    (resources[i]?.toList.map fun r => (r, readLock, .attempting)) ++
      (resources.take i).map fun r => (r, readLock, .held)
  | .locked readLock => resources.map fun r => (r, readLock, .held)
  | .releasing _ readLock marks si =>
    (marked (resources.drop si) (marks.drop si)).map fun r => (r, readLock, .held)
  | .leaving _ readLock marks si =>
    (resources[si]?.toList.map fun r => (r, readLock, .leaving)) ++
      (marked (resources.drop (si + 1)) (marks.drop (si + 1))).map fun r => (r, readLock, .held)

/-- A client with the uses `l`. -/
structure Stands (resources : List Bytes) (pc : Pc) (l : List (Use C)) : Prop where
  fits : pc.Fits resources
  views : (l.map Use.view).Perm (pc.expected resources)
  nsLk : ∀ readLock i success p, pc = .trying readLock i success p →
    ∀ u ∈ l, u.phase = .attempting → u.nsLk = p

omit [DecidableEq C] in
lemma Stands.perm {l l' : List (Use C)} (h : Stands resources pc l) (hl : l.Perm l') :
    Stands resources pc l' where
  fits := h.fits
  views := (hl.map _).symm.trans h.views
  nsLk readLock i success p hpc u hu := h.nsLk readLock i success p hpc u (hl.mem_iff.mpr hu)

lemma exists_use {x : Bytes × Bool × UsePhase} {xs : List (Bytes × Bool × UsePhase)}
    (h : ((usesBy uses c).map view).Perm (x :: xs)) :
    ∃ u ∈ uses, u.client = c ∧ u.view = x ∧ uses.Perm (u :: uses.erase u) ∧
      ((usesBy (uses.erase u) c).map view).Perm xs := by
  obtain ⟨u, hu, hview⟩ := mem_map.mp (h.mem_iff.mpr mem_cons_self)
  obtain ⟨hmem, hclient⟩ := mem_filter.mp hu
  have hclient : u.client = c := by simpa using hclient
  have hperm := perm_cons_erase hmem
  refine ⟨u, hmem, hclient, hview, hperm, ?_⟩
  have hby : (usesBy uses c).Perm (u :: usesBy (uses.erase u) c) := by
    rw [← usesBy_cons_self hclient]
    exact hperm.filter _
  have hviews := (hby.map view).symm.trans h
  rw [map_cons, hview] at hviews
  exact hviews.cons_inv

end Clients

/-! ### Steps -/

section Steps

variable {C : Type} [DecidableEq C] {li : C → LocalLockInstance} {s s' : NsState C} {c : C}

/-- The state between steps. -/
structure NsInv (li : C → LocalLockInstance) (s : NsState C) : Prop where
  table : TableInv s.table s.uses
  stands : ∀ c, Stands (li c).resources (s.pc c) (usesBy s.uses c)
  mutex : ∀ c undo readLock marks si, s.pc c = .leaving undo readLock marks si →
    s.lockMapMutex = some c

omit [DecidableEq C] in
lemma tableInv_new : TableInv NsLockMap.new ([] : List (Use C)) where
  wellFormed := ⟨fun h => (by cases h), fun h => (by cases h)⟩
  entryFor _ := rfl
  bounded _ := by
    show 0 < 2 ^ 31
    decide

lemma nsInv_init : NsInv li (NsState.init C) where
  table := tableInv_new
  stands _ := ⟨trivial, List.Perm.refl _, fun _ _ _ _ h => by cases h⟩
  mutex _ _ _ _ _ h := by cases h

lemma NsInv.update (h : NsInv li s) {table : NsLockMap} {mutex : Option C} {pc : Pc}
    {uses : List (Use C)} (htable : TableInv table uses)
    (hother : ∀ d, d ≠ c → (usesBy s.uses d).Perm (usesBy uses d))
    (hself : Stands (li c).resources pc (usesBy uses c))
    (hmutex : ∀ d, d ≠ c → s.lockMapMutex = some d → mutex = some d)
    (hleaving : ∀ undo readLock marks si, pc = .leaving undo readLock marks si → mutex = some c) :
    NsInv li ⟨table, mutex, Function.update s.pc c pc, uses⟩ where
  table := htable
  stands := (Function.forall_update_iff s.pc fun d pc =>
    Stands (li d).resources pc (usesBy uses d)).mpr
      ⟨hself, fun d hd => (h.stands d).perm (hother d hd)⟩
  mutex := (Function.forall_update_iff s.pc fun d pc => ∀ undo readLock marks si,
    pc = .leaving undo readLock marks si → mutex = some d).mpr
      ⟨hleaving, fun d hd undo readLock marks si hpc =>
        hmutex d hd (h.mutex d undo readLock marks si hpc)⟩

/-- The client waits for no mutex, and does not hold `lockMapMutex`. -/
def Pc.plain : Pc → Bool
  | .trying _ _ _ _ | .leaving _ _ _ _ => false
  | _ => true

lemma Pc.ne_trying_of_plain {pc : Pc} (h : pc.plain) (readLock : Bool) (i : ℕ)
    (success : List Bool) (p : ℕ) : pc ≠ .trying readLock i success p := by
  rintro rfl
  cases h

lemma Pc.ne_leaving_of_plain {pc : Pc} (h : pc.plain) (undo readLock : Bool)
    (marks : List Bool) (si : ℕ) : pc ≠ .leaving undo readLock marks si := by
  rintro rfl
  cases h

lemma NsInv.goto (h : NsInv li s) {pc : Pc} (hplain : pc.plain)
    (hfits : pc.Fits (li c).resources)
    (hexpected : ((s.pc c).expected (li c).resources).Perm (pc.expected (li c).resources)) :
    NsInv li (s.goto c pc) :=
  h.update h.table (fun _ _ => List.Perm.refl _) ⟨hfits, (h.stands c).views.trans hexpected,
      fun _ _ _ _ hpc => absurd hpc (Pc.ne_trying_of_plain hplain _ _ _ _)⟩
    (fun _ _ hd => hd) fun _ _ _ _ hpc => absurd hpc (Pc.ne_leaving_of_plain hplain _ _ _ _)

lemma usesBy_other {uses rest : List (Use C)} {u : Use C} (hu : u.client = c)
    (hperm : uses.Perm (u :: rest)) {d : C} (hd : d ≠ c) : (usesBy uses d).Perm (usesBy rest d) := by
  have h := hperm.filter fun u => decide (u.client = d)
  rwa [← usesBy, ← usesBy, usesBy_cons_ne (by rw [hu]; exact hd.symm)] at h

section Calls

variable {resource : Bytes} {readLock undo : Bool} {i si p : ℕ} {success marks : List Bool}

section

variable (h : NsInv li s)

include h

lemma NsInv.enterStep (hpc : s.pc c = .acquiring readLock i success)
    (hr : (li c).resources[i]? = some resource)
    (hroom : (usesOf s.uses resource).length + 1 < 2 ^ 31) :
    NsInv li (enterStep s c resource readLock i success) := by
  have hstands := h.stands c
  rw [hpc] at hstands
  refine h.update (h.table.enter hroom c readLock) (fun d hd => ?_) ?_ (fun _ _ hd => hd)
    fun _ _ _ _ hq => by cases hq
  · rw [usesBy_cons_ne hd.symm]
  · rw [usesBy_cons_self rfl]
    refine ⟨⟨(List.getElem?_eq_some_iff.mp hr).1, hstands.fits⟩, ?_, fun _ _ _ _ hq u hu hphase => ?_⟩
    · rw [Pc.expected, hr]
      exact List.Perm.cons _ hstands.views
    · cases hq
      rcases mem_cons.mp hu with rfl | hu
      · rfl
      · -- the uses before were all held
        have hmem := hstands.views.mem_iff.mp (mem_map_of_mem hu)
        obtain ⟨r, -, heq⟩ := mem_map.mp hmem
        have : UsePhase.held = u.phase := (Prod.mk.inj (Prod.mk.inj heq).2).2
        rw [hphase] at this
        cases this

lemma NsInv.exists_use {phase : UsePhase} {xs : List (Bytes × Bool × UsePhase)}
    (hexpected : (s.pc c).expected (li c).resources = (resource, readLock, phase) :: xs) :
    ∃ p, s.table.lockMap resource = some p ∧ (⟨c, resource, p, readLock, phase⟩ : Use C) ∈ s.uses ∧
      TableInv s.table (⟨c, resource, p, readLock, phase⟩ ::
        s.uses.erase ⟨c, resource, p, readLock, phase⟩) ∧
      (∀ d, d ≠ c → (usesBy s.uses d).Perm
        (usesBy (s.uses.erase ⟨c, resource, p, readLock, phase⟩) d)) ∧
      ((usesBy (s.uses.erase ⟨c, resource, p, readLock, phase⟩) c).map view).Perm xs := by
  have hviews := (h.stands c).views
  rw [hexpected] at hviews
  obtain ⟨u, hmem, hclient, hview, hperm, hrest⟩ := NsLock.exists_use hviews
  obtain ⟨hresource, hread⟩ := Prod.mk.inj hview
  obtain ⟨hread, hphase⟩ := Prod.mk.inj hread
  obtain ⟨client, res, p, read, ph⟩ := u
  subst hclient hresource hread hphase
  exact ⟨p, h.table.lockMap_of_mem hmem, hmem, h.table.perm hperm,
    fun d hd => usesBy_other rfl hperm hd, hrest⟩

lemma NsInv.attemptStep (hpc : s.pc c = .trying readLock i success p)
    (hr : (li c).resources[i]? = some resource) :
    NsInv li (attemptStep s c resource readLock i success p) := by
  have hstands := h.stands c
  rw [hpc] at hstands
  have hexpected : (s.pc c).expected (li c).resources = (resource, readLock, .attempting) ::
      ((li c).resources.take i).map fun r => (r, readLock, .held) := by
    rw [hpc, Pc.expected, hr]
    rfl
  obtain ⟨q, -, hmem, htable, hother, hviews⟩ := h.exists_use hexpected
  have hq : q = p := hstands.nsLk _ _ _ _ rfl _ (mem_filter.mpr ⟨hmem, by simp⟩) rfl
  subst hq
  unfold NsLock.attemptStep
  cases hlock : (s.table.nsLocks q).rw.lock (!readLock) with
  | mk rw locked =>
    cases locked with
    | false => exact h
    | true =>
      refine h.update (htable.grant rfl hlock) (fun d hd => ?_) ?_ (fun _ _ hd => hd)
        fun _ _ _ _ hq => by cases hq
      · rw [usesBy_cons_ne hd.symm]
        exact hother d hd
      · rw [usesBy_cons_self rfl]
        refine ⟨?_, ?_, fun _ _ _ _ hq => by cases hq⟩
        · show success.set i true = _
          rw [hstands.fits.2]
          exact set_successUpTo hstands.fits.1
        · rw [Pc.expected, take_succ_eq_append_getElem hstands.fits.1, map_append,
            (List.getElem?_eq_some_iff.mp hr).2]
          refine (List.Perm.cons _ hviews).trans ?_
          exact (perm_append_singleton _ _).symm

lemma NsInv.leaveStep {phase : UsePhase} (hphase : phase ≠ .held) {pc : Pc}
    (hexpected : (s.pc c).expected (li c).resources =
      (resource, readLock, phase) :: pc.expected (li c).resources)
    (hplain : pc.plain) (hfits : pc.Fits (li c).resources)
    (hmutex : ∀ d, d ≠ c → s.lockMapMutex ≠ some d) :
    NsInv li (leaveStep s c resource readLock phase pc) := by
  obtain ⟨p, hp, -, htable, hother, hviews⟩ := h.exists_use hexpected
  obtain ⟨n', hleave, htable'⟩ := htable.leave hphase
  unfold NsLock.leaveStep
  rw [hleave, hp]
  exact h.update htable' hother
    ⟨hfits, hviews, fun _ _ _ _ hpc => absurd hpc (Pc.ne_trying_of_plain hplain _ _ _ _)⟩
    (fun d hd hm => absurd hm (hmutex d hd))
    fun _ _ _ _ hpc => absurd hpc (Pc.ne_leaving_of_plain hplain _ _ _ _)

lemma NsInv.releaseStep (hpc : s.pc c = .releasing undo readLock marks si)
    (hr : (li c).resources[si]? = some resource) (hm : marks[si]? = some true)
    (hfree : s.lockMapMutex = none) :
    NsInv li (releaseStep s c resource undo readLock marks si) := by
  have hstands := h.stands c
  rw [hpc] at hstands
  have hexpected : (s.pc c).expected (li c).resources = (resource, readLock, .held) ::
      (marked ((li c).resources.drop (si + 1)) (marks.drop (si + 1))).map
        fun r => (r, readLock, .held) := by
    rw [hpc, Pc.expected, marked_drop_of_true hr hm]
    rfl
  obtain ⟨p, hp, -, htable, hother, hviews⟩ := h.exists_use hexpected
  obtain ⟨rw, hunlock, htable'⟩ := htable.release rfl
  unfold NsLock.releaseStep
  rw [hp]
  simp only [hunlock, if_true]
  refine h.update htable' (fun d hd => ?_) ?_ (fun d _ hd => ?_) fun _ _ _ _ _ => rfl
  · rw [usesBy_cons_ne hd.symm]
    exact hother d hd
  · rw [usesBy_cons_self rfl]
    refine ⟨hstands.fits, ?_, fun _ _ _ _ hq => by cases hq⟩
    rw [Pc.expected, hr]
    exact List.Perm.cons _ hviews
  · rw [hfree] at hd
    cases hd

end

end Calls

/-- The resource that a client is about to be counted in at. -/
def Pc.next (resources : List Bytes) : Pc → Option Bytes
  | .acquiring _ i _ => resources[i]?
  | _ => none

/-- A client that is counted in leaves the count of its resource below `2 ^ 31`. -/
def HasRoom (li : C → LocalLockInstance) (s : NsState C) (e : C × NsEvent) : Prop :=
  e.2 = .enter → ∀ r ∈ (s.pc e.1).next (li e.1).resources, (usesOf s.uses r).length + 1 < 2 ^ 31

instance (s : NsState C) (e : C × NsEvent) : Decidable (HasRoom li s e) :=
  inferInstanceAs (Decidable (_ → ∀ r ∈ (s.pc e.1).next (li e.1).resources, _))

/-- Every step of a client keeps the invariant. -/
lemma nsInv_step {e : C × NsEvent} (h : NsInv li s) (hroom : HasRoom li s e)
    (hstep : nsStep li s e = some s') : NsInv li s' := by
  obtain ⟨c, event⟩ := e
  have hstands := h.stands c
  simp only [nsStep] at hstep
  split at hstep
  case h_1 readLock hpc | h_2 readLock hpc =>
    cases hstep
    refine h.goto rfl ?_ ?_
    · show replicate _ false = _
      rfl
    · rw [hpc]
      exact List.Perm.refl _
  case h_3 readLock i success hpc =>
    obtain ⟨-, hstep⟩ := Option.ite_none_right_eq_some.mp hstep
    obtain ⟨resource, hr, rfl⟩ := Option.map_eq_some_iff.mp hstep
    refine h.enterStep hpc hr (hroom rfl resource ?_)
    show _ ∈ (s.pc c).next _
    rw [hpc]
    exact hr
  case h_4 readLock i success hpc =>
    obtain ⟨hi, hstep⟩ := Option.ite_none_right_eq_some.mp hstep
    cases hstep
    refine h.goto rfl trivial ?_
    rw [hpc, Pc.expected, Pc.expected, hi, take_length]
  case h_5 readLock i success nsLk hpc =>
    obtain ⟨resource, hr, rfl⟩ := Option.map_eq_some_iff.mp hstep
    exact h.attemptStep hpc hr
  case h_6 readLock i success nsLk hpc =>
    cases hstep
    rw [hpc] at hstands
    refine h.goto rfl hstands.fits ?_
    rw [hpc]
    exact List.Perm.refl _
  case h_7 readLock i success hpc =>
    obtain ⟨hfree, hstep⟩ := Option.ite_none_right_eq_some.mp hstep
    obtain ⟨resource, hr, rfl⟩ := Option.map_eq_some_iff.mp hstep
    rw [hpc] at hstands
    refine h.leaveStep (by decide) ?_ rfl ?_ fun d _ hd => ?_
    · rw [hpc, Pc.expected, Pc.expected, hr, hstands.fits.2, drop_zero, drop_zero,
        marked_successUpTo]
      rfl
    · show success.length = _
      rw [hstands.fits.2, successUpTo, length_append, length_replicate, length_replicate]
      exact Nat.add_sub_cancel' hstands.fits.1.le
    · rw [hfree] at hd
      cases hd
  case h_8 readLock hpc =>
    cases hstep
    refine h.goto rfl (length_replicate ..) ?_
    rw [hpc, Pc.expected, Pc.expected, drop_zero, drop_zero, marked_replicate]
  case h_9 undo readLock marks si hpc =>
    rw [hpc] at hstands
    split at hstep
    case isTrue hm =>
      cases hstep
      refine h.goto rfl hstands.fits ?_
      rw [hpc, Pc.expected, Pc.expected, marked_drop_of_false hm]
    case isFalse hm =>
      obtain ⟨hfree, hstep⟩ := Option.ite_none_right_eq_some.mp hstep
      obtain ⟨resource, hr, rfl⟩ := Option.map_eq_some_iff.mp hstep
      have hlt : si < marks.length := hstands.fits.symm ▸ (List.getElem?_eq_some_iff.mp hr).1
      refine h.releaseStep hpc hr ?_ hfree
      rw [getElem?_eq_getElem hlt] at hm ⊢
      cases hmark : marks[si] with
      | true => rfl
      | false => exact absurd (congrArg some hmark) hm
  case h_10 undo readLock marks si hpc =>
    obtain ⟨resource, hr, rfl⟩ := Option.map_eq_some_iff.mp hstep
    rw [hpc] at hstands
    refine h.leaveStep (by decide) ?_ rfl hstands.fits fun d hd hm => hd ?_
    · rw [hpc, Pc.expected, Pc.expected, hr]
      rfl
    · rw [h.mutex c undo readLock marks si hpc] at hm
      exact (Option.some.inj hm).symm
  case h_11 undo readLock marks si hpc =>
    obtain ⟨hsi, hstep⟩ := Option.ite_none_right_eq_some.mp hstep
    cases hstep
    have hnil : (s.pc c).expected (li c).resources = [] := by
      rw [hpc, Pc.expected, hsi, drop_length]
      rfl
    cases undo with
    | true =>
      refine h.goto rfl trivial ?_
      rw [hnil]
      exact List.Perm.refl _
    | false =>
      refine h.goto rfl trivial ?_
      rw [hnil]
      exact List.Perm.refl _
  case h_12 => cases hstep

end Steps

/-! ### What the table says -/

section Exact

variable {C : Type} [DecidableEq C] {li : C → LocalLockInstance} {s : NsState C} {c : C}
  {resources : List Bytes} {pc : Pc}

/-- The table tells exactly who uses what. -/
structure Exact (li : C → LocalLockInstance) (s : NsState C) : Prop where
  /-- A resource is in the table exactly while it is used. -/
  mem_iff : ∀ r, (∃ p, s.table.lockMap r = some p) ↔ ∃ u ∈ s.uses, u.resource = r
  /-- Its count is the number of uses. -/
  ref_eq : ∀ r p, s.table.lockMap r = some p → (s.table.nsLocks p).ref = (usesOf s.uses r).length
  /-- That is the number of clients, when the paths of each have different names. -/
  ref_eq_clients : (∀ c, (li c).resources.Nodup) → ∀ r p, s.table.lockMap r = some p →
    ∃ clients : Finset C, (∀ c, c ∈ clients ↔ ∃ u ∈ s.uses, u.client = c ∧ u.resource = r) ∧
      (s.table.nsLocks p).ref = clients.card
  /-- All users of a resource use the mutex of its entry. -/
  same_mutex : ∀ u ∈ s.uses, s.table.lockMap u.resource = some u.nsLk
  /-- A client waits, holds or, inside `nsLockMap.unlock`, has just released. -/
  free : s.lockMapMutex = none → ∀ u ∈ s.uses, u.phase = .attempting ∨ u.phase = .held
  /-- Two clients hold a resource only if both read. -/
  exclusive : ∀ u ∈ s.uses, ∀ v ∈ s.uses, u.resource = v.resource → u.client ≠ v.client →
    u.phase = .held → v.phase = .held → u.readLock = true ∧ v.readLock = true
  /-- A `GetLock` or `GetRLock` that returned without an error holds all its paths. -/
  locked : ∀ c readLock, s.pc c = .locked readLock →
    ((usesBy s.uses c).map Use.view).Perm ((li c).resources.map fun r => (r, readLock, .held))
  /-- One that returned an error holds none. -/
  refused : ∀ c, s.pc c = .refused → ∀ u ∈ s.uses, u.client ≠ c
  no_panic : ∀ c, s.pc c ≠ .panicked

lemma marked_sublist (resources : List Bytes) (marks : List Bool) :
    (marked resources marks).Sublist resources := by
  induction resources generalizing marks with
  | nil => exact Sublist.refl _
  | cons r rest ih =>
    cases marks with
    | nil => exact nil_sublist _
    | cons m marks =>
      cases m with
      | true => exact (ih marks).cons_cons r
      | false => exact (ih marks).cons r

lemma Pc.expected_subperm (resources : List Bytes) (pc : Pc) :
    ((pc.expected resources).map Prod.fst).Subperm resources := by
  have hheld : ∀ (l : List Bytes) (readLock : Bool) (phase : UsePhase),
      (l.map fun r => (r, readLock, phase)).map Prod.fst = l := by
    intro l readLock phase
    rw [map_map]
    exact map_id l
  have htry : ∀ (i : ℕ) (readLock : Bool) (phase : UsePhase),
      (((resources[i]?.toList.map fun r => (r, readLock, phase)) ++
        (resources.take i).map fun r => (r, readLock, UsePhase.held)).map Prod.fst).Subperm
          resources := by
    intro i readLock phase
    rw [map_append, hheld, hheld]
    refine (perm_append_comm.subperm).trans ?_
    rw [← take_add_one]
    exact (take_sublist _ _).subperm
  cases pc with
  | idle | refused | panicked => exact nil_subperm
  | acquiring readLock i success =>
    rw [Pc.expected, hheld]
    exact (take_sublist _ _).subperm
  | trying readLock i success nsLk => exact htry i readLock .attempting
  | timedOut readLock i success => exact htry i readLock .attempting
  | locked readLock =>
    rw [Pc.expected, hheld]
  | releasing undo readLock marks si =>
    rw [Pc.expected, hheld]
    exact ((marked_sublist _ _).trans (drop_sublist _ _)).subperm
  | leaving undo readLock marks si =>
    rw [Pc.expected, map_append, hheld, hheld]
    refine Sublist.subperm ?_
    cases hr : resources[si]? with
    | none => exact (marked_sublist _ _).trans (drop_sublist _ _)
    | some r =>
      obtain ⟨hlt, hget⟩ := List.getElem?_eq_some_iff.mp hr
      have hdrop := drop_eq_getElem_cons hlt
      rw [hget] at hdrop
      refine Sublist.trans ?_ (drop_sublist si resources)
      rw [hdrop]
      exact (marked_sublist _ _).cons_cons r

lemma NsInv.nodup_clients (h : NsInv li s) (hnodup : ∀ c, (li c).resources.Nodup) (r : Bytes) :
    ((usesOf s.uses r).map client).Nodup := by
  rw [nodup_iff_count_le_one]
  intro c
  have hres : ((usesBy s.uses c).map resource).Nodup := by
    have hperm := (h.stands c).views.map Prod.fst
    rw [map_map] at hperm
    obtain ⟨l, hl, hsub⟩ := hperm.subperm.trans (Pc.expected_subperm _ (s.pc c))
    exact hl.nodup_iff.mp ((hnodup c).sublist hsub)
  have hone := nodup_iff_count_le_one.mp hres r
  rw [List.count, countP_map, usesOf, countP_filter]
  rw [List.count, countP_map, usesBy, countP_filter] at hone
  refine le_trans (countP_mono_left fun u _ hu => ?_) hone
  simp only [Function.comp, Bool.and_eq_true, beq_iff_eq, decide_eq_true_eq] at hu ⊢
  exact ⟨hu.2, hu.1⟩

omit [DecidableEq C] in
lemma two_le_countP [DecidableEq (Use C)] {l : List (Use C)} {u v : Use C} {p : Use C → Bool}
    (hu : u ∈ l) (hv : v ∈ l) (hne : u ≠ v) (hpu : p u) (hpv : p v) :
    2 ≤ l.countP p := by
  have hv' : v ∈ l.erase u := (mem_erase_of_ne hne.symm).mpr hv
  rw [(perm_cons_erase hu).countP_eq, countP_cons, if_pos hpu]
  have : 0 < (l.erase u).countP p := countP_pos_iff.mpr ⟨v, hv', hpv⟩
  omega

lemma NsInv.exclusive (h : NsInv li s) {u v : Use C} (hu : u ∈ s.uses) (hv : v ∈ s.uses)
    (hres : u.resource = v.resource) (hne : u.client ≠ v.client) (hheld : u.phase = .held)
    (hheld' : v.phase = .held) : u.readLock := by
  by_contra hwrite
  have hwrite : u.readLock = false := by simpa using hwrite
  have hu' : u ∈ usesOf s.uses u.resource := mem_filter.mpr ⟨hu, by simp⟩
  have hv' : v ∈ usesOf s.uses u.resource := mem_filter.mpr ⟨hv, by simp [hres]⟩
  have hentry := h.table.entryFor u.resource
  rw [h.table.entry_of_mem hu] at hentry
  have hwriter : u.holds false := by simp [holds, hheld, hwrite]
  have hpos : 0 < (usesOf s.uses u.resource).countP (holds false) :=
    countP_pos_iff.mpr ⟨u, hu', hwriter⟩
  rcases hentry.2.2.2 with ⟨-, -, hreaders, hwriters⟩ | ⟨-, -, hwriters⟩
  · cases hread : v.readLock with
    | true =>
      have : 0 < (usesOf s.uses u.resource).countP (holds true) :=
        countP_pos_iff.mpr ⟨v, hv', by simp [holds, hheld', hread]⟩
      omega
    | false =>
      have htwo := two_le_countP hu' hv' (fun heq => hne (heq ▸ rfl)) hwriter
        (show v.holds false by simp [holds, hheld', hread])
      omega
  · omega

lemma Pc.eq_leaving_of_mem {r : Bytes} {readLock : Bool}
    (h : (r, readLock, UsePhase.leaving) ∈ pc.expected resources) :
    ∃ undo readLock marks si, pc = .leaving undo readLock marks si := by
  cases pc with
  | leaving undo readLock marks si => exact ⟨undo, readLock, marks, si, rfl⟩
  | idle | refused | panicked => cases h
  | acquiring | trying | timedOut | locked | releasing =>
    simp [Pc.expected, -map_take] at h

lemma NsInv.exact (h : NsInv li s) : Exact li s where
  mem_iff r := by
    constructor
    · rintro ⟨p, hp⟩
      have hentry := h.table.entryFor r
      rw [NsLockMap.entry_eq_some.mpr ⟨hp, rfl⟩] at hentry
      obtain ⟨u, hu⟩ := exists_mem_of_ne_nil _ hentry.1
      obtain ⟨hmem, hres⟩ := mem_filter.mp hu
      exact ⟨u, hmem, by simpa using hres⟩
    · rintro ⟨u, hu, rfl⟩
      exact ⟨u.nsLk, h.table.lockMap_of_mem hu⟩
  ref_eq r p hp := by
    have hentry := h.table.entryFor r
    rw [NsLockMap.entry_eq_some.mpr ⟨hp, rfl⟩] at hentry
    exact hentry.2.2.1
  ref_eq_clients hnodup r p hp := by
    have hentry := h.table.entryFor r
    rw [NsLockMap.entry_eq_some.mpr ⟨hp, rfl⟩] at hentry
    refine ⟨((usesOf s.uses r).map client).toFinset, fun c => ?_, ?_⟩
    · rw [mem_toFinset, mem_map]
      constructor
      · rintro ⟨u, hu, hclient⟩
        obtain ⟨hmem, hres⟩ := mem_filter.mp hu
        exact ⟨u, hmem, hclient, by simpa using hres⟩
      · rintro ⟨u, hmem, hclient, hres⟩
        exact ⟨u, mem_filter.mpr ⟨hmem, by simpa using hres⟩, hclient⟩
    · rw [toFinset_card_of_nodup (h.nodup_clients hnodup r), length_map]
      exact hentry.2.2.1
  same_mutex _ hu := h.table.lockMap_of_mem hu
  free hfree u hu := by
    cases hphase : u.phase with
    | attempting => exact Or.inl rfl
    | held => exact Or.inr rfl
    | leaving =>
      have hview : u.view ∈ (s.pc u.client).expected (li u.client).resources :=
        (h.stands u.client).views.mem_iff.mp (mem_map_of_mem (mem_filter.mpr ⟨hu, by simp⟩))
      rw [view, hphase] at hview
      obtain ⟨undo, readLock, marks, si, hpc⟩ := Pc.eq_leaving_of_mem hview
      rw [h.mutex _ _ _ _ _ hpc] at hfree
      cases hfree
  exclusive u hu v hv hres hne hheld hheld' :=
    ⟨h.exclusive hu hv hres hne hheld hheld', h.exclusive hv hu hres.symm hne.symm hheld' hheld⟩
  locked c readLock hpc := by
    have hviews := (h.stands c).views
    rwa [hpc] at hviews
  refused c hpc u hu hclient := by
    have hviews := (h.stands c).views
    rw [hpc] at hviews
    have hnil := map_eq_nil_iff.mp hviews.eq_nil
    have hmem : u ∈ usesBy s.uses c := mem_filter.mpr ⟨hu, by simpa using hclient⟩
    rw [hnil] at hmem
    cases hmem
  no_panic c hpc := by
    have hfits := (h.stands c).fits
    rw [hpc] at hfits
    exact hfits

/-- In every run, as long as no count reaches `2 ^ 31`, the table is exact. -/
theorem table_exact (li : C → LocalLockInstance) (events : List (C × NsEvent)) (s : NsState C)
    (hrun : run (nsStep li) (NsState.init C) events = some s)
    (hroom : Along (nsStep li) (HasRoom li) (NsState.init C) events) : Exact li s :=
  (run_invariant_along (fun _ _ _ hinv hr hstep => nsInv_step hinv hr hstep) nsInv_init hroom
    hrun).exact

end Exact

/-- Client `false` reads the paths `a` and `b`, and client `true` waits for `b` to write and times
out. -/
def readersAndWriter : Bool → LocalLockInstance
  | false => .newNSLock (stringBytes "v") [stringBytes "b", stringBytes "a"]
  | true => .newNSLock (stringBytes "v") [stringBytes "b"]

/-- A client holds two resources for reading; a writer of one of them waits, gives up and leaves. -/
theorem table_exact_after_timeout : ∃ s, run (nsStep readersAndWriter) (.init Bool)
        [(false, .getLock true), (false, .enter), (false, .attempt), (false, .enter),
          (true, .getLock false), (false, .attempt), (true, .enter), (false, .finish),
          (true, .attempt), (true, .timeout), (true, .leave), (true, .release), (true, .finish)] =
        some s ∧ s.pc false = .locked true ∧ s.pc true = .refused ∧ Exact readersAndWriter s := by
  have hrun : (run (nsStep readersAndWriter) (.init Bool)
      [(false, .getLock true), (false, .enter), (false, .attempt), (false, .enter),
        (true, .getLock false), (false, .attempt), (true, .enter), (false, .finish),
        (true, .attempt), (true, .timeout), (true, .leave), (true, .release), (true, .finish)]).map
      (fun s => (s.pc false, s.pc true)) = some (.locked true, .refused) := by
    decide +kernel
  obtain ⟨s, hs, hpc⟩ := Option.map_eq_some_iff.mp hrun
  obtain ⟨hfalse, htrue⟩ := Prod.mk.inj hpc
  exact ⟨s, hs, hfalse, htrue, table_exact readersAndWriter _ s hs (by decide +kernel)⟩

/-- The paths `a` and `a/.` are one resource. -/
def twoNames : Unit → LocalLockInstance
  | () => .newNSLock (stringBytes "v") [stringBytes "a", stringBytes "a/."]

/-- One client reads two different paths, and the count of their resource is two. -/
theorem two_paths_one_client : (twoNames ()).paths.Nodup ∧ ∃ s, run (nsStep twoNames) (.init Unit)
          [((), .getLock true), ((), .enter), ((), .attempt), ((), .enter), ((), .attempt),
            ((), .finish)] = some s ∧
        ∃ p, s.table.lockMap (stringBytes "v/a") = some p ∧ (s.table.nsLocks p).ref = 2 := by
  refine ⟨by decide +kernel, ?_⟩
  have hrun : (run (nsStep twoNames) (.init Unit)
      [((), .getLock true), ((), .enter), ((), .attempt), ((), .enter), ((), .attempt),
        ((), .finish)]).map (fun s => (s.table.entry (stringBytes "v/a")).map fun e => e.2.ref) =
      some (some 2) := by
    decide +kernel
  obtain ⟨s, hs, hentry⟩ := Option.map_eq_some_iff.mp hrun
  obtain ⟨⟨p, lk⟩, he, href⟩ := Option.map_eq_some_iff.mp hentry
  obtain ⟨hp, rfl⟩ := NsLockMap.entry_eq_some.mp he
  exact ⟨s, hs, p, hp, href⟩

end Obstor.NsLock
