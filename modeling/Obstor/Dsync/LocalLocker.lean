import Mathlib

/-!
# The lock table of one server

`localLocker` (`cmd/local-locker.go`): the locks that one server has granted, as a map from the name
of a resource to the list of its holders. A write lock is a list of one writer, read locks are a
list of readers.

The effect of a call is stated on `LocalLocker.held`, the holders of a name (none for a name that is
not in the map): `held_lock`, `held_rlock`, `held_unlock`, `held_runlock`, `held_refresh`.
-/

namespace Obstor.Dsync

open List Option Function

/-! ### The table -/

/-- The arguments of every call.
Source: `pkg/dsync/rpc-client-interface.go`, `LockArgs` -/
structure LockArgs where
  uid : String
  resources : List String
  source : String := ""
  owner : String := ""
  quorum : ℕ := 0
  deriving DecidableEq

/-- `lockRequesterInfo`. Times are on the server's clock. -/
structure LockRequesterInfo where
  name : String
  writer : Bool
  uid : String
  timestamp : ℤ
  timeLastRefresh : ℤ
  source : String := ""
  group : Bool := false
  owner : String := ""
  quorum : ℕ := 0
  deriving DecidableEq

/-- The errors of the release calls. -/
inductive LockerErr
  /-- "unlock attempted on a read locked entity". -/
  | readLocked (resources : List String)
  /-- "RUnlock attempted on a write locked entity". -/
  | writeLocked (resource : String)
  deriving DecidableEq

structure LocalLocker where
  lockMap : String → Option (List LockRequesterInfo)

namespace LocalLocker

def new : LocalLocker := ⟨fun _ => none⟩

/-- `l.lockMap[name]`: the nil slice when the name is not there. -/
def held (l : LocalLocker) (name : String) : List LockRequesterInfo := (l.lockMap name).getD []

def set (l : LocalLocker) (name : String) (lri : List LockRequesterInfo) : LocalLocker :=
  ⟨Function.update l.lockMap name (some lri)⟩

def delete (l : LocalLocker) (name : String) : LocalLocker :=
  ⟨Function.update l.lockMap name none⟩

end LocalLocker

def isWriteLock : List LockRequesterInfo → Bool
  | [lri] => lri.writer
  | _ => false

/-- An entry of the caller: the UID and the owner are its own. -/
def LockArgs.owns (args : LockArgs) (entry : LockRequesterInfo) : Bool :=
  entry.uid = args.uid && entry.owner = args.owner

def LockArgs.writeEntry (args : LockArgs) (now : ℤ) (resource : String) : LockRequesterInfo where
  name := resource
  writer := true
  uid := args.uid
  timestamp := now
  timeLastRefresh := now
  source := args.source
  group := args.resources.length > 1
  owner := args.owner
  quorum := args.quorum

def LockArgs.readEntry (args : LockArgs) (now : ℤ) (resource : String) : LockRequesterInfo where
  name := resource
  writer := false
  uid := args.uid
  timestamp := now
  timeLastRefresh := now
  source := args.source
  owner := args.owner
  quorum := args.quorum

lemma LockArgs.owns_eq_false {args args' : LockArgs} {entry : LockRequesterInfo}
    (h : (args'.uid = args.uid && args'.owner = args.owner) = false)
    (howns : args'.owns entry) : args.owns entry = false := by
  simp only [LockArgs.owns, Bool.and_eq_true, decide_eq_true_eq, Bool.and_eq_false_iff,
    decide_eq_false_iff_not] at h howns ⊢
  rw [howns.1, howns.2]
  exact h

/-! ### The calls -/

namespace LocalLocker

def canTakeUnlock (l : LocalLocker) (resources : List String) : Bool :=
  resources.countP (fun resource => isWriteLock (l.held resource)) = resources.length

def canTakeLock (l : LocalLocker) (resources : List String) : Bool :=
  resources.countP (fun resource => (l.lockMap resource).isNone) = resources.length

section

variable (l : LocalLocker) (now : ℤ) (args : LockArgs)

def lock : LocalLocker × Bool :=
  if !l.canTakeLock args.resources then (l, false)
  else
    (args.resources.foldl (fun l resource => l.set resource [args.writeEntry now resource]) l, true)

/-- `removeEntry`: the table, what the caller's slice has become, and whether an entry was found.
The slice keeps its only entry when the name is deleted. -/
def removeEntry (name : String) (args : LockArgs)
    (lri : List LockRequesterInfo) : LocalLocker × List LockRequesterInfo × Bool :=
  if lri.any args.owns then
    if lri.length = 1 then (l.delete name, lri, true)
    else (l.set name (lri.eraseP args.owns), lri.eraseP args.owns, true)
  else (l, lri, false)

def unlockResource (l : LocalLocker) (resource : String) : LocalLocker :=
  match l.lockMap resource with
  | some lri => (l.removeEntry resource args lri).1
  | none => l

def unlock : LocalLocker × Except LockerErr Bool :=
  if !l.canTakeUnlock args.resources then (l, .error (.readLocked args.resources))
  else (args.resources.foldl (unlockResource args) l, .ok true)

/-- `RLock`, on the first of the resources; `none` is the panic of `args.Resources[0]`. -/
def rlock : Option (LocalLocker × Bool) :=
  args.resources.head?.map fun resource =>
    match l.lockMap resource with
    | some lri =>
      if !isWriteLock lri then (l.set resource (lri ++ [args.readEntry now resource]), true)
      else (l, false)
    | none => (l.set resource [args.readEntry now resource], true)

/-- `RUnlock`, on the first of the resources; `none` is the panic of `args.Resources[0]`. -/
def runlock : Option (LocalLocker × Except LockerErr Bool) :=
  args.resources.head?.map fun resource =>
    match l.lockMap resource with
    | none => (l, .ok true)
    | some lri =>
      if isWriteLock lri then (l, .error (.writeLocked resource))
      else ((l.removeEntry resource args lri).1, .ok true)

/-- The first entry of the caller gets the time of the refresh. -/
def touch (args : LockArgs) (now : ℤ) : List LockRequesterInfo → List LockRequesterInfo
  | [] => []
  | entry :: rest =>
    if args.owns entry then { entry with timeLastRefresh := now } :: rest
    else entry :: touch args now rest

/-- `Refresh`, on the first of the resources; `none` is the panic of `args.Resources[0]`. -/
def refresh : Option (LocalLocker × Bool) :=
  args.resources.head?.map fun resource =>
    match l.lockMap resource with
    | none => (l, false)
    | some lri =>
      if lri.any args.owns then (l.set resource (touch args now lri), true) else (l, false)

end

end LocalLocker

/-! ### What the calls do to the holders of a name -/

namespace LocalLocker

variable {l l' : LocalLocker} {name resource : String} {args : LockArgs} {now : ℤ}

lemma lockMap_set (lri : List LockRequesterInfo) :
    (l.set resource lri).lockMap = Function.update l.lockMap resource (some lri) := rfl

lemma lockMap_delete : (l.delete resource).lockMap = Function.update l.lockMap resource none := rfl

lemma held_set (lri : List LockRequesterInfo) :
    (l.set resource lri).held name = if name = resource then lri else l.held name := by
  rw [held, lockMap_set]
  by_cases h : name = resource
  · rw [if_pos h, h, update_self, getD_some]
  · rw [if_neg h, update_of_ne h, held]

lemma held_delete :
    (l.delete resource).held name = if name = resource then [] else l.held name := by
  rw [held, lockMap_delete]
  by_cases h : name = resource
  · rw [if_pos h, h, update_self, getD_none]
  · rw [if_neg h, update_of_ne h, held]

variable {lri : List LockRequesterInfo}

lemma held_of_eq_some (h : l.lockMap name = some lri) : l.held name = lri := by
  rw [held, h, getD_some]

lemma held_of_eq_none (h : l.lockMap name = none) : l.held name = [] := by
  rw [held, h, getD_none]

lemma removeEntry_cases (l : LocalLocker) (name : String) (args : LockArgs)
    (lri : List LockRequesterInfo) :
    (∀ entry ∈ lri, args.owns entry = false) ∧ l.removeEntry name args lri = (l, lri, false) ∨
    (∃ entry, lri = [entry] ∧ args.owns entry) ∧
      l.removeEntry name args lri = (l.delete name, lri, true) ∨
    l.removeEntry name args lri =
      (l.set name (lri.eraseP args.owns), lri.eraseP args.owns, true) := by
  unfold removeEntry
  by_cases hany : lri.any args.owns
  · rw [if_pos hany]
    right
    by_cases hone : lri.length = 1
    · left
      obtain ⟨entry, rfl⟩ := length_eq_one_iff.mp hone
      exact ⟨⟨entry, rfl, by simpa using hany⟩, if_pos hone⟩
    · right
      exact if_neg hone
  · rw [if_neg hany]
    exact Or.inl ⟨by simpa using hany, rfl⟩

lemma held_removeEntry (h : l.held resource = lri) : (l.removeEntry resource args lri).1.held name =
      if name = resource then lri.eraseP args.owns else l.held name := by
  rcases l.removeEntry_cases resource args lri with ⟨hnone, heq⟩ | ⟨⟨entry, hlri, howns⟩, heq⟩ | heq
  · rw [heq]
    by_cases hname : name = resource
    · rw [if_pos hname, hname, h, eraseP_of_forall_not]
      intro entry hentry
      rw [hnone entry hentry]
      exact Bool.false_ne_true
    · rw [if_neg hname]
  · rw [heq, held_delete, hlri, eraseP_cons_of_pos howns]
  · rw [heq, held_set]

lemma held_foldl_set (entry : String → LockRequesterInfo) (resources : List String) :
    (resources.foldl (fun l resource => l.set resource [entry resource]) l).held name =
      if name ∈ resources then [entry name] else l.held name := by
  induction resources generalizing l with
  | nil => rw [foldl_nil, if_neg not_mem_nil]
  | cons resource rest ih =>
    rw [foldl_cons, ih, held_set]
    by_cases hrest : name ∈ rest
    · rw [if_pos hrest, if_pos (mem_cons_of_mem resource hrest)]
    · rw [if_neg hrest]
      by_cases hname : name = resource
      · rw [if_pos hname, hname, if_pos mem_cons_self]
      · rw [if_neg hname, if_neg fun h => (mem_cons.mp h).elim hname hrest]

lemma held_lock (h : (l.lock now args).2) :
    (∀ resource ∈ args.resources, l.held resource = []) ∧ ∀ name, (l.lock now args).1.held name =
        if name ∈ args.resources then [args.writeEntry now name] else l.held name := by
  unfold lock at h ⊢
  by_cases hcan : l.canTakeLock args.resources
  · rw [hcan]
    refine ⟨fun resource hres => ?_, fun name => held_foldl_set _ _⟩
    have hnone := countP_eq_length.mp (of_decide_eq_true hcan) resource hres
    exact held_of_eq_none (isNone_iff_eq_none.mp hnone)
  · rw [Bool.not_eq_true] at hcan
    rw [hcan] at h
    cases h

lemma lock_refused (h : (l.lock now args).2 = false) : (l.lock now args).1 = l := by
  unfold lock at h ⊢
  split
  · rfl
  · rw [if_neg ‹_›] at h
    cases h

lemma lock_eq_false (hres : resource ∈ args.resources) (h : l.held resource ≠ []) :
    (l.lock now args).2 = false := by
  refine Bool.eq_false_iff.mpr fun hgranted => ?_
  exact h ((held_lock hgranted).1 resource hres)

lemma held_rlock {reply : Bool} (h : l.rlock now args = some (l', reply)) :
    ∃ resource, args.resources.head? = some resource ∧ reply = !isWriteLock (l.held resource) ∧
      ∀ name, l'.held name =
        if name = resource ∧ reply then l.held name ++ [args.readEntry now name]
        else l.held name := by
  obtain ⟨resource, hres, hresult⟩ := map_eq_some_iff.mp h
  -- a name that is not in the map is one without holders
  have heq : (if isWriteLock (l.held resource) then (l, false)
      else (l.set resource (l.held resource ++ [args.readEntry now resource]), true)) =
        (l', reply) := by
    rw [← hresult]
    cases hmap : l.lockMap resource with
    | none => rw [held_of_eq_none hmap]; rfl
    | some lri => rw [held_of_eq_some hmap]; cases hwrite : isWriteLock lri <;> simp [hwrite]
  refine ⟨resource, hres, ?_⟩
  cases hwrite : isWriteLock (l.held resource) with
  | true =>
    rw [hwrite] at heq
    cases heq
    exact ⟨rfl, fun name => (if_neg fun h => Bool.false_ne_true h.2).symm⟩
  | false =>
    rw [hwrite] at heq
    cases heq
    refine ⟨rfl, fun name => ?_⟩
    rw [held_set]
    by_cases hname : name = resource
    · rw [if_pos hname, if_pos ⟨hname, rfl⟩, hname]
    · rw [if_neg hname, if_neg fun h => hname h.1]

lemma held_unlockResource : (unlockResource args l resource).held name =
      if name = resource then (l.held name).eraseP args.owns else l.held name := by
  unfold unlockResource
  cases hmap : l.lockMap resource with
  | none =>
    by_cases hname : name = resource
    · rw [if_pos hname, hname, held_of_eq_none hmap, eraseP_nil]
    · rw [if_neg hname]
  | some lri =>
    rw [held_removeEntry (held_of_eq_some hmap)]
    by_cases hname : name = resource
    · rw [if_pos hname, if_pos hname, hname, held_of_eq_some hmap]
    · rw [if_neg hname, if_neg hname]

lemma held_runlock {reply : Except LockerErr Bool} (h : l.runlock args = some (l', reply)) :
    ∃ resource, args.resources.head? = some resource ∧ ∀ name, l'.held name =
        if name = resource ∧ isWriteLock (l.held resource) = false then
          (l.held name).eraseP args.owns
        else l.held name := by
  obtain ⟨resource, hres, hresult⟩ := map_eq_some_iff.mp h
  have heq : (if isWriteLock (l.held resource) then l else unlockResource args l resource) =
      l' := by
    unfold unlockResource
    cases hmap : l.lockMap resource with
    | none =>
      rw [hmap] at hresult
      cases hresult
      rw [held_of_eq_none hmap]
      rfl
    | some lri =>
      rw [hmap] at hresult
      rw [held_of_eq_some hmap]
      cases hwrite : isWriteLock lri <;> simp only [hwrite] at hresult <;> cases hresult <;> rfl
  refine ⟨resource, hres, fun name => ?_⟩
  rw [← heq]
  cases isWriteLock (l.held resource) with
  | true => rw [if_pos rfl, if_neg fun h => Bool.false_ne_true h.2.symm]
  | false => simp [held_unlockResource]

lemma eraseP_eraseP_of_length_le_one {p : LockRequesterInfo → Bool} (h : lri.length ≤ 1) :
    (lri.eraseP p).eraseP p = lri.eraseP p := by
  match lri, h with
  | [], _ => rfl
  | [entry], _ =>
    by_cases hp : p entry
    · rw [eraseP_cons_of_pos hp, eraseP_nil]
    · rw [eraseP_cons_of_neg hp, eraseP_nil, eraseP_cons_of_neg hp, eraseP_nil]

lemma held_foldl_unlockResource {resources : List String}
    (h : ∀ resource ∈ resources, (l.held resource).length ≤ 1) :
    (resources.foldl (unlockResource args) l).held name =
      if name ∈ resources then (l.held name).eraseP args.owns else l.held name := by
  induction resources generalizing l with
  | nil => rw [foldl_nil, if_neg not_mem_nil]
  | cons resource rest ih =>
    have hrest : ∀ r ∈ rest, ((unlockResource args l resource).held r).length ≤ 1 := by
      intro r hr
      have hle := h r (mem_cons_of_mem resource hr)
      rw [held_unlockResource]
      split
      · exact le_trans length_eraseP_le hle
      · exact hle
    rw [foldl_cons, ih hrest, held_unlockResource]
    by_cases hname : name = resource
    · rw [if_pos hname, hname, if_pos mem_cons_self,
        eraseP_eraseP_of_length_le_one (h resource mem_cons_self), ite_self]
    · rw [if_neg hname]
      by_cases hmem : name ∈ rest
      · rw [if_pos hmem, if_pos (mem_cons_of_mem resource hmem)]
      · rw [if_neg hmem, if_neg fun hc => (mem_cons.mp hc).elim hname hmem]

lemma length_of_isWriteLock (h : isWriteLock lri) : ∃ entry, lri = [entry] ∧ entry.writer := by
  match lri, h with
  | [entry], h => exact ⟨entry, rfl, h⟩

lemma canTakeUnlock_iff {resources : List String} : l.canTakeUnlock resources ↔
    ∀ resource ∈ resources, isWriteLock (l.held resource) := by
  rw [canTakeUnlock, decide_eq_true_eq, countP_eq_length]

lemma held_unlock : (l.unlock args).1.held name =
      if name ∈ args.resources ∧ ∀ resource ∈ args.resources, isWriteLock (l.held resource)
      then (l.held name).eraseP args.owns else l.held name := by
  unfold unlock
  simp only [← canTakeUnlock_iff]
  by_cases hcan : l.canTakeUnlock args.resources
  · rw [hcan, Bool.not_true, if_neg Bool.false_ne_true, held_foldl_unlockResource]
    · by_cases hname : name ∈ args.resources
      · rw [if_pos hname, if_pos ⟨hname, rfl⟩]
      · rw [if_neg hname, if_neg fun h => hname h.1]
    · intro resource hres
      obtain ⟨entry, hentry, -⟩ := length_of_isWriteLock (canTakeUnlock_iff.mp hcan resource hres)
      rw [hentry]
      exact le_refl 1
  · rw [Bool.not_eq_true] at hcan
    rw [hcan, Bool.not_false, if_pos rfl, if_neg fun h => Bool.false_ne_true h.2]

lemma touch_of_forall_not (h : ∀ entry ∈ lri, ¬args.owns entry) : touch args now lri = lri := by
  induction lri with
  | nil => rfl
  | cons entry rest ih =>
    rw [touch, if_neg (h entry mem_cons_self), ih fun e he => h e (mem_cons_of_mem entry he)]

lemma held_refresh {reply : Bool} (h : l.refresh now args = some (l', reply)) :
    ∃ resource, args.resources.head? = some resource ∧ reply = (l.held resource).any args.owns ∧
      ∀ name, l'.held name =
        if name = resource then touch args now (l.held name) else l.held name := by
  obtain ⟨resource, hres, hresult⟩ := map_eq_some_iff.mp h
  have heq : (if (l.held resource).any args.owns then
      (l.set resource (touch args now (l.held resource)), true) else (l, false)) = (l', reply) := by
    rw [← hresult]
    cases hmap : l.lockMap resource with
    | none => rw [held_of_eq_none hmap]; rfl
    | some lri => rw [held_of_eq_some hmap]
  refine ⟨resource, hres, ?_⟩
  cases hany : (l.held resource).any args.owns with
  | true =>
    rw [hany] at heq
    cases heq
    refine ⟨rfl, fun name => ?_⟩
    rw [held_set]
    by_cases hname : name = resource
    · rw [if_pos hname, if_pos hname, hname]
    · rw [if_neg hname, if_neg hname]
  | false =>
    rw [hany] at heq
    cases heq
    refine ⟨rfl, fun name => ?_⟩
    by_cases hname : name = resource
    · rw [if_pos hname, hname, touch_of_forall_not (by simpa using hany)]
    · rw [if_neg hname]

end LocalLocker

end Obstor.Dsync
