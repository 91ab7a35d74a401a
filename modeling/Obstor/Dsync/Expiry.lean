import Obstor.Dsync.LocalLocker
import Obstor.Lib.Runs
import Obstor.Lib.Tally

/-!
# Expiry of locks that are not refreshed

`expireOldLocks` (`cmd/local-locker.go`) and runs of calls on one `localLocker`, each at a time of
the server's clock.

The holder of a lock refreshes it by `Refresh`, which sets the time of one entry: the first entry of
the UID on the first of the resources. `expireOldLocks` looks at every entry on its own.

`refreshed_lock_kept`: a lock on one name, the only one of its UID there, keeps its entry while it
is refreshed in time. `Effect` says once what a call makes of the holders of a name; from it each
call keeps the one entry and its time (`LockerCall.sole`), and `kept_step` carries this along a run
together with `expireOldLocks_keeps`. Without either condition the entry expires
(`refreshed_lock_expires`).
-/

namespace Obstor.Dsync

open Lib List Option LocalLocker LockArgs

/-! ### The function -/

/-- The inner loop of `expireOldLocks`. It ranges over the entries that the slice had at first;
`removeEntry` shifts them in the same array, and shortens the slice. -/
structure Expiring where
  locker : LocalLocker
  backing : List LockRequesterInfo
  lris : List LockRequesterInfo

def LockRequesterInfo.args (lri : LockRequesterInfo) : LockArgs :=
  { owner := lri.owner, uid := lri.uid, resources := [] }

/-- One turn of the inner loop. -/
def expireEntry (interval now : ℤ) (s : Expiring) (i : ℕ) : Expiring :=
  match s.backing[i]? with
  | none => s
  | some lri =>
    if now - lri.timeLastRefresh > interval then
      match s.locker.removeEntry lri.name lri.args s.lris with
      | (locker, lris, _) =>
        { locker := locker, backing := lris ++ s.backing.drop lris.length, lris := lris }
    else s

/-- One turn of the outer loop. -/
def expireName (interval now : ℤ) (l : LocalLocker) (name : String) : LocalLocker :=
  match l.lockMap name with
  | none => l
  | some lris => ((List.range lris.length).foldl (expireEntry interval now) ⟨l, lris, lris⟩).locker

/-- `expireOldLocks`, with the names in the order in which the map is ranged over. -/
def LocalLocker.expireOldLocks (l : LocalLocker) (interval now : ℤ) (order : List String) :
    LocalLocker :=
  order.foldl (expireName interval now) l

/-! ### Runs of calls -/

inductive LockerCall
  | lock (args : LockArgs)
  | rlock (args : LockArgs)
  | unlock (args : LockArgs)
  | runlock (args : LockArgs)
  | refresh (args : LockArgs)
  | expireOldLocks (order : List String)

/-- The locker after a call and whether the call replied with true; `none` is a panic. -/
def LockerCall.apply (interval now : ℤ) (l : LocalLocker) : LockerCall → Option (LocalLocker × Bool)
  | .lock args => some (l.lock now args)
  | .rlock args => l.rlock now args
  | .unlock args => some ((l.unlock args).1, (l.unlock args).2.toBool)
  | .runlock args => (l.runlock args).map fun r => (r.1, r.2.toBool)
  | .refresh args => l.refresh now args
  | .expireOldLocks order => some (l.expireOldLocks interval now order, true)

/-- A locker and the time of its last call. -/
structure LockerState where
  locker : LocalLocker
  clock : ℤ

/-- A call at a time: the clock does not go back. -/
def lockerStep (interval : ℤ) (s : LockerState) (c : ℤ × LockerCall) : Option LockerState :=
  if c.1 < s.clock then none
  else (c.2.apply interval c.1 s.locker).map fun r => ⟨r.1, c.1⟩

/-- A locker, and the time when a lock that is watched was granted or last refreshed. -/
structure Watched extends LockerState where
  refreshed : ℤ

/-- The call refreshes the lock: UID, owner and resources are those of the lock. -/
def LockArgs.refreshedBy (args : LockArgs) : LockerCall → Bool
  | .refresh args' =>
    args'.uid = args.uid && args'.owner = args.owner && args'.resources = args.resources
  | _ => false

/-- The call releases locks of the UID. -/
def LockArgs.releasedBy (args : LockArgs) : LockerCall → Bool
  | .unlock args' | .runlock args' => args'.uid = args.uid && args'.owner = args.owner
  | _ => false

/-- The call asks for a read lock on the same name under the same UID. -/
def LockArgs.rlockedBy (args : LockArgs) : LockerCall → Bool
  | .rlock args' =>
    args'.uid = args.uid && args'.owner = args.owner && args'.resources.head? = args.resources.head?
  | _ => false

section

variable (interval : ℤ) (args : LockArgs) (s : Watched) (c : ℤ × LockerCall)

/-- A call while the lock `args` is watched. -/
def watchStep :
    Option Watched :=
  if c.1 < s.clock then none
  else (c.2.apply interval c.1 s.locker).map fun r =>
    { locker := r.1
      clock := c.1
      refreshed := if args.refreshedBy c.2 && r.2 then c.1 else s.refreshed }

/-- The lock is held, and was granted or refreshed at most `interval` before the call. -/
def InTime : Prop :=
  c.1 - s.refreshed ≤ interval ∧ args.releasedBy c.2 = false

end

instance (interval : ℤ) (args : LockArgs) (s : Watched) (c : ℤ × LockerCall) :
    Decidable (InTime interval args s c) :=
  inferInstanceAs (Decidable (_ ∧ _))

/-! ### What expiry leaves -/

section Expire

variable {interval now t : ℤ} {l : LocalLocker} {name : String} {args : LockArgs}

/-- Every entry stands under its own name. -/
def Named (l : LocalLocker) : Prop := ∀ name, ∀ entry ∈ l.held name, entry.name = name

/-- The list has one entry of the caller, and it was refreshed at `t` or later. -/
def Sole (args : LockArgs) (t : ℤ) (lri : List LockRequesterInfo) : Prop :=
  ∃ entry, lri.filter args.owns = [entry] ∧ t ≤ entry.timeLastRefresh

lemma Sole.le {lri : List LockRequesterInfo} (h : Sole args t lri) {entry : LockRequesterInfo}
    (hentry : entry ∈ lri) (howns : args.owns entry) : t ≤ entry.timeLastRefresh := by
  obtain ⟨sole, hsole, hle⟩ := h
  have hmem : entry ∈ lri.filter args.owns := mem_filter.mpr ⟨hentry, howns⟩
  rw [hsole] at hmem
  rw [mem_singleton.mp hmem]
  exact hle

lemma Sole.exists_mem {lri : List LockRequesterInfo} (h : Sole args t lri) :
    ∃ entry ∈ lri, args.owns entry := by
  obtain ⟨sole, hsole, -⟩ := h
  have hmem : sole ∈ lri.filter args.owns := hsole ▸ mem_singleton_self sole
  exact ⟨sole, mem_filter.mp hmem⟩

/-- The state of the inner loop at `name`, from the locker `l`. -/
structure ExpireInv (l : LocalLocker) (name : String) (s : Expiring) : Prop where
  other : ∀ x, x ≠ name → s.locker.held x = l.held x
  self : s.locker.held name = s.lris ∨ s.locker.held name = []
  lris : ∀ entry ∈ s.lris, entry ∈ l.held name
  backing : ∀ entry ∈ s.backing, entry ∈ l.held name

/-- One entry that expires leaves the other names alone. -/
lemma expireInv_step (hnames : Named l) {s : Expiring} (h : ExpireInv l name s) (i : ℕ) :
    ExpireInv l name (expireEntry interval now s i) := by
  unfold expireEntry
  cases hlri : s.backing[i]? with
  | none => exact h
  | some lri =>
    dsimp only
    split
    case isFalse => exact h
    case isTrue =>
      have hname : lri.name = name := hnames name lri (h.backing lri (mem_of_getElem? hlri))
      rw [hname]
      have hback : ∀ lris : List LockRequesterInfo, (∀ e ∈ lris, e ∈ l.held name) →
          ∀ e ∈ lris ++ s.backing.drop lris.length, e ∈ l.held name := by
        intro lris hlris e he
        rcases mem_append.mp he with he | he
        · exact hlris e he
        · exact h.backing e (mem_of_mem_drop he)
      rcases s.locker.removeEntry_cases name lri.args s.lris with
        ⟨-, heq⟩ | ⟨-, heq⟩ | heq
      · rw [heq]
        exact ⟨h.other, h.self, h.lris, hback _ h.lris⟩
      · rw [heq]
        refine ⟨fun x hx => ?_, Or.inr ?_, h.lris, hback _ h.lris⟩
        · rw [held_delete, if_neg hx]
          exact h.other x hx
        · rw [held_delete, if_pos rfl]
      · have hsub : ∀ e ∈ s.lris.eraseP lri.args.owns, e ∈ l.held name :=
          fun e he => h.lris e (mem_of_mem_eraseP he)
        rw [heq]
        refine ⟨fun x hx => ?_, Or.inl ?_, hsub, hback _ hsub⟩
        · rw [held_set, if_neg hx]
          exact h.other x hx
        · rw [held_set, if_pos rfl]

lemma sole_expireEntry (hnames : Named l) (hsole : Sole args t (l.held name))
    (htime : now - t ≤ interval) {s : Expiring} (h : ExpireInv l name s)
    (hheld : s.locker.held name = s.lris) (hkept : Sole args t s.lris) (i : ℕ) :
    (expireEntry interval now s i).locker.held name = (expireEntry interval now s i).lris ∧
      Sole args t (expireEntry interval now s i).lris := by
  unfold expireEntry
  cases hlri : s.backing[i]? with
  | none => exact ⟨hheld, hkept⟩
  | some lri =>
    dsimp only
    split
    case isFalse => exact ⟨hheld, hkept⟩
    case isTrue hold =>
      have hmem := h.backing lri (mem_of_getElem? hlri)
      have hname : lri.name = name := hnames name lri hmem
      -- what has expired is not the caller's
      have hnot : args.owns lri = false := by
        refine Bool.eq_false_iff.mpr fun howns => ?_
        have hle := hsole.le hmem howns
        omega
      have hdisjoint : ∀ e, lri.args.owns e → args.owns e = false :=
        fun e he => @LockArgs.owns_eq_false args lri.args e hnot he
      rw [hname]
      rcases s.locker.removeEntry_cases name lri.args s.lris with
        ⟨-, heq⟩ | ⟨⟨e, hlris, howns⟩, heq⟩ | heq
      · rw [heq]
        exact ⟨hheld, hkept⟩
      · obtain ⟨e', he', howns'⟩ := hkept.exists_mem
        rw [hlris, mem_singleton] at he'
        rw [he', hdisjoint e howns] at howns'
        cases howns'
      · rw [heq]
        obtain ⟨e, he, hle⟩ := hkept
        exact ⟨by rw [held_set, if_pos rfl], e, by rw [filter_eraseP hdisjoint, he], hle⟩

lemma expireInv_expireName (interval now : ℤ) (hnames : Named l) (name : String) :
    ∃ s, expireName interval now l name = s.locker ∧ ExpireInv l name s ∧
      ∀ args t, now - t ≤ interval → Sole args t (l.held name) →
        Sole args t (s.locker.held name) := by
  unfold expireName
  cases hmap : l.lockMap name with
  | none =>
    refine ⟨⟨l, [], []⟩, rfl, ?_, fun _ _ _ h => h⟩
    refine ⟨fun _ _ => rfl, Or.inr (held_of_eq_none hmap), ?_, ?_⟩ <;>
      exact fun _ he => absurd he not_mem_nil
  | some lris =>
    have hheld := held_of_eq_some hmap
    have hstart : ExpireInv l name ⟨l, lris, lris⟩ :=
      ⟨fun _ _ => rfl, Or.inl hheld, fun e he => hheld ▸ he, fun e he => hheld ▸ he⟩
    refine ⟨_, rfl, foldlRecOn _ _ hstart fun s hs i _ => expireInv_step hnames hs i, ?_⟩
    intro args t htime hsole
    have hloop := foldlRecOn (motive := fun s => ExpireInv l name s ∧
        s.locker.held name = s.lris ∧ Sole args t s.lris) (List.range lris.length)
      _ ⟨hstart, hheld, hheld ▸ hsole⟩ fun s hs i _ =>
        ⟨expireInv_step hnames hs.1 i, sole_expireEntry hnames hsole htime hs.1 hs.2.1 hs.2.2 i⟩
    rw [hloop.2.1]
    exact hloop.2.2

lemma expireOldLocks_keeps (order : List String) (hnames : Named l) :
    Named (l.expireOldLocks interval now order) ∧
      ∀ args t x, now - t ≤ interval → Sole args t (l.held x) →
        Sole args t ((l.expireOldLocks interval now order).held x) := by
  refine foldlRecOn (motive := fun l' => Named l' ∧ ∀ args t x, now - t ≤ interval →
    Sole args t (l.held x) → Sole args t (l'.held x)) order _
    ⟨hnames, fun _ _ _ _ h => h⟩ ?_
  rintro l' ⟨hnames', hkeeps⟩ name -
  obtain ⟨s, heq, hinv, hsole⟩ := expireInv_expireName interval now hnames' name
  rw [heq]
  constructor
  · intro x entry hentry
    by_cases hx : x = name
    · subst hx
      rcases hinv.self with hself | hself
      · rw [hself] at hentry
        exact hnames' x entry (hinv.lris entry hentry)
      · rw [hself] at hentry
        cases hentry
    · rw [hinv.other x hx] at hentry
      exact hnames' x entry hentry
  · intro args t x htime h
    by_cases hx : x = name
    · subst hx
      exact hsole args t htime (hkeeps args t x htime h)
    · rw [hinv.other x hx]
      exact hkeeps args t x htime h

end Expire

/-! ### What the other calls leave -/

section Calls

variable {interval now t : ℤ} {l l' : LocalLocker} {name : String} {args args' : LockArgs}

variable {lri : List LockRequesterInfo}

lemma Sole.eraseP (h : Sole args t lri)
    (hother : (args'.uid = args.uid && args'.owner = args.owner) = false) :
    Sole args t (lri.eraseP args'.owns) := by
  obtain ⟨entry, hentry, hle⟩ := h
  refine ⟨entry, ?_, hle⟩
  rw [filter_eraseP fun e he => owns_eq_false hother he, hentry]

lemma filter_touch_other (hother : (args'.uid = args.uid && args'.owner = args.owner) = false)
    (lri : List LockRequesterInfo) :
    (touch args' now lri).filter args.owns = lri.filter args.owns := by
  induction lri with
  | nil => rfl
  | cons entry rest ih =>
    rw [touch]
    by_cases howns : args'.owns entry
    · have hnot : args.owns entry = false := owns_eq_false hother howns
      have hnot' : args.owns { entry with timeLastRefresh := now } = false := hnot
      rw [if_pos howns, filter_cons_of_neg (Bool.eq_false_iff.mp hnot'),
        filter_cons_of_neg (Bool.eq_false_iff.mp hnot)]
    · rw [if_neg howns, filter_cons, filter_cons, ih]

lemma filter_touch_self (hself : (args'.uid = args.uid && args'.owner = args.owner))
    (lri : List LockRequesterInfo) :
    (touch args' now lri).filter args.owns = touch args' now (lri.filter args.owns) := by
  have howns : args'.owns = args.owns := by
    funext entry
    rw [Bool.and_eq_true, decide_eq_true_eq, decide_eq_true_eq] at hself
    rw [owns, owns, hself.1, hself.2]
  induction lri with
  | nil => rfl
  | cons entry rest ih =>
    rw [touch, howns, filter_cons]
    by_cases hentry : args.owns entry
    · have hentry' : args.owns { entry with timeLastRefresh := now } := hentry
      rw [if_pos hentry, if_pos hentry, filter_cons, if_pos hentry', touch, howns, if_pos hentry]
    · rw [if_neg hentry, if_neg hentry, filter_cons, if_neg hentry, ih]

lemma Sole.touch_self (h : Sole args t lri)
    (hself : (args'.uid = args.uid && args'.owner = args.owner)) :
    Sole args now (touch args' now lri) := by
  obtain ⟨entry, hentry, -⟩ := h
  have howns : args'.owns entry := by
    have hmem : entry ∈ lri.filter args.owns := hentry ▸ mem_singleton_self entry
    have hmine := (mem_filter.mp hmem).2
    rw [Bool.and_eq_true, decide_eq_true_eq, decide_eq_true_eq] at hself
    rw [owns, hself.1, hself.2]
    exact hmine
  refine ⟨{ entry with timeLastRefresh := now }, ?_, le_refl now⟩
  rw [filter_touch_self hself, hentry, touch, if_pos howns]

lemma Sole.touch (h : Sole args t lri) (hnow : t ≤ now)
    (args' : LockArgs) : Sole args t (touch args' now lri) := by
  cases hself : (args'.uid = args.uid && args'.owner = args.owner : Bool) with
  | true =>
    obtain ⟨entry, hentry, hle⟩ := h.touch_self hself
    exact ⟨entry, hentry, hnow.trans hle⟩
  | false =>
    obtain ⟨entry, hentry, hle⟩ := h
    exact ⟨entry, by rw [filter_touch_other hself, hentry], hle⟩

lemma name_of_mem_touch (h : ∀ entry ∈ lri, entry.name = name) :
    ∀ entry ∈ touch args now lri, entry.name = name := by
  induction lri with
  | nil => exact fun _ he => absurd he not_mem_nil
  | cons first rest ih =>
    have hfirst := h first mem_cons_self
    have hrest := fun e he => h e (mem_cons_of_mem first he)
    rw [touch]
    intro entry hentry
    split at hentry
    · rcases mem_cons.mp hentry with rfl | hentry
      · exact hfirst
      · exact hrest entry hentry
    · rcases mem_cons.mp hentry with rfl | hentry
      · exact hfirst
      · exact ih hrest entry hentry

/-- What a call other than `expireOldLocks` makes of the holders of a name. -/
inductive Effect (now : ℤ) (name : String) (lri : List LockRequesterInfo) :
    LockerCall → Bool → List LockRequesterInfo → Prop
  | same {c reply} (h : ∀ args, c = .refresh args → args.resources.head? ≠ some name) :
      Effect now name lri c reply lri
  | lock {args reply} (h : lri = []) :
      Effect now name lri (.lock args) reply [args.writeEntry now name]
  | rlock {args reply} (h : args.resources.head? = some name) :
      Effect now name lri (.rlock args) reply (lri ++ [args.readEntry now name])
  | unlock {args reply} : Effect now name lri (.unlock args) reply (lri.eraseP args.owns)
  | runlock {args reply} : Effect now name lri (.runlock args) reply (lri.eraseP args.owns)
  | refresh {args reply} :
      Effect now name lri (.refresh args) reply (LocalLocker.touch args now lri)

variable {c : LockerCall} {reply : Bool}

lemma effect_of_apply (h : c.apply interval now l = some (l', reply)) (name : String) :
    (∃ order, c = .expireOldLocks order ∧ l' = l.expireOldLocks interval now order) ∨
      Effect now name (l.held name) c reply (l'.held name) := by
  cases c with
  | lock args =>
    right
    have hlock : l.lock now args = (l', reply) := Option.some.inj h
    obtain ⟨rfl, rfl⟩ : (l.lock now args).1 = l' ∧ (l.lock now args).2 = reply := by
      rw [hlock]
      exact ⟨rfl, rfl⟩
    cases hreply : (l.lock now args).2 with
    | false =>
      rw [lock_refused hreply]
      exact .same fun _ hc => by cases hc
    | true =>
      obtain ⟨hfree, hheld⟩ := held_lock hreply
      rw [hheld name]
      split
      case isTrue hname => exact .lock (hfree name hname)
      case isFalse => exact .same fun _ hc => by cases hc
  | rlock args =>
    right
    obtain ⟨resource, hres, -, hheld⟩ := held_rlock h
    rw [hheld name]
    split
    case isTrue hname => exact .rlock (hname.1 ▸ hres)
    case isFalse => exact .same fun _ hc => by cases hc
  | unlock args =>
    right
    obtain ⟨hl', -⟩ := Prod.mk.inj (Option.some.inj h)
    rw [← hl', held_unlock]
    split
    · exact .unlock
    · exact .same fun _ hc => by cases hc
  | runlock args =>
    right
    obtain ⟨⟨l₁, reply₁⟩, hrunlock, heq⟩ := map_eq_some_iff.mp h
    cases heq
    obtain ⟨resource, -, hheld⟩ := held_runlock hrunlock
    rw [hheld name]
    split
    · exact .runlock
    · exact .same fun _ hc => by cases hc
  | refresh args =>
    right
    obtain ⟨resource, hres, -, hheld⟩ := held_refresh h
    rw [hheld name]
    split
    case isTrue => exact .refresh
    case isFalse hname =>
      refine .same fun args' hc hhead => ?_
      cases hc
      rw [hres] at hhead
      exact hname (Option.some.inj hhead).symm
  | expireOldLocks order =>
    left
    obtain ⟨hl', -⟩ := Prod.mk.inj (Option.some.inj h)
    exact ⟨order, rfl, hl'.symm⟩

lemma LockerCall.named (hnames : Named l)
    (h : c.apply interval now l = some (l', reply)) : Named l' := by
  intro name entry hentry
  rcases effect_of_apply h name with ⟨order, -, rfl⟩ | heffect
  · exact (expireOldLocks_keeps order hnames).1 name entry hentry
  · have hold := hnames name
    generalize l'.held name = lri' at heffect hentry
    cases heffect with
    | same => exact hold entry hentry
    | lock =>
      rw [mem_singleton.mp hentry]
      rfl
    | rlock =>
      rcases mem_append.mp hentry with hentry | hentry
      · exact hold entry hentry
      · rw [mem_singleton.mp hentry]
        rfl
    | unlock => exact hold entry (mem_of_mem_eraseP hentry)
    | runlock => exact hold entry (mem_of_mem_eraseP hentry)
    | refresh => exact name_of_mem_touch hold entry hentry

lemma LockerCall.sole (hnames : Named l)
    (h : c.apply interval now l = some (l', reply)) (hsole : Sole args t (l.held name))
    (hname : args.resources.head? = some name) (htime : now - t ≤ interval) (hnow : t ≤ now)
    (hreleased : args.releasedBy c = false) (hrlocked : args.rlockedBy c = false) :
    Sole args t (l'.held name) ∧ (args.refreshedBy c → Sole args now (l'.held name)) := by
  rcases effect_of_apply h name with ⟨order, rfl, rfl⟩ | heffect
  · refine ⟨(expireOldLocks_keeps order hnames).2 args t name htime hsole, fun hc => ?_⟩
    cases hc
  · generalize l'.held name = lri' at heffect
    cases heffect with
    | same hc =>
      refine ⟨hsole, fun hrefreshed => ?_⟩
      cases c with
      | refresh args' =>
        have hresources : args'.resources = args.resources :=
          of_decide_eq_true (Bool.and_eq_true_iff.mp hrefreshed).2
        exact absurd (hresources ▸ hname) (hc args' rfl)
      | lock | rlock | unlock | runlock | expireOldLocks => cases hrefreshed
    | lock hfree =>
      obtain ⟨entry, hentry, -⟩ := hsole.exists_mem
      rw [hfree] at hentry
      cases hentry
    | @rlock args' _ hname' =>
      refine ⟨?_, fun hc => by cases hc⟩
      have hother : args.owns (args'.readEntry now name) = false := by
        rw [rlockedBy, hname, hname', decide_eq_true rfl, Bool.and_true] at hrlocked
        exact hrlocked
      obtain ⟨entry, hentry, hle⟩ := hsole
      refine ⟨entry, ?_, hle⟩
      rw [filter_append, hentry, filter_cons_of_neg (Bool.eq_false_iff.mp hother),
        filter_nil, append_nil]
    | unlock => exact ⟨hsole.eraseP hreleased, fun hc => by cases hc⟩
    | runlock => exact ⟨hsole.eraseP hreleased, fun hc => by cases hc⟩
    | refresh =>
      refine ⟨hsole.touch hnow _, fun hrefreshed => hsole.touch_self ?_⟩
      exact (Bool.and_eq_true_iff.mp hrefreshed).1

end Calls

/-! ### Runs -/

section Runs

variable {interval : ℤ} {args : LockArgs} {name : String}

lemma named_new : Named new := fun _ _ hentry => absurd hentry not_mem_nil

lemma named_of_run {start : ℤ} {calls : List (ℤ × LockerCall)} {s : LockerState}
    (h : run (lockerStep interval) ⟨.new, start⟩ calls = some s) : Named s.locker := by
  refine run_invariant (J := fun s => Named s.locker) (fun s c s' hs hstep => ?_) named_new h
  obtain ⟨-, hstep⟩ := ite_none_left_eq_some.mp hstep
  obtain ⟨result, happly, rfl⟩ := map_eq_some_iff.mp hstep
  exact LockerCall.named hs happly

/-- The lock that is watched has its one entry, refreshed when it was last refreshed. -/
structure Kept (args : LockArgs) (name : String) (s : Watched) : Prop where
  named : Named s.locker
  sole : Sole args s.refreshed (s.locker.held name)
  past : s.refreshed ≤ s.clock

/-- A call keeps the lock if it is refreshed in time. -/
lemma kept_step (hname : args.resources.head? = some name) {s s' : Watched}
    {c : ℤ × LockerCall} (hs : Kept args name s) (htime : InTime interval args s c)
    (hrlocked : args.rlockedBy c.2 = false) (h : watchStep interval args s c = some s') :
    Kept args name s' := by
  obtain ⟨hclock, h⟩ := ite_none_left_eq_some.mp h
  obtain ⟨⟨l', reply⟩, happly, rfl⟩ := map_eq_some_iff.mp h
  have hnow : s.refreshed ≤ c.1 := hs.past.trans (not_lt.mp hclock)
  obtain ⟨hsole, hrefresh⟩ :=
    LockerCall.sole hs.named happly hs.sole hname htime.1 hnow htime.2 hrlocked
  refine ⟨LockerCall.named hs.named happly, ?_, ?_⟩
  · split
    case isTrue hc => exact hrefresh (Bool.and_eq_true_iff.mp hc).1
    case isFalse => exact hsole
  · split
    · exact le_refl c.1
    · exact hnow

lemma kept_granted {l l' : LocalLocker} {now : ℤ} (hnames : Named l) {c : LockerCall}
    (hc : c = .lock args ∨ c = .rlock args) (hname : args.resources.head? = some name)
    (hnone : ∀ entry ∈ l.held name, args.owns entry = false)
    (h : c.apply interval now l = some (l', true)) : Kept args name ⟨⟨l', now⟩, now⟩ := by
  refine ⟨LockerCall.named hnames h, ?_, le_refl now⟩
  rcases hc with rfl | rfl
  · have hlock : l.lock now args = (l', true) := Option.some.inj h
    obtain ⟨-, hheld⟩ := held_lock (congrArg Prod.snd hlock)
    rw [hlock] at hheld
    refine ⟨args.writeEntry now name, ?_, le_refl now⟩
    rw [show l'.held name = _ from hheld name, if_pos (mem_of_mem_head? hname)]
    exact filter_cons_of_pos (by simp [owns, writeEntry])
  · obtain ⟨resource, hres, -, hheld⟩ := held_rlock h
    rw [hname] at hres
    refine ⟨args.readEntry now name, ?_, le_refl now⟩
    rw [show l'.held name = _ from hheld name, if_pos ⟨Option.some.inj hres, rfl⟩,
      filter_append, filter_eq_nil_iff.mpr fun e he => Bool.eq_false_iff.mp (hnone e he)]
    exact filter_cons_of_pos (by simp [owns, readEntry])

/-- A lock on one name that is refreshed in time, and that is the only lock of its UID on that name,
keeps its entry until it is released, and no write lock is granted on its name meanwhile. -/
theorem refreshed_lock_kept (interval start : ℤ) (before : List (ℤ × LockerCall))
    (s₀ : LockerState) (hbefore : run (lockerStep interval) ⟨.new, start⟩ before = some s₀)
    (args : LockArgs) (call : LockerCall) (hcall : call = .lock args ∨ call = .rlock args)
    (now : ℤ) (l : LocalLocker) (hgrant : call.apply interval now s₀.locker = some (l, true))
    (hone : ∀ resource ∈ args.resources, args.resources.head? = some resource)
    (hnone : ∀ resource ∈ args.resources, ∀ entry ∈ s₀.locker.held resource,
      args.owns entry = false)
    (calls : List (ℤ × LockerCall)) (s : Watched)
    (hrun : run (watchStep interval args) ⟨⟨l, now⟩, now⟩ calls = some s)
    (hkept : Along (watchStep interval args)
      (fun s c => InTime interval args s c ∧ args.rlockedBy c.2 = false) ⟨⟨l, now⟩, now⟩ calls) :
    (∀ resource ∈ args.resources, ∃ entry ∈ s.locker.held resource, args.owns entry = true) ∧
      ∀ later other, (∃ resource ∈ args.resources, resource ∈ other.resources) →
        (s.locker.lock later other).2 = false := by
  have hentry : ∀ resource ∈ args.resources,
      ∃ entry ∈ s.locker.held resource, args.owns entry = true := by
    intro resource hres
    have hname := hone resource hres
    have hstart := kept_granted (named_of_run hbefore) hcall hname (hnone resource hres) hgrant
    have hend : Kept args resource s :=
      run_invariant_along (fun s c s' hs hc hstep => kept_step hname hs hc.1 hc.2 hstep) hstart
        hkept hrun
    exact hend.sole.exists_mem
  refine ⟨hentry, ?_⟩
  rintro later other ⟨resource, hres, hother⟩
  obtain ⟨entry, hmem, -⟩ := hentry resource hres
  exact lock_eq_false hother (ne_nil_of_mem hmem)

end Runs

/-! ### Locks that expire while they are refreshed -/

/-- A lock of one holder. -/
def lockOf (uid : String) (resources : List String) : LockArgs :=
  { uid := uid, resources := resources }

/-- The lock is refreshed at 10 and at 20, and locks that were not refreshed for 20 are removed at
25 and at 26. -/
def refreshes (args : LockArgs) : List (ℤ × LockerCall) :=
  [(10, .refresh args), (20, .refresh args), (25, .expireOldLocks args.resources),
    (26, .expireOldLocks args.resources)]

/-- The locker on which a lock was just granted at time 0. -/
def grantedAtZero (r : LocalLocker × Bool) : Watched := ⟨⟨r.1, 0⟩, 0⟩

/-- A write lock on one name is kept. -/
theorem refreshed_lock_kept_one_name : ∃ s, run (watchStep 20 (lockOf "u" ["a"]))
        (grantedAtZero (LocalLocker.new.lock 0 (lockOf "u" ["a"])))
        (refreshes (lockOf "u" ["a"])) = some s ∧
      (s.locker.lock 27 (lockOf "v" ["a"])).2 = false := by
  have hrun : (run (watchStep 20 (lockOf "u" ["a"]))
      (grantedAtZero (new.lock 0 (lockOf "u" ["a"])))
      (refreshes (lockOf "u" ["a"]))).isSome = true := by decide +kernel
  obtain ⟨s, hs⟩ := isSome_iff_exists.mp hrun
  refine ⟨s, hs, ?_⟩
  have hkept := refreshed_lock_kept 20 0 [] ⟨.new, 0⟩ rfl (lockOf "u" ["a"])
    (.lock (lockOf "u" ["a"])) (Or.inl rfl) 0 _ rfl (by decide)
    (fun _ _ entry hentry => absurd hentry not_mem_nil) (refreshes (lockOf "u" ["a"])) s hs
    (by decide +kernel)
  exact hkept.2 27 (lockOf "v" ["a"]) ⟨"a", mem_cons_self, mem_cons_self⟩

/-- A read lock that is granted twice to one UID. -/
def readTwice : Option (LocalLocker × Bool) :=
  (LocalLocker.new.rlock 0 (lockOf "u" ["a"])).bind fun r => r.1.rlock 0 (lockOf "u" ["a"])

/-- A write lock on two names, and a read lock that was granted twice to its UID, are refreshed in
time: the second name, and the name of the read lock, lose the entry, and another writer is
granted them. -/
theorem refreshed_lock_expires : (∃ s, run (watchStep 20 (lockOf "u" ["a", "b"]))
        (grantedAtZero (LocalLocker.new.lock 0 (lockOf "u" ["a", "b"])))
        (refreshes (lockOf "u" ["a", "b"])) = some s ∧
      Along (watchStep 20 (lockOf "u" ["a", "b"])) (InTime 20 (lockOf "u" ["a", "b"]))
        (grantedAtZero (LocalLocker.new.lock 0 (lockOf "u" ["a", "b"])))
        (refreshes (lockOf "u" ["a", "b"])) ∧
      s.locker.held "b" = [] ∧ (s.locker.lock 27 (lockOf "v" ["b"])).2 = true) ∧
    (∃ r, readTwice = some r ∧ r.2 = true ∧
      ∃ s, run (watchStep 20 (lockOf "u" ["a"])) (grantedAtZero r) (refreshes (lockOf "u" ["a"])) =
          some s ∧
        Along (watchStep 20 (lockOf "u" ["a"])) (InTime 20 (lockOf "u" ["a"])) (grantedAtZero r)
          (refreshes (lockOf "u" ["a"])) ∧
        s.locker.held "a" = [] ∧ (s.locker.lock 27 (lockOf "v" ["a"])).2 = true) := by
  constructor
  · have hrun : (run (watchStep 20 (lockOf "u" ["a", "b"]))
        (grantedAtZero (new.lock 0 (lockOf "u" ["a", "b"])))
        (refreshes (lockOf "u" ["a", "b"]))).map
          (fun s => (s.locker.held "b", (s.locker.lock 27 (lockOf "v" ["b"])).2)) =
        some ([], true) := by decide +kernel
    obtain ⟨s, hs, hview⟩ := map_eq_some_iff.mp hrun
    obtain ⟨hheld, hlock⟩ := Prod.mk.inj hview
    exact ⟨s, hs, by decide +kernel, hheld, hlock⟩
  · have hrun : readTwice.map (fun r => (r.2,
        decide (Along (watchStep 20 (lockOf "u" ["a"])) (InTime 20 (lockOf "u" ["a"]))
          (grantedAtZero r) (refreshes (lockOf "u" ["a"]))),
        (run (watchStep 20 (lockOf "u" ["a"])) (grantedAtZero r) (refreshes (lockOf "u" ["a"]))).map
          fun s => (s.locker.held "a", (s.locker.lock 27 (lockOf "v" ["a"])).2))) =
        some (true, true, some ([], true)) := by decide +kernel
    obtain ⟨r, hr, hview⟩ := map_eq_some_iff.mp hrun
    obtain ⟨hreply, hview⟩ := Prod.mk.inj hview
    obtain ⟨hintime, hview⟩ := Prod.mk.inj hview
    obtain ⟨s, hs, hview⟩ := map_eq_some_iff.mp hview
    obtain ⟨hheld, hlock⟩ := Prod.mk.inj hview
    exact ⟨r, hr, hreply, s, hs, of_decide_eq_true hintime, hheld, hlock⟩

end Obstor.Dsync
