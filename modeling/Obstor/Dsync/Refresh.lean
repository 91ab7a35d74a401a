import Obstor.Dsync.LocalLocker

/-!
# Refreshing a distributed lock

The quorums of `lockBlocking` and the function `refresh` (`pkg/dsync/drwmutex.go`), which asks all
lockers whether they still have the lock and decides whether it was lost.

`refresh_sound_iff`: the answer that a lock is kept is right except for a write lock with an even
number of lockers of which half are free. `of_refreshLoop` says what the loop has seen when it
returns.
-/

namespace Obstor.Dsync

open List

/-! ### Quorums -/

/-- The quorum of `lockBlocking`: half of the lockers, rounded up, and one more for a write lock
when that is exactly half. -/
def lockQuorum (n : ℕ) (isReadLock : Bool) : ℕ :=
  let tolerance := n / 2
  let quorum := n - tolerance
  if !isReadLock && quorum = tolerance then quorum + 1 else quorum

lemma lockQuorum_read (n : ℕ) : lockQuorum n true = n - n / 2 := rfl

lemma lockQuorum_write (n : ℕ) : lockQuorum n false = n / 2 + 1 := by
  unfold lockQuorum
  by_cases h : n - n / 2 = n / 2
  · simp [h]
  · simp only [Bool.not_false, Bool.true_and, h, decide_false, Bool.false_eq_true, if_false]
    omega

/-! ### The function -/

structure RefreshResult where
  offline : Bool := false
  succeeded : Bool := false
  deriving DecidableEq

/-- The loop over the answers, in the order of their arrival, with the counts of those that failed
and those that succeeded; `none` in the list is `ctx.Done()`, and so is the result `none`. -/
def refreshLoop (quorum : ℕ) : ℕ → ℕ → List (Option RefreshResult) → Option (ℕ × ℕ)
  | refreshFailed, refreshSucceeded, [] => some (refreshFailed, refreshSucceeded)
  | _, _, none :: _ => none
  | refreshFailed, refreshSucceeded, some result :: rest =>
    if result.offline then refreshLoop quorum refreshFailed refreshSucceeded rest
    else if result.succeeded then refreshLoop quorum refreshFailed (refreshSucceeded + 1) rest
    else if refreshFailed + 1 > quorum then some (refreshFailed + 1, refreshSucceeded)
    else refreshLoop quorum (refreshFailed + 1) refreshSucceeded rest

/-- `refresh` on the answers as they arrive; `none` is the error of a context that was cancelled. -/
def refresh (quorum : ℕ) (arrivals : List (Option RefreshResult)) : Option Bool :=
  (refreshLoop quorum 0 0 arrivals).map fun (refreshFailed, refreshSucceeded) =>
    refreshSucceeded ≥ quorum || refreshFailed < quorum

/-- The answer of a locker that is online. The clock of the server plays no part in it. -/
def refreshAnswer (now : ℤ) (args : LockArgs) (locker : LocalLocker) : RefreshResult where
  succeeded := ((locker.refresh now args).map Prod.snd).getD false

/-- The answers arrive in some order, unless the context is cancelled before the last of them. -/
def Arrive (answers : List RefreshResult) (arrivals : List (Option RefreshResult)) : Prop :=
  ∃ order : List RefreshResult, order.Perm answers ∧
    (arrivals = order.map some ∨ ∃ k, arrivals = (order.take k).map some ++ [none])

/-- The locker has no entry of the UID on any of the names. -/
def LocalLocker.free (locker : LocalLocker) (args : LockArgs) : Bool :=
  args.resources.all fun resource => (locker.held resource).all fun entry => entry.uid ≠ args.uid

/-! ### What a positive answer says -/

lemma of_refreshLoop {quorum failed succeeded : ℕ} {order : List RefreshResult}
    (honline : ∀ result ∈ order, result.offline = false) {cancelled : List (Option RefreshResult)}
    (hcancelled : cancelled = [] ∨ cancelled = [none]) {f s : ℕ}
    (h : refreshLoop quorum failed succeeded (order.map some ++ cancelled) = some (f, s))
    (hdecide : s ≥ quorum ∨ f < quorum) :
    quorum ≤ succeeded + order.countP RefreshResult.succeeded ∨
      cancelled = [] ∧ failed + order.countP (fun result => !result.succeeded) < quorum := by
  induction order generalizing failed succeeded with
  | nil =>
    rcases hcancelled with rfl | rfl
    · cases h
      exact hdecide.imp id fun hlt => ⟨rfl, hlt⟩
    · cases h
  | cons result rest ih =>
    have hrest := fun r hr => honline r (mem_cons_of_mem result hr)
    rw [map_cons, cons_append, refreshLoop, honline result mem_cons_self,
      if_neg Bool.false_ne_true] at h
    cases hsucceeded : result.succeeded with
    | true =>
      rw [hsucceeded] at h
      rw [countP_cons_of_pos hsucceeded, countP_cons_of_neg (by simp [hsucceeded])]
      refine (ih hrest h).imp (fun hle => ?_) id
      omega
    | false =>
      rw [hsucceeded, if_neg Bool.false_ne_true] at h
      rw [countP_cons_of_neg (by simp [hsucceeded]), countP_cons_of_pos (by simp [hsucceeded])]
      split at h
      · -- too many failures: the decision rests on the successes
        cases h
        left
        omega
      · refine (ih hrest h).imp id fun hlt => ⟨hlt.1, ?_⟩
        omega

lemma of_refresh {quorum : ℕ} {answers : List RefreshResult}
    {arrivals : List (Option RefreshResult)} (honline : ∀ result ∈ answers, result.offline = false)
    (harrive : Arrive answers arrivals) (h : refresh quorum arrivals = some true) :
    quorum ≤ answers.countP RefreshResult.succeeded ∨
      answers.countP (fun result => !result.succeeded) < quorum := by
  obtain ⟨order, hperm, harrivals⟩ := harrive
  obtain ⟨⟨f, s⟩, hloop, hdecide⟩ := Option.map_eq_some_iff.mp h
  have hdecide : s ≥ quorum ∨ f < quorum := by simpa using hdecide
  have honline' : ∀ result ∈ order, result.offline = false :=
    fun result hr => honline result (hperm.mem_iff.mp hr)
  rcases harrivals with rfl | ⟨k, rfl⟩
  · rw [← append_nil (order.map some)] at hloop
    rcases of_refreshLoop honline' (Or.inl rfl) hloop hdecide with hle | ⟨-, hlt⟩
    · left
      rw [zero_add, hperm.countP_eq] at hle
      exact hle
    · right
      rw [zero_add, hperm.countP_eq] at hlt
      exact hlt
  · have htake : ∀ result ∈ order.take k, result.offline = false :=
      fun result hr => honline' result (mem_of_mem_take hr)
    rcases of_refreshLoop htake (Or.inr rfl) hloop hdecide with hle | ⟨hnil, -⟩
    · left
      rw [zero_add] at hle
      rw [← hperm.countP_eq]
      exact Nat.le_trans hle (take_sublist k order).countP_le
    · cases hnil

lemma refreshAnswer_of_free {now : ℤ} {args : LockArgs} {locker : LocalLocker}
    (hfree : locker.free args) : (refreshAnswer now args locker).succeeded = false := by
  unfold refreshAnswer
  cases hrefresh : locker.refresh now args with
  | none => rfl
  | some result =>
    obtain ⟨resource, hres, hreply, -⟩ := LocalLocker.held_refresh hrefresh
    rw [Option.map_some, hreply]
    refine any_eq_false.mpr fun entry hentry howns => ?_
    have hall := all_eq_true.mp hfree resource (mem_of_mem_head? hres)
    have huid := all_eq_true.mp hall entry hentry
    simp only [LockArgs.owns, Bool.and_eq_true, decide_eq_true_eq] at howns huid
    exact huid howns.1

/-- For every number of lockers: when `refresh` of a held lock answers that it is kept, fewer than a
write quorum of the lockers are free of its UID, and for a write lock fewer than a read quorum,
exactly when the lock is a read lock, or the number of lockers is odd, or the free ones are not
exactly half of them. -/
theorem refresh_sound_iff (lockers : List LocalLocker) (now : ℤ) (args : LockArgs)
    (isReadLock : Bool) (arrivals : List (Option RefreshResult))
    (harrive : Arrive (lockers.map (refreshAnswer now args)) arrivals)
    (h : refresh (lockQuorum lockers.length isReadLock) arrivals = some true) :
    (lockers.countP (·.free args) < lockQuorum lockers.length false ∧
      (isReadLock = false → lockers.countP (·.free args) < lockQuorum lockers.length true)) ↔
    isReadLock = true ∨ ¬Even lockers.length ∨
      lockers.countP (·.free args) ≠ lockers.length / 2 := by
  have honline : ∀ result ∈ lockers.map (refreshAnswer now args), result.offline = false := by
    intro result hr
    obtain ⟨locker, -, rfl⟩ := mem_map.mp hr
    rfl
  have hquorum := of_refresh honline harrive h
  rw [countP_map, countP_map] at hquorum
  have hfree : lockers.countP (·.free args) ≤
      lockers.countP ((fun result => !result.succeeded) ∘ refreshAnswer now args) := by
    refine countP_mono_left fun locker _ hlocker => ?_
    rw [Function.comp_apply, refreshAnswer_of_free hlocker, Bool.not_false]
  have htotal := length_eq_countP_add_countP
    (RefreshResult.succeeded ∘ refreshAnswer now args) (l := lockers)
  have hnot : lockers.countP (fun a => ¬(RefreshResult.succeeded ∘ refreshAnswer now args) a = true)
      = lockers.countP ((fun result => !result.succeeded) ∘ refreshAnswer now args) := by
    refine countP_congr fun locker _ => ?_
    simp
  rw [lockQuorum_read, lockQuorum_write, Nat.even_iff]
  cases isReadLock with
  | true =>
    rw [lockQuorum_read] at hquorum
    simp only [true_or, iff_true]
    refine ⟨by omega, fun h => by cases h⟩
  | false =>
    rw [lockQuorum_write] at hquorum
    simp only [Bool.false_eq_true, false_or, true_implies]
    omega

/-- A write lock on one name. -/
def bucketLock : LockArgs := { uid := "u", resources := ["bucket/object"] }

/-- Servers that have the lock, and servers that have lost it. -/
def holdersAndFree (holders free : ℕ) : List LocalLocker :=
  replicate holders (LocalLocker.new.lock 0 bucketLock).1 ++ replicate free LocalLocker.new

/-- Two of three lockers have the lock. -/
theorem refresh_sound_iff_two_of_three :
    refresh (lockQuorum 3 false) ((holdersAndFree 2 1).map (some ∘ refreshAnswer 1 bucketLock)) =
        some true ∧
      (holdersAndFree 2 1).countP (·.free bucketLock) < lockQuorum 3 false ∧
      (holdersAndFree 2 1).countP (·.free bucketLock) < lockQuorum 3 true := by
  have h : refresh (lockQuorum (holdersAndFree 2 1).length false)
      (((holdersAndFree 2 1).map (refreshAnswer 1 bucketLock)).map some) = some true := by
    decide +kernel
  have hiff := refresh_sound_iff _ 1 bucketLock false _
    ⟨_, List.Perm.refl _, Or.inl rfl⟩ h
  obtain ⟨hwrite, hread⟩ := hiff.mpr (Or.inr (Or.inl (by decide)))
  exact ⟨by decide +kernel, hwrite, hread rfl⟩

/-- One of two lockers has lost a write lock: `refresh` answers that it is kept, and the free locker
is a read quorum. -/
theorem refresh_half_lost :
    refresh (lockQuorum 2 false) ((holdersAndFree 1 1).map (some ∘ refreshAnswer 1 bucketLock)) =
        some true ∧
      (holdersAndFree 1 1).countP (·.free bucketLock) = lockQuorum 2 true := by
  decide +kernel

end Obstor.Dsync
