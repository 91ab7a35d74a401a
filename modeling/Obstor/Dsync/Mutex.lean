import Obstor.Dsync.Refresh
import Obstor.Lib.Runs
import Obstor.Lib.Tally

/-!
# The distributed mutex and its clients

`DRWMutex` (`pkg/dsync/drwmutex.go`): `lockBlocking` with its rounds of `lock`, `releaseAll` and
`Unlock`, for any number of clients of `n` lockers. The steps of different clients, and of the
goroutines of one client, come in any order (`MutexEvent`).

A call to a locker takes effect at some moment between its start and its return, at most once; it
may fail before that, and its answer may be lost. The goroutines of an old round live on: a call may
still take effect, and a grant that comes late is released by a call of its own.

`unlock_releases_iff`, at the end, is about `Unlock` alone: its loop ends with every mark released
exactly when each name is still a write lock on each marked locker. The runs of the system are the
subject of `Dsync.MutualExclusion`.
-/

namespace Obstor.Dsync

open Lib LocalLocker

/-! ### Clients -/

/-- One goroutine of `lock`: the call to a locker, and what becomes of its grant. -/
inductive AcquireCall
  /-- The call was sent. -/
  | sent
  /-- It took effect on the locker, and the reply is under way. -/
  | effected (locked : Bool)
  /-- It returned, and its `Granted` is in the channel. -/
  | answered (locked : Bool)
  /-- The loop of `lock` took the `Granted` from the channel. -/
  | received
  /-- The grant came late, and its release was sent. -/
  | releasing
  /-- The release took effect. -/
  | releaseEffected
  /-- The release returned. -/
  | released
  deriving DecidableEq

/-- The calls of one round of `lock`. -/
structure Round (n : ℕ) where
  isReadLock : Bool
  calls : Fin n → AcquireCall

inductive ReleaseCall
  | sent
  /-- The call took effect, and the reply, an error or not, is under way. -/
  | effected (ok : Bool)
  | returned
  deriving DecidableEq

/-- Where the client stands. `locks` are the lockers whose entry of the slice is the UID. -/
inductive Phase (n : ℕ)
  | idle
  /-- The loop of `lock` over the channel. -/
  | collecting (isReadLock : Bool) (i locksFailed : ℕ) (locks : Fin n → Bool)
  /-- `releaseAll` in `lock`, after a round without quorum. -/
  | abandoning (isReadLock : Bool) (locks : Fin n → Bool) (releases : Fin n → ReleaseCall)
  /-- `lockBlocking` returned true, and `Unlock` was not called yet. -/
  | holding (isReadLock : Bool) (locks : Fin n → Bool)
  /-- `releaseAll` in `Unlock` or `RUnlock`. -/
  | unlocking (isReadLock : Bool) (locks : Fin n → Bool) (releases : Fin n → ReleaseCall)

/-- A client: its phase, the rounds it has started, and whether it has called `Unlock` since it last
began to acquire. -/
structure Client (n : ℕ) where
  phase : Phase n := .idle
  rounds : List (Round n) := []
  unlocked : Bool := false

/-- The UID and owner of a client, and the names it locks. -/
structure ClientInfo where
  uid : String
  owner : String := ""
  names : List String

def ClientInfo.args (info : ClientInfo) (quorum : ℕ) : LockArgs :=
  { uid := info.uid, owner := info.owner, resources := info.names, quorum := quorum }

/-! ### The functions of the mutex -/

section Functions

variable {n : ℕ}

/-- `isLocked`: a grant is known by its UID. -/
def isLocked (uid : String) : Bool := uid.length > 0

def checkQuorumLocked (locks : Fin n → Bool) (quorum : ℕ) : Bool :=
  (Finset.univ.filter fun L => locks L = true).card ≥ quorum

def checkFailedUnlocks (locks : Fin n → Bool) (tolerance : ℕ) : Bool :=
  let unlocksFailed := (Finset.univ.filter fun L => locks L = true).card
  if n - tolerance = tolerance then unlocksFailed ≥ tolerance else unlocksFailed > tolerance

/-- The tolerance of `lockBlocking`, once it has its quorum. -/
def lockTolerance (n : ℕ) (isReadLock : Bool) : ℕ := n - lockQuorum n isReadLock

/-- `releaseAll` sends a release to the lockers that are marked. -/
def releaseAll (locks : Fin n → Bool) : Fin n → ReleaseCall :=
  fun L => if locks L then .sent else .returned

/-- The loop of `lock` goes on: it has not seen all lockers, and a quorum is still possible. -/
def collects (n : ℕ) (isReadLock : Bool) (i locksFailed : ℕ) : Bool :=
  i < n && locksFailed ≤ lockTolerance n isReadLock

def acquireAt (isReadLock : Bool) (now : ℤ) (args : LockArgs) (l : LocalLocker) :
    Option (LocalLocker × Bool) :=
  if isReadLock then l.rlock now args else some (l.lock now args)

/-- `sendRelease` on one locker, and whether the locker returned no error. -/
def releaseAt (isReadLock : Bool) (args : LockArgs) (l : LocalLocker) :
    Option (LocalLocker × Bool) :=
  if isReadLock then (l.runlock args).map fun r => (r.1, r.2.toBool)
  else some ((l.unlock args).1, (l.unlock args).2.toBool)

/-- `lock` has returned from round `r`. -/
def Client.past (client : Client n) (r : ℕ) : Bool :=
  match client.phase with
  | .collecting _ _ _ _ | .abandoning _ _ _ => r + 1 < client.rounds.length
  | _ => true

/-- All calls of the round have returned (`wg.Wait()`), and no late grant is being released: they
are released one after the other. -/
def Round.drained (round : Round n) : Bool :=
  decide (∀ L, round.calls L ≠ .sent ∧ round.calls L ≠ .effected true ∧
    round.calls L ≠ .effected false ∧ round.calls L ≠ .releasing ∧
    round.calls L ≠ .releaseEffected)

end Functions

/-! ### The steps of a goroutine -/

inductive AcquireEvent
  /-- It takes effect on its locker. -/
  | effect (now : ℤ)
  /-- It returns; `delivered` says whether its reply arrives. -/
  | answer (delivered : Bool)
  /-- Its grant came late, and the release is sent. -/
  | late
  /-- The release takes effect. -/
  | lateEffect
  | lateReturn

/-- A step of a goroutine of `lock` on the locker `l`. `late` says whether `lock` has gone on to
release late grants. -/
def AcquireCall.step (info : ClientInfo) (quorum : ℕ) (isReadLock late : Bool) (l : LocalLocker) :
    AcquireCall → AcquireEvent → Option (AcquireCall × LocalLocker)
  | .sent, .effect now =>
    (acquireAt isReadLock now (info.args quorum) l).map fun r => (.effected r.2, r.1)
  -- an error, and no effect
  | .sent, .answer false => some (.answered false, l)
  | .effected reply, .answer delivered =>
    some (.answered (delivered && reply && isLocked info.uid), l)
  | .answered true, .late => if late then some (.releasing, l) else none
  | .releasing, .lateEffect =>
    (releaseAt isReadLock (info.args 0) l).map fun r => (.releaseEffected, r.1)
  | .releasing, .lateReturn => some (.released, l)
  | .releaseEffected, .lateReturn => some (.released, l)
  | _, _ => none

inductive ReleaseEvent
  | effect
  | answer (delivered : Bool)

/-- A step of a goroutine of `releaseAll` on the locker `l`, with the mark of the locker: an answer
without an error takes it away. -/
def ReleaseCall.step (info : ClientInfo) (isReadLock mark : Bool) (l : LocalLocker) :
    ReleaseCall → ReleaseEvent → Option (ReleaseCall × Bool × LocalLocker)
  | .sent, .effect =>
    (releaseAt isReadLock (info.args 0) l).map fun r => (.effected r.2, mark, r.1)
  | .sent, .answer false => some (.returned, mark, l)
  | .effected ok, .answer delivered => some (.returned, mark && !(delivered && ok), l)
  | _, _ => none

/-! ### The system -/

structure MutexState (C : Type) (n : ℕ) where
  lockers : Fin n → LocalLocker
  clients : C → Client n

/-- The steps of the client `c`. A round is named by its number. -/
inductive MutexEvent (n : ℕ)
  /-- `lock` starts a round: the calls go out to all lockers. -/
  | start (isReadLock : Bool)
  /-- A goroutine of round `r`. -/
  | acquire (r : ℕ) (L : Fin n) (event : AcquireEvent)
  /-- The loop takes the grant of a locker from the channel. -/
  | receive (L : Fin n)
  /-- The loop finds the context done. -/
  | timeout
  /-- The loop is over. -/
  | decide
  /-- A goroutine of `releaseAll`. -/
  | release (L : Fin n) (event : ReleaseEvent)
  /-- All goroutines of `releaseAll` have returned. -/
  | finish
  /-- `Unlock` or `RUnlock` is called. -/
  | unlock

section System

variable {n : ℕ}

def Client.step (info : ClientInfo) (lockers : Fin n → LocalLocker) (client : Client n) :
    MutexEvent n → Option (Client n × (Fin n → LocalLocker))
  | .start isReadLock =>
    match client.phase with
    | .idle =>
      some ({ phase := .collecting isReadLock 0 0 fun _ => false
              rounds := client.rounds ++ [⟨isReadLock, fun _ => .sent⟩]
              unlocked := false }, lockers)
    | _ => none
  | .acquire r L event =>
    client.rounds[r]?.bind fun round =>
      ((round.calls L).step info (lockQuorum n round.isReadLock) round.isReadLock
        (client.past r && round.drained) (lockers L) event).map fun (call, l) =>
          ({ client with
              rounds := client.rounds.set r
                { round with calls := Function.update round.calls L call } },
            Function.update lockers L l)
  | .receive L =>
    match client.phase, client.rounds.getLast? with
    | .collecting isReadLock i locksFailed locks, some round =>
      match round.calls L with
      | .answered locked =>
        if collects n isReadLock i locksFailed then
          some ({ client with
                  phase := .collecting isReadLock (i + 1)
                    (if locked then locksFailed else locksFailed + 1)
                    (if locked then Function.update locks L true else locks)
                  rounds := client.rounds.set (client.rounds.length - 1)
                    { round with calls := Function.update round.calls L .received } }, lockers)
        else none
      | _ => none
    | _, _ => none
  | .timeout =>
    match client.phase with
    | .collecting isReadLock i locksFailed locks =>
      if collects n isReadLock i locksFailed then
        some ({ client with phase := .collecting isReadLock (i + 1) (locksFailed + 1) locks },
          lockers)
      else none
    | _ => none
  | .decide =>
    match client.phase with
    | .collecting isReadLock i locksFailed locks =>
      if collects n isReadLock i locksFailed then none
      else if checkQuorumLocked locks (lockQuorum n isReadLock) &&
          locksFailed ≤ lockTolerance n isReadLock then
        some ({ client with phase := .holding isReadLock locks }, lockers)
      else
        some ({ client with phase := .abandoning isReadLock locks (releaseAll locks) }, lockers)
    | _ => none
  | .release L event =>
    match client.phase with
    | .abandoning isReadLock locks releases =>
      ((releases L).step info isReadLock (locks L) (lockers L) event).map fun (call, mark, l) =>
        ({ client with
            phase := .abandoning isReadLock (Function.update locks L mark)
              (Function.update releases L call) }, Function.update lockers L l)
    | .unlocking isReadLock locks releases =>
      ((releases L).step info isReadLock (locks L) (lockers L) event).map fun (call, mark, l) =>
        ({ client with
            phase := .unlocking isReadLock (Function.update locks L mark)
              (Function.update releases L call) }, Function.update lockers L l)
    | _ => none
  | .finish =>
    match client.phase with
    | .abandoning _ _ releases =>
      if ∀ L, releases L = .returned then some ({ client with phase := .idle }, lockers) else none
    | .unlocking isReadLock locks releases =>
      if ∀ L, releases L = .returned then
        if checkFailedUnlocks locks (n / 2) then
          some ({ client with phase := .unlocking isReadLock locks (releaseAll locks) }, lockers)
        else some ({ client with phase := .idle }, lockers)
      else none
    | _ => none
  | .unlock =>
    match client.phase with
    | .holding isReadLock locks =>
      some ({ client with
              phase := .unlocking isReadLock locks (releaseAll locks)
              unlocked := true }, lockers)
    | _ => none

variable {C : Type} [DecidableEq C]

def MutexState.init (C : Type) (n : ℕ) : MutexState C n := ⟨fun _ => .new, fun _ => {}⟩

def mutexStep (info : C → ClientInfo) (s : MutexState C n) (e : C × MutexEvent n) :
    Option (MutexState C n) :=
  ((s.clients e.1).step (info e.1) s.lockers e.2).map fun (client, lockers) =>
    { lockers := lockers, clients := Function.update s.clients e.1 client }

end System

/-! ### Releasing what is already released -/

section Release

variable {n : ℕ} (args : LockArgs) (lockers : Fin n → LocalLocker) (locks : Fin n → Bool)

/-- A round of `releaseAll` for a write lock in which every locker answers: the locks it leaves
marked. -/
def releaseRound : Fin n → Bool :=
  fun L => locks L && (releaseAt false args (lockers L)).any fun r => !r.2

variable {args lockers locks}

lemma unlock_toBool (l : LocalLocker) :
    (l.unlock args).2.toBool = l.canTakeUnlock args.resources := by
  unfold unlock
  cases l.canTakeUnlock args.resources <;> rfl

/-- Every locker clears its mark, so the loop of `Unlock` ends. -/
lemma checkFailedUnlocks_releaseRound (hfound : ∃ L, locks L)
    (h : ∀ L, locks L → (lockers L).canTakeUnlock args.resources) :
    checkFailedUnlocks (releaseRound args lockers locks) (n / 2) = false := by
  obtain ⟨found, -⟩ := hfound
  have hn := found.pos
  have hcleared : ∀ L, releaseRound args lockers locks L = false := by
    intro L
    simp only [releaseRound, releaseAt, Bool.false_eq_true, if_false, Option.any_some,
      unlock_toBool]
    cases hmark : locks L with
    | false => rfl
    | true => rw [h L hmark, Bool.not_true, Bool.and_false]
  simp only [checkFailedUnlocks, hcleared, Bool.false_eq_true, Finset.filter_false,
    Finset.card_empty]
  split
  · exact decide_eq_false (by omega)
  · rfl

/-- `Unlock` does on a locker what it should, also when its entries are gone: none of its write
entries is left, the entries of others are as before, and there is no error. -/
def Releases (args : LockArgs) (l : LocalLocker) : Prop :=
  (∀ resource ∈ args.resources, ∀ entry ∈ (l.unlock args).1.held resource,
    entry.writer = true → args.owns entry = false) ∧
  (∀ name, ((l.unlock args).1.held name).filter (!args.owns ·) =
    (l.held name).filter (!args.owns ·)) ∧
  (l.unlock args).2 = .ok true

lemma releases_iff (l : LocalLocker) : Releases args l ↔ l.canTakeUnlock args.resources := by
  constructor
  · rintro ⟨-, -, hok⟩
    rw [← unlock_toBool, hok]
    rfl
  · intro hcan
    have hwrite := canTakeUnlock_iff.mp hcan
    refine ⟨fun resource hres entry hentry _ => ?_, fun name => ?_, ?_⟩
    · -- the only entry of a write lock stays when it is another's
      obtain ⟨held, hheld, -⟩ := length_of_isWriteLock (hwrite resource hres)
      rw [held_unlock, if_pos ⟨hres, hwrite⟩, hheld] at hentry
      cases howns : args.owns held with
      | true =>
        rw [List.eraseP_cons_of_pos howns] at hentry
        exact absurd hentry List.not_mem_nil
      | false =>
        rw [List.mem_singleton.mp (List.mem_of_mem_eraseP hentry), howns]
    · rw [held_unlock]
      split
      · exact filter_eraseP (fun entry howns => by rw [howns, Bool.not_true]) _
      · rfl
    · rw [unlock, hcan]
      rfl

/-- `Unlock` of a lock that is marked on some lockers, each of which can be reached: it releases on
each, and its loop ends, exactly when each of the names is a write lock on each of those lockers. -/
theorem unlock_releases_iff (args : LockArgs) (lockers : Fin n → LocalLocker)
    (locks : Fin n → Bool) (hfound : ∃ L, locks L = true) :
    ((∀ L, locks L = true → Releases args (lockers L)) ∧
        checkFailedUnlocks (releaseRound args lockers locks) (n / 2) = false) ↔
      ∀ L, locks L = true → ∀ resource ∈ args.resources,
        isWriteLock ((lockers L).held resource) = true := by
  simp only [← LocalLocker.canTakeUnlock_iff, releases_iff]
  exact ⟨And.left, fun h => ⟨h, checkFailedUnlocks_releaseRound hfound h⟩⟩

/-- A server that holds a write lock on the one name `b`. -/
def holdsB : LocalLocker := (LocalLocker.new.lock 0 { uid := "u", resources := ["b"] }).1

/-- The lock on two names is there on two of three servers, and `Unlock` takes it away. -/
theorem unlock_releases_iff_held :
    let args : LockArgs := { uid := "u", resources := ["a", "b"] }
    let lockers : Fin 3 → LocalLocker := ![(LocalLocker.new.lock 0 args).1,
      (LocalLocker.new.lock 0 args).1, .new]
    let locks : Fin 3 → Bool := ![true, true, false]
    (∀ L, locks L = true → Releases args (lockers L)) ∧
      checkFailedUnlocks (releaseRound args lockers locks) 1 = false := by
  intro args lockers locks
  exact (unlock_releases_iff args lockers locks ⟨0, rfl⟩).mpr (by decide)

/-- The write lock is on `a` and `b`, and the entry of `a` has expired: `Unlock` returns an error and
keeps the entry of `b`, and the loop goes on. -/
theorem unlock_half_expired :
    let args : LockArgs := { uid := "u", resources := ["a", "b"] }
    holdsB.unlock args = (holdsB, .error (.readLocked ["a", "b"])) ∧
      (holdsB.held "b").map (fun entry => (entry.writer, args.owns entry)) = [(true, true)] ∧
      checkFailedUnlocks (releaseRound args (fun _ : Fin 1 => holdsB) fun _ => true) 0 = true := by
  exact ⟨rfl, by decide, by decide⟩

end Release

end Obstor.Dsync
