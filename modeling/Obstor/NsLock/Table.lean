import Obstor.Go.Paths
import Obstor.Go.Strings
import Obstor.Lib.Runs

/-!
# The namespace lock table of one server

`nsLockMap` (`cmd/namespace-lock.go`) in its form for a single server: a map from the name of a
resource to a mutex with a reference count. `lock` counts itself in before it waits for the mutex;
`unlock` releases the mutex and counts out; an entry whose count is zero is deleted.

Any number of clients, each with an instance of its own, take their steps in any order. What runs
under `lockMapMutex` is one step, except `unlock`, as the mutex of the resource is not protected by
it. The state also records the uses of the resources (`Use`).
-/

namespace Obstor.NsLock

open Go

/-! ### The mutex -/

/-- `LRWMutex`. The id and the source of the last caller, which nothing reads, are left out.
Source: `pkg/lsync/lrwmutex.go` -/
structure LRWMutex where
  isWriteLock : Bool := false
  ref : ℤ := 0
  deriving DecidableEq

namespace LRWMutex

/-- `LRWMutex.lock`: one attempt of `lockLoop`. -/
def lock (lm : LRWMutex) (isWriteLock : Bool) : LRWMutex × Bool :=
  if isWriteLock then
    if lm.ref = 0 && !lm.isWriteLock then ({ isWriteLock := true, ref := 1 }, true)
    else (lm, false)
  else if !lm.isWriteLock then ({ lm with ref := int64 (lm.ref + 1) }, true)
  else (lm, false)

def unlock (lm : LRWMutex) (isWriteLock : Bool) : LRWMutex × Bool :=
  if isWriteLock then
    if lm.isWriteLock && lm.ref = 1 then ({ isWriteLock := false, ref := 0 }, true)
    else (lm, false)
  else if !lm.isWriteLock && lm.ref > 0 then ({ lm with ref := lm.ref - 1 }, true)
  else (lm, false)

end LRWMutex

/-! ### The table -/

/-- `nsLock`; `ref` is an `int32`. -/
structure NSLock where
  ref : ℤ := 0
  rw : LRWMutex := {}
  deriving DecidableEq

/-- The map of `nsLockMap`, and the memory its pointers go to: the cells from `next` on are free. -/
structure NsLockMap where
  lockMap : Bytes → Option ℕ
  nsLocks : ℕ → NSLock
  next : ℕ

namespace NsLockMap

def new : NsLockMap := ⟨fun _ => none, fun _ => {}, 0⟩

/-- The first critical section of `nsLockMap.lock`: the caller is counted in. -/
def enter (n : NsLockMap) (resource : Bytes) : NsLockMap × ℕ :=
  match n.lockMap resource with
  | some nsLk =>
    ({ n with
        nsLocks := Function.update n.nsLocks nsLk
          { n.nsLocks nsLk with ref := int32 ((n.nsLocks nsLk).ref + 1) } }, nsLk)
  | none =>
    ({ lockMap := Function.update n.lockMap resource (some n.next)
       nsLocks := Function.update n.nsLocks n.next { ref := int32 (0 + 1), rw := {} }
       next := n.next + 1 }, n.next)

/-- The caller is counted out, and an entry without users is deleted. `none` is a panic: there is no
entry, or `logger.CriticalIf` finds a negative count. -/
def leave (n : NsLockMap) (resource : Bytes) : Option NsLockMap :=
  match n.lockMap resource with
  | none => none
  | some nsLk =>
    let ref := int32 ((n.nsLocks nsLk).ref - 1)
    if ref < 0 then none
    else
      some { n with
        nsLocks := Function.update n.nsLocks nsLk { n.nsLocks nsLk with ref := ref }
        lockMap := if ref = 0 then Function.update n.lockMap resource none else n.lockMap }

/-- The mutex of a cell is replaced. -/
def setMutex (n : NsLockMap) (nsLk : ℕ) (rw : LRWMutex) : NsLockMap :=
  { n with nsLocks := Function.update n.nsLocks nsLk { n.nsLocks nsLk with rw := rw } }

end NsLockMap

/-! ### Clients -/

structure LocalLockInstance where
  volume : Bytes
  paths : List Bytes

namespace LocalLockInstance

def newNSLock (volume : Bytes) (paths : List Bytes) : LocalLockInstance :=
  ⟨volume, paths.insertionSort (· ≤ ·)⟩

/-- The names of its paths in the table. -/
def resources (li : LocalLockInstance) : List Bytes :=
  li.paths.map fun path => Path.pathJoin [li.volume, path]

end LocalLockInstance

inductive Pc
  /-- No call is going on, and no lock is held. -/
  | idle
  /-- The same, and the last call was a `GetLock` or `GetRLock` that returned
  `OperationTimedOut`. -/
  | refused
  /-- The head of the loop of `GetLock` or `GetRLock`. -/
  | acquiring (readLock : Bool) (i : ℕ) (success : List Bool)
  /-- `nsLockMap.lock` for path `i`, in `lockLoop` of the mutex. -/
  | trying (readLock : Bool) (i : ℕ) (success : List Bool) (nsLk : ℕ)
  /-- `nsLockMap.lock` for path `i`, after `lockLoop` returned false. -/
  | timedOut (readLock : Bool) (i : ℕ) (success : List Bool)
  /-- `GetLock` or `GetRLock` returned without an error. -/
  | locked (readLock : Bool)
  /-- The head of a loop that calls `nsLockMap.unlock` for the paths that are marked: those of
  `success` after a timeout, all paths in `Unlock` and `RUnlock`. -/
  | releasing (undo readLock : Bool) (marks : List Bool) (si : ℕ)
  /-- `nsLockMap.unlock` for path `si`, after the mutex was unlocked. -/
  | leaving (undo readLock : Bool) (marks : List Bool) (si : ℕ)
  | panicked
  deriving DecidableEq

/-- A use of a resource. -/
inductive UsePhase
  /-- The client waits for the mutex. -/
  | attempting
  /-- The client holds the mutex. -/
  | held
  /-- The client is in `nsLockMap.unlock`, has released the mutex and is about to count out. -/
  | leaving
  deriving DecidableEq

/-- A client that is counted in at a resource, and the mutex it uses. -/
structure Use (C : Type) where
  client : C
  resource : Bytes
  nsLk : ℕ
  readLock : Bool
  phase : UsePhase
  deriving DecidableEq

/-! ### The system -/

structure NsState (C : Type) where
  table : NsLockMap
  /-- The client in `nsLockMap.unlock` that holds `lockMapMutex` between two steps. -/
  lockMapMutex : Option C
  pc : C → Pc
  uses : List (Use C)

/-- What a client does next. -/
inductive NsEvent
  /-- `GetLock` or `GetRLock` is called. -/
  | getLock (readLock : Bool)
  /-- `nsLockMap.lock` is called for the next path, and the client is counted in. -/
  | enter
  /-- One attempt of `lockLoop`. -/
  | attempt
  /-- `lockLoop` finds the context done. -/
  | timeout
  /-- The client is counted out. -/
  | leave
  /-- `Unlock` or `RUnlock` is called. -/
  | unlock
  /-- `nsLockMap.unlock` is called for the next path, and the mutex is released. -/
  | release
  /-- A loop over the paths is over. -/
  | finish
  deriving DecidableEq

section System

variable {C : Type} [DecidableEq C]

namespace NsState

/-- No lock is held, and no client has done anything. -/
def init (C : Type) : NsState C := ⟨.new, none, fun _ => .idle, []⟩

def goto (s : NsState C) (c : C) (pc : Pc) : NsState C :=
  { s with pc := Function.update s.pc c pc }

end NsState

section

variable (s : NsState C) (c : C) (resource : Bytes) (readLock : Bool) (i : ℕ) (success : List Bool)

/-- `nsLockMap.lock`, the client is counted in. -/
def enterStep : NsState C :=
  let nsLk := (s.table.enter resource).2
  { s with
    table := (s.table.enter resource).1
    pc := Function.update s.pc c (.trying readLock i success nsLk)
    uses := ⟨c, resource, nsLk, readLock, .attempting⟩ :: s.uses }

/-- `lockLoop`, one attempt. -/
def attemptStep (nsLk : ℕ) : NsState C :=
  let (rw, locked) := (s.table.nsLocks nsLk).rw.lock (!readLock)
  if locked then
    { s with
      table := s.table.setMutex nsLk rw
      pc := Function.update s.pc c (.acquiring readLock (i + 1) (success.set i true))
      uses := ⟨c, resource, nsLk, readLock, .held⟩ ::
        s.uses.erase ⟨c, resource, nsLk, readLock, .attempting⟩ }
  else s

/-- The client is counted out, in `nsLockMap.lock` or at the end of `nsLockMap.unlock`, and goes on
at `pc`. -/
def leaveStep (phase : UsePhase) (pc : Pc) : NsState C :=
  match s.table.leave resource with
  | none => s.goto c .panicked
  | some table =>
    { table := table
      lockMapMutex := none
      pc := Function.update s.pc c pc
      uses := match s.table.lockMap resource with
        | some nsLk => s.uses.erase ⟨c, resource, nsLk, readLock, phase⟩
        | none => s.uses }

/-- `nsLockMap.unlock` up to the release of the mutex. -/
def releaseStep (undo readLock : Bool) (marks : List Bool) (si : ℕ) : NsState C :=
  match s.table.lockMap resource with
  | none => s.goto c (.releasing undo readLock marks (si + 1))
  | some nsLk =>
    let (rw, unlocked) := (s.table.nsLocks nsLk).rw.unlock (!readLock)
    if unlocked then
      { table := s.table.setMutex nsLk rw
        lockMapMutex := some c
        pc := Function.update s.pc c (.leaving undo readLock marks si)
        uses := ⟨c, resource, nsLk, readLock, .leaving⟩ ::
          s.uses.erase ⟨c, resource, nsLk, readLock, .held⟩ }
    else s.goto c .panicked

end

def nsStep (li : C → LocalLockInstance) (s : NsState C) (e : C × NsEvent) : Option (NsState C) :=
  let c := e.1
  let resources := (li c).resources
  match s.pc c, e.2 with
  | .idle, .getLock readLock | .refused, .getLock readLock =>
    some (s.goto c (.acquiring readLock 0 (List.replicate resources.length false)))
  | .acquiring readLock i success, .enter =>
    if s.lockMapMutex = none then
      resources[i]?.map fun resource => enterStep s c resource readLock i success
    else none
  | .acquiring readLock i _, .finish =>
    if i = resources.length then some (s.goto c (.locked readLock)) else none
  | .trying readLock i success nsLk, .attempt =>
    resources[i]?.map fun resource => attemptStep s c resource readLock i success nsLk
  | .trying readLock i success _, .timeout => some (s.goto c (.timedOut readLock i success))
  | .timedOut readLock i success, .leave =>
    if s.lockMapMutex = none then
      resources[i]?.map fun resource =>
        leaveStep s c resource readLock .attempting (.releasing true readLock success 0)
    else none
  | .locked readLock, .unlock =>
    some (s.goto c (.releasing false readLock (List.replicate resources.length true) 0))
  | .releasing undo readLock marks si, .release =>
    if marks[si]? = some false then some (s.goto c (.releasing undo readLock marks (si + 1)))
    else if s.lockMapMutex = none then
      resources[si]?.map fun resource => releaseStep s c resource undo readLock marks si
    else none
  | .leaving undo readLock marks si, .leave =>
    resources[si]?.map fun resource =>
      leaveStep s c resource readLock .leaving (.releasing undo readLock marks (si + 1))
  | .releasing undo _ _ si, .finish =>
    if si = resources.length then some (s.goto c (if undo then .refused else .idle)) else none
  | _, _ => none

end System

end Obstor.NsLock
