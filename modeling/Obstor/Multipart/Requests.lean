import Obstor.Lib.Runs
import Obstor.Multipart.Parts

/-!
# Concurrent requests on one multipart upload

`PutObjectPart`, `CompleteMultipartUpload` and `AbortMultipartUpload` (`cmd/erasure-multipart.go`)
as requests that take their steps in any order, each under the locks the code holds at that step.
Which locks a request holds can be read off its program point `Pc`. It may fail at any point
(`Label.giveUp`). `UploadStore` is what a quorum of drives holds of the upload and of the object
version that it becomes.
-/

namespace Obstor.Multipart

open Lib Meta

/-! ### Requests and program points -/

/-- A request on the upload id. A part comes with its number, its entity tag, the bytes stored and
the bytes of the client. -/
inductive Request
  | putObjectPart (partID : ℤ) (md5hex : String) (n : ℕ) (actualSize : ℤ)
  | completeMultipartUpload (parts : List CompletePart)
  | abortMultipartUpload
  deriving DecidableEq

/-- Where a request stands: the next thing it does. -/
inductive Pc
  | start
  /-- `PutObjectPart` under the read lock: check that the upload exists, encode the part. -/
  | putCheck
  | putEncode
  /-- Between `RUnlock` and `GetLock`. -/
  | putLock
  /-- Under the write lock: check again, rename the part file, read `xl.meta`, write it. -/
  | putCheckAgain
  | putRename
  | putRead
  | putWrite (parts : List ObjectPartInfo)
  /-- `CompleteMultipartUpload`, under the read lock until it returns. -/
  | completeCheck
  | completeRead
  | completeWrite (fi : CompletedParts) (current : List ObjectPartInfo)
  | completeRemove (fi : CompletedParts) (rest : List ℤ)
  | completeLock (fi : CompletedParts)
  /-- Under the lock of the object as well. -/
  | completeRename (fi : CompletedParts)
  /-- `AbortMultipartUpload` under the write lock. -/
  | abortCheck
  | abortDelete
  /-- The answer was sent: `true` is an acknowledgement. -/
  | returned (ok : Bool)
  deriving DecidableEq

/-- The request holds the read lock of the upload id. -/
def Pc.rlocked : Pc → Bool
  | .putCheck | .putEncode => true
  | .completeCheck | .completeRead | .completeWrite _ _ => true
  | .completeRemove _ _ | .completeLock _ | .completeRename _ => true
  | _ => false

/-- The request holds the write lock of the upload id. -/
def Pc.locked : Pc → Bool
  | .putCheckAgain | .putRename | .putRead | .putWrite _ => true
  | .abortCheck | .abortDelete => true
  | _ => false

/-- The request holds the lock of the object. -/
def Pc.objectLocked : Pc → Bool
  | .completeRename _ => true
  | _ => false

/-- The request was not answered yet, and has taken a step. -/
def Pc.running : Pc → Bool
  | .start | .returned _ => false
  | _ => true

/-- Which locks a request could take now. -/
structure Locks where
  rlock : Bool
  lock : Bool
  objectLock : Bool

/-! ### The store -/

/-- The drives, as a quorum of them has it: the parts in the `xl.meta` under the upload id (`none`
when there is none), the part files in its data directory, and the same two of the object version
the upload becomes. `acked` is not stored anywhere: it is the part that was last acknowledged under
each number. -/
structure UploadStore where
  xlMeta : Option (List ObjectPartInfo)
  files : List ℤ := []
  object : Option (List ObjectPartInfo) := none
  objectFiles : List ℤ := []
  acked : ℤ → Option ObjectPartInfo := fun _ => none

def uploadedPart (partID : ℤ) (md5hex : String) (n : ℕ) (actualSize : ℤ) : ObjectPartInfo :=
  { etag := md5hex, number := partID, size := n, actualSize := actualSize }

/-- The numbers of the parts that are removed: those of `currentFI.Parts` that `fi.Parts` does not
list. -/
def unlistedParts (current parts : List ObjectPartInfo) : List ℤ :=
  (current.map ObjectPartInfo.number).filter fun n => (objectPartIndex parts n).isNone

/-- `RenameData` on the upload: `xl.meta` is written once more at the source. The data of an earlier
null version goes to the trash, and so does a data directory that stands at the destination when
there is data to move; both belong to this upload if it was completed before. A data directory whose
last file was removed is gone itself, and its rename fails.
Source: `cmd/xl-storage.go`, `RenameData`, `deleteFile` -/
def UploadStore.renameData (store : UploadStore) (versioned : Bool) (fi : CompletedParts) :
    UploadStore × Bool :=
  if fi.objectSize > 0 then
    if store.files = [] then ({ store with xlMeta := some fi.parts, objectFiles := [] }, false)
    else
      ({ store with
          xlMeta := none, files := [], object := some fi.parts, objectFiles := store.files }, true)
  else
    ({ store with
        xlMeta := none
        object := some fi.parts
        objectFiles := if !versioned && store.object.isSome then [] else store.objectFiles }, true)

/-! ### The steps of a request -/

section Steps

variable (locks : Locks) (store : UploadStore)

def putObjectPartStep (part : ObjectPartInfo) : Pc → Option (Pc × UploadStore)
  | .start => if locks.rlock then some (.putCheck, store) else none
  | .putCheck => some (if store.xlMeta.isSome then .putEncode else .returned false, store)
  | .putEncode => some (.putLock, store)
  | .putLock => if locks.lock then some (.putCheckAgain, store) else none
  | .putCheckAgain => some (if store.xlMeta.isSome then .putRename else .returned false, store)
  | .putRename => some (.putRead, { store with files := part.number :: store.files })
  | .putRead =>
    match store.xlMeta with
    | none => some (.returned false, store)
    | some parts => some (.putWrite parts, store)
  | .putWrite parts =>
    some (.returned true, { store with
          xlMeta := some (addObjectPart parts part)
          acked := Function.update store.acked part.number (some part) })
  | _ => none

/-- The steps of `CompleteMultipartUpload`. Between the check and the read of `xl.meta`, and after
the list was written, another completion may take its own steps: both hold the read lock. -/
def completeMultipartUploadStep (canonicalizeETag : String → String) (versioned : Bool)
    (parts : List CompletePart) : Pc → Option (Pc × UploadStore)
  | .start => if locks.rlock then some (.completeCheck, store) else none
  | .completeCheck => some (if store.xlMeta.isSome then .completeRead else .returned false, store)
  | .completeRead =>
    match store.xlMeta with
    | none => some (.returned false, store)
    | some current =>
      match validateParts canonicalizeETag current parts {} with
      | .error _ => some (.returned false, store)
      | .ok fi => some (.completeWrite fi current, store)
  | .completeWrite fi current =>
    some (.completeRemove fi (unlistedParts current fi.parts),
      { store with xlMeta := some fi.parts })
  | .completeRemove fi (n :: rest) =>
    -- `removeObjectPart` ignores the failure to remove a file
    some (.completeRemove fi rest, { store with files := store.files.filter (· ≠ n) })
  | .completeRemove fi [] => some (.completeLock fi, store)
  | .completeLock fi => if locks.objectLock then some (.completeRename fi, store) else none
  | .completeRename fi =>
    some (.returned (store.renameData versioned fi).2, (store.renameData versioned fi).1)
  | _ => none

def abortMultipartUploadStep : Pc → Option (Pc × UploadStore)
  | .start => if locks.lock then some (.abortCheck, store) else none
  | .abortCheck => some (if store.xlMeta.isSome then .abortDelete else .returned false, store)
  | .abortDelete => some (.returned true, { store with xlMeta := none, files := [] })
  | _ => none

def Request.next (canonicalizeETag : String → String) (versioned : Bool) (pc : Pc) :
    Request → Option (Pc × UploadStore)
  | .putObjectPart partID md5hex n actualSize =>
    putObjectPartStep locks store (uploadedPart partID md5hex n actualSize) pc
  | .completeMultipartUpload parts =>
    completeMultipartUploadStep locks store canonicalizeETag versioned parts pc
  | .abortMultipartUpload => abortMultipartUploadStep locks store pc

end Steps

/-! ### The system -/

/-- The store and where each of `n` requests stands. -/
structure UploadState (n : ℕ) where
  store : UploadStore
  pc : Fin n → Pc

/-- One request takes its next step, or fails where it stands. -/
inductive Label (n : ℕ)
  | advance (i : Fin n)
  | giveUp (i : Fin n)

variable {n : ℕ}

/-- An upload that was just initiated, with no request sent. -/
def UploadState.init (n : ℕ) : UploadState n where
  store := { xlMeta := some [] }
  pc := fun _ => .start

/-- The locks that are free: a read lock when nobody has the write lock, the write lock when nobody
has either. -/
def UploadState.locks (s : UploadState n) : Locks where
  rlock := decide (∀ j, (s.pc j).locked = false)
  lock := decide (∀ j, (s.pc j).locked = false ∧ (s.pc j).rlocked = false)
  objectLock := decide (∀ j, (s.pc j).objectLocked = false)

/-- One step of the system. A request that fails gives its locks back. -/
def uploadStep (canonicalizeETag : String → String) (versioned : Bool) (requests : Fin n → Request)
    (s : UploadState n) : Label n → Option (UploadState n)
  | .advance i =>
    ((requests i).next s.locks s.store canonicalizeETag versioned (s.pc i)).map fun (pc, store) =>
      { store := store, pc := Function.update s.pc i pc }
  | .giveUp i =>
    if (s.pc i).running then
      some { s with pc := Function.update s.pc i (.returned false) }
    else none

end Obstor.Multipart
