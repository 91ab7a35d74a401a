import Obstor.Meta.TrimData
import Obstor.Metacache.Entry
import Obstor.Metacache.Volume

/-!
# Walking the directories of a volume

`xlStorage.WalkDir` (`cmd/metacache-walk.go`): the entries below a directory of a volume. An object is a
directory that holds `xl.meta`; a directory object, whose name ends in a slash, is stored in a directory
with the suffix `__XLDIR__`. `prefix` and `forward` of the source, which are set before every recursive
call, are arguments here. The volume exists, and the context is not cancelled.
-/

namespace Obstor.Metacache

open Go Meta

/-- `xlStorageFormatFile`, `xl.meta`. -/
def xlStorageFormatFile : Bytes := [120, 108, 46, 109, 101, 116, 97]

/-- `xlStorageFormatFileV1`, `xl.json`. -/
def xlStorageFormatFileV1 : Bytes := [120, 108, 46, 106, 115, 111, 110]

/-- `globalDirSuffix`, `__XLDIR__`. -/
def globalDirSuffix : Bytes := [95, 95, 88, 76, 68, 73, 82, 95, 95]

def globalDirSuffixWithSlash : Bytes := globalDirSuffix ++ [Path.slash]

def decodeDirObject (object : Bytes) : Bytes :=
  if globalDirSuffix.isSuffixOf object then trimSuffix object globalDirSuffix ++ [Path.slash]
  else object

/-- `WalkDirOptions`, without the bucket. -/
structure WalkDirOptions where
  baseDir : Bytes
  recursive : Bool
  reportNotFound : Bool := false
  filterPrefix : Bytes := []
  forwardTo : Bytes := []

section Walk

variable (P : Packages) (v : Volume) (opts : WalkDirOptions)

/-- What the first loop over the names of a directory leads to: the directory is an object, or the names
that the second loop goes over, with those of directory objects. -/
inductive FirstPass
  | found (entry : MetaCacheEntry)
  | listed (entries dirObjects : List Bytes)

/-- The first loop. A name that is skipped stays in the list as it is. -/
def firstPass (current pre forward : Bytes) : List Bytes → List Bytes → List Bytes → FirstPass
  | [], entries, dirObjects => .listed entries dirObjects
  | entry :: raw, entries, dirObjects =>
    if pre.length > 0 ∧ !pre.isPrefixOf entry then
      firstPass current pre forward raw (entries ++ [entry]) dirObjects
    else if forward.length > 0 ∧ entry < forward then
      firstPass current pre forward raw (entries ++ [entry]) dirObjects
    else if Path.endsInSlash entry then
      if globalDirSuffixWithSlash.isSuffixOf entry then
        let entry := trimSuffix entry globalDirSuffixWithSlash ++ [Path.slash]
        firstPass current pre forward raw (entries ++ [entry]) (dirObjects ++ [entry])
      else firstPass current pre forward raw (entries ++ [entry.dropLast]) dirObjects
    else if xlStorageFormatFile.isSuffixOf entry then
      match v.readFile [current, entry] with
      | .error _ => firstPass current pre forward raw (entries ++ [[]]) dirObjects
      | .ok metadata =>
        let name := trimSuffix (trimSuffix entry xlStorageFormatFile) [Path.slash]
        .found ⟨decodeDirObject (Path.pathJoin [current, name]), xlMetaV2TrimData P metadata⟩
    else if xlStorageFormatFileV1.isSuffixOf entry then
      match v.readFile [current, entry] with
      | .error _ => firstPass current pre forward raw (entries ++ [[]]) dirObjects
      | .ok metadata =>
        let name := trimSuffix (trimSuffix entry xlStorageFormatFileV1) [Path.slash]
        .found ⟨Path.pathJoin [current, name], metadata⟩
    else firstPass current pre forward raw (entries ++ [[]]) dirObjects

/-- What a name stands for. -/
inductive Found
  | object (entry : MetaCacheEntry)
  | directory (name : Bytes)
  | nothing
  deriving DecidableEq

/-- The second loop looks at what a name stands for. -/
def lookAt (current : Bytes) (dirObjects : List Bytes) (entry : Bytes) : Found :=
  let isDirObj := dirObjects.contains entry
  let name := Path.pathJoin [current, entry]
  let name := if isDirObj then name.dropLast ++ globalDirSuffixWithSlash else name
  match v.readFile [name, xlStorageFormatFile] with
  | .ok metadata =>
    .object ⟨if isDirObj then trimSuffix name globalDirSuffixWithSlash ++ [Path.slash] else name,
      metadata⟩
  | .error .notExist =>
    match v.readFile [name, xlStorageFormatFileV1] with
    | .ok metadata => .object ⟨name, metadata⟩
    | .error _ =>
      if !isDirObj && !v.isDirEmpty (name ++ [Path.slash]) then .directory (name ++ [Path.slash])
      else .nothing
  | .error _ => .nothing

/-- `forward` for the directory `pop`. -/
def forwardIn (pop : Bytes) : Bytes :=
  if opts.forwardTo.length > 0 ∧ pop.isPrefixOf opts.forwardTo then trimPrefix opts.forwardTo pop
  else []

variable (scan : Bytes → Bytes → List MetaCacheEntry)

/-- A directory comes off the stack. -/
def popped (pop : Bytes) : List MetaCacheEntry :=
  ⟨pop, []⟩ :: if opts.recursive then scan pop (forwardIn opts pop) else []

/-- The directories on top of the stack that come before `name`; the top is the head. -/
def popBefore (name : Bytes) : List Bytes → List MetaCacheEntry × List Bytes
  | [] => ([], [])
  | pop :: dirStack =>
    if pop < name then
      (popped opts scan pop ++ (popBefore name dirStack).1, (popBefore name dirStack).2)
    else ([], pop :: dirStack)

/-- The second loop, and the directories that are left on the stack after it. -/
def secondPass (current : Bytes) (dirObjects : List Bytes) :
    List Bytes → List Bytes → List MetaCacheEntry
  | [], dirStack => dirStack.flatMap (popped opts scan)
  | entry :: entries, dirStack =>
    if entry = [] then secondPass current dirObjects entries dirStack
    else
      let before := popBefore opts scan (Path.pathJoin [current, entry]) dirStack
      match lookAt v current dirObjects entry with
      | .object e => before.1 ++ e :: secondPass current dirObjects entries before.2
      | .directory name => before.1 ++ secondPass current dirObjects entries (name :: before.2)
      | .nothing => before.1 ++ secondPass current dirObjects entries before.2

/-- `scanDir`, for directories that are at most `depth` levels deep. -/
def scanDir : ℕ → Bytes → Bytes → Bytes → List MetaCacheEntry × Option Err
  | 0, _, _, _ => ([], none)
  | depth + 1, current, pre, forward =>
    match v.listDir current with
    | none =>
      ([], if opts.reportNotFound ∧ current = opts.baseDir then some .fileNotFound else none)
    | some raw =>
      match firstPass P v current pre forward raw [] [] with
      | .found entry => ([entry], none)
      | .listed entries dirObjects =>
        let scan := fun pop forward => (scanDir depth pop [] forward).1
        (secondPass v opts scan current dirObjects (entries.insertionSort (· ≤ ·)) [], none)

/-- `WalkDir`: the entries it sends and the error it returns. -/
def walkDir : List MetaCacheEntry × Option Err :=
  let scanned := scanDir P v opts (v.depth + 1) opts.baseDir opts.filterPrefix opts.forwardTo
  if Path.endsInSlash opts.baseDir then
    match v.readFile [opts.baseDir.dropLast ++ globalDirSuffix, xlStorageFormatFile] with
    | .ok metadata => (⟨opts.baseDir, xlMetaV2TrimData P metadata⟩ :: scanned.1, scanned.2)
    | .error _ =>
      match v.readFile [opts.baseDir, xlStorageFormatFile] with
      | .ok _ => ([], some .fileNotFound)
      | .error _ => scanned
  else scanned

end Walk

end Obstor.Metacache
