import Obstor.Go.Strings
import Obstor.Meta.Codec

/-!
# Entries of a listing

`metaCacheEntry` (`cmd/metacache-entries.go`): a name, and the metadata of an object; a directory has
none.
-/

namespace Obstor.Metacache

open Go Meta

/-- `metaCacheEntry`; the zero entry has an empty name. -/
structure MetaCacheEntry where
  name : Bytes := []
  metadata : Bytes := []
  deriving DecidableEq

def noEntry : MetaCacheEntry := {}

/-- How reading a stream of entries ends. -/
inductive StreamErr
  /-- `io.EOF`. -/
  | eof
  /-- `io.ErrUnexpectedEOF`. -/
  | unexpectedEOF
  /-- An error with the text of `errFileNotFound` or `errVolumeNotFound`. -/
  | notFound
  | other (err : Err)
  deriving DecidableEq

namespace MetaCacheEntry

def isDir (e : MetaCacheEntry) : Bool := e.metadata.length = 0

def isObject (e : MetaCacheEntry) : Bool := e.metadata.length > 0

def hasPrefix (e : MetaCacheEntry) (s : Bytes) : Bool := s.isPrefixOf e.name

def isInDir (e : MetaCacheEntry) (dir separator : Bytes) : Bool :=
  let atEnd := fun ext =>
    match index ext separator with
    | none => true
    | some idx => (idx : ℤ) = ext.length - separator.length
  if dir.length = 0 then atEnd e.name
  else
    let ext := trimPrefix e.name dir
    if ext.length ≠ e.name.length then atEnd ext else false

/-- `isLatestDeletemarker`: the last entry of the journal is a delete marker, or the journal cannot be
read. -/
def isLatestDeletemarker (P : Packages) (K : Marshaller) (e : MetaCacheEntry) : Bool :=
  if !isXL2V1Format e.metadata then false
  else
    match XlMetaV2.load P K e.metadata with
    | .error _ => true
    | .ok xlMeta =>
      match xlMeta.versions.getLast? with
      | none => true
      | some (.delete _) => true
      | some _ => false

/-- `fileInfo`, without the name that goes into it. -/
def fileInfo (P : Packages) (C : Choices) (K : Marshaller) (e : MetaCacheEntry) (bucket : String) :
    Except Err FileInfo :=
  if e.isDir then .ok { volume := bucket }
  else getFileInfo P C K e.metadata bucket "" "" false

/-- `==` on errors: an error that was made by the call is equal to no other. -/
def sameErr : Err → Err → Bool
  | .new _ _, _ => false
  | .wrap _ _ _, _ => false
  | e, e' => e = e'

/-- `matches`: the same name, and metadata of the same length whose latest versions look the
same. -/
def matchesEntry (P : Packages) (C : Choices) (K : Marshaller) (e other : MetaCacheEntry)
    (bucket : String) : Bool :=
  if e.metadata.length ≠ other.metadata.length ∨ e.name ≠ other.name then false
  else
    match e.fileInfo P C K bucket, other.fileInfo P C K bucket with
    | .ok eFi, .ok oFi =>
      eFi.modTime = oFi.modTime && eFi.size = oFi.size && eFi.versionID = oFi.versionID
    | .error eErr, .error oErr => sameErr eErr oErr
    | _, _ => false

end MetaCacheEntry

/-- A codec that reads nothing. -/
def noMarshaller : Marshaller :=
  ⟨fun _ => [], fun _ => .error .fileCorrupt, fun _ => 0, fun _ => .error .fileCorrupt⟩

end Obstor.Metacache
