import Obstor.Lib.Scan
import Obstor.Meta.InlineData

/-!
# The version journal `xlMetaV2`

`xl.meta` holds one entry per version of an object: an object, a delete marker, or the one
version a pre-journal format left behind. The calls that change it are those of
`cmd/xl-storage-format-v2.go`. Each loop returns `errFileCorrupt` at an entry that is not valid and
acts on the first that matches (`firstHit`). A call returns the journal it leaves and its outcome,
since a failed `AddVersion` may already have changed the inline data.
-/

namespace Obstor.Meta

open Go Lib

/-! ### Entries -/

inductive ErasureAlgo
  | invalid
  | reedSolomon
  | blockReplication
  deriving DecidableEq

def ErasureAlgo.valid (e : ErasureAlgo) : Bool := e ≠ .invalid

def ErasureAlgo.string : ErasureAlgo → String
  | .reedSolomon => "reedsolomon"
  | .blockReplication => "block-replication"
  | .invalid => ""

/-- `erasureAlgoFromString`: whatever is not block replication is Reed-Solomon. -/
def erasureAlgoFromString (s : String) : ErasureAlgo :=
  if s = ErasureAlgo.string .blockReplication then .blockReplication else .reedSolomon

inductive ChecksumAlgo
  | invalid
  | highwayHash
  deriving DecidableEq

def ChecksumAlgo.valid (e : ChecksumAlgo) : Bool := e ≠ .invalid

/-- A value of the internal metadata: a text, or the JSON of a block list, which is represented
by the list. -/
inductive SysValue
  | raw (text : String)
  | blocks (refs : List BlockRef)
  deriving DecidableEq

structure XlMetaV2DeleteMarker where
  versionID : UUID
  modTime : ℤ
  metaSys : GoMap SysValue
  deriving DecidableEq

structure XlMetaV2Object where
  versionID : UUID
  dataDir : UUID
  erasureAlgorithm : ErasureAlgo
  erasureM : ℤ
  erasureN : ℤ
  erasureBlockSize : ℤ
  erasureIndex : ℤ
  erasureDist : List UInt8
  bitrotChecksumAlgo : ChecksumAlgo
  partNumbers : List ℤ
  partETags : List String
  partSizes : List ℤ
  partActualSizes : List ℤ
  size : ℤ
  modTime : ℤ
  metaSys : GoMap SysValue
  metaUser : GoMap String
  deriving DecidableEq

/-- A version in the format before the journal.
Source: `cmd/xl-storage-format-v1.go`, `xlMetaV1Object` -/
structure XlMetaV1Object where
  version : String
  format : String
  statSize : ℤ
  statModTime : Time
  erasure : ErasureInfo
  metadata : GoMap String
  parts : List ObjectPartInfo
  versionID : String
  dataDir : String
  deriving DecidableEq

/-- `xlMetaV1Object.valid`, with `isXLMetaFormatValid` written out. -/
def XlMetaV1Object.valid (m : XlMetaV1Object) : Bool :=
  ((m.version = "1.0.1" || m.version = "1.0.0") && m.format = "xl") &&
    isXLMetaErasureInfoValid m.erasure.dataBlocks m.erasure.parityBlocks

/-- A journal entry. `invalid` is the zero entry and any other without the record its type
asks for. -/
inductive XlMetaV2Version
  | invalid
  | object (o : XlMetaV2Object)
  | delete (d : XlMetaV2DeleteMarker)
  | legacy (m : XlMetaV1Object)
  deriving DecidableEq

/-- `xlMetaV2Object` part of `Valid`. -/
def XlMetaV2Object.valid (o : XlMetaV2Object) : Bool :=
  o.erasureAlgorithm.valid && o.bitrotChecksumAlgo.valid &&
    isXLMetaErasureInfoValid o.erasureM o.erasureN && o.modTime > 0

def XlMetaV2Version.valid : XlMetaV2Version → Bool
  | .legacy m => m.valid
  | .object o => o.valid
  | .delete d => d.modTime > 0
  | .invalid => false

/-- The version id of an entry; a legacy entry is the null version. -/
def XlMetaV2Version.id : XlMetaV2Version → Option UUID
  | .legacy _ => some 0
  | .object o => some o.versionID
  | .delete d => some d.versionID
  | .invalid => none

/-- The journal and the inline data behind it. -/
structure XlMetaV2 where
  versions : List XlMetaV2Version := []
  data : XlMetaInlineData := []
  deriving DecidableEq

/-- The directory of data in the format before the journal. -/
def legacyDataDir : String := "legacy"

def XlMetaV2.addLegacy (z : XlMetaV2) (m : XlMetaV1Object) : XlMetaV2 × Option Err :=
  if !m.valid then (z, some .fileCorrupt)
  else
    ({ z with
        versions := [.legacy { m with versionID := nullVersionID, dataDir := legacyDataDir }] },
      none)

/-! ### Arguments -/

def errUuid : Err := .new 2 "invalid UUID"

/-- The error for an entry that would not be valid. -/
def errInvalidEntry : Err := .new 3 "internal error: invalid version entry generated"

def amzBucketReplicationStatus : String := "X-Amz-Replication-Status"

def versionPurgeStatusKey : String := "purgestatus"

def transitionStatusKey : String := reservedMetadataPrefixLower ++ "transition-status"

def blocksKey : String := "x-obstor-blocks"

/-- The id of a version text, where the empty text and `null` are the zero id. -/
def parseVersionID (U : UuidPkg) (versionID : String) : Option UUID :=
  if versionID ≠ "" ∧ versionID ≠ nullVersionID then U.parse versionID else some 0

/-- The id of a text, where no text is the zero id. -/
def parseID (U : UuidPkg) (text : String) : Option UUID :=
  if text ≠ "" then U.parse text else some 0

/-- The text under which a call to `AddVersion` or `UpdateObjectVersion` names a version. -/
def FileInfo.versionText (fi : FileInfo) : String :=
  if fi.versionID = "" then nullVersionID else fi.versionID

/-- The text under which `DeleteVersion` names a version. -/
def FileInfo.deleteText (fi : FileInfo) : String :=
  if fi.versionID = nullVersionID then "" else fi.versionID

/-- The loop over `fi.Metadata`: internal keys go to one map, the others to the other. -/
def storeMetadata (metadata : List (String × String))
    (m : List (String × SysValue) × List (String × String)) :
    List (String × SysValue) × List (String × String) :=
  metadata.foldl (fun m kv =>
    if isReserved kv.1 then (GoMap.insertEntry kv.1 (.raw kv.2) m.1, m.2)
    else (m.1, GoMap.insertEntry kv.1 kv.2 m.2)) m

/-- The entry `AddVersion` makes for a delete marker, and `DeleteVersion` before it adds the
replication status. -/
def newDeleteMarker (uv : UUID) (fi : FileInfo) : XlMetaV2DeleteMarker where
  versionID := uv
  modTime := fi.modTime.unixNano
  metaSys := GoMap.empty

/-- The entry `AddVersion` makes for an object. -/
def newObject (uv dd : UUID) (fi : FileInfo) : XlMetaV2Object :=
  let m := storeMetadata fi.metadata.entries ([], [])
  { versionID := uv
    dataDir := dd
    erasureAlgorithm := erasureAlgoFromString fi.erasure.algorithm
    erasureM := fi.erasure.dataBlocks
    erasureN := fi.erasure.parityBlocks
    erasureBlockSize := fi.erasure.blockSize
    erasureIndex := fi.erasure.index
    erasureDist := fi.erasure.distribution.map fun i => UInt8.ofNat (i % 256).toNat
    bitrotChecksumAlgo := .highwayHash
    partNumbers := fi.parts.map ObjectPartInfo.number
    partETags := fi.parts.map ObjectPartInfo.etag
    partSizes := fi.parts.map ObjectPartInfo.size
    partActualSizes := fi.parts.map ObjectPartInfo.actualSize
    size := fi.size
    modTime := fi.modTime.unixNano
    metaSys :=
      some (if fi.blocks.length > 0 then GoMap.insertEntry blocksKey (.blocks fi.blocks) m.1
        else m.1)
    metaUser := some m.2 }

/-! ### `AddVersion` -/

/-- An entry for the version an `AddVersion` or `UpdateObjectVersion` call names: a legacy entry
is compared by text, the others by id. -/
def XlMetaV2Version.isFor (versionID : String) (uv : UUID) : XlMetaV2Version → Bool
  | .legacy m => m.versionID = versionID
  | .object o => o.versionID = uv
  | .delete d => d.versionID = uv
  | .invalid => false

/-- The loop of `AddVersion`: overwrite the version, or append it. -/
def putEntry (versionID : String) (uv : UUID) (ventry : XlMetaV2Version)
    (versions : List XlMetaV2Version) : Except Err (List XlMetaV2Version) :=
  match firstHit (fun v => !v.valid || v.isFor versionID uv) versions with
  | none => .ok (versions ++ [ventry])
  | some (pre, v, post) => if !v.valid then .error .fileCorrupt else .ok (pre ++ ventry :: post)

/-- Whether `AddVersion` is asked to save data. -/
def FileInfo.savesData (fi : FileInfo) : Bool :=
  !fi.deleted && (fi.data.length > 0 || fi.size = 0)

def newEntry (uv dd : UUID) (fi : FileInfo) : XlMetaV2Version :=
  if fi.deleted then .delete (newDeleteMarker uv fi) else .object (newObject uv dd fi)

section

variable (P : Packages) (z : XlMetaV2) (fi : FileInfo)

/-- `AddVersion`. The inline data is written before the entry is checked. -/
def XlMetaV2.addVersion : XlMetaV2 × Option Err :=
  match parseVersionID P.uuid fi.versionText with
  | none => (z, some errUuid)
  | some uv =>
    match parseID P.uuid fi.dataDir with
    | none => (z, some errUuid)
    | some dd =>
      let ventry := newEntry uv dd fi
      let z :=
        if fi.savesData then
          { z with data := XlMetaInlineData.replace P.msgp z.data fi.versionText fi.data }
        else z
      if !ventry.valid then (z, some errInvalidEntry)
      else
        match putEntry fi.versionText uv ventry z.versions with
        | .error e => (z, some e)
        | .ok versions => ({ z with versions := versions }, none)

/-! ### `UpdateObjectVersion` -/

/-- Whether the metadata of `fi` has a key for a nil map of `o`. -/
def writesNilMap (o : XlMetaV2Object) (fi : FileInfo) : Bool :=
  (o.metaSys.isNone && fi.metadata.entries.any fun kv => isReserved kv.1) ||
    (o.metaUser.isNone && fi.metadata.entries.any fun kv => !isReserved kv.1)

/-- Write the metadata and the modification time of `fi` into an object; a write to a nil map
panics. -/
def updateObject (o : XlMetaV2Object) (fi : FileInfo) : Except Err XlMetaV2Object :=
  if writesNilMap o fi then .error (.panic "assignment to entry in nil map")
  else
    let m := storeMetadata fi.metadata.entries (o.metaSys.entries, o.metaUser.entries)
    .ok { o with
      metaSys := o.metaSys.map fun _ => m.1
      metaUser := o.metaUser.map fun _ => m.2
      modTime := if !fi.modTime.isZero then fi.modTime.unixNano else o.modTime }

section

variable (versionID : String) (uv : UUID) (v : XlMetaV2Version)

/-- The entries at which the loop of `UpdateObjectVersion` stops. Any delete marker does. -/
def stopsUpdate : Bool :=
  !v.valid ||
    match v with
    | .delete _ => true
    | v => v.isFor versionID uv

def XlMetaV2.updateObjectVersion :
    XlMetaV2 × Option Err :=
  match parseVersionID P.uuid fi.versionText with
  | none => (z, some errUuid)
  | some uv =>
    match firstHit (stopsUpdate fi.versionText uv) z.versions with
    | none => (z, some .fileVersionNotFound)
    | some (pre, v, post) =>
      if !v.valid then (z, some .fileCorrupt)
      else
        match v with
        | .object o =>
          match updateObject o fi with
          | .error e => (z, some e)
          | .ok o => ({ z with versions := pre ++ .object o :: post }, none)
        | _ => (z, some .methodNotAllowed)

/-! ### `DeleteVersion` -/

/-- `SharedDataDirCount`: the other objects that use the directory; an inlined version shares
nothing. -/
def XlMetaV2.sharedDataDirCount (versionID dataDir : UUID) : ℕ :=
  if (XlMetaInlineData.find P.msgp z.data (P.uuid.string versionID)).isSome then 0
  else
    z.versions.countP fun
      | .object o => o.versionID ≠ versionID && o.dataDir = dataDir
      | _ => false

/-- Whether `DeleteVersion` rewrites the status of the version and keeps it. -/
def FileInfo.updatesVersion : Bool :=
  if fi.versionPurgeStatus = .empty &&
      (fi.deleteMarkerReplicationStatus = "REPLICA" || fi.deleteMarkerReplicationStatus = "") then
    fi.markDeleted
  else
    (fi.deleted && fi.versionPurgeStatus ≠ .complete &&
      (fi.versionPurgeStatus ≠ .empty || fi.deleteMarkerReplicationStatus ≠ "")) ||
    (fi.versionPurgeStatus ≠ .empty && fi.versionPurgeStatus ≠ .complete)

/-- Set the replication and the purge status, if there are any. -/
def setReplication (sys : List (String × SysValue)) : List (String × SysValue) :=
  let sys :=
    if fi.deleteMarkerReplicationStatus ≠ "" then
      GoMap.insertEntry amzBucketReplicationStatus (.raw fi.deleteMarkerReplicationStatus) sys
    else sys
  if fi.versionPurgeStatus ≠ .empty then
    GoMap.insertEntry versionPurgeStatusKey (.raw fi.versionPurgeStatus.text) sys
  else sys

/-- The status rewrite of a delete marker. -/
def updateMarker (d : XlMetaV2DeleteMarker) : XlMetaV2DeleteMarker :=
  let sys := d.metaSys.entries.filter fun kv =>
    kv.1 ≠ amzBucketReplicationStatus && kv.1 ≠ versionPurgeStatusKey
  { d with metaSys := some (setReplication fi sys) }

/-- The entry `DeleteVersion` may append: the delete marker that was asked for, or else the zero
entry. -/
def deleteEntry (fi : FileInfo) : XlMetaV2Version :=
  if fi.deleted then .delete { newDeleteMarker uv fi with metaSys := some (setReplication fi []) }
  else .invalid

/-- The entries at which the first loop of `DeleteVersion` stops. -/
def stopsDelete : Bool :=
  !v.valid ||
    match v with
    | .legacy m => m.versionID = fi.deleteText
    | .delete d => d.versionID = uv
    | .object o => o.versionID = uv && fi.updatesVersion
    | .invalid => false

/-- The entries at which the second loop of `DeleteVersion` stops. -/
def stopsPurge : Bool :=
  !v.valid ||
    match v with
    | .object o => o.versionID = uv
    | _ => false

/-- What `DeleteVersion` leaves and returns: the versions, the data directory to purge, and
whether no version is left. -/
abbrev DeleteResult := List XlMetaV2Version × Except Err (String × Bool)

/-- A successful return with `versions` left. -/
def deleteReturn (versions : List XlMetaV2Version) (dataDir : String) : DeleteResult :=
  (versions, .ok (dataDir, versions.length = 0))

/-- The body of the first loop at the entry `v` between `pre` and `post`. -/
def deleteMatched (pre : List XlMetaV2Version) (v : XlMetaV2Version)
    (post : List XlMetaV2Version) : DeleteResult :=
  let ventry := deleteEntry uv fi
  match v with
  | .legacy m =>
    -- `version.ObjectV2` is nil for a legacy entry
    if fi.transitionStatus ≠ "" then
      (pre ++ v :: post, .error (.panic "nil pointer dereference"))
    else deleteReturn (pre ++ post ++ if fi.deleted then [ventry] else []) m.dataDir
  | .delete d =>
    if fi.updatesVersion then deleteReturn (pre ++ .delete (updateMarker fi d) :: post) ""
    else
      deleteReturn (pre ++ post ++
        if fi.markDeleted &&
            (fi.versionPurgeStatus = .empty || fi.versionPurgeStatus ≠ .complete) then [ventry]
        else []) ""
  | .object o =>
    match o.metaSys.set versionPurgeStatusKey (.raw fi.versionPurgeStatus.text) with
    | .error e => (pre ++ v :: post, .error e)
    | .ok metaSys => deleteReturn (pre ++ .object { o with metaSys := metaSys } :: post) ""
  | .invalid => (pre ++ v :: post, .error .fileCorrupt)

/-- The body of the second loop at the object `o` between `pre` and `post`. -/
def purgeMatched (data : XlMetaInlineData) (fi : FileInfo) (uv : UUID)
    (pre : List XlMetaV2Version) (o : XlMetaV2Object) (post : List XlMetaV2Version) :
    DeleteResult :=
  if fi.transitionStatus ≠ "" then
    match o.metaSys.set transitionStatusKey (.raw fi.transitionStatus) with
    | .error e => (pre ++ .object o :: post, .error e)
    | .ok metaSys =>
      deleteReturn (pre ++ .object { o with metaSys := metaSys } :: post) (P.uuid.string o.dataDir)
  else
    let added := if fi.deleted then [deleteEntry uv fi] else []
    if XlMetaV2.sharedDataDirCount P ⟨pre ++ post, data⟩ o.versionID o.dataDir > 0 then
      deleteReturn (pre ++ post ++ added) ""
    else deleteReturn (pre ++ post ++ added) (P.uuid.string o.dataDir)

/-- The two loops of `DeleteVersion` and what follows them. -/
def deleteLoops : DeleteResult :=
  match firstHit (stopsDelete fi uv) z.versions with
  | some (pre, v, post) =>
    if !v.valid then (z.versions, .error .fileCorrupt) else deleteMatched fi uv pre v post
  | none =>
    match firstHit (stopsPurge uv) z.versions with
    | some (pre, .object o, post) =>
      if !o.valid then (z.versions, .error .fileCorrupt)
      else purgeMatched P z.data fi uv pre o post
    | some _ => (z.versions, .error .fileCorrupt)
    | none =>
      if fi.deleted then (z.versions ++ [deleteEntry uv fi], .ok ("", false))
      else (z.versions, .error .fileVersionNotFound)

end

def XlMetaV2.deleteVersion :
    XlMetaV2 × Except Err (String × Bool) :=
  match parseID P.uuid fi.deleteText with
  | none => (z, .error .fileVersionNotFound)
  | some uv =>
    if fi.deleted && !(XlMetaV2Version.delete (newDeleteMarker uv fi)).valid then
      (z, .error errInvalidEntry)
    else
      let r := deleteLoops P z fi uv
      ({ z with versions := r.1 }, r.2)

end

end Obstor.Meta
