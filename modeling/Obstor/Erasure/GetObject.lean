import Obstor.Block.Replicator
import Obstor.Erasure.Decode

/-!
# Reading an object

`getObjectWithFileInfo` (`cmd/erasure-object.go`) brings the disks into the order of the shards,
finds the parts that a range touches, and decodes each part from the readers of its shard files.

The bitrot reader of a part on a disk is a field of `Disk`: what it answers is up to the disk. An
index out of range is an error value, so that it is never a success.
-/

namespace Obstor.Coding

open Go Lib Meta

/-! ### Disks -/

/-- What `newBitrotReader` is given: the inline data or the path of a part, how far it will be
read, and its checksum. -/
structure PartFile where
  data : Bytes
  bucket : String
  object : String
  dataDir : String
  partNumber : ℤ
  tillOffset : ℕ
  checksum : ChecksumInfo
  shardSize : ℕ
  deriving DecidableEq

/-- A `StorageAPI`, as far as a read goes. -/
structure Disk where
  hostname : String
  /-- `newBitrotReader` on this disk. -/
  newBitrotReader : PartFile → Reader
  readBlock : Block.BlockSource

structure Shuffled where
  disks : List (Option Disk)
  metas : List FileInfo

/-- `shuffledDisks[index-1] = d`, `shuffledPartsMetadata[index-1] = m`. -/
def Shuffled.place (s : Shuffled) (index : ℤ) (d : Disk) (m : FileInfo) : Except Err Shuffled :=
  if 1 ≤ index ∧ index ≤ s.disks.length ∧ index ≤ s.metas.length then
    .ok ⟨s.disks.set (index - 1).toNat (some d), s.metas.set (index - 1).toNat m⟩
  else .error (.panic "index out of range")

/-- The loop of `shuffleDisksAndPartsMetadataByIndex` from disk `i` on. -/
def byIndexLoop (disks : List (Option Disk)) (fi : FileInfo) :
    ℕ → List FileInfo → ℤ → Shuffled → Except Err (ℤ × Shuffled)
  | _, [], inconsistent, s => .ok (inconsistent, s)
  | i, m :: rest, inconsistent, s =>
    match disks[i]? with
    | none => .error (.panic "index out of range")
    | some none => byIndexLoop disks fi (i + 1) rest (inconsistent + 1) s
    | some (some d) =>
      if !m.isValid then byIndexLoop disks fi (i + 1) rest (inconsistent + 1) s
      else if fi.data.length ≠ m.data.length then
        byIndexLoop disks fi (i + 1) rest (inconsistent + 1) s
      else
        match fi.erasure.distribution[i]? with
        | none => .error (.panic "index out of range")
        | some k =>
          if k ≠ m.erasure.index then byIndexLoop disks fi (i + 1) rest (inconsistent + 1) s
          else
            match s.place m.erasure.index d m with
            | .error err => .error err
            | .ok s' => byIndexLoop disks fi (i + 1) rest inconsistent s'

/-- The loop of `shuffleDisksAndPartsMetadata` from disk `i` on. -/
def distributionLoop (disks : List (Option Disk)) (fi : FileInfo) :
    ℕ → List FileInfo → Shuffled → Except Err Shuffled
  | _, [], s => .ok s
  | i, m :: rest, s =>
    let init := fi.modTime.isZero
    match disks[i]? with
    | none => .error (.panic "index out of range")
    | some none => distributionLoop disks fi (i + 1) rest s
    | some (some d) =>
      if !init && !m.isValid then distributionLoop disks fi (i + 1) rest s
      else if !init && fi.data.length ≠ m.data.length then distributionLoop disks fi (i + 1) rest s
      else
        match fi.erasure.distribution[i]? with
        | none => .error (.panic "index out of range")
        | some k =>
          match s.place k d m with
          | .error err => .error err
          | .ok s' => distributionLoop disks fi (i + 1) rest s'

section

variable (disks : List (Option Disk)) (metaArr : List FileInfo) (fi : FileInfo)

def shuffleDisksAndPartsMetadata : Except Err Shuffled :=
  distributionLoop disks fi 0 metaArr
    ⟨List.replicate disks.length none, List.replicate metaArr.length {}⟩

def shuffleDisksAndPartsMetadataByIndex : Except Err Shuffled :=
  match byIndexLoop disks fi 0 metaArr 0
    ⟨List.replicate disks.length none, List.replicate disks.length {}⟩ with
  | .error err => .error err
  | .ok (inconsistent, s) =>
    if inconsistent < fi.erasure.parityBlocks then .ok s
    else shuffleDisksAndPartsMetadata disks metaArr fi

/-! ### Parts -/

def partOffsetLoop : ℕ → List ObjectPartInfo → ℤ → Except Err (ℕ × ℤ)
  | _, [], _ => .error (.invalidRange 0 0 0)
  | i, part :: rest, partOffset =>
    if partOffset < part.size then .ok (i, partOffset)
    else partOffsetLoop (i + 1) rest (partOffset - part.size)

/-- `FileInfo.ObjectToPartOffset`: the part that has the byte at an offset, and where. -/
def objectToPartOffset (offset : ℤ) : Except Err (ℕ × ℤ) :=
  if offset = 0 then .ok (0, 0) else partOffsetLoop 0 fi.parts offset

end

structure ReedSolomonPkg where
  new : (dataShards parityShards : ℕ) → Except Err (ReedSolomon dataShards parityShards)

/-- `NewErasure`. A block size that is not positive makes a later division panic. -/
def newErasure (rs : ReedSolomonPkg) (dataBlocks parityBlocks blockSize : ℤ) :
    Except Err Erasure :=
  if h₁ : dataBlocks ≤ 0 ∨ parityBlocks ≤ 0 then .error (.new 2 "reedsolomon.ErrInvShardNum")
  else if h₂ : dataBlocks + parityBlocks > 256 then .error (.new 3 "reedsolomon.ErrMaxShardNum")
  else
    match rs.new dataBlocks.toNat parityBlocks.toNat with
    | .error err => .error err
    | .ok enc =>
      if h₃ : blockSize ≤ 0 then .error (.panic "integer divide by zero")
      else .ok
        { dataBlocks := dataBlocks.toNat
          parityBlocks := parityBlocks.toNat
          blockSize := blockSize.toNat
          encoder := enc
          dataBlocks_pos := by omega
          parityBlocks_pos := by omega
          shards_le := by omega
          blockSize_pos := by omega }

def partFile (e : Erasure) (bucket object : String) (partNumber : ℤ) (tillOffset : ℕ)
    (m : FileInfo) : PartFile :=
  ⟨m.data, bucket, object, m.dataDir, partNumber, tillOffset, m.erasure.getChecksumInfo partNumber,
    e.shardSize⟩

/-- The readers of a part: one for each online disk with a valid record. -/
def partReaders (file : FileInfo → PartFile) (s : Shuffled) : List (Option Reader) :=
  s.disks.mapIdx fun i disk =>
    match disk with
    | none => none
    | some d =>
      let m := s.metas.getD i {}
      if m.isValid then some (d.newBitrotReader (file m)) else none

def partPrefer (s : Shuffled) : List Bool :=
  s.disks.mapIdx fun i disk =>
    match disk with
    | none => false
    | some d => (s.metas.getD i {}).isValid && d.hostname = ""

/-- `madmin.HealScanMode`, as far as a read asks for it. -/
inductive HealScanMode
  | normal
  | deep
  deriving DecidableEq

/-- The scan that an error of `Decode` asks for. -/
def healScan (err : Err) : Option HealScanMode :=
  if err.is .fileNotFound then some .normal
  else if err.is .fileCorrupt then some .deep
  else none

/-- What a read leaves behind: the writer, its error, and the heal it started. -/
structure Got where
  sink : Sink
  err : Option Err
  heal : Option HealScanMode := none

/-- `onlineDisks[i] = OfflineDisk` for the readers that are gone. -/
def dropDisks (readers : List (Option Reader)) (disks : List (Option Disk)) :
    List (Option Disk) :=
  disks.mapIdx fun i d => if (readers.getD i none).isNone then none else d

/-- What a read is about. -/
structure ReadEnv where
  rs : ReedSolomonPkg
  cfg : Block.Config
  ρ : RangeOrder
  /-- Some disk of the set is being healed. -/
  healing : Bool
  bucket : String
  object : String

def partsLoop (env : ReadEnv) (e : Erasure) (fi : FileInfo) (length : ℤ) :
    ℕ → ℕ → Shuffled → ℤ → ℤ → Sink → Got
  | 0, _, _, _, _, writer => ⟨writer, none, none⟩
  | count + 1, partIndex, s, partOffset, totalBytesRead, writer =>
    if length = totalBytesRead then ⟨writer, none, none⟩
    else
      match fi.parts[partIndex]? with
      | none => ⟨writer, some (.panic "index out of range"), none⟩
      | some part =>
        let partLength :=
          if part.size - partOffset > length - totalBytesRead then length - totalBytesRead
          else part.size - partOffset
        let tillOffset :=
          e.shardFileOffset partOffset.toNat partLength.toNat part.size.toNat
        let readers := partReaders (partFile e env.bucket env.object part.number tillOffset) s
        let r := e.decode env.ρ writer readers partOffset partLength part.size (partPrefer s)
        match r.err with
        | some err =>
          let heal := if r.written = partLength ∧ !env.healing then healScan err else none
          ⟨r.sink, some (toObjectErr err), heal⟩
        | none =>
          partsLoop env e fi length count (partIndex + 1)
            { s with disks := dropDisks r.readers s.disks } 0 (totalBytesRead + partLength) r.sink

/-- `getObjectWithFileInfo`, for a start offset that is not negative (`GetObject` refuses
others). -/
def getObjectWithFileInfo (env : ReadEnv) (startOffset length : ℤ) (writer : Sink) (fi : FileInfo)
    (metaArr : List FileInfo) (onlineDisks : List (Option Disk)) : Got :=
  if fi.blocks.length > 0 then
    let r := Block.getBlockReplicatedObject env.cfg startOffset length writer fi
      (onlineDisks.map (Option.map Disk.readBlock))
    ⟨r.1, r.2, none⟩
  else
    match shuffleDisksAndPartsMetadataByIndex onlineDisks metaArr fi with
    | .error err => ⟨writer, some err, none⟩
    | .ok s =>
      let length := if length < 0 then int64 (fi.size - startOffset) else length
      let invalid : Got := ⟨writer, some (.invalidRange startOffset length fi.size), none⟩
      if startOffset > fi.size ∨ int64 (startOffset + length) > fi.size then invalid
      else
        match objectToPartOffset fi startOffset with
        | .error _ => invalid
        | .ok (partIndex, partOffset) =>
          let endOffset :=
            if length > 0 then int64 (startOffset + (length - 1)) else startOffset
          match objectToPartOffset fi endOffset with
          | .error _ => invalid
          | .ok (lastPartIndex, _) =>
            match newErasure env.rs fi.erasure.dataBlocks fi.erasure.parityBlocks
              fi.erasure.blockSize with
            | .error err => ⟨writer, some (toObjectErr err), none⟩
            | .ok e =>
              partsLoop env e fi length (lastPartIndex + 1 - partIndex) partIndex s partOffset 0
                writer

end Obstor.Coding
