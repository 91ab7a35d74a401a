import Obstor.Go.Values

/-!
# `FileInfo`: the metadata of one version on one disk

The record that every layer passes around (`cmd/storage-datatypes.go`, `FileInfo`), its erasure
and block-replication parts, and its validity test `FileInfo.IsValid`
(`cmd/erasure-metadata.go`). The field `Mode`, which no modelled function reads, is left out.

`isXLMetaErasureInfoValid` (`cmd/xl-storage-format-v1.go`), the journal's own test of an erasure
geometry, is weaker than the one inside `IsValid`: it lets the parity be zero.
-/

namespace Obstor.Meta

open Go

/-- The version id that stands for "no version id" in the API. -/
def nullVersionID : String := "null"

/-- Metadata keys with this prefix are internal.
Source: `cmd/generic-handlers.go` -/
def reservedMetadataPrefixLower : String := "x-obstor-internal-"

/-- The lower case of a character, as far as an ASCII text can tell: two letters outside ASCII
have an ASCII lower case. -/
def lowerChar (c : Char) : Char :=
  if c = '\u0130' then 'i' else if c = '\u212a' then 'k' else c.toLower

/-- `strings.HasPrefix(strings.ToLower(k), ReservedMetadataPrefixLower)`. -/
def isReserved (k : String) : Bool :=
  reservedMetadataPrefixLower.toList.isPrefixOf (k.toList.map lowerChar)

/-- The letter a character folds to, as far as an ASCII text can tell. -/
def foldChar (c : Char) : Char :=
  if c = '\u017f' then 's' else if c = '\u212a' then 'k' else c.toLower

/-- `strings.EqualFold` with an ASCII second text.
Source: `cmd/bucket-replication.go`, `equals` -/
def equalFold (k k₂ : String) : Bool := k.toList.map foldChar = k₂.toList.map foldChar

/-- A part of an object.
Source: `cmd/xl-storage-format-v1.go`, `ObjectPartInfo` -/
structure ObjectPartInfo where
  etag : String := ""
  number : ℤ := 0
  size : ℤ := 0
  actualSize : ℤ := 0
  deriving DecidableEq

/-- The bitrot algorithms.
Source: `cmd/xl-storage-format-v1.go`, `BitrotAlgorithm` -/
inductive BitrotAlgorithm
  | unset
  | sha256
  | highwayHash256
  | highwayHash256S
  | blake2b512
  deriving DecidableEq

/-- The checksum of a part.
Source: `cmd/xl-storage-format-v1.go`, `ChecksumInfo` -/
structure ChecksumInfo where
  partNumber : ℤ := 0
  algorithm : BitrotAlgorithm := .unset
  hash : Bytes := []
  deriving DecidableEq

/-- The erasure geometry of a version.
Source: `cmd/xl-storage-format-v1.go`, `ErasureInfo` -/
structure ErasureInfo where
  algorithm : String := ""
  dataBlocks : ℤ := 0
  parityBlocks : ℤ := 0
  blockSize : ℤ := 0
  index : ℤ := 0
  distribution : List ℤ := []
  checksums : List ChecksumInfo := []
  deriving DecidableEq

/-- `GetChecksumInfo`: the checksum recorded for a part, or the zero value.
Source: `cmd/erasure-metadata.go` -/
def ErasureInfo.getChecksumInfo (e : ErasureInfo) (partNumber : ℤ) : ChecksumInfo :=
  (e.checksums.find? fun sum => sum.partNumber = partNumber).getD {}

/-- A reference to a content-addressed block.
Source: `cmd/erasure-utils.go`, `BlockRef` -/
structure BlockRef where
  hash : String := ""
  size : ℤ := 0
  index : ℤ := 0
  deriving DecidableEq

/-- The texts of the known purge statuses; the empty one is no status. -/
def knownPurgeTexts : List String := ["", "PENDING", "COMPLETE", "FAILED"]

/-- Status of a versioned delete with respect to replication. Any other text is kept.
Source: `cmd/storage-datatypes.go`, `VersionPurgeStatusType` -/
inductive VersionPurgeStatus
  | empty
  | pending
  | complete
  | failed
  | other (text : {s : String // s ∉ knownPurgeTexts})
  deriving DecidableEq

def VersionPurgeStatus.text : VersionPurgeStatus → String
  | .empty => ""
  | .pending => "PENDING"
  | .complete => "COMPLETE"
  | .failed => "FAILED"
  | .other s => s.val

/-- The purge status a text stands for. -/
def VersionPurgeStatus.ofText (s : String) : VersionPurgeStatus :=
  if h : s ∈ knownPurgeTexts then
    if s = "" then .empty
    else if s = "PENDING" then .pending
    else if s = "COMPLETE" then .complete
    else .failed
  else .other ⟨s, h⟩

/-- The metadata of one version as one disk reports it.
Source: `cmd/storage-datatypes.go`, `FileInfo` -/
structure FileInfo where
  volume : String := ""
  name : String := ""
  versionID : String := ""
  isLatest : Bool := false
  deleted : Bool := false
  transitionStatus : String := ""
  dataDir : String := ""
  xlv1 : Bool := false
  modTime : Time := .zero
  size : ℤ := 0
  metadata : GoMap String := none
  parts : List ObjectPartInfo := []
  erasure : ErasureInfo := {}
  blocks : List BlockRef := []
  markDeleted : Bool := false
  deleteMarkerReplicationStatus : String := ""
  versionPurgeStatus : VersionPurgeStatus := .empty
  data : Bytes := []
  numVersions : ℤ := 0
  successorModTime : Time := .zero
  deriving DecidableEq

/-- The journal's test of data and parity counts.
Source: `cmd/xl-storage-format-v1.go`, `isXLMetaErasureInfoValid` -/
def isXLMetaErasureInfoValid (data parity : ℤ) : Bool := data ≥ parity && data ≠ 0

/-- `FileInfo.IsValid`: a delete marker and a version with a block list always are; an
erasure-coded version needs a consistent geometry.
Source: `cmd/erasure-metadata.go` -/
def FileInfo.isValid (fi : FileInfo) : Bool :=
  if fi.deleted then true
  else if fi.blocks.length > 0 then true
  else
    let dataBlocks := fi.erasure.dataBlocks
    let parityBlocks := fi.erasure.parityBlocks
    let correctIndexes := fi.erasure.index > 0 && fi.erasure.index ≤ dataBlocks + parityBlocks &&
      (fi.erasure.distribution.length : ℤ) = dataBlocks + parityBlocks
    dataBlocks ≥ parityBlocks && dataBlocks ≠ 0 && parityBlocks ≠ 0 && correctIndexes

lemma FileInfo.isValid_zero : ({} : FileInfo).isValid = false := rfl

lemma FileInfo.isValid_of_blocks {fi : FileInfo} (h : fi.blocks ≠ []) : fi.isValid = true := by
  unfold FileInfo.isValid
  by_cases hd : fi.deleted = true
  · rw [if_pos hd]
  · rw [if_neg hd, if_pos (List.length_pos_of_ne_nil h)]

end Obstor.Meta
