import Obstor.Go.Streams
import Obstor.Lib.Sha256
import Obstor.Meta.FileInfo

/-!
# Content-addressed blocks

The replication setting (`cmd/config/replication/config.go`), the name of a block (`hashBlockData`,
`verifyBlockHash`, `isValidBlockHash` of `cmd/erasure-utils.go`), the reading of one block from the
first disk that has it (`BlockReplicator.ReadBlock`, `cmd/erasure-decode.go`), and the reading of a
range of an object (`getBlockReplicatedObject`, `cmd/erasure-object.go`).

The fields of `Config` that no modelled function reads are left out.
-/

namespace Obstor.Block

open Go Lib Meta List

/-! ### The replication setting -/

/-- `ConsistencyMode`; `unset` is the empty text of a setting that was never made. -/
inductive ConsistencyMode
  | consistent
  | degraded
  | dangerous
  | unset
  deriving DecidableEq

structure Config where
  replicationFactor : ℤ
  consistency : ConsistencyMode
  blockSize : ℤ
  deriving DecidableEq

namespace Config

def writeQuorum (c : Config) : ℤ :=
  match c.consistency with
  | .dangerous => 1
  | _ =>
    if c.replicationFactor ≤ 1 then 1
    else if c.replicationFactor = 2 then 2
    else c.replicationFactor / 2 + 1

def readQuorum (c : Config) : ℤ :=
  match c.consistency with
  | .dangerous => 1
  | .degraded => 1
  | _ => if c.replicationFactor ≤ 2 then 1 else c.replicationFactor / 2 + 1

lemma readQuorum_pos (c : Config) : 0 < c.readQuorum := by
  unfold readQuorum
  cases c.consistency <;> simp only <;> (try split_ifs) <;> omega

/-- The block size that readers and writers use. -/
def effectiveBlockSize (c : Config) : ℤ := if c.blockSize ≤ 0 then 1048576 else c.blockSize

/-- The block sizes that `LookupConfig` accepts.
Source: `cmd/config/replication/lookup.go` -/
def AcceptsBlockSize (b : ℤ) : Prop := 64 * 1024 ≤ b ∧ b ≤ 64 * 1024 * 1024

end Config

/-! ### The name of a block -/

/-- `hashBlockData`: the SHA-256 text of the data. -/
def hashBlockData (data : Bytes) : String := Sha256.hexDigest data

def verifyBlockHash (data : Bytes) (expectedHash : String) : Option Err :=
  let actual := hashBlockData data
  if actual ≠ expectedHash then
    some (.new 0 s!"block hash mismatch: expected {expectedHash}, got {actual}")
  else none

/-- `isValidBlockHash`: 64 lower-case hexadecimal digits. -/
def isValidBlockHash (hash : String) : Bool :=
  (stringBytes hash).length = 64 &&
    (stringBytes hash).all fun c => (48 ≤ c && c ≤ 57) || (97 ≤ c && c ≤ 102)

lemma utf8EncodeChar_hexDigit : ∀ d < 16, ∃ c : UInt8,
    String.utf8EncodeChar (HexId.hexDigit d) = [c] ∧
      ((48 ≤ c && c ≤ 57) || (97 ≤ c && c ≤ 102)) := by
  intro d hd
  refine ⟨(String.utf8EncodeChar (HexId.hexDigit d)).headD 0, ?_⟩
  revert d
  decide

lemma isValidBlockHash_hashBlockData (data : Bytes) : isValidBlockHash (hashBlockData data) := by
  have hlist : hashBlockData data = String.ofList (hashBlockData data).toList := by simp
  have hchars : ∀ c ∈ (hashBlockData data).toList, ∃ d < 16, c = HexId.hexDigit d :=
    fun c hc => Sha256.mem_hexDigest hc
  have hbytes : ∀ cs : List Char, (∀ c ∈ cs, ∃ d < 16, c = HexId.hexDigit d) →
      (cs.flatMap String.utf8EncodeChar).length = cs.length ∧
      (cs.flatMap String.utf8EncodeChar).all
        (fun c => (48 ≤ c && c ≤ 57) || (97 ≤ c && c ≤ 102)) := by
    intro cs
    induction cs with
    | nil => exact fun _ => ⟨rfl, rfl⟩
    | cons c cs ih =>
      intro hcs
      obtain ⟨d, hd, rfl⟩ := hcs c mem_cons_self
      obtain ⟨b, hb, hrange⟩ := utf8EncodeChar_hexDigit d hd
      obtain ⟨hlen, hall⟩ := ih fun c' hc' => hcs c' (mem_cons_of_mem _ hc')
      rw [flatMap_cons, hb]
      refine ⟨by simp [hlen], ?_⟩
      rw [singleton_append, all_cons, hrange, hall]
      rfl
  obtain ⟨hlen, hall⟩ := hbytes _ hchars
  unfold isValidBlockHash
  rw [hlist, stringBytes_ofList, hall, hlen,
    show (hashBlockData data).toList.length = 64 from Sha256.toList_hexDigest_length data]
  rfl

/-! ### Reading a block -/

/-- What a disk gives for the name of a block. -/
abbrev BlockSource := String → Except Err Bytes

/-- The loop of `BlockReplicator.ReadBlock`: the first source whose data has the right hash. -/
def readBlockLoop (blockHash : String) : Option Err → List (Option BlockSource) → Except Err Bytes
  | some lastErr, [] => .error lastErr
  | none, [] => .error (.new 1 s!"block {blockHash}: no available source disks")
  | lastErr, none :: rest => readBlockLoop blockHash lastErr rest
  | _, some disk :: rest =>
    match disk blockHash with
    | .error err => readBlockLoop blockHash (some err) rest
    | .ok data =>
      match verifyBlockHash data blockHash with
      | some err => readBlockLoop blockHash (some err) rest
      | none => .ok data

def readBlock (blockHash : String) (sources : List (Option BlockSource)) : Except Err Bytes :=
  readBlockLoop blockHash none sources

/-- The disk gives data that has the right hash. -/
def Provides (disk : BlockSource) (blockHash : String) (data : Bytes) : Prop :=
  disk blockHash = .ok data ∧ hashBlockData data = blockHash

variable {data : Bytes} {blockHash : String}

lemma verifyBlockHash_eq_none_iff :
    verifyBlockHash data blockHash = none ↔ hashBlockData data = blockHash := by
  unfold verifyBlockHash
  simp

variable {sources : List (Option BlockSource)}

lemma readBlockLoop_ok {lastErr : Option Err}
    (h : readBlockLoop blockHash lastErr sources = .ok data) :
    ∃ disk, some disk ∈ sources ∧ Provides disk blockHash data := by
  induction sources generalizing lastErr with
  | nil => cases lastErr <;> cases h
  | cons source rest ih =>
    have hrest : ∀ {lastErr}, readBlockLoop blockHash lastErr rest = .ok data →
        ∃ disk, some disk ∈ source :: rest ∧ Provides disk blockHash data := by
      intro lastErr h
      obtain ⟨disk, hmem, hp⟩ := ih h
      exact ⟨disk, mem_cons_of_mem _ hmem, hp⟩
    rcases source with _ | disk
    · rw [readBlockLoop] at h
      exact hrest h
    · rw [readBlockLoop] at h
      rcases hd : disk blockHash with err | data'
      · simp only [hd] at h
        exact hrest h
      · rcases hv : verifyBlockHash data' blockHash with _ | err
        · simp only [hd, hv] at h
          cases h
          exact ⟨disk, mem_cons_self, hd, verifyBlockHash_eq_none_iff.mp hv⟩
        · simp only [hd, hv] at h
          exact hrest h

lemma readBlockLoop_of_provides
    (lastErr : Option Err) {disk : BlockSource} (hmem : some disk ∈ sources)
    (hp : Provides disk blockHash data) :
    ∃ data', readBlockLoop blockHash lastErr sources = .ok data' := by
  induction sources generalizing lastErr with
  | nil => cases hmem
  | cons source rest ih =>
    rcases source with _ | disk'
    · rw [readBlockLoop]
      exact ih lastErr (by simpa using hmem)
    · have hhere : ∀ data', disk' blockHash = .ok data' → verifyBlockHash data' blockHash = none →
          ∃ data', readBlockLoop blockHash lastErr (some disk' :: rest) = .ok data' := by
        intro data' hd hv
        exact ⟨data', by rw [readBlockLoop]; simp only [hd, hv]⟩
      rcases mem_cons.mp hmem with heq | hmem
      · cases heq
        exact hhere data hp.1 (verifyBlockHash_eq_none_iff.mpr hp.2)
      · rcases hd : disk' blockHash with err | data'
        · rw [readBlockLoop]
          simp only [hd]
          exact ih _ hmem
        · rcases hv : verifyBlockHash data' blockHash with _ | err
          · exact hhere data' hd hv
          · rw [readBlockLoop]
            simp only [hd, hv]
            exact ih _ hmem

lemma readBlock_ok_iff : (∃ data, readBlock blockHash sources = .ok data) ↔
      ∃ disk data, some disk ∈ sources ∧ Provides disk blockHash data := by
  constructor
  · rintro ⟨data, h⟩
    obtain ⟨disk, hmem, hp⟩ := readBlockLoop_ok h
    exact ⟨disk, data, hmem, hp⟩
  · rintro ⟨disk, data, hmem, hp⟩
    exact readBlockLoop_of_provides none hmem hp

/-! ### Reading a range -/

/-- `BlockReplicator.BlockRange`: the indices of the first and the last block of a range. -/
def blockRange (blockSize offset length totalSize : ℤ) : ℤ × ℤ :=
  if length ≤ 0 ∨ totalSize ≤ 0 then (0, 0)
  else
    let fin := int64 (int64 (offset + length) - 1)
    let fin := if fin ≥ totalSize then totalSize - 1 else fin
    (offset.tdiv blockSize, fin.tdiv blockSize)

/-- `blockSliceBounds`: the part of a block that is to be written. -/
def blockSliceBounds (blockStart startOffset length written blkSize : ℤ) : Except Err (ℤ × ℤ) :=
  let readFrom := if blockStart < startOffset then startOffset - blockStart else 0
  let remaining := length - written
  let readTo := if blkSize - readFrom > remaining then readFrom + remaining else blkSize
  if readFrom > blkSize ∨ readTo > blkSize ∨ readTo < readFrom then
    .error (.wrap 0 s!"block window [{readFrom}:{readTo}] outside block of {blkSize} bytes"
      .fileCorrupt)
  else .ok (readFrom, readTo)

/-- The loop of `getBlockReplicatedObject` over `count` blocks from `i` on. -/
def readBlocksLoop (blockSize startOffset length : ℤ) (refs : List BlockRef)
    (sources : List (Option BlockSource)) : ℕ → ℕ → Sink → ℤ → Sink × Option Err
  | 0, _, writer, _ => (writer, none)
  | count + 1, i, writer, written =>
    match refs[i]? with
    | none => (writer, none)
    | some blk =>
      match readBlock blk.hash sources with
      | .error err => (writer, some (toObjectErr err))
      | .ok data =>
        if (data.length : ℤ) ≠ blk.size then (writer, some (toObjectErr .fileCorrupt))
        else
          match blockSliceBounds (i * blockSize) startOffset length written blk.size with
          | .error _ => (writer, some (toObjectErr .fileCorrupt))
          | .ok (readFrom, readTo) =>
            let piece := slice readFrom.toNat (readTo - readFrom).toNat data
            match writer.write piece with
            | (writer', some err) => (writer', some err)
            | (writer', none) =>
              readBlocksLoop blockSize startOffset length refs sources count (i + 1) writer'
                (written + piece.length)

/-- `getBlockReplicatedObject`, for a start offset that is not negative (`GetObject` refuses
others). -/
def getBlockReplicatedObject (cfg : Config) (startOffset length : ℤ) (writer : Sink)
    (fi : FileInfo) (sources : List (Option BlockSource)) : Sink × Option Err :=
  let length := if length < 0 then int64 (fi.size - startOffset) else length
  if startOffset > fi.size ∨ int64 (startOffset + length) > fi.size then
    (writer, some (.invalidRange startOffset length fi.size))
  else
    let blockSize := cfg.effectiveBlockSize
    let (startBlock, endBlock) := blockRange blockSize startOffset length fi.size
    readBlocksLoop blockSize startOffset length fi.blocks sources
      (endBlock + 1 - startBlock).toNat startBlock.toNat writer 0

end Obstor.Block
