import Obstor.Block.Replicator
import Obstor.Quorum.Reduce

/-!
# Putting a block-replicated object

`putBlockReplicatedObject` (`cmd/erasure-object.go`) cuts the stream into blocks, writes each block
to all disks, and then the metadata to all disks. Each call on a disk may fail, before or after it
took effect (`Fault`).
-/

namespace Obstor.Block

open Go Lib Meta Quorum List

/-! ### Disks -/

/-- A disk, as far as one object is concerned: its block files by name, and what `ReadVersion` gives
for the object. -/
structure BlockDisk where
  files : List (String × Bytes)
  info : Except Err FileInfo

namespace BlockDisk

def file (d : BlockDisk) (hash : String) : Option Bytes :=
  (d.files.find? fun f => f.1 = hash).map Prod.snd

/-- `xlStorage.WriteBlock`: a block that is there is not written again.
Source: `cmd/xl-storage.go` -/
def writeBlock (d : BlockDisk) (hash : String) (data : Bytes) : BlockDisk × Option Err :=
  if !isValidBlockHash hash then (d, some .invalidArgument)
  else
    match verifyBlockHash data hash with
    | some err => (d, some err)
    | none =>
      match d.file hash with
      | some _ => (d, none)
      | none => ({ d with files := (hash, data) :: d.files }, none)

/-- `xlStorage.ReadBlock`.
Source: `cmd/xl-storage.go` -/
def readBlock (d : BlockDisk) : BlockSource := fun hash =>
  if !isValidBlockHash hash then .error .invalidArgument
  else
    match d.file hash with
    | none => .error .fileNotFound
    | some data => .ok data

/-- `WriteMetadata`: the version becomes the one that `ReadVersion` gives. -/
def writeMetadata (d : BlockDisk) (fi : FileInfo) : BlockDisk × Option Err :=
  ({ d with info := .ok fi }, none)

end BlockDisk

/-- A call that fails, and whether it took effect all the same. -/
structure Fault where
  err : Err
  applied : Bool

/-- A call on a disk of the set; a nil disk is not there. -/
def callDisk (fault : Option Fault) (call : BlockDisk → BlockDisk × Option Err) :
    Option BlockDisk → Option BlockDisk × Option Err
  | none => (none, some .diskNotFound)
  | some d =>
    match fault with
    | none => (some (call d).1, (call d).2)
    | some f => (some (if f.applied then (call d).1 else d), some f.err)

def callDisks (faults : ℕ → Option Fault) (call : BlockDisk → BlockDisk × Option Err)
    (disks : List (Option BlockDisk)) : List (Option BlockDisk) × List (Option Err) :=
  (disks.mapIdx fun i d => (callDisk (faults i) call d).1,
    disks.mapIdx fun i d => (callDisk (faults i) call d).2)

/-- `BlockReplicator.WriteBlock`. -/
def writeBlockToDisks (ρ : RangeOrder) (faults : ℕ → Option Fault) (blockHash : String)
    (data : Bytes) (disks : List (Option BlockDisk)) (writeQuorum : ℤ) :
    List (Option BlockDisk) × Option Err :=
  let r := callDisks faults (fun d => d.writeBlock blockHash data) disks
  let successes := r.2.count none
  if (successes : ℤ) ≥ writeQuorum then (r.1, none)
  else (r.1, reduceWriteQuorumErrs ρ r.2 objectOpIgnoredErrs writeQuorum)

/-! ### The put -/

/-- What a put is given besides its stream: the object, the setting, the time, the fresh
identifiers and the values the request carries. -/
structure PutOptions where
  bucket : String
  object : String
  /-- The length the client announced, `-1` if unknown. -/
  size : ℤ
  actualSize : ℤ
  parentIsObject : Bool
  /-- The error of `GetLock`. -/
  lockErr : Option Err
  /-- `opts.MTime`, or the current time. -/
  modTime : Time
  versioned : Bool
  versionID : String
  /-- What `mustGetUUID` gives for the version. -/
  newVersionID : String
  /-- What `mustGetUUID` gives for the data directory. -/
  newDataDir : String
  userDefined : GoMap String
  md5Hex : String
  mimeType : String

/-- How the calls of a put on the disks fail: for block number `k` on disk `i`, and for the metadata
on disk `i`. -/
structure PutFaults where
  block : ℕ → ℕ → Option Fault
  metadata : ℕ → Option Fault

/-- The loop over the stream: every chunk is written to the disks and listed. -/
def chunkLoop (ρ : RangeOrder) (faults : ℕ → ℕ → Option Fault) (writeQuorum : ℤ) (blockSize : ℕ)
    (hb : 0 < blockSize) (src : Source) (disks : List (Option BlockDisk)) (refs : List BlockRef)
    (totalSize : ℤ) (idx : ℕ) : List (Option BlockDisk) × Except Err (List BlockRef × ℤ) :=
  let r := src.readFull blockSize
  match _h : r.fin with
  | .failed err => (disks, .error err)
  | .eof =>
    if r.bytes.length = 0 then (disks, .ok (refs, totalSize))
    else
      let w := writeBlockToDisks ρ (faults idx) (hashBlockData r.bytes) r.bytes disks writeQuorum
      match w.2 with
      | some err => (w.1, .error (toObjectErr err))
      | none => (w.1, .ok (refs ++ [⟨hashBlockData r.bytes, r.bytes.length, idx⟩],
          totalSize + r.bytes.length))
  | .full =>
    let w := writeBlockToDisks ρ (faults idx) (hashBlockData r.bytes) r.bytes disks writeQuorum
    match w.2 with
    | some err => (w.1, .error (toObjectErr err))
    | none =>
      chunkLoop ρ faults writeQuorum blockSize hb r.rest w.1
        (refs ++ [⟨hashBlockData r.bytes, r.bytes.length, idx⟩]) (totalSize + r.bytes.length)
        (idx + 1)
termination_by src.data.length
decreasing_by exact Source.length_rest_lt hb _h

/-- An entry of the metadata, with a value for the empty text. -/
def withDefault (m : List (String × String)) (k v : String) : List (String × String) :=
  if ((m.find? fun p => p.1 = k).map Prod.snd).getD "" = "" then GoMap.insertEntry k v m else m

/-- The metadata record of the put. -/
def putFileInfo (blockSize : ℤ) (opts : PutOptions) (refs : List BlockRef) (totalSize : ℤ) :
    FileInfo where
  volume := opts.bucket
  name := opts.object
  size := totalSize
  modTime := opts.modTime
  blocks := refs
  erasure :=
    { algorithm := "block-replication"
      dataBlocks := 1
      parityBlocks := 0
      blockSize := blockSize
      index := 1
      distribution := [1] }
  versionID :=
    if opts.versioned then if opts.versionID = "" then opts.newVersionID else opts.versionID else ""
  dataDir := opts.newDataDir
  metadata := some (withDefault (withDefault (opts.userDefined.getD []) "etag" opts.md5Hex)
    "content-type" opts.mimeType)
  parts := [{ number := 1, size := totalSize, actualSize := opts.actualSize }]

/-- The goroutine of `writeUniqueFileInfo` for the disk at index `i`; a record with a block list
keeps its erasure index. -/
def writeFileInfo (fault : Option Fault) (fi : FileInfo) (i : ℕ) :
    Option BlockDisk → Option BlockDisk × Option Err
  | none => (none, some .diskNotFound)
  | some d =>
    let fi :=
      if fi.blocks.length = 0 then { fi with erasure := { fi.erasure with index := i + 1 } } else fi
    if fi.isValid then callDisk fault (fun d => d.writeMetadata fi) (some d)
    else (some d, some .corruptedFormat)

/-- `writeUniqueFileInfo`, with the same record for all disks.
Source: `cmd/erasure-metadata.go` -/
def writeUniqueFileInfo (ρ : RangeOrder) (faults : ℕ → Option Fault) (fi : FileInfo)
    (disks : List (Option BlockDisk)) (quorum : ℤ) : List (Option BlockDisk) × Option Err :=
  (disks.mapIdx fun i d => (writeFileInfo (faults i) fi i d).1,
    reduceWriteQuorumErrs ρ (disks.mapIdx fun i d => (writeFileInfo (faults i) fi i d).2)
      objectOpIgnoredErrs quorum)

lemma effectiveBlockSize_pos (cfg : Config) : 0 < cfg.effectiveBlockSize.toNat := by
  unfold Config.effectiveBlockSize
  split_ifs <;> omega

/-- `putBlockReplicatedObject`: the disks afterwards, and the metadata of the object or an error. -/
def putBlockReplicatedObject (cfg : Config) (ρ : RangeOrder) (faults : PutFaults)
    (opts : PutOptions) (src : Source) (disks : List (Option BlockDisk)) :
    List (Option BlockDisk) × Except Err FileInfo :=
  if opts.size < -1 then (disks, .error (toObjectErr .invalidArgument))
  else if opts.parentIsObject then (disks, .error (toObjectErr .fileParentIsFile))
  else
    let c := chunkLoop ρ faults.block cfg.writeQuorum cfg.effectiveBlockSize.toNat
      (effectiveBlockSize_pos cfg) src disks [] 0 0
    match c.2 with
    | .error err => (c.1, .error err)
    | .ok (refs, totalSize) =>
      match opts.lockErr with
      | some err => (c.1, .error err)
      | none =>
        let fi := putFileInfo cfg.effectiveBlockSize opts refs totalSize
        let w := writeUniqueFileInfo ρ faults.metadata fi c.1 cfg.writeQuorum
        match w.2 with
        | some err => (w.1, .error (toObjectErr err))
        | none => (w.1, .ok fi)

/-! ### The list of blocks -/

/-- The entries for blocks that stand from index `idx` on. -/
def refsFrom (idx : ℕ) : List Bytes → List BlockRef
  | [] => []
  | blk :: rest => ⟨hashBlockData blk, blk.length, idx⟩ :: refsFrom (idx + 1) rest

def chunkRefs (blockSize : ℕ) (data : Bytes) : List BlockRef := refsFrom 0 (blocks blockSize data)

lemma refsFrom_length (idx : ℕ) (bs : List Bytes) : (refsFrom idx bs).length = bs.length := by
  induction bs generalizing idx with
  | nil => rfl
  | cons blk rest ih => simp [refsFrom, ih]

lemma refsFrom_getElem? (idx : ℕ) (bs : List Bytes) (i : ℕ) : (refsFrom idx bs)[i]? =
      bs[i]?.map fun blk => ⟨hashBlockData blk, blk.length, ((idx + i : ℕ) : ℤ)⟩ := by
  induction bs generalizing idx i with
  | nil => simp [refsFrom]
  | cons blk rest ih =>
    cases i with
    | zero => simp [refsFrom]
    | succ i =>
      rw [refsFrom, getElem?_cons_succ, getElem?_cons_succ, ih, add_right_comm, add_assoc]

/-- The loop over a stream that ends well, as a recursion over its blocks. -/
def chunkFold (ρ : RangeOrder) (faults : ℕ → ℕ → Option Fault) (writeQuorum : ℤ) :
    List Bytes → List (Option BlockDisk) → List BlockRef → ℤ → ℕ →
      List (Option BlockDisk) × Except Err (List BlockRef × ℤ)
  | [], disks, refs, totalSize, _ => (disks, .ok (refs, totalSize))
  | blk :: rest, disks, refs, totalSize, idx =>
    let w := writeBlockToDisks ρ (faults idx) (hashBlockData blk) blk disks writeQuorum
    match w.2 with
    | some err => (w.1, .error (toObjectErr err))
    | none => chunkFold ρ faults writeQuorum rest w.1
        (refs ++ [⟨hashBlockData blk, blk.length, idx⟩]) (totalSize + blk.length) (idx + 1)

section ChunkLoop

variable (ρ : RangeOrder) (faults : ℕ → ℕ → Option Fault) (writeQuorum : ℤ) {blockSize : ℕ}
  (hb : 0 < blockSize)

lemma chunkLoop_eq (data : Bytes) (srcErr : Option Err) (disks : List (Option BlockDisk))
    (refs : List BlockRef) (totalSize : ℤ) (idx : ℕ) :
    (srcErr = none →
      chunkLoop ρ faults writeQuorum blockSize hb ⟨data, srcErr⟩ disks refs totalSize idx =
        chunkFold ρ faults writeQuorum (blocks blockSize data) disks refs totalSize idx) ∧
    (srcErr ≠ none → ∃ err, (chunkLoop ρ faults writeQuorum blockSize hb ⟨data, srcErr⟩ disks refs
      totalSize idx).2 = .error err) := by
  induction hn : data.length using Nat.strong_induction_on generalizing data disks refs totalSize
    idx with
  | _ n ih =>
    rw [chunkLoop]
    by_cases hle : blockSize ≤ data.length
    · have hne : data ≠ [] := ne_nil_of_length_pos (by omega)
      rw [Source.readFull_of_le hle, blocks_cons hb hne, chunkFold]
      simp only
      generalize writeBlockToDisks ρ (faults idx) (hashBlockData (data.take blockSize))
        _ disks writeQuorum = w
      rcases hw : w.2 with _ | err
      · exact ih _ (by rw [length_drop]; omega) _ _ _ _ _ rfl
      · exact ⟨fun _ => rfl, fun _ => ⟨_, rfl⟩⟩
    · rw [Source.readFull_of_lt (by simp only; omega)]
      cases srcErr with
      | some err => exact ⟨(fun h => by cases h), fun _ => ⟨_, rfl⟩⟩
      | none =>
        refine ⟨fun _ => ?_, fun h => absurd rfl h⟩
        by_cases hnil : data = []
        · rw [hnil, blocks_nil hb]
          rfl
        · rw [if_neg (fun h => hnil (length_eq_zero_iff.mp h)), blocks_of_length_le hnil (by omega)]
          rfl

end ChunkLoop

variable {ρ : RangeOrder} {disks : List (Option BlockDisk)}

section

variable {faults : ℕ → ℕ → Option Fault} {writeQuorum : ℤ} {r : List BlockRef × ℤ}

lemma chunkFold_ok {bs : List Bytes} {refs : List BlockRef} {totalSize : ℤ} {idx : ℕ}
    (h : (chunkFold ρ faults writeQuorum bs disks refs totalSize idx).2 = .ok r) :
    r = (refs ++ refsFrom idx bs, totalSize + bs.flatten.length) := by
  induction bs generalizing disks refs totalSize idx with
  | nil =>
    cases h
    simp [refsFrom]
  | cons blk rest ih =>
    rw [chunkFold] at h
    revert h
    split
    · intro h
      cases h
    · intro h
      rw [ih h, refsFrom]
      simp [add_assoc]

lemma chunkLoop_ok {blockSize : ℕ} {hb : 0 < blockSize} {src : Source}
    (h : (chunkLoop ρ faults writeQuorum blockSize hb src disks [] 0 0).2 = .ok r) :
    r = (chunkRefs blockSize src.data, (src.data.length : ℤ)) ∧
      chunkLoop ρ faults writeQuorum blockSize hb src disks [] 0 0 =
        chunkFold ρ faults writeQuorum (blocks blockSize src.data) disks [] 0 0 := by
  obtain ⟨data, _ | err⟩ := src
  · rw [(chunkLoop_eq ..).1 rfl] at h ⊢
    refine ⟨?_, rfl⟩
    rw [chunkFold_ok h, flatten_blocks hb, zero_add]
    rfl
  · obtain ⟨err', herr⟩ :=
      (chunkLoop_eq ρ faults writeQuorum hb data (some err) disks [] 0 0).2 (by simp)
    rw [herr] at h
    cases h

end

lemma putBlockReplicatedObject_ok {cfg : Config} {faults : PutFaults}
    {opts : PutOptions} {src : Source} {disks' : List (Option BlockDisk)} {fi : FileInfo}
    (h : putBlockReplicatedObject cfg ρ faults opts src disks = (disks', .ok fi)) :
    fi = putFileInfo cfg.effectiveBlockSize opts
        (chunkRefs cfg.effectiveBlockSize.toNat src.data) src.data.length ∧
      (∃ r, (chunkFold ρ faults.block cfg.writeQuorum
        (blocks cfg.effectiveBlockSize.toNat src.data) disks [] 0 0).2 = .ok r) ∧
      writeUniqueFileInfo ρ faults.metadata fi
        (chunkFold ρ faults.block cfg.writeQuorum (blocks cfg.effectiveBlockSize.toNat src.data)
          disks [] 0 0).1 cfg.writeQuorum = (disks', none) := by
  unfold putBlockReplicatedObject at h
  split_ifs at h
  · simp at h
  · simp at h
  rcases hc : (chunkLoop ρ faults.block cfg.writeQuorum cfg.effectiveBlockSize.toNat
    (effectiveBlockSize_pos cfg) src disks [] 0 0).2 with err | ⟨refs, totalSize⟩
  · simp [hc] at h
  · obtain ⟨hr, hfold⟩ := chunkLoop_ok hc
    obtain ⟨rfl, rfl⟩ := hr
    rw [hfold] at hc h
    simp only [hc] at h
    rcases hl : opts.lockErr with _ | err
    · simp only [hl] at h
      generalize hw : writeUniqueFileInfo ρ faults.metadata _ _ cfg.writeQuorum = w at h
      obtain ⟨disks₁, _ | err⟩ := w
      · obtain ⟨rfl, rfl⟩ := h
        exact ⟨rfl, ⟨_, hc⟩, hw⟩
      · simp at h
    · simp [hl] at h

/-! ### Storing a block -/

namespace BlockDisk

def store (d : BlockDisk) (blk : Bytes) : BlockDisk := (d.writeBlock (hashBlockData blk) blk).1

lemma writeBlock_hashBlockData (d : BlockDisk) (blk : Bytes) :
    (d.writeBlock (hashBlockData blk) blk).2 = none := by
  unfold writeBlock
  rw [isValidBlockHash_hashBlockData, verifyBlockHash_eq_none_iff.mpr rfl]
  simp only [Bool.not_true, Bool.false_eq_true, if_false]
  split <;> rfl

lemma file_store_of_none {d : BlockDisk} {blk : Bytes} (h : d.file (hashBlockData blk) = none) :
    d.store blk = { d with files := (hashBlockData blk, blk) :: d.files } := by
  unfold store writeBlock
  rw [isValidBlockHash_hashBlockData, verifyBlockHash_eq_none_iff.mpr rfl, h]
  rfl

lemma file_store_of_some {d : BlockDisk} {blk data : Bytes}
    (h : d.file (hashBlockData blk) = some data) : d.store blk = d := by
  unfold store writeBlock
  rw [isValidBlockHash_hashBlockData, verifyBlockHash_eq_none_iff.mpr rfl, h]
  rfl

end BlockDisk

/-! ### Faulty disks -/

/-- The calls on some of the disks fail without an effect. -/
def failing (down : ℕ → Bool) : ℕ → Option Fault := fun i =>
  if down i then some ⟨.faultyDisk, false⟩ else none

/-- How many of the first `n` disks work. -/
def upCount (down : ℕ → Bool) (n : ℕ) : ℕ := (List.range n).countP fun i => !down i

section Failing

variable (ρ : RangeOrder) (down : ℕ → Bool)

/-- The errors of calls that succeed on the disks that work. -/
def failingErrs (n : ℕ) : List (Option Err) :=
  (List.range n).map fun i => if down i then some .faultyDisk else none

lemma count_none_failingErrs (n : ℕ) : (failingErrs down n).count none = upCount down n := by
  rw [failingErrs, List.count, countP_map]
  refine countP_congr fun i _ => ?_
  cases hd : down i <;> simp [hd]

lemma mapIdx_failing {call : ℕ → Option BlockDisk → Option BlockDisk × Option Err}
    {next : BlockDisk → BlockDisk}
    (hcall : ∀ i d, call i (some d) =
      (some (if down i then d else next d), if down i then some .faultyDisk else none))
    (disks : List BlockDisk) :
    ((disks.map some).mapIdx fun i d => (call i d).1) =
        (disks.mapIdx fun i d => if down i then d else next d).map some ∧
      ((disks.map some).mapIdx fun i d => (call i d).2) = failingErrs down disks.length := by
  constructor
  · apply ext_getElem?
    intro i
    simp only [getElem?_mapIdx, getElem?_map, Option.map_map]
    cases disks[i]? with
    | none => rfl
    | some d => simp [hcall]
  · apply ext_getElem?
    intro i
    simp only [failingErrs, getElem?_mapIdx, getElem?_map, Option.map_map]
    by_cases hi : i < disks.length
    · rw [getElem?_eq_getElem hi, getElem?_range hi]
      simp [hcall]
    · rw [getElem?_eq_none (by omega), getElem?_eq_none (by simpa using hi)]
      rfl

lemma reduceWriteQuorumErrs_failingErrs {n : ℕ} {quorum : ℤ} (hq : quorum ≤ upCount down n) :
    reduceWriteQuorumErrs ρ (failingErrs down n) objectOpIgnoredErrs quorum = none := by
  apply reduceQuorumErrs_of_ignored ρ (by simp)
  · intro err hmem
    obtain ⟨i, -, hi⟩ := mem_map.mp hmem
    cases hd : down i
    · simp [hd] at hi
    · simp only [hd, if_true, Option.some.injEq] at hi
      rw [← hi]
      rfl
  · rw [count_none_failingErrs]
    exact hq

variable {disks : List BlockDisk}

lemma writeBlockToDisks_failing (blk : Bytes) {writeQuorum : ℤ}
    (hq : writeQuorum ≤ upCount down disks.length) :
    writeBlockToDisks ρ (failing down) (hashBlockData blk) blk (disks.map some) writeQuorum =
      ((disks.mapIdx fun i d => if down i then d else d.store blk).map some, none) := by
  have hdisk : ∀ i (d : BlockDisk),
      callDisk (failing down i) (fun d => d.writeBlock (hashBlockData blk) blk) (some d) =
        (some (if down i then d else d.store blk), if down i then some .faultyDisk else none) := by
    intro i d
    cases hd : down i
    · simp [failing, callDisk, hd, BlockDisk.store, d.writeBlock_hashBlockData blk]
    · simp [failing, callDisk, hd]
  obtain ⟨hdisks, herrs⟩ := mapIdx_failing down hdisk disks
  unfold writeBlockToDisks callDisks
  simp only [hdisks, herrs, count_none_failingErrs]
  rw [if_pos hq]

lemma chunkFold_failing {writeQuorum : ℤ} (bs : List Bytes)
    (hq : writeQuorum ≤ upCount down disks.length) (refs : List BlockRef) (totalSize : ℤ)
    (idx : ℕ) :
    chunkFold ρ (fun _ => failing down) writeQuorum bs (disks.map some) refs totalSize idx =
      ((disks.mapIdx fun i d => if down i then d else bs.foldl BlockDisk.store d).map some,
        .ok (refs ++ refsFrom idx bs, totalSize + bs.flatten.length)) := by
  induction bs generalizing disks refs totalSize idx with
  | nil =>
    have hid : (disks.mapIdx fun i d => if down i then d else [].foldl BlockDisk.store d) =
        disks := by
      apply ext_getElem?
      intro i
      simp
    rw [hid]
    simp [chunkFold, refsFrom]
  | cons blk rest ih =>
    rw [chunkFold, writeBlockToDisks_failing ρ down blk hq]
    have hstores : (fun i d => if down i then (if down i then d else d.store blk)
        else rest.foldl BlockDisk.store (if down i then d else d.store blk)) =
        fun i d => if down i then d else (blk :: rest).foldl BlockDisk.store d := by
      funext i d
      cases down i
      · simp
      · simp
    rw [ih (by simpa using hq), mapIdx_mapIdx, refsFrom]
    simp only [Function.comp_def, hstores]
    simp [add_assoc]

lemma writeUniqueFileInfo_failing {fi : FileInfo} (hblocks : fi.blocks ≠ [])
    {quorum : ℤ} (hq : quorum ≤ upCount down disks.length) :
    writeUniqueFileInfo ρ (failing down) fi (disks.map some) quorum =
      ((disks.mapIdx fun i d => if down i then d else { d with info := .ok fi }).map some,
        none) := by
  have hinfo : ∀ i (d : BlockDisk), writeFileInfo (failing down i) fi i (some d) =
      (some (if down i then d else { d with info := .ok fi }),
        if down i then some .faultyDisk else none) := by
    intro i d
    unfold writeFileInfo
    simp only [if_neg (length_pos_iff.mpr hblocks).ne', FileInfo.isValid_of_blocks hblocks, if_true]
    cases hd : down i
    · simp [failing, callDisk, hd, BlockDisk.writeMetadata]
    · simp [failing, callDisk, hd]
  obtain ⟨hdisks, herrs⟩ := mapIdx_failing down hinfo disks
  unfold writeUniqueFileInfo
  rw [hdisks, herrs, reduceWriteQuorumErrs_failingErrs ρ down hq]

end Failing

lemma putBlockReplicatedObject_failing (cfg : Config) (ρ : RangeOrder)
    (blocksDown metadataDown : ℕ → Bool) (opts : PutOptions) (data : Bytes)
    (disks : List BlockDisk) (hsize : -1 ≤ opts.size) (hparent : opts.parentIsObject = false)
    (hlock : opts.lockErr = none) (hdata : data ≠ [])
    (hblocks : cfg.writeQuorum ≤ upCount blocksDown disks.length)
    (hmetadata : cfg.writeQuorum ≤ upCount metadataDown disks.length) :
    let b := cfg.effectiveBlockSize
    let fi := putFileInfo b opts (chunkRefs b.toNat data) data.length
    putBlockReplicatedObject cfg ρ ⟨fun _ => failing blocksDown, failing metadataDown⟩ opts
        ⟨data, none⟩ (disks.map some) =
      (((disks.mapIdx fun i d =>
          if blocksDown i then d else (blocks b.toNat data).foldl BlockDisk.store d).mapIdx
            fun i d => if metadataDown i then d else { d with info := .ok fi }).map some,
        .ok fi) := by
  intro b fi
  have hb := effectiveBlockSize_pos cfg
  have hrefs : fi.blocks ≠ [] := by
    show chunkRefs b.toNat data ≠ []
    rw [chunkRefs, blocks_cons hb hdata]
    exact cons_ne_nil _ _
  have hfi : putFileInfo cfg.effectiveBlockSize opts
      (refsFrom 0 (blocks cfg.effectiveBlockSize.toNat data)) data.length = fi := rfl
  unfold putBlockReplicatedObject
  rw [if_neg (by omega), hparent, hlock, (chunkLoop_eq ..).1 rfl, chunkFold_failing ρ blocksDown _ hblocks,
    nil_append, zero_add, flatten_blocks hb]
  simp only [Bool.false_eq_true, if_false, hfi]
  rw [writeUniqueFileInfo_failing ρ metadataDown hrefs (by simpa using hmetadata)]

lemma mapIdx_const {α β : Type} (f : α → β) (l : List α) : (l.mapIdx fun _ a => f a) = l.map f := by
  apply ext_getElem?
  intro i
  rw [getElem?_mapIdx, getElem?_map]

def PutFaults.none : PutFaults :=
  ⟨fun _ => failing fun _ => false, failing fun _ => false⟩

lemma putBlockReplicatedObject_healthy (cfg : Config) (ρ : RangeOrder) (opts : PutOptions)
    (data : Bytes) (disks : List BlockDisk) (hsize : -1 ≤ opts.size)
    (hparent : opts.parentIsObject = false) (hlock : opts.lockErr = none) (hdata : data ≠ [])
    (hq : cfg.writeQuorum ≤ disks.length) :
    let b := cfg.effectiveBlockSize
    let fi := putFileInfo b opts (chunkRefs b.toNat data) data.length
    putBlockReplicatedObject cfg ρ .none opts ⟨data, none⟩ (disks.map some) = ((disks.map fun d =>
        { (blocks b.toNat data).foldl BlockDisk.store d with info := .ok fi }).map some,
        .ok fi) := by
  intro b fi
  have hup : cfg.writeQuorum ≤ (upCount (fun _ => false) disks.length : ℕ) := by
    simpa [upCount] using hq
  have hput := putBlockReplicatedObject_failing cfg ρ _ _ opts data
    disks hsize hparent hlock hdata hup hup
  simp only [Bool.false_eq_true, if_false, mapIdx_const, map_map, Function.comp_def] at hput
  simp only [map_map, Function.comp_def]
  exact hput

end Obstor.Block
