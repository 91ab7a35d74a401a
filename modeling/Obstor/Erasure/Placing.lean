import Obstor.Erasure.Distribution
import Obstor.Multipart.Parts

/-!
# Which shard goes to which disk

The writer, the reader and the healer of an erasure-coded object each work out for themselves which
shard belongs to which disk.

`Placed` is what all records have in common after any puts, heals and losses, whichever disks were
online: the distribution is `hashOrder` of the name, and the index of a disk is its entry there.
`placement_agrees` follows for every later read or heal.

A put and a heal leave such records on the disks they write to (`recorded_of_putObject`,
`recorded_of_healObject`), every step of `PlacingStep` keeps `Placed` (`Placed.step`), and where it
holds a disk stands in the slot of its shard, whichever function shuffles (`slot_iff`).
-/

namespace Obstor.Coding

open Go Lib Meta Multipart List Option

/-! ### `hashOrder` -/

/-- One bit of `crc32.Checksum` with `crc32.IEEETable`. -/
def crcBit (c : UInt32) : UInt32 :=
  if c &&& 1 = 1 then (c >>> 1) ^^^ 0xEDB88320 else c >>> 1

/-- `crc32.Checksum` with `crc32.IEEETable`. -/
def crc32 (p : Bytes) : UInt32 :=
  (p.foldl (fun c b => crcBit^[8] (c ^^^ b.toUInt32)) 0xFFFFFFFF) ^^^ 0xFFFFFFFF

example : crc32 (stringBytes "123456789") = 0xCBF43926 := by decide +kernel

def hashOrder (key : String) (cardinality : ℤ) : List ℤ :=
  if cardinality ≤ 0 then []
  else
    let n := cardinality.toNat
    let start := (crc32 (stringBytes key) % UInt32.ofNat n).toNat
    (List.range n).map fun i => 1 + (((start + (i + 1)) % n : ℕ) : ℤ)

lemma hashOrder_isOrder (key : String) (n : ℕ) : IsOrder n (hashOrder key n) := by
  rcases Nat.eq_zero_or_pos n with rfl | hn
  · exact List.Perm.nil
  obtain ⟨start, hstart⟩ : ∃ start, start = (crc32 (stringBytes key) % UInt32.ofNat n).toNat :=
    ⟨_, rfl⟩
  have hrotate : hashOrder key n =
      ((List.range n).map fun k : ℕ => (k : ℤ) + 1).rotate (start + 1) := by
    rw [hashOrder, if_neg (by omega), Int.toNat_natCast]
    simp only [← hstart]
    refine ext_getElem (by simp) fun i h₁ h₂ => ?_
    rw [getElem_rotate]
    simp only [getElem_map, getElem_range, length_map, length_range]
    rw [add_comm (1 : ℤ), Nat.add_left_comm]
  rw [hrotate]
  exact rotate_perm _ _

/-! ### Writing -/

/-- `newFileInfo`.
Source: `cmd/storage-datatypes.go` -/
def newFileInfo (object : String) (dataBlocks parityBlocks : ℤ) : FileInfo where
  erasure :=
    { algorithm := "rs-vandermonde"
      dataBlocks := dataBlocks
      parityBlocks := parityBlocks
      blockSize := 1024 * 1024
      distribution := hashOrder object (dataBlocks + parityBlocks) }

/-- `AddChecksumInfo`.
Source: `cmd/erasure-metadata.go` -/
def addChecksumInfo (checksums : List ChecksumInfo) (ckSumInfo : ChecksumInfo) :
    List ChecksumInfo :=
  match checksums.findIdx? fun sum => sum.partNumber = ckSumInfo.partNumber with
  | some i => checksums.set i ckSumInfo
  | none => checksums ++ [ckSumInfo]

/-- A part of which a disk has got its shards: the part and its checksum are added to the record,
and the inline data put in. A streaming writer leaves the hash of the checksum empty. -/
def withPart (m : FileInfo) (part : ObjectPartInfo) (algorithm : BitrotAlgorithm) (data : Bytes) :
    FileInfo :=
  { m with
    data := data
    parts := addObjectPart m.parts part
    erasure := { m.erasure with
      checksums := addChecksumInfo m.erasure.checksums ⟨part.number, algorithm, []⟩ } }

/-- The record for the disk at `index`: an index that is not set is set to the place of the disk. -/
def indexed (index : ℕ) (fi : FileInfo) : FileInfo :=
  if fi.erasure.index = 0 then { fi with erasure := { fi.erasure with index := index + 1 } } else fi

/-- The calls of `disks[index].RenameData` that `renameData` makes, by index: the disk and the
record it is given. -/
def renameData (disks : List (Option Disk)) (metadata : List FileInfo) :
    List (Option (Disk × FileInfo)) :=
  disks.mapIdx fun index disk =>
    match disk with
    | none => none
    | some d =>
      let fi := indexed index (metadata.getD index {})
      if fi.isValid then some (d, fi) else none

structure PutInput where
  /-- The bucket and the name of the object, joined. -/
  object : String
  parityDrives : ℤ
  versionID : String
  dataDir : String
  /-- What the writer of a slot has kept inline, nothing if it writes a file; `none` if the writer
  failed. -/
  written : ℕ → Option Bytes
  size : ℤ
  actualSize : ℤ
  userDefined : GoMap String
  modTime : Time

/-- The record of slot `i`, from what the shuffle left there. -/
def PutInput.record (p : PutInput) (disk : Option Disk) (i : ℕ) (m : FileInfo) : FileInfo :=
  let m := match disk, p.written i with
    | some _, some data =>
      withPart m { number := 1, size := p.size, actualSize := p.actualSize } .highwayHash256S data
    | _, _ => m
  { m with metadata := p.userDefined, size := p.size, modTime := p.modTime }

/-- `putObject`, as far as it decides which disk gets which record: the calls of `RenameData`. A put
that stops before makes none of them. -/
def putObject (storageDisks : List (Option Disk)) (p : PutInput) :
    Except Err (List (Option (Disk × FileInfo))) :=
  let dataDrives := storageDisks.length - p.parityDrives
  let fi := { newFileInfo p.object dataDrives p.parityDrives with
    versionID := p.versionID
    dataDir := p.dataDir }
  match shuffleDisksAndPartsMetadata storageDisks (replicate storageDisks.length fi) fi with
  | .error err => .error err
  | .ok s =>
    let onlineDisks := s.disks.mapIdx fun i d => if (p.written i).isNone then none else d
    let partsMetadata := s.metas.mapIdx fun i m => p.record (s.disks.getD i none) i m
    .ok (renameData onlineDisks partsMetadata)

/-! ### Healing -/

/-- The loop of `shuffleDisks` and `shufflePartsMetadata` from index `i` on. -/
def shuffleLoop {α : Type} (distribution : List ℤ) : ℕ → List α → List α → Except Err (List α)
  | _, [], shuffled => .ok shuffled
  | i, a :: rest, shuffled =>
    match distribution[i]? with
    | none => .error (.panic "index out of range")
    | some blockIndex =>
      if 1 ≤ blockIndex ∧ blockIndex ≤ shuffled.length then
        shuffleLoop distribution (i + 1) rest (shuffled.set (blockIndex - 1).toNat a)
      else .error (.panic "index out of range")

def shuffleDisks (disks : List (Option Disk)) (distribution : List ℤ) :
    Except Err (List (Option Disk)) :=
  if distribution = [] then .ok disks
  else shuffleLoop distribution 0 disks (replicate disks.length none)

def shufflePartsMetadata (partsMetadata : List FileInfo) (distribution : List ℤ) :
    Except Err (List FileInfo) :=
  if distribution = [] then .ok partsMetadata
  else shuffleLoop distribution 0 partsMetadata (replicate partsMetadata.length {})

def cleanFileInfo (fi : FileInfo) : FileInfo :=
  { fi with parts := [], erasure := { fi.erasure with index := 0, checksums := [] } }

structure HealInput where
  latestMeta : FileInfo
  outDatedDisks : List (Option Disk)
  partsMetadata : List FileInfo
  migrateDataDir : String
  /-- As in `PutInput`. -/
  written : ℕ → Option Bytes

/-- The records after those of the outdated disks were replaced. -/
def HealInput.cleaned (p : HealInput) : List FileInfo :=
  p.partsMetadata.mapIdx fun i m =>
    if (p.outDatedDisks.getD i none).isSome then cleanFileInfo p.latestMeta else m

/-- The record of slot `i` after all parts of the object were healed. -/
def HealInput.record (p : HealInput) (i : ℕ) (m : FileInfo) : FileInfo :=
  let fi := p.latestMeta
  let dstDataDir := if fi.xlv1 then p.migrateDataDir else fi.dataDir
  fi.parts.foldl (fun m part =>
    withPart { m with dataDir := dstDataDir } { part with etag := "" }
      (fi.erasure.getChecksumInfo part.number).algorithm ((p.written i).getD [])) m

/-- The loop of `healObject` that calls `RenameData`. -/
def healRename (disks : List (Option Disk)) (metas : List FileInfo) :
    List (Option (Disk × FileInfo)) :=
  disks.mapIdx fun i d => d.map fun d =>
    let m := metas.getD i {}
    (d, { m with erasure := { m.erasure with index := (i : ℤ) + 1 } })

/-- `healObject` for an erasure-coded object, as far as it decides which disk gets which record: the
calls of `RenameData`. -/
def healObject (p : HealInput) : Except Err (List (Option (Disk × FileInfo))) :=
  let fi := p.latestMeta
  if fi.deleted ∧ fi.transitionStatus = "complete" then
    .ok (healRename p.outDatedDisks p.cleaned)
  else
    match shuffleDisks p.outDatedDisks fi.erasure.distribution,
      shufflePartsMetadata p.cleaned fi.erasure.distribution with
    | .error err, _ => .error err
    | _, .error err => .error err
    | .ok outDatedDisks, .ok partsMetadata =>
      let outDatedDisks := outDatedDisks.mapIdx fun i d =>
        if !fi.parts.isEmpty && (p.written i).isNone then none else d
      let partsMetadata := partsMetadata.mapIdx fun i m =>
        if (outDatedDisks.getD i none).isNone then m else p.record i m
      .ok (healRename outDatedDisks partsMetadata)

/-! ### What the shuffles do -/

section Shuffles

variable {α : Type} {n : ℕ} {distribution : List ℤ}

section

variable (h : IsOrder n distribution)

include h

lemma shuffleLoop_eq {items : List α} (zero : α)
    (hlen : items.length = n) {i : ℕ} {rest : List α} (hrest : items.drop i = rest) :
    shuffleLoop distribution i rest ((List.range n).map fun k =>
        if diskOf distribution k < i then items.getD (diskOf distribution k) zero else zero) =
      .ok ((List.range n).map fun k => items.getD (diskOf distribution k) zero) := by
  induction rest generalizing i with
  | nil =>
    have hi : items.length ≤ i := drop_eq_nil_iff.mp hrest
    rw [shuffleLoop]
    congr 1
    refine map_congr_left fun k hk => if_pos ?_
    have := (h.diskOf_spec (mem_range.mp hk)).1
    omega
  | cons a rest ih =>
    obtain ⟨ha, hnext⟩ := getElem?_of_drop_eq_cons hrest
    have hi : i < n := hlen ▸ (List.getElem?_eq_some_iff.mp ha).1
    have hk : distribution[i]? = some _ := getElem?_eq_getElem (h.length_eq ▸ hi)
    obtain ⟨j, hj, hjk, hdisk⟩ := h.shard_of_disk hk
    rw [hjk] at hk
    have hidx : ((j : ℤ) + 1 - 1).toNat = j := by omega
    rw [shuffleLoop]
    simp only [hk, length_map, length_range]
    rw [if_pos (by omega), hidx, map_range_set, ← ih hnext]
    congr 2
    funext k
    by_cases hkj : k = j
    · subst hkj
      rw [Function.update_self, if_pos (by omega), hdisk, getD_eq_getElem?_getD, ha]
      rfl
    · have hne : diskOf distribution k ≠ i := fun hki => hkj (eq_of_diskOf hk hki)
      have hiff : diskOf distribution k < i + 1 ↔ diskOf distribution k < i := by omega
      rw [Function.update_of_ne hkj]
      simp [hiff]

lemma shuffle_eq (items : List α) (zero : α) (hlen : items.length = n) :
    (if distribution = [] then .ok items
      else shuffleLoop distribution 0 items (replicate items.length zero)) =
      (.ok ((List.range n).map fun k => items.getD (diskOf distribution k) zero) :
        Except Err (List α)) := by
  by_cases hnil : distribution = []
  · have hn : n = 0 := by rw [← h.length_eq, hnil, length_nil]
    rw [if_pos hnil, hn, length_eq_zero_iff.mp (hlen.trans hn)]
    rfl
  · rw [if_neg hnil, ← shuffleLoop_eq h zero hlen rfl, hlen]
    congr 1
    simp

lemma shuffleDisks_eq {disks : List (Option Disk)} (hlen : disks.length = n) :
    shuffleDisks disks distribution =
      .ok ((List.range n).map fun k => disks.getD (diskOf distribution k) none) :=
  shuffle_eq h disks none hlen

lemma shufflePartsMetadata_eq {metas : List FileInfo} (hlen : metas.length = n) :
    shufflePartsMetadata metas distribution =
      .ok ((List.range n).map fun k => metas.getD (diskOf distribution k) {}) :=
  shuffle_eq h metas {} hlen

end

end Shuffles

/-! ### The records -/

/-- A record that has the distribution of another one, and differs from it in nothing else that
matters for the places of the shards. -/
structure SameOrder (m m' : FileInfo) : Prop where
  deleted : m'.deleted = m.deleted
  blocks : m'.blocks = m.blocks
  dataBlocks : m'.erasure.dataBlocks = m.erasure.dataBlocks
  parityBlocks : m'.erasure.parityBlocks = m.erasure.parityBlocks
  distribution : m'.erasure.distribution = m.erasure.distribution

lemma SameOrder.refl (m : FileInfo) : SameOrder m m := ⟨rfl, rfl, rfl, rfl, rfl⟩

variable {m : FileInfo}

lemma SameOrder.trans {m' m'' : FileInfo} (h : SameOrder m m') (h' : SameOrder m' m'') :
    SameOrder m m'' :=
  ⟨h'.deleted.trans h.deleted, h'.blocks.trans h.blocks, h'.dataBlocks.trans h.dataBlocks,
    h'.parityBlocks.trans h.parityBlocks, h'.distribution.trans h.distribution⟩

lemma sameOrder_record (p : PutInput) (disk : Option Disk) (i : ℕ) (m : FileInfo) :
    SameOrder m (p.record disk i m) ∧ (p.record disk i m).erasure.index = m.erasure.index := by
  unfold PutInput.record
  split <;> exact ⟨⟨rfl, rfl, rfl, rfl, rfl⟩, rfl⟩

lemma HealInput.sameOrder_record (p : HealInput) (i : ℕ) (m : FileInfo) :
    SameOrder m (p.record i m) := by
  unfold HealInput.record
  simp only
  induction p.latestMeta.parts generalizing m with
  | nil => exact SameOrder.refl m
  | cons part parts ih =>
    refine SameOrder.trans ?_ (ih _)
    exact ⟨rfl, rfl, rfl, rfl, rfl⟩

lemma SameOrder.isValid {m' : FileInfo} (h : SameOrder m m') (hvalid : m.isValid)
    (hpos : 0 < m'.erasure.index)
    (hle : m'.erasure.index ≤ (m.erasure.distribution.length : ℤ)) : m'.isValid := by
  unfold FileInfo.isValid at hvalid ⊢
  rw [h.deleted, h.blocks, h.dataBlocks, h.parityBlocks, h.distribution]
  split_ifs at hvalid ⊢
  · rfl
  · rfl
  · simp only [Bool.and_eq_true, decide_eq_true_eq] at hvalid ⊢
    obtain ⟨⟨⟨hge, hd⟩, hp⟩, ⟨-, -⟩, hlen⟩ := hvalid
    exact ⟨⟨⟨hge, hd⟩, hp⟩, ⟨hpos, hlen ▸ hle⟩, hlen⟩

/-- What the record of the disk at position `i` says about the places of the shards. -/
structure Recorded (key : String) (n i : ℕ) (r : FileInfo) : Prop where
  valid : r.isValid = true
  deleted : r.deleted = false
  distribution : r.erasure.distribution = hashOrder key n
  index : (hashOrder key n)[i]? = some r.erasure.index

variable {disks : List (Option Disk)} {d : Disk} {r : FileInfo}

lemma mem_renameData {metadata : List FileInfo} (h : some (d, r) ∈ renameData disks metadata) :
    ∃ k, disks[k]? = some (some d) ∧ r = indexed k (metadata.getD k {}) ∧ r.isValid := by
  obtain ⟨k, hk, hcall⟩ := mem_mapIdx.mp h
  refine ⟨k, ?_⟩
  rw [getElem?_eq_getElem hk]
  split at hcall
  · cases hcall
  · rename_i d' hd
    rw [ite_none_right_eq_some] at hcall
    obtain ⟨hvalid, heq⟩ := hcall
    cases heq
    exact ⟨congrArg some hd, rfl, hvalid⟩

variable {calls : List (Option (Disk × FileInfo))}

lemma recorded_of_putObject {p : PutInput} (hput : putObject disks p = .ok calls)
    (hcall : some (d, r) ∈ calls) :
    ∃ i, disks[i]? = some (some d) ∧ Recorded p.object disks.length i r := by
  unfold putObject at hput
  obtain ⟨fi, hfi⟩ : ∃ fi : FileInfo, fi = { newFileInfo p.object
    ((disks.length : ℤ) - p.parityDrives) p.parityDrives with
      versionID := p.versionID, dataDir := p.dataDir } := ⟨_, rfl⟩
  have hdist : fi.erasure.distribution = hashOrder p.object disks.length := by
    rw [hfi]
    show hashOrder p.object _ = _
    rw [Int.sub_add_cancel]
  have horder : IsOrder disks.length fi.erasure.distribution := hdist ▸ hashOrder_isOrder _ _
  simp only [← hfi] at hput
  rw [shuffleDisksAndPartsMetadata_eq horder (length_replicate ..)] at hput
  simp only [Except.ok.injEq] at hput
  rw [← hput] at hcall
  obtain ⟨k, hdisk, hr, hvalid⟩ := mem_renameData hcall
  -- the slot that the call is for, and the disk that the shuffle put there
  obtain ⟨f, hf⟩ : ∃ f, f = fun k => takenAt disks (replicate disks.length fi) (passes fi)
    (diskOf fi.erasure.distribution k) := ⟨_, rfl⟩
  have hs : shuffledBy disks (replicate disks.length fi) fi (passes fi) =
      arranged disks.length f := by rw [hf, shuffledBy]
  rw [hs] at hdisk hr
  rw [getElem?_mapIdx] at hdisk
  obtain ⟨disk, hslot, hwritten⟩ := map_eq_some_iff.mp hdisk
  have hk : k < disks.length := by
    have hlt := (List.getElem?_eq_some_iff.mp hslot).1
    rwa [length_arranged_disks] at hlt
  rw [ite_none_left_eq_some] at hwritten
  obtain rfl := hwritten.2
  have hslot' := hslot
  rw [(arranged_getElem hk).1, some_inj] at hslot'
  obtain ⟨⟨d', m⟩, htaken, rfl⟩ := map_eq_some_iff.mp hslot'
  have htaken' := htaken
  rw [hf] at htaken'
  obtain ⟨hd, hm, -⟩ := takenAt_eq_some.mp htaken'
  obtain rfl : fi = m := (eq_of_mem_replicate (mem_of_getElem? hm)).symm
  have hmeta : (mapIdx (fun i m => p.record ((arranged disks.length f).disks.getD i none) i m)
      (arranged disks.length f).metas).getD k {} = p.record (some d') k fi := by
    rw [getD_eq_getElem?_getD, getElem?_mapIdx, arranged_metas hk, htaken,
      getD_eq_getElem?_getD, hslot]
    rfl
  rw [hmeta] at hr
  obtain ⟨hsame, hindex⟩ := sameOrder_record p (some d') k fi
  have hzero : (p.record (some d') k fi).erasure.index = 0 := by
    rw [hindex, hfi]
    rfl
  rw [indexed, if_pos hzero] at hr
  refine ⟨_, hd, hvalid, ?_, ?_, ?_⟩
  · rw [hr]
    exact hsame.deleted.trans (by rw [hfi]; rfl)
  · rw [hr]
    exact hsame.distribution.trans hdist
  · rw [← hdist, hr]
    exact (horder.diskOf_spec hk).2

lemma mem_healRename {metas : List FileInfo} (h : some (d, r) ∈ healRename disks metas) :
    ∃ k, disks[k]? = some (some d) ∧ r = { metas.getD k {} with
        erasure := { (metas.getD k {}).erasure with index := (k : ℤ) + 1 } } := by
  obtain ⟨k, hk, hcall⟩ := mem_mapIdx.mp h
  obtain ⟨d', hd, heq⟩ := map_eq_some_iff.mp hcall
  cases heq
  exact ⟨k, by rw [getElem?_eq_getElem hk, hd], rfl⟩

lemma recorded_of_healObject {key : String} {n j : ℕ} {p : HealInput}
    (hlatest : Recorded key n j p.latestMeta) (hdisks : p.outDatedDisks.length = n)
    (hmetas : p.partsMetadata.length = n)
    (hheal : healObject p = .ok calls) (hcall : some (d, r) ∈ calls) :
    ∃ i, p.outDatedDisks[i]? = some (some d) ∧ Recorded key n i r := by
  have hdist := hlatest.distribution
  have horder : IsOrder n p.latestMeta.erasure.distribution := hdist ▸ hashOrder_isOrder _ _
  have hcleaned : p.cleaned.length = n := by rw [HealInput.cleaned, length_mapIdx, hmetas]
  unfold healObject at hheal
  simp only [hlatest.deleted, Bool.false_eq_true, false_and, if_false,
    shuffleDisks_eq horder hdisks, shufflePartsMetadata_eq horder hcleaned,
    Except.ok.injEq] at hheal
  rw [← hheal] at hcall
  obtain ⟨k, hdisk, hr⟩ := mem_healRename hcall
  -- the slot that the call is for, and the disk that the shuffle put there
  have hdisk' := hdisk
  rw [getElem?_mapIdx] at hdisk'
  obtain ⟨disk, hslot, hwritten⟩ := map_eq_some_iff.mp hdisk'
  rw [ite_none_left_eq_some] at hwritten
  obtain rfl := hwritten.2
  have hk : k < n := by
    have hlt := (List.getElem?_eq_some_iff.mp hslot).1
    rwa [length_map, length_range] at hlt
  rw [getElem?_map, getElem?_range hk, map_some, some_inj] at hslot
  have hdiskOf := (horder.diskOf_spec hk).1
  have hd : p.outDatedDisks[diskOf p.latestMeta.erasure.distribution k]? = some (some d) := by
    rw [getD_eq_getElem?_getD, getElem?_eq_getElem (hdisks ▸ hdiskOf), getD_some] at hslot
    rw [getElem?_eq_getElem (hdisks ▸ hdiskOf), hslot]
  have hclean : p.cleaned.getD (diskOf p.latestMeta.erasure.distribution k) {} =
      cleanFileInfo p.latestMeta := by
    rw [HealInput.cleaned, getD_eq_getElem?_getD, getElem?_mapIdx,
      getElem?_eq_getElem (hmetas ▸ hdiskOf), hslot]
    rfl
  rw [getD_eq_getElem?_getD, getElem?_mapIdx, getElem?_map, getElem?_range hk,
    getD_eq_getElem?_getD, hdisk] at hr
  simp only [map_some, getD_some, isNone_some, Bool.false_eq_true, if_false, hclean] at hr
  have hsame : SameOrder p.latestMeta r := by
    have hrecord := p.sameOrder_record k (cleanFileInfo p.latestMeta)
    rw [hr]
    exact ⟨hrecord.deleted, hrecord.blocks, hrecord.dataBlocks, hrecord.parityBlocks,
      hrecord.distribution⟩
  have hindex : r.erasure.index = (k : ℤ) + 1 := by rw [hr]
  refine ⟨_, hd, ?_, hsame.deleted.trans hlatest.deleted, hsame.distribution.trans hdist, ?_⟩
  · apply hsame.isValid hlatest.valid
    · omega
    · rw [horder.length_eq]
      omega
  · rw [hindex, ← hdist]
    exact (horder.diskOf_spec hk).2

/-! ### Runs -/

/-- The disks of a set, some of them offline. -/
structure Online (disks : List Disk) (l : List (Option Disk)) : Prop where
  length : l.length = disks.length
  disk : ∀ (i : ℕ) (d : Disk), l[i]? = some (some d) → disks[i]? = some d

lemma Online.nil : Online [] [] := ⟨rfl, fun _ _ h => by simp at h⟩

lemma Online.cons {disks : List Disk} {l : List (Option Disk)} (h : Online disks l)
    {o : Option Disk} (ho : o = none ∨ o = some d) : Online (d :: disks) (o :: l) := by
  refine ⟨congrArg (· + 1) h.length, ?_⟩
  rintro (_ | i) d' hd'
  · rcases ho with rfl | rfl
    · cases hd'
    · exact Option.some.inj hd'
  · exact h.disk i d' hd'

/-- The record that a read gives for the one that was written: the places of the shards are the
same, other fields (the volume, the name, the number of versions, the data) need not be. -/
structure ReadBack (r m : FileInfo) : Prop extends SameOrder r m where
  index : m.erasure.index = r.erasure.index

/-- Some of the calls took effect. The state is the record that each disk has of the object. -/
def TookEffect (disks : List Disk) (calls : List (Option (Disk × FileInfo)))
    (s s' : List (Option FileInfo)) : Prop :=
  ∀ i : ℕ, s'[i]? = s[i]? ∨ ∃ d r, disks[i]? = some d ∧ some (d, r) ∈ calls ∧ s'[i]? = some (some r)

/-- What can happen to the records of the object `key`. -/
inductive PlacingStep (key : String) (disks : List Disk) :
    List (Option FileInfo) → List (Option FileInfo) → Prop
  | put {s s' : List (Option FileInfo)} {online : List (Option Disk)} {p : PutInput}
      {calls : List (Option (Disk × FileInfo))} (honline : Online disks online)
      (hobject : p.object = key) (hput : putObject online p = .ok calls)
      (heffect : TookEffect disks calls s s') : PlacingStep key disks s s'
  | heal {s s' : List (Option FileInfo)} {j : ℕ} {r : FileInfo} {p : HealInput}
      {calls : List (Option (Disk × FileInfo))} (honline : Online disks p.outDatedDisks)
      (hmetas : p.partsMetadata.length = disks.length) (hr : s[j]? = some (some r))
      (hlatest : ReadBack r p.latestMeta) (hheal : healObject p = .ok calls)
      (heffect : TookEffect disks calls s s') : PlacingStep key disks s s'
  /-- Disks lose their records. -/
  | lose {s s' : List (Option FileInfo)} (hlost : ∀ i : ℕ, s'[i]? = s[i]? ∨ s'[i]? = some none) :
      PlacingStep key disks s s'

/-- Every record agrees with `hashOrder`. -/
def Placed (key : String) (n : ℕ) (s : List (Option FileInfo)) : Prop :=
  ∀ (i : ℕ) (r : FileInfo), s[i]? = some (some r) → Recorded key n i r

lemma Recorded.readBack {key : String} {n i : ℕ} (h : Recorded key n i r)
    (hm : ReadBack r m) : Recorded key n i m := by
  have hvalid : m.isValid = r.isValid := by
    unfold FileInfo.isValid
    rw [hm.deleted, hm.blocks, hm.dataBlocks, hm.parityBlocks, hm.distribution, hm.index]
  exact ⟨hvalid.trans h.valid, hm.deleted.trans h.deleted, hm.distribution.trans h.distribution,
    hm.index.symm ▸ h.index⟩

section Runs

variable {key : String} {disks : List Disk} {s s' : List (Option FileInfo)}

lemma Placed.tookEffect {online : List (Option Disk)}
    (hdistinct : disks.Nodup) (honline : Online disks online)
    (hcalls : ∀ d r, some (d, r) ∈ calls →
      ∃ i, online[i]? = some (some d) ∧ Recorded key disks.length i r)
    (h : Placed key disks.length s) (heffect : TookEffect disks calls s s') :
    Placed key disks.length s' := by
  intro i r hr
  rcases heffect i with hsame | ⟨d, r', hd, hcall, hnew⟩
  · exact h i r (hsame ▸ hr)
  · rw [hr, some_inj, some_inj] at hnew
    subst hnew
    obtain ⟨j, hj, hrecorded⟩ := hcalls d r hcall
    -- the disk is at one position only
    have hdj := honline.disk j d hj
    obtain ⟨hi, hdi⟩ := List.getElem?_eq_some_iff.mp hd
    obtain rfl : i = j := (getElem?_inj hi hdistinct).mp (hd.trans hdj.symm)
    exact hrecorded

/-- A put, a heal or a loss keeps the records in place. -/
lemma Placed.step (hdistinct : disks.Nodup) (h : Placed key disks.length s)
    (hstep : PlacingStep key disks s s') : Placed key disks.length s' := by
  cases hstep with
  | put honline hobject hput heffect =>
    refine h.tookEffect hdistinct honline (fun d r hcall => ?_) heffect
    rw [← hobject, ← honline.length]
    exact recorded_of_putObject hput hcall
  | heal honline hmetas hr hlatest hheal heffect =>
    refine h.tookEffect hdistinct honline (fun d r hcall => ?_) heffect
    exact recorded_of_healObject ((h _ _ hr).readBack hlatest) honline.length hmetas hheal hcall
  | lose hlost =>
    intro i r hr
    rcases hlost i with hsame | hnone
    · exact h i r (hsame ▸ hr)
    · rw [hr] at hnone
      cases hnone

/-- The records after any puts, heals and losses. -/
lemma placed_of_run (hdistinct : disks.Nodup)
    (hrun : Relation.ReflTransGen (PlacingStep key disks) (replicate disks.length none) s) :
    Placed key disks.length s := by
  induction hrun with
  | refl =>
    intro i r hr
    cases eq_of_mem_replicate (mem_of_getElem? hr)
  | tail _ hstep ih => exact ih.step hdistinct hstep

end Runs

/-! ### Where a later read or heal finds the disks -/

section Slots

variable {disks : List Disk} {online : List (Option Disk)} {metaArr : List FileInfo} {fi : FileInfo}
  {i : ℕ} {d : Disk}

section

variable (horder : IsOrder disks.length fi.erasure.distribution) (hdistinct : disks.Nodup)
  (honline : Online disks online) (hd : online[i]? = some (some d))

include horder hdistinct honline hd

/-- A disk stands in a slot exactly if its entry in the distribution is the number of the slot. -/
lemma slot_iff {f : ℕ → Option Disk}
    (hf : ∀ k d', f k = some d' → online[diskOf fi.erasure.distribution k]? = some (some d'))
    (htaken : ∀ k, diskOf fi.erasure.distribution k = i → f k = some d) (k : ℕ) :
    ((List.range disks.length).map f)[k]? = some (some d) ↔
      fi.erasure.distribution[i]? = some ((k : ℤ) + 1) := by
  rw [getElem?_map, map_eq_some_iff]
  constructor
  · rintro ⟨k', hk', hslot⟩
    obtain ⟨hlt, hget⟩ := List.getElem?_eq_some_iff.mp hk'
    rw [getElem_range] at hget
    subst hget
    rw [length_range] at hlt
    obtain ⟨hdisk, hspec⟩ := horder.diskOf_spec hlt
    have hdi := honline.disk _ d (hf k d hslot)
    have hdi' := honline.disk i d hd
    rw [← (getElem?_inj hdisk hdistinct).mp (hdi.trans hdi'.symm)]
    exact hspec
  · intro hk
    obtain ⟨j, hj, hjk, hdisk⟩ := horder.shard_of_disk hk
    obtain rfl : k = j := by omega
    exact ⟨k, getElem?_range hj, htaken k hdisk⟩

lemma shuffledBy_slot_iff {test : ℕ → FileInfo → Bool} {m : FileInfo} (hm : metaArr[i]? = some m)
    (htest : test i m) (k : ℕ) :
    (shuffledBy online metaArr fi test).disks[k]? = some (some d) ↔
      fi.erasure.distribution[i]? = some ((k : ℤ) + 1) := by
  rw [shuffledBy, honline.length]
  refine slot_iff horder hdistinct honline hd (fun k d' hk => ?_) (fun k hk => ?_) k
  · obtain ⟨⟨d'', m'⟩, htaken, rfl⟩ := map_eq_some_iff.mp hk
    exact (takenAt_eq_some.mp htaken).1
  · show (takenAt online metaArr test (diskOf fi.erasure.distribution k)).map Prod.fst = some d
    rw [hk, takenAt_eq_some.mpr ⟨hd, hm, htest⟩]
    rfl

lemma shuffleDisks_slot_iff (k : ℕ) : ((List.range disks.length).map fun k =>
        online.getD (diskOf fi.erasure.distribution k) none)[k]? = some (some d) ↔
      fi.erasure.distribution[i]? = some ((k : ℤ) + 1) := by
  refine slot_iff horder hdistinct honline hd (fun k d' hk => ?_) (fun k hk => ?_) k
  · rw [getD_eq_getElem?_getD] at hk
    rcases hslot : online[diskOf fi.erasure.distribution k]? with _ | disk
    · rw [hslot] at hk
      cases hk
    · rw [hslot, getD_some] at hk
      rw [hk]
  · rw [hk, getD_eq_getElem?_getD, hd]
    rfl

end

end Slots

/-- A disk of a host, without files. -/
def hostDisk (hostname : String) : Disk :=
  ⟨hostname, fun _ _ _ => .error .fileNotFound, fun _ => .error .fileNotFound⟩

def bytePut : PutInput where
  object := "bucket/object"
  parityDrives := 1
  versionID := ""
  dataDir := "d"
  written _ := some [7]
  size := 1
  actualSize := 1
  userDefined := none
  modTime := ⟨1⟩

/-- Its record for a shard. -/
def byteRecord (index : ℤ) : FileInfo where
  dataDir := "d"
  modTime := ⟨1⟩
  size := 1
  parts := [{ number := 1, size := 1, actualSize := 1 }]
  data := [7]
  erasure :=
    { algorithm := "rs-vandermonde"
      dataBlocks := 1
      parityBlocks := 1
      blockSize := 1024 * 1024
      index := index
      distribution := [2, 1]
      checksums := [⟨1, .highwayHash256S, []⟩] }

lemma putObject_bytePut (d : Disk) :
    putObject [some d, none] bytePut = .ok [none, some (d, byteRecord 2)] := by
  have horder : hashOrder "bucket/object" 2 = [2, 1] := by decide +kernel
  have hfi : newFileInfo bytePut.object 1 bytePut.parityDrives = { erasure :=
        { algorithm := "rs-vandermonde"
          dataBlocks := 1
          parityBlocks := 1
          blockSize := 1024 * 1024
          distribution := [2, 1] } } := by
    rw [newFileInfo, show hashOrder bytePut.object (1 + bytePut.parityDrives) = [2, 1] from horder]
    rfl
  have hdata : (([some d, none] : List (Option Disk)).length : ℤ) - bytePut.parityDrives = 1 := rfl
  unfold putObject
  simp only [hdata, hfi]
  rfl

/-- The record as a read gives it. -/
def readRecord (index : ℤ) : FileInfo :=
  { byteRecord index with volume := "bucket", name := "object", isLatest := true, numVersions := 1 }

lemma readBack_readRecord (index : ℤ) : ReadBack (byteRecord index) (readRecord index) :=
  ⟨⟨rfl, rfl, rfl, rfl, rfl⟩, rfl⟩

/-- The heal of the second disk by the record of the first. -/
def byteHeal : HealInput where
  latestMeta := readRecord 2
  outDatedDisks := [none, some (hostDisk "b")]
  partsMetadata := [readRecord 2, {}]
  migrateDataDir := ""
  written _ := some [7]

end Obstor.Coding
