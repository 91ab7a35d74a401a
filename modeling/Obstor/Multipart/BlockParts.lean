import Obstor.Block.PutRead
import Obstor.Erasure.Coding
import Obstor.Lib.Overwrite
import Obstor.Meta.Journal
import Obstor.Multipart.Parts

/-!
# Parts of a block-replicated upload

`putBlockReplicatedPart` (`cmd/erasure-multipart.go`) stores the blocks of a part and puts them into
the block list of the upload: the blocks of a part stand from the number of blocks of the parts with
smaller numbers on, at the time of the upload. Blocks that have one of these indices are dropped,
and the new ones are appended. `CompleteMultipartUpload` keeps the block list as it is, and
`renameData` then moves a data directory that such an upload does not make.

* `Lined` is what uploads that append keep, by `lined_addPart` for one upload and `Uploaded.lined`
  for a history. From it `completed_of_appended` reads a completed object back as its listed parts.
* `unlisted_part_is_read`: a part that is not listed stays in the object.
* `passesChecks_put_iff`: which records of a put and of a new upload pass the checks on a disk.
-/

namespace Obstor.Multipart

open Go Lib Meta Block Quorum List Function ObjectPartInfo
open Coding (ceilFrac ceilFrac_eq)

/-! ### The upload of a part -/

/-- What the upload of a part is given besides its stream. -/
structure PartOptions where
  partID : ℤ
  /-- `data.Size()`, the length the client announced, `-1` if unknown. -/
  size : ℤ
  actualSize : ℤ
  md5hex : String
  /-- `UTCNow()`. -/
  now : Time
  /-- The metadata of the upload under its write lock: what `GetLock`, `checkUploadIDExists` and
  `pickValidFileInfo` over the metadata that is read again give. -/
  reread : Except Err FileInfo

/-- The loop that counts the blocks of the parts before `partID`. -/
def blockOffset (blockSize : ℕ) (partID : ℤ) : List ObjectPartInfo → ℕ
  | [] => 0
  | p :: rest =>
    if p.number = partID then 0
    else ceilFrac p.size.toNat blockSize + blockOffset blockSize partID rest

/-- The block list of the upload with the blocks of a part from `off` on. -/
def placeBlocks (off : ℕ) (partBlocks old : List BlockRef) : List BlockRef :=
  (old.filter fun blk => blk.index < (off : ℤ) ∨ blk.index ≥ (off + partBlocks.length : ℤ)) ++
    partBlocks.mapIdx fun i blk => { blk with index := (off + i : ℤ) }

/-- The metadata of the upload with one more part. -/
def addPart (blockSize : ℕ) (opts : PartOptions) (partBlocks : List BlockRef) (partSize : ℤ)
    (fi : FileInfo) : FileInfo :=
  let parts := addObjectPart fi.parts
    { number := opts.partID, etag := opts.md5hex, size := partSize, actualSize := opts.actualSize }
  { fi with
    modTime := opts.now
    parts := parts
    blocks := placeBlocks (blockOffset blockSize opts.partID parts) partBlocks fi.blocks }

/-- `putBlockReplicatedPart`: the disks afterwards, and the answer with the metadata it wrote, or an
error. -/
def putBlockReplicatedPart (cfg : Config) (ρ : RangeOrder) (faults : PutFaults)
    (opts : PartOptions) (src : Source) (disks : List (Option BlockDisk)) :
    List (Option BlockDisk) × Except Err (PartInfo × FileInfo) :=
  let c := chunkLoop ρ faults.block cfg.writeQuorum cfg.effectiveBlockSize.toNat
    (effectiveBlockSize_pos cfg) src disks [] 0 0
  match c.2 with
  | .error err => (c.1, .error err)
  | .ok (partBlocks, partSize) =>
    if opts.size > 0 ∧ partSize < opts.size then (c.1, .error (.api .incompleteBody))
    else
      match opts.reread with
      | .error err => (c.1, .error err)
      | .ok fi =>
        let fi := addPart cfg.effectiveBlockSize.toNat opts partBlocks partSize fi
        let w := writeUniqueFileInfo ρ faults.metadata fi c.1 cfg.writeQuorum
        match w.2 with
        | some err => (w.1, .error (toObjectErr err))
        | none => (w.1, .ok (⟨opts.partID, opts.md5hex, opts.now, partSize, opts.actualSize⟩, fi))

/-! ### Completion -/

/-- The upload on one disk, when the completion moves it to the object. -/
structure UploadDir where
  /-- The error of a call that fails there. -/
  fault : Option Err
  /-- The upload has a data directory. An erasure-coded upload of a part makes it, one of
  `putBlockReplicatedPart` does not. -/
  hasDataDir : Bool

/-- `RenameData` of the upload: the data directory is moved unless the object is empty.
Source: `cmd/xl-storage.go`, `RenameData`, `cmd/os-reliable.go`, `renameAll` -/
def UploadDir.renameData (fi : FileInfo) (dir : UploadDir) : Option Err :=
  dir.fault.or
    (if fi.dataDir ≠ "" ∧ fi.data.length = 0 ∧ fi.size > 0 ∧ !dir.hasDataDir
      then some .fileNotFound else none)

/-- The error of one disk in `renameData`.
Source: `cmd/erasure-object.go` -/
def renameErr (fi : FileInfo) : Option UploadDir → Option Err
  | none => some .diskNotFound
  | some dir => if fi.isValid then dir.renameData fi else some .fileCorrupt

/-- What the completion is given besides the list of parts. -/
structure CompleteOptions where
  canonicalizeETag : String → String
  /-- `opts.MTime`, or the current time. -/
  modTime : Time
  /-- The entity tag of the request, or `getCompleteMultipartMD5` of the parts. -/
  etag : String
  /-- The metadata of the upload, as in `PartOptions`. -/
  reread : Except Err FileInfo
  /-- The error of writing the metadata or of the object's lock. -/
  writeErr : Option Err
  /-- The disks that have the metadata, after `removeObjectPart`. -/
  dirs : List (Option UploadDir)

inductive CompleteErr
  | part (e : PartErr)
  | storage (e : Err)
  deriving DecidableEq

/-- The metadata of the completed object; it keeps the block list. -/
def completedFileInfo (opts : CompleteOptions) (fi : FileInfo) (done : CompletedParts) : FileInfo :=
  { fi with
    parts := done.parts
    size := done.objectSize
    modTime := opts.modTime
    metadata := some (GoMap.insertEntry "X-Obstor-Internal-actual-size"
      (toString done.objectActualSize)
      (GoMap.insertEntry "etag" opts.etag (fi.metadata.getD []))) }

/-- `CompleteMultipartUpload` of a block-replicated upload: the metadata it commits, or an error. -/
def completeMultipartUpload (cfg : Config) (ρ : RangeOrder) (opts : CompleteOptions)
    (parts : List CompletePart) : Except CompleteErr FileInfo :=
  match opts.reread with
  | .error err => .error (.storage err)
  | .ok currentFI =>
    match validateParts opts.canonicalizeETag currentFI.parts parts {} with
    | .error err => .error (.part err)
    | .ok done =>
      let fi := completedFileInfo opts currentFI done
      match opts.writeErr with
      | some err => .error (.storage err)
      | none =>
        match reduceWriteQuorumErrs ρ (opts.dirs.map (renameErr fi)) objectOpIgnoredErrs
            cfg.writeQuorum with
        | some err => .error (.storage (toObjectErr err))
        | none => .ok fi

/-- Reading a block list from its first entry to its last. -/
def readRefs (sources : List (Option BlockSource)) : List BlockRef → Except Err Bytes
  | [] => .ok []
  | blk :: rest =>
    match readBlock blk.hash sources with
    | .error err => .error err
    | .ok data =>
      match readRefs sources rest with
      | .error err => .error err
      | .ok tail => .ok (data ++ tail)

/-! ### Histories of uploads -/

/-- An upload of a part that was acknowledged. -/
structure Upload where
  partID : ℤ
  data : Bytes
  deriving DecidableEq

/-- The last content that was uploaded for a part. -/
def latest : List Upload → ℤ → Option Bytes
  | [], _ => none
  | u :: later, q => (latest later q).or (if u.partID = q then some u.data else none)

/-- Uploads to one upload id that all succeed: each call reads the metadata that the one before it
wrote. A disk that is away is one whose calls fail. -/
inductive Uploaded (cfg : Config) (start : FileInfo) (disks : List BlockDisk) :
    List Upload → FileInfo → List BlockDisk → Prop
  | nil : Uploaded cfg start disks [] start disks
  | snoc {us fi ds} (ρ faults opts src info fi' ds') (h : Uploaded cfg start disks us fi ds)
      (hreread : opts.reread = .ok fi)
      (hput : putBlockReplicatedPart cfg ρ faults opts src (ds.map some) =
        (map some ds', .ok (info, fi'))) :
      Uploaded cfg start disks (us ++ [⟨opts.partID, src.data⟩]) fi' ds'

/-! ### Parts that are appended -/

lemma latest_append (us : List Upload) (u : Upload) (q : ℤ) :
    latest (us ++ [u]) q = if u.partID = q then some u.data else latest us q := by
  induction us with
  | nil => simp [latest]
  | cons v later ih =>
    rw [cons_append, latest, ih, latest]
    split_ifs <;> simp

variable {us : List Upload}

lemma mem_of_latest {q : ℤ} {data : Bytes} (h : latest us q = some data) : ⟨q, data⟩ ∈ us := by
  induction us with
  | nil => cases h
  | cons u later ih =>
    rcases Option.or_eq_some_iff.mp h with hlater | ⟨-, hu⟩
    · exact mem_cons_of_mem _ (ih hlater)
    · split_ifs at hu with heq
      cases hu
      rw [← heq]
      exact mem_cons_self

/-- Each upload is of the part with the largest number so far, and a part that is uploaded again has
no fewer blocks than before. -/
def Appended (blockSize : ℕ) (us : List Upload) : Prop :=
  us.Pairwise fun u v => u.partID < v.partID ∨
    u.partID = v.partID ∧ ceilFrac u.data.length blockSize ≤ ceilFrac v.data.length blockSize

variable {kept tail : List ObjectPartInfo} {p : ObjectPartInfo}

lemma addObjectPart_last (hsorted : kept.Pairwise fun a b => a.number < b.number)
    (hkept : ∀ part ∈ kept, part.number < p.number)
    (htail : tail = [] ∨ ∃ old, tail = [old] ∧ old.number = p.number) :
    addObjectPart (kept ++ tail) p = kept ++ [p] := by
  have hskip : kept.findIdx? (fun part => p.number = part.number) = none := by
    rw [findIdx?_eq_none_iff]
    intro part hpart
    have := hkept part hpart
    exact decide_eq_false (by omega)
  rcases htail with rfl | ⟨old, rfl, hold⟩
  · have hle : (kept ++ [p]).Pairwise fun a b => a.number ≤ b.number := by
      refine pairwise_append.mpr ⟨hsorted.imp le_of_lt, pairwise_singleton _ _, ?_⟩
      intro part hpart q hq
      rw [mem_singleton.mp hq]
      exact (hkept part hpart).le
    rw [append_nil, addObjectPart, objectPartIndex, hskip]
    exact hle.insertionSort_eq
  · have hidx : objectPartIndex (kept ++ [old]) p.number = some kept.length := by
      simp [objectPartIndex, findIdx?_append, hskip, findIdx?_cons, hold]
    rw [addObjectPart, hidx]
    simp

lemma blockOffset_last (b : ℕ) (hkept : ∀ part ∈ kept, part.number < p.number) :
    blockOffset b p.number (kept ++ [p]) =
      (kept.map fun part => ceilFrac part.size.toNat b).sum := by
  induction kept with
  | nil => simp [blockOffset]
  | cons part rest ih =>
    obtain ⟨hlt, hrest⟩ := forall_mem_cons.mp hkept
    rw [cons_append, blockOffset, if_neg hlt.ne, ih hrest, map_cons, sum_cons]

/-! ### The block list of a history -/

/-- The entry of the block list for a block at an index. -/
def refOf (e : Bytes × ℕ) : BlockRef := ⟨hashBlockData e.1, e.1.length, e.2⟩

lemma placeBlocks_eq (off b : ℕ) (data : Bytes) (log : List (Bytes × ℕ)) :
    placeBlocks off (chunkRefs b data) (log.map refOf) =
      (overwrite log ⟨off, blocks b data⟩).map refOf := by
  have hlen : (chunkRefs b data).length = (blocks b data).length := refsFrom_length _ _
  unfold placeBlocks overwrite
  rw [map_append, filter_map, hlen]
  congr 1
  · refine congrArg (map refOf) (filter_congr fun e _ => decide_eq_decide.mpr ?_)
    show (e.2 : ℤ) < off ∨ (e.2 : ℤ) ≥ off + (blocks b data).length ↔
      ¬ (off ≤ e.2 ∧ e.2 < off + (blocks b data).length)
    omega
  · apply ext_getElem?
    intro i
    rw [getElem?_mapIdx, chunkRefs, refsFrom_getElem?, getElem?_map, Write.entries,
      getElem?_zipIdx, Option.map_map, Option.map_map]
    refine congrArg (fun f => Option.map f _) (funext fun blk => ?_)
    simp [refOf]

variable {fi : FileInfo}

lemma putBlockReplicatedPart_ok {cfg : Config} {ρ : RangeOrder} {faults : PutFaults}
    {opts : PartOptions} {src : Source} {disks disks' : List (Option BlockDisk)} {info : PartInfo}
    {fi' : FileInfo} (hreread : opts.reread = .ok fi)
    (h : putBlockReplicatedPart cfg ρ faults opts src disks = (disks', .ok (info, fi'))) :
    fi' = addPart cfg.effectiveBlockSize.toNat opts
        (chunkRefs cfg.effectiveBlockSize.toNat src.data) src.data.length fi ∧
      (∃ r, (chunkFold ρ faults.block cfg.writeQuorum
        (blocks cfg.effectiveBlockSize.toNat src.data) disks [] 0 0).2 = .ok r) ∧
      writeUniqueFileInfo ρ faults.metadata fi'
        (chunkFold ρ faults.block cfg.writeQuorum (blocks cfg.effectiveBlockSize.toNat src.data)
          disks [] 0 0).1 cfg.writeQuorum = (disks', none) := by
  unfold putBlockReplicatedPart at h
  rcases hc : (chunkLoop ρ faults.block cfg.writeQuorum cfg.effectiveBlockSize.toNat
    (effectiveBlockSize_pos cfg) src disks [] 0 0).2 with err | ⟨partBlocks, partSize⟩
  · simp [hc] at h
  · obtain ⟨hr, hfold⟩ := chunkLoop_ok hc
    obtain ⟨rfl, rfl⟩ := hr
    rw [hfold] at hc h
    simp only [hc, hreread] at h
    split_ifs at h
    · simp at h
    · generalize hw : writeUniqueFileInfo ρ faults.metadata _ _ cfg.writeQuorum = w at h
      obtain ⟨disks₁, _ | err⟩ := w
      · obtain ⟨rfl, -, rfl⟩ := h
        exact ⟨rfl, ⟨_, hc⟩, hw⟩
      · simp at h

def IsNew (fi : FileInfo) : Prop := fi.parts = [] ∧ fi.blocks = []

section Run

variable {cfg : Config} {start fi : FileInfo} {disks ds : List BlockDisk} {us : List Upload}

/-- The metadata after uploads that append: `done` has the last upload of each part, by number. -/
structure Lined (b : ℕ) (us done : List Upload) (fi : FileInfo) : Prop where
  sorted : done.Pairwise fun u v => u.partID < v.partID
  mem : ∀ u, u ∈ done ↔ latest us u.partID = some u.data
  parts : fi.parts.map (fun part => (part.number, part.size)) =
    done.map fun u => (u.partID, (u.data.length : ℤ))
  blocks : fi.blocks = (done.flatMap fun u => blocks b u.data).zipIdx.map refOf

/-- If no part has a larger number than `p`, only the last one can be `p`. -/
lemma exists_before_last {done : List Upload} {p : ℤ}
    (hsorted : done.Pairwise fun u v => u.partID < v.partID) (hle : ∀ u ∈ done, u.partID ≤ p) :
    ∃ kept tail, done = kept ++ tail ∧ (∀ u ∈ kept, u.partID < p) ∧
      (tail = [] ∨ ∃ old, tail = [old] ∧ old.partID = p) := by
  rcases eq_nil_or_concat' done with rfl | ⟨init, old, rfl⟩
  · exact ⟨[], [], rfl, by simp, .inl rfl⟩
  obtain ⟨-, -, hinit⟩ := pairwise_append.mp hsorted
  have hlast := hle old (by simp)
  have hlt : ∀ u ∈ init, u.partID < p := fun u hu =>
    (hinit u hu old (mem_singleton_self _)).trans_le hlast
  rcases hlast.lt_or_eq with hold | hold
  · refine ⟨init ++ [old], [], by simp, ?_, .inl rfl⟩
    intro u hu
    rcases mem_append.mp hu with hu | hu
    · exact hlt u hu
    · rwa [mem_singleton.mp hu]
  · exact ⟨init, [old], rfl, hlt, .inr ⟨old, rfl, hold⟩⟩

/-- The last upload of each part, after one more upload of the last part. -/
lemma mem_concat_iff_latest {kept tail us : List Upload} {new : Upload}
    (hmem : ∀ u, u ∈ kept ++ tail ↔ latest us u.partID = some u.data)
    (hlt : ∀ u ∈ kept, u.partID < new.partID) (htail : ∀ u ∈ tail, u.partID = new.partID)
    (u : Upload) : u ∈ kept ++ [new] ↔ latest (us ++ [new]) u.partID = some u.data := by
  rw [mem_append, latest_append, mem_singleton]
  by_cases heq : new.partID = u.partID
  · have hkept : u ∉ kept := fun hu => (hlt u hu).ne heq.symm
    simp only [if_pos heq, Option.some.injEq, hkept, false_or]
    constructor
    · rintro rfl
      rfl
    · intro hdata
      cases new
      cases u
      simp_all
  · have hne : u ≠ new := by
      rintro rfl
      exact heq rfl
    have hold : u ∉ tail := fun hu => heq (htail u hu).symm
    rw [if_neg heq, ← hmem u]
    simp [hold, hne]

/-- One more upload that appends keeps the blocks lined up. -/
lemma lined_addPart {b : ℕ} (hb : 0 < b) {us done : List Upload} {fi : FileInfo}
    (h : Lined b us done fi) (opts : PartOptions) (data : Bytes)
    (happ : ∀ u ∈ us, u.partID < opts.partID ∨ u.partID = opts.partID ∧
      ceilFrac u.data.length b ≤ ceilFrac data.length b) :
    ∃ done', Lined b (us ++ [⟨opts.partID, data⟩]) done'
      (addPart b opts (chunkRefs b data) data.length fi) := by
  have hus : ∀ u ∈ done, u ∈ us := fun u hu => mem_of_latest ((h.mem u).mp hu)
  obtain ⟨kept, tail, rfl, hlt, htail⟩ := exists_before_last (p := opts.partID) h.sorted
    fun u hu => (happ u (hus u hu)).elim le_of_lt fun heq => heq.1.le
  have hparts := h.parts
  rw [map_append] at hparts
  obtain ⟨keptParts, tailParts, hsplit, hkept, htailParts⟩ := map_eq_append_iff.mp hparts
  obtain ⟨hsorted, -, -⟩ := pairwise_append.mp h.sorted
  have hnumber : ∀ part ∈ keptParts, part.number < opts.partID := by
    intro part hpart
    have hmem := mem_map_of_mem (f := fun part => (part.number, part.size)) hpart
    rw [hkept] at hmem
    obtain ⟨u, hu, heq⟩ := mem_map.mp hmem
    rw [← (Prod.mk.inj heq).1]
    exact hlt u hu
  have hsortedParts : keptParts.Pairwise fun a b => a.number < b.number := by
    have hpairs : (keptParts.map fun part => (part.number, part.size)).Pairwise
        fun a b => a.1 < b.1 := by
      rw [hkept]
      exact pairwise_map.mpr hsorted
    exact (pairwise_map (f := fun part : ObjectPartInfo => (part.number, part.size))).mp hpairs
  have htailParts : tailParts = [] ∨ ∃ old, tailParts = [old] ∧ old.number = opts.partID := by
    rcases htail with rfl | ⟨old, rfl, hold⟩
    · exact .inl (map_eq_nil_iff.mp htailParts)
    · obtain ⟨part, rfl, hpart⟩ := map_eq_singleton_iff.mp htailParts
      exact .inr ⟨part, rfl, (Prod.mk.inj hpart).1.trans hold⟩
  -- the blocks of the parts before this one are as many as the offset says
  have hoff : (keptParts.map fun part => ceilFrac part.size.toNat b).sum =
      (kept.flatMap fun u => blocks b u.data).length := by
    have hsizes := congrArg (map fun q => ceilFrac q.2.toNat b) hkept
    rw [map_map, map_map] at hsizes
    rw [length_flatMap]
    refine congrArg sum (hsizes.trans (map_congr_left fun u _ => ?_))
    simp [ceilFrac_eq hb]
  have htailLength : (tail.flatMap fun u => blocks b u.data).length ≤ (blocks b data).length := by
    rcases htail with rfl | ⟨old, rfl, hold⟩
    · simp
    · rcases happ old (hus old (by simp)) with hlt | ⟨-, hle⟩
      · omega
      · simpa [ceilFrac_eq hb] using hle
  refine ⟨kept ++ [⟨opts.partID, data⟩], ?_, ?_, ?_, ?_⟩
  · refine pairwise_append.mpr ⟨hsorted, pairwise_singleton _ _, ?_⟩
    intro u hu v hv
    rw [mem_singleton.mp hv]
    exact hlt u hu
  · refine mem_concat_iff_latest h.mem hlt fun u hu => ?_
    rcases htail with rfl | ⟨old, rfl, hold⟩
    · cases hu
    · rwa [mem_singleton.mp hu]
  · rw [addPart, hsplit, addObjectPart_last hsortedParts hnumber htailParts, map_append, hkept,
      map_append]
    rfl
  · show placeBlocks _ _ _ = _
    rw [hsplit, addObjectPart_last hsortedParts hnumber htailParts,
      blockOffset_last b (p := ⟨opts.md5hex, opts.partID, data.length, opts.actualSize⟩) hnumber,
      hoff, h.blocks, placeBlocks_eq, flatMap_append, overwrite_append _ _ _ htailLength, flatMap_append]
    simp

/-- The blocks are lined up after any uploads that append. -/
lemma Uploaded.lined (hnew : IsNew start) (h : Uploaded cfg start disks us fi ds)
    (happ : Appended cfg.effectiveBlockSize.toNat us) :
    ∃ done, Lined cfg.effectiveBlockSize.toNat us done fi := by
  induction h with
  | nil => exact ⟨[], .nil, by simp [latest], by simp [hnew.1], by simp [hnew.2]⟩
  | snoc ρ faults opts src info fi' ds' h hreread hput ih =>
    obtain ⟨hbefore, -, hlast⟩ := pairwise_append.mp happ
    obtain ⟨done, hlined⟩ := ih hbefore
    obtain ⟨rfl, -, -⟩ := putBlockReplicatedPart_ok hreread hput
    exact lined_addPart (effectiveBlockSize_pos cfg) hlined opts src.data
      fun u hu => hlast u hu _ (mem_singleton_self _)

def uploadedBlocks (cfg : Config) (us : List Upload) : List Bytes :=
  us.flatMap fun u => blocks cfg.effectiveBlockSize.toNat u.data

lemma Uploaded.stored (h : Uploaded cfg start disks us fi ds) {bs : List Bytes}
    (hbs : ∀ blk ∈ uploadedBlocks cfg us, blk ∈ bs) :
    Forall₂ (Grown bs) disks ds ∧ ∀ blk ∈ uploadedBlocks cfg us, ∃ d ∈ ds, d.has blk := by
  induction h with
  | nil =>
    refine ⟨List.forall₂_same.mpr fun d _ => Grown.refl bs d, ?_⟩
    intro blk hblk
    cases hblk
  | snoc ρ faults opts src info fi' ds' h hreread hput ih =>
    have hsplit : ∀ us u, uploadedBlocks cfg (us ++ [u]) =
        uploadedBlocks cfg us ++ blocks cfg.effectiveBlockSize.toNat u.data := by
      intro us u
      simp [uploadedBlocks]
    rw [hsplit] at hbs ⊢
    obtain ⟨hgrown, hhas⟩ := ih fun blk hblk => hbs blk (mem_append_left _ hblk)
    obtain ⟨-, ⟨r, hfold⟩, hwrite⟩ := putBlockReplicatedPart_ok hreread hput
    obtain ⟨ds₁, hds₁, hstores, hcount⟩ :=
      chunkFold_stores (fun blk hblk => hbs blk (mem_append_right _ hblk)) hfold
    rw [hds₁] at hwrite
    have hfiles := writeUniqueFileInfo_files (congrArg Prod.fst hwrite)
    have hstep : Forall₂ (Grown bs) _ ds' :=
      forall₂_comp (fun d d₁ d' hd hd' => hd.2.of_files hd') hstores hfiles
    refine ⟨forall₂_comp (fun d d₁ d' hd hd' => hd.trans hd') hgrown hstep, fun blk hblk => ?_⟩
    rcases mem_append.mp hblk with hold | hnew
    · obtain ⟨d, hd, hdhas⟩ := hhas blk hold
      obtain ⟨d', hd', hgrown'⟩ := exists_of_mem_forall₂ hstep.flip hd
      exact ⟨d', hd', hgrown'.has hdhas⟩
    · have hpos := cfg.writeQuorum_pos
      have hle := hcount blk hnew
      have hlt : 0 < ds₁.countP (·.has blk) := by omega
      obtain ⟨d₁, hd₁, hd₁has⟩ := countP_pos_iff.mp hlt
      obtain ⟨d', hd', hsame⟩ := exists_of_mem_forall₂ hfiles.flip hd₁
      refine ⟨d', hd', ?_⟩
      unfold BlockDisk.has
      rw [BlockDisk.file_congr hsame]
      exact hd₁has

end Run

lemma readRefs_ok {sources : List (Option BlockSource)} {log : List (Bytes × ℕ)}
    (h : ∀ e ∈ log, readBlock (hashBlockData e.1) sources = .ok e.1) :
    readRefs sources (log.map refOf) = .ok (log.map Prod.fst).flatten := by
  induction log with
  | nil => rfl
  | cons e rest ih =>
    obtain ⟨hhead, hrest⟩ := forall_mem_cons.mp h
    rw [map_cons, readRefs]
    simp only [show (refOf e).hash = hashBlockData e.1 from rfl, hhead, ih hrest]
    rfl

lemma Uploaded.readRefs_eq {cfg : Config} {start : FileInfo} {disks ds : List BlockDisk}
    (hrun : Uploaded cfg start disks us fi ds) (hintact : Intact (uploadedBlocks cfg us) disks)
    (hfree : CollisionFree (uploadedBlocks cfg us)) {log : List (Bytes × ℕ)}
    (hlog : ∀ e ∈ log, e.1 ∈ uploadedBlocks cfg us) :
    readRefs (ds.map fun d => some d.readBlock) (log.map refOf) =
      .ok (log.map Prod.fst).flatten := by
  obtain ⟨hgrown, hhas⟩ := hrun.stored fun blk hblk => hblk
  apply readRefs_ok
  intro e he
  obtain ⟨d, hd, hdhas⟩ := hhas e.1 (hlog e he)
  exact (hintact.of_grown hfree hgrown).readBlock_ok (hlog e he) hd hdhas

/-! ### The completed object -/

def listedContent (us : List Upload) (parts : List CompletePart) : Bytes :=
  parts.flatMap fun part => (latest us part.partNumber).getD []

lemma blocks_of_completed {cfg : Config} {ρ : RangeOrder} {opts : CompleteOptions}
    {fi' : FileInfo} {parts : List CompletePart} (hreread : opts.reread = .ok fi)
    (h : completeMultipartUpload cfg ρ opts parts = .ok fi') : fi'.blocks = fi.blocks := by
  unfold completeMultipartUpload at h
  simp only [hreread] at h
  cases hv : validateParts opts.canonicalizeETag fi.parts parts {} with
  | error err => simp [hv] at h
  | ok done =>
    simp only [hv] at h
    split at h
    · cases h
    split at h
    · cases h
    cases h
    rfl

/-- Two lists of numbers in order give the same items if they have the same numbers with items. -/
lemma flatMap_eq_of_sorted {α : Type} {f : ℤ → List α} {l l' : List ℤ}
    (hl : l.Pairwise (· < ·)) (hl' : l'.Pairwise (· < ·))
    (h : ∀ q, f q ≠ [] → (q ∈ l ↔ q ∈ l')) : l.flatMap f = l'.flatMap f := by
  have hdrop : ∀ l : List ℤ, (l.filter fun q => !(f q).isEmpty).flatMap f = l.flatMap f := by
    intro l
    induction l with
    | nil => rfl
    | cons q rest ih =>
      cases hq : f q with
      | nil => simp [hq, ih]
      | cons a as => simp [hq, ih]
  have hfilter : l.filter (fun q => !(f q).isEmpty) = l'.filter fun q => !(f q).isEmpty := by
    refine (hl.filter _).eq_of_mem_iff (hl'.filter _) fun q => ?_
    simp only [mem_filter, Bool.not_eq_true', isEmpty_eq_false_iff]
    exact and_congr_left fun hne => h q hne
  rw [← hdrop l, hfilter, hdrop]

lemma Lined.listedContent_eq {b : ℕ} {done : List Upload} (h : Lined b us done fi)
    {parts : List CompletePart} (hincr : parts.Pairwise fun a b => a.partNumber < b.partNumber)
    (hall : ∀ u ∈ us, u.data ≠ [] → u.partID ∈ parts.map CompletePart.partNumber) :
    done.flatMap Upload.data = listedContent us parts := by
  have hdone : done.flatMap Upload.data =
      (done.map Upload.partID).flatMap fun q => (latest us q).getD [] := by
    rw [flatMap_map]
    refine flatMap_congr fun u hu => ?_
    rw [(h.mem u).mp hu, Option.getD_some]
  rw [hdone, listedContent, ← flatMap_map CompletePart.partNumber fun q => (latest us q).getD []]
  refine flatMap_eq_of_sorted (pairwise_map.mpr h.sorted) (pairwise_map.mpr hincr) fun q hq => ?_
  cases hlatest : latest us q with
  | none => simp [hlatest] at hq
  | some data =>
    rw [hlatest, Option.getD_some] at hq
    have hmem : (⟨q, data⟩ : Upload) ∈ done := (h.mem ⟨q, data⟩).mpr hlatest
    exact iff_of_true (mem_map_of_mem (f := Upload.partID) hmem)
      (hall _ (mem_of_latest hlatest) hq)

/-! ### Uploads to healthy disks -/

lemma putBlockReplicatedPart_healthy (cfg : Config) (ρ : RangeOrder) (opts : PartOptions)
    (data : Bytes) (disks : List BlockDisk) (hreread : opts.reread = .ok fi)
    (hsize : opts.size ≤ data.length) (hq : cfg.writeQuorum ≤ disks.length) :
    let b := cfg.effectiveBlockSize.toNat
    let fi' := addPart b opts (chunkRefs b data) data.length fi
    fi'.blocks ≠ [] → putBlockReplicatedPart cfg ρ .none opts ⟨data, none⟩ (disks.map some) =
      ((disks.map fun d => { (blocks b data).foldl BlockDisk.store d with info := .ok fi' }).map some,
        .ok (⟨opts.partID, opts.md5hex, opts.now, data.length, opts.actualSize⟩, fi')) := by
  intro b fi' hblocks
  have hb := effectiveBlockSize_pos cfg
  have hup : ∀ l : List BlockDisk, l.length = disks.length →
      cfg.writeQuorum ≤ (upCount (fun _ => false) l.length : ℕ) := by
    intro l hl
    simpa [upCount, hl] using hq
  have hfi : addPart cfg.effectiveBlockSize.toNat opts
      (refsFrom 0 (blocks cfg.effectiveBlockSize.toNat data)) data.length fi = fi' := rfl
  unfold putBlockReplicatedPart PutFaults.none
  simp only [(chunkLoop_eq ..).1 rfl, chunkFold_failing ρ (fun _ => false) _ (hup disks rfl), hreread,
    nil_append, zero_add, flatten_blocks hb, hfi]
  rw [if_neg (by omega), writeUniqueFileInfo_failing ρ (fun _ => false) hblocks (hup _ (by simp))]
  simp only [Bool.false_eq_true, if_false, mapIdx_const, map_map, comp_def]
  rfl

/-- **A completed upload is read back as its listed parts** if the parts came in the order of their
numbers, a part that came again had no fewer blocks than before, and every part with content is
listed. No condition on numbers and sizes alone is exact, since parts may have equal contents. -/
theorem completed_of_appended {cfg : Config} {start fi fi' : FileInfo} {disks ds : List BlockDisk}
    {us : List Upload} (hnew : IsNew start) (hrun : Uploaded cfg start disks us fi ds)
    (hintact : Intact (uploadedBlocks cfg us) disks)
    (hfree : CollisionFree (uploadedBlocks cfg us)) {ρ : RangeOrder} {opts : CompleteOptions}
    {parts : List CompletePart} (hreread : opts.reread = .ok fi)
    (hdone : completeMultipartUpload cfg ρ opts parts = .ok fi')
    (happ : Appended cfg.effectiveBlockSize.toNat us)
    (hincr : parts.Pairwise fun a b => a.partNumber < b.partNumber)
    (hall : ∀ u ∈ us, u.data ≠ [] → u.partID ∈ parts.map CompletePart.partNumber) :
    readRefs (ds.map fun d => some d.readBlock) fi'.blocks = .ok (listedContent us parts) := by
  have hb := effectiveBlockSize_pos cfg
  obtain ⟨done, hlined⟩ := hrun.lined hnew happ
  have hlog : ∀ e ∈ (done.flatMap fun u => blocks cfg.effectiveBlockSize.toNat u.data).zipIdx,
      e.1 ∈ uploadedBlocks cfg us := by
    intro e he
    obtain ⟨u, hu, hblk⟩ := mem_flatMap.mp (fst_mem_of_mem_zipIdx he)
    exact mem_flatMap.mpr ⟨u, mem_of_latest ((hlined.mem u).mp hu), hblk⟩
  rw [blocks_of_completed hreread hdone, hlined.blocks, hrun.readRefs_eq hintact hfree hlog,
    ← hlined.listedContent_eq hincr hall, zipIdx_map_fst, flatten_eq_flatMap, flatMap_assoc]
  refine congrArg _ (flatMap_congr fun u _ => ?_)
  rw [← flatten_eq_flatMap, flatten_blocks hb]

/-! ### Uploads to four disks -/

/-- The metadata of a new upload of an erasure-coded set of four disks. -/
def newUpload : FileInfo :=
  { dataDir := "d"
    erasure := { dataBlocks := 2, parityBlocks := 2, index := 1, distribution := [1, 2, 3, 4] } }

/-- An upload of part `n`, the metadata being `fi`; the content is a compressed one of five MiB. -/
def partOptions (n : ℤ) (fi : FileInfo) : PartOptions :=
  ⟨n, -1, 5 * 1024 * 1024, "e", ⟨n⟩, .ok fi⟩

/-- The metadata after one more part. -/
def withPart (n : ℤ) (data : Bytes) (fi : FileInfo) : FileInfo :=
  addPart threeReplicas.effectiveBlockSize.toNat (partOptions n fi)
    (chunkRefs threeReplicas.effectiveBlockSize.toNat data) data.length fi

lemma Uploaded.withPart {start : FileInfo} {disks ds : List BlockDisk}
    (h : Uploaded threeReplicas start disks us fi ds) (n : ℤ) (data : Bytes)
    (hblocks : (withPart n data fi).blocks ≠ []) (hlen : ds.length = 4) :
    ∃ ds', Uploaded threeReplicas start disks (us ++ [⟨n, data⟩]) (withPart n data fi) ds' ∧
      ds'.length = 4 := by
  have hput := putBlockReplicatedPart_healthy threeReplicas .inOrder (partOptions n fi) data ds rfl
    (by simp [partOptions]) (by rw [hlen]; decide) hblocks
  exact ⟨_, .snoc _ _ (partOptions n fi) ⟨data, none⟩ _ _ _ h rfl hput, by rw [length_map, hlen]⟩

lemma intact_emptyDisks (bs : List Bytes) (n : ℕ) : Intact bs (replicate n emptyDisk) := by
  intro d hd blk _ content hfile
  rw [eq_of_mem_replicate hd] at hfile
  cases hfile

/-- The completion of an upload with metadata `fi`; each disk has a data directory or none has. -/
def completeOptions (fi : FileInfo) (hasDataDir : Bool) : CompleteOptions :=
  ⟨id, ⟨3⟩, "t", .ok fi, none, replicate 4 (some ⟨none, hasDataDir⟩)⟩

/-- The metadata after the parts 1 and 2, and part 2 again. -/
def partAgain : FileInfo := withPart 2 [3] (withPart 2 [2] (withPart 1 [1] newUpload))

/-- The metadata after part 1 and an empty part 2. -/
def emptyPart : FileInfo := withPart 2 [] (withPart 1 [1] newUpload)

/-- Part 2 is uploaded twice, and both parts are listed. An erasure-coded upload of a part that did
not come to its end has left the data directory. -/
theorem completed_of_appended_again : ∃ ds fi',
    Uploaded threeReplicas newUpload (replicate 4 emptyDisk) [⟨1, [1]⟩, ⟨2, [2]⟩, ⟨2, [3]⟩]
        partAgain ds ∧
      completeMultipartUpload threeReplicas .inOrder (completeOptions partAgain true)
        [⟨1, "e"⟩, ⟨2, "e"⟩] = .ok fi' ∧
      readRefs (map (fun d => some (BlockDisk.readBlock d)) ds) fi'.blocks = .ok [1, 3] := by
  have h₀ : Uploaded threeReplicas newUpload (replicate 4 emptyDisk) [] newUpload _ := .nil
  obtain ⟨ds₁, h₁, hlen₁⟩ := h₀.withPart 1 [1] (by decide +kernel) rfl
  obtain ⟨ds₂, h₂, hlen₂⟩ := h₁.withPart 2 [2] (by decide +kernel) hlen₁
  obtain ⟨ds, hrun, -⟩ := h₂.withPart 2 [3] (by decide +kernel) hlen₂
  have hdone : completeMultipartUpload threeReplicas .inOrder (completeOptions partAgain true)
      [⟨1, "e"⟩, ⟨2, "e"⟩] = .ok (completedFileInfo (completeOptions partAgain true) partAgain
        ⟨[{ number := 1, size := 1, actualSize := 5 * 1024 * 1024 },
          { number := 2, size := 1, actualSize := 5 * 1024 * 1024 }], 2, 10 * 1024 * 1024⟩) := rfl
  exact ⟨ds, _, hrun, hdone, completed_of_appended ⟨rfl, rfl⟩ hrun (intact_emptyDisks _ 4)
    (by unfold CollisionFree; decide +kernel) rfl hdone (by unfold Appended; decide +kernel)
    (by decide) (by decide)⟩

/-- Part 1 and an empty part 2 are uploaded, and the completion lists part 2 only: the object is read
as part 1. -/
theorem unlisted_part_is_read : ∃ ds fi',
    Uploaded threeReplicas newUpload (replicate 4 emptyDisk) [⟨1, [1]⟩, ⟨2, []⟩] emptyPart ds ∧
      completeMultipartUpload threeReplicas .inOrder (completeOptions emptyPart false)
        [⟨2, "e"⟩] = .ok fi' ∧
      readRefs (map (fun d => some (BlockDisk.readBlock d)) ds) fi'.blocks = .ok [1] ∧
      listedContent [⟨1, [1]⟩, ⟨2, []⟩] [⟨2, "e"⟩] = [] := by
  have h₀ : Uploaded threeReplicas newUpload (replicate 4 emptyDisk) [] newUpload _ := .nil
  obtain ⟨ds₁, h₁, hlen₁⟩ := h₀.withPart 1 [1] (by decide +kernel) rfl
  obtain ⟨ds, hrun, -⟩ := h₁.withPart 2 [] (by decide +kernel) hlen₁
  have hdone : completeMultipartUpload threeReplicas .inOrder (completeOptions emptyPart false)
      [⟨2, "e"⟩] = .ok (completedFileInfo (completeOptions emptyPart false) emptyPart
        ⟨[{ number := 2, size := 0, actualSize := 5 * 1024 * 1024 }], 0, 5 * 1024 * 1024⟩) := rfl
  have hlog : ∀ e ∈ [(([1] : Bytes), 0)],
      e.1 ∈ uploadedBlocks threeReplicas [⟨1, [1]⟩, ⟨2, []⟩] := by
    decide +kernel
  have hread := hrun.readRefs_eq (intact_emptyDisks _ 4)
    (by unfold CollisionFree; decide +kernel) hlog
  exact ⟨ds, _, hrun, hdone, hread, by decide⟩

/-! ### The checks of the metadata -/

/-- The record of `newMultipartUpload`, with `pathJoin(bucket, object)` for the name. -/
def multipartFileInfo (blockSize : ℤ) (opts : PutOptions) (name : String) : FileInfo :=
  { putFileInfo blockSize opts [] 0 with
    name := name
    metadata := some (withDefault (opts.userDefined.getD []) "content-type" opts.mimeType)
    parts := [] }

/-- The record that `writeUniqueFileInfo` writes to the disk at index `i`. -/
def forDisk (fi : FileInfo) (i : ℕ) : FileInfo :=
  if fi.blocks.length = 0 then { fi with erasure := { fi.erasure with index := i + 1 } } else fi

/-- The write on a healthy disk passes `IsValid`, and the entry that `AddVersion` makes there passes
`Valid`. -/
def PassesChecks (fi : FileInfo) (i : ℕ) (d : BlockDisk) : Prop :=
  (writeFileInfo none fi i (some d)).2 = none ∧
    ∀ uv dd, (XlMetaV2Version.object (newObject uv dd (forDisk fi i))).valid = true

lemma writeFileInfo_snd (fi : FileInfo) (i : ℕ) (d : BlockDisk) :
    (writeFileInfo none fi i (some d)).2 =
      if (forDisk fi i).isValid then none else some .corruptedFormat := by
  have hwrite : writeFileInfo none fi i (some d) = if (forDisk fi i).isValid then
      callDisk none (fun d => d.writeMetadata (forDisk fi i)) (some d)
    else (some d, some .corruptedFormat) := rfl
  rw [hwrite]
  split_ifs <;> rfl

/-- Without parity, the check of the journal asks for a positive time, that of the writer for a
block list. -/
lemma passesChecks_iff {fi : FileInfo} (hdeleted : fi.deleted = false)
    (hdata : fi.erasure.dataBlocks = 1) (hparity : fi.erasure.parityBlocks = 0) (i : ℕ)
    (d : BlockDisk) : PassesChecks fi i d ↔ fi.blocks ≠ [] ∧ 0 < fi.modTime.unixNano := by
  have halgo : ∀ s, (erasureAlgoFromString s).valid := fun s => by
    unfold erasureAlgoFromString
    split_ifs <;> rfl
  rw [PassesChecks, writeFileInfo_snd, forDisk]
  by_cases hblocks : fi.blocks = []
  · simp [FileInfo.isValid, hdeleted, hblocks, hparity]
  · simp [hblocks, FileInfo.isValid_of_blocks hblocks, hdata, hparity, ChecksumAlgo.valid, halgo,
      XlMetaV2Version.valid, XlMetaV2Object.valid, newObject, isXLMetaErasureInfoValid]

/-- The record of a put passes the checks if there is data, that of a new upload never. -/
theorem passesChecks_put_iff (cfg : Config) (data : Bytes) (opts : PutOptions) (name : String)
    (i : ℕ) (d : BlockDisk) :
    let b := cfg.effectiveBlockSize
    (PassesChecks (putFileInfo b opts (chunkRefs b.toNat data) data.length) i d ↔
        data ≠ [] ∧ 0 < opts.modTime.unixNano) ∧
      ¬ PassesChecks (multipartFileInfo b opts name) i d := by
  intro b
  constructor
  · rw [passesChecks_iff rfl rfl rfl]
    refine and_congr_left fun _ => not_congr ?_
    change chunkRefs b.toNat data = [] ↔ _
    rw [← length_eq_zero_iff, chunkRefs, refsFrom_length, length_eq_zero_iff]
    constructor
    · intro hnil
      rw [← flatten_blocks (effectiveBlockSize_pos cfg) data, hnil]
      rfl
    · rintro rfl
      exact blocks_nil (effectiveBlockSize_pos cfg)
  · rw [passesChecks_iff rfl rfl rfl]
    exact fun h => h.1 rfl

/-- The write of an empty object fails on a disk, and so does the start of an upload. -/
theorem empty_put_refused :
    (writeFileInfo none (plainInfo []) 0 (some emptyDisk)).2 = some .corruptedFormat ∧
      (writeFileInfo none (multipartFileInfo 65536 plainPut "bucket/object") 0
        (some emptyDisk)).2 = some .corruptedFormat := by
  exact ⟨rfl, rfl⟩

end Obstor.Multipart
