import Obstor.Block.Placement
import Obstor.Quorum.Selection

/-!
# Healing a block-replicated object

`healBlockReplicatedObject` (`cmd/erasure-healing.go`) copies every block of the object from a drive
that has it to the outdated drives (`BlockReplicator.HealBlock`, `cmd/erasure-utils.go`), writes the
metadata to them, and reports a drive as healed if its metadata was written. Which drives are
available and which are outdated is decided before, by `disksWithAllParts`
(`cmd/erasure-healing-common.go`) and `shouldHealObjectOnDisk`.

`heal_truthful_iff`: when the report can be trusted. The loop over the blocks only fills in what a
drive lacks (`healBlocksLoop_filled`), a drive is marked exactly if its metadata was written
(`healMetadataLoop_after`), and it holds a block afterwards if it held it before, or had no file of
that name and a write reached it (`Filled.holds_iff`). A corrupt file is never replaced
(`corrupt_block_reported_ok`).
-/

namespace Obstor.Block

open Go Lib Meta Quorum List

/-! ### Drives and reports -/

structure Drive where
  endpoint : String
  disk : BlockDisk

/-- The states of a drive that the report of a healed object can have.
Source: `pkg/madmin/heal-commands.go` -/
inductive DriveState
  | ok
  | offline
  | corrupt
  | missing
  deriving DecidableEq

structure HealDriveInfo where
  endpoint : String
  state : DriveState
  deriving DecidableEq

/-- `madmin.HealResultItem`, as far as the healing of blocks reads or changes it. -/
structure HealResultItem where
  before : List HealDriveInfo
  after : List HealDriveInfo
  objectSize : ℤ
  deriving DecidableEq

/-! ### Which drives are healed -/

/-- `disksWithAllParts` for one drive of a block-replicated object: whether it is available, and the
error of its data. Only the first block is looked at. -/
def diskWithAllParts (onlineDisk : Option BlockDisk) (answer : Answer) : Bool × Option Err :=
  match answer, onlineDisk with
  | .error err, _ => (false, some err)
  | .ok _, none => (false, some .diskNotFound)
  | .ok fi, some disk =>
    if !fi.isValid then (false, none)
    else
      match fi.blocks with
      | [] => (true, none)
      | blk :: _ =>
        match disk.readBlock blk.hash with
        | .error _ => (false, some .fileCorrupt)
        | .ok data =>
          match verifyBlockHash data blk.hash with
          | some _ => (false, some .fileCorrupt)
          | none => (true, none)

def shouldHealObjectOnDisk (dataErr : Option Err) (answer : Answer) (quorumModTime : Time) : Bool :=
  match answer with
  | .error err => err.is .fileNotFound || err.is .fileVersionNotFound || err.is .corruptedFormat
  | .ok fi =>
    errorsIs dataErr .fileNotFound || errorsIs dataErr .fileVersionNotFound ||
      errorsIs dataErr .fileCorrupt || quorumModTime ≠ fi.modTime || fi.xlv1

/-! ### The healing -/

/-- What the healing is given: the metadata to write, the available and the outdated drives by their
positions, and how its calls fail: reading block number `k` from drive `i`, writing it there, and
writing the metadata there. -/
structure HealInput where
  latestMeta : FileInfo
  available : ℕ → Bool
  outdated : ℕ → Bool
  readFault : ℕ → ℕ → Option Err
  writeFault : ℕ → ℕ → Option Fault
  metadataFault : ℕ → Option Fault

section Model

variable (inp : HealInput)

def healSources (k : ℕ) (drives : List Drive) : List (Option BlockSource) :=
  drives.mapIdx fun i drive =>
    if inp.available i then
      some fun hash => match inp.readFault k i with
        | some err => .error err
        | none => drive.disk.readBlock hash
    else none

/-- The call of `WriteBlock` on the drive at position `i`, if it is a target. -/
def healDrive (k : ℕ) (blockHash : String) (data : Bytes) (i : ℕ) (drive : Drive) :
    Drive × Option Err :=
  let w := callOn (inp.writeFault k i) (fun d => d.writeBlock blockHash data) drive.disk
  if inp.outdated i then ({ drive with disk := w.1 }, w.2) else (drive, none)

/-- How many targets there are, and on how many of them the call succeeds. -/
def healCounts (k : ℕ) (blockHash : String) (data : Bytes) (drives : List Drive) : ℕ × ℕ :=
  let targets := (drives.mapIdx fun i drive => (i, drive)).filter fun t => inp.outdated t.1
  (targets.length, targets.countP fun t => (healDrive inp k blockHash data t.1 t.2).2.isNone)

/-- `BlockReplicator.HealBlock` for block number `k`. -/
def healBlock (k : ℕ) (blockHash : String) (drives : List Drive) : List Drive × Except Err ℕ :=
  match readBlock blockHash (healSources inp k drives) with
  | .error err => (drives, .error err)
  | .ok data =>
    let drives' := drives.mapIdx fun i drive => (healDrive inp k blockHash data i drive).1
    let (attempted, healed) := healCounts inp k blockHash data drives
    if healed = 0 ∧ attempted > 0 then
      (drives', .error (.new 2 s!"heal block {blockHash}: all {attempted} target writes failed"))
    else (drives', .ok healed)

def healBlocksLoop : ℕ → List BlockRef → List Drive → List Drive × Option Err
  | _, [], drives => (drives, none)
  | k, blk :: rest, drives =>
    match healBlock inp k blk.hash drives with
    | (drives', .error err) => (drives', some (toObjectErr err))
    | (drives', .ok _) => healBlocksLoop (k + 1) rest drives'

/-- The report with the drive of an endpoint marked as healed. -/
def markOk (before : List HealDriveInfo) (endpoint : String) (after : List HealDriveInfo) :
    List HealDriveInfo :=
  after.mapIdx fun j a =>
    if (before[j]?).any (fun v => v.endpoint = endpoint) then { a with state := .ok } else a

/-- The loop that writes the metadata, over the drives from position `i` on. -/
def healMetadataLoop (before : List HealDriveInfo) :
    ℕ → List Drive → List HealDriveInfo → List Drive × List HealDriveInfo
  | _, [], after => ([], after)
  | i, drive :: rest, after =>
    if inp.outdated i then
      let w := callOn (inp.metadataFault i) (fun d => d.writeMetadata inp.latestMeta) drive.disk
      let after' := if w.2.isSome then after else markOk before drive.endpoint after
      let r := healMetadataLoop before (i + 1) rest after'
      ({ drive with disk := w.1 } :: r.1, r.2)
    else
      let r := healMetadataLoop before (i + 1) rest after
      (drive :: r.1, r.2)

/-- `healBlockReplicatedObject`: the drives afterwards, the report and the error. -/
def healBlockReplicatedObject (drives : List Drive) (result : HealResultItem) :
    List Drive × HealResultItem × Option Err :=
  match healBlocksLoop inp 0 inp.latestMeta.blocks drives with
  | (drives', some err) => (drives', result, some err)
  | (drives', none) =>
    let m := healMetadataLoop inp result.before 0 drives' result.after
    (m.1, { result with after := m.2, objectSize := inp.latestMeta.size }, none)

end Model

/-! ### What the writes do to a drive -/

/-- The call took effect, whether it failed or not. -/
def tookEffect : Option Fault → Bool
  | none => true
  | some f => f.applied

lemma callOn_fst (fault : Option Fault) (call : BlockDisk → BlockDisk × Option Err)
    (d : BlockDisk) : (callOn fault call d).1 = if tookEffect fault then (call d).1 else d := by
  cases fault <;> rfl

/-- The files after writes of blocks: the names in `reached` have a file, with the right content if
there was none before. -/
structure Filled (reached : String → Prop) (d d' : BlockDisk) : Prop where
  kept : ∀ name content, d.file name = some content → d'.file name = some content
  filled : ∀ name, d.file name = none → reached name →
    ∃ content, d'.file name = some content ∧ hashBlockData content = name
  empty : ∀ name, d.file name = none → ¬ reached name → d'.file name = none

namespace Filled

variable {r r' : String → Prop} {d d' d'' : BlockDisk}

lemma refl (hr : ∀ name, ¬ r name) (d : BlockDisk) : Filled r d d where
  kept _ _ h := h
  filled name _ hreached := absurd hreached (hr name)
  empty _ h _ := h

lemma trans (h : Filled r d d') (h' : Filled r' d' d'') :
    Filled (fun name => r name ∨ r' name) d d'' where
  kept name content hname := h'.kept name content (h.kept name content hname)
  filled name hname hreached := by
    by_cases hr : r name
    · obtain ⟨content, hcontent, hhash⟩ := h.filled name hname hr
      exact ⟨content, h'.kept name content hcontent, hhash⟩
    · exact h'.filled name (h.empty name hname hr) (hreached.resolve_left hr)
  empty name hname hreached := by
    obtain ⟨hr, hr'⟩ := not_or.mp hreached
    exact h'.empty name (h.empty name hname hr) hr'

lemma congr (h : Filled r d d') (hiff : ∀ name, r name ↔ r' name) : Filled r' d d' := by
  have heq : r = r' := funext fun name => propext (hiff name)
  rw [← heq]
  exact h

lemma of_files (h : Filled r d d') (hfiles : d''.files = d'.files) : Filled r d d'' where
  kept name content hname := by
    rw [BlockDisk.file_congr hfiles]
    exact h.kept name content hname
  filled name hname hreached := by
    rw [BlockDisk.file_congr hfiles]
    exact h.filled name hname hreached
  empty name hname hreached := by
    rw [BlockDisk.file_congr hfiles]
    exact h.empty name hname hreached

lemma store (d : BlockDisk) (blk : Bytes) :
    Filled (fun name => name = hashBlockData blk) d (d.store blk) where
  kept := (Grown.store (mem_singleton_self blk)).kept
  filled name hname hreached := by
    rw [hreached] at hname ⊢
    refine ⟨blk, ?_, rfl⟩
    rw [BlockDisk.file_store_of_none hname]
    simp [BlockDisk.file]
  empty name hname hreached := by
    cases hfile : (d.store blk).file name with
    | none => rfl
    | some content =>
      rcases (Grown.store (mem_singleton_self blk)).added name content hfile with
        hold | ⟨hmem, heq⟩
      · rw [hname] at hold
        cases hold
      · rw [mem_singleton.mp hmem] at heq
        exact absurd heq hreached

end Filled

/-! ### The run over the blocks -/

section Run

variable {inp : HealInput}

/-- Some write of a block with this name to the drive at position `j` takes effect; the blocks are
those from number `k` on. -/
def Reached (inp : HealInput) (k : ℕ) (refs : List BlockRef) (j : ℕ) (name : String) : Prop :=
  inp.outdated j = true ∧
    ∃ n blk, refs[n]? = some blk ∧ blk.hash = name ∧ tookEffect (inp.writeFault (k + n) j) = true

lemma reached_nil (k j : ℕ) (name : String) : ¬ Reached inp k [] j name := by
  rintro ⟨-, n, blk, hblk, -⟩
  cases hblk

lemma reached_cons (k : ℕ) (blk : BlockRef) (rest : List BlockRef) (j : ℕ) (name : String) :
    (inp.outdated j ∧ tookEffect (inp.writeFault k j) ∧ name = blk.hash) ∨
        Reached inp (k + 1) rest j name ↔
      Reached inp k (blk :: rest) j name := by
  constructor
  · rintro (⟨hout, htook, rfl⟩ | ⟨hout, n, blk', hblk', rfl, htook⟩)
    · exact ⟨hout, 0, blk, rfl, rfl, htook⟩
    · refine ⟨hout, n + 1, blk', hblk', rfl, ?_⟩
      rw [← add_assoc, add_right_comm]
      exact htook
  · rintro ⟨hout, n, blk', hblk', rfl, htook⟩
    cases n with
    | zero =>
      cases hblk'
      exact Or.inl ⟨hout, htook, rfl⟩
    | succ n =>
      refine Or.inr ⟨hout, n, blk', hblk', rfl, ?_⟩
      rw [add_right_comm]
      exact htook

lemma healDrive_filled (k : ℕ) {hash : String} {data : Bytes} (hdata : hashBlockData data = hash)
    (j : ℕ) (drive : Drive) :
    (healDrive inp k hash data j drive).1.endpoint = drive.endpoint ∧
      Filled (fun name => inp.outdated j ∧ tookEffect (inp.writeFault k j) ∧
        name = hash) drive.disk (healDrive inp k hash data j drive).1.disk := by
  unfold healDrive
  by_cases hout : inp.outdated j
  · rw [if_pos hout]
    refine ⟨rfl, ?_⟩
    simp only [callOn_fst]
    by_cases htook : tookEffect (inp.writeFault k j)
    · rw [if_pos htook, ← hdata]
      refine (Filled.store drive.disk data).congr fun name => ?_
      rw [eq_true hout, eq_true htook, true_and, true_and]
    · rw [if_neg htook]
      exact Filled.refl (fun name h => htook h.2.1) _
  · rw [if_neg hout]
    exact ⟨rfl, Filled.refl (fun name h => hout h.1) _⟩

variable {k : ℕ} {drives drives' : List Drive}

lemma healBlock_ok {hash : String} {healed : ℕ}
    (h : healBlock inp k hash drives = (drives', .ok healed)) :
    ∃ data, hashBlockData data = hash ∧
      drives' = drives.mapIdx fun i drive => (healDrive inp k hash data i drive).1 := by
  unfold healBlock at h
  cases hread : readBlock hash (healSources inp k drives) with
  | error err => simp [hread] at h
  | ok data =>
    obtain ⟨source, -, -, hhash⟩ := readBlockLoop_ok hread
    simp only [hread] at h
    split_ifs at h
    · simp at h
    · simp only [Prod.mk.injEq] at h
      exact ⟨data, hhash, h.1.symm⟩

lemma healBlocksLoop_cons {blk : BlockRef} {rest : List BlockRef}
    (h : healBlocksLoop inp k (blk :: rest) drives = (drives', none)) :
    ∃ data, hashBlockData data = blk.hash ∧ healBlocksLoop inp (k + 1) rest
      (drives.mapIdx fun i drive => (healDrive inp k blk.hash data i drive).1) = (drives', none) := by
  rw [healBlocksLoop] at h
  rcases hblk : healBlock inp k blk.hash drives with ⟨drives₁, err | healed⟩
  · simp [hblk] at h
  · simp only [hblk] at h
    obtain ⟨data, hdata, rfl⟩ := healBlock_ok hblk
    exact ⟨data, hdata, h⟩

section

variable {refs : List BlockRef} (h : healBlocksLoop inp k refs drives = (drives', none))

include h

lemma healBlocksLoop_filled {j : ℕ} {drive' : Drive} (hd' : drives'[j]? = some drive') :
    ∃ drive, drives[j]? = some drive ∧ drive'.endpoint = drive.endpoint ∧
      Filled (Reached inp k refs j) drive.disk drive'.disk := by
  induction refs generalizing k drives with
  | nil =>
    cases h
    exact ⟨drive', hd', rfl, Filled.refl (reached_nil k j) _⟩
  | cons blk rest ih =>
    obtain ⟨data, hdata, h⟩ := healBlocksLoop_cons h
    obtain ⟨drive₁, hd₁, hend₁, hfilled₁⟩ := ih h
    rw [getElem?_mapIdx] at hd₁
    obtain ⟨drive, hd, rfl⟩ := Option.map_eq_some_iff.mp hd₁
    obtain ⟨hend, hfilled⟩ := healDrive_filled k hdata j drive
    exact ⟨drive, hd, hend₁.trans hend, (hfilled.trans hfilled₁).congr (reached_cons k blk rest j)⟩

lemma healBlocksLoop_endpoints : drives'.map Drive.endpoint = drives.map Drive.endpoint := by
  induction refs generalizing k drives with
  | nil =>
    cases h
    rfl
  | cons blk rest ih =>
    obtain ⟨data, hdata, h⟩ := healBlocksLoop_cons h
    rw [ih h, map_mapIdx]
    refine Eq.trans ?_ (mapIdx_const _ drives)
    exact congrArg (fun f => drives.mapIdx f)
      (funext fun i => funext fun drive => (healDrive_filled k hdata i drive).1)

end

end Run

/-! ### The report -/

section Report

variable {inp : HealInput} {before : List HealDriveInfo}

/-- The metadata reaches a drive whose endpoint is that of row `j`; the drives are those from
position `i` on. -/
def Marked (inp : HealInput) (before : List HealDriveInfo) (i : ℕ) (drives : List Drive) (j : ℕ) :
    Prop :=
  ∃ n drive v, drives[n]? = some drive ∧ inp.outdated (i + n) = true ∧
    inp.metadataFault (i + n) = none ∧ before[j]? = some v ∧ v.endpoint = drive.endpoint

lemma marked_cons (i : ℕ) (drive : Drive) (rest : List Drive) (j : ℕ) :
    (inp.outdated i ∧ inp.metadataFault i = none ∧
        ∃ v, before[j]? = some v ∧ v.endpoint = drive.endpoint) ∨
        Marked inp before (i + 1) rest j ↔
      Marked inp before i (drive :: rest) j := by
  constructor
  · rintro (⟨hout, hfault, v, hv, hend⟩ | ⟨n, drive', v, hd, hout, hfault, hv, hend⟩)
    · exact ⟨0, drive, v, rfl, hout, hfault, hv, hend⟩
    · rw [add_right_comm] at hout hfault
      exact ⟨n + 1, drive', v, hd, hout, hfault, hv, hend⟩
  · rintro ⟨n, drive', v, hd, hout, hfault, hv, hend⟩
    cases n with
    | zero =>
      cases hd
      exact Or.inl ⟨hout, hfault, v, hv, hend⟩
    | succ n =>
      rw [← add_assoc, add_right_comm] at hout hfault
      exact Or.inr ⟨n, drive', v, hd, hout, hfault, hv, hend⟩

lemma isSome_writeMetadata (fault : Option Fault) (fi : FileInfo) (d : BlockDisk) :
    (callOn fault (fun d => d.writeMetadata fi) d).2.isSome = fault.isSome := by
  cases fault <;> rfl

lemma markOk_getElem? (before : List HealDriveInfo) (endpoint : String)
    {after : List HealDriveInfo} {j : ℕ} {a : HealDriveInfo} (ha : after[j]? = some a) :
    ∃ a', (markOk before endpoint after)[j]? = some a' ∧
      (a'.state = .ok ↔ a.state = .ok ∨ ∃ v, before[j]? = some v ∧ v.endpoint = endpoint) := by
  unfold markOk
  rw [getElem?_mapIdx, ha]
  refine ⟨_, rfl, ?_⟩
  cases hv : before[j]? with
  | none => simp
  | some v => by_cases heq : v.endpoint = endpoint <;> simp [heq]

section

variable (inp : HealInput) (before : List HealDriveInfo) (i : ℕ) (drives : List Drive)

lemma healMetadataLoop_after {after : List HealDriveInfo} {j : ℕ} {a : HealDriveInfo}
    (ha : after[j]? = some a) :
    ∃ a', (healMetadataLoop inp before i drives after).2[j]? = some a' ∧
      (a'.state = .ok ↔ a.state = .ok ∨ Marked inp before i drives j) := by
  induction drives generalizing i after a with
  | nil =>
    refine ⟨a, ha, (or_iff_left ?_).symm⟩
    rintro ⟨n, drive, v, hd, -⟩
    cases hd
  | cons drive rest ih =>
    rw [healMetadataLoop]
    simp only [isSome_writeMetadata, ← marked_cons i drive rest j]
    by_cases hout : inp.outdated i
    · rw [if_pos hout]
      cases hfault : inp.metadataFault i with
      | some f =>
        obtain ⟨a', ha', hiff⟩ := ih (i + 1) ha
        refine ⟨a', ha', hiff.trans ?_⟩
        simp
      | none =>
        obtain ⟨a₁, ha₁, hiff₁⟩ := markOk_getElem? before _ ha
        obtain ⟨a', ha', hiff⟩ := ih (i + 1) ha₁
        refine ⟨a', ha', hiff.trans ?_⟩
        rw [hiff₁, or_assoc]
        simp [hout]
    · rw [if_neg hout]
      obtain ⟨a', ha', hiff⟩ := ih (i + 1) ha
      refine ⟨a', ha', hiff.trans ?_⟩
      simp [hout]

lemma healMetadataLoop_files (after : List HealDriveInfo) :
    Forall₂ (fun d d' => d'.disk.files = d.disk.files) drives
      (healMetadataLoop inp before i drives after).1 := by
  induction drives generalizing i after with
  | nil => exact Forall₂.nil
  | cons drive rest ih =>
    rw [healMetadataLoop]
    by_cases hout : inp.outdated i
    · rw [if_pos hout]
      refine Forall₂.cons ?_ (ih _ _)
      simp only [callOn_fst]
      split_ifs <;> rfl
    · rw [if_neg hout]
      exact Forall₂.cons rfl (ih _ _)

end

end Report

/-! ### What a report is worth -/

/-- The drive has the block of this name, intact. -/
def Holds (d : BlockDisk) (hash : String) : Prop :=
  ∃ content, d.file hash = some content ∧ hashBlockData content = hash

lemma Filled.holds_iff {r : String → Prop} {d d' : BlockDisk} (h : Filled r d d')
    (hash : String) : Holds d' hash ↔ Holds d hash ∨ d.file hash = none ∧ r hash := by
  constructor
  · rintro ⟨content, hfile, hhash⟩
    rcases hold : d.file hash with _ | old
    · refine Or.inr ⟨rfl, ?_⟩
      by_contra hr
      rw [h.empty hash hold hr] at hfile
      cases hfile
    · rw [h.kept hash old hold, Option.some_inj] at hfile
      exact Or.inl ⟨old, hold, hfile ▸ hhash⟩
  · rintro (⟨content, hfile, hhash⟩ | ⟨hnone, hr⟩)
    · exact ⟨content, h.kept hash content hfile, hhash⟩
    · exact h.filled hash hnone hr

/-- The report that a healing starts with has a row for each drive, and an outdated drive is not
reported as sound. No two drives have one endpoint. -/
structure Reports (inp : HealInput) (drives : List Drive) (result : HealResultItem) : Prop where
  nodup : (drives.map Drive.endpoint).Nodup
  before : result.before.map HealDriveInfo.endpoint = drives.map Drive.endpoint
  after : result.after.length = drives.length
  state : ∀ j a, inp.outdated j = true → result.after[j]? = some a → a.state ≠ .ok

/-- If the healing succeeds, every drive that it sets to OK has all blocks of the object. -/
def Truthful (inp : HealInput) (drives : List Drive) (result : HealResultItem) : Prop :=
  ∀ drives' (result' : HealResultItem),
    healBlockReplicatedObject inp drives result = (drives', result', none) →
    ∀ (j : ℕ) drive' a a', drives'[j]? = some drive' → result.after[j]? = some a → a.state ≠ .ok →
      result'.after[j]? = some a' → a'.state = .ok →
      ∀ blk ∈ inp.latestMeta.blocks, Holds drive'.disk blk.hash

section Truthful

variable {inp : HealInput} {drives drives₁ : List Drive} {result : HealResultItem}

lemma Reports.marked_iff (h : Reports inp drives result)
    (hends : drives₁.map Drive.endpoint = drives.map Drive.endpoint) {j : ℕ}
    (hj : j < drives.length) :
    Marked inp result.before 0 drives₁ j ↔ inp.outdated j ∧ inp.metadataFault j = none := by
  have hrow : ∀ v, result.before[j]? = some v →
      (drives.map Drive.endpoint)[j]? = some v.endpoint := by
    intro v hv
    rw [← h.before, getElem?_map, hv, Option.map_some]
  have hdrive : ∀ (n : ℕ) (drive : Drive), drives₁[n]? = some drive →
      (drives.map Drive.endpoint)[n]? = some drive.endpoint := by
    intro n drive hd
    rw [← hends, getElem?_map, hd, Option.map_some]
  constructor
  · rintro ⟨n, drive, v, hd, hout, hfault, hv, hend⟩
    have hn := hdrive n drive hd
    rw [← hend, ← hrow v hv] at hn
    have heq : j = n := (getElem?_inj (by rw [length_map]; exact hj) h.nodup).mp hn.symm
    rw [zero_add, ← heq] at hout hfault
    exact ⟨hout, hfault⟩
  · rintro ⟨hout, hfault⟩
    have hlen₁ : j < drives₁.length := by
      rw [← length_map _, hends, length_map]
      exact hj
    have hlenv : j < result.before.length := by
      rw [← length_map _, h.before, length_map]
      exact hj
    refine ⟨j, drives₁[j], result.before[j], getElem?_eq_getElem hlen₁, ?_, ?_,
      getElem?_eq_getElem hlenv, ?_⟩
    · rw [zero_add]
      exact hout
    · rw [zero_add]
      exact hfault
    · have hd := hdrive j _ (getElem?_eq_getElem hlen₁)
      rw [hrow _ (getElem?_eq_getElem hlenv)] at hd
      exact Option.some.inj hd

lemma Reports.after_heal (h : Reports inp drives result) {drives' : List Drive}
    {result' : HealResultItem}
    (hrun : healBlockReplicatedObject inp drives result = (drives', result', none)) {j : ℕ}
    {drive : Drive} (hd : drives[j]? = some drive) :
    ∃ drive', drives'[j]? = some drive' ∧
      Filled (Reached inp 0 inp.latestMeta.blocks j) drive.disk drive'.disk ∧
      ∃ a a', result.after[j]? = some a ∧ result'.after[j]? = some a' ∧
        (a'.state = .ok ↔ a.state = .ok ∨ inp.outdated j ∧ inp.metadataFault j = none) := by
  obtain ⟨hj, -⟩ := List.getElem?_eq_some_iff.mp hd
  unfold healBlockReplicatedObject at hrun
  rcases hloop : healBlocksLoop inp 0 inp.latestMeta.blocks drives with ⟨drives₁, _ | err⟩
  · simp only [hloop, Prod.mk.injEq, and_true] at hrun
    obtain ⟨rfl, rfl⟩ := hrun
    have hends := healBlocksLoop_endpoints hloop
    have hj₁ : j < drives₁.length := by
      rw [← length_map _, hends, length_map]
      exact hj
    obtain ⟨drive₀, hd₀, -, hfilled⟩ := healBlocksLoop_filled hloop (getElem?_eq_getElem hj₁)
    rw [hd, Option.some_inj] at hd₀
    rw [← hd₀] at hfilled
    have hfiles := healMetadataLoop_files inp result.before 0 drives₁ result.after
    have hj' : j < (healMetadataLoop inp result.before 0 drives₁ result.after).1.length := by
      rw [← hfiles.length_eq]
      exact hj₁
    have hja : j < result.after.length := by
      rw [h.after]
      exact hj
    have ha : result.after[j]? = some result.after[j] := getElem?_eq_getElem hja
    obtain ⟨a', ha', hiff⟩ := healMetadataLoop_after inp _ 0 drives₁ ha
    rw [h.marked_iff hends hj] at hiff
    refine ⟨_, getElem?_eq_getElem hj', hfilled.of_files ?_, _, a', ha, ha', hiff⟩
    exact hfiles.get hj₁ hj'
  · simp [hloop] at hrun

/-- **The report of a healing that returns nil is truthful, exactly** if every drive that gets the
metadata had each block intact, or did not have it and some write of it took effect. -/
theorem heal_truthful_iff (h : Reports inp drives result)
    (hnil : (healBlockReplicatedObject inp drives result).2.2 = none) :
    Truthful inp drives result ↔
      ∀ j drive, drives[j]? = some drive → inp.outdated j = true →
        inp.metadataFault j = none → ∀ blk ∈ inp.latestMeta.blocks,
          Holds drive.disk blk.hash ∨ drive.disk.file blk.hash = none ∧
            Reached inp 0 inp.latestMeta.blocks j blk.hash := by
  rcases hrun : healBlockReplicatedObject inp drives result with ⟨drives', result', err⟩
  obtain rfl : err = none := by
    rw [hrun] at hnil
    exact hnil
  constructor
  · intro htruth j drive hd hout hfault blk hblk
    obtain ⟨drive', hd', hfilled, a, a', ha, ha', hiff⟩ := h.after_heal hrun hd
    rw [← hfilled.holds_iff]
    exact htruth drives' result' hrun j drive' a a' hd' ha (h.state j a hout ha) ha'
      (hiff.mpr (Or.inr ⟨hout, hfault⟩)) blk hblk
  · intro hcond drives₂ result₂ hrun₂ j drive₂ a a' hd₂ ha hne ha' hok blk hblk
    rw [hrun] at hrun₂
    obtain ⟨rfl, rfl, rfl⟩ := hrun₂
    have hj : j < drives.length := by
      rw [← h.after]
      exact (List.getElem?_eq_some_iff.mp ha).1
    obtain ⟨drive', hd', hfilled, a₀, a₀', ha₀, ha₀', hiff⟩ :=
      h.after_heal hrun (getElem?_eq_getElem hj)
    rw [ha, Option.some_inj] at ha₀
    rw [ha', Option.some_inj] at ha₀'
    rw [hd₂, Option.some_inj] at hd'
    rw [← ha₀, ← ha₀'] at hiff
    rw [hd', hfilled.holds_iff]
    obtain ⟨hout, hfault⟩ := (hiff.mp hok).resolve_left hne
    exact hcond j _ (getElem?_eq_getElem hj) hout hfault blk hblk

end Truthful

/-! ### Four drives -/

/-- The metadata of an object with one block. -/
def healMeta : FileInfo :=
  { dataDir := "d", modTime := ⟨1⟩, size := 1, blocks := [⟨hashBlockData [1], 1, 0⟩] }

/-- Three sound drives, and one with other files. -/
def healDrives (files : List (String × Bytes)) : List Drive :=
  let sound : BlockDisk := ⟨[(hashBlockData [1], [1])], .ok healMeta⟩
  [⟨"a", sound⟩, ⟨"b", sound⟩, ⟨"c", sound⟩, ⟨"d", ⟨files, .ok healMeta⟩⟩]

/-- The sets of drives that `healObject` chooses if all of them answer; no call fails. -/
def healInput (drives : List Drive) : HealInput where
  latestMeta := healMeta
  available i := (drives[i]?).any fun d => (diskWithAllParts (some d.disk) d.disk.info).1
  outdated i := (drives[i]?).any fun d =>
    shouldHealObjectOnDisk (diskWithAllParts (some d.disk) d.disk.info).2 d.disk.info
      healMeta.modTime
  readFault _ _ := none
  writeFault _ _ := none
  metadataFault _ := none

def healReport : HealResultItem where
  before := [⟨"a", .ok⟩, ⟨"b", .ok⟩, ⟨"c", .ok⟩, ⟨"d", .corrupt⟩]
  after := [⟨"a", .ok⟩, ⟨"b", .ok⟩, ⟨"c", .ok⟩, ⟨"d", .corrupt⟩]
  objectSize := 1

lemma reports_four {files : List (String × Bytes)}
    (h : ∀ i < 3, (healInput (healDrives files)).outdated i = false) :
    Reports (healInput (healDrives files)) (healDrives files) healReport where
  nodup := by
    show ["a", "b", "c", "d"].Nodup
    decide
  before := rfl
  after := rfl
  state := by
    intro j a hout ha
    by_cases hj : j < 3
    · rw [h j hj] at hout
      cases hout
    · obtain rfl : j = 3 := by
        have := (List.getElem?_eq_some_iff.mp ha).1
        simp only [healReport, length_cons, length_nil] at this
        omega
      cases ha
      exact DriveState.noConfusion

/-- The last drive has lost its block: it is healed. -/
theorem heal_truthful_iff_missing : (healInput (healDrives [])).outdated 3 = true ∧
      (healBlockReplicatedObject (healInput (healDrives [])) (healDrives []) healReport).2.2 = none ∧
      Truthful (healInput (healDrives [])) (healDrives []) healReport := by
  have hsound : ∀ i < 3, (healInput (healDrives [])).outdated i = false := by decide +kernel
  have hnil :
      (healBlockReplicatedObject (healInput (healDrives [])) (healDrives []) healReport).2.2 = none := by
    decide +kernel
  refine ⟨by decide +kernel, hnil, (heal_truthful_iff (reports_four hsound) hnil).mpr ?_⟩
  intro j drive hd hout _ blk hblk
  by_cases hj : j < 3
  · rw [hsound j hj] at hout
    cases hout
  · obtain rfl : j = 3 := by
      have := (List.getElem?_eq_some_iff.mp hd).1
      simp only [healDrives, length_cons, length_nil] at this
      omega
    cases hd
    exact Or.inr ⟨rfl, hout, 0, blk, by rw [mem_singleton.mp hblk]; rfl, rfl, rfl⟩

/-- The block of the last drive is corrupt: it is reported as healed, and still corrupt. -/
theorem corrupt_block_reported_ok :
    let drives := healDrives [(hashBlockData [1], [9])]
    (healInput drives).available 3 = false ∧ (healInput drives).outdated 3 = true ∧
      (healBlockReplicatedObject (healInput drives) drives healReport).2.2 = none ∧
      (healBlockReplicatedObject (healInput drives) drives healReport).2.1.after =
        [⟨"a", .ok⟩, ⟨"b", .ok⟩, ⟨"c", .ok⟩, ⟨"d", .ok⟩] ∧
      ((healBlockReplicatedObject (healInput drives) drives healReport).1.map
        fun d => d.disk.file (hashBlockData [1])) = [some [1], some [1], some [1], some [9]] ∧
      hashBlockData [9] ≠ hashBlockData [1] := by
  decide +kernel

end Obstor.Block
