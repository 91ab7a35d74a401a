import Obstor.Block.Put

/-!
# What an acknowledged put leaves on the disks

Each block and the metadata reach a write quorum of the disks, each of them a quorum of its own.
`Placed` says this of the disks before and after a put, and `putBlockReplicatedObject_placed`
proves it of every put that returned without an error, whatever failed. A disk that was away during
the put is one whose calls fail.
-/

namespace Obstor.Block

open Go Lib Meta Quorum List Option BlockDisk

/-! ### One disk -/

def callOn (fault : Option Fault) (call : BlockDisk → BlockDisk × Option Err) (d : BlockDisk) :
    BlockDisk × Option Err :=
  match fault with
  | none => call d
  | some f => (if f.applied then (call d).1 else d, some f.err)

section CallOn

variable (fault : Option Fault) (call : BlockDisk → BlockDisk × Option Err) (d : BlockDisk)

lemma callDisk_some :
    callDisk fault call (some d) = (some (callOn fault call d).1, (callOn fault call d).2) := by
  cases fault <;> rfl

lemma callOn_cases : (callOn fault call d).1 = d ∨ (callOn fault call d).1 = (call d).1 := by
  cases fault with
  | none => exact Or.inr rfl
  | some f =>
    by_cases happlied : f.applied
    · exact Or.inr (if_pos happlied)
    · exact Or.inl (if_neg happlied)

lemma callOn_of_none (h : (callOn fault call d).2 = none) :
    (callOn fault call d).1 = (call d).1 := by
  cases fault with
  | none => rfl
  | some f => cases h

end CallOn

/-- The block files of a disk after some blocks of a list were stored. -/
structure Grown (bs : List Bytes) (d d' : BlockDisk) : Prop where
  kept : ∀ name content, d.file name = some content → d'.file name = some content
  added : ∀ name content, d'.file name = some content →
    d.file name = some content ∨ content ∈ bs ∧ name = hashBlockData content

namespace Grown

variable {bs : List Bytes} {d d' d'' : BlockDisk}

lemma refl (bs : List Bytes) (d : BlockDisk) : Grown bs d d :=
  ⟨fun _ _ h => h, fun _ _ h => Or.inl h⟩

lemma trans (h : Grown bs d d') (h' : Grown bs d' d'') : Grown bs d d'' where
  kept name content hfile := h'.kept name content (h.kept name content hfile)
  added name content hfile := by
    rcases h'.added name content hfile with hold | hnew
    · exact h.added name content hold
    · exact Or.inr hnew

lemma store {blk : Bytes} (hblk : blk ∈ bs) : Grown bs d (d.store blk) := by
  cases hfile : d.file (hashBlockData blk) with
  | some content =>
    rw [file_store_of_some hfile]
    exact refl bs d
  | none =>
    rw [file_store_of_none hfile]
    constructor
    · intro name content hname
      have hne : hashBlockData blk ≠ name := by
        rintro rfl
        rw [hfile] at hname
        cases hname
      unfold file at hname ⊢
      rw [find?_cons_of_neg (by simpa using hne)]
      exact hname
    · intro name content hname
      by_cases heq : hashBlockData blk = name
      · right
        unfold file at hname
        rw [find?_cons_of_pos (by simpa using heq)] at hname
        cases hname
        exact ⟨hblk, heq.symm⟩
      · left
        unfold file at hname ⊢
        rw [find?_cons_of_neg (by simpa using heq)] at hname
        exact hname

end Grown

/-- The disk has a file under the name of the block. -/
def BlockDisk.has (d : BlockDisk) (blk : Bytes) : Bool := (d.file (hashBlockData blk)).isSome

lemma BlockDisk.has_store (d : BlockDisk) (blk : Bytes) : (d.store blk).has blk := by
  unfold has
  cases hfile : d.file (hashBlockData blk) with
  | some content => rw [file_store_of_some hfile, hfile, isSome_some]
  | none =>
    rw [file_store_of_none hfile]
    simp [file]

lemma Grown.has {bs : List Bytes} {d d' : BlockDisk} (h : Grown bs d d') {blk : Bytes}
    (hhas : d.has blk) : d'.has blk := by
  obtain ⟨content, hfile⟩ := isSome_iff_exists.mp hhas
  exact isSome_iff_exists.mpr ⟨content, h.kept _ _ hfile⟩

lemma BlockDisk.file_congr {d d' : BlockDisk} (h : d'.files = d.files) (name : String) :
    d'.file name = d.file name := by
  unfold file
  rw [h]

lemma Grown.of_files {bs : List Bytes} {d d₁ d' : BlockDisk} (h : Grown bs d d₁)
    (hfiles : d'.files = d₁.files) : Grown bs d d' where
  kept name content hname := by
    rw [file_congr hfiles]
    exact h.kept name content hname
  added name content hname := by
    rw [file_congr hfiles] at hname
    exact h.added name content hname

lemma BlockDisk.info_store (d : BlockDisk) (blk : Bytes) : (d.store blk).info = d.info := by
  cases hfile : d.file (hashBlockData blk) with
  | some content => rw [file_store_of_some hfile]
  | none => rw [file_store_of_none hfile]

lemma BlockDisk.info_foldl_store (bs : List Bytes) (d : BlockDisk) :
    (bs.foldl store d).info = d.info := by
  induction bs generalizing d with
  | nil => rfl
  | cons blk rest ih => rw [foldl_cons, ih, info_store]

/-! ### All disks -/

lemma mapIdx_map_some {α β : Type} {f : ℕ → Option α → β} {g : ℕ → α → β}
    (h : ∀ i a, f i (some a) = g i a) (l : List α) : (l.map some).mapIdx f = l.mapIdx g := by
  apply ext_getElem?
  intro i
  simp only [getElem?_mapIdx, getElem?_map, Option.map_map]
  cases l[i]? with
  | none => rfl
  | some a => exact congrArg some (h i a)

lemma map_mapIdx {α β γ : Type} (f : ℕ → α → β) (g : β → γ) (l : List α) :
    (l.mapIdx f).map g = l.mapIdx fun i a => g (f i a) := by
  apply ext_getElem?
  intro i
  simp only [getElem?_mapIdx, getElem?_map, Option.map_map]
  rfl

/-- Storing blocks keeps the metadata. -/
def Stores (bs : List Bytes) (d d' : BlockDisk) : Prop := d'.info = d.info ∧ Grown bs d d'

section Blocks

variable {ρ : RangeOrder} {bs : List Bytes} {writeQuorum : ℤ}

lemma writeBlockToDisks_stores {faults : ℕ → Option Fault} {blk : Bytes} (hblk : blk ∈ bs)
    {disks : List BlockDisk}
    (h : (writeBlockToDisks ρ faults (hashBlockData blk) blk (disks.map some) writeQuorum).2 =
      none) :
    ∃ ds : List BlockDisk,
      (writeBlockToDisks ρ faults (hashBlockData blk) blk (disks.map some) writeQuorum).1 =
          ds.map some ∧
        Forall₂ (Stores bs) disks ds ∧ writeQuorum ≤ ds.countP (·.has blk) := by
  let step : ℕ → BlockDisk → BlockDisk × Option Err := fun i =>
    callOn (faults i) fun d => d.writeBlock (hashBlockData blk) blk
  have hdisks : (callDisks faults (fun d => d.writeBlock (hashBlockData blk) blk)
      (disks.map some)).1 = (disks.mapIdx fun i d => (step i d).1).map some := by
    rw [map_mapIdx]
    exact mapIdx_map_some (fun i d => by rw [callDisk_some]) disks
  have herrs : (callDisks faults (fun d => d.writeBlock (hashBlockData blk) blk)
      (disks.map some)).2 = disks.mapIdx fun i d => (step i d).2 :=
    mapIdx_map_some (fun i d => by rw [callDisk_some]) disks
  have hstep : ∀ i d, Stores bs d (step i d).1 := by
    intro i d
    rcases callOn_cases (faults i) (fun d => d.writeBlock (hashBlockData blk) blk) d
      with hsame | hstored
    · rw [show (step i d).1 = d from hsame]
      exact ⟨rfl, Grown.refl bs d⟩
    · rw [show (step i d).1 = d.store blk from hstored]
      exact ⟨d.info_store blk, Grown.store hblk⟩
  have hsuccess : ∀ i d, (step i d).2 = none → (step i d).1.has blk := by
    intro i d hnone
    have hstored : (step i d).1 = d.store blk := callOn_of_none _ _ _ hnone
    rw [hstored]
    exact d.has_store blk
  have hcount : writeQuorum ≤ (disks.mapIdx fun i d => (step i d).2).count none := by
    unfold writeBlockToDisks at h
    simp only [herrs] at h
    split_ifs at h with hq
    · exact hq
    · exact ((reduceQuorumErrs_eq_none_iff ρ _ _ _ (by simp)).mp h).1
  refine ⟨disks.mapIdx _, ?_, forall₂_mapIdx hstep disks, ?_⟩
  · rw [← hdisks]
    unfold writeBlockToDisks
    simp only
    split_ifs <;> rfl
  · exact hcount.trans (Int.ofNat_le.mpr (count_none_le_countP hsuccess disks))

lemma chunkFold_stores {faults : ℕ → ℕ → Option Fault} {rest : List Bytes}
    (hrest : ∀ blk ∈ rest, blk ∈ bs) {disks : List BlockDisk} {refs : List BlockRef}
    {totalSize : ℤ} {idx : ℕ} {r : List BlockRef × ℤ}
    (h : (chunkFold ρ faults writeQuorum rest (disks.map some) refs totalSize idx).2 = .ok r) :
    ∃ ds : List BlockDisk,
      (chunkFold ρ faults writeQuorum rest (disks.map some) refs totalSize idx).1 = ds.map some ∧
        Forall₂ (Stores bs) disks ds ∧
        ∀ blk ∈ rest, writeQuorum ≤ ds.countP (·.has blk) := by
  induction rest generalizing disks refs totalSize idx with
  | nil =>
    refine ⟨disks, rfl, List.forall₂_same.mpr fun d _ => ⟨rfl, Grown.refl bs d⟩, ?_⟩
    intro blk hblk
    cases hblk
  | cons blk rest ih =>
    rw [chunkFold] at h ⊢
    cases hw : (writeBlockToDisks ρ (faults idx) (hashBlockData blk) blk (disks.map some)
      writeQuorum).2 with
    | some err => simp [hw] at h
    | none =>
      obtain ⟨ds₁, hds₁, hstores₁, hcount₁⟩ := writeBlockToDisks_stores (hrest blk mem_cons_self) hw
      simp only [hw, hds₁] at h ⊢
      obtain ⟨ds, hds, hstores, hcount⟩ :=
        ih (fun blk' hblk' => hrest blk' (mem_cons_of_mem _ hblk')) h
      refine ⟨ds, hds, ?_, fun blk' hblk' => ?_⟩
      · exact forall₂_comp (fun a b c hab hbc =>
          ⟨hbc.1.trans hab.1, hab.2.trans hbc.2⟩) hstores₁ hstores
      · rcases mem_cons.mp hblk' with rfl | hmem
        · refine hcount₁.trans (Int.ofNat_le.mpr ?_)
          exact countP_le_of_forall₂ hstores fun d d' hd hhas => hd.2.has hhas
        · exact hcount blk' hmem

end Blocks

section Metadata

variable {ρ : RangeOrder} {faults : ℕ → Option Fault} {fi : FileInfo} {quorum : ℤ}

lemma blocks_ne_nil_of_written (hpos : 0 < quorum) {disks disks' : List (Option BlockDisk)}
    (hparity : fi.erasure.parityBlocks = 0) (hdeleted : fi.deleted = false)
    (h : writeUniqueFileInfo ρ faults fi disks quorum = (disks', none)) : fi.blocks ≠ [] := by
  intro hblocks
  have herr : ∀ i d, (writeFileInfo (faults i) fi i d).2 ≠ none := by
    intro i d
    cases d with
    | none => exact some_ne_none _
    | some d =>
      unfold writeFileInfo
      simp [hblocks, FileInfo.isValid, hparity, hdeleted]
  have hle := ((reduceQuorumErrs_eq_none_iff ρ _ _ _ (by simp)).mp (congrArg Prod.snd h)).1
  rw [count_eq_zero_of_not_mem] at hle
  · exact absurd hle (not_le.mpr hpos)
  · intro hmem
    obtain ⟨i, hi, heq⟩ := mem_mapIdx.mp hmem
    exact herr _ _ heq

lemma writeUniqueFileInfo_files {disks ds : List BlockDisk}
    (h : (writeUniqueFileInfo ρ faults fi (disks.map some) quorum).1 = ds.map some) :
    Forall₂ (fun d d' => d'.files = d.files) disks ds := by
  have hcall : ∀ i d fi',
      (callOn (faults i) (fun d => d.writeMetadata fi') d).1.files = d.files := by
    intro i d fi'
    rcases callOn_cases (faults i) (fun d => d.writeMetadata fi') d with hsame | hwritten
    · rw [hsame]
    · rw [hwritten]
      rfl
  have hwrite : ∀ i d, ∃ d', (writeFileInfo (faults i) fi i (some d)).1 = some d' ∧
      d'.files = d.files := by
    intro i d
    unfold writeFileInfo
    simp only
    generalize (if fi.blocks.length = 0 then
      { fi with erasure := { fi.erasure with index := i + 1 } } else fi) = fi'
    by_cases hvalid : fi'.isValid
    · rw [if_pos hvalid, callDisk_some]
      exact ⟨_, rfl, hcall i d fi'⟩
    · rw [if_neg hvalid]
      exact ⟨d, rfl, rfl⟩
  choose next hnext hfiles using hwrite
  unfold writeUniqueFileInfo at h
  rw [mapIdx_map_some hnext, ← map_mapIdx, List.map_inj_right fun _ _ => Option.some.inj] at h
  rw [← h]
  exact forall₂_mapIdx hfiles disks

lemma writeUniqueFileInfo_written (hblocks : fi.blocks ≠ []) {disks : List BlockDisk}
    {disks' : List (Option BlockDisk)}
    (h : writeUniqueFileInfo ρ faults fi (disks.map some) quorum = (disks', none)) :
    ∃ ds : List BlockDisk, disks' = ds.map some ∧
      Forall₂ (fun d d' => (d'.info = .ok fi ∨ d'.info = d.info) ∧ d'.files = d.files)
        disks ds ∧
      quorum ≤ ds.countP fun d => d.info = .ok fi := by
  let step : ℕ → BlockDisk → BlockDisk × Option Err := fun i =>
    callOn (faults i) fun d => d.writeMetadata fi
  have hwrite : ∀ i d, writeFileInfo (faults i) fi i (some d) =
      (some (step i d).1, (step i d).2) := by
    intro i d
    unfold writeFileInfo
    simp only [if_neg (length_pos_iff.mpr hblocks).ne', FileInfo.isValid_of_blocks hblocks, if_true]
    exact callDisk_some _ _ _
  have hstep : ∀ i d, ((step i d).1.info = .ok fi ∨ (step i d).1.info = d.info) ∧
      (step i d).1.files = d.files := by
    intro i d
    rcases callOn_cases (faults i) (fun d => d.writeMetadata fi) d with hsame | hwritten
    · rw [show (step i d).1 = d from hsame]
      exact ⟨Or.inr rfl, rfl⟩
    · rw [show (step i d).1 = _ from hwritten]
      exact ⟨Or.inl rfl, rfl⟩
  have hsuccess : ∀ i d, (step i d).2 = none → decide ((step i d).1.info = .ok fi) := by
    intro i d hnone
    have hwritten : (step i d).1 = (d.writeMetadata fi).1 := callOn_of_none _ _ _ hnone
    rw [hwritten]
    exact decide_eq_true rfl
  unfold writeUniqueFileInfo at h
  rw [Prod.mk.injEq, mapIdx_map_some fun i d => congrArg Prod.fst (hwrite i d),
    mapIdx_map_some fun i d => congrArg Prod.snd (hwrite i d)] at h
  obtain ⟨hdisks, herrs⟩ := h
  refine ⟨disks.mapIdx _, ?_, forall₂_mapIdx hstep disks, ?_⟩
  · rw [map_mapIdx, hdisks]
  · have hcount := ((reduceQuorumErrs_eq_none_iff ρ _ _ _ (by simp)).mp herrs).1
    have hle := count_none_le_countP (f := step) (p := fun d => decide (d.info = .ok fi)) hsuccess
      disks
    exact hcount.trans (Int.ofNat_le.mpr hle)

end Metadata

/-! ### The put -/

/-- The disks before and after an acknowledged put of the blocks `bs` with the record `fi`. -/
structure Placed (writeQuorum : ℤ) (fi : FileInfo) (bs : List Bytes) (disks ds : List BlockDisk) :
    Prop where
  each : Forall₂ (fun d d' => (d'.info = .ok fi ∨ d'.info = d.info) ∧ Grown bs d d') disks ds
  metadata : writeQuorum ≤ ds.countP fun d => d.info = .ok fi
  blocks : ∀ blk ∈ bs, writeQuorum ≤ ds.countP (·.has blk)

lemma Config.writeQuorum_pos (cfg : Config) : 0 < cfg.writeQuorum := by
  unfold Config.writeQuorum
  cases cfg.consistency <;> simp only <;> (try split_ifs) <;> omega

lemma putBlockReplicatedObject_placed {cfg : Config} {ρ : RangeOrder} {faults : PutFaults}
    {opts : PutOptions} {src : Source} {disks : List BlockDisk}
    {disks' : List (Option BlockDisk)} {fi : FileInfo}
    (h : putBlockReplicatedObject cfg ρ faults opts src (disks.map some) = (disks', .ok fi)) :
    fi.blocks ≠ [] ∧ ∃ ds : List BlockDisk, disks' = ds.map some ∧
      Placed cfg.writeQuorum fi (blocks cfg.effectiveBlockSize.toNat src.data) disks ds := by
  obtain ⟨hfi, ⟨r, hfold⟩, hwrite⟩ := putBlockReplicatedObject_ok h
  have hblocks : fi.blocks ≠ [] := by
    apply blocks_ne_nil_of_written cfg.writeQuorum_pos _ _ hwrite
    · rw [hfi]
      rfl
    · rw [hfi]
      rfl
  obtain ⟨ds₁, hds₁, hstores, hcount⟩ := chunkFold_stores (fun blk hblk => hblk) hfold
  rw [hds₁] at hwrite
  obtain ⟨ds, hds, hwritten, hmeta⟩ := writeUniqueFileInfo_written hblocks hwrite
  refine ⟨hblocks, ds, hds, ⟨?_, hmeta, fun blk hblk => ?_⟩⟩
  · refine forall₂_comp (fun d d₁ d' hd hd' => ⟨?_, hd.2.of_files hd'.2⟩) hstores hwritten
    rw [← hd.1]
    exact hd'.1
  · refine (hcount blk hblk).trans (Int.ofNat_le.mpr (countP_le_of_forall₂ hwritten ?_))
    intro d₁ d hd hhas
    unfold has
    rw [file_congr hd.2]
    exact hhas

end Obstor.Block
