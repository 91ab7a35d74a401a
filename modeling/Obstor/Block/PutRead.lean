import Obstor.Block.ReadAfterWrite

/-!
# Reading back an acknowledged put

Each block of a put, and its metadata, reach a write quorum of the disks, but not the same one, and
a read looks for blocks only on disks that have the metadata (`readObject`).

`put_readable_iff`: on `N` healthy disks every acknowledged put can be read back exactly when two
write quorums of `N` disks must meet. With the replication factor three and four disks they need
not (`unreadable_put_of_four`).

If the quorums must meet, most disks have the metadata, so that the read chooses it
(`getObjectFileInfo_of_majority`), and one of them has each block (`exists_block_of_placed`). If
not, a put is acknowledged with metadata and block on disjoint sets (`acknowledged_apart`). What
later puts may do is `puts_keep`: each block of a put stays on a write quorum (`Puts.kept`, by
induction).
-/

namespace Obstor.Block

open Go Lib Meta Quorum List BlockDisk

/-- A read of the whole object: `getObjectFileInfo`, and then `getBlockReplicatedObject` over the
disks that have the record.
Source: `cmd/erasure-object.go`, `getObject` -/
def readObject (env : SelectEnv) (ρ : Orders) (writer : Sink) (disks : List (Option BlockDisk)) :
    Sink × Option Err :=
  match getObjectFileInfo env ρ disks (diskAnswers disks) with
  | .error err => (writer, some (toObjectErr err))
  | .ok sel =>
    getBlockReplicatedObject env.cfg 0 sel.fi.size writer sel.fi
      (sel.onlineDisks.map (Option.map BlockDisk.readBlock))

/-- Where a disk has a file under the name of a block, the file is the block. -/
def Intact (bs : List Bytes) (disks : List BlockDisk) : Prop :=
  ∀ d ∈ disks, ∀ blk ∈ bs, ∀ content, d.file (hashBlockData blk) = some content → content = blk

/-- Every acknowledged put on `N` disks can be read back, whatever failed. The blocks that are
stored are intact, and no two blocks of the payload have one hash. -/
def AlwaysReadable (cfg : Config) (N : ℕ) : Prop :=
  ∀ opts src disks disks' fi, AcknowledgedPut cfg opts src disks disks' fi → disks.length = N →
    src.data.length < 2 ^ 63 → Intact (blocks cfg.effectiveBlockSize.toNat src.data) disks →
    CollisionFree (blocks cfg.effectiveBlockSize.toNat src.data) →
    ∀ env, SameSettings cfg env → ∀ ρ, (readObject env ρ .unlimited disks').2 = none ∧
        (readObject env ρ .unlimited disks').1.out = src.data

/-! ### The vote -/

lemma count_records_info (ds : List BlockDisk) (fi : FileInfo) :
    (records (ds.map info)).count fi = ds.countP fun d => d.info = .ok fi := by
  induction ds with
  | nil => rfl
  | cons d rest ih =>
    rw [map_cons, countP_cons, ← ih]
    cases hinfo : d.info with
    | error err => simp [records, Except.toOption]
    | ok fi' =>
      rw [records, filterMap_cons_some (show Except.toOption (.ok fi') = some fi' from rfl),
        count_cons, ← records]
      simp

lemma readQuorum_le_writeQuorum (cfg : Config) : cfg.readQuorum ≤ cfg.writeQuorum := by
  unfold Config.readQuorum Config.writeQuorum
  cases cfg.consistency <;> simp only <;> (try split_ifs) <;> omega

section Vote

variable {opts : PutOptions} {fi : FileInfo} {ds : List BlockDisk}
  (hds : ∀ d ∈ ds, d.info = .ok fi ∨ Outdated opts d.info) (htime : fi.modTime = opts.modTime)

include hds htime

lemma tally_le_older {p : FileInfo → Bool} (hp : p fi = false) :
    tally (ds.map info) p ≤ (olderRecords fi.modTime (ds.map info)).length := by
  rw [olderRecords, ← countP_eq_length_filter]
  refine countP_mono_left fun fi' hfi' hp' => decide_eq_true fun heq => ?_
  rw [eq_of_modTime hds htime hfi' heq, hp] at hp'
  cases hp'

omit hds htime in
lemma count_le_tally (ds : List BlockDisk) {p : FileInfo → Bool} (hp : p fi) :
    (records (ds.map info)).count fi ≤ tally (ds.map info) p := by
  refine countP_mono_left fun fi' _ heq => ?_
  rw [eq_of_beq heq]
  exact hp

lemma commonTime_of_majority (hst : fi.modTime.Storable) (hdir : fi.dataDir ≠ "")
    (hmaj : ds.length < 2 * ds.countP fun d => d.info = .ok fi) (ρt ρd : RangeOrder) :
    commonTime ρt ρd (listObjectModtimes (ds.map info))
      (listDataDirs (ds.map info)) = (fi.modTime, fi.dataDir) := by
  have hfew := length_olderRecords_add ds fi
  have hcount := count_records_info ds fi
  have hmem : fi ∈ records (ds.map info) := by
    apply count_pos_iff.mp
    omega
  apply Prod.ext
  · apply commonTime_fst_of_max ρt ρd (storableTimes_info hds hst) hmem
    intro fi' _ hne
    left
    have hother := tally_le_older hds htime (p := fun fi'' => fi''.modTime = fi'.modTime)
      (decide_eq_false hne.symm)
    have hnew := count_le_tally ds (p := fun fi'' => fi''.modTime = fi.modTime) (decide_eq_true rfl)
    omega
  · apply commonTime_snd_of_max ρt ρd hmem hdir
    intro fi' _ hne _
    have hother := tally_le_older hds htime (p := fun fi'' => fi''.dataDir = fi'.dataDir)
      (decide_eq_false hne.symm)
    have hnew := count_le_tally ds (p := fun fi'' => fi''.dataDir = fi.dataDir) (decide_eq_true rfl)
    omega

lemma getObjectFileInfo_of_majority {cfg : Config} {env : SelectEnv} (henv : SameSettings cfg env)
    (ρ : Orders) (hst : fi.modTime.Storable) (hdir : fi.dataDir ≠ "") (hblocks : fi.blocks ≠ [])
    (hmaj : ds.length < 2 * ds.countP fun d => d.info = .ok fi)
    (hq : cfg.readQuorum ≤ ds.countP fun d => d.info = .ok fi) :
    ∃ sel, getObjectFileInfo env ρ (ds.map some) (ds.map info) = .ok sel ∧ sel.fi = fi ∧
      sel.onlineDisks = zipWith
        (fun disk a => if isCurrent fi.modTime fi.dataDir (Answer.info a) then disk else none)
        (ds.map some) (ds.map info) := by
  have hcount := count_records_info ds fi
  have hcur : isCurrent fi.modTime fi.dataDir fi := by
    simp [isCurrent, FileInfo.isValid_of_blocks hblocks]
  have hall : ∀ fi' ∈ current (ds.map info) fi.modTime fi.dataDir, fi' = fi := by
    intro fi' hfi'
    obtain ⟨hin, -, heq, -⟩ := mem_current.mp hfi'
    exact eq_of_modTime hds htime hin heq
  have hlen : ds.countP (fun d => d.info = .ok fi) ≤
      (current (ds.map info) fi.modTime fi.dataDir).length := by
    rw [← hcount, current, ← countP_eq_length_filter]
    exact count_le_tally ds hcur
  have hmem : fi ∈ current (ds.map info) fi.modTime fi.dataDir := by
    obtain ⟨fi', hfi'⟩ := exists_mem_of_length_pos (lt_of_lt_of_le (by omega) hlen)
    exact hall fi' hfi' ▸ hfi'
  have hhash : hashCount (current (ds.map info) fi.modTime fi.dataDir) fi =
      (current (ds.map info) fi.modTime fi.dataDir).length := by
    rw [hashCount, count_eq_length.mpr, length_map]
    intro hash hhash
    obtain ⟨fi', hfi', rfl⟩ := mem_map.mp hhash
    rw [hall fi' hfi']
  -- an error is rarer than an answer
  have herrs : ∀ err, (countedErrs ((ds.map info).map Answer.err)
      objectOpIgnoredErrs).count err ≤ (records (ds.map info)).length := by
    rw [← count_none_errs]
    apply count_countedErrs_le_of_half
    rw [count_none_errs, length_map, length_map]
    have hsome := count_le_length (a := fi) (l := records (ds.map info))
    omega
  obtain ⟨sel, hok, hsel, honline⟩ := getObjectFileInfo_of_current env ρ _
    (fun ρt ρd => commonTime_of_majority hds htime hst hdir hmaj ρt ρd) herrs
    (by rw [length_map]; omega) hmem (by rw [henv.quorumOf]; omega)
  exact ⟨sel, hok, hall sel.fi hsel, honline⟩

end Vote

/-! ### The blocks -/

variable {ds : List BlockDisk} {d : BlockDisk}

lemma mem_onlineDisks {modTime : Time} {dataDir : String} : some d ∈ zipWith
        (fun disk a => if isCurrent modTime dataDir (Answer.info a) then disk else none)
        (ds.map some) (ds.map info) ↔
      d ∈ ds ∧ isCurrent modTime dataDir (Answer.info d.info) := by
  rw [zipWith_map, zipWith_self, mem_map]
  constructor
  · rintro ⟨d', hd', heq⟩
    split_ifs at heq with hcur
    cases heq
    exact ⟨hd', hcur⟩
  · rintro ⟨hd, hcur⟩
    exact ⟨d, hd, if_pos hcur⟩

lemma readBlock_eq_ok {blk content : Bytes} :
    d.readBlock (hashBlockData blk) = .ok content ↔ d.file (hashBlockData blk) = some content := by
  unfold BlockDisk.readBlock
  rw [isValidBlockHash_hashBlockData]
  cases hfile : d.file (hashBlockData blk) <;> simp

lemma Intact.of_grown {bs : List Bytes} {disks : List BlockDisk} (hintact : Intact bs disks)
    (hfree : CollisionFree bs) (hgrown : Forall₂ (Grown bs) disks ds) : Intact bs ds := by
  intro d' hd' blk hblk content hfile
  obtain ⟨d, hd, hgrown⟩ := exists_of_mem_forall₂ hgrown hd'
  rcases hgrown.added _ _ hfile with hold | ⟨hmem, hname⟩
  · exact hintact d hd blk hblk content hold
  · exact (hfree blk hblk content hmem hname).symm

lemma Intact.readBlock_ok {bs : List Bytes} (hintact : Intact bs ds)
    {blk : Bytes} (hblk : blk ∈ bs) (hd : d ∈ ds) (hhas : d.has blk) :
    readBlock (hashBlockData blk) (ds.map fun d => some d.readBlock) = .ok blk := by
  obtain ⟨content, hfile⟩ := Option.isSome_iff_exists.mp hhas
  have hcontent := hintact d hd blk hblk content hfile
  rw [hcontent] at hfile
  have hmem : some d.readBlock ∈ ds.map fun d => some d.readBlock := mem_map.mpr ⟨d, hd, rfl⟩
  obtain ⟨data, hread⟩ := readBlock_ok_iff.mpr
    ⟨d.readBlock, blk, hmem, readBlock_eq_ok.mpr hfile, rfl⟩
  obtain ⟨source, hsource, hp⟩ := readBlockLoop_ok hread
  obtain ⟨d', hd', heq⟩ := mem_map.mp hsource
  cases heq
  rw [hread, hintact d' hd' blk hblk data (readBlock_eq_ok.mp hp.1)]

section Blocks

variable {wq : ℤ} {fi : FileInfo} {bs : List Bytes} {disks ds : List BlockDisk}
  (hplaced : Placed wq fi bs disks ds) (hintact : Intact bs disks) (hfree : CollisionFree bs)

include hplaced hintact hfree

lemma intact_of_placed : Intact bs ds :=
  hintact.of_grown hfree (hplaced.each.imp fun _ _ h => h.2)

lemma exists_block_of_placed (hmeet : (ds.length : ℤ) < 2 * wq) {blk : Bytes} (hblk : blk ∈ bs) :
    ∃ d ∈ ds, d.info = .ok fi ∧ d.file (hashBlockData blk) = some blk := by
  have hmeta := hplaced.metadata
  have hblocks := hplaced.blocks blk hblk
  obtain ⟨d, hd, hinfo, hhas⟩ := exists_of_length_lt_countP_add (l := ds)
    (p := fun d => decide (d.info = .ok fi)) (q := fun d => d.has blk) (by omega)
  obtain ⟨content, hfile⟩ := Option.isSome_iff_exists.mp hhas
  rw [intact_of_placed hplaced hintact hfree d hd blk hblk content hfile] at hfile
  exact ⟨d, hd, of_decide_eq_true hinfo, hfile⟩

end Blocks

lemma alwaysReadable_of_lt {cfg : Config} {N : ℕ} (hN : (N : ℤ) < 2 * cfg.writeQuorum) :
    AlwaysReadable cfg N := by
  intro opts src disks disks' fi hput hlen hsize hintact hfree env henv ρ
  obtain ⟨hblocks, ds, rfl, hplaced, hds⟩ := hput.placed
  have hfi := hput.info_eq
  have hlength : ds.length = N := hplaced.each.length_eq.symm.trans hlen
  have hmeta := hplaced.metadata
  have hle := readQuorum_le_writeQuorum cfg
  obtain ⟨sel, hok, hsel, honline⟩ := getObjectFileInfo_of_majority hds (by rw [hfi]; rfl) henv ρ
    (by rw [hfi]; exact hput.modTime) (by rw [hfi]; exact hput.dataDir) hblocks (by omega)
    (by omega)
  have hcur : isCurrent fi.modTime fi.dataDir fi := by
    simp [isCurrent, FileInfo.isValid_of_blocks hblocks]
  have hafter := intact_of_placed hplaced hintact hfree
  let sources := sel.onlineDisks.map (Option.map BlockDisk.readBlock)
  have hsource : ∀ source, some source ∈ sources → ∃ d ∈ ds, source = d.readBlock := by
    intro source hmem
    obtain ⟨o, ho, heq⟩ := mem_map.mp hmem
    cases o with
    | none => cases heq
    | some d =>
      cases heq
      rw [honline] at ho
      exact ⟨d, (mem_onlineDisks.mp ho).1, rfl⟩
  have hhonest : Honest cfg.effectiveBlockSize.toNat src.data sources := by
    intro source hmem blk hblk data hp
    obtain ⟨d, hd, rfl⟩ := hsource source hmem
    exact hafter d hd blk hblk data (readBlock_eq_ok.mp hp.1)
  have hfound : ∀ blk ∈ blocks cfg.effectiveBlockSize.toNat src.data, Found sources blk := by
    intro blk hblk
    obtain ⟨d, hd, hinfo, hfile⟩ := exists_block_of_placed hplaced hintact hfree (by omega) hblk
    refine ⟨d.readBlock, mem_map.mpr ⟨some d, ?_, rfl⟩, readBlock_eq_ok.mpr hfile, rfl⟩
    rw [honline]
    exact mem_onlineDisks.mpr ⟨hd, by rw [hinfo]; exact hcur⟩
  have hpos := effectiveBlockSize_pos cfg
  have hne : src.data ≠ [] := by
    intro hnil
    apply hblocks
    rw [hfi, hnil]
    show chunkRefs _ [] = []
    rw [chunkRefs, blocks_nil hpos]
    rfl
  have hone : 1 ≤ src.data.length := length_pos_of_ne_nil hne
  obtain ⟨hnil, hout⟩ := getBlockReplicatedObject_of_found .unlimited hpos
    (show env.cfg.effectiveBlockSize = (cfg.effectiveBlockSize.toNat : ℤ) by
      rw [henv.cfg]
      omega)
    (show fi.blocks = chunkRefs cfg.effectiveBlockSize.toNat src.data by rw [hfi]; rfl)
    (show fi.size = src.data.length by rw [hfi]; rfl) hsize hhonest hfound rfl hone
    (show 0 + src.data.length ≤ src.data.length by omega)
    (not_startsOutside_same hpos hone)
  rw [served_same hpos (by omega)] at hout
  have hread : readObject env ρ .unlimited (ds.map some) =
      getBlockReplicatedObject env.cfg (0 : ℕ) (src.data.length : ℕ) .unlimited fi sources := by
    unfold readObject
    rw [diskAnswers_map_some, hok]
    simp only [hsel]
    rw [show fi.size = src.data.length by rw [hfi]; rfl]
    rfl
  rw [hread]
  refine ⟨hnil, hout.trans ?_⟩
  simp [slice, Sink.unlimited]

/-! ### Blocks and metadata apart -/

section Apart

variable (cfg : Config) (w k : ℕ)

/-- The disks after a put of one byte, if the first `w` took its block and the rest its metadata. -/
def apart : List BlockDisk :=
  replicate w (withBlocks cfg emptyDisk) ++
    replicate k { emptyDisk with info := .ok (laterInfo cfg) }

lemma acknowledged_apart (hw : cfg.writeQuorum = w) (hk : w ≤ k) :
    AcknowledgedPut cfg laterPut ⟨[1], none⟩ (replicate (w + k) emptyDisk)
      ((apart cfg w k).map some) (laterInfo cfg) where
  outdated d hd := by
    rw [eq_of_mem_replicate hd]
    exact Or.inl rfl
  modTime := by decide
  dataDir := by decide
  put := by
    refine ⟨.inOrder, ⟨fun _ => failing fun i => decide (w ≤ i),
      failing fun i => !decide (w ≤ i)⟩, ?_⟩
    have hput := putBlockReplicatedObject_failing cfg .inOrder (fun i => decide (w ≤ i))
      (fun i => !decide (w ≤ i)) laterPut [1] (replicate (w + k) emptyDisk) (by decide) rfl rfl
      (cons_ne_nil 1 [])
      (by rw [length_replicate, upCount_of_le, hw])
      (by rw [length_replicate, upCount_of_lt, hw]; exact Int.ofNat_le.mpr hk)
    refine hput.trans (Prod.ext (congrArg (map some) ?_) rfl)
    have hturn : (fun (i : ℕ) (d : BlockDisk) =>
        if (!decide (w ≤ i)) then (if decide (w ≤ i) then d else withBlocks cfg d)
        else { (if decide (w ≤ i) then d else withBlocks cfg d) with
          info := .ok (laterInfo cfg) }) =
        fun i d => if decide (w ≤ i) then { d with info := .ok (laterInfo cfg) }
          else withBlocks cfg d := by
      funext i d
      cases decide (w ≤ i)
      · simp
      · simp
    rw [mapIdx_mapIdx]
    refine Eq.trans (congrArg (fun f => mapIdx f (replicate (w + k) emptyDisk)) hturn) ?_
    exact mapIdx_replicate w k emptyDisk _ _

lemma mem_apart {d : BlockDisk} (hd : d ∈ apart cfg w k) :
    d.info = .error .fileNotFound ∨ d = { emptyDisk with info := .ok (laterInfo cfg) } := by
  rcases mem_append.mp hd with hfirst | hrest
  · left
    rw [eq_of_mem_replicate hfirst]
    exact info_foldl_store _ _
  · exact Or.inr (eq_of_mem_replicate hrest)

lemma readObject_apart {env : SelectEnv} (henv : SameSettings cfg env) (ρ : Orders) :
    (readObject env ρ .unlimited ((apart cfg w k).map some)).2 ≠ none := by
  have hpos := effectiveBlockSize_pos cfg
  unfold readObject
  rw [diskAnswers_map_some]
  cases hok : getObjectFileInfo env ρ ((apart cfg w k).map some)
      _ with
  | error err => exact Option.some_ne_none _
  | ok sel =>
    obtain ⟨latest, -, honline, hchosen⟩ := getObjectFileInfo_ok hok
    rw [henv.quorumOf] at hchosen
    obtain ⟨hmem, -⟩ := hchosen.resolve_right fun hnone => absurd hnone.2
      (not_le.mpr cfg.readQuorum_pos)
    have hsel : sel.fi = laterInfo cfg := by
      obtain ⟨d, hd, hinfo⟩ := mem_map.mp (mem_records.mp (mem_current.mp hmem).1)
      rcases mem_apart cfg w k hd with hmissing | rfl
      · rw [hmissing] at hinfo
        cases hinfo
      · exact (Except.ok.inj hinfo).symm
    have hread : ∃ err, readBlock (hashBlockData (block cfg.effectiveBlockSize.toNat
        (0 / cfg.effectiveBlockSize.toNat) [1]))
        (sel.onlineDisks.map (Option.map BlockDisk.readBlock)) = .error err := by
      cases hr : readBlock (hashBlockData (block cfg.effectiveBlockSize.toNat
        (0 / cfg.effectiveBlockSize.toNat) [1]))
        _ with
      | error err => exact ⟨err, rfl⟩
      | ok data =>
        -- a disk that is asked has a record, so it has no block
        exfalso
        obtain ⟨source, hsource, hp⟩ := readBlockLoop_ok hr
        obtain ⟨o, ho, heq⟩ := mem_map.mp hsource
        cases o with
        | none => cases heq
        | some d =>
          cases heq
          rw [honline] at ho
          obtain ⟨hd, hcur⟩ := mem_onlineDisks.mp ho
          rcases mem_apart cfg w k hd with hmissing | rfl
          · rw [hmissing] at hcur
            simp [isCurrent, Answer.info, FileInfo.isValid_zero] at hcur
          · have hfile := readBlock_eq_ok.mp hp.1
            cases hfile
    obtain ⟨err, hread⟩ := hread
    simp only [hsel]
    refine getBlockReplicatedObject_of_missing .unlimited hpos
      (show env.cfg.effectiveBlockSize = (cfg.effectiveBlockSize.toNat : ℤ) by
        rw [henv.cfg]
        omega)
      (show (laterInfo cfg).blocks = chunkRefs cfg.effectiveBlockSize.toNat [1] from rfl) rfl
      (by decide) le_rfl (by decide) (by simp) hread

end Apart

/-- **An acknowledged put can be read back, exactly** if any two write quorums of the disks meet. -/
theorem put_readable_iff (cfg : Config) (N : ℕ) :
    AlwaysReadable cfg N ↔ (N : ℤ) < 2 * cfg.writeQuorum := by
  constructor
  · intro hreadable
    by_contra hge
    obtain ⟨w, hw⟩ := Int.eq_ofNat_of_zero_le cfg.writeQuorum_pos.le
    obtain ⟨k, rfl⟩ : ∃ k, N = w + k := Nat.exists_eq_add_of_le (by omega)
    have henv : SameSettings cfg ⟨cfg, true, fun _ => 0, 0, false, "", false⟩ := ⟨rfl, rfl⟩
    have hblocks : blocks cfg.effectiveBlockSize.toNat [(1 : UInt8)] = [[1]] :=
      blocks_of_length_le (cons_ne_nil 1 []) (effectiveBlockSize_pos cfg)
    obtain ⟨hnil, -⟩ := hreadable _ _ _ _ _ (acknowledged_apart cfg w k hw (by omega))
      length_replicate (by decide)
      (fun d hd blk _ content hfile => by
        rw [eq_of_mem_replicate hd] at hfile
        cases hfile)
      (fun x hx y hy _ => by
        rw [hblocks, mem_singleton] at hx hy
        rw [hx, hy])
      _ henv .inOrder
    exact readObject_apart cfg w k henv .inOrder hnil
  · exact alwaysReadable_of_lt

/-- Four disks with the replication factor three: two take the block, the other two the metadata,
and the put is acknowledged; no read finds the block. -/
theorem unreadable_put_of_four :
    AcknowledgedPut threeReplicas laterPut ⟨[1], none⟩ (replicate 4 emptyDisk)
        ((apart threeReplicas 2 2).map some) (laterInfo threeReplicas) ∧
      (readObject ⟨threeReplicas, true, fun _ => 0, 0, false, "", false⟩ .inOrder .unlimited
        ((apart threeReplicas 2 2).map some)).2 ≠ none :=
  ⟨acknowledged_apart _ 2 2 rfl le_rfl, readObject_apart _ 2 2 ⟨rfl, rfl⟩ .inOrder⟩

/-! ### Later puts -/

/-- Acknowledged puts one after the other, each with settings, failing calls and a payload of its own. -/
inductive Puts (disks : List BlockDisk) : List BlockDisk → Prop
  | nil : Puts disks disks
  | concat {ds ds' : List BlockDisk} {cfg : Config} {ρ : RangeOrder} {faults : PutFaults}
      {opts : PutOptions} {src : Source} {fi : FileInfo} (h : Puts disks ds)
      (hput : putBlockReplicatedObject cfg ρ faults opts src (ds.map some) = (ds'.map some, .ok fi)) :
      Puts disks ds'

section Later

variable {cfg : Config} {ρ : RangeOrder} {faults : PutFaults} {opts : PutOptions} {src : Source}
  {fi : FileInfo} {disks ds ds' : List BlockDisk}

lemma placed_of_put
    (h : putBlockReplicatedObject cfg ρ faults opts src (disks.map some) = (ds.map some, .ok fi)) :
    Placed cfg.writeQuorum fi (blocks cfg.effectiveBlockSize.toNat src.data) disks ds := by
  obtain ⟨-, ds₁, hds₁, hplaced⟩ := putBlockReplicatedObject_placed h
  rwa [← map_injective_iff.mpr (Option.some_injective _) hds₁] at hplaced

/-- Puts neither remove nor change a block file. -/
lemma Puts.kept (h : Puts disks ds) : Forall₂ (fun d d' => ∀ name content,
    d.file name = some content → d'.file name = some content) disks ds := by
  induction h with
  | nil => exact forall₂_same.mpr fun _ _ _ _ h => h
  | concat _ hput ih =>
    exact forall₂_comp (fun a b c hab hbc name content hfile =>
      hbc.2.kept name content (hab name content hfile)) ih (placed_of_put hput).each

/-- After an acknowledged put, whatever is put later, each of its blocks stays with its content on a
write quorum of the disks. -/
theorem puts_keep
    (h : putBlockReplicatedObject cfg ρ faults opts src (disks.map some) = (ds.map some, .ok fi))
    (hintact : Intact (blocks cfg.effectiveBlockSize.toNat src.data) disks)
    (hfree : CollisionFree (blocks cfg.effectiveBlockSize.toNat src.data)) (later : Puts ds ds') :
    ∀ blk ∈ blocks cfg.effectiveBlockSize.toNat src.data,
      cfg.writeQuorum ≤ ds'.countP fun d => d.file (hashBlockData blk) = some blk := by
  intro blk hblk
  have hplaced := placed_of_put h
  have hafter := intact_of_placed hplaced hintact hfree
  have hstored : ds.countP (·.has blk) = ds.countP fun d => d.file (hashBlockData blk) = some blk := by
    refine countP_congr fun d hd => ?_
    rw [decide_eq_true_eq]
    constructor
    · intro hhas
      obtain ⟨content, hfile⟩ := Option.isSome_iff_exists.mp hhas
      rwa [hafter d hd blk hblk content hfile] at hfile
    · exact fun hfile => Option.isSome_iff_exists.mpr ⟨blk, hfile⟩
  have hcount := hplaced.blocks blk hblk
  rw [hstored] at hcount
  refine hcount.trans (Int.ofNat_le.mpr (countP_le_of_forall₂ later.kept fun d d' hd hfile => ?_))
  exact decide_eq_true (hd _ _ (of_decide_eq_true hfile))

end Later

/-- Four disks. The first put reaches two of them with its block and the other two with its metadata;
the second, of another byte, the other way round. -/
theorem puts_keep_two : ∃ (fi : FileInfo) (ds' : List BlockDisk), putBlockReplicatedObject threeReplicas .inOrder
      ⟨fun _ => failing fun i => decide (i < 2), failing fun i => !decide (i < 2)⟩ laterPut
      ⟨[2], none⟩ ((apart threeReplicas 2 2).map some) = (ds'.map some, .ok fi) ∧
    2 ≤ ds'.countP fun d => d.file (hashBlockData [1]) = some [1] := by
  obtain ⟨ρ, faults, hput⟩ := (acknowledged_apart threeReplicas 2 2 rfl le_rfl).put
  have hsecond := putBlockReplicatedObject_failing threeReplicas .inOrder (fun i => decide (i < 2))
    (fun i => !decide (i < 2)) laterPut [2] (apart threeReplicas 2 2) (by decide) rfl rfl
    (cons_ne_nil 2 []) (by decide) (by decide)
  have hblocks : blocks threeReplicas.effectiveBlockSize.toNat [(1 : UInt8)] = [[1]] :=
    blocks_of_length_le (cons_ne_nil 1 []) (effectiveBlockSize_pos threeReplicas)
  refine ⟨_, _, hsecond, ?_⟩
  have hkeep := puts_keep hput (fun d hd blk _ content hfile => by
      rw [eq_of_mem_replicate hd] at hfile
      cases hfile) (fun x hx y hy _ => by
        rw [hblocks, mem_singleton] at hx hy
        rw [hx, hy]) (.concat .nil hsecond) [1] (by rw [hblocks]; exact mem_singleton_self _)
  exact Int.ofNat_le.mp hkeep

end Obstor.Block
