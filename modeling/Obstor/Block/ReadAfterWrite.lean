import Obstor.Block.Placement
import Obstor.Block.RangeContract
import Obstor.Quorum.StaleRead

/-!
# Reads after an acknowledged put

A put is acknowledged when its metadata reached the write quorum of the replication factor, but it
is sent to all `N` disks of the set, and all of them are asked by a later read. The other disks
still have an older version, or none.

`read_after_write_iff`: every later read has the new version or fails exactly when the disks that
missed the put are fewer than half of the set or than the read quorum. They cannot outvote it then
(`readAfterWrite_of_lt`); otherwise `missedByRest` is a put after which they do
(`stale_missedByRest`).
-/

namespace Obstor.Block

open Go Lib Meta Quorum List BlockDisk

/-- What each disk of the set answers when it is asked for the object. -/
def diskAnswers (disks : List (Option BlockDisk)) : List Answer :=
  disks.map fun
    | none => .error .diskNotFound
    | some d => d.info

lemma diskAnswers_map_some (ds : List BlockDisk) : diskAnswers (ds.map some) = ds.map info := by
  rw [diskAnswers, map_map]
  rfl

/-- A disk that does not have the version of the put: it has an older one, or none. -/
def Outdated (opts : PutOptions) (info : Answer) : Prop :=
  info = .error .fileNotFound ∨
    ∃ old, info = .ok old ∧ OlderVersion opts.modTime opts.newDataDir old ∧ old.modTime.Storable

/-- A put that was acknowledged, on disks that did not have its version before. The time is one
that a journal can hold, and the data directory is a fresh identifier. -/
structure AcknowledgedPut (cfg : Config) (opts : PutOptions) (src : Source)
    (disks : List BlockDisk) (disks' : List (Option BlockDisk)) (fi : FileInfo) : Prop where
  outdated : ∀ d ∈ disks, Outdated opts d.info
  modTime : opts.modTime.Storable
  dataDir : opts.newDataDir ≠ ""
  put : ∃ ρ faults,
    putBlockReplicatedObject cfg ρ faults opts src (disks.map some) = (disks', .ok fi)

/-- The settings of a read are those of the put, and replication is on. -/
structure SameSettings (cfg : Config) (env : SelectEnv) : Prop where
  cfg : env.cfg = cfg
  isReplicated : env.isReplicated = true

lemma SameSettings.quorumOf {cfg : Config} {env : SelectEnv} (h : SameSettings cfg env)
    (fi : FileInfo) : (quorumOf env fi).1 = cfg.readQuorum := by
  unfold Quorum.quorumOf
  rw [if_pos (Or.inr h.isReplicated), h.cfg]

section AcknowledgedPut

variable {cfg : Config} {opts : PutOptions} {src : Source} {disks : List BlockDisk}
  {disks' : List (Option BlockDisk)} {fi : FileInfo}

lemma AcknowledgedPut.info_eq (h : AcknowledgedPut cfg opts src disks disks' fi) :
    fi = putFileInfo cfg.effectiveBlockSize opts
      (chunkRefs cfg.effectiveBlockSize.toNat src.data) src.data.length := by
  obtain ⟨ρ, faults, hput⟩ := h.put
  exact (putBlockReplicatedObject_ok hput).1

lemma AcknowledgedPut.placed (h : AcknowledgedPut cfg opts src disks disks' fi) :
    fi.blocks ≠ [] ∧ ∃ ds : List BlockDisk, disks' = ds.map some ∧
      Placed cfg.writeQuorum fi (blocks cfg.effectiveBlockSize.toNat src.data) disks ds ∧
      ∀ d ∈ ds, d.info = .ok fi ∨ Outdated opts d.info := by
  obtain ⟨ρ, faults, hput⟩ := h.put
  obtain ⟨hblocks, ds, hds, hplaced⟩ := putBlockReplicatedObject_placed hput
  refine ⟨hblocks, ds, hds, hplaced, fun d' hd' => ?_⟩
  obtain ⟨d, hd, hinfo, -⟩ := exists_of_mem_forall₂ hplaced.each hd'
  rcases hinfo with hnew | hold
  · exact Or.inl hnew
  · rw [hold]
    exact Or.inr (h.outdated d hd)

end AcknowledgedPut

/-! ### The records of the disks -/

section Held

variable {opts : PutOptions} {fi : FileInfo} {ds : List BlockDisk}
  (hds : ∀ d ∈ ds, d.info = .ok fi ∨ Outdated opts d.info)

include hds

lemma mem_records_info {fi' : FileInfo} (h : fi' ∈ records (ds.map info)) :
    fi' = fi ∨ OlderVersion opts.modTime opts.newDataDir fi' ∧ fi'.modTime.Storable := by
  obtain ⟨d, hd, hinfo⟩ := mem_map.mp (mem_records.mp h)
  rcases hds d hd with hnew | hmissing | ⟨old, hold, holder⟩
  · rw [hinfo] at hnew
    exact Or.inl (Except.ok.inj hnew)
  · rw [hinfo] at hmissing
    cases hmissing
  · rw [hinfo] at hold
    rw [Except.ok.inj hold]
    exact Or.inr holder

lemma eq_of_modTime (hfi : fi.modTime = opts.modTime) {fi' : FileInfo}
    (h : fi' ∈ records (ds.map info)) (htime : fi'.modTime = fi.modTime) : fi' = fi := by
  rcases mem_records_info hds h with heq | ⟨holder, -⟩
  · exact heq
  · have hlt := holder.modTime
    rw [htime, hfi] at hlt
    exact absurd hlt (lt_irrefl _)

lemma storableTimes_info (hfi : fi.modTime.Storable) : StorableTimes (ds.map info) := by
  intro fi' hfi'
  rcases mem_records_info hds hfi' with rfl | ⟨-, hst⟩
  · exact hfi
  · exact hst

omit hds in
lemma length_olderRecords_add (ds : List BlockDisk) (fi : FileInfo) :
    (olderRecords fi.modTime (ds.map info)).length +
      ds.countP (fun d => d.info = .ok fi) ≤ ds.length := by
  induction ds with
  | nil => exact le_rfl
  | cons d rest ih =>
    have hrest : (olderRecords fi.modTime (d.info :: rest.map info)).length ≤
        (olderRecords fi.modTime (rest.map info)).length +
          if d.info = .ok fi then 0 else 1 := by
      unfold olderRecords records
      cases hinfo : d.info with
      | error err => exact Nat.le_add_right _ _
      | ok fi' =>
        rw [filterMap_cons_some (show Except.toOption (.ok fi') = some fi' from rfl), filter_cons]
        by_cases heq : fi' = fi
        · simp [heq]
        · simp only [Except.ok.injEq, heq, if_false]
          split_ifs <;> simp
    rw [map_cons, countP_cons, length_cons]
    simp only [decide_eq_true_eq]
    split_ifs at hrest ⊢ <;> omega

end Held

/-! ### Read after write -/

/-- Every read after an acknowledged put on `N` disks has the new version, or fails. -/
def ReadAfterWrite (cfg : Config) (N : ℕ) : Prop :=
  ∀ opts src disks disks' fi, AcknowledgedPut cfg opts src disks disks' fi → disks.length = N →
    ∀ env, SameSettings cfg env → ∀ ρ answers, AnsweredBy answers (diskAnswers disks') →
      ∀ sel, getObjectFileInfo env ρ disks' answers = .ok sel → sel.fi = fi

lemma readAfterWrite_of_lt {cfg : Config} {N : ℕ}
    (hN : (N : ℤ) < cfg.writeQuorum + max ((N / 2 : ℕ) : ℤ) cfg.readQuorum) :
    ReadAfterWrite cfg N := by
  intro opts src disks disks' fi hput hlen env henv ρ answers hans sel hok
  obtain ⟨-, ds, rfl, hplaced, hds⟩ := hput.placed
  rw [diskAnswers_map_some] at hans
  have hfi : fi.modTime = opts.modTime := by
    rw [hput.info_eq]
    rfl
  have hst : StorableTimes answers := fun fi' hfi' =>
    storableTimes_info hds (hfi ▸ hput.modTime) fi' (hans.records_sublist.subset hfi')
  -- the quorum is positive, so the choice is one of the current records
  obtain ⟨latest, hlatest, -, hchosen⟩ := getObjectFileInfo_ok hok
  rw [henv.quorumOf] at hchosen
  obtain ⟨hmem, hq⟩ := hchosen.resolve_right fun hnone => absurd hnone.2
    (not_le.mpr cfg.readQuorum_pos)
  obtain ⟨hin, -, htime, -⟩ := mem_current.mp hmem
  obtain ⟨hsame, hhalf, -⟩ := getObjectFileInfo_classes hst (ne_nil_of_mem hin) hok
  apply eq_of_modTime hds hfi (hans.records_sublist.subset hin)
  by_contra hold
  -- an older version needs half of the disks and the read quorum
  rcases hc : commonTime ρ.latestTimes ρ.latestDirs (listObjectModtimes answers)
    _ with ⟨t, dir⟩
  rcases hc' : commonTime ρ.times ρ.dirs (listObjectModtimes answers) (listDataDirs answers)
    with ⟨t', dir'⟩
  rw [hc] at hsame hhalf
  rw [hc'] at hsame htime hq
  dsimp only at hsame htime hhalf hq
  have hne : t' ≠ fi.modTime := htime ▸ hold
  have hvote := (hans.current_sublist (hsame ▸ hne) dir).length_le
  have hread := (hans.current_sublist hne dir').length_le
  have hquorum := hashCount_le_length (current answers t' dir') sel.fi
  have hfew := length_olderRecords_add ds fi
  have hmeta := hplaced.metadata
  rw [hans.length_eq, length_map, ← hplaced.each.length_eq, hlen] at hhalf
  rw [← hplaced.each.length_eq] at hfew
  omega

/-! ### Outvoting a put -/

section Split

variable (w k : ℕ)

lemma mapIdx_replicate {α β : Type} (a : α) (f g : α → β) :
    ((replicate (w + k) a).mapIdx fun i x => if decide (w ≤ i) then f x else g x) =
      replicate w (g a) ++ replicate k (f a) := by
  apply ext_getElem?
  intro i
  rw [getElem?_mapIdx, getElem?_append, length_replicate]
  simp only [getElem?_replicate, decide_eq_true_eq]
  by_cases hi : i < w
  · rw [if_pos (by omega), if_pos hi, if_pos hi, Option.map_some, if_neg (by omega)]
  · rw [if_neg hi]
    by_cases hk : i < w + k
    · rw [if_pos hk, if_pos (by omega), Option.map_some, if_pos (by omega)]
    · rw [if_neg hk, if_neg (by omega), Option.map_none]

lemma upCount_of_le : upCount (fun i => decide (w ≤ i)) (w + k) = w := by
  unfold upCount
  rw [range_add, countP_append, countP_eq_length.mpr, countP_eq_zero.mpr]
  · rw [length_range, add_zero]
  · intro i hi
    obtain ⟨j, -, rfl⟩ := mem_map.mp hi
    simp
  · intro i hi
    simpa using hi

lemma upCount_of_lt : upCount (fun i => !decide (w ≤ i)) (w + k) = k := by
  unfold upCount
  rw [range_add, countP_append, countP_eq_zero.mpr, countP_eq_length.mpr]
  · rw [length_map, length_range, zero_add]
  · intro i hi
    obtain ⟨j, -, rfl⟩ := mem_map.mp hi
    simp
  · intro i hi
    simpa using hi

end Split

/-- An older version. -/
def oldInfo : FileInfo :=
  { modTime := ⟨1⟩, dataDir := "old", blocks := [⟨hashBlockData [0], 1, 0⟩] }

def oldDisk : BlockDisk := ⟨[], .ok oldInfo⟩

def laterPut : PutOptions := { plainPut with modTime := ⟨2⟩, newDataDir := "new" }

section Later

variable (cfg : Config) (w k : ℕ)

/-- The record of a later put of one byte. -/
def laterInfo : FileInfo :=
  putFileInfo cfg.effectiveBlockSize laterPut (chunkRefs cfg.effectiveBlockSize.toNat [1])
    ((1 : ℕ) : ℤ)

/-- A disk with the blocks of the later put. -/
def withBlocks (d : BlockDisk) : BlockDisk :=
  (blocks cfg.effectiveBlockSize.toNat [1]).foldl BlockDisk.store d

/-- The disks after the later put, if all took the blocks and only `w` of them the metadata. -/
def missedByRest : List (Option BlockDisk) :=
  (replicate w { withBlocks cfg oldDisk with info := .ok (laterInfo cfg) } ++
    replicate k (withBlocks cfg oldDisk)).map some

lemma acknowledged_missedByRest (hw : cfg.writeQuorum = w) :
    AcknowledgedPut cfg laterPut ⟨[1], none⟩ (replicate (w + k) oldDisk)
      (missedByRest cfg w k) (laterInfo cfg) where
  outdated d hd := by
    rw [eq_of_mem_replicate hd]
    exact Or.inr ⟨oldInfo, rfl, ⟨rfl, by decide, by decide⟩, by decide⟩
  modTime := by decide
  dataDir := by decide
  put := by
    refine ⟨.inOrder, ⟨fun _ => failing fun _ => false, failing fun i => decide (w ≤ i)⟩, ?_⟩
    have hput := putBlockReplicatedObject_failing cfg .inOrder (fun _ => false)
      (fun i => decide (w ≤ i)) laterPut [1] (replicate (w + k) oldDisk) (by decide) rfl rfl
      (cons_ne_nil 1 [])
      (by simp only [upCount, length_replicate, Bool.not_false, countP_true,
            length_range, hw]; omega)
      (by rw [length_replicate, upCount_of_le, hw])
    simp only [Bool.false_eq_true, if_false] at hput
    have hstored : ((replicate (w + k) oldDisk).mapIdx fun _ d =>
        (blocks cfg.effectiveBlockSize.toNat [1]).foldl store d) =
        replicate (w + k) (withBlocks cfg oldDisk) := by
      apply ext_getElem?
      intro i
      rw [getElem?_mapIdx, getElem?_replicate, getElem?_replicate]
      split_ifs <;> rfl
    refine hput.trans (Prod.ext (congrArg (map some) ?_) rfl)
    rw [hstored]
    exact mapIdx_replicate w k (withBlocks cfg oldDisk) (fun d => d)
      fun d => { d with info := .ok (laterInfo cfg) }

lemma diskAnswers_missedByRest : diskAnswers (missedByRest cfg w k) =
      replicate w (.ok (laterInfo cfg)) ++ replicate k (.ok oldInfo) := by
  rw [missedByRest, diskAnswers_map_some, map_append, map_replicate, map_replicate]
  congr 2
  exact info_foldl_store _ _

lemma records_replicate (n : ℕ) (fi : FileInfo) :
    records (replicate n (.ok fi)) = replicate n fi := by
  induction n with
  | zero => rfl
  | succ n ih =>
    rw [replicate_succ, replicate_succ, ← ih]
    rfl

lemma olderRecords_missedByRest :
    olderRecords ⟨2⟩ (diskAnswers (missedByRest cfg w k)) = replicate k oldInfo := by
  rw [diskAnswers_missedByRest, olderRecords, records, filterMap_append, ← records, ← records,
    records_replicate, records_replicate, filter_append, filter_replicate_of_neg,
    filter_replicate_of_pos, nil_append]
  · decide
  · simp [laterInfo, putFileInfo, laterPut]

lemma stale_missedByRest {env : SelectEnv} (henv : SameSettings cfg env)
    (hhalf : (w + k) / 2 ≤ k) (hq : cfg.readQuorum ≤ k) :
    ∃ sel, getObjectFileInfo env .inOrder (missedByRest cfg w k)
        (onlyOlder ⟨2⟩ (diskAnswers (missedByRest cfg w k))) = .ok sel ∧ sel.fi = oldInfo := by
  have hrecords : records (onlyOlder ⟨2⟩ (diskAnswers (missedByRest cfg w k))) =
      replicate k oldInfo := by
    rw [records_onlyOlder, olderRecords_missedByRest]
  have hone : ∀ fi ∈ records (onlyOlder ⟨2⟩ (diskAnswers (missedByRest cfg w k))),
      fi = oldInfo := by
    intro fi hfi
    rw [hrecords] at hfi
    exact eq_of_mem_replicate hfi
  have hlength : (onlyOlder ⟨2⟩ (diskAnswers (missedByRest cfg w k))).length = w + k := by
    rw [length_onlyOlder, diskAnswers_missedByRest, length_append, length_replicate,
      length_replicate]
  have hk : k ≠ 0 := by
    have := cfg.readQuorum_pos
    omega
  have hst : StorableTimes (onlyOlder ⟨2⟩ (diskAnswers (missedByRest cfg w k))) := by
    intro fi hfi
    rw [hone fi hfi]
    decide
  have hversion : ∀ fi ∈ records (onlyOlder ⟨2⟩ (diskAnswers (missedByRest cfg w k))),
      fi.isValid = true ∧ fi.modTime = oldInfo.modTime ∧ fi.dataDir = oldInfo.dataDir := by
    intro fi hfi
    rw [hone fi hfi]
    exact ⟨rfl, rfl, rfl⟩
  obtain ⟨sel, hok, hmem⟩ := getObjectFileInfo_of_one_version env .inOrder _
    hst hversion (fun err => isErrIgnored_of_mem_onlyOlder _ _)
    (by rw [hlength, hrecords, length_replicate]; exact hhalf)
    (by rw [hrecords]; exact mem_replicate.mpr ⟨hk, rfl⟩)
    (by rw [henv.quorumOf, hrecords, hashCount, map_replicate, count_replicate_self]
        exact hq)
  exact ⟨sel, hok, hone sel.fi hmem⟩

end Later

/-- **Read after write, exactly**: the disks that missed an acknowledged put can never outvote it if
and only if they are fewer than half of the set or fewer than the read quorum. -/
theorem read_after_write_iff (cfg : Config) (N : ℕ) :
    ReadAfterWrite cfg N ↔ (N : ℤ) < cfg.writeQuorum + max ((N / 2 : ℕ) : ℤ) cfg.readQuorum := by
  constructor
  · intro hraw
    by_contra hge
    obtain ⟨w, hw⟩ := Int.eq_ofNat_of_zero_le cfg.writeQuorum_pos.le
    obtain ⟨k, rfl⟩ : ∃ k, N = w + k := Nat.exists_eq_add_of_le (by omega)
    have henv : SameSettings cfg ⟨cfg, true, fun _ => 0, 0, false, "", false⟩ := ⟨rfl, rfl⟩
    obtain ⟨sel, hok, hold⟩ := stale_missedByRest cfg w k henv (by omega) (by omega)
    have hnew := hraw _ _ _ _ _ (acknowledged_missedByRest cfg w k hw) length_replicate _
      henv _ _ (answeredBy_onlyOlder _ _) sel hok
    rw [hold] at hnew
    have htime : (⟨1⟩ : Time) = ⟨2⟩ := congrArg FileInfo.modTime hnew
    exact absurd htime (by decide)
  · exact readAfterWrite_of_lt

/-- Replication factor three. -/
def threeReplicas : Config := ⟨3, .consistent, 0⟩

/-- Four disks with the replication factor three: the put reaches two of them, the other two answer
the read, and it chooses the older version. -/
theorem stale_read_of_four :
    AcknowledgedPut threeReplicas laterPut ⟨[1], none⟩ (replicate 4 oldDisk)
        (missedByRest threeReplicas 2 2) (laterInfo threeReplicas) ∧
      AnsweredBy [.error .diskNotFound, .error .diskNotFound, .ok oldInfo, .ok oldInfo]
        (diskAnswers (missedByRest threeReplicas 2 2)) ∧
      (∃ sel, getObjectFileInfo ⟨threeReplicas, true, fun _ => 0, 0, false, "", false⟩ .inOrder
          (missedByRest threeReplicas 2 2)
          [.error .diskNotFound, .error .diskNotFound, .ok oldInfo, .ok oldInfo] = .ok sel ∧
        sel.fi = oldInfo) ∧ oldInfo ≠ laterInfo threeReplicas := by
  have hanswers : onlyOlder ⟨2⟩ (diskAnswers (missedByRest threeReplicas 2 2)) =
      [.error .diskNotFound, .error .diskNotFound, .ok oldInfo, .ok oldInfo] := by
    rw [diskAnswers_missedByRest]
    rfl
  refine ⟨acknowledged_missedByRest _ 2 2 rfl, ?_, ?_, fun heq => ?_⟩
  · rw [← hanswers]
    exact answeredBy_onlyOlder _ _
  · rw [← hanswers]
    exact stale_missedByRest _ 2 2 ⟨rfl, rfl⟩ (by decide) (by decide)
  · have htime : (⟨1⟩ : Time) = ⟨2⟩ := congrArg FileInfo.modTime heq
    exact absurd htime (by decide)

end Obstor.Block
