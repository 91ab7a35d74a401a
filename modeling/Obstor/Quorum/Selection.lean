import Obstor.Block.Replicator
import Obstor.Quorum.Reduce

/-!
# Choosing a version from the answers of the disks

A read asks every disk for the metadata of the object (`readAllFileInfo`) and chooses one record:
`getObjectFileInfo` (`cmd/erasure-object.go`) over `objectQuorumFromMeta`, `findFileInfoInQuorum`
(`cmd/erasure-metadata.go`), `commonTime`, `getLatestFileInfo` and `listOnlineDisks`
(`cmd/erasure-healing-common.go`), and `isObjectDangling` (`cmd/erasure-healing.go`).

The slices `metaArr` and `errs` are one list of answers: an error leaves the zero `FileInfo` in its
slot. Each `range` over a map has an order of its own (`Orders`).
-/

namespace Obstor.Quorum

open Go Lib Meta Block List

/-! ### Answers -/

/-- What `ReadVersion` gives on one disk. -/
abbrev Answer := Except Err FileInfo

namespace Answer

def info : Answer → FileInfo
  | .ok fi => fi
  | .error _ => {}

def err : Answer → Option Err
  | .ok _ => none
  | .error err => some err

end Answer

/-- `timeSentinel`, the beginning of Unix time. -/
def timeSentinel : Time := .unix 0

def listObjectModtimes (answers : List Answer) : List Time :=
  answers.map fun a => if a.err ≠ none then timeSentinel else a.info.modTime

/-- The data directories that `listOnlineDisks` and `getLatestFileInfo` list. -/
def listDataDirs (answers : List Answer) : List String :=
  answers.map fun a => if a.err ≠ none then "" else a.info.dataDir

/-- The orders of the `range` statements of a read. -/
structure Orders where
  latestErrs : RangeOrder
  latestTimes : RangeOrder
  latestDirs : RangeOrder
  errs : RangeOrder
  times : RangeOrder
  dirs : RangeOrder
  hashes : RangeOrder

/-- Every map is visited in the order of insertion. -/
def Orders.inOrder : Orders :=
  ⟨.inOrder, .inOrder, .inOrder, .inOrder, .inOrder, .inOrder, .inOrder⟩

/-- `commonTime`: the most frequent time, the later one on a tie, and a most frequent data
directory. -/
def commonTime (ρt ρd : RangeOrder) (modTimes : List Time) (dataDirs : List String) :
    Time × String :=
  let nanos := (modTimes.filter fun t => t ≠ timeSentinel).map Time.unixNano
  let dirs := dataDirs.filter fun d => d ≠ ""
  ((voteLoop (fun t => nanos.count t.nanos) (fun t modTime => t.after modTime) (0, Time.zero)
      ((ρt.order _ nanos.dedup).map Time.unix)).2,
    (voteLoop (fun d => dirs.count d) (fun _ _ => false) (0, "") (ρd.order _ dirs.dedup)).2)

/-- The record is valid and has the common time and data directory. -/
def isCurrent (modTime : Time) (dataDir : String) (fi : FileInfo) : Bool :=
  fi.isValid && fi.modTime = modTime && fi.dataDir = dataDir

/-- `getLatestFileInfo`: the last of the current records, if there are at least half as many as
disks. -/
def getLatestFileInfo (ρ : Orders) (answers : List Answer) : Except Err FileInfo :=
  match reduceReadQuorumErrs ρ.latestErrs (answers.map Answer.err) objectOpIgnoredErrs
    (answers.length / 2 : ℕ) with
  | some err => .error err
  | none =>
    let (modTime, dataDir) := commonTime ρ.latestTimes ρ.latestDirs (listObjectModtimes answers)
      (listDataDirs answers)
    let latest := (answers.map Answer.info).filter (isCurrent modTime dataDir)
    if latest.length < answers.length / 2 then .error .erasureReadQuorum
    else .ok (latest.getLastD {})

/-- The settings that a read looks at. -/
structure SelectEnv where
  /-- `globalReplicationConfig`. -/
  cfg : Config
  /-- `globalIsReplicated`. -/
  isReplicated : Bool
  /-- `globalStorageClass.GetParityForSC`. -/
  parityForSC : String → ℤ
  defaultParityCount : ℤ
  /-- The bucket is `.obstor.sys`. -/
  metaBucket : Bool
  versionID : String
  /-- Some disk of the set is being healed. -/
  healing : Bool

/-- The read and write quorum of a record. -/
def quorumOf (env : SelectEnv) (fi : FileInfo) : ℤ × ℤ :=
  if fi.blocks.length > 0 ∨ env.isReplicated = true then
    (env.cfg.readQuorum, env.cfg.writeQuorum)
  else
    let dataBlocks := fi.erasure.dataBlocks
    let parityBlocks :=
      let parity := env.parityForSC ((fi.metadata.lookup "x-amz-storage-class").getD "")
      if parity ≤ 0 then env.defaultParityCount else parity
    (dataBlocks, if dataBlocks = parityBlocks then dataBlocks + 1 else dataBlocks)

section

variable (env : SelectEnv) (ρ : Orders) (answers : List Answer)

def objectQuorumFromMeta :
    Except Err (ℤ × ℤ) :=
  match getLatestFileInfo ρ answers with
  | .error err => .error err
  | .ok latestFileInfo => .ok (quorumOf env latestFileInfo)

/-! ### Picking a record -/

/-- What `findFileInfoInQuorum` writes to the hash of a record. -/
def metaText (m : FileInfo) : String :=
  String.join (m.parts.map fun part => "part." ++ toString part.number) ++
    (if m.blocks.length > 0 then String.join (m.blocks.map fun blk => "block." ++ blk.hash)
      else "[" ++ String.intercalate " " (m.erasure.distribution.map toString) ++ "]") ++
    toString m.data.length

def metaHash (m : FileInfo) : String := Sha256.hexDigest (stringBytes (metaText m))

/-- `findFileInfoInQuorum`: the first of the current records that have the most frequent hash. -/
def findFileInfoInQuorum (ρ : RangeOrder) (metaArr : List FileInfo) (modTime : Time)
    (dataDir : String) (quorum : ℤ) : Except Err FileInfo :=
  let metaHashes := metaArr.map fun m => if isCurrent modTime dataDir m then metaHash m else ""
  let hashes := metaHashes.filter fun hash => hash ≠ ""
  let max := voteLoop (fun hash => hashes.count hash) (fun _ _ => false) (0, "")
    (ρ.order _ hashes.dedup)
  if (max.1 : ℤ) < quorum then .error .erasureReadQuorum
  else
    match metaArr.find? fun m =>
      (if isCurrent modTime dataDir m then metaHash m else "") = max.2 with
    | some m => .ok m
    | none => .error .erasureReadQuorum

/-- `IsErr` for the errors of parts that are counted. -/
def notFoundPart (err : Option Err) : Bool := isErrIgnored err [.fileNotFound, .fileVersionNotFound]

/-- `isObjectDangling`: the first valid record, and whether the object cannot come back. -/
def isObjectDangling (metaArr : List FileInfo) (errs dataErrs : List (Option Err)) :
    FileInfo × Bool :=
  let notFoundErasureMeta := errs.countP fun err =>
    errorsIs err .fileNotFound || errorsIs err .fileVersionNotFound
  let corruptedErasureMeta := errs.countP fun err =>
    !(errorsIs err .fileNotFound || errorsIs err .fileVersionNotFound) &&
      errorsIs err .corruptedFormat
  let notFoundParts := (errs.zip dataErrs).countP fun e => e.1 ≠ e.2 && notFoundPart e.2
  let validMeta := (metaArr.find? FileInfo.isValid).getD {}
  (validMeta,
    if validMeta.deleted || validMeta.transitionStatus = "complete" then
      corruptedErasureMeta + notFoundErasureMeta > errs.length / 2
    else if validMeta.erasure.dataBlocks = 0 then true
    else ((corruptedErasureMeta + notFoundErasureMeta + notFoundParts : ℕ) : ℤ) >
      validMeta.erasure.parityBlocks)

/-- The error of a read that did not reach its quorum; a dangling object does not exist. That it may
also be removed is left out: the read has failed. -/
def quorumFailure (reducedErr : Err) : Err :=
  if reducedErr = .erasureReadQuorum ∧ !env.metaBucket ∧
      (isObjectDangling (answers.map Answer.info) (answers.map Answer.err) []).2 then
    toObjectErr (if env.versionID ≠ "" then .fileVersionNotFound else .fileNotFound)
  else toObjectErr reducedErr

/-- What `getObjectFileInfo` gives: the record, the disks that have it, and whether it asks for a
heal. -/
structure Selected (α : Type) where
  fi : FileInfo
  onlineDisks : List (Option α)
  heal : Bool
  deriving DecidableEq

/-- `listOnlineDisks`: the disks with a current record. -/
def listOnlineDisks {α : Type} (ρ : Orders) (disks : List (Option α)) (answers : List Answer) :
    List (Option α) × Time × String :=
  let (modTime, dataDir) := commonTime ρ.times ρ.dirs (listObjectModtimes answers)
    (listDataDirs answers)
  (zipWith (fun disk a => if isCurrent modTime dataDir (Answer.info a) then disk else none)
    disks answers, modTime, dataDir)

/-- The disks that miss the record. -/
def missingBlocks (fi : FileInfo) (answers : List Answer) : ℕ :=
  answers.countP fun a => errorsIs a.err .fileNotFound || !isCurrent fi.modTime fi.dataDir a.info

def getObjectFileInfo {α : Type} (env : SelectEnv) (ρ : Orders) (disks : List (Option α))
    (answers : List Answer) : Except Err (Selected α) :=
  match objectQuorumFromMeta env ρ answers with
  | .error err => .error err
  | .ok (readQuorum, _) =>
    match reduceReadQuorumErrs ρ.errs (answers.map Answer.err) objectOpIgnoredErrs readQuorum with
    | some reducedErr => .error (quorumFailure env answers reducedErr)
    | none =>
      let (onlineDisks, modTime, dataDir) := listOnlineDisks ρ disks answers
      match findFileInfoInQuorum ρ.hashes (answers.map Answer.info) modTime dataDir readQuorum with
      | .error err => .error err
      | .ok fi =>
        let missing := missingBlocks fi answers
        .ok ⟨fi, onlineDisks, 0 < missing && (missing : ℤ) < readQuorum && !env.healing⟩

/-! ### The votes -/

def records : List FileInfo :=
  answers.filterMap fun a => a.toOption

/-- The number of records with a property. -/
def tally (p : FileInfo → Bool) : ℕ := (records answers).countP p

/-- Every record has a time that a journal entry can carry. -/
def StorableTimes : Prop := ∀ fi ∈ records answers, fi.modTime.Storable

end

section Votes

variable {answers : List Answer}

@[simp] lemma mem_records {fi : FileInfo} : fi ∈ records answers ↔ .ok fi ∈ answers := by
  simp only [records, mem_filterMap]
  constructor
  · rintro ⟨a, ha, hfi⟩
    cases a with
    | error err => cases hfi
    | ok fi' =>
      cases hfi
      exact ha
  · intro h
    exact ⟨.ok fi, h, rfl⟩

@[simp] lemma records_cons_ok (fi : FileInfo) (rest : List Answer) :
    records (.ok fi :: rest) = fi :: records rest := rfl

@[simp] lemma records_cons_error (err : Err) (rest : List Answer) :
    records (.error err :: rest) = records rest := rfl

lemma tally_pos {p : FileInfo → Bool} {fi : FileInfo} (hmem : fi ∈ records answers)
    (hp : p fi) : 0 < tally answers p :=
  countP_pos_iff.mpr ⟨fi, hmem, hp⟩

/-- What is taken from the answers of the disks, if it leaves out what an error gives. -/
lemma filter_map_answers {β : Type} {g : Answer → β} {p : β → Bool}
    (h : ∀ err, p (g (.error err)) = false) (answers : List Answer) :
    (answers.map g).filter p = ((records answers).map fun fi => g (.ok fi)).filter p := by
  induction answers with
  | nil => rfl
  | cons a rest ih =>
    cases a with
    | error err =>
      rw [map_cons, filter_cons_of_neg (by simp [h]), ih]
      rfl
    | ok fi => rw [map_cons, records_cons_ok, map_cons, filter_cons, filter_cons, ih]

lemma count_none_errs (answers : List Answer) :
    (answers.map Answer.err).count none = (records answers).length := by
  rw [List.count, countP_eq_length_filter, filter_map_answers (fun _ => rfl)]
  simp [Answer.err]

lemma ne_timeSentinel_of_storable {t : Time} (h : t.Storable) : t ≠ timeSentinel := by
  rintro rfl
  exact lt_irrefl _ h.1

lemma nanos_eq (hst : StorableTimes answers) :
    ((listObjectModtimes answers).filter fun t => t ≠ timeSentinel).map Time.unixNano =
      (records answers).map fun fi => fi.modTime.nanos := by
  have hall : ∀ t ∈ (records answers).map FileInfo.modTime, decide (t ≠ timeSentinel) := by
    intro t ht
    obtain ⟨fi, hfi, rfl⟩ := mem_map.mp ht
    exact decide_eq_true (ne_timeSentinel_of_storable (hst fi hfi))
  have hfilter : (listObjectModtimes answers).filter (fun t => t ≠ timeSentinel) =
      (records answers).map FileInfo.modTime :=
    (filter_map_answers (fun _ => rfl) answers).trans (filter_eq_self.mpr hall)
  rw [hfilter, map_map]
  exact map_congr_left fun fi hfi => (hst fi hfi).unixNano

lemma dirs_eq (answers : List Answer) : (listDataDirs answers).filter (fun d => d ≠ "") =
      ((records answers).map FileInfo.dataDir).filter fun d => d ≠ "" :=
  filter_map_answers (fun _ => rfl) answers

lemma count_nanos (hst : StorableTimes answers) (t : Time) :
    (((listObjectModtimes answers).filter fun t => t ≠ timeSentinel).map Time.unixNano).count
      t.nanos = tally answers fun fi => fi.modTime = t := by
  rw [nanos_eq hst, List.count, countP_map]
  refine countP_congr fun fi _ => ?_
  simp only [Function.comp_apply, beq_iff_eq, decide_eq_true_eq]
  exact ⟨Time.eq_of_nanos, fun h => h ▸ rfl⟩

lemma count_dirs (answers : List Answer) {d : String} (hd : d ≠ "") :
    ((listDataDirs answers).filter fun d => d ≠ "").count d =
      tally answers fun fi => fi.dataDir = d := by
  rw [dirs_eq, count_filter (by simpa using hd), List.count, countP_map]
  refine countP_congr fun fi _ => ?_
  simp

variable (ρt ρd : RangeOrder)

lemma commonTime_fst_eq (hst : StorableTimes answers) :
    ∃ order : List Time, (∀ t, t ∈ order ↔ ∃ fi ∈ records answers, fi.modTime = t) ∧
      (commonTime ρt ρd (listObjectModtimes answers) (listDataDirs answers)).1 =
        (voteLoop (fun t => tally answers fun fi => fi.modTime = t)
          (fun t modTime => t.after modTime) (0, Time.zero) order).2 := by
  refine ⟨(ρt.order _ (((listObjectModtimes answers).filter
    fun t => t ≠ timeSentinel).map Time.unixNano).dedup).map Time.unix, fun t => ?_, ?_⟩
  · rw [nanos_eq hst]
    simp only [mem_map, RangeOrder.mem_order, mem_dedup]
    constructor
    · rintro ⟨_, ⟨fi, hfi, rfl⟩, rfl⟩
      exact ⟨fi, hfi, rfl⟩
    · rintro ⟨fi, hfi, rfl⟩
      exact ⟨_, ⟨fi, hfi, rfl⟩, rfl⟩
  · unfold commonTime
    simp only [count_nanos hst]

lemma commonTime_snd_eq (answers : List Answer) :
    ∃ order : List String, (∀ d, d ∈ order ↔ d ≠ "" ∧ ∃ fi ∈ records answers, fi.dataDir = d) ∧
      (commonTime ρt ρd (listObjectModtimes answers) (listDataDirs answers)).2 =
        (voteLoop (fun d => ((listDataDirs answers).filter fun d => d ≠ "").count d)
          (fun _ _ => false) (0, "") order).2 := by
  refine ⟨ρd.order _ ((listDataDirs answers).filter fun d => d ≠ "").dedup, fun d => ?_, rfl⟩
  rw [dirs_eq]
  simp only [RangeOrder.mem_order, mem_dedup, mem_filter, mem_map, decide_eq_true_eq]
  exact and_comm

lemma commonTime_fst (hst : StorableTimes answers) (hne : records answers ≠ []) :
    let t := (commonTime ρt ρd (listObjectModtimes answers) (listDataDirs answers)).1
    (∃ fi ∈ records answers, fi.modTime = t) ∧ ∀ fi ∈ records answers,
        (tally answers fun fi' => fi'.modTime = fi.modTime) ≤
            (tally answers fun fi' => fi'.modTime = t) ∧
          ((tally answers fun fi' => fi'.modTime = fi.modTime) =
              (tally answers fun fi' => fi'.modTime = t) → fi.modTime.nanos ≤ t.nanos) := by
  intro t
  obtain ⟨order, horder, hvote⟩ := commonTime_fst_eq ρt ρd hst
  have ht : t = _ := hvote
  obtain ⟨fi₀, hfi₀⟩ := exists_mem_of_ne_nil _ hne
  have hpos : 0 < tally answers fun fi' => fi'.modTime = fi₀.modTime :=
    tally_pos hfi₀ (decide_eq_true rfl)
  obtain ⟨hmem, hwin⟩ := voteLoop_mem (fun t => tally answers fun fi => fi.modTime = t)
    _ Time.zero ((horder _).mpr ⟨fi₀, hfi₀, rfl⟩) hpos
  rw [← ht] at hmem hwin
  refine ⟨(horder t).mp hmem, fun fi hfi => ?_⟩
  have hin := (horder _).mpr ⟨fi, hfi, rfl⟩
  have hle := le_voteLoop (fun t => tally answers fun fi => fi.modTime = t)
    (fun t modTime => t.after modTime) order (0, Time.zero) hin
  rw [hwin] at hle
  refine ⟨hle, fun heq => ?_⟩
  have hlater := (key_le_voteLoop _
    (fun t modTime => t.after modTime) Time.nanos (fun a b h => (of_decide_eq_true h).le)
    (fun a b h => decide_eq_true h) order _).2 fi.modTime hin (by rw [hwin]; exact heq)
  rw [ht]
  exact hlater

lemma commonTime_snd (answers : List Answer) :
    let dir := (commonTime ρt ρd (listObjectModtimes answers) (listDataDirs answers)).2
    (dir = "" ∧ ∀ fi ∈ records answers, fi.dataDir = "") ∨
      (dir ≠ "" ∧ (∃ fi ∈ records answers, fi.dataDir = dir) ∧
        ∀ fi ∈ records answers, fi.dataDir ≠ "" →
          (tally answers fun fi' => fi'.dataDir = fi.dataDir) ≤
            (tally answers fun fi' => fi'.dataDir = dir)) := by
  intro dir
  obtain ⟨order, horder, hvote⟩ := commonTime_snd_eq ρt ρd answers
  have hdir : dir = _ := hvote
  by_cases hall : ∀ fi ∈ records answers, fi.dataDir = ""
  · left
    have hnil : order = [] := by
      apply eq_nil_iff_forall_not_mem.mpr
      intro d hd
      obtain ⟨hne, fi, hfi, rfl⟩ := (horder d).mp hd
      exact hne (hall fi hfi)
    rw [hnil] at hdir
    exact ⟨hdir, hall⟩
  · right
    push Not at hall
    obtain ⟨fi₀, hfi₀, hne₀⟩ := hall
    have hpos : 0 < ((listDataDirs answers).filter fun d => d ≠ "").count fi₀.dataDir := by
      rw [count_dirs answers hne₀]
      exact tally_pos hfi₀ (decide_eq_true rfl)
    obtain ⟨hmem, hwin⟩ := voteLoop_mem
      (fun d => ((listDataDirs answers).filter fun d => d ≠ "").count d) _ ""
      ((horder _).mpr ⟨hne₀, fi₀, hfi₀, rfl⟩) hpos
    rw [← hdir] at hmem hwin
    obtain ⟨hne, hsome⟩ := (horder dir).mp hmem
    refine ⟨hne, hsome, fun fi hfi hfine => ?_⟩
    have hle := le_voteLoop
      (fun d => ((listDataDirs answers).filter fun d => d ≠ "").count d) (fun _ _ => false) order
      (0, "") ((horder _).mpr ⟨hfine, fi, hfi, rfl⟩)
    rw [hwin] at hle
    simp only [count_dirs answers hfine, count_dirs answers hne] at hle
    exact hle

lemma commonTime_fst_unique (hst : StorableTimes answers) (hne : records answers ≠ [])
    (ρt' ρd' : RangeOrder) :
    (commonTime ρt ρd (listObjectModtimes answers) (listDataDirs answers)).1 =
      (commonTime ρt' ρd' (listObjectModtimes answers) (listDataDirs answers)).1 := by
  obtain ⟨⟨fi, hfi, heq⟩, hbest⟩ := commonTime_fst ρt ρd hst hne
  obtain ⟨⟨fi', hfi', heq'⟩, hbest'⟩ := commonTime_fst ρt' ρd' hst hne
  rw [← heq] at hbest ⊢
  rw [← heq'] at hbest' ⊢
  obtain ⟨hle, htie⟩ := hbest fi' hfi'
  obtain ⟨hle', htie'⟩ := hbest' fi hfi
  have htally := le_antisymm hle hle'
  exact Time.eq_of_nanos (le_antisymm (htie' htally.symm) (htie htally))

lemma commonTime_fst_of_max (hst : StorableTimes answers) {fi₀ : FileInfo}
    (hmem : fi₀ ∈ records answers)
    (hmax : ∀ fi ∈ records answers, fi.modTime ≠ fi₀.modTime →
      (tally answers fun fi' => fi'.modTime = fi.modTime) <
          (tally answers fun fi' => fi'.modTime = fi₀.modTime) ∨
        (tally answers fun fi' => fi'.modTime = fi.modTime) =
            (tally answers fun fi' => fi'.modTime = fi₀.modTime) ∧
          fi.modTime.nanos < fi₀.modTime.nanos) :
    (commonTime ρt ρd (listObjectModtimes answers) (listDataDirs answers)).1 = fi₀.modTime := by
  obtain ⟨⟨fi, hfi, heq⟩, hbest⟩ := commonTime_fst ρt ρd hst (ne_nil_of_mem hmem)
  by_contra hne
  rw [← heq] at hne hbest
  obtain ⟨hle, htie⟩ := hbest fi₀ hmem
  rcases hmax fi hfi hne with hlt | ⟨htally, hlt⟩
  · omega
  · omega

lemma commonTime_snd_of_max {fi₀ : FileInfo} (hmem : fi₀ ∈ records answers)
    (hdir : fi₀.dataDir ≠ "")
    (hmax : ∀ fi ∈ records answers, fi.dataDir ≠ fi₀.dataDir → fi.dataDir ≠ "" →
      (tally answers fun fi' => fi'.dataDir = fi.dataDir) <
        (tally answers fun fi' => fi'.dataDir = fi₀.dataDir)) :
    (commonTime ρt ρd (listObjectModtimes answers) (listDataDirs answers)).2 = fi₀.dataDir := by
  rcases commonTime_snd ρt ρd answers with ⟨-, hall⟩ | ⟨hne, ⟨fi, hfi, heq⟩, hbest⟩
  · exact absurd (hall fi₀ hmem) hdir
  · by_contra hother
    rw [← heq] at hother hne hbest
    have hle := hbest fi₀ hmem hdir
    have hlt := hmax fi hfi hother hne
    omega

end Votes

/-! ### What is chosen -/

/-- The records with a time and a directory. -/
def current (answers : List Answer) (modTime : Time) (dataDir : String) : List FileInfo :=
  (records answers).filter (isCurrent modTime dataDir)

section Chosen

variable {answers : List Answer} {modTime : Time} {dataDir : String}

lemma filter_isCurrent (answers : List Answer) (modTime : Time) (dataDir : String) :
    (answers.map Answer.info).filter (isCurrent modTime dataDir) =
      current answers modTime dataDir := by
  rw [filter_map_answers (fun _ => rfl)]
  exact congrArg _ (map_id _)

lemma mem_current {fi : FileInfo} : fi ∈ current answers modTime dataDir ↔
      fi ∈ records answers ∧ fi.isValid ∧ fi.modTime = modTime ∧ fi.dataDir = dataDir := by
  simp [current, isCurrent, and_assoc]

variable {ρ : Orders}

lemma getLatestFileInfo_ok {latest : FileInfo} (h : getLatestFileInfo ρ answers = .ok latest) :
    let c := commonTime ρ.latestTimes ρ.latestDirs (listObjectModtimes answers)
      (listDataDirs answers)
    answers.length / 2 ≤ (current answers c.1 c.2).length ∧
      latest = (current answers c.1 c.2).getLastD {} := by
  intro c
  unfold getLatestFileInfo at h
  split at h
  · cases h
  · simp only [filter_isCurrent] at h
    split_ifs at h with hlt
    cases h
    exact ⟨not_lt.mp hlt, rfl⟩

lemma metaHash_ne_empty (m : FileInfo) : metaHash m ≠ "" := Sha256.hexDigest_ne_empty _

/-- How many current records have the hash of `m`. -/
def hashCount (ms : List FileInfo) (m : FileInfo) : ℕ := (ms.map metaHash).count (metaHash m)

lemma hashCount_le_length (ms : List FileInfo) (m : FileInfo) : hashCount ms m ≤ ms.length :=
  count_le_length.trans (by rw [length_map])

lemma filter_metaHashes (metaArr : List FileInfo) (modTime : Time) (dataDir : String) :
    (metaArr.map fun m => if isCurrent modTime dataDir m then metaHash m else "").filter
        (fun hash => hash ≠ "") =
      (metaArr.filter (isCurrent modTime dataDir)).map metaHash := by
  induction metaArr with
  | nil => rfl
  | cons m rest ih =>
    by_cases hm : isCurrent modTime dataDir m
    · rw [map_cons, if_pos hm, filter_cons_of_pos (by simpa using metaHash_ne_empty m),
        ih, filter_cons_of_pos hm, map_cons]
    · rw [map_cons, if_neg hm, filter_cons_of_neg (by simp), ih, filter_cons_of_neg hm]

variable {metaArr : List FileInfo}

lemma findFileInfoInQuorum_ok {ρ : RangeOrder} {quorum : ℤ}
    {fi : FileInfo} (h : findFileInfoInQuorum ρ metaArr modTime dataDir quorum = .ok fi) :
    let ms := metaArr.filter (isCurrent modTime dataDir)
    (fi ∈ ms ∧ quorum ≤ hashCount ms fi) ∨ (ms = [] ∧ quorum ≤ 0) := by
  intro ms
  unfold findFileInfoInQuorum at h
  simp only [filter_metaHashes] at h
  split_ifs at h with hq
  have hmax := fun m => le_voteLoop (fun hash => (ms.map metaHash).count hash) (fun _ _ => false)
    (ρ.order _ (ms.map metaHash).dedup) (0, "") (k := metaHash m)
  rcases voteLoop_mem_or (fun hash => (ms.map metaHash).count hash) (fun _ _ => false)
    _ (0, "") with hinit | ⟨hmem, hwin⟩
  · -- no hash was counted
    right
    rw [hinit] at hq hmax
    refine ⟨eq_nil_iff_forall_not_mem.mpr fun m hm => ?_, by simpa using hq⟩
    have hin : metaHash m ∈ ms.map metaHash := mem_map_of_mem hm
    have hzero := hmax m (by simpa using hin)
    have hpos := count_pos_iff.mpr hin
    omega
  · left
    simp only [RangeOrder.mem_order, mem_dedup, mem_map] at hmem
    obtain ⟨m', -, hm'⟩ := hmem
    split at h
    · rename_i m hfind
      cases h
      have hfound := find?_some hfind
      have heq := of_decide_eq_true hfound
      have hcur : isCurrent modTime dataDir fi := by
        by_contra hno
        rw [if_neg hno, ← hm'] at heq
        exact metaHash_ne_empty m' heq.symm
      rw [if_pos hcur] at heq
      refine ⟨mem_filter.mpr ⟨mem_of_find?_eq_some hfind, hcur⟩, ?_⟩
      rw [hashCount, heq, ← hwin]
      exact not_lt.mp hq
    · cases h

variable {m : FileInfo}

lemma findFileInfoInQuorum_of_mem (ρ : RangeOrder) {quorum : ℤ}
    (hm : m ∈ metaArr.filter (isCurrent modTime dataDir))
    (hq : quorum ≤ hashCount (metaArr.filter (isCurrent modTime dataDir)) m) :
    ∃ fi ∈ metaArr.filter (isCurrent modTime dataDir),
      findFileInfoInQuorum ρ metaArr modTime dataDir quorum = .ok fi := by
  have hin : metaHash m ∈ (metaArr.filter (isCurrent modTime dataDir)).map metaHash :=
    mem_map_of_mem hm
  have hkey : metaHash m ∈ ρ.order _
      ((metaArr.filter (isCurrent modTime dataDir)).map metaHash).dedup := by
    simpa using hin
  have hmax := le_voteLoop
    (fun hash => ((metaArr.filter (isCurrent modTime dataDir)).map metaHash).count hash)
    (fun _ _ => false) _ (0, "") hkey
  obtain ⟨hmem, -⟩ := voteLoop_mem
    (fun hash => ((metaArr.filter (isCurrent modTime dataDir)).map metaHash).count hash)
    (fun _ _ => false) "" hkey (count_pos_iff.mpr hin)
  simp only [RangeOrder.mem_order, mem_dedup, mem_map] at hmem
  obtain ⟨m', hm', hhash⟩ := hmem
  have hok : ∃ fi, findFileInfoInQuorum ρ metaArr modTime dataDir quorum = .ok fi := by
    unfold findFileInfoInQuorum
    simp only [filter_metaHashes]
    rw [if_neg (not_lt.mpr (hq.trans (Int.ofNat_le.mpr hmax)))]
    split
    · exact ⟨_, rfl⟩
    · rename_i hnone
      obtain ⟨hmem', hcur⟩ := mem_filter.mp hm'
      have := find?_eq_none.mp hnone m' hmem'
      rw [if_pos hcur] at this
      simp [hhash] at this
  obtain ⟨fi, hfi⟩ := hok
  rcases findFileInfoInQuorum_ok hfi with ⟨hmem', -⟩ | ⟨hnil, -⟩
  · exact ⟨fi, hmem', hfi⟩
  · rw [hnil] at hm
    cases hm

variable {α : Type} {disks : List (Option α)}

lemma getObjectFileInfo_ok {env : SelectEnv}
    {sel : Selected α} (h : getObjectFileInfo env ρ disks answers = .ok sel) :
    let c := commonTime ρ.times ρ.dirs (listObjectModtimes answers) (listDataDirs answers)
    ∃ latest, getLatestFileInfo ρ answers = .ok latest ∧
      sel.onlineDisks = (listOnlineDisks ρ disks answers).1 ∧
      ((sel.fi ∈ current answers c.1 c.2 ∧
          (quorumOf env latest).1 ≤ hashCount (current answers c.1 c.2) sel.fi) ∨
        (current answers c.1 c.2 = [] ∧ (quorumOf env latest).1 ≤ 0)) := by
  intro c
  unfold getObjectFileInfo objectQuorumFromMeta at h
  rcases hl : getLatestFileInfo ρ answers with err | latest
  · simp [hl] at h
  · simp only [hl] at h
    split at h
    · cases h
    · split at h
      · cases h
      · rename_i fi hpick
        cases h
        refine ⟨latest, rfl, rfl, ?_⟩
        have := findFileInfoInQuorum_ok hpick
        rw [filter_isCurrent] at this
        exact this

lemma getObjectFileInfo_classes {env : SelectEnv} {sel : Selected α} (hst : StorableTimes answers)
    (hne : records answers ≠ []) (h : getObjectFileInfo env ρ disks answers = .ok sel) :
    let c := commonTime ρ.latestTimes ρ.latestDirs (listObjectModtimes answers)
      (listDataDirs answers)
    let c' := commonTime ρ.times ρ.dirs (listObjectModtimes answers) (listDataDirs answers)
    let q := (quorumOf env ((current answers c.1 c.2).getLastD {})).1
    c'.1 = c.1 ∧ answers.length / 2 ≤ (current answers c.1 c.2).length ∧
      ((sel.fi ∈ current answers c'.1 c'.2 ∧ q ≤ hashCount (current answers c'.1 c'.2) sel.fi) ∨
        (current answers c'.1 c'.2 = [] ∧ q ≤ 0)) := by
  intro c c' q
  obtain ⟨latest, hlatest, -, hchosen⟩ := getObjectFileInfo_ok h
  obtain ⟨hhalf, hlast⟩ := getLatestFileInfo_ok hlatest
  rw [hlast] at hchosen
  exact ⟨commonTime_fst_unique _ _ hst hne _ _, hhalf, hchosen⟩

lemma getObjectFileInfo_of_current (env : SelectEnv) (ρ : Orders) (disks : List (Option α))
    (htime : ∀ ρt ρd,
      commonTime ρt ρd (listObjectModtimes answers) (listDataDirs answers) = (modTime, dataDir))
    (herrs : ∀ err, (countedErrs (answers.map Answer.err) objectOpIgnoredErrs).count err ≤
      (records answers).length)
    (hhalf : answers.length / 2 ≤ (current answers modTime dataDir).length)
    (hm : m ∈ current answers modTime dataDir)
    (hq : (quorumOf env ((current answers modTime dataDir).getLastD {})).1 ≤
      hashCount (current answers modTime dataDir) m) :
    ∃ sel, getObjectFileInfo env ρ disks answers = .ok sel ∧
      sel.fi ∈ current answers modTime dataDir ∧
      sel.onlineDisks = zipWith
        (fun disk a => if isCurrent modTime dataDir (Answer.info a) then disk else none)
        disks answers := by
  have hle : (current answers modTime dataDir).length ≤ (records answers).length :=
    length_filter_le _ _
  have hcount := hashCount_le_length (current answers modTime dataDir) m
  have hreduce : ∀ (ρ' : RangeOrder) (q : ℤ), q ≤ (records answers).length →
      reduceReadQuorumErrs ρ' (answers.map Answer.err) objectOpIgnoredErrs q = none := by
    intro ρ' q hq
    apply (reduceQuorumErrs_eq_none_iff ρ' _ _ q (by simp)).mpr
    rw [count_none_errs]
    exact ⟨hq, herrs⟩
  have hlatest : getLatestFileInfo ρ answers =
      .ok ((current answers modTime dataDir).getLastD {}) := by
    unfold getLatestFileInfo
    rw [hreduce _ _ (by omega)]
    simp only [htime, filter_isCurrent]
    rw [if_neg (not_lt.mpr hhalf)]
  rw [← filter_isCurrent] at hm hq
  obtain ⟨fi, hfi, hpick⟩ := findFileInfoInQuorum_of_mem ρ.hashes hm hq
  rw [filter_isCurrent] at hfi hpick hq
  unfold getObjectFileInfo objectQuorumFromMeta listOnlineDisks
  simp only [hlatest, htime]
  rw [hreduce _ _ (by omega)]
  simp only [hpick]
  exact ⟨_, rfl, hfi, rfl⟩

lemma commonTime_of_one_version (hst : StorableTimes answers)
    (hone : ∀ fi ∈ records answers, fi.modTime = modTime ∧ fi.dataDir = dataDir)
    (hne : records answers ≠ []) (ρt ρd : RangeOrder) :
    commonTime ρt ρd (listObjectModtimes answers) (listDataDirs answers) = (modTime, dataDir) := by
  obtain ⟨m, hm⟩ := exists_mem_of_ne_nil _ hne
  obtain ⟨hmtime, hmdir⟩ := hone m hm
  apply Prod.ext
  · rw [← hmtime]
    apply commonTime_fst_of_max ρt ρd hst hm
    intro fi hfi hne
    exact absurd ((hone fi hfi).1.trans hmtime.symm) hne
  · by_cases hempty : dataDir = ""
    · rcases commonTime_snd ρt ρd answers with ⟨hdir, -⟩ | ⟨hne, ⟨fi, hfi, heq⟩, -⟩
      · rw [hdir, hempty]
      · rw [← heq, (hone fi hfi).2] at hne
        exact absurd hempty hne
    · rw [← hmdir]
      apply commonTime_snd_of_max ρt ρd hm (by rw [hmdir]; exact hempty)
      intro fi hfi hne
      exact absurd ((hone fi hfi).2.trans hmdir.symm) hne

lemma getObjectFileInfo_of_one_version (env : SelectEnv) (ρ : Orders)
    (disks : List (Option α)) (hst : StorableTimes answers)
    (hone : ∀ fi ∈ records answers, fi.isValid ∧ fi.modTime = modTime ∧ fi.dataDir = dataDir)
    (haway : ∀ err, .error err ∈ answers → isErrIgnored (some err) objectOpIgnoredErrs)
    (hhalf : answers.length / 2 ≤ (records answers).length)
    (hm : m ∈ records answers)
    (hq : (quorumOf env ((records answers).getLastD {})).1 ≤ hashCount (records answers) m) :
    ∃ sel, getObjectFileInfo env ρ disks answers = .ok sel ∧ sel.fi ∈ records answers := by
  have hcurrent : current answers modTime dataDir = records answers := by
    apply filter_eq_self.mpr
    intro fi hfi
    obtain ⟨hvalid, htime, hdir⟩ := hone fi hfi
    simp [isCurrent, hvalid, htime, hdir]
  have htime := commonTime_of_one_version hst (fun fi hfi => (hone fi hfi).2) (ne_nil_of_mem hm)
  have herrs : ∀ err, (countedErrs (answers.map Answer.err) objectOpIgnoredErrs).count err ≤
      (records answers).length := by
    rw [← count_none_errs]
    apply count_countedErrs_le_of_ignored
    intro err hmem
    obtain ⟨a, ha, hae⟩ := mem_map.mp hmem
    cases a with
    | ok fi => cases hae
    | error err' =>
      cases hae
      exact haway err ha
  rw [← hcurrent] at hhalf hm hq
  obtain ⟨sel, hsel, hmem, -⟩ := getObjectFileInfo_of_current env ρ disks htime herrs hhalf hm hq
  exact ⟨sel, hsel, hcurrent ▸ hmem⟩

end Chosen

end Obstor.Quorum
