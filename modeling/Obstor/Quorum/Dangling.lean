import Obstor.Block.Put
import Obstor.Quorum.Selection

/-!
# When a read takes an object for dangling

`getObjectFileInfo` (`cmd/erasure-object.go`) purges an object that `isObjectDangling`
(`cmd/erasure-healing.go`) takes for one that cannot come back. It asks only if the read quorum is
missed, and compares the number of disks without the metadata with the parity, which is zero for a
block-replicated object.

`never_dangling_iff` says with which read quorum no block-replicated object that a disk may have is
taken for dangling, and `isObjectDangling_sound_iff` with which records the test is right in erasure
mode. Answers are counted by their kind (`Reply`), so that the first is about numbers
(`classifiesDangling_iff`).
-/

namespace Obstor.Quorum

open Go Lib Meta Block List Answer

/-! ### The decision -/

/-- `getObjectFileInfo` comes to the branch for dangling objects. -/
def classifiesDangling (env : SelectEnv) (ρ : Orders) (answers : List Answer) : Bool :=
  match objectQuorumFromMeta env ρ answers with
  | .error _ => false
  | .ok (readQuorum, _) =>
    reduceReadQuorumErrs ρ.errs (answers.map Answer.err) objectOpIgnoredErrs readQuorum =
        some .erasureReadQuorum &&
      !env.metaBucket && (isObjectDangling (answers.map Answer.info) (answers.map Answer.err) []).2

/-- There it calls `deleteObjectVersion`, unless the bucket is versioned and no version was asked
for. -/
def purgesDangling (env : SelectEnv) (versioned : Bool) (ρ : Orders) (answers : List Answer) :
    Bool :=
  classifiesDangling env ρ answers && (!versioned || env.versionID ≠ "")

/-! ### Answers of disks that have one object or not -/

inductive Reply
  | valid
  | notFound
  | offline
  deriving DecidableEq

/-- The answer, for an object with the metadata `fi`. -/
def Reply.answer (fi : FileInfo) : Reply → Answer
  | .valid => .ok fi
  | .notFound => .error .fileNotFound
  | .offline => .error .diskNotFound

def Reply.err : Reply → Option Err
  | .valid => none
  | .notFound => some .fileNotFound
  | .offline => some .diskNotFound

/-- The metadata of a block-replicated object. -/
structure BlockReplicated (fi : FileInfo) : Prop where
  blocks : fi.blocks ≠ []
  deleted : fi.deleted = false
  transition : fi.transitionStatus ≠ "complete"
  dataBlocks : fi.erasure.dataBlocks = 1
  parityBlocks : fi.erasure.parityBlocks = 0
  modTime : fi.modTime.Storable

section Replies

variable (fi : FileInfo) (rs : List Reply)

def answersOf : List Answer := rs.map (Reply.answer fi)

lemma answersOf_cons (r : Reply) : answersOf fi (r :: rs) = r.answer fi :: answersOf fi rs := rfl

lemma records_answersOf : records (answersOf fi rs) = replicate (rs.count .valid) fi := by
  induction rs with
  | nil => rfl
  | cons r rest ih =>
    rw [answersOf_cons]
    cases r with
    | valid =>
      rw [Reply.answer, records_cons_ok, ih, count_cons_self, replicate_succ]
    | notFound => rw [Reply.answer, records_cons_error, ih, count_cons_of_ne (by decide)]
    | offline => rw [Reply.answer, records_cons_error, ih, count_cons_of_ne (by decide)]

lemma errs_answersOf : (answersOf fi rs).map err = rs.map Reply.err := by
  rw [answersOf, map_map]
  refine map_congr_left fun r _ => ?_
  cases r <;> rfl

lemma count_none_answersOf : ((answersOf fi rs).map err).count none = rs.count .valid := by
  rw [count_none_errs, records_answersOf, length_replicate]

lemma countedErrs_answersOf : countedErrs ((answersOf fi rs).map err) objectOpIgnoredErrs =
      (rs.filter fun r => r ≠ .offline).map fun r =>
        if r = .valid then none else some .fileNotFound := by
  induction rs with
  | nil => rfl
  | cons r rest ih =>
    rw [answersOf_cons, map_cons, countedErrs, filter_cons, ← countedErrs, ih]
    cases r <;> rfl

lemma count_notFound_answersOf : (countedErrs ((answersOf fi rs).map err) objectOpIgnoredErrs).count
      (some .fileNotFound) = rs.count .notFound := by
  rw [countedErrs_answersOf, List.count, countP_map, countP_filter]
  refine countP_congr fun r _ => ?_
  cases r <;> decide

lemma forall_count_le_iff :
    (∀ err, (countedErrs ((answersOf fi rs).map Answer.err) objectOpIgnoredErrs).count err ≤
        ((answersOf fi rs).map Answer.err).count none) ↔
      rs.count .notFound ≤ rs.count .valid := by
  constructor
  · intro h
    have hle := h (some .fileNotFound)
    rw [count_notFound_answersOf, count_none_answersOf] at hle
    exact hle
  · intro hle err
    rw [← count_none_countedErrs]
    by_cases hmem : err ∈ countedErrs ((answersOf fi rs).map Answer.err) objectOpIgnoredErrs
    · have hcases : err = none ∨ err = some .fileNotFound := by
        rw [countedErrs_answersOf] at hmem
        obtain ⟨r, -, rfl⟩ := mem_map.mp hmem
        by_cases hr : r = .valid
        · exact Or.inl (if_pos hr)
        · exact Or.inr (if_neg hr)
      rcases hcases with rfl | rfl
      · exact le_rfl
      · rw [count_notFound_answersOf, count_none_countedErrs, count_none_answersOf]
        exact hle
    · rw [count_eq_zero_of_not_mem hmem]
      exact Nat.zero_le _

lemma reduceReadQuorumErrs_answersOf (ρ : RangeOrder) (quorum : ℤ)
    (hle : rs.count .notFound ≤ rs.count .valid) :
    reduceReadQuorumErrs ρ ((answersOf fi rs).map Answer.err) objectOpIgnoredErrs quorum =
      if quorum ≤ rs.count .valid then none else some .erasureReadQuorum := by
  have hall := (forall_count_le_iff fi rs).mpr hle
  have hnone := reduceErrs_snd_eq_none ρ _ _ hall
  have hfst := reduceErrs_fst ρ ((answersOf fi rs).map Answer.err) objectOpIgnoredErrs
  rw [hnone, count_none_countedErrs, count_none_answersOf] at hfst
  unfold reduceReadQuorumErrs reduceQuorumErrs
  simp [hfst, hnone]

variable {fi : FileInfo}

section

variable (hfi : BlockReplicated fi)

include hfi

lemma current_answersOf (ρt ρd : RangeOrder) :
    let c := commonTime ρt ρd (listObjectModtimes (answersOf fi rs))
      (listDataDirs (answersOf fi rs))
    current (answersOf fi rs) c.1 c.2 = replicate (rs.count .valid) fi := by
  intro c
  have hrecords := records_answersOf fi rs
  by_cases hnil : records (answersOf fi rs) = []
  · rw [current, ← hrecords, hnil, filter_nil]
  · have hone : ∀ fi' ∈ records (answersOf fi rs), fi' = fi := by
      rw [hrecords]
      exact fun fi' hfi' => eq_of_mem_replicate hfi'
    have hc : c = (fi.modTime, fi.dataDir) := by
      apply commonTime_of_one_version _ _ hnil
      · intro fi' hfi'
        rw [hone fi' hfi']
        exact hfi.modTime
      · intro fi' hfi'
        rw [hone fi' hfi']
        exact ⟨rfl, rfl⟩
    rw [hc, ← hrecords]
    apply filter_eq_self.mpr
    intro fi' hfi'
    rw [hone fi' hfi']
    simp [isCurrent, FileInfo.isValid_of_blocks hfi.blocks]

lemma getLatestFileInfo_answersOf (ρ : Orders) (latest : FileInfo) :
    getLatestFileInfo ρ (answersOf fi rs) = .ok latest ↔
      rs.length / 2 ≤ rs.count .valid ∧ rs.count .notFound ≤ rs.count .valid ∧
        latest = if rs.count .valid = 0 then {} else fi := by
  have hreduce := reduceQuorumErrs_eq_none_iff ρ.latestErrs ((answersOf fi rs).map err)
    objectOpIgnoredErrs ((answersOf fi rs).length / 2 : ℕ)
    (show some Err.erasureReadQuorum ≠ none from Option.some_ne_none _)
  rw [forall_count_le_iff, count_none_answersOf, Int.ofNat_le] at hreduce
  have hlen : (answersOf fi rs).length = rs.length := length_map _
  have hlast : ∀ n : ℕ, (replicate n fi).getLastD {} = if n = 0 then {} else fi := by
    intro n
    rw [getLastD_eq_getLast?, getLast?_replicate]
    split_ifs <;> rfl
  unfold getLatestFileInfo reduceReadQuorumErrs
  simp only [filter_isCurrent, current_answersOf rs hfi, length_replicate, hlast, hlen]
    at hreduce ⊢
  constructor
  · intro h
    split at h
    · cases h
    · next hnone =>
        obtain ⟨hhalf, hle⟩ := hreduce.mp hnone
        rw [if_neg (not_lt.mpr hhalf)] at h
        exact ⟨hhalf, hle, (Except.ok.inj h).symm⟩
  · rintro ⟨hhalf, hle, rfl⟩
    rw [hreduce.mpr ⟨hhalf, hle⟩]
    rw [if_neg (not_lt.mpr hhalf)]

lemma isObjectDangling_answersOf :
    (isObjectDangling ((answersOf fi rs).map info) ((answersOf fi rs).map err) []).2 ↔
      rs.count .valid = 0 ∨ 0 < rs.count .notFound := by
  have hvalid : (((answersOf fi rs).map info).find? FileInfo.isValid).getD {} =
      if rs.count .valid = 0 then {} else fi := by
    induction rs with
    | nil => rfl
    | cons r rest ih =>
      rw [answersOf_cons, map_cons]
      cases r with
      | valid =>
        rw [Reply.answer, info, find?_cons_of_pos (FileInfo.isValid_of_blocks hfi.blocks),
          count_cons_self]
        rfl
      | notFound =>
        rw [find?_cons_of_neg (by simp [Reply.answer, info, FileInfo.isValid_zero]), ih,
          count_cons_of_ne (by decide)]
      | offline =>
        rw [find?_cons_of_neg (by simp [Reply.answer, info, FileInfo.isValid_zero]), ih,
          count_cons_of_ne (by decide)]
  have hnotFound : ((answersOf fi rs).map err).countP (fun err =>
      errorsIs err .fileNotFound || errorsIs err .fileVersionNotFound) = rs.count .notFound := by
    rw [errs_answersOf, countP_map]
    refine countP_congr fun r _ => ?_
    cases r <;> decide
  have hcorrupted : ((answersOf fi rs).map err).countP (fun err =>
      !(errorsIs err .fileNotFound || errorsIs err .fileVersionNotFound) &&
        errorsIs err .corruptedFormat) = 0 := by
    rw [errs_answersOf, countP_map, countP_eq_zero]
    intro r _
    cases r <;> decide
  unfold isObjectDangling
  simp only [hvalid, hnotFound, hcorrupted, zip_nil_right, countP_nil, add_zero, zero_add]
  by_cases hzero : rs.count .valid = 0
  · simp [hzero]
  · rw [if_neg hzero, hfi.deleted, hfi.dataBlocks, hfi.parityBlocks]
    simp [hzero, hfi.transition]

/-- The read quorum of the set. -/
def readQuorumFor (env : SelectEnv) (valid : ℕ) : ℤ :=
  if valid = 0 ∧ env.isReplicated = false then 0 else env.cfg.readQuorum

/-- The verdict on a block-replicated object as arithmetic on the answers. -/
lemma classifiesDangling_iff (env : SelectEnv) (ρ : Orders) :
    classifiesDangling env ρ (answersOf fi rs) ↔
      env.metaBucket = false ∧ rs.length / 2 ≤ rs.count .valid ∧
        rs.count .notFound ≤ rs.count .valid ∧
        (rs.count .valid : ℤ) < readQuorumFor env (rs.count .valid) ∧
        (rs.count .valid = 0 ∨ 0 < rs.count .notFound) := by
  have hquorum : (quorumOf env (if rs.count .valid = 0 then {} else fi)).1 =
      readQuorumFor env (rs.count .valid) := by
    unfold quorumOf readQuorumFor
    by_cases hzero : rs.count .valid = 0
    · cases hrep : env.isReplicated <;> simp [hzero]
    · rw [if_neg hzero, if_pos (Or.inl (length_pos_of_ne_nil hfi.blocks)),
        if_neg (fun h => hzero h.1)]
  rw [← isObjectDangling_answersOf rs hfi]
  unfold classifiesDangling objectQuorumFromMeta
  cases hlatest : getLatestFileInfo ρ (answersOf fi rs) with
  | error err =>
    refine iff_of_false Bool.false_ne_true ?_
    rintro ⟨-, hhalf, hle, -⟩
    rw [(getLatestFileInfo_answersOf rs hfi ρ _).mpr ⟨hhalf, hle, rfl⟩] at hlatest
    cases hlatest
  | ok latest =>
    obtain ⟨hhalf, hle, rfl⟩ := (getLatestFileInfo_answersOf rs hfi ρ latest).mp hlatest
    simp only [reduceReadQuorumErrs_answersOf fi rs _ _ hle, hquorum]
    by_cases hq : readQuorumFor env (rs.count .valid) ≤ rs.count .valid
    · rw [if_pos hq]
      refine iff_of_false (by simp) ?_
      rintro ⟨-, -, -, hlt, -⟩
      exact absurd hq (not_le.mpr hlt)
    · simp [hhalf, hle, not_le.mp hq]

end

lemma count_add_count_le : rs.count .valid + rs.count .notFound ≤ rs.length := by
  induction rs with
  | nil => exact le_refl 0
  | cons r rest ih => cases r <;> simp <;> omega

end Replies

/-! ### All answers of a set -/

/-- A block-replicated object is never taken for dangling on `N` disks, unless every disk answers
that it does not have it: then no disk has it, reachable or not. -/
def NeverDangling (env : SelectEnv) (N : ℕ) : Prop :=
  ∀ fi, BlockReplicated fi → ∀ rs : List Reply, rs.length = N → (∃ r ∈ rs, r ≠ .notFound) →
    ∀ ρ, classifiesDangling env ρ (answersOf fi rs) = false

def oneBlock : FileInfo :=
  { dataDir := "d", modTime := ⟨1⟩, size := 1
    erasure := { dataBlocks := 1, parityBlocks := 0, index := 1, distribution := [1] }
    blocks := [⟨hashBlockData [1], 1, 0⟩] }

lemma blockReplicated_oneBlock : BlockReplicated oneBlock where
  blocks := cons_ne_nil _ _
  deleted := rfl
  transition := by decide
  dataBlocks := rfl
  parityBlocks := rfl
  modTime := by decide

/-- Half of the disks have the metadata, one misses it, and the others are away. -/
def oneMissing (N : ℕ) : List Reply :=
  replicate (N / 2) .valid ++ .notFound :: replicate (N - N / 2 - 1) .offline

lemma count_valid_oneMissing (N : ℕ) : (oneMissing N).count .valid = N / 2 := by
  simp [oneMissing, count_append, count_replicate]

lemma count_notFound_oneMissing (N : ℕ) : (oneMissing N).count .notFound = 1 := by
  simp [oneMissing, count_append, count_replicate]

/-- **An object that some disk may have is never taken for dangling, exactly** if half of the disks
are a read quorum; with a single disk, if the server is not in replicated mode. -/
theorem never_dangling_iff (env : SelectEnv) (N : ℕ) : NeverDangling env N ↔
      env.metaBucket = true ∨ N = 0 ∨ N = 1 ∧ env.isReplicated = false ∨
        2 ≤ N ∧ env.cfg.readQuorum ≤ (N / 2 : ℕ) := by
  have hpos := env.cfg.readQuorum_pos
  constructor
  · intro hnever
    by_contra hcond
    simp only [not_or, not_and, Bool.not_eq_true, Bool.not_eq_false, not_le] at hcond
    obtain ⟨hbucket, hzero, hone, htwo⟩ := hcond
    by_cases hN : N = 1
    · -- a single disk that is away
      have hfalse := hnever oneBlock blockReplicated_oneBlock [.offline] hN.symm
        ⟨.offline, mem_singleton_self _, by decide⟩ .inOrder
      have htrue := (classifiesDangling_iff [.offline] blockReplicated_oneBlock env .inOrder).mpr
        ⟨hbucket, by decide, by decide, by simp [readQuorumFor, hone hN, hpos], by decide⟩
      rw [hfalse] at htrue
      cases htrue
    · have hge : 2 ≤ N := by omega
      have hhalf : 1 ≤ N / 2 := by omega
      have hlen : (oneMissing N).length = N := by
        simp only [oneMissing, length_append, length_replicate, length_cons]
        omega
      have hfalse := hnever oneBlock blockReplicated_oneBlock _ hlen
        ⟨.valid, mem_append_left _ (mem_replicate.mpr ⟨by omega, rfl⟩), by decide⟩
        .inOrder
      have htrue := (classifiesDangling_iff _ blockReplicated_oneBlock env
        .inOrder).mpr (by
          rw [count_valid_oneMissing, count_notFound_oneMissing, hlen, readQuorumFor,
            if_neg (fun h => absurd h.1 (by omega))]
          exact ⟨hbucket, le_rfl, hhalf, htwo hge, Or.inr Nat.one_pos⟩)
      rw [hfalse] at htrue
      cases htrue
  · intro hcond fi hfi rs hlen hsome ρ
    rw [← Bool.not_eq_true, classifiesDangling_iff rs hfi]
    rintro ⟨hbucket, hhalf, hle, hlt, hmissing⟩
    have hcounts := count_add_count_le rs
    obtain ⟨r, hr, -⟩ := hsome
    have hne := length_pos_of_mem hr
    rcases hcond with hmeta | hzero | ⟨hone, hrep⟩ | ⟨htwo, hquorum⟩
    · rw [hmeta] at hbucket
      cases hbucket
    · omega
    · have hvalid : rs.count .valid = 0 := by omega
      rw [hvalid, readQuorumFor, if_pos ⟨rfl, hrep⟩] at hlt
      exact lt_irrefl _ hlt
    · rw [readQuorumFor] at hlt
      omega

/-- Five disks with the replication factor five: two have the metadata and the block, one lost them,
two are away. A read takes the object for dangling, and deletes it. -/
theorem recoverable_object_purged :
    let env : SelectEnv := ⟨⟨5, .consistent, 0⟩, true, fun _ => 0, 0, false, "", false⟩
    let answers := answersOf oneBlock [.valid, .valid, .notFound, .offline, .offline]
    classifiesDangling env .inOrder answers = true ∧
      purgesDangling env false .inOrder answers = true := by
  decide +kernel

/-! ### Errors of the metadata and of the parts -/

section Parts

variable (errs dataErrs : List (Option Err))

/-- The disk said that the file is not there or cannot be read. -/
def gone (err : Option Err) : Bool :=
  isErrIgnored err [.fileNotFound, .fileVersionNotFound, .corruptedFormat]

/-- The disks that have the metadata and the parts, if an error of another kind passes. -/
def canHold : ℕ := (errs.zip dataErrs).countP fun e => !gone e.1 && !gone e.2

/-- As `disksWithAllParts` fills them: where the metadata has an error, the parts have the same. -/
def Linked : Prop := ∀ e ∈ errs.zip dataErrs, e.1 ≠ none → e.2 = e.1

variable {errs dataErrs}

lemma marks_eq (errs : List (Option Err)) :
    (errs.countP fun err => !(errorsIs err .fileNotFound || errorsIs err .fileVersionNotFound) &&
      errorsIs err .corruptedFormat) + (errs.countP fun err =>
        errorsIs err .fileNotFound || errorsIs err .fileVersionNotFound) = errs.countP gone := by
  induction errs with
  | nil => rfl
  | cons err errs ih =>
    simp only [countP_cons, gone, isErrIgnored, any_cons, any_nil] at ih ⊢
    grind

/-- No disk is counted that can hold the object, and none twice. -/
lemma marks_add_le (hlen : errs.length = dataErrs.length) (hlinked : Linked errs dataErrs) :
    errs.countP gone + ((errs.zip dataErrs).countP fun e => e.1 ≠ e.2 && notFoundPart e.2) +
      canHold errs dataErrs ≤ errs.length := by
  induction errs generalizing dataErrs with
  | nil => simp [canHold]
  | cons err errs ih =>
    obtain _ | ⟨dataErr, dataErrs⟩ := dataErrs
    · cases hlen
    obtain ⟨hfirst, hlinked⟩ := forall_mem_cons.mp hlinked
    have hrest := ih (Nat.succ.inj hlen) hlinked
    have hgone : notFoundPart dataErr → gone dataErr := by
      grind [notFoundPart, gone, isErrIgnored]
    have hnone : gone none = false := rfl
    simp only [canHold, zip_cons_cons, countP_cons, length_cons] at hrest ⊢
    grind

/-- The first disks have lost the object, and the others have it. -/
def lostErrs (lost kept : ℕ) : List (Option Err) :=
  replicate lost (some .fileNotFound) ++ replicate kept none

lemma lostErrs_spec (lost kept : ℕ) : (lostErrs lost kept).countP gone = lost ∧
    canHold (lostErrs lost kept) (lostErrs lost kept) = kept ∧
    Linked (lostErrs lost kept) (lostErrs lost kept) := by
  have hzip : (lostErrs lost kept).zip (lostErrs lost kept) =
      (lostErrs lost kept).map fun e => (e, e) := by
    simpa using zip_map' (f := id) (g := id) (l := lostErrs lost kept)
  refine ⟨?_, ?_, ?_⟩
  · simp [lostErrs, countP_append, countP_replicate, gone, isErrIgnored, errorsIs]
  · rw [canHold, hzip, countP_map]
    simp [lostErrs, countP_append, countP_replicate, gone, isErrIgnored, errorsIs]
  · intro e he _
    rw [hzip] at he
    obtain ⟨err, -, rfl⟩ := mem_map.mp he
    rfl

end Parts

/-- The test is sound for all errors exactly if the first valid record is a delete marker or
transitioned, or has as many parity blocks as the object. -/
theorem isObjectDangling_sound_iff (metaArr : List FileInfo) (D P : ℕ)
    (hmeta : ∃ fi ∈ metaArr, fi.isValid = true ∧ fi.deleted = false ∧
      fi.transitionStatus ≠ "complete" ∧ fi.blocks = [] ∧ fi.erasure.dataBlocks = D ∧
      fi.erasure.parityBlocks = P) :
    (∀ errs dataErrs, errs.length = D + P → dataErrs.length = D + P → Linked errs dataErrs →
      (isObjectDangling metaArr errs dataErrs).2 = true → canHold errs dataErrs < D) ↔
    ∀ m, metaArr.find? FileInfo.isValid = some m → m.deleted = true ∨
      m.transitionStatus = "complete" ∨ m.erasure.dataBlocks ≠ 0 ∧ P ≤ m.erasure.parityBlocks := by
  obtain ⟨fi, hmem, hvalid, hdeleted, -, hblocks, hdata, hparity⟩ := hmeta
  obtain ⟨m, hfind⟩ : ∃ m, metaArr.find? FileInfo.isValid = some m :=
    Option.isSome_iff_exists.mp (find?_isSome.mpr ⟨fi, hmem, hvalid⟩)
  have hgeometry : P ≤ D := by
    simp [FileInfo.isValid, hdeleted, hblocks, hdata, hparity] at hvalid
    exact hvalid.1.1.1
  have htest : ∀ errs dataErrs, (isObjectDangling metaArr errs dataErrs).2 = true ↔
      if m.deleted = true ∨ m.transitionStatus = "complete" then
        errs.length / 2 < errs.countP gone
      else m.erasure.dataBlocks = 0 ∨ m.erasure.parityBlocks < (errs.countP gone +
        (errs.zip dataErrs).countP fun e => e.1 ≠ e.2 && notFoundPart e.2 : ℕ) := by
    intro errs dataErrs
    simp only [isObjectDangling, hfind, Option.getD_some, marks_eq]
    split_ifs <;> simp_all
  simp only [hfind, Option.some.injEq, forall_eq', htest]
  by_cases hmarker : m.deleted = true ∨ m.transitionStatus = "complete"
  · simp only [if_pos hmarker]
    refine iff_of_true (fun errs dataErrs herrs hdataErrs hlinked hok => ?_)
      (hmarker.imp_right .inl)
    have hmarks := marks_add_le (herrs.trans hdataErrs.symm) hlinked
    omega
  · simp only [if_neg hmarker]
    obtain ⟨hdel, htrans⟩ := not_or.mp hmarker
    rw [or_iff_right hdel, or_iff_right htrans]
    constructor
    · intro h
      by_contra hcond
      -- as many disks have lost the object as make the test hold
      obtain ⟨lost, hle, htrue⟩ : ∃ lost ≤ P, m.erasure.dataBlocks = 0 ∨
          m.erasure.parityBlocks < (lost : ℤ) := by
        by_cases hzero : m.erasure.dataBlocks = 0
        · exact ⟨0, Nat.zero_le _, .inl hzero⟩
        · refine ⟨(m.erasure.parityBlocks + 1).toNat, ?_, .inr ?_⟩ <;>
            simp only [hzero, not_false_iff, true_and, ne_eq] at hcond <;> omega
      obtain ⟨hcount, hcan, hlinked⟩ := lostErrs_spec lost (D + P - lost)
      have hlen : (lostErrs lost (D + P - lost)).length = D + P := by
        rw [lostErrs, length_append, length_replicate, length_replicate]
        omega
      have hlt := h _ _ hlen hlen hlinked (htrue.imp_right fun hlt => by omega)
      omega
    · rintro ⟨hne, hle⟩ errs dataErrs herrs hdataErrs hlinked hok
      have hmarks := marks_add_le (herrs.trans hdataErrs.symm) hlinked
      have hlt := hok.resolve_left hne
      omega

/-- Four disks, of which two can be lost. -/
theorem isObjectDangling_sound_iff_four :
    let fi : FileInfo := { erasure := ⟨"", 2, 2, 0, 1, [1, 2, 3, 4], []⟩ }
    ∀ errs dataErrs, errs.length = 4 → dataErrs.length = 4 → Linked errs dataErrs →
      (isObjectDangling [{}, fi, fi, {}] errs dataErrs).2 = true → canHold errs dataErrs < 2 := by
  intro fi
  have hvalid : fi.isValid = true := by decide +kernel
  refine (isObjectDangling_sound_iff [{}, fi, fi, {}] 2 2
    ⟨fi, by simp, hvalid, rfl, by decide, rfl, rfl, rfl⟩).mpr fun m hfind => ?_
  have hm : [{}, fi, fi, {}].find? FileInfo.isValid = some fi := by
    rw [find?_cons_of_neg (by simp [FileInfo.isValid_zero]), find?_cons_of_pos hvalid]
  obtain rfl := Option.some.inj (hm.symm.trans hfind)
  exact .inr (.inr ⟨by decide, le_rfl⟩)

/-- Four disks with two data blocks: the first has the record of a block-replicated put that did not
reach the others, one has lost the object, and one is away. With the one that has it, it can be read
when it is back, but is taken for dangling. -/
theorem dangling_with_enough_disks :
    let fi : FileInfo := { erasure := ⟨"", 2, 2, 0, 1, [1, 2, 3, 4], []⟩ }
    let errs := [none, none, some .diskNotFound, some .fileNotFound]
    let dataErrs := [none, some .diskNotFound, some .diskNotFound, some .fileNotFound]
    fi.isValid = true ∧ oneBlock.isValid = true ∧ Linked errs dataErrs ∧
      (isObjectDangling [oneBlock, fi, {}, {}] errs dataErrs).2 = true ∧
      canHold errs dataErrs = 3 := by
  unfold Linked
  decide +kernel

end Obstor.Quorum
