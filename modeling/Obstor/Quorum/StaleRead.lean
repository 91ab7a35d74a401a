import Obstor.Quorum.Selection

/-!
# Stale reads in erasure mode

A write of a version with `D` data and `P` parity blocks was acknowledged: it is on at least the
write quorum of the `D + P` disks. The others hold an older version each, or none. A later read
that some of the disks answer should choose the new version or fail.

`never_stale_iff`: it does exactly if the disks that have missed the write cannot outvote it
(`CanOutvote`). `Acknowledged.newVersion_of_ok` is the direct half; for the converse only these
disks answer (`onlyOlder`).
-/

namespace Obstor.Quorum

open Go Lib Meta Block List

/-- The write quorum of `D` data and `P` parity blocks. -/
def writeQuorumOf (D P : ℕ) : ℕ := if D = P then D + 1 else D

section

variable (D P : ℕ) (newTime : Time) (newDir : String)

/-- A record of the version that was written. -/
structure NewVersion (fi : FileInfo) : Prop where
  valid : fi.isValid = true
  modTime : fi.modTime = newTime
  dataDir : fi.dataDir = newDir
  blocks : fi.blocks = []
  dataBlocks : fi.erasure.dataBlocks = D
  parityBlocks : fi.erasure.parityBlocks = P

/-- A record of an older version. -/
structure OlderVersion (fi : FileInfo) : Prop where
  valid : fi.isValid = true
  modTime : fi.modTime.nanos < newTime.nanos
  dataDir : fi.dataDir ≠ newDir

/-- The records of older versions. -/
def olderRecords (held : List Answer) : List FileInfo :=
  (records held).filter fun fi => fi.modTime ≠ newTime

/-- The disks after the write: what each of them would answer. -/
structure Acknowledged
    (held : List Answer) : Prop where
  parity : 1 ≤ P
  data : P ≤ D
  length : held.length = D + P
  dataDir : newDir ≠ ""
  storable : ∀ fi ∈ records held, fi.modTime.Storable
  versions : ∀ fi ∈ records held, NewVersion D P newTime newDir fi ∨ OlderVersion newTime newDir fi
  quorum : writeQuorumOf D P ≤ (records held).countP fun fi => fi.modTime = newTime

end

/-- Each disk gives its answer or fails. -/
def AnsweredBy (answers held : List Answer) : Prop :=
  Forall₂ (fun a h => a = h ∨ ∃ err, a = .error err) answers held

/-- No read chooses an older version, whichever disks answer. -/
def NeverStale (env : SelectEnv) (D P : ℕ) (newTime : Time) (newDir : String)
    (held : List Answer) : Prop :=
  ∀ (α : Type) (ρ : Orders) (disks : List (Option α)) (answers : List Answer),
    AnsweredBy answers held → ∀ sel, getObjectFileInfo env ρ disks answers = .ok sel →
      NewVersion D P newTime newDir sel.fi

/-- The disks that missed the write can outvote it: they are `P` of `2 * P + 1`, hold one version,
and reach the quorum of its last record. -/
def CanOutvote (env : SelectEnv) (D P : ℕ) (newTime : Time) (held : List Answer) :
    Prop :=
  D = P + 1 ∧ (olderRecords newTime held).length = P ∧
    (∃ t dir, ∀ fi ∈ olderRecords newTime held, fi.modTime = t ∧ fi.dataDir = dir) ∧
    ∃ m ∈ olderRecords newTime held, (quorumOf env ((olderRecords newTime held).getLastD {})).1 ≤
        hashCount (olderRecords newTime held) m

section Answers

variable {answers : List Answer} {held : List Answer} {newTime : Time}

section

variable (h : AnsweredBy answers held)

include h

lemma AnsweredBy.records_sublist : (records answers).Sublist (records held) := by
  induction h with
  | nil => exact Sublist.refl _
  | @cons a o as os hao _ ih =>
    rcases hao with rfl | ⟨err, rfl⟩
    · cases a with
      | error err => exact ih
      | ok fi => exact ih.cons_cons fi
    · cases o with
      | error err' => exact ih
      | ok fi => exact ih.cons fi

lemma AnsweredBy.length_eq : answers.length = held.length :=
  Forall₂.length_eq h

lemma AnsweredBy.mem_older {fi : FileInfo}
    (hfi : fi ∈ records answers) (htime : fi.modTime ≠ newTime) :
    fi ∈ olderRecords newTime held :=
  mem_filter.mpr ⟨h.records_sublist.subset hfi, decide_eq_true htime⟩

lemma AnsweredBy.current_sublist {t : Time} (ht : t ≠ newTime)
    (dir : String) : (current answers t dir).Sublist (olderRecords newTime held) := by
  refine (h.records_sublist.filter _).trans (monotone_filter_right _ fun fi hfi => ?_)
  simp only [isCurrent, Bool.and_eq_true, decide_eq_true_eq] at hfi
  apply decide_eq_true
  rw [hfi.1.2]
  exact ht

end

end Answers

lemma NewVersion.quorum_pos {D P : ℕ} {newTime : Time} {newDir : String} {fi : FileInfo}
    (h : NewVersion D P newTime newDir fi) (env : SelectEnv) (hD : 1 ≤ D) :
    0 < (quorumOf env fi).1 := by
  unfold quorumOf
  split_ifs
  · exact env.cfg.readQuorum_pos
  · simp only [h.dataBlocks]
    exact Int.natCast_pos.mpr hD

section Acknowledged

variable {env : SelectEnv} {D P : ℕ} {newTime : Time} {newDir : String}
  {held : List Answer} (h : Acknowledged D P newTime newDir held)

include h

lemma Acknowledged.newVersion_of_time {fi : FileInfo} (hfi : fi ∈ records held)
    (htime : fi.modTime = newTime) : NewVersion D P newTime newDir fi := by
  rcases h.versions fi hfi with hnew | hold
  · exact hnew
  · have := hold.modTime
    rw [htime] at this
    exact absurd this (lt_irrefl _)

lemma Acknowledged.older_of_time {fi : FileInfo} (hfi : fi ∈ records held)
    (htime : fi.modTime ≠ newTime) : OlderVersion newTime newDir fi := by
  rcases h.versions fi hfi with hnew | hold
  · exact absurd hnew.modTime htime
  · exact hold

lemma Acknowledged.older_le : (olderRecords newTime held).length ≤ (D + P) / 2 ∧
      ((D + P) / 2 ≤ (olderRecords newTime held).length →
        D = P + 1 ∧ (olderRecords newTime held).length = P) := by
  have hq := h.quorum
  have hlen : (records held).length ≤ D + P := h.length ▸ length_filterMap_le _ _
  have hsplit := length_eq_countP_add_countP
    (fun fi : FileInfo => decide (fi.modTime = newTime)) (l := records held)
  have holder : (olderRecords newTime held).length =
      (records held).countP fun fi => ¬ decide (fi.modTime = newTime) := by
    rw [olderRecords, countP_eq_length_filter]
    simp
  have hD := h.data
  unfold writeQuorumOf at hq
  split_ifs at hq <;> constructor <;> omega

variable {answers : List Answer} (hans : AnsweredBy answers held)

include hans

lemma Acknowledged.storableTimes : StorableTimes answers := fun fi hfi =>
  h.storable fi (hans.records_sublist.subset hfi)

lemma Acknowledged.current_eq_older {t : Time} (ht : t ≠ newTime) {dir : String}
    (hhalf : answers.length / 2 ≤ (current answers t dir).length) :
    D = P + 1 ∧ (olderRecords newTime held).length = P ∧
      current answers t dir = olderRecords newTime held := by
  have hsub := hans.current_sublist ht dir
  obtain ⟨hle, hall⟩ := h.older_le
  rw [hans.length_eq, h.length] at hhalf
  obtain ⟨hD, hP⟩ := hall (hhalf.trans hsub.length_le)
  exact ⟨hD, hP, hsub.eq_of_length_le (hle.trans hhalf)⟩

/-- The two votes then agree on the directory too: the new version has fewer answers, because it
would have won a tie of the times. -/
lemma Acknowledged.same_dir {t : Time} {dir : String} {ρt ρd : RangeOrder} (ρt' ρd' : RangeOrder)
    (hc : commonTime ρt ρd (listObjectModtimes answers) (listDataDirs answers) = (t, dir))
    (ht : t ≠ newTime) (hcur : current answers t dir = olderRecords newTime held)
    {m : FileInfo} (hm : m ∈ olderRecords newTime held) :
    (commonTime ρt' ρd' (listObjectModtimes answers) (listDataDirs answers)).2 = dir := by
  have hone : ∀ fi ∈ records answers, fi.modTime ≠ newTime → fi.modTime = t ∧ fi.dataDir = dir := by
    intro fi hfi hne
    have hin := hans.mem_older hfi hne
    rw [← hcur] at hin
    exact (mem_current.mp hin).2.2
  rw [← hcur] at hm
  obtain ⟨hmem, -, hmtime, hmdir⟩ := mem_current.mp hm
  have hne : records answers ≠ [] := ne_nil_of_mem hmem
  obtain ⟨-, htimes⟩ := commonTime_fst ρt ρd (h.storableTimes hans) hne
  have hdirs := commonTime_snd ρt ρd answers
  rw [hc] at htimes hdirs
  dsimp only at htimes hdirs
  rcases hdirs with ⟨hempty, hall⟩ | ⟨hdir, -, -⟩
  · rcases commonTime_snd ρt' ρd' answers with ⟨hempty', -⟩ | ⟨hne', ⟨fi, hfi, heq⟩, -⟩
    · exact hempty'.trans hempty.symm
    · rw [← heq] at hne'
      exact absurd (hall fi hfi) hne'
  · rw [← hmdir]
    apply commonTime_snd_of_max ρt' ρd' hmem (by rw [hmdir]; exact hdir)
    intro fi hfi hother _
    have htime : fi.modTime = newTime := by
      by_contra hold
      exact hother ((hone fi hfi hold).2.trans hmdir.symm)
    have hnew := h.newVersion_of_time (hans.records_sublist.subset hfi) htime
    have hfewer : (tally answers fun fi' => fi'.modTime = newTime) <
        tally answers fun fi' => fi'.modTime = t := by
      obtain ⟨hle, htie⟩ := htimes fi hfi
      rw [htime] at hle htie
      refine lt_of_le_of_ne hle fun heq => ?_
      have holder := h.older_of_time (hans.records_sublist.subset hmem) (hmtime ▸ ht)
      have := holder.modTime
      rw [hmtime] at this
      omega
    calc (tally answers fun fi' => fi'.dataDir = fi.dataDir)
        ≤ tally answers _ := by
          refine countP_mono_left fun fi' hfi' hd => decide_eq_true ?_
          by_contra hold
          have hd' := of_decide_eq_true hd
          rw [hnew.dataDir] at hd'
          exact (h.older_of_time (hans.records_sublist.subset hfi') hold).dataDir hd'
      _ < tally answers _ := hfewer
      _ ≤ tally answers _ := by
          refine countP_mono_left fun fi' hfi' hd => decide_eq_true ?_
          have hd' := of_decide_eq_true hd
          rw [hmdir]
          exact (hone fi' hfi' (hd' ▸ ht)).2

/-- A read that succeeds has the new version, unless the disks that missed the write outvote it. -/
lemma Acknowledged.newVersion_of_ok {α : Type} {ρ : Orders} {disks : List (Option α)}
    (hno : ¬ CanOutvote env D P newTime held) {sel : Selected α}
    (hok : getObjectFileInfo env ρ disks answers = .ok sel) :
    NewVersion D P newTime newDir sel.fi := by
  have hst := h.storableTimes hans
  have hparity := h.parity
  have hdata := h.data
  have hlen : answers.length = D + P := hans.length_eq.trans h.length
  have hne : records answers ≠ [] := by
    obtain ⟨latest, hlatest, -⟩ := getObjectFileInfo_ok hok
    obtain ⟨hhalf, -⟩ := getLatestFileInfo_ok hlatest
    intro hnil
    rw [current, hnil] at hhalf
    simp at hhalf
    omega
  obtain ⟨hsame, hhalf, hchosen⟩ := getObjectFileInfo_classes hst hne hok
  rcases hc : commonTime ρ.latestTimes ρ.latestDirs (listObjectModtimes answers)
    _ with ⟨t, dir⟩
  rw [hc] at hsame hhalf hchosen
  rw [hsame] at hchosen
  by_cases ht : t = newTime
  · -- the quorum is that of the new version
    have hlast : (current answers t dir).getLastD {} ∈ current answers t dir := by
      rw [getLastD_eq_getLast?, getLast?_eq_some_getLast (by
        intro hnil
        rw [hnil] at hhalf
        simp at hhalf
        omega)]
      exact getLast_mem _
    obtain ⟨hin, -, htime, -⟩ := mem_current.mp hlast
    have hnew := h.newVersion_of_time (hans.records_sublist.subset hin) (htime.trans ht)
    have hq := hnew.quorum_pos env (hparity.trans hdata)
    rcases hchosen with ⟨hmem, -⟩ | ⟨-, hzero⟩
    · obtain ⟨hin', -, htime', -⟩ := mem_current.mp hmem
      exact h.newVersion_of_time (hans.records_sublist.subset hin') (htime'.trans ht)
    · exact absurd hzero (not_le.mpr hq)
  · obtain ⟨hD, hP, hcur⟩ := h.current_eq_older hans ht hhalf
    obtain ⟨m, hm⟩ := exists_mem_of_length_pos (by rw [hP]; exact hparity)
    have hdir := h.same_dir hans ρ.times ρ.dirs hc ht hcur hm
    rw [hdir, hcur] at hchosen
    have hone : ∀ fi ∈ olderRecords newTime held, fi.modTime = t ∧ fi.dataDir = dir := by
      intro fi hfi
      rw [← hcur] at hfi
      exact (mem_current.mp hfi).2.2
    rcases hchosen with ⟨hmem, hq⟩ | ⟨hnil, -⟩
    · exact absurd ⟨hD, hP, ⟨t, dir, hone⟩, sel.fi, hmem, hq⟩ hno
    · rw [hnil] at hm
      cases hm

end Acknowledged

/-! ### Outvoting -/

/-- The disks with a record of another time are away. -/
def onlyOlder (newTime : Time) (held : List Answer) : List Answer :=
  held.map fun
    | .ok fi => if fi.modTime ≠ newTime then .ok fi else .error .diskNotFound
    | .error _ => .error .diskNotFound

section OnlyOlder

variable (newTime : Time) (held : List Answer)

@[simp] lemma length_onlyOlder : (onlyOlder newTime held).length = held.length :=
  length_map _

lemma answeredBy_onlyOlder : AnsweredBy (onlyOlder newTime held) held := by
  unfold AnsweredBy onlyOlder
  rw [List.forall₂_map_left_iff]
  apply List.forall₂_same.mpr
  intro a _
  cases a with
  | error err => exact Or.inr ⟨_, rfl⟩
  | ok fi =>
    by_cases hfi : fi.modTime ≠ newTime
    · exact Or.inl (if_pos hfi)
    · exact Or.inr ⟨_, if_neg hfi⟩

lemma records_onlyOlder : records (onlyOlder newTime held) = olderRecords newTime held := by
  induction held with
  | nil => rfl
  | cons a rest ih =>
    cases a with
    | error err => exact ih
    | ok fi =>
      show records ((if fi.modTime ≠ newTime then .ok fi else .error .diskNotFound) ::
        onlyOlder newTime rest) = List.filter _ (fi :: records rest)
      rw [filter_cons]
      by_cases hfi : fi.modTime ≠ newTime
      · rw [if_pos hfi, if_pos (decide_eq_true hfi)]
        exact congrArg (fi :: ·) ih
      · rw [if_neg hfi, if_neg (by simpa using hfi)]
        exact ih

lemma isErrIgnored_of_mem_onlyOlder {err : Err} (h : .error err ∈ onlyOlder newTime held) :
    isErrIgnored (some err) objectOpIgnoredErrs := by
  obtain ⟨a, -, ha⟩ := mem_map.mp h
  have herr : err = .diskNotFound := by
    cases a with
    | error err' =>
      cases ha
      rfl
    | ok fi =>
      by_cases hfi : fi.modTime ≠ newTime
      · simp only [if_pos hfi] at ha
        cases ha
      · simp only [if_neg hfi] at ha
        cases ha
        rfl
  rw [herr]
  rfl

end OnlyOlder

/-- **No stale read, exactly**: a read chooses the new version or fails, for every set of disks that
answer, unless the disks that missed the write can outvote it. -/
theorem never_stale_iff {D P : ℕ} {newTime : Time} {newDir : String}
    {held : List Answer} (h : Acknowledged D P newTime newDir held) (env : SelectEnv) :
    NeverStale env D P newTime newDir held ↔ ¬ CanOutvote env D P newTime held := by
  constructor
  · rintro hnever ⟨hD, hP, ⟨t, dir, hone⟩, m, hm, hq⟩
    have hheld : ∀ fi ∈ olderRecords newTime held,
        fi ∈ records held ∧ OlderVersion newTime newDir fi := by
      intro fi hfi
      obtain ⟨hin, hne⟩ := mem_filter.mp hfi
      exact ⟨hin, h.older_of_time hin (of_decide_eq_true hne)⟩
    have hlen : (onlyOlder newTime held).length = D + P :=
      (length_onlyOlder newTime held).trans h.length
    rw [← records_onlyOlder] at hP hm hq hone hheld
    obtain ⟨sel, hok, hmem⟩ := getObjectFileInfo_of_one_version env .inOrder
      ([] : List (Option Unit)) (fun fi hfi => h.storable fi (hheld fi hfi).1)
      (fun fi hfi => ⟨(hheld fi hfi).2.valid, hone fi hfi⟩)
      (fun err => isErrIgnored_of_mem_onlyOlder newTime held) (by omega) hm hq
    have hnew := hnever _ _ _ _ (answeredBy_onlyOlder newTime held) sel hok
    have hlt := (hheld sel.fi hmem).2.modTime
    rw [hnew.modTime] at hlt
    exact lt_irrefl _ hlt
  · intro hno α ρ disks answers hans sel hok
    exact h.newVersion_of_ok hans hno hok

/-! ### An older delete marker -/

/-- The record of an object on disk `index` of five. -/
def fiveDiskInfo (modTime : Time) (dataDir : String) (index : ℤ) : FileInfo :=
  { dataDir, modTime
    erasure := { dataBlocks := 3, parityBlocks := 2, index, distribution := [1, 2, 3, 4, 5] } }

def deleteMarker : FileInfo := { deleted := true, modTime := ⟨1⟩ }

/-- A write that the last two of five disks missed. -/
def missedByTwo (old₄ old₅ : FileInfo) : List Answer :=
  [1, 2, 3].map (fun i => .ok (fiveDiskInfo ⟨2⟩ "new" i)) ++ [.ok old₄, .ok old₅]

/-- The settings of a read in erasure mode. -/
def erasureEnv : SelectEnv where
  cfg := ⟨3, .consistent, 0⟩
  isReplicated := false
  parityForSC _ := 2
  defaultParityCount := 2
  metaBucket := false
  versionID := ""
  healing := false

lemma forall_missedByTwo {p : FileInfo → Prop} {old₄ old₅ : FileInfo}
    (hnew : ∀ i ∈ [1, 2, 3], p (fiveDiskInfo ⟨2⟩ "new" i)) (h₄ : p old₄) (h₅ : p old₅) :
    ∀ fi ∈ records (missedByTwo old₄ old₅), p fi := by
  show ∀ fi ∈ [fiveDiskInfo ⟨2⟩ "new" 1, fiveDiskInfo ⟨2⟩ "new" 2, fiveDiskInfo ⟨2⟩ "new" 3,
    old₄, old₅], p fi
  simpa [h₄, h₅] using hnew

lemma acknowledged_missedByTwo {old₄ old₅ : FileInfo} (h₄ : OlderVersion ⟨2⟩ "new" old₄)
    (h₅ : OlderVersion ⟨2⟩ "new" old₅) (hst₄ : old₄.modTime.Storable) (hst₅ : old₅.modTime.Storable) :
    Acknowledged 3 2 ⟨2⟩ "new" (missedByTwo old₄ old₅) where
  parity := by decide
  data := by decide
  length := rfl
  dataDir := by decide
  storable := by
    have hnew : (⟨2⟩ : Time).Storable := by decide
    exact forall_missedByTwo (fun _ _ => hnew) hst₄ hst₅
  versions := by
    have hvalid : ∀ i ∈ [1, 2, 3], (fiveDiskInfo ⟨2⟩ "new" i).isValid = true := by decide
    exact forall_missedByTwo (fun i hi => .inl ⟨hvalid i hi, rfl, rfl, rfl, rfl, rfl⟩) (.inr h₄) (.inr h₅)
  quorum := by
    show 3 ≤ countP _ ([1, 2, 3].map (fiveDiskInfo ⟨2⟩ "new") ++ [old₄, old₅])
    rw [countP_append]
    exact Nat.le_add_right 3 _

/-- Three data and two parity blocks; the two disks that missed the write hold the version before.
-/
theorem never_stale_iff_five :
    NeverStale erasureEnv 3 2 ⟨2⟩ "new"
        (missedByTwo (fiveDiskInfo ⟨1⟩ "old" 4) (fiveDiskInfo ⟨1⟩ "old" 5)) ↔
      ¬ CanOutvote erasureEnv 3 2 ⟨2⟩
        (missedByTwo (fiveDiskInfo ⟨1⟩ "old" 4) (fiveDiskInfo ⟨1⟩ "old" 5)) :=
  never_stale_iff (acknowledged_missedByTwo ⟨rfl, by decide, by decide⟩ ⟨rfl, by decide, by decide⟩
    (by decide) (by decide)) _

/-- The last two disks still have a delete marker, and they alone answer: the read chooses the
marker, whose quorum is zero. -/
theorem stale_delete_marker : Acknowledged 3 2 ⟨2⟩ "new" (missedByTwo deleteMarker deleteMarker) ∧
      AnsweredBy (replicate 3 (.error .diskNotFound) ++ replicate 2 (.ok deleteMarker))
        (missedByTwo deleteMarker deleteMarker) ∧
      getObjectFileInfo erasureEnv .inOrder (replicate 3 none ++ replicate 2 (some ()))
          (replicate 3 (.error .diskNotFound) ++ replicate 2 (.ok deleteMarker)) =
        .ok ⟨deleteMarker, replicate 3 none ++ replicate 2 (some ()), false⟩ ∧
      ¬ NewVersion 3 2 ⟨2⟩ "new" deleteMarker := by
  have hold : OlderVersion ⟨2⟩ "new" deleteMarker := ⟨rfl, by decide, by decide⟩
  have hst : deleteMarker.modTime.Storable := by decide
  refine ⟨acknowledged_missedByTwo hold hold hst hst, ?_, by decide +kernel, fun hnew => ?_⟩
  · have hfails : ∀ h : Answer, (.error .diskNotFound : Answer) = h ∨
        ∃ err, (.error .diskNotFound : Answer) = .error err := fun _ => .inr ⟨_, rfl⟩
    exact .cons (hfails _) (.cons (hfails _) (.cons (hfails _) (.cons (.inl rfl) (.cons (.inl rfl) .nil))))
  · exact absurd hnew.dataDir (by decide)

end Obstor.Quorum
