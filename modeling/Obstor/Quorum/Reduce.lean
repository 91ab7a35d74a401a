import Obstor.Go.Values
import Obstor.Lib.Tally

/-!
# Reducing the errors of many disks to one

`reduceErrs` counts equal error values, leaving out those that only say a disk is away, and takes
the most frequent one, `nil` before others on a tie (`cmd/erasure-metadata-utils.go`). The table of
counts is a map, so among other equally frequent errors the order of its keys decides; that order
is the parameter `ρ`.

`reduceQuorumErrs_order_independent`: with a quorum of more than half of the disks the order does
not matter, since two values cannot both be that frequent (`eq_of_half_lt_count`).
-/

namespace Obstor.Quorum

open Go Lib List

/-- The errors that only say a disk is not there.
Source: `cmd/erasure-common.go`, `objectOpIgnoredErrs` -/
def objectOpIgnoredErrs : List Err :=
  [.diskNotFound, .faultyDisk, .faultyRemoteDisk, .diskAccessDenied, .unformattedDisk]

/-- `IsErrIgnored`.
Source: `cmd/utils.go` -/
def isErrIgnored (err : Option Err) (ignoredErrs : List Err) : Bool :=
  ignoredErrs.any (errorsIs err)

def countedErrs (errs : List (Option Err)) (ignoredErrs : List Err) : List (Option Err) :=
  errs.filter fun err => !isErrIgnored err ignoredErrs

section

variable (ρ : RangeOrder) (errs : List (Option Err)) (ignoredErrs : List Err)

/-- `reduceErrs`: the most frequent error and how often it occurs. -/
def reduceErrs :
    ℕ × Option Err :=
  let counted := countedErrs errs ignoredErrs
  voteLoop (fun err => counted.count err) (fun err _ => err = none) (0, none)
    (ρ.order _ counted.dedup)

def reduceQuorumErrs (quorum : ℤ) (quorumErr : Option Err) : Option Err :=
  let r := reduceErrs ρ errs ignoredErrs
  if (r.1 : ℤ) ≥ quorum then r.2 else quorumErr

def reduceReadQuorumErrs (readQuorum : ℤ) : Option Err :=
  reduceQuorumErrs ρ errs ignoredErrs readQuorum (some .erasureReadQuorum)

def reduceWriteQuorumErrs (writeQuorum : ℤ) : Option Err :=
  reduceQuorumErrs ρ errs ignoredErrs writeQuorum (some .erasureWriteQuorum)

end

variable (ρ : RangeOrder) (errs : List (Option Err)) (ignoredErrs : List Err)

@[simp] lemma isErrIgnored_none : isErrIgnored none ignoredErrs = false := by
  simp [isErrIgnored, errorsIs]

@[simp] lemma count_none_countedErrs :
    (countedErrs errs ignoredErrs).count none = errs.count none :=
  count_filter (by simp)

lemma count_le_reduceErrs (err : Option Err) :
    (countedErrs errs ignoredErrs).count err ≤ (reduceErrs ρ errs ignoredErrs).1 := by
  by_cases hmem : err ∈ countedErrs errs ignoredErrs
  · exact le_voteLoop (fun err => (countedErrs errs ignoredErrs).count err) _ _ _
      (by simpa using hmem)
  · rw [count_eq_zero_of_not_mem hmem]
    exact Nat.zero_le _

lemma reduceErrs_fst : (reduceErrs ρ errs ignoredErrs).1 =
      (countedErrs errs ignoredErrs).count (reduceErrs ρ errs ignoredErrs).2 := by
  rcases voteLoop_mem_or (fun err => (countedErrs errs ignoredErrs).count err)
    (fun err _ => decide (err = none)) _ (0, none)
    with heq | ⟨-, hcnt⟩
  · -- nothing was counted: the loop did not move
    have hres : reduceErrs ρ errs ignoredErrs = (0, none) := heq
    have hzero := count_le_reduceErrs ρ errs ignoredErrs none
    rw [hres] at hzero ⊢
    exact (Nat.le_zero.mp hzero).symm
  · exact hcnt

lemma reduceErrs_snd_eq_none
    (h : ∀ err, (countedErrs errs ignoredErrs).count err ≤ errs.count none) :
    (reduceErrs ρ errs ignoredErrs).2 = none := by
  by_contra hne
  have hle := count_le_reduceErrs ρ errs ignoredErrs none
  have hfst := reduceErrs_fst ρ errs ignoredErrs
  have hmax : (countedErrs errs ignoredErrs).count none = (reduceErrs ρ errs ignoredErrs).1 := by
    refine le_antisymm hle ?_
    rw [hfst, count_none_countedErrs]
    exact h _
  by_cases hmem : none ∈ countedErrs errs ignoredErrs
  · exact hne (voteLoop_eq_favourite _ _
      (by simp) (0, none) (by simpa using hmem) hmax)
  · -- no error is counted at all, so the loop keeps its start value
    have hzero : (reduceErrs ρ errs ignoredErrs).1 = 0 := by
      rw [← hmax, count_eq_zero_of_not_mem hmem]
    rcases voteLoop_mem_or (fun err => (countedErrs errs ignoredErrs).count err)
      _ _
      (0, none) with heq | ⟨hwin, -⟩
    · exact hne (congrArg Prod.snd heq)
    · have hpos : (reduceErrs ρ errs ignoredErrs).2 ∈ countedErrs errs ignoredErrs :=
        mem_dedup.mp (ρ.mem_order.mp hwin)
      rw [hfst, count_eq_zero] at hzero
      exact hzero hpos

variable {quorumErr : Option Err}

lemma reduceQuorumErrs_eq_none {quorum : ℤ} (hge : quorum ≤ errs.count none)
    (hmax : ∀ err, (countedErrs errs ignoredErrs).count err ≤ errs.count none) :
    reduceQuorumErrs ρ errs ignoredErrs quorum quorumErr = none := by
  have hfst := reduceErrs_fst ρ errs ignoredErrs
  have hnone := reduceErrs_snd_eq_none ρ errs ignoredErrs hmax
  rw [hnone, count_none_countedErrs] at hfst
  rw [reduceQuorumErrs, if_pos (by rw [hfst]; exact hge), hnone]

lemma reduceQuorumErrs_eq_none_iff (quorum : ℤ) (hq : quorumErr ≠ none) :
    reduceQuorumErrs ρ errs ignoredErrs quorum quorumErr = none ↔ quorum ≤ errs.count none ∧
      ∀ err, (countedErrs errs ignoredErrs).count err ≤ errs.count none := by
  constructor
  · intro h
    have hfst := reduceErrs_fst ρ errs ignoredErrs
    unfold reduceQuorumErrs at h
    by_cases hge : ((reduceErrs ρ errs ignoredErrs).1 : ℤ) ≥ quorum
    · rw [if_pos hge] at h
      rw [h, count_none_countedErrs] at hfst
      refine ⟨hfst ▸ hge, fun err => ?_⟩
      rw [← hfst]
      exact count_le_reduceErrs ρ errs ignoredErrs err
    · rw [if_neg hge] at h
      exact absurd h hq
  · rintro ⟨hge, hmax⟩
    exact reduceQuorumErrs_eq_none ρ errs ignoredErrs hge hmax

variable {errs : List (Option Err)}

lemma count_countedErrs_le_of_ignored {ignoredErrs : List Err}
    (hignored : ∀ err, some err ∈ errs → isErrIgnored (some err) ignoredErrs)
    (err : Option Err) : (countedErrs errs ignoredErrs).count err ≤ errs.count none := by
  cases err with
  | none => rw [count_none_countedErrs]
  | some e =>
    rw [count_eq_zero_of_not_mem]
    · exact Nat.zero_le _
    · intro hmem
      obtain ⟨hin, hkeep⟩ := mem_filter.mp hmem
      rw [hignored e hin] at hkeep
      cases hkeep

lemma count_countedErrs_le_of_half (ignoredErrs : List Err)
    (hhalf : errs.length ≤ 2 * errs.count none) (err : Option Err) :
    (countedErrs errs ignoredErrs).count err ≤ errs.count none := by
  cases err with
  | none => rw [count_none_countedErrs]
  | some e =>
    have hsub : (countedErrs errs ignoredErrs).count (some e) ≤ errs.count (some e) :=
      Sublist.count_le _ filter_sublist
    have hother : errs.count (some e) ≤ errs.countP fun err => ¬ (err == none) := by
      refine countP_mono_left fun err' _ heq => ?_
      rw [eq_of_beq heq]
      rfl
    have hsplit := length_eq_countP_add_countP (fun err => err == none) (l := errs)
    rw [← List.count] at hsplit
    omega

lemma reduceQuorumErrs_of_ignored {ignoredErrs : List Err} {quorum : ℤ} (hq : quorumErr ≠ none)
    (hignored : ∀ err, some err ∈ errs → isErrIgnored (some err) ignoredErrs)
    (hle : quorum ≤ errs.count none) :
    reduceQuorumErrs ρ errs ignoredErrs quorum quorumErr = none :=
  (reduceQuorumErrs_eq_none_iff ρ errs ignoredErrs quorum hq).mpr
    ⟨hle, count_countedErrs_le_of_ignored hignored⟩

lemma reduceQuorumErrs_of_all_none {quorum : ℤ}
    (hq : quorumErr ≠ none) (hall : ∀ err ∈ errs, err = none)
    (hle : quorum ≤ errs.length) :
    reduceQuorumErrs ρ errs ignoredErrs quorum quorumErr = none := by
  apply reduceQuorumErrs_of_ignored ρ hq
  · intro err hmem
    cases hall _ hmem
  · rw [count_eq_length.mpr fun err hmem => (hall err hmem).symm]
    exact hle

lemma eq_of_half_lt_count {ignoredErrs : List Err} {quorum : ℤ} (hhalf : errs.length < 2 * quorum)
    {err err' : Option Err} (h : quorum ≤ (countedErrs errs ignoredErrs).count err)
    (h' : quorum ≤ (countedErrs errs ignoredErrs).count err') : err = err' := by
  have hlen : (countedErrs errs ignoredErrs).length ≤ errs.length := length_filter_le _ _
  obtain ⟨e, -, he, he'⟩ := exists_of_length_lt_countP_add (l := countedErrs errs ignoredErrs)
    (p := (· == err)) (q := (· == err')) (by rw [← List.count, ← List.count]; omega)
  exact (eq_of_beq he).symm.trans (eq_of_beq he')

/-- The result is `none` when that is frequent enough, and an error other than the one for a missing
quorum only when no other is more frequent; with a quorum of more than half of the list it depends on
neither the order of the list nor that of the table. -/
theorem reduceQuorumErrs_order_independent (errs : List (Option Err)) (ignoredErrs : List Err)
    (quorum : ℤ) (quorumErr : Option Err) :
    (∀ ρ, quorum ≤ errs.count none →
      (∀ err, (countedErrs errs ignoredErrs).count err ≤ errs.count none) →
      reduceQuorumErrs ρ errs ignoredErrs quorum quorumErr = none) ∧
    (∀ ρ, reduceQuorumErrs ρ errs ignoredErrs quorum quorumErr ≠ quorumErr →
      let err := reduceQuorumErrs ρ errs ignoredErrs quorum quorumErr
      quorum ≤ (countedErrs errs ignoredErrs).count err ∧
      ∀ err', (countedErrs errs ignoredErrs).count err' ≤ (countedErrs errs ignoredErrs).count err) ∧
    (errs.length < 2 * quorum → ∀ errs', errs ~ errs' → ∀ ρ ρ',
      reduceQuorumErrs ρ errs ignoredErrs quorum quorumErr =
        reduceQuorumErrs ρ' errs' ignoredErrs quorum quorumErr) := by
  refine ⟨fun ρ => reduceQuorumErrs_eq_none ρ errs ignoredErrs, ?_, ?_⟩ <;>
    simp only [reduceQuorumErrs]
  · intro ρ hne
    split_ifs at hne ⊢ with hge
    · rw [← reduceErrs_fst]
      exact ⟨hge, count_le_reduceErrs ρ errs ignoredErrs⟩
    · exact absurd rfl hne
  · intro hhalf errs' hperm ρ ρ'
    have hcount (err : Option Err) : (countedErrs errs' ignoredErrs).count err =
        (countedErrs errs ignoredErrs).count err := ((hperm.filter _).count_eq err).symm
    have hfst := reduceErrs_fst ρ errs ignoredErrs
    have hfst' := reduceErrs_fst ρ' errs' ignoredErrs
    rw [hcount] at hfst'
    have hmax : (reduceErrs ρ errs ignoredErrs).1 = (reduceErrs ρ' errs' ignoredErrs).1 := by
      apply le_antisymm
      · rw [hfst, ← hcount]
        exact count_le_reduceErrs ρ' errs' ignoredErrs _
      · rw [hfst']
        exact count_le_reduceErrs ρ errs ignoredErrs _
    rw [← hmax]
    split_ifs with hge
    · exact eq_of_half_lt_count hhalf (hfst ▸ hge) (hfst' ▸ hmax ▸ hge)
    · rfl

end Obstor.Quorum
