import Obstor.Meta.JournalInv
import Obstor.Meta.ListVersions
import Obstor.Metacache.Entry

/-!
# Which objects a listing hides

A listing without versions leaves out the objects that are deleted. `metaCacheEntry.isLatestDeletemarker`
(`cmd/metacache-entries.go`) decides this by the last entry of the journal, without reading its times,
while the record of the entry (`metaCacheEntry.fileInfo`) is that of the version with the greatest time.

The two agree on a journal that is in time order (`InTimeOrder.newestIsMarker_iff`, `fileInfo_deleted`).
`PutsNewestLast` says which calls leave the newest version at the end; each of them keeps the order
(`inTimeOrder_step`), so the quick test is right after every run of such calls
(`isLatestDeletemarker_along_run`). A call of another kind breaks it: an object that is written again over
its null version stays hidden below an older delete marker (`overwritten_hidden`).
-/

namespace Obstor.Listing

open Go Lib Meta Metacache List

section Hidden

variable {P : Packages} {K : Marshaller} {z z' : XlMetaV2}

/-- The version with the greatest time is a delete marker. -/
def NewestIsMarker (z : XlMetaV2) : Prop :=
  ∃ v ∈ z.versions, v.isMarker = true ∧ ∀ w ∈ z.versions, timeAfter w v = false

/-- Every version is later than those before it. -/
def InTimeOrder (vs : List XlMetaV2Version) : Prop :=
  vs.Pairwise fun v w => (getModTimeFromVersion v).nanos < (getModTimeFromVersion w).nanos

/-- The time is later than that of every version. -/
abbrev IsNewest (vs : List XlMetaV2Version) (n : ℤ) : Prop :=
  ∀ v ∈ vs, (getModTimeFromVersion v).nanos < n

/-- The calls that leave the newest version at the end: a version is added with a later time than all
others and overwrites none but the last, a deletion adds no entry but a delete marker that is the
newest, and an update leaves the time alone. -/
def PutsNewestLast (P : Packages) (z : XlMetaV2) : JournalCall → Prop
  | .add fi => IsNewest z.versions fi.modTime.unixNano ∧
      ∀ uv ∈ parseVersionID P.uuid fi.versionText,
        ∀ v ∈ z.versions.dropLast, v.isFor fi.versionText uv = false
  | .update fi => fi.modTime.isZero = true
  | .delete fi => (fi.deleted = true → IsNewest z.versions fi.modTime.unixNano) ∧
      ¬ AppendsZeroEntry P.uuid z.versions fi

section

variable {pre post : List XlMetaV2Version} {v e : XlMetaV2Version}

lemma InTimeOrder.append {n : ℤ} (h : InTimeOrder pre) (hn : IsNewest pre n)
    (he : (getModTimeFromVersion e).nanos = n) : InTimeOrder (pre ++ [e]) := by
  refine pairwise_append.mpr ⟨h, pairwise_singleton _ _, fun w hw x hx => ?_⟩
  rw [mem_singleton.mp hx, he]
  exact hn w hw

lemma InTimeOrder.replace (h : InTimeOrder (pre ++ v :: post))
    (htime : getModTimeFromVersion e = getModTimeFromVersion v) : InTimeOrder (pre ++ e :: post) := by
  have hsame : (pre ++ e :: post).map getModTimeFromVersion =
      (pre ++ v :: post).map getModTimeFromVersion := by simp [htime]
  refine (pairwise_map (R := fun s t : Time => s.nanos < t.nanos)).mp ?_
  rw [hsame]
  exact pairwise_map.mpr h

lemma InTimeOrder.remove {fi : FileInfo} {uv : UUID} {c : Bool} (h : InTimeOrder (pre ++ v :: post))
    (hnewest : fi.deleted → IsNewest (pre ++ v :: post) fi.modTime.unixNano)
    (hc : c → fi.deleted) : InTimeOrder (pre ++ post ++ if c then [deleteEntry uv fi] else []) := by
  have hsub : (pre ++ post).Sublist (pre ++ v :: post) :=
    (sublist_cons_self v post).append_left pre
  cases c with
  | false =>
    rw [if_neg Bool.false_ne_true, append_nil]
    exact h.sublist hsub
  | true =>
    refine InTimeOrder.append (h.sublist hsub) (fun w hw => hnewest (hc rfl) w (hsub.subset hw)) ?_
    simp [deleteEntry, hc rfl, newDeleteMarker, getModTimeFromVersion, Time.unix]

end

lemma inTimeOrder_add {fi : FileInfo} (h : InTimeOrder z.versions)
    (hcall : PutsNewestLast P z (.add fi)) (hadd : z.addVersion P fi = (z', none)) :
    InTimeOrder z'.versions := by
  obtain ⟨uv, dd, huv, -, -, hput, -⟩ := addVersion_ok hadd
  have htime : (getModTimeFromVersion (newEntry uv dd fi)).nanos = fi.modTime.unixNano := by
    unfold newEntry
    split_ifs <;> rfl
  rcases putEntry_ok hput with ⟨pre, v, post, hvs, -, hfor, hvs'⟩ | ⟨-, hvs'⟩
  · -- the entry that is overwritten is the last
    obtain rfl : post = [] := by
      by_contra hpost
      have hmem : v ∈ z.versions.dropLast := by simp [hvs, dropLast_cons_of_ne_nil hpost]
      exact absurd hfor (by simp [hcall.2 uv huv v hmem])
    have hsub : pre.Sublist z.versions := hvs ▸ sublist_append_left pre [v]
    rw [hvs']
    exact InTimeOrder.append (h.sublist hsub) (fun w hw => hcall.1 w (hsub.subset hw)) htime
  · rw [hvs']
    exact h.append hcall.1 htime

lemma inTimeOrder_delete {fi : FileInfo} {dir : String} {last : Bool} (h : InTimeOrder z.versions)
    (hcall : PutsNewestLast P z (.delete fi)) (hdel : z.deleteVersion P fi = (z', .ok (dir, last))) :
    InTimeOrder z'.versions := by
  obtain ⟨hnewest, hzero⟩ := hcall
  obtain ⟨uv, huv, -, ⟨hout, -⟩, -⟩ := deleteVersion_ok hdel
  generalize z'.versions = vs' at hout
  cases hout with
  | legacy hvs _ | objectRemoved hvs _ => exact (hvs ▸ h).remove (hvs ▸ hnewest) id
  | markerUpdated hvs _ _ | objectUpdated hvs _ _ | transitioned hvs _ _ => exact (hvs ▸ h).replace rfl
  | @markerRemoved pre d post hvs hd hu =>
    refine (hvs ▸ h).remove (hvs ▸ hnewest) fun hc => ?_
    obtain ⟨hmark, hpurge⟩ := Bool.and_eq_true_iff.mp hc
    by_contra hdeleted
    have hfalse : fi.deleted = false := by simpa using hdeleted
    obtain ⟨hp, hr⟩ := (appends_iff hmark hfalse).mp ⟨hu, hpurge⟩
    exact hzero ⟨hmark, hfalse, hp, hr, d, by simp [hvs], hd ▸ huv⟩
  | markerAdded _ hdeleted =>
    refine h.append (hnewest hdeleted) ?_
    simp [deleteEntry, hdeleted, newDeleteMarker, getModTimeFromVersion, Time.unix]

/-- One call keeps the journal in time order. -/
lemma inTimeOrder_step (c : JournalCall) (h : InTimeOrder z.versions) (hcall : PutsNewestLast P z c)
    (hstep : journalStep P z c = some z') : InTimeOrder z'.versions := by
  cases c with
  | add fi => exact inTimeOrder_add h hcall (onSuccess_eq_some.mp hstep)
  | update fi =>
    obtain ⟨-, pre, o, o', post, -, hvs, -, -, ho, rfl⟩ :=
      updateObjectVersion_ok (onSuccess_eq_some.mp hstep)
    have hzero : fi.modTime.isZero = true := hcall
    refine (hvs ▸ h).replace ?_
    simp [getModTimeFromVersion, (updateObject_ok ho).2.2.1, hzero]
  | delete fi =>
    obtain ⟨⟨dir, last⟩, hdel⟩ := onOk_eq_some.mp hstep
    exact inTimeOrder_delete h hcall hdel

variable {e : MetaCacheEntry}

lemma isXL2V1Format_of_load (hload : XlMetaV2.load P K e.metadata = .ok z) :
    isXL2V1Format e.metadata := by
  cases hcheck : checkXL2V1 e.metadata with
  | error err => simp [XlMetaV2.load, hcheck] at hload
  | ok r => simp [isXL2V1Format, hcheck, Except.isOk, Except.toBool]

/-- The record of an entry is that of the newest version. -/
lemma fileInfo_deleted {C : Choices} {bucket : String} {fi : FileInfo}
    (hload : XlMetaV2.load P K e.metadata = .ok z)
    (htimes : (z.versions.map getModTimeFromVersion).Nodup)
    (h : e.fileInfo P C K bucket = .ok fi) : fi.deleted ↔ NewestIsMarker z := by
  have hformat := isXL2V1Format_of_load hload
  have hdir : e.isDir = false := by
    rw [MetaCacheEntry.isDir, decide_eq_false_iff_not, length_eq_zero_iff]
    intro hnil
    rw [hnil] at hformat
    cases hformat
  have hordered := C.slice.ordered _ _ z.versions timeAfter_strictWeak
  have hperm := C.slice.perm _ timeAfter z.versions
  simp only [MetaCacheEntry.fileInfo, hdir, getFileInfo, hformat, hload,
    XlMetaV2.toFileInfo, parseVersionID, Bool.false_eq_true, if_false, if_true, ne_eq, not_true,
    false_and] at h
  generalize C.slice.sort _ _ z.versions = ordered at h hordered hperm
  split_ifs at h
  cases ordered with
  | nil => cases h
  | cons v older =>
    cases hv : v.toFileInfo P.uuid C bucket "" with
    | error err => simp [hv, Except.map] at h
    | ok fi' =>
      simp only [hv, Except.map] at h
      cases h
      change fi'.deleted ↔ _
      rw [(toFileInfo_fields hv).2.2.2]
      -- the first of the sorted versions is the newest
      have hmem : v ∈ z.versions := hperm.mem_iff.mp mem_cons_self
      have hnewest : ∀ w ∈ z.versions, timeAfter w v = false := by
        intro w hw
        rcases mem_cons.mp (hperm.mem_iff.mpr hw) with rfl | hw
        · simp [Time.after]
        · exact rel_of_pairwise_cons hordered hw
      refine ⟨fun hmarker => ⟨v, hmem, hmarker, hnewest⟩, ?_⟩
      rintro ⟨w, hw, hmarker, hmax⟩
      obtain rfl : w = v := by
        refine inj_on_of_nodup_map htimes hw hmem (Time.eq_of_nanos ?_)
        have hle := hmax v hmem
        have hge := hnewest w hw
        simp only [Time.after, decide_eq_false_iff_not] at hle hge
        omega
      exact hmarker

/-- In a journal in time order the last version is the newest. -/
lemma InTimeOrder.newestIsMarker_iff {v : XlMetaV2Version} (h : InTimeOrder z.versions)
    (hlast : z.versions.getLast? = some v) : NewestIsMarker z ↔ v.isMarker := by
  obtain ⟨pre, hvs⟩ := getLast?_eq_some_iff.mp hlast
  rw [hvs] at h
  have hbefore : ∀ w ∈ pre, (getModTimeFromVersion w).nanos < (getModTimeFromVersion v).nanos :=
    fun w hw => (pairwise_append.mp h).2.2 w hw v mem_cons_self
  unfold NewestIsMarker
  rw [hvs]
  constructor
  · rintro ⟨w, hw, hmarker, hmax⟩
    rcases mem_append.mp hw with hw | hw
    · have hle := hmax v (by simp)
      have hlt := hbefore w hw
      simp only [Time.after, decide_eq_false_iff_not] at hle
      omega
    · rwa [← mem_singleton.mp hw]
  · intro hmarker
    refine ⟨v, by simp, hmarker, fun w hw => ?_⟩
    rcases mem_append.mp hw with hw | hw
    · have hlt := hbefore w hw
      simp only [Time.after, decide_eq_false_iff_not]
      omega
    · simp [mem_singleton.mp hw, Time.after]

/-- After calls that leave the newest version at the end, the quick test of a journal that has a
version says whether the newest version is a delete marker, as the record does. -/
theorem isLatestDeletemarker_along_run {z₀ : XlMetaV2} {calls : List JournalCall}
    (hstart : JournalStart z₀) (hrun : run (journalStep P) z₀ calls = some z)
    (hcalls : Along (journalStep P) (PutsNewestLast P) z₀ calls) (hne : z.versions ≠ [])
    (hload : XlMetaV2.load P K e.metadata = .ok z) (C : Choices) (bucket : String) :
    (e.isLatestDeletemarker P K = true ↔ NewestIsMarker z) ∧
      ∀ fi, e.fileInfo P C K bucket = .ok fi → fi.deleted = e.isLatestDeletemarker P K := by
  have horder₀ : InTimeOrder z₀.versions := by
    rcases hstart with rfl | ⟨m, h⟩
    · exact Pairwise.nil
    · unfold XlMetaV2.addLegacy at h
      split_ifs at h
      · simp at h
      · cases h
        exact pairwise_singleton _ _
  have horder : InTimeOrder z.versions :=
    run_invariant_along (J := fun z => InTimeOrder z.versions)
      (fun _ c _ h hcall hstep => inTimeOrder_step c h hcall hstep) horder₀ hcalls hrun
  have hlast := getLast?_eq_some_getLast hne
  have hlatest : e.isLatestDeletemarker P K = (z.versions.getLast hne).isMarker := by
    simp only [MetaCacheEntry.isLatestDeletemarker, isXL2V1Format_of_load hload, hload, hlast]
    rcases z.versions.getLast hne with _ | _ | _ | _ <;> rfl
  have htimes : (z.versions.map getModTimeFromVersion).Nodup := by
    refine pairwise_map.mpr (horder.imp fun hlt heq => ?_)
    rw [heq] at hlt
    exact lt_irrefl _ hlt
  have hmarker : e.isLatestDeletemarker P K = true ↔ NewestIsMarker z := by
    rw [hlatest, horder.newestIsMarker_iff hlast]
  exact ⟨hmarker, fun fi hfi =>
    Bool.eq_iff_iff.mpr ((fileInfo_deleted hload htimes hfi).trans hmarker.symm)⟩

end Hidden

/-- A version of the time after the null version's. -/
def laterVersion : FileInfo := { firstVersion with modTime := ⟨2⟩ }

/-- A version is added over the null version, then a delete marker, which is deleted again. -/
def undeleteCalls : List JournalCall :=
  [.add plainVersion, .add laterVersion, .add secondMarker,
    .delete { versionID := secondMarker.versionID }]

/-- The journal these calls make. -/
def undeleted : XlMetaV2 where
  versions := [.object (newObject 0 0 plainVersion),
    .object (newObject 1 0 laterVersion)]

/-- The quick test after these calls. -/
theorem isLatestDeletemarker_along_run_undelete :
    let K := { noMarshaller with unmarshalMsg := fun _ => .ok undeleted.versions }
    let e : MetaCacheEntry := { metadata := xlHeader ++ [1, 0, 0, 0, 0] }
    run (journalStep .std) {} undeleteCalls = some undeleted ∧
      ((e.isLatestDeletemarker .std K = true ↔ NewestIsMarker undeleted) ∧
        ∀ fi, e.fileInfo .std .std K "bucket" = .ok fi →
          fi.deleted = e.isLatestDeletemarker .std K) := by
  intro K e
  have h₁ : journalStep .std {} (.add plainVersion) = some { versions := undeleted.versions.take 1 } := by
    decide
  have h₂ : journalStep .std { versions := undeleted.versions.take 1 }
      (.add laterVersion) = some undeleted := by decide
  have h₃ : journalStep .std undeleted (.add secondMarker) =
      some { versions := undeleted.versions ++ [.delete (newDeleteMarker 2 secondMarker)] } := by
    decide
  have h₄ : journalStep .std
      { versions := undeleted.versions ++ [.delete (newDeleteMarker 2 secondMarker)] }
      (.delete { versionID := secondMarker.versionID }) = some undeleted := by decide
  have hrun : run (journalStep .std) {} undeleteCalls = some undeleted := by
    simp only [undeleteCalls, run, h₁, h₂, h₃, h₄, Option.bind_some]
  have hcalls : Along (journalStep .std) (PutsNewestLast .std) {} undeleteCalls := by
    simp only [undeleteCalls, Along, h₁, h₂, h₃, h₄, Option.some.injEq, forall_eq', and_true]
    refine ⟨⟨by decide, fun _ _ _ hv => absurd hv not_mem_nil⟩,
      ⟨by decide, fun _ _ _ hv => absurd hv not_mem_nil⟩, ⟨by decide, fun uv huv => ?_⟩,
      fun h => absurd h (by decide), fun h => absurd h.1 (by decide)⟩
    obtain rfl : uv = 2 := Option.some.inj (huv.symm.trans (by decide))
    decide
  exact ⟨hrun, isLatestDeletemarker_along_run (.inl rfl) hrun hcalls (by decide)
    (by decide +kernel) .std "bucket"⟩

/-- The null version is written again, in its place below a delete marker. -/
theorem overwritten_hidden :
    let marker := { plainVersion with
      versionID := "00000000-0000-0000-0000-000000000001", modTime := ⟨2⟩, deleted := true }
    let add := fun z fi => (XlMetaV2.addVersion .std z fi).1
    let z := add (add (add {} plainVersion) marker) { plainVersion with modTime := ⟨3⟩ }
    let K := { noMarshaller with unmarshalMsg := fun _ => .ok z.versions }
    let e : MetaCacheEntry := { metadata := xlHeader ++ [1, 0, 0, 0, 0] }
    XlMetaV2.load .std K e.metadata = .ok z ∧ z.versions.map getModTimeFromVersion = [⟨3⟩, ⟨2⟩] ∧
      e.isLatestDeletemarker .std K ∧
      (e.fileInfo .std .std K "bucket").map FileInfo.deleted = .ok false := by
  decide +kernel

end Obstor.Listing
