import Obstor.Lib.Runs
import Obstor.Meta.JournalSteps

/-!
# When the journal keeps its representation invariant

`Sound vs` says that every entry is valid and that no two carry the same version id, a legacy
entry counting as the null version. A call of each kind can succeed and break it: an added null
version beside a legacy entry, an update with a bad time, a deletion that adds an entry.

`KeepsSound` is the complement. `sound_step_iff` says that one successful call from a sound
journal leads to a sound journal exactly when it meets `KeepsSound`, and
`sound_along_run_iff` carries this over every sequence of successful calls.
-/

namespace Obstor.Meta

open Go Lib List XlMetaV2Version

/-! ### The invariant -/

/-- Every entry is valid and no two have the same version id. -/
structure Sound (vs : List XlMetaV2Version) : Prop where
  valid : ∀ v ∈ vs, v.valid = true
  nodup : (vs.map XlMetaV2Version.id).Nodup

/-- Legacy entries carry the text `null`, as `AddLegacy` wrote it. -/
def LegacyIsNull (vs : List XlMetaV2Version) : Prop :=
  ∀ m, .legacy m ∈ vs → m.versionID = nullVersionID

def HasLegacy (vs : List XlMetaV2Version) : Prop := ∃ m, .legacy m ∈ vs

variable {vs pre post : List XlMetaV2Version} {v e : XlMetaV2Version}

lemma sound_nil : Sound [] := ⟨by simp, by simp⟩

lemma Sound.eq_of_id {w : XlMetaV2Version} (h : Sound vs) (hv : v ∈ vs) (hw : w ∈ vs)
    (hid : v.id = w.id) : v = w :=
  inj_on_of_nodup_map h.nodup hv hw hid

section

variable (h : Sound (pre ++ v :: post))

include h

lemma Sound.replace_iff (hid : e.id = v.id) : Sound (pre ++ e :: post) ↔ e.valid := by
  constructor
  · intro hs
    exact hs.valid e (by simp)
  · intro he
    refine ⟨fun w hw => ?_, ?_⟩
    · rcases mem_append.mp hw with hw | hw
      · exact h.valid w (mem_append_left _ hw)
      · rcases mem_cons.mp hw with rfl | hw
        · exact he
        · exact h.valid w (mem_append_right _ (mem_cons_of_mem v hw))
    · have := h.nodup
      rw [map_append, map_cons] at this ⊢
      rwa [hid]

lemma Sound.rewrite (hid : e.id = v.id) (hval : e.valid = v.valid) : Sound (pre ++ e :: post) :=
  (h.replace_iff hid).mpr (hval.trans (h.valid v (by simp)))

lemma Sound.remove : Sound (pre ++ post) := by
  have hsub : (pre ++ post).Sublist (pre ++ v :: post) :=
    Sublist.append_left (sublist_cons_self v post) pre
  exact ⟨fun w hw => h.valid w (hsub.subset hw), h.nodup.sublist (hsub.map _)⟩

omit h in
lemma Sound.append_iff (h : Sound vs) : Sound (vs ++ [e]) ↔ e.valid ∧ ∀ v ∈ vs, v.id ≠ e.id := by
  constructor
  · intro hs
    refine ⟨hs.valid e (by simp), fun v hv hid => ?_⟩
    have := hs.nodup
    rw [map_append, nodup_append] at this
    exact this.2.2 v.id (mem_map_of_mem hv) e.id (by simp) hid
  · rintro ⟨he, hnew⟩
    refine ⟨fun w hw => ?_, ?_⟩
    · rcases mem_append.mp hw with hw | hw
      · exact h.valid w hw
      · rwa [mem_singleton.mp hw]
    · rw [map_append, nodup_append]
      refine ⟨h.nodup, by simp, ?_⟩
      rintro i hi j hj rfl
      obtain ⟨v, hv, rfl⟩ := mem_map.mp hi
      simp only [map_cons, map_nil, mem_singleton] at hj
      exact hnew v hv hj

lemma Sound.id_ne {w : XlMetaV2Version} (hw : w ∈ pre ++ post) : w.id ≠ v.id := by
  intro hid
  have hnodup := h.nodup
  rw [map_append, map_cons, nodup_middle, nodup_cons, ← map_append]
    at hnodup
  exact hnodup.1 (hid ▸ mem_map_of_mem hw)

lemma Sound.move (hid : e.id = v.id) (he : e.valid) : Sound (pre ++ post ++ [e]) :=
  h.remove.append_iff.mpr ⟨he, fun _ hw hwe => h.id_ne hw (hwe.trans hid)⟩

end

lemma not_sound_append_invalid : ¬ Sound (vs ++ [.invalid]) := by
  intro h
  have := h.valid .invalid (by simp)
  cases this

/-! ### Ids and texts -/

variable {U : UuidPkg} {uv dd : UUID} {versionID : String} {fi : FileInfo}

lemma id_of_isFor (hnull : ∀ m, v = .legacy m → m.versionID = nullVersionID)
    (huv : parseVersionID U versionID = some uv) (h : v.isFor versionID uv) :
    v.id = some uv := by
  cases v with
  | invalid => cases h
  | object o => simpa [XlMetaV2Version.isFor, XlMetaV2Version.id] using h
  | delete d => simpa [XlMetaV2Version.isFor, XlMetaV2Version.id] using h
  | legacy m =>
    have hm : m.versionID = versionID := by simpa [XlMetaV2Version.isFor] using h
    rw [← hm, hnull m rfl] at huv
    exact huv

lemma legacy_of_not_isFor (hid : v.id = some uv) (h : v.isFor versionID uv = false) :
    (∃ m, v = .legacy m) ∧ uv = 0 := by
  cases v with
  | invalid => cases hid
  | object o =>
    simp only [XlMetaV2Version.id, Option.some.injEq] at hid
    simp [XlMetaV2Version.isFor, hid] at h
  | delete d =>
    simp only [XlMetaV2Version.id, Option.some.injEq] at hid
    simp [XlMetaV2Version.isFor, hid] at h
  | legacy m => exact ⟨⟨m, rfl⟩, (Option.some.inj hid).symm⟩

@[simp] lemma newEntry_id : (newEntry uv dd fi).id = some uv := by
  unfold newEntry
  split_ifs <;> rfl

lemma deleteEntry_valid (hd : fi.deleted) (ht : 0 < fi.modTime.unixNano) :
    (deleteEntry uv fi).valid := by
  simp [deleteEntry, hd, valid, newDeleteMarker, ht]

lemma deleteEntry_id (hd : fi.deleted) : (deleteEntry uv fi).id = some uv := by
  simp [deleteEntry, hd, XlMetaV2Version.id, newDeleteMarker]

lemma deleteEntry_of_not_deleted (hd : fi.deleted = false) : deleteEntry uv fi = .invalid := by
  simp [deleteEntry, hd]

lemma deleteText_ne_null : fi.deleteText ≠ nullVersionID := by
  unfold FileInfo.deleteText
  split_ifs with h
  · decide
  · exact h

/-! ### No call makes a legacy entry -/

variable {P : Packages} {z z' : XlMetaV2}

lemma newEntry_ne_legacy (m : XlMetaV1Object) : newEntry uv dd fi ≠ .legacy m := by
  unfold newEntry
  split_ifs <;> simp

lemma deleteEntry_ne_legacy (m : XlMetaV1Object) : deleteEntry uv fi ≠ .legacy m := by
  unfold deleteEntry
  split_ifs <;> simp

variable {m : XlMetaV1Object}

lemma legacy_mem_replace (he : e ≠ .legacy m)
    (h : .legacy m ∈ pre ++ e :: post) : .legacy m ∈ pre ++ v :: post := by
  rcases mem_append.mp h with h | h
  · exact mem_append_left _ h
  · rcases mem_cons.mp h with h | h
    · exact absurd h.symm he
    · exact mem_append_right _ (mem_cons_of_mem v h)

lemma legacy_mem_move {added : List XlMetaV2Version}
    (hadded : .legacy m ∉ added) (h : .legacy m ∈ pre ++ post ++ added) :
    .legacy m ∈ pre ++ v :: post := by
  rcases mem_append.mp h with h | h
  · rcases mem_append.mp h with h | h
    · exact mem_append_left _ h
    · exact mem_append_right _ (mem_cons_of_mem v h)
  · exact absurd h hadded

lemma legacy_not_mem_ite_deleteEntry (c : Prop) [Decidable c] :
    .legacy m ∉ (if c then [deleteEntry uv fi] else []) := by
  split_ifs
  · intro h
    exact deleteEntry_ne_legacy m (mem_singleton.mp h).symm
  · exact not_mem_nil

lemma legacy_mem_of_addVersion (h : z.addVersion P fi = (z', none))
    (hm : .legacy m ∈ z'.versions) : .legacy m ∈ z.versions := by
  obtain ⟨uv, dd, -, -, -, hput, -⟩ := addVersion_ok h
  rcases putEntry_ok hput with ⟨pre, v, post, hvs, -, -, hvs'⟩ | ⟨-, hvs'⟩
  · rw [hvs'] at hm
    rw [hvs]
    exact legacy_mem_replace (newEntry_ne_legacy m) hm
  · rw [hvs'] at hm
    rcases mem_append.mp hm with hm | hm
    · exact hm
    · exact absurd (mem_singleton.mp hm).symm (newEntry_ne_legacy m)

lemma legacy_mem_of_updateObjectVersion
    (h : z.updateObjectVersion P fi = (z', none)) (hm : .legacy m ∈ z'.versions) :
    .legacy m ∈ z.versions := by
  obtain ⟨-, pre, o, o', post, -, hvs, -, -, -, rfl⟩ := updateObjectVersion_ok h
  rw [hvs]
  exact legacy_mem_replace (by simp) hm

lemma legacy_mem_of_deletes {vs' : List XlMetaV2Version} {dir : String}
    (h : Deletes P z fi uv vs' dir) (hm : .legacy m ∈ vs') : .legacy m ∈ z.versions := by
  cases h with
  | legacy hvs _ => exact hvs ▸ legacy_mem_move (legacy_not_mem_ite_deleteEntry _) hm
  | markerUpdated hvs _ _ => exact hvs ▸ legacy_mem_replace (by simp) hm
  | markerRemoved hvs _ _ => exact hvs ▸ legacy_mem_move (legacy_not_mem_ite_deleteEntry _) hm
  | objectUpdated hvs _ _ => exact hvs ▸ legacy_mem_replace (by simp) hm
  | transitioned hvs _ _ => exact hvs ▸ legacy_mem_replace (by simp) hm
  | objectRemoved hvs _ => exact hvs ▸ legacy_mem_move (legacy_not_mem_ite_deleteEntry _) hm
  | markerAdded _ _ =>
    rcases mem_append.mp hm with hm | hm
    · exact hm
    · exact absurd (mem_singleton.mp hm).symm (deleteEntry_ne_legacy m)

/-! ### One call -/

lemma addVersion_sound_iff (hs : Sound z.versions) (hl : LegacyIsNull z.versions)
    (h : z.addVersion P fi = (z', none)) :
    Sound z'.versions ↔ ¬ (HasLegacy z.versions ∧
      parseVersionID P.uuid fi.versionText = some 0 ∧ fi.versionText ≠ nullVersionID) := by
  obtain ⟨uv, dd, huv, -, hval, hput, -⟩ := addVersion_ok h
  have hnull : ∀ v ∈ z.versions, ∀ m, v = .legacy m → m.versionID = nullVersionID := by
    rintro v hv m rfl
    exact hl m hv
  rcases putEntry_ok hput with ⟨pre, v, post, hvs, -, hfor, hvs'⟩ | ⟨hno, hvs'⟩
  · have hmem : v ∈ z.versions := by simp [hvs]
    have hid : v.id = some uv := id_of_isFor (hnull v hmem) huv hfor
    rw [hvs', (hvs ▸ hs : Sound _).replace_iff (newEntry_id.trans hid.symm)]
    refine iff_of_true hval ?_
    rintro ⟨⟨m, hm⟩, hzero, htext⟩
    obtain rfl : uv = 0 := Option.some.inj (huv.symm.trans hzero)
    obtain rfl : v = .legacy m := hs.eq_of_id hmem hm hid
    have hm' : m.versionID = fi.versionText := by simpa [isFor] using hfor
    exact htext (hm' ▸ hl m hm)
  · rw [hvs', hs.append_iff, newEntry_id]
    constructor
    · rintro ⟨-, hnew⟩ ⟨⟨m, hm⟩, hzero, -⟩
      exact hnew _ hm (hzero.symm.trans huv)
    · intro hc
      refine ⟨hval, fun v hv hid => hc ?_⟩
      obtain ⟨⟨m, rfl⟩, rfl⟩ := legacy_of_not_isFor hid (hno v hv).2
      refine ⟨⟨m, hv⟩, huv, fun htext => ?_⟩
      have := (hno _ hv).2
      simp [isFor, hl m hv, htext] at this

lemma updateObjectVersion_sound_iff (hs : Sound z.versions)
    (h : z.updateObjectVersion P fi = (z', none)) :
    Sound z'.versions ↔ fi.modTime.isZero ∨ 0 < fi.modTime.unixNano := by
  obtain ⟨-, pre, o, o', post, -, hvs, -, -, ho, rfl⟩ := updateObjectVersion_ok h
  obtain ⟨-, hframe, htime, hval⟩ := updateObject_ok ho
  have hs' : Sound (pre ++ .object o :: post) := hvs ▸ hs
  have hoval : o.valid := hs'.valid (.object o) (by simp)
  have hparts : o.erasureAlgorithm.valid ∧ o.bitrotChecksumAlgo.valid ∧
      isXLMetaErasureInfoValid o.erasureM o.erasureN ∧ 0 < o.modTime := by
    simpa [XlMetaV2Object.valid, and_assoc] using hoval
  have hids : (object o').id = (object o).id := by
    rw [hframe]
    rfl
  rw [hs'.replace_iff hids]
  show o'.valid ↔ _
  rw [hval, htime]
  obtain ⟨h₁, h₂, h₃, h₄⟩ := hparts
  by_cases hz : fi.modTime.isZero
  · simp [h₁, h₂, h₃, h₄, hz]
  · simp [h₁, h₂, h₃, hz]

lemma Sound.not_hasLegacy (h : Sound vs) (hv : v ∈ vs) (hid : v.id = some 0)
    (hne : ∀ m, v ≠ .legacy m) : ¬ HasLegacy vs := by
  rintro ⟨m, hm⟩
  exact hne m (h.eq_of_id hv hm hid)

/-- The call of `DeleteVersion` that puts a delete marker beside the legacy entry. -/
def DoublesNull (U : UuidPkg) (vs : List XlMetaV2Version) (fi : FileInfo) : Prop :=
  HasLegacy vs ∧ fi.deleted = true ∧ parseID U fi.deleteText = some 0

/-- The call of `DeleteVersion` that puts the zero entry in the place of a delete marker. -/
def AppendsZeroEntry (U : UuidPkg) (vs : List XlMetaV2Version) (fi : FileInfo) : Prop :=
  fi.markDeleted = true ∧ fi.deleted = false ∧ fi.versionPurgeStatus = .empty ∧
    fi.deleteMarkerReplicationStatus ∉ ["", "REPLICA"] ∧
    ∃ d, .delete d ∈ vs ∧ parseID U fi.deleteText = some d.versionID

lemma appends_iff (hm : fi.markDeleted) (hd : fi.deleted = false) : (fi.updatesVersion = false ∧
      (fi.versionPurgeStatus = .empty || fi.versionPurgeStatus ≠ .complete)) ↔
    fi.versionPurgeStatus = .empty ∧ fi.deleteMarkerReplicationStatus ∉ ["", "REPLICA"] := by
  unfold FileInfo.updatesVersion
  by_cases he : fi.versionPurgeStatus = .empty
  · by_cases hr : fi.deleteMarkerReplicationStatus = "REPLICA"
    · simp [he, hr, hm]
    · by_cases hn : fi.deleteMarkerReplicationStatus = ""
      · simp [he, hn, hm]
      · simp [he, hr, hn, hd]
  · by_cases hc : fi.versionPurgeStatus = .complete
    · simp [hc]
    · simp [he, hc]

lemma not_doublesNull (hs : Sound vs) (hv : v ∈ vs) (hid : v.id = some uv)
    (hne : ∀ m, v ≠ .legacy m) (huv : parseID U fi.deleteText = some uv) :
    ¬ DoublesNull U vs fi := by
  rintro ⟨hleg, -, hzero⟩
  rw [huv] at hzero
  exact hs.not_hasLegacy hv (hid.trans hzero) hne hleg

lemma not_appendsZeroEntry_of_object {o : XlMetaV2Object} (hs : Sound vs)
    (ho : .object o ∈ vs) (huv : parseID U fi.deleteText = some o.versionID) :
    ¬ AppendsZeroEntry U vs fi := by
  rintro ⟨-, -, -, -, d, hd, hid⟩
  have := hs.eq_of_id ho hd (huv.symm.trans hid)
  cases this

lemma not_appendsZeroEntry_of_updates (hu : fi.updatesVersion) : ¬ AppendsZeroEntry U vs fi := by
  rintro ⟨hm, hd, hp, hr, -⟩
  have := ((appends_iff hm hd).mpr ⟨hp, hr⟩).1
  rw [hu] at this
  cases this

/-- `DeleteVersion` breaks the invariant in two ways only. -/
lemma deleteVersion_sound_iff {dir : String} {last : Bool} (hs : Sound z.versions)
    (hl : LegacyIsNull z.versions) (h : z.deleteVersion P fi = (z', .ok (dir, last))) :
    Sound z'.versions ↔
      ¬ DoublesNull P.uuid z.versions fi ∧ ¬ AppendsZeroEntry P.uuid z.versions fi := by
  obtain ⟨uv, huv, htime, ⟨hdel, -⟩, -⟩ := deleteVersion_ok h
  have hheld : ∀ {pre post v}, z.versions = pre ++ v :: post → v.id = some uv →
      (∀ m, v ≠ .legacy m) →
      v ∈ z.versions ∧ Sound (pre ++ v :: post) ∧ ¬ DoublesNull P.uuid z.versions fi := by
    intro pre post v hvs hid hne
    have hmem : v ∈ z.versions := by simp [hvs]
    exact ⟨hmem, hvs ▸ hs, not_doublesNull hs hmem hid hne huv⟩
  generalize z'.versions = vs' at hdel ⊢
  cases hdel with
  | @legacy pre m post hvs hm =>
    have : m.versionID = nullVersionID := hl m (by simp [hvs])
    exact absurd (hm.symm.trans this) deleteText_ne_null
  | @markerUpdated pre d post hvs hd hu =>
    obtain ⟨hmem, hs', hnd⟩ := hheld hvs (congrArg some hd) (by simp)
    exact iff_of_true (hs'.rewrite rfl rfl) ⟨hnd, not_appendsZeroEntry_of_updates hu⟩
  | @markerRemoved pre d post hvs hd hu =>
    obtain ⟨hmem, hs', hnd⟩ := hheld hvs (congrArg some hd) (by simp)
    by_cases hadd : (fi.markDeleted &&
        (fi.versionPurgeStatus = .empty || fi.versionPurgeStatus ≠ .complete))
    · rw [if_pos hadd]
      obtain ⟨hmark, hpurge⟩ := Bool.and_eq_true_iff.mp hadd
      by_cases hdeleted : fi.deleted
      · have hid : (deleteEntry uv fi).id = (delete d).id :=
          (deleteEntry_id hdeleted).trans (congrArg some hd.symm)
        refine iff_of_true (hs'.move hid (deleteEntry_valid hdeleted (htime hdeleted))) ⟨hnd, ?_⟩
        rintro ⟨-, hfalse, -⟩
        rw [hdeleted] at hfalse
        cases hfalse
      · have hfalse : fi.deleted = false := by simpa using hdeleted
        rw [deleteEntry_of_not_deleted hfalse]
        refine iff_of_false not_sound_append_invalid (fun hc => hc.2 ?_)
        obtain ⟨hp, hr⟩ := (appends_iff hmark hfalse).mp ⟨hu, hpurge⟩
        exact ⟨hmark, hfalse, hp, hr, d, hmem, hd ▸ huv⟩
    · rw [if_neg hadd, append_nil]
      refine iff_of_true hs'.remove ⟨hnd, ?_⟩
      rintro ⟨hmark, hfalse, hp, hr, -⟩
      have := ((appends_iff hmark hfalse).mpr ⟨hp, hr⟩).2
      exact hadd (Bool.and_eq_true_iff.mpr ⟨hmark, this⟩)
  | @objectUpdated pre o post metaSys hvs ho hu =>
    obtain ⟨hmem, hs', hnd⟩ := hheld hvs (congrArg some ho) (by simp)
    exact iff_of_true (hs'.rewrite rfl rfl) ⟨hnd, not_appendsZeroEntry_of_updates hu⟩
  | @transitioned pre o post metaSys hvs ho _ =>
    obtain ⟨hmem, hs', hnd⟩ := hheld hvs (congrArg some ho) (by simp)
    exact iff_of_true (hs'.rewrite rfl rfl)
      ⟨hnd, not_appendsZeroEntry_of_object hs hmem (ho ▸ huv)⟩
  | @objectRemoved pre o post hvs ho =>
    obtain ⟨hmem, hs', hnd⟩ := hheld hvs (congrArg some ho) (by simp)
    refine iff_of_true ?_ ⟨hnd, not_appendsZeroEntry_of_object hs hmem (ho ▸ huv)⟩
    by_cases hdeleted : fi.deleted
    · rw [if_pos hdeleted]
      exact hs'.move ((deleteEntry_id hdeleted).trans (congrArg some ho.symm))
        (deleteEntry_valid hdeleted (htime hdeleted))
    · rw [if_neg hdeleted, append_nil]
      exact hs'.remove
  | markerAdded hno hdeleted =>
    rw [hs.append_iff, deleteEntry_id hdeleted]
    constructor
    · rintro ⟨-, hnew⟩
      constructor
      · rintro ⟨⟨m, hm⟩, -, hzero⟩
        exact hnew _ hm (hzero.symm.trans huv)
      · rintro ⟨-, hfalse, -⟩
        rw [hdeleted] at hfalse
        cases hfalse
    · rintro ⟨hnd, -⟩
      refine ⟨deleteEntry_valid hdeleted (htime hdeleted), fun v hv hid => hnd ?_⟩
      obtain ⟨hstop, hstop₂⟩ := hno v hv
      cases v with
      | invalid => cases hid
      | object o =>
        cases hid
        simp [stopsPurge] at hstop₂
      | delete d =>
        cases hid
        simp [stopsDelete] at hstop
      | legacy m => exact ⟨⟨m, hv⟩, hdeleted, huv.trans hid.symm⟩

/-! ### Sequences of calls -/

/-- A call that changes the journal. -/
inductive JournalCall
  | add (fi : FileInfo)
  | update (fi : FileInfo)
  | delete (fi : FileInfo)

def journalStep (P : Packages) (z : XlMetaV2) : JournalCall → Option XlMetaV2
  | .add fi => onSuccess (z.addVersion P fi)
  | .update fi => onSuccess (z.updateObjectVersion P fi)
  | .delete fi => onOk (z.deleteVersion P fi)

/-- The journals a history starts from: the empty one, and the one `AddLegacy` makes of it. -/
def JournalStart (z : XlMetaV2) : Prop := z = {} ∨ ∃ m, XlMetaV2.addLegacy {} m = (z, none)

/-- The calls that carry the invariant on. -/
def KeepsSound (U : UuidPkg) (z : XlMetaV2) : JournalCall → Prop
  | .add fi => ¬ (HasLegacy z.versions ∧ parseVersionID U fi.versionText = some 0 ∧
      fi.versionText ≠ nullVersionID)
  | .update fi => fi.modTime.isZero = true ∨ 0 < fi.modTime.unixNano
  | .delete fi => ¬ DoublesNull U z.versions fi ∧ ¬ AppendsZeroEntry U z.versions fi

lemma legacyIsNull_step (c : JournalCall) (hl : LegacyIsNull z.versions)
    (h : journalStep P z c = some z') : LegacyIsNull z'.versions := by
  intro m hm
  apply hl m
  cases c with
  | add fi => exact legacy_mem_of_addVersion (onSuccess_eq_some.mp h) hm
  | update fi => exact legacy_mem_of_updateObjectVersion (onSuccess_eq_some.mp h) hm
  | delete fi =>
    obtain ⟨⟨dir, last⟩, hdel⟩ := onOk_eq_some.mp h
    obtain ⟨uv, -, -, ⟨hout, -⟩, -⟩ := deleteVersion_ok hdel
    exact legacy_mem_of_deletes hout hm

/-- One call from a sound journal leads to a sound one exactly when it meets `KeepsSound`. -/
lemma sound_step_iff (c : JournalCall) (hl : LegacyIsNull z.versions) (hs : Sound z.versions)
    (h : journalStep P z c = some z') : Sound z'.versions ↔ KeepsSound P.uuid z c := by
  cases c with
  | add fi => exact addVersion_sound_iff hs hl (onSuccess_eq_some.mp h)
  | update fi => exact updateObjectVersion_sound_iff hs (onSuccess_eq_some.mp h)
  | delete fi =>
    obtain ⟨⟨dir, last⟩, hdel⟩ := onOk_eq_some.mp h
    exact deleteVersion_sound_iff hs hl hdel

lemma legacyIsNull_of_start (h : JournalStart z) : LegacyIsNull z.versions := by
  rcases h with rfl | ⟨m, h⟩
  · intro m hm
    cases hm
  · unfold XlMetaV2.addLegacy at h
    split_ifs at h
    · simp at h
    · cases h
      intro m' hm'
      simp only [mem_singleton, legacy.injEq] at hm'
      rw [hm']

lemma sound_of_start (h : JournalStart z) : Sound z.versions := by
  rcases h with rfl | ⟨m, h⟩
  · exact sound_nil
  · unfold XlMetaV2.addLegacy at h
    split_ifs at h with hval
    · simp at h
    · cases h
      refine ⟨fun v hv => ?_, by simp⟩
      rw [mem_singleton.mp hv]
      show m.valid
      simpa using hval

/-- In a history of successful calls from the empty journal or from `AddLegacy`, every journal
is sound exactly when every call meets `KeepsSound` where it is made. -/
theorem sound_along_run_iff {calls : List JournalCall} (hstart : JournalStart z)
    (hrun : run (journalStep P) z calls = some z') :
    (∀ u, Visits (journalStep P) z calls u → Sound u.versions) ↔
      Along (journalStep P) (KeepsSound P.uuid) z calls :=
  forall_visits_iff_along (fun _ c _ hl h => legacyIsNull_step c hl h)
    (fun _ c _ hl hs h => sound_step_iff c hl hs h)
    (legacyIsNull_of_start hstart) (sound_of_start hstart) hrun

/-- An object version of one data block. -/
def plainVersion : FileInfo where
  modTime := ⟨1⟩
  size := 1
  erasure := { dataBlocks := 1 }

/-- A version in the format before the journal. -/
def plainLegacy : XlMetaV1Object where
  version := "1.0.1"
  format := "xl"
  statSize := 1
  statModTime := ⟨1⟩
  erasure := { dataBlocks := 1 }
  metadata := none
  parts := []
  versionID := ""
  dataDir := ""

/-- A version beside the null version. -/
def firstVersion : FileInfo :=
  { plainVersion with versionID := "00000000-0000-0000-0000-000000000001" }

/-- A delete marker with an id of its own. -/
def secondMarker : FileInfo where
  deleted := true
  modTime := ⟨3⟩
  versionID := "00000000-0000-0000-0000-000000000002"

/-- Three versions, an update of the null version and its deletion between the other two. -/
def editCalls : List JournalCall :=
  [.add firstVersion, .add plainVersion, .add secondMarker, .update { modTime := ⟨2⟩ }, .delete {}]

/-- The condition along a history with an update and a deletion. -/
theorem sound_along_run_iff_edits :
    (run (journalStep Packages.std) {} editCalls).map (·.versions) = some
      [.object (newObject 1 0 firstVersion), .delete (newDeleteMarker 2 secondMarker)] ∧
    ((∀ u, Visits (journalStep Packages.std) {} editCalls u → Sound u.versions) ↔
      Along (journalStep Packages.std) (KeepsSound Packages.std.uuid) {} editCalls) :=
  ⟨by decide, sound_along_run_iff (Or.inl rfl) rfl⟩

/-- Three histories of successful calls that end in an unsound journal: a time before 1970 given
to `UpdateObjectVersion`, the zero entry put in the place of a delete marker, and a delete marker
beside the legacy entry. -/
theorem unsound_histories : (∃ z, run (journalStep Packages.std) {}
        [.add plainVersion, .update { modTime := ⟨-1⟩ }] = some z ∧
      ¬ Sound z.versions) ∧
    (∃ z, run (journalStep Packages.std) {} [.add { deleted := true, modTime := ⟨1⟩ },
        .delete { markDeleted := true, deleteMarkerReplicationStatus := "COMPLETED" }] = some z ∧
      ¬ Sound z.versions) ∧
    (∃ z₀ z, XlMetaV2.addLegacy {} plainLegacy = (z₀, none) ∧
      run (journalStep Packages.std) z₀ [.delete { deleted := true, modTime := ⟨2⟩ }] = some z ∧
      ¬ Sound z.versions) := by
  refine ⟨⟨_, rfl, fun h => ?_⟩, ⟨_, rfl, fun h => ?_⟩, ⟨_, _, rfl, rfl, fun h => ?_⟩⟩
  · exact absurd (h.valid _ mem_cons_self) (by decide)
  · exact absurd (h.valid _ mem_cons_self) (by decide)
  · exact absurd h.nodup (by decide)

/-! ### What a deletion leaves alone -/

/-- The entries of ids other than `uv` are the same, and at most one has this id. -/
def KeepsOthers (uv : UUID) (vs vs' : List XlMetaV2Version) : Prop :=
  vs'.filter (·.id.any (· ≠ uv)) = vs.filter (·.id.any (· ≠ uv)) ∧ vs'.countP (·.id = some uv) ≤ 1

lemma Sound.keepsOthers {pre post es vs' : List XlMetaV2Version} {v : XlMetaV2Version}
    (hs : Sound z.versions) (hvs : z.versions = pre ++ v :: post) (hid : v.id = some uv)
    (hvs' : vs' = pre ++ es ++ post ∨ vs' = pre ++ post ++ es) (hes : KeepsOthers uv [] es) :
    KeepsOthers uv z.versions vs' := by
  rw [hvs] at hs ⊢
  have hne : ∀ w ∈ pre ++ post, w.id ≠ some uv := fun w hw => hid ▸ hs.id_ne hw
  obtain ⟨hpre, hpost⟩ : pre.countP (·.id = some uv) = 0 ∧ post.countP (·.id = some uv) = 0 := by
    simpa [or_imp, forall_and] using hne
  obtain ⟨hfilter, hle⟩ := hes
  have hv : (v :: post).filter (·.id.any (· ≠ uv)) = post.filter (·.id.any (· ≠ uv)) :=
    filter_cons_of_neg (by simp [hid])
  rcases hvs' with rfl | rfl <;>
    simp only [KeepsOthers, filter_append, countP_append, hfilter, hv, hpre, hpost, filter_nil,
      append_nil, add_zero, zero_add, hle, and_self]

lemma Deletes.keepsOthers {vs : List XlMetaV2Version} {dir : String} (hs : Sound z.versions)
    (hkinds : ∀ m, .legacy m ∉ z.versions) (h : Deletes P z fi uv vs dir) :
    KeepsOthers uv z.versions vs := by
  have hadded : ∀ c : Bool, KeepsOthers uv [] (if c then [deleteEntry uv fi] else []) := by
    intro c
    cases c <;> cases hd : fi.deleted <;>
      simp [KeepsOthers, deleteEntry, hd, XlMetaV2Version.id, newDeleteMarker]
  have hone : ∀ {e : XlMetaV2Version}, e.id = some uv → KeepsOthers uv [] [e] := by
    intro e hid
    simp [KeepsOthers, hid]
  cases h with
  | @legacy _ m _ hvs _ => exact absurd (by simp [hvs]) (hkinds m)
  | markerUpdated hvs hd _ =>
    exact hs.keepsOthers hvs (congrArg some hd) (.inl (append_cons ..)) (hone (congrArg some hd))
  | markerRemoved hvs hd _ =>
    exact hs.keepsOthers hvs (congrArg some hd) (.inr rfl) (hadded _)
  | objectUpdated hvs ho _ | transitioned hvs ho _ =>
    exact hs.keepsOthers hvs (congrArg some ho) (.inl (append_cons ..)) (hone (congrArg some ho))
  | objectRemoved hvs ho =>
    exact hs.keepsOthers hvs (congrArg some ho) (.inr rfl) (hadded _)
  | markerAdded hno _ =>
    have hzero : z.versions.countP (·.id = some uv) = 0 := by
      rw [countP_eq_zero]
      intro w hw
      obtain ⟨hdel, hpurge⟩ := hno w hw
      cases w <;> simp_all [stopsDelete, stopsPurge, XlMetaV2Version.id]
    obtain ⟨hfilter, hle⟩ : KeepsOthers uv [] [deleteEntry uv fi] := hadded true
    refine ⟨by rw [filter_append, hfilter]; exact append_nil _, ?_⟩
    rwa [countP_append, hzero, zero_add]

/-- The call returns an error and leaves the versions, or keeps those of other ids and says whether
any is left. -/
def KeepsFrame (P : Packages) (z : XlMetaV2) (fi : FileInfo) : Prop :=
  let r := z.deleteVersion P fi
  (∃ err, r.2 = .error err ∧ (∀ text, err ≠ .panic text) ∧ r.1.versions = z.versions) ∨
  ∃ uv dir last, parseID P.uuid fi.deleteText = some uv ∧ r.2 = .ok (dir, last) ∧
    KeepsOthers uv z.versions r.1.versions ∧ (last = true ↔ r.1.versions = [])

/-- The object that `fi` names has a nil map, and the call is to write a status into it. -/
def WritesNilSys (P : Packages) (z : XlMetaV2) (fi : FileInfo) : Prop :=
  (fi.deleted = true → 0 < fi.modTime.unixNano) ∧
    (fi.updatesVersion = true ∨ fi.transitionStatus ≠ "") ∧
    ∃ o, .object o ∈ z.versions ∧ parseID P.uuid fi.deleteText = some o.versionID ∧
      o.metaSys = none

lemma Sound.exists_nilSys_iff {o : XlMetaV2Object} (hs : Sound z.versions)
    (ho : .object o ∈ z.versions) :
    (∃ o', .object o' ∈ z.versions ∧ o.versionID = o'.versionID ∧ o'.metaSys = none) ↔
      o.metaSys = none := by
  constructor
  · rintro ⟨o', ho', huv, hsys⟩
    cases hs.eq_of_id ho ho' (congrArg some huv)
    exact hsys
  · exact fun hsys => ⟨o, ho, rfl, hsys⟩

/-- The loops panic at the object with the id, if they are to write into its nil map. -/
lemma deleteLoops_panics_iff (hs : Sound z.versions) (hkinds : ∀ m, .legacy m ∉ z.versions) :
    (∃ text, (deleteLoops P z fi uv).2 = .error (.panic text)) ↔
      (fi.updatesVersion ∨ fi.transitionStatus ≠ "") ∧
        ∃ o, .object o ∈ z.versions ∧ uv = o.versionID ∧ o.metaSys = none := by
  unfold deleteLoops
  rcases hf : firstHit (stopsDelete fi uv) z.versions with _ | ⟨pre, v, post⟩
  · have hnone := firstHit_eq_none_iff.mp hf
    -- an object with the id was passed, so its status is not to be written
    have hpassed : ∀ {o}, .object o ∈ z.versions → uv = o.versionID → ¬ fi.updatesVersion := by
      rintro o ho rfl hu
      exact hnone _ ho (by simp [stopsDelete, hu])
    rcases hf₂ : firstHit (stopsPurge uv) z.versions with _ | ⟨pre, v, post⟩
    · have hnone₂ := firstHit_eq_none_iff.mp hf₂
      refine iff_of_false ?_ ?_
      · rintro ⟨text, h⟩
        simp only at h
        split_ifs at h
        cases h
      · rintro ⟨-, o, ho, rfl, -⟩
        exact hnone₂ _ ho (by simp [stopsPurge])
    · obtain ⟨hvs, hstop, -⟩ := firstHit_eq_some_iff.mp hf₂
      have hmem : v ∈ z.versions := by simp [hvs]
      have hval := hs.valid v hmem
      cases v with
      | invalid => cases hval
      | legacy m => exact absurd hmem (hkinds m)
      | delete d => simp [stopsPurge, hval] at hstop
      | object o =>
        obtain rfl : o.versionID = uv := by simpa [stopsPurge, hval] using hstop
        have hval' : o.valid := hval
        have hu := hpassed hmem rfl
        rw [hs.exists_nilSys_iff hmem]
        simp only [hval', Bool.not_true, Bool.false_eq_true, if_false, purgeMatched, deleteReturn]
        by_cases ht : fi.transitionStatus = ""
        · simp only [ht, ne_eq, not_true_eq_false, if_false, hu, Bool.false_eq_true, or_self,
            false_and, iff_false]
          rintro ⟨text, h⟩
          split_ifs at h
        · simp only [ht, ne_eq, not_false_eq_true, if_true, or_true, true_and]
          cases o.metaSys <;> simp [GoMap.set]
  · obtain ⟨hvs, hstop, -⟩ := firstHit_eq_some_iff.mp hf
    have hmem : v ∈ z.versions := by simp [hvs]
    have hval := hs.valid v hmem
    simp only [hval, Bool.not_true, Bool.false_eq_true, if_false]
    cases v with
    | invalid => cases hval
    | legacy m => exact absurd hmem (hkinds m)
    | delete d =>
      have hd : d.versionID = uv := by simpa [stopsDelete, hval] using hstop
      refine iff_of_false ?_ ?_
      · rintro ⟨text, h⟩
        simp only [deleteMatched, deleteReturn] at h
        split_ifs at h
      · rintro ⟨-, o, ho, huv, -⟩
        cases hs.eq_of_id hmem ho (congrArg some (hd.trans huv))
    | object o =>
      obtain ⟨rfl, hu⟩ : o.versionID = uv ∧ fi.updatesVersion := by
        simpa [stopsDelete, hval] using hstop
      rw [hs.exists_nilSys_iff hmem]
      simp only [deleteMatched, hu, true_or, true_and]
      cases o.metaSys <;> simp [GoMap.set, deleteReturn]

/-- `DeleteVersion` panics exactly where it would write into a nil map. -/
lemma deleteVersion_panics_iff (hs : Sound z.versions) (hkinds : ∀ m, .legacy m ∉ z.versions) :
    (∃ text, (z.deleteVersion P fi).2 = .error (.panic text)) ↔ WritesNilSys P z fi := by
  unfold XlMetaV2.deleteVersion WritesNilSys
  rcases huv : parseID P.uuid fi.deleteText with _ | uv
  · simp
  by_cases hbad : (fi.deleted && !(delete (newDeleteMarker uv fi)).valid)
  · have htime : fi.deleted ∧ ¬ 0 < fi.modTime.unixNano := by
      simpa [valid, newDeleteMarker] using hbad
    simp only [hbad, if_true]
    refine iff_of_false ?_ fun h => htime.2 (h.1 htime.1)
    rintro ⟨text, h⟩
    cases h
  · have htime : fi.deleted → 0 < fi.modTime.unixNano := by
      intro hd
      simpa [hd, valid, newDeleteMarker] using hbad
    simp only [hbad, Bool.false_eq_true, if_false, Option.some.injEq]
    rw [deleteLoops_panics_iff hs hkinds]
    exact (and_iff_right htime).symm

/-- On a journal of objects and delete markers `DeleteVersion` keeps its frame exactly when it has
no status to write into a nil map. -/
theorem deleteVersion_frame_iff (hs : Sound z.versions) (hkinds : ∀ m, .legacy m ∉ z.versions) :
    KeepsFrame P z fi ↔ ¬ WritesNilSys P z fi := by
  rw [← deleteVersion_panics_iff hs hkinds]
  unfold KeepsFrame
  rcases hr : (z.deleteVersion P fi).2 with err | ⟨dir, last⟩
  · have hsame : (z.deleteVersion P fi).1.versions = z.versions :=
      deleteVersion_error (Prod.ext rfl hr)
    simp [hr, hsame]
  · obtain ⟨uv, huv, -, ⟨hdel, hlast⟩, -⟩ := deleteVersion_ok (Prod.ext rfl hr)
    refine iff_of_true (.inr ⟨uv, dir, last, huv, hr, hdel.keepsOthers hs hkinds, hlast⟩) ?_
    rintro ⟨text, h⟩
    cases h

/-- A journal of an object, the null version and a delete marker behind it. -/
def threeEntries : XlMetaV2 :=
  [firstVersion, plainVersion, secondMarker].foldl
    (fun z fi => (z.addVersion Packages.std fi).1) {}

lemma threeEntries_versions : threeEntries.versions =
    [.object (newObject 1 0 firstVersion), .object (newObject 0 0 plainVersion),
      .delete (newDeleteMarker 2 secondMarker)] := by decide

/-- The null version goes and the entries on its two sides stay. -/
theorem deleteVersion_frame_iff_between :
    (threeEntries.deleteVersion Packages.std {}).1.versions.length = 2 ∧
      KeepsFrame Packages.std threeEntries {} := by
  have hkinds : ∀ m, .legacy m ∉ threeEntries.versions := by simp [threeEntries_versions]
  refine ⟨by decide, (deleteVersion_frame_iff ⟨by decide, by decide⟩ hkinds).mpr ?_⟩
  rintro ⟨-, h | h, -⟩ <;> exact absurd h (by decide)

/-- The journal with a nil map in its null version. -/
def nilSysEntries : XlMetaV2 := { threeEntries with
  versions := threeEntries.versions.set 1
    (.object { newObject 0 0 plainVersion with metaSys := none }) }

/-- A transition status for the null version panics on its nil map; the entries are valid and
their ids distinct. -/
theorem transition_panics : Sound nilSysEntries.versions ∧
    (∀ m, .legacy m ∉ nilSysEntries.versions) ∧
    (nilSysEntries.deleteVersion Packages.std { transitionStatus := "complete" }).2 =
      .error (.panic "assignment to entry in nil map") :=
  ⟨⟨by decide, by decide⟩, by simp [nilSysEntries, threeEntries_versions], by decide⟩

/-! ### What an update leaves alone -/

/-- `UpdateObjectVersion` of the version `uv` succeeds exactly when an object has this id; then only
the metadata and the time of that entry change, and on an error nothing does. -/
structure UpdatesInPlace (P : Packages) (z : XlMetaV2) (fi : FileInfo) (uv : UUID) : Prop where
  found : (z.updateObjectVersion P fi).2 = none ↔ ∃ o, .object o ∈ z.versions ∧ o.versionID = uv
  frame : (z.updateObjectVersion P fi).2 = none → ∃ pre o o' post,
    z.versions = pre ++ .object o :: post ∧ o.versionID = uv ∧
    (z.updateObjectVersion P fi).1 = { z with versions := pre ++ .object o' :: post } ∧
    o' = { o with metaSys := o'.metaSys, metaUser := o'.metaUser, modTime := o'.modTime }
  unchanged : (z.updateObjectVersion P fi).2 ≠ none → (z.updateObjectVersion P fi).1 = z

lemma updateObjectVersion_error (h : (z.updateObjectVersion P fi).2 ≠ none) :
    (z.updateObjectVersion P fi).1 = z := by
  unfold XlMetaV2.updateObjectVersion at h ⊢
  split
  · rfl
  · split
    · rfl
    · split_ifs
      · rfl
      · split <;> [split; skip] <;> simp_all

/-- The loop passes the entries before the target that are not delete markers, nor the legacy
version of the same text. -/
lemma Sound.not_stopsUpdate {pre post : List XlMetaV2Version} {o : XlMetaV2Object}
    {w : XlMetaV2Version} {versionID : String} (hs : Sound z.versions)
    (hvs : z.versions = pre ++ .object o :: post) (hw : w ∈ pre) :
    ¬ stopsUpdate versionID o.versionID w ↔
      (∀ d, w ≠ .delete d) ∧ ∀ m, w = .legacy m → m.versionID ≠ versionID := by
  rw [hvs] at hs
  have hval := hs.valid w (mem_append_left _ hw)
  have hid := hs.id_ne (mem_append_left post hw)
  cases w with
  | invalid => cases hval
  | object o' =>
    have hne : o'.versionID ≠ o.versionID := fun h => hid (congrArg some h)
    simp [stopsUpdate, hval, isFor, hne]
  | delete d => simp [stopsUpdate]
  | legacy m => simp [stopsUpdate, hval, isFor]

/-- An update finds its version wherever it is, exactly if no delete marker stands before it, nor
the legacy version of the same text, and no value goes into a nil map. -/
theorem updatesInPlace_iff (hs : Sound z.versions)
    (huv : parseVersionID P.uuid fi.versionText = some uv) :
    UpdatesInPlace P z fi uv ↔ ∀ pre o post, z.versions = pre ++ .object o :: post →
      o.versionID = uv → writesNilMap o fi = false ∧
        ∀ w ∈ pre, (∀ d, w ≠ .delete d) ∧ ∀ m, w = .legacy m → m.versionID ≠ fi.versionText := by
  constructor
  · rintro ⟨hfound, -, -⟩ pre o post hvs rfl
    have hok := hfound.mpr ⟨o, by simp [hvs], rfl⟩
    obtain ⟨uv', pre', o₁, o', post', huv', hvs', hid, hpre, hupd, -⟩ :=
      updateObjectVersion_ok (Prod.ext rfl hok)
    have hnot : .object o ∉ pre ++ post := fun hmem => (hvs ▸ hs).id_ne hmem rfl
    rw [mem_append, not_or] at hnot
    obtain rfl : uv' = o.versionID := Option.some.inj (huv'.symm.trans huv)
    obtain ho₁ : XlMetaV2Version.object o₁ = .object o :=
      hs.eq_of_id (by simp [hvs']) (by simp [hvs]) (congrArg some hid)
    cases ho₁
    obtain ⟨rfl, -, -⟩ := (append_cons_inj_of_notMem hnot.1 hnot.2).mp (hvs.symm.trans hvs')
    exact ⟨(updateObject_ok hupd).1, fun w hw => (hs.not_stopsUpdate hvs hw).mp (hpre w hw)⟩
  · intro hcond
    refine ⟨⟨fun hok => ?_, ?_⟩, fun hok => ?_, updateObjectVersion_error⟩
    · obtain ⟨uv', pre, o, -, post, huv', hvs, hid, -⟩ := updateObjectVersion_ok (Prod.ext rfl hok)
      cases huv'.symm.trans huv
      exact ⟨o, by simp [hvs], hid⟩
    · rintro ⟨o, hmem, rfl⟩
      obtain ⟨pre, post, hvs⟩ := append_of_mem hmem
      obtain ⟨hnil, hpre⟩ := hcond pre o post hvs rfl
      exact updateObjectVersion_of_first huv hvs rfl (hs.valid _ hmem)
        (fun w hw => (hs.not_stopsUpdate hvs hw).mpr (hpre w hw)) hnil
    · obtain ⟨uv', pre, o, o', post, huv', hvs, hid, -, hupd, hz⟩ :=
        updateObjectVersion_ok (Prod.ext rfl hok)
      cases huv'.symm.trans huv
      exact ⟨pre, o, o', post, hvs, hid, hz, (updateObject_ok hupd).2.1⟩

/-- The update of the null version, with an object before it and a delete marker behind it. -/
theorem updatesInPlace_iff_between :
    (threeEntries.updateObjectVersion Packages.std { modTime := ⟨2⟩ }).2 = none ∧
      UpdatesInPlace Packages.std threeEntries { modTime := ⟨2⟩ } 0 := by
  refine ⟨by decide, (updatesInPlace_iff ⟨by decide, by decide⟩ rfl).mpr ?_⟩
  intro pre o post hvs ho
  rw [threeEntries_versions] at hvs
  rcases pre with _ | ⟨first, _ | ⟨second, pre⟩⟩
  · cases hvs
    cases ho
  · cases hvs
    refine ⟨by decide, fun w hw => ?_⟩
    rw [mem_singleton.mp hw]
    simp
  · rcases pre with _ | ⟨third, pre⟩ <;> simp at hvs

/-- A delete marker of another version was added first: the update of the null version is refused. -/
theorem update_behind_marker : ∃ z, run (journalStep Packages.std) {}
      [.add { deleted := true, modTime := ⟨1⟩, versionID := "00000000-0000-0000-0000-000000000001" },
        .add plainVersion] = some z ∧
    Sound z.versions ∧ .object (newObject 0 0 plainVersion) ∈ z.versions ∧
    z.updateObjectVersion Packages.std {} = (z, some .methodNotAllowed) :=
  ⟨_, rfl, ⟨by decide, by decide⟩, mem_cons_of_mem _ mem_cons_self, rfl⟩

end Obstor.Meta
