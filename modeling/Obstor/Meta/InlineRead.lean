import Obstor.Meta.Codec
import Obstor.Meta.DataDirs

/-!
# The inline data a version is read with

Inline data is a map from version id to bytes beside the journal. `AddVersion` writes to it when
the version brings data or is empty; nobody clears the entry of a version that is overwritten
without data; a deletion clears it only together with a data directory.

A history is a list of `RenameData` and `DeleteVersion` calls on one disk (`storeStep`), from the
empty file. `inline_read_iff` is about one more `AddVersion` after such a history: the file,
written and read back with `getFileInfo`, gives exactly the data the version brought if and only
if `ServesOwnData`.
-/

namespace Obstor.Meta

open Go Lib XlMetaInlineData List ObjectPartInfo

/-! ### Ids stay distinct -/

/-- No two entries that have an id have the same. -/
def DistinctIDs (vs : List XlMetaV2Version) : Prop := (vs.filterMap XlMetaV2Version.id).Nodup

variable {vs pre post : List XlMetaV2Version} {v e : XlMetaV2Version}

section

variable (h : DistinctIDs (pre ++ v :: post))

include h

lemma DistinctIDs.rewrite (hid : e.id = v.id) : DistinctIDs (pre ++ e :: post) := by
  unfold DistinctIDs at h ⊢
  rw [filterMap_append, filterMap_cons] at h ⊢
  rwa [hid]

lemma DistinctIDs.remove : DistinctIDs (pre ++ post) := by
  have hsub : (pre ++ post).Sublist (pre ++ v :: post) :=
    Sublist.append_left (sublist_cons_self v post) pre
  exact h.sublist (hsub.filterMap _)

omit h in
lemma DistinctIDs.append (h : DistinctIDs vs) (hnew : ∀ v ∈ vs, v.id = e.id → e.id = none) :
    DistinctIDs (vs ++ [e]) := by
  unfold DistinctIDs
  rw [filterMap_append, nodup_append]
  refine ⟨h, ?_, ?_⟩
  · cases hid : e.id <;> simp [hid]
  · rintro i hi j hj rfl
    obtain ⟨v, hv, hvi⟩ := mem_filterMap.mp hi
    obtain ⟨w, hw, hwi⟩ := mem_filterMap.mp hj
    obtain rfl := mem_singleton.mp hw
    have := hnew v hv (hvi.trans hwi.symm)
    rw [hwi] at this
    cases this

lemma DistinctIDs.id_ne {w : XlMetaV2Version}
    (hw : w ∈ pre ++ post) (hid : w.id = v.id) : v.id = none := by
  cases hv : v.id with
  | none => rfl
  | some i =>
    unfold DistinctIDs at h
    rw [filterMap_append, filterMap_cons, hv, nodup_middle, nodup_cons, ← filterMap_append] at h
    exact absurd (mem_filterMap.mpr ⟨w, hw, hid.trans hv⟩) h.1

lemma DistinctIDs.move (hid : e.id = v.id ∨ e.id = none) : DistinctIDs (pre ++ post ++ [e]) := by
  refine h.remove.append fun w hw hwe => ?_
  rcases hid with hid | hid
  · exact hid.trans (h.id_ne hw (hwe.trans hid))
  · exact hid

end

lemma sound_of_distinctIDs (hval : ∀ v ∈ vs, v.valid) (h : DistinctIDs vs) : Sound vs := by
  refine ⟨hval, ?_⟩
  induction vs with
  | nil => simp
  | cons v vs ih =>
    have hid : ∃ i, v.id = some i := by
      have := hval v mem_cons_self
      cases v with
      | invalid => cases this
      | object o => exact ⟨_, rfl⟩
      | delete d => exact ⟨_, rfl⟩
      | legacy m => exact ⟨_, rfl⟩
    obtain ⟨i, hi⟩ := hid
    unfold DistinctIDs at h
    rw [filterMap_cons, hi, nodup_cons] at h
    rw [map_cons, nodup_cons]
    refine ⟨fun hmem => h.1 ?_, ih (fun w hw => hval w (mem_cons_of_mem v hw)) h.2⟩
    obtain ⟨w, hw, hwv⟩ := mem_map.mp hmem
    exact mem_filterMap.mpr ⟨w, hw, hwv.trans hi⟩

variable {P : Packages} {z z' : XlMetaV2} {fi : FileInfo} {uv : UUID}

lemma isFor_iff (versionID : String) (hv : ∀ m, v ≠ .legacy m) :
    v.isFor versionID uv ↔ v.id = some uv := by
  cases v with
  | invalid => simp [XlMetaV2Version.isFor, XlMetaV2Version.id]
  | object o => simp [XlMetaV2Version.isFor, XlMetaV2Version.id]
  | delete d => simp [XlMetaV2Version.isFor, XlMetaV2Version.id]
  | legacy m => exact absurd rfl (hv m)

/-- What holds of the entries in every history. -/
structure Tidy (vs : List XlMetaV2Version) : Prop where
  distinct : DistinctIDs vs
  noLegacy : ¬ HasLegacy vs

lemma Tidy.ne_legacy (h : Tidy vs) (hv : v ∈ vs) (m : XlMetaV1Object) : v ≠ .legacy m := by
  rintro rfl
  exact h.noLegacy ⟨m, hv⟩

lemma tidy_nil : Tidy [] := ⟨by simp [DistinctIDs], by rintro ⟨m, hm⟩; cases hm⟩

lemma tidy_addVersion (h : Tidy z.versions) (hadd : z.addVersion P fi = (z', none)) :
    Tidy z'.versions := by
  refine ⟨?_, fun ⟨m, hm⟩ => h.noLegacy ⟨m, legacy_mem_of_addVersion hadd hm⟩⟩
  obtain ⟨uv, dd, -, -, -, hput, -⟩ := addVersion_ok hadd
  rcases putEntry_ok hput with ⟨pre, v, post, hvs, -, hfor, hvs'⟩ | ⟨hno, hvs'⟩
  · have hid : v.id = some uv := (isFor_iff _ (h.ne_legacy (by simp [hvs]))).mp hfor
    rw [hvs']
    exact (hvs ▸ h.distinct : DistinctIDs _).rewrite (newEntry_id.trans hid.symm)
  · rw [hvs']
    refine h.distinct.append fun v hv hid => ?_
    have := (isFor_iff fi.versionText (h.ne_legacy hv)).mpr (hid.trans newEntry_id)
    rw [(hno v hv).2] at this
    cases this

lemma deleteEntry_id_or : (deleteEntry uv fi).id = some uv ∨ (deleteEntry uv fi).id = none := by
  by_cases hd : fi.deleted
  · exact Or.inl (deleteEntry_id hd)
  · right
    rw [deleteEntry_of_not_deleted (by simpa using hd)]
    rfl

lemma DistinctIDs.move_deleteEntry (h : DistinctIDs (pre ++ v :: post)) (hid : v.id = some uv)
    (c : Prop) [Decidable c] :
    DistinctIDs (pre ++ post ++ if c then [deleteEntry uv fi] else []) := by
  split_ifs
  · exact h.move (deleteEntry_id_or.imp_left fun he => he.trans hid.symm)
  · rw [append_nil]
    exact h.remove

lemma tidy_deletes {vs' : List XlMetaV2Version} {dir : String} (h : Tidy z.versions)
    (hdel : Deletes P z fi uv vs' dir) : Tidy vs' := by
  refine ⟨?_, fun ⟨m, hm⟩ => h.noLegacy ⟨m, legacy_mem_of_deletes hdel hm⟩⟩
  have hd := h.distinct
  cases hdel with
  | @legacy pre m post hvs _ => exact absurd ⟨m, by simp [hvs]⟩ h.noLegacy
  | markerUpdated hvs _ _ =>
    rw [hvs] at hd
    exact hd.rewrite rfl
  | markerRemoved hvs hid _ =>
    rw [hvs] at hd
    exact hd.move_deleteEntry (congrArg some hid) _
  | objectUpdated hvs _ _ =>
    rw [hvs] at hd
    exact hd.rewrite rfl
  | transitioned hvs _ _ =>
    rw [hvs] at hd
    exact hd.rewrite rfl
  | objectRemoved hvs hid =>
    rw [hvs] at hd
    exact hd.move_deleteEntry (congrArg some hid) _
  | markerAdded hno hdeleted =>
    refine hd.append fun v hv hid => ?_
    rw [deleteEntry_id hdeleted] at hid
    obtain ⟨hstop, hstop₂⟩ := hno v hv
    cases v with
    | invalid => cases hid
    | legacy m => exact absurd ⟨m, hv⟩ h.noLegacy
    | object o =>
      cases hid
      simp [stopsPurge] at hstop₂
    | delete d =>
      cases hid
      simp [stopsDelete] at hstop

/-! ### Histories -/

/-- A call on the `xl.meta` of one object on one disk. -/
inductive StoreCall
  | rename (fi : FileInfo)
  | delete (fi : FileInfo)

/-- What `xlStorage.DeleteVersion` writes after the journal's own `DeleteVersion`: the file
without the inline data of the version, or no file when no version is left.
Source: `cmd/xl-storage.go`, `DeleteVersion` -/
def afterDelete (P : Packages) (fi : FileInfo) (z : XlMetaV2) (dataDir : String)
    (lastVersion : Bool) : XlMetaV2 :=
  if !lastVersion || fi.transitionStatus ≠ "" then
    if dataDir ≠ "" && fi.transitionStatus ≠ "pending" then
      { z with data := remove P.msgp (remove P.msgp z.data fi.versionText) dataDir }
    else z
  else {}

/-- The journal after a successful call. `RenameData` adds the version and writes the file.
Source: `cmd/xl-storage.go`, `RenameData`, `DeleteVersion` -/
def storeStep (P : Packages) (z : XlMetaV2) : StoreCall → Option XlMetaV2
  | .rename fi => onSuccess (z.addVersion P fi)
  | .delete fi =>
    match z.deleteVersion P fi with
    | (z', .ok (dataDir, lastVersion)) => some (afterDelete P fi z' dataDir lastVersion)
    | (_, .error _) => none

/-- The inline data of a call is within the format's limit. -/
def StoreCall.Fits : StoreCall → Prop
  | .rename fi => fi.data.length < 2 ^ 32
  | .delete _ => True

lemma storeStep_delete {z₁ : XlMetaV2} (h : storeStep P z (.delete fi) = some z₁) :
    ∃ z' dir last, z.deleteVersion P fi = (z', .ok (dir, last)) ∧
      z₁ = afterDelete P fi z' dir last := by
  rw [storeStep] at h
  rcases hr : z.deleteVersion P fi with ⟨z', e | ⟨dir, last⟩⟩
  · simp [hr] at h
  · simp only [hr, Option.some.injEq] at h
    exact ⟨z', dir, last, rfl, h.symm⟩

/-- One call keeps the journal tidy. -/
lemma tidy_storeStep (c : StoreCall) (h : Tidy z.versions) (hstep : storeStep P z c = some z') :
    Tidy z'.versions := by
  cases c with
  | rename fi => exact tidy_addVersion h (onSuccess_eq_some.mp hstep)
  | delete fi =>
    obtain ⟨z₁, dir, last, hdel, rfl⟩ := storeStep_delete hstep
    obtain ⟨uv, -, -, ⟨hout, -⟩, -⟩ := deleteVersion_ok hdel
    have := tidy_deletes h hout
    unfold afterDelete
    split_ifs
    · exact this
    · exact this
    · exact tidy_nil

lemma versionText_fits (h : parseVersionID P.uuid fi.versionText = some uv) :
    stringBytes fi.versionText ≠ [] ∧ (stringBytes fi.versionText).length < 2 ^ 32 := by
  have hlen : (stringBytes fi.versionText).length ∈ [4, 32, 36, 38, 45] := by
    unfold parseVersionID at h
    split_ifs at h with hparse
    · have := P.uuid.length_of_parse _ _ h
      exact mem_cons_of_mem 4 this
    · have hnull : fi.versionText = nullVersionID := by
        by_contra hne
        refine hparse ⟨?_, hne⟩
        unfold FileInfo.versionText
        split_ifs with hempty
        · decide
        · exact hempty
      rw [hnull]
      decide
  generalize stringBytes fi.versionText = key at hlen ⊢
  simp only [mem_cons, not_mem_nil, or_false] at hlen
  constructor
  · rintro rfl
    simp at hlen
  · omega

variable {kvs : List (Bytes × Bytes)}

lemma represents_dataAfterAdd
    (h : Represents P.msgp z.data kvs) (huv : parseVersionID P.uuid fi.versionText = some uv)
    (hfits : fi.data.length < 2 ^ 32) (hroom : kvs.length + 1 < 2 ^ 32) :
    Represents P.msgp (dataAfterAdd P z fi)
      (if fi.savesData then replaceEntries (stringBytes fi.versionText) fi.data kvs else kvs) := by
  unfold dataAfterAdd
  split_ifs
  · exact h.replace (versionText_fits huv) hfits hroom
  · exact h

/-- The inline data after a history still represents a map. -/
lemma represents_of_run {calls : List StoreCall}
    (hrun : run (storeStep P) z calls = some z') (hfits : ∀ c ∈ calls, c.Fits)
    (h : Represents P.msgp z.data kvs) (hroom : kvs.length + calls.length < 2 ^ 32) :
    ∃ kvs', Represents P.msgp z'.data kvs' ∧ kvs'.length ≤ kvs.length + calls.length := by
  induction calls generalizing z kvs with
  | nil =>
    cases hrun
    exact ⟨kvs, h, le_refl _⟩
  | cons c calls ih =>
    obtain ⟨z₁, hstep, hrest⟩ := run_cons hrun
    have hfits' : ∀ c ∈ calls, c.Fits := fun d hd => hfits d (mem_cons_of_mem c hd)
    rw [length_cons] at hroom ⊢
    -- one call adds at most one pair
    obtain ⟨kvs₁, h₁, hlen⟩ : ∃ kvs₁, Represents P.msgp z₁.data kvs₁ ∧
        kvs₁.length ≤ kvs.length + 1 := by
      cases c with
      | rename fi =>
        obtain ⟨uv, dd, huv, -, -, -, hdata⟩ := addVersion_ok (onSuccess_eq_some.mp hstep)
        refine ⟨_, hdata ▸ represents_dataAfterAdd h huv (hfits _ mem_cons_self) (by omega), ?_⟩
        split_ifs
        · exact replaceEntries_length_le _ _ _
        · omega
      | delete fi =>
        obtain ⟨z₂, dir, last, hdel, rfl⟩ := storeStep_delete hstep
        obtain ⟨uv, -, -, -, hdata⟩ := deleteVersion_ok hdel
        rw [← hdata] at h
        unfold afterDelete
        split_ifs
        · refine ⟨_, (h.remove _).remove dir, ?_⟩
          have h₁ := length_filter_le (fun p : Bytes × Bytes => p.1 ≠ stringBytes dir)
            (removeEntries (stringBytes fi.versionText) kvs)
          have h₂ := length_filter_le
            (fun p : Bytes × Bytes => p.1 ≠ stringBytes fi.versionText) kvs
          unfold removeEntries at h₁ ⊢
          omega
        · exact ⟨kvs, h, by omega⟩
        · exact ⟨[], represents_nil P.msgp, by simp⟩
    obtain ⟨kvs', h', hle⟩ := ih hrest hfits' h₁ (by omega)
    exact ⟨kvs', h', by omega⟩

/-! ### Reading a version back -/

lemma readParts_map (parts : List ObjectPartInfo) :
    readParts (parts.map number) (parts.map size)
      (parts.map etag) (parts.map actualSize) = .ok parts := by
  induction parts with
  | nil => rfl
  | cons p parts ih =>
    simp only [map_cons, readParts]
    rw [ih]

lemma readObjectSys_versionID (l : List (String × SysValue)) (fi : FileInfo) :
    (l.foldl readObjectSys fi).versionID = fi.versionID := by
  induction l generalizing fi with
  | nil => rfl
  | cons kv l ih =>
    rw [foldl_cons, ih]
    unfold readObjectSys
    split_ifs <;> rfl

lemma newObject_toFileInfo (P : Packages) (C : Choices) (uv dd : UUID) (volume path : String)
    (fi : FileInfo) :
    ∃ r, (newObject uv dd fi).toFileInfo P.uuid C volume path = .ok r ∧
      r.versionID = versionIDText P.uuid uv ∧ r.dataDir = P.uuid.string dd := by
  unfold XlMetaV2Object.toFileInfo
  have hparts : readParts (newObject uv dd fi).partNumbers (newObject uv dd fi).partSizes
      (newObject uv dd fi).partETags (newObject uv dd fi).partActualSizes = .ok fi.parts :=
    readParts_map fi.parts
  rw [hparts]
  have halgo : ¬ (fi.parts ≠ [] ∧ (newObject uv dd fi).bitrotChecksumAlgo ≠ .highwayHash) :=
    fun h => h.2 rfl
  simp only [if_neg halgo]
  refine ⟨_, rfl, ?_, rfl⟩
  rw [readObjectSys_versionID]
  rfl

variable {C : Choices} {dd : UUID} {volume path : String}

variable {r : FileInfo}

lemma toFileInfo_of_mem {versionID : String} {v : XlMetaV2Version} (h : Tidy z.versions)
    (hval : ∀ v ∈ z.versions, v.valid) (hne : versionID ≠ "")
    (huv : parseVersionID P.uuid versionID = some uv) (hv : v ∈ z.versions)
    (hid : v.id = some uv) (hr : v.toFileInfo P.uuid C volume path = .ok r) :
    ∃ r', z.toFileInfo P C volume path versionID = .ok r' ∧ r'.versionID = r.versionID ∧
      r'.dataDir = r.dataDir := by
  have hs := sound_of_distinctIDs hval h.distinct
  have hall : z.versions.all XlMetaV2Version.valid := all_eq_true.mpr hval
  unfold XlMetaV2.toFileInfo
  simp only [huv, hall, Bool.not_true, Bool.false_eq_true, if_false, if_neg hne]
  generalize hord : C.slice.sort XlMetaV2Version
    _ z.versions = ordered
  have hperm : ordered.Perm z.versions := hord ▸ C.slice.perm _ _ _
  rcases hf : firstHit (XlMetaV2Version.isFor versionID uv) ordered with _ | ⟨newer, w, older⟩
  · have := firstHit_eq_none_iff.mp hf v (hperm.mem_iff.mpr hv)
    exact absurd ((isFor_iff versionID (h.ne_legacy hv)).mpr hid) this
  · obtain ⟨hsplit, hw, -⟩ := firstHit_eq_some_iff.mp hf
    have hmem : w ∈ z.versions := hperm.mem_iff.mp (by simp [hsplit])
    obtain rfl : w = v :=
      hs.eq_of_id hmem hv (((isFor_iff versionID (h.ne_legacy hmem)).mp hw).trans hid.symm)
    simp only [hr]
    exact ⟨_, rfl, rfl, rfl⟩

/-- The bytes under a key, none if there is no entry. -/
def bytesAt (P : Packages) (data : XlMetaInlineData) (key : String) : Bytes :=
  (find P.msgp data key).getD []

/-- What is read for a version: the bytes under its key or else under its data directory. -/
def bytesRead (P : Packages) (data : XlMetaInlineData) (uv dd : UUID) : Bytes :=
  if bytesAt P data (readKey P.uuid uv) = [] then bytesAt P data (P.uuid.string dd)
  else bytesAt P data (readKey P.uuid uv)

lemma readInline_eq (data : XlMetaInlineData)
    (hid : r.versionID = versionIDText P.uuid uv) (hdir : r.dataDir = P.uuid.string dd) :
    readInline P data r = bytesRead P data uv dd := by
  have hkey : (if r.versionID = "" then nullVersionID else r.versionID) = readKey P.uuid uv := by
    rw [hid, versionIDText, readKey]
    by_cases h : uv = 0
    · rw [if_pos h, if_pos h, if_pos rfl]
    · rw [if_neg h, if_neg h, if_neg (P.uuid.string_ne_empty uv)]
  unfold readInline bytesRead
  simp only [hkey, hdir, length_eq_zero_iff]
  rfl

lemma versionText_ne_empty (fi : FileInfo) : fi.versionText ≠ "" := by
  unfold FileInfo.versionText
  split_ifs with h
  · decide
  · exact h

variable {K : Marshaller}

lemma getFileInfo_after_add (C : Choices) (volume path : String) (hdel : fi.deleted = false)
    (h : Tidy z.versions) (hadd : z.addVersion P fi = (z', none)) (hK : K.Faithful z'.versions)
    (hdata : validate P.msgp z'.data = .ok ())
    (huv : parseVersionID P.uuid fi.versionText = some uv)
    (hdd : parseID P.uuid fi.dataDir = some dd) (hval : ∀ v ∈ z'.versions, v.valid) :
    ∃ buf r, z'.appendTo P K [] = .ok buf ∧
      getFileInfo P C K buf volume path fi.versionText true = .ok r ∧
      r.data = bytesRead P z'.data uv dd := by
  obtain ⟨buf, hbuf, hfmt, hload⟩ := load_appendTo hK hdata
  obtain ⟨uv', dd', huv', hdd', -, hput, -⟩ := addVersion_ok hadd
  obtain rfl : uv = uv' := Option.some.inj (huv.symm.trans huv')
  obtain rfl : dd = dd' := Option.some.inj (hdd.symm.trans hdd')
  have hentry : newEntry uv dd fi = .object (newObject uv dd fi) := by simp [newEntry, hdel]
  have hmem : .object (newObject uv dd fi) ∈ z'.versions := by
    rcases putEntry_ok hput with ⟨pre, v, post, -, -, -, hvs'⟩ | ⟨-, hvs'⟩ <;>
      simp [hvs', hentry]
  obtain ⟨r, hr, hid, hdir⟩ := newObject_toFileInfo P C uv dd volume path fi
  obtain ⟨r', hr', hid', hdir'⟩ := toFileInfo_of_mem (tidy_addVersion h hadd) hval
    (versionText_ne_empty fi) huv hmem rfl hr
  refine ⟨buf, { r' with data := readInline P z'.data r' }, hbuf, ?_,
    readInline_eq z'.data (hid'.trans hid) (hdir'.trans hdir)⟩
  unfold getFileInfo
  simp [hfmt, hload, hr']

lemma getFileInfo_of_invalid {buf : Bytes} {versionID : String}
    (hload : XlMetaV2.load P K buf = .ok z) (hfmt : isXL2V1Format buf)
    (h : getFileInfo P C K buf volume path versionID true = .ok r) :
    ∀ v ∈ z.versions, v.valid := by
  by_contra hall
  have hfalse : z.versions.all XlMetaV2Version.valid = false := by simpa using hall
  have herr : ∃ e, z.toFileInfo P C volume path versionID = .error e := by
    unfold XlMetaV2.toFileInfo
    rcases parseVersionID P.uuid versionID with _ | uv
    · exact ⟨_, rfl⟩
    · simp only [hfalse, Bool.not_false, if_true]
      exact ⟨_, rfl⟩
  obtain ⟨e, he⟩ := herr
  unfold getFileInfo at h
  simp only [hfmt, if_true, hload, he] at h
  cases h

/-! ### The condition -/

lemma all_valid_add_iff (hadd : z.addVersion P fi = (z', none)) :
    (∀ v ∈ z'.versions, v.valid) ↔ ∀ v ∈ z.versions, v.valid := by
  obtain ⟨uv, dd, -, -, hval, hput, -⟩ := addVersion_ok hadd
  rcases putEntry_ok hput with ⟨pre, v, post, hvs, hv, -, hvs'⟩ | ⟨hno, hvs'⟩
  · rw [hvs, hvs', forall_mem_append, forall_mem_append]
    simp [hval, hv]
  · rw [hvs', forall_mem_append]
    refine iff_of_true ⟨fun w hw => (hno w hw).1, ?_⟩ fun w hw => (hno w hw).1
    simpa using hval

lemma bytesAt_dataAfterAdd (h : Represents P.msgp z.data kvs)
    (huv : parseVersionID P.uuid fi.versionText = some uv) (hfits : fi.data.length < 2 ^ 32)
    (hroom : kvs.length + 1 < 2 ^ 32) (key : String) :
    bytesAt P (dataAfterAdd P z fi) key =
      if fi.savesData ∧ key = fi.versionText then fi.data else bytesAt P z.data key := by
  unfold bytesAt
  rw [(represents_dataAfterAdd h huv hfits hroom).find, h.find]
  by_cases hs : fi.savesData
  · rw [if_pos hs, lookup_replaceEntries]
    by_cases hk : key = fi.versionText
    · rw [if_pos (congrArg stringBytes hk), if_pos ⟨hs, hk⟩]
      rfl
    · rw [if_neg (mt stringBytes_inj.mp hk), if_neg fun hc => hk hc.2]
  · rw [if_neg hs, if_neg fun hc => hs hc.1]

/-- The condition under which the version `fi`, added to `z`, is read with its own data. -/
def ServesOwnData (P : Packages) (z : XlMetaV2) (fi : FileInfo) : Prop :=
  (∀ v ∈ z.versions, v.valid = true) ∧
  ∀ uv dd, parseVersionID P.uuid fi.versionText = some uv → parseID P.uuid fi.dataDir = some dd →
    (fi.data ≠ [] → fi.versionText = readKey P.uuid uv ∨
      bytesAt P z.data (readKey P.uuid uv) = fi.data ∨
      (bytesAt P z.data (readKey P.uuid uv) = [] ∧
        (fi.versionText = P.uuid.string dd ∨ bytesAt P z.data (P.uuid.string dd) = fi.data))) ∧
    (fi.data = [] → (fi.size = 0 ∧ fi.versionText = readKey P.uuid uv ∨
        bytesAt P z.data (readKey P.uuid uv) = []) ∧
      (fi.size = 0 ∧ fi.versionText = P.uuid.string dd ∨ bytesAt P z.data (P.uuid.string dd) = []))

lemma fallback_eq_iff (own dir d : Bytes) : (if own = [] then dir else own) = d ↔
      (d ≠ [] → own = d ∨ (own = [] ∧ dir = d)) ∧ (d = [] → own = [] ∧ dir = []) := by
  by_cases hd : d = []
  · subst hd
    by_cases ho : own = []
    · simp [ho]
    · simp [ho]
  · by_cases ho : own = []
    · simp [ho, hd, Ne.symm hd]
    · simp [ho, hd]

lemma overwrite_eq_iff (c : Prop) [Decidable c] (d o : Bytes) :
    (if c then d else o) = d ↔ c ∨ o = d := by
  by_cases hc : c <;> simp [hc]

lemma bytesRead_eq_iff (dd : UUID) (h : Represents P.msgp z.data kvs) (hdel : fi.deleted = false)
    (huv : parseVersionID P.uuid fi.versionText = some uv)
    (hfits : fi.data.length < 2 ^ 32) (hroom : kvs.length + 1 < 2 ^ 32) :
    let key := readKey P.uuid uv
    let dirKey := P.uuid.string dd
    let own := bytesAt P z.data key
    let dir := bytesAt P z.data dirKey
    bytesRead P (dataAfterAdd P z fi) uv dd = fi.data ↔
      (fi.data ≠ [] → fi.versionText = key ∨ own = fi.data ∨
        (own = [] ∧ (fi.versionText = dirKey ∨ dir = fi.data))) ∧
      (fi.data = [] → (fi.size = 0 ∧ fi.versionText = key ∨ own = []) ∧
        (fi.size = 0 ∧ fi.versionText = dirKey ∨ dir = [])) := by
  have hat := bytesAt_dataAfterAdd h huv hfits hroom
  intro key dirKey own dir
  unfold bytesRead
  rw [hat, hat, fallback_eq_iff]
  change (_ → (if _ then _ else own) = _ ∨ _) ∧ _ ↔ _
  refine and_congr (imp_congr_right fun hdata => ?_) (imp_congr_right fun hdata => ?_)
  · have hs : fi.savesData := by
      simp [FileInfo.savesData, hdel, length_pos_iff, hdata]
    have hnil : (if fi.savesData ∧ key = fi.versionText then fi.data else own) = [] ↔
        ¬ key = fi.versionText ∧ own = [] := by
      by_cases hk : key = fi.versionText <;> simp [hs, hk, hdata]
    rw [overwrite_eq_iff, overwrite_eq_iff, hnil]
    simp only [hs, true_and]
    rw [eq_comm (a := key), eq_comm (a := dirKey)]
    tauto
  · have hs : fi.savesData ↔ fi.size = 0 := by simp [FileInfo.savesData, hdel, hdata]
    rw [hdata, overwrite_eq_iff, overwrite_eq_iff, hs, eq_comm (a := key), eq_comm (a := dirKey)]

/-- After a history from the empty file, a version that `AddVersion` accepts is written and read
back with exactly its own data if and only if `ServesOwnData` held before. The lengths stay
within the 32-bit limits of the format. -/
theorem inline_read_iff (C : Choices) (volume path : String) {calls : List StoreCall}
    (hrun : run (storeStep P) {} calls = some z) (hfits : ∀ c ∈ calls, c.Fits)
    (hcount : calls.length + 1 < 2 ^ 32) (hdel : fi.deleted = false)
    (hlen : fi.data.length < 2 ^ 32) (hadd : z.addVersion P fi = (z', none))
    (hK : K.Faithful z'.versions) :
    (∃ buf r, z'.appendTo P K [] = .ok buf ∧
      getFileInfo P C K buf volume path fi.versionText true = .ok r ∧ r.data = fi.data) ↔
    ServesOwnData P z fi := by
  have htidy : Tidy z.versions :=
    run_invariant (J := fun z => Tidy z.versions) (fun _ c _ h hs => tidy_storeStep c h hs)
      tidy_nil hrun
  obtain ⟨kvs, hrep, hkvs⟩ := represents_of_run hrun hfits (represents_nil P.msgp) (by simp; omega)
  have hroom : kvs.length + 1 < 2 ^ 32 := by simp at hkvs; omega
  obtain ⟨uv, dd, huv, hdd, -, -, hdata⟩ := addVersion_ok hadd
  have hvalid : validate P.msgp z'.data = .ok () :=
    (hdata ▸ represents_dataAfterAdd hrep huv hlen hroom).validate
  have hiff := bytesRead_eq_iff dd hrep hdel huv hlen hroom
  rw [← hdata] at hiff
  constructor
  · rintro ⟨buf, r, hbuf, hr, hrd⟩
    obtain ⟨buf', hbuf', hfmt, hload⟩ := load_appendTo hK hvalid
    obtain rfl : buf = buf' := Except.ok.inj (hbuf.symm.trans hbuf')
    have hval := getFileInfo_of_invalid hload hfmt hr
    obtain ⟨buf', r', hbuf', hr', hrd'⟩ :=
      getFileInfo_after_add C volume path hdel htidy hadd hK hvalid huv hdd hval
    obtain rfl : buf = buf' := Except.ok.inj (hbuf.symm.trans hbuf')
    obtain rfl : r = r' := Except.ok.inj (hr.symm.trans hr')
    refine ⟨(all_valid_add_iff hadd).mp hval, fun uv₁ dd₁ huv₁ hdd₁ => ?_⟩
    obtain rfl : uv = uv₁ := Option.some.inj (huv.symm.trans huv₁)
    obtain rfl : dd = dd₁ := Option.some.inj (hdd.symm.trans hdd₁)
    exact hiff.mp (hrd'.symm.trans hrd)
  · rintro ⟨hval, hcond⟩
    obtain ⟨buf, r, hbuf, hr, hrd⟩ :=
      getFileInfo_after_add C volume path hdel htidy hadd hK hvalid huv hdd
        ((all_valid_add_iff hadd).mpr hval)
    exact ⟨buf, r, hbuf, hr, hrd.trans (hiff.mpr (hcond uv dd huv hdd))⟩

/-! ### An overwrite that serves the old bytes -/

/-- A null version of one byte, inlined. -/
def inlinedNull : FileInfo := { plainVersion with data := [7] }

/-- The null version of two bytes, in its data directory. -/
def overwritingNull : FileInfo := { plainVersion with modTime := ⟨2⟩, size := 2 }

def overwritingEntry : XlMetaV2Version := .object (newObject 0 0 overwritingNull)

def inlinedJournal : XlMetaV2 := (XlMetaV2.addVersion Packages.std {} inlinedNull).1

def overwrittenJournal : XlMetaV2 := (inlinedJournal.addVersion Packages.std overwritingNull).1

/-- The journal after the overwrite, as the generated code writes it. -/
def overwrittenBytes : Bytes :=
  [0x81, 0xa8, 0x56, 0x65, 0x72, 0x73, 0x69, 0x6f, 0x6e, 0x73, 0x91, 0x82, 0xa4, 0x54,
    0x79, 0x70, 0x65, 0x01, 0xa5, 0x56, 0x32, 0x4f, 0x62, 0x6a, 0xde, 0x00, 0x11, 0xa2,
    0x49, 0x44, 0xc4, 0x10, 0x00, 0x00, 0x00, 0x00, 0x00, 0x00, 0x00, 0x00, 0x00, 0x00,
    0x00, 0x00, 0x00, 0x00, 0x00, 0x00, 0xa4, 0x44, 0x44, 0x69, 0x72, 0xc4, 0x10, 0x00,
    0x00, 0x00, 0x00, 0x00, 0x00, 0x00, 0x00, 0x00, 0x00, 0x00, 0x00, 0x00, 0x00, 0x00,
    0x00, 0xa6, 0x45, 0x63, 0x41, 0x6c, 0x67, 0x6f, 0x01, 0xa3, 0x45, 0x63, 0x4d, 0x01,
    0xa3, 0x45, 0x63, 0x4e, 0x00, 0xa7, 0x45, 0x63, 0x42, 0x53, 0x69, 0x7a, 0x65, 0x00,
    0xa7, 0x45, 0x63, 0x49, 0x6e, 0x64, 0x65, 0x78, 0x00, 0xa6, 0x45, 0x63, 0x44, 0x69,
    0x73, 0x74, 0x90, 0xa8, 0x43, 0x53, 0x75, 0x6d, 0x41, 0x6c, 0x67, 0x6f, 0x01, 0xa8,
    0x50, 0x61, 0x72, 0x74, 0x4e, 0x75, 0x6d, 0x73, 0x90, 0xa9, 0x50, 0x61, 0x72, 0x74,
    0x45, 0x54, 0x61, 0x67, 0x73, 0x90, 0xa9, 0x50, 0x61, 0x72, 0x74, 0x53, 0x69, 0x7a,
    0x65, 0x73, 0x90, 0xaa, 0x50, 0x61, 0x72, 0x74, 0x41, 0x53, 0x69, 0x7a, 0x65, 0x73,
    0x90, 0xa4, 0x53, 0x69, 0x7a, 0x65, 0x02, 0xa5, 0x4d, 0x54, 0x69, 0x6d, 0x65, 0x02,
    0xa7, 0x4d, 0x65, 0x74, 0x61, 0x53, 0x79, 0x73, 0x80, 0xa7, 0x4d, 0x65, 0x74, 0x61,
    0x55, 0x73, 0x72, 0x80]

/-- The codec on this journal. -/
def overwrittenMarshaller : Marshaller where
  marshalMsg vs := if vs = [overwritingEntry] then overwrittenBytes else []
  unmarshalMsg b := if b = overwrittenBytes then .ok [overwritingEntry] else .error errMsgp
  sum64 b := if b = overwrittenBytes then 0xba9be12d041b7bfe else 0
  unmarshalV1 _ := .error .fileCorrupt

lemma overwrittenJournal_add :
    inlinedJournal.addVersion Packages.std overwritingNull = (overwrittenJournal, none) :=
  Prod.ext rfl (by decide +kernel)

lemma overwrittenMarshaller_faithful :
    overwrittenMarshaller.Faithful overwrittenJournal.versions := by
  constructor <;> decide +kernel

/-- The condition on the overwrite. -/
theorem inline_read_iff_overwrite :
    (∃ buf r, overwrittenJournal.appendTo Packages.std overwrittenMarshaller [] = .ok buf ∧
      getFileInfo Packages.std Choices.std overwrittenMarshaller buf "bucket" "object"
        overwritingNull.versionText true = .ok r ∧ r.data = overwritingNull.data) ↔
    ServesOwnData Packages.std inlinedJournal overwritingNull :=
  inline_read_iff Choices.std "bucket" "object"
    (show run (storeStep Packages.std) {} [.rename inlinedNull] = some inlinedJournal by
      decide +kernel)
    (by simp [StoreCall.Fits, inlinedNull]) (by decide) rfl (by decide)
    overwrittenJournal_add overwrittenMarshaller_faithful

/-- The overwrite brings no data and is not empty, and the file serves the old byte for it. -/
theorem stale_inline_read :
    run (storeStep Packages.std) {} [.rename inlinedNull] = some inlinedJournal ∧
    inlinedJournal.addVersion Packages.std overwritingNull = (overwrittenJournal, none) ∧
    overwritingNull.data = [] ∧ overwritingNull.size > 0 ∧
    ((overwrittenJournal.appendTo Packages.std overwrittenMarshaller []).bind fun buf =>
      (getFileInfo Packages.std Choices.std overwrittenMarshaller buf "bucket" "object"
        overwritingNull.versionText true).map FileInfo.data) = .ok [7] := by
  refine ⟨by decide +kernel, overwrittenJournal_add, rfl, by decide, by decide +kernel⟩

end Obstor.Meta
