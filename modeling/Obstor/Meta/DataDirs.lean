import Obstor.Meta.JournalInv

/-!
# Purging a data directory

`DeleteVersion` returns the data directory that its caller may purge. Versions can share one (a
self-copy does), so the call counts the others first, but not when the deleted version is
inlined: then the directory is taken to be unused.

`purged_unreferenced_iff`: the purged directory is unreferenced exactly when the removed version was
not inlined beside a version that has its data in the same directory (`SharesWithInlined`). The
cases of a deletion are those of `Deletes`; `no_sharer_of_count` is what the count of the others
says.
-/

namespace Obstor.Meta

open Go Lib List

section

variable (P : Packages) (z : XlMetaV2)

/-- A journal after a list of calls to `AddVersion`, successful or not. -/
def addAll (fis : List FileInfo) : XlMetaV2 :=
  fis.foldl (fun z fi => (z.addVersion P fi).1) z

/-- The key under which the inline data of a version is read.
Source: `cmd/xl-storage-format-utils.go`, `getFileInfo` -/
def readKey (U : UuidPkg) (id : UUID) : String := if id = 0 then nullVersionID else U.string id

/-- The version has inline data of its own. -/
def HasInlineData (id : UUID) : Prop :=
  XlMetaInlineData.find P.msgp z.data (readKey P.uuid id) ≠ none

/-- `z'` has lost an object version of `z`. -/
def LosesObject (z z' : XlMetaV2) : Prop :=
  ∃ o, .object o ∈ z.versions ∧ ∀ o', .object o' ∈ z'.versions → o'.versionID ≠ o.versionID

/-- No object without inline data refers to the directory. -/
def Unreferenced (dir : String) : Prop :=
  ∀ o, .object o ∈ z.versions → ¬ HasInlineData P z o.versionID → P.uuid.string o.dataDir ≠ dir

/-- The object `o` that `fi` names has inline data under its id, and another object in the same
data directory has none. -/
def SharesWithInlined (fi : FileInfo) : Prop :=
  ∃ o o', .object o ∈ z.versions ∧ parseID P.uuid fi.deleteText = some o.versionID ∧
    XlMetaInlineData.find P.msgp z.data (P.uuid.string o.versionID) ≠ none ∧
    .object o' ∈ z.versions ∧ o'.versionID ≠ o.versionID ∧ o'.dataDir = o.dataDir ∧
    ¬ HasInlineData P z o'.versionID

end

variable {P : Packages} {z z' : XlMetaV2} {fi : FileInfo} {uv : UUID}

/-! ### Journals made by `AddVersion` -/

lemma addVersion_keeps (h : Sound z.versions ∧ ¬ HasLegacy z.versions) :
    Sound (z.addVersion P fi).1.versions ∧ ¬ HasLegacy (z.addVersion P fi).1.versions := by
  obtain ⟨hs, hl⟩ := h
  rcases hr : z.addVersion P fi with ⟨z', _ | e⟩
  · refine ⟨(addVersion_sound_iff hs (fun m hm => absurd ⟨m, hm⟩ hl) hr).mpr
      (fun hc => hl hc.1), ?_⟩
    rintro ⟨m, hm⟩
    exact hl ⟨m, legacy_mem_of_addVersion hr hm⟩
  · rw [addVersion_error hr]
    exact ⟨hs, hl⟩

lemma addAll_keeps (fis : List FileInfo) (h : Sound z.versions ∧ ¬ HasLegacy z.versions) :
    Sound (addAll P z fis).versions ∧ ¬ HasLegacy (addAll P z fis).versions := by
  induction fis generalizing z with
  | nil => exact h
  | cons fi fis ih => exact ih (addVersion_keeps h)

lemma addAll_empty (fis : List FileInfo) :
    Sound (addAll P {} fis).versions ∧ ¬ HasLegacy (addAll P {} fis).versions := by
  refine addAll_keeps fis ⟨sound_nil, ?_⟩
  rintro ⟨m, hm⟩
  cases hm

/-! ### The condition -/

lemma Deletes.objectRemoved_of_dir {vs' : List XlMetaV2Version} {dir : String}
    (hl : ¬ HasLegacy z.versions) (h : Deletes P z fi uv vs' dir) (hdir : dir ≠ "")
    (hloses : LosesObject z ⟨vs', z.data⟩) :
    ∃ pre o post, z.versions = pre ++ .object o :: post ∧ o.versionID = uv ∧
      (∀ o', .object o' ∈ vs' ↔ .object o' ∈ pre ++ post) ∧
      XlMetaV2.sharedDataDirCount P ⟨pre ++ post, z.data⟩ uv o.dataDir = 0 ∧
      dir = P.uuid.string o.dataDir := by
  cases h with
  | @legacy pre m post hvs _ => exact absurd ⟨m, by simp [hvs]⟩ hl
  | markerUpdated => exact absurd rfl hdir
  | markerRemoved => exact absurd rfl hdir
  | objectUpdated => exact absurd rfl hdir
  | markerAdded => exact absurd rfl hdir
  | @transitioned pre o post metaSys hvs _ _ =>
    obtain ⟨o₁, ho₁, hgone⟩ := hloses
    rw [hvs] at ho₁
    rcases mem_append.mp ho₁ with h₁ | h₁
    · exact absurd rfl (hgone o₁ (mem_append_left _ h₁))
    · rcases mem_cons.mp h₁ with h₁ | h₁
      · obtain rfl : o₁ = o := by simpa using h₁
        exact absurd rfl (hgone { o₁ with metaSys := metaSys } (mem_append_right _ mem_cons_self))
      · exact absurd rfl (hgone o₁ (mem_append_right _ (mem_cons_of_mem _ h₁)))
  | @objectRemoved pre o post hvs ho =>
    have hcount : ¬ XlMetaV2.sharedDataDirCount P ⟨pre ++ post, z.data⟩ uv o.dataDir > 0 := by
      intro hc
      rw [if_pos hc] at hdir
      exact hdir rfl
    refine ⟨pre, o, post, hvs, ho, fun o' => ?_, by omega, if_neg hcount⟩
    rw [mem_append]
    refine or_iff_left fun h => ?_
    split_ifs at h with hd
    · have := mem_singleton.mp h
      simp [deleteEntry, hd] at this
    · cases h

lemma no_sharer_of_count {vs : List XlMetaV2Version} {data : XlMetaInlineData} {dd : UUID}
    (hfind : XlMetaInlineData.find P.msgp data (P.uuid.string uv) = none)
    (hcount : XlMetaV2.sharedDataDirCount P ⟨vs, data⟩ uv dd = 0) {o : XlMetaV2Object}
    (ho : .object o ∈ vs) (hid : o.versionID ≠ uv) : o.dataDir ≠ dd := by
  unfold XlMetaV2.sharedDataDirCount at hcount
  rw [hfind, if_neg (by simp), countP_eq_zero] at hcount
  have := hcount _ ho
  simpa [hid] using this

/-- After `DeleteVersion` on a journal made by `AddVersion` removed a version and returned a
directory to purge, no object without inline data refers to it, exactly when the journal did not
have the removed version inlined beside a version in the same directory that is not. -/
theorem purged_unreferenced_iff (fis : List FileInfo) {dir : String} {last : Bool}
    (hz : z = addAll P {} fis) (h : z.deleteVersion P fi = (z', .ok (dir, last)))
    (hloses : LosesObject z z') (hdir : dir ≠ "") :
    Unreferenced P z' dir ↔ ¬ SharesWithInlined P z fi := by
  obtain ⟨hs, hl⟩ : Sound z.versions ∧ ¬ HasLegacy z.versions := hz ▸ addAll_empty fis
  obtain ⟨uv, huv, -, ⟨hdel, -⟩, hdata⟩ := deleteVersion_ok h
  have hz' : z' = ⟨z'.versions, z.data⟩ := by rw [← hdata]
  obtain ⟨pre, o, post, hvs, ho, hobj, hcount, rfl⟩ :=
    hdel.objectRemoved_of_dir hl hdir (hz' ▸ hloses)
  have hmem : .object o ∈ z.versions := by simp [hvs]
  have hinl : ∀ id, HasInlineData P z' id ↔ HasInlineData P z id := by
    intro id
    rw [HasInlineData, hdata, HasInlineData]
  -- the objects that are left are the others
  have hleft : ∀ o', .object o' ∈ z'.versions ↔ .object o' ∈ z.versions ∧ o'.versionID ≠ uv := by
    intro o'
    rw [hobj, hvs]
    constructor
    · intro ho'
      refine ⟨by grind, fun hid => ?_⟩
      exact (hvs ▸ hs : Sound (pre ++ .object o :: post)).id_ne ho'
        (congrArg some (hid.trans ho.symm))
    · rintro ⟨ho', hid⟩
      have hne : o' ≠ o := fun heq => hid (heq ▸ ho)
      simpa [hne] using ho'
  constructor
  · rintro hun ⟨o₁, o', ho₁, huv₁, -, ho', hne, hd, hnot⟩
    have hid₁ : o₁.versionID = uv := Option.some.inj (huv₁.symm.trans huv)
    obtain rfl : o₁ = o := by
      simpa using hs.eq_of_id ho₁ hmem (congrArg some (hid₁.trans ho.symm))
    refine hun o' ((hleft o').mpr ⟨ho', hid₁ ▸ hne⟩) (fun hc => hnot ((hinl _).mp hc)) ?_
    rw [hd]
  · intro hno o' ho' hnot hd
    have hd' : o'.dataDir = o.dataDir := P.uuid.string_inj hd
    obtain ⟨hin, hid⟩ := (hleft o').mp ho'
    by_cases hfind : XlMetaInlineData.find P.msgp z.data (P.uuid.string uv) = none
    · exact no_sharer_of_count hfind hcount ((hobj o').mp ho') hid hd'
    · exact hno ⟨o, o', hmem, ho ▸ huv, ho ▸ hfind, hin, ho ▸ hid, hd',
        fun hc => hnot ((hinl _).mpr hc)⟩

/-! ### A directory purged under a version that needs it -/

def sharedVersion (versionID : String) (data : Bytes) : FileInfo where
  versionID := versionID
  dataDir := "00000000-0000-0000-0000-0000000000dd"
  modTime := ⟨1⟩
  size := 1
  erasure := { dataBlocks := 1 }
  data := data

def inlinedVersion : FileInfo := sharedVersion "00000000-0000-0000-0000-00000000000a" [7]

/-- A version in the same data directory, without inline data. -/
def dataDirVersion : FileInfo := sharedVersion "00000000-0000-0000-0000-00000000000b" []

def sharedJournal : XlMetaV2 := addAll Packages.std {} [inlinedVersion, dataDirVersion]

def sharedJournalAfter : XlMetaV2 :=
  (sharedJournal.deleteVersion Packages.std { versionID := inlinedVersion.versionID }).1

lemma sharedJournal_delete :
    sharedJournal.deleteVersion Packages.std { versionID := inlinedVersion.versionID } =
      (sharedJournalAfter, .ok (inlinedVersion.dataDir, false)) :=
  Prod.ext rfl (by decide +kernel)

lemma sharedJournalAfter_versions :
    sharedJournalAfter.versions = [.object (newObject 0xb 0xdd dataDirVersion)] := by
  decide +kernel

lemma sharedJournal_losesObject : LosesObject sharedJournal sharedJournalAfter := by
  refine ⟨newObject 0xa 0xdd inlinedVersion, by decide +kernel, fun o' ho' => ?_⟩
  rw [sharedJournalAfter_versions, mem_singleton, XlMetaV2Version.object.injEq] at ho'
  rw [ho']
  decide

/-- The condition on the deletion of the inlined version. -/
theorem purged_unreferenced_iff_shared : LosesObject sharedJournal sharedJournalAfter ∧
    (Unreferenced Packages.std sharedJournalAfter inlinedVersion.dataDir ↔
      ¬ SharesWithInlined Packages.std sharedJournal
        { versionID := inlinedVersion.versionID }) :=
  ⟨sharedJournal_losesObject,
    purged_unreferenced_iff _ rfl sharedJournal_delete
      sharedJournal_losesObject (by decide)⟩

/-- The deletion of the inlined version returns the directory although the other version, which
has no inline data, refers to it. -/
theorem purge_of_shared_dataDir :
    sharedJournal.deleteVersion Packages.std { versionID := inlinedVersion.versionID } =
      (sharedJournalAfter, .ok (inlinedVersion.dataDir, false)) ∧
    LosesObject sharedJournal sharedJournalAfter ∧
    ¬ Unreferenced Packages.std sharedJournalAfter inlinedVersion.dataDir := by
  refine ⟨sharedJournal_delete, sharedJournal_losesObject, fun h => ?_⟩
  refine h (newObject 0xb 0xdd dataDirVersion) ?_ (fun hc => hc ?_) ?_
  · exact mem_cons_self
  · decide +kernel
  · decide +kernel

end Obstor.Meta
