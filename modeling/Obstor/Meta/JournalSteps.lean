import Obstor.Meta.Journal

/-!
# What a call on the journal does

One inversion lemma for each call: from a successful result to the entries it found and the
journal it left. Everything later about the journal is proved from these, not from the code.
-/

namespace Obstor.Meta

open Go Lib XlMetaV2Version XlMetaV2

variable {P : Packages} {z z' : XlMetaV2} {fi : FileInfo} {uv : UUID}

/-! ### `AddVersion` -/

variable {vs' : List XlMetaV2Version}

lemma putEntry_ok {versionID : String} {e : XlMetaV2Version} {vs : List XlMetaV2Version}
    (h : putEntry versionID uv e vs = .ok vs') :
    (∃ pre v post, vs = pre ++ v :: post ∧ v.valid ∧ v.isFor versionID uv ∧
      vs' = pre ++ e :: post) ∨
    ((∀ w ∈ vs, w.valid ∧ w.isFor versionID uv = false) ∧ vs' = vs ++ [e]) := by
  unfold putEntry at h
  rcases hf : firstHit (fun v => !v.valid || v.isFor versionID uv) vs with _ | ⟨pre, v, post⟩
  · rw [hf] at h
    right
    refine ⟨fun w hw => ?_, (Except.ok.inj h).symm⟩
    have := firstHit_eq_none_iff.mp hf w hw
    simpa using this
  · rw [hf] at h
    obtain ⟨hvs, hv, -⟩ := firstHit_eq_some_iff.mp hf
    by_cases hval : v.valid
    · left
      simp only [hval, Bool.not_true, Bool.false_eq_true, if_false] at h
      exact ⟨pre, v, post, hvs, hval, by simpa [hval] using hv, (Except.ok.inj h).symm⟩
    · simp [hval] at h

/-- The inline data after a call to `AddVersion`. -/
def dataAfterAdd (P : Packages) (z : XlMetaV2) (fi : FileInfo) : XlMetaInlineData :=
  if fi.savesData then XlMetaInlineData.replace P.msgp z.data fi.versionText fi.data else z.data

lemma versions_saved : (if fi.savesData then
    { z with data := XlMetaInlineData.replace P.msgp z.data fi.versionText fi.data } else z).versions =
      z.versions := by
  split_ifs <;> rfl

lemma addVersion_ok (h : z.addVersion P fi = (z', none)) :
    ∃ uv dd, parseVersionID P.uuid fi.versionText = some uv ∧ parseID P.uuid fi.dataDir = some dd ∧
      (newEntry uv dd fi).valid ∧
      putEntry fi.versionText uv (newEntry uv dd fi) z.versions = .ok z'.versions ∧
      z'.data = dataAfterAdd P z fi := by
  unfold addVersion at h
  rcases huv : parseVersionID P.uuid fi.versionText with _ | uv
  · simp [huv] at h
  · rcases hdd : parseID P.uuid fi.dataDir with _ | dd
    · simp [huv, hdd] at h
    · refine ⟨uv, dd, rfl, rfl, ?_⟩
      simp only [huv, hdd] at h
      by_cases hval : (newEntry uv dd fi).valid
      · simp only [hval, Bool.not_true, Bool.false_eq_true, if_false, versions_saved] at h
        rcases hput : putEntry fi.versionText uv (newEntry uv dd fi) z.versions with e | vs
        · simp [hput] at h
        · simp only [hput, Prod.mk.injEq, and_true] at h
          subst h
          refine ⟨hval, rfl, ?_⟩
          unfold dataAfterAdd
          split_ifs <;> rfl
      · simp [hval] at h

lemma addVersion_error {e : Err} (h : z.addVersion P fi = (z', some e)) :
    z'.versions = z.versions := by
  unfold addVersion at h
  rcases huv : parseVersionID P.uuid fi.versionText with _ | uv
  · simp only [huv, Prod.mk.injEq] at h
    rw [h.1]
  · rcases hdd : parseID P.uuid fi.dataDir with _ | dd
    · simp only [huv, hdd, Prod.mk.injEq] at h
      rw [h.1]
    · simp only [huv, hdd] at h
      by_cases hval : (newEntry uv dd fi).valid
      · simp only [hval, Bool.not_true, Bool.false_eq_true, if_false] at h
        split at h
        · simp only [Prod.mk.injEq] at h
          rw [← h.1, versions_saved]
        · simp at h
      · simp only [hval, Bool.not_false, if_true, Prod.mk.injEq] at h
        rw [← h.1, versions_saved]

/-! ### `UpdateObjectVersion` -/

lemma updateObject_ok {o o' : XlMetaV2Object} (h : updateObject o fi = .ok o') :
    writesNilMap o fi = false ∧
      o' = { o with metaSys := o'.metaSys, metaUser := o'.metaUser, modTime := o'.modTime } ∧
      o'.modTime = (if !fi.modTime.isZero then fi.modTime.unixNano else o.modTime) ∧
      (o'.valid ↔ o.erasureAlgorithm.valid ∧ o.bitrotChecksumAlgo.valid ∧
        isXLMetaErasureInfoValid o.erasureM o.erasureN ∧ 0 < o'.modTime) := by
  unfold updateObject at h
  by_cases hnil : writesNilMap o fi
  · simp [hnil] at h
  rw [if_neg hnil] at h
  cases h
  refine ⟨by simpa using hnil, rfl, rfl, ?_⟩
  simp [XlMetaV2Object.valid, and_assoc]

variable {post : List XlMetaV2Version} {pre : List XlMetaV2Version}

lemma updateObjectVersion_of_first {o : XlMetaV2Object}
    (huv : parseVersionID P.uuid fi.versionText = some uv)
    (hvs : z.versions = pre ++ .object o :: post) (ho : o.versionID = uv) (hval : o.valid)
    (hpre : ∀ w ∈ pre, ¬ stopsUpdate fi.versionText uv w) (hnil : writesNilMap o fi = false) :
    (z.updateObjectVersion P fi).2 = none := by
  have hval' : (object o).valid := hval
  have hf : firstHit (stopsUpdate fi.versionText uv) z.versions = some (pre, .object o, post) :=
    firstHit_eq_some_iff.mpr ⟨hvs, by simp [stopsUpdate, isFor, ho], hpre⟩
  simp [updateObjectVersion, huv, hf, hval', updateObject, hnil]

lemma updateObjectVersion_ok (h : z.updateObjectVersion P fi = (z', none)) :
    ∃ uv pre o o' post, parseVersionID P.uuid fi.versionText = some uv ∧
      z.versions = pre ++ .object o :: post ∧ o.versionID = uv ∧
      (∀ w ∈ pre, ¬ stopsUpdate fi.versionText uv w) ∧ updateObject o fi = .ok o' ∧
      z' = { z with versions := pre ++ .object o' :: post } := by
  unfold updateObjectVersion at h
  rcases huv : parseVersionID P.uuid fi.versionText with _ | uv
  · simp [huv] at h
  · simp only [huv] at h
    rcases hf : firstHit (stopsUpdate fi.versionText uv) z.versions with _ | ⟨pre, v, post⟩
    · simp [hf] at h
    · obtain ⟨hvs, hstop, hpre⟩ := firstHit_eq_some_iff.mp hf
      simp only [hf] at h
      by_cases hval : v.valid
      · simp only [hval, Bool.not_true, Bool.false_eq_true, if_false] at h
        cases v with
        | object o =>
          rcases ho : updateObject o fi with e | o'
          · simp [ho] at h
          · simp only [ho, Prod.mk.injEq, and_true] at h
            have hid : o.versionID = uv := by
              simpa [stopsUpdate, isFor, hval] using hstop
            exact ⟨uv, pre, o, o', post, rfl, hvs, hid, hpre, ho, h.symm⟩
        | invalid => simp at h
        | delete d => simp at h
        | legacy m => simp at h
      · simp [hval] at h

/-! ### `DeleteVersion` -/

/-- The outcomes of a successful `DeleteVersion` of the id `uv`: the entries left and the data
directory returned. -/
inductive Deletes (P : Packages) (z : XlMetaV2) (fi : FileInfo) (uv : UUID) :
    List XlMetaV2Version → String → Prop
  /-- The legacy version goes. -/
  | legacy {pre : List XlMetaV2Version} {m : XlMetaV1Object} {post : List XlMetaV2Version} :
      z.versions = pre ++ .legacy m :: post → m.versionID = fi.deleteText →
      Deletes P z fi uv (pre ++ post ++ if fi.deleted then [deleteEntry uv fi] else []) m.dataDir
  /-- A delete marker gets a new status. -/
  | markerUpdated {pre : List XlMetaV2Version} {d : XlMetaV2DeleteMarker}
      {post : List XlMetaV2Version} :
      z.versions = pre ++ .delete d :: post → d.versionID = uv → fi.updatesVersion = true →
      Deletes P z fi uv (pre ++ .delete (updateMarker fi d) :: post) ""
  /-- A delete marker goes, and the entry of the call comes if it is to be marked deleted. -/
  | markerRemoved {pre : List XlMetaV2Version} {d : XlMetaV2DeleteMarker}
      {post : List XlMetaV2Version} :
      z.versions = pre ++ .delete d :: post → d.versionID = uv → fi.updatesVersion = false →
      Deletes P z fi uv (pre ++ post ++
        if fi.markDeleted && (fi.versionPurgeStatus = .empty || fi.versionPurgeStatus ≠ .complete)
        then [deleteEntry uv fi] else []) ""
  /-- An object gets a new status. -/
  | objectUpdated {pre : List XlMetaV2Version} {o : XlMetaV2Object}
      {post : List XlMetaV2Version} {metaSys : GoMap SysValue} :
      z.versions = pre ++ .object o :: post → o.versionID = uv → fi.updatesVersion = true →
      Deletes P z fi uv (pre ++ .object { o with metaSys := metaSys } :: post) ""
  /-- An object is moved to another tier and stays in the journal. -/
  | transitioned {pre : List XlMetaV2Version} {o : XlMetaV2Object}
      {post : List XlMetaV2Version} {metaSys : GoMap SysValue} :
      z.versions = pre ++ .object o :: post → o.versionID = uv → fi.transitionStatus ≠ "" →
      Deletes P z fi uv (pre ++ .object { o with metaSys := metaSys } :: post)
        (P.uuid.string o.dataDir)
  /-- An object goes, with its data directory unless another version uses it. -/
  | objectRemoved {pre : List XlMetaV2Version} {o : XlMetaV2Object}
      {post : List XlMetaV2Version} :
      z.versions = pre ++ .object o :: post → o.versionID = uv →
      Deletes P z fi uv (pre ++ post ++ if fi.deleted then [deleteEntry uv fi] else [])
        (if XlMetaV2.sharedDataDirCount P ⟨pre ++ post, z.data⟩ uv o.dataDir > 0 then ""
          else P.uuid.string o.dataDir)
  /-- The version is not there and a delete marker is put in its place. -/
  | markerAdded :
      (∀ v ∈ z.versions, stopsDelete fi uv v = false ∧ stopsPurge uv v = false) →
      fi.deleted = true → Deletes P z fi uv (z.versions ++ [deleteEntry uv fi]) ""

variable {dir : String} {last : Bool}

lemma deleteMatched_ok {v : XlMetaV2Version}
    (hvs : z.versions = pre ++ v :: post) (hval : v.valid)
    (hstop : stopsDelete fi uv v)
    (h : deleteMatched fi uv pre v post = (vs', .ok (dir, last))) :
    Deletes P z fi uv vs' dir ∧ (last ↔ vs' = []) := by
  cases v with
  | invalid => cases hval
  | legacy m =>
    have hm : m.versionID = fi.deleteText := by simpa [stopsDelete, hval] using hstop
    simp only [deleteMatched, deleteReturn] at h
    by_cases ht : fi.transitionStatus ≠ ""
    · simp [ht] at h
    · rw [if_neg ht] at h
      cases h
      exact ⟨.legacy hvs hm, by simp⟩
  | delete d =>
    have hd : d.versionID = uv := by simpa [stopsDelete, hval] using hstop
    simp only [deleteMatched, deleteReturn] at h
    by_cases hu : fi.updatesVersion
    · rw [if_pos hu] at h
      cases h
      exact ⟨.markerUpdated hvs hd hu, by simp⟩
    · rw [if_neg hu] at h
      cases h
      exact ⟨.markerRemoved hvs hd (by simpa using hu), decide_eq_true_iff.trans List.length_eq_zero_iff⟩
  | object o =>
    have ho : o.versionID = uv ∧ fi.updatesVersion := by
      simpa [stopsDelete, hval] using hstop
    simp only [deleteMatched] at h
    rcases hset : o.metaSys.set versionPurgeStatusKey (.raw fi.versionPurgeStatus.text) with
      e | metaSys
    · simp [hset] at h
    · simp only [hset, deleteReturn] at h
      cases h
      exact ⟨.objectUpdated hvs ho.1 ho.2, by simp⟩

lemma purgeMatched_ok {o : XlMetaV2Object}
    (hvs : z.versions = pre ++ .object o :: post) (ho : o.versionID = uv)
    (h : purgeMatched P z.data fi uv pre o post = (vs', .ok (dir, last))) :
    Deletes P z fi uv vs' dir ∧ (last ↔ vs' = []) := by
  unfold purgeMatched at h
  by_cases ht : fi.transitionStatus ≠ ""
  · rw [if_pos ht] at h
    rcases hset : o.metaSys.set transitionStatusKey (.raw fi.transitionStatus) with e | metaSys
    · simp [hset] at h
    · simp only [hset, deleteReturn] at h
      cases h
      exact ⟨.transitioned hvs ho ht, by simp⟩
  · have hrem : Deletes P z fi uv _ _ := .objectRemoved hvs ho
    rw [ho] at h
    split_ifs at h hrem with hc <;>
      (cases h
       exact ⟨hrem, by simp⟩)

/-- A successful `DeleteVersion` is one of the outcomes and leaves the inline data alone. -/
lemma deleteVersion_ok (h : z.deleteVersion P fi = (z', .ok (dir, last))) :
    ∃ uv, parseID P.uuid fi.deleteText = some uv ∧ (fi.deleted → 0 < fi.modTime.unixNano) ∧
      (Deletes P z fi uv z'.versions dir ∧ (last ↔ z'.versions = [])) ∧ z'.data = z.data := by
  unfold deleteVersion at h
  rcases huv : parseID P.uuid fi.deleteText with _ | uv
  · simp [huv] at h
  simp only [huv] at h
  by_cases hbad : (fi.deleted && !(delete (newDeleteMarker uv fi)).valid)
  · simp [hbad] at h
  rw [if_neg hbad] at h
  have htime : fi.deleted → 0 < fi.modTime.unixNano := by
    intro hd
    simpa [hd, valid, newDeleteMarker] using hbad
  simp only [Prod.mk.injEq] at h
  obtain ⟨rfl, hr⟩ := h
  refine ⟨uv, rfl, htime, ?_, rfl⟩
  unfold deleteLoops at hr ⊢
  rcases hf : firstHit (stopsDelete fi uv) z.versions with _ | ⟨pre, v, post⟩
  · simp only [hf] at hr ⊢
    have hnone := firstHit_eq_none_iff.mp hf
    rcases hf₂ : firstHit (stopsPurge uv) z.versions with _ | ⟨pre, v, post⟩
    · have hnone₂ := firstHit_eq_none_iff.mp hf₂
      simp only [hf₂] at hr ⊢
      by_cases hd : fi.deleted
      · rw [if_pos hd] at hr ⊢
        cases hr
        refine ⟨.markerAdded (fun v hv => ?_) hd, by simp⟩
        exact ⟨by simpa using hnone v hv, by simpa using hnone₂ v hv⟩
      · rw [if_neg hd] at hr
        cases hr
    · obtain ⟨hvs, hstop, -⟩ := firstHit_eq_some_iff.mp hf₂
      cases v with
      | object o =>
        simp only [hf₂] at hr ⊢
        by_cases hval : o.valid
        · simp only [hval, Bool.not_true, Bool.false_eq_true, if_false] at hr ⊢
          have ho : o.versionID = uv := by
            simpa [stopsPurge, valid, hval] using hstop
          exact purgeMatched_ok hvs ho (Prod.ext rfl hr)
        · simp [hval] at hr
      | invalid => simp [hf₂] at hr
      | delete d => simp [hf₂] at hr
      | legacy m => simp [hf₂] at hr
  · obtain ⟨hvs, hstop, -⟩ := firstHit_eq_some_iff.mp hf
    simp only [hf] at hr ⊢
    by_cases hval : v.valid
    · simp only [hval, Bool.not_true, Bool.false_eq_true, if_false] at hr ⊢
      exact deleteMatched_ok hvs hval hstop (Prod.ext rfl hr)
    · simp [hval] at hr

lemma deleteVersion_error {e : Err} (h : z.deleteVersion P fi = (z', .error e)) :
    z'.versions = z.versions := by
  unfold deleteVersion at h
  split at h
  · cases h
    rfl
  · split_ifs at h
    · cases h
      rfl
    · unfold deleteLoops at h
      split at h
      · next pre v post hf =>
        rw [(firstHit_eq_some_iff.mp hf).1] at h ⊢
        cases v <;> simp only [deleteMatched, deleteReturn] at h <;> (repeat' split at h) <;>
          cases h <;> rfl
      · split at h
        · next pre o post hf =>
          rw [(firstHit_eq_some_iff.mp hf).1] at h ⊢
          simp only [purgeMatched, deleteReturn] at h
          (repeat' split at h) <;> cases h <;> rfl
        · cases h
          rfl
        · split_ifs at h <;> cases h
          rfl

end Obstor.Meta
