import Obstor.Meta.Codec

/-!
# The listing of versions and the lookup of one version

`ListVersions` (`cmd/xl-storage-format-v2.go`) turns every entry into a `FileInfo`, sorts these with
`versionsSorter` (`cmd/xl-storage-format-utils.go`) and fills in what depends on the place in the
list. `ToFileInfo` sorts the entries themselves, searches one, and fills in the same fields.

`listVersions_agrees`: both give the same record for every listed version. Both sort by time
(`Converted.sort`), so that the place of a version in the one list is its place in the other
(`Converted.split`). Without its conditions they may differ (`listing_differs`).
-/

namespace Obstor.Meta

open Go Lib List Option XlMetaV2Version FileInfo

/-! ### `ListVersions` -/

/-- `versionsSorter.Less`. -/
def versionsLess (v w : FileInfo) : Bool :=
  if v.isLatest then true else if w.isLatest then false else v.modTime.after w.modTime

/-- The first loop of `ListVersions`: every entry is converted. -/
def listEntries (U : UuidPkg) (C : Choices) (volume path : String) :
    List XlMetaV2Version → Except Err (List FileInfo)
  | [] => .ok []
  | version :: versions =>
    if !version.valid then .error .fileCorrupt
    else
      match version.toFileInfo U C volume path with
      | .error err => .error err
      | .ok fi =>
        match listEntries U C volume path versions with
        | .error err => .error err
        | .ok fis => .ok (fi :: fis)

/-- The second loop: the number of versions, and the time of the version before in the list. -/
def fillVersions (n : ℕ) : Option Time → List FileInfo → List FileInfo
  | _, [] => []
  | previous, fi :: rest =>
    { fi with numVersions := n, successorModTime := previous.getD fi.successorModTime } ::
      fillVersions n (some fi.modTime) rest

/-- `ListVersions`: the versions, newest first, and the time of the newest. -/
def XlMetaV2.listVersions (P : Packages) (C : Choices) (S : DataSort) (z : XlMetaV2)
    (volume path : String) : Except Err (List FileInfo × Time) :=
  match listEntries P.uuid C volume path z.versions with
  | .error err => .error err
  | .ok versions =>
    let versions := S.sort _ versionsLess versions
    match fillVersions versions.length none versions with
    | [] => .error (.panic "index out of range")
    | fi :: rest => .ok ({ fi with isLatest := true } :: rest, fi.modTime)

/-! ### Conversions do not depend on the order of a map -/

/-- A `FileInfo` with its metadata as a map: two that differ only in the order in which the metadata
was written are the same. -/
def FileInfo.view (fi : FileInfo) : (String → Option String) × Bool × FileInfo :=
  (fi.metadata.lookup, fi.metadata.isSome, { fi with metadata := none })

def FileInfo.Same (fi fi' : FileInfo) : Prop := fi.view = fi'.view

/-- The internal metadata of an entry is a map, and has each of these keys, which are read up to case,
in one spelling at most. -/
structure SpeltOnce (statuses : List String) (sys : List (String × SysValue)) : Prop where
  keys : (sys.map Prod.fst).Nodup
  once : ∀ k ∈ statuses, ∀ x ∈ sys, ∀ y ∈ sys, equalFold x.1 k = true → equalFold y.1 k = true → x = y

instance (statuses : List String) (sys : List (String × SysValue)) :
    Decidable (SpeltOnce statuses sys) :=
  decidable_of_iff (_ ∧ _) ⟨fun h => ⟨h.1, h.2⟩, fun h => ⟨h.keys, h.once⟩⟩

lemma lookup_cons {α : Type} (kv : String × α) (l : List (String × α)) (x : String) :
    GoMap.lookup (some (kv :: l)) x = if kv.1 = x then some kv.2 else GoMap.lookup (some l) x := by
  simp only [GoMap.lookup, GoMap.entries, getD_some]
  split_ifs with h
  · rw [find?_cons_of_pos (by simpa using h), map_some]
  · rw [find?_cons_of_neg (by simpa using h)]

lemma lookup_insertEntry {α : Type} (k : String) (v : α) (l : List (String × α)) :
    GoMap.lookup (some (GoMap.insertEntry k v l)) =
      Function.update (GoMap.lookup (some l)) k (some v) := by
  funext x
  rw [Function.update_apply]
  induction l with
  | nil =>
    rw [GoMap.insertEntry, lookup_cons]
    simp [eq_comm]
  | cons kv l ih =>
    rw [GoMap.insertEntry]
    split_ifs with hk hx hx <;> rw [lookup_cons]
    · rw [if_pos hx.symm]
    · rw [lookup_cons, if_neg (Ne.symm hx), if_neg fun h => hx (h.symm.trans hk)]
    · rw [if_neg fun h => hk (h.trans hx), ih, if_pos hx]
    · rw [lookup_cons, ih, if_neg hx]

lemma foldl_same {step : FileInfo → String × SysValue → FileInfo}
    {stepView : (String → Option String) × Bool × FileInfo → String × SysValue →
      (String → Option String) × Bool × FileInfo}
    (hview : ∀ fi kv, (step fi kv).view = stepView fi.view kv)
    {statuses : List String} (hcomm : ∀ s x y, x.1 ≠ y.1 →
      (∀ k ∈ statuses, ¬ (equalFold x.1 k ∧ equalFold y.1 k)) →
      stepView (stepView s x) y = stepView (stepView s y) x)
    {l l' : List (String × SysValue)} (hperm : l.Perm l') (hkeys : SpeltOnce statuses l)
    (fi : FileInfo) :
    (l.foldl step fi).Same (l'.foldl step fi) := by
  have hfold : ∀ (m : List (String × SysValue)) (fi : FileInfo),
      (m.foldl step fi).view = m.foldl stepView fi.view := by
    intro m
    induction m with
    | nil => exact fun _ => rfl
    | cons kv m ih =>
      intro fi
      rw [foldl_cons, foldl_cons, ih, hview]
  rw [Same, hfold, hfold]
  apply hperm.foldl_eq'
  intro x hx y hy s
  by_cases hxy : x = y
  · rw [hxy]
  exact hcomm s x y (fun heq => hxy (inj_on_of_nodup_map hkeys.keys hx hy heq))
    fun k hk hfold => hxy (hkeys.once k hk x hx y hy hfold.1 hfold.2)

section

variable (s : (String → Option String) × Bool × FileInfo) (kv : String × SysValue)

/-- One step of the loop over the internal metadata of an object, on views. -/
def readObjectSysView :
    (String → Option String) × Bool × FileInfo :=
  if equalFold kv.1 transitionStatusKey then
    (s.1, s.2.1, { s.2.2 with transitionStatus := kv.2.text })
  else if equalFold kv.1 versionPurgeStatusKey then
    (s.1, s.2.1, { s.2.2 with versionPurgeStatus := .ofText kv.2.text })
  else if isReserved kv.1 then
    (if s.2.1 then Function.update s.1 kv.1 (some kv.2.text) else s.1, s.2.1, s.2.2)
  else s

lemma view_readObjectSys (fi : FileInfo) (kv : String × SysValue) :
    (readObjectSys fi kv).view = readObjectSysView fi.view kv := by
  unfold readObjectSys readObjectSysView
  split_ifs with h₁ h₂ h₃ h₄
  · rfl
  · rfl
  · obtain ⟨l, hl⟩ := isSome_iff_exists.mp h₄
    simp [view, hl, lookup_insertEntry]
  · have hl : fi.metadata = none := not_isSome_iff_eq_none.mp h₄
    simp [view, hl]
  · rfl

/-- The internal keys of an object that are read up to case. -/
def objectStatuses : List String := [transitionStatusKey, versionPurgeStatusKey]

lemma readObjectSysView_comm (x y : String × SysValue) (hkey : x.1 ≠ y.1)
    (h : ∀ k ∈ objectStatuses, ¬ (equalFold x.1 k ∧ equalFold y.1 k)) :
    readObjectSysView (readObjectSysView s x) y = readObjectSysView (readObjectSysView s y) x := by
  have htrans := h transitionStatusKey (by simp [objectStatuses])
  have hpurge := h versionPurgeStatusKey (by simp [objectStatuses])
  unfold readObjectSysView
  split_ifs <;> first | rfl | exact absurd ⟨‹_›, ‹_›⟩ htrans | exact absurd ⟨‹_›, ‹_›⟩ hpurge |
    rw [Function.update_comm hkey.symm]

/-- One step of the loop over the internal metadata of a delete marker, on views. -/
def readMarkerSysView :
    (String → Option String) × Bool × FileInfo :=
  (s.1, s.2.1, readMarkerSys s.2.2 kv)

lemma view_readMarkerSys (fi : FileInfo) (kv : String × SysValue) :
    (readMarkerSys fi kv).view = readMarkerSysView fi.view kv := by
  unfold readMarkerSysView readMarkerSys
  split_ifs <;> rfl

/-- The internal keys of a delete marker that are read up to case. -/
def markerStatuses : List String := [amzBucketReplicationStatus, versionPurgeStatusKey]

lemma readMarkerSysView_comm (x y : String × SysValue) (_ : x.1 ≠ y.1)
    (h : ∀ k ∈ markerStatuses, ¬ (equalFold x.1 k ∧ equalFold y.1 k)) :
    readMarkerSysView (readMarkerSysView s x) y = readMarkerSysView (readMarkerSysView s y) x := by
  have hstatus := h amzBucketReplicationStatus (by simp [markerStatuses])
  have hpurge := h versionPurgeStatusKey (by simp [markerStatuses])
  unfold readMarkerSysView readMarkerSys
  split_ifs <;> first | rfl | exact absurd ⟨‹_›, ‹_›⟩ hstatus | exact absurd ⟨‹_›, ‹_›⟩ hpurge

end

namespace FileInfo

lemma Same.refl (fi : FileInfo) : fi.Same fi := rfl

lemma Same.set {fi fi' : FileInfo} (h : fi.Same fi') (f : FileInfo → FileInfo)
    (hmeta : ∀ x, (f x).metadata = x.metadata)
    (hrest : ∀ x, { f x with metadata := none } = f { x with metadata := none }) :
    (f fi).Same (f fi') := by
  have h₁ : fi.metadata.lookup = fi'.metadata.lookup := congrArg Prod.fst h
  have h₂ : fi.metadata.isSome = fi'.metadata.isSome := congrArg (fun v => v.2.1) h
  have h₃ : { fi with metadata := none } = { fi' with metadata := none } :=
    congrArg (fun v => v.2.2) h
  simp [Same, view, hmeta, h₁, h₂, hrest, h₃]

end FileInfo

lemma SpeltOnce.perm {statuses : List String} {sys sys' : List (String × SysValue)}
    (h : SpeltOnce statuses sys) (hperm : sys'.Perm sys) : SpeltOnce statuses sys' where
  keys := (hperm.map _).nodup_iff.mpr h.keys
  once k hk x hx y hy := h.once k hk x (hperm.subset hx) y (hperm.subset hy)

/-- Each status of the entry is written in one spelling. -/
def XlMetaV2Version.StatusOnce : XlMetaV2Version → Prop
  | .object o => SpeltOnce objectStatuses o.metaSys.entries
  | .delete d => SpeltOnce markerStatuses d.metaSys.entries
  | _ => True

instance (v : XlMetaV2Version) : Decidable v.StatusOnce :=
  match v with
  | .object _ => inferInstanceAs (Decidable (SpeltOnce _ _))
  | .delete _ => inferInstanceAs (Decidable (SpeltOnce _ _))
  | .legacy _ | .invalid => .isTrue trivial

variable {U : UuidPkg} {C : Choices} {volume path : String} {fi : FileInfo}

lemma toFileInfo_same (C' : Choices) {v : XlMetaV2Version} (hkeys : v.StatusOnce)
    (h : v.toFileInfo U C volume path = .ok fi) :
    ∃ fi', v.toFileInfo U C' volume path = .ok fi' ∧ fi.Same fi' := by
  cases v with
  | invalid => exact ⟨fi, h, .refl fi⟩
  | legacy m => exact ⟨fi, h, .refl fi⟩
  | delete d =>
    cases h
    refine ⟨_, rfl, ?_⟩
    have hperm := (C.range.perm _ _).trans (C'.range.perm _ d.metaSys.entries).symm
    exact foldl_same view_readMarkerSys readMarkerSysView_comm hperm
      (SpeltOnce.perm hkeys (C.range.perm _ _)) _
  | object o =>
    have hperm := (C.range.perm _ _).trans (C'.range.perm _ o.metaSys.entries).symm
    have hsame := foldl_same view_readObjectSys readObjectSysView_comm hperm
      (SpeltOnce.perm hkeys (C.range.perm _ _))
    simp only [toFileInfo, XlMetaV2Object.toFileInfo] at h ⊢
    split at h
    · cases h
    · split_ifs at h ⊢ with halgo
      cases h
      refine ⟨_, rfl, ?_⟩
      exact (hsame _).set (fun fi => { fi with erasure := _, dataDir := _, blocks := _ })
        (fun _ => rfl) fun _ => rfl

/-! ### The fields of a converted entry -/

/-- The version id of an entry as its `FileInfo` shows it. -/
def XlMetaV2Version.idText (U : UuidPkg) : XlMetaV2Version → String
  | .object o => versionIDText U o.versionID
  | .delete d => versionIDText U d.versionID
  | .legacy m => m.versionID
  | .invalid => ""

def XlMetaV2Version.isMarker : XlMetaV2Version → Bool
  | .delete _ => true
  | _ => false

/-- What reading the system metadata leaves as it is. -/
def FileInfo.fixed (fi : FileInfo) : Time × String × Bool × Bool :=
  (fi.modTime, fi.versionID, fi.isLatest, fi.deleted)

lemma foldl_fixed {step : FileInfo → String × SysValue → FileInfo}
    (hstep : ∀ fi kv, (step fi kv).fixed = fi.fixed) (l : List (String × SysValue)) (fi : FileInfo) :
    (l.foldl step fi).fixed = fi.fixed := by
  induction l generalizing fi with
  | nil => rfl
  | cons kv l ih => exact (ih _).trans (hstep fi kv)

lemma readObjectSys_fixed (fi : FileInfo) (kv : String × SysValue) :
    (readObjectSys fi kv).fixed = fi.fixed := by
  unfold readObjectSys
  split_ifs <;> rfl

lemma readMarkerSys_fixed (fi : FileInfo) (kv : String × SysValue) :
    (readMarkerSys fi kv).fixed = fi.fixed := by
  unfold readMarkerSys
  split_ifs <;> rfl

lemma toFileInfo_fixed {v : XlMetaV2Version} (h : v.toFileInfo U C volume path = .ok fi) :
    fi.fixed = (getModTimeFromVersion v, v.idText U, false, v.isMarker) := by
  cases v with
  | invalid =>
    cases h
    rfl
  | legacy m =>
    simp only [toFileInfo, XlMetaV1Object.toFileInfo] at h
    split_ifs at h
    cases h
    rfl
  | delete d =>
    cases h
    exact foldl_fixed readMarkerSys_fixed _ _
  | object o =>
    simp only [toFileInfo, XlMetaV2Object.toFileInfo] at h
    split at h
    · cases h
    · split_ifs at h
      cases h
      exact foldl_fixed readObjectSys_fixed _ _

lemma toFileInfo_fields {v : XlMetaV2Version} (h : v.toFileInfo U C volume path = .ok fi) :
    fi.modTime = getModTimeFromVersion v ∧ fi.versionID = v.idText U ∧ fi.isLatest = false ∧
      fi.deleted = v.isMarker := by
  simpa only [fixed, Prod.mk.injEq] using toFileInfo_fixed h

/-! ### Which entry a lookup finds -/

/-- The id under which a lookup finds an entry: a legacy entry only under its own text. -/
def XlMetaV2Version.lookupID (U : UuidPkg) : XlMetaV2Version → Option UUID
  | .object o => some o.versionID
  | .delete d => some d.versionID
  | .legacy m => if m.versionID = "" then none else parseVersionID U m.versionID
  | .invalid => none

/-- The text a client uses for a listed version. -/
def listedText (text : String) : String := if text = "" then nullVersionID else text

lemma listedText_ne_empty (text : String) : listedText text ≠ "" := by
  unfold listedText
  split_ifs with h
  · decide
  · exact h

lemma UuidPkg.string_ne_null (U : UuidPkg) (u : UUID) : U.string u ≠ nullVersionID := by
  intro h
  have hlen := U.length_of_parse _ _ (U.parse_string u)
  rw [h] at hlen
  revert hlen
  decide

lemma parse_listedText_versionIDText (U : UuidPkg) (id : UUID) :
    parseVersionID U (listedText (versionIDText U id)) = some id := by
  unfold listedText versionIDText
  by_cases hid : id = 0
  · rw [hid]
    rfl
  · rw [if_neg hid, if_neg (U.string_ne_empty id), parseVersionID,
      if_pos ⟨U.string_ne_empty id, U.string_ne_null id⟩]
    exact U.parse_string id

section Lookup

variable {U : UuidPkg} {v w : XlMetaV2Version} {u : UUID}

lemma parse_listedText (h : v.lookupID U = some u) :
    parseVersionID U (listedText (v.idText U)) = some u := by
  cases v with
  | object o =>
    rw [← Option.some.inj h]
    exact parse_listedText_versionIDText U o.versionID
  | delete d =>
    rw [← Option.some.inj h]
    exact parse_listedText_versionIDText U d.versionID
  | legacy m =>
    rw [lookupID] at h
    split_ifs at h with hne
    rw [idText, listedText, if_neg hne]
    exact h
  | invalid => cases h

lemma isFor_listedText (h : v.lookupID U = some u) : v.isFor (listedText (v.idText U)) u := by
  cases v with
  | object o => exact decide_eq_true (Option.some.inj h)
  | delete d => exact decide_eq_true (Option.some.inj h)
  | legacy m =>
    rw [lookupID] at h
    split_ifs at h with hne
    rw [idText, listedText, if_neg hne]
    exact decide_eq_true rfl
  | invalid => cases h

lemma lookupID_of_isFor {text : String} (hne : text ≠ "") (hparse : parseVersionID U text = some u)
    (h : w.isFor text u) : w.lookupID U = some u := by
  cases w with
  | object o => exact congrArg some (of_decide_eq_true h)
  | delete d => exact congrArg some (of_decide_eq_true h)
  | legacy m =>
    have htext : m.versionID = text := of_decide_eq_true h
    rw [lookupID, htext, if_neg hne]
    exact hparse
  | invalid => cases h

end Lookup

/-! ### The order of the versions -/

/-- The entries and what they are converted to, one by one. -/
abbrev Converted (U : UuidPkg) (C : Choices) (volume path : String) :
    List XlMetaV2Version → List FileInfo → Prop :=
  Forall₂ fun v fi => v.toFileInfo U C volume path = .ok fi

variable {fis : List FileInfo}

lemma listEntries_eq_ok {versions : List XlMetaV2Version}
    (h : listEntries U C volume path versions = .ok fis) :
    (∀ v ∈ versions, v.valid) ∧ Converted U C volume path versions fis := by
  induction versions generalizing fis with
  | nil =>
    cases h
    exact ⟨fun v hv => absurd hv not_mem_nil, .nil⟩
  | cons v versions ih =>
    simp only [listEntries] at h
    split_ifs at h with hvalid
    split at h
    · cases h
    · rename_i fi hfi
      split at h
      · cases h
      · rename_i rest hrest
        cases h
        obtain ⟨hall, hrest⟩ := ih hrest
        exact ⟨forall_mem_cons.mpr ⟨by simpa using hvalid, hall⟩, .cons hfi hrest⟩

/-- The order in which `xlMetaV2.ToFileInfo` sorts. -/
abbrev timeAfter (v w : XlMetaV2Version) : Bool :=
  (getModTimeFromVersion v).after (getModTimeFromVersion w)

lemma timeAfter_strictWeak : StrictWeak timeAfter where
  asymm a b h := by
    simp only [Time.after, decide_eq_true_eq, decide_eq_false_iff_not] at h ⊢
    omega
  negTrans a b c h h' := by
    simp only [Time.after, decide_eq_false_iff_not] at h h' ⊢
    omega

lemma versionsLess_strictWeakOn (h : ∀ fi ∈ fis, fi.isLatest = false) :
    StrictWeakOn versionsLess fis where
  asymm a ha b hb hab := by
    simp only [versionsLess, h a ha, h b hb, Bool.false_eq_true, if_false, Time.after,
      decide_eq_true_eq, decide_eq_false_iff_not] at hab ⊢
    omega
  negTrans a ha b hb c hc hab hbc := by
    simp only [versionsLess, h a ha, h b hb, h c hc, Bool.false_eq_true, if_false, Time.after,
      decide_eq_false_iff_not] at hab hbc ⊢
    omega

section Order

variable {U : UuidPkg} {C : Choices} {volume path : String}
variable {versions : List XlMetaV2Version} {fis : List FileInfo}

section

variable (h : Converted U C volume path versions fis)

include h

lemma Converted.modTime : fis.map modTime = versions.map getModTimeFromVersion := by
  induction h with
  | nil => rfl
  | cons hfi _ ih => rw [map_cons, map_cons, (toFileInfo_fields hfi).1, ih]

lemma Converted.isLatest : ∀ fi ∈ fis, fi.isLatest = false := by
  induction h with
  | nil => exact fun fi hfi => absurd hfi not_mem_nil
  | cons hfi _ ih => exact forall_mem_cons.mpr ⟨(toFileInfo_fields hfi).2.2.1, ih⟩

lemma Converted.sort (C' : Choices)
    (S : DataSort) (htimes : (versions.map getModTimeFromVersion).Nodup) :
    Converted U C volume path
      (C'.slice.sort _ timeAfter versions) (S.sort _ versionsLess fis) := by
  have hlatest := h.isLatest
  have hordered := C'.slice.ordered _ _ versions timeAfter_strictWeak
  have hsorted := S.ordered _ _ fis (versionsLess_strictWeakOn hlatest)
  obtain ⟨mid, hmid, hperm⟩ := List.perm_comp_forall₂ (C'.slice.perm _ _ versions) h
  have hperm' := S.perm _ versionsLess fis
  have hmidLatest : ∀ fi ∈ mid, fi.isLatest = false := fun fi hfi =>
    hlatest fi (hperm.mem_iff.mp hfi)
  have htimesMid : (mid.map FileInfo.modTime).Pairwise fun s t => t.after s = false := by
    rw [Converted.modTime hmid]
    exact pairwise_map.mpr hordered
  have hmidSorted : mid.Pairwise fun a b => versionsLess b a = false := by
    refine (pairwise_map.mp htimesMid).imp_of_mem fun {a b} ha hb hab => ?_
    simp only [versionsLess, hmidLatest a ha, hmidLatest b hb, Bool.false_eq_true, if_false]
    exact hab
  have hinj : ∀ a ∈ fis, ∀ b ∈ fis, a.modTime = b.modTime → a = b := by
    rw [← h.modTime] at htimes
    exact fun a ha b hb => inj_on_of_nodup_map htimes ha hb
  have heq : mid = S.sort _ versionsLess fis := by
    refine List.Perm.eq_of_pairwise (fun a b ha hb hab hba => ?_) hmidSorted hsorted
      (hperm.trans hperm'.symm)
    have ha' := hperm.mem_iff.mp ha
    have hb' := hperm'.mem_iff.mp hb
    apply hinj a ha' b hb'
    simp only [versionsLess, hlatest a ha', hlatest b hb', Bool.false_eq_true, if_false, Time.after,
      decide_eq_false_iff_not] at hab hba
    exact Time.eq_of_nanos (by omega)
  exact heq ▸ hmid

end

end Order

/-! ### What depends on the place in the list -/

/-- A version as it is listed behind the newer ones. -/
def placed (n : ℕ) (newer : List Time) (fi : FileInfo) : FileInfo :=
  { fi with
    isLatest := newer.length = 0
    numVersions := n
    successorModTime := newer.getLast?.getD fi.successorModTime }

lemma mem_fillVersions {n : ℕ} {previous : Option Time} (h : fi ∈ fillVersions n previous fis) :
    ∃ newer x older, fis = newer ++ x :: older ∧ fi = { x with
        numVersions := n
        successorModTime :=
          (((newer.map modTime).getLast?).or previous).getD x.successorModTime } := by
  induction fis generalizing previous with
  | nil => exact absurd h not_mem_nil
  | cons y fis ih =>
    rw [fillVersions, mem_cons] at h
    rcases h with rfl | h
    · exact ⟨[], y, fis, rfl, rfl⟩
    · obtain ⟨newer, x, older, rfl, rfl⟩ := ih h
      refine ⟨y :: newer, x, older, rfl, ?_⟩
      rw [map_cons, getLast?_cons]
      cases (newer.map modTime).getLast? <;> rfl

/-- The listed versions: each stands behind the newer ones, and only the first is the latest. -/
lemma listVersions_eq_ok {P : Packages} {S : DataSort} {z : XlMetaV2}
    {infos : List FileInfo} {latest : Time}
    (h : z.listVersions P C S volume path = .ok (infos, latest)) :
    ∃ fis first rest, (∀ v ∈ z.versions, v.valid) ∧ Converted P.uuid C volume path z.versions fis ∧
      S.sort _ versionsLess fis = first :: rest ∧ placed fis.length [] first ∈ infos ∧
      infos.countP isLatest = 1 ∧
      ∀ fi ∈ infos, ∃ newer x older, first :: rest = newer ++ x :: older ∧
        fi = placed fis.length (newer.map modTime) x := by
  simp only [XlMetaV2.listVersions] at h
  split at h
  · cases h
  · rename_i fis hfis
    obtain ⟨hvalid, hconv⟩ := listEntries_eq_ok hfis
    have hperm := S.perm _ versionsLess fis
    have hlen := hperm.length_eq
    have hlatest : ∀ fi ∈ S.sort _ versionsLess fis, fi.isLatest = false := fun fi hfi =>
      hconv.isLatest fi (hperm.mem_iff.mp hfi)
    split at h
    · cases h
    · rename_i head tail hfill
      obtain ⟨rfl, rfl⟩ : _ = infos ∧ _ = latest := by simpa using h
      cases hsorted : S.sort _ versionsLess fis with
      | nil =>
        rw [hsorted] at hfill
        cases hfill
      | cons first rest =>
        rw [hsorted] at hfill hlatest hlen
        rw [hlen] at hfill
        obtain ⟨rfl, rfl⟩ := cons_eq_cons.mp hfill
        -- the versions behind the first keep their mark
        have htail : ∀ fi ∈ fillVersions fis.length (some first.modTime) rest,
            ∃ newer x older, rest = newer ++ x :: older ∧
              fi = placed fis.length ((first :: newer).map modTime) x := by
          intro fi hfi
          obtain ⟨newer, x, older, rfl, rfl⟩ := mem_fillVersions hfi
          refine ⟨newer, x, older, rfl, ?_⟩
          have hx : x.isLatest = false := hlatest x (by simp)
          have hlast : (newer.map modTime).getLast?.or (some first.modTime) =
              ((first :: newer).map modTime).getLast? := by
            rw [map_cons, getLast?_cons]
            cases (newer.map modTime).getLast? <;> rfl
          rw [hlast]
          cases x
          cases hx
          rfl
        refine ⟨fis, first, rest, hvalid, hconv, hsorted, mem_cons_self .., ?_, ?_⟩
        · rw [countP_cons_of_pos rfl, Nat.add_eq_right, countP_eq_zero]
          intro fi hfi
          obtain ⟨newer, x, older, -, rfl⟩ := htail fi hfi
          exact Bool.false_ne_true
        · intro fi hfi
          rcases mem_cons.mp hfi with rfl | hfi
          · exact ⟨[], first, rest, rfl, rfl⟩
          · obtain ⟨newer, x, older, rfl, rfl⟩ := htail fi hfi
            exact ⟨first :: newer, x, older, rfl, rfl⟩

/-! ### Listing and lookup -/

section Agree

variable {P : Packages} {C C' : Choices} {S : DataSort} {z : XlMetaV2} {volume path : String}

lemma Converted.split {U : UuidPkg} {versions : List XlMetaV2Version} {newer older : List FileInfo}
    {x : FileInfo} (h : Converted U C volume path versions (newer ++ x :: older)) :
    ∃ newerV v olderV, versions = newerV ++ v :: olderV ∧
      Converted U C volume path newerV newer ∧ v.toFileInfo U C volume path = .ok x := by
  induction newer generalizing versions with
  | nil =>
    obtain ⟨v, olderV, hv, -, rfl⟩ := List.forall₂_cons_right_iff.mp h
    exact ⟨[], v, olderV, rfl, .nil, hv⟩
  | cons y newer ih =>
    obtain ⟨w, rest, hw, hrest, rfl⟩ := List.forall₂_cons_right_iff.mp h
    obtain ⟨newerV, v, olderV, rfl, hnewer, hv⟩ := ih hrest
    exact ⟨w :: newerV, v, olderV, rfl, .cons hw hnewer, hv⟩

section

variable {v : XlMetaV2Version} {fi : FileInfo} (hvalid : ∀ v ∈ z.versions, v.valid = true)

include hvalid

lemma toFileInfo_of_split {newer older : List XlMetaV2Version}
    (hsplit : C.slice.sort _ timeAfter z.versions = newer ++ v :: older)
    (hid : (v.lookupID P.uuid).isSome)
    (hids : (z.versions.map (lookupID P.uuid)).Nodup)
    (hfi : v.toFileInfo P.uuid C volume path = .ok fi) :
    z.toFileInfo P C volume path (listedText (v.idText P.uuid)) =
      .ok (placed z.versions.length (newer.map getModTimeFromVersion) fi) := by
  obtain ⟨u, hu⟩ := isSome_iff_exists.mp hid
  have hall : z.versions.all valid := all_eq_true.mpr hvalid
  have hne := listedText_ne_empty (v.idText P.uuid)
  have hparse := parse_listedText hu
  -- no newer version has the same id
  have hfirst : firstHit (isFor (listedText (v.idText P.uuid)) u)
      (newer ++ v :: older) = some (newer, v, older) := by
    refine firstHit_eq_some_iff.mpr ⟨rfl, isFor_listedText hu, fun w hw hwfor => ?_⟩
    have hperm := (C.slice.perm _ timeAfter z.versions).map (lookupID P.uuid)
    rw [hsplit, map_append] at hperm
    have hdisjoint := (nodup_append.mp (hperm.nodup_iff.mpr hids)).2.2
    refine hdisjoint _ (mem_map_of_mem hw) _ (mem_cons_self ..) ?_
    rw [hu, lookupID_of_isFor hne hparse hwfor]
  simp only [XlMetaV2.toFileInfo, hparse, hall, Bool.not_true, Bool.false_eq_true, if_false,
    if_neg hne, hsplit, hfirst, hfi, Except.map]
  rw [placed, length_map, getLast?_map]
  cases newer.getLast? <;> rfl

lemma toFileInfo_latest {older : List XlMetaV2Version}
    (hsplit : C.slice.sort _ timeAfter z.versions = v :: older)
    (hfi : v.toFileInfo P.uuid C volume path = .ok fi) :
    z.toFileInfo P C volume path "" = .ok (placed z.versions.length [] fi) := by
  have hall : z.versions.all valid := all_eq_true.mpr hvalid
  have hlen := (C.slice.perm _ timeAfter z.versions).length_eq
  rw [hsplit] at hlen
  have hparse : parseVersionID P.uuid "" = some 0 := rfl
  simp only [XlMetaV2.toFileInfo, hparse, hall, Bool.not_true, Bool.false_eq_true, if_false,
    if_true, hsplit, hfi, Except.map, hlen]
  rfl

end

/-- Listing and lookup agree: in a journal whose versions have different times, different ids that a
lookup accepts and their statuses in one spelling, every listed version is found under its id as the
same `FileInfo`, and exactly one is marked as the latest, the one that a lookup without an id gives. -/
theorem listVersions_agrees {infos : List FileInfo} {latest : Time}
    (htimes : (z.versions.map getModTimeFromVersion).Nodup)
    (hid : ∀ v ∈ z.versions, (v.lookupID P.uuid).isSome = true)
    (hids : (z.versions.map (XlMetaV2Version.lookupID P.uuid)).Nodup)
    (hkeys : ∀ v ∈ z.versions, v.StatusOnce)
    (h : z.listVersions P C S volume path = .ok (infos, latest)) :
    (∀ fi ∈ infos, ∃ fi', z.toFileInfo P C' volume path (listedText fi.versionID) = .ok fi' ∧
        fi.Same fi') ∧
      infos.countP FileInfo.isLatest = 1 ∧
      ∃ fi ∈ infos, fi.isLatest = true ∧
        ∃ fi', z.toFileInfo P C' volume path "" = .ok fi' ∧ fi.Same fi' := by
  obtain ⟨fis, first, rest, hvalid, hconv, hsorted, hmem, hcount, hplaced⟩ := listVersions_eq_ok h
  have hlen := hconv.length_eq
  have hboth := hconv.sort C' S htimes
  rw [hsorted] at hboth
  -- what an entry of the sorted list is converted to, and by which entry
  have hentry : ∀ newer x older, first :: rest = newer ++ x :: older →
      ∃ newerV v olderV fi', C'.slice.sort _ timeAfter z.versions = newerV ++ v :: olderV ∧
        newer.map FileInfo.modTime = newerV.map getModTimeFromVersion ∧ v ∈ z.versions ∧
        x.versionID = v.idText P.uuid ∧ v.toFileInfo P.uuid C' volume path = .ok fi' ∧
        x.Same fi' := by
    intro newer x older hsplit
    rw [hsplit] at hboth
    obtain ⟨newerV, v, olderV, hV, hnewer, hv⟩ := Converted.split hboth
    have hvmem : v ∈ z.versions := (C'.slice.perm _ _ z.versions).mem_iff.mp (by rw [hV]; simp)
    obtain ⟨fi', hfi', hsame⟩ := toFileInfo_same C' (hkeys v hvmem) hv
    exact ⟨newerV, v, olderV, fi', hV, Converted.modTime hnewer, hvmem,
      (toFileInfo_fields hv).2.1, hfi', hsame⟩
  have hset : ∀ (times : List Time) {x fi' : FileInfo}, x.Same fi' →
      (placed fis.length times x).Same (placed z.versions.length times fi') := by
    intro times x fi' hsame
    rw [← hlen]
    exact hsame.set _ (fun _ => rfl) fun _ => rfl
  refine ⟨fun fi hfi => ?_, hcount, placed fis.length [] first, hmem, rfl, ?_⟩
  · obtain ⟨newer, x, older, hsplit, rfl⟩ := hplaced fi hfi
    obtain ⟨newerV, v, olderV, fi', hV, htimes', hvmem, htext, hfi', hsame⟩ :=
      hentry newer x older hsplit
    refine ⟨_, ?_, hset _ hsame⟩
    have hlookup := toFileInfo_of_split hvalid hV (hid v hvmem) hids hfi'
    rw [← htimes', ← htext] at hlookup
    exact hlookup
  · obtain ⟨newerV, v, olderV, fi', hV, htimes', hvmem, htext, hfi', hsame⟩ :=
      hentry [] first rest rfl
    obtain rfl := map_eq_nil_iff.mp htimes'.symm
    exact ⟨_, toFileInfo_latest hvalid hV hfi', hset [] hsame⟩

end Agree

/-! ### A journal of the three kinds of entries -/

/-- A version from before the journal, with the given id. -/
def legacyVersion (versionID : String) : XlMetaV1Object where
  version := "1.0.1"
  format := "xl"
  statSize := 1
  statModTime := ⟨1⟩
  erasure := { dataBlocks := 2, parityBlocks := 2 }
  metadata := some []
  parts := []
  versionID := versionID
  dataDir := "legacy"

/-- A delete marker over an object over the legacy version, in the order of their ids. -/
def mixedJournal : XlMetaV2 where
  versions :=
    [.legacy (legacyVersion nullVersionID),
      .delete { versionID := 2, modTime := 3, metaSys := some [] },
      .object
        { versionID := 1, dataDir := 4, erasureAlgorithm := .reedSolomon, erasureM := 2,
          erasureN := 2, erasureBlockSize := 10, erasureIndex := 1, erasureDist := [1, 2, 3, 4],
          bitrotChecksumAlgo := .highwayHash, partNumbers := [1], partETags := [""],
          partSizes := [7], partActualSizes := [7], size := 7, modTime := 2,
          metaSys := some [(transitionStatusKey, .raw "complete")],
          metaUser := some [("etag", "e")] }]

lemma mixedJournal_list :
    ∃ infos latest, mixedJournal.listVersions Packages.std Choices.std DataSort.insertion "bucket"
      "object" = .ok (infos, latest) ∧ infos.map modTime = [⟨3⟩, ⟨2⟩, ⟨1⟩] := by
  have h : (mixedJournal.listVersions Packages.std Choices.std DataSort.insertion "bucket"
      "object").map (fun r => r.1.map modTime) = .ok [⟨3⟩, ⟨2⟩, ⟨1⟩] := by
    decide +kernel
  cases hr : mixedJournal.listVersions Packages.std Choices.std DataSort.insertion "bucket"
      "object" with
  | error e =>
    rw [hr] at h
    cases h
  | ok r =>
    rw [hr] at h
    exact ⟨r.1, r.2, rfl, Except.ok.inj h⟩

/-- Three versions, listed newest first and found with the map visited the other way. -/
theorem listVersions_agrees_mixed :
    ∃ infos latest, mixedJournal.listVersions Packages.std Choices.std DataSort.insertion "bucket"
        "object" = .ok (infos, latest) ∧ infos.map FileInfo.modTime = [⟨3⟩, ⟨2⟩, ⟨1⟩] ∧
      (∀ fi ∈ infos, ∃ fi', mixedJournal.toFileInfo Packages.std ⟨.reversed, .insertion⟩ "bucket"
        "object" (listedText fi.versionID) = .ok fi' ∧ fi.Same fi') ∧
      infos.countP FileInfo.isLatest = 1 ∧
      ∃ fi ∈ infos, fi.isLatest = true ∧ ∃ fi', mixedJournal.toFileInfo Packages.std
        ⟨.reversed, .insertion⟩ "bucket" "object" "" = .ok fi' ∧ fi.Same fi' := by
  obtain ⟨infos, latest, hlist, htimes⟩ := mixedJournal_list
  exact ⟨infos, latest, hlist, htimes, listVersions_agrees (by decide +kernel) (by decide +kernel)
    (by decide +kernel) (by decide +kernel) hlist⟩

/-- An object with its transition status in two spellings. -/
def twoSpellings : XlMetaV2 where
  versions := [.object { newObject 1 4 {} with
    erasureM := 2
    modTime := 2
    metaSys := some [(transitionStatusKey, .raw "complete"),
      (reservedMetadataPrefixLower ++ "Transition-Status", .raw "pending")] }]

/-- Two journals whose listing and lookup differ. A legacy entry with an empty id is valid and listed,
and a lookup of its listed id does not find it. A transition status in two spellings is listed as one
and looked up as the other, since the map is visited in another order. -/
theorem listing_differs :
    let z : XlMetaV2 := { versions := [.legacy (legacyVersion "")] }
    ((∀ v ∈ z.versions, v.valid = true) ∧
      (z.listVersions Packages.std Choices.std DataSort.insertion "bucket" "object").map
          (fun r => r.1.map fun fi => listedText fi.versionID) = .ok [nullVersionID] ∧
      z.toFileInfo Packages.std Choices.std "bucket" "object" nullVersionID =
        .error .fileVersionNotFound) ∧
    (∀ v ∈ twoSpellings.versions, v.valid = true) ∧
    (twoSpellings.listVersions Packages.std Choices.std DataSort.insertion "bucket" "object").map
        (fun r => r.1.map FileInfo.transitionStatus) = .ok ["pending"] ∧
    (twoSpellings.toFileInfo Packages.std ⟨.reversed, .insertion⟩ "bucket" "object" "").map
        FileInfo.transitionStatus = .ok "complete" := by
  decide +kernel

end Obstor.Meta
