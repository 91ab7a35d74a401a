import Obstor.Meta.FileInfo

/-!
# The part list of a multipart upload

`FileInfo.AddObjectPart` and `objectPartIndex` (`cmd/erasure-metadata.go`), and the loop of
`CompleteMultipartUpload` (`cmd/erasure-multipart.go`) that checks the parts a client lists, and
`ListObjectParts`, which lists the parts of an upload page by page.

`PartTable`: after any uploads the part list has one entry for each part number, in the order of the
numbers, with the values of the last upload of that part.

`PartTable.addObjectPart` is the step for one upload. `listsAfter_iff` says when a page begins
behind its marker: `listObjectParts` starts at the front if the marker is no part of the upload
(`lists_part_before_marker`).
-/

namespace Obstor.Multipart

open Go Meta List Option Function ObjectPartInfo

/-- `objectPartIndex`; `none` is the index `-1`. -/
def objectPartIndex (parts : List ObjectPartInfo) (partNumber : ℤ) : Option ℕ :=
  parts.findIdx? fun part => partNumber = part.number

/-- `AddObjectPart`: a part that is there is replaced, a new one is put in its place. -/
def addObjectPart (parts : List ObjectPartInfo) (partInfo : ObjectPartInfo) : List ObjectPartInfo :=
  match objectPartIndex parts partInfo.number with
  | some i => parts.set i partInfo
  | none => (parts ++ [partInfo]).insertionSort fun a b => a.number ≤ b.number

section Index

variable {parts : List ObjectPartInfo}

lemma objectPartIndex_eq_none {n : ℤ} :
    objectPartIndex parts n = none ↔ ∀ part ∈ parts, part.number ≠ n := by
  unfold objectPartIndex
  rw [findIdx?_eq_none_iff]
  constructor
  · intro h part hpart heq
    simpa [heq] using h part hpart
  · intro h part hpart
    exact decide_eq_false fun heq => h part hpart heq.symm

lemma objectPartIndex_eq_some {n : ℤ} {i : ℕ} (h : objectPartIndex parts n = some i) :
    ∃ part, parts[i]? = some part ∧ part.number = n := by
  obtain ⟨hi, hp, -⟩ := findIdx?_eq_some_iff_getElem.mp h
  exact ⟨parts[i], getElem?_eq_getElem hi, (of_decide_eq_true hp).symm⟩

end Index

/-! ### Completion -/

/-- A part as the client lists it. -/
structure CompletePart where
  partNumber : ℤ
  etag : String
  deriving DecidableEq

/-- The errors of the completion about the parts it is given.
Source: `cmd/object-api-errors.go` -/
inductive PartErr
  | invalidPart (partNumber : ℤ) (expETag gotETag : String)
  | partTooSmall (partNumber partSize : ℤ) (partETag : String)
  deriving DecidableEq

/-- `isMinAllowedPartSize`: five MiB.
Source: `cmd/utils.go` -/
def isMinAllowedPartSize (size : ℤ) : Bool := size ≥ 5 * 1024 * 1024

/-- The parts of the completed object and their sizes. -/
structure CompletedParts where
  parts : List ObjectPartInfo := []
  objectSize : ℤ := 0
  objectActualSize : ℤ := 0
  deriving DecidableEq

/-- The loop over the parts of the request. `canonicalizeETag` strips quotes from an entity tag. -/
def validateParts (canonicalizeETag : String → String) (current : List ObjectPartInfo) :
    List CompletePart → CompletedParts → Except PartErr CompletedParts
  | [], acc => .ok acc
  | part :: rest, acc =>
    match (objectPartIndex current part.partNumber).bind (current[·]?) with
    | none => .error (.invalidPart part.partNumber "" part.etag)
    | some cur =>
      let etag := canonicalizeETag part.etag
      if cur.etag ≠ etag then .error (.invalidPart part.partNumber cur.etag etag)
      -- the last part may be small
      else if !rest.isEmpty && !isMinAllowedPartSize cur.actualSize then
        .error (.partTooSmall part.partNumber cur.actualSize etag)
      else
        validateParts canonicalizeETag current rest
          { parts := acc.parts ++
              [{ number := part.partNumber, size := cur.size, actualSize := cur.actualSize }]
            objectSize := acc.objectSize + cur.size
            objectActualSize := acc.objectActualSize + cur.actualSize }

lemma validateParts_ok {canonicalizeETag : String → String} {current : List ObjectPartInfo}
    {parts : List CompletePart} {acc fi : CompletedParts}
    (h : validateParts canonicalizeETag current parts acc = .ok fi) :
    ∃ picked : List ObjectPartInfo, (∀ part ∈ picked, part ∈ current) ∧
      picked.map number = parts.map CompletePart.partNumber ∧
      fi.parts = acc.parts ++ picked.map (fun part => { part with etag := "" }) ∧
      fi.objectSize = acc.objectSize + (picked.map size).sum := by
  induction parts generalizing acc with
  | nil =>
    cases h
    exact ⟨[], by simp⟩
  | cons part rest ih =>
    rw [validateParts] at h
    cases hidx : objectPartIndex current part.partNumber with
    | none => simp [hidx] at h
    | some i =>
      obtain ⟨cur, hcur, hnumber⟩ := objectPartIndex_eq_some hidx
      simp only [hidx, bind_some, hcur] at h
      split at h
      · cases h
      split at h
      · cases h
      obtain ⟨picked, hmem, hnumbers, hparts, hsize⟩ := ih h
      refine ⟨cur :: picked, ?_, ?_, ?_, ?_⟩
      · intro p hp
        rcases mem_cons.mp hp with rfl | hp
        · exact mem_of_getElem? hcur
        · exact hmem p hp
      · rw [map_cons, map_cons, hnumbers, hnumber]
      · rw [hparts, ← hnumber]
        simp
      · rw [hsize, map_cons, sum_cons, add_assoc]

/-! ### The part list after uploads -/

section PartTable

variable {parts : List ObjectPartInfo} {p : ObjectPartInfo}

/-- What is known of the part list: the entry of a part number, if the part was uploaded. -/
structure PartTable (entry : ℤ → Option ObjectPartInfo) (parts : List ObjectPartInfo) : Prop where
  sorted : parts.Pairwise fun a b => a.number < b.number
  mem : ∀ part, part ∈ parts ↔ entry part.number = some part
  number : ∀ n part, entry n = some part → part.number = n

lemma eq_of_number (h : parts.Pairwise fun a b => a.number < b.number) {a b : ObjectPartInfo}
    (ha : a ∈ parts) (hb : b ∈ parts) (heq : a.number = b.number) : a = b := by
  have hnodup : (parts.map number).Nodup :=
    pairwise_map.mpr (h.imp fun hlt => hlt.ne)
  exact inj_on_of_nodup_map hnodup ha hb heq

lemma numbers_insertionSort {parts : List ObjectPartInfo}
    (hnodup : (parts.map number).Nodup) :
    (parts.insertionSort fun a b => a.number ≤ b.number).Pairwise
      fun a b => a.number < b.number := by
  have hmap : (parts.insertionSort fun a b => a.number ≤ b.number).map number =
      (parts.map number).insertionSort (· ≤ ·) :=
    map_insertionSort _ _ _ _ fun a _ b _ => Iff.rfl
  have hle := (sortedLE_insertionSort (l := parts.map number)).pairwise
  have hne := (perm_insertionSort (· ≤ ·) _).nodup_iff.mpr
    hnodup
  rw [← hmap] at hle hne
  refine ((pairwise_map.mp hle).and (pairwise_map.mp hne)).imp ?_
  intro a b hab
  exact lt_of_le_of_ne hab.1 hab.2

lemma PartTable.addObjectPart {entry : ℤ → Option ObjectPartInfo} (h : PartTable entry parts)
    (p : ObjectPartInfo) :
    PartTable (Function.update entry p.number (some p)) (addObjectPart parts p) := by
  have hnumber' : ∀ n part, Function.update entry p.number (some p) n = some part →
      part.number = n := by
    intro n part hpart
    by_cases heq : n = p.number
    · rw [heq, update_self, some_inj] at hpart
      rw [heq, ← hpart]
    · rw [update_of_ne heq] at hpart
      exact h.number n part hpart
  unfold Multipart.addObjectPart
  cases hidx : objectPartIndex parts p.number with
  | none =>
    have hnew := objectPartIndex_eq_none.mp hidx
    have hnodup : ((parts ++ [p]).map ObjectPartInfo.number).Nodup := by
      rw [map_append, nodup_append]
      refine ⟨pairwise_map.mpr (h.sorted.imp fun hlt => hlt.ne), nodup_singleton _, ?_⟩
      intro n hn m hm
      obtain ⟨part, hpart, rfl⟩ := mem_map.mp hn
      rw [mem_singleton.mp hm]
      exact hnew part hpart
    refine ⟨numbers_insertionSort hnodup, fun part => ?_, hnumber'⟩
    rw [mem_insertionSort, mem_append, mem_singleton]
    by_cases heq : part.number = p.number
    · rw [heq, update_self, some_inj]
      constructor
      · rintro (hold | rfl)
        · exact absurd heq (hnew part hold)
        · rfl
      · rintro rfl
        exact Or.inr rfl
    · rw [update_of_ne heq, ← h.mem part]
      refine or_iff_left fun hp => heq ?_
      rw [hp]
  | some i =>
    obtain ⟨old, hold, hnumber⟩ := objectPartIndex_eq_some hidx
    obtain ⟨hi, hget⟩ := List.getElem?_eq_some_iff.mp hold
    have hnumbers :
        (parts.set i p).map ObjectPartInfo.number = parts.map ObjectPartInfo.number := by
      rw [map_set, ← hnumber, ← hget, ← map_set, set_getElem_self]
    have hsorted : (parts.set i p).Pairwise fun a b => a.number < b.number := by
      have hmap : (parts.map ObjectPartInfo.number).Pairwise (· < ·) :=
        pairwise_map.mpr h.sorted
      rw [← hnumbers] at hmap
      exact pairwise_map.mp hmap
    have hp : p ∈ parts.set i p := mem_set hi p
    refine ⟨hsorted, fun part => ?_, hnumber'⟩
    by_cases heq : part.number = p.number
    · rw [heq, update_self, some_inj]
      constructor
      · intro hpart
        exact eq_of_number hsorted hp hpart heq.symm
      · rintro rfl
        exact hp
    · rw [update_of_ne heq, ← h.mem part]
      constructor
      · intro hpart
        refine (mem_or_eq_of_mem_set hpart).resolve_right fun hpart => heq ?_
        rw [hpart]
      · intro hpart
        obtain ⟨j, hj, rfl⟩ := mem_iff_getElem.mp hpart
        have hij : i ≠ j := by
          rintro rfl
          rw [hget] at heq
          exact heq hnumber
        refine mem_iff_getElem.mpr ⟨j, by simpa using hj, ?_⟩
        rw [getElem_set_ne hij]

lemma PartTable.mem_of_mem_addObjectPart {entry : ℤ → Option ObjectPartInfo}
    (h : PartTable entry parts) {part : ObjectPartInfo}
    (hpart : part ∈ Multipart.addObjectPart parts p) : part = p ∨ part ∈ parts := by
  have hentry := ((h.addObjectPart p).mem part).mp hpart
  by_cases heq : part.number = p.number
  · rw [heq, update_self] at hentry
    exact Or.inl (Option.some.inj hentry).symm
  · rw [update_of_ne heq] at hentry
    exact Or.inr ((h.mem part).mpr hentry)

end PartTable

/-! ### Listing the parts -/

structure PartInfo where
  partNumber : ℤ
  etag : String
  lastModified : Time
  size : ℤ
  actualSize : ℤ
  deriving DecidableEq

/-- Source: `cmd/api-response.go` -/
def maxPartsList : ℤ := 10000

/-- What `ListObjectParts` returns, besides the names it was asked for. -/
structure ListPartsInfo where
  maxParts : ℤ
  partNumberMarker : ℤ
  userDefined : Option (List (String × String))
  parts : List PartInfo := []
  isTruncated : Bool := false
  nextPartNumberMarker : ℤ := 0

def partInfo (fi : FileInfo) (part : ObjectPartInfo) : PartInfo :=
  ⟨part.number, part.etag, fi.modTime, part.size, 0⟩

/-- `ListObjectParts`, when `fi` is the metadata of the upload. The loop counts down to zero, so a
negative number of parts does not end it. -/
def listObjectParts (fi : FileInfo) (partNumberMarker maxParts : ℤ) : ListPartsInfo :=
  let result : ListPartsInfo := { maxParts, partNumberMarker, userDefined := fi.metadata }
  if fi.parts.length = 0 ∨ maxParts = 0 then result
  else
    let parts := match objectPartIndex fi.parts partNumberMarker with
      | some partIdx => fi.parts.drop (partIdx + 1)
      | none => fi.parts
    let count := min maxParts maxPartsList
    let listed := if count < 0 then parts else parts.take count.toNat
    let result := { result with parts := listed.map (partInfo fi) }
    if parts.length > listed.length then
      { result with isTruncated := true, nextPartNumberMarker := (listed.getLastD {}).number }
    else result

/-- The page has the first parts behind the marker, and is truncated if there are more. -/
def ListsAfter (fi : FileInfo) (marker maxParts : ℤ) : Prop :=
  let r := listObjectParts fi marker maxParts
  let later := fi.parts.filter (marker < ·.number)
  let n := (min maxParts maxPartsList).toNat
  r.parts = (later.take n).map (partInfo fi) ∧ (r.isTruncated = true ↔ n < later.length)

section Listing

variable {maxParts : ℤ} (hmax : 1 ≤ maxParts)

include hmax

lemma listObjectParts_eq (fi : FileInfo) (marker : ℤ) {rest : List ObjectPartInfo}
    (hrest : rest = match objectPartIndex fi.parts marker with
      | some i => fi.parts.drop (i + 1)
      | none => fi.parts) :
    let r := listObjectParts fi marker maxParts
    let n := (min maxParts maxPartsList).toNat
    r.parts = (rest.take n).map (partInfo fi) ∧ (r.isTruncated = true ↔ n < rest.length) := by
  intro r n
  have hr : r = listObjectParts fi marker maxParts := rfl
  have hcount : ¬ min maxParts maxPartsList < 0 := by
    unfold maxPartsList
    omega
  by_cases hnil : fi.parts = []
  · rw [listObjectParts] at hr
    simp [hrest, hr, hnil, objectPartIndex]
  · rw [listObjectParts, if_neg (by simp [hnil]; omega), ← hrest] at hr
    simp only [if_neg hcount, length_take] at hr
    rw [hr]
    split_ifs with htruncated
    · exact ⟨rfl, iff_of_true rfl (by omega)⟩
    · exact ⟨rfl, iff_of_false (by simp) (by omega)⟩

/-- Parts are listed by their numbers exactly if the marker is the number of a part, or smaller than
all of them. -/
theorem listsAfter_iff {fi : FileInfo} {marker : ℤ}
    (hsorted : fi.parts.Pairwise fun a b => a.number < b.number) :
    ListsAfter fi marker maxParts ↔
      (∃ p ∈ fi.parts, p.number = marker) ∨ ∀ p ∈ fi.parts, marker < p.number := by
  obtain ⟨hparts, htruncated⟩ := listObjectParts_eq hmax fi marker rfl
  rw [ListsAfter, hparts, htruncated]
  cases hidx : objectPartIndex fi.parts marker with
  | some i =>
    obtain ⟨p, hp, rfl⟩ := objectPartIndex_eq_some hidx
    have hsplit : fi.parts = fi.parts.take i ++ p :: fi.parts.drop (i + 1) := by
      obtain ⟨hi, rfl⟩ := List.getElem?_eq_some_iff.mp hp
      rw [← drop_eq_getElem_cons hi, take_append_drop]
    refine iff_of_true ?_ (.inl ⟨p, mem_of_getElem? hp, rfl⟩)
    have hlater : fi.parts.filter (p.number < ·.number) = fi.parts.drop (i + 1) := by
      rw [hsplit] at hsorted
      obtain ⟨-, hbehind, hbefore⟩ := pairwise_append.mp hsorted
      conv_lhs => rw [hsplit]
      rw [filter_append, filter_cons_of_neg (by simp),
        filter_eq_nil_iff.mpr fun a ha => by simpa using (hbefore a ha p mem_cons_self).le,
        filter_eq_self.mpr fun a ha => decide_eq_true ((pairwise_cons.mp hbehind).1 a ha),
        nil_append]
    rw [hlater]
    exact ⟨rfl, Iff.rfl⟩
  | none =>
    have hother : ¬ ∃ p ∈ fi.parts, p.number = marker := by
      rintro ⟨p, hp, heq⟩
      exact objectPartIndex_eq_none.mp hidx p hp heq
    rw [or_iff_right hother]
    constructor
    · rintro ⟨hlist, -⟩ p hp
      -- the first part is listed, so it is behind the marker
      obtain ⟨a, rest, ha⟩ := exists_cons_of_ne_nil (ne_nil_of_mem hp)
      obtain ⟨n, hn⟩ : ∃ n, (min maxParts maxPartsList).toNat = n + 1 :=
        ⟨(min maxParts maxPartsList).toNat - 1, by unfold maxPartsList; omega⟩
      have hlisted : partInfo fi a ∈ (fi.parts.take (n + 1)).map (partInfo fi) := by
        rw [ha]
        exact mem_cons_self
      rw [← hn, hlist] at hlisted
      obtain ⟨b, hb, hinfo⟩ := mem_map.mp hlisted
      have hlt : marker < b.number := of_decide_eq_true (mem_filter.mp (mem_of_mem_take hb)).2
      rw [show b.number = a.number from congrArg PartInfo.partNumber hinfo] at hlt
      rw [ha, pairwise_cons] at hsorted
      rcases mem_cons.mp (ha ▸ hp) with rfl | hp
      · exact hlt
      · exact hlt.trans (hsorted.1 p hp)
    · intro hall
      rw [filter_eq_self.mpr fun p hp => decide_eq_true (hall p hp)]
      exact ⟨rfl, Iff.rfl⟩

end Listing

/-- The parts 1 and 3 of an upload. -/
def twoParts : FileInfo := { parts := [{ number := 1 }, { number := 3 }] }

/-- The page behind the marker of the first part begins with the second one. -/
theorem listsAfter_iff_first : ListsAfter twoParts 1 1 :=
  (listsAfter_iff (by decide) (by decide)).mpr (by decide)

/-- Behind the marker 2, which no part has, part 1 is listed. -/
theorem lists_part_before_marker :
    (listObjectParts twoParts 2 1000).parts = twoParts.parts.map (partInfo twoParts) ∧
      ¬ ListsAfter twoParts 2 1000 :=
  ⟨rfl, fun h => absurd h.1 (by decide)⟩

end Obstor.Multipart
