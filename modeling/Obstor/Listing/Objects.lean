import Obstor.Metacache.Blocks
import Obstor.Metacache.Walk

/-!
# Listing objects page by page

`erasureServerPools.ListObjects` (`cmd/erasure-server-pool.go`) asks `listPath` for the entries of one
page, and turns them into objects and common prefixes with `fileInfos` (`cmd/metacache-entries.go`). The
marker of the next page is the name of the last item, with the id of the listing in brackets behind it
(`cmd/metacache-marker.go`). The name is not escaped: without an id, a name that itself has such a tag
is cut off at its last bracket (`parseMarker_lt`), or cannot be read at all.

`listPath` is given by what it answers: of all entries, sorted by name, the first `Limit` that are not
before the marker, have the prefix, and pass the filters of the options, and `io.EOF` if there are fewer.
A listing that just fills `Limit` answers `io.EOF` when it is made for the request (`gatherResults`), and
nil when it is recursive and read from a cache (`readN`); `ends` says which. For `ListObjects` it is
assumed that `io.EOF` comes exactly when there are no more entries.
-/

namespace Obstor.Listing

open Go List

def openBracket : UInt8 := 91

def closeBracket : UInt8 := 93

/-- `[obstor_cache:v1`, with `markerTagVersion`. -/
def markerTag : Bytes := [91, 111, 98, 115, 116, 111, 114, 95, 99, 97, 99, 104, 101, 58, 118, 49]

/-- `,id:`. -/
def idTag : Bytes := [44, 105, 100, 58]

def tagID (uuid : Bytes) : List Bytes → Bytes
  | [] => uuid
  | tag :: tags =>
    match tag.splitOn 58 with
    | key :: value :: _ =>
      -- `obstor_cache` and `id`
      if key = [111, 98, 115, 116, 111, 114, 95, 99, 97, 99, 104, 101] then
        if value ≠ [118, 49] then uuid else tagID uuid tags
      else if key = [105, 100] then tagID value tags
      else tagID uuid tags
    | _ => tagID uuid tags

/-- `parseMarker`: the name and the id. Where there is no closing bracket behind the last opening one,
the slice expression panics. -/
def parseMarker (s : Bytes) : Option (Bytes × Bytes) :=
  if !contains s markerTag then some (s, [])
  else
    match lastIndexByte openBracket s, lastIndexByte closeBracket s with
    | some start, some stop =>
      if stop < start then none
      else
        let tag := trim ((s.take stop).drop start) [openBracket, closeBracket]
        some (s.take start, tagID [] (tag.splitOn 44))
    | _, _ => none

def encodeMarker (marker uuid : Bytes) : Bytes :=
  if uuid = [] then marker else marker ++ (markerTag ++ (idTag ++ uuid ++ [closeBracket]))

lemma encodeMarker_ne_nil {marker : Bytes} (h : marker ≠ []) (uuid : Bytes) :
    encodeMarker marker uuid ≠ [] := by
  rw [encodeMarker]
  split_ifs
  · exact h
  · exact append_ne_nil_of_left_ne_nil h _

/-- An id that `encodeMarker` may be given. -/
structure IsListID (uuid : Bytes) : Prop where
  ne_nil : uuid ≠ []
  no_bracket : openBracket ∉ uuid

lemma parseMarker_of_not_contains {s : Bytes} (h : contains s markerTag = false) :
    parseMarker s = some (s, []) := by
  rw [parseMarker, h, Bool.not_false, if_pos rfl]

lemma parseMarker_encodeMarker {uuid : Bytes} (h : IsListID uuid) (marker : Bytes) :
    ∃ id, parseMarker (encodeMarker marker uuid) = some (marker, id) := by
  rw [encodeMarker, if_neg h.ne_nil, parseMarker, contains_append]
  have hstart : lastIndexByte openBracket (marker ++ (markerTag ++ (idTag ++ uuid ++ [closeBracket]))) =
      some marker.length := by
    refine lastIndexByte_append (b := markerTag.tail ++ (idTag ++ uuid ++ [closeBracket])) ?_ marker
    simp only [mem_append, not_or]
    exact ⟨by decide, ⟨by decide, h.no_bracket⟩, by decide⟩
  have hstop : lastIndexByte closeBracket (marker ++ (markerTag ++ (idTag ++ uuid ++ [closeBracket]))) =
      some (marker ++ (markerTag ++ (idTag ++ uuid))).length := by
    rw [← lastIndexByte_append (not_mem_nil (a := closeBracket)) _]
    simp
  have hle : ¬ (marker ++ (markerTag ++ (idTag ++ uuid))).length < marker.length := by
    rw [length_append]
    omega
  simp only [hstart, hstop, if_neg hle, take_left]
  exact ⟨_, rfl⟩

lemma parseMarker_lt {s marker id : Bytes} (htag : contains s markerTag = true)
    (h : parseMarker s = some (marker, id)) : marker < s := by
  rw [parseMarker, htag, Bool.not_true, if_neg Bool.false_ne_true] at h
  cases hstart : lastIndexByte openBracket s with
  | none =>
    rw [hstart] at h
    cases h
  | some start =>
    cases hstop : lastIndexByte closeBracket s with
    | none =>
      rw [hstart, hstop] at h
      cases h
    | some stop =>
      rw [hstart, hstop] at h
      simp only at h
      split_ifs at h
      cases h
      obtain ⟨b, hs, -⟩ := lastIndexByte_eq_some hstart
      refine lt_of_le_of_ne (Lib.le_of_isPrefix (List.take_prefix start s)) fun heq => ?_
      rw [heq] at hs
      exact cons_ne_nil _ _ (self_eq_append_right.mp hs)

lemma parseMarker_le {s marker id : Bytes} (h : parseMarker s = some (marker, id)) : marker ≤ s := by
  cases htag : contains s markerTag with
  | true => exact (parseMarker_lt htag h).le
  | false =>
    rw [parseMarker_of_not_contains htag] at h
    cases h
    exact le_refl _

open Go Meta Metacache

def maxObjectList : ℤ := 4500

def maxKeysPlusOne (maxKeys : ℤ) (addOne : Bool) : ℤ :=
  (if maxKeys < 0 ∨ maxKeys > maxObjectList then maxObjectList else maxKeys) + if addOne then 1 else 0

/-- `listPath`: how the options are completed from the separator. -/
def scanOptions (o : ListPathOptions) : ListPathOptions :=
  let plain : Bool := (o.separator = [Path.slash] ∨ o.separator = []) ∧ !o.recursive
  { o with
    includeDirectories := o.separator = [Path.slash]
    recursive := if plain then o.separator ≠ [Path.slash] else true
    separator := if plain then [Path.slash] else o.separator }

/-- `metaCacheEntriesSorted` with the error of `listPath`. -/
structure SortedEntries where
  o : List MetaCacheEntry
  listID : Bytes
  err : Option StreamErr

section ListPath

variable (P : Packages) (C : Choices) (K : Marshaller)

/-- `listPath`, on all entries that there are. `id` is the id of the listing that is used; the result of
a small listing is discarded, and has none. `ends` is whether a listing that just fills `Limit` answers
`io.EOF`. -/
def listPath (all : List MetaCacheEntry) (id : Bytes) (ends : Bool) (o : ListPathOptions) :
    Option SortedEntries :=
  match parseMarker o.marker with
  | none => none
  | some (marker, uuid) =>
    let o : ListPathOptions := { scanOptions o with marker := marker }
    let wanted := o.wanted P K all
    let discardResult := o.limit < (10 : ℤ) && marker = [] && uuid = [] && o.recursive
    some { o := wanted.take o.limit.toNat
           listID := if discardResult then [] else id
           err := if (wanted.length : ℤ) < o.limit ∨ (wanted.length : ℤ) = o.limit ∧ ends then some .eof
             else none }

def forwardPast (es : List MetaCacheEntry) (s : Bytes) : List MetaCacheEntry :=
  if s = [] then es else es.dropWhile fun e => e.name ≤ s

/-- `ObjectInfo`, of which the listing uses the first fields. -/
structure ObjectInfo where
  bucket : String
  name : Bytes
  isDir : Bool
  modTime : Time := .zero
  versionID : String := ""
  isLatest : Bool := false
  deleteMarker : Bool := false
  size : ℤ := 0
  legacy : Bool := false
  numVersions : ℤ := 0
  successorModTime : Time := .zero
  deriving DecidableEq

/-- `ToObjectInfo`; `versioned` is whether versioning is enabled or suspended for the bucket. -/
def toObjectInfo (versioned : Bool) (fi : FileInfo) (bucket : String) (object : Bytes) : ObjectInfo where
  bucket := bucket
  name := decodeDirObject object
  isDir := Path.endsInSlash (decodeDirObject object)
  modTime := fi.modTime
  versionID := if versioned && fi.versionID = "" then nullVersionID else fi.versionID
  isLatest := fi.isLatest
  deleteMarker := fi.deleted
  size := fi.size
  legacy := fi.xlv1
  numVersions := fi.numVersions
  successorModTime := fi.successorModTime

def currPrefix (pre delimiter name : Bytes) : Option Bytes :=
  if delimiter = [] then none
  else (index (trimPrefix name pre) delimiter).map fun idx =>
    name.take (pre.length + idx + delimiter.length)

def prefixInfo (bucket : String) (name : Bytes) : ObjectInfo := { bucket := bucket, name := name, isDir := true }

def fileInfosLoop (versioned : Bool) (bucket : String) (pre delimiter : Bytes) :
    Bytes → List MetaCacheEntry → List ObjectInfo
  | _, [] => []
  | prevPrefix, e :: es =>
    match currPrefix pre delimiter e.name with
    | some c =>
      if c = prevPrefix then fileInfosLoop versioned bucket pre delimiter prevPrefix es
      else prefixInfo bucket c :: fileInfosLoop versioned bucket pre delimiter c es
    | none =>
      if e.isObject then
        match e.fileInfo P C K bucket with
        | .ok fi =>
          toObjectInfo versioned fi bucket e.name ::
            fileInfosLoop versioned bucket pre delimiter prevPrefix es
        | .error _ => fileInfosLoop versioned bucket pre delimiter prevPrefix es
      else fileInfosLoop versioned bucket pre delimiter prevPrefix es

def fileInfos (versioned : Bool) (bucket : String) (pre delimiter : Bytes)
    (es : List MetaCacheEntry) : List ObjectInfo :=
  fileInfosLoop P C K versioned bucket pre delimiter [] es

structure ListObjectsInfo where
  isTruncated : Bool
  nextMarker : Bytes
  objects : List ObjectInfo
  prefixes : List Bytes

/-- A request to list objects, apart from the marker. -/
structure ListRequest where
  bucket : String
  versioned : Bool
  pre : Bytes
  delimiter : Bytes
  maxKeys : ℤ

namespace ListRequest

def isPrefixItem (q : ListRequest) (obj : ObjectInfo) : Bool :=
  obj.isDir && obj.modTime = .zero && q.delimiter ≠ []

/-- The options that `ListObjects` calls `listPath` with. -/
def options (q : ListRequest) (inclDeleted : Bool) (marker : Bytes) : ListPathOptions where
  pre := q.pre
  marker := marker
  limit := maxKeysPlusOne q.maxKeys (marker ≠ [])
  recursive := false
  separator := q.delimiter
  includeDirectories := false
  inclDeleted := inclDeleted

/-- How `ListObjects` answers with the items of a page. -/
def respond (q : ListRequest) (listID : Bytes) (err : Option StreamErr) (objects : List ObjectInfo) :
    ListObjectsInfo :=
  let cut : Bool := q.maxKeys > 0 ∧ (objects.length : ℤ) > q.maxKeys
  let isTruncated := (err = none && objects ≠ []) || cut
  let objects := if cut then objects.take q.maxKeys.toNat else objects
  { isTruncated := isTruncated
    nextMarker := if isTruncated then encodeMarker ((objects.getLast?.map ObjectInfo.name).getD []) listID
      else []
    objects := objects.filter fun obj => !q.isPrefixItem obj
    prefixes := (objects.filter q.isPrefixItem).map ObjectInfo.name }

def listObjects (q : ListRequest) (all : List MetaCacheEntry) (id marker : Bytes) :
    Option ListObjectsInfo :=
  match listPath P K all id true (q.options false marker) with
  | none => none
  | some merged =>
    match parseMarker marker with
    | none => none
    | some (marker, _) =>
      let objects := fileInfos P C K q.versioned q.bucket q.pre q.delimiter (forwardPast merged.o marker)
      some (q.respond merged.listID merged.err objects)

/-- The pages that are listed by following `NextMarker`, the first of them with this number; `ids` are
the ids of the listings that `listPath` uses. -/
def pages (q : ListRequest) (all : List MetaCacheEntry) (ids : ℕ → Bytes) :
    ℕ → ℕ → Bytes → Option (List ListObjectsInfo)
  | 0, _, _ => none
  | fuel + 1, k, marker =>
    match q.listObjects P C K all (ids k) marker with
    | none => none
    | some page =>
      if page.isTruncated then (pages q all ids fuel (k + 1) page.nextMarker).map (page :: ·)
      else some [page]

end ListRequest

end ListPath

end Obstor.Listing
