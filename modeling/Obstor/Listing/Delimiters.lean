import Obstor.Listing.Pages
import Obstor.Meta.ListVersions

/-!
# Listings with and without a delimiter

With the delimiter `/` a page can always be followed by the next, unless it has nothing but the directory
that is listed. Without a delimiter it can, unless a name looks like a marker with a tag. With any other
delimiter the scan is recursive, and a page that ends within a common prefix leads back to its first name.

`pages_complete_iff` and `pages_once_iff` are `pages_iff` of `Listing/Pages.lean`, with the
condition `ResumesAt` worked out for each delimiter (`resumes_iff_of_slash`, `resumes_iff_of_nil`,
`resumes_iff_of_other`).
-/

namespace Obstor.Listing

open Go Meta Metacache List ListRequest MetaCacheEntry

namespace ListRequest

variable {P : Packages} {C : Choices} {K : Marshaller} {q : ListRequest} {all : List MetaCacheEntry}

variable {e : MetaCacheEntry}

lemma isObject_of_mem (hdelimiter : q.delimiter ≠ [Path.slash])
    (he : e ∈ q.entries P K all) : e.isObject := by
  have hpasses := passes_of_mem he
  have hshown : (scanOptions (q.options false [])).includeDirectories = false :=
    decide_eq_false hdelimiter
  rw [ListPathOptions.passes, hshown, Bool.false_or, Bool.and_eq_true, Bool.and_eq_true,
    isDir] at hpasses
  have hlen := hpasses.1.1
  simp only [Bool.not_eq_eq_eq_not, Bool.not_true, decide_eq_false_iff_not] at hlen
  exact decide_eq_true (pos_of_ne_zero hlen)

lemma isInDir_of_mem (hdelimiter : q.delimiter = [Path.slash])
    (he : e ∈ q.entries P K all) : e.isInDir q.pre [Path.slash] := by
  have hpasses := passes_of_mem he
  have hrecursive : (scanOptions (q.options false [])).recursive = false := by
    simp [scanOptions, options, hdelimiter]
  have hseparator : (scanOptions (q.options false [])).separator = [Path.slash] := by
    simp [scanOptions, options, hdelimiter]
  rw [ListPathOptions.passes, hrecursive, hseparator, Bool.and_eq_true, Bool.and_eq_true] at hpasses
  exact hpasses.1.2

lemma commonOf_slash (hdelimiter : q.delimiter = [Path.slash])
    (he : e ∈ q.entries P K all) {c : Bytes} (hc : q.commonOf e = some c) :
    c = e.name := by
  obtain ⟨rest, hrest⟩ := pre_isPrefix_of_mem he
  have hdir := isInDir_of_mem hdelimiter he
  rw [commonOf, ← hrest] at hc
  obtain ⟨-, i, hindex, rfl⟩ := currPrefix_append.mp hc
  rw [hdelimiter] at hindex ⊢
  have hend : (i : ℤ) = rest.length - 1 := by
    rw [isInDir, ← hrest, trimPrefix_append] at hdir
    simp only at hdir
    split_ifs at hdir with hpre hlen
    · rw [length_eq_zero_iff.mp hpre, nil_append, hindex] at hdir
      exact of_decide_eq_true hdir
    · rw [hindex] at hdir
      exact of_decide_eq_true hdir
  rw [← hrest, take_of_length_le (by rw [length_singleton]; omega)]

lemma size_eq_one_iff (hkeys : 1 ≤ q.maxKeys) : q.size = 1 ↔ q.maxKeys = 1 := by
  have hsize := size_eq hkeys
  rw [maxObjectList] at hsize
  omega

lemma size_of_lt_ten (hkeys : 1 ≤ q.maxKeys) : q.size < 10 ↔ q.maxKeys < 10 := by
  have hsize := size_eq hkeys
  rw [maxObjectList] at hsize
  omega

lemma commonOf_of_delimiter_nil (h : q.delimiter = []) (e : MetaCacheEntry) : q.commonOf e = none := by
  rw [commonOf, currPrefix, if_pos h]

lemma not_hasItem_of_isDir (hdir : e.isDir) (hname : e.name = q.pre) : ¬ q.HasItem e := by
  have hobject : e.isObject = false := by
    rw [isDir] at hdir
    rw [isObject]
    simpa using hdir
  have hcommon : q.commonOf e = none := by
    rw [Option.eq_none_iff_forall_ne_some]
    intro c hc
    have hc' : currPrefix q.pre q.delimiter (q.pre ++ []) = some c := by
      rw [append_nil, ← hc, commonOf, hname]
    obtain ⟨hne, i, hindex, -⟩ := currPrefix_append.mp hc'
    obtain ⟨-, hat, -⟩ := index_eq_some_iff.mp hindex
    rw [drop_nil, prefix_nil] at hat
    exact hne hat
  rw [HasItem, hobject, hcommon]
  simp

lemma resumes_iff_of_nil (hkeys : 1 ≤ q.maxKeys) (hdelimiter : q.delimiter = []) :
    q.Resumes P K all 0 ↔ (q.maxKeys < 10 → ∀ e e', (q.entries P K all)[q.size - 1]? = some e →
      (q.entries P K all)[q.size]? = some e' → contains e.name markerTag = false) := by
  have hdiscards : q.discards = decide (q.size < 10) := by
    rw [discards, hdelimiter]
    simp
  constructor
  · intro h hlt e e' he he'
    refine (h 0 e e' (by simpa using he) (by simpa using he')).tag (by simp) ?_
    rw [hdiscards]
    exact decide_eq_true ((size_of_lt_ten hkeys).mpr hlt)
  · intro h j e e' he he'
    refine ⟨.inl (isObject_of_mem (by rw [hdelimiter]; decide) (mem_of_getElem? he)), ?_, ?_⟩
    · intro c hc
      rw [commonOf_of_delimiter_nil hdelimiter] at hc
      cases hc
    · intro hfirst hdisc
      obtain ⟨-, rfl⟩ := of_decide_eq_true hfirst
      rw [hdiscards] at hdisc
      exact h ((size_of_lt_ten hkeys).mp (of_decide_eq_true hdisc)) e e' (by simpa using he)
        (by simpa using he')

/-- With `/`, a page can be followed if it has an item. -/
lemma resumes_iff_of_slash (hlive : Live P C K q.bucket all) (hkeys : 1 ≤ q.maxKeys)
    (hdelimiter : q.delimiter = [Path.slash]) :
    q.Resumes P K all 0 ↔ (q.maxKeys = 1 → ∀ e e', (q.entries P K all)[0]? = some e →
      (q.entries P K all)[1]? = some e' → e.isDir → e.name ≠ q.pre) := by
  have hlive' : Live P C K q.bucket (q.entries P K all) := hlive.sublist sublist_entries
  have hsize := one_le_size hkeys
  constructor
  · intro h hone e e' he he' hdir hname
    have hsize1 := (size_eq_one_iff hkeys).mpr hone
    refine not_hasItem_of_isDir hdir hname (h 0 e e' ?_ ?_).hasItem
    · rwa [hsize1]
    · rwa [hsize1]
  · intro h j e e' he he'
    have hemem := mem_of_getElem? he
    have hemem' := mem_of_getElem? he'
    refine ⟨?_, fun c hc => ?_, fun _ hdisc => ?_⟩
    · by_contra hno
      have hname := name_of_not_hasItem hlive.dirs hemem hno
      have hzero : 0 + j * q.size + q.size - 1 = 0 := by
        by_contra hpos
        obtain ⟨x, hx⟩ : ∃ x, (q.entries P K all)[0]? = some x :=
          ⟨_, getElem?_eq_getElem (length_pos_of_mem hemem)⟩
        have hlt := (getElem?_lt_iff hlive'.sorted hx he).mpr (pos_of_ne_zero hpos)
        exact hno (hasItem_of_lt hlive.dirs (mem_of_getElem? hx) hemem hlt)
      have hsize1 : q.size = 1 := by
        omega
      have hj : j = 0 := by
        rw [hsize1] at hzero
        omega
      subst hj
      rw [hsize1] at he he'
      refine h ((size_eq_one_iff hkeys).mp hsize1) e e' he he' ?_ hname
      rw [HasItem, not_or, isObject] at hno
      rw [isDir]
      simpa using hno.1
    · have hlt := (getElem?_lt_iff hlive'.sorted he he').mpr (by omega)
      have hname := commonOf_slash hdelimiter hemem hc
      refine ⟨hname, fun hc' => ?_⟩
      rw [← hname, ← commonOf_slash hdelimiter hemem' hc'] at hlt
      exact lt_irrefl _ hlt
    · rw [discards, hdelimiter] at hdisc
      simp at hdisc

lemma resumes_iff_of_other (hdelimiter : q.delimiter ≠ [Path.slash]) :
    q.Resumes P K all 0 ↔ ∀ j e e', (q.entries P K all)[j * q.size + q.size - 1]? = some e →
      (q.entries P K all)[j * q.size + q.size]? = some e' →
        (∀ c, q.commonOf e = some c → c = e.name ∧ q.commonOf e' ≠ some c) ∧
          (j = 0 → q.size < 10 → contains e.name markerTag = false) := by
  have hdiscards : q.discards = decide (q.size < 10) := by
    rw [discards, decide_eq_true hdelimiter, Bool.and_true]
  rw [Resumes]
  simp only [zero_add, true_and]
  refine forall_congr' fun j => forall_congr' fun e => forall_congr' fun e' =>
    imp_congr_right fun he => imp_congr_right fun _ => ⟨fun h => ⟨h.common, ?_⟩, fun h => ⟨?_, h.1, ?_⟩⟩
  · intro hj hlt
    exact h.tag (decide_eq_true hj) (hdiscards ▸ decide_eq_true hlt)
  · exact .inl (isObject_of_mem hdelimiter (mem_of_getElem? he))
  · intro hfirst hdisc
    rw [hdiscards] at hdisc
    exact h.2 (of_decide_eq_true hfirst) (of_decide_eq_true hdisc)

end ListRequest

/-- Following the markers of a listing with the delimiter `/`, or with none, ends, and its pages have
every object and every common prefix once and in order, exactly if the first page is not just the
directory that is listed, and its marker is not a name with a tag. -/
theorem pages_complete_iff (P : Packages) (C : Choices) (K : Marshaller) (q : ListRequest)
    (all : List MetaCacheEntry) (ids : ℕ → Bytes) (hlive : Live P C K q.bucket all)
    (hids : ∀ k, IsListID (ids k)) (hkeys : 1 ≤ q.maxKeys)
    (hdelimiter : q.delimiter = [Path.slash] ∨ q.delimiter = []) :
    (∃ fuel pages, q.pages P C K all ids fuel 0 [] = some pages ∧
        q.Complete P C K (q.entries P K all) pages) ↔
      (q.delimiter = [Path.slash] → q.maxKeys = 1 → ∀ e e', (q.entries P K all)[0]? = some e →
        (q.entries P K all)[1]? = some e' → e.isDir = true → e.name ≠ q.pre) ∧
      (q.delimiter = [] → q.maxKeys < 10 → ∀ e e', (q.entries P K all)[q.size - 1]? = some e →
        (q.entries P K all)[q.size]? = some e' → contains e.name markerTag = false) := by
  rw [pages_iff hlive hkeys hids (fun _ h => h) fun _ h => h.once]
  rcases hdelimiter with hslash | hnil
  · rw [resumes_iff_of_slash hlive hkeys hslash]
    have hne : q.delimiter ≠ [] := by
      rw [hslash]
      decide
    exact ⟨fun h => ⟨fun _ => h, fun h' => absurd h' hne⟩, fun h => h.1 hslash⟩
  · rw [resumes_iff_of_nil hkeys hnil]
    have hne : q.delimiter ≠ [Path.slash] := by
      rw [hnil]
      decide
    exact ⟨fun h => ⟨fun h' => absurd h' hne, fun _ => h⟩, fun h => h.2 hnil⟩

/-- Objects of the format before the journal, whatever their metadata are. -/
def legacyMarshaller : Marshaller :=
  { noMarshaller with unmarshalV1 := fun _ => .ok (legacyVersion "") }

/-- `a[obstor_cache:v1]`. -/
def taggedName : Bytes := 97 :: (markerTag ++ [closeBracket])

/-- An object with a tag in its name is reported twice, and a page that only has the directory that is
listed ends the listing. -/
theorem pages_not_complete :
    (((⟨"bucket", false, [], [], 1⟩ : ListRequest).pages Packages.std .std legacyMarshaller
        [⟨taggedName, [1]⟩, ⟨[98], [1]⟩] (fun _ => [49]) 5 0 []).map fun pages =>
          pages.flatMap fun page => page.objects.map ObjectInfo.name) =
      some [taggedName, taggedName, [98]] ∧
    (((⟨"bucket", false, [97, 47], [47], 1⟩ : ListRequest).pages Packages.std .std legacyMarshaller
        [⟨[97, 47], []⟩, ⟨[97, 47, 98], [1]⟩] (fun _ => [49]) 5 0 []).map fun pages =>
          pages.flatMap fun page => page.objects.map ObjectInfo.name) = some [] := by
  decide +kernel

/-- Objects with these names, all of the format before the journal. -/
def legacyObjects (names : List Bytes) : List MetaCacheEntry := names.map fun name => ⟨name, [1]⟩

lemma live_legacyObjects {names : List Bytes} (hsorted : names.Pairwise (· < ·))
    (hnamed : ∀ name ∈ names, name ≠ []) (hdecoded : ∀ name ∈ names, decodeDirObject name = name) :
    Live Packages.std .std legacyMarshaller "bucket" (legacyObjects names) where
  sorted := pairwise_map.mpr hsorted
  named := by
    intro e he
    obtain ⟨name, hname, rfl⟩ := mem_map.mp he
    exact hnamed name hname
  decoded := by
    intro e he
    obtain ⟨name, hname, rfl⟩ := mem_map.mp he
    exact hdecoded name hname
  dirs := by
    intro e he hdir
    obtain ⟨name, -, rfl⟩ := mem_map.mp he
    cases hdir
  objects := by
    intro e he _
    obtain ⟨name, -, rfl⟩ := mem_map.mp he
    exact ⟨_, rfl, by decide⟩

lemma isListID_one : IsListID [49] := ⟨by decide, by decide⟩

/-- Two objects, one on each page. -/
theorem pages_complete_iff_two :
    ∃ fuel pages, (⟨"bucket", false, [], [], 1⟩ : ListRequest).pages Packages.std .std legacyMarshaller
        (legacyObjects [[97], [98]]) (fun _ => [49]) fuel 0 [] = some pages ∧
      (⟨"bucket", false, [], [], 1⟩ : ListRequest).Complete Packages.std .std legacyMarshaller
        (legacyObjects [[97], [98]]) pages := by
  refine (pages_complete_iff Packages.std .std legacyMarshaller ⟨"bucket", false, [], [], 1⟩
    _ (fun _ => [49])
    (live_legacyObjects (by decide) (by decide) (by decide)) (fun _ => isListID_one) (by decide)
    (.inr rfl)).mpr ⟨fun h => absurd h (by decide), fun _ _ e e' he _ => ?_⟩
  obtain rfl : ⟨[97], [1]⟩ = e := Option.some.inj he
  decide

/-- Following the markers of a listing with any other delimiter ends, and reports every object and every
common prefix once, exactly if no page ends within a common prefix or with a prefix that others follow,
and the marker of the first page is not a name with a tag. -/
theorem pages_once_iff (P : Packages) (C : Choices) (K : Marshaller) (q : ListRequest)
    (all : List MetaCacheEntry) (ids : ℕ → Bytes) (hlive : Live P C K q.bucket all)
    (hids : ∀ k, IsListID (ids k)) (hkeys : 1 ≤ q.maxKeys) (hdelimiter : q.delimiter ≠ [Path.slash]) :
    (∃ fuel pages, q.pages P C K all ids fuel 0 [] = some pages ∧
        q.Once P C K (q.entries P K all) pages) ↔
      ∀ j e e', (q.entries P K all)[j * q.size + q.size - 1]? = some e →
        (q.entries P K all)[j * q.size + q.size]? = some e' →
          (∀ c, q.commonOf e = some c → c = e.name ∧ q.commonOf e' ≠ some c) ∧
            (j = 0 → q.size < 10 → contains e.name markerTag = false) := by
  rw [pages_iff hlive hkeys hids (fun _ h => h.once) fun _ h => h]
  exact resumes_iff_of_other hdelimiter

/-- Two objects, and one item a page, with the delimiter `_`. -/
def underscoreRequest : ListRequest := ⟨"bucket", false, [], [95], 1⟩

/-- The objects `a_` and `b_`. -/
theorem pages_once_iff_two :
    ∃ fuel pages, underscoreRequest.pages Packages.std .std legacyMarshaller
        (legacyObjects [[97, 95], [98, 95]]) (fun _ => [49]) fuel 0 [] = some pages ∧
      underscoreRequest.Once Packages.std .std legacyMarshaller
        (legacyObjects [[97, 95], [98, 95]]) pages := by
  refine (pages_once_iff Packages.std .std legacyMarshaller _
    _ (fun _ => [49])
    (live_legacyObjects (by decide) (by decide) (by decide)) (fun _ => isListID_one) (by decide)
    (by decide)).mpr ?_
  intro j e e' he he'
  cases j with
  | zero =>
    obtain rfl : ⟨[97, 95], [1]⟩ = e := Option.some.inj he
    obtain rfl : ⟨[98, 95], [1]⟩ = e' := Option.some.inj he'
    refine ⟨fun c hc => ?_, fun _ _ => by decide⟩
    obtain rfl : [97, 95] = c := Option.some.inj hc
    exact ⟨rfl, by decide⟩
  | succ j =>
    obtain ⟨hlt, -⟩ := List.getElem?_eq_some_iff.mp he'
    have hlen : (underscoreRequest.entries Packages.std legacyMarshaller
      (legacyObjects [[97, 95], [98, 95]])).length = 2 := by decide +kernel
    have hsize : underscoreRequest.size = 1 := by decide
    rw [hsize] at hlt
    omega

/-- The objects `a_1`, `a_2` and `a_3`. -/
def sharedPrefix : List MetaCacheEntry := legacyObjects [[97, 95, 49], [97, 95, 50], [97, 95, 51]]

/-- The pages at the markers `stuck` are truncated, and their markers are among them again. -/
lemma pages_eq_none (stuck : List Bytes)
    (hstuck : ∀ s ∈ stuck, ∃ s' ∈ stuck, (underscoreRequest.listObjects Packages.std .std
      legacyMarshaller sharedPrefix [49] s).map (fun page => (page.isTruncated, page.nextMarker)) =
        some (true, s')) (fuel k : ℕ) {s : Bytes} (hs : s ∈ stuck) :
    underscoreRequest.pages Packages.std .std legacyMarshaller sharedPrefix (fun _ => [49]) fuel k
      s = none := by
  induction fuel generalizing k s with
  | zero => rfl
  | succ fuel ih =>
    obtain ⟨s', hs', hpage⟩ := hstuck s hs
    obtain ⟨page, hlist, hnext⟩ := Option.map_eq_some_iff.mp hpage
    obtain ⟨htruncated, rfl⟩ := Prod.mk.inj hnext
    rw [pages, hlist]
    simp [htruncated, ih (k + 1) hs']

/-- Every page has the common prefix `a_`, and its marker leads back to it: the listing never ends. -/
theorem pages_never_end :
    ¬ ∃ fuel pages, underscoreRequest.pages Packages.std .std legacyMarshaller sharedPrefix
      (fun _ => [49]) fuel 0 [] = some pages := by
  rintro ⟨fuel, pages, hrun⟩
  have hstuck := pages_eq_none [[], [97, 95], encodeMarker [97, 95] [49]]
    (by decide +kernel) fuel 0 mem_cons_self
  rw [hstuck] at hrun
  cases hrun

end Obstor.Listing
