import Obstor.Listing.Items

/-!
# Following the markers

A page begins behind the entry that the marker names. The pages of a listing are complete exactly if every
page but the last one ends with an entry that the next page can begin behind (`ResumesAt`): the name of
its last item has to be the name of this entry, and has to be read back from the marker.

`exists_page` says what one page is made of. `at_next` is the step from a page to the next, and
`complete_of_resumes` the induction along all pages. In the other direction, a page that cannot be
followed leads to an entry that is reported twice or not at all (`resumesAt_of_once`).
-/

namespace Obstor.Listing

open Go Meta Metacache List Metacache

section Pages

variable (P : Packages) (C : Choices) (K : Marshaller) (q : ListRequest)
  (all : List MetaCacheEntry)

namespace ListRequest

/-- The entries that are to be listed, without those whose latest version is a delete marker. -/
def entries : List MetaCacheEntry := (scanOptions (q.options false [])).wanted P K all

/-- How many entries a page begins with. -/
def size : ℕ := (maxKeysPlusOne q.maxKeys false).toNat

/-- The result of the first page is discarded, and has no id. -/
def discards : Bool := q.size < 10 && q.delimiter ≠ [Path.slash]

/-- The page that ends with `e` can be followed by one that begins with `e'`. -/
structure ResumesAt (first : Bool) (e e' : MetaCacheEntry) : Prop where
  hasItem : q.HasItem e
  common : ∀ c, q.commonOf e = some c → c = e.name ∧ q.commonOf e' ≠ some c
  tag : first = true → q.discards = true → contains e.name markerTag = false

section

variable (es : List MetaCacheEntry) (pages : List ListObjectsInfo)

/-- All objects and common prefixes of the entries, each once and in order, with no more than `MaxKeys`
items on a page. -/
structure Complete : Prop where
  objects : pages.flatMap ListObjectsInfo.objects = es.filterMap (q.objectOf P C K)
  prefixes : (pages.flatMap ListObjectsInfo.prefixes).Pairwise (· < ·)
  mem_prefixes : ∀ c, c ∈ pages.flatMap ListObjectsInfo.prefixes ↔ ∃ e ∈ es, q.commonOf e = some c
  size : ∀ page ∈ pages, ((page.objects.length + page.prefixes.length : ℕ) : ℤ) ≤ q.maxKeys

/-- All objects and common prefixes of the entries, each once. -/
structure Once : Prop where
  objects : (pages.flatMap ListObjectsInfo.objects).Perm (es.filterMap (q.objectOf P C K))
  prefixes : (pages.flatMap ListObjectsInfo.prefixes).Nodup
  mem_prefixes : ∀ c, c ∈ pages.flatMap ListObjectsInfo.prefixes ↔ ∃ e ∈ es, q.commonOf e = some c

/-- The marker stands behind the first `i` entries. -/
def At (i : ℕ) (s : Bytes) : Prop :=
  (i = 0 ∧ s = []) ∨ ∃ e id, 0 < i ∧ es[i - 1]? = some e ∧ s ≠ [] ∧ parseMarker s = some (e.name, id)

end

variable {P C K} {q} {all} {es : List MetaCacheEntry}

variable {pages : List ListObjectsInfo}

lemma Complete.once (h : q.Complete P C K es pages) : q.Once P C K es pages where
  objects := h.objects ▸ List.Perm.refl _
  prefixes := h.prefixes.imp fun hlt => hlt.ne
  mem_prefixes := h.mem_prefixes

/-! ### The size of a page -/

section

variable (h : 1 ≤ q.maxKeys)

include h

lemma size_eq : (q.size : ℤ) = min q.maxKeys maxObjectList := by
  rw [size, maxKeysPlusOne, if_neg Bool.false_ne_true, maxObjectList]
  split_ifs <;> omega

lemma one_le_size : 1 ≤ q.size := by
  have hsize := size_eq h
  rw [maxObjectList] at hsize
  omega

lemma size_le : (q.size : ℤ) ≤ q.maxKeys :=
  (size_eq h).trans_le (min_le_left _ _)

lemma limit_eq (addOne : Bool) :
    maxKeysPlusOne q.maxKeys addOne = (q.size : ℤ) + if addOne then 1 else 0 := by
  rw [size_eq h, maxKeysPlusOne]
  split_ifs <;> omega

end

/-! ### The entries -/

lemma sublist_entries : (q.entries P K all).Sublist all := filter_sublist

variable {e : MetaCacheEntry}

lemma pre_isPrefix_of_mem (he : e ∈ q.entries P K all) : q.pre <+: e.name :=
  (of_decide_eq_true (mem_filter.mp he).2).2.1

lemma passes_of_mem (he : e ∈ q.entries P K all) :
    (scanOptions (q.options false [])).passes P K e :=
  (of_decide_eq_true (mem_filter.mp he).2).2.2

lemma wanted_later (hsorted : Sorted all) (s marker : Bytes) :
    ({ scanOptions (q.options false s) with marker := marker } : ListPathOptions).wanted P K all =
      (q.entries P K all).dropWhile fun e => e.name < marker := by
  have hsorted : Sorted (q.entries P K all) := hsorted.sublist sublist_entries
  have hfilter : (q.entries P K all).dropWhile (fun e => e.name < marker) =
      (q.entries P K all).filter fun e => marker ≤ e.name := by
    rw [Lib.dropWhile_eq_filter (hsorted.imp fun hlt h => ?_)]
    · simp [← decide_not]
    · simpa using hlt.trans (of_decide_eq_true h)
  rw [hfilter, entries, ListPathOptions.wanted, ListPathOptions.wanted, filter_filter]
  refine filter_congr fun e _ => ?_
  have hnil : (scanOptions (q.options false [])).marker ≤ e.name := Lib.le_of_isPrefix nil_prefix
  simp only [hnil, true_and, Bool.decide_and, Bool.decide_eq_true]
  rfl

lemma name_of_not_hasItem (hdirs : ∀ e ∈ all, e.isDir → Path.endsInSlash e.name)
    (he : e ∈ q.entries P K all) (h : ¬ q.HasItem e) : e.name = q.pre := by
  rw [HasItem, not_or, Bool.not_eq_true, Bool.not_eq_true, Option.isSome_eq_false_iff,
    Option.isNone_iff_eq_none, commonOf] at h
  obtain ⟨hobject, hcommon⟩ := h
  have hdir : e.isDir := by
    rw [MetaCacheEntry.isObject] at hobject
    rw [MetaCacheEntry.isDir]
    simpa using hobject
  have hdelimiter : q.delimiter = [Path.slash] := by
    have hpasses := passes_of_mem he
    rw [ListPathOptions.passes, Bool.and_eq_true, Bool.and_eq_true, hdir] at hpasses
    have hshown : (scanOptions (q.options false [])).includeDirectories := by
      simpa using hpasses.1.1
    exact of_decide_eq_true hshown
  obtain ⟨rest, hrest⟩ := pre_isPrefix_of_mem he
  have hends := hdirs e (sublist_entries.subset he) hdir
  rw [← hrest, currPrefix, trimPrefix_append, hdelimiter, if_neg (cons_ne_nil _ _),
    Option.map_eq_none_iff] at hcommon
  rcases eq_nil_or_concat' rest with rfl | ⟨rest', c, rfl⟩
  · rw [← hrest, append_nil]
  · rw [← hrest, Path.endsInSlash, ← append_assoc, getLast?_concat] at hends
    obtain rfl : c = Path.slash := Option.some.inj (of_decide_eq_true hends)
    have hsome : (index (rest' ++ [Path.slash]) [Path.slash]).isSome :=
      index_isSome_iff.mpr ⟨rest'.length, by simp, by simp⟩
    rw [hcommon] at hsome
    cases hsome

/-! ### One page -/

variable {i : ℕ}

lemma dropWhile_eq_drop {p : MetaCacheEntry → Bool}
    (hbefore : ∀ e ∈ es.take i, p e) (hfirst : ∀ e, es[i]? = some e → p e = false) :
    es.dropWhile p = es.drop i := by
  conv_lhs => rw [← take_append_drop i es]
  rw [dropWhile_append_of_pos hbefore]
  cases hdrop : es.drop i with
  | nil => rfl
  | cons e rest =>
    have he : es[i]? = some e := by rw [← head?_drop, hdrop, head?_cons]
    exact dropWhile_cons_of_neg (by simp [hfirst e he])

variable {e' : MetaCacheEntry}

section

variable (hsorted : Metacache.Sorted es)

include hsorted

lemma getElem?_lt_iff {j : ℕ} (he : es[i]? = some e)
    (he' : es[j]? = some e') : e.name < e'.name ↔ i < j := by
  obtain ⟨hi, rfl⟩ := List.getElem?_eq_some_iff.mp he
  obtain ⟨hj, rfl⟩ := List.getElem?_eq_some_iff.mp he'
  have hmono : StrictMono fun k : Fin es.length => es[k].name :=
    fun k l hkl => pairwise_iff_getElem.mp hsorted k l k.2 l.2 hkl
  exact hmono.lt_iff_lt (a := ⟨i, hi⟩) (b := ⟨j, hj⟩)

lemma eq_of_name_eq (he : e ∈ es) (he' : e' ∈ es) (h : e.name = e'.name) : e = e' := by
  have hnodup : (es.map MetaCacheEntry.name).Nodup := pairwise_map.mpr (hsorted.imp ne_of_lt)
  exact inj_on_of_nodup_map hnodup he he' h

lemma mem_take_iff_lt (he' : es[i]? = some e') (he : e ∈ es) :
    e ∈ es.take i ↔ e.name < e'.name := by
  constructor
  · intro hmem
    obtain ⟨j, hj, rfl⟩ := mem_take_iff_getElem.mp hmem
    exact (getElem?_lt_iff hsorted (getElem?_eq_getElem _) he').mpr (by omega)
  · intro hlt
    obtain ⟨j, hj, rfl⟩ := getElem_of_mem he
    have hji := (getElem?_lt_iff hsorted (getElem?_eq_getElem hj) he').mp hlt
    exact mem_take_iff_getElem.mpr ⟨j, lt_min hji hj, rfl⟩

lemma mem_take_iff_le (he' : es[i]? = some e') (he : e ∈ es) :
    e ∈ es.take (i + 1) ↔ e.name ≤ e'.name := by
  rw [take_add_one, he', mem_append, mem_take_iff_lt hsorted he' he, le_iff_lt_or_eq,
    Option.toList_some, mem_singleton]
  refine or_congr_right ⟨congrArg _, eq_of_name_eq hsorted he (mem_of_getElem? he')⟩

end

lemma scanOptions_limit (hkeys : 1 ≤ q.maxKeys) (s : Bytes) :
    (scanOptions (q.options false s)).limit =
      ((q.size + (if s ≠ [] then 1 else 0) : ℕ) : ℤ) := by
  have hlimit := limit_eq hkeys (decide (s ≠ []))
  simp only [decide_eq_true_eq] at hlimit
  push_cast
  exact hlimit

lemma scanOptions_recursive (q : ListRequest) (s : Bytes) :
    (scanOptions (q.options false s)).recursive = decide (q.delimiter ≠ [Path.slash]) := by
  simp only [scanOptions, options]
  by_cases hslash : q.delimiter = [Path.slash]
  · simp [hslash]
  · simp [hslash]

variable {s marker uuid : Bytes}

lemma listObjects_eq (hlive : Live P C K q.bucket all) (hkeys : 1 ≤ q.maxKeys)
    (hs : parseMarker s = some (marker, uuid)) (id : Bytes) :
    q.listObjects P C K all id s = some (q.respond
      (if q.size + (if s ≠ [] then 1 else 0) < 10 && marker = [] && uuid = [] &&
        q.delimiter ≠ [Path.slash] then [] else id)
      (if ((q.entries P K all).dropWhile fun e => e.name < marker).length ≤
        q.size + (if s ≠ [] then 1 else 0) then some .eof else none)
      (q.items P C K [] (forwardPast (((q.entries P K all).dropWhile fun e => e.name < marker).take
        (q.size + if s ≠ [] then 1 else 0)) marker))) := by
  have hlimit := scanOptions_limit hkeys s
  have hrecursive := scanOptions_recursive q s
  have hparse : parseMarker (q.options false s).marker = some (marker, uuid) := hs
  have hwanted := wanted_later (q := q) (P := P) (K := K) hlive.sorted s marker
  rw [listObjects, listPath, hparse]
  simp only [hs] at hwanted ⊢
  rw [hwanted]
  simp only [hlimit, hrecursive, Int.toNat_natCast, and_true, ← le_iff_lt_or_eq, Nat.cast_le,
    Nat.cast_lt_ofNat]
  rfl

lemma dropWhile_of_forall_lt (h : ∀ x ∈ es, marker < x.name) :
    es.dropWhile (fun x => x.name ≤ marker) = es :=
  dropWhile_eq_self_iff.mpr fun hpos => by simpa using h _ (getElem_mem hpos)

/-- Entries that can be listed, with the prefix that is asked for. -/
structure Under (P : Packages) (C : Choices) (K : Marshaller) (q : ListRequest)
    (es : List MetaCacheEntry) : Prop where
  live : Live P C K q.bucket es
  pre : ∀ e ∈ es, q.pre <+: e.name

lemma Under.sublist {es' : List MetaCacheEntry} (h : q.Under P C K es) (hsub : es'.Sublist es) :
    q.Under P C K es' :=
  ⟨h.live.sublist hsub, fun e he => h.pre e (hsub.subset he)⟩

/-- The request finds the entries `es`. -/
structure Lists (P : Packages) (C : Choices) (K : Marshaller) (q : ListRequest)
    (all es : List MetaCacheEntry) : Prop where
  entries : q.entries P K all = es
  live : Live P C K q.bucket all
  keys : 1 ≤ q.maxKeys

section

variable (h : q.Lists P C K all es)

include h

lemma Lists.under : q.Under P C K es := by
  obtain ⟨rfl, hlive, -⟩ := h
  exact ⟨hlive.sublist sublist_entries, fun e he => pre_isPrefix_of_mem he⟩

lemma Lists.name_of_not_hasItem (he : e ∈ es) (hno : ¬ q.HasItem e) : e.name = q.pre := by
  obtain ⟨rfl, hlive, -⟩ := h
  exact ListRequest.name_of_not_hasItem hlive.dirs he hno

lemma listObjects_at (hs : At es i s) (id : Bytes) : q.listObjects P C K all id s = some (q.respond
      (if i = 0 ∧ q.discards then [] else id)
      (if es.length ≤ i + q.size then some .eof else none)
      (q.items P C K [] ((es.drop i).take q.size))) := by
  have hsorted := h.under.live.sorted
  rcases hs with ⟨rfl, rfl⟩ | ⟨e, uuid, hi, he, hne, hparse⟩
  · have hparse : parseMarker [] = some ([], []) := parseMarker_of_not_contains (by decide)
    rw [listObjects_eq h.live h.keys hparse, h.entries, MetacacheReader.dropWhile_nil_key]
    simp [forwardPast, discards]
  · have hname : e.name ≠ [] := h.under.live.named e (mem_of_getElem? he)
    have hdrop : es.dropWhile (fun x => x.name < e.name) = es.drop (i - 1) := by
      refine dropWhile_eq_drop (fun x hx => ?_) fun x hx => ?_
      · exact decide_eq_true ((mem_take_iff_lt hsorted he (mem_of_mem_take hx)).mp hx)
      · rw [he] at hx
        rw [← Option.some.inj hx]
        exact decide_eq_false (lt_irrefl _)
    have hcons : es.drop (i - 1) = e :: es.drop i := by
      obtain ⟨hlt, rfl⟩ := List.getElem?_eq_some_iff.mp he
      rw [drop_eq_getElem_cons hlt, Nat.sub_add_cancel hi]
    have hpast : forwardPast ((e :: es.drop i).take (q.size + 1)) e.name =
        (es.drop i).take q.size := by
      have hpair : Sorted (e :: es.drop i) :=
        hcons ▸ hsorted.sublist (drop_sublist _ _)
      rw [forwardPast, if_neg hname, take_succ_cons, dropWhile_cons_of_pos (by simp)]
      exact dropWhile_of_forall_lt fun x hx => (pairwise_cons.mp hpair).1 x (mem_of_mem_take hx)
    rw [listObjects_eq h.live h.keys hparse, h.entries, hdrop, hcons]
    simp only [ne_eq, hne, not_false_eq_true, if_true, hpast, hname, decide_false, Bool.and_false,
      Bool.false_and, Bool.false_eq_true, if_false, length_cons, length_drop,
      ne_of_gt hi, false_and]
    have hend : es.length - i + 1 ≤ q.size + 1 ↔ es.length ≤ i + q.size := by omega
    simp [hend]

end

variable {listID : Bytes} {items : List ObjectInfo} {err : Option StreamErr}

lemma respond_eq (h : (items.length : ℤ) ≤ q.maxKeys) : q.respond listID err items =
      { isTruncated := err = none && items ≠ []
        nextMarker := if err = none && items ≠ [] then
          encodeMarker ((items.getLast?.map ObjectInfo.name).getD []) listID else []
        objects := items.filter fun o => !q.isPrefixItem o
        prefixes := q.prefixNames items } := by
  have hcut : decide (q.maxKeys > 0 ∧ (items.length : ℤ) > q.maxKeys) = false :=
    decide_eq_false fun hcut => absurd h (not_le.mpr hcut.2)
  simp only [respond, hcut, Bool.or_false, Bool.false_eq_true, if_false]
  rfl

/-- The entries of the page behind the first `i` entries. -/
def onPage (q : ListRequest) (es : List MetaCacheEntry) (i : ℕ) : List MetaCacheEntry :=
  (es.drop i).take q.size

lemma onPage_sublist (es : List MetaCacheEntry) (i : ℕ) : (q.onPage es i).Sublist es :=
  (take_sublist _ _).trans (drop_sublist _ _)

lemma onPage_append_drop (es : List MetaCacheEntry) (i : ℕ) :
    q.onPage es i ++ es.drop (i + q.size) = es.drop i := by
  rw [onPage, ← drop_drop, take_append_drop]

/-- A page, as long as its marker can be read. -/
structure IsPage (P : Packages) (C : Choices) (K : Marshaller) (q : ListRequest)
    (es : List MetaCacheEntry) (i : ℕ) (listID : Bytes) (page : ListObjectsInfo) : Prop where
  objects : page.objects = (q.onPage es i).filterMap (q.objectOf P C K)
  prefixes : page.prefixes = q.prefixNames (q.items P C K [] (q.onPage es i))
  size : ((page.objects.length + page.prefixes.length : ℕ) : ℤ) ≤ q.maxKeys
  isTruncated : page.isTruncated = true ↔ i + q.size < es.length ∧ q.items P C K [] (q.onPage es i) ≠ []
  nextMarker : page.isTruncated = true → page.nextMarker =
    encodeMarker (((q.items P C K [] (q.onPage es i)).getLast?.map ObjectInfo.name).getD []) listID

lemma exists_page (h : q.Lists P C K all es) (hs : At es i s) (id : Bytes) :
    ∃ page, q.listObjects P C K all id s = some page ∧ q.IsPage P C K es i
      (if i = 0 ∧ q.discards then [] else id) page := by
  have hpage := h.under.live.sublist (onPage_sublist (q := q) es i)
  have hlen : ((q.items P C K [] (q.onPage es i)).length : ℤ) ≤ q.maxKeys := by
    have hle := length_items_le hpage []
    have htake : (q.onPage es i).length ≤ q.size := length_take_le _ _
    have hsize := size_le h.keys
    omega
  refine ⟨_, listObjects_at h hs id, ?_⟩
  rw [← onPage, respond_eq hlen]
  refine ⟨filter_items hpage [], rfl, ?_, ?_, fun h => if_pos h⟩
  · rw [prefixNames, length_map]
    refine (le_of_eq ?_).trans hlen
    rw [add_comm, ← length_eq_length_filter_add]
  · simp only [Bool.and_eq_true, decide_eq_true_eq]
    refine and_congr_left fun _ => ?_
    split_ifs with hend
    · simpa using hend
    · simpa using hend

lemma last_item (h : q.Under P C K es) {es' : List MetaCacheEntry} (hes : es = es' ++ [e])
    (hitem : q.HasItem e)
    (hcommon : ∀ c, q.commonOf e = some c → c = e.name) :
    ((q.items P C K [] es).getLast?.map ObjectInfo.name) = some e.name := by
  subst hes
  have he : e ∈ es' ++ [e] := mem_append_right _ (mem_singleton_self e)
  rw [items_append (h.live.sublist (sublist_append_left es' [e]))]
  rcases item_cases h.live he with ⟨c, hc, -⟩ | ⟨-, o, ho, hname, -⟩ | ⟨hno, -⟩
  · have hfresh : c ≠ (es'.filterMap q.commonOf).getLastD [] := by
      intro hsame
      rcases eq_nil_or_concat' (es'.filterMap q.commonOf) with hnil | ⟨cs, c', hcs⟩
      · rw [hnil] at hsame
        exact currPrefix_ne_nil (h.pre e he) hc hsame
      · rw [hcs, getLastD_concat] at hsame
        subst hsame
        obtain ⟨y, hy, hcy⟩ := mem_filterMap.mp
          (hcs ▸ mem_append_right cs (mem_singleton_self c))
        have hle := Lib.le_of_isPrefix
          (currPrefix_isPrefix (h.pre y (mem_append_left _ hy)) hcy)
        have hlt := (pairwise_append.mp h.live.sorted).2.2 y hy e (mem_singleton_self e)
        rw [hcommon c hc] at hle
        exact absurd hle (not_le.mpr hlt)
    rw [items_cons_of_common hc, if_neg hfresh]
    simp [items, fileInfosLoop, prefixInfo, hcommon c hc]
  · rw [items_cons_of_object ho]
    simp [items, fileInfosLoop, hname]
  · exact absurd hitem hno

variable {page : ListObjectsInfo}

lemma mem_prefixes_page (h : q.Under P C K es) (hpage : q.IsPage P C K es i listID page) :
    page.prefixes.Pairwise (· < ·) ∧
      ∀ c, c ∈ page.prefixes ↔ ∃ e ∈ q.onPage es i, q.commonOf e = some c := by
  have hon := h.sublist (onPage_sublist (q := q) es i)
  obtain ⟨hsorted, hmem⟩ := prefixNames_items hon.live hon.pre
    fun e _ c _ => Lib.le_of_isPrefix (List.nil_prefix (l := c))
  rw [hpage.prefixes]
  refine ⟨hsorted, fun c => (hmem c).trans ⟨fun h => h.1, fun h => ⟨h, ?_⟩⟩⟩
  obtain ⟨e, he, hc⟩ := h
  exact currPrefix_ne_nil (hon.pre e he) hc

/-! ### All pages -/

/-- No common prefix goes over the end of the first `i` entries. -/
def Clean (q : ListRequest) (es : List MetaCacheEntry) (i : ℕ) : Prop :=
  ∀ y ∈ es.take i, ∀ z ∈ es.drop i, ∀ c, q.commonOf y = some c → q.commonOf z ≠ some c

lemma clean_of_common (h : q.Under P C K es) (he : es[i]? = some e) (he' : es[i + 1]? = some e')
    (hcommon : ∀ c, q.commonOf e = some c → q.commonOf e' ≠ some c) : q.Clean es (i + 1) := by
  intro y hy z hz c hcy hcz
  have hyes : y ∈ es := mem_of_mem_take hy
  have hzes : z ∈ es := mem_of_mem_drop hz
  have hye : y.name ≤ e.name := (mem_take_iff_le h.live.sorted he hyes).mp hy
  have hez : e'.name ≤ z.name := by
    obtain ⟨j, hj, rfl⟩ := mem_drop_iff_getElem.mp hz
    refine not_lt.mp fun hlt => ?_
    have hji := (getElem?_lt_iff h.live.sorted (getElem?_eq_getElem _) he').mp hlt
    omega
  have hlt : e.name < e'.name := (getElem?_lt_iff h.live.sorted he he').mpr (Nat.lt_succ_self i)
  refine hcommon c ?_ ?_
  · exact currPrefix_between (h.pre y hyes) (h.pre z hzes) hcy hcz hye (hlt.le.trans hez)
  · exact currPrefix_between (h.pre y hyes) (h.pre z hzes) hcy hcz (hye.trans hlt.le) hez

section

variable (hu : q.Under P C K es) (hpage : q.IsPage P C K es i listID page)

include hu hpage

lemma Complete.cons (hclean : q.Clean es (i + q.size))
    (h : q.Complete P C K (es.drop (i + q.size)) pages) :
    q.Complete P C K (es.drop i) (page :: pages) := by
  obtain ⟨hsorted, hmem⟩ := mem_prefixes_page hu hpage
  have hsplit := onPage_append_drop (q := q) es i
  refine ⟨?_, ?_, fun c => ?_, forall_mem_cons.mpr ⟨hpage.size, h.size⟩⟩
  · rw [flatMap_cons, h.objects, hpage.objects, ← hsplit, filterMap_append]
  · rw [flatMap_cons, pairwise_append]
    refine ⟨hsorted, h.prefixes, fun c hc c' hc' => ?_⟩
    obtain ⟨y, hy, hcy⟩ := (hmem c).mp hc
    obtain ⟨z, hz, hcz⟩ := (h.mem_prefixes c').mp hc'
    have hyes : y ∈ es := (onPage_sublist _ i).subset hy
    have hzes : z ∈ es := mem_of_mem_drop hz
    have hytake : y ∈ es.take (i + q.size) := by
      rw [take_add]
      exact mem_append_right _ hy
    have hlt : y.name < z.name := by
      have hpair := hu.live.sorted
      rw [← take_append_drop (i + q.size) es] at hpair
      exact (pairwise_append.mp hpair).2.2 y hytake z hz
    refine lt_of_le_of_ne (currPrefix_mono (hu.pre y hyes) (hu.pre z hzes) hlt hcy hcz) ?_
    rintro rfl
    exact hclean y hytake z hz c hcy hcz
  · rw [flatMap_cons, mem_append, hmem, h.mem_prefixes, ← hsplit]
    simp [or_and_right, exists_or]

lemma complete_single (hend : es.length ≤ i + q.size) : q.Complete P C K (es.drop i) [page] := by
  have hnil : es.drop (i + q.size) = [] := drop_eq_nil_of_le hend
  refine Complete.cons hu hpage ?_ ?_
  · intro y _ z hz
    rw [hnil] at hz
    cases hz
  · rw [hnil]
    exact ⟨rfl, List.Pairwise.nil, by simp, by simp⟩

end

/-- Every page behind the first `i` entries, but the last, can be followed by the next. -/
def Resumes (P : Packages) (K : Marshaller) (q : ListRequest) (all : List MetaCacheEntry) (i : ℕ) : Prop :=
  ∀ j e e', (q.entries P K all)[i + j * q.size + q.size - 1]? = some e →
    (q.entries P K all)[i + j * q.size + q.size]? = some e' → q.ResumesAt (i = 0 ∧ j = 0) e e'

variable {id : Bytes}

lemma at_next (h : q.Lists P C K all es) (hid : IsListID id)
    (hpage : q.IsPage P C K es i (if i = 0 ∧ q.discards then [] else id) page)
    (he : es[i + q.size - 1]? = some e) (he' : es[i + q.size]? = some e')
    (hresumes : q.ResumesAt (i = 0) e e') :
    page.isTruncated ∧ At es (i + q.size) page.nextMarker ∧ q.Clean es (i + q.size) := by
  have hsize := one_le_size h.keys
  have hsplit : q.onPage es i = (es.drop i).take (q.size - 1) ++ [e] := by
    have hget : (es.drop i)[q.size - 1]? = some e := by
      rw [getElem?_drop, ← Nat.add_sub_assoc hsize, he]
    rw [onPage, ← Nat.sub_add_cancel hsize, take_add_one, hget]
    rfl
  have hlast := last_item (h.under.sublist (onPage_sublist es i)) hsplit hresumes.hasItem
    fun c hc => (hresumes.common c hc).1
  have htruncated : page.isTruncated := by
    rw [hpage.isTruncated]
    obtain ⟨hlt, -⟩ := List.getElem?_eq_some_iff.mp he'
    refine ⟨hlt, fun hnil => ?_⟩
    rw [hnil] at hlast
    cases hlast
  have hname := h.under.live.named e (mem_of_getElem? he)
  have hclean := clean_of_common h.under he (by rwa [Nat.sub_add_cancel (by omega)])
    fun c hc => (hresumes.common c hc).2
  rw [Nat.sub_add_cancel (by omega)] at hclean
  refine ⟨htruncated, .inr ?_, hclean⟩
  rw [hpage.nextMarker htruncated, hlast, Option.getD_some]
  split_ifs with hdiscard
  · have htag := hresumes.tag (decide_eq_true hdiscard.1) hdiscard.2
    refine ⟨e, [], by omega, he, ?_, ?_⟩
    · rwa []
    · rw [encodeMarker, if_pos rfl, parseMarker_of_not_contains htag]
  · obtain ⟨uuid, hparse⟩ := parseMarker_encodeMarker hid e.name
    refine ⟨e, uuid, by omega, he, ?_, hparse⟩
    rw [encodeMarker, if_neg hid.ne_nil]
    exact append_ne_nil_of_left_ne_nil hname _

lemma resumes_iff_next (h : q.Lists P C K all es) : q.Resumes P K all i ↔
    ∀ e e', es[i + q.size - 1]? = some e → es[i + q.size]? = some e' →
      q.ResumesAt (i = 0) e e' ∧ q.Resumes P K all (i + q.size) := by
  have hsize := one_le_size h.keys
  obtain ⟨rfl, -, -⟩ := h
  have hshift : ∀ j, i + (j + 1) * q.size = i + q.size + j * q.size := by
    intro j
    rw [Nat.add_mul, Nat.one_mul, Nat.add_assoc, Nat.add_comm q.size]
  have hfirst : ∀ j, decide (i = 0 ∧ j + 1 = 0) = decide (i + q.size = 0 ∧ j = 0) := by
    intro j
    rw [decide_eq_false (by omega), decide_eq_false (by omega)]
  constructor
  · intro h e e' he he'
    refine ⟨by simpa using h 0 e e' (by simpa using he) (by simpa using he'), fun j x x' hx hx' => ?_⟩
    rw [← hfirst]
    exact h (j + 1) x x' (by rwa [hshift]) (by rwa [hshift])
  · intro h j x x' hx hx'
    cases j with
    | zero =>
      rw [Nat.zero_mul] at hx hx'
      simpa using (h x x' hx hx').1
    | succ j =>
      rw [hshift] at hx hx'
      have hlt : i + q.size < (q.entries P K all).length := by
        obtain ⟨hlt, -⟩ := List.getElem?_eq_some_iff.mp hx'
        exact lt_of_le_of_lt (Nat.le_add_right _ _) (Nat.add_assoc _ _ _ ▸ hlt)
      rw [hfirst]
      exact (h _ _ (getElem?_eq_getElem (by omega)) (getElem?_eq_getElem hlt)).2 j x x' hx hx'

variable {ids : ℕ → Bytes}

lemma complete_of_resumes (h : q.Lists P C K all es) (hids : ∀ k, IsListID (ids k)) (k : ℕ)
    (hs : At es i s) (hresumes : q.Resumes P K all i) :
    ∃ fuel pages, q.pages P C K all ids fuel k s = some pages ∧
      q.Complete P C K (es.drop i) pages := by
  have hsize := one_le_size h.keys
  induction hn : es.length - i using Nat.strong_induction_on generalizing i s k with
  | _ n ih =>
    obtain ⟨page, hlist, hpage⟩ := exists_page h hs (ids k)
    by_cases hend : es.length ≤ i + q.size
    · refine ⟨1, [page], ?_, complete_single h.under hpage hend⟩
      have hlastPage : page.isTruncated ≠ true := by
        rw [ne_eq, hpage.isTruncated]
        exact fun hmore => absurd hmore.1 (not_lt.mpr hend)
      rw [pages, hlist]
      simp [if_neg hlastPage]
    · have hlt := not_le.mp hend
      obtain ⟨e, he⟩ : ∃ e, es[i + q.size - 1]? = some e := ⟨_, getElem?_eq_getElem (by omega)⟩
      obtain ⟨e', he'⟩ : ∃ e', es[i + q.size]? = some e' := ⟨_, getElem?_eq_getElem hlt⟩
      obtain ⟨hat, hresumes'⟩ := (resumes_iff_next h).mp hresumes e e' he he'
      obtain ⟨htruncated, hnext, hclean⟩ := at_next h (hids k) hpage he he' hat
      obtain ⟨fuel, pages, hrun, hcomplete⟩ := ih _ (by omega) (k + 1) hnext hresumes' rfl
      refine ⟨fuel + 1, page :: pages, ?_, ?_⟩
      · rw [ListRequest.pages, hlist]
        simp [htruncated, hrun]
      · exact Complete.cons h.under hpage hclean hcomplete

/-! ### Pages that cannot be followed by the next -/

/-- The entry is on the page. -/
def Reported (P : Packages) (C : Choices) (K : Marshaller) (q : ListRequest) (page : ListObjectsInfo)
    (e : MetaCacheEntry) : Prop :=
  (∀ c, q.commonOf e = some c → c ∈ page.prefixes) ∧
    ∀ o, q.objectOf P C K e = some o → o ∈ page.objects

lemma head_respond (hkeys : 1 ≤ q.maxKeys) {o : ObjectInfo} :
    (q.isPrefixItem o → o.name ∈ (q.respond listID err (o :: items)).prefixes) ∧
      (q.isPrefixItem o = false → o ∈ (q.respond listID err (o :: items)).objects) := by
  have hhead : ∃ rest, (if decide (q.maxKeys > 0 ∧ ((o :: items).length : ℤ) > q.maxKeys) then
      (o :: items).take q.maxKeys.toNat else o :: items) = o :: rest := by
    split_ifs
    · obtain ⟨n, hn⟩ : ∃ n, q.maxKeys.toNat = n + 1 := ⟨q.maxKeys.toNat - 1, by omega⟩
      exact ⟨items.take n, by rw [hn, take_succ_cons]⟩
    · exact ⟨items, rfl⟩
  obtain ⟨rest, hrest⟩ := hhead
  simp only [respond, hrest]
  constructor
  · intro hitem
    rw [filter_cons_of_pos hitem]
    exact mem_cons_self
  · intro hitem
    rw [filter_cons_of_pos (by simp [hitem])]
    exact mem_cons_self

lemma forwardPast_eq (hsorted : Sorted es) (hnamed : ∀ e ∈ es, e.name ≠ []) {m : ℕ}
    (hm : 1 ≤ m) (marker : Bytes) : ∃ l, 1 ≤ l ∧
      forwardPast ((es.dropWhile fun e => e.name < marker).take (m + 1)) marker =
        (es.dropWhile fun e => e.name ≤ marker).take l ∧
      ((∀ e ∈ es, e.name ≠ marker) → 2 ≤ l) := by
  rw [forwardPast]
  split_ifs with hnil
  · subst hnil
    refine ⟨m + 1, by omega, ?_, fun _ => by omega⟩
    rw [MetacacheReader.dropWhile_nil_key, dropWhile_of_forall_lt fun e he =>
      lt_of_le_of_ne (Lib.le_of_isPrefix nil_prefix) (hnamed e he).symm]
  · induction es with
    | nil => exact ⟨m + 1, by omega, rfl, fun _ => by omega⟩
    | cons e es ih =>
      obtain ⟨he, hsorted⟩ := pairwise_cons.mp hsorted
      obtain ⟨-, hnamed⟩ := forall_mem_cons.mp hnamed
      rcases lt_trichotomy e.name marker with hlt | heq | hgt
      · obtain ⟨l, hl, hpast, htwo⟩ := ih hsorted hnamed
        rw [dropWhile_cons_of_pos (by simpa using hlt),
          dropWhile_cons_of_pos (by simpa using hlt.le)]
        exact ⟨l, hl, hpast, fun h => htwo (forall_mem_cons.mp h).2⟩
      · refine ⟨m, hm, ?_, fun h => absurd heq (h e mem_cons_self)⟩
        rw [heq] at he
        rw [dropWhile_cons_of_neg (by simp [heq]), take_succ_cons,
          dropWhile_cons_of_pos (by simp [heq]), dropWhile_cons_of_pos (by simp [heq]),
          dropWhile_of_forall_lt he, dropWhile_of_forall_lt fun x hx => he x (mem_of_mem_take hx)]
      · refine ⟨m + 1, by omega, ?_, fun _ => by omega⟩
        rw [dropWhile_cons_of_neg (by simpa using hgt.le), take_succ_cons,
          dropWhile_cons_of_neg (by simpa using hgt),
          dropWhile_cons_of_neg (by simpa using hgt), take_succ_cons]

variable {y : MetaCacheEntry}

lemma reported_head (hlive : Live P C K q.bucket es) (hkeys : 1 ≤ q.maxKeys)
    (hy : y ∈ es) (hpre : q.pre <+: y.name) (hitem : q.HasItem y)
    (ys : List MetaCacheEntry) (listID : Bytes) (err : Option StreamErr) :
    q.Reported P C K (q.respond listID err (q.items P C K [] (y :: ys))) y := by
  rcases item_cases hlive hy with ⟨c, hc, hnone⟩ | ⟨hnone, o, ho, -, hobject⟩ | ⟨hno, -⟩
  · rw [items_cons_of_common hc, if_neg (currPrefix_ne_nil hpre hc)]
    refine ⟨fun c' hc' => ?_, fun o ho => ?_⟩
    · rw [hc] at hc'
      obtain rfl := Option.some.inj hc'
      exact (head_respond hkeys).1 (isPrefixItem_prefixInfo hc)
    · rw [hnone] at ho
      cases ho
  · rw [items_cons_of_object ho]
    refine ⟨fun c hc => ?_, fun o' ho' => ?_⟩
    · rw [hnone] at hc
      cases hc
    · rw [ho] at ho'
      obtain rfl := Option.some.inj ho'
      exact (head_respond hkeys).2 hobject
  · exact absurd hitem hno

lemma mem_behind (hsorted : Sorted es) (marker : Bytes) :
    e ∈ es.dropWhile (fun e => e.name ≤ marker) ↔ e ∈ es ∧ marker < e.name := by
  rw [Lib.dropWhile_eq_filter (hsorted.imp fun hlt h => ?_)]
  · simp
  · simpa using hlt.le.trans (of_decide_eq_true h)

/-- The first item of a page is that of the first entry behind the marker that has one. -/
lemma first_reported (h : q.Lists P C K all es) (hne : s ≠ [])
    (hs : parseMarker s = some (marker, uuid)) (hpage : q.listObjects P C K all id s = some page)
    {z : MetaCacheEntry} (hz : z ∈ es) (hlt : marker < z.name) (hitem : q.HasItem z) :
    ∃ y ∈ es, marker < y.name ∧ q.HasItem y ∧ y.name ≤ z.name ∧ q.Reported P C K page y := by
  obtain ⟨hlive, hpre⟩ := h.under
  obtain ⟨l, hl, hpast, htwo⟩ := forwardPast_eq hlive.sorted hlive.named (one_le_size h.keys) marker
  rw [listObjects_eq h.live h.keys hs, h.entries] at hpage
  simp only [ne_eq, hne, not_false_eq_true, if_true, hpast] at hpage
  have hpage := (Option.some.inj hpage).symm
  have hmem := fun e => mem_behind hlive.sorted marker (e := e)
  have hsorted : Sorted (es.dropWhile fun e => e.name ≤ marker) :=
    hlive.sorted.sublist (dropWhile_sublist _)
  have hzmem := (hmem z).mpr ⟨hz, hlt⟩
  obtain ⟨l, rfl⟩ : ∃ l', l = l' + 1 := ⟨l - 1, by omega⟩
  cases hF : es.dropWhile fun e => decide (e.name ≤ marker) with
  | nil =>
    rw [hF] at hzmem
    cases hzmem
  | cons y F =>
    rw [hF] at hmem hsorted hzmem hpage
    rw [take_succ_cons] at hpage
    obtain ⟨hbehind, hsortedF⟩ := pairwise_cons.mp hsorted
    obtain ⟨hy, hylt⟩ := (hmem y).mp mem_cons_self
    by_cases hyitem : q.HasItem y
    · refine ⟨y, hy, hylt, hyitem, ?_, ?_⟩
      · rcases mem_cons.mp hzmem with rfl | hmemF
        · exact le_refl _
        · exact (hbehind z hmemF).le
      · rw [hpage]
        exact reported_head hlive h.keys hy (hpre y hy) hyitem _ _ _
    · -- the directory that is listed comes first, and the page goes on behind it
      have hyname := h.name_of_not_hasItem hy hyitem
      have hzF : z ∈ F := (mem_cons.mp hzmem).resolve_left fun heq => hyitem (heq ▸ hitem)
      have hl2 : 2 ≤ l + 1 := by
        refine htwo fun w hw hwname => ?_
        have hle := Lib.le_of_isPrefix (hpre w hw)
        rw [hwname, ← hyname] at hle
        exact absurd hylt (not_lt.mpr hle)
      obtain ⟨l, rfl⟩ : ∃ l', l = l' + 1 := ⟨l - 1, by omega⟩
      cases F with
      | nil => cases hzF
      | cons x F =>
        obtain ⟨hx, hxlt⟩ := (hmem x).mp (mem_cons_of_mem y mem_cons_self)
        have hyx := hbehind x mem_cons_self
        have hxitem : q.HasItem x := by
          by_contra hno
          rw [h.name_of_not_hasItem hx hno, hyname] at hyx
          exact lt_irrefl _ hyx
        refine ⟨x, hx, hxlt, hxitem, ?_, ?_⟩
        · rcases mem_cons.mp hzF with rfl | hmemF
          · exact le_refl _
          · exact ((pairwise_cons.mp hsortedF).1 z hmemF).le
        · rw [hpage, items_cons_of_not_hasItem hyitem]
          exact reported_head hlive h.keys hx (hpre x hx) hxitem _ _ _

lemma hasItem_of_lt (hdirs : ∀ e ∈ all, e.isDir → Path.endsInSlash e.name)
    (he : e ∈ q.entries P K all)
    (he' : e' ∈ q.entries P K all) (hlt : e.name < e'.name) : q.HasItem e' := by
  by_contra hno
  rw [name_of_not_hasItem hdirs he' hno] at hlt
  exact absurd (Lib.le_of_isPrefix (pre_isPrefix_of_mem he)) (not_le.mpr hlt)

section

variable (hu : q.Under P C K es)

include hu

section

variable (hpage : q.IsPage P C K es i listID page)

include hpage

lemma not_twice {page' : ListObjectsInfo} (hclean : q.Clean es i)
    (honce : q.Once P C K (es.drop i) (page :: pages)) (hlater : page' ∈ pages)
    (hy : y ∈ es.take (i + q.size)) (hitem : q.HasItem y) : ¬ q.Reported P C K page' y := by
  intro hreported
  have hyes : y ∈ es := mem_of_mem_take hy
  have hymem : y ∈ es.take i ∨ y ∈ q.onPage es i := by
    rwa [take_add, mem_append] at hy
  rcases item_cases hu.live hyes with ⟨c, hc, -⟩ | ⟨-, o, ho, hname, -⟩ | ⟨hno, -⟩
  · have hlater' : c ∈ pages.flatMap ListObjectsInfo.prefixes :=
      mem_flatMap.mpr ⟨page', hlater, hreported.1 c hc⟩
    rcases hymem with hymem | hymem
    · obtain ⟨z, hz, hcz⟩ := (honce.mem_prefixes c).mp
        (by exact mem_append_right _ hlater')
      exact hclean y hymem z hz c hc hcz
    · have hfirst : c ∈ page.prefixes :=
        ((mem_prefixes_page hu hpage).2 c).mpr ⟨y, hymem, hc⟩
      have hnodup := honce.prefixes
      rw [flatMap_cons, nodup_append'] at hnodup
      exact hnodup.2.2 hfirst hlater'
  · have hlater' : o ∈ pages.flatMap ListObjectsInfo.objects :=
      mem_flatMap.mpr ⟨page', hlater, hreported.2 o ho⟩
    have hsame : ∀ {z : MetaCacheEntry}, z ∈ es → q.objectOf P C K z = some o → z = y := by
      intro z hz hzo
      refine eq_of_name_eq hu.live.sorted hz hyes ?_
      rcases item_cases hu.live hz with ⟨_, _, hnone⟩ | ⟨-, o', ho', hname', -⟩ | ⟨-, -, hnone⟩
      · rw [hnone] at hzo
        cases hzo
      · rw [ho'] at hzo
        cases hzo
        exact hname'.symm.trans hname
      · rw [hnone] at hzo
        cases hzo
    -- the object would come from an entry behind the page
    have hbehind : o ∈ (es.drop (i + q.size)).filterMap (q.objectOf P C K) := by
      have hperm := honce.objects
      rw [flatMap_cons, hpage.objects, ← onPage_append_drop es i, filterMap_append,
        perm_append_left_iff] at hperm
      exact hperm.mem_iff.mp hlater'
    obtain ⟨z, hz, hzo⟩ := mem_filterMap.mp hbehind
    have hzy := hsame (mem_of_mem_drop hz) hzo
    have hpair := hu.live.sorted
    rw [← take_append_drop (i + q.size) es] at hpair
    have hlt := (pairwise_append.mp hpair).2.2 y hy z hz
    rw [hzy] at hlt
    exact lt_irrefl _ hlt
  · exact absurd hitem hno

lemma Once.tail (hclean : q.Clean es (i + q.size))
    (h : q.Once P C K (es.drop i) (page :: pages)) : q.Once P C K (es.drop (i + q.size)) pages := by
  have hmem := (mem_prefixes_page hu hpage).2
  have hsplit := onPage_append_drop (q := q) es i
  obtain ⟨-, hnodup, hdisjoint⟩ := nodup_append'.mp (flatMap_cons ▸ h.prefixes)
  refine ⟨?_, hnodup, fun c => ?_⟩
  · have hperm := h.objects
    rwa [flatMap_cons, hpage.objects, ← hsplit, filterMap_append, perm_append_left_iff] at hperm
  · have hall := h.mem_prefixes c
    rw [flatMap_cons, mem_append, hmem, ← hsplit] at hall
    constructor
    · intro hc
      obtain ⟨e, he, hce⟩ := hall.mp (.inr hc)
      rcases mem_append.mp he with he | he
      · exact absurd hc (hdisjoint ((hmem c).mpr ⟨e, he, hce⟩))
      · exact ⟨e, he, hce⟩
    · rintro ⟨e, he, hce⟩
      refine (hall.mpr ⟨e, mem_append_right _ he, hce⟩).resolve_left ?_
      rintro ⟨y, hy, hcy⟩
      refine hclean y ?_ e he c hcy hce
      rw [take_add]
      exact mem_append_right _ hy

end

lemma exists_last_item (hne : q.items P C K [] es ≠ []) :
    ∃ nm, (q.items P C K [] es).getLast?.map ObjectInfo.name = some nm ∧
      ∃ y ∈ es, q.HasItem y ∧ nm <+: y.name ∧ (nm = y.name ∧ q.commonOf y = none ∨
        q.commonOf y = some nm) := by
  obtain ⟨items, o, hitems⟩ := (eq_nil_or_concat' _).resolve_left hne
  refine ⟨o.name, by rw [hitems, getLast?_concat]; rfl, ?_⟩
  have ho : o ∈ q.items P C K [] es := hitems ▸ mem_append_right _ (mem_singleton_self o)
  obtain ⟨y, hy, hobject | hcommon⟩ := exists_of_mem_items hu.live hu.pre ho
  · rcases item_cases hu.live hy with ⟨_, _, hnone⟩ | ⟨hnone, o', ho', hname, -⟩ | ⟨-, -, hnone⟩
    · rw [hnone] at hobject
      cases hobject
    · rw [ho'] at hobject
      cases hobject
      refine ⟨y, hy, .inl ?_, hname ▸ prefix_refl _, .inl ⟨hname, hnone⟩⟩
      by_contra hno
      rw [objectOf] at ho'
      simp [hno] at ho'
    · rw [hnone] at hobject
      cases hobject
  · exact ⟨y, hy, .inr (by rw [hcommon]; rfl), currPrefix_isPrefix (hu.pre y hy) hcommon, .inr hcommon⟩

end

variable {fuel k : ℕ}

lemma pages_succ (hlist : q.listObjects P C K all (ids k) s = some page)
    (hrun : q.pages P C K all ids (fuel + 1) k s = some pages) :
    (page.isTruncated = false ∧ pages = [page]) ∨ ∃ rest, page.isTruncated ∧ pages = page :: rest ∧
        q.pages P C K all ids fuel (k + 1) page.nextMarker = some rest := by
  rw [ListRequest.pages, hlist] at hrun
  simp only at hrun
  split_ifs at hrun with htruncated
  · obtain ⟨rest, hrest, rfl⟩ := Option.map_eq_some_iff.mp hrun
    exact .inr ⟨rest, htruncated, rfl, hrest⟩
  · exact .inl ⟨by simpa using htruncated, (Option.some.inj hrun).symm⟩

lemma exists_head (hrun : q.pages P C K all ids fuel k s = some pages) :
    ∃ page ∈ pages, q.listObjects P C K all (ids k) s = some page ∧
      ∃ marker uuid, parseMarker s = some (marker, uuid) := by
  cases fuel with
  | zero => cases hrun
  | succ fuel =>
    cases hlist : q.listObjects P C K all (ids k) s with
    | none =>
      rw [ListRequest.pages, hlist] at hrun
      cases hrun
    | some page =>
      refine ⟨page, ?_, rfl, ?_⟩
      · rcases pages_succ hlist hrun with ⟨-, rfl⟩ | ⟨rest, -, rfl, -⟩
        · exact mem_cons_self
        · exact mem_cons_self
      · cases hparse : parseMarker s with
        | none =>
          have hparse' : parseMarker (q.options false s).marker = none := hparse
          rw [listObjects, listPath, hparse'] at hlist
          cases hlist
        | some answer => exact ⟨answer.1, answer.2, rfl⟩

lemma marker_le {nm : Bytes} (hlistID : listID = [] ∨ listID = id)
    (hid : IsListID id) (h : parseMarker (encodeMarker nm listID) = some (marker, uuid)) :
    marker ≤ nm := by
  rcases hlistID with rfl | rfl
  · exact parseMarker_le h
  · obtain ⟨uuid', hparse⟩ := parseMarker_encodeMarker hid nm
    rw [hparse] at h
    exact (Prod.mk.inj (Option.some.inj h)).1.ge

lemma items_ne_nil_of_once (hlive : Live P C K q.bucket es)
    (hpage : q.IsPage P C K es i listID page)
    (hlast : page.isTruncated = false → pages = [page]) (honce : q.Once P C K (es.drop i) pages)
    (he : e ∈ es.drop i) (hitem : q.HasItem e) :
    q.items P C K [] (q.onPage es i) ≠ [] := by
  intro hnil
  have hnot : page.isTruncated = false := by
    rw [Bool.eq_false_iff, ne_eq, hpage.isTruncated]
    exact fun h => h.2 hnil
  obtain rfl := hlast hnot
  have hlive' : Live P C K q.bucket (q.onPage es i) := hlive.sublist (onPage_sublist _ i)
  have hobjects : page.objects = [] := by
    rw [hpage.objects, ← filter_items hlive' [], hnil, filter_nil]
  have hprefixes : page.prefixes = [] := by
    rw [hpage.prefixes, hnil]
    rfl
  rcases item_cases hlive (mem_of_mem_drop he) with ⟨c, hc, -⟩ | ⟨-, o, ho, -⟩ | ⟨hno, -⟩
  · have hmem := (honce.mem_prefixes c).mpr ⟨e, he, hc⟩
    rw [flatMap_singleton, hprefixes] at hmem
    cases hmem
  · have hmem := honce.objects.mem_iff.mpr (mem_filterMap.mpr ⟨e, he, ho⟩)
    rw [flatMap_singleton, hobjects] at hmem
    cases hmem
  · exact hno hitem

section

variable (h : q.Lists P C K all es) (hids : ∀ k, IsListID (ids k))

include h hids

/-- A page that is followed by others, in a run that reports everything once, can be followed. -/
lemma resumesAt_of_once (hs : At es i s) (hclean : q.Clean es i)
    (hrun : q.pages P C K all ids (fuel + 1) k s = some pages)
    (honce : q.Once P C K (es.drop i) pages) (he : es[i + q.size - 1]? = some e)
    (he' : es[i + q.size]? = some e') :
    q.ResumesAt (i = 0) e e' ∧ ∃ page rest, pages = page :: rest ∧
      q.IsPage P C K es i (if i = 0 ∧ q.discards then [] else ids k) page ∧
      q.pages P C K all ids fuel (k + 1) page.nextMarker = some rest := by
  obtain ⟨hlive, hpre⟩ := h.under
  have hsorted := hlive.sorted
  have hsize := one_le_size h.keys
  have hee' : e.name < e'.name := (getElem?_lt_iff hsorted he he').mpr (by omega)
  have hemem := mem_of_getElem? he
  have hemem' := mem_of_getElem? he'
  have hitem' : q.HasItem e' := by
    by_contra hno
    rw [h.name_of_not_hasItem hemem' hno] at hee'
    exact absurd (Lib.le_of_isPrefix (hpre e hemem)) (not_le.mpr hee')
  obtain ⟨page, hlist, hpage⟩ := exists_page h hs (ids k)
  have hsub := onPage_sublist (q := q) es i
  have hbefore : ∀ y ∈ q.onPage es i, y ∈ es.take (i + q.size) := by
    intro y hy
    rw [take_add]
    exact mem_append_right _ hy
  have hdrop' : e' ∈ es.drop i := by
    rw [← onPage_append_drop _ i]
    refine mem_append_right _ (mem_of_getElem? (i := 0) ?_)
    rwa [getElem?_drop]
  have hcases := pages_succ hlist hrun
  have hne : q.items P C K [] (q.onPage es i) ≠ [] := by
    refine items_ne_nil_of_once hlive hpage (fun hnot => ?_) honce hdrop' hitem'
    rcases hcases with ⟨-, hpages⟩ | ⟨rest, htruncated, -⟩
    · exact hpages
    · rw [hnot] at htruncated
      cases htruncated
  obtain ⟨rest, htruncated, rfl, hrest⟩ : ∃ rest, page.isTruncated ∧ pages = page :: rest ∧
      q.pages P C K all ids fuel (k + 1) _ = some rest := by
    refine hcases.resolve_left fun hnot => ?_
    obtain ⟨hlt, -⟩ := List.getElem?_eq_some_iff.mp he'
    have htruncated := hpage.isTruncated.mpr ⟨hlt, hne⟩
    rw [hnot.1] at htruncated
    cases htruncated
  obtain ⟨nm, hnm, y, hy, hyitem, hynm, hycases⟩ := exists_last_item (h.under.sublist hsub) hne
  have hnext := hpage.nextMarker htruncated
  rw [hnm, Option.getD_some] at hnext
  obtain ⟨page', hpage'mem, hlist', marker, uuid, hparse⟩ := exists_head hrest
  have htake : ∀ {x}, x ∈ es → (x ∈ es.take (i + q.size) ↔ x.name ≤ e.name) := by
    intro x hx
    rw [← mem_take_iff_le hsorted he hx, Nat.sub_add_cancel (by omega)]
  have hyle : y.name ≤ e.name := (htake (hsub.subset hy)).mp (hbefore y hy)
  have hnmle : nm ≤ e.name := (Lib.le_of_isPrefix hynm).trans hyle
  have hmarker : marker ≤ nm := by
    rw [hnext] at hparse
    refine marker_le ?_ (hids k) hparse
    split_ifs
    · exact .inl rfl
    · exact .inr rfl
  have hitem : q.HasItem e := by
    by_contra hno
    have hle : e.name ≤ y.name := by
      rw [h.name_of_not_hasItem hemem hno]
      exact Lib.le_of_isPrefix (hpre y (hsub.subset hy))
    rw [eq_of_name_eq hsorted hemem (hsub.subset hy) (le_antisymm hle hyle)] at hno
    exact hno hyitem
  have hnextne : page.nextMarker ≠ [] := by
    have hnmne : nm ≠ [] := by
      rcases hycases with ⟨rfl, -⟩ | hcommon
      · exact hlive.named y (hsub.subset hy)
      · exact currPrefix_ne_nil (hpre y (hsub.subset hy)) hcommon
    rw [hnext]
    exact encodeMarker_ne_nil hnmne _
  -- the marker is read as the name of the last entry
  have hmarkerEq : marker = e.name := by
    by_contra hneq
    have hlt := lt_of_le_of_ne (hmarker.trans hnmle) hneq
    obtain ⟨z, hz, -, hzitem, hzle, hreported⟩ :=
      first_reported h hnextne hparse hlist' hemem hlt hitem
    exact not_twice h.under hpage hclean honce hpage'mem
      ((htake hz).mpr hzle) hzitem hreported
  have hnmEq : nm = e.name := le_antisymm hnmle (hmarkerEq ▸ hmarker)
  have hyEq : y = e := by
    refine eq_of_name_eq hsorted (hsub.subset hy) hemem (le_antisymm hyle ?_)
    rw [← hnmEq]
    exact Lib.le_of_isPrefix hynm
  refine ⟨⟨hitem, fun c hc => ?_, fun hfirst hdiscards => ?_⟩, page, rest, rfl, hpage, hrest⟩
  · rw [hyEq] at hycases hy
    have hcnm : q.commonOf e = some nm := by
      refine hycases.resolve_left fun hnone => ?_
      rw [hnone.2] at hc
      cases hc
    rw [hc] at hcnm
    have hcEq := (Option.some.inj hcnm).trans hnmEq
    refine ⟨hcEq, fun hc' => ?_⟩
    -- the next page would report the common prefix again
    obtain ⟨z, hz, hzlt, -, hzle, hreported⟩ :=
      first_reported h hnextne hparse hlist' hemem' (hmarkerEq ▸ hee') hitem'
    have hzEq : z = e' := by
      refine eq_of_name_eq hsorted hz hemem' (le_antisymm hzle (not_lt.mp fun hlt => ?_))
      have hztake := (mem_take_iff_lt hsorted he' hz).mpr hlt
      exact absurd ((htake hz).mp hztake) (not_le.mpr (hmarkerEq ▸ hzlt))
    have hfirst := ((mem_prefixes_page h.under hpage).2 c).mpr ⟨e, hy, hc⟩
    have hagain := mem_flatMap.mpr ⟨page', hpage'mem, hreported.1 c (hzEq ▸ hc')⟩
    exact (nodup_append'.mp (flatMap_cons ▸ honce.prefixes)).2.2 hfirst hagain
  · have hlistID : page.nextMarker = e.name := by
      rw [hnext, if_pos ⟨of_decide_eq_true hfirst, hdiscards⟩, encodeMarker, if_pos rfl, hnmEq]
    rw [Bool.eq_false_iff]
    intro htag
    rw [hlistID] at hparse
    exact absurd hmarkerEq (parseMarker_lt htag hparse).ne

lemma resumes_of_once (hs : At es i s) (hclean : q.Clean es i)
    (hrun : q.pages P C K all ids fuel k s = some pages)
    (honce : q.Once P C K (es.drop i) pages) : q.Resumes P K all i := by
  induction fuel generalizing k i s pages with
  | zero => cases hrun
  | succ fuel ih =>
    refine (resumes_iff_next h).mpr fun e e' he he' => ?_
    obtain ⟨hat, page, rest, rfl, hpage, hrest⟩ :=
      resumesAt_of_once h hids hs hclean hrun honce he he'
    obtain ⟨-, hnext, hclean'⟩ := at_next h (hids k) hpage he he' hat
    exact ⟨hat, ih hnext hclean' hrest (Once.tail h.under hpage hclean' honce)⟩

end

/-- A property between `Complete` and `Once` holds of the pages exactly if each page can be
followed. -/
lemma pages_iff (hlive : Live P C K q.bucket all) (hkeys : 1 ≤ q.maxKeys)
    (hids : ∀ k, IsListID (ids k)) {holds : List ListObjectsInfo → Prop}
    (hcomplete : ∀ pages, q.Complete P C K (q.entries P K all) pages → holds pages)
    (honce : ∀ pages, holds pages → q.Once P C K (q.entries P K all) pages) :
    (∃ fuel pages, q.pages P C K all ids fuel 0 [] = some pages ∧ holds pages) ↔
      q.Resumes P K all 0 := by
  have hstart : At (q.entries P K all) 0 [] := .inl ⟨rfl, rfl⟩
  constructor
  · rintro ⟨fuel, pages, hrun, hholds⟩
    refine resumes_of_once ⟨rfl, hlive, hkeys⟩ hids hstart ?_ hrun (honce pages hholds)
    intro y hy
    cases hy
  · intro hresumes
    obtain ⟨fuel, pages, hrun, hpages⟩ :=
      complete_of_resumes ⟨rfl, hlive, hkeys⟩ hids 0 hstart hresumes
    exact ⟨fuel, pages, hrun, hcomplete pages hpages⟩

end ListRequest

end Pages

end Obstor.Listing
