import Obstor.Listing.Objects

/-!
# The items of a page

The items that `fileInfos` makes of a list of entries are the objects of these entries, and the common
prefixes of the others, each once and in order. The names under a common prefix stand together
(`currPrefix_of_isPrefix`), so that it is enough to compare with the prefix before.
-/

namespace Obstor.Listing

open Go Meta Metacache List Option ListRequest

/-! ### Common prefixes -/

section CurrPrefix

variable {pre delimiter name c : Bytes}

lemma currPrefix_append {rest : Bytes} : currPrefix pre delimiter (pre ++ rest) = some c ↔
    delimiter ≠ [] ∧ ∃ i, index rest delimiter = some i ∧ c = pre ++ rest.take (i + delimiter.length) := by
  rw [currPrefix, trimPrefix_append]
  split_ifs with h
  · simp [h]
  · simp only [map_eq_some_iff, ne_eq, h, not_false_eq_true, true_and]
    refine exists_congr fun i => and_congr_right fun _ => ?_
    rw [Nat.add_assoc, take_length_add_append, eq_comm]

section

variable (hpre : pre <+: name) (h : currPrefix pre delimiter name = some c)

include hpre h

lemma currPrefix_isPrefix : c <+: name := by
  obtain ⟨rest, rfl⟩ := hpre
  obtain ⟨-, i, -, rfl⟩ := currPrefix_append.mp h
  exact (prefix_append_right_inj pre).mpr (List.take_prefix _ rest)

lemma currPrefix_ne_nil : c ≠ [] := by
  obtain ⟨rest, rfl⟩ := hpre
  obtain ⟨hne, i, hindex, rfl⟩ := currPrefix_append.mp h
  obtain ⟨-, hat, -⟩ := index_eq_some_iff.mp hindex
  refine append_ne_nil_of_right_ne_nil _ fun hnil => ?_
  have hlen := hat.length_le
  have hpos := length_pos_of_ne_nil hne
  rw [take_eq_nil_iff] at hnil
  rcases hnil with hnil | rfl
  · omega
  · rw [drop_nil, length_nil] at hlen
    omega

lemma currPrefix_of_isPrefix {name' : Bytes} (hc : c <+: name') :
    currPrefix pre delimiter name' = some c := by
  obtain ⟨rest, rfl⟩ := hpre
  obtain ⟨hne, i, hindex, rfl⟩ := currPrefix_append.mp h
  obtain ⟨hi, hat, hbefore⟩ := index_eq_some_iff.mp hindex
  obtain ⟨rest', rfl⟩ := (prefix_append _ _).trans hc
  rw [prefix_append_right_inj] at hc
  have hlen : i + delimiter.length ≤ rest.length := by
    have hle := hat.length_le
    rw [length_drop] at hle
    omega
  have htake : rest'.take (i + delimiter.length) = rest.take (i + delimiter.length) := by
    have hsame := prefix_iff_eq_take.mp hc
    rw [length_take, Nat.min_eq_left hlen] at hsame
    exact hsame.symm
  -- up to the end of the delimiter both names agree, so that it occurs in both at the same places
  have hoccurs : ∀ j ≤ i, delimiter <+: rest'.drop j ↔ delimiter <+: rest.drop j := by
    intro j hj
    have hwindow : ∀ s : Bytes, (delimiter <+: s.drop j ↔
        delimiter <+: (s.take (i + delimiter.length)).drop j) := by
      intro s
      rw [drop_take, prefix_take_iff]
      exact ⟨fun h => ⟨h, by omega⟩, fun h => h.1⟩
    rw [hwindow rest', htake, ← hwindow rest]
  refine currPrefix_append.mpr ⟨hne, i, index_eq_some_iff.mpr ⟨?_, ?_, ?_⟩, by rw [htake]⟩
  · have hle := hc.length_le
    rw [length_take] at hle
    omega
  · exact (hoccurs i (le_refl i)).mpr hat
  · exact fun j hj hat' => hbefore j hj ((hoccurs j hj.le).mp hat')

end

lemma currPrefix_mono {name' c' : Bytes} (hpre : pre <+: name) (hpre' : pre <+: name')
    (hlt : name < name') (h : currPrefix pre delimiter name = some c)
    (h' : currPrefix pre delimiter name' = some c') : c ≤ c' := by
  by_contra hnot
  have hc' : c' < c := not_le.mp hnot
  have hle : c' ≤ name := hc'.le.trans (Lib.le_of_isPrefix (currPrefix_isPrefix hpre h))
  have hname := Lib.isPrefix_of_le_of_le (currPrefix_isPrefix hpre' h') hle hlt.le
  have hsame := currPrefix_of_isPrefix hpre' h' hname
  rw [h] at hsame
  exact absurd (Option.some.inj hsame) hc'.ne'

lemma currPrefix_between {name₁ name₂ : Bytes} (hpre₁ : pre <+: name₁) (hpre₂ : pre <+: name₂)
    (h₁ : currPrefix pre delimiter name₁ = some c) (h₂ : currPrefix pre delimiter name₂ = some c)
    (hle₁ : name₁ ≤ name) (hle₂ : name ≤ name₂) : currPrefix pre delimiter name = some c := by
  refine currPrefix_of_isPrefix hpre₁ h₁ ?_
  exact Lib.isPrefix_of_le_of_le (currPrefix_isPrefix hpre₂ h₂)
    ((Lib.le_of_isPrefix (currPrefix_isPrefix hpre₁ h₁)).trans hle₁) hle₂

end CurrPrefix

/-! ### Objects and prefixes of a list of entries -/

section Items

variable (P : Packages) (C : Choices) (K : Marshaller) (q : ListRequest)

/-- The common prefix that the entry is reported as. -/
def ListRequest.commonOf (e : MetaCacheEntry) : Option Bytes := currPrefix q.pre q.delimiter e.name

/-- The object that the entry is reported as. -/
def ListRequest.objectOf (e : MetaCacheEntry) : Option ObjectInfo :=
  if (q.commonOf e).isSome || !e.isObject then none
  else (e.fileInfo P C K q.bucket).toOption.map fun fi => toObjectInfo q.versioned fi q.bucket e.name

/-- The entry is reported at all. -/
def ListRequest.HasItem (e : MetaCacheEntry) : Prop := e.isObject = true ∨ (q.commonOf e).isSome = true

/-- The entries of a bucket: objects that can be read and directories, by the names that they are listed
by. -/
structure Live (bucket : String) (all : List MetaCacheEntry) : Prop where
  sorted : Metacache.Sorted all
  named : ∀ e ∈ all, e.name ≠ []
  decoded : ∀ e ∈ all, decodeDirObject e.name = e.name
  dirs : ∀ e ∈ all, e.isDir = true → Path.endsInSlash e.name = true
  objects : ∀ e ∈ all, e.isObject = true →
    ∃ fi, e.fileInfo P C K bucket = .ok fi ∧ fi.modTime ≠ .zero

variable {P C K} {q} {es : List MetaCacheEntry}

lemma Live.sublist {bucket : String} {all : List MetaCacheEntry} (h : Live P C K bucket all)
    (hes : es.Sublist all) : Live P C K bucket es where
  sorted := h.sorted.sublist hes
  named e he := h.named e (hes.subset he)
  decoded e he := h.decoded e (hes.subset he)
  dirs e he := h.dirs e (hes.subset he)
  objects e he := h.objects e (hes.subset he)

variable {c : Bytes} {e : MetaCacheEntry}

lemma isPrefixItem_prefixInfo (h : q.commonOf e = some c) :
    q.isPrefixItem (prefixInfo q.bucket c) := by
  have hne : q.delimiter ≠ [] := by
    intro hnil
    rw [commonOf, currPrefix, if_pos hnil] at h
    cases h
  simp [isPrefixItem, prefixInfo, hne]

lemma isPrefixItem_toObjectInfo {fi : FileInfo} (h : fi.modTime ≠ .zero) (name : Bytes) :
    q.isPrefixItem (toObjectInfo q.versioned fi q.bucket name) = false := by
  simp [isPrefixItem, toObjectInfo, h]

/-- The loop of `fileInfos`, for this request. -/
def ListRequest.items (P : Packages) (C : Choices) (K : Marshaller) (q : ListRequest) (prev : Bytes)
    (es : List MetaCacheEntry) : List ObjectInfo :=
  fileInfosLoop P C K q.versioned q.bucket q.pre q.delimiter prev es

lemma items_cons_of_common (h : q.commonOf e = some c)
    (prev : Bytes) : q.items P C K prev (e :: es) =
      if c = prev then q.items P C K prev es else prefixInfo q.bucket c :: q.items P C K c es := by
  rw [commonOf] at h
  rw [items, fileInfosLoop, h]
  rfl

lemma items_cons_of_object {o : ObjectInfo} (h : q.objectOf P C K e = some o)
    (prev : Bytes) : q.items P C K prev (e :: es) = o :: q.items P C K prev es := by
  rw [objectOf] at h
  split_ifs at h with hobject
  rw [Bool.or_eq_true, not_or, Bool.not_eq_true, isSome_eq_false_iff, isNone_iff_eq_none,
    Bool.not_eq_true'] at hobject
  obtain ⟨hnone, hobject⟩ := hobject
  rw [commonOf] at hnone
  obtain ⟨fi, hfi, rfl⟩ := map_eq_some_iff.mp h
  rw [items, fileInfosLoop, hnone]
  simp only [hobject, if_true]
  cases hinfo : e.fileInfo P C K q.bucket with
  | error err =>
    rw [hinfo] at hfi
    cases hfi
  | ok fi' =>
    rw [hinfo] at hfi
    cases hfi
    rfl

lemma items_cons_of_not_hasItem (h : ¬ q.HasItem e) (prev : Bytes) :
    q.items P C K prev (e :: es) = q.items P C K prev es := by
  rw [ListRequest.HasItem, not_or, Bool.not_eq_true, Bool.not_eq_true, isSome_eq_false_iff,
    isNone_iff_eq_none, commonOf] at h
  rw [items, fileInfosLoop, h.2]
  simp only [h.1, Bool.false_eq_true, if_false]
  rfl

lemma item_cases (hlive : Live P C K q.bucket es) (he : e ∈ es) :
    (∃ c, q.commonOf e = some c ∧ q.objectOf P C K e = none) ∨
      (q.commonOf e = none ∧ ∃ o, q.objectOf P C K e = some o ∧ o.name = e.name ∧
        q.isPrefixItem o = false) ∨
      (¬ q.HasItem e ∧ q.commonOf e = none ∧ q.objectOf P C K e = none) := by
  rw [objectOf, ListRequest.HasItem]
  cases hcommon : q.commonOf e with
  | some c => exact .inl ⟨c, rfl, by simp⟩
  | none =>
    cases hobject : e.isObject with
    | false => exact .inr (.inr ⟨by simp, rfl, by simp⟩)
    | true =>
      obtain ⟨fi, hinfo, hmod⟩ := hlive.objects e he hobject
      refine .inr (.inl ⟨rfl, toObjectInfo q.versioned fi q.bucket e.name, ?_, ?_, ?_⟩)
      · simp [hinfo, Except.toOption]
      · exact hlive.decoded e he
      · exact isPrefixItem_toObjectInfo hmod e.name

lemma filter_items (hlive : Live P C K q.bucket es) (prev : Bytes) :
    (q.items P C K prev es).filter (fun o => !q.isPrefixItem o) = es.filterMap (q.objectOf P C K) := by
  induction es generalizing prev with
  | nil => rfl
  | cons e es ih =>
    have hrest := hlive.sublist (sublist_cons_self e es)
    rcases item_cases hlive mem_cons_self with ⟨c, hc, hnone⟩ | ⟨-, o, ho, -, hitem⟩ |
      ⟨hno, -, hnone⟩
    · rw [items_cons_of_common hc, filterMap_cons_none hnone]
      split_ifs
      · exact ih hrest prev
      · rw [filter_cons_of_neg (by simp [isPrefixItem_prefixInfo hc]), ih hrest c]
    · rw [items_cons_of_object ho, filterMap_cons_some ho,
        filter_cons_of_pos (by simp [hitem]), ih hrest prev]
    · rw [items_cons_of_not_hasItem hno, filterMap_cons_none hnone, ih hrest prev]

/-- The common prefixes among the items. -/
def ListRequest.prefixNames (q : ListRequest) (items : List ObjectInfo) : List Bytes :=
  (items.filter q.isPrefixItem).map ObjectInfo.name

lemma prefixNames_cons_common (h : q.commonOf e = some c) (items : List ObjectInfo) :
    q.prefixNames (prefixInfo q.bucket c :: items) = c :: q.prefixNames items := by
  rw [prefixNames, filter_cons_of_pos (isPrefixItem_prefixInfo h)]
  rfl

section

variable (hlive : Live P C K q.bucket es)

include hlive

lemma prefixNames_items (hpre : ∀ e ∈ es, q.pre <+: e.name)
    {prev : Bytes} (hprev : ∀ e ∈ es, ∀ c, q.commonOf e = some c → prev ≤ c) :
    (q.prefixNames (q.items P C K prev es)).Pairwise (· < ·) ∧
      ∀ c, c ∈ q.prefixNames (q.items P C K prev es) ↔ (∃ e ∈ es, q.commonOf e = some c) ∧ c ≠ prev := by
  induction es generalizing prev with
  | nil => simp [items, fileInfosLoop, prefixNames]
  | cons e es ih =>
    have hrest := hlive.sublist (sublist_cons_self e es)
    obtain ⟨hpre₁, hpre₂⟩ := forall_mem_cons.mp hpre
    obtain ⟨hprev₁, hprev₂⟩ := forall_mem_cons.mp hprev
    rcases item_cases hlive mem_cons_self with ⟨c, hc, -⟩ | ⟨hnone, o, ho, -, hitem⟩ |
      ⟨hno, hnone, -⟩
    · have hle : ∀ x ∈ es, ∀ c', q.commonOf x = some c' → c ≤ c' := fun x hx c' hc' =>
        currPrefix_mono hpre₁ (hpre₂ x hx) ((pairwise_cons.mp hlive.sorted).1 x hx) hc hc'
      rw [items_cons_of_common hc]
      split_ifs with hsame
      · obtain ⟨hsorted, hmem⟩ := ih hrest hpre₂ hprev₂
        refine ⟨hsorted, fun c' => ?_⟩
        rw [hmem, exists_mem_cons_iff]
        refine and_congr_left fun hne => ⟨.inr, fun h => h.resolve_left fun h' => ?_⟩
        rw [hc] at h'
        exact hne (((Option.some.inj h').symm).trans hsame)
      · obtain ⟨hsorted, hmem⟩ := ih hrest hpre₂ hle
        have hlt : prev < c := lt_of_le_of_ne (hprev₁ c hc) (Ne.symm hsame)
        have hbehind : ∀ c', (∃ x ∈ es, q.commonOf x = some c') ∧ c' ≠ c → c < c' := by
          rintro c' ⟨⟨x, hx, hc'⟩, hne⟩
          exact lt_of_le_of_ne (hle x hx c' hc') (Ne.symm hne)
        rw [prefixNames_cons_common hc]
        refine ⟨pairwise_cons.mpr ⟨fun c' hc' => hbehind c' ((hmem c').mp hc'), hsorted⟩,
          fun c' => ?_⟩
        rw [mem_cons, hmem, exists_mem_cons_iff, hc]
        constructor
        · rintro (rfl | h)
          · exact ⟨.inl rfl, hsame⟩
          · exact ⟨.inr h.1, (hlt.trans (hbehind c' h)).ne'⟩
        · rintro ⟨h | h, -⟩
          · exact .inl (Option.some.inj h).symm
          · by_cases heq : c' = c
            · exact .inl heq
            · exact .inr ⟨h, heq⟩
    · rw [items_cons_of_object ho, prefixNames, filter_cons_of_neg (by simp [hitem])]
      obtain ⟨hsorted, hmem⟩ := ih hrest hpre₂ hprev₂
      refine ⟨hsorted, fun c => ?_⟩
      rw [← prefixNames, hmem, exists_mem_cons_iff, hnone]
      simp
    · rw [items_cons_of_not_hasItem hno]
      obtain ⟨hsorted, hmem⟩ := ih hrest hpre₂ hprev₂
      refine ⟨hsorted, fun c => ?_⟩
      rw [hmem, exists_mem_cons_iff, hnone]
      simp

lemma length_items_le (prev : Bytes) : (q.items P C K prev es).length ≤ es.length := by
  induction es generalizing prev with
  | nil => exact le_refl 0
  | cons e es ih =>
    have hrest := hlive.sublist (sublist_cons_self e es)
    have hle : ∀ prev, (q.items P C K prev es).length ≤ es.length := fun prev => ih hrest prev
    rcases item_cases hlive mem_cons_self with ⟨c, hc, -⟩ | ⟨-, o, ho, -⟩ | ⟨hno, -⟩
    · rw [items_cons_of_common hc]
      split_ifs
      · exact (hle prev).trans (Nat.le_succ _)
      · exact Nat.succ_le_succ (hle c)
    · rw [items_cons_of_object ho]
      exact Nat.succ_le_succ (hle prev)
    · rw [items_cons_of_not_hasItem hno]
      exact (hle prev).trans (Nat.le_succ _)

lemma items_append (prev : Bytes) (es' : List MetaCacheEntry) :
    q.items P C K prev (es ++ es') = q.items P C K prev es ++
      q.items P C K ((es.filterMap q.commonOf).getLastD prev) es' := by
  induction es generalizing prev with
  | nil => rfl
  | cons e es ih =>
    have hrest := hlive.sublist (sublist_cons_self e es)
    rw [cons_append]
    rcases item_cases hlive mem_cons_self with ⟨c, hc, -⟩ | ⟨hnone, o, ho, -⟩ | ⟨hno, hnone, -⟩
    · rw [items_cons_of_common hc, items_cons_of_common hc, filterMap_cons_some hc, getLastD_cons]
      split_ifs with hsame
      · rw [ih hrest, hsame]
      · rw [ih hrest, cons_append]
    · rw [items_cons_of_object ho, items_cons_of_object ho, filterMap_cons_none hnone,
        ih hrest, cons_append]
    · rw [items_cons_of_not_hasItem hno, items_cons_of_not_hasItem hno,
        filterMap_cons_none hnone, ih hrest]

lemma exists_of_mem_items (hpre : ∀ e ∈ es, q.pre <+: e.name)
    {prev : Bytes} {o : ObjectInfo} (ho : o ∈ q.items P C K prev es) :
    ∃ e ∈ es, q.objectOf P C K e = some o ∨ q.commonOf e = some o.name := by
  induction es generalizing prev with
  | nil => cases ho
  | cons e es ih =>
    have hrest := hlive.sublist (sublist_cons_self e es)
    obtain ⟨-, hpre₂⟩ := forall_mem_cons.mp hpre
    have hlater : ∀ prev, o ∈ q.items P C K prev es →
        ∃ x ∈ e :: es, q.objectOf P C K x = some o ∨ q.commonOf x = some o.name := by
      intro prev ho
      obtain ⟨x, hx, hitem⟩ := ih hrest hpre₂ ho
      exact ⟨x, mem_cons_of_mem e hx, hitem⟩
    rcases item_cases hlive mem_cons_self with ⟨c, hc, -⟩ | ⟨-, o', ho', -⟩ | ⟨hno, -⟩
    · rw [items_cons_of_common hc] at ho
      split_ifs at ho
      · exact hlater prev ho
      · rcases mem_cons.mp ho with rfl | ho
        · exact ⟨e, mem_cons_self, .inr hc⟩
        · exact hlater c ho
    · rw [items_cons_of_object ho'] at ho
      rcases mem_cons.mp ho with rfl | ho
      · exact ⟨e, mem_cons_self, .inl ho'⟩
      · exact hlater prev ho
    · rw [items_cons_of_not_hasItem hno] at ho
      exact hlater prev ho

end

end Items

end Obstor.Listing
