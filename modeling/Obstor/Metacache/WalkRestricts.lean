import Obstor.Metacache.WalkFilter

/-!
# When `FilterPrefix` and `ForwardTo` only restrict a walk

With the two options `WalkDir` should send a part of what it sends without them (`Restricts`). A name
that is skipped is still looked at in the second loop, under its name with the slash: an object goes out
under the name of a directory object, a directory under a name with two slashes, and a directory object
that shares its name goes out twice.

So they do only if they leave nothing out (`walkDir_restricts_iff`). `Restricts` bounds how often an
entry may be sent (`scanDir_of_restricts`), and a skipped name breaks the bound: it is still looked
at (`mem_keys_of_skipped`), and twice beside a directory object of its name (`two_le_count_keys`).
-/

namespace Obstor.Metacache

open Go Meta Lib List Volume
open Go.Path (Elem dirName slash)

/-! ### What a skipped name leads to -/

section Skipped

variable {P : Packages} {v : Volume} {opts : WalkDirOptions} {p base : List Bytes}
  {pre forward : Bytes} {depth : ℕ} {recursive : Bool}

lemma scanDir_unrestricted_perm (P : Packages) (opts : WalkDirOptions) (hv : v.Conforms)
    (hdir : v.IsDir p) (hclear : v.Clear p) :
    (scanDir P v opts.unrestricted (v.depth + 1) (dirName p) [] []).1.Perm
      ((v.listed p opts.recursive).map (entryAt v)) :=
  have hforward : opts.unrestricted.forwardTo = [] := rfl
  scanDir_perm hv hforward hdir hclear (by omega)

lemma scanDir_perm_keys (hv : v.Conforms) (hdir : v.IsDir p) (hclear : v.Clear p) :
    (scanDir P v opts (depth + 1) (dirName p) pre forward).1.Perm ((keys v pre forward p).flatMap
        (emit v opts (below P v opts depth) (dirName p) (noted v pre forward p))) := by
  rw [scanDir_eq hv hdir hclear]
  exact (holdBack_perm _ _).flatMap_right _

lemma count_le_count_flatMap {α β : Type} [BEq α] [LawfulBEq α] [BEq β] [LawfulBEq β]
    {f : α → List β} {a : α} {b : β} (h : b ∈ f a) (l : List α) :
    l.count a ≤ (l.flatMap f).count b := by
  induction l with
  | nil => exact le_refl _
  | cons x l ih =>
    rw [flatMap_cons, count_append]
    by_cases hx : x = a
    · subst hx
      rw [count_cons_self]
      have := one_le_count_iff.mpr h
      omega
    · rw [count_cons_of_ne hx]
      omega

lemma count_le_count_flatMap_of_mem {α β : Type} [BEq β] {f : α → List β} {a : α} {l : List α}
    (ha : a ∈ l) (b : β) : (f a).count b ≤ (l.flatMap f).count b := by
  obtain ⟨l₁, l₂, rfl⟩ := append_of_mem ha
  rw [flatMap_append, flatMap_cons, count_append, count_append]
  omega

variable {c : Bytes}

lemma mem_keys_of_unskipped (hc : c ∈ v.subdirs p)
    (hskip : skips pre forward (c ++ [slash]) = false) :
    decodeDirObject c ∈ keys v pre forward p := by
  refine mem_filter.mpr ⟨(perm_insertionSort _ _).mem_iff.mpr (mem_map.mpr
    ⟨(c, none), mem_children.mpr (mem_subdirs.mp hc), ?_⟩), ?_⟩
  · rw [keyOf, rawName, hskip]
    rfl
  · exact decide_eq_true (decodeDirObject_ne_nil (elem_of_mem_subdirs hc))

lemma mem_keys_of_skipped (hc : c ∈ v.subdirs p)
    (hskip : skips pre forward (c ++ [slash])) : c ++ [slash] ∈ keys v pre forward p := by
  refine mem_filter.mpr ⟨(perm_insertionSort _ _).mem_iff.mpr (mem_map.mpr
    ⟨(c, none), mem_children.mpr (mem_subdirs.mp hc), ?_⟩), ?_⟩
  · rw [keyOf, rawName, hskip, if_pos rfl]
  · exact decide_eq_true (append_ne_nil_of_right_ne_nil _ (cons_ne_nil _ _))

lemma two_le_count_keys {x : Bytes} (hx : x ∈ v.subdirs p)
    (hc : x ++ globalDirSuffix ∈ v.subdirs p) (hskip : skips pre forward (x ++ [slash]))
    (hunskip : skips pre forward (x ++ globalDirSuffix ++ [slash]) = false) :
    2 ≤ (keys v pre forward p).count (x ++ [slash]) := by
  have hxc : ((x, none) : Bytes × Option Bytes) ≠ (x ++ globalDirSuffix, none) := by
    intro h
    have hlen := congrArg length (Prod.mk.inj h).1
    rw [length_append] at hlen
    exact absurd hlen (by have : globalDirSuffix.length = 9 := rfl; omega)
  have hkeys : (keys v pre forward p).count (x ++ [slash]) =
      ((v.children p).map (keyOf pre forward)).count (x ++ [slash]) := by
    rw [keys, count_filter (by simp), (perm_insertionSort _ _).count_eq]
  have hkx : keyOf pre forward (x, none) = x ++ [slash] := by
    rw [keyOf, rawName, hskip, if_pos rfl]
  have hkc : keyOf pre forward (x ++ globalDirSuffix, none) = x ++ [slash] := by
    rw [keyOf, rawName, hunskip]
    exact decodeDirObject_append x
  have hmemx := mem_children.mpr (mem_subdirs.mp hx)
  have hmemc := mem_children.mpr (mem_subdirs.mp hc)
  have hperm := perm_cons_erase hmemx
  have hmemc' : (x ++ globalDirSuffix, none) ∈ (v.children p).erase (x, none) :=
    (mem_erase_of_ne hxc.symm).mpr hmemc
  have hperm' := hperm.trans ((perm_cons_erase hmemc').cons _)
  rw [hkeys, (hperm'.map _).count_eq, map_cons, map_cons, hkx, hkc, count_cons_self,
    count_cons_self]
  omega

lemma entryAt_mem_scanDir (hv : v.Conforms) (hdir : v.IsDir p) (hclear : v.Clear p)
    (hc : c ∈ v.subdirs p) (hchildren : v.children (p ++ [c]) ≠ [])
    (hskip : skips pre forward (c ++ [slash]) = false) :
    entryAt v (p ++ [c]) ∈ (scanDir P v opts (depth + 1) (dirName p) pre forward).1 := by
  refine (scanDir_perm_keys hv hdir hclear).mem_iff.mpr (mem_flatMap.mpr
    ⟨_, mem_keys_of_unskipped hc hskip, ?_⟩)
  rw [emit, lookAt_unskipped hv hclear hc hskip, foundAt]
  split_ifs with hobject
  · exact mem_singleton_self _
  · rw [entryAt, if_neg hobject]
    exact mem_cons_self

variable (hv : v.Conforms) (hmeta : ∀ x ∈ v.nodes, v.isObject x.1 = true → v.metadata x.1 ≠ [])
  (hdir : v.IsDir p) (hclear : v.Clear p)
  (hcount : ∀ e, (scanDir P v opts (depth + 1) (dirName p) pre forward).1.count e ≤
    ((v.listed base recursive).map (entryAt v)).count e)

include hv hmeta hdir hclear hcount

lemma not_skipped_twin {x : Bytes} (hx : x ∈ v.subdirs p) (hc : x ++ globalDirSuffix ∈ v.subdirs p)
    (hunskip : skips pre forward (x ++ globalDirSuffix ++ [slash]) = false) :
    skips pre forward (x ++ [slash]) = false := by
  by_contra hskip
  rw [Bool.not_eq_false] at hskip
  have hmem := mem_subdirs.mp hc
  obtain ⟨hobject, -⟩ := hv.dirObject hclear hmem
  have hemit : entryAt v (p ++ [x ++ globalDirSuffix]) ∈ emit v opts (below P v opts depth)
      (dirName p) (noted v pre forward p) (x ++ [slash]) := by
    rw [emit, ← decodeDirObject_append x, lookAt_unskipped hv hclear hc hunskip, foundAt,
      if_pos hobject]
    exact mem_singleton_self _
  have hmetadata : (entryAt v (p ++ [x ++ globalDirSuffix])).metadata ≠ [] := by
    rw [entryAt, if_pos hobject]
    exact hmeta _ hmem hobject
  have htwo := (two_le_count_keys hx hc hskip hunskip).trans (count_le_count_flatMap hemit _)
  rw [← (scanDir_perm_keys hv hdir hclear).count_eq] at htwo
  have := (hcount _).trans (count_entryAt_le_one hv hmetadata)
  omega

omit hmeta in
lemma mem_listed_of_skipped {e : MetaCacheEntry} (hc : c ∈ v.subdirs p)
    (hskip : skips pre forward (c ++ [slash]))
    (he : e ∈ emit v opts (below P v opts depth) (dirName p) (noted v pre forward p) (c ++ [slash])) :
    ∃ q ∈ v.listed base recursive, entryAt v q = e := by
  have hmem : e ∈ (scanDir P v opts (depth + 1) (dirName p) pre forward).1 :=
    (scanDir_perm_keys hv hdir hclear).mem_iff.mpr
      (mem_flatMap.mpr ⟨_, mem_keys_of_skipped hc hskip, he⟩)
  have hone := (one_le_count_iff.mpr hmem).trans (hcount e)
  exact mem_map.mp (one_le_count_iff.mp hone)

lemma not_noted_of_skipped (hc : c ∈ v.subdirs p)
    (hskip : skips pre forward (c ++ [slash])) :
    (noted v pre forward p).contains (c ++ [slash]) = false := by
  rw [← Bool.not_eq_true, contains_iff_mem, mem_noted_iff]
  rintro ⟨hc', hunskip⟩
  exact Bool.false_ne_true
    ((not_skipped_twin hv hmeta hdir hclear hcount hc hc' hunskip).symm.trans hskip)

lemma not_skipped_object (hc : c ∈ v.subdirs p)
    (hobject : v.isObject (p ++ [c])) : skips pre forward (c ++ [slash]) = false := by
  by_contra hskip
  rw [Bool.not_eq_false] at hskip
  -- the longest name of an object that is skipped
  let S := (v.subdirs p).toFinset.filter fun c =>
    v.isObject (p ++ [c]) ∧ skips pre forward (c ++ [slash])
  have hS : S.Nonempty := ⟨c, Finset.mem_filter.mpr ⟨mem_toFinset.mpr hc, hobject, hskip⟩⟩
  obtain ⟨c, hcS, hmax⟩ := S.exists_max_image length hS
  obtain ⟨hc, hobject, hskip⟩ := Finset.mem_filter.mp hcS
  have hc := mem_toFinset.mp hc
  have hemit : (⟨dirName (p ++ [c]), v.metadata (p ++ [c])⟩ : MetaCacheEntry) ∈
      emit v opts (below P v opts depth) (dirName p) (noted v pre forward p) (c ++ [slash]) := by
    rw [emit, lookAt_skipped hv hclear hc
      (not_noted_of_skipped hv hmeta hdir hclear hcount hc hskip), if_pos hobject]
    exact mem_singleton_self _
  obtain ⟨q, hq, heq⟩ := mem_listed_of_skipped hv hdir hclear hcount hc hskip hemit
  have hqobject : v.isObject q := by
    refine isObject_of_metadata_ne ?_
    rw [heq]
    exact hmeta _ (mem_subdirs.mp hc) hobject
  have hce := elem_of_mem_subdirs hc
  obtain rfl : q = p ++ [c ++ globalDirSuffix] := by
    refine eq_of_entryAt_name hv hq hqobject hdir.elems (elem_append_globalDirSuffix hce) ?_ ?_
    · intro x hx
      rw [← append_cancel_right hx]
      exact hce
    · rw [heq, decodeDirObject_append, Path.dirName_concat]
  have hc' : c ++ globalDirSuffix ∈ v.subdirs p :=
    mem_subdirs.mpr ((mem_listed hv).mp hq).1
  have hskip' : skips pre forward (c ++ globalDirSuffix ++ [slash]) := by
    by_contra hunskip
    rw [Bool.not_eq_true] at hunskip
    exact Bool.false_ne_true
      ((not_skipped_twin hv hmeta hdir hclear hcount hc hc' hunskip).symm.trans hskip)
  have hle := hmax _ (Finset.mem_filter.mpr ⟨mem_toFinset.mpr hc', hqobject, hskip'⟩)
  rw [length_append] at hle
  exact absurd hle (by have : globalDirSuffix.length = 9 := rfl; omega)

lemma unskipped_of_count : Unskipped v p pre forward := by
  intro c hc hchildren
  have hunskip : skips pre forward (c ++ [slash]) = false := by
    by_contra hskip
    rw [Bool.not_eq_false] at hskip
    by_cases hobject : v.isObject (p ++ [c])
    · exact Bool.false_ne_true
        ((not_skipped_object hv hmeta hdir hclear hcount hc hobject).symm.trans hskip)
    · have hemit : (⟨dirName (p ++ [c]) ++ [slash], []⟩ : MetaCacheEntry) ∈
          emit v opts (below P v opts depth) (dirName p) (noted v pre forward p) (c ++ [slash]) := by
        rw [emit, lookAt_skipped hv hclear hc
          (not_noted_of_skipped hv hmeta hdir hclear hcount hc hskip), if_neg hobject,
          if_neg hchildren]
        exact mem_cons_self
      obtain ⟨q, hq, heq⟩ := mem_listed_of_skipped hv hdir hclear hcount hc hskip hemit
      refine not_two_slashes hv hq (dirName p ++ c) ?_
      rw [heq, Path.dirName_concat]
      simp
  refine ⟨hunskip, ?_⟩
  rintro x hx rfl
  exact not_skipped_twin hv hmeta hdir hclear hcount hx hc hunskip

end Skipped

/-! ### `WalkDir` with the options -/

/-- An entry below the directory that the options ask for; that of the directory itself is not
restricted. -/
def Passes (opts : WalkDirOptions) (e : MetaCacheEntry) : Prop :=
  e.name = opts.baseDir ∨ opts.baseDir ++ opts.filterPrefix <+: e.name ∧ opts.forwardTo ≤ e.name

/-- A directory that is a prefix of `ForwardTo`. -/
def OnTheWay (opts : WalkDirOptions) (e : MetaCacheEntry) : Prop :=
  e.isDir = true ∧ e.name <+: opts.forwardTo

instance (opts : WalkDirOptions) : DecidablePred (Passes opts) := fun _ => by
  unfold Passes
  infer_instance

instance (opts : WalkDirOptions) : DecidablePred (OnTheWay opts) := fun _ => by
  unfold OnTheWay
  infer_instance

/-- The options only restrict the walk: it sends the entries that pass and no others, but it may send
directories on the way to `ForwardTo`. -/
def Restricts (P : Packages) (v : Volume) (opts : WalkDirOptions) : Prop :=
  ((walkDir P v opts.unrestricted).1.filter (Passes opts)).Sublist (walkDir P v opts).1 ∧
    (walkDir P v opts).1.Sublist
      ((walkDir P v opts.unrestricted).1.filter fun e => Passes opts e ∨ OnTheWay opts e)

instance (P : Packages) (v : Volume) (opts : WalkDirOptions) : Decidable (Restricts P v opts) := by
  unfold Restricts
  infer_instance

section WalkDir

variable {P : Packages} {v : Volume} {opts : WalkDirOptions} {base : List Bytes}

variable {q : List Bytes} {recursive : Bool}

lemma entryAt_name_ne (hv : v.Conforms)
    (hq : q ∈ v.listed base recursive) : (entryAt v q).name ≠ dirName base := by
  obtain ⟨p, c, rfl, hc, -⟩ := exists_concat_of_mem_listed hv hq
  obtain ⟨-, ⟨hpre, hne⟩, -⟩ := (mem_listed hv).mp hq
  obtain ⟨t, rfl⟩ := (prefix_concat_iff.mp hpre).resolve_left hne
  have hlong : ∀ w : Bytes, w ≠ [] → dirName (base ++ t) ++ w ≠ dirName base := by
    intro w hw h
    rw [Path.dirName_append, append_assoc] at h
    exact hw (append_eq_nil_iff.mp (self_eq_append_right.mp h.symm)).2
  rw [entryAt_concat_name]
  refine hlong _ ?_
  split_ifs
  · exact decodeDirObject_ne_nil (elem_of_mem_subdirs hc)
  · exact append_ne_nil_of_right_ne_nil _ (cons_ne_nil _ _)

lemma mem_listedAt_cases {p : List Bytes} (hq : q ∈ v.listedAt recursive p) : v.children p ≠ [] ∧
      (q = p ∨ v.isObject p = false ∧ recursive ∧ q ∈ v.listed p true) := by
  rw [listedAt] at hq
  split_ifs at hq with hobject hempty hrec
  · exact ⟨children_ne_nil_of_isObject hobject, .inl (mem_singleton.mp hq)⟩
  · cases hq
  · rcases mem_cons.mp hq with rfl | hq
    · exact ⟨hempty, .inl rfl⟩
    · exact ⟨hempty, .inr ⟨Bool.not_eq_true _ ▸ hobject, hrec, hq⟩⟩
  · exact ⟨hempty, .inl (mem_singleton.mp hq)⟩

section

variable (hv : v.Conforms)

include hv

lemma isPrefix_entryAt_of_listedAt {p : List Bytes}
    (hq : q ∈ v.listedAt recursive p) : (entryAt v p).name <+: (entryAt v q).name := by
  rcases (mem_listedAt_cases hq).2 with rfl | ⟨hobject, -, hq⟩
  · exact prefix_refl _
  · have hname : (entryAt v p).name = dirName p := by
      rw [entryAt, hobject, if_neg Bool.false_ne_true]
    rw [hname]
    exact isPrefix_entryAt hv hq

lemma decodeDirObject_of_not_isObject (hclear : v.Clear base) {c : Bytes}
    (hc : c ∈ v.subdirs base) (hobject : v.isObject (base ++ [c]) = false) :
    decodeDirObject c = c := by
  rcases decodeDirObject_cases c with ⟨x, rfl, -⟩ | ⟨-, hx⟩
  · rw [(hv.dirObject hclear (mem_subdirs.mp hc)).1] at hobject
    cases hobject
  · exact hx

lemma passes_of_untouched (hclear : v.Clear base)
    (hbase : opts.baseDir = dirName base) (h : Untouched v base opts)
    (hq : q ∈ v.listed base opts.recursive) :
    Passes opts (entryAt v q) ∨ OnTheWay opts (entryAt v q) := by
  obtain ⟨c, hc, hqc⟩ := (mem_listed_iff hv hclear).mp hq
  obtain ⟨hchildren, hcases⟩ := mem_listedAt_cases hqc
  obtain ⟨hfilter, -, -, hforward⟩ := h c hc hchildren
  have hfront := isPrefix_entryAt_of_listedAt hv hqc
  have hpre : opts.baseDir ++ opts.filterPrefix <+: (entryAt v q).name := by
    refine IsPrefix.trans ?_ hfront
    rw [hbase, entryAt_concat_name, prefix_append_right_inj]
    split_ifs with hobject
    · exact hfilter
    · rw [Bool.not_eq_true] at hobject
      rw [decodeDirObject_of_not_isObject hv hclear hc hobject] at hfilter
      exact hfilter.trans (prefix_append _ _)
  rcases hforward with hle | ⟨hobject, hway, hbelow⟩
  · exact .inl (.inr ⟨hpre, hle.trans (le_of_isPrefix hfront)⟩)
  · rcases hcases with rfl | ⟨-, hrec, hq⟩
    · refine .inr ?_
      rw [entryAt, hobject]
      exact ⟨rfl, hway⟩
    · obtain ⟨c', hc', hqc'⟩ := (mem_listed_iff hv (hclear.child hobject)).mp hq
      have hle := hbelow hrec c' hc' (mem_listedAt_cases hqc').1
      exact .inl (.inr ⟨hpre, hle.trans (le_of_isPrefix (isPrefix_entryAt_of_listedAt hv hqc'))⟩)

lemma restricts_of_untouched (hbase : ∀ e ∈ base, Elem e)
    (hclear : v.Clear base) (hopts : opts.baseDir = dirName base) (hpre : slash ∉ opts.filterPrefix)
    (h : Untouched v base opts) : Restricts P v opts := by
  have hopts' : opts.unrestricted.baseDir = dirName base := hopts
  have hsame : (walkDir P v opts).1 = (walkDir P v opts.unrestricted).1 := by
    rw [walkDir_eq hbase hclear hopts, walkDir_eq hbase hclear hopts']
    by_cases hdir : v.IsDir base
    · rw [scanDir_untouched hv hdir hclear hpre h]
      rfl
    · rw [scanDir_of_not_isDir hbase hdir, scanDir_of_not_isDir hbase hdir]
  have hall : ∀ e ∈ (walkDir P v opts.unrestricted).1, Passes opts e ∨ OnTheWay opts e := by
    intro e he
    rw [walkDir_eq hbase hclear hopts'] at he
    rcases mem_append.mp he with he | he
    · exact .inl (.inl ((baseEntry_name he).trans hopts.symm))
    · by_cases hdir : v.IsDir base
      · have hperm := scanDir_unrestricted_perm P opts hv hdir hclear
        obtain ⟨q, hq, rfl⟩ := mem_map.mp (hperm.mem_iff.mp he)
        exact passes_of_untouched hv hclear hopts h hq
      · rw [scanDir_of_not_isDir hbase hdir] at he
        cases he
  rw [Restricts, hsame]
  refine ⟨filter_sublist, ?_⟩
  rw [filter_eq_self.mpr fun e he => decide_eq_true (hall e he)]

lemma scanDir_of_restricts (hbase : ∀ e ∈ base, Elem e) (hdir : v.IsDir base)
    (hclear : v.Clear base) (hopts : opts.baseDir = dirName base) (h : Restricts P v opts) :
    (∀ e ∈ (scanDir P v opts (v.depth + 1) (dirName base) opts.filterPrefix opts.forwardTo).1,
        Passes opts e ∨ OnTheWay opts e) ∧
      ∀ e, (scanDir P v opts (v.depth + 1) (dirName base) opts.filterPrefix opts.forwardTo).1.count e ≤
        ((v.listed base opts.recursive).map (entryAt v)).count e := by
  have hopts' : opts.unrestricted.baseDir = dirName base := hopts
  obtain ⟨-, hsub⟩ := h
  have hown : (baseEntry P v base).filter (fun e => Passes opts e ∨ OnTheWay opts e) =
      baseEntry P v base := by
    refine filter_eq_self.mpr fun e he => decide_eq_true (.inl (.inl ?_))
    exact (baseEntry_name he).trans hopts.symm
  rw [walkDir_eq hbase hclear hopts, walkDir_eq hbase hclear hopts', filter_append, hown,
    append_sublist_append_left] at hsub
  refine ⟨fun e he => of_decide_eq_true (mem_filter.mp (hsub.subset he)).2, fun e => ?_⟩
  have hperm := scanDir_unrestricted_perm P opts hv hdir hclear
  exact ((hsub.trans filter_sublist).count_le e).trans (hperm.count_eq e).le

lemma count_below_le (hdir : v.IsDir base) (hclear : v.Clear base)
    {pre forward c : Bytes} {depth : ℕ} (hc : c ∈ v.subdirs base)
    (hchildren : v.children (base ++ [c]) ≠ []) (hobject : v.isObject (base ++ [c]) = false)
    (hskip : skips pre forward (c ++ [slash]) = false) (hrec : opts.recursive)
    (e : MetaCacheEntry) :
    (below P v opts depth (dirName (base ++ [c])) (forwardIn opts (dirName (base ++ [c])))).count e ≤
      (scanDir P v opts (depth + 1) (dirName base) pre forward).1.count e := by
  rw [(scanDir_perm_keys hv hdir hclear).count_eq]
  refine le_trans ?_ (count_le_count_flatMap_of_mem (mem_keys_of_unskipped hc hskip) e)
  rw [emit, lookAt_unskipped hv hclear hc hskip, foundAt, hobject, if_neg hchildren]
  simp only [popped, hrec, if_true]
  exact count_le_count_cons

end

lemma not_isObject_of_isDir (hmeta : ∀ x ∈ v.nodes, v.isObject x.1 → v.metadata x.1 ≠ [])
    (hq : (q, none) ∈ v.nodes) (h : (entryAt v q).isDir) :
    v.isObject q = false := by
  by_contra hobject
  rw [Bool.not_eq_false] at hobject
  rw [entryAt, if_pos hobject] at h
  exact hmeta _ hq hobject (length_eq_zero_iff.mp (of_decide_eq_true h))

lemma untouched_of_restricts (hv : v.Conforms)
    (hmeta : ∀ x ∈ v.nodes, v.isObject x.1 → v.metadata x.1 ≠ [])
    (hbase : ∀ e ∈ base, Elem e) (hclear : v.Clear base) (hopts : opts.baseDir = dirName base)
    (hpre : slash ∉ opts.filterPrefix) (h : Restricts P v opts) : Untouched v base opts := by
  intro c hc hchildren
  have hdir : v.IsDir base := isDir_of_child (mem_subdirs.mp hc)
  obtain ⟨hpass, hcount⟩ := scanDir_of_restricts hv hbase hdir hclear hopts h
  have hunskipped := unskipped_of_count hv hmeta hdir hclear hcount
  have hskip := (hunskipped c hc hchildren).1
  obtain ⟨hfront, hforward⟩ := skips_eq_false_iff.mp hskip
  have hne : (entryAt v (base ++ [c])).name ≠ opts.baseDir := by
    rw [hopts]
    exact entryAt_name_ne hv (child_mem_listed true hv hclear hc hchildren)
  have htwin : ∀ x ∈ v.subdirs base, c = x ++ globalDirSuffix → opts.forwardTo ≤ x ++ [slash] :=
    fun x hx hcx => (skips_eq_false_iff.mp ((hunskipped c hc hchildren).2 x hx hcx)).2
  rcases hpass _ (entryAt_mem_scanDir hv hdir hclear hc hchildren hskip) with hpasses | ⟨hisDir, hway⟩
  · obtain ⟨hname, hle⟩ := hpasses.resolve_left hne
    refine ⟨?_, hforward, htwin, .inl hle⟩
    rw [hopts, entryAt_concat_name, prefix_append_right_inj] at hname
    split_ifs at hname with hobject
    · exact hname
    · rw [Bool.not_eq_true] at hobject
      rw [decodeDirObject_of_not_isObject hv hclear hc hobject]
      exact isPrefix_of_isPrefix_slash hpre hname
  · have hobject := not_isObject_of_isDir hmeta (mem_subdirs.mp hc) hisDir
    have hname : (entryAt v (base ++ [c])).name = dirName (base ++ [c]) := by
      rw [entryAt, hobject, if_neg Bool.false_ne_true]
    rw [hname] at hway
    refine ⟨?_, hforward, htwin, .inr ⟨hobject, hway, fun hrec c' hc' hchildren' => ?_⟩⟩
    · rw [decodeDirObject_of_not_isObject hv hclear hc hobject]
      exact isPrefix_of_isPrefix_slash hpre hfront
    · obtain ⟨t, ht⟩ := hway
      have hdirc := isDir_of_mem (mem_subdirs.mp hc)
      have hclearc := hclear.child hobject
      obtain ⟨depth, hdepth⟩ := exists_depth hdirc
      have hinner : ∀ e, (scanDir P v opts (depth + 1) (dirName (base ++ [c])) [] t).1.count e ≤
          (scanDir P v opts (v.depth + 1) (dirName base) opts.filterPrefix opts.forwardTo).1.count e := by
        intro e
        rw [← hdepth, ← forwardIn_append (dirName_concat_ne_nil _ _) ht.symm]
        exact count_below_le hv hdir hclear hc hchildren hobject hskip hrec e
      have hunskipped' := unskipped_of_count hv hmeta hdirc hclearc
        fun e => (hinner e).trans (hcount e)
      have hskip' := (hunskipped' c' hc' hchildren').1
      have hmem := one_le_count_iff.mp ((one_le_count_iff.mpr
        (entryAt_mem_scanDir hv hdirc hclearc hc' hchildren' hskip')).trans (hinner _))
      have hlisted : base ++ [c] ++ [c'] ∈ v.listed base true := by
        refine (mem_listed_iff hv hclear).mpr ⟨c, hc, ?_⟩
        rw [listedAt, hobject, if_neg hchildren]
        exact mem_cons_of_mem _ (child_mem_listed _ hv hclearc hc' hchildren')
      have hne' : (entryAt v (base ++ [c] ++ [c'])).name ≠ opts.baseDir := by
        rw [hopts]
        exact entryAt_name_ne hv hlisted
      rcases hpass _ hmem with hpasses | ⟨hisDir', -⟩
      · exact (hpasses.resolve_left hne').2
      · have hobject' := not_isObject_of_isDir hmeta (mem_subdirs.mp hc') hisDir'
        rw [entryAt_concat_name, hobject', ← ht]
        exact append_le_append (skips_eq_false_iff.mp hskip').2

/-- The two options only restrict the walk exactly if they leave nothing out. -/
theorem walkDir_restricts_iff (P : Packages) (v : Volume) (hv : v.Conforms)
    (hmeta : ∀ x ∈ v.nodes, v.isObject x.1 = true → v.metadata x.1 ≠ []) (base : List Bytes)
    (hbase : ∀ e ∈ base, Elem e) (hclear : v.Clear base) (recursive reportNotFound : Bool)
    (filterPrefix forwardTo : Bytes) (hpre : slash ∉ filterPrefix) :
    Restricts P v ⟨dirName base, recursive, reportNotFound, filterPrefix, forwardTo⟩ ↔
      Untouched v base ⟨dirName base, recursive, reportNotFound, filterPrefix, forwardTo⟩ :=
  ⟨fun h => untouched_of_restricts hv hmeta hbase hclear rfl hpre h,
    fun h => restricts_of_untouched hv hbase hclear rfl hpre h⟩

end WalkDir

/-- The objects `a` and `b`. -/
def twoObjects : Volume where
  nodes := [([[97]], none), ([[97], xlStorageFormatFile], some [1]),
    ([[98]], none), ([[98], xlStorageFormatFile], some [2])]
  elems := by decide
  nodup := by decide
  parents := by decide

/-- With `ForwardTo` `b` the object `a` goes out under the name `a/`. -/
theorem walkDir_forwardTo_skipped :
    (walkDir Packages.std twoObjects ⟨[], true, false, [], [98]⟩).1 =
        [⟨[97, 47], [1]⟩, ⟨[98], [2]⟩] ∧
      ¬ Restricts Packages.std twoObjects ⟨[], true, false, [], [98]⟩ := by
  decide +kernel

/-- `ForwardTo` with the first of two names leaves nothing out. -/
theorem walkDir_restricts_iff_twoObjects :
    Restricts Packages.std twoObjects ⟨[], true, false, [], [97]⟩ :=
  (walkDir_restricts_iff Packages.std twoObjects (by decide) (by decide) [] (by decide) (by decide)
    true false [] [97] (by decide)).mpr (by decide +kernel)

/-! ### Objects in a walk from a position on -/

/-- The walk of a volume from `ForwardTo` on sends the objects at its top under their names: neither the
directory of such an object comes before the position, nor one that shares the name of a directory
object. -/
def Reached (v : Volume) (forwardTo : Bytes) : Prop :=
  ∀ c ∈ v.subdirs [], v.isObject [c] = true → forwardTo ≤ c ++ [slash] ∧
    ∀ x ∈ v.subdirs [], c = x ++ globalDirSuffix → forwardTo ≤ x ++ [slash]

instance (v : Volume) (forwardTo : Bytes) : Decidable (Reached v forwardTo) := by
  unfold Reached
  infer_instance

section Reached

variable {P : Packages} {v : Volume} {opts : WalkDirOptions} {p : List Bytes}

lemma reached_nil : Reached v [] := fun _ _ _ =>
  ⟨le_of_isPrefix nil_prefix, fun _ _ _ => le_of_isPrefix nil_prefix⟩

lemma secondPass_congr {scan : Bytes → Bytes → List MetaCacheEntry} {current current' : Bytes}
    (h : ∀ entry, Path.pathJoin [current, entry] = Path.pathJoin [current', entry])
    (dirObjects entries stack : List Bytes) :
    secondPass v opts scan current dirObjects entries stack =
      secondPass v opts scan current' dirObjects entries stack := by
  have hlook : ∀ entry, lookAt v current dirObjects entry = lookAt v current' dirObjects entry := by
    intro entry
    rw [lookAt, lookAt, h]
  induction entries generalizing stack with
  | nil => rfl
  | cons entry entries ih => simp only [secondPass, h, hlook, ih]

/-- A directory that was skipped is scanned under its name with a second slash. -/
lemma scanDir_slash (hv : v.Conforms) (hdir : v.IsDir p) (hclear : v.Clear p) (hp : p ≠ [])
    (depth : ℕ) : (scanDir P v opts depth (dirName p ++ [slash]) [] []).1 =
      (scanDir P v opts depth (dirName p) [] []).1 := by
  cases depth with
  | zero => rfl
  | succ depth =>
    have hlist : ∀ path, Path.resolve [path] = p →
        v.listDir path = some ((v.children p).map rawName) := by
      intro path hpath
      rw [listDir, hpath, hdir]
    obtain ⟨q, c, rfl⟩ := (eq_nil_or_concat' p).resolve_left hp
    have hc : dirName q ++ c ≠ [] :=
      append_ne_nil_of_right_ne_nil _ (hdir.elems c (by simp)).ne_nil
    rw [scanDir, scanDir, hlist _ (resolve_dirName_slash hdir.elems),
      hlist _ (resolve_dirName hdir.elems)]
    simp only [firstPass_eq (plain_children hv hclear)]
    refine secondPass_congr (fun entry => ?_) _ _ _
    rw [Path.dirName_concat, ← append_assoc]
    exact Path.pathJoin_slash_slash hc entry

lemma forwardIn_of_count {pop : Bytes} (h : opts.forwardTo.count slash < pop.count slash) :
    forwardIn opts pop = [] := by
  refine if_neg fun hpre => ?_
  have hpop := isPrefixOf_iff_prefix.mp hpre.2
  have := hpop.sublist.count_le slash
  omega

lemma count_slash_dirName (p : List Bytes) : p.length ≤ (dirName p).count slash := by
  induction p with
  | nil => exact le_refl _
  | cons c p ih =>
    rw [length_cons, dirName, flatMap_cons, count_append, count_append]
    have hone : ([slash] : Bytes).count slash = 1 := rfl
    rw [dirName] at ih
    omega

variable {q : List Bytes} {c : Bytes}

/-- What is listed of a directory at the top is listed whether the directory is skipped or not. -/
lemma mem_below_of_listed (hv : v.Conforms) (hclear : v.Clear [])
    (hslash : opts.forwardTo.count slash ≤ 1) (hrec : opts.recursive) (hc : c ∈ v.subdirs [])
    (hobject : v.isObject [c] = false) (hq : q ∈ v.listed [c] true) :
    entryAt v q ∈ below P v opts v.depth (dirName [c]) [] := by
  have hdir : v.IsDir [c] := isDir_of_mem (mem_subdirs.mp hc)
  have hclear := hclear.child hobject
  have hforward : opts.unrestricted.forwardTo = [] := rfl
  rw [below, scanDir_of_forwardIn hv hdir hclear fun t ht => forwardIn_of_count ?_]
  · refine (scanDir_perm hv hforward hdir hclear ?_).mem_iff.mpr (mem_map_of_mem ?_)
    · rw [length_singleton]
      omega
    · rw [WalkDirOptions.unrestricted, hrec]
      exact hq
  · have hlen := count_slash_dirName ([c] ++ t)
    rw [length_append, length_singleton] at hlen
    have := length_pos_iff.mpr ht
    omega

/-- A walk of a volume from a position on sends every object under its name, also an object in a
directory that is skipped. -/
lemma entryAt_mem_walkDir (hv : v.Conforms) (hclear : v.Clear []) {forwardTo : Bytes}
    (hslash : forwardTo.count slash ≤ 1) (h : Reached v forwardTo) (hmem : (q, none) ∈ v.nodes)
    (hobject : v.isObject q) : entryAt v q ∈ (walkDir P v ⟨[], true, false, [], forwardTo⟩).1 := by
  have hlisted : q ∈ v.listed [] true := (mem_listed hv).mpr
    ⟨hmem, ⟨List.nil_prefix, fun hnil => (v.elems _ hmem).1 hnil.symm⟩, .inl rfl,
      hv.no_object_below _ hmem hobject, children_ne_nil_of_isObject hobject⟩
  obtain ⟨c, hc, hqc⟩ := (mem_listed_iff hv hclear).mp hlisted
  obtain ⟨hchildren, hcases⟩ := mem_listedAt_cases hqc
  have hbase : ∀ e ∈ ([] : List Bytes), Elem e := nofun
  rw [walkDir_eq hbase hclear rfl]
  refine mem_append_right _ ?_
  rcases hcases with rfl | ⟨hdirectory, -, hq⟩
  · refine entryAt_mem_scanDir hv isDir_nil hclear hc hchildren ?_
    exact skips_eq_false_iff.mpr ⟨List.nil_prefix, (h c hc hobject).1⟩
  · rw [nil_append] at hdirectory hchildren hq
    have hbelow := @mem_below_of_listed P _ ⟨[], true, false, [], forwardTo⟩ _ _ hv hclear
      hslash rfl hc hdirectory hq
    have hname : dirName [c] = c ++ [slash] := Path.dirName_concat [] c
    refine (scanDir_perm_keys hv isDir_nil hclear).mem_iff.mpr (mem_flatMap.mpr ?_)
    cases hskip : skips [] forwardTo (c ++ [slash]) with
    | false =>
      refine ⟨_, mem_keys_of_unskipped hc hskip, ?_⟩
      have hle : forwardTo ≤ dirName [c] := hname ▸ (skips_eq_false_iff.mp hskip).2
      rw [emit, lookAt_unskipped hv hclear hc hskip, foundAt, nil_append, hdirectory,
        if_neg Bool.false_ne_true, if_neg hchildren]
      refine mem_cons_of_mem _ ?_
      rw [forwardIn_of_le hle]
      exact hbelow
    | true =>
      refine ⟨_, mem_keys_of_skipped hc hskip, ?_⟩
      -- a directory object of the name would not be skipped
      have hnoted : (noted v [] forwardTo []).contains (c ++ [slash]) = false := by
        rw [← Bool.not_eq_true, contains_iff_mem, mem_noted_iff]
        rintro ⟨hc', -⟩
        have hle := (h _ hc' (hv.dirObject hclear (mem_subdirs.mp hc')).1).2 c hc rfl
        rw [skips_eq_false_iff.mpr ⟨List.nil_prefix, hle⟩] at hskip
        cases hskip
      have hforward : forwardIn ⟨[], true, false, [], forwardTo⟩ (dirName [c] ++ [slash]) = [] := by
        refine forwardIn_of_count ?_
        have hlen := count_slash_dirName [c]
        have hone : ([slash] : Bytes).count slash = 1 := rfl
        rw [length_singleton] at hlen
        rw [count_append]
        show forwardTo.count slash < _
        omega
      rw [emit, lookAt_skipped hv hclear hc hnoted, nil_append, hdirectory,
        if_neg Bool.false_ne_true, if_neg hchildren]
      refine mem_cons_of_mem _ ?_
      have hdir : v.IsDir [c] := isDir_of_mem (mem_subdirs.mp hc)
      have hclearc : v.Clear [c] := hclear.child hdirectory
      rw [hforward, if_pos rfl, below, scanDir_slash hv hdir hclearc (cons_ne_nil c [])]
      exact hbelow

end Reached

end Obstor.Metacache
