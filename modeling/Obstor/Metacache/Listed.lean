import Obstor.Metacache.Walk

/-!
# What a walk is to list

The tree of a volume as `WalkDir` expects it (`Volume.Conforms`), and the directories below a directory
that a walk is to list (`Volume.listed`): the objects, and the directories that hold something and are
neither objects nor in one.
-/

namespace Obstor.Metacache

open Go Meta List
open Go.Path (Elem dirName slash)

/-! ### Names of directory objects -/

lemma decodeDirObject_append (x : Bytes) : decodeDirObject (x ++ globalDirSuffix) = x ++ [slash] := by
  rw [decodeDirObject, if_pos (isSuffixOf_iff_suffix.mpr (suffix_append _ _)), trimSuffix_append]

variable {c : Bytes}

lemma decodeDirObject_of_not_isSuffixOf (h : globalDirSuffix.isSuffixOf c = false) :
    decodeDirObject c = c := by
  rw [decodeDirObject, h, if_neg Bool.false_ne_true]

lemma decodeDirObject_cases (c : Bytes) :
    (∃ x, c = x ++ globalDirSuffix ∧ decodeDirObject c = x ++ [slash]) ∨
      globalDirSuffix.isSuffixOf c = false ∧ decodeDirObject c = c := by
  cases h : globalDirSuffix.isSuffixOf c with
  | true =>
    obtain ⟨x, rfl⟩ := isSuffixOf_iff_suffix.mp h
    exact .inl ⟨x, rfl, decodeDirObject_append x⟩
  | false => exact .inr ⟨rfl, decodeDirObject_of_not_isSuffixOf h⟩

lemma slash_mem_decodeDirObject (hc : Elem c) :
    slash ∈ decodeDirObject c ↔ globalDirSuffix.isSuffixOf c := by
  rcases decodeDirObject_cases c with ⟨x, rfl, h⟩ | ⟨hsuffix, h⟩
  · simp [h]
  · rw [h, hsuffix]
    exact iff_of_false hc.no_slash Bool.false_ne_true

lemma decodeDirObject_ne_nil (hc : Elem c) : decodeDirObject c ≠ [] := by
  rcases decodeDirObject_cases c with ⟨x, -, h⟩ | ⟨-, h⟩
  · rw [h]
    exact append_ne_nil_of_right_ne_nil _ (cons_ne_nil _ _)
  · rw [h]
    exact hc.ne_nil

lemma decodeDirObject_inj {c' : Bytes} (hc : Elem c) (hc' : Elem c')
    (h : decodeDirObject c = decodeDirObject c') : c = c' := by
  have hsuffix : globalDirSuffix.isSuffixOf c = globalDirSuffix.isSuffixOf c' := by
    rw [Bool.eq_iff_iff, ← slash_mem_decodeDirObject hc, ← slash_mem_decodeDirObject hc', h]
  rcases decodeDirObject_cases c with ⟨x, rfl, hx⟩ | ⟨hs, hx⟩
  · rcases decodeDirObject_cases c' with ⟨x', rfl, hx'⟩ | ⟨hs', -⟩
    · rw [hx, hx'] at h
      rw [append_cancel_right h]
    · rw [hs', ← Bool.not_eq_true] at hsuffix
      exact absurd (isSuffixOf_iff_suffix.mpr (suffix_append _ _)) hsuffix
  · rwa [hx, decodeDirObject_of_not_isSuffixOf (hsuffix ▸ hs)] at h

/-! ### The volume -/

namespace Volume

section

variable (v : Volume) (p : List Bytes)

/-- The directory at `p` holds `xl.meta`. -/
def isObject : Bool :=
  (v.node (p ++ [xlStorageFormatFile])).any Option.isSome

/-- Neither `p` nor a directory above it is an object. -/
def Clear : Prop := ∀ q, q <+: p → v.isObject q = false

instance (v : Volume) (p : List Bytes) : Decidable (v.Clear p) :=
  decidable_of_iff (∀ q ∈ p.inits, v.isObject q = false) (by simp [Clear])

/-- The tree as `WalkDir` expects it. -/
structure Conforms : Prop where
  /-- `xl.meta` can be read. -/
  meta_file : ∀ x ∈ v.nodes, x.1.getLastD [] = xlStorageFormatFile → x.2 ≠ none
  /-- Outside of objects there are no files with metadata. -/
  files : ∀ x ∈ v.nodes, x.2 ≠ none → v.Clear x.1.dropLast →
    ¬ xlStorageFormatFile <:+ x.1.getLastD [] ∧ ¬ xlStorageFormatFileV1 <:+ x.1.getLastD []
  /-- The suffix is that of directory objects. -/
  dirObjects : ∀ x ∈ v.nodes, x.2 = none → v.Clear x.1.dropLast →
    globalDirSuffix <:+ x.1.getLastD [] →
      v.isObject x.1 = true ∧ Elem (trimSuffix (x.1.getLastD []) globalDirSuffix)
  no_object_below : ∀ x ∈ v.nodes, v.isObject x.1 = true → v.Clear x.1.dropLast

instance (v : Volume) : Decidable v.Conforms :=
  decidable_of_iff (_ ∧ _ ∧ _ ∧ _) ⟨fun h => ⟨h.1, h.2.1, h.2.2.1, h.2.2.2⟩,
    fun h => ⟨h.meta_file, h.files, h.dirObjects, h.no_object_below⟩⟩

lemma Conforms.plain_file {v : Volume} {p : List Bytes} {c m : Bytes} (hv : v.Conforms)
    (hclear : v.Clear p) (h : (p ++ [c], some m) ∈ v.nodes) :
    ¬ xlStorageFormatFile <:+ c ∧ ¬ xlStorageFormatFileV1 <:+ c := by
  have hfiles := hv.files _ h (Option.some_ne_none m)
  rw [dropLast_concat, getLastD_concat] at hfiles
  exact hfiles hclear

lemma Conforms.dirObject {v : Volume} {p : List Bytes} {x : Bytes} (hv : v.Conforms)
    (hclear : v.Clear p) (h : (p ++ [x ++ globalDirSuffix], none) ∈ v.nodes) :
    v.isObject (p ++ [x ++ globalDirSuffix]) ∧ Elem x := by
  have hdir := hv.dirObjects _ h rfl
  rw [dropLast_concat, getLastD_concat, trimSuffix_append] at hdir
  exact hdir hclear (suffix_append _ _)

def metadata : Bytes :=
  ((v.node (p ++ [xlStorageFormatFile])).bind id).getD []

/-- A directory of the volume, or the volume itself. -/
def IsDir : Prop := v.node p = some none

end

variable {v : Volume} {p : List Bytes}

lemma isDir_nil : v.IsDir [] := by
  rw [IsDir, node, if_pos rfl]

lemma isDir_of_mem (h : (p, none) ∈ v.nodes) : v.IsDir p := node_of_mem h

lemma IsDir.elems (h : v.IsDir p) : ∀ e ∈ p, Elem e := by
  by_cases hp : p = []
  · subst hp
    exact fun e he => nomatch he
  · exact (v.elems _ (mem_of_node hp h)).2

lemma IsDir.of_isPrefix {q : List Bytes} (h : v.IsDir p) (hq : q <+: p) : v.IsDir q := by
  obtain ⟨r, rfl⟩ := hq
  induction r using reverseRecOn with
  | nil => rwa [append_nil] at h
  | append_singleton r e ih =>
    rw [← append_assoc] at h
    have hmem := mem_of_node (append_ne_nil_of_right_ne_nil _ (cons_ne_nil e [])) h
    rcases v.parents _ hmem with hnil | hparent
    · rw [dropLast_concat] at hnil
      refine ih ?_
      rw [hnil]
      exact isDir_nil
    · rw [dropLast_concat] at hparent
      exact ih (isDir_of_mem hparent)

lemma isObject_iff : v.isObject p ↔ ∃ m, (p ++ [xlStorageFormatFile], some m) ∈ v.nodes := by
  have hne : p ++ [xlStorageFormatFile] ≠ [] := append_ne_nil_of_right_ne_nil _ (cons_ne_nil _ _)
  rw [isObject, Option.any_eq_true]
  constructor
  · rintro ⟨d, hd, hsome⟩
    obtain ⟨m, rfl⟩ := Option.isSome_iff_exists.mp hsome
    exact ⟨m, mem_of_node hne hd⟩
  · rintro ⟨m, hm⟩
    exact ⟨some m, node_of_mem hm, rfl⟩

lemma Clear.child {c : Bytes} (h : v.Clear p) (hc : v.isObject (p ++ [c]) = false) :
    v.Clear (p ++ [c]) := by
  intro q hq
  rcases prefix_concat_iff.mp hq with rfl | hq
  · exact hc
  · exact h q hq

variable {elems : List Bytes}

lemma readFile_ok {m : Bytes} (hp : Path.resolve elems = p)
    (h : (p, some m) ∈ v.nodes) : v.readFile elems = .ok m := by
  rw [readFile, hp, node_of_mem h]

lemma readFile_notExist {f : Bytes} (hp : Path.resolve elems = p ++ [f])
    (hdir : v.IsDir p) (h : ∀ d, (p ++ [f], d) ∉ v.nodes) : v.readFile elems = .error .notExist := by
  have hne : p ++ [f] ≠ [] := append_ne_nil_of_right_ne_nil _ (cons_ne_nil _ _)
  have hnode : v.node (p ++ [f]) = none := by
    rw [Option.eq_none_iff_forall_ne_some]
    exact fun d hd => h d (mem_of_node hne hd)
  have hinits : ¬ ((p ++ [f]).inits.any fun q => (v.node q).any Option.isSome) := by
    rw [any_eq_true]
    rintro ⟨q, hq, hsome⟩
    rw [mem_inits, prefix_concat_iff] at hq
    rcases hq with rfl | hq
    · rw [hnode] at hsome
      cases hsome
    · rw [hdir.of_isPrefix hq] at hsome
      cases hsome
  rw [readFile, hp, hnode]
  exact if_neg hinits

lemma readFile_isObject (hp : Path.resolve elems = p ++ [xlStorageFormatFile]) :
    (v.isObject p ∧ v.readFile elems = .ok (v.metadata p)) ∨
      v.isObject p = false ∧ ∃ err, v.readFile elems = .error err := by
  have hne : p ++ [xlStorageFormatFile] ≠ [] := append_ne_nil_of_right_ne_nil _ (cons_ne_nil _ _)
  cases hobject : v.isObject p with
  | true =>
    obtain ⟨m, hm⟩ := isObject_iff.mp hobject
    refine .inl ⟨rfl, ?_⟩
    rw [readFile_ok hp hm, metadata, node_of_mem hm]
    rfl
  | false =>
    refine .inr ⟨rfl, ?_⟩
    rw [readFile, hp]
    split
    · next m hm =>
      rw [isObject_iff.mpr ⟨m, mem_of_node hne hm⟩] at hobject
      cases hobject
    · exact ⟨_, rfl⟩
    · split_ifs
      · exact ⟨_, rfl⟩
      · exact ⟨_, rfl⟩

lemma readFile_meta (hv : v.Conforms) (hdir : v.IsDir p)
    (hp : Path.resolve elems = p ++ [xlStorageFormatFile]) :
    v.readFile elems = if v.isObject p then .ok (v.metadata p) else .error .notExist := by
  split_ifs with hobject
  · exact ((readFile_isObject hp).resolve_right fun h => by rw [h.1] at hobject; cases hobject).2
  · refine readFile_notExist hp hdir fun d hd => ?_
    cases d with
    | none => exact hv.meta_file _ hd getLastD_concat rfl
    | some m => exact hobject (isObject_iff.mpr ⟨m, hd⟩)

lemma readFile_legacy (hv : v.Conforms) (hclear : v.Clear p)
    (hp : Path.resolve elems = p ++ [xlStorageFormatFileV1]) : ∃ err, v.readFile elems = .error err := by
  have hne : p ++ [xlStorageFormatFileV1] ≠ [] := append_ne_nil_of_right_ne_nil _ (cons_ne_nil _ _)
  rw [readFile, hp]
  split
  · next m hm =>
    exact absurd (suffix_refl _) (hv.plain_file hclear (mem_of_node hne hm)).2
  · exact ⟨_, rfl⟩
  · split_ifs
    · exact ⟨_, rfl⟩
    · exact ⟨_, rfl⟩

lemma isDirEmpty_eq {path : Bytes} (hdir : v.IsDir p) (hp : Path.resolve [path] = p) :
    v.isDirEmpty path = decide (v.children p = []) := by
  rw [isDirEmpty, listDir, hp, hdir]
  simp

end Volume

/-! ### Entries -/

/-- The entry of a directory: that of an object, or that of a directory. -/
def entryAt (v : Volume) (q : List Bytes) : MetaCacheEntry :=
  if v.isObject q then
    ⟨dirName q.dropLast ++ decodeDirObject (q.getLastD []), v.metadata q⟩
  else ⟨dirName q, []⟩

section Child

variable {v : Volume} {p : List Bytes} {c : Bytes}

lemma isDir_of_child {d : Option Bytes} (h : (p ++ [c], d) ∈ v.nodes) : v.IsDir p := by
  rcases v.parents _ h with hnil | hmem
  · rw [dropLast_concat] at hnil
    rw [hnil]
    exact Volume.isDir_nil
  · rw [dropLast_concat] at hmem
    exact Volume.isDir_of_mem hmem

lemma elem_of_child {d : Option Bytes} (h : (p ++ [c], d) ∈ v.nodes) : Elem c :=
  (v.elems _ h).2 c (mem_append_right _ (mem_singleton_self c))

lemma resolve_file (hp : ∀ e ∈ p, Elem e) {s f : Bytes} (hs : Path.Proper s) (hf : Elem f) :
    Path.resolve [dirName p ++ s, f] = p ++ Path.parts s ++ [f] := by
  rw [Path.resolve_eq]
  · simp [Path.parts_append_elem hp, hf.parts]
  · intro s' hs'
    rcases mem_cons.mp hs' with rfl | hs'
    · exact Path.proper_append_elem hp hs
    · rw [mem_singleton.mp hs']
      exact hf.proper

lemma resolve_dir (hp : ∀ e ∈ p, Elem e) {s : Bytes} (hs : Path.Proper s) :
    Path.resolve [dirName p ++ s] = p ++ Path.parts s := by
  rw [Path.resolve_eq]
  · simp [Path.parts_append_elem hp]
  · intro s' hs'
    rw [mem_singleton.mp hs']
    exact Path.proper_append_elem hp hs

lemma resolve_dirName (hp : ∀ e ∈ p, Elem e) : Path.resolve [dirName p] = p := by
  have := resolve_dir hp Path.proper_nil
  rwa [append_nil, Path.parts_nil, append_nil] at this

lemma elem_xlStorageFormatFile : Elem xlStorageFormatFile :=
  ⟨by decide, by decide, by decide, by decide⟩

lemma elem_xlStorageFormatFileV1 : Elem xlStorageFormatFileV1 :=
  ⟨by decide, by decide, by decide, by decide⟩

end Child

/-! ### Directories below a directory -/

namespace Volume

variable (v : Volume)

/-- The names of the directories in a directory. -/
def subdirs (p : List Bytes) : List Bytes :=
  (v.children p).filterMap fun c => if c.2 = none then some c.1 else none

/-- A node is to be listed: it is a directory below `base`, and it is an object, or it holds something
and is not in an object. -/
def Listed (base : List Bytes) (recursive : Bool) (x : List Bytes × Option Bytes) : Prop :=
  x.2 = none ∧ (base <+: x.1 ∧ base ≠ x.1) ∧ (recursive = true ∨ x.1.dropLast = base) ∧
    (v.isObject x.1 = true ∨ v.Clear x.1.dropLast ∧ v.children x.1 ≠ [])

instance (base : List Bytes) (recursive : Bool) (x : List Bytes × Option Bytes) :
    Decidable (v.Listed base recursive x) := by
  unfold Listed
  infer_instance

/-- The directories that are to be listed. -/
def listed (base : List Bytes) (recursive : Bool) : List (List Bytes) :=
  (v.nodes.filter (v.Listed base recursive)).map Prod.fst

/-- What is to be listed of one directory. -/
def listedAt (recursive : Bool) (q : List Bytes) : List (List Bytes) :=
  if v.isObject q then [q]
  else if v.children q = [] then []
  else q :: if recursive then v.listed q true else []

variable {v} {p q : List Bytes} {recursive : Bool} {c : Bytes}

lemma mem_subdirs : c ∈ v.subdirs p ↔ (p ++ [c], none) ∈ v.nodes := by
  rw [subdirs, mem_filterMap, ← mem_children]
  constructor
  · rintro ⟨⟨c', d⟩, hmem, h⟩
    obtain ⟨rfl, h⟩ := Option.ite_none_right_eq_some.mp h
    cases h
    exact hmem
  · intro h
    exact ⟨(c, none), h, if_pos rfl⟩

lemma nodup_subdirs (v : Volume) (p : List Bytes) : (v.subdirs p).Nodup := by
  refine ((nodup_children v p).sublist ?_)
  rw [subdirs]
  generalize v.children p = cs
  induction cs with
  | nil => exact Sublist.refl _
  | cons c cs ih =>
    rw [filterMap_cons]
    split
    · exact ih.cons _
    · next b hb =>
      obtain ⟨-, hb⟩ := Option.ite_none_right_eq_some.mp hb
      rw [← Option.some.inj hb]
      exact ih.cons_cons _

lemma children_ne_nil_of_isObject (h : v.isObject p) : v.children p ≠ [] := by
  obtain ⟨m, hm⟩ := isObject_iff.mp h
  exact ne_nil_of_mem (mem_children.mpr hm)

lemma mem_listed (hv : v.Conforms) : q ∈ v.listed p recursive ↔ (q, none) ∈ v.nodes ∧
    (p <+: q ∧ p ≠ q) ∧ (recursive ∨ q.dropLast = p) ∧ v.Clear q.dropLast ∧ v.children q ≠ [] := by
  rw [listed, mem_map]
  constructor
  · rintro ⟨⟨q', d⟩, hmem, rfl⟩
    obtain ⟨hmem, hlisted⟩ := mem_filter.mp hmem
    obtain ⟨rfl, hbelow, hrec, hlisted⟩ := of_decide_eq_true hlisted
    refine ⟨hmem, hbelow, hrec, ?_⟩
    rcases hlisted with hobject | hlisted
    · exact ⟨hv.no_object_below _ hmem hobject, children_ne_nil_of_isObject hobject⟩
    · exact hlisted
  · rintro ⟨hmem, hbelow, hrec, hlisted⟩
    exact ⟨_, mem_filter.mpr ⟨hmem, decide_eq_true ⟨rfl, hbelow, hrec, .inr hlisted⟩⟩, rfl⟩

lemma nodup_listed (v : Volume) (p : List Bytes) (recursive : Bool) :
    (v.listed p recursive).Nodup :=
  v.nodup.sublist (filter_sublist.map _)

lemma isPrefix_of_mem_listedAt (hv : v.Conforms) (h : q ∈ v.listedAt recursive p) : p <+: q := by
  rw [listedAt] at h
  split_ifs at h with hobject hempty hrec
  · exact mem_singleton.mp h ▸ prefix_refl _
  · cases h
  · rcases mem_cons.mp h with rfl | h
    · exact prefix_refl _
    · exact ((mem_listed hv).mp h).2.1.1
  · exact mem_singleton.mp h ▸ prefix_refl _

lemma nodup_listedAt (hv : v.Conforms) (recursive : Bool) (q : List Bytes) :
    (v.listedAt recursive q).Nodup := by
  rw [listedAt]
  split_ifs
  · exact nodup_singleton q
  · exact nodup_nil
  · refine nodup_cons.mpr ⟨fun hmem => ?_, nodup_listed v q true⟩
    exact ((mem_listed hv).mp hmem).2.1.2 rfl
  · exact nodup_singleton q

lemma child_mem_listed (recursive : Bool) (hv : v.Conforms) (hclear : v.Clear p) (hc : c ∈ v.subdirs p)
    (hchildren : v.children (p ++ [c]) ≠ []) : p ++ [c] ∈ v.listed p recursive := by
  refine (mem_listed hv).mpr ⟨mem_subdirs.mp hc, ⟨prefix_append p [c], ?_⟩,
    .inr dropLast_concat, ?_, hchildren⟩
  · exact fun heq => cons_ne_nil c [] (self_eq_append_right.mp heq)
  · rw [dropLast_concat]
    exact hclear

lemma mem_listed_iff (hv : v.Conforms) (hclear : v.Clear p) :
    q ∈ v.listed p recursive ↔ ∃ c ∈ v.subdirs p, q ∈ v.listedAt recursive (p ++ [c]) := by
  constructor
  · intro h
    obtain ⟨hmem, ⟨⟨t, rfl⟩, hne⟩, hrec, hclearq, hchildren⟩ := (mem_listed hv).mp h
    have hdir : v.IsDir (p ++ t) := isDir_of_mem hmem
    cases t with
    | nil => exact absurd (append_nil p).symm hne
    | cons c t =>
      have hc : c ∈ v.subdirs p := by
        have hsplit : p ++ [c] <+: p ++ c :: t := ⟨t, by simp⟩
        exact mem_subdirs.mpr (mem_of_node (append_ne_nil_of_right_ne_nil _
          (cons_ne_nil c [])) (hdir.of_isPrefix hsplit))
      refine ⟨c, hc, ?_⟩
      rw [listedAt]
      cases t with
      | nil =>
        split_ifs
        · exact mem_singleton_self _
        · exact mem_cons_self
        · exact mem_cons_self
      | cons d t =>
        have hlast : (p ++ c :: d :: t).dropLast = (p ++ [c]) ++ (d :: t).dropLast := by
          simp
        have hrec' : recursive := by
          refine hrec.resolve_right fun heq => ?_
          have := congrArg length (heq.symm.trans hlast)
          simp at this
        have hobject : v.isObject (p ++ [c]) = false := hclearq _ ⟨_, hlast.symm⟩
        have hsplit : p ++ [c] ++ [d] <+: p ++ c :: d :: t := ⟨t, by simp⟩
        have hchild : v.children (p ++ [c]) ≠ [] :=
          ne_nil_of_mem (mem_children.mpr (mem_of_node
            (append_ne_nil_of_right_ne_nil _ (cons_ne_nil d []))
            (hdir.of_isPrefix hsplit)))
        rw [hobject, if_neg hchild, hrec']
        refine mem_cons_of_mem _ ((mem_listed hv).mpr ⟨hmem, ⟨⟨d :: t, by simp⟩, ?_⟩,
          .inl rfl, hclearq, hchildren⟩)
        simp
  · rintro ⟨c, hc, h⟩
    rw [listedAt] at h
    split_ifs at h with hobject hempty hrec
    · rw [mem_singleton.mp h]
      exact child_mem_listed _ hv hclear hc (children_ne_nil_of_isObject hobject)
    · cases h
    · rcases mem_cons.mp h with rfl | h
      · exact child_mem_listed _ hv hclear hc hempty
      · obtain ⟨hmem, ⟨hpre, -⟩, -, hrest⟩ := (mem_listed hv).mp h
        have hlt : p.length < q.length := by
          have := hpre.length_le
          rw [length_append] at this
          exact this
        exact (mem_listed hv).mpr ⟨hmem, ⟨(prefix_append p [c]).trans hpre,
          fun heq => hlt.ne (congrArg length heq)⟩, .inl hrec, hrest⟩
    · rw [mem_singleton.mp h]
      exact child_mem_listed _ hv hclear hc hempty

lemma listed_perm (hv : v.Conforms) (hclear : v.Clear p) :
    (v.listed p recursive).Perm ((v.subdirs p).flatMap fun c => v.listedAt recursive (p ++ [c])) := by
  refine (perm_ext_iff_of_nodup (nodup_listed v p recursive) ?_).mpr fun q => ?_
  · refine nodup_flatMap.mpr ⟨fun c _ => nodup_listedAt hv recursive (p ++ [c]), ?_⟩
    refine (nodup_subdirs v p).imp fun {c c'} hne q hq hq' => hne ?_
    have hlen : (p ++ [c]).length = (p ++ [c']).length := by simp
    have heq := prefix_of_prefix_length_le (isPrefix_of_mem_listedAt hv hq)
      (isPrefix_of_mem_listedAt hv hq') hlen.le
    exact singleton_inj.mp (append_cancel_left (heq.eq_of_length hlen))
  · rw [mem_listed_iff hv hclear, mem_flatMap]

end Volume

end Obstor.Metacache
