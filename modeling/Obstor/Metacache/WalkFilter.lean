import Obstor.Metacache.WalkOrder

/-!
# `FilterPrefix` and `ForwardTo`

The first loop of `scanDir` skips the names that `FilterPrefix` and `ForwardTo` leave out, but they stay
in the list that the second loop goes over, with their slash.
-/

namespace Obstor.Metacache

open Go Meta Lib List Volume
open Go.Path (Elem dirName slash)

/-! ### Names in the second loop -/

section Keys

variable {v : Volume} {p : List Bytes} {pre forward : Bytes}

lemma mem_keys_cases {key : Bytes} (hkey : key ∈ keys v pre forward p) :
    (∃ f m, (f, some m) ∈ v.children p ∧ key = f) ∨
      (∃ c ∈ v.subdirs p, skips pre forward (c ++ [slash]) = false ∧ key = decodeDirObject c) ∨
      ∃ c ∈ v.subdirs p, skips pre forward (c ++ [slash]) ∧ key = c ++ [slash] := by
  obtain ⟨hkey, hne⟩ := mem_filter.mp hkey
  obtain ⟨⟨c, d⟩, hc, rfl⟩ := mem_map.mp ((perm_insertionSort _ _).mem_iff.mp hkey)
  cases hskip : skips pre forward (rawName (c, d)) with
  | true =>
    rw [keyOf, hskip]
    cases d with
    | some m => exact .inl ⟨c, m, hc, rfl⟩
    | none =>
      exact .inr (.inr ⟨c, mem_subdirs.mpr (mem_children.mp hc), hskip, rfl⟩)
  | false =>
    rw [keyOf, hskip] at hne ⊢
    cases d with
    | some m => simp [entryKey] at hne
    | none =>
      exact .inr (.inl ⟨c, mem_subdirs.mpr (mem_children.mp hc), hskip, rfl⟩)

variable {c : Bytes}

lemma elem_of_mem_children {d : Option Bytes} (hc : (c, d) ∈ v.children p) : Elem c :=
  elem_of_child (mem_children.mp hc)

lemma elem_of_mem_subdirs (hc : c ∈ v.subdirs p) : Elem c :=
  elem_of_child (mem_subdirs.mp hc)

lemma pathJoin_key (hv : v.Conforms) (hdir : v.IsDir p) (hclear : v.Clear p) {key : Bytes}
    (hkey : key ∈ keys v pre forward p) : Path.pathJoin [dirName p, key] = dirName p ++ key := by
  rcases mem_keys_cases hkey with ⟨f, m, hf, rfl⟩ | ⟨c, hc, -, rfl⟩ | ⟨c, hc, -, rfl⟩
  · exact Path.pathJoin_elem hdir.elems (elem_of_mem_children hf)
  · exact pathJoin_decodeDirObject hv hclear hc
  · exact Path.pathJoin_elem_slash hdir.elems (elem_of_mem_subdirs hc)

lemma pairwise_keys (hv : v.Conforms) (hdir : v.IsDir p) (hclear : v.Clear p) :
    (keys v pre forward p).Pairwise fun a b =>
      Path.pathJoin [dirName p, a] ≤ Path.pathJoin [dirName p, b] := by
  have hsorted : (keys v pre forward p).Pairwise (· ≤ ·) :=
    (pairwise_insertionSort _ _).sublist filter_sublist
  refine hsorted.imp_of_mem fun {a b} ha hb hle => ?_
  rw [pathJoin_key hv hdir hclear ha, pathJoin_key hv hdir hclear hb]
  rcases hle.lt_or_eq with hlt | rfl
  · exact (append_left_lt hlt).le
  · exact le_refl _

lemma lookAt_file (hdir : v.IsDir p) {f m : Bytes} (hf : (f, some m) ∈ v.children p)
    {dirObjects : List Bytes} (hnoted : dirObjects.contains f = false) :
    lookAt v (dirName p) dirObjects f = .nothing := by
  have hfe := elem_of_mem_children hf
  have hmem := mem_children.mp hf
  have hread : v.readFile [dirName p ++ f, xlStorageFormatFile] = .error .notDir := by
    have hnode : v.node (p ++ [f] ++ [xlStorageFormatFile]) = none := by
      rw [Option.eq_none_iff_forall_ne_some]
      intro d hd
      have hdir := isDir_of_child (mem_of_node
        (append_ne_nil_of_right_ne_nil _ (cons_ne_nil _ _)) hd)
      rw [Volume.IsDir, node_of_mem hmem] at hdir
      cases hdir
    rw [readFile, resolve_file hdir.elems hfe.proper elem_xlStorageFormatFile, hfe.parts, hnode]
    refine if_pos (any_eq_true.mpr ⟨p ++ [f], ?_, ?_⟩)
    · exact (mem_inits _ _).mpr (prefix_append _ _)
    · rw [node_of_mem hmem]
      rfl
  rw [lookAt, hnoted]
  simp [Path.pathJoin_elem hdir.elems hfe, hread]

lemma resolve_dirName_slash (hp : ∀ e ∈ p, Elem e) : Path.resolve [dirName p ++ [slash]] = p := by
  have hproper : Path.Proper [slash] := Path.proper_append_slash Path.proper_nil Path.proper_nil
  have hparts : Path.parts [slash] = [] := Path.parts_append_slash [] []
  rw [resolve_dir hp hproper, hparts, append_nil]

lemma lookAt_skipped (hv : v.Conforms) (hclear : v.Clear p) (hc : c ∈ v.subdirs p)
    {dirObjects : List Bytes} (hnoted : dirObjects.contains (c ++ [slash]) = false) :
    lookAt v (dirName p) dirObjects (c ++ [slash]) =
      if v.isObject (p ++ [c]) then .object ⟨dirName (p ++ [c]), v.metadata (p ++ [c])⟩
      else if v.children (p ++ [c]) = [] then .nothing
      else .directory (dirName (p ++ [c]) ++ [slash]) := by
  have hmem := mem_subdirs.mp hc
  have hp := (isDir_of_child hmem).elems
  have hce := elem_of_child hmem
  have hdir := isDir_of_mem hmem
  have hread : v.readFile [dirName (p ++ [c]), xlStorageFormatFile] =
      if v.isObject (p ++ [c]) then .ok (v.metadata (p ++ [c])) else .error .notExist := by
    refine readFile_meta hv hdir ?_
    rw [Path.dirName_concat, resolve_file hp hce.proper_slash elem_xlStorageFormatFile,
      hce.parts_slash]
  rw [lookAt, hnoted]
  simp only [Bool.false_eq_true, if_false, Path.pathJoin_elem_slash hp hce,
    ← Path.dirName_concat, hread]
  cases hobject : v.isObject (p ++ [c]) with
  | true => rfl
  | false =>
    obtain ⟨err, hlegacy⟩ : ∃ err,
        v.readFile [dirName (p ++ [c]), xlStorageFormatFileV1] = .error err := by
      refine readFile_legacy hv (hclear.child hobject) ?_
      rw [Path.dirName_concat, resolve_file hp hce.proper_slash elem_xlStorageFormatFileV1,
        hce.parts_slash]
    have hempty : v.isDirEmpty (dirName (p ++ [c]) ++ [slash]) =
        decide (v.children (p ++ [c]) = []) :=
      isDirEmpty_eq hdir (resolve_dirName_slash hdir.elems)
    by_cases hchildren : v.children (p ++ [c]) = []
    all_goals simp [hlegacy, hempty, hchildren]

lemma mem_noted_iff : c ++ [slash] ∈ noted v pre forward p ↔ c ++ globalDirSuffix ∈ v.subdirs p ∧
      skips pre forward (c ++ globalDirSuffix ++ [slash]) = false := by
  rw [noted, mem_filterMap]
  constructor
  · rintro ⟨⟨c', d⟩, hc', hkey⟩
    obtain ⟨⟨hskip, rfl, hsuffix⟩, hkey⟩ := Option.ite_none_right_eq_some.mp hkey
    obtain ⟨x, rfl⟩ := isSuffixOf_iff_suffix.mp hsuffix
    have heq : x ++ [slash] = c ++ [slash] := by
      rw [← decodeDirObject_append x]
      exact Option.some.inj hkey
    obtain rfl := append_cancel_right heq
    refine ⟨mem_subdirs.mpr (mem_children.mp hc'), ?_⟩
    rwa [Bool.not_eq_true'] at hskip
  · rintro ⟨hc', hskip⟩
    refine ⟨(c ++ globalDirSuffix, none), mem_children.mpr (mem_subdirs.mp hc'), ?_⟩
    rw [dirKey, if_pos ⟨by rw [Bool.not_eq_true']; exact hskip, rfl,
      isSuffixOf_iff_suffix.mpr (suffix_append _ _)⟩, entryKey, decodeDirObject_append]

lemma not_mem_noted {f : Bytes} (hf : slash ∉ f) : f ∉ noted v pre forward p := by
  intro hmem
  obtain ⟨⟨c', d⟩, hc', hkey⟩ := mem_filterMap.mp hmem
  obtain ⟨⟨-, rfl, hsuffix⟩, hkey⟩ := Option.ite_none_right_eq_some.mp hkey
  refine hf ?_
  rw [← Option.some.inj hkey]
  exact (slash_mem_decodeDirObject (elem_of_mem_children hc')).mpr hsuffix

end Keys

/-! ### A scan that skips nothing that is listed -/

/-- The options without `FilterPrefix` and `ForwardTo`. -/
def WalkDirOptions.unrestricted (opts : WalkDirOptions) : WalkDirOptions :=
  { opts with filterPrefix := [], forwardTo := [] }

/-- Nothing that is listed is skipped in the directory, and no name that is also that of a directory
object. -/
def Unskipped (v : Volume) (p : List Bytes) (pre forward : Bytes) : Prop :=
  ∀ c ∈ v.subdirs p, v.children (p ++ [c]) ≠ [] → skips pre forward (c ++ [slash]) = false ∧
    ∀ x ∈ v.subdirs p, c = x ++ globalDirSuffix → skips pre forward (x ++ [slash]) = false

section Unskipped

variable {P : Packages} {v : Volume} {p : List Bytes} {pre forward : Bytes} {opts : WalkDirOptions}

lemma unskipped_nil : Unskipped v p [] [] := fun _ _ _ => ⟨rfl, fun _ _ _ => rfl⟩

/-- The name of something that is listed. -/
def busy (v : Volume) (p : List Bytes) (key : Bytes) : Bool :=
  key ∈ ((v.subdirs p).filter fun c => v.children (p ++ [c]) ≠ []).map decodeDirObject

lemma busy_iff {key : Bytes} : busy v p key ↔
    ∃ c ∈ v.subdirs p, v.children (p ++ [c]) ≠ [] ∧ decodeDirObject c = key := by
  simp [busy, and_assoc]

lemma idle_key (hv : v.Conforms) (hdir : v.IsDir p) (hclear : v.Clear p)
    (hunskipped : Unskipped v p pre forward) {key : Bytes} (hkey : key ∈ keys v pre forward p)
    (hbusy : busy v p key = false) :
    lookAt v (dirName p) (noted v pre forward p) key = .nothing := by
  rw [← Bool.not_eq_true, busy_iff] at hbusy
  rcases mem_keys_cases hkey with ⟨f, m, hf, rfl⟩ | ⟨c, hc, hskip, rfl⟩ | ⟨c, hc, hskip, rfl⟩
  · refine lookAt_file hdir hf ?_
    rw [← Bool.not_eq_true, contains_iff_mem]
    exact not_mem_noted (elem_of_mem_children hf).no_slash
  · have hempty : v.children (p ++ [c]) = [] := by
      by_contra hchildren
      exact hbusy ⟨c, hc, hchildren, rfl⟩
    rw [lookAt_unskipped hv hclear hc hskip, foundAt, if_pos hempty]
    exact if_neg fun hobject => children_ne_nil_of_isObject hobject hempty
  · have hempty : v.children (p ++ [c]) = [] := by
      by_contra hchildren
      exact Bool.false_ne_true ((hunskipped c hc hchildren).1.symm.trans hskip)
    rw [lookAt_skipped hv hclear hc, if_pos hempty]
    · exact if_neg fun hobject => children_ne_nil_of_isObject hobject hempty
    · rw [← Bool.not_eq_true, contains_iff_mem, mem_noted_iff]
      rintro ⟨hc', -⟩
      refine hbusy ⟨_, hc', ?_, decodeDirObject_append c⟩
      exact children_ne_nil_of_isObject (hv.dirObject hclear (mem_subdirs.mp hc')).1

lemma filter_map_congr {α β : Type} {f g : α → β} {q : β → Bool} {l : List α}
    (h : ∀ a ∈ l, f a = g a ∨ q (f a) = false ∧ q (g a) = false) :
    (l.map f).filter q = (l.map g).filter q := by
  induction l with
  | nil => rfl
  | cons a l ih =>
    obtain ⟨ha, hl⟩ := forall_mem_cons.mp h
    rw [map_cons, map_cons]
    rcases ha with heq | ⟨hf, hg⟩
    · rw [heq, filter_cons, filter_cons, ih hl]
    · rw [filter_cons_of_neg (by rw [hf]; exact Bool.false_ne_true),
        filter_cons_of_neg (by rw [hg]; exact Bool.false_ne_true), ih hl]

lemma not_busy_of_skips (hunskipped : Unskipped v p pre forward) {a : Bytes × Option Bytes}
    (ha : a ∈ v.children p) (hskip : skips pre forward (rawName a)) :
    busy v p (rawName a) = false ∧ busy v p (entryKey a) = false := by
  obtain ⟨c, d⟩ := a
  rw [← Bool.not_eq_true, ← Bool.not_eq_true, busy_iff, busy_iff]
  cases d with
  | some m =>
    refine ⟨?_, ?_⟩
    · rintro ⟨c', hc', -, heq⟩
      have hplain : globalDirSuffix.isSuffixOf c' = false := by
        rw [← Bool.not_eq_true, ← slash_mem_decodeDirObject (elem_of_mem_subdirs hc'), heq]
        exact (elem_of_mem_children ha).no_slash
      rw [decodeDirObject_of_not_isSuffixOf hplain] at heq
      have hnode := node_of_mem (mem_subdirs.mp hc')
      rw [show c' = c from heq, node_of_mem (mem_children.mp ha)] at hnode
      cases hnode
    · rintro ⟨c', hc', -, heq⟩
      exact decodeDirObject_ne_nil (elem_of_mem_subdirs hc') heq
  | none =>
    have hc : c ∈ v.subdirs p := mem_subdirs.mpr (mem_children.mp ha)
    refine ⟨?_, ?_⟩
    · rintro ⟨c', hc', hchildren, heq⟩
      have hname : c' = c ++ globalDirSuffix :=
        decodeDirObject_inj (elem_of_mem_subdirs hc')
          (elem_append_globalDirSuffix (elem_of_mem_subdirs hc))
          (heq.trans (decodeDirObject_append c).symm)
      exact Bool.false_ne_true (((hunskipped c' hc' hchildren).2 c hc hname).symm.trans hskip)
    · rintro ⟨c', hc', hchildren, heq⟩
      obtain rfl := decodeDirObject_inj (elem_of_mem_subdirs hc') (elem_of_mem_subdirs hc) heq
      exact Bool.false_ne_true ((hunskipped c' hc' hchildren).1.symm.trans hskip)

lemma filter_keys (hunskipped : Unskipped v p pre forward) :
    (keys v pre forward p).filter (busy v p) = (keys v [] [] p).filter (busy v p) := by
  have hchildren : ((v.children p).map (keyOf pre forward)).filter (busy v p) =
      ((v.children p).map (keyOf [] [])).filter (busy v p) := by
    refine filter_map_congr fun a ha => ?_
    rw [keyOf]
    split_ifs with hskip
    · exact .inr (not_busy_of_skips hunskipped ha hskip)
    · exact .inl rfl
  have hperm : ((keys v pre forward p).filter (busy v p)).Perm
      ((keys v [] [] p).filter (busy v p)) := by
    rw [keys, keys, filter_comm, filter_comm (busy v p)]
    refine ((perm_insertionSort _ _).filter _).filter _ |>.trans ?_
    rw [hchildren]
    exact (((perm_insertionSort _ _).filter _).filter _).symm
  have hsorted : ∀ pre forward, ((keys v pre forward p).filter (busy v p)).Pairwise (· ≤ ·) :=
    fun _ _ => ((pairwise_insertionSort _ _).sublist filter_sublist).sublist filter_sublist
  exact hperm.eq_of_pairwise (fun a b _ _ => le_antisymm) (hsorted _ _) (hsorted _ _)

variable {depth : ℕ}

/-- A scan that skips nothing that is listed is the scan without the options, if the scans below it
are. -/
lemma scanDir_unskipped (hv : v.Conforms) (hdir : v.IsDir p) (hclear : v.Clear p)
    (hunskipped : Unskipped v p pre forward)
    (hbelow : opts.recursive → ∀ c ∈ v.subdirs p, v.isObject (p ++ [c]) = false →
      v.children (p ++ [c]) ≠ [] →
      below P v opts depth (dirName (p ++ [c])) (forwardIn opts (dirName (p ++ [c]))) =
        below P v opts.unrestricted depth (dirName (p ++ [c])) []) :
    scanDir P v opts (depth + 1) (dirName p) pre forward =
      scanDir P v opts.unrestricted (depth + 1) (dirName p) [] [] := by
  have hidle : ∀ {pre forward} (opts scan), Unskipped v p pre forward →
      ∀ key ∈ keys v pre forward p, busy v p key = false →
        waits v (dirName p) (noted v pre forward p) key = false ∧
          emit v opts scan (dirName p) (noted v pre forward p) key = [] := by
    intro pre forward opts scan hunskipped key hkey hbusy
    rw [waits, emit, idle_key hv hdir hclear hunskipped hkey hbusy]
    exact ⟨rfl, rfl⟩
  have hlook : ∀ {key}, busy v p key →
      lookAt v (dirName p) (noted v pre forward p) key = lookAt v (dirName p) (noted v [] [] p) key := by
    intro key hbusy
    obtain ⟨c, hc, hchildren, rfl⟩ := busy_iff.mp hbusy
    rw [lookAt_unskipped hv hclear hc (hunskipped c hc hchildren).1, lookAt_subdir hv hclear hc]
  rw [scanDir_eq hv hdir hclear depth pre forward, scanDir_eq hv hdir hclear depth [] [],
    holdBack_flatMap_filter (pairwise_keys hv hdir hclear) (hidle _ _ hunskipped),
    holdBack_flatMap_filter (pairwise_keys hv hdir hclear) (hidle _ _ unskipped_nil),
    filter_keys hunskipped]
  rw [holdBack_congr fun i hi => absurd hi not_mem_nil]
  · refine congrArg (·, none) (flatMap_congr fun key hkey => ?_)
    have hkey := (holdBack_perm _ _).mem_iff.mp hkey
    obtain ⟨c, hc, hchildren, rfl⟩ := busy_iff.mp (mem_filter.mp hkey).2
    rw [emit, emit, lookAt_unskipped hv hclear hc (hunskipped c hc hchildren).1,
      lookAt_subdir hv hclear hc, foundAt]
    split_ifs with hobject
    · rfl
    · rw [Bool.not_eq_true] at hobject
      have hforward : opts.unrestricted.forwardTo = [] := rfl
      simp only [popped, forwardIn_nil hforward]
      by_cases hrec : opts.recursive
      · rw [hbelow hrec c hc hobject hchildren]
        rfl
      · simp [WalkDirOptions.unrestricted, hrec]
  · intro key hkey
    rw [leave, waits, hlook (mem_filter.mp hkey).2]
    exact ⟨rfl, rfl⟩

lemma forwardIn_of_le {pop : Bytes} (h : opts.forwardTo ≤ pop) : forwardIn opts pop = [] := by
  rw [forwardIn]
  split_ifs with hpre
  · have hpop := isPrefixOf_iff_prefix.mp hpre.2
    have heq : opts.forwardTo = pop := le_antisymm h (le_of_isPrefix hpop)
    have htrim := trimPrefix_append pop []
    rw [heq]
    rwa [append_nil] at htrim
  · rfl

/-- A scan of directories in which there is no position. -/
lemma scanDir_of_forwardIn (hv : v.Conforms) (hdir : v.IsDir p) (hclear : v.Clear p)
    (h : ∀ t, t ≠ [] → forwardIn opts (dirName (p ++ t)) = []) :
    scanDir P v opts depth (dirName p) [] [] =
      scanDir P v opts.unrestricted depth (dirName p) [] [] := by
  induction depth generalizing p with
  | zero => rfl
  | succ depth ih =>
    refine scanDir_unskipped hv hdir hclear unskipped_nil fun _ c hc hobject _ => ?_
    rw [h [c] (cons_ne_nil c []), below, below, ih (isDir_of_mem (mem_subdirs.mp hc))
      (hclear.child hobject) fun t _ => ?_]
    rw [append_assoc]
    exact h _ (append_ne_nil_of_left_ne_nil (cons_ne_nil c []) t)

lemma below_of_le (hv : v.Conforms) (hdir : v.IsDir p) (hclear : v.Clear p)
    (h : opts.forwardTo ≤ dirName p) :
    below P v opts depth (dirName p) (forwardIn opts (dirName p)) =
      below P v opts.unrestricted depth (dirName p) [] := by
  rw [forwardIn_of_le h, below, below, scanDir_of_forwardIn hv hdir hclear fun t _ => ?_]
  rw [Path.dirName_append]
  exact forwardIn_of_le (h.trans (le_of_isPrefix (prefix_append _ _)))

end Unskipped

/-! ### When the options leave nothing out -/

/-- The options leave nothing out: every name in the directory has the prefix and does not come before
`ForwardTo`, neither as it is listed nor as it is compared; but a directory on the way to `ForwardTo` may
come before it, if nothing that is listed in it does. -/
def Untouched (v : Volume) (base : List Bytes) (opts : WalkDirOptions) : Prop :=
  ∀ c ∈ v.subdirs base, v.children (base ++ [c]) ≠ [] →
    opts.filterPrefix <+: decodeDirObject c ∧ opts.forwardTo ≤ c ++ [slash] ∧
      (∀ x ∈ v.subdirs base, c = x ++ globalDirSuffix → opts.forwardTo ≤ x ++ [slash]) ∧
      (opts.forwardTo ≤ (entryAt v (base ++ [c])).name ∨
        v.isObject (base ++ [c]) = false ∧ dirName (base ++ [c]) <+: opts.forwardTo ∧
          (opts.recursive = true → ∀ c' ∈ v.subdirs (base ++ [c]),
            v.children (base ++ [c] ++ [c']) ≠ [] →
              opts.forwardTo ≤ (entryAt v (base ++ [c] ++ [c'])).name))

instance (v : Volume) (base : List Bytes) (opts : WalkDirOptions) :
    Decidable (Untouched v base opts) := by
  unfold Untouched
  infer_instance

section Untouched

variable {P : Packages} {v : Volume} {p base : List Bytes} {opts : WalkDirOptions}

variable {pre : Bytes}

lemma skips_eq_false_iff {forward raw : Bytes} :
    skips pre forward raw = false ↔ pre <+: raw ∧ forward ≤ raw := by
  have hpre : (decide (pre.length > 0) && !pre.isPrefixOf raw) = false ↔ pre <+: raw := by
    cases pre with
    | nil => simp
    | cons x pre => simp
  have hforward : (decide (forward.length > 0) && decide (raw < forward)) = false ↔ forward ≤ raw := by
    cases forward with
    | nil => simpa using le_of_isPrefix nil_prefix
    | cons x forward => simp
  rw [skips, Bool.or_eq_false_iff, hpre, hforward]

lemma entryAt_concat_name (c : Bytes) : (entryAt v (p ++ [c])).name =
    dirName p ++ if v.isObject (p ++ [c]) then decodeDirObject c else c ++ [slash] := by
  rw [entryAt]
  split_ifs
  · rw [dropLast_concat, getLastD_concat]
  · exact Path.dirName_concat p c

lemma decodeDirObject_le (c : Bytes) : decodeDirObject c ≤ c ++ [slash] := by
  rcases decodeDirObject_cases c with ⟨x, rfl, hx⟩ | ⟨-, hx⟩
  · rw [hx, append_assoc]
    exact (append_left_lt (by decide)).le
  · rw [hx]
    exact le_of_isPrefix (prefix_append _ _)

variable {c : Bytes}

lemma isPrefix_of_isPrefix_slash (hpre : slash ∉ pre) (h : pre <+: c ++ [slash]) : pre <+: c := by
  rcases prefix_concat_iff.mp h with rfl | h
  · exact absurd (mem_append_right _ (mem_singleton_self _)) hpre
  · exact h

lemma isPrefix_raw_of_isPrefix_decode (hpre : slash ∉ pre)
    (h : pre <+: decodeDirObject c) : pre <+: c ++ [slash] := by
  rcases decodeDirObject_cases c with ⟨x, rfl, hx⟩ | ⟨-, hx⟩
  · rw [hx] at h
    rw [append_assoc]
    exact (isPrefix_of_isPrefix_slash hpre h).trans (prefix_append _ _)
  · rw [hx] at h
    exact h.trans (prefix_append _ _)

lemma le_of_append_le {d a b : Bytes} (h : d ++ a ≤ d ++ b) : a ≤ b :=
  not_lt.mp fun hlt => absurd (append_left_lt hlt) (not_lt.mpr h)

lemma append_le_append {d a b : Bytes} (h : a ≤ b) : d ++ a ≤ d ++ b := by
  rcases h.lt_or_eq with hlt | rfl
  · exact (append_left_lt hlt).le
  · exact le_refl _

lemma forwardIn_append {pop t : Bytes} (hpop : pop ≠ []) (h : opts.forwardTo = pop ++ t) :
    forwardIn opts pop = t := by
  have hlen : opts.forwardTo.length > 0 := by
    rw [h, length_append]
    have := length_pos_iff.mpr hpop
    omega
  have hpre : pop.isPrefixOf opts.forwardTo := by
    rw [h]
    exact isPrefixOf_iff_prefix.mpr (prefix_append _ _)
  rw [forwardIn, if_pos ⟨hlen, hpre⟩, h, trimPrefix_append]

lemma dirName_concat_ne_nil (p : List Bytes) (c : Bytes) : dirName (p ++ [c]) ≠ [] := by
  rw [Path.dirName_concat, ← append_assoc]
  exact append_ne_nil_of_right_ne_nil _ (cons_ne_nil _ _)

lemma unskipped_of_untouched (hpre : slash ∉ opts.filterPrefix) (h : Untouched v base opts) :
    Unskipped v base opts.filterPrefix opts.forwardTo := by
  intro c hc hchildren
  obtain ⟨hfilter, hforward, htwin, -⟩ := h c hc hchildren
  refine ⟨skips_eq_false_iff.mpr ⟨isPrefix_raw_of_isPrefix_decode hpre hfilter, hforward⟩, ?_⟩
  rintro x hx rfl
  rw [decodeDirObject_append] at hfilter
  exact skips_eq_false_iff.mpr ⟨hfilter, htwin x hx rfl⟩

lemma unskipped_of_le {t : Bytes} (ht : opts.forwardTo = dirName p ++ t)
    (h : ∀ c ∈ v.subdirs p, v.children (p ++ [c]) ≠ [] →
      opts.forwardTo ≤ (entryAt v (p ++ [c])).name)
    (hv : v.Conforms) (hclear : v.Clear p) : Unskipped v p [] t := by
  intro c hc hchildren
  have hle := h c hc hchildren
  rw [ht, entryAt_concat_name] at hle
  have hle := le_of_append_le hle
  refine ⟨skips_eq_false_iff.mpr ⟨List.nil_prefix, ?_⟩, ?_⟩
  · split_ifs at hle
    · exact hle.trans (decodeDirObject_le c)
    · exact hle
  · rintro x hx rfl
    rw [if_pos (hv.dirObject hclear (mem_subdirs.mp hc)).1, decodeDirObject_append] at hle
    exact skips_eq_false_iff.mpr ⟨List.nil_prefix, hle⟩

lemma exists_depth (h : v.IsDir (p ++ [c])) : ∃ depth, v.depth = depth + 1 := by
  have := length_le_depth_of_isDir h
  rw [length_append, length_singleton] at this
  exact ⟨v.depth - 1, by omega⟩

lemma scanDir_untouched (hv : v.Conforms) (hdir : v.IsDir base) (hclear : v.Clear base)
    (hpre : slash ∉ opts.filterPrefix) (h : Untouched v base opts) :
    scanDir P v opts (v.depth + 1) (dirName base) opts.filterPrefix opts.forwardTo =
      scanDir P v opts.unrestricted (v.depth + 1) (dirName base) [] [] := by
  refine scanDir_unskipped hv hdir hclear (unskipped_of_untouched hpre h)
    fun hrec c hc hobject hchildren => ?_
  have hdirc := isDir_of_mem (mem_subdirs.mp hc)
  have hclearc := hclear.child hobject
  obtain ⟨-, -, -, hle | ⟨-, ⟨t, ht⟩, hbelow⟩⟩ := h c hc hchildren
  · rw [entryAt, hobject] at hle
    exact below_of_le hv hdirc hclearc hle
  · have hbelow := hbelow hrec
    obtain ⟨depth, hdepth⟩ := exists_depth hdirc
    rw [forwardIn_append (dirName_concat_ne_nil _ _) ht.symm, hdepth]
    refine congrArg Prod.fst (scanDir_unskipped hv hdirc hclearc
      (unskipped_of_le ht.symm hbelow hv hclearc) fun _ c' hc' hobject' hchildren' => ?_)
    have hle := hbelow c' hc' hchildren'
    rw [entryAt, hobject'] at hle
    exact below_of_le hv (isDir_of_mem (mem_subdirs.mp hc')) (hclearc.child hobject') hle

end Untouched

/-! ### Names of what is listed -/

section Names

variable {v : Volume} {p q base : List Bytes} {recursive : Bool}

variable {c : Bytes}

lemma parts_decodeDirObject (hc : Elem c) (hx : ∀ x, c = x ++ globalDirSuffix → Elem x) :
    ∃ k, Path.parts (decodeDirObject c) = [k] := by
  rcases decodeDirObject_cases c with ⟨x, rfl, h⟩ | ⟨-, h⟩
  · exact ⟨x, by rw [h, (hx x rfl).parts_slash]⟩
  · exact ⟨c, by rw [h, hc.parts]⟩

lemma decode_name_inj {p' : List Bytes} {c' : Bytes} (hp : ∀ e ∈ p, Elem e)
    (hp' : ∀ e ∈ p', Elem e) (hc : Elem c) (hc' : Elem c')
    (hx : ∀ x, c = x ++ globalDirSuffix → Elem x) (hx' : ∀ x, c' = x ++ globalDirSuffix → Elem x)
    (h : dirName p ++ decodeDirObject c = dirName p' ++ decodeDirObject c') : p = p' ∧ c = c' := by
  obtain ⟨k, hk⟩ := parts_decodeDirObject hc hx
  obtain ⟨k', hk'⟩ := parts_decodeDirObject hc' hx'
  have hparts := congrArg Path.parts h
  rw [Path.parts_append_elem hp, Path.parts_append_elem hp', hk, hk'] at hparts
  obtain rfl := (append_inj' hparts rfl).1
  exact ⟨rfl, decodeDirObject_inj hc hc' (append_cancel_left h)⟩

lemma exists_concat_of_mem_listed (hv : v.Conforms) (h : q ∈ v.listed base recursive) :
    ∃ p c, q = p ++ [c] ∧ c ∈ v.subdirs p ∧ v.Clear p := by
  obtain ⟨hmem, -, -, hclear, -⟩ := (mem_listed hv).mp h
  obtain ⟨p, c, rfl⟩ := (eq_nil_or_concat' q).resolve_left (v.elems _ hmem).1
  rw [dropLast_concat] at hclear
  exact ⟨p, c, rfl, mem_subdirs.mpr hmem, hclear⟩

lemma elems_of_mem_subdirs (hc : c ∈ v.subdirs p) : ∀ e ∈ p, Elem e :=
  (isDir_of_child (mem_subdirs.mp hc)).elems

lemma eq_of_entryAt_name (hv : v.Conforms) (h : q ∈ v.listed base recursive)
    (hobject : v.isObject q) (hp : ∀ e ∈ p, Elem e) (hc : Elem c)
    (hx : ∀ x, c = x ++ globalDirSuffix → Elem x)
    (hname : (entryAt v q).name = dirName p ++ decodeDirObject c) : q = p ++ [c] := by
  obtain ⟨p', c', rfl, hc', hclear⟩ := exists_concat_of_mem_listed hv h
  rw [entryAt_concat_name, if_pos hobject] at hname
  obtain ⟨rfl, rfl⟩ := decode_name_inj (elems_of_mem_subdirs hc') hp (elem_of_mem_subdirs hc') hc
    (fun x hx' => (hv.dirObject hclear (hx' ▸ mem_subdirs.mp hc')).2) hx hname
  rfl

lemma isObject_of_metadata_ne (h : (entryAt v q).metadata ≠ []) : v.isObject q := by
  by_contra hobject
  rw [entryAt, if_neg hobject] at h
  exact h rfl

lemma length_le_one_of_nodup {α : Type} {l : List α} (hl : l.Nodup)
    (h : ∀ a ∈ l, ∀ b ∈ l, a = b) : l.length ≤ 1 := by
  rcases l with - | ⟨a, - | ⟨b, l⟩⟩
  · exact Nat.zero_le _
  · exact le_refl _
  · obtain rfl := h a mem_cons_self b (mem_cons_of_mem _ mem_cons_self)
    exact absurd mem_cons_self (nodup_cons.mp hl).1

lemma count_entryAt_le_one (hv : v.Conforms) {e : MetaCacheEntry} (he : e.metadata ≠ []) :
    ((v.listed base recursive).map (entryAt v)).count e ≤ 1 := by
  rw [List.count, countP_map, countP_eq_length_filter]
  refine length_le_one_of_nodup ((nodup_listed v base recursive).filter _)
    fun q hq q' hq' => ?_
  obtain ⟨hq, heq⟩ := mem_filter.mp hq
  obtain ⟨hq', heq'⟩ := mem_filter.mp hq'
  have heq : entryAt v q = e := beq_iff_eq.mp heq
  have heq' : entryAt v q' = e := beq_iff_eq.mp heq'
  have hobject := isObject_of_metadata_ne (heq.symm ▸ he)
  have hobject' := isObject_of_metadata_ne (heq'.symm ▸ he)
  obtain ⟨p', c', rfl, hc', hclear⟩ := exists_concat_of_mem_listed hv hq'
  refine eq_of_entryAt_name hv hq hobject (elems_of_mem_subdirs hc') (elem_of_mem_subdirs hc')
    (fun x hx => (hv.dirObject hclear (hx ▸ mem_subdirs.mp hc')).2) ?_
  rw [heq, ← heq', entryAt_concat_name, if_pos hobject']

lemma not_two_slashes (hv : v.Conforms) (h : q ∈ v.listed base recursive) (s : Bytes) :
    (entryAt v q).name ≠ s ++ [slash, slash] := by
  obtain ⟨p, c, rfl, hc, hclear⟩ := exists_concat_of_mem_listed hv h
  have hce := elem_of_mem_subdirs hc
  -- a name without slashes, and perhaps one behind it
  obtain ⟨k, hk, hname⟩ : ∃ k, Elem k ∧ ((entryAt v (p ++ [c])).name = dirName p ++ k ∨
      (entryAt v (p ++ [c])).name = dirName p ++ (k ++ [slash])) := by
    rw [entryAt_concat_name]
    split_ifs
    · rcases decodeDirObject_cases c with ⟨x, rfl, hx⟩ | ⟨-, hx⟩
      · exact ⟨x, (hv.dirObject hclear (mem_subdirs.mp hc)).2, .inr (by rw [hx])⟩
      · exact ⟨c, hce, .inl (by rw [hx])⟩
    · exact ⟨c, hce, .inr rfl⟩
  have hlast : ∀ t, dirName p ++ k ≠ t ++ [slash] := by
    intro t ht
    obtain ⟨k', x, rfl⟩ := (eq_nil_or_concat' k).resolve_left hk.ne_nil
    rw [← append_assoc] at ht
    have hx := singleton_inj.mp (append_inj' ht rfl).2
    exact hk.no_slash (hx ▸ mem_append_right _ (mem_singleton_self _))
  intro heq
  have hsplit : s ++ [slash, slash] = s ++ [slash] ++ [slash] := by simp
  rw [hsplit] at heq
  rcases hname with hname | hname
  · exact hlast _ (hname.symm.trans heq)
  · rw [hname, ← append_assoc] at heq
    exact hlast _ (append_inj' heq rfl).1

end Names

end Obstor.Metacache
