import Obstor.Lib.HoldBack
import Obstor.Lib.Lex
import Obstor.Metacache.Listed

/-!
# What a walk lists, and in which order

The second loop of `scanDir` holds directories back (`Lib/HoldBack.lean`), so that `WalkDir` lists
every object and every directory that is not empty in the order of the names with their slashes.

`walkDir_exact` has two halves, both by induction over the depth of the tree: `scanDir_perm`, that
the entries are those of `Volume.listed`, and `scanDir_sorted`, that they come in order. For the
second, what is held back has to nest with what goes out before it (`nested_subdirs`).
-/

namespace Obstor.Metacache

open Go Meta Lib List Volume
open Go.Path (Elem dirName slash)

/-! ### The first loop -/

/-- The name under which the second loop sees a node of the directory. -/
def entryKey (c : Bytes × Option Bytes) : Bytes :=
  match c.2 with
  | some _ => []
  | none => decodeDirObject c.1

/-- The first loop skips a name. -/
def skips (pre forward raw : Bytes) : Bool :=
  (pre.length > 0 && !pre.isPrefixOf raw) || (forward.length > 0 && raw < forward)

section

variable (pre forward : Bytes) (c : Bytes × Option Bytes)

/-- The name under which the second loop sees a node that may have been skipped. -/
def keyOf : Bytes :=
  if skips pre forward (Volume.rawName c) then Volume.rawName c else entryKey c

/-- The name under which a directory object is noted. -/
def dirKey : Option Bytes :=
  if !skips pre forward (Volume.rawName c) ∧ c.2 = none ∧ globalDirSuffix.isSuffixOf c.1 then
    some (entryKey c)
  else none

/-- A node of a directory that is not in an object. -/
def Plain : Prop :=
  Elem c.1 ∧ ∀ m, c.2 = some m → ¬ xlStorageFormatFile <:+ c.1 ∧ ¬ xlStorageFormatFileV1 <:+ c.1

end

lemma endsInSlash_elem {c : Bytes} (h : Elem c) : Path.endsInSlash c = false :=
  decide_eq_false fun hlast => h.no_slash (mem_of_getLast? hlast)

lemma endsInSlash_append (c : Bytes) : Path.endsInSlash (c ++ [slash]) := by
  simp [Path.endsInSlash]

lemma isSuffixOf_slash_iff (c : Bytes) :
    globalDirSuffixWithSlash.isSuffixOf (c ++ [slash]) = globalDirSuffix.isSuffixOf c := by
  rw [Bool.eq_iff_iff, isSuffixOf_iff_suffix, globalDirSuffixWithSlash, suffix_concat_iff]
  simp

lemma isSuffixOf_eq_false {a b : Bytes} (h : ¬ a <:+ b) : a.isSuffixOf b = false := by
  rw [← Bool.not_eq_true, isSuffixOf_iff_suffix]
  exact h

variable {pre forward : Bytes}

lemma firstPass_cons {P : Packages} {v : Volume} {current : Bytes}
    {c : Bytes × Option Bytes} (hc : Plain c) (raw entries dirObjects : List Bytes) :
    firstPass P v current pre forward (rawName c :: raw) entries dirObjects =
      firstPass P v current pre forward raw (entries ++ [keyOf pre forward c])
        (dirObjects ++ (dirKey pre forward c).toList) := by
  rw [firstPass, keyOf, dirKey]
  by_cases hskip : skips pre forward (rawName c)
  · simp only [hskip, if_true, Bool.not_true, Bool.false_eq_true, false_and, if_false,
      Option.toList_none, append_nil]
    split_ifs with hpre hforward
    · rfl
    · rfl
    all_goals
      simp only [skips, Bool.or_eq_true, Bool.and_eq_true, decide_eq_true_eq] at hskip
      exact absurd hskip (not_or.mpr ⟨hpre, hforward⟩)
  · have hpre : ¬ (pre.length > 0 ∧ (!pre.isPrefixOf (rawName c))) := by
      intro h
      exact hskip (by simp [skips, h.1, h.2])
    have hforward : ¬ (forward.length > 0 ∧ rawName c < forward) := by
      intro h
      exact hskip (by simp [skips, h.1, h.2])
    rw [if_neg hpre, if_neg hforward, if_neg hskip]
    obtain ⟨c, d⟩ := c
    obtain ⟨hc, hfile⟩ := hc
    cases d with
    | some m =>
      obtain ⟨hmeta, hlegacy⟩ := hfile m rfl
      simp [rawName, entryKey, endsInSlash_elem hc, isSuffixOf_eq_false hmeta,
        isSuffixOf_eq_false hlegacy]
    | none =>
      rw [rawName, if_pos (endsInSlash_append c), isSuffixOf_slash_iff, entryKey]
      rcases decodeDirObject_cases c with ⟨x, rfl, hx⟩ | ⟨hsuffix, hx⟩
      · have htrim : trimSuffix (x ++ (globalDirSuffix ++ [slash])) globalDirSuffixWithSlash = x :=
          trimSuffix_append x _
        simp only [rawName, append_assoc] at hskip
        simp [hx, htrim, hskip]
      · simp [hsuffix, hx]

variable {cs : List (Bytes × Option Bytes)}

lemma firstPass_eq {P : Packages} {v : Volume} {current : Bytes} (hcs : ∀ c ∈ cs, Plain c) (entries dirObjects : List Bytes) :
    firstPass P v current pre forward (cs.map rawName) entries dirObjects =
      .listed (entries ++ cs.map (keyOf pre forward))
        (dirObjects ++ cs.filterMap (dirKey pre forward)) := by
  induction cs generalizing entries dirObjects with
  | nil => rw [map_nil, firstPass, map_nil, filterMap_nil, append_nil,
      append_nil]
  | cons c cs ih =>
    obtain ⟨hc, hcs⟩ := forall_mem_cons.mp hcs
    rw [map_cons, firstPass_cons hc, ih hcs, append_assoc, append_assoc, filterMap_cons]
    cases dirKey pre forward c <;> rfl

lemma contains_entryKey (hcs : ∀ c ∈ cs, Plain c) {c : Bytes} (hc : (c, none) ∈ cs)
    (hskip : skips pre forward (rawName (c, none)) = false) :
    (cs.filterMap (dirKey pre forward)).contains (decodeDirObject c) =
      globalDirSuffix.isSuffixOf c := by
  rw [Bool.eq_iff_iff, contains_iff_mem, mem_filterMap]
  constructor
  · rintro ⟨⟨c', d⟩, hc', hkey⟩
    obtain ⟨⟨-, rfl, hsuffix'⟩, hkey⟩ := Option.ite_none_right_eq_some.mp hkey
    have heq : decodeDirObject c' = decodeDirObject c := Option.some.inj hkey
    rw [← slash_mem_decodeDirObject (hcs _ hc).1, ← heq]
    exact (slash_mem_decodeDirObject (hcs _ hc').1).mpr hsuffix'
  · intro hsuffix
    exact ⟨(c, none), hc, if_pos ⟨by rw [hskip]; rfl, rfl, hsuffix⟩⟩

/-! ### The second loop -/

section SecondPass

variable (v : Volume) (opts : WalkDirOptions) (scan : Bytes → Bytes → List MetaCacheEntry)
  (current : Bytes) (dirObjects : List Bytes)

/-- A directory waits on the stack. -/
def waits (entry : Bytes) : Bool :=
  match lookAt v current dirObjects entry with
  | .directory _ => true
  | _ => false

/-- The name under which an entry goes out. -/
def leave (entry : Bytes) : Bytes :=
  match lookAt v current dirObjects entry with
  | .directory name => name
  | _ => Path.pathJoin [current, entry]

/-- What goes out for an entry. -/
def emit (entry : Bytes) : List MetaCacheEntry :=
  match lookAt v current dirObjects entry with
  | .object e => [e]
  | .directory name => popped opts scan name
  | .nothing => []

variable {v opts scan current dirObjects}

lemma popBefore_eq (name : Bytes) (dirStack : List Bytes) : popBefore opts scan name dirStack =
      ((dirStack.takeWhile (· < name)).flatMap (popped opts scan), dirStack.dropWhile (· < name)) := by
  induction dirStack with
  | nil => rfl
  | cons pop dirStack ih =>
    rw [popBefore]
    split_ifs with hlt
    · rw [ih, takeWhile_cons_of_pos (by simpa using hlt),
        dropWhile_cons_of_pos (by simpa using hlt), flatMap_cons]
    · rw [takeWhile_cons_of_neg (by simpa using hlt),
        dropWhile_cons_of_neg (by simpa using hlt), flatMap_nil]

lemma emit_of_waits {entry : Bytes} (h : waits v current dirObjects entry) :
    emit v opts scan current dirObjects entry =
      popped opts scan (leave v current dirObjects entry) := by
  rw [waits] at h
  rw [emit, leave]
  split at h
  · next name hname => rw [hname]
  · cases h

lemma flatMap_popped {stack : List Bytes} (h : ∀ s ∈ stack, waits v current dirObjects s) :
    (stack.map (leave v current dirObjects)).flatMap (popped opts scan) =
      stack.flatMap (emit v opts scan current dirObjects) := by
  rw [flatMap_map]
  exact flatMap_congr fun s hs => (emit_of_waits (h s hs)).symm

lemma secondPass_eq (entries : List Bytes) {stack : List Bytes}
    (hstack : ∀ s ∈ stack, waits v current dirObjects s) :
    secondPass v opts scan current dirObjects entries (stack.map (leave v current dirObjects)) =
      (holdBack (fun entry => Path.pathJoin [current, entry]) (leave v current dirObjects)
        (waits v current dirObjects) stack (entries.filter (· ≠ []))).flatMap
        (emit v opts scan current dirObjects) := by
  induction entries generalizing stack with
  | nil => exact flatMap_popped hstack
  | cons entry entries ih =>
    rw [secondPass.eq_def]
    by_cases hentry : entry = []
    · rw [filter_cons_of_neg (by simpa using hentry)]
      exact (if_pos hentry).trans (ih hstack)
    · rw [filter_cons_of_pos (by simpa using hentry)]
      have hsub := (dropWhile_sublist (fun s => decide (leave v current dirObjects s <
        Path.pathJoin [current, entry])) (l := stack)).subset
      have hbefore : (takeWhile (fun s => decide (s < Path.pathJoin [current, entry]))
          (stack.map (leave v current dirObjects))).flatMap (popped opts scan) =
          (stack.takeWhile fun s => decide (leave v current dirObjects s <
            Path.pathJoin [current, entry])).flatMap (emit v opts scan current dirObjects) := by
        rw [takeWhile_map]
        exact flatMap_popped fun s hs => hstack s ((takeWhile_sublist _).subset hs)
      have hrest := fun s hs => hstack s (hsub hs)
      simp only [if_neg hentry, popBefore_eq, hbefore, dropWhile_map, holdBack_cons, flatMap_append]
      cases hfound : lookAt v current dirObjects entry with
      | object e =>
        have hwaits : waits v current dirObjects entry = false := by rw [waits, hfound]
        have hemit : emit v opts scan current dirObjects entry = [e] := by rw [emit, hfound]
        rw [hwaits, if_neg Bool.false_ne_true, flatMap_cons, hemit]
        exact congrArg _ (congrArg _ (ih hrest))
      | directory name =>
        have hwaits : waits v current dirObjects entry := by rw [waits, hfound]
        have hleave : leave v current dirObjects entry = name := by rw [leave, hfound]
        have hnext := ih (forall_mem_cons.mpr ⟨hwaits, hrest⟩)
        rw [map_cons, hleave] at hnext
        rw [hwaits]
        exact congrArg _ hnext
      | nothing =>
        have hwaits : waits v current dirObjects entry = false := by rw [waits, hfound]
        have hemit : emit v opts scan current dirObjects entry = [] := by rw [emit, hfound]
        rw [hwaits, if_neg Bool.false_ne_true, flatMap_cons, hemit]
        exact congrArg _ (ih hrest)

end SecondPass

/-! ### What is listed -/

/-- What a directory stands for. -/
def foundAt (v : Volume) (q : List Bytes) : Found :=
  if v.isObject q then .object (entryAt v q)
  else if v.children q = [] then .nothing
  else .directory (dirName q)

section Child

variable {v : Volume} {p : List Bytes} {c : Bytes}

lemma lookAt_child (hv : v.Conforms) (hclear : v.Clear p) (hc : (p ++ [c], none) ∈ v.nodes)
    {dirObjects : List Bytes}
    (hnoted : dirObjects.contains (decodeDirObject c) = globalDirSuffix.isSuffixOf c) :
    lookAt v (dirName p) dirObjects (decodeDirObject c) = foundAt v (p ++ [c]) := by
  have hp := (isDir_of_child hc).elems
  have hce := elem_of_child hc
  have hdir := isDir_of_mem hc
  rw [lookAt, hnoted]
  rcases decodeDirObject_cases c with ⟨x, rfl, hkey⟩ | ⟨hsuffix, hkey⟩
  · obtain ⟨hobject, hx⟩ := hv.dirObject hclear hc
    have hsuffix : globalDirSuffix.isSuffixOf (x ++ globalDirSuffix) :=
      isSuffixOf_iff_suffix.mpr (suffix_append _ _)
    have hname : (dirName p ++ (x ++ [slash])).dropLast ++ globalDirSuffixWithSlash =
        dirName p ++ (x ++ globalDirSuffix ++ [slash]) := by
      rw [globalDirSuffixWithSlash]
      simp
    have hread : v.readFile [dirName p ++ (x ++ globalDirSuffix ++ [slash]), xlStorageFormatFile] =
        .ok (v.metadata (p ++ [x ++ globalDirSuffix])) := by
      rw [readFile_meta hv hdir, if_pos hobject]
      rw [resolve_file hp hce.proper_slash elem_xlStorageFormatFile, hce.parts_slash]
    have htrim : trimSuffix (dirName p ++ (x ++ globalDirSuffix ++ [slash]))
        globalDirSuffixWithSlash = dirName p ++ x := by
      rw [← append_assoc, ← append_assoc, append_assoc _]
      exact trimSuffix_append _ _
    simp only [hsuffix, if_true, hkey, Path.pathJoin_elem_slash hp hx, hname, hread, htrim, foundAt,
      entryAt, hobject, dropLast_concat, getLastD_concat]
    rw [append_assoc]
  · have hread : v.readFile [dirName p ++ c, xlStorageFormatFile] =
        if v.isObject (p ++ [c]) then .ok (v.metadata (p ++ [c])) else .error .notExist := by
      refine readFile_meta hv hdir ?_
      rw [resolve_file hp hce.proper elem_xlStorageFormatFile, hce.parts]
    simp only [hsuffix, hkey, Bool.false_eq_true, if_false, Path.pathJoin_elem hp hce, hread]
    cases hobject : v.isObject (p ++ [c]) with
    | true =>
      simp [foundAt, entryAt, hobject, hkey]
    | false =>
      obtain ⟨err, hlegacy⟩ : ∃ err,
          v.readFile [dirName p ++ c, xlStorageFormatFileV1] = .error err := by
        refine readFile_legacy hv (hclear.child hobject) ?_
        rw [resolve_file hp hce.proper elem_xlStorageFormatFileV1, hce.parts]
      have hempty : v.isDirEmpty (dirName p ++ (c ++ [slash])) =
          decide (v.children (p ++ [c]) = []) := by
        refine isDirEmpty_eq hdir ?_
        rw [resolve_dir hp hce.proper_slash, hce.parts_slash]
      by_cases hchildren : v.children (p ++ [c]) = []
      all_goals simp [foundAt, hobject, hlegacy, hempty, Path.dirName_concat, hchildren]

end Child

/-! ### One directory -/

section Scan

variable {P : Packages} {v : Volume} {opts : WalkDirOptions} {p : List Bytes} {pre forward : Bytes}

lemma plain_children (hv : v.Conforms) (hclear : v.Clear p) : ∀ c ∈ v.children p, Plain c := by
  rintro ⟨c, d⟩ hc
  have hmem := mem_children.mp hc
  refine ⟨elem_of_child hmem, ?_⟩
  rintro m rfl
  exact hv.plain_file hclear hmem

/-- The names that the second loop goes over. -/
def keys (v : Volume) (pre forward : Bytes) (p : List Bytes) : List Bytes :=
  (((v.children p).map (keyOf pre forward)).insertionSort (· ≤ ·)).filter (· ≠ [])

/-- The names of directory objects. -/
def noted (v : Volume) (pre forward : Bytes) (p : List Bytes) : List Bytes :=
  (v.children p).filterMap (dirKey pre forward)

/-- The scan of the next level. -/
def below (P : Packages) (v : Volume) (opts : WalkDirOptions) (depth : ℕ) (pop forward : Bytes) :
    List MetaCacheEntry :=
  (scanDir P v opts depth pop [] forward).1

lemma scanDir_eq (hv : v.Conforms) (hdir : v.IsDir p) (hclear : v.Clear p) (depth : ℕ)
    (pre forward : Bytes) :
    scanDir P v opts (depth + 1) (dirName p) pre forward =
      ((holdBack (fun entry => Path.pathJoin [dirName p, entry])
        (leave v (dirName p) (noted v pre forward p)) (waits v (dirName p) (noted v pre forward p)) []
        (keys v pre forward p)).flatMap
        (emit v opts (below P v opts depth) (dirName p) (noted v pre forward p)), none) := by
  have hlist : v.listDir (dirName p) = some ((v.children p).map rawName) := by
    rw [listDir, resolve_dirName hdir.elems, hdir]
  rw [scanDir, hlist]
  simp only [firstPass_eq (plain_children hv hclear), nil_append]
  exact congrArg (·, none) (secondPass_eq _ fun s hs => absurd hs not_mem_nil)

variable {c : Bytes}

lemma lookAt_unskipped (hv : v.Conforms) (hclear : v.Clear p) (hc : c ∈ v.subdirs p)
    (hskip : skips pre forward (c ++ [slash]) = false) :
    lookAt v (dirName p) (noted v pre forward p) (decodeDirObject c) = foundAt v (p ++ [c]) :=
  lookAt_child hv hclear (mem_subdirs.mp hc) (contains_entryKey (plain_children hv hclear)
    (mem_children.mpr (mem_subdirs.mp hc)) hskip)

/-! ### Without `FilterPrefix` and `ForwardTo` -/

lemma skips_nil (raw : Bytes) : skips [] [] raw = false := rfl

lemma filter_entryKey (hcs : ∀ c ∈ cs, Plain c) : (cs.map entryKey).filter (· ≠ []) =
      (cs.filterMap fun c => if c.2 = none then some c.1 else none).map decodeDirObject := by
  induction cs with
  | nil => rfl
  | cons c cs ih =>
    obtain ⟨hc, hrest⟩ := forall_mem_cons.mp hcs
    obtain ⟨c, d⟩ := c
    rw [map_cons]
    cases d with
    | some m =>
      rw [filter_cons_of_neg (by simp [entryKey]), ih hrest]
      rfl
    | none =>
      have hne : entryKey (c, none) ≠ [] := decodeDirObject_ne_nil hc.1
      rw [filter_cons_of_pos (by simpa using hne), ih hrest]
      rfl

section

variable (hv : v.Conforms) (hclear : v.Clear p)

include hv hclear

lemma keys_perm : (keys v [] [] p).Perm ((v.subdirs p).map decodeDirObject) := by
  rw [subdirs, ← filter_entryKey (plain_children hv hclear)]
  exact (perm_insertionSort _ _).filter _

lemma keys_pairwise : (keys v [] [] p).Pairwise (· < ·) := by
  have hsorted : (keys v [] [] p).Pairwise (· ≤ ·) :=
    (pairwise_insertionSort _ _).sublist filter_sublist
  have hnodup : (keys v [] [] p).Nodup := by
    refine (keys_perm hv hclear).nodup_iff.mpr (Nodup.map_on ?_ (nodup_subdirs v p))
    intro c hc c' hc' h
    exact decodeDirObject_inj (elem_of_child (mem_subdirs.mp hc))
      (elem_of_child (mem_subdirs.mp hc')) h
  exact hsorted.imp₂ (fun a b hle hne => lt_of_le_of_ne hle hne) hnodup

lemma mem_keys_iff {key : Bytes} :
    key ∈ keys v [] [] p ↔ ∃ c ∈ v.subdirs p, decodeDirObject c = key := by
  rw [(keys_perm hv hclear).mem_iff, mem_map]

lemma lookAt_subdir (hc : c ∈ v.subdirs p) :
    lookAt v (dirName p) (noted v [] [] p) (decodeDirObject c) = foundAt v (p ++ [c]) :=
  lookAt_unskipped hv hclear hc (skips_nil _)

end

/-! ### Every entry once -/

lemma forwardIn_nil (hforward : opts.forwardTo = []) (pop : Bytes) : forwardIn opts pop = [] := by
  rw [forwardIn, hforward]
  exact if_neg fun h => absurd h.1 (Nat.lt_irrefl 0)

variable {scan : Bytes → Bytes → List MetaCacheEntry}

lemma emit_perm (hv : v.Conforms) (hclear : v.Clear p) (hforward : opts.forwardTo = [])
    (hc : c ∈ v.subdirs p)
    (hscan : v.isObject (p ++ [c]) = false → opts.recursive →
      (scan (dirName (p ++ [c])) []).Perm ((v.listed (p ++ [c]) true).map (entryAt v))) :
    (emit v opts scan (dirName p) (noted v [] [] p) (decodeDirObject c)).Perm
      ((v.listedAt opts.recursive (p ++ [c])).map (entryAt v)) := by
  rw [emit, lookAt_subdir hv hclear hc, foundAt, listedAt]
  split_ifs with hobject hempty hrec
  · exact List.Perm.refl _
  · exact List.Perm.refl _
  all_goals
    have hentry : entryAt v (p ++ [c]) = ⟨dirName (p ++ [c]), []⟩ := if_neg hobject
    rw [Bool.not_eq_true] at hobject
  · rw [map_cons, hentry]
    simp only [popped, hrec, if_true, forwardIn_nil hforward]
    exact (hscan hobject hrec).cons _
  · rw [map_cons, hentry]
    simp only [popped, if_neg hrec]
    exact List.Perm.refl _

lemma length_le_depth_of_isDir (hdir : v.IsDir p) : p.length ≤ v.depth := by
  by_cases hp : p = []
  · rw [hp]
    exact Nat.zero_le _
  · exact length_le_depth (mem_of_node hp hdir)

variable {depth : ℕ}

lemma scanDir_perm (hv : v.Conforms) (hforward : opts.forwardTo = [])
    (hdir : v.IsDir p) (hclear : v.Clear p) (hdepth : v.depth < p.length + depth) :
    ((scanDir P v opts depth (dirName p) [] []).1).Perm
      ((v.listed p opts.recursive).map (entryAt v)) := by
  induction depth generalizing p with
  | zero => exact absurd (length_le_depth_of_isDir hdir) (not_le.mpr hdepth)
  | succ depth ih =>
    rw [scanDir_eq hv hdir hclear]
    refine ((holdBack_perm _ _).flatMap_right _).trans ?_
    refine ((keys_perm hv hclear).flatMap_right _).trans ?_
    rw [flatMap_map]
    refine (List.Perm.flatMap_left _ fun c hc => ?_).trans
      (((listed_perm hv hclear).map (entryAt v)).trans (by rw [map_flatMap])).symm
    refine emit_perm hv hclear hforward hc fun hobject hrec => ?_
    rw [← hrec]
    refine ih (isDir_of_mem (mem_subdirs.mp hc)) (hclear.child hobject) ?_
    rw [length_append, length_singleton]
    omega

/-! ### The order of the entries -/

lemma pathJoin_decodeDirObject (hv : v.Conforms) (hclear : v.Clear p) (hc : c ∈ v.subdirs p) :
    Path.pathJoin [dirName p, decodeDirObject c] = dirName p ++ decodeDirObject c := by
  have hmem := mem_subdirs.mp hc
  have hp := (isDir_of_child hmem).elems
  rcases decodeDirObject_cases c with ⟨x, rfl, hx⟩ | ⟨-, hx⟩
  · rw [hx]
    exact Path.pathJoin_elem_slash hp (hv.dirObject hclear hmem).2
  · rw [hx]
    exact Path.pathJoin_elem hp (elem_of_child hmem)

lemma subdir_cases (hv : v.Conforms) (hclear : v.Clear p) (hc : c ∈ v.subdirs p) :
    (waits v (dirName p) (noted v [] [] p) (decodeDirObject c) ∧
        v.isObject (p ++ [c]) = false ∧ decodeDirObject c = c ∧
        lookAt v (dirName p) (noted v [] [] p) (decodeDirObject c) = .directory (dirName (p ++ [c])) ∧
        leave v (dirName p) (noted v [] [] p) (decodeDirObject c) = dirName p ++ (c ++ [slash])) ∨
      (waits v (dirName p) (noted v [] [] p) (decodeDirObject c) = false ∧
        (∀ e, lookAt v (dirName p) (noted v [] [] p) (decodeDirObject c) = .object e →
          e.name = dirName p ++ decodeDirObject c) ∧
        leave v (dirName p) (noted v [] [] p) (decodeDirObject c) =
          dirName p ++ decodeDirObject c) := by
  have hmem := mem_subdirs.mp hc
  simp only [waits, leave, lookAt_subdir hv hclear hc, foundAt]
  split_ifs with hobject hempty
  · refine .inr ⟨rfl, fun e he => ?_, pathJoin_decodeDirObject hv hclear hc⟩
    rw [← Found.object.inj he, entryAt, if_pos hobject]
    simp
  · exact .inr ⟨rfl, fun e he => (nomatch he), pathJoin_decodeDirObject hv hclear hc⟩
  · rw [Bool.not_eq_true] at hobject
    refine .inl ⟨rfl, hobject, ?_, rfl, Path.dirName_concat p c⟩
    rcases decodeDirObject_cases c with ⟨x, rfl, -⟩ | ⟨-, hx⟩
    · rw [(hv.dirObject hclear hmem).1] at hobject
      cases hobject
    · exact hx

lemma isPrefix_entryAt (hv : v.Conforms) {q : List Bytes} {recursive : Bool} (h : q ∈ v.listed p recursive) :
    dirName p <+: (entryAt v q).name := by
  obtain ⟨-, ⟨⟨t, rfl⟩, hne⟩, -⟩ := (mem_listed hv).mp h
  have ht : t ≠ [] := by
    rintro rfl
    exact hne (append_nil p).symm
  rw [entryAt]
  split_ifs
  · rw [dropLast_append_of_ne_nil ht, Path.dirName_append, append_assoc]
    exact prefix_append _ _
  · rw [Path.dirName_append]
    exact prefix_append _ _

lemma not_isPrefix_of_lt {d k w : Bytes} (hk : slash ∉ k) (hw : w = k ∨ w = k ++ [slash])
    (hlt : d ++ (c ++ [slash]) < d ++ w) : ¬ d ++ (c ++ [slash]) <+: d ++ w := by
  intro hpre
  have hpre := (prefix_append_right_inj d).mp hpre
  have hnot : ¬ c ++ [slash] <+: k := fun h =>
    hk (h.subset (mem_append_right _ (mem_singleton_self _)))
  rcases hw with rfl | rfl
  · exact hnot hpre
  · rcases prefix_concat_iff.mp hpre with heq | hpre
    · rw [heq] at hlt
      exact lt_irrefl _ hlt
    · exact hnot hpre

section

variable (hv : v.Conforms) (hclear : v.Clear p)

include hv hclear

lemma leave_shape (hc : c ∈ v.subdirs p) : ∃ k w, slash ∉ k ∧ (w = k ∨ w = k ++ [slash]) ∧
      leave v (dirName p) (noted v [] [] p) (decodeDirObject c) = dirName p ++ w := by
  have hmem := mem_subdirs.mp hc
  rcases subdir_cases hv hclear hc with ⟨-, -, -, -, hleave⟩ | ⟨-, -, hleave⟩
  · exact ⟨c, _, (elem_of_child hmem).no_slash, .inr rfl, hleave⟩
  · rcases decodeDirObject_cases c with ⟨x, rfl, hx⟩ | ⟨-, hx⟩
    · exact ⟨x, _, (hv.dirObject hclear hmem).2.no_slash, .inr hx, hleave⟩
    · exact ⟨c, _, (elem_of_child hmem).no_slash, .inl hx, hleave⟩

lemma nested_subdirs {c' : Bytes} (hc : c ∈ v.subdirs p)
    (hc' : c' ∈ v.subdirs p) (hlt : decodeDirObject c < decodeDirObject c') :
    Nested (fun entry => Path.pathJoin [dirName p, entry]) (leave v (dirName p) (noted v [] [] p))
      (waits v (dirName p) (noted v [] [] p)) (decodeDirObject c) (decodeDirObject c') := by
  intro hwaits
  simp only [pathJoin_decodeDirObject hv hclear hc']
  rcases subdir_cases hv hclear hc with ⟨-, -, hkey, -, hleave⟩ | ⟨hwaits', -⟩
  · rw [hkey] at hlt
    rw [hleave]
    rcases lt_or_ge (dirName p ++ (c ++ [slash])) (dirName p ++ decodeDirObject c') with h | h
    · exact .inl h
    · refine .inr ?_
      rcases subdir_cases hv hclear hc' with
        ⟨-, -, hkey', -, hleave'⟩ | ⟨hwaits', -, hleave'⟩
      · rw [hkey'] at hlt h
        have hle : c' ≤ c ++ [slash] := not_lt.mp fun hgt => absurd (append_left_lt hgt) (not_lt.mpr h)
        have hlt' : dirName p ++ _ < dirName p ++ _ := append_left_lt (concat_lt_concat hlt hle
          (elem_of_child (mem_subdirs.mp hc')).no_slash)
        rw [hleave']
        exact ⟨hlt'.le, fun _ => hlt'⟩
      · rw [hleave', hwaits']
        exact ⟨h, fun hfalse => absurd hfalse Bool.false_ne_true⟩
  · rw [hwaits'] at hwaits
    cases hwaits

lemma goesBefore_keys : (holdBack (fun entry => Path.pathJoin [dirName p, entry])
      (leave v (dirName p) (noted v [] [] p)) (waits v (dirName p) (noted v [] [] p)) []
      (keys v [] [] p)).Pairwise
      (GoesBefore (leave v (dirName p) (noted v [] [] p)) (waits v (dirName p) (noted v [] [] p))) := by
  refine holdBack_pairwise List.Pairwise.nil (fun s hs => nomatch hs) ?_ (fun s hs => nomatch hs) ?_
  · refine (keys_pairwise hv hclear).imp_of_mem fun {a b} ha hb hlt => ?_
    obtain ⟨c, hc, rfl⟩ := (mem_keys_iff hv hclear).mp ha
    obtain ⟨c', hc', rfl⟩ := (mem_keys_iff hv hclear).mp hb
    refine ⟨?_, nested_subdirs hv hclear hc hc' hlt⟩
    rw [pathJoin_decodeDirObject hv hclear hc, pathJoin_decodeDirObject hv hclear hc']
    exact (append_left_lt hlt).le
  · intro key hkey
    obtain ⟨c, hc, rfl⟩ := (mem_keys_iff hv hclear).mp hkey
    rw [pathJoin_decodeDirObject hv hclear hc]
    rcases subdir_cases hv hclear hc with
      ⟨hwaits, -, hdecode, -, hleave⟩ | ⟨hwaits, -, hleave⟩
    · refine ⟨?_, fun h => absurd hwaits h⟩
      rw [hleave, hdecode, ← append_assoc]
      exact le_of_isPrefix (prefix_append _ _)
    · rw [hleave]
      exact ⟨le_refl _, fun _ => rfl⟩

lemma isPrefix_of_mem_emit (hc : c ∈ v.subdirs p) (hscan : v.isObject (p ++ [c]) = false →
      ∀ e ∈ scan (dirName (p ++ [c])) (forwardIn opts (dirName (p ++ [c]))),
        dirName (p ++ [c]) <+: e.name)
    {e : MetaCacheEntry}
    (he : e ∈ emit v opts scan (dirName p) (noted v [] [] p) (decodeDirObject c)) :
    leave v (dirName p) (noted v [] [] p) (decodeDirObject c) <+: e.name ∧
      (waits v (dirName p) (noted v [] [] p) (decodeDirObject c) = false →
        e.name = leave v (dirName p) (noted v [] [] p) (decodeDirObject c)) := by
  rw [emit] at he
  rcases subdir_cases hv hclear hc with
    ⟨hwaits, hobject, -, hfound, hleave⟩ | ⟨hwaits, hname, hleave⟩
  · rw [hfound] at he
    rw [hwaits, hleave, ← Path.dirName_concat]
    refine ⟨?_, fun h => absurd h.symm Bool.false_ne_true⟩
    rcases mem_cons.mp he with rfl | he
    · exact prefix_refl _
    · split_ifs at he
      · exact hscan hobject e he
      · cases he
  · rw [hleave]
    split at he
    · next e' hfound =>
      rw [mem_singleton.mp he, hname e' hfound]
      exact ⟨prefix_refl _, fun _ => rfl⟩
    · next name hfound =>
      rw [waits, hfound] at hwaits
      cases hwaits
    · cases he

end

section

variable (hv : v.Conforms) (hforward : opts.forwardTo = []) (hdir : v.IsDir p) (hclear : v.Clear p)
  (hdepth : v.depth < p.length + depth)

include hv hforward hdir hclear hdepth

lemma isPrefix_of_mem_scanDir
    {e : MetaCacheEntry} (he : e ∈ (scanDir P v opts depth (dirName p) [] []).1) :
    dirName p <+: e.name := by
  obtain ⟨q, hq, rfl⟩ := mem_map.mp ((scanDir_perm hv hforward hdir hclear hdepth).mem_iff.mp he)
  exact isPrefix_entryAt hv hq

lemma scanDir_sorted :
    ((scanDir P v opts depth (dirName p) [] []).1).Pairwise fun a b => a.name ≤ b.name := by
  induction depth generalizing p with
  | zero => exact absurd (length_le_depth_of_isDir hdir) (not_le.mpr hdepth)
  | succ depth ih =>
    have hdown : ∀ c ∈ v.subdirs p, v.IsDir (p ++ [c]) ∧ v.depth < (p ++ [c]).length + depth := by
      intro c hc
      refine ⟨isDir_of_mem (mem_subdirs.mp hc), ?_⟩
      rw [length_append, length_singleton]
      omega
    have hnames : ∀ c ∈ v.subdirs p, v.isObject (p ++ [c]) = false →
        ∀ e ∈ below P v opts depth (dirName (p ++ [c])) (forwardIn opts (dirName (p ++ [c]))),
          dirName (p ++ [c]) <+: e.name := by
      intro c hc hobject e he
      rw [forwardIn_nil hforward] at he
      exact isPrefix_of_mem_scanDir hv hforward (hdown c hc).1 (hclear.child hobject)
        (hdown c hc).2 he
    have hchild : ∀ {key}, key ∈ holdBack (fun entry => Path.pathJoin [dirName p, entry])
        (leave v (dirName p) (noted v [] [] p)) (waits v (dirName p) (noted v [] [] p)) []
        (keys v [] [] p) → ∃ c ∈ v.subdirs p, decodeDirObject c = key := fun hkey =>
      (mem_keys_iff hv hclear).mp ((holdBack_perm _ _).mem_iff.mp hkey)
    rw [scanDir_eq hv hdir hclear]
    refine pairwise_flatMap.mpr ⟨fun key hkey => ?_,
      (goesBefore_keys hv hclear).imp_of_mem fun {a b} ha hb hgoes x hx y hy => ?_⟩
    · obtain ⟨c, hc, rfl⟩ := hchild hkey
      rw [emit, lookAt_subdir hv hclear hc, foundAt]
      split_ifs with hobject hempty
      · exact pairwise_singleton _ _
      · exact List.Pairwise.nil
      · rw [Bool.not_eq_true] at hobject
        simp only [popped]
        split_ifs with hrec
        · refine pairwise_cons.mpr ⟨fun e he => le_of_isPrefix (hnames c hc hobject e he), ?_⟩
          rw [forwardIn_nil hforward]
          exact ih (hdown c hc).1 (hclear.child hobject) (hdown c hc).2
        · exact pairwise_singleton _ _
    · obtain ⟨c, hc, rfl⟩ := hchild ha
      obtain ⟨c', hc', rfl⟩ := hchild hb
      obtain ⟨hxpre, hxeq⟩ := isPrefix_of_mem_emit hv hclear hc (hnames c hc) hx
      obtain ⟨hypre, -⟩ := isPrefix_of_mem_emit hv hclear hc' (hnames c' hc') hy
      rcases subdir_cases hv hclear hc with ⟨hwaits, -, -, -, hleave⟩ | ⟨hwaits, -⟩
      · have hlt := hgoes.2 hwaits
        obtain ⟨k, w, hk, hw, hleave'⟩ := leave_shape hv hclear hc'
        obtain ⟨s, hs⟩ := hxpre
        obtain ⟨t, ht⟩ := hypre
        rw [hleave, hleave'] at hlt
        rw [← hs, ← ht, hleave, hleave']
        exact (append_lt_append hlt (not_isPrefix_of_lt hk hw hlt) s t).le
      · rw [hxeq hwaits]
        exact hgoes.1.trans (le_of_isPrefix hypre)

end

end Scan

/-! ### `WalkDir` -/

/-- The entry of the directory itself, if it is a directory object. -/
def baseEntry (P : Packages) (v : Volume) (base : List Bytes) : List MetaCacheEntry :=
  match base.getLast? with
  | none => []
  | some b =>
    if v.isObject (base.dropLast ++ [b ++ globalDirSuffix]) then
      [⟨dirName base, xlMetaV2TrimData P (v.metadata (base.dropLast ++ [b ++ globalDirSuffix]))⟩]
    else []

section WalkDir

variable {P : Packages} {v : Volume} {base : List Bytes}

lemma elem_append_globalDirSuffix {b : Bytes} (hb : Elem b) : Elem (b ++ globalDirSuffix) := by
  have hlen : 9 ≤ (b ++ globalDirSuffix).length := by
    rw [length_append]
    exact Nat.le_add_left _ _
  have hslash : slash ∉ globalDirSuffix := by decide
  refine ⟨?_, ?_, ?_, ?_⟩
  · exact append_ne_nil_of_left_ne_nil hb.ne_nil _
  · exact fun h => (mem_append.mp h).elim hb.no_slash hslash
  · intro h
    rw [h] at hlen
    exact absurd hlen (by decide)
  · intro h
    rw [h] at hlen
    exact absurd hlen (by decide)

lemma walkDir_eq (hbase : ∀ e ∈ base, Elem e) (hclear : v.Clear base) {opts : WalkDirOptions}
    (hopts : opts.baseDir = dirName base) :
    (walkDir P v opts).1 = baseEntry P v base ++
      (scanDir P v opts (v.depth + 1) (dirName base) opts.filterPrefix opts.forwardTo).1 := by
  rcases eq_nil_or_concat' base with rfl | ⟨p, b, rfl⟩
  · rw [walkDir, hopts]
    rfl
  · obtain ⟨hp, hb⟩ := forall_mem_append.mp hbase
    have hb := hb b (mem_singleton_self b)
    have hslash : Path.endsInSlash (dirName (p ++ [b])) := by
      rw [Path.dirName_concat, ← append_assoc]
      exact endsInSlash_append _
    have hlast : (dirName (p ++ [b])).dropLast = dirName p ++ b := by
      rw [Path.dirName_concat, ← append_assoc, dropLast_concat]
    have hdirObject := readFile_isObject (v := v) (resolve_file hp
      (elem_append_globalDirSuffix hb).proper elem_xlStorageFormatFile)
    rw [(elem_append_globalDirSuffix hb).parts] at hdirObject
    have hobject := readFile_isObject (v := v) (resolve_file hbase Path.proper_nil
      elem_xlStorageFormatFile)
    rw [Path.parts_nil, append_nil, append_nil] at hobject
    obtain ⟨-, err, hread⟩ := hobject.resolve_left fun h =>
      Bool.false_ne_true ((hclear _ (prefix_refl _)).symm.trans h.1)
    rw [walkDir, hopts, hslash, hlast, baseEntry]
    rcases hdirObject with ⟨hyes, hmeta⟩ | ⟨hno, err', hmeta⟩
    · simp [hmeta, hyes]
    · simp [hmeta, hno, hread]

lemma baseEntry_name {e : MetaCacheEntry} (he : e ∈ baseEntry P v base) : e.name = dirName base := by
  rw [baseEntry] at he
  split at he
  · cases he
  · split_ifs at he
    · rw [mem_singleton.mp he]
    · cases he

lemma pairwise_baseEntry : (baseEntry P v base).Pairwise fun a b => a.name ≤ b.name := by
  refine pairwise_iff_forall_sublist.mpr fun {a b} h => ?_
  rw [baseEntry_name (h.subset mem_cons_self),
    baseEntry_name (h.subset (mem_cons_of_mem _ mem_cons_self))]

lemma scanDir_of_not_isDir (hbase : ∀ e ∈ base, Elem e) (hdir : ¬ v.IsDir base)
    (opts : WalkDirOptions) (depth : ℕ) (pre forward : Bytes) :
    (scanDir P v opts (depth + 1) (dirName base) pre forward).1 = [] := by
  have hlist : v.listDir (dirName base) = none := by
    rw [listDir, resolve_dirName hbase]
    split
    · next h => exact absurd h hdir
    · rfl
  rw [scanDir, hlist]

lemma listed_of_not_isDir (hv : v.Conforms) (hdir : ¬ v.IsDir base) (recursive : Bool) :
    v.listed base recursive = [] := by
  refine eq_nil_iff_forall_not_mem.mpr fun q hq => hdir ?_
  obtain ⟨hmem, ⟨hpre, -⟩, -⟩ := (mem_listed hv).mp hq
  exact Volume.IsDir.of_isPrefix (isDir_of_mem hmem) hpre

/-- The walk sends its entries in the order of their names: one entry for each object, with its
metadata, and one without metadata for each other directory that holds something. -/
theorem walkDir_exact (P : Packages) (v : Volume) (hv : v.Conforms) (base : List Bytes)
    (hbase : ∀ e ∈ base, Elem e) (hclear : v.Clear base) (recursive reportNotFound : Bool) :
    ((walkDir P v ⟨dirName base, recursive, reportNotFound, [], []⟩).1.Pairwise
        fun a b => a.name ≤ b.name) ∧
      (walkDir P v ⟨dirName base, recursive, reportNotFound, [], []⟩).1.Perm
        (baseEntry P v base ++ (v.listed base recursive).map (entryAt v)) := by
  rw [walkDir_eq hbase hclear rfl]
  by_cases hdir : v.IsDir base
  · have hdepth : v.depth < base.length + (v.depth + 1) := by omega
    refine ⟨pairwise_append.mpr ⟨pairwise_baseEntry, ?_, fun a ha b hb => ?_⟩, ?_⟩
    · exact scanDir_sorted hv rfl hdir hclear hdepth
    · rw [baseEntry_name ha]
      exact le_of_isPrefix (isPrefix_of_mem_scanDir hv rfl hdir hclear hdepth hb)
    · exact (scanDir_perm hv rfl hdir hclear hdepth).append_left _
  · rw [scanDir_of_not_isDir hbase hdir, listed_of_not_isDir hv hdir, map_nil, append_nil]
    exact ⟨pairwise_baseEntry, List.Perm.refl _⟩

end WalkDir

/-- The directory `b` with the object `c` in it, and the directory object `b/`. -/
def smallVolume : Volume where
  nodes := [([[98]], none), ([[98], [99]], none), ([[98], [99], xlStorageFormatFile], some [1]),
    ([[98] ++ globalDirSuffix], none), ([[98] ++ globalDirSuffix, xlStorageFormatFile], some [2])]
  elems := by decide
  nodup := by decide
  parents := by decide

/-- The walk of `b` lists the directory object first and then the object in the directory. -/
theorem walkDir_exact_smallVolume :
    (walkDir Packages.std smallVolume ⟨[98, 47], true, false, [], []⟩).1.Perm
      [⟨[98, 47], [2]⟩, ⟨[98, 47, 99], [1]⟩] :=
  (walkDir_exact Packages.std smallVolume (by decide) [[98]] (by decide) (by decide) true false).2

end Obstor.Metacache
