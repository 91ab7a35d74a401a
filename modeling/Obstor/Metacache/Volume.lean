import Obstor.Go.Paths
import Obstor.Go.Strings

/-!
# The directory tree of a volume

A volume is a finite tree of directories and files, given by the paths of its nodes in the order in
which the file system lists them. Paths are lists of elements below the directory of the volume;
functions that take a path as bytes resolve it there.
-/

namespace Obstor.Metacache

open Go List Option

/-- The tree of a volume. A node has its path, and its data if it is a file. -/
structure Volume where
  nodes : List (List Bytes × Option Bytes)
  elems : ∀ x ∈ nodes, x.1 ≠ [] ∧ ∀ e ∈ x.1, Path.Elem e
  nodup : (nodes.map Prod.fst).Nodup
  /-- Every node is in the volume itself or in a directory. -/
  parents : ∀ x ∈ nodes, x.1.dropLast = [] ∨ (x.1.dropLast, none) ∈ nodes

inductive ReadErr
  /-- `osIsNotExist`. -/
  | notExist
  /-- `isSysErrNotDir`. -/
  | notDir
  | other
  deriving DecidableEq

namespace Volume

variable (v : Volume)

def node (p : List Bytes) : Option (Option Bytes) := if p = [] then some none else v.nodes.lookup p

def children (p : List Bytes) : List (Bytes × Option Bytes) :=
  v.nodes.filterMap fun x => if x.1.dropLast = p then x.1.getLast?.map fun e => (e, x.2) else none

/-- `xioutil.ReadFile(pathJoin(volumeDir, elems...))`. -/
def readFile (elems : List Bytes) : Except ReadErr Bytes :=
  match v.node (Path.resolve elems) with
  | some (some data) => .ok data
  | some none => .error .other
  | none =>
    if (Path.resolve elems).inits.any fun q => (v.node q).any isSome then .error .notDir
    else .error .notExist

/-- A name as `readDirN` returns it: that of a directory has a slash. -/
def rawName (c : Bytes × Option Bytes) : Bytes :=
  match c.2 with
  | some _ => c.1
  | none => c.1 ++ [Path.slash]

/-- `ListDir`; it fails where there is no directory. -/
def listDir (path : Bytes) : Option (List Bytes) :=
  match v.node (Path.resolve [path]) with
  | some none => some ((v.children (Path.resolve [path])).map rawName)
  | _ => none

/-- `isDirEmpty(pathJoin(volumeDir, path))`. -/
def isDirEmpty (path : Bytes) : Bool :=
  match v.listDir path with
  | some entries => entries.length = 0
  | none => false

/-- The length of the longest path. -/
def depth : ℕ := (v.nodes.map fun x => x.1.length).foldr max 0

/-! ### Nodes -/

variable {v}

variable {p : List Bytes} {d : Option Bytes}

lemma node_of_mem (h : (p, d) ∈ v.nodes) : v.node p = some d := by
  rw [node, if_neg (v.elems _ h).1]
  have hnodup := v.nodup
  generalize v.nodes = nodes at h hnodup
  induction nodes with
  | nil => cases h
  | cons x nodes ih =>
    rw [map_cons, nodup_cons] at hnodup
    rcases mem_cons.mp h with rfl | h
    · exact lookup_cons_self
    · have hne : p ≠ x.1 := by
        rintro rfl
        exact hnodup.1 (mem_map.mpr ⟨_, h, rfl⟩)
      rw [List.lookup_cons, beq_false_of_ne hne]
      exact ih h hnodup.2

lemma mem_of_node (hp : p ≠ []) (h : v.node p = some d) : (p, d) ∈ v.nodes := by
  rw [node, if_neg hp] at h
  generalize v.nodes = nodes at h
  induction nodes with
  | nil => cases h
  | cons x nodes ih =>
    rw [List.lookup_cons] at h
    by_cases hx : p = x.1
    · rw [beq_iff_eq.mpr hx] at h
      cases h
      exact mem_cons.mpr (.inl (by rw [hx]))
    · rw [beq_false_of_ne hx] at h
      exact mem_cons_of_mem _ (ih h)

lemma mem_children {c : Bytes} : (c, d) ∈ v.children p ↔ (p ++ [c], d) ∈ v.nodes := by
  rw [children, mem_filterMap]
  constructor
  · rintro ⟨x, hx, h⟩
    obtain ⟨hp, h⟩ := ite_none_right_eq_some.mp h
    obtain ⟨e, he, heq⟩ := map_eq_some_iff.mp h
    obtain ⟨rfl, rfl⟩ := Prod.mk.inj heq
    rw [← hp, dropLast_append_getLast? e he]
    exact hx
  · intro h
    exact ⟨_, h, by simp⟩

lemma length_le_depth (h : (p, d) ∈ v.nodes) : p.length ≤ v.depth := by
  rw [depth]
  generalize v.nodes = nodes at h
  induction nodes with
  | nil => cases h
  | cons x nodes ih =>
    rcases mem_cons.mp h with rfl | h
    · exact le_max_left _ _
    · exact (ih h).trans (le_max_right _ _)

lemma nodup_children (v : Volume) (p : List Bytes) : ((v.children p).map Prod.fst).Nodup := by
  rw [children]
  have hnodup := v.nodup
  generalize v.nodes = nodes at hnodup
  induction nodes with
  | nil => exact nodup_nil
  | cons x nodes ih =>
    rw [map_cons, nodup_cons] at hnodup
    rw [filterMap_cons]
    split
    · exact ih hnodup.2
    · next c h =>
      obtain ⟨hp, h⟩ := ite_none_right_eq_some.mp h
      obtain ⟨e, he, rfl⟩ := map_eq_some_iff.mp h
      rw [map_cons, nodup_cons]
      refine ⟨fun hmem => hnodup.1 ?_, ih hnodup.2⟩
      obtain ⟨c, hc, hce⟩ := mem_map.mp hmem
      obtain ⟨y, hy, hyc⟩ := mem_filterMap.mp hc
      obtain ⟨hyp, hyc⟩ := ite_none_right_eq_some.mp hyc
      obtain ⟨e', he', rfl⟩ := map_eq_some_iff.mp hyc
      have hxy : x.1 = y.1 := by
        rw [← dropLast_append_getLast? e he, ← dropLast_append_getLast? e' he', hp, hyp]
        exact congrArg _ (congrArg (· :: []) hce.symm)
      rw [hxy]
      exact mem_map_of_mem hy

end Volume

end Obstor.Metacache
