import Obstor.Go.Values

/-!
# Slash-separated paths

`path.Clean` and `path.Join` of the Go library, and `pathJoin` of the repository, on the bytes of a
path.
-/

namespace Obstor.Go.Path

open List

def slash : UInt8 := 47

def dotElem : Bytes := [46]

def dotDotElem : Bytes := [46, 46]

/-- One element of a path that is cleaned; `elems` are the elements that are kept so far, from the
last to the first. -/
def cleanStep (rooted : Bool) (elems : List Bytes) (elem : Bytes) : List Bytes :=
  if elem = [] ∨ elem = dotElem then elems
  else if elem = dotDotElem then
    match elems with
    | last :: rest => if last = dotDotElem then dotDotElem :: elems else rest
    | [] => if rooted then [] else [dotDotElem]
  else elem :: elems

/-- The elements with a separator between them. -/
def joinElems (elems : List Bytes) : Bytes := [slash].intercalate elems

/-- `path.Clean`: the shortest path that means the same, by its text alone. -/
def clean (path : Bytes) : Bytes :=
  let rooted := path.head? = some slash
  let elems := ((path.splitOn slash).foldl (cleanStep rooted) []).reverse
  let cleaned := (if rooted then [slash] else []) ++ joinElems elems
  if cleaned = [] then dotElem else cleaned

/-- `path.Join`: empty elements in front are left out. -/
def join (elems : List Bytes) : Bytes :=
  let elems := elems.dropWhile (· = [])
  if elems = [] then [] else clean (joinElems elems)

/-- `strings.HasSuffix(path, "/")`. -/
def endsInSlash (path : Bytes) : Bool := path.getLast? = some slash

/-- `pathJoin`: the trailing slash of the last element is kept.
Source: `cmd/object-api-utils.go` -/
def pathJoin (elems : List Bytes) : Bytes :=
  join elems ++ if endsInSlash (elems.getLastD []) then [slash] else []

/-! ### Paths that are clean -/

/-- An element that is kept: a name in a directory. -/
structure Elem (s : Bytes) : Prop where
  ne_nil : s ≠ []
  no_slash : slash ∉ s
  ne_dot : s ≠ dotElem
  ne_dotDot : s ≠ dotDotElem

instance (s : Bytes) : Decidable (Elem s) :=
  decidable_of_iff (s ≠ [] ∧ slash ∉ s ∧ s ≠ dotElem ∧ s ≠ dotDotElem)
    ⟨fun h => ⟨h.1, h.2.1, h.2.2.1, h.2.2.2⟩, fun h => ⟨h.ne_nil, h.no_slash, h.ne_dot, h.ne_dotDot⟩⟩

/-- The elements, each with a slash behind it: the name of a directory. -/
def dirName (p : List Bytes) : Bytes := p.flatMap (· ++ [slash])

lemma dirName_append (p q : List Bytes) : dirName (p ++ q) = dirName p ++ dirName q :=
  flatMap_append

lemma dirName_concat (p : List Bytes) (c : Bytes) : dirName (p ++ [c]) = dirName p ++ (c ++ [slash]) := by
  rw [dirName_append]
  exact congrArg _ (append_nil _)

lemma joinElems_cons_cons (a b : Bytes) (l : List Bytes) :
    joinElems (a :: b :: l) = a ++ slash :: joinElems (b :: l) := by
  simp [joinElems, intercalate]

lemma joinElems_singleton (a : Bytes) : joinElems [a] = a := by
  simp [joinElems, intercalate]

lemma joinElems_concat (p : List Bytes) (c : Bytes) : joinElems (p ++ [c]) = dirName p ++ c := by
  induction p with
  | nil => simp [joinElems, intercalate, dirName]
  | cons a p ih =>
    obtain ⟨b, l, hl⟩ := exists_cons_of_ne_nil (append_ne_nil_of_right_ne_nil p (cons_ne_nil c []))
    rw [cons_append, hl, joinElems_cons_cons, ← hl, ih]
    simp [dirName]

lemma splitOn_joinElems {l : List Bytes} (h : l ≠ []) :
    (joinElems l).splitOn slash = l.flatMap (splitOn slash) := by
  induction l with
  | nil => exact absurd rfl h
  | cons a l ih =>
    cases l with
    | nil => rw [joinElems_singleton, flatMap_singleton]
    | cons b l =>
      rw [joinElems_cons_cons, splitOn_append_cons_self, ih (cons_ne_nil b l)]
      rfl

lemma foldl_cleanStep {rooted : Bool} {l acc : List Bytes} (h : ∀ e ∈ l, e = [] ∨ Elem e) :
    l.foldl (cleanStep rooted) acc = (l.filter (· ≠ [])).reverse ++ acc := by
  induction l generalizing acc with
  | nil => rfl
  | cons e l ih =>
    obtain ⟨he, hl⟩ := forall_mem_cons.mp h
    rw [foldl_cons, ih hl, cleanStep.eq_def]
    rcases he with rfl | he
    · rw [if_pos (.inl rfl), filter_cons_of_neg (by simp)]
    · rw [if_neg (not_or.mpr ⟨he.ne_nil, he.ne_dot⟩), if_neg he.ne_dotDot,
        filter_cons_of_pos (by simpa using he.ne_nil), reverse_cons, append_assoc, singleton_append]

def parts (s : Bytes) : List Bytes := (s.splitOn slash).filter (· ≠ [])

/-- A path without `.` and `..`. -/
def Proper (s : Bytes) : Prop := ∀ e ∈ s.splitOn slash, e = [] ∨ Elem e

lemma proper_nil : Proper [] := by
  intro e he
  rw [splitOn_nil, mem_singleton] at he
  exact .inl he

lemma parts_nil : parts [] = [] := by
  rfl

variable {c : Bytes}

lemma Elem.proper (h : Elem c) : Proper c := by
  intro e he
  rw [splitOn_eq_singleton h.no_slash, mem_singleton] at he
  exact .inr (he ▸ h)

lemma Elem.parts (h : Elem c) : parts c = [c] := by
  rw [Path.parts, splitOn_eq_singleton h.no_slash]
  exact filter_cons_of_pos (by simpa using h.ne_nil)

lemma parts_append_slash (a b : Bytes) : parts (a ++ slash :: b) = parts a ++ parts b := by
  rw [parts, splitOn_append_cons_self, filter_append, ← parts, ← parts]

lemma proper_append_slash {a b : Bytes} (ha : Proper a) (hb : Proper b) :
    Proper (a ++ slash :: b) := by
  intro e he
  rw [splitOn_append_cons_self] at he
  exact (mem_append.mp he).elim (ha e) (hb e)

lemma Elem.parts_slash (h : Elem c) : Path.parts (c ++ [slash]) = [c] := by
  rw [parts_append_slash, parts_nil, append_nil, h.parts]

lemma Elem.proper_slash (h : Elem c) : Proper (c ++ [slash]) :=
  proper_append_slash h.proper proper_nil

variable {p : List Bytes}

lemma dirName_cons_append (e : Bytes) (p : List Bytes) (s : Bytes) :
    dirName (e :: p) ++ s = e ++ slash :: (dirName p ++ s) := by
  simp [dirName]

lemma parts_append_elem (hp : ∀ e ∈ p, Elem e) (s : Bytes) :
    parts (dirName p ++ s) = p ++ parts s := by
  induction p with
  | nil => rfl
  | cons e p ih =>
    obtain ⟨he, hp⟩ := forall_mem_cons.mp hp
    rw [dirName_cons_append, parts_append_slash, he.parts, ih hp, singleton_append, cons_append]

variable {s : Bytes}

lemma proper_append_elem (hp : ∀ e ∈ p, Elem e) (hs : Proper s) : Proper (dirName p ++ s) := by
  induction p with
  | nil => exact hs
  | cons e p ih =>
    obtain ⟨he, hp⟩ := forall_mem_cons.mp hp
    rw [dirName_cons_append]
    exact proper_append_slash he.proper (ih hp)

/-- The file that a path means, below a directory: its elements, cleaned. -/
def resolve (elems : List Bytes) : List Bytes :=
  (((joinElems elems).splitOn slash).foldl (cleanStep true) []).reverse

lemma resolve_eq {elems : List Bytes} (h : ∀ s ∈ elems, Proper s) :
    resolve elems = elems.flatMap parts := by
  cases elems with
  | nil => rfl
  | cons a l =>
    rw [resolve, splitOn_joinElems (cons_ne_nil a l), foldl_cleanStep, append_nil,
      reverse_reverse, filter_flatMap]
    · rfl
    · intro e he
      obtain ⟨s, hs, hes⟩ := mem_flatMap.mp he
      exact h s hs e hes

lemma mem_parts_ne_nil {e : Bytes} (h : e ∈ parts s) : e ≠ [] := by
  simpa using (mem_filter.mp h).2

lemma clean_eq (hs : Proper s) (hroot : s.head? ≠ some slash) (hne : parts s ≠ []) :
    clean s = joinElems (parts s) := by
  have hne' : joinElems (parts s) ≠ [] := by
    obtain ⟨q, c, hq⟩ := (eq_nil_or_concat' (parts s)).resolve_left hne
    have hc : c ≠ [] := mem_parts_ne_nil (hq ▸ mem_append_right q (mem_singleton_self c))
    rw [hq, joinElems_concat]
    exact append_ne_nil_of_right_ne_nil _ hc
  have helems : ((s.splitOn slash).foldl (cleanStep false) []).reverse = parts s := by
    rw [foldl_cleanStep hs, append_nil, reverse_reverse, parts]
  simp [clean, decide_eq_false hroot, helems, if_neg hroot, if_neg hne']

lemma head?_dirName_append (hp : ∀ e ∈ p, Elem e)
    (hs : p ≠ [] ∨ s.head? ≠ some slash) : (dirName p ++ s).head? ≠ some slash := by
  cases p with
  | nil => exact hs.resolve_left (fun h => h rfl)
  | cons e p =>
    have he := hp e mem_cons_self
    obtain ⟨x, e', rfl⟩ := exists_cons_of_ne_nil he.ne_nil
    intro h
    have hx : x = slash := by simpa [dirName] using h
    exact he.no_slash (hx ▸ mem_cons_self)

lemma Elem.head?_ne (h : Elem c) : c.head? ≠ some slash := by
  intro hhead
  exact h.no_slash (mem_of_mem_head? hhead)

lemma join_dirName (hp : ∀ e ∈ p, Elem e) (hs : Proper s)
    (hroot : s.head? ≠ some slash) (hne : parts s ≠ []) :
    join [dirName p, s] = joinElems (p ++ parts s) := by
  have hs' : s ≠ [] := by
    rintro rfl
    exact hne parts_nil
  cases p with
  | nil =>
    rw [join, dropWhile_cons_of_pos (by rfl),
      dropWhile_cons_of_neg (by simpa using hs'), if_neg (cons_ne_nil _ _),
      joinElems_singleton, clean_eq hs hroot hne, nil_append]
  | cons e p =>
    have hdir : dirName (e :: p) ≠ [] := by simp [dirName]
    have hparts : parts (dirName (e :: p) ++ slash :: s) = (e :: p) ++ parts s := by
      rw [parts_append_elem hp]
      exact congrArg _ (parts_append_slash [] s)
    rw [join, dropWhile_cons_of_neg (by simpa using hdir), if_neg (cons_ne_nil _ _),
      joinElems_cons_cons, joinElems_singleton, clean_eq, hparts]
    · exact proper_append_elem hp (proper_append_slash proper_nil hs)
    · exact head?_dirName_append hp (.inl (cons_ne_nil e p))
    · rw [hparts]
      exact cons_ne_nil _ _

lemma pathJoin_dirName (hp : ∀ e ∈ p, Elem e) (hs : Proper s) (hroot : s.head? ≠ some slash)
    (hparts : parts s = [c]) :
    pathJoin [dirName p, s] = dirName p ++ c ++ if endsInSlash s then [slash] else [] := by
  rw [pathJoin, join_dirName hp hs hroot (by rw [hparts]; exact cons_ne_nil _ _), hparts,
    joinElems_concat]
  rfl

lemma pathJoin_elem (hp : ∀ e ∈ p, Elem e) (hc : Elem c) :
    pathJoin [dirName p, c] = dirName p ++ c := by
  have hslash : endsInSlash c = false := decide_eq_false fun h => hc.no_slash (mem_of_getLast? h)
  rw [pathJoin_dirName hp hc.proper hc.head?_ne hc.parts, hslash]
  exact append_nil _

lemma pathJoin_elem_slash (hp : ∀ e ∈ p, Elem e) (hc : Elem c) :
    pathJoin [dirName p, c ++ [slash]] = dirName p ++ (c ++ [slash]) := by
  have hhead : (c ++ [slash]).head? ≠ some slash := by
    obtain ⟨x, c', rfl⟩ := exists_cons_of_ne_nil hc.ne_nil
    exact hc.head?_ne
  rw [pathJoin_dirName hp hc.proper_slash hhead hc.parts_slash]
  simp [endsInSlash]

lemma clean_slash_slash {a : Bytes} (ha : a ≠ []) (b : Bytes) :
    clean (a ++ slash :: slash :: b) = clean (a ++ slash :: b) := by
  have hhead : ∀ t, (a ++ t).head? = a.head? := fun t => head?_append_of_ne_nil a ha
  have hsplit : (slash :: b).splitOn slash = [] :: b.splitOn slash :=
    splitOn_append_cons_self [] b
  simp only [clean, hhead, splitOn_append_cons_self, hsplit, foldl_append, foldl_cons]
  rfl

/-- A second slash behind a directory makes no difference. -/
lemma pathJoin_slash_slash {a : Bytes} (ha : a ≠ []) (entry : Bytes) :
    pathJoin [a ++ [slash] ++ [slash], entry] = pathJoin [a ++ [slash], entry] := by
  have hjoin : ∀ t, join [a ++ slash :: t, entry] = clean (a ++ slash :: (t ++ slash :: entry)) := by
    intro t
    simp [join, joinElems, intercalate, intersperse, ha]
  rw [pathJoin, pathJoin, append_assoc]
  exact congrArg (· ++ _) ((hjoin [slash]).trans ((clean_slash_slash ha _).trans (hjoin []).symm))

end Obstor.Go.Path
