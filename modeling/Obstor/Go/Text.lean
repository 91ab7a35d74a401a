import Mathlib

/-!
# Go strings as texts

`Text` is a Go string that holds valid UTF-8, as the list of its characters. On such strings the
functions of package `strings` that compare, cut and replace bytes do the same to characters, and
the order of the bytes is the order of the characters.
-/

namespace Obstor.Go

open List

abbrev Text := List Char

instance lawfulBEqText : LawfulBEq Text := inferInstance

namespace Text

def isSpace (c : Char) : Bool :=
  c ∈ ['\t', '\n', '\x0b', '\x0c', '\r', ' ',
    '\u0085', '\u00a0', '\u1680', '\u2028', '\u2029', '\u202f', '\u205f', '\u3000'] ||
    ('\u2000' ≤ c && c ≤ '\u200a')

def trimSpace (s : Text) : Text := ((s.dropWhile isSpace).reverse.dropWhile isSpace).reverse

def join (elems : List Text) (sep : Text) : Text := sep.intercalate elems

def trimSuffix (s suffix : Text) : Text :=
  if suffix.isSuffixOf s then s.take (s.length - suffix.length) else s

/-! ### Slash-separated paths -/

def dot : Text := ['.']

def dotDot : Text := ['.', '.']

/-- One element of a path that is cleaned, behind the elements `elems` that are kept so far. -/
def cleanStep (rooted : Bool) (elems : List Text) (elem : Text) : List Text :=
  if elem = [] ∨ elem = dot then elems
  else if elem = dotDot then
    match elems.getLast? with
    | none => if rooted then [] else [dotDot]
    | some last => if last = dotDot then elems ++ [dotDot] else elems.dropLast
  else elems ++ [elem]

/-- The elements of a relative path that are left when it is cleaned. -/
def cleanElems (elems : List Text) : List Text := elems.foldl (cleanStep false) []

/-- A name in a directory: an element that is kept. -/
def IsElem (e : Text) : Prop := e ≠ [] ∧ '/' ∉ e ∧ e ≠ dot ∧ e ≠ dotDot

instance (e : Text) : Decidable (IsElem e) := inferInstanceAs (Decidable (_ ∧ _))

end Text

/-! ### Sets of strings -/

abbrev StringSet := List Text

namespace StringSet

def create (sl : List Text) : StringSet := sl.dedup

def add (set : StringSet) (s : Text) : StringSet := List.insert s set

def remove (set : StringSet) (s : Text) : StringSet := set.filter (· ≠ s)

def difference (set sset : StringSet) : StringSet := set.filter (· ∉ sset)

/-- `StringSet.ToSlice`, which sorts. -/
def toSlice (set : StringSet) : List Text := set.insertionSort (· ≤ ·)

variable {set sset : StringSet} {s t : Text}

@[simp] lemma mem_create {sl : List Text} : t ∈ create sl ↔ t ∈ sl := mem_dedup

@[simp] lemma mem_add : t ∈ add set s ↔ t = s ∨ t ∈ set := mem_insert_iff

@[simp] lemma mem_remove : t ∈ remove set s ↔ t ∈ set ∧ t ≠ s := by
  simp [remove]

@[simp] lemma mem_difference : t ∈ difference set sset ↔ t ∈ set ∧ t ∉ sset := by
  simp [difference]

@[simp] lemma mem_toSlice : t ∈ toSlice set ↔ t ∈ set := mem_insertionSort _

end StringSet

end Obstor.Go
