import Mathlib

/-!
# Finite maps

`Table κ α` is a finite map from `κ` to `α`: Mathlib's association lists without repeated keys, at
a constant family. What is proved here is how the operations look through `lookup`: setting a key
(`insert`), deleting one (`erase`), writing all of one table over another (`∪`, where the left one
wins), and changing entries everywhere (`mapVal`).
-/

namespace Obstor.Lib

open List Option AList

abbrev Table (κ α : Type) := AList fun _ : κ => α

namespace Table

variable {κ α β : Type}

def toList (t : Table κ α) : List (κ × α) := t.entries.map fun e => (e.1, e.2)

def mapVal (f : α → β) (t : Table κ α) : Table κ β where
  entries := t.entries.map (.map id fun _ => f)
  nodupKeys := t.nodupKeys.map₂ (fun _ => f)

/-- Only the entries that pass `p` are kept. -/
def keep (p : κ → α → Bool) (t : Table κ α) : Table κ α where
  entries := t.entries.filter fun e => p e.1 e.2
  nodupKeys := t.nodupKeys.sublist filter_sublist

variable [DecidableEq κ]

lemma lookup_insert_eq (t : Table κ α) (k k' : κ) (v : α) :
    (t.insert k v).lookup k' = if k' = k then some v else t.lookup k' := by
  split_ifs with h
  · subst h
    exact lookup_insert t
  · exact lookup_insert_ne h

lemma lookup_erase_eq (t : Table κ α) (k k' : κ) :
    (t.erase k).lookup k' = if k' = k then none else t.lookup k' := by
  split_ifs with h
  · subst h
    exact lookup_erase k' t
  · exact lookup_erase_ne h

lemma lookup_union_eq (t u : Table κ α) (k : κ) :
    (t ∪ u).lookup k = (t.lookup k).or (u.lookup k) := by
  rcases ht : t.lookup k with _ | v
  · rw [lookup_union_right (lookup_eq_none.mp ht), none_or]
  · rw [lookup_union_left (lookup_isSome.mp (by rw [ht]; rfl)), ht, some_or]

lemma lookup_mapVal (f : α → β) (t : Table κ α) (k : κ) :
    (t.mapVal f).lookup k = (t.lookup k).map f :=
  dlookup_map₂ k

lemma lookup_eq_some_iff {t : Table κ α} {k : κ} {v : α} :
    t.lookup k = some v ↔ (k, v) ∈ t.toList := by
  rw [← mem_def, mem_lookup_iff, toList, List.mem_map]
  constructor
  · intro h
    exact ⟨⟨k, v⟩, h, rfl⟩
  · rintro ⟨⟨k', v'⟩, h, heq⟩
    cases heq
    exact h

omit [DecidableEq κ] in
lemma nodup_toList (t : Table κ α) : t.toList.Nodup := by
  refine t.nodupKeys.nodup.map ?_
  rintro ⟨k, v⟩ ⟨k', v'⟩ heq
  cases heq
  rfl

end Table

end Obstor.Lib
