import Mathlib

/-!
# The Go values the model is written over

`Time` is a `time.Time` as its nanoseconds from the Unix epoch; `UnixNano` wraps, so it is a left
inverse of `time.Unix(0, n)` only between 1678 and 2262. In `Err` a sentinel is equal to itself
only, a fresh error is told apart by an identity, and a run-time panic is an error value too, so
that it is never a success. The orders that the language leaves open are parameters: `RangeOrder`
for a `range` over a map, `SliceSort` and `DataSort` for elements that compare equal.
-/

namespace Obstor.Go

open List

abbrev Bytes := List UInt8

def stringBytes (s : String) : Bytes := s.toByteArray.data.toList

lemma stringBytes_inj {s t : String} : stringBytes s = stringBytes t ↔ s = t := by
  constructor
  · intro h
    exact String.toByteArray_inj.mp (ByteArray.ext (Array.toList_inj.mp h))
  · rintro rfl
    rfl

lemma stringBytes_ofList (l : List Char) :
    stringBytes (String.ofList l) = l.flatMap String.utf8EncodeChar := by
  unfold stringBytes
  rw [String.toByteArray_ofList]
  induction l with
  | nil => rfl
  | cons c l ih =>
    have hc : [c].utf8Encode.data.toList = String.utf8EncodeChar c := by
      simp [utf8Encode, data_toByteArray]
    rw [utf8Encode_cons, flatMap_cons, ← ih, ← hc]
    simp

/-! ### Signed arithmetic -/

/-- The value an `int64` holds after an operation whose exact result is `x`. -/
def int64 (x : ℤ) : ℤ := Int.bmod x (2 ^ 64)

lemma int64_eq_self {x : ℤ} (h₁ : -2 ^ 63 ≤ x) (h₂ : x < 2 ^ 63) : int64 x = x := by
  unfold int64
  rw [Int.bmod_def]
  split_ifs <;> omega

lemma int64_of_overflow {x : ℤ} (h₁ : 2 ^ 63 ≤ x) (h₂ : x < 2 ^ 64 + 2 ^ 63) :
    int64 x = x - 2 ^ 64 := by
  unfold int64
  rw [Int.bmod_def]
  split_ifs <;> omega

/-- The value an `int32` holds after an operation whose exact result is `x`. -/
def int32 (x : ℤ) : ℤ := Int.bmod x (2 ^ 32)

lemma int32_eq_self {x : ℤ} (h₁ : -2 ^ 31 ≤ x) (h₂ : x < 2 ^ 31) : int32 x = x := by
  unfold int32
  rw [Int.bmod_def]
  split_ifs <;> omega

def uint64 (x : ℤ) : ℕ := (x % 2 ^ 64).toNat

lemma uint64_natCast {n : ℕ} (h : n < 2 ^ 64) : uint64 n = n := by
  unfold uint64
  omega

def uint32 (x : ℤ) : ℕ := (x % 2 ^ 32).toNat

lemma uint32_natCast {n : ℕ} (h : n < 2 ^ 32) : uint32 n = n := by
  unfold uint32
  omega

/-! ### Times -/

/-- A `time.Time`: nanoseconds from the Unix epoch. -/
structure Time where
  /-- Nanoseconds from `1970-01-01T00:00:00Z`. -/
  nanos : ℤ
  deriving DecidableEq

namespace Time

/-- The zero `time.Time`, midnight of January 1, year 1. -/
def zero : Time := ⟨-62135596800 * 10 ^ 9⟩

def isZero (t : Time) : Bool := t = zero

/-- `Time.UnixNano`, which wraps outside the years 1678 to 2262. -/
def unixNano (t : Time) : ℤ := int64 t.nanos

def unix (n : ℤ) : Time := ⟨n⟩

def after (t u : Time) : Bool := u.nanos < t.nanos

/-- A time that a journal entry can carry: a positive `int64` number of nanoseconds. -/
def Storable (t : Time) : Prop := 0 < t.nanos ∧ t.nanos < 2 ^ 63

instance (t : Time) : Decidable t.Storable := inferInstanceAs (Decidable (_ ∧ _))

lemma Storable.unixNano {t : Time} (h : t.Storable) : t.unixNano = t.nanos :=
  int64_eq_self (by have := h.1; omega) h.2

lemma eq_of_nanos {t u : Time} (h : t.nanos = u.nanos) : t = u := by
  cases t
  cases u
  exact congrArg Time.mk h

end Time

/-! ### Errors -/

/-- The errors the object layer shows to its callers.
Source: `cmd/object-api-errors.go` -/
inductive ApiErr
  | objectNotFound
  | versionNotFound
  | methodNotAllowed
  | insufficientReadQuorum
  | insufficientWriteQuorum
  | incompleteBody
  | parentIsObject
  deriving DecidableEq

/-- An error value.
Source: `cmd/storage-errors.go`, `cmd/erasure-errors.go`, `cmd/typed-errors.go` -/
inductive Err
  | unexpected
  | corruptedFormat
  | unformattedDisk
  | diskNotFound
  | faultyDisk
  | faultyRemoteDisk
  | diskAccessDenied
  | fileNotFound
  | fileVersionNotFound
  | fileCorrupt
  | fileParentIsFile
  | methodNotAllowed
  | invalidArgument
  | lessData
  | erasureReadQuorum
  | erasureWriteQuorum
  | unexpectedEOF
  | invalidRange (offset length size : ℤ)
  /-- An error of the object layer. -/
  | api (e : ApiErr)
  /-- `errors.New(text)`, or an error of another package. -/
  | new (id : ℕ) (text : String)
  /-- `fmt.Errorf` with `%w` on `e`. -/
  | wrap (id : ℕ) (text : String) (e : Err)
  /-- A run-time panic. -/
  | panic (text : String)
  deriving DecidableEq

/-- `errors.Is(e, target)` for a non-nil `e`: `e` or one of the errors it wraps is `target`. -/
def Err.is : Err → Err → Bool
  | .wrap id text e, target => .wrap id text e = target || e.is target
  | e, target => e = target

/-- `errors.Is(err, target)`, where a nil error matches nothing. -/
def errorsIs (err : Option Err) (target : Err) : Bool :=
  match err with
  | none => false
  | some e => e.is target

@[simp] lemma Err.is_self (e : Err) : e.is e := by
  cases e <;> simp [Err.is]

/-- Translation of storage errors to the errors of the object layer; a nil error stays nil, and
an error without a counterpart is passed on.
Source: `cmd/object-api-errors.go`, `toObjectErr` -/
def toObjectErr : Err → Err
  | .fileVersionNotFound => .api .versionNotFound
  | .methodNotAllowed => .api .methodNotAllowed
  | .fileNotFound => .api .objectNotFound
  | .fileParentIsFile => .api .parentIsObject
  | .erasureReadQuorum => .api .insufficientReadQuorum
  | .erasureWriteQuorum => .api .insufficientWriteQuorum
  | .unexpectedEOF => .api .incompleteBody
  | e => e

/-! ### Calls that change a state -/

section Calls

variable {σ β : Type} {r : σ × Option Err} {s : σ}

/-- The state after a call that returns an error value, if that is nil. -/
def onSuccess (r : σ × Option Err) : Option σ :=
  match r.2 with
  | none => some r.1
  | some _ => none

lemma onSuccess_eq_some : onSuccess r = some s ↔ r = (s, none) := by
  obtain ⟨t, _ | e⟩ := r <;> simp [onSuccess]

/-- The state after a call that returns a value or an error, if it is a value. -/
def onOk (r : σ × Except Err β) : Option σ :=
  match r.2 with
  | .ok _ => some r.1
  | .error _ => none

lemma onOk_eq_some {r : σ × Except Err β} : onOk r = some s ↔ ∃ b, r = (s, .ok b) := by
  obtain ⟨t, e | b⟩ := r <;> simp [onOk]

end Calls

/-! ### Maps -/

/-- A Go map with string keys; `none` is the nil map. -/
abbrev GoMap (α : Type) := Option (List (String × α))

namespace GoMap

variable {α : Type}

def empty : GoMap α := some []

def entries (m : GoMap α) : List (String × α) := m.getD []

def lookup (m : GoMap α) (k : String) : Option α :=
  (m.entries.find? fun p => p.1 = k).map Prod.snd

/-- `m[k] = v` on the entries of a map: overwrite the key, or add it. -/
def insertEntry (k : String) (v : α) : List (String × α) → List (String × α)
  | [] => [(k, v)]
  | (k', v') :: rest => if k' = k then (k, v) :: rest else (k', v') :: insertEntry k v rest

/-- `m[k] = v`. On a nil map the assignment panics. -/
def set (m : GoMap α) (k : String) (v : α) : Except Err (GoMap α) :=
  match m with
  | none => .error (.panic "assignment to entry in nil map")
  | some l => .ok (some (insertEntry k v l))

end GoMap

/-! ### The order of a `range` over a map -/

/-- The order in which one `range` statement visits the keys of a map: any rearrangement. -/
structure RangeOrder where
  /-- The keys in the order of the visit. -/
  order : (α : Type) → List α → List α
  /-- Every key is visited exactly once. -/
  perm : ∀ (α : Type) (l : List α), (order α l).Perm l

namespace RangeOrder

def inOrder : RangeOrder where
  order _ l := l
  perm _ _ := List.Perm.refl _

def reversed : RangeOrder where
  order _ l := l.reverse
  perm _ l := l.reverse_perm

def rotated (k : ℕ) : RangeOrder where
  order _ l := l.drop k ++ l.take k
  perm _ l := List.perm_append_comm.trans (.of_eq (List.take_append_drop k l))

variable {α : Type}

@[simp] lemma mem_order (ρ : RangeOrder) {l : List α} {a : α} : a ∈ ρ.order α l ↔ a ∈ l :=
  (ρ.perm α l).mem_iff

end RangeOrder

/-! ### Sorting a slice -/

/-- A comparison `sort.Slice` can be given: a strict weak order. -/
structure StrictWeak {α : Type} (less : α → α → Bool) : Prop where
  asymm : ∀ a b, less a b = true → less b a = false
  negTrans : ∀ a b c, less a b = false → less b c = false → less a c = false

/-- `sort.Slice(l, less)`: a rearrangement in which no element stands behind a greater one. -/
structure SliceSort where
  sort : (α : Type) → (α → α → Bool) → List α → List α
  perm : ∀ (α : Type) (less : α → α → Bool) (l : List α), (sort α less l).Perm l
  ordered : ∀ (α : Type) (less : α → α → Bool) (l : List α), StrictWeak less →
    (sort α less l).Pairwise fun a b => less b a = false

/-- Insertion sort is such a rearrangement. -/
def SliceSort.insertion : SliceSort where
  sort _ less l := l.insertionSort fun a b => less b a = false
  perm _ less l := perm_insertionSort _ l
  ordered α less l h := by
    have htotal : Std.Total fun a b : α => less b a = false := by
      refine ⟨fun a b => ?_⟩
      by_cases hba : less b a = true
      · exact Or.inr (h.asymm b a hba)
      · exact Or.inl (by simpa using hba)
    have htrans : IsTrans α fun a b : α => less b a = false :=
      ⟨fun a b c hab hbc => h.negTrans c b a hbc hab⟩
    exact pairwise_insertionSort _ l

/-- A comparison that is a strict weak order on the elements of a list. -/
structure StrictWeakOn {α : Type} (less : α → α → Bool) (l : List α) : Prop where
  asymm : ∀ a ∈ l, ∀ b ∈ l, less a b = true → less b a = false
  negTrans : ∀ a ∈ l, ∀ b ∈ l, ∀ c ∈ l, less a b = false → less b c = false → less a c = false

/-- `sort.Sort(data)`, which compares only elements of the data. -/
structure DataSort where
  sort : (α : Type) → (α → α → Bool) → List α → List α
  perm : ∀ (α : Type) (less : α → α → Bool) (l : List α), (sort α less l).Perm l
  ordered : ∀ (α : Type) (less : α → α → Bool) (l : List α), StrictWeakOn less l →
    (sort α less l).Pairwise fun a b => less b a = false

/-- Insertion sort is such a rearrangement too. -/
def DataSort.insertion : DataSort where
  sort := SliceSort.insertion.sort
  perm := SliceSort.insertion.perm
  ordered α less l h := by
    -- the comparison is strict weak on the subtype of the elements
    have hweak : StrictWeak fun a b : {x // x ∈ l} => less a.1 b.1 :=
      ⟨fun a b => h.asymm a.1 a.2 b.1 b.2, fun a b c => h.negTrans a.1 a.2 b.1 b.2 c.1 c.2⟩
    have hsorted := SliceSort.insertion.ordered _ _ l.attach hweak
    have hmap : SliceSort.insertion.sort α less l =
        (SliceSort.insertion.sort _ (fun a b : {x // x ∈ l} => less a.1 b.1) l.attach).map
          Subtype.val := by
      have h := map_insertionSort (fun a b : {x // x ∈ l} => less b.1 a.1 = false)
        (fun a b => less b a = false) Subtype.val l.attach fun _ _ _ _ => Iff.rfl
      rw [attach_map_subtype_val] at h
      exact h.symm
    rw [hmap]
    exact pairwise_map.mpr hsorted

/-- What the language and its library leave open. -/
structure Choices where
  range : RangeOrder
  slice : SliceSort

def Choices.std : Choices := ⟨.inOrder, .insertion⟩

end Obstor.Go
