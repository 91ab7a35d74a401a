import Obstor.Go.Paths
import Obstor.Metacache.Blocks

/-!
# Which cached listings are reused

`bucketMetacache.findCache` (`cmd/metacache-bucket.go`) answers a request with a cache that
`metacache.matches` (`cmd/metacache.go`) lets pass.

`ScanRange` is what a scan is for: the names that it may find. A cache is of use for a request when its
range has all names of the range of the request.

`matchesOptions_covers_iff`: a cache that matches has all names exactly if its range covers the
range of the request; not every cache that matches does (`matchesOptions_not_covering`).
`findCache_has` carries this over the search for the best cache (`bestCache_matches`).
-/

namespace Obstor.Metacache

open Go Go.Path Meta List

/-! ### The caches -/

inductive ScanStatus
  | none
  | started
  | success
  | error
  deriving DecidableEq

/-- `metacache`. A time is the number of nanoseconds; 0 is the zero time. -/
structure MetaCache where
  id : Bytes := []
  bucket : Bytes := []
  root : Bytes := []
  recursive : Bool := false
  filter : Bytes := []
  status : ScanStatus := .none
  started : ℕ := 0
  ended : ℕ := 0
  lastUpdate : ℕ := 0
  lastHandout : ℕ := 0
  startedCycle : ℕ := 0
  endedCycle : ℕ := 0
  dataVersion : UInt8 := 0
  deriving DecidableEq

def metacacheMaxRunningAge : ℤ := 60 * 10 ^ 9

def metacacheSharePrefix : Bool := false

def MetaCache.finished (m : MetaCache) : Bool := m.ended ≠ 0

/-- `matches`, at the time `now`. -/
def MetaCache.matchesOptions (m : MetaCache) (o : ListPathOptions) (extend : ℤ) (now : ℕ) : Bool :=
  if m.status = .error ∨ m.status = .none ∨ m.dataVersion ≠ metacacheStreamVersion then false
  else if m.startedCycle < o.oldestCycle then false
  else if !m.root.isPrefixOf o.baseDir then false
  else if m.filter ≠ [] ∧ o.filterPrefix.isPrefixOf m.filter then false
  else if o.recursive && !m.recursive then false
  else if o.separator ≠ [slash] ∧ !m.recursive then false
  else if !m.finished ∧ (now : ℤ) - m.lastUpdate > metacacheMaxRunningAge then false
  else if m.finished ∧ m.endedCycle ≤ o.oldestCycle then
    if extend ≤ 0 then false
    else !((now : ℤ) - m.lastUpdate > metacacheMaxRunningAge + extend)
  else true

namespace ListPathOptions

def newMetacache (o : ListPathOptions) (now : ℕ) : MetaCache where
  id := o.id
  bucket := o.bucket
  root := o.baseDir
  recursive := o.recursive
  filter := o.filterPrefix
  status := .started
  started := now
  lastHandout := now
  lastUpdate := now
  startedCycle := o.currentCycle
  dataVersion := metacacheStreamVersion

def setFilter (o : ListPathOptions) : ListPathOptions :=
  if metacacheSharePrefix then o
  else if o.currentCycle ≠ o.oldestCycle then o
  else if o.pre = o.baseDir then o
  else
    let filterPrefix := trim (trimPrefix o.pre o.baseDir) [slash]
    { o with filterPrefix := if slash ∈ filterPrefix then [] else filterPrefix }

end ListPathOptions

structure BucketMetacache where
  bucket : Bytes
  caches : List (Bytes × MetaCache) := []
  cachesRoot : List (Bytes × List Bytes) := []
  transient : Bool := false
  updated : Bool := false

namespace BucketMetacache

def setCache (b : BucketMetacache) (id : Bytes) (m : MetaCache) : BucketMetacache :=
  { b with caches := (id, m) :: b.caches.filter (·.1 ≠ id), updated := true }

section

variable (b : BucketMetacache) (o : ListPathOptions) (extend : ℤ) (now : ℕ)

/-- One cache of the loop of `findCache`: the newest that matches is kept. -/
def better (best : MetaCache) (id : Bytes) : MetaCache :=
  match b.caches.lookup id with
  | none => best
  | some cached =>
    if !cached.matchesOptions o extend now then best
    else if cached.started < best.started then best
    else cached

/-- The loop of `findCache` over the directories of the request. -/
def bestCache : MetaCache :=
  let interesting := (o.baseDir.splitOn slash).inits.tail.flatMap fun dirs =>
    (b.cachesRoot.lookup (join dirs)).getD []
  interesting.foldl (b.better o extend now) {}

def findCache : MetaCache × BucketMetacache :=
  let unknown : MetaCache := { id := o.id, bucket := o.bucket, status := .none }
  if o.bucket ≠ b.bucket ∧ !b.transient then ({}, b)
  else
    match b.caches.lookup o.id with
    | some c => (c, b)
    | none =>
      if b.transient then
        if !o.create then (unknown, b)
        else (o.newMetacache now, b.setCache o.id (o.newMetacache now))
      else
        let best := b.bestCache o extend now
        if best.started ≠ 0 then
          if o.create then
            let best := { best with lastHandout := now }
            (best, b.setCache best.id best)
          else (best, b)
        else if !o.create then (unknown, b)
        else
          let best := o.newMetacache now
          let ids := (b.cachesRoot.lookup best.root).getD []
          (best, { b.setCache o.id best with
            cachesRoot := (best.root, ids ++ [best.id]) :: b.cachesRoot.filter (·.1 ≠ best.root) })

end

end BucketMetacache

/-! ### What a scan may find -/

/-- The names that a scan may find. -/
structure ScanRange where
  root : Bytes
  filter : Bytes
  recursive : Bool

namespace ScanRange

/-- What the names in a directory begin with. -/
def dir (root : Bytes) : Bytes :=
  if root = [] ∨ endsInSlash root then root else root ++ [slash]

/-- A name below the root, with the filter directly under the root, at any depth only if the scan is
recursive. -/
def Has (r : ScanRange) (name : Bytes) : Prop :=
  ∃ rest, name = dir r.root ++ rest ∧ rest ≠ [] ∧ r.filter <+: rest ∧
    (r.recursive = true ∨ slash ∉ rest.dropLast)

/-- The root is the same, or one above it and recursive, and the filter is a prefix of what the names
have below that root. -/
def Covers (r r' : ScanRange) : Prop :=
  dir r.root <+: dir r'.root ∧ r.filter <+: (dir r'.root).drop (dir r.root).length ++ r'.filter ∧
    (dir r.root = dir r'.root ∨ r.recursive = true)

instance (r r' : ScanRange) : Decidable (Covers r r') := by
  unfold Covers
  infer_instance

lemma endsInSlash_dir {root : Bytes} (h : dir root ≠ []) : endsInSlash (dir root) := by
  unfold dir at h ⊢
  split_ifs at h ⊢ with hroot
  · exact hroot.resolve_left h
  · simp [endsInSlash]

lemma isPrefix_dir (root : Bytes) : root <+: dir root := by
  unfold dir
  split_ifs
  · exact prefix_refl root
  · exact prefix_append root [slash]

lemma length_dir_le (root : Bytes) : (dir root).length ≤ root.length + 1 := by
  unfold dir
  split_ifs
  · exact Nat.le_succ _
  · rw [length_append, length_singleton]

lemma dir_isPrefix {root root' rest : Bytes} (hroot : root <+: root')
    (h : dir root <+: dir root' ++ rest) : dir root <+: dir root' := by
  rcases prefix_or_prefix_of_prefix h (prefix_append _ rest) with h | h
  · exact h
  have hlen := h.length_le
  have hlen₁ := (isPrefix_dir root').length_le
  have hlen₂ := hroot.length_le
  have hlen₃ := length_dir_le root
  by_cases heq : (dir root').length = (dir root).length
  · rw [h.eq_of_length heq]
  · obtain rfl : root = root' := hroot.eq_of_length (by omega)
    exact prefix_refl _

lemma Covers.has {r r' : ScanRange} (h : r.Covers r')
    (hrecursive : r'.recursive → r.recursive) {name : Bytes} (hname : r'.Has name) :
    r.Has name := by
  obtain ⟨⟨below, hbelow⟩, hfilter, hdepth⟩ := h
  obtain ⟨rest, rfl, hne, hrest, hdepth'⟩ := hname
  rw [← hbelow, drop_left] at hfilter
  refine ⟨below ++ rest, ?_, ?_, ?_, ?_⟩
  · rw [← hbelow, append_assoc]
  · exact append_ne_nil_of_right_ne_nil _ hne
  · exact hfilter.trans ((prefix_append_right_inj below).mpr hrest)
  · rcases hdepth with hdepth | hdepth
    · obtain rfl : below = [] := self_eq_append_right.mp (hdepth.trans hbelow.symm)
      exact hdepth'.imp hrecursive id
    · exact .inl hdepth

lemma has_of_filter (r : ScanRange) (hslash : slash ∉ r.filter) (c : UInt8) :
    r.Has (dir r.root ++ (r.filter ++ [c])) := by
  refine ⟨r.filter ++ [c], rfl, concat_ne_nil _ _, prefix_append _ _, .inr ?_⟩
  rwa [dropLast_concat]

lemma covers_of_has {r r' : ScanRange} (hroot : r.root <+: r'.root) (hslash : slash ∉ r'.filter)
    (h : ∀ name, r'.Has name → r.Has name) : r.Covers r' := by
  obtain ⟨rest₁, hname₁, -, hrest₁, hdepth⟩ := h _ (r'.has_of_filter hslash 97)
  obtain ⟨rest₂, hname₂, -, hrest₂, -⟩ := h _ (r'.has_of_filter hslash 98)
  have hdir : dir r.root <+: dir r'.root := dir_isPrefix hroot (hname₁ ▸ prefix_append _ rest₁)
  obtain ⟨below, hbelow⟩ := hdir
  rw [← hbelow, append_assoc, append_cancel_left_eq] at hname₁ hname₂
  subst hname₁ hname₂
  refine ⟨⟨below, hbelow⟩, ?_, ?_⟩
  · rw [← hbelow, drop_left]
    rw [← append_assoc, prefix_concat_iff] at hrest₁ hrest₂
    rcases hrest₁ with hrest₁ | hrest₁
    · rcases hrest₂ with hrest₂ | hrest₂
      · have hlast := append_cancel_left (hrest₁.symm.trans hrest₂)
        exact absurd hlast (by decide)
      · exact hrest₂
    · exact hrest₁
  · rcases eq_or_ne below [] with rfl | hne
    · exact .inl (by rw [← hbelow, append_nil])
    · refine .inr (hdepth.resolve_right fun hdepth => hdepth ?_)
      have hlast : endsInSlash (dir r'.root) :=
        endsInSlash_dir (hbelow ▸ append_ne_nil_of_right_ne_nil _ hne)
      rw [← hbelow, endsInSlash, getLast?_append_of_ne_nil _ hne] at hlast
      rw [← append_assoc, dropLast_concat]
      exact mem_append_left _ (mem_of_getLast? (of_decide_eq_true hlast))

end ScanRange

/-- The names that a fresh scan for the request may find. -/
def ListPathOptions.range (o : ListPathOptions) : ScanRange := ⟨o.baseDir, o.filterPrefix, o.recursive⟩

def MetaCache.range (m : MetaCache) : ScanRange := ⟨m.root, m.filter, m.recursive⟩

section Match

variable {m : MetaCache} {o : ListPathOptions} {extend : ℤ} {now : ℕ} {b : BucketMetacache}

lemma root_isPrefix_of_matches (h : m.matchesOptions o extend now) : m.root <+: o.baseDir := by
  by_contra hroot
  simp [MetaCache.matchesOptions, hroot] at h

lemma recursive_of_matches (h : m.matchesOptions o extend now)
    (hrecursive : o.recursive) : m.recursive := by
  by_contra hm
  simp [MetaCache.matchesOptions, hrecursive, hm] at h

lemma bestCache_matches : b.bestCache o extend now = {} ∨
    ∃ id, b.caches.lookup id = some (b.bestCache o extend now) ∧
      (b.bestCache o extend now).matchesOptions o extend now := by
  refine foldlRecOn (motive := fun best => best = {} ∨ ∃ id, b.caches.lookup id = some best ∧
    best.matchesOptions o extend now) _ _ (.inl rfl) fun best hbest id _ => ?_
  rw [BucketMetacache.better]
  cases hcached : b.caches.lookup id with
  | none => exact hbest
  | some cached =>
    simp only
    split_ifs with hmatches hstarted
    · exact hbest
    · exact hbest
    · exact .inr ⟨id, hcached, by simpa using hmatches⟩

/-- If the caches that match cover the request, so does what `findCache` hands out. -/
theorem findCache_has (hid : b.caches.lookup o.id = none)
    (hcovers : ∀ id m, b.caches.lookup id = some m → m.matchesOptions o extend now →
      m.range.Covers o.range) :
    (b.findCache o extend now).1.status = .none ∨
      ∀ name, o.range.Has name → (b.findCache o extend now).1.range.Has name := by
  have hbest := @bestCache_matches o extend now b
  rw [BucketMetacache.findCache, hid]
  generalize b.bestCache o extend now = best at hbest
  have hhas (hstarted : best.started ≠ 0) (name : Bytes) (hname : o.range.Has name) :
      best.range.Has name := by
    obtain rfl | ⟨id, hlookup, hmatches⟩ := hbest
    · exact absurd rfl hstarted
    · exact (hcovers id best hlookup hmatches).has (recursive_of_matches hmatches) hname
  simp only
  split_ifs with hbucket htransient hcreate hstarted hcreate hcreate
  · exact .inl rfl
  · exact .inl rfl
  · exact .inr fun _ hname => hname
  · exact .inr (hhas hstarted)
  · exact .inr (hhas hstarted)
  · exact .inl rfl
  · exact .inr fun _ hname => hname

end Match

/-- A cache that matches has all names of the request exactly if its range covers that of the request.
`setFilter` leaves no slash in the filter. -/
theorem matchesOptions_covers_iff (m : MetaCache) (o : ListPathOptions) (extend : ℤ) (now : ℕ)
    (hmatches : m.matchesOptions o extend now = true) (hslash : slash ∉ o.filterPrefix) :
    (∀ name, o.range.Has name → m.range.Has name) ↔ m.range.Covers o.range :=
  ⟨fun h => ScanRange.covers_of_has (root_isPrefix_of_matches hmatches) hslash h,
    fun h _ hname => h.has (recursive_of_matches hmatches) hname⟩

/-- A recursive request for the prefix, while the filter of changes is not clean. -/
def prefixRequest (baseDir pre : Bytes) (recursive : Bool) : ListPathOptions :=
  ListPathOptions.setFilter
    { pre := pre, marker := [], limit := 1000, recursive := recursive, separator := [slash]
      includeDirectories := !recursive, inclDeleted := false, baseDir := baseDir
      currentCycle := 1, oldestCycle := 1 }

/-- A cache for the prefix `a` is handed out for `ab`, and has all names of the request. -/
theorem findCache_has_same :
    let o := prefixRequest [] [97, 98] true
    let b : BucketMetacache :=
      ⟨[], [([1], (prefixRequest [] [97] true).newMetacache 5)], [([], [[1]])], false, false⟩
    (b.findCache o 0 6).1.started = 5 ∧
      ∀ name, o.range.Has name → (b.findCache o 0 6).1.range.Has name := by
  refine ⟨by decide, (findCache_has rfl fun id m hm _ => ?_).resolve_left (by decide)⟩
  rw [List.lookup_cons] at hm
  split at hm <;> cases hm
  decide

/-- The range of the prefix `a` covers that of `ab`. -/
theorem matchesOptions_covers_iff_same :
    ((prefixRequest [] [97] true).newMetacache 5).matchesOptions (prefixRequest [] [97, 98] true) 0 6 =
        true ∧
      ∀ name, (prefixRequest [] [97, 98] true).range.Has name →
        ((prefixRequest [] [97] true).newMetacache 5).range.Has name :=
  ⟨by decide, (matchesOptions_covers_iff _ _ 0 6 (by decide)
    (by decide)).mpr (by decide)⟩

/-- The cache of the prefix `a` answers a request for the prefix `b`, and the cache of the top directory
one for the directory `a/`. -/
theorem matchesOptions_not_covering :
    (((prefixRequest [] [97] true).newMetacache 5).matchesOptions (prefixRequest [] [98] true) 0 6 =
        true ∧
      (prefixRequest [] [98] true).range.Has [98] ∧
      ¬ ((prefixRequest [] [97] true).newMetacache 5).range.Has [98]) ∧
    (((prefixRequest [] [] false).newMetacache 5).matchesOptions
        (prefixRequest [97, 47] [97, 47] false) 0 6 = true ∧
      (prefixRequest [97, 47] [97, 47] false).range.Has [97, 47, 98] ∧
      ¬ ((prefixRequest [] [] false).newMetacache 5).range.Has [97, 47, 98]) := by
  refine ⟨⟨by decide, ⟨[98], by decide, by decide, by decide, .inl rfl⟩, ?_⟩,
    by decide, ⟨[98], by decide, by decide, by decide, .inr (by decide)⟩, ?_⟩
  · rintro ⟨rest, hname, -, hfilter, -⟩
    obtain rfl : [98] = rest := hname
    exact absurd hfilter (by decide)
  · rintro ⟨rest, hname, -, -, hdepth⟩
    obtain rfl : [97, 47, 98] = rest := hname
    exact absurd hdepth (by decide)

end Obstor.Metacache
