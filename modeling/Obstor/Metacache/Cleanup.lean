import Obstor.Metacache.CacheReuse

/-!
# Which cached listings are removed

The step of `bucketMetacache.cleanup` (`cmd/metacache-bucket.go`) that marks the caches that others can
replace. What the first step has marked is given to it, and the caches come in any order, as those of a
map do. The limit on their number is not modelled.

`removeReplaced_covered`: the caches that stay cover what was covered before. A cache is removed for
another one that covers it, which may be removed later for a third, so `CoveredBy` has to be
transitive (`MetaCache.CoveredBy.trans`).
-/

namespace Obstor.Metacache

open Go Go.Path List

/-! ### Caches that others replace -/

def interestingCaches (root : Bytes) (cachesRoot : List (Bytes × List Bytes)) : List Bytes :=
  (root.splitOn slash).inits.tail.flatMap fun dirs => (cachesRoot.lookup (join dirs)).getD []

/-- `canBeReplacedBy`, at the time `now`. -/
def MetaCache.canBeReplacedBy (m other : MetaCache) (now : ℕ) : Bool :=
  if other.started < m.started ∨ m.id = other.id then false
  else if other.status = .none ∨ other.status = .error then false
  else if m.status = .started ∧ (now : ℤ) - m.lastUpdate < metacacheMaxRunningAge then false
  else if (now : ℤ) - m.lastHandout < 30 * 60 * 10 ^ 9 ∨
      (now : ℤ) - m.lastUpdate < metacacheMaxRunningAge then false
  else if !m.recursive && !other.recursive then m.root = other.root && other.filter.isPrefixOf m.filter
  else if m.recursive && !other.recursive then false
  else other.root.isPrefixOf m.root && other.filter = []

namespace BucketMetacache

local instance instLawfulBEqId : LawfulBEq Bytes := inferInstance

/-- The loop that checks the caches against each other. `canBeReplacedBy` reads the clock at each call;
here one time stands for all of them, as the loop takes far less than the ages it compares. -/
def removeReplaced (b : BucketMetacache) (now : ℕ) : List Bytes → List Bytes → List Bytes
  | [], remove => remove
  | id :: ids, remove =>
    if b.transient then remove
    else if id ∉ remove ∧ (b.caches.lookup id).any fun cache =>
        (interestingCaches cache.root b.cachesRoot).any fun id2 =>
          id2 ∉ remove ∧ id2 ≠ id ∧ (b.caches.lookup id2).any (cache.canBeReplacedBy · now)
    then removeReplaced b now ids (id :: remove)
    else removeReplaced b now ids remove

end BucketMetacache

/-- The root is the same and the filter no longer, or the root is that of a recursive scan without a
filter, or below. -/
def MetaCache.CoveredBy (m other : MetaCache) : Prop :=
  (m.recursive = false ∧ other.recursive = false ∧ m.root = other.root ∧ other.filter <+: m.filter) ∨
    other.recursive = true ∧ other.filter = [] ∧ other.root <+: m.root

/-- The caches that are marked in addition to `remove` are covered by caches that are not marked. -/
def BucketMetacache.Covered (b : BucketMetacache) (remove marked : List Bytes) : Prop :=
  ∀ id ∈ marked, id ∉ remove → ∃ m id2 m2, b.caches.lookup id = some m ∧
    b.caches.lookup id2 = some m2 ∧ id2 ∉ marked ∧ m.CoveredBy m2

lemma MetaCache.CoveredBy.trans {m m₁ m₂ : MetaCache} (h : m.CoveredBy m₁) (h₁ : m₁.CoveredBy m₂) :
    m.CoveredBy m₂ := by
  rcases h with ⟨hm, hrec, hroot, hfilter⟩ | ⟨hrec, -, hroot⟩
  · rcases h₁ with ⟨-, hrec₁, hroot₁, hfilter₁⟩ | ⟨hrec₁, hnil, hroot₁⟩
    · exact .inl ⟨hm, hrec₁, hroot.trans hroot₁, hfilter₁.trans hfilter⟩
    · exact .inr ⟨hrec₁, hnil, hroot ▸ hroot₁⟩
  · rcases h₁ with ⟨hno, -⟩ | ⟨hrec₁, hnil, hroot₁⟩
    · exact absurd (hrec.symm.trans hno) Bool.true_eq_false.mp
    · exact .inr ⟨hrec₁, hnil, hroot₁.trans hroot⟩

lemma coveredBy_of_canBeReplacedBy {m other : MetaCache} {now : ℕ}
    (h : m.canBeReplacedBy other now = true) : m.CoveredBy other := by
  unfold MetaCache.canBeReplacedBy at h
  unfold MetaCache.CoveredBy
  cases hrec : m.recursive <;> split_ifs at h <;> simp_all

lemma BucketMetacache.Covered.cons {b : BucketMetacache} {remove marked : List Bytes} {id id2 : Bytes}
    {m m2 : MetaCache} (h : b.Covered remove marked) (hm : b.caches.lookup id = some m)
    (hm2 : b.caches.lookup id2 = some m2) (hid2 : id2 ∉ id :: marked) (hcovered : m.CoveredBy m2) :
    b.Covered remove (id :: marked) := by
  intro x hx hnot
  rcases mem_cons.mp hx with rfl | hx
  · exact ⟨m, id2, m2, hm, hm2, hid2, hcovered⟩
  · obtain ⟨n, y, n2, hn, hn2, hy, hncovered⟩ := h x hx hnot
    by_cases hyid : y = id
    · -- what covered it is marked now, and covered itself
      subst hyid
      obtain rfl := Option.some.inj (hn2.symm.trans hm)
      exact ⟨n, id2, m2, hn, hm2, hid2, hncovered.trans hcovered⟩
    · exact ⟨n, y, n2, hn, hn2, not_mem_cons_of_ne_of_not_mem hyid hy, hncovered⟩

lemma removeReplaced_covered_of {b : BucketMetacache} {now : ℕ} {remove marked ids : List Bytes}
    (h : b.Covered remove marked) : b.Covered remove (b.removeReplaced now ids marked) := by
  induction ids generalizing marked with
  | nil => exact h
  | cons id ids ih =>
    rw [BucketMetacache.removeReplaced]
    split_ifs with htransient hreplaced
    · exact h
    · refine ih ?_
      simp only [Option.any_eq_true, any_eq_true, decide_eq_true_eq] at hreplaced
      obtain ⟨hid, m, hm, id2, -, hid2, hne, m2, hm2, hreplaces⟩ := hreplaced
      exact h.cons hm hm2 (not_mem_cons_of_ne_of_not_mem hne hid2) (coveredBy_of_canBeReplacedBy hreplaces)
    · exact ih h

/-- Removing the caches that others replace loses no coverage, in whatever order they are visited. -/
theorem removeReplaced_covered (b : BucketMetacache) (now : ℕ) (ids remove : List Bytes) :
    b.Covered remove (b.removeReplaced now ids remove) :=
  removeReplaced_covered_of fun _ hid hnot => absurd hid hnot

end Obstor.Metacache
