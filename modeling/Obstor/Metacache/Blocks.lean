import Obstor.Metacache.Truncated

/-!
# Listings that are saved in blocks

`erasureObjects.streamMetadataParts` (`cmd/metacache-set.go`) reads a listing that was saved in blocks:
it looks for the first block from the headers, and filters one block after the other until it has
enough entries.

All reads of blocks succeed, and the headers of all blocks are there. Where the code would wait for a block
that has not been saved yet, the model stops (`waits`).
-/

namespace Obstor.Metacache

open Go Meta List

/-- `listPathOptions`: what the listing is filtered by, and what a cache is looked for with. -/
structure ListPathOptions where
  pre : Bytes
  marker : Bytes
  limit : ℤ
  recursive : Bool
  separator : Bytes
  includeDirectories : Bool
  inclDeleted : Bool
  id : Bytes := []
  bucket : Bytes := []
  baseDir : Bytes := []
  filterPrefix : Bytes := []
  create : Bool := true
  currentCycle : ℕ := 0
  oldestCycle : ℕ := 0

/-- `metacacheBlock`: the header, and the block itself. -/
structure MetacacheBlock where
  first : Bytes
  last : Bytes
  eos : Bool
  data : Bytes

/-- `pastPrefix`: the block begins behind the prefix. -/
def MetacacheBlock.pastPrefix (b : MetacacheBlock) (pre : Bytes) : Bool :=
  if pre = [] ∨ pre.isPrefixOf b.first then false else b.first > pre

def MetacacheBlock.endedPrefix (b : MetacacheBlock) (pre : Bytes) : Bool :=
  if pre = [] ∨ pre.isPrefixOf b.last then false else b.last > pre

section Stream

variable (M : MsgpStream) (P : Packages) (K : Marshaller)

section

variable (o : ListPathOptions)

/-- What `filter` does with one entry: whether it goes on, the entries, and whether the prefix is
past. -/
def filterFn (acc : List MetaCacheEntry × Bool) (entry : MetaCacheEntry) :
    Bool × (List MetaCacheEntry × Bool) :=
  if o.pre ≠ [] ∧ !o.pre.isPrefixOf entry.name then (false, (acc.1, true))
  else if !o.includeDirectories && entry.isDir then (true, acc)
  else if !entry.isInDir o.pre o.separator then (true, acc)
  else if !o.inclDeleted && entry.isObject && entry.isLatestDeletemarker P K then
    ((acc.1.length : ℤ) < o.limit, acc)
  else (((acc.1 ++ [entry]).length : ℤ) < o.limit, (acc.1 ++ [entry], acc.2))

/-- `metacacheReader.filter`, behind the two `forwardTo`. -/
def MetacacheReader.filterFrom (r : MetacacheReader) :
    List MetaCacheEntry × Option StreamErr :=
  if !o.recursive then
    match r.readFn M (filterFn P K o) ([], false) with
    | ((err, entries, pastPrefix), r) =>
      if err = some .eof || pastPrefix || (r.nextEOF M).1 then (entries, some .eof)
      else (entries, err)
  else (r.readN M P K o.limit o.inclDeleted o.includeDirectories o.pre).1

def MetacacheReader.filter (r : MetacacheReader) :
    List MetaCacheEntry × Option StreamErr :=
  match r.forwardTo M o.pre with
  | (some err, _) => ([], some err)
  | (none, r) =>
    match if o.marker ≠ [] then r.forwardTo M o.marker else (none, r) with
    | (some err, _) => ([], some err)
    | (none, r) => r.filterFrom M P K o

inductive FirstPart
  | found (i : ℕ)
  /-- `io.ErrUnexpectedEOF`: the block has not been saved yet. -/
  | waits
  /-- `io.EOF`. -/
  | eof
  /-- Block 0 with `errFileNotFound`, which is not looked at. -/
  | fileNotFound

def findFirstPartLoop (search : Bytes) : ℕ → List MetacacheBlock → FirstPart
  | _, [] => .waits
  | i, b :: blocks =>
    if b.first = [] ∧ b.last = [] ∧ b.eos then .fileNotFound
    else if b.first ≥ search then .found i
    else if b.last ≥ search then .found i
    else if b.eos then .eof
    else findFirstPartLoop search (i + 1) blocks

def findFirstPart (blocks : List MetacacheBlock) : FirstPart :=
  let search := if o.marker = [] then o.pre else o.marker
  if search = [] then .found 0 else findFirstPartLoop search 0 blocks

inductive Streamed
  | returned (entries : List MetaCacheEntry) (err : Option StreamErr)
  | waits

/-- The loop over the blocks from the first one. The header of block 0 is not compared with the prefix
again (`partN != loadedPart`). -/
def streamLoop (o : ListPathOptions) : Bool → List MetaCacheEntry → List MetacacheBlock → Streamed
  | _, _, [] => .waits
  | loaded, entries, b :: blocks =>
    if !loaded && b.pastPrefix o.pre then .returned entries (some .eof)
    else
      match (newMetacacheReader b.data).filter M P K o with
      | (e, err) =>
        let entries := entries ++ e
        if o.limit > 0 ∧ (entries.length : ℤ) > o.limit then
          .returned (entries.take o.limit.toNat) none
        else
          match err with
          | none => .returned entries none
          | some .eof =>
            if b.eos then .returned entries (some .eof)
            else if b.endedPrefix o.pre then .returned entries (some .eof)
            else streamLoop o false entries blocks
          | some err => .returned entries (some err)

def streamMetadataParts (blocks : List MetacacheBlock) : Streamed :=
  match findFirstPart o blocks with
  | .found i => streamLoop M P K o (i = 0) [] (blocks.drop i)
  | .fileNotFound => streamLoop M P K o true [] blocks
  | .eof => .returned [] (some .eof)
  | .waits => .waits

end

end Stream

/-! ### What is wanted -/

/-- The directory, depth and delete marker filters. -/
def ListPathOptions.passes (P : Packages) (K : Marshaller) (o : ListPathOptions)
    (e : MetaCacheEntry) : Bool :=
  (o.includeDirectories || !e.isDir) && (o.recursive || e.isInDir o.pre o.separator) &&
    (o.inclDeleted || !e.isLatestDeletemarker P K)

/-- The entries that a listing is asked for. -/
def ListPathOptions.wanted (P : Packages) (K : Marshaller) (o : ListPathOptions)
    (es : List MetaCacheEntry) : List MetaCacheEntry :=
  es.filter fun e => o.marker ≤ e.name ∧ o.pre <+: e.name ∧ o.passes P K e

/-- Where a listing begins. -/
def ListPathOptions.start (o : ListPathOptions) : Bytes := if o.marker = [] then o.pre else o.marker

/-- The names are in order, without repetition. -/
def Sorted (es : List MetaCacheEntry) : Prop := es.Pairwise fun a b => a.name < b.name

section Wanted

variable {P : Packages} {K : Marshaller} {o : ListPathOptions} {es : List MetaCacheEntry}

lemma pre_le_start (hmarker : o.marker = [] ∨ o.pre <+: o.marker) : o.pre ≤ o.start := by
  rw [ListPathOptions.start]
  split_ifs with h
  · exact le_refl _
  · exact Lib.le_of_isPrefix (hmarker.resolve_left h)

variable {e : MetaCacheEntry}

lemma start_le_of_wanted (hmarker : o.marker ≤ e.name)
    (hpre : o.pre <+: e.name) : o.start ≤ e.name := by
  rw [ListPathOptions.start]
  split_ifs
  · exact Lib.le_of_isPrefix hpre
  · exact hmarker

lemma wanted_append (es es' : List MetaCacheEntry) :
    o.wanted P K (es ++ es') = o.wanted P K es ++ o.wanted P K es' :=
  filter_append es es'

lemma wanted_eq_nil_of_lt (h : ∀ e ∈ es, e.name < o.start) : o.wanted P K es = [] := by
  refine filter_eq_nil_iff.mpr fun e he hw => ?_
  obtain ⟨hmarker, hpre, -⟩ := of_decide_eq_true hw
  exact absurd (h e he) (not_lt.mpr (start_le_of_wanted hmarker hpre))

lemma wanted_eq_nil_of_past (h : ∀ e ∈ es, ¬ o.pre <+: e.name) : o.wanted P K es = [] := by
  refine filter_eq_nil_iff.mpr fun e he hw => ?_
  exact h e he (of_decide_eq_true hw).2.1

lemma not_prefix_of_le {pre a b : Bytes} (hle : pre ≤ a) (hnot : ¬ pre <+: a) (hab : a ≤ b) :
    ¬ pre <+: b :=
  fun hpre => hnot (Lib.isPrefix_of_le_of_le hpre hle hab)

/-- The entries with the prefix, up to the first without it, that pass. -/
def passing (P : Packages) (K : Marshaller) (o : ListPathOptions) (es : List MetaCacheEntry) :
    List MetaCacheEntry :=
  (es.takeWhile fun e => e.hasPrefix o.pre).filter (o.passes P K)

lemma passing_cons_of_pos (hpre : e.hasPrefix o.pre) :
    passing P K o (e :: es) = (if o.passes P K e then [e] else []) ++ passing P K o es := by
  rw [passing, takeWhile_cons, if_pos hpre, filter_cons]
  split_ifs
  · rfl
  · rfl

lemma passing_cons_of_neg (hpre : ¬ e.hasPrefix o.pre) : passing P K o (e :: es) = [] := by
  rw [passing, takeWhile_cons, if_neg hpre, filter_nil]

lemma wanted_of_le (hsorted : Sorted es) (hmarker : o.marker = [] ∨ o.pre <+: o.marker)
    (hstart : ∀ e ∈ es, o.start ≤ e.name) : o.wanted P K es = passing P K o es := by
  induction es with
  | nil => rfl
  | cons e es ih =>
    obtain ⟨he, hsorted⟩ := pairwise_cons.mp hsorted
    obtain ⟨hstart₁, hstart⟩ := forall_mem_cons.mp hstart
    have hmarker' : o.marker ≤ e.name := by
      rw [ListPathOptions.start] at hstart₁
      split_ifs at hstart₁ with h
      · rw [h]
        exact Lib.le_of_isPrefix nil_prefix
      · exact hstart₁
    by_cases hpre : o.pre <+: e.name
    · rw [passing_cons_of_pos (List.isPrefixOf_iff_prefix.mpr hpre), ← ih hsorted hstart,
        ListPathOptions.wanted, filter_cons]
      simp only [hmarker', hpre, true_and, Bool.decide_eq_true]
      split_ifs
      · rfl
      · rfl
    · rw [passing_cons_of_neg (mt isPrefixOf_iff_prefix.mp hpre)]
      refine wanted_eq_nil_of_past (forall_mem_cons.mpr ⟨hpre, fun x hx => ?_⟩)
      exact not_prefix_of_le ((pre_le_start hmarker).trans hstart₁) hpre (he x hx).le

lemma wanted_dropWhile {key : Bytes} (hkey : key ≤ o.start) (es : List MetaCacheEntry) :
    o.wanted P K (es.dropWhile fun e => e.name < key) = o.wanted P K es := by
  let early : MetaCacheEntry → Bool := fun e => e.name < key
  have hsplit : es.takeWhile early ++ es.dropWhile early = es := takeWhile_append_dropWhile
  have hlt : ∀ e ∈ es.takeWhile early, e.name < o.start := by
    intro e he
    have hearly : early e := mem_takeWhile_imp he
    exact (of_decide_eq_true hearly).trans_le hkey
  conv_rhs => rw [← hsplit]
  rw [wanted_append, wanted_eq_nil_of_lt hlt, nil_append]

end Wanted

end Obstor.Metacache
