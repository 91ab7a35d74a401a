import Obstor.Lib.Merge
import Obstor.Metacache.Entry

/-!
# Listing several disks at once

`listPathRaw` (`cmd/metacache-set.go`) reads one stream of entries from each disk and reports every
name once: `agreed` when all disks have the same entry, `partial` with the entries of the disks that
have the name otherwise. A disk whose stream breaks off is dropped, as long as enough disks are left.

A stream is what the disk delivers and how it ends; the streams themselves are read in
`Metacache/Stream.lean`. A context that is cancelled is left out.

`listPathRaw_merges`: it is a merge of the streams. One pass over the disks finds the least name and
the disks that have it (`PassInv`, kept by `PassInv.step` for one disk); what the pass reports is in
`afterPass_spec`, and `loop_spec` is the induction over the entries that are left.
-/

namespace Obstor.Metacache

open Go Meta Lib List Merge

/-! ### The function -/

/-- The stream of a disk: the entries that are still to come, and what comes after them. -/
structure DiskStream where
  entries : List MetaCacheEntry
  ending : StreamErr
  deriving DecidableEq

namespace DiskStream

def peek (r : DiskStream) : Except StreamErr MetaCacheEntry :=
  match r.entries with
  | [] => .error r.ending
  | e :: _ => .ok e

def skip (r : DiskStream) : DiskStream := { r with entries := r.entries.tail }

end DiskStream

/-- `listPathRawOptions`; of a callback only whether it is set. -/
structure ListPathRawOptions where
  bucket : String
  minDisks : ℤ
  agreedSet : Bool
  partialSet : Bool
  finishedSet : Bool

inductive Report
  | agreed (entry : MetaCacheEntry)
  | disagreed (entries : List MetaCacheEntry) (nAgreed : ℕ) (errs : List (Option StreamErr))
  | finished (errs : List (Option StreamErr))
  deriving DecidableEq

/-- The variables of one pass over the streams; `topEntries` and `errs` up to the stream that comes
next. -/
structure Pass where
  current : MetaCacheEntry := noEntry
  atEOF : ℕ := 0
  fnf : ℕ := 0
  hasErr : ℕ := 0
  agree : ℕ := 0
  topEntries : List MetaCacheEntry := []
  errs : List (Option StreamErr) := []

section Functions

variable (P : Packages) (C : Choices) (K : Marshaller) (opts : ListPathRawOptions)

def passStep (s : Pass) (r : DiskStream × Option StreamErr) : Pass :=
  match r.2 with
  | some err =>
    { s with hasErr := s.hasErr + 1, topEntries := s.topEntries ++ [noEntry], errs := s.errs ++ [some err] }
  | none =>
    match r.1.peek with
    | .error .eof =>
      { s with atEOF := s.atEOF + 1, topEntries := s.topEntries ++ [noEntry], errs := s.errs ++ [none] }
    | .error .notFound =>
      { s with
        atEOF := s.atEOF + 1, fnf := s.fnf + 1
        topEntries := s.topEntries ++ [noEntry], errs := s.errs ++ [none] }
    | .error err =>
      { s with
        hasErr := s.hasErr + 1, topEntries := s.topEntries ++ [noEntry], errs := s.errs ++ [some err] }
    | .ok entry =>
      let s := { s with errs := s.errs ++ [none] }
      if s.current.name = [] then
        { s with topEntries := s.topEntries ++ [entry], current := entry, agree := s.agree + 1 }
      else if s.current.matchesEntry P C K entry opts.bucket then
        { s with topEntries := s.topEntries ++ [entry], agree := s.agree + 1 }
      else if entry.name = s.current.name then { s with topEntries := s.topEntries ++ [entry] }
      else if entry.name > s.current.name then { s with topEntries := s.topEntries ++ [noEntry] }
      else
        { s with
          topEntries := (s.topEntries.map fun _ => noEntry) ++ [entry], agree := 1, current := entry }

def pass (readers : List DiskStream) (errs : List (Option StreamErr)) : Pass :=
  (readers.zip errs).foldl (passStep P C K opts) {}

inductive Outcome
  | ok
  | tooManyErrors (errs : List (Option StreamErr))
  | fileNotFound
  deriving DecidableEq

/-- What a pass leads to: the end, or a report and the streams to go on with. -/
def afterPass (readers : List DiskStream) (s : Pass) :
    (List Report × Outcome) ⊕ (List Report × List DiskStream) :=
  let n := readers.length
  if (s.hasErr : ℤ) > n - opts.minDisks ∧ s.hasErr > 0 then
    .inl (if opts.finishedSet then [.finished s.errs] else [], .tooManyErrors s.errs)
  else if s.atEOF + s.hasErr = n then
    .inl (if s.hasErr > 0 ∧ opts.finishedSet then [.finished s.errs] else [], .ok)
  else if s.fnf = n then .inl ([], .fileNotFound)
  else if s.agree = n then
    .inr (if opts.agreedSet then [.agreed s.current] else [], readers.map DiskStream.skip)
  else
    .inr (if opts.partialSet then [.disagreed s.topEntries s.agree s.errs] else [],
      readers.zipWith (fun r top => if top.name ≠ [] then r.skip else r) s.topEntries)

/-- The loop of `listPathRaw`, for at most `fuel` passes: the reports, how it returns, and the
streams as they are left. -/
def listPathRawLoop : ℕ → List DiskStream → List (Option StreamErr) →
    Option (List Report × Outcome × List DiskStream)
  | 0, _, _ => none
  | fuel + 1, readers, errs =>
    let s := pass P C K opts readers errs
    match afterPass opts readers s with
    | .inl (reports, outcome) => some (reports, outcome, readers)
    | .inr (reports, readers) =>
      (listPathRawLoop fuel readers s.errs).map fun r => (reports ++ r.1, r.2)

/-- `listPathRaw`; without disks it returns an error. -/
def listPathRaw (fuel : ℕ) (readers : List DiskStream) :
    Except String (Option (List Report × Outcome × List DiskStream)) :=
  if readers.length = 0 then .error "listPathRaw: 0 drives provided"
  else .ok (listPathRawLoop P C K opts fuel readers (readers.map fun _ => none))

end Functions

/-! ### One pass over the streams -/

/-- An error that makes a disk drop out, unlike the end of its stream. -/
def StreamErr.isFailure : StreamErr → Bool
  | .eof => false
  | .notFound => false
  | _ => true

/-- A stream as a disk writes it: strictly increasing names, none of them empty. -/
structure DiskStream.WellFormed (r : DiskStream) : Prop where
  ascending : Merge.Ascending MetaCacheEntry.name r.entries
  named : ∀ e ∈ r.entries, e.name ≠ []

/-- A stream and the error that it was dropped for. -/
structure Sound (x : DiskStream × Option StreamErr) : Prop where
  wellFormed : x.1.WellFormed
  dropped : ∀ err, x.2 = some err → x.1.entries = [] ∧ x.1.ending.isFailure = true

/-- The error of a stream after a pass. -/
def errAfter (x : DiskStream × Option StreamErr) : Option StreamErr :=
  if x.2.isSome then x.2
  else if x.1.entries = [] ∧ x.1.ending.isFailure then some x.1.ending else none

def topOf (name : Bytes) (r : DiskStream) : MetaCacheEntry :=
  (Merge.top MetaCacheEntry.name name r.entries).getD noEntry

/-- What a pass knows about the streams it has seen: there was no entry so far, or `current` is the
first entry with the least name. -/
def Seen (pre : List (DiskStream × Option StreamErr)) (s : Pass) : Prop :=
  (s.current = noEntry ∧ s.agree = 0 ∧ s.topEntries = pre.map (fun _ => noEntry) ∧
    ∀ x ∈ pre, x.1.entries = []) ∨
  (s.current.name ≠ [] ∧ (∃ x ∈ pre, x.1.entries.head? = some s.current) ∧
    s.topEntries = pre.map (fun x => topOf s.current.name x.1) ∧
    ∀ x ∈ pre, ∀ e, x.1.entries.head? = some e → s.current.name ≤ e.name)

section Proofs

variable {P : Packages} {C : Choices} {K : Marshaller} {opts : ListPathRawOptions}

section

variable (P : Packages) (C : Choices) (K : Marshaller) (bucket : String)
  (pre : List (DiskStream × Option StreamErr))

/-- All streams so far agree with the current entry. -/
def AllAgree (current : MetaCacheEntry) : Prop :=
  ∀ x ∈ pre, ∃ e, x.1.entries.head? = some e ∧
    (e = current ∨ current.matchesEntry P C K e bucket = true)

/-- The variables of a pass behind the streams `pre`. -/
structure PassInv (s : Pass) : Prop where
  seen : Seen pre s
  errs : s.errs = pre.map errAfter
  ended : s.atEOF + s.hasErr = pre.countP fun x => x.1.entries = []
  hasErr : s.hasErr = pre.countP fun x => (errAfter x).isSome
  fnf : s.fnf ≤ s.atEOF
  agree_le : s.agree ≤ pre.length
  agree : s.agree = pre.length → AllAgree P C K bucket pre s.current

end

variable {e : MetaCacheEntry}

lemma matchesEntry_name {e' : MetaCacheEntry} {bucket : String}
    (h : e.matchesEntry P C K e' bucket) : e.name = e'.name := by
  rw [MetaCacheEntry.matchesEntry] at h
  split_ifs at h with hne
  exact not_not.mp fun hname => hne (.inr hname)

variable {pre : List (DiskStream × Option StreamErr)} {x : DiskStream × Option StreamErr} {s : Pass}

section

variable (P : Packages) (C : Choices) (K : Marshaller) (opts : ListPathRawOptions) (s : Pass)

lemma passStep_of_nil (hnil : x.1.entries = []) : ∃ eof fnf err, passStep P C K opts s x = { s with
          atEOF := s.atEOF + eof
          fnf := s.fnf + fnf
          hasErr := s.hasErr + err
          topEntries := s.topEntries ++ [noEntry]
          errs := s.errs ++ [errAfter x] } ∧
      eof + err = 1 ∧ fnf ≤ eof ∧ err = if (errAfter x).isSome then 1 else 0 := by
  obtain ⟨⟨entries, ending⟩, dropped⟩ := x
  obtain rfl : entries = [] := hnil
  cases dropped with
  | some err => exact ⟨0, 0, 1, rfl, rfl, le_rfl, rfl⟩
  | none =>
    cases ending with
    | eof => exact ⟨1, 0, 0, rfl, rfl, Nat.zero_le _, rfl⟩
    | notFound => exact ⟨1, 1, 0, rfl, rfl, le_rfl, rfl⟩
    | unexpectedEOF => exact ⟨0, 0, 1, rfl, rfl, le_rfl, rfl⟩
    | other err => exact ⟨0, 0, 1, rfl, rfl, le_rfl, rfl⟩

lemma errAfter_of_cons (hx : Sound x) (he : x.1.entries.head? = some e) :
    x.2 = none ∧ errAfter x = none := by
  have hne : x.1.entries ≠ [] := by
    intro hnil
    rw [hnil] at he
    cases he
  have hnone : x.2 = none := by
    cases h : x.2 with
    | none => rfl
    | some err => exact absurd (hx.dropped err h).1 hne
  refine ⟨hnone, ?_⟩
  rw [errAfter, hnone, if_neg (by simp), if_neg fun h => hne h.1]

lemma passStep_of_cons (hx : Sound x) (he : x.1.entries.head? = some e) :
    ∃ current agree tops, passStep P C K opts s x = { s with
          current := current, agree := agree, topEntries := tops
          errs := s.errs ++ [errAfter x] } ∧
      ((s.current.name = [] ∧ current = e ∧ agree = s.agree + 1 ∧ tops = s.topEntries ++ [e]) ∨
        (s.current.name ≠ [] ∧ s.current.matchesEntry P C K e opts.bucket ∧
          current = s.current ∧ agree = s.agree + 1 ∧ tops = s.topEntries ++ [e]) ∨
        (s.current.name ≠ [] ∧ e.name = s.current.name ∧ current = s.current ∧ agree = s.agree ∧
          tops = s.topEntries ++ [e]) ∨
        (s.current.name ≠ [] ∧ s.current.name < e.name ∧ current = s.current ∧ agree = s.agree ∧
          tops = s.topEntries ++ [noEntry]) ∨
        (s.current.name ≠ [] ∧ e.name < s.current.name ∧ current = e ∧ agree = 1 ∧
          tops = (s.topEntries.map fun _ => noEntry) ++ [e])) := by
  obtain ⟨hnone, herr⟩ := errAfter_of_cons hx he
  have hpeek : x.1.peek = .ok e := by
    unfold DiskStream.peek
    cases hentries : x.1.entries with
    | nil =>
      rw [hentries] at he
      cases he
    | cons e' l =>
      rw [hentries] at he
      rw [Option.some.inj he]
  simp only [passStep, hnone, hpeek, herr]
  split_ifs with h₁ h₂ h₃ h₄
  · exact ⟨_, _, _, rfl, .inl ⟨h₁, rfl, rfl, rfl⟩⟩
  · exact ⟨_, _, _, rfl, .inr (.inl ⟨h₁, h₂, rfl, rfl, rfl⟩)⟩
  · exact ⟨_, _, _, rfl, .inr (.inr (.inl ⟨h₁, h₃, rfl, rfl, rfl⟩))⟩
  · exact ⟨_, _, _, rfl, .inr (.inr (.inr (.inl ⟨h₁, h₄, rfl, rfl, rfl⟩)))⟩
  · have hlt : e.name < s.current.name := lt_of_le_of_ne (not_lt.mp h₄) h₃
    exact ⟨_, _, _, rfl, .inr (.inr (.inr (.inr ⟨h₁, hlt, rfl, rfl, rfl⟩)))⟩

end

section Top

variable {r : DiskStream} {e : MetaCacheEntry} {name : Bytes}

lemma topOf_of_nil (name : Bytes) (hnil : r.entries = []) : topOf name r = noEntry := by
  rw [topOf, hnil]
  rfl

lemma topOf_of_head (he : r.entries.head? = some e) : topOf e.name r = e := by
  rw [topOf, top, he, Option.filter_some_pos (by simp)]
  rfl

lemma topOf_of_ne (he : r.entries.head? = some e) (hne : e.name ≠ name) :
    topOf name r = noEntry := by
  rw [topOf, top, he, Option.filter_some_neg (by simpa using hne)]
  rfl

end Top

variable {s' : Pass}

lemma Seen.nil (h : Seen pre s) (hnil : x.1.entries = [])
    (hcurrent : s'.current = s.current) (hagree : s'.agree = s.agree)
    (htops : s'.topEntries = s.topEntries ++ [noEntry]) : Seen (pre ++ [x]) s' := by
  rcases h with ⟨hc, ha, ht, hall⟩ | ⟨hne, ⟨y, hy, hyc⟩, ht, hle⟩
  · refine .inl ⟨hcurrent.trans hc, hagree.trans ha, ?_, ?_⟩
    · rw [htops, ht, map_append]
      rfl
    · exact forall_mem_append.mpr ⟨hall, forall_mem_singleton.mpr hnil⟩
  · refine .inr ?_
    rw [hcurrent, htops, ht, map_append, map_singleton, topOf_of_nil _ hnil]
    refine ⟨hne, ⟨y, mem_append_left _ hy, hyc⟩, rfl, ?_⟩
    refine forall_mem_append.mpr ⟨hle, forall_mem_singleton.mpr fun e he => ?_⟩
    rw [hnil] at he
    cases he

lemma Seen.same (h : Seen pre s) (hne : s.current.name ≠ [])
    (he : x.1.entries.head? = some e) (hle : s.current.name ≤ e.name)
    (hcurrent : s'.current = s.current)
    (htops : s'.topEntries = s.topEntries ++ [topOf s.current.name x.1]) : Seen (pre ++ [x]) s' := by
  rcases h with ⟨hc, -⟩ | ⟨-, ⟨y, hy, hyc⟩, ht, hall⟩
  · exact absurd (congrArg _ hc) hne
  · refine .inr ?_
    rw [hcurrent, htops, ht, map_append]
    refine ⟨hne, ⟨y, mem_append_left _ hy, hyc⟩, rfl, ?_⟩
    refine forall_mem_append.mpr ⟨hall, forall_mem_singleton.mpr fun e' he' => ?_⟩
    rw [he] at he'
    rw [← Option.some.inj he']
    exact hle

lemma Seen.replace (hnamed : e.name ≠ []) (he : x.1.entries.head? = some e)
    (hlt : ∀ y ∈ pre, ∀ e', y.1.entries.head? = some e' → e.name < e'.name)
    (hcurrent : s'.current = e)
    (htops : s'.topEntries = pre.map (fun _ => noEntry) ++ [e]) : Seen (pre ++ [x]) s' := by
  refine .inr ?_
  rw [hcurrent, htops, map_append, map_singleton, topOf_of_head he]
  refine ⟨hnamed, ⟨x, mem_append_right _ (mem_singleton.mpr rfl), he⟩, ?_, ?_⟩
  · congr 1
    refine map_congr_left fun y hy => (?_ : noEntry = topOf e.name y.1)
    cases hhead : y.1.entries.head? with
    | none => exact (topOf_of_nil _ (head?_eq_none_iff.mp hhead)).symm
    | some e' => exact (topOf_of_ne hhead (hlt y hy e' hhead).ne').symm
  · refine forall_mem_append.mpr ⟨fun y hy e' he' => (hlt y hy e' he').le,
      forall_mem_singleton.mpr fun e' he' => ?_⟩
    rw [he] at he'
    rw [Option.some.inj he']

/-- One more disk is looked at. -/
lemma PassInv.step (h : PassInv P C K opts.bucket pre s) (hx : Sound x) :
    PassInv P C K opts.bucket (pre ++ [x]) (passStep P C K opts s x) := by
  cases hhead : x.1.entries.head? with
  | none =>
    have hnil := head?_eq_none_iff.mp hhead
    obtain ⟨eof, fnf, err, heq, hone, hfnf, herr⟩ := passStep_of_nil P C K opts s hnil
    rw [heq]
    refine ⟨h.seen.nil hnil rfl rfl rfl, ?_, ?_, ?_, ?_, ?_, ?_⟩
    · simp [h.errs]
    · have := h.ended
      simp only [countP_append, countP_singleton, hnil, decide_true, if_true]
      omega
    · have := h.hasErr
      simp only [countP_append, countP_singleton]
      omega
    · have := h.fnf
      simp only
      omega
    · have := h.agree_le
      simp only [length_append, length_singleton]
      omega
    · intro hagree
      have := h.agree_le
      simp only [length_append, length_singleton] at hagree
      omega
  | some e =>
    have hnamed : e.name ≠ [] := hx.wellFormed.named e (mem_of_head? hhead)
    have hne : x.1.entries ≠ [] := fun hnil => by
      rw [hnil] at hhead
      cases hhead
    have herr := (errAfter_of_cons hx hhead).2
    have hle := h.agree_le
    obtain ⟨current, agree, tops, heq, hcases⟩ := passStep_of_cons P C K opts s hx hhead
    rw [heq]
    -- the counts do not change, and only one case makes all streams agree
    suffices hsuff : Seen (pre ++ [x]) _ ∧ agree ≤ pre.length + 1 ∧
        (agree = pre.length + 1 → AllAgree P C K opts.bucket (pre ++ [x]) current) by
      obtain ⟨hseen, hagree, hall⟩ := hsuff
      refine ⟨hseen, ?_, ?_, ?_, h.fnf, ?_, ?_⟩
      · simp [h.errs]
      · simp [h.ended, hne]
      · simp [h.hasErr, herr]
      · simpa using hagree
      · simpa using hall
    have hsame : ∀ {c : MetaCacheEntry}, AllAgree P C K opts.bucket pre c →
        (e = c ∨ c.matchesEntry P C K e opts.bucket) →
        AllAgree P C K opts.bucket (pre ++ [x]) c := fun hpre he =>
      forall_mem_append.mpr ⟨hpre, forall_mem_singleton.mpr ⟨e, hhead, he⟩⟩
    rcases hcases with ⟨hc, rfl, rfl, rfl⟩ | ⟨hc, hm, rfl, rfl, rfl⟩ | ⟨hc, hname, rfl, rfl, rfl⟩ |
      ⟨hc, hlt, rfl, rfl, rfl⟩ | ⟨hc, hlt, rfl, rfl, rfl⟩
    · -- the first entry
      rcases h.seen with ⟨-, ha, ht, hall⟩ | ⟨hcne, -⟩
      · refine ⟨.replace hnamed hhead (fun y hy e' he' => ?_) rfl (by rw [ht]), by omega, ?_⟩
        · rw [hall y hy] at he'
          cases he'
        · intro hone
          obtain rfl : pre = [] := eq_nil_of_length_eq_zero (by omega)
          exact hsame (fun y hy => absurd hy not_mem_nil) (.inl rfl)
      · exact absurd hc hcne
    · -- an entry that agrees
      have hname := matchesEntry_name hm
      refine ⟨h.seen.same hc hhead hname.le rfl ?_, by omega, fun hall => ?_⟩
      · rw [hname, topOf_of_head hhead]
      · exact hsame (h.agree (by omega)) (.inr hm)
    · -- the same name
      refine ⟨h.seen.same hc hhead hname.ge rfl ?_, by omega, fun hall => by omega⟩
      rw [← hname, topOf_of_head hhead]
    · -- a later name
      refine ⟨h.seen.same hc hhead hlt.le rfl ?_, by omega, fun hall => by omega⟩
      rw [topOf_of_ne hhead hlt.ne']
    · -- an earlier name
      rcases h.seen with ⟨hcn, -⟩ | ⟨-, ⟨y, hy, -⟩, ht, hall⟩
      · exact absurd (congrArg _ hcn) hc
      · have hpos := length_pos_of_mem hy
        refine ⟨.replace hnamed hhead (fun y hy e' he' => hlt.trans_le (hall y hy e' he')) rfl ?_,
          by omega, fun hone => by omega⟩
        rw [ht, map_map]
        rfl

section

variable (P : Packages) (C : Choices) (K : Marshaller) (opts : ListPathRawOptions)

lemma pass_inv
    {readers : List DiskStream} {errs : List (Option StreamErr)} (h : ∀ x ∈ readers.zip errs, Sound x) :
    PassInv P C K opts.bucket (readers.zip errs) (pass P C K opts readers errs) := by
  unfold pass
  generalize readers.zip errs = l at h ⊢
  induction l using reverseRecOn with
  | nil =>
    exact ⟨.inl ⟨rfl, rfl, rfl, fun x hx => absurd hx not_mem_nil⟩, rfl, rfl, rfl, le_rfl,
      le_rfl, fun _ x hx => absurd hx not_mem_nil⟩
  | append_singleton l x ih =>
    rw [foldl_append]
    obtain ⟨hl, hx⟩ := forall_mem_append.mp h
    exact (ih hl).step (hx x (mem_singleton.mpr rfl))

/-! ### The loop -/

/-- The disks whose stream ends with an error. -/
def failures (readers : List DiskStream) : ℕ := readers.countP fun r => r.ending.isFailure

/-- There are not too many disks with an error. -/
def Enough (readers : List DiskStream) : Prop :=
  failures readers = 0 ∨ (failures readers : ℤ) ≤ readers.length - opts.minDisks

/-- A call reports the entries `tops` of a name. -/
def Report.Tells (bucket : String) : Report → Bytes × List (Option MetaCacheEntry) → Prop
  | .agreed entry, (name, tops) => entry.name = name ∧ ∀ top ∈ tops, ∃ e, top = some e ∧
      (e = entry ∨ entry.matchesEntry P C K e bucket = true)
  | .disagreed entries _ _, (_, tops) => entries = tops.map (·.getD noEntry)
  | .finished _, _ => False

end

def DiskStream.behind (name : Bytes) (r : DiskStream) : DiskStream :=
  { r with entries := Merge.rest MetaCacheEntry.name name r.entries }

variable {readers : List DiskStream} {errs : List (Option StreamErr)}

lemma hasErr_le (h : ∀ x ∈ readers.zip errs, Sound x) (hlen : errs.length = readers.length)
    {s : Pass} (hs : PassInv P C K opts.bucket (readers.zip errs) s) :
    s.hasErr ≤ failures readers := by
  have hcount : failures readers = (readers.zip errs).countP fun x => x.1.ending.isFailure := by
    have hmap : (readers.zip errs).map Prod.fst = readers := map_fst_zip hlen.ge
    conv_lhs => rw [failures, ← hmap, countP_map]
    rfl
  rw [hs.hasErr, hcount]
  refine countP_mono_left fun x hx herr => ?_
  rw [errAfter] at herr
  split_ifs at herr with h₁ h₂
  · obtain ⟨err, herr⟩ := Option.isSome_iff_exists.mp h₁
    exact ((h x hx).dropped err herr).2
  · exact h₂.2
  · cases herr

lemma skip_eq_behind {r : DiskStream} (he : r.entries.head? = some e) :
    r.skip = r.behind e.name := by
  unfold DiskStream.skip DiskStream.behind
  cases hentries : r.entries with
  | nil => rfl
  | cons e' l =>
    rw [hentries] at he
    obtain rfl : e' = e := Option.some.inj he
    rw [rest, if_pos rfl]
    rfl

lemma skip_if_top {name : Bytes} (hname : name ≠ []) (r : DiskStream) :
    (if (topOf name r).name ≠ [] then r.skip else r) = r.behind name := by
  cases hhead : r.entries.head? with
  | none =>
    have hnil := head?_eq_none_iff.mp hhead
    cases r
    cases hnil
    rfl
  | some e =>
    by_cases he : e.name = name
    · subst he
      rw [topOf_of_head hhead, if_pos hname, skip_eq_behind hhead]
    · rw [topOf_of_ne hhead he, if_neg (fun h => h rfl), DiskStream.behind]
      cases r with
      | mk entries ending =>
        cases entries with
        | nil => rfl
        | cons e' l =>
          obtain rfl : e' = e := Option.some.inj hhead
          rw [rest, if_neg he]

/-- After a pass all streams are at their end, or the least name is reported and passed. -/
lemma afterPass_spec (h : ∀ x ∈ readers.zip errs, Sound x) (hlen : errs.length = readers.length)
    (henough : Enough opts readers) (hagreed : opts.agreedSet)
    (hset : opts.partialSet) {s : Pass}
    (hs : PassInv P C K opts.bucket (readers.zip errs) s) :
    ((∀ r ∈ readers, r.entries = []) ∧ ∃ last, afterPass opts readers s = .inl (last, .ok) ∧
        (last = [] ∨ ∃ errs, last = [.finished errs])) ∨
      ∃ name call, Least MetaCacheEntry.name name (readers.map DiskStream.entries) ∧
        afterPass opts readers s = .inr ([call], readers.map (DiskStream.behind name)) ∧
        call.Tells P C K opts.bucket (name,
          (readers.map DiskStream.entries).map (top MetaCacheEntry.name name)) := by
  have hfst : (readers.zip errs).map Prod.fst = readers := map_fst_zip hlen.ge
  have hmem : ∀ r ∈ readers, ∃ x ∈ readers.zip errs, x.1 = r := by
    intro r hr
    rw [← hfst] at hr
    exact mem_map.mp hr
  have hlen' : (readers.zip errs).length = readers.length := by
    rw [← hfst, length_map, hfst]
  have hfew : ¬((s.hasErr : ℤ) > readers.length - opts.minDisks ∧ s.hasErr > 0) := by
    have := hasErr_le h hlen hs
    rintro ⟨hgt, hpos⟩
    rcases henough with hzero | hle
    · omega
    · omega
  have hended := hs.ended
  unfold afterPass
  simp only [if_neg hfew]
  rcases hs.seen with ⟨-, -, -, hall⟩ | ⟨hne, ⟨x, hx, hxc⟩, htops, hle⟩
  · -- all streams are at their end
    have hcount : s.atEOF + s.hasErr = readers.length := by
      rw [hended, ← hlen', countP_eq_length]
      exact fun x hx => decide_eq_true (hall x hx)
    refine .inl ⟨fun r hr => ?_, ?_⟩
    · obtain ⟨x, hx, rfl⟩ := hmem r hr
      exact hall x hx
    · rw [if_pos hcount]
      refine ⟨_, rfl, ?_⟩
      split_ifs
      · exact .inr ⟨_, rfl⟩
      · exact .inl rfl
  · -- there is a least name
    have htops : s.topEntries = readers.map (topOf s.current.name) := by
      rw [htops]
      conv_rhs => rw [← hfst, map_map]
      rfl
    have hcount : s.atEOF + s.hasErr ≠ readers.length := by
      rw [hended, ← hlen', ne_eq, countP_eq_length]
      intro hall
      rw [of_decide_eq_true (hall x hx)] at hxc
      cases hxc
    have hfnf : s.fnf ≠ readers.length := by
      have := hs.fnf
      have hbound : (readers.zip errs).countP (fun x => x.1.entries = []) ≤ _ := countP_le_length
      omega
    have hleast : Least MetaCacheEntry.name s.current.name (readers.map DiskStream.entries) := by
      refine ⟨⟨x.1.entries, mem_map_of_mem (of_mem_zip hx).1, s.current, hxc, rfl⟩, ?_⟩
      intro entries hentries e he
      obtain ⟨r, hr, rfl⟩ := mem_map.mp hentries
      obtain ⟨y, hy, rfl⟩ := hmem r hr
      exact hle y hy e he
    rw [if_neg hcount, if_neg hfnf, hagreed, hset]
    refine .inr ?_
    by_cases hall : s.agree = readers.length
    · -- all disks agree
      have hagree := hs.agree (by rw [hall, hlen'])
      have hname : ∀ r ∈ readers, ∃ e, r.entries.head? = some e ∧ e.name = s.current.name ∧
          (e = s.current ∨ s.current.matchesEntry P C K e opts.bucket) := by
        intro r hr
        obtain ⟨y, hy, rfl⟩ := hmem r hr
        obtain ⟨e, he, hsame⟩ := hagree y hy
        refine ⟨e, he, ?_, hsame⟩
        rcases hsame with rfl | hm
        · rfl
        · exact (matchesEntry_name hm).symm
      refine ⟨s.current.name, .agreed s.current, hleast, ?_, rfl, fun top htop => ?_⟩
      · rw [if_pos hall, if_pos rfl, map_congr_left fun r hr => ?_]
        obtain ⟨e, he, heq, -⟩ := hname r hr
        rw [← heq]
        exact skip_eq_behind he
      · rw [map_map] at htop
        obtain ⟨r, hr, rfl⟩ := mem_map.mp htop
        obtain ⟨e, he, heq, hsame⟩ := hname r hr
        refine ⟨e, ?_, hsame⟩
        rw [Function.comp_apply, top, he, Option.filter_some_pos (by simpa using heq)]
    · refine ⟨s.current.name, .disagreed s.topEntries s.agree s.errs, hleast, ?_, ?_⟩
      · rw [if_neg hall, htops]
        congr 2
        rw [zipWith_map_right, zipWith_self]
        exact map_congr_left fun r _ => skip_if_top hne r
      · change s.topEntries = _
        rw [htops, map_map, map_map]
        rfl

lemma DiskStream.WellFormed.behind {r : DiskStream} (h : r.WellFormed) (name : Bytes) :
    (r.behind name).WellFormed := by
  refine ⟨ascending_rest h.ascending, fun e he => h.named e ?_⟩
  unfold DiskStream.behind at he
  cases hentries : r.entries with
  | nil =>
    rw [hentries] at he
    exact absurd he not_mem_nil
  | cons e' l =>
    rw [hentries, rest] at he
    split_ifs at he
    · exact mem_cons_of_mem _ he
    · exact he

lemma Sound.behind (h : Sound x) (name : Bytes) : Sound (x.1.behind name, errAfter x) := by
  refine ⟨h.wellFormed.behind name, fun err herr => ?_⟩
  have hnil : x.1.entries = [] ∧ x.1.ending.isFailure := by
    change errAfter x = some err at herr
    rw [errAfter] at herr
    split_ifs at herr with h₁ h₂
    · exact h.dropped err herr
    · exact h₂
  refine ⟨?_, hnil.2⟩
  change rest _ _ x.1.entries = []
  rw [hnil.1]
  rfl

lemma zip_behind (name : Bytes) (hlen : errs.length = readers.length) :
    (readers.map (DiskStream.behind name)).zip ((readers.zip errs).map errAfter) =
      (readers.zip errs).map fun x => (x.1.behind name, errAfter x) := by
  have hfst : (readers.zip errs).map Prod.fst = readers := map_fst_zip hlen.ge
  conv_lhs => rw [← hfst, map_map, hfst]
  rw [zip_map']
  rfl

/-- The loop reads all streams to their end, and its reports are the merge of the streams. -/
lemma loop_spec (h : ∀ x ∈ readers.zip errs, Sound x) (hlen : errs.length = readers.length)
    (henough : Enough opts readers) (hagreed : opts.agreedSet)
    (hset : opts.partialSet) :
    ∃ calls last final out, (∀ fuel, ((readers.map DiskStream.entries).map length).sum < fuel →
        listPathRawLoop P C K opts fuel readers errs = some (calls ++ last, .ok, final)) ∧
      (∀ r ∈ final, r.entries = []) ∧ (last = [] ∨ ∃ errs, last = [.finished errs]) ∧
      Merges MetaCacheEntry.name (readers.map DiskStream.entries) out ∧
      Forall₂ (Report.Tells P C K opts.bucket) calls out := by
  induction hn : ((readers.map DiskStream.entries).map length).sum using
    Nat.strong_induction_on generalizing readers errs with
  | _ n ih =>
    have hs := pass_inv P C K opts h
    rcases afterPass_spec h hlen henough hagreed hset hs with
      ⟨hempty, last, hafter, hlast⟩ | ⟨name, call, hleast, hafter, htells⟩
    · refine ⟨[], last, readers, [], fun fuel hfuel => ?_, hempty, hlast, .done ?_, .nil⟩
      · obtain ⟨fuel, rfl⟩ := Nat.exists_eq_succ_of_ne_zero (ne_of_gt (Nat.zero_lt_of_lt hfuel))
        simp [listPathRawLoop, hafter]
      · intro entries hentries
        obtain ⟨r, hr, rfl⟩ := mem_map.mp hentries
        exact hempty r hr
    · have hsum := sum_length_rest_lt hleast
      have hbehind : (readers.map (DiskStream.behind name)).map DiskStream.entries =
          (readers.map DiskStream.entries).map (rest MetaCacheEntry.name name) := by
        rw [map_map, map_map]
        rfl
      rw [← hbehind, hn] at hsum
      have hsound : ∀ x ∈ (readers.map (DiskStream.behind name)).zip
          (pass P C K opts readers errs).errs, Sound x := by
        intro x hx
        rw [hs.errs, zip_behind name hlen] at hx
        obtain ⟨y, hy, rfl⟩ := mem_map.mp hx
        exact (h y hy).behind name
      have hlens : (pass P C K opts readers errs).errs.length =
          (readers.map (DiskStream.behind name)).length := by
        rw [hs.errs, length_map, length_zip, length_map, hlen, Nat.min_self]
      have henough' : Enough opts (readers.map (DiskStream.behind name)) := by
        rw [Enough, failures, countP_map, length_map]
        exact henough
      obtain ⟨calls, last, final, out, hloop, hfinal, hlast, hmerges, hcalls⟩ :=
        ih _ hsum hsound hlens henough' rfl
      refine ⟨call :: calls, last, final, _, fun fuel hfuel => ?_, hfinal, hlast,
        .round hleast (hbehind ▸ hmerges), .cons htells hcalls⟩
      obtain ⟨fuel, rfl⟩ := Nat.exists_eq_succ_of_ne_zero (ne_of_gt (Nat.zero_lt_of_lt hfuel))
      simp [listPathRawLoop, hafter, hloop fuel (by omega)]


/-! ### The result -/

/-- A call reports a name: `agreed` when all disks have an entry that looks the same, `partial` with
the entry of every disk that has one. -/
def Report.About (P : Packages) (C : Choices) (K : Marshaller) (bucket : String)
    (readers : List DiskStream) (name : Bytes) : Report → Prop
  | .agreed entry => entry.name = name ∧ ∀ r ∈ readers, ∃ e ∈ r.entries, e.name = name ∧
      (e = entry ∨ entry.matchesEntry P C K e bucket = true)
  | .disagreed entries _ _ =>
    entries = readers.map fun r => (r.entries.find? fun e => e.name = name).getD noEntry
  | .finished _ => False

lemma Report.Tells.about {call : Report} {name : Bytes} {tops : List (Option MetaCacheEntry)}
    (h : call.Tells P C K opts.bucket (name, tops))
    (htops : tops = (readers.map DiskStream.entries).map (entryAt MetaCacheEntry.name name)) :
    call.About P C K opts.bucket readers name := by
  rw [map_map] at htops
  cases call with
  | agreed entry =>
    obtain ⟨hname, hall⟩ := h
    refine ⟨hname, fun r hr => ?_⟩
    obtain ⟨e, he, hsame⟩ := hall _ (by
      rw [htops]
      exact mem_map.mpr ⟨r, hr, rfl⟩)
    exact ⟨e, mem_of_find?_eq_some he, by simpa using find?_some he, hsame⟩
  | disagreed entries nAgreed errs =>
    have hentries : entries = tops.map (·.getD noEntry) := h
    rw [hentries, htops, map_map]
    refine map_congr_left fun r _ => ?_
    simp only [Function.comp_apply, entryAt]
    congr 2
    funext e
    exact decide_eq_decide.mpr Iff.rfl
  | finished errs => exact h

/-- `listPathRaw` is a merge: for any number of disks, with streams of strictly increasing names that
end or break off anywhere while enough disks are left, it returns, with all streams read to their
end, after exactly one call for every name that a disk delivered, in increasing order, and each call
has the entries of exactly the disks that delivered the name. -/
theorem listPathRaw_merges (hne : readers ≠ []) (hwf : ∀ r ∈ readers, r.WellFormed)
    (henough : Enough opts readers) (hagreed : opts.agreedSet = true)
    (hset : opts.partialSet = true) :
    ∃ calls last final names, (∀ fuel, ((readers.map DiskStream.entries).map length).sum < fuel →
        listPathRaw P C K opts fuel readers = .ok (some (calls ++ last, .ok, final))) ∧
      (∀ r ∈ final, r.entries = []) ∧ (last = [] ∨ ∃ errs, last = [.finished errs]) ∧
      names.Pairwise (· < ·) ∧
      (∀ name, name ∈ names ↔ ∃ r ∈ readers, ∃ e ∈ r.entries, e.name = name) ∧
      Forall₂ (Report.About P C K opts.bucket readers) names calls := by
  have hsound : ∀ x ∈ readers.zip (readers.map fun _ => (none : Option StreamErr)), Sound x := by
    intro x hx
    refine ⟨hwf x.1 (of_mem_zip hx).1, fun err herr => ?_⟩
    obtain ⟨r, -, hr⟩ := mem_map.mp (of_mem_zip hx).2
    rw [← hr] at herr
    cases herr
  obtain ⟨calls, last, final, out, hloop, hfinal, hlast, hmerges, hcalls⟩ :=
    loop_spec hsound (length_map _) henough hagreed hset
  have hspec := hmerges.spec fun s hs => by
    obtain ⟨r, hr, rfl⟩ := mem_map.mp hs
    exact (hwf r hr).ascending
  refine ⟨calls, last, final, out.map Prod.fst, fun fuel hfuel => ?_, hfinal, hlast,
    hspec.ascending, fun name => ?_, ?_⟩
  · rw [listPathRaw, if_neg fun h => hne (eq_nil_of_length_eq_zero h), hloop fuel hfuel]
  · rw [hspec.keys]
    simp
  · have hentries := hspec.entries
    clear hloop hmerges hspec
    induction hcalls with
    | nil => exact .nil
    | cons htells _ ih =>
      obtain ⟨hhead, htail⟩ := forall_mem_cons.mp hentries
      exact .cons (htells.about hhead) (ih htail)

end Proofs

/-- Three disks: one has no second entry, and one breaks off after its first. -/
def threeDisks : List DiskStream :=
  [⟨[⟨[97], [1]⟩, ⟨[98], [1]⟩], .eof⟩, ⟨[⟨[97], [1]⟩], .eof⟩, ⟨[⟨[97], [1]⟩], .unexpectedEOF⟩]

/-- One disk may fail. -/
def threeDisksOptions : ListPathRawOptions := ⟨"bucket", 2, true, true, true⟩

lemma threeDisks_wellFormed : ∀ r ∈ threeDisks, r.WellFormed := by
  intro r hr
  simp only [threeDisks, mem_cons, not_mem_nil, or_false] at hr
  rcases hr with rfl | rfl | rfl <;>
    exact ⟨by unfold Ascending; decide, by decide⟩

/-- The first name is on all three disks, the second on one. -/
theorem listPathRaw_merges_three : ∃ calls last final names,
      listPathRaw Packages.std Choices.std noMarshaller threeDisksOptions 5 threeDisks =
        .ok (some (calls ++ last, .ok, final)) ∧
      (∀ r ∈ final, r.entries = []) ∧ names.Pairwise (· < ·) ∧ [97] ∈ names ∧ [98] ∈ names ∧
      Forall₂ (Report.About Packages.std Choices.std noMarshaller "bucket" threeDisks)
        names calls := by
  obtain ⟨calls, last, final, names, hrun, hfinal, -, hasc, hnames, hcalls⟩ :=
    listPathRaw_merges (by decide)
      threeDisks_wellFormed (show Enough threeDisksOptions threeDisks from .inr (by decide)) rfl rfl
  refine ⟨calls, last, final, names, hrun 5 (by decide), hfinal, hasc, (hnames _).mpr ?_,
    (hnames _).mpr ?_, hcalls⟩
  · exact ⟨_, mem_cons_self, _, mem_cons_self, rfl⟩
  · exact ⟨_, mem_cons_self, _, mem_cons_of_mem _ mem_cons_self, rfl⟩

end Obstor.Metacache
