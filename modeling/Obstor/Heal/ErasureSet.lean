import Obstor.Metacache.WalkRestricts

/-!
# Healing a drive, across interruptions

`healErasureSet` (`cmd/global-heal.go`) lists every bucket and calls `HealObject` for each version of
each object. Its progress is in a tracker (`cmd/background-newdisks-heal-ops.go`) that is saved on the
drive from time to time; `monitorLocalDisksAndHeal` starts a run from the tracker that was saved last,
and deletes it when a run returns nil. A run is given its surroundings as a script: how each listing
ends, when the tracker is saved, what `HealObject` returns.

The disks that are listed hold the same objects, so `listPathRaw` passes on what `WalkDir` sends on one
of them (`Metacache.walkDir`). A run that resumes inside a bucket lists it from the name of the bucket on,
and not from the object that the tracker has come to. The skipped names are still looked at, so that
mostly the objects are listed all the same; which of them are lost is said by `Metacache.Reached`.

The invariant is that every bucket which a tracker calls healed is covered by the calls made so far, in
this run and before (`Truthful`, for the tracker in memory and the one on the drive in `Sound`). One
bucket keeps it (`healBucket_sound`), and so do a run and the interrupted runs before it
(`healDrive_sound`, `Interrupted.truthful`). `drive_healed` is what a run that returns nil has then
done, and `unhealed_after_nil` the two ways in which the invariant fails.
-/

namespace Obstor.Heal

open Go List Metacache
open Go.Path (slash)

structure Version where
  versionID : String
  size : ℕ
  deriving DecidableEq

/-- The disks that are listed: the volume of each bucket, which is as `WalkDir` expects it, and the
versions that `metaCacheEntry.fileInfoVersions` reads from metadata. -/
structure Disks where
  packages : Meta.Packages
  volume : Bytes → Volume
  conforms : ∀ bucket, (volume bucket).Conforms
  clear : ∀ bucket, (volume bucket).Clear []
  fileInfoVersions : Bytes → Except Err (List Version)

/-! ### The tracker -/

/-- `healingTracker`, without the identity of the drive and the times. -/
structure Tracker where
  bucket : Bytes := []
  object : Bytes := []
  objectsHealed : ℕ := 0
  objectsFailed : ℕ := 0
  bytesDone : ℕ := 0
  bytesFailed : ℕ := 0
  resumeObjectsHealed : ℕ := 0
  resumeObjectsFailed : ℕ := 0
  resumeBytesDone : ℕ := 0
  resumeBytesFailed : ℕ := 0
  queuedBuckets : List Bytes := []
  healedBuckets : List Bytes := []
  deriving DecidableEq

namespace Tracker

def isHealed (h : Tracker) (bucket : Bytes) : Bool := h.healedBuckets.contains bucket

def resume (h : Tracker) : Tracker :=
  { h with
    objectsHealed := h.resumeObjectsHealed
    objectsFailed := h.resumeObjectsFailed
    bytesDone := h.resumeBytesDone
    bytesFailed := h.resumeBytesFailed }

def bucketDone (h : Tracker) (bucket : Bytes) : Tracker :=
  { h with
    resumeObjectsHealed := h.objectsHealed
    resumeObjectsFailed := h.objectsFailed
    resumeBytesDone := h.bytesDone
    resumeBytesFailed := h.bytesFailed
    healedBuckets := h.healedBuckets ++ [bucket]
    queuedBuckets := h.queuedBuckets.erase bucket }

def setQueuedBuckets (h : Tracker) (buckets : List Bytes) : Tracker :=
  { h with queuedBuckets := buckets.filter fun b => !h.healedBuckets.contains b }

end Tracker

/-! ### One bucket -/

structure HealCall where
  bucket : Bytes
  object : Bytes
  versionID : String
  deriving DecidableEq

inductive HealOutcome
  | healed
  | notFound
  | failed
  deriving DecidableEq

inductive ListEnd
  | finished
  | failed
  | cancelled
  deriving DecidableEq

structure BucketScript where
  /-- `getOnlineDisksWithHealing` gives no disk. -/
  noDisks : Bool
  ending : ListEnd
  /-- The number of entries that are passed on, if the listing does not finish. -/
  delivered : ℕ
  /-- The number of versions of the next entry that a cancelled run comes to. -/
  started : ℕ
  /-- After which entries the tracker is saved: a minute has passed, and `update` succeeds. -/
  saves : ℕ → Bool
  /-- The `update` after `bucketDone` succeeds. -/
  doneSaved : Bool
  /-- What the calls of `HealObject` return. -/
  outcome : HealCall → HealOutcome

/-- The tracker in memory, the one on the drive, and the calls that were made. -/
structure HealState where
  tracker : Tracker
  saved : Option Tracker
  calls : List HealCall

/-- `deepMatchRune` with the wildcards `*` and `?`; on bytes, which makes no difference to a pattern
without `?`.
Source: `pkg/wildcard/match.go` -/
def deepMatchRune : Bytes → Bytes → Bool
  | str, [] => str.isEmpty
  | [], c :: pattern => c = 42 && deepMatchRune [] pattern
  | s :: str, c :: pattern =>
    if c = 42 then deepMatchRune (s :: str) pattern || deepMatchRune str (c :: pattern)
    else (c = 63 || s = c) && deepMatchRune str pattern
termination_by str pattern => str.length + pattern.length

/-- `obstorMetaBucket`, `.obstor.sys`. -/
def obstorMetaBucket : Bytes := [46, 111, 98, 115, 116, 111, 114, 46, 115, 121, 115]

/-- The patterns `buckets/*/.metacache/*`, `tmp/.trash/*` and `multipart/*`. -/
def skippedPatterns : List Bytes :=
  [[98, 117, 99, 107, 101, 116, 115, 47, 42, 47, 46, 109, 101, 116, 97, 99, 97, 99, 104, 101, 47, 42],
    [116, 109, 112, 47, 46, 116, 114, 97, 115, 104, 47, 42],
    [109, 117, 108, 116, 105, 112, 97, 114, 116, 47, 42]]

/-- The entries of the system bucket that are not healed: listing caches, trash and multipart
uploads. -/
def skipsEntry (bucket name : Bytes) : Bool :=
  bucket = obstorMetaBucket && skippedPatterns.any (deepMatchRune name)

def Tracker.count (t : Tracker) (size : ℕ) : HealOutcome → Tracker
  | .healed => { t with objectsHealed := t.objectsHealed + 1, bytesDone := t.bytesDone + size }
  | .notFound => t
  | .failed => { t with objectsFailed := t.objectsFailed + 1, bytesFailed := t.bytesFailed + size }

section Model

variable (D : Disks) (script : BucketScript) (bucket : Bytes)

/-- The versions of an entry that are healed; none of a directory, of an entry that is skipped and of
one that cannot be read. -/
def Disks.versions (entry : MetaCacheEntry) : Option (List Version) :=
  if entry.isDir ∨ skipsEntry bucket entry.name then none
  else (D.fileInfoVersions entry.metadata).toOption

def healVersion (name : Bytes) (st : HealState) (v : Version) : HealState :=
  { st with
    tracker := st.tracker.count v.size (script.outcome ⟨bucket, name, v.versionID⟩)
    calls := st.calls ++ [⟨bucket, name, v.versionID⟩] }

def healEntry (i : ℕ) (entry : MetaCacheEntry) (st : HealState) : HealState :=
  match D.versions bucket entry with
  | none => st
  | some versions =>
    let st := versions.foldl (healVersion script bucket entry.name) st
    let tracker := { st.tracker with object := entry.name }
    { st with tracker := tracker, saved := if script.saves i then some tracker else st.saved }

/-- The entries that the listing passes on, from number `i`. -/
def healEntries : ℕ → List MetaCacheEntry → HealState → HealState
  | _, [], st => st
  | i, entry :: rest, st => healEntries (i + 1) rest (healEntry D script bucket i entry st)

/-- What a cancelled run still does of the next entry. -/
def healStarted (entry : Option MetaCacheEntry) (st : HealState) : HealState :=
  match entry with
  | none => st
  | some entry =>
    (((D.versions bucket entry).getD []).take script.started).foldl
      (healVersion script bucket entry.name) st

def listBucket (entries : List MetaCacheEntry) (st : HealState) : HealState :=
  match script.ending with
  | .finished => healEntries D script bucket 0 entries st
  | .failed => healEntries D script bucket 0 (entries.take script.delivered) st
  | .cancelled =>
    healStarted D script bucket entries[script.delivered]?
      (healEntries D script bucket 0 (entries.take script.delivered) st)

/-- Where the listing of the bucket starts: at the bucket's own name, if the tracker is in it. -/
def forwardTo (tracker : Tracker) : Bytes :=
  if tracker.bucket ≠ [] ∧ tracker.bucket = bucket then tracker.bucket else []

def enterBucket (tracker : Tracker) : Tracker :=
  let tracker := if tracker.bucket ≠ [] ∧ tracker.bucket ≠ bucket then tracker.resume else tracker
  { tracker with object := [], bucket := bucket }

/-- One round of the loop over the buckets. -/
def healBucket (st : HealState) : HealState × Option Err :=
  if st.tracker.isHealed bucket then (st, none)
  else
    let entered := { st with tracker := enterBucket bucket st.tracker }
    if script.noDisks then (entered, some (.new 3 "healErasureSet: No non-healing disks found"))
    else
      let entries := (walkDir D.packages (D.volume bucket)
        ⟨[], true, false, [], forwardTo bucket st.tracker⟩).1
      let listed := listBucket D script bucket entries entered
      -- an error of the listing is only logged
      match script.ending with
      | .cancelled => (listed, some (.new 4 "context canceled"))
      | _ =>
        let tracker := listed.tracker.bucketDone bucket
        ({ listed with
            tracker := tracker
            saved := if script.doneSaved then some tracker else listed.saved }, none)

end Model

/-! ### Runs -/

structure RunScript where
  /-- The tracker can be saved before the run. -/
  firstSaved : Bool
  bucket : Bytes → BucketScript

section Runs

variable (D : Disks) (buckets : List Bytes)

def healBuckets (script : RunScript) : List Bytes → HealState → HealState × Option Err
  | [], st => (st, none)
  | bucket :: rest, st =>
    match healBucket D (script.bucket bucket) bucket st with
    | (st', some err) => (st', some err)
    | (st', none) => healBuckets script rest st'

/-- `.obstor.sys/config`. -/
def configBucket : Bytes := obstorMetaBucket ++ [47, 99, 111, 110, 102, 105, 103]

/-- The buckets that are healed: those of the list, and the configuration. -/
def allBuckets : List Bytes := buckets ++ [configBucket]

/-- `backendEncryptedFile`, `backend-encrypted`. -/
def backendEncryptedFile : Bytes :=
  [98, 97, 99, 107, 101, 110, 100, 45, 101, 110, 99, 114, 121, 112, 116, 101, 100]

def healErasureSet (script : RunScript) (st : HealState) : HealState × Option Err :=
  let encrypted : HealCall := ⟨obstorMetaBucket, backendEncryptedFile, ""⟩
  match healBuckets D script (allBuckets buckets)
    { st with calls := st.calls ++ [encrypted] } with
  | (st, some err) => (st, some err)
  | (st, none) => ({ st with tracker := { st.tracker with object := [], bucket := [] } }, none)

/-- The round of `monitorLocalDisksAndHeal` for one drive: the tracker on the drive afterwards, the
calls of `HealObject`, and the error. -/
def healDrive (script : RunScript) (saved : Option Tracker) :
    Option Tracker × List HealCall × Option Err :=
  let tracker := (saved.getD {}).setQueuedBuckets buckets
  if !script.firstSaved then (saved, [], some .faultyDisk)
  else
    match healErasureSet D buckets script ⟨tracker, some tracker, []⟩ with
    | (st, some err) => (st.saved, st.calls, some err)
    | (st, none) => (none, st.calls, none)

/-- `HealObject` was called for every version of every object of the bucket, under the object's
name. -/
def Covered (bucket : Bytes) (calls : List HealCall) : Prop :=
  ∀ q, (q, none) ∈ (D.volume bucket).nodes → (D.volume bucket).isObject q = true →
    ∀ versions, D.versions bucket (entryAt (D.volume bucket) q) = some versions →
      ∀ v ∈ versions, ⟨bucket, (entryAt (D.volume bucket) q).name, v.versionID⟩ ∈ calls

/-- A tracker that is not inside a bucket, or inside one in which a listing from the bucket's own name
on reaches every object. -/
def Resumable (tracker : Tracker) : Prop :=
  tracker.bucket ≠ [] → tracker.bucket ∉ tracker.healedBuckets →
    Reached (D.volume tracker.bucket) tracker.bucket

/-- No listing of a bucket fails, and the run can resume where the saved tracker is. -/
structure Undisturbed (script : RunScript) (saved : Option Tracker) : Prop where
  listed : ∀ bucket ∈ allBuckets buckets, (script.bucket bucket).ending ≠ .failed
  resumable : Resumable D (saved.getD {})

/-- Runs that did not come to their end: the tracker on the drive, and the calls so far. The drive
begins without a tracker or with a new one. -/
inductive Interrupted : Option Tracker → List HealCall → Prop
  | start {saved : Option Tracker} (hnew : saved = none ∨ saved = some {}) : Interrupted saved []
  | run {saved calls saved' calls' err} (script : RunScript) (h : Interrupted saved calls)
      (hscript : Undisturbed D buckets script saved)
      (hrun : healDrive D buckets script saved = (saved', calls', some err)) :
      Interrupted saved' (calls ++ calls')

end Runs

/-! ### What one bucket adds -/

/-- What the healing of entries does to the state: it makes calls, and may save the tracker. -/
structure Extends (st st' : HealState) : Prop where
  calls : ∀ call ∈ st.calls, call ∈ st'.calls
  healed : st'.tracker.healedBuckets = st.tracker.healedBuckets
  bucket : st'.tracker.bucket = st.tracker.bucket
  saved : st'.saved = st.saved ∨
    ∃ t, st'.saved = some t ∧ t.healedBuckets = st.tracker.healedBuckets

namespace Extends

variable {st st' st'' : HealState}

lemma refl (st : HealState) : Extends st st := ⟨fun _ h => h, rfl, rfl, Or.inl rfl⟩

lemma trans (h : Extends st st') (h' : Extends st' st'') : Extends st st'' where
  calls call hcall := h'.calls call (h.calls call hcall)
  healed := h'.healed.trans h.healed
  bucket := h'.bucket.trans h.bucket
  saved := by
    rcases h'.saved with heq | ⟨t, ht, hhealed⟩
    · rw [heq]
      exact h.saved
    · exact Or.inr ⟨t, ht, hhealed.trans h.healed⟩

end Extends

section Entries

variable (D : Disks) (script : BucketScript) (bucket : Bytes)

lemma healVersion_extends (name : Bytes) (st : HealState) (v : Version) :
    Extends st (healVersion script bucket name st v) := by
  unfold healVersion
  generalize script.outcome ⟨bucket, name, v.versionID⟩ = outcome
  refine ⟨fun call hcall => mem_append_left _ hcall, ?_, ?_, Or.inl rfl⟩
  · cases outcome <;> rfl
  · cases outcome <;> rfl

lemma foldl_healVersion (name : Bytes) (versions : List Version) (st : HealState) :
    Extends st (versions.foldl (healVersion script bucket name) st) ∧
      ∀ v ∈ versions, ⟨bucket, name, v.versionID⟩ ∈
        (versions.foldl (healVersion script bucket name) st).calls := by
  induction versions generalizing st with
  | nil => exact ⟨Extends.refl st, fun v hv => absurd hv not_mem_nil⟩
  | cons v rest ih =>
    obtain ⟨hext, hcalls⟩ := ih _
    refine ⟨(healVersion_extends script bucket name st v).trans hext, fun v' hv' => ?_⟩
    rcases mem_cons.mp hv' with rfl | hmem
    · exact hext.calls _ (mem_append_right _ (mem_singleton_self _))
    · exact hcalls v' hmem

lemma healEntry_extends (i : ℕ) (entry : MetaCacheEntry) (st : HealState) :
    Extends st (healEntry D script bucket i entry st) ∧
      ∀ versions, D.versions bucket entry = some versions → ∀ v ∈ versions,
        ⟨bucket, entry.name, v.versionID⟩ ∈ (healEntry D script bucket i entry st).calls := by
  unfold healEntry
  cases D.versions bucket entry with
  | none => exact ⟨Extends.refl st, nofun⟩
  | some versions =>
    obtain ⟨hext, hcalls⟩ := foldl_healVersion script bucket entry.name versions st
    refine ⟨⟨hext.calls, hext.healed, hext.bucket, ?_⟩, fun versions' heq v hv => ?_⟩
    · split_ifs
      · exact Or.inr ⟨_, rfl, hext.healed⟩
      · exact hext.saved
    · cases heq
      exact hcalls v hv

lemma healEntries_extends (i : ℕ) (entries : List MetaCacheEntry) (st : HealState) :
    Extends st (healEntries D script bucket i entries st) ∧
      ∀ entry ∈ entries, ∀ versions, D.versions bucket entry = some versions → ∀ v ∈ versions,
        ⟨bucket, entry.name, v.versionID⟩ ∈ (healEntries D script bucket i entries st).calls := by
  induction entries generalizing i st with
  | nil => exact ⟨Extends.refl st, fun entry h => absurd h not_mem_nil⟩
  | cons entry rest ih =>
    obtain ⟨hhead, hcalls⟩ := healEntry_extends D script bucket i entry st
    obtain ⟨htail, hrest⟩ := ih (i + 1) _
    refine ⟨hhead.trans htail, fun entry' hentry' versions heq v hv => ?_⟩
    rcases mem_cons.mp hentry' with rfl | hmem
    · exact htail.calls _ (hcalls versions heq v hv)
    · exact hrest entry' hmem versions heq v hv

lemma listBucket_extends (entries : List MetaCacheEntry) (st : HealState) :
    Extends st (listBucket D script bucket entries st) := by
  unfold listBucket
  cases script.ending with
  | finished => exact (healEntries_extends D script bucket 0 entries st).1
  | failed => exact (healEntries_extends D script bucket 0 _ st).1
  | cancelled =>
    refine (healEntries_extends D script bucket 0 (entries.take script.delivered) st).1.trans ?_
    unfold healStarted
    cases entries[script.delivered]? with
    | none => exact Extends.refl _
    | some entry => exact (foldl_healVersion script bucket entry.name _ _).1

end Entries

/-! ### What a run covers -/

section Covered

variable {D : Disks} {buckets : List Bytes}

variable {bucket : Bytes} {calls : List HealCall}

lemma Covered.mono {calls' : List HealCall}
    (h : Covered D bucket calls) (hsub : ∀ call ∈ calls, call ∈ calls') :
    Covered D bucket calls' := by
  intro q hmem hobject versions heq v hv
  exact hsub _ (h q hmem hobject versions heq v hv)

/-- The buckets that a tracker calls healed are covered. -/
def Truthful (D : Disks) (tracker : Tracker) (calls : List HealCall) : Prop :=
  ∀ bucket ∈ tracker.healedBuckets, Covered D bucket calls

lemma Truthful.mono {tracker : Tracker} {calls' : List HealCall}
    (h : Truthful D tracker calls) (hsub : ∀ call ∈ calls, call ∈ calls') :
    Truthful D tracker calls' :=
  fun bucket hbucket => (h bucket hbucket).mono hsub

/-- The trackers in memory and on the drive are truthful; `earlier` are the calls of other runs. -/
structure Sound (D : Disks) (earlier : List HealCall) (st : HealState) : Prop where
  tracker : Truthful D st.tracker (earlier ++ st.calls)
  saved : ∀ t, st.saved = some t → Truthful D t (earlier ++ st.calls)

variable {earlier : List HealCall} {st st' : HealState}

lemma Sound.of_extends
    (h : Sound D earlier st) (hext : Extends st st') : Sound D earlier st' := by
  have hsub : ∀ call ∈ earlier ++ st.calls, call ∈ earlier ++ st'.calls := by
    intro call hcall
    rcases mem_append.mp hcall with hold | hnew
    · exact mem_append_left _ hold
    · exact mem_append_right _ (hext.calls call hnew)
  constructor
  · intro bucket hbucket
    rw [hext.healed] at hbucket
    exact (h.tracker bucket hbucket).mono hsub
  · intro t ht
    rcases hext.saved with heq | ⟨t', ht', hhealed⟩
    · rw [heq] at ht
      exact (h.saved t ht).mono hsub
    · rw [ht', Option.some_inj] at ht
      intro bucket hbucket
      rw [← ht, hhealed] at hbucket
      exact (h.tracker bucket hbucket).mono hsub

lemma covered_listBucket {script : BucketScript} (hend : script.ending = .finished) {fwd : Bytes}
    (hslash : fwd.count slash ≤ 1) (hreached : Reached (D.volume bucket) fwd) (st : HealState) :
    Covered D bucket (listBucket D script bucket
      (walkDir D.packages (D.volume bucket) ⟨[], true, false, [], fwd⟩).1 st).calls := by
  intro q hmem hobject versions heq v hv
  have hsent := entryAt_mem_walkDir (P := D.packages) (D.conforms bucket) (D.clear bucket) hslash
    hreached hmem hobject
  unfold listBucket
  rw [hend]
  exact (healEntries_extends D script bucket 0 _ st).2 _ hsent versions heq v hv

lemma healedBuckets_enterBucket (bucket : Bytes) (tracker : Tracker) :
    (enterBucket bucket tracker).healedBuckets = tracker.healedBuckets := by
  unfold enterBucket
  split_ifs <;> rfl

/-- A run goes on at the bucket's own name, or at the beginning. -/
lemma reached_forwardTo (hslash : bucket.count slash ≤ 1) (hres : Resumable D st.tracker)
    (hnot : bucket ∉ st.tracker.healedBuckets) :
    (forwardTo bucket st.tracker).count slash ≤ 1 ∧
      Reached (D.volume bucket) (forwardTo bucket st.tracker) := by
  unfold forwardTo
  by_cases hin : st.tracker.bucket ≠ [] ∧ st.tracker.bucket = bucket
  · rw [if_pos hin, hin.2]
    rw [Resumable, hin.2] at hres
    exact ⟨hslash, hres (hin.2 ▸ hin.1) hnot⟩
  · rw [if_neg hin]
    exact ⟨Nat.zero_le 1, reached_nil⟩

variable {err : Option Err}

lemma healBucket_sound {script : BucketScript} (hlist : script.ending ≠ .failed)
    (hslash : bucket.count slash ≤ 1)
    (hsound : Sound D earlier st) (hres : Resumable D st.tracker)
    (h : healBucket D script bucket st = (st', err)) :
    Sound D earlier st' ∧ (err = none → Resumable D st'.tracker ∧
      bucket ∈ st'.tracker.healedBuckets ∧
      ∀ b ∈ st.tracker.healedBuckets, b ∈ st'.tracker.healedBuckets) := by
  unfold healBucket at h
  by_cases hhealed : st.tracker.isHealed bucket
  · rw [if_pos hhealed] at h
    cases h
    exact ⟨hsound, fun _ => ⟨hres, contains_iff_mem.mp hhealed, fun b hb => hb⟩⟩
  rw [if_neg hhealed] at h
  have hnot : bucket ∉ st.tracker.healedBuckets := fun hmem => hhealed (contains_iff_mem.mpr hmem)
  have hentered : Sound D earlier { st with tracker := enterBucket bucket st.tracker } := by
    refine ⟨fun b hb => ?_, hsound.saved⟩
    rw [healedBuckets_enterBucket] at hb
    exact hsound.tracker b hb
  by_cases hdisks : script.noDisks
  · rw [if_pos hdisks] at h
    cases h
    exact ⟨hentered, nofun⟩
  rw [if_neg hdisks] at h
  simp only at h
  have hext := listBucket_extends D script bucket
    (walkDir D.packages (D.volume bucket) ⟨[], true, false, [], forwardTo bucket st.tracker⟩).1
    { st with tracker := enterBucket bucket st.tracker }
  have hlisted := hentered.of_extends hext
  cases hend : script.ending with
  | failed => exact absurd hend hlist
  | cancelled =>
    rw [hend] at h
    cases h
    exact ⟨hlisted, nofun⟩
  | finished =>
    rw [hend] at h
    obtain ⟨hcount, hreached⟩ := reached_forwardTo hslash hres hnot
    have hcovered := covered_listBucket hend hcount hreached
      { st with tracker := enterBucket bucket st.tracker }
    generalize listBucket D script bucket _ _ = listed at h hext hlisted hcovered
    have hdone :
        Truthful D (listed.tracker.bucketDone bucket) (earlier ++ listed.calls) := by
      intro b hb
      rcases mem_append.mp hb with hold | hnew
      · exact hlisted.tracker b hold
      · rw [mem_singleton.mp hnew]
        exact hcovered.mono fun call hcall => mem_append_right _ hcall
    cases h
    refine ⟨⟨hdone, fun t ht => ?_⟩, fun _ => ⟨?_, ?_, fun b hb => ?_⟩⟩
    · by_cases hsaved : script.doneSaved
      · rw [if_pos hsaved, Option.some_inj] at ht
        rw [← ht]
        exact hdone
      · rw [if_neg hsaved] at ht
        exact hlisted.saved t ht
    · intro _ hnone
      refine absurd ?_ hnone
      show listed.tracker.bucket ∈ listed.tracker.healedBuckets ++ [bucket]
      rw [hext.bucket]
      exact mem_append_right _ (mem_singleton_self bucket)
    · exact mem_append_right _ (mem_singleton_self bucket)
    · refine mem_append_left _ ?_
      rw [hext.healed, healedBuckets_enterBucket]
      exact hb

lemma healBuckets_sound {script : RunScript} {bs : List Bytes}
    (hlist : ∀ bucket ∈ bs, (script.bucket bucket).ending ≠ .failed)
    (hslash : ∀ bucket ∈ bs, bucket.count slash ≤ 1)
    (hsound : Sound D earlier st) (hres : Resumable D st.tracker)
    (h : healBuckets D script bs st = (st', err)) :
    Sound D earlier st' ∧ (err = none →
      (∀ b ∈ st.tracker.healedBuckets, b ∈ st'.tracker.healedBuckets) ∧
        ∀ b ∈ bs, b ∈ st'.tracker.healedBuckets) := by
  induction bs generalizing st with
  | nil =>
    cases h
    exact ⟨hsound, fun _ => ⟨fun b hb => hb, fun b hb => absurd hb not_mem_nil⟩⟩
  | cons bucket rest ih =>
    rw [healBuckets] at h
    obtain ⟨hend, hlist⟩ := forall_mem_cons.mp hlist
    obtain ⟨hname, hslash⟩ := forall_mem_cons.mp hslash
    rcases hb : healBucket D (script.bucket bucket) bucket st with ⟨st₁, _ | e⟩
    · rw [hb] at h
      obtain ⟨hsound₁, hnil⟩ := healBucket_sound hend hname hsound hres hb
      obtain ⟨hres₁, hmem, hsub⟩ := hnil rfl
      obtain ⟨hsound', hrest⟩ := ih hlist hslash hsound₁ hres₁ h
      refine ⟨hsound', fun herr => ?_⟩
      obtain ⟨hkeep, hall⟩ := hrest herr
      refine ⟨fun b hb => hkeep b (hsub b hb), fun b hb => ?_⟩
      rcases mem_cons.mp hb with rfl | hin
      · exact hkeep b hmem
      · exact hall b hin
    · rw [hb] at h
      cases h
      exact ⟨(healBucket_sound hend hname hsound hres hb).1, nofun⟩

lemma count_slash_allBuckets (hnames : ∀ bucket ∈ buckets, slash ∉ bucket) :
    ∀ bucket ∈ allBuckets buckets, bucket.count slash ≤ 1 := by
  intro bucket hbucket
  rcases mem_append.mp hbucket with hmem | hconfig
  · rw [count_eq_zero_of_not_mem (hnames bucket hmem)]
    exact Nat.zero_le 1
  · rw [mem_singleton.mp hconfig]
    decide

lemma healDrive_sound {script : RunScript} {saved saved' : Option Tracker}
    (hnames : ∀ bucket ∈ buckets, slash ∉ bucket) (hscript : Undisturbed D buckets script saved)
    (hsound : ∀ t, saved = some t → Truthful D t earlier)
    (h : healDrive D buckets script saved = (saved', calls, err)) :
    (∀ t, saved' = some t → Truthful D t (earlier ++ calls)) ∧
      (err = none → ∀ bucket ∈ allBuckets buckets, Covered D bucket (earlier ++ calls)) := by
  unfold healDrive at h
  by_cases hfirst : script.firstSaved
  swap
  · rw [if_pos (by simpa using hfirst)] at h
    cases h
    exact ⟨fun t ht => (hsound t ht).mono fun call hcall => mem_append_left _ hcall, nofun⟩
  rw [if_neg (by simpa using hfirst)] at h
  have htruth : ∀ calls : List HealCall,
      Truthful D ((saved.getD {}).setQueuedBuckets buckets) (earlier ++ calls) := by
    intro calls
    cases saved with
    | none => exact fun b hb => absurd hb not_mem_nil
    | some t => exact (hsound t rfl).mono fun call hcall => mem_append_left _ hcall
  have hstart : ∀ calls, Sound D earlier ⟨(saved.getD {}).setQueuedBuckets buckets,
      some ((saved.getD {}).setQueuedBuckets buckets), calls⟩ := by
    intro calls
    refine ⟨htruth calls, fun t ht => ?_⟩
    cases ht
    exact htruth calls
  have hslash := count_slash_allBuckets hnames
  unfold healErasureSet at h
  simp only at h
  rcases hrun : healBuckets D script (allBuckets buckets) _ with ⟨st, _ | e⟩
  · rw [hrun] at h
    obtain ⟨hfin, hall⟩ := healBuckets_sound hscript.listed hslash (hstart _) hscript.resumable hrun
    cases h
    exact ⟨nofun, fun _ bucket hbucket => hfin.tracker bucket ((hall rfl).2 bucket hbucket)⟩
  · rw [hrun] at h
    cases h
    exact ⟨(healBuckets_sound hscript.listed hslash (hstart _) hscript.resumable hrun).1.saved, nofun⟩

lemma Interrupted.truthful {saved : Option Tracker}
    (hnames : ∀ bucket ∈ buckets, slash ∉ bucket) (h : Interrupted D buckets saved calls) :
    ∀ t, saved = some t → Truthful D t calls := by
  induction h with
  | start hnew =>
    rintro t ht bucket hbucket
    rcases hnew with rfl | rfl
    · cases ht
    · cases ht
      cases hbucket
  | run script h hscript hrun ih => exact (healDrive_sound hnames hscript ih hrun).1

end Covered

/-! ### Two runs -/

/-- A run in which every listing ends in one way; `HealObject` succeeds, and the tracker is saved
after every entry. -/
def plainRun (ending : ListEnd) (delivered : ℕ) : RunScript where
  firstSaved := true
  bucket _ :=
    { noDisks := false
      ending := ending
      delivered := delivered
      started := 0
      saves := fun _ => true
      doneSaved := true
      outcome := fun _ => .healed }

/-- The volume of a bucket without objects. -/
def emptyVolume : Volume := ⟨[], by decide, by decide, by decide⟩

/-- One bucket with a volume; every object has one version. -/
def bucketWith (bucket : Bytes) (v : Volume) (hv : v.Conforms) (hclear : v.Clear []) : Disks where
  packages := .std
  volume b := if b = bucket then v else emptyVolume
  conforms b := by
    split_ifs
    · exact hv
    · decide
  clear b := by
    split_ifs
    · exact hclear
    · decide
  fileInfoVersions _ := .ok [⟨"v", 1⟩]

section

variable (bucket : Bytes) (D : Disks)

/-- A first run, which is cancelled after two entries. -/
def firstRun : Option Tracker × List HealCall × Option Err :=
  healDrive D [bucket] (plainRun .cancelled 2) none

/-- The run after it, which finishes. -/
def secondRun : Option Tracker × List HealCall × Option Err :=
  healDrive D [bucket] (plainRun .finished 0) (firstRun bucket D).1

end

/-- The objects `a/x`, `p` and `q`. -/
def threeObjects : Volume where
  nodes := [([[97]], none), ([[97], [120]], none), ([[97], [120], xlStorageFormatFile], some [1]),
    ([[112]], none), ([[112], xlStorageFormatFile], some [2]),
    ([[113]], none), ([[113], xlStorageFormatFile], some [3])]
  elems := by decide
  nodup := by decide
  parents := by decide

/-- The bucket `m`: its directory `a` sorts before it, but the objects at its top do not. -/
def bucketM : Disks := bucketWith [109] threeObjects (by decide) (by decide)

/-- The same objects in the bucket `z`. -/
def bucketZ : Disks := bucketWith [122] threeObjects (by decide) (by decide)

end Obstor.Heal
