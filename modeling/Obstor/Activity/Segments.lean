import Obstor.Activity.Query
import Obstor.Lib.Runs

/-!
# Segments of the activity log

The events of a node are saved in segment files (`cmd/activity-store.go`), each named by the
sequence number that its segment begins with. `feedSegment` appends to the open segment and seals it
at a limit; `Flush` takes the sealed segments and a copy of the open one, writes them without the
lock, and puts back what failed.

The steps of `Flush` and the appends come in any order (`Act`). A write or delete that fails leaves
the store as it is. Sequence numbers do not wrap.

`events_accounted`: after any run, each event is saved, pending, removed by the retention rule or
counted as dropped. The invariant `Inv` has a `Layout`, by which every file and every pending
segment is a beginning of the segment of its name; each step keeps it (`Inv.step`), so a file is
only ever written over by more of the same events.
-/

namespace Obstor.Activity

open Lib List Function Activity Subset

/-! ### The log -/

abbrev Segment := List Event

def activitySegmentEvents : ℕ := 1000

def activitySegmentBytes : ℕ := 2 ^ 20

def activitySegmentsKept : ℕ := 50

def activityEventBytes (e : Event) : ℕ :=
  ([e.node, e.accessKey, e.source, e.api, e.bucket, e.object, e.authorizationPrefix].map
    fun s => (s.map Char.utf8Size).sum).sum + 64

/-- The sequence number of the first event. -/
def Segment.first (seg : Segment) : ℕ := (seg.head?.map Event.seq).getD 0

lemma Segment.first_append {s : Segment} {e : Event} (h : s ≠ []) :
    Segment.first (s ++ [e]) = s.first := by
  cases s with
  | nil => exact absurd rfl h
  | cons x s => rfl

/-- The fields of `activityLog` that the segments use. `opened` is `open`; `segments` is sorted, and
given by its members. -/
structure SegmentLog where
  seq : ℕ := 0
  opened : Segment := []
  openFirst : ℕ := 0
  openBytes : ℕ := 0
  sealed : List Segment := []
  dirty : Bool := false
  dropped : ℕ := 0
  segments : Finset ℕ := ∅

namespace SegmentLog

def trimPendingSegments (l : SegmentLog) : SegmentLog :=
  let extra := l.sealed.length - activitySegmentsKept
  { l with
    dropped := l.dropped + (l.sealed.take extra).flatten.length
    sealed := l.sealed.drop extra }

def sealSegment (l : SegmentLog) : SegmentLog :=
  trimPendingSegments { l with sealed := l.sealed ++ [l.opened], opened := [], openBytes := 0 }

/-- The event goes to the open segment. -/
def push (l : SegmentLog) (e : Event) : SegmentLog :=
  { l with
    openFirst := if l.opened = [] then e.seq else l.openFirst
    opened := l.opened ++ [e]
    openBytes := l.openBytes + activityEventBytes e
    dirty := true }

def feedSegment (l : SegmentLog) (e : Event) : SegmentLog :=
  let size := activityEventBytes e
  if activitySegmentBytes < size then { l with dropped := l.dropped + 1 }
  else
    let l := if l.opened ≠ [] ∧ activitySegmentBytes < l.openBytes + size then l.sealSegment else l
    let l := l.push e
    if activitySegmentEvents ≤ l.opened.length ∨ activitySegmentBytes ≤ l.openBytes then
      l.sealSegment
    else l

def append (l : SegmentLog) (e : Event) : SegmentLog :=
  { l with seq := l.seq + 1 }.feedSegment { e with seq := l.seq }

end SegmentLog

/-! ### The store and the steps -/

/-- The saved segments, under the numbers in their names. -/
structure Store where
  names : Finset ℕ := ∅
  content : ℕ → Segment := fun _ => []

def Store.write (st : Store) (first : ℕ) (events : Segment) : Store where
  names := insert first st.names
  content := Function.update st.content first events

/-- A running `Flush`, between its two critical sections: the segments it has yet to write, with its
copy of the open one, and those that failed. -/
structure Flushing where
  sealed : List Segment
  copy : Option (ℕ × Segment)
  retry : List Segment := []
  openFailed : Bool := false
  stopped : Bool := false

/-- The log, the store and the running `Flush`. `fed` and `removed` are not stored anywhere: the
events that this process passed to `feedSegment`, and those of the files that were deleted while
enough newer files were there. -/
structure World where
  log : SegmentLog := {}
  store : Store := {}
  flush : Option Flushing := none
  fed : List Event := []
  removed : List Event := []

inductive Act
  | append (e : Event)
  /-- `Flush` takes the pending segments. -/
  | flush
  /-- The next segment is written, or this fails. -/
  | write (ok : Bool)
  /-- The oldest file is deleted, or this fails. -/
  | delete (ok : Bool)
  /-- `Flush` puts back what failed. -/
  | finish

def beginFlush (l : SegmentLog) : Flushing where
  sealed := l.sealed
  copy := if l.dirty ∧ l.opened ≠ [] then some (l.openFirst, l.opened) else none

def writeSegment (w : World) (first : ℕ) (events : Segment) : World :=
  { w with
    store := w.store.write first events
    log := { w.log with segments := insert first w.log.segments } }

/-- `deleteConfig` of the oldest file. -/
def deleteOldest (w : World) (first : ℕ) : World :=
  { w with
    store := { w.store with names := w.store.names.erase first }
    log := { w.log with segments := w.log.segments.erase first }
    removed :=
      if activitySegmentsKept ≤ (w.store.names.filter (first < ·)).card then
        w.removed ++ w.store.content first
      else w.removed }

/-- One step, `none` where it cannot be taken. -/
def step (w : World) : Act → Option World
  | .append e =>
    some { w with log := w.log.append e, fed := w.fed ++ [{ e with seq := w.log.seq }] }
  | .flush =>
    match w.flush with
    | some _ => none
    | none =>
      some { w with
        log := { w.log with sealed := [], dirty := false }
        flush := some (beginFlush w.log) }
  | .write ok =>
    match w.flush with
    | none => none
    | some f =>
      match f.sealed, f.copy with
      | seg :: rest, _ =>
        some (if ok then
            { writeSegment w seg.first seg with flush := some { f with sealed := rest } }
          else { w with flush := some { f with sealed := rest, retry := f.retry ++ [seg] } })
      | [], some (first, events) =>
        some (if ok then { writeSegment w first events with flush := some { f with copy := none } }
          else { w with flush := some { f with copy := none, openFailed := true } })
      | [], none => none
  | .delete ok =>
    match w.flush, w.log.segments.sort with
    | some f, first :: _ =>
      if f.sealed = [] ∧ f.copy = none ∧ ¬ f.stopped ∧
          activitySegmentsKept < w.log.segments.card then
        some (if ok then deleteOldest w first
          else { w with flush := some { f with stopped := true } })
      else none
    | _, _ => none
  | .finish =>
    match w.flush with
    | none => none
    | some f =>
      if f.sealed = [] ∧ f.copy = none ∧
          (f.stopped ∨ w.log.segments.card ≤ activitySegmentsKept) then
        some { w with
          log := SegmentLog.trimPendingSegments { w.log with
            sealed := f.retry ++ w.log.sealed
            dirty := w.log.dirty || f.retry ≠ [] || f.openFailed }
          flush := none }
      else none

/-! ### What is kept -/

def Flushing.pending (f : Flushing) : List Segment := f.retry ++ f.sealed

def SegmentLog.events (l : SegmentLog) : List Event := l.sealed.flatten ++ l.opened

namespace World

/-- The segments that no event is added to and that are not saved. -/
def sealed (w : World) : List Segment := w.flush.elim [] Flushing.pending ++ w.log.sealed

/-- The event is in a file, pending, or in a file that was removed in time. -/
def Holds (w : World) (e : Event) : Prop :=
  (∃ g ∈ w.store.names, e ∈ w.store.content g) ∨ e ∈ w.sealed.flatten ++ w.log.opened ∨
    e ∈ w.removed

/-- Every event is held or counted. -/
def Accounted (w : World) : Prop :=
  ∃ lost : List Event, lost.length ≤ w.log.dropped ∧ ∀ e ∈ w.fed, w.Holds e ∨ e ∈ lost

variable {w w' : World}

/-- A step that counts what it loses keeps the account. -/
lemma Accounted.step (lost new : List Event) (h : w.Accounted)
    (hdropped : w'.log.dropped = w.log.dropped + lost.length) (hfed : w'.fed = w.fed ++ new)
    (hnew : ∀ e ∈ new, w'.Holds e ∨ e ∈ lost) (hold : ∀ e, w.Holds e → w'.Holds e ∨ e ∈ lost) :
    w'.Accounted := by
  obtain ⟨counted, hlen, hall⟩ := h
  exact ⟨counted ++ lost, by grind, by grind⟩

lemma Accounted.mono (h : w.Accounted) (hdropped : w'.log.dropped = w.log.dropped)
    (hfed : w'.fed = w.fed) (hold : ∀ e, w.Holds e → w'.Holds e) : w'.Accounted :=
  h.step [] [] hdropped (by rw [hfed, append_nil]) nofun
    fun e he => .inl (hold e he)

end World

namespace SegmentLog

/-- Every event of `es` is pending in `l'`, or was counted since `l`. -/
def Keeps (l : SegmentLog) (es : List Event) (l' : SegmentLog) : Prop :=
  ∃ lost : List Event, l'.dropped = l.dropped + lost.length ∧ es ⊆ lost ++ l'.events

variable {l l' : SegmentLog} {e : Event} {es : List Event}

lemma Keeps.trim (h : l.Keeps es l') : l.Keeps es l'.trimPendingSegments := by
  obtain ⟨lost, hdropped, hsub⟩ := h
  set k := l'.sealed.length - activitySegmentsKept
  have hevents : l'.events = (l'.sealed.take k).flatten ++ l'.trimPendingSegments.events := by
    rw [events, events, trimPendingSegments, ← append_assoc, ← flatten_append, take_append_drop]
  refine ⟨lost ++ (l'.sealed.take k).flatten, ?_, ?_⟩
  · rw [length_append, ← Nat.add_assoc, ← hdropped]
    rfl
  · rwa [append_assoc, ← hevents]

lemma Keeps.seal (h : l.Keeps es l') : l.Keeps es l'.sealSegment := by
  refine Keeps.trim ?_
  simpa [Keeps, events] using h

lemma Keeps.push (h : l.Keeps es l') : l.Keeps (es ++ [e]) (l'.push e) := by
  obtain ⟨lost, hdropped, hsub⟩ := h
  have hevents : (l'.push e).events = l'.events ++ [e] := (append_assoc _ _ _).symm
  exact ⟨lost, hdropped, by grind⟩

lemma keeps_feedSegment : l.Keeps (l.events ++ [e]) (l.feedSegment e) := by
  have hself : l.Keeps l.events l := ⟨[], rfl, refl _⟩
  simp only [feedSegment]
  split_ifs
  · exact ⟨[e], rfl, perm_append_comm.subset⟩
  · exact hself.seal.push.seal
  · exact hself.seal.push
  · exact hself.push.seal
  · exact hself.push

lemma keeps_append : l.Keeps (l.events ++ [{ e with seq := l.seq }]) (l.append e) :=
  keeps_feedSegment (l := { l with seq := l.seq + 1 })

end SegmentLog

/-! ### Where the segments are -/

/-- `whole g` is the segment that begins with number `g`, as far as it has come; nothing has begun
with `n` or later. A file has a beginning of its segment, and what is written next has more. -/
structure Layout (whole : ℕ → Segment) (n : ℕ) (w : World) : Prop where
  first : ∀ g, whole g ≠ [] → (whole g).first = g
  beyond : ∀ g, n ≤ g → whole g = []
  files : ∀ g ∈ w.store.names, w.store.content g ≠ [] ∧ w.store.content g <+: whole g
  sealed : ∀ p ∈ w.sealed, p ≠ [] ∧ whole p.first = p
  opened : w.log.opened ≠ [] →
    whole w.log.openFirst = w.log.opened ∧ ∀ p ∈ w.sealed, p.first ≠ w.log.openFirst
  copy : ∀ f ∈ w.flush, ∀ c ∈ f.copy, c.2 ≠ [] ∧ c.2 <+: whole c.1 ∧
    (c.1 ∈ w.store.names → w.store.content c.1 <+: c.2) ∧ ∀ p ∈ f.sealed, p.first ≠ c.1
  segments : w.log.segments = w.store.names

section Layout

variable {whole : ℕ → Segment} {n : ℕ} {w w' : World} {e : Event}

section

variable (h : Layout whole n w)

include h

lemma Layout.lt {g : ℕ} (hg : whole g ≠ []) : g < n :=
  not_le.mp fun hle => hg (h.beyond g hle)

lemma Layout.succ : Layout whole (n + 1) w :=
  { h with beyond := fun g hg => h.beyond g (Nat.le_of_succ_le hg) }

lemma Layout.of_sealed (hstore : w'.store = w.store)
    (hopened : w'.log.opened = w.log.opened) (hfirst : w'.log.openFirst = w.log.openFirst)
    (hsegments : w'.log.segments = w.log.segments) (hsealed : w'.sealed ⊆ w.sealed)
    (hcopy : ∀ f ∈ w'.flush, ∀ c ∈ f.copy, c.2 ≠ [] ∧ c.2 <+: whole c.1 ∧
      (c.1 ∈ w.store.names → w.store.content c.1 <+: c.2) ∧ ∀ p ∈ f.sealed, p.first ≠ c.1) :
    Layout whole n w' := by
  have ⟨_, _, _, _, _, _, _⟩ := h
  constructor <;> grind

lemma Layout.trim : Layout whole n { w with log := w.log.trimPendingSegments } :=
  h.of_sealed rfl rfl rfl rfl (append_subset.mpr
    ⟨subset_append_left _ _, fun _ hp => mem_append_right _ (drop_subset _ _ hp)⟩) h.copy

lemma Layout.seal (hopen : w.log.opened ≠ []) :
    Layout whole n { w with log := w.log.sealSegment } := by
  obtain ⟨hwhole, -⟩ := h.opened hopen
  let log : SegmentLog :=
    { w.log with sealed := w.log.sealed ++ [w.log.opened], opened := [], openBytes := 0 }
  refine Layout.trim (w := { w with log }) { h with
    sealed := fun p hp => ?_
    opened := fun hne => absurd rfl hne }
  grind [h.sealed p, h.first _, World.sealed]

lemma Layout.whole_name (he : e.seq = n) : whole (w.log.push e).openFirst = w.log.opened ∧
      ∀ p ∈ w.sealed, p.first ≠ (w.log.push e).openFirst := by
  by_cases hnil : w.log.opened = []
  · simp only [SegmentLog.push, hnil, he]
    refine ⟨h.beyond n le_rfl, fun p hp => (h.lt ?_).ne⟩
    rw [(h.sealed p hp).2]
    exact (h.sealed p hp).1
  · simp only [SegmentLog.push, if_neg hnil]
    exact h.opened hnil

lemma Layout.push (he : e.seq = n) :
    Layout (update whole (w.log.push e).openFirst (w.log.opened ++ [e])) (n + 1)
      { w with log := w.log.push e } := by
  obtain ⟨hname, hne⟩ := h.whole_name he
  have hmono (g : ℕ) : whole g <+:
      update whole (w.log.push e).openFirst (w.log.opened ++ [e]) g := by
    grind [update_apply]
  have hfirst : Segment.first (w.log.opened ++ [e]) = (w.log.push e).openFirst ∧
      (w.log.push e).openFirst ≤ n := by
    by_cases hnil : w.log.opened = []
    · simp [SegmentLog.push, hnil, Segment.first, he]
    · rw [Segment.first_append hnil, ← hname, h.first _ (hname ▸ hnil)]
      exact ⟨rfl, (h.lt (hname ▸ hnil)).le⟩
  refine ⟨fun g hg => ?_, fun g hg => ?_, fun g hg => ?_, fun p hp => ?_,
    fun _ => ⟨update_self .., hne⟩, fun f hf c hc => ?_, h.segments⟩
  · grind [update_apply, h.first g]
  · grind [update_apply, h.beyond g]
  · exact (h.files g hg).imp_right fun hpre => hpre.trans (hmono g)
  · rw [update_of_ne (hne p hp)]
    exact h.sealed p hp
  · obtain ⟨hc₁, hc₂, hc₃⟩ := h.copy f hf c hc
    exact ⟨hc₁, hc₂.trans (hmono _), hc₃⟩

end

lemma Layout.setFlush {f : Flushing} (f' : Flushing) (h : Layout whole n w)
    (hflush : w.flush = some f) (hpending : f'.pending ⊆ f.pending) (hsealed : f'.sealed ⊆ f.sealed)
    (hcopy : ∀ c ∈ f'.copy, c ∈ f.copy) : Layout whole n { w with flush := some f' } := by
  refine h.of_sealed rfl rfl rfl rfl ?_ fun f₁ hf₁ c hc => ?_
  · simp only [World.sealed, hflush, Option.elim_some]
    grind
  · cases hf₁
    grind [h.copy f hflush c (hcopy c hc)]

lemma Layout.beginFlush (h : Layout whole n w) (hflush : w.flush = none) : Layout whole n { w with
      log := { w.log with sealed := [], dirty := false }
      flush := some (Activity.beginFlush w.log) } := by
  refine h.of_sealed rfl rfl rfl rfl ?_ fun f hf c hc => ?_
  · simp [World.sealed, hflush, Flushing.pending, Activity.beginFlush]
  · cases hf
    simp only [Activity.beginFlush] at hc
    split_ifs at hc with hdirty
    · cases hc
      obtain ⟨hwhole, hne⟩ := h.opened hdirty.2
      refine ⟨hdirty.2, hwhole ▸ List.prefix_refl _, fun hmem => hwhole ▸ (h.files _ hmem).2, ?_⟩
      exact fun p hp => hne p (mem_append_right _ hp)
    · cases hc

lemma Layout.finish {f : Flushing} {dirty : Bool} (h : Layout whole n w)
    (hflush : w.flush = some f) :
    Layout whole n { w with
      log := SegmentLog.trimPendingSegments { w.log with sealed := f.retry ++ w.log.sealed, dirty }
      flush := none } := by
  refine h.of_sealed rfl rfl rfl rfl (fun p hp => ?_) nofun
  have hp : p ∈ f.retry ++ w.log.sealed := drop_subset _ _ hp
  grind [World.sealed, Flushing.pending]

lemma Layout.write {g : ℕ} {s : Segment} (h : Layout whole n w) (hs : s ≠ [] ∧ s <+: whole g)
    (hcopy : ∀ f ∈ w.flush, ∀ c ∈ f.copy, c.1 ≠ g) : Layout whole n (writeSegment w g s) := by
  refine { h with
    files := fun g' hg' => ?_
    copy := fun f hf c hc => ?_
    segments := congrArg (insert g) h.segments }
  · simp only [writeSegment, Store.write, update_apply] at hg' ⊢
    grind [h.files g']
  · simp only [writeSegment, Store.write]
    grind [h.copy f hf c hc, hcopy f hf c hc]

lemma Layout.setFlush_holds {f : Flushing} (f' : Flushing) (h : Layout whole n w)
    (hflush : w.flush = some f) (hpending : f'.pending = f.pending) (hsealed : f'.sealed ⊆ f.sealed)
    (hcopy : ∀ c ∈ f'.copy, c ∈ f.copy) :
    Layout whole n { w with flush := some f' } ∧
      ∀ e, w.Holds e → World.Holds { w with flush := some f' } e := by
  refine ⟨h.setFlush f' hflush (hpending ▸ refl _) hsealed hcopy, fun e he => ?_⟩
  simpa [World.Holds, World.sealed, hflush, hpending] using he

lemma Layout.write_holds {f f' : Flushing} {g : ℕ} {s : Segment} (hflush : w.flush = some f)
    (hset : Layout whole n { w with flush := some f' }) (hs : s ≠ [] ∧ s <+: whole g)
    (hcopy : ∀ c ∈ f'.copy, c.1 ≠ g) (hold : g ∈ w.store.names → w.store.content g <+: s)
    (hgone : ∀ p ∈ f.pending, p ∈ f'.pending ∨ p = s) :
    Layout whole n { writeSegment w g s with flush := some f' } ∧
      ∀ e, w.Holds e → World.Holds { writeSegment w g s with flush := some f' } e := by
  refine ⟨hset.write hs (by grind), fun e he => ?_⟩
  have hself : (w.store.write g s).content g = s := update_self ..
  have hfiles (g' : ℕ) (hg' : g' ∈ w.store.names) :
      w.store.content g' ⊆ (w.store.write g s).content g' := by
    by_cases heq : g' = g
    · grind [(hold _).subset]
    · simp [Store.write, heq]
  simp only [World.Holds, World.sealed, writeSegment, hflush, Option.elim_some, mem_append,
    mem_flatten, flatten_append] at he ⊢
  grind [Store.write]

lemma Layout.delete {first : ℕ} {rest : List ℕ} (h : Layout whole n w)
    (hsort : w.log.segments.sort = first :: rest)
    (hlong : activitySegmentsKept < w.log.segments.card) :
    Layout whole n (deleteOldest w first) ∧ ∀ e, w.Holds e → (deleteOldest w first).Holds e := by
  rw [h.segments] at hsort hlong
  have hmem : first ∈ w.store.names := (Finset.mem_sort _).mp (hsort ▸ mem_cons_self)
  have hnewer : activitySegmentsKept ≤ (w.store.names.filter (first < ·)).card := by
    have hsorted := hsort ▸ (Finset.sortedLT_sort _).pairwise
    rw [← Finset.card_erase_add_one hmem, Nat.lt_succ_iff] at hlong
    refine hlong.trans (Finset.card_le_card fun g hg => ?_)
    obtain ⟨hne, hg⟩ := Finset.mem_erase.mp hg
    refine Finset.mem_filter.mpr ⟨hg, (pairwise_cons.mp hsorted).1 g (mem_of_ne_of_mem hne ?_)⟩
    rwa [← hsort, Finset.mem_sort]
  refine ⟨{ h with
    files := fun g hg => h.files g (Finset.mem_of_mem_erase hg)
    copy := fun f hf c hc => ?_
    segments := congrArg (Finset.erase · first) h.segments }, fun e he => ?_⟩
  · grind [h.copy f hf c hc, deleteOldest]
  · simp only [World.Holds, deleteOldest, if_pos hnewer]
    rcases he with ⟨g, hg, he⟩ | he | he
    · by_cases heq : g = first
      · exact .inr (.inr (mem_append_right _ (heq ▸ he)))
      · exact .inl ⟨g, Finset.mem_erase.mpr ⟨heq, hg⟩, he⟩
    · exact .inr (.inl he)
    · exact .inr (.inr (mem_append_left _ he))

end Layout

/-! ### Runs -/

/-- A process has started: `load` has left the files, and the newest of them is open or none. -/
structure Started (w : World) : Prop where
  idle : w.flush = none ∧ w.log.sealed = [] ∧ w.fed = []
  segments : w.log.segments = w.store.names
  named : ∀ g ∈ w.store.names,
    g < w.log.seq ∧ w.store.content g ≠ [] ∧ (w.store.content g).first = g
  opened : w.log.opened ≠ [] →
    w.log.openFirst ∈ w.store.names ∧ w.store.content w.log.openFirst = w.log.opened

/-- The invariant. -/
structure Inv (w : World) : Prop where
  layout : ∃ whole, Layout whole w.log.seq w
  accounted : w.Accounted

section Runs

variable {n : ℕ} {w w' : World} {e : Event} {a : Act}

lemma exists_layout_feedSegment {whole : ℕ → Segment} (h : Layout whole n w) (he : e.seq = n) :
    ∃ whole', Layout whole' (n + 1) { w with log := w.log.feedSegment e } := by
  have hpush (l : SegmentLog) : (l.push e).opened ≠ [] := by simp [SegmentLog.push]
  simp only [SegmentLog.feedSegment]
  split_ifs with hsize hfull hlimit hlimit
  · exact ⟨whole, { h.succ with }⟩
  · exact ⟨_, ((h.seal hfull.1).push he).seal (hpush _)⟩
  · exact ⟨_, (h.seal hfull.1).push he⟩
  · exact ⟨_, (h.push he).seal (hpush _)⟩
  · exact ⟨_, h.push he⟩

lemma seq_append (l : SegmentLog) : (l.append e).seq = l.seq + 1 := by
  have hseal (l : SegmentLog) : l.sealSegment.seq = l.seq := rfl
  simp only [SegmentLog.append, SegmentLog.feedSegment]
  split_ifs <;> simp [SegmentLog.push, hseal]

/-- The log takes new events; what is pending behind the running `Flush` is kept or counted. -/
lemma World.Accounted.keeps (new : List Event) {es : List Event} (h : w.Accounted)
    (hkeeps : w.log.Keeps es w'.log) (hstore : w'.store = w.store)
    (hremoved : w'.removed = w.removed) (hfed : w'.fed = w.fed ++ new)
    (hold : ∀ x, x ∈ w.sealed.flatten ++ w.log.opened ∨ x ∈ new →
      x ∈ es ∨ x ∈ (w'.flush.elim [] Flushing.pending).flatten) : w'.Accounted := by
  obtain ⟨lost, hdropped, hsub⟩ := hkeeps
  have hheld (x : Event) (hx : x ∈ w.sealed.flatten ++ w.log.opened ∨ x ∈ new) :
      w'.Holds x ∨ x ∈ lost := by
    have hmem := hold x hx
    have hes := @hsub x
    simp only [Holds, World.sealed, SegmentLog.events, flatten_append, mem_append] at hmem hes ⊢
    tauto
  refine h.step lost new hdropped hfed (fun x hx => hheld x (.inr hx)) fun x hx => ?_
  grind [World.Holds]

lemma Started.inv (h : Started w) : Inv w := by
  have hnamed := h.named
  have hsealed : w.sealed = [] := by simp [World.sealed, h.idle]
  refine ⟨⟨fun g => if g ∈ w.store.names then w.store.content g else [], fun g hg => ?_,
    fun g hg => if_neg fun hmem => ?_, fun g hg => ?_, by simp [hsealed], fun hopen => ?_,
    by simp [h.idle], h.segments⟩, [], Nat.zero_le _, by simp [h.idle]⟩
  · split_ifs at hg ⊢ with hmem
    · exact (hnamed g hmem).2.2
    · exact absurd rfl hg
  · exact absurd (hnamed g hmem).1 (not_lt.mpr hg)
  · rw [if_pos hg]
    exact ⟨(hnamed g hg).2.1, List.prefix_refl _⟩
  · simp [h.opened hopen, hsealed]

/-- Every step of an append, a flush or a failure keeps the invariant. -/
lemma Inv.step (h : Inv w) (hstep : step w a = some w') : Inv w' := by
  obtain ⟨⟨whole, hlayout⟩, haccounted⟩ := h
  cases a with
  | append e =>
    cases hstep
    refine ⟨?_, haccounted.keeps _ SegmentLog.keeps_append rfl rfl rfl fun x hx => ?_⟩
    · obtain ⟨whole', hlayout'⟩ := exists_layout_feedSegment (e := { e with seq := w.log.seq })
        (w := { w with log := { w.log with seq := w.log.seq + 1 } }) { hlayout with } rfl
      rw [seq_append]
      exact ⟨whole', { hlayout' with }⟩
    · simp only [World.sealed, SegmentLog.events, flatten_append, mem_append] at hx ⊢
      tauto
  | flush =>
    cases hflush : w.flush with
    | some f => simp [step, hflush] at hstep
    | none =>
      simp only [step, hflush] at hstep
      cases hstep
      refine ⟨⟨whole, hlayout.beginFlush hflush⟩, haccounted.mono rfl rfl fun e he => ?_⟩
      simpa [World.Holds, World.sealed, hflush, Flushing.pending, beginFlush] using he
  | write ok =>
    cases hflush : w.flush with
    | none => simp [step, hflush] at hstep
    | some f =>
      simp only [step, hflush] at hstep
      split at hstep
      next seg rest hsealed =>
        cases hstep
        have hrest : rest ⊆ f.sealed := hsealed ▸ subset_cons_self _ _
        obtain ⟨hne, hwhole⟩ :=
          hlayout.sealed seg (by simp [World.sealed, hflush, Flushing.pending, hsealed])
        split_ifs
        · have hset := hlayout.setFlush { f with sealed := rest } hflush
            (by grind [Flushing.pending]) hrest fun c hc => hc
          obtain ⟨hlayout', hholds⟩ := hset.write_holds hflush ⟨hne, by rw [hwhole]⟩
            (fun c hc => ((hlayout.copy f hflush c hc).2.2.2 seg (hsealed ▸ mem_cons_self)).symm)
            (fun hmem => by grind [hlayout.files seg.first hmem]) (by grind [Flushing.pending])
          exact ⟨⟨whole, hlayout'⟩, haccounted.mono rfl rfl hholds⟩
        · obtain ⟨hlayout', hholds⟩ := hlayout.setFlush_holds
            { f with sealed := rest, retry := f.retry ++ [seg] } hflush
            (by simp [Flushing.pending, hsealed]) hrest fun c hc => hc
          exact ⟨⟨whole, hlayout'⟩, haccounted.mono rfl rfl hholds⟩
      next first events hsealed hcopy =>
        cases hstep
        obtain ⟨hne, hwhole, hold, -⟩ := hlayout.copy f hflush _ hcopy
        split_ifs
        · have hset := hlayout.setFlush { f with copy := none } hflush (refl _)
            (refl _) nofun
          obtain ⟨hlayout', hholds⟩ := hset.write_holds hflush ⟨hne, hwhole⟩ nofun hold
            fun p hp => .inl hp
          exact ⟨⟨whole, hlayout'⟩, haccounted.mono rfl rfl hholds⟩
        · obtain ⟨hlayout', hholds⟩ := hlayout.setFlush_holds
            { f with copy := none, openFailed := true } hflush rfl (refl _) nofun
          exact ⟨⟨whole, hlayout'⟩, haccounted.mono rfl rfl hholds⟩
      next => cases hstep
  | delete ok =>
    simp only [step] at hstep
    split at hstep
    next f first rest hflush hsort =>
      split_ifs at hstep with hcond hok
      · cases hstep
        obtain ⟨hlayout', hholds⟩ := hlayout.delete hsort hcond.2.2.2
        exact ⟨⟨whole, hlayout'⟩, haccounted.mono rfl rfl hholds⟩
      · cases hstep
        obtain ⟨hlayout', hholds⟩ := hlayout.setFlush_holds { f with stopped := true } hflush
          rfl (refl _) fun c hc => hc
        exact ⟨⟨whole, hlayout'⟩, haccounted.mono rfl rfl hholds⟩
    next => cases hstep
  | finish =>
    simp only [step] at hstep
    split at hstep
    next => cases hstep
    next f hflush =>
      split_ifs at hstep with hcond
      cases hstep
      refine ⟨⟨whole, hlayout.finish hflush⟩, haccounted.keeps []
        (SegmentLog.Keeps.trim ⟨[], rfl, refl _⟩) rfl rfl (append_nil _).symm fun x hx => ?_⟩
      simpa [World.sealed, SegmentLog.events, Flushing.pending, hflush, hcond.1] using hx

/-- From the start of a process on, in every state that any appends, steps of `Flush` and failures
lead to, each event that was passed to `feedSegment` is in a saved file or pending, in a file that
the retention rule removed while enough newer files were there, or counted. -/
theorem events_accounted {w₀ : World} (h₀ : Started w₀) (acts : List Act) (w : World)
    (h : Visits step w₀ acts w) : w.Accounted := by
  obtain ⟨pre, post, rfl, hrun⟩ := h
  exact (run_invariant (fun s a s' hs => hs.step) h₀.inv hrun).accounted

/-- A flush while an event arrives, one in vain, and another event. -/
def interruptedFlushes : List Act :=
  let e := .append { time := ⟨0⟩, node := [], seq := 0 }
  [e, .flush, e, .write true, .finish, .flush, .write false, .finish, e]

/-- One of the three events is saved. -/
theorem events_accounted_of_interruptedFlushes :
    Started {} ∧ ∃ w, Visits step {} interruptedFlushes w ∧ w.fed.length = 3 ∧
      (w.store.content 0).length = 1 ∧ w.flush.isNone ∧ w.Accounted := by
  have hstarted : Started {} := ⟨⟨rfl, rfl, rfl⟩, rfl, nofun, fun h => absurd rfl h⟩
  have hvisits : Visits step {} interruptedFlushes _ := ⟨interruptedFlushes, [], rfl, rfl⟩
  exact ⟨hstarted, _, hvisits, rfl, rfl, rfl, events_accounted hstarted _ _ hvisits⟩

end Runs

end Obstor.Activity
