import Obstor.Fleet.TrafficRing
import Obstor.Go.Text
import Obstor.Lib.Table

/-!
# Capacity history

`capacityState` (`cmd/capacity-history.go`) keeps the totals of the cluster in a ring of 720 hours
and, for each bucket, 168 hourly and 30 daily points. A caller who may see some buckets only is
given the sums over these; the ring of the cluster is then read for the hours that have a sample.

`series_scoped_eq`: two states that agree on the buckets of the scope and on the sampled hours
(`AgreeOn`) give the caller the same series. The walks over the two states stay alike (`Walk.Alike`)
in every hour and at every point (`AgreeOn.stepHour`, `AgreeOn.stepPoint`).
-/

namespace Obstor.Fleet

open Go Lib List

/-! ### The state -/

structure CapacityBucket where
  used : UInt64 := 0
  objects : UInt64 := 0
  buckets : UInt64 := 0
  free : UInt64 := 0
  total : UInt64 := 0
  drivesOnline : UInt64 := 0
  drivesTotal : UInt64 := 0
  nodesOnline : UInt64 := 0
  nodesTotal : UInt64 := 0
  set : Bool := false

structure UsagePoint where
  size : UInt64 := 0
  objects : UInt64 := 0

structure BucketSeries where
  firstHour : ℤ
  hourly : ℕ → UsagePoint
  daily : ℕ → UsagePoint
  dailyDay : ℕ → ℤ

/-- `capacityState`. The order of the entries of `buckets` is the one `range` takes. -/
structure CapacityState where
  capRing : ℕ → CapacityBucket
  epochHour : ℤ
  initialized : Bool
  buckets : Table Text BucketSeries

/-- `capacityScope`: the buckets that are visible, with the hour of their creation. -/
abbrev CapacityScope := Text → Option ℤ

structure CapacitySeries where
  since : Time := .zero
  step : ℤ
  used : List UInt64 := []
  objects : List UInt64 := []
  buckets : List UInt64 := []
  free : List UInt64 := []
  total : List UInt64 := []
  drivesOnline : List UInt64 := []
  drivesTotal : List UInt64 := []
  nodesOnline : List UInt64 := []
  nodesTotal : List UInt64 := []

def capacityHourlySlots : ℤ := 168
def capacityDailySlots : ℤ := 30

/-- `hourDay`; the division of the source truncates. -/
def hourDay (h : ℤ) : ℤ := if h < 0 then (int64 (h - 23)).tdiv 24 else h.tdiv 24

/-- The sums that `bucketHour` and `bucketDay` return. -/
structure Usage where
  used : UInt64 := 0
  objects : UInt64 := 0
  count : UInt64 := 0

def Usage.add (u : Usage) (p : UsagePoint) : Usage :=
  ⟨u.used + p.size, u.objects + p.objects, u.count + 1⟩

namespace CapacityState

def sampled (s : CapacityState) (h : ℤ) : Bool :=
  s.initialized && h ≤ s.epochHour && int64 (s.epochHour - h) < fleetRingSize &&
    (s.capRing (ringSlot h fleetRingSize)).set

/-- The loop that `bucketHour` and `bucketDay` have in common: over the buckets in the scope that
exist at the hour `at'`. -/
def forScoped (s : CapacityState) (scope : CapacityScope) (at' : ℤ)
    (f : σ → Text → BucketSeries → σ) (init : σ) : σ :=
  s.buckets.toList.foldl (fun acc e =>
    match scope e.1 with
    | none => acc
    | some created => if at' < max e.2.firstHour created then acc else f acc e.1 e.2) init

def bucketHour (s : CapacityState) (h : ℤ) (scope : CapacityScope) : Usage :=
  s.forScoped scope h (fun u _ b => u.add (b.hourly (ringSlot h capacityHourlySlots))) {}

/-- `capacityState.bucketDay`, with what it leaves in `carried`. -/
def bucketDay (s : CapacityState) (day at' : ℤ) (scope : CapacityScope)
    (carried : Text → UsagePoint) : Usage × (Text → UsagePoint) :=
  let slot := ringSlot day capacityDailySlots
  s.forScoped scope at'
    (fun acc name b =>
      if b.dailyDay slot = day then
        (acc.1.add (b.daily slot), Function.update acc.2 name (b.daily slot))
      else (acc.1.add (acc.2 name), acc.2)) ({}, carried)

end CapacityState

/-! ### The series -/

/-- The variables of the loops of `series`. -/
structure Walk where
  h : ℤ
  cur : CapacityBucket := {}
  found : Bool := false
  carried : Text → UsagePoint := fun _ => {}
  out : CapacitySeries

def CapacityBucket.withUsage (c : CapacityBucket) (u : Usage) : CapacityBucket :=
  { c with used := u.used, objects := u.objects, buckets := u.count }

/-- The points of the window: where each starts, and the hour it is taken at. -/
def windowPoints (nowHour hours : ℤ) : List (ℤ × ℤ) :=
  if hours = capacityDailySlots * 24 then
    (List.range capacityDailySlots.toNat).map fun (i : ℕ) =>
      let d := hourDay nowHour - capacityDailySlots + 1 + i
      (int64 (d * 24), min (int64 (d * 24 + 23)) nowHour)
  else
    (List.range hours.toNat).map fun (i : ℕ) =>
      let h := int64 (nowHour - (hours - 1) + i)
      (h, h)

/-- The sums of a point; the first one has the start of the series. -/
def CapacitySeries.push (out : CapacitySeries) (start : ℤ) (pt : CapacityBucket) :
    CapacitySeries :=
  { out with
    since := if out.used.length = 0 then .unix (int64 (start * 3600) * 10 ^ 9) else out.since
    used := out.used ++ [pt.used]
    objects := out.objects ++ [pt.objects]
    buckets := out.buckets ++ [pt.buckets] }

/-- What the totals of the cluster have besides. -/
def CapacitySeries.pushTotals (out : CapacitySeries) (pt : CapacityBucket) : CapacitySeries :=
  { out with
    free := out.free ++ [pt.free]
    total := out.total ++ [pt.total]
    drivesOnline := out.drivesOnline ++ [pt.drivesOnline]
    drivesTotal := out.drivesTotal ++ [pt.drivesTotal]
    nodesOnline := out.nodesOnline ++ [pt.nodesOnline]
    nodesTotal := out.nodesTotal ++ [pt.nodesTotal] }

namespace CapacityState

section

variable (s : CapacityState) (daily : Bool) (scope : Option CapacityScope) (w : Walk)

/-- The body of the inner loop: the hour `w.h`. -/
def stepHour : Walk :=
  if !s.sampled w.h ||
      (scope.isSome && !daily && int64 (s.epochHour - w.h) ≥ capacityHourlySlots) then
    { w with h := w.h + 1 }
  else
    let cur := s.capRing (ringSlot w.h fleetRingSize)
    { w with
      h := w.h + 1
      found := true
      cur := match scope with
        | some scope => if !daily then cur.withUsage (s.bucketHour w.h scope) else cur
        | none => cur }

/-- The inner loop goes on from the hour the last point has left; it ends for every hour but the
last of an `int64`. -/
def stepHours (at' : ℤ) (w : Walk) : Walk :=
  (List.range (min at' s.epochHour - w.h + 1).toNat).foldl (fun w _ => s.stepHour daily scope w) w

/-- One point of the window. -/
def stepPoint (point : ℤ × ℤ) : Walk :=
  let w := s.stepHours daily scope point.2 w
  if !w.found then w
  else match scope with
    | some scope =>
      if daily then
        let (usage, carried) := s.bucketDay (hourDay point.1) point.2 scope w.carried
        { w with carried, out := w.out.push point.1 (w.cur.withUsage usage) }
      else { w with out := w.out.push point.1 w.cur }
    | none => { w with out := (w.out.push point.1 w.cur).pushTotals w.cur }

end

/-- `capacityState.series`; the scope `none` is for the totals of the cluster. -/
def series (s : CapacityState) (nowHour hours : ℤ) (scope : Option CapacityScope) :
    CapacitySeries :=
  let daily : Bool := hours = capacityDailySlots * 24
  let out : CapacitySeries := { step := (if daily then 24 else 1) * 3600 * 10 ^ 9 }
  if !s.initialized then out
  else
    ((windowPoints nowHour hours).foldl (s.stepPoint daily scope)
      { h := int64 (s.epochHour - fleetRingSize + 1), out }).out

end CapacityState

/-! ### What a scoped series depends on -/

/-- The states are the same to a caller with this scope. -/
structure AgreeOn (scope : CapacityScope) (a b : CapacityState) : Prop where
  epochHour : a.epochHour = b.epochHour
  initialized : a.initialized = b.initialized
  set : ∀ i, (a.capRing i).set = (b.capRing i).set
  buckets : ∀ name, (scope name).isSome → a.buckets.lookup name = b.buckets.lookup name

variable {scope : CapacityScope} {a b : CapacityState}

section

variable (hagree : AgreeOn scope a b)

include hagree

lemma AgreeOn.sampled (h : ℤ) : a.sampled h = b.sampled h := by
  unfold CapacityState.sampled
  rw [hagree.epochHour, hagree.initialized, hagree.set]

lemma mem_toList_scoped {e : Text × BucketSeries}
    (hscope : (scope e.1).isSome) : e ∈ a.buckets.toList ↔ e ∈ b.buckets.toList := by
  rw [← Table.lookup_eq_some_iff, ← Table.lookup_eq_some_iff, hagree.buckets _ hscope]

lemma AgreeOn.forScoped (at' : ℤ) {f : σ → Text → BucketSeries → σ} (init : σ)
    (hcomm : ∀ acc n m x y, n ≠ m → f (f acc n x) m y = f (f acc m y) n x) :
    a.forScoped scope at' f init = b.forScoped scope at' f init := by
  let visible (e : Text × BucketSeries) : Bool :=
    (scope e.1).any fun created => !decide (at' < max e.2.firstHour created)
  have hfilter (s : CapacityState) : s.forScoped scope at' f init =
      (s.buckets.toList.filter visible).foldl (fun acc e => f acc e.1 e.2) init := by
    rw [foldl_filter]
    unfold CapacityState.forScoped
    congr 1
    funext acc e
    cases hscope : scope e.1 with
    | none => simp [visible, hscope]
    | some created =>
      by_cases hat : at' < max e.2.firstHour created
      all_goals simp only [visible, hscope, hat, Option.any_some, decide_true, decide_false,
        Bool.not_true, Bool.not_false, Bool.false_eq_true, if_true, if_false]
  rw [hfilter, hfilter]
  refine List.Perm.foldl_eq' ?_ ?_ init
  · refine (perm_ext_iff_of_nodup ?_ ?_).mpr fun e => ?_
    · exact (Table.nodup_toList _).filter _
    · exact (Table.nodup_toList _).filter _
    · rw [mem_filter, mem_filter]
      refine and_congr_left fun hvisible => mem_toList_scoped hagree ?_
      exact Option.isSome_of_any hvisible
  · intro x hx y hy acc
    by_cases hname : x.1 = y.1
    · have hlx := Table.lookup_eq_some_iff.mpr (mem_of_mem_filter hx)
      have hly := Table.lookup_eq_some_iff.mpr (mem_of_mem_filter hy)
      rw [hname, hly, Option.some.injEq] at hlx
      rw [hname, hlx]
    · exact hcomm acc x.1 y.1 x.2 y.2 hname

omit hagree in
lemma Usage.add_right_comm (u : Usage) (p q : UsagePoint) : (u.add p).add q = (u.add q).add p := by
  simp [Usage.add, UInt64.add_assoc, UInt64.add_comm p.size, UInt64.add_comm p.objects]

lemma AgreeOn.bucketHour (h : ℤ) : a.bucketHour h scope = b.bucketHour h scope := by
  exact hagree.forScoped h _ fun u _ _ _ _ _ => Usage.add_right_comm u _ _

lemma AgreeOn.bucketDay (day at' : ℤ) (carried : Text → UsagePoint) :
    a.bucketDay day at' scope carried = b.bucketDay day at' scope carried := by
  unfold CapacityState.bucketDay
  refine hagree.forScoped at' _ fun acc n m x y hne => ?_
  by_cases hx : x.dailyDay (ringSlot day capacityDailySlots) = day <;>
    by_cases hy : y.dailyDay (ringSlot day capacityDailySlots) = day <;>
      simp [hx, hy, hne, hne.symm, Usage.add_right_comm, Function.update_comm hne]

end

/-- The loop variables that a scoped series depends on. The totals of the cluster in `cur` are not
among them; for a daily series its sums are not either. -/
structure Walk.Alike (daily : Bool) (w v : Walk) : Prop where
  h : w.h = v.h
  found : w.found = v.found
  carried : w.carried = v.carried
  out : w.out = v.out
  used : daily = false → w.cur.used = v.cur.used
  objects : daily = false → w.cur.objects = v.cur.objects
  buckets : daily = false → w.cur.buckets = v.cur.buckets

variable {daily : Bool} {w v : Walk}

section

variable (hagree : AgreeOn scope a b) (hw : w.Alike daily v)

include hagree hw

/-- One hour of the two walks. -/
lemma AgreeOn.stepHour :
    (a.stepHour daily (some scope) w).Alike daily (b.stepHour daily (some scope) v) := by
  unfold CapacityState.stepHour
  rw [hagree.sampled, hagree.epochHour, hw.h]
  generalize (!b.sampled v.h || _) = skip
  cases skip
  rotate_left
  · exact { hw with h := rfl }
  · refine ⟨rfl, rfl, hw.carried, hw.out, ?_, ?_, ?_⟩
    all_goals
      rintro rfl
      simp only [Bool.not_false, if_true, hagree.bucketHour]
      rfl

lemma AgreeOn.stepHours (at' : ℤ) :
    (a.stepHours daily (some scope) at' w).Alike daily (b.stepHours daily (some scope) at' v) := by
  unfold CapacityState.stepHours
  rw [hagree.epochHour, hw.h]
  exact foldl_rel hw fun _ _ _ _ h => hagree.stepHour h

/-- One point of the two series. -/
lemma AgreeOn.stepPoint (point : ℤ × ℤ) : (a.stepPoint daily (some scope) w point).Alike daily
      (b.stepPoint daily (some scope) v point) := by
  have hloop := hagree.stepHours hw point.2
  unfold CapacityState.stepPoint
  dsimp only
  rw [hloop.found, hloop.carried, hagree.bucketDay]
  by_cases hfound : (b.stepHours daily (some scope) point.2 v).found
  · simp only [hfound, Bool.not_true, Bool.false_eq_true, if_false]
    cases daily with
    | true =>
      refine ⟨hloop.h, rfl, rfl, ?_, nofun, nofun, nofun⟩
      simp only [if_true, hloop.out]
      rfl
    | false =>
      refine ⟨hloop.h, rfl, rfl, ?_, hloop.used, hloop.objects, hloop.buckets⟩
      simp [CapacitySeries.push, hloop.out, hloop.used rfl, hloop.objects rfl, hloop.buckets rfl]
  · simpa [hfound] using hloop

end

/-- A series that is restricted to a scope depends on the buckets in the scope alone, besides the
hours that have a sample. -/
theorem series_scoped_eq (scope : CapacityScope) (a b : CapacityState)
    (hagree : AgreeOn scope a b) (nowHour hours : ℤ) :
    a.series nowHour hours (some scope) = b.series nowHour hours (some scope) := by
  unfold CapacityState.series
  dsimp only
  rw [hagree.initialized, hagree.epochHour]
  congr 1
  refine Walk.Alike.out (foldl_rel ?_ fun point _ _ _ h => hagree.stepPoint h point)
  exact ⟨rfl, rfl, rfl, rfl, fun _ => rfl, fun _ => rfl, fun _ => rfl⟩

/-- A caller who sees the bucket `a` gets its use, with a hidden bucket and other totals of the
cluster as without them. -/
theorem series_scoped_eq_hidden :
    let ring (used : UInt64) : ℕ → CapacityBucket := fun _ => { used, set := true }
    let shown :=
      (∅ : Table Text BucketSeries).insert ['a'] ⟨0, fun _ => ⟨5, 2⟩, fun _ => ⟨5, 2⟩, fun _ => 0⟩
    let a : CapacityState := ⟨ring 7, 500000, true, shown⟩
    let b : CapacityState := ⟨ring 9, 500000, true,
      shown.insert ['b'] ⟨0, fun _ => ⟨9, 1⟩, fun _ => ⟨9, 1⟩, fun _ => 0⟩⟩
    let scope : CapacityScope := fun name => if name = ['a'] then some 0 else none
    (a.bucketHour 500000 scope).used = 5 ∧
      a.series 500000 24 (some scope) = b.series 500000 24 (some scope) := by
  intro ring shown a b scope
  refine ⟨by decide, series_scoped_eq scope a b ⟨rfl, rfl, fun _ => rfl, ?_⟩ 500000 24⟩
  intro name hname
  have hshown : name ≠ ['b'] := by
    rintro rfl
    exact absurd hname (by decide)
  exact ((Table.lookup_insert_eq shown ['b'] name _).trans (if_neg hshown)).symm

end Obstor.Fleet
