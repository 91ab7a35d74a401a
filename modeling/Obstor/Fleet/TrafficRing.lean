import Obstor.Go.Values

/-!
# Traffic history

`ringBuf` (`cmd/fleet-store.go`) keeps the traffic of the last 720 hours in a ring, one slot for
each hour. Reports may come late or in any order: `advance` scrolls the ring to a newer hour and
clears the slots in between, and `fold` adds a report to its slot. `merge` puts the reports of a
live ring on top of a saved one.

`Tracks` ties the slots of a ring to the list of all reports, whatever their order.

It is kept by a report of any hour (`Tracks.fold`), and a series is read off the list
(`Tracks.series_eq`). So `history_order_independent`: the series of a merge of two rings depends on
the reports of both and not on their order.
-/

namespace Obstor.Fleet

open Go List Function

/-! ### The ring -/

/-- `Deltas`. A slot of the ring has the same four counters, in a `BWBucket` and an `OpsBucket`. -/
@[ext] structure Deltas where
  inBytes : UInt64
  outBytes : UInt64
  reads : UInt64
  writes : UInt64
  deriving DecidableEq

instance : Zero Deltas := ⟨⟨0, 0, 0, 0⟩⟩

instance : Add Deltas :=
  ⟨fun a b =>
    ⟨a.inBytes + b.inBytes, a.outBytes + b.outBytes, a.reads + b.reads, a.writes + b.writes⟩⟩

/-- Counters wrap at `2 ^ 64`, and the order in which they are added does not matter. -/
instance : AddCommMonoid Deltas where
  add_assoc _ _ _ := Deltas.ext (UInt64.add_assoc ..) (UInt64.add_assoc ..) (UInt64.add_assoc ..)
    (UInt64.add_assoc ..)
  zero_add _ := Deltas.ext (UInt64.zero_add _) (UInt64.zero_add _) (UInt64.zero_add _)
    (UInt64.zero_add _)
  add_zero _ := Deltas.ext (UInt64.add_zero _) (UInt64.add_zero _) (UInt64.add_zero _)
    (UInt64.add_zero _)
  add_comm _ _ := Deltas.ext (UInt64.add_comm ..) (UInt64.add_comm ..) (UInt64.add_comm ..)
    (UInt64.add_comm ..)
  nsmul := nsmulRec

def fleetRingSize : ℤ := 30 * 24

def fleetMetricsWindowHours (hours : ℤ) : ℕ :=
  if hours = 24 ∨ hours = 7 * 24 ∨ hours = 30 * 24 then hours.toNat else 24

/-- `ringBuf`, and `trafficState`, which has the same fields. -/
structure RingBuf where
  slots : ℕ → Deltas := fun _ => 0
  epochHour : ℤ := 0
  firstHour : ℤ := 0
  initialized : Bool := false

/-- `ringSlot`; `%` in the source truncates. -/
def ringSlot (h size : ℤ) : ℕ := ((h.tmod size + size).tmod size).toNat

namespace RingBuf

/-- The loop of `advance` that clears `n` slots from the hour `h` on. -/
def clear (slots : ℕ → Deltas) (h : ℤ) (n : ℕ) : ℕ → Deltas :=
  (List.range n).foldl (fun s (i : ℕ) => Function.update s (ringSlot (h + i) fleetRingSize) 0) slots

def advance (r : RingBuf) (now : ℤ) : RingBuf :=
  if !r.initialized then { r with epochHour := now, firstHour := now, initialized := true }
  else
    let gap := int64 (now - r.epochHour)
    if gap ≤ 0 then r
    else if gap ≥ fleetRingSize then
      { r with slots := fun _ => 0, epochHour := now, firstHour := now }
    else { r with slots := clear r.slots (r.epochHour + 1) gap.toNat, epochHour := now }

def fold (r : RingBuf) (d : Deltas) (now : ℤ) : RingBuf :=
  let r := r.advance now
  if int64 (r.epochHour - now) ≥ fleetRingSize then r
  else
    let idx := ringSlot now fleetRingSize
    { r with
      firstHour := if now < r.firstHour then now else r.firstHour
      slots := Function.update r.slots idx (r.slots idx + d) }

def sinceHour (r : RingBuf) : ℤ := max r.firstHour (int64 (r.epochHour - fleetRingSize + 1))

/-- `ringBuf.series`: the buckets of the window, the oldest first. -/
def series (r : RingBuf) (windowHours : ℤ) : List Deltas :=
  let w := fleetMetricsWindowHours windowHours
  if !r.initialized then replicate w 0
  else (List.range w).map fun (k : ℕ) =>
    r.slots (ringSlot (int64 (r.epochHour - (w - 1) + k)) fleetRingSize)

/-- `ringBuf.merge`, of a live ring with a saved one: the hours of the live ring are folded in. -/
def merge (live saved : RingBuf) : RingBuf :=
  if !live.initialized then saved
  else (List.range (live.epochHour - live.sinceHour + 1).toNat).foldl
    (fun r (i : ℕ) => r.fold (live.slots (ringSlot (live.sinceHour + i) fleetRingSize))
      (live.sinceHour + i)) saved

end RingBuf

/-! ### The reports -/

abbrev Report := Deltas × ℤ

def ringOf (reports : List Report) : RingBuf := reports.foldl (fun r x => r.fold x.1 x.2) {}

/-- The sum of all that is reported for an hour. -/
def total (reports : List Report) (h : ℤ) : Deltas :=
  ((reports.filter (·.2 = h)).map Prod.fst).sum

/-- The totals of the window that ends at the newest hour. -/
def totals (reports : List Report) (windowHours : ℤ) : List Deltas :=
  let w := fleetMetricsWindowHours windowHours
  match (reports.map Prod.snd).max? with
  | none => replicate w 0
  | some newest => (List.range w).map fun (k : ℕ) => total reports (newest - (w - 1) + k)

lemma total_append (xs ys : List Report) (h : ℤ) :
    total (xs ++ ys) h = total xs h + total ys h := by
  unfold total
  rw [filter_append, map_append, sum_append]

variable {xs : List Report}

lemma total_eq_zero {h : ℤ} (hxs : ∀ x ∈ xs, x.2 ≠ h) : total xs h = 0 := by
  unfold total
  rw [filter_eq_nil_iff.mpr fun x hx => by simpa using hxs x hx]
  rfl

lemma total_singleton (d : Deltas) (now h : ℤ) : total [(d, now)] h = if now = h then d else 0 := by
  unfold total
  split_ifs with hnow
  · simp [hnow]
  · simp [hnow]

lemma total_perm {ys : List Report} (hperm : xs.Perm ys) (h : ℤ) : total xs h = total ys h :=
  ((hperm.filter _).map _).sum_eq

lemma totals_perm {ys : List Report} (hperm : xs.Perm ys) (windowHours : ℤ) :
    totals xs windowHours = totals ys windowHours := by
  have hmax : (xs.map Prod.snd).max? = (ys.map Prod.snd).max? := by
    have hmem : ∀ h, h ∈ xs.map Prod.snd ↔ h ∈ ys.map Prod.snd := fun _ => (hperm.map _).mem_iff
    refine Option.ext fun m => ?_
    simp only [max?_eq_some_iff, hmem]
  unfold totals
  rw [hmax]
  simp only [total_perm hperm]

/-! ### Slots -/

lemma ringSlot_eq (h : ℤ) : ringSlot h fleetRingSize = (h % 720).toNat := by
  have hsize : fleetRingSize = 720 := rfl
  rw [ringSlot, hsize]
  have hmod := Int.tmod_eq_emod (a := h) (b := 720)
  have hpos : 0 ≤ h.tmod 720 + 720 := by
    rw [hmod]
    split_ifs <;> omega
  rw [Int.tmod_eq_emod_of_nonneg hpos, hmod]
  split_ifs <;> omega

lemma ringSlot_inj {a b : ℤ} (hab : a - b < 720) (hba : b - a < 720) :
    ringSlot a fleetRingSize = ringSlot b fleetRingSize ↔ a = b := by
  rw [ringSlot_eq, ringSlot_eq]
  omega

namespace RingBuf

lemma clear_apply (slots : ℕ → Deltas) (h : ℤ) (n : ℕ) (j : ℕ) : clear slots h n j =
      if ∃ i < n, ringSlot (h + (i : ℕ)) fleetRingSize = j then 0 else slots j := by
  induction n with
  | zero => simp [clear]
  | succ n ih =>
    have hsucc : clear slots h (n + 1) =
        Function.update (clear slots h n) (ringSlot (h + n) fleetRingSize) 0 := by
      unfold clear
      rw [range_succ, foldl_append]
      rfl
    rw [hsucc, update_apply, ih]
    simp only [Nat.lt_succ_iff_lt_or_eq, or_and_right, exists_or, exists_eq_left]
    by_cases hj : j = ringSlot (h + n) fleetRingSize
    · simp [hj]
    · simp [hj, Ne.symm hj]

/-- The ring has what was reported for the hours of its window. Nothing there is reported for an
hour before the first one. -/
structure Tracks (r : RingBuf) (reports : List Report) : Prop where
  initialized : r.initialized = true
  epoch_mem : r.epochHour ∈ reports.map Prod.snd
  le_epoch : ∀ x ∈ reports, x.2 ≤ r.epochHour
  first_le : r.firstHour ≤ r.epochHour
  first_lo : -2 ^ 62 < r.firstHour
  le_first : ∀ x ∈ reports, r.epochHour - 720 < x.2 → r.firstHour ≤ x.2
  slots : ∀ h, r.epochHour - 720 < h → h ≤ r.epochHour →
    r.slots (ringSlot h fleetRingSize) = total reports h

/-- No hour is so far from zero that a difference wraps. -/
def Bounded (reports : List Report) : Prop := ∀ x ∈ reports, -2 ^ 62 < x.2 ∧ x.2 < 2 ^ 62

variable {r : RingBuf} {reports : List Report} {d : Deltas} {now : ℤ}

section

variable (h : r.Tracks reports) (hb : Bounded reports)

include h hb

lemma Tracks.bounded_epoch : -2 ^ 62 < r.epochHour ∧ r.epochHour < 2 ^ 62 := by
  obtain ⟨x, hx, heq⟩ := mem_map.mp h.epoch_mem
  exact heq ▸ hb x hx

/-- What `advance` does to a ring that is running: its window ends at the later hour. -/
lemma Tracks.advance (hlo : -2 ^ 62 < now) (hhi : now < 2 ^ 62) :
    (r.advance now).initialized ∧ (r.advance now).epochHour = max r.epochHour now ∧
      (r.advance now).firstHour ≤ (r.advance now).epochHour ∧ -2 ^ 62 < (r.advance now).firstHour ∧
      (∀ x ∈ reports, (r.advance now).epochHour - 720 < x.2 → (r.advance now).firstHour ≤ x.2) ∧
      ∀ k, (r.advance now).epochHour - 720 < k → k ≤ (r.advance now).epochHour →
        (r.advance now).slots (ringSlot k fleetRingSize) = total reports k := by
  have hepoch := h.bounded_epoch hb
  have hgap : int64 (now - r.epochHour) = now - r.epochHour := int64_eq_self (by omega) (by omega)
  have hfirst := h.first_le
  unfold RingBuf.advance
  simp only [h.initialized, Bool.not_true, Bool.false_eq_true, if_false, hgap]
  have hsize : fleetRingSize = 720 := rfl
  split_ifs with hle hge
  · exact ⟨h.initialized, by omega, hfirst, h.first_lo, h.le_first, h.slots⟩
  · refine ⟨rfl, by simp only; omega, le_refl _, hlo, ?_, ?_⟩
    · intro x hx hlt
      have := h.le_epoch x hx
      simp only at hlt
      omega
    · intro k hk _
      simp only at hk
      refine (total_eq_zero fun x hx heq => ?_).symm
      have := h.le_epoch x hx
      omega
  · refine ⟨rfl, by simp only; omega, by simp only; omega, h.first_lo, ?_, ?_⟩
    · intro x hx hlt
      simp only at hlt
      exact h.le_first x hx (by omega)
    · intro k hk hk'
      simp only at hk hk'
      simp only [clear_apply]
      split_ifs with hcleared
      · obtain ⟨i, hi, hslot⟩ := hcleared
        have heq := (ringSlot_inj (by omega) (by omega)).mp hslot
        refine (total_eq_zero fun x hx hxk => ?_).symm
        have := h.le_epoch x hx
        omega
      · refine h.slots k (by omega) ?_
        by_contra hgt
        refine hcleared ⟨(k - r.epochHour - 1).toNat, by omega, ?_⟩
        congr 1
        omega

lemma Tracks.fold (hlo : -2 ^ 62 < now)
    (hhi : now < 2 ^ 62) : (r.fold d now).Tracks (reports ++ [(d, now)]) := by
  obtain ⟨hinit, hmax, hfirst, hfirstlo, hlefirst, hslots⟩ := h.advance hb hlo hhi
  have hepoch := h.bounded_epoch hb
  unfold RingBuf.fold
  generalize r.advance now = r' at hinit hmax hfirst hfirstlo hlefirst hslots
  have hmem : r'.epochHour ∈ (reports ++ [(d, now)]).map Prod.snd := by
    rw [map_append, hmax]
    rcases max_choice r.epochHour now with hm | hm
    · rw [hm]
      exact mem_append_left _ h.epoch_mem
    · rw [hm]
      exact mem_append_right _ mem_cons_self
  have hle : ∀ x ∈ reports ++ [(d, now)], x.2 ≤ r'.epochHour := by
    intro x hx
    rw [hmax]
    rcases mem_append.mp hx with hx | hx
    · exact (h.le_epoch x hx).trans (le_max_left _ _)
    · rw [mem_singleton.mp hx]
      exact le_max_right _ _
  have hnow : now ≤ r'.epochHour := hmax ▸ le_max_right _ _
  have hlate : int64 (r'.epochHour - now) = r'.epochHour - now :=
    int64_eq_self (by omega) (by omega)
  have hsize : fleetRingSize = 720 := rfl
  simp only [hlate]
  split_ifs with hdrop hearlier
  · -- the report is too late: its hour is not in the window
    refine ⟨hinit, hmem, hle, hfirst, hfirstlo, ?_, ?_⟩
    · intro x hx hlt
      rcases mem_append.mp hx with hx | hx
      · exact hlefirst x hx hlt
      · rw [mem_singleton.mp hx] at hlt
        omega
    · intro k hk hk'
      rw [hslots k hk hk', total_append, total_singleton, if_neg (by omega), add_zero]
  all_goals
    refine ⟨hinit, hmem, hle, by omega, by omega, ?_, ?_⟩
    · intro x hx hlt
      rcases mem_append.mp hx with hx | hx
      · have := hlefirst x hx hlt
        simp only at this ⊢
        omega
      · have heq : x.2 = now := congrArg Prod.snd (mem_singleton.mp hx)
        simp only
        omega
    · intro k hk hk'
      simp only at hk hk' ⊢
      rw [total_append, total_singleton]
      by_cases hkn : k = now
      · rw [if_pos hkn.symm, hkn, update_self, ← hkn, hslots k hk hk']
      · have hslot : ringSlot k fleetRingSize ≠ ringSlot now fleetRingSize := fun heq =>
          hkn ((ringSlot_inj (by omega) (by omega)).mp heq)
        rw [update_of_ne hslot, if_neg (Ne.symm hkn), add_zero, hslots k hk hk']

end

lemma tracks_first (hlo : -2 ^ 62 < now) : (({} : RingBuf).fold d now).Tracks [(d, now)] := by
  have hlate : ¬ int64 (now - now) ≥ fleetRingSize := by
    rw [sub_self]
    decide
  have hfold : ({} : RingBuf).fold d now =
      ⟨Function.update (fun _ => 0) (ringSlot now fleetRingSize) (0 + d), now, now, true⟩ := by
    unfold RingBuf.fold RingBuf.advance
    simp only [Bool.not_false, if_true, if_neg hlate, lt_irrefl, if_false]
  rw [hfold]
  refine ⟨rfl, mem_cons_self, ?_, le_refl _, hlo, ?_, ?_⟩
  · intro x hx
    rw [mem_singleton.mp hx]
  · intro x hx _
    rw [mem_singleton.mp hx]
  · intro k hk hk'
    simp only at hk hk' ⊢
    rw [total_singleton]
    by_cases hkn : k = now
    · rw [if_pos hkn.symm, hkn, update_self, zero_add]
    · have hslot : ringSlot k fleetRingSize ≠ ringSlot now fleetRingSize := fun heq =>
        hkn ((ringSlot_inj (by omega) (by omega)).mp heq)
      rw [update_of_ne hslot, if_neg (Ne.symm hkn)]

lemma Tracks.foldl {xs : List Report} (h : r.Tracks reports) (hb : Bounded (reports ++ xs)) :
    (xs.foldl (fun r x => r.fold x.1 x.2) r).Tracks (reports ++ xs) := by
  induction xs generalizing r reports with
  | nil => rwa [append_nil]
  | cons x xs ih =>
    have hx := hb x (mem_append_right _ mem_cons_self)
    have hstep := h.fold (d := x.1) (fun y hy => hb y (mem_append_left _ hy)) hx.1 hx.2
    rw [append_cons] at hb ⊢
    exact ih hstep hb

lemma tracks_ringOf (hne : reports ≠ []) (hb : Bounded reports) :
    (ringOf reports).Tracks reports := by
  obtain ⟨x, xs, rfl⟩ := exists_cons_of_ne_nil hne
  exact (tracks_first (hb x mem_cons_self).1).foldl hb

lemma Tracks.max?_eq (h : r.Tracks reports) : (reports.map Prod.snd).max? = some r.epochHour := by
  rw [max?_eq_some_iff]
  refine ⟨h.epoch_mem, ?_⟩
  intro k hk
  obtain ⟨x, hx, rfl⟩ := mem_map.mp hk
  exact h.le_epoch x hx

lemma windowHours_le (windowHours : ℤ) : fleetMetricsWindowHours windowHours ≤ 720 := by
  unfold fleetMetricsWindowHours
  split_ifs <;> omega

lemma Tracks.series_eq (h : r.Tracks reports) (hb : Bounded reports) (windowHours : ℤ) :
    r.series windowHours = totals reports windowHours := by
  have hepoch := h.bounded_epoch hb
  have hw := windowHours_le windowHours
  unfold RingBuf.series totals
  simp only [h.initialized, h.max?_eq, Bool.not_true, Bool.false_eq_true, if_false]
  refine map_congr_left fun k hk => ?_
  rw [mem_range] at hk
  rw [int64_eq_self (by omega) (by omega)]
  exact h.slots _ (by omega) (by omega)

end RingBuf

open RingBuf

variable {reports : List Report}

lemma series_ringOf (hb : Bounded reports) (windowHours : ℤ) :
    (ringOf reports).series windowHours = totals reports windowHours := by
  by_cases hne : reports = []
  · subst hne
    rfl
  · exact (tracks_ringOf hne hb).series_eq hb windowHours

/-! ### Merging -/

/-- The hours of a live ring, as the reports that `merge` makes of them. -/
def hourReports (live : RingBuf) : List Report :=
  (List.range (live.epochHour - live.sinceHour + 1).toNat).map fun i =>
    (live.slots (ringSlot (live.sinceHour + (i : ℕ)) fleetRingSize), live.sinceHour + (i : ℕ))

lemma merge_eq {live saved : RingBuf} (h : live.initialized) :
    live.merge saved = (hourReports live).foldl (fun r x => r.fold x.1 x.2) saved := by
  unfold RingBuf.merge hourReports
  rw [h, foldl_map]
  rfl

lemma total_hourReports (live : RingBuf) (h : ℤ) : total (hourReports live) h =
      if live.sinceHour ≤ h ∧ h ≤ live.epochHour then live.slots (ringSlot h fleetRingSize)
      else 0 := by
  split_ifs with hin
  · have hsplit : (List.range (live.epochHour - live.sinceHour + 1).toNat).filter
        (fun i : ℕ => live.sinceHour + (i : ℤ) = h) = [(h - live.sinceHour).toNat] := by
      rw [filter_congr (q := fun i => i = (h - live.sinceHour).toNat)
        fun i _ => decide_eq_decide.mpr (by omega)]
      rw [filter_eq, count_eq_one_of_mem nodup_range (mem_range.mpr (by omega))]
      rfl
    unfold total hourReports
    rw [filter_map]
    change (((List.range _).filter (fun i : ℕ => live.sinceHour + (i : ℤ) = h)).map _ |>.map _).sum = _
    rw [hsplit]
    simp only [map_cons, map_nil, sum_cons, sum_nil, add_zero]
    congr 2
    omega
  · refine total_eq_zero fun x hx heq => hin ?_
    obtain ⟨i, hi, rfl⟩ := mem_map.mp hx
    rw [mem_range] at hi
    omega

variable {r : RingBuf}

lemma RingBuf.Tracks.sinceHour_eq (h : r.Tracks reports)
    (hb : Bounded reports) : r.sinceHour = max r.firstHour (r.epochHour - 719) := by
  have hepoch := h.bounded_epoch hb
  have hsize : fleetRingSize = 720 := rfl
  rw [RingBuf.sinceHour, int64_eq_self (by omega) (by omega)]
  congr 1
  omega

lemma RingBuf.Tracks.total_hourReports
    (h : r.Tracks reports) (hb : Bounded reports) {k : ℤ} (hk : r.epochHour - 720 < k) :
    total (hourReports r) k = total reports k := by
  rw [Fleet.total_hourReports, h.sinceHour_eq hb]
  split_ifs with hin
  · exact h.slots k hk hin.2
  · refine (total_eq_zero fun x hx heq => hin ?_).symm
    have hle := h.le_epoch x hx
    have hfirst := h.le_first x hx (by omega)
    omega

lemma le_epoch_of_mem_hourReports {x : Report} (hx : x ∈ hourReports r) : x.2 ≤ r.epochHour := by
  obtain ⟨i, hi, rfl⟩ := mem_map.mp hx
  rw [mem_range] at hi
  omega

lemma RingBuf.Tracks.epoch_mem_hourReports
    (h : r.Tracks reports) (hb : Bounded reports) : ∃ x ∈ hourReports r, x.2 = r.epochHour := by
  have hfirst := h.first_le
  have hsince := h.sinceHour_eq hb
  refine ⟨_, mem_map_of_mem (mem_range.mpr
    (show (r.epochHour - r.sinceHour).toNat < _ by omega)), ?_⟩
  omega

lemma bounded_hourReports {live : List Report} (hne : live ≠ []) (hl : Bounded live) :
    Bounded (hourReports (ringOf live)) := by
  have hlive := tracks_ringOf hne hl
  have hepoch := hlive.bounded_epoch hl
  have hlo := hlive.first_lo
  intro x hx
  obtain ⟨i, hi, rfl⟩ := mem_map.mp hx
  rw [mem_range] at hi
  have hsince : (ringOf live).firstHour ≤ (ringOf live).sinceHour := le_max_left _ _
  constructor
  · omega
  · omega

lemma series_merge {live saved : List Report} (hl : Bounded live) (hs : Bounded saved)
    (windowHours : ℤ) :
    ((ringOf live).merge (ringOf saved)).series windowHours = totals (saved ++ live) windowHours := by
  by_cases hne : live = []
  · subst hne
    rw [append_nil]
    exact series_ringOf hs windowHours
  have hlive := tracks_ringOf hne hl
  have hmerge : (ringOf live).merge (ringOf saved) = ringOf (saved ++ hourReports (ringOf live)) := by
    rw [merge_eq hlive.initialized]
    exact foldl_append.symm
  have hbounded : Bounded (saved ++ hourReports (ringOf live)) := by
    intro x hx
    exact (mem_append.mp hx).elim (hs x) (bounded_hourReports hne hl x)
  obtain ⟨y, hy, hyhour⟩ := hlive.epoch_mem_hourReports hl
  have hmerged := tracks_ringOf (ne_nil_of_mem (mem_append_right saved hy)) hbounded
  have hle : (ringOf live).epochHour ≤ _ := hyhour ▸ hmerged.le_epoch y (mem_append_right _ hy)
  -- the newest hour is the same, and so is the sum for every hour of its window
  have hmax : ((saved ++ live).map Prod.snd).max? =
      some (ringOf (saved ++ hourReports (ringOf live))).epochHour := by
    rw [max?_eq_some_iff]
    constructor
    · obtain ⟨z, hz, hzhour⟩ := mem_map.mp hmerged.epoch_mem
      rw [map_append, mem_append]
      rcases mem_append.mp hz with hz | hz
      · exact .inl (hzhour ▸ mem_map_of_mem hz)
      · have hsame := le_antisymm (hzhour ▸ le_epoch_of_mem_hourReports hz) hle
        exact .inr (hsame ▸ hlive.epoch_mem)
    · intro k hk
      obtain ⟨z, hz, rfl⟩ := mem_map.mp hk
      rcases mem_append.mp hz with hz | hz
      · exact hmerged.le_epoch z (mem_append_left _ hz)
      · exact (hlive.le_epoch z hz).trans hle
  rw [hmerge, series_ringOf hbounded]
  unfold totals
  rw [hmax, hmerged.max?_eq]
  refine map_congr_left fun k hk => ?_
  have hw := windowHours_le windowHours
  rw [total_append, total_append, hlive.total_hourReports hl (by omega)]

/-- The series are the totals of what was reported, in a live ring and after a merge with a saved
one; so no order of the reports matters. -/
theorem history_order_independent (live saved : List Report) (hl : Bounded live)
    (hs : Bounded saved) (windowHours : ℤ) :
    (ringOf live).series windowHours = totals live windowHours ∧
      ((ringOf live).merge (ringOf saved)).series windowHours = totals (saved ++ live) windowHours ∧
      ∀ live' saved', live.Perm live' → saved.Perm saved' →
        (ringOf live').series windowHours = (ringOf live).series windowHours ∧
        ((ringOf live').merge (ringOf saved')).series windowHours =
          ((ringOf live).merge (ringOf saved)).series windowHours := by
  refine ⟨series_ringOf hl _, series_merge hl hs _, fun live' saved' hlive hsaved => ?_⟩
  have hl' : Bounded live' := fun x hx => hl x (hlive.mem_iff.mpr hx)
  have hs' : Bounded saved' := fun x hx => hs x (hsaved.mem_iff.mpr hx)
  rw [series_ringOf hl, series_ringOf hl', series_merge hl hs, series_merge hl' hs']
  exact ⟨totals_perm hlive.symm _, totals_perm (hsaved.append hlive).symm _⟩

/-- A late report, and a saved ring from another day. -/
theorem history_order_independent_late : Bounded [(⟨1, 0, 0, 0⟩, 100), (⟨2, 0, 0, 0⟩, 99)] ∧
      ((ringOf [(⟨1, 0, 0, 0⟩, 100), (⟨2, 0, 0, 0⟩, 99)]).merge
        (ringOf [(⟨4, 0, 0, 0⟩, -5)])).series 24 =
        totals [(⟨4, 0, 0, 0⟩, -5), (⟨1, 0, 0, 0⟩, 100), (⟨2, 0, 0, 0⟩, 99)] 24 := by
  have hl : Bounded [(⟨1, 0, 0, 0⟩, 100), (⟨2, 0, 0, 0⟩, 99)] := by
    simp [Bounded]
  exact ⟨hl, (history_order_independent _ _ hl (by simp [Bounded]) 24).2.1⟩

end Obstor.Fleet
