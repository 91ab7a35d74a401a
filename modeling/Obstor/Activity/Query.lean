import Obstor.Go.Text
import Obstor.Go.Values
import Obstor.Lib.TopMerge

/-!
# Pages of the activity log

Every node answers a query with its newest matching events (`activityLog.query`,
`cmd/activity.go`), and `mergeActivity` (`cmd/activity-query.go`) puts the answers together. A page
ends with a cursor, the key of its last event, and the next page has the events that are older.
Each node is asked for one event more than a page has, so that the merge sees whether one is left.

Events are ordered by time, node and sequence number (`Event.key`). The table `activityAPIs` is a
parameter.

`activity_pages_complete`: following the cursors returns every matching event of every node once,
newest first. A page is the front of `newest`, the matching events of all nodes in order
(`Distinct.pageAt_eq`, by the merge rule of `Lib.TopMerge`); its cursor leaves exactly what is
behind the page (`Distinct.newest_cursor`), and `Distinct.follow_eq` is the induction on what is
left.
-/

namespace Obstor.Activity

open Go List

/-! ### Events and filters -/

/-- `activityEvent`, without the fields that neither queries nor segments read. -/
structure Event where
  time : Time
  node : Text
  seq : ℕ
  accessKey : Text := []
  source : Text := []
  api : Text := []
  bucket : Text := []
  object : Text := []
  authorizationPrefix : Text := []
  deriving DecidableEq

/-- `ActivityCursor`. -/
structure Cursor where
  time : Time
  node : Text
  seq : ℕ
  deriving DecidableEq

def Event.cursor (e : Event) : Cursor := ⟨e.time, e.node, e.seq⟩

def activityOlder (e : Event) (c : Cursor) : Bool :=
  if e.time ≠ c.time then c.time.after e.time
  else if e.node ≠ c.node then e.node < c.node
  else e.seq < c.seq

inductive ActivityKind
  | object
  | bucket
  | user
  | policy
  | service
  | config
  deriving DecidableEq

/-- An entry of `activityAPIs`. -/
structure ActivityAPI where
  kind : ActivityKind
  group : Text

structure ActivityFilter where
  allBuckets : Bool
  buckets : List Text
  kinds : List ActivityKind
  accessKeys : List Text
  group : Text
  before : Option Cursor
  limit : ℤ

variable (apis : Text → Option ActivityAPI)

def ActivityFilter.matches (f : ActivityFilter) (e : Event) : Bool :=
  match apis e.api with
  | none => false
  | some api =>
    if api.kind ∉ f.kinds then false
    else if (api.kind = .object || api.kind = .bucket) && !f.allBuckets && e.bucket ∉ f.buckets then
      false
    else if f.accessKeys.length > 0 && e.accessKey ∉ f.accessKeys then false
    else if f.group ≠ [] && api.group ≠ f.group then false
    else f.before.all (activityOlder e)

/-! ### Pages -/

structure ActivityPage where
  events : List Event := []
  denied : ℕ := 0
  dropped : ℕ := 0

/-- What a query reads of `activityLog`: the events of its ring, and its counters. -/
structure ActivityLog where
  events : List Event
  denied : ℕ
  dropped : ℕ

variable (S : SliceSort)

def sortActivityNewest (events : List Event) : List Event :=
  S.sort _ (fun a b => activityOlder b a.cursor) events

def ActivityLog.query (l : ActivityLog) (f : ActivityFilter) : ActivityPage :=
  if f.limit ≤ 0 then { denied := l.denied, dropped := l.dropped }
  else
    { events := (sortActivityNewest S (l.events.filter (f.matches apis))).take f.limit.toNat
      denied := l.denied
      dropped := l.dropped }

def mergeActivity (pages : List ActivityPage) (limit : ℤ) : List Event × Option Cursor :=
  if limit < 1 then ([], none)
  else
    let events := sortActivityNewest S (pages.map ActivityPage.events).flatten
    if events.length ≤ limit then (events, none)
    else (events.take limit.toNat, events[limit.toNat - 1]?.map Event.cursor)

/-- The page behind a cursor: all nodes are asked for one event more. -/
def pageAt (logs : List ActivityLog) (f : ActivityFilter) (limit : ℤ) (before : Option Cursor) :
    List Event × Option Cursor :=
  mergeActivity S (logs.map fun l => l.query apis S { f with before, limit := limit + 1 }) limit

/-- The pages from a cursor on, until one has no next; `none` when there are more than `fuel`. -/
def follow (logs : List ActivityLog) (f : ActivityFilter) (limit : ℤ) :
    ℕ → Option Cursor → Option (List (List Event))
  | 0, _ => none
  | fuel + 1, before =>
    match pageAt apis S logs f limit before with
    | (events, none) => some [events]
    | (events, some next) => (follow logs f limit fuel (some next)).map (events :: ·)

/-! ### The order of events -/

/-- Events are ordered by time, node and sequence number. -/
def Cursor.key (c : Cursor) : ℤ ×ₗ Text ×ₗ ℕ := toLex (c.time.nanos, toLex (c.node, c.seq))

def Event.key (e : Event) : ℤ ×ₗ Text ×ₗ ℕ := e.cursor.key

lemma activityOlder_iff (e : Event) (c : Cursor) : activityOlder e c ↔ e.key < c.key := by
  have htime : e.time = c.time ↔ e.time.nanos = c.time.nanos := by
    cases e.time
    cases c.time
    simp
  unfold activityOlder Event.key Cursor.key Event.cursor
  rw [Prod.Lex.toLex_lt_toLex, Prod.Lex.toLex_lt_toLex]
  split_ifs with ht hn
  · have hne : ¬ e.time.nanos = c.time.nanos := fun heq => ht (htime.mpr heq)
    simp [Time.after, hne]
  · simp [hn, htime.mp (not_not.mp ht)]
  · simp [not_not.mp hn, htime.mp (not_not.mp ht)]

/-- `a` stands before `b`, newest first. -/
def newer (a b : Event) : Bool := !activityOlder a b.cursor

lemma newer_iff (a b : Event) : newer a b ↔ b.key ≤ a.key := by
  rw [newer, Bool.not_eq_true', ← Bool.not_eq_true, activityOlder_iff, not_lt]
  rfl

lemma newer_trans (a b c : Event) (hab : newer a b) (hbc : newer b c) : newer a c := by
  rw [newer_iff] at hab hbc ⊢
  exact hbc.trans hab

lemma newer_total (a b : Event) : (newer a b || newer b a) := by
  rw [Bool.or_eq_true, newer_iff, newer_iff]
  exact le_total _ _

variable {S}

lemma sortActivityNewest_perm (events : List Event) :
    (sortActivityNewest S events).Perm events := S.perm _ _ _

lemma pairwise_sortActivityNewest (events : List Event) :
    (sortActivityNewest S events).Pairwise fun a b => newer a b := by
  have hweak : StrictWeak fun a b : Event => activityOlder b a.cursor := by
    constructor
    · intro a b hab
      rw [← Bool.not_eq_true, activityOlder_iff] at *
      exact lt_asymm hab
    · intro a b c hab hbc
      rw [← Bool.not_eq_true, activityOlder_iff, not_lt] at *
      exact le_trans hab hbc
  refine (S.ordered _ _ events hweak).imp fun {a b} hab => ?_
  rw [newer, hab]
  rfl

/-! ### One page -/

variable (S) (logs : List ActivityLog) (f : ActivityFilter)

/-- The events of all nodes that match, in no order. -/
def matching (before : Option Cursor) : List Event :=
  (logs.map fun l => l.events.filter (({ f with before } : ActivityFilter).matches apis)).flatten

/-- These events, newest first. -/
def newest (before : Option Cursor) : List Event :=
  sortActivityNewest S (matching apis logs f before)

/-- No two events have the same node and sequence number. -/
def Distinct : Prop := ((logs.flatMap ActivityLog.events).map fun e => (e.node, e.seq)).Nodup

variable {S} {apis} {logs} {f}

lemma matches_before (before : Option Cursor) (e : Event) :
    ({ f with before } : ActivityFilter).matches apis e =
      (({ f with before := none } : ActivityFilter).matches apis e &&
        before.all (activityOlder e)) := by
  unfold ActivityFilter.matches
  cases apis e.api with
  | none => rfl
  | some api =>
    dsimp only
    split_ifs <;> simp

variable {before : Option Cursor}

lemma mem_matching {e : Event} : e ∈ matching apis logs f before ↔
      e ∈ matching apis logs f none ∧ before.all (activityOlder e) := by
  simp only [matching, mem_flatten, mem_map, exists_exists_and_eq_and, mem_filter]
  constructor
  · rintro ⟨l, hl, he, hmatch⟩
    rw [matches_before, Bool.and_eq_true] at hmatch
    exact ⟨⟨l, hl, he, hmatch.1⟩, hmatch.2⟩
  · rintro ⟨⟨l, hl, he, hmatch⟩, holder⟩
    refine ⟨l, hl, he, ?_⟩
    rw [matches_before, hmatch, holder]
    rfl

variable (apis) in
lemma matching_sublist (before : Option Cursor) :
    (matching apis logs f before).Sublist (logs.flatMap ActivityLog.events) := by
  induction logs with
  | nil => exact .slnil
  | cons l logs ih =>
    exact filter_sublist.append ih

lemma Distinct.nodup_matching (h : Distinct logs) (before : Option Cursor) :
    (matching apis logs f before).Nodup :=
  (Nodup.of_map _ h).sublist (matching_sublist apis before)

lemma Distinct.eq_of_key (h : Distinct logs) {a b : Event}
    (ha : a ∈ matching apis logs f before) (hb : b ∈ matching apis logs f before)
    (hkey : a.key = b.key) : a = b := by
  have hmem : ∀ e ∈ matching apis logs f before, e ∈ logs.flatMap ActivityLog.events :=
    fun e he => (matching_sublist apis before).subset he
  refine inj_on_of_nodup_map h (hmem a ha) (hmem b hb) ?_
  exact congrArg (fun k => ((ofLex (ofLex k).2).1, (ofLex (ofLex k).2).2)) hkey

variable (apis) in
lemma Distinct.pairwise_newest (h : Distinct logs) (before : Option Cursor) :
    (newest apis S logs f before).Pairwise fun a b => b.key < a.key := by
  have hperm := sortActivityNewest_perm (S := S) (matching apis logs f before)
  have hnodup := hperm.nodup_iff.mpr (h.nodup_matching before)
  refine (List.Pairwise.and hnodup (pairwise_sortActivityNewest _)).imp_of_mem ?_
  rintro a b ha hb ⟨hne, hle⟩
  refine lt_of_le_of_ne ((newer_iff a b).mp hle) fun hkey => hne ?_
  exact (h.eq_of_key (hperm.mem_iff.mp hb) (hperm.mem_iff.mp ha) hkey).symm

lemma sorted_perm (g : ActivityLog → List Event) (ls : List ActivityLog) :
    (ls.map fun l => sortActivityNewest S (g l)).flatten.Perm (ls.map g).flatten := by
  induction ls with
  | nil => exact .nil
  | cons l ls ih => exact (sortActivityNewest_perm (g l)).append ih

variable (apis) in
lemma Distinct.pageAt_eq (h : Distinct logs) {limit : ℕ} (hlimit : 1 ≤ limit)
    (before : Option Cursor) :
    pageAt apis S logs f limit before =
      if (newest apis S logs f before).length ≤ limit then (newest apis S logs f before, none)
      else ((newest apis S logs f before).take limit,
        (newest apis S logs f before)[limit - 1]?.map Event.cursor) := by
  let g (l : ActivityLog) : List Event :=
    l.events.filter (({ f with before } : ActivityFilter).matches apis)
  have hquery : (logs.map fun l => l.query apis S { f with before, limit := limit + 1 }).map
      ActivityPage.events =
        (logs.map fun l => sortActivityNewest S (g l)).map (take (limit + 1)) := by
    rw [map_map, map_map]
    refine map_congr_left fun l _ => ?_
    rfl
  have hcut := Lib.take_eq_of_cut newer_trans newer_total (fun l hl => by
      obtain ⟨log, -, rfl⟩ := mem_map.mp hl
      exact pairwise_sortActivityNewest _)
    (fun a ha b hb hab hba => by
      rw [(sorted_perm g logs).mem_iff] at ha hb
      exact h.eq_of_key ha hb (le_antisymm ((newer_iff b a).mp hba) ((newer_iff a b).mp hab)))
    (sortActivityNewest_perm (S := S) ((logs.map fun l => sortActivityNewest S (g l)).map
      (take (limit + 1))).flatten)
    ((sortActivityNewest_perm (S := S) _).trans
      (sorted_perm g logs).symm)
    (pairwise_sortActivityNewest _) (pairwise_sortActivityNewest _)
  unfold pageAt mergeActivity
  rw [if_neg (by omega), hquery]
  change _ = (newest apis S logs f before).take (limit + 1) at hcut
  generalize sortActivityNewest S ((logs.map fun l => sortActivityNewest S (g l)).map
    (take (limit + 1))).flatten = cut at hcut ⊢
  generalize newest apis S logs f before = all at hcut ⊢
  have hlen := congrArg length hcut
  rw [length_take, length_take] at hlen
  rw [Int.toNat_natCast]
  by_cases hle : all.length ≤ limit
  · rw [if_pos (by omega), if_pos hle]
    rw [take_of_length_le (by omega), take_of_length_le (by omega)] at hcut
    rw [hcut]
  · rw [if_neg (by omega), if_neg hle]
    have htake := congrArg (take limit) hcut
    have hlast := congrArg (fun l => l[limit - 1]?) hcut
    simp only [take_take, Nat.min_eq_left (Nat.le_succ limit)] at htake
    simp only [getElem?_take_of_lt (show limit - 1 < limit + 1 by omega)] at hlast
    rw [htake, hlast]

/-- The events behind a cursor are those behind the event that it is from. -/
lemma Distinct.newest_cursor (h : Distinct logs) {n : ℕ} {x : Event}
    (hx : (newest apis S logs f before)[n]? = some x) :
    newest apis S logs f (some x.cursor) = (newest apis S logs f before).drop (n + 1) := by
  obtain ⟨hn, hget⟩ := List.getElem?_eq_some_iff.mp hx
  have hsorted := h.pairwise_newest apis (S := S) (f := f) before
  have hsplit : newest apis S logs f before = (newest apis S logs f before).take n ++
      x :: (newest apis S logs f before).drop (n + 1) := by
    rw [← hget, getElem_cons_drop, take_append_drop]
  have hperm := sortActivityNewest_perm (S := S) (matching apis logs f before)
  have hmem : x ∈ matching apis logs f before := hperm.mem_iff.mp (mem_of_getElem? hx)
  rw [hsplit] at hsorted
  obtain ⟨-, hrest, hbefore⟩ := pairwise_append.mp hsorted
  obtain ⟨hbehind, hrestSorted⟩ := pairwise_cons.mp hrest
  refine List.Perm.eq_of_pairwise ?_
    (pairwise_sortActivityNewest _) (hrestSorted.imp fun hlt => (newer_iff _ _).mpr hlt.le) ?_
  · intro a b ha hb hab hba
    have hb' := hperm.mem_iff.mp (mem_of_mem_drop hb)
    refine h.eq_of_key ?_ (mem_matching.mp hb').1
      (le_antisymm ((newer_iff b a).mp hba) ((newer_iff a b).mp hab))
    exact (mem_matching.mp ((sortActivityNewest_perm _).mem_iff.mp ha)).1
  · refine (sortActivityNewest_perm _).trans ?_
    refine (perm_ext_iff_of_nodup (h.nodup_matching _) ?_).mpr fun e => ?_
    · exact (hperm.nodup_iff.mpr (h.nodup_matching before)).sublist (drop_sublist _ _)
    rw [mem_matching, Option.all_some, activityOlder_iff]
    change _ ∧ e.key < x.key ↔ _
    constructor
    · rintro ⟨he, hlt⟩
      have hmatch : e ∈ newest apis S logs f before := by
        refine hperm.mem_iff.mpr (mem_matching.mpr ⟨he, ?_⟩)
        have hxolder := (mem_matching.mp hmem).2
        cases before with
        | none => rfl
        | some c =>
          rw [Option.all_some, activityOlder_iff] at hxolder ⊢
          exact hlt.trans hxolder
      rw [hsplit, mem_append, mem_cons] at hmatch
      rcases hmatch with hin | rfl | hin
      · exact absurd (hbefore e hin x mem_cons_self) (lt_asymm hlt)
      · exact absurd hlt (lt_irrefl _)
      · exact hin
    · intro he
      exact ⟨(mem_matching.mp (hperm.mem_iff.mp (mem_of_mem_drop he))).1, hbehind e he⟩

/-! ### All pages -/

variable (apis) in
lemma Distinct.follow_eq (h : Distinct logs) {limit : ℕ} (hlimit : 1 ≤ limit)
    (before : Option Cursor) :
    ∃ fuel pages, follow apis S logs f limit fuel before = some pages ∧
      pages.flatten = newest apis S logs f before ∧ ∀ p ∈ pages, p.length ≤ limit := by
  induction hn : (newest apis S logs f before).length using Nat.strongRecOn generalizing before with
  | ind n ih =>
    have hpage := h.pageAt_eq apis (S := S) (f := f) hlimit before
    by_cases hle : (newest apis S logs f before).length ≤ limit
    · rw [if_pos hle] at hpage
      refine ⟨1, [newest apis S logs f before], ?_, append_nil _, ?_⟩
      · rw [follow, hpage]
      · intro p hp
        rwa [mem_singleton.mp hp]
    · rw [if_neg hle] at hpage
      obtain ⟨x, hx⟩ : ∃ x, (newest apis S logs f before)[limit - 1]? = some x :=
        ⟨_, getElem?_eq_getElem (by omega)⟩
      have hrest := h.newest_cursor hx
      rw [Nat.sub_add_cancel hlimit] at hrest
      have hshorter : (newest apis S logs f (some x.cursor)).length < n := by
        rw [hrest, length_drop]
        omega
      obtain ⟨fuel, pages, hfollow, hflat, hlen⟩ := ih _ hshorter _ rfl
      refine ⟨fuel + 1, (newest apis S logs f before).take limit :: pages, ?_, ?_, ?_⟩
      · rw [follow, hpage, hx, Option.map_some]
        dsimp only
        rw [hfollow]
        rfl
      · rw [flatten_cons, hflat, hrest, take_append_drop]
      · intro p hp
        rcases mem_cons.mp hp with rfl | hp
        · exact length_take_le _ _
        · exact hlen p hp

variable (apis) in
/-- A page has no cursor exactly if it has all the events that are left. -/
lemma Distinct.pageAt_next_iff (h : Distinct logs) {limit : ℕ} (hlimit : 1 ≤ limit)
    (before : Option Cursor) :
    (pageAt apis S logs f limit before).2 = none ↔ ∀ e ∈ matching apis logs f before,
      e ∈ (pageAt apis S logs f limit before).1 := by
  have hperm := sortActivityNewest_perm (S := S) (matching apis logs f before)
  rw [h.pageAt_eq apis hlimit before]
  split_ifs with hle
  · exact iff_of_true rfl fun e he => hperm.mem_iff.mpr he
  · refine iff_of_false ?_ fun hall => ?_
    · simp only [Option.map_eq_none_iff, getElem?_eq_none_iff]
      omega
    -- the event that stands after the page is on it
    have hlt : limit < (newest apis S logs f before).length := by omega
    have hsorted := h.pairwise_newest apis (S := S) (f := f) before
    rw [← take_append_drop limit (newest apis S logs f before), pairwise_append] at hsorted
    have hbehind : (newest apis S logs f before)[limit] ∈
        (newest apis S logs f before).drop limit := by
      rw [drop_eq_getElem_cons hlt]
      exact mem_cons_self
    have hpage := hall _ (hperm.mem_iff.mp (getElem_mem hlt))
    exact lt_irrefl _ (hsorted.2.2 _ hpage _ hbehind)

/-- Following the cursors from the first page on comes to an end, and gives every matching event of
every node once, newest first, in pages of no more than `limit`. A page has no cursor exactly if no
matching event is left behind it. -/
theorem activity_pages_complete (apis : Text → Option ActivityAPI) (S : SliceSort)
    (logs : List ActivityLog) (f : ActivityFilter) (limit : ℕ) (hlimit : 1 ≤ limit)
    (hdistinct : Distinct logs) :
    ∃ fuel pages, follow apis S logs f limit fuel none = some pages ∧
      pages.flatten.Perm (matching apis logs f none) ∧
      pages.flatten.Pairwise (fun a b => b.key < a.key) ∧ (∀ p ∈ pages, p.length ≤ limit) ∧
      ∀ before, (pageAt apis S logs f limit before).2 = none ↔
        ∀ e ∈ matching apis logs f before, e ∈ (pageAt apis S logs f limit before).1 := by
  obtain ⟨fuel, pages, hfollow, hflat, hlen⟩ :=
    hdistinct.follow_eq apis hlimit none
  refine ⟨fuel, pages, hfollow, ?_, ?_, hlen, hdistinct.pageAt_next_iff apis hlimit⟩
  · rw [hflat]
    exact sortActivityNewest_perm _
  · rw [hflat]
    exact hdistinct.pairwise_newest apis none

/-- Two nodes with an event at the same time each. -/
theorem activity_pages_complete_two :
    let logs : List ActivityLog := [⟨[⟨.unix 5, ['a'], 0, [], [], [], [], [], []⟩], 0, 0⟩,
      ⟨[⟨.unix 5, ['b'], 0, [], [], [], [], [], []⟩], 0, 0⟩]
    Distinct logs ∧ ∃ fuel pages, follow (fun _ => some ⟨.user, []⟩) .insertion logs
      ⟨true, [], [.user], [], [], none, 0⟩ 1 fuel none = some pages ∧
      pages.flatten.Perm (matching (fun _ => some ⟨.user, []⟩) logs
        ⟨true, [], [.user], [], [], none, 0⟩ none) := by
  intro logs
  have hdistinct : Distinct logs := by
    unfold Distinct
    decide
  obtain ⟨fuel, pages, hfollow, hperm, -⟩ := activity_pages_complete _
    .insertion logs _ 1 (le_refl 1) hdistinct
  exact ⟨hdistinct, fuel, pages, hfollow, hperm⟩

end Obstor.Activity
