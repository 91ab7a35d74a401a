import Obstor.Erasure.CleanRead

/-!
# The calls one reader gets

`Decode` calls `ReadAt` on its readers, one call for each block and reader that is needed. The
readers of `Obstor.Erasure.Decode` are functions; a reader with a position, like the one that
checks hashes while it reads a file from front to back, depends on the order of its calls.
`Erasure.reads` is the record of the `Read`s that a `Decode` makes, and `callsTo` what one slot
gets of them.
-/

namespace Obstor.Coding

open Go Lib List Erasure

/-! ### The record of a `Decode` -/

/-- One `parallelReader.Read`: the offset and the length of the buffers it gives to `ReadAt`, and
what became of each slot. -/
structure BlockRead where
  offset : ℕ
  size : ℕ
  outcomes : List Outcome

def ParallelReader.nextRead (p : ParallelReader) : BlockRead :=
  let size :=
    if p.offset + p.shardSize > p.shardFileSize then p.shardFileSize - p.offset else p.shardSize
  { offset := p.offset
    size := size
    outcomes :=
      if size = 0 then replicate p.slots.length .skipped
      else readSlots p.offset size p.dataBlocks p.slots }

namespace Erasure

variable (e : Erasure) (ρ : RangeOrder)

def loopReads (offset length : ℕ) : ℕ → ℕ → DecodeState → List BlockRead
  | 0, _, _ => []
  | count + 1, block, st =>
    let (blockOffset, blockLength) := e.window offset length block
    if blockLength = 0 then []
    else
      st.reader.nextRead ::
        match e.decodeBlock ρ st blockOffset blockLength with
        | .error _ => []
        | .ok st' => loopReads offset length count (block + 1) st'

def reads (writer : Sink) (readers : List (Option Reader)) (offset length totalLength : ℤ)
    (prefer : List Bool) : List BlockRead :=
  if offset < 0 ∨ length < 0 then []
  else if offset + length > totalLength then []
  else if length = 0 then []
  else
    let reader := e.startReader readers offset.toNat totalLength.toNat prefer
    let startBlock := offset.toNat / e.blockSize
    let endBlock := (offset.toNat + length.toNat) / e.blockSize
    e.loopReads ρ offset.toNat length.toNat (endBlock + 1 - startBlock) startBlock
      ⟨reader, writer, 0, none⟩

end Erasure

/-- The `ReadAt` calls to slot `k`: the offset and the length of the buffer of each. -/
def callsTo (k : ℕ) (rs : List BlockRead) : List (ℕ × ℕ) :=
  (rs.filter fun r => r.outcomes.getD k .skipped ≠ .skipped).map fun r => (r.offset, r.size)

lemma callsTo_cons_of_skipped {k : ℕ} {r : BlockRead}
    (h : r.outcomes.getD k .skipped = .skipped) (rs : List BlockRead) :
    callsTo k (r :: rs) = callsTo k rs := by
  rw [callsTo, filter_cons_of_neg (by rw [h]; decide)]
  rfl

lemma callsTo_cons_of_called {k : ℕ} {r : BlockRead}
    (h : r.outcomes.getD k .skipped ≠ .skipped) (rs : List BlockRead) :
    callsTo k (r :: rs) = (r.offset, r.size) :: callsTo k rs := by
  rw [callsTo, filter_cons_of_pos (by simpa using h)]
  rfl

/-! ### Which slots are called -/

section Slots

variable {offset size need : ℕ} {slots : List ReadSlot}

/-- The number of slots before `k` that have a reader. -/
def availableBefore (slots : List ReadSlot) (k : ℕ) : ℕ :=
  (slots.take k).countP fun s => s.reader.isSome

/-- Slot `k` has a reader, and is among the first `need` that have one. -/
def Due (need : ℕ) (slots : List ReadSlot) (k : ℕ) : Prop :=
  (readerAt slots k).isSome ∧ availableBefore slots k < need

lemma availableBefore_cons_succ (s : ReadSlot) (slots : List ReadSlot) (k : ℕ) :
    availableBefore (s :: slots) (k + 1) =
      availableBefore slots k + if s.reader.isSome then 1 else 0 := by
  rw [availableBefore, take_succ_cons, countP_cons]
  rfl

lemma outcome_eq_skipped_iff {s : ReadSlot} :
    s.outcome offset size = .skipped ↔ s.reader = none := by
  constructor
  · intro h
    by_contra hne
    obtain ⟨r, hr⟩ := Option.ne_none_iff_exists'.mp hne
    exact outcome_ne_skipped hr h
  · exact outcome_of_reader_none

lemma Due.called (k : ℕ) (h : Due need slots k) :
    (readSlots offset size need slots).getD k .skipped ≠ .skipped := by
  induction slots generalizing need k with
  | nil => simp [Due, readerAt] at h
  | cons s slots ih =>
    obtain ⟨hreader, hbefore⟩ := h
    cases need with
    | zero => exact absurd hbefore (Nat.not_lt_zero _)
    | succ need =>
      cases k with
      | zero =>
        intro hskip
        have hnone : s.reader = none := outcome_eq_skipped_iff.mp hskip
        simp [readerAt, hnone] at hreader
      | succ k =>
        refine ih k ⟨hreader, ?_⟩
        rw [availableBefore_cons_succ] at hbefore
        rcases ho : s.outcome offset size with _ | err | bytes
        · rw [Outcome.isGot_skipped, if_neg Bool.false_ne_true]
          omega
        · rw [Outcome.isGot_failed, if_neg Bool.false_ne_true]
          omega
        · obtain ⟨r, hr, -⟩ := outcome_eq_got ho
          rw [hr] at hbefore
          simpa [Outcome.isGot] using hbefore

lemma due_or_none_of_called (k : ℕ)
    (h : (readSlots offset size need slots).getD k .skipped ≠ .skipped) :
    Due need (afterCalls (calls offset size need slots)) k ∨
      readerAt (afterCalls (calls offset size need slots)) k = none := by
  induction slots generalizing need k with
  | nil => cases need <;> exact absurd rfl h
  | cons s slots ih =>
    cases need with
    | zero =>
      refine absurd ?_ h
      rw [getD_eq_getElem?_getD]
      rcases hk : (readSlots offset size 0 (s :: slots))[k]? with _ | o
      · rfl
      · exact outcome_eq_skipped_of_zero (mem_of_getElem? hk)
    | succ need =>
      rw [calls, readSlots, zip_cons_cons, afterCalls, map_cons, ← afterCalls]
      cases k with
      | zero =>
        rcases ho : s.outcome offset size with _ | err | bytes
        · exact absurd ho h
        · exact Or.inr rfl
        · obtain ⟨r, hr, -⟩ := outcome_eq_got ho
          exact Or.inl ⟨by simp [readerAt, ReadSlot.after, hr], Nat.succ_pos need⟩
      | succ k =>
        refine (ih k h).imp_left fun hdue => ⟨hdue.1, ?_⟩
        have hbefore := hdue.2
        rw [availableBefore_cons_succ]
        -- a reader before the slot is left only where it gave its bytes
        rcases ho : s.outcome offset size with _ | err | bytes
        · have hnone : s.reader = none := outcome_eq_skipped_iff.mp ho
          simpa [ReadSlot.after, hnone, ho] using hbefore
        · simpa [ReadSlot.after, ho] using hbefore
        · obtain ⟨r, hr, -⟩ := outcome_eq_got ho
          simpa [ReadSlot.after, hr, ho, Outcome.isGot] using hbefore

lemma skipped_of_none (k : ℕ) (h : readerAt slots k = none) :
    (readSlots offset size need slots).getD k .skipped = .skipped := by
  induction slots generalizing need k with
  | nil => cases need <;> rfl
  | cons s slots ih =>
    cases need with
    | zero =>
      cases k with
      | zero => rfl
      | succ k => exact ih k h
    | succ need =>
      cases k with
      | zero => exact outcome_of_reader_none h
      | succ k => exact ih k h

lemma readerAt_afterCalls_of_none (k : ℕ) (h : readerAt slots k = none) :
    readerAt (afterCalls (calls offset size need slots)) k = none := by
  rw [readerAt, afterCalls, getElem?_map]
  rcases hz : (calls offset size need slots)[k]? with _ | ⟨s, o⟩
  · rfl
  · have hs : slots[k]? = some s := (getElem?_zip_eq_some.mp hz).1
    have hnone : s.reader = none := by rwa [readerAt, hs] at h
    cases o with
    | failed err => rfl
    | skipped => exact hnone
    | got bytes => exact hnone

end Slots

/-! ### The calls of the loop -/

/-- The offset and the length of a call for the shard of block `j` of `n` bytes. -/
def shardCall (e : Erasure) (n j : ℕ) : ℕ × ℕ := (j * e.shardSize, e.blockShardSize n j)

/-- The calls for the shards of `m` blocks from `j` on. -/
def shardCalls (e : Erasure) (n j m : ℕ) : List (ℕ × ℕ) :=
  (range' j m).map (shardCall e n)

lemma shardCalls_succ (e : Erasure) (n j m : ℕ) :
    shardCalls e n j (m + 1) = shardCall e n j :: shardCalls e n (j + 1) m := rfl

section Loop

variable {e : Erasure} {data : Bytes} {j k : ℕ} (ρ : RangeOrder)

lemma AtBlock.nextRead_eq {p : ParallelReader} (h : AtBlock e data.length j p)
    (hj : j * e.blockSize < data.length) :
    p.nextRead = ⟨j * e.shardSize, e.blockShardSize data.length j,
      readSlots (j * e.shardSize) (e.blockShardSize data.length j) e.dataBlocks p.slots⟩ := by
  have hsize := clip_shardSize hj
  have hpos := blockShardSize_pos hj
  unfold ParallelReader.nextRead
  simp [h.offset, h.shardSize, h.shardFileSize, h.dataBlocks, hsize, if_neg hpos.ne']

variable {st : Erasure.DecodeState}

lemma reader_of_decodeBlock {st' : DecodeState} {o l : ℕ}
    (h : e.decodeBlock ρ st o l = .ok st') : st'.reader = (st.reader.read ρ).1 := by
  unfold decodeBlock at h
  rcases hread : st.reader.read ρ with ⟨p', bufs, err⟩
  simp only [hread] at h
  split at h
  · cases h
  · split at h
    · cases h
    · split at h
      · cases h
      · cases h
        rfl

/-- One block is decoded: the slots have advanced by its calls. -/
lemma AtBlock.round {st' : DecodeState} {o l : ℕ}
    (h : AtBlock e data.length j st.reader) (hj : j * e.blockSize < data.length)
    (hok : e.decodeBlock ρ st o l = .ok st') :
    st'.reader.slots = afterCalls (blockCalls e data j st.reader.slots) ∧
      ((j + 1) * e.blockSize ≤ data.length → AtBlock e data.length (j + 1) st'.reader) := by
  have hread := h.read_eq ρ hj
  have hreader := reader_of_decodeBlock ρ hok
  simp only at hread
  split at hread
  · rw [hread] at hreader
    rw [hreader]
    exact ⟨rfl, fun hnext => h.next hnext _ _⟩
  · obtain ⟨r, hr, -⟩ := decodeBlock_of_read_nil ρ hread
    rw [hok] at hr
    cases hr

/-- What slot `k` gets from block `j` on: no calls, if it has no reader; calls for consecutive
blocks from `j` on, if it is due; the same from some later block on in any case. -/
structure Consecutive (e : Erasure) (n stop k j : ℕ) (slots : List ReadSlot)
    (cs : List (ℕ × ℕ)) : Prop where
  lost : readerAt slots k = none → cs = []
  due : Due e.dataBlocks slots k → ∃ m, j + m ≤ stop ∧ cs = shardCalls e n j m
  later : ∃ first m, j ≤ first ∧ first + m ≤ stop ∧ cs = shardCalls e n first m

variable {stop : ℕ} {slots : List ReadSlot}

lemma Consecutive.nil {n : ℕ} (hj : j ≤ stop) : Consecutive e n stop k j slots [] :=
  ⟨fun _ => rfl, fun _ => ⟨0, hj, rfl⟩, j, 0, le_rfl, hj, rfl⟩

lemma Consecutive.blocks {n : ℕ} {cs : List (ℕ × ℕ)} (h : Consecutive e n stop k j slots cs) :
    ∃ first m, first + m ≤ stop ∧ cs = shardCalls e n first m := by
  obtain ⟨first, m, -, hm, hcs⟩ := h.later
  exact ⟨first, m, hm, hcs⟩

lemma Consecutive.read {rs : List BlockRead} (hj : j < stop)
    (h : Consecutive e data.length stop k (j + 1) (afterCalls (blockCalls e data j slots))
      (callsTo k rs)) :
    Consecutive e data.length stop k j slots
      (callsTo k (⟨j * e.shardSize, e.blockShardSize data.length j,
        readSlots (j * e.shardSize) (e.blockShardSize data.length j) e.dataBlocks slots⟩ ::
          rs)) := by
  by_cases hcalled : (readSlots (j * e.shardSize) (e.blockShardSize data.length j) e.dataBlocks
      slots).getD k .skipped = .skipped
  · rw [callsTo_cons_of_skipped hcalled]
    refine ⟨fun hnone => h.lost (readerAt_afterCalls_of_none k hnone),
      fun hdue => absurd hcalled hdue.called, ?_⟩
    obtain ⟨first, m, hfirst, hm, hcs⟩ := h.later
    exact ⟨first, m, by omega, hm, hcs⟩
  · rw [callsTo_cons_of_called hcalled]
    have hrest : ∃ m, j + 1 + m ≤ stop ∧ callsTo k rs = shardCalls e data.length (j + 1) m := by
      rcases due_or_none_of_called k hcalled with hdue | hnone
      · exact h.due hdue
      · exact ⟨0, hj, h.lost hnone⟩
    obtain ⟨m, hm, hcs⟩ := hrest
    have hall : shardCall e data.length j :: callsTo k rs = shardCalls e data.length j (m + 1) := by
      rw [hcs, shardCalls_succ]
    exact ⟨fun hnone => absurd (skipped_of_none k hnone) hcalled,
      fun _ => ⟨m + 1, by omega, hall⟩, j, m + 1, le_rfl, by omega, hall⟩

lemma consecutive_loopReads {offset length : ℕ} (hrange : offset + length ≤ data.length)
    (hlen : 0 < length) {count : ℕ} (hcount : j + count = (offset + length) / e.blockSize + 1)
    (hstart : offset / e.blockSize ≤ j) (hj : j ≤ stopBlock e offset length)
    (h : j < stopBlock e offset length → AtBlock e data.length j st.reader) :
    Consecutive e data.length (stopBlock e offset length) k j st.reader.slots
      (callsTo k (e.loopReads ρ offset length count j st)) := by
  induction count generalizing j st with
  | zero => exact Consecutive.nil hj
  | succ count ih =>
    rw [loopReads]
    rcases hj.eq_or_lt with rfl | hlt
    · -- the range ended with the block before
      have hzero : (e.window offset length (stopBlock e offset length)).2 = 0 :=
        window_stopBlock hlen (by omega)
      simp only [hzero, if_true]
      exact Consecutive.nil le_rfl
    · have hne := window_ne_zero hlen hstart hlt
      have hjd : j * e.blockSize < data.length :=
        ((lt_blockCount_iff e.blockSize_pos).mp hlt).trans_le hrange
      simp only [if_neg hne, (h hlt).nextRead_eq hjd]
      apply Consecutive.read hlt
      rcases hround : e.decodeBlock ρ st (e.window offset length j).1
          _ with r | st'
      · exact Consecutive.nil hlt
      · obtain ⟨hslots, hnext⟩ := (h hlt).round ρ hjd hround
        rw [← hslots]
        refine ih (by omega) (by omega) hlt fun hlt' => hnext ?_
        exact ((lt_blockCount_iff e.blockSize_pos).mp hlt').le.trans hrange

lemma callsTo_reads {offset length : ℕ} (hrange : offset + length ≤ data.length)
    (hlen : 0 < length) (writer : Sink) (readers : List (Option Reader)) (prefer : List Bool)
    (k : ℕ) :
    ∃ first m, first + m ≤ stopBlock e offset length ∧
      callsTo k (e.reads ρ writer readers offset length data.length prefer) =
        shardCalls e data.length first m := by
  have hdiv : offset / e.blockSize ≤ (offset + length) / e.blockSize :=
    Nat.div_le_div_right (by omega)
  rw [reads, if_neg (by omega), if_neg (by omega), if_neg (by omega), Int.toNat_natCast,
    Int.toNat_natCast, Int.toNat_natCast, startReader_eq]
  exact (consecutive_loopReads ρ hrange hlen (by omega) le_rfl (start_le_stopBlock hlen)
    fun _ => ⟨rfl, rfl, rfl, rfl⟩).blocks

end Loop

end Obstor.Coding
