import Obstor.Erasure.ReadBlock

/-!
# What was encoded is decoded

`decodeLoop_rule` is the rule for the loop of `Decode`: a property of the slots, the caller's
readers and the error that every block with enough shards keeps holds in the end, when the range is
written; otherwise `Decode` returns an error. The step lemma is `LoopAt.round`.

`decode_encode`: any range of what was encoded is decoded from any `D` shard files that can be read.
It is the rule with the slots that read shards (`decode_spec`) for the files that `Encode` has
written (`reads_of_encode`).
-/

namespace Obstor.Coding

open Go Lib List Erasure

/-! ### `writeDataBlocks` -/

lemma writeLoop_spec (dst : Sink) (bs : List Bytes) (o w t : ℕ) :
    (∃ dst', writeLoop dst bs o w t = (dst', t + (slice o w bs.flatten).length, none) ∧
      dst'.out = dst.out ++ slice o w bs.flatten ∧ (dst.room = none → dst'.room = none)) ∨
    (∃ dst' err, writeLoop dst bs o w t = (dst', 0, some err) ∧ dst.room ≠ none) := by
  induction bs generalizing dst o w t with
  | nil => exact Or.inl ⟨dst, by simp [writeLoop], by simp, id⟩
  | cons b bs ih =>
    rw [writeLoop, flatten_cons]
    by_cases hskip : o ≥ b.length
    · rw [if_pos hskip, slice_append_right w _ hskip]
      exact ih dst _ w t
    have hlen : (b.drop o).length = b.length - o := length_drop
    rw [if_neg hskip, slice_append_left w _ (by omega)]
    by_cases hlast : w < (b.drop o).length
    · -- the rest of the range lies in this block
      have hw : slice o w b ++ slice 0 (w - (b.length - o)) bs.flatten = (b.drop o).take w := by
        rw [Nat.sub_eq_zero_of_le (by omega), slice_zero, append_nil]
        rfl
      have hlw : ((b.drop o).take w).length = w := by
        rw [length_take]
        omega
      rw [hw]
      simp only [if_pos hlast]
      rcases dst.write_cases ((b.drop o).take w) with
        ⟨dst', hd, hout, hroom⟩ | ⟨dst', err, hd, hroom⟩
      · simp only [hd]
        exact Or.inl ⟨dst', by rw [hlw], hout, hroom⟩
      · simp only [hd]
        exact Or.inr ⟨dst', err, rfl, hroom⟩
    · have hw : slice o w b = b.drop o := take_of_length_le (by omega)
      simp only [if_neg hlast]
      rcases dst.write_cases (b.drop o) with ⟨dst', hd, hout, hroom⟩ | ⟨dst', err, hd, hroom⟩
      · simp only [hd]
        rw [hw, ← hlen]
        rcases ih dst' 0 (w - (b.drop o).length) (t + (b.drop o).length) with
          ⟨dst'', heq, hout', hkeep⟩ | ⟨dst'', err, heq, hfail⟩
        · refine Or.inl ⟨dst'', ?_, ?_, fun h => hkeep (hroom h)⟩
          · simp only [heq, length_append]
            rw [add_assoc]
          · rw [hout', hout, append_assoc]
        · exact Or.inr ⟨dst'', err, heq, fun h => hfail (hroom h)⟩
      · simp only [hd]
        exact Or.inr ⟨dst', err, rfl, hroom⟩

variable {e : Erasure}

/-- The data blocks are written as the range of the block, or the writer has failed. -/
lemma writeDataBlocks_spec {blk : Bytes} {code bufs : List Bytes}
    (hcode : e.Codeword blk code) (hlen : bufs.length = code.length)
    (hbufs : bufs.take e.dataBlocks = code.take e.dataBlocks) (dst : Sink) {o l : ℕ}
    (hol : o + l ≤ blk.length) :
    (∃ dst', writeDataBlocks dst bufs e.dataBlocks o l = (dst', l, none) ∧
      dst'.out = dst.out ++ slice o l blk ∧ (dst.room = none → dst'.room = none)) ∨
    (∃ dst' err, writeDataBlocks dst bufs e.dataBlocks o l = (dst', 0, some err) ∧
      dst.room ≠ none) := by
  have henough : ¬ bufs.length < e.dataBlocks := by
    rw [hlen, hcode.length, shards]
    omega
  obtain ⟨pad, hpad⟩ := hcode.flatten_data
  have hslice : slice o l (bufs.take e.dataBlocks).flatten = slice o l blk := by
    rw [hbufs, hpad, slice_append_of_le pad hol]
  have hlength : (slice o l blk).length = l := by
    rw [slice_length]
    omega
  have heq : writeDataBlocks dst bufs e.dataBlocks o l =
      writeLoop dst (bufs.take e.dataBlocks) o l 0 := by
    rw [writeDataBlocks, if_neg (by omega), if_neg henough, Int.toNat_natCast, Int.toNat_natCast]
  have hspec := writeLoop_spec dst (bufs.take e.dataBlocks) o l 0
  rwa [hslice, hlength, zero_add, ← heq] at hspec

/-! ### One round -/

section Round

variable {e : Erasure} {data : Bytes} {j o l : ℕ} {st : Erasure.DecodeState} (ρ : RangeOrder)

/-- The error a `Read` of block `j` reports along with its shards. -/
abbrev blockHealErr (e : Erasure) (data : Bytes) (j : ℕ) (slots : List ReadSlot) : Option Err :=
  healErr (readSlots (j * e.shardSize) (e.blockShardSize data.length j) e.dataBlocks slots)

lemma healErr_cases (outcomes : List Outcome) :
    healErr outcomes = none ∨ healErr outcomes = some .fileNotFound ∨
      healErr outcomes = some .fileCorrupt := by
  unfold healErr
  split_ifs <;> simp

lemma decodeBlock_ok (h : StandsAt e data j st.reader) (hj : j * e.blockSize < data.length)
    (hcan : e.dataBlocks ≤ readable e data j st.reader.slots)
    (hol : o + l ≤ (block e.blockSize j data).length) :
    (∃ st', e.decodeBlock ρ st o l = .ok st' ∧
      st'.sink.out = st.sink.out ++ slice (j * e.blockSize + o) l data ∧
      (st.sink.room = none → st'.sink.room = none) ∧
      st'.bytesWritten = st.bytesWritten + l ∧
      st'.derr = st.derr.or (blockHealErr e data j st.reader.slots) ∧
      st'.reader.slots = afterCalls (blockCalls e data j st.reader.slots) ∧
      st'.reader.orgReaders =
        dropFailed st.reader.orgReaders (blockCalls e data j st.reader.slots) ∧
      ((j + 1) * e.blockSize ≤ data.length → StandsAt e data (j + 1) st'.reader)) ∨
    (∃ r, e.decodeBlock ρ st o l = .error r ∧ r.err ≠ none ∧ st.sink.room ≠ none) := by
  have hcode := codeword_block hj
  obtain ⟨p', bufs, hread, hpart, hpresent, hslots, horg, hnext⟩ := h.read_ok ρ hj hcan
  obtain ⟨dec, hdec, hlen, hdata⟩ := decodeDataBlocks_ok hcode hpart hpresent
  have hblk : slice o l (block e.blockSize j data) = slice (j * e.blockSize + o) l data :=
    slice_block data (hol.trans (by rw [block_length]; omega))
  have hpos : bufs.length > 0 := by
    rw [hpart.length_eq, hcode.length, shards]
    have := e.dataBlocks_pos
    omega
  unfold decodeBlock
  simp only [hread, hdec, if_neg (fun hc : bufs.length = 0 ∧ _ => hpos.ne' hc.1)]
  rcases writeDataBlocks_spec hcode hlen hdata st.sink hol with
    ⟨dst', hw, hout, hroom⟩ | ⟨dst', err, hw, hroom⟩
  · simp only [hw]
    refine Or.inl ⟨_, rfl, by rw [← hblk]; exact hout, hroom, rfl, ?_, hslots, horg, hnext⟩
    show (if _ then _ else _) = _
    rcases healErr_cases (readSlots (j * e.shardSize) (e.blockShardSize data.length j)
      e.dataBlocks st.reader.slots) with hh | hh | hh
    · simp [blockHealErr, hh]
    · simp [blockHealErr, hh, hpos, errorsIs]
    · simp [blockHealErr, hh, hpos, errorsIs]
  · simp only [hw]
    exact Or.inr ⟨_, rfl, by simp, hroom⟩

lemma decodeBlock_of_read_nil {p' : ParallelReader} {err : Option Err}
    (hread : st.reader.read ρ = (p', [], err)) :
    ∃ r, e.decodeBlock ρ st o l = .error r ∧ r.err ≠ none := by
  have hpos := e.dataBlocks_pos
  unfold decodeBlock
  simp only [hread]
  by_cases herr : err = none
  · -- the reduced error was nil; the missing buffers are noticed when they are written
    have hdec : e.decodeDataBlocks [] = .ok [] := rfl
    have hw : writeDataBlocks st.sink [] e.dataBlocks o l =
        (st.sink, 0, some (.new 0 s!"too few blocks: have {0}, need {e.dataBlocks}")) := by
      rw [writeDataBlocks, if_neg (by omega), if_pos (by simpa using hpos)]
      rfl
    simp only [herr, hdec, hw]
    exact ⟨_, rfl, by simp⟩
  · exact ⟨_, if_pos ⟨rfl, herr⟩, herr⟩

lemma decodeBlock_short (h : StandsAt e data j st.reader) (hj : j * e.blockSize < data.length)
    (hshort : readable e data j st.reader.slots < e.dataBlocks) :
    ∃ r, e.decodeBlock ρ st o l = .error r ∧ r.err ≠ none := by
  obtain ⟨p', err, hread⟩ := h.read_short ρ hj hshort
  exact decodeBlock_of_read_nil ρ hread

end Round

/-! ### The blocks of a range -/

section Window

variable (e : Erasure) (offset length : ℕ)

/-- The first byte of the range that is not in a block before `j`. -/
def reached (j : ℕ) : ℕ := max offset (min (j * e.blockSize) (offset + length))

/-- The block behind the last one of the range. -/
def stopBlock : ℕ := blockCount e.blockSize (offset + length)

variable {e offset length} {j : ℕ}

lemma stopBlock_eq (hlen : 0 < length) :
    stopBlock e offset length = (offset + length) / e.blockSize +
      if (offset + length) % e.blockSize = 0 then 0 else 1 := by
  rw [stopBlock, ← ceilFrac_eq e.blockSize_pos, ceilFrac, if_neg e.blockSize_pos.ne']
  by_cases h : (offset + length) % e.blockSize = 0
  · rw [if_pos h, if_neg (fun hc => hc.2 h)]
  · rw [if_neg h, if_pos ⟨by omega, h⟩]

lemma reached_start : reached e offset length (offset / e.blockSize) = offset := by
  have := Nat.div_mul_le_self offset e.blockSize
  unfold reached
  omega

lemma reached_stop : reached e offset length (stopBlock e offset length) = offset + length := by
  have := le_mul_blockCount e.blockSize_pos (offset + length)
  unfold reached stopBlock
  rw [mul_comm]
  omega

lemma start_le_stopBlock (hlen : 0 < length) :
    offset / e.blockSize ≤ stopBlock e offset length := by
  apply le_of_lt
  rw [stopBlock, lt_blockCount_iff e.blockSize_pos]
  have := Nat.div_mul_le_self offset e.blockSize
  omega

lemma window_of_lt (hlen : 0 < length) (hstart : offset / e.blockSize ≤ j)
    (hj : j < stopBlock e offset length) :
    e.window offset length j = (reached e offset length j - j * e.blockSize,
        reached e offset length (j + 1) - reached e offset length j) ∧
      j * e.blockSize ≤ reached e offset length j ∧
      reached e offset length j < reached e offset length (j + 1) ∧
      reached e offset length (j + 1) ≤ (j + 1) * e.blockSize := by
  have hb := e.blockSize_pos
  have hj' : j * e.blockSize < offset + length := (lt_blockCount_iff hb).mp hj
  have hend : j ≤ (offset + length) / e.blockSize := (Nat.le_div_iff_mul_le hb).mpr hj'.le
  have hso := Nat.div_add_mod offset e.blockSize
  have hsl := Nat.div_add_mod (offset + length) e.blockSize
  have hro := Nat.mod_lt offset hb
  have hrl := Nat.mod_lt (offset + length) hb
  rw [mul_comm] at hso hsl
  have hnext : (j + 1) * e.blockSize = j * e.blockSize + e.blockSize := Nat.succ_mul _ _
  unfold window reached
  generalize offset / e.blockSize = s at *
  generalize (offset + length) / e.blockSize = t at *
  generalize offset % e.blockSize = ro at *
  generalize (offset + length) % e.blockSize = rl at *
  have hmul : ∀ {k k' : ℕ}, k < k' → k * e.blockSize + e.blockSize ≤ k' * e.blockSize := by
    intro k k' hk
    rw [← Nat.succ_mul]
    exact Nat.mul_le_mul_right _ hk
  rw [hnext]
  rcases hstart.eq_or_lt with rfl | hsj
  · -- the first block
    rcases hend.eq_or_lt with rfl | hlt
    · rw [if_pos rfl]
      refine ⟨Prod.ext ?_ ?_, ?_, ?_, ?_⟩ <;> omega
    · have := hmul hlt
      rw [if_neg hlt.ne, if_pos rfl]
      refine ⟨Prod.ext ?_ ?_, ?_, ?_, ?_⟩ <;> omega
  · have := hmul hsj
    rw [if_neg (hsj.trans_le hend).ne, if_neg hsj.ne']
    rcases hend.eq_or_lt with rfl | hlt
    · -- the last block
      rw [if_pos rfl]
      refine ⟨Prod.ext ?_ ?_, ?_, ?_, ?_⟩ <;> omega
    · have := hmul hlt
      rw [if_neg hlt.ne]
      refine ⟨Prod.ext ?_ ?_, ?_, ?_, ?_⟩ <;> omega

lemma window_ne_zero (hlen : 0 < length) (hstart : offset / e.blockSize ≤ j)
    (hj : j < stopBlock e offset length) : (e.window offset length j).2 ≠ 0 := by
  obtain ⟨hwin, -, hpos, -⟩ := window_of_lt hlen hstart hj
  rw [hwin]
  exact (Nat.sub_pos_of_lt hpos).ne'

lemma window_stopBlock (hlen : 0 < length)
    (hend : stopBlock e offset length ≤ (offset + length) / e.blockSize) :
    (e.window offset length (stopBlock e offset length)).2 = 0 := by
  have hstop : stopBlock e offset length = _ := stopBlock_eq hlen
  have hmod : (offset + length) % e.blockSize = 0 := by
    by_contra hne
    rw [if_neg hne] at hstop
    omega
  rw [if_pos hmod, add_zero] at hstop
  have hdiv := Nat.div_add_mod (offset + length) e.blockSize
  have hlt : offset / e.blockSize < (offset + length) / e.blockSize := by
    rw [Nat.div_lt_iff_lt_mul e.blockSize_pos, mul_comm]
    omega
  unfold window
  rw [hstop, if_neg hlt.ne, if_neg hlt.ne', if_pos rfl]
  exact hmod

end Window

/-! ### The loop -/

section Loop

variable {e : Erasure} {data : Bytes} {offset length : ℕ} {writer : Sink}
  {Inv : ℕ → List ReadSlot → List (Option Reader) → Option Err → Prop}

section

variable (e : Erasure) (data : Bytes) (offset length : ℕ) (writer : Sink)
  (Inv : ℕ → List ReadSlot → List (Option Reader) → Option Err → Prop)

/-- What holds when the loop of `Decode` comes to block `j`: the range is written up to there, the
reader stands at the block, and the slots, the caller's readers and the error kept so far satisfy
`Inv`. -/
structure LoopAt (j : ℕ)
    (st : Erasure.DecodeState) : Prop where
  out : st.sink.out = writer.out ++ slice offset (reached e offset length j - offset) data
  room : writer.room = none → st.sink.room = none
  written : st.bytesWritten = reached e offset length j - offset
  stands : j < stopBlock e offset length → StandsAt e data j st.reader
  inv : Inv j st.reader.slots st.reader.orgReaders st.derr

/-- The range was written; the error is one that `Inv` allows in the end. -/
def Delivered (r : Decoded) : Prop :=
  r.written = length ∧ r.sink.out = writer.out ++ slice offset length data ∧
    (writer.room = none → r.sink.room = none) ∧
    ∃ slots, Inv (stopBlock e offset length) slots r.readers r.err

/-- The range was delivered, or an error returned; if the writer takes everything, an error means that
some block was reached, with `Inv`, that has too few shards. -/
def Answered (r : Decoded) : Prop :=
  Delivered e data offset length writer Inv r ∨ (r.err ≠ none ∧ (writer.room = none →
    ∃ k slots readers derr, k < stopBlock e offset length ∧ Inv k slots readers derr ∧
      readable e data k slots < e.dataBlocks))

/-- A block with enough shards keeps `Inv`. -/
def KeptByBlocks (stop : ℕ)
    (Inv : ℕ → List ReadSlot → List (Option Reader) → Option Err → Prop) : Prop :=
  ∀ j slots readers derr, j < stop → Inv j slots readers derr →
    e.dataBlocks ≤ readable e data j slots →
    Inv (j + 1) (afterCalls (blockCalls e data j slots))
      (dropFailed readers (blockCalls e data j slots)) (derr.or (blockHealErr e data j slots))

end

variable {st : Erasure.DecodeState}

/-- A round keeps `LoopAt`, or ends with an error. -/
lemma LoopAt.round (ρ : RangeOrder) {j : ℕ}
    (hrange : offset + length ≤ data.length) (hlen : 0 < length)
    (hstep : KeptByBlocks e data (stopBlock e offset length) Inv)
    (h : LoopAt e data offset length writer Inv j st) (hstart : offset / e.blockSize ≤ j)
    (hj : j < stopBlock e offset length) :
    (∃ st', e.decodeBlock ρ st (e.window offset length j).1 (e.window offset length j).2 = .ok st' ∧
      LoopAt e data offset length writer Inv (j + 1) st') ∨
    (∃ r, e.decodeBlock ρ st (e.window offset length j).1 (e.window offset length j).2 = .error r ∧
      r.err ≠ none ∧ (writer.room = none → readable e data j st.reader.slots < e.dataBlocks)) := by
  obtain ⟨hwin, hlow, hlt, hup⟩ := window_of_lt hlen hstart hj
  have hjb : j * e.blockSize < offset + length := (lt_blockCount_iff e.blockSize_pos).mp hj
  have hjd : j * e.blockSize < data.length := hjb.trans_le hrange
  have hreach : reached e offset length (j + 1) ≤ offset + length := by
    unfold reached
    omega
  have hfrom : offset ≤ reached e offset length j := le_max_left _ _
  rw [Nat.succ_mul] at hup
  rcases Nat.lt_or_ge (readable e data j st.reader.slots) e.dataBlocks with hshort | hcan
  · obtain ⟨r, hr, herr⟩ := decodeBlock_short ρ (h.stands hj) hjd hshort
    exact Or.inr ⟨r, hr, herr, fun _ => hshort⟩
  · have hol : (e.window offset length j).1 + (e.window offset length j).2 ≤
        (block e.blockSize j data).length := by
      rw [hwin, block_length]
      omega
    rcases decodeBlock_ok ρ (h.stands hj) hjd hcan hol with
      ⟨st', hok, hout, hroom, hwritten, hderr, hslots, horg, hnext⟩ | ⟨r, hr, herr, hroom⟩
    · refine Or.inl ⟨st', hok, ?_, fun hr => hroom (h.room hr), ?_, fun hj' => hnext ?_, ?_⟩
      · rw [hout, h.out, hwin, append_assoc]
        have hmeet : j * e.blockSize + (reached e offset length j - j * e.blockSize) =
            offset + (reached e offset length j - offset) := by omega
        simp only [hmeet]
        rw [← slice_add]
        congr 2
        omega
      · rw [hwritten, h.written, hwin]
        omega
      · exact ((lt_blockCount_iff e.blockSize_pos).mp hj').le.trans hrange
      · rw [hslots, horg, hderr]
        exact hstep j _ _ _ hj h.inv hcan
    · exact Or.inr ⟨r, hr, herr, fun hnone => absurd (h.room hnone) hroom⟩

lemma LoopAt.finish (h : LoopAt e data offset length writer Inv (stopBlock e offset length) st) :
    Delivered e data offset length writer Inv (finish length st) := by
  have hwritten := h.written
  have hout := h.out
  rw [reached_stop, Nat.add_sub_cancel_left] at hwritten hout
  refine ⟨congrArg Nat.cast hwritten, hout, h.room, st.reader.slots, ?_⟩
  show Inv _ _ _ (if st.bytesWritten ≠ length then some .lessData else st.derr)
  rw [if_neg (not_not_intro hwritten)]
  exact h.inv

/-- The rule for the loop of `Decode`, with an `Inv` that is kept by a block with enough shards. -/
lemma decodeLoop_rule (ρ : RangeOrder) (hrange : offset + length ≤ data.length) (hlen : 0 < length)
    (hstep : KeptByBlocks e data (stopBlock e offset length) Inv)
    {count j : ℕ} (hcount : j + count = (offset + length) / e.blockSize + 1)
    (hstart : offset / e.blockSize ≤ j) (hj : j ≤ stopBlock e offset length)
    (h : LoopAt e data offset length writer Inv j st) :
    Answered e data offset length writer Inv (e.decodeLoop ρ offset length count j st) := by
  have hstop : stopBlock e offset length = _ := stopBlock_eq hlen
  induction count generalizing j st with
  | zero =>
    have hjs : j = stopBlock e offset length := by
      split_ifs at hstop <;> omega
    subst hjs
    exact Or.inl h.finish
  | succ count ih =>
    rw [decodeLoop]
    rcases hj.eq_or_lt with rfl | hlt
    · -- the range ended with the block before
      have hzero : (e.window offset length (stopBlock e offset length)).2 = 0 :=
        window_stopBlock hlen (by omega)
      simp only [hzero, if_true]
      exact Or.inl h.finish
    · have hne := window_ne_zero hlen hstart hlt
      simp only [if_neg hne]
      rcases h.round ρ hrange hlen hstep hstart hlt with
        ⟨st', hok, hnext⟩ | ⟨r, hr, herr, hshort⟩
      · simp only [hok]
        exact ih (by omega) (by omega) hlt hnext
      · simp only [hr]
        exact Or.inr ⟨herr, fun hnone =>
          ⟨j, st.reader.slots, st.reader.orgReaders, st.derr, hlt, h.inv, hshort hnone⟩⟩

end Loop

/-! ### `Decode` -/

/-- The slots `Decode` starts with. -/
def startSlots (readers : List (Option Reader)) (prefer : List Bool) : List ReadSlot :=
  let slots := readers.mapIdx fun i r => ⟨r, i, none⟩
  if prefer.length = readers.length then
    (prefer.zipIdx.foldl (fun st ok => preferStep st ok.2 ok.1) (slots, 0)).1
  else slots

lemma startReader_eq (e : Erasure) (readers : List (Option Reader)) (offset totalLength : ℕ)
    (prefer : List Bool) :
    e.startReader readers offset totalLength prefer =
      { newParallelReader readers e offset totalLength with
        slots := startSlots readers prefer } := by
  unfold startReader startSlots
  by_cases h : prefer.length = readers.length
  · simp only [if_pos h, ParallelReader.preferReaders]
    exact if_neg (not_not_intro h)
  · simp only [if_neg h]
    rfl

variable {data : Bytes} {offset length : ℕ} {readers : List (Option Reader)}

lemma decode_rule (ρ : RangeOrder)
    (Inv : ℕ → List ReadSlot → List (Option Reader) → Option Err → Prop)
    {prefer : List Bool} (writer : Sink)
    (hrange : offset + length ≤ data.length) (hlen : 0 < length)
    (hslots : SlotsOk e data (startSlots readers prefer))
    (hinit : Inv (offset / e.blockSize) (startSlots readers prefer) readers none)
    (hstep : KeptByBlocks e data (stopBlock e offset length) Inv) :
    Answered e data offset length writer Inv
      (e.decode ρ writer readers offset length data.length prefer) := by
  have hdiv : offset / e.blockSize ≤ (offset + length) / e.blockSize :=
    Nat.div_le_div_right (by omega)
  have hstart : offset / e.blockSize ≤ stopBlock e offset length := start_le_stopBlock hlen
  rw [decode, if_neg (by omega), if_neg (by omega), if_neg (by omega), Int.toNat_natCast,
    Int.toNat_natCast, Int.toNat_natCast, startReader_eq]
  refine decodeLoop_rule ρ hrange hlen hstep (by omega) le_rfl hstart ⟨?_, id, ?_, fun _ => ?_, ?_⟩
  · rw [reached_start]
    simp
  · rw [reached_start]
    simp
  · exact ⟨rfl, rfl, rfl, rfl, hslots⟩
  · exact hinit

/-! ### Readers of what `Encode` wrote -/

/-- The reader gives bytes of the file, as many as it is asked for, or an error. -/
def ReadsFile (file : Bytes) (r : Reader) : Prop :=
  ∀ o n bs, r o n = .ok bs → bs = slice o n file ∧ bs.length = n

lemma ReadsFile.readsShard {file : Bytes} {i : ℕ} {r : Reader}
    (h : ReadsFile file r) (hfile : file <+: e.shardFile e.blockSize data i) :
    ReadsShard e data i r := by
  intro o n bs hok
  obtain ⟨hbs, hlen⟩ := h o n bs hok
  obtain ⟨rest, hrest⟩ := hfile
  rcases Nat.eq_zero_or_pos n with rfl | hn
  · rw [length_eq_zero_iff.mp hlen, slice_zero]
  · have hle : o + n ≤ file.length := by
      rw [hbs, slice_length] at hlen
      omega
    rw [hbs, ← hrest, slice_append_of_le rest hle]

lemma slotsOk_of_readers (hlen : readers.length = e.shards)
    (hreads : ∀ i r, readers[i]? = some (some r) → ReadsShard e data i r) :
    SlotsOk e data (readers.mapIdx fun i r => ⟨r, i, none⟩) := by
  refine ⟨by rw [length_mapIdx, hlen], fun s hs r hr => ?_, ?_⟩
  · obtain ⟨i, hi, rfl⟩ := mem_mapIdx.mp hs
    refine ⟨hlen ▸ hi, hreads i r ?_⟩
    rw [getElem?_eq_getElem hi]
    exact congrArg some hr
  · have hbufs : (readers.mapIdx fun i r => (⟨r, i, none⟩ : ReadSlot)).map ReadSlot.buf =
        List.range readers.length := by
      refine ext_getElem (by simp) fun i h₁ h₂ => ?_
      simp
    have hsub : ((available (readers.mapIdx fun i r => ⟨r, i, none⟩)).map ReadSlot.buf).Sublist
        (List.range readers.length) := hbufs ▸ filter_sublist.map ReadSlot.buf
    exact nodup_range.sublist hsub

/-! ### Slots that never fail -/

/-- A reader that is there and never fails. -/
def SteadyReader (fileSize : ℕ) (reader : Option Reader) : Prop :=
  ∃ r, reader = some r ∧ AlwaysReads fileSize r

def ReadSlot.Steady (fileSize : ℕ) (s : ReadSlot) : Prop := SteadyReader fileSize s.reader

open Classical in
/-- The number of such slots. -/
noncomputable def steady (fileSize : ℕ) (slots : List ReadSlot) : ℕ :=
  slots.countP fun s => s.Steady fileSize

lemma ReadSlot.Steady.outcome {fileSize o n : ℕ} {s : ReadSlot} (h : s.Steady fileSize)
    (hle : o + n ≤ fileSize) : ∃ bytes, s.outcome o n = .got bytes := by
  obtain ⟨r, hr, halways⟩ := h
  obtain ⟨bytes, hok⟩ := halways o n hle
  exact ⟨bytes, by rw [ReadSlot.outcome, hr]; simp only [hok]⟩

section Steady

variable {e : Erasure} {data : Bytes} {j : ℕ} {slots : List ReadSlot}

open Classical in
lemma steady_le_readable (slots : List ReadSlot) {limit : ℕ}
    (hle : j * e.shardSize + e.blockShardSize data.length j ≤ limit) :
    steady limit slots ≤ readable e data j slots := by
  refine countP_mono_left fun s _ hs => ?_
  obtain ⟨bytes, hgot⟩ := (of_decide_eq_true hs).outcome hle
  rw [hgot]
  rfl

open Classical in
lemma steady_le_afterCalls {limit : ℕ}
    (hle : j * e.shardSize + e.blockShardSize data.length j ≤ limit) :
    steady limit slots ≤ steady limit (afterCalls (blockCalls e data j slots)) := by
  have hfst : (blockCalls e data j slots).map Prod.fst = slots := map_fst_calls
  calc steady limit slots
      = (blockCalls e data j slots).countP fun c => c.1.Steady limit := by
        conv_lhs => rw [← hfst, steady, countP_map]
        rfl
    _ ≤ (blockCalls e data j slots).countP fun c => (c.1.after c.2).Steady limit := by
        refine countP_mono_left fun c hc hs => decide_eq_true ?_
        have hsteady := of_decide_eq_true hs
        obtain ⟨bytes, hgot⟩ := hsteady.outcome hle
        -- a call that was made gave its bytes, so the slot keeps its reader
        rcases (mem_calls hc).2 with hout | hout
        · rw [hout]
          exact hsteady
        · rw [hout, hgot]
          exact hsteady
    _ = steady limit (afterCalls (blockCalls e data j slots)) := by
        rw [steady, afterCalls, countP_map]
        rfl

end Steady

/-! ### The round trip -/

/-- The errors that come with a range that was delivered: nothing, or something to heal. -/
def HealOnly (err : Option Err) : Prop :=
  err = none ∨ err = some .fileNotFound ∨ err = some .fileCorrupt

lemma HealOnly.or {derr err : Option Err} (h : HealOnly derr) (h' : HealOnly err) :
    HealOnly (derr.or err) := by
  cases derr with
  | none => exact h'
  | some d => exact h

/-- The shards of a range stand in the first `limit` bytes of their files. -/
def EndsBefore (e : Erasure) (data : Bytes) (offset length limit : ℕ) : Prop :=
  ∀ j, j < stopBlock e offset length → j * e.shardSize + e.blockShardSize data.length j ≤ limit

lemma endsBefore_shardFileSize (hrange : offset + length ≤ data.length) :
    EndsBefore e data offset length (e.shardFileSize data.length) := fun _ hj =>
  shard_le_shardFileSize (((lt_blockCount_iff e.blockSize_pos).mp hj).trans_le hrange)

lemma endsBefore_shardFileOffset (hrange : offset + length ≤ data.length) :
    EndsBefore e data offset length (e.shardFileOffset offset length data.length) := fun _ hj =>
  shard_le_shardFileOffset hrange ((lt_blockCount_iff e.blockSize_pos).mp hj)

/-- A range is written, or an error returned because too few slots are steady. -/
lemma decode_spec {limit : ℕ} (ρ : RangeOrder) {prefer : List Bool} (writer : Sink)
    (hrange : offset + length ≤ data.length)
    (hslots : SlotsOk e data (startSlots readers prefer))
    (hlimit : EndsBefore e data offset length limit) :
    let d := e.decode ρ writer readers offset length data.length prefer
    (d.written = length ∧ d.sink.out = writer.out ++ slice offset length data ∧
      (writer.room = none → d.sink.room = none) ∧ HealOnly d.err) ∨
    (d.err ≠ none ∧
      (writer.room = none → steady limit (startSlots readers prefer) < e.dataBlocks)) := by
  intro d
  rcases Nat.eq_zero_or_pos length with rfl | hlen
  · have hzero : d = ⟨writer, readers, 0, none⟩ := by
      unfold d
      rw [decode, if_neg (by omega), if_neg (by omega), if_pos (by rfl)]
    rw [hzero]
    exact Or.inl ⟨rfl, by simp, id, Or.inl rfl⟩
  · have hrule := decode_rule ρ (fun _ slots _ derr => HealOnly derr ∧
        steady limit (startSlots readers prefer) ≤ steady limit slots)
      writer hrange hlen hslots ⟨Or.inl rfl, le_rfl⟩
      fun j slots _ derr hj hinv _ => ⟨hinv.1.or (healErr_cases _),
        hinv.2.trans (steady_le_afterCalls (hlimit j hj))⟩
    rcases hrule with ⟨hwritten, hout, hroom, -, hheal, -⟩ | ⟨herr, hshort⟩
    · exact Or.inl ⟨hwritten, hout, hroom, hheal⟩
    · refine Or.inr ⟨herr, fun hroom => ?_⟩
      obtain ⟨k, slots, -, derr, hk, ⟨-, hsteady⟩, hfew⟩ := hshort hroom
      have := steady_le_readable slots (hlimit k hk)
      omega

/-- The buffer may have another length, if it cuts the data into the same blocks. -/
lemma reads_of_encode {ρ : RangeOrder} {quorum : ℤ} {writers : List ShardWriter} {buf : ℕ}
    (hbuf : 0 < buf) (hblocks : blocks buf data = blocks e.blockSize data)
    (hwriters : writers.length = e.shards) (hempty : ∀ w ∈ writers, w.file.out = [])
    (hreaders : readers.length = e.shards)
    (hfiles : ∀ (i : ℕ) (r : Reader) (w : ShardWriter), readers[i]? = some (some r) →
      (e.encode ρ ⟨data, none⟩ writers buf hbuf quorum).1[i]? = some w → ReadsFile w.file.out r)
    (i : ℕ) (r : Reader) (hr : readers[i]? = some (some r)) : ReadsShard e data i r := by
  have hi : i < (e.encode ρ ⟨data, none⟩ writers buf hbuf quorum).1.length := by
    rw [encode_length, hwriters, ← hreaders]
    exact (List.getElem?_eq_some_iff.mp hr).1
  have hw' := getElem?_eq_getElem hi
  obtain ⟨w, hw, hfirst, -⟩ := encode_files _ _ hbuf quorum hw'
  rw [hempty w (mem_of_getElem? hw), shardFile, shardBlocks, hblocks] at hfirst
  exact (hfiles i r _ hr hw').readsShard hfirst

open Classical in
lemma startSlots_of_reads (hreaders : readers.length = e.shards)
    (hreads : ∀ i r, readers[i]? = some (some r) → ReadsShard e data i r) :
    SlotsOk e data (startSlots readers []) ∧
      ∀ limit, steady limit (startSlots readers []) = readers.countP (SteadyReader limit) := by
  have hstart : startSlots readers [] = readers.mapIdx fun i r => ⟨r, i, none⟩ := by
    have : ¬ ([] : List Bool).length = readers.length := by
      rw [hreaders, shards]
      have := e.dataBlocks_pos
      simp only [length_nil]
      omega
    exact if_neg this
  rw [hstart]
  refine ⟨slotsOk_of_readers hreaders hreads, fun limit => ?_⟩
  have hmap : (readers.mapIdx fun i r => (⟨r, i, none⟩ : ReadSlot)).map ReadSlot.reader = readers :=
    ext_getElem (by simp) fun i h₁ h₂ => by simp
  conv_rhs => rw [← hmap, countP_map]
  rfl

open Classical in
/-- What `Encode` wrote `Decode` reads back. Each reader is nil or reads the file that the writer of
its index was given. If `D` readers never fail, and the writer takes everything, the range is
written; and `Decode` never reports the whole range without an error after writing anything else. -/
theorem decode_encode (e : Erasure) (ρ ρ' : RangeOrder) (data : Bytes)
    (writers : List ShardWriter) (quorum : ℤ) (hwriters : writers.length = e.shards)
    (hempty : ∀ w ∈ writers, w.file.out = [])
    (readers : List (Option Reader)) (hreaders : readers.length = e.shards)
    (hfiles : ∀ (i : ℕ) (r : Reader) (w : ShardWriter), readers[i]? = some (some r) →
      (e.encode ρ ⟨data, none⟩ writers e.blockSize e.blockSize_pos quorum).1[i]? = some w →
      ReadsFile w.file.out r)
    (writer : Sink) (offset length : ℕ) (hrange : offset + length ≤ data.length) :
    (writer.room = none →
      e.dataBlocks ≤ readers.countP (SteadyReader (e.shardFileSize data.length)) →
      (e.decode ρ' writer readers offset length data.length []).sink.out =
          writer.out ++ slice offset length data ∧
        (e.decode ρ' writer readers offset length data.length []).written = length ∧
        HealOnly (e.decode ρ' writer readers offset length data.length []).err) ∧
    ((e.decode ρ' writer readers offset length data.length []).written = length →
      (e.decode ρ' writer readers offset length data.length []).err = none →
      (e.decode ρ' writer readers offset length data.length []).sink.out =
        writer.out ++ slice offset length data) := by
  obtain ⟨hslots, hsteady⟩ := startSlots_of_reads hreaders
    (reads_of_encode _ rfl hwriters hempty hreaders hfiles)
  have hspec := decode_spec ρ' writer hrange hslots (endsBefore_shardFileSize hrange)
  rw [hsteady] at hspec
  refine ⟨fun hroom hcan => ?_, fun hwritten herr => ?_⟩
  · rcases hspec with ⟨hwritten, hout, -, hheal⟩ | ⟨-, hshort⟩
    · exact ⟨hout, hwritten, hheal⟩
    · exact absurd hcan (not_le.mpr (hshort hroom))
  · rcases hspec with ⟨-, hout, -⟩ | ⟨hne, -⟩
    · exact hout
    · exact absurd herr hne

/-- A reader of a file in memory. -/
def fileReader (file : Bytes) : Reader := fun o n =>
  if o + n ≤ file.length then .ok (slice o n file) else .error .unexpectedEOF

lemma readsFile_fileReader (file : Bytes) : ReadsFile file (fileReader file) := by
  intro o n bs hok
  unfold fileReader at hok
  split_ifs at hok with hle
  cases hok
  refine ⟨rfl, ?_⟩
  rw [slice_length]
  omega

lemma alwaysReads_fileReader (file : Bytes) : AlwaysReads file.length (fileReader file) :=
  fun _ _ hle => ⟨_, if_pos hle⟩

/-- Two data and two parity shards, with blocks of `blockSize` bytes. -/
def twoOfFour (blockSize : ℕ) (h : 0 < blockSize) : Erasure where
  dataBlocks := 2
  parityBlocks := 2
  blockSize := blockSize
  encoder := .twoOfFour
  dataBlocks_pos := by decide
  parityBlocks_pos := by decide
  shards_le := by decide
  blockSize_pos := h

open Classical in
/-- Three bytes in blocks of two, read from the second byte on without the data shards. -/
theorem decode_encode_two_lost :
    ((twoOfFour 2 (by decide)).decode .inOrder .unlimited
      [none, none, some (fileReader [3, 3]), some (fileReader [35, 3])] (1 : ℕ) (2 : ℕ) 3
      []).sink.out = [2, 3] := by
  have hshard : ∀ i < 4, some ((twoOfFour 2 (by decide)).shardFile 2 [1, 2, 3] i) =
      [[1, 3], [2, 0], [3, 3], [35, 3]][i]? := by
    decide +kernel
  have hhealthy : ∀ w ∈ replicate 4 (⟨.unlimited, false, none⟩ : ShardWriter), w.Healthy := by
    intro w hw
    rw [eq_of_mem_replicate hw]
    exact ⟨⟨rfl, rfl⟩, rfl⟩
  have hencode := ((twoOfFour 2 (by decide)).encode_healthy .inOrder [1, 2, 3] 2
    (by decide : 0 < 2) hhealthy (by decide)).2
  refine ((decode_encode (twoOfFour 2 (by decide)) .inOrder .inOrder [1, 2, 3]
    (replicate 4 ⟨.unlimited, false, none⟩) 2 rfl ?_
    [none, none, some (fileReader [3, 3]), some (fileReader [35, 3])] rfl
    ?_ .unlimited 1 2 (by decide)).1 rfl ?_).1
  · intro w hw
    rw [eq_of_mem_replicate hw]
    rfl
  · -- the files behind the readers are those that were written
    intro i r w hr hw
    obtain ⟨w₀, hw₀, hfile⟩ := hencode i w hw
    have hi : i < 4 := (List.getElem?_eq_some_iff.mp hw₀).1
    have hout : some w.file.out = [[1, 3], [2, 0], [3, 3], [35, 3]][i]? := by
      rw [hfile, eq_of_mem_replicate (mem_of_getElem? hw₀)]
      exact hshard i hi
    match i, hi, hr with
    | 2, _, hr | 3, _, hr =>
      cases hr
      rw [Option.some.inj hout]
      exact readsFile_fileReader _
  · have hlast := drop_sublist 2 [none, none, some (fileReader [3, 3]), some (fileReader [35, 3])]
    refine hlast.countP_le.trans' ?_
    rw [countP_eq_length.mpr]
    · exact le_rfl
    · simp only [drop_succ_cons, drop_zero, forall_mem_cons, decide_eq_true_eq]
      exact ⟨⟨_, rfl, alwaysReads_fileReader [3, 3]⟩, ⟨_, rfl, alwaysReads_fileReader [35, 3]⟩, nofun⟩

end Obstor.Coding
