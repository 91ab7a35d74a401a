import Obstor.Block.Put

/-!
# Reading a range of a block-replicated object

The block list of an object is made with the block size of the time of the put, `b₁`; the reader
finds its way with the current one, `b₂`. `readBlocksLoop_spec` says what it writes, whatever the
two are: the bytes from `window` on, which is not where the range starts unless the range starts in
the first block or the sizes are equal.
-/

namespace Obstor.Block

open Go Lib Meta

/-! ### Honest disks -/

/-- No disk has other data that passes for a block of the payload: nothing the disks hold collides
with a block under SHA-256. -/
def Honest (b₁ : ℕ) (payload : Bytes) (sources : List (Option BlockSource)) : Prop :=
  ∀ disk, some disk ∈ sources → ∀ blk ∈ blocks b₁ payload, ∀ data,
    Provides disk (hashBlockData blk) data → data = blk

/-- Some disk has the block. -/
def Found (sources : List (Option BlockSource)) (blk : Bytes) : Prop :=
  ∃ disk, some disk ∈ sources ∧ Provides disk (hashBlockData blk) blk

variable {b₁ : ℕ} {payload : Bytes}

lemma Honest.readBlock_cases {sources : List (Option BlockSource)}
    (h : Honest b₁ payload sources) {blk : Bytes} (hblk : blk ∈ blocks b₁ payload) :
    readBlock (hashBlockData blk) sources = .ok blk ∨
      (∃ err, readBlock (hashBlockData blk) sources = .error err) ∧ ¬ Found sources blk := by
  rcases hr : readBlock (hashBlockData blk) sources with err | data
  · refine Or.inr ⟨⟨err, rfl⟩, ?_⟩
    rintro ⟨disk, hmem, hp⟩
    obtain ⟨data, hok⟩ := readBlock_ok_iff.mpr ⟨disk, blk, hmem, hp⟩
    rw [hr] at hok
    cases hok
  · obtain ⟨disk, hmem, hp⟩ := readBlockLoop_ok hr
    rw [h disk hmem blk hblk data hp]
    exact Or.inl rfl

/-! ### One block -/

variable {i : ℕ}

lemma chunkRefs_getElem? (hb₁ : 0 < b₁) (hi : i * b₁ < payload.length) :
    (chunkRefs b₁ payload)[i]? =
      some ⟨hashBlockData (block b₁ i payload), (block b₁ i payload).length, (i : ℕ)⟩ := by
  have hlt := (lt_blockCount_iff hb₁).mpr hi
  rw [chunkRefs, refsFrom_getElem?, blocks, List.getElem?_map, List.getElem?_range hlt]
  simp

lemma chunkRefs_getElem?_of_le (hb₁ : 0 < b₁)
    (hi : payload.length ≤ i * b₁) : (chunkRefs b₁ payload)[i]? = none := by
  rw [chunkRefs, List.getElem?_eq_none_iff, refsFrom_length, blocks_length]
  by_contra hlt
  have := (lt_blockCount_iff hb₁).mp (not_le.mp hlt)
  omega

lemma block_mem_blocks (hb₁ : 0 < b₁)
    (hi : i * b₁ < payload.length) : block b₁ i payload ∈ blocks b₁ payload :=
  List.mem_map.mpr ⟨i, List.mem_range.mpr ((lt_blockCount_iff hb₁).mpr hi), rfl⟩

lemma readFrom_eq (i b₂ o : ℕ) :
    (if (i : ℤ) * b₂ < o then (o : ℤ) - i * b₂ else 0) = ((o - i * b₂ : ℕ) : ℤ) := by
  split_ifs <;> omega

lemma blockSliceBounds_ok {b₂ o l w size : ℕ} (hw : w ≤ l) (hle : o - i * b₂ ≤ size) :
    blockSliceBounds ((i : ℤ) * b₂) o l w size = .ok (((o - i * b₂ : ℕ) : ℤ),
        ((o - i * b₂ + min (size - (o - i * b₂)) (l - w) : ℕ) : ℤ)) := by
  unfold blockSliceBounds
  simp only [readFrom_eq]
  generalize o - i * b₂ = f at hle
  have hto : (if (size : ℤ) - f > (l : ℤ) - w then (f : ℤ) + ((l : ℤ) - w) else (size : ℤ)) =
      ((f + min (size - f) (l - w) : ℕ) : ℤ) := by
    split_ifs <;> omega
  simp only [hto]
  rw [if_neg (by omega)]

lemma blockSliceBounds_short {b₂ o size : ℕ} (l w : ℤ) (h : size < o - i * b₂) :
    ∃ err, blockSliceBounds ((i : ℤ) * b₂) o l w size = .error err := by
  unfold blockSliceBounds
  rw [if_pos (Or.inl (by omega))]
  exact ⟨_, rfl⟩

/-! ### The loop -/

/-- Where the reader starts: the offset in the current block size, counted in the blocks of the
object. -/
def window (b₁ b₂ o : ℕ) : ℕ := o / b₂ * b₁ + o % b₂

/-- How many bytes it has written when it comes to block `i`. -/
def writtenAt (b₁ b₂ n o l i : ℕ) : ℕ := min l (min (i * b₁) n - window b₁ b₂ o)

section Loop

variable {b₁ b₂ o l : ℕ} {payload : Bytes} {sources : List (Option BlockSource)}

/-- The first block of the object is shorter than the start of the range in it. -/
def StartsOutside (b₁ b₂ n o : ℕ) : Prop :=
  o / b₂ * b₁ < n ∧ min b₁ (n - o / b₂ * b₁) < o % b₂

variable {i : ℕ}

lemma piece_eq (hb₂ : 0 < b₂) (hstart : o / b₂ ≤ i) (hi : i * b₁ < payload.length)
    (hin : ¬ StartsOutside b₁ b₂ payload.length o)
    (hfrom : o - i * b₂ ≤ (block b₁ i payload).length) :
    let w := writtenAt b₁ b₂ payload.length o l i
    let f := o - i * b₂
    let n := min ((block b₁ i payload).length - f) (l - w)
    slice f n (block b₁ i payload) = slice (window b₁ b₂ o + w) n payload ∧
      w + n = writtenAt b₁ b₂ payload.length o l (i + 1) ∧ n ≤ (block b₁ i payload).length - f := by
  intro w f n
  have hdiv := Nat.div_add_mod o b₂
  have hmod := Nat.mod_lt o hb₂
  rw [mul_comm] at hdiv
  have hsize : (block b₁ i payload).length = min b₁ (payload.length - i * b₁) := block_length _ _ _
  have hnext : (i + 1) * b₁ = i * b₁ + b₁ := Nat.succ_mul _ _
  have hw : w = min l (min (i * b₁) payload.length - window b₁ b₂ o) := rfl
  have hn : n = min ((block b₁ i payload).length - f) (l - w) := rfl
  rw [slice_block payload (by omega)]
  unfold writtenAt
  rw [hnext]
  unfold window at hw ⊢
  rcases hstart.eq_or_lt with rfl | hlt
  · -- the first block that is read
    have hf : f = o % b₂ := by
      show o - o / b₂ * b₂ = o % b₂
      omega
    have hw0 : w = 0 := by omega
    refine ⟨?_, by omega, by omega⟩
    rw [hw0, hf, add_zero]
  · have hmul : (o / b₂ + 1) * b₂ ≤ i * b₂ := Nat.mul_le_mul_right _ hlt
    have hmul' : (o / b₂ + 1) * b₁ ≤ i * b₁ := Nat.mul_le_mul_right _ hlt
    rw [Nat.succ_mul] at hmul hmul'
    have hr : o % b₂ ≤ b₁ := by
      by_contra hgt
      exact hin ⟨by omega, by omega⟩
    have hf : f = 0 := by
      show o - i * b₂ = 0
      omega
    refine ⟨?_, by omega, by omega⟩
    rcases Nat.eq_zero_or_pos n with h0 | hpos
    · rw [h0, slice_zero, slice_zero]
    · have hpos' : i * b₁ + f = o / b₂ * b₁ + o % b₂ + w := by omega
      rw [hpos']

lemma writtenAt_le (b₁ b₂ n o l i : ℕ) : writtenAt b₁ b₂ n o l i ≤ l := min_le_left _ _

lemma writtenAt_of_le {j : ℕ} (hij : i ≤ j) (hi : payload.length ≤ i * b₁) :
    writtenAt b₁ b₂ payload.length o l j = writtenAt b₁ b₂ payload.length o l i := by
  have hj : i * b₁ ≤ j * b₁ := Nat.mul_le_mul_right _ hij
  unfold writtenAt
  rw [min_eq_right hi, min_eq_right (hi.trans hj)]

/-- Why a read of `count` blocks from `i` on fails. -/
def ReadFails (b₁ b₂ o : ℕ) (payload : Bytes) (sources : List (Option BlockSource))
    (writer : Sink) (i count : ℕ) : Prop :=
  writer.room ≠ none ∨
    (∃ j, i ≤ j ∧ j < i + count ∧ j * b₁ < payload.length ∧ ¬ Found sources (block b₁ j payload)) ∨
    0 < count ∧ StartsOutside b₁ b₂ payload.length o

lemma ReadFails.step {writer writer' : Sink} {count : ℕ}
    (hroom : writer.room = none → writer'.room = none)
    (h : ReadFails b₁ b₂ o payload sources writer' (i + 1) count) :
    ReadFails b₁ b₂ o payload sources writer i (count + 1) := by
  rcases h with hr | ⟨j, hij, hj, hfound⟩ | ⟨-, hout⟩
  · exact Or.inl fun h => hr (hroom h)
  · exact Or.inr (Or.inl ⟨j, by omega, by omega, hfound⟩)
  · exact Or.inr (Or.inr ⟨by omega, hout⟩)

lemma start_le_block (hb₂ : 0 < b₂) (hstart : o / b₂ ≤ i) (hi : i * b₁ < payload.length)
    (hout : ¬ StartsOutside b₁ b₂ payload.length o) :
    o - i * b₂ ≤ (block b₁ i payload).length := by
  have hdiv := Nat.div_add_mod o b₂
  have hmod := Nat.mod_lt o hb₂
  rw [mul_comm] at hdiv
  rcases hstart.eq_or_lt with rfl | hlt
  · rw [block_length]
    by_contra hlt
    exact hout ⟨hi, by omega⟩
  · have hmul : (o / b₂ + 1) * b₂ ≤ i * b₂ := Nat.mul_le_mul_right _ hlt
    rw [Nat.succ_mul] at hmul
    omega

/-- What the loop does: it writes the bytes of the window up to the end of its last block, or
fails. -/
lemma readBlocksLoop_spec (hb₁ : 0 < b₁) (hb₂ : 0 < b₂) (hhonest : Honest b₁ payload sources)
    {pre : Bytes} (count : ℕ) {writer : Sink} (hstart : o / b₂ ≤ i)
    (hin : o / b₂ < i → ¬ StartsOutside b₁ b₂ payload.length o)
    (hout : writer.out =
      pre ++ slice (window b₁ b₂ o) (writtenAt b₁ b₂ payload.length o l i) payload) :
    let r := readBlocksLoop b₂ o l (chunkRefs b₁ payload) sources count i writer
      (writtenAt b₁ b₂ payload.length o l i : ℕ)
    (r.2 = none ∧ (0 < count → ¬ StartsOutside b₁ b₂ payload.length o) ∧ r.1.out =
        pre ++ slice (window b₁ b₂ o) (writtenAt b₁ b₂ payload.length o l (i + count)) payload) ∨
      r.2 ≠ none ∧ ReadFails b₁ b₂ o payload sources writer i count := by
  induction count generalizing i writer with
  | zero => exact Or.inl ⟨rfl, fun h => absurd h (lt_irrefl _), hout⟩
  | succ count ih =>
    intro r
    by_cases hi : i * b₁ < payload.length
    · have hblk := block_mem_blocks hb₁ hi
      have hr : r = readBlocksLoop b₂ o l (chunkRefs b₁ payload) sources (count + 1) i writer
        (writtenAt b₁ b₂ payload.length o l i : ℕ) := rfl
      rw [readBlocksLoop, chunkRefs_getElem? hb₁ hi] at hr
      rcases hhonest.readBlock_cases hblk with hread | ⟨⟨err, hread⟩, hnot⟩
      · simp only [hread, ne_eq, not_true_eq_false, if_false] at hr
        by_cases hso : StartsOutside b₁ b₂ payload.length o
        · -- the first block is refused
          have hfirst : o / b₂ = i := hstart.eq_or_lt.resolve_right fun hlt => hin hlt hso
          have hshort : (block b₁ i payload).length < o - i * b₂ := by
            have hdiv := Nat.div_add_mod o b₂
            have hlt := hso.2
            rw [Nat.mul_comm] at hdiv
            rw [block_length, ← hfirst]
            omega
          obtain ⟨err, hbounds⟩ := blockSliceBounds_short l
            (writtenAt b₁ b₂ payload.length o l i : ℕ) hshort
          simp only [hbounds] at hr
          rw [hr]
          exact Or.inr ⟨by simp, Or.inr (Or.inr ⟨Nat.succ_pos _, hso⟩)⟩
        · have hfrom := start_le_block hb₂ hstart hi hso
          obtain ⟨hpiece, hnext, hlen⟩ := piece_eq hb₂ hstart hi hso hfrom
          rw [blockSliceBounds_ok (writtenAt_le _ _ _ _ _ _) hfrom] at hr
          simp only [Int.toNat_natCast] at hr
          rw [← Nat.cast_sub (Nat.le_add_right _ _), Int.toNat_natCast, Nat.add_sub_cancel_left]
            at hr
          generalize hp : slice (o - i * b₂) _ (block b₁ i payload) = piece at hr hpiece
          have hplen := congrArg List.length hp
          rw [slice_length, min_eq_left hlen] at hplen
          rcases writer.write_cases piece with ⟨s, hs, hsout, hroom⟩ | ⟨s, err, hs, hroom⟩
          · simp only [hs] at hr
            rw [← hplen, ← Nat.cast_add, hnext] at hr
            rw [hr, Nat.add_comm count 1, ← Nat.add_assoc]
            have hnow : s.out = pre ++ slice (window b₁ b₂ o)
                (writtenAt b₁ b₂ payload.length o l (i + 1)) payload := by
              rw [hsout, hout, List.append_assoc, hpiece, ← slice_add, hnext]
            rcases ih (by omega) (fun _ => hso) hnow with hok | ⟨hne, hfails⟩
            · exact Or.inl ⟨hok.1, fun _ => hso, hok.2.2⟩
            · exact Or.inr ⟨hne, Nat.add_comm 1 count ▸ hfails.step hroom⟩
          · simp only [hs] at hr
            rw [hr]
            exact Or.inr ⟨by simp, Or.inl hroom⟩
      · simp only [hread] at hr
        rw [hr]
        exact Or.inr ⟨by simp, Or.inr (Or.inl ⟨i, le_rfl, by omega, hi, hnot⟩)⟩
    · have hr : r = (writer, none) := by
        show readBlocksLoop _ _ _ _ _ _ _ _ _ = _
        rw [readBlocksLoop, chunkRefs_getElem?_of_le hb₁ (not_lt.mp hi)]
      rw [hr, writtenAt_of_le (by omega) (not_lt.mp hi)]
      refine Or.inl ⟨rfl, fun _ hso => ?_, hout⟩
      rcases hstart.eq_or_lt with rfl | hlt
      · exact hi hso.1
      · exact hin hlt hso

end Loop

/-! ### A request -/

section Request

variable {cfg : Config} {fi : FileInfo} {b₁ b₂ o l : ℕ} {payload : Bytes}
  {sources : List (Option BlockSource)} {writer : Sink}

lemma getBlockReplicatedObject_rest {startOffset : ℤ} (h₀ : 0 ≤ startOffset)
    (hle : startOffset ≤ fi.size) (hsize : fi.size < 2 ^ 63) :
    getBlockReplicatedObject cfg startOffset (-1) writer fi sources =
      getBlockReplicatedObject cfg startOffset (fi.size - startOffset) writer fi sources := by
  have hrest : int64 (fi.size - startOffset) = fi.size - startOffset :=
    int64_eq_self (by omega) (by omega)
  have hneg : ¬ fi.size - startOffset < 0 := by omega
  unfold getBlockReplicatedObject
  simp [hrest, hneg, Int.reduceNeg]

lemma getBlockReplicatedObject_of_le (hb₂ : cfg.effectiveBlockSize = b₂) (hl : 1 ≤ l)
    (hin : (o + l : ℕ) ≤ fi.size) (hsize : fi.size < 2 ^ 63) :
    getBlockReplicatedObject cfg o l writer fi sources =
      readBlocksLoop b₂ o l fi.blocks sources ((o + l - 1) / b₂ + 1 - o / b₂) (o / b₂) writer
        0 := by
  have hsum : int64 ((o : ℤ) + l) = ((o + l : ℕ) : ℤ) := by
    exact int64_eq_self (by omega) (by omega)
  have hlast : int64 (((o + l : ℕ) : ℤ) - 1) = ((o + l - 1 : ℕ) : ℤ) := by
    rw [int64_eq_self (by omega) (by omega)]
    omega
  have hpos : ¬ (l : ℤ) < 0 := by omega
  have hrange : blockRange b₂ o l fi.size = (((o / b₂ : ℕ) : ℤ), (((o + l - 1) / b₂ : ℕ) : ℤ)) := by
    unfold blockRange
    simp only [hsum, hlast]
    rw [if_neg (by omega), if_neg (by omega)]
    rfl
  have hcount : ((((o + l - 1) / b₂ : ℕ) : ℤ) + 1 - ((o / b₂ : ℕ) : ℤ)).toNat =
      (o + l - 1) / b₂ + 1 - o / b₂ := by
    omega
  unfold getBlockReplicatedObject
  simp only [hpos, if_false, hsum, hb₂, hrange, hcount, Int.toNat_natCast]
  rw [if_neg (by omega)]

/-- What a read with block size `b₂` sends for a range of an object that was cut with `b₁`. -/
def served (b₁ b₂ : ℕ) (payload : Bytes) (o l : ℕ) : Bytes :=
  slice (window b₁ b₂ o) (writtenAt b₁ b₂ payload.length o l ((o + l - 1) / b₂ + 1)) payload

section

variable (writer : Sink) (hb₁ : 0 < b₁) (hb₂ : cfg.effectiveBlockSize = b₂)
  (hblocks : fi.blocks = chunkRefs b₁ payload) (hfi : fi.size = payload.length)
  (hsize : payload.length < 2 ^ 63)

include hb₁ hb₂ hblocks hfi hsize

/-- A read from honest disks gives what the block size serves, or fails. -/
lemma getBlockReplicatedObject_spec (hhonest : Honest b₁ payload sources) (hl : 1 ≤ l)
    (hin : o + l ≤ payload.length) :
    let r := getBlockReplicatedObject cfg o l writer fi sources
    (r.2 = none ∧ ¬ StartsOutside b₁ b₂ payload.length o ∧
        r.1.out = writer.out ++ served b₁ b₂ payload o l) ∨
      r.2 ≠ none ∧ ReadFails b₁ b₂ o payload sources writer (o / b₂)
        ((o + l - 1) / b₂ + 1 - o / b₂) := by
  intro r
  have hpos : 0 < b₂ := by
    have := effectiveBlockSize_pos cfg
    rw [hb₂] at this
    exact this
  have hstart : writtenAt b₁ b₂ payload.length o l (o / b₂) = 0 := by
    unfold writtenAt window
    omega
  have hle : o / b₂ ≤ (o + l - 1) / b₂ := Nat.div_le_div_right (by omega)
  have hout : writer.out = writer.out ++ slice (window b₁ b₂ o)
      (writtenAt b₁ b₂ payload.length o l (o / b₂)) payload := by
    rw [hstart, slice_zero, List.append_nil]
  have hspec := readBlocksLoop_spec hb₁ hpos hhonest ((o + l - 1) / b₂ + 1 - o / b₂) le_rfl
    (fun h => absurd h (lt_irrefl _)) hout
  rw [hstart, Nat.add_sub_cancel' (by omega : o / b₂ ≤ (o + l - 1) / b₂ + 1)] at hspec
  have hr : r = readBlocksLoop b₂ o l (chunkRefs b₁ payload) sources
      ((o + l - 1) / b₂ + 1 - o / b₂) (o / b₂) writer 0 := by
    rw [← hblocks]
    exact getBlockReplicatedObject_of_le hb₂ hl (by omega) (by omega)
  rw [hr]
  rcases hspec with ⟨hnil, hso, hserved⟩ | hfails
  · exact Or.inl ⟨hnil, hso (by omega), hserved⟩
  · exact Or.inr hfails

lemma getBlockReplicatedObject_of_missing (hl : 1 ≤ l)
    (hin : o + l ≤ payload.length) (hfirst : o / b₂ * b₁ < payload.length) {err : Err}
    (hread : readBlock (hashBlockData (block b₁ (o / b₂) payload)) sources = .error err) :
    (getBlockReplicatedObject cfg o l writer fi sources).2 ≠ none := by
  have hle : o / b₂ ≤ (o + l - 1) / b₂ := Nat.div_le_div_right (by omega)
  have hcount : (o + l - 1) / b₂ + 1 - o / b₂ = (o + l - 1) / b₂ - o / b₂ + 1 := by omega
  rw [getBlockReplicatedObject_of_le hb₂ hl (by omega) (by omega), hblocks, hcount, readBlocksLoop,
    chunkRefs_getElem? hb₁ hfirst]
  simp only [hread]
  exact Option.some_ne_none _

end

/-- The reader finds the start of the range, since the sizes are equal or the range starts in the first
block, and the blocks that it reads reach to the end of the range. -/
def ReadsThere (b₁ b₂ o l : ℕ) : Prop :=
  (b₁ = b₂ ∨ o < b₂) ∧ o + l ≤ ((o + l - 1) / b₂ + 1) * b₁

lemma window_eq_iff (hb₂ : 0 < b₂) : window b₁ b₂ o = o ↔ b₁ = b₂ ∨ o < b₂ := by
  have hdiv := Nat.div_add_mod o b₂
  rw [mul_comm] at hdiv
  have hstart : window b₁ b₂ o = o ↔ o / b₂ * b₁ = o / b₂ * b₂ := by
    unfold window
    omega
  rw [hstart, mul_eq_mul_left_iff, Nat.div_eq_zero_iff_lt hb₂]

lemma served_of_readsThere (hb₂ : 0 < b₂) (hin : o + l ≤ payload.length)
    (h : ReadsThere b₁ b₂ o l) :
    served b₁ b₂ payload o l = slice o l payload := by
  have hwritten : writtenAt b₁ b₂ payload.length o l ((o + l - 1) / b₂ + 1) = l := by
    unfold writtenAt
    rw [(window_eq_iff hb₂).mpr h.1]
    have := h.2
    omega
  rw [served, hwritten, (window_eq_iff hb₂).mpr h.1]

lemma served_same {b : ℕ} (hb : 0 < b) (hin : o + l ≤ payload.length) :
    served b b payload o l = slice o l payload := by
  have hlast := Nat.div_add_mod (o + l - 1) b
  have hmod := Nat.mod_lt (o + l - 1) hb
  refine served_of_readsThere hb hin ⟨Or.inl rfl, ?_⟩
  rw [Nat.succ_mul, mul_comm]
  omega

lemma not_startsOutside_same {b n : ℕ} (hb : 0 < b) (ho : o < n) : ¬ StartsOutside b b n o := by
  rintro ⟨hlt, hout⟩
  have hdiv := Nat.div_add_mod o b
  have hmod := Nat.mod_lt o hb
  rw [mul_comm] at hdiv
  omega

end Request

end Obstor.Block
