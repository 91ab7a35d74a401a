import Obstor.Erasure.Coding
import Obstor.Go.Streams
import Obstor.Quorum.Reduce

/-!
# Writing the shards

`Erasure.Encode` fills a buffer from its source, encodes what it got and writes one shard to each
writer, until the source ends (`cmd/erasure-encode.go`). A writer that fails is dropped; the loop
stops when the writers left do not reach the quorum.

The shard file of index `i` (`shardFile`) is the `i`-th shard of every block in turn.
-/

namespace Obstor.Coding

open Go Lib Quorum List

/-! ### One shard writer -/

/-- A slot of `parallelWriter`: the file behind the writer, whether the writer is (or became) nil,
and its entry of `errs`. -/
structure ShardWriter where
  file : Sink
  isNil : Bool
  err : Option Err
  deriving DecidableEq

namespace ShardWriter

/-- One round of `parallelWriter.Write` for one writer. -/
def write (w : ShardWriter) (block : Bytes) : ShardWriter :=
  if w.isNil then { w with err := some .diskNotFound }
  else if w.err ≠ none then w
  else
    let r := w.file.write block
    { file := r.1, isNil := r.2.isSome, err := r.2 }

def Live (w : ShardWriter) : Prop := w.isNil = false ∧ w.err = none

variable {w : ShardWriter} {block : Bytes}

lemma write_of_live (h : w.Live) :
    w.write block = ⟨(w.file.write block).1, (w.file.write block).2.isSome,
      (w.file.write block).2⟩ := by
  simp [write, h.1, h.2]

lemma write_of_not_live (h : ¬ w.Live) :
    (w.write block).file = w.file ∧ ¬ (w.write block).Live := by
  unfold write
  by_cases hnil : w.isNil = true
  · rw [if_pos hnil]
    exact ⟨rfl, fun hl => by simp [Live] at hl⟩
  · have hnil' : w.isNil = false := by simpa using hnil
    have herr : w.err ≠ none := fun he => h ⟨hnil', he⟩
    rw [if_neg hnil, if_pos herr]
    exact ⟨rfl, h⟩

lemma out_of_live_write (h : (w.write block).Live) :
    w.Live ∧ (w.write block).file.out = w.file.out ++ block := by
  by_cases hw : w.Live
  · refine ⟨hw, ?_⟩
    rw [write_of_live hw] at h ⊢
    exact Sink.out_write h.2
  · exact absurd h (write_of_not_live hw).2

def Healthy (w : ShardWriter) : Prop := w.Live ∧ w.file.room = none

lemma Healthy.write (h : w.Healthy) : (w.write block).Healthy := by
  obtain ⟨hnil, hroom⟩ := Sink.write_unlimited block h.2
  rw [write_of_live h.1]
  exact ⟨⟨by rw [hnil]; rfl, hnil⟩, hroom⟩

/-- The blocks written one after the other. -/
def writeAll (w : ShardWriter) (bs : List Bytes) : ShardWriter := bs.foldl write w

lemma writeAll_of_not_live (h : ¬ w.Live) (bs : List Bytes) :
    (w.writeAll bs).file = w.file ∧ ¬ (w.writeAll bs).Live := by
  induction bs generalizing w with
  | nil => exact ⟨rfl, h⟩
  | cons b bs ih =>
    have hb : (w.write b).file = w.file ∧ ¬ (w.write b).Live := write_of_not_live h
    have hrest := ih hb.2
    exact ⟨hrest.1.trans hb.1, hrest.2⟩

lemma out_writeAll_isPrefix (w : ShardWriter) (bs : List Bytes) :
    (w.writeAll bs).file.out <+: w.file.out ++ bs.flatten := by
  induction bs generalizing w with
  | nil => simp [writeAll]
  | cons b bs ih =>
    rw [flatten_cons, ← append_assoc]
    by_cases hlive : (w.write b).Live
    · rw [← (out_of_live_write hlive).2]
      exact ih (w.write b)
    · -- the file stops here
      have hstop := (writeAll_of_not_live hlive bs).1
      have hb : (w.write b).file.out <+: w.file.out ++ b := by
        by_cases hw : w.Live
        · rw [write_of_live hw]
          exact Sink.out_write_isPrefix _ _
        · rw [(write_of_not_live hw).1]
          exact prefix_append _ _
      show ((w.write b).writeAll bs).file.out <+: _
      rw [hstop]
      exact hb.trans (prefix_append _ _)

lemma out_of_live_writeAll (bs : List Bytes) (h : (w.writeAll bs).Live) :
    (w.writeAll bs).file.out = w.file.out ++ bs.flatten := by
  induction bs generalizing w with
  | nil => simp [writeAll]
  | cons b bs ih =>
    have hb : (w.write b).Live := by
      by_contra hb
      exact (writeAll_of_not_live hb bs).2 h
    rw [flatten_cons, ← append_assoc, ← (out_of_live_write hb).2]
    exact ih h

end ShardWriter

/-! ### All writers -/

structure ParallelWriter where
  writers : List ShardWriter
  writeQuorum : ℤ

/-- `parallelWriter.Write`. The callers have one writer for each shard. -/
def ParallelWriter.write (ρ : RangeOrder) (p : ParallelWriter) (blocks : List Bytes) :
    ParallelWriter × Option Err :=
  let writers := p.writers.mapIdx fun i w => w.write (blocks.getD i [])
  ({ p with writers },
    reduceWriteQuorumErrs ρ (writers.map ShardWriter.err) objectOpIgnoredErrs p.writeQuorum)

namespace Erasure

variable (e : Erasure) (ρ : RangeOrder)

/-- The part of the loop of `Encode` for a chunk that was read: a chunk of `n > 0` bytes is encoded
and written. -/
def encodeChunk (p : ParallelWriter) (chunk : Bytes) : ParallelWriter × Option Err :=
  if chunk.length > 0 then
    match e.encodeData chunk with
    | .error err => (p, some err)
    | .ok blocks => p.write ρ blocks
  else (p, none)

/-- The loop of `Encode`, with a buffer of `buf` bytes. -/
def encodeLoop (buf : ℕ) (hbuf : 0 < buf) (src : Source) (p : ParallelWriter) (total : ℕ) :
    ParallelWriter × ℕ × Option Err :=
  let r := src.readFull buf
  match e.encodeChunk ρ p r.bytes with
  | (p', some err) => (p', 0, some err)
  | (p', none) =>
    match _h : r.fin with
    | .eof => (p', total + r.bytes.length, none)
    | .failed err => (p', 0, some err)
    | .full => encodeLoop buf hbuf r.rest p' (total + r.bytes.length)
termination_by src.data.length
decreasing_by exact Source.length_rest_lt hbuf _h

/-- `Encode`: the writers afterwards, the number of bytes and the error. -/
def encode (src : Source) (writers : List ShardWriter) (buf : ℕ) (hbuf : 0 < buf) (quorum : ℤ) :
    List ShardWriter × ℕ × Option Err :=
  let r := e.encodeLoop ρ buf hbuf src ⟨writers, quorum⟩ 0
  (r.1.writers, r.2)

/-! ### Shard files -/

def codeword (data : Bytes) : List Bytes :=
  match e.encodeData data with
  | .ok code => code
  | .error _ => []

/-- The shards of index `i`, one for each block that a buffer of `buf` bytes cuts. -/
def shardBlocks (buf : ℕ) (data : Bytes) (i : ℕ) : List Bytes :=
  (blocks buf data).map fun blk => (e.codeword blk).getD i []

def shardFile (buf : ℕ) (data : Bytes) (i : ℕ) : Bytes := (e.shardBlocks buf data i).flatten

variable {e ρ}

lemma codeword_spec (e : Erasure) {data : Bytes} (hne : data ≠ []) :
    e.encodeData data = .ok (e.codeword data) ∧ e.Codeword data (e.codeword data) := by
  obtain ⟨code, hcode, hspec⟩ := e.encodeData_ok hne
  have : e.codeword data = code := by simp [codeword, hcode]
  rw [this]
  exact ⟨hcode, hspec⟩

lemma encodeChunk_of_ne_nil (p : ParallelWriter) {chunk : Bytes} (hne : chunk ≠ []) :
    e.encodeChunk ρ p chunk = p.write ρ (e.codeword chunk) := by
  rw [encodeChunk, if_pos (length_pos_of_ne_nil hne), (e.codeword_spec hne).1]

lemma encodeChunk_nil (p : ParallelWriter) : e.encodeChunk ρ p [] = (p, none) := rfl

/-- The writers after the first chunks `bs`. -/
def afterChunks (e : Erasure) (bs : List Bytes) (writers : List ShardWriter) : List ShardWriter :=
  writers.mapIdx fun i w => w.writeAll (bs.map fun blk => (e.codeword blk).getD i [])

lemma afterChunks_nil (writers : List ShardWriter) : e.afterChunks [] writers = writers := by
  refine ext_getElem (by simp [afterChunks]) fun i h₁ h₂ => ?_
  simp [afterChunks, ShardWriter.writeAll]

lemma afterChunks_append (bs bs' : List Bytes) (writers : List ShardWriter) :
    e.afterChunks bs' (e.afterChunks bs writers) = e.afterChunks (bs ++ bs') writers := by
  unfold afterChunks
  rw [mapIdx_mapIdx]
  congr 1
  funext i w
  rw [Function.comp_apply, map_append, ShardWriter.writeAll, ShardWriter.writeAll,
    ShardWriter.writeAll, foldl_append]

lemma encodeChunk_writers (e : Erasure) (ρ : RangeOrder) (p : ParallelWriter) {chunk : Bytes}
    (hne : chunk ≠ []) :
    (e.encodeChunk ρ p chunk).1.writers = e.afterChunks [chunk] p.writers ∧
      (e.encodeChunk ρ p chunk).1.writeQuorum = p.writeQuorum := by
  rw [encodeChunk_of_ne_nil p hne]
  exact ⟨rfl, rfl⟩

variable {buf : ℕ}

/-- The writers have been given the shards of the first `k` blocks, of all if there is no error. -/
lemma encodeLoop_spec (e : Erasure) (ρ : RangeOrder) (hbuf : 0 < buf) (src : Source)
    (p : ParallelWriter) (total : ℕ) :
    ∃ k, (e.encodeLoop ρ buf hbuf src p total).1.writers =
        e.afterChunks ((blocks buf src.data).take k) p.writers ∧
      ((e.encodeLoop ρ buf hbuf src p total).2.2 = none → (blocks buf src.data).length ≤ k ∧
        (e.encodeLoop ρ buf hbuf src p total).2.1 = total + src.data.length) := by
  induction hn : src.data.length using Nat.strong_induction_on generalizing src p total with
  | _ n ih =>
    subst hn
    rw [encodeLoop]
    by_cases hle : buf ≤ src.data.length
    · -- the buffer is full: one round, then the rest of the source
      have hne : src.data ≠ [] := ne_nil_of_length_pos (by omega)
      have hchunk : src.data.take buf ≠ [] := by
        apply ne_nil_of_length_pos
        rw [length_take]
        omega
      rw [Source.readFull_of_le hle, blocks_cons hbuf hne]
      obtain ⟨hw, -⟩ := e.encodeChunk_writers ρ p hchunk
      rcases hr : e.encodeChunk ρ p (src.data.take buf) with ⟨p', _ | err⟩
      · rw [hr] at hw
        obtain ⟨k, hk, hdone⟩ := ih _
          (by rw [length_drop]; omega) { src with data := src.data.drop buf } p'
          _ rfl
        rw [hw, afterChunks_append] at hk
        refine ⟨k + 1, hk, fun hnone => ?_⟩
        obtain ⟨hall, htotal⟩ := hdone hnone
        refine ⟨by simpa using hall, htotal.trans ?_⟩
        rw [length_take, length_drop]
        omega
      · rw [hr] at hw
        exact ⟨1, hw, fun hnone => by simp at hnone⟩
    · rw [Source.readFull_of_lt (by omega)]
      by_cases hnil : src.data = []
      · rw [hnil, blocks_nil hbuf, encodeChunk_nil]
        refine ⟨0, ?_, ?_⟩
        · rw [take_nil, afterChunks_nil]
          cases src.err <;> rfl
        · cases src.err <;> simp
      · -- the last block is shorter than the buffer
        rw [blocks_of_length_le hnil (by omega)]
        obtain ⟨hw, -⟩ := e.encodeChunk_writers ρ p hnil
        refine ⟨1, ?_, ?_⟩
        · rw [take_of_length_le (by simp), ← hw]
          rcases e.encodeChunk ρ p src.data with ⟨p', _ | err⟩ <;> cases src.err <;> rfl
        · rcases e.encodeChunk ρ p src.data with ⟨p', _ | err⟩ <;> cases src.err <;> simp

lemma encode_length (src : Source) (writers : List ShardWriter) (hbuf : 0 < buf)
    (quorum : ℤ) : (e.encode ρ src writers buf hbuf quorum).1.length = writers.length := by
  obtain ⟨k, hk, -⟩ := e.encodeLoop_spec ρ hbuf src _ 0
  exact (congrArg length hk).trans length_mapIdx

lemma encode_files (src : Source) (writers : List ShardWriter) (hbuf : 0 < buf)
    (quorum : ℤ) {i : ℕ} {w' : ShardWriter}
    (hw' : (e.encode ρ src writers buf hbuf quorum).1[i]? = some w') :
    ∃ w, writers[i]? = some w ∧ w'.file.out <+: w.file.out ++ e.shardFile buf src.data i ∧
      ((e.encode ρ src writers buf hbuf quorum).2.2 = none → w'.Live →
        w'.file.out = w.file.out ++ e.shardFile buf src.data i) := by
  obtain ⟨k, hk, hdone⟩ := e.encodeLoop_spec ρ hbuf src _ 0
  have hwriters : (e.encode ρ src writers buf hbuf quorum).1 = _ := hk
  rw [hwriters, afterChunks, getElem?_mapIdx, Option.map_eq_some_iff] at hw'
  obtain ⟨w, hw, rfl⟩ := hw'
  refine ⟨w, hw, ?_, fun hnone hlive => ?_⟩
  · refine (ShardWriter.out_writeAll_isPrefix w _).trans ?_
    rw [prefix_append_right_inj, shardFile, shardBlocks, map_take]
    exact ⟨(drop k _).flatten, by rw [← flatten_append, take_append_drop]⟩
  · rw [ShardWriter.out_of_live_writeAll _ hlive, take_of_length_le (hdone hnone).1]
    rfl

lemma encodeChunk_healthy (e : Erasure) (ρ : RangeOrder) {p : ParallelWriter} (chunk : Bytes)
    (hw : ∀ w ∈ p.writers, w.Healthy) (hq : p.writeQuorum ≤ p.writers.length) :
    (e.encodeChunk ρ p chunk).2 = none ∧ (∀ w ∈ (e.encodeChunk ρ p chunk).1.writers, w.Healthy) ∧
      (e.encodeChunk ρ p chunk).1.writeQuorum ≤ (e.encodeChunk ρ p chunk).1.writers.length := by
  by_cases hne : chunk = []
  · rw [hne]
    exact ⟨rfl, hw, hq⟩
  · rw [encodeChunk_of_ne_nil p hne]
    have hafter : ∀ w ∈ (p.write ρ (e.codeword chunk)).1.writers, w.Healthy := by
      intro w hmem
      obtain ⟨i, hi, rfl⟩ := mem_mapIdx.mp hmem
      exact (hw _ (getElem_mem hi)).write
    have hlen : (p.write ρ (e.codeword chunk)).1.writers.length = p.writers.length := length_mapIdx
    refine ⟨?_, hafter, by rw [hlen]; exact hq⟩
    refine reduceQuorumErrs_of_all_none ρ _ (by simp) (fun err hmem => ?_) ?_
    · obtain ⟨w, hw', rfl⟩ := mem_map.mp hmem
      exact (hafter w hw').1.2
    · rw [length_map]
      exact hq.trans_eq (congrArg Nat.cast hlen.symm)

lemma encodeLoop_healthy (e : Erasure) (ρ : RangeOrder) (hbuf : 0 < buf)
    (data : Bytes) {p : ParallelWriter} (hw : ∀ w ∈ p.writers, w.Healthy)
    (hq : p.writeQuorum ≤ p.writers.length) (total : ℕ) :
    (e.encodeLoop ρ buf hbuf ⟨data, none⟩ p total).2.2 = none ∧
      ∀ w ∈ (e.encodeLoop ρ buf hbuf ⟨data, none⟩ p total).1.writers, w.Healthy := by
  induction hn : data.length using Nat.strong_induction_on generalizing data p total with
  | _ n ih =>
    rw [encodeLoop]
    by_cases hle : buf ≤ data.length
    · rw [Source.readFull_of_le hle]
      have hround := e.encodeChunk_healthy ρ (data.take buf) hw hq
      rcases hr : e.encodeChunk ρ p (data.take buf) with ⟨p', _ | err⟩
      · rw [hr] at hround
        exact ih _ (by rw [length_drop]; omega) (data.drop buf)
          hround.2.1 hround.2.2 _ rfl
      · rw [hr] at hround
        exact absurd hround.1 (by simp)
    · rw [Source.readFull_of_lt (by simp only; omega)]
      have hround := e.encodeChunk_healthy ρ data hw hq
      rcases hr : e.encodeChunk ρ p data with ⟨p', _ | err⟩
      · rw [hr] at hround
        exact ⟨rfl, hround.2.1⟩
      · rw [hr] at hround
        exact absurd hround.1 (by simp)

lemma encode_healthy (e : Erasure) (ρ : RangeOrder) (data : Bytes) (quorum : ℤ)
    {writers : List ShardWriter} (hbuf : 0 < buf) (hw : ∀ w ∈ writers, w.Healthy)
    (hq : quorum ≤ writers.length) :
    (e.encode ρ ⟨data, none⟩ writers buf hbuf quorum).2 = (data.length, none) ∧
      ∀ i w', (e.encode ρ ⟨data, none⟩ writers buf hbuf quorum).1[i]? = some w' →
        ∃ w, writers[i]? = some w ∧ w'.file.out = w.file.out ++ e.shardFile buf data i := by
  obtain ⟨hnone, hhealthy⟩ := e.encodeLoop_healthy ρ hbuf data (p := ⟨writers, quorum⟩) hw hq 0
  obtain ⟨k, -, hdone⟩ := e.encodeLoop_spec ρ hbuf _ _ 0
  have htotal : (e.encode ρ ⟨data, none⟩ writers buf hbuf quorum).2.1 = data.length :=
    (hdone hnone).2.trans (zero_add _)
  refine ⟨Prod.ext htotal hnone, fun i w' hw' => ?_⟩
  obtain ⟨w, hwi, -, hfile⟩ := encode_files _ writers hbuf quorum hw'
  exact ⟨w, hwi, hfile hnone (hhealthy w' (mem_of_getElem? hw')).1⟩

end Erasure

/-! ### Where a shard stands in its file

Written with a buffer of one block, all shards but the last have `ShardSize` bytes. The size that a
reader computes from `ShardFileSize` is that of the shard it is about to read (`clip_shardSize`). -/

namespace Erasure

variable (e : Erasure)

/-- The length of the shards of block number `j` of `n` bytes of data. -/
def blockShardSize (n j : ℕ) : ℕ := blockCount e.dataBlocks (min e.blockSize (n - j * e.blockSize))

variable {e}

lemma shardSize_eq : e.shardSize = blockCount e.dataBlocks e.blockSize :=
  ceilFrac_eq e.dataBlocks_pos

lemma shardSize_pos (e : Erasure) : 0 < e.shardSize := by
  rw [shardSize_eq]
  exact blockCount_pos e.dataBlocks_pos e.blockSize_pos

lemma shardFileSize_eq (e : Erasure) (n : ℕ) : e.shardFileSize n =
      n / e.blockSize * e.shardSize + blockCount e.dataBlocks (n % e.blockSize) := by
  rw [shardFileSize, ceilFrac_eq e.dataBlocks_pos]
  by_cases hn : n = 0
  · rw [if_pos hn, hn, Nat.zero_div, Nat.zero_mod, blockCount_zero e.dataBlocks_pos, zero_mul]
  · rw [if_neg hn]

variable {n j : ℕ}

lemma blockShardSize_of_full (h : (j + 1) * e.blockSize ≤ n) :
    e.blockShardSize n j = e.shardSize := by
  rw [Nat.succ_mul] at h
  rw [blockShardSize, shardSize_eq, min_eq_left (by omega)]

lemma blockShardSize_pos (h : j * e.blockSize < n) : 0 < e.blockShardSize n j := by
  have := e.blockSize_pos
  exact blockCount_pos e.dataBlocks_pos (by omega)

lemma clip_shardSize (h : j * e.blockSize < n) :
    (if j * e.shardSize + e.shardSize > e.shardFileSize n
      then e.shardFileSize n - j * e.shardSize else e.shardSize) = e.blockShardSize n j := by
  have hb := e.blockSize_pos
  rw [shardFileSize_eq]
  by_cases hfull : (j + 1) * e.blockSize ≤ n
  · -- not the last block, or a last block that is full
    have hj : j + 1 ≤ n / e.blockSize := (Nat.le_div_iff_mul_le hb).mpr hfull
    have hmul := Nat.mul_le_mul_right e.shardSize hj
    rw [Nat.succ_mul] at hmul
    rw [if_neg (by omega), blockShardSize_of_full hfull]
  · have hj : n / e.blockSize = j := Nat.div_eq_of_lt_le h.le (by omega)
    have hmod : n % e.blockSize = n - j * e.blockSize := by
      have := Nat.div_add_mod n e.blockSize
      rw [hj, mul_comm] at this
      omega
    have hlt := Nat.mod_lt n hb
    have hle : blockCount e.dataBlocks (n % e.blockSize) ≤ e.shardSize := by
      rw [shardSize_eq]
      exact blockCount_mono hlt.le
    rw [blockShardSize, ← hmod, min_eq_right hlt.le, hj]
    split_ifs <;> omega

lemma shard_le_shardFileSize (h : j * e.blockSize < n) :
    j * e.shardSize + e.blockShardSize n j ≤ e.shardFileSize n := by
  have hj : j ≤ n / e.blockSize := (Nat.le_div_iff_mul_le e.blockSize_pos).mpr h.le
  have hmul := Nat.mul_le_mul_right e.shardSize hj
  have hfile := e.shardFileSize_eq n
  rw [← clip_shardSize h]
  split_ifs <;> omega

lemma shard_le_shardFileOffset {offset length : ℕ} (hrange : offset + length ≤ n)
    (h : j * e.blockSize < offset + length) :
    j * e.shardSize + e.blockShardSize n j ≤ e.shardFileOffset offset length n := by
  have hj : j ≤ (offset + length) / e.blockSize := (Nat.le_div_iff_mul_le e.blockSize_pos).mpr h.le
  have hmul := Nat.mul_le_mul_right e.shardSize hj
  have hsize : e.blockShardSize n j ≤ e.shardSize := by
    rw [shardSize_eq]
    exact blockCount_mono (min_le_left _ _)
  have hfile := shard_le_shardFileSize (h.trans_le hrange)
  apply le_min
  · omega
  · exact hfile

variable {data : Bytes} {i : ℕ}

section

variable (h : j * e.blockSize < data.length)

include h

lemma shardBlocks_getElem? : (e.shardBlocks e.blockSize data i)[j]? =
      some ((e.codeword (block e.blockSize j data)).getD i []) := by
  have hj := (lt_blockCount_iff e.blockSize_pos).mpr h
  rw [shardBlocks, blocks, List.map_map, List.getElem?_map, List.getElem?_range hj]
  rfl

lemma block_ne_nil : block e.blockSize j data ≠ [] := by
  have := e.blockSize_pos
  apply List.ne_nil_of_length_pos
  rw [block_length]
  omega

lemma codeword_block :
    e.Codeword (block e.blockSize j data) (e.codeword (block e.blockSize j data)) :=
  (e.codeword_spec (block_ne_nil h)).2

end

lemma length_shard (hi : i < e.shards) (h : j * e.blockSize < data.length) :
    ((e.codeword (block e.blockSize j data)).getD i []).length =
      e.blockShardSize data.length j := by
  have hcode := codeword_block h
  rw [← hcode.length] at hi
  rw [List.getD_eq_getElem?_getD, List.getElem?_eq_getElem hi, Option.getD_some,
    hcode.size _ (List.getElem_mem hi), block_length]
  rfl

lemma slice_shardFile (hi : i < e.shards) (h : j * e.blockSize < data.length) :
    slice (j * e.shardSize) (e.blockShardSize data.length j) (e.shardFile e.blockSize data i) =
      (e.codeword (block e.blockSize j data)).getD i [] := by
  obtain ⟨hj, hshard⟩ := List.getElem?_eq_some_iff.mp (shardBlocks_getElem? h)
  rw [← length_shard hi h, ← hshard]
  refine slice_flatten hj fun k hk hkj => ?_
  have hle : (k + 1) * e.blockSize ≤ data.length := (Nat.mul_le_mul_right _ hkj).trans h.le
  have hlt : k * e.blockSize < data.length :=
    (Nat.mul_lt_mul_of_pos_right (Nat.lt_succ_self k) e.blockSize_pos).trans_le hle
  obtain ⟨_, hshardk⟩ := List.getElem?_eq_some_iff.mp (shardBlocks_getElem? hlt)
  rw [hshardk, length_shard hi hlt, blockShardSize_of_full hle]

end Erasure

end Obstor.Coding
