import Obstor.Erasure.ReadCalls

/-!
# Shard files with their hashes

A shard file holds, before the shard of each block, the hash of that shard. It is written by a
`streamingBitrotWriter` and read by a `streamingBitrotReader`, which opens the file at its first
`ReadAt`, goes through it from front to back, and refuses a call at any other place
(`cmd/bitrot-streaming.go`).

`streamingBitrotReader_answers`: it answers every call that `Decode` makes with the bytes of the
shard. The calls to one reader are for consecutive blocks (`callsTo_reads`), and `ReadyAt`, the
position of the reader between two of them, is kept by each (`ReadyAt.readAt`).
-/

namespace Obstor.Coding

open Go Lib List Erasure

/-- A `hash.Hash` made by `BitrotAlgorithm.New`: its sum over what was written, and its `Size`. -/
structure Hash where
  sum : Bytes → Bytes
  size : ℕ
  length_sum : ∀ p, (sum p).length = size

attribute [simp] Hash.length_sum

/-! ### Writing -/

/-- `streamingBitrotWriter.Write` over the writer behind it. -/
def streamingBitrotWrite (h : Hash) (iow : Sink) (p : Bytes) : Sink × Option Err :=
  if p.length = 0 then (iow, none)
  else
    match iow.write (h.sum p) with
    | (iow', some err) => (iow', some err)
    | (iow', none) => iow'.write p

/-- The stream that a writer of the given shards produced. -/
def bitrotStream (h : Hash) (shards : List Bytes) : Bytes :=
  (shards.foldl (fun iow p => (streamingBitrotWrite h iow p).1) Sink.unlimited).out

/-- The size of `length` bytes of shards with their hashes. -/
def bitrotFileSize (h : Hash) (length shardSize : ℕ) : ℕ :=
  ceilFrac length shardSize * h.size + length

/-! ### Reading -/

/-- `ReadFileStream` of a disk, given what it has under the path: the bytes or an error. -/
def readFileStream (file : Except Err Bytes) (offset length : ℕ) : Except Err Source :=
  file.map fun bytes => ⟨slice offset length bytes, none⟩

/-- `streamingBitrotReader`. `disk` stands for `disk`, `volume` and `filePath`. -/
structure StreamingBitrotReader where
  disk : Except Err Bytes
  data : Bytes
  rc : Option Source
  tillOffset : ℕ
  currOffset : ℕ
  h : Hash
  shardSize : ℕ

def newStreamingBitrotReader (disk : Except Err Bytes) (data : Bytes) (tillOffset : ℕ) (h : Hash)
    (shardSize : ℕ) : StreamingBitrotReader where
  disk := disk
  data := data
  rc := none
  tillOffset := bitrotFileSize h tillOffset shardSize
  currOffset := 0
  h := h
  shardSize := shardSize

def readFullErr (r : Filled) : Option Err :=
  match r.fin with
  | .full => none
  | .eof => some (if r.bytes = [] then .new 0 "EOF" else .unexpectedEOF)
  | .failed err => some err

namespace StreamingBitrotReader

/-- The first part of `ReadAt`: the stream, which the first call opens. -/
def stream (b : StreamingBitrotReader) (offset : ℕ) :
    StreamingBitrotReader × Except Err Source :=
  match b.rc with
  | some rc => (b, .ok rc)
  | none =>
    let b := { b with currOffset := offset }
    let streamOffset := offset / b.shardSize * b.h.size + offset
    let length := b.tillOffset - streamOffset
    if b.data.length = 0 ∧ b.tillOffset ≠ streamOffset then
      (b, readFileStream b.disk streamOffset length)
    else (b, .ok ⟨slice streamOffset length b.data, none⟩)

/-- `ReadAt` with a buffer of `n` bytes. -/
def readAt (b : StreamingBitrotReader) (n offset : ℕ) :
    StreamingBitrotReader × Except Err Bytes :=
  if offset % b.shardSize ≠ 0 then (b, .error .unexpected)
  else
    match b.stream offset with
    | (b, .error err) => (b, .error err)
    | (b, .ok rc) =>
      if offset ≠ b.currOffset then ({ b with rc := some rc }, .error .unexpected)
      else
        let hashBytes := rc.readFull b.h.size
        match readFullErr hashBytes with
        | some err => ({ b with rc := some hashBytes.rest }, .error err)
        | none =>
          let buf := hashBytes.rest.readFull n
          match readFullErr buf with
          | some err => ({ b with rc := some buf.rest }, .error err)
          | none =>
            if b.h.sum buf.bytes ≠ hashBytes.bytes then
              ({ b with rc := some buf.rest }, .error .fileCorrupt)
            else
              ({ b with rc := some buf.rest, currOffset := b.currOffset + n }, .ok buf.bytes)

/-- What a reader answers to calls, given by offset and length, one after the other. -/
def readAts (b : StreamingBitrotReader) : List (ℕ × ℕ) → List (Except Err Bytes)
  | [] => []
  | c :: cs => (b.readAt c.2 c.1).2 :: (b.readAt c.2 c.1).1.readAts cs

end StreamingBitrotReader

/-! ### The layout of the stream -/

lemma bitrotStream_eq (h : Hash) {shards : List Bytes} (hne : ∀ p ∈ shards, p ≠ []) :
    bitrotStream h shards = (shards.map fun p => h.sum p ++ p).flatten := by
  suffices hfold : ∀ iow : Sink, iow.room = none → (shards.foldl _ iow).out =
        iow.out ++ (shards.map _).flatten by
    exact hfold _ rfl
  induction shards with
  | nil =>
    intro iow _
    simp
  | cons p shards ih =>
    intro iow hroom
    have hp : p ≠ [] := hne p mem_cons_self
    have hwrite : streamingBitrotWrite h iow p =
        ({ iow with out := iow.out ++ h.sum p ++ p }, none) := by
      simp [streamingBitrotWrite, hp, Sink.write, hroom]
    rw [foldl_cons, hwrite, ih fun q hq => hne q (mem_cons_of_mem _ hq)]
    · simp
    · exact hroom

variable {h : Hash} {e : Erasure} {data : Bytes} {i j : ℕ}

lemma shardBlocks_ne_nil (hi : i < e.shards) {p : Bytes}
    (hp : p ∈ e.shardBlocks e.blockSize data i) : p ≠ [] := by
  obtain ⟨j, hj, rfl⟩ := mem_iff_getElem.mp hp
  have hlt : j * e.blockSize < data.length := by
    rw [shardBlocks, length_map, blocks_length] at hj
    exact (lt_blockCount_iff e.blockSize_pos).mp hj
  obtain ⟨_, hshard⟩ := List.getElem?_eq_some_iff.mp (shardBlocks_getElem? hlt)
  rw [hshard]
  apply ne_nil_of_length_pos
  rw [length_shard hi hlt]
  exact blockShardSize_pos hlt

lemma slice_bitrotStream (h : Hash) (hi : i < e.shards) (hj : j * e.blockSize < data.length) :
    slice (j * (h.size + e.shardSize)) (h.size + e.blockShardSize data.length j)
      (bitrotStream h (e.shardBlocks e.blockSize data i)) =
      h.sum ((e.codeword (block e.blockSize j data)).getD i []) ++
        (e.codeword (block e.blockSize j data)).getD i [] := by
  rw [bitrotStream_eq h fun p hp => shardBlocks_ne_nil hi hp]
  obtain ⟨hlt, hshard⟩ := List.getElem?_eq_some_iff.mp (shardBlocks_getElem? hj)
  have hlen := length_shard hi hj
  have hj' : j < ((e.shardBlocks e.blockSize data i).map fun p => h.sum p ++ p).length := by
    rwa [length_map]
  have hfull : ∀ k (hk : k < ((e.shardBlocks e.blockSize data i).map fun p => h.sum p ++ p).length),
      k < j → ((e.shardBlocks e.blockSize data i).map fun p => h.sum p ++ p)[k].length =
        h.size + e.shardSize := by
    intro k hk hkj
    have hle : (k + 1) * e.blockSize ≤ data.length := (Nat.mul_le_mul_right _ hkj).trans hj.le
    have hklt : k * e.blockSize < data.length :=
      (Nat.mul_lt_mul_of_pos_right (Nat.lt_succ_self k) e.blockSize_pos).trans_le hle
    obtain ⟨_, hshardk⟩ := List.getElem?_eq_some_iff.mp (shardBlocks_getElem? hklt)
    rw [getElem_map, hshardk, length_append, h.length_sum, length_shard hi hklt,
      blockShardSize_of_full hle]
  have hchunk := slice_flatten hj' hfull
  simpa only [getElem_map, hshard, length_append, h.length_sum, hlen] using hchunk

lemma chunk_le_tillOffset (h : Hash) {offset length : ℕ} (hrange : offset + length ≤ data.length)
    (hj : j * e.blockSize < offset + length) :
    j * (h.size + e.shardSize) + (h.size + e.blockShardSize data.length j) ≤
      bitrotFileSize h (e.shardFileOffset offset length data.length) e.shardSize := by
  have hpos := blockShardSize_pos (hj.trans_le hrange)
  have htill := shard_le_shardFileOffset hrange hj
  have hcount : j + 1 ≤ ceilFrac (e.shardFileOffset offset length data.length) e.shardSize := by
    rw [ceilFrac_eq e.shardSize_pos]
    exact (lt_blockCount_iff e.shardSize_pos).mpr (by omega)
  have hmul := Nat.mul_le_mul_right h.size hcount
  rw [Nat.succ_mul] at hmul
  rw [bitrotFileSize, mul_add]
  omega

/-! ### One call -/

/-- The reader stands before the hash of block `j`, or is not opened yet. `till` is the end of what
it reads of the stream. -/
structure ReadyAt (h : Hash) (S till : ℕ) (file : Bytes) (j : ℕ) (b : StreamingBitrotReader) :
    Prop where
  hash : b.h = h
  shardSize : b.shardSize = S
  stream : b.stream (j * S) = ({ b with currOffset := j * S },
    .ok ⟨slice (j * (h.size + S)) (till - j * (h.size + S)) file, none⟩)

lemma readyAt_new {h : Hash} {S tillOffset j : ℕ} {file data : Bytes} {disk : Except Err Bytes}
    (hS : 0 < S) (hlt : j * (h.size + S) < bitrotFileSize h tillOffset S)
    (hfile : (data ≠ [] ∧ data = file) ∨ (data = [] ∧ disk = .ok file)) :
    ReadyAt h S (bitrotFileSize h tillOffset S) file j
      (newStreamingBitrotReader disk data tillOffset h S) := by
  have hoff : j * S / S * h.size + j * S = j * (h.size + S) := by
    rw [Nat.mul_div_cancel _ hS, mul_add]
  refine ⟨rfl, rfl, ?_⟩
  simp only [StreamingBitrotReader.stream, newStreamingBitrotReader, hoff]
  rcases hfile with ⟨hne, rfl⟩ | ⟨rfl, rfl⟩
  · rw [if_neg (fun hc => hne (length_eq_zero_iff.mp hc.1))]
  · rw [if_pos ⟨rfl, hlt.ne'⟩]
    rfl

lemma ReadyAt.readAt {h : Hash} {S till j : ℕ} {file shard : Bytes} {b : StreamingBitrotReader}
    (hb : ReadyAt h S till file j b)
    (hchunk : slice (j * (h.size + S)) (h.size + shard.length) file = h.sum shard ++ shard)
    (htill : j * (h.size + S) + (h.size + shard.length) ≤ till) :
    ∃ b', b.readAt shard.length (j * S) = (b', .ok shard) ∧
      (shard.length = S → ReadyAt h S till file (j + 1) b') := by
  obtain ⟨rest, hrest⟩ : ∃ rest, rest = slice (j * (h.size + S) + (h.size + shard.length))
    (till - (j * (h.size + S) + (h.size + shard.length))) file := ⟨_, rfl⟩
  have hsource : slice (j * (h.size + S)) (till - j * (h.size + S)) file =
      h.sum shard ++ (shard ++ rest) := by
    have hsplit : till - j * (h.size + S) = h.size + shard.length +
        (till - (j * (h.size + S) + (h.size + shard.length))) := by omega
    rw [hsplit, slice_add, hchunk, ← hrest, append_assoc]
  have hhash : (⟨h.sum shard ++ (shard ++ rest), none⟩ : Source).readFull h.size =
      ⟨h.sum shard, .full, ⟨shard ++ rest, none⟩⟩ := by
    rw [Source.readFull_of_le (by simp)]
    simp [take_left' _, drop_left' _]
  have hbuf : (⟨shard ++ rest, none⟩ : Source).readFull shard.length =
      ⟨shard, .full, ⟨rest, none⟩⟩ := by
    rw [Source.readFull_of_le (by simp)]
    simp
  have hstream := hb.stream
  rw [hsource] at hstream
  refine ⟨{ b with rc := some ⟨rest, none⟩, currOffset := j * S + shard.length }, ?_,
    fun hfull => ?_⟩
  · unfold StreamingBitrotReader.readAt
    rw [hstream]
    simp [hb.hash, hb.shardSize, hhash, hbuf, readFullErr]
  · refine ⟨hb.hash, hb.shardSize, ?_⟩
    rw [hrest, hfull]
    simp [StreamingBitrotReader.stream, ← Nat.succ_mul]

/-! ### All calls of a `Decode` -/

lemma ReadyAt.readAts {offset length m : ℕ} (hrange : offset + length ≤ data.length)
    (hi : i < e.shards) {b : StreamingBitrotReader}
    (hb : 0 < m → ReadyAt h e.shardSize
      (bitrotFileSize h (e.shardFileOffset offset length data.length) e.shardSize)
      (bitrotStream h (e.shardBlocks e.blockSize data i)) j b)
    (hm : j + m ≤ stopBlock e offset length) :
    b.readAts (shardCalls e data.length j m) = (shardCalls e data.length j m).map fun c =>
        .ok (slice c.1 c.2 (e.shardFile e.blockSize data i)) := by
  induction m generalizing j b with
  | zero => rfl
  | succ m ih =>
    have hjr : j * e.blockSize < offset + length :=
      (lt_blockCount_iff e.blockSize_pos).mp (by rw [stopBlock] at hm; omega)
    have hjd : j * e.blockSize < data.length := hjr.trans_le hrange
    have hlen := length_shard hi hjd
    have hchunk := slice_bitrotStream h hi hjd
    have htill := chunk_le_tillOffset h hrange hjr
    rw [← hlen] at hchunk htill
    obtain ⟨b', hread, hnext⟩ := (hb (Nat.succ_pos m)).readAt hchunk htill
    rw [hlen] at hread
    rw [shardCalls_succ, StreamingBitrotReader.readAts, map_cons]
    simp only [shardCall, hread, slice_shardFile hi hjd]
    congr 1
    apply ih
    · intro hpos
      apply hnext
      rw [hlen]
      apply blockShardSize_of_full
      have hlt : (j + 1) * e.blockSize < offset + length :=
        (lt_blockCount_iff e.blockSize_pos).mp (by rw [stopBlock] at hm; omega)
      exact hlt.le.trans hrange
    · omega

lemma isChain_shardCalls {j stop m : ℕ} (hstop : ∀ k, k < stop → k * e.blockSize < data.length)
    (hm : j + m ≤ stop) :
    (shardCalls e data.length j m).IsChain fun c c' => c.1 + c.2 = c'.1 := by
  induction m generalizing j with
  | zero => exact List.IsChain.nil
  | succ m ih =>
    cases m with
    | zero => exact List.IsChain.singleton _
    | succ m =>
      have hrest : (shardCalls e data.length (j + 1) (m + 1)).IsChain _ := ih (by omega)
      refine isChain_cons_cons.mpr ⟨?_, hrest⟩
      have hnext := hstop (j + 1) (by omega)
      simp only [shardCall]
      rw [blockShardSize_of_full hnext.le, Nat.succ_mul]

/-- Every call that `Decode` makes to a reader of a hashed shard file is answered with the bytes of
the shard. The calls are at multiples of the shard size, each behind the one before, and end before
`ShardFileOffset`, whatever the other readers and the writer do. The file may be on the disk or
inline. -/
theorem streamingBitrotReader_answers (e : Erasure) (ρ : RangeOrder) (h : Hash) (data : Bytes)
    (i : ℕ) (hi : i < e.shards) (offset length : ℕ) (hlen : 0 < length)
    (hrange : offset + length ≤ data.length) (writer : Sink) (readers : List (Option Reader))
    (prefer : List Bool) (k : ℕ) (disk : Except Err Bytes) (inline : Bytes)
    (hfile : inline = bitrotStream h (e.shardBlocks e.blockSize data i) ∨
      (inline = [] ∧ disk = .ok (bitrotStream h (e.shardBlocks e.blockSize data i)))) :
    let tillOffset := e.shardFileOffset offset length data.length
    let calls := callsTo k (e.reads ρ writer readers offset length data.length prefer)
    (∀ c ∈ calls, c.1 % e.shardSize = 0 ∧ 0 < c.2 ∧ c.1 + c.2 ≤ tillOffset) ∧
    calls.IsChain (fun c c' => c.1 + c.2 = c'.1) ∧
    (newStreamingBitrotReader disk inline tillOffset h e.shardSize).readAts calls =
      calls.map (fun c => .ok (slice c.1 c.2 (e.shardFile e.blockSize data i))) ∧
    ∀ c ∈ calls, (slice c.1 c.2 (e.shardFile e.blockSize data i)).length = c.2 := by
  intro tillOffset calls
  obtain ⟨first, m, hm, hcalls⟩ := callsTo_reads ρ hrange hlen writer readers prefer k
  have hblock : ∀ j, j < stopBlock e offset length → j * e.blockSize < offset + length :=
    fun j hj => (lt_blockCount_iff e.blockSize_pos).mp hj
  have hmem : ∀ c ∈ calls,
      ∃ j, j * e.blockSize < offset + length ∧ c = shardCall e data.length j := by
    intro c hc
    rw [show calls = _ from hcalls] at hc
    obtain ⟨j, hj, rfl⟩ := mem_map.mp hc
    rw [mem_range'_1] at hj
    exact ⟨j, hblock j (by omega), rfl⟩
  refine ⟨fun c hc => ?_, ?_, ?_, fun c hc => ?_⟩
  · obtain ⟨j, hj, rfl⟩ := hmem c hc
    exact ⟨Nat.mul_mod_left _ _, blockShardSize_pos (hj.trans_le hrange),
      shard_le_shardFileOffset hrange hj⟩
  · rw [show calls = _ from hcalls]
    exact isChain_shardCalls (fun j hj => (hblock j hj).trans_le hrange) hm
  · rw [show calls = _ from hcalls]
    refine ReadyAt.readAts (h := h) hrange hi (fun hpos => ?_) hm
    have hfirst := hblock first (by omega)
    have hpos' := blockShardSize_pos (hfirst.trans_le hrange)
    have htill := chunk_le_tillOffset h hrange hfirst
    refine readyAt_new e.shardSize_pos (by omega) ?_
    rcases hfile with hinline | hdisk
    · refine Or.inl ⟨?_, hinline⟩
      have hlength := congrArg List.length (slice_bitrotStream h hi (hfirst.trans_le hrange))
      rintro rfl
      rw [← hinline, slice_nil, length_append,
        length_shard hi (hfirst.trans_le hrange), length_nil] at hlength
      omega
    · exact Or.inr hdisk
  · obtain ⟨j, hj, rfl⟩ := hmem c hc
    have hjd := hj.trans_le hrange
    simp only [shardCall]
    rw [slice_shardFile hi hjd, length_shard hi hjd]

def byteSum : Hash where
  sum p := [p.foldl UInt8.add 0]
  size := 1
  length_sum _ := rfl

/-- A range over two blocks of six bytes, on the first of four disks: a call for the full shard and
one for the short last shard. -/
theorem streamingBitrotReader_answers_short_last :
    let e := twoOfFour 4 (by decide)
    let file := bitrotStream byteSum (e.shardBlocks 4 [1, 2, 3, 4, 5, 6] 0)
    let readers := [some (fileReader [1, 2, 5]), some (fileReader [3, 4, 6]), none, none]
    let calls := callsTo 0 (e.reads .inOrder Sink.unlimited readers (1 : ℕ) (5 : ℕ) (6 : ℕ) [])
    file = [3, 1, 2, 5, 5] ∧ calls = [(0, 2), (2, 1)] ∧
      (newStreamingBitrotReader (.ok file) [] (e.shardFileOffset 1 5 6) byteSum
        e.shardSize).readAts calls = [.ok [1, 2], .ok [5]] := by
  intro e file readers calls
  have hcalls : calls = [(0, 2), (2, 1)] := by decide +kernel
  have hanswers := (streamingBitrotReader_answers e .inOrder byteSum [1, 2, 3, 4, 5, 6] 0 (by decide)
    1 5 (by decide) (by decide) Sink.unlimited readers [] 0 (.ok file) [] (Or.inr ⟨rfl, rfl⟩)).2.2.1
  refine ⟨by decide +kernel, hcalls, hanswers.trans ?_⟩
  show calls.map _ = _
  decide +kernel

end Obstor.Coding
