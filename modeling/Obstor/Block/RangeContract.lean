import Obstor.Block.RangeRead

/-!
# The contract of a range read

A request for `length` bytes from `o` on, or with `length = -1` for the rest of the object, is
answered with these bytes if it is in range, and refused with `InvalidRange` if not.

* `range_read_iff`: while the block size is that of the put, the contract holds unless the end of the
  range wraps in `int64`, or the rest of the object is asked for at its very end.
* `read_after_resize`: after the block size was changed from `b₁` to `b₂`, a read sends what was asked
  for if it finds its start and reads far enough (`ReadsThere`), or fails if it starts behind its first
  block (`StartsOutside`). Any other read sends too little, or bytes from another place.

Both are read off `getBlockReplicatedObject_spec`, which says what the loop sends for any two sizes.
-/

namespace Obstor.Block

open Go Lib Meta List

/-! ### The block size has not changed -/

/-- The number of bytes a request asks for. -/
def requested (n o : ℕ) (length : ℤ) : ℤ := if length < 0 then n - o else length

/-- There is something to send, and all of it is in the object. -/
def InRange (n o : ℕ) (length : ℤ) : Prop :=
  1 ≤ requested n o length ∧ o + requested n o length ≤ n

/-- The contract: the bytes of a request in range, if the blocks that hold them are found, and a
refusal without a write of any other. -/
def ServesRange (b : ℕ) (payload : Bytes) (sources : List (Option BlockSource)) (o : ℕ)
    (length : ℤ) (writer : Sink) (r : Sink × Option Err) : Prop :=
  let l := (requested payload.length o length).toNat
  (InRange payload.length o length →
    (∀ j, j * b < o + l → o < (j + 1) * b → Found sources (block b j payload)) →
      r.2 = none ∧ r.1.out = writer.out ++ slice o l payload) ∧
  (¬ InRange payload.length o length →
    r = (writer, some (.invalidRange o (requested payload.length o length) payload.length)))

section SameSize

variable {cfg : Config} {fi : FileInfo} {b o l : ℕ} {payload : Bytes}
  {sources : List (Option BlockSource)} {writer : Sink}

lemma sends_of_le (hb : cfg.effectiveBlockSize = b)
    (hblocks : fi.blocks = chunkRefs b payload) (hfi : fi.size = payload.length)
    (hsize : payload.length < 2 ^ 63) (hhonest : Honest b payload sources)
    (hroom : writer.room = none) (hl : 1 ≤ l) (hin : o + l ≤ payload.length)
    (hfound : ∀ j, j * b < o + l → o < (j + 1) * b → Found sources (block b j payload)) :
    let r := getBlockReplicatedObject cfg o l writer fi sources
    r.2 = none ∧ r.1.out = writer.out ++ slice o l payload := by
  have hpos : 0 < b := by
    have := effectiveBlockSize_pos cfg
    rw [hb] at this
    exact this
  rcases getBlockReplicatedObject_spec writer hpos hb hblocks hfi hsize hhonest hl hin
    with ⟨hnil, -, hserved⟩ | ⟨-, hfails⟩
  · rw [served_same hpos hin] at hserved
    exact ⟨hnil, hserved⟩
  · -- nothing of what makes a read fail can happen
    exfalso
    rcases hfails with hlimit | ⟨j, hstart, hend, hj, hnot⟩ | ⟨-, hout⟩
    · exact hlimit hroom
    · apply hnot
      apply hfound j
      · have hle : j ≤ (o + l - 1) / b := by omega
        have := (Nat.le_div_iff_mul_le hpos).mp hle
        omega
      · exact (Nat.div_lt_iff_lt_mul hpos).mp (by omega)
    · exact not_startsOutside_same hpos (by omega) hout

lemma getBlockReplicatedObject_refused {length : ℤ} (hsize : fi.size = payload.length)
    (hn : payload.length < 2 ^ 63) (ho : o < 2 ^ 63)
    (hrefused : payload.length < o ∨
      0 ≤ length ∧ payload.length < o + length ∧ o + length < 2 ^ 63) :
    getBlockReplicatedObject cfg o length writer fi sources =
      (writer, some (.invalidRange o (requested payload.length o length) payload.length)) := by
  have hlength : (if length < 0 then int64 (payload.length - o) else length) =
      requested payload.length o length := by
    rw [int64_eq_self (by omega) (by omega)]
    rfl
  unfold getBlockReplicatedObject
  simp only [hsize, hlength]
  rw [if_pos]
  rcases hrefused with hstart | ⟨h₀, hout, hend⟩
  · exact Or.inl (by omega)
  · refine Or.inr ?_
    rw [requested, if_neg (by omega), int64_eq_self (by omega) (by omega)]
    omega

lemma readBlocksLoop_no_sources (blockSize startOffset length : ℤ) (refs : List BlockRef)
    (count i : ℕ) (writer : Sink) (written : ℤ) :
    let r := readBlocksLoop blockSize startOffset length refs [] count i writer written
    r.2 = none ∨ ∃ id text, r.2 = some (.new id text) := by
  cases count with
  | zero => exact Or.inl rfl
  | succ count =>
    rw [readBlocksLoop]
    cases refs[i]? with
    | none => exact Or.inl rfl
    | some blk => exact Or.inr ⟨_, _, rfl⟩

/-- A request that passes the check is not refused as out of range later on. -/
lemma not_invalidRange_of_passed {length : ℤ} (h₀ : 0 ≤ length)
    (hpassed : ¬ ((o : ℤ) > fi.size ∨ int64 (o + length) > fi.size)) (a b c : ℤ) :
    (getBlockReplicatedObject cfg o length writer fi []).2 ≠ some (.invalidRange a b c) := by
  have hpos : ¬ length < 0 := by omega
  unfold getBlockReplicatedObject
  simp only [hpos, if_false]
  rw [if_neg hpassed]
  intro h
  rcases readBlocksLoop_no_sources _ _ _ _ _ _ _ _ with hnil | ⟨id, text, hnew⟩
  · rw [hnil] at h
    cases h
  · rw [hnew] at h
    cases h

end SameSize

/-- The range read of an object while the block size is that of its put, for `length` bytes from `o`
on or for the rest of the object. -/
theorem range_read_iff {cfg₁ cfg₂ : Config} {ρ : RangeOrder} {faults : PutFaults}
    {opts : PutOptions} {src : Source} {disks disks' : List (Option BlockDisk)} {fi : FileInfo}
    (hput : putBlockReplicatedObject cfg₁ ρ faults opts src disks = (disks', .ok fi))
    (hcfg : cfg₂.effectiveBlockSize = cfg₁.effectiveBlockSize)
    (hsize : src.data.length < 2 ^ 63) {o : ℕ} (ho : o < 2 ^ 63) {length : ℤ}
    (hlength : 1 ≤ length ∧ length < 2 ^ 63 ∨ length = -1) :
    (∀ sources writer, Honest cfg₁.effectiveBlockSize.toNat src.data sources → writer.room = none →
      ServesRange cfg₁.effectiveBlockSize.toNat src.data sources o length writer
        (getBlockReplicatedObject cfg₂ o length writer fi sources)) ↔
      (1 ≤ length → src.data.length < o ∨ o + length < 2 ^ 63) ∧
        (length = -1 → o ≠ src.data.length) := by
  obtain ⟨hfi, -⟩ := putBlockReplicatedObject_ok hput
  have hfisize : fi.size = src.data.length := by
    rw [hfi]
    rfl
  have hblocks : fi.blocks = chunkRefs cfg₁.effectiveBlockSize.toNat src.data := by
    rw [hfi]
    rfl
  have hb : cfg₂.effectiveBlockSize = (cfg₁.effectiveBlockSize.toNat : ℤ) := by
    have := effectiveBlockSize_pos cfg₁
    omega
  constructor
  · -- without disks a request that passes the check fails in another way
    intro h
    have hrefused := (h [] .unlimited (by intro disk hmem; simp at hmem) rfl).2
    constructor
    · intro hl
      by_contra hbad
      have hwrap : int64 (o + length) = o + length - 2 ^ 64 :=
        int64_of_overflow (by omega) (by omega)
      refine not_invalidRange_of_passed (by omega) (by omega) _ _ _
        (congrArg Prod.snd (hrefused ?_))
      simp only [InRange, requested]
      rw [if_neg (by omega)]
      omega
    · rintro rfl rfl
      have hrest := hrefused (by simp [InRange, requested])
      rw [getBlockReplicatedObject_rest (by omega) (by omega) (by omega), hfisize, sub_self] at hrest
      refine not_invalidRange_of_passed le_rfl ?_ _ _ _ (congrArg Prod.snd hrest)
      rw [add_zero, hfisize, int64_eq_self (by omega) (by omega)]
      omega
  · rintro ⟨hend, hrest⟩ sources writer hhonest hroom
    by_cases hin : InRange src.data.length o length
    · refine ⟨fun _ hfound => ?_, fun hout => absurd hin hout⟩
      obtain ⟨l, hl⟩ : ∃ l : ℕ, requested src.data.length o length = l :=
        ⟨_, (Int.toNat_of_nonneg (by have := hin.1; omega)).symm⟩
      obtain ⟨hone, hle⟩ := hin
      rw [hl] at hone hle hfound ⊢
      have hsame : getBlockReplicatedObject cfg₂ o length writer fi sources =
          getBlockReplicatedObject cfg₂ o l writer fi sources := by
        rcases hlength with ⟨hpos, -⟩ | rfl
        · rw [← hl, requested, if_neg (by omega)]
        · rw [getBlockReplicatedObject_rest (by omega) (by omega) (by omega), hfisize, ← hl]
          rfl
      rw [hsame]
      exact sends_of_le hb hblocks hfisize hsize hhonest hroom (by omega) (by omega) hfound
    · refine ⟨fun h => absurd h hin, fun _ => ?_⟩
      apply getBlockReplicatedObject_refused hfisize hsize ho
      rcases hlength with ⟨hpos, -⟩ | rfl
      · have hend := hend hpos
        simp only [InRange, requested] at hin
        rw [if_neg (by omega)] at hin
        omega
      · have hne := hrest rfl
        simp only [InRange, requested, Int.reduceNeg, Int.reduceLT, if_true] at hin
        omega

/-! ### A put to run -/

/-- One replica, blocks of 64 KiB. -/
def singleReplica : Config := ⟨1, .consistent, 65536⟩

def plainPut : PutOptions where
  bucket := "bucket"
  object := "object"
  size := -1
  actualSize := -1
  parentIsObject := false
  lockErr := none
  modTime := ⟨1⟩
  versioned := false
  versionID := ""
  newVersionID := ""
  newDataDir := "dir"
  userDefined := none
  md5Hex := ""
  mimeType := ""

def emptyDisk : BlockDisk := ⟨[], .error .fileNotFound⟩

/-- The record of a plain put with blocks of 64 KiB. -/
def plainInfo (data : Bytes) : FileInfo :=
  putFileInfo 65536 plainPut (chunkRefs 65536 data) data.length

def plainDisk (data : Bytes) : BlockDisk :=
  { (blocks 65536 data).foldl BlockDisk.store emptyDisk with info := .ok (plainInfo data) }

lemma plainPut_ok {data : Bytes} (hdata : data ≠ []) :
    putBlockReplicatedObject singleReplica .inOrder .none plainPut ⟨data, none⟩ [some emptyDisk] =
      ([some (plainDisk data)], .ok (plainInfo data)) :=
  putBlockReplicatedObject_healthy _ .inOrder plainPut data [emptyDisk] (by decide) rfl
    rfl hdata (by decide)

/-- One replica, blocks of two bytes. -/
def twoByteBlocks : Config := ⟨1, .consistent, 2⟩

/-- The second and third byte of three, which are in different blocks. -/
theorem range_read_iff_boundary : InRange 3 1 2 ∧
    ∀ sources writer, Honest 2 [1, 2, 3] sources → writer.room = none →
      ServesRange 2 [1, 2, 3] sources 1 2 writer (getBlockReplicatedObject twoByteBlocks 1 2 writer
        (putFileInfo 2 plainPut (chunkRefs 2 [1, 2, 3]) 3) sources) := by
  have hput : putBlockReplicatedObject twoByteBlocks .inOrder .none plainPut ⟨[1, 2, 3], none⟩
      [some emptyDisk] = (_, .ok _) :=
    putBlockReplicatedObject_healthy _ .inOrder plainPut [1, 2, 3] [emptyDisk] (by decide) rfl rfl
      (by decide) (by decide)
  refine ⟨⟨by decide, by decide⟩, (range_read_iff (o := 1) hput rfl (by decide) (by decide)
    (Or.inl ⟨by decide, by decide⟩)).mpr ⟨fun _ => Or.inr (by decide), by decide⟩⟩

/-- Two bytes are stored. The `2 ^ 63 - 1` bytes from the second one on are asked for: the end wraps,
and the second byte is sent without an error. The rest from the end of the object is asked for: there
is none, and no error either. -/
theorem range_read_of_wrapped_end :
    putBlockReplicatedObject singleReplica .inOrder .none plainPut ⟨[1, 2], none⟩
        [some emptyDisk] = ([some (plainDisk [1, 2])], .ok (plainInfo [1, 2])) ∧
      getBlockReplicatedObject singleReplica 1 (2 ^ 63 - 1) .unlimited (plainInfo [1, 2])
        [some (plainDisk [1, 2]).readBlock] = ({ Sink.unlimited with out := [2] }, none) ∧
      getBlockReplicatedObject singleReplica 2 (-1) .unlimited (plainInfo [1, 2])
        [some (plainDisk [1, 2]).readBlock] = (.unlimited, none) := by
  refine ⟨plainPut_ok (cons_ne_nil 1 [2]), ?_⟩
  decide +kernel

/-! ### The block size has changed -/

/-- No two blocks have one name. -/
def CollisionFree (bs : List Bytes) : Prop :=
  ∀ x ∈ bs, ∀ y ∈ bs, hashBlockData x = hashBlockData y → x = y

/-- A disk that has these blocks and no others. -/
def sourceOf (bs : List Bytes) : BlockSource := fun hash =>
  match bs.find? fun blk => hashBlockData blk = hash with
  | none => .error .fileNotFound
  | some blk => .ok blk

lemma sourceOf_hashBlockData {bs : List Bytes} (h : CollisionFree bs) {blk : Bytes}
    (hmem : blk ∈ bs) : sourceOf bs (hashBlockData blk) = .ok blk := by
  unfold sourceOf
  cases hf : bs.find? fun x => hashBlockData x = hashBlockData blk with
  | none =>
    have := find?_eq_none.mp hf blk hmem
    simp at this
  | some x =>
    have hx := find?_some hf
    rw [h x (mem_of_find?_eq_some hf) blk hmem (by simpa using hx)]

lemma honest_sourceOf {b : ℕ} {payload : Bytes} (h : CollisionFree (blocks b payload)) :
    Honest b payload [some (sourceOf (blocks b payload))] := by
  intro disk hmem blk hblk data hp
  obtain rfl : disk = sourceOf _ := by simpa using hmem
  have hread := hp.1
  rw [sourceOf_hashBlockData h hblk] at hread
  exact (Except.ok.inj hread).symm

lemma found_sourceOf {b : ℕ} {payload blk : Bytes} (h : CollisionFree (blocks b payload))
    (hblk : blk ∈ blocks b payload) : Found [some (sourceOf (blocks b payload))] blk :=
  ⟨_, mem_singleton.mpr rfl, sourceOf_hashBlockData h hblk, rfl⟩

lemma getBlockReplicatedObject_of_found {cfg : Config} {fi : FileInfo} {b₁ b₂ o l : ℕ}
    {payload : Bytes} {sources : List (Option BlockSource)} (writer : Sink) (hb₁ : 0 < b₁)
    (hb₂ : cfg.effectiveBlockSize = b₂) (hblocks : fi.blocks = chunkRefs b₁ payload)
    (hfi : fi.size = payload.length) (hsize : payload.length < 2 ^ 63)
    (hhonest : Honest b₁ payload sources) (hfound : ∀ blk ∈ blocks b₁ payload, Found sources blk)
    (hroom : writer.room = none) (hl : 1 ≤ l) (hin : o + l ≤ payload.length)
    (hso : ¬ StartsOutside b₁ b₂ payload.length o) :
    (getBlockReplicatedObject cfg o l writer fi sources).2 = none ∧
      (getBlockReplicatedObject cfg o l writer fi sources).1.out =
        writer.out ++ served b₁ b₂ payload o l := by
  rcases getBlockReplicatedObject_spec writer hb₁ hb₂ hblocks hfi hsize hhonest hl hin with
    ⟨hnil, -, hserved⟩ | ⟨-, hlimit | ⟨j, -, -, hj, hnot⟩ | ⟨-, hout⟩⟩
  · exact ⟨hnil, hserved⟩
  · exact absurd hroom hlimit
  · exact absurd (hfound _ (block_mem_blocks hb₁ hj)) hnot
  · exact absurd hout hso

/-- Bytes that occur at one place only are sent only from there. -/
lemma readsThere_of_served {b₁ b₂ o l : ℕ} {payload : Bytes} (hb₂ : 0 < b₂)
    (hl : 1 ≤ l) (hin : o + l ≤ payload.length) (honce : ∀ p, slice p l payload = slice o l payload → p = o)
    (h : served b₁ b₂ payload o l = slice o l payload) : ReadsThere b₁ b₂ o l := by
  have hlength := congrArg List.length h
  unfold served at h hlength
  rw [slice_length, slice_length] at hlength
  have hle := writtenAt_le b₁ b₂ payload.length o l ((o + l - 1) / b₂ + 1)
  have hwritten : writtenAt b₁ b₂ payload.length o l ((o + l - 1) / b₂ + 1) = l := by omega
  rw [hwritten] at h
  have hwindow := honce _ h
  refine ⟨(window_eq_iff hb₂).mp hwindow, ?_⟩
  unfold writtenAt at hwritten
  rw [hwindow] at hwritten
  omega

/-- Reads of an object with another block size than that of its put: they send what was asked for if
the reader refuses its first block, or finds the start and reads to the end; and if the bytes that were
asked for occur in the object only once, in no other case. -/
theorem read_after_resize {cfg₁ cfg₂ : Config} {ρ : RangeOrder} {faults : PutFaults}
    {opts : PutOptions} {src : Source} {disks disks' : List (Option BlockDisk)} {fi : FileInfo}
    {b₁ b₂ : ℕ} (hput : putBlockReplicatedObject cfg₁ ρ faults opts src disks = (disks', .ok fi))
    (hb₁ : cfg₁.blockSize = b₁) (hb₂ : cfg₂.blockSize = b₂) (haccept₁ : Config.AcceptsBlockSize b₁)
    (haccept₂ : Config.AcceptsBlockSize b₂) (hfree : CollisionFree (blocks b₁ src.data))
    (hsize : src.data.length < 2 ^ 63) {o l : ℕ} (hl : 1 ≤ l) (hin : o + l ≤ src.data.length) :
    let Served := ∀ sources writer, Honest b₁ src.data sources →
      (getBlockReplicatedObject cfg₂ o l writer fi sources).2 = none →
      (getBlockReplicatedObject cfg₂ o l writer fi sources).1.out =
        writer.out ++ slice o l src.data
    (StartsOutside b₁ b₂ src.data.length o ∨ ReadsThere b₁ b₂ o l → Served) ∧
      ((∀ p, slice p l src.data = slice o l src.data → p = o) → Served →
        StartsOutside b₁ b₂ src.data.length o ∨ ReadsThere b₁ b₂ o l) := by
  intro Served
  have heff₁ : cfg₁.effectiveBlockSize = b₁ := by
    unfold Config.effectiveBlockSize Config.AcceptsBlockSize at *
    rw [if_neg (by omega), hb₁]
  have heff₂ : cfg₂.effectiveBlockSize = b₂ := by
    unfold Config.effectiveBlockSize Config.AcceptsBlockSize at *
    rw [if_neg (by omega), hb₂]
  have hpos₁ : 0 < b₁ := by
    unfold Config.AcceptsBlockSize at haccept₁
    omega
  have hpos₂ : 0 < b₂ := by
    unfold Config.AcceptsBlockSize at haccept₂
    omega
  obtain ⟨hfi, -⟩ := putBlockReplicatedObject_ok hput
  rw [heff₁] at hfi
  have hfisize : fi.size = src.data.length := by
    rw [hfi]
    rfl
  have hblocks : fi.blocks = chunkRefs b₁ src.data := by
    rw [hfi]
    rfl
  constructor
  · intro hcond sources writer hhonest hnil
    rcases getBlockReplicatedObject_spec writer hpos₁ heff₂ hblocks hfisize hsize hhonest hl hin with
      ⟨-, hso, hserved⟩ | ⟨hfail, -⟩
    · rw [hserved, served_of_readsThere hpos₂ hin (hcond.resolve_left hso)]
    · exact absurd hnil hfail
  · intro honce h
    by_cases hso : StartsOutside b₁ b₂ src.data.length o
    · exact Or.inl hso
    · have hhonest := honest_sourceOf hfree
      obtain ⟨hnil, hserved⟩ := getBlockReplicatedObject_of_found .unlimited hpos₁ heff₂
        hblocks hfisize hsize hhonest (fun blk hblk => found_sourceOf hfree hblk) rfl hl hin hso
      rw [h _ _ hhonest hnil] at hserved
      exact Or.inr (readsThere_of_served hpos₂ hl hin honce (append_cancel_left hserved).symm)

/-- The setting after the block size was doubled. -/
def doubled : Config := ⟨1, .consistent, 131072⟩

/-- A setting with slightly larger blocks. -/
def enlarged : Config := ⟨1, .consistent, 65600⟩

section TwoBlocks

variable {z : Bytes} (hz : z.length = 65536)

include hz

lemma blocks_twice : blocks 65536 (z ++ z) = [z, z] := by
  have hne : z ≠ [] := ne_nil_of_length_pos (by omega)
  rw [blocks_cons (by decide) (append_ne_nil_of_left_ne_nil hne z),
    take_left' hz, drop_left' hz, blocks_of_length_le hne hz.le]

lemma plainDisk_twice : (plainDisk (z ++ z)).readBlock (hashBlockData z) = .ok z := by
  have hfirst : emptyDisk.file (hashBlockData z) = none := rfl
  have hsecond : BlockDisk.file { emptyDisk with files := (hashBlockData z, z) :: emptyDisk.files }
      (hashBlockData z) = some z := by
    simp [BlockDisk.file]
  unfold plainDisk
  rw [blocks_twice hz, foldl_cons, foldl_cons, BlockDisk.file_store_of_none hfirst,
    BlockDisk.file_store_of_some hsecond]
  simp [BlockDisk.readBlock, BlockDisk.file, isValidBlockHash_hashBlockData]

/-- An object of two equal blocks is read whole after the block size was doubled: the reader
expects one block, sends the first half, and returns nil. -/
lemma half_read_after_resize :
    let r := getBlockReplicatedObject doubled 0 131072 .unlimited (plainInfo (z ++ z))
      [some (plainDisk (z ++ z)).readBlock]
    r.2 = none ∧ r.1.out = z := by
  have hlen : (z ++ z).length = 131072 := by
    rw [length_append]
    omega
  have hblk : ∀ blk ∈ blocks 65536 (z ++ z), blk = z := by
    intro blk hmem
    rw [blocks_twice hz] at hmem
    simpa using hmem
  have hhonest : Honest 65536 (z ++ z) [some (plainDisk (z ++ z)).readBlock] := by
    intro disk hmem blk hb data hp
    obtain rfl : disk = (plainDisk (z ++ z)).readBlock := by simpa using hmem
    have hread := hp.1
    rw [hblk blk hb, plainDisk_twice hz] at hread
    rw [hblk blk hb]
    exact (Except.ok.inj hread).symm
  have hfound : ∀ blk ∈ blocks 65536 (z ++ z), Found [some (plainDisk (z ++ z)).readBlock] blk := by
    intro blk hb
    rw [hblk blk hb]
    exact ⟨_, mem_singleton.mpr rfl, plainDisk_twice hz, rfl⟩
  have hinside : ¬ StartsOutside 65536 131072 (z ++ z).length 0 :=
    fun h => absurd h.2 (Nat.not_lt_zero _)
  have hserved : served 65536 131072 (z ++ z) 0 131072 = z := by
    unfold served
    rw [hlen]
    exact take_left' hz
  obtain ⟨hnil, hout⟩ := getBlockReplicatedObject_of_found .unlimited (by decide)
    (show doubled.effectiveBlockSize = (131072 : ℕ) from rfl)
    (show (plainInfo (z ++ z)).blocks = chunkRefs 65536 (z ++ z) from rfl) rfl (by omega) hhonest
    hfound rfl (show 1 ≤ 131072 by decide) (show 0 + 131072 ≤ (z ++ z).length by omega) hinside
  have hstart : ((0 : ℕ) : ℤ) = 0 := rfl
  have hlength : ((131072 : ℕ) : ℤ) = 131072 := rfl
  rw [hstart, hlength] at hnil hout
  exact ⟨hnil, hout.trans hserved⟩

end TwoBlocks

/-- A hundred bytes over the boundary of two blocks, read with slightly larger blocks. -/
theorem read_after_resize_boundary :
    let zeros : Bytes := replicate 65536 0
    ReadsThere 65536 65600 65535 100 ∧
      ∀ sources writer, Honest 65536 (zeros ++ zeros) sources →
        (getBlockReplicatedObject enlarged (65535 : ℕ) (100 : ℕ) writer (plainInfo (zeros ++ zeros))
          sources).2 = none →
        (getBlockReplicatedObject enlarged (65535 : ℕ) (100 : ℕ) writer (plainInfo (zeros ++ zeros))
          sources).1.out = writer.out ++ slice 65535 100 (zeros ++ zeros) := by
  intro zeros
  have hz : zeros.length = 65536 := length_replicate
  clear_value zeros
  have hlen : (zeros ++ zeros).length = 131072 := by
    rw [length_append]
    omega
  have hthere : ReadsThere 65536 65600 65535 100 := ⟨Or.inr (by decide), by decide⟩
  have hfree : CollisionFree (blocks 65536 (zeros ++ zeros)) := by
    intro x hx y hy _
    rw [blocks_twice hz] at hx hy
    simp only [mem_cons, not_mem_nil, or_false, or_self] at hx hy
    rw [hx, hy]
  have hne : zeros ++ zeros ≠ [] := ne_nil_of_length_pos (by omega)
  have hput := plainPut_ok hne
  have hserved := (read_after_resize (o := 65535) (l := 100) hput
    (show singleReplica.blockSize = (65536 : ℕ) from rfl)
    (show enlarged.blockSize = (65600 : ℕ) from rfl) ⟨by decide, by decide⟩ ⟨by decide, by decide⟩
    hfree (hlen.trans_lt (by decide)) (by decide) (le_of_le_of_eq (by decide) hlen.symm)).1
    (Or.inr hthere)
  exact ⟨hthere, hserved⟩

/-- Of 128 KiB of zeros only 64 KiB come back. -/
theorem short_read_after_resize :
    let zeros : Bytes := replicate 65536 0
    putBlockReplicatedObject singleReplica .inOrder .none plainPut ⟨zeros ++ zeros, none⟩
        [some emptyDisk] = ([some (plainDisk (zeros ++ zeros))], .ok (plainInfo (zeros ++ zeros))) ∧
      (getBlockReplicatedObject doubled 0 131072 .unlimited (plainInfo (zeros ++ zeros))
        [some (plainDisk (zeros ++ zeros)).readBlock]).2 = none ∧
      (getBlockReplicatedObject doubled 0 131072 .unlimited (plainInfo (zeros ++ zeros))
        [some (plainDisk (zeros ++ zeros)).readBlock]).1.out = zeros :=
  ⟨plainPut_ok (append_ne_nil_of_left_ne_nil (by decide) _),
    half_read_after_resize length_replicate⟩

end Obstor.Block
