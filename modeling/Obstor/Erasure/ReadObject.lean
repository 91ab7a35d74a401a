import Obstor.Erasure.CleanRead
import Obstor.Erasure.Distribution

/-!
# When a read of an object succeeds

The parts of an object are stored as shard files, one on each disk. Some of the readers fail, with
`errFileNotFound` or `errFileCorrupt`, but for each part at least `D` do not. Then every requested
byte is written; but `getObjectWithFileInfo` returns the error that `Decode` reports for healing,
so it returns nil exactly when no failure was met: for every part of the range the first `D`
readers, in the order of the shards, gave all shards (`get_object_iff`).

The step over a part is in `partsLoop_iff`, an induction over the parts of the range: the part is
decoded without an error exactly if it is clean (`PartReadable.decode`), and the bytes written so
far are the front of the range (`readBefore`). `get_object_with_lost_shard` has one failed disk out
of four.
-/

namespace Obstor.Coding

open Go Lib Meta List Option

/-! ### Readers in the order of the shards -/

def shardReaders (file : FileInfo → PartFile) (n : ℕ) (f : ℕ → Option (Disk × FileInfo)) :
    List (Option Reader) :=
  (List.range n).map fun k => (f k).map fun dm => dm.1.newBitrotReader (file dm.2)

section Arranged

variable {n : ℕ} {f : ℕ → Option (Disk × FileInfo)} (file : FileInfo → PartFile)

lemma partReaders_arranged (hvalid : ∀ k d m, f k = some (d, m) → m.isValid) :
    partReaders file (arranged n f) = shardReaders file n f := by
  apply ext_getElem?
  intro k
  unfold partReaders shardReaders
  rw [getElem?_mapIdx, getElem?_map]
  by_cases hk : k < n
  · obtain ⟨hdisk, hmeta⟩ := arranged_getElem hk
    rw [hdisk, hmeta, getElem?_range hk, map_some, map_some]
    rcases hf : f k with _ | ⟨d, m⟩
    · rfl
    · simp [hvalid k d m hf]
  · rw [List.getElem?_eq_none_iff.mpr (by rw [length_arranged_disks]; omega),
      List.getElem?_eq_none_iff.mpr (by rw [length_range]; omega)]
    rfl

lemma dropDisks_shardReaders :
    dropDisks (shardReaders file n f) (arranged n f).disks = (arranged n f).disks := by
  apply ext_getElem?
  intro k
  unfold dropDisks
  rw [getElem?_mapIdx]
  by_cases hk : k < n
  · rw [(arranged_getElem hk).1]
    rcases hf : f k with _ | ⟨d, m⟩
    · simp
    · simp [shardReaders, getD_eq_getElem?_getD, hk, hf]
  · rw [List.getElem?_eq_none_iff.mpr (by rw [length_arranged_disks]; omega)]
    rfl

lemma uniformPrefer_arranged (hvalid : ∀ k d m, f k = some (d, m) → m.isValid)
    (hhost : (∀ k d m, f k = some (d, m) → d.hostname = "") ∨
      ∀ k d m, f k = some (d, m) → d.hostname ≠ "") :
    UniformPrefer (shardReaders file n f) (partPrefer (arranged n f)) := by
  rcases hhost with hlocal | hremote
  · left
    intro k r hr
    have hk : k < n := by
      have := (List.getElem?_eq_some_iff.mp hr).1
      simpa [shardReaders] using this
    obtain ⟨hdisk, hmeta⟩ := arranged_getElem hk
    unfold partPrefer
    rw [getElem?_mapIdx, hdisk, hmeta]
    rcases hf : f k with _ | ⟨d, m⟩
    · simp [shardReaders, hk, hf] at hr
    · simp [hvalid k d m hf, hlocal k d m hf]
  · right
    intro ok hok
    obtain ⟨k, hk, rfl⟩ := mem_mapIdx.mp hok
    rw [length_arranged_disks] at hk
    obtain ⟨hdisk, hmeta⟩ := arranged_getElem (f := f) hk
    rw [getElem?_eq_getElem (by rw [length_arranged_disks]; exact hk), some_inj] at hdisk
    rw [hdisk]
    rcases hf : f k with _ | ⟨d, m⟩
    · rfl
    · simp [hremote k d m hf]

end Arranged

/-! ### The parts of a range -/

/-- Where the range starts in part `p`. -/
def partOffset (parts : List Bytes) (start p : ℕ) : ℕ := start - partStart parts p

/-- How many bytes of the range are in part `p`. -/
def partLength (parts : List Bytes) (start len p : ℕ) : ℕ :=
  min (partStart parts (p + 1)) (start + len) - max (partStart parts p) start

/-- The record `fi` describes an object with these parts, coded by `e`. -/
structure Stored (env : ReadEnv) (e : Erasure) (fi : FileInfo) (parts : List Bytes) : Prop where
  blocks : fi.blocks = []
  /-- `reedsolomon.New` gives the code. -/
  encoder : env.rs.new e.dataBlocks e.parityBlocks = .ok e.encoder
  dataBlocks : fi.erasure.dataBlocks = e.dataBlocks
  parityBlocks : fi.erasure.parityBlocks = e.parityBlocks
  blockSize : fi.erasure.blockSize = e.blockSize
  sizes : fi.parts.map ObjectPartInfo.size = parts.map fun part => (part.length : ℤ)
  /-- Only the last part may be empty. -/
  nonempty : ∀ p, (hp : p + 1 < parts.length) → parts[p] ≠ []
  size : fi.size = parts.flatten.length
  size_lt : parts.flatten.length < 2 ^ 63

section Stored

variable {env : ReadEnv} {e : Erasure} {fi : FileInfo} {parts : List Bytes}
  (h : Stored env e fi parts)

include h

lemma Stored.newErasure_eq :
    newErasure env.rs fi.erasure.dataBlocks fi.erasure.parityBlocks fi.erasure.blockSize =
      .ok e := by
  have hD := e.dataBlocks_pos
  have hP := e.parityBlocks_pos
  have hb := e.blockSize_pos
  have hmax := e.shards_le
  rw [h.dataBlocks, h.parityBlocks, h.blockSize]
  unfold newErasure
  rw [dif_neg (by omega), dif_neg (by omega)]
  simp only [Int.toNat_natCast, h.encoder]
  rw [dif_neg (by omega)]

lemma Stored.part {p : ℕ} (hp : p < parts.length) :
    ∃ part, fi.parts[p]? = some part ∧ part.size = parts[p].length := by
  have hget := congrArg (·[p]?) h.sizes
  simp only [getElem?_map, getElem?_eq_getElem hp, map_some, map_eq_some_iff] at hget
  exact hget

lemma Stored.length_parts : fi.parts.length = parts.length := by
  have := congrArg List.length h.sizes
  simpa using this

lemma Stored.partOffsetLoop_eq {i offset : ℕ} {rest : List ObjectPartInfo}
    (hrest : fi.parts.drop i = rest) (hle : partStart parts i ≤ offset) :
    (parts.flatten.length ≤ offset →
      ∃ err, partOffsetLoop i rest ((offset - partStart parts i : ℕ) : ℤ) = .error err) ∧
    (offset < parts.flatten.length → ∃ p, p < parts.length ∧ partStart parts p ≤ offset ∧
      offset < partStart parts (p + 1) ∧
      partOffsetLoop i rest ((offset - partStart parts i : ℕ) : ℤ) =
        .ok (p, ((offset - partStart parts p : ℕ) : ℤ))) := by
  induction rest generalizing i with
  | nil =>
    have hi : parts.length ≤ i := h.length_parts ▸ drop_eq_nil_iff.mp hrest
    have hend := partStart_of_le hi
    refine ⟨fun _ => ⟨_, rfl⟩, fun hlt => ?_⟩
    omega
  | cons part rest ih =>
    obtain ⟨hpart, hnext⟩ := getElem?_of_drop_eq_cons hrest
    have hi : i < parts.length := h.length_parts ▸ (List.getElem?_eq_some_iff.mp hpart).1
    obtain ⟨part', hpart', hsize⟩ := h.part hi
    rw [hpart] at hpart'
    cases hpart'
    have hsucc := partStart_succ hi
    have htotal : partStart parts (i + 1) ≤ parts.flatten.length := by
      rw [← partStart_of_le (le_refl parts.length)]
      exact partStart_mono parts hi
    rw [partOffsetLoop, hsize]
    by_cases hlt : offset < partStart parts (i + 1)
    · rw [if_pos (by omega)]
      exact ⟨fun hout => by omega, fun _ => ⟨i, hi, hle, hlt, rfl⟩⟩
    · rw [if_neg (by omega)]
      have hstep : ((offset - partStart parts i : ℕ) : ℤ) - (parts[i].length : ℤ) =
          ((offset - partStart parts (i + 1) : ℕ) : ℤ) := by
        omega
      rw [hstep]
      exact ih hnext (not_lt.mp hlt)

lemma Stored.partStart_one (hpos : 0 < parts.flatten.length) :
    0 < parts.length ∧ 0 < partStart parts 1 := by
  have hne : 0 < parts.length := by
    apply pos_of_ne_zero
    intro h0
    rw [length_eq_zero_iff.mp h0] at hpos
    simp at hpos
  refine ⟨hne, ?_⟩
  by_cases hlast : 1 < parts.length
  · have hfirst := length_pos_of_ne_nil (h.nonempty 0 hlast)
    rw [partStart_succ hne]
    omega
  · rw [partStart_of_le (by omega)]
    exact hpos

lemma Stored.objectToPartOffset_ok {offset : ℕ} (hlt : offset < parts.flatten.length) :
    ∃ p, p < parts.length ∧ partStart parts p ≤ offset ∧ offset < partStart parts (p + 1) ∧
      objectToPartOffset fi offset = .ok (p, ((offset - partStart parts p : ℕ) : ℤ)) := by
  unfold objectToPartOffset
  by_cases h0 : offset = 0
  · subst h0
    obtain ⟨hne, hfirst⟩ := h.partStart_one hlt
    exact ⟨0, hne, le_rfl, hfirst, rfl⟩
  · rw [if_neg (by omega)]
    exact (h.partOffsetLoop_eq rfl (Nat.zero_le _)).2 hlt

lemma Stored.objectToPartOffset_end (hpos : 0 < parts.flatten.length) :
    ∃ err, objectToPartOffset fi (parts.flatten.length : ℕ) = .error err := by
  unfold objectToPartOffset
  rw [if_neg (by omega)]
  exact (h.partOffsetLoop_eq rfl (Nat.zero_le _)).1 le_rfl

end Stored

/-! ### The loop over the parts -/

section Loop

variable (env : ReadEnv) (e : Erasure) (fi : FileInfo) (parts : List Bytes)
  (f : ℕ → Option (Disk × FileInfo)) (start len p : ℕ)

/-- How far the shard files of part `p` are read. -/
def partTill : ℕ :=
  e.shardFileOffset (partOffset parts start p) (partLength parts start len p)
    (parts.getD p []).length

def rangeReaders : List (Option Reader) :=
  shardReaders (partFile e env.bucket env.object (fi.parts.getD p {}).number
    (partTill e parts start len p)) e.shards f

/-- No failure is met in part `p`: the first `D` readers give the shards of all blocks of the
range. -/
def PartClean : Prop :=
  RangeClean e (parts.getD p []) (shardSlots (rangeReaders env e fi parts f start len p))
    (partOffset parts start p) (partLength parts start len p)

/-- The disks that hold the shards, of one kind, with `D` intact shards for each part. -/
structure Readable : Prop where
  valid : ∀ k d m, f k = some (d, m) → m.isValid = true
  host : (∀ k d m, f k = some (d, m) → d.hostname = "") ∨
    ∀ k d m, f k = some (d, m) → d.hostname ≠ ""
  parts : ∀ p < parts.length, PartReadable e (parts.getD p []) (partTill e parts start len p)
    (rangeReaders env e fi parts f start len p)

/-- How many bytes the range has before part `p`. -/
def readBefore : ℕ := min len (partStart parts p - start)

variable {env e fi parts f start len p}

section

variable (hp : p < parts.length) (hstart : start ≤ partStart parts (p + 1))

include hp hstart

lemma readBefore_succ : readBefore parts start len p + partLength parts start len p =
      readBefore parts start len (p + 1) := by
  have hsucc := partStart_succ hp
  unfold readBefore partLength
  omega

lemma partOffset_add_le :
    partOffset parts start p + partLength parts start len p ≤ parts[p].length := by
  have hsucc := partStart_succ hp
  unfold partOffset partLength
  omega

lemma slice_partLength (hmore : readBefore parts start len p < len) :
    slice (partOffset parts start p) (partLength parts start len p) parts[p] =
      slice (start + readBefore parts start len p) (partLength parts start len p)
        parts.flatten := by
  rw [← slice_part hp (partOffset_add_le hp hstart)]
  congr 1
  unfold partOffset
  unfold readBefore at hmore ⊢
  omega

end

lemma readBefore_le : readBefore parts start len p ≤ len := min_le_left _ _

lemma partLength_of_done {q : ℕ} (hdone : readBefore parts start len p = len) (hpq : p ≤ q) :
    partLength parts start len q = 0 := by
  have hmono := partStart_mono parts hpq
  unfold readBefore at hdone
  unfold partLength
  omega

lemma readBefore_of_done {q : ℕ} (hdone : readBefore parts start len p = len) (hpq : p ≤ q) :
    readBefore parts start len q = len := by
  have hmono := partStart_mono parts hpq
  unfold readBefore at hdone ⊢
  omega

lemma partClean_of_length (h : partLength parts start len p = 0) :
    PartClean env e fi parts f start len p := by
  intro hpos
  rw [h] at hpos
  exact absurd hpos (lt_irrefl 0)

/-- The loop over parts that end behind the start of the range: it returns nil exactly when every
part is clean, and then it has written what the range has in them. -/
lemma partsLoop_iff (hstored : Stored env e fi parts)
    (hread : Readable env e fi parts f start len) (count : ℕ) {writer : Sink}
    (hroom : writer.room = none)
    (hstart : start ≤ partStart parts (p + 1)) (hend : p + count ≤ parts.length) :
    let r := partsLoop env e fi len count p (arranged e.shards f) (partOffset parts start p)
      (readBefore parts start len p) writer
    (r.err = none ↔ ∀ q, p ≤ q → q < p + count → PartClean env e fi parts f start len q) ∧
      (r.err = none → r.sink.out = writer.out ++ slice (start + readBefore parts start len p)
          (readBefore parts start len (p + count) - readBefore parts start len p)
          parts.flatten) := by
  induction count generalizing p writer with
  | zero =>
    refine ⟨⟨fun _ q h₁ h₂ => absurd h₁ (by omega), fun _ => rfl⟩, fun _ => ?_⟩
    simp [partsLoop]
  | succ count ih =>
    intro r
    have hr : r = partsLoop env e fi len (count + 1) p (arranged e.shards f)
      (partOffset parts start p) (readBefore parts start len p) writer := rfl
    rw [partsLoop] at hr
    by_cases hdone : readBefore parts start len p = len
    · -- the range has ended
      rw [if_pos (by rw [hdone])] at hr
      rw [hr, readBefore_of_done hdone (Nat.le_add_right p (count + 1)), hdone]
      refine ⟨⟨fun _ q hq _ => partClean_of_length (partLength_of_done hdone hq), fun _ => rfl⟩,
        fun _ => ?_⟩
      simp
    · have hp : p < parts.length := by omega
      have hmore : readBefore parts start len p < len := lt_of_le_of_ne readBefore_le hdone
      obtain ⟨part, hpart, hsize⟩ := hstored.part hp
      have hsucc := partStart_succ hp
      have hlength : (if (parts[p].length : ℤ) - (partOffset parts start p : ℤ) >
            (len : ℤ) - readBefore parts start len p
          then (len : ℤ) - readBefore parts start len p
          else (parts[p].length : ℤ) - (partOffset parts start p : ℤ)) =
          (partLength parts start len p : ℕ) := by
        unfold partOffset partLength
        unfold readBefore at hmore ⊢
        split_ifs <;> omega
      have hgetD : parts.getD p [] = parts[p] := by
        rw [getD_eq_getElem?_getD, getElem?_eq_getElem hp]
        rfl
      have hnumber : (fi.parts.getD p {}).number = part.number := by
        rw [getD_eq_getElem?_getD, hpart]
        rfl
      have hreaders : partReaders (partFile e env.bucket env.object part.number
          (e.shardFileOffset (partOffset parts start p) (partLength parts start len p)
            parts[p].length)) (arranged e.shards f) =
          rangeReaders env e fi parts f start len p := by
        rw [partReaders_arranged _ hread.valid, rangeReaders, partTill, hgetD, hnumber]
      rw [if_neg (by omega), hpart] at hr
      simp only [hlength, hsize, Int.toNat_natCast, hreaders] at hr
      have hprefer : UniformPrefer (rangeReaders env e fi parts f start len p)
          (partPrefer (arranged e.shards f)) :=
        uniformPrefer_arranged _ hread.valid hread.host
      have hrange : partOffset parts start p + partLength parts start len p ≤
          (parts.getD p []).length := by
        rw [hgetD]
        exact partOffset_add_le hp hstart
      obtain ⟨hiff, hok⟩ := (hread.parts p hp).decode env.ρ hprefer hrange
        (endsBefore_shardFileOffset hrange) hroom
      rw [hgetD] at hiff hok
      generalize e.decode env.ρ writer (rangeReaders env e fi parts f start len p)
        _ _ _
        _ = d at hr hiff hok
      rcases herr : d.err with _ | err
      · -- the part was read, and the disks are the same for the next one
        obtain ⟨hrd, hroom', hout⟩ := hok herr
        have hclean := hiff.mp herr
        have hnext : (0 : ℤ) = (partOffset parts start (p + 1) : ℕ) := by
          unfold partOffset
          omega
        have hdisks : dropDisks d.readers (arranged e.shards f).disks =
            (arranged e.shards f).disks := by
          rw [hrd]
          exact dropDisks_shardReaders _
        simp only [herr, hdisks] at hr
        rw [hnext, ← Nat.cast_add, readBefore_succ hp hstart] at hr
        obtain ⟨hiff', hout'⟩ := ih hroom' (hstart.trans (partStart_mono parts (by omega)))
          (by omega : p + 1 + count ≤ parts.length)
        rw [← hr] at hiff' hout'
        refine ⟨⟨fun hnil q h₁ h₂ => ?_, fun hall => ?_⟩, fun hnil => ?_⟩
        · rcases h₁.eq_or_lt with rfl | hlt
          · unfold PartClean
            rw [hgetD]
            exact hclean
          · exact hiff'.mp hnil q hlt (by omega)
        · exact hiff'.mpr fun q h₁ h₂ => hall q (by omega) (by omega)
        · have hbytes := slice_partLength hp hstart hmore
          have hsum : readBefore parts start len p + partLength parts start len p =
              readBefore parts start len (p + 1) := readBefore_succ hp hstart
          have hlast : readBefore parts start len (p + 1) ≤
              readBefore parts start len (p + 1 + count) := by
            have := partStart_mono parts (Nat.le_add_right (p + 1) count)
            unfold readBefore
            omega
          rw [hout' hnil, hout, hbytes, append_assoc, ← hsum, ← add_assoc, ← slice_add,
            hsum, show p + (count + 1) = p + 1 + count by omega]
          congr 2
          omega
      · simp only [herr] at hr
        rw [hr]
        have hdirty : ¬ PartClean env e fi parts f start len p := by
          intro hclean
          unfold PartClean at hclean
          rw [hgetD] at hclean
          have := hiff.mpr hclean
          rw [herr] at this
          cases this
        refine ⟨⟨fun h => ?_, fun h => ?_⟩, fun h => ?_⟩
        · cases h
        · exact absurd (h p le_rfl (by omega)) hdirty
        · cases h

end Loop

/-! ### The read -/

section Read

variable {env : ReadEnv} {e : Erasure} {fi : FileInfo} {parts : List Bytes}
  {disks : List (Option Disk)} {metaArr : List FileInfo} {start len : ℕ} {writer : Sink}

lemma getObjectWithFileInfo_rest {length : ℤ} (hneg : length < 0) (hblocks : fi.blocks = [])
    (hle : (start : ℤ) ≤ fi.size) (hsize : fi.size < 2 ^ 63) :
    getObjectWithFileInfo env start length writer fi metaArr disks =
      getObjectWithFileInfo env start (fi.size - start) writer fi metaArr disks := by
  have hrest : int64 (fi.size - (start : ℤ)) = fi.size - start :=
    int64_eq_self (by omega) (by omega)
  have hpos : ¬ fi.size - (start : ℤ) < 0 := by omega
  unfold getObjectWithFileInfo
  simp [hrest, hneg, hpos, hblocks]

lemma getObjectWithFileInfo_of_le (hstored : Stored env e fi parts)
    (hagrees : Agrees disks metaArr fi) (hdisks : disks.length = e.shards)
    (hrange : start + len ≤ parts.flatten.length) :
    getObjectWithFileInfo env start len writer fi metaArr disks =
      match objectToPartOffset fi start with
      | .error _ => ⟨writer, some (.invalidRange start len fi.size), none⟩
      | .ok (first, offset) =>
        match objectToPartOffset fi (start + (len - 1) : ℕ) with
        | .error _ => ⟨writer, some (.invalidRange start len fi.size), none⟩
        | .ok (last, _) =>
          partsLoop env e fi len (last + 1 - first) first
            (arranged e.shards (shardDisk disks metaArr fi.erasure.distribution)) offset 0
            writer := by
  have hlt := hstored.size_lt
  have hsize := hstored.size
  have hpos : ¬ (len : ℤ) < 0 := by omega
  have hsum : int64 ((start : ℤ) + len) = (start : ℤ) + len := int64_eq_self (by omega) (by omega)
  have hend : (if (len : ℤ) > 0 then int64 ((start : ℤ) + ((len : ℤ) - 1)) else (start : ℤ)) =
      ((start + (len - 1) : ℕ) : ℤ) := by
    split_ifs with h
    · rw [int64_eq_self (by omega) (by omega)]
      omega
    · omega
  unfold getObjectWithFileInfo
  rw [hstored.blocks, hagrees.shuffle_eq, hdisks]
  simp only [length_nil, gt_iff_lt, lt_irrefl, if_false, hpos, hsum]
  rw [if_neg (by omega)]
  rewrite [hend, hstored.newErasure_eq]
  rfl

/-- A read of a stored object from disks of one kind, some of which fail: it returns nil with the
requested bytes exactly when its start is in the object and no failure was met. -/
theorem get_object_iff (hstored : Stored env e fi parts) (hagrees : Agrees disks metaArr fi)
    (hdisks : disks.length = e.shards) {length : ℤ}
    (hrange : start + len ≤ parts.flatten.length)
    (hlength : length = len ∨ length < 0 ∧ start + len = parts.flatten.length)
    (hread : Readable env e fi parts (shardDisk disks metaArr fi.erasure.distribution) start len)
    (hroom : writer.room = none) :
    ((getObjectWithFileInfo env start length writer fi metaArr disks).err = none ∧
      (getObjectWithFileInfo env start length writer fi metaArr disks).sink.out =
        writer.out ++ slice start len parts.flatten) ↔
      (start < parts.flatten.length ∨ start = 0) ∧ ∀ p < parts.length, PartClean env e fi parts
          (shardDisk disks metaArr fi.erasure.distribution) start len p := by
  have hlt := hstored.size_lt
  have hsize := hstored.size
  have hrequest : getObjectWithFileInfo env start length writer fi metaArr disks =
      getObjectWithFileInfo env start len writer fi metaArr disks := by
    rcases hlength with rfl | ⟨hneg, hrest⟩
    · rfl
    · rw [getObjectWithFileInfo_rest hneg hstored.blocks (by omega) (by omega)]
      congr 1
      omega
  rw [hrequest, getObjectWithFileInfo_of_le hstored hagrees hdisks hrange]
  by_cases hin : start < parts.flatten.length
  · -- the range starts in part `p` and ends in part `q`
    obtain ⟨p, hp, hpstart, hpend, hfirst⟩ := hstored.objectToPartOffset_ok hin
    obtain ⟨q, hq, hqstart, hqend, hlast⟩ :=
      hstored.objectToPartOffset_ok (show start + (len - 1) < parts.flatten.length by omega)
    have hpq : p ≤ q := by
      by_contra hgt
      have := partStart_mono parts (by omega : q + 1 ≤ p)
      omega
    have hzero : readBefore parts start len p = 0 := by
      unfold readBefore
      omega
    have hdone : readBefore parts start len (q + 1) = len := by
      unfold readBefore
      omega
    have hcount : p + (q + 1 - p) = q + 1 := by omega
    obtain ⟨hiff, hout⟩ := partsLoop_iff hstored hread (q + 1 - p) hroom hpend.le (by omega)
    rw [hzero, hcount] at hiff hout
    rw [hdone] at hout
    simp only [hfirst, hlast]
    constructor
    · rintro ⟨herr, -⟩
      refine ⟨Or.inl hin, fun r hr => ?_⟩
      by_cases hr₁ : p ≤ r
      · by_cases hr₂ : r < q + 1
        · exact hiff.mp herr r hr₁ hr₂
        · exact partClean_of_length (partLength_of_done hdone (by omega))
      · apply partClean_of_length
        have := partStart_mono parts (by omega : r + 1 ≤ p)
        unfold partLength
        omega
    · rintro ⟨-, hclean⟩
      have herr := hiff.mpr fun r _ hr => hclean r (by omega)
      exact ⟨herr, hout herr⟩
  · have hlen : len = 0 := by omega
    subst hlen
    by_cases h0 : start = 0
    · -- nothing is asked for
      subst h0
      have hfirst : objectToPartOffset fi ((0 : ℕ) : ℤ) = .ok (0, 0) := rfl
      simp only [hfirst]
      constructor
      · intro _
        exact ⟨Or.inr trivial, fun p _ => partClean_of_length (by unfold partLength; omega)⟩
      · intro _
        exact ⟨rfl, by simp [partsLoop]⟩
    · -- the end of the object is in no part
      have hend : start = parts.flatten.length := by omega
      obtain ⟨err, herr⟩ := hstored.objectToPartOffset_end (by omega)
      rw [← hend] at herr
      simp only [herr]
      constructor
      · rintro ⟨hnil, -⟩
        cases hnil
      · rintro ⟨hstart, -⟩
        omega

end Read

/-! ### Four shards, one of them lost -/

/-- A package that knows the code of two data and two parity shards. -/
def twoOfFourPkg : ReedSolomonPkg where
  new
    | 2, 2 => .ok .twoOfFour
    | _, _ => .error (.new 4 "unsupported")

def fourEnv : ReadEnv := ⟨twoOfFourPkg, ⟨1, .consistent, 0⟩, .inOrder, false, "bucket", "object"⟩

/-- The record of an object of two bytes on disk `index`. -/
def fourInfo (index : ℤ) : FileInfo :=
  { dataDir := "dir"
    modTime := ⟨1⟩
    size := 2
    parts := [{ number := 1, size := 2 }]
    erasure :=
      { dataBlocks := 2, parityBlocks := 2, blockSize := 2, index, distribution := [1, 2, 3, 4] } }

def fourMetas : List FileInfo := [1, 2, 3, 4].map fourInfo

def intactDisk (file : Bytes) : Disk := ⟨"", fun _ => fileReader file, fun _ => .error .fileNotFound⟩

def lostDisk : Disk := ⟨"", fun _ _ _ => .error .fileNotFound, fun _ => .error .fileNotFound⟩

/-- The disks of the object: the first one has lost its shard. -/
def fourDisks : List (Option Disk) :=
  some lostDisk :: [[2], [3], [35]].map fun file => some (intactDisk file)

lemma four_stored : Stored fourEnv (twoOfFour 2 Nat.two_pos) (fourInfo 1) [[1, 2]] where
  blocks := rfl
  encoder := rfl
  dataBlocks := rfl
  parityBlocks := rfl
  blockSize := rfl
  sizes := rfl
  nonempty p hp := absurd hp (by simp)
  size := rfl
  size_lt := by decide

lemma four_agrees : Agrees fourDisks fourMetas (fourInfo 1) where
  length := rfl
  distribution := List.Perm.refl _
  modTime := rfl
  data i d m _ hm _ := by
    obtain ⟨k, -, rfl⟩ := mem_map.mp (mem_of_getElem? hm)
    rfl
  index i d m _ hm _ := by
    rw [fourMetas, getElem?_map, Option.map_eq_some_iff] at hm
    obtain ⟨k, hk, rfl⟩ := hm
    exact hk

lemma four_shardDisk {k : ℕ} {d : Disk} {m : FileInfo}
    (h : shardDisk fourDisks fourMetas [1, 2, 3, 4] k = some (d, m)) :
    m.isValid ∧ d.hostname = "" := by
  obtain ⟨hd, hm, hvalid⟩ := shardDisk_eq_some.mp h
  refine ⟨hvalid, ?_⟩
  rcases mem_cons.mp (mem_of_getElem? hd) with hlost | hintact
  · rw [Option.some.inj hlost]
    rfl
  · obtain ⟨file, -, hfile⟩ := mem_map.mp hintact
    rw [← Option.some.inj hfile]
    rfl

open Classical in
lemma four_readable : Readable fourEnv (twoOfFour 2 Nat.two_pos) (fourInfo 1) [[1, 2]]
      (shardDisk fourDisks fourMetas [1, 2, 3, 4]) 0 2 where
  valid _ _ _ h := (four_shardDisk h).1
  host := Or.inl fun _ _ _ h => (four_shardDisk h).2
  parts p hp := by
    obtain rfl : p = 0 := by
      simp only [length_singleton] at hp
      omega
    have hreaders : rangeReaders fourEnv (twoOfFour 2 Nat.two_pos) (fourInfo 1) [[1, 2]]
        (shardDisk fourDisks fourMetas [1, 2, 3, 4]) 0 2 0 =
        (some fun _ _ => .error .fileNotFound) ::
          [[2], [3], [35]].map fun file => some (fileReader file) := rfl
    have hfiles : ∀ k file, [[2], [3], [35]][k]? = some file →
        (twoOfFour 2 Nat.two_pos).shardFile 2 [1, 2] (k + 1) = file := by
      intro k file hk
      match k, hk with
      | 0, hk | 1, hk | 2, hk =>
        cases hk
        decide +kernel
    have hsteady : ∀ file ∈ [[2], [3], [35]], AlwaysReads 1 (fileReader file) := by
      intro file hfile
      have hone : ∀ file ∈ ([[2], [3], [35]] : List Bytes), file.length = 1 := by decide
      exact hone file hfile ▸ alwaysReads_fileReader file
    rw [hreaders]
    refine ⟨rfl, fun k r hr => ?_, fun r hr o n err hle herr => ?_, ?_⟩
    · cases k with
      | zero =>
        cases hr
        intro o n bs hbs
        cases hbs
      | succ k =>
        rw [getElem?_cons_succ, getElem?_map, Option.map_eq_some_iff] at hr
        obtain ⟨file, hfile, hr⟩ := hr
        rw [← Option.some.inj hr]
        apply (readsFile_fileReader file).readsShard
        show file <+: (twoOfFour 2 Nat.two_pos).shardFile 2 [1, 2] (k + 1)
        rw [hfiles k file hfile]
    · rcases mem_cons.mp hr with hlost | hintact
      · cases hlost
        cases herr
        exact Or.inl rfl
      · obtain ⟨file, hfile, hr⟩ := mem_map.mp hintact
        obtain ⟨bs, hok⟩ := hsteady file hfile o n hle
        rw [Option.some.inj hr, herr] at hok
        cases hok
    · refine (sublist_cons_self _ _).countP_le.trans' ?_
      rw [countP_eq_length.mpr]
      · show 2 ≤ 3
        decide
      · intro r hr
        obtain ⟨file, hfile, rfl⟩ := mem_map.mp hr
        exact decide_eq_true ⟨_, rfl, hsteady file hfile⟩

/-- An object of one part on four disks, two of them with data. -/
theorem get_object_iff_four :
    ((getObjectWithFileInfo fourEnv (0 : ℕ) (2 : ℕ) .unlimited (fourInfo 1) fourMetas
        fourDisks).err = none ∧
      (getObjectWithFileInfo fourEnv (0 : ℕ) (2 : ℕ) .unlimited (fourInfo 1) fourMetas
        fourDisks).sink.out = Sink.unlimited.out ++ slice 0 2 [[1, 2]].flatten) ↔
      (0 < [[(1 : UInt8), 2]].flatten.length ∨ 0 = 0) ∧
        ∀ p < [[(1 : UInt8), 2]].length, PartClean fourEnv (twoOfFour 2 Nat.two_pos) (fourInfo 1)
          [[1, 2]] (shardDisk fourDisks fourMetas [1, 2, 3, 4]) 0 2 p :=
  get_object_iff four_stored four_agrees rfl (by decide) (Or.inl rfl) four_readable rfl

/-- One of four shards is lost, and the bytes are restored from others: they are written, and the
read reports that the object does not exist. -/
theorem get_object_with_lost_shard :
    (getObjectWithFileInfo fourEnv 0 2 .unlimited (fourInfo 1) fourMetas fourDisks).sink.out =
        [1, 2] ∧
      (getObjectWithFileInfo fourEnv 0 2 .unlimited (fourInfo 1) fourMetas fourDisks).err =
        some (.api .objectNotFound) := by
  decide +kernel

end Obstor.Coding
