import Obstor.Go.Values
import Obstor.Lib.Slice

/-!
# Erasure coding of one block

An `Erasure` cuts a block of data into `D` equal shards, padded with zeros, and adds `P` parity
shards (`cmd/erasure-coding.go`). The code itself is the package `reedsolomon`, here the parameter
`ReedSolomon`: `Split` pads and cuts, `Encode` keeps the data shards, and `ReconstructData` gives
them back from any `D` shards of a codeword, the others being empty (the code is MDS).
-/

namespace Obstor.Coding

open Go Lib List

/-- `ceilFrac` of non-negative numbers.
Source: `cmd/utils.go` -/
def ceilFrac (numerator denominator : ℕ) : ℕ :=
  if denominator = 0 then 0
  else numerator / denominator + if numerator > 0 ∧ numerator % denominator ≠ 0 then 1 else 0

lemma ceilFrac_eq {n d : ℕ} (hd : 0 < d) : ceilFrac n d = blockCount d n := by
  have hdm := Nat.div_add_mod n d
  have hlt := Nat.mod_lt n hd
  rw [ceilFrac, if_neg hd.ne']
  by_cases h : n % d = 0
  · rw [if_neg (fun hc => hc.2 h)]
    symm
    refine Nat.div_eq_of_lt_le ?_ ?_
    · rw [add_zero, mul_comm]
      omega
    · rw [Nat.succ_mul, mul_comm]
      omega
  · have hpos : n > 0 := pos_of_ne_zero (by rintro rfl; simp at h)
    rw [if_pos ⟨hpos, h⟩]
    symm
    refine Nat.div_eq_of_lt_le ?_ ?_
    · rw [Nat.succ_mul, mul_comm]
      omega
    · rw [Nat.succ_mul, Nat.succ_mul, mul_comm]
      omega

/-! ### The package -/

/-- The data shards `Split` makes of a block: equal pieces of the block padded with zeros. -/
def dataShards (D : ℕ) (data : Bytes) : List Bytes :=
  let size := blockCount D data.length
  (List.range D).map fun i => block size i (data ++ replicate (D * size - data.length) 0)

/-- `known` has some shards of the codeword `code`, and nothing in the places of the others. -/
def PartOf (known code : List Bytes) : Prop :=
  Forall₂ (fun k c => k = [] ∨ k = c) known code

lemma PartOf.eq_of_full {known code : List Bytes} (h : PartOf known code)
    (hfull : ∀ b ∈ known, b.length ≠ 0) : known = code := by
  induction h with
  | nil => rfl
  | @cons k c ks cs hk _ ih =>
    have hkc : k = c := by
      rcases hk with rfl | rfl
      · exact absurd rfl (hfull [] mem_cons_self)
      · rfl
    rw [hkc, ih fun b hb => hfull b (mem_cons_of_mem _ hb)]

def present (shards : List Bytes) : ℕ := shards.countP fun b => b.length > 0

/-- A `reedsolomon.Encoder` for `D` data and `P` parity shards. -/
structure ReedSolomon (D P : ℕ) where
  split : Bytes → Except Err (List Bytes)
  encode : List Bytes → Except Err (List Bytes)
  reconstructData : List Bytes → Except Err (List Bytes)
  /-- `Split` pads with zeros to `D` equal shards and adds room for the parity. -/
  split_ok : ∀ data, data ≠ [] → split data = .ok (dataShards D data ++
    replicate P (replicate (blockCount D data.length) 0))
  /-- `Encode` fills the parity shards. -/
  encode_ok : ∀ shards size, shards.length = D + P → (∀ s ∈ shards, s.length = size) → 0 < size →
    ∃ code, encode shards = .ok code ∧ code.length = D + P ∧ (∀ s ∈ code, s.length = size) ∧
      code.take D = shards.take D
  /-- Any `D` shards of a codeword determine its data shards. -/
  reconstruct_ok : ∀ shards code known, encode shards = .ok code → PartOf known code →
    D ≤ present known → ∃ r, reconstructData known = .ok r ∧ r.length = code.length ∧
      r.take D = code.take D

/-! ### Two data and two parity shards -/

/-- The two halves of a byte times a root of `x ^ 2 + x + 1`. -/
def times (x : UInt8) : UInt8 := x <<< 4 ^^^ x >>> 4 ^^^ x <<< 4 >>> 4

lemma times_xor (x y : UInt8) : times (x ^^^ y) = times x ^^^ times y := by
  simp only [times, UInt8.shiftLeft_xor, UInt8.shiftRight_xor]
  ac_rfl

lemma times_times (x : UInt8) : times (times x) = x ^^^ times x := by
  revert x
  decide +kernel

lemma xor_xor_self (x y : UInt8) : x ^^^ (y ^^^ x) = y := by
  rw [UInt8.xor_comm, UInt8.xor_assoc, UInt8.xor_self, UInt8.xor_zero]

lemma xor_self_xor (x y : UInt8) : (x ^^^ y) ^^^ x = y := by
  rw [UInt8.xor_comm x, UInt8.xor_assoc, UInt8.xor_self, UInt8.xor_zero]

lemma xor_xor_xor (x y z : UInt8) : (x ^^^ y) ^^^ (x ^^^ z) = y ^^^ z := by
  rw [← UInt8.xor_assoc, xor_self_xor]

/-- The sum of two shards. -/
def sum (a b : Bytes) : Bytes := zipWith (· ^^^ ·) a b

/-- Two data shards, their sum, and the sum of the first one and a multiple of the second. -/
def codeword (l : List (UInt8 × UInt8)) : List Bytes :=
  [l.map fun x => x.1, l.map fun x => x.2, l.map fun x => x.1 ^^^ x.2,
    l.map fun x => x.1 ^^^ times x.2]

lemma sum_map {α : Type} (l : List α) (f g : α → UInt8) :
    sum (l.map f) (l.map g) = l.map fun x => f x ^^^ g x := by
  rw [sum, zipWith_map, zipWith_self]

/-- Two data and two parity shards. -/
def ReedSolomon.twoOfFour : ReedSolomon 2 2 where
  split data :=
    if data = [] then .error (.new 0 "not enough data to fill the number of requested shards")
    else .ok (dataShards 2 data ++ replicate 2 (replicate (blockCount 2 data.length) 0))
  encode
    | [a, b, p, q] =>
      if a ≠ [] ∧ ∀ s ∈ [b, p, q], s.length = a.length then .ok (codeword (a.zip b))
      else .error (.new 1 "shard sizes do not match")
    | _ => .error (.new 2 "too few shards given")
  reconstructData
    | [[], [], [], _] | [[], [], _, []] | [[], _, [], []] | [_, [], [], []] =>
      .error (.new 2 "too few shards given")
    | [[], [], p, q] => .ok [sum ((sum p q).map times) p, (sum p q).map times, p, q]
    | [[], b, [], q] => .ok [sum (b.map times) q, b, [], q]
    | [[], b, p, q] => .ok [sum b p, b, p, q]
    | [a, [], [], q] => .ok [a, (sum q a).map fun x => times (times x), [], q]
    | [a, [], p, q] => .ok [a, sum p a, p, q]
    | [a, b, p, q] => .ok [a, b, p, q]
    | _ => .error (.new 2 "too few shards given")
  split_ok data hne := if_neg hne
  encode_ok := by
    intro shards size hlen hsize hpos
    match shards, hlen with
    | [a, b, p, q], _ =>
      obtain ⟨rfl, hrest⟩ := forall_mem_cons.mp hsize
      have hb : b.length = a.length := hrest b mem_cons_self
      refine ⟨codeword (a.zip b), if_pos ⟨ne_nil_of_length_pos hpos, hrest⟩, rfl, ?_, ?_⟩
      · simp [codeword, hb]
      · show [map Prod.fst (a.zip b), map Prod.snd (a.zip b)] = [a, b]
        rw [map_fst_zip hb.ge, map_snd_zip hb.le]
  reconstruct_ok := by
    intro shards code known hcode hknown hcan
    match shards, hcode with
    | [a, b, p, q], hcode =>
      simp only at hcode
      split_ifs at hcode with hsize
      injection hcode with hcode
      subst hcode
      obtain ⟨x, l, hl⟩ : ∃ x l, a.zip b = x :: l := by
        refine exists_cons_of_ne_nil (ne_nil_of_length_pos ?_)
        rw [length_zip, hsize.2 b mem_cons_self, min_self]
        exact length_pos_iff.mpr hsize.1
      rw [hl] at hknown ⊢
      match known, hknown with
      | [k₀, k₁, k₂, k₃], .cons h₀ (.cons h₁ (.cons h₂ (.cons h₃ .nil))) =>
        -- with fewer than two shards there is nothing to show
        rcases h₀ with rfl | rfl <;> rcases h₁ with rfl | rfl <;> rcases h₂ with rfl | rfl <;>
          rcases h₃ with rfl | rfl <;> first
          | (simp [present] at hcan; done)
          | (refine ⟨_, rfl, rfl, ?_⟩
             simp only [codeword, take_succ_cons, take_zero, sum_map, map_map, Function.comp_def,
               times_xor, times_times, xor_xor_self, xor_self_xor, xor_xor_xor])

/-! ### The erasure code of an object -/

/-- `Erasure`, as `NewErasure` makes it. -/
structure Erasure where
  dataBlocks : ℕ
  parityBlocks : ℕ
  blockSize : ℕ
  encoder : ReedSolomon dataBlocks parityBlocks
  dataBlocks_pos : 0 < dataBlocks
  parityBlocks_pos : 0 < parityBlocks
  shards_le : dataBlocks + parityBlocks ≤ 256
  blockSize_pos : 0 < blockSize

namespace Erasure

variable (e : Erasure)

def shards : ℕ := e.dataBlocks + e.parityBlocks

def encodeData (data : Bytes) : Except Err (List Bytes) :=
  if data.length = 0 then .ok (replicate e.shards [])
  else
    match e.encoder.split data with
    | .error err => .error err
    | .ok encoded => e.encoder.encode encoded

/-- `DecodeDataBlocks`: shards that are all there, or all missing, stay as they are. -/
def decodeDataBlocks (data : List Bytes) : Except Err (List Bytes) :=
  let isZero := data.countP fun b => b.length = 0
  if isZero = 0 ∨ isZero = data.length then .ok data else e.encoder.reconstructData data

def shardSize : ℕ := ceilFrac e.blockSize e.dataBlocks

/-- `ShardFileSize` of a known length. -/
def shardFileSize (totalLength : ℕ) : ℕ :=
  if totalLength = 0 then 0
  else totalLength / e.blockSize * e.shardSize + ceilFrac (totalLength % e.blockSize) e.dataBlocks

def shardFileOffset (startOffset length totalLength : ℕ) : ℕ :=
  let endShard := (startOffset + length) / e.blockSize
  min (endShard * e.shardSize + e.shardSize) (e.shardFileSize totalLength)

/-! ### Codewords -/

/-- `code` is the codeword of the block `data`. -/
structure Codeword (data : Bytes) (code : List Bytes) : Prop where
  length : code.length = e.shards
  size : ∀ s ∈ code, s.length = blockCount e.dataBlocks data.length
  data : code.take e.dataBlocks = dataShards e.dataBlocks data
  encoded : ∃ shards, e.encoder.encode shards = .ok code

variable {e}

lemma dataShards_length (D : ℕ) (data : Bytes) : (dataShards D data).length = D := by
  simp [dataShards]

variable {data : Bytes}

lemma mem_dataShards_length {D : ℕ} {s : Bytes} (h : s ∈ dataShards D data) :
    s.length = blockCount D data.length := by
  obtain ⟨i, hi, rfl⟩ := mem_map.mp h
  have hi' := mem_range.mp hi
  have hmul : (i + 1) * blockCount D data.length ≤ D * blockCount D data.length :=
    Nat.mul_le_mul_right _ hi'
  rw [block_length, length_append, length_replicate]
  rw [Nat.succ_mul] at hmul
  omega

lemma flatten_dataShards {D : ℕ} (hD : 0 < D) (data : Bytes) :
    ∃ pad, (dataShards D data).flatten = data ++ pad := by
  refine ⟨replicate (D * blockCount D data.length - data.length) 0, ?_⟩
  have hle := le_mul_blockCount hD data.length
  rw [dataShards, flatten_range_block]
  rw [slice, drop_zero, take_of_length_le]
  rw [length_append, length_replicate]
  omega

lemma Codeword.flatten_data {code : List Bytes} (h : e.Codeword data code) :
    ∃ pad, (code.take e.dataBlocks).flatten = data ++ pad := by
  rw [h.data]
  exact flatten_dataShards e.dataBlocks_pos data

lemma encodeData_ok (e : Erasure) (hne : data ≠ []) :
    ∃ code, e.encodeData data = .ok code ∧ e.Codeword data code := by
  have hlen : ¬ data.length = 0 := by rwa [length_eq_zero_iff]
  have hpos := blockCount_pos e.dataBlocks_pos (pos_of_ne_zero hlen)
  have hsplit := e.encoder.split_ok data hne
  generalize hs : dataShards e.dataBlocks data ++ replicate e.parityBlocks
    _ = shards at hsplit
  have hcount : shards.length = e.dataBlocks + e.parityBlocks := by
    rw [← hs, length_append, dataShards_length, length_replicate]
  have hsize : ∀ s ∈ shards, s.length = blockCount e.dataBlocks data.length := by
    intro s hmem
    rw [← hs] at hmem
    rcases mem_append.mp hmem with hmem | hmem
    · exact mem_dataShards_length hmem
    · rw [eq_of_mem_replicate hmem, length_replicate]
  obtain ⟨code, hcode, hclen, hcsize, hdata⟩ := e.encoder.encode_ok shards _ hcount hsize hpos
  refine ⟨code, ?_, hclen, hcsize, ?_, shards, hcode⟩
  · simp only [encodeData, if_neg hlen, hsplit]
    exact hcode
  · rw [hdata, ← hs, take_left' (dataShards_length _ _)]

lemma decodeDataBlocks_ok {code known : List Bytes} (h : e.Codeword data code)
    (hknown : PartOf known code) (hcan : e.dataBlocks ≤ present known) :
    ∃ r, e.decodeDataBlocks known = .ok r ∧ r.length = code.length ∧
      r.take e.dataBlocks = code.take e.dataBlocks := by
  obtain ⟨shards, hcode⟩ := h.encoded
  unfold decodeDataBlocks
  by_cases hzero : known.countP (fun b => b.length = 0) = 0
  · -- every shard was read, so this is the codeword
    have hall : known = code := hknown.eq_of_full fun b hb hlen =>
      countP_eq_zero.mp hzero b hb (decide_eq_true hlen)
    exact ⟨known, if_pos (Or.inl hzero), by rw [hall], by rw [hall]⟩
  · have hmiss : known.countP (fun b => b.length = 0) ≠ known.length := by
      intro hc
      have hnone : present known = 0 := by
        rw [present, countP_eq_zero]
        rw [countP_eq_length] at hc
        intro b hb
        have := hc b hb
        simp only [decide_eq_true_eq] at this ⊢
        omega
      have := e.dataBlocks_pos
      omega
    obtain ⟨r, hr, hlen, hdata⟩ := e.encoder.reconstruct_ok shards code known hcode hknown hcan
    exact ⟨r, by rw [if_neg (not_or.mpr ⟨hzero, hmiss⟩), hr], hlen, hdata⟩

end Erasure

end Obstor.Coding
