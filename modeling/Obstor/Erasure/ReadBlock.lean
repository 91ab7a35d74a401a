import Obstor.Erasure.Decode
import Obstor.Erasure.Encode

/-!
# What one `Read` gives

The readers of a decoder stand behind slots. `SlotsOk` says that every reader gives bytes of the
shard file of its buffer, or an error, and that no two readers share a buffer. Then one
`parallelReader.Read` gives at least `D` shards of the codeword of the block it stands at if that
many slots can give one (`StandsAt.read_ok`), and nothing otherwise (`StandsAt.read_short`).
-/

namespace Obstor.Coding

open Go Lib Quorum List ReadSlot Erasure

/-! ### Collected shards -/

lemma present_set {known : List Bytes} {i : ℕ} (hi : i < known.length) (hempty : known[i] = [])
    {b : Bytes} (hb : b ≠ []) : present (known.set i b) = present known + 1 := by
  have hpos : b.length > 0 := length_pos_of_ne_nil hb
  unfold present
  rw [countP_set hi, hempty]
  simp [hpos]

lemma PartOf.set {known code : List Bytes} (h : PartOf known code) {i : ℕ}
    (hi : i < code.length) : PartOf (known.set i code[i]) code := by
  unfold PartOf at h ⊢
  rw [List.forall₂_iff_get] at h ⊢
  obtain ⟨hlen, hget⟩ := h
  refine ⟨by rw [length_set]; exact hlen, fun k h₁ h₂ => ?_⟩
  simp only [get_eq_getElem, getElem_set]
  split_ifs with hik
  · subst hik
    exact Or.inr rfl
  · exact hget k _ h₂

lemma PartOf.nothing (code : List Bytes) : PartOf (replicate code.length []) code := by
  induction code with
  | nil => exact .nil
  | cons c cs ih => exact .cons (Or.inl rfl) ih

/-- The bytes of the calls, with their buffers. -/
def gotten (calls : List (ReadSlot × Outcome)) : List (ℕ × Bytes) :=
  calls.filterMap fun c =>
    match c.2 with
    | .got bytes => some (c.1.buf, bytes)
    | _ => none

section Gotten

variable (s : ReadSlot) (cs : List (ReadSlot × Outcome))

@[simp] lemma gotten_cons_skipped : gotten ((s, .skipped) :: cs) = gotten cs := rfl

@[simp] lemma gotten_cons_failed (err : Err) : gotten ((s, .failed err) :: cs) = gotten cs := rfl

@[simp] lemma gotten_cons_got (bytes : Bytes) :
    gotten ((s, .got bytes) :: cs) = (s.buf, bytes) :: gotten cs := rfl

end Gotten

/-- Bytes put into their buffers. -/
def setAll (bufs : List Bytes) (gots : List (ℕ × Bytes)) : List Bytes :=
  gots.foldl (fun bufs g => bufs.set g.1 g.2) bufs

lemma fillBufs_eq (n : ℕ) (calls : List (ReadSlot × Outcome)) :
    fillBufs n calls = setAll (replicate n []) (gotten calls) := by
  unfold fillBufs setAll gotten
  generalize replicate n ([] : Bytes) = bufs
  induction calls generalizing bufs with
  | nil => rfl
  | cons c calls ih =>
    obtain ⟨s, o⟩ := c
    cases o <;> exact ih _

lemma setAll_spec {code : List Bytes} (hcode : ∀ c ∈ code, c ≠ []) (gots : List (ℕ × Bytes))
    {bufs : List Bytes} (hbufs : PartOf bufs code)
    (hgots : ∀ g ∈ gots, code[g.1]? = some g.2) (hnodup : (gots.map Prod.fst).Nodup)
    (hfree : ∀ g ∈ gots, bufs[g.1]? = some []) :
    PartOf (setAll bufs gots) code ∧ present (setAll bufs gots) = present bufs + gots.length := by
  induction gots generalizing bufs with
  | nil => exact ⟨hbufs, rfl⟩
  | cons g gots ih =>
    rw [map_cons, nodup_cons] at hnodup
    obtain ⟨hi, hg⟩ := List.getElem?_eq_some_iff.mp (hgots g mem_cons_self)
    obtain ⟨hi', hfree₀⟩ := List.getElem?_eq_some_iff.mp (hfree g mem_cons_self)
    have hset : PartOf (bufs.set g.1 g.2) code := by
      rw [← hg]
      exact hbufs.set hi
    obtain ⟨hpart, hcount⟩ := ih hset (fun g' hg' => hgots g' (mem_cons_of_mem _ hg'))
      hnodup.2 fun g' hg' => by
        have hne : g.1 ≠ g'.1 := by
          intro heq
          exact hnodup.1 (heq ▸ mem_map_of_mem hg')
        rw [getElem?_set_ne hne]
        exact hfree g' (mem_cons_of_mem _ hg')
    refine ⟨hpart, hcount.trans ?_⟩
    rw [present_set hi' hfree₀ (by rw [← hg]; exact hcode _ (getElem_mem hi)), length_cons]
    omega

/-! ### The calls of one `Read` -/

abbrev calls (offset size need : ℕ) (slots : List ReadSlot) : List (ReadSlot × Outcome) :=
  slots.zip (readSlots offset size need slots)

variable {offset size need : ℕ} {slots : List ReadSlot}

lemma readSlots_length (offset size need : ℕ) (slots : List ReadSlot) :
    (readSlots offset size need slots).length = slots.length := by
  induction slots generalizing need with
  | nil => cases need <;> rfl
  | cons s slots ih => cases need <;> simp [readSlots, ih]

lemma calls_length : (calls offset size need slots).length = slots.length := by
  rw [length_zip, readSlots_length, min_self]

lemma map_fst_calls : (calls offset size need slots).map Prod.fst = slots :=
  map_fst_zip (by rw [readSlots_length])

lemma map_snd_calls :
    (calls offset size need slots).map Prod.snd = readSlots offset size need slots :=
  map_snd_zip (by rw [readSlots_length])

lemma mem_calls {c : ReadSlot × Outcome} (hc : c ∈ calls offset size need slots) :
    c.1 ∈ slots ∧ (c.2 = .skipped ∨ c.2 = c.1.outcome offset size) := by
  induction slots generalizing need with
  | nil => simp at hc
  | cons s slots ih =>
    cases need with
    | zero =>
      rw [calls, readSlots, zip_cons_cons, mem_cons] at hc
      rcases hc with rfl | hc
      · exact ⟨mem_cons_self, Or.inl rfl⟩
      · exact (ih hc).imp_left (mem_cons_of_mem _)
    | succ need =>
      rw [calls, readSlots, zip_cons_cons, mem_cons] at hc
      rcases hc with rfl | hc
      · exact ⟨mem_cons_self, Or.inr rfl⟩
      · exact (ih hc).imp_left (mem_cons_of_mem _)

lemma gotten_calls_zero : gotten (calls offset size 0 slots) = [] := by
  induction slots with
  | nil => rfl
  | cons s slots ih => exact ih

lemma length_gotten_calls : (gotten (calls offset size need slots)).length =
      min need (slots.countP fun s => (s.outcome offset size).isGot) := by
  induction slots generalizing need with
  | nil => simp [gotten]
  | cons s slots ih =>
    cases need with
    | zero => rw [gotten_calls_zero, Nat.zero_min, length_nil]
    | succ need =>
      rw [calls, readSlots, zip_cons_cons, countP_cons]
      rcases ho : s.outcome offset size with _ | err | bytes
      · simp [ih]
      · simp [ih]
      · simp only [gotten_cons_got, length_cons, Outcome.isGot, if_true, ih]
        omega

def available (slots : List ReadSlot) : List ReadSlot := slots.filter fun s => s.reader.isSome

variable {s : ReadSlot}

lemma available_cons_of_none (h : s.reader = none) (slots : List ReadSlot) :
    available (s :: slots) = available slots := by
  simp [available, h]

lemma available_cons_of_some {r : Reader} (h : s.reader = some r)
    (slots : List ReadSlot) : available (s :: slots) = s :: available slots := by
  simp [available, h]

lemma outcome_of_reader_none (h : s.reader = none) : s.outcome offset size = .skipped := by
  rw [outcome, h]

lemma outcome_ne_skipped {r : Reader} (h : s.reader = some r) :
    s.outcome offset size ≠ .skipped := by
  unfold outcome
  rw [h]
  cases hr : r offset size <;> simp [hr]

lemma gotten_calls_sublist : ((gotten (calls offset size need slots)).map Prod.fst).Sublist
      ((available slots).map buf) := by
  induction slots generalizing need with
  | nil => exact nil_sublist _
  | cons s slots ih =>
    cases need with
    | zero => rw [gotten_calls_zero]; exact nil_sublist _
    | succ need =>
      rw [calls, readSlots]
      rcases hs : s.reader with _ | r
      · rw [outcome_of_reader_none hs, available_cons_of_none hs]
        exact ih
      · rw [available_cons_of_some hs]
        rcases s.outcome offset size with _ | err | bytes
        · exact ih.cons s.buf
        · exact ih.cons s.buf
        · exact ih.cons_cons s.buf

def afterCalls (cs : List (ReadSlot × Outcome)) : List ReadSlot := cs.map fun c => c.1.after c.2

lemma available_afterCalls_sublist (cs : List (ReadSlot × Outcome)) :
    (available (afterCalls cs)).Sublist (available (cs.map Prod.fst)) := by
  induction cs with
  | nil => exact Sublist.refl _
  | cons c cs ih =>
    obtain ⟨s, o⟩ := c
    have hsame : (available (s :: afterCalls cs)).Sublist (available (s :: cs.map Prod.fst)) := by
      rcases hs : s.reader with _ | r
      · rw [available_cons_of_none hs, available_cons_of_none hs]
        exact ih
      · rw [available_cons_of_some hs, available_cons_of_some hs]
        exact ih.cons_cons s
    cases o with
    | skipped => exact hsame
    | got bytes => exact hsame
    | failed err =>
      refine Sublist.trans ih ?_
      exact (sublist_cons_self s _).filter _

/-! ### Readers of shard files -/

/-- The reader gives bytes of the shard file of index `i`, or an error. -/
def ReadsShard (e : Erasure) (data : Bytes) (i : ℕ) (r : Reader) : Prop :=
  ∀ o n bs, r o n = .ok bs → bs = slice o n (e.shardFile e.blockSize data i)

/-- The reader gives the bytes it is asked for, inside a file of the given size. -/
def AlwaysReads (fileSize : ℕ) (r : Reader) : Prop :=
  ∀ o n, o + n ≤ fileSize → ∃ bs, r o n = .ok bs

/-- The readers of the slots read the shard files of their buffers, and do not share one. -/
structure SlotsOk (e : Erasure) (data : Bytes) (slots : List ReadSlot) : Prop where
  length : slots.length = e.shards
  reads : ∀ s ∈ slots, ∀ r, s.reader = some r → s.buf < e.shards ∧ ReadsShard e data s.buf r
  nodup : ((available slots).map ReadSlot.buf).Nodup

lemma outcome_eq_got {bytes : Bytes} (h : s.outcome offset size = .got bytes) :
    ∃ r, s.reader = some r ∧ r offset size = .ok bytes := by
  unfold outcome at h
  split at h
  · cases h
  · rename_i r hr
    refine ⟨r, hr, ?_⟩
    split at h
    · cases h
    · rename_i bytes' hb
      rw [hb, Outcome.got.inj h]

lemma outcome_eq_failed {err : Err} (h : s.outcome offset size = .failed err) :
    ∃ r, s.reader = some r ∧ r offset size = .error err := by
  unfold outcome at h
  split at h
  · cases h
  · rename_i r hr
    refine ⟨r, hr, ?_⟩
    split at h
    · rename_i err' he
      rw [he, Outcome.failed.inj h]
    · cases h

lemma mem_gotten {cs : List (ReadSlot × Outcome)} {g : ℕ × Bytes} (hg : g ∈ gotten cs) :
    ∃ c ∈ cs, c.1.buf = g.1 ∧ c.2 = .got g.2 := by
  obtain ⟨⟨s, o⟩, hc, heq⟩ := mem_filterMap.mp hg
  cases o with
  | skipped => cases heq
  | failed err => cases heq
  | got bytes =>
    cases heq
    exact ⟨_, hc, rfl, rfl⟩

namespace SlotsOk

variable {e : Erasure} {data : Bytes} {j : ℕ}

lemma shard_of_mem_gotten (h : SlotsOk e data slots) (hj : j * e.blockSize < data.length)
    {g : ℕ × Bytes}
    (hg : g ∈ gotten (calls (j * e.shardSize) (e.blockShardSize data.length j) need slots)) :
    (e.codeword (block e.blockSize j data))[g.1]? = some g.2 := by
  obtain ⟨c, hc, hbuf, hgot⟩ := mem_gotten hg
  obtain ⟨hmem, hout⟩ := mem_calls hc
  rw [hgot] at hout
  rcases hout with hout | hout
  · cases hout
  obtain ⟨r, hr, hok⟩ := outcome_eq_got hout.symm
  obtain ⟨hlt, hreads⟩ := h.reads c.1 hmem r hr
  have hbytes := hreads _ _ _ hok
  rw [slice_shardFile hlt hj] at hbytes
  rw [hbuf] at hlt hbytes
  have hi : g.1 < (e.codeword (block e.blockSize j data)).length := by
    rw [(codeword_block hj).length]
    exact hlt
  rw [hbytes, getD_eq_getElem?_getD, getElem?_eq_getElem hi, Option.getD_some]

lemma fillBufs_calls (need : ℕ) (h : SlotsOk e data slots) (hj : j * e.blockSize < data.length) :
    PartOf (fillBufs slots.length
        (calls (j * e.shardSize) (e.blockShardSize data.length j) need slots))
      (e.codeword (block e.blockSize j data)) ∧
    present (fillBufs slots.length
        (calls (j * e.shardSize) (e.blockShardSize data.length j) need slots)) =
      min need (slots.countP fun s =>
        (s.outcome (j * e.shardSize) (e.blockShardSize data.length j)).isGot) := by
  have hcode := codeword_block hj
  have hlen : slots.length = (e.codeword (block e.blockSize j data)).length := by
    rw [h.length, hcode.length]
  have hne : ∀ c ∈ e.codeword (block e.blockSize j data), c ≠ [] := by
    intro c hc
    apply ne_nil_of_length_pos
    rw [hcode.size c hc, block_length]
    exact blockShardSize_pos hj
  rw [fillBufs_eq, hlen, ← length_gotten_calls]
  obtain ⟨hpart, hcount⟩ := setAll_spec hne _ (PartOf.nothing _)
    (fun g hg => h.shard_of_mem_gotten hj hg) (h.nodup.sublist gotten_calls_sublist)
    (fun g hg => by
      obtain ⟨hi, -⟩ := List.getElem?_eq_some_iff.mp (h.shard_of_mem_gotten hj hg)
      rw [getElem?_replicate, if_pos hi])
  refine ⟨hpart, hcount.trans ?_⟩
  rw [present]
  simp

lemma afterCalls (h : SlotsOk e data slots) :
    SlotsOk e data (afterCalls (calls offset size need slots)) := by
  have hsub := available_afterCalls_sublist (calls offset size need slots)
  rw [map_fst_calls] at hsub
  refine ⟨?_, fun s hs r hr => ?_, h.nodup.sublist (hsub.map _)⟩
  · rw [Coding.afterCalls, length_map, calls_length, h.length]
  · have hmem : s ∈ available (Coding.afterCalls (calls offset size need slots)) :=
      mem_filter.mpr ⟨hs, by rw [hr]; rfl⟩
    exact h.reads s (mem_filter.mp (hsub.subset hmem)).1 r hr

end SlotsOk

/-! ### `Read` -/

/-- The offsets and sizes of a reader that is about to read the shards of block `j` of `n` bytes. -/
structure AtBlock (e : Erasure) (n j : ℕ) (p : ParallelReader) : Prop where
  offset : p.offset = j * e.shardSize
  shardSize : p.shardSize = e.shardSize
  shardFileSize : p.shardFileSize = e.shardFileSize n
  dataBlocks : p.dataBlocks = e.dataBlocks

section

variable (e : Erasure) (data : Bytes) (j : ℕ)

/-- The reader is about to read the shards of block `j`. -/
structure StandsAt (p : ParallelReader) : Prop where
  offset : p.offset = j * e.shardSize
  shardSize : p.shardSize = e.shardSize
  shardFileSize : p.shardFileSize = e.shardFileSize data.length
  dataBlocks : p.dataBlocks = e.dataBlocks
  slots : SlotsOk e data p.slots

/-- The calls of the `Read` of block `j`. -/
abbrev blockCalls (slots : List ReadSlot) : List (ReadSlot × Outcome) :=
  calls (j * e.shardSize) (e.blockShardSize data.length j) e.dataBlocks slots

/-- The number of slots that can give the shard of block `j`. -/
def readable (slots : List ReadSlot) : ℕ :=
  slots.countP fun s => (s.outcome (j * e.shardSize) (e.blockShardSize data.length j)).isGot

end

section Read

variable {e : Erasure} {data : Bytes} {j : ℕ} {p : ParallelReader} (ρ : RangeOrder)

lemma StandsAt.atBlock (h : StandsAt e data j p) : AtBlock e data.length j p :=
  ⟨h.offset, h.shardSize, h.shardFileSize, h.dataBlocks⟩

lemma AtBlock.read_eq (h : AtBlock e data.length j p) (hj : j * e.blockSize < data.length) :
    p.read ρ = (let size := e.blockShardSize data.length j
       let cs := blockCalls e data j p.slots
       let p' := { p with
         shardSize := size
         slots := afterCalls cs
         orgReaders := dropFailed p.orgReaders cs }
       if p.canDecode (fillBufs p.slots.length cs) then
         ({ p' with offset := p.offset + size }, fillBufs p.slots.length cs,
           healErr (readSlots (j * e.shardSize) size e.dataBlocks p.slots))
       else
         (p', [], reduceReadQuorumErrs ρ (p'.slots.map err) objectOpIgnoredErrs
           p.dataBlocks)) := by
  have hsize := clip_shardSize hj
  have hpos := blockShardSize_pos hj
  unfold ParallelReader.read
  simp only [h.offset, h.shardSize, h.shardFileSize, h.dataBlocks, hsize, if_neg hpos.ne']
  rfl

lemma AtBlock.next (h : AtBlock e data.length j p) (hnext : (j + 1) * e.blockSize ≤ data.length)
    (slots : List ReadSlot) (orgReaders : List (Option Reader)) :
    AtBlock e data.length (j + 1) { p with
      shardSize := e.blockShardSize data.length j
      slots := slots
      orgReaders := orgReaders
      offset := p.offset + e.blockShardSize data.length j } := by
  have hsize := blockShardSize_of_full hnext
  refine ⟨?_, hsize, h.shardFileSize, h.dataBlocks⟩
  show p.offset + e.blockShardSize data.length j = _
  rw [h.offset, hsize, Nat.succ_mul]

lemma StandsAt.read_ok (h : StandsAt e data j p) (hj : j * e.blockSize < data.length)
    (hcan : e.dataBlocks ≤ readable e data j p.slots) :
    ∃ p' bufs, p.read ρ = (p', bufs,
        healErr (readSlots (j * e.shardSize) (e.blockShardSize data.length j) e.dataBlocks
          p.slots)) ∧
      PartOf bufs (e.codeword (block e.blockSize j data)) ∧ e.dataBlocks ≤ present bufs ∧
      p'.slots = afterCalls (blockCalls e data j p.slots) ∧
      p'.orgReaders = dropFailed p.orgReaders (blockCalls e data j p.slots) ∧
      ((j + 1) * e.blockSize ≤ data.length → StandsAt e data (j + 1) p') := by
  obtain ⟨hpart, hcount⟩ := h.slots.fillBufs_calls e.dataBlocks hj
  have hpresent :
      e.dataBlocks ≤ present (fillBufs p.slots.length (blockCalls e data j p.slots)) := by
    rw [hcount]
    exact le_min le_rfl hcan
  have hdec : p.canDecode (fillBufs p.slots.length (blockCalls e data j p.slots)) = true := by
    rw [ParallelReader.canDecode, h.dataBlocks]
    exact decide_eq_true hpresent
  refine ⟨_, _, (h.atBlock.read_eq ρ hj).trans (if_pos hdec), hpart, hpresent, rfl, rfl,
    fun hnext => ?_⟩
  have hat := h.atBlock.next hnext (afterCalls (blockCalls e data j p.slots))
    (dropFailed p.orgReaders (blockCalls e data j p.slots))
  exact ⟨hat.offset, hat.shardSize, hat.shardFileSize, hat.dataBlocks, h.slots.afterCalls⟩

lemma StandsAt.read_short (h : StandsAt e data j p) (hj : j * e.blockSize < data.length)
    (hshort : readable e data j p.slots < e.dataBlocks) :
    ∃ p' err, p.read ρ = (p', [], err) := by
  obtain ⟨-, hcount⟩ := h.slots.fillBufs_calls e.dataBlocks hj
  have hdec : ¬ p.canDecode (fillBufs p.slots.length (blockCalls e data j p.slots)) = true := by
    rw [ParallelReader.canDecode, h.dataBlocks, decide_eq_true_iff]
    rw [blockCalls]
    unfold readable at hshort
    omega
  exact ⟨_, _, (h.atBlock.read_eq ρ hj).trans (if_neg hdec)⟩

end Read

end Obstor.Coding
