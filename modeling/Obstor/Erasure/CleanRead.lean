import Obstor.Erasure.RoundTrip

/-!
# When `Decode` reports nothing to heal

`Decode` delivers a range and still returns an error if a reader it called has failed. It calls the
first `D` readers, and others only after a failure; so it returns no error exactly when the first
`D` readers give the shard of every block of the range (`decode_of_clean`, `clean_of_decode`).
Not for every mask does `preferReaders` keep the readers with their buffers.

`preferReaders_mapped_iff` says for which it does: a preferred reader has to stay, or to move to a
slot that no preferred reader had. `Settled` describes each slot before round `i` of the loop, and
`settled_preferStep` is its step lemma.
-/

namespace Obstor.Coding

open Go Lib List

/-! ### `preferReaders` -/

/-- The slots in the order of the shards. -/
def shardSlots (readers : List (Option Reader)) : List ReadSlot :=
  readers.mapIdx fun i r => ⟨r, i, none⟩

/-- `Prefer` marks all readers that are there, or none. -/
def UniformPrefer (readers : List (Option Reader)) (prefer : List Bool) : Prop :=
  (∀ (i : ℕ) (r : Reader), readers[i]? = some (some r) → prefer[i]? = some true) ∨
    ∀ ok ∈ prefer, ok = false

/-- `readerToBuf` is a permutation, and every reader reads into its own buffer. -/
def ParallelReader.Mapped (p : ParallelReader) : Prop :=
  (p.slots.map ReadSlot.buf).Perm (range p.orgReaders.length) ∧
    ∀ s ∈ p.slots, p.orgReaders[s.buf]? = some s.reader

/-- The reader is there, and it is preferred. -/
def Preferred (readers : List (Option Reader)) (prefer : List Bool) (i : ℕ) : Prop :=
  prefer.getD i false = true ∧ (readers.getD i none).isNone = false
  deriving Decidable

section Mapping

variable (p : ℕ → Prop) [DecidablePred p] (readers : List (Option Reader))

/-- A preferred reader moves to the slot with the number of the preferred ones before it. It stays,
or it moves to a slot that no preferred reader had. -/
def Unchained (i : ℕ) : Prop := p i → Nat.count p i = i ∨ ¬ p (Nat.count p i)
  deriving Decidable

/-- Slot `k` before round `i` of the loop: a preferred reader has moved in, or its preferred reader
has moved out, or it is untouched. -/
def Settled (i k : ℕ) (s : ReadSlot) : Prop :=
  s.err = none ∧ if k < Nat.count p i then
    p s.buf ∧ Nat.count p s.buf = k ∧ readers[s.buf]? = some s.reader
  else if p k ∧ k < i then
    s.buf = Nat.count p k ∧ ∃ j, ¬ p j ∧ readers[j]? = some s.reader ∧ (p s.buf ∨ j = s.buf)
  else s.buf = k ∧ readers[k]? = some s.reader

variable {p readers} {i : ℕ} {slots : List ReadSlot}

/-- One round of the loop of `preferReaders`. -/
lemma settled_preferStep {prefer : List Bool} {ok : Bool} (hok : prefer[i]? = some ok)
    (hp : ∀ k, p k ↔ Preferred readers prefer k) (hlen : slots.length = readers.length)
    (h : ∀ k s, slots[k]? = some s → Settled p readers i k s) :
    ∃ slots', preferStep (slots, Nat.count p i) i ok = (slots', Nat.count p (i + 1)) ∧
      slots'.length = readers.length ∧
      ∀ k s, slots'[k]? = some s → Settled p readers (i + 1) k s := by
  have hle := Nat.count_le p (n := i)
  have hsucc := Nat.count_succ p i
  have hreader : readerAt slots i = readers.getD i none := by grind [readerAt, Settled]
  have hskip : (!ok || (readerAt slots i).isNone) = !decide (p i) := by
    grind [hp i, Preferred]
  simp only [preferStep, hskip, hsucc]
  by_cases hpi : p i
  · simp only [hpi, decide_true, Bool.not_true, Bool.false_eq_true, if_false, if_true]
    split
    case isTrue =>
      refine ⟨slots, rfl, hlen, fun k s hs => ?_⟩
      grind [Settled]
    case isFalse =>
      refine ⟨_, rfl, by simpa using hlen, fun k s hs => ?_⟩
      rw [getElem?_modify] at hs
      grind [Settled, readerAt]
  · simp only [hpi, decide_false, Bool.not_false, if_true, if_false, add_zero]
    refine ⟨slots, rfl, hlen, fun k s hs => ?_⟩
    grind [Settled]

lemma settled_foldl {prefer l : List Bool} (hl : prefer.drop i = l)
    (hp : ∀ k, p k ↔ Preferred readers prefer k) (hlen : slots.length = readers.length)
    (h : ∀ k s, slots[k]? = some s → Settled p readers i k s) :
    let st := (l.zipIdx i).foldl (fun st ok => preferStep st ok.2 ok.1) (slots, Nat.count p i)
    st.1.length = readers.length ∧
      ∀ k s, st.1[k]? = some s → Settled p readers (i + l.length) k s := by
  induction l generalizing i slots with
  | nil => exact ⟨hlen, h⟩
  | cons ok l ih =>
    have hok : prefer[i]? = some ok := by rw [← head?_drop, hl, head?_cons]
    obtain ⟨slots', hstep, hlen', h'⟩ := settled_preferStep hok hp hlen h
    rw [zipIdx_cons, foldl_cons, hstep, length_cons, add_comm l.length, ← add_assoc]
    exact ih (by rw [← tail_drop, hl, tail_cons]) hlen' h'

/-- The first reader that moves into the slot of another one takes its buffer away. -/
lemma unchained_of_mem (h : ∀ k s, slots[k]? = some s → Settled p readers readers.length k s)
    (hmem : ∀ v < readers.length, ∃ s ∈ slots, s.buf = v) (hi : i < readers.length) :
    Unchained p i := by
  induction i using Nat.strong_induction_on with
  | _ i ih =>
    intro hpi
    by_contra! hchain
    obtain ⟨hmove, hm⟩ := hchain
    have hmi := lt_of_le_of_ne (Nat.count_le p) hmove
    have hmlt := Nat.count_strict_mono hm hmi
    have hc := Nat.count_strict_mono hpi hi
    rcases ih _ hmi (hmi.trans hi) hm with heq | hv
    · omega
    obtain ⟨s, hs, hbuf⟩ := hmem _ (hmlt.trans (hmi.trans hi))
    obtain ⟨k, hk⟩ := mem_iff_getElem?.mp hs
    have hinj := Nat.count_injective (p := p) (m := k) (n := Nat.count p i)
    grind [Settled]

section

variable (hlen : slots.length = readers.length)
  (h : ∀ k s, slots[k]? = some s → Settled p readers readers.length k s)

include hlen h

lemma mem_of_unchained (hun : ∀ i < readers.length, Unchained p i) :
    (∀ s ∈ slots, readers[s.buf]? = some s.reader) ∧
      ∀ v < readers.length, ∃ s ∈ slots, s.buf = v := by
  have hfront : ∀ k < readers.length, p k → Nat.count p k < Nat.count p readers.length :=
    fun k hk hpk => Nat.count_strict_mono hpk hk
  refine ⟨fun s hs => ?_, fun v hv => ?_⟩
  · obtain ⟨k, hk⟩ := mem_iff_getElem?.mp hs
    grind [Settled, Unchained]
  · have hat : ∀ k < readers.length, ∃ s ∈ slots, Settled p readers readers.length k s :=
      fun k hk => ⟨slots[k], getElem_mem _, h k _ (getElem?_eq_getElem _)⟩
    by_cases hpv : p v
    · obtain ⟨s, hs, hsettled⟩ := hat _ ((Nat.count_le p).trans_lt hv)
      rw [Settled, if_pos (hfront v hv hpv)] at hsettled
      exact ⟨s, hs, Nat.count_injective hsettled.2.1 hpv hsettled.2.2.1⟩
    obtain ⟨s, hs, hsettled⟩ := hat v hv
    by_cases hvc : v < Nat.count p readers.length
    · -- the reader that moved to `v` left its slot to the reader of `v`
      rw [Settled, if_pos hvc] at hsettled
      have hkn : s.buf < readers.length := (List.getElem?_eq_some_iff.mp hsettled.2.2.2).1
      obtain ⟨t, ht, hsettled'⟩ := hat s.buf hkn
      refine ⟨t, ht, ?_⟩
      grind [Settled, Unchained]
    · rw [Settled, if_neg hvc, if_neg (by simp [hpv])] at hsettled
      exact ⟨s, hs, hsettled.2.1⟩

/-- If all readers are preferred or none, those that are there are in the order of the shards. -/
lemma available_settled (hp : (∀ i r, readers[i]? = some (some r) → p i) ∨ ∀ i, ¬ p i) :
    (available slots).Pairwise (fun s t => s.buf < t.buf) ∧ ∀ s, s ∈ available slots ↔
      s.err = none ∧ readers[s.buf]? = some s.reader ∧ s.reader.isSome := by
  -- `f` says where the reader of a shard is
  obtain ⟨f, hf, hat, hmem⟩ : ∃ f : ℕ → ℕ, Monotone f ∧
      (∀ k s r, slots[k]? = some s → s.reader = some r →
        s.err = none ∧ readers[s.buf]? = some s.reader ∧ f s.buf = k) ∧
      ∀ j r, readers[j]? = some (some r) → slots[f j]? = some ⟨some r, j, none⟩ := by
    have hget : ∀ k < readers.length, ∃ s, slots[k]? = some s := fun k hk =>
      ⟨slots[k], getElem?_eq_getElem _⟩
    rcases hp with hp | hp
    · refine ⟨Nat.count p, Nat.count_monotone p, fun k s r hs hr => ?_, fun j r hj => ?_⟩
      · grind [Settled]
      · have hjn := (List.getElem?_eq_some_iff.mp hj).1
        obtain ⟨⟨reader, buf, err⟩, hs⟩ := hget _ ((Nat.count_le p).trans_lt hjn)
        have hlt := Nat.count_strict_mono (hp j r hj) hjn
        have hinj := Nat.count_injective (p := p) (m := buf) (n := j)
        grind [Settled]
    · refine ⟨id, monotone_id, fun k s r hs hr => ?_, fun j r hj => ?_⟩
      · grind [Settled]
      · obtain ⟨⟨reader, buf, err⟩, hs⟩ := hget j (List.getElem?_eq_some_iff.mp hj).1
        grind [Settled]
  refine ⟨pairwise_filter.mpr (pairwise_iff_getElem.mpr fun i j hi hj hij hri hrj => ?_),
    fun s => ?_⟩
  · obtain ⟨r, hr⟩ := Option.isSome_iff_exists.mp hri
    obtain ⟨r', hr'⟩ := Option.isSome_iff_exists.mp hrj
    have hi := (hat i _ r (getElem?_eq_getElem hi) hr).2.2
    have hj := (hat j _ r' (getElem?_eq_getElem hj) hr').2.2
    exact hf.reflect_lt (hi.trans_lt (hij.trans_eq hj.symm))
  · rw [available, mem_filter]
    constructor
    · rintro ⟨hs, hr⟩
      obtain ⟨k, hk⟩ := mem_iff_getElem?.mp hs
      obtain ⟨r, hr'⟩ := Option.isSome_iff_exists.mp hr
      obtain ⟨herr, hget, -⟩ := hat k s r hk hr'
      exact ⟨herr, hget, hr⟩
    · rintro ⟨herr, hs, hr⟩
      refine ⟨?_, hr⟩
      obtain ⟨r, hr⟩ := Option.isSome_iff_exists.mp hr
      obtain ⟨reader, buf, err⟩ := s
      cases herr
      cases hr
      exact mem_of_getElem? (hmem buf r hs)

end

end Mapping

variable {readers : List (Option Reader)} {prefer : List Bool}

lemma settled_shardSlots (readers : List (Option Reader)) (p : ℕ → Prop) [DecidablePred p]
    (k : ℕ) (s : ReadSlot) (hs : (shardSlots readers)[k]? = some s) : Settled p readers 0 k s := by
  rw [shardSlots] at hs
  grind [Settled]

lemma settled_startSlots (hlen : prefer.length = readers.length) :
    (startSlots readers prefer).length = readers.length ∧ ∀ k s,
      (startSlots readers prefer)[k]? = some s →
        Settled (Preferred readers prefer) readers readers.length k s := by
  have h := settled_foldl (p := Preferred readers prefer) drop_zero (fun _ => Iff.rfl)
    length_mapIdx (settled_shardSlots readers _)
  rw [zero_add, hlen] at h
  rw [startSlots, if_pos hlen]
  exact h

lemma available_startSlots (h : UniformPrefer readers prefer) :
    available (startSlots readers prefer) = available (shardSlots readers) ∧
      (startSlots readers prefer).length = readers.length := by
  by_cases hlen : prefer.length = readers.length
  · obtain ⟨hslots, hsettled⟩ := settled_startSlots hlen
    obtain ⟨hpair, hmem⟩ := available_settled hslots hsettled (by
      refine h.imp (fun hall i r hr => ?_) fun hnone i => ?_
      · grind [Preferred]
      · have := hnone true
        grind [Preferred])
    have hshard : (shardSlots readers).length = readers.length := length_mapIdx
    obtain ⟨hpair', hmem'⟩ := available_settled hshard (fun k s hs => by
      simpa [Settled] using settled_shardSlots readers (fun _ => False) k s hs) (.inr fun _ => id)
    refine ⟨Perm.eq_of_pairwise (fun _ _ _ _ hst hts => absurd hst hts.asymm) hpair hpair' ?_,
      hslots⟩
    refine (perm_ext_iff_of_nodup (hpair.imp ?_) (hpair'.imp ?_)).mpr fun s =>
      (hmem s).trans (hmem' s).symm
    · rintro s t hst rfl
      exact lt_irrefl _ hst
    · rintro s t hst rfl
      exact lt_irrefl _ hst
  · rw [startSlots, if_neg hlen]
    exact ⟨rfl, length_mapIdx⟩

/-- The mapping is kept exactly if no preferred reader moves into a slot that another one had. -/
theorem preferReaders_mapped_iff (readers : List (Option Reader)) (prefer : List Bool) (e : Erasure)
    (offset totalLength : ℕ) (hlen : prefer.length = readers.length) :
    ((newParallelReader readers e offset totalLength).preferReaders prefer).Mapped ↔
      ∀ i < readers.length, Unchained (Preferred readers prefer) i := by
  obtain ⟨hslots, hsettled⟩ := settled_startSlots hlen
  have hrun : (newParallelReader readers e offset totalLength).preferReaders prefer =
      { newParallelReader readers e offset totalLength with
        slots := startSlots readers prefer } := by
    rw [startSlots, if_pos hlen]
    exact if_neg (not_not_intro hlen)
  rw [hrun]
  refine ⟨fun hmapped i => unchained_of_mem hsettled fun v hv => ?_, fun hun => ?_⟩
  · exact mem_map.mp (hmapped.1.mem_iff.mpr (mem_range.mpr hv))
  · obtain ⟨hreaders, hmem⟩ := mem_of_unchained hslots hsettled hun
    refine ⟨(Subperm.perm_of_length_le (nodup_range.subperm fun v hv => ?_) ?_).symm, hreaders⟩
    · exact mem_map.mpr (hmem v (mem_range.mp hv))
    · rw [length_map, length_range]
      exact hslots.le

/-- The last of four readers is preferred and takes the place of the nil reader at the front. -/
theorem preferReaders_mapped_iff_last :
    ((newParallelReader (none :: replicate 3 (some fun _ _ => .ok [])) (twoOfFour 1 Nat.one_pos) 0
      0).preferReaders [false, false, false, true]).Mapped :=
  (preferReaders_mapped_iff _ _ _ _ _ rfl).mpr (by decide)

/-- With the second and the third of four readers preferred, reader 0 reads into buffer 1. -/
theorem preferReaders_four :
    let p := (newParallelReader ([0, 1, 2, 3].map fun b => some fun _ _ => .ok [b])
      (twoOfFour 1 Nat.one_pos) 0 0).preferReaders [false, true, true, false]
    p.slots.map (fun s => (s.reader.map fun r => r 0 1, s.buf)) =
      [(some (.ok [1]), 1), (some (.ok [2]), 2), (some (.ok [0]), 1), (some (.ok [3]), 3)] ∧
      ¬ p.Mapped := by
  refine ⟨rfl, fun h => ?_⟩
  have hnodup := h.1.nodup_iff.mpr nodup_range
  revert hnodup
  decide

/-! ### Calls without a failure -/

section NoFail

variable {offset size need : ℕ} {slots : List ReadSlot}

lemma outcome_eq_skipped_of_zero {o : Outcome} (h : o ∈ readSlots offset size 0 slots) :
    o = .skipped := by
  induction slots with
  | nil => cases h
  | cons s slots ih =>
    rcases mem_cons.mp h with rfl | h
    · rfl
    · exact ih h

lemma forall_not_failed_iff : (∀ o ∈ readSlots offset size need slots, ∀ err, o ≠ .failed err) ↔
      ∀ s ∈ (available slots).take need, (s.outcome offset size).isGot := by
  induction slots generalizing need with
  | nil => simp [readSlots, available]
  | cons s slots ih =>
    cases need with
    | zero =>
      refine iff_of_true (fun o ho err => ?_) (by simp)
      rw [outcome_eq_skipped_of_zero ho]
      simp
    | succ need =>
      rw [readSlots, forall_mem_cons]
      rcases hs : s.reader with _ | r
      · rw [outcome_of_reader_none hs, available_cons_of_none hs]
        simpa using ih
      · rw [available_cons_of_some hs, take_succ_cons, forall_mem_cons]
        rcases ho : s.outcome offset size with _ | err | bytes
        · unfold ReadSlot.outcome at ho
          rw [hs] at ho
          cases hr : r offset size <;> simp [hr] at ho
        · simp
        · simpa [Outcome.isGot] using ih

variable (hno : ∀ o ∈ readSlots offset size need slots, ∀ err, o ≠ .failed err)

include hno in
lemma not_failed_of_mem_calls {c : ReadSlot × Outcome} (hc : c ∈ calls offset size need slots)
    (err : Err) : c.2 ≠ .failed err :=
  hno c.2 (of_mem_zip hc).2 err

include hno in
lemma afterCalls_of_not_failed : afterCalls (calls offset size need slots) = slots := by
  have hfst : (calls offset size need slots).map Prod.fst = slots := map_fst_calls
  conv_rhs => rw [← hfst]
  refine map_congr_left fun c hc => ?_
  have hnot := not_failed_of_mem_calls hno hc
  cases ho : c.2 with
  | failed err => exact absurd ho (hnot err)
  | skipped => rfl
  | got bytes => rfl

include hno in
lemma dropFailed_of_not_failed (readers : List (Option Reader)) :
    dropFailed readers (calls offset size need slots) = readers := by
  have hnot : ∀ c ∈ calls offset size need slots, ∀ err, c.2 ≠ .failed err :=
    fun c hc => not_failed_of_mem_calls hno hc
  generalize calls offset size need slots = cs at hnot
  induction cs with
  | nil => rfl
  | cons c cs ih =>
    obtain ⟨s, o⟩ := c
    have hrest := ih fun c' hc' => hnot c' (mem_cons_of_mem _ hc')
    cases o with
    | failed err => exact absurd rfl (hnot _ mem_cons_self err)
    | skipped => exact hrest
    | got bytes => exact hrest

end NoFail

/-- On the first `limit` bytes the readers of the slots fail with a missing or a corrupt file
only. -/
def FailsToHeal (limit : ℕ) (slots : List ReadSlot) : Prop :=
  ∀ s ∈ slots, ∀ r, s.reader = some r → ∀ o n err, o + n ≤ limit → r o n = .error err →
    err = .fileNotFound ∨ err = .fileCorrupt

section HealErr

variable {offset size need limit : ℕ} {slots : List ReadSlot}

lemma healErr_of_not_failed (hno : ∀ o ∈ readSlots offset size need slots, ∀ err, o ≠ .failed err) :
    healErr (readSlots offset size need slots) = none := by
  have hany : ∀ f : Outcome → Bool, f .skipped = false → (∀ bytes, f (.got bytes) = false) →
      (readSlots offset size need slots).any f = false := by
    intro f hskip hgot
    refine any_eq_false.mpr fun o ho => ?_
    cases o with
    | failed err => exact absurd rfl (hno _ ho err)
    | skipped => simp [hskip]
    | got bytes => simp [hgot]
  unfold healErr
  rw [hany _ rfl fun _ => rfl, hany _ rfl fun _ => rfl]
  rfl

lemma not_failed_of_healErr (h : FailsToHeal limit slots) (hle : offset + size ≤ limit)
    (hnone : healErr (readSlots offset size need slots) = none) :
    ∀ o ∈ readSlots offset size need slots, ∀ err, o ≠ .failed err := by
  intro o ho err hfail
  have herr : err = .fileNotFound ∨ err = .fileCorrupt := by
    rw [← map_snd_calls] at ho
    obtain ⟨c, hc, rfl⟩ := mem_map.mp ho
    obtain ⟨hmem, hskip | hout⟩ := mem_calls hc
    · rw [hskip] at hfail
      cases hfail
    · obtain ⟨r, hr, herr⟩ := outcome_eq_failed (hout.symm.trans hfail)
      exact h c.1 hmem r hr _ _ _ hle herr
  unfold healErr at hnone
  split_ifs at hnone with hmiss hrot
  rcases herr with rfl | rfl
  · exact hmiss (any_eq_true.mpr ⟨o, ho, by rw [hfail]; rfl⟩)
  · exact hrot (any_eq_true.mpr ⟨o, ho, by rw [hfail]; rfl⟩)

end HealErr

/-! ### `Decode` -/

lemma SlotsOk.of_available {e : Erasure} {data : Bytes} {slots slots' : List ReadSlot}
    (h : SlotsOk e data slots) (havail : available slots' = available slots)
    (hlen : slots'.length = slots.length) : SlotsOk e data slots' := by
  refine ⟨hlen.trans h.length, fun s hs r hr => ?_, by rw [havail]; exact h.nodup⟩
  have hmem : s ∈ available slots' := mem_filter.mpr ⟨hs, by rw [hr]; rfl⟩
  rw [havail] at hmem
  exact h.reads s (mem_filter.mp hmem).1 r hr

lemma FailsToHeal.of_available {limit : ℕ} {slots slots' : List ReadSlot}
    (h : FailsToHeal limit slots) (havail : available slots' = available slots) :
    FailsToHeal limit slots' := by
  intro s hs r hr
  have hmem : s ∈ available slots' := mem_filter.mpr ⟨hs, by rw [hr]; rfl⟩
  rw [havail] at hmem
  exact h s (mem_filter.mp hmem).1 r hr

open Classical in
lemma steady_available (fileSize : ℕ) (slots : List ReadSlot) :
    steady fileSize (available slots) = steady fileSize slots := by
  unfold steady available
  rw [countP_filter]
  refine countP_congr fun s _ => ?_
  constructor
  · intro h
    exact (Bool.and_eq_true_iff.mp h).1
  · intro h
    obtain ⟨r, hr, -⟩ := of_decide_eq_true h
    exact Bool.and_eq_true_iff.mpr ⟨h, by rw [hr]; rfl⟩

/-- The first `D` readers give the shard of block `j`. -/
def BlockClean (e : Erasure) (data : Bytes) (slots : List ReadSlot) (j : ℕ) : Prop :=
  ∀ s ∈ (available slots).take e.dataBlocks,
    (s.outcome (j * e.shardSize) (e.blockShardSize data.length j)).isGot = true

/-- The first `D` readers give the shards of all blocks of a range. -/
def RangeClean (e : Erasure) (data : Bytes) (slots : List ReadSlot) (offset length : ℕ) : Prop :=
  0 < length → ∀ j, offset / e.blockSize ≤ j → j < stopBlock e offset length →
    BlockClean e data slots j

section Decode

variable {e : Erasure} {data : Bytes} {offset length limit : ℕ} (ρ : RangeOrder)
  {readers : List (Option Reader)} {prefer : List Bool} {writer : Sink}

lemma decode_of_clean (hroom : writer.room = none) (hrange : offset + length ≤ data.length)
    (hlen : 0 < length) (hslots : SlotsOk e data (startSlots readers prefer))
    (hlimit : EndsBefore e data offset length limit)
    (hintact : e.dataBlocks ≤ steady limit (startSlots readers prefer))
    (hclean : RangeClean e data (startSlots readers prefer) offset length) :
    (e.decode ρ writer readers offset length data.length prefer).err = none ∧
      (e.decode ρ writer readers offset length data.length prefer).readers = readers := by
  have hrule := decode_rule ρ
    (fun j slots rs derr => offset / e.blockSize ≤ j ∧ slots = startSlots readers prefer ∧
      rs = readers ∧ derr = none)
    writer hrange hlen hslots ⟨le_rfl, rfl, rfl, rfl⟩
    (by
      rintro j slots rs derr hj ⟨hstart, rfl, rfl, rfl⟩ -
      have hno := forall_not_failed_iff.mpr (hclean hlen j hstart hj)
      exact ⟨by omega, afterCalls_of_not_failed hno, dropFailed_of_not_failed hno _,
        healErr_of_not_failed hno⟩)
  rcases hrule with ⟨-, -, -, -, -, -, hrs, herr⟩ | ⟨-, hshort⟩
  · exact ⟨herr, hrs⟩
  · obtain ⟨k, slots, rs, derr, hk, ⟨-, rfl, -⟩, hfew⟩ := hshort hroom
    have := steady_le_readable (startSlots readers prefer) (hlimit k hk)
    omega

lemma clean_of_decode (hrange : offset + length ≤ data.length)
    (hslots : SlotsOk e data (startSlots readers prefer))
    (hlimit : EndsBefore e data offset length limit)
    (hheal : FailsToHeal limit (startSlots readers prefer))
    (herr : (e.decode ρ writer readers offset length data.length prefer).err = none) :
    RangeClean e data (startSlots readers prefer) offset length := by
  intro hlen
  have hrule := decode_rule ρ
    (fun j slots _ derr => derr = none → slots = startSlots readers prefer ∧
      ∀ k, offset / e.blockSize ≤ k → k < j → BlockClean e data (startSlots readers prefer) k)
    writer hrange hlen hslots (fun _ => ⟨rfl, fun k h₁ h₂ => absurd h₂ (by omega)⟩)
    (by
      intro j slots _ derr hj hinv _ hnone
      obtain ⟨hderr, hblock⟩ := Option.or_eq_none_iff.mp hnone
      obtain ⟨rfl, hclean⟩ := hinv hderr
      have hno := not_failed_of_healErr hheal (hlimit j hj) hblock
      refine ⟨afterCalls_of_not_failed hno, fun k hk₁ hk₂ => ?_⟩
      rcases Nat.lt_succ_iff_lt_or_eq.mp hk₂ with hlt | rfl
      · exact hclean k hk₁ hlt
      · exact forall_not_failed_iff.mp hno)
  rcases hrule with ⟨-, -, -, slots, hinv⟩ | ⟨hne, -⟩
  · exact (hinv herr).2
  · exact absurd herr hne

end Decode

/-! ### The readers of a part -/

open Classical in
/-- The readers of the shards of a part: each gives bytes of its shard file or fails, on the first
`limit` bytes with a missing or corrupt file, and there at least `D` do not fail. -/
structure PartReadable (e : Erasure) (part : Bytes) (limit : ℕ) (readers : List (Option Reader)) :
    Prop where
  length : readers.length = e.shards
  reads : ∀ (k : ℕ) (r : Reader), readers[k]? = some (some r) → ReadsShard e part k r
  heals : ∀ r, some r ∈ readers → ∀ o n err, o + n ≤ limit → r o n = .error err →
    err = .fileNotFound ∨ err = .fileCorrupt
  intact : e.dataBlocks ≤ readers.countP (SteadyReader limit)

section PartReadable

variable {e : Erasure} {part : Bytes} {limit : ℕ} {readers : List (Option Reader)}
  {prefer : List Bool}

lemma map_reader_shardSlots (readers : List (Option Reader)) :
    (shardSlots readers).map ReadSlot.reader = readers := by
  apply ext_getElem
  · simp [shardSlots]
  · intro i h₁ h₂
    simp [shardSlots]

open Classical in
lemma steady_shardSlots (limit : ℕ) (readers : List (Option Reader)) :
    steady limit (shardSlots readers) = readers.countP (SteadyReader limit) := by
  conv_rhs => rw [← map_reader_shardSlots readers, countP_map]
  rfl

lemma PartReadable.failsToHeal (h : PartReadable e part limit readers) :
    FailsToHeal limit (shardSlots readers) := by
  intro s hs r hr
  apply h.heals
  rw [← map_reader_shardSlots readers, ← hr]
  exact mem_map_of_mem hs

lemma RangeClean.of_available {slots slots' : List ReadSlot} {offset length : ℕ}
    (h : RangeClean e part slots offset length) (havail : available slots' = available slots) :
    RangeClean e part slots' offset length := by
  intro hlen j h₁ h₂
  unfold BlockClean
  rw [havail]
  exact h hlen j h₁ h₂

lemma PartReadable.decode (h : PartReadable e part limit readers) (ρ : RangeOrder)
    (hprefer : UniformPrefer readers prefer) {offset length : ℕ}
    (hrange : offset + length ≤ part.length) (hlimit : EndsBefore e part offset length limit)
    {writer : Sink} (hroom : writer.room = none) :
    let r := e.decode ρ writer readers offset length part.length prefer
    (r.err = none ↔ RangeClean e part (shardSlots readers) offset length) ∧
      (r.err = none → r.readers = readers ∧ r.sink.room = none ∧
        r.sink.out = writer.out ++ slice offset length part) := by
  intro r
  obtain ⟨havail, hlength⟩ := available_startSlots hprefer
  have hlen' : (startSlots readers prefer).length = (shardSlots readers).length := by
    rw [hlength, shardSlots, length_mapIdx]
  have hslots : SlotsOk e part (startSlots readers prefer) :=
    (slotsOk_of_readers h.length h.reads).of_available havail hlen'
  have hheal := h.failsToHeal.of_available havail
  have hintact : e.dataBlocks ≤ steady limit (startSlots readers prefer) := by
    rw [← steady_available, havail, steady_available, steady_shardSlots]
    exact h.intact
  rcases Nat.eq_zero_or_pos length with rfl | hpos
  · have hzero : r = ⟨writer, readers, 0, none⟩ := by
      show Erasure.decode _ _ _ _ _ _ _ _ = _
      rw [Erasure.decode, if_neg (by omega), if_neg (by omega), if_pos (by rfl)]
    rw [hzero]
    refine ⟨⟨fun _ hpos => absurd hpos (lt_irrefl _), fun _ => rfl⟩, fun _ => ⟨rfl, hroom, ?_⟩⟩
    simp
  have hiff : r.err = none ↔ RangeClean e part (shardSlots readers) offset length := by
    constructor
    · intro herr
      exact (clean_of_decode ρ hrange hslots hlimit hheal herr).of_available havail.symm
    · intro hclean
      exact (decode_of_clean ρ hroom hrange hpos hslots hlimit hintact
        (hclean.of_available havail)).1
  refine ⟨hiff, fun herr => ?_⟩
  have hclean := (hiff.mp herr).of_available havail
  obtain ⟨-, hreaders⟩ := decode_of_clean ρ hroom hrange hpos hslots hlimit hintact hclean
  rcases decode_spec ρ writer hrange hslots hlimit with ⟨-, hout, hkeep, -⟩ | ⟨-, hshort⟩
  · exact ⟨hreaders, hkeep hroom, hout⟩
  · exact absurd hintact (not_le.mpr (hshort hroom))

end PartReadable

end Obstor.Coding
