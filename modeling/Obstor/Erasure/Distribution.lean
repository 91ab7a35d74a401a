import Obstor.Erasure.GetObject

/-!
# The order of the shards

`Distribution` lists, for each disk of a set, the number of the shard it holds. If it is an order of
the disks (`IsOrder`), both ways to shuffle put a disk that they take at the shard that
`Distribution` sends it to (`shuffleDisksAndPartsMetadataByIndex_eq`). If also every valid record
agrees with it, both give the same result (`Agrees.shuffle_eq`): shard `k` comes from the disk that
`Distribution` sends to it, if that is online and has a valid record.
-/

namespace Obstor.Coding

open Go Lib Meta List Function

/-- The number of the disk of shard `k`. -/
def diskOf (distribution : List ℤ) (k : ℕ) : ℕ := distribution.idxOf ((k : ℤ) + 1)

/-- The disk of shard `k` and its record, if it is online and the record is valid. -/
def shardDisk (disks : List (Option Disk)) (metaArr : List FileInfo) (distribution : List ℤ)
    (k : ℕ) : Option (Disk × FileInfo) :=
  match disks[diskOf distribution k]?, metaArr[diskOf distribution k]? with
  | some (some d), some m => if m.isValid then some (d, m) else none
  | _, _ => none

/-- Disks and records by shard. -/
def arranged (n : ℕ) (f : ℕ → Option (Disk × FileInfo)) : Shuffled :=
  ⟨(List.range n).map fun k => (f k).map Prod.fst,
    (List.range n).map fun k => ((f k).map Prod.snd).getD {}⟩

lemma arranged_none (n : ℕ) : arranged n (fun _ => none) = ⟨replicate n none, replicate n {}⟩ := by
  simp [arranged]

section Arranged

variable {n : ℕ} {f : ℕ → Option (Disk × FileInfo)} {k : ℕ}

lemma length_arranged_disks : (arranged n f).disks.length = n := by
  simp [arranged]

lemma arranged_metas (hk : k < n) :
    (arranged n f).metas[k]? = some (((f k).map Prod.snd).getD {}) := by
  simp [arranged, hk]

lemma arranged_getElem (hk : k < n) : (arranged n f).disks[k]? = some ((f k).map Prod.fst) ∧
      (arranged n f).metas.getD k {} = ((f k).map Prod.snd).getD {} := by
  constructor
  · simp [arranged, hk]
  · rw [getD_eq_getElem?_getD, arranged_metas hk]
    rfl

end Arranged

lemma map_range_set {α : Type} (n k : ℕ) (f : ℕ → α) (a : α) :
    ((List.range n).map f).set k a = (List.range n).map (Function.update f k a) := by
  apply ext_getElem
  · simp
  · intro i h₁ h₂
    rw [getElem_set]
    by_cases hik : k = i
    · subst hik
      simp
    · rw [if_neg hik]
      simp [update_of_ne (Ne.symm hik)]

lemma arranged_place {n k : ℕ} (f : ℕ → Option (Disk × FileInfo)) (d : Disk) (m : FileInfo)
    (hk : k < n) :
    (arranged n f).place ((k : ℤ) + 1) d m =
      .ok (arranged n (Function.update f k (some (d, m)))) := by
  have hlen : (arranged n f).disks.length = n := by simp [arranged]
  have hlen' : (arranged n f).metas.length = n := by simp [arranged]
  unfold Shuffled.place
  rw [if_pos (by omega)]
  simp only [arranged, map_range_set]
  congr 3
  · funext i
    by_cases hik : i = k
    · subst hik
      simp
    · simp [update_of_ne hik]
  · funext i
    by_cases hik : i = k
    · subst hik
      simp
    · simp [update_of_ne hik]

lemma getElem?_of_drop_eq_cons {α : Type} {l rest : List α} {i : ℕ} {a : α}
    (h : l.drop i = a :: rest) : l[i]? = some a ∧ l.drop (i + 1) = rest := by
  constructor
  · rw [← head?_drop, h]
    rfl
  · rw [← drop_drop, h]
    rfl

/-! ### A distribution as an order of the disks -/

/-- The distribution sends the disks to the shards `1` to `n`, each to another. -/
def IsOrder (n : ℕ) (distribution : List ℤ) : Prop :=
  distribution.Perm ((List.range n).map fun k : ℕ => (k : ℤ) + 1)

namespace IsOrder

variable {n : ℕ} {distribution : List ℤ} (h : IsOrder n distribution)

include h

lemma nodup : distribution.Nodup := by
  refine h.nodup_iff.mpr (Nodup.map ?_ nodup_range)
  intro a b hab
  simpa using hab

lemma length_eq : distribution.length = n := by
  rw [List.Perm.length_eq h, length_map, length_range]

lemma shard_of_disk {i : ℕ} {k : ℤ} (hk : distribution[i]? = some k) :
    ∃ j < n, k = (j : ℤ) + 1 ∧ diskOf distribution j = i := by
  have hmem := h.mem_iff.mp (mem_of_getElem? hk)
  obtain ⟨j, hj, rfl⟩ := mem_map.mp hmem
  refine ⟨j, mem_range.mp hj, rfl, ?_⟩
  obtain ⟨hi, hget⟩ := List.getElem?_eq_some_iff.mp hk
  rw [diskOf, ← hget]
  exact h.nodup.idxOf_getElem i hi

lemma diskOf_spec {k : ℕ} (hk : k < n) :
    diskOf distribution k < n ∧ distribution[diskOf distribution k]? = some ((k : ℤ) + 1) := by
  have hmem : (k : ℤ) + 1 ∈ distribution := h.mem_iff.mpr (mem_map.mpr ⟨k, mem_range.mpr hk, rfl⟩)
  have hlt := idxOf_lt_length_iff.mpr hmem
  exact ⟨h.length_eq ▸ hlt, List.getElem?_eq_some_iff.mpr ⟨hlt, getElem_idxOf hlt⟩⟩

end IsOrder

lemma eq_of_diskOf {distribution : List ℤ} {i j k : ℕ}
    (hk : distribution[i]? = some ((k : ℤ) + 1)) (hj : diskOf distribution j = i) : j = k := by
  have hlt : distribution.idxOf ((j : ℤ) + 1) < distribution.length := by
    rw [← diskOf, hj]
    exact (List.getElem?_eq_some_iff.mp hk).1
  have hget : distribution[i]? = some ((j : ℤ) + 1) := by
    rw [← hj, diskOf, getElem?_eq_getElem hlt, getElem_idxOf hlt]
  rw [hk, Option.some_inj] at hget
  omega

/-! ### The loops -/

/-- What a loop that takes `sel i` from disk `i` has placed when it comes to disk `i`. -/
def placed (sel : ℕ → Option (Disk × FileInfo)) (distribution : List ℤ) (i k : ℕ) :
    Option (Disk × FileInfo) :=
  if diskOf distribution k < i then sel (diskOf distribution k) else none

section Placed

variable {sel : ℕ → Option (Disk × FileInfo)} {distribution : List ℤ} {n i : ℕ}

lemma placed_skip (hsel : sel i = none) :
    placed sel distribution (i + 1) = placed sel distribution i := by
  funext k
  unfold placed
  by_cases hk : diskOf distribution k = i
  · rw [if_pos (by omega), if_neg (by omega), hk, hsel]
  · have : diskOf distribution k < i + 1 ↔ diskOf distribution k < i := by omega
    simp [this]

lemma placed_place (h : IsOrder n distribution) {k : ℤ} {d : Disk} {m : FileInfo}
    (hk : distribution[i]? = some k) (hsel : sel i = some (d, m)) :
    (arranged n (placed sel distribution i)).place k d m =
      .ok (arranged n (placed sel distribution (i + 1))) := by
  obtain ⟨j, hj, rfl, hdisk⟩ := h.shard_of_disk hk
  rw [arranged_place _ d m hj]
  congr 2
  funext l
  by_cases hlj : l = j
  · subst hlj
    rw [update_self, placed, if_pos (by omega), hdisk, hsel]
  · have hne : diskOf distribution l ≠ i := fun hli => hlj (eq_of_diskOf hk hli)
    rw [update_of_ne hlj]
    unfold placed
    have : diskOf distribution l < i + 1 ↔ diskOf distribution l < i := by omega
    simp [this]

lemma arranged_placed_zero :
    arranged n (placed sel distribution 0) = ⟨replicate n none, replicate n {}⟩ := by
  rw [← arranged_none]
  rfl

lemma arranged_placed_all (h : IsOrder n distribution) (hi : n ≤ i) :
    arranged n (placed sel distribution i) = arranged n fun k => sel (diskOf distribution k) := by
  have hk : ∀ k ∈ List.range n, placed sel distribution i k = sel (diskOf distribution k) := by
    intro k hk
    have := (h.diskOf_spec (mem_range.mp hk)).1
    exact if_pos (by omega)
  have hfst := map_congr_left fun k hk' => congrArg (Option.map Prod.fst) (hk k hk')
  have hsnd := map_congr_left fun k hk' =>
    congrArg (fun o => (Option.map Prod.snd o).getD {}) (hk k hk')
  unfold arranged
  rw [hfst, hsnd]

end Placed

section Shuffle

variable {disks : List (Option Disk)} {metaArr : List FileInfo} {fi : FileInfo}

/-- What is taken from disk `i` if it is online and its record passes `test`. -/
def takenAt (disks : List (Option Disk)) (metaArr : List FileInfo) (test : ℕ → FileInfo → Bool)
    (i : ℕ) : Option (Disk × FileInfo) :=
  match disks[i]?, metaArr[i]? with
  | some (some d), some m => if test i m then some (d, m) else none
  | _, _ => none

section Taken

variable {test : ℕ → FileInfo → Bool} {i : ℕ} {d : Disk} {m : FileInfo}

lemma takenAt_of_offline (hd : disks[i]? = some none) : takenAt disks metaArr test i = none := by
  unfold takenAt
  rw [hd]

lemma takenAt_of_online (hd : disks[i]? = some (some d)) (hm : metaArr[i]? = some m) :
    takenAt disks metaArr test i = if test i m then some (d, m) else none := by
  unfold takenAt
  rw [hd, hm]

lemma takenAt_eq_some : takenAt disks metaArr test i = some (d, m) ↔
      disks[i]? = some (some d) ∧ metaArr[i]? = some m ∧ test i m := by
  constructor
  · intro h
    unfold takenAt at h
    split at h
    · rename_i d' m' hd hm
      rw [Option.ite_none_right_eq_some] at h
      obtain ⟨htest, heq⟩ := h
      cases heq
      exact ⟨hd, hm, htest⟩
    · cases h
  · rintro ⟨hd, hm, htest⟩
    rw [takenAt_of_online hd hm, if_pos htest]

end Taken

/-- The test of `shuffleDisksAndPartsMetadata`. -/
def passes (fi : FileInfo) (_ : ℕ) (m : FileInfo) : Bool :=
  fi.modTime.isZero || (m.isValid && fi.data.length = m.data.length)

/-- The test of `shuffleDisksAndPartsMetadataByIndex`. -/
def passesByIndex (fi : FileInfo) (i : ℕ) (m : FileInfo) : Bool :=
  m.isValid && (fi.data.length = m.data.length) &&
    fi.erasure.distribution[i]? = some m.erasure.index

/-- The disks and records of a shuffle that takes what passes `test`. -/
def shuffledBy (disks : List (Option Disk)) (metaArr : List FileInfo) (fi : FileInfo)
    (test : ℕ → FileInfo → Bool) : Shuffled :=
  arranged disks.length fun k => takenAt disks metaArr test (diskOf fi.erasure.distribution k)

variable (h : IsOrder disks.length fi.erasure.distribution) (hlen : metaArr.length = disks.length)

include h hlen in
lemma distributionLoop_eq {i : ℕ} {rest : List FileInfo} (hrest : metaArr.drop i = rest) :
    distributionLoop disks fi i rest (arranged disks.length
        (placed (takenAt disks metaArr (passes fi)) fi.erasure.distribution i)) =
      .ok (shuffledBy disks metaArr fi (passes fi)) := by
  induction rest generalizing i with
  | nil =>
    have hi : metaArr.length ≤ i := drop_eq_nil_iff.mp hrest
    rw [arranged_placed_all h (hlen ▸ hi)]
    rfl
  | cons m rest ih =>
    obtain ⟨hm, hnext⟩ := getElem?_of_drop_eq_cons hrest
    have hi : i < disks.length := hlen ▸ (List.getElem?_eq_some_iff.mp hm).1
    rw [distributionLoop]
    rcases hd : disks[i]? with _ | _ | d
    · exact absurd (List.getElem?_eq_none_iff.mp hd) (not_le.mpr hi)
    · rw [← placed_skip (takenAt_of_offline hd)]
      exact ih hnext
    · have htaken : takenAt disks metaArr (passes fi) i = _ := takenAt_of_online hd hm
      have hk : fi.erasure.distribution[i]? = some _ := getElem?_eq_getElem (h.length_eq ▸ hi)
      by_cases hpass : passes fi i m
      · rw [if_pos hpass] at htaken
        simp only [passes, Bool.or_eq_true, Bool.and_eq_true, decide_eq_true_eq] at hpass
        have hinvalid : (!fi.modTime.isZero && !m.isValid) = false := by
          rcases hpass with hz | ⟨hv, -⟩
          · simp [hz]
          · simp [hv]
        have hdata : (!fi.modTime.isZero && decide (fi.data.length ≠ m.data.length)) = false := by
          rcases hpass with hz | ⟨-, hv⟩
          · simp [hz]
          · simp [hv]
        simp only [hinvalid, hdata, Bool.false_eq_true, if_false, hk, placed_place h hk htaken]
        exact ih hnext
      · rw [if_neg hpass] at htaken
        simp only [passes, Bool.or_eq_true, Bool.and_eq_true, decide_eq_true_eq, not_or,
          Bool.not_eq_true] at hpass
        have hrest := ih hnext
        rw [placed_skip htaken] at hrest
        simp only [hpass.1, Bool.not_false, Bool.true_and]
        by_cases hvalid : m.isValid
        · have hdata : fi.data.length ≠ m.data.length := fun heq => hpass.2 ⟨hvalid, heq⟩
          simpa [hdata] using hrest
        · simpa [hvalid] using hrest

include h hlen in
lemma byIndexLoop_eq {i : ℕ} {rest : List FileInfo}
    (hrest : metaArr.drop i = rest) (inconsistent : ℤ) :
    ∃ inconsistent', byIndexLoop disks fi i rest inconsistent (arranged disks.length
        (placed (takenAt disks metaArr (passesByIndex fi)) fi.erasure.distribution i)) =
      .ok (inconsistent', shuffledBy disks metaArr fi (passesByIndex fi)) := by
  induction rest generalizing i inconsistent with
  | nil =>
    have hi : metaArr.length ≤ i := drop_eq_nil_iff.mp hrest
    refine ⟨inconsistent, ?_⟩
    rw [arranged_placed_all h (hlen ▸ hi)]
    rfl
  | cons m rest ih =>
    obtain ⟨hm, hnext⟩ := getElem?_of_drop_eq_cons hrest
    have hi : i < disks.length := hlen ▸ (List.getElem?_eq_some_iff.mp hm).1
    rw [byIndexLoop]
    rcases hd : disks[i]? with _ | _ | d
    · exact absurd (List.getElem?_eq_none_iff.mp hd) (not_le.mpr hi)
    · rw [← placed_skip (takenAt_of_offline hd)]
      exact ih hnext _
    · have htaken : takenAt disks metaArr (passesByIndex fi) i = _ := takenAt_of_online hd hm
      have hk : fi.erasure.distribution[i]? = some _ := getElem?_eq_getElem (h.length_eq ▸ hi)
      by_cases hpass : passesByIndex fi i m
      · rw [if_pos hpass] at htaken
        simp only [passesByIndex, Bool.and_eq_true, decide_eq_true_eq] at hpass
        obtain ⟨⟨hvalid, hdata⟩, hindex⟩ := hpass
        simp only [hvalid, Bool.not_true, Bool.false_eq_true, if_false, hdata, ne_eq,
          not_true_eq_false, hindex, placed_place h hindex htaken]
        exact ih hnext _
      · rw [if_neg hpass] at htaken
        have hrest := ih hnext (inconsistent + 1)
        rw [placed_skip htaken] at hrest
        -- each of the three tests that can fail skips the disk
        by_cases hvalid : m.isValid
        · by_cases hdata : fi.data.length = m.data.length
          · have hindex : fi.erasure.distribution[i]? ≠ some m.erasure.index := fun heq =>
              hpass (by simp [passesByIndex, hvalid, hdata, heq])
            rw [hk, ne_eq, Option.some_inj] at hindex
            simpa [hk, hindex] using hrest
          · simpa [hdata] using hrest
        · simpa [hvalid] using hrest

include h hlen in
lemma shuffleDisksAndPartsMetadata_eq : shuffleDisksAndPartsMetadata disks metaArr fi =
      .ok (shuffledBy disks metaArr fi (passes fi)) := by
  have hloop := distributionLoop_eq h hlen (i := 0) rfl
  rw [arranged_placed_zero, drop_zero] at hloop
  unfold shuffleDisksAndPartsMetadata
  rw [hlen, hloop]

include h hlen in
lemma shuffleDisksAndPartsMetadataByIndex_eq :
    shuffleDisksAndPartsMetadataByIndex disks metaArr fi =
        .ok (shuffledBy disks metaArr fi (passesByIndex fi)) ∨
      shuffleDisksAndPartsMetadataByIndex disks metaArr fi =
        .ok (shuffledBy disks metaArr fi (passes fi)) := by
  obtain ⟨inconsistent, hloop⟩ := byIndexLoop_eq h hlen rfl 0
  rw [arranged_placed_zero, drop_zero] at hloop
  unfold shuffleDisksAndPartsMetadataByIndex
  rw [hloop, shuffleDisksAndPartsMetadata_eq h hlen]
  simp only
  split_ifs
  · exact Or.inl rfl
  · exact Or.inr rfl

/-! ### Records that agree -/

/-- The records of the disks agree with the record that was chosen. -/
structure Agrees (disks : List (Option Disk)) (metaArr : List FileInfo) (fi : FileInfo) : Prop where
  length : metaArr.length = disks.length
  distribution :
    fi.erasure.distribution.Perm ((List.range disks.length).map fun k : ℕ => (k : ℤ) + 1)
  modTime : fi.modTime.isZero = false
  data : ∀ (i : ℕ) (d : Disk) (m : FileInfo), disks[i]? = some (some d) → metaArr[i]? = some m →
    m.isValid = true → fi.data.length = m.data.length
  index : ∀ (i : ℕ) (d : Disk) (m : FileInfo), disks[i]? = some (some d) → metaArr[i]? = some m →
    m.isValid = true → fi.erasure.distribution[i]? = some m.erasure.index

lemma shardDisk_eq_takenAt (distribution : List ℤ) (k : ℕ) :
    shardDisk disks metaArr distribution k =
      takenAt disks metaArr (fun _ m => m.isValid) (diskOf distribution k) := rfl

lemma shardDisk_eq_some {distribution : List ℤ} {k : ℕ} {d : Disk} {m : FileInfo} :
    shardDisk disks metaArr distribution k = some (d, m) ↔
      disks[diskOf distribution k]? = some (some d) ∧ metaArr[diskOf distribution k]? = some m ∧
        m.isValid := by
  rw [shardDisk_eq_takenAt]
  exact takenAt_eq_some

lemma shuffledBy_eq_shardDisk {test : ℕ → FileInfo → Bool}
    (htest : ∀ i d m, disks[i]? = some (some d) → metaArr[i]? = some m → (test i m ↔ m.isValid)) :
    shuffledBy disks metaArr fi test =
      arranged disks.length (shardDisk disks metaArr fi.erasure.distribution) := by
  unfold shuffledBy
  congr 1
  funext k
  rw [shardDisk_eq_takenAt]
  ext ⟨d, m⟩
  rw [takenAt_eq_some, takenAt_eq_some]
  refine and_congr_right fun hd => and_congr_right fun hm => htest _ d m hd hm

lemma Agrees.shuffle_eq (h : Agrees disks metaArr fi) :
    shuffleDisksAndPartsMetadataByIndex disks metaArr fi =
      .ok (arranged disks.length (shardDisk disks metaArr fi.erasure.distribution)) := by
  have hindexed : shuffledBy disks metaArr fi (passesByIndex fi) = _ :=
    shuffledBy_eq_shardDisk fun i d m hd hm => by
      simp only [passesByIndex, Bool.and_eq_true, decide_eq_true_eq]
      exact ⟨fun hpass => hpass.1.1,
        fun hvalid => ⟨⟨hvalid, h.data i d m hd hm hvalid⟩, h.index i d m hd hm hvalid⟩⟩
  have hpassed : shuffledBy disks metaArr fi (passes fi) = _ :=
    shuffledBy_eq_shardDisk fun i d m hd hm => by
      simp only [passes, h.modTime, Bool.false_or, Bool.and_eq_true, decide_eq_true_eq]
      exact ⟨fun hpass => hpass.1, fun hvalid => ⟨hvalid, h.data i d m hd hm hvalid⟩⟩
  rcases shuffleDisksAndPartsMetadataByIndex_eq h.distribution h.length with heq | heq
  · rw [heq, hindexed]
  · rw [heq, hpassed]

end Shuffle

end Obstor.Coding
