import Obstor.Lib.Sha256
import Obstor.Quorum.Reduce

/-!
# The reference format

`getFormatErasureInQuorum` (`cmd/format-erasure.go`) returns the first `format.json` with the most
frequent hash, if this hash is on `len(formats)/2` drives. The hash is that of the drive ids one
after the other, without their sets, and the ids of an unreadable drive are not counted.
`exists_order_iff` says which formats some order of the map makes it return, and `trueQuorum_iff`
when they all have one value of `Sets`, on half of the drives.
-/

namespace Obstor.Quorum

open Go Lib List

structure FormatErasureV3 where
  version : String := ""
  format : String := ""
  id : String := ""
  erasureVersion : String := ""
  this : String := ""
  sets : List (List String) := []
  distributionAlgo : String := ""

/-- An element of `formatHashes`. -/
def formatHash : Option FormatErasureV3 → String
  | none => ""
  | some format => Sha256.hexDigest (format.sets.flatten.flatMap stringBytes)

section

variable (ρ : RangeOrder) (formats : List (Option FormatErasureV3))

/-- The hashes that are counted. -/
def hashes : List String := (formats.map formatHash).filter fun hash => hash ≠ ""

def formatCount (hash : String) : ℕ := (hashes formats).count hash

/-- `Clone` goes through JSON, and makes the zero value of nil. -/
def getFormatErasureInQuorum : Except Err FormatErasureV3 :=
  let max := voteLoop (formatCount formats) (fun _ _ => false) (0, "")
    (ρ.order _ (hashes formats).dedup)
  if max.1 < formats.length / 2 then .error .erasureReadQuorum
  else
    match formats.find? fun format => formatHash format = max.2 with
    | some format => .ok { format.getD {} with this := "" }
    | none => .error .erasureReadQuorum

/-- The drives with the same sets. -/
def setsCount (sets : List (List String)) : ℕ :=
  formats.countP fun format => format.map FormatErasureV3.sets = some sets

/-- What is returned is on half of the drives, and is the same for every order of the map. -/
def TrueQuorum : Prop :=
  ∀ ρ format, getFormatErasureInQuorum ρ formats = .ok format →
    formats.length ≤ 2 * setsCount formats format.sets ∧
      ∀ ρ' format', getFormatErasureInQuorum ρ' formats = .ok format' → format'.sets = format.sets

/-- One of the most frequent hashes, on as many drives as are asked for. -/
structure Frequent (hash : String) : Prop where
  mem : hash ∈ hashes formats
  most : ∀ hash' ∈ hashes formats, formatCount formats hash' ≤ formatCount formats hash
  half : formats.length / 2 ≤ formatCount formats hash

/-- The first format with its hash. -/
def IsFirst (format : FormatErasureV3) : Prop :=
  (formats.find? fun f => formatHash f = formatHash (some format)) = some (some format)

end

variable {formats : List (Option FormatErasureV3)} {format : FormatErasureV3}

lemma formatHash_ne_empty (format : FormatErasureV3) : formatHash (some format) ≠ "" :=
  Sha256.hexDigest_ne_empty _

lemma mem_hashes {hash : String} :
    hash ∈ hashes formats ↔ ∃ f, some f ∈ formats ∧ formatHash (some f) = hash := by
  rw [hashes, mem_filter, mem_map]
  constructor
  · rintro ⟨⟨_ | f, hf, rfl⟩, hne⟩
    · simp [formatHash] at hne
    · exact ⟨f, hf, rfl⟩
  · rintro ⟨f, hf, rfl⟩
    exact ⟨⟨_, hf, rfl⟩, decide_eq_true (formatHash_ne_empty f)⟩

/-- The formats that some order of the map makes the function return. -/
lemma exists_order_iff : (∃ ρ, getFormatErasureInQuorum ρ formats = .ok format) ↔
    (formats = [none] ∧ format = {}) ∨ ∃ f, IsFirst formats f ∧
      Frequent formats (formatHash (some f)) ∧ format = { f with this := "" } := by
  have hpos : ∀ f, some f ∈ formats → 0 < formatCount formats (formatHash (some f)) :=
    fun f hf => count_pos_iff.mpr (mem_hashes.mpr ⟨f, hf, rfl⟩)
  constructor
  · rintro ⟨ρ, h⟩
    have horder : ∀ hash, hash ∈ ρ.order _ (hashes formats).dedup ↔ hash ∈ hashes formats := by simp
    simp only [getFormatErasureInQuorum] at h
    generalize ρ.order _ (hashes formats).dedup = order at h horder
    have hmax := fun hash hmem => le_voteLoop (formatCount formats) (fun _ _ => false) order (0, "")
      ((horder hash).mpr hmem)
    split_ifs at h with hhalf
    split at h
    case h_2 => cases h
    case h_1 f hfind =>
      cases h
      have hhash := find?_some hfind
      rw [decide_eq_true_eq] at hhash
      rcases voteLoop_mem_or (formatCount formats) (fun _ _ => false) order (0, "") with
        hinit | ⟨hmem, hwin⟩
      · -- no drive is readable, and there is no other
        rw [hinit] at hhalf hmax
        have hf := mem_of_find?_eq_some hfind
        cases f with
        | some f => exact absurd (hmax _ (mem_hashes.mpr ⟨f, hf, rfl⟩)) (not_le.mpr (hpos f hf))
        | none =>
          have hone : formats.length = 1 := by
            have := length_pos_of_mem hf
            omega
          obtain ⟨g, rfl⟩ := length_eq_one_iff.mp hone
          exact .inl ⟨by rw [mem_singleton.mp hf], rfl⟩
      · obtain ⟨g, hg, hwinner⟩ := mem_hashes.mp ((horder _).mp hmem)
        cases f with
        | none => exact absurd (hwinner.trans hhash.symm) (formatHash_ne_empty g)
        | some f =>
          rw [← hhash] at hwin hfind
          rw [hwin] at hmax hhalf
          have hin := mem_hashes.mpr ⟨f, mem_of_find?_eq_some hfind, rfl⟩
          exact .inr ⟨f, hfind, ⟨hin, hmax, not_lt.mp hhalf⟩, rfl⟩
  · rintro (⟨rfl, rfl⟩ | ⟨f, hfirst, hf, rfl⟩)
    · exact ⟨.inOrder, rfl⟩
    · -- the order that begins with the hash of this format
      have hmem := mem_of_find?_eq_some hfirst
      obtain ⟨s, t, hst⟩ := append_of_mem (mem_dedup.mpr (mem_hashes.mpr ⟨f, hmem, rfl⟩))
      have hle : ∀ hash ∈ t ++ s,
          formatCount formats hash ≤ formatCount formats (formatHash (some f)) := by
        intro hash hhash
        have hin : hash ∈ (hashes formats).dedup := by
          rw [hst]
          grind
        exact hf.most hash (mem_dedup.mp hin)
      rw [IsFirst] at hfirst
      refine ⟨.rotated s.length, ?_⟩
      simp [getFormatErasureInQuorum, RangeOrder.rotated, hst, voteLoop_head _ "" (hpos f hmem) hle,
        hfirst, if_neg (not_lt.mpr hf.half)]

lemma Frequent.exists_isFirst {hash : String} (h : Frequent formats hash) :
    ∃ f, IsFirst formats f ∧ formatHash (some f) = hash := by
  obtain ⟨g, hg, rfl⟩ := mem_hashes.mp h.mem
  cases hfind : formats.find? fun f => formatHash f = formatHash (some g) with
  | none => exact absurd (find?_eq_none.mp hfind _ hg) (by simp)
  | some f =>
    have hhash := find?_some hfind
    rw [decide_eq_true_eq] at hhash
    cases f with
    | none => exact absurd hhash.symm (formatHash_ne_empty g)
    | some f => exact ⟨f, by rw [IsFirst, hhash, hfind], hhash⟩

/-- The reference is a true quorum choice exactly if the list is not one unreadable drive, at most
one of the most frequent hashes is on half of the drives, rounded down, and the first format with it
has sets that half of the drives have. -/
theorem trueQuorum_iff (formats : List (Option FormatErasureV3)) : TrueQuorum formats ↔
    formats ≠ [none] ∧
      (∀ hash hash', Frequent formats hash → Frequent formats hash' → hash = hash') ∧
      ∀ format, IsFirst formats format → Frequent formats (formatHash (some format)) →
        formats.length ≤ 2 * setsCount formats format.sets := by
  constructor
  · intro h
    refine ⟨?_, fun hash hash' hfreq hfreq' => ?_, fun f hfirst hfreq => ?_⟩
    · rintro rfl
      exact absurd (h .inOrder {} rfl).1 (by decide)
    · obtain ⟨f, hfirst, rfl⟩ := hfreq.exists_isFirst
      obtain ⟨g, hfirst', rfl⟩ := hfreq'.exists_isFirst
      obtain ⟨ρ, hρ⟩ := exists_order_iff.mpr (.inr ⟨f, hfirst, hfreq, rfl⟩)
      obtain ⟨ρ', hρ'⟩ := exists_order_iff.mpr (.inr ⟨g, hfirst', hfreq', rfl⟩)
      have hsame := (h ρ _ hρ).2 ρ' _ hρ'
      have hsets : g.sets = f.sets := hsame
      rw [formatHash, formatHash, hsets]
    · obtain ⟨ρ, hρ⟩ := exists_order_iff.mpr (.inr ⟨f, hfirst, hfreq, rfl⟩)
      exact (h ρ _ hρ).1
  · rintro ⟨hne, hone, hhalf⟩ ρ f h
    rcases exists_order_iff.mp ⟨ρ, h⟩ with ⟨hnone, -⟩ | ⟨g, hfirst, hfreq, rfl⟩
    · exact absurd hnone hne
    refine ⟨hhalf g hfirst hfreq, fun ρ' f' h' => ?_⟩
    rcases exists_order_iff.mp ⟨ρ', h'⟩ with ⟨hnone, -⟩ | ⟨g', hfirst', hfreq', rfl⟩
    · exact absurd hnone hne
    rw [IsFirst, hone _ _ hfreq' hfreq, hfirst] at hfirst'
    cases hfirst'
    rfl

/-- Of two drives that differ, the order of the map decides. -/
theorem reference_depends_on_order :
    let a : FormatErasureV3 := { sets := [["a"]] }
    let b : FormatErasureV3 := { sets := [["b"]] }
    (getFormatErasureInQuorum .inOrder [a, b]).toOption.map FormatErasureV3.sets = some [["a"]] ∧
      (getFormatErasureInQuorum .reversed [a, b]).toOption.map FormatErasureV3.sets =
        some [["b"]] := by
  decide +kernel

end Obstor.Quorum
