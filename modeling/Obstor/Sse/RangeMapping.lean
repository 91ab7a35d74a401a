import Obstor.Sse.DecryptedRange

/-!
# A range of an encrypted object is exactly the range of its plaintext

The range that `GetDecryptedRange` computes is stated in package numbers: from package `s` of part
`p` up to package `e` of part `q`. What is stored between these boundaries opens to the payloads
between them (`PackageCipher.openParts_slice`), and the requested range lies inside
(`rangeOf_opens`).
-/

namespace Obstor.Sse

open Go Lib Meta List PackageCipher HTTPRangeSpec Except

variable {κ : Type} {sio : SioPkg κ} {keys : ObjectKeys κ} {oi : ObjectInfo}
variable {stored plain : Bytes}

/-! ### What a valid range denotes -/

variable {n : ℕ}

lemma getOffsetLength_bounds {rs : Option HTTPRangeSpec} {off length : ℤ}
    (hrs : ∀ spec, rs = some spec → spec.Valid) (hn : n < 2 ^ 62)
    (h : getOffsetLength rs n = .ok (off, length)) :
    getLength rs n = .ok length ∧ 0 ≤ off ∧ 0 ≤ length ∧ off + length ≤ n ∧
      (length = 0 → n = 0) := by
  have hpos : ¬(n : ℤ) < 0 := by omega
  cases rs with
  | none =>
    simp only [getOffsetLength, ok.injEq, Prod.mk.injEq] at h
    simp only [getLength, if_neg hpos, ok.injEq]
    omega
  | some spec =>
    obtain ⟨hlow, hhigh, hstop, hspec⟩ := hrs spec rfl
    have hwrap : ∀ x : ℤ, -2 ^ 63 ≤ x → x < 2 ^ 63 → int64 x = x := fun x => int64_eq_self
    simp only [getOffsetLength] at h
    split at h
    · cases h
    · rename_i len hlen
      simp only [ok.injEq, Prod.mk.injEq] at h
      obtain ⟨hoff, rfl⟩ := h
      refine ⟨hlen, ?_⟩
      simp only [getLength, if_neg hpos] at hlen
      cases hsuffix : spec.isSuffixLength with
      | true =>
        rw [hsuffix, if_pos rfl] at hspec hoff hlen
        rw [hwrap _ (by omega) (by omega)] at hoff hlen
        rw [ok.injEq] at hlen
        split_ifs at hoff hlen <;> omega
      | false =>
        rw [hsuffix, if_neg Bool.false_ne_true] at hspec hoff hlen
        split_ifs at hlen with h₁ h₂ h₃ h₄
        · rw [hwrap (n - 1) (by omega) (by omega), hwrap (n - 1 - spec.start) (by omega)
            (by omega), hwrap _ (by omega) (by omega), ok.injEq] at hlen
          omega
        · rw [hwrap (spec.stop - spec.start) (by omega) (by omega),
            hwrap _ (by omega) (by omega), ok.injEq] at hlen
          omega
        · rw [hwrap _ (by omega) (by omega), ok.injEq] at hlen
          omega

/-! ### Sizes -/

def plainSizes (parts : List (κ × Bytes)) : List ℤ := parts.map fun part => (part.2.length : ℤ)

def plainParts (parts : List (κ × Bytes)) : List Bytes := parts.map Prod.snd

lemma plainParts_drop (parts : List (κ × Bytes)) (p : ℕ) :
    plainParts (parts.drop p) = (plainParts parts).drop p := map_drop

lemma packParts_drop (c : PackageCipher κ UInt8) (parts : List (κ × Bytes)) (p : ℕ) :
    c.packParts (parts.drop p) = (c.packParts parts).drop p := map_drop

section

variable (sio : SioPkg κ) (parts : List (κ × Bytes))

def Fits : Prop :=
  ∀ part ∈ parts, part.2.length ≤ sio.maxSize

lemma length_le_packStream (part : κ × Bytes) :
    part.2.length ≤ (sio.cipher.packStream part.1 part.2).length := by
  rw [length_packStream]
  exact Nat.le_add_right _ _

lemma length_plainParts_le :
    (plainParts parts).flatten.length ≤ (sio.cipher.packParts parts).flatten.length := by
  induction parts with
  | nil => exact le_rfl
  | cons part rest ih =>
    simp only [plainParts, packParts, map_cons, flatten_cons, length_append]
    exact add_le_add (length_le_packStream sio part) ih

lemma partStart_plainParts_le (p : ℕ) :
    partStart (plainParts parts) p ≤ partStart (sio.cipher.packParts parts) p := by
  have h := length_plainParts_le sio (parts.take p)
  rwa [plainParts, packParts, map_take, map_take] at h

end

lemma packedSize_lt (h : n ≤ sio.maxSize) : sio.cipher.packedSize n < 2 ^ 62 := by
  have hmax := sio.maxSize_le
  rw [packedSize, sio.overhead_eq, sio.payload_eq, blockCount, packageBlockSize, packageMetaSize]
  omega

variable {part : κ × Bytes}

lemma encryptedSizeOf_eq (h : part.2.length ≤ sio.maxSize) :
    encryptedSizeOf sio part.2.length = (sio.cipher.packStream part.1 part.2).length := by
  have hlt := packedSize_lt h
  have hmax := sio.maxSize_le
  rw [encryptedSizeOf, uint64_natCast (by omega), sio.encryptedSize_eq _ h, length_packStream]
  exact int64_eq_self (by omega) (by omega)

lemma locate_eq {parts : List (κ × Bytes)} (hfits : Fits sio parts) (offset : ℤ)
    (i cum enc : ℕ) (hbound : enc + (sio.cipher.packParts parts).flatten.length < 2 ^ 62)
    (hcum : cum ≤ enc) (hlow : (cum : ℤ) ≤ offset)
    (hhigh : offset < cum + (plainParts parts).flatten.length) :
    ∃ q part, parts[q]? = some part ∧ locate sio offset i (plainSizes parts) cum enc =
        (some (i + q), ((cum + partStart (plainParts parts) q : ℕ) : ℤ),
          ((enc + partStart (sio.cipher.packParts parts) q : ℕ) : ℤ)) ∧
      (cum + partStart (plainParts parts) q : ℕ) ≤ offset ∧
      offset < (cum + partStart (plainParts parts) q : ℕ) + part.2.length := by
  induction parts generalizing i cum enc with
  | nil =>
    simp only [plainParts, map_nil, flatten_nil, length_nil] at hhigh
    omega
  | cons part rest ih =>
    have hpart := hfits part (mem_cons_self ..)
    have hlen := length_le_packStream sio part
    simp only [packParts, plainParts, map_cons, flatten_cons, length_append] at hbound hhigh
    have hwrap : int64 (cum + part.2.length) = ((cum + part.2.length : ℕ) : ℤ) := by
      exact int64_eq_self (by omega) (by omega)
    rw [plainSizes, map_cons, locate, hwrap]
    by_cases hin : offset < ((cum + part.2.length : ℕ) : ℤ)
    · refine ⟨0, part, rfl, ?_, ?_, ?_⟩
      · rw [if_pos hin]
        rfl
      · exact hlow
      · exact hin
    · have henc : int64 (enc + encryptedSizeOf sio part.2.length) =
          ((enc + (sio.cipher.packStream part.1 part.2).length : ℕ) : ℤ) := by
        rw [encryptedSizeOf_eq hpart]
        exact int64_eq_self (by omega) (by omega)
      obtain ⟨q, last, hq, hlocate, hge, hlt⟩ := ih
        (fun p hp => hfits p (mem_cons_of_mem _ hp)) (i + 1) (cum + part.2.length)
        (enc + (sio.cipher.packStream part.1 part.2).length)
        (by rw [packParts]; omega) (by omega) (by omega)
        (by rw [plainParts]; omega)
      refine ⟨q + 1, last, hq, ?_, ?_, ?_⟩
      · rw [if_neg hin, henc, ← plainSizes, hlocate]
        simp [plainParts, packParts, partStart_cons_succ, add_assoc, add_comm 1 q]
      · rw [plainParts, map_cons, partStart_cons_succ, ← add_assoc]
        exact hge
      · rw [plainParts, map_cons, partStart_cons_succ, ← add_assoc]
        exact hlt

/-! ### The range in packages -/

lemma size_eq : sio.cipher.size = packageBlockSize + packageMetaSize := by
  rw [size, sio.payload_eq, sio.overhead_eq]

lemma packages_le (sio : SioPkg κ) (h : n ≤ part.2.length) :
    n / packageBlockSize * sio.cipher.size ≤ (sio.cipher.packStream part.1 part.2).length := by
  apply mul_size_le
  rw [sio.payload_eq]
  exact (Nat.div_mul_le_self _ _).trans h

lemma getElem?_packParts (sio : SioPkg κ) {parts : List (κ × Bytes)} {p : ℕ}
    (h : parts[p]? = some part) :
    (sio.cipher.packParts parts)[p]? = some (sio.cipher.packStream part.1 part.2) := by
  rw [packParts, getElem?_map, h]
  rfl

variable {off length : ℕ}

/-- Where the package with byte `a` of part `p` begins. -/
def encPos (sio : SioPkg κ) (parts : List (κ × Bytes)) (p a : ℕ) : ℕ :=
  partStart (sio.cipher.packParts parts) p + a / packageBlockSize * sio.cipher.size

/-- Where the package with byte `b` of part `q` ends. -/
def encEnd (sio : SioPkg κ) (parts : List (κ × Bytes)) (q b : ℕ) (last : κ × Bytes) : ℕ :=
  partStart (sio.cipher.packParts parts) q + min ((b / packageBlockSize + 1) * sio.cipher.size)
    (sio.cipher.packStream last.1 last.2).length

/-- What is computed once the two parts are found: the range starts at offset `a` of part `p`, and
its last byte is at offset `b` of part `q`. No result wraps. -/
lemma rangeOf_of_locate {sizes : List ℤ} {p q sp ep sq eq a b : ℕ}
    (hfirst : locate sio off 0 sizes 0 0 = (some p, (sp : ℤ), (ep : ℤ)))
    (hlast : locate sio ((off + length - 1 : ℕ) : ℤ) p (sizes.drop p) sp ep =
      (some q, (sq : ℤ), (eq : ℤ)))
    (hsize : encryptedSizeOf sio (sizes.getD q 0) = n) (ha : off = sp + a)
    (hb : off + length = sq + b + 1) (hseq : a < 2 ^ 48) (hlen : off + length < 2 ^ 62)
    (hep : ep + a / packageBlockSize * sio.cipher.size < 2 ^ 62)
    (heq : eq + b / packageBlockSize * sio.cipher.size < 2 ^ 62) (hn : eq + n < 2 ^ 62) :
    rangeOf sio sizes off length =
      { encOff := ((ep + a / packageBlockSize * sio.cipher.size : ℕ) : ℤ)
        encLength := int64 (((eq + min ((b / packageBlockSize + 1) * sio.cipher.size) n : ℕ) : ℤ) -
          ((ep + a / packageBlockSize * sio.cipher.size : ℕ) : ℤ))
        skipLen := ((a % packageBlockSize : ℕ) : ℤ)
        seqNumber := a / packageBlockSize
        partStart := p } := by
  have hwrap : ∀ n : ℕ, n < 2 ^ 63 → int64 n = n := fun n hn =>
    int64_eq_self (by omega) (by omega)
  have hpackage : (packageBlockSize : ℤ) + packageMetaSize = ((sio.cipher.size : ℕ) : ℤ) := by
    rw [size_eq, Nat.cast_add]
  have hstart : int64 ((off : ℤ) - sp) = (a : ℤ) := by
    rw [ha, Nat.cast_add, add_sub_cancel_left]
    exact hwrap a (by omega)
  have hend : int64 (int64 ((off : ℤ) + length) - 1) = ((off + length - 1 : ℕ) : ℤ) := by
    rw [← Nat.cast_add, hwrap _ (by omega),
      show ((off + length : ℕ) : ℤ) - 1 = ((off + length - 1 : ℕ) : ℤ) by omega]
    exact hwrap _ (by omega)
  have hendPart : int64 (((off + length - 1 : ℕ) : ℤ) - sq) = (b : ℤ) := by
    rw [show off + length - 1 = sq + b by omega, Nat.cast_add, add_sub_cancel_left]
    exact hwrap b (by omega)
  have hencOff : int64 ((ep : ℤ) + int64 (((a / packageBlockSize : ℕ) : ℤ) * sio.cipher.size)) =
      ((ep + a / packageBlockSize * sio.cipher.size : ℕ) : ℤ) := by
    rw [← Nat.cast_mul, hwrap _ (by omega), ← Nat.cast_add]
    exact hwrap _ (by omega)
  have hendOff :
      int64 ((eq : ℤ) + int64 (int64 (((b / packageBlockSize : ℕ) : ℤ) + 1) * sio.cipher.size)) =
        ((eq + (b / packageBlockSize + 1) * sio.cipher.size : ℕ) : ℤ) := by
    have hle := Nat.div_le_self b packageBlockSize
    have hmul := Nat.succ_mul (b / packageBlockSize) sio.cipher.size
    have hsz : sio.cipher.size = 65568 := by
      rw [size_eq, packageBlockSize, packageMetaSize]
    rw [← Nat.cast_succ, hwrap _ (by omega), ← Nat.cast_mul, hwrap _ (by omega), ← Nat.cast_add]
    exact hwrap _ (by omega)
  have hstream : int64 ((eq : ℤ) + n) = ((eq + n : ℕ) : ℤ) := by
    rw [← Nat.cast_add]
    exact hwrap _ (hn.trans (by decide))
  have hnumber : uint32 ((a / packageBlockSize : ℕ) : ℤ) = a / packageBlockSize := by
    apply uint32_natCast
    rw [packageBlockSize]
    omega
  have hclamp : ∀ x y : ℕ, (if ((eq + x : ℕ) : ℤ) > ((eq + y : ℕ) : ℤ) then ((eq + y : ℕ) : ℤ)
      else ((eq + x : ℕ) : ℤ)) = ((eq + min x y : ℕ) : ℤ) := by
    intro x y
    split_ifs <;> omega
  simp only [rangeOf]
  rw [hfirst]
  simp only [Option.getD_some]
  rw [hstart, ← Int.ofNat_tdiv, ← Int.ofNat_tmod, hpackage, hencOff, hend, hlast]
  simp only [Option.getD_some]
  rw [hendPart, ← Int.ofNat_tdiv, hendOff, hsize, hstream, hnumber, hclamp]

lemma rangeOf_eq {parts : List (κ × Bytes)} (hfits : Fits sio parts)
    (hbound : (sio.cipher.packParts parts).flatten.length < 2 ^ 62)
    (hpos : 0 < length) (hrange : off + length ≤ (plainParts parts).flatten.length) :
    ∃ p q a b, ∃ part last : κ × Bytes,
      parts[p]? = some part ∧ parts[p + q]? = some last ∧ a < part.2.length ∧
      b < last.2.length ∧ off = partStart (plainParts parts) p + a ∧
      off + length = partStart (plainParts parts) (p + q) + b + 1 ∧
      rangeOf sio (plainSizes parts) off length =
        { encOff := encPos sio parts p a
          encLength := int64 ((encEnd sio parts (p + q) b last : ℤ) - encPos sio parts p a)
          skipLen := ((a % packageBlockSize : ℕ) : ℤ)
          seqNumber := a / packageBlockSize
          partStart := p } := by
  have hmax := sio.maxSize_le
  have hplain := length_plainParts_le sio parts
  -- the part the range starts in
  obtain ⟨p, part, hp, hfirst, hlow, hhigh⟩ := locate_eq hfits off 0 0 0
    (by omega) le_rfl (by omega) (by omega)
  rw [zero_add, zero_add, zero_add] at hfirst
  have hplainDrop := partStart_add_length_drop (plainParts parts) p
  have hpackDrop := partStart_add_length_drop (sio.cipher.packParts parts) p
  rw [← plainParts_drop] at hplainDrop
  rw [← packParts_drop] at hpackDrop
  -- the part it ends in
  have hfitsDrop : Fits sio (parts.drop p) := fun x hx => hfits x (mem_of_mem_drop hx)
  obtain ⟨q, last, hq, hlast, hlow', hhigh'⟩ := locate_eq hfitsDrop ((off + length - 1 : ℕ) : ℤ) p
    _ _ (by omega)
    (partStart_plainParts_le sio parts p) (by omega) (by omega)
  rw [plainParts_drop, ← partStart_add] at hlow' hhigh'
  rw [plainParts_drop, ← partStart_add, packParts_drop, ← partStart_add, plainSizes,
    map_drop] at hlast
  rw [getElem?_drop] at hq
  obtain ⟨a, ha⟩ : ∃ a, off = partStart (plainParts parts) p + a :=
    Nat.exists_eq_add_of_le (by omega)
  obtain ⟨b, hb⟩ : ∃ b, off + length - 1 = partStart (plainParts parts) (p + q) + b :=
    Nat.exists_eq_add_of_le (by omega)
  have hapart : a < part.2.length := by omega
  have hblast : b < last.2.length := by omega
  have hpartMax := hfits part (mem_of_getElem? hp)
  have hs := packages_le sio hapart.le
  have he := packages_le sio hblast.le
  have hpEnd := partStart_add_length_le (getElem?_packParts sio hp)
  have hqEnd := partStart_add_length_le (getElem?_packParts sio hq)
  refine ⟨p, q, a, b, part, last, hp, hq, hapart, hblast, ha, by omega, ?_⟩
  apply rangeOf_of_locate hfirst hlast _ ha <;> try omega
  rw [getD_eq_getElem?_getD, plainSizes, getElem?_map, hq]
  exact encryptedSizeOf_eq (hfits last (mem_of_getElem? hq))

section Opens

variable (sio) {parts : List (κ × Bytes)} {p q a b off length : ℕ} {part last : κ × Bytes}
variable (hp : parts[p]? = some part) (hq : parts[p + q]? = some last) (ha : a < part.2.length)
variable (hb : b < last.2.length) (hoff : off = partStart (plainParts parts) p + a)
variable (hend : off + length = partStart (plainParts parts) (p + q) + b + 1) (hpos : 0 < length)

include hoff hend hpos in
lemma package_le (h : q = 0) : a / packageBlockSize ≤ b / packageBlockSize + 1 := by
  subst h
  change off + length = partStart (plainParts parts) p + b + 1 at hend
  exact (Nat.div_le_div_right (by omega)).trans (Nat.le_succ _)

include hp hq ha hb hoff hend hpos

lemma encOff_le : encPos sio parts p a ≤ encEnd sio parts (p + q) b last := by
  rw [encPos, encEnd]
  have hs := packages_le sio ha.le
  cases q with
  | zero =>
    obtain rfl : part = last := Option.some.inj (hp.symm.trans hq)
    have hab := package_le hoff hend hpos rfl
    exact Nat.add_le_add_left (le_min (Nat.mul_le_mul_right _ hab) hs) _
  | succ q =>
    obtain ⟨hlt, hget⟩ := List.getElem?_eq_some_iff.mp (getElem?_packParts sio hp)
    have hnext := partStart_succ hlt
    have hmono := partStart_mono (sio.cipher.packParts parts) (show p + 1 ≤ p + (q + 1) by omega)
    rw [hget] at hnext
    omega

lemma range_opens :
    ∃ dec, sio.cipher.openParts (sio.cipher.partSizes (parts.drop p)) (a / packageBlockSize)
        (slice (encPos sio parts p a) (encEnd sio parts (p + q) b last - encPos sio parts p a)
          (sio.cipher.packParts parts).flatten) = some dec ∧
      slice (a % packageBlockSize) length dec = slice off length (plainParts parts).flatten := by
  have hqDrop : (parts.drop p)[q]? = some last := by rwa [getElem?_drop]
  have hstart : ∀ first, (parts.drop p)[0]? = some first →
      a / packageBlockSize * sio.cipher.payload ≤ first.2.length := by
    intro first hfirst
    rw [getElem?_drop, add_zero, hp] at hfirst
    cases hfirst
    rw [sio.payload_eq]
    exact (Nat.div_mul_le_self _ _).trans ha.le
  have hopen := sio.cipher.openParts_slice hqDrop (package_le hoff hend hpos) hstart
  rw [packParts_drop, ← slice_partStart_add] at hopen
  rw [encPos, encEnd, partStart_add, add_assoc, Nat.add_sub_add_left]
  refine ⟨_, hopen, ?_⟩
  have hdiv := Nat.div_add_mod' a packageBlockSize
  have hlast : b + 1 ≤ min ((b / packageBlockSize + 1) * packageBlockSize) last.2.length := by
    apply le_min _ hb
    rw [mul_comm]
    exact Nat.lt_mul_div_succ b (by decide)
  rw [partStart_add, ← plainParts_drop] at hend
  rw [sio.payload_eq, slice_slice, hdiv, Nat.min_eq_left (by rw [← plainParts]; omega), hoff,
    slice_partStart_add, ← plainParts_drop, plainParts]

end Opens

variable {parts : List (κ × Bytes)}

lemma rangeOf_opens (hfits : Fits sio parts)
    (hbound : (sio.cipher.packParts parts).flatten.length < 2 ^ 62)
    (hpos : 0 < length) (hrange : off + length ≤ (plainParts parts).flatten.length)
    {range : DecryptedRange} (h : rangeOf sio (plainSizes parts) off length = range) :
    range.partStart < parts.length ∧
    range.encOff = ((partStart (sio.cipher.packParts parts) range.partStart +
      range.seqNumber * sio.cipher.size : ℕ) : ℤ) ∧
    0 ≤ range.encLength ∧ 0 ≤ range.skipLen ∧
    range.encOff + range.encLength ≤ (sio.cipher.packParts parts).flatten.length ∧
    ∃ dec, sio.cipher.openParts (sio.cipher.partSizes (parts.drop range.partStart)) range.seqNumber
        (slice range.encOff.toNat range.encLength.toNat (sio.cipher.packParts parts).flatten) =
          some dec ∧
      slice range.skipLen.toNat length dec = slice off length (plainParts parts).flatten := by
  obtain ⟨p, q, a, b, part, last, hp, hq, ha, hb, hoff, hend, heq⟩ :=
    rangeOf_eq hfits hbound hpos hrange
  have hle := encOff_le sio hp hq ha hb hoff hend hpos
  obtain ⟨dec, hopen, hslice⟩ := range_opens sio hp hq ha hb hoff hend hpos
  have hqEnd := partStart_add_length_le (getElem?_packParts sio hq)
  have hmin := Nat.min_le_right ((b / packageBlockSize + 1) * sio.cipher.size)
    (sio.cipher.packStream last.1 last.2).length
  rw [encPos, encEnd] at hle
  simp only [encPos, encEnd] at heq hopen
  rw [← Nat.cast_sub hle, int64_eq_self (by omega) (by omega)] at heq
  rw [heq] at h
  subst h
  refine ⟨(List.getElem?_eq_some_iff.mp hp).1, rfl, Int.natCast_nonneg _, Int.natCast_nonneg _, ?_,
    dec, hopen, hslice⟩
  rw [← Nat.cast_add, Nat.add_sub_cancel' hle]
  exact_mod_cast (Nat.add_le_add_left hmin _).trans hqEnd

lemma encryptedSizeOf_zero : encryptedSizeOf sio 0 = 0 := by
  have h : sio.encryptedSize (uint64 0) = .ok 0 := by
    have hzero := sio.encryptedSize_eq 0 (Nat.zero_le _)
    rwa [packedSize, blockCount_zero sio.cipher.payload_pos] at hzero
  rw [encryptedSizeOf, h]
  rfl

lemma locate_zero {sizes : List ℤ} (h : ∀ size ∈ sizes, size = 0) (i : ℕ) :
    locate sio 0 i sizes 0 0 = (none, 0, 0) := by
  induction sizes generalizing i with
  | nil => rfl
  | cons size sizes ih =>
    obtain rfl := h size (mem_cons_self ..)
    rw [locate, encryptedSizeOf_zero]
    exact ih (fun x hx => h x (mem_cons_of_mem _ hx)) (i + 1)

lemma rangeOf_empty (sio : SioPkg κ) (hne : parts ≠ []) (h : (plainParts parts).flatten = []) :
    rangeOf sio (plainSizes parts) 0 0 = ⟨0, 0, 0, 0, 0⟩ := by
  have hsizes : ∀ size ∈ plainSizes parts, size = 0 := by
    intro size hsize
    obtain ⟨part, hpart, rfl⟩ := mem_map.mp hsize
    have hnil := flatten_eq_nil_iff.mp h part.2 (mem_map.mpr ⟨part, hpart, rfl⟩)
    rw [hnil]
    rfl
  obtain ⟨rest, hrest⟩ : ∃ rest, plainSizes parts = 0 :: rest := by
    cases parts with
    | nil => exact absurd rfl hne
    | cons part parts => exact ⟨plainSizes parts, by rw [← hsizes _ (mem_cons_self ..)]; rfl⟩
  -- the end of the range lies before its start, in the first part
  have hend : locate sio (int64 (int64 (0 + 0) - 1)) 0 (0 :: rest) 0 0 = (some 0, 0, 0) := by
    rw [locate, if_pos (by decide)]
  simp only [rangeOf]
  rw [locate_zero hsizes, hrest]
  simp only [Option.getD_none, drop_zero]
  rw [hend]
  simp only [Option.getD_some, getD_cons_zero, encryptedSizeOf_zero]
  decide

/-! ### Encrypted objects -/

/-- The parts of a multipart object with the keys that seal them. -/
def keyed (keys : ObjectKeys κ) (parts : List (ℤ × Bytes)) : List (κ × Bytes) :=
  parts.map fun part => (keys.partKey part.1, part.2)

/-- An encrypted object, its stored bytes and its plaintext. -/
inductive SseObject (sio : SioPkg κ) (keys : ObjectKeys κ) (oi : ObjectInfo) (stored : Bytes) :
    Bytes → Prop
  /-- An object uploaded in parts: each part is a stream of packages with a key of its own. Its
  stored size fits an `int64`, with room for one package more. -/
  | multipart (parts : List (ℤ × Bytes)) (hne : parts ≠ [])
      (hfits : ∀ part ∈ parts, part.2.length ≤ sio.maxSize)
      (hencrypted : oi.isEncrypted = true) (hmulti : oi.isMultiPart = true)
      (hetag : oi.backendErasure = true → oi.etag.utf8ByteSize ≠ 32)
      (hstored : stored = (sio.cipher.packParts (keyed keys parts)).flatten)
      (hparts : oi.parts.map (fun part => (part.number, part.size)) = parts.map fun part =>
        (part.1, ((sio.cipher.packStream (keys.partKey part.1) part.2).length : ℤ)))
      (hsize : oi.size = stored.length) (hlt : stored.length < 2 ^ 62) :
      SseObject sio keys oi stored (plainParts (keyed keys parts)).flatten
  /-- An object uploaded at once: a single stream. -/
  | single (plain : Bytes) (hfits : plain.length ≤ sio.maxSize)
      (hencrypted : oi.isEncrypted = true) (hsingle : isEncryptedMultipart sio oi = false)
      (hstored : stored = sio.cipher.packStream keys.objectKey plain)
      (hsize : oi.size = stored.length) :
      SseObject sio keys oi stored plain

/-- What the functions see of an encrypted object, in one part or in several. -/
structure View (sio : SioPkg κ) (keys : ObjectKeys κ) (oi : ObjectInfo)
    (parts : List (κ × Bytes)) (stored plain : Bytes) : Prop where
  ne : parts ≠ []
  fits : Fits sio parts
  encrypted : oi.isEncrypted = true
  stored_eq : stored = (sio.cipher.packParts parts).flatten
  plain_eq : plain = (plainParts parts).flatten
  lt : stored.length < 2 ^ 62
  size : oi.size = stored.length
  sizes : oi.sizes sio = .ok (plainSizes parts)
  decrypt : ∀ (seq p : ℕ) (input : Bytes), p < parts.length →
    partStart (sio.cipher.packParts parts) p + seq * sio.cipher.size + input.length ≤
      stored.length →
    decryptBlocksRequestR sio keys oi seq p input =
      sio.cipher.openParts (sio.cipher.partSizes (parts.drop p)) seq input

lemma sumSizes_plainSizes (h : (plainParts parts).flatten.length < 2 ^ 62) :
    sumSizes (plainSizes parts) = (plainParts parts).flatten.length := by
  have hfold : ∀ acc : ℕ, acc + (plainParts parts).flatten.length < 2 ^ 62 →
      (plainSizes parts).foldl (fun sum size => int64 (sum + size)) acc =
        ((acc + (plainParts parts).flatten.length : ℕ) : ℤ) := by
    clear h
    induction parts with
    | nil => exact fun acc _ => rfl
    | cons part parts ih =>
      intro acc hacc
      simp only [plainParts, map_cons, flatten_cons, length_append] at hacc ⊢
      rw [plainSizes, map_cons, foldl_cons, ← Nat.cast_add, int64_eq_self (by omega) (by omega),
        ← plainSizes, ih _ (by rw [plainParts]; omega), plainParts, add_assoc]
  have := hfold 0 (by omega)
  rwa [zero_add] at this

lemma decryptedSize_stream (k : κ) {data : Bytes} (h : data.length ≤ sio.maxSize) :
    sio.decryptedSize (uint64 ((sio.cipher.packStream k data).length : ℕ)) = .ok data.length := by
  have hlt := packedSize_lt h
  rw [length_packStream, uint64_natCast (by omega), sio.decryptedSize_eq _ h]

lemma decryptedSizes_eq (hfits : Fits sio parts) {infos : List ObjectPartInfo}
    (h : infos.map ObjectPartInfo.size = parts.map fun part =>
      ((sio.cipher.packStream part.1 part.2).length : ℤ)) :
    decryptedSizes sio infos = .ok (plainSizes parts) := by
  induction parts generalizing infos with
  | nil =>
    obtain rfl := map_eq_nil_iff.mp h
    rfl
  | cons part parts ih =>
    obtain ⟨info, infos, rfl, hinfo, hinfos⟩ := map_eq_cons_iff.mp h
    have hpart := hfits part (mem_cons_self ..)
    have hmax := sio.maxSize_le
    have hrest := ih (fun x hx => hfits x (mem_cons_of_mem _ hx)) hinfos
    rw [decryptedSizes] at hrest ⊢
    rw [mapM_cons, hrest, hinfo, decryptedSize_stream _ hpart]
    change ok (int64 part.2.length :: plainSizes parts) = _
    rw [int64_eq_self (by omega) (by omega)]
    rfl

lemma isEncryptedMultipart_of_sizes (hfits : Fits sio parts)
    (hne : parts ≠ []) (hmulti : oi.isMultiPart)
    (hetag : oi.backendErasure → oi.etag.utf8ByteSize ≠ 32)
    (h : oi.parts.map ObjectPartInfo.size = parts.map fun part =>
      ((sio.cipher.packStream part.1 part.2).length : ℤ)) :
    isEncryptedMultipart sio oi := by
  have hlen : oi.parts.length ≠ 0 := by
    have := congrArg List.length h
    rw [length_map, length_map] at this
    rw [this]
    exact fun hzero => hne (eq_nil_of_length_eq_zero hzero)
  have hok : oi.parts.any (fun part => !(sio.decryptedSize (uint64 part.size)).isOk) = false := by
    rw [any_eq_false]
    intro info hinfo
    have hmem : info.size ∈ oi.parts.map ObjectPartInfo.size := mem_map_of_mem hinfo
    rw [h] at hmem
    obtain ⟨part, hpart, hsize⟩ := mem_map.mp hmem
    rw [← hsize, decryptedSize_stream _ (hfits part hpart)]
    exact Bool.false_ne_true
  rw [isEncryptedMultipart, if_neg hlen, hmulti, hok]
  cases hback : oi.backendErasure with
  | true => simpa using hetag hback
  | false => rfl

lemma SseObject.view (h : SseObject sio keys oi stored plain) :
    ∃ parts, View sio keys oi parts stored plain := by
  cases h with
  | multipart parts hne hfits hencrypted hmulti hetag hstored hparts hsize hlt =>
    have hfits' : Fits sio (keyed keys parts) := by
      intro part hpart
      obtain ⟨x, hx, rfl⟩ := mem_map.mp hpart
      exact hfits x hx
    have hsizes : oi.parts.map ObjectPartInfo.size = (keyed keys parts).map fun part =>
        ((sio.cipher.packStream part.1 part.2).length : ℤ) := by
      have hsnd := congrArg (map Prod.snd) hparts
      rw [map_map, map_map] at hsnd
      rw [keyed, map_map]
      exact hsnd
    have hkeys : oi.parts.map (fun part => (keys.partKey part.number, part.size.toNat)) =
        sio.cipher.partSizes (keyed keys parts) := by
      have hmap := congrArg (map fun part => (keys.partKey part.1, part.2.toNat)) hparts
      rw [map_map, map_map] at hmap
      rw [keyed, partSizes, map_map]
      exact hmap
    have hmultipart := isEncryptedMultipart_of_sizes hfits' (by simpa [keyed] using hne) hmulti
      hetag hsizes
    refine ⟨keyed keys parts, ?_, hfits', hencrypted, hstored, rfl, hlt, hsize, ?_, ?_⟩
    · simpa [keyed] using hne
    · rw [ObjectInfo.sizes, hmultipart]
      exact decryptedSizes_eq hfits' hsizes
    · intro seq p input hp hinput
      rw [decryptBlocksRequestR, hmultipart, Bool.not_true, if_neg Bool.false_ne_true]
      rw [map_drop, hkeys, partSizes, partSizes, map_drop]
  | single plain hfits hencrypted hsingle hstored hsize =>
    have hmax := sio.maxSize_le
    have hlt := packedSize_lt hfits
    have hlen : stored.length = sio.cipher.packedSize plain.length := by
      rw [hstored, length_packStream]
    refine ⟨[(keys.objectKey, plain)], cons_ne_nil _ _, ?_, hencrypted, ?_, ?_, ?_, hsize, ?_, ?_⟩
    · intro part hpart
      rw [mem_singleton.mp hpart]
      exact hfits
    · rw [hstored, packParts, map_singleton, flatten_singleton]
    · rw [plainParts, map_singleton, flatten_singleton]
    · rw [hlen]
      exact hlt
    · rw [ObjectInfo.sizes, hsingle, hsize, hstored, decryptedSize_stream _ hfits]
      change ok [int64 plain.length] = _
      rw [int64_eq_self (by omega) (by omega)]
      rfl
    · intro seq p input hp hinput
      obtain rfl : p = 0 := Nat.lt_one_iff.mp hp
      rw [decryptBlocksRequestR, hsingle, Bool.not_false, if_pos rfl, drop_zero,
        partSizes, map_singleton, openParts_singleton]
      change input.length ≤ (sio.cipher.packStream keys.objectKey plain).length - _
      rw [length_packStream]
      omega

/-- What is read of the stored object with a range gives the wanted bytes. -/
structure Reads (sio : SioPkg κ) (keys : ObjectKeys κ) (oi : ObjectInfo) (stored : Bytes)
    (range : DecryptedRange) (length : ℕ) (want : Bytes) : Prop where
  encOff_nonneg : 0 ≤ range.encOff
  encLength_nonneg : 0 ≤ range.encLength
  skipLen_nonneg : 0 ≤ range.skipLen
  inside : range.encOff + range.encLength ≤ stored.length
  decrypts : ∃ dec, decryptBlocksRequestR sio keys oi range.seqNumber range.partStart
      (slice range.encOff.toNat range.encLength.toNat stored) = some dec ∧
    slice range.skipLen.toNat length dec = want

lemma View.reads_all (h : View sio keys oi parts stored plain) :
    Reads sio keys oi stored ⟨0, oi.size, 0, 0, 0⟩ plain.length plain := by
  refine ⟨le_rfl, ?_, le_rfl, ?_, plain, ?_, ?_⟩
  · rw [h.size]
    exact Int.natCast_nonneg _
  · rw [h.size, zero_add]
  · rw [h.decrypt 0 0 _ (length_pos_of_ne_nil h.ne) (by simp [h.size]), h.size]
    change sio.cipher.openParts _ 0 (slice 0 stored.length stored) = _
    rw [slice, drop_zero, drop_zero, take_length, h.stored_eq, openParts_packParts, h.plain_eq]
    rfl
  · exact take_length

lemma View.reads_range (h : View sio keys oi parts stored plain)
    (hrange : off + length ≤ plain.length) (hempty : length = 0 → plain.length = 0) :
    Reads sio keys oi stored (rangeOf sio (plainSizes parts) off length) length
      (slice off length plain) := by
  by_cases hlen : length = 0
  · have hplain := eq_nil_of_length_eq_zero (hempty hlen)
    obtain rfl : off = 0 := by
      omega
    subst hlen
    have hrange := rangeOf_empty sio h.ne (h.plain_eq.symm.trans hplain)
    rw [Nat.cast_zero, hrange]
    refine ⟨le_rfl, le_rfl, le_rfl, by simp, [], ?_, rfl⟩
    rw [h.decrypt 0 0 _ (length_pos_of_ne_nil h.ne) (by simp)]
    exact openParts_nil ..
  · have hbound := h.lt
    rw [h.stored_eq] at hbound
    rw [h.plain_eq] at hrange
    obtain ⟨hpart, hoff, hlen', hskip, hin, dec, hopen, hslice⟩ :=
      rangeOf_opens h.fits hbound (pos_of_ne_zero hlen) hrange rfl
    rw [← h.stored_eq] at hin hopen
    refine ⟨by rw [hoff]; exact Int.natCast_nonneg _, hlen', hskip, hin, dec, ?_, ?_⟩
    · rw [h.decrypt _ _ _ hpart, hopen]
      rw [slice_length]
      omega
    · rw [hslice, h.plain_eq]

/-- For every encrypted object, in parts or not, and every valid range or none: what
`GetDecryptedRange` names lies in the stored object, and decrypting it from package `seqNumber` of
part `partStart` on, skipping `skipLen` bytes and keeping the length of the range gives the range of
the plaintext that `GetOffsetLength` denotes; and this is what the object reader returns. -/
theorem encrypted_range_exact (hobj : SseObject sio keys oi stored plain)
    {rs : Option HTTPRangeSpec} (hrs : ∀ spec, rs = some spec → spec.Valid) {off length : ℤ}
    (h : HTTPRangeSpec.getOffsetLength rs plain.length = .ok (off, length)) :
    ∃ range, getDecryptedRange sio oi rs = .ok range ∧
      Reads sio keys oi stored range length.toNat (slice off.toNat length.toNat plain) ∧
      readEncrypted sio keys oi rs stored = .ok (some (slice off.toNat length.toNat plain)) := by
  obtain ⟨parts, hview⟩ := hobj.view
  have hle := length_plainParts_le sio parts
  have hlt := hview.lt
  rw [← hview.plain_eq, ← hview.stored_eq] at hle
  have hsum : sumSizes (plainSizes parts) = plain.length := by
    rw [hview.plain_eq]
    apply sumSizes_plainSizes
    rw [← hview.plain_eq]
    omega
  obtain ⟨hlength, hoff, hlen, hrange, hempty⟩ := getOffsetLength_bounds hrs (by omega) h
  lift off to ℕ using hoff
  lift length to ℕ using hlen
  have hreads : ∃ range, getDecryptedRange sio oi rs = .ok range ∧
      Reads sio keys oi stored range length (slice off length plain) := by
    cases rs with
    | none =>
      simp only [HTTPRangeSpec.getOffsetLength, Except.ok.injEq, Prod.mk.injEq] at h
      obtain ⟨hzero, hall⟩ := h
      obtain rfl : 0 = off := by exact_mod_cast hzero
      obtain rfl : plain.length = length := by exact_mod_cast hall
      refine ⟨⟨0, oi.size, 0, 0, 0⟩, ?_, ?_⟩
      · rw [getDecryptedRange, hview.encrypted]
        rfl
      · rw [slice, drop_zero, take_length]
        exact hview.reads_all
    | some spec =>
      refine ⟨rangeOf sio (plainSizes parts) off length, ?_, ?_⟩
      · rw [getDecryptedRange, hview.encrypted]
        simp [hview.sizes, hsum, h]
      · exact hview.reads_range (by exact_mod_cast hrange) (by exact_mod_cast hempty)
  obtain ⟨range, hget, hread⟩ := hreads
  refine ⟨range, hget, hread, ?_⟩
  have hsize : oi.decryptedSize sio = .ok (plain.length : ℤ) := by
    rw [ObjectInfo.decryptedSize, hview.encrypted, Bool.not_true, if_neg Bool.false_ne_true,
      hview.sizes, ← hsum]
  obtain ⟨dec, hdec, hslice⟩ := hread.decrypts
  simp [readEncrypted, hget, hsize, hlength, hdec, hslice]

/-! ### A package format -/

/-- What follows a payload: the key and the number of the package. -/
def trailer (k : UInt8) (j : ℕ) : Bytes := [k, UInt8.ofNat j] ++ replicate 30 0

/-- Packages that hold the payload as it is, with a trailer that is checked. -/
def taggedCipher : PackageCipher UInt8 UInt8 where
  payload := packageBlockSize
  overhead := packageMetaSize
  payload_pos := by decide
  pack := fun k j _ p => p ++ trailer k j
  unpack := fun k j p =>
    if p.drop (p.length - packageMetaSize) = trailer k j then
      some (p.take (p.length - packageMetaSize))
    else none
  length_pack := fun k j _ p => by rw [length_append]; rfl
  unpack_pack := fun k j _ p _ _ => by
    have hlen : (p ++ trailer k j).length - packageMetaSize = p.length := by
      rw [length_append]
      exact Nat.add_sub_cancel p.length packageMetaSize
    rw [hlen, drop_left, if_pos rfl, take_left]

/-- The sizes of streams as `sio` computes them. -/
def taggedSio : SioPkg UInt8 where
  cipher := taggedCipher
  maxSize := 2 ^ 48
  encryptedSize := fun n =>
    if n ≤ 2 ^ 48 then .ok (n + 32 * ((n + 65535) / 65536)) else .error .unexpected
  decryptedSize := fun n =>
    if n % 65568 = 0 then .ok (n / 65568 * 65536)
    else if n % 65568 ≤ 32 then .error .unexpected
    else .ok (n / 65568 * 65536 + (n % 65568 - 32))
  payload_eq := rfl
  overhead_eq := rfl
  maxSize_le := le_rfl
  encryptedSize_eq := fun n hn => if_pos hn
  decryptedSize_eq := fun n hn => by
    have hsize : taggedCipher.packedSize n = n + 32 * ((n + 65535) / 65536) := rfl
    split_ifs with h₁ h₂
    · congr 1
      omega
    · omega
    · congr 1
      omega

/-- The keys of an object: part `n` has the key `n`. -/
def numberedKeys : ObjectKeys UInt8 := ⟨0, fun n => UInt8.ofNat n.toNat⟩

/-- An object of two parts, three and two bytes long. -/
def twoParts : ObjectInfo :=
  { size := 69
    parts := [{ number := 1, size := 35 }, { number := 2, size := 34 }]
    etag := "0-2"
    isEncrypted := true
    isMultiPart := true
    backendErasure := true }

/-- The last byte of the first part and the first byte of the second one. -/
theorem encrypted_range_exact_across_parts :
    let stored : Bytes := [1, 2, 3] ++ trailer 1 0 ++ ([4, 5] ++ trailer 2 0)
    SseObject taggedSio numberedKeys twoParts stored [1, 2, 3, 4, 5] ∧
      ∃ range, getDecryptedRange taggedSio twoParts (some ⟨false, 2, 3⟩) = .ok range ∧
        Reads taggedSio numberedKeys twoParts stored range 2 [3, 4] ∧
        readEncrypted taggedSio numberedKeys twoParts (some ⟨false, 2, 3⟩) stored =
          .ok (some [3, 4]) := by
  intro stored
  have hobj : SseObject taggedSio numberedKeys twoParts stored [1, 2, 3, 4, 5] :=
    .multipart [(1, [1, 2, 3]), (2, [4, 5])] (by decide) (by decide) rfl rfl (by decide)
      (by decide +kernel) (by decide +kernel) (by decide +kernel) (by decide +kernel)
  have hvalid : ∀ spec, some (⟨false, 2, 3⟩ : HTTPRangeSpec) = some spec → spec.Valid := by
    intro spec hspec
    rw [← Option.some.inj hspec]
    decide
  exact ⟨hobj, encrypted_range_exact hobj hvalid rfl⟩

end Obstor.Sse
