import Obstor.Lib.Slice

/-!
# Streams of sealed packages

A stream is cut into payloads of a fixed size, and each payload is sealed into a package that is
longer by a fixed overhead; the number of the package goes into the seal. Packages can be opened one
by one, so a stream can be opened from any package on.
-/

namespace Obstor.Lib

open List Option

/-- A way to seal packages; `last` tells whether the package is the last of its stream. -/
structure PackageCipher (κ α : Type) where
  payload : ℕ
  overhead : ℕ
  payload_pos : 0 < payload
  pack : κ → ℕ → (last : Bool) → List α → List α
  unpack : κ → ℕ → List α → Option (List α)
  length_pack : ∀ k j last p, (pack k j last p).length = p.length + overhead
  unpack_pack : ∀ k j last p, p ≠ [] → p.length ≤ payload → unpack k j (pack k j last p) = some p

namespace PackageCipher

variable {κ α : Type} (E : PackageCipher κ α)

/-- The size of a full package. -/
def size : ℕ := E.payload + E.overhead

def packFrom (k : κ) : ℕ → List (List α) → List (List α)
  | _, [] => []
  | j, p :: ps => E.pack k j ps.isEmpty p :: packFrom k (j + 1) ps

section

variable (k : κ) (data : List α)

def packStream : List α :=
  (E.packFrom k 0 (blocks E.payload data)).flatten

/-- The packages are opened, the first one as number `j`. -/
def openFrom (k : κ) : ℕ → List (List α) → Option (List α)
  | _, [] => some []
  | j, p :: ps => (E.unpack k j p).bind fun x => (openFrom k (j + 1) ps).map (x ++ ·)

/-- A stream is opened, its first package as number `j`. -/
def openStream (j : ℕ) (input : List α) : Option (List α) :=
  E.openFrom k j (blocks E.size input)

def packedSize (n : ℕ) : ℕ := n + E.overhead * blockCount E.payload n

lemma size_pos : 0 < E.size := Nat.add_pos_left E.payload_pos _

/-! ### The packages of a stream -/

lemma length_flatten_packFrom (j : ℕ) (ps : List (List α)) :
    (E.packFrom k j ps).flatten.length = ps.flatten.length + E.overhead * ps.length := by
  induction ps generalizing j with
  | nil => rfl
  | cons p ps ih =>
    rw [packFrom, flatten_cons, length_append, ih, E.length_pack, flatten_cons,
      length_append, length_cons, Nat.mul_succ]
    omega

lemma length_packStream : (E.packStream k data).length = E.packedSize data.length := by
  rw [packStream, length_flatten_packFrom, flatten_blocks E.payload_pos, blocks_length, packedSize]

lemma blocks_packFrom (j : ℕ) (data : List α) :
    blocks E.size (E.packFrom k j (blocks E.payload data)).flatten =
      E.packFrom k j (blocks E.payload data) := by
  induction hn : data.length using Nat.strong_induction_on generalizing data j with
  | _ n ih =>
    by_cases hdata : data = []
    · rw [hdata, blocks_nil E.payload_pos]
      exact blocks_nil E.size_pos
    · have hpos := length_pos_of_ne_nil hdata
      have hb := E.payload_pos
      rw [blocks_cons E.payload_pos hdata, packFrom, flatten_cons]
      have hhead := E.length_pack k j (blocks E.payload (data.drop E.payload)).isEmpty
        (data.take E.payload)
      rw [length_take] at hhead
      by_cases hrest : data.drop E.payload = []
      · -- the last package
        rw [hrest, blocks_nil E.payload_pos, packFrom, flatten_nil, append_nil]
        rw [hrest, blocks_nil E.payload_pos] at hhead
        apply blocks_of_length_le
        · apply ne_nil_of_length_pos
          omega
        · rw [size]
          omega
      · have hlt : E.payload < data.length := by
          by_contra hge
          exact hrest (drop_eq_nil_iff.mpr (by omega))
        have hfull : (E.pack k j (blocks E.payload (data.drop E.payload)).isEmpty
            (data.take E.payload)).length = E.size := by
          rw [size]
          omega
        rw [blocks_cons E.size_pos (by
            apply ne_nil_of_length_pos
            rw [length_append]
            omega),
          take_left' hfull, drop_left' hfull]
        congr 1
        exact ih _ (by rw [length_drop]; omega) (j + 1)
          _ rfl

lemma packFrom_drop (j s : ℕ) (ps : List (List α)) :
    (E.packFrom k j ps).drop s = E.packFrom k (j + s) (ps.drop s) := by
  induction s generalizing j ps with
  | zero => rfl
  | succ s ih =>
    cases ps with
    | nil => rfl
    | cons p ps =>
      rw [packFrom, drop_succ_cons, drop_succ_cons, ih, add_right_comm, add_assoc]

lemma openFrom_packFrom (j n : ℕ) (data : List α) :
    E.openFrom k j ((E.packFrom k j (blocks E.payload data)).take n) =
      some (data.take (n * E.payload)) := by
  induction n generalizing j data with
  | zero => simp [openFrom]
  | succ n ih =>
    by_cases hdata : data = []
    · rw [hdata, blocks_nil E.payload_pos, take_nil]
      rfl
    · have hne : data.take E.payload ≠ [] := by
        intro hnil
        rcases take_eq_nil_iff.mp hnil with h | h
        · exact absurd h E.payload_pos.ne'
        · exact hdata h
      rw [blocks_cons E.payload_pos hdata, packFrom, take_succ_cons, openFrom,
        E.unpack_pack k j _ _ hne (length_take_le _ _), bind_some, ih,
        map_some, Nat.succ_mul, add_comm, take_add]

lemma openStream_slice (s n : ℕ) (data : List α) :
    E.openStream k s (slice (s * E.size) (n * E.size) (E.packStream k data)) =
      some (slice (s * E.payload) (n * E.payload) data) := by
  rw [openStream, slice, ← blocks_take E.size_pos, ← blocks_drop E.size_pos, packStream,
    blocks_packFrom, packFrom_drop, zero_add, blocks_drop E.payload_pos, openFrom_packFrom]
  rfl

end

/-! ### Streams one after the other -/

/-- The streams of parts with keys of their own, one after the other. -/
def packParts (parts : List (κ × List α)) : List (List α) :=
  parts.map fun part => E.packStream part.1 part.2

/-- Parts with the given keys and stream sizes are opened, the first one from package `j` on: each
part gets the input up to the end of its stream. -/
def openParts : List (κ × ℕ) → ℕ → List α → Option (List α)
  | [], _, _ => some []
  | (k, n) :: parts, j, input =>
    (E.openStream k j (input.take (n - j * E.size))).bind fun x =>
      (openParts parts 0 (input.drop (n - j * E.size))).map (x ++ ·)

/-- The keys and stream sizes of parts. -/
def partSizes (parts : List (κ × List α)) : List (κ × ℕ) :=
  parts.map fun part => (part.1, (E.packStream part.1 part.2).length)

lemma openStream_nil (k : κ) (j : ℕ) : E.openStream k j [] = some [] := by
  rw [openStream, blocks_nil E.size_pos]
  rfl

lemma openParts_nil (parts : List (κ × ℕ)) (j : ℕ) : E.openParts parts j [] = some [] := by
  induction parts generalizing j with
  | nil => rfl
  | cons part parts ih =>
    rw [openParts, take_nil, drop_nil, openStream_nil, ih]
    rfl

lemma mul_size_le (k : κ) {s : ℕ} {data : List α} (h : s * E.payload ≤ data.length) :
    s * E.size ≤ (E.packStream k data).length := by
  have hcount : s ≤ blockCount E.payload data.length := by
    refine Nat.le_of_mul_le_mul_left ?_ E.payload_pos
    rw [mul_comm]
    exact h.trans (le_mul_blockCount E.payload_pos _)
  rw [length_packStream, size, mul_add, mul_comm s E.overhead]
  exact add_le_add h (Nat.mul_le_mul_left _ hcount)

lemma openStream_drop (k : κ) (s : ℕ) (data : List α) :
    E.openStream k s ((E.packStream k data).drop (s * E.size)) =
      some (data.drop (s * E.payload)) := by
  have h := E.openStream_slice k s (blockCount E.payload data.length) data
  have hdata : data.length ≤ blockCount E.payload data.length * E.payload := by
    rw [mul_comm]
    exact le_mul_blockCount E.payload_pos _
  have hlen : (E.packStream k data).length ≤ blockCount E.payload data.length * E.size := by
    rw [length_packStream, size, mul_add, mul_comm _ E.overhead]
    exact Nat.add_le_add_right hdata _
  rwa [slice, slice, take_of_length_le (by rw [length_drop]; omega),
    take_of_length_le (by rw [length_drop]; omega)] at h

/-- From package `s` of the first part up to package `e` of part `q`. -/
lemma openParts_slice {parts : List (κ × List α)} {s q e : ℕ} {part : κ × List α}
    (hq : parts[q]? = some part) (hfirst : q = 0 → s ≤ e)
    (hs : ∀ first, parts[0]? = some first → s * E.payload ≤ first.2.length) :
    E.openParts (E.partSizes parts) s (slice (s * E.size) (partStart (E.packParts parts) q +
            min (e * E.size) (E.packStream part.1 part.2).length - s * E.size)
          (E.packParts parts).flatten) =
      some (slice (s * E.payload)
        (partStart (parts.map Prod.snd) q + min (e * E.payload) part.2.length - s * E.payload)
        (parts.map Prod.snd).flatten) := by
  induction parts generalizing s q with
  | nil => cases hq
  | cons first rest ih =>
    have hs₀ := hs first rfl
    have hS := E.mul_size_le first.1 hs₀
    rw [packParts, partSizes, map_cons, map_cons, map_cons, flatten_cons,
      flatten_cons, openParts, ← packParts, ← partSizes]
    cases q with
    | zero =>
      -- the range ends in the first part
      obtain rfl : first = part := Option.some.inj hq
      have hse := hfirst rfl
      have hsize : s * E.size ≤ e * E.size := Nat.mul_le_mul_right _ hse
      have hpayload : s * E.payload ≤ e * E.payload := Nat.mul_le_mul_right _ hse
      rw [partStart_zero, partStart_zero, zero_add, zero_add,
        slice_append_of_le _ (by omega), slice_append_of_le _ (by omega)]
      have hcut : ∀ (o n : ℕ) (l : List α), slice o (min n l.length - o) l = slice o (n - o) l := by
        intro o n l
        rw [slice, slice, take_eq_take_iff, length_drop]
        omega
      rw [hcut, hcut, ← Nat.sub_mul, ← Nat.sub_mul, take_of_length_le (by rw [slice_length]; omega),
        openStream_slice, bind_some, drop_of_length_le (by rw [slice_length]; omega), openParts_nil,
        map_some, append_nil]
    | succ q =>
      have hq : rest[q]? = some part := hq
      have hrest := ih (s := 0) hq (fun _ => Nat.zero_le _) fun _ _ => by
        rw [zero_mul]
        exact Nat.zero_le _
      rw [zero_mul, zero_mul, Nat.sub_zero, Nat.sub_zero] at hrest
      have hsplit : ∀ (o n : ℕ) (l l' : List α), o ≤ l.length →
          slice o (l.length + n - o) (l ++ l') = l.drop o ++ slice 0 n l' := by
        intro o n l l' ho
        rw [slice_append_left _ _ ho, slice, take_of_length_le (by rw [length_drop]; omega)]
        congr 2
        omega
      rw [partStart_cons_succ, partStart_cons_succ, add_assoc, add_assoc, hsplit _ _ _ _ hS, hsplit _ _ _ _ hs₀,
        take_left' length_drop, drop_left' length_drop, openStream_drop,
        bind_some, hrest, map_some]

lemma openParts_packParts (parts : List (κ × List α)) :
    E.openParts (E.partSizes parts) 0 (E.packParts parts).flatten =
      some (parts.map Prod.snd).flatten := by
  induction parts with
  | nil => rfl
  | cons part rest ih =>
    have h := E.openStream_drop part.1 0 part.2
    rw [zero_mul, zero_mul, drop_zero] at h
    rw [partSizes, packParts, map_cons, map_cons, flatten_cons, openParts,
      zero_mul, Nat.sub_zero, take_left, drop_left, ← packParts, ← partSizes, ih, h]
    rfl

lemma openParts_singleton (k : κ) {n j : ℕ} {input : List α} (h : input.length ≤ n - j * E.size) :
    E.openParts [(k, n)] j input = E.openStream k j input := by
  rw [openParts, take_of_length_le h]
  cases E.openStream k j input with
  | none => rfl
  | some x => exact congrArg some (append_nil x)

end PackageCipher

end Obstor.Lib
