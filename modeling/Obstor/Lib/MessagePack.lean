import Mathlib

/-!
# The MessagePack wire format: map headers, strings, byte strings, booleans, unsigned integers

Encoders in the shortest form and decoders that accept every form of the same family, over byte
lists. Each decoder returns the value and the rest of the input, or `none` on a short or wrongly
tagged input. The results are the round trips

`beBytes k n` are the `k` big-endian bytes of `n`.
-/

namespace Obstor.Lib.MessagePack

open List Option

/-! ### Big-endian numbers -/

/-- The `k` low-order bytes of `n`, most significant first. -/
def beBytes : ℕ → ℕ → List UInt8
  | 0, _ => []
  | k + 1, n => beBytes k (n / 256) ++ [UInt8.ofNat n]

/-- The number a big-endian byte list stands for. -/
def ofBe (l : List UInt8) : ℕ := l.foldl (fun a b => a * 256 + b.toNat) 0

@[simp] lemma beBytes_length (k n : ℕ) : (beBytes k n).length = k := by
  induction k generalizing n with
  | zero => rfl
  | succ k ih => simp [beBytes, ih]

lemma ofBe_beBytes (k n : ℕ) : ofBe (beBytes k n) = n % 256 ^ k := by
  induction k generalizing n with
  | zero =>
    rw [pow_zero, Nat.mod_one]
    rfl
  | succ k ih =>
    have h : ofBe (beBytes (k + 1) n) = ofBe (beBytes k (n / 256)) * 256 + n % 256 := by
      unfold ofBe
      rw [beBytes]
      simp
    rw [h, ih, pow_succ, mul_comm (256 ^ k) 256, Nat.mod_mul]
    ring

/-- Take `k` big-endian bytes as a number. -/
def takeBe (k : ℕ) (b : List UInt8) : Option (ℕ × List UInt8) :=
  if b.length < k then none else some (ofBe (b.take k), b.drop k)

/-- Take the next `n` bytes. -/
def takeBytes (n : ℕ) (b : List UInt8) : Option (List UInt8 × List UInt8) :=
  if b.length < n then none else some (b.take n, b.drop n)

variable {n : ℕ}

lemma takeBe_append {k : ℕ} (h : n < 256 ^ k) (rest : List UInt8) :
    takeBe k (beBytes k n ++ rest) = some (n, rest) := by
  have hlen : ¬ (beBytes k n ++ rest).length < k := by
    rw [length_append, beBytes_length]
    omega
  rw [takeBe, if_neg hlen, take_left' (beBytes_length k n),
    drop_left' (beBytes_length k n), ofBe_beBytes, Nat.mod_eq_of_lt h]

lemma takeBe_lead {k : ℕ} {lead : UInt8} {read : List UInt8 → Option (ℕ × List UInt8)}
    (hlead : ∀ b, read (lead :: b) = takeBe k b) (h : n < 256 ^ k) (rest : List UInt8) :
    read (lead :: beBytes k n ++ rest) = some (n, rest) :=
  (hlead _).trans (takeBe_append h rest)

lemma takeBytes_append (s rest : List UInt8) : takeBytes s.length (s ++ rest) = some (s, rest) := by
  have hlen : ¬ (s ++ rest).length < s.length := by
    rw [length_append]
    omega
  rw [takeBytes, if_neg hlen, take_left' rfl, drop_left' rfl]

/-! ### Map headers -/

def encodeMapHeader (n : ℕ) : List UInt8 :=
  if n ≤ 15 then [UInt8.ofNat (0x80 + n)]
  else if n ≤ 65535 then 0xde :: beBytes 2 n
  else 0xdf :: beBytes 4 n

def decodeMapHeader : List UInt8 → Option (ℕ × List UInt8)
  | [] => none
  | lead :: b =>
    if 0x80 ≤ lead.toNat ∧ lead.toNat ≤ 0x8f then some (lead.toNat - 0x80, b)
    else if lead = 0xde then takeBe 2 b
    else if lead = 0xdf then takeBe 4 b
    else none

lemma toNat_ofNat_of_lt (h : n < 256) : (UInt8.ofNat n).toNat = n := by
  exact Nat.mod_eq_of_lt h

lemma decodeMapHeader_encode (h : n < 2 ^ 32) (rest : List UInt8) :
    decodeMapHeader (encodeMapHeader n ++ rest) = some (n, rest) := by
  unfold encodeMapHeader
  split_ifs with h₁ h₂
  · have hlead : (UInt8.ofNat (0x80 + n)).toNat = 0x80 + n := toNat_ofNat_of_lt (by omega)
    rw [singleton_append, decodeMapHeader, hlead, if_pos (by omega), Nat.add_sub_cancel_left]
  · exact takeBe_lead (fun _ => rfl) (by omega) rest
  · exact takeBe_lead (fun _ => rfl) (by omega) rest

/-! ### Strings and byte strings -/

def strHeader (n : ℕ) : List UInt8 :=
  if n ≤ 31 then [UInt8.ofNat (0xa0 + n)]
  else if n ≤ 255 then 0xd9 :: beBytes 1 n
  else if n ≤ 65535 then 0xda :: beBytes 2 n
  else 0xdb :: beBytes 4 n

def encodeStr (s : List UInt8) : List UInt8 := strHeader s.length ++ s

def binHeader (n : ℕ) : List UInt8 :=
  if n ≤ 255 then 0xc4 :: beBytes 1 n
  else if n ≤ 65535 then 0xc5 :: beBytes 2 n
  else 0xc6 :: beBytes 4 n

def encodeBin (s : List UInt8) : List UInt8 := binHeader s.length ++ s

/-- Read a length of `k` bytes and then that many bytes. -/
def takeSized (k : ℕ) (b : List UInt8) : Option (List UInt8 × List UInt8) :=
  (takeBe k b).bind fun p => takeBytes p.1 p.2

variable {s : List UInt8}

lemma takeSized_append {k : ℕ} (h : s.length < 256 ^ k) (rest : List UInt8) :
    takeSized k (beBytes k s.length ++ (s ++ rest)) = some (s, rest) := by
  rw [takeSized, takeBe_append h]
  exact takeBytes_append s rest

def decodeStr : List UInt8 → Option (List UInt8 × List UInt8)
  | [] => none
  | lead :: b =>
    if 0xa0 ≤ lead.toNat ∧ lead.toNat ≤ 0xbf then takeBytes (lead.toNat - 0xa0) b
    else if lead = 0xd9 then takeSized 1 b
    else if lead = 0xda then takeSized 2 b
    else if lead = 0xdb then takeSized 4 b
    else none

def decodeBin : List UInt8 → Option (List UInt8 × List UInt8)
  | [] => none
  | lead :: b =>
    if lead = 0xc4 then takeSized 1 b
    else if lead = 0xc5 then takeSized 2 b
    else if lead = 0xc6 then takeSized 4 b
    else none

def decodeStrHeader : List UInt8 → Option (ℕ × List UInt8)
  | [] => none
  | lead :: b =>
    if 0xa0 ≤ lead.toNat ∧ lead.toNat ≤ 0xbf then some (lead.toNat - 0xa0, b)
    else if lead = 0xd9 then takeBe 1 b
    else if lead = 0xda then takeBe 2 b
    else if lead = 0xdb then takeBe 4 b
    else none

lemma decodeStrHeader_encode (h : n < 2 ^ 32) (rest : List UInt8) :
    decodeStrHeader (strHeader n ++ rest) = some (n, rest) := by
  unfold strHeader
  split_ifs with h₁ h₂ h₃
  · have hlead : (UInt8.ofNat (0xa0 + n)).toNat = 0xa0 + n := toNat_ofNat_of_lt (by omega)
    rw [singleton_append, decodeStrHeader, hlead, if_pos (by omega), Nat.add_sub_cancel_left]
  · exact takeBe_lead (fun _ => rfl) (by omega) rest
  · exact takeBe_lead (fun _ => rfl) (by omega) rest
  · exact takeBe_lead (fun _ => rfl) (by omega) rest

lemma decodeStr_eq (b : List UInt8) :
    decodeStr b = (decodeStrHeader b).bind fun p => takeBytes p.1 p.2 := by
  cases b with
  | nil => rfl
  | cons lead b =>
    rw [decodeStr, decodeStrHeader]
    split_ifs <;> simp [takeSized]

section

variable (h : s.length < 2 ^ 32)

include h

section

variable (rest : List UInt8)

lemma decodeStr_encode : decodeStr (encodeStr s ++ rest) = some (s, rest) := by
  rw [decodeStr_eq, encodeStr, append_assoc, decodeStrHeader_encode h]
  exact takeBytes_append s rest

lemma decodeBin_bin32 :
    decodeBin (0xc6 :: (beBytes 4 s.length ++ (s ++ rest))) = some (s, rest) := by
  rw [decodeBin, if_neg (by decide), if_neg (by decide)]
  exact takeSized_append (by omega) rest

lemma decodeBin_encode : decodeBin (encodeBin s ++ rest) = some (s, rest) := by
  unfold encodeBin binHeader
  rw [append_assoc]
  split_ifs with h₁ h₂
  · rw [cons_append, decodeBin]
    exact takeSized_append (by omega) rest
  · rw [cons_append, decodeBin, if_neg (by decide)]
    exact takeSized_append (by omega) rest
  · exact decodeBin_bin32 h rest

/-- Read a map key: a string, or a byte string in its place. -/
def decodeKey (b : List UInt8) : Option (List UInt8 × List UInt8) :=
  match decodeStr b with
  | some r => some r
  | none => decodeBin b

lemma decodeKey_encode : decodeKey (encodeStr s ++ rest) = some (s, rest) := by
  rw [decodeKey, decodeStr_encode h]

end

end

/-! ### Booleans -/

def encodeBool (b : Bool) : List UInt8 := [if b then 0xc3 else 0xc2]

def decodeBool : List UInt8 → Option (Bool × List UInt8)
  | [] => none
  | lead :: b => if lead = 0xc3 then some (true, b) else if lead = 0xc2 then some (false, b) else none

lemma decodeBool_encode (v : Bool) (rest : List UInt8) :
    decodeBool (encodeBool v ++ rest) = some (v, rest) := by
  cases v <;> rfl

/-! ### Unsigned integers -/

/-- An unsigned integer below `2 ^ 32`. -/
def encodeUint (n : ℕ) : List UInt8 :=
  if n ≤ 127 then [UInt8.ofNat n]
  else if n ≤ 255 then 0xcc :: beBytes 1 n
  else if n ≤ 65535 then 0xcd :: beBytes 2 n
  else 0xce :: beBytes 4 n

def decodeUint : List UInt8 → Option (ℕ × List UInt8)
  | [] => none
  | lead :: b =>
    if lead.toNat ≤ 127 then some (lead.toNat, b)
    else if lead = 0xcc then takeBe 1 b
    else if lead = 0xcd then takeBe 2 b
    else if lead = 0xce then takeBe 4 b
    else none

lemma decodeUint_encode (h : n < 2 ^ 32) (rest : List UInt8) :
    decodeUint (encodeUint n ++ rest) = some (n, rest) := by
  unfold encodeUint
  split_ifs with h₁ h₂ h₃
  · have hlead : (UInt8.ofNat n).toNat = n := toNat_ofNat_of_lt (by omega)
    rw [singleton_append, decodeUint, hlead, if_pos h₁]
  · exact takeBe_lead (fun _ => rfl) (by omega) rest
  · exact takeBe_lead (fun _ => rfl) (by omega) rest
  · exact takeBe_lead (fun _ => rfl) (by omega) rest

/-! ### Readers look at nothing behind the value -/

/-- A reader takes a value off the front of its input: it would read the same value off the same
front before any other bytes. -/
def Consumes {α : Type} (read : List UInt8 → Option (α × List UInt8)) : Prop :=
  ∀ b a rest, read b = some (a, rest) →
    ∃ front, b = front ++ rest ∧ ∀ rest', read (front ++ rest') = some (a, rest')

lemma consumes_takeBytes (n : ℕ) : Consumes (takeBytes n) := by
  intro b a rest h
  rw [takeBytes, ite_none_left_eq_some] at h
  obtain ⟨hlen, h⟩ := h
  cases h
  refine ⟨b.take n, (take_append_drop n b).symm, fun rest' => ?_⟩
  have hn : (b.take n).length = n := length_take_of_le (Nat.le_of_not_lt hlen)
  have happend := takeBytes_append (b.take n) rest'
  rwa [hn] at happend

lemma consumes_takeBe (k : ℕ) : Consumes (takeBe k) := by
  intro b a rest h
  have htake : ∀ b, takeBe k b = (takeBytes k b).map fun p => (ofBe p.1, p.2) := by
    intro b
    rw [takeBe, takeBytes]
    split_ifs <;> rfl
  rw [htake] at h
  obtain ⟨⟨bytes, rest⟩, hbytes, heq⟩ := map_eq_some_iff.mp h
  cases heq
  obtain ⟨front, rfl, hfront⟩ := consumes_takeBytes k b bytes rest hbytes
  refine ⟨front, rfl, fun rest' => ?_⟩
  rw [htake, hfront]
  rfl

lemma Consumes.sized {read : List UInt8 → Option (ℕ × List UInt8)} (h : Consumes read) :
    Consumes fun b => (read b).bind fun p => takeBytes p.1 p.2 := by
  intro b a rest hread
  obtain ⟨⟨n, mid⟩, hn, hbytes⟩ := bind_eq_some_iff.mp hread
  obtain ⟨front, rfl, hfront⟩ := h b n mid hn
  obtain ⟨body, rfl, hbody⟩ := consumes_takeBytes n mid a rest hbytes
  refine ⟨front ++ body, (append_assoc ..).symm, fun rest' => ?_⟩
  simp only [append_assoc, hfront]
  exact hbody rest'

lemma consumes_takeSized (k : ℕ) : Consumes (takeSized k) := (consumes_takeBe k).sized

variable {α : Type} {read : List UInt8 → Option (α × List UInt8)}

lemma consumes_lead
    (hnil : read [] = none) (h : ∀ lead, Consumes fun b => read (lead :: b)) : Consumes read := by
  intro b a rest hread
  cases b with
  | nil =>
    rw [hnil] at hread
    cases hread
  | cons lead b =>
    obtain ⟨front, rfl, hfront⟩ := h lead b a rest hread
    exact ⟨lead :: front, rfl, hfront⟩

lemma consumes_none : Consumes (fun _ : List UInt8 => (none : Option (α × List UInt8))) := by
  intro b a rest h
  cases h

lemma consumes_const (a : α) : Consumes fun b : List UInt8 => some (a, b) := by
  intro b a' rest h
  cases h
  exact ⟨[], rfl, fun _ => rfl⟩

lemma consumes_decodeBin : Consumes decodeBin := by
  refine consumes_lead rfl fun lead => ?_
  simp only [decodeBin]
  split_ifs
  · exact consumes_takeSized 1
  · exact consumes_takeSized 2
  · exact consumes_takeSized 4
  · exact consumes_none

lemma consumes_decodeStrHeader : Consumes decodeStrHeader := by
  refine consumes_lead rfl fun lead => ?_
  simp only [decodeStrHeader]
  split_ifs
  · exact consumes_const _
  · exact consumes_takeBe 1
  · exact consumes_takeBe 2
  · exact consumes_takeBe 4
  · exact consumes_none

lemma consumes_decodeStr : Consumes decodeStr := by
  rw [funext decodeStr_eq]
  exact consumes_decodeStrHeader.sized

lemma consumes_decodeUint : Consumes decodeUint := by
  refine consumes_lead rfl fun lead => ?_
  simp only [decodeUint]
  split_ifs
  · exact consumes_const lead.toNat
  · exact consumes_takeBe 1
  · exact consumes_takeBe 2
  · exact consumes_takeBe 4
  · exact consumes_none

lemma Consumes.eq_none_of_isPrefix
    (h : Consumes read) {enc front : List UInt8} {a : α} (henc : read enc = some (a, []))
    (hfront : front <+: enc) (hne : front ≠ enc) : read front = none := by
  obtain ⟨more, rfl⟩ := hfront
  rw [eq_none_iff_forall_ne_some]
  rintro ⟨a', rest⟩ hread
  obtain ⟨front', rfl, hfront'⟩ := h front a' rest hread
  rw [append_assoc, hfront'] at henc
  have hmore : more = [] := (append_eq_nil_iff.mp (Prod.mk.inj (Option.some.inj henc)).2).2
  exact hne (by rw [hmore, append_nil])

lemma decodeBin_eq_none {b : List UInt8} {r : α × List UInt8}
    (hlead : ∀ b, read (0xc4 :: b) = none ∧ read (0xc5 :: b) = none ∧ read (0xc6 :: b) = none)
    (h : read b = some r) : decodeBin b = none := by
  cases b with
  | nil => rfl
  | cons lead b =>
    have hne : lead ≠ 0xc4 ∧ lead ≠ 0xc5 ∧ lead ≠ 0xc6 := by
      refine ⟨?_, ?_, ?_⟩ <;> rintro rfl <;> simp [hlead b] at h
    rw [decodeBin, if_neg hne.1, if_neg hne.2.1, if_neg hne.2.2]

end Obstor.Lib.MessagePack
