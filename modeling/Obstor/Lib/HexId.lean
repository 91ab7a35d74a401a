import Mathlib

/-!
# Hexadecimal identifiers in dash-separated groups

`digits k n` is the text of `n` with `k` hexadecimal digits and `value` reads such a text in
either case (`value_digits`). `group` puts a dash between groups of given widths and `ungroup`
takes them out again. `canonical n` is the text of a 128-bit identifier in groups of 8, 4, 4, 4 and
12 digits, and `parseChars` reads it back in four forms.
-/

namespace Obstor.Lib.HexId

open List Option

/-! ### Digits -/

/-- The lower-case digit of a number below 16. -/
def hexDigit (n : ℕ) : Char := if n < 10 then Char.ofNat (48 + n) else Char.ofNat (87 + n)

/-- The value of a digit of either case. -/
def hexValue (c : Char) : Option ℕ :=
  if '0' ≤ c ∧ c ≤ '9' then some (c.toNat - 48)
  else if 'a' ≤ c ∧ c ≤ 'f' then some (c.toNat - 87)
  else if 'A' ≤ c ∧ c ≤ 'F' then some (c.toNat - 55)
  else none

lemma hexValue_hexDigit : ∀ n < 16, hexValue (hexDigit n) = some n := by decide

lemma utf8Size_hexDigit : ∀ n < 16, (hexDigit n).utf8Size = 1 := by decide

/-- The last `k` hexadecimal digits of `n`, most significant first. -/
def digits : ℕ → ℕ → List Char
  | 0, _ => []
  | k + 1, n => digits k (n / 16) ++ [hexDigit (n % 16)]

/-- The number a digit text stands for. -/
def value (cs : List Char) : Option ℕ :=
  cs.foldlM (fun a c => (hexValue c).map (a * 16 + ·)) 0

@[simp] lemma digits_length (k n : ℕ) : (digits k n).length = k := by
  induction k generalizing n with
  | zero => rfl
  | succ k ih => simp [digits, ih]

variable {n : ℕ} {c : Char}

lemma mem_digits {k : ℕ} (h : c ∈ digits k n) : ∃ d < 16, c = hexDigit d := by
  induction k generalizing n with
  | zero => simp [digits] at h
  | succ k ih =>
    rw [digits, mem_append] at h
    rcases h with h | h
    · exact ih h
    · exact ⟨n % 16, Nat.mod_lt _ (by norm_num), mem_singleton.mp h⟩

lemma value_digits (k n : ℕ) : value (digits k n) = some (n % 16 ^ k) := by
  induction k generalizing n with
  | zero =>
    rw [pow_zero, Nat.mod_one]
    rfl
  | succ k ih =>
    have hd := hexValue_hexDigit (n % 16) (Nat.mod_lt _ (by norm_num))
    have hv : value (digits (k + 1) n) =
        (value (digits k (n / 16))).bind fun a => (hexValue (hexDigit (n % 16))).map
          (a * 16 + ·) := by
      unfold value
      rw [digits]
      simp
    rw [hv, ih, hd, pow_succ, mul_comm (16 ^ k) 16, Nat.mod_mul]
    simp only [bind_some, map_some, Option.some.injEq]
    ring

/-! ### Groups -/

/-- Put a dash after each group but the last. -/
def group : List ℕ → List Char → List Char
  | [], cs => cs
  | [_], cs => cs
  | n :: m :: ns, cs => cs.take n ++ '-' :: group (m :: ns) (cs.drop n)

/-- Take the dashes out; every dash must be at its place. -/
def ungroup : List ℕ → List Char → Option (List Char)
  | [], cs => some cs
  | [_], cs => some cs
  | n :: m :: ns, cs =>
    if cs[n]? = some '-' then (ungroup (m :: ns) (cs.drop (n + 1))).map (cs.take n ++ ·)
    else none

lemma ungroup_group (ns : List ℕ) (cs : List Char) (h : ns.sum ≤ cs.length) :
    ungroup ns (group ns cs) = some cs := by
  induction ns generalizing cs with
  | nil => rfl
  | cons n ns ih =>
    cases ns with
    | nil => rfl
    | cons m ns =>
      rw [sum_cons] at h
      have hn : (cs.take n).length = n := length_take_of_le (by omega)
      have hdash : (cs.take n ++ '-' :: group (m :: ns) (cs.drop n))[n]? = some '-' := by
        rw [getElem?_append_right (by omega), hn, Nat.sub_self]
        rfl
      have hrest : (cs.take n ++ '-' :: group (m :: ns) (cs.drop n)).drop (n + 1) =
          group (m :: ns) (cs.drop n) := by
        rw [drop_append, hn]
        simp
      have hhead : (cs.take n ++ '-' :: group (m :: ns) (cs.drop n)).take n = cs.take n :=
        take_left' hn
      rw [group, ungroup, if_pos hdash, hrest, hhead, ih (cs.drop n) (by rw [length_drop]; omega),
        map_some, take_append_drop]

lemma group_length (ns : List ℕ) (cs : List Char) (h : ns.sum ≤ cs.length) :
    (group ns cs).length = cs.length + (ns.length - 1) := by
  induction ns generalizing cs with
  | nil => rfl
  | cons n ns ih =>
    cases ns with
    | nil => rfl
    | cons m ns =>
      rw [sum_cons] at h
      rw [group, length_append, length_cons, ih (cs.drop n) (by rw [length_drop]; omega),
        length_take_of_le (by omega), length_drop]
      simp only [length_cons]
      omega

lemma mem_group {ns : List ℕ} {cs : List Char} (h : c ∈ group ns cs) : c ∈ cs ∨ c = '-' := by
  induction ns generalizing cs with
  | nil => exact Or.inl h
  | cons n ns ih =>
    cases ns with
    | nil => exact Or.inl h
    | cons m ns =>
      rw [group, mem_append, mem_cons] at h
      rcases h with h | h | h
      · exact Or.inl (mem_of_mem_take h)
      · exact Or.inr h
      · exact (ih h).imp_left mem_of_mem_drop

/-! ### 128-bit identifiers -/

def widths : List ℕ := [8, 4, 4, 4, 12]

def canonical (n : ℕ) : List Char := group widths (digits 32 n)

/-- Read the form with dashes. -/
def dashed (cs : List Char) : Option ℕ := (ungroup widths cs).bind value

/-- Read an identifier in one of its four forms, told apart by length. -/
def parseChars (cs : List Char) : Option ℕ :=
  if cs.length = 36 then dashed cs
  else if cs.length = 45 then
    if (cs.take 9).map Char.toLower = ['u', 'r', 'n', ':', 'u', 'u', 'i', 'd', ':'] then
      dashed (cs.drop 9)
    else none
  else if cs.length = 38 then dashed ((cs.drop 1).take 36)
  else if cs.length = 32 then value cs
  else none

@[simp] lemma canonical_length (n : ℕ) : (canonical n).length = 36 := by
  rw [canonical, group_length _ _ (by rw [digits_length]; decide), digits_length]
  rfl

lemma parseChars_canonical (h : n < 2 ^ 128) : parseChars (canonical n) = some n := by
  rw [parseChars, if_pos (canonical_length n), dashed, canonical,
    ungroup_group _ _ (by rw [digits_length]; decide), bind_some, value_digits,
    Nat.mod_eq_of_lt (lt_of_lt_of_eq h (by norm_num))]

lemma utf8Size_of_mem_canonical (h : c ∈ canonical n) : c.utf8Size = 1 := by
  rcases mem_group h with h | rfl
  · obtain ⟨d, hd, rfl⟩ := mem_digits h
    exact utf8Size_hexDigit d hd
  · decide

lemma length_of_parseChars {cs : List Char} (h : parseChars cs = some n) :
    cs.length ∈ [32, 36, 38, 45] := by
  unfold parseChars at h
  split_ifs at h with h₁ h₂ h₃ h₄ h₅ <;> simp_all

end Obstor.Lib.HexId
