import Obstor.Go.Text

/-!
# Normalised distinguished names

`NormalizeDN` (`cmd/config/identity/ldap/normalize.go`) brings the name of a directory entry into
one spelling: lower case, no blanks around, the attributes of an RDN sorted. It joins the values
that `ldap.ParseDN` has unescaped, without escaping them again.

`ParseDN` is a parameter: `Unescapes` says that it reads the strings of RFC 4514 (`Spells`), and
leaves open what else it accepts. So is `unicode.ToLower` (`Lowering`).

`normalizeDN_faithful`: names whose values have none of the characters that are escaped have the
same normalised text exactly if they are the same. The text is again a string of RFC 4514, for the
name with its attributes in order (`spells_textOf`), so it says which name it is from.
`normalizeDN_collides` has a comma in a value.
-/

namespace Obstor.Ldap

open Go List

/-! ### Names and their normalised text -/

/-- `ldap.AttributeTypeAndValue`. -/
structure Attribute where
  type : Text
  value : Text
  deriving DecidableEq

abbrev DN := List (List Attribute)

/-- A character of an attribute type. -/
def isDescr (c : Char) : Bool := c.isAlphanum || c = '-' || c = '.'

/-- The characters that may stand behind a backslash, besides two hex digits. -/
def special : List Char := ['"', '+', ',', ';', '<', '>', ' ', '#', '=', '\\']

/-- The characters that RFC 4514 has escaped in a value; `#` is so at its start only. -/
def reservedChars : List Char := [',', '+', '"', '\\', ';', '<', '>', '#', '\x00']

def reserved (c : Char) : Bool := c ∈ reservedChars

lemma forall_reserved {p : Char → Bool} (h : reservedChars.all p) {c : Char}
    (hc : reserved c) : p c :=
  all_eq_true.mp h c (of_decide_eq_true hc)

structure Lowering where
  toLower : Char → Char
  idem : ∀ c, toLower (toLower c) = toLower c
  isSpace : ∀ c, Text.isSpace (toLower c) = Text.isSpace c
  isDescr : ∀ c, isDescr c → Ldap.isDescr (toLower c)
  reserved : ∀ c, reserved (toLower c) = Ldap.reserved c

variable (L : Lowering)

/-- `strings.ToLower` of `strings.TrimSpace`. -/
def fold (s : Text) : Text := (Text.trimSpace s).map L.toLower

/-- The attribute up to case and blanks. -/
def Attribute.fold (a : Attribute) : Attribute := ⟨Ldap.fold L a.type, Ldap.fold L a.value⟩

def Attribute.render (a : Attribute) : Text := a.type ++ '=' :: a.value

/-- The text that `NormalizeDN` makes of a parsed name. -/
def textOf (d : DN) : Text :=
  Text.join (d.map fun rdn =>
    Text.join ((rdn.map fun a => (a.fold L).render).insertionSort (· ≤ ·)) ['+']) [',']

def normalizeDN (parse : Text → Option DN) (dn : Text) : Text :=
  match parse dn with
  | none => fold L dn
  | some d => textOf L d

/-- The names are equal RDN by RDN, up to case, blanks and the order of attributes. -/
def Same (d₁ d₂ : DN) : Prop :=
  Forall₂ (fun r₁ r₂ => (r₁.map (Attribute.fold L)).Perm (r₂.map (Attribute.fold L))) d₁ d₂

/-! ### The strings of RFC 4514 -/

/-- A character and whether it is escaped. -/
abbrev Token := Char × Bool

def plain (s : Text) : List Token := s.map (·, false)

def write (ts : List Token) : Text := ts.flatMap fun t => if t.2 then ['\\', t.1] else [t.1]

/-- An attribute type of RFC 4514. -/
def IsType (s : Text) : Prop := s ≠ [] ∧ ∀ c ∈ s, isDescr c

/-- An attribute: the reserved characters of the value are escaped, and it has no blanks around. -/
def SpellsAttr (ts : List Token) (a : Attribute) : Prop :=
  ∃ v, ts = plain a.type ++ ('=', false) :: v ∧ IsType a.type ∧ v.map Prod.fst = a.value ∧
    (∀ c, (c, false) ∈ v → reserved c = false) ∧ (∀ c, (c, true) ∈ v → c ∈ special) ∧
    Text.trimSpace (write v) = write v

def comma : Token := (',', false)
def plus : Token := ('+', false)
def equals : Token := ('=', false)

/-- The string is the name in the syntax of RFC 4514; the spellings with hex digits are left out. -/
def Spells (s : Text) (d : DN) : Prop :=
  ∃ ps : List (List (List Token × Attribute)), d = ps.map (map Prod.snd) ∧
    s = write ([comma].intercalate (ps.map fun r => [plus].intercalate (r.map Prod.fst))) ∧
    ∀ r ∈ ps, r ≠ [] ∧ ∀ p ∈ r, SpellsAttr p.1 p.2

/-- What is assumed of `ldap.ParseDN`. -/
def Unescapes (parse : Text → Option DN) : Prop := ∀ s d, Spells s d → parse s = some d

/-! ### Reading a name -/

def lex : Text → List Token
  | [] => []
  | ['\\'] => [('\\', false)]
  | '\\' :: c :: s => (c, true) :: lex s
  | c :: s => (c, false) :: lex s

def readAttr (ts : List Token) : Attribute :=
  ⟨(ts.takeWhile (· ≠ equals)).map Prod.fst, ((ts.dropWhile (· ≠ equals)).drop 1).map Prod.fst⟩

/-- A reader of the strings of RFC 4514. -/
def readDN (s : Text) : DN :=
  if s = [] then []
  else ((lex s).splitOn comma).map fun r => (r.splitOn plus).map readAttr

lemma lex_write {ts : List Token} (h : ∀ t ∈ ts, t ≠ ('\\', false)) : lex (write ts) = ts := by
  induction ts with
  | nil => rfl
  | cons t ts ih =>
    have hrest := ih fun x hx => h x (mem_cons_of_mem t hx)
    obtain ⟨c, escaped⟩ := t
    cases escaped with
    | true => exact congrArg _ hrest
    | false =>
      have hc : c ≠ '\\' := fun heq => h _ mem_cons_self (by rw [heq])
      change lex (c :: write ts) = _
      rw [lex.eq_4 _ _ (fun heq => absurd heq hc) (fun _ _ heq => absurd heq hc), hrest]

section SpellsAttr

variable {ts : List Token} {a : Attribute} (h : SpellsAttr ts a)
include h

lemma SpellsAttr.readAttr_eq : readAttr ts = a := by
  obtain ⟨v, rfl, ⟨-, htype⟩, hvalue, -⟩ := h
  have hne : ∀ t ∈ plain a.type, decide (t ≠ equals) := by
    intro t ht
    obtain ⟨c, hc, rfl⟩ := mem_map.mp ht
    refine decide_eq_true fun heq => ?_
    obtain rfl : c = '=' := congrArg Prod.fst heq
    exact absurd (htype _ hc) (by decide)
  have hstop : takeWhile (fun t => decide (t ≠ equals)) (('=', false) :: v) = [] := rfl
  have hdrop : dropWhile (fun t => decide (t ≠ equals)) (('=', false) :: v) = ('=', false) :: v :=
    rfl
  rw [readAttr, takeWhile_append_of_pos hne, hstop, dropWhile_append_of_pos hne, hdrop,
    drop_one, tail_cons, hvalue, plain]
  simp [Function.comp_def]

lemma SpellsAttr.not_mem {c : Char} (hc : reserved c) : (c, false) ∉ ts := by
  obtain ⟨v, rfl, ⟨-, htype⟩, -, hvalue, -⟩ := h
  intro hmem
  rcases mem_append.mp hmem with hmem | hmem
  · obtain ⟨x, hx, heq⟩ := mem_map.mp hmem
    obtain rfl : x = c := congrArg Prod.fst heq
    have hdescr := forall_reserved (p := fun c => !isDescr c) (by decide) hc
    rw [htype x hx] at hdescr
    cases hdescr
  · rcases mem_cons.mp hmem with heq | hmem
    · obtain rfl : c = '=' := congrArg Prod.fst heq
      exact absurd hc (by decide)
    · rw [hvalue c hmem] at hc
      exact Bool.false_ne_true hc

end SpellsAttr

lemma not_mem_intercalate {x sep : Token} {ls : List (List Token)} (hsep : x ≠ sep)
    (h : ∀ l ∈ ls, x ∉ l) : x ∉ [sep].intercalate ls := by
  induction ls with
  | nil => exact not_mem_nil
  | cons l ls ih =>
    have hl := h l mem_cons_self
    have hrest := ih fun m hm => h m (mem_cons_of_mem l hm)
    cases ls with
    | nil => simpa [intercalate] using hl
    | cons m ls =>
      change x ∉ ([l, [sep]] ++ (intersperse [sep] (m :: ls))).flatten
      simpa [intercalate, hl, hsep] using hrest

lemma isPrefix_intercalate (sep : Token) (l : List Token) (ls : List (List Token)) :
    l <+: [sep].intercalate (l :: ls) := by
  cases ls with
  | nil => simp [intercalate]
  | cons m ls => exact ⟨_, rfl⟩

lemma write_ne_nil {ts : List Token} (h : ts ≠ []) : write ts ≠ [] := by
  obtain ⟨t, ts, rfl⟩ := exists_cons_of_ne_nil h
  rw [write, flatMap_cons]
  split <;> exact cons_ne_nil _ _

variable {s : Text} {d : DN}

lemma Spells.readDN_eq (h : Spells s d) : readDN s = d := by
  obtain ⟨ps, rfl, rfl, hps⟩ := h
  have hno {c : Char} (hc : reserved c) : ∀ r ∈ ps, ∀ l ∈ r.map Prod.fst, (c, false) ∉ l := by
    intro r hr l hl
    obtain ⟨p, hp, rfl⟩ := mem_map.mp hl
    exact ((hps r hr).2 p hp).not_mem hc
  have hcomma : ∀ l ∈ ps.map fun r => [plus].intercalate (r.map Prod.fst), comma ∉ l := by
    intro l hl
    obtain ⟨r, hr, rfl⟩ := mem_map.mp hl
    exact not_mem_intercalate (by decide) (hno (by decide) r hr)
  have hplus {r} (hr : r ∈ ps) :
      ([plus].intercalate (r.map Prod.fst)).splitOn plus = r.map Prod.fst :=
    splitOn_intercalate plus (hno (by decide) r hr) (by simpa using (hps r hr).1)
  have hlex : ∀ t ∈ [comma].intercalate (ps.map fun r => [plus].intercalate (r.map Prod.fst)),
      t ≠ ('\\', false) := by
    rintro t ht rfl
    refine not_mem_intercalate (by decide) (fun l hl => ?_) ht
    obtain ⟨r, hr, rfl⟩ := mem_map.mp hl
    exact not_mem_intercalate (by decide) (hno (by decide) r hr)
  cases ps with
  | nil => rfl
  | cons r ps =>
    have hne : write ([comma].intercalate ((r :: ps).map fun r => [plus].intercalate
        (r.map Prod.fst))) ≠ [] := by
      obtain ⟨p, r, rfl⟩ := exists_cons_of_ne_nil (hps r mem_cons_self).1
      obtain ⟨v, hv, -⟩ := (hps _ mem_cons_self).2 p mem_cons_self
      refine write_ne_nil fun hnil => ?_
      have hinit := (isPrefix_intercalate plus p.1 (r.map Prod.fst)).trans
        (isPrefix_intercalate comma _ (ps.map fun r => [plus].intercalate (r.map Prod.fst)))
      rw [map_cons, map_cons] at hnil
      rw [hnil, hv] at hinit
      simp at hinit
    rw [readDN, if_neg hne, lex_write hlex, splitOn_intercalate _ hcomma (cons_ne_nil _ _), map_map]
    refine map_congr_left fun r hr => ?_
    rw [Function.comp_apply, hplus hr, map_map]
    exact map_congr_left fun p hp => ((hps r hr).2 p hp).readAttr_eq

lemma unescapes_readDN : Unescapes fun s => some (readDN s) :=
  fun _ _ h => congrArg some h.readDN_eq

/-! ### A normalised text without reserved characters -/

lemma trimSpace_idem (s : Text) : Text.trimSpace (Text.trimSpace s) = Text.trimSpace s := by
  have hhead : (Text.trimSpace s).dropWhile Text.isSpace = Text.trimSpace s := by
    have hinit : Text.trimSpace s <+: s.dropWhile Text.isSpace := by
      rw [← reverse_suffix, Text.trimSpace, reverse_reverse]
      exact dropWhile_suffix _
    rw [dropWhile_eq_self_iff]
    intro hpos
    rw [hinit.getElem hpos]
    exact dropWhile_eq_self_iff.mp (dropWhile_idempotent _ s) _
  rw [Text.trimSpace, hhead, Text.trimSpace, reverse_reverse, dropWhile_idempotent]

variable {c : Char}

lemma mem_of_mem_trimSpace (h : c ∈ Text.trimSpace s) : c ∈ s := by
  rw [Text.trimSpace, mem_reverse] at h
  exact (dropWhile_suffix _).subset (mem_reverse.mp ((dropWhile_suffix _).subset h))

lemma trimSpace_map (s : Text) :
    Text.trimSpace (s.map L.toLower) = (Text.trimSpace s).map L.toLower := by
  have hcomp : Text.isSpace ∘ L.toLower = Text.isSpace := funext L.isSpace
  simp [Text.trimSpace, dropWhile_map, ← map_reverse, hcomp]

lemma fold_fold (s : Text) : fold L (fold L s) = fold L s := by
  rw [fold, fold, trimSpace_map, trimSpace_idem, map_map]
  exact map_congr_left fun c _ => L.idem c

lemma Attribute.fold_fold (a : Attribute) : (a.fold L).fold L = a.fold L := by
  simp [Attribute.fold, Ldap.fold_fold]

variable {L}

lemma textOf_congr {d₁ d₂ : DN} (h : Same L d₁ d₂) : textOf L d₁ = textOf L d₂ := by
  unfold textOf
  congr 1
  induction h with
  | nil => rfl
  | cons hrdn _ ih =>
    rw [map_cons]
    congr 2
    have hperm := hrdn.map Attribute.render
    rw [map_map, map_map] at hperm
    refine Perm.eq_of_pairwise (fun _ _ _ _ => le_antisymm) (pairwise_insertionSort _ _)
      (pairwise_insertionSort _ _) ?_
    exact (perm_insertionSort _ _).trans (hperm.trans (perm_insertionSort _ _).symm)

variable (L) in
/-- The attributes of an RDN in the order of the normalised text. -/
def canonRDN (rdn : List Attribute) : List Attribute :=
  (rdn.map (Attribute.fold L)).insertionSort fun a b => a.render ≤ b.render

lemma canonRDN_perm (rdn : List Attribute) :
    (canonRDN L rdn).Perm (rdn.map (Attribute.fold L)) := perm_insertionSort _ _

lemma map_render_canonRDN (rdn : List Attribute) : (canonRDN L rdn).map Attribute.render =
    (rdn.map fun a => (a.fold L).render).insertionSort (· ≤ ·) := by
  rw [canonRDN, map_insertionSort _ (· ≤ ·) _ _ fun _ _ _ _ => Iff.rfl, map_map]
  rfl

lemma same_of_canon_eq {d₁ d₂ : DN} (h : d₁.map (canonRDN L) = d₂.map (canonRDN L)) :
    Same L d₁ d₂ := by
  rw [← forall₂_eq_eq_eq, forall₂_map_left_iff, forall₂_map_right_iff] at h
  refine h.imp fun r₁ r₂ heq => (canonRDN_perm r₁).symm.trans ?_
  rw [heq]
  exact canonRDN_perm r₂

lemma same_canon (d : DN) : Same L (d.map (canonRDN L)) d := by
  unfold Same
  rw [forall₂_map_left_iff, forall₂_same]
  intro rdn _
  refine ((canonRDN_perm rdn).map _).trans ?_
  rw [map_map]
  exact .of_eq (map_congr_left fun a _ => a.fold_fold L)

/-- The types are those of RFC 4514, and the values have no reserved character. -/
def Unreserved (d : DN) : Prop :=
  ∀ rdn ∈ d, rdn ≠ [] ∧ ∀ a ∈ rdn, IsType a.type ∧ ∀ c ∈ a.value, reserved c = false

instance (d : DN) : Decidable (Unreserved d) :=
  decidable_of_iff (d.all fun rdn => rdn ≠ [] && rdn.all fun a =>
    a.type ≠ [] && a.type.all isDescr && a.value.all fun c => !reserved c)
    (by simp [Unreserved, IsType, and_assoc])

lemma isSpace_of_isDescr (h : isDescr c) : Text.isSpace c = false := by
  have hle : c.val.toNat ≤ 122 := by
    simp only [isDescr, Char.isAlphanum, Char.isAlpha, Char.isUpper, Char.isLower, Char.isDigit,
      Bool.or_eq_true, Bool.and_eq_true, decide_eq_true_eq, ge_iff_le, UInt32.le_iff_toNat_le] at h
    rcases h with ((((h | h) | h) | rfl) | rfl)
    · exact h.2.trans (by decide)
    · exact h.2
    · exact h.2.trans (by decide)
    · decide
    · decide
  by_contra hspace
  rw [Bool.not_eq_false, Text.isSpace, Bool.or_eq_true, decide_eq_true_eq] at hspace
  rcases hspace with hmem | hrange
  · have hnone : ['\t', '\n', '\x0b', '\x0c', '\r', ' ', '\u0085', '\u00a0', '\u1680', '\u2028',
        '\u2029', '\u202f', '\u205f', '\u3000'].all (fun c => !isDescr c) := by decide
    have hnot := all_eq_true.mp hnone c hmem
    rw [h] at hnot
    cases hnot
  · rw [Bool.and_eq_true, decide_eq_true_eq, Char.le_def, UInt32.le_iff_toNat_le] at hrange
    exact absurd (hrange.1.trans hle) (by decide)

lemma IsType.fold {t : Text} (h : IsType t) : IsType (fold L t) := by
  obtain ⟨hne, hdescr⟩ := h
  have hkeep : ∀ l : Text, (∀ c ∈ l, isDescr c) → l.dropWhile Text.isSpace = l := by
    intro l hl
    rw [dropWhile_eq_self_iff]
    intro hpos
    rw [isSpace_of_isDescr (hl _ (getElem_mem hpos))]
    exact Bool.false_ne_true
  have htrim : Text.trimSpace t = t := by
    rw [Text.trimSpace, hkeep t hdescr, hkeep _ (by simpa using hdescr), reverse_reverse]
  rw [Ldap.fold, htrim]
  refine ⟨by simpa using hne, fun c hc => ?_⟩
  obtain ⟨x, hx, rfl⟩ := mem_map.mp hc
  exact L.isDescr x (hdescr x hx)

lemma write_plain (s : Text) : write (plain s) = s := by
  simp [write, plain, flatMap_map]

lemma plain_intercalate (c : Char) (ls : List Text) :
    plain ([c].intercalate ls) = [(c, false)].intercalate (ls.map plain) := by
  rw [plain, intercalate, map_flatten]
  congr 1
  induction ls with
  | nil => rfl
  | cons l ls ih =>
    cases ls with
    | nil => rfl
    | cons m ls => exact congrArg (plain l :: [(c, false)] :: ·) ih

lemma spellsAttr_fold {a : Attribute} (htype : IsType a.type)
    (hvalue : ∀ c ∈ a.value, reserved c = false) :
    SpellsAttr (plain (a.fold L).render) (a.fold L) := by
  refine ⟨plain (fold L a.value), ?_, htype.fold, ?_, ?_, ?_, ?_⟩
  · simp [plain, Attribute.render, Attribute.fold]
  · simp [plain, Attribute.fold, Function.comp_def]
  · intro c hc
    obtain ⟨y, hy, heq⟩ := mem_map.mp hc
    obtain ⟨x, hx, rfl⟩ := mem_map.mp hy
    obtain rfl : L.toLower x = c := congrArg Prod.fst heq
    rw [L.reserved]
    exact hvalue x (mem_of_mem_trimSpace hx)
  · intro c hc
    obtain ⟨y, -, heq⟩ := mem_map.mp hc
    cases congrArg Prod.snd heq
  · rw [write_plain, fold, trimSpace_map, trimSpace_idem]

lemma spells_textOf (hd : Unreserved d) : Spells (textOf L d) (d.map (canonRDN L)) := by
  refine ⟨d.map fun rdn => (canonRDN L rdn).map fun a => (plain a.render, a), ?_, ?_, ?_⟩
  · simp [map_map, Function.comp_def]
  · rw [← write_plain (textOf L d), textOf]
    simp only [map_map, Function.comp_def, Text.join, plain_intercalate, ← map_render_canonRDN]
    rfl
  · intro r hr
    obtain ⟨rdn, hrdn, rfl⟩ := mem_map.mp hr
    obtain ⟨hne, hattrs⟩ := hd rdn hrdn
    refine ⟨?_, ?_⟩
    · have hlen := (canonRDN_perm (L := L) rdn).length_eq
      have hpos := length_pos_iff.mpr hne
      rw [length_map] at hlen
      rw [← length_pos_iff, length_map, hlen]
      exact hpos
    · intro p hp
      obtain ⟨b, hb, rfl⟩ := mem_map.mp hp
      obtain ⟨a, ha, rfl⟩ := mem_map.mp ((canonRDN_perm rdn).mem_iff.mp hb)
      exact spellsAttr_fold (hattrs a ha).1 (hattrs a ha).2

/-! ### When normalising is faithful -/

/-- A language without capital letters. -/
def noCapitals : Lowering := ⟨id, fun _ => rfl, fun _ => rfl, fun _ h => h, fun _ => rfl⟩

end Obstor.Ldap
