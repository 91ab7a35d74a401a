import Obstor.Lib.Lex
import Obstor.Metacache.Stream

/-!
# Reading a stream is reading a list

`ListReader` is what a reader is for: a list of entries, with the calls on the list itself. Where the
list ends, a call returns `fin`, and every later call returns it again. `Stands` says where in its
stream a reader stands, and the calls keep it. The ways in which a stream may break off are `Ending`.
-/

namespace Obstor.Metacache

open Go Meta List MetaCacheEntry

/-! ### The calls on a list -/

/-- The entries that are left, and the error that is returned from now on. -/
structure ListReader where
  left : List MetaCacheEntry
  err : Option StreamErr := none

namespace ListReader

variable (P : Packages) (K : Marshaller) (fin : StreamErr)

/-- Behind the last entry. -/
def ended : ListReader := { left := [], err := some fin }

def peek (s : ListReader) : (MetaCacheEntry × Option StreamErr) × ListReader :=
  match s.err, s.left with
  | some err, _ => ((noEntry, some err), s)
  | none, [] => ((noEntry, some fin), ended fin)
  | none, e :: _ => ((e, none), s)

/-- The first entry is taken off. -/
def next (s : ListReader) : (MetaCacheEntry × Option StreamErr) × ListReader :=
  match s.err, s.left with
  | some err, _ => ((noEntry, some err), s)
  | none, [] => ((noEntry, some fin), ended fin)
  | none, e :: left => ((e, none), { left := left })

/-- `n` entries are taken off. -/
def skip (n : ℤ) (s : ListReader) : Option StreamErr × ListReader :=
  match s.err with
  | some err => (some err, s)
  | none =>
    if n ≤ s.left.length then (none, { left := s.left.drop n.toNat }) else (some fin, ended fin)

/-- The entries before `key` are taken off; there has to be another one. -/
def forwardTo (key : Bytes) (s : ListReader) : Option StreamErr × ListReader :=
  match s.err with
  | some err => (some err, s)
  | none =>
    if key = [] then (none, s)
    else
      match s.left.dropWhile fun e => e.name < key with
      | [] => (some fin, ended fin)
      | e :: left => (none, { left := e :: left })

/-- The names of `n` entries, or of all. -/
def readNames (n : ℤ) (s : ListReader) : (List Bytes × Option StreamErr) × ListReader :=
  match s.err with
  | some err => (([], some err), s)
  | none =>
    if 0 ≤ n ∧ n ≤ s.left.length then
      (((s.left.take n.toNat).map MetaCacheEntry.name, none), { left := s.left.drop n.toNat })
    else ((s.left.map MetaCacheEntry.name, some fin), ended fin)

/-- Entries with the name `pre...` are collected, until there are `n` of them. -/
def collect (keep : MetaCacheEntry → Bool) (n : ℤ) (pre : Bytes) :
    List MetaCacheEntry → List MetaCacheEntry →
      (List MetaCacheEntry × Option StreamErr) × ListReader
  | res, [] => if n < 0 ∨ (res.length : ℤ) < n then ((res, some fin), ended fin) else ((res, none), ⟨[], none⟩)
  | res, e :: left =>
    if n < 0 ∨ (res.length : ℤ) < n then
      if !e.hasPrefix pre then ((res, some .eof), { left := left })
      else collect keep n pre (if keep e then res ++ [e] else res) left
    else ((res, none), ⟨e :: left, none⟩)

/-- `n` entries, or all, from the first that is not before `pre` up to the last with this prefix. -/
def readN (n : ℤ) (inclDeleted inclDirs : Bool) (pre : Bytes) (s : ListReader) :
    (List MetaCacheEntry × Option StreamErr) × ListReader :=
  if n = 0 then (([], none), s)
  else
    match s.forwardTo fin pre with
    | (some err, s) => (([], some err), s)
    | (none, s) =>
      match s.left with
      | [] => (([], some fin), ended fin)
      | e :: left =>
        if !e.hasPrefix pre then (([], some .eof), s)
        else
          collect fin (MetacacheReader.keeps P K inclDeleted inclDirs) n pre
            (if MetacacheReader.keeps P K inclDeleted inclDirs e then [e] else []) left

def run (s : ListReader) : ReaderCall → Answer × ListReader
  | .peek => let a := s.peek fin; ({ entries := [a.1.1], err := a.1.2 }, a.2)
  | .next => let a := s.next fin; ({ entries := [a.1.1], err := a.1.2 }, a.2)
  | .skip n => let a := s.skip fin n; ({ err := a.1 }, a.2)
  | .forwardTo key => let a := s.forwardTo fin key; ({ err := a.1 }, a.2)
  | .readN n inclDeleted inclDirs pre =>
    let a := s.readN P K fin n inclDeleted inclDirs pre
    ({ entries := a.1.1, err := a.1.2 }, a.2)
  | .readNames n => let a := s.readNames fin n; ({ names := a.1.1, err := a.1.2 }, a.2)

def answers (s : ListReader) : List ReaderCall → List Answer
  | [] => []
  | c :: cs => (s.run P K fin c).1 :: answers (s.run P K fin c).2 cs

end ListReader

/-! ### Where a reader stands -/

/-- An entry that the format can hold: it has a name, and no string is longer than a length field can
say. -/
structure MetaCacheEntry.Fits (e : MetaCacheEntry) : Prop where
  name_ne_nil : e.name ≠ []
  name_length : e.name.length < 2 ^ 32
  metadata_length : e.metadata.length < 2 ^ 32

variable {M : MsgpStream}

def body (M : MsgpStream) (es : List MetaCacheEntry) : Bytes :=
  es.flatMap (MetacacheWriter.entryBytes M)

@[simp] lemma body_nil : body M [] = [] := rfl

lemma body_cons (e : MetaCacheEntry) (es : List MetaCacheEntry) :
    body M (e :: es) = MetacacheWriter.entryBytes M e ++ body M es :=
  flatMap_cons

lemma body_append (es es' : List MetaCacheEntry) : body M (es ++ es') = body M es ++ body M es' :=
  flatMap_append

/-- What may stand behind the last entry of a stream for the end of the list to be told from a stream
that breaks off: the closing `false`, or, in a stream that breaks off, nothing at all or the first part
of an entry. A stream must not break off right behind a `true`, nor where `ReadBytes` takes the
metadata for missing. `names` is the name of the entry that is incomplete, once it can be read. -/
inductive Ending (M : MsgpStream) : Bool → List Bytes → Bytes → Prop
  | closed : Ending M true [] (M.writeBool false)
  | cut : Ending M false [] []
  | inName (name front : Bytes) : name.length < 2 ^ 32 → front <+: M.writeString name →
      front ≠ M.writeString name → front ≠ [] → Ending M false [] (M.writeBool true ++ front)
  | inMetadata (e : MetaCacheEntry) (front : Bytes) : e.Fits → front <+: M.writeBytes e.metadata →
      front ≠ M.writeBytes e.metadata → (M.readBytes front).1 ≠ .error .eof →
      Ending M false [e.name] (M.writeBool true ++ (M.writeString e.name ++ front))

/-- The reader stands before the entries that are left, with the first of them read ahead or not. -/
structure Stands (M : MsgpStream) (tail : Bytes) (r : MetacacheReader) (s : ListReader) : Prop where
  created : r.creator = false
  err : r.err = s.err
  fits : ∀ e ∈ s.left, e.Fits
  before : s.err = none → (r.current.name = [] ∧ r.mr = body M s.left ++ tail) ∨
      ∃ left, s.left = r.current :: left ∧ r.mr = body M left ++ tail

namespace MetacacheReader

variable {r : MetacacheReader} {tail rest : Bytes} {keep closed : Bool} {names : List Bytes}
  {e : MetaCacheEntry} {left : List MetaCacheEntry}

lemma checkInit_of_created (h : r.creator = false) : r.checkInit M = r := by
  rw [checkInit, h]
  rfl

/-! ### One element -/

lemma more_true (h : r.mr = M.writeBool true ++ rest) :
    r.more M keep = (none, { r with mr := rest }) := by
  rw [more, h, (M.bool true).whole]

lemma more_false (h : r.mr = M.writeBool false) :
    r.more M keep = (some .eof, { r with mr := [], err := some .eof }) := by
  have hread := (M.bool false).whole []
  rw [append_nil] at hread
  rw [more, h, hread]

lemma more_nil (h : r.mr = []) :
    ∃ mr, r.more M keep = (some .unexpectedEOF, { r with mr := mr, err := some .unexpectedEOF }) := by
  have hread := (M.bool true).before
  refine ⟨(M.readBool []).2, ?_⟩
  rw [more, h]
  generalize M.readBool [] = res at hread ⊢
  obtain ⟨res, mr⟩ := res
  subst hread
  rfl

variable {α : Type}

section

variable {read : Bytes → Except StreamErr α × Bytes}

lemma element_whole {enc : Bytes} {a : α}
    {c : Bool} (hread : Element read enc a) (r : MetacacheReader) (rest : Bytes) :
    element c read { r with mr := enc ++ rest } = (.ok a, { r with mr := rest }) := by
  rw [element, hread.whole]

lemma element_fails {err : StreamErr}
    (convert : Bool) (hread : (read r.mr).1 = .error err) (hne : convert ∨ err ≠ .eof) :
    ∃ err mr, err ≠ .eof ∧
      r.element convert read = (.error err, { r with mr := mr, err := some err }) := by
  refine ⟨if convert ∧ err = .eof then .unexpectedEOF else err, (read r.mr).2, ?_, ?_⟩
  · split_ifs with h
    · decide
    · rintro rfl
      rcases hne with rfl | hne
      · exact h ⟨rfl, rfl⟩
      · exact hne rfl
  · rw [element]
    generalize read r.mr = res at hread ⊢
    obtain ⟨res, mr⟩ := res
    subst hread
    rfl

lemma element_eof (hread : (read r.mr).1 = .error .eof) :
    ∃ mr, r.element false read = (.error .eof, { r with mr := mr, err := some .eof }) := by
  refine ⟨(read r.mr).2, ?_⟩
  rw [element]
  generalize read r.mr = res at hread ⊢
  obtain ⟨res, mr⟩ := res
  subst hread
  rfl

end

/-! ### One entry -/

lemma mr_entry (h : r.mr = body M (e :: left) ++ tail) : r.mr = M.writeBool true ++
      (M.writeString e.name ++ (M.writeBytes e.metadata ++ (body M left ++ tail))) := by
  rw [h, body_cons, MetacacheWriter.entryBytes]
  simp

lemma length_lt_of_mr (h : r.mr = body M left ++ tail) : left.length < r.mr.length + 1 := by
  have hbody : ∀ es : List MetaCacheEntry, es.length ≤ (body M es).length := by
    intro es
    induction es with
    | nil => exact le_refl 0
    | cons e es ih =>
      rw [body_cons, MetacacheWriter.entryBytes, length_cons, length_append,
        length_append, M.writeBool_length]
      omega
  have hleft := hbody left
  rw [h, length_append]
  omega

lemma end_entry {β : Type} {c : Bool} {readName : Bytes → Except StreamErr α × Bytes}
    {readMeta : Bytes → Except StreamErr β × Bytes} {a : Bytes → α} {b : Bytes → β}
    (hname : ∀ name, name.length < 2 ^ 32 → Element readName (M.writeString name) (a name))
    (hmeta : ∀ s, s.length < 2 ^ 32 → Element readMeta (M.writeBytes s) (b s))
    (heof : c ∨ ∀ name front, name.length < 2 ^ 32 → front <+: M.writeString name →
      front ≠ [] → (readName front).1 ≠ .error .eof)
    (hend : Ending M closed names tail) (h : r.mr = tail) :
    ∃ err, (err = .eof ↔ closed) ∧
      ((∃ mr, r.more M keep = (some err, { r with mr := mr, err := some err })) ∨
        closed = false ∧ ∃ rest, r.more M keep = (none, { r with mr := rest }) ∧
          ((∃ mr, element c readName { r with mr := rest } =
              (.error err, { r with mr := mr, err := some err })) ∨
            ∃ name rest' mr, names = [name] ∧
              element c readName { r with mr := rest } = (.ok (a name), { r with mr := rest' }) ∧
              element true readMeta { r with mr := rest' } =
                (.error err, { r with mr := mr, err := some err }))) := by
  cases hend with
  | closed => exact ⟨.eof, by simp, .inl ⟨_, more_false h⟩⟩
  | cut => exact ⟨.unexpectedEOF, by decide, .inl (more_nil h)⟩
  | inName name front hlen hfront hproper hne =>
    obtain ⟨err, herr⟩ := (hname name hlen).inside front hfront hproper
    obtain ⟨err, mr, hne, hel⟩ := element_fails (r := { r with mr := front }) c herr
      (heof.imp_right fun heof heq => heof name front hlen hfront hne (heq ▸ herr))
    exact ⟨err, by simp [hne], .inr ⟨rfl, front, more_true h, .inl ⟨mr, hel⟩⟩⟩
  | inMetadata e front he hfront hproper _ =>
    obtain ⟨err, herr⟩ := (hmeta e.metadata he.metadata_length).inside front hfront hproper
    obtain ⟨err, mr, hne, hel⟩ := element_fails (r := { r with mr := front }) true herr (.inl rfl)
    refine ⟨err, by simp [hne], .inr ⟨rfl, _, more_true h, .inr ⟨e.name, front, mr, rfl, ?_, hel⟩⟩⟩
    exact element_whole (hname e.name he.name_length) r front

/-! ### The calls -/

section Calls

variable {s : ListReader} {fin : StreamErr}

lemma stands_ended (hcreated : r.creator = false) (herr : r.err = some fin) :
    Stands M tail r (ListReader.ended fin) :=
  ⟨hcreated, herr, fun _ he => (nomatch he), fun h => (nomatch h)⟩

/-- The reader stands before `left`, with no entry read ahead. -/
structure Clear (M : MsgpStream) (tail : Bytes) (r : MetacacheReader) (left : List MetaCacheEntry) :
    Prop where
  created : r.creator = false
  err : r.err = none
  name : r.current.name = []
  fits : ∀ e ∈ left, e.Fits
  mr : r.mr = body M left ++ tail

lemma Clear.stands (h : Clear M tail r left) : Stands M tail r { left := left } :=
  ⟨h.created, h.err, h.fits, fun _ => .inl ⟨h.name, h.mr⟩⟩

lemma Clear.behind (h : Clear M tail r (e :: left)) :
    Clear M tail { r with mr := body M left ++ tail } left :=
  ⟨h.created, h.err, h.name, (forall_mem_cons.mp h.fits).2, rfl⟩

lemma stands_ahead (hfits : r.current.Fits) (h : Clear M tail r.dropCurrent left) :
    Stands M tail r { left := r.current :: left } :=
  ⟨h.created, h.err, forall_mem_cons.mpr ⟨hfits, h.fits⟩, fun _ => .inr ⟨left, rfl, h.mr⟩⟩

lemma clear_or_ahead (hr : Stands M tail r { left := left }) :
    Clear M tail r left ∨ ∃ left', left = r.current :: left' ∧ r.current.Fits ∧
      Clear M tail r.dropCurrent left' := by
  obtain ⟨hcreated, herr, hfits, hbefore⟩ := hr
  rcases hbefore rfl with ⟨hname, hmr⟩ | ⟨left', hleft, hmr⟩
  · exact .inl ⟨hcreated, herr, hname, hfits, hmr⟩
  · obtain rfl : left = r.current :: left' := hleft
    obtain ⟨hfits, hrest⟩ := forall_mem_cons.mp hfits
    exact .inr ⟨left', rfl, hfits, hcreated, herr, rfl, hrest, hmr⟩

lemma exists_fin (closed : Bool) : ∃ fin : StreamErr, (fin = .eof ↔ closed) :=
  ⟨if closed then .eof else .unexpectedEOF, by cases closed <;> decide⟩

/-- The call does what it does on a list, with an end of the stream that fits. -/
abbrev Follows (M : MsgpStream) (tail : Bytes) (closed : Bool) (call : α × MetacacheReader)
    (onList : StreamErr → α × ListReader) : Prop :=
  ∃ fin, (fin = .eof ↔ closed = true) ∧ call.1 = (onList fin).1 ∧
    Stands M tail call.2 (onList fin).2

lemma peek_cons (hr : Stands M tail r { left := e :: left }) :
    ∃ r', r.peek M = ((e, none), r') ∧ r'.current = e ∧ e.Fits ∧
      Clear M tail r'.dropCurrent left := by
  rw [peek, checkInit_of_created hr.created, hr.err]
  rcases clear_or_ahead hr with h | ⟨left', hleft, hfits, h⟩
  · obtain ⟨he, hrest⟩ := forall_mem_cons.mp h.fits
    simp only [ne_eq, h.name, not_true, if_false, more_true (mr_entry h.mr),
      element_whole (M.read_writeString he.name_length),
      element_whole (M.bytes e.metadata he.metadata_length)]
    exact ⟨_, rfl, rfl, he, h.created, h.err, rfl, hrest, rfl⟩
  · obtain ⟨rfl, rfl⟩ := cons_eq_cons.mp hleft
    simp only [if_pos hfits.name_ne_nil]
    exact ⟨r, rfl, rfl, hfits, h⟩

lemma peek_stands (hr : Stands M tail r s) (hend : Ending M closed names tail) :
    ∃ fin, (fin = .eof ↔ closed) ∧ (r.peek M).1.2 = (s.peek fin).1.2 ∧
      (closed → (r.peek M).1 = (s.peek fin).1) ∧
      Stands M tail (r.peek M).2 (s.peek fin).2 := by
  obtain ⟨fin', hfin'⟩ := exists_fin closed
  obtain ⟨left, err⟩ := s
  cases err with
  | some err =>
    rw [peek, checkInit_of_created hr.created, hr.err]
    exact ⟨fin', hfin', rfl, fun _ => rfl, hr⟩
  | none =>
    cases left with
    | nil =>
      rcases clear_or_ahead hr with h | ⟨left', hleft, -⟩
      · rw [peek, checkInit_of_created hr.created, hr.err]
        simp only [ne_eq, h.name, not_true, if_false]
        obtain ⟨fin, hfin, hcases⟩ := end_entry M.string M.bytes (.inl rfl) hend h.mr
        refine ⟨fin, hfin, ?_⟩
        rcases hcases with ⟨mr, hmore⟩ | ⟨hopen, rest, hmore, ⟨mr, hname⟩ |
          ⟨name, rest', mr, -, hname, hbytes⟩⟩
        · rw [hmore]
          exact ⟨rfl, fun _ => rfl, stands_ended hr.created rfl⟩
        · simp only [hmore, hname]
          exact ⟨rfl, fun _ => rfl, stands_ended hr.created rfl⟩
        · simp only [hmore, hname, hbytes]
          exact ⟨rfl, by simp [hopen], stands_ended hr.created rfl⟩
      · cases hleft
    | cons e left =>
      obtain ⟨r', hpeek, rfl, hfits, h⟩ := peek_cons hr
      rw [hpeek]
      exact ⟨fin', hfin', rfl, fun _ => rfl, stands_ahead hfits h⟩

lemma next_stands (hr : Stands M tail r s) (hend : Ending M closed names tail) :
    ∃ fin, (fin = .eof ↔ closed) ∧ (r.next M).1.2 = (s.next fin).1.2 ∧
      (closed → (r.next M).1 = (s.next fin).1) ∧
      Stands M tail (r.next M).2 (s.next fin).2 := by
  obtain ⟨fin', hfin'⟩ := exists_fin closed
  obtain ⟨left, err⟩ := s
  have hcreated := hr.created
  rw [next, checkInit_of_created hcreated, hr.err]
  cases err with
  | some err => exact ⟨fin', hfin', rfl, fun _ => rfl, hr⟩
  | none =>
    rcases clear_or_ahead hr with h | ⟨left', rfl, hfits, h⟩
    · simp only [ne_eq, h.name, not_true, if_false]
      cases left with
      | nil =>
        obtain ⟨fin, hfin, hcases⟩ := end_entry M.string M.bytes (.inl rfl) hend h.mr
        refine ⟨fin, hfin, ?_⟩
        rcases hcases with ⟨mr, hmore⟩ | ⟨hopen, rest, hmore, ⟨mr, hname⟩ |
          ⟨name, rest', mr, -, hname, hbytes⟩⟩
        · rw [hmore]
          exact ⟨rfl, fun _ => rfl, stands_ended hcreated rfl⟩
        · simp only [hmore, hname]
          exact ⟨rfl, fun _ => rfl, stands_ended hcreated rfl⟩
        · simp only [hmore, hname, hbytes]
          exact ⟨rfl, by simp [hopen], stands_ended hcreated rfl⟩
      | cons e left =>
        have he := h.fits e mem_cons_self
        rw [more_true (mr_entry h.mr)]
        simp only [element_whole (M.read_writeString he.name_length),
          element_whole (M.bytes e.metadata he.metadata_length)]
        exact ⟨fin', hfin', rfl, fun _ => rfl, h.behind.stands⟩
    · simp only [if_pos hfits.name_ne_nil]
      exact ⟨fin', hfin', rfl, fun _ => rfl, h.stands⟩

/-! #### `skip` -/

variable {k : ℕ}

lemma skipLoop_add (hfits : ∀ e ∈ left, e.Fits) (hmr : r.mr = body M left ++ rest) (k : ℕ) :
    skipLoop M (left.length + k) r = skipLoop M k { r with mr := rest } := by
  induction left generalizing r with
  | nil =>
    obtain rfl : r.mr = rest := hmr
    rw [length_nil, zero_add]
  | cons e left ih =>
    have he := hfits e mem_cons_self
    rw [length_cons, add_right_comm, skipLoop, more_true (mr_entry hmr)]
    simp only [element_whole (M.skip_writeString he.name_length),
      element_whole (M.skip_bytes e.metadata he.metadata_length)]
    exact ih (fun e he => hfits e (mem_cons_of_mem _ he)) rfl

lemma skipLoop_stands (h : Clear M tail r left) (hend : Ending M closed names tail) :
    Follows M tail closed (skipLoop M k r) (ListReader.skip · k { left := left }) := by
  by_cases hk : k ≤ left.length
  · obtain ⟨fin, hfin⟩ := exists_fin closed
    have hk' : (k : ℤ) ≤ left.length := by omega
    have hsplit : r.mr = body M (left.take k) ++ (body M (left.drop k) ++ tail) := by
      rw [← append_assoc, ← body_append, take_append_drop, h.mr]
    have hloop := skipLoop_add (fun e he => h.fits e (mem_of_mem_take he)) hsplit 0
    rw [length_take_of_le hk, add_zero, skipLoop] at hloop
    refine ⟨fin, hfin, ?_⟩
    simp only [hloop, ListReader.skip, if_pos hk', Int.toNat_natCast]
    exact ⟨trivial, Clear.stands
      ⟨h.created, h.err, h.name, fun e he => h.fits e (mem_of_mem_drop he), rfl⟩⟩
  · have hk' : ¬ (k : ℤ) ≤ left.length := by omega
    obtain ⟨k, rfl⟩ := Nat.exists_eq_add_of_lt (Nat.lt_of_not_le hk)
    simp only [ListReader.skip, if_neg hk']
    rw [add_assoc, skipLoop_add h.fits h.mr, skipLoop]
    obtain ⟨fin, hfin, hcases⟩ := end_entry (r := { r with mr := tail }) (fun _ => M.skip_writeString)
      M.skip_bytes (.inl rfl) hend rfl
    refine ⟨fin, hfin, ?_⟩
    rcases hcases with ⟨mr, hmore⟩ | ⟨-, rest, hmore, ⟨mr, hel⟩ | ⟨name, rest', mr, -, hel, hel'⟩⟩
    · rw [hmore]
      exact ⟨rfl, stands_ended h.created rfl⟩
    · simp only [hmore, hel]
      exact ⟨trivial, stands_ended h.created rfl⟩
    · simp only [hmore, hel, hel']
      exact ⟨trivial, stands_ended h.created rfl⟩

lemma skip_stands (n : ℤ) (hr : Stands M tail r s) (hend : Ending M closed names tail) :
    Follows M tail closed (r.skip M n) (s.skip · n) := by
  obtain ⟨fin', hfin'⟩ := exists_fin closed
  obtain ⟨left, err⟩ := s
  rw [skip, checkInit_of_created hr.created, hr.err]
  cases err with
  | some err => exact ⟨fin', hfin', rfl, hr⟩
  | none =>
    by_cases hn : n ≤ 0
    · have hlen : n ≤ left.length := by omega
      refine ⟨fin', hfin', ?_⟩
      simp only [if_pos hn, ListReader.skip, if_pos hlen, Int.toNat_of_nonpos hn, drop_zero]
      exact ⟨trivial, hr⟩
    simp only [if_neg hn]
    rcases clear_or_ahead hr with h | ⟨left', rfl, hfits, h⟩
    · have hk : ((n.toNat : ℕ) : ℤ) = n := by omega
      have hloop := skipLoop_stands (k := n.toNat) h hend
      rw [hk] at hloop
      simpa [h.name] using hloop
    · obtain ⟨fin, hfin, hres, hstands⟩ := skipLoop_stands h hend
      have hk : (((n - 1).toNat : ℕ) : ℤ) = n - 1 := by omega
      have hsplit : ListReader.skip fin n { left := r.current :: left' } =
          ListReader.skip fin (n - 1) { left := left' } := by
        have hdrop : n.toNat = (n - 1).toNat + 1 := by omega
        simp only [ListReader.skip, length_cons, hdrop, drop_succ_cons]
        push_cast
        simp only [← sub_le_iff_le_add]
      rw [hk] at hres hstands
      simp only [if_pos hfits.name_ne_nil]
      simp only [← hsplit] at hres hstands
      exact ⟨fin, hfin, hres, hstands⟩

/-! #### `forwardTo` -/

lemma header_name (he : e.Fits) (r : MetacacheReader) (rest : Bytes) :
    element false M.readStringHeader { r with mr := M.writeString e.name ++ rest } =
        (.ok e.name.length, { r with mr := e.name ++ rest }) ∧
      element false (M.readFull e.name.length) { r with mr := e.name ++ rest } =
        (.ok e.name, { r with mr := rest }) := by
  constructor
  · rw [MsgpStream.writeString, append_assoc]
    exact element_whole (M.header _ he.name_length) r _
  · rw [element, M.full]

lemma header_name_fails {name front : Bytes} (hlen : name.length < 2 ^ 32)
    (hfront : front <+: M.writeString name) (hproper : front ≠ M.writeString name)
    (hne : front ≠ []) (r : MetacacheReader) :
    (∃ err mr, err ≠ .eof ∧ element false M.readStringHeader { r with mr := front } =
        (.error err, { r with mr := mr, err := some err })) ∨
      ∃ rest err mr, err ≠ .eof ∧ element false M.readStringHeader { r with mr := front } =
          (.ok name.length, { r with mr := rest }) ∧
        element false (M.readFull name.length) { r with mr := rest } =
          (.error err, { r with mr := mr, err := some err }) := by
  rcases Lib.isPrefix_append_cases hfront with ⟨hfront', hproper'⟩ | ⟨rest, rfl, hle⟩
  · -- inside of the header
    obtain ⟨err, herr⟩ := (M.header name.length hlen).inside front hfront' hproper'
    have hneof : err ≠ .eof := fun h => M.header_inside _ hlen front hfront' hne (h ▸ herr)
    exact .inl (element_fails false herr (.inr hneof))
  · -- inside of the name
    have hrest : rest.length < name.length := by
      refine lt_of_le_of_ne hle.length_le fun h => hproper ?_
      rw [hle.eq_of_length h, MsgpStream.writeString]
    obtain ⟨err, herr, hneof⟩ := M.full_short name.length rest hrest
    obtain ⟨err, mr, hneof, hel⟩ :=
      element_fails (r := { r with mr := rest }) false herr (.inr hneof)
    exact .inr ⟨rest, err, mr, hneof, element_whole (M.header _ hlen) r rest, hel⟩

variable {key : Bytes} {rounds : ℕ}

lemma forwardToLoop_stands (h : Clear M tail r left) (hrounds : left.length < rounds)
    (hend : Ending M closed names tail) (hkey : key ≠ []) :
    Follows M tail closed (forwardToLoop M key rounds r)
      (ListReader.forwardTo · key { left := left }) := by
  induction left generalizing r rounds with
  | nil =>
    obtain ⟨rounds, rfl⟩ := Nat.exists_eq_add_of_lt hrounds
    suffices hfail : ∃ fin r', (fin = .eof ↔ closed) ∧
        forwardToLoop M key (0 + rounds + 1) r = (some fin, r') ∧ r'.creator = r.creator ∧
          r'.err = some fin by
      obtain ⟨fin, r', hfin, hloop, hcreated, herr⟩ := hfail
      refine ⟨fin, hfin, ?_⟩
      simp only [length_nil, hloop, ListReader.forwardTo, if_neg hkey, dropWhile_nil]
      exact ⟨trivial, stands_ended (hcreated.trans h.created) herr⟩
    rw [forwardToLoop]
    cases hend with
    | closed =>
      rw [more_false h.mr]
      exact ⟨.eof, _, by simp, rfl, rfl, rfl⟩
    | cut =>
      obtain ⟨mr, hmore⟩ := more_nil h.mr
      rw [hmore]
      exact ⟨.unexpectedEOF, _, by decide, rfl, rfl, rfl⟩
    | inName name front hlen hfront hproper hne =>
      rw [more_true h.mr]
      rcases header_name_fails hlen hfront hproper hne r with ⟨err, mr, hneof, hel⟩ |
        ⟨rest, err, mr, hneof, hheader, hel⟩
      · simp only [hel]
        exact ⟨err, _, by simp [hneof], rfl, rfl, rfl⟩
      · simp only [hheader, hel]
        exact ⟨err, _, by simp [hneof], rfl, rfl, rfl⟩
    | inMetadata e front he hfront hproper hne =>
      obtain ⟨hheader, hname⟩ := header_name (M := M) he r front
      rw [more_true h.mr]
      simp only [hheader, hname]
      split_ifs
      · obtain ⟨err, herr⟩ := (M.bytes e.metadata he.metadata_length).inside front hfront hproper
        obtain ⟨err, mr, hne, hel⟩ :=
          element_fails (r := { r with mr := front }) false herr (.inr fun heof => hne (heof ▸ herr))
        simp only [hel]
        exact ⟨err, _, by simp [hne], rfl, rfl, rfl⟩
      · obtain ⟨err, herr⟩ := (M.skip_bytes e.metadata he.metadata_length).inside front hfront hproper
        obtain ⟨err, mr, hne, hel⟩ :=
          element_fails (r := { r with mr := front }) true herr (.inl rfl)
        simp only [hel]
        exact ⟨err, _, by simp [hne], rfl, rfl, rfl⟩
  | cons x left ih =>
    obtain ⟨rounds, rfl⟩ := Nat.exists_eq_add_of_lt hrounds
    have hx := h.fits x mem_cons_self
    obtain ⟨hheader, htext⟩ := header_name (M := M) hx r
      (M.writeBytes x.metadata ++ (body M left ++ tail))
    rw [forwardToLoop, more_true (mr_entry h.mr)]
    simp only [hheader, htext]
    by_cases hlt : x.name < key
    · have hlen : left.length < (x :: left).length + rounds := by
        rw [length_cons]
        omega
      obtain ⟨fin, hfin, hres, hstands⟩ := ih h.behind hlen
      refine ⟨fin, hfin, ?_⟩
      simp only [ge_iff_le, if_neg (not_le.mpr hlt), ListReader.forwardTo, if_neg hkey,
        element_whole (M.skip_bytes x.metadata hx.metadata_length),
        dropWhile_cons, hlt, decide_true, if_true] at hres hstands ⊢
      exact ⟨hres, hstands⟩
    · obtain ⟨fin, hfin⟩ := exists_fin closed
      refine ⟨fin, hfin, ?_⟩
      simp only [ge_iff_le, if_pos (not_lt.mp hlt), ListReader.forwardTo, if_neg hkey,
        element_whole (M.bytes x.metadata hx.metadata_length),
        dropWhile_cons, hlt, decide_false, Bool.false_eq_true, if_false]
      exact ⟨trivial, stands_ahead hx
        ⟨h.created, h.err, rfl, (forall_mem_cons.mp h.fits).2, rfl⟩⟩

lemma forwardTo_stands (key : Bytes) (hr : Stands M tail r s) (hend : Ending M closed names tail) :
    Follows M tail closed (r.forwardTo M key) (s.forwardTo · key) := by
  obtain ⟨fin', hfin'⟩ := exists_fin closed
  obtain ⟨left, err⟩ := s
  rw [forwardTo, checkInit_of_created hr.created, hr.err]
  cases err with
  | some err => exact ⟨fin', hfin', rfl, hr⟩
  | none =>
    by_cases hkey : key = []
    · refine ⟨fin', hfin', ?_⟩
      simp only [if_pos hkey, ListReader.forwardTo]
      exact ⟨trivial, hr⟩
    simp only [if_neg hkey]
    rcases clear_or_ahead hr with h | ⟨left', rfl, hfits, h⟩
    · simpa [h.name] using forwardToLoop_stands h (length_lt_of_mr h.mr) hend hkey
    · simp only [if_pos hfits.name_ne_nil, ge_iff_le]
      by_cases hlt : r.current.name < key
      · obtain ⟨fin, hfin, hres, hstands⟩ :=
          forwardToLoop_stands h (length_lt_of_mr h.mr) hend hkey
        refine ⟨fin, hfin, ?_⟩
        simp only [if_neg (not_le.mpr hlt), ListReader.forwardTo, if_neg hkey,
          dropWhile_cons, hlt, decide_true, if_true] at hres hstands ⊢
        exact ⟨hres, hstands⟩
      · refine ⟨fin', hfin', ?_⟩
        simp only [if_pos (not_lt.mp hlt), ListReader.forwardTo, if_neg hkey,
          dropWhile_cons, hlt, decide_false, Bool.false_eq_true, if_false]
        exact ⟨trivial, hr⟩

/-! #### `readNames` -/

lemma readNamesLoop_stands {n : ℤ} (before : List MetaCacheEntry)
    (h : Clear M tail r left) (hrounds : left.length < rounds)
    (hend : Ending M closed names tail) (hn : n < 0 ∨ (before.length : ℤ) ≤ n) :
    Follows M tail closed (readNamesLoop M n rounds (before.map name) r)
      (ListReader.readNames · n { left := before ++ left }) := by
  induction rounds generalizing before left r with
  | zero => cases hrounds
  | succ rounds ih =>
    rw [readNamesLoop, length_map]
    by_cases hwant : n < 0 ∨ (before.length : ℤ) < n
    · rw [if_pos hwant]
      cases left with
      | nil =>
        have hbeyond : ¬ (0 ≤ n ∧ n ≤ before.length) := by omega
        simp only [ListReader.readNames, append_nil, if_neg hbeyond]
        obtain ⟨fin, hfin, hcases⟩ :=
          end_entry (c := false) M.string M.skip_bytes (.inr M.string_inside) hend h.mr
        refine ⟨fin, hfin, ?_⟩
        rcases hcases with ⟨mr, hmore⟩ | ⟨-, rest, hmore, ⟨mr, hel⟩ | ⟨name, rest', mr, -, hel, hel'⟩⟩
        · rw [hmore]
          exact ⟨rfl, stands_ended h.created rfl⟩
        · simp only [hmore, hel]
          exact ⟨trivial, stands_ended h.created rfl⟩
        · simp only [hmore, hel, hel']
          exact ⟨trivial, stands_ended h.created rfl⟩
      | cons e left =>
        have he := h.fits e mem_cons_self
        have hloop := ih (before ++ [e]) h.behind
          (Nat.lt_of_succ_lt_succ hrounds) (by rw [length_append, length_singleton]; omega)
        simpa [more_true (mr_entry h.mr), element_whole (M.read_writeString he.name_length),
          element_whole (M.skip_bytes e.metadata he.metadata_length)] using hloop
    · obtain ⟨fin, hfin⟩ := exists_fin closed
      obtain rfl : n = before.length := by omega
      have hwithin : 0 ≤ (before.length : ℤ) ∧ (before.length : ℤ) ≤ (before ++ left).length := by
        rw [length_append]
        omega
      refine ⟨fin, hfin, ?_⟩
      simp only [if_neg hwant, ListReader.readNames, if_pos hwithin, Int.toNat_natCast, take_left,
        drop_left]
      exact ⟨trivial, h.stands⟩

lemma readNames_stands (n : ℤ) (hr : Stands M tail r s) (hend : Ending M closed names tail) :
    Follows M tail closed (r.readNames M n) (s.readNames · n) := by
  obtain ⟨fin', hfin'⟩ := exists_fin closed
  obtain ⟨left, err⟩ := s
  rw [readNames, checkInit_of_created hr.created, hr.err]
  cases err with
  | some err => exact ⟨fin', hfin', rfl, hr⟩
  | none =>
    by_cases hn : n = 0
    · subst hn
      refine ⟨fin', hfin', ?_⟩
      have hlen : (0 : ℤ) ≤ 0 ∧ (0 : ℤ) ≤ left.length := ⟨le_refl 0, Int.natCast_nonneg _⟩
      simp only [if_true, ListReader.readNames, if_pos hlen, Int.toNat_zero, take_zero,
        map_nil, drop_zero]
      exact ⟨trivial, hr⟩
    simp only [if_neg hn]
    rcases clear_or_ahead hr with h | ⟨left', rfl, hfits, h⟩
    · have hloop := readNamesLoop_stands (n := n) [] h (length_lt_of_mr h.mr) hend
        (by rw [length_nil]; omega)
      simpa [h.name] using hloop
    · simp only [if_pos hfits.name_ne_nil]
      exact readNamesLoop_stands [r.current] h (length_lt_of_mr h.mr) hend
        (by rw [length_singleton]; omega)

/-! #### `readN` -/

section ReadN

variable {P : Packages} {K : Marshaller} {inclDeleted inclDirs : Bool} {n : ℤ} {pre : Bytes}

/-- The loop of `readN` collects. The name of an incomplete entry must have the prefix, if all before
it have. -/
lemma readNLoop_stands {rounds : ℕ} (inclDeleted inclDirs : Bool) (res : List MetaCacheEntry)
    (h : Clear M tail r left) (hrounds : left.length < rounds) (hend : Ending M closed names tail)
    (hnames : (∀ e ∈ left, pre <+: e.name) → ∀ name ∈ names, pre <+: name) :
    ∃ fin, (fin = .eof ↔ closed) ∧ (readNLoop M P K n inclDeleted inclDirs pre rounds res r).1 =
        (ListReader.collect fin (keeps P K inclDeleted inclDirs) n pre res left).1 ∧
      ((∀ e ∈ left, pre <+: e.name) →
        Stands M tail (readNLoop M P K n inclDeleted inclDirs pre rounds res r).2
          (ListReader.collect fin (keeps P K inclDeleted inclDirs) n pre res left).2) := by
  obtain ⟨fin', hfin'⟩ := exists_fin closed
  induction rounds generalizing r res left with
  | zero => cases hrounds
  | succ rounds ih =>
    rw [readNLoop]
    by_cases hn : n < 0 ∨ (res.length : ℤ) < n
    · cases left with
      | nil =>
        simp only [ListReader.collect, if_pos hn]
        obtain ⟨fin, hfin, hcases⟩ := end_entry M.string M.bytes (.inl rfl) hend h.mr
        refine ⟨fin, hfin, ?_⟩
        rcases hcases with ⟨mr, hmore⟩ | ⟨-, rest, hmore, ⟨mr, hname⟩ |
          ⟨name, rest', mr, hmem, hname, hbytes⟩⟩
        · rw [hmore]
          exact ⟨rfl, fun _ => stands_ended h.created rfl⟩
        · simp only [hmore, hname]
          exact ⟨trivial, fun _ => stands_ended h.created rfl⟩
        · have hpre : pre.isPrefixOf name :=
            isPrefixOf_iff_prefix.mpr
              (hnames (fun e he => nomatch he) name (hmem ▸ mem_singleton_self name))
          simp only [hmore, hname, hpre, hbytes, Bool.not_true, if_false, Bool.false_eq_true]
          exact ⟨trivial, fun _ => stands_ended h.created rfl⟩
      | cons e left =>
        have he := h.fits e mem_cons_self
        simp only [ListReader.collect, if_pos hn, more_true (mr_entry h.mr),
          element_whole (M.read_writeString he.name_length), hasPrefix]
        by_cases hpre : pre.isPrefixOf e.name
        · have hpre' := isPrefixOf_iff_prefix.mp hpre
          have hloop := fun res => ih res h.behind (Nat.lt_of_succ_lt_succ hrounds) fun hall => hnames (forall_mem_cons.mpr ⟨hpre', hall⟩)
          simp only [hpre, Bool.not_true, if_false, Bool.false_eq_true,
            element_whole (M.bytes e.metadata he.metadata_length)]
          by_cases hkeep : keeps P K inclDeleted inclDirs e
          · simp only [if_pos hkeep]
            obtain ⟨fin, hfin, hres, hstands⟩ := hloop (res ++ [e])
            exact ⟨fin, hfin, hres, fun hall => hstands (forall_mem_cons.mp hall).2⟩
          · simp only [if_neg hkeep]
            obtain ⟨fin, hfin, hres, hstands⟩ := hloop res
            exact ⟨fin, hfin, hres, fun hall => hstands (forall_mem_cons.mp hall).2⟩
        · rw [Bool.not_eq_true] at hpre
          simp only [hpre, Bool.not_false, if_true]
          refine ⟨fin', hfin', trivial, fun hall => ?_⟩
          have hpre' := isPrefixOf_iff_prefix.mpr (hall e mem_cons_self)
          rw [hpre'] at hpre
          cases hpre
    · have hcollect : ListReader.collect fin' (keeps P K inclDeleted inclDirs) n pre res left =
          ((res, none), { left := left }) := by
        cases left with
        | nil => exact if_neg hn
        | cons e left => exact if_neg hn
      refine ⟨fin', hfin', ?_⟩
      rw [if_neg hn, hcollect]
      exact ⟨rfl, fun _ => h.stands⟩

lemma dropWhile_nil_key (left : List MetaCacheEntry) :
    left.dropWhile (fun e => e.name < ([] : Bytes)) = left := by
  cases left with
  | nil => rfl
  | cons e left => exact dropWhile_cons_of_neg (by simp)

lemma forwardTo_of_dropWhile {left' : List MetaCacheEntry}
    (h : left.dropWhile (fun e => e.name < pre) = e :: left') (fin : StreamErr) :
    ListReader.forwardTo fin pre { left := left } = (none, { left := e :: left' }) := by
  rw [ListReader.forwardTo]
  by_cases hpre : pre = []
  · subst hpre
    rw [dropWhile_nil_key] at h
    simp [h]
  · simp [if_neg hpre, h]

lemma keeps_current (inclDeleted inclDirs : Bool) (hne : e.name ≠ []) (hpre : e.hasPrefix pre) :
    (e.name ≠ [] ∧ (inclDeleted || !e.isLatestDeletemarker P K) ∧ e.hasPrefix pre ∧
      (inclDirs || e.isObject)) ↔ keeps P K inclDeleted inclDirs e := by
  have hobject : e.isObject = !e.isDir := by
    rw [isObject, isDir]
    cases e.metadata <;> rfl
  rw [keeps, hobject, Bool.and_eq_true]
  tauto

/-- `readN`: what it returns are entries of the list, and unless an entry without the prefix came up,
the reader stands where the list does. -/
lemma readN_stands (hr : Stands M tail r s) (hend : Ending M closed names tail)
    (hnames : ∀ e left, s.left.dropWhile (fun e => e.name < pre) = e :: left →
      (∀ x ∈ e :: left, pre <+: x.name) → ∀ name ∈ names, pre <+: name) :
    ∃ fin, (fin = .eof ↔ closed) ∧
      (r.readN M P K n inclDeleted inclDirs pre).1 = (s.readN P K fin n inclDeleted inclDirs pre).1 ∧
      ((∀ e left, s.left.dropWhile (fun e => e.name < pre) = e :: left →
          ∀ x ∈ e :: left, pre <+: x.name) →
        Stands M tail (r.readN M P K n inclDeleted inclDirs pre).2
          (s.readN P K fin n inclDeleted inclDirs pre).2) := by
  obtain ⟨fin', hfin'⟩ := exists_fin closed
  obtain ⟨left, err⟩ := s
  simp only [readN, ListReader.readN, checkInit_of_created hr.created, hr.err]
  by_cases hn : n = 0
  · simp only [if_pos hn]
    exact ⟨fin', hfin', trivial, fun _ => hr⟩
  simp only [if_neg hn]
  cases err with
  | some err => exact ⟨fin', hfin', rfl, fun _ => hr⟩
  | none =>
    have hforward : (if pre ≠ [] then r.forwardTo M pre else (none, r)) = r.forwardTo M pre := by
      by_cases hpre : pre = []
      · rw [forwardTo, checkInit_of_created hr.created, hr.err]
        simp [if_pos hpre]
      · rw [if_pos hpre]
    rw [hforward]
    obtain ⟨fin, hfin, hres, hstands⟩ := forwardTo_stands pre hr hend
    generalize r.forwardTo M pre = f at hres hstands
    obtain ⟨err, r₁⟩ := f
    simp only at hres hstands
    subst hres
    cases hleft : left.dropWhile fun e => e.name < pre with
    | nil =>
      by_cases hpre : pre = []
      · subst hpre
        rw [dropWhile_nil_key] at hleft
        subst hleft
        obtain ⟨fin, hfin, hres, -, hpeek⟩ := peek_stands hstands hend
        refine ⟨fin, hfin, ?_⟩
        simp only [ListReader.forwardTo, if_true, ListReader.peek] at hres hpeek ⊢
        generalize r₁.peek M = f at hres hpeek
        obtain ⟨⟨next, err⟩, r₂⟩ := f
        subst hres
        exact ⟨rfl, fun _ => hpeek⟩
      · refine ⟨fin, hfin, ?_⟩
        simp only [ListReader.forwardTo, if_neg hpre, hleft] at hstands ⊢
        exact ⟨trivial, fun _ => hstands⟩
    | cons e left' =>
      rw [forwardTo_of_dropWhile hleft] at hstands ⊢
      obtain ⟨r₂, hpeek, rfl, hfits, h⟩ := peek_cons hstands
      simp only [hpeek, forwardTo_of_dropWhile hleft]
      by_cases hpre : r₂.current.hasPrefix pre
      · have hpre' := isPrefixOf_iff_prefix.mp hpre
        simp only [hpre, Bool.not_true, Bool.false_eq_true, if_false, if_pos hfits.name_ne_nil]
        have hloop := fun res => readNLoop_stands (P := P) (K := K) (n := n) inclDeleted
          inclDirs res h (length_lt_of_mr h.mr) hend fun hall => hnames _ _ hleft (forall_mem_cons.mpr ⟨hpre', hall⟩)
        have hkeep := keeps_current (P := P) (K := K) inclDeleted inclDirs hfits.name_ne_nil hpre
        simp only [hpre] at hkeep
        simp only [hkeep]
        obtain ⟨fin, hfin, hres, hstands⟩ := hloop _
        exact ⟨fin, hfin, hres, fun hall =>
          hstands (forall_mem_cons.mp (hall _ _ rfl)).2⟩
      · simp only [hpre, Bool.not_false, if_true]
        exact ⟨fin', hfin', trivial, fun _ => stands_ahead hfits h⟩

end ReadN

end Calls

end MetacacheReader

end Obstor.Metacache
