import Obstor.Metacache.ListReader

/-!
# Streams that break off

"If the stream ends before a false boolean it can be assumed it was truncated"
(`cmd/metacache-stream.go`): no call of a reader over a proper prefix of a stream should return
`io.EOF`.

`truncated_iff` says for which prefixes this is so. `cut_frame` lists the places where a prefix can
end (`CutTail`), and `CutTail.ending` says how the reader ends there; `run_truncated` is the step
for one call, `answers_truncated` the run. At each place that is excluded some call returns
`io.EOF`.
-/

namespace Obstor.Metacache

open Go Meta List

variable {M : MsgpStream} {P : Packages} {K : Marshaller}

/-! ### What the writer leaves behind -/

/-- The entries that a call writes: `write` stops at an entry without a name, `stream` leaves such
entries out. -/
def WriterCall.accepted : WriterCall → List MetaCacheEntry
  | .write objs => objs.takeWhile fun o => o.name ≠ []
  | .stream objs => objs.filter fun o => o.name ≠ []

def written (calls : List WriterCall) : List MetaCacheEntry := calls.flatMap WriterCall.accepted

/-- The version and the entries. -/
def opened (M : MsgpStream) (es : List MetaCacheEntry) : Bytes :=
  M.writeByte metacacheStreamVersion ++ body M es

def frame (M : MsgpStream) (es : List MetaCacheEntry) : Bytes := opened M es ++ M.writeBool false

lemma opened_append (es es' : List MetaCacheEntry) :
    opened M (es ++ es') = opened M es ++ body M es' := by
  rw [opened, body_append, ← append_assoc, ← opened]

lemma opened_concat (es : List MetaCacheEntry) (e : MetaCacheEntry) :
    opened M (es ++ [e]) = opened M es ++ MetacacheWriter.entryBytes M e := by
  rw [opened_append, body_cons, body_nil, append_nil]

lemma opened_ne_nil (es : List MetaCacheEntry) : opened M es ≠ [] := by
  have hlen := M.writeByte_length metacacheStreamVersion (by decide)
  exact append_ne_nil_of_left_ne_nil (ne_nil_of_length_pos (by omega)) _

namespace MetacacheWriter

def begun (M : MsgpStream) (es : List MetaCacheEntry) : MetacacheWriter :=
  { mw := opened M es, creator := false, closer := true }

/-- A writer that has not begun, or has written `es`. -/
def Wrote (M : MsgpStream) (w : MetacacheWriter) (es : List MetaCacheEntry) : Prop :=
  (w = {} ∧ es = []) ∨ w = begun M es

variable {w : MetacacheWriter} {es : List MetaCacheEntry}

lemma create_of_wrote (h : Wrote M w es) : w.create M = begun M es := by
  rcases h with ⟨rfl, rfl⟩ | rfl
  · rw [begun, opened, body_nil, append_nil]
    rfl
  · rfl

lemma append_entry (es : List MetaCacheEntry) (o : MetaCacheEntry) :
    { begun M es with mw := (begun M es).mw ++ entryBytes M o } = begun M (es ++ [o]) := by
  rw [begun, begun, opened_concat]

lemma writeLoop_begun (es objs : List MetaCacheEntry) :
    (writeLoop M (begun M es) objs).2 = begun M (es ++ objs.takeWhile fun o => o.name ≠ []) := by
  induction objs generalizing es with
  | nil => rw [writeLoop, takeWhile_nil, append_nil]
  | cons o objs ih =>
    rw [writeLoop]
    by_cases ho : o.name = []
    · rw [if_pos (by rw [ho]; rfl), takeWhile_cons_of_neg (by simp [ho]), append_nil]
    · rw [if_neg fun h => ho (eq_nil_of_length_eq_zero h), append_entry, ih,
        takeWhile_cons_of_pos (by simp [ho]), append_assoc, singleton_append]

lemma stream_begun (es objs : List MetaCacheEntry) : objs.foldl
        (fun w o => if o.name.length = 0 then w else { w with mw := w.mw ++ entryBytes M o })
        (begun M es) = begun M (es ++ objs.filter fun o => o.name ≠ []) := by
  induction objs generalizing es with
  | nil => rw [foldl_nil, filter_nil, append_nil]
  | cons o objs ih =>
    rw [foldl_cons]
    by_cases ho : o.name = []
    · rw [if_pos (by rw [ho]; rfl), ih, filter_cons_of_neg (by simp [ho])]
    · rw [if_neg fun h => ho (eq_nil_of_length_eq_zero h), append_entry, ih,
        filter_cons_of_pos (by simp [ho]), append_assoc, singleton_append]

/-- One call of the writer. -/
lemma wrote_run (h : Wrote M w es) (c : WriterCall) : Wrote M (c.run M w) (es ++ c.accepted) := by
  cases c with
  | write objs =>
    rw [WriterCall.run, write, WriterCall.accepted]
    by_cases hobjs : objs.length = 0
    · rw [eq_nil_of_length_eq_zero hobjs, takeWhile_nil, append_nil]
      exact h
    · rw [if_neg hobjs, create_of_wrote h, writeLoop_begun]
      exact .inr rfl
  | stream objs =>
    rw [WriterCall.run, stream, create_of_wrote h, stream_begun]
    exact .inr rfl

lemma wrote_foldl (h : Wrote M w es)
    (calls : List WriterCall) : Wrote M (calls.foldl (WriterCall.run M) w) (es ++ written calls) := by
  induction calls generalizing w es with
  | nil =>
    rw [written, flatMap_nil, append_nil]
    exact h
  | cons c calls ih =>
    rw [written, flatMap_cons, ← append_assoc]
    exact ih (wrote_run h c)

end MetacacheWriter

lemma produce_eq (M : MsgpStream) (calls : List WriterCall) :
    (produce M calls = [] ∧ written calls = []) ∨ produce M calls = frame M (written calls) := by
  have h := MetacacheWriter.wrote_foldl (M := M) (.inl ⟨rfl, rfl⟩) calls
  unfold produce
  rcases h with ⟨hw, hes⟩ | hw
  · rw [hw]
    exact .inl ⟨rfl, hes⟩
  · rw [hw]
    exact .inr rfl

variable {e : MetaCacheEntry}

lemma name_ne_nil_of_mem_written {calls : List WriterCall}
    (h : e ∈ written calls) : e.name ≠ [] := by
  obtain ⟨c, -, hc⟩ := mem_flatMap.mp h
  cases c with
  | write objs => simpa using mem_takeWhile_imp hc
  | stream objs => simpa using (mem_filter.mp hc).2

/-! ### Complete streams -/

/-- A reader behind the version of its stream. -/
def MetacacheReader.begun (mr : Bytes) : MetacacheReader := { mr := mr, creator := false }

open MetacacheReader

lemma checkInit_opened (es : List MetaCacheEntry) (tail : Bytes) :
    (newMetacacheReader (opened M es ++ tail)).checkInit M = .begun (body M es ++ tail) := by
  have hread := (M.byte metacacheStreamVersion (by decide)).whole (body M es ++ tail)
  rw [opened, append_assoc, newMetacacheReader, checkInit, hread]
  rfl

lemma checkInit_nil (M : MsgpStream) : ((newMetacacheReader []).checkInit M).err = some .eof ∧
      ((newMetacacheReader []).checkInit M).creator = false := by
  have hread := (M.byte metacacheStreamVersion (by decide)).before
  rw [newMetacacheReader, checkInit]
  generalize M.readByte [] = res at hread
  obtain ⟨res, mr⟩ := res
  subst hread
  exact ⟨rfl, rfl⟩

lemma checkInit_checkInit (r : MetacacheReader) : (r.checkInit M).checkInit M = r.checkInit M := by
  have h : (r.checkInit M).creator = false ∨ (r.checkInit M).err.isSome := by
    rw [checkInit]
    split_ifs with hinit
    · rw [Bool.or_eq_true, Bool.not_eq_true'] at hinit
      exact hinit
    · split
      · exact .inl rfl
      · split_ifs <;> exact .inl rfl
  rw [checkInit, if_pos (by simpa using h)]

lemma run_checkInit (c : ReaderCall) (r : MetacacheReader) :
    c.run M P K (r.checkInit M) = c.run M P K r := by
  cases c <;>
    simp [ReaderCall.run, peek, MetacacheReader.next, skip, forwardTo, readN, readNames, checkInit_checkInit]

lemma answers_checkInit (calls : List ReaderCall) (r : MetacacheReader) :
    ReaderCall.answers M P K (r.checkInit M) calls = ReaderCall.answers M P K r calls := by
  cases calls with
  | nil => rfl
  | cons c calls => rw [ReaderCall.answers, ReaderCall.answers, run_checkInit]

def ReaderCall.IsReadN : ReaderCall → Prop
  | .readN _ _ _ _ => True
  | _ => False

variable {es : List MetaCacheEntry}

lemma stands_begun (hfits : ∀ e ∈ es, e.Fits) (tail : Bytes) :
    Stands M tail (.begun (body M es ++ tail)) { left := es } :=
  Clear.stands ⟨rfl, rfl, rfl, hfits, rfl⟩

variable {r : MetacacheReader} {s : ListReader} {c : ReaderCall}

lemma run_complete (hr : Stands M (M.writeBool false) r s) (hc : ¬ c.IsReadN) :
    (c.run M P K r).1 = (s.run P K .eof c).1 ∧
      Stands M (M.writeBool false) (c.run M P K r).2 (s.run P K .eof c).2 := by
  cases c with
  | peek =>
    obtain ⟨fin, hfin, -, hres, hstands⟩ := peek_stands hr .closed
    obtain rfl := hfin.mpr rfl
    exact ⟨by simp only [ReaderCall.run, ListReader.run, hres rfl], hstands⟩
  | next =>
    obtain ⟨fin, hfin, -, hres, hstands⟩ := next_stands hr .closed
    obtain rfl := hfin.mpr rfl
    exact ⟨by simp only [ReaderCall.run, ListReader.run, hres rfl], hstands⟩
  | skip n =>
    obtain ⟨fin, hfin, hres, hstands⟩ := skip_stands n hr .closed
    obtain rfl := hfin.mpr rfl
    exact ⟨by simp only [ReaderCall.run, ListReader.run, hres], hstands⟩
  | forwardTo key =>
    obtain ⟨fin, hfin, hres, hstands⟩ := forwardTo_stands key hr .closed
    obtain rfl := hfin.mpr rfl
    exact ⟨by simp only [ReaderCall.run, ListReader.run, hres], hstands⟩
  | readN n inclDeleted inclDirs pre => exact absurd trivial hc
  | readNames n =>
    obtain ⟨fin, hfin, hres, hstands⟩ := readNames_stands n hr .closed
    obtain rfl := hfin.mpr rfl
    exact ⟨by simp only [ReaderCall.run, ListReader.run, hres], hstands⟩

variable {calls : List ReaderCall}

lemma answers_complete (hr : Stands M (M.writeBool false) r s) (hcalls : ∀ c ∈ calls, ¬ c.IsReadN) :
    ReaderCall.answers M P K r calls = s.answers P K .eof calls := by
  induction calls generalizing r s with
  | nil => rfl
  | cons c calls ih =>
    obtain ⟨hc, hcalls⟩ := forall_mem_cons.mp hcalls
    obtain ⟨hres, hstands⟩ := run_complete hr hc
    rw [ReaderCall.answers, ListReader.answers, hres, ih hstands hcalls]

/-! ### Streams that break off -/

def AllFrom (pre : Bytes) (left : List MetaCacheEntry) : Prop :=
  ∀ e left', left.dropWhile (fun e => e.name < pre) = e :: left' → ∀ x ∈ e :: left', pre <+: x.name

namespace ListReader

variable {fin : StreamErr} {s : ListReader}

/-- What a call on a list that ends with another error does not do: return `io.EOF`. -/
structure NoEOF (s : ListReader) (err : Option StreamErr) (s' : ListReader) : Prop where
  answer : err ≠ some .eof
  kept : s'.err ≠ some .eof
  left : s'.left <:+ s.left

lemma noEOF_ended (hfin : fin ≠ .eof) : NoEOF s (some fin) (ended fin) :=
  ⟨fun h => hfin (Option.some.inj h), fun h => hfin (Option.some.inj h), nil_suffix⟩

lemma noEOF_left {left : List MetaCacheEntry} (hleft : left <:+ s.left) :
    NoEOF s none { left := left } :=
  ⟨by simp, by simp, hleft⟩

lemma noEOF_self {err : StreamErr} (h : s.err = some err) (hs : s.err ≠ some .eof) :
    NoEOF s (some err) s :=
  ⟨h ▸ hs, hs, suffix_refl _⟩

variable {n : ℤ}

lemma collect_noEOF {keep : MetaCacheEntry → Bool} {pre : Bytes}
    {res left : List MetaCacheEntry} (hfin : fin ≠ .eof) (hleft : left <:+ s.left)
    (hall : ∀ x ∈ left, pre <+: x.name) :
    NoEOF s (collect fin keep n pre res left).1.2 (collect fin keep n pre res left).2 := by
  induction left generalizing res with
  | nil =>
    rw [collect]
    split_ifs
    · exact noEOF_ended hfin
    · exact noEOF_left hleft
  | cons e left ih =>
    obtain ⟨he, hall⟩ := forall_mem_cons.mp hall
    have he' : e.hasPrefix pre := isPrefixOf_iff_prefix.mpr he
    rw [collect]
    simp only [he', Bool.not_true, Bool.false_eq_true, if_false]
    split_ifs
    · exact ih ((suffix_cons e left).trans hleft) hall
    · exact ih ((suffix_cons e left).trans hleft) hall
    · exact noEOF_left hleft

lemma forwardTo_noEOF (key : Bytes) (hfin : fin ≠ .eof) (hs : s.err ≠ some .eof) :
    NoEOF s (s.forwardTo fin key).1 (s.forwardTo fin key).2 := by
  rw [forwardTo]
  split
  · next err herr => exact noEOF_self herr hs
  · next herr =>
    split_ifs
    · exact ⟨by simp, hs, suffix_refl _⟩
    · have hdrop := dropWhile_suffix (l := s.left) fun e => decide (e.name < key)
      split
      · exact noEOF_ended hfin
      · next e left h =>
        rw [h] at hdrop
        exact noEOF_left hdrop

section

variable (hfin : fin ≠ .eof) (hs : s.err ≠ some .eof)

include hfin hs

lemma peek_noEOF : NoEOF s (s.peek fin).1.2 (s.peek fin).2 := by
  rw [peek]
  split
  · next err herr => exact noEOF_self herr hs
  · exact noEOF_ended hfin
  · exact ⟨by simp, hs, suffix_refl _⟩

lemma next_noEOF : NoEOF s (s.next fin).1.2 (s.next fin).2 := by
  rw [next]
  split
  · next err herr => exact noEOF_self herr hs
  · exact noEOF_ended hfin
  · next e left _ hleft =>
    refine noEOF_left ?_
    rw [hleft]
    exact suffix_cons e left

lemma skip_noEOF : NoEOF s (s.skip fin n).1 (s.skip fin n).2 := by
  rw [skip]
  split
  · next err herr => exact noEOF_self herr hs
  · split_ifs
    · exact noEOF_left (drop_suffix _ _)
    · exact noEOF_ended hfin

lemma readNames_noEOF : NoEOF s (s.readNames fin n).1.2 (s.readNames fin n).2 := by
  rw [readNames]
  split
  · next err herr => exact noEOF_self herr hs
  · split_ifs
    · exact noEOF_left (drop_suffix _ _)
    · exact noEOF_ended hfin

end

lemma readN_noEOF (n : ℤ) (inclDeleted inclDirs : Bool) {pre : Bytes} (hfin : fin ≠ .eof)
    (hs : s.err ≠ some .eof) (hall : AllFrom pre s.left) :
    NoEOF s (s.readN P K fin n inclDeleted inclDirs pre).1.2
      (s.readN P K fin n inclDeleted inclDirs pre).2 := by
  obtain ⟨left, err⟩ := s
  rw [readN]
  by_cases hn : n = 0
  · rw [if_pos hn]
    exact ⟨by simp, hs, suffix_refl _⟩
  rw [if_neg hn]
  have hforward := forwardTo_noEOF pre hfin hs
  cases err with
  | some err => exact hforward
  | none =>
    cases hleft : left.dropWhile fun e => e.name < pre with
    | nil =>
      rw [forwardTo] at hforward ⊢
      by_cases hpre : pre = []
      · subst hpre
        rw [dropWhile_nil_key] at hleft
        simp only [hleft, if_true]
        exact noEOF_ended hfin
      · simp only [if_neg hpre, hleft] at hforward ⊢
        exact hforward
    | cons e left' =>
      have hmem := hall e left' hleft
      have he : e.hasPrefix pre := isPrefixOf_iff_prefix.mpr (hmem e mem_cons_self)
      have hsuffix : left' <:+ left := by
        have hdrop := dropWhile_suffix (l := left) fun e => decide (e.name < pre)
        rw [hleft] at hdrop
        exact (suffix_cons e left').trans hdrop
      rw [forwardTo_of_dropWhile hleft]
      simp only [he, Bool.not_true, Bool.false_eq_true, if_false]
      exact collect_noEOF hfin hsuffix (forall_mem_cons.mp hmem).2

end ListReader

/-- `readN` is only asked for prefixes with `asked`. -/
def ReaderCall.Asks (asked : Bytes → Prop) : ReaderCall → Prop
  | .readN _ _ _ pre => asked pre
  | _ => True

variable {asked : Bytes → Prop}

lemma run_truncated {names : List Bytes} {tail : Bytes} (hr : Stands M tail r s) (hs : s.err ≠ some .eof)
    (hend : Ending M false names tail) (hc : c.Asks asked)
    (hall : ∀ pre, asked pre → AllFrom pre s.left)
    (hnames : ∀ pre, asked pre → ∀ e left, s.left.dropWhile (fun e => e.name < pre) = e :: left →
      ∀ name ∈ names, pre <+: name) :
    ∃ s', (c.run M P K r).1.err ≠ some .eof ∧ Stands M tail (c.run M P K r).2 s' ∧
      s'.err ≠ some .eof ∧ s'.left <:+ s.left := by
  have hne : ∀ {fin : StreamErr}, (fin = .eof ↔ false) → fin ≠ .eof :=
    fun hfin h => Bool.false_ne_true (hfin.mp h)
  cases c with
  | peek =>
    obtain ⟨fin, hfin, hres, -, hstands⟩ := peek_stands hr hend
    have hno := ListReader.peek_noEOF (hne hfin) hs
    exact ⟨_, hres.trans_ne hno.answer, hstands, hno.kept, hno.left⟩
  | next =>
    obtain ⟨fin, hfin, hres, -, hstands⟩ := next_stands hr hend
    have hno := ListReader.next_noEOF (hne hfin) hs
    exact ⟨_, hres.trans_ne hno.answer, hstands, hno.kept, hno.left⟩
  | skip n =>
    obtain ⟨fin, hfin, hres, hstands⟩ := skip_stands n hr hend
    have hno := ListReader.skip_noEOF (n := n) (hne hfin) hs
    exact ⟨_, hres.trans_ne hno.answer, hstands, hno.kept, hno.left⟩
  | forwardTo key =>
    obtain ⟨fin, hfin, hres, hstands⟩ := forwardTo_stands key hr hend
    have hno := ListReader.forwardTo_noEOF key (hne hfin) hs
    exact ⟨_, hres.trans_ne hno.answer, hstands, hno.kept, hno.left⟩
  | readN n inclDeleted inclDirs pre =>
    obtain ⟨fin, hfin, hres, hstands⟩ := readN_stands
      hr hend
      fun e left h _ => hnames pre hc e left h
    have hno := ListReader.readN_noEOF (P := P) (K := K) n inclDeleted inclDirs
      (hne hfin) hs (hall pre hc)
    exact ⟨_, (congrArg Prod.snd hres).trans_ne hno.answer, hstands (hall pre hc), hno.kept,
      hno.left⟩
  | readNames n =>
    obtain ⟨fin, hfin, hres, hstands⟩ := readNames_stands n hr hend
    have hno := ListReader.readNames_noEOF (n := n) (hne hfin) hs
    exact ⟨_, (congrArg Prod.snd hres).trans_ne hno.answer, hstands, hno.kept, hno.left⟩

/-! ### Where a stream may break off -/

/-- The stream breaks off right behind the `true` of an entry. -/
def CutBehindBool (M : MsgpStream) (es : List MetaCacheEntry) (p : Bytes) : Prop :=
  ∃ before e after, es = before ++ e :: after ∧ p = opened M before ++ M.writeBool true

/-- The stream breaks off behind a name, where `ReadBytes` finds no metadata: right there, or so soon
after that `ReadBytes` takes the metadata for missing. -/
def CutBehindName (M : MsgpStream) (es : List MetaCacheEntry) (p : Bytes) : Prop :=
  ∃ before e after front, es = before ++ e :: after ∧ front <+: M.writeBytes e.metadata ∧
    front ≠ M.writeBytes e.metadata ∧ (M.readBytes front).1 = .error .eof ∧
    p = opened M before ++ (M.writeBool true ++ (M.writeString e.name ++ front))

/-- The entries with the prefix `pre` end before the stream breaks off: there is an entry behind them,
or its name. -/
def Leaves (M : MsgpStream) (es : List MetaCacheEntry) (p pre : Bytes) : Prop :=
  ∃ before e after, es = before ++ e :: after ∧ ¬ pre <+: e.name ∧
    ((opened M (before ++ [e]) <+: p ∧ pre ≤ e.name) ∨
      opened M before ++ (M.writeBool true ++ M.writeString e.name) <+: p ∧
        ∃ before' last, before = before' ++ [last] ∧ pre <+: last.name)

/-- What may stand behind the complete entries of a stream that breaks off. -/
inductive CutTail (M : MsgpStream) : List MetaCacheEntry → Bytes → Prop
  | cut (after : List MetaCacheEntry) : CutTail M after []
  | inName (e : MetaCacheEntry) (after : List MetaCacheEntry) (front : Bytes) :
      front <+: M.writeString e.name → front ≠ M.writeString e.name →
      CutTail M (e :: after) (M.writeBool true ++ front)
  | inMetadata (e : MetaCacheEntry) (after : List MetaCacheEntry) (front : Bytes) :
      front <+: M.writeBytes e.metadata → front ≠ M.writeBytes e.metadata →
      CutTail M (e :: after) (M.writeBool true ++ (M.writeString e.name ++ front))

lemma cut_body {q : Bytes} (h : q <+: body M es ++ M.writeBool false)
    (hne : q ≠ body M es ++ M.writeBool false) :
    ∃ before after tail, es = before ++ after ∧ q = body M before ++ tail ∧ CutTail M after tail := by
  induction es generalizing q with
  | nil =>
    refine ⟨[], [], [], rfl, ?_, .cut []⟩
    exact eq_nil_of_isPrefix_byte (M.writeBool_length false) h hne
  | cons e es ih =>
    have hbody : body M (e :: es) ++ M.writeBool false = M.writeBool true ++ (M.writeString e.name ++
        (M.writeBytes e.metadata ++ (body M es ++ M.writeBool false))) := by
      rw [body_cons, MetacacheWriter.entryBytes]
      simp
    rw [hbody] at h hne
    rcases Lib.isPrefix_append_cases h with ⟨hq, hproper⟩ | ⟨q₁, rfl, h₁⟩
    · exact ⟨[], e :: es, [], rfl, eq_nil_of_isPrefix_byte (M.writeBool_length true) hq hproper,
        .cut _⟩
    rcases Lib.isPrefix_append_cases h₁ with ⟨hq, hproper⟩ | ⟨q₂, rfl, h₂⟩
    · exact ⟨[], e :: es, _, rfl, rfl, .inName e es q₁ hq hproper⟩
    rcases Lib.isPrefix_append_cases h₂ with ⟨hq, hproper⟩ | ⟨q₃, rfl, h₃⟩
    · exact ⟨[], e :: es, _, rfl, rfl, .inMetadata e es q₂ hq hproper⟩
    obtain ⟨before, after, tail, rfl, rfl, htail⟩ := ih h₃ fun heq => hne (by rw [heq])
    refine ⟨e :: before, after, tail, rfl, ?_, htail⟩
    rw [body_cons, MetacacheWriter.entryBytes]
    simp

lemma cut_frame {p : Bytes} (h : p <+: frame M es) (hne : p ≠ frame M es) :
    p = [] ∨ ∃ before after tail, es = before ++ after ∧ p = opened M before ++ tail ∧
      CutTail M after tail := by
  rw [frame, opened, append_assoc] at h hne
  rcases Lib.isPrefix_append_cases h with ⟨hp, hproper⟩ | ⟨q, rfl, hq⟩
  · exact .inl (eq_nil_of_isPrefix_byte (M.writeByte_length _ (by decide)) hp hproper)
  · obtain ⟨before, after, tail, hes, rfl, htail⟩ := cut_body hq fun heq => hne (by rw [heq])
    exact .inr ⟨before, after, tail, hes, (append_assoc _ _ _).symm, htail⟩

lemma opened_isPrefix (es es' : List MetaCacheEntry) (tail : Bytes) :
    opened M es <+: opened M (es ++ es') ++ tail := by
  rw [opened_append, append_assoc]
  exact prefix_append _ _

lemma opened_name_isPrefix (es es' : List MetaCacheEntry) (e : MetaCacheEntry) (tail : Bytes) :
    opened M es ++ (M.writeBool true ++ M.writeString e.name) <+: opened M (es ++ e :: es') ++ tail := by
  refine ⟨M.writeBytes e.metadata ++ (body M es' ++ tail), ?_⟩
  rw [opened_append, body_cons, MetacacheWriter.entryBytes]
  simp

section Cut

variable {es before after : List MetaCacheEntry} {tail p pre : Bytes}

lemma CutTail.ending (htail : CutTail M after tail) (hfits : ∀ e ∈ after, e.Fits)
    (hbool : ¬ CutBehindBool M (before ++ after) (opened M before ++ tail))
    (hname : ¬ CutBehindName M (before ++ after) (opened M before ++ tail)) :
    ∃ names, Ending M false names tail ∧ ∀ name ∈ names, ∃ e after', after = e :: after' ∧
      e.name = name ∧ M.writeBool true ++ M.writeString name <+: tail := by
  cases htail with
  | cut => exact ⟨[], .cut, fun _ h => nomatch h⟩
  | inName e after front hfront hproper =>
    have he := hfits e mem_cons_self
    refine ⟨[], .inName e.name front he.name_length hfront hproper ?_, fun _ h => nomatch h⟩
    rintro rfl
    exact hbool ⟨before, e, after, rfl, by rw [append_nil]⟩
  | inMetadata e after front hfront hproper =>
    have he := hfits e mem_cons_self
    refine ⟨[e.name], .inMetadata e front he hfront hproper ?_, fun name hmem => ?_⟩
    · intro heof
      exact hname ⟨before, e, after, front, rfl, hfront, hproper, heof, rfl⟩
    · obtain rfl := mem_singleton.mp hmem
      refine ⟨e, after, rfl, rfl, ?_⟩
      rw [← append_assoc]
      exact prefix_append _ _

lemma all_of_not_leaves {done l : List MetaCacheEntry} {x : MetaCacheEntry}
    (h : ¬ Leaves M (done ++ x :: l ++ after) (opened M (done ++ x :: l) ++ tail) pre)
    (hx : pre <+: x.name) : ∀ y ∈ l, pre <+: y.name := by
  induction l generalizing done x with
  | nil => exact fun y hy => nomatch hy
  | cons y l ih =>
    have hsplit : done ++ x :: y :: l = (done ++ [x]) ++ y :: l := by
      rw [append_assoc, singleton_append]
    have hy : pre <+: y.name := by
      by_contra hy
      refine h ⟨done ++ [x], y, l ++ after, ?_, hy, .inr ⟨?_, done, x, rfl, hx⟩⟩
      · rw [hsplit, append_assoc, cons_append]
      · rw [hsplit]
        exact opened_name_isPrefix _ _ _ _
    rw [hsplit] at h
    exact forall_mem_cons.mpr ⟨hy, ih h hy⟩

variable {left : List MetaCacheEntry}

lemma allFrom_of_not_leaves (hleft : left <:+ before)
    (h : ¬ Leaves M (before ++ after) (opened M before ++ tail) pre) : AllFrom pre left := by
  intro e left' hdrop
  obtain ⟨done, rfl⟩ := hleft
  have hleft : left = left.takeWhile (fun e => e.name < pre) ++ e :: left' := by
    rw [← hdrop, takeWhile_append_dropWhile]
  have hge : pre ≤ e.name := by
    have hhead := head_dropWhile_not (p := fun e : MetaCacheEntry => decide _)
      (by rw [hdrop]; exact cons_ne_nil _ _)
    simp only [hdrop, head_cons, decide_eq_false_iff_not] at hhead
    exact not_lt.mp hhead
  rw [hleft, ← append_assoc] at h
  have he : pre <+: e.name := by
    by_contra he
    refine h ⟨done ++ left.takeWhile fun e => e.name < pre, e, left' ++ after, ?_, he, .inl ⟨?_, hge⟩⟩
    · rw [append_assoc, cons_append, append_assoc]
    · rw [append_cons _ e left']
      exact opened_isPrefix _ _ _
  exact forall_mem_cons.mpr ⟨he, all_of_not_leaves h he⟩

lemma names_of_not_leaves
    {after' left' : List MetaCacheEntry} {x : MetaCacheEntry} (hleft : left <:+ before)
    (h : ¬ Leaves M (before ++ e :: after') (opened M before ++ tail) pre)
    (htail : M.writeBool true ++ M.writeString e.name <+: tail)
    (hdrop : left.dropWhile (fun e => e.name < pre) = x :: left') : pre <+: e.name := by
  have hall := allFrom_of_not_leaves hleft h x left' hdrop
  have hsuffix : x :: left' <:+ before := by
    rw [← hdrop]
    exact (dropWhile_suffix _).trans hleft
  obtain ⟨done, rfl⟩ := hsuffix
  obtain ⟨l, last, hlast⟩ := (eq_nil_or_concat' (x :: left')).resolve_left (cons_ne_nil _ _)
  by_contra he
  refine h ⟨_, e, after', rfl, he, .inr ⟨(prefix_append_right_inj _).mpr htail, done ++ l, last,
    ?_, hall last (by rw [hlast]; exact mem_append_right _ (mem_singleton_self last))⟩⟩
  rw [hlast, append_assoc]

end Cut

/-- No call returns `io.EOF`, whatever the calls are, when `readN` is only asked for such prefixes. -/
def NeverEOF (M : MsgpStream) (P : Packages) (K : Marshaller) (asked : Bytes → Prop) (p : Bytes) :
    Prop :=
  ∀ calls : List ReaderCall, (∀ c ∈ calls, c.Asks asked) →
    ∀ a ∈ ReaderCall.answers M P K (newMetacacheReader p) calls, a.err ≠ some .eof

lemma answers_truncated {before after : List MetaCacheEntry} {names : List Bytes} {tail : Bytes}
    (hr : Stands M tail r s) (hs : s.err ≠ some .eof) (hleft : s.left <:+ before)
    (hend : Ending M false names tail) (hcalls : ∀ c ∈ calls, c.Asks asked)
    (hnames : ∀ name ∈ names, ∃ e after', after = e :: after' ∧ e.name = name ∧
      M.writeBool true ++ M.writeString name <+: tail)
    (hleaves : ∀ pre, asked pre → ¬ Leaves M (before ++ after) (opened M before ++ tail) pre) :
    ∀ a ∈ ReaderCall.answers M P K r calls, a.err ≠ some .eof := by
  induction calls generalizing r s with
  | nil => exact fun a ha => nomatch ha
  | cons c calls ih =>
    obtain ⟨hc, hcalls⟩ := forall_mem_cons.mp hcalls
    obtain ⟨s', hres, hstands, hs', hleft'⟩ := run_truncated hr hs hend hc
      (fun pre hpre => allFrom_of_not_leaves hleft (hleaves pre hpre))
      (fun pre hpre e left hdrop name hname => by
        obtain ⟨e, after', rfl, rfl, htail⟩ := hnames name hname
        exact names_of_not_leaves hleft (hleaves pre hpre) htail hdrop)
    exact forall_mem_cons.mpr ⟨hres, ih hstands hs' (hleft'.trans hleft) hcalls⟩

lemma neverEOF_of_good {p : Bytes}
    (hfits : ∀ e ∈ es, e.Fits) (hp : p <+: frame M es) (hproper : p ≠ frame M es) (hne : p ≠ [])
    (hbool : ¬ CutBehindBool M es p) (hname : ¬ CutBehindName M es p)
    (hleaves : ∀ pre, asked pre → ¬ Leaves M es p pre) : NeverEOF M P K asked p := by
  obtain ⟨before, after, tail, rfl, rfl, htail⟩ := (cut_frame hp hproper).resolve_left hne
  obtain ⟨hbefore, hafter⟩ := forall_mem_append.mp hfits
  obtain ⟨names, hend, hnames⟩ := htail.ending hafter hbool hname
  intro calls hcalls
  rw [← answers_checkInit, checkInit_opened]
  exact answers_truncated (stands_begun hbefore tail) (by simp) (suffix_refl _) hend hcalls hnames
    hleaves

/-! ### The bad places -/

section Bad

variable {es before after : List MetaCacheEntry} {tail p pre : Bytes} {asked : Bytes → Prop}

lemma not_neverEOF_nil : ¬ NeverEOF M P K asked [] := by
  intro h
  refine h [.peek] (fun c hc => ?_) _ mem_cons_self ?_
  · obtain rfl := mem_singleton.mp hc
    trivial
  · rw [ReaderCall.run, peek]
    simp [(checkInit_nil M).1]

lemma NeverEOF.at_skip (h : NeverEOF M P K asked (opened M (before ++ after) ++ tail))
    (hfits : ∀ e ∈ before ++ after, e.Fits) (hc : c.Asks asked) :
    (c.run M P K (.begun (body M after ++ tail))).1.err ≠ some .eof := by
  have hskip : ((ReaderCall.skip before.length).run M P K
      (newMetacacheReader (opened M (before ++ after) ++ tail))).2 = .begun (body M after ++ tail) := by
    have hloop := skipLoop_add (forall_mem_append.mp hfits).1
      (r := .begun (body M (before ++ after) ++ tail)) (by rw [body_append, append_assoc]; rfl) 0
    rw [← run_checkInit, checkInit_opened, ReaderCall.run, skip, checkInit_of_created rfl]
    simp only [begun, noEntry, ne_eq, not_true, if_false]
    split_ifs with hn
    · rw [eq_nil_of_length_eq_zero (by omega : before.length = 0), nil_append]
    · rw [Int.toNat_natCast]
      exact congrArg Prod.snd hloop
  have hcalls : ∀ c' ∈ [ReaderCall.skip before.length, c], c'.Asks asked := by
    refine forall_mem_cons.mpr ⟨trivial, fun c' hc' => ?_⟩
    rw [mem_singleton.mp hc']
    exact hc
  refine h _ hcalls _ ?_
  rw [ReaderCall.answers, hskip]
  exact mem_cons_of_mem _ mem_cons_self

lemma more_begun (rest : Bytes) (keep : Bool) :
    (begun (M.writeBool true ++ rest)).more M keep = (none, .begun rest) :=
  more_true rfl

lemma forwardTo_begun {key : Bytes} (hkey : key ≠ []) (mr : Bytes) : (begun mr).forwardTo M key =
      forwardToLoop M key (mr.length + 1) (.begun mr) := by
  exact if_neg hkey

lemma not_cutBehindBool (h : NeverEOF M P K asked p) (hfits : ∀ e ∈ es, e.Fits) :
    ¬ CutBehindBool M es p := by
  rintro ⟨before, e, after, rfl, rfl⟩
  have hbefore := (forall_mem_append.mp hfits).1
  have h := (append_nil before).symm ▸ h
  refine h.at_skip (by rwa [append_nil]) (c := .readNames 1) trivial ?_
  have hread := (M.read_writeString (hfits e (by simp)).name_length).before
  obtain ⟨mr, hname⟩ := element_eof (r := .begun []) hread
  have hmore := more_begun (M := M) [] false
  rw [append_nil] at hmore
  have hloop : readNamesLoop M 1 ((M.writeBool true).length + 1) []
      (.begun (M.writeBool true)) = (([], some .eof), { begun mr with err := some .eof }) := by
    rw [readNamesLoop, hmore]
    simp only [hname]
    rfl
  exact congrArg (fun a => a.1.2) hloop

lemma not_cutBehindName (h : NeverEOF M P K asked p) (hfits : ∀ e ∈ es, e.Fits) :
    ¬ CutBehindName M es p := by
  rintro ⟨before, e, after, front, rfl, -, -, hread, rfl⟩
  have hbefore := (forall_mem_append.mp hfits).1
  have he := hfits e (by simp)
  have h := (append_nil before).symm ▸ h
  refine h.at_skip (by rwa [append_nil]) (c := .forwardTo e.name) trivial ?_
  obtain ⟨mr, hbytes⟩ := element_eof (r := .begun front) hread
  obtain ⟨hheader, hname⟩ := header_name (M := M) he (.begun []) front
  rw [ReaderCall.run, body_nil, nil_append, forwardTo_begun he.name_ne_nil,
    forwardToLoop, more_begun]
  simp only [begun] at hheader hname hbytes
  simp [begun, hheader, hname, hbytes]

lemma readN_begun {n : ℤ} (he : e.Fits) (hpre : pre ≠ []) (hle : pre ≤ e.name) (hn : n ≠ 0) :
    ∃ res r, (begun (body M [e] ++ tail)).readN M P K n true true pre =
      if !e.hasPrefix pre then (([], some .eof), r)
      else readNLoop M P K n true true pre (tail.length + 1) res (.begun tail) := by
  have hmr : (begun (body M [e] ++ tail)).mr = body M [e] ++ tail := rfl
  obtain ⟨hheader, hname⟩ := header_name (M := M) he (.begun [])
    (M.writeBytes e.metadata ++ (body M [] ++ tail))
  have hbytes := element_whole (c := false) (M.bytes e.metadata he.metadata_length)
    (.begun []) (body M [] ++ tail)
  have hfound : forwardToLoop M pre ((body M [e] ++ tail).length + 1)
      (.begun (body M [e] ++ tail)) = (none, { begun tail with current := e }) := by
    rw [forwardToLoop, more_true (mr_entry hmr)]
    simp only [begun] at hheader hname hbytes
    simp only [begun, hheader, hname, ge_iff_le, if_pos hle, hbytes]
    rfl
  rw [readN, checkInit_of_created rfl]
  simp only [if_neg hn, if_pos hpre, forwardTo_begun hpre]
  simp only [begun] at hfound
  simp only [begun, hfound, peek,
    checkInit_of_created, ne_eq, he.name_ne_nil, not_false_eq_true, if_true]
  exact ⟨_, _, rfl⟩

lemma not_leaves (h : NeverEOF M P K asked p) (hfits : ∀ e ∈ es, e.Fits) (hpre : asked pre) :
    ¬ Leaves M es p pre := by
  rintro ⟨before, e, after, rfl, hne, hcases⟩
  obtain ⟨hbefore, hafter⟩ := forall_mem_append.mp hfits
  have he := hafter e mem_cons_self
  have hnil : pre ≠ [] := by
    rintro rfl
    exact hne nil_prefix
  have hno : pre.isPrefixOf e.name = false := by
    rw [← Bool.not_eq_true, isPrefixOf_iff_prefix]
    exact hne
  rcases hcases with ⟨⟨tail, rfl⟩, hle⟩ | ⟨⟨tail, rfl⟩, before, last, rfl, hlast⟩
  · -- the entry is read ahead
    refine h.at_skip (forall_mem_append.mpr ⟨hbefore, forall_mem_singleton.mpr he⟩)
      (c := .readN 1 true true pre) hpre ?_
    obtain ⟨res, r, hres⟩ := readN_begun (n := 1) he hnil hle (by decide)
    rw [ReaderCall.run, hres, MetaCacheEntry.hasPrefix, hno]
    rfl
  · -- the name is read behind an entry with the prefix
    rw [append_assoc] at h
    refine h.at_skip hbefore (c := .readN (-1) true true pre) hpre ?_
    obtain ⟨res, r, hres⟩ := readN_begun (n := -1) (hbefore last (by simp)) hnil
      (Lib.le_of_isPrefix hlast) (by decide)
    have hname := element_whole (c := true) (M.read_writeString he.name_length)
      (.begun []) tail
    rw [ReaderCall.run, hres, MetaCacheEntry.hasPrefix, isPrefixOf_iff_prefix.mpr hlast,
      append_assoc]
    simp only [begun] at hname
    simp only [Bool.not_true, Bool.false_eq_true, if_false, readNLoop, Int.reduceNeg,
      Int.reduceLT, true_or, if_true, more_begun]
    simp [begun, hname, hno]

end Bad

/-- A stream that breaks off is not taken for a complete one exactly when it does not break off before
its version, right behind the `true` of an entry or where the metadata should begin, and no prefix that
`readN` is asked for ends in it. The calls on a complete stream are the calls on the list of its
entries. -/
theorem truncated_iff (M : MsgpStream) (P : Packages) (K : Marshaller) (writes : List WriterCall)
    (hfits : ∀ e ∈ written writes, e.name.length < 2 ^ 32 ∧ e.metadata.length < 2 ^ 32) :
    (∀ (p : Bytes) (asked : Bytes → Prop), p <+: produce M writes → p ≠ produce M writes →
      (NeverEOF M P K asked p ↔
        p ≠ [] ∧ ¬ CutBehindBool M (written writes) p ∧ ¬ CutBehindName M (written writes) p ∧
          ∀ pre, asked pre → ¬ Leaves M (written writes) p pre)) ∧
    ∀ calls : List ReaderCall, (∀ c ∈ calls, ¬ c.IsReadN) →
      ReaderCall.answers M P K (newMetacacheReader (produce M writes)) calls =
        (if produce M writes = [] then ListReader.ended .eof
          else { left := written writes }).answers P K .eof calls := by
  have hfits : ∀ e ∈ written writes, e.Fits := fun e he =>
    ⟨name_ne_nil_of_mem_written he, (hfits e he).1, (hfits e he).2⟩
  constructor
  · intro p asked hp hproper
    have hframe : produce M writes = frame M (written writes) := by
      refine (produce_eq M writes).resolve_left ?_
      rintro ⟨hnil, -⟩
      rw [hnil] at hp hproper
      exact hproper (prefix_nil.mp hp)
    rw [hframe] at hp hproper
    constructor
    · intro h
      refine ⟨?_, not_cutBehindBool h hfits, not_cutBehindName h hfits,
        fun pre hpre => not_leaves h hfits hpre⟩
      rintro rfl
      exact not_neverEOF_nil h
    · rintro ⟨hne, hbool, hname, hleaves⟩
      exact neverEOF_of_good hfits hp hproper hne hbool hname hleaves
  · intro calls hcalls
    rcases produce_eq M writes with ⟨hnil, -⟩ | hframe
    · obtain ⟨herr, hcreated⟩ := checkInit_nil M
      rw [hnil, ← answers_checkInit]
      exact answers_complete (stands_ended hcreated herr) hcalls
    · have hne : frame M (written writes) ≠ [] := append_ne_nil_of_left_ne_nil (opened_ne_nil _) _
      rw [hframe, if_neg hne, ← answers_checkInit, frame, checkInit_opened]
      exact answers_complete (stands_begun hfits _) hcalls

/-- One entry. -/
def oneWrite : List WriterCall := [.write [⟨[97], [1]⟩]]

/-- The stream of one entry that breaks off behind its `true` is taken for complete. -/
theorem truncated_iff_behind_bool :
    ¬ NeverEOF .wire Packages.std noMarshaller (fun _ => True) [1, 0xc3] := by
  intro h
  have hfits : ∀ e ∈ written oneWrite, e.name.length < 2 ^ 32 ∧ e.metadata.length < 2 ^ 32 := by
    decide
  have hiff := (truncated_iff .wire Packages.std noMarshaller oneWrite hfits).1 [1, 0xc3]
    (fun _ => True) (by decide) (by decide)
  exact (hiff.mp h).2.1 ⟨[], ⟨[97], [1]⟩, [], rfl, rfl⟩

/-- Behind the `true`, behind the name, and before everything else: the stream has ended, and there is
no entry. -/
theorem truncated_taken_for_complete :
    produce .wire oneWrite = [1, 0xc3, 0xa1, 97, 0xc4, 1, 1, 0xc2] ∧
    (ReaderCall.answers .wire Packages.std noMarshaller (newMetacacheReader [1, 0xc3, 0xa1, 97])
      [.forwardTo [97]]).map Answer.err = [some .eof] ∧
    ReaderCall.answers .wire Packages.std noMarshaller (newMetacacheReader [1, 0xc3])
      [.readNames (-1)] = [{ err := some .eof }] ∧
    ReaderCall.answers .wire Packages.std noMarshaller (newMetacacheReader [])
      [.next] = [{ entries := [noEntry], err := some .eof }] := by
  decide +kernel

end Obstor.Metacache
