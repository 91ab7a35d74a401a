import Obstor.Metacache.Blocks

/-!
# Reading block by block is filtering the whole listing

`filter` on one block finds what is wanted of the block, or enough of it (`filter_saved`). The loop over
the blocks keeps that what it has is what is wanted of the blocks before (`streamLoop_saved`), and the
blocks that `findFirstPart` leaves out have nothing that is wanted (`findFirstPartLoop_saved`).
-/

namespace Obstor.Metacache

open Go Meta List MetacacheReader ListReader

variable {M : MsgpStream} {P : Packages} {K : Marshaller} {o : ListPathOptions}

/-! ### The calls on a complete stream -/

/-- `fn` is called with one entry after the other, as long as it answers `true`. -/
def ListReader.each {σ : Type} (fn : σ → MetaCacheEntry → Bool × σ) :
    σ → List MetaCacheEntry → (Option StreamErr × σ) × ListReader
  | acc, [] => ((some .eof, acc), ended .eof)
  | acc, e :: left =>
    match fn acc e with
    | (true, acc) => each fn acc left
    | (false, acc) => ((none, acc), { left := left })

namespace MetacacheReader

variable {r : MetacacheReader} {left : List MetaCacheEntry}

lemma readFnLoop_complete {σ : Type} {fn : σ → MetaCacheEntry → Bool × σ} {acc : σ} {rounds : ℕ}
    (h : Clear M (M.writeBool false) r left) (hrounds : left.length < rounds) :
    (readFnLoop M fn rounds acc r).1 = (each fn acc left).1 ∧
      Stands M (M.writeBool false) (readFnLoop M fn rounds acc r).2
        (each fn acc left).2 := by
  induction left generalizing r acc rounds with
  | nil =>
    obtain ⟨rounds, rfl⟩ := Nat.exists_eq_add_of_lt hrounds
    rw [readFnLoop, more_false h.mr]
    exact ⟨rfl, stands_ended h.created rfl⟩
  | cons e left ih =>
    obtain ⟨rounds, rfl⟩ := Nat.exists_eq_add_of_lt hrounds
    have he := h.fits e mem_cons_self
    rw [readFnLoop, each]
    simp only [more_true (mr_entry h.mr), element_whole (M.read_writeString he.name_length),
      element_whole (M.bytes e.metadata he.metadata_length)]
    rcases fn acc e with ⟨_ | _, acc⟩
    · exact ⟨rfl, h.behind.stands⟩
    · exact ih h.behind (by rw [length_cons]; omega)

lemma readFn_complete {σ : Type} (fn : σ → MetaCacheEntry → Bool × σ) (acc : σ)
    (hr : Stands M (M.writeBool false) r { left := left }) :
    ∃ acc' left', (acc' = acc ∧ left' = left ∨ ∃ e, left = e :: left' ∧ acc' = (fn acc e).2) ∧
      (r.readFn M fn acc).1 = (each fn acc' left').1 ∧
      Stands M (M.writeBool false) (r.readFn M fn acc).2 (each fn acc' left').2 := by
  rw [readFn, checkInit_of_created hr.created, hr.err]
  rcases clear_or_ahead hr with h | ⟨left', rfl, hfits, h⟩
  · refine ⟨acc, left, .inl ⟨rfl, rfl⟩, ?_⟩
    simp only [ne_eq, h.name, not_true, if_false]
    exact readFnLoop_complete h (length_lt_of_mr h.mr)
  · refine ⟨(fn acc r.current).2, left', .inr ⟨r.current, rfl, rfl⟩, ?_⟩
    simp only [if_pos hfits.name_ne_nil]
    exact readFnLoop_complete h (length_lt_of_mr h.mr)

lemma nextEOF_complete (hr : Stands M (M.writeBool false) r { left := left }) :
    (r.nextEOF M).1 = left.isEmpty := by
  rw [nextEOF, checkInit_of_created hr.created, hr.err]
  cases left with
  | nil =>
    rcases clear_or_ahead hr with h | ⟨left', hleft, -⟩
    · obtain ⟨fin, hfin, hres, -⟩ := peek_stands hr .closed
      obtain rfl := hfin.mpr rfl
      simp only [ne_eq, h.name, not_true, if_false]
      generalize r.peek M = f at hres
      obtain ⟨⟨e, err⟩, r'⟩ := f
      obtain rfl : err = some .eof := hres
      rfl
    · cases hleft
  | cons e left =>
    obtain ⟨r', hpeek, -⟩ := peek_cons hr
    simp only [hpeek]
    split_ifs <;> rfl

lemma forwardTo_complete (key : Bytes) (hr : Stands M (M.writeBool false) r { left := left }) :
    ((r.forwardTo M key).1 = some .eof ∧ left.dropWhile (fun e => e.name < key) = []) ∨
      ((r.forwardTo M key).1 = none ∧ Stands M (M.writeBool false) (r.forwardTo M key).2
        { left := left.dropWhile fun e => e.name < key }) := by
  obtain ⟨fin, hfin, hres, hstands⟩ := forwardTo_stands key hr .closed
  obtain rfl := hfin.mpr rfl
  cases hleft : left.dropWhile fun e => e.name < key with
  | nil =>
    by_cases hkey : key = []
    · subst hkey
      rw [dropWhile_nil_key] at hleft
      subst hleft
      exact .inr ⟨hres, hstands⟩
    · simp only [hres, ListReader.forwardTo, if_neg hkey, hleft]
      exact .inl ⟨trivial, trivial⟩
  | cons e left' =>
    simp only [forwardTo_of_dropWhile hleft] at hres hstands
    exact .inr ⟨hres, hstands⟩

end MetacacheReader

/-! ### One block -/

/-- A request with a limit, whose marker is in its prefix. -/
structure ListPathOptions.Usable (o : ListPathOptions) : Prop where
  marker : o.marker = [] ∨ o.pre <+: o.marker
  limit : 1 ≤ o.limit

/-- What is wanted of a block, or enough of it. -/
def Filtered (P : Packages) (K : Marshaller) (o : ListPathOptions) (es : List MetaCacheEntry)
    (answer : List MetaCacheEntry × Option StreamErr) : Prop :=
  answer = (o.wanted P K es, some .eof) ∨
    (answer.1 <+: o.wanted P K es ∧ o.limit ≤ answer.1.length ∧ answer.2 = none)

variable {e : MetaCacheEntry}

lemma filterFn_past {acc : List MetaCacheEntry × Bool}
    (hpre : ¬ o.pre <+: e.name) : filterFn P K o acc e = (false, (acc.1, true)) := by
  have hne : o.pre ≠ [] := fun h => hpre (h ▸ nil_prefix)
  have hnot : o.pre.isPrefixOf e.name = false := by
    rw [← Bool.not_eq_true, isPrefixOf_iff_prefix]
    exact hpre
  rw [filterFn, if_pos ⟨hne, by rw [hnot]; rfl⟩]

lemma isObject_of_isLatestDeletemarker
    (h : e.isLatestDeletemarker P K) : e.isObject := by
  by_contra hobject
  have hempty : e.metadata = [] := by
    rw [MetaCacheEntry.isObject] at hobject
    simpa using hobject
  rw [MetaCacheEntry.isLatestDeletemarker, hempty] at h
  exact absurd h Bool.false_ne_true

lemma filterFn_of_pos (acc : List MetaCacheEntry × Bool)
    (hrecursive : o.recursive = false) (hpre : o.pre <+: e.name) :
    (filterFn P K o acc e).2 = (if o.passes P K e then acc.1 ++ [e] else acc.1, acc.2) ∧
      ((filterFn P K o acc e).1 = false → o.limit ≤ ((filterFn P K o acc e).2.1.length : ℤ)) := by
  have hpre' : o.pre.isPrefixOf e.name := isPrefixOf_iff_prefix.mpr hpre
  have hdeleted : (!o.inclDeleted && e.isObject && e.isLatestDeletemarker P K) =
      !(o.inclDeleted || !e.isLatestDeletemarker P K) := by
    cases hlatest : e.isLatestDeletemarker P K with
    | false => simp
    | true => simp [isObject_of_isLatestDeletemarker hlatest]
  have hdir : (!o.includeDirectories && e.isDir) = !(o.includeDirectories || !e.isDir) := by
    rw [Bool.not_or, Bool.not_not]
  rw [filterFn, hdeleted, hdir, ListPathOptions.passes, hrecursive, hpre']
  generalize (o.includeDirectories || !e.isDir) = shown
  generalize e.isInDir o.pre o.separator = inDir
  generalize (o.inclDeleted || !e.isLatestDeletemarker P K) = alive
  cases shown <;> cases inDir <;> cases alive <;> simp

lemma each_filterFn (hrecursive : o.recursive = false) (acc : List MetaCacheEntry × Bool)
    (left : List MetaCacheEntry) :
    ∃ err entries past s, each (filterFn P K o) acc left = ((err, entries, past), s) ∧
      ((entries = acc.1 ++ passing P K o left ∧ (err = some .eof ∨ past)) ∨
        (entries <+: acc.1 ++ passing P K o left ∧ o.limit ≤ entries.length ∧ err = none ∧
          past = acc.2 ∧ s.err = none ∧
          (s.left = [] → entries = acc.1 ++ passing P K o left))) := by
  induction left generalizing acc with
  | nil => exact ⟨_, _, _, _, rfl, .inl ⟨(append_nil _).symm, .inl rfl⟩⟩
  | cons e left ih =>
    rw [each]
    by_cases hpre : o.pre <+: e.name
    · obtain ⟨hacc, hstop⟩ := filterFn_of_pos acc hrecursive hpre
      have hpassing : acc.1 ++ passing P K o (e :: left) =
          (filterFn P K o acc e).2.1 ++ passing P K o left := by
        rw [hacc, passing_cons_of_pos (List.isPrefixOf_iff_prefix.mpr hpre), ← append_assoc]
        split_ifs
        · rfl
        · rw [append_nil]
      have hpast : (filterFn P K o acc e).2.2 = acc.2 := by rw [hacc]
      rw [hpassing, ← hpast]
      generalize filterFn P K o acc e = answer at hstop
      rcases answer with ⟨_ | _, acc'⟩
      · refine ⟨_, _, _, _, rfl, .inr ⟨prefix_append _ _, hstop rfl, rfl, rfl, rfl, ?_⟩⟩
        intro hleft
        simp only at hleft
        rw [hleft]
        exact (append_nil _).symm
      · exact ih acc'
    · rw [filterFn_past hpre]
      refine ⟨_, _, _, _, rfl, .inl ⟨?_, .inr rfl⟩⟩
      rw [passing_cons_of_neg (mt isPrefixOf_iff_prefix.mp hpre), append_nil]

lemma collect_passing (res left : List MetaCacheEntry) :
    (collect .eof (o.passes P K) o.limit o.pre res left).1 =
        (res ++ passing P K o left, some .eof) ∨
      ((collect .eof (o.passes P K) o.limit o.pre res left).1.1 <+:
          res ++ passing P K o left ∧
        o.limit ≤ (collect .eof (o.passes P K) o.limit o.pre res left).1.1.length ∧
        (collect .eof (o.passes P K) o.limit o.pre res left).1.2 = none) := by
  induction left generalizing res with
  | nil =>
    rw [collect]
    split_ifs with h
    · exact .inl (by rw [passing, takeWhile_nil, filter_nil, append_nil])
    · exact .inr ⟨prefix_append _ _, by simp only; omega, rfl⟩
  | cons e left ih =>
    rw [collect]
    by_cases h : o.limit < 0 ∨ (res.length : ℤ) < o.limit
    · rw [if_pos h]
      by_cases hpre : e.hasPrefix o.pre
      · have hres : (if o.passes P K e then res ++ [e] else res) =
            res ++ (if o.passes P K e then [e] else []) := by
          split_ifs
          · rfl
          · rw [append_nil]
        rw [hpre, hres, passing_cons_of_pos hpre, ← append_assoc]
        exact ih _
      · rw [passing_cons_of_neg hpre, append_nil, Bool.eq_false_iff.mpr hpre]
        exact .inl rfl
    · rw [if_neg h]
      exact .inr ⟨prefix_append _ _, by simp only; omega, rfl⟩

variable {r : MetacacheReader} {left : List MetaCacheEntry}

section

variable (hr : Stands M (M.writeBool false) r { left := left }) (ho : o.Usable)
  (hsorted : Sorted left) (hstart : ∀ e ∈ left, o.start ≤ e.name)

include hr ho hsorted hstart

lemma readN_filtered (hrecursive : o.recursive) :
    Filtered P K o left (r.readN M P K o.limit o.inclDeleted o.includeDirectories o.pre).1 := by
  have hkeep : keeps P K o.inclDeleted o.includeDirectories = o.passes P K := by
    funext e
    rw [keeps, ListPathOptions.passes, hrecursive, Bool.true_or, Bool.and_true]
  have hres : (r.readN M P K o.limit o.inclDeleted o.includeDirectories o.pre).1 =
      (ListReader.readN P K .eof o.limit o.inclDeleted o.includeDirectories o.pre
        { left := left }).1 := by
    obtain ⟨fin, hfin, hres, -⟩ := readN_stands hr .closed
      fun _ _ _ _ name hname => absurd hname not_mem_nil
    obtain rfl := hfin.mpr rfl
    exact hres
  have hlimit := ho.limit
  rw [hres, ListReader.readN, if_neg (by omega)]
  cases left with
  | nil =>
    refine .inl ?_
    rw [ListReader.forwardTo]
    by_cases hpre : o.pre = []
    · simp only [if_pos hpre]
      rfl
    · simp only [if_neg hpre, dropWhile_nil]
      rfl
  | cons e left =>
    have hle : o.pre ≤ e.name := (pre_le_start ho.marker).trans (hstart e mem_cons_self)
    have hdrop : (e :: left).dropWhile (fun e => e.name < o.pre) = e :: left :=
      dropWhile_cons_of_neg (by simpa using hle)
    rw [forwardTo_of_dropWhile hdrop, Filtered, wanted_of_le hsorted ho.marker hstart]
    by_cases hpre : e.hasPrefix o.pre
    · simp only [hpre, Bool.not_true, Bool.false_eq_true, if_false, hkeep, passing_cons_of_pos hpre]
      exact collect_passing _ left
    · simp only [hpre, Bool.not_false, if_true, passing_cons_of_neg hpre]
      exact .inl trivial

/-- `readFn` on the entries from the start on. The answer to the entry that was read ahead makes no
difference: behind the prefix the next entry is behind it too, and more than enough is cut off later. -/
lemma readFn_filtered (hrecursive : o.recursive = false) :
    Filtered P K o left (r.filterFrom M P K o) := by
  rw [filterFrom, hrecursive, Bool.not_false, if_pos rfl]
  obtain ⟨acc, left', hahead, hres, hstands⟩ := readFn_complete
    (filterFn P K o) ([], false) hr
  obtain ⟨err, entries, past, s, heach, hcases⟩ := each_filterFn (P := P) (K := K) hrecursive acc left'
  obtain ⟨hpassing, hpast⟩ : acc.1 ++ passing P K o left' = o.wanted P K left ∧
      (acc.2 → o.wanted P K left = []) := by
    rw [wanted_of_le hsorted ho.marker hstart]
    rcases hahead with ⟨rfl, rfl⟩ | ⟨e, rfl, rfl⟩
    · exact ⟨rfl, fun h => (nomatch h)⟩
    by_cases hpre : o.pre <+: e.name
    · rw [passing_cons_of_pos (List.isPrefixOf_iff_prefix.mpr hpre),
        (filterFn_of_pos _ hrecursive hpre).1]
      exact ⟨rfl, fun h => (nomatch h)⟩
    · rw [filterFn_past hpre, passing_cons_of_neg (mt isPrefixOf_iff_prefix.mp hpre)]
      refine ⟨?_, fun _ => rfl⟩
      cases left' with
      | nil => rfl
      | cons x left' =>
        have hle := (pre_le_start ho.marker).trans (hstart e mem_cons_self)
        have hlt := (pairwise_cons.mp hsorted).1 x mem_cons_self
        exact passing_cons_of_neg (mt isPrefixOf_iff_prefix.mp (not_prefix_of_le hle hpre hlt.le))
  rw [hpassing] at hcases
  rw [heach] at hres hstands
  generalize r.readFn M (filterFn P K o) ([], false) = f at hres hstands
  obtain ⟨⟨err', entries', past'⟩, r'⟩ := f
  obtain ⟨rfl, rfl, rfl⟩ : err' = err ∧ entries' = entries ∧ past' = past := by simpa using hres
  rcases hcases with ⟨rfl, hend⟩ | ⟨hpre, hlimit, rfl, rfl, herr, hall⟩
  · refine .inl ?_
    rcases hend with rfl | rfl
    · simp
    · simp
  · obtain ⟨left'', err⟩ := s
    subst herr
    simp only [nextEOF_complete hstands]
    by_cases hend : acc.2 ∨ left'' = []
    · have hentries : entries' = o.wanted P K left := by
        rcases hend with hend | hend
        · rw [hpast hend] at hpre ⊢
          exact prefix_nil.mp hpre
        · exact hall hend
      rw [if_pos (by simpa using hend), hentries]
      exact .inl rfl
    · rw [if_neg (by simpa using hend)]
      exact .inr ⟨hpre, hlimit, rfl⟩

lemma filterFrom_filtered : Filtered P K o left (r.filterFrom M P K o) := by
  cases hrecursive : o.recursive with
  | false => exact readFn_filtered hr ho hsorted hstart hrecursive
  | true =>
    rw [filterFrom, hrecursive]
    exact readN_filtered hr ho hsorted hstart hrecursive

end

variable {es : List MetaCacheEntry}

lemma filtered_nil {key : Bytes} (hkey : key ≤ o.start)
    (hdrop : es.dropWhile (fun e => e.name < key) = []) : Filtered P K o es ([], some .eof) := by
  refine .inl ?_
  rw [← wanted_dropWhile hkey es, hdrop]
  rfl

lemma filtered_dropWhile {key : Bytes} (hkey : key ≤ o.start)
    {answer : List MetaCacheEntry × Option StreamErr}
    (h : Filtered P K o (es.dropWhile fun e => e.name < key) answer) : Filtered P K o es answer := by
  rw [Filtered, wanted_dropWhile hkey] at h
  exact h

lemma filter_stands (hr : Stands M (M.writeBool false) r { left := es }) (ho : o.Usable)
    (hsorted : Sorted es) : Filtered P K o es (r.filter M P K o) := by
  have hpre := pre_le_start ho.marker
  rw [MetacacheReader.filter]
  have hforward := MetacacheReader.forwardTo_complete o.pre hr
  generalize r.forwardTo M o.pre = f at hforward
  obtain ⟨err, r₁⟩ := f
  rcases hforward with ⟨rfl, hdrop⟩ | ⟨rfl, hr₁⟩
  · exact filtered_nil hpre hdrop
  refine filtered_dropWhile hpre ?_
  have hsorted₁ : Sorted (es.dropWhile fun e => e.name < o.pre) :=
    hsorted.sublist (dropWhile_sublist _)
  have hle : ∀ e ∈ es.dropWhile (fun e => e.name < o.pre), o.pre ≤ e.name :=
    fun e he => Lib.le_of_mem_dropWhile (hsorted.imp le_of_lt) he
  by_cases hempty : o.marker = []
  · have hstart : o.start = o.pre := if_pos hempty
    simp only [hempty, ne_eq, not_true, if_false]
    exact filterFrom_filtered hr₁ ho hsorted₁ (hstart ▸ hle)
  · have hstart : o.start = o.marker := if_neg hempty
    simp only [ne_eq, hempty, not_false_eq_true, if_true]
    have hforward := MetacacheReader.forwardTo_complete o.marker hr₁
    generalize r₁.forwardTo M o.marker = f at hforward
    obtain ⟨err, r₂⟩ := f
    rcases hforward with ⟨rfl, hdrop⟩ | ⟨rfl, hr₂⟩
    · exact filtered_nil hstart.ge hdrop
    · refine filtered_dropWhile hstart.ge ?_
      refine filterFrom_filtered hr₂ ho (hsorted₁.sublist (dropWhile_sublist _)) ?_
      exact fun e he => hstart.trans_le (Lib.le_of_mem_dropWhile (hsorted₁.imp le_of_lt) he)

/-- The block has the entries `es`. -/
structure MetacacheBlock.Saves (M : MsgpStream) (b : MetacacheBlock) (es : List MetaCacheEntry) :
    Prop where
  first : b.first = (es.head?.map MetaCacheEntry.name).getD []
  last : b.last = (es.getLast?.map MetaCacheEntry.name).getD []
  fits : ∀ e ∈ es, e.Fits
  data : ∃ calls, written calls = es ∧ b.data = produce M calls

inductive SavedAs (M : MsgpStream) : List MetacacheBlock → List MetaCacheEntry → Prop
  | last {b : MetacacheBlock} {es : List MetaCacheEntry} : b.Saves M es → b.eos = true → SavedAs M [b] es
  | more {b : MetacacheBlock} {blocks : List MetacacheBlock} {es es' : List MetaCacheEntry} :
      b.Saves M es → b.eos = false → SavedAs M blocks es' → SavedAs M (b :: blocks) (es ++ es')

lemma filter_saved {b : MetacacheBlock} (hb : b.Saves M es) (ho : o.Usable) (hsorted : Sorted es) :
    Filtered P K o es ((newMetacacheReader b.data).filter M P K o) := by
  have hinit : (newMetacacheReader b.data).filter M P K o =
      ((newMetacacheReader b.data).checkInit M).filter M P K o := by
    rw [MetacacheReader.filter, MetacacheReader.filter, MetacacheReader.forwardTo,
      MetacacheReader.forwardTo, checkInit_checkInit]
  obtain ⟨calls, rfl, hdata⟩ := hb.data
  rw [hinit, hdata]
  rcases produce_eq M calls with ⟨hnil, hwritten⟩ | hframe
  · rw [hnil, hwritten, MetacacheReader.filter, MetacacheReader.forwardTo, checkInit_checkInit,
      (checkInit_nil M).1]
    exact .inl rfl
  · rw [hframe, frame, checkInit_opened]
    exact filter_stands (stands_begun hb.fits _) ho hsorted

/-! ### All blocks -/

section Blocks

variable {b : MetacacheBlock} {blocks : List MetacacheBlock} {es es' : List MetaCacheEntry}

section

variable (hb : b.Saves M es)

include hb

lemma first_le_of_mem (hsorted : Sorted (es ++ es')) (hne : b.first ≠ []) :
    ∀ e ∈ es ++ es', b.first ≤ e.name := by
  have hfirst := hb.first
  cases es with
  | nil => exact absurd hfirst hne
  | cons x es =>
    intro e he
    rw [hfirst]
    rcases mem_cons.mp he with rfl | he
    · exact le_refl _
    · exact ((pairwise_cons.mp hsorted).1 e he).le

lemma last_lt_of_mem (hsorted : Sorted (es ++ es')) (hne : b.last ≠ []) :
    ∀ e ∈ es', b.last < e.name := by
  have hlast := hb.last
  intro e he
  cases hget : es.getLast? with
  | none =>
    rw [hget] at hlast
    exact absurd hlast hne
  | some x =>
    rw [hget] at hlast
    rw [hlast]
    exact (pairwise_append.mp hsorted).2.2 x (mem_of_getLast? hget) e he

lemma le_last_of_mem (hsorted : Sorted es) : ∀ e ∈ es, e.name ≤ b.last := by
  rw [hb.last]
  induction es using reverseRecOn with
  | nil => exact fun e he => (nomatch he)
  | append_singleton es x _ =>
    intro e he
    rw [getLast?_concat]
    rcases mem_append.mp he with he | he
    · exact ((pairwise_append.mp hsorted).2.2 e he x (mem_singleton_self x)).le
    · rw [mem_singleton.mp he]
      exact le_refl _

omit hb in
lemma behind_of_header {name pre : Bytes}
    (h : (if pre = [] ∨ pre.isPrefixOf name then false else decide (name > pre)) = true) :
    name ≠ [] ∧ pre ≤ name ∧ ¬ pre <+: name := by
  split_ifs at h with hpre
  have hlt : pre < name := of_decide_eq_true h
  refine ⟨?_, hlt.le, fun hp => hpre (.inr (List.isPrefixOf_iff_prefix.mpr hp))⟩
  rintro rfl
  exact absurd hlt (not_lt_nil _)

lemma wanted_eq_nil_of_pastPrefix (hsorted : Sorted (es ++ es'))
    (hpast : b.pastPrefix o.pre) : o.wanted P K (es ++ es') = [] := by
  obtain ⟨hne, hle, hnot⟩ := behind_of_header hpast
  refine wanted_eq_nil_of_past fun e he => ?_
  exact not_prefix_of_le hle hnot (first_le_of_mem hb hsorted hne e he)

lemma wanted_eq_nil_of_endedPrefix (hsorted : Sorted (es ++ es'))
    (hended : b.endedPrefix o.pre) : o.wanted P K es' = [] := by
  obtain ⟨hne, hle, hnot⟩ := behind_of_header hended
  refine wanted_eq_nil_of_past fun e he => ?_
  exact not_prefix_of_le hle hnot (last_lt_of_mem hb hsorted hne e he).le

end

/-- The first `Limit` of the entries, with `io.EOF` only where there are no more. -/
def Answers (o : ListPathOptions) (all : List MetaCacheEntry) (answer : Streamed) : Prop :=
  ∃ err, answer = .returned (all.take o.limit.toNat) err ∧ (err = none ∨ err = some .eof) ∧
    (err = some .eof → (all.length : ℤ) ≤ o.limit)

lemma answers_eof {all : List MetaCacheEntry} (h : (all.length : ℤ) ≤ o.limit) :
    Answers o all (.returned all (some .eof)) :=
  ⟨some .eof, by rw [take_of_length_le (by omega)], .inr rfl, fun _ => h⟩

variable {entries : List MetaCacheEntry}

lemma answers_enough {all : List MetaCacheEntry} (hpre : entries <+: all)
    (h : o.limit ≤ entries.length) (hlimit : 1 ≤ o.limit) :
    Answers o all (.returned (entries.take o.limit.toNat) none) := by
  obtain ⟨rest, rfl⟩ := hpre
  refine ⟨none, ?_, .inl rfl, fun h => (nomatch h)⟩
  rw [take_append_of_le_length (by omega)]

/-- One block is filtered, and the loop goes on or has enough. -/
lemma streamLoop_step {loaded : Bool} (hb : b.Saves M es) (hsorted : Sorted (es ++ es'))
    (ho : o.Usable) (hentries : (entries.length : ℤ) ≤ o.limit) (hlast : b.eos → es' = [])
    (hnext : b.eos = false → ((entries ++ o.wanted P K es).length : ℤ) ≤ o.limit →
      Answers o ((entries ++ o.wanted P K es) ++ o.wanted P K es')
        (streamLoop M P K o false (entries ++ o.wanted P K es) blocks)) :
    Answers o (entries ++ o.wanted P K (es ++ es'))
      (streamLoop M P K o loaded entries (b :: blocks)) := by
  have hlimit := ho.limit
  have hfiltered := filter_saved (P := P) (K := K) hb ho (pairwise_append.mp hsorted).1
  rw [streamLoop]
  by_cases hpast : (!loaded && b.pastPrefix o.pre)
  · rw [if_pos hpast, wanted_eq_nil_of_pastPrefix hb hsorted (Bool.and_eq_true_iff.mp hpast).2,
      append_nil]
    exact answers_eof hentries
  rw [if_neg hpast, wanted_append, ← append_assoc]
  generalize (newMetacacheReader b.data).filter M P K o = f at hfiltered
  obtain ⟨e, err⟩ := f
  simp only
  have hpre : entries ++ e <+: entries ++ o.wanted P K es ++ o.wanted P K es' := by
    rw [append_assoc, prefix_append_right_inj]
    rcases hfiltered with h | ⟨h, -⟩
    · rw [(Prod.mk.inj h).1]
      exact prefix_append _ _
    · exact h.trans (prefix_append _ _)
  by_cases hmany : ((entries ++ e).length : ℤ) > o.limit
  · rw [if_pos ⟨by omega, hmany⟩]
    exact answers_enough hpre hmany.le hlimit
  rw [if_neg fun h => hmany h.2]
  rcases hfiltered with h | ⟨-, henough, rfl⟩
  · cases h
    have hall := not_lt.mp hmany
    cases heos : b.eos with
    | true =>
      rw [hlast heos]
      simp only [if_true, ListPathOptions.wanted, filter_nil, append_nil]
      exact answers_eof hall
    | false =>
      simp only [Bool.false_eq_true, if_false]
      split_ifs with hended
      · rw [wanted_eq_nil_of_endedPrefix hb hsorted hended, append_nil]
        exact answers_eof hall
      · exact hnext heos hall
  · have hlen : (entries ++ e).length ≤ o.limit.toNat := by omega
    have htake := answers_enough hpre
      (by rw [length_append]; simp only at henough; omega) hlimit
    rwa [take_of_length_le hlen] at htake

/-- The loop over the blocks answers what is wanted of them. -/
lemma streamLoop_saved {loaded : Bool} (hsaved : SavedAs M blocks es) (hsorted : Sorted es)
    (ho : o.Usable) (hentries : (entries.length : ℤ) ≤ o.limit) :
    Answers o (entries ++ o.wanted P K es) (streamLoop M P K o loaded entries blocks) := by
  induction hsaved generalizing loaded entries with
  | last hb heos =>
    rename_i b es
    rw [← append_nil es] at hsorted ⊢
    refine streamLoop_step hb hsorted ho hentries (fun _ => rfl) ?_
    exact fun h => absurd (heos.symm.trans h) (by decide)
  | more hb heos _ ih =>
    refine streamLoop_step hb hsorted ho hentries ?_ fun _ hall => ?_
    · exact fun h => absurd (heos.symm.trans h) (by decide)
    · exact ih (pairwise_append.mp hsorted).2.1 hall

lemma wanted_eq_nil_of_last_lt (hb : b.Saves M es) (hsorted : Sorted es) (h : b.last < o.start) :
    o.wanted P K es = [] :=
  wanted_eq_nil_of_lt fun e he => (le_last_of_mem hb hsorted e he).trans_lt h

/-- No wanted entry is in the blocks that are left out. -/
lemma findFirstPartLoop_saved (i : ℕ) (hsaved : SavedAs M blocks es) (hsorted : Sorted es) :
    match findFirstPartLoop o.start i blocks with
    | .found j => ∃ k es', j = i + k ∧ SavedAs M (blocks.drop k) es' ∧ Sorted es' ∧
        o.wanted P K es' = o.wanted P K es
    | .fileNotFound => True
    | .eof => o.wanted P K es = []
    | .waits => False := by
  induction hsaved generalizing i with
  | last hb heos =>
    rw [findFirstPartLoop]
    split_ifs with hempty hfirst hlast
    · trivial
    · exact ⟨0, _, rfl, .last hb heos, hsorted, rfl⟩
    · exact ⟨0, _, rfl, .last hb heos, hsorted, rfl⟩
    · exact wanted_eq_nil_of_last_lt hb hsorted (not_le.mp hlast)
  | more hb heos hsaved ih =>
    obtain ⟨hsorted₁, hsorted₂, -⟩ := pairwise_append.mp hsorted
    rw [findFirstPartLoop]
    split_ifs with hempty hfirst hlast hend
    · trivial
    · exact ⟨0, _, rfl, .more hb heos hsaved, hsorted, rfl⟩
    · exact ⟨0, _, rfl, .more hb heos hsaved, hsorted, rfl⟩
    · exact absurd (heos.symm.trans hend) (by decide)
    · rw [wanted_append, wanted_eq_nil_of_last_lt hb hsorted₁ (not_le.mp hlast)]
      have hrest := ih (i + 1) hsorted₂
      generalize findFirstPartLoop o.start (i + 1) _ = part at hrest
      cases part with
      | found j =>
        obtain ⟨k, es', rfl, hdrop⟩ := hrest
        exact ⟨k + 1, es', by omega, hdrop⟩
      | waits => exact hrest
      | eof => exact hrest
      | fileNotFound => trivial

end Blocks

/-- Block by block, `streamMetadataParts` returns the first `Limit` entries of the listing that are
wanted, and `io.EOF` only when there are no more. -/
theorem streamMetadataParts_saved (M : MsgpStream) (P : Packages) (K : Marshaller)
    (o : ListPathOptions) (blocks : List MetacacheBlock) (es : List MetaCacheEntry)
    (hsaved : SavedAs M blocks es) (hsorted : Sorted es)
    (hmarker : o.marker = [] ∨ o.pre <+: o.marker) (hlimit : 1 ≤ o.limit) :
    ∃ err, streamMetadataParts M P K o blocks =
        .returned ((o.wanted P K es).take o.limit.toNat) err ∧
      (err = none ∨ err = some .eof) ∧
      (err = some .eof → ((o.wanted P K es).length : ℤ) ≤ o.limit) := by
  have hloop : ∀ {loaded : Bool} {blocks : List MetacacheBlock} {es' : List MetaCacheEntry},
      SavedAs M blocks es' → Sorted es' → o.wanted P K es' = o.wanted P K es →
      Answers o (o.wanted P K es) (streamLoop M P K o loaded [] blocks) := by
    intro loaded blocks es' hsaved hsorted hwanted
    rw [← hwanted]
    exact streamLoop_saved hsaved hsorted ⟨hmarker, hlimit⟩ (by rw [length_nil]; omega)
  change Answers o (o.wanted P K es) (streamMetadataParts M P K o blocks)
  rw [streamMetadataParts, findFirstPart]
  have hstart : (if o.marker = [] then o.pre else o.marker) = o.start := rfl
  simp only [hstart]
  split_ifs with hsearch
  · exact hloop hsaved hsorted rfl
  have hfirst := findFirstPartLoop_saved (P := P) (K := K) (o := o) 0 hsaved hsorted
  generalize findFirstPartLoop o.start 0 blocks = part at hfirst
  cases part with
  | found j =>
    obtain ⟨k, es', rfl, hdrop, hsorted', hwanted⟩ := hfirst
    rw [Nat.zero_add]
    exact hloop hdrop hsorted' hwanted
  | waits => exact hfirst.elim
  | eof =>
    rw [hfirst]
    exact answers_eof (by rw [length_nil]; omega)
  | fileNotFound => exact hloop hsaved hsorted rfl

def oneEntryBlock (e : MetaCacheEntry) (eos : Bool) : MetacacheBlock :=
  { first := e.name, last := e.name, eos := eos, data := produce .wire [.write [e]] }

lemma oneEntryBlock_saves (he : e.Fits) (eos : Bool) : (oneEntryBlock e eos).Saves .wire [e] where
  first := rfl
  last := rfl
  fits := by simpa using he
  data := ⟨[.write [e]], by simp [written, WriterCall.accepted, he.name_ne_nil], rfl⟩

/-- The first of two objects, one in each block. -/
theorem streamMetadataParts_saved_two : ∃ err, streamMetadataParts .wire Packages.std noMarshaller
        { pre := [], marker := [], limit := 1, recursive := true, separator := [0x2f],
          includeDirectories := false, inclDeleted := false }
        [oneEntryBlock ⟨[97], [1]⟩ false, oneEntryBlock ⟨[98], [1]⟩ true] =
      .returned [⟨[97], [1]⟩] err ∧ err ≠ some .eof := by
  obtain ⟨err, hres, -, hmore⟩ := streamMetadataParts_saved .wire Packages.std noMarshaller
    { pre := [], marker := [], limit := 1, recursive := true, separator := [0x2f],
      includeDirectories := false, inclDeleted := false }
    [oneEntryBlock ⟨[97], [1]⟩ false, oneEntryBlock ⟨[98], [1]⟩ true] [⟨[97], [1]⟩, ⟨[98], [1]⟩]
    (.more (oneEntryBlock_saves ⟨by decide, by decide, by decide⟩ false) rfl
      (.last (oneEntryBlock_saves ⟨by decide, by decide, by decide⟩ true) rfl))
    (by rw [Sorted]; decide) (.inl rfl) (by decide)
  refine ⟨err, hres.trans (congrArg (Streamed.returned · err) ?_), fun h => ?_⟩
  · decide +kernel
  · exact absurd (hmore h) (by decide +kernel)

end Obstor.Metacache
