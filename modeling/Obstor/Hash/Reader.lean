import Obstor.Go.Streams

/-!
# Readers that check the content

`hash.Reader` (`pkg/hash/reader.go`) checks the MD5 and the SHA-256 of what is read through it.
`NewReader` on a reader that is a `hash.Reader` already does not wrap it but merges the size and the
digests of the new call into it.

`digests_checked_iff`: for which chains of calls reading ends without an error exactly on the
content that has all the digests. `chain_ok` says what a chain builds, `Src.read_spec` and
`Reader.readAll_eq` how reading it ends; the converse tries hash functions with constant sums
(`kept_of_sums`).
-/

namespace Obstor.Hash

open Go List

/-! ### Readers -/

/-- The hash functions. A sum is never empty. -/
structure Hashes where
  md5 : Bytes → Bytes
  sha256 : Bytes → Bytes
  md5_ne : ∀ bs, md5 bs ≠ []
  sha256_ne : ∀ bs, sha256 bs ≠ []

/-- The errors at the end of a read. The errors of a mismatch have the expected and the computed
sum. -/
inductive End
  | eof
  | badDigest (expected computed : Bytes)
  | sha256Mismatch (expected computed : Bytes)
  deriving DecidableEq

inductive Src
  /-- The content; the last bytes may come with the end or before it. -/
  | content (data : Bytes) (eager : Bool)
  /-- An `io.LimitedReader` with `n` bytes to go. -/
  | limit (src : Src) (n : ℕ)
  /-- An `etag.Reader`, with what has been written to its MD5. -/
  | etag (src : Src) (checksum written : Bytes)

namespace Src

/-- `Read` into a buffer of `m` bytes. -/
def read (H : Hashes) : Src → ℕ → Bytes × Option End × Src
  | content data eager, m =>
    (data.take m, if data.length ≤ m ∧ (eager ∨ data = []) then some .eof else none,
      content (data.drop m) eager)
  | limit src n, m =>
    if n = 0 then ([], some .eof, limit src n)
    else
      let (bs, err, src) := src.read H (min m n)
      (bs, err, limit src (n - bs.length))
  | etag src checksum written, m =>
    let (bs, err, src) := src.read H m
    let written := written ++ bs
    let err := if err = some .eof ∧ checksum ≠ [] ∧ H.md5 written ≠ checksum then
      some (.badDigest checksum (H.md5 written)) else err
    (bs, err, etag src checksum written)

/-- The bytes that a stack of readers delivers. -/
def total : Src → Bytes
  | content data _ => data
  | limit src n => src.total.take n
  | etag src _ _ => src.total

/-- The last bytes come with the end. -/
def eager : Src → Bool
  | content _ eager => eager
  | limit src n => src.eager && decide (src.total.length ≤ n)
  | etag src _ _ => src.eager

/-- How a stack of readers ends. A limit hides the end of the reader below it when it is reached
first. -/
def ending (H : Hashes) : Src → End
  | content _ _ => .eof
  | limit src n =>
    if src.total.length < n ∨ src.total.length = n ∧ n ≠ 0 ∧ src.eager then src.ending H else .eof
  | etag src checksum written =>
    let sum := H.md5 (written ++ src.total)
    if src.ending H = .eof ∧ checksum ≠ [] ∧ sum ≠ checksum then .badDigest checksum sum
    else src.ending H

end Src

/-- `hash.Reader`; `sha256` is what has been written to the hash. -/
structure Reader where
  src : Src
  bytesRead : ℕ
  size : ℤ
  actualSize : ℤ
  checksum : Bytes
  contentSHA256 : Bytes
  sha256 : Option Bytes

/-- The arguments of a call of `NewReader` besides the reader, with the decoded digests. -/
structure Level where
  size : ℤ
  md5 : Bytes
  sha256 : Bytes
  actualSize : ℤ

inductive NewReaderErr
  | badDigest (expectedMD5 calculatedMD5 : Bytes)
  | sha256Mismatch (expectedSHA256 calculatedSHA256 : Bytes)
  | alreadyRead
  | sizeMismatch (want got : ℤ)
  deriving DecidableEq

/-- `NewReader` on a reader that is not a `hash.Reader`. -/
def newReader (src : Src) (l : Level) : Reader where
  src := .etag (if 0 ≤ l.size then .limit src l.size.toNat else src) l.md5 []
  bytesRead := 0
  size := l.size
  actualSize := l.actualSize
  checksum := l.md5
  contentSHA256 := l.sha256
  sha256 := if l.sha256 ≠ [] then some [] else none

/-- `NewReader` on a `hash.Reader`. -/
def Reader.merge (r : Reader) (l : Level) : Except NewReaderErr Reader :=
  if r.bytesRead > 0 then .error .alreadyRead
  else if r.checksum ≠ [] ∧ l.md5 ≠ [] ∧ r.checksum ≠ l.md5 then
    .error (.badDigest r.checksum l.md5)
  else if r.contentSHA256 ≠ [] ∧ l.sha256 ≠ [] ∧ r.contentSHA256 ≠ l.sha256 then
    .error (.sha256Mismatch r.contentSHA256 l.sha256)
  else if 0 ≤ r.size ∧ 0 ≤ l.size ∧ r.size ≠ l.size then .error (.sizeMismatch r.size l.size)
  else
    let r := { r with checksum := l.md5, contentSHA256 := l.sha256 }
    let r := if r.size < 0 ∧ 0 ≤ l.size then
      { r with src := .limit r.src l.size.toNat, size := l.size } else r
    .ok (if r.actualSize ≤ 0 ∧ 0 ≤ l.actualSize then { r with actualSize := l.actualSize } else r)

/-- A chain of calls, each on the reader of the one before. -/
def chain (src : Src) (l : Level) (ls : List Level) : Except NewReaderErr Reader :=
  ls.foldlM Reader.merge (newReader src l)

namespace Reader

/-- `Reader.Read` into a buffer of `m` bytes. -/
def read (H : Hashes) (r : Reader) (m : ℕ) : Bytes × Option End × Reader :=
  let (bs, err, src) := r.src.read H m
  let sha256 := r.sha256.map (· ++ bs)
  let err := match sha256 with
    | some written =>
      if err = some .eof ∧ r.contentSHA256 ≠ H.sha256 written then
        some (.sha256Mismatch r.contentSHA256 (H.sha256 written)) else err
    | none => err
  (bs, err, { r with src, sha256, bytesRead := r.bytesRead + bs.length })

/-- Reads with buffers of these lengths until one gives an error: all bytes, and the error. -/
def readAll (H : Hashes) (r : Reader) : List ℕ → Option (Bytes × End)
  | [] => none
  | m :: ms =>
    match r.read H m with
    | (bs, some err, _) => some (bs, err)
    | (bs, none, r) => (r.readAll H ms).map fun res => (bs ++ res.1, res.2)

def ending (H : Hashes) (r : Reader) : End :=
  match r.sha256 with
  | some written =>
    let sum := H.sha256 (written ++ r.src.total)
    if r.src.ending H = .eof ∧ r.contentSHA256 ≠ sum then .sha256Mismatch r.contentSHA256 sum
    else r.src.ending H
  | none => r.src.ending H

end Reader

/-! ### Reading to the end -/

variable {H : Hashes}

/-- A read gives bytes and goes on, or the rest with the end. -/
lemma Src.read_spec (s : Src) {m : ℕ} (hm : 1 ≤ m) :
    (∃ bs s', s.read H m = (bs, none, s') ∧ bs ≠ [] ∧ bs.length ≤ m ∧ s.total = bs ++ s'.total ∧
      s'.ending H = s.ending H ∧ s'.eager = s.eager ∧ (s.eager → s'.total ≠ [])) ∨
    (∃ s', s.read H m = (s.total, some (s.ending H), s') ∧ s.total.length ≤ m ∧
      (s.total = [] ∨ s.eager)) := by
  induction s generalizing m with
  | content data eager =>
    by_cases hend : data.length ≤ m ∧ (eager ∨ data = [])
    · refine .inr ⟨.content (data.drop m) eager, ?_, hend.1, hend.2.symm⟩
      rw [Src.read, if_pos hend, take_of_length_le hend.1]
      rfl
    · refine .inl ⟨data.take m, .content _ eager, by rw [Src.read, if_neg hend],
        ?_, length_take_le _ _, (take_append_drop m data).symm, rfl, rfl, ?_⟩
      · intro hnil
        rcases take_eq_nil_iff.mp hnil with rfl | rfl
        · omega
        · exact hend ⟨Nat.zero_le m, .inr rfl⟩
      · intro heager hnil
        exact hend ⟨drop_eq_nil_iff.mp hnil, .inl heager⟩
  | limit src n ih =>
    by_cases hn : n = 0
    · subst hn
      refine .inr ⟨.limit src 0, ?_, Nat.zero_le m, .inl rfl⟩
      simp [Src.read, Src.total, Src.ending]
    · rcases ih (show 1 ≤ min m n by omega) with
        ⟨bs, s', hread, hne, hlen, htotal, hending, heager, hmore⟩ | ⟨s', hread, hlen, hlast⟩
      · have hlength := congrArg length htotal
        rw [length_append] at hlength
        refine .inl ⟨bs, .limit s' (n - bs.length), ?_, hne, by omega, ?_, ?_, ?_, ?_⟩
        · simp [Src.read, if_neg hn, hread]
        · simp [Src.total, htotal, take_append, take_of_length_le (show bs.length ≤ n by omega)]
        · simp only [Src.ending, hending, heager]
          refine if_congr ?_ rfl rfl
          by_cases hfull : bs.length = n
          · constructor
            · omega
            · rintro (h | ⟨h, -, he⟩)
              · omega
              · exact absurd (length_eq_zero_iff.mp (by omega)) (hmore he)
          · constructor
            · rintro (h | ⟨h, -, he⟩)
              · exact .inl (by omega)
              · exact .inr ⟨by omega, hn, he⟩
            · rintro (h | ⟨h, -, he⟩)
              · exact .inl (by omega)
              · exact .inr ⟨by omega, by omega, he⟩
        · simp only [Src.eager, heager]
          exact congrArg _ (decide_eq_decide.mpr (by omega))
        · intro he hnil
          simp only [Src.eager, Bool.and_eq_true, decide_eq_true_eq] at he
          have hlength' := length_pos_iff.mpr (hmore he.1)
          rcases take_eq_nil_iff.mp hnil with h | h
          · omega
          · exact hmore he.1 h
      · have htake : src.total.take n = src.total := take_of_length_le (by omega)
        refine .inr ⟨.limit s' (n - src.total.length), ?_, ?_, ?_⟩
        · have hseen : src.total.length < n ∨ src.total.length = n ∧ n ≠ 0 ∧ src.eager := by
            rcases Nat.lt_or_ge src.total.length n with h | h
            · exact .inl h
            · refine .inr ⟨by omega, hn, hlast.resolve_left ?_⟩
              rintro hnil
              rw [hnil, length_nil] at h
              omega
          simp [Src.read, if_neg hn, hread, Src.total, htake, Src.ending, if_pos hseen]
        · rw [Src.total, htake]
          omega
        · simp only [Src.total, htake, Src.eager, Bool.and_eq_true, decide_eq_true_eq]
          exact hlast.imp_right fun he => ⟨he, by omega⟩
  | etag src checksum written ih =>
    rcases ih hm with
      ⟨bs, s', hread, hne, hlen, htotal, hending, heager, hmore⟩ | ⟨s', hread, hlen, hlast⟩
    · refine .inl ⟨bs, .etag s' checksum (written ++ bs), ?_, hne, hlen, htotal, ?_, heager, hmore⟩
      · simp [Src.read, hread]
      · simp [Src.ending, hending, htotal]
    · refine .inr ⟨.etag s' checksum (written ++ src.total), ?_, hlen, hlast⟩
      simp only [Src.read, hread, Src.total, Src.ending, Option.some.injEq]
      split_ifs <;> rfl

lemma Reader.readAll_eq (r : Reader) {ms : List ℕ} (hms : ∀ m ∈ ms, 1 ≤ m)
    (hlen : r.src.total.length < ms.length) :
    r.readAll H ms = some (r.src.total, r.ending H) := by
  induction ms generalizing r with
  | nil => exact absurd hlen (Nat.not_lt_zero _)
  | cons m ms ih =>
    rcases r.src.read_spec (hms m mem_cons_self) with
      ⟨bs, s', hread, hne, -, htotal, hending, -, -⟩ | ⟨s', hread, -, -⟩
    · have hstep : r.read H m = (bs, none, { r with
          src := s'
          sha256 := r.sha256.map (· ++ bs)
          bytesRead := r.bytesRead + bs.length }) := by
        unfold Reader.read
        rw [hread]
        cases r.sha256 <;> simp
      have hpos := length_pos_iff.mpr hne
      rw [htotal, length_append, length_cons] at hlen
      rw [Reader.readAll, hstep]
      dsimp only
      rw [ih _ (fun x hx => hms x (mem_cons_of_mem m hx)) (by dsimp only; omega)]
      simp only [Option.map_some, htotal, Reader.ending, hending]
      cases r.sha256 <;> simp
    · rw [Reader.readAll, Reader.read, hread]
      unfold Reader.ending
      cases r.sha256 with
      | none => rfl
      | some written =>
        simp only [Option.map_some, Option.some.injEq]
        split_ifs <;> rfl

lemma Reader.ending_eq_eof_iff (r : Reader) : r.ending H = .eof ↔ r.src.ending H = .eof ∧
      ∀ written, r.sha256 = some written → r.contentSHA256 = H.sha256 (written ++ r.src.total) := by
  unfold Reader.ending
  cases r.sha256 with
  | none => simp
  | some written =>
    simp only [Option.some.injEq, forall_eq']
    split_ifs with h
    · simp [h.2]
    · constructor
      · intro heof
        exact ⟨heof, not_not.mp fun hne => h ⟨heof, hne⟩⟩
      · exact And.left

/-! ### The chain of calls -/

lemma merge_ok {r r' : Reader} {l : Level} (h : r.merge l = .ok r') :
    r'.sha256 = r.sha256 ∧ r'.contentSHA256 = l.sha256 ∧
      (r'.src = r.src ∧ r'.size = r.size ∧ (r.size < 0 → l.size < 0) ∨
        r.size < 0 ∧ 0 ≤ l.size ∧ r'.src = .limit r.src l.size.toNat ∧ r'.size = l.size) := by
  unfold Reader.merge at h
  dsimp only at h
  by_cases hlate : r.size < 0 ∧ 0 ≤ l.size
  · split_ifs at h <;> cases h
    all_goals exact ⟨rfl, rfl, .inr ⟨hlate.1, hlate.2, rfl, rfl⟩⟩
  · split_ifs at h <;> cases h
    all_goals exact ⟨rfl, rfl, .inl ⟨rfl, rfl, fun hr => not_le.mp fun hl => hlate ⟨hr, hl⟩⟩⟩

lemma foldlM_merge_ok {ls : List Level} {r r' : Reader} (h : ls.foldlM Reader.merge r = .ok r') :
    r'.sha256 = r.sha256 ∧ r'.contentSHA256 = (ls.getLast?.map Level.sha256).getD r.contentSHA256 ∧
      (r'.src = r.src ∧ (r.size < 0 → ∀ l ∈ ls, l.size < 0) ∨
        r.size < 0 ∧ ∃ l ∈ ls, 0 ≤ l.size ∧ r'.src = .limit r.src l.size.toNat) := by
  induction ls generalizing r with
  | nil =>
    cases h
    exact ⟨rfl, rfl, .inl ⟨rfl, nofun⟩⟩
  | cons l ls ih =>
    obtain ⟨r₁, hl, h⟩ := of_bind_ok h
    obtain ⟨hsha, hcontent, hsrc⟩ := merge_ok hl
    obtain ⟨hsha', hcontent', hsrc'⟩ := ih h
    refine ⟨hsha'.trans hsha, ?_, ?_⟩
    · rw [hcontent', hcontent, getLast?_cons]
      cases ls.getLast? <;> rfl
    · rcases hsrc with ⟨hsame, hsize, hneg⟩ | ⟨hneg, hpos, hlimit, hsize⟩
      · rw [hsize, hsame] at hsrc'
        rcases hsrc' with ⟨hsrc', hall⟩ | ⟨hneg', x, hx, hxpos, hlimit⟩
        · refine .inl ⟨hsrc', fun hr x hx => ?_⟩
          rcases mem_cons.mp hx with rfl | hx
          · exact hneg hr
          · exact hall hr x hx
        · exact .inr ⟨hneg', x, mem_cons_of_mem l hx, hxpos, hlimit⟩
      · rcases hsrc' with ⟨hsrc', -⟩ | ⟨hneg', -⟩
        · exact .inr ⟨hneg, l, mem_cons_self, hpos, hsrc'.trans hlimit⟩
        · omega

variable {l : Level} {ls : List Level} {data : Bytes} {eager : Bool} {r : Reader}

/-- The size is given by a later call, after the MD5 reader has been made. -/
def LateSize (l : Level) (ls : List Level) : Prop := l.size < 0 ∧ ∃ x ∈ ls, 0 ≤ x.size

def lastLevel (l : Level) (ls : List Level) : Level := ls.getLast?.getD l

lemma chain_ok (h : chain (.content data eager) l ls = .ok r) :
    r.sha256 = (if l.sha256 ≠ [] then some [] else none) ∧
      r.contentSHA256 = (lastLevel l ls).sha256 ∧
      (¬ LateSize l ls ∧ r.src = (newReader (.content data eager) l).src ∨
        LateSize l ls ∧ ∃ x ∈ ls, r.src =
          .limit (.etag (.content data eager) l.md5 []) x.size.toNat) := by
  obtain ⟨hsha, hcontent, hsrc⟩ := foldlM_merge_ok h
  refine ⟨hsha, ?_, ?_⟩
  · rw [hcontent, lastLevel]
    cases ls.getLast? <;> rfl
  · rcases hsrc with ⟨hsrc, hall⟩ | ⟨hneg, x, hx, hpos, hsrc⟩
    · refine .inl ⟨?_, hsrc⟩
      rintro ⟨hneg, x, hx, hpos⟩
      exact absurd (hall hneg x hx) (not_lt.mpr hpos)
    · refine .inr ⟨⟨hneg, x, hx, hpos⟩, x, hx, ?_⟩
      change l.size < 0 at hneg
      rw [hsrc, newReader, if_neg (not_le.mpr hneg)]

lemma src_ending (h : chain (.content data eager) l ls = .ok r) : (¬ LateSize l ls →
      (r.src.ending H = .eof ↔ (l.md5 ≠ [] → H.md5 r.src.total = l.md5))) ∧
    (l.md5 = [] → r.src.ending H = .eof) ∧
    (LateSize l ls → (∀ x ∈ ls, x.size.toNat < data.length) → r.src.ending H = .eof) := by
  have hetag (s : Src) (hs : s.ending H = .eof) : (Src.etag s l.md5 []).ending H = .eof ↔
      (l.md5 ≠ [] → H.md5 s.total = l.md5) := by
    rw [Src.ending, hs, nil_append]
    split_ifs with hbad
    · simp [hbad.2]
    · simpa using fun hne => not_not.mp fun hsum => hbad ⟨rfl, hne, hsum⟩
  obtain ⟨-, -, ⟨hnot, hsrc⟩ | ⟨hlate, x, hx, hsrc⟩⟩ := chain_ok h
  · rw [hsrc]
    have hinner : (if 0 ≤ l.size then Src.limit (.content data eager) l.size.toNat
        else .content data eager).ending H = .eof := by
      split_ifs
      · simp [Src.ending]
      · rfl
    refine ⟨fun _ => hetag _ hinner, fun hnil => (hetag _ hinner).mpr fun hne => absurd hnil hne,
      fun hlate => absurd hlate hnot⟩
  · refine ⟨fun hnot => absurd hlate hnot, fun hnil => ?_, fun _ hlong => ?_⟩
    · rw [hsrc, Src.ending, (hetag _ rfl).mpr fun hne => absurd hnil hne, ite_self]
    · rw [hsrc, Src.ending, if_neg]
      have hlt : x.size.toNat < data.length := hlong x hx
      simp only [Src.total]
      omega

/-! ### Which digests are checked -/

/-- The content has every digest that is given at some level. -/
def Matches (H : Hashes) (levels : List Level) (content : Bytes) : Prop :=
  ∀ x ∈ levels, (x.md5 ≠ [] → H.md5 content = x.md5) ∧ (x.sha256 ≠ [] → H.sha256 content = x.sha256)

/-- The levels that give a digest give the same. -/
def OneDigest (digest : Level → Bytes) (levels : List Level) : Prop :=
  ∀ x ∈ levels, ∀ y ∈ levels, digest x ≠ [] → digest y ≠ [] → digest x = digest y

/-- Either the first level gives the digests that are given at all and the size, if it gives an MD5,
and the last level repeats its SHA-256; or the last level drops this, so that reading always fails,
but different digests are given which no content has. -/
def DigestsKept (l : Level) (ls : List Level) : Prop :=
  ((l.sha256 ≠ [] → (lastLevel l ls).sha256 ≠ []) ∧ (∀ x ∈ ls, x.md5 ≠ [] → x.md5 = l.md5) ∧
    (∀ x ∈ ls, x.sha256 ≠ [] → x.sha256 = l.sha256) ∧ (l.md5 ≠ [] → ¬ LateSize l ls)) ∨
  l.sha256 ≠ [] ∧ (lastLevel l ls).sha256 = [] ∧
    ¬ (OneDigest Level.md5 (l :: ls) ∧ OneDigest Level.sha256 (l :: ls))

lemma lastLevel_mem : lastLevel l ls ∈ l :: ls := by
  unfold lastLevel
  cases hlast : ls.getLast? with
  | none => exact mem_cons_self
  | some x => exact mem_cons_of_mem l (mem_of_getLast? hlast)

lemma sha256_checked (h : chain (.content data eager) l ls = .ok r) :
    r.ending H = .eof ↔ r.src.ending H = .eof ∧
      (l.sha256 ≠ [] → (lastLevel l ls).sha256 = H.sha256 r.src.total) := by
  obtain ⟨hsha, hcontent, -⟩ := chain_ok h
  rw [Reader.ending_eq_eof_iff, hsha, hcontent]
  split_ifs with hne
  · simp [hne]
  · simp [hne]

lemma ending_iff_of_kept (hkept : DigestsKept l ls) (h : chain (.content data eager) l ls = .ok r) :
    r.ending H = .eof ↔ Matches H (l :: ls) r.src.total := by
  rw [sha256_checked h]
  obtain ⟨hchecked, hnone, -⟩ := src_ending (H := H) h
  rcases hkept with ⟨hlast, hmd5, hsha, hlate⟩ | ⟨hne, hlast, htwo⟩
  · have hsrc : r.src.ending H = .eof ↔ (l.md5 ≠ [] → H.md5 r.src.total = l.md5) := by
      by_cases hnil : l.md5 = []
      · simp [hnone hnil, hnil]
      · exact hchecked (hlate hnil)
    have hlastEq (hne : l.sha256 ≠ []) : (lastLevel l ls).sha256 = l.sha256 := by
      rcases mem_cons.mp (lastLevel_mem : lastLevel l ls ∈ l :: ls) with heq | hmem
      · rw [heq]
      · exact hsha _ hmem (hlast hne)
    rw [hsrc]
    constructor
    · rintro ⟨hm, hs⟩ x hx
      rcases mem_cons.mp hx with rfl | hx
      · exact ⟨hm, fun hne => by rw [← hs hne, hlastEq hne]⟩
      · refine ⟨fun hne => ?_, fun hne => ?_⟩
        · have heq := hmd5 x hx hne
          rw [heq] at hne ⊢
          exact hm hne
        · have heq := hsha x hx hne
          rw [heq] at hne ⊢
          rw [← hs hne, hlastEq hne]
    · intro hall
      obtain ⟨hm, hs⟩ := hall l mem_cons_self
      exact ⟨hm, fun hne => by rw [hs hne, hlastEq hne]⟩
  · constructor
    · rintro ⟨-, hs⟩
      exact absurd (hlast ▸ hs hne).symm (H.sha256_ne _)
    · intro hall
      refine absurd ⟨?_, ?_⟩ htwo
      · intro x hx y hy hxne hyne
        rw [← (hall x hx).1 hxne, (hall y hy).1 hyne]
      · intro x hx y hy hxne hyne
        rw [← (hall x hx).2 hxne, (hall y hy).2 hyne]

/-- Hash functions with the same sums for every content. -/
def Hashes.const (md5 sha256 : Bytes) (hmd5 : md5 ≠ []) (hsha256 : sha256 ≠ []) : Hashes :=
  ⟨fun _ => md5, fun _ => sha256, fun _ => hmd5, fun _ => hsha256⟩

lemma exists_of_oneDigest {digest : Level → Bytes} {levels : List Level}
    (h : OneDigest digest levels) : ∃ d ≠ [], ∀ x ∈ levels, digest x ≠ [] → d = digest x := by
  by_cases hsome : ∃ x ∈ levels, digest x ≠ []
  · obtain ⟨x, hx, hne⟩ := hsome
    exact ⟨digest x, hne, fun y hy hyne => h x hx y hy hne hyne⟩
  · push Not at hsome
    exact ⟨[0], cons_ne_nil _ _, fun x hx hne => absurd (hsome x hx) hne⟩

lemma eq_nil_of_two {d : Bytes} (h : ∀ s : Bytes, s ≠ [] → d ≠ [] → s = d) : d = [] := by
  by_contra hne
  have heq := (h [0] (cons_ne_nil _ _) hne).trans (h [1] (cons_ne_nil _ _) hne).symm
  exact absurd heq (by decide)

lemma kept_of_sums (pass : Bytes → Bytes → Prop)
    (hmd5 : ∀ a b, (l.md5 ≠ [] → a = l.md5) → pass a b) (hlate : LateSize l ls → ∀ a b, pass a b)
    (h : ∀ a b, a ≠ [] → b ≠ [] → (pass a b ∧ (l.sha256 ≠ [] → (lastLevel l ls).sha256 = b) ↔
      ∀ x ∈ l :: ls, (x.md5 ≠ [] → a = x.md5) ∧ (x.sha256 ≠ [] → b = x.sha256))) :
    DigestsKept l ls := by
  by_cases hdrop : l.sha256 ≠ [] ∧ (lastLevel l ls).sha256 = []
  · refine .inr ⟨hdrop.1, hdrop.2, ?_⟩
    rintro ⟨hone, hone'⟩
    obtain ⟨a, ha, hall⟩ := exists_of_oneDigest hone
    obtain ⟨b, hb, hall'⟩ := exists_of_oneDigest hone'
    have hpass := (h a b ha hb).mpr fun x hx => ⟨hall x hx, hall' x hx⟩
    exact hb ((hpass.2 hdrop.1).symm.trans hdrop.2)
  · rw [not_and] at hdrop
    obtain ⟨a, ha, hpassed⟩ : ∃ a ≠ [], l.md5 ≠ [] → a = l.md5 := by
      by_cases hne : l.md5 = []
      · exact ⟨[0], cons_ne_nil _ _, fun h => absurd hne h⟩
      · exact ⟨l.md5, hne, fun _ => rfl⟩
    obtain ⟨b, hb, hlast⟩ : ∃ b ≠ [], l.sha256 ≠ [] → (lastLevel l ls).sha256 = b := by
      by_cases hne : l.sha256 = []
      · exact ⟨[0], cons_ne_nil _ _, fun h => absurd hne h⟩
      · exact ⟨_, hdrop hne, fun _ => rfl⟩
    refine .inl ⟨hdrop, fun x hx hne => ?_, fun x hx hne => ?_, fun hne hlateSize => ?_⟩
    · by_cases hnil : l.md5 = []
      · refine absurd (eq_nil_of_two fun s hs => ?_) hne
        have hpass := hmd5 s b fun h => absurd hnil h
        exact ((h s b hs hb).mp ⟨hpass, hlast⟩ x (mem_cons_of_mem l hx)).1
      · have hall := (h a b ha hb).mp ⟨hmd5 a b hpassed, hlast⟩
        rw [← (hall x (mem_cons_of_mem l hx)).1 hne, hpassed hnil]
    · by_cases hnil : l.sha256 = []
      · refine absurd (eq_nil_of_two fun s hs => ?_) hne
        have hall := (h a s ha hs).mp ⟨hmd5 a s hpassed, fun h => absurd hnil h⟩
        exact (hall x (mem_cons_of_mem l hx)).2
      · have hall := (h a b ha hb).mp ⟨hmd5 a b hpassed, hlast⟩
        rw [← (hall x (mem_cons_of_mem l hx)).2 hne, (hall l mem_cons_self).2 hnil]
    · have hall := (h (l.md5 ++ [0]) b (append_ne_nil_of_right_ne_nil _
        (cons_ne_nil _ _)) hb).mp ⟨hlate hlateSize _ _, hlast⟩
      have heq := congrArg length ((hall l mem_cons_self).1 hne)
      rw [length_append, length_singleton] at heq
      omega

lemma length_total_le (h : chain (.content data eager) l ls = .ok r) :
    r.src.total.length ≤ data.length := by
  obtain ⟨-, -, ⟨-, hsrc⟩ | ⟨-, x, -, hsrc⟩⟩ := chain_ok h
  · rw [hsrc, newReader, Src.total]
    split_ifs
    · exact List.length_take_le' _ _
    · exact le_refl _
  · rw [hsrc]
    exact List.length_take_le' _ _

/-- Reading through a chain of `NewReader` calls ends without a mismatch exactly for the content
that has all the digests, whatever the content and the hash functions are, if and only if the
digests are kept. -/
theorem digests_checked_iff (l : Level) (ls : List Level)
    (hok : ∀ src, ∃ r, chain src l ls = .ok r) :
    (∀ (H : Hashes) (data : Bytes) (eager : Bool) (r : Reader) (ms : List ℕ),
      chain (.content data eager) l ls = .ok r → (∀ m ∈ ms, 1 ≤ m) → data.length < ms.length →
        ∃ delivered fin, r.readAll H ms = some (delivered, fin) ∧
          (fin = .eof ↔ Matches H (l :: ls) delivered)) ↔ DigestsKept l ls := by
  constructor
  · intro hall
    obtain ⟨data, hlong⟩ : ∃ data : Bytes, ∀ x ∈ ls, x.size.toNat < data.length := by
      refine ⟨replicate ((ls.map fun x => x.size.toNat).sum + 1) 0, fun x hx => ?_⟩
      rw [length_replicate, Nat.lt_succ_iff]
      exact List.le_sum_of_mem (mem_map_of_mem hx)
    obtain ⟨r, hr⟩ := hok _
    have hends (H : Hashes) : r.ending H = .eof ↔ Matches H (l :: ls) r.src.total := by
      have hlen : data.length < (replicate (data.length + 1) 1).length := by simp
      have hms : ∀ m ∈ replicate (data.length + 1) 1, 1 ≤ m :=
        fun m hm => (eq_of_mem_replicate hm).ge
      obtain ⟨delivered, fin, hread, hiff⟩ := hall H data false r _ hr hms hlen
      rw [Reader.readAll_eq r hms ((length_total_le hr).trans_lt hlen)] at hread
      cases hread
      exact hiff
    refine kept_of_sums
      (fun a b => ∀ (ha : a ≠ []) (hb : b ≠ []), r.src.ending (.const a b ha hb) = .eof) ?_ ?_ ?_
    · intro a b hpassed ha hb
      obtain ⟨hchecked, -, hhidden⟩ := src_ending hr
      by_cases hlate : LateSize l ls
      · exact hhidden hlate hlong
      · exact (hchecked hlate).mpr hpassed
    · intro hlate a b ha hb
      exact (src_ending hr).2.2 hlate hlong
    · intro a b ha hb
      have h := hends (.const a b ha hb)
      rw [sha256_checked hr] at h
      refine Iff.trans (and_congr_left fun _ => ?_) h
      exact ⟨fun hpass => hpass ha hb, fun hpass _ _ => hpass⟩
  · intro hkept H data eager r ms hr hms hlen
    have htotal := length_total_le hr
    exact ⟨_, _, r.readAll_eq hms (by omega), ending_iff_of_kept hkept hr⟩

/-- The second level repeats the size and the SHA-256 of the first one, and gives no MD5. -/
theorem digests_checked_iff_two :
    let l : Level := ⟨2, [10], [11], 2⟩
    let l' : Level := ⟨2, [], [11], 2⟩
    DigestsKept l [l'] ∧ ∀ (H : Hashes) (data : Bytes) (eager : Bool) (r : Reader) (ms : List ℕ),
      chain (.content data eager) l [l'] = .ok r → (∀ m ∈ ms, 1 ≤ m) → data.length < ms.length →
        ∃ delivered fin, r.readAll H ms = some (delivered, fin) ∧
          (fin = .eof ↔ Matches H [l, l'] delivered) := by
  intro l l'
  have hkept : DigestsKept l [l'] := by
    refine .inl ⟨id, fun x hx hne => ?_, fun x hx _ => ?_, ?_⟩
    · rw [mem_singleton.mp hx] at hne
      exact absurd rfl hne
    · rw [mem_singleton.mp hx]
    · rintro - ⟨hneg, -⟩
      exact absurd hneg (by decide)
  exact ⟨hkept, (digests_checked_iff l [l'] fun src => ⟨_, rfl⟩).mpr hkept⟩

/-- The MD5 of the second call is not checked, since the first one gave none. -/
theorem second_md5_not_checked :
    let l : Level := ⟨1, [], [], 1⟩
    let l' : Level := ⟨1, [10], [], 1⟩
    let H : Hashes := .const [1] [1] (cons_ne_nil _ _) (cons_ne_nil _ _)
    ∃ r, chain (.content [7] false) l [l'] = .ok r ∧ r.readAll H [1, 1] = some ([7], .eof) ∧
      ¬ Matches H [l, l'] [7] := by
  intro l l' H
  refine ⟨_, rfl, rfl, fun hall => ?_⟩
  have hmd5 := (hall l' (by simp)).1 (by decide)
  exact absurd hmd5 (by decide)

end Obstor.Hash
