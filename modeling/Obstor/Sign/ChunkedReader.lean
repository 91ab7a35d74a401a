import Obstor.Go.Streams

/-!
# The reader of a signed stream

`s3ChunkedReader` (`cmd/streaming-signature-v4.go`) reads the body of an upload that is sent in
chunks, each with a signature over its payload and the signature before it. `read` delivers bytes of
a chunk after its signature has been verified; the last chunk is an empty one.

`reads_verified`: what a sequence of reads delivers is the front of the payloads of a chain of
verified chunks, all of it if the end is reported. There is one inversion lemma for each reading
step, up to `readChunk_ok`; `read_cases` is the step and `reads_spec` the run.
-/

namespace Obstor.Sign

open Go List

/-! ### Chunks -/

/-- What the signature of a chunk depends on besides the chunk: the text of the date, the scope, and
`getSignature` with the signing key. `sha256` gives the sum in hex. -/
structure ChunkSigner where
  sha256 : Bytes → Bytes
  getSignature : Bytes → Bytes
  date : Bytes
  scope : Bytes

def emptySHA256 : Bytes :=
  stringBytes "e3b0c44298fc1c149afbf4c8996fb92427ae41e4649b934ca495991b7852b855"

def signV4ChunkedAlgorithm : Bytes := stringBytes "AWS4-HMAC-SHA256-PAYLOAD"

def getChunkSignature (k : ChunkSigner) (seedSignature hashedChunk : Bytes) : Bytes :=
  let nl := stringBytes "\n"
  k.getSignature (signV4ChunkedAlgorithm ++ nl ++ k.date ++ nl ++ k.scope ++ nl ++ seedSignature ++
    nl ++ emptySHA256 ++ nl ++ hashedChunk)

/-- A chunk: the digits of the size, the signature and the payload. -/
structure Chunk where
  digits : Bytes
  signature : Bytes
  payload : Bytes

/-- The value of a byte as a hexadecimal digit. -/
def hexDigit (b : UInt8) : Option ℕ :=
  if 48 ≤ b.toNat ∧ b.toNat ≤ 57 then some (b.toNat - 48)
  else if 97 ≤ b.toNat ∧ b.toNat ≤ 102 then some (b.toNat - 87)
  else if 65 ≤ b.toNat ∧ b.toNat ≤ 70 then some (b.toNat - 55)
  else none

/-- The number that the digits stand for, when `n` is the number of those before. -/
def hexValue (n : ℕ) (digits : Bytes) : Option ℕ :=
  digits.foldlM (fun n b => (hexDigit b).map fun d => n <<< 4 ||| d) n

def chunkSignature : Bytes := stringBytes "chunk-signature="
def semicolon : UInt8 := 59
def cr : UInt8 := 13
def lf : UInt8 := 10

namespace Chunk

def encode (c : Chunk) : Bytes :=
  c.digits ++ [semicolon] ++ chunkSignature ++ c.signature ++ [cr, lf] ++ c.payload ++ [cr, lf]

/-- A chunk that says its size and has the signature that is chained to `seed`. -/
structure Verified (k : ChunkSigner) (seed : Bytes) (c : Chunk) : Prop where
  size : hexValue 0 c.digits = some c.payload.length
  signature : c.signature = getChunkSignature k seed (k.sha256 c.payload)

/-- Every chunk verifies, with the signature of the one before it as the seed. -/
def Chained (k : ChunkSigner) : Bytes → List Chunk → Prop
  | _, [] => True
  | seed, c :: cs => c.Verified k seed ∧ Chained k c.signature cs

end Chunk

/-! ### The reader -/

inductive StreamErr
  | eof
  | unexpectedEOF
  | malformedEncoding
  | signatureMismatch
  | read (err : Err)
  deriving DecidableEq

/-- `s3ChunkedReader`, between two calls without an error. -/
structure ChunkedReader where
  reader : Source
  seedSignature : Bytes
  buffer : Bytes := replicate (64 * 1024) 0
  offset : ℕ := 0

/-- `io.ReadFull` or `ReadByte`, where the end of the stream is unexpected. -/
def fill (s : Source) (n : ℕ) : Except StreamErr (Bytes × Source) :=
  let r := s.readFull n
  match r.fin with
  | .full => .ok (r.bytes, r.rest)
  | .eof => .error .unexpectedEOF
  | .failed err => .error (.read err)

def require (b : Bool) (err : StreamErr) : Except StreamErr Unit :=
  if b then .ok () else .error err

/-- A byte that has to be `b`. -/
def expect (b : UInt8) (s : Source) : Except StreamErr Source := do
  let (bs, s) ← fill s 1
  require (bs = [b]) .malformedEncoding
  return s

/-- The loop that reads the size, with what is left of the stream. -/
def readSize (err : Option Err) : Bytes → ℕ → Except StreamErr (ℕ × Source)
  | [], _ => .error (match err with | none => .unexpectedEOF | some err => .read err)
  | b :: bs, size =>
    if b = semicolon then .ok (size, ⟨bs, err⟩)
    else match hexDigit b with
      | none => .error .malformedEncoding
      | some d =>
        let size := size <<< 4 ||| d
        if size > 1 <<< 20 then .error .malformedEncoding else readSize err bs size

/-- The part of `Read` that reads and verifies a chunk: the payload, the signature and the rest of
the stream. -/
def readChunk (k : ChunkSigner) (seedSignature : Bytes) (s : Source) :
    Except StreamErr (Bytes × Bytes × Source) := do
  let (size, s) ← readSize s.err s.data 0
  let (signature, s) ← fill s 80
  require (chunkSignature.isPrefixOf signature) .malformedEncoding
  let s ← expect cr s
  let s ← expect lf s
  let (payload, s) ← fill s size
  -- the error of this `ReadByte` is dropped, and the byte is then zero
  let s ← (expect cr s).mapError fun _ => .malformedEncoding
  let s ← expect lf s
  let newSignature := getChunkSignature k seedSignature (k.sha256 payload)
  require (signature.drop 16 = newSignature) .signatureMismatch
  return (payload, newSignature, s)

namespace ChunkedReader

/-- `s3ChunkedReader.Read` into a buffer of `m` bytes: the bytes it reports, and the reader after
it or the error. -/
def read (k : ChunkSigner) (r : ChunkedReader) (m : ℕ) : Bytes × Except StreamErr ChunkedReader :=
  let first := if r.offset > 0 then (r.buffer.drop r.offset).take m else []
  if r.offset > 0 ∧ first.length = m then (first, .ok { r with offset := r.offset + m })
  else match readChunk k r.seedSignature r.reader with
    | .error err => (first, .error err)
    | .ok (payload, seedSignature, reader) =>
      if payload.length = 0 then (first, .error .eof)
      else
        let copied := payload.take (m - first.length)
        (first ++ copied, .ok ⟨reader, seedSignature, payload, copied.length⟩)

/-- Calls with buffers of these lengths, up to the first that returns an error: all the bytes they
report, and the error. -/
def reads (k : ChunkSigner) (r : ChunkedReader) : List ℕ → Bytes × Option StreamErr
  | [] => ([], none)
  | m :: ms =>
    match r.read k m with
    | (out, .error err) => (out, some err)
    | (out, .ok r) => (out ++ (r.reads k ms).1, (r.reads k ms).2)

/-- The verified bytes that are not delivered yet. -/
def pending (r : ChunkedReader) : Bytes := if r.offset > 0 then r.buffer.drop r.offset else []

end ChunkedReader

/-! ### What is read is a chunk -/

lemma require_ok {b : Bool} {err : StreamErr} {u : Unit} (h : require b err = .ok u) :
    b = true := by
  cases b with
  | true => rfl
  | false => cases h

variable {s s' : Source}

lemma fill_ok {n : ℕ} {bs : Bytes} (h : fill s n = .ok (bs, s')) :
    s.data = bs ++ s'.data ∧ bs.length = n := by
  unfold fill at h
  cases hfin : (s.readFull n).fin with
  | full =>
    have hle := Source.le_of_readFull_full hfin
    simp only [Source.readFull_of_le hle] at h
    cases h
    exact ⟨(take_append_drop n s.data).symm, length_take_of_le hle⟩
  | eof => simp [hfin] at h
  | failed err => simp [hfin] at h

lemma expect_ok {b : UInt8} (h : expect b s = .ok s') : s.data = b :: s'.data := by
  obtain ⟨⟨bs, t⟩, hfill, h⟩ := of_bind_ok h
  obtain ⟨_, hbs, h⟩ := of_bind_ok h
  cases h
  rw [(fill_ok hfill).1, of_decide_eq_true (require_ok hbs)]
  rfl

lemma readSize_ok {err : Option Err} {bs : Bytes} {n size : ℕ}
    (h : readSize err bs n = .ok (size, s)) :
    ∃ digits, bs = digits ++ semicolon :: s.data ∧ hexValue n digits = some size := by
  induction bs generalizing n with
  | nil => cases h
  | cons b bs ih =>
    unfold readSize at h
    by_cases hb : b = semicolon
    · rw [if_pos hb] at h
      cases h
      exact ⟨[], by rw [hb]; rfl, rfl⟩
    · rw [if_neg hb] at h
      cases hd : hexDigit b with
      | none => simp [hd] at h
      | some d =>
        simp only [hd] at h
        split_ifs at h
        obtain ⟨digits, hbs, hvalue⟩ := ih h
        refine ⟨b :: digits, by rw [hbs]; rfl, ?_⟩
        rw [hexValue, foldlM_cons, hd]
        exact hvalue

lemma readChunk_ok {k : ChunkSigner} {seed payload signature : Bytes}
    (h : readChunk k seed s = .ok (payload, signature, s')) :
    ∃ c : Chunk, c.Verified k seed ∧ s.data = c.encode ++ s'.data ∧ c.payload = payload ∧
      c.signature = signature := by
  obtain ⟨⟨size, s₁⟩, hsize, h⟩ := of_bind_ok h
  obtain ⟨⟨sig, s₂⟩, hsig, h⟩ := of_bind_ok h
  obtain ⟨_, hhead, h⟩ := of_bind_ok h
  obtain ⟨s₃, hcr, h⟩ := of_bind_ok h
  obtain ⟨s₄, hlf, h⟩ := of_bind_ok h
  obtain ⟨⟨p, s₅⟩, hpayload, h⟩ := of_bind_ok h
  obtain ⟨s₆, hcr', h⟩ := of_bind_ok h
  obtain ⟨s₇, hlf', h⟩ := of_bind_ok h
  obtain ⟨_, hverified, h⟩ := of_bind_ok h
  cases h
  obtain ⟨digits, hdigits, hvalue⟩ := readSize_ok hsize
  replace hcr' : expect cr s₅ = .ok s₆ := by
    cases hexpect : expect cr s₅ with
    | error err => simp [hexpect, Except.mapError] at hcr'
    | ok t => simpa [hexpect, Except.mapError] using hcr'
  replace hverified := of_decide_eq_true (require_ok hverified)
  obtain ⟨rest, hrest⟩ := isPrefixOf_iff_prefix.mp (require_ok hhead)
  have hdrop : sig.drop 16 = rest := by
    rw [← hrest]
    exact drop_left' (by decide +kernel)
  refine ⟨⟨digits, rest, payload⟩, ⟨?_, ?_⟩, ?_, rfl, ?_⟩
  · rw [(fill_ok hpayload).2]
    exact hvalue
  · rw [← hdrop, hverified]
  · rw [hdigits, (fill_ok hsig).1, expect_ok hcr, expect_ok hlf, (fill_ok hpayload).1,
      expect_ok hcr', expect_ok hlf', ← hrest]
    simp [Chunk.encode]
  · rw [← hdrop, hverified]

/-! ### A chunk that cannot be read is never the end -/

lemma bind_ne_eof {x : Except StreamErr α} {f : α → Except StreamErr β}
    (hx : x ≠ .error .eof) (hf : ∀ a, f a ≠ .error .eof) : (x >>= f) ≠ .error .eof := by
  cases x with
  | error err =>
    intro h
    cases h
    exact hx rfl
  | ok a => exact hf a

lemma fill_ne_eof (s : Source) (n : ℕ) : fill s n ≠ .error .eof := by
  unfold fill
  cases h : (s.readFull n).fin <;> simp [h]

lemma require_ne_eof {b : Bool} {err : StreamErr} (herr : err ≠ .eof) :
    require b err ≠ .error .eof := by
  cases b with
  | true => simp [require]
  | false => simp [require, herr]

lemma expect_ne_eof (b : UInt8) (s : Source) : expect b s ≠ .error .eof := by
  refine bind_ne_eof (fill_ne_eof s 1) fun _ => ?_
  exact bind_ne_eof (require_ne_eof nofun) fun _ => nofun

lemma readSize_ne_eof (err : Option Err) (bs : Bytes) (n : ℕ) :
    readSize err bs n ≠ .error .eof := by
  induction bs generalizing n with
  | nil => cases err <;> simp [readSize]
  | cons b bs ih =>
    unfold readSize
    split_ifs
    · simp
    · cases hexDigit b with
      | none => simp
      | some d =>
        dsimp only
        split_ifs
        · simp
        · exact ih _

lemma readChunk_ne_eof (k : ChunkSigner) (seed : Bytes) (s : Source) :
    readChunk k seed s ≠ .error .eof := by
  refine bind_ne_eof (readSize_ne_eof _ _ _) fun a => ?_
  refine bind_ne_eof (fill_ne_eof _ _) fun a => ?_
  refine bind_ne_eof (require_ne_eof nofun) fun _ => ?_
  refine bind_ne_eof (expect_ne_eof _ _) fun _ => ?_
  refine bind_ne_eof (expect_ne_eof _ _) fun _ => ?_
  refine bind_ne_eof (fill_ne_eof _ _) fun _ => ?_
  refine bind_ne_eof ?_ fun _ => ?_
  · cases expect cr _ <;> simp [Except.mapError]
  refine bind_ne_eof (expect_ne_eof _ _) fun _ => ?_
  exact bind_ne_eof (require_ne_eof nofun) fun _ => nofun

/-! ### One call and all calls -/

variable {k : ChunkSigner} {r : ChunkedReader} {m : ℕ}

namespace ChunkedReader

/-- What a call does: it gives a part of the pending bytes; or it gives them all and fails, or ends
at an empty chunk; or it gives them all with the first bytes of the next chunk. -/
lemma read_cases (hm : 1 ≤ m) :
    (∃ out r', r.read k m = (out, .ok r') ∧ r.pending = out ++ r'.pending ∧
      r'.seedSignature = r.seedSignature ∧ r'.reader = r.reader) ∨
    (∃ err, r.read k m = (r.pending, .error err) ∧ err ≠ .eof) ∨
    ∃ (c : Chunk) (rest : Bytes), c.Verified k r.seedSignature ∧ r.reader.data = c.encode ++ rest ∧
      (r.read k m = (r.pending, .error .eof) ∧ c.payload = [] ∨
        c.payload ≠ [] ∧ ∃ out r', r.read k m = (out, .ok r') ∧ r'.reader.data = rest ∧
          r'.seedSignature = c.signature ∧ r.pending ++ c.payload = out ++ r'.pending) := by
  have hfirst : (if r.offset > 0 then (r.buffer.drop r.offset).take m else []) =
      r.pending.take m := by
    unfold pending
    split_ifs
    · rfl
    · exact take_nil.symm
  unfold read
  rw [hfirst]
  by_cases hfull : r.offset > 0 ∧ (r.pending.take m).length = m
  · refine .inl ⟨_, _, if_pos hfull, ?_, rfl, rfl⟩
    simp only [pending, if_pos hfull.1, if_pos (Nat.add_pos_left hfull.1 m), ← drop_drop,
      take_append_drop]
  · have hshort : r.pending.length < m := by
      by_contra hle
      by_cases hoffset : r.offset > 0
      · exact hfull ⟨hoffset, length_take_of_le (by omega)⟩
      · rw [pending, if_neg hoffset, length_nil] at hle
        omega
    rw [if_neg hfull, take_of_length_le hshort.le]
    right
    cases hchunk : readChunk k r.seedSignature r.reader with
    | error err =>
      refine .inl ⟨err, rfl, ?_⟩
      rintro rfl
      exact readChunk_ne_eof _ _ _ hchunk
    | ok res =>
      obtain ⟨payload, signature, reader⟩ := res
      obtain ⟨c, hverified, hdata, rfl, rfl⟩ := readChunk_ok hchunk
      refine .inr ⟨c, reader.data, hverified, hdata, ?_⟩
      by_cases hempty : c.payload = []
      · refine .inl ⟨?_, hempty⟩
        simp [hempty]
      · have hpos : 0 < c.payload.length := length_pos_iff.mpr hempty
        refine .inr ⟨hempty, _, _, if_neg (by omega), rfl, rfl, ?_⟩
        have hoffset : 0 < (c.payload.take (m - r.pending.length)).length := by
          rw [length_take]
          omega
        have hrest : (c.payload.take (m - r.pending.length)) ++
            c.payload.drop (c.payload.take (m - r.pending.length)).length = c.payload :=
          prefix_iff_eq_append.mp (List.take_prefix _ _)
        rw [append_assoc, show ChunkedReader.pending ⟨reader, c.signature, c.payload, _⟩ =
          c.payload.drop _ from if_pos hoffset, hrest]

/-- Reading on from any state, with the bytes that are pending. -/
lemma reads_spec (r : ChunkedReader) {ms : List ℕ} (hms : ∀ m ∈ ms, 1 ≤ m) :
    ∃ cs rest, Chunk.Chained k r.seedSignature cs ∧
      r.reader.data = cs.flatMap Chunk.encode ++ rest ∧
      (r.reads k ms).1 <+: r.pending ++ cs.flatMap Chunk.payload ∧
      ((r.reads k ms).2 = some .eof → (r.reads k ms).1 = r.pending ++ cs.flatMap Chunk.payload ∧
          ∃ last, cs.getLast? = some last ∧ last.payload = []) := by
  induction ms generalizing r with
  | nil => exact ⟨[], r.reader.data, trivial, rfl, nil_prefix, nofun⟩
  | cons m ms ih =>
    have hrest : ∀ m ∈ ms, 1 ≤ m := fun x hx => hms x (mem_cons_of_mem m hx)
    rcases read_cases (k := k) (hms m mem_cons_self) with
      ⟨out, r', hread, hpending, hseed, hreader⟩ | ⟨err, hread, hne⟩ |
        ⟨c, rest, hc, hdata, ⟨hread, hempty⟩ | ⟨hpayload, out, r', hread, rfl, hseed, hbytes⟩⟩
    · obtain ⟨cs, rest, hchain, hdata, hprefix, heof⟩ := ih r' hrest
      rw [hseed] at hchain
      rw [hreader] at hdata
      refine ⟨cs, rest, hchain, hdata, ?_⟩
      simp only [reads, hread, hpending, append_assoc]
      refine ⟨(prefix_append_right_inj out).mpr hprefix, fun h => ?_⟩
      exact ⟨congrArg (out ++ ·) (heof h).1, (heof h).2⟩
    · refine ⟨[], r.reader.data, trivial, rfl, ?_⟩
      simp only [reads, hread]
      refine ⟨prefix_append _ _, fun h => ?_⟩
      exact absurd (Option.some.inj h) hne
    · refine ⟨[c], rest, ⟨hc, trivial⟩, ?_, ?_⟩
      · rw [hdata, flatMap_singleton]
      · simp only [reads, hread, flatMap_singleton, hempty, append_nil]
        exact ⟨prefix_rfl, fun _ => ⟨trivial, c, rfl, hempty⟩⟩
    · obtain ⟨cs, rest, hchain, hdata', hprefix, heof⟩ := ih r' hrest
      rw [hseed] at hchain
      refine ⟨c :: cs, rest, ⟨hc, hchain⟩, ?_, ?_⟩
      · rw [hdata, hdata', flatMap_cons, append_assoc]
      · simp only [reads, hread, flatMap_cons]
        rw [← append_assoc, hbytes, append_assoc]
        refine ⟨(prefix_append_right_inj out).mpr hprefix, fun h => ?_⟩
        obtain ⟨hout, last, hlast, hlastPayload⟩ := heof h
        rw [hout]
        exact ⟨rfl, last, by rw [getLast?_cons, hlast]; rfl, hlastPayload⟩

/-- Up to the first error, a reader of any stream reports a prefix of the payloads of verified
chunks that the stream starts with; it reports the end after an empty one of them, with all of the
payloads. -/
theorem reads_verified (k : ChunkSigner) (seed : Bytes) (s : Source) (ms : List ℕ)
    (hms : ∀ m ∈ ms, 1 ≤ m) :
    let r : ChunkedReader := { reader := s, seedSignature := seed }
    ∃ cs rest, Chunk.Chained k seed cs ∧ s.data = cs.flatMap Chunk.encode ++ rest ∧
      (r.reads k ms).1 <+: cs.flatMap Chunk.payload ∧
      ((r.reads k ms).2 = some .eof → (r.reads k ms).1 = cs.flatMap Chunk.payload ∧
          ∃ last, cs.getLast? = some last ∧ last.payload = []) :=
  reads_spec { reader := s, seedSignature := seed } hms

/-- A chunk of two bytes and the empty one, read with two calls. -/
theorem reads_verified_signed :
    let k : ChunkSigner := ⟨id, fun _ => replicate 64 97, [], []⟩
    let signed : List Chunk := [⟨[50], replicate 64 97, [1, 2]⟩, ⟨[48], replicate 64 97, []⟩]
    let r : ChunkedReader := { reader := ⟨signed.flatMap Chunk.encode, none⟩, seedSignature := [] }
    r.reads k [1, 4] = ([1, 2], some .eof) ∧
      ∃ cs rest, Chunk.Chained k [] cs ∧
        signed.flatMap Chunk.encode = cs.flatMap Chunk.encode ++ rest ∧
        cs.flatMap Chunk.payload = [1, 2] := by
  intro k signed r
  have hreads : r.reads k [1, 4] = ([1, 2], some .eof) := by decide +kernel
  obtain ⟨cs, rest, hchain, hdata, -, heof⟩ :=
    reads_verified k [] ⟨signed.flatMap Chunk.encode, none⟩ [1, 4] (by decide)
  refine ⟨hreads, cs, rest, hchain, hdata, ?_⟩
  rw [← (heof (congrArg Prod.snd hreads)).1]
  exact congrArg Prod.fst hreads

end ChunkedReader

end Obstor.Sign
