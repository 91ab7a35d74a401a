import Obstor.Go.Values

/-!
# Streams

* `Source`, an `io.Reader`: the bytes it still has and how it ends. `readFull` is `io.ReadFull`
  into a buffer; `io.EOF` and `io.ErrUnexpectedEOF` are one case, as its callers treat them alike.
* `Sink`, an `io.Writer`: the bytes written so far. A sink with `room` takes that many more bytes
  and then fails with its error, possibly in the middle of a write.
-/

namespace Obstor.Go

/-! ### Readers -/

/-- An `io.Reader`: the bytes to come, and the error that follows them, `none` for `io.EOF`. -/
structure Source where
  data : Bytes
  err : Option Err
  deriving DecidableEq

inductive ReadEnd
  /-- The buffer is full. -/
  | full
  /-- `io.EOF` or `io.ErrUnexpectedEOF`. -/
  | eof
  | failed (err : Err)
  deriving DecidableEq

/-- What `io.ReadFull` gives: the bytes, how it returned, and the source behind them. -/
structure Filled where
  bytes : Bytes
  fin : ReadEnd
  rest : Source

/-- `io.ReadFull` into a buffer of `n` bytes. -/
def Source.readFull (s : Source) (n : ℕ) : Filled :=
  if n ≤ s.data.length then ⟨s.data.take n, .full, { s with data := s.data.drop n }⟩
  else
    ⟨s.data, match s.err with | none => .eof | some err => .failed err, { s with data := [] }⟩

variable {s : Source} {n : ℕ}

lemma Source.readFull_of_le (h : n ≤ s.data.length) :
    s.readFull n = ⟨s.data.take n, .full, { s with data := s.data.drop n }⟩ := if_pos h

lemma Source.readFull_of_lt (h : s.data.length < n) :
    s.readFull n = ⟨s.data, match s.err with | none => .eof | some err => .failed err,
      { s with data := [] }⟩ := if_neg (by omega)

lemma Source.le_of_readFull_full (h : (s.readFull n).fin = .full) : n ≤ s.data.length := by
  by_contra hlt
  rw [Source.readFull_of_lt (by omega)] at h
  cases he : s.err <;> simp [he] at h

lemma Source.length_rest_lt (hn : 0 < n) (h : (s.readFull n).fin = .full) :
    (s.readFull n).rest.data.length < s.data.length := by
  have hle := Source.le_of_readFull_full h
  rw [Source.readFull_of_le hle]
  simp only [List.length_drop]
  omega

lemma of_bind_ok {x : Except ε α} {f : α → Except ε β} {b : β}
    (h : (x >>= f) = .ok b) : ∃ a, x = .ok a ∧ f a = .ok b := by
  cases x with
  | error err => cases h
  | ok a => exact ⟨a, rfl, h⟩

/-! ### Writers -/

structure Sink where
  out : Bytes
  /-- The number of bytes it still takes, `none` for no limit. -/
  room : Option ℕ
  /-- The error of a write that does not fit. -/
  err : Err
  deriving DecidableEq

namespace Sink

/-- A writer that takes everything, with nothing written. -/
def unlimited : Sink := ⟨[], none, .unexpected⟩

def write (s : Sink) (bs : Bytes) : Sink × Option Err :=
  match s.room with
  | none => ({ s with out := s.out ++ bs }, none)
  | some room =>
    if bs.length ≤ room then ({ s with out := s.out ++ bs, room := some (room - bs.length) }, none)
    else ({ s with out := s.out ++ bs.take room, room := some 0 }, some s.err)

variable {s : Sink} {bs : Bytes}

lemma out_write (h : (s.write bs).2 = none) : (s.write bs).1.out = s.out ++ bs := by
  unfold write at h ⊢
  split
  · rfl
  · split_ifs with hle
    · rfl
    · simp_all

lemma out_write_isPrefix (s : Sink) (bs : Bytes) : (s.write bs).1.out <+: s.out ++ bs := by
  unfold write
  split
  · exact List.prefix_rfl
  · split_ifs
    · exact List.prefix_rfl
    · exact (List.prefix_append_right_inj _).mpr (List.take_prefix _ _)

lemma write_unlimited (bs : Bytes) (h : s.room = none) :
    (s.write bs).2 = none ∧ (s.write bs).1.room = none := by
  unfold write
  rw [h]
  exact ⟨rfl, rfl⟩

lemma write_cases (s : Sink) (bs : Bytes) :
    (∃ s', s.write bs = (s', none) ∧ s'.out = s.out ++ bs ∧ (s.room = none → s'.room = none)) ∨
      ∃ s' err, s.write bs = (s', some err) ∧ s.room ≠ none := by
  rcases h : s.write bs with ⟨s', _ | err⟩
  · refine Or.inl ⟨s', rfl, ?_, fun hroom => ?_⟩
    · have hout : (s.write bs).1.out = s.out ++ bs := out_write (by rw [h])
      rwa [h] at hout
    · have hkeep := (write_unlimited bs hroom).2
      rwa [h] at hkeep
  · refine Or.inr ⟨s', err, rfl, fun hroom => ?_⟩
    have hnil := (write_unlimited bs hroom).1
    rw [h] at hnil
    cases hnil

end Sink

end Obstor.Go
