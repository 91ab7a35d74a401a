import Obstor.Metacache.Msgp

/-!
# Streams of entries

`metacacheWriter` and `metacacheReader` (`cmd/metacache-stream.go`) over the uncompressed MessagePack
stream: the version of the format, then for every entry `true`, the name and the metadata, and `false`
at the end.

The writer never fails to write; it is what it has written. The reader is the bytes that are left, an
entry that was read ahead, and the error that every later call returns.
-/

namespace Obstor.Metacache

open Go Meta

def metacacheStreamVersion : UInt8 := 1

/-! ### The writer -/

/-- `metacacheWriter`: `creator` and `closer` are the functions that are set. -/
structure MetacacheWriter where
  mw : Bytes := []
  creator : Bool := true
  closer : Bool := false

namespace MetacacheWriter

variable (M : MsgpStream)

/-- The creator is run, unless it has been. -/
def create (w : MetacacheWriter) : MetacacheWriter :=
  if w.creator then
    { mw := w.mw ++ M.writeByte metacacheStreamVersion, creator := false, closer := true }
  else w

def entryBytes (o : MetaCacheEntry) : Bytes :=
  M.writeBool true ++ (M.writeString o.name ++ M.writeBytes o.metadata)

def writeLoop (w : MetacacheWriter) : List MetaCacheEntry → Option String × MetacacheWriter
  | [] => (none, w)
  | o :: objs =>
    if o.name.length = 0 then (some "metacacheWriter: no name provided", w)
    else writeLoop { w with mw := w.mw ++ entryBytes M o } objs

/-- `write`: the error it returns, and the writer then. -/
def write (w : MetacacheWriter) (objs : List MetaCacheEntry) : Option String × MetacacheWriter :=
  if objs.length = 0 then (none, w) else writeLoop M (w.create M) objs

/-- `stream`, and the entries that are sent until the channel is closed. -/
def stream (w : MetacacheWriter) (objs : List MetaCacheEntry) : MetacacheWriter :=
  objs.foldl (fun w o => if o.name.length = 0 then w else { w with mw := w.mw ++ entryBytes M o })
    (w.create M)

def close (w : MetacacheWriter) : MetacacheWriter :=
  if w.closer then { w with mw := w.mw ++ M.writeBool false, closer := false } else w

end MetacacheWriter

inductive WriterCall
  | write (objs : List MetaCacheEntry)
  | stream (objs : List MetaCacheEntry)

def WriterCall.run (M : MsgpStream) (w : MetacacheWriter) : WriterCall → MetacacheWriter
  | .write objs => (w.write M objs).2
  | .stream objs => w.stream M objs

/-- The stream that the calls and `Close` leave behind. -/
def produce (M : MsgpStream) (calls : List WriterCall) : Bytes :=
  ((calls.foldl (WriterCall.run M) {}).close M).mw

/-! ### The reader -/

/-- `metacacheReader`: `mr` is what is left of the stream, and `creator` is set until the version has
been read. -/
structure MetacacheReader where
  mr : Bytes
  current : MetaCacheEntry := noEntry
  err : Option StreamErr := none
  creator : Bool := true
  deriving DecidableEq

def newMetacacheReader (r : Bytes) : MetacacheReader := { mr := r }

namespace MetacacheReader

section Reader

variable (M : MsgpStream) (P : Packages) (K : Marshaller)

section

variable (r : MetacacheReader)

def checkInit : MetacacheReader :=
  if !r.creator || r.err.isSome then r
  else
    match M.readByte r.mr with
    | (.error err, mr) => { r with mr := mr, err := some err, creator := false }
    | (.ok v, mr) =>
      if v = metacacheStreamVersion then { r with mr := mr, creator := false }
      else
        { r with
          mr := mr, creator := false
          err := some (.other (.new 6 s!"metacacheReader: Unknown version: {v}")) }

/-- `if more, err := r.mr.ReadBool(); !more { ... }`, which stands before every entry: the error that is
returned, when there is no more. Any other error of `ReadBool` is kept where the calls differ. -/
def more (keep : Bool) (r : MetacacheReader) : Option StreamErr × MetacacheReader :=
  match M.readBool r.mr with
  | (.ok true, mr) => (none, { r with mr := mr })
  | (.ok false, mr) => (some .eof, { r with mr := mr, err := some .eof })
  | (.error .eof, mr) => (some .unexpectedEOF, { r with mr := mr, err := some .unexpectedEOF })
  | (.error err, mr) => (some err, { r with mr := mr, err := if keep then some err else r.err })

/-- An element is read, and an error is kept. With `convert`, `io.EOF` becomes
`io.ErrUnexpectedEOF`. -/
def element {α : Type} (convert : Bool) (read : Bytes → Except StreamErr α × Bytes)
    (r : MetacacheReader) : Except StreamErr α × MetacacheReader :=
  match read r.mr with
  | (.ok a, mr) => (.ok a, { r with mr := mr })
  | (.error err, mr) =>
    let err := if convert ∧ err = .eof then .unexpectedEOF else err
    (.error err, { r with mr := mr, err := some err })

def dropCurrent : MetacacheReader := { r with current := noEntry }

def peek : (MetaCacheEntry × Option StreamErr) × MetacacheReader :=
  let r := r.checkInit M
  match r.err with
  | some err => ((noEntry, some err), r)
  | none =>
    if r.current.name ≠ [] then ((r.current, none), r)
    else
      match r.more M true with
      | (some err, r) => ((noEntry, some err), r)
      | (none, r) =>
        match r.element true M.readString with
        | (.error err, r) => ((noEntry, some err), r)
        | (.ok name, r) =>
          match r.element true M.readBytes with
          | (.error err, r) => ((⟨name, []⟩, some err), { r with current := ⟨name, []⟩ })
          | (.ok metadata, r) => ((⟨name, metadata⟩, none), { r with current := ⟨name, metadata⟩ })

def next : (MetaCacheEntry × Option StreamErr) × MetacacheReader :=
  let r := r.checkInit M
  match r.err with
  | some err => ((noEntry, some err), r)
  | none =>
    if r.current.name ≠ [] then ((r.current, none), r.dropCurrent)
    else
      match r.more M true with
      | (some err, r) => ((noEntry, some err), r)
      | (none, r) =>
        match r.element true M.readString with
        | (.error err, r) => ((noEntry, some err), r)
        | (.ok name, r) =>
          match r.element true M.readBytes with
          | (.error err, r) => ((⟨name, []⟩, some err), r)
          | (.ok metadata, r) => ((⟨name, metadata⟩, none), r)

def nextEOF : Bool × MetacacheReader :=
  let r := r.checkInit M
  match r.err with
  | some err => (err = .eof, r)
  | none =>
    if r.current.name ≠ [] then (false, r)
    else
      match r.peek M with
      | ((_, some err), r) => (err = .eof, { r with err := some err })
      | ((_, none), r) => (false, r)

end

/-- The loop of `forwardTo`. Every round takes at least one byte, so it has at most as many rounds as
there are bytes. -/
def forwardToLoop (s : Bytes) : ℕ → MetacacheReader → Option StreamErr × MetacacheReader
  | 0, r => (some .unexpectedEOF, r)
  | rounds + 1, r =>
    match r.more M true with
    | (some err, r) => (some err, r)
    | (none, r) =>
      match r.element false M.readStringHeader with
      | (.error err, r) => (some err, r)
      | (.ok sz, r) =>
        match r.element false (M.readFull sz) with
        | (.error err, r) => (some err, r)
        | (.ok tmp, r) =>
          if tmp ≥ s then
            match r.element false M.readBytes with
            | (.error err, r) => (some err, { r with current := ⟨tmp, []⟩ })
            | (.ok metadata, r) => (none, { r with current := ⟨tmp, metadata⟩ })
          else
            match r.element true M.skip with
            | (.error err, r) => (some err, r)
            | (.ok _, r) => forwardToLoop s rounds r

def forwardTo (s : Bytes) (r : MetacacheReader) : Option StreamErr × MetacacheReader :=
  let r := r.checkInit M
  match r.err with
  | some err => (some err, r)
  | none =>
    if s = [] then (none, r)
    else if r.current.name ≠ [] then
      if r.current.name ≥ s then (none, r)
      else forwardToLoop M s (r.mr.length + 1) r.dropCurrent
    else forwardToLoop M s (r.mr.length + 1) r

/-- Whether `readN` keeps an entry. -/
def keeps (inclDeleted inclDirs : Bool) (e : MetaCacheEntry) : Bool :=
  (inclDirs || !e.isDir) && (inclDeleted || !e.isLatestDeletemarker P K)

def readNLoop (n : ℤ) (inclDeleted inclDirs : Bool) (pre : Bytes) :
    ℕ → List MetaCacheEntry → MetacacheReader →
      (List MetaCacheEntry × Option StreamErr) × MetacacheReader
  | 0, res, r => ((res, some .unexpectedEOF), r)
  | rounds + 1, res, r =>
    if n < 0 ∨ (res.length : ℤ) < n then
      match r.more M true with
      | (some err, r) => ((res, some err), r)
      | (none, r) =>
        match r.element true M.readString with
        | (.error err, r) => ((res, some err), r)
        | (.ok name, r) =>
          -- the reader is left one byte behind the name
          if !pre.isPrefixOf name then ((res, some .eof), { r with mr := M.skipBytes 1 r.mr })
          else
            match r.element true M.readBytes with
            | (.error err, r) => ((res, some err), r)
            | (.ok metadata, r) =>
              let entry : MetaCacheEntry := ⟨name, metadata⟩
              if keeps P K inclDeleted inclDirs entry then
                readNLoop n inclDeleted inclDirs pre rounds (res ++ [entry]) r
              else readNLoop n inclDeleted inclDirs pre rounds res r
    else ((res, none), r)

def readN (n : ℤ) (inclDeleted inclDirs : Bool) (pre : Bytes) (r : MetacacheReader) :
    (List MetaCacheEntry × Option StreamErr) × MetacacheReader :=
  let r := r.checkInit M
  if n = 0 then (([], none), r)
  else
    match r.err with
    | some err => (([], some err), r)
    | none =>
      match if pre ≠ [] then r.forwardTo M pre else (none, r) with
      | (some err, r) => (([], some err), r)
      | (none, r) =>
        match r.peek M with
        | ((_, some err), r) => (([], some err), r)
        | ((next, none), r) =>
          if !next.hasPrefix pre then (([], some .eof), r)
          else
            let res :=
              if r.current.name ≠ [] ∧ (inclDeleted || !r.current.isLatestDeletemarker P K) ∧
                r.current.hasPrefix pre ∧ (inclDirs || r.current.isObject) then [r.current] else []
            let r := if r.current.name ≠ [] then r.dropCurrent else r
            readNLoop M P K n inclDeleted inclDirs pre (r.mr.length + 1) res r

/-- The loop of `readFn`; `fn` also returns what it has collected. -/
def readFnLoop {σ : Type} (fn : σ → MetaCacheEntry → Bool × σ) :
    ℕ → σ → MetacacheReader → (Option StreamErr × σ) × MetacacheReader
  | 0, acc, r => ((some .unexpectedEOF, acc), r)
  | rounds + 1, acc, r =>
    match r.more M false with
    | (some err, r) => ((some err, acc), r)
    | (none, r) =>
      match r.element true M.readString with
      | (.error err, r) => ((some err, acc), r)
      | (.ok name, r) =>
        match r.element true M.readBytes with
        | (.error err, r) => ((some err, acc), r)
        | (.ok metadata, r) =>
          match fn acc ⟨name, metadata⟩ with
          | (true, acc) => readFnLoop fn rounds acc r
          | (false, acc) => ((none, acc), r)

/-- `readFn`: what `fn` answers to the entry that was read ahead is not looked at. -/
def readFn {σ : Type} (fn : σ → MetaCacheEntry → Bool × σ) (acc : σ) (r : MetacacheReader) :
    (Option StreamErr × σ) × MetacacheReader :=
  let r := r.checkInit M
  match r.err with
  | some err => ((some err, acc), r)
  | none =>
    if r.current.name ≠ [] then
      readFnLoop M fn (r.mr.length + 1) (fn acc r.current).2 r.dropCurrent
    else readFnLoop M fn (r.mr.length + 1) acc r

def readNamesLoop (n : ℤ) : ℕ → List Bytes → MetacacheReader →
    (List Bytes × Option StreamErr) × MetacacheReader
  | 0, res, r => ((res, some .unexpectedEOF), r)
  | rounds + 1, res, r =>
    if n < 0 ∨ (res.length : ℤ) < n then
      match r.more M false with
      | (some err, r) => ((res, some err), r)
      | (none, r) =>
        match r.element false M.readString with
        | (.error err, r) => ((res, some err), r)
        | (.ok name, r) =>
          match r.element true M.skip with
          | (.error err, r) => ((res, some err), r)
          | (.ok _, r) => readNamesLoop n rounds (res ++ [name]) r
    else ((res, none), r)

def readNames (n : ℤ) (r : MetacacheReader) : (List Bytes × Option StreamErr) × MetacacheReader :=
  let r := r.checkInit M
  match r.err with
  | some err => (([], some err), r)
  | none =>
    if n = 0 then (([], none), r)
    else if r.current.name ≠ [] then
      readNamesLoop M n (r.mr.length + 1) [r.current.name] r.dropCurrent
    else readNamesLoop M n (r.mr.length + 1) [] r

def skipLoop : ℕ → MetacacheReader → Option StreamErr × MetacacheReader
  | 0, r => (none, r)
  | n + 1, r =>
    match r.more M false with
    | (some err, r) => (some err, r)
    | (none, r) =>
      match r.element true M.skip with
      | (.error err, r) => (some err, r)
      | (.ok _, r) =>
        match r.element true M.skip with
        | (.error err, r) => (some err, r)
        | (.ok _, r) => skipLoop n r

def skip (n : ℤ) (r : MetacacheReader) : Option StreamErr × MetacacheReader :=
  let r := r.checkInit M
  match r.err with
  | some err => (some err, r)
  | none =>
    if n ≤ 0 then (none, r)
    else if r.current.name ≠ [] then skipLoop M (n - 1).toNat r.dropCurrent
    else skipLoop M n.toNat r

end Reader

end MetacacheReader

inductive ReaderCall
  | peek
  | next
  | skip (n : ℤ)
  | forwardTo (s : Bytes)
  | readN (n : ℤ) (inclDeleted inclDirs : Bool) (pre : Bytes)
  | readNames (n : ℤ)
  deriving DecidableEq

structure Answer where
  entries : List MetaCacheEntry := []
  names : List Bytes := []
  err : Option StreamErr
  deriving DecidableEq

namespace ReaderCall

variable (M : MsgpStream) (P : Packages) (K : Marshaller)

def run (r : MetacacheReader) : ReaderCall → Answer × MetacacheReader
  | .peek => let a := r.peek M; ({ entries := [a.1.1], err := a.1.2 }, a.2)
  | .next => let a := r.next M; ({ entries := [a.1.1], err := a.1.2 }, a.2)
  | .skip n => let a := r.skip M n; ({ err := a.1 }, a.2)
  | .forwardTo s => let a := r.forwardTo M s; ({ err := a.1 }, a.2)
  | .readN n inclDeleted inclDirs pre =>
    let a := r.readN M P K n inclDeleted inclDirs pre
    ({ entries := a.1.1, err := a.1.2 }, a.2)
  | .readNames n => let a := r.readNames M n; ({ names := a.1.1, err := a.1.2 }, a.2)

def answers (r : MetacacheReader) : List ReaderCall → List Answer
  | [] => []
  | c :: cs => (c.run M P K r).1 :: answers (c.run M P K r).2 cs

end ReaderCall

end Obstor.Metacache
