import Obstor.Erasure.Coding
import Obstor.Go.Streams
import Obstor.Quorum.Reduce

/-!
# Reading the shards

`Erasure.Decode` reads one shard of every block from `D` readers at a time, replacing a reader that
fails by the next one, rebuilds the data shards and writes the wanted part of the block
(`cmd/erasure-decode.go`, `writeDataBlocks` of `cmd/erasure-utils.go`).

A reader is a function from offset and length to the bytes or an error. `parallelReader.Read` calls
a reader at most once and never again after an error, and the offset grows from call to call, so
such a function covers readers that fail at any call.

`Read` starts `D` readers at once, and each failure starts the next reader. `readSlots` makes the
same calls one after the other.
-/

namespace Obstor.Coding

open Go Quorum

/-- An `io.ReaderAt`: what `ReadAt` gives for an offset and the length of the buffer. -/
abbrev Reader := ℕ → ℕ → Except Err Bytes

/-- A slot of `parallelReader`: its entries of `readers`, `readerToBuf` and `errs`. -/
structure ReadSlot where
  reader : Option Reader
  buf : ℕ
  err : Option Err

/-- `parallelReader`. `orgReaders` is the slice of the caller. -/
structure ParallelReader where
  slots : List ReadSlot
  orgReaders : List (Option Reader)
  dataBlocks : ℕ
  offset : ℕ
  shardSize : ℕ
  shardFileSize : ℕ

def newParallelReader (readers : List (Option Reader)) (e : Erasure) (offset totalLength : ℕ) :
    ParallelReader where
  slots := readers.mapIdx fun i r => ⟨r, i, none⟩
  orgReaders := readers
  dataBlocks := e.dataBlocks
  offset := offset / e.blockSize * e.shardSize
  shardSize := e.shardSize
  shardFileSize := e.shardFileSize totalLength

/-! ### Preferred readers -/

def readerAt (slots : List ReadSlot) (i : ℕ) : Option Reader := slots[i]?.bind ReadSlot.reader

/-- One round of the loop of `preferReaders` at index `i`, with the state `next`. -/
def preferStep (st : List ReadSlot × ℕ) (i : ℕ) (ok : Bool) : List ReadSlot × ℕ :=
  let (slots, next) := st
  if !ok || (readerAt slots i).isNone then st
  else if i = next then (slots, next + 1)
  else
    let slots' :=
      (slots.modify next fun s => { s with reader := readerAt slots i, buf := i }).modify
        i fun s => { s with reader := readerAt slots next, buf := next }
    (slots', next + 1)

/-- `preferReaders`: preferred readers are swapped to the front. -/
def ParallelReader.preferReaders (p : ParallelReader) (prefer : List Bool) : ParallelReader :=
  if prefer.length ≠ p.orgReaders.length then p
  else
    let st := prefer.zipIdx.foldl (fun st ok => preferStep st ok.2 ok.1) (p.slots, 0)
    { p with slots := st.1 }

/-! ### One block -/

/-- What became of a slot in one `Read`. -/
inductive Outcome
  /-- The reader is nil, or was not needed. -/
  | skipped
  | failed (err : Err)
  | got (bytes : Bytes)
  deriving DecidableEq

def Outcome.isGot : Outcome → Bool
  | .got _ => true
  | _ => false

@[simp] lemma Outcome.isGot_failed (err : Err) : (Outcome.failed err).isGot = false := rfl

@[simp] lemma Outcome.isGot_skipped : Outcome.skipped.isGot = false := rfl

def ReadSlot.outcome (offset size : ℕ) (s : ReadSlot) : Outcome :=
  match s.reader with
  | none => .skipped
  | some r =>
    match r offset size with
    | .error err => .failed err
    | .ok bytes => .got bytes

/-- The calls of `Read`: slots are tried in order until `need` of them gave their bytes. -/
def readSlots (offset size : ℕ) : ℕ → List ReadSlot → List Outcome
  | _, [] => []
  | 0, _ :: rest => .skipped :: readSlots offset size 0 rest
  | need + 1, s :: rest =>
    let outcome := s.outcome offset size
    outcome :: readSlots offset size (if outcome.isGot then need else need + 1) rest

/-- A slot whose reader failed loses it. -/
def ReadSlot.after (s : ReadSlot) : Outcome → ReadSlot
  | .failed err => { s with reader := none, err := some err }
  | _ => s

/-- The bytes that were read, each in the buffer of its slot. -/
def fillBufs (n : ℕ) (calls : List (ReadSlot × Outcome)) : List Bytes :=
  calls.foldl (fun bufs c =>
    match c.2 with
    | .got bytes => bufs.set c.1.buf bytes
    | _ => bufs) (List.replicate n [])

/-- The caller's readers: those that failed are set to nil. -/
def dropFailed (readers : List (Option Reader)) (calls : List (ReadSlot × Outcome)) :
    List (Option Reader) :=
  calls.foldl (fun readers c =>
    match c.2 with
    | .failed _ => readers.set c.1.buf none
    | _ => readers) readers

/-- `missingPartsHeal`: a reader did not find its file. -/
def Outcome.isMissing : Outcome → Bool
  | .failed err => err.is .fileNotFound
  | _ => false

/-- `bitrotHeal`: a reader found its file corrupt. -/
def Outcome.isBitrot : Outcome → Bool
  | .failed err => !err.is .fileNotFound && err.is .fileCorrupt
  | _ => false

/-- The error that comes with shards that can be decoded: something is to be healed. -/
def healErr (outcomes : List Outcome) : Option Err :=
  if outcomes.any Outcome.isMissing then some .fileNotFound
  else if outcomes.any Outcome.isBitrot then some .fileCorrupt
  else none

def ParallelReader.canDecode (p : ParallelReader) (buf : List Bytes) : Bool :=
  present buf ≥ p.dataBlocks

/-- `parallelReader.Read`: the shards of the next block and an error. A nil result is the empty
list. `Decode` only asks for blocks inside the file, where `offset ≤ shardFileSize`. -/
def ParallelReader.read (ρ : RangeOrder) (p : ParallelReader) :
    ParallelReader × List Bytes × Option Err :=
  let size :=
    if p.offset + p.shardSize > p.shardFileSize then p.shardFileSize - p.offset else p.shardSize
  if size = 0 then ({ p with shardSize := size }, List.replicate p.slots.length [], none)
  else
    let outcomes := readSlots p.offset size p.dataBlocks p.slots
    let calls := p.slots.zip outcomes
    let newBuf := fillBufs p.slots.length calls
    let p' := { p with
      shardSize := size
      slots := calls.map fun c => c.1.after c.2
      orgReaders := dropFailed p.orgReaders calls }
    if p.canDecode newBuf then ({ p' with offset := p.offset + size }, newBuf, healErr outcomes)
    else
      (p', [], reduceReadQuorumErrs ρ (p'.slots.map ReadSlot.err) objectOpIgnoredErrs p.dataBlocks)

/-! ### Writing the wanted bytes -/

/-- The loop of `writeDataBlocks`: `offset` bytes are still to be skipped and `write` bytes to be
written. -/
def writeLoop (dst : Sink) : List Bytes → ℕ → ℕ → ℕ → Sink × ℕ × Option Err
  | [], _, _, totalWritten => (dst, totalWritten, none)
  | block :: rest, offset, write, totalWritten =>
    if offset ≥ block.length then
      writeLoop dst rest (offset - block.length) write totalWritten
    else
      let block := block.drop offset
      if write < block.length then
        match dst.write (block.take write) with
        | (dst', some err) => (dst', 0, some err)
        | (dst', none) => (dst', totalWritten + write, none)
      else
        match dst.write block with
        | (dst', some err) => (dst', 0, some err)
        | (dst', none) =>
          writeLoop dst' rest 0 (write - block.length) (totalWritten + block.length)

def writeDataBlocks (dst : Sink) (enBlocks : List Bytes) (dataBlocks : ℕ) (offset length : ℤ) :
    Sink × ℕ × Option Err :=
  if offset < 0 ∨ length < 0 then (dst, 0, some .unexpected)
  else if enBlocks.length < dataBlocks then
    (dst, 0, some (.new 0 s!"too few blocks: have {enBlocks.length}, need {dataBlocks}"))
  else writeLoop dst (enBlocks.take dataBlocks) offset.toNat length.toNat 0

/-! ### All blocks -/

/-- What `Decode` leaves behind: the writer, the caller's readers, and its results. -/
structure Decoded where
  sink : Sink
  readers : List (Option Reader)
  written : ℤ
  err : Option Err

namespace Erasure

variable (e : Erasure) (ρ : RangeOrder)

/-- The part of block `block` that a read of `length` bytes at `offset` wants: its offset in the
block and its length. -/
def window (offset length block : ℕ) : ℕ × ℕ :=
  let startBlock := offset / e.blockSize
  let endBlock := (offset + length) / e.blockSize
  if startBlock = endBlock then (offset % e.blockSize, length)
  else if block = startBlock then (offset % e.blockSize, e.blockSize - offset % e.blockSize)
  else if block = endBlock then (0, (offset + length) % e.blockSize)
  else (0, e.blockSize)

structure DecodeState where
  reader : ParallelReader
  sink : Sink
  bytesWritten : ℕ
  derr : Option Err

def finish (length : ℕ) (st : DecodeState) : Decoded :=
  ⟨st.sink, st.reader.orgReaders, st.bytesWritten,
    if st.bytesWritten ≠ length then some .lessData else st.derr⟩

/-- One round of the loop for a part of a block: the state after it, or the result of `Decode`. -/
def decodeBlock (st : DecodeState) (blockOffset blockLength : ℕ) :
    Except Decoded DecodeState :=
  match st.reader.read ρ with
  | (reader, bufs, err) =>
    let derr :=
      if bufs.length > 0 ∧ (errorsIs err .fileNotFound ∨ errorsIs err .fileCorrupt)
      then st.derr.or err else st.derr
    let fail (sink : Sink) (err : Option Err) : Except Decoded DecodeState :=
      .error ⟨sink, reader.orgReaders, -1, err⟩
    if bufs.length = 0 ∧ err ≠ none then fail st.sink err
    else
      match e.decodeDataBlocks bufs with
      | .error err => fail st.sink (some err)
      | .ok bufs =>
        match writeDataBlocks st.sink bufs e.dataBlocks blockOffset blockLength with
        | (sink, _, some err) => fail sink (some err)
        | (sink, n, none) => .ok ⟨reader, sink, st.bytesWritten + n, derr⟩

/-- The loop of `Decode` over `count` blocks from `block` on. -/
def decodeLoop (offset length : ℕ) : ℕ → ℕ → DecodeState → Decoded
  | 0, _, st => finish length st
  | count + 1, block, st =>
    let (blockOffset, blockLength) := e.window offset length block
    if blockLength = 0 then finish length st
    else
      match e.decodeBlock ρ st blockOffset blockLength with
      | .error r => r
      | .ok st' => decodeLoop offset length count (block + 1) st'

def startReader (readers : List (Option Reader)) (offset totalLength : ℕ) (prefer : List Bool) :
    ParallelReader :=
  let reader := newParallelReader readers e offset totalLength
  if prefer.length = readers.length then reader.preferReaders prefer else reader

/-- `Decode`. The callers' ranges lie inside a part, so the sum of `offset` and `length` does not
wrap. -/
def decode (writer : Sink) (readers : List (Option Reader)) (offset length totalLength : ℤ)
    (prefer : List Bool) : Decoded :=
  if offset < 0 ∨ length < 0 then ⟨writer, readers, -1, some .invalidArgument⟩
  else if offset + length > totalLength then ⟨writer, readers, -1, some .invalidArgument⟩
  else if length = 0 then ⟨writer, readers, 0, none⟩
  else
    let reader := e.startReader readers offset.toNat totalLength.toNat prefer
    let startBlock := offset.toNat / e.blockSize
    let endBlock := (offset.toNat + length.toNat) / e.blockSize
    e.decodeLoop ρ offset.toNat length.toNat (endBlock + 1 - startBlock) startBlock
      ⟨reader, writer, 0, none⟩

end Erasure

end Obstor.Coding
