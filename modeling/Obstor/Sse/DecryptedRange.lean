import Obstor.Lib.Sealed
import Obstor.Meta.FileInfo

/-!
# Ranges of encrypted objects

An encrypted object is stored as packages of 64 KiB, each 32 bytes longer than its plaintext, and a
multipart object as one stream of packages for each part. `GetDecryptedRange`
(`cmd/encryption-v1.go`) computes which bytes of the stored object to read, from which package of
which part to decrypt, and how many bytes of the result to skip. The package `sio` is the parameter
`SioPkg`.
-/

namespace Obstor.Sse

open Go Lib Meta

/-! ### HTTP ranges -/

def errInvalidRange : Err := .new 0 "invalid range"

/-- `HTTPRangeSpec`.
Source: `cmd/httprange.go` -/
structure HTTPRangeSpec where
  isSuffixLength : Bool
  start : ℤ
  stop : ℤ
  deriving DecidableEq

namespace HTTPRangeSpec

/-- `HTTPRangeSpec.GetLength`; no range is `none`. -/
def getLength (h : Option HTTPRangeSpec) (resourceSize : ℤ) : Except Err ℤ :=
  if resourceSize < 0 then .error (.new 1 "resource size cannot be negative")
  else
    match h with
    | none => .ok resourceSize
    | some h =>
      if h.isSuffixLength then
        let specifiedLen := int64 (-h.start)
        .ok (if specifiedLen > resourceSize then resourceSize else specifiedLen)
      else if h.start ≥ resourceSize then .error errInvalidRange
      else if h.stop > -1 then
        let stop := if resourceSize ≤ h.stop then int64 (resourceSize - 1) else h.stop
        .ok (int64 (int64 (stop - h.start) + 1))
      else if h.stop = -1 then .ok (int64 (resourceSize - h.start))
      else .error (.new 2 "unexpected range specification case")

def getOffsetLength (h : Option HTTPRangeSpec) (resourceSize : ℤ) : Except Err (ℤ × ℤ) :=
  match h with
  | none => .ok (0, resourceSize)
  | some spec =>
    match getLength h resourceSize with
    | .error err => .error err
    | .ok length =>
      let start :=
        if spec.isSuffixLength then
          let start := int64 (resourceSize + spec.start)
          if start < 0 then 0 else start
        else spec.start
      .ok (start, length)

/-- What `parseRequestRangeSpec` returns: `bytes=a-b`, `bytes=a-` or `bytes=-n`. -/
def Valid (h : HTTPRangeSpec) : Prop :=
  -2 ^ 63 ≤ h.start ∧ h.start < 2 ^ 63 ∧ h.stop < 2 ^ 63 ∧
    if h.isSuffixLength then -2 ^ 63 < h.start ∧ h.start < 0 ∧ h.stop = -1
    else 0 ≤ h.start ∧ (h.stop = -1 ∨ h.start ≤ h.stop)

instance (h : HTTPRangeSpec) : Decidable h.Valid := inferInstanceAs (Decidable (_ ∧ _))

end HTTPRangeSpec

/-! ### Encrypted objects -/

def packageBlockSize : ℕ := 64 * 1024

def packageMetaSize : ℕ := 32

/-- The package `sio`, with keys in `κ`. -/
structure SioPkg (κ : Type) where
  cipher : PackageCipher κ UInt8
  /-- The largest plaintext of one stream. -/
  maxSize : ℕ
  encryptedSize : ℕ → Except Err ℕ
  decryptedSize : ℕ → Except Err ℕ
  payload_eq : cipher.payload = packageBlockSize
  overhead_eq : cipher.overhead = packageMetaSize
  /-- The number of a package has 32 bits. -/
  maxSize_le : maxSize ≤ 2 ^ 48
  encryptedSize_eq : ∀ n, n ≤ maxSize → encryptedSize n = .ok (cipher.packedSize n)
  decryptedSize_eq : ∀ n, n ≤ maxSize → decryptedSize (cipher.packedSize n) = .ok n

/-- The keys of an object: its own, and those derived from it for the parts. -/
structure ObjectKeys (κ : Type) where
  objectKey : κ
  partKey : ℤ → κ

/-- What `ObjectInfo` tells about an encrypted object. -/
structure ObjectInfo where
  size : ℤ
  parts : List ObjectPartInfo
  etag : String
  /-- `crypto.IsEncrypted` and `crypto.IsMultiPart` of `UserDefined`. -/
  isEncrypted : Bool
  isMultiPart : Bool
  /-- `backendType` is `BackendErasure`. -/
  backendErasure : Bool

def errObjectTampered : Err :=
  .new 3 "the requested object was modified and may be compromised"

section Functions

variable {κ : Type} (sio : SioPkg κ)

def isEncryptedMultipart (oi : ObjectInfo) : Bool :=
  if oi.parts.length = 0 then false
  else if !oi.isMultiPart then false
  else if oi.parts.any fun part => !(sio.decryptedSize (uint64 part.size)).isOk then false
  else !oi.backendErasure || oi.etag.utf8ByteSize ≠ 32

/-- The plaintext sizes of the parts; a part that has none makes the object invalid. -/
def decryptedSizes (parts : List ObjectPartInfo) : Except Err (List ℤ) :=
  parts.mapM fun part =>
    match sio.decryptedSize (uint64 part.size) with
    | .ok size => .ok (int64 size)
    | .error _ => .error errObjectTampered

/-- The plaintext sizes of an object, one for each part. -/
def ObjectInfo.sizes (oi : ObjectInfo) : Except Err (List ℤ) :=
  if isEncryptedMultipart sio oi then decryptedSizes sio oi.parts
  else
    match sio.decryptedSize (uint64 oi.size) with
    | .ok size => .ok [int64 size]
    | .error _ => .error errObjectTampered

/-- The sum of the sizes, as the loop over them computes it. -/
def sumSizes (sizes : List ℤ) : ℤ := sizes.foldl (fun sum size => int64 (sum + size)) 0

def ObjectInfo.decryptedSize (oi : ObjectInfo) : Except Err ℤ :=
  if !oi.isEncrypted then
    .error (.new 4 "cannot compute decrypted size of an unencrypted object")
  else
    match oi.sizes sio with
    | .error err => .error err
    | .ok sizes => .ok (sumSizes sizes)

/-- `sio.EncryptedSize`, the error ignored. -/
def encryptedSizeOf (size : ℤ) : ℤ :=
  match sio.encryptedSize (uint64 size) with
  | .ok n => int64 n
  | .error _ => 0

/-- A loop of `GetDecryptedRange`: the number of the part that the offset is in, counted from `i`,
and the plaintext and stored sizes of the parts before it. -/
def locate (offset : ℤ) : ℕ → List ℤ → ℤ → ℤ → Option ℕ × ℤ × ℤ
  | _, [], cumulativeSum, encCumulativeSum => (none, cumulativeSum, encCumulativeSum)
  | i, size :: sizes, cumulativeSum, encCumulativeSum =>
    if offset < int64 (cumulativeSum + size) then (some i, cumulativeSum, encCumulativeSum)
    else
      locate offset (i + 1) sizes (int64 (cumulativeSum + size))
        (int64 (encCumulativeSum + encryptedSizeOf sio size))

structure DecryptedRange where
  encOff : ℤ
  encLength : ℤ
  skipLen : ℤ
  seqNumber : ℕ
  partStart : ℕ
  deriving DecidableEq

/-- `GetDecryptedRange`, once the range in the plaintext is known. -/
def rangeOf (sizes : List ℤ) (off length : ℤ) : DecryptedRange :=
  let (first, cumulativeSum, encCumulativeSum) := locate sio off 0 sizes 0 0
  let partStart := first.getD 0
  let encPackageBlockSize : ℤ := packageBlockSize + packageMetaSize
  let startPkgNum := (int64 (off - cumulativeSum)).tdiv packageBlockSize
  let skipLen := (int64 (off - cumulativeSum)).tmod packageBlockSize
  let encOff := int64 (encCumulativeSum + int64 (startPkgNum * encPackageBlockSize))
  let endOffset := int64 (int64 (off + length) - 1)
  let (last, cumulativeSum, encCumulativeSum) :=
    locate sio endOffset partStart (sizes.drop partStart) cumulativeSum encCumulativeSum
  let partEnd := last.getD 0
  let endPkgNum := (int64 (endOffset - cumulativeSum)).tdiv packageBlockSize
  let endEncOffset := int64 (encCumulativeSum + int64 (int64 (endPkgNum + 1) * encPackageBlockSize))
  let lastPartSize := encryptedSizeOf sio (sizes.getD partEnd 0)
  let endEncOffset :=
    if endEncOffset > int64 (encCumulativeSum + lastPartSize) then
      int64 (encCumulativeSum + lastPartSize)
    else endEncOffset
  { encOff := encOff
    encLength := int64 (endEncOffset - encOff)
    skipLen := skipLen
    seqNumber := uint32 startPkgNum
    partStart := partStart }

def getDecryptedRange (oi : ObjectInfo) (rs : Option HTTPRangeSpec) :
    Except Err DecryptedRange :=
  if !oi.isEncrypted then .error (.new 5 "object is not encrypted")
  else
    match rs with
    | none => .ok ⟨0, oi.size, 0, 0, 0⟩
    | some _ =>
      match oi.sizes sio with
      | .error err => .error err
      | .ok sizes =>
        match HTTPRangeSpec.getOffsetLength rs (sumSizes sizes) with
        | .error err => .error err
        | .ok (off, length) => .ok (rangeOf sio sizes off length)

/-- `DecryptBlocksRequestR`: what the reader gives for the input, from package `seqNumber` of part
`partStart` on, `none` for an error. The reader is idealised: `DecryptBlocksReader.Read` of the source
returns `len(p)` also when the last part ends before the buffer is full, and the caller's limit cuts
the rest off. -/
def decryptBlocksRequestR (keys : ObjectKeys κ) (oi : ObjectInfo) (seqNumber partStart : ℕ)
    (input : Bytes) : Option Bytes :=
  if !isEncryptedMultipart sio oi then sio.cipher.openStream keys.objectKey seqNumber input
  else
    sio.cipher.openParts
      ((oi.parts.drop partStart).map fun part => (keys.partKey part.number, part.size.toNat))
      seqNumber input

/-- `NewGetObjectReader` for an encrypted object: what is read of the stored object, decrypted,
without the bytes to skip and up to the length of the range. -/
def readEncrypted (keys : ObjectKeys κ) (oi : ObjectInfo) (rs : Option HTTPRangeSpec)
    (stored : Bytes) : Except Err (Option Bytes) :=
  match getDecryptedRange sio oi rs with
  | .error err => .error err
  | .ok range =>
    match oi.decryptedSize sio with
    | .error err => .error err
    | .ok decSize =>
      match HTTPRangeSpec.getLength rs decSize with
      | .error err => .error err
      | .ok decRangeLength =>
        let input := slice range.encOff.toNat range.encLength.toNat stored
        .ok ((decryptBlocksRequestR sio keys oi range.seqNumber range.partStart input).map fun dec =>
          slice range.skipLen.toNat decRangeLength.toNat dec)

end Functions

end Obstor.Sse
