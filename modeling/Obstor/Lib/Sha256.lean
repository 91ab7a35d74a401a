import Obstor.Lib.HexId
import Obstor.Lib.Slice

/-!
# SHA-256

The hash function of FIPS 180-4 on byte lists, computable, and its text with 64 hexadecimal digits
(`hexDigest`, `toList_hexDigest_length`, `mem_hexDigest`).
-/

namespace Obstor.Lib.Sha256

abbrev Word := BitVec 32

def roundConstants : List Word :=
  [0x428a2f98, 0x71374491, 0xb5c0fbcf, 0xe9b5dba5, 0x3956c25b, 0x59f111f1, 0x923f82a4,
   0xab1c5ed5, 0xd807aa98, 0x12835b01, 0x243185be, 0x550c7dc3, 0x72be5d74, 0x80deb1fe,
   0x9bdc06a7, 0xc19bf174, 0xe49b69c1, 0xefbe4786, 0x0fc19dc6, 0x240ca1cc, 0x2de92c6f,
   0x4a7484aa, 0x5cb0a9dc, 0x76f988da, 0x983e5152, 0xa831c66d, 0xb00327c8, 0xbf597fc7,
   0xc6e00bf3, 0xd5a79147, 0x06ca6351, 0x14292967, 0x27b70a85, 0x2e1b2138, 0x4d2c6dfc,
   0x53380d13, 0x650a7354, 0x766a0abb, 0x81c2c92e, 0x92722c85, 0xa2bfe8a1, 0xa81a664b,
   0xc24b8b70, 0xc76c51a3, 0xd192e819, 0xd6990624, 0xf40e3585, 0x106aa070, 0x19a4c116,
   0x1e376c08, 0x2748774c, 0x34b0bcb5, 0x391c0cb3, 0x4ed8aa4a, 0x5b9cca4f, 0x682e6ff3,
   0x748f82ee, 0x78a5636f, 0x84c87814, 0x8cc70208, 0x90befffa, 0xa4506ceb, 0xbef9a3f7,
   0xc67178f2]

/-- The eight words that are carried from block to block. -/
structure State where
  a : Word
  b : Word
  c : Word
  d : Word
  e : Word
  f : Word
  g : Word
  h : Word

def State.init : State :=
  ⟨0x6a09e667, 0xbb67ae85, 0x3c6ef372, 0xa54ff53a, 0x510e527f, 0x9b05688c, 0x1f83d9ab, 0x5be0cd19⟩

/-- `Ch`: the bits of `x` choose between `y` and `z`. -/
def choose (x y z : Word) : Word := (x &&& y) ^^^ (~~~x &&& z)

def majority (x y z : Word) : Word := (x &&& y) ^^^ (x &&& z) ^^^ (y &&& z)

def bigSigma₀ (x : Word) : Word := x.rotateRight 2 ^^^ x.rotateRight 13 ^^^ x.rotateRight 22

def bigSigma₁ (x : Word) : Word := x.rotateRight 6 ^^^ x.rotateRight 11 ^^^ x.rotateRight 25

def smallSigma₀ (x : Word) : Word := x.rotateRight 7 ^^^ x.rotateRight 18 ^^^ (x >>> 3)

def smallSigma₁ (x : Word) : Word := x.rotateRight 17 ^^^ x.rotateRight 19 ^^^ (x >>> 10)

/-- One round, with its constant and its word of the schedule. -/
def State.round (s : State) (kw : Word × Word) : State :=
  let t₁ := s.h + bigSigma₁ s.e + choose s.e s.f s.g + kw.1 + kw.2
  let t₂ := bigSigma₀ s.a + majority s.a s.b s.c
  ⟨t₁ + t₂, s.a, s.b, s.c, s.d + t₁, s.e, s.f, s.g⟩

/-- One more word of the schedule; the words stand newest first. -/
def extend (w : List Word) : List Word :=
  (smallSigma₁ (w.getD 1 0) + w.getD 6 0 + smallSigma₀ (w.getD 14 0) + w.getD 15 0) :: w

/-- The message schedule of a block of 16 words. -/
def schedule (block : List Word) : List Word := (extend^[48] block.reverse).reverse

def words : List UInt8 → List Word
  | b₀ :: b₁ :: b₂ :: b₃ :: rest =>
    BitVec.ofNat 32 (((b₀.toNat * 256 + b₁.toNat) * 256 + b₂.toNat) * 256 + b₃.toNat) :: words rest
  | _ => []

def State.compress (s : State) (block : List UInt8) : State :=
  let t := (roundConstants.zip (schedule (words block))).foldl State.round s
  ⟨s.a + t.a, s.b + t.b, s.c + t.c, s.d + t.d, s.e + t.e, s.f + t.f, s.g + t.g, s.h + t.h⟩

/-- The length of the message in bits, as eight bytes. -/
def lengthBytes (n : ℕ) : List UInt8 :=
  (List.range 8).map fun i => UInt8.ofNat (n * 8 / 256 ^ (7 - i))

/-- The message with its padding, a whole number of blocks. -/
def pad (data : List UInt8) : List UInt8 :=
  data ++ 0x80 :: List.replicate ((119 - data.length % 64) % 64) 0 ++ lengthBytes data.length

def digest (data : List UInt8) : State := (blocks 64 (pad data)).foldl State.compress .init

def hexDigest (data : List UInt8) : String :=
  let s := digest data
  String.ofList ([s.a, s.b, s.c, s.d, s.e, s.f, s.g, s.h].flatMap fun w => HexId.digits 8 w.toNat)

lemma toList_hexDigest_length (data : List UInt8) : (hexDigest data).toList.length = 64 := by
  simp [hexDigest]

lemma hexDigest_ne_empty (data : List UInt8) : hexDigest data ≠ "" := by
  intro h
  have hlen := toList_hexDigest_length data
  rw [h] at hlen
  cases hlen

lemma mem_hexDigest {data : List UInt8} {c : Char} (h : c ∈ (hexDigest data).toList) :
    ∃ d < 16, c = HexId.hexDigit d := by
  simp only [hexDigest, String.toList_ofList, List.mem_flatMap] at h
  obtain ⟨w, -, hc⟩ := h
  exact HexId.mem_digits hc

example : hexDigest [0x61, 0x62, 0x63] =
    "ba7816bf8f01cfea414140de5dae2223b00361a396177a9cb410ff61f20015ad" := by
  decide +kernel

end Obstor.Lib.Sha256
