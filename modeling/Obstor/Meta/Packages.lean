import Obstor.Meta.FileInfo
import Obstor.Lib.MessagePack
import Obstor.Lib.HexId

/-!
# The packages the journal is written over

Two packages outside the repository decide how the journal reads ids and bytes. Each is a
parameter, a structure with the functions the journal calls and the laws it relies on:

`UuidPkg.hex` and `MsgpPkg.wire` are the packages as they are documented, so both sets of laws
are satisfiable by the code that is linked in.
-/

namespace Obstor.Meta

open Go Lib MessagePack

/-! ### Ids -/

abbrev UUID := BitVec 128

/-- The text form of ids. -/
structure UuidPkg where
  parse : String → Option UUID
  string : UUID → String
  /-- The text of an id is read back as that id. -/
  parse_string : ∀ u, parse (string u) = some u
  /-- `uuid.Parse` refuses a text by its length alone, unless it is one of these. -/
  length_of_parse : ∀ s u, parse s = some u → (stringBytes s).length ∈ [32, 36, 38, 45]

namespace UuidPkg

variable (U : UuidPkg)

lemma string_inj {u v : UUID} (h : U.string u = U.string v) : u = v := by
  have := U.parse_string u
  rw [h, U.parse_string] at this
  exact (Option.some.inj this).symm

lemma parse_ne_empty {s : String} {u : UUID} (h : U.parse s = some u) : s ≠ "" := by
  rintro rfl
  have := U.length_of_parse _ _ h
  revert this
  decide

lemma string_ne_empty (u : UUID) : U.string u ≠ "" := U.parse_ne_empty (U.parse_string u)

/-- The package as documented: lower-case text with dashes, read in four forms. -/
def hex : UuidPkg where
  parse s :=
    if (stringBytes s).length = s.toList.length then
      (HexId.parseChars s.toList).map (BitVec.ofNat 128)
    else none
  string u := String.ofList (HexId.canonical u.toNat)
  parse_string u := by
    have hbytes : (stringBytes (String.ofList (HexId.canonical u.toNat))).length =
        (HexId.canonical u.toNat).length := by
      have hone : ∀ c ∈ HexId.canonical u.toNat, (String.utf8EncodeChar c).length = 1 := by
        intro c hc
        rw [String.length_utf8EncodeChar, HexId.utf8Size_of_mem_canonical hc]
      rw [stringBytes_ofList, List.length_flatMap, List.map_congr_left hone]
      simp
    rw [String.toList_ofList, if_pos hbytes, HexId.parseChars_canonical u.isLt]
    simp
  length_of_parse s u h := by
    split_ifs at h with hlen
    rw [hlen]
    obtain ⟨n, hn, -⟩ := Option.map_eq_some_iff.mp h
    exact HexId.length_of_parseChars hn

end UuidPkg

/-! ### MessagePack primitives -/

/-- The MessagePack primitives. A reader returns the value and the bytes after it; a writer is
given by the bytes it appends. -/
structure MsgpPkg where
  readMapHeaderBytes : Bytes → Except Err (ℕ × Bytes)
  readMapKeyZC : Bytes → Except Err (Bytes × Bytes)
  readBytesZC : Bytes → Except Err (Bytes × Bytes)
  readUint32Bytes : Bytes → Except Err (ℕ × Bytes)
  mapHeader : ℕ → Bytes
  stringFromBytes : Bytes → Bytes
  bytes : Bytes → Bytes
  uint32 : ℕ → Bytes
  /-- There is no header in an empty buffer. -/
  readMapHeader_nil : ∃ e, readMapHeaderBytes [] = .error e
  readMapHeader_append : ∀ n rest, n < 2 ^ 32 →
    readMapHeaderBytes (mapHeader n ++ rest) = .ok (n, rest)
  readMapKey_append : ∀ k rest, k.length < 2 ^ 32 →
    readMapKeyZC (stringFromBytes k ++ rest) = .ok (k, rest)
  readBytes_append : ∀ v rest, v.length < 2 ^ 32 → readBytesZC (bytes v ++ rest) = .ok (v, rest)
  readUint32_append : ∀ n rest, n < 2 ^ 32 → readUint32Bytes (uint32 n ++ rest) = .ok (n, rest)
  /-- A byte string may be written with a four-byte length, however short it is. -/
  readBytes_bin32 : ∀ v rest, v.length < 2 ^ 32 →
    readBytesZC (0xc6 :: (beBytes 4 v.length ++ (v ++ rest))) = .ok (v, rest)

/-- `msgp.ErrShortBytes` and the type errors of the readers. -/
def errMsgp : Err := .new 1 "msgp: too few bytes left to read object"

/-- The result of a reader that fails with `errMsgp`. -/
def ofReader {α : Type} : Option α → Except Err α
  | some a => .ok a
  | none => .error errMsgp

/-- The package as documented: the MessagePack wire format. -/
def MsgpPkg.wire : MsgpPkg where
  readMapHeaderBytes b := ofReader (decodeMapHeader b)
  readMapKeyZC b := ofReader (decodeKey b)
  readBytesZC b := ofReader (decodeBin b)
  readUint32Bytes b := ofReader (decodeUint b)
  mapHeader := encodeMapHeader
  stringFromBytes := encodeStr
  bytes := encodeBin
  uint32 := encodeUint
  readMapHeader_nil := ⟨errMsgp, rfl⟩
  readMapHeader_append n rest h := by rw [decodeMapHeader_encode h]; rfl
  readMapKey_append k rest h := by rw [decodeKey_encode h]; rfl
  readBytes_append v rest h := by rw [decodeBin_encode h]; rfl
  readUint32_append n rest h := by rw [decodeUint_encode h]; rfl
  readBytes_bin32 v rest h := by rw [decodeBin_bin32 h]; rfl

structure Packages where
  uuid : UuidPkg
  msgp : MsgpPkg

/-- The packages as documented. -/
def Packages.std : Packages := ⟨UuidPkg.hex, MsgpPkg.wire⟩

end Obstor.Meta
