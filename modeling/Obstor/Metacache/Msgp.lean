import Obstor.Metacache.Entry

/-!
# The MessagePack stream under a listing

`msgp.Writer` and `msgp.Reader` (`github.com/tinylib/msgp`) as the listing streams use them. A writer
is given by the bytes it appends; a reader takes an element off the bytes that are left and returns
what is left then. An element that is read where the input has ended gives `io.EOF`.

`MsgpStream.wire` is the package as documented.
-/

namespace Obstor.Metacache

open Go Meta Lib List MessagePack

/-- What `read` does with the element `enc`, which stands for `a`. -/
structure Element {α : Type} (read : Bytes → Except StreamErr α × Bytes) (enc : Bytes) (a : α) :
    Prop where
  whole : ∀ rest, read (enc ++ rest) = (.ok a, rest)
  before : (read []).1 = .error .eof
  inside : ∀ front, front <+: enc → front ≠ enc → ∃ err, (read front).1 = .error err

structure MsgpStream where
  writeByte : UInt8 → Bytes
  writeBool : Bool → Bytes
  /-- The header that `WriteString` puts before a string of this length. -/
  stringHeader : ℕ → Bytes
  writeBytes : Bytes → Bytes
  readByte : Bytes → Except StreamErr UInt8 × Bytes
  readBool : Bytes → Except StreamErr Bool × Bytes
  readString : Bytes → Except StreamErr Bytes × Bytes
  readStringHeader : Bytes → Except StreamErr ℕ × Bytes
  /-- `R.ReadFull` into a buffer of this length. -/
  readFull : ℕ → Bytes → Except StreamErr Bytes × Bytes
  readBytes : Bytes → Except StreamErr Bytes × Bytes
  /-- `Skip`: the next element, whatever it is. -/
  skip : Bytes → Except StreamErr Unit × Bytes
  /-- `R.Skip`: so many bytes. -/
  skipBytes : ℕ → Bytes → Bytes
  writeByte_length : ∀ v ≤ 127, (writeByte v).length = 1
  writeBool_length : ∀ b, (writeBool b).length = 1
  byte : ∀ v ≤ 127, Element readByte (writeByte v) v
  bool : ∀ b, Element readBool (writeBool b) b
  string : ∀ s : Bytes, s.length < 2 ^ 32 → Element readString (stringHeader s.length ++ s) s
  header : ∀ n < 2 ^ 32, Element readStringHeader (stringHeader n) n
  bytes : ∀ s : Bytes, s.length < 2 ^ 32 → Element readBytes (writeBytes s) s
  skip_string : ∀ s : Bytes, s.length < 2 ^ 32 → Element skip (stringHeader s.length ++ s) ()
  skip_bytes : ∀ s : Bytes, s.length < 2 ^ 32 → Element skip (writeBytes s) ()
  full : ∀ s rest : Bytes, readFull s.length (s ++ rest) = (.ok s, rest)
  /-- Only the first byte of a string is waited for with `io.EOF`. -/
  string_inside : ∀ s front : Bytes, s.length < 2 ^ 32 → front <+: stringHeader s.length ++ s →
    front ≠ [] → (readString front).1 ≠ .error .eof
  header_inside : ∀ n < 2 ^ 32, ∀ front : Bytes, front <+: stringHeader n → front ≠ [] →
    (readStringHeader front).1 ≠ .error .eof
  full_short : ∀ (n : ℕ) (b : Bytes), b.length < n →
    ∃ err, (readFull n b).1 = .error err ∧ err ≠ .eof

def MsgpStream.writeString (M : MsgpStream) (s : Bytes) : Bytes := M.stringHeader s.length ++ s

lemma MsgpStream.read_writeString (M : MsgpStream) {s : Bytes} (h : s.length < 2 ^ 32) :
    Element M.readString (M.writeString s) s :=
  M.string s h

lemma MsgpStream.skip_writeString (M : MsgpStream) {s : Bytes} (h : s.length < 2 ^ 32) :
    Element M.skip (M.writeString s) () :=
  M.skip_string s h

/-! ### The package as documented -/

/-- A reader that gives `io.EOF` where the input has ended, and `io.ErrUnexpectedEOF` inside of an
element. -/
def readWith {α : Type} (decode : Bytes → Option (α × Bytes)) (b : Bytes) :
    Except StreamErr α × Bytes :=
  if b = [] then (.error .eof, [])
  else
    match decode b with
    | some (a, rest) => (.ok a, rest)
    | none => (.error .unexpectedEOF, [])

variable {α : Type} {b : Bytes} {decode : Bytes → Option (α × Bytes)}

lemma readWith_ne_eof (h : b ≠ []) : (readWith decode b).1 ≠ .error .eof := by
  rw [readWith, if_neg h]
  cases decode b <;> simp

variable {enc : Bytes}

lemma readWith_element {a : α}
    (hne : enc ≠ []) (hdec : ∀ rest, decode (enc ++ rest) = some (a, rest))
    (hcut : ∀ front, front <+: enc → front ≠ enc → decode front = none) :
    Element (readWith decode) enc a where
  whole rest := by
    have henc : enc ++ rest ≠ [] := append_ne_nil_of_left_ne_nil hne rest
    rw [readWith, if_neg henc, hdec]
  before := rfl
  inside front hfront hproper := by
    rw [readWith, hcut front hfront hproper]
    by_cases h : front = []
    · exact ⟨.eof, by rw [if_pos h]⟩
    · exact ⟨.unexpectedEOF, by rw [if_neg h]⟩

lemma readWith_element_of_consumes {a : α} (hne : enc ≠ []) (hcons : MessagePack.Consumes decode)
    (hdec : ∀ rest, decode (enc ++ rest) = some (a, rest)) : Element (readWith decode) enc a := by
  refine readWith_element hne hdec fun front hfront hproper => ?_
  have henc : decode enc = some (a, []) := by
    have h := hdec []
    rwa [append_nil] at h
  exact hcons.eq_none_of_isPrefix henc hfront hproper

/-- `ReadBytes` looks at two bytes before anything else. -/
def wireReadBytes (b : Bytes) : Except StreamErr Bytes × Bytes :=
  if b.length < 2 then (.error .eof, b) else readWith decodeBin b

/-- A byte string or a string is taken off. -/
def decodeAny (b : Bytes) : Option (Unit × Bytes) :=
  match decodeBin b with
  | some (_, rest) => some ((), rest)
  | none => (decodeStr b).map fun r => ((), r.2)

lemma decodeAny_of_bin {r : Bytes × Bytes} (h : decodeBin b = some r) :
    decodeAny b = some ((), r.2) := by
  rw [decodeAny, h]

lemma decodeAny_of_str {r : Bytes × Bytes} (h : decodeStr b = some r) :
    decodeAny b = some ((), r.2) := by
  rw [decodeAny, decodeBin_eq_none (fun _ => ⟨rfl, rfl, rfl⟩) h, h]
  rfl

lemma consumes_decodeAny : MessagePack.Consumes decodeAny := by
  intro b a rest h
  rw [decodeAny] at h
  cases hbin : decodeBin b with
  | some r =>
    rw [hbin] at h
    obtain rfl : r.2 = rest := (Prod.mk.inj (Option.some.inj h)).2
    obtain ⟨front, hb, hfront⟩ := consumes_decodeBin b r.1 r.2 hbin
    exact ⟨front, hb, fun rest' => decodeAny_of_bin (hfront rest')⟩
  | none =>
    rw [hbin] at h
    obtain ⟨r, hstr, heq⟩ := Option.map_eq_some_iff.mp h
    obtain rfl : r.2 = rest := (Prod.mk.inj heq).2
    obtain ⟨front, hb, hfront⟩ := consumes_decodeStr b r.1 r.2 hstr
    exact ⟨front, hb, fun rest' => decodeAny_of_str (hfront rest')⟩

/-- A number of one byte. -/
def decodeByte : Bytes → Option (UInt8 × Bytes)
  | [] => none
  | lead :: b => if lead ≤ 127 then some (lead, b) else none

lemma strHeader_ne_nil (n : ℕ) : strHeader n ≠ [] := by
  unfold strHeader
  split_ifs <;> exact cons_ne_nil _ _

lemma two_le_length_encodeBin (s : Bytes) : 2 ≤ (encodeBin s).length := by
  unfold encodeBin binHeader
  split_ifs <;> simp <;> omega

lemma eq_nil_of_isPrefix_byte {front : Bytes} (hlen : enc.length = 1) (h : front <+: enc)
    (hne : front ≠ enc) : front = [] := by
  have hle := h.length_le
  have hlt : front.length ≠ enc.length := fun heq => hne (h.eq_of_length heq)
  exact eq_nil_of_length_eq_zero (by omega)

/-- `MessagePack` on the wire, and readers that take `io.EOF` for an input without a first byte;
byte strings are only begun with two bytes. -/
def MsgpStream.wire : MsgpStream where
  writeByte v := [v]
  writeBool := encodeBool
  stringHeader := strHeader
  writeBytes := encodeBin
  readByte := readWith decodeByte
  readBool := readWith decodeBool
  readString := readWith decodeStr
  readStringHeader := readWith decodeStrHeader
  readFull n b :=
    match takeBytes n b with
    | some (s, rest) => (.ok s, rest)
    | none => (.error .unexpectedEOF, [])
  readBytes := wireReadBytes
  skip := readWith decodeAny
  skipBytes n b := b.drop n
  writeByte_length _ _ := rfl
  writeBool_length _ := rfl
  byte v hv := by
    refine readWith_element (cons_ne_nil _ _) (fun rest => ?_) fun front hfront hne => ?_
    · rw [singleton_append, decodeByte, if_pos hv]
    · rw [eq_nil_of_isPrefix_byte rfl hfront hne, decodeByte]
  bool b := by
    refine readWith_element (cons_ne_nil _ _) (decodeBool_encode b)
      fun front hfront hne => ?_
    rw [eq_nil_of_isPrefix_byte rfl hfront hne, decodeBool]
  string s hs :=
    readWith_element_of_consumes (append_ne_nil_of_left_ne_nil (strHeader_ne_nil _) _)
      consumes_decodeStr (decodeStr_encode hs)
  header n hn :=
    readWith_element_of_consumes (strHeader_ne_nil n) consumes_decodeStrHeader
      (decodeStrHeader_encode hn)
  bytes s hs := by
    have hlen := two_le_length_encodeBin s
    have helem : Element (readWith decodeBin) (encodeBin s) s :=
      readWith_element_of_consumes (ne_nil_of_length_pos (by omega))
        consumes_decodeBin (decodeBin_encode hs)
    refine ⟨fun rest => ?_, rfl, fun front hfront hne => ?_⟩
    · rw [wireReadBytes, if_neg (by rw [length_append]; omega), helem.whole]
    · rw [wireReadBytes]
      split_ifs
      · exact ⟨.eof, rfl⟩
      · exact helem.inside front hfront hne
  skip_string s hs :=
    readWith_element_of_consumes (append_ne_nil_of_left_ne_nil (strHeader_ne_nil _) _)
      consumes_decodeAny fun rest => decodeAny_of_str (decodeStr_encode hs rest)
  skip_bytes s hs :=
    readWith_element_of_consumes
      (ne_nil_of_length_pos (by have := two_le_length_encodeBin s; omega))
      consumes_decodeAny fun rest => decodeAny_of_bin (decodeBin_encode hs rest)
  full s rest := by rw [takeBytes_append]
  string_inside _ _ _ _ hne := readWith_ne_eof hne
  header_inside _ _ _ _ hne := readWith_ne_eof hne
  full_short n b h := ⟨.unexpectedEOF, by rw [takeBytes, if_pos h], by decide⟩

end Obstor.Metacache
