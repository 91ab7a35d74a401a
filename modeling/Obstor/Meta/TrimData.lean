import Obstor.Meta.InlineRead

/-!
# `xl.meta` without its inline data

`xlMetaV2TrimData` (`cmd/xl-storage-format-v2.go`) cuts the inline data off a file without reading
the entries. It parses the three formats on its own: in 1.0 the file is the bare map of the entries,
in 1.1 a byte string with the entries and then the data, and in 1.2 there is a checksum between the
two.

`codec_round_trip`: a cut file has the same versions as the whole one (`load_trimData`), for a file
that was written and for any other that is accepted. It rests on two properties of the msgp readers
(`OneValue`): they look at nothing behind the value they take, and a map is not read as a byte
string.
-/

namespace Obstor.Meta

open Go Lib List XlMetaV2

/-- `xlMetaV2TrimData`. The function names the major version `min` and the minor version `maj`. -/
def xlMetaV2TrimData (P : Packages) (buf : Bytes) : Bytes :=
  match checkXL2V1 buf with
  | .error _ => buf
  | .ok (metaBuf, min, maj) =>
    if maj = 1 ∧ min < 1 then buf
    else
      match P.msgp.readBytesZC metaBuf with
      | .error _ => buf
      | .ok (_, metaBuf) =>
        -- a reader that fails returns no rest, and the error is only logged
        let metaBuf :=
          if maj > 1 ∨ min ≥ 2 then
            match P.msgp.readUint32Bytes metaBuf with
            | .error _ => []
            | .ok (_, rest) => rest
          else metaBuf
        let ends := buf.length - metaBuf.length
        if ends > buf.length then buf else buf.take ends

/-! ### Assumptions about the readers -/

/-- A reader takes a value off the front of its input, at least one byte, and looks at nothing
behind it. -/
def Consumes {α : Type} (read : Bytes → Except Err (α × Bytes)) : Prop :=
  ∀ b a rest, read b = .ok (a, rest) →
    ∃ front, front ≠ [] ∧ b = front ++ rest ∧ ∀ rest', read (front ++ rest') = .ok (a, rest')

/-- The readers of the MessagePack package take one value, and tell a map from a byte string. -/
structure MsgpPkg.OneValue (M : MsgpPkg) : Prop where
  readBytes : Consumes M.readBytesZC
  readUint32 : Consumes M.readUint32Bytes
  not_bytes : ∀ b r, M.readMapHeaderBytes b = .ok r → ∃ e, M.readBytesZC b = .error e

/-- The generated reader of the entries accepts only what starts with a map header. -/
def Marshaller.ReadsMap (K : Marshaller) (M : MsgpPkg) : Prop :=
  ∀ b vs, K.unmarshalMsg b = .ok vs → ∃ r, M.readMapHeaderBytes b = .ok r

/-! ### The wire format -/

lemma ofReader_eq_ok {α : Type} {o : Option α} {a : α} : ofReader o = .ok a ↔ o = some a := by
  cases o with
  | none => exact iff_of_false (fun h => by cases h) fun h => by cases h
  | some b =>
    constructor
    · intro h
      exact congrArg some (Except.ok.inj h)
    · intro h
      exact congrArg Except.ok (Option.some.inj h)

lemma consumes_ofReader {α : Type} {read : Bytes → Option (α × Bytes)} (hnil : read [] = none)
    (h : MessagePack.Consumes read) : Consumes fun b => ofReader (read b) := by
  intro b a rest hread
  obtain ⟨front, hb, hfront⟩ := h b a rest (ofReader_eq_ok.mp hread)
  refine ⟨front, ?_, hb, fun rest' => ofReader_eq_ok.mpr (hfront rest')⟩
  rintro rfl
  have hempty := hfront []
  rw [nil_append, hnil] at hempty
  cases hempty

lemma MsgpPkg.wire_oneValue : MsgpPkg.wire.OneValue where
  readBytes := consumes_ofReader rfl MessagePack.consumes_decodeBin
  readUint32 := consumes_ofReader rfl MessagePack.consumes_decodeUint
  not_bytes b r h := by
    refine ⟨errMsgp, ?_⟩
    change ofReader (MessagePack.decodeBin b) = _
    rw [MessagePack.decodeBin_eq_none (fun _ => ⟨rfl, rfl, rfl⟩) (ofReader_eq_ok.mp h)]
    rfl

/-! ### Cutting a file -/

variable {P : Packages} {K : Marshaller}

variable {buf : Bytes} {minor : ℕ}

lemma checkXL2V1_eq_ok {payload : Bytes} {major : ℕ}
    (h : checkXL2V1 buf = .ok (payload, major, minor)) :
    ∃ head : Bytes, head.length = 8 ∧ buf = head ++ payload ∧
      ∀ payload', payload' ≠ [] → checkXL2V1 (head ++ payload') = .ok (payload', major, minor) := by
  by_cases hlen : buf.length ≤ 8
  · rw [checkXL2V1, if_pos hlen] at h
    cases h
  have htake : (buf.take 8).length = 8 := length_take_of_le (by omega)
  have hfirst : ∀ rest : Bytes, (buf.take 8 ++ rest).take 4 = buf.take 4 := by
    intro rest
    rw [take_append_of_le_length (by omega), take_take]
    rfl
  have hversion : ∀ rest : Bytes, ((buf.take 8 ++ rest).drop 4).take 4 = (buf.drop 4).take 4 := by
    intro rest
    rw [drop_append_of_le_length (by omega), take_append_of_le_length (by
      rw [length_drop]; omega), drop_take, take_take]
    rfl
  refine ⟨buf.take 8, htake, ?_, fun payload' hpayload => ?_⟩
  · have hpayload : buf.drop 8 = payload := by
      rw [checkXL2V1, if_neg hlen] at h
      dsimp only at h
      split_ifs at h <;> exact (Prod.mk.inj (Except.ok.inj h)).1
    rw [← hpayload, take_append_drop]
  · have hlong : ¬(buf.take 8 ++ payload').length ≤ 8 := by
      have := length_pos_of_ne_nil hpayload
      rw [length_append]
      omega
    rw [checkXL2V1, if_neg hlen] at h
    rw [checkXL2V1, if_neg hlong, hfirst, drop_left' htake]
    dsimp only at h ⊢
    rw [hversion]
    split_ifs at h ⊢ <;> simp_all

lemma load_eq_ok {z : XlMetaV2} (h : load P K buf = .ok z) :
    ∃ payload minor, checkXL2V1 buf = .ok (payload, 1, minor) ∧
      ((minor = 0 ∧ K.unmarshalMsg payload = .ok z.versions ∧ z.data = []) ∨
        ((minor = 1 ∨ minor = 2) ∧ ∃ v rest data, P.msgp.readBytesZC payload = .ok (v, rest) ∧
          loadChecked P K minor v rest = .ok data ∧ K.unmarshalMsg v = .ok z.versions)) := by
  simp only [load] at h
  split at h
  · cases h
  · rename_i payload major minor hcheck
    split_ifs at h with hmajor hminor hle
    · split at h
      · cases h
      · rename_i versions hversions
        cases h
        obtain rfl : major = 1 := not_not.mp hmajor
        exact ⟨payload, minor, hcheck, .inl ⟨hminor, hversions, rfl⟩⟩
    · obtain rfl : major = 1 := not_not.mp hmajor
      refine ⟨payload, minor, hcheck, .inr ⟨by omega, ?_⟩⟩
      split at h
      · cases h
      · rename_i v rest hv
        split at h
        · cases h
        · rename_i data hdata
          split at h
          · cases h
          · rename_i versions hversions
            refine ⟨v, rest, data, hv, hdata, ?_⟩
            split at h <;> rw [hversions, ← Except.ok.inj h]

lemma load_of_front {head front sum v : Bytes} {versions : List XlMetaV2Version}
    (hcheck : checkXL2V1 (head ++ (front ++ sum)) = .ok (front ++ sum, 1, minor))
    (hminor : minor = 1 ∨ minor = 2)
    (hv : P.msgp.readBytesZC (front ++ sum) = .ok (v, sum))
    (hsum : loadChecked P K minor v sum = .ok []) (hversions : K.unmarshalMsg v = .ok versions) :
    load P K (head ++ (front ++ sum)) = .ok { versions := versions } := by
  have hne : minor ≠ 0 := by omega
  have hle : minor ≤ 2 := by omega
  simp only [load, hcheck, if_neg hne, if_pos hle, hv, hsum, hversions]
  rfl

lemma loadChecked_consumes (hP : P.msgp.OneValue) {v rest data : Bytes}
    (h : loadChecked P K minor v rest = .ok data) :
    ∃ sum, rest = sum ++ data ∧ (∀ data', loadChecked P K minor v (sum ++ data') = .ok data') ∧
      (minor ≥ 2 → ∃ crc, P.msgp.readUint32Bytes rest = .ok (crc, data)) ∧
      (¬minor ≥ 2 → rest = data) := by
  unfold loadChecked at h ⊢
  by_cases hminor : minor ≥ 2
  · simp only [if_pos hminor] at h ⊢
    split at h
    · cases h
    · rename_i crc nbuf hcrc
      split_ifs at h with hsum
      cases h
      obtain ⟨sum, -, hrest, hread⟩ := hP.readUint32 _ _ _ hcrc
      refine ⟨sum, hrest, fun data' => ?_, fun _ => ⟨crc, hcrc⟩, fun hlt => absurd hminor hlt⟩
      rw [hread]
      exact if_neg hsum
  · simp only [if_neg hminor] at h ⊢
    cases h
    exact ⟨[], rfl, fun _ => rfl, fun hge => absurd hge hminor, fun _ => rfl⟩

lemma load_trimData (hP : P.msgp.OneValue) (hK : K.ReadsMap P.msgp) {z : XlMetaV2}
    (h : load P K buf = .ok z) :
    load P K (xlMetaV2TrimData P buf) = .ok { versions := z.versions } := by
  obtain ⟨payload, minor, hcheck, ⟨rfl, hversions, hdata⟩ | ⟨hminor, v, rest, data, hv, hsum,
    hversions⟩⟩ := load_eq_ok h
  · -- format 1.0: the entries are no byte string, and the file is left as it is
    obtain ⟨r, hmap⟩ := hK _ _ hversions
    obtain ⟨e, herr⟩ := hP.not_bytes _ _ hmap
    have htrim : xlMetaV2TrimData P buf = buf := by
      simp only [xlMetaV2TrimData, hcheck, herr]
      exact ite_self _
    rw [htrim, h, ← hdata]
  · obtain ⟨head, hhead, hbuf, hother⟩ := checkXL2V1_eq_ok hcheck
    obtain ⟨front, hfront, hpayload, hread⟩ := hP.readBytes _ _ _ hv
    obtain ⟨sum, hrest, hagain, hcrc, hnone⟩ := loadChecked_consumes hP hsum
    have hend : (if minor > 1 ∨ 1 ≥ 2 then
        match P.msgp.readUint32Bytes rest with
        | .error _ => []
        | .ok (_, rest) => rest
        else rest) = data := by
      by_cases hge : minor ≥ 2
      · obtain ⟨crc, hcrc⟩ := hcrc hge
        rw [if_pos (show minor > 1 ∨ 1 ≥ 2 from Or.inl hge), hcrc]
      · rw [if_neg (by omega), hnone hge]
    have hcut : buf = (head ++ (front ++ sum)) ++ data := by
      rw [hbuf, hpayload, hrest, append_assoc, append_assoc]
    have htrim : xlMetaV2TrimData P buf = head ++ (front ++ sum) := by
      simp only [xlMetaV2TrimData, hcheck, hv, hend]
      rw [if_neg (by omega), if_neg (by omega), hcut, length_append, Nat.add_sub_cancel, take_left]
    rw [htrim]
    have hempty := hagain []
    rw [append_nil] at hempty
    exact load_of_front (hother _ (by simp [hfront])) hminor (hread sum) hempty hversions

/-- The codec of `xl.meta`: the file of a journal is read back as it was, and cut, with the same
versions and no data; and every file that is accepted is accepted, once cut, with the same
versions. -/
theorem codec_round_trip (hP : P.msgp.OneValue) (hK : K.ReadsMap P.msgp) :
    (∀ z : XlMetaV2, K.Faithful z.versions → XlMetaInlineData.validate P.msgp z.data = .ok () →
      ∃ buf, z.appendTo P K [] = .ok buf ∧ XlMetaV2.load P K buf = .ok z ∧
        XlMetaV2.load P K (xlMetaV2TrimData P buf) = .ok { versions := z.versions, data := [] }) ∧
    ∀ (buf : Bytes) (z : XlMetaV2), load P K buf = .ok z →
      ∃ z', load P K (xlMetaV2TrimData P buf) = .ok z' ∧ z'.versions = z.versions := by
  refine ⟨fun z hz hdata => ?_, fun buf z hload => ?_⟩
  · obtain ⟨buf, hbuf, -, hload⟩ := load_appendTo hz hdata
    exact ⟨buf, hbuf, hload, load_trimData hP hK hload⟩
  · exact ⟨_, load_trimData hP hK hload, rfl⟩

/-- A journal with inline data of one byte, in the format that is written now. -/
theorem codec_round_trip_inline :
    ∃ buf, overwrittenJournal.appendTo Packages.std overwrittenMarshaller [] = .ok buf ∧
      XlMetaV2.load Packages.std overwrittenMarshaller buf = .ok overwrittenJournal ∧
      XlMetaV2.load Packages.std overwrittenMarshaller (xlMetaV2TrimData Packages.std buf) =
        .ok { versions := overwrittenJournal.versions, data := [] } := by
  have hmap : overwrittenMarshaller.ReadsMap Packages.std.msgp := by
    intro b vs h
    simp only [overwrittenMarshaller] at h
    split_ifs at h with hb
    rw [hb]
    exact ⟨_, rfl⟩
  exact (codec_round_trip MsgpPkg.wire_oneValue hmap).1 _
    overwrittenMarshaller_faithful (by decide +kernel)

end Obstor.Meta
