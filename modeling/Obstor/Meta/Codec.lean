import Obstor.Meta.Journal

/-!
# `xl.meta` on disk, and the `FileInfo` it is read as

How the entries themselves are written is generated code, and their checksum is a package
function; both are the parameter `Marshaller`, and a round trip is assumed only for the journal
at hand.
-/

namespace Obstor.Meta

open Go Lib

/-- The generated codec of the entries, the checksum over its output, and the JSON reader of the
format before the journal. -/
structure Marshaller where
  /-- `xlMetaV2.MarshalMsg`. -/
  marshalMsg : List XlMetaV2Version → Bytes
  /-- `xlMetaV2.UnmarshalMsg`. -/
  unmarshalMsg : Bytes → Except Err (List XlMetaV2Version)
  /-- `highwayhash.Sum64` with the fixed key. -/
  sum64 : Bytes → ℕ
  /-- `json.Unmarshal` into an `xlMetaV1Object`. -/
  unmarshalV1 : Bytes → Except Err XlMetaV1Object

/-- The entries `vs` are written within the format's limit and read back as they were. -/
structure Marshaller.Faithful (K : Marshaller) (vs : List XlMetaV2Version) : Prop where
  unmarshal : K.unmarshalMsg (K.marshalMsg vs) = .ok vs
  size : (K.marshalMsg vs).length < 2 ^ 32

/-! ### The file -/

/-- `XL2 `. -/
def xlHeader : Bytes := [0x58, 0x4c, 0x32, 0x20]

/-- Major version 1, minor version 2, little-endian. -/
def xlVersionCurrent : Bytes := [1, 0, 2, 0]

/-- Bytes as `%v` prints them. -/
def showBytes (b : Bytes) : String :=
  let body := String.intercalate " " (b.map fun x => toString x.toNat)
  s!"[{body}]"

/-- A number as `%x` prints it. -/
def showHex (n : ℕ) : String := String.ofList (Nat.toDigits 16 n)

/-- `checkXL2V1`: the payload with its major and minor version. -/
def checkXL2V1 (buf : Bytes) : Except Err (Bytes × ℕ × ℕ) :=
  if buf.length ≤ 8 then .error (.new 4 "xlMeta: no data")
  else if buf.take 4 ≠ xlHeader then
    let want := showBytes xlHeader
    let got := showBytes (buf.take 4)
    .error (.new 4 s!"xlMeta: unknown XLv2 header, expected {want}, got {got}")
  else
    let version := (buf.drop 4).take 4
    let major := if version = [0x31, 0x20, 0x20, 0x20] then 1
      else (version.getD 0 0).toNat + 256 * (version.getD 1 0).toNat
    let minor := if version = [0x31, 0x20, 0x20, 0x20] then 0
      else (version.getD 2 0).toNat + 256 * (version.getD 3 0).toNat
    if major > 1 then .error (.new 4 s!"xlMeta: unknown major version {major} found")
    else .ok (buf.drop 8, major, minor)

def isXL2V1Format (buf : Bytes) : Bool := (checkXL2V1 buf).isOk

/-- `AppendTo`: the file of a journal, appended to `dst`. -/
def XlMetaV2.appendTo (P : Packages) (K : Marshaller) (z : XlMetaV2) (dst : Bytes) :
    Except Err Bytes :=
  match XlMetaInlineData.validate P.msgp z.data with
  | .error e => .error e
  | .ok () =>
    let v := K.marshalMsg z.versions
    .ok (dst ++ (xlHeader ++ (xlVersionCurrent ++ (0xc6 :: (MessagePack.beBytes 4 v.length ++
      (v ++ (P.msgp.uint32 (K.sum64 v % 2 ^ 32) ++ z.data)))))))

/-- The payload of minor versions 1 and 2, after the checksum of version 2 was compared. -/
def loadChecked (P : Packages) (K : Marshaller) (minor : ℕ) (v buf : Bytes) : Except Err Bytes :=
  if minor ≥ 2 then
    match P.msgp.readUint32Bytes buf with
    | .error e => .error (.wrap 5 s!"xlMetaV2.Load version({minor}), loading CRC: %w" e)
    | .ok (crc, nbuf) =>
      if K.sum64 v % 2 ^ 32 ≠ crc then
        let want := showHex crc
        let got := showHex (K.sum64 v % 2 ^ 32)
        .error (.new 5
          s!"xlMetaV2.Load version({minor}), CRC mismatch, want 0x{want}, got 0x{got}")
      else .ok nbuf
  else .ok buf

/-- `Load` into the zero journal. Inline data that is damaged is repaired. -/
def XlMetaV2.load (P : Packages) (K : Marshaller) (buf : Bytes) : Except Err XlMetaV2 :=
  match checkXL2V1 buf with
  | .error e => .error (.wrap 5 "xlMetaV2.Load %w" e)
  | .ok (buf, major, minor) =>
    if major ≠ 1 then .error (.new 5 "unknown major metadata version")
    else if minor = 0 then
      match K.unmarshalMsg buf with
      | .error e => .error (.wrap 5 "xlMetaV2.Load %w" e)
      | .ok versions => .ok { versions := versions }
    else if minor ≤ 2 then
      match P.msgp.readBytesZC buf with
      | .error e =>
        let bufLen := buf.length
        .error (.wrap 5 s!"xlMetaV2.Load version({minor}), bufLen({bufLen}) %w" e)
      | .ok (v, buf) =>
        match loadChecked P K minor v buf with
        | .error e => .error e
        | .ok buf =>
          match K.unmarshalMsg v with
          | .error e =>
            let vLen := v.length
            .error (.wrap 5 s!"xlMetaV2.Load version({minor}), vLen({vLen}), %w" e)
          | .ok versions =>
            match XlMetaInlineData.validate P.msgp buf with
            | .ok () => .ok { versions := versions, data := buf }
            | .error _ =>
              .ok { versions := versions, data := XlMetaInlineData.repair P.msgp buf }
    else .error (.new 5 "unknown minor metadata version")

variable {P : Packages} {K : Marshaller} {z : XlMetaV2}

lemma load_appendTo (hK : K.Faithful z.versions)
    (hdata : XlMetaInlineData.validate P.msgp z.data = .ok ()) :
    ∃ buf, z.appendTo P K [] = .ok buf ∧ isXL2V1Format buf = true ∧
      XlMetaV2.load P K buf = .ok z := by
  refine ⟨_, by rw [XlMetaV2.appendTo, hdata], ?_⟩
  rw [List.nil_append]
  generalize hrest : 0xc6 :: (MessagePack.beBytes 4 (K.marshalMsg z.versions).length ++
    (K.marshalMsg z.versions ++ (P.msgp.uint32 _ ++ z.data))) = rest
  have hcheck : checkXL2V1 (xlHeader ++ (xlVersionCurrent ++ rest)) = .ok (rest, 1, 2) := by
    have hlen : ¬ (xlHeader ++ (xlVersionCurrent ++ rest)).length ≤ 8 := by
      simp only [xlHeader, xlVersionCurrent, List.length_append, List.length_cons,
        List.length_nil, ← hrest]
      omega
    rw [checkXL2V1, if_neg hlen]
    rfl
  have hbytes : P.msgp.readBytesZC rest = .ok (K.marshalMsg z.versions,
      P.msgp.uint32 (K.sum64 (K.marshalMsg z.versions) % 2 ^ 32) ++ z.data) := by
    rw [← hrest]
    exact P.msgp.readBytes_bin32 _ _ hK.size
  have hcrc : loadChecked P K 2 (K.marshalMsg z.versions)
      (P.msgp.uint32 (K.sum64 (K.marshalMsg z.versions) % 2 ^ 32) ++ z.data) = .ok z.data := by
    rw [loadChecked, P.msgp.readUint32_append _ _ (Nat.mod_lt _ (by norm_num))]
    simp
  constructor
  · rw [isXL2V1Format, hcheck]
    rfl
  · rw [XlMetaV2.load, hcheck]
    simp only [hbytes, hcrc, hK.unmarshal, hdata]
    rfl

/-! ### Entries as `FileInfo` -/

/-- `xhttp.AmzMetaUnencryptedContentLength` and `xhttp.AmzMetaUnencryptedContentMD5`. -/
def unencryptedKeys : List String :=
  ["X-Amz-Meta-X-Amz-Unencrypted-Content-Length", "X-Amz-Meta-X-Amz-Unencrypted-Content-Md5"]

/-- The version id of an entry as a text, empty for the null version. -/
def versionIDText (U : UuidPkg) (id : UUID) : String := if id = 0 then "" else U.string id

/-- The text of an internal value. A block list is never under a key that is read as text. -/
def SysValue.text : SysValue → String
  | .raw s => s
  | .blocks _ => ""

/-- One step of the loop over the internal metadata of an object. -/
def readObjectSys (fi : FileInfo) (kv : String × SysValue) : FileInfo :=
  if equalFold kv.1 transitionStatusKey then { fi with transitionStatus := kv.2.text }
  else if equalFold kv.1 versionPurgeStatusKey then
    { fi with versionPurgeStatus := .ofText kv.2.text }
  else if isReserved kv.1 then
    { fi with metadata := fi.metadata.map (GoMap.insertEntry kv.1 kv.2.text) }
  else fi

/-- One step of the loop over the internal metadata of a delete marker. -/
def readMarkerSys (fi : FileInfo) (kv : String × SysValue) : FileInfo :=
  if equalFold kv.1 amzBucketReplicationStatus then
    { fi with deleteMarkerReplicationStatus := kv.2.text }
  else if equalFold kv.1 versionPurgeStatusKey then
    { fi with versionPurgeStatus := .ofText kv.2.text }
  else fi

/-- The parts of an object; a list that is too short is an index out of range. -/
def readParts : List ℤ → List ℤ → List String → List ℤ → Except Err (List ObjectPartInfo)
  | [], _, _, _ => .ok []
  | n :: ns, s :: ss, e :: es, a :: as =>
    match readParts ns ss es as with
    | .error err => .error err
    | .ok parts => .ok ({ etag := e, number := n, size := s, actualSize := a } :: parts)
  | _ :: _, _, _, _ => .error (.panic "index out of range")

def XlMetaV2Object.readBlocks (j : XlMetaV2Object) : List BlockRef :=
  match j.metaSys.lookup blocksKey with
  | some (.blocks refs) => refs
  | _ => []

def XlMetaV2Object.toFileInfo (U : UuidPkg) (C : Choices) (j : XlMetaV2Object)
    (volume path : String) : Except Err FileInfo :=
  match readParts j.partNumbers j.partSizes j.partETags j.partActualSizes with
  | .error e => .error e
  | .ok parts =>
    if parts ≠ [] ∧ j.bitrotChecksumAlgo ≠ .highwayHash then
      .error (.new 6 "unknown BitrotChecksumAlgo")
    else
      let checksums := parts.map fun p =>
        { partNumber := p.number, algorithm := .highwayHash256S, hash := [] : ChecksumInfo }
      let user := j.metaUser.entries.filter fun kv => !unencryptedKeys.any (equalFold kv.1)
      let fi : FileInfo :=
        { volume := volume
          name := path
          size := j.size
          modTime := .unix j.modTime
          versionID := versionIDText U j.versionID
          parts := parts
          metadata := some user }
      let fi := (C.range.order _ j.metaSys.entries).foldl readObjectSys fi
      .ok { fi with
        erasure :=
          { algorithm := j.erasureAlgorithm.string
            dataBlocks := j.erasureM
            parityBlocks := j.erasureN
            blockSize := j.erasureBlockSize
            index := j.erasureIndex
            distribution := j.erasureDist.map fun i => (i.toNat : ℤ)
            checksums := checksums ++
              List.replicate (j.partSizes.length - parts.length) ({} : ChecksumInfo) }
        dataDir := U.string j.dataDir
        blocks := j.readBlocks }

def XlMetaV2DeleteMarker.toFileInfo (U : UuidPkg) (C : Choices) (j : XlMetaV2DeleteMarker)
    (volume path : String) : FileInfo :=
  (C.range.order _ j.metaSys.entries).foldl readMarkerSys
    { volume := volume
      name := path
      modTime := .unix j.modTime
      versionID := versionIDText U j.versionID
      deleted := true }

def XlMetaV1Object.toFileInfo (m : XlMetaV1Object) (volume path : String) : Except Err FileInfo :=
  if !m.valid then .error .fileCorrupt
  else
    .ok { volume := volume
          name := path
          modTime := m.statModTime
          size := m.statSize
          metadata := m.metadata
          parts := m.parts
          erasure := m.erasure
          versionID := m.versionID
          dataDir := m.dataDir
          transitionStatus := (m.metadata.lookup transitionStatusKey).getD "" }

/-- The entry of a version as `FileInfo`. -/
def XlMetaV2Version.toFileInfo (U : UuidPkg) (C : Choices) (v : XlMetaV2Version)
    (volume path : String) : Except Err FileInfo :=
  match v with
  | .object o => o.toFileInfo U C volume path
  | .delete d => .ok (d.toFileInfo U C volume path)
  | .legacy m => m.toFileInfo volume path
  | .invalid => .ok {}

def getModTimeFromVersion : XlMetaV2Version → Time
  | .object o => .unix o.modTime
  | .delete d => .unix d.modTime
  | .legacy m => m.statModTime
  | .invalid => .zero

/-- `xlMetaV2.ToFileInfo`: the version with the given id, or the latest. -/
def XlMetaV2.toFileInfo (P : Packages) (C : Choices) (z : XlMetaV2)
    (volume path versionID : String) : Except Err FileInfo :=
  match parseVersionID P.uuid versionID with
  | none => .error .fileVersionNotFound
  | some uv =>
    if !z.versions.all XlMetaV2Version.valid then
      .error (if versionID = "" then .fileNotFound else .fileVersionNotFound)
    else
      let ordered := C.slice.sort _
        (fun v w => (getModTimeFromVersion v).after (getModTimeFromVersion w)) z.versions
      if versionID = "" then
        match ordered with
        | [] => .error .fileNotFound
        | v :: _ =>
          (v.toFileInfo P.uuid C volume path).map fun fi =>
            { fi with isLatest := true, numVersions := ordered.length }
      else
        match firstHit (XlMetaV2Version.isFor versionID uv) ordered with
        | none => .error .fileVersionNotFound
        | some (newer, v, _) =>
          (v.toFileInfo P.uuid C volume path).map fun fi =>
            { fi with
              isLatest := newer.length = 0
              numVersions := z.versions.length
              successorModTime :=
                match newer.getLast? with
                | some w => getModTimeFromVersion w
                | none => fi.successorModTime }

/-- The inline data of a version as it is read: under its id, or under its data directory. -/
def readInline (P : Packages) (data : XlMetaInlineData) (fi : FileInfo) : Bytes :=
  let versionID := if fi.versionID = "" then nullVersionID else fi.versionID
  let found := (XlMetaInlineData.find P.msgp data versionID).getD []
  if found.length = 0 then (XlMetaInlineData.find P.msgp data fi.dataDir).getD [] else found

def getFileInfo (P : Packages) (C : Choices) (K : Marshaller) (xlMetaBuf : Bytes)
    (volume path versionID : String) (data : Bool) : Except Err FileInfo :=
  if isXL2V1Format xlMetaBuf then
    match XlMetaV2.load P K xlMetaBuf with
    | .error e => .error e
    | .ok z =>
      match z.toFileInfo P C volume path versionID with
      | .error e => .error e
      | .ok fi => .ok (if data then { fi with data := readInline P z.data fi } else fi)
  else
    match K.unmarshalV1 xlMetaBuf with
    | .error _ => .error .fileCorrupt
    | .ok m => (m.toFileInfo volume path).map fun fi => { fi with xlv1 := true }

end Obstor.Meta
