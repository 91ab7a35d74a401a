import Obstor.Meta.Packages

/-!
# Inline object data: `xlMetaInlineData`

Small objects live inside `xl.meta`, behind the journal, as one MessagePack map from version id
to bytes with a version byte in front. `xlMetaInlineData` is that byte string; every operation
walks it and writes it anew (`cmd/xl-storage-format-v2.go`).

The operations are translated on bytes. `Represents M x kvs` says that `x` is the serialisation
of the association list `kvs`, and each operation on `x` is an operation on `kvs`.

The limits of the format are in `Represents`: keys are not empty, and the number of entries and
the lengths of keys and values fit in 32 bits.
-/

namespace Obstor.Meta

open Go List

/-- Serialised `[string][]byte` pairs. -/
abbrev XlMetaInlineData := Bytes

def xlMetaInlineDataVer : UInt8 := 1

namespace XlMetaInlineData

def versionOK (x : XlMetaInlineData) : Bool :=
  match x with
  | [] => true
  | v :: _ => 0 < v && v ≤ xlMetaInlineDataVer

/-- `afterVersion`: the payload after the version byte. -/
def afterVersion (x : XlMetaInlineData) : Bytes := x.tail

variable (M : MsgpPkg)

/-- The loop of `find`: a matching key ends it, with the value or, if that is unreadable, nil. -/
def findLoop (key : Bytes) : ℕ → Bytes → Option Bytes
  | 0, _ => none
  | sz + 1, buf =>
    match M.readMapKeyZC buf with
    | .error _ => none
    | .ok (found, buf) =>
      if found = key then
        match M.readBytesZC buf with
        | .error _ => none
        | .ok (val, _) => some val
      else
        match M.readBytesZC buf with
        | .error _ => none
        | .ok (_, buf) => findLoop key sz buf

section

variable (x : XlMetaInlineData)

/-- `find`: the bytes under `key`, `none` for nil. -/
def find (key : String) : Option Bytes :=
  if x.length = 0 || !versionOK x then none
  else
    match M.readMapHeaderBytes (afterVersion x) with
    | .error _ => none
    | .ok (sz, buf) => findLoop M (stringBytes key) sz buf

/-- The loop of `validate`; `i` is the number of the entry that is read. -/
def validateLoop : ℕ → ℕ → Bytes → Except Err Unit
  | _, 0, _ => .ok ()
  | i, sz + 1, buf =>
    match M.readMapKeyZC buf with
    | .error e => .error (.wrap 1 "xlMetaInlineData: %w" e)
    | .ok (key, buf) =>
      if key.length = 0 then .error (.new 1 s!"xlMetaInlineData: key {i} is length 0")
      else
        match M.readBytesZC buf with
        | .error e => .error (.wrap 1 "xlMetaInlineData: %w" e)
        | .ok (_, buf) => validateLoop (i + 1) sz buf

def errUnknownVersion : Err :=
  let ver := String.ofList (Nat.toDigits 16 (x.headD 0).toNat)
  .new 1 s!"xlMetaInlineData: unknown version 0x{ver}"

/-- `validate`: the structure of the data, not its integrity. -/
def validate : Except Err Unit :=
  if x.length = 0 then .ok ()
  else if !versionOK x then .error (errUnknownVersion x)
  else
    match M.readMapHeaderBytes (afterVersion x) with
    | .error e => .error (.wrap 1 "xlMetaInlineData: %w" e)
    | .ok (sz, buf) => validateLoop M 0 sz buf

def payload (kvs : List (Bytes × Bytes)) : Bytes :=
  kvs.flatMap fun p => M.stringFromBytes p.1 ++ M.bytes p.2

/-- `serialize`: the pairs as inline data; no pairs give nil. The count is a `uint32`. -/
def serialize (kvs : List (Bytes × Bytes)) : XlMetaInlineData :=
  if kvs.length = 0 then []
  else xlMetaInlineDataVer :: (M.mapHeader (kvs.length % 2 ^ 32) ++ payload M kvs)

/-- The loop that `replace`, `rename` and `remove` share: the pairs up to the first that is
unreadable. -/
def readEntries : ℕ → Bytes → List (Bytes × Bytes)
  | 0, _ => []
  | sz + 1, buf =>
    match M.readMapKeyZC buf with
    | .error _ => []
    | .ok (found, buf) =>
      match M.readBytesZC buf with
      | .error _ => []
      | .ok (foundVal, buf) => (found, foundVal) :: readEntries sz buf

/-- The pairs of `x`; an unreadable header counts as an empty map, and the version byte is
skipped unseen. -/
def allEntries : List (Bytes × Bytes) :=
  match M.readMapHeaderBytes (afterVersion x) with
  | .error _ => []
  | .ok (sz, buf) => readEntries M sz buf

/-- The loop of `repair`, which also stops at an empty key. -/
def repairLoop : ℕ → Bytes → List (Bytes × Bytes)
  | 0, _ => []
  | sz + 1, buf =>
    match M.readMapKeyZC buf with
    | .error _ => []
    | .ok (key, buf) =>
      if key.length = 0 then []
      else
        match M.readBytesZC buf with
        | .error _ => []
        | .ok (val, buf) => (key, val) :: repairLoop sz buf

/-- `repair`: keep the pairs that can be read. -/
def repair : XlMetaInlineData :=
  if x.length = 0 then x
  else if !versionOK x then []
  else
    match M.readMapHeaderBytes (afterVersion x) with
    | .error _ => []
    | .ok (sz, buf) => serialize M (repairLoop M sz buf)

/-- Overwrite the value of `key`, or add the pair. -/
def replaceEntries (key value : Bytes) (kvs : List (Bytes × Bytes)) : List (Bytes × Bytes) :=
  let kept := kvs.map fun p => if p.1 = key then (p.1, value) else p
  if kvs.any fun p => p.1 = key then kept else kept ++ [(key, value)]

def replace (key : String) (value : Bytes) : XlMetaInlineData :=
  serialize M (replaceEntries (stringBytes key) value (allEntries M x))

def removeEntries (key : Bytes) (kvs : List (Bytes × Bytes)) : List (Bytes × Bytes) :=
  kvs.filter fun p => p.1 ≠ key

/-- `remove`; the data stays as it is when the key is not there. -/
def remove (key : String) : XlMetaInlineData :=
  let kvs := allEntries M x
  if kvs.any fun p => p.1 = stringBytes key then serialize M (removeEntries (stringBytes key) kvs)
  else x

end

/-! ### Operations on the pairs -/

variable {key value : Bytes}

lemma lookup_map_other {k : Bytes} (h : k ≠ key) (kvs : List (Bytes × Bytes)) :
    (kvs.map fun p => if p.1 = key then (p.1, value) else p).lookup k = kvs.lookup k := by
  induction kvs with
  | nil => rfl
  | cons p kvs ih =>
    obtain ⟨a, v⟩ := p
    by_cases ha : a = key
    · have hka : (k == a) = false := beq_false_of_ne (ha ▸ h)
      simp only [map_cons, if_pos ha, List.lookup_cons, hka]
      exact ih
    · simp only [map_cons, if_neg ha, List.lookup_cons]
      rw [ih]

variable {kvs : List (Bytes × Bytes)}

lemma any_key_iff : (kvs.any fun p => p.1 = key) = true ↔ ∃ p ∈ kvs, p.1 = key := by
  simp

lemma lookup_map_self (h : ∃ p ∈ kvs, p.1 = key) :
    (kvs.map fun p => if p.1 = key then (p.1, value) else p).lookup key = some value := by
  induction kvs with
  | nil =>
    obtain ⟨p, hp, -⟩ := h
    cases hp
  | cons p kvs ih =>
    obtain ⟨a, v⟩ := p
    by_cases ha : a = key
    · simp [ha]
    · have hka : (key == a) = false := beq_false_of_ne (Ne.symm ha)
      simp only [map_cons, if_neg ha, List.lookup_cons, hka]
      apply ih
      obtain ⟨q, hq, hqk⟩ := h
      rcases mem_cons.mp hq with rfl | hq
      · exact absurd hqk ha
      · exact ⟨q, hq, hqk⟩

lemma lookup_eq_none_of_forall (h : ∀ p ∈ kvs, p.1 ≠ key) : kvs.lookup key = none := by
  rw [lookup_eq_none_iff]
  intro p hp
  exact bne_iff_ne.mpr (Ne.symm (h p hp))

lemma lookup_replaceEntries (key value k : Bytes) (kvs : List (Bytes × Bytes)) :
    (replaceEntries key value kvs).lookup k = if k = key then some value else kvs.lookup k := by
  unfold replaceEntries
  by_cases hany : ∃ p ∈ kvs, p.1 = key
  · rw [if_pos (any_key_iff.mpr hany)]
    split_ifs with hk
    · rw [hk, lookup_map_self hany]
    · exact lookup_map_other hk kvs
  · have hne : ∀ p ∈ kvs, p.1 ≠ key := fun p hp hk => hany ⟨p, hp, hk⟩
    rw [if_neg (mt any_key_iff.mp hany), lookup_append]
    split_ifs with hk
    · have hkept : (kvs.map fun p => if p.1 = key then (p.1, value) else p) = kvs := by
        rw [map_congr_left (fun p hp => if_neg (hne p hp)), map_id']
      rw [hk, hkept, lookup_eq_none_of_forall hne]
      simp
    · have hb : (k == key) = false := beq_false_of_ne hk
      rw [lookup_map_other hk, List.lookup_cons, hb]
      simp

lemma mem_replaceEntries {p : Bytes × Bytes}
    (h : p ∈ replaceEntries key value kvs) : p ∈ kvs ∨ p = (key, value) := by
  have hkept : p ∈ kvs.map (fun q => if q.1 = key then (q.1, value) else q) →
      p ∈ kvs ∨ p = (key, value) := by
    intro hp
    obtain ⟨q, hq, rfl⟩ := mem_map.mp hp
    split_ifs with hk
    · right
      rw [hk]
    · exact Or.inl hq
  unfold replaceEntries at h
  split_ifs at h with hany
  · exact hkept h
  · rcases mem_append.mp h with h | h
    · exact hkept h
    · exact Or.inr (mem_singleton.mp h)

lemma replaceEntries_length_le (key value : Bytes) (kvs : List (Bytes × Bytes)) :
    (replaceEntries key value kvs).length ≤ kvs.length + 1 := by
  unfold replaceEntries
  split_ifs <;> simp

/-! ### Data that stands for a list of pairs -/

/-- `x` is the serialisation of `kvs`, within the limits of the format. -/
structure Represents (x : XlMetaInlineData) (kvs : List (Bytes × Bytes)) : Prop where
  eq : x = serialize M kvs
  count : kvs.length < 2 ^ 32
  sized : ∀ p ∈ kvs, p.1 ≠ [] ∧ p.1.length < 2 ^ 32 ∧ p.2.length < 2 ^ 32

lemma represents_nil : Represents M [] [] where
  eq := rfl
  count := by norm_num
  sized := by simp

variable {M}

lemma serialize_of_ne_nil (hne : kvs ≠ []) (hcount : kvs.length < 2 ^ 32) :
    serialize M kvs = xlMetaInlineDataVer :: (M.mapHeader kvs.length ++ payload M kvs) := by
  rw [serialize, if_neg (by rwa [length_eq_zero_iff]), Nat.mod_eq_of_lt hcount]

lemma payload_cons (p : Bytes × Bytes) (kvs : List (Bytes × Bytes)) :
    payload M (p :: kvs) = M.stringFromBytes p.1 ++ (M.bytes p.2 ++ payload M kvs) := by
  rw [payload, flatMap_cons, append_assoc]
  rfl

variable {kvs : List (Bytes × Bytes)}

section

variable (hs : ∀ p ∈ kvs, p.1 ≠ [] ∧ p.1.length < 2 ^ 32 ∧ p.2.length < 2 ^ 32)

include hs

lemma readEntries_payload : readEntries M kvs.length (payload M kvs) = kvs := by
  induction kvs with
  | nil => rfl
  | cons p kvs ih =>
    obtain ⟨-, hk, hv⟩ := hs p mem_cons_self
    rw [payload_cons, length_cons, readEntries, M.readMapKey_append _ _ hk]
    simp only [M.readBytes_append _ _ hv]
    rw [ih fun q hq => hs q (mem_cons_of_mem p hq)]

lemma findLoop_payload (key : Bytes) :
    findLoop M key kvs.length (payload M kvs) = kvs.lookup key := by
  induction kvs with
  | nil => rfl
  | cons p kvs ih =>
    obtain ⟨-, hk, hv⟩ := hs p mem_cons_self
    rw [payload_cons, length_cons, findLoop, M.readMapKey_append _ _ hk]
    simp only [M.readBytes_append _ _ hv]
    rw [ih fun q hq => hs q (mem_cons_of_mem p hq), List.lookup_cons]
    by_cases h : p.1 = key
    · rw [if_pos h, h, beq_self_eq_true]
    · rw [if_neg h, beq_false_of_ne (Ne.symm h)]

lemma validateLoop_payload (i : ℕ) :
    validateLoop M i kvs.length (payload M kvs) = .ok () := by
  induction kvs generalizing i with
  | nil => rfl
  | cons p kvs ih =>
    obtain ⟨hne, hk, hv⟩ := hs p mem_cons_self
    have hlen : ¬ p.1.length = 0 := by rwa [length_eq_zero_iff]
    rw [payload_cons, length_cons, validateLoop, M.readMapKey_append _ _ hk]
    simp only [if_neg hlen, M.readBytes_append _ _ hv]
    exact ih (fun q hq => hs q (mem_cons_of_mem p hq)) (i + 1)

end

variable {x : XlMetaInlineData}

section

variable (h : Represents M x kvs)

include h

lemma Represents.allEntries : allEntries M x = kvs := by
  rw [h.eq]
  by_cases hne : kvs = []
  · obtain ⟨e, he⟩ := M.readMapHeader_nil
    subst hne
    show (match M.readMapHeaderBytes [] with
      | .error _ => []
      | .ok (sz, buf) => readEntries M sz buf) = []
    rw [he]
  · rw [serialize_of_ne_nil hne h.count, XlMetaInlineData.allEntries, afterVersion, tail_cons,
      M.readMapHeader_append _ _ h.count]
    exact readEntries_payload h.sized

lemma Represents.find (key : String) : find M x key = kvs.lookup (stringBytes key) := by
  rw [h.eq]
  by_cases hne : kvs = []
  · subst hne
    rfl
  · rw [serialize_of_ne_nil hne h.count, XlMetaInlineData.find, afterVersion, tail_cons,
      M.readMapHeader_append _ _ h.count]
    exact findLoop_payload h.sized _

lemma Represents.validate : validate M x = .ok () := by
  rw [h.eq]
  by_cases hne : kvs = []
  · subst hne
    rfl
  · rw [serialize_of_ne_nil hne h.count, XlMetaInlineData.validate, afterVersion, tail_cons,
      M.readMapHeader_append _ _ h.count]
    exact validateLoop_payload h.sized 0

lemma Represents.replace {key : String}
    (hkey : stringBytes key ≠ [] ∧ (stringBytes key).length < 2 ^ 32)
    (hval : value.length < 2 ^ 32) (hroom : kvs.length + 1 < 2 ^ 32) :
    Represents M (replace M x key value) (replaceEntries (stringBytes key) value kvs) where
  eq := by rw [XlMetaInlineData.replace, h.allEntries]
  count := lt_of_le_of_lt (replaceEntries_length_le _ _ _) hroom
  sized := by
    intro p hp
    rcases mem_replaceEntries hp with hp | rfl
    · exact h.sized p hp
    · exact ⟨hkey.1, hkey.2, hval⟩

lemma Represents.remove (key : String) :
    Represents M (remove M x key) (removeEntries (stringBytes key) kvs) := by
  have hsub : removeEntries (stringBytes key) kvs ⊆ kvs := fun p hp => (mem_filter.mp hp).1
  have hcount : (removeEntries (stringBytes key) kvs).length < 2 ^ 32 :=
    lt_of_le_of_lt (length_filter_le _ _) h.count
  refine ⟨?_, hcount, fun p hp => h.sized p (hsub hp)⟩
  rw [XlMetaInlineData.remove, h.allEntries]
  by_cases hany : ∃ p ∈ kvs, p.1 = stringBytes key
  · rw [if_pos (any_key_iff.mpr hany)]
  · have hall : removeEntries (stringBytes key) kvs = kvs := by
      apply filter_eq_self.mpr
      intro p hp
      exact decide_eq_true fun hk => hany ⟨p, hp, hk⟩
    rw [if_neg (mt any_key_iff.mp hany), hall]
    exact h.eq

end

end XlMetaInlineData

end Obstor.Meta
