import Obstor.Multipart.Requests

/-!
# What concurrent requests leave of an upload

Two completions of one upload both hold its read lock, so that each may remove the part files the
other one lists, and the second to commit moves the data of the first to the trash. A completion
that fails after it wrote its own list leaves an upload without the parts it did not list.
`Orderly` rules out these two, and a completion of empty parts only, whose data files are not moved.

The invariant `UploadInv` says of each program point what the store has at that point (`AtPc`).

`uploadSafe_of_orderly`: no run of orderly requests loses a part that a completed object lists. A
step of any program is one of a few moves (`move_of_uploadStep`), so `uploadInv_step` is proved for
moves and not for the lines of the three programs.
-/

namespace Obstor.Multipart

open Lib Meta List Function ObjectPartInfo

/-- A completion that has started and was not answered yet. -/
def Pc.completing : Pc → Bool
  | .completeCheck | .completeRead | .completeWrite _ _ => true
  | .completeRemove _ _ | .completeLock _ | .completeRename _ => true
  | _ => false

/-- A completion that has written its part list to the upload and was not answered yet. -/
def Pc.committing : Pc → Bool
  | .completeRemove _ _ | .completeLock _ | .completeRename _ => true
  | _ => false

variable {n : ℕ}

/-- Acknowledged completions have their data, and acknowledged parts are listed. While a completion
commits, the list is its own. -/
structure UploadSafe (requests : Fin n → Request) (s : UploadState n) : Prop where
  completed : ∀ i parts, requests i = .completeMultipartUpload parts → s.pc i = .returned true →
    ∃ listed, s.store.object = some listed ∧
      listed.map ObjectPartInfo.number = parts.map CompletePart.partNumber ∧
      ∀ part ∈ listed, part.number ∈ s.store.objectFiles
  uploaded : ∀ parts, s.store.xlMeta = some parts → (∀ i, (s.pc i).committing = false) →
    ∀ partID part, s.store.acked partID = some part → part ∈ parts

/-- Some part that the request lists is not empty. -/
def HasData (parts : List CompletePart) (current : List ObjectPartInfo) : Prop :=
  parts ≠ [] → ∃ part ∈ parts, ∃ cur ∈ current, cur.number = part.partNumber ∧ 0 < cur.size

instance (parts : List CompletePart) (current : List ObjectPartInfo) :
    Decidable (HasData parts current) := by
  unfold HasData
  infer_instance

/-- The parts a completion lists; `none` for the other requests. -/
def Request.parts : Request → Option (List CompletePart)
  | .completeMultipartUpload parts => some parts
  | _ => none

/-- A completion starts when no other one of the upload runs, it lists some data, and it does not
fail once it has written its list. -/
def Orderly (requests : Fin n → Request) (s : UploadState n) : Label n → Prop
  | .advance i => ∀ parts ∈ (requests i).parts,
      (s.pc i = .start → ∀ j, (s.pc j).completing = false) ∧
      (s.pc i = .completeRead → ∀ current ∈ s.store.xlMeta, HasData parts current)
  | .giveUp i => (s.pc i).committing = false

instance (requests : Fin n → Request) (s : UploadState n) : DecidablePred (Orderly requests s)
  | .advance _ => inferInstanceAs (Decidable (∀ _ ∈ _, (_ → ∀ _, _) ∧ (_ → ∀ _ ∈ _, HasData _ _)))
  | .giveUp _ => inferInstanceAs (Decidable (_ = _))

/-! ### What a step can do -/

section Move

variable (canonicalizeETag : String → String) (versioned : Bool) (locks : Locks)
  (store : UploadStore)

/-- One step of a request, by the program point it is at. -/
inductive Move : Request → Pc → Pc → UploadStore → Prop
  | putStart {id md5 k a} (h : locks.rlock = true) :
      Move (.putObjectPart id md5 k a) .start .putCheck store
  | putCheck {id md5 k a} : Move (.putObjectPart id md5 k a) .putCheck .putEncode store
  | putEncode {id md5 k a} : Move (.putObjectPart id md5 k a) .putEncode .putLock store
  | putLock {id md5 k a} (h : locks.lock = true) :
      Move (.putObjectPart id md5 k a) .putLock .putCheckAgain store
  | putCheckAgain {id md5 k a} (h : store.xlMeta.isSome) :
      Move (.putObjectPart id md5 k a) .putCheckAgain .putRename store
  | putRename {id md5 k a} :
      Move (.putObjectPart id md5 k a) .putRename .putRead { store with files := id :: store.files }
  | putRead {id md5 k a parts} (h : store.xlMeta = some parts) :
      Move (.putObjectPart id md5 k a) .putRead (.putWrite parts) store
  | putWrite {id md5 k a parts} :
      Move (.putObjectPart id md5 k a) (.putWrite parts) (.returned true) { store with
            xlMeta := some (addObjectPart parts (uploadedPart id md5 k a))
            acked := Function.update store.acked id (some (uploadedPart id md5 k a)) }
  | completeStart {parts} (h : locks.rlock = true) :
      Move (.completeMultipartUpload parts) .start .completeCheck store
  | completeCheck {parts} : Move (.completeMultipartUpload parts) .completeCheck .completeRead store
  | completeRead {parts current fi} (h : store.xlMeta = some current)
      (hv : validateParts canonicalizeETag current parts {} = .ok fi) :
      Move (.completeMultipartUpload parts) .completeRead (.completeWrite fi current) store
  | completeWrite {parts fi current} :
      Move (.completeMultipartUpload parts) (.completeWrite fi current)
        (.completeRemove fi (unlistedParts current fi.parts)) { store with xlMeta := some fi.parts }
  | completeRemove {parts fi m rest} :
      Move (.completeMultipartUpload parts) (.completeRemove fi (m :: rest))
        (.completeRemove fi rest) { store with files := store.files.filter (· ≠ m) }
  | completeRemoved {parts fi} :
      Move (.completeMultipartUpload parts) (.completeRemove fi []) (.completeLock fi) store
  | completeLock {parts fi} :
      Move (.completeMultipartUpload parts) (.completeLock fi) (.completeRename fi) store
  | completeRename {parts fi} :
      Move (.completeMultipartUpload parts) (.completeRename fi)
        (.returned (store.renameData versioned fi).2) (store.renameData versioned fi).1
  | abortStart (h : locks.lock = true) : Move .abortMultipartUpload .start .abortCheck store
  | abortCheck (h : store.xlMeta.isSome) :
      Move .abortMultipartUpload .abortCheck .abortDelete store
  | abortDelete :
      Move .abortMultipartUpload .abortDelete (.returned true)
        { store with xlMeta := none, files := [] }
  | failed {request pc} (h : pc.committing = false) : Move request pc (.returned false) store

end Move

variable {canonicalizeETag : String → String} {versioned : Bool} {locks : Locks}
  {store store' : UploadStore} {requests : Fin n → Request} {s s' : UploadState n} {pc pc' : Pc}
  {request : Request} {parts : List CompletePart}

lemma move_of_putObjectPartStep {id : ℤ} {md5 : String} {k : ℕ} {a : ℤ}
    (h : putObjectPartStep locks store (uploadedPart id md5 k a) pc = some (pc', store')) :
    Move canonicalizeETag versioned locks store (.putObjectPart id md5 k a) pc pc' store' := by
  cases pc <;> simp only [putObjectPartStep, reduceCtorEq] at h
  case start =>
    obtain ⟨hlock, ⟨⟩⟩ := Option.ite_none_right_eq_some.mp h
    exact .putStart hlock
  case putCheck =>
    cases h
    split
    · exact .putCheck
    · exact .failed rfl
  case putEncode =>
    cases h
    exact .putEncode
  case putLock =>
    obtain ⟨hlock, ⟨⟩⟩ := Option.ite_none_right_eq_some.mp h
    exact .putLock hlock
  case putCheckAgain =>
    cases h
    split
    case isTrue hsome => exact .putCheckAgain hsome
    case isFalse => exact .failed rfl
  case putRename =>
    cases h
    exact .putRename
  case putRead =>
    cases hmeta : store.xlMeta with
    | none =>
      simp only [hmeta] at h
      cases h
      exact .failed rfl
    | some current =>
      simp only [hmeta] at h
      cases h
      exact .putRead hmeta
  case putWrite current =>
    cases h
    exact .putWrite

lemma move_of_completeMultipartUploadStep
    (h : completeMultipartUploadStep locks store canonicalizeETag versioned parts pc =
      some (pc', store')) :
    Move canonicalizeETag versioned locks store (.completeMultipartUpload parts) pc pc' store' := by
  cases pc <;> simp only [completeMultipartUploadStep, reduceCtorEq] at h
  case start =>
    obtain ⟨hlock, ⟨⟩⟩ := Option.ite_none_right_eq_some.mp h
    exact .completeStart hlock
  case completeCheck =>
    cases h
    split
    · exact .completeCheck
    · exact .failed rfl
  case completeRead =>
    cases hmeta : store.xlMeta with
    | none =>
      simp only [hmeta] at h
      cases h
      exact .failed rfl
    | some current =>
      simp only [hmeta] at h
      cases hv : validateParts canonicalizeETag current parts {} with
      | error err =>
        simp only [hv] at h
        cases h
        exact .failed rfl
      | ok fi =>
        simp only [hv] at h
        cases h
        exact .completeRead hmeta hv
  case completeWrite fi current =>
    cases h
    exact .completeWrite
  case completeRemove fi rest =>
    cases rest with
    | nil =>
      cases h
      exact .completeRemoved
    | cons m rest =>
      cases h
      exact .completeRemove
  case completeLock fi =>
    obtain ⟨-, ⟨⟩⟩ := Option.ite_none_right_eq_some.mp h
    exact .completeLock
  case completeRename fi =>
    cases h
    exact .completeRename

lemma move_of_abortMultipartUploadStep
    (h : abortMultipartUploadStep locks store pc = some (pc', store')) :
    Move canonicalizeETag versioned locks store .abortMultipartUpload pc pc' store' := by
  cases pc <;> simp only [abortMultipartUploadStep, reduceCtorEq] at h
  case start =>
    obtain ⟨hlock, ⟨⟩⟩ := Option.ite_none_right_eq_some.mp h
    exact .abortStart hlock
  case abortCheck =>
    cases h
    split
    case isTrue hsome => exact .abortCheck hsome
    case isFalse => exact .failed rfl
  case abortDelete =>
    cases h
    exact .abortDelete

/-- A step of any of the three programs is a move. -/
lemma move_of_uploadStep {l : Label n} (hl : Orderly requests s l)
    (h : uploadStep canonicalizeETag versioned requests s l = some s') :
    ∃ i pc', s'.pc = Function.update s.pc i pc' ∧
      Move canonicalizeETag versioned s.locks s.store (requests i) (s.pc i) pc' s'.store ∧
      (pc'.completing → Orderly requests s (.advance i)) := by
  cases l with
  | advance i =>
    obtain ⟨⟨pc', store'⟩, hnext, rfl⟩ := Option.map_eq_some_iff.mp h
    refine ⟨i, pc', rfl, ?_, fun _ => hl⟩
    cases hreq : requests i with
    | putObjectPart id md5 k a =>
      rw [hreq] at hnext
      exact move_of_putObjectPartStep hnext
    | completeMultipartUpload parts =>
      rw [hreq] at hnext
      exact move_of_completeMultipartUploadStep hnext
    | abortMultipartUpload =>
      rw [hreq] at hnext
      exact move_of_abortMultipartUploadStep hnext
  | giveUp i =>
    obtain ⟨-, hs'⟩ := Option.ite_none_right_eq_some.mp h
    obtain rfl := Option.some.inj hs'
    refine ⟨i, .returned false, rfl, .failed hl, fun hc => ?_⟩
    cases hc

/-! ### What the store has at each program point -/

section

variable (parts : List CompletePart) (fi : CompletedParts) (store : UploadStore)

/-- A completion of `parts` may commit `fi`: the upload exists and has the data of all it lists. -/
structure Ready : Prop where
  stored : store.xlMeta.isSome
  numbers : fi.parts.map ObjectPartInfo.number = parts.map CompletePart.partNumber
  files : ∀ part ∈ fi.parts, part.number ∈ store.files
  size : 0 < fi.objectSize ↔ fi.parts ≠ []

/-- The upload was completed with `parts`: the object has their data, and the upload is gone. -/
structure Committed : Prop where
  gone : store.xlMeta = none
  object : ∃ listed, store.object = some listed ∧
    listed.map ObjectPartInfo.number = parts.map CompletePart.partNumber ∧
    ∀ part ∈ listed, part.number ∈ store.objectFiles

/-- The part list of the upload has the acknowledged parts, and their files are there. -/
structure Listed (current : List ObjectPartInfo) : Prop where
  table : PartTable store.acked current
  files : ∀ part ∈ current, part.number ∈ store.files
  size : ∀ part ∈ current, 0 ≤ part.size

end

/-- What a request at a program point may count on. -/
def AtPc (store : UploadStore) : Request → Pc → Prop
  | .putObjectPart _ _ _ _, .putRename => store.xlMeta.isSome
  | .putObjectPart id _ _ _, .putRead => store.xlMeta.isSome ∧ id ∈ store.files
  | .putObjectPart id _ _ _, .putWrite current => store.xlMeta = some current ∧ id ∈ store.files
  | .completeMultipartUpload parts, .completeWrite fi _ => Ready parts fi store
  | .completeMultipartUpload parts, .completeRemove fi rest =>
    Ready parts fi store ∧ ∀ m ∈ rest, m ∉ fi.parts.map ObjectPartInfo.number
  | .completeMultipartUpload parts, .completeLock fi => Ready parts fi store
  | .completeMultipartUpload parts, .completeRename fi => Ready parts fi store
  | .completeMultipartUpload parts, .returned true => Committed parts store
  | .abortMultipartUpload, .abortDelete => store.xlMeta.isSome
  | _, _ => True

lemma AtPc.of_idle (h : AtPc store request pc) (hstored : store.xlMeta.isSome)
    (hlocked : pc.locked = false) (hcompleting : pc.completing = false) :
    AtPc store' request pc := by
  cases request <;> cases pc <;> try trivial
  case completeMultipartUpload.returned parts ok =>
    cases ok with
    | false => trivial
    | true =>
      rw [Committed.gone h] at hstored
      cases hstored

variable {current : List ObjectPartInfo}

lemma ready_of_validateParts {fi : CompletedParts}
    (hmeta : store.xlMeta = some current) (hlisted : Listed store current)
    (hdata : HasData parts current)
    (hv : validateParts canonicalizeETag current parts {} = .ok fi) : Ready parts fi store := by
  obtain ⟨picked, hmem, hnumbers, hparts, hsize⟩ := validateParts_ok hv
  rw [nil_append] at hparts
  rw [zero_add] at hsize
  have hfi : fi.parts.map number = picked.map number := by
    rw [hparts, map_map]
    rfl
  refine ⟨by rw [hmeta]; rfl, hfi.trans hnumbers, ?_, ?_⟩
  · intro part hpart
    have hnumber : part.number ∈ picked.map number := hfi ▸ mem_map_of_mem hpart
    obtain ⟨cur, hcur, heq⟩ := mem_map.mp hnumber
    rw [← heq]
    exact hlisted.files cur (hmem cur hcur)
  · have hnil : fi.parts = [] ↔ parts = [] := by
      rw [← map_eq_nil_iff (f := number), hfi, hnumbers, map_eq_nil_iff]
    rw [hsize, ne_eq, hnil]
    constructor
    · rintro hpos rfl
      rw [map_nil, map_eq_nil_iff] at hnumbers
      rw [hnumbers] at hpos
      exact lt_irrefl _ hpos
    · intro hne
      obtain ⟨part, hpart, cur, hcur, hnumber, hpos⟩ := hdata hne
      -- the listed part with data is among those that were picked, as a number occurs once
      have hpicked : part.partNumber ∈ picked.map number :=
        hnumbers ▸ mem_map_of_mem hpart
      obtain ⟨cur', hcur', heq⟩ := mem_map.mp hpicked
      obtain rfl :=
        eq_of_number hlisted.table.sorted (hmem cur' hcur') hcur (heq.trans hnumber.symm)
      refine lt_of_lt_of_le hpos (single_le_sum ?_ _ (mem_map_of_mem hcur'))
      intro size hsize
      obtain ⟨p, hp, rfl⟩ := mem_map.mp hsize
      exact hlisted.size p (hmem p hp)

lemma Ready.renameData {fi : CompletedParts} (h : Ready parts fi store) (versioned : Bool) :
    (store.renameData versioned fi).2 ∧ Committed parts (store.renameData versioned fi).1 := by
  unfold UploadStore.renameData
  by_cases hsize : 0 < fi.objectSize
  · have hne := h.size.mp hsize
    have hfiles : store.files ≠ [] := by
      obtain ⟨part, hpart⟩ := exists_mem_of_ne_nil _ hne
      exact ne_nil_of_mem (h.files part hpart)
    rw [if_pos hsize, if_neg hfiles]
    exact ⟨rfl, rfl, fi.parts, rfl, h.numbers, h.files⟩
  · have hnil : fi.parts = [] := by
      by_contra hne
      exact hsize (h.size.mpr hne)
    rw [if_neg hsize]
    refine ⟨rfl, rfl, fi.parts, rfl, h.numbers, ?_⟩
    intro part hpart
    rw [hnil] at hpart
    cases hpart

/-! ### Moves and the invariant -/

section

variable (hm : Move canonicalizeETag versioned locks store request pc pc' store')

include hm

lemma Move.locked (h : pc'.locked) : pc.locked ∨ locks.lock := by
  cases hm <;> first | exact Or.inl rfl | exact Or.inr ‹_› | cases h

lemma Move.rlocked (h : pc'.rlocked) : pc.rlocked ∨ locks.rlock := by
  cases hm <;> first | exact Or.inl rfl | exact Or.inr ‹_› | cases h

lemma Move.completing (h : pc'.completing) :
    pc.completing ∨ pc = .start ∧ ∃ parts, request = .completeMultipartUpload parts := by
  cases hm <;> first | exact Or.inl rfl | exact Or.inr ⟨rfl, _, rfl⟩ | cases h

lemma Move.store_eq_or (hat : AtPc store request pc) :
    store' = store ∨ store.xlMeta.isSome ∧ (pc.locked ∨ pc.completing) := by
  cases hm
  case putRename => exact Or.inr ⟨hat, Or.inl rfl⟩
  case putWrite =>
    refine Or.inr ⟨?_, Or.inl rfl⟩
    rw [hat.1]
    rfl
  case completeWrite => exact Or.inr ⟨Ready.stored hat, Or.inr rfl⟩
  case completeRemove => exact Or.inr ⟨hat.1.stored, Or.inr rfl⟩
  case completeRename => exact Or.inr ⟨Ready.stored hat, Or.inr rfl⟩
  case abortDelete => exact Or.inr ⟨hat, Or.inl rfl⟩
  all_goals exact Or.inl rfl

lemma Move.atPc (hat : AtPc store request pc)
    (hread : pc'.completing → ∀ parts current, request = .completeMultipartUpload parts →
      pc = .completeRead → store.xlMeta = some current →
      Listed store current ∧ HasData parts current) :
    AtPc store' request pc' := by
  cases hm
  case putCheckAgain h => exact h
  case putRename => exact ⟨hat, mem_cons_self⟩
  case putRead h => exact ⟨h, hat.2⟩
  case completeRead parts current fi hmeta hv =>
    obtain ⟨hlisted, hdata⟩ := hread rfl parts current rfl rfl hmeta
    exact ready_of_validateParts hmeta hlisted hdata hv
  case completeWrite parts fi current =>
    have hready : Ready parts fi store := hat
    refine ⟨⟨rfl, hready.numbers, hready.files, hready.size⟩, ?_⟩
    intro m hm hmem
    obtain ⟨part, hpart, rfl⟩ := mem_map.mp hmem
    have hnone := (mem_filter.mp hm).2
    rw [Option.isNone_iff_eq_none] at hnone
    exact objectPartIndex_eq_none.mp hnone part hpart rfl
  case completeRemove parts fi m rest =>
    obtain ⟨hready, hrest⟩ := hat
    refine ⟨⟨hready.stored, hready.numbers, ?_, hready.size⟩, ?_⟩
    · intro part hpart
      refine mem_filter.mpr ⟨hready.files part hpart, decide_eq_true ?_⟩
      rintro rfl
      exact hrest _ mem_cons_self (mem_map_of_mem hpart)
    · intro k hk
      exact hrest k (mem_cons_of_mem m hk)
  case completeRemoved => exact hat.1
  case completeLock => exact hat
  case completeRename parts fi =>
    obtain ⟨hok, hcommitted⟩ := Ready.renameData hat versioned
    rw [hok]
    exact hcommitted
  case abortCheck h => exact h
  case failed => cases request <;> trivial
  all_goals trivial

lemma Move.listed (hat : AtPc store request pc) (hpc' : pc'.committing = false)
    (hold : pc.committing = false → ∀ current, store.xlMeta = some current → Listed store current)
    (hmeta : store'.xlMeta = some current) :
    Listed store' current := by
  cases hm
  case putRename id md5 k a =>
    obtain ⟨htable, hfiles, hsize⟩ := hold rfl current hmeta
    exact ⟨htable, fun part hpart => mem_cons_of_mem id (hfiles part hpart), hsize⟩
  case putWrite id md5 k a parts =>
    obtain ⟨hparts, hid⟩ := hat
    obtain ⟨htable, hfiles, hsize⟩ := hold rfl parts hparts
    cases hmeta
    refine ⟨htable.addObjectPart (uploadedPart id md5 k a), fun part hpart => ?_,
      fun part hpart => ?_⟩
    · rcases htable.mem_of_mem_addObjectPart hpart with rfl | hpart
      · exact hid
      · exact hfiles part hpart
    · rcases htable.mem_of_mem_addObjectPart hpart with rfl | hpart
      · exact Int.natCast_nonneg k
      · exact hsize part hpart
  case completeRename parts fi =>
    rw [(Ready.renameData hat versioned).2.gone] at hmeta
    cases hmeta
  case abortDelete => cases hmeta
  case failed h => exact hold h current hmeta
  all_goals first | exact hold rfl current hmeta | cases hpc'

end

/-- The state between steps: every request finds what it counts on, the locks exclude each other,
one completion runs at a time, and the list is complete when no completion commits. -/
structure UploadInv (requests : Fin n → Request) (s : UploadState n) : Prop where
  at_pc : ∀ i, AtPc s.store (requests i) (s.pc i)
  locked : ∀ i j, i ≠ j → (s.pc i).locked → (s.pc j).locked = false ∧ (s.pc j).rlocked = false
  completing : ∀ i j, (s.pc i).completing → (s.pc j).completing → i = j
  listed : (∀ i, (s.pc i).committing = false) →
    ∀ current, s.store.xlMeta = some current → Listed s.store current

lemma Pc.rlocked_of_completing (h : pc.completing) : pc.rlocked := by
  cases pc <;> first | rfl | cases h

lemma Pc.completing_of_committing (h : pc.committing) : pc.completing := by
  cases pc <;> first | rfl | cases h

lemma uploadInv_init : UploadInv requests (UploadState.init n) where
  at_pc i := by cases h : requests i <;> trivial
  locked i j _ h := by cases h
  completing i j h := by cases h
  listed _ current h := by
    cases h
    refine ⟨⟨List.Pairwise.nil, fun part => ?_, fun m part hpart => ?_⟩, ?_, ?_⟩
    · exact ⟨fun hp => absurd hp not_mem_nil, fun hp => by cases hp⟩
    · cases hpart
    · intro part hpart
      cases hpart
    · intro part hpart
      cases hpart

lemma lock_free (h : s.locks.lock) (j : Fin n) :
    (s.pc j).locked = false ∧ (s.pc j).rlocked = false := of_decide_eq_true h j

lemma rlock_free (h : s.locks.rlock) (j : Fin n) : (s.pc j).locked = false :=
  of_decide_eq_true h j

lemma UploadInv.alone (hinv : UploadInv requests s) {i j : Fin n}
    (hi : (s.pc i).locked ∨ (s.pc i).completing) (hj : j ≠ i) :
    (s.pc j).locked = false ∧ (s.pc j).completing = false := by
  rcases hi with hlocked | hcompleting
  · obtain ⟨hlockedj, hrlockedj⟩ := hinv.locked i j hj.symm hlocked
    refine ⟨hlockedj, Bool.eq_false_of_not_eq_true fun hcompleting => ?_⟩
    rw [Pc.rlocked_of_completing hcompleting] at hrlockedj
    cases hrlockedj
  · refine ⟨Bool.eq_false_of_not_eq_true fun hlocked => ?_,
      Bool.eq_false_of_not_eq_true fun hcompletingj => ?_⟩
    · have hrlocked := (hinv.locked j i hj hlocked).2
      rw [Pc.rlocked_of_completing hcompleting] at hrlocked
      cases hrlocked
    · exact hj (hinv.completing j i hcompletingj hcompleting)

lemma UploadInv.listed_of_read (hinv : UploadInv requests s) {i : Fin n}
    (hread : s.pc i = .completeRead)
    (hmeta : s.store.xlMeta = some current) : Listed s.store current := by
  refine hinv.listed (fun j => Bool.eq_false_of_not_eq_true fun hcommitting => ?_) current hmeta
  have hcompleting : (s.pc i).completing := by rw [hread]; rfl
  obtain rfl := hinv.completing j i (Pc.completing_of_committing hcommitting) hcompleting
  rw [hread] at hcommitting
  cases hcommitting

section Step

variable {i : Fin n}

section

variable (hinv : UploadInv requests s)
  (hm : Move canonicalizeETag versioned s.locks s.store (requests i) (s.pc i) pc' store')

include hinv hm

lemma UploadInv.atPc_move (ho : pc'.completing → Orderly requests s (.advance i)) (j : Fin n) :
    AtPc store' (requests j) (Function.update s.pc i pc' j) := by
  by_cases hj : j = i
  · subst hj
    rw [update_self]
    refine hm.atPc (hinv.at_pc j) fun hpc' parts current hreq hread hmeta => ?_
    exact ⟨hinv.listed_of_read hread hmeta,
      (ho hpc' parts (by rw [hreq]; rfl)).2 hread current hmeta⟩
  · rw [update_of_ne hj]
    rcases hm.store_eq_or (hinv.at_pc i) with rfl | ⟨hstored, hholds⟩
    · exact hinv.at_pc j
    · obtain ⟨hlocked, hcompleting⟩ := hinv.alone hholds hj
      exact (hinv.at_pc j).of_idle hstored hlocked hcompleting

lemma UploadInv.locked_move
    (j k : Fin n) (hjk : j ≠ k) (hj : (Function.update s.pc i pc' j).locked) :
    (Function.update s.pc i pc' k).locked = false ∧
      (Function.update s.pc i pc' k).rlocked = false := by
  by_cases hji : j = i
  · subst hji
    rw [update_self] at hj
    rw [update_of_ne hjk.symm]
    rcases hm.locked hj with hold | hfree
    · exact hinv.locked j k hjk hold
    · exact lock_free hfree k
  · rw [update_of_ne hji] at hj
    by_cases hki : k = i
    · subst hki
      rw [update_self]
      obtain ⟨hlocked, hrlocked⟩ := hinv.locked j k hjk hj
      refine ⟨Bool.eq_false_of_not_eq_true fun hk => ?_, Bool.eq_false_of_not_eq_true fun hk => ?_⟩
      · rcases hm.locked hk with hold | hfree
        · exact absurd hold (Bool.eq_false_iff.mp hlocked)
        · exact absurd hj (Bool.eq_false_iff.mp (lock_free hfree j).1)
      · rcases hm.rlocked hk with hold | hfree
        · exact absurd hold (Bool.eq_false_iff.mp hrlocked)
        · exact absurd hj (Bool.eq_false_iff.mp (rlock_free hfree j))
    · rw [update_of_ne hki]
      exact hinv.locked j k hjk hj

lemma UploadInv.completing_move
    (ho : pc'.completing → Orderly requests s (.advance i)) {j : Fin n} (hji : j ≠ i)
    (hj : (s.pc j).completing) : pc'.completing = false := by
  refine Bool.eq_false_of_not_eq_true fun hpc' => ?_
  rcases hm.completing hpc' with hold | ⟨hpc, parts, hreq⟩
  · exact hji (hinv.completing j i hj hold)
  · exact absurd hj (Bool.eq_false_iff.mp ((ho hpc' parts (by rw [hreq]; rfl)).1 hpc j))

end

/-- Every orderly step keeps the invariant. -/
lemma uploadInv_step {l : Label n} (hinv : UploadInv requests s) (hl : Orderly requests s l)
    (h : uploadStep canonicalizeETag versioned requests s l = some s') :
    UploadInv requests s' := by
  obtain ⟨i, pc', hpc, hm, ho⟩ := move_of_uploadStep hl h
  constructor
  case at_pc =>
    intro j
    rw [hpc]
    exact hinv.atPc_move hm ho j
  case locked =>
    intro j k hjk hlocked
    rw [hpc] at hlocked ⊢
    exact hinv.locked_move hm j k hjk hlocked
  case completing =>
    intro j k hj hk
    rw [hpc] at hj hk
    by_contra hjk
    by_cases hji : j = i
    · have hki : k ≠ i := hji ▸ Ne.symm hjk
      rw [hji, update_self] at hj
      rw [update_of_ne hki] at hk
      exact absurd hj (Bool.eq_false_iff.mp (hinv.completing_move hm ho hki hk))
    · rw [update_of_ne hji] at hj
      by_cases hki : k = i
      · rw [hki, update_self] at hk
        exact absurd hk (Bool.eq_false_iff.mp (hinv.completing_move hm ho hji hj))
      · rw [update_of_ne hki] at hk
        exact hjk (hinv.completing j k hj hk)
  case listed =>
    intro hnone current hmeta
    rw [hpc] at hnone
    have hpc' : pc'.committing = false := by simpa using hnone i
    refine hm.listed (hinv.at_pc i) hpc' (fun hpci => hinv.listed fun j => ?_) hmeta
    by_cases hj : j = i
    · rw [hj]
      exact hpci
    · rw [← update_of_ne hj pc' s.pc]
      exact hnone j

end Step

lemma UploadInv.safe (hinv : UploadInv requests s) : UploadSafe requests s where
  completed i parts hreq hpc := by
    have hat := hinv.at_pc i
    rw [hreq, hpc] at hat
    exact Committed.object hat
  uploaded current hmeta hnone partID part hacked := by
    have htable := (hinv.listed hnone current hmeta).table
    refine (htable.mem part).mpr ?_
    rw [htable.number partID part hacked]
    exact hacked

/-- In every state that orderly steps of any requests lead to, each acknowledged completion has left
an object with the data file of each part it lists, and each acknowledged part is listed. -/
theorem uploadSafe_of_orderly (canonicalizeETag : String → String) (versioned : Bool)
    (requests : Fin n → Request) (labels : List (Label n)) (s : UploadState n)
    (hrun : run (uploadStep canonicalizeETag versioned requests) (.init n) labels = some s)
    (horderly : Along (uploadStep canonicalizeETag versioned requests) (Orderly requests) (.init n)
      labels) : UploadSafe requests s := by
  have hinv : UploadInv requests s :=
    run_invariant_along (fun s l s' hs hl hstep => uploadInv_step hs hl hstep) uploadInv_init
      horderly hrun
  exact hinv.safe

/-- The next `k` steps of one request. -/
def steps (i : Fin n) (k : ℕ) : List (Label n) := replicate k (.advance i)

/-- Two parts and a completion that lists the first. -/
def lateRequests : Fin 3 → Request :=
  ![.putObjectPart 1 "a" 3 3, .putObjectPart 2 "b" 3 3, .completeMultipartUpload [⟨1, "a"⟩]]

/-- The second part is uploaded between the steps of the completion: it waits for the write lock, and
finds no upload any more. -/
theorem uploadSafe_of_orderly_late_part :
    ∃ s, run (uploadStep id false lateRequests) (.init 3)
        (steps 0 8 ++ steps 2 2 ++ steps 1 2 ++ steps 2 3 ++ steps 1 1 ++ steps 2 2 ++ steps 1 2) =
          some s ∧
      s.pc 2 = .returned true ∧ s.pc 1 = .returned false ∧ UploadSafe lateRequests s := by
  have hrun : (run (uploadStep id false lateRequests) (.init 3)
      (steps 0 8 ++ steps 2 2 ++ steps 1 2 ++ steps 2 3 ++ steps 1 1 ++ steps 2 2 ++ steps 1 2)).map
        (fun s => (s.pc 2, s.pc 1)) = some (.returned true, .returned false) := by decide +kernel
  obtain ⟨s, hs, hpc⟩ := Option.map_eq_some_iff.mp hrun
  obtain ⟨hcomplete, hput⟩ := Prod.mk.inj hpc
  exact ⟨s, hs, hcomplete, hput, uploadSafe_of_orderly id false _ _ s hs (by decide +kernel)⟩

/-- An empty part and a completion that lists it. -/
def emptyRequests : Fin 2 → Request :=
  ![.putObjectPart 1 "a" 0 0, .completeMultipartUpload [⟨1, "a"⟩]]

lemma not_uploadSafe_of_missing (i : Fin n) (listed : List ObjectPartInfo) (files : List ℤ)
    {o : Option (UploadState n)} (hreq : requests i = .completeMultipartUpload parts)
    (ho : o.map (fun s => (s.pc i, s.store.object, s.store.objectFiles)) =
      some (.returned true, some listed, files)) {part : ObjectPartInfo} (hpart : part ∈ listed)
    (hmissing : part.number ∉ files) : ∃ s, o = some s ∧ ¬UploadSafe requests s := by
  obtain ⟨s, hs, hview⟩ := Option.map_eq_some_iff.mp ho
  obtain ⟨hpc, hobject, rfl⟩ := by simpa using hview
  refine ⟨s, hs, fun hsafe => ?_⟩
  obtain ⟨listed', hobject', -, hfiles⟩ := hsafe.completed i parts hreq hpc
  obtain rfl := Option.some.inj (hobject.symm.trans hobject')
  exact hmissing (hfiles part hpart)

/-- Parts 1 and 2 of five MiB and a part 3 of one byte, and completions of 1, 3 and of 2, 3. -/
def clashRequests : Fin 5 → Request :=
  ![.putObjectPart 1 "a" 5242880 5242880, .putObjectPart 2 "b" 5242880 5242880,
    .putObjectPart 3 "c" 1 1, .completeMultipartUpload [⟨1, "a"⟩, ⟨3, "c"⟩],
    .completeMultipartUpload [⟨2, "b"⟩, ⟨3, "c"⟩]]

/-- Each clause of `Orderly` is needed. Two completions read the list, each writes its own and
removes the part it leaves out, and the first to commit is acknowledged without its part 1. A
completion of 1, 3 that fails to lock the object leaves an upload without part 2. A completion of
one empty part is acknowledged, and the part file stays behind. -/
theorem uploadSafe_fails_without_orderly : (∃ s, run (uploadStep id false clashRequests) (.init 5)
        (steps 0 8 ++ steps 1 8 ++ steps 2 8 ++ steps 3 3 ++ steps 4 3 ++ steps 3 2 ++ steps 4 2 ++
          steps 3 3) = some s ∧ ¬UploadSafe clashRequests s) ∧
    (∃ s, run (uploadStep id false clashRequests) (.init 5)
        (steps 0 8 ++ steps 1 8 ++ steps 2 8 ++ steps 3 6 ++ [.giveUp 3]) = some s ∧
      ¬UploadSafe clashRequests s) ∧
    (∃ s, run (uploadStep id false emptyRequests) (.init 2) (steps 0 8 ++ steps 1 7) = some s ∧
      ¬UploadSafe emptyRequests s) := by
  refine ⟨?_, ?_, ?_⟩
  · exact not_uploadSafe_of_missing 3 [{ number := 1, size := 5242880, actualSize := 5242880 },
      { number := 3, size := 1, actualSize := 1 }] [3] rfl (by decide +kernel) mem_cons_self
      (by decide)
  · have hrun : (run (uploadStep id false clashRequests) (.init 5)
        (steps 0 8 ++ steps 1 8 ++ steps 2 8 ++ steps 3 6 ++ [.giveUp 3])).map
          (fun s => (s.store.xlMeta, s.store.acked 2, decide (∀ i, (s.pc i).committing = false))) =
        some (some [{ number := 1, size := 5242880, actualSize := 5242880 },
          { number := 3, size := 1, actualSize := 1 }],
          some (uploadedPart 2 "b" 5242880 5242880), true) := by decide +kernel
    obtain ⟨s, hs, hview⟩ := Option.map_eq_some_iff.mp hrun
    obtain ⟨hmeta, hacked, hnone⟩ := by simpa only [Prod.mk.injEq] using hview
    refine ⟨s, hs, fun hsafe => ?_⟩
    have hmem := hsafe.uploaded _ hmeta (of_decide_eq_true hnone) 2 _ hacked
    revert hmem
    decide
  · exact not_uploadSafe_of_missing 1 [{ number := 1 }] [] rfl (by decide +kernel) mem_cons_self
      (by decide)

end Obstor.Multipart
