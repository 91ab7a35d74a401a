import Obstor.Go.Values

/-!
# Object retention

The guards of `cmd/bucket-object-lock.go` decide whether a version that is under retention may be
changed: by PutObjectRetention, by a put that names it, by a delete, and by lifecycle or quota. What
they read is in the metadata of the version (`GetObjectRetentionMeta`,
`pkg/bucket/object/lock/lock.go`). `step` is one request against a version.
`FilterObjectLockMetadata` hides the lock of a version from those who may not see it.

* `compliance_held`: a version in compliance mode stays so along every run of careful requests, by
  `step_held` for one request. `retention_shortened` is a request that is not careful.
* `put_overwritable_iff`: which versions a put overwrites.
* `put_enforced_iff`: which puts have the default retention of the bucket, by `put_lock_cases`.
* `filterObjectLockMetadata_hides_iff`: when the lock is hidden.
-/

namespace Obstor.Lock

open Go

/-! ### The metadata -/

/-- `RetMode`, `none` for the empty one, as `parseRetMode` reads its text. -/
inductive RetMode
  | none
  | governance
  | compliance
  deriving DecidableEq

def RetMode.valid (m : RetMode) : Bool := m ≠ .none

inductive LegalHoldStatus
  | none
  | on
  | off
  deriving DecidableEq

/-- An entry of the metadata, under the lower-case key and under the canonical one. -/
structure Entry (α : Type) where
  lower : Option α := none
  canonical : Option α := none

/-- The entry under the lower-case key comes first. -/
def Entry.get (e : Entry α) : Option α := e.lower.or e.canonical

/-- The entries of `UserDefined` for the lock. The text of a date is what `time.Parse` makes of it,
`none` when it is not in the format. -/
structure UserDefined where
  mode : Entry RetMode := {}
  retainUntilDate : Entry (Option Time) := {}
  legalHold : Entry LegalHoldStatus := {}

structure ObjectRetention where
  mode : RetMode
  retainUntilDate : Time

def getObjectRetentionMeta (m : UserDefined) : ObjectRetention :=
  match m.mode.get with
  | none => ⟨.none, .zero⟩
  | some mode => ⟨mode, (m.retainUntilDate.get.bind id).getD .zero⟩

def getObjectLegalHoldMeta (m : UserDefined) : LegalHoldStatus := m.legalHold.get.getD .none

/-- `UTC().Format(time.RFC3339)`, as it is parsed again: to the second, for the years 0 to 9999. -/
def formatRFC3339 (t : Time) : Option Time :=
  if -62167219200 * 10 ^ 9 ≤ t.nanos ∧ t.nanos < 253402300800 * 10 ^ 9 then
    some ⟨t.nanos / 10 ^ 9 * 10 ^ 9⟩
  else none

/-! ### The guards -/

inductive APIErrorCode
  | errNone
  | objectLocked
  | accessDenied
  | invalidBucketObjectLockConfiguration
  | other (code : ℕ)
  deriving DecidableEq

/-- The errors of `GetObjectInfo`; that of a delete marker says whether it is one. -/
inductive InfoErr
  | notFound
  | methodNotAllowed (deleteMarker : Bool)
  | other (code : ℕ)

/-- `enforceRetentionForDeletion`; `now` is `UTCNowNTP`, which may fail. -/
def enforceRetentionForDeletion (now : Option Time) (m : UserDefined) : Bool :=
  if getObjectLegalHoldMeta m = .on then true
  else
    let ret := getObjectRetentionMeta m
    if ret.mode.valid then
      match now with
      | none => true
      | some t => ret.retainUntilDate.after t
    else false

/-- What a request brings besides: the error of `getOpts`, the clock, the header for the bypass and
what its permissions allow. -/
structure Caller where
  opts : Option ℕ
  now : Option Time
  byPassSet : Bool
  bypassPerm : APIErrorCode
  lockConfigPerm : APIErrorCode
  /-- `isPutRetentionAllowed`, with and without the bypass. -/
  retentionPerm : Bool → APIErrorCode

def enforceRetentionBypassForDelete (c : Caller) (info : Except InfoErr UserDefined) :
    APIErrorCode :=
  match c.opts, info with
  | some code, _ => .other code
  | none, .error (.methodNotAllowed true) => .errNone
  | none, .error (.methodNotAllowed false) => .other 405
  | none, .error .notFound => .errNone
  | none, .error (.other code) => .other code
  | none, .ok m =>
    if getObjectLegalHoldMeta m = .on then .objectLocked
    else
      let ret := getObjectRetentionMeta m
      let expired : APIErrorCode := match c.now with
        | none => .objectLocked
        | some t => if t.after ret.retainUntilDate then .errNone else .objectLocked
      match ret.mode with
      | .none => .errNone
      | .compliance => expired
      | .governance =>
        if !c.byPassSet then expired
        else if c.bypassPerm ≠ .errNone ∨ c.lockConfigPerm ≠ .errNone then .accessDenied
        else .errNone

def toAPIErrorCode : InfoErr → APIErrorCode
  | .notFound => .other 404
  | .methodNotAllowed _ => .other 405
  | .other code => .other code

def enforceRetentionBypassForPut (c : Caller) (info : Except InfoErr UserDefined)
    (objRetention : ObjectRetention) : APIErrorCode :=
  match c.opts, info, c.now with
  | some code, _, _ => .other code
  | none, .error err, _ => toAPIErrorCode err
  | none, .ok _, none => .objectLocked
  | none, .ok m, some t =>
    let ret := getObjectRetentionMeta m
    if ret.mode.valid then
      if t.after ret.retainUntilDate then c.retentionPerm c.byPassSet
      else
        let shortened := ret.retainUntilDate.after objRetention.retainUntilDate
        match ret.mode with
        | .governance =>
          if !c.byPassSet ∧ (objRetention.mode ≠ .governance ∨ shortened) then .objectLocked
          else c.retentionPerm c.byPassSet
        | .compliance =>
          if objRetention.mode ≠ .compliance ∨ shortened then .objectLocked
          else c.retentionPerm false
        | .none => .errNone
    else c.retentionPerm c.byPassSet

/-- The rest of a put request for `checkPutObjectLockAllowed`: the configuration of the bucket, the
headers for the lock as they are parsed, `none` where there are none, and the permissions. -/
structure PutRequest where
  lockConfig : Option ℕ := none
  lockEnabled : Bool := true
  /-- The default retention. -/
  mode : RetMode := .none
  validity : ℤ := 0
  retention : Option (Except ℕ ObjectRetention) := none
  legalHold : Option (Except ℕ LegalHoldStatus) := none
  retentionPermErr : APIErrorCode := .errNone
  legalHoldPermErr : APIErrorCode := .errNone

/-- What `checkPutObjectLockAllowed` returns. -/
structure PutLock where
  mode : RetMode := .none
  retainDate : Time := .zero
  legalHold : LegalHoldStatus := .none
  code : APIErrorCode := .errNone

/-- The lock of the version that a put names, and whether it may be overwritten. -/
def keptLock (now : Option Time) : Except InfoErr UserDefined → PutLock
  | .error _ => {}
  | .ok m =>
    let r := getObjectRetentionMeta m
    match now with
    | none => { code := .objectLocked }
    | some t =>
      if r.mode = .compliance ∧ r.retainUntilDate.after t then { code := .objectLocked }
      else
        let legalHold := getObjectLegalHoldMeta m
        ⟨r.mode, r.retainUntilDate, legalHold,
          if legalHold = .on then .objectLocked else .errNone⟩

/-- `checkPutObjectLockAllowed` for a request that is not of the replication. One that names no
version is one for a version that is not found. `legalHoldPermErr` is not read. -/
def checkPutObjectLockAllowed (c : Caller) (r : PutRequest) (info : Except InfoErr UserDefined) :
    PutLock :=
  if r.lockConfig.isSome then { code := .invalidBucketObjectLockConfiguration }
  else if !r.lockEnabled then
    if r.legalHold.isSome || r.retention.isSome then
      { code := .invalidBucketObjectLockConfiguration }
    else {}
  else match c.opts with
    | some code => { code := .other code }
    | none =>
      let kept := keptLock c.now info
      if kept.code ≠ .errNone then kept
      else match r.legalHold, r.retention with
        -- the code is that of `err`, which is nil here
        | some (.error _), _ => { kept with legalHold := .none }
        | hold, some retention =>
          let kept := { kept with legalHold := (hold.bind Except.toOption).getD .none }
          match retention with
          | .error code => { kept with code := .other code }
          | .ok ret =>
            if r.retentionPermErr ≠ .errNone then { kept with code := r.retentionPermErr }
            else { kept with mode := ret.mode, retainDate := ret.retainUntilDate }
        | hold, none =>
          let kept := { kept with legalHold := (hold.bind Except.toOption).getD kept.legalHold }
          if r.validity > 0 then
            if r.retentionPermErr ≠ .errNone then { kept with code := r.retentionPermErr }
            else match c.now with
              | none => { kept with code := .objectLocked }
              | some t =>
                if hold.isNone then
                  { kept with mode := r.mode, retainDate := ⟨t.nanos + r.validity⟩ }
                else { kept with mode := .none, retainDate := .zero }
          else kept

/-! ### Requests against a version -/

/-- The requests that may change a version. `info` is what `GetObjectInfo` gives for it: its
metadata, or an error. -/
inductive Request
  | putObjectRetention (c : Caller) (info : Option ℕ) (ret : ObjectRetention)
  | put (c : Caller) (info : Option ℕ) (r : PutRequest)
  | delete (c : Caller) (info : Option ℕ)
  | expire (now : Option Time)

/-- `GetObjectInfo` for a version that is there: it may fail, but does not miss it. -/
def infoOf (m : UserDefined) : Option ℕ → Except InfoErr UserDefined
  | none => .ok m
  | some code => .error (.other code)

/-- The metadata that `PutObjectRetentionHandler` writes. -/
def withRetention (m : UserDefined) (ret : ObjectRetention) : UserDefined :=
  { m with
    mode := { m.mode with lower := some ret.mode }
    retainUntilDate := { m.retainUntilDate with
      lower := some (if ret.mode.valid then formatRFC3339 ret.retainUntilDate else none) } }

/-- The version after a request, `none` when it is deleted or overwritten. -/
def step : Option UserDefined → Request → Option UserDefined
  | none, _ => none
  | some m, .putObjectRetention c info ret =>
    if enforceRetentionBypassForPut c (infoOf m info) ret = .errNone then some (withRetention m ret)
    else some m
  | some m, .put c info r =>
    if (checkPutObjectLockAllowed c r (infoOf m info)).code = .errNone then none else some m
  | some m, .delete c info =>
    if enforceRetentionBypassForDelete c (infoOf m info) = .errNone then none else some m
  | some m, .expire now => if enforceRetentionForDeletion now m then some m else none

/-- The clock that the request reads. -/
def Request.now : Request → Option Time
  | .putObjectRetention c _ _ => c.now
  | .put c _ _ => c.now
  | .delete c _ => c.now
  | .expire now => now

/-- A PutObjectRetention that is allowed names a date in the years that can be written, in whole
seconds or a second after that of the version; a put finds the lock of the bucket enabled and can
read the version. -/
def Request.Careful (m : UserDefined) : Request → Prop
  | .putObjectRetention c info ret =>
    enforceRetentionBypassForPut c (infoOf m info) ret = .errNone →
      (formatRFC3339 ret.retainUntilDate).isSome ∧ (ret.retainUntilDate.nanos % 10 ^ 9 = 0 ∨
        (getObjectRetentionMeta m).retainUntilDate.nanos + 10 ^ 9 ≤ ret.retainUntilDate.nanos)
  | .put _ info r => r.lockEnabled = true ∧ info = none
  | _ => True

/-- The version is under compliance retention until `T`. -/
def HeldUntil (T : Time) (m : UserDefined) : Prop := getObjectRetentionMeta m = ⟨.compliance, T⟩

variable {T d : Time} {m : UserDefined}

lemma withRetention_held {t : Time} (hyears : (formatRFC3339 t).isSome) :
    HeldUntil ⟨t.nanos / 10 ^ 9 * 10 ^ 9⟩ (withRetention m ⟨.compliance, t⟩) := by
  have hformat : formatRFC3339 t = some ⟨t.nanos / 10 ^ 9 * 10 ^ 9⟩ := by
    unfold formatRFC3339 at hyears ⊢
    split_ifs at hyears ⊢
    · rfl
    · cases hyears
  simp [HeldUntil, getObjectRetentionMeta, withRetention, Entry.get, RetMode.valid, hformat]

lemma compliance_of_put (hheld : HeldUntil d m) {c : Caller} {info : Option ℕ}
    {ret : ObjectRetention} (hnow : ∀ t, c.now = some t → t.nanos < d.nanos)
    (h : enforceRetentionBypassForPut c (infoOf m info) ret = .errNone) :
    ret.mode = .compliance ∧ d.nanos ≤ ret.retainUntilDate.nanos := by
  unfold enforceRetentionBypassForPut at h
  rcases hopts : c.opts with _ | code
  · rcases info with _ | code
    · rcases ht : c.now with _ | t
      · simp [hopts, ht, infoOf] at h
      · have hlt : ¬ d.nanos < t.nanos := (hnow t ht).not_gt
        simp only [hopts, ht, infoOf, show getObjectRetentionMeta m = _ from hheld, Time.after,
          RetMode.valid] at h
        by_cases hbad : ret.mode ≠ .compliance ∨ ret.retainUntilDate.nanos < d.nanos
        · simp [hlt, hbad] at h
        · rw [not_or, not_not, not_lt] at hbad
          exact hbad
    · simp [hopts, infoOf, toAPIErrorCode] at h
  · simp [hopts] at h

/-- A version that may not be overwritten is not. -/
lemma put_code_of_kept {c : Caller} {r : PutRequest} {info : Except InfoErr UserDefined}
    (henabled : r.lockEnabled) (hkept : (keptLock c.now info).code ≠ .errNone) :
    (checkPutObjectLockAllowed c r info).code ≠ .errNone := by
  unfold checkPutObjectLockAllowed
  cases r.lockConfig <;> cases c.opts <;> simp [henabled, hkept]

/-- One careful request keeps the compliance mode, and the date or a later one. -/
lemma step_held (hheld : HeldUntil d m) {r : Request}
    (hnow : ∀ t, r.now = some t → t.nanos < d.nanos) (hcareful : r.Careful m) :
    ∃ m' d', step (some m) r = some m' ∧ HeldUntil d' m' ∧ d.nanos ≤ d'.nanos := by
  have hsame : ∃ m' d', some m = some m' ∧ HeldUntil d' m' ∧ d.nanos ≤ d'.nanos :=
    ⟨m, d, rfl, hheld, le_refl _⟩
  have hret : getObjectRetentionMeta m = ⟨.compliance, d⟩ := hheld
  cases r with
  | putObjectRetention c info ret =>
    rw [step]
    split_ifs with h
    · obtain ⟨hmode, hle⟩ := compliance_of_put hheld hnow h
      obtain ⟨mode, t⟩ := ret
      obtain rfl : mode = .compliance := hmode
      obtain ⟨hyears, hdate⟩ := hcareful h
      rw [hret] at hdate
      refine ⟨_, _, rfl, withRetention_held hyears, ?_⟩
      change d.nanos ≤ t.nanos / 10 ^ 9 * 10 ^ 9
      change d.nanos ≤ t.nanos at hle
      change t.nanos % 10 ^ 9 = 0 ∨ d.nanos + 10 ^ 9 ≤ t.nanos at hdate
      omega
    · exact hsame
  | put c info r =>
    obtain ⟨henabled, rfl⟩ := hcareful
    rw [step, if_neg]
    · exact hsame
    · refine put_code_of_kept henabled ?_
      rcases ht : c.now with _ | t
      · simp [keptLock, infoOf]
      · have hlt := hnow t ht
        simp [keptLock, infoOf, hret, Time.after, hlt]
  | delete c info =>
    rw [step, if_neg]
    · exact hsame
    · unfold enforceRetentionBypassForDelete
      rcases ht : c.now with _ | t
      · cases c.opts <;> cases info <;> simp [infoOf, hret]
      · have hlt : ¬ d.nanos < t.nanos := (hnow t ht).not_gt
        cases c.opts <;> cases info <;> simp [infoOf, hret, Time.after, hlt]
  | expire now =>
    rw [step, if_pos]
    · exact hsame
    · unfold enforceRetentionForDeletion
      rcases ht : now with _ | t
      · simp [hret, RetMode.valid]
      · have hlt := hnow t ht
        simp [hret, RetMode.valid, Time.after, hlt]

lemma foldl_held {rs : List Request} (hheld : HeldUntil d m) (hle : T.nanos ≤ d.nanos)
    (hnow : ∀ r ∈ rs, ∀ t, r.now = some t → t.nanos < T.nanos)
    (hcareful : ∀ pre r post, rs = pre ++ r :: post → ∀ m₁, pre.foldl step (some m) = some m₁ →
      r.Careful m₁) :
    ∃ m' d', rs.foldl step (some m) = some m' ∧ HeldUntil d' m' ∧ T.nanos ≤ d'.nanos := by
  induction rs generalizing m d with
  | nil => exact ⟨m, d, rfl, hheld, hle⟩
  | cons r rs ih =>
    obtain ⟨hr, hrs⟩ := List.forall_mem_cons.mp hnow
    obtain ⟨m', d', hstep, hheld', hle'⟩ := step_held hheld (fun t ht => (hr t ht).trans_le hle)
      (hcareful [] r rs rfl m rfl)
    rw [List.foldl_cons, hstep]
    refine ih hheld' (hle.trans hle') hrs fun pre x post heq m₁ hrun => ?_
    refine hcareful (r :: pre) x post (by rw [heq]; rfl) m₁ ?_
    rw [List.foldl_cons, hstep, hrun]

/-- Along every run of careful requests before `T` the version stays, in compliance mode, and no
request lowers its date. -/
theorem compliance_held (T : Time) (m : UserDefined) (hheld : HeldUntil T m) (rs : List Request)
    (hnow : ∀ r ∈ rs, ∀ t, r.now = some t → t.nanos < T.nanos)
    (hcareful : ∀ pre r post, rs = pre ++ r :: post → ∀ m₁, pre.foldl step (some m) = some m₁ →
      r.Careful m₁) :
    ∀ pre r post, rs = pre ++ r :: post → ∃ m₁ d₁ m₂ d₂,
      pre.foldl step (some m) = some m₁ ∧ HeldUntil d₁ m₁ ∧ T.nanos ≤ d₁.nanos ∧
      step (some m₁) r = some m₂ ∧ HeldUntil d₂ m₂ ∧ d₁.nanos ≤ d₂.nanos := by
  rintro pre r post rfl
  obtain ⟨m₁, d₁, hrun, hheld₁, hle⟩ := foldl_held hheld (le_refl _)
    (fun x hx => hnow x (List.mem_append_left _ hx))
    fun pre' x post' heq => hcareful pre' x (post' ++ r :: post) (by rw [heq]; simp)
  have hr : r ∈ pre ++ r :: post := List.mem_append_right _ List.mem_cons_self
  obtain ⟨m₂, d₂, hstep⟩ := step_held hheld₁ (fun t ht => (hnow r hr t ht).trans_le hle)
    (hcareful pre r post rfl m₁ hrun)
  exact ⟨m₁, d₁, m₂, d₂, hrun, hheld₁, hle, hstep⟩

/-- A caller with all permissions. -/
def root (now : Time) : Caller := ⟨none, some now, true, .errNone, .errNone, fun _ => .errNone⟩

def heldVersion : UserDefined where
  mode := { lower := some .compliance }
  retainUntilDate := { lower := some (some (.unix 10500000000)) }

/-- The date is extended, and then a put and a delete are refused. -/
def heldRequests : List Request :=
  [.putObjectRetention (root (.unix 0)) none ⟨.compliance, .unix 12500000000⟩,
    .put (root (.unix 1)) none {}, .delete (root (.unix 2)) none]

/-- The date that was extended is kept when the put and the delete are refused. -/
theorem compliance_held_extended : HeldUntil (.unix 10500000000) heldVersion ∧
    ∃ m₁ d₁ m₂ d₂, (heldRequests.take 2).foldl step (some heldVersion) = some m₁ ∧
      HeldUntil d₁ m₁ ∧ step (some m₁) (.delete (root (.unix 2)) none) = some m₂ ∧
      HeldUntil d₂ m₂ ∧ d₁.nanos ≤ d₂.nanos := by
  have hcareful : ∀ pre r post, heldRequests = pre ++ r :: post → ∀ m₁,
      pre.foldl step (some heldVersion) = some m₁ → r.Careful m₁ := by
    rintro (_ | ⟨r₁, _ | ⟨r₂, _ | ⟨r₃, _⟩⟩⟩) r post heq m₁ hrun
    · cases heq
      cases hrun
      exact fun _ => ⟨rfl, .inr (by decide)⟩
    · cases heq
      exact ⟨rfl, rfl⟩
    · cases heq
      trivial
    · simp [heldRequests] at heq
  obtain ⟨m₁, d₁, m₂, d₂, hrun, hheld, -, hstep⟩ :=
    compliance_held (.unix 10500000000) heldVersion rfl heldRequests
      (by simp [heldRequests, Request.now, root, Time.unix]) hcareful (heldRequests.take 2) _ [] rfl
  exact ⟨rfl, m₁, d₁, m₂, d₂, hrun, hheld, hstep⟩

/-- The same date once more is stored to the second, so the retention ends half a second earlier. -/
theorem retention_shortened : HeldUntil (.unix 10500000000) heldVersion ∧ ∃ m',
      step (some heldVersion) (.putObjectRetention (root (.unix 0)) none
        ⟨.compliance, .unix 10500000000⟩) = some m' ∧ HeldUntil (.unix 10000000000) m' :=
  ⟨rfl, _, rfl, rfl⟩

/-! ### Overwriting a version -/

/-- The version is not under legal hold, and its retention is over. -/
def Overwritable (t : Time) (m : UserDefined) : Prop :=
  getObjectLegalHoldMeta m ≠ .on ∧ ((getObjectRetentionMeta m).mode.valid →
    ¬ (getObjectRetentionMeta m).retainUntilDate.after t)

/-- The guard of a put looks at the date of a version in compliance mode only. -/
lemma put_locked {t : Time} {c : Caller} {r : PutRequest} (henabled : r.lockEnabled)
    (hnow : c.now = none ∨ c.now = some t)
    (h : (checkPutObjectLockAllowed c r (.ok m)).code = .errNone) :
    getObjectLegalHoldMeta m ≠ .on ∧ ((getObjectRetentionMeta m).mode = .compliance →
      ¬ (getObjectRetentionMeta m).retainUntilDate.after t) := by
  have hkept := not_not.mp fun hkept => put_code_of_kept henabled hkept h
  rcases hnow with hnow | hnow
  · simp [keptLock, hnow] at hkept
  constructor
  · intro hhold
    simp [keptLock, hnow, hhold] at hkept
    split_ifs at hkept
  · intro hmode hafter
    simp [keptLock, hnow, hmode, hafter] at hkept

/-- Every put that is allowed finds the version free, if and only if it is, or can be read and is
not in governance mode before its date. -/
theorem put_overwritable_iff (t : Time) (m : UserDefined) (info : Option ℕ) :
    (∀ (c : Caller) (r : PutRequest), r.lockEnabled → c.now = none ∨ c.now = some t →
      (checkPutObjectLockAllowed c r (infoOf m info)).code = .errNone → Overwritable t m) ↔
    Overwritable t m ∨ info = none ∧ ((getObjectRetentionMeta m).mode = .governance →
      (getObjectRetentionMeta m).retainUntilDate.after t → getObjectLegalHoldMeta m = .on) := by
  constructor
  · intro h
    cases info with
    | some code => exact .inl (h (root t) {} rfl (.inr rfl) rfl)
    | none =>
      refine .inr ⟨rfl, fun hmode hafter => ?_⟩
      by_contra hhold
      refine (h (root t) {} rfl (.inr rfl) ?_).2 ?_ hafter
      · simp [checkPutObjectLockAllowed, keptLock, infoOf, root, hmode, hhold]
      · simp [hmode, RetMode.valid]
  · rintro (hfree | ⟨rfl, h⟩) c r henabled hnow hok
    · exact hfree
    obtain ⟨hhold, hcompliance⟩ := put_locked henabled hnow hok
    refine ⟨hhold, fun hvalid hafter => ?_⟩
    cases hmode : (getObjectRetentionMeta m).mode with
    | none => simp [hmode, RetMode.valid] at hvalid
    | governance => exact hhold (h hmode hafter)
    | compliance => exact hcompliance hmode hafter

/-- A version in governance mode is overwritten before its date, by a put that names it. -/
theorem governance_overwritten :
    let m : UserDefined := { mode := { lower := some .governance }
                             retainUntilDate := { lower := some (some (.unix 1)) } }
    (checkPutObjectLockAllowed (root (.unix 0)) {} (infoOf m none)).code = .errNone ∧
      ¬ Overwritable (.unix 0) m :=
  ⟨rfl, fun h => h.2 rfl rfl⟩

/-! ### The retention of a new version -/

/-- The bucket has a default retention. -/
structure PutRequest.HasDefault (r : PutRequest) : Prop where
  lockConfig : r.lockConfig = none
  lockEnabled : r.lockEnabled = true
  mode : r.mode.valid = true
  validity : 0 < r.validity

/-- The new version has the retention of the headers or the default, and whoever sets a lock may. -/
structure Enforced (now : Option Time) (r : PutRequest) (lock : PutLock) : Prop where
  retention : r.retention = some (.ok ⟨lock.mode, lock.retainDate⟩) ∨
    ∃ t, now = some t ∧ lock.mode = r.mode ∧ lock.retainDate = ⟨t.nanos + r.validity⟩
  retentionPerm : r.retentionPermErr = .errNone
  legalHold : r.legalHold = none ∨
    (∃ hold, r.legalHold = some (.ok hold)) ∧ r.legalHoldPermErr = .errNone

/-- The retention of a put that is allowed, unless the header for the legal hold is invalid: that of
the headers, the default, or none if there is a header for the hold only. -/
lemma put_lock_cases {c : Caller} {r : PutRequest} {info : Except InfoErr UserDefined}
    (hdefault : r.HasDefault) (hcode : (checkPutObjectLockAllowed c r info).code = .errNone)
    (hhold : ∀ code, r.legalHold ≠ some (.error code)) :
    let lock := checkPutObjectLockAllowed c r info
    r.retentionPermErr = .errNone ∧
      (r.retention = some (.ok ⟨lock.mode, lock.retainDate⟩) ∨ r.retention = none ∧
        if r.legalHold = none then
          ∃ t, c.now = some t ∧ lock.mode = r.mode ∧ lock.retainDate = ⟨t.nanos + r.validity⟩
        else lock.mode = .none) := by
  obtain ⟨hconfig, henabled, -, hpos⟩ := hdefault
  have hkept := not_not.mp fun hkept => put_code_of_kept henabled hkept hcode
  unfold checkPutObjectLockAllowed at hcode ⊢
  cases hopts : c.opts with
  | some code => simp [hopts, hconfig, henabled] at hcode
  | none =>
    simp only [hopts, hconfig, henabled, hkept, hpos, Option.isSome_none, Bool.not_true,
      Bool.false_eq_true, ne_eq, not_true, if_true, if_false] at hcode ⊢
    rcases hl : r.legalHold with _ | (code | hold)
    case some.error => exact absurd hl (hhold code)
    all_goals
      rcases hret : r.retention with _ | (code | ret)
      case some.error => simp [hl, hret] at hcode
      all_goals
        by_cases hperm : r.retentionPermErr = .errNone
        case neg => simp [hl, hret, hperm] at hcode
        cases hnow : c.now <;> simp [hl, hret, hperm, hnow] at hcode ⊢

/-- A put that is allowed respects the default exactly if it has no header for a legal hold, or a
valid one by a caller who may set it, together with those for the retention. -/
theorem put_enforced_iff (c : Caller) (r : PutRequest) (info : Except InfoErr UserDefined)
    (hdefault : r.HasDefault) (hcode : (checkPutObjectLockAllowed c r info).code = .errNone) :
    Enforced c.now r (checkPutObjectLockAllowed c r info) ↔
      r.legalHold = none ∨ (∃ hold, r.legalHold = some (.ok hold)) ∧
        r.legalHoldPermErr = .errNone ∧ r.retention.isSome := by
  constructor
  · rintro ⟨hret, -, hnone | ⟨⟨hold, hhold⟩, hperm⟩⟩
    · exact .inl hnone
    refine .inr ⟨⟨hold, hhold⟩, hperm, ?_⟩
    obtain ⟨-, hsome | ⟨hnone, hmode⟩⟩ := put_lock_cases hdefault hcode (by simp [hhold])
    · simp [hsome]
    -- the header for the hold alone makes the version one without retention
    · rw [if_neg (by simp [hhold])] at hmode
      rcases hret with hsome | ⟨t, -, hdefaultMode, -⟩
      · simp [hnone] at hsome
      · have hvalid := hdefault.mode
        rw [← hdefaultMode, hmode] at hvalid
        cases hvalid
  · intro hheaders
    have hvalid : ∀ code, r.legalHold ≠ some (.error code) := by
      intro code herr
      simp [herr] at hheaders
    obtain ⟨hperm, hret⟩ := put_lock_cases hdefault hcode hvalid
    refine ⟨hret.imp_right fun ⟨hnone, hnew⟩ => ?_, hperm,
      hheaders.imp_right fun h => ⟨h.1, h.2.1⟩⟩
    rcases hheaders with hhold | ⟨-, -, hsome⟩
    · rwa [if_pos hhold] at hnew
    · simp [hnone] at hsome

/-- A put with valid headers for the retention and the legal hold. -/
theorem put_enforced_iff_headers :
    let r : PutRequest := { mode := .governance, validity := 1, legalHold := some (.ok .on)
                            retention := some (.ok ⟨.compliance, .unix 5⟩) }
    (checkPutObjectLockAllowed (root (.unix 0)) r (.error .notFound)).code = .errNone ∧
      Enforced (some (.unix 0)) r
        (checkPutObjectLockAllowed (root (.unix 0)) r (.error .notFound)) :=
  ⟨rfl, (put_enforced_iff (root (.unix 0)) _ (.error .notFound) ⟨rfl, rfl, rfl, Int.one_pos⟩
    rfl).mpr (.inr ⟨⟨.on, rfl⟩, rfl, rfl⟩)⟩

/-- A header for a legal hold alone drops the default retention. -/
theorem legalHold_drops_default :
    let r : PutRequest := { mode := .compliance, validity := 1, legalHold := some (.ok .off) }
    let lock := checkPutObjectLockAllowed (root (.unix 0)) r (.error .notFound)
    r.HasDefault ∧ lock.code = .errNone ∧ lock.mode = .none ∧
      ¬ Enforced (some (.unix 0)) r lock := by
  refine ⟨⟨rfl, rfl, rfl, Int.one_pos⟩, rfl, rfl, fun h => ?_⟩
  rcases h.retention with hsome | ⟨t, -, hmode, -⟩
  · cases hsome
  · cases hmode

/-! ### Hiding the lock -/

abbrev Metadata := String → Option String

/-- `parseRetMode`, `time.Parse` and `parseLegalHoldStatus`. -/
structure Parsers where
  retMode : String → RetMode
  date : String → Option Time
  legalHold : String → LegalHoldStatus

/-- The entries of a metadata map for the lock. -/
def Parsers.userDefined (p : Parsers) (m : Metadata) : UserDefined where
  mode := ⟨(m "x-amz-object-lock-mode").map p.retMode, (m "X-Amz-Object-Lock-Mode").map p.retMode⟩
  retainUntilDate := ⟨(m "x-amz-object-lock-retain-until-date").map p.date,
    (m "X-Amz-Object-Lock-Retain-Until-Date").map p.date⟩
  legalHold := ⟨(m "x-amz-object-lock-legal-hold").map p.legalHold,
    (m "X-Amz-Object-Lock-Legal-Hold").map p.legalHold⟩

/-- The map `metadata`, and the copy of it that `dst` is; `none` as long as `dst` is `metadata`. -/
structure Maps where
  metadata : Metadata
  copy : Option Metadata := none

namespace Maps

def dst (s : Maps) : Metadata := s.copy.getD s.metadata

/-- `delete(dst, key)`. -/
def delete (s : Maps) (key : String) : Maps :=
  match s.copy with
  | none => { s with metadata := Function.update s.metadata key none }
  | some dst => { s with copy := some (Function.update dst key none) }

def delKey (s : Maps) (key : String) : Maps :=
  if s.metadata key = none then s else delete { s with copy := some s.dst } key

/-- The map is as it was, and `dst` is without the keys that are deleted. -/
def Keeps (s : Maps) (m : Metadata) (deleted : List String) : Prop :=
  s.metadata = m ∧ ∀ k, s.dst k = if k ∈ deleted then none else m k

lemma Keeps.delKey {s : Maps} {m : Metadata} {deleted : List String} (h : s.Keeps m deleted)
    (key : String) : (s.delKey key).Keeps m (key :: deleted) := by
  obtain ⟨rfl, hdst⟩ := h
  unfold Maps.delKey
  split_ifs with hkey
  · refine ⟨rfl, fun k => (hdst k).trans ?_⟩
    by_cases hk : k = key <;> simp [hk, hkey]
  · refine ⟨rfl, fun k => ?_⟩
    show Function.update s.dst key none k = _
    by_cases hk : k = key <;> simp [hk, hdst]

end Maps

/-- The keys of the lock, in both spellings. -/
def lockKeys : List String := ["x-amz-object-lock-mode", "X-Amz-Object-Lock-Mode",
  "x-amz-object-lock-retain-until-date", "X-Amz-Object-Lock-Retain-Until-Date",
  "x-amz-object-lock-legal-hold", "X-Amz-Object-Lock-Legal-Hold"]

section
variable (p : Parsers) (m : Metadata) (filterRetention filterLegalHold : Bool)

/-- The retention is to be hidden: its mode is not valid, or the caller asks for it. -/
def retentionFiltered : Bool :=
  !(getObjectRetentionMeta (p.userDefined m)).mode.valid || filterRetention

def legalHoldFiltered : Bool :=
  getObjectLegalHoldMeta (p.userDefined m) = .none || filterLegalHold

def filterObjectLockMetadata : Maps :=
  let s : Maps := ⟨m, none⟩
  let s := if legalHoldFiltered p m filterLegalHold then s.delKey "X-Amz-Object-Lock-Legal-Hold"
    else s
  if retentionFiltered p m filterRetention then
    (s.delKey "X-Amz-Object-Lock-Mode").delKey "X-Amz-Object-Lock-Retain-Until-Date"
  else s

/-- What is to be hidden is, the map is as before, and nothing but the lock is hidden. -/
structure Hides (s : Maps) : Prop where
  unchanged : s.metadata = m
  retention : retentionFiltered p m filterRetention →
    getObjectRetentionMeta (p.userDefined s.dst) = ⟨.none, .zero⟩
  legalHold : legalHoldFiltered p m filterLegalHold →
    getObjectLegalHoldMeta (p.userDefined s.dst) = .none
  others : ∀ k ∉ lockKeys, s.dst k = m k

lemma filterObjectLockMetadata_keeps :
    (filterObjectLockMetadata p m filterRetention filterLegalHold).Keeps m
      ((if retentionFiltered p m filterRetention then
          ["X-Amz-Object-Lock-Retain-Until-Date", "X-Amz-Object-Lock-Mode"] else []) ++
        if legalHoldFiltered p m filterLegalHold then ["X-Amz-Object-Lock-Legal-Hold"] else []) := by
  have hstart : (⟨m, none⟩ : Maps).Keeps m [] := ⟨rfl, fun _ => rfl⟩
  simp only [filterObjectLockMetadata]
  split_ifs
  · exact ((hstart.delKey _).delKey _).delKey _
  · exact (hstart.delKey _).delKey _
  · exact hstart.delKey _
  · exact hstart

/-- The lock is hidden exactly if what is to be hidden is not under the lower-case keys. -/
theorem filterObjectLockMetadata_hides_iff : Hides p m filterRetention filterLegalHold
      (filterObjectLockMetadata p m filterRetention filterLegalHold) ↔
    (retentionFiltered p m filterRetention → (p.userDefined m).mode.lower = none ∨
      (p.userDefined m).mode.lower = some .none ∧
        ((p.userDefined m).retainUntilDate.lower.bind id).getD .zero = .zero) ∧
    (legalHoldFiltered p m filterLegalHold → (p.userDefined m).legalHold.lower.getD .none = .none) := by
  obtain ⟨hsame, hdst⟩ := filterObjectLockMetadata_keeps p m filterRetention filterLegalHold
  set s := filterObjectLockMetadata p m filterRetention filterLegalHold
  have hretention (h : retentionFiltered p m filterRetention) :
      getObjectRetentionMeta (p.userDefined s.dst) = ⟨.none, .zero⟩ ↔
      (p.userDefined m).mode.lower = none ∨ (p.userDefined m).mode.lower = some .none ∧
        ((p.userDefined m).retainUntilDate.lower.bind id).getD .zero = .zero := by
    rw [if_pos h] at hdst
    simp only [getObjectRetentionMeta, Entry.get, Parsers.userDefined, hdst]
    cases m "x-amz-object-lock-mode" <;> simp
  have hlegalHold (h : legalHoldFiltered p m filterLegalHold) :
      getObjectLegalHoldMeta (p.userDefined s.dst) = .none ↔
      (p.userDefined m).legalHold.lower.getD .none = .none := by
    rw [if_pos h] at hdst
    simp [getObjectLegalHoldMeta, Entry.get, Parsers.userDefined, hdst]
  have hothers : ∀ k ∉ lockKeys, s.dst k = m k := by
    intro k hk
    simp only [lockKeys, List.mem_cons, not_or] at hk
    simp [hdst, hk]
  exact ⟨fun h => ⟨fun hr => (hretention hr).mp (h.retention hr),
      fun hl => (hlegalHold hl).mp (h.legalHold hl)⟩,
    fun h => ⟨hsame, fun hr => (hretention hr).mpr (h.1 hr),
      fun hl => (hlegalHold hl).mpr (h.2 hl), hothers⟩⟩

/-- A legal hold under the lower-case key is still there. -/
theorem legalHold_not_hidden :
    let p : Parsers := ⟨fun _ => .none, fun _ => none, fun _ => .on⟩
    let m : Metadata := fun k => if k = "x-amz-object-lock-legal-hold" then some "ON" else none
    getObjectLegalHoldMeta (p.userDefined (filterObjectLockMetadata p m false true).dst) = .on := by
  decide

end

end Obstor.Lock
