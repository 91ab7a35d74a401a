import Obstor.Go.Streams
import Obstor.Go.Text

/-!
# Lifecycle actions

`Lifecycle.ComputeAction` (`pkg/bucket/lifecycle/lifecycle.go`) goes over the rules that
`FilterActionableRules` lets through and returns what the rules prescribe for a version of an
object. A rule should apply to objects with its tags only, but the tags are tested after four kinds
of rules have been accepted; and a number of days is multiplied in an `int64`, which wraps from
106751 days on.

A configuration is as `ParseLifecycleConfig` decodes it, so that days are not negative. The random
source for the id of a rule without one does not fail; that id is lost with the copy of the rule.

* `acts_by_rule`: an action is prescribed by a rule that applies to the object, if the enabled rules
  are sound. The loop keeps that the action is prescribed by a rule it has seen
  (`actionLoop_prescribed`). `acts_without_rule` has a rule for each way to be unsound.
* `expiresOnTime_iff`: the expiry time is right as long as the days do not wrap.
* `skip_loses_nothing_iff`: when the scanner skips a prefix under which a rule would act.
-/

namespace Obstor.BucketLifecycle

open Go List

/-! ### Configurations -/

/-- The errors of `Validate`, under their names. -/
inductive LifecycleErr
  | tooManyRules
  | noRule
  | duplicateID
  | xmlNotWellFormed
  | invalidRuleID
  | emptyRuleStatus
  | invalidRuleStatus
  | invalidDeleteMarker
  | invalidExpiration
  | transitionInvalid
  | invalidFilter
  | duplicateTagKey
  | invalidTagKey
  | invalidTagValue
  deriving DecidableEq

/-- `if bad { return err }`. -/
def reject (bad : Bool) (err : LifecycleErr) : Except LifecycleErr Unit :=
  if bad then .error err else .ok ()

structure Tag where
  key : Text := []
  value : Text := []
  deriving DecidableEq

def Tag.string (t : Tag) : Text := t.key ++ '=' :: t.value

def Tag.isEmpty (t : Tag) : Bool := t.key = []

def Tag.validate (t : Tag) : Except LifecycleErr Unit := do
  reject (t.key = [] || 128 < t.key.length) .invalidTagKey
  reject (256 < t.value.length) .invalidTagValue

structure Prefix where
  string : Text := []
  set : Bool := false
  deriving DecidableEq

structure And where
  pre : Prefix := {}
  tags : List Tag := []
  deriving DecidableEq

def And.isEmpty (a : And) : Bool := a.tags = [] && !a.pre.set

def And.validate (a : And) : Except LifecycleErr Unit :=
  if a.isEmpty then .ok ()
  else do
    reject (!a.pre.set || a.tags = []) .xmlNotWellFormed
    reject (!(a.tags.map Tag.key).Nodup) .duplicateTagKey
    a.tags.forM Tag.validate

structure Filter where
  set : Bool := false
  pre : Prefix := {}
  and : And := {}
  tag : Tag := {}
  deriving DecidableEq

def Filter.validate (f : Filter) : Except LifecycleErr Unit := do
  reject (!f.set) .xmlNotWellFormed
  if !f.and.isEmpty then
    reject (f.pre.set || !f.tag.isEmpty) .invalidFilter
    f.and.validate
  reject (f.pre.set && !f.tag.isEmpty) .invalidFilter
  if !f.tag.isEmpty then f.tag.validate

/-- The tags that `TestTags` looks for. -/
def Filter.tags (f : Filter) : List Tag := (f.and.tags ++ [f.tag]).filter (!·.isEmpty)

def Filter.testTags (f : Filter) (tags : List Text) : Bool := f.tags.all (·.string ∈ tags)

structure ExpireDeleteMarker where
  val : Bool := false
  set : Bool := false
  deriving DecidableEq

structure Expiration where
  days : ℕ := 0
  date : Time := .zero
  deleteMarker : ExpireDeleteMarker := {}
  set : Bool := false
  deriving DecidableEq

def Expiration.validate (e : Expiration) : Except LifecycleErr Unit :=
  if !e.set then .ok ()
  else do
    reject ((e.days ≠ 0 || !e.date.isZero) && e.deleteMarker.set) .invalidDeleteMarker
    reject (!e.deleteMarker.set && e.days = 0 && e.date.isZero) .xmlNotWellFormed
    reject (e.days ≠ 0 && !e.date.isZero) .invalidExpiration

structure Transition where
  days : ℕ := 0
  date : Time := .zero
  storageClass : Text := []
  set : Bool := false
  deriving DecidableEq

def Transition.isNull (t : Transition) : Bool := t.days = 0 && t.date.isZero

def Transition.validate (t : Transition) : Except LifecycleErr Unit :=
  if !t.set then .ok ()
  else do
    reject t.isNull .xmlNotWellFormed
    reject (t.days ≠ 0 && !t.date.isZero) .transitionInvalid
    reject (t.storageClass = []) .xmlNotWellFormed

structure NoncurrentVersionExpiration where
  noncurrentDays : ℕ := 0
  set : Bool := false
  deriving DecidableEq

def NoncurrentVersionExpiration.validate (n : NoncurrentVersionExpiration) :
    Except LifecycleErr Unit :=
  reject (n.set && n.noncurrentDays = 0) .xmlNotWellFormed

structure NoncurrentVersionTransition where
  noncurrentDays : ℕ := 0
  storageClass : Text := []
  set : Bool := false
  deriving DecidableEq

def NoncurrentVersionTransition.validate (n : NoncurrentVersionTransition) :
    Except LifecycleErr Unit :=
  reject (n.set && (n.noncurrentDays = 0 || n.storageClass = [])) .xmlNotWellFormed

/-- `Status`, whose text may be any. -/
inductive Status
  | enabled
  | disabled
  | other (text : Text)
  deriving DecidableEq

structure Rule where
  id : Text := []
  status : Status := .enabled
  filter : Filter := {}
  pre : Prefix := {}
  expiration : Expiration := {}
  transition : Transition := {}
  noncurrentVersionExpiration : NoncurrentVersionExpiration := {}
  noncurrentVersionTransition : NoncurrentVersionTransition := {}
  deriving DecidableEq

namespace Rule

def validateID (r : Rule) : Except LifecycleErr Unit :=
  reject (255 < (String.ofList r.id).utf8ByteSize) .invalidRuleID

def validateStatus (r : Rule) : Except LifecycleErr Unit :=
  match r.status with
  | .other [] => .error .emptyRuleStatus
  | .other _ => .error .invalidRuleStatus
  | _ => .ok ()

def validatePrefixAndFilter (r : Rule) : Except LifecycleErr Unit := do
  reject (r.pre.set == r.filter.set) .xmlNotWellFormed
  if !r.pre.set then r.filter.validate

def getPrefix (r : Rule) : Text :=
  if r.pre.string ≠ [] then r.pre.string
  else if r.filter.pre.string ≠ [] then r.filter.pre.string
  else r.filter.and.pre.string

def validate (r : Rule) : Except LifecycleErr Unit := do
  r.validateID
  r.validateStatus
  r.expiration.validate
  r.noncurrentVersionExpiration.validate
  r.validatePrefixAndFilter
  r.transition.validate
  r.noncurrentVersionTransition.validate
  reject (!r.expiration.set && !r.transition.set && !r.noncurrentVersionExpiration.set &&
    !r.noncurrentVersionTransition.set) .xmlNotWellFormed

end Rule

structure Lifecycle where
  rules : List Rule

def Lifecycle.validate (lc : Lifecycle) : Except LifecycleErr Unit := do
  reject (1000 < lc.rules.length) .tooManyRules
  reject (lc.rules = []) .noRule
  lc.rules.forM Rule.validate
  reject (!(lc.rules.map Rule.id).Nodup) .duplicateID

/-! ### Evaluation -/

inductive Action
  | none
  | delete
  | deleteVersion
  | transition
  | transitionVersion
  | deleteRestored
  | deleteRestoredVersion
  deriving DecidableEq

structure ObjectOpts where
  name : Text
  userTags : Text := []
  modTime : Time
  versionID : Text := []
  isLatest : Bool := false
  deleteMarker : Bool := false
  numVersions : ℕ := 1
  successorModTime : Time := .zero
  transitionStatus : Text := []
  restoreExpires : Time := .zero

def transitionComplete : Text := "complete".toList

namespace ObjectOpts

def expiredObjectDeleteMarker (o : ObjectOpts) : Bool := o.deleteMarker && o.numVersions = 1

/-- `strings.Split(obj.UserTags, "&")`, the texts `key=value` of the tags, as they are encoded. -/
def pieces (o : ObjectOpts) : List Text := o.userTags.splitOn '&'

/-- A version that has been superseded. -/
def noncurrent (o : ObjectOpts) : Bool :=
  o.versionID ≠ [] && !o.isLatest && !o.successorModTime.isZero

/-- The object itself, in a bucket with or without versions. -/
def current (o : ObjectOpts) : Bool := o.versionID = [] || o.isLatest && !o.deleteMarker

end ObjectOpts

/-- 24 hours, in nanoseconds. -/
def day : ℤ := 86400 * 10 ^ 9

/-- `t.Truncate(24 * time.Hour)`, which counts from the zero time. -/
def truncate (t : Time) : Time :=
  ⟨Time.zero.nanos + (t.nanos - Time.zero.nanos) / day * day⟩

/-- `time.Duration(days+1) * 24 * time.Hour`. -/
def wait (days : ℕ) : ℤ := int64 ((days + 1) * day)

def expectedExpiryTime (modTime : Time) (days : ℕ) : Time := truncate ⟨modTime.nanos + wait days⟩

/-- The `switch` over the date and the days of an expiration or a transition. -/
def passed (date : Time) (days : ℕ) (modTime now : Time) : Bool :=
  if !date.isZero then now.after date
  else days ≠ 0 && now.after (expectedExpiryTime modTime days)

/-- The action on a restored copy whose time is over. -/
def restoredAction (obj : ObjectOpts) : Action :=
  if obj.versionID ≠ [] then .deleteRestoredVersion else .deleteRestored

namespace Rule

/-- What `FilterActionableRules` appends for a rule; one with a transition may be appended twice. -/
def actionable (obj : ObjectOpts) (rule : Rule) : List Rule :=
  if rule.status = .disabled || !rule.getPrefix.isPrefixOf obj.name then []
  else if rule.expiration.deleteMarker.val then [rule]
  else if rule.noncurrentVersionExpiration.noncurrentDays ≠ 0 then [rule]
  else if rule.noncurrentVersionTransition.noncurrentDays ≠ 0 then [rule]
  else (if rule.filter.testTags obj.pieces then [rule] else []) ++
    (if !rule.transition.isNull then [rule] else [])

/-- The body of the loop of `ComputeAction`: it returns (`.error`), or gives the variable `action`
its next value. -/
def evaluate (obj : ObjectOpts) (now : Time) (action : Action) (rule : Rule) :
    Except Action Action :=
  let expiryDays := rule.noncurrentVersionExpiration.noncurrentDays
  let transitionDays := rule.noncurrentVersionTransition.noncurrentDays
  if obj.expiredObjectDeleteMarker && rule.expiration.deleteMarker.val then .error .deleteVersion
  else if expiryDays ≠ 0 && obj.noncurrent &&
      now.after (expectedExpiryTime obj.successorModTime expiryDays) then .error .deleteVersion
  else if expiryDays ≠ 0 && obj.versionID ≠ [] && obj.expiredObjectDeleteMarker &&
      now.after (expectedExpiryTime obj.modTime expiryDays) then .error .deleteVersion
  else if transitionDays ≠ 0 && obj.noncurrent && !obj.deleteMarker &&
      obj.transitionStatus ≠ transitionComplete &&
      now.after (expectedExpiryTime obj.successorModTime transitionDays) then
    .error .transitionVersion
  else if obj.current then
    if passed rule.expiration.date rule.expiration.days obj.modTime now then .error .delete
    else
      let action := if obj.transitionStatus ≠ transitionComplete &&
        passed rule.transition.date rule.transition.days obj.modTime now then .transition else action
      .ok (if !obj.restoreExpires.isZero && now.after obj.restoreExpires then restoredAction obj
        else action)
  else .ok action

end Rule

/-- The loop of `ComputeAction`, and what it returns. -/
def actionLoop (obj : ObjectOpts) (now : Time) : List Rule → Action → Action
  | [], action => action
  | rule :: rules, action =>
    match rule.evaluate obj now action with
    | .error a => a
    | .ok a => actionLoop obj now rules a

namespace Lifecycle

def filterActionableRules (lc : Lifecycle) (obj : ObjectOpts) : List Rule :=
  if obj.name = [] then [] else lc.rules.flatMap (Rule.actionable obj)

def computeAction (lc : Lifecycle) (obj : ObjectOpts) (now : Time) : Action :=
  if obj.modTime.isZero then .none else actionLoop obj now (lc.filterActionableRules obj) .none

end Lifecycle

/-! ### What a rule prescribes -/

/-- The first midnight that is the given number of full days after the time. -/
def dueTime (t : Time) (days : ℕ) : Time := truncate ⟨t.nanos + (days + 1) * day⟩

/-- The date has passed, or, if there is none, the days have. -/
def Due (date : Time) (days : ℕ) (modTime now : Time) : Prop :=
  ¬ date.isZero ∧ now.after date ∨ date.isZero ∧ days ≠ 0 ∧ now.after (dueTime modTime days)

/-- The actions that a rule prescribes for a version at a time. The copy of a restored object is
removed by any rule that applies to the object. -/
inductive Rule.Prescribes (rule : Rule) (obj : ObjectOpts) (now : Time) : Action → Prop
  | deleteMarker (h : obj.expiredObjectDeleteMarker) (hval : rule.expiration.deleteMarker.val) :
    Prescribes rule obj now .deleteVersion
  | noncurrent (h : obj.noncurrent) (hdays : rule.noncurrentVersionExpiration.noncurrentDays ≠ 0)
    (hdue : now.after
      (dueTime obj.successorModTime rule.noncurrentVersionExpiration.noncurrentDays)) :
    Prescribes rule obj now .deleteVersion
  | lastMarker (h : obj.versionID ≠ [] ∧ obj.expiredObjectDeleteMarker)
    (hdays : rule.noncurrentVersionExpiration.noncurrentDays ≠ 0)
    (hdue : now.after (dueTime obj.modTime rule.noncurrentVersionExpiration.noncurrentDays)) :
    Prescribes rule obj now .deleteVersion
  | noncurrentTransition (h : obj.noncurrent ∧ ¬ obj.deleteMarker)
    (hstatus : obj.transitionStatus ≠ transitionComplete)
    (hdays : rule.noncurrentVersionTransition.noncurrentDays ≠ 0)
    (hdue : now.after
      (dueTime obj.successorModTime rule.noncurrentVersionTransition.noncurrentDays)) :
    Prescribes rule obj now .transitionVersion
  | expiration (h : obj.current)
    (hdue : Due rule.expiration.date rule.expiration.days obj.modTime now) :
    Prescribes rule obj now .delete
  | transition (h : obj.current) (hstatus : obj.transitionStatus ≠ transitionComplete)
    (hdue : Due rule.transition.date rule.transition.days obj.modTime now) :
    Prescribes rule obj now .transition
  | restored (h : obj.current) (hset : ¬ obj.restoreExpires.isZero)
    (hdue : now.after obj.restoreExpires) :
    Prescribes rule obj now (restoredAction obj)

/-- `url.QueryUnescape`. -/
structure QueryUnescape where
  unescape : Text → Option Text
  plain : ∀ s, '%' ∉ s → '+' ∉ s → unescape s = some s

/-- One tag of `url.ParseQuery`. -/
def QueryUnescape.tag (Q : QueryUnescape) (piece : Text) : Option Tag :=
  if piece = [] ∨ ';' ∈ piece then none
  else
    match Q.unescape (piece.takeWhile (· ≠ '=')), Q.unescape (piece.dropWhile (· ≠ '=')).tail with
    | some key, some value => some ⟨key, value⟩
    | _, _ => none

/-- The tags of the object: `UserTags` is a query string, and is decoded where the tags are shown.
Source: `cmd/api-headers.go`, `setObjectHeaders` -/
def ObjectOpts.tags (Q : QueryUnescape) (o : ObjectOpts) : List Tag := o.pieces.filterMap Q.tag

/-- The rule is enabled, and the object has its prefix and its tags. -/
structure Rule.AppliesTo (Q : QueryUnescape) (rule : Rule) (obj : ObjectOpts) : Prop where
  enabled : rule.status = .enabled
  name : rule.getPrefix <+: obj.name
  tags : ∀ t ∈ rule.filter.tags, t ∈ obj.tags Q

/-- An action is prescribed by a rule that applies to the object. -/
def Lifecycle.ActsByRule (Q : QueryUnescape) (lc : Lifecycle) (obj : ObjectOpts) (now : Time) :
    Prop :=
  lc.computeAction obj now ≠ .none →
    ∃ rule ∈ lc.rules, rule.AppliesTo Q obj ∧ rule.Prescribes obj now (lc.computeAction obj now)

/-! ### When the code does what the rules prescribe -/

/-- The days are not too many for an `int64` of nanoseconds. -/
def InRange (days : ℕ) : Prop := (days + 1) * day < 2 ^ 63

/-- The text of the tag is the same when it is encoded. -/
structure Tag.Plain (t : Tag) : Prop where
  key : '=' ∉ t.key ∧ '%' ∉ t.key ∧ '+' ∉ t.key ∧ ';' ∉ t.key
  value : '%' ∉ t.value ∧ '+' ∉ t.value ∧ ';' ∉ t.value

namespace Rule

/-- The rule is accepted before its tags are tested. -/
def Untested (rule : Rule) : Prop :=
  rule.expiration.deleteMarker.val ∨ rule.noncurrentVersionExpiration.noncurrentDays ≠ 0 ∨
    rule.noncurrentVersionTransition.noncurrentDays ≠ 0 ∨ ¬ rule.transition.isNull

/-- The numbers of days that are given. -/
def dayCounts (rule : Rule) : List ℕ :=
  [rule.expiration.days, rule.transition.days, rule.noncurrentVersionExpiration.noncurrentDays,
    rule.noncurrentVersionTransition.noncurrentDays].filter (· ≠ 0)

/-- The rule has no tags if they are not tested, plain ones otherwise, and its days do not wrap. -/
structure Sound (rule : Rule) : Prop where
  tags : rule.Untested → rule.filter.tags = []
  plain : ∀ t ∈ rule.filter.tags, t.Plain
  days : ∀ d ∈ rule.dayCounts, InRange d

end Rule

section Soundness

variable {rule : Rule} {obj : ObjectOpts} {now : Time} {action : Action} {days : ℕ}

lemma after_dueTime {t : Time} (h : InRange days)
    (hafter : now.after (expectedExpiryTime t days)) : now.after (dueTime t days) := by
  have hnonneg : 0 ≤ ((days : ℤ) + 1) * day := Int.mul_nonneg (by omega) (by decide)
  rwa [expectedExpiryTime, wait, int64_eq_self (by omega) h] at hafter

lemma due_of_passed {date t : Time} (hrange : days ≠ 0 → InRange days)
    (h : passed date days t now) : Due date days t now := by
  unfold passed at h
  cases hdate : date.isZero with
  | false => exact .inl ⟨by simp [hdate], by simpa [hdate] using h⟩
  | true =>
    simp only [hdate, Bool.not_true, Bool.false_eq_true, if_false, Bool.and_eq_true,
      decide_eq_true_eq] at h
    exact .inr ⟨hdate, h.1, after_dueTime (hrange h.1) h.2⟩

/-- A plain tag is decoded from its text. -/
lemma Tag.Plain.tag_string {t : Tag} (h : t.Plain) (Q : QueryUnescape) :
    Q.tag t.string = some t := by
  have hkey : ∀ c ∈ t.key, decide (c ≠ '=') = true := by
    intro c hc
    exact decide_eq_true fun heq => h.key.1 (heq ▸ hc)
  have htake : t.string.takeWhile (· ≠ '=') = t.key := by
    rw [Tag.string, takeWhile_append_of_pos hkey]
    simp
  have hdrop : t.string.dropWhile (· ≠ '=') = '=' :: t.value := by
    rw [Tag.string, dropWhile_append_of_pos hkey]
    simp
  have hsome : ¬ (t.string = [] ∨ ';' ∈ t.string) := by
    simp [Tag.string, h.key.2.2.2, h.value.2.2]
  rw [QueryUnescape.tag, if_neg hsome, htake, hdrop, tail_cons,
    Q.plain _ h.key.2.1 h.key.2.2.1, Q.plain _ h.value.1 h.value.2.1]

lemma Rule.mem_actionable {x : Rule} : x ∈ rule.actionable obj ↔
    x = rule ∧ rule.status ≠ .disabled ∧ rule.getPrefix <+: obj.name ∧
      (rule.Untested ∨ ∀ t ∈ rule.filter.tags, t.string ∈ obj.pieces) := by
  unfold Rule.actionable Rule.Untested Filter.testTags
  split_ifs <;> simp_all
  grind

variable (obj now action) in
/-- The step of the loop: a rule returns what it prescribes, or sets this, or leaves the action as
it is. -/
lemma Rule.Sound.evaluate (h : rule.Sound) :
    match rule.evaluate obj now action with
    | .error a => rule.Prescribes obj now a
    | .ok a => a = action ∨ rule.Prescribes obj now a := by
  have hdays {d : ℕ} (hd : d ≠ 0) (hmem : d = rule.expiration.days ∨ d = rule.transition.days ∨
      d = rule.noncurrentVersionExpiration.noncurrentDays ∨
      d = rule.noncurrentVersionTransition.noncurrentDays) : InRange d :=
    h.days d (mem_filter.mpr ⟨by simpa using hmem, by simpa using hd⟩)
  unfold Rule.evaluate
  simp only [Bool.and_eq_true, decide_eq_true_eq]
  split_ifs with hmarker hnoncurrent hlast htransition hcurrent hpassed hrestored hset
  · exact .deleteMarker hmarker.1 hmarker.2
  · obtain ⟨⟨hne, hobj⟩, hafter⟩ := hnoncurrent
    exact .noncurrent hobj hne (after_dueTime (hdays hne (by simp)) hafter)
  · obtain ⟨⟨⟨hne, hid⟩, hobj⟩, hafter⟩ := hlast
    exact .lastMarker ⟨hid, hobj⟩ hne (after_dueTime (hdays hne (by simp)) hafter)
  · obtain ⟨⟨⟨⟨hne, hobj⟩, hno⟩, hstatus⟩, hafter⟩ := htransition
    exact .noncurrentTransition ⟨hobj, by simpa using hno⟩ hstatus hne
      (after_dueTime (hdays hne (by simp)) hafter)
  · exact .expiration hcurrent (due_of_passed (fun hne => hdays hne (by simp)) hpassed)
  · exact .inr (.restored hcurrent (by simpa using hrestored.1) hrestored.2)
  · exact .inr (.transition hcurrent hset.1 (due_of_passed (fun hne => hdays hne (by simp)) hset.2))
  · exact .inl rfl
  · exact .inl rfl

/-- What the loop over sound rules ends with is prescribed by one of them. -/
lemma actionLoop_prescribed {rules : List Rule} (h : ∀ rule ∈ rules, rule.Sound) :
    actionLoop obj now rules action = action ∨
      ∃ rule ∈ rules, rule.Prescribes obj now (actionLoop obj now rules action) := by
  induction rules generalizing action with
  | nil => exact .inl rfl
  | cons rule rules ih =>
    obtain ⟨hsound, hrules⟩ := forall_mem_cons.mp h
    have hstep := hsound.evaluate obj now action
    unfold actionLoop
    split
    next a heval =>
      rw [heval] at hstep
      exact .inr ⟨rule, mem_cons_self, hstep⟩
    next a heval =>
      rw [heval] at hstep
      rcases ih hrules with hsame | ⟨other, hmem, hother⟩
      · rw [hsame]
        exact hstep.imp_right fun hrule => ⟨rule, mem_cons_self, hrule⟩
      · exact .inr ⟨other, mem_cons_of_mem _ hmem, hother⟩

lemma of_forM_ok {check : Rule → Except LifecycleErr Unit} {rules : List Rule}
    (h : rules.forM check = .ok ()) : ∀ rule ∈ rules, check rule = .ok () := by
  induction rules with
  | nil => exact forall_mem_nil _
  | cons rule rules ih =>
    obtain ⟨_, hrule, hrules⟩ := of_bind_ok h
    exact forall_mem_cons.mpr ⟨hrule, ih hrules⟩

lemma validate_rule {lc : Lifecycle} (h : lc.validate = .ok ()) (hmem : rule ∈ lc.rules) :
    rule.validate = .ok () := by
  obtain ⟨_, _, h⟩ := of_bind_ok h
  obtain ⟨_, _, h⟩ := of_bind_ok h
  obtain ⟨_, hrules, _⟩ := of_bind_ok h
  exact of_forM_ok hrules rule hmem

lemma Rule.enabled_of_validate (h : rule.validate = .ok ()) (hne : rule.status ≠ .disabled) :
    rule.status = .enabled := by
  obtain ⟨_, _, h⟩ := of_bind_ok h
  obtain ⟨_, hstatus, _⟩ := of_bind_ok h
  unfold Rule.validateStatus at hstatus
  cases hcase : rule.status with
  | enabled => rfl
  | disabled => exact absurd hcase hne
  | other text => cases text <;> simp [hcase] at hstatus

end Soundness

/-- Every action on every object at every time is prescribed by a rule that applies to the object,
if the enabled rules of the configuration are sound. A rule that is not may be covered by another
one that prescribes the same, so the condition is not necessary. -/
theorem acts_by_rule (Q : QueryUnescape) (lc : Lifecycle) (hvalid : lc.validate = .ok ())
    (hsound : ∀ rule ∈ lc.rules, rule.status = .enabled → rule.Sound) (obj : ObjectOpts)
    (now : Time) : lc.ActsByRule Q obj now := by
  intro hne
  have hrules : ∀ rule ∈ lc.filterActionableRules obj,
      rule ∈ lc.rules ∧ rule.Sound ∧ rule.AppliesTo Q obj := by
    intro x hx
    unfold Lifecycle.filterActionableRules at hx
    split_ifs at hx with hname
    · cases hx
    obtain ⟨rule, hmem, hx⟩ := mem_flatMap.mp hx
    obtain ⟨rfl, hstatus, hpre, htags⟩ := Rule.mem_actionable.mp hx
    have henabled := Rule.enabled_of_validate (validate_rule hvalid hmem) hstatus
    have hrule := hsound x hmem henabled
    refine ⟨hmem, hrule, henabled, hpre, fun t ht => ?_⟩
    rcases htags with hearly | htested
    · rw [hrule.tags hearly] at ht
      cases ht
    · exact mem_filterMap.mpr ⟨_, htested t ht, (hrule.plain t ht).tag_string Q⟩
  unfold Lifecycle.computeAction at hne ⊢
  split_ifs at hne ⊢
  · exact absurd rfl hne
  obtain hnone | ⟨rule, hmem, hprescribes⟩ := actionLoop_prescribed
    fun rule hmem => (hrules rule hmem).2.1
  · exact absurd hnone hne
  · exact ⟨rule, (hrules rule hmem).1, (hrules rule hmem).2.2, hprescribes⟩

/-! ### Rules that act otherwise -/

/-- A rule that expires all objects after some days. -/
def expiryRule (days : ℕ) : Rule where
  pre := ⟨[], true⟩
  expiration := { days := days, set := true }

/-- A rule that expires delete markers, with a filter. -/
def markerRule (f : Filter) : Rule where
  pre := ⟨[], !f.set⟩
  filter := f
  expiration := { deleteMarker := ⟨true, true⟩, set := true }

/-- A rule that expires the objects with a tag after a day. -/
def taggedRule (t : Tag) : Rule where
  id := ['t']
  filter := { set := true, tag := t }
  expiration := { days := 1, set := true }

/-- A decoder that knows no percent sign. -/
def plusDecoder : QueryUnescape where
  unescape s := if '%' ∈ s then none else some (s.map fun c => if c = '+' then ' ' else c)
  plain s hpercent hplus := by
    rw [if_neg hpercent]
    refine congrArg some ((map_congr_left fun c hc => if_neg ?_).trans (map_id _))
    rintro rfl
    exact hplus hc

/-- A rule for delete markers and one for the objects with a tag; an object with the tag expires. -/
theorem acts_by_rule_tagged :
    let lc : Lifecycle := ⟨[markerRule {}, taggedRule ⟨['k'], ['v']⟩]⟩
    let object : ObjectOpts := { name := ['x'], userTags := "a=b&k=v".toList, modTime := ⟨0⟩ }
    lc.computeAction object ⟨3 * day⟩ = .delete ∧ ∃ rule ∈ lc.rules,
      rule.AppliesTo plusDecoder object ∧ rule.Prescribes object ⟨3 * day⟩ .delete := by
  intro lc object
  have haction : lc.computeAction object ⟨3 * day⟩ = .delete := by decide
  have hsound : ∀ rule ∈ lc.rules, rule.status = .enabled → rule.Sound := by
    simp only [lc, forall_mem_cons, not_mem_nil, false_imp_iff, implies_true, and_true]
    refine ⟨fun _ => ⟨fun _ => rfl, forall_mem_nil _, forall_mem_nil _⟩,
      fun _ => ⟨fun h => ?_, ?_, ?_⟩⟩
    · exact absurd h (by unfold Rule.Untested; decide)
    · intro t ht
      obtain rfl := mem_singleton.mp ht
      exact ⟨by decide, by decide⟩
    · unfold InRange
      decide
  have hacts := acts_by_rule plusDecoder lc (by decide) hsound object ⟨3 * day⟩
  rw [Lifecycle.ActsByRule, haction] at hacts
  exact ⟨haction, hacts (by decide)⟩

/-- A superseded version without tags is deleted by a rule for versions with a tag; an object that
expires after 200000 days is deleted at once; and one with the tag `a b` by a rule for `a+b`. -/
theorem acts_without_rule :
    let tagged : Rule := { filter := { set := true, tag := ⟨['k'], ['v']⟩ },
                           noncurrentVersionExpiration := ⟨1, true⟩ }
    let version : ObjectOpts := { name := ['x'], modTime := ⟨0⟩, versionID := ['v'],
                                  successorModTime := ⟨0⟩ }
    let object : ObjectOpts := { name := ['x'], userTags := "k=a+b".toList, modTime := ⟨0⟩ }
    let plus : Tag := ⟨['k'], "a+b".toList⟩
    (Lifecycle.mk [tagged]).validate = .ok () ∧
      (Lifecycle.mk [tagged]).computeAction version ⟨3 * day⟩ = .deleteVersion ∧
      ¬ tagged.AppliesTo plusDecoder version ∧
    (Lifecycle.mk [expiryRule 200000]).validate = .ok () ∧
      (Lifecycle.mk [expiryRule 200000]).computeAction object ⟨1⟩ = .delete ∧
      ¬ (expiryRule 200000).Prescribes object ⟨1⟩ .delete ∧
    (Lifecycle.mk [taggedRule plus]).validate = .ok () ∧
      (Lifecycle.mk [taggedRule plus]).computeAction object ⟨3 * day⟩ = .delete ∧
      ¬ (taggedRule plus).AppliesTo plusDecoder object := by
  refine ⟨by decide, by decide, fun h => ?_, by decide, by decide, ?_, by decide, by decide,
    fun h => ?_⟩
  · exact absurd (h.tags ⟨['k'], ['v']⟩ (by decide)) (by decide)
  · rintro ⟨⟩
    rename_i hdue
    revert hdue
    unfold Due
    decide
  · exact absurd (h.tags ⟨['k'], "a+b".toList⟩ (by decide)) (by decide)

/-! ### Expiry times -/

/-- The expiry is a midnight later than the days after the time, by at most one day. -/
structure ExpiresOnTime (modTime : Time) (days : ℕ) : Prop where
  midnight : day ∣ (expectedExpiryTime modTime days).nanos
  later : modTime.nanos + days * day < (expectedExpiryTime modTime days).nanos
  within : (expectedExpiryTime modTime days).nanos ≤ modTime.nanos + days * day + day

/-- An object expires on time exactly if the days fit into an `int64` of nanoseconds. -/
theorem expiresOnTime_iff (modTime : Time) (days : ℕ) :
    ExpiresOnTime modTime days ↔ InRange days := by
  have hnonneg : 0 ≤ ((days : ℤ) + 1) * day := Int.mul_nonneg (by omega) (by decide)
  constructor
  · rintro ⟨-, hlater, -⟩
    have hlt := Int.bmod_lt (x := (days + 1) * day) (m := 2 ^ 64) (by decide)
    have hdvd := Int.dvd_self_sub_bmod (x := (days + 1) * day) (m := 2 ^ 64)
    simp only [InRange, expectedExpiryTime, wait, int64, truncate, Time.zero, day] at *
    omega
  · intro h
    constructor <;> rw [expectedExpiryTime, wait, int64_eq_self (by omega) h] <;>
      simp only [truncate, Time.zero, day] <;> omega

/-- After 200000 days, an object of 1970 would have expired in 1933. -/
theorem expires_in_the_past : (Lifecycle.mk [expiryRule 200000]).validate = .ok () ∧
    (expectedExpiryTime ⟨0⟩ 200000).nanos < 0 ∧ ¬ ExpiresOnTime ⟨0⟩ 200000 := by
  refine ⟨by decide, by decide, fun h => ?_⟩
  exact absurd h.later (by decide)

/-! ### The check of the scanner -/

/-- The rule makes `HasActiveRules` return true. -/
def Rule.active (pre : Text) (recursive : Bool) (now : Time) (rule : Rule) : Bool :=
  let inRule := rule.getPrefix.isPrefixOf pre
  if rule.status = .disabled then false
  else if pre ≠ [] && rule.getPrefix ≠ [] && !recursive && !inRule then false
  else if pre ≠ [] && rule.getPrefix ≠ [] && recursive && !inRule &&
      !pre.isPrefixOf rule.getPrefix then false
  else if rule.noncurrentVersionExpiration.noncurrentDays > 0 then true
  else if rule.noncurrentVersionTransition.noncurrentDays > 0 then true
  else if rule.expiration.days = 0 && rule.expiration.date.isZero && rule.transition.isNull then false
  else !rule.expiration.date.isZero && now.after rule.expiration.date ||
    !rule.transition.date.isZero && now.after rule.transition.date ||
    rule.expiration.days ≠ 0 || rule.transition.days ≠ 0

def Lifecycle.hasActiveRules (lc : Lifecycle) (pre : Text) (recursive : Bool) (now : Time) : Bool :=
  lc.rules.any (·.active pre recursive now)

/-- Every rule that is evaluated for a restored object sets an action. -/
lemma actionLoop_restored {obj : ObjectOpts} {now : Time} (hcurrent : obj.current)
    (hset : obj.restoreExpires.isZero = false) (hdue : now.after obj.restoreExpires)
    {rules : List Rule} {action : Action} (h : rules ≠ [] ∨ action ≠ .none) :
    actionLoop obj now rules action ≠ .none := by
  induction rules generalizing action with
  | nil => exact h.resolve_left (absurd rfl)
  | cons rule rules ih =>
    have hstep : rule.evaluate obj now action = .ok (restoredAction obj) ∨
        ∃ a ≠ Action.none, rule.evaluate obj now action = .error a := by
      unfold Rule.evaluate
      simp only [hcurrent, hset, hdue, Bool.not_false, Bool.and_true, if_true]
      split_ifs <;> simp
    unfold actionLoop
    rcases hstep with heval | ⟨a, hne, heval⟩
    · rw [heval]
      refine ih (.inr ?_)
      unfold restoredAction
      split_ifs <;> simp
    · rw [heval]
      exact hne

/-- The rule is for objects under the prefix. -/
structure Rule.Concerns (rule : Rule) (pre : Text) : Prop where
  enabled : rule.status ≠ .disabled
  comparable : rule.getPrefix <+: pre ∨ pre <+: rule.getPrefix

/-- The rule has days, or a date that has passed. -/
def Rule.Pending (rule : Rule) (now : Time) : Prop :=
  rule.noncurrentVersionExpiration.noncurrentDays ≠ 0 ∨
    rule.noncurrentVersionTransition.noncurrentDays ≠ 0 ∨
    rule.expiration.days ≠ 0 ∨ rule.transition.days ≠ 0 ∨
    (¬ rule.expiration.date.isZero ∧ now.after rule.expiration.date) ∨
    ¬ rule.transition.date.isZero ∧ now.after rule.transition.date

lemma Rule.active_iff {rule : Rule} {pre : Text} {now : Time} :
    rule.active pre true now ↔ rule.Concerns pre ∧ rule.Pending now := by
  by_cases hstatus : rule.status = .disabled
  · exact iff_of_false (by simp [Rule.active, hstatus]) fun h => h.1.enabled hstatus
  by_cases hcomparable : rule.getPrefix <+: pre ∨ pre <+: rule.getPrefix
  · have hskip : (pre ≠ [] && rule.getPrefix ≠ [] && true && !rule.getPrefix.isPrefixOf pre &&
        !pre.isPrefixOf rule.getPrefix) = false := by
      rcases hcomparable with h | h <;> simp [List.isPrefixOf_iff_prefix.mpr h]
    have hconcerns : rule.Concerns pre := ⟨hstatus, hcomparable⟩
    simp only [Rule.active, hstatus, if_false, hskip, hconcerns, true_and]
    unfold Rule.Pending Transition.isNull
    grind
  · rw [not_or] at hcomparable
    have hpre : pre ≠ [] := fun hnil => hcomparable.2 (hnil ▸ nil_prefix)
    have hrule : rule.getPrefix ≠ [] := fun hnil => hcomparable.1 (hnil ▸ nil_prefix)
    refine iff_of_false ?_ fun h => h.1.comparable.elim hcomparable.1 hcomparable.2
    simp [Rule.active, hstatus, hpre, hrule, hcomparable.1, hcomparable.2]

lemma notMem_of_mem_splitOn {a : Char} {l piece : Text} (h : piece ∈ l.splitOn a) : a ∉ piece := by
  induction l generalizing piece with
  | nil =>
    rw [splitOn_nil, mem_singleton] at h
    rw [h]
    exact not_mem_nil
  | cons x l ih =>
    rw [splitOn_cons_eq_if_modifyHead] at h
    obtain ⟨head, tail, hsplit⟩ := exists_cons_of_ne_nil (splitOn_ne_nil a l)
    rw [hsplit] at h ih
    split_ifs at h with hx
    · rcases mem_cons.mp h with rfl | h
      · exact not_mem_nil
      · exact ih h
    · rw [modifyHead_cons] at h
      rcases mem_cons.mp h with rfl | h
      · have hne : a ≠ x := fun heq => hx (by simp [heq])
        simp [hne, ih mem_cons_self]
      · exact ih (mem_cons_of_mem _ h)

/-- The rule gets past the filter for some object: its tags are not tested, or none of them has the
character at which the tags of an object are split. -/
def Rule.Accepts (rule : Rule) : Prop := rule.Untested ∨ ∀ t ∈ rule.filter.tags, '&' ∉ t.string

lemma Rule.accepts_of_mem {rule x : Rule} {obj : ObjectOpts} {pre : Text}
    (hname : pre <+: obj.name) (h : x ∈ rule.actionable obj) :
    rule.Concerns pre ∧ rule.Accepts := by
  obtain ⟨-, hstatus, hrule, htags⟩ := Rule.mem_actionable.mp h
  refine ⟨⟨hstatus, prefix_or_prefix_of_prefix hrule hname⟩, htags.imp_right fun htags t ht => ?_⟩
  exact notMem_of_mem_splitOn (htags t ht)

/-- The object is a restored copy that has expired; its other fields do not matter. -/
lemma Rule.Concerns.exists_object {rule : Rule} {pre : Text} (h : rule.Concerns pre)
    (haccepts : rule.Accepts) (expires : Time) :
    ∃ obj : ObjectOpts, pre <+: obj.name ∧ obj.name ≠ [] ∧ obj.modTime = ⟨0⟩ ∧ obj.current ∧
      obj.restoreExpires = expires ∧ rule ∈ rule.actionable obj := by
  obtain ⟨name, hpre, hrule, hne⟩ : ∃ name, pre <+: name ∧ rule.getPrefix <+: name ∧ name ≠ [] := by
    rcases h.comparable with hle | hle
    · exact ⟨pre ++ ['x'], prefix_append _ _, hle.trans (prefix_append _ _), by simp⟩
    · exact ⟨rule.getPrefix ++ ['x'], hle.trans (prefix_append _ _), prefix_append _ _, by simp⟩
  refine ⟨⟨name, intercalate ['&'] (rule.filter.tags.map Tag.string), ⟨0⟩, [], true, false, 1,
    .zero, [], expires⟩, hpre, hne, rfl, rfl, rfl, ?_⟩
  refine Rule.mem_actionable.mpr ⟨rfl, h.enabled, hrule, haccepts.imp_right fun htags t ht => ?_⟩
  have hstrings : ∀ l ∈ rule.filter.tags.map Tag.string, '&' ∉ l := by
    intro l hl
    obtain ⟨u, hu, rfl⟩ := mem_map.mp hl
    exact htags u hu
  rw [ObjectOpts.pieces, splitOn_intercalate _ hstrings (by simpa using ne_nil_of_mem ht)]
  exact mem_map_of_mem ht

/-- Skipping a prefix loses nothing exactly if some rule for objects under it has days or a date
that has passed, so that it is not skipped, or no rule for objects under it gets past the filter. -/
theorem skip_loses_nothing_iff (lc : Lifecycle) (pre : Text) (now : Time) :
    (lc.hasActiveRules pre true now = false →
      ∀ obj : ObjectOpts, pre <+: obj.name → lc.computeAction obj now = .none) ↔
    (∃ rule ∈ lc.rules, rule.Concerns pre ∧ rule.Pending now) ∨
      ∀ rule ∈ lc.rules, rule.Concerns pre → ¬ rule.Accepts := by
  have hactive : lc.hasActiveRules pre true now = true ↔
      ∃ rule ∈ lc.rules, rule.Concerns pre ∧ rule.Pending now := by
    simp only [Lifecycle.hasActiveRules, any_eq_true, Rule.active_iff]
  constructor
  · intro h
    by_contra hnot
    rw [not_or, ← hactive, Bool.not_eq_true] at hnot
    obtain ⟨hfalse, hnot⟩ := hnot
    push Not at hnot
    obtain ⟨rule, hmem, hconcerns, haccepts⟩ := hnot
    -- a restored copy that has expired is removed by any rule that gets past the filter
    obtain ⟨expires, hset, hdue⟩ : ∃ t : Time, t.isZero = false ∧ now.after t := by
      refine ⟨⟨min now.nanos Time.zero.nanos - 1⟩, decide_eq_false fun hzero => ?_,
        decide_eq_true ?_⟩
      · have hnanos := congrArg Time.nanos hzero
        dsimp only at hnanos
        omega
      · dsimp only
        omega
    obtain ⟨obj, hpre, hname, hmod, hcurrent, rfl, hin⟩ := hconcerns.exists_object haccepts expires
    have hrules : lc.filterActionableRules obj ≠ [] := by
      rw [Lifecycle.filterActionableRules, if_neg hname]
      exact ne_nil_of_mem (mem_flatMap.mpr ⟨rule, hmem, hin⟩)
    have hnone := h hfalse obj hpre
    rw [Lifecycle.computeAction, hmod, if_neg (by decide)] at hnone
    exact actionLoop_restored hcurrent hset hdue (.inl hrules) hnone
  · rintro (hexists | hnone) hfalse obj hpre
    · rw [hactive.mpr hexists] at hfalse
      cases hfalse
    · have hrules : lc.filterActionableRules obj = [] := by
        rw [Lifecycle.filterActionableRules, ite_eq_left_iff]
        intro _
        rw [eq_nil_iff_forall_not_mem]
        intro x hx
        obtain ⟨rule, hmem, hx⟩ := mem_flatMap.mp hx
        obtain ⟨hconcerns, haccepts⟩ := Rule.accepts_of_mem hpre hx
        exact hnone rule hmem hconcerns haccepts
      rw [Lifecycle.computeAction, hrules]
      split_ifs <;> rfl

/-- A rule for delete markers is not active, and deletes one. -/
theorem skipped_marker_deleted :
    let lc : Lifecycle := ⟨[markerRule {}]⟩
    lc.validate = .ok () ∧ lc.hasActiveRules ['x'] true ⟨0⟩ = false ∧
      lc.computeAction { name := ['x'], modTime := ⟨0⟩, deleteMarker := true } ⟨0⟩ =
        .deleteVersion := by
  decide

end Obstor.BucketLifecycle
