import Obstor.Dsync.Mutex

/-!
# What a step of a mutex client does

A *token* of a client at a locker is a grant that the locker made and whose release has not taken
effect: a reply under way or in the channel, a mark in the slice `locks`, a late grant that is about
to be released. `ClientMove` is a step as the lockers and the tokens see it: a grant adds an entry
and a token, and a release takes away a token and at most one entry. Only a release in `Unlock` may
come without a token, as its retries send a release again that has taken effect already.

`move_of_step` is the one inversion lemma of the system: every step of a client is a `ClientMove`
and keeps the client `Sound`. The lemmas `move_of_*` before it are its cases, one for each event.
-/

namespace Obstor.Dsync

open Lib List Option Function LocalLocker Client ClientInfo Function

/-! ### One locker -/

section Locker

variable {info other : ClientInfo} {isReadLock kind : Bool} {now : ℤ} {quorum : ℕ}
  {l l' : LocalLocker} {reply : Bool} {name : String}

/-- The entry belongs to the client. -/
def ClientInfo.owns (info : ClientInfo) (entry : LockRequesterInfo) : Bool :=
  entry.uid = info.uid && entry.owner = info.owner

/-- The lock is on the name: a write lock is on all names, a read lock on the first. -/
def ClientInfo.covers (info : ClientInfo) (isReadLock : Bool) (name : String) : Bool :=
  if isReadLock then info.names.head? = some name else info.names.contains name

/-- The number of entries of one kind that the client has on a name. -/
def ClientInfo.entries (info : ClientInfo) (isReadLock : Bool) (l : LocalLocker) (name : String) :
    ℕ :=
  (l.held name).countP fun entry => info.owns entry && entry.writer == !isReadLock

/-- A writer is alone. -/
def Proper (l : LocalLocker) : Prop :=
  ∀ name, ∀ entry ∈ l.held name, entry.writer = true → l.held name = [entry]

lemma Proper.isWriteLock (h : Proper l) {entry : LockRequesterInfo}
    (hentry : entry ∈ l.held name) (hwriter : entry.writer) :
    isWriteLock (l.held name) := by
  rw [h name entry hentry hwriter]
  exact hwriter

def acquiredEntry (isReadLock : Bool) (args : LockArgs) (now : ℤ) (name : String) :
    LockRequesterInfo :=
  if isReadLock then args.readEntry now name else args.writeEntry now name

lemma owns_acquiredEntry : info.owns (acquiredEntry isReadLock (info.args quorum) now name) := by
  cases isReadLock <;> simp [acquiredEntry, owns, args, LockArgs.readEntry, LockArgs.writeEntry]

lemma writer_acquiredEntry :
    (acquiredEntry isReadLock (info.args quorum) now name).writer = !isReadLock := by
  cases isReadLock <;> rfl

section

variable (h : acquireAt isReadLock now (info.args quorum) l = some (l', reply))

include h

lemma held_acquireAt : ∀ name, l'.held name = (if reply && info.covers isReadLock name then
        l.held name ++ [acquiredEntry isReadLock (info.args quorum) now name] else l.held name) ∧
      (reply → info.covers isReadLock name →
        isWriteLock (l.held name) = false ∧ (isReadLock = false → l.held name = [])) := by
  intro name
  cases isReadLock with
  | true =>
    obtain ⟨resource, hres, hreply, hheld⟩ := held_rlock h
    have hcovers : info.covers true name ↔ name = resource := by
      have hres : info.names.head? = some resource := hres
      simp [covers, hres, eq_comm]
    refine ⟨?_, fun hgranted hc => ?_⟩
    · rw [hheld name]
      refine if_congr ?_ rfl rfl
      rw [Bool.and_eq_true, hcovers, and_comm]
    · rw [hcovers.mp hc]
      rw [hgranted] at hreply
      exact ⟨by simpa using hreply.symm, fun hk => by cases hk⟩
  | false =>
    have hlock : l.lock now (info.args quorum) = (l', reply) := Option.some.inj h
    obtain ⟨rfl, rfl⟩ : (l.lock now (info.args quorum)).1 = l' ∧ (l.lock now _).2 = reply := by
      rw [hlock]
      exact ⟨rfl, rfl⟩
    cases hreply : (l.lock now (info.args quorum)).2 with
    | false =>
      rw [lock_refused hreply]
      exact ⟨by simp, fun hgranted => by cases hgranted⟩
    | true =>
      obtain ⟨hfree, hheld⟩ := held_lock hreply
      have hcovers : info.covers false name ↔ name ∈ info.names := by
        simp [covers]
      refine ⟨?_, fun _ hc => ?_⟩
      · rw [hheld name, Bool.true_and]
        by_cases hname : name ∈ info.names
        · have hnil : l.held name = [] := hfree name hname
          rw [if_pos (show name ∈ (info.args quorum).resources from hname),
            if_pos (hcovers.mpr hname), hnil]
          rfl
        · rw [if_neg (show name ∉ (info.args quorum).resources from hname),
            if_neg fun hc => hname (hcovers.mp hc)]
      · have hnil : l.held name = [] := hfree name (hcovers.mp hc)
        rw [hnil]
        exact ⟨rfl, fun _ => rfl⟩

omit h in
lemma held_releaseAt (h : releaseAt isReadLock (info.args quorum) l = some (l', reply)) :
    ∀ name, l'.held name = l.held name ∨
      l'.held name = (l.held name).eraseP info.owns ∧ isWriteLock (l.held name) = !isReadLock := by
  intro name
  cases isReadLock with
  | true =>
    obtain ⟨⟨l₁, reply₁⟩, hrunlock, heq⟩ := map_eq_some_iff.mp h
    cases heq
    obtain ⟨resource, -, hheld⟩ := held_runlock hrunlock
    rw [hheld name]
    split
    case isTrue hname => exact Or.inr ⟨rfl, hname.1 ▸ hname.2⟩
    case isFalse => exact Or.inl rfl
  | false =>
    cases h
    rw [held_unlock]
    split
    case isTrue hname => exact Or.inr ⟨rfl, hname.2 name hname.1⟩
    case isFalse => exact Or.inl rfl

lemma countP_le_of_acquireAt (p : LockRequesterInfo → Bool) (name : String) :
    (l.held name).countP p ≤ (l'.held name).countP p := by
  rw [(held_acquireAt h name).1]
  split
  · rw [countP_append]
    exact Nat.le_add_right _ _
  · exact le_refl _

end

lemma entries_of_granted (h : acquireAt isReadLock now (info.args quorum) l = some (l', true))
    (hcovers : info.covers isReadLock name) :
    info.entries isReadLock l name + 1 ≤ info.entries isReadLock l' name := by
  rw [entries, entries, (held_acquireAt h name).1, hcovers, Bool.and_true,
    if_pos rfl, countP_append, countP_singleton, owns_acquiredEntry, writer_acquiredEntry,
    Bool.true_and, if_pos (beq_self_eq_true _)]

lemma proper_of_acquireAt (hl : Proper l)
    (h : acquireAt isReadLock now (info.args quorum) l = some (l', reply)) : Proper l' := by
  intro name entry hentry hwriter
  obtain ⟨hheld, hgranted⟩ := held_acquireAt h name
  rw [hheld] at hentry ⊢
  split at hentry
  case isFalse hc =>
    rw [if_neg hc]
    exact hl name entry hentry hwriter
  case isTrue hc =>
    obtain ⟨hreply, hcovers⟩ := Bool.and_eq_true_iff.mp hc
    obtain ⟨hnot, hnil⟩ := hgranted hreply hcovers
    rcases mem_append.mp hentry with hentry | hentry
    · rw [hl.isWriteLock hentry hwriter] at hnot
      cases hnot
    · obtain rfl := mem_singleton.mp hentry
      rw [writer_acquiredEntry, Bool.not_eq_true'] at hwriter
      rw [if_pos hc, hnil hwriter, nil_append]

lemma entries_of_releaseAt (hl : Proper l)
    (h : releaseAt isReadLock (info.args quorum) l = some (l', reply)) :
    info.entries kind l name ≤ info.entries kind l' name + if kind = isReadLock then 1 else 0 := by
  unfold entries
  rcases held_releaseAt h name with hheld | ⟨hheld, hwrite⟩
  · rw [hheld]
    exact Nat.le_add_right _ _
  · rw [hheld]
    split
    · exact countP_le_countP_eraseP _ _ _
    case isFalse hkind =>
      -- the list has no entry of the other kind
      have hnone : (l.held name).countP
          (fun entry => info.owns entry && entry.writer == !kind) = 0 := by
        refine countP_eq_zero.mpr fun entry hentry hmatch => ?_
        have hwriter : entry.writer = !kind := beq_iff_eq.mp (Bool.and_eq_true_iff.mp hmatch).2
        cases isReadLock with
        | true =>
          have hkind : kind = false := by simpa using hkind
          rw [hkind] at hwriter
          rw [hl.isWriteLock hentry hwriter] at hwrite
          cases hwrite
        | false =>
          have hkind : kind := by simpa using hkind
          obtain ⟨e, heq, he⟩ := length_of_isWriteLock hwrite
          rw [heq, mem_singleton] at hentry
          rw [hentry, he, hkind] at hwriter
          cases hwriter
      rw [hnone]
      exact Nat.zero_le _

lemma entries_of_releaseAt_other (huid : info.uid ≠ other.uid)
    (h : releaseAt isReadLock (info.args quorum) l = some (l', reply)) :
    other.entries kind l name ≤ other.entries kind l' name := by
  unfold entries
  rcases held_releaseAt h name with hheld | ⟨hheld, -⟩
  · rw [hheld]
  · rw [hheld, countP_eq_length_filter, countP_eq_length_filter, filter_eraseP]
    intro entry howns
    have hne : other.owns entry = false := by
      simp only [owns, Bool.and_eq_true, decide_eq_true_eq] at howns
      simp only [owns, Bool.and_eq_false_iff, decide_eq_false_iff_not, howns.1]
      exact Or.inl huid
    rw [hne, Bool.false_and]

lemma proper_of_releaseAt (hl : Proper l)
    (h : releaseAt isReadLock (info.args quorum) l = some (l', reply)) : Proper l' := by
  intro name entry hentry hwriter
  rcases held_releaseAt h name with hheld | ⟨hheld, -⟩
  · rw [hheld] at hentry ⊢
    exact hl name entry hentry hwriter
  · rw [hheld] at hentry ⊢
    have hmem := mem_of_mem_eraseP hentry
    rw [hl name entry hmem hwriter] at hentry ⊢
    by_cases howns : info.owns entry
    · rw [eraseP_cons_of_pos howns] at hentry
      cases hentry
    · rw [eraseP_cons_of_neg howns, eraseP_nil]

lemma no_conflict_at (hl : Proper l) (huid : info.uid ≠ other.uid)
    (hwriter : 0 < info.entries false l name) : other.entries kind l name = 0 := by
  obtain ⟨entry, hentry, hmatch⟩ := countP_pos_iff.mp hwriter
  obtain ⟨howns, hwriter⟩ := Bool.and_eq_true_iff.mp hmatch
  have hheld := hl name entry hentry (beq_iff_eq.mp hwriter)
  refine countP_eq_zero.mpr fun e he hmatch => huid ?_
  rw [hheld, mem_singleton] at he
  have howns' := (Bool.and_eq_true_iff.mp hmatch).1
  simp only [owns, Bool.and_eq_true, decide_eq_true_eq] at howns howns'
  rw [← howns.1, ← howns'.1, he]

end Locker

/-! ### Tokens of a client -/

section Tokens

variable {n : ℕ} {client client' : Client n} {L M : Fin n} {kind isReadLock : Bool}

/-- A grant whose release has not taken effect. -/
def AcquireCall.live : AcquireCall → Bool
  | .effected locked => locked
  | .answered locked => locked
  | .releasing => true
  | _ => false

lemma live_answered (locked : Bool) : (AcquireCall.answered locked).live = locked := rfl

lemma live_received : AcquireCall.received.live = false := rfl

/-- The mark of a locker stands for a grant whose release has not taken effect. -/
def Phase.keeps (kind : Bool) (L : Fin n) : Phase n → Bool
  | .collecting isReadLock _ _ locks => isReadLock == kind && locks L
  | .abandoning isReadLock locks releases =>
    isReadLock == kind && locks L && releases L == .sent
  | .holding isReadLock locks => isReadLock == kind && locks L
  | _ => false

/-- The tokens of one kind at a locker. -/
def Client.tokens (client : Client n) (L : Fin n) (kind : Bool) : ℕ :=
  client.rounds.countP (fun round => round.isReadLock == kind && (round.calls L).live) +
    if client.phase.keeps kind L then 1 else 0

lemma countP_setCall {rounds : List (Round n)} {r : ℕ} {round : Round n}
    (h : rounds[r]? = some round) (call : AcquireCall) (L M : Fin n) (kind : Bool) :
    (rounds.set r { round with calls := update round.calls L call }).countP
        (fun round => round.isReadLock == kind && (round.calls M).live) +
      (if M = L ∧ kind = round.isReadLock ∧ (round.calls L).live then 1 else 0) =
    rounds.countP (fun round => round.isReadLock == kind && (round.calls M).live) +
      (if M = L ∧ kind = round.isReadLock ∧ call.live then 1 else 0) := by
  have hset := countP_set_add (fun round => round.isReadLock == kind && (round.calls M).live) h
    { round with calls := update round.calls L call }
  by_cases hM : M = L
  · subst hM
    have hiff : ∀ b : Bool, ((round.isReadLock == kind && b)) = (kind = round.isReadLock ∧ b) := by
      intro b
      rw [Bool.and_eq_true, beq_iff_eq, @eq_comm _ kind]
    simpa [hiff] using hset
  · simp only [update_of_ne hM] at hset
    simp only [hM, false_and, if_false, add_zero]
    omega

end Tokens

/-! ### What a step of a client can do -/

section Moves

variable {n : ℕ}

/-- A step of a client as the lockers and the tokens see it. -/
inductive ClientMove (info : ClientInfo) (lockers : Fin n → LocalLocker) (client : Client n) :
    Client n → (Fin n → LocalLocker) → Prop
  /-- No locker is touched, and no token comes. -/
  | quiet {client'} (ht : ∀ L kind, client'.tokens L kind ≤ client.tokens L kind)
      (hu : client'.unlocked = false → client.unlocked = false) :
      ClientMove info lockers client client' lockers
  /-- An acquisition starts without tokens. -/
  | fresh {client'} (ht : ∀ L kind, client'.tokens L kind = 0) :
      ClientMove info lockers client client' lockers
  /-- A call that acquires takes effect; with a grant comes a token. -/
  | acquire {client'} (L : Fin n) {isReadLock now quorum l reply}
      (h : acquireAt isReadLock now (info.args quorum) (lockers L) = some (l, reply))
      (ht : ∀ M kind, client'.tokens M kind ≤
        client.tokens M kind + if M = L ∧ kind = isReadLock ∧ reply = true then 1 else 0)
      (hu : client'.unlocked = client.unlocked) :
      ClientMove info lockers client client' (Function.update lockers L l)
  /-- A release takes effect; its token goes, unless the client has unlocked. -/
  | release {client'} (L : Fin n) {isReadLock l ok}
      (h : releaseAt isReadLock (info.args 0) (lockers L) = some (l, ok))
      (ht : client'.unlocked = false → ∀ M kind, client'.tokens M kind +
        (if M = L ∧ kind = isReadLock then 1 else 0) ≤ client.tokens M kind)
      (hu : client'.unlocked = client.unlocked) :
      ClientMove info lockers client client' (Function.update lockers L l)

variable {info : ClientInfo} {client client' : Client n} {lockers lockers' : Fin n → LocalLocker}

/-- The phase of a client fits the rest: the loop is over the last round, `releaseAll` releases the
lockers that are marked, a lock that is held has its quorum, and `unlocked` is set by `Unlock`. -/
def Client.Sound (client : Client n) : Prop :=
  match client.phase with
  | .idle => True
  | .collecting isReadLock _ _ _ => client.unlocked = false ∧
      ∀ round, client.rounds.getLast? = some round → round.isReadLock = isReadLock
  | .abandoning _ locks releases => client.unlocked = false ∧
      ∀ L, releases L = .sent → locks L = true
  | .holding isReadLock locks => client.unlocked = false ∧
      lockQuorum n isReadLock ≤ (Finset.univ.filter fun L => locks L = true).card
  | .unlocking _ _ _ => client.unlocked = true

/-- A client that has unlocked starts to acquire only when none of its grants waits for a
release. -/
def FreshStart (client : Client n) : MutexEvent n → Prop
  | .start _ => client.unlocked = true →
      ∀ round ∈ client.rounds, ∀ L, (round.calls L).live = false
  | _ => True

instance (client : Client n) (event : MutexEvent n) : Decidable (FreshStart client event) :=
  match event with
  | .start _ => inferInstanceAs (Decidable (_ → _))
  | .acquire _ _ _ | .receive _ | .timeout | .decide | .release _ _ | .finish | .unlock =>
    isTrue trivial

variable {r : ℕ} {round : Round n}

lemma tokens_setCall (h : client.rounds[r]? = some round)
    (call : AcquireCall) (L M : Fin n) (kind : Bool) :
    ({ client with
        rounds := client.rounds.set r
          { round with calls := update round.calls L call } } : Client n).tokens M kind +
      (if M = L ∧ kind = round.isReadLock ∧ (round.calls L).live then 1 else 0) =
    client.tokens M kind + (if M = L ∧ kind = round.isReadLock ∧ call.live then 1 else 0) := by
  have hcount := countP_setCall h call L M kind
  simp only [tokens]
  omega

variable {L : Fin n}

lemma move_of_acquire {event : AcquireEvent}
    (h : client.step info lockers (.acquire r L event) = some (client', lockers')) :
    ClientMove info lockers client client' lockers' := by
  obtain ⟨round, hround, h⟩ := bind_eq_some_iff.mp h
  obtain ⟨⟨call, l⟩, hcall, heq⟩ := map_eq_some_iff.mp h
  cases heq
  have htokens := tokens_setCall hround call L
  -- the moves that leave the locker alone
  have hquiet : l = lockers L → (call.live → (round.calls L).live) →
      ClientMove info lockers client { client with
        rounds := client.rounds.set r { round with calls := update round.calls L call } }
        (update lockers L l) := by
    intro hl hlive
    rw [hl, update_eq_self]
    refine .quiet (fun M kind => ?_) id
    have := htokens M kind
    by_cases hcond : M = L ∧ kind = round.isReadLock ∧ call.live
    · rw [if_pos hcond, if_pos ⟨hcond.1, hcond.2.1, hlive hcond.2.2⟩] at this
      omega
    · rw [if_neg hcond] at this
      omega
  cases hold : round.calls L with
  | sent =>
    rw [hold] at hcall htokens hquiet
    cases event with
    | effect now =>
      obtain ⟨⟨l', reply⟩, hacquire, heq⟩ := map_eq_some_iff.mp hcall
      cases heq
      refine .acquire L hacquire (fun M kind => ?_) rfl
      exact (Nat.le_add_right _ _).trans (htokens M kind).le
    | answer delivered =>
      cases delivered with
      | true => cases hcall
      | false =>
        cases hcall
        exact hquiet rfl fun hlive => by cases hlive
    | late | lateEffect | lateReturn => cases hcall
  | effected reply =>
    rw [hold] at hcall hquiet
    cases event with
    | answer delivered =>
      cases hcall
      refine hquiet rfl fun hlive => ?_
      exact (Bool.and_eq_true_iff.mp (Bool.and_eq_true_iff.mp hlive).1).2
    | effect | late | lateEffect | lateReturn => cases hcall
  | answered locked =>
    rw [hold] at hcall hquiet
    cases locked with
    | false => cases event <;> cases hcall
    | true =>
      cases event with
      | late =>
        obtain ⟨-, hcall⟩ := ite_none_right_eq_some.mp hcall
        cases hcall
        exact hquiet rfl fun _ => rfl
      | effect | answer | lateEffect | lateReturn => cases hcall
  | received => rw [hold] at hcall; cases event <;> cases hcall
  | releasing =>
    rw [hold] at hcall htokens hquiet
    cases event with
    | lateEffect =>
      obtain ⟨⟨l', ok⟩, hrelease, heq⟩ := map_eq_some_iff.mp hcall
      cases heq
      refine .release L hrelease (fun _ M kind => ?_) rfl
      have := htokens M kind
      simp only [AcquireCall.live, Bool.false_eq_true, and_false, and_true, if_false] at this
      exact this.le
    | lateReturn =>
      cases hcall
      exact hquiet rfl fun hlive => by cases hlive
    | effect | answer | late => cases hcall
  | releaseEffected =>
    rw [hold] at hcall hquiet
    cases event with
    | lateReturn =>
      cases hcall
      exact hquiet rfl fun hlive => by cases hlive
    | effect | answer | late | lateEffect => cases hcall
  | released => rw [hold] at hcall; cases event <;> cases hcall

variable {isReadLock : Bool} {event : ReleaseEvent}

lemma ReleaseCall.step_cases {mark mark' : Bool} {l l' : LocalLocker} {call call' : ReleaseCall}
    (h : call.step info isReadLock mark l event = some (call', mark', l')) :
    call = .sent ∧ (∃ ok, call' = .effected ok ∧ mark' = mark ∧
        releaseAt isReadLock (info.args 0) l = some (l', ok)) ∨
      call' = .returned ∧ l' = l ∧ (mark' → mark) := by
  cases call with
  | sent =>
    cases event with
    | effect =>
      left
      obtain ⟨⟨l₁, ok⟩, hrelease, heq⟩ := map_eq_some_iff.mp h
      cases heq
      exact ⟨rfl, ok, rfl, rfl, hrelease⟩
    | answer delivered =>
      cases delivered with
      | true => cases h
      | false =>
        right
        cases h
        exact ⟨rfl, rfl, id⟩
  | effected ok =>
    cases event with
    | effect => cases h
    | answer delivered =>
      right
      cases h
      exact ⟨rfl, rfl, fun hmark => (Bool.and_eq_true_iff.mp hmark).1⟩
  | returned => cases event <;> cases h

lemma tokens_le_of_keeps {phase : Phase n} {unlocked : Bool}
    (h : ∀ M kind, phase.keeps kind M → client.phase.keeps kind M) (M : Fin n)
    (kind : Bool) :
    ({ client with phase := phase, unlocked := unlocked } : Client n).tokens M kind ≤
      client.tokens M kind := by
  refine Nat.add_le_add_left ?_ _
  by_cases hkeeps : phase.keeps kind M
  · rw [if_pos hkeeps, if_pos (h M kind hkeeps)]
  · rw [if_neg hkeeps]
    exact Nat.zero_le _

lemma isReadLock_getLast_set {rounds : List (Round n)} {last : Round n}
    (h : rounds[r]? = some round) {calls : Fin n → AcquireCall}
    (hlast : (rounds.set r { round with calls := calls }).getLast? = some last) :
    ∃ old, rounds.getLast? = some old ∧ old.isReadLock = last.isReadLock := by
  rw [getLast?_eq_getElem?, length_set, getElem?_set] at hlast
  rw [getLast?_eq_getElem?]
  split at hlast
  case isFalse => exact ⟨last, hlast, rfl⟩
  case isTrue hr =>
    split at hlast
    case isFalse => cases hlast
    case isTrue =>
      cases hlast
      exact ⟨round, hr ▸ h, rfl⟩

lemma sound_of_acquire {event : AcquireEvent} (hsound : client.Sound)
    (h : client.step info lockers (.acquire r L event) = some (client', lockers')) :
    client'.Sound := by
  obtain ⟨round, hround, h⟩ := bind_eq_some_iff.mp h
  obtain ⟨⟨call, l⟩, hcall, heq⟩ := map_eq_some_iff.mp h
  cases heq
  cases hphase : client.phase with
  | collecting isReadLock i locksFailed locks =>
    rw [Sound, hphase] at hsound
    refine ⟨hsound.1, fun last hlast => ?_⟩
    obtain ⟨old, hold, hkind⟩ := isReadLock_getLast_set hround hlast
    rw [← hkind]
    exact hsound.2 old hold
  | idle => trivial
  | abandoning | holding | unlocking =>
    rw [Sound, hphase] at hsound
    exact hsound

lemma move_of_start (hfresh : FreshStart client (.start isReadLock))
    (h : client.step info lockers (.start isReadLock) = some (client', lockers')) :
    ClientMove info lockers client client' lockers' ∧ client'.Sound := by
  simp only [step] at h
  split at h
  case h_2 => cases h
  case h_1 hphase =>
    cases h
    refine ⟨?_, rfl, fun round hround => ?_⟩
    · have htokens : ∀ M kind, (⟨.collecting isReadLock 0 0 fun _ => false,
          client.rounds ++ [⟨isReadLock, fun _ => .sent⟩], false⟩ : Client n).tokens M kind =
          client.tokens M kind := by
        intro M kind
        simp [tokens, AcquireCall.live, Phase.keeps, hphase]
      cases hunlocked : client.unlocked with
      | false => exact .quiet (fun M kind => (htokens M kind).le) fun _ => hunlocked
      | true =>
        refine .fresh fun M kind => ?_
        rw [htokens, tokens, hphase]
        refine countP_eq_zero.mpr fun round hround hlive => ?_
        rw [hfresh hunlocked round hround M, Bool.and_false] at hlive
        cases hlive
    · rw [getLast?_concat] at hround
      rw [← Option.some.inj hround]

variable {locks : Fin n → Bool}

lemma tokens_receive {locked : Bool} {i i' locksFailed locksFailed' : ℕ}
    (hphase : client.phase = .collecting round.isReadLock i locksFailed locks)
    (hround : client.rounds[client.rounds.length - 1]? = some round)
    (hcall : round.calls L = .answered locked) (M : Fin n) (kind : Bool) :
    ({ client with
        phase := .collecting round.isReadLock i' locksFailed'
          (if locked then update locks L true else locks)
        rounds := client.rounds.set (client.rounds.length - 1)
          { round with calls := update round.calls L .received } } : Client n).tokens M
            kind ≤ client.tokens M kind := by
  have hcount := countP_setCall hround .received L M kind
  rw [hcall, live_answered, live_received, if_neg fun hc : M = L ∧ kind = round.isReadLock ∧
    false => Bool.false_ne_true hc.2.2] at hcount
  simp only [tokens, hphase, Phase.keeps, Bool.and_eq_true, beq_iff_eq]
  by_cases hL : M = L ∧ kind = round.isReadLock ∧ locked
  · rw [if_pos hL] at hcount
    split <;> split <;> omega
  · rw [if_neg hL, add_zero] at hcount
    rw [hcount]
    refine Nat.add_le_add_left ?_ _
    by_cases hkeeps : round.isReadLock = kind ∧ (if locked then update locks L true else locks) M
    · have hmark : locks M := by
        cases locked with
        | false => exact hkeeps.2
        | true =>
          have hM : M ≠ L := fun hM => hL ⟨hM, hkeeps.1.symm, rfl⟩
          have hmark := hkeeps.2
          rwa [if_pos rfl, update_of_ne hM] at hmark
      rw [if_pos hkeeps, if_pos ⟨hkeeps.1, hmark⟩]
    · rw [if_neg hkeeps]
      exact Nat.zero_le _

section

variable (hsound : client.Sound)

include hsound

lemma move_of_receive (h : client.step info lockers (.receive L) = some (client', lockers')) :
    ClientMove info lockers client client' lockers' ∧ client'.Sound := by
  simp only [step] at h
  split at h
  case h_2 => cases h
  case h_1 isReadLock i locksFailed locks round hphase hround =>
    split at h
    case h_2 => cases h
    case h_1 locked hcall =>
      obtain ⟨-, h⟩ := ite_none_right_eq_some.mp h
      cases h
      rw [Sound, hphase] at hsound
      obtain ⟨hunlocked, hkind⟩ := hsound
      obtain rfl := hkind round hround
      have hget := hround
      rw [getLast?_eq_getElem?] at hget
      refine ⟨.quiet (tokens_receive hphase hget hcall) id, hunlocked, fun last hlast => ?_⟩
      obtain ⟨old, hold, heq⟩ := isReadLock_getLast_set hget hlast
      rw [← heq]
      exact hkind old hold

lemma move_of_timeout (h : client.step info lockers .timeout = some (client', lockers')) :
    ClientMove info lockers client client' lockers' ∧ client'.Sound := by
  simp only [step] at h
  split at h
  case h_2 => cases h
  case h_1 isReadLock i locksFailed locks hphase =>
    obtain ⟨-, h⟩ := ite_none_right_eq_some.mp h
    cases h
    rw [Sound, hphase] at hsound
    refine ⟨.quiet (tokens_le_of_keeps fun M kind hkeeps => ?_) id, hsound⟩
    rw [hphase]
    exact hkeeps

lemma move_of_decide (h : client.step info lockers .decide = some (client', lockers')) :
    ClientMove info lockers client client' lockers' ∧ client'.Sound := by
  simp only [step] at h
  split at h
  case h_2 => cases h
  case h_1 isReadLock i locksFailed locks hphase =>
    rw [Sound, hphase] at hsound
    obtain ⟨-, h⟩ := ite_none_left_eq_some.mp h
    split at h
    case isTrue hquorum =>
      cases h
      refine ⟨.quiet (tokens_le_of_keeps fun M kind hkeeps => ?_) id, hsound.1,
        of_decide_eq_true (Bool.and_eq_true_iff.mp hquorum).1⟩
      rw [hphase]
      exact hkeeps
    case isFalse =>
      cases h
      refine ⟨.quiet (tokens_le_of_keeps fun M kind hkeeps => ?_) id, hsound.1, fun L hsent => ?_⟩
      · rw [hphase]
        exact (Bool.and_eq_true_iff.mp hkeeps).1
      · simpa [releaseAll] using hsent

omit hsound in
lemma move_of_unlock (h : client.step info lockers .unlock = some (client', lockers')) :
    ClientMove info lockers client client' lockers' ∧ client'.Sound := by
  simp only [step] at h
  split at h
  case h_2 => cases h
  case h_1 isReadLock locks hphase =>
    cases h
    refine ⟨.quiet (tokens_le_of_keeps fun M kind hkeeps => ?_) fun hu => ?_, rfl⟩
    · cases hkeeps
    · cases hu

lemma move_of_finish (h : client.step info lockers .finish = some (client', lockers')) :
    ClientMove info lockers client client' lockers' ∧ client'.Sound := by
  simp only [step] at h
  split at h
  case h_3 => cases h
  case h_1 =>
    obtain ⟨-, h⟩ := ite_none_right_eq_some.mp h
    cases h
    exact ⟨.quiet (tokens_le_of_keeps fun M kind hkeeps => by cases hkeeps) id, trivial⟩
  case h_2 hphase =>
    rw [Sound, hphase] at hsound
    obtain ⟨-, h⟩ := ite_none_right_eq_some.mp h
    split at h
    · cases h
      exact ⟨.quiet (tokens_le_of_keeps fun M kind hkeeps => by cases hkeeps) id, hsound⟩
    · cases h
      exact ⟨.quiet (tokens_le_of_keeps fun M kind hkeeps => by cases hkeeps) id, trivial⟩

omit hsound in
lemma move_of_abandoning {mark : Bool}
    {releases : Fin n → ReleaseCall} {call : ReleaseCall} {l : LocalLocker}
    (hphase : client.phase = .abandoning isReadLock locks releases)
    (hmarked : ∀ L, releases L = .sent → locks L)
    (h : (releases L).step info isReadLock (locks L) (lockers L) event = some (call, mark, l)) :
    ClientMove info lockers client { client with
          phase := .abandoning isReadLock (update locks L mark)
            (update releases L call) } (update lockers L l) := by
  rcases ReleaseCall.step_cases h with ⟨hsent, ok, rfl, rfl, hrelease⟩ | ⟨rfl, rfl, -⟩
  · refine .release L hrelease (fun _ M kind => ?_) rfl
    simp only [tokens, hphase, Phase.keeps, update_eq_self]
    by_cases hM : M = L
    · subst hM
      rw [hmarked M hsent, hsent]
      by_cases hkind : kind = isReadLock
      · simp [hkind]
      · simp [hkind]
    · rw [update_of_ne hM, if_neg fun hc : M = L ∧ kind = isReadLock => hM hc.1]
      exact le_refl _
  · rw [update_eq_self]
    refine .quiet (tokens_le_of_keeps fun M kind hkeeps => ?_) id
    rw [hphase]
    by_cases hM : M = L
    · simp [hM, Phase.keeps] at hkeeps
    · rwa [Phase.keeps, update_of_ne hM, update_of_ne hM] at hkeeps

lemma move_of_release (h : client.step info lockers (.release L event) = some (client', lockers')) :
    ClientMove info lockers client client' lockers' ∧ client'.Sound := by
  simp only [step] at h
  split at h
  case h_3 => cases h
  case h_1 isReadLock locks releases hphase =>
    obtain ⟨⟨call, mark, l⟩, hcall, heq⟩ := map_eq_some_iff.mp h
    cases heq
    rw [Sound, hphase] at hsound
    refine ⟨move_of_abandoning hphase hsound.2 hcall, hsound.1, fun M hsent => ?_⟩
    by_cases hM : M = L
    · rw [hM, update_self] at hsent
      rcases ReleaseCall.step_cases hcall with ⟨-, ok, hcall, -⟩ | ⟨hcall, -⟩
      · rw [hcall] at hsent
        cases hsent
      · rw [hcall] at hsent
        cases hsent
    · rw [update_of_ne hM] at hsent ⊢
      exact hsound.2 M hsent
  case h_2 isReadLock locks releases hphase =>
    obtain ⟨⟨call, mark, l⟩, hcall, heq⟩ := map_eq_some_iff.mp h
    cases heq
    rw [Sound, hphase] at hsound
    refine ⟨?_, hsound⟩
    rcases ReleaseCall.step_cases hcall with ⟨-, ok, rfl, rfl, hrelease⟩ | ⟨-, rfl, -⟩
    · refine .release L hrelease (fun hu => ?_) rfl
      rw [show client.unlocked = false from hu] at hsound
      cases hsound
    · rw [update_eq_self]
      exact .quiet (tokens_le_of_keeps fun M kind hkeeps => by cases hkeeps) id

/-- A step of a client is one of its moves. -/
lemma move_of_step {event : MutexEvent n} (hfresh : FreshStart client event)
    (h : client.step info lockers event = some (client', lockers')) :
    ClientMove info lockers client client' lockers' ∧ client'.Sound := by
  cases event with
  | start => exact move_of_start hfresh h
  | acquire => exact ⟨move_of_acquire h, sound_of_acquire hsound h⟩
  | receive => exact move_of_receive hsound h
  | timeout => exact move_of_timeout hsound h
  | decide => exact move_of_decide hsound h
  | release => exact move_of_release hsound h
  | finish => exact move_of_finish hsound h
  | unlock => exact move_of_unlock h

end

end Moves

end Obstor.Dsync
