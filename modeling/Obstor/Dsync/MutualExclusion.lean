import Obstor.Dsync.MutexMoves

/-!
# Mutual exclusion

The invariant is that a locker has at least as many entries of a client as the client has tokens
there. Only the retries of `Unlock` break it; the client has nothing to lose then. It would lose a
lock that it acquires while another grant of its UID still waits for a release: the retry has taken
the entry of that grant, and the release takes the entry of the new lock.

`mutexInv_step` shows that a move keeps the invariant, and `mutual_exclusion` and `held_at_quorum`
follow along every run: who holds a lock has entries at a quorum (`MutexInv.quorum_of_holds`), two
quorums have a locker in common (`quorums_meet`), and no locker has entries of a writer and of
another client. `mutual_exclusion_fails_on_reuse` is the run that the condition `FreshStart`
excludes.
-/

namespace Obstor.Dsync

open Lib Function

/-! ### Runs -/

section Runs

variable {C : Type} [DecidableEq C] {n : ℕ} {info : C → ClientInfo} {s s' : MutexState C n}

/-- The state between steps: no writer shares a name, every client is sound, and as long as it has
not unlocked it has an entry at a locker for each token there. -/
structure MutexInv (info : C → ClientInfo) (s : MutexState C n) : Prop where
  proper : ∀ L, Proper (s.lockers L)
  sound : ∀ c, (s.clients c).Sound
  tokens : ∀ c, (s.clients c).unlocked = false → ∀ L isReadLock name,
    (info c).covers isReadLock name = true →
    (s.clients c).tokens L isReadLock ≤ (info c).entries isReadLock (s.lockers L) name

omit [DecidableEq C] in
lemma mutexInv_init : MutexInv info (MutexState.init C n) where
  proper _ _ _ hentry := absurd hentry List.not_mem_nil
  sound _ := trivial
  tokens _ _ _ _ _ _ := Nat.zero_le _

section

variable {lockers lockers' : Fin n → LocalLocker} {client client' : Client n}

lemma ClientMove.proper {i : ClientInfo} (h : ClientMove i lockers client client' lockers')
    (hproper : ∀ L, Proper (lockers L)) (L : Fin n) : Proper (lockers' L) := by
  cases h with
  | quiet => exact hproper L
  | fresh => exact hproper L
  | acquire M h =>
    exact (forall_update_iff lockers _).mpr
      ⟨proper_of_acquireAt (hproper M) h, fun L _ => hproper L⟩ L
  | release M h =>
    exact (forall_update_iff lockers _).mpr
      ⟨proper_of_releaseAt (hproper M) h, fun L _ => hproper L⟩ L

lemma ClientMove.entries_other {i other : ClientInfo} (h : ClientMove i lockers client client' lockers')
    (huid : i.uid ≠ other.uid) (L : Fin n) (isReadLock : Bool) (name : String) :
    other.entries isReadLock (lockers L) name ≤ other.entries isReadLock (lockers' L) name := by
  have hupdate : ∀ (M : Fin n) (l : LocalLocker),
      other.entries isReadLock (lockers M) name ≤ other.entries isReadLock l name →
      other.entries isReadLock (lockers L) name ≤
        other.entries isReadLock (Function.update lockers M l L) name := fun M l hle =>
    (forall_update_iff lockers fun L l =>
      other.entries isReadLock (lockers L) name ≤ other.entries isReadLock l name).mpr
      ⟨hle, fun _ _ => le_refl _⟩ L
  cases h with
  | quiet => exact le_refl _
  | fresh => exact le_refl _
  | acquire M h => exact hupdate M _ (countP_le_of_acquireAt h _ name)
  | release M h => exact hupdate M _ (entries_of_releaseAt_other huid h)

lemma ClientMove.tokens {i : ClientInfo} (h : ClientMove i lockers client client' lockers')
    (hproper : ∀ L, Proper (lockers L))
    (htokens : client.unlocked = false → ∀ L isReadLock name, i.covers isReadLock name →
      client.tokens L isReadLock ≤ i.entries isReadLock (lockers L) name)
    (hunlocked : client'.unlocked = false) (L : Fin n) (kind : Bool) (name : String)
    (hcovers : i.covers kind name) :
    client'.tokens L kind ≤ i.entries kind (lockers' L) name := by
  cases h with
  | quiet ht hu => exact (ht L kind).trans (htokens (hu hunlocked) L kind name hcovers)
  | fresh ht =>
    rw [ht L kind]
    exact Nat.zero_le _
  | @acquire M isReadLock now quorum l reply h ht hu =>
    have hold := htokens (hu ▸ hunlocked) L kind name hcovers
    have hnew := ht L kind
    by_cases hL : L = M
    · subst hL
      rw [update_self]
      by_cases hgrant : kind = isReadLock ∧ reply
      · obtain ⟨rfl, rfl⟩ := hgrant
        have hentry := entries_of_granted h hcovers
        rw [if_pos ⟨rfl, rfl, rfl⟩] at hnew
        omega
      · rw [if_neg fun hc => hgrant hc.2] at hnew
        have hle : i.entries kind (lockers L) name ≤ i.entries kind l name :=
          countP_le_of_acquireAt h _ name
        omega
    · rw [update_of_ne hL]
      rw [if_neg fun hc => hL hc.1] at hnew
      omega
  | @release M isReadLock l ok h ht hu =>
    have hold := htokens (hu ▸ hunlocked) L kind name hcovers
    have hnew := ht hunlocked L kind
    by_cases hL : L = M
    · subst hL
      rw [update_self]
      have hentry : i.entries kind (lockers L) name ≤
          i.entries kind l name + if kind = isReadLock then 1 else 0 :=
        entries_of_releaseAt (hproper L) h
      by_cases hkind : kind = isReadLock
      · rw [if_pos hkind] at hentry
        rw [if_pos ⟨rfl, hkind⟩] at hnew
        omega
      · rw [if_neg hkind] at hentry
        omega
    · rw [update_of_ne hL]
      omega

end

/-- Every step of a client keeps the invariant. -/
lemma mutexInv_step (huid : Injective fun c => (info c).uid) {e : C × MutexEvent n}
    (hinv : MutexInv info s) (hfresh : FreshStart (s.clients e.1) e.2)
    (h : mutexStep info s e = some s') : MutexInv info s' := by
  obtain ⟨⟨client, lockers⟩, hstep, rfl⟩ := Option.map_eq_some_iff.mp h
  obtain ⟨hmove, hsound⟩ := move_of_step (hinv.sound e.1) hfresh hstep
  constructor
  case proper => exact hmove.proper hinv.proper
  case sound =>
    exact (forall_update_iff s.clients _).mpr
      ⟨hsound, fun c _ => hinv.sound c⟩
  case tokens =>
    refine (forall_update_iff s.clients fun c client => client.unlocked = false →
      ∀ L isReadLock name, (info c).covers isReadLock name →
        client.tokens L isReadLock ≤ (info c).entries isReadLock (lockers L) name).mpr
      ⟨hmove.tokens hinv.proper (hinv.tokens e.1), fun c hc hunlocked L isReadLock name hcovers => ?_⟩
    have hne : (info e.1).uid ≠ (info c).uid := fun heq => hc (huid heq).symm
    exact (hinv.tokens c hunlocked L isReadLock name hcovers).trans
      (hmove.entries_other hne L isReadLock name)

/-- The kind of the lock that is held: `lockBlocking` returned true, and `Unlock` was not called. -/
def Phase.held : Phase n → Option Bool
  | .holding isReadLock _ => some isReadLock
  | _ => none

def Holds (info : C → ClientInfo) (s : MutexState C n) (c : C) (isReadLock : Bool)
    (name : String) : Prop :=
  (s.clients c).phase.held = some isReadLock ∧ (info c).covers isReadLock name = true

instance (s : MutexState C n) (c : C) (isReadLock : Bool) (name : String) :
    Decidable (Holds info s c isReadLock name) :=
  inferInstanceAs (Decidable (_ ∧ _))

omit [DecidableEq C] in
lemma MutexInv.quorum_of_holds (hinv : MutexInv info s) {c : C} {isReadLock : Bool}
    {name : String} (h : Holds info s c isReadLock name) :
    ∃ lockers : Finset (Fin n), lockQuorum n isReadLock ≤ lockers.card ∧
      ∀ L ∈ lockers, 0 < (info c).entries isReadLock (s.lockers L) name := by
  obtain ⟨hheld, hcovers⟩ := h
  have hsound := hinv.sound c
  cases hphase : (s.clients c).phase with
  | holding kind locks =>
    rw [hphase] at hheld
    obtain rfl := Option.some.inj hheld
    rw [Client.Sound, hphase] at hsound
    refine ⟨Finset.univ.filter _, hsound.2, fun L hL => ?_⟩
    have hmark : locks L := (Finset.mem_filter.mp hL).2
    refine lt_of_lt_of_le ?_ (hinv.tokens c hsound.1 L kind name hcovers)
    rw [Client.tokens, hphase, Phase.keeps, hmark, beq_self_eq_true]
    exact Nat.succ_pos _
  | idle | collecting | abandoning | unlocking =>
    rw [hphase] at hheld
    cases hheld

lemma quorums_meet {isReadLock : Bool} {A B : Finset (Fin n)}
    (hA : lockQuorum n false ≤ A.card) (hB : lockQuorum n isReadLock ≤ B.card) :
    ∃ L, L ∈ A ∧ L ∈ B := by
  have hcard : (Finset.univ : Finset (Fin n)).card < A.card + B.card := by
    rw [Finset.card_univ, Fintype.card_fin]
    rw [lockQuorum_write] at hA
    cases isReadLock with
    | true =>
      rw [lockQuorum_read] at hB
      omega
    | false =>
      rw [lockQuorum_write] at hB
      omega
  obtain ⟨L, hL⟩ := Finset.inter_nonempty_of_card_lt_card_add_card (Finset.subset_univ A)
    (Finset.subset_univ B) hcard
  exact ⟨L, Finset.mem_inter.mp hL⟩

/-- For every number of lockers and any clients with different UIDs: in every run in which a client
that has unlocked starts to acquire again only when none of its grants waits for a release, no
client holds a lock on a name on which another one holds a write lock. -/
theorem mutual_exclusion (info : C → ClientInfo) (huid : Injective fun c => (info c).uid)
    (events : List (C × MutexEvent n)) (s : MutexState C n)
    (hrun : run (mutexStep info) (.init C n) events = some s)
    (hfresh : Along (mutexStep info) (fun s e => FreshStart (s.clients e.1) e.2) (.init C n) events)
    (c d : C) (hcd : c ≠ d) (isReadLock : Bool) (name : String) (hc : Holds info s c false name) :
    ¬Holds info s d isReadLock name := by
  intro hd
  have hinv : MutexInv info s :=
    run_invariant_along (fun s e s' hs he hstep => mutexInv_step huid hs he hstep) mutexInv_init
      hfresh hrun
  obtain ⟨A, hA, hentriesA⟩ := hinv.quorum_of_holds hc
  obtain ⟨B, hB, hentriesB⟩ := hinv.quorum_of_holds hd
  obtain ⟨L, hLA, hLB⟩ := quorums_meet hA hB
  have hnone : (info d).entries isReadLock (s.lockers L) name = 0 :=
    no_conflict_at (hinv.proper L) (fun heq => hcd (huid heq)) (hentriesA L hLA)
  have hsome := hentriesB L hLB
  rw [hnone] at hsome
  exact lt_irrefl 0 hsome

/-- In these runs a client that holds a lock has an entry for it at a quorum of the lockers. -/
theorem held_at_quorum (info : C → ClientInfo) (huid : Injective fun c => (info c).uid)
    (events : List (C × MutexEvent n)) (s : MutexState C n)
    (hrun : run (mutexStep info) (.init C n) events = some s)
    (hfresh : Along (mutexStep info) (fun s e => FreshStart (s.clients e.1) e.2) (.init C n) events)
    (c : C) (isReadLock : Bool) (name : String) (hc : Holds info s c isReadLock name) :
    ∃ lockers : Finset (Fin n), lockQuorum n isReadLock ≤ lockers.card ∧
      ∀ L ∈ lockers, 0 < (info c).entries isReadLock (s.lockers L) name := by
  have hinv : MutexInv info s :=
    run_invariant_along (fun s e s' hs he hstep => mutexInv_step huid hs he hstep) mutexInv_init
      hfresh hrun
  exact hinv.quorum_of_holds hc

end Runs

/-! ### Two clients of three lockers -/

/-- Two clients of the same names. -/
def twoClients : Bool → ClientInfo
  | false => { uid := "a", names := ["bucket/object", "bucket/other"] }
  | true => { uid := "b", names := ["bucket/object", "bucket/other"] }

section Events

variable {n : ℕ} (c : Bool) (r : ℕ) (lockers : List (Fin n))

/-- The call of round `r` takes effect on the locker, returns and is received. -/
def calls (L : Fin n) : List (Bool × MutexEvent n) :=
  [(c, .acquire r L (.effect 0)), (c, .acquire r L (.answer true)), (c, .receive L)]

/-- Round `r` is answered by these lockers, one after the other, and decided. -/
def acquires : List (Bool × MutexEvent n) :=
  (c, .start false) :: lockers.flatMap (calls c r) ++ [(c, .decide)]

/-- These lockers release without an error, and `releaseAll` has returned. -/
def releases : List (Bool × MutexEvent n) :=
  lockers.flatMap (fun L => [(c, .release L .effect), (c, .release L (.answer true))]) ++
    [(c, .finish)]

def unlocks : List (Bool × MutexEvent n) := (c, .unlock) :: releases c lockers

end Events

/-- Both clients start at once. Client `b` is granted the lock by the last locker, client `a` by the
two others; `a` has its quorum, and `b` gives up. -/
def contested : List (Bool × MutexEvent 3) :=
  [(false, .start false), (true, .start false)] ++ calls true 0 2 ++
    [0, 1, 2].flatMap (calls false 0) ++ [(false, .decide)] ++ [0, 1].flatMap (calls true 0) ++
    [(true, .decide)] ++ releases true [2]

/-- Client `a` unlocks and locks again under its UID, and `b` is kept out. -/
theorem mutual_exclusion_again : ∃ s, run (mutexStep twoClients) (.init Bool 3)
        (contested ++ unlocks false [0, 1] ++ acquires false 1 [0, 1, 2]) = some s ∧
      Holds twoClients s false false "bucket/other" ∧
      ¬Holds twoClients s true false "bucket/other" := by
  have hrun : (run (mutexStep twoClients) (.init Bool 3)
      (contested ++ unlocks false [0, 1] ++ acquires false 1 [0, 1, 2])).map
        (fun s => decide (Holds twoClients s false false "bucket/other")) = some true := by
    decide +kernel
  obtain ⟨s, hs, hholds⟩ := Option.map_eq_some_iff.mp hrun
  have hholds : Holds twoClients s false false "bucket/other" := of_decide_eq_true hholds
  have huid : Injective fun c => (twoClients c).uid := by decide +kernel
  exact ⟨s, hs, hholds, mutual_exclusion twoClients huid _ s hs (by decide +kernel) false true
    Bool.false_ne_true false _ hholds⟩

/-- Two clients contend for one name at three lockers; the one that holds it has two of them. -/
theorem held_at_quorum_of_two : ∃ s, run (mutexStep twoClients) (.init Bool 3) contested = some s ∧
      ∃ lockers : Finset (Fin 3), 2 ≤ lockers.card ∧
        ∀ L ∈ lockers, 0 < (twoClients false).entries false (s.lockers L) "bucket/object" :=
  ⟨_, rfl, held_at_quorum twoClients (by decide) contested _ rfl (by decide +kernel)
    false false "bucket/object" (by decide +kernel)⟩

/-! ### A UID that is used again -/

/-- The first call of client `a` takes long, and its round times out; the second round is granted,
and the lock is held. `Unlock` releases it, but its answer is lost; the first call takes effect, and
the retry of `Unlock` takes its entry. The late grant is about to be released. -/
def lateGrant : List (Bool × MutexEvent 1) :=
  [(false, .start false), (false, .timeout), (false, .decide), (false, .finish)] ++
    acquires false 1 [0] ++
    [(false, .unlock), (false, .release 0 .effect), (false, .release 0 (.answer false)),
      (false, .acquire 0 0 (.effect 0)), (false, .finish)] ++ releases false [0] ++
    [(false, .acquire 0 0 (.answer true)), (false, .acquire 0 0 .late)]

/-- The client acquires the lock again under its UID, and the release of the late grant takes the
entry of the lock that is held. Client `b` is granted the same name. -/
theorem mutual_exclusion_fails_on_reuse : ∃ s, run (mutexStep twoClients) (.init Bool 1)
        (lateGrant ++ acquires false 2 [0] ++ [(false, .acquire 0 0 .lateEffect)] ++
          acquires true 0 [0]) = some s ∧
      Holds twoClients s false false "bucket/object" ∧
      Holds twoClients s true false "bucket/object" := by
  have hrun : (run (mutexStep twoClients) (.init Bool 1)
      (lateGrant ++ acquires false 2 [0] ++ [(false, .acquire 0 0 .lateEffect)] ++
        acquires true 0 [0])).map (fun s => decide (Holds twoClients s false false "bucket/object" ∧
          Holds twoClients s true false "bucket/object")) = some true := by
    decide +kernel
  obtain ⟨s, hs, hholds⟩ := Option.map_eq_some_iff.mp hrun
  exact ⟨s, hs, of_decide_eq_true hholds⟩

end Obstor.Dsync
