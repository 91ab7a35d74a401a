import Obstor.Iam.Groups
import Obstor.Iam.ObjectStore
import Obstor.Lib.Runs

/-!
# When the membership cache is exact

Adding and removing members, deleting a user and reloading one group keep an exact cache exact,
whatever the store answers. `Load` writes the groups it has read over the ones in memory and then
only adds to the cache: a member that has been removed from a group elsewhere stays in it.

`memberships_exact_iff`: along a sequence of calls the cache stays exact exactly when no `Load`
reads a group that has lost a member. There is one lemma `MembershipsExact.*` for each call, and
`MembershipsExact.step_iff` puts them together; `memberships_stale` is the run with two loads.
-/

namespace Obstor.Iam

open Go List
open Lib (Table)

namespace IAMSys

variable {δ σ : Type}

/-! ### What the cache lists -/

/-- The cache `m` lists the group `g` for the user `u`. -/
def Cached (m : Table Text StringSet) (u g : Text) : Prop := ∃ gset, m.lookup u = some gset ∧ g ∈ gset

/-- `iamGroupsMap` lists `u` as a member of `g`. -/
def Listed (groups : Table Text GroupInfo) (u g : Text) : Prop :=
  ∃ gi, groups.lookup g = some gi ∧ u ∈ gi.members

/-- The cache is the inverse of the lists of members. -/
def MembershipsExact (sys : IAMSys δ) : Prop :=
  ∀ u g, Cached sys.iamUserGroupMemberships u g ↔ Listed sys.iamGroupsMap u g

lemma cached_insert (m : Table Text StringSet) (a : Text) (s : StringSet) (u g : Text) :
    Cached (m.insert a s) u g ↔ (u = a ∧ g ∈ s) ∨ (u ≠ a ∧ Cached m u g) := by
  unfold Cached
  rw [Table.lookup_insert_eq]
  by_cases hu : u = a
  · simp [hu]
  · simp [hu]

lemma listed_insert (groups : Table Text GroupInfo) (a : Text) (gi : GroupInfo) (u g : Text) :
    Listed (groups.insert a gi) u g ↔ (g = a ∧ u ∈ gi.members) ∨ (g ≠ a ∧ Listed groups u g) := by
  unfold Listed
  rw [Table.lookup_insert_eq]
  by_cases hg : g = a
  · simp [hg]
  · simp [hg]

lemma listed_erase (groups : Table Text GroupInfo) (a u g : Text) :
    Listed (groups.erase a) u g ↔ g ≠ a ∧ Listed groups u g := by
  unfold Listed
  rw [Table.lookup_erase_eq]
  by_cases hg : g = a
  · simp [hg]
  · simp [hg]

lemma cached_addMembership (group : Text) (m : Table Text StringSet) (a u g : Text) :
    Cached (addMembership group m a) u g ↔ Cached m u g ∨ (u = a ∧ g = group) := by
  unfold addMembership
  split
  next h =>
    rw [cached_insert]
    by_cases hu : u = a
    · subst hu
      simp [Cached, h]
    · simp [hu]
  next gset h =>
    rw [cached_insert]
    by_cases hu : u = a
    · subst hu
      simp [Cached, h, or_comm]
    · simp [hu]

lemma cached_dropMembership (group : Text) (m : Table Text StringSet) (a u g : Text) :
    Cached (dropMembership group m a) u g ↔ Cached m u g ∧ ¬ (u = a ∧ g = group) := by
  unfold dropMembership
  split
  next h =>
    refine ⟨fun hc => ⟨hc, ?_⟩, fun hc => hc.1⟩
    rintro ⟨rfl, -⟩
    obtain ⟨gset, hs, -⟩ := hc
    rw [h] at hs
    exact nomatch hs
  next gset h =>
    rw [cached_insert]
    by_cases hu : u = a
    · subst hu
      simp [Cached, h]
    · simp [hu]

section

variable (group : Text) (members : List Text) (m : Table Text StringSet) (u g : Text)

lemma cached_foldl_addMembership : Cached (members.foldl (addMembership group) m) u g ↔
      Cached m u g ∨ (u ∈ members ∧ g = group) := by
  induction members generalizing m with
  | nil => simp
  | cons a members ih =>
    rw [foldl_cons, ih, cached_addMembership, mem_cons, or_assoc, ← or_and_right]

lemma cached_foldl_dropMembership : Cached (members.foldl (dropMembership group) m) u g ↔
      Cached m u g ∧ ¬ (u ∈ members ∧ g = group) := by
  induction members generalizing m with
  | nil => simp
  | cons a members ih =>
    rw [foldl_cons, ih, cached_dropMembership, mem_cons, or_and_right, not_or, and_assoc]

end

lemma cached_removeGroup (sys : IAMSys δ) (group u g : Text) :
    Cached (sys.removeGroupFromMembershipsMap group).iamUserGroupMemberships u g ↔
      Cached sys.iamUserGroupMemberships u g ∧ g ≠ group := by
  unfold Cached removeGroupFromMembershipsMap
  simp only [Table.lookup_mapVal, Option.map_eq_some_iff]
  constructor
  · rintro ⟨_, ⟨gset, hs, rfl⟩, hg⟩
    split_ifs at hg with hmem
    · obtain ⟨hg, hne⟩ := StringSet.mem_remove.mp hg
      exact ⟨⟨gset, hs, hg⟩, hne⟩
    · exact ⟨⟨gset, hs, hg⟩, fun heq => hmem (heq ▸ hg)⟩
  · rintro ⟨⟨gset, hs, hg⟩, hne⟩
    refine ⟨_, ⟨gset, hs, rfl⟩, ?_⟩
    split_ifs
    · exact StringSet.mem_remove.mpr ⟨hg, hne⟩
    · exact hg

lemma foldl_update_eq (es : List (Text × GroupInfo)) (sys : IAMSys δ) :
    ∃ m, es.foldl (fun sys e => sys.updateGroupMembershipsMap e.1 e.2) sys =
        { sys with iamUserGroupMemberships := m } ∧
      ∀ u g, Cached m u g ↔
        Cached sys.iamUserGroupMemberships u g ∨ ∃ gi, (g, gi) ∈ es ∧ u ∈ gi.members := by
  induction es generalizing sys with
  | nil => exact ⟨sys.iamUserGroupMemberships, rfl, by simp⟩
  | cons e es ih =>
    obtain ⟨group, gi⟩ := e
    obtain ⟨m, hm, hcached⟩ := ih (sys.updateGroupMembershipsMap group gi)
    refine ⟨m, hm, fun u g => ?_⟩
    rw [hcached, updateGroupMembershipsMap, cached_foldl_addMembership, or_assoc]
    refine or_congr_right ⟨?_, ?_⟩
    · rintro (⟨hu, rfl⟩ | ⟨gi', hmem, hu⟩)
      · exact ⟨gi, mem_cons_self, hu⟩
      · exact ⟨gi', mem_cons_of_mem _ hmem, hu⟩
    · rintro ⟨gi', hmem, hu⟩
      rcases mem_cons.mp hmem with heq | hmem
      · cases heq
        exact Or.inl ⟨hu, rfl⟩
      · exact Or.inr ⟨gi', hmem, hu⟩

section

variable (ρ : RangeOrder) (sys : IAMSys δ)

lemma build_eq : ∃ m, sys.buildUserGroupMemberships ρ = { sys with iamUserGroupMemberships := m } ∧
      ∀ u g, Cached m u g ↔
        Cached sys.iamUserGroupMemberships u g ∨ Listed sys.iamGroupsMap u g := by
  obtain ⟨m, hm, hcached⟩ := foldl_update_eq _ sys
  refine ⟨m, hm, fun u g => (hcached u g).trans ?_⟩
  refine or_congr_right (exists_congr fun gi => and_congr_left fun _ => ?_)
  rw [RangeOrder.mem_order, Table.lookup_eq_some_iff]

lemma cached_build (u g : Text) :
    Cached (sys.buildUserGroupMemberships ρ).iamUserGroupMemberships u g ↔
      Cached sys.iamUserGroupMemberships u g ∨ Listed sys.iamGroupsMap u g := by
  obtain ⟨m, hm, hcached⟩ := build_eq ρ sys
  rw [hm]
  exact hcached u g

lemma iamGroupsMap_build : (sys.buildUserGroupMemberships ρ).iamGroupsMap = sys.iamGroupsMap := by
  obtain ⟨m, hm, -⟩ := build_eq ρ sys
  rw [hm]

lemma MembershipsExact.build {sys : IAMSys δ} (h : sys.MembershipsExact) (ρ : RangeOrder) :
    (sys.buildUserGroupMemberships ρ).MembershipsExact := by
  intro u g
  rw [cached_build, iamGroupsMap_build, h u g, or_self]

/-! ### Calls that leave the groups alone -/

/-- The groups and the cache are the same in both states. -/
structure SameGroups (sys sys' : IAMSys δ) : Prop where
  groups : sys'.iamGroupsMap = sys.iamGroupsMap
  memberships : sys'.iamUserGroupMemberships = sys.iamUserGroupMemberships

lemma SameGroups.refl : SameGroups sys sys := ⟨rfl, rfl⟩

end

lemma SameGroups.trans {s₁ s₂ s₃ : IAMSys δ} (h : SameGroups s₁ s₂) (h' : SameGroups s₂ s₃) :
    SameGroups s₁ s₃ :=
  ⟨h'.groups.trans h.groups, h'.memberships.trans h.memberships⟩

lemma SameGroups.exact {sys sys' : IAMSys δ} (h : SameGroups sys sys')
    (hsys : sys.MembershipsExact) : sys'.MembershipsExact := by
  intro u g
  rw [h.groups, h.memberships]
  exact hsys u g

variable (ρ : RangeOrder) (api : IAMStorageAPI δ σ) (now : Time)

lemma sameGroups_loadUserInto (user : Text) (userType : IAMUserType) (sys : IAMSys δ) (st : σ) :
    SameGroups sys (loadUserInto api now user userType sys st).1 := by
  unfold loadUserInto
  split
  · exact ⟨rfl, rfl⟩
  · exact .refl sys

lemma sameGroups_loadUserPolicyInto (name : Text) (userType : IAMUserType) (sys : IAMSys δ)
    (st : σ) : SameGroups sys (loadUserPolicyInto api name userType sys st).1 := by
  unfold loadUserPolicyInto
  split
  · exact ⟨rfl, rfl⟩
  · exact .refl sys

lemma sameGroups_loadDocsInto (policies : List Text) (sys : IAMSys δ) (st : σ) :
    SameGroups sys (loadDocsInto api policies sys st).1 := by
  induction policies generalizing sys st with
  | nil => exact .refl sys
  | cons policy policies ih =>
    rw [loadDocsInto]
    split
    · exact ih sys st
    · split
      next p st' _ =>
        have hinsert : SameGroups sys { sys with
          iamPolicyDocsMap := sys.iamPolicyDocsMap.insert policy p } := ⟨rfl, rfl⟩
        exact hinsert.trans (ih _ st')
      · exact ih sys _

lemma sameGroups_findUser (accessKey : Text) (sys : IAMSys δ) (st : σ) :
    SameGroups sys (findUser api now accessKey sys st).1 := by
  have hregular := sameGroups_loadUserInto api now accessKey .regularUser sys st
  unfold findUser
  generalize loadUserInto api now accessKey .regularUser sys st = s at hregular ⊢
  obtain ⟨sys₁, st₁⟩ := s
  dsimp only at hregular ⊢
  split
  · exact hregular.trans (sameGroups_loadUserPolicyInto api accessKey .regularUser sys₁ st₁)
  · have hsvc := hregular.trans (sameGroups_loadUserInto api now accessKey .srvAccUser sys₁ st₁)
    generalize loadUserInto api now accessKey .srvAccUser sys₁ st₁ = s at hsvc ⊢
    obtain ⟨sys₂, st₂⟩ := s
    split
    next svc _ =>
      refine SameGroups.trans ?_ (sameGroups_loadUserPolicyInto api _ .regularUser _ _)
      split_ifs
      · exact hsvc.trans (sameGroups_loadUserInto api now _ .regularUser sys₂ st₂)
      · exact hsvc
    · have hsts := hsvc.trans (sameGroups_loadUserInto api now accessKey .stsUser sys₂ st₂)
      generalize loadUserInto api now accessKey .stsUser sys₂ st₂ = s at hsts ⊢
      obtain ⟨sys₃, st₃⟩ := s
      split
      · exact hsts.trans (sameGroups_loadUserPolicyInto api accessKey .stsUser sys₃ st₃)
      · exact hsts

lemma MembershipsExact.loadUserFromStore {sys : IAMSys δ} (h : sys.MembershipsExact)
    (accessKey : Text) (st : σ) :
    (loadUserFromStore ρ api now accessKey sys st).1.MembershipsExact := by
  refine MembershipsExact.build ?_ ρ
  refine (sameGroups_loadDocsInto api _ _ _).exact ?_
  split
  · exact h
  · exact (sameGroups_findUser api now accessKey sys st).exact h

lemma MembershipsExact.getUserInfo {sys : IAMSys δ} (h : sys.MembershipsExact) (name : Text)
    (st : σ) : (getUserInfo ρ api now name sys st).1.1.MembershipsExact := by
  have hsys : (if sys.configLoaded = true then (sys, st)
      else IAMSys.loadUserFromStore ρ api now name sys st).1.MembershipsExact := by
    split_ifs
    · exact h
    · exact h.loadUserFromStore ρ api now name st
  unfold IAMSys.getUserInfo
  generalize (if sys.configLoaded = true then (sys, st)
    else IAMSys.loadUserFromStore ρ api now name sys st) = s at hsys ⊢
  dsimp only at hsys ⊢
  split_ifs
  · exact hsys
  · exact hsys
  · split
    · exact hsys
    · split_ifs
      · exact hsys
      · exact hsys

lemma sameGroups_rangeUsers {body : IAMSys δ × σ → Credentials → IAMSys δ × σ}
    (hbody : ∀ s u, SameGroups s.1 (body s u).1) (s : IAMSys δ × σ) :
    SameGroups s.1 (rangeUsers ρ body s).1 := by
  unfold rangeUsers
  generalize ρ.order Text s.1.iamUsersMap.keys = ks
  induction ks generalizing s with
  | nil => exact .refl s.1
  | cons k ks ih =>
    rw [foldl_cons]
    refine SameGroups.trans ?_ (ih _)
    split
    · exact .refl s.1
    · exact hbody s _

lemma sameGroups_deleteChild (accessKey : Text) (s : IAMSys δ × σ) (u : Credentials) :
    SameGroups s.1 (deleteChild api accessKey s u).1 := by
  unfold deleteChild
  split_ifs <;> exact ⟨rfl, rfl⟩

lemma sameGroups_purgeChild (expiredEntries : List Text) (s : IAMSys δ × σ) (v : Credentials) :
    SameGroups s.1 (purgeChild api expiredEntries s v).1 := by
  unfold purgeChild
  split_ifs <;> exact ⟨rfl, rfl⟩

lemma sameGroups_deleteUserEntries (accessKey : Text) (sys : IAMSys δ) (st : σ) :
    SameGroups sys (deleteUserEntries ρ api accessKey sys st).1.1 :=
  (sameGroups_rangeUsers ρ (sameGroups_deleteChild api accessKey) (sys, st)).trans ⟨rfl, rfl⟩

/-! ### Calls that keep an exact cache exact -/

section

variable {sys : IAMSys δ} (h : sys.MembershipsExact)

include h

lemma MembershipsExact.addUsersToGroup (group : Text) (members : List Text) (st : σ) :
    (addUsersToGroup api group members sys st).1.1.MembershipsExact := by
  unfold IAMSys.addUsersToGroup
  split_ifs
  · exact h
  · exact h
  · split
    · exact h
    · dsimp only
      split
      · exact h
      · intro u g
        rw [cached_foldl_addMembership, listed_insert, h u g]
        by_cases hg : g = group
        · subst hg
          -- the members of the saved group are the old ones and the new ones
          unfold Listed
          split <;> simp_all [newGroupInfo]
        · simp [hg]

section

variable {group : Text} {gi : GroupInfo} (hgi : sys.iamGroupsMap.lookup group = some gi)

include hgi

lemma MembershipsExact.removeGroup (hempty : gi.members = [])
    (st : σ) : (removeGroup api group sys st).1.1.MembershipsExact := by
  unfold IAMSys.removeGroup
  obtain ⟨res, st₁⟩ := api.deleteMappedPolicy group .regularUser true st
  dsimp only
  split
  · exact h
  obtain ⟨res, st₂⟩ := api.deleteGroupInfo group st₁
  dsimp only
  split
  · exact h
  intro u g
  rw [listed_erase, h u g, iff_and_self]
  -- the group that goes has no members
  rintro ⟨gi', hgi', hu⟩ rfl
  rw [hgi] at hgi'
  obtain rfl := Option.some.inj hgi'
  rw [hempty] at hu
  exact not_mem_nil hu

lemma MembershipsExact.removeMembers (members : List Text) (st : σ) :
    (removeMembers api group gi members sys st).1.1.MembershipsExact := by
  unfold IAMSys.removeMembers
  dsimp only
  split
  · exact h
  · intro u g
    rw [cached_foldl_dropMembership, listed_insert, h u g]
    by_cases hg : g = group
    · subst hg
      simp [Listed, hgi]
    · simp [hg]

end

lemma MembershipsExact.removeUsersFromGroup (group : Text) (members : List Text) (st : σ) :
    (removeUsersFromGroup api group members sys st).1.1.MembershipsExact := by
  unfold IAMSys.removeUsersFromGroup
  by_cases hsys : sys.usersSysType ≠ .obstorUsersSysType
  · rw [if_pos hsys]
    exact h
  rw [if_neg hsys]
  by_cases hgroup : group = []
  · rw [if_pos hgroup]
    exact h
  rw [if_neg hgroup]
  split
  · exact h
  · split
    · exact h
    next gi hgi =>
      split_ifs with hmembers hempty
      · exact h
      · exact h.removeGroup api hgi (not_not.mp hempty) st
      · exact h.removeMembers api hgi members st

lemma MembershipsExact.removeFromGroups (accessKey : Text) (groups : List Text) (st : σ) :
    (removeFromGroups api accessKey groups sys st).1.1.MembershipsExact := by
  induction groups generalizing sys st with
  | nil => exact h
  | cons group groups ih =>
    have hstep := h.removeUsersFromGroup api group [accessKey] st
    rw [IAMSys.removeFromGroups]
    generalize IAMSys.removeUsersFromGroup api group [accessKey] sys st = r at hstep ⊢
    obtain ⟨⟨sys', st'⟩, _ | err⟩ := r
    · exact ih hstep st'
    · exact hstep

lemma MembershipsExact.deleteUser (accessKey : Text)
    (st : σ) : (deleteUser ρ api now accessKey sys st).1.1.MembershipsExact := by
  unfold IAMSys.deleteUser
  split_ifs
  · exact h
  · have hinfo := h.getUserInfo ρ api now accessKey st
    generalize IAMSys.getUserInfo ρ api now accessKey sys st = r at hinfo ⊢
    obtain ⟨⟨sys₁, st₁⟩, err | info⟩ := r
    · exact hinfo
    · have hremoved := hinfo.removeFromGroups api accessKey info.memberOf st₁
      dsimp only
      generalize IAMSys.removeFromGroups api accessKey info.memberOf sys₁ st₁ = r at hremoved ⊢
      obtain ⟨⟨sys₂, st₂⟩, _ | err⟩ := r
      · exact (sameGroups_deleteUserEntries ρ api accessKey sys₂ st₂).exact hremoved
      · exact hremoved

lemma MembershipsExact.loadGroup (etcd : Bool)
    (group : Text) (st : σ) : (loadGroup etcd api group sys st).1.1.MembershipsExact := by
  unfold IAMSys.loadGroup
  split_ifs
  · exact h
  · split
    · split_ifs
      · exact h
      · intro u g
        rw [cached_removeGroup, h u g, and_comm]
        exact (listed_erase _ _ _ _).symm
    next gi st' _ =>
      intro u g
      dsimp only [updateGroupMembershipsMap]
      rw [cached_foldl_addMembership, cached_removeGroup, h u g]
      refine Iff.trans ?_ (listed_insert _ _ _ _ _).symm
      tauto

end

/-! ### Load -/

section

variable (loaded : Loaded δ) (sys : IAMSys δ) (st : σ)

lemma sameGroups_mergeUsers : SameGroups sys (mergeUsers ρ api now loaded sys st).1 := by
  have hpurge : ∀ es s, SameGroups sys s.1 →
      SameGroups sys ((rangeUsers ρ (purgeChild api es) s).1.purgeExpired now) := by
    intro es s hs
    exact (hs.trans (sameGroups_rangeUsers ρ (sameGroups_purgeChild api es) s)).trans ⟨rfl, rfl⟩
  exact hpurge _ _ ⟨rfl, rfl⟩

lemma iamGroupsMap_merge :
    (merge ρ api now loaded sys st).1.iamGroupsMap = loaded.iamGroupsMap ∪ sys.iamGroupsMap := by
  have hsame := sameGroups_mergeUsers ρ api now loaded sys st
  unfold merge
  generalize mergeUsers ρ api now loaded sys st = s at hsame ⊢
  rw [iamGroupsMap_build, hsame.groups]

lemma cached_merge (u g : Text) :
    Cached (merge ρ api now loaded sys st).1.iamUserGroupMemberships u g ↔
      Cached sys.iamUserGroupMemberships u g ∨
        Listed (loaded.iamGroupsMap ∪ sys.iamGroupsMap) u g := by
  have hsame := sameGroups_mergeUsers ρ api now loaded sys st
  unfold merge
  generalize mergeUsers ρ api now loaded sys st = s at hsame ⊢
  rw [cached_build, hsame.groups, hsame.memberships]

/-- No group that was read has lost a member that is in memory. -/
def KeepsMembers (loaded : Table Text GroupInfo) (groups : Table Text GroupInfo) : Prop :=
  ∀ g gi gi', loaded.lookup g = some gi → groups.lookup g = some gi' → gi'.members ⊆ gi.members

lemma keepsMembers_iff (loaded groups : Table Text GroupInfo) :
    KeepsMembers loaded groups ↔ ∀ u g, Listed groups u g → Listed (loaded ∪ groups) u g := by
  unfold Listed
  simp only [Table.lookup_union_eq]
  constructor
  · rintro hkeeps u g ⟨gi', hgi', hu⟩
    rcases hl : loaded.lookup g with _ | gi
    · exact ⟨gi', by rw [Option.none_or, hgi'], hu⟩
    · exact ⟨gi, Option.some_or, hkeeps g gi gi' hl hgi' hu⟩
  · intro hlisted g gi gi' hl hgi' u hu
    obtain ⟨gi'', heq, hu⟩ := hlisted u g ⟨gi', hgi', hu⟩
    rw [hl] at heq
    cases heq
    exact hu

lemma MembershipsExact.merge_iff {sys : IAMSys δ} (h : sys.MembershipsExact) (loaded : Loaded δ)
    (st : σ) :
    (merge ρ api now loaded sys st).1.MembershipsExact ↔
      KeepsMembers loaded.iamGroupsMap sys.iamGroupsMap := by
  rw [keepsMembers_iff]
  refine forall_congr' fun u => forall_congr' fun g => ?_
  rw [cached_merge, iamGroupsMap_merge, h u g, or_iff_right_iff_imp]

/-! ### What the cache is for -/

/-- `policyDBGet` grants a user the policies of the enabled groups that list them as a member, and
of no other group. -/
def GrantsToMembers : Prop :=
  ∀ name policy, policy ∈ sys.groupPolicies name ↔
    ∃ group gi, sys.iamGroupsMap.lookup group = some gi ∧ gi.status ≠ statusDisabled ∧
      name ∈ gi.members ∧ policy ∈ policiesOf sys.iamGroupPolicyMap group

end

lemma MembershipsExact.grantsToMembers {sys : IAMSys δ} (h : sys.MembershipsExact) :
    sys.GrantsToMembers := by
  intro name policy
  have hcached : ∀ group, group ∈ ((sys.iamUserGroupMemberships.lookup name).getD []).toSlice ↔
      Listed sys.iamGroupsMap name group := by
    intro group
    rw [← h name group, Cached]
    rcases sys.iamUserGroupMemberships.lookup name with _ | gset
    · simp
    · simp
  unfold groupPolicies
  rw [mem_flatMap]
  constructor
  · rintro ⟨group, hgroup, hp⟩
    obtain ⟨gi, hgi, hmem⟩ := (hcached group).mp hgroup
    rw [hgi] at hp
    dsimp only at hp
    split_ifs at hp with hstatus
    · exact absurd hp not_mem_nil
    · exact ⟨group, gi, hgi, hstatus, hmem, hp⟩
  · rintro ⟨group, gi, hgi, hstatus, hmem, hp⟩
    refine ⟨group, (hcached group).mpr ⟨gi, hgi, hmem⟩, ?_⟩
    rw [hgi]
    dsimp only
    rw [if_neg hstatus]
    exact hp

/-! ### Runs -/

/-- The calls that change the groups or the cache. -/
inductive GroupCall
  | addUsersToGroup (group : Text) (members : List Text)
  | removeUsersFromGroup (group : Text) (members : List Text)
  | deleteUser (accessKey : Text)
  | loadGroup (group : Text)
  | load

/-- A call at a time, with one of the orders of the maps; the store is in the state `store`,
whatever other servers have saved there. -/
structure GroupEvent (σ : Type) where
  call : GroupCall
  order : ℕ
  now : Time
  store : σ

variable (orders : ℕ → RangeOrder) (canned : CannedPolicies δ) (etcd : Bool)

/-- The server after a call, failed or not. -/
def groupStep (sys : IAMSys δ) (e : GroupEvent σ) : IAMSys δ :=
  match e.call with
  | .addUsersToGroup group members => (addUsersToGroup api group members sys e.store).1.1
  | .removeUsersFromGroup group members => (removeUsersFromGroup api group members sys e.store).1.1
  | .deleteUser accessKey => (deleteUser (orders e.order) api e.now accessKey sys e.store).1.1
  | .loadGroup group => (loadGroup etcd api group sys e.store).1.1
  | .load => (load (orders e.order) canned api e.now sys e.store).1.1

/-- A `Load` does not read a group from the store that has lost a member it has in memory. -/
def LosesNoMember (sys : IAMSys δ) (e : GroupEvent σ) : Prop :=
  match e.call with
  | .load => ∀ loaded st,
      readAll canned api e.now (sys.usersSysType = .obstorUsersSysType) e.store = (.ok loaded, st) →
      KeepsMembers loaded.iamGroupsMap sys.iamGroupsMap
  | _ => True

lemma MembershipsExact.load_iff {sys : IAMSys δ} (h : sys.MembershipsExact) (st : σ) :
    (load ρ canned api now sys st).1.1.MembershipsExact ↔ ∀ loaded st',
      readAll canned api now (sys.usersSysType = .obstorUsersSysType) st = (.ok loaded, st') →
      KeepsMembers loaded.iamGroupsMap sys.iamGroupsMap := by
  unfold IAMSys.load
  generalize readAll canned api now (sys.usersSysType = .obstorUsersSysType) st = r
  obtain ⟨err | loaded, st'⟩ := r
  · exact iff_of_true h fun _ _ heq => nomatch heq
  · rw [h.merge_iff ρ api now loaded st']
    constructor
    · rintro hkeeps _ _ ⟨⟩
      exact hkeeps
    · intro hkeeps
      exact hkeeps loaded st' rfl

/-- One call keeps an exact cache exact if and only if it loses no member. -/
lemma MembershipsExact.step_iff {sys : IAMSys δ} (h : sys.MembershipsExact) (e : GroupEvent σ) :
    (groupStep api orders canned etcd sys e).MembershipsExact ↔ LosesNoMember api canned sys e := by
  obtain ⟨call, n, now, st⟩ := e
  cases call with
  | addUsersToGroup group members =>
    exact iff_of_true (h.addUsersToGroup api group members st) trivial
  | removeUsersFromGroup group members =>
    exact iff_of_true (h.removeUsersFromGroup api group members st) trivial
  | deleteUser accessKey => exact iff_of_true (h.deleteUser (orders n) api now accessKey st) trivial
  | loadGroup group => exact iff_of_true (h.loadGroup api etcd group st) trivial
  | load => exact h.load_iff (orders n) api now canned st

/-- From an exact cache, the cache stays exact after every call of a sequence, so that group
policies are granted to members only, exactly when no `Load` of the sequence reads a group that has
lost a member. -/
theorem memberships_exact_iff {sys : IAMSys δ} (h : sys.MembershipsExact)
    (events : List (GroupEvent σ)) :
    (∀ sys', Lib.Visits (fun sys e => some (groupStep api orders canned etcd sys e)) sys events sys' →
      sys'.MembershipsExact ∧ sys'.GrantsToMembers) ↔
    Lib.Along (fun sys e => some (groupStep api orders canned etcd sys e)) (LosesNoMember api canned) sys
      events := by
  have htotal : ∀ (sys : IAMSys δ) (e : GroupEvent σ),
      ∃ sys', (fun sys e => some (groupStep api orders canned etcd sys e)) sys e = some sys' :=
    fun sys e => ⟨_, rfl⟩
  obtain ⟨t, hrun⟩ := Lib.exists_run htotal sys events
  refine Iff.trans (forall₂_congr fun sys' _ => and_iff_left_of_imp fun h => h.grantsToMembers)
    (Lib.forall_visits_iff_along (fun _ _ _ _ _ => trivial) ?_ trivial h hrun)
  rintro sys e _ - hexact ⟨⟩
  exact hexact.step_iff api orders canned etcd e

lemma membershipsExact_newIAMSys (usersSysType : UsersSysType) :
    (newIAMSys usersSysType : IAMSys δ).MembershipsExact := by
  intro u g
  constructor
  · rintro ⟨gset, h, -⟩
    exact nomatch h
  · rintro ⟨gi, h, -⟩
    exact nomatch h

/-! ### A member that is removed elsewhere -/

/-- The store of `staleEvents`: one user, one mapped policy for one group with the given members. -/
def staffStore (members : List Text) : Store Unit :=
  (pairs members).foldl (fun st p => match p.1 with
    | some name => st.insert name p.2
    | none => st) ∅
where
  pairs (members : List Text) : List (Option ObjectName × Config Unit) :=
    [(getUserIdentityPath "alice".toList .regularUser, .user (newUserIdentity
          { accessKey := "alice".toList, secretKey := "alice-secret".toList, status := accountOn })),
      (getGroupInfoPath "staff".toList, .group (newGroupInfo members)),
      (getMappedPolicyPath "staff".toList .regularUser true,
        .mapped (newMappedPolicy "readwrite".toList))]

/-- The server loads a group with one member; the member is removed elsewhere; it loads again. -/
def staleEvents : List (GroupEvent (Store Unit)) :=
  [⟨.load, 0, Time.unix 1, staffStore ["alice".toList]⟩, ⟨.load, 0, Time.unix 2, staffStore []⟩]

/-- The server loads the group, removes its member, and loads it again. -/
def removeEvents : List (GroupEvent (Store Unit)) :=
  [⟨.load, 0, Time.unix 1, staffStore ["alice".toList]⟩,
    ⟨.removeUsersFromGroup "staff".toList ["alice".toList], 0, Time.unix 2,
      staffStore ["alice".toList]⟩,
    ⟨.load, 0, Time.unix 3, staffStore []⟩]

/-- A member that this server removes is not missed by its next `Load`. -/
theorem memberships_exact_iff_removed :
    (newIAMSys .obstorUsersSysType : IAMSys Unit).MembershipsExact ∧
      ∀ sys', Lib.Visits (fun sys e => some (groupStep (iamObjectStore Unit) (fun _ => .inOrder)
          ⟨(), (), (), (), ()⟩ false sys e)) (newIAMSys .obstorUsersSysType) removeEvents sys' →
        sys'.MembershipsExact ∧ sys'.GrantsToMembers := by
  refine ⟨membershipsExact_newIAMSys _, ?_⟩
  refine (memberships_exact_iff _ _ _ false (membershipsExact_newIAMSys _) _).mpr ⟨?_, ?_⟩
  · intro loaded st _ g gi gi' _ hgi'
    exact nomatch hgi'
  · rintro _ ⟨⟩
    refine ⟨trivial, ?_⟩
    rintro sys hsys
    refine ⟨fun loaded st _ g gi gi' _ hgi' => ?_, fun _ _ => trivial⟩
    have hempty : ∀ e ∈ sys.iamGroupsMap.toList, e.2.members = [] := by
      obtain rfl := Option.some.inj hsys
      decide +kernel
    rw [hempty _ (Table.lookup_eq_some_iff.mp hgi')]
    exact nil_subset _

/-- After the second `Load` the group has no member, but its former member still gets its policy. -/
theorem memberships_stale : ∃ sys : IAMSys Unit,
    Lib.Visits (fun sys e => some (groupStep (iamObjectStore Unit) (fun _ => .inOrder)
        ⟨(), (), (), (), ()⟩ false sys e)) (newIAMSys .obstorUsersSysType) staleEvents sys ∧
      ¬ sys.MembershipsExact ∧
      sys.iamGroupsMap.lookup "staff".toList = some (newGroupInfo []) ∧
      policyDBGet id (Time.unix 3) sys "alice".toList false = .ok ["readwrite".toList] := by
  refine ⟨_, ⟨staleEvents, [], rfl, rfl⟩, ?_, by decide +kernel, by decide +kernel⟩
  intro h
  obtain ⟨gi, hgi, hmem⟩ := (h "alice".toList "staff".toList).mp
    ⟨["staff".toList], by decide +kernel, by decide +kernel⟩
  have hgi' : some gi = some (newGroupInfo []) := hgi.symm.trans (by decide +kernel)
  obtain rfl := Option.some.inj hgi'
  exact not_mem_nil hmem

end IAMSys

end Obstor.Iam
