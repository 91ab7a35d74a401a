import Obstor.Iam.State

/-!
# Groups and the membership cache

`IAMSys.AddUsersToGroup`, `RemoveUsersFromGroup`, `DeleteUser`, `LoadGroup` and `Load`
(`cmd/iam.go`), with what they call. `iamUserGroupMemberships` is the inverse of the member lists
in `iamGroupsMap`; `policyDBGet` reads it to find the groups whose policies a user gets.

A call returns the server and the store after it, and its error; a nil error is `none`. The store is
set (`Initialized`). `ρ` is the order of the `range` loops over maps.
-/

namespace Obstor.Iam

open Go
open Lib (Table)

variable {δ σ : Type}

abbrev Outcome (δ σ : Type) := (IAMSys δ × σ) × Option Err

/-- The error of a call of which the error `e` is ignored. -/
def ignoring (e : Err) : Except Err Unit → Option Err
  | .ok _ => none
  | .error err => if err = e then none else some err

namespace IAMSys

/-! ### The membership cache -/

/-- One member of `updateGroupMembershipsMap`; `AddUsersToGroup` ends in the same loop. -/
def addMembership (group : Text) (m : Table Text StringSet) (member : Text) :
    Table Text StringSet :=
  match m.lookup member with
  | none => m.insert member (StringSet.create [group])
  | some gset => m.insert member (gset.add group)

/-- One member of the loop that ends `RemoveUsersFromGroup`. -/
def dropMembership (group : Text) (m : Table Text StringSet) (member : Text) :
    Table Text StringSet :=
  match m.lookup member with
  | none => m
  | some gset => m.insert member (gset.remove group)

def updateGroupMembershipsMap (sys : IAMSys δ) (group : Text) (gi : GroupInfo) : IAMSys δ :=
  { sys with
    iamUserGroupMemberships := gi.members.foldl (addMembership group) sys.iamUserGroupMemberships }

def buildUserGroupMemberships (ρ : RangeOrder) (sys : IAMSys δ) : IAMSys δ :=
  (ρ.order _ sys.iamGroupsMap.toList).foldl (fun sys e => sys.updateGroupMembershipsMap e.1 e.2) sys

def removeGroupFromMembershipsMap (sys : IAMSys δ) (group : Text) : IAMSys δ :=
  { sys with
    iamUserGroupMemberships := sys.iamUserGroupMemberships.mapVal fun groups =>
      if group ∈ groups then groups.remove group else groups }

/-! ### Adding and removing members -/

def validateMembers (sys : IAMSys δ) : List Text → Option Err
  | [] => none
  | member :: members =>
    match sys.iamUsersMap.lookup member with
    | none => some errNoSuchUser
    | some cr => if cr.isTemp then some errIAMActionNotAllowed else sys.validateMembers members

section

variable (api : IAMStorageAPI δ σ) (group : Text) (members : List Text) (sys : IAMSys δ)

def addUsersToGroup (st : σ) : Outcome δ σ :=
  if group = [] then ((sys, st), some errInvalidArgument)
  else if sys.usersSysType ≠ .obstorUsersSysType then ((sys, st), some errIAMActionNotAllowed)
  else
    match sys.validateMembers members with
    | some err => ((sys, st), some err)
    | none =>
      let gi : GroupInfo :=
        match sys.iamGroupsMap.lookup group with
        | none => newGroupInfo members
        | some gi => { gi with members := (StringSet.create (gi.members ++ members)).toSlice }
      match api.saveGroupInfo group gi st with
      | (.error err, st) => ((sys, st), some err)
      | (.ok _, st) =>
        (({ sys with
            iamGroupsMap := sys.iamGroupsMap.insert group gi
            iamUserGroupMemberships :=
              members.foldl (addMembership group) sys.iamUserGroupMemberships }, st), none)

/-- The part of `RemoveUsersFromGroup` that deletes a group without members: first its mapped
policy, then the group. -/
def removeGroup (st : σ) : Outcome δ σ :=
  match api.deleteMappedPolicy group .regularUser true st with
  | (res, st) =>
    match ignoring errNoSuchPolicy res with
    | some err => ((sys, st), some err)
    | none =>
      match api.deleteGroupInfo group st with
      | (res, st) =>
        match ignoring errNoSuchGroup res with
        | some err => ((sys, st), some err)
        | none =>
          (({ sys with
              iamGroupsMap := sys.iamGroupsMap.erase group
              iamGroupPolicyMap := sys.iamGroupPolicyMap.erase group }, st), none)

/-- The part of `RemoveUsersFromGroup` that only removes members. -/
def removeMembers (gi : GroupInfo) (members : List Text) (sys : IAMSys δ) (st : σ) : Outcome δ σ :=
  let gi : GroupInfo :=
    { gi with
      members := ((StringSet.create gi.members).difference (StringSet.create members)).toSlice }
  match api.saveGroupInfo group gi st with
  | (.error err, st) => ((sys, st), some err)
  | (.ok _, st) =>
    (({ sys with
        iamGroupsMap := sys.iamGroupsMap.insert group gi
        iamUserGroupMemberships :=
          members.foldl (dropMembership group) sys.iamUserGroupMemberships }, st), none)

def removeUsersFromGroup (st : σ) : Outcome δ σ :=
  if sys.usersSysType ≠ .obstorUsersSysType then ((sys, st), some errIAMActionNotAllowed)
  else if group = [] then ((sys, st), some errInvalidArgument)
  else
    match sys.validateMembers members with
    | some err => ((sys, st), some err)
    | none =>
      match sys.iamGroupsMap.lookup group with
      | none => ((sys, st), some errNoSuchGroup)
      | some gi =>
        if members = [] then
          if gi.members ≠ [] then ((sys, st), some errGroupNotEmpty)
          else removeGroup api group sys st
        else removeMembers api group gi members sys st

/-! ### Reading one user from the store -/

/-- `store.loadUser` into the map of the users, its error ignored. -/
def loadUserInto (now : Time) (user : Text) (userType : IAMUserType)
    (sys : IAMSys δ) (st : σ) : IAMSys δ × σ :=
  match api.loadUser now user userType st with
  | (.ok (some cred), st) => ({ sys with iamUsersMap := sys.iamUsersMap.insert user cred }, st)
  | (_, st) => (sys, st)

/-- `store.loadMappedPolicy` into the map of the users' policies, its error ignored. -/
def loadUserPolicyInto (name : Text) (userType : IAMUserType)
    (sys : IAMSys δ) (st : σ) : IAMSys δ × σ :=
  match api.loadMappedPolicy name userType false st with
  | (.ok mp, st) => ({ sys with iamUserPolicyMap := sys.iamUserPolicyMap.insert name mp }, st)
  | (_, st) => (sys, st)

/-- `store.loadPolicyDoc` for the documents that are missing, errors ignored. -/
def loadDocsInto (api : IAMStorageAPI δ σ) : List Text → IAMSys δ → σ → IAMSys δ × σ
  | [], sys, st => (sys, st)
  | policy :: policies, sys, st =>
    match sys.iamPolicyDocsMap.lookup policy with
    | some _ => loadDocsInto api policies sys st
    | none =>
      match api.loadPolicyDoc policy st with
      | (.ok p, st) =>
        loadDocsInto api policies
          { sys with iamPolicyDocsMap := sys.iamPolicyDocsMap.insert policy p } st
      | (_, st) => loadDocsInto api policies sys st

/-- The part of `loadUserFromStore` for a user that is not in memory: a regular user, else a
service account with its parent, else an STS user. -/
def findUser (now : Time) (accessKey : Text) (sys : IAMSys δ) (st : σ) :
    IAMSys δ × σ :=
  match loadUserInto api now accessKey .regularUser sys st with
  | (sys, st) =>
    match sys.iamUsersMap.lookup accessKey with
    | some _ => loadUserPolicyInto api accessKey .regularUser sys st
    | none =>
      match loadUserInto api now accessKey .srvAccUser sys st with
      | (sys, st) =>
        match sys.iamUsersMap.lookup accessKey with
        | some svc =>
          match
            if sys.usersSysType = .obstorUsersSysType then
              loadUserInto api now svc.parentUser .regularUser sys st
            else (sys, st)
          with
          | (sys, st) => loadUserPolicyInto api svc.parentUser .regularUser sys st
        | none =>
          match loadUserInto api now accessKey .stsUser sys st with
          | (sys, st) =>
            match sys.iamUsersMap.lookup accessKey with
            | some _ => loadUserPolicyInto api accessKey .stsUser sys st
            | none => (sys, st)

end

section

variable (ρ : RangeOrder) (api : IAMStorageAPI δ σ) (now : Time) (accessKey : Text)

def loadUserFromStore (sys : IAMSys δ) (st : σ) : IAMSys δ × σ :=
  match
    match sys.iamUsersMap.lookup accessKey with
    | some _ => (sys, st)
    | none => findUser api now accessKey sys st
  with
  | (sys, st) =>
    match loadDocsInto api (policiesOf sys.iamUserPolicyMap accessKey) sys st with
    | (sys, st) => (sys.buildUserGroupMemberships ρ, st)

/-- `madmin.UserInfo` as far as `GetUserInfo` fills it in; `enabled` is the account status. -/
structure UserInfo where
  policyName : Text
  enabled : Option Bool
  memberOf : List Text
  deriving DecidableEq

/-- `GetUserInfo`. Only a server that has not loaded its configuration reads the store. -/
def getUserInfo (name : Text) (sys : IAMSys δ) (st : σ) : (IAMSys δ × σ) × Except Err UserInfo :=
  match if sys.configLoaded then (sys, st) else loadUserFromStore ρ api now name sys st with
  | (sys, st) =>
    let mapped := sys.iamUserPolicyMap.lookup name
    let memberships := sys.iamUserGroupMemberships.lookup name
    let policyName := (mapped.getD ⟨0, []⟩).policies
    let memberOf := (memberships.getD []).toSlice
    if sys.usersSysType ≠ .obstorUsersSysType then
      if mapped.isNone && memberships.isNone then ((sys, st), .error errNoSuchUser)
      else ((sys, st), .ok ⟨policyName, none, memberOf⟩)
    else
      match sys.iamUsersMap.lookup name with
      | none => ((sys, st), .error errNoSuchUser)
      | some cred =>
        if cred.isTemp || cred.isServiceAccount then ((sys, st), .error errIAMActionNotAllowed)
        else ((sys, st), .ok ⟨policyName, some (cred.isValid now), memberOf⟩)

/-! ### Deleting a user -/

/-- The loop of `DeleteUser` that takes the user out of their groups; it stops at an error. -/
def removeFromGroups (api : IAMStorageAPI δ σ) (accessKey : Text) :
    List Text → IAMSys δ → σ → Outcome δ σ
  | [], sys, st => ((sys, st), none)
  | group :: groups, sys, st =>
    match removeUsersFromGroup api group [accessKey] sys st with
    | (s, some err) => (s, some err)
    | ((sys, st), none) => removeFromGroups api accessKey groups sys st

/-- One identity is deleted from the store, whatever its error, and from the map of the users. -/
def deleteIdentity (userType : IAMUserType) (s : IAMSys δ × σ) : IAMSys δ × σ :=
  ({ s.1 with iamUsersMap := s.1.iamUsersMap.erase accessKey },
    (api.deleteUserIdentity accessKey userType s.2).2)

/-- `for _, u := range sys.iamUsersMap`, with a body that may delete users: one that is deleted
before the loop comes to it is not visited. -/
def rangeUsers (body : IAMSys δ × σ → Credentials → IAMSys δ × σ)
    (s : IAMSys δ × σ) : IAMSys δ × σ :=
  (ρ.order _ s.1.iamUsersMap.keys).foldl
    (fun s k =>
      match s.1.iamUsersMap.lookup k with
      | none => s
      | some u => body s u) s

/-- One user of the loop of `DeleteUser` that deletes the service accounts and the STS users of
`accessKey`. -/
def deleteChild (s : IAMSys δ × σ) (u : Credentials) : IAMSys δ × σ :=
  let s :=
    if u.isServiceAccount && u.parentUser = accessKey then deleteIdentity api u.accessKey .srvAccUser s
    else s
  if u.isTemp && u.parentUser = accessKey then deleteIdentity api u.accessKey .stsUser s else s

/-- `DeleteUser` behind the removal from the groups. -/
def deleteUserEntries (sys : IAMSys δ) (st : σ) : Outcome δ σ :=
  match rangeUsers ρ (deleteChild api accessKey) (sys, st) with
  | (sys, st) =>
    match api.deleteMappedPolicy accessKey .regularUser false st with
    | (_, st) =>
      match api.deleteUserIdentity accessKey .regularUser st with
      | (res, st) =>
        (({ sys with
            iamUsersMap := sys.iamUsersMap.erase accessKey
            iamUserPolicyMap := sys.iamUserPolicyMap.erase accessKey }, st),
          ignoring errNoSuchUser res)

def deleteUser (sys : IAMSys δ) (st : σ) : Outcome δ σ :=
  if sys.usersSysType ≠ .obstorUsersSysType then ((sys, st), some errIAMActionNotAllowed)
  else
    match getUserInfo ρ api now accessKey sys st with
    | (s, .error err) => (s, some err)
    | ((sys, st), .ok userInfo) =>
      match removeFromGroups api accessKey userInfo.memberOf sys st with
      | (s, some err) => (s, some err)
      | ((sys, st), none) => deleteUserEntries ρ api accessKey sys st

/-! ### Loading -/

/-- `LoadGroup`; `etcd` tells that `globalEtcdClient` is set. -/
def loadGroup (etcd : Bool) (api : IAMStorageAPI δ σ) (group : Text) (sys : IAMSys δ) (st : σ) :
    Outcome δ σ :=
  if etcd then ((sys, st), none)
  else
    match api.loadGroup group st with
    | (.error err, st) =>
      if err ≠ errNoSuchGroup then ((sys, st), some err)
      else
        let sys := sys.removeGroupFromMembershipsMap group
        (({ sys with
            iamGroupsMap := sys.iamGroupsMap.erase group
            iamGroupPolicyMap := sys.iamGroupPolicyMap.erase group }, st), none)
    | (.ok gi, st) =>
      let sys := { sys with iamGroupsMap := sys.iamGroupsMap.insert group gi }
      (((sys.removeGroupFromMembershipsMap group).updateGroupMembershipsMap group gi, st), none)

/-- The canned policies of `setDefaultCannedPolicies`. -/
structure CannedPolicies (δ : Type) where
  writeOnly : δ
  readOnly : δ
  readWrite : δ
  adminDiagnostics : δ
  admin : δ

/-- `setDefaultCannedPolicies`: a document that is there is kept. -/
def setDefaultCannedPolicies (canned : CannedPolicies δ) (policies : Table Text δ) :
    Table Text δ :=
  policies ∪ ((((((∅ : Table Text δ).insert "writeonly".toList canned.writeOnly).insert
      "readonly".toList canned.readOnly).insert "readwrite".toList canned.readWrite).insert
      "diagnostics".toList canned.adminDiagnostics).insert "consoleAdmin".toList canned.admin)

/-- The maps that `Load` fills from the store. -/
structure Loaded (δ : Type) where
  iamPolicyDocsMap : Table Text δ
  iamUsersMap : Table Text Credentials
  iamGroupsMap : Table Text GroupInfo
  iamUserPolicyMap : Table Text MappedPolicy
  iamGroupPolicyMap : Table Text MappedPolicy

/-- The reads of `Load`, in their order. -/
def readAll (canned : CannedPolicies δ) (api : IAMStorageAPI δ σ) (now : Time)
    (isObstorUsersSys : Bool) : StoreM σ (Loaded δ) := do
  let docs ← api.loadPolicyDocs ∅
  let docs := setDefaultCannedPolicies canned docs
  let users ← if isObstorUsersSys then api.loadUsers now .regularUser ∅ else pure ∅
  let groups ← if isObstorUsersSys then api.loadGroups ∅ else pure ∅
  let userPolicies ← api.loadMappedPolicies .regularUser false ∅
  let groupPolicies ← api.loadMappedPolicies .regularUser true ∅
  let users ← api.loadUsers now .srvAccUser users
  let users ← api.loadUsers now .stsUser users
  let userPolicies ← api.loadMappedPolicies .stsUser false userPolicies
  return ⟨docs, users, groups, userPolicies, groupPolicies⟩

/-- One purge of the expired entries. -/
def purgeExpired (sys : IAMSys δ) : IAMSys δ :=
  let expired : List Text := (sys.iamUsersMap.toList.filter fun e => e.2.isExpired now).map Prod.fst
  { sys with
    iamUsersMap := sys.iamUsersMap.keep fun _ cred => !cred.isExpired now
    iamUserPolicyMap := sys.iamUserPolicyMap.keep fun k _ => k ∉ expired }

/-- One user of the loop of `Load` over the service accounts whose parent has expired. -/
def purgeChild (expiredEntries : List Text) (s : IAMSys δ × σ) (v : Credentials) : IAMSys δ × σ :=
  if v.isServiceAccount && v.parentUser ∈ expiredEntries then
    deleteIdentity api v.accessKey .srvAccUser s
  else s

/-- `Load` behind its reads, up to the groups: the documents, users and mappings that were loaded
are written over the ones in memory, and what has expired is purged. -/
def mergeUsers (loaded : Loaded δ) (sys : IAMSys δ) (st : σ) : IAMSys δ × σ :=
  let sys : IAMSys δ :=
    { sys with
      iamPolicyDocsMap := loaded.iamPolicyDocsMap ∪ sys.iamPolicyDocsMap
      iamUsersMap := loaded.iamUsersMap ∪ sys.iamUsersMap
      iamUserPolicyMap := loaded.iamUserPolicyMap ∪ sys.iamUserPolicyMap }
  let expiredEntries : List Text :=
    (sys.iamUsersMap.toList.filter fun e => e.2.isExpired now).map Prod.fst
  match rangeUsers ρ (purgeChild api expiredEntries) (sys.purgeExpired now, st) with
  | (sys, st) => (sys.purgeExpired now, st)

/-- `Load` behind its reads. The cache of the memberships is only added to. -/
def merge (loaded : Loaded δ) (sys : IAMSys δ) (st : σ) : IAMSys δ × σ :=
  match mergeUsers ρ api now loaded sys st with
  | (sys, st) =>
    let sys : IAMSys δ :=
      { sys with
        iamGroupPolicyMap := loaded.iamGroupPolicyMap ∪ sys.iamGroupPolicyMap
        iamGroupsMap := loaded.iamGroupsMap ∪ sys.iamGroupsMap }
    ({ sys.buildUserGroupMemberships ρ with configLoaded := true }, st)

def load (canned : CannedPolicies δ) (api : IAMStorageAPI δ σ) (now : Time)
    (sys : IAMSys δ) (st : σ) : Outcome δ σ :=
  match readAll canned api now (sys.usersSysType = .obstorUsersSysType) st with
  | (.error err, st) => ((sys, st), some err)
  | (.ok loaded, st) => (merge ρ api now loaded sys st, none)

end

/-! ### The policies of a user or a group -/

/-- The loop of `policyDBGet` over the groups that the cache lists for a user; missing and disabled
groups are skipped. -/
def groupPolicies (sys : IAMSys δ) (name : Text) : List Text :=
  ((sys.iamUserGroupMemberships.lookup name).getD []).toSlice.flatMap fun group =>
    match sys.iamGroupsMap.lookup group with
    | none => []
    | some gi =>
      if gi.status = statusDisabled then [] else policiesOf sys.iamGroupPolicyMap group

/-- `policyDBGet`. `normalizeDN` is `xldap.NormalizeDN`, used with LDAP only. -/
def policyDBGet (normalizeDN : Text → Text) (now : Time) (sys : IAMSys δ) (name : Text)
    (isGroup : Bool) : Except Err (List Text) :=
  let name := if sys.usersSysType = .ldapUsersSysType then normalizeDN name else name
  if isGroup then
    if sys.usersSysType = .obstorUsersSysType then
      match sys.iamGroupsMap.lookup name with
      | none => .error errNoSuchGroup
      | some g =>
        if g.status = statusDisabled then .ok [] else .ok (policiesOf sys.iamGroupPolicyMap name)
    else .ok (policiesOf sys.iamGroupPolicyMap name)
  else
    match
      if sys.usersSysType = .obstorUsersSysType then sys.iamUsersMap.lookup name else some {}
    with
    | none => .error errNoSuchUser
    | some u =>
      if sys.usersSysType = .obstorUsersSysType && !u.isValid now then .ok []
      else
        let own : List Text :=
          match sys.iamUserPolicyMap.lookup name with
          | some mp => mp.toSlice
          | none => if u.parentUser ≠ [] then policiesOf sys.iamUserPolicyMap u.parentUser else []
        .ok (own ++ sys.groupPolicies name)

end IAMSys

end Obstor.Iam
