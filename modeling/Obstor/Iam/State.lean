import Obstor.Go.Text
import Obstor.Go.Values
import Obstor.Lib.Table

/-!
# The state of the IAM subsystem

`IAMSys` (`cmd/iam.go`) keeps the users, groups, policy documents and policy mappings of a server
in maps in memory, and saves them through an `IAMStorageAPI`. The identities of regular users, of
temporary (STS) users and of service accounts are saved in different places, by `IAMUserType`, but
share one map in memory.

The store is a parameter: a state of any type `σ` with the functions of the interface on it. A
policy document is a value of any type `δ`. Every call takes the state of the store and gives the
next one; the locks of the source make each call one step.
-/

namespace Obstor.Iam

open Go
open Lib (Table)

/-! ### Errors
Source: `cmd/typed-errors.go`, `pkg/auth/credentials.go` -/

def errInvalidArgument : Err := .new 0 "invalid arguments specified"

def errNoSuchUser : Err := .new 0 "specified user does not exist"

def errNoSuchGroup : Err := .new 0 "specified group does not exist"

def errGroupNotEmpty : Err := .new 0 "specified group is not empty - cannot remove it"

def errNoSuchPolicy : Err := .new 0 "specified canned policy does not exist"

def errIAMActionNotAllowed : Err :=
  .new 0 "specified IAM action is not allowed with LDAP configuration"

/-! ### Credentials
Source: `pkg/auth/credentials.go` -/

structure Credentials where
  accessKey : Text := []
  secretKey : Text := []
  expiration : Time := Time.zero
  sessionToken : Text := []
  status : Text := []
  parentUser : Text := []
  groups : List Text := []
  deriving DecidableEq

def accountOn : Text := "on".toList

def accountOff : Text := "off".toList

/-- The number of bytes of a text, its `len`. -/
def byteLength (s : Text) : ℕ := (s.map Char.utf8Size).sum

def isAccessKeyValid (accessKey : Text) : Bool := 3 ≤ byteLength accessKey

def isSecretKeyValid (secretKey : Text) : Bool := 8 ≤ byteLength secretKey

namespace Credentials

section

variable (cred : Credentials)

/-- There is no expiration: the zero time, or `timeSentinel`. -/
def isPermanent : Bool :=
  cred.expiration.isZero || cred.expiration = Time.unix 0

def isExpired (now : Time) : Bool :=
  if cred.isPermanent then false else now.after cred.expiration

def isTemp : Bool := cred.sessionToken ≠ [] && !cred.isPermanent

def isServiceAccount : Bool := cred.parentUser ≠ [] && cred.isPermanent

def isValid (now : Time) : Bool :=
  if cred.status = accountOff then false
  else isAccessKeyValid cred.accessKey && isSecretKeyValid cred.secretKey && !cred.isExpired now

end

end Credentials

/-! ### Users, groups and mappings -/

inductive IAMUserType
  | regularUser
  | stsUser
  | srvAccUser
  deriving DecidableEq

inductive UsersSysType
  | obstorUsersSysType
  | ldapUsersSysType
  deriving DecidableEq

structure UserIdentity where
  version : ℤ
  credentials : Credentials
  deriving DecidableEq

def newUserIdentity (cred : Credentials) : UserIdentity := ⟨1, cred⟩

def statusEnabled : Text := "enabled".toList

def statusDisabled : Text := "disabled".toList

structure GroupInfo where
  version : ℤ
  status : Text
  members : List Text
  deriving DecidableEq

def newGroupInfo (members : List Text) : GroupInfo := ⟨1, statusEnabled, members⟩

structure MappedPolicy where
  version : ℤ
  policies : Text
  deriving DecidableEq

def newMappedPolicy (policy : Text) : MappedPolicy := ⟨1, policy⟩

def MappedPolicy.toSlice (mp : MappedPolicy) : List Text :=
  ((mp.policies.splitOn ',').map Text.trimSpace).filter (· ≠ [])

/-- `sys.iam…PolicyMap[name].toSlice()`, where a missing entry is the zero mapping. -/
def policiesOf (m : Table Text MappedPolicy) (name : Text) : List Text :=
  ((m.lookup name).getD ⟨0, []⟩).toSlice

/-! ### The store -/

/-- A call of the store: a value or an error, and the store afterwards. -/
abbrev StoreM (σ : Type) := ExceptT Err (StateM σ)

/-- `IAMStorageAPI`. A function that loads into a map of the caller returns what it loads; the
ones that load everything return the map. -/
structure IAMStorageAPI (δ σ : Type) where
  loadPolicyDoc : Text → StoreM σ δ
  loadPolicyDocs : Table Text δ → StoreM σ (Table Text δ)
  /-- An expired identity is deleted, and is no error: there is nothing to load. -/
  loadUser : Time → Text → IAMUserType → StoreM σ (Option Credentials)
  loadUsers : Time → IAMUserType → Table Text Credentials → StoreM σ (Table Text Credentials)
  loadGroup : Text → StoreM σ GroupInfo
  loadGroups : Table Text GroupInfo → StoreM σ (Table Text GroupInfo)
  loadMappedPolicy : Text → IAMUserType → Bool → StoreM σ MappedPolicy
  loadMappedPolicies :
    IAMUserType → Bool → Table Text MappedPolicy → StoreM σ (Table Text MappedPolicy)
  saveMappedPolicy : Text → IAMUserType → Bool → MappedPolicy → StoreM σ Unit
  saveUserIdentity : Text → IAMUserType → UserIdentity → StoreM σ Unit
  saveGroupInfo : Text → GroupInfo → StoreM σ Unit
  deleteMappedPolicy : Text → IAMUserType → Bool → StoreM σ Unit
  deleteUserIdentity : Text → IAMUserType → StoreM σ Unit
  deleteGroupInfo : Text → StoreM σ Unit

/-! ### The server -/

/-- `IAMSys`. `configLoaded` tells that its channel is closed. -/
structure IAMSys (δ : Type) where
  usersSysType : UsersSysType
  iamPolicyDocsMap : Table Text δ
  iamUsersMap : Table Text Credentials
  iamGroupsMap : Table Text GroupInfo
  iamUserGroupMemberships : Table Text StringSet
  iamUserPolicyMap : Table Text MappedPolicy
  iamGroupPolicyMap : Table Text MappedPolicy
  configLoaded : Bool

/-- `NewIAMSys`, followed by `EnableLDAPSys` when LDAP is configured. -/
def newIAMSys {δ : Type} (usersSysType : UsersSysType) : IAMSys δ where
  usersSysType
  iamPolicyDocsMap := ∅
  iamUsersMap := ∅
  iamGroupsMap := ∅
  iamUserGroupMemberships := ∅
  iamUserPolicyMap := ∅
  iamGroupPolicyMap := ∅
  configLoaded := false

end Obstor.Iam
