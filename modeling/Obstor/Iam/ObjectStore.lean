import Obstor.Iam.State

/-!
# The IAM store on objects

`IAMObjectStore` (`cmd/iam-object-store.go`) saves each identity, group, document and mapping in
an object of its own. Its name is joined from the directory of its kind and the name of the item,
and cleaned on the way (`path.Join`); `Load` takes the names of the items from those of the objects.

An object is named by the elements of its path. The object layer takes a name when all its elements
are proper; no other error of it is modelled. The JSON text and its encryption are left out, except
that an object of another kind is decoded as `encoding/json` decodes it.
-/

namespace Obstor.Iam

open Go List
open Lib (Table)

variable {δ : Type}

/-- What the object layer answers to a name it does not take. -/
def errObjectNameInvalid : Err := .new 0 "Object name invalid"

/-- What `json.Unmarshal` answers when a field has another type. -/
def errUnmarshalType : Err := .new 0 "json: cannot unmarshal"

/-! ### Objects -/

/-- The name of an object, as the elements of its path. -/
abbrev ObjectName := {elems : List Text // ∀ e ∈ elems, Text.IsElem e}

inductive Config (δ : Type)
  | user (u : UserIdentity)
  | group (gi : GroupInfo)
  | mapped (mp : MappedPolicy)
  | doc (p : δ)

abbrev Store (δ : Type) := Table ObjectName (Config δ)

namespace Config

def asUser : Config δ → Except Err UserIdentity
  | .user u => .ok u
  | .group gi => .ok ⟨gi.version, {}⟩
  | .mapped mp => .ok ⟨mp.version, {}⟩
  | .doc _ => .error errUnmarshalType

def asGroup : Config δ → Except Err GroupInfo
  | .user u => .ok ⟨u.version, [], []⟩
  | .group gi => .ok gi
  | .mapped mp => .ok ⟨mp.version, [], []⟩
  | .doc _ => .error errUnmarshalType

def asMapped : Config δ → Except Err MappedPolicy
  | .user u => .ok ⟨u.version, []⟩
  | .group gi => .ok ⟨gi.version, []⟩
  | .mapped mp => .ok mp
  | .doc _ => .error errUnmarshalType

/-- Decoding into a policy document, whose version is a string. -/
def asDoc : Config δ → Except Err δ
  | .doc p => .ok p
  | _ => .error errUnmarshalType

end Config

/-! ### Paths -/

/-- `pathJoin`, of parts that are given by their elements; `none` is a name that the object layer
does not take. -/
def pathJoin (elems : List Text) : Option ObjectName :=
  if h : ∀ e ∈ Text.cleanElems elems, Text.IsElem e then some ⟨Text.cleanElems elems, h⟩ else none

def iamConfigDir : List Text := ["config".toList, "iam".toList]

/-- `iamConfigUsersPrefix`, `iamConfigSTSPrefix` and `iamConfigServiceAccountsPrefix`. -/
def identityDir : IAMUserType → List Text
  | .regularUser => iamConfigDir ++ ["users".toList]
  | .stsUser => iamConfigDir ++ ["sts".toList]
  | .srvAccUser => iamConfigDir ++ ["service-accounts".toList]

def groupsDir : List Text := iamConfigDir ++ ["groups".toList]

def policiesDir : List Text := iamConfigDir ++ ["policies".toList]

/-- The directories under `iamConfigPolicyDBPrefix`. -/
def policyDBDir (userType : IAMUserType) (isGroup : Bool) : List Text :=
  iamConfigDir ++ ["policydb".toList] ++
    if isGroup then ["groups".toList]
    else match userType with
      | .regularUser => ["users".toList]
      | .stsUser => ["sts-users".toList]
      | .srvAccUser => ["service-accounts".toList]

def filePath (dir : List Text) (file : Text) (name : Text) : Option ObjectName :=
  pathJoin (dir ++ name.splitOn '/' ++ [file])

def getUserIdentityPath (user : Text) (userType : IAMUserType) : Option ObjectName :=
  filePath (identityDir userType) "identity.json".toList user

def getGroupInfoPath (group : Text) : Option ObjectName :=
  filePath groupsDir "members.json".toList group

def getPolicyDocPath (name : Text) : Option ObjectName :=
  filePath policiesDir "policy.json".toList name

def getMappedPolicyPath (name : Text) (userType : IAMUserType) (isGroup : Bool) :
    Option ObjectName :=
  pathJoin (policyDBDir userType isGroup ++ (name ++ ".json".toList).splitOn '/')

/-! ### Reading and writing objects -/

abbrev ObjM (δ α : Type) := StoreM (Store δ) α

/-- `loadIAMConfig`, decoded by `decode`; `notFound` is the error for an object that is not there. -/
def loadIAMConfig {α : Type} (decode : Config δ → Except Err α) (notFound : Err)
    (path : Option ObjectName) : ObjM δ α := fun st =>
  match path with
  | none => (.error errObjectNameInvalid, st)
  | some name =>
    match st.lookup name with
    | none => (.error notFound, st)
    | some c => (decode c, st)

def saveIAMConfig (item : Config δ) (path : Option ObjectName) : ObjM δ Unit := fun st =>
  match path with
  | none => (.error errObjectNameInvalid, st)
  | some name => (.ok (), st.insert name item)

def deleteIAMConfig (notFound : Err) (path : Option ObjectName) : ObjM δ Unit := fun st =>
  match path with
  | none => (.error errObjectNameInvalid, st)
  | some name =>
    match st.lookup name with
    | none => (.error notFound, st)
    | some _ => (.ok (), st.erase name)

/-! ### Listing -/

/-- `listIAMConfigItems`: what the names of the objects in a directory have behind it. -/
def listIAMConfigItems (dir : List Text) (st : Store δ) : List (List Text) :=
  (st.keys.filter fun name => dir.isPrefixOf name.1 && name.1 ≠ dir).map fun name =>
    name.1.drop dir.length

/-- `path.Dir` of a listed item. -/
def itemDir (item : List Text) : Text :=
  if item.dropLast = [] then Text.dot else Text.join item.dropLast ['/']

def itemBase (item : List Text) : Text := Text.trimSuffix (Text.join item ['/']) ".json".toList

/-- The loop of `loadPolicyDocs`, `loadUsers`, `loadGroups` and `loadMappedPolicies`: every name is
loaded into the map, and the error `notFound` is ignored. -/
def loadItems {α : Type} (load : Text → ObjM δ (Option α)) (notFound : Err) :
    List Text → Table Text α → ObjM δ (Table Text α)
  | [], m => pure m
  | name :: names, m => fun st =>
    match load name st with
    | (.error err, st) =>
      if err = notFound then loadItems load notFound names m st else (.error err, st)
    | (.ok none, st) => loadItems load notFound names m st
    | (.ok (some a), st) => loadItems load notFound names (m.insert name a) st

/-! ### The interface -/

def loadPolicyDoc (policy : Text) : ObjM δ δ :=
  loadIAMConfig Config.asDoc errNoSuchPolicy (getPolicyDocPath policy)

def loadUser (now : Time) (user : Text) (userType : IAMUserType) : ObjM δ (Option Credentials) := do
  let u ← loadIAMConfig Config.asUser errNoSuchUser (getUserIdentityPath user userType)
  let cred := u.credentials
  if cred.isExpired now then
    -- the errors of the two deletions are ignored
    fun st =>
      let st := (deleteIAMConfig errNoSuchUser (getUserIdentityPath user userType) st).2
      (.ok none, (deleteIAMConfig errNoSuchPolicy (getMappedPolicyPath user userType false) st).2)
  else
    return some (if cred.accessKey = [] then { cred with accessKey := user } else cred)

def loadGroup (group : Text) : ObjM δ GroupInfo :=
  loadIAMConfig Config.asGroup errNoSuchGroup (getGroupInfoPath group)

def loadMappedPolicy (name : Text) (userType : IAMUserType) (isGroup : Bool) :
    ObjM δ MappedPolicy :=
  loadIAMConfig Config.asMapped errNoSuchPolicy (getMappedPolicyPath name userType isGroup)

def iamObjectStore (δ : Type) : IAMStorageAPI δ (Store δ) where
  loadPolicyDoc := loadPolicyDoc
  loadPolicyDocs m := fun st =>
    loadItems (fun name => some <$> loadPolicyDoc name) errNoSuchPolicy
      ((listIAMConfigItems policiesDir st).map itemDir) m st
  loadUser := loadUser
  loadUsers now userType m := fun st =>
    loadItems (fun name => loadUser now name userType) errNoSuchUser
      ((listIAMConfigItems (identityDir userType) st).map itemDir) m st
  loadGroup := loadGroup
  loadGroups m := fun st =>
    loadItems (fun name => some <$> loadGroup name) errNoSuchGroup
      ((listIAMConfigItems groupsDir st).map itemDir) m st
  loadMappedPolicy := loadMappedPolicy
  loadMappedPolicies userType isGroup m := fun st =>
    loadItems (fun name => some <$> loadMappedPolicy name userType isGroup) errNoSuchPolicy
      ((listIAMConfigItems (policyDBDir userType isGroup) st).map itemBase) m st
  saveMappedPolicy name userType isGroup mp :=
    saveIAMConfig (.mapped mp) (getMappedPolicyPath name userType isGroup)
  saveUserIdentity name userType u := saveIAMConfig (.user u) (getUserIdentityPath name userType)
  saveGroupInfo group gi := saveIAMConfig (.group gi) (getGroupInfoPath group)
  deleteMappedPolicy name userType isGroup :=
    deleteIAMConfig errNoSuchPolicy (getMappedPolicyPath name userType isGroup)
  deleteUserIdentity name userType :=
    deleteIAMConfig errNoSuchUser (getUserIdentityPath name userType)
  deleteGroupInfo group := deleteIAMConfig errNoSuchGroup (getGroupInfoPath group)

end Obstor.Iam
