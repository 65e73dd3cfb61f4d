import Mathlib.Data.Finset.Union
import Vaylix.Auth.Identity
import Vaylix.Server.Commands

/-!
# Users and roles

The store is kept in memory and written to a file after every change; a change that cannot be
written stays in memory. Password hashing and the encoding of the file are outside the model:
a hash and the outcome of a write are inputs.
-/

namespace Vaylix

def defaultUsername : String := "vaylix"

def defaultPassword : String := "vaylix"

def authFormatVersion : Nat := 2

def adminRole : String := "admin"

structure UserRecord where
  passwordHash : String
  roles : Finset String
  disabled : Bool
deriving DecidableEq

structure RoleRecord where
  permissions : Finset Permission
  grants : Finset PermissionGrant
deriving DecidableEq

structure StoredAuth where
  version : Nat
  users : Std.ExtTreeMap String UserRecord compare
  roles : Std.ExtTreeMap String RoleRecord compare
  bootstrapAdmin : Option String

def validatePasswordPolicy (password : String) : Except ServerError Unit :=
  if password.utf8ByteSize < 12 then .error .passwordPolicyViolation
  else if !(password.toList.any Char.isAlpha) || !(password.toList.any Char.isDigit) then
    .error .passwordPolicyViolation
  else .ok ()

def UserRecord.isAdmin (user : UserRecord) : Bool :=
  !user.disabled && decide (adminRole ∈ user.roles)

def adminRoleRecord : RoleRecord := ⟨Permission.all, everyGrant⟩

namespace StoredAuth

variable (stored : StoredAuth)

def resolvePermissions (user : UserRecord) : Finset Permission × Finset PermissionGrant :=
  (user.roles.biUnion fun role => match stored.roles[role]? with
    | some record => record.permissions ∪
        (record.grants.filter fun grant => grant.pattern = "*").image PermissionGrant.permission
    | none => ∅,
   user.roles.biUnion fun role => match stored.roles[role]? with
    | some record => (record.permissions.image fun permission => ⟨permission, "*"⟩) ∪ record.grants
    | none => ∅)

def adminUserCount : Nat :=
  (stored.users.toList.filter fun entry => entry.2.isAdmin).length

def holdsAdminRole (username : String) : Bool :=
  (stored.users[username]?).any fun user => decide (adminRole ∈ user.roles)

def setUser (username : String) (user : UserRecord) : StoredAuth :=
  { stored with users := stored.users.insert username user }

def setRole (role : String) (record : RoleRecord) : StoredAuth :=
  { stored with roles := stored.roles.insert role record }

def removeUser (username : String) : StoredAuth :=
  { stored with users := stored.users.erase username }

def createUser (username password : String) (hashed : Option String) :
    Except ServerError StoredAuth :=
  match validatePasswordPolicy password with
  | .error err => .error err
  | .ok () =>
    if stored.users.contains username then .error (.userAlreadyExists username)
    else
      match hashed with
      | none => .error .authenticationConfiguration
      | some hash => .ok (stored.setUser username ⟨hash, ∅, false⟩)

def alterUserPassword (username password : String) (hashed : Option String) :
    Except ServerError StoredAuth :=
  match validatePasswordPolicy password with
  | .error err => .error err
  | .ok () =>
    match stored.users[username]? with
    | none => .error (.userNotFound username)
    | some user =>
      match hashed with
      | none => .error .authenticationConfiguration
      | some hash => .ok (stored.setUser username { user with passwordHash := hash })

def dropUser (username : String) : Except ServerError StoredAuth :=
  if !stored.users.contains username then .error (.userNotFound username)
  else if stored.adminUserCount ≤ 1 ∧ stored.holdsAdminRole username = true then
    .error .lastAdminUser
  else .ok (stored.removeUser username)

def createRole (role : String) : Except ServerError StoredAuth :=
  if stored.roles.contains role then .error (.roleAlreadyExists role)
  else .ok (stored.setRole role ⟨∅, ∅⟩)

def dropRole (role : String) : Except ServerError StoredAuth :=
  if role = adminRole then .error (.protectedRole role)
  else if !stored.roles.contains role then .error (.roleNotFound role)
  else .ok { stored with
    users := stored.users.map fun _ user => { user with roles := user.roles.erase role }
    roles := stored.roles.erase role }

def grantRole (role username : String) : Except ServerError StoredAuth :=
  if !stored.roles.contains role then .error (.roleNotFound role)
  else
    match stored.users[username]? with
    | none => .error (.userNotFound username)
    | some user => .ok (stored.setUser username { user with roles := insert role user.roles })

def revokeRole (role username : String) : Except ServerError StoredAuth :=
  if role = adminRole ∧ stored.adminUserCount ≤ 1 ∧ stored.holdsAdminRole username = true then
    .error .lastAdminUser
  else
    match stored.users[username]? with
    | none => .error (.userNotFound username)
    | some user => .ok (stored.setUser username { user with roles := user.roles.erase role })

def grantPermission (permission : Permission) (pattern role : String) :
    Except ServerError StoredAuth :=
  match stored.roles[role]? with
  | none => .error (.roleNotFound role)
  | some record => .ok (stored.setRole role
      { record with grants := insert ⟨permission, pattern⟩ record.grants })

def revokePermission (permission : Permission) (pattern role : String) :
    Except ServerError StoredAuth :=
  if role = adminRole ∧ permission = .admin ∧ pattern = "*" then .error (.protectedRole role)
  else
    match stored.roles[role]? with
    | none => .error (.roleNotFound role)
    | some record => .ok (stored.setRole role
        { permissions := if pattern = "*" then record.permissions.erase permission
            else record.permissions
          grants := record.grants.erase ⟨permission, pattern⟩ })

def ensureAdminRole : StoredAuth :=
  let record := (stored.roles[adminRole]?).getD adminRoleRecord
  stored.setRole adminRole
    ⟨record.permissions ∪ Permission.all, record.grants ∪ everyGrant⟩

def legacySingleAdminUsername : Option String :=
  if stored.bootstrapAdmin.isSome then none
  else
    match stored.users.toList.filter fun entry => entry.2.isAdmin with
    | [(username, _)] => some username
    | _ => none

def removeAdminUserIfPresent (username : String) : StoredAuth :=
  if stored.holdsAdminRole username then stored.removeUser username else stored

def retirePreviousBootstrapAdmin (previous : Option String) (configured : String) : StoredAuth :=
  match previous with
  | none => stored
  | some previous =>
    if previous = configured then stored else stored.removeAdminUserIfPresent previous

/-- `verify` compares a hash with a password, if the hash can be read. -/
def retireLegacyDefaultBootstrapUser (verify : String → String → Option Bool)
    (stored : StoredAuth) (configured : String) : Except ServerError StoredAuth :=
  if configured = defaultUsername then .ok stored
  else
    match stored.users[defaultUsername]? with
    | none => .ok stored
    | some user =>
      if adminRole ∈ user.roles then .ok (stored.removeAdminUserIfPresent defaultUsername)
      else
        match verify user.passwordHash defaultPassword with
        | none => .error .authenticationConfiguration
        | some true => .ok (stored.removeAdminUserIfPresent defaultUsername)
        | some false => .ok stored

def configureAdmin (username hash : String) : StoredAuth :=
  stored.setUser username (match stored.users[username]? with
    | some user => ⟨hash, insert adminRole user.roles, false⟩
    | none => ⟨hash, {adminRole}, false⟩)

def reconcileConfiguredBootstrapAdmin (verify : String → String → Option Bool)
    (stored : StoredAuth) (username password : String) (hashed : Option String) :
    Except ServerError StoredAuth :=
  if username = defaultUsername ∧ password = defaultPassword then
    .ok { stored with version := authFormatVersion }
  else
    let previous := stored.bootstrapAdmin
    let legacy := stored.legacySingleAdminUsername
    match hashed with
    | none => .error .authenticationConfiguration
    | some hash =>
      let stored := stored.ensureAdminRole.configureAdmin username hash
      let stored := stored.retirePreviousBootstrapAdmin previous username
      let stored := if previous.isNone then stored.retirePreviousBootstrapAdmin legacy username
        else stored
      match stored.retireLegacyDefaultBootstrapUser verify username with
      | .error err => .error err
      | .ok stored =>
        .ok { stored with bootstrapAdmin := some username, version := authFormatVersion }

def bootstrapStore (username : String) (hashed : Option String) : Except ServerError StoredAuth :=
  match hashed with
  | none => .error .authenticationConfiguration
  | some hash => .ok
    { version := authFormatVersion
      users := (∅ : Std.ExtTreeMap String UserRecord compare).insert username
        ⟨hash, {adminRole}, false⟩
      roles := (∅ : Std.ExtTreeMap String RoleRecord compare).insert adminRole adminRoleRecord
      bootstrapAdmin := some username }

end StoredAuth

/-- The changes of the store; a hash is missing when hashing fails. -/
inductive AuthOperation where
  | createUser (username password : String) (hashed : Option String)
  | alterUserPassword (username password : String) (hashed : Option String)
  | dropUser (username : String)
  | createRole (role : String)
  | dropRole (role : String)
  | grantRole (role username : String)
  | revokeRole (role username : String)
  | grantPermission (permission : Permission) (pattern role : String)
  | revokePermission (permission : Permission) (pattern role : String)

def StoredAuth.perform (stored : StoredAuth) : AuthOperation → Except ServerError StoredAuth
  | .createUser username password hashed => stored.createUser username password hashed
  | .alterUserPassword username password hashed =>
    stored.alterUserPassword username password hashed
  | .dropUser username => stored.dropUser username
  | .createRole role => stored.createRole role
  | .dropRole role => stored.dropRole role
  | .grantRole role username => stored.grantRole role username
  | .revokeRole role username => stored.revokeRole role username
  | .grantPermission permission pattern role => stored.grantPermission permission pattern role
  | .revokePermission permission pattern role => stored.revokePermission permission pattern role

/-- How a write of the file ends. It may fail after the new file is in place. -/
inductive Saving where
  | done
  | failed (err : ServerError) (replaced : Bool)

/-- The store of a process, and the file. Without `persists` there is no file. -/
structure AuthServer where
  running : Option StoredAuth
  persists : Bool
  file : Option StoredAuth

/-- Changes, and starts with the configured credentials. A start may find the file
unreadable. -/
inductive AuthEvent where
  | operation (operation : AuthOperation) (saving : Saving)
  | start (username password : String) (hashed : Option String) (unreadable : Option ServerError)
      (saving : Saving)

namespace AuthServer

def save (server : AuthServer) (stored : StoredAuth) : Saving → AuthServer × Option ServerError
  | .done => ({ server with file := some stored }, none)
  | .failed err replaced =>
    (if replaced then { server with file := some stored } else server, some err)

def load (verify : String → String → Option Bool) (server : AuthServer)
    (username password : String) (hashed : Option String) (unreadable : Option ServerError) :
    Except ServerError StoredAuth :=
  match unreadable with
  | some err => .error err
  | none =>
    match server.file with
    | none => StoredAuth.bootstrapStore username hashed
    | some stored =>
      if stored.version < 1 ∨ authFormatVersion < stored.version then
        .error (.authStoreDecode stored.version)
      else stored.reconcileConfiguredBootstrapAdmin verify username password hashed

def step (verify : String → String → Option Bool) (server : AuthServer) :
    AuthEvent → AuthServer × Option ServerError
  | .operation operation saving =>
    match server.running with
    | none => (server, none)
    | some stored =>
      match stored.perform operation with
      | .error err => (server, some err)
      | .ok changed =>
        let server := { server with running := some changed }
        if server.persists then server.save changed saving else (server, none)
  | .start username password hashed unreadable saving =>
    if server.persists then
      match server.load verify username password hashed unreadable with
      | .error err => ({ server with running := none }, some err)
      | .ok stored =>
        match server.save stored saving with
        | (server, none) => ({ server with running := some stored }, none)
        | (server, some err) => ({ server with running := none }, some err)
    else (server, none)

def bootstrapped (stored : StoredAuth) (persists : Bool) : AuthServer :=
  ⟨some stored, persists, if persists then some stored else none⟩

def current (server : AuthServer) : Option StoredAuth := server.running.or server.file

def run (verify : String → String → Option Bool) (server : AuthServer) (events : List AuthEvent) :
    AuthServer :=
  events.foldl (fun server event => (server.step verify event).1) server

end AuthServer

end Vaylix
