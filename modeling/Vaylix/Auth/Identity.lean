import Mathlib.Data.Finset.Image
import Vaylix.Auth.Pattern

/-!
# Identities and what they may do

An authenticated session has an identity with permissions for everything and with
grants for the keys of a pattern. The administrator may do anything.
-/

namespace Vaylix

inductive Permission where
  | read
  | write
  | admin
  | backup
  | restore
  | metrics
  | snapshot
  | clear
  | userAdmin
  | roleAdmin
deriving DecidableEq, Repr

def Permission.all : Finset Permission :=
  {.read, .write, .admin, .backup, .restore, .metrics, .snapshot, .clear, .userAdmin, .roleAdmin}

theorem Permission.mem_all (permission : Permission) : permission ∈ Permission.all := by
  cases permission <;> decide

structure PermissionGrant where
  permission : Permission
  pattern : String
deriving DecidableEq, Repr

def everyGrant : Finset PermissionGrant := Permission.all.image fun permission => ⟨permission, "*"⟩

structure Identity where
  username : String
  permissions : Finset Permission
  grants : Finset PermissionGrant
deriving DecidableEq

namespace Identity

def has (identity : Identity) (permission : Permission) : Bool :=
  decide (.admin ∈ identity.permissions) || decide (permission ∈ identity.permissions)

def allowsKey (identity : Identity) (permission : Permission) (key : Key) : Bool :=
  decide (.admin ∈ identity.permissions) ||
    decide (∃ grant ∈ identity.grants, grant.permission = permission ∧
      Auth.wildcardMatches grant.pattern key = true)

def allowsPattern (identity : Identity) (permission : Permission) (requested : String) : Bool :=
  decide (.admin ∈ identity.permissions) ||
    decide (∃ grant ∈ identity.grants, grant.permission = permission ∧
      Auth.patternCovers grant.pattern requested = true)

variable {identity : Identity} {permission : Permission}

theorem allowsKey_iff (plain : .admin ∉ identity.permissions) {key : Key} :
    identity.allowsKey permission key = true ↔ ∃ grant ∈ identity.grants,
      grant.permission = permission ∧ Auth.wildcardMatches grant.pattern key = true := by
  simp [allowsKey, plain]

theorem allowsPattern_iff (plain : .admin ∉ identity.permissions) {requested : String} :
    identity.allowsPattern permission requested = true ↔ ∃ grant ∈ identity.grants,
      grant.permission = permission ∧ Auth.patternCovers grant.pattern requested = true := by
  simp [allowsPattern, plain]

end Identity

end Vaylix
