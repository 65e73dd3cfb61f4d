import Vaylix.Auth.Store

/-!
# Changes of users and roles that fail

A change that is refused leaves the store alone. A change that passes its checks is made in
memory before the file is written, and stays there when the write fails.
-/

namespace Vaylix

def AuthOperation.Alters (stored : StoredAuth) : AuthOperation → Prop
  | .createUser username password hashed => validatePasswordPolicy password = .ok () ∧
    stored.users.contains username = false ∧ hashed.isSome
  | .alterUserPassword username password hashed => validatePasswordPolicy password = .ok () ∧
    ∃ user hash, stored.users[username]? = some user ∧ hashed = some hash ∧
      hash ≠ user.passwordHash
  | .dropUser username => stored.users.contains username = true ∧
    ¬(stored.adminUserCount ≤ 1 ∧ stored.holdsAdminRole username = true)
  | .createRole role => stored.roles.contains role = false
  | .dropRole role => role ≠ adminRole ∧ stored.roles.contains role = true
  | .grantRole role username => stored.roles.contains role = true ∧
    ∃ user, stored.users[username]? = some user ∧ role ∉ user.roles
  | .revokeRole role username =>
    ¬(role = adminRole ∧ stored.adminUserCount ≤ 1 ∧ stored.holdsAdminRole username = true) ∧
      ∃ user, stored.users[username]? = some user ∧ role ∈ user.roles
  | .grantPermission permission pattern role =>
    ∃ record, stored.roles[role]? = some record ∧ ⟨permission, pattern⟩ ∉ record.grants
  | .revokePermission permission pattern role =>
    ¬(role = adminRole ∧ permission = .admin ∧ pattern = "*") ∧
      ∃ record, stored.roles[role]? = some record ∧
        (⟨permission, pattern⟩ ∈ record.grants ∨ pattern = "*" ∧ permission ∈ record.permissions)

theorem insert_eq_self_iff {α : Type} {map : Std.ExtTreeMap String α compare} {key : String}
    {value : α} : map.insert key value = map ↔ some value = map[key]? := by
  constructor
  · intro same
    rw [← same]
    exact Std.ExtTreeMap.getElem?_insert_self.symm
  · intro found
    refine Std.ExtTreeMap.ext_getElem? fun other => ?_
    rw [Std.ExtTreeMap.getElem?_insert]
    split
    · rename_i here
      rw [← Std.LawfulEqCmp.compare_eq_iff_eq.mp here, ← found]
    · rfl

namespace StoredAuth

variable {stored : StoredAuth}

theorem setUser_eq_self {username : String} {user : UserRecord} :
    stored.setUser username user = stored ↔ some user = stored.users[username]? := by
  rw [← insert_eq_self_iff]
  exact ⟨congrArg users, fun same => by rw [setUser, same]⟩

theorem setRole_eq_self {role : String} {record : RoleRecord} :
    stored.setRole role record = stored ↔ some record = stored.roles[role]? := by
  rw [← insert_eq_self_iff]
  exact ⟨congrArg roles, fun same => by rw [setRole, same]⟩

theorem alters_iff {operation : AuthOperation} : operation.Alters stored ↔
    ∃ changed, stored.perform operation = .ok changed ∧ changed ≠ stored := by
  cases operation with
  | createUser username password hashed =>
    simp only [AuthOperation.Alters, perform, createUser]
    cases validatePasswordPolicy password <;> cases hashed <;>
      cases known : stored.users.contains username <;> simp [setUser_eq_self]
    intro same
    rw [Std.ExtTreeMap.contains_eq_isSome_getElem?, ← same] at known
    cases known
  | alterUserPassword username password hashed =>
    simp only [AuthOperation.Alters, perform, alterUserPassword]
    cases validatePasswordPolicy password <;> cases hashed <;>
      rcases found : stored.users[username]? with _ | ⟨hash, held, off⟩ <;>
      simp [setUser_eq_self, found]
  | dropUser username =>
    simp only [AuthOperation.Alters, perform, dropUser]
    cases known : stored.users.contains username <;>
      by_cases last : stored.adminUserCount ≤ 1 ∧ stored.holdsAdminRole username = true <;>
      simp [last]
    intro same
    rw [← same] at known
    simp [removeUser] at known
  | createRole role =>
    cases known : stored.roles.contains role <;>
      simp [AuthOperation.Alters, perform, createRole, setRole_eq_self, known]
    intro same
    rw [Std.ExtTreeMap.contains_eq_isSome_getElem?, ← same] at known
    cases known
  | dropRole role =>
    simp only [AuthOperation.Alters, perform, dropRole]
    cases known : stored.roles.contains role <;> by_cases admin : role = adminRole <;>
      simp [admin]
    intro same
    rw [← same] at known
    simp at known
  | grantRole role username =>
    simp only [AuthOperation.Alters, perform, grantRole]
    cases stored.roles.contains role <;>
      rcases found : stored.users[username]? with _ | ⟨hash, held, off⟩ <;>
      simp [setUser_eq_self, found]
  | revokeRole role username =>
    simp only [AuthOperation.Alters, perform, revokeRole]
    split <;> rcases found : stored.users[username]? with _ | ⟨hash, held, off⟩ <;>
      simp [setUser_eq_self, *]
  | grantPermission permission pattern role =>
    simp only [AuthOperation.Alters, perform, grantPermission]
    rcases found : stored.roles[role]? with _ | ⟨permissions, grants⟩ <;>
      simp [setRole_eq_self, found]
  | revokePermission permission pattern role =>
    simp only [AuthOperation.Alters, perform, revokePermission]
    split <;> rcases found : stored.roles[role]? with _ | ⟨permissions, grants⟩ <;>
      simp [setRole_eq_self, *]
    by_cases everything : pattern = "*" <;> simp [everything]
    tauto

end StoredAuth

namespace AuthServer

/-- **A change that fails has no effect exactly when not its write fails**, or it alters
nothing. -/
theorem failed_without_effect_iff (verify : String → String → Option Bool) (stored : StoredAuth)
    (persists : Bool) (file : Option StoredAuth) (operation : AuthOperation) (saving : Saving) :
    (∀ err, (step verify ⟨some stored, persists, file⟩ (.operation operation saving)).2 = some err →
      (step verify ⟨some stored, persists, file⟩ (.operation operation saving)).1.running =
        some stored) ↔
    ¬(persists = true ∧ saving ≠ .done ∧ operation.Alters stored) := by
  rw [StoredAuth.alters_iff]
  unfold step
  dsimp only
  cases done : stored.perform operation with
  | error err => simp
  | ok changed =>
    cases persists with
    | false => simp
    | true =>
      cases saving with
      | done => simp [save]
      | failed err replaced => cases replaced <;> simp [save]

/-- A role that could not be saved is there until the next start. -/
theorem role_stays_unsaved :
    ∃ stored, StoredAuth.bootstrapStore "root" (some "h") = .ok stored ∧
      let after := step (fun _ _ => none) (bootstrapped stored true)
        (.operation (.createRole "auditor") (.failed .authenticationConfiguration false))
      stored.roles.contains "auditor" = false ∧ after.2 = some .authenticationConfiguration ∧
        after.1.running.map (fun stored => stored.roles.contains "auditor") = some true ∧
        after.1.file.map (fun stored => stored.roles.contains "auditor") = some false := by
  refine ⟨_, rfl, ?_, rfl, ?_, ?_⟩ <;> decide +kernel

end AuthServer

end Vaylix
