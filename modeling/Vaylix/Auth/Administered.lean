import Vaylix.Auth.Store

/-!
# There is always an administrator

Dropping a user and revoking the administrator's role are refused for the last administrator,
the role itself keeps its permission, and a start that retires an old administrator has
installed the configured one before.
-/

namespace Vaylix

namespace StoredAuth

/-- Some enabled user has the permission to administrate, and users name existing roles. -/
structure Administered (stored : StoredAuth) : Prop where
  administrator : ∃ (username : String) (user : UserRecord), stored.users[username]? = some user ∧
    user.disabled = false ∧ .admin ∈ (stored.resolvePermissions user).1
  roles : ∀ (username : String) (user : UserRecord), stored.users[username]? = some user →
    ∀ role ∈ user.roles, role ∈ stored.roles

def AdminBeside (stored : StoredAuth) (username : String) : Prop :=
  ∃ (other : String) (user : UserRecord), other ≠ username ∧ stored.users[other]? = some user ∧
    user.isAdmin = true

/-- The invariant: an enabled user has the administrator's role, and that role has the
permission. -/
structure Governed (stored : StoredAuth) : Prop where
  holder : ∃ (username : String) (user : UserRecord), stored.users[username]? = some user ∧
    user.isAdmin = true
  role : ∃ record, stored.roles[adminRole]? = some record ∧ .admin ∈ record.permissions
  roles : ∀ (username : String) (user : UserRecord), stored.users[username]? = some user →
    ∀ role ∈ user.roles, role ∈ stored.roles

variable {stored : StoredAuth}

theorem isAdmin_iff {user : UserRecord} :
    user.isAdmin = true ↔ user.disabled = false ∧ adminRole ∈ user.roles := by
  simp [UserRecord.isAdmin]

theorem Governed.administered (governed : stored.Governed) : stored.Administered := by
  refine ⟨?_, governed.roles⟩
  obtain ⟨username, user, found, admin⟩ := governed.holder
  obtain ⟨record, role, permitted⟩ := governed.role
  obtain ⟨enabled, member⟩ := isAdmin_iff.mp admin
  refine ⟨username, user, found, enabled, ?_⟩
  simp only [resolvePermissions, Finset.mem_biUnion]
  refine ⟨adminRole, member, ?_⟩
  simp only [role, Finset.mem_union]
  exact .inl permitted

theorem holdsAdminRole_iff {username : String} :
    stored.holdsAdminRole username = true ↔
      ∃ user, stored.users[username]? = some user ∧ adminRole ∈ user.roles := by
  unfold holdsAdminRole
  cases stored.users[username]? <;> simp

theorem adminBeside_of_count (several : ¬ stored.adminUserCount ≤ 1) (username : String) :
    stored.AdminBeside username := by
  by_contra alone
  have same : ∀ entry ∈ stored.users.toList.filter (fun entry => entry.2.isAdmin),
      entry.1 = username := by
    rintro ⟨other, user⟩ member
    obtain ⟨listed, admin⟩ := List.mem_filter.mp member
    by_contra different
    exact alone ⟨other, user, different, Std.ExtTreeMap.mem_toList_iff_getElem?_eq_some.mp listed,
      admin⟩
  have distinct : (stored.users.toList.filter fun entry => entry.2.isAdmin).Pairwise
      fun first second => ¬ compare first.1 second.1 = .eq :=
    stored.users.distinct_keys_toList.filter _
  unfold adminUserCount at several
  match listed : stored.users.toList.filter fun entry => entry.2.isAdmin with
  | [] => simp [listed] at several
  | [_] => simp [listed] at several
  | first :: second :: rest =>
    rw [listed] at same distinct
    have apart := (List.pairwise_cons.mp distinct).1 second List.mem_cons_self
    rw [same first List.mem_cons_self, same second (by simp)] at apart
    simp at apart

namespace Governed

variable {username : String} (governed : stored.Governed)
include governed

theorem adminBeside
    (ordinary : ∀ user, stored.users[username]? = some user → user.isAdmin = false) :
    stored.AdminBeside username := by
  obtain ⟨other, user, found, admin⟩ := governed.holder
  refine ⟨other, user, ?_, found, admin⟩
  rintro rfl
  rw [ordinary user found] at admin
  cases admin

theorem isAdmin_or_adminBeside {user : UserRecord} (found : stored.users[username]? = some user) :
    user.isAdmin = true ∨ stored.AdminBeside username := by
  by_cases admin : user.isAdmin = true
  · exact .inl admin
  · refine .inr (governed.adminBeside fun other same => ?_)
    obtain rfl := Option.some.inj (found.symm.trans same)
    exact (Bool.not_eq_true _).mp admin

theorem setUser {user : UserRecord} (known : ∀ role ∈ user.roles, role ∈ stored.roles)
    (keeps : user.isAdmin = true ∨ stored.AdminBeside username) :
    (stored.setUser username user).Governed := by
  refine ⟨?_, governed.role, ?_⟩
  · rcases keeps with admin | ⟨other, admin, different, found, isAdmin⟩
    · exact ⟨username, user, Std.ExtTreeMap.getElem?_insert_self, admin⟩
    · refine ⟨other, admin, ?_, isAdmin⟩
      simp [StoredAuth.setUser, Std.ExtTreeMap.getElem?_insert, Ne.symm different, found]
  · intro other record found
    simp only [StoredAuth.setUser, Std.ExtTreeMap.getElem?_insert,
      Std.LawfulEqCmp.compare_eq_iff_eq] at found
    split at found
    · cases found
      exact known
    · exact governed.roles other record found

theorem removeUser (beside : stored.AdminBeside username) :
    (stored.removeUser username).Governed := by
  refine ⟨?_, governed.role, ?_⟩
  · obtain ⟨other, admin, different, found, isAdmin⟩ := beside
    refine ⟨other, admin, ?_, isAdmin⟩
    simp [StoredAuth.removeUser, Std.ExtTreeMap.getElem?_erase, Ne.symm different, found]
  · intro other record found
    simp only [StoredAuth.removeUser, Std.ExtTreeMap.getElem?_erase,
      Std.LawfulEqCmp.compare_eq_iff_eq] at found
    split at found
    · cases found
    · exact governed.roles other record found

variable {role : String} {record : RoleRecord}

theorem setRole (keeps : role = adminRole → .admin ∈ record.permissions) :
    (stored.setRole role record).Governed := by
  refine ⟨governed.holder, ?_, ?_⟩
  · by_cases admin : role = adminRole
    · subst admin
      exact ⟨record, Std.ExtTreeMap.getElem?_insert_self, keeps rfl⟩
    · obtain ⟨old, found, permitted⟩ := governed.role
      refine ⟨old, ?_, permitted⟩
      simp [StoredAuth.setRole, Std.ExtTreeMap.getElem?_insert, admin, found]
  · intro username user found other member
    exact Std.ExtTreeMap.mem_insert.mpr (.inr (governed.roles username user found other member))

variable {password : String} {hashed : Option String} {changed : StoredAuth}

theorem createUser (done : stored.createUser username password hashed = .ok changed) :
    changed.Governed := by
  unfold StoredAuth.createUser at done
  split at done
  · cases done
  split at done
  · cases done
  rename_i absent
  split at done <;> cases done
  refine governed.setUser (by simp) (.inr (governed.adminBeside ?_))
  intro user found
  rw [Bool.not_eq_true, Std.ExtTreeMap.contains_eq_isSome_getElem?, found] at absent
  cases absent

theorem alterUserPassword (done : stored.alterUserPassword username password hashed = .ok changed) :
    changed.Governed := by
  unfold StoredAuth.alterUserPassword at done
  split at done
  · cases done
  split at done
  · cases done
  rename_i user found
  split at done <;> cases done
  have kept := governed.isAdmin_or_adminBeside found
  exact governed.setUser (governed.roles username user found) kept

theorem adminBeside_of_guard
    (guard : ¬ (stored.adminUserCount ≤ 1 ∧ stored.holdsAdminRole username = true)) :
    stored.AdminBeside username := by
  by_cases several : stored.adminUserCount ≤ 1
  · refine governed.adminBeside fun user found => ?_
    by_contra admin
    exact guard ⟨several, holdsAdminRole_iff.mpr
      ⟨user, found, (isAdmin_iff.mp ((Bool.not_eq_false _).mp admin)).2⟩⟩
  · exact adminBeside_of_count several username

theorem dropUser (done : stored.dropUser username = .ok changed) :
    changed.Governed := by
  unfold StoredAuth.dropUser at done
  split at done
  · cases done
  split at done
  · cases done
  rename_i guard
  cases done
  exact governed.removeUser (governed.adminBeside_of_guard guard)

theorem createRole (done : stored.createRole role = .ok changed) :
    changed.Governed := by
  unfold StoredAuth.createRole at done
  split at done <;> cases done
  rename_i absent
  refine governed.setRole ?_
  rintro rfl
  obtain ⟨record, found, -⟩ := governed.role
  rw [Std.ExtTreeMap.contains_eq_isSome_getElem?, found] at absent
  exact absurd rfl absent

theorem dropRole (done : stored.dropRole role = .ok changed) :
    changed.Governed := by
  unfold StoredAuth.dropRole at done
  split at done
  · cases done
  rename_i ordinary
  split at done <;> cases done
  refine ⟨?_, ?_, ?_⟩
  · obtain ⟨username, user, found, admin⟩ := governed.holder
    refine ⟨username, { user with roles := user.roles.erase role }, ?_, ?_⟩
    · simp [Std.ExtTreeMap.getElem?_map, found]
    · obtain ⟨enabled, member⟩ := isAdmin_iff.mp admin
      exact isAdmin_iff.mpr ⟨enabled, Finset.mem_erase.mpr ⟨Ne.symm ordinary, member⟩⟩
  · obtain ⟨record, found, permitted⟩ := governed.role
    refine ⟨record, ?_, permitted⟩
    simp [Std.ExtTreeMap.getElem?_erase, ordinary, found]
  · intro username user found other member
    simp only [Std.ExtTreeMap.getElem?_map, Option.map_eq_some_iff] at found
    obtain ⟨old, before, rfl⟩ := found
    obtain ⟨different, named⟩ := Finset.mem_erase.mp member
    exact Std.ExtTreeMap.mem_erase.mpr
      ⟨by simpa using Ne.symm different, governed.roles username old before other named⟩

theorem grantRole (done : stored.grantRole role username = .ok changed) : changed.Governed := by
  unfold StoredAuth.grantRole at done
  split at done
  · cases done
  rename_i present
  split at done <;> cases done
  rename_i user found
  refine governed.setUser ?_ ?_
  · intro other member
    rcases Finset.mem_insert.mp member with rfl | old
    · simpa using present
    · exact governed.roles username user found other old
  · refine (governed.isAdmin_or_adminBeside found).imp_left fun admin => ?_
    obtain ⟨enabled, member⟩ := isAdmin_iff.mp admin
    exact isAdmin_iff.mpr ⟨enabled, Finset.mem_insert_of_mem member⟩

theorem revokeRole (done : stored.revokeRole role username = .ok changed) : changed.Governed := by
  unfold StoredAuth.revokeRole at done
  split at done
  · cases done
  rename_i guard
  split at done <;> cases done
  rename_i user found
  refine governed.setUser (fun other member =>
    governed.roles username user found other (Finset.mem_of_mem_erase member)) ?_
  by_cases admin : role = adminRole
  · exact .inr (governed.adminBeside_of_guard fun last => guard ⟨admin, last⟩)
  · refine (governed.isAdmin_or_adminBeside found).imp_left fun holds => ?_
    obtain ⟨enabled, member⟩ := isAdmin_iff.mp holds
    exact isAdmin_iff.mpr ⟨enabled, Finset.mem_erase.mpr ⟨Ne.symm admin, member⟩⟩

theorem permitted (found : stored.roles[adminRole]? = some record) :
    .admin ∈ record.permissions := by
  obtain ⟨other, same, permitted⟩ := governed.role
  obtain rfl := Option.some.inj (same.symm.trans found)
  exact permitted

theorem grantPermission {permission : Permission} {pattern : String}
    (done : stored.grantPermission permission pattern role = .ok changed) : changed.Governed := by
  unfold StoredAuth.grantPermission at done
  split at done <;> cases done
  rename_i record found
  refine governed.setRole ?_
  rintro rfl
  have permitted := governed.permitted found
  exact permitted

theorem revokePermission {permission : Permission} {pattern : String}
    (done : stored.revokePermission permission pattern role = .ok changed) : changed.Governed := by
  unfold StoredAuth.revokePermission at done
  split at done
  · cases done
  rename_i guard
  split at done <;> cases done
  rename_i record found
  refine governed.setRole ?_
  rintro rfl
  have permitted := governed.permitted found
  dsimp only
  split
  · rename_i everything
    refine Finset.mem_erase.mpr ⟨?_, permitted⟩
    rintro rfl
    exact guard ⟨rfl, rfl, everything⟩
  · exact permitted

/-- **Every change keeps an administrator.** -/
theorem perform {operation : AuthOperation} (done : stored.perform operation = .ok changed) :
    changed.Governed := by
  cases operation with
  | createUser => exact governed.createUser done
  | alterUserPassword => exact governed.alterUserPassword done
  | dropUser => exact governed.dropUser done
  | createRole => exact governed.createRole done
  | dropRole => exact governed.dropRole done
  | grantRole => exact governed.grantRole done
  | revokeRole => exact governed.revokeRole done
  | grantPermission => exact governed.grantPermission done
  | revokePermission => exact governed.revokePermission done

end Governed

theorem governed_bootstrapStore {username : String} {hashed : Option String}
    (made : bootstrapStore username hashed = .ok stored) : stored.Governed := by
  unfold bootstrapStore at made
  split at made <;> cases made
  rename_i hash
  refine ⟨⟨username, ⟨hash, {adminRole}, false⟩, Std.ExtTreeMap.getElem?_insert_self,
      by simp [isAdmin_iff]⟩,
    ⟨adminRoleRecord, Std.ExtTreeMap.getElem?_insert_self, Permission.mem_all _⟩, ?_⟩
  intro other user found role member
  simp only [Std.ExtTreeMap.getElem?_insert, Std.LawfulEqCmp.compare_eq_iff_eq] at found
  split at found
  · cases found
    obtain rfl := Finset.mem_singleton.mp member
    exact Std.ExtTreeMap.mem_insert_self
  · simp at found

structure Configured (stored : StoredAuth) (username : String) : Prop where
  governed : stored.Governed
  configured : ∃ user, stored.users[username]? = some user ∧ user.isAdmin = true

namespace Configured

variable {username : String}

theorem removeAdminUserIfPresent (configured : stored.Configured username) {other : String}
    (different : other ≠ username) :
    (stored.removeAdminUserIfPresent other).Configured username := by
  unfold StoredAuth.removeAdminUserIfPresent
  split
  · obtain ⟨user, found, admin⟩ := configured.configured
    refine ⟨configured.governed.removeUser ⟨username, user, Ne.symm different, found, admin⟩, user,
      ?_, admin⟩
    simp [removeUser, Std.ExtTreeMap.getElem?_erase, different, found]
  · exact configured

theorem retirePreviousBootstrapAdmin (configured : stored.Configured username)
    (previous : Option String) :
    (stored.retirePreviousBootstrapAdmin previous username).Configured username := by
  cases previous with
  | none => exact configured
  | some previous =>
    unfold StoredAuth.retirePreviousBootstrapAdmin
    dsimp only
    split
    · exact configured
    · rename_i different
      exact configured.removeAdminUserIfPresent different

theorem retireLegacyDefaultBootstrapUser (configured : stored.Configured username)
    {verify : String → String → Option Bool} {changed : StoredAuth}
    (done : stored.retireLegacyDefaultBootstrapUser verify username = .ok changed) :
    changed.Configured username := by
  unfold StoredAuth.retireLegacyDefaultBootstrapUser at done
  split at done
  · cases done
    exact configured
  rename_i different
  have retired := configured.removeAdminUserIfPresent (Ne.symm different)
  split at done
  · cases done
    exact configured
  split at done
  · cases done
    exact retired
  split at done <;> cases done
  · exact retired
  · exact configured

end Configured

theorem Governed.ensureAdminRole (governed : stored.Governed) : stored.ensureAdminRole.Governed :=
  governed.setRole fun _ => Finset.mem_union_right _ (Permission.mem_all _)

theorem configured_configureAdmin (governed : stored.Governed) (username hash : String) :
    (stored.configureAdmin username hash).Configured username := by
  have role : adminRole ∈ stored.roles := by
    obtain ⟨record, found, -⟩ := governed.role
    exact Std.ExtTreeMap.mem_iff_isSome_getElem?.mpr (by rw [found]; rfl)
  unfold configureAdmin
  cases found : stored.users[username]? with
  | none =>
    have admin : UserRecord.isAdmin ⟨hash, {adminRole}, false⟩ = true := by simp [isAdmin_iff]
    exact ⟨governed.setUser (by simpa using role) (.inl admin), _,
      Std.ExtTreeMap.getElem?_insert_self, admin⟩
  | some user =>
    have admin : UserRecord.isAdmin ⟨hash, insert adminRole user.roles, false⟩ = true := by
      simp [isAdmin_iff]
    have known : ∀ other ∈ insert adminRole user.roles, other ∈ stored.roles := by
      intro other member
      rcases Finset.mem_insert.mp member with rfl | old
      · exact role
      · exact governed.roles username user found other old
    exact ⟨governed.setUser known (.inl admin), _, Std.ExtTreeMap.getElem?_insert_self, admin⟩

/-- **A start keeps an administrator**, whoever is configured. -/
theorem Governed.reconcile (governed : stored.Governed) {verify : String → String → Option Bool}
    {username password : String} {hashed : Option String} {changed : StoredAuth}
    (done : stored.reconcileConfiguredBootstrapAdmin verify username password hashed =
      .ok changed) : changed.Governed := by
  unfold reconcileConfiguredBootstrapAdmin at done
  split at done
  · cases done
    exact ⟨governed.holder, governed.role, governed.roles⟩
  dsimp only at done
  split at done
  · cases done
  rename_i hash
  have configured := (configured_configureAdmin governed.ensureAdminRole username
    hash).retirePreviousBootstrapAdmin stored.bootstrapAdmin
  split at done
  · cases done
  rename_i retired final
  cases done
  obtain ⟨⟨holder, role, roles⟩, -⟩ : retired.Configured username := by
    refine Configured.retireLegacyDefaultBootstrapUser ?_ final
    split
    · exact configured.retirePreviousBootstrapAdmin _
    · exact configured
  exact ⟨holder, role, roles⟩

end StoredAuth

namespace AuthServer

open StoredAuth

/-- What is in memory and what is in the file have an administrator. One of them is there. -/
structure Governed (server : AuthServer) : Prop where
  running : ∀ stored, server.running = some stored → stored.Governed
  file : ∀ stored, server.file = some stored → stored.Governed
  present : server.running ≠ none ∨ server.file ≠ none
  written : server.persists = true → server.file ≠ none

variable {server : AuthServer}

/-- A write leaves the old file or the new one. -/
theorem save_cases (server : AuthServer) (stored : StoredAuth) (saving : Saving) :
    (server.save stored saving).1 = server ∨
      (server.save stored saving).1 = { server with file := some stored } := by
  cases saving with
  | done => exact .inr rfl
  | failed err replaced =>
    cases replaced with
    | false => exact .inl rfl
    | true => exact .inr rfl

theorem save_persists (server : AuthServer) (stored : StoredAuth) (saving : Saving) :
    (server.save stored saving).1.persists = server.persists := by
  rcases server.save_cases stored saving with same | replaced
  · rw [same]
  · rw [replaced]

variable {stored : StoredAuth}

theorem Governed.save (governed : server.Governed) (administered : stored.Governed)
    (saving : Saving) :
    (server.save stored saving).1.Governed := by
  rcases server.save_cases stored saving with same | replaced
  · rwa [same]
  · rw [replaced]
    refine ⟨governed.running, ?_, .inr nofun, fun _ => nofun⟩
    rintro _ ⟨⟩
    exact administered

theorem Governed.load (governed : server.Governed) {verify : String → String → Option Bool}
    {username password : String} {hashed : Option String} {unreadable : Option ServerError}
    (loaded : server.load verify username password hashed unreadable = .ok stored) :
    stored.Governed := by
  unfold AuthServer.load at loaded
  split at loaded
  · cases loaded
  split at loaded
  · exact governed_bootstrapStore loaded
  · rename_i before found
    split at loaded
    · cases loaded
    · exact (governed.file before found).reconcile loaded

theorem Governed.setRunning (governed : server.Governed) {running : Option StoredAuth}
    (administered : ∀ stored, running = some stored → stored.Governed)
    (present : running ≠ none ∨ server.file ≠ none) :
    ({ server with running := running } : AuthServer).Governed :=
  ⟨administered, governed.file, present, governed.written⟩

/-- Every change and every start keep an administrator. -/
theorem Governed.step (governed : server.Governed) (verify : String → String → Option Bool)
    (event : AuthEvent) : (server.step verify event).1.Governed := by
  cases event with
  | operation operation saving =>
    unfold AuthServer.step
    dsimp only
    split
    · exact governed
    rename_i stored running
    split
    · exact governed
    rename_i changed done
    have administered := (governed.running stored running).perform done
    have next : ({ server with running := some changed } : AuthServer).Governed :=
      governed.setRunning (by rintro _ ⟨⟩; exact administered) (.inl nofun)
    split
    · exact next.save administered saving
    · exact next
  | start username password hashed unreadable saving =>
    unfold AuthServer.step
    dsimp only
    split
    swap
    · exact governed
    rename_i persists
    split
    · exact governed.setRunning nofun (.inr (governed.written persists))
    rename_i stored loaded
    have administered := governed.load loaded
    have saved := governed.save administered saving
    split
    · rename_i outcome
      rw [outcome] at saved
      exact saved.setRunning (by rintro _ ⟨⟩; exact administered) (.inl nofun)
    · rename_i written err outcome
      have kept : written.persists = true := by
        have same := server.save_persists stored saving
        rwa [outcome, persists] at same
      rw [outcome] at saved
      exact saved.setRunning nofun (.inr (saved.written kept))

theorem governed_bootstrapped (administered : stored.Governed) (persists : Bool) :
    (bootstrapped stored persists).Governed := by
  refine ⟨by rintro _ ⟨⟩; exact administered, ?_, .inl nofun, ?_⟩
  · intro saved found
    cases persists <;> cases found
    exact administered
  · exact nofun

theorem Governed.run (governed : server.Governed) (verify : String → String → Option Bool)
    (events : List AuthEvent) : (server.run verify events).Governed := by
  induction events generalizing server with
  | nil => exact governed
  | cons event events ih => exact ih (governed.step verify event)

/-- **There is always an administrator.** After any changes, successful or not, and any starts
with any credentials, the store has an enabled user with the permission to administrate, and its
users name existing roles. So does the file. -/
theorem always_administered (verify : String → String → Option Bool) (username hash : String)
    (persists : Bool) (stored : StoredAuth)
    (made : bootstrapStore username (some hash) = .ok stored) (events : List AuthEvent) :
    (∃ current, ((bootstrapped stored persists).run verify events).current = some current ∧
        current.Administered) ∧
      ∀ saved, ((bootstrapped stored persists).run verify events).file = some saved →
        saved.Administered := by
  have governed := (governed_bootstrapped (governed_bootstrapStore made) persists).run verify
    events
  refine ⟨?_, fun saved found => (governed.file saved found).administered⟩
  unfold current
  cases running : ((bootstrapped stored persists).run verify events).running with
  | some current => exact ⟨current, rfl, (governed.running current running).administered⟩
  | none =>
    cases found : ((bootstrapped stored persists).run verify events).file with
    | some saved => exact ⟨saved, rfl, (governed.file saved found).administered⟩
    | none => exact absurd governed.present (by rw [running, found]; simp)

/-- An administrator is created, takes over, and the first one goes with the next start. -/
theorem always_administered_renamed :
    ∃ stored, bootstrapStore "root" (some "h") = .ok stored ∧
      ∃ current, ((bootstrapped stored true).run (fun _ _ => some false)
        [.operation (.createUser "alice" "password1234" (some "i")) .done,
          .operation (.grantRole "admin" "alice") .done,
          .start "owner" "secret" (some "j") none .done]).current = some current ∧
        current.Administered := by
  refine ⟨_, rfl, ?_⟩
  exact (always_administered (fun _ _ => some false) "root" "h" true _ rfl _).1

end AuthServer

end Vaylix
