import Mathlib.Data.List.Basic
import Vaylix.Server.Lockout
import Vaylix.Server.Session

/-!
# Authentication and lockouts

`handle_auth` looks for a lockout of the user and the peer and for one of the user alone,
clears both records after a success and counts a failure in both. A peer includes the port:
failures over several connections are counted apart, and a success clears the record of its
own address only. Where neither matters, a user is locked out for a machine from the failure
that reaches the limit on.
-/

namespace Vaylix

open LabelledRun

/-! ### Keys -/

class SocketText (Ip : Type) where
  text : Ip → UInt16 → String
  injective : ∀ {ip other : Ip} {port another : UInt16},
    text ip port = text other another → ip = other ∧ port = another
  unseparated : ∀ ip port, '|' ∉ (text ip port).toList
  colon : ∀ ip port, ':' ∈ (text ip port).toList

section Split

variable {separator : Char} {front back otherFront otherBack : List Char}

theorem split_last (free : separator ∉ back) (otherFree : separator ∉ otherBack)
    (same : front ++ separator :: back = otherFront ++ separator :: otherBack) :
    front = otherFront ∧ back = otherBack := by
  rcases List.append_eq_append_iff.mp same with ⟨more, rfl, behind⟩ | ⟨more, rfl, behind⟩
  · rcases more with _ | ⟨ch, more⟩
    · cases behind
      exact ⟨(List.append_nil _).symm, rfl⟩
    · cases behind
      exact absurd (List.mem_append_right _ List.mem_cons_self) free
  · rcases more with _ | ⟨ch, more⟩
    · cases behind
      exact ⟨List.append_nil _, rfl⟩
    · cases behind
      exact absurd (List.mem_append_right _ List.mem_cons_self) otherFree

theorem split_first (free : separator ∉ front) (otherFree : separator ∉ otherFront)
    (same : front ++ separator :: back = otherFront ++ separator :: otherBack) :
    front = otherFront ∧ back = otherBack := by
  have turned := congrArg List.reverse same
  simp only [List.reverse_append, List.reverse_cons, List.append_assoc, List.singleton_append]
    at turned
  obtain ⟨behind, before⟩ := split_last (by simpa using free) (by simpa using otherFree) turned
  exact ⟨List.reverse_injective before, List.reverse_injective behind⟩

end Split

structure Ipv4Addr where
  a : UInt8
  b : UInt8
  c : UInt8
  d : UInt8
deriving DecidableEq, Repr

namespace Ipv4Addr

def text (ip : Ipv4Addr) (port : UInt16) : String :=
  ip.a.toNat.repr ++ ("." ++ (ip.b.toNat.repr ++ ("." ++ (ip.c.toNat.repr ++ ("." ++
    (ip.d.toNat.repr ++ (":" ++ port.toNat.repr)))))))

theorem toList_text (ip : Ipv4Addr) (port : UInt16) :
    (ip.text port).toList = ip.a.toNat.repr.toList ++ '.' :: (ip.b.toNat.repr.toList ++ '.' ::
      (ip.c.toNat.repr.toList ++ '.' ::
        (ip.d.toNat.repr.toList ++ ':' :: port.toNat.repr.toList))) := by
  simp only [text, String.toList_append]
  rfl

theorem notMem_repr {ch : Char} (other : ch.isDigit = false) (n : Nat) : ch ∉ n.repr.toList := by
  intro member
  rw [Nat.toList_repr] at member
  rw [Nat.isDigit_of_mem_toDigits (by decide) (by decide) member] at other
  cases other

instance : SocketText Ipv4Addr where
  text := text
  injective {ip other port another} same := by
    have dot := @notMem_repr '.' rfl
    have spelled := congrArg String.toList same
    rw [toList_text, toList_text] at spelled
    obtain ⟨a, spelled⟩ := split_first (dot _) (dot _) spelled
    obtain ⟨b, spelled⟩ := split_first (dot _) (dot _) spelled
    obtain ⟨c, spelled⟩ := split_first (dot _) (dot _) spelled
    obtain ⟨d, last⟩ := split_first (notMem_repr rfl _) (notMem_repr rfl _) spelled
    obtain ⟨a₁, b₁, c₁, d₁⟩ := ip
    obtain ⟨a₂, b₂, c₂, d₂⟩ := other
    have number {m n : Nat} (same : m.repr.toList = n.repr.toList) : m = n := by
      rw [Nat.toList_repr, Nat.toList_repr] at same
      rw [← @Nat.ofDigitChars_ten_toDigits m, same, Nat.ofDigitChars_ten_toDigits]
    obtain rfl := UInt8.toNat_inj.mp (number a)
    obtain rfl := UInt8.toNat_inj.mp (number b)
    obtain rfl := UInt8.toNat_inj.mp (number c)
    obtain rfl := UInt8.toNat_inj.mp (number d)
    exact ⟨rfl, UInt16.toNat_inj.mp (number last)⟩
  unseparated ip port := by
    have bar := @notMem_repr '|' rfl
    rw [toList_text]
    simp only [List.mem_append, List.mem_cons, not_or]
    exact ⟨bar _, by decide, bar _, by decide, bar _, by decide, bar _, by decide, bar _⟩
  colon ip port := by
    rw [toList_text]
    simp

end Ipv4Addr

section Keys

variable {Ip : Type} [SocketText Ip]

def peerText : Option (Ip × UInt16) → String
  | some (ip, port) => SocketText.text ip port
  | none => "unknown"

def authLockoutKey (username : String) (peer : Option (Ip × UInt16)) : String :=
  username ++ ("|" ++ peerText peer)

def authLockoutUsernameKey (username : String) : String := username ++ "|*"

theorem peerText_unseparated (peer : Option (Ip × UInt16)) : '|' ∉ (peerText peer).toList := by
  cases peer with
  | none =>
    change '|' ∉ "unknown".toList
    decide
  | some address => exact SocketText.unseparated address.1 address.2

/-- A peer is determined by its text. -/
theorem peerText_injective {peer other : Option (Ip × UInt16)}
    (same : peerText peer = peerText other) : peer = other := by
  have known (ip : Ip) (port : UInt16) : SocketText.text ip port ≠ "unknown" := by
    intro unknown
    have colon := SocketText.colon ip port
    rw [unknown] at colon
    revert colon
    decide
  rcases peer with _ | ⟨ip, port⟩ <;> rcases other with _ | ⟨otherIp, another⟩
  · rfl
  · exact absurd same.symm (known _ _)
  · exact absurd same (known _ _)
  · obtain ⟨rfl, rfl⟩ := SocketText.injective same
    rfl

theorem toList_authLockoutKey (username : String) (peer : Option (Ip × UInt16)) :
    (authLockoutKey username peer).toList = username.toList ++ '|' :: (peerText peer).toList := by
  simp only [authLockoutKey, String.toList_append]
  rfl

theorem toList_authLockoutUsernameKey (username : String) :
    (authLockoutUsernameKey username).toList = username.toList ++ '|' :: ['*'] := by
  rw [authLockoutUsernameKey, String.toList_append]
  rfl

theorem authLockoutKey_inj {username other : String} {peer another : Option (Ip × UInt16)} :
    authLockoutKey username peer = authLockoutKey other another ↔
      username = other ∧ peer = another := by
  refine ⟨fun same => ?_, by rintro ⟨rfl, rfl⟩; rfl⟩
  have spelled := congrArg String.toList same
  rw [toList_authLockoutKey, toList_authLockoutKey] at spelled
  obtain ⟨name, text⟩ := split_last (peerText_unseparated peer) (peerText_unseparated another)
    spelled
  exact ⟨String.toList_inj.mp name, peerText_injective (String.toList_inj.mp text)⟩

theorem authLockoutKey_ne_usernameKey (username other : String) (peer : Option (Ip × UInt16)) :
    authLockoutKey username peer ≠ authLockoutUsernameKey other := by
  intro same
  have spelled := congrArg String.toList same
  rw [toList_authLockoutKey, toList_authLockoutUsernameKey] at spelled
  obtain ⟨-, text⟩ := split_last (peerText_unseparated peer) (by decide) spelled
  rcases peer with _ | ⟨ip, port⟩
  · revert text
    change "unknown".toList = ['*'] → False
    decide
  · have colon := SocketText.colon ip port
    change (SocketText.text ip port).toList = ['*'] at text
    rw [text] at colon
    revert colon
    decide

end Keys

/-! ### One attempt -/

inductive Verification where
  | unreadable
  | rejected
  | verified (identity : Identity)

/-- An `AUTH` command with its peer, the clock before and after the verification, and its
result. -/
structure AuthAttempt (Ip : Type) where
  username : String
  peer : Option (Ip × UInt16)
  checkedAtMs : UInt64
  verification : Verification
  failedAtMs : UInt64

structure LockoutConfig where
  failureWindow : Nat
  failureLimit : Nat
  lockout : Nat

namespace LockoutConfig

def windowMs (config : LockoutConfig) : Nat := config.failureWindow % 2 ^ 64

def lockoutMs (config : LockoutConfig) : Nat := config.lockout % 2 ^ 64

/-- The limit for a user over all peers. -/
def usernameLimit (config : LockoutConfig) : Nat := max (min (config.failureLimit * 3) u32Max) 1

end LockoutConfig

namespace AuthLockoutState

variable {Ip : Type} [SocketText Ip]

def lockedFor (state : AuthLockoutState) (attempt : AuthAttempt Ip) : Option Nat :=
  (state.remainingLockoutSeconds (authLockoutKey attempt.username attempt.peer)
    attempt.checkedAtMs.toNat).or
    (state.remainingLockoutSeconds (authLockoutUsernameKey attempt.username)
      attempt.checkedAtMs.toNat)

/-- `handle_auth` without the session: the verdict it answers with. -/
def authenticate (config : LockoutConfig) (state : AuthLockoutState) (attempt : AuthAttempt Ip) :
    AuthLockoutState × AuthVerdict :=
  let lockoutKey := authLockoutKey attempt.username attempt.peer
  let usernameKey := authLockoutUsernameKey attempt.username
  match state.lockedFor attempt with
  | some remainingSeconds => (state, .locked remainingSeconds)
  | none =>
    match attempt.verification with
    | .unreadable => (state, .unreadable)
    | .verified identity =>
      ((state.clearSuccess lockoutKey).clearSuccess usernameKey, .verified identity)
    | .rejected =>
      let nowMs := attempt.failedAtMs.toNat
      let peer := state.recordFailure lockoutKey nowMs config.windowMs config.failureLimit
        config.lockoutMs
      let both := peer.1.recordFailure usernameKey nowMs config.windowMs config.usernameLimit
        config.lockoutMs
      (both.1, .rejected)

/-- `handle_auth`: the verdict and the answer to the session. -/
def answerAuth (config : LockoutConfig) (state : AuthLockoutState) (runtime : ServerRuntime)
    (around : Surroundings) (server : Server) (session : SessionState)
    (attempt : AuthAttempt Ip) : AuthLockoutState × Processed :=
  let (next, verdict) := state.authenticate config attempt
  (next, handleAuth runtime { around with authentication := verdict } server session
    attempt.username)

def authenticateAll (config : LockoutConfig) (state : AuthLockoutState)
    (attempts : List (AuthAttempt Ip)) : AuthLockoutState :=
  attempts.foldl (fun state attempt => (state.authenticate config attempt).1) state

theorem getElem?_empty (key : String) : ({} : AuthLockoutState).records[key]? = none := by
  simp

section Attempt

variable {config : LockoutConfig} {state : AuthLockoutState} {attempt : AuthAttempt Ip}

theorem getElem?_recordFailure_self (key : String)
    (nowMs failureWindow failureLimit lockout : Nat) :
    (state.recordFailure key nowMs failureWindow failureLimit lockout).1.records[key]? =
      some ((state.records[key]?.getD (.unfailed nowMs)).fail nowMs failureWindow failureLimit
        lockout).1 := by
  simp only [recordFailure, Std.ExtTreeMap.getElem?_insert_self]

theorem getElem?_recordFailure_other {key other : String} (apart : other ≠ key)
    (nowMs failureWindow failureLimit lockout : Nat) :
    (state.recordFailure key nowMs failureWindow failureLimit lockout).1.records[other]? =
      state.records[other]? := by
  simp only [recordFailure, Std.ExtTreeMap.getElem?_insert]
  rw [if_neg (fun same => apart (Std.LawfulEqCmp.eq_of_compare same).symm)]

theorem getElem?_clearSuccess_self (key : String) :
    (state.clearSuccess key).records[key]? = none := by
  simp only [clearSuccess, Std.ExtTreeMap.getElem?_erase_self]

theorem getElem?_clearSuccess_other {key other : String} (apart : other ≠ key) :
    (state.clearSuccess key).records[other]? = state.records[other]? := by
  simp only [clearSuccess, Std.ExtTreeMap.getElem?_erase]
  rw [if_neg (fun same => apart (Std.LawfulEqCmp.eq_of_compare same).symm)]

theorem getElem?_authenticate_other {key : String}
    (peer : key ≠ authLockoutKey attempt.username attempt.peer)
    (user : key ≠ authLockoutUsernameKey attempt.username) :
    (state.authenticate config attempt).1.records[key]? = state.records[key]? := by
  unfold authenticate
  split
  · rfl
  · split
    · rfl
    · rw [getElem?_clearSuccess_other user, getElem?_clearSuccess_other peer]
    · rw [getElem?_recordFailure_other user, getElem?_recordFailure_other peer]

theorem authenticate_locked {seconds : Nat} (locked : state.lockedFor attempt = some seconds) :
    state.authenticate config attempt = (state, .locked seconds) := by
  rw [authenticate, locked]

theorem authenticate_unreadable (free : state.lockedFor attempt = none)
    (verification : attempt.verification = .unreadable) :
    state.authenticate config attempt = (state, .unreadable) := by
  rw [authenticate, free, verification]

theorem getElem?_authenticate_rejected (free : state.lockedFor attempt = none)
    (verification : attempt.verification = .rejected) :
    (state.authenticate config attempt).1.records[authLockoutKey attempt.username
        attempt.peer]? =
      some ((state.records[authLockoutKey attempt.username attempt.peer]?.getD
        (.unfailed attempt.failedAtMs.toNat)).fail attempt.failedAtMs.toNat config.windowMs
          config.failureLimit config.lockoutMs).1 := by
  rw [authenticate, free, verification]
  rw [getElem?_recordFailure_other (authLockoutKey_ne_usernameKey _ _ _),
    getElem?_recordFailure_self]

theorem getElem?_authenticate_verified {identity : Identity}
    (free : state.lockedFor attempt = none)
    (verification : attempt.verification = .verified identity) :
    (state.authenticate config attempt).1.records[authLockoutKey attempt.username
        attempt.peer]? = none := by
  rw [authenticate, free, verification]
  rw [getElem?_clearSuccess_other (authLockoutKey_ne_usernameKey _ _ _),
    getElem?_clearSuccess_self]

theorem lockedFor_of_record {record : AuthLockoutRecord} {lockedUntilMs : Nat}
    (found : state.records[authLockoutKey attempt.username attempt.peer]? = some record)
    (locked : record.lockedUntilMs = some lockedUntilMs)
    (before : attempt.checkedAtMs.toNat ≤ lockedUntilMs) :
    ∃ seconds, state.lockedFor attempt = some seconds := by
  refine ⟨(lockedUntilMs - attempt.checkedAtMs.toNat + 999) / 1000, ?_⟩
  rw [lockedFor, remainingLockoutSeconds, found]
  simp [locked, before]

end Attempt

end AuthLockoutState

/-! ### Runs -/

namespace AuthAttempt

variable {Ip : Type}

def Concerns (attempt : AuthAttempt Ip) (username : String) (ip : Ip) : Prop :=
  attempt.username = username ∧ attempt.peer.map Prod.fst = some ip

instance [DecidableEq Ip] (attempt : AuthAttempt Ip) (username : String) (ip : Ip) :
    Decidable (attempt.Concerns username ip) :=
  inferInstanceAs (Decidable (_ ∧ _))

def Ordered (attempts : List (AuthAttempt Ip)) : Prop :=
  (attempts.flatMap fun attempt => [attempt.checkedAtMs.toNat, attempt.failedAtMs.toNat]).Pairwise
    (· ≤ ·)

theorem Concerns.exists_port {attempt : AuthAttempt Ip} {username : String} {ip : Ip}
    (concerns : attempt.Concerns username ip) : ∃ port, attempt.peer = some (ip, port) := by
  obtain ⟨⟨_, port⟩, found, rfl⟩ := Option.map_eq_some_iff.mp concerns.2
  exact ⟨port, found⟩

end AuthAttempt

namespace AuthLockoutState

variable {Ip : Type} [SocketText Ip]

section Run

variable (config : LockoutConfig)

def Fails (state : AuthLockoutState) (attempt : AuthAttempt Ip) : Bool :=
  match (state.authenticate config attempt).2 with
  | .rejected => true
  | _ => false

def Succeeds (state : AuthLockoutState) (attempt : AuthAttempt Ip) : Bool :=
  match (state.authenticate config attempt).2 with
  | .verified _ => true
  | _ => false

/-- The times of the failures of a user from a machine. -/
def failureTimes [DecidableEq Ip] (username : String) (ip : Ip) :
    AuthLockoutState → List (AuthAttempt Ip) → List Nat
  | _, [] => []
  | state, attempt :: rest =>
    let later := failureTimes username ip (state.authenticate config attempt).1 rest
    if attempt.Concerns username ip ∧ state.Fails config attempt then
      attempt.failedAtMs.toNat :: later
    else later

/-- No attempt authenticates the user. -/
def NoSuccess (username : String) : AuthLockoutState → List (AuthAttempt Ip) → Prop
  | _, [] => True
  | state, attempt :: rest =>
    (attempt.username = username → state.Succeeds config attempt = false) ∧
      NoSuccess username (state.authenticate config attempt).1 rest

/-- The failures of a user from a machine that are remembered have come over the port of the
attempt, and a success finds no failure of the user from elsewhere. -/
structure OneAddress (state : AuthLockoutState) (attempt : AuthAttempt Ip) : Prop where
  port : ∀ ip port other, attempt.peer = some (ip, port) → other ≠ port →
    state.records[authLockoutKey attempt.username (some (ip, other))]? = none
  success : state.lockedFor attempt = none →
    (∃ identity, attempt.verification = .verified identity) → ∀ peer, peer ≠ attempt.peer →
    state.records[authLockoutKey attempt.username peer]? = none

end Run

variable {config : LockoutConfig} {state : AuthLockoutState} {attempt : AuthAttempt Ip}

theorem fails_iff : state.Fails config attempt ↔
    state.lockedFor attempt = none ∧ attempt.verification = .rejected := by
  unfold Fails authenticate
  cases state.lockedFor attempt with
  | some seconds => exact ⟨nofun, nofun⟩
  | none => cases attempt.verification <;> simp

theorem succeeds_iff : state.Succeeds config attempt ↔
    state.lockedFor attempt = none ∧ ∃ identity, attempt.verification = .verified identity := by
  unfold Succeeds authenticate
  cases state.lockedFor attempt with
  | some seconds => exact ⟨nofun, nofun⟩
  | none => cases attempt.verification <;> simp

theorem authenticateAll_append {first second : List (AuthAttempt Ip)} :
    authenticateAll config state (first ++ second) =
      authenticateAll config (authenticateAll config state first) second :=
  List.foldl_append

theorem run_eq_authenticateAll (attempts : List (AuthAttempt Ip)) :
    run (fun state attempt => some (authenticate config state attempt).1) state attempts =
      some (authenticateAll config state attempts) := by
  induction attempts generalizing state with
  | nil => rfl
  | cons attempt rest ih => exact ih

/-- The record of failures that are all in one window. -/
def recordOf (config : LockoutConfig) (first : Nat) (more : List Nat) : AuthLockoutRecord :=
  ⟨first, more.length + 1,
    if config.failureLimit ≤ more.length + 1 then
      some (satAdd ((first :: more).getLast (List.cons_ne_nil _ _)) config.lockoutMs)
    else none⟩

/-- The failures of a user from a machine are those of one record. -/
def Tracked (config : LockoutConfig) (username : String) (ip : Ip) (state : AuthLockoutState) :
    List Nat → Prop
  | [] => ∀ port, state.records[authLockoutKey username (some (ip, port))]? = none
  | first :: more => ∃ port, state.records[authLockoutKey username (some (ip, port))]? =
      some (recordOf config first more)

theorem recordOf_fail {first nowMs : Nat} {more : List Nat}
    (within : nowMs - first ≤ config.windowMs) (room : more.length + 1 < config.failureLimit)
    (limit : config.failureLimit ≤ u32Max) :
    ((recordOf config first more).fail nowMs config.windowMs config.failureLimit
      config.lockoutMs).1 = recordOf config first (more ++ [nowMs]) := by
  have current : (recordOf config first more).reopen nowMs config.windowMs =
      recordOf config first more := if_neg (Nat.not_lt.mpr within)
  have count : min (more.length + 1 + 1) u32Max = more.length + 1 + 1 := min_eq_left (by omega)
  have unlocked : ¬ config.failureLimit ≤ more.length + 1 := Nat.not_le.mpr room
  simp only [AuthLockoutRecord.fail, current]
  simp only [recordOf, count, unlocked, if_false, List.length_append, List.length_singleton]
  split <;> simp

theorem unfailed_fail_eq (nowMs : Nat) :
    ((AuthLockoutRecord.unfailed nowMs).fail nowMs config.windowMs config.failureLimit
      config.lockoutMs).1 = recordOf config nowMs [] := by
  have first : (AuthLockoutRecord.unfailed nowMs).reopen nowMs config.windowMs =
      .unfailed nowMs := ite_self _
  have count : min (0 + 1) u32Max = 1 := rfl
  simp only [AuthLockoutRecord.fail, first]
  simp only [AuthLockoutRecord.unfailed, recordOf, count, List.length_nil]
  split <;> rfl

theorem authenticate_state (calm : state.Fails config attempt = false)
    (quiet : state.Succeeds config attempt = false) :
    (state.authenticate config attempt).1 = state := by
  cases locked : state.lockedFor attempt with
  | some seconds => rw [authenticate_locked locked]
  | none =>
    cases verification : attempt.verification with
    | unreadable => rw [authenticate_unreadable locked verification]
    | rejected =>
      rw [fails_iff.mpr ⟨locked, verification⟩] at calm
      cases calm
    | verified identity =>
      rw [succeeds_iff.mpr ⟨locked, identity, verification⟩] at quiet
      cases quiet

section Tracked

variable {username : String} {ip : Ip} {times : List Nat}

/-- Attempts for other users or from other machines leave a record alone. -/
theorem getElem?_authenticate_apart (apart : ¬ attempt.Concerns username ip) (port : UInt16) :
    (state.authenticate config attempt).1.records[authLockoutKey username (some (ip, port))]? =
      state.records[authLockoutKey username (some (ip, port))]? := by
  refine getElem?_authenticate_other (fun same => ?_) (authLockoutKey_ne_usernameKey _ _ _)
  obtain ⟨name, peer⟩ := authLockoutKey_inj.mp same
  exact apart ⟨name.symm, by rw [← peer]; rfl⟩

theorem OneAddress.port_eq (one : OneAddress state attempt)
    (concerns : attempt.Concerns username ip) {port before : UInt16} {record : AuthLockoutRecord}
    (peer : attempt.peer = some (ip, port))
    (found : state.records[authLockoutKey username (some (ip, before))]? = some record) :
    before = port := by
  by_contra other
  have none := one.port ip port before peer other
  rw [concerns.1, found] at none
  cases none

variable (tracked : Tracked config username ip state times)
include tracked

theorem Tracked.congr {next : AuthLockoutState}
    (same : ∀ port, next.records[authLockoutKey username (some (ip, port))]? =
      state.records[authLockoutKey username (some (ip, port))]?) :
    Tracked config username ip next times := by
  cases times with
  | nil => exact fun port => (same port).trans (tracked port)
  | cons first more =>
    obtain ⟨port, found⟩ := tracked
    exact ⟨port, (same port).trans found⟩

theorem Tracked.fail (limit : config.failureLimit ≤ u32Max) (one : OneAddress state attempt)
    (concerns : attempt.Concerns username ip) (fails : state.Fails config attempt)
    (room : times = [] ∨ times.length < config.failureLimit)
    (within : ∀ first ∈ times.head?, attempt.failedAtMs.toNat - first ≤ config.windowMs) :
    Tracked config username ip (state.authenticate config attempt).1
      (times ++ [attempt.failedAtMs.toNat]) := by
  obtain ⟨free, rejected⟩ := fails_iff.mp fails
  obtain ⟨port, peer⟩ := concerns.exists_port
  have counted : (state.authenticate config attempt).1.records[authLockoutKey attempt.username
      attempt.peer]? = _ := getElem?_authenticate_rejected free rejected
  rw [concerns.1, peer] at counted
  cases times with
  | nil =>
    rw [tracked port, Option.getD_none, unfailed_fail_eq] at counted
    exact ⟨port, counted⟩
  | cons first more =>
    obtain ⟨before, found⟩ := tracked
    obtain rfl := one.port_eq concerns peer found
    have fits : more.length + 1 < config.failureLimit := room.resolve_left (List.cons_ne_nil _ _)
    rw [found, Option.getD_some, recordOf_fail (within first rfl) fits limit] at counted
    exact ⟨before, counted⟩

/-- An attempt keeps the failures in one record. -/
theorem Tracked.step [DecidableEq Ip] (limit : config.failureLimit ≤ u32Max)
    (one : OneAddress state attempt)
    (quiet : attempt.username = username → state.Succeeds config attempt = false)
    (room : attempt.Concerns username ip → state.Fails config attempt →
      times = [] ∨ times.length < config.failureLimit)
    (within : attempt.Concerns username ip → state.Fails config attempt →
      ∀ first ∈ times.head?, attempt.failedAtMs.toNat - first ≤ config.windowMs) :
    Tracked config username ip (state.authenticate config attempt).1
      (times ++ failureTimes config username ip state [attempt]) := by
  by_cases concerns : attempt.Concerns username ip
  · cases fails : state.Fails config attempt with
    | true =>
      rw [failureTimes, if_pos ⟨concerns, fails⟩]
      exact tracked.fail limit one concerns fails (room concerns fails) (within concerns fails)
    | false =>
      rw [failureTimes, if_neg (by simp [fails]), authenticate_state fails (quiet concerns.1)]
      simpa [failureTimes] using tracked
  · rw [failureTimes, if_neg (fun both => concerns both.1)]
    simpa [failureTimes] using tracked.congr (getElem?_authenticate_apart concerns)

omit tracked

theorem failureTimes_cons [DecidableEq Ip] {rest : List (AuthAttempt Ip)} :
    failureTimes config username ip state (attempt :: rest) =
      failureTimes config username ip state [attempt] ++
        failureTimes config username ip (state.authenticate config attempt).1 rest := by
  simp only [failureTimes]
  split <;> simp

variable {first : Nat} {more : List Nat}

theorem Tracked.lockedFor (tracked : Tracked config username ip state (first :: more))
    (one : OneAddress state attempt) (concerns : attempt.Concerns username ip)
    (reached : config.failureLimit ≤ more.length + 1) (lasts : attempt.checkedAtMs.toNat ≤
      (first :: more).getLast (List.cons_ne_nil _ _) + config.lockoutMs) :
    ∃ seconds, state.lockedFor attempt = some seconds := by
  obtain ⟨port, peer⟩ := concerns.exists_port
  obtain ⟨before, found⟩ := tracked
  obtain rfl := one.port_eq concerns peer found
  rw [← concerns.1, ← peer] at found
  refine lockedFor_of_record found (if_pos reached) (le_min lasts ?_)
  exact Nat.le_of_lt_succ attempt.checkedAtMs.toNat_lt

/-- While failures of the user are remembered and the lockout lasts, nobody becomes the user. -/
theorem Tracked.quiet (tracked : Tracked config username ip state (first :: more))
    (one : OneAddress state attempt) (reached : config.failureLimit ≤ more.length + 1)
    (lasts : attempt.checkedAtMs.toNat ≤
      (first :: more).getLast (List.cons_ne_nil _ _) + config.lockoutMs)
    (same : attempt.username = username) : state.Succeeds config attempt = false := by
  rw [Bool.eq_false_iff]
  intro succeeds
  obtain ⟨free, verified⟩ := succeeds_iff.mp succeeds
  by_cases concerns : attempt.Concerns username ip
  · obtain ⟨seconds, locked⟩ := tracked.lockedFor one concerns reached lasts
    rw [free] at locked
    cases locked
  · obtain ⟨port, found⟩ := tracked
    have none := one.success free verified (some (ip, port))
      fun peer => concerns ⟨same, by rw [← peer]; rfl⟩
    rw [same, found] at none
    cases none

variable [DecidableEq Ip]

/-- The failures along a run are counted in one record, as long as they are in its window. -/
theorem Tracked.run {attempts : List (AuthAttempt Ip)} {whole : List Nat}
    (tracked : Tracked config username ip state times) (limit : config.failureLimit ≤ u32Max)
    (meets : Meets (fun state attempt => some (authenticate config state attempt).1) OneAddress
      state attempts)
    (noSuccess : NoSuccess config username state attempts)
    (all : times ++ failureTimes config username ip state attempts = whole)
    (short : whole.length ≤ config.failureLimit)
    (within : ∀ first ∈ whole.head?, ∀ time ∈ whole, time - first ≤ config.windowMs) :
    Tracked config username ip (authenticateAll config state attempts) whole := by
  induction attempts generalizing state times with
  | nil =>
    rw [failureTimes, List.append_nil] at all
    rw [← all]
    exact tracked
  | cons attempt rest ih =>
    obtain ⟨one, others⟩ := meets
    obtain ⟨quiet, still⟩ := noSuccess
    rw [failureTimes_cons, ← List.append_assoc] at all
    refine ih (tracked.step limit one quiet (fun concerns fails => ?_)
      fun concerns fails first head => ?_) (others _ rfl) still all
    · right
      have counted := congrArg List.length all
      rw [failureTimes, if_pos ⟨concerns, fails⟩] at counted
      simp only [List.length_append, List.length_cons] at counted
      omega
    · rw [failureTimes, if_pos ⟨concerns, fails⟩] at all
      refine within first ?_ _ ?_
      · rw [← all, List.append_assoc]
        cases times with
        | nil => cases head
        | cons _ _ => exact head
      · rw [← all]
        simp

theorem Tracked.stay {attempts : List (AuthAttempt Ip)}
    (tracked : Tracked config username ip state (first :: more))
    (limit : config.failureLimit ≤ u32Max)
    (meets : Meets (fun state attempt => some (authenticate config state attempt).1) OneAddress
      state attempts) (reached : config.failureLimit ≤ more.length + 1)
    (lasts : ∀ attempt ∈ attempts, attempt.checkedAtMs.toNat ≤
      (first :: more).getLast (List.cons_ne_nil _ _) + config.lockoutMs) :
    Tracked config username ip (authenticateAll config state attempts) (first :: more) := by
  induction attempts generalizing state with
  | nil => exact tracked
  | cons attempt rest ih =>
    obtain ⟨one, others⟩ := meets
    obtain ⟨now, later⟩ := List.forall_mem_cons.mp lasts
    have refused (concerns : attempt.Concerns username ip) :
        state.Fails config attempt = false := by
      rw [Bool.eq_false_iff]
      intro fails
      obtain ⟨seconds, locked⟩ := tracked.lockedFor one concerns reached now
      rw [(fails_iff.mp fails).1] at locked
      cases locked
    have next := tracked.step limit one (tracked.quiet one reached now)
      (fun concerns fails => absurd fails (Bool.eq_false_iff.mp (refused concerns)))
      fun concerns fails => absurd fails (Bool.eq_false_iff.mp (refused concerns))
    rw [failureTimes, if_neg (fun both => Bool.eq_false_iff.mp (refused both.1) both.2),
      failureTimes, List.append_nil] at next
    exact ih next (others _ rfl) later

end Tracked

/-! ### The lockout -/

section Due

variable [DecidableEq Ip]

/-- A user has failed as often as the limit allows from a machine: `start` is what came before
these failures, up to a success of the user, the failures are among `counted`, the last is in the
window of the first, and `attempt` comes while the lockout should last. -/
structure LockoutDue (config : LockoutConfig) (username : String) (ip : Ip)
    (start counted later : List (AuthAttempt Ip)) (attempt : AuthAttempt Ip) (first : Nat)
    (more : List Nat) : Prop where
  limit : config.failureLimit ≤ u32Max
  ordered : AuthAttempt.Ordered (start ++ counted ++ later ++ [attempt])
  fresh : start = [] ∨ ∃ before success, start = before ++ [success] ∧
    success.username = username ∧ Succeeds config (authenticateAll config {} before) success
  noSuccess : NoSuccess config username (authenticateAll config {} start) counted
  failures : failureTimes config username ip (authenticateAll config {} start) counted =
    first :: more
  number : more.length + 1 = config.failureLimit
  within : ∀ time ∈ more, time ≤ first + config.failureWindow
  concerns : attempt.Concerns username ip
  lasts : attempt.checkedAtMs.toNat ≤
    (first :: more).getLast (List.cons_ne_nil _ _) + config.lockout

omit [DecidableEq Ip] in
theorem meets_of_one_peer (peer : Option (Ip × UInt16)) {attempts : List (AuthAttempt Ip)}
    (only : ∀ attempt ∈ attempts, attempt.peer = peer)
    (unknown : ∀ username other, other ≠ peer →
      state.records[authLockoutKey username other]? = none) :
    Meets (fun state attempt => some (authenticate config state attempt).1) OneAddress state
      attempts := by
  induction attempts generalizing state with
  | nil => exact trivial
  | cons attempt rest ih =>
    obtain ⟨rfl, later⟩ := List.forall_mem_cons.mp only
    refine ⟨⟨?_, ?_⟩, ?_⟩
    · rintro ip port other found apart
      refine unknown _ _ fun same => apart ?_
      rw [found] at same
      exact (Prod.ext_iff.mp (Option.some.inj same)).2
    · exact fun _ _ other apart => unknown _ _ apart
    · rintro _ ⟨⟩
      refine ih later fun username other apart => ?_
      rw [getElem?_authenticate_other (fun same => apart (authLockoutKey_inj.mp same).2)
        (authLockoutKey_ne_usernameKey _ _ _)]
      exact unknown username other apart

theorem tracked_fresh {username : String} {ip : Ip} {start : List (AuthAttempt Ip)}
    (fresh : start = [] ∨ ∃ before success, start = before ++ [success] ∧
      success.username = username ∧ Succeeds config (authenticateAll config {} before) success)
    (meets : Meets (fun state attempt => some (authenticate config state attempt).1) OneAddress
      {} start) :
    Tracked config username ip (authenticateAll config {} start) [] := by
  rcases fresh with rfl | ⟨before, success, rfl, rfl, succeeds⟩
  · exact fun port => getElem?_empty _
  · intro port
    have one : OneAddress _ success :=
      (meets_append _ meets (run_eq_authenticateAll before)).1
    obtain ⟨free, identity, verified⟩ := succeeds_iff.mp succeeds
    rw [authenticateAll_append]
    change (authenticate config _ success).1.records[_]? = none
    by_cases same : success.peer = some (ip, port)
    · rw [← same]
      exact getElem?_authenticate_verified free verified
    · rw [getElem?_authenticate_other (fun key => same (authLockoutKey_inj.mp key).2.symm)
        (authLockoutKey_ne_usernameKey _ _ _)]
      exact one.success free ⟨identity, verified⟩ _ fun other => same other.symm

omit [SocketText Ip] [DecidableEq Ip] in
theorem checked_le_of_ordered {attempts : List (AuthAttempt Ip)} {attempt : AuthAttempt Ip}
    (ordered : AuthAttempt.Ordered (attempts ++ [attempt])) :
    ∀ earlier ∈ attempts, earlier.checkedAtMs.toNat ≤ attempt.checkedAtMs.toNat := by
  intro earlier member
  rw [AuthAttempt.Ordered, List.flatMap_append, List.pairwise_append] at ordered
  exact ordered.2.2 _ (List.mem_flatMap.mpr ⟨earlier, member, List.mem_cons_self⟩) _ (by simp)

/-- **A lockout that is due is enforced** on whatever connection the attempt arrives, if the
attempts of a user from a machine come over one port as long as failures are remembered, and no
success of a user leaves failures of the same user from elsewhere. -/
theorem lockout_enforced (config : LockoutConfig) (username : String) (ip : Ip)
    (start counted later : List (AuthAttempt Ip)) (attempt : AuthAttempt Ip) (first : Nat)
    (more : List Nat) (due : LockoutDue config username ip start counted later attempt first more)
    (window : config.failureWindow < 2 ^ 64) (lockout : config.lockout < 2 ^ 64)
    (meets : Meets (fun state attempt => some (authenticate config state attempt).1) OneAddress
      {} (start ++ counted ++ later ++ [attempt]))
    (runtime : ServerRuntime) (configured : runtime.authConfigured = true)
    (around : Surroundings) (server : Server) (session : SessionState) :
    ∃ seconds, (answerAuth config (authenticateAll config {} (start ++ counted ++ later)) runtime
      around server session attempt).2 =
        .refused server session (.authenticationLocked username seconds) := by
  have windowMs : config.windowMs = config.failureWindow := Nat.mod_eq_of_lt window
  have lockoutMs : config.lockoutMs = config.lockout := Nat.mod_eq_of_lt lockout
  have soon := checked_le_of_ordered due.ordered
  have lasts := due.lasts
  rw [← lockoutMs] at lasts
  have one : OneAddress _ attempt := (meets_append _ meets (run_eq_authenticateAll _)).1
  have before := meets_left _ meets
  have during := meets_left _ before
  have fresh : Tracked config username ip _ [] := tracked_fresh due.fresh (meets_left _ during)
  have reached := fresh.run due.limit (meets_append _ during (run_eq_authenticateAll start))
    due.noSuccess due.failures due.number.le (by
      rintro _ ⟨⟩ time member
      rcases List.mem_cons.mp member with rfl | among
      · exact (Nat.sub_self _).trans_le (Nat.zero_le _)
      · rw [windowMs]
        exact Nat.sub_le_iff_le_add'.mpr (due.within time among))
  rw [← authenticateAll_append] at reached
  have locked := reached.stay due.limit (meets_append _ before (run_eq_authenticateAll _))
    due.number.ge fun earlier member =>
      (soon earlier (List.mem_append_right _ member)).trans lasts
  rw [← authenticateAll_append] at locked
  obtain ⟨seconds, found⟩ := locked.lockedFor one due.concerns due.number.ge lasts
  refine ⟨seconds, ?_⟩
  rw [answerAuth, authenticate_locked found, ← due.concerns.1]
  exact if_pos configured

end Due

/-! ### Failures over two connections -/

def Sample.failedAuth (port : UInt16) (nowMs : UInt64) : AuthAttempt Ipv4Addr :=
  ⟨"reader", some (⟨10, 0, 0, 7⟩, port), nowMs, .rejected, nowMs⟩

/-- Two failures over one connection are the limit. -/
theorem lockout_enforced_two_failures :
    ∃ seconds, (answerAuth ⟨60000, 2, 300000⟩ (authenticateAll ⟨60000, 2, 300000⟩ {}
      [Sample.failedAuth 50312 1000, Sample.failedAuth 50312 2000])
      { Sample.runtime with authConfigured := true } (Sample.calm 3000)
      ⟨.create ⟨4096, 2⟩ 0, .new, false⟩ .new (Sample.failedAuth 50312 3000)).2 =
        .refused ⟨.create ⟨4096, 2⟩ 0, .new, false⟩ .new
          (.authenticationLocked "reader" seconds) := by
  refine lockout_enforced ⟨60000, 2, 300000⟩ "reader" (⟨10, 0, 0, 7⟩ : Ipv4Addr) []
    [Sample.failedAuth 50312 1000, Sample.failedAuth 50312 2000] []
    (Sample.failedAuth 50312 3000) 1000 [2000] ⟨?_, ?_, ?_, ?_, ?_, ?_, ?_, ?_, ?_⟩ ?_ ?_ ?_ _ rfl
    _ _ _
  · decide
  · unfold AuthAttempt.Ordered; decide +kernel
  · exact .inl rfl
  · exact ⟨fun _ => by decide +kernel, fun _ => by decide +kernel, trivial⟩
  · decide +kernel
  · decide
  · decide
  · exact ⟨rfl, rfl⟩
  · decide
  · decide
  · decide
  · exact meets_of_one_peer (some (⟨10, 0, 0, 7⟩, 50312)) (by simp [Sample.failedAuth])
      (fun _ _ _ => getElem?_empty _)

/-- Two failures over two connections are not counted together. -/
theorem ports_evade_lockout :
    ¬ ∀ (config : LockoutConfig) (username : String) (ip : Ipv4Addr)
      (start counted later : List (AuthAttempt Ipv4Addr)) (attempt : AuthAttempt Ipv4Addr)
      (first : Nat) (more : List Nat) (runtime : ServerRuntime) (around : Surroundings)
      (server : Server) (session : SessionState),
      LockoutDue config username ip start counted later attempt first more →
      runtime.authConfigured = true →
      ∃ seconds, (answerAuth config (authenticateAll config {} (start ++ counted ++ later))
        runtime around server session attempt).2 =
          .refused server session (.authenticationLocked username seconds) := by
  intro enforced
  obtain ⟨seconds, locked⟩ := enforced ⟨60000, 2, 300000⟩ "reader" ⟨10, 0, 0, 7⟩ []
    [Sample.failedAuth 50312 1000, Sample.failedAuth 50313 2000] []
    (Sample.failedAuth 50314 3000) 1000 [2000] { Sample.runtime with authConfigured := true }
    (Sample.calm 3000) ⟨.create ⟨4096, 2⟩ 0, .new, false⟩ .new
    ⟨by decide, by unfold AuthAttempt.Ordered; decide +kernel, .inl rfl,
      ⟨fun _ => by decide +kernel, fun _ => by decide +kernel, trivial⟩, by decide +kernel,
      by decide, by decide, ⟨rfl, rfl⟩, by decide⟩ rfl
  have reply := congrArg Processed.reply locked
  have asked : (answerAuth ⟨60000, 2, 300000⟩ (authenticateAll ⟨60000, 2, 300000⟩ {}
      [Sample.failedAuth 50312 1000, Sample.failedAuth 50313 2000])
      { Sample.runtime with authConfigured := true } (Sample.calm 3000)
      ⟨.create ⟨4096, 2⟩ 0, .new, false⟩ .new (Sample.failedAuth 50314 3000)).2.reply =
        .error .authenticationFailed := by
    decide +kernel
  rw [List.nil_append, List.append_nil, asked] at reply
  cases reply

-- A success from another machine leaves the window of this one open: with the limit at three,
-- the failures at 5000, 12000 and 14000 are in one window of 10000 after it, but the window of
-- the failure before it ends at 10000.
example : Fails ⟨10000, 3, 300000⟩ (authenticateAll ⟨10000, 3, 300000⟩ {}
    [Sample.failedAuth 50312 0,
      ⟨"reader", some (⟨10, 0, 0, 8⟩, 40001), 1000, .verified ⟨"reader", ∅, ∅⟩, 1000⟩,
      Sample.failedAuth 50312 5000, Sample.failedAuth 50312 12000, Sample.failedAuth 50312 14000])
    (Sample.failedAuth 50312 15000) = true := by
  decide +kernel

end AuthLockoutState

end Vaylix
