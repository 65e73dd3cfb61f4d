import Mathlib.Algebra.Ring.Nat
import Std.Data.ExtTreeMap.Lemmas
import Vaylix.Engine.Store
import Vaylix.Lib.Run

/-!
# Lockouts after failed authentications

Failed attempts are counted per key in a window, and the key is locked at the limit. `INFO`
asks for the number of lockouts, which also forgets every record that is not locked beyond the
time of the question. All other answers stay the same without the questions exactly when no
question finds a record to forget.
-/

namespace Vaylix

open LabelledRun

def u32Max : Nat := 2 ^ 32 - 1

structure AuthLockoutRecord where
  firstFailureAtMs : Nat
  failureCount : Nat
  lockedUntilMs : Option Nat
deriving DecidableEq, Repr

namespace AuthLockoutRecord

def unfailed (nowMs : Nat) : AuthLockoutRecord :=
  ⟨nowMs, 0, none⟩

def reopen (record : AuthLockoutRecord) (nowMs failureWindow : Nat) : AuthLockoutRecord :=
  if failureWindow < nowMs - record.firstFailureAtMs then unfailed nowMs else record

def fail (record : AuthLockoutRecord) (nowMs failureWindow failureLimit lockout : Nat) :
    AuthLockoutRecord × Bool :=
  let record := record.reopen nowMs failureWindow
  let failureCount := min (record.failureCount + 1) u32Max
  if failureLimit ≤ failureCount then
    (⟨record.firstFailureAtMs, failureCount, some (satAdd nowMs lockout)⟩, true)
  else
    (⟨record.firstFailureAtMs, failureCount, record.lockedUntilMs⟩, false)

theorem failureCount_fail_pos (record : AuthLockoutRecord)
    (nowMs failureWindow failureLimit lockout : Nat) :
    0 < (record.fail nowMs failureWindow failureLimit lockout).1.failureCount := by
  have positive : 0 < min ((record.reopen nowMs failureWindow).failureCount + 1) u32Max :=
    Nat.lt_min.mpr ⟨Nat.succ_pos _, by decide⟩
  simp only [fail]
  split <;> exact positive

theorem fail_locks {record : AuthLockoutRecord} {nowMs failureWindow failureLimit : Nat}
    (lockout : Nat) (within : nowMs - record.firstFailureAtMs ≤ failureWindow)
    (reached : failureLimit ≤ min (record.failureCount + 1) u32Max) :
    (record.fail nowMs failureWindow failureLimit lockout).2 = true := by
  have current : record.reopen nowMs failureWindow = record := if_neg (Nat.not_lt.mpr within)
  simp only [fail, current, if_pos reached]

theorem unfailed_fail (nowMs failureWindow lockout : Nat) {failureLimit : Nat}
    (more : 1 < failureLimit) :
    ((unfailed nowMs).fail nowMs failureWindow failureLimit lockout).2 = false := by
  have first : (unfailed nowMs).reopen nowMs failureWindow = unfailed nowMs := ite_self _
  have single : min ((unfailed nowMs).failureCount + 1) u32Max = 1 := rfl
  simp only [fail, first, single, if_neg (Nat.not_le.mpr more)]

end AuthLockoutRecord

structure AuthLockoutState where
  records : Std.ExtTreeMap String AuthLockoutRecord compare := ∅

namespace AuthLockoutState

/-- `active_lockout_count` drops every record that is not locked beyond `nowMs`. -/
def activeLockoutCount (state : AuthLockoutState) (nowMs : Nat) : AuthLockoutState × Nat :=
  let records := state.records.filter fun _ record =>
    decide (nowMs < record.lockedUntilMs.getD nowMs)
  (⟨records⟩, (records.filter fun _ record =>
    decide (nowMs < record.lockedUntilMs.getD 0)).size)

def remainingLockoutSeconds (state : AuthLockoutState) (key : String) (nowMs : Nat) :
    Option Nat :=
  match state.records[key]?.bind AuthLockoutRecord.lockedUntilMs with
  | some lockedUntilMs =>
    if nowMs ≤ lockedUntilMs then some ((lockedUntilMs - nowMs + 999) / 1000) else none
  | none => none

def clearSuccess (state : AuthLockoutState) (key : String) : AuthLockoutState :=
  ⟨state.records.erase key⟩

def recordFailure (state : AuthLockoutState) (key : String)
    (nowMs failureWindow failureLimit lockout : Nat) : AuthLockoutState × Bool :=
  let record := state.records[key]?.getD (.unfailed nowMs)
  let (record, locked) := record.fail nowMs failureWindow failureLimit lockout
  (⟨state.records.insert key record⟩, locked)

end AuthLockoutState

inductive LockoutCall where
  | recordFailure (key : String) (nowMs failureWindow failureLimit lockout : Nat)
  | clearSuccess (key : String)
  | remainingLockoutSeconds (key : String) (nowMs : Nat)
  | activeLockoutCount (nowMs : Nat)
deriving DecidableEq, Repr

inductive LockoutAnswer where
  | locked (flag : Bool)
  | cleared
  | remaining (seconds : Option Nat)
  | active (number : Nat)
deriving DecidableEq, Repr

namespace LockoutCall

def nowMs? : LockoutCall → Option Nat
  | .recordFailure _ nowMs _ _ _ | .remainingLockoutSeconds _ nowMs
  | .activeLockoutCount nowMs => some nowMs
  | .clearSuccess _ => none

def diagnostic : LockoutCall → Bool
  | .activeLockoutCount _ => true
  | _ => false

/-- The clock does not go back from call to call. -/
def Ordered (calls : List LockoutCall) : Prop :=
  (calls.filterMap nowMs?).Pairwise (· ≤ ·)

instance (calls : List LockoutCall) : Decidable (Ordered calls) :=
  inferInstanceAs (Decidable (List.Pairwise _ _))

def withoutDiagnostics (calls : List LockoutCall) : List LockoutCall :=
  calls.filter fun call => !call.diagnostic

end LockoutCall

namespace AuthLockoutState

open LockoutCall

def perform (state : AuthLockoutState) : LockoutCall → AuthLockoutState × LockoutAnswer
  | .recordFailure key nowMs failureWindow failureLimit lockout =>
    let (next, locked) := state.recordFailure key nowMs failureWindow failureLimit lockout
    (next, .locked locked)
  | .clearSuccess key => (state.clearSuccess key, .cleared)
  | .remainingLockoutSeconds key nowMs =>
    (state, .remaining (state.remainingLockoutSeconds key nowMs))
  | .activeLockoutCount nowMs =>
    let (next, number) := state.activeLockoutCount nowMs
    (next, .active number)

def performAll (state : AuthLockoutState) (calls : List LockoutCall) : AuthLockoutState :=
  calls.foldl (fun state call => (state.perform call).1) state

theorem performAll_concat (state : AuthLockoutState) (calls : List LockoutCall)
    (last : LockoutCall) :
    state.performAll (calls ++ [last]) = ((state.performAll calls).perform last).1 :=
  List.foldl_concat _ _ _ _

def answers (state : AuthLockoutState) : List LockoutCall → List LockoutAnswer
  | [] => []
  | call :: rest =>
    let (next, answer) := state.perform call
    if call.diagnostic then next.answers rest else answer :: next.answers rest

theorem answers_append (state : AuthLockoutState) (before after : List LockoutCall) :
    state.answers (before ++ after) =
      state.answers before ++ (state.performAll before).answers after := by
  induction before generalizing state with
  | nil => rfl
  | cons call rest ih =>
    simp only [List.cons_append, answers, ih, performAll, List.foldl_cons]
    split <;> rfl

def Spares (state : AuthLockoutState) : LockoutCall → Prop
  | .activeLockoutCount nowMs =>
    ∀ (key : String) (record : AuthLockoutRecord), state.records[key]? = some record →
      ∃ lockedUntilMs, record.lockedUntilMs = some lockedUntilMs ∧ nowMs < lockedUntilMs
  | _ => True

/-- No question of `INFO` among the calls finds a record to forget. -/
def Sparing (state : AuthLockoutState) (calls : List LockoutCall) : Prop :=
  Meets (fun state call => some (AuthLockoutState.perform state call).1) Spares state calls

theorem kept_iff {record : AuthLockoutRecord} {nowMs : Nat} :
    nowMs < record.lockedUntilMs.getD nowMs ↔
      ∃ lockedUntilMs, record.lockedUntilMs = some lockedUntilMs ∧ nowMs < lockedUntilMs := by
  cases record.lockedUntilMs <;> simp

theorem getElem?_activeLockoutCount (state : AuthLockoutState) (nowMs : Nat) (key : String) :
    (state.activeLockoutCount nowMs).1.records[key]? =
      state.records[key]?.filter fun record =>
        decide (nowMs < record.lockedUntilMs.getD nowMs) := by
  simp only [activeLockoutCount, Std.ExtTreeMap.getElem?_filter']

variable {state : AuthLockoutState}

/-- A question that spares all records changes nothing. -/
theorem Spares.perform_eq {call : LockoutCall} (spares : state.Spares call)
    (question : call.diagnostic = true) :
    (state.perform call).1 = state := by
  cases call with
  | activeLockoutCount nowMs =>
    have same : (state.activeLockoutCount nowMs).1.records = state.records := by
      refine Std.ExtTreeMap.ext_getElem? fun key => ?_
      rw [getElem?_activeLockoutCount]
      cases found : state.records[key]? with
      | none => rfl
      | some record => simp [kept_iff.mpr (spares key record found)]
    exact congrArg AuthLockoutState.mk same
  | recordFailure | clearSuccess | remainingLockoutSeconds => cases question

variable {calls : List LockoutCall}

theorem Sparing.answers_eq (sparing : state.Sparing calls) :
    state.answers calls = state.answers (withoutDiagnostics calls) ∧
      state.performAll calls = state.performAll (withoutDiagnostics calls) := by
  induction calls generalizing state with
  | nil => exact ⟨rfl, rfl⟩
  | cons call rest ih =>
    have later := ih (sparing.2 _ rfl)
    cases question : call.diagnostic with
    | true =>
      rw [sparing.1.perform_eq question] at later
      simp only [answers, performAll, List.foldl_cons, withoutDiagnostics, List.filter_cons,
        question, if_true, Bool.not_true, Bool.false_eq_true, if_false,
        sparing.1.perform_eq question]
      exact later
    | false =>
      simp only [answers, performAll, List.foldl_cons, withoutDiagnostics, List.filter_cons,
        question, if_true, Bool.not_false, Bool.false_eq_true, if_false]
      exact ⟨congrArg _ later.1, later.2⟩

/-- Every record holds a failure. -/
def Counted (state : AuthLockoutState) : Prop :=
  ∀ (key : String) (record : AuthLockoutRecord),
    state.records[key]? = some record → 0 < record.failureCount

theorem Counted.perform (counted : state.Counted) (call : LockoutCall) :
    (state.perform call).1.Counted := by
  cases call with
  | recordFailure name nowMs failureWindow failureLimit lockout =>
    intro key record found
    change (state.records.insert name _)[key]? = some record at found
    rw [Std.ExtTreeMap.getElem?_insert] at found
    split at found
    · cases found
      exact AuthLockoutRecord.failureCount_fail_pos _ _ _ _ _
    · exact counted key record found
  | clearSuccess name =>
    intro key record found
    change (state.records.erase name)[key]? = some record at found
    rw [Std.ExtTreeMap.getElem?_erase] at found
    split at found
    · cases found
    · exact counted key record found
  | remainingLockoutSeconds => exact counted
  | activeLockoutCount nowMs =>
    intro key record found
    change (state.activeLockoutCount nowMs).1.records[key]? = some record at found
    rw [getElem?_activeLockoutCount, Option.filter_eq_some_iff] at found
    exact counted key record found.1

theorem Counted.performAll (counted : state.Counted) (calls : List LockoutCall) :
    (state.performAll calls).Counted := by
  induction calls generalizing state with
  | nil => exact counted
  | cons call rest ih => exact ih (counted.perform call)

theorem counted_empty : Counted {} := by
  intro key record found
  change (∅ : Std.ExtTreeMap String AuthLockoutRecord compare)[key]? = some record at found
  simp at found

/-- **A forgotten record is missed**: some later failure would have locked the key. -/
theorem exists_missed (counted : state.Counted) {nowMs : Nat}
    (forgets : ¬ state.Spares (.activeLockoutCount nowMs)) :
    ∃ key failureWindow failureLimit,
      (state.recordFailure key nowMs failureWindow failureLimit 0).2 = true ∧
      ((state.activeLockoutCount nowMs).1.recordFailure key nowMs failureWindow failureLimit
        0).2 = false := by
  simp only [Spares, not_forall] at forgets
  obtain ⟨key, record, found, unlocked⟩ := forgets
  have gone : (state.activeLockoutCount nowMs).1.records[key]? = none := by
    rw [getElem?_activeLockoutCount, found]
    simpa [Option.filter] using fun kept => unlocked (kept_iff.mp kept)
  have positive := counted key record found
  have more : 1 < min (record.failureCount + 1) u32Max :=
    Nat.lt_min.mpr ⟨by omega, by decide⟩
  refine ⟨key, nowMs - record.firstFailureAtMs, min (record.failureCount + 1) u32Max, ?_, ?_⟩
  · simp only [recordFailure, found, Option.getD_some]
    exact AuthLockoutRecord.fail_locks 0 le_rfl le_rfl
  · simp only [recordFailure, gone, Option.getD_none]
    exact AuthLockoutRecord.unfailed_fail nowMs _ 0 more

theorem sparing_concat {last : LockoutCall} :
    state.Sparing (calls ++ [last]) ↔
      state.Sparing calls ∧ (state.performAll calls).Spares last := by
  induction calls generalizing state with
  | nil => simp [Sparing, Meets, performAll]
  | cons call rest ih =>
    have later := @ih (state.perform call).1
    simp only [Sparing, Meets, List.cons_append, Option.some.injEq, forall_eq',
      performAll, List.foldl_cons] at later ⊢
    rw [later, and_assoc]

theorem ordered_concat {nowMs : Nat} (ordered : Ordered (calls ++ [.activeLockoutCount nowMs]))
    (key : String) (failureWindow failureLimit lockout : Nat) :
    Ordered (calls ++ [.activeLockoutCount nowMs] ++
      [.recordFailure key nowMs failureWindow failureLimit lockout]) := by
  simp only [Ordered, List.filterMap_append, List.filterMap_cons, List.filterMap_nil, nowMs?,
    List.pairwise_append] at ordered ⊢
  refine ⟨ordered, List.pairwise_singleton _ _, fun earlier member later found => ?_⟩
  obtain rfl := List.mem_singleton.mp found
  rcases List.mem_append.mp member with inside | same
  · exact ordered.2.2 earlier inside _ (List.mem_singleton.mpr rfl)
  · exact (List.mem_singleton.mp same).le

theorem answers_withoutDiagnostics_append (state : AuthLockoutState) (before : List LockoutCall)
    {after : List LockoutCall} (plain : ∀ call ∈ after, call.diagnostic = false) :
    state.answers (withoutDiagnostics (before ++ after)) =
      state.answers (withoutDiagnostics before) ++
        (state.performAll (withoutDiagnostics before)).answers after := by
  have all : withoutDiagnostics after = after :=
    List.filter_eq_self.mpr fun call member => by rw [plain call member]; rfl
  rw [← answers_append]
  unfold withoutDiagnostics at all ⊢
  rw [List.filter_append, all]

/-- **The questions of `INFO` change no other answer exactly when none finds a record to
forget.** -/
theorem diagnostics_keep_lockouts_iff {calls : List LockoutCall} (ordered : Ordered calls) :
    (∀ before after, before <+: calls → Ordered (before ++ after) →
        (∀ call ∈ after, call.diagnostic = false) →
        answers {} (before ++ after) = answers {} (withoutDiagnostics (before ++ after))) ↔
      Sparing {} calls := by
  constructor
  · -- by induction on the calls made so far; the last one is the first that could forget
    intro kept
    induction calls using List.reverseRecOn with
    | nil => trivial
    | append_singleton calls last ih =>
      have sparing : Sparing {} calls :=
        ih (List.Pairwise.sublist ((List.sublist_append_left calls [last]).filterMap _) ordered)
          fun before after isPrefix => kept before after (isPrefix.trans (List.prefix_append _ _))
      refine sparing_concat.mpr ⟨sparing, ?_⟩
      by_contra forgets
      cases last with
      | recordFailure | clearSuccess | remainingLockoutSeconds => exact forgets trivial
      | activeLockoutCount nowMs =>
        obtain ⟨key, failureWindow, failureLimit, locks, misses⟩ :=
          exists_missed (counted_empty.performAll calls) forgets
        let failure : LockoutCall := .recordFailure key nowMs failureWindow failureLimit 0
        have plain : ∀ call ∈ [failure], call.diagnostic = false := by simp [failure, diagnostic]
        have same := kept _ [failure] (List.prefix_refl _) (ordered_concat ordered _ _ _ _) plain
        have question : withoutDiagnostics (calls ++ [.activeLockoutCount nowMs]) =
            withoutDiagnostics calls := by simp [withoutDiagnostics, diagnostic]
        rw [answers_withoutDiagnostics_append _ _ plain, question, ← sparing.answers_eq.1,
          ← sparing.answers_eq.2, answers_append, answers_append, List.append_assoc,
          performAll_concat] at same
        have answered : [LockoutAnswer.locked false] = [.locked true] := by
          rw [← misses, ← locks]
          exact List.append_cancel_left same
        cases answered
  · intro sparing before after isPrefix _ plain
    obtain ⟨rest, rfl⟩ := isPrefix
    have spared : Sparing {} before := meets_left _ sparing
    rw [answers_withoutDiagnostics_append _ _ plain, ← spared.answers_eq.1,
      ← spared.answers_eq.2, answers_append]

/-- Two failures with a limit of two lock the key, unless `INFO` is asked in between. -/
theorem info_prevents_lockout :
    let failure (nowMs : Nat) : LockoutCall :=
      .recordFailure "reader|10.0.0.7:50312" nowMs 60000 2 300000
    let calls : List LockoutCall := [failure 1000, .activeLockoutCount 1500, failure 2000,
      .remainingLockoutSeconds "reader|10.0.0.7:50312" 3000]
    Ordered calls ∧
      answers {} (withoutDiagnostics calls) =
        [.locked false, .locked true, .remaining (some 299)] ∧
      answers {} calls = [.locked false, .locked false, .remaining none] := by
  decide +kernel

/-- A question while the only record is locked is harmless. -/
theorem lockout_survives_info :
    let calls : List LockoutCall :=
      [.recordFailure "reader|*" 1000 60000 1 300000, .activeLockoutCount 1500]
    Sparing {} calls ∧ ∀ before after, before <+: calls → Ordered (before ++ after) →
      (∀ call ∈ after, call.diagnostic = false) →
      answers {} (before ++ after) = answers {} (withoutDiagnostics (before ++ after)) := by
  have sparing : Sparing {} [.recordFailure "reader|*" 1000 60000 1 300000,
      .activeLockoutCount 1500] := by
    refine ⟨trivial, fun next taken => ⟨fun key record found => ?_, fun _ _ => trivial⟩⟩
    cases taken
    change ((∅ : Std.ExtTreeMap String AuthLockoutRecord compare).insert _ _)[key]? =
      some record at found
    rw [Std.ExtTreeMap.getElem?_insert] at found
    split at found
    · cases found
      exact ⟨301000, by decide +kernel, by decide⟩
    · simp at found
  exact ⟨sparing, (diagnostics_keep_lockouts_iff (by decide +kernel)).mpr sparing⟩

end AuthLockoutState

end Vaylix
