import Vaylix.Engine.Versions
import Vaylix.Lib.Run

/-!
# Compare-and-set over whole runs

A run of the engine passes through moments: the keyspaces in which its commands are
decided, inside transactions and batches too, and the keyspaces its calls leave.
Whether a version check can be trusted is a property of all of them.
-/

namespace Vaylix

open EngineStore LabelledRun VersionHistory

/-- What a run does next at one of its moments. -/
inductive Upcoming where
  | nothing
  | direct (command : Command)
  | queued (command : Command)
deriving DecidableEq, Repr

namespace Upcoming

def command : Upcoming → Option Command
  | .nothing => none
  | .direct command | .queued command => some command

variable [Codec]

def writtenKeys (store : EngineStore) : Upcoming → List Key
  | .nothing => []
  | .direct command => command.directlyWritten store
  | .queued command => command.writtenKeys store

/-- The keys that get a version which is not counted on from their stored one. -/
def restartedKeys : Upcoming → List Key
  | .nothing => []
  | .direct command => command.restoredKeys
  | .queued command => command.selfRenamed

end Upcoming

/-- A keyspace of a run, with what is decided on it. -/
structure Moment where
  store : EngineStore
  upcoming : Upcoming

def Unseen (past : List Moment) (key : Key) : Prop :=
  ∀ moment ∈ past, moment.store.get key = none

instance (past : List Moment) (key : Key) : Decidable (Unseen past key) :=
  inferInstanceAs (Decidable (∀ moment ∈ past, moment.store.get key = none))

section Watching

variable [Codec]

/-- A key is written only while it is there with a version that can be counted up, or before it
ever was there, and no version is restarted. -/
def Continues (past : List Moment) (moment : Moment) : Prop :=
  (∀ key ∈ moment.upcoming.writtenKeys moment.store,
    ((moment.store.get key).any fun entry => decide (entry.version < u64Max)) = true ∨
      Unseen past key) ∧
  ∀ key ∈ moment.upcoming.restartedKeys, Unseen past key

instance (past : List Moment) (moment : Moment) : Decidable (Continues past moment) :=
  inferInstanceAs (Decidable (_ ∧ _))

/-- Every one of the moments continues what came before it. -/
def Continued (past : List Moment) : List Moment → Prop
  | [] => True
  | moment :: rest => Continues (past ++ [moment]) moment ∧ Continued (past ++ [moment]) rest

instance decidableContinued : (past moments : List Moment) → Decidable (Continued past moments)
  | _, [] => .isTrue trivial
  | past, moment :: rest =>
    have := decidableContinued (past ++ [moment]) rest
    inferInstanceAs (Decidable (_ ∧ _))

/-! ### The moments of a call -/

def queueMoments (nowMs : Nat) (store : EngineStore) : List Command → List Moment
  | [] => [⟨store, .nothing⟩]
  | command :: rest =>
    ⟨store.purgeExpired nowMs, .queued command⟩ ::
      queueMoments nowMs (evaluateTransactionCommand store nowMs command).store rest

/-- The commands of a batch whose effect stays: all of them, or those before its first `CLEAR`
when the batch fails behind it, or none. -/
def effectiveCommands (nowMs : Nat) (store : EngineStore) (commands : List Command) :
    List Command :=
  match Engine.evaluateTransaction store nowMs commands with
  | .ok _ => commands
  | .error _ =>
    match Engine.evaluateTransaction store nowMs (Engine.beforeClear commands) with
    | .ok _ => Engine.beforeClear commands
    | .error _ => []

/-- The keyspaces a call passes through; the last one is what it leaves. -/
def EngineAction.moments (engine : Engine) (action : EngineAction) : List Moment :=
  match action with
  | .direct reading command =>
    let final : Moment := ⟨(action.perform engine).state.store, .nothing⟩
    match engine.state.prepareCommand reading command with
    | some prepared => [⟨prepared.state.store, .direct command⟩, final]
    | none => [final]
  | .transaction reading commands =>
    let start := engine.state.store.purgeExpired reading.now
    match Engine.evaluateTransaction start reading.now commands with
    | .ok _ => queueMoments reading.now start commands
    | .error _ => [⟨start, .nothing⟩]
  | .batch nowMs commands =>
    let start := engine.state.store.purgeExpired nowMs
    queueMoments nowMs start (effectiveCommands nowMs start commands)
  | .noop _ => [⟨engine.state.store, .nothing⟩]
  | .sweep nowMs => [⟨engine.state.store.purgeExpired nowMs, .nothing⟩]

/-- What one moment leaves for the next, if it continues its past. -/
def Follows (moment next : Moment) : Prop :=
  ∀ past, moment ∈ past → Continues past moment →
    Rewrites moment.store next.store (moment.upcoming.writtenKeys moment.store)

variable {past : List Moment} {moment : Moment}

theorem Continues.countable (continues : Continues past moment) (member : moment ∈ past) :
    Countable moment.store (moment.upcoming.writtenKeys moment.store) := by
  intro key written entry found
  rcases continues.1 key written with counted | unseen
  · simpa [found] using counted
  · rw [unseen moment member] at found
    cases found

theorem Continues.absent (continues : Continues past moment) (member : moment ∈ past) :
    ∀ key ∈ moment.upcoming.restartedKeys, moment.store.get key = none :=
  fun key restarted => continues.2 key restarted moment member

omit [Codec] in
theorem queueMoments_head (nowMs : Nat) (store : EngineStore) (commands : List Command) :
    ∃ first rest, queueMoments nowMs store commands = first :: rest ∧
      (first.store = store ∨ first.store = store.purgeExpired nowMs) := by
  cases commands with
  | nil => exact ⟨_, _, rfl, .inl rfl⟩
  | cons command rest => exact ⟨_, _, rfl, .inr rfl⟩

theorem queueMoments_chain (nowMs : Nat) (store : EngineStore) (commands : List Command) :
    (queueMoments nowMs store commands).IsChain Follows := by
  induction commands generalizing store with
  | nil => exact List.IsChain.singleton _
  | cons command rest ih =>
    obtain ⟨first, later, shape, head⟩ := queueMoments_head nowMs
      (evaluateTransactionCommand store nowMs command).store rest
    have following := ih (evaluateTransactionCommand store nowMs command).store
    rw [queueMoments]
    rw [shape] at following ⊢
    refine List.IsChain.cons_cons ?_ following
    intro past member continues
    have rewrites :=
      evaluatePurged_rewrites command (fun _ => purgeExpired_purgeExpired store nowMs)
      (continues.countable member) (continues.absent member)
    rcases head with same | same
    · rw [same]
      exact rewrites
    · rw [same]
      exact rewrites.purge nowMs

variable {nowMs : Nat} {store : EngineStore}

omit [Codec] in
theorem queueMoments_getLast {final : EngineStore} {commands : List Command}
    {operations : List WalOperation} {results : List TransactionResult}
    (evaluated : Engine.evaluateTransaction store nowMs commands =
      .ok (final, operations, results)) :
    (queueMoments nowMs store commands).getLast? = some ⟨final, .nothing⟩ := by
  induction commands generalizing store operations results with
  | nil =>
    simp only [Engine.evaluateTransaction, Except.ok.injEq, Prod.mk.injEq] at evaluated
    obtain ⟨rfl, -⟩ := evaluated
    rfl
  | cons command rest ih =>
    obtain ⟨_, _, _, -, restEvaluated, -, -⟩ := Engine.evaluateTransaction_cons_ok.mp evaluated
    rw [queueMoments, List.getLast?_cons, ih restEvaluated]
    rfl

theorem follows_nothing {next : Moment} (rewrites : Rewrites store next.store []) :
    Follows ⟨store, .nothing⟩ next :=
  fun _ _ _ => rewrites

theorem queueMoments_chain_from {start : EngineStore} (rewrites : Rewrites store start [])
    (commands : List Command) :
    (⟨store, .nothing⟩ :: queueMoments nowMs start commands).IsChain Follows := by
  obtain ⟨first, rest, shape, head⟩ := queueMoments_head nowMs start commands
  have following := queueMoments_chain nowMs start commands
  rw [shape] at following ⊢
  refine List.IsChain.cons_cons (follows_nothing ?_) following
  rcases head with same | same
  · rw [same]
    exact rewrites
  · rw [same]
    exact rewrites.purge nowMs

namespace Engine

variable (engine : Engine)

theorem snapshot_store (reading : Reading) :
    (engine.snapshot reading).1.state.store = engine.state.store.purgeExpired reading.now := by
  unfold snapshot
  dsimp only
  split
  · rfl
  · split
    · rfl
    · split <;> rfl

theorem executeCommand_follows {reading : Reading} {command : Command}
    {prepared : Prepared TransactionResult}
    (found : engine.state.prepareCommand reading command = some prepared) :
    Follows ⟨prepared.state.store, .direct command⟩
      ⟨(engine.executeCommand reading command).1.state.store, .nothing⟩ := by
  have plain : command ≠ .save ∧ command ≠ .snapshot := by
    constructor <;> rintro rfl <;> cases found
  intro past member continues
  rw [executeCommand_engine engine reading plain, found]
  dsimp only
  cases logged : prepared.operations with
  | none =>
    rw [finish_of_none _ _ _ logged]
    exact Rewrites.refl _ _
  | some operations =>
    obtain ⟨next, run⟩ := EngineState.prepareCommand_runs found logged
    rw [finish_of_ok _ _ _ logged run]
    exact EngineState.prepareCommand_rewrites _ found logged (continues.countable member)
      (continues.absent member) run

theorem executeCommand_unprepared {reading : Reading} {command : Command}
    (missing : engine.state.prepareCommand reading command = none) :
    Rewrites engine.state.store (engine.executeCommand reading command).1.state.store [] := by
  by_cases plain : command ≠ .save ∧ command ≠ .snapshot
  · rw [executeCommand_engine engine reading plain, missing]
    exact Rewrites.refl _ _
  · have purged : (engine.executeCommand reading command).1.state.store =
        engine.state.store.purgeExpired reading.now := by
      rw [← snapshot_store]
      have either : command = .save ∨ command = .snapshot := by
        by_contra neither
        exact plain (not_or.mp neither)
      rcases either with rfl | rfl
      · unfold executeCommand
        rcases engine.snapshot reading with ⟨final, outcome⟩
        cases outcome <;> rfl
      · unfold executeCommand
        rcases engine.snapshot reading with ⟨final, outcome⟩
        cases outcome <;> rfl
    rw [purged]
    exact (Rewrites.refl _ _).purge _

end Engine

theorem EngineAction.moments_chain (engine : Engine) (action : EngineAction) :
    (⟨engine.state.store, .nothing⟩ :: action.moments engine).IsChain Follows := by
  have same := Rewrites.refl engine.state.store []
  cases action with
  | direct reading command =>
    unfold moments
    dsimp only [perform]
    cases found : engine.state.prepareCommand reading command with
    | none =>
      exact .cons_cons (follows_nothing (engine.executeCommand_unprepared found)) (.singleton _)
    | some prepared =>
      obtain ⟨-, decided⟩ := EngineState.prepareCommand_decidedOn _ found
      refine .cons_cons (follows_nothing ?_)
        (.cons_cons (engine.executeCommand_follows found) (.singleton _))
      rcases decided with store | store | store
      · exact store ▸ same
      · exact store ▸ same.purge _
      · exact store ▸ (same.purge _).purge _
  | transaction reading commands =>
    unfold moments
    dsimp only
    split
    · exact queueMoments_chain_from (same.purge _) _
    · exact .cons_cons (follows_nothing (same.purge _)) (.singleton _)
  | batch nowMs commands => exact queueMoments_chain_from (same.purge _) _
  | noop createdAtMs => exact .cons_cons (follows_nothing same) (.singleton _)
  | sweep nowMs => exact .cons_cons (follows_nothing (same.purge _)) (.singleton _)

/-- A transaction adds to its clock reading without saturating. -/
def EngineAction.Unsaturated : EngineAction → Prop
  | .transaction reading _ => reading.now < u64Max
  | _ => True

instance (action : EngineAction) : Decidable action.Unsaturated := by
  cases action <;> unfold EngineAction.Unsaturated <;> infer_instance

theorem Engine.executeCommandBatch_store (engine : Engine) (nowMs : Nat)
    (commands : List Command) :
    ∃ operations results, evaluateTransaction (engine.state.store.purgeExpired nowMs) nowMs
        (effectiveCommands nowMs (engine.state.store.purgeExpired nowMs) commands) =
      .ok ((engine.executeCommandBatch nowMs commands).1.state.store, operations, results) := by
  unfold executeCommandBatch
  dsimp only [EngineState.purgeExpired_store]
  rcases loop : evaluateBatch (engine.state.store.purgeExpired nowMs) ⟨∅, none⟩ nowMs
      engine.currentConsensusTerm (engine.state.purgeExpired nowMs).metadata.lastAppliedSequence
      commands with ⟨final, record, outcome⟩
  cases outcome with
  | error err =>
    have refused := evaluateTransaction_of_evaluateBatch_error loop
    rcases evaluateBatch_undone (purgeExpired_purgeExpired _ _) [] rfl
        (BatchRollback.Remembers.nothing _) loop with
      ⟨undone, ⟨cause, early⟩ | ⟨answers, -⟩⟩ |
        ⟨after, working, operations, results, -, run, undone⟩
    · rw [List.nil_append] at early
      simp only [effectiveCommands, refused, early, undone]
      exact ⟨[], [], rfl⟩
    · cases answers
    · rw [List.nil_append] at run
      simp only [effectiveCommands, refused, run, undone]
      exact ⟨operations, results, rfl⟩
  | ok result =>
    obtain ⟨entries, results⟩ := result
    obtain ⟨evaluated, -⟩ := evaluateTransaction_of_evaluateBatch_ok loop
    have kept : effectiveCommands nowMs (engine.state.store.purgeExpired nowMs) commands =
        commands := by
      simp only [effectiveCommands, evaluated]
    rw [kept]
    dsimp only
    split
    · exact ⟨_, _, evaluated⟩
    · split <;> exact ⟨_, _, evaluated⟩

theorem EngineAction.moments_getLast (engine : Engine) {action : EngineAction}
    (unsaturated : action.Unsaturated) :
    (action.moments engine).getLast? = some ⟨(action.perform engine).state.store, .nothing⟩ := by
  cases action with
  | direct reading command =>
    unfold moments
    dsimp only
    split <;> rfl
  | transaction reading commands =>
    unfold moments perform
    dsimp only
    cases evaluated : Engine.evaluateTransaction (engine.state.store.purgeExpired reading.now)
        reading.now commands with
    | error err =>
      rw [Engine.executeTransaction_of_error evaluated]
      rfl
    | ok outcome =>
      obtain ⟨working, operations, results⟩ := outcome
      have committed := (Engine.executeTransaction_of_ok unsaturated evaluated).2
      rw [committed.keys]
      exact queueMoments_getLast evaluated
  | batch nowMs commands =>
    obtain ⟨operations, results, evaluated⟩ := engine.executeCommandBatch_store nowMs commands
    exact queueMoments_getLast evaluated
  | noop createdAtMs => rfl
  | sweep nowMs => rfl

/-! ### Runs -/

theorem Follows.advances {next : Moment} (follows : Follows moment next)
    (last : past.getLast? = some moment) (continues : Continues past moment) {key : Key}
    (advancing : Advancing (past.map fun moment => moment.store.stamp key)) :
    Advances (past.map fun moment => moment.store.stamp key) (next.store.stamp key) := by
  have member := List.mem_of_getLast? last
  have lastStamp : (past.map fun moment => moment.store.stamp key).getLast? =
      some (moment.store.stamp key) := by
    rw [List.getLast?_map, last]
    rfl
  rcases follows past member continues key with same | gone |
    ⟨written, version, value, filled, above⟩
  · exact .inl (same ▸ lastStamp)
  · exact .inr (.inl gone)
  · refine .inr (.inr ⟨version, value, filled, ?_⟩)
    intro old held shown
    cases current : moment.store.stamp key with
    | some stamp =>
      -- the key is there: every earlier version is at most the current one
      obtain ⟨position, found⟩ := List.mem_iff_getElem?.mp shown
      rw [current, List.getLast?_eq_getElem?] at lastStamp
      have bound := (List.getElem?_eq_some_iff.mp found).1
      exact lt_of_le_of_lt (advancing.version_le (by omega) found lastStamp)
        (above stamp.1 stamp.2 current)
    | none =>
      -- the key is not there, so it never was
      rcases continues.1 key written with counted | unseen
      · have absent : moment.store.get key = none := Option.map_eq_none_iff.mp current
        rw [absent] at counted
        cases counted
      · obtain ⟨earlier, inside, stamped⟩ := List.mem_map.mp shown
        rw [EngineStore.stamp, unseen earlier inside] at stamped
        cases stamped

theorem advancing_append {moments : List Moment} (chain : (moment :: moments).IsChain Follows)
    (last : past.getLast? = some moment) (continues : Continues past moment)
    (continued : Continued past moments) {key : Key}
    (advancing : Advancing (past.map fun moment => moment.store.stamp key)) :
    Advancing ((past ++ moments).map fun moment => moment.store.stamp key) := by
  induction moments generalizing past moment with
  | nil => simpa using advancing
  | cons next rest ih =>
    obtain ⟨follows, chainRest⟩ := List.isChain_cons_cons.mp chain
    have step := advancing.concat (follows.advances last continues advancing)
    have shape : past ++ next :: rest = (past ++ [next]) ++ rest := by simp
    rw [shape]
    refine ih chainRest (by simp) continued.1 continued.2 ?_
    simpa using step

/-- A `SET key … IF VERSION version` is decided on the keyspace, and is applied. -/
def Moment.AppliesChecked (moment : Moment) (key : Key) (version : Nat) : Prop :=
  ∃ value options, moment.upcoming.command = some (.set key value options) ∧
    options.ifVersion = some version ∧ options.allowed (moment.store.get key) = true

omit [Codec] in
theorem SetOptions.version_of_allowed {options : SetOptions} {previous : Option StoredValue}
    {version : Nat} (checked : options.ifVersion = some version)
    (applied : options.allowed previous = true) :
    ∃ entry, previous = some entry ∧ entry.version = version := by
  simp only [allowed, checked, Bool.and_eq_true, decide_eq_true_eq] at applied
  exact Option.map_eq_some_iff.mp applied.2

structure WatchedEngine where
  engine : Engine
  moments : List Moment

namespace WatchedEngine

def start (engine : Engine) : WatchedEngine := ⟨engine, [⟨engine.state.store, .nothing⟩]⟩

def step (watched : WatchedEngine) (action : EngineAction) : Option WatchedEngine :=
  some ⟨action.perform watched.engine, watched.moments ++ action.moments watched.engine⟩

/-- No command writes a key that is gone but once was there, or restarts a version. -/
def WritesOn (watched : WatchedEngine) (action : EngineAction) : Prop :=
  action.Unsaturated ∧ Continued watched.moments (action.moments watched.engine)

instance (watched : WatchedEngine) (action : EngineAction) : Decidable (watched.WritesOn action) :=
  inferInstanceAs (Decidable (_ ∧ _))

/-- The moments end with the engine's keyspace, and no key repeats a version. -/
structure Consistent (watched : WatchedEngine) : Prop where
  last : watched.moments.getLast? = some ⟨watched.engine.state.store, .nothing⟩
  advancing : ∀ key, Advancing (watched.moments.map fun moment => moment.store.stamp key)

omit [Codec] in
theorem consistent_start (engine : Engine) : (start engine).Consistent :=
  ⟨rfl, fun _ => advancing_singleton _⟩

/-- A call that writes on repeats no version. -/
theorem Consistent.step {watched next : WatchedEngine} {action : EngineAction}
    (consistent : watched.Consistent) (writesOn : watched.WritesOn action)
    (taken : watched.step action = some next) : next.Consistent := by
  cases taken
  refine ⟨?_, fun key => ?_⟩
  · have final := action.moments_getLast watched.engine writesOn.1
    rw [List.getLast?_append, final]
    rfl
  · refine advancing_append (action.moments_chain watched.engine) consistent.last ?_ writesOn.2
      (consistent.advancing key)
    exact ⟨by simp [Upcoming.writtenKeys], by simp [Upcoming.restartedKeys]⟩

/-- **A version check excludes lost updates.** In a run whose calls all meet the condition: if
`key` held `version` at some moment, and a `SET key … IF VERSION version` is applied at a later
one, then the value under `key` was the same at every moment between. -/
theorem version_check_excludes_changes (engine : Engine) (actions : List EngineAction)
    (watched : WatchedEngine) (reached : run step (start engine) actions = some watched)
    (writesOn : Meets step WritesOn (start engine) actions) (first middle last : Nat)
    (earlier between later : Moment) (key : Key) (entry : StoredValue)
    (atFirst : watched.moments[first]? = some earlier)
    (atMiddle : watched.moments[middle]? = some between)
    (atLast : watched.moments[last]? = some later)
    (after : first ≤ middle) (before : middle ≤ last)
    (held : earlier.store.get key = some entry)
    (applied : later.AppliesChecked key entry.version) :
    ∃ expiresAtMs, between.store.get key = some ⟨entry.value, expiresAtMs, entry.version⟩ := by
  have consistent := invariant_of_meets
    (fun state event next consistent condition taken => consistent.step condition taken)
    (consistent_start engine) writesOn reached
  obtain ⟨value, options, -, checked, allowed⟩ := applied
  obtain ⟨found, present, sameVersion⟩ := options.version_of_allowed checked allowed
  have firstStamp : (watched.moments.map fun moment => moment.store.stamp key)[first]? =
      some (some (entry.version, entry.value)) := by
    simp [atFirst, stamp, held]
  have lastStamp : (watched.moments.map fun moment => moment.store.stamp key)[last]? =
      some (some (entry.version, found.value)) := by
    simp [atLast, stamp, present, sameVersion]
  have unchanged := (consistent.advancing key).unchanged firstStamp lastStamp after before
  simp only [List.getElem?_map, atMiddle, Option.map_some, Option.some.injEq, stamp,
    Option.map_eq_some_iff, Prod.mk.injEq] at unchanged
  obtain ⟨kept, there, version, content⟩ := unchanged
  exact ⟨kept.expiresAtMs, by rw [there, ← version, ← content]⟩

end WatchedEngine

end Watching

section Runs

open Sample WatchedEngine

def checkedCalls : List EngineAction :=
  [.direct (.still 1) (.set "k" [49] {}), .direct (.still 2) (.get "k"),
    .direct (.still 3) (.expire "k" 9),
    .direct (.still 4) (.set "k" [50] { ifVersion := some 1 }),
    .transaction (.still 5) [.incr "k", .rename "k" "m"], .batch 6 [.decr "m", .setNx "n" [51]]]

theorem version_check_excludes_changes_checked :
    ∃ watched, run step (start (Engine.create ⟨0, 0⟩ 0)) checkedCalls = some watched ∧
      Meets step WritesOn (start (Engine.create ⟨0, 0⟩ 0)) checkedCalls ∧
      ∃ between expiresAtMs, watched.moments[6]? = some between ∧
        between.store.get "k" = some ⟨[49], expiresAtMs, 1⟩ := by
  have meets : Meets step WritesOn (start (Engine.create ⟨0, 0⟩ 0)) checkedCalls := by
    decide +kernel
  refine ⟨_, rfl, meets, ?_⟩
  have unchanged := version_check_excludes_changes (Engine.create ⟨0, 0⟩ 0) checkedCalls
    _ rfl meets 2 6 7 _ _ _ "k" ⟨[49], none, 1⟩ rfl rfl rfl (by decide) (by decide)
  obtain ⟨expiresAtMs, kept⟩ := unchanged (by decide +kernel)
    ⟨[50], { ifVersion := some 1 }, rfl, rfl, by decide +kernel⟩
  exact ⟨_, expiresAtMs, rfl, kept⟩

def recreatingCalls : List EngineAction :=
  [.direct (.still 1) (.set "k" [49] {}), .direct (.still 2) (.delete ["k"]),
    .direct (.still 3) (.set "k" [50] {}),
    .direct (.still 4) (.set "k" [51] { ifVersion := some 1 })]

/-- The key is deleted and written by others, and the check for version 1 passes. -/
theorem recreated_key_passes_version_check :
    ∃ watched, run step (start (Engine.create ⟨0, 0⟩ 0)) recreatingCalls = some watched ∧
      ∃ earlier between later, watched.moments[2]? = some earlier ∧
        watched.moments[4]? = some between ∧ watched.moments[7]? = some later ∧
        earlier.store.get "k" = some ⟨[49], none, 1⟩ ∧ between.store.get "k" = none ∧
        later.AppliesChecked "k" 1 := by
  refine ⟨_, rfl, _, _, _, rfl, rfl, rfl, ?_, ?_, [51], { ifVersion := some 1 }, rfl, rfl, ?_⟩ <;>
    decide +kernel

end Runs

end Vaylix
