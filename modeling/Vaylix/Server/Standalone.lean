import Vaylix.Engine.Appending
import Vaylix.Engine.LogGrowth
import Vaylix.Engine.Recovery
import Vaylix.Lib.Run
import Vaylix.Server.ReadIndex
import Vaylix.Server.WriteCommit

/-!
# A standalone node with one client

A write runs on the engine, is published, driven and projected into the read index, which
answers `GET`, `MGET`, `EXISTS` and `TTL`. The index never purges, so an integer update that
finds its key purged in the engine finds the old entry in the index. Apart from such updates
the index answers what the engine would.
-/

namespace Vaylix

open LabelledRun NumberedLog

structure StandaloneNode where
  config : ReplicationConfig
  replication : ReplicationState
  engine : Engine
  readIndex : CommittedReadIndex
  clock : Nat
  indexErrors : List ServerError

/-- `RESTORE FROM` runs `RESTORE` with the text of its file. -/
inductive ClientEvent where
  | call (reading : Reading) (command : Command)
  | exec (reading : Reading) (commands : List Command)
  | sweep (nowMs : Nat)

namespace ClientEvent

def startMs : ClientEvent → Nat
  | .call reading _ | .exec reading _ => reading.now
  | .sweep nowMs => nowMs

def endMs : ClientEvent → Nat
  | .call reading _ | .exec reading _ => reading.created
  | .sweep nowMs => nowMs

def admitted : ClientEvent → Bool
  | .call _ command => command.isDataCommand
  | _ => true

end ClientEvent

namespace Engine

variable [Codec] (engine : Engine)

/-- What `EngineHandle::execute` does to the log, and the position it reports. -/
structure Executes (clock : Nat) (full : EngineStore)
    (outcome : Engine × Except ServerError ExecuteResult) : Prop where
  grows : Grows clock full engine outcome.1
  failed : ∀ err, outcome.2 = .error err → outcome.1.walEntries = engine.walEntries
  answered : ∀ result, outcome.2 = .ok result →
    result.applied.lastAppliedSequence = outcome.1.lastAppliedSequence

variable {full : EngineStore} {reading : Reading} {command : Command}

theorem executeCommandBatch_grows {nowMs : Nat}
    (batchable : command.isBatchableEngineWrite = true)
    (sheds : Sheds nowMs full engine.state.store) :
    Grows nowMs full engine (engine.executeCommandBatch nowMs [command]).1 := by
  refine Grows.batch engine sheds ⟨?_, fun _ _ => trivial⟩ ?_
  · intro key counter
    rw [Command.counterKey_of_batchable batchable] at counter
    cases counter
  · rintro - before after split - final operations results evaluated
    obtain rfl : before = [] := by
      have length := congrArg List.length split
      simp only [List.length_append, List.length_cons, List.length_nil] at length
      exact List.length_eq_zero_iff.mp (by omega)
    simp only [evaluateTransaction, Except.ok.injEq, Prod.mk.injEq] at evaluated
    exact evaluated.2.1.symm

theorem execute_executes (term : Nat) (data : command.isDataCommand = true)
    (sheds : Sheds reading.now full engine.state.store)
    (fresh : ∀ key, command.counterKey = some key → Fresh reading.now full key) :
    engine.Executes reading.created full (engine.execute term reading command) := by
  have plain : command ≠ .save ∧ command ≠ .snapshot := by
    constructor
    · rintro rfl
      cases data
    · rintro rfl
      cases data
  have grows : Grows reading.created full engine (engine.execute term reading command).1 := by
    rw [execute_engine]
    split
    · rename_i batchable
      exact (executeCommandBatch_grows (engine.setConsensusTerm term) batchable sheds).mono
        reading.now_le_created
    · refine Grows.direct (engine.setConsensusTerm term) sheds fresh ?_
      cases command <;> first | rfl | cases data
  rcases engine.execute_answer term reading command with
    ⟨err, failed, kept⟩ | ⟨result, answered, position⟩
  · exact ⟨grows, fun _ _ => (kept plain).log, by rw [failed]; rintro _ ⟨⟩⟩
  · exact ⟨grows, by rw [answered]; rintro _ ⟨⟩, by rw [answered]; rintro _ ⟨⟩; exact position⟩

theorem execute_read (term : Nat) (reading : Reading) (reads : command.isWriteCommand = false) :
    (engine.execute term reading command).1.walEntries = engine.walEntries := by
  obtain ⟨state, -, left⟩ := engine.execute_of_read term reading reads
  rw [left]
  rfl

end Engine

namespace StandaloneNode

variable [Codec] (node : StandaloneNode)

def start (config : ReplicationConfig) (persisted : Option PersistedReplicationState)
    (disk : Disk) (options : EngineOptions) (nowMs : Nat) : Except EngineError StandaloneNode :=
  match Engine.fromPathsWithOptions disk options nowMs with
  | .error err => .error err
  | .ok engine => .ok
    { config := config
      replication := (ReplicationState.new config persisted).publish config engine.lastAppliedState
      engine := engine
      readIndex := .rebuildFromEngineState engine.state
      clock := nowMs
      indexErrors := [] }

/-- Publish, drive, and either roll back or advance the index. -/
def commitWrite (nowMs : Nat) (applied : LogAppendResult) : StandaloneNode × Option ServerError :=
  let published := node.replication.publish node.config applied
  match published.driveRound node.config applied.lastAppliedSequence true with
  | some (.error err) =>
    match rollbackUncommittedTail node.config published node.engine nowMs with
    | .error failure => ({ node with replication := published }, some failure)
    | .ok (replication, engine) =>
      ({ node with replication := replication, engine := engine }, some err)
  | _ =>
    match node.readIndex.advanceReadIndexTo node.engine node.config.fetchBatchSize
        applied.lastAppliedSequence with
    | (readIndex, none) => ({ node with replication := published, readIndex := readIndex }, none)
    | (readIndex, some err) =>
      ({ node with
          replication := published
          readIndex := readIndex
          indexErrors := node.indexErrors ++ [err] }, some err)

def processWrite (reading : Reading) (command : Command) :
    StandaloneNode × Except ServerError TransactionResult :=
  match node.engine.execute node.replication.currentTerm reading command with
  | (engine, .error err) => ({ node with engine := engine }, .error err)
  | (engine, .ok result) =>
    match StandaloneNode.commitWrite { node with engine := engine } reading.created
        result.applied with
    | (node, none) => (node, .ok result.response)
    | (node, some err) => (node, .error err)

def processCommand (reading : Reading) (command : Command) :
    StandaloneNode × Except ServerError TransactionResult :=
  if command.isWriteCommand then node.processWrite reading command
  else if command.isFastPathRead then (node, node.readIndex.readCommand reading.now command)
  else
    match node.engine.execute node.replication.currentTerm reading command with
    | (engine, result) => ({ node with engine := engine }, result.map ExecuteResult.response)

def processExec (reading : Reading) (commands : List Command) :
    StandaloneNode × Except ServerError (List TransactionResult) :=
  if !node.replication.writeWindowAvailable node.config then
    (node, .error .replicationAckUnavailable)
  else if commands.any Command.refusedInTransaction then
    (node, .error .unsupportedRemoteCommand)
  else
    match node.engine.executeBatch node.replication.currentTerm reading commands with
    | (engine, .error err) => ({ node with engine := engine }, .error err)
    | (engine, .ok results) =>
      match StandaloneNode.commitWrite { node with engine := engine } reading.created
          engine.lastAppliedState with
      | (node, none) => (node, .ok results)
      | (node, some err) => (node, .error err)

def perform : ClientEvent → StandaloneNode
  | .call reading command => (node.processCommand reading command).1
  | .exec reading commands => (node.processExec reading commands).1
  | .sweep nowMs => { node with engine := node.engine.sweepExpired nowMs }

def step (event : ClientEvent) : Option StandaloneNode :=
  if node.clock ≤ event.startMs ∧ event.admitted = true then
    some { node.perform event with clock := event.endMs }
  else none

/-- No integer update meets an expired entry in the index. Inside a transaction the entries change
with the commands before it. -/
def CountersLive : ClientEvent → Prop
  | .call reading command => ∀ key, command.counterKey = some key →
      ∀ entry, node.readIndex.entries[key]? = some entry → entry.expiredAt reading.now = false
  | .exec reading commands => ∀ full, node.readIndex.entries.Projects full →
      CountersFresh reading.now full (node.engine.state.store.purgeExpired reading.now) commands
  | .sweep _ => True

/-- The index stands at the applied position and projects a keyspace that only has more expired
entries than the engine's. -/
structure IndexFollows (node : StandaloneNode) : Prop where
  standalone : node.replication.role = .standalone
  contiguous : node.engine.LogContiguous
  position : node.readIndex.committedSequence = node.engine.lastAppliedSequence
  errorless : node.indexErrors = []
  related : ∃ full, node.readIndex.entries.Projects full ∧
    Sheds node.clock full node.engine.state.store

namespace IndexFollows

variable {node : StandaloneNode} {full : EngineStore} {clock : Nat}

theorem commitWrite_eq (node : StandaloneNode) (standalone : node.replication.role = .standalone)
    (nowMs : Nat) (applied : LogAppendResult) {readIndex : CommittedReadIndex}
    (advanced : node.readIndex.advanceReadIndexTo node.engine node.config.fetchBatchSize
      applied.lastAppliedSequence = (readIndex, none)) :
    node.commitWrite nowMs applied =
      ({ node with
          replication := node.replication.publish node.config applied
          readIndex := readIndex }, none) := by
  have driven : (node.replication.publish node.config applied).driveRound node.config
      applied.lastAppliedSequence true = some (.ok ()) := by
    simp [ReplicationState.publish, ReplicationState.setLocalLastAppliedState, standalone,
      ReplicationState.driveRound]
  simp only [commitWrite, driven, advanced]

omit [Codec] in
theorem publish_role (standalone : node.replication.role = .standalone)
    (applied : LogAppendResult) :
    (node.replication.publish node.config applied).role = .standalone := by
  simp [ReplicationState.publish, ReplicationState.setLocalLastAppliedState, standalone]

variable (follows : node.IndexFollows)
include follows

theorem commit {next : Engine} (projects : node.readIndex.entries.Projects full)
    (grows : Grows clock full node.engine next) (applied : LogAppendResult)
    (reported : applied.lastAppliedSequence = next.lastAppliedSequence) (nowMs : Nat) :
    IndexFollows { (StandaloneNode.commitWrite { node with engine := next } nowMs applied).1 with
      clock := clock } := by
  have contiguous := grows.logContiguous follows.contiguous
  obtain ⟨entries, full', log, -, position, run, related⟩ := grows
  obtain ⟨first, numbered, final⟩ := contiguous
  have seen : first + node.engine.walEntries.length = node.readIndex.committedSequence + 1 := by
    rw [log, List.length_append] at final
    rw [follows.position]
    omega
  have target : applied.lastAppliedSequence =
      node.readIndex.committedSequence + entries.length := by
    rw [reported, position, follows.position]
  obtain ⟨projected, advanced, projectsFinal⟩ :=
    CommittedReadIndex.advanceLoop_of_replay log numbered seen projects run le_rfl
  have caughtUp : node.readIndex.advanceReadIndexTo next node.config.fetchBatchSize
      applied.lastAppliedSequence =
        (⟨projected, node.readIndex.committedSequence + entries.length⟩, none) := by
    rw [CommittedReadIndex.advanceReadIndexTo, target, Nat.add_sub_cancel_left]
    exact advanced
  rw [commitWrite_eq { node with engine := next } follows.standalone nowMs applied caughtUp]
  exact ⟨publish_role follows.standalone applied, ⟨first, numbered, final⟩,
    by rw [position, follows.position], follows.errorless, full', projectsFinal, related⟩

omit [Codec] in
theorem quiet {next : Engine} (projects : node.readIndex.entries.Projects full)
    (grows : Grows clock full node.engine next) (kept : next.walEntries = node.engine.walEntries) :
    IndexFollows { node with engine := next, clock := clock } := by
  obtain ⟨position, related⟩ := grows.of_walEntries_eq kept
  exact ⟨follows.standalone, grows.logContiguous follows.contiguous,
    follows.position.trans position.symm, follows.errorless, full, projects, related⟩

theorem call {reading : Reading} {command : Command} (data : command.isDataCommand = true)
    (order : node.clock ≤ reading.now) (live : node.CountersLive (.call reading command)) :
    IndexFollows { (node.processCommand reading command).1 with clock := reading.created } := by
  have late := order.trans reading.now_le_created
  obtain ⟨full, projects, sheds⟩ := follows.related
  have fresh : ∀ key, command.counterKey = some key → Fresh reading.now full key := by
    intro key counter stored found
    have projected : node.readIndex.entries[key]? = some stored.readEntry := by
      rw [projects key, found]
      rfl
    have unexpired := live key counter _ projected
    unfold StoredValue.expiredAt
    cases expires : stored.expiresAtMs with
    | none => rfl
    | some expiresAtMs =>
      simpa [ReadEntry.expiredAt, StoredValue.readEntry, expires] using unexpired
  have executed := Engine.execute_executes node.engine node.replication.currentTerm data
    (sheds.mono order) fresh
  unfold processCommand processWrite
  rcases outcome : node.engine.execute node.replication.currentTerm reading command with
    ⟨next, answer⟩
  rw [outcome] at executed
  split
  · cases answer with
    | error err => exact follows.quiet projects executed.grows (executed.failed err rfl)
    | ok result =>
      have committed := follows.commit projects executed.grows result.applied
        (executed.answered result rfl) reading.created
      dsimp only
      rcases final : StandaloneNode.commitWrite { node with engine := next } reading.created
        result.applied with ⟨settled, failure⟩
      rw [final] at committed
      cases failure <;> exact committed
  · rename_i read
    have kept := Engine.execute_read node.engine node.replication.currentTerm reading
      (Bool.not_eq_true _ ▸ read)
    rw [outcome] at kept
    split
    · exact ⟨follows.standalone, follows.contiguous, follows.position, follows.errorless, full,
        projects, sheds.mono late⟩
    · exact follows.quiet projects executed.grows kept

theorem exec {reading : Reading} {commands : List Command} (order : node.clock ≤ reading.now)
    (live : node.CountersLive (.exec reading commands)) :
    IndexFollows { (node.processExec reading commands).1 with clock := reading.created } := by
  have late := order.trans reading.now_le_created
  obtain ⟨full, projects, sheds⟩ := follows.related
  have idle : IndexFollows { node with clock := reading.created } :=
    ⟨follows.standalone, follows.contiguous, follows.position, follows.errorless, full,
      projects, sheds.mono late⟩
  have grows := Grows.transaction (node.engine.setConsensusTerm node.replication.currentTerm)
    (sheds.mono order) (live full projects)
  unfold processExec Engine.executeBatch
  split
  · exact idle
  split
  · exact idle
  rcases outcome : (node.engine.setConsensusTerm node.replication.currentTerm).executeTransaction
    reading commands with ⟨next, answer⟩
  rw [outcome] at grows
  cases answer with
  | error err =>
    have kept := Engine.executeTransaction_error
      (node.engine.setConsensusTerm node.replication.currentTerm) (congrArg Prod.snd outcome)
    rw [outcome] at kept
    exact follows.quiet projects grows kept.log
  | ok results =>
    have committed := follows.commit projects grows next.lastAppliedState rfl reading.created
    dsimp only
    rcases final : StandaloneNode.commitWrite { node with engine := next } reading.created
      next.lastAppliedState with ⟨settled, failure⟩
    rw [final] at committed
    cases failure <;> exact committed

/-- The index follows every event. -/
theorem step {event : ClientEvent} {next : StandaloneNode} (live : node.CountersLive event)
    (taken : node.step event = some next) : next.IndexFollows := by
  unfold StandaloneNode.step at taken
  split at taken
  · rename_i enabled
    obtain ⟨order, admitted⟩ := enabled
    cases taken
    cases event with
    | call reading command => exact follows.call admitted order live
    | exec reading commands => exact follows.exec order live
    | sweep nowMs =>
      obtain ⟨full, projects, sheds⟩ := follows.related
      exact follows.quiet projects (Grows.quiet node.engine
        (EngineState.purgeExpired_lastAppliedSequence _ _) (sheds.mono order).purge) rfl
  · cases taken

omit follows in
theorem start {config : ReplicationConfig} {persisted : Option PersistedReplicationState}
    {disk : Disk} {options : EngineOptions} {nowMs : Nat} (standalone : config.role = .standalone)
    (started : StandaloneNode.start config persisted disk options nowMs = .ok node) :
    node.IndexFollows := by
  unfold StandaloneNode.start at started
  split at started
  · cases started
  · rename_i engine opened
    cases started
    have role : (ReplicationState.new config persisted).role = .standalone := by
      simp [ReplicationState.new, standalone]
    refine ⟨?_, Engine.logContiguous_of_opened opened, rfl, rfl, engine.state.store,
      CommittedReadIndex.projects_rebuild _, Sheds.refl _ _⟩
    simp [ReplicationState.publish, ReplicationState.setLocalLastAppliedState, role]

end IndexFollows

omit [Codec] in
theorem liveEntry_eq {entries : ReadEntries} {full live : EngineStore} {clock t : Nat}
    (projects : entries.Projects full) (sheds : Sheds clock full live) (order : clock ≤ t)
    (key : Key) :
    entries.liveEntry key t = ((live.purgeExpired t).get key).map StoredValue.readEntry := by
  rw [EngineStore.get_purgeExpired, ← sheds.live_eq order key, ReadEntries.liveEntry, projects key]
  cases full.get key with
  | none => rfl
  | some stored =>
    obtain ⟨value, expires, version⟩ := stored
    cases expires with
    | none => rfl
    | some expiresAtMs =>
      by_cases expired : expiresAtMs ≤ t
      · simp [StoredValue.readEntry, StoredValue.expiredAt, Option.filter, expired]
      · simp [StoredValue.readEntry, StoredValue.expiredAt, Option.filter, expired]

omit [Codec] in
theorem ttl_eq (index : CommittedReadIndex) (key : Key) (t : Nat) :
    index.readCommand t (.ttl key) = .ok (.integer (
      match index.entries.liveEntry key t with
      | some entry =>
        match entry.expiresAtMs with
        | some expiresAtMs => EngineState.remainingSeconds (expiresAtMs - t)
        | none => ttlNoExpiry
      | none => ttlKeyMissing)) := by
  simp only [CommittedReadIndex.readCommand, ReadEntries.liveEntry]
  cases index.entries[key]? with
  | none => rfl
  | some entry =>
    obtain ⟨value, expires⟩ := entry
    cases expires with
    | none => rfl
    | some expiresAtMs =>
      by_cases expired : expiresAtMs ≤ t <;> simp [ReadEntry.expiredAt, expired]

theorem readCommand_eq {index : CommittedReadIndex} {engine : Engine} {full : EngineStore}
    {clock t : Nat} (projects : index.entries.Projects full)
    (sheds : Sheds clock full engine.state.store) (order : clock ≤ t) {command : Command}
    (fast : command.isFastPathRead = true) :
    index.readCommand t command = (engine.executeCommand (.still t) command).2 := by
  have live := liveEntry_eq projects sheds order
  have values : ∀ key, (index.entries.liveEntry key t).map ReadEntry.value =
      (engine.state.store.purgeExpired t).getValue key := by
    intro key
    rw [live key, Option.map_map]
    rfl
  cases command <;> try cases fast
  case get key =>
    simp only [CommittedReadIndex.readCommand, values]
    rfl
  case mGet keys =>
    simp only [CommittedReadIndex.readCommand, values]
    rfl
  case «exists» key =>
    simp only [CommittedReadIndex.readCommand, live, Option.isSome_map]
    rfl
  case ttl key =>
    rw [ttl_eq, live]
    change _ = Except.ok (TransactionResult.integer
      (EngineState.ttlAnswer (engine.state.store.purgeExpired t) key t))
    unfold EngineState.ttlAnswer
    cases found : (engine.state.store.purgeExpired t).get key with
    | none => rfl
    | some stored =>
      have unexpired : stored.expiredAt t = false := by
        rw [EngineStore.get_purgeExpired, Option.filter_eq_some_iff] at found
        simpa using found.2
      obtain ⟨value, expires, version⟩ := stored
      cases expires with
      | none => rfl
      | some expiresAtMs =>
        simp only [StoredValue.expiredAt, decide_eq_false_iff_not] at unexpired
        simp [StoredValue.readEntry, unexpired]

/-- **Fast-path reads equal engine reads** in every run of a standalone node in which integer
updates never meet an expired entry in the index, and every write is projected without error. -/
theorem fast_reads_equal_engine_reads (config : ReplicationConfig)
    (persisted : Option PersistedReplicationState) (disk : Disk) (options : EngineOptions)
    (startMs : Nat) (initial node : StandaloneNode) (events : List ClientEvent)
    (standalone : config.role = .standalone)
    (started : start config persisted disk options startMs = .ok initial)
    (reached : run step initial events = some node)
    (live : Meets step CountersLive initial events) :
    node.readIndex.committedSequence = node.engine.lastAppliedSequence ∧ node.indexErrors = [] ∧
      ∀ t, node.clock ≤ t → ∀ command, command.isFastPathRead = true →
        node.readIndex.readCommand t command =
          (node.engine.executeCommand (.still t) command).2 := by
  have follows : node.IndexFollows :=
    invariant_of_meets (fun _ _ _ follows live taken => IndexFollows.step follows live taken)
      (IndexFollows.start standalone started) live reached
  obtain ⟨full, projects, sheds⟩ := follows.related
  exact ⟨follows.position, follows.errorless,
    fun t order command fast => readCommand_eq projects sheds order fast⟩

end StandaloneNode

section Runs

open Sample StandaloneNode

def standaloneConfig : ReplicationConfig := ⟨"n1", none, .standalone, .local, 256, []⟩

def countedEvents : List ClientEvent :=
  [.call (.still 0) (.set "k" [53] {}), .exec (.still 5) [.incr "k"], .sweep 9]

theorem fast_reads_equal_engine_reads_counted :
    ∃ initial node, start standaloneConfig none Disk.empty ⟨0, 0⟩ 0 = .ok initial ∧
      run step initial countedEvents = some node ∧
      node.readIndex.committedSequence = node.engine.lastAppliedSequence ∧
      node.indexErrors = [] ∧ ∀ t, node.clock ≤ t → ∀ command, command.isFastPathRead = true →
        node.readIndex.readCommand t command =
          (node.engine.executeCommand (.still t) command).2 := by
  refine ⟨_, _, rfl, rfl, fast_reads_equal_engine_reads standaloneConfig none Disk.empty ⟨0, 0⟩ 0
    _ _ countedEvents rfl rfl rfl ?_⟩
  refine ⟨?_, ?_⟩
  · rintro key ⟨⟩
  · rintro next ⟨⟩
    refine ⟨?_, ?_⟩
    · intro full projects
      refine ⟨?_, fun _ _ => trivial⟩
      rintro key ⟨⟩ stored found
      have kept : some (ReadEntry.mk [53] none) = some stored.readEntry := by
        have projected := projects "k"
        rw [found] at projected
        exact projected
      have lasting : stored.expiresAtMs = none :=
        (congrArg ReadEntry.expiresAtMs (Option.some.inj kept)).symm
      rw [StoredValue.expiredAt, lasting]
    · rintro next ⟨⟩
      exact ⟨trivial, fun _ _ => trivial⟩

/-- A text expires, is purged by the engine, and is counted up as if it were missing. -/
def stalledEvents : List ClientEvent :=
  [.call (.still 0) (.set "k" [120] { expiration := some (.milliseconds 10) }),
    .call (.still 20) (.incr "k")]

/-- The index reports that `x` is no integer and misses the write: the engine has 1. -/
theorem expired_counter_stalls_index :
    ∃ initial node, start standaloneConfig none Disk.empty ⟨0, 0⟩ 0 = .ok initial ∧
      run step initial stalledEvents = some node ∧ node.clock ≤ 20 ∧ node.indexErrors ≠ [] ∧
      node.readIndex.readCommand 20 (.get "k") ≠
        (node.engine.executeCommand (.still 20) (.get "k")).2 := by
  refine ⟨_, _, rfl, rfl, by decide, by decide +kernel, by decide +kernel⟩

end Runs

end Vaylix
