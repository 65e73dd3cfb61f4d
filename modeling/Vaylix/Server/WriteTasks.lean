import Mathlib.Logic.Function.Basic
import Vaylix.Engine.Appending
import Vaylix.Engine.Truncation
import Vaylix.Lib.Run
import Vaylix.Server.ReadIndex
import Vaylix.Server.WriteCommit

/-!
# Writes of several clients at once

A write runs on the engine, is published, driven until it commits, and enters the read index
or is rolled back, each in a step of its own. Most writes hold `replication_apply_lock`
meanwhile; `RESTORE FROM` does not, and neither do the writes of a standalone node.
-/

namespace Vaylix

open LabelledRun NumberedLog

namespace Engine

/-- The log is the same or has gone on with consecutively numbered entries. -/
def Extended (engine next : Engine) : Prop :=
  ∃ entries, next.walEntries = engine.walEntries ++ entries ∧
    From WalEntry.sequence (engine.lastAppliedSequence + 1) entries ∧
    next.lastAppliedSequence = engine.lastAppliedSequence + entries.length

variable {engine next : Engine}

theorem SameLog.extended (same : engine.SameLog next) : engine.Extended next :=
  ⟨[], by simp [same.log], trivial, same.position⟩

namespace Extended

theorem mem (extended : engine.Extended next) {entry : WalEntry}
    (member : entry ∈ engine.walEntries) : entry ∈ next.walEntries := by
  obtain ⟨entries, log, -, -⟩ := extended
  rw [log]
  exact List.mem_append_left _ member

theorem consecutive (extended : engine.Extended next) (consecutive : engine.Consecutive) :
    next.Consecutive := by
  obtain ⟨entries, log, numbered, position⟩ := extended
  obtain ⟨first, positive, before, last⟩ := consecutive
  refine ⟨first, positive, ?_, ?_⟩
  · rw [log, from_append, last]
    exact ⟨before, numbered⟩
  · rw [log, List.length_append]
    omega

end Extended

theorem Consecutive.sequence_le (consecutive : engine.Consecutive) {entry : WalEntry}
    (member : entry ∈ engine.walEntries) : entry.sequence ≤ engine.lastAppliedSequence := by
  obtain ⟨first, -, numbered, last⟩ := consecutive
  have := numbered.mem_bounds member
  omega

theorem sweepExpired_extended (engine : Engine) (nowMs : Nat) :
    engine.Extended (engine.sweepExpired nowMs) :=
  SameLog.extended ⟨rfl, EngineState.purgeExpired_lastAppliedSequence _ _⟩

variable [Codec]

theorem Appended.extended {entries : List WalEntry} (appended : engine.Appended next entries) :
    engine.Extended next :=
  ⟨entries, appended.log, appended.numbered, appended.position⟩

variable (engine)

theorem executeCommand_extended (reading : Reading) {command : Command}
    (plain : command ≠ .save ∧ command ≠ .snapshot) :
    engine.Extended (engine.executeCommand reading command).1 :=
  (Appended.direct engine plain).extended

theorem executeTransaction_extended (reading : Reading) (commands : List Command) :
    engine.Extended (engine.executeTransaction reading commands).1 := by
  cases outcome : (engine.executeTransaction reading commands).2 with
  | error err => exact (executeTransaction_error engine outcome).extended
  | ok answer =>
    exact (Appended.transaction engine (by rw [outcome]; rfl)).extended

theorem executeCommandBatch_extended (nowMs : Nat) (commands : List Command) :
    engine.Extended (engine.executeCommandBatch nowMs commands).1 := by
  cases outcome : (engine.executeCommandBatch nowMs commands).2 with
  | error err => exact (executeCommandBatch_error engine outcome).extended
  | ok answer =>
    exact (Appended.batch engine (by rw [outcome]; rfl)).extended

theorem execute_extended (term : Nat) (reading : Reading) (command : Command)
    (plain : command ≠ .save ∧ command ≠ .snapshot) :
    engine.Extended (engine.execute term reading command).1 := by
  rw [execute_engine]
  split
  · exact executeCommandBatch_extended (engine.setConsensusTerm term) reading.now [command]
  · exact executeCommand_extended (engine.setConsensusTerm term) reading plain

end Engine

/-- One command, a coordinated batch, the queue of an `EXEC`, or the text of a backup file. -/
inductive WriteWork where
  | command (reading : Reading) (command : Command)
  | coordinated (nowMs : Nat) (commands : List Command)
  | exec (reading : Reading) (commands : List Command)
  | restoreFrom (reading : Reading) (dump : String)

namespace WriteWork

/-- The coordinator takes batchable commands, and only on a leader. -/
def admitted (role : ReplicationRole) : WriteWork → Bool
  | .coordinated _ commands =>
    decide (role = .leader) && commands.all Command.isBatchableEngineWrite
  | _ => decide (role = .standalone ∨ role = .leader)

/-- The task holds `replication_apply_lock`. -/
def locks (role : ReplicationRole) : WriteWork → Bool
  | .command _ _ => decide (role ≠ .standalone)
  | .coordinated _ _ | .exec _ _ => true
  | .restoreFrom _ _ => false

def snapshots : WriteWork → Bool
  | .command _ .save | .command _ .snapshot => true
  | _ => false

/-- The frontier of a coordinated batch: the highest position among its answers. -/
def frontier [Codec] : Engine × Except EngineError (List Engine.CommandBatchResult) →
      Except ServerError LogAppendResult
  | (_, .error err) => .error (.engine err)
  | (engine, .ok results) =>
    match (results.map Engine.CommandBatchResult.lastAppliedSequence).max? with
    | none => .error .engineWorkerClosed
    | some sequence => .ok (engine.appliedStateForSequence sequence)

/-- The work and the position it reports. An `EXEC` asks for its position in a further step. -/
def run [Codec] (engine : Engine) (term : Nat) :
    WriteWork → Engine × Except ServerError (Option LogAppendResult)
  | .command reading sent =>
    let (engine, result) := engine.execute term reading sent
    (engine, result.map fun result => some result.applied)
  | .coordinated nowMs commands =>
    let outcome := (engine.setConsensusTerm term).executeCommandBatch nowMs commands
    (outcome.1, (frontier outcome).map some)
  | .exec reading commands =>
    let (engine, result) := engine.executeBatch term reading commands
    (engine, result.map fun _ => none)
  | .restoreFrom reading dump =>
    let (engine, result) := engine.execute term reading (.restore dump)
    (engine, result.map fun result => some result.applied)

variable [Codec] (engine : Engine) (term : Nat)

theorem run_extended {work : WriteWork} (plain : work.snapshots = false) :
    engine.Extended (work.run engine term).1 := by
  cases work with
  | command reading sent =>
    refine engine.execute_extended term reading sent ⟨?_, ?_⟩
    · rintro rfl
      cases plain
    · rintro rfl
      cases plain
  | coordinated nowMs commands =>
    exact Engine.executeCommandBatch_extended (engine.setConsensusTerm term) nowMs commands
  | exec reading commands =>
    simp only [run, Engine.executeBatch_engine]
    exact Engine.executeTransaction_extended (engine.setConsensusTerm term) reading commands
  | restoreFrom reading dump =>
    exact engine.execute_extended term reading (.restore dump) ⟨by simp, by simp⟩

variable {applied : LogAppendResult}

theorem position_le_frontier {nowMs : Nat} {commands : List Command}
    (done : frontier (engine.executeCommandBatch nowMs commands) = .ok applied) :
    (engine.executeCommandBatch nowMs commands).1.lastAppliedSequence ≤
      applied.lastAppliedSequence := by
  have last : ∀ results, (engine.executeCommandBatch nowMs commands).2 = .ok results → _ :=
    fun _ => engine.executeCommandBatch_last
  rcases outcome : engine.executeCommandBatch nowMs commands with ⟨next, err | results⟩
  all_goals
    rw [outcome] at done last
    simp only [frontier] at done
  · cases done
  · have ends := last results rfl
    split at done
    · cases done
    · rename_i highest greatest
      cases done
      obtain ⟨inside, above⟩ := List.max?_eq_some_iff.mp greatest
      refine above _ ?_
      have written : results.map Engine.CommandBatchResult.lastAppliedSequence ≠ [] :=
        List.ne_nil_of_mem inside
      rw [← ends, List.getLastD_eq_getLast?, List.getLast?_eq_some_getLast written]
      exact List.getLast_mem written

theorem position_le_applied (reading : Reading) (command : Command)
    (done : (engine.execute term reading command).2.map (fun result => some result.applied) =
      .ok (some applied)) :
    (engine.execute term reading command).1.lastAppliedSequence ≤
      applied.lastAppliedSequence := by
  rcases engine.execute_answer term reading command with
    ⟨err, failed, -⟩ | ⟨result, answered, position⟩
  · rw [failed] at done
    cases done
  · rw [answered] at done
    cases done
    exact position.ge

theorem position_le_reported {work : WriteWork}
    (done : (work.run engine term).2 = .ok (some applied)) :
    (work.run engine term).1.lastAppliedSequence ≤ applied.lastAppliedSequence := by
  cases work with
  | command reading sent => exact position_le_applied engine term reading sent done
  | restoreFrom reading dump => exact position_le_applied engine term reading (.restore dump) done
  | coordinated nowMs commands =>
    obtain ⟨_, answer, ⟨⟩⟩ := Except.map_eq_ok_iff.mp done
    exact position_le_frontier (engine.setConsensusTerm term) answer
  | exec reading commands =>
    obtain ⟨_, -, ⟨⟩⟩ := Except.map_eq_ok_iff.mp done

end WriteWork

/-- `own` are the entries that the work appended. The last four are the stages of
`rollback_uncommitted_tail`: the commit point is read, the log is found to be longer, and the cut
is to be published. -/
inductive WritePhase where
  | idle
  | executed (applied : Option LogAppendResult) (own : List WalEntry)
  | published (sequence : Nat) (own : List WalEntry)
  | committed (sequence : Nat) (own : List WalEntry)
  | refused
  | retreating (commit : Nat)
  | cutting (commit : Nat)
  | cut (applied : Nat)
deriving DecidableEq

namespace WritePhase

def isIdle : WritePhase → Bool
  | .idle => true
  | _ => false

/-- The entries of a write that may still be answered with success. -/
def own : WritePhase → List WalEntry
  | .executed _ own | .published _ own | .committed _ own => own
  | _ => []

end WritePhase

/-- `reports` are the positions that liveness heartbeats have read, and `answered` are the entries
of the writes answered with success. -/
structure WriteServer (Task : Type) where
  config : ReplicationConfig
  replication : ReplicationState
  engine : Engine
  readIndex : CommittedReadIndex
  tasks : Task → WritePhase
  lock : Option Task
  reports : List LogAppendResult
  answered : List WalEntry

/-- On a standalone node the engine worker may run the commands of several tasks as one batch. -/
inductive WriteEvent (Task : Type) where
  | execute (task : Task) (work : WriteWork)
  | executeQueued (nowMs : Nat) (requests : List (Task × Command))
  | sweep (nowMs : Nat)
  | observe (task : Task)
  | publish (task : Task)
  | drive (task : Task) (expired : Bool)
  | rollback (task : Task)
  | rollbackMeasure (task : Task)
  | rollbackCut (task : Task) (nowMs : Nat)
  | rollbackPublish (task : Task)
  | advance (task : Task)
  | livenessRead
  | livenessSend (report : LogAppendResult)
  | ack (follower : NodeId) (appliedSequence : Nat)
  | appendReply (follower : NodeId) (accepted : Bool) (matchSequence : Nat)

def Engine.entriesAfter (engine : Engine) (sequence : Nat) : List WalEntry :=
  engine.walEntries.filter fun entry => decide (sequence < entry.sequence)

namespace WriteServer

variable [Codec] {Task : Type} [DecidableEq Task] (server : WriteServer Task)

def setTask (task : Task) (phase : WritePhase) : WriteServer Task :=
  { server with tasks := Function.update server.tasks task phase }

def release (task : Task) : WriteServer Task :=
  { server.setTask task .idle with
    lock := if server.lock = some task then none else server.lock }

/-- The work of a task runs. Under the lock the write window is looked at once more. -/
def execute (task : Task) (work : WriteWork) : Option (WriteServer Task) :=
  let role := server.replication.role
  if !work.admitted role then none
  else if work.locks role ∧ (server.lock.isSome ∨
      !server.replication.writeWindowAvailable server.config) then none
  else
    match server.tasks task, work.run server.engine server.replication.currentTerm with
    | .idle, (engine, .error _) => some { server with engine := engine }
    | .idle, (engine, .ok applied) =>
      some { server.setTask task (.executed applied
          (engine.entriesAfter server.engine.lastAppliedSequence)) with
        engine := engine
        lock := if work.locks role then some task else server.lock }
    | _, _ => none

/-- A task owns what lies between the positions before and after its command. -/
def assign (engine : Engine) (visible : Nat) (tasks : Task → WritePhase) :
    List (Task × Except ServerError ExecuteResult) → Task → WritePhase
  | [] => tasks
  | (_, .error _) :: rest => assign engine visible tasks rest
  | (task, .ok result) :: rest =>
    let position := result.applied.lastAppliedSequence
    let own := (engine.entriesAfter visible).filter fun entry =>
      decide (entry.sequence ≤ position)
    assign engine position (Function.update tasks task (.executed (some result.applied) own)) rest

/-- `process_write_batch` on the commands of several tasks. -/
def executeQueued (nowMs : Nat) (requests : List (Task × Command)) : Option (WriteServer Task) :=
  if server.replication.role = .standalone ∧ (requests.map Prod.fst).Nodup ∧
      (∀ request ∈ requests, request.2.isBatchableEngineWrite = true) ∧
      ∀ request ∈ requests, (server.tasks request.1).isIdle = true then
    match server.engine.processWriteBatch server.replication.currentTerm nowMs
        (requests.map Prod.snd) with
    | (engine, results) => some { server with
        engine := engine
        tasks := assign engine server.engine.lastAppliedSequence server.tasks
          ((requests.map Prod.fst).zip results) }
  else none

def answers (task : Task) : Option (List WalEntry) :=
  match server.tasks task with
  | .committed sequence own =>
    match server.readIndex.advanceReadIndexTo server.engine server.config.fetchBatchSize
        sequence with
    | (_, some _) => none
    | (_, none) => some own
  | _ => none

def step : WriteEvent Task → Option (WriteServer Task)
  | .execute task work => server.execute task work
  | .executeQueued nowMs requests => server.executeQueued nowMs requests
  | .sweep nowMs => some { server with engine := server.engine.sweepExpired nowMs }
  | .observe task =>
    match server.tasks task with
    | .executed none own =>
      some (server.setTask task (.executed (some server.engine.lastAppliedState) own))
    | _ => none
  | .publish task =>
    match server.tasks task with
    | .executed (some applied) own =>
      some { server.setTask task (.published applied.lastAppliedSequence own) with
        replication := server.replication.publish server.config applied }
    | _ => none
  | .drive task expired =>
    match server.tasks task with
    | .published sequence own =>
      match server.replication.driveRound server.config sequence expired with
      | none => some server
      | some (.ok _) => some (server.setTask task (.committed sequence own))
      | some (.error _) => some (server.setTask task .refused)
    | _ => none
  | .rollback task =>
    match server.tasks task with
    | .refused => some (server.setTask task (.retreating server.replication.commitSequence))
    | _ => none
  | .rollbackMeasure task =>
    match server.tasks task with
    | .retreating commit =>
      if server.engine.lastAppliedSequence ≤ commit then some (server.release task)
      else some (server.setTask task (.cutting commit))
    | _ => none
  | .rollbackCut task nowMs =>
    match server.tasks task with
    | .cutting commit =>
      match server.engine.replaceReplicationSuffix nowMs commit [] with
      | .error _ => some (server.release task)
      | .ok (engine, applied) => some { server.setTask task (.cut applied) with engine := engine }
    | _ => none
  | .rollbackPublish task =>
    match server.tasks task with
    | .cut applied =>
      some { server.release task with
        replication := server.replication.publish server.config
          (server.engine.appliedStateForSequence applied) }
    | _ => none
  | .advance task =>
    match server.tasks task with
    | .committed sequence _ =>
      some { server.release task with
        readIndex := (server.readIndex.advanceReadIndexTo server.engine
          server.config.fetchBatchSize sequence).1
        answered := (server.answers task).getD [] ++ server.answered }
    | _ => none
  | .livenessRead =>
    if server.replication.role = .leader then
      some { server with reports := server.engine.lastAppliedState :: server.reports }
    else none
  | .livenessSend report =>
    if report ∈ server.reports then
      some { server with
        replication := server.replication.publish server.config report
        reports := server.reports.erase report }
    else none
  | .ack follower appliedSequence =>
    some { server with
      replication := server.replication.registerFollowerAck server.config follower appliedSequence
        server.replication.currentTerm server.config.nodeId }
  | .appendReply follower accepted matchSequence =>
    some { server with
      replication := server.replication.recordAppendResult server.config follower accepted
        matchSequence server.replication.currentTerm server.config.nodeId }

structure Quiet (server : WriteServer Task) : Prop where
  tasks : ∀ task, server.tasks task = .idle
  lock : server.lock = none
  reports : server.reports = []
  answered : server.answered = []

inductive Moves (server : WriteServer Task) : WriteEvent Task → WriteServer Task → Prop
  | failed {task : Task} {work : WriteWork} {engine : Engine} {err : ServerError}
      (ran : work.run server.engine server.replication.currentTerm = (engine, .error err)) :
      Moves server (.execute task work) { server with engine := engine }
  | executed {task : Task} {work : WriteWork} {engine : Engine}
      {applied : Option LogAppendResult} {lock : Option Task}
      (ran : work.run server.engine server.replication.currentTerm = (engine, .ok applied)) :
      Moves server (.execute task work)
        { server.setTask task (.executed applied
            (engine.entriesAfter server.engine.lastAppliedSequence)) with
          engine := engine
          lock := lock }
  | queued {nowMs term : Nat} {requests : List (Task × Command)} {commands : List Command}
      (standalone : server.replication.role = .standalone) :
      Moves server (.executeQueued nowMs requests)
        { server with
          engine := (server.engine.processWriteBatch term nowMs commands).1
          tasks := assign (server.engine.processWriteBatch term nowMs commands).1
            server.engine.lastAppliedSequence server.tasks
            ((requests.map Prod.fst).zip
              (server.engine.processWriteBatch term nowMs commands).2) }
  | swept {nowMs : Nat} :
      Moves server (.sweep nowMs) { server with engine := server.engine.sweepExpired nowMs }
  | observed {task : Task} {own : List WalEntry} (was : server.tasks task = .executed none own) :
      Moves server (.observe task)
        (server.setTask task (.executed (some server.engine.lastAppliedState) own))
  | published {task : Task} {applied : LogAppendResult} {own : List WalEntry}
      (was : server.tasks task = .executed (some applied) own) :
      Moves server (.publish task)
        { server.setTask task (.published applied.lastAppliedSequence own) with
          replication := server.replication.publish server.config applied }
  | waits {task : Task} {expired : Bool} : Moves server (.drive task expired) server
  | committed {task : Task} {expired : Bool} {sequence : Nat} {own : List WalEntry}
      (was : server.tasks task = .published sequence own)
      (driven : server.replication.driveRound server.config sequence expired = some (.ok ())) :
      Moves server (.drive task expired) (server.setTask task (.committed sequence own))
  | refused {task : Task} {expired : Bool} {sequence : Nat} {own : List WalEntry}
      {err : ServerError} (was : server.tasks task = .published sequence own)
      (driven : server.replication.driveRound server.config sequence expired =
        some (.error err)) :
      Moves server (.drive task expired) (server.setTask task .refused)
  | retreats {task : Task} (was : server.tasks task = .refused) :
      Moves server (.rollback task)
        (server.setTask task (.retreating server.replication.commitSequence))
  | short {task : Task} {commit : Nat} (was : server.tasks task = .retreating commit) :
      Moves server (.rollbackMeasure task) (server.release task)
  | long {task : Task} {commit : Nat} (was : server.tasks task = .retreating commit) :
      Moves server (.rollbackMeasure task) (server.setTask task (.cutting commit))
  | uncut {task : Task} {nowMs commit : Nat} (was : server.tasks task = .cutting commit) :
      Moves server (.rollbackCut task nowMs) (server.release task)
  | cut {task : Task} {nowMs commit applied : Nat} {engine : Engine}
      (was : server.tasks task = .cutting commit)
      (replaced : server.engine.replaceReplicationSuffix nowMs commit [] = .ok (engine, applied)) :
      Moves server (.rollbackCut task nowMs)
        { server.setTask task (.cut applied) with engine := engine }
  | withdrawn {task : Task} {applied : Nat} (was : server.tasks task = .cut applied) :
      Moves server (.rollbackPublish task)
        { server.release task with
          replication := server.replication.publish server.config
            (server.engine.appliedStateForSequence applied) }
  | answered {task : Task} {sequence : Nat} {own : List WalEntry} {readIndex : CommittedReadIndex}
      {answered : List WalEntry} (was : server.tasks task = .committed sequence own)
      (told : answered = server.answered ∨ answered = own ++ server.answered) :
      Moves server (.advance task)
        { server.release task with readIndex := readIndex, answered := answered }
  | measured (leads : server.replication.role = .leader) :
      Moves server .livenessRead
        { server with reports := server.engine.lastAppliedState :: server.reports }
  | reported {report : LogAppendResult} (found : report ∈ server.reports) :
      Moves server (.livenessSend report)
        { server with
          replication := server.replication.publish server.config report
          reports := server.reports.erase report }
  | acknowledged {follower : NodeId} {sequence : Nat} :
      Moves server (.ack follower sequence)
        { server with
          replication := server.replication.registerFollowerAck server.config follower sequence
            server.replication.currentTerm server.config.nodeId }
  | replied {follower : NodeId} {accepted : Bool} {sequence : Nat} :
      Moves server (.appendReply follower accepted sequence)
        { server with
          replication := server.replication.recordAppendResult server.config follower accepted
            sequence server.replication.currentTerm server.config.nodeId }

/-- A step is one of the listed moves. -/
theorem moves_of_step {server next : WriteServer Task} {event : WriteEvent Task}
    (taken : server.step event = some next) : server.Moves event next := by
  cases event with
  | execute task work =>
    simp only [step, execute] at taken
    split at taken
    · cases taken
    split at taken
    · cases taken
    split at taken
    · rename_i ran
      cases taken
      exact .failed ran
    · rename_i ran
      cases taken
      exact .executed ran
    · cases taken
  | executeQueued nowMs requests =>
    simp only [step, executeQueued] at taken
    split at taken
    · rename_i allowed
      cases taken
      exact .queued allowed.1
    · cases taken
  | sweep nowMs =>
    cases taken
    exact .swept
  | observe task =>
    simp only [step] at taken
    split at taken
    · rename_i was
      cases taken
      exact .observed was
    · cases taken
  | publish task =>
    simp only [step] at taken
    split at taken
    · rename_i was
      cases taken
      exact .published was
    · cases taken
  | drive task expired =>
    simp only [step] at taken
    split at taken
    · rename_i was
      split at taken
      · cases taken
        exact .waits
      · rename_i driven
        cases taken
        exact .committed was driven
      · rename_i driven
        cases taken
        exact .refused was driven
    · cases taken
  | rollback task =>
    simp only [step] at taken
    split at taken
    · rename_i was
      cases taken
      exact .retreats was
    · cases taken
  | rollbackMeasure task =>
    simp only [step] at taken
    split at taken
    · rename_i was
      split at taken
      · cases taken
        exact .short was
      · cases taken
        exact .long was
    · cases taken
  | rollbackCut task nowMs =>
    simp only [step] at taken
    split at taken
    · rename_i was
      split at taken
      · cases taken
        exact .uncut was
      · rename_i replaced
        cases taken
        exact .cut was replaced
    · cases taken
  | rollbackPublish task =>
    simp only [step] at taken
    split at taken
    · rename_i was
      cases taken
      exact .withdrawn was
    · cases taken
  | advance task =>
    simp only [step] at taken
    split at taken
    · rename_i was
      cases taken
      refine .answered was ?_
      simp only [answers, was]
      split
      · exact .inl rfl
      · exact .inr rfl
    · cases taken
  | livenessRead =>
    simp only [step] at taken
    split at taken
    · rename_i leads
      cases taken
      exact .measured leads
    · cases taken
  | livenessSend report =>
    simp only [step] at taken
    split at taken
    · rename_i found
      cases taken
      exact .reported found
    · cases taken
  | ack follower sequence =>
    cases taken
    exact .acknowledged
  | appendReply follower accepted sequence =>
    cases taken
    exact .replied

/-- The stages of a rollback in a row are `rollback_uncommitted_tail`. -/
theorem rollback_uninterrupted {server : WriteServer Task} {task : Task} {nowMs : Nat}
    {replication : ReplicationState} {engine : Engine} (was : server.tasks task = .refused)
    (done : rollbackUncommittedTail server.config server.replication server.engine nowMs =
      .ok (replication, engine)) :
    ∃ stages, run step server (.rollback task :: .rollbackMeasure task :: stages) =
        some { server.release task with replication := replication, engine := engine } := by
  have retreats : server.step (.rollback task) =
      some (server.setTask task (.retreating server.replication.commitSequence)) := by
    simp only [step, was]
  unfold rollbackUncommittedTail at done
  split at done
  · rename_i short
    cases done
    have measured : (server.setTask task (.retreating server.replication.commitSequence)).step
        (.rollbackMeasure task) = some (server.release task) := by
      simp only [step, setTask, release, Function.update_idem, Function.update_self, if_pos short]
      rfl
    refine ⟨[], ?_⟩
    rw [run_cons, retreats, Option.bind_some, run_cons, measured]
    rfl
  · rename_i long
    split at done
    · cases done
    · rename_i next applied replaced
      cases done
      have measured : (server.setTask task (.retreating server.replication.commitSequence)).step
          (.rollbackMeasure task) =
            some (server.setTask task (.cutting server.replication.commitSequence)) := by
        simp only [step, setTask, Function.update_idem, Function.update_self, if_neg long]
      have cuts : (server.setTask task (.cutting server.replication.commitSequence)).step
          (.rollbackCut task nowMs) =
            some { server.setTask task (.cut applied) with engine := engine } := by
        simp only [step, setTask, Function.update_idem, Function.update_self, replaced]
      have withdraws : step { server.setTask task (.cut applied) with engine := engine }
          (.rollbackPublish task) = some { server.release task with
            replication := server.replication.publish server.config
              (engine.appliedStateForSequence applied)
            engine := engine } := by
        simp only [step, release, setTask, Function.update_idem, Function.update_self]
        rfl
      refine ⟨[.rollbackCut task nowMs, .rollbackPublish task], ?_⟩
      rw [run_cons, retreats, Option.bind_some, run_cons, measured, Option.bind_some, run_cons,
        cuts, Option.bind_some, run_cons, withdraws]
      rfl

end WriteServer

end Vaylix
