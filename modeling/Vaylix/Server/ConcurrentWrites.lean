import Mathlib.Data.Fintype.Basic
import Vaylix.Server.Steady
import Vaylix.Server.WriteTasks

/-!
# What an answered write may count on

On a standalone node a published position becomes the commit point even when it lies below the
one before, and tasks publish in any order. On a leader a rollback cuts off everything behind
the commit point, also the entry of a `RESTORE FROM` that waits without the lock. Where
neither happens, an answered write has its own entries in the log and committed.
-/

namespace Vaylix

open LabelledRun NumberedLog

namespace WritePhase

/-- On a standalone node: the log has the entries, and once published the commit covers them. -/
def Unopposed (log : List WalEntry) (commit : Nat) : WritePhase → Prop
  | .idle => True
  | .executed _ own => ∀ entry ∈ own, entry ∈ log
  | .published sequence own | .committed sequence own =>
    (∀ entry ∈ own, entry ∈ log) ∧ sequence ≤ commit
  | _ => False

/-- On a leader: the entries are in the log, and the position that is waited for covers
them. -/
def Covered (log : List WalEntry) (commit : Nat) : WritePhase → Prop
  | .executed none own => ∀ entry ∈ own, entry ∈ log
  | .executed (some applied) own =>
    ∀ entry ∈ own, entry ∈ log ∧ entry.sequence ≤ applied.lastAppliedSequence
  | .published sequence own => ∀ entry ∈ own, entry ∈ log ∧ entry.sequence ≤ sequence
  | .committed _ own => ∀ entry ∈ own, entry ∈ log ∧ entry.sequence ≤ commit
  | _ => True

variable {log log' : List WalEntry} {commit commit' : Nat} {phase : WritePhase}

theorem Unopposed.mono (unopposed : phase.Unopposed log commit)
    (kept : ∀ entry ∈ log, entry ∈ log') (onward : commit ≤ commit') :
    phase.Unopposed log' commit' := by
  cases phase with
  | executed applied own => exact fun entry member => kept entry (unopposed entry member)
  | published _ _ | committed _ _ =>
    exact ⟨fun entry member => kept entry (unopposed.1 entry member), unopposed.2.trans onward⟩
  | _ => exact unopposed

theorem Covered.mono (covered : phase.Covered log commit)
    (kept : ∀ entry ∈ phase.own, entry ∈ log → entry ∈ log') (onward : commit ≤ commit') :
    phase.Covered log' commit' := by
  cases phase with
  | executed applied own =>
    cases applied with
    | none => exact fun entry member => kept entry member (covered entry member)
    | some applied =>
      exact fun entry member => (covered entry member).imp_left (kept entry member)
  | published sequence own =>
    exact fun entry member => (covered entry member).imp_left (kept entry member)
  | committed sequence own =>
    exact fun entry member =>
      ⟨kept entry member (covered entry member).1, (covered entry member).2.trans onward⟩
  | _ => trivial

end WritePhase

namespace WriteServer

variable {Task : Type} [DecidableEq Task] {server next : WriteServer Task}
  {event : WriteEvent Task}

theorem forall_setTask (holds : WritePhase → Prop) (before : ∀ task, holds (server.tasks task))
    {task : Task} {phase : WritePhase} (here : holds phase) :
    ∀ other, holds ((server.setTask task phase).tasks other) := by
  intro other
  dsimp only [setTask]
  rw [Function.update_apply]
  split
  · exact here
  · exact before other

theorem mem_of_mem_entriesAfter {engine : Engine} {sequence : Nat} {entry : WalEntry}
    (member : entry ∈ engine.entriesAfter sequence) : entry ∈ engine.walEntries :=
  (List.mem_filter.mp member).1

section Standalone

/-- A task publishes a position that is not below the commit point, and no snapshot prunes the
log. -/
def InOrder (server : WriteServer Task) : WriteEvent Task → Prop
  | .execute _ work => work.snapshots = false
  | .publish task =>
    match server.tasks task with
    | .executed (some applied) _ =>
      server.replication.commitSequence ≤ applied.lastAppliedSequence
    | _ => True
  | _ => True

instance (server : WriteServer Task) (event : WriteEvent Task) :
    Decidable (server.InOrder event) := by
  unfold InOrder
  split
  · infer_instance
  · split <;> infer_instance
  · infer_instance

structure Unopposed (server : WriteServer Task) : Prop where
  role : server.replication.role = .standalone
  reports : server.reports = []
  tasks : ∀ task, (server.tasks task).Unopposed server.engine.walEntries
    server.replication.commitSequence
  answered : ∀ entry ∈ server.answered, entry ∈ server.engine.walEntries

theorem unopposed_assign {engine : Engine} {visible commit : Nat} {tasks : Task → WritePhase}
    (before : ∀ task, (tasks task).Unopposed engine.walEntries commit)
    (outcomes : List (Task × Except ServerError ExecuteResult)) (task : Task) :
    (assign engine visible tasks outcomes task).Unopposed engine.walEntries commit := by
  induction outcomes generalizing visible tasks with
  | nil => exact before task
  | cons outcome rest ih =>
    obtain ⟨owner, err | result⟩ := outcome
    · exact ih before
    · refine ih fun other => ?_
      rw [Function.update_apply]
      split
      · exact fun entry member => mem_of_mem_entriesAfter (List.mem_filter.mp member).1
      · exact before other

namespace Unopposed

variable (unopposed : server.Unopposed)
include unopposed

section Extended

variable {engine : Engine} (extended : server.engine.Extended engine)
include extended
omit [DecidableEq Task]

theorem extend {tasks : Task → WritePhase} {lock : Option Task}
    (phases : ∀ task, (tasks task).Unopposed engine.walEntries server.replication.commitSequence) :
    Unopposed { server with engine := engine, tasks := tasks, lock := lock } :=
  ⟨unopposed.role, unopposed.reports, phases,
    fun entry member => extended.mem (unopposed.answered entry member)⟩

theorem phases (task : Task) :
    (server.tasks task).Unopposed engine.walEntries server.replication.commitSequence :=
  (unopposed.tasks task).mono (fun _ member => extended.mem member) le_rfl

end Extended

theorem turn (task : Task) (phase : WritePhase)
    (here : phase.Unopposed server.engine.walEntries server.replication.commitSequence)
    (lock : Option Task) : Unopposed { server.setTask task phase with lock := lock } :=
  ⟨unopposed.role, unopposed.reports,
    forall_setTask (fun phase => phase.Unopposed _ _) unopposed.tasks here,
    unopposed.answered⟩

theorem publish {task : Task} {applied : LogAppendResult} {own : List WalEntry}
    (was : server.tasks task = .executed (some applied) own)
    (inOrder : server.replication.commitSequence ≤ applied.lastAppliedSequence) :
    Unopposed { server.setTask task (.published applied.lastAppliedSequence own) with
      replication := server.replication.publish server.config applied } := by
  have commit := ReplicationState.commitSequence_publish_standalone server.config _ unopposed.role
    applied
  have executed := unopposed.tasks task
  rw [was] at executed
  refine ⟨(ReplicationState.sameStanding_publish _ _ _).role.trans unopposed.role,
    unopposed.reports, ?_, unopposed.answered⟩
  dsimp only
  rw [commit]
  exact forall_setTask (fun phase => phase.Unopposed _ _)
    (fun other => (unopposed.tasks other).mono (fun _ member => member) inOrder)
    ⟨executed, le_rfl⟩

/-- Tasks that publish in order refuse no write. -/
theorem step [Codec] (inOrder : server.InOrder event)
    (taken : server.step event = some next) : next.Unopposed := by
  have phase := unopposed.tasks
  cases moves_of_step taken with
  | failed ran =>
    have extended := WriteWork.run_extended server.engine server.replication.currentTerm inOrder
    rw [ran] at extended
    exact unopposed.extend extended (unopposed.phases extended)
  | executed ran =>
    have extended := WriteWork.run_extended server.engine server.replication.currentTerm inOrder
    rw [ran] at extended
    exact unopposed.extend extended (forall_setTask (fun phase => phase.Unopposed _ _)
      (unopposed.phases extended) fun _ => mem_of_mem_entriesAfter)
  | @queued nowMs term requests commands standalone =>
    have extended := Engine.executeCommandBatch_extended (server.engine.setConsensusTerm term) nowMs
      commands
    rw [← Engine.processWriteBatch_engine] at extended
    exact unopposed.extend extended (unopposed_assign (unopposed.phases extended) _)
  | swept => exact ⟨unopposed.role, unopposed.reports, phase, unopposed.answered⟩
  | @observed task own was =>
    have executed := phase task
    rw [was] at executed
    exact unopposed.turn task (.executed (some server.engine.lastAppliedState) own) executed
      server.lock
  | @published task applied own was =>
    simp only [InOrder, was] at inOrder
    exact unopposed.publish was inOrder
  | waits => exact unopposed
  | @committed task expired sequence own was driven =>
    have published := phase task
    rw [was] at published
    exact unopposed.turn task (.committed sequence own) published server.lock
  | @refused task expired sequence own err was driven =>
    have published := phase task
    rw [was] at published
    simp [ReplicationState.driveRound, published.2] at driven
  | @retreats task was | @short task _ was | @long task _ was | @uncut task _ _ was
  | @cut task _ _ _ _ was _ | @withdrawn task _ was =>
    have impossible := phase task
    rw [was] at impossible
    exact impossible.elim
  | @answered task sequence own readIndex answered was told =>
    have committed := phase task
    rw [was] at committed
    have released := unopposed.turn task .idle trivial
      (if server.lock = some task then none else server.lock)
    refine ⟨released.role, released.reports, released.tasks, ?_⟩
    rcases told with rfl | rfl
    · exact unopposed.answered
    · exact List.forall_mem_append.mpr ⟨committed.1, unopposed.answered⟩
  | measured leads =>
    rw [unopposed.role] at leads
    cases leads
  | reported found =>
    rw [unopposed.reports] at found
    cases found
  | acknowledged =>
    simp only [ReplicationState.registerFollowerAck, unopposed.role]
    exact ⟨unopposed.role, unopposed.reports, phase, unopposed.answered⟩
  | replied =>
    simp only [ReplicationState.recordAppendResult, unopposed.role]
    exact ⟨unopposed.role, unopposed.reports, phase, unopposed.answered⟩

end Unopposed

/-- **A standalone node keeps the entries of every answered write** in its log, as long as the
tasks publish in the order of their positions. -/
theorem standalone_keeps_answered [Codec] {start final : WriteServer Task}
    {events : List (WriteEvent Task)}
    (quiet : start.Quiet) (standalone : start.replication.role = .standalone)
    (inOrder : Meets WriteServer.step InOrder start events)
    (reached : run WriteServer.step start events = some final) :
    ∀ entry ∈ final.answered, entry ∈ final.engine.walEntries := by
  have initially : start.Unopposed := by
    refine ⟨standalone, quiet.reports, fun task => ?_, ?_⟩
    · rw [quiet.tasks task]
      trivial
    · rw [quiet.answered]
      exact fun _ member => absurd member List.not_mem_nil
  exact (invariant_of_meets (fun _ _ _ unopposed inOrder taken => unopposed.step inOrder taken)
    initially inOrder reached).answered

section Runs

open Sample

def standaloneServer : WriteServer (Fin 3) :=
  let config : ReplicationConfig := ⟨"a", none, .standalone, .replica, 4, []⟩
  ⟨config, .new config none, .create ⟨0, 0⟩ 0, .new, fun _ => .idle, none, [], []⟩

def setKey (task : Fin 3) (key : String) : WriteEvent (Fin 3) :=
  .execute task (.command (.still 0) (.set key [49] {}))

theorem quiet_standaloneServer : standaloneServer.Quiet := ⟨fun _ => rfl, rfl, rfl, rfl⟩

def thirdWrite : WalEntry := ⟨3, 0, 0, [.set "c" [49] 1]⟩

def thirdAnswered : List (WriteEvent (Fin 3)) :=
  [setKey 0 "a", setKey 1 "b", setKey 2 "c", .publish 1, .publish 2, .drive 2 false, .advance 2]

theorem standalone_keeps_answered_third :
    ∃ final ∈ run WriteServer.step standaloneServer thirdAnswered,
      thirdWrite ∈ final.answered ∧ thirdWrite ∈ final.engine.walEntries := by
  have ends : ∃ final ∈ run WriteServer.step standaloneServer thirdAnswered,
      thirdWrite ∈ final.answered := by decide +kernel
  obtain ⟨final, reached, told⟩ := ends
  exact ⟨final, reached, told, standalone_keeps_answered quiet_standaloneServer rfl
    (by decide +kernel) reached thirdWrite told⟩

/-- **A write that was answered is cut off again.** The first client publishes last, so that the
commit point falls back, and the second is refused and rolls back to it. -/
theorem standalone_loses_answered :
    ∃ earlier ∈ run WriteServer.step standaloneServer thirdAnswered,
      thirdWrite ∈ earlier.answered ∧ thirdWrite ∈ earlier.engine.walEntries ∧
      ∃ final ∈ run WriteServer.step earlier [.publish 0, .drive 1 false, .rollback 1,
          .rollbackMeasure 1, .rollbackCut 1 0],
        thirdWrite ∉ final.engine.walEntries := by
  decide +kernel

end Runs

end Standalone

section Leader

/-- A rollback cuts off no write that waits for its answer, and no snapshot prunes the log. -/
def Spares (server : WriteServer Task) : WriteEvent Task → Prop
  | .execute _ work => work.snapshots = false
  | .rollbackCut task _ =>
    match server.tasks task with
    | .cutting commit =>
      ∀ other, ∀ entry ∈ (server.tasks other).own, entry.sequence ≤ commit
    | _ => True
  | _ => True

instance [Fintype Task] (server : WriteServer Task) (event : WriteEvent Task) :
    Decidable (server.Spares event) := by
  unfold Spares
  split
  · infer_instance
  · split <;> infer_instance
  · infer_instance

structure Covered (server : WriteServer Task) : Prop where
  role : server.replication.role = .leader
  mode : server.config.writeAckMode ≠ .local
  consecutive : server.engine.Consecutive
  tasks : ∀ task, (server.tasks task).Covered server.engine.walEntries
    server.replication.commitSequence

namespace Covered

variable (covered : server.Covered)
include covered

theorem turn (task : Task) (phase : WritePhase)
    (here : phase.Covered server.engine.walEntries server.replication.commitSequence)
    (lock : Option Task) : Covered { server.setTask task phase with lock := lock } :=
  ⟨covered.role, covered.mode, covered.consecutive,
    forall_setTask (fun phase => phase.Covered _ _) covered.tasks here⟩

section Undecided

omit [DecidableEq Task]

variable {engine : Engine}

theorem extend {tasks : Task → WritePhase} {lock : Option Task}
    (extended : server.engine.Extended engine)
    (phases : ∀ task, (tasks task).Covered engine.walEntries server.replication.commitSequence) :
    Covered { server with engine := engine, tasks := tasks, lock := lock } :=
  ⟨covered.role, covered.mode, extended.consecutive covered.consecutive, phases⟩

theorem phases (extended : server.engine.Extended engine) (task : Task) :
    (server.tasks task).Covered engine.walEntries server.replication.commitSequence :=
  (covered.tasks task).mono (fun _ _ member => extended.mem member) le_rfl

theorem record {replication : ReplicationState}
    (standing : server.replication.SameStanding replication)
    (steady : server.replication.Steady replication) :
    Covered { server with replication := replication } :=
  ⟨standing.role.trans covered.role, covered.mode, covered.consecutive,
    fun task => (covered.tasks task).mono (fun _ _ member => member) steady.commit⟩

theorem publish (applied : LogAppendResult) :
    Covered { server with replication := server.replication.publish server.config applied } :=
  covered.record (ReplicationState.sameStanding_publish _ _ _)
    (ReplicationState.steady_publish _ _ (by simp [covered.role]) _)

theorem executed [Codec] {work : WriteWork} {applied : Option LogAppendResult}
    (plain : work.snapshots = false)
    (ran : work.run server.engine server.replication.currentTerm = (engine, .ok applied)) :
    (WritePhase.executed applied (engine.entriesAfter server.engine.lastAppliedSequence)).Covered
      engine.walEntries server.replication.commitSequence := by
  cases applied with
  | none => exact fun _ => mem_of_mem_entriesAfter
  | some applied =>
    have extended := WriteWork.run_extended server.engine server.replication.currentTerm plain
    have reported := WriteWork.position_le_reported server.engine server.replication.currentTerm
      (congrArg Prod.snd ran)
    rw [ran] at extended reported
    intro entry member
    have inside := mem_of_mem_entriesAfter member
    exact ⟨inside,
      ((extended.consecutive covered.consecutive).sequence_le inside).trans reported⟩

end Undecided

/-- A step that spares others keeps their entries. -/
theorem step [Codec] (spares : server.Spares event)
    (taken : server.step event = some next) : next.Covered := by
  have phase := covered.tasks
  have clustered : server.replication.role ≠ .standalone := by simp [covered.role]
  cases moves_of_step taken with
  | failed ran =>
    have extended := WriteWork.run_extended server.engine server.replication.currentTerm spares
    rw [ran] at extended
    exact covered.extend extended (covered.phases extended)
  | executed ran =>
    have extended := WriteWork.run_extended server.engine server.replication.currentTerm spares
    rw [ran] at extended
    exact covered.extend extended (forall_setTask (fun phase => phase.Covered _ _)
      (covered.phases extended) (covered.executed spares ran))
  | @queued nowMs term requests commands standalone => exact absurd standalone clustered
  | @swept nowMs =>
    have extended := server.engine.sweepExpired_extended nowMs
    exact covered.extend extended (covered.phases extended)
  | @observed task own was =>
    have executed := phase task
    rw [was] at executed
    exact covered.turn task (.executed (some server.engine.lastAppliedState) own)
      (fun entry member => ⟨executed entry member,
        covered.consecutive.sequence_le (executed entry member)⟩) server.lock
  | @published task applied own was =>
    have executed := phase task
    rw [was] at executed
    exact (covered.publish applied).turn task (.published applied.lastAppliedSequence own) executed
      server.lock
  | waits => exact covered
  | @committed task expired sequence own was driven =>
    have published := phase task
    rw [was] at published
    have reached : sequence ≤ server.replication.commitSequence := by
      by_contra above
      simp only [ReplicationState.driveRound, covered.mode, above, if_false] at driven
      split at driven <;> first | cases driven | skip
      split at driven <;> cases driven
    exact covered.turn task (.committed sequence own)
      (fun entry member => (published entry member).imp_right fun below => below.trans reached)
      server.lock
  | @refused task expired sequence own err was driven =>
    exact covered.turn task .refused trivial server.lock
  | @retreats task was =>
    exact covered.turn task (.retreating _) trivial server.lock
  | @short task _ was => exact covered.turn task .idle trivial _
  | @long task commit was => exact covered.turn task (.cutting commit) trivial server.lock
  | @uncut task _ _ was => exact covered.turn task .idle trivial _
  | @cut task nowMs commit applied engine was replaced =>
    simp only [Spares, was] at spares
    obtain ⟨replacement, suffix, -⟩ :=
      Engine.suffixReplaced_of_ok covered.consecutive replaced
    refine ⟨covered.role, covered.mode, suffix.logged.numbered,
      forall_setTask (fun phase => phase.Covered _ _) (fun other => ?_) trivial⟩
    refine (phase other).mono (fun entry member inside => ?_) le_rfl
    rw [suffix.log]
    exact List.mem_append_left _ (List.mem_filter.mpr
      ⟨inside, decide_eq_true (spares other entry member)⟩)
  | @withdrawn task applied was =>
    exact (covered.publish (server.engine.appliedStateForSequence applied)).turn task .idle
      trivial _
  | @answered task sequence own readIndex answered was told =>
    have released := covered.turn task .idle trivial
      (if server.lock = some task then none else server.lock)
    exact ⟨released.role, released.mode, released.consecutive, released.tasks⟩
  | measured leads => exact ⟨covered.role, covered.mode, covered.consecutive, phase⟩
  | @reported report found =>
    have published := covered.publish report
    exact ⟨published.role, published.mode, published.consecutive, published.tasks⟩
  | acknowledged =>
    exact covered.record (ReplicationState.recounts_registerFollowerAck _ _ _ _ _ _).sameStanding
      (ReplicationState.recounts_registerFollowerAck _ _ _ _ _ _).steady
  | replied =>
    exact covered.record (ReplicationState.recounts_recordAppendResult _ _ _ _ _ _ _).sameStanding
      (ReplicationState.recounts_recordAppendResult _ _ _ _ _ _ _).steady

end Covered

/-- **A write that a leader answers with success has its own entries in the log, committed**, as
long as no rollback cuts off the entry of another write that is under way. -/
theorem leader_answers_own [Codec] {start server : WriteServer Task}
    {events : List (WriteEvent Task)} (quiet : start.Quiet)
    (leads : start.replication.role = .leader) (mode : start.config.writeAckMode ≠ .local)
    (consecutive : start.engine.Consecutive)
    (spares : Meets WriteServer.step Spares start events)
    (reached : run WriteServer.step start events = some server) {task : Task}
    {own : List WalEntry} (answered : server.answers task = some own) :
    ∀ entry ∈ own, entry ∈ server.engine.walEntries ∧
      entry.sequence ≤ server.replication.commitSequence := by
  have initially : start.Covered := by
    refine ⟨leads, mode, consecutive, fun task => ?_⟩
    rw [quiet.tasks task]
    trivial
  have covered := invariant_of_meets
    (fun _ _ _ covered spares taken => Covered.step covered spares taken) initially spares reached
  have phase := covered.tasks task
  unfold answers at answered
  split at answered
  · rename_i sequence entries was
    rw [was] at phase
    split at answered
    · cases answered
    · cases answered
      exact phase
  · cases answered

section Runs

open Sample

def leaderServer : WriteServer (Fin 3) :=
  let config : ReplicationConfig :=
    ⟨"a", some "a", .follower, .replica, 4, [⟨"a", "a", true⟩, ⟨"b", "b", true⟩, ⟨"c", "c", true⟩]⟩
  let candidate := ((ReplicationState.new config none).beginElection config).state
  ⟨config, (candidate.finalizeElection config 1 2 3).state, .create ⟨0, 0⟩ 0, .new,
    fun _ => .idle, none, [], []⟩

theorem quiet_leaderServer : leaderServer.Quiet := ⟨fun _ => rfl, rfl, rfl, rfl⟩

def refuseWrite (task : Fin 3) : List (WriteEvent (Fin 3)) :=
  [.execute task (.coordinated 0 [.set "x" [49] {}]), .publish task, .drive task true,
    .rollback task, .rollbackMeasure task, .rollbackCut task 0, .rollbackPublish task]

def acknowledgeWrite (task : Fin 3) : List (WriteEvent (Fin 3)) :=
  [.execute task (.coordinated 0 [.set "y" [50] {}]), .publish task, .ack "b" 1]

theorem leader_answers_own_write :
    ∃ server ∈ run WriteServer.step leaderServer
        (refuseWrite 0 ++ acknowledgeWrite 1 ++ [.drive 1 false]),
      ∃ own ∈ server.answers 1, own = [⟨1, 1, 0, [.set "y" [50] 1]⟩] ∧
        ∀ entry ∈ own, entry ∈ server.engine.walEntries ∧
          entry.sequence ≤ server.replication.commitSequence := by
  have ends : ∃ server ∈ run WriteServer.step leaderServer
      (refuseWrite 0 ++ acknowledgeWrite 1 ++ [.drive 1 false]),
      ∃ own ∈ server.answers 1, own = [⟨1, 1, 0, [.set "y" [50] 1]⟩] := by decide +kernel
  obtain ⟨server, reached, own, answered, same⟩ := ends
  exact ⟨server, reached, own, answered, same, leader_answers_own quiet_leaderServer
    (by decide +kernel) (by decide) ⟨1, Nat.one_pos, trivial, rfl⟩ (by decide +kernel) reached
    answered⟩

/-- **A `RESTORE FROM` is answered with success although its entry is gone.** Another write is
rolled back, and a third takes its position and commits there. -/
theorem restore_answered_without_entry :
    ∃ server ∈ run WriteServer.step leaderServer
        ([.execute 2 (.restoreFrom (.still 0) emptyDump), .publish 2] ++ refuseWrite 0 ++
          acknowledgeWrite 1 ++ [.drive 2 false]),
      ∃ own ∈ server.answers 2, ∃ entry ∈ own, entry = ⟨1, 1, 0, [.clear]⟩ ∧
        entry ∉ server.engine.walEntries := by
  decide +kernel

end Runs

end Leader

end WriteServer

end Vaylix
