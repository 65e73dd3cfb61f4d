import Mathlib.Data.Prod.Lex
import Vaylix.Engine.IntactLog
import Vaylix.Server.Publication
import Vaylix.Server.PullRound

/-!
# Votes and what a voter has applied

A voter looks the term of its last entry up in its log, which a snapshot may have emptied; the
term is then taken to be zero. As long as the log has the last entry, and the position that
was published is the engine's, the candidate is compared with the real one.
-/

namespace Vaylix

open LabelledRun NumberedLog

/-- Entries from elsewhere replace the end of the log, are applied, or are dropped. -/
inductive Engine.Receives [Codec] (engine : Engine) : Engine → Prop
  | same : Receives engine engine
  | replaced {next : Engine} {nowMs sequence applied : Nat} {entries : List WalEntry}
      (done : engine.replaceReplicationSuffix nowMs sequence entries = .ok (next, applied)) :
      Receives engine next
  | applied {next : Engine} {applied : Nat} {entries : List WalEntry}
      (done : engine.applyReplicationEntries entries = .ok (next, applied)) :
      Receives engine next

namespace Engine

variable [Codec] {engine next : Engine}

theorem receives_acceptEntries {nowMs sequence applied : Nat} {entries : List WalEntry}
    (done : engine.acceptEntries nowMs sequence entries = .ok (next, applied)) :
    engine.Receives next := by
  unfold acceptEntries at done
  split at done
  · split at done
    · exact .replaced done
    · cases done
      exact .same
  split at done
  · exact .replaced done
  split at done
  · split at done
    · exact .replaced done
    · cases done
      exact .same
  · split at done
    · exact .replaced done
    · exact .applied done

theorem Intact.receives (kept : engine.Intact) (receives : engine.Receives next) :
    next.Intact := by
  cases receives with
  | same => exact kept
  | replaced done => exact kept.replaced done
  | applied done => exact kept.applied done

end Engine

inductive ServingNode.Calls [Codec] (state : ServingNode) : ServingEvent → Engine → Prop
  | executed (action : EngineAction) : Calls state (.execute action)
      (action.perform (state.node.engine.setConsensusTerm state.node.replication.currentTerm))
  | received {event : ServingEvent} {next : Engine} (receives : state.node.engine.Receives next) :
      Calls state event next
  | installed {nowMs : Nat} {request : SnapshotInstallRequest} {next : Engine}
      (done : state.node.engine.applyReplicationSnapshot nowMs request.snapshot = .ok next) :
      Calls state (.install nowMs request) next
  | restarted {nowMs : Nat} {next : Engine} (opened : Engine.fromPathsWithOptions
      state.node.engine.disk state.node.engine.options nowMs = .ok next) :
      Calls state (.restart nowMs) next

theorem ServingNode.calls_step [Codec] {state next : ServingNode} {event : ServingEvent}
    (taken : state.step event = some next) : state.Calls event next.node.engine := by
  cases event with
  | execute action =>
    cases taken
    exact .executed action
  | note _ | publish _ =>
    simp only [step] at taken
    split at taken <;> cases taken
    exact .received .same
  | cut nowMs =>
    simp only [step] at taken
    split at taken
    · cases taken
    split at taken <;> cases taken
    rename_i done
    exact .received (.replaced done)
  | append nowMs request =>
    cases taken
    refine .received ?_
    have noted : state.node.engine.Receives ((state.node.after
        (state.node.replication.handleHeartbeat request.heartbeat)).noteFrontier
          request).engine := by
      rw [Node.noteFrontier_engine]
      exact .same
    change state.node.engine.Receives (state.node.takeEntries nowMs request).1.engine
    unfold Node.takeEntries
    dsimp only
    split
    · exact .same
    split
    · exact .same
    split
    · exact noted
    split
    · exact noted
    split
    · exact noted
    · rename_i done
      exact Engine.receives_acceptEntries done
  | install nowMs request =>
    cases taken
    change state.Calls _ (state.node.takeSnapshot nowMs request).1.engine
    unfold Node.takeSnapshot
    split
    · exact .received .same
    split
    · exact .received .same
    · rename_i done
      exact .installed done
  | pull status entries =>
    obtain ⟨⟨fetched, applied⟩, done, rfl⟩ := Option.map_eq_some_iff.mp taken
    unfold Node.applyFetched at done
    dsimp only at done
    split at done
    · cases done
    split at done
    · cases done
      exact .received .same
    split at done
    · cases done
    split at done <;> cases done
    rename_i applies
    exact .received (.applied applies)
  | call call =>
    cases taken
    cases call <;> exact .received .same
  | restart nowMs =>
    obtain ⟨node, restarted, rfl⟩ := Option.map_eq_some_iff.mp taken
    unfold Node.restart at restarted
    split at restarted <;> cases restarted
    rename_i opened
    exact .restarted opened

theorem ReplicationState.upToDate_of_granted {config : ReplicationConfig} {state : ReplicationState}
    {heard : Bool} {request : VoteRequest} (real : request.prevote = false)
    (granted : (state.handleVoteRequest config heard request).answer.voteGranted = true) :
    state.upToDate request = true := by
  unfold handleVoteRequest at granted
  dsimp only at granted
  rw [real] at granted
  split at granted
  · cases granted
  split at granted
  · cases granted
  rw [if_neg Bool.false_ne_true] at granted
  split at granted
  · cases granted
  split at granted
  · cases granted
  · rename_i recent
    simpa using recent

/-- A server, and the entries that its state is made of. -/
structure Voter where
  serving : ServingNode
  history : List WalEntry

namespace Voter

variable [Codec]

def start (config : ReplicationConfig) (persisted : Option PersistedReplicationState)
    (options : EngineOptions) (startMs : Nat) : Voter :=
  ⟨.start config persisted (.create options startMs), []⟩

/-- A state that is installed is made of the entries that its sender has applied. -/
def sources (voter : Voter) (sent : List WalEntry) : ServingEvent → Option (List WalEntry)
  | .install nowMs request =>
    if request.snapshot.state.metadata.lastAppliedSequence ≠ sent.length ∨
        ¬ From WalEntry.sequence 1 sent then none
    else if (voter.serving.node.takeSnapshot nowMs request).2.isSome then some sent
    else some voter.history
  | _ => some voter.history

def step (voter : Voter) (event : ServingEvent × List WalEntry) : Option Voter :=
  (voter.sources event.2 event.1).bind fun history =>
    (voter.serving.step event.1).map fun serving =>
      ⟨serving, history.take serving.node.engine.compactedSequence ++
        serving.node.engine.walEntries⟩

/-- The term and the number of the last entry that was applied. -/
def lastEntry (voter : Voter) : Lex (Nat × Nat) :=
  toLex ((voter.history.getLast?.map WalEntry.term).getD 0,
    voter.serving.node.engine.lastAppliedSequence)

/-- No call fails in the middle of a write; only a log that can be read is pruned. -/
def Completes (voter : Voter) : ServingEvent × List WalEntry → Prop
  | (.execute action, _) =>
    let engine := voter.serving.node.engine.setConsensusTerm
      voter.serving.node.replication.currentTerm
    if action.snapshots then WalDir.Readable engine.walEntries
    else action.succeeds engine = true ∨ engine.Untouched (action.perform engine)
  | _ => True

/-- The log has the last entry, if there is one, and its position is published. -/
def Ready (voter : Voter) : Prop :=
  let node := voter.serving.node
  (node.engine.walEntries = [] → node.engine.lastAppliedSequence = 0) ∧
    node.replication.localLastAppliedSequence = node.engine.lastAppliedSequence ∧
    node.replication.localLastAppliedTerm =
      node.engine.walEntryTerm node.engine.lastAppliedSequence

instance (voter : Voter) : Decidable voter.Ready := by
  unfold Ready
  infer_instance

/-- What a run keeps: the log is kept, and it is the end of the history. -/
structure Traced (voter : Voter) : Prop where
  kept : voter.serving.node.engine.Intact
  history : ∃ older : List WalEntry, voter.history =
    older.take voter.serving.node.engine.compactedSequence ++ voter.serving.node.engine.walEntries

variable {event : ServingEvent × List WalEntry}

/-- **Every call keeps the log in order.** -/
theorem kept_step {serving next : ServingNode} {history : List WalEntry}
    (kept : serving.node.engine.Intact) (completes : Completes ⟨serving, history⟩ event)
    (taken : serving.step event.1 = some next) :
    next.node.engine.Intact := by
  obtain ⟨event, sent⟩ := event
  have calls := ServingNode.calls_step taken
  generalize next.node.engine = engine at calls
  cases calls with
  | executed action =>
    have called : (serving.node.engine.setConsensusTerm
        serving.node.replication.currentTerm).Intact :=
      kept.untouched ⟨⟨rfl, rfl⟩, rfl, rfl, rfl⟩
    exact called.perform completes
  | received receives => exact kept.receives receives
  | installed done => exact Engine.Intact.installed done
  | restarted opened => exact kept.reopen opened

/-- A call keeps the log the end of the history. -/
theorem traced_step {voter next : Voter} (traced : voter.Traced) (completes : voter.Completes event)
    (taken : voter.step event = some next) : next.Traced := by
  obtain ⟨older, -, moved⟩ := Option.bind_eq_some_iff.mp taken
  obtain ⟨serving, called, rfl⟩ := Option.map_eq_some_iff.mp moved
  exact ⟨kept_step traced.kept completes called, older, rfl⟩

theorem Traced.lastEntry_eq {voter : Voter} (traced : voter.Traced) (ready : voter.Ready) :
    voter.lastEntry = toLex (voter.serving.node.replication.localLastAppliedTerm.getD 0,
      voter.serving.node.replication.localLastAppliedSequence) := by
  obtain ⟨empty, sequence, term⟩ := ready
  obtain ⟨older, history⟩ := traced.history
  rw [lastEntry, sequence, term, history]
  cases last : voter.serving.node.engine.walEntries.getLast? with
  | none =>
    have none := List.getLast?_eq_none_iff.mp last
    have zero := empty none
    rw [none, List.append_nil, Engine.compactedSequence, zero, Nat.zero_sub, List.take_zero,
      Engine.walEntryTerm, if_pos rfl]
    rfl
  | some entry =>
    rw [List.getLast?_append, last, traced.kept.lastTerm last]
    rfl

/-- **Votes are sound**: a voter whose log has its last entry, and whose position is published,
votes only for a candidate that reports the same entry or a later one. -/
theorem granted_votes_sound (config : ReplicationConfig)
    (persisted : Option PersistedReplicationState) (options : EngineOptions) (startMs : Nat)
    (events : List (ServingEvent × List WalEntry)) (voter : Voter)
    (completes : Meets step Completes (start config persisted options startMs) events)
    (reached : run step (start config persisted options startMs) events = some voter)
    (ready : voter.Ready) (heard : Bool) (request : VoteRequest) (real : request.prevote = false)
    (granted : (voter.serving.node.replication.handleVoteRequest voter.serving.node.config heard
      request).answer.voteGranted = true) :
    voter.lastEntry ≤ toLex (request.lastLogTerm.getD 0, request.lastLogIndex) := by
  have initially : (start config persisted options startMs).Traced :=
    ⟨.create options startMs, [], rfl⟩
  have traced := invariant_of_meets
    (fun _ _ _ traced completes taken => traced_step traced completes taken) initially completes
    reached
  have recent := ReplicationState.upToDate_of_granted real granted
  rw [traced.lastEntry_eq ready, Prod.Lex.toLex_le_toLex]
  simp only [ReplicationState.upToDate, decide_eq_true_eq] at recent
  exact recent.imp id fun same => ⟨same.1.symm, same.2⟩

end Voter

section Samples

open Sample Voter

def fifthTermLeader : Engine :=
  EngineAction.perform ((Engine.create ⟨0, 0⟩ 0).setConsensusTerm 5)
    (.direct (.still 0) (.set "x" [49] {}))

def installEvents : List (ServingEvent × List WalEntry) :=
  [(.install 0 ⟨5, "a", "a:1", 1, twoVoters, fifthTermLeader.replicationSnapshot⟩,
      fifthTermLeader.walEntries),
    (.publish ⟨1, none, none⟩, [])]

def firstTermRequest : VoteRequest := ⟨6, "a", "a:1", 1, some 1, false⟩

/-- The follower has forgotten that its entry is of term 5. -/
theorem installed_voter_forgets_term :
    ((run step (start secondVoter none ⟨0, 0⟩ 0) installEvents).map fun voter =>
      ((voter.serving.node.replication.handleVoteRequest voter.serving.node.config false
        firstTermRequest).answer.voteGranted, ofLex voter.lastEntry)) = some (true, 5, 1) ∧
      ¬ toLex (5, 1) ≤
        toLex (firstTermRequest.lastLogTerm.getD 0, firstTermRequest.lastLogIndex) := by
  decide +kernel

def appendEvents : List (ServingEvent × List WalEntry) :=
  [(.append 0 (batchOf 1 0 threeEntries), []),
    (.publish (positionOf ⟨3, 1, 0, [.set "z" [51] 1]⟩), [])]

theorem granted_votes_sound_appended :
    ∃ voter, run step (start secondVoter none ⟨0, 0⟩ 0) appendEvents = some voter ∧
      ofLex voter.lastEntry = (1, 3) ∧ voter.lastEntry ≤ toLex (1, 3) := by
  obtain ⟨voter, reached, granted, ready, last⟩ :
      ∃ voter ∈ run step (start secondVoter none ⟨0, 0⟩ 0) appendEvents,
        (voter.serving.node.replication.handleVoteRequest voter.serving.node.config false
          ⟨2, "a", "a:1", 3, some 1, false⟩).answer.voteGranted = true ∧ voter.Ready ∧
        ofLex voter.lastEntry = (1, 3) := by
    decide +kernel
  have completes : Meets step Completes (start secondVoter none ⟨0, 0⟩ 0) appendEvents :=
    ⟨trivial, fun _ _ => ⟨trivial, fun _ _ => trivial⟩⟩
  exact ⟨voter, reached, last, granted_votes_sound secondVoter none ⟨0, 0⟩ 0 appendEvents voter
    completes reached ready false ⟨2, "a", "a:1", 3, some 1, false⟩ rfl granted⟩

end Samples

end Vaylix
