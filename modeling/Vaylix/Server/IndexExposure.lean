import Vaylix.Engine.Appending
import Vaylix.Lib.Run
import Vaylix.Server.Steady
import Vaylix.Server.WriteTasks

/-!
# What the read index exposes

The tasks of one node interleave; a round of `advance_read_index_to` reads a batch of the log
in one step and applies it to the index in another.

A batch is not capped at the commit point, a follower's log is cut without a look at the
index, a rollback cuts at a commit point that it has read before, and a restart indexes the
whole log. Where none of this happens, the index shows committed entries only.
-/

namespace Vaylix

open LabelledRun NumberedLog ReplicationState

def CommittedReadIndex.touched (index : CommittedReadIndex) : List WalEntry → List WalEntry
  | [] => []
  | entry :: rest =>
    if entry.sequence ≤ index.committedSequence then index.touched rest
    else
      match index.entries.applyOperations entry.operations with
      | (_, some _) => [entry]
      | (entries, none) => entry :: CommittedReadIndex.touched ⟨entries, entry.sequence⟩ rest

theorem CommittedReadIndex.mem_of_mem_touched {index : CommittedReadIndex} {batch : List WalEntry}
    {entry : WalEntry} (member : entry ∈ index.touched batch) :
    entry ∈ batch ∧ index.committedSequence < entry.sequence := by
  induction batch generalizing index with
  | nil => cases member
  | cons first rest ih =>
    unfold touched at member
    split at member
    · exact (ih member).imp_left (List.mem_cons_of_mem first)
    · rename_i newer
      split at member
      · obtain rfl := List.mem_singleton.mp member
        exact ⟨List.mem_cons_self, Nat.not_le.mp newer⟩
      · rcases List.mem_cons.mp member with rfl | later
        · exact ⟨List.mem_cons_self, Nat.not_le.mp newer⟩
        · obtain ⟨among, after⟩ := ih later
          exact ⟨List.mem_cons_of_mem first among, (Nat.not_le.mp newer).trans after⟩

/-- A node with the batches its tasks have read and not applied yet, and the rollbacks under way.
`shown` are the entries that have had an effect on the index. -/
structure IndexedNode where
  node : Node
  batches : List (List WalEntry)
  rollbacks : List WritePhase
  shown : List WalEntry

/-- One step of one of the tasks of a node. The last stage of a rollback is a publication. -/
inductive NodeEvent where
  | execute (action : EngineAction)
  | publish (applied : LogAppendResult)
  | reply (follower : NodeId) (term : Nat) (response : AppendEntriesResponse)
  | ack (follower : NodeId) (appliedSequence term : Nat) (leader : NodeId)
  | message (message : LeaderMessage)
  | pull (report : LeaderStatus) (entries : List WalEntry)
  | beginElection
  | finalizeElection (term votesGranted members : Nat)
  | observeRemoteTerm (term : Nat)
  | vote (heard : Bool) (request : VoteRequest)
  | rollback
  | rollbackMeasure (commit : Nat)
  | rollbackCut (commit nowMs : Nat)
  | fetch (targetSequence : Nat)
  | apply (batch : List WalEntry)
  | restart (nowMs : Nat)

instance [Codec] (request : AppendEntriesRequest) (log : List WalEntry) :
    Decidable (request.CarriedFrom log) :=
  decidable_of_iff ((0 < request.prevSequence → request.prevTerm.isSome) ∧
      request.prevSequence ≤ request.baseSequence ∧
      From WalEntry.sequence (request.baseSequence + 1) request.entries ∧
      ∀ entry ∈ request.entries, entry ∈ log)
    ⟨fun ⟨known, begins, numbered, members⟩ => ⟨known, begins, numbered, members⟩,
      fun ⟨known, begins, numbered, members⟩ => ⟨known, begins, numbered, members⟩⟩

/-- The entries of an append are consecutive, as in every request of a leader. -/
def LeaderMessage.consecutive [Codec] : LeaderMessage → Bool
  | .append _ request => decide (request.CarriedFrom request.entries)
  | _ => true

theorem ReplicationState.commitSequence_finalizeElection (config : ReplicationConfig)
    (state : ReplicationState) (term votesGranted members : Nat) :
    (state.finalizeElection config term votesGranted members).state.commitSequence =
      state.commitSequence := by
  unfold finalizeElection
  split
  · rfl
  · split <;> rfl

namespace IndexedNode

variable [Codec]

def setReplication (state : IndexedNode) (replication : ReplicationState) : IndexedNode :=
  { state with node := { state.node with replication := replication } }

/-- A message leaves the index to the rounds that follow it; only members of a cluster get
messages, and an append carries consecutive entries. -/
def step (state : IndexedNode) : NodeEvent → Option IndexedNode
  | .execute action =>
    let engine := state.node.engine.setConsensusTerm state.node.replication.currentTerm
    if action.snapshots ∨ !action.succeeds engine then none
    else some { state with node := { state.node with engine := action.perform engine } }
  | .publish applied =>
    some (state.setReplication (state.node.replication.publish state.node.config applied))
  | .reply follower term response =>
    some { state with node := state.node.handleAppendReply follower term response }
  | .ack follower appliedSequence term leader =>
    some (state.setReplication (state.node.replication.registerFollowerAck state.node.config
      follower appliedSequence term leader))
  | .message message =>
    if state.node.replication.role = .standalone ∨ !message.consecutive then none
    else some { state with
      node := { state.node.receive message with readIndex := state.node.readIndex } }
  | .pull report entries =>
    if state.node.replication.role = .standalone then none
    else (state.node.applyFetched report entries).map fun result =>
      { state with node := result.1 }
  | .beginElection =>
    some { state with
      node := state.node.after (state.node.replication.beginElection state.node.config) }
  | .finalizeElection term votesGranted members =>
    some { state with
      node := state.node.after (state.node.replication.finalizeElection state.node.config term
        votesGranted members) }
  | .observeRemoteTerm term =>
    some { state with node := state.node.after (state.node.replication.observeRemoteTerm term) }
  | .vote heard request =>
    some { state with
      node := state.node.after (state.node.replication.handleVoteRequest state.node.config heard
        request) }
  | .rollback =>
    some { state with
      rollbacks := .retreating state.node.replication.commitSequence :: state.rollbacks }
  | .rollbackMeasure commit =>
    if .retreating commit ∈ state.rollbacks then
      let others := state.rollbacks.erase (.retreating commit)
      if state.node.engine.lastAppliedSequence ≤ commit then
        some { state with rollbacks := others }
      else some { state with rollbacks := .cutting commit :: others }
    else none
  | .rollbackCut commit nowMs =>
    if .cutting commit ∈ state.rollbacks then
      let others := state.rollbacks.erase (.cutting commit)
      match state.node.engine.replaceReplicationSuffix nowMs commit [] with
      | .error _ => some { state with rollbacks := others }
      | .ok (engine, _) =>
        some { state with node := { state.node with engine := engine }, rollbacks := others }
    else none
  | .fetch targetSequence =>
    let index := state.node.readIndex
    if index.committedSequence < targetSequence then
      match state.node.engine.walEntriesSince index.committedSequence
          state.node.config.fetchBatchSize with
      | .error _ => none
      | .ok batch => some { state with batches := batch :: state.batches }
    else none
  | .apply batch =>
    if batch ∈ state.batches then
      some { state with
        node := { state.node with readIndex := (state.node.readIndex.applyEntries batch).1 }
        batches := state.batches.erase batch
        shown := state.shown ++ state.node.readIndex.touched batch }
    else none
  | .restart nowMs =>
    (state.node.restart nowMs).map fun node => ⟨node, [], [], node.engine.walEntries⟩

def initial (config : ReplicationConfig) (options : EngineOptions) (startMs : Nat) :
    IndexedNode where
  node := Node.published
    { config := config
      replication := ReplicationState.new config none
      persisted := none
      engine := Engine.create options startMs
      readIndex := CommittedReadIndex.new }
  batches := []
  rollbacks := []
  shown := []

/-- A step does not discard an entry of the log. -/
def Spares (entry : WalEntry) : NodeEvent → Prop
  | .message (.append _ request) =>
    entry.sequence ≤ request.baseSequence ∨ entry ∈ request.entries
  | .rollbackCut commit _ => entry.sequence ≤ commit
  | _ => True

/-- After a step the log is whole, and has what the step spares. -/
structure LogKept (state : IndexedNode) (event : NodeEvent) (next : IndexedNode) : Prop where
  whole : next.node.engine.Whole
  keeps : ∀ entry ∈ state.node.engine.walEntries, Spares entry event →
    entry ∈ next.node.engine.walEntries

namespace LogKept

variable {state next : IndexedNode}

variable (whole : state.node.engine.Whole)
include whole

theorem of_engine_eq {event : NodeEvent} (engine : next.node.engine = state.node.engine) :
    state.LogKept event next :=
  ⟨engine ▸ whole, fun _ logged _ => engine ▸ logged⟩

theorem execute {action : EngineAction} (taken : state.step (.execute action) = some next) :
    state.LogKept (.execute action) next := by
  simp only [step] at taken
  split at taken
  · cases taken
  rename_i possible
  cases taken
  obtain ⟨plain, succeeded⟩ := not_or.mp possible
  have appended := Engine.Appended.perform
    (state.node.engine.setConsensusTerm state.node.replication.currentTerm)
    (by simpa using plain) (by simpa using succeeded)
  have inTerm : (state.node.engine.setConsensusTerm
      state.node.replication.currentTerm).Whole :=
    ⟨whole.numbered, whole.position, whole.indexed, whole.stored, whole.snapshotless⟩
  refine ⟨inTerm.append appended, ?_⟩
  intro entry logged _
  exact appended.log ▸ List.mem_append_left _ logged

theorem message {message : LeaderMessage} (taken : state.step (.message message) = some next) :
    state.LogKept (.message message) next := by
  simp only [step] at taken
  split at taken
  · cases taken
  rename_i possible
  cases taken
  obtain ⟨clustered, carried⟩ := not_or.mp possible
  cases message with
  | heartbeat request => exact of_engine_eq whole rfl
  | status report => exact of_engine_eq whole rfl
  | append nowMs request =>
    rcases Node.handleAppend_cases clustered nowMs request with
      ⟨-, engine, -⟩ | ⟨-, takes, applied, done, -⟩
    · exact of_engine_eq whole engine
    · have wellFormed : request.CarriedFrom request.entries := by
        simpa [LeaderMessage.consecutive] using carried
      obtain ⟨took, -⟩ := Node.tookOver whole.logged wellFormed takes done
      refine ⟨took.whole whole, ?_⟩
      intro entry logged spared
      exact took.mem_of_mem wellFormed.numbered logged spared

theorem pull {report : LeaderStatus} {entries : List WalEntry}
    (taken : state.step (.pull report entries) = some next) :
    state.LogKept (.pull report entries) next := by
  simp only [IndexedNode.step] at taken
  split at taken
  · cases taken
  obtain ⟨⟨node, applied⟩, done, rfl⟩ := Option.map_eq_some_iff.mp taken
  rcases Node.applyFetched_cases whole done with
    ⟨rfl, -⟩ | ⟨engine, fetched, -, extended, log, -, rfl⟩
  · exact of_engine_eq whole rfl
  · exact ⟨extended, fun entry logged _ => log ▸ List.mem_append_left fetched logged⟩

theorem rollbackCut {commit nowMs : Nat}
    (taken : state.step (.rollbackCut commit nowMs) = some next) :
    state.LogKept (.rollbackCut commit nowMs) next := by
  simp only [step] at taken
  split at taken
  swap
  · cases taken
  split at taken
  · cases taken
    exact of_engine_eq whole rfl
  · rename_i engine applied done
    cases taken
    obtain ⟨kept, log, -⟩ := whole.cut done
    refine ⟨kept, ?_⟩
    intro entry logged below
    rw [log, ← whole.logUpTo_eq]
    exact List.mem_filter.mpr ⟨logged, decide_eq_true below⟩

theorem restart {nowMs : Nat} (taken : state.step (.restart nowMs) = some next) :
    state.LogKept (.restart nowMs) next := by
  obtain ⟨node, restarted, rfl⟩ := Option.map_eq_some_iff.mp taken
  unfold Node.restart at restarted
  split at restarted
  · cases restarted
  rename_i engine opened
  cases restarted
  obtain ⟨reopened, log, -⟩ := whole.reopen opened
  exact ⟨reopened, fun entry logged _ => log.symm ▸ logged⟩

/-- What a step does to the log. -/
theorem step {event : NodeEvent} (taken : state.step event = some next) :
    state.LogKept event next := by
  cases event with
  | execute action => exact .execute whole taken
  | message sent => exact .message whole taken
  | pull report entries => exact .pull whole taken
  | rollbackCut commit nowMs => exact .rollbackCut whole taken
  | restart nowMs => exact .restart whole taken
  | reply follower term response =>
    cases taken
    refine of_engine_eq whole ?_
    dsimp only [Node.handleAppendReply]
    split <;> rfl
  | fetch targetSequence =>
    simp only [IndexedNode.step] at taken
    split at taken
    · split at taken <;> cases taken
      exact of_engine_eq whole rfl
    · cases taken
  | rollbackMeasure commit =>
    simp only [IndexedNode.step] at taken
    split at taken
    · split at taken <;> cases taken <;> exact of_engine_eq whole rfl
    · cases taken
  | apply batch =>
    simp only [IndexedNode.step] at taken
    split at taken <;> cases taken
    exact of_engine_eq whole rfl
  | publish _ | ack _ _ _ _ | beginElection | finalizeElection _ _ _ | observeRemoteTerm _
  | vote _ _ | rollback =>
    cases taken
    exact of_engine_eq whole rfl

end LogKept

/-- A restart, or a position that is published on a standalone node. -/
def resetsCommit (state : IndexedNode) : NodeEvent → Prop
  | .publish _ => state.node.replication.role = .standalone
  | .restart _ => True
  | _ => False

theorem commitSequence_le_step {state next : IndexedNode} {event : NodeEvent}
    (keeps : ¬ state.resetsCommit event) (taken : state.step event = some next) :
    state.node.replication.commitSequence ≤ next.node.replication.commitSequence := by
  cases event with
  | execute action =>
    simp only [step] at taken
    split at taken <;> cases taken
    exact le_rfl
  | publish applied =>
    cases taken
    exact (steady_publish _ _ keeps applied).commit
  | reply follower term response =>
    cases taken
    exact (Node.steady_handleAppendReply _ _ _ _).commit
  | ack follower appliedSequence term leader =>
    cases taken
    exact (recounts_registerFollowerAck _ _ _ _ _ _).steady.commit
  | message message =>
    simp only [step] at taken
    split at taken
    · cases taken
    rename_i possible
    cases taken
    cases message with
    | heartbeat request => exact (Yields.of_hears (hears_handleHeartbeat _ _)).steady.commit
    | status report => exact (Yields.of_hears (hears_observeLeaderStatus _ _)).steady.commit
    | append nowMs request =>
      exact (Node.steady_handleAppend (not_or.mp possible).1 nowMs request).commit
  | pull report entries =>
    simp only [step] at taken
    split at taken
    · cases taken
    rename_i clustered
    obtain ⟨⟨node, applied⟩, done, rfl⟩ := Option.map_eq_some_iff.mp taken
    exact (Node.steady_applyFetched clustered done).commit
  | beginElection =>
    cases taken
    exact le_rfl
  | finalizeElection term votesGranted members =>
    cases taken
    exact (commitSequence_finalizeElection _ _ _ _ _).ge
  | observeRemoteTerm term =>
    cases taken
    exact (yields_observeRemoteTerm _ _).steady.commit
  | vote heard request =>
    cases taken
    exact (yields_handleVoteRequest _ _ _ _).steady.commit
  | rollback =>
    cases taken
    exact le_rfl
  | rollbackMeasure _ | rollbackCut _ _ =>
    simp only [step] at taken
    split at taken
    · split at taken <;> cases taken <;> exact le_rfl
    · cases taken
  | fetch targetSequence =>
    simp only [step] at taken
    split at taken
    · split at taken <;> cases taken
      exact le_rfl
    · cases taken
  | apply batch =>
    simp only [step] at taken
    split at taken <;> cases taken
    exact le_rfl
  | restart nowMs => exact absurd trivial keeps

/-- Only the steps of `advance_read_index_to` and a restart concern the index. -/
def indexes : NodeEvent → Prop
  | .fetch _ | .apply _ | .restart _ => True
  | _ => False

/-- Other steps leave the index alone. -/
theorem index_step {state next : IndexedNode} {event : NodeEvent}
    (whole : state.node.engine.Whole) (other : ¬ indexes event)
    (taken : state.step event = some next) :
    next.shown = state.shown ∧ next.batches = state.batches ∧
      next.node.readIndex = state.node.readIndex := by
  cases event with
  | fetch _ | apply _ | restart _ => exact absurd trivial other
  | execute _ | message _ =>
    simp only [step] at taken
    split at taken <;> cases taken
    exact ⟨rfl, rfl, rfl⟩
  | rollbackMeasure _ | rollbackCut _ _ =>
    simp only [step] at taken
    split at taken
    · split at taken <;> cases taken <;> exact ⟨rfl, rfl, rfl⟩
    · cases taken
  | reply follower term response =>
    cases taken
    refine ⟨rfl, rfl, ?_⟩
    dsimp only [Node.handleAppendReply]
    split <;> rfl
  | pull report entries =>
    simp only [step] at taken
    split at taken
    · cases taken
    obtain ⟨⟨node, applied⟩, done, rfl⟩ := Option.map_eq_some_iff.mp taken
    rcases Node.applyFetched_cases whole done with ⟨rfl, -⟩ | ⟨engine, fetched, -, -, -, -, rfl⟩
    · exact ⟨rfl, rfl, rfl⟩
    · exact ⟨rfl, rfl, rfl⟩
  | publish _ | ack _ _ _ _ | beginElection | finalizeElection _ _ _ | observeRemoteTerm _
  | vote _ _ | rollback =>
    cases taken
    exact ⟨rfl, rfl, rfl⟩

/-- The entry is committed, as far as the node knows, and in its log. -/
def Committed (state : IndexedNode) (entry : WalEntry) : Prop :=
  entry.sequence ≤ state.node.replication.commitSequence ∧
    entry ∈ state.node.engine.walEntries

/-- A batch is read within the commit point, and no step takes anything committed out of the log
or the commit point back. -/
def Guarded (state : IndexedNode) : NodeEvent → Prop
  | .publish applied => state.node.replication.role = .standalone →
      state.node.replication.commitSequence ≤ applied.lastAppliedSequence
  | .message (.append _ request) => ∀ entry ∈ state.node.engine.walEntries,
      entry.sequence ≤ state.node.replication.commitSequence →
        entry.sequence ≤ request.baseSequence ∨ entry ∈ request.entries
  | .rollbackCut commit _ => state.node.replication.commitSequence ≤ commit
  | .fetch _ =>
      state.node.engine.lastAppliedSequence ≤ state.node.replication.commitSequence ∨
        0 < state.node.config.fetchBatchSize ∧
          state.node.readIndex.committedSequence + state.node.config.fetchBatchSize ≤
            state.node.replication.commitSequence
  | .restart _ => state.node.engine.walEntries = [] ∨
      (ReplicationState.new state.node.config state.node.persisted).role = .standalone
  | _ => True

instance decidableGuarded (state : IndexedNode) (event : NodeEvent) :
    Decidable (state.Guarded event) := by
  unfold Guarded
  split <;> infer_instance

/-- What is committed stays committed, while the node runs. -/
theorem Committed.step {state next : IndexedNode} {event : NodeEvent} {entry : WalEntry}
    (committed : state.Committed entry) (whole : state.node.engine.Whole)
    (guarded : state.Guarded event) (running : ∀ nowMs, event ≠ .restart nowMs)
    (taken : state.step event = some next) : next.Committed entry := by
  refine ⟨?_, (LogKept.step whole taken).keeps entry committed.2 ?_⟩
  · by_cases keeps : state.resetsCommit event
    · cases event with
      | publish applied =>
        cases taken
        rw [setReplication, commitSequence_publish_standalone _ _ keeps]
        exact committed.1.trans (guarded keeps)
      | restart nowMs => exact absurd rfl (running nowMs)
      | _ => exact keeps.elim
    · exact committed.1.trans (commitSequence_le_step keeps taken)
  · cases event with
    | message message =>
      cases message with
      | append nowMs request => exact guarded entry committed.2 committed.1
      | heartbeat request => trivial
      | status report => trivial
    | rollbackCut commit nowMs => exact committed.1.trans guarded
    | _ => trivial

/-- The log is whole, and what the index shows, or is about to, are committed entries of it. -/
structure Sound (state : IndexedNode) : Prop where
  whole : state.node.engine.Whole
  shows : ∀ entry ∈ state.shown, state.Committed entry
  fetched : ∀ batch ∈ state.batches, ∀ entry ∈ batch, state.Committed entry

namespace Sound

variable {state next : IndexedNode}

theorem initial (config : ReplicationConfig) (options : EngineOptions) (startMs : Nat) :
    (IndexedNode.initial config options startMs).Sound :=
  ⟨Engine.whole_create options startMs, by rintro entry ⟨⟩, by rintro batch ⟨⟩⟩

theorem of_other (sound : state.Sound) {event : NodeEvent} (guarded : state.Guarded event)
    (other : ¬ indexes event) (taken : state.step event = some next) : next.Sound := by
  obtain ⟨shown, batches, -⟩ := index_step sound.whole other taken
  have running : ∀ nowMs, event ≠ .restart nowMs := by
    rintro nowMs rfl
    exact other trivial
  refine ⟨(LogKept.step sound.whole taken).whole, ?_, ?_⟩
  · rw [shown]
    exact fun entry member => (sound.shows entry member).step sound.whole guarded running taken
  · rw [batches]
    exact fun batch read entry member =>
      (sound.fetched batch read entry member).step sound.whole guarded running taken

theorem fetch (sound : state.Sound) {targetSequence : Nat}
    (guarded : state.Guarded (.fetch targetSequence))
    (taken : state.step (.fetch targetSequence) = some next) : next.Sound := by
  simp only [step] at taken
  split at taken
  swap
  · cases taken
  split at taken
  · cases taken
  rename_i batch read
  cases taken
  refine ⟨sound.whole, sound.shows, ?_⟩
  intro other member entry inside
  rcases List.mem_cons.mp member with rfl | before
  · exact (sound.whole.mem_walEntriesSince read guarded inside).symm
  · exact sound.fetched other before entry inside

theorem apply (sound : state.Sound) {batch : List WalEntry}
    (taken : state.step (.apply batch) = some next) : next.Sound := by
  simp only [step] at taken
  split at taken
  swap
  · cases taken
  rename_i read
  cases taken
  refine ⟨sound.whole, ?_, ?_⟩
  · intro entry member
    rcases List.mem_append.mp member with before | touched
    · exact sound.shows entry before
    · exact sound.fetched batch read entry
        (CommittedReadIndex.mem_of_mem_touched touched).1
  · exact fun other member => sound.fetched other (List.mem_of_mem_erase member)

theorem restart (sound : state.Sound) {nowMs : Nat} (guarded : state.Guarded (.restart nowMs))
    (taken : state.step (.restart nowMs) = some next) : next.Sound := by
  obtain ⟨node, restarted, rfl⟩ := Option.map_eq_some_iff.mp taken
  unfold Node.restart at restarted
  split at restarted
  · cases restarted
  rename_i engine opened
  cases restarted
  obtain ⟨whole, log, -⟩ := sound.whole.reopen opened
  refine ⟨whole, ?_, by rintro batch ⟨⟩⟩
  intro entry member
  refine ⟨?_, member⟩
  rcases guarded with empty | standalone
  · have none : engine.walEntries = [] := log.trans empty
    have found : entry ∈ engine.walEntries := member
    rw [none] at found
    cases found
  · change _ ≤ (ReplicationState.publish _ _ _).commitSequence
    rw [commitSequence_publish_standalone _ _ standalone]
    exact (whole.logged.sequence_bounds member).2

/-- A guarded step exposes committed entries only. -/
theorem step (sound : state.Sound) {event : NodeEvent} (guarded : state.Guarded event)
    (taken : state.step event = some next) : next.Sound := by
  cases event with
  | fetch targetSequence => exact sound.fetch guarded taken
  | apply batch => exact sound.apply taken
  | restart nowMs => exact sound.restart guarded taken
  | _ => exact sound.of_other guarded not_false taken

end Sound

end IndexedNode

section Samples

open Sample IndexedNode

end Samples

end Vaylix
