import Vaylix.Engine.SnapshotInstall
import Vaylix.Lib.Run
import Vaylix.Server.MatchingAppend
import Vaylix.Server.Session
import Vaylix.Server.Steady

/-!
# The published replication state

The tasks of a server call the engine and the replication runtime in turn, each call under a
lock of its own. A position from the engine is published by a later call. The calls keep what
`assert_runtime_invariants` says, except for the publication of a position before the commit
point.
-/

namespace Vaylix

open LabelledRun

namespace ReplicationState

/-- `assert_runtime_invariants`. -/
structure Published (state : ReplicationState) : Prop where
  bounded : state.commitSequence ≤ state.localLastAppliedSequence
  standalone : state.role = .standalone → state.commitSequence = state.localLastAppliedSequence
  candidate : state.role = .candidate → state.votedFor.isSome

/-- `promote_follower` in maintenance mode; otherwise nothing changes. -/
def promoteFollower (config : ReplicationConfig) (state : ReplicationState) : Handled Unit :=
  if state.role ≠ .follower then ⟨state, [], ()⟩
  else
    let next := { state with
      currentTerm := satAdd state.currentTerm 1
      votedFor := some config.nodeId
      role := .leader
      followerPhase := none
      leaderNodeId := some config.nodeId
      leaderAdvertiseAddr := state.localAdvertiseAddr config }
    ⟨next, [next.persisted], ()⟩

def addMember (state : ReplicationState) (member : ClusterMember) : Handled Unit :=
  let next := { state with members := state.members.insert member.nodeId member }
  ⟨next, [next.persisted], ()⟩

def removeMember (state : ReplicationState) (nodeId : NodeId) : Handled Unit :=
  let next := { state with
    members := state.members.erase nodeId
    followers := state.followers.erase nodeId }
  ⟨next, [next.persisted], ()⟩

def setPaused (state : ReplicationState) (paused : Bool) : ReplicationState :=
  { state with
    paused := paused
    followerPhase := if state.role = .follower then
      some (if paused then .paused else .bootstrap) else state.followerPhase }

/-- The term and the commit point do not go back, and what the runtime asserts is kept. -/
structure Advances (before after : ReplicationState) : Prop where
  term : before.currentTerm ≤ after.currentTerm
  commit : before.commitSequence ≤ after.commitSequence
  published : Published before → Published after

namespace Advances

variable {first second third : ReplicationState}

@[refl] theorem refl (state : ReplicationState) : Advances state state := ⟨le_rfl, le_rfl, id⟩

theorem trans (before : Advances first second) (after : Advances second third) :
    Advances first third :=
  ⟨before.term.trans after.term, before.commit.trans after.commit,
    after.published ∘ before.published⟩

theorem of_position (term : first.currentTerm ≤ second.currentTerm)
    (position : second.localLastAppliedSequence = first.localLastAppliedSequence)
    (commit : first.commitSequence ≤ second.commitSequence)
    (within : second.commitSequence ≤
      max first.commitSequence first.localLastAppliedSequence)
    (standalone : second.role = .standalone → first.role = .standalone)
    (candidate : second.role = .candidate →
      second.votedFor.isSome ∨ (first.role = .candidate ∧ second.votedFor = first.votedFor)) :
    Advances first second := by
  refine ⟨term, commit, fun published => ?_⟩
  have bounded := within.trans (Nat.max_le.mpr ⟨published.bounded, le_rfl⟩)
  refine ⟨position ▸ bounded, fun alone => ?_, fun runs => ?_⟩
  · rw [position]
    exact Nat.le_antisymm bounded ((published.standalone (standalone alone)).ge.trans commit)
  · rcases candidate runs with voted | ⟨ran, vote⟩
    · exact voted
    · exact vote ▸ published.candidate ran

theorem of_same (role : second.role = first.role) (vote : second.votedFor = first.votedFor)
    (position : second.localLastAppliedSequence = first.localLastAppliedSequence)
    (term : first.currentTerm ≤ second.currentTerm)
    (commit : first.commitSequence ≤ second.commitSequence)
    (within : second.commitSequence ≤
      max first.commitSequence first.localLastAppliedSequence) : Advances first second :=
  of_position term position commit within (fun alone => role ▸ alone)
    fun runs => .inr ⟨role ▸ runs, vote⟩

theorem of_yields (yields : Yields first second) : Advances first second := by
  cases yields with
  | same => rfl
  | down role position term commit within =>
    refine of_position term (congrArg LogAppendResult.lastAppliedSequence position) commit within
      (fun alone => ?_) fun runs => ?_
    · rw [role, steppedDown] at alone
      split at alone
      · assumption
      · cases alone
    · rw [role, steppedDown] at runs
      split at runs <;> cases runs

theorem of_recounts {config : ReplicationConfig} (recounts : Recounts config first second) :
    Advances first second := by
  cases recounts with
  | same => rfl
  | counted followers =>
    exact .of_same rfl rfl rfl le_rfl (Nat.le_max_left _ _)
      (max_le_max le_rfl (Nat.min_le_right _ _))

end Advances

section Calls

variable (config : ReplicationConfig) (state : ReplicationState)

theorem advances_publish {applied : LogAppendResult}
    (covers : state.commitSequence ≤ applied.lastAppliedSequence) :
    Advances state (state.publish config applied) := by
  unfold publish setLocalLastAppliedState
  dsimp only
  split
  · rename_i alone
    exact ⟨le_rfl, covers, fun _ => ⟨le_rfl, fun _ => rfl, fun runs => by
      rw [alone] at runs
      cases runs⟩⟩
  · rename_i leads
    refine ⟨le_rfl, Nat.le_max_left _ _, fun _ =>
      ⟨Nat.max_le.mpr ⟨covers, Nat.min_le_right _ _⟩, fun alone => ?_, fun runs => ?_⟩⟩
    · exact absurd (leads.symm.trans alone) (by decide)
    · exact absurd (leads.symm.trans runs) (by decide)
  · rename_i member _
    exact ⟨le_rfl, le_rfl, fun published =>
      ⟨covers, fun alone => absurd alone member, published.candidate⟩⟩

theorem advances_noteLeaderFrontier (sequence : Nat) :
    Advances state (state.noteLeaderFrontier sequence) := by
  unfold noteLeaderFrontier
  split
  · exact .of_same rfl rfl rfl le_rfl le_rfl (Nat.le_max_left _ _)
  · rfl

end Calls

end ReplicationState

/-! ### The calls of the runtime -/

/-- What a task calls of the replication runtime, apart from the publication of a
position. -/
inductive RuntimeCall where
  | observeLeaderCommit (sequence : Nat)
  | noteLeaderFrontier (sequence : Nat)
  | updateFollowerPhase (phase : FollowerPhase)
  | setPaused (paused : Bool)
  | registerFollowerAck (follower : NodeId) (applied term : Nat) (leader : NodeId)
  | recordAppendResult (follower : NodeId) (accepted : Bool) (matched term : Nat)
      (leader : NodeId)
  | observeRemoteTerm (term : Nat)
  | handleVoteRequest (heard : Bool) (request : VoteRequest)
  | handleHeartbeat (request : HeartbeatRequest)
  | observeLeaderStatus (status : LeaderStatus)
  | beginElection
  | finalizeElection (term votesGranted members : Nat)
  | promoteFollower
  | addMember (member : ClusterMember)
  | removeMember (nodeId : NodeId)

namespace Node

open ReplicationState

def call (node : Node) : RuntimeCall → Node
  | .observeLeaderCommit sequence =>
    { node with replication := node.replication.observeLeaderCommit sequence }
  | .noteLeaderFrontier sequence =>
    { node with replication := node.replication.noteLeaderFrontier sequence }
  | .updateFollowerPhase phase => node.withPhase phase
  | .setPaused paused => { node with replication := node.replication.setPaused paused }
  | .registerFollowerAck follower applied term leader =>
    { node with replication :=
        node.replication.registerFollowerAck node.config follower applied term leader }
  | .recordAppendResult follower accepted matched term leader =>
    { node with replication :=
        node.replication.recordAppendResult node.config follower accepted matched term leader }
  | .observeRemoteTerm term => node.after (node.replication.observeRemoteTerm term)
  | .handleVoteRequest heard request =>
    node.after (node.replication.handleVoteRequest node.config heard request)
  | .handleHeartbeat request => node.after (node.replication.handleHeartbeat request)
  | .observeLeaderStatus status => node.after (node.replication.observeLeaderStatus status)
  | .beginElection => node.after (node.replication.beginElection node.config)
  | .finalizeElection term votesGranted members =>
    node.after (node.replication.finalizeElection node.config term votesGranted members)
  | .promoteFollower => node.after (node.replication.promoteFollower node.config)
  | .addMember member => node.after (node.replication.addMember member)
  | .removeMember nodeId => node.after (node.replication.removeMember nodeId)

theorem le_satAdd_of_le {term : Nat} (representable : term ≤ u64Max) : term ≤ satAdd term 1 :=
  Nat.le_min.mpr ⟨Nat.le_succ _, representable⟩

theorem advances_call (node : Node) (call : RuntimeCall)
    (representable : node.replication.currentTerm ≤ u64Max) :
    Advances node.replication (node.call call).replication := by
  cases call with
  | observeLeaderCommit sequence =>
    dsimp only [Node.call, observeLeaderCommit]
    split
    · rfl
    · rfl
    · exact .of_same rfl rfl rfl le_rfl (Nat.le_max_left _ _)
        (max_le_max le_rfl (Nat.min_le_right _ _))
  | noteLeaderFrontier sequence => exact advances_noteLeaderFrontier _ _
  | updateFollowerPhase phase | setPaused paused | addMember member | removeMember nodeId =>
    exact .of_same rfl rfl rfl le_rfl le_rfl (Nat.le_max_left _ _)
  | registerFollowerAck follower applied term leader =>
    exact .of_recounts (recounts_registerFollowerAck _ _ _ _ _ _)
  | recordAppendResult follower accepted matched term leader =>
    exact .of_recounts (recounts_recordAppendResult _ _ _ _ _ _ _)
  | observeRemoteTerm term => exact .of_yields (yields_observeRemoteTerm _ _)
  | handleVoteRequest heard request => exact .of_yields (yields_handleVoteRequest _ _ _ _)
  | handleHeartbeat request => exact .of_yields (.of_hears (hears_handleHeartbeat _ _))
  | observeLeaderStatus status => exact .of_yields (.of_hears (hears_observeLeaderStatus _ _))
  | beginElection =>
    exact .of_position (le_satAdd_of_le representable) rfl le_rfl (Nat.le_max_left _ _)
      (by rintro ⟨⟩) fun _ => .inl rfl
  | finalizeElection term votesGranted members =>
    rcases finalizeElection_cases node.config node.replication term votesGranted members with
      ⟨-, same⟩ | ⟨-, -, -, won⟩
    · simp only [Node.call, Node.after, same]
      rfl
    · simp only [Node.call, Node.after, won]
      exact .of_position le_rfl rfl le_rfl (Nat.le_max_left _ _)
        (by rintro ⟨⟩) (by rintro ⟨⟩)
  | promoteFollower =>
    dsimp only [Node.call, Node.after, promoteFollower]
    split
    · rfl
    · exact .of_position (le_satAdd_of_le representable) rfl le_rfl (Nat.le_max_left _ _)
        (by rintro ⟨⟩) (by rintro ⟨⟩)

end Node

/-! ### The tasks of a server -/

/-- What a leader sends to a voter that lacks entries the leader has no longer got. -/
structure SnapshotInstallRequest where
  term : Nat
  leaderNodeId : NodeId
  leaderAddr : String
  commitSequence : Nat
  members : List ClusterMember
  snapshot : ReplicationSnapshot

namespace Node

variable [Codec]

def takeEntries (node : Node) (nowMs : Nat) (request : AppendEntriesRequest) :
    Node × Option LogAppendResult :=
  if request.term < node.replication.currentTerm then (node, none)
  else
    let heartbeat := node.replication.handleHeartbeat request.heartbeat
    let heard := node.after heartbeat
    if !heartbeat.answer.accepted then (heard, none)
    else
      let noted := heard.noteFrontier request
      let engine := node.engine
      if engine.walEntryTerm request.prevSequence ≠ request.prevTerm ∨
          engine.walEntryChecksum request.prevSequence ≠ request.prevEntryChecksum then
        (noted, none)
      else if request.entries.isEmpty ∧ engine.lastAppliedSequence < request.prevSequence then
        (noted, none)
      else
        match engine.acceptEntries nowMs request.prevSequence request.entries with
        | .error _ => (noted, none)
        | .ok (engine, appliedSequence) =>
          ({ noted with engine := engine }, some (engine.appliedStateForSequence appliedSequence))

/-- Whether the heartbeat in the request is accepted does not matter. -/
def takeSnapshot (node : Node) (nowMs : Nat) (request : SnapshotInstallRequest) :
    Node × Option LogAppendResult :=
  if request.term < node.replication.currentTerm then (node, none)
  else
    let heard := node.after (node.replication.handleHeartbeat
      ⟨request.term, request.leaderNodeId, request.leaderAddr, request.commitSequence,
        request.commitSequence, request.members⟩)
    match node.engine.applyReplicationSnapshot nowMs request.snapshot with
    | .error _ => (heard, none)
    | .ok engine => ({ heard with
        engine := engine
        readIndex := CommittedReadIndex.rebuildFromEngineState engine.state },
          some engine.lastAppliedState)

/-- The handler of an append publishes the position and observes the commit. -/
theorem handleAppend_of_takeEntries {node taken : Node} {nowMs : Nat}
    {request : AppendEntriesRequest} {applied : LogAppendResult}
    (takes : node.takeEntries nowMs request = (taken, some applied)) :
    node.handleAppend nowMs request = taken.acceptedAppend request
      (node.replication.handleHeartbeat request.heartbeat).answer.term taken.engine
        applied.lastAppliedSequence ∧
      applied = taken.engine.appliedStateForSequence applied.lastAppliedSequence := by
  unfold takeEntries at takes
  unfold handleAppend
  dsimp only at takes ⊢
  split at takes
  · cases takes
  rename_i recent
  split at takes
  · cases takes
  rename_i accepted
  split at takes
  · cases takes
  rename_i same
  split at takes
  · cases takes
  rename_i reaches
  rw [if_neg recent, if_neg accepted, if_neg same, if_neg reaches]
  cases accepting : node.engine.acceptEntries nowMs request.prevSequence request.entries with
  | error err =>
    rw [accepting] at takes
    cases takes
  | ok result =>
    rw [accepting] at takes
    cases takes
    exact ⟨rfl, rfl⟩

end Node

structure ServingNode where
  node : Node
  owed : List LogAppendResult

/-- A client write, a no-op or a sweep is an engine call; a position is noted afterwards. -/
inductive ServingEvent where
  | execute (action : EngineAction)
  | note (sequence : Nat)
  | cut (nowMs : Nat)
  | append (nowMs : Nat) (request : AppendEntriesRequest)
  | install (nowMs : Nat) (request : SnapshotInstallRequest)
  | pull (status : LeaderStatus) (entries : List WalEntry)
  | publish (applied : LogAppendResult)
  | call (call : RuntimeCall)
  | restart (nowMs : Nat)

/-- The process goes on. -/
def ServingEvent.runsOn : ServingEvent → Bool
  | .restart _ => false
  | _ => true

namespace ServingNode

variable [Codec]

open ReplicationState

def start (config : ReplicationConfig) (persisted : Option PersistedReplicationState)
    (engine : Engine) : ServingNode :=
  ⟨Node.published
    { config := config
      replication := ReplicationState.new config persisted
      persisted := persisted
      engine := engine
      readIndex := CommittedReadIndex.rebuildFromEngineState engine.state }, []⟩

def setEngine (state : ServingNode) (engine : Engine) (owed : List LogAppendResult) :
    ServingNode :=
  ⟨{ state.node with engine := engine }, owed ++ state.owed⟩

/-- The effect of a call, `none` when it is not possible. -/
def step (state : ServingNode) : ServingEvent → Option ServingNode
  | .execute action =>
    some (state.setEngine (action.perform
      (state.node.engine.setConsensusTerm state.node.replication.currentTerm)) [])
  | .note sequence =>
    if sequence ≤ state.node.engine.lastAppliedSequence then
      some { state with owed := state.node.engine.appliedStateForSequence sequence :: state.owed }
    else none
  | .cut nowMs =>
    if state.node.engine.lastAppliedSequence ≤ state.node.replication.commitSequence then none
    else
      match state.node.engine.replaceReplicationSuffix nowMs
          state.node.replication.commitSequence [] with
      | .error _ => none
      | .ok (engine, applied) =>
        some (state.setEngine engine [engine.appliedStateForSequence applied])
  | .append nowMs request =>
    let (node, owed) := state.node.takeEntries nowMs request
    some ⟨node, owed.toList ++ state.owed⟩
  | .install nowMs request =>
    let (node, owed) := state.node.takeSnapshot nowMs request
    some ⟨node, owed.toList ++ state.owed⟩
  | .pull status entries =>
    (state.node.applyFetched status entries).map fun (next, applied) =>
      state.setEngine next.engine [next.engine.appliedStateForSequence applied]
  | .publish applied =>
    if applied ∈ state.owed then
      some ⟨{ state.node with
        replication := state.node.replication.publish state.node.config applied },
          state.owed.erase applied⟩
    else none
  | .call call => some { state with node := state.node.call call }
  | .restart nowMs => (state.node.restart nowMs).map fun node => ⟨node, []⟩

/-- A position that is published is not before the commit point; terms are 64-bit numbers. -/
def CoversCommit (state : ServingNode) (event : ServingEvent) : Prop :=
  state.node.replication.currentTerm ≤ u64Max ∧
    match event with
    | .publish applied => state.node.replication.commitSequence ≤ applied.lastAppliedSequence
    | _ => True

instance (state : ServingNode) (event : ServingEvent) : Decidable (state.CoversCommit event) := by
  unfold CoversCommit
  cases event <;> infer_instance

omit [Codec] in
theorem advances_noteFrontier (node : Node) (request : AppendEntriesRequest) :
    Advances node.replication (node.noteFrontier request).replication := by
  obtain ⟨target, phase, noted⟩ := node.noteFrontier_eq request
  rw [noted]
  exact .of_same rfl rfl rfl le_rfl le_rfl (Nat.le_max_left _ _)

theorem advances_takeEntries (node : Node) (nowMs : Nat) (request : AppendEntriesRequest) :
    Advances node.replication (node.takeEntries nowMs request).1.replication ∧
      (node.takeEntries nowMs request).1.config = node.config := by
  let heard := node.after (node.replication.handleHeartbeat request.heartbeat)
  have hears : Advances node.replication heard.replication :=
    .of_yields (.of_hears (hears_handleHeartbeat _ _))
  have notes : Advances node.replication (heard.noteFrontier request).replication ∧
      (heard.noteFrontier request).config = node.config :=
    ⟨hears.trans (advances_noteFrontier _ _), (heard.sameStanding_noteFrontier request).config⟩
  unfold Node.takeEntries
  dsimp only
  split
  · exact ⟨.refl _, rfl⟩
  split
  · exact ⟨hears, rfl⟩
  split
  · exact notes
  split
  · exact notes
  split <;> exact notes

theorem advances_takeSnapshot (node : Node) (nowMs : Nat) (request : SnapshotInstallRequest) :
    Advances node.replication (node.takeSnapshot nowMs request).1.replication ∧
      (node.takeSnapshot nowMs request).1.config = node.config := by
  unfold Node.takeSnapshot
  split
  · exact ⟨.refl _, rfl⟩
  split <;> exact ⟨.of_yields (.of_hears (hears_handleHeartbeat node.replication _)), rfl⟩

/-- **Every call of a running process advances the published state.** -/
theorem advances_step {state next : ServingNode} {event : ServingEvent}
    (covers : state.CoversCommit event) (going : event.runsOn = true)
    (taken : state.step event = some next) :
    Advances state.node.replication next.node.replication ∧
      next.node.config = state.node.config := by
  cases event with
  | execute action => cases taken; exact ⟨.refl _, rfl⟩
  | note sequence =>
    simp only [step] at taken
    split at taken <;> cases taken
    exact ⟨.refl _, rfl⟩
  | cut nowMs =>
    simp only [step] at taken
    split at taken
    · cases taken
    split at taken <;> cases taken
    exact ⟨.refl _, rfl⟩
  | append nowMs request => cases taken; exact advances_takeEntries _ _ _
  | install nowMs request => cases taken; exact advances_takeSnapshot _ _ _
  | pull status entries =>
    obtain ⟨_, -, rfl⟩ := Option.map_eq_some_iff.mp taken
    exact ⟨.refl _, rfl⟩
  | publish applied =>
    simp only [step] at taken
    split at taken <;> cases taken
    exact ⟨advances_publish _ _ covers.2, rfl⟩
  | call call => cases taken; exact ⟨state.node.advances_call call covers.1, by cases call <;> rfl⟩
  | restart nowMs => cases going

theorem published_start {node : Node} (configured : node.config.role ≠ .candidate)
    {persisted : Option PersistedReplicationState}
    (fresh : node.replication = ReplicationState.new node.config persisted) :
    Published node.published.replication := by
  have initially : Published node.replication := by
    rw [fresh]
    refine ⟨le_rfl, fun _ => rfl, fun runs => ?_⟩
    rcases ite_eq_iff.mp runs with ⟨-, follows⟩ | ⟨-, role⟩
    · cases follows
    · exact absurd role configured
  refine (advances_publish node.config node.replication ?_).published initially
  rw [fresh]
  exact Nat.zero_le _

/-- A call that covers the commit point keeps the assertions. -/
theorem published_step {state next : ServingNode} {event : ServingEvent}
    (kept : state.node.config.role ≠ .candidate ∧ Published state.node.replication)
    (covers : state.CoversCommit event) (taken : state.step event = some next) :
    next.node.config.role ≠ .candidate ∧ Published next.node.replication := by
  cases going : event.runsOn with
  | true =>
    obtain ⟨advances, config⟩ := advances_step covers going taken
    exact ⟨config ▸ kept.1, advances.published kept.2⟩
  | false =>
    cases event <;> cases going
    obtain ⟨node, restarted, rfl⟩ := Option.map_eq_some_iff.mp taken
    unfold Node.restart at restarted
    split at restarted <;> cases restarted
    exact ⟨kept.1, published_start kept.1 rfl⟩

theorem advances_run {state final : ServingNode} {events : List ServingEvent}
    (going : ∀ event ∈ events, event.runsOn = true)
    (meets : Meets step CoversCommit state events) (reached : run step state events = some final) :
    Advances state.node.replication final.node.replication := by
  induction events generalizing state with
  | nil => cases reached; rfl
  | cons event rest ih =>
    obtain ⟨next, taken, following⟩ := (run_cons_eq_some step).mp reached
    obtain ⟨here, later⟩ := List.forall_mem_cons.mp going
    exact (advances_step meets.1 here taken).1.trans (ih later (meets.2 next taken) following)

/-- **The runtime's assertions hold in every state**, and neither the term nor the commit point
goes back, if no position before the commit point is published. -/
theorem assertions_hold (config : ReplicationConfig) (configured : config.role ≠ .candidate)
    (persisted : Option PersistedReplicationState) (engine : Engine)
    (earlier later : List ServingEvent) (middle final : ServingNode)
    (meets : Meets step CoversCommit (start config persisted engine) (earlier ++ later))
    (before : run step (start config persisted engine) earlier = some middle)
    (after : run step middle later = some final) :
    Published final.node.replication ∧
      ((∀ event ∈ later, event.runsOn = true) →
        middle.node.replication.currentTerm ≤ final.node.replication.currentTerm ∧
        middle.node.replication.commitSequence ≤ final.node.replication.commitSequence) := by
  have continued := meets_append step meets before
  constructor
  · have whole : run step (start config persisted engine) (earlier ++ later) = some final := by
      rw [run_append, before]
      exact after
    exact (invariant_of_meets (fun _ _ _ kept covers taken => published_step kept covers taken)
      (⟨configured, published_start configured rfl⟩ :
        _ ∧ Published (start config persisted engine).node.replication) meets whole).2
  · intro going
    have advances := advances_run going continued after
    exact ⟨advances.term, advances.commit⟩

end ServingNode

section Samples

open Sample ServingNode ReplicationState

def batchOf (term commitSequence : Nat) (entries : List WalEntry) : AppendEntriesRequest :=
  ⟨term, "a", "a:1", commitSequence, 3, 0, none, none, entries, twoVoters⟩

def positionOf (entry : WalEntry) : LogAppendResult :=
  ⟨entry.sequence, some entry.term, some entry.checksum⟩

def firstBatchEvents : List ServingEvent :=
  [.append 0 (batchOf 1 3 threeEntries), .publish (positionOf ⟨3, 1, 0, [.set "z" [51] 1]⟩),
    .call (.observeLeaderCommit 3), .append 0 (batchOf 2 3 (threeEntries.take 1)),
    .publish (positionOf ⟨1, 1, 0, [.set "x" [49] 1]⟩)]

/-- The follower's log is taken back, but not its commit point. -/
theorem first_batch_uncovers_commit :
    ¬ ∀ (config : ReplicationConfig) (persisted : Option PersistedReplicationState)
      (engine : Engine) (events : List ServingEvent) (final : ServingNode),
      config.role ≠ .candidate → run step (start config persisted engine) events = some final →
      Published final.node.replication := by
  intro holds
  obtain ⟨final, reached, uncovered⟩ :
      ∃ final ∈ run step (start secondVoter none (.create ⟨0, 0⟩ 0)) firstBatchEvents,
        final.node.replication.localLastAppliedSequence <
          final.node.replication.commitSequence := by
    decide +kernel
  have bounded := (holds _ _ _ _ final (by decide) reached).bounded
  omega

/-- Without the batch of the new leader nothing is wrong. -/
theorem assertions_hold_committed :
    ((run step (start secondVoter none (.create ⟨0, 0⟩ 0)) (firstBatchEvents.take 3)).map
      fun final => final.node.replication.commitSequence) = some 3 ∧
    ∀ final, run step (start secondVoter none (.create ⟨0, 0⟩ 0)) (firstBatchEvents.take 3) =
      some final → Published final.node.replication := by
  refine ⟨by decide +kernel, fun final reached => ?_⟩
  have meets : Meets step CoversCommit (start secondVoter none (.create ⟨0, 0⟩ 0))
      (firstBatchEvents.take 3) := by
    decide +kernel
  exact (assertions_hold secondVoter (by decide) none (.create ⟨0, 0⟩ 0)
    (firstBatchEvents.take 3) [] final final (by rwa [List.append_nil]) reached rfl).1

-- Two tasks of a standalone node publish in the other order, and its commit point goes back.
example : ((run step (start Sample.runtime.replication none (.create ⟨0, 0⟩ 0))
    [.execute (.direct (.still 0) (.set "x" [49] {})), .note 1,
      .execute (.direct (.still 0) (.set "y" [50] {})), .note 2,
      .publish (positionOf ⟨2, 0, 0, [.set "y" [50] 1]⟩),
      .publish (positionOf ⟨1, 0, 0, [.set "x" [49] 1]⟩)]).map
    fun final => final.node.replication.commitSequence) = some 1 := by
  decide +kernel

end Samples

end Vaylix
