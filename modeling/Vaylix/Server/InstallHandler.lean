import Vaylix.Engine.Shedding
import Vaylix.Server.FollowerCommit
import Vaylix.Server.Publication

/-!
# Answering a snapshot

The handler of `ReplicationInstallSnapshot` refuses a request of an older term and no other:
it looks neither at the answer to the heartbeat in it nor at its own position. The state
comes without the term of its last entry, which the leader names in the next append.
-/

namespace Vaylix

structure SnapshotInstallResponse where
  term : Nat
  accepted : Bool
  appliedSequence : Nat
deriving DecidableEq

/-- The state counts these entries and holds what they write, but for keys that expired. -/
def EngineState.MadeOf (state : EngineState) (entries : List WalEntry) : Prop :=
  state.metadata.lastAppliedSequence = entries.length ∧
    ∃ nowMs full, replayStore .new entries = .ok full ∧ Sheds nowMs full state.store

namespace Node

variable [Codec]

/-- `takeSnapshot` fails for the format alone, and the position it gives is published. -/
def handleInstall (node : Node) (nowMs : Nat) (request : SnapshotInstallRequest) :
    Node × Except ServerError SnapshotInstallResponse :=
  let currentTerm := node.replication.currentTerm
  if request.term < currentTerm then
    (node, .ok ⟨currentTerm, false, node.replication.localLastAppliedSequence⟩)
  else
    match node.takeSnapshot nowMs request with
    | (heard, none) =>
      (heard, .error (.engine (.unsupportedStorageFormat "replication snapshot")))
    | (taken, some applied) =>
      let replication := (taken.replication.publish taken.config applied).observeLeaderCommit
        request.commitSequence
      ({ taken with replication := replication },
        .ok ⟨replication.currentTerm, true, applied.lastAppliedSequence⟩)

/-- A state is refused, fails, or is installed. -/
theorem handleInstall_cases (node : Node) (nowMs : Nat) (request : SnapshotInstallRequest) :
    (request.term < node.replication.currentTerm ∧ ∃ reply, reply.accepted = false ∧
        node.handleInstall nowMs request = (node, .ok reply)) ∨
      ¬ request.term < node.replication.currentTerm ∧
        ((∃ err, (node.handleInstall nowMs request).2 = .error err ∧
          request.snapshot.storageFormatVersion ≠ storageFormatVersion) ∨
        ∃ reply, (node.handleInstall nowMs request).2 = .ok reply ∧ reply.accepted = true ∧
          node.engine.applyReplicationSnapshot nowMs request.snapshot =
            .ok (node.handleInstall nowMs request).1.engine) := by
  unfold handleInstall takeSnapshot
  dsimp only
  split
  · rename_i stale
    exact .inl ⟨stale, _, rfl, rfl⟩
  · rename_i recent
    refine .inr ⟨recent, ?_⟩
    cases applied : node.engine.applyReplicationSnapshot nowMs request.snapshot with
    | ok engine => exact .inr ⟨_, rfl, rfl, rfl⟩
    | error err =>
      refine .inl ⟨_, rfl, fun known => ?_⟩
      rw [Engine.applyReplicationSnapshot, if_neg (not_not.mpr known)] at applied
      cases applied

/-- **A request is refused and changes nothing exactly when its term is older.** -/
theorem install_rejected_iff (node : Node) (nowMs : Nat) (request : SnapshotInstallRequest) :
    (∃ reply, node.handleInstall nowMs request = (node, .ok reply) ∧ reply.accepted = false) ↔
      request.term < node.replication.currentTerm := by
  constructor
  · rintro ⟨reply, same, refused⟩
    rcases node.handleInstall_cases nowMs request with
      ⟨stale, -⟩ | ⟨-, ⟨err, failed, -⟩ | ⟨other, answered, accepted, -⟩⟩
    · exact stale
    · cases (congrArg Prod.snd same).symm.trans failed
    · cases (congrArg Prod.snd same).symm.trans answered
      cases refused.symm.trans accepted
  · intro stale
    rcases node.handleInstall_cases nowMs request with ⟨-, reply, refused, same⟩ | ⟨recent, -⟩
    · exact ⟨reply, same, refused⟩
    · exact absurd stale recent

/-! ## What is lost -/

/-- A leader of the current term, whose log is now `log`, sent its state when the log was `sent`.
What the follower knows to be committed of its `history`, the leader has. -/
structure SentByLeader (follower : Node) (request : SnapshotInstallRequest)
    (log history sent : List WalEntry) : Prop where
  current : request.term = follower.replication.currentTerm
  format : request.snapshot.storageFormatVersion = storageFormatVersion
  state : request.snapshot.state.MadeOf sent
  earlier : sent <+: log
  applied : follower.engine.state.MadeOf history
  committed : history.take follower.replication.commitSequence <+: log

/-- **A follower that installs a state keeps what it knew to be committed exactly when the state
is not behind that.** -/
theorem install_keeps_committed_iff (follower : Node) (nowMs : Nat)
    (request : SnapshotInstallRequest) (log history sent : List WalEntry)
    (legitimate : follower.SentByLeader request log history sent) :
    (∃ entries, (follower.handleInstall nowMs request).1.engine.state.MadeOf entries ∧
      history.take follower.replication.commitSequence <+: entries) ↔
      min follower.replication.commitSequence follower.engine.lastAppliedSequence ≤
        request.snapshot.state.metadata.lastAppliedSequence := by
  have length : (history.take follower.replication.commitSequence).length =
      min follower.replication.commitSequence follower.engine.lastAppliedSequence := by
    rw [List.length_take, ← legitimate.applied.1]
    rfl
  have installed : (follower.handleInstall nowMs request).1.engine.state =
      request.snapshot.state.markSnapshot nowMs
        request.snapshot.state.metadata.lastAppliedSequence := by
    rcases follower.handleInstall_cases nowMs request with
      ⟨stale, -⟩ | ⟨-, ⟨err, -, format⟩ | ⟨reply, -, -, applied⟩⟩
    · exact absurd legitimate.current stale.ne
    · exact absurd legitimate.format format
    · rw [Engine.applyReplicationSnapshot, if_neg (not_not.mpr legitimate.format)] at applied
      rw [← Except.ok.inj applied]
  rw [installed, ← length]
  constructor
  · rintro ⟨entries, ⟨count, -⟩, front⟩
    exact front.length_le.trans_eq count.symm
  · intro covered
    exact ⟨sent, legitimate.state, List.prefix_of_prefix_length_le legitimate.committed
      legitimate.earlier (legitimate.state.1 ▸ covered)⟩

/-! ## The append after it -/

theorem refused_of_emptied {node : Node} (emptied : node.engine.walEntryIdentities = ∅)
    (nowMs : Nat) {request : AppendEntriesRequest} (behind : request.prevSequence ≠ 0)
    (named : request.prevTerm ≠ none) :
    ∃ reply, (node.handleAppend nowMs request).2 = .ok reply ∧ reply.accepted = false ∧
      (node.handleAppend nowMs request).1.engine = node.engine := by
  have unknown : node.engine.walEntryTerm request.prevSequence ≠ request.prevTerm := by
    intro known
    rw [Engine.walEntryTerm, if_neg behind, emptied] at known
    exact named (known.symm.trans (by simp))
  unfold handleAppend
  dsimp only
  split
  · exact ⟨_, rfl, rfl, rfl⟩
  split
  · exact ⟨_, rfl, rfl, rfl⟩
  rw [if_pos (.inl unknown)]
  exact ⟨_, rfl, rfl, noteFrontier_engine _ _⟩

/-- **The append behind a state that was just installed is refused** and leaves the log as it
is. -/
theorem append_after_install_refused (leader follower : Node) (nowMs laterMs term heard : Nat)
    (sequence : Nat) (install : SnapshotInstallRequest)
    (installed : (follower.handleInstall nowMs install).2 = .ok ⟨heard, true, sequence⟩)
    (retained : 0 < sequence) (request : AppendEntriesRequest)
    (built : appendRequest { leader with
      replication := leader.replication.recordAppendResult leader.config follower.config.nodeId
        true sequence term leader.config.nodeId } follower.config.nodeId = some request)
    (behind : request.prevSequence = sequence) :
    ∃ reply, ((follower.handleInstall nowMs install).1.handleAppend laterMs request).2 =
        .ok reply ∧ reply.accepted = false ∧
      ((follower.handleInstall nowMs install).1.handleAppend laterMs request).1.engine =
        (follower.handleInstall nowMs install).1.engine := by
  obtain ⟨cached, builds⟩ := builds_of_appendRequest built
  obtain ⟨entry, -, named, -⟩ := builds.previous (by omega)
  refine refused_of_emptied ?_ laterMs (by omega) (named ▸ Option.some_ne_none _)
  rcases follower.handleInstall_cases nowMs install with
    ⟨-, reply, refused, same⟩ | ⟨-, ⟨err, failed, -⟩ | ⟨-, -, -, applied⟩⟩
  · cases (congrArg Prod.snd same).symm.trans installed
    cases refused
  · cases failed.symm.trans installed
  · unfold Engine.applyReplicationSnapshot at applied
    split at applied
    · cases applied
    · rw [← Except.ok.inj applied]

end Node

section Samples

open Sample Node

def committedFollower : Node := voterWith "b" .follower 2 2 [agreedEntry, electedEntry]

def earlierState (leader : NodeId) : SnapshotInstallRequest :=
  ⟨2, leader, "a:1", 1, threeMembers, (engineWith [agreedEntry]).replicationSnapshot⟩

/-- The state of a node that is no member is installed. -/
theorem stranger_is_installed :
    isVotingMember committedFollower.replication.members "x" = false ∧
      (committedFollower.handleInstall 0 (earlierState "x")).2.toOption = some ⟨2, true, 1⟩ := by
  decide +kernel

/-- A follower that has committed two entries is left with one. -/
theorem late_snapshot_uncovers_commit :
    committedFollower.replication.commitSequence = 2 ∧
      committedFollower.engine.lastAppliedSequence = 2 ∧
      (committedFollower.handleInstall 0 (earlierState "a")).1.engine.lastAppliedSequence = 1 := by
  decide +kernel

theorem install_keeps_committed_late :
    ¬ ∃ entries, (committedFollower.handleInstall 0 (earlierState "a")).1.engine.state.MadeOf
      entries ∧ [agreedEntry, electedEntry] <+: entries := by
  have legitimate : committedFollower.SentByLeader (earlierState "a") [agreedEntry, electedEntry]
      [agreedEntry, electedEntry] [agreedEntry] :=
    ⟨rfl, rfl, ⟨rfl, 0, _, rfl, .refl _ _⟩, ⟨_, rfl⟩, ⟨rfl, 0, _, rfl, .refl _ _⟩,
      by decide +kernel⟩
  exact mt (install_keeps_committed_iff _ 0 _ _ _ _ legitimate).mp (by decide +kernel)

def wholeState : SnapshotInstallRequest :=
  ⟨2, "a", "a:1", 2, threeMembers, secondLeader.engine.replicationSnapshot⟩

def appendBehind : Option AppendEntriesRequest :=
  appendRequest { secondLeader with
    replication := secondLeader.replication.recordAppendResult secondLeader.config
      committedFollower.config.nodeId true 2 2 secondLeader.config.nodeId }
    committedFollower.config.nodeId

/-- The follower has applied both entries, and asks for the second one again. -/
theorem append_behind_is_refused :
    (committedFollower.handleInstall 0 wholeState).1.engine.lastAppliedSequence = 2 ∧
      appendBehind.map (fun request =>
        ((committedFollower.handleInstall 0 wholeState).1.handleAppend 0 request).2.toOption) =
          some (some ⟨2, false, 1⟩) := by
  decide +kernel

theorem append_after_install_second :
    appendBehind.isSome ∧ ∀ request, appendBehind = some request → ∃ reply,
      ((committedFollower.handleInstall 0 wholeState).1.handleAppend 0 request).2 = .ok reply ∧
        reply.accepted = false := by
  refine ⟨by decide +kernel, fun request built => ?_⟩
  have behind : appendBehind.map AppendEntriesRequest.prevSequence = some 2 := by decide +kernel
  rw [built] at behind
  obtain ⟨reply, answered, refused, -⟩ := append_after_install_refused secondLeader
    committedFollower 0 0 2 2 2 wholeState rfl Nat.two_pos request built (Option.some.inj behind)
  exact ⟨reply, answered, refused⟩

end Samples

end Vaylix
