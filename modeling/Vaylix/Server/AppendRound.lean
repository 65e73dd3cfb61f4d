import Vaylix.Replication.Voters
import Vaylix.Server.AppendHandler

/-!
# A leader sends entries

A round of `send_cluster_appends_locked` publishes the leader's position and sends every other
voter the entries after the one it is believed to have. The snapshot for a voter that lacks
older entries is not modelled.
-/

namespace Vaylix

namespace Node

def published [Codec] (node : Node) : Node :=
  { node with replication := node.replication.publish node.config node.engine.lastAppliedState }

/-- The other voters, and the sequence before the next one each of them is sent. -/
def peerPlans (node : Node) : List (ClusterMember × Nat) :=
  ((voterMembers node.replication.members).filter fun member =>
    decide (member.nodeId ≠ node.config.nodeId)).map fun member =>
      (member, node.replication.followerNextSequence member.nodeId - 1)

variable [Codec]

def cachedEntries (node : Node) : Except EngineError (List WalEntry) :=
  let localSequence := node.engine.lastAppliedSequence
  let minPrevSequence := ((node.peerPlans.map Prod.snd).min?).getD localSequence
  let cacheAfterSequence := minPrevSequence - 1
  let cacheLimit := max (localSequence - cacheAfterSequence + node.config.fetchBatchSize)
    node.config.fetchBatchSize
  node.engine.walEntriesSince cacheAfterSequence cacheLimit

def appendRequest (node : Node) (target : NodeId) : Option AppendEntriesRequest :=
  match node.replication.leaderHeartbeatPayload node.config,
      node.peerPlans.find? fun plan => decide (plan.1.nodeId = target), node.cachedEntries with
  | some payload, some (_, prevSequence), .ok cached =>
    let entries := (cached.filter fun entry => decide (prevSequence < entry.sequence)).take
      node.config.fetchBatchSize
    let request : Option Nat → Option UInt32 → AppendEntriesRequest := fun prevTerm prevChecksum =>
      ⟨payload.term, payload.leaderNodeId, payload.leaderAddr, payload.commitSequence,
        payload.leaderFrontierSequence, prevSequence, prevTerm, prevChecksum, entries,
        payload.members⟩
    if prevSequence = 0 then some (request none none)
    else (entryAt cached prevSequence).map fun prevEntry =>
      request (some prevEntry.term) (some prevEntry.checksum)
  | _, _, _ => none

def handleAppendReply (node : Node) (follower : NodeId) (term : Nat)
    (response : AppendEntriesResponse) : Node :=
  if term < response.term then node.after (node.replication.observeRemoteTerm response.term)
  else
    let recorded := node.replication.recordAppendResult node.config follower response.accepted
      response.matchSequence term node.config.nodeId
    { node with replication := recorded }

end Node

end Vaylix
