import Vaylix.Cluster.Progress

/-!
# Terms and votes on disk

What a voter would restart with is what it acts on, so terms never go back, whenever nodes
crash.
-/

namespace Vaylix

open LabelledRun

def Node.saved (node : Node) : Nat × Option NodeId :=
  match node.persisted with
  | some written => (written.currentTerm, written.votedFor)
  | none => (0, none)

theorem Persists.ballot_eq {voters : Finset NodeId} {state : Ballots.State NodeId} {id : NodeId}
    {node : Node} (stored : Persists voters state id node.persisted) :
    state.ballot id = ⟨node.saved.1, node.saved.2⟩ := by
  unfold Node.saved
  revert stored
  cases node.persisted with
  | none => exact fun fresh => fresh
  | some written => exact fun stored => stored.1

namespace Cluster

variable [Codec]

theorem run_onward {voters : Finset NodeId} {start cluster : Cluster} {events : List ClusterEvent}
    (elected : start.Elected voters) (bounded : Meets Cluster.step TermsBounded start events)
    (reached : run Cluster.step start events = some cluster) :
    cluster.Elected voters ∧ cluster.voters = start.voters ∧ ∀ id ∈ start.voters,
      (start.nodes id).replication.currentTerm ≤ (cluster.nodes id).replication.currentTerm := by
  induction events generalizing start with
  | nil =>
    obtain rfl : start = cluster := by simpa using reached
    exact ⟨elected, rfl, fun _ _ => le_rfl⟩
  | cons event rest ih =>
    obtain ⟨next, taken, following⟩ := (run_cons_eq_some _).mp reached
    obtain ⟨state, elects⟩ := elected
    have same := (acts_of_step taken).2.alike.1
    obtain ⟨elected, kept, terms⟩ :=
      ih (elects.step bounded.1 taken) (bounded.2 next taken) following
    refine ⟨elected, kept.trans same, fun id member => ?_⟩
    exact (elects.onward bounded.1 taken member).term.trans (terms id (same ▸ member))

/-- **Terms never go back, and votes are kept.** In every run, with crashes and restarts at any
time, each voter has saved the term and the vote it acts on. -/
theorem terms_saved (ids : List NodeId) (configs : NodeId → ReplicationConfig)
    (options : EngineOptions) (startMs : Nat)
    (configured : ∀ id ∈ ids, Configured ids.toFinset id (configs id))
    (earlier later : List ClusterEvent) (middle cluster : Cluster)
    (bounded : Meets Cluster.step TermsBounded (initial ids configs options startMs)
      (earlier ++ later))
    (before : run Cluster.step (initial ids configs options startMs) earlier = some middle)
    (after : run Cluster.step middle later = some cluster) {id : NodeId} (member : id ∈ ids) :
    (middle.nodes id).replication.currentTerm ≤ (cluster.nodes id).replication.currentTerm ∧
      (cluster.nodes id).saved = ((cluster.nodes id).replication.currentTerm,
        (cluster.nodes id).replication.votedFor) := by
  obtain ⟨elected, same, -⟩ := run_onward ⟨_, elects_initial configured options startMs⟩
    (meets_left _ bounded) before
  have here : id ∈ middle.voters := same ▸ member
  obtain ⟨⟨state, elects⟩, kept, terms⟩ :=
    run_onward elected (meets_append _ bounded before) after
  have stands := elects.nodes id (kept ▸ here)
  obtain ⟨term, vote⟩ :=
    Ballots.Ballot.mk.inj (stands.stored.ballot_eq.symm.trans stands.current.ballot)
  exact ⟨terms id here, Prod.ext term vote⟩

end Cluster

open Sample Cluster in
/-- The first leader crashes and votes for the third voter in the next term. -/
theorem terms_saved_crash :
    ∃ middle cluster, run Cluster.step threeVoters (twoElections.take 7) = some middle ∧
      run Cluster.step middle (twoElections.drop 7) = some cluster ∧
      (cluster.nodes "a").saved = (2, some "c") ∧
      (middle.nodes "a").replication.currentTerm ≤ (cluster.nodes "a").replication.currentTerm ∧
        (cluster.nodes "a").saved = ((cluster.nodes "a").replication.currentTerm,
          (cluster.nodes "a").replication.votedFor) := by
  have runs : ∃ middle ∈ run Cluster.step threeVoters (twoElections.take 7),
      ∃ cluster ∈ run Cluster.step middle (twoElections.drop 7),
        (cluster.nodes "a").saved = (2, some "c") := by decide +kernel
  obtain ⟨middle, before, cluster, after, voted⟩ := runs
  exact ⟨middle, cluster, before, after, voted, terms_saved _ _ _ _ (configured_equalVoter _ _)
    (twoElections.take 7) (twoElections.drop 7) middle cluster (by decide +kernel) before after
    (by decide)⟩

end Vaylix
