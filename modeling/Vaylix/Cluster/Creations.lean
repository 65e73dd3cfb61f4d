import Vaylix.Cluster.Quorums

/-!
# Which entries are created

A leader numbers its entries from the end of its log. A rollback takes the end back, so the
leader may create a second entry with one term and sequence. Where it takes back no entry of
its term, they name one entry.
-/

namespace Vaylix

open Ballots LabelledRun NumberedLog

namespace Cluster

variable [Codec] {cluster next : Cluster} {event : ClusterEvent} {made : List (NodeId × WalEntry)}

def creates (cluster : Cluster) (event : ClusterEvent) (next : Cluster) :
    List (NodeId × WalEntry) :=
  match event.call with
  | none => []
  | some (id, _) =>
    ((next.logOf id).drop (cluster.logOf id).length).map fun entry => (id, entry)

def created (cluster : Cluster) : List ClusterEvent → List (NodeId × WalEntry)
  | [] => []
  | event :: rest =>
    match cluster.step event with
    | none => []
    | some next => next.created rest ++ cluster.creates event next

/-- A leader takes back no entry of its term. -/
def KeepsTerm (cluster : Cluster) : ClusterEvent → Prop
  | .candidacy id => cluster.TermsBounded (.candidacy id)
  | .rollback id _ => (cluster.nodes id).replication.role = .leader →
      ∀ entry ∈ cluster.logOf id, (cluster.nodes id).replication.commitSequence < entry.sequence →
        entry.term ≠ (cluster.nodes id).replication.currentTerm
  | _ => True

instance (cluster : Cluster) (event : ClusterEvent) : Decidable (cluster.KeepsTerm event) := by
  induction event using ClusterEvent.casesOn <;> unfold KeepsTerm <;> infer_instance

omit [Codec] in
theorem KeepsTerm.termsBounded (keeps : cluster.KeepsTerm event) : cluster.TermsBounded event := by
  cases event with
  | candidacy id => exact keeps
  | _ => trivial

theorem mem_creates (taken : cluster.step event = some next)
    {author : NodeId} {entry : WalEntry} (made : (author, entry) ∈ cluster.creates event next) :
    author ∈ cluster.voters ∧ (next.nodes author).replication.role = .leader ∧
      entry.term = (next.nodes author).replication.currentTerm ∧ entry ∈ next.logOf author := by
  obtain ⟨members, acts⟩ := acts_of_step taken
  have written : ∀ {id : NodeId} {action : EngineAction}, event.call = some (id, action) →
      id ∈ cluster.voters → cluster.CanWrite id action →
      next.nodes id = cluster.writtenNode id action →
      author ∈ cluster.voters ∧ (next.nodes author).replication.role = .leader ∧
        entry.term = (next.nodes author).replication.currentTerm ∧
        entry ∈ next.logOf author := by
    intro id action calls member can here
    simp only [creates, calls, List.mem_map, Prod.mk.injEq] at made
    obtain ⟨_, new, rfl, rfl⟩ := made
    have appended := Engine.Appended.perform (cluster.writer id) can.plain can.succeeds
    have log : next.logOf id = cluster.logOf id ++ action.logged (cluster.writer id) := by
      rw [logOf, here]
      exact appended.log
    have same := ReplicationState.sameStanding_publish (cluster.nodes id).config
      (cluster.nodes id).replication (action.perform (cluster.writer id)).lastAppliedState
    rw [log, List.drop_left] at new
    refine ⟨member, ?_, ?_, log ▸ List.mem_append_right _ new⟩ <;> rw [here]
    · exact same.role.trans can.leads
    · exact (appended.terms _ new).trans same.currentTerm.symm
  cases acts with
  | noop id _ can | write id _ can =>
    exact written rfl (members id rfl) can (Function.update_self ..)
  | _ => cases made

/-- An entry that was created belongs to a term of its author, and is in the author's log while
the author leads in that term. -/
structure Authored (voters : Finset NodeId) (cluster : Cluster)
    (made : List (NodeId × WalEntry)) : Prop where
  elected : cluster.Elected voters
  whole : cluster.LogsWhole
  led : ∀ id ∈ cluster.voters, (cluster.nodes id).replication.role = .leader →
    ∃ election ∈ cluster.elections, election.node = id ∧
      election.term = (cluster.nodes id).replication.currentTerm
  won : ∀ author entry, (author, entry) ∈ made →
    ∃ election ∈ cluster.elections, election.node = author ∧ election.term = entry.term
  kept : ∀ author entry, (author, entry) ∈ made → author ∈ cluster.voters ∧
    (entry.term < (cluster.nodes author).replication.currentTerm ∨
      (entry.term = (cluster.nodes author).replication.currentTerm ∧
        (cluster.nodes author).replication.role ≠ .candidate ∧
        ((cluster.nodes author).replication.role = .leader → entry ∈ cluster.logOf author)))

theorem LogChange.mem {id : NodeId} {entry : WalEntry}
    (change : cluster.LogChange event id (next.nodes id)) (whole : (cluster.nodes id).engine.Whole)
    (keeps : cluster.KeepsTerm event) (leads : (cluster.nodes id).replication.role = .leader)
    (stays : (next.nodes id).replication.role = .leader) (logged : entry ∈ cluster.logOf id)
    (term : entry.term = (cluster.nodes id).replication.currentTerm) : entry ∈ next.logOf id := by
  rw [logOf]
  cases change with
  | same log => rwa [log]
  | written entries _ _ log => rw [log]; exact List.mem_append_left _ logged
  | pulled _ _ fetched _ _ _ _ log => rw [log]; exact List.mem_append_left _ logged
  | tookOver _ _ _ _ _ _ _ _ _ role =>
    rw [stays] at role
    cases role
  | cut nowMs happens locked log =>
    subst happens
    have below : entry.sequence ≤ (cluster.nodes id).replication.commitSequence :=
      Nat.not_lt.mp fun above => keeps leads entry logged above term
    rw [log, ← whole.logUpTo_eq]
    exact List.mem_filter.mpr ⟨logged, decide_eq_true below⟩

namespace Authored

variable {voters : Finset NodeId}

/-- Created entries stay with their authors. -/
theorem step (authored : cluster.Authored voters made) (keeps : cluster.KeepsTerm event)
    (taken : cluster.step event = some next) :
    next.Authored voters (cluster.creates event next ++ made) := by
  obtain ⟨state, elects⟩ := authored.elected
  obtain ⟨-, acts⟩ := acts_of_step taken
  obtain ⟨voters_eq, -⟩ := acts.alike
  obtain ⟨elections, -⟩ := acts.history
  have clustered : ∀ id ∈ cluster.voters, (cluster.nodes id).replication.role ≠ .standalone :=
    fun id member => (elects.nodes id member).current.clustered
  have onward : ∀ id ∈ cluster.voters, cluster.Onward next id :=
    fun id member => elects.onward keeps.termsBounded taken member
  have led : ∀ id ∈ next.voters, (next.nodes id).replication.role = .leader →
      ∃ election ∈ next.elections, election.node = id ∧
        election.term = (next.nodes id).replication.currentTerm := by
    rw [voters_eq]
    exact fun id member => led_step authored.led elections member (onward id member)
  refine ⟨elects.step keeps.termsBounded taken, authored.whole.step clustered taken, led, ?_, ?_⟩
  · intro author entry among
    rcases List.mem_append.mp among with new | old
    · obtain ⟨member, leads, term, -⟩ := mem_creates taken new
      obtain ⟨election, inside, named, same⟩ := led author (voters_eq ▸ member) leads
      exact ⟨election, inside, named, same.trans term.symm⟩
    · obtain ⟨election, inside, rest⟩ := authored.won author entry old
      exact ⟨election, elections inside, rest⟩
  · intro author entry among
    rw [voters_eq]
    rcases List.mem_append.mp among with new | old
    · obtain ⟨member, leads, term, logged⟩ := mem_creates taken new
      exact ⟨member, .inr ⟨term, by rw [leads]; decide, fun _ => logged⟩⟩
    obtain ⟨member, past | ⟨term, running, logged⟩⟩ := authored.kept author entry old
    · exact ⟨member, .inl (past.trans_le (onward author member).term)⟩
    refine ⟨member, ?_⟩
    rcases Nat.lt_or_eq_of_le (term.le.trans (onward author member).term) with past | same
    · exact .inl past
    refine .inr ⟨same, fun runs => running ((onward author member).runs
      (same.symm.trans term) runs), fun leads => ?_⟩
    have led : (cluster.nodes author).replication.role = .leader :=
      ((onward author member).leads leads).2.resolve_right fun ran => running ran.1
    exact (authored.whole.change clustered taken member).change.mem
      (authored.whole.whole author member) keeps led leads (logged led) term

end Authored

end Cluster

section Runs

open Sample Cluster

end Runs

end Vaylix
