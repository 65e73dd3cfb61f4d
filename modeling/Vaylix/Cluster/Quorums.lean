import Vaylix.Cluster.Counts
import Vaylix.Cluster.Rollbacks
import Vaylix.Server.SentAppend

/-!
# What a majority holds

An acknowledged position means the leader's entries only as long as the leader gives no
sequence out again that others have seen, no late request takes entries from a follower that
the leader still has, and no outdated position is published. Then a commit point that rises is
held by a majority.
-/

namespace Vaylix

open LabelledRun Majority NumberedLog ReplicationState

namespace Cluster

variable [Codec]

/-- No sequence is given out again that others have seen, a request takes nothing from a follower
that its sender has, and no position is published that the log does not reach. -/
def Retaining (cluster : Cluster) : ClusterEvent → Prop
  | .candidacy id => cluster.TermsBounded (.candidacy id)
  | .noop id _ | .write id _ => ∀ entry ∈ cluster.shared,
      entry.sequence ≤ (cluster.nodes id).engine.lastAppliedSequence
  | .livenessSend id => ∀ report ∈ cluster.reports id,
      report.lastAppliedSequence ≤ (cluster.nodes id).engine.lastAppliedSequence
  | .append id nowMs request => (cluster.nodes id).TakesOver nowMs request →
      ∀ entry ∈ (cluster.nodes id).engine.walEntries, request.lastSequence < entry.sequence →
        entry ∉ (cluster.nodes request.leaderNodeId).engine.walEntries
  | _ => True

instance decidableRetaining (cluster : Cluster) (event : ClusterEvent) :
    Decidable (cluster.Retaining event) := by
  induction event using ClusterEvent.casesOn <;> unfold Retaining <;> infer_instance

variable {cluster next : Cluster} {event : ClusterEvent} {leader follower : NodeId}

theorem Retaining.termsBounded (retaining : cluster.Retaining event) :
    cluster.TermsBounded event := by
  cases event with
  | candidacy id => exact retaining
  | _ => trivial

theorem Retaining.sequence_le (retaining : cluster.Retaining event) {id : NodeId}
    {action : EngineAction} (calls : event.call = some (id, action)) :
    ∀ entry ∈ cluster.shared, entry.sequence ≤ (cluster.nodes id).engine.lastAppliedSequence := by
  cases event with
  | noop id createdAtMs =>
    cases calls
    exact retaining
  | write id action =>
    cases calls
    exact retaining
  | _ => cases calls

/-- A follower that has reached a sequence still has what the leader has up to there. -/
def Holds (cluster : Cluster) (leader follower : NodeId) (sequence : Nat) : Prop :=
  follower = leader ∨ sequence = 0 ∨ (follower ∈ cluster.voters ∧
    min sequence (cluster.logOf leader).length ≤ (cluster.logOf follower).length ∧
    ∃ entry ∈ cluster.shared, sequence ≤ entry.sequence)

def Backs (cluster : Cluster) (leader : NodeId) : Message → Prop
  | .append target request => target ≠ leader ∧ request.leaderNodeId = leader ∧
      request.entries ⊆ cluster.shared
  | .appendResponse _ source _ response => response.accepted = true →
      cluster.Holds leader source response.matchSequence
  | .status _ report => report.leaderNodeId = leader
  | .fetched target report entries => report.leaderNodeId = leader ∧ entries ⊆ cluster.shared ∧
      (target = leader → entries = [])
  | .ack _ source applied _ => cluster.Holds leader source applied
  | _ => True

/-- All entries come from one leader, and what was acknowledged is held of its log. -/
structure Sole (cluster : Cluster) (leader : NodeId) : Prop where
  lead : ∀ entry ∈ cluster.shared, entry.sequence ≤ (cluster.logOf leader).length →
    entry ∈ cluster.logOf leader
  others : ∀ id ∈ cluster.voters, id ≠ leader → cluster.logOf id ⊆ cluster.shared
  locked : ∀ id ∈ cluster.voters, cluster.locks id ≠ none → id = leader
  messages : ∀ message ∈ cluster.network, cluster.Backs leader message
  position : (cluster.nodes leader).replication.localLastAppliedSequence ≤
    (cluster.logOf leader).length
  recorded : (cluster.nodes leader).replication.role = .leader → ∀ id,
    cluster.Holds leader id ((cluster.nodes leader).replication.matchOf id)

/-- What is known before a step: the logs are whole and only one node leads. -/
structure Settled (cluster : Cluster) (leader : NodeId) : Prop where
  whole : cluster.LogsWhole
  clustered : ∀ id ∈ cluster.voters, (cluster.nodes id).replication.role ≠ .standalone
  member : leader ∈ cluster.voters
  named : (cluster.nodes leader).config.nodeId = leader
  only : ∀ id ∈ cluster.voters, (cluster.nodes id).replication.role = .leader → id = leader

namespace Sole

variable (sole : cluster.Sole leader) (settled : cluster.Settled leader)
  (retaining : cluster.Retaining event) (taken : cluster.step event = some next)
include sole settled retaining taken

/-- The one leader's log grows, or is cut back. -/
theorem lead_step : next.logOf leader <+: cluster.logOf leader ∨
    (cluster.logOf leader <+: next.logOf leader ∧
      ∀ entry ∈ cluster.shared, entry.sequence ≤ (cluster.logOf leader).length) := by
  cases (settled.whole.change settled.clustered taken settled.member).change with
  | same log => exact .inl (by rw [logOf, log])
  | written entries leads unlocked log terms term calls =>
    obtain ⟨action, called, -⟩ := calls
    refine .inr ⟨?_, ?_⟩
    · rw [logOf, logOf, log]
      exact List.prefix_append _ _
    · rw [logOf, ← (settled.whole.whole leader settled.member).position]
      exact retaining.sequence_le called
  | tookOver nowMs request happens inFlight =>
    exact absurd rfl (sole.messages _ inFlight).1
  | pulled status entries fetched happens inFlight unlocked among log term =>
    have nothing := (sole.messages _ inFlight).2.2 rfl
    rw [nothing] at among
    have empty : fetched = [] := List.eq_nil_iff_forall_not_mem.mpr fun entry inside =>
      List.not_mem_nil (among entry inside)
    rw [empty, List.append_nil] at log
    exact .inl (by rw [logOf, log])
  | cut nowMs happens locked log term =>
    refine .inl ?_
    rw [logOf, log]
    exact List.take_prefix _ _

theorem log_step {id : NodeId} (member : id ∈ cluster.voters) (other : id ≠ leader) :
    next.logOf id ⊆ cluster.shared ∧ ∀ sequence,
      min sequence (cluster.logOf leader).length ≤ (cluster.logOf id).length →
        min sequence (cluster.logOf leader).length ≤ (next.logOf id).length := by
  have known := sole.others id member other
  have whole := settled.whole.whole id member
  have moved := settled.whole.change settled.clustered taken member
  cases moved.change with
  | same log =>
    have unchanged : next.logOf id = cluster.logOf id := log
    rw [unchanged]
    exact ⟨known, fun _ reached => reached⟩
  | written entries leads => exact absurd (settled.only id member leads) other
  | tookOver nowMs request happens inFlight unlocked heeds takes took term role =>
    subst happens
    obtain ⟨-, sender, carried⟩ := sole.messages _ inFlight
    refine ⟨?_, ?_⟩
    · intro entry inside
      exact (took.mem_or inside).elim (known ·) (carried ·)
    · intro sequence reached
      have reaches : request.lastSequence ≤ (next.logOf id).length := by
        rw [logOf, ← moved.whole.position, took.position]
        exact Nat.add_le_add_right (settled.whole.carried id request inFlight).begins _
      by_contra short
      -- The follower has an entry behind the end of the request, and so has the leader.
      have inside : request.lastSequence < (cluster.logOf id).length := by omega
      have found := List.getElem?_eq_getElem inside
      have place := whole.sequence_eq found
      have present := List.mem_of_getElem? found
      refine retaining takes _ present (by omega) ?_
      rw [sender]
      exact sole.lead _ (known present) (by omega)
  | pulled status entries fetched happens inFlight unlocked among log term =>
    obtain ⟨-, carried, -⟩ := sole.messages _ inFlight
    rw [logOf, log]
    refine ⟨?_, ?_⟩
    · intro entry inside
      exact (List.mem_append.mp inside).elim (known ·) fun new => carried (among entry new)
    · intro sequence reached
      rw [List.length_append]
      exact reached.trans (Nat.le_add_right _ _)
  | cut nowMs happens locked => exact absurd (sole.locked id member locked) other

omit retaining in
theorem shared_step {entry : WalEntry} (shown : entry ∈ next.shared) :
    entry ∈ cluster.shared ∨
      (entry ∈ cluster.logOf leader ∧ next.logOf leader = cluster.logOf leader) := by
  obtain ⟨members, acts⟩ := acts_of_step taken
  cases acts with
  | candidacy id =>
    rcases List.mem_append.mp shown with mine | before
    · by_cases same : id = leader
      · subst same
        refine .inr ⟨mine, logOf_eq_of_update rfl ?_ id⟩
        rfl
      · exact .inl (sole.others id (members id rfl) same mine)
    · exact .inl before
  | appendSend id target request built =>
    obtain ⟨cached, ⟨leads, -⟩⟩ := Node.builds_of_appendRequest built
    obtain rfl := settled.only id (members id rfl)
      ((sameStanding_publish _ _ _).role.symm.trans leads)
    refine (List.mem_append.mp shown).symm.imp_right fun mine => ⟨?_, ?_⟩
    · exact (List.mem_filter.mp mine).1
    · refine logOf_eq_of_update rfl ?_ id
      rfl
  | fetch id report entries inFlight observed read =>
    have sender : report.leaderNodeId = leader := sole.messages _ inFlight
    rw [sender] at read
    refine (List.mem_append.mp shown).symm.imp_right fun mine => ⟨?_, rfl⟩
    obtain ⟨size, -, since⟩ := (settled.whole.whole leader settled.member).walEntriesSince_eq
      (cluster.nodes id).engine.lastAppliedSequence (cluster.nodes id).config.fetchBatchSize
    rw [since] at read
    cases read
    exact List.mem_of_mem_drop (List.mem_of_mem_take mine)
  | _ => exact .inl shown

/-- What a follower holds of the leader's log it keeps. -/
theorem holds_step {sequence : Nat} (holds : cluster.Holds leader follower sequence) :
    next.Holds leader follower sequence := by
  obtain ⟨-, acts⟩ := acts_of_step taken
  rcases holds with same | zero | ⟨member, reached, entry, shown, below⟩
  · exact .inl same
  · exact .inr (.inl zero)
  by_cases other : follower = leader
  · exact .inl other
  have bound : min sequence (next.logOf leader).length ≤
      min sequence (cluster.logOf leader).length := by
    rcases sole.lead_step settled retaining taken with cut | ⟨-, unseen⟩
    · exact min_le_min_left sequence cut.length_le
    · have := unseen entry shown
      omega
  refine .inr (.inr ⟨acts.alike.1 ▸ member, bound.trans ?_, entry, acts.history.2.2 shown, below⟩)
  exact (sole.log_step settled retaining taken member other).2 sequence reached

theorem holds_length {id : NodeId} (member : id ∈ cluster.voters) :
    next.Holds leader id (next.logOf id).length := by
  obtain ⟨-, acts⟩ := acts_of_step taken
  by_cases other : id = leader
  · exact .inl other
  rcases Nat.eq_zero_or_pos (next.logOf id).length with zero | positive
  · exact .inr (.inl zero)
  have whole := (settled.whole.change settled.clustered taken member).whole
  have found := List.getElem?_eq_getElem (Nat.sub_lt positive Nat.one_pos)
  refine .inr (.inr ⟨acts.alike.1 ▸ member, Nat.min_le_left _ _, _, acts.history.2.2
    ((sole.log_step settled retaining taken member other).1 (List.mem_of_getElem? found)), ?_⟩)
  rw [whole.sequence_eq found]
  omega

/-- Messages go on to say what their senders have. -/
theorem messages_step : ∀ message ∈ next.network, next.Backs leader message := by
  obtain ⟨members, acts⟩ := acts_of_step taken
  have more := acts.history.2.2
  intro message inside
  rcases acts.sent inside with before | sends
  · have backed := sole.messages message before
    cases message with
    | append target request => exact ⟨backed.1, backed.2.1, List.Subset.trans backed.2.2 more⟩
    | appendResponse target source term response =>
      exact fun accepted => sole.holds_step settled retaining taken (backed accepted)
    | status target report => exact backed
    | fetched target report entries =>
      exact ⟨backed.1, List.Subset.trans backed.2.1 more, backed.2.2⟩
    | ack target source applied term => exact sole.holds_step settled retaining taken backed
    | _ => trivial
  · cases message with
    | append target request =>
      obtain ⟨id, rfl, built⟩ := sends
      obtain ⟨cached, ⟨leads, -, named, -⟩⟩ := Node.builds_of_appendRequest built
      obtain rfl := settled.only id (members id rfl)
        ((sameStanding_publish _ _ _).role.symm.trans leads)
      have away := Node.target_of_appendRequest built
      have config : (cluster.nodes id).published.config.nodeId = id := settled.named
      refine ⟨config ▸ away, named.trans config, ?_⟩
      cases acts with
      | appendSend id target sent builtAgain =>
        obtain rfl : sent = request := Option.some.inj (builtAgain.symm.trans built)
        have cut := Node.cutFrom_of_appendRequest (by exact settled.whole.whole id settled.member)
          built
        intro entry carried
        have bounds := cut.numbered.mem_bounds carried
        refine List.mem_append_left _ (List.mem_filter.mpr ⟨?_, decide_eq_true (by omega)⟩)
        exact List.mem_of_mem_drop (cut.entries.subset carried)
    | appendResponse target source term response =>
      obtain ⟨nowMs, request, rfl, -, -, handled⟩ := sends
      intro accepted
      cases acts with
      | append id nowMs request messages inFlight unlocked sent =>
        have moved :
            ((cluster.setNode source ((cluster.nodes source).handleAppend nowMs request).1).send
              messages).nodes source = _ :=
          Function.update_self ..
        have member := members source rfl
        rcases Node.handleAppend_cases (settled.clustered source member) nowMs request with
          ⟨-, -, -, refused⟩ | ⟨-, takes, reached, done, -, -, -, answer⟩
        · exact absurd (accepted.symm.trans (refused response handled)) (by decide)
        have here := settled.whole.whole source member
        obtain ⟨-, rfl⟩ := Node.tookOver here.logged (settled.whole.carried source request inFlight)
          takes done
        have whole := (settled.whole.change settled.clustered taken member).whole
        rw [answer response handled, ← congrArg (fun node : Node => node.engine.lastAppliedSequence)
          moved, whole.position]
        exact sole.holds_length settled retaining taken member
    | status target report =>
      obtain ⟨id, rfl, reported⟩ := sends
      unfold ReplicationState.leaderStatus at reported
      split at reported <;> cases reported
      rename_i leads
      obtain rfl := settled.only id (members id rfl) (not_not.mp leads)
      exact settled.named
    | fetched target report entries =>
      obtain ⟨rfl, inFlight, -, read⟩ := sends
      have sender : report.leaderNodeId = leader := sole.messages _ inFlight
      have whole := settled.whole.whole leader settled.member
      refine ⟨sender, ?_, ?_⟩
      · cases acts with
        | fetch id report sent inFlight observed readAgain =>
          obtain rfl : sent = entries := Except.ok.inj (readAgain.symm.trans read)
          exact List.subset_append_left _ _
      · rintro rfl
        obtain ⟨size, -, since⟩ := whole.walEntriesSince_eq
          (cluster.nodes target).engine.lastAppliedSequence
          (cluster.nodes target).config.fetchBatchSize
        rw [sender, since, whole.position, List.drop_length, List.take_nil] at read
        exact (Except.ok.inj read).symm
    | ack target source applied term =>
      obtain ⟨report, entries, node, rfl, -, -, done⟩ := sends
      have member := members source rfl
      have here := settled.whole.whole source member
      have moved : next.nodes source = node := by
        cases acts with
        | fetched id report entries reached position inFlight unlocked doneAgain =>
          obtain ⟨rfl, -⟩ := Prod.mk.inj (Option.some.inj (doneAgain.symm.trans done))
          exact Function.update_self ..
      have whole := (settled.whole.change settled.clustered taken member).whole
      have position : applied = node.engine.lastAppliedSequence := by
        rcases Node.applyFetched_cases here done with ⟨rfl, rfl⟩ |
          ⟨engine, fetched, -, -, -, rfl, rfl⟩
        · rfl
        · rfl
      rw [position, ← moved, whole.position]
      exact sole.holds_length settled retaining taken member
    | _ => trivial

/-- **All entries still come from the one leader after a step.** -/
theorem step (onward : ∀ id ∈ cluster.voters, cluster.Onward next id) : next.Sole leader := by
  obtain ⟨members, acts⟩ := acts_of_step taken
  have voters_eq := acts.alike.1
  have here := settled.whole.whole leader settled.member
  have numbered : From WalEntry.sequence 1 (cluster.logOf leader) := here.numbered
  have counted := settled.whole.counted settled.clustered taken settled.member
  have moved := settled.whole.change settled.clustered taken settled.member
  refine ⟨?_, ?_, ?_, sole.messages_step settled retaining taken, ?_, ?_⟩
  · intro entry inside within
    rcases sole.shared_step settled taken inside with old | ⟨mine, unchanged⟩
    · rcases sole.lead_step settled retaining taken with cut | ⟨grown, unseen⟩
      · have before := sole.lead entry old (within.trans cut.length_le)
        exact numbered.mem_of_isPrefix cut before (by omega)
      · exact grown.subset (sole.lead entry old (unseen entry old))
    · rw [unchanged]
      exact mine
  · rw [voters_eq]
    intro id member other
    exact List.Subset.trans (sole.log_step settled retaining taken member other).1
      acts.history.2.2
  · rw [voters_eq]
    intro id member locked
    rcases (onward id member).lock with free | kept | ⟨leads, -⟩
    · exact absurd free locked
    · exact sole.locked id member (kept ▸ locked)
    · exact settled.only id member leads
  · rcases counted.position with ⟨same, engine⟩ | reported | ⟨rfl, read, engine⟩
    · have position : (next.nodes leader).replication.localLastAppliedSequence = _ :=
        congrArg LogAppendResult.lastAppliedSequence same
      rw [logOf, engine, position]
      exact sole.position
    · have position : (next.nodes leader).replication.localLastAppliedSequence = _ :=
        congrArg LogAppendResult.lastAppliedSequence reported
      rw [position]
      exact moved.whole.position.le
    · have reached : (next.nodes leader).replication.localLastAppliedSequence ≤ _ :=
        retaining _ read
      rw [logOf, engine, ← here.position]
      exact reached
  · intro leads id
    rcases counted.progress leads id with ⟨led, same⟩ | zero | credited
    · rw [same]
      exact sole.holds_step settled retaining taken (sole.recorded led id)
    · exact .inr (.inl zero)
    · rcases credited with ⟨response, -, inFlight, accepted, reached⟩ | ⟨-, inFlight⟩
      · rw [← reached]
        exact sole.holds_step settled retaining taken (sole.messages _ inFlight accepted)
      · exact sole.holds_step settled retaining taken (sole.messages _ inFlight)

end Sole

/-- The node of every election so far leads the only log that is written to. -/
structure Steered (voters : Finset NodeId) (leader : NodeId) (config : ReplicationConfig)
    (cluster : Cluster) : Prop where
  elected : cluster.Elected voters
  whole : cluster.LogsWhole
  votes : leader ∈ voters
  members : ∀ id ∈ voters, id ∈ cluster.voters
  config : (cluster.nodes leader).config = config
  led : ∀ id ∈ cluster.voters, (cluster.nodes id).replication.role = .leader →
    ∃ election ∈ cluster.elections, election.node = id
  sole : (∀ election ∈ cluster.elections, election.node = leader) → cluster.Sole leader

namespace Steered

variable {voters : Finset NodeId} {config : ReplicationConfig}

theorem settled (steered : cluster.Steered voters leader config)
    (alone : ∀ election ∈ cluster.elections, election.node = leader) : cluster.Settled leader := by
  obtain ⟨state, elects⟩ := steered.elected
  refine ⟨steered.whole, fun id member => (elects.nodes id member).current.clustered,
    steered.members leader steered.votes,
    (elects.nodes leader (steered.members leader steered.votes)).configured.named, ?_⟩
  intro id member leads
  obtain ⟨election, won, named⟩ := steered.led id member leads
  exact named.symm.trans (alone election won)

theorem step (steered : cluster.Steered voters leader config)
    (retaining : cluster.Retaining event) (taken : cluster.step event = some next) :
    next.Steered voters leader config := by
  obtain ⟨state, elects⟩ := steered.elected
  have clustered : ∀ id ∈ cluster.voters, (cluster.nodes id).replication.role ≠ .standalone :=
    fun id member => (elects.nodes id member).current.clustered
  obtain ⟨-, acts⟩ := acts_of_step taken
  have voters_eq := acts.alike.1
  have elections := acts.history.1
  have onward : ∀ id ∈ cluster.voters, cluster.Onward next id :=
    fun id member => elects.onward retaining.termsBounded taken member
  refine ⟨elects.step retaining.termsBounded taken, steered.whole.step clustered taken,
    steered.votes, voters_eq ▸ steered.members, ?_, ?_, ?_⟩
  · have member := steered.members leader steered.votes
    rw [(steered.whole.counted clustered taken member).config, steered.config]
  · rw [voters_eq]
    intro id member leads
    obtain ⟨-, before | ⟨-, won⟩⟩ := (onward id member).leads leads
    · obtain ⟨election, won, named⟩ := steered.led id member before
      exact ⟨election, elections won, named⟩
    · exact ⟨_, won, rfl⟩
  · intro alone
    have before : ∀ election ∈ cluster.elections, election.node = leader :=
      fun election won => alone election (elections won)
    exact (steered.sole before).step (steered.settled before) retaining taken onward

end Steered

end Cluster

section Runs

open Sample Cluster

def acknowledgeWrite : List ClusterEvent :=
  electFirst 1 0 none ++
    [.noop "a" 0, .write "a" (.batch 0 [.set "x" [49] {}]), .appendSend "a" "b",
      .append "b" 0 committedRequest]

end Runs

end Vaylix
