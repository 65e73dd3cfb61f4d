import Vaylix.Cluster.Progress

/-!
# What a rollback may remove

A rollback takes the log back to the commit point, which a restart loses and an outdated
leader does not learn of. Where it removes entries of the current term only, and no later term
has a leader, it removes nothing that was ever committed.

A write looks at the role, reads the term and runs on the engine in steps of its own, and a
rollback reads the commit point before it cuts the log. The apply lock keeps the handlers out
meanwhile, but not replies, and `RESTORE FROM` does not take it.
-/

namespace Vaylix

open Ballots LabelledRun

namespace Cluster

variable [Codec] {cluster next : Cluster} {event : ClusterEvent}

/-- A rollback removes entries of the current term of its node only, and no node has been elected
in a later one. Fetched entries are of no later term than their node. -/
def Sparing (cluster : Cluster) : ClusterEvent → Prop
  | .candidacy id => cluster.TermsBounded (.candidacy id)
  | .fetched id _ entries => ∀ entry ∈ entries,
      entry.term ≤ (cluster.nodes id).replication.currentTerm
  | .rollback id _ =>
      (∀ entry ∈ (cluster.nodes id).engine.walEntries,
        (cluster.nodes id).replication.commitSequence < entry.sequence →
          entry.term = (cluster.nodes id).replication.currentTerm) ∧
      ∀ election ∈ cluster.elections,
        election.term ≤ (cluster.nodes id).replication.currentTerm
  | _ => True

instance decidableSparing (cluster : Cluster) (event : ClusterEvent) :
    Decidable (cluster.Sparing event) := by
  induction event using ClusterEvent.casesOn <;> unfold Sparing <;> infer_instance

omit [Codec] in
theorem Sparing.termsBounded (sparing : cluster.Sparing event) : cluster.TermsBounded event := by
  cases event with
  | candidacy id => exact sparing
  | _ => trivial

omit [Codec] in
theorem led_step (led : ∀ id ∈ cluster.voters, (cluster.nodes id).replication.role = .leader →
      ∃ election ∈ cluster.elections, election.node = id ∧
        election.term = (cluster.nodes id).replication.currentTerm)
    (elections : cluster.elections ⊆ next.elections) {id : NodeId} (member : id ∈ cluster.voters)
    (onward : cluster.Onward next id) (leads : (next.nodes id).replication.role = .leader) :
    ∃ election ∈ next.elections, election.node = id ∧
      election.term = (next.nodes id).replication.currentTerm := by
  obtain ⟨term, before | ⟨-, elected⟩⟩ := onward.leads leads
  · obtain ⟨election, inside, named, sameTerm⟩ := led id member before
    exact ⟨election, elections inside, named, sameTerm.trans term.symm⟩
  · exact ⟨_, elected, rfl, term.symm⟩

/-- Entries are of no later term than their node or request. A node that has the lock and an entry
of its term has been elected in it. -/
structure Dated (cluster : Cluster) : Prop where
  whole : cluster.LogsWhole
  led : ∀ id ∈ cluster.voters, (cluster.nodes id).replication.role = .leader →
    ∃ election ∈ cluster.elections, election.node = id ∧
      election.term = (cluster.nodes id).replication.currentTerm
  logs : ∀ id ∈ cluster.voters, ∀ entry ∈ (cluster.nodes id).engine.walEntries,
    entry.term ≤ (cluster.nodes id).replication.currentTerm
  requests : ∀ target request, .append target request ∈ cluster.network →
    ∀ entry ∈ request.entries, entry.term ≤ request.term
  locked : ∀ id ∈ cluster.voters, cluster.locks id ≠ none →
    ∀ entry ∈ (cluster.nodes id).engine.walEntries,
      entry.term = (cluster.nodes id).replication.currentTerm →
        ∃ election ∈ cluster.elections, election.node = id ∧
          election.term = (cluster.nodes id).replication.currentTerm

theorem dated_initial (ids : List NodeId) (configs : NodeId → ReplicationConfig)
    (options : EngineOptions) (startMs : Nat)
    (follow : ∀ id ∈ ids, (ReplicationState.new (configs id) none).role = .follower) :
    (initial ids configs options startMs).Dated := by
  refine ⟨logsWhole_initial ids configs options startMs, ?_, ?_, ?_, ?_⟩
  · intro id member leads
    have role : ((initial ids configs options startMs).nodes id).replication.role = .follower :=
      (ReplicationState.sameStanding_publish _ _ _).role.trans (follow id member)
    rw [role] at leads
    cases leads
  · rintro id - entry ⟨⟩
  · rintro target request ⟨⟩
  · rintro id - locked
    exact absurd rfl locked

namespace Dated

/-- No entry is of a later term than its node. -/
theorem log_step (dated : cluster.Dated) (sparing : cluster.Sparing event) {id : NodeId}
    (member : id ∈ cluster.voters) (onward : cluster.Onward next id)
    (change : cluster.LogChange event id (next.nodes id)) :
    ∀ entry ∈ (next.nodes id).engine.walEntries,
      entry.term ≤ (next.nodes id).replication.currentTerm := by
  intro entry inside
  have before := dated.logs id member
  cases change with
  | same log =>
    rw [log] at inside
    exact (before entry inside).trans onward.term
  | written entries leads unlocked log terms term =>
    rw [log] at inside
    rcases List.mem_append.mp inside with old | new
    · exact (before entry old).trans onward.term
    · rw [terms entry new, term]
  | tookOver nowMs request happens inFlight unlocked heeds takes took term role =>
    rcases took.mem_or inside with old | new
    · exact (before entry old).trans onward.term
    · rw [term]
      exact dated.requests id request inFlight entry new
  | pulled status entries fetched happens inFlight unlocked among log term =>
    rw [log] at inside
    rcases List.mem_append.mp inside with old | new
    · exact (before entry old).trans onward.term
    · subst happens
      rw [term]
      exact sparing entry (among entry new)
  | cut nowMs happens locked log term =>
    rw [log] at inside
    exact (before entry (List.mem_of_mem_take inside)).trans onward.term

theorem mem_of_locked {id : NodeId} {after : Node} (change : cluster.LogChange event id after)
    (locked : cluster.locks id ≠ none) {entry : WalEntry}
    (inside : entry ∈ after.engine.walEntries) :
    entry ∈ (cluster.nodes id).engine.walEntries := by
  cases change with
  | same log => exact log ▸ inside
  | cut nowMs happens held log term =>
    rw [log] at inside
    exact List.mem_of_mem_take inside
  | written entries leads unlocked => exact absurd unlocked locked
  | tookOver nowMs request happens inFlight unlocked => exact absurd unlocked locked
  | pulled status entries fetched happens inFlight unlocked => exact absurd unlocked locked

theorem step {voters : Finset NodeId} {state : State NodeId} (dated : cluster.Dated)
    (elects : cluster.Elects voters state) (sparing : cluster.Sparing event)
    (taken : cluster.step event = some next) : next.Dated := by
  have clustered : ∀ id ∈ cluster.voters, (cluster.nodes id).replication.role ≠ .standalone :=
    fun id member => (elects.nodes id member).current.clustered
  obtain ⟨members, acts⟩ := acts_of_step taken
  obtain ⟨voters_eq, -⟩ := acts.alike
  obtain ⟨elections, -⟩ := acts.history
  have onward : ∀ id ∈ cluster.voters, cluster.Onward next id :=
    fun id member => elects.onward sparing.termsBounded taken member
  have changes : ∀ id ∈ cluster.voters, cluster.LogChange event id (next.nodes id) :=
    fun id member => (dated.whole.change clustered taken member).change
  refine ⟨dated.whole.step clustered taken, ?_, ?_, ?_, ?_⟩ <;> try rw [voters_eq]
  · exact fun id member => led_step dated.led elections member (onward id member)
  · exact fun id member => dated.log_step sparing member (onward id member) (changes id member)
  · intro target request inside entry carried
    rcases acts.sent inside with before | ⟨id, rfl, built⟩
    · exact dated.requests target request before entry carried
    · have logged : (cluster.nodes id).published.engine.Logged :=
        (dated.whole.whole id (members id rfl)).logged
      obtain ⟨cached, ⟨-, term, -⟩⟩ := Node.builds_of_appendRequest built
      rw [term, Node.published, (ReplicationState.sameStanding_publish _ _ _).currentTerm]
      exact dated.logs id (members id rfl) entry
        ((Node.carriedFrom_of_appendRequest logged built).1.members entry carried)
  · intro id member locked entry inside sameTerm
    rcases (onward id member).lock with unlocked | kept | ⟨leads, term⟩
    · exact absurd unlocked locked
    · rw [kept] at locked
      have old := mem_of_locked (changes id member) locked inside
      have term : (next.nodes id).replication.currentTerm =
          (cluster.nodes id).replication.currentTerm :=
        le_antisymm (sameTerm ▸ dated.logs id member entry old) (onward id member).term
      obtain ⟨election, won, named, reached⟩ :=
        dated.locked id member locked entry old (sameTerm.trans term)
      exact ⟨election, elections won, named, reached.trans term.symm⟩
    · obtain ⟨election, won, named, reached⟩ := dated.led id member leads
      exact ⟨election, elections won, named, reached.trans term.symm⟩

end Dated

/-- A node that has led a term with this commit point keeps it until the term is over, or has lost
the office and the lock. -/
def HoldsCommit (id : NodeId) (term sequence : Nat) (cluster : Cluster) : Prop :=
  term < (cluster.nodes id).replication.currentTerm ∨
    ((cluster.nodes id).replication.currentTerm = term ∧
      (cluster.nodes id).replication.role ≠ .candidate ∧
      (sequence ≤ (cluster.nodes id).replication.commitSequence ∨
        ((cluster.nodes id).replication.role ≠ .leader ∧ cluster.locks id = none)))

omit [Codec] in
/-- A commit point is kept as long as its term lasts. -/
theorem HoldsCommit.step {id : NodeId} {term sequence : Nat}
    (holds : HoldsCommit id term sequence cluster) (onward : cluster.Onward next id) :
    HoldsCommit id term sequence next := by
  rcases holds with past | ⟨here, running, commit⟩
  · exact .inl (past.trans_le onward.term)
  rcases Nat.lt_or_ge term (next.nodes id).replication.currentTerm with past | same
  · exact .inl past
  have now : (next.nodes id).replication.currentTerm =
      (cluster.nodes id).replication.currentTerm := le_antisymm (here ▸ same) onward.term
  refine .inr ⟨now.trans here, fun runs => running (onward.runs now runs), ?_⟩
  rcases commit with reached | ⟨office, unlocked⟩
  · rcases onward.commit with kept | ⟨follows, released⟩
    · exact .inl (reached.trans kept)
    · exact .inr ⟨by rw [follows]; decide, released⟩
  · refine .inr ⟨?_, ?_⟩
    · intro leads
      rcases (onward.leads leads).2 with before | ⟨before, -⟩
      · exact office before
      · exact running before
    · rcases onward.lock with released | kept | ⟨leads, -⟩
      · exact released
      · exact kept.trans unlocked
      · exact absurd leads office

structure Orderly (voters : Finset NodeId) (cluster : Cluster) : Prop where
  elected : cluster.Elected voters
  dated : cluster.Dated

/-- Sparing events keep elections safe and entries dated. -/
theorem Orderly.step {voters : Finset NodeId} (orderly : cluster.Orderly voters)
    (sparing : cluster.Sparing event) (taken : cluster.step event = some next) :
    next.Orderly voters := by
  obtain ⟨state, elects⟩ := orderly.elected
  exact ⟨elects.step sparing.termsBounded taken, orderly.dated.step elects sparing taken⟩

theorem orderly_initial {ids : List NodeId} {configs : NodeId → ReplicationConfig}
    (configured : ∀ id ∈ ids, Configured ids.toFinset id (configs id)) (options : EngineOptions)
    (startMs : Nat) : (initial ids configs options startMs).Orderly ids.toFinset :=
  ⟨⟨_, elects_initial configured options startMs⟩,
    dated_initial ids configs options startMs fun id member => (configured id member).follows⟩

theorem mem_of_rollback {id : NodeId} {nowMs : Nat} {entry : WalEntry} (whole : cluster.LogsWhole)
    (taken : cluster.step (.rollback id nowMs) = some next)
    (present : entry ∈ (cluster.nodes id).engine.walEntries)
    (committed : cluster.locks id ≠ none →
      entry.sequence ≤ (cluster.nodes id).replication.commitSequence) :
    entry ∈ (next.nodes id).engine.walEntries := by
  obtain ⟨members, acts⟩ := acts_of_step taken
  have here := whole.whole id (members id rfl)
  cases acts with
  | rollbackFailed id nowMs frontier err locked failed => exact present
  | rollback id nowMs frontier replication engine locked done =>
    have moved : ((cluster.setLock id none).setNode id
        { cluster.nodes id with replication := replication, engine := engine }).nodes id = _ :=
      Function.update_self ..
    rw [moved]
    rcases rollbackUncommittedTail_cases here done with ⟨-, -, rfl⟩ | ⟨-, -, log, -⟩
    · exact present
    · rw [log, ← here.logUpTo_eq]
      exact List.mem_filter.mpr ⟨present,
        decide_eq_true (committed (by rw [locked]; rintro ⟨⟩))⟩

/-- The engine runs a call in a term, whatever the role is by then, and its position is
published. -/
def performIn (cluster : Cluster) (id : NodeId) (term : Nat) (action : EngineAction) :
    Option Cluster :=
  let node := cluster.nodes id
  let engine := node.engine.setConsensusTerm term
  if action.snapshots ∨ !action.succeeds engine then none
  else
    let written := { node with engine := action.perform engine }
    some { cluster.setNode id written.published with
      written := written.engine.walEntries ++ cluster.written }

theorem performIn_eq {id : NodeId} {action : EngineAction}
    (leads : (cluster.nodes id).replication.role = .leader) :
    cluster.performIn id (cluster.nodes id).replication.currentTerm action =
      cluster.performWrite id action := by
  simp [performIn, performWrite, leads]

/-- The end of a rollback that has read this commit point: the log is measured, cut and
published. -/
def endAt (cluster : Cluster) (id : NodeId) (locked : Bool) (commit nowMs : Nat) : Cluster :=
  let node := cluster.nodes id
  let unlocked := if locked then cluster.setLock id none else cluster
  if node.engine.lastAppliedSequence ≤ commit then unlocked
  else
    match node.engine.replaceReplicationSuffix nowMs commit [] with
    | .error _ => unlocked
    | .ok (engine, applied) =>
      unlocked.setNode id { node with
        replication := node.replication.publish node.config
          (engine.appliedStateForSequence applied)
        engine := engine }

theorem endAt_commitSequence (id : NodeId) (nowMs : Nat) :
    cluster.endAt id true (cluster.nodes id).replication.commitSequence nowMs =
      cluster.endByRollback id nowMs := by
  unfold endAt endByRollback rollbackUncommittedTail
  dsimp only
  split
  · simp [setNode, setLock]
  · split <;> simp_all

end Cluster

/-- `writes` have looked at the role, and have read the term or not; `rollbacks` have read the
commit point, with `true` if their write holds the apply lock. -/
structure RollbackCluster where
  cluster : Cluster
  writes : NodeId → Option (Option Nat)
  rollbacks : NodeId → List (Bool × Nat)

/-- `restore` is the call of a `RESTORE FROM` that has read the term before. -/
inductive RollbackEvent where
  | act (event : ClusterEvent)
  | checkRole (id : NodeId)
  | readTerm (id : NodeId)
  | perform (id : NodeId) (action : EngineAction)
  | abandon (id : NodeId)
  | restore (id : NodeId) (term : Nat) (action : EngineAction)
  | retreat (id : NodeId) (locked : Bool)
  | cut (id : NodeId) (locked : Bool) (commit nowMs : Nat)

def ClusterEvent.crashed : ClusterEvent → Option NodeId
  | .crash id _ | .voteCrash id _ _ _ _ => some id
  | _ => none

namespace RollbackCluster

variable [Codec] (state : RollbackCluster)

/-- Events that wait for the apply lock or a rollback, and those that take several steps here. -/
def blocks : ClusterEvent → Bool
  | .write _ _ | .rollback _ _ => true
  | .writeEnd id => (state.rollbacks id).any Prod.fst
  | .vote id _ _ | .voteCrash id _ _ _ _ | .heartbeat id _ | .append id _ _ | .fetched id _ _
  | .noop id _ => (state.writes id).isSome
  | _ => false

def forget : Option NodeId → RollbackCluster
  | none => state
  | some id => { state with
      writes := Function.update state.writes id none
      rollbacks := Function.update state.rollbacks id [] }

def setWrite (id : NodeId) (write : Option (Option Nat)) : RollbackCluster :=
  { state with writes := Function.update state.writes id write }

def setRollbacks (id : NodeId) (rollbacks : List (Bool × Nat)) : RollbackCluster :=
  { state with rollbacks := Function.update state.rollbacks id rollbacks }

def actOn : RollbackEvent → Option (NodeId × RollbackCluster)
  | .act _ => none
  | .checkRole id =>
    if state.cluster.locks id = none ∧ state.writes id = none ∧
        (state.cluster.nodes id).replication.role = .leader then
      some (id, state.setWrite id (some none))
    else none
  | .readTerm id =>
    if state.writes id = some none then
      some (id, state.setWrite id (some (some (state.cluster.nodes id).replication.currentTerm)))
    else none
  | .perform id action =>
    match state.writes id with
    | some (some term) =>
      if state.cluster.locks id = none then
        (state.cluster.performIn id term action).map fun written =>
          (id, { state.setWrite id none with
            cluster := written.setLock id (some (written.nodes id).engine.lastAppliedSequence) })
      else none
    | _ => none
  | .abandon id => if (state.writes id).isSome then some (id, state.setWrite id none) else none
  | .restore id term action =>
    (state.cluster.performIn id term action).map fun written =>
      (id, { state with cluster := written })
  | .retreat id locked =>
    let commit := (state.cluster.nodes id).replication.commitSequence
    if locked = true → (∃ frontier ∈ state.cluster.locks id, commit < frontier) ∧
        (state.rollbacks id).any Prod.fst = false then
      some (id, state.setRollbacks id ((locked, commit) :: state.rollbacks id))
    else none
  | .cut id locked commit nowMs =>
    if (locked, commit) ∈ state.rollbacks id then
      some (id, { state.setRollbacks id ((state.rollbacks id).erase (locked, commit)) with
        cluster := state.cluster.endAt id locked commit nowMs })
    else none

def step : RollbackEvent → Option RollbackCluster
  | .act event =>
    if state.blocks event then none
    else (state.cluster.step event).map fun next =>
      { state with cluster := next }.forget event.crashed
  | event => (state.actOn event).bind fun (id, next) =>
      if id ∈ state.cluster.voters then some next else none

def idle (cluster : Cluster) : RollbackCluster := ⟨cluster, fun _ => none, fun _ => []⟩

/-- Nothing is restored from a file. A write finds the node in the office and the term that it has
seen. A rollback finds the commit point that it has read and holds the apply lock, and it and all
other events are sparing. -/
def Sparing : RollbackEvent → Prop
  | .act event => state.cluster.Sparing event
  | .perform id _ => (state.cluster.nodes id).replication.role = .leader ∧
      state.writes id = some (some (state.cluster.nodes id).replication.currentTerm)
  | .restore _ _ _ => False
  | .cut id locked commit nowMs => locked = true ∧
      commit = (state.cluster.nodes id).replication.commitSequence ∧
      (∃ frontier ∈ state.cluster.locks id, commit < frontier) ∧
      state.cluster.Sparing (.rollback id nowMs)
  | _ => True

instance decidableSparing (event : RollbackEvent) :
    Decidable (state.Sparing event) := by
  induction event using RollbackEvent.casesOn <;> unfold Sparing <;> infer_instance

variable {state} {next : RollbackCluster} {event : RollbackEvent}

omit [Codec] in
theorem forget_cluster (crashed : Option NodeId) :
    (state.forget crashed).cluster = state.cluster := by
  cases crashed <;> rfl

/-- The other steps happen on a voter. -/
theorem exists_actOn
    (taken : ((state.actOn event).bind fun (id, after) =>
      if id ∈ state.cluster.voters then some after else none) = some next) :
    ∃ id ∈ state.cluster.voters, state.actOn event = some (id, next) := by
  obtain ⟨⟨id, after⟩, acted, voter⟩ := Option.bind_eq_some_iff.mp taken
  obtain ⟨member, same⟩ := Option.ite_none_right_eq_some.mp voter
  cases same
  exact ⟨id, member, acted⟩

/-- A cut at the commit point it has read is the rollback of the cluster. -/
theorem cut_eq {id : NodeId} {locked : Bool} {commit nowMs : Nat}
    (sparing : state.Sparing (.cut id locked commit nowMs))
    (taken : state.step (.cut id locked commit nowMs) = some next) :
    state.cluster.step (.rollback id nowMs) = some next.cluster := by
  obtain ⟨rfl, rfl, ⟨frontier, held, above⟩, -⟩ := sparing
  obtain ⟨actor, member, acted⟩ := exists_actOn taken
  simp only [actOn] at acted
  split at acted <;> cases acted
  simp only [Cluster.step, ClusterEvent.actor, Option.all_some, member, decide_true, if_true,
    Cluster.act, Option.mem_def.mp held, Nat.not_le.mpr above, if_false]
  rw [Cluster.endAt_commitSequence]

/-- A call in the current term of a leader is the write of the cluster. -/
theorem perform_eq {id : NodeId} {action : EngineAction}
    (sparing : state.Sparing (.perform id action))
    (taken : state.step (.perform id action) = some next) :
    state.cluster.step (.write id action) = some next.cluster := by
  obtain ⟨leads, write⟩ := sparing
  obtain ⟨actor, member, acted⟩ := exists_actOn taken
  simp only [actOn, write, Cluster.performIn_eq leads] at acted
  split at acted
  swap
  · cases acted
  rename_i unlocked
  obtain ⟨written, performed, same⟩ := Option.map_eq_some_iff.mp acted
  cases same
  simp only [Cluster.step, ClusterEvent.actor, Option.all_some, member, decide_true, if_true,
    Cluster.act, unlocked, performed, Option.map_some]

/-- A step leaves the cluster alone or is one of its own. -/
theorem simulates (sparing : state.Sparing event) (taken : state.step event = some next) :
    next.cluster = state.cluster ∨ ∃ acted, state.cluster.Sparing acted ∧
      state.cluster.step acted = some next.cluster := by
  cases event with
  | act event =>
    simp only [step] at taken
    split at taken
    · cases taken
    obtain ⟨after, acted, rfl⟩ := Option.map_eq_some_iff.mp taken
    rw [forget_cluster]
    exact .inr ⟨event, sparing, acted⟩
  | perform id action => exact .inr ⟨.write id action, trivial, perform_eq sparing taken⟩
  | cut id locked commit nowMs => exact .inr ⟨_, sparing.2.2.2, cut_eq sparing taken⟩
  | restore id term action => exact sparing.elim
  | checkRole _ | readTerm _ | abandon _ | retreat _ _ =>
    obtain ⟨actor, -, acted⟩ := exists_actOn taken
    simp only [actOn] at acted
    split at acted <;> cases acted
    exact .inl rfl

/-- What holds of a cluster that a sparing event of its own keeps. -/
theorem invariant {holds : Cluster → Prop} {events : List RollbackEvent}
    (kept : ∀ before event after, holds before → before.Sparing event →
      before.step event = some after → holds after)
    (initially : holds state.cluster) (sparing : Meets step Sparing state events)
    (reached : run step state events = some next) : holds next.cluster := by
  have preserved : ∀ before event after, holds before.cluster → Sparing before event →
      step before event = some after → holds after.cluster := by
    intro before event after held condition taken
    rcases simulates condition taken with same | ⟨acted, spares, moved⟩
    · exact same ▸ held
    · exact kept _ acted _ held spares moved
  exact invariant_of_meets preserved initially sparing reached

/-- A run keeps a commit point as long as its term lasts. -/
theorem holdsCommit {voters : Finset NodeId} {events : List RollbackEvent} {id : NodeId}
    {term sequence : Nat} (orderly : state.cluster.Orderly voters)
    (member : id ∈ state.cluster.voters) (sparing : Meets step Sparing state events)
    (reached : run step state events = some next)
    (holds : Cluster.HoldsCommit id term sequence state.cluster) :
    next.cluster.Orderly voters ∧ state.cluster.elections ⊆ next.cluster.elections ∧
      Cluster.HoldsCommit id term sequence next.cluster := by
  have kept : ∀ before event after, (before.Orderly voters ∧ id ∈ before.voters ∧
        state.cluster.elections ⊆ before.elections ∧
        Cluster.HoldsCommit id term sequence before) →
      before.Sparing event → before.step event = some after →
      (after.Orderly voters ∧ id ∈ after.voters ∧
        state.cluster.elections ⊆ after.elections ∧
        Cluster.HoldsCommit id term sequence after) := by
    rintro before event after ⟨orderly, member, elections, holds⟩ condition taken
    obtain ⟨-, acts⟩ := Cluster.acts_of_step taken
    obtain ⟨ballots, elects⟩ := orderly.elected
    exact ⟨orderly.step condition taken, acts.alike.1 ▸ member,
      List.Subset.trans elections acts.history.1,
      holds.step (elects.onward condition.termsBounded taken member)⟩
  obtain ⟨ends, -, elections, held⟩ := invariant kept
    ⟨orderly, member, List.Subset.refl _, holds⟩ sparing reached
  exact ⟨ends, elections, held⟩

/-- **A rollback removes nothing that any leader has had committed**, in every run whose steps
are sparing. -/
theorem rollback_spares_committed (ids : List NodeId) (configs : NodeId → ReplicationConfig)
    (options : EngineOptions) (startMs : Nat)
    (configured : ∀ id ∈ ids, Configured ids.toFinset id (configs id))
    (first second : List RollbackEvent) (earlier before after : RollbackCluster)
    (leader id : NodeId) (locked : Bool) (commit nowMs : Nat) (entry : WalEntry)
    (sparing : Meets step Sparing (idle (.initial ids configs options startMs))
      (first ++ (second ++ [.cut id locked commit nowMs])))
    (passed : run step (idle (.initial ids configs options startMs)) first = some earlier)
    (reached : run step earlier second = some before)
    (taken : before.step (.cut id locked commit nowMs) = some after)
    (voter : leader ∈ earlier.cluster.voters)
    (leads : (earlier.cluster.nodes leader).replication.role = .leader)
    (logged : entry ∈ (earlier.cluster.nodes leader).engine.walEntries)
    (committed : entry.sequence ≤ (earlier.cluster.nodes leader).replication.commitSequence)
    (present : entry ∈ (before.cluster.nodes id).engine.walEntries) :
    entry ∈ (after.cluster.nodes id).engine.walEntries := by
  have orderly : earlier.cluster.Orderly ids.toFinset :=
    invariant (fun _ _ _ orderly condition taken => orderly.step condition taken)
      (Cluster.orderly_initial configured options startMs) (meets_left _ sparing) passed
  have later := meets_append _ sparing passed
  have initially : Cluster.HoldsCommit leader
      (earlier.cluster.nodes leader).replication.currentTerm entry.sequence earlier.cluster :=
    .inr ⟨rfl, by rw [leads]; decide, .inl committed⟩
  obtain ⟨ends, elections, holds⟩ :=
    holdsCommit orderly voter (meets_left _ later) reached initially
  have condition : before.Sparing (.cut id locked commit nowMs) :=
    (meets_append _ later reached).1
  obtain ⟨ownTerm, latest⟩ := condition.2.2.2
  have rolledBack := cut_eq condition taken
  refine Cluster.mem_of_rollback ends.dated.whole rolledBack present ?_
  intro locked
  by_contra above
  have term := ownTerm entry present (Nat.not_le.mp above)
  obtain ⟨members, -⟩ := Cluster.acts_of_step rolledBack
  -- The entry belongs to the term of the node, so its leader was the node itself.
  obtain ⟨own, ownWon, ownNamed, ownTermWon⟩ :=
    ends.dated.locked id (members id rfl) locked entry present term
  obtain ⟨other, otherWon, otherNamed, otherTerm⟩ := orderly.dated.led leader voter leads
  have notLater := latest other (elections otherWon)
  have notEarlier := orderly.dated.logs leader voter entry logged
  have same : (earlier.cluster.nodes leader).replication.currentTerm =
      (before.cluster.nodes id).replication.currentTerm := by omega
  obtain ⟨state, elects⟩ := ends.elected
  obtain rfl : leader = id := by
    rw [← otherNamed, ← ownNamed]
    refine elects.safe.unique _ _ _ (elects.elections other (elections otherWon)) ?_
    have won := elects.elections own ownWon
    rwa [ownTermWon, ← same, ← otherTerm] at won
  rcases holds with past | ⟨-, -, kept | ⟨-, released⟩⟩
  · omega
  · exact above kept
  · exact locked released

end RollbackCluster

section Runs

open Sample RollbackCluster

def threeWriters : Cluster :=
  .initial ["a", "b", "c"] (equalVoter ["a", "b", "c"] 4) ⟨0, 0⟩ 0

def electFirst (term lastLogIndex : Nat) (lastLogTerm : Option Nat) : List ClusterEvent :=
  let request : VoteRequest := ⟨term, "a", "a", lastLogIndex, lastLogTerm, false⟩
  [.candidacy "a", .vote "b" false request, .voteReply "a" "b" request ⟨term, true⟩,
    .voteFailed "a" "c", .electionEnd "a"]

def committedWrite : WalEntry := ⟨2, 1, 0, [.set "x" [49] 1]⟩

def committedRequest : AppendEntriesRequest :=
  ⟨1, "a", "a", 0, 2, 0, none, none, [⟨1, 1, 0, []⟩, committedWrite],
    [⟨"a", "a", true⟩, ⟨"b", "b", true⟩, ⟨"c", "c", true⟩]⟩

def commitWrite : List ClusterEvent :=
  electFirst 1 0 none ++
    [.noop "a" 0, .write "a" (.batch 0 [.set "x" [49] {}]), .appendSend "a" "b",
      .append "b" 0 committedRequest, .appendReply "a" "b" 1 ⟨1, true, 2⟩, .writeEnd "a"]

def stagedEvents (events : List ClusterEvent) : List RollbackEvent :=
  events.flatMap fun
    | .write id action => [.checkRole id, .readTerm id, .perform id action]
    | event => [.act event]

def failingWrite : List RollbackEvent :=
  stagedEvents [.write "a" (.batch 0 [.set "y" [50] {}])] ++ [.retreat "a" true]

theorem rollback_spares_committed_write :
    ∃ earlier ∈ run step (idle threeWriters) (stagedEvents commitWrite),
      ∃ before ∈ run step earlier failingWrite,
        ∃ after ∈ before.step (.cut "a" true 2 0),
          (before.cluster.nodes "a").engine.walEntries.length = 3 ∧
          (after.cluster.nodes "a").engine.walEntries.length = 2 ∧
          committedWrite ∈ (after.cluster.nodes "a").engine.walEntries := by
  have ends : ∃ earlier ∈ run step (idle threeWriters) (stagedEvents commitWrite),
      "a" ∈ earlier.cluster.voters ∧ (earlier.cluster.nodes "a").replication.role = .leader ∧
      committedWrite ∈ (earlier.cluster.nodes "a").engine.walEntries ∧
      committedWrite.sequence ≤ (earlier.cluster.nodes "a").replication.commitSequence ∧
      ∃ before ∈ run step earlier failingWrite,
        committedWrite ∈ (before.cluster.nodes "a").engine.walEntries ∧
        (before.cluster.nodes "a").engine.walEntries.length = 3 ∧
        ∃ after ∈ before.step (.cut "a" true 2 0),
          (after.cluster.nodes "a").engine.walEntries.length = 2 := by decide +kernel
  obtain ⟨earlier, passed, voter, leads, logged, committed, before, reached, present, three, after,
    taken, two⟩ := ends
  exact ⟨earlier, passed, before, reached, after, taken, three, two,
    rollback_spares_committed _ _ _ _ (configured_equalVoter _ _) (stagedEvents commitWrite)
      failingWrite earlier before after "a" "a" true 2 0 committedWrite (by decide +kernel) passed
      reached taken voter leads logged committed present⟩

/-- **A rollback after a restart removes a committed write.** The leader of the first term is
elected again in the second, and gives up on a write before anything is committed in it. -/
theorem rollback_removes_committed_write :
    ∃ earlier ∈ run step (idle threeWriters) (stagedEvents commitWrite),
      (earlier.cluster.nodes "a").replication.role = .leader ∧
      committedWrite ∈ (earlier.cluster.nodes "a").engine.walEntries ∧
      committedWrite.sequence ≤ (earlier.cluster.nodes "a").replication.commitSequence ∧
      ∃ before ∈ run step earlier
          (stagedEvents (.crash "a" 1 :: electFirst 2 2 (some 1) ++ [.noop "a" 0]) ++
            failingWrite),
        committedWrite ∈ (before.cluster.nodes "a").engine.walEntries ∧
        ∃ after ∈ before.step (.cut "a" true 0 0),
          committedWrite ∉ (after.cluster.nodes "a").engine.walEntries := by
  decide +kernel

end Runs

end Vaylix
