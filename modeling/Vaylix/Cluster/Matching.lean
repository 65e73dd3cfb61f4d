import Vaylix.Cluster.Rollbacks
import Vaylix.Lib.LogTree
import Vaylix.Server.SentAppend

/-!
# Logs that share an entry

A request names the entry before the ones it carries; a pull round compares sequences only. As
long as each pull continues along a log that has the follower's last entry, and no leader
writes an entry again that it has taken back, all logs are branches of one tree.
-/

namespace Vaylix

open LabelledRun LogTree NumberedLog

namespace Cluster

variable [Codec]

/-- A call of a leader puts no entry into the log that was written before. -/
def WritesAnew (cluster : Cluster) (id : NodeId) (action : EngineAction) : Prop :=
  ∀ entry ∈ (action.perform (cluster.writer id)).walEntries,
    entry ∈ (cluster.nodes id).engine.walEntries ∨ entry ∉ cluster.written

/-- The log of a voter has the last entry of a node and continues with the fetched ones. -/
def Continues (cluster : Cluster) (id : NodeId) (entries : List WalEntry) : Prop :=
  ∃ source ∈ cluster.voters,
    (∀ last ∈ (cluster.nodes id).engine.walEntries.getLast?,
      last ∈ (cluster.nodes source).engine.walEntries) ∧
    ∀ entry ∈ entries, (cluster.nodes id).engine.lastAppliedSequence < entry.sequence →
      entry ∈ (cluster.nodes source).engine.walEntries

/-- Fetched entries continue the log, no entry is written again, and terms do not
saturate. -/
def Anchored (cluster : Cluster) : ClusterEvent → Prop
  | .candidacy id => cluster.TermsBounded (.candidacy id)
  | .noop id createdAtMs => cluster.WritesAnew id (.noop createdAtMs)
  | .write id action => cluster.WritesAnew id action
  | .fetched id _ entries => cluster.Continues id entries
  | _ => True

instance decidableContinues (cluster : Cluster) (id : NodeId) (entries : List WalEntry) :
    Decidable (cluster.Continues id entries) := by
  unfold Continues
  infer_instance

instance decidableWritesAnew (cluster : Cluster) (id : NodeId) (action : EngineAction) :
    Decidable (cluster.WritesAnew id action) := by
  unfold WritesAnew
  infer_instance

instance decidableAnchored (cluster : Cluster) (event : ClusterEvent) :
    Decidable (cluster.Anchored event) := by
  induction event using ClusterEvent.casesOn <;> unfold Anchored <;> infer_instance

variable {cluster next : Cluster} {event : ClusterEvent}

theorem Anchored.termsBounded (anchored : cluster.Anchored event) : cluster.TermsBounded event := by
  cases event with
  | candidacy id => exact anchored
  | _ => trivial

theorem Anchored.writesAnew (anchored : cluster.Anchored event) {id : NodeId}
    {action : EngineAction} (calls : event.call = some (id, action)) :
    cluster.WritesAnew id action := by
  cases event with
  | noop id createdAtMs =>
    cases calls
    exact anchored
  | write id action =>
    cases calls
    exact anchored
  | _ => cases calls

theorem Acts.written_eq (acts : cluster.Acts event next) {id : NodeId} {action : EngineAction}
    (calls : event.call = some (id, action)) :
    next.written = (action.perform (cluster.writer id)).walEntries ++ cluster.written := by
  cases acts with
  | noop id createdAtMs can =>
    cases calls
    rfl
  | write id action can =>
    cases calls
    rfl
  | _ => cases calls

/-- The logs of the nodes and of requests in flight are branches of a tree. -/
structure Branches (cluster : Cluster) (paths : Set (List WalEntry)) : Prop where
  tree : Branching paths
  numbered : ∀ path ∈ paths, From WalEntry.sequence 1 path
  written : ∀ path ∈ paths, path ⊆ cluster.written
  logs : ∀ id ∈ cluster.voters, (cluster.nodes id).engine.walEntries ∈ paths
  requests : ∀ target request, .append target request ∈ cluster.network →
    ∃ path ∈ paths, request.CutFrom path

namespace Branches

variable {paths : Set (List WalEntry)} {id : NodeId}

variable (branches : cluster.Branches paths)
include branches

theorem tookOver (tells : ChecksumsTell cluster.written) (whole : (cluster.nodes id).engine.Whole)
    (member : id ∈ cluster.voters) {nowMs : Nat} {request : AppendEntriesRequest} {engine : Engine}
    (inFlight : .append id request ∈ cluster.network)
    (takes : (cluster.nodes id).TakesOver nowMs request)
    (took : (cluster.nodes id).engine.TookOver request.baseSequence request.entries engine) :
    ∃ path ∈ paths, engine.walEntries = path.take request.lastSequence := by
  obtain ⟨path, known, cut⟩ := branches.requests id request inFlight
  have own := branches.logs id member
  have ownWritten := branches.written _ own
  have pathWritten := branches.written path known
  have carried : request.entries ⊆ cluster.written :=
    fun entry inside => pathWritten (List.mem_of_mem_drop (cut.entries.subset inside))
  have agree : request.prevSequence ≤ (cluster.nodes id).engine.walEntries.length ∧
      (cluster.nodes id).engine.walEntries.take request.prevSequence =
        path.take request.prevSequence := by
    rcases Nat.eq_zero_or_pos request.prevSequence with zero | positive
    · rw [zero]
      exact ⟨Nat.zero_le _, rfl⟩
    · obtain ⟨entry, here, there⟩ := tells.previous_eq whole ownWritten pathWritten
        (branches.numbered path known) takes cut positive
      have same := branches.tree.take_eq own known here there
      have inside := (List.getElem?_eq_some_iff.mp here).1
      rw [Nat.sub_add_cancel positive] at same
      exact ⟨by omega, same⟩
  exact ⟨path, known, took.walEntries_eq whole cut (tells.recognizes ownWritten carried)
    agree.1 agree.2⟩

theorem pulled (whole : (cluster.nodes id).engine.Whole) (member : id ∈ cluster.voters)
    {entries fetched log : List WalEntry} (continues : cluster.Continues id entries)
    (among : ∀ entry ∈ fetched, entry ∈ entries) (numbered : From WalEntry.sequence 1 log)
    (here : log = (cluster.nodes id).engine.walEntries ++ fetched) : log ∈ paths := by
  obtain ⟨source, voter, anchored, present⟩ := continues
  have own := branches.logs id member
  have theirs := branches.logs source voter
  have begins := branches.tree.isPrefix_of_last_mem own theirs anchored
  refine branches.tree.front _ theirs _
    (numbered.isPrefix_of_subset (branches.numbered _ theirs) ?_)
  intro entry inside
  rw [here] at inside numbered
  rcases List.mem_append.mp inside with old | new
  · exact begins.subset old
  · have later := ((from_append.mp numbered).2.mem_bounds new).1
    rw [← whole.position] at later
    exact present entry (among entry new) (by omega)

theorem log_step (tells : ChecksumsTell cluster.written) (anchored : cluster.Anchored event)
    (whole : (cluster.nodes id).engine.Whole) (member : id ∈ cluster.voters) {after : Node}
    (moved : cluster.LogMoved event id after) :
    after.engine.walEntries ∈ paths ∨ ∃ action, event.call = some (id, action) ∧
      after.engine = action.perform (cluster.writer id) ∧
      (cluster.nodes id).engine.walEntries <+: after.engine.walEntries := by
  have own := branches.logs id member
  cases moved.change with
  | same log => exact .inl (log ▸ own)
  | written entries leads unlocked log terms term calls =>
    obtain ⟨action, called, engine⟩ := calls
    exact .inr ⟨action, called, engine, log ▸ List.prefix_append _ _⟩
  | tookOver nowMs request happens inFlight unlocked heeds takes took term role =>
    obtain ⟨path, known, log⟩ := branches.tookOver tells whole member inFlight takes took
    exact .inl (log ▸ branches.tree.take_mem known _)
  | pulled status entries fetched happens inFlight unlocked among log term =>
    subst happens
    exact .inl (branches.pulled whole member anchored among moved.whole.numbered log)
  | cut nowMs happens locked log term => exact .inl (log ▸ branches.tree.take_mem own _)

/-- **A step that is anchored keeps all logs in a tree.** -/
theorem step (tells : ChecksumsTell cluster.written) (anchored : cluster.Anchored event)
    (logsWhole : cluster.LogsWhole)
    (clustered : ∀ id ∈ cluster.voters, (cluster.nodes id).replication.role ≠ .standalone)
    (taken : cluster.step event = some next) : ∃ grown, next.Branches grown := by
  obtain ⟨members, acts⟩ := acts_of_step taken
  obtain ⟨voters_eq, -⟩ := acts.alike
  obtain ⟨-, writtenMore, -⟩ := acts.history
  have moved : ∀ id ∈ cluster.voters, cluster.LogMoved event id (next.nodes id) :=
    fun id member => logsWhole.change clustered taken member
  have logs : ∀ id ∈ cluster.voters, _ := fun id member =>
    branches.log_step tells anchored (logsWhole.whole id member) member (moved id member)
  have requests : ∀ target request, .append target request ∈ next.network →
      ∃ path ∈ paths, request.CutFrom path := by
    intro target request inside
    rcases acts.sent inside with before | ⟨id, rfl, built⟩
    · exact branches.requests target request before
    · have sender : (cluster.nodes id).published.engine.Whole :=
        logsWhole.whole id (members id rfl)
      exact ⟨_, branches.logs id (members id rfl), Node.cutFrom_of_appendRequest sender built⟩
  by_cases writes : ∃ id action, event.call = some (id, action) ∧ id ∈ cluster.voters ∧
      (next.nodes id).engine = action.perform (cluster.writer id) ∧
      (cluster.nodes id).engine.walEntries <+: (next.nodes id).engine.walEntries
  · obtain ⟨id, action, calls, member, engine, begins⟩ := writes
    have anew := anchored.writesAnew calls
    rw [WritesAnew, ← engine] at anew
    have record := acts.written_eq calls
    rw [← engine] at record
    have longer := (moved id member).whole
    have nodup : (next.nodes id).engine.walEntries.Nodup :=
      longer.numbered.pairwise.imp fun below same => by
        rw [same] at below
        exact Nat.lt_irrefl _ below
    refine ⟨grow paths (next.nodes id).engine.walEntries,
      branches.tree.grow (branches.logs id member) begins nodup ?_, ?_, ?_, ?_, ?_⟩
    · intro entry inside
      refine (anew entry inside).imp_right ?_
      intro unwritten path known there
      exact unwritten (branches.written path known there)
    · rintro path (known | isFront)
      · exact branches.numbered path known
      · rw [List.prefix_iff_eq_take.mp isFront]
        exact longer.numbered.take _
    · rintro path (known | isFront)
      · exact List.Subset.trans (branches.written path known) writtenMore
      · rw [record]
        exact List.Subset.trans isFront.subset (List.subset_append_left _ _)
    · rw [voters_eq]
      intro other voter
      rcases logs other voter with kept | ⟨otherAction, otherCalls, -⟩
      · exact .inl kept
      · obtain ⟨rfl, -⟩ := Prod.mk.inj (Option.some.inj (calls.symm.trans otherCalls))
        exact .inr List.prefix_rfl
    · intro target request inside
      obtain ⟨path, known, cut⟩ := requests target request inside
      exact ⟨path, .inl known, cut⟩
  · refine ⟨paths, branches.tree, branches.numbered, ?_, ?_, requests⟩
    · exact fun path known => List.Subset.trans (branches.written path known) writtenMore
    · rw [voters_eq]
      intro id member
      refine (logs id member).resolve_right ?_
      rintro ⟨action, calls, engine, begins⟩
      exact writes ⟨id, action, calls, member, engine, begins⟩

end Branches

/-- The logs branch as long as checksums tell the written entries apart. -/
structure Grown (voters : Finset NodeId) (cluster : Cluster) : Prop where
  elected : cluster.Elected voters
  whole : cluster.LogsWhole
  branches : ChecksumsTell cluster.written → ∃ paths, cluster.Branches paths

/-- An anchored step keeps the logs in a tree. -/
theorem Grown.step {voters : Finset NodeId} (grown : cluster.Grown voters)
    (anchored : cluster.Anchored event) (taken : cluster.step event = some next) :
    next.Grown voters := by
  obtain ⟨state, elects⟩ := grown.elected
  have clustered : ∀ id ∈ cluster.voters, (cluster.nodes id).replication.role ≠ .standalone :=
    fun id member => (elects.nodes id member).current.clustered
  refine ⟨elects.step anchored.termsBounded taken, grown.whole.step clustered taken, ?_⟩
  intro tells
  have writtenMore := (acts_of_step taken).2.history.2.1
  have before : ChecksumsTell cluster.written := fun one oneIn two twoIn =>
    tells one (writtenMore oneIn) two (writtenMore twoIn)
  obtain ⟨paths, branches⟩ := grown.branches before
  exact branches.step before anchored grown.whole clustered taken

end Cluster

section Runs

open Sample Cluster

end Runs

end Vaylix
