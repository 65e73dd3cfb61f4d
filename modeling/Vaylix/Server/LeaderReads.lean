import Vaylix.Server.IndexExposure

/-!
# What a leader's reads reflect

An election does not advance the read index, nor do pull rounds, and an append advances it
only as far as the commit point was known. The first write the leader answers does: from then
on the index contains every acknowledged entry, if the log does. A write is acknowledged
without a look at the role, so that a node that leads no longer may acknowledge what the next
leader lacks.
-/

namespace Vaylix

open LabelledRun NumberedLog

/-- `acknowledged` are the entries answered to clients, by any leader; `inherited` is how much of
the log a leader has from before its election. -/
structure ReadingNode where
  indexed : IndexedNode
  acknowledged : List WalEntry
  inherited : Nat

inductive ReadEvent where
  | task (event : NodeEvent)
  | acknowledge (entries : List WalEntry)
  | answer (entry : WalEntry)
  | read (nowMs : Nat) (command : Command)

def NodeEvent.restarts : NodeEvent → Bool
  | .restart _ => true
  | _ => false

namespace ReadingNode

variable [Codec] (state : ReadingNode)

def role : ReplicationRole := state.indexed.node.replication.role

/-- The no-op of the leader's term is committed. -/
def noopCommitted : Bool :=
  let node := state.indexed.node
  node.engine.walEntries.any fun entry =>
    decide (entry.term = node.replication.currentTerm ∧ entry.operations = [] ∧
      entry.sequence ≤ node.replication.commitSequence)

/-- The loop of `advance_read_index_to` has ended. -/
def advancedTo (sequence : Nat) : Bool :=
  let node := state.indexed.node
  decide (sequence ≤ node.readIndex.committedSequence) ||
    decide ((node.engine.walEntriesSince node.readIndex.committedSequence
      node.config.fetchBatchSize).toOption = some [])

def elects (event : NodeEvent) : Bool :=
  match state.indexed.step event with
  | some next => decide (next.node.replication.role = .leader ∧
      (state.role ≠ .leader ∨ event.restarts = true))
  | none => false

/-- Other nodes acknowledge what they will; this one answers a write of its own once the commit
point and the index have reached it, whatever its role is by then. -/
def step : ReadEvent → Option ReadingNode
  | .task event => (state.indexed.step event).map fun next =>
      let length := next.node.engine.walEntries.length
      ⟨next, state.acknowledged,
        if state.elects event then length else min state.inherited length⟩
  | .acknowledge entries =>
    some { state with acknowledged := entries ++ state.acknowledged }
  | .answer entry =>
    if entry.sequence ≤ state.indexed.node.replication.commitSequence ∧
        state.advancedTo entry.sequence then
      some { state with acknowledged := entry :: state.acknowledged }
    else none
  | .read _ command =>
    if state.role = .leader ∧ state.noopCommitted ∧ command.isFastPathRead then some state
    else none

def initial (config : ReplicationConfig) (options : EngineOptions) (startMs : Nat) : ReadingNode :=
  ⟨IndexedNode.initial config options startMs, [], 0⟩

end ReadingNode

theorem ReadEntries.applyOperations_append {entries middle : ReadEntries}
    {first : List WalOperation} (ran : entries.applyOperations first = (middle, none))
    (second : List WalOperation) :
    entries.applyOperations (first ++ second) = middle.applyOperations second := by
  induction first generalizing entries with
  | nil =>
    cases ran
    rfl
  | cons operation rest ih =>
    simp only [ReadEntries.applyOperations] at ran
    simp only [List.cons_append, ReadEntries.applyOperations]
    cases applied : entries.applyOperation operation with
    | error err =>
      rw [applied] at ran
      cases ran
    | ok next =>
      rw [applied] at ran
      exact ih ran

namespace CommittedReadIndex

theorem applyEntries_ok {index next : CommittedReadIndex} {batch : List WalEntry} {first : Nat}
    (numbered : From WalEntry.sequence first batch) (gapless : first ≤ index.committedSequence + 1)
    (applied : index.applyEntries batch = (next, none)) :
    From WalEntry.sequence (index.committedSequence + 1) (index.touched batch) ∧
    next.committedSequence = index.committedSequence + (index.touched batch).length ∧
    index.entries.applyOperations ((index.touched batch).flatMap WalEntry.operations) =
      (next.entries, none) := by
  induction batch generalizing index first with
  | nil =>
    cases applied
    exact ⟨trivial, rfl, rfl⟩
  | cons entry rest ih =>
    obtain ⟨here, following⟩ := numbered
    rw [applyEntries] at applied
    rw [touched]
    by_cases old : entry.sequence ≤ index.committedSequence
    · rw [if_pos old] at applied ⊢
      exact ih following (by omega) applied
    · rw [if_neg old] at applied ⊢
      cases ran : index.entries.applyOperations entry.operations with
      | mk entries failure =>
      cases failure with
      | some err =>
        simp only [ran] at applied
        cases applied
      | none =>
        simp only [ran] at applied ⊢
        have position : entry.sequence = index.committedSequence + 1 := by omega
        obtain ⟨laterNumbered, length, content⟩ := @ih ⟨entries, entry.sequence⟩ _ following
          (by dsimp only; omega) applied
        refine ⟨⟨position, ?_⟩, ?_, ?_⟩
        · rw [← position]
          exact laterNumbered
        · rw [length, List.length_cons]
          dsimp only
          omega
        · rw [List.flatMap_cons, ReadEntries.applyOperations_append ran]
          exact content

/-- An index that ran the log and one rebuilt from its keyspace have the same entries. -/
theorem entries_eq_of_projects {first second : ReadEntries} {store : EngineStore}
    (one : first.Projects store) (other : second.Projects store) : first = second := by
  refine Std.ExtTreeMap.ext_getElem? ?_
  intro key
  rw [one key, other key]

end CommittedReadIndex

namespace IndexedNode

variable [Codec]

/-- The log keeps what the index has seen, and the index is shown entries that it can apply. -/
def Retains (state : IndexedNode) : NodeEvent → Prop
  | .message (.append _ request) => ∀ entry ∈ state.node.engine.walEntries,
      entry.sequence ≤ state.node.readIndex.committedSequence →
        entry.sequence ≤ request.baseSequence ∨ entry ∈ request.entries
  | .rollbackCut commit _ => state.node.readIndex.committedSequence ≤ commit
  | .apply batch => (state.node.readIndex.applyEntries batch).2 = none ∧
      ∀ entry ∈ batch, state.node.readIndex.committedSequence < entry.sequence →
        entry ∈ state.node.engine.walEntries
  | _ => True

instance decidableRetains (state : IndexedNode) (event : NodeEvent) :
    Decidable (state.Retains event) := by
  induction event using NodeEvent.casesOn with
  | message message =>
    induction message using LeaderMessage.casesOn <;> unfold Retains <;> infer_instance
  | _ => unfold Retains; infer_instance

/-- The index is the run of a front part of the log, and batches under way have no gap to it. -/
structure Follows (state : IndexedNode) : Prop where
  whole : state.node.engine.Whole
  numbered : From WalEntry.sequence 1 state.shown
  position : state.node.readIndex.committedSequence = state.shown.length
  content : ReadEntries.applyOperations ∅ (state.shown.flatMap WalEntry.operations) =
    (state.node.readIndex.entries, none)
  logged : ∀ entry ∈ state.shown, entry ∈ state.node.engine.walEntries
  gapless : ∀ batch ∈ state.batches, ∃ first,
    first ≤ state.node.readIndex.committedSequence + 1 ∧ From WalEntry.sequence first batch

namespace Follows

variable {state next : IndexedNode}

theorem initial (config : ReplicationConfig) (options : EngineOptions) (startMs : Nat) :
    (IndexedNode.initial config options startMs).Follows :=
  ⟨Engine.whole_create options startMs, trivial, rfl, rfl, by rintro entry ⟨⟩,
    by rintro batch ⟨⟩⟩

variable (follows : state.Follows)
include follows

theorem shown_bound {entry : WalEntry} (member : entry ∈ state.shown) :
    entry.sequence ≤ state.node.readIndex.committedSequence := by
  have := follows.numbered.mem_bounds member
  rw [follows.position]
  omega

theorem of_spares {event : NodeEvent} (taken : state.step event = some next)
    (other : ¬ indexes event) (spared : ∀ entry ∈ state.shown, Spares entry event) :
    next.Follows := by
  obtain ⟨shown, batches, index⟩ := index_step follows.whole other taken
  have kept := LogKept.step follows.whole taken
  refine ⟨kept.whole, shown ▸ follows.numbered, ?_, ?_, ?_, ?_⟩
  · rw [index, shown]
    exact follows.position
  · rw [index, shown]
    exact follows.content
  · rw [shown]
    exact fun entry member => kept.keeps entry (follows.logged entry member) (spared entry member)
  · rw [batches, index]
    exact follows.gapless

theorem isPrefix : state.shown <+: state.node.engine.walEntries :=
  follows.numbered.isPrefix_of_subset follows.whole.numbered follows.logged

theorem index_le :
    state.node.readIndex.committedSequence ≤ state.node.engine.walEntries.length :=
  follows.position ▸ follows.isPrefix.length_le

theorem fetch {targetSequence : Nat} (taken : state.step (.fetch targetSequence) = some next) :
    next.Follows := by
  obtain ⟨size, -, read⟩ := follows.whole.walEntriesSince_eq
    state.node.readIndex.committedSequence state.node.config.fetchBatchSize
  simp only [step, read] at taken
  split at taken <;> cases taken
  refine ⟨follows.whole, follows.numbered, follows.position, follows.content, follows.logged, ?_⟩
  intro batch member
  rcases List.mem_cons.mp member with rfl | before
  · have rest := (from_drop follows.whole.numbered follows.index_le).take size
    exact ⟨_, (Nat.add_comm _ _).le, rest⟩
  · exact follows.gapless batch before

theorem apply {batch : List WalEntry} (retains : state.Retains (.apply batch))
    (taken : state.step (.apply batch) = some next) :
    next.Follows ∧
      state.node.readIndex.committedSequence ≤ next.node.readIndex.committedSequence := by
  simp only [step] at taken
  split at taken
  swap
  · cases taken
  rename_i read
  cases taken
  obtain ⟨succeeded, among⟩ := retains
  obtain ⟨first, reaches, numbered⟩ := follows.gapless batch read
  obtain ⟨continues, position, content⟩ :=
    CommittedReadIndex.applyEntries_ok numbered reaches (Prod.ext rfl succeeded)
  have forward : state.node.readIndex.committedSequence ≤
      (state.node.readIndex.applyEntries batch).1.committedSequence :=
        position ▸ Nat.le_add_right _ _
  refine ⟨⟨follows.whole, from_append.mpr ⟨follows.numbered, ?_⟩, ?_, ?_, ?_, ?_⟩, forward⟩
  · rw [Nat.add_comm, ← follows.position]
    exact continues
  · rw [List.length_append, ← follows.position]
    exact position
  · rw [List.flatMap_append, ReadEntries.applyOperations_append follows.content]
    exact content
  · intro entry member
    rcases List.mem_append.mp member with before | touched
    · exact follows.logged entry before
    · obtain ⟨inside, newer⟩ := CommittedReadIndex.mem_of_mem_touched touched
      exact among entry inside newer
  · intro other member
    obtain ⟨start, before, counted⟩ := follows.gapless other (List.mem_of_mem_erase member)
    exact ⟨start, before.trans (Nat.add_le_add_right forward 1), counted⟩

theorem restart {nowMs : Nat} (taken : state.step (.restart nowMs) = some next) : next.Follows := by
  obtain ⟨node, restarted, rfl⟩ := Option.map_eq_some_iff.mp taken
  unfold Node.restart at restarted
  split at restarted
  · cases restarted
  rename_i engine opened
  cases restarted
  obtain ⟨whole, -, replayed⟩ := follows.whole.reopen opened
  refine ⟨whole, whole.numbered, whole.position, ?_, fun _ member => member, by rintro batch ⟨⟩⟩
  have nothing : ReadEntries.Projects ∅ EngineStore.new := fun key => by
    simp [EngineStore.get, EngineStore.new]
  rw [replayStore_eq_applyOperations] at replayed
  obtain ⟨entries, ran, projects⟩ := nothing.applyOperations replayed
  have same := CommittedReadIndex.entries_eq_of_projects projects
    (CommittedReadIndex.projects_rebuild engine.state)
  exact same ▸ ran

/-- The index stays on the log. -/
theorem step {event : NodeEvent} (retains : state.Retains event)
    (taken : state.step event = some next) : next.Follows := by
  cases event with
  | fetch targetSequence => exact follows.fetch taken
  | apply batch => exact (follows.apply retains taken).1
  | restart nowMs => exact follows.restart taken
  | message message =>
    refine follows.of_spares taken not_false ?_
    intro entry member
    cases message with
    | append nowMs request =>
      exact retains entry (follows.logged entry member) (follows.shown_bound member)
    | heartbeat request => trivial
    | status report => trivial
  | rollbackCut commit nowMs =>
    exact follows.of_spares taken not_false fun entry member =>
      (follows.shown_bound member).trans retains
  | execute _ | publish _ | reply _ _ _ | ack _ _ _ _ | pull _ _ | beginElection
  | finalizeElection _ _ _ | observeRemoteTerm _ | vote _ _ | rollback | rollbackMeasure _ =>
    exact follows.of_spares taken not_false fun _ _ => trivial

theorem index_forward {event : NodeEvent} (retains : state.Retains event)
    (running : event.restarts = false) (taken : state.step event = some next) :
    state.node.readIndex.committedSequence ≤ next.node.readIndex.committedSequence := by
  by_cases concerns : indexes event
  · cases event with
    | fetch targetSequence =>
      simp only [IndexedNode.step] at taken
      split at taken
      · split at taken <;> cases taken
        exact le_rfl
      · cases taken
    | apply batch => exact (follows.apply retains taken).2
    | restart nowMs => cases running
    | _ => exact concerns.elim
  · rw [(index_step follows.whole concerns taken).2.2]

end Follows

theorem engine_of_leader {state next : IndexedNode} {message : LeaderMessage}
    (taken : state.step (.message message) = some next)
    (leads : next.node.replication.role = .leader) : next.node.engine = state.node.engine := by
  simp only [step] at taken
  split at taken
  · cases taken
  rename_i possible
  cases taken
  cases message with
  | heartbeat request => rfl
  | status report => rfl
  | append nowMs request =>
    rcases Node.handleAppend_cases (not_or.mp possible).1 nowMs request with
      ⟨-, engine, -⟩ | ⟨-, -, applied, -, -, -, follower, -⟩
    · exact engine
    · exact absurd (leads.symm.trans follower) (by decide)

theorem replication_rollbackCut {state next : IndexedNode} {commit nowMs : Nat}
    (taken : state.step (.rollbackCut commit nowMs) = some next) :
    next.node.replication = state.node.replication := by
  simp only [step] at taken
  split at taken
  · split at taken <;> cases taken <;> rfl
  · cases taken

end IndexedNode

namespace ReadingNode

variable [Codec]

/-- The index stays on the log; a node that is elected holds what has been acknowledged, and its
rollbacks spare that; what is acknowledged while it leads is in its log, and if another node
acknowledges it, in the log it was elected with; and it answers reads once its index has
reached the end of that log. -/
def Reflected (state : ReadingNode) : ReadEvent → Prop
  | .task (.rollbackCut commit nowMs) => state.indexed.Retains (.rollbackCut commit nowMs) ∧
      (state.role = .leader → ∀ entry ∈ state.acknowledged, entry.sequence ≤ commit)
  | .task event => state.indexed.Retains event ∧
      (state.elects event = true → ∀ entry ∈ state.acknowledged,
        entry ∈ state.indexed.node.engine.walEntries)
  | .acknowledge entries => state.role = .leader → ∀ entry ∈ entries,
      entry ∈ state.indexed.node.engine.walEntries ∧ entry.sequence ≤ state.inherited
  | .answer entry => state.role = .leader → entry ∈ state.indexed.node.engine.walEntries
  | .read _ _ => state.inherited ≤ state.indexed.node.readIndex.committedSequence

instance decidableReflected (state : ReadingNode) (event : ReadEvent) :
    Decidable (state.Reflected event) := by
  unfold Reflected
  split <;> infer_instance

theorem Reflected.retains {state : ReadingNode} {event : NodeEvent}
    (reflected : state.Reflected (.task event)) : state.indexed.Retains event := by
  cases event <;> exact reflected.1

/-- What the index of a leader has not seen of the acknowledged entries was there at its
election. -/
structure Holds (state : ReadingNode) : Prop where
  follows : state.indexed.Follows
  held : state.role = .leader → ∀ entry ∈ state.acknowledged,
    entry ∈ state.indexed.node.engine.walEntries
  covered : state.role = .leader → ∀ entry ∈ state.acknowledged,
    entry.sequence ≤ state.inherited ∨
      entry.sequence ≤ state.indexed.node.readIndex.committedSequence

namespace Holds

variable {state next : ReadingNode}

theorem initial (config : ReplicationConfig) (options : EngineOptions) (startMs : Nat) :
    (ReadingNode.initial config options startMs).Holds :=
  ⟨.initial config options startMs, by rintro _ entry ⟨⟩, by rintro _ entry ⟨⟩⟩

/-- What a leader keeps of what was acknowledged, whether it leads already or is elected by the
step. -/
theorem keeps (holds : state.Holds) {event : NodeEvent} {after : IndexedNode}
    (reflected : state.Reflected (.task event)) (taken : state.indexed.step event = some after)
    (leads : after.node.replication.role = .leader) {entry : WalEntry}
    (member : entry ∈ state.acknowledged) : entry ∈ after.node.engine.walEntries := by
  have logged : entry ∈ state.indexed.node.engine.walEntries := by
    by_cases led : state.role = .leader
    · exact holds.held led entry member
    · have elected : state.elects event = true := by simp [elects, taken, leads, led]
      cases event with
      | rollbackCut commit nowMs =>
        rw [IndexedNode.replication_rollbackCut taken] at leads
        exact absurd leads led
      | _ => exact reflected.2 elected entry member
  have kept := (IndexedNode.LogKept.step holds.follows.whole taken).keeps entry logged
  cases event with
  | message message =>
    rw [IndexedNode.engine_of_leader taken leads]
    exact logged
  | rollbackCut commit nowMs =>
    rw [IndexedNode.replication_rollbackCut taken] at leads
    exact kept (reflected.2 leads entry member)
  | _ => exact kept trivial

theorem task (holds : state.Holds) {event : NodeEvent} (reflected : state.Reflected (.task event))
    (taken : state.step (.task event) = some next) : next.Holds := by
  simp only [ReadingNode.step] at taken
  obtain ⟨after, done, rfl⟩ := Option.map_eq_some_iff.mp taken
  have follows := holds.follows.step reflected.retains done
  have bounded : ∀ entry ∈ after.node.engine.walEntries,
      entry.sequence ≤ after.node.engine.walEntries.length := by
    intro entry member
    have := follows.whole.numbered.mem_bounds member
    omega
  refine ⟨follows, fun leads entry member => holds.keeps reflected done leads member, ?_⟩
  intro leads entry member
  have within := bounded entry (holds.keeps reflected done leads member)
  dsimp only
  split
  · exact .inl within
  · rename_i unchanged
    have continues : after.node.replication.role = .leader →
        state.role = .leader ∧ event.restarts = false := by
      simpa [elects, done] using unchanged
    obtain ⟨led, running⟩ := continues leads
    rcases holds.covered led entry member with inherited | seen
    · exact .inl (le_min inherited within)
    · exact .inr (seen.trans (holds.follows.index_forward reflected.retains running done))

theorem seen_of_advancedTo (holds : state.Holds) {entry : WalEntry}
    (logged : entry ∈ state.indexed.node.engine.walEntries)
    (advanced : state.advancedTo entry.sequence = true) :
    entry.sequence ≤ state.indexed.node.readIndex.committedSequence := by
  rcases (Bool.or_eq_true _ _).mp advanced with reached | ended
  · exact of_decide_eq_true reached
  · obtain ⟨size, positive, read⟩ := holds.follows.whole.walEntriesSince_eq
      state.indexed.node.readIndex.committedSequence state.indexed.node.config.fetchBatchSize
    have nothing := of_decide_eq_true ended
    rw [read] at nothing
    have behind : state.indexed.node.engine.walEntries.length ≤
        state.indexed.node.readIndex.committedSequence := by
      rcases List.take_eq_nil_iff.mp (Option.some.inj nothing) with zero | all
      · omega
      · exact List.drop_eq_nil_iff.mp all
    have := holds.follows.whole.numbered.mem_bounds logged
    omega

/-- A leader goes on to hold what was acknowledged. -/
theorem step (holds : state.Holds) {event : ReadEvent} (reflected : state.Reflected event)
    (taken : state.step event = some next) : next.Holds := by
  cases event with
  | task event => exact holds.task reflected taken
  | answer entry =>
    simp only [ReadingNode.step] at taken
    split at taken <;> cases taken
    rename_i enabled
    refine ⟨holds.follows, ?_, ?_⟩
    · intro leads other member
      rcases List.mem_cons.mp member with rfl | before
      · exact reflected leads
      · exact holds.held leads other before
    · intro leads other member
      rcases List.mem_cons.mp member with rfl | before
      · exact .inr (holds.seen_of_advancedTo (reflected leads) enabled.2)
      · exact holds.covered leads other before
  | acknowledge entries =>
    cases taken
    refine ⟨holds.follows, ?_, ?_⟩
    · intro leads entry member
      rcases List.mem_append.mp member with added | before
      · exact (reflected leads entry added).1
      · exact holds.held leads entry before
    · intro leads entry member
      rcases List.mem_append.mp member with added | before
      · exact .inl (reflected leads entry added).2
      · exact holds.covered leads entry before
  | read nowMs command =>
    simp only [ReadingNode.step] at taken
    split at taken <;> cases taken
    exact holds

end Holds

end ReadingNode

section Samples

open Sample ReadingNode

end Samples

end Vaylix
