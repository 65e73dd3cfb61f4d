import Vaylix.Server.AcceptedAppend
import Vaylix.Server.AppendRound
import Vaylix.Server.MatchingAppend

/-!
# The commit point of a follower

Heartbeats, a leader's status and appends raise the commit point of a follower as far as its
log reaches, before any entry is compared. It covers the leader's entries exactly when the
follower's own ones were the leader's already, or when an append that is taken over reaches as
far.
-/

namespace Vaylix

open NumberedLog

/-- The messages that move the commit point of a follower. -/
inductive LeaderMessage where
  | heartbeat (request : HeartbeatRequest)
  | status (report : LeaderStatus)
  | append (nowMs : Nat) (request : AppendEntriesRequest)
deriving DecidableEq

/-- What a leader sends in the state it is in. -/
def LeaderMessage.SentBy [Codec] (leader : Node) : LeaderMessage → Prop
  | .heartbeat request => leader.replication.leaderHeartbeatPayload leader.config = some request
  | .status report => leader.replication.leaderStatus leader.config = some report
  | .append _ request => ∃ target, leader.appendRequest target = some request

/-- The sequence before the first carried entry. -/
def AppendEntriesRequest.baseSequence (request : AppendEntriesRequest) : Nat :=
  (request.entries.head?.map fun entry => entry.sequence - 1).getD request.prevSequence

namespace Node

def receive [Codec] (node : Node) : LeaderMessage → Node
  | .heartbeat request => node.after (node.replication.handleHeartbeat request)
  | .status report => node.after (node.replication.observeLeaderStatus report)
  | .append nowMs request => (node.handleAppend nowMs request).1

structure Following [Codec] (node : Node) : Prop where
  logged : node.engine.Logged
  position : node.replication.localLastAppliedSequence = node.engine.lastAppliedSequence
  clustered : node.replication.role ≠ .standalone

def Heeds (node : Node) (leaderNodeId : NodeId) (term : Nat) : Prop :=
  isVotingMember node.replication.members leaderNodeId = true ∧ node.replication.currentTerm ≤ term

/-- The log has the previous entry, and the engine takes the carried ones over. -/
def TakesOver [Codec] (node : Node) (nowMs : Nat) (request : AppendEntriesRequest) : Prop :=
  node.engine.walEntryTerm request.prevSequence = request.prevTerm ∧
  node.engine.walEntryChecksum request.prevSequence = request.prevEntryChecksum ∧
  ¬ (request.entries.isEmpty ∧ node.engine.lastAppliedSequence < request.prevSequence) ∧
  (node.engine.acceptEntries nowMs request.prevSequence request.entries).isOk = true

/-- A sequence above the commit point that neither of two logs has compacted. -/
def Uncommitted (node leader : Node) (sequence : Nat) : Prop :=
  node.replication.commitSequence < sequence ∧ node.engine.compactedSequence < sequence ∧
    leader.engine.compactedSequence < sequence

/-- The log holds the leader's entries above the commit point, up to `bound`. -/
def AgreesUpTo (node leader : Node) (bound : Nat) : Prop :=
  ∀ sequence, sequence ≤ bound → node.Uncommitted leader sequence →
    entryAt node.engine.walEntries sequence = entryAt leader.engine.walEntries sequence

/-- The log is the leader's as far as a message lets the commit point move, before the message is
handled. The entries of an append that is taken over have to reach as far. -/
def CommitBacked [Codec] (node leader : Node) : LeaderMessage → Prop
  | .heartbeat request => node.Heeds request.leaderNodeId request.term →
      node.AgreesUpTo leader (min request.commitSequence node.engine.lastAppliedSequence)
  | .status report => node.replication.currentTerm ≤ report.term →
      node.AgreesUpTo leader (min report.commitSequence node.engine.lastAppliedSequence)
  | .append nowMs request => node.Heeds request.leaderNodeId request.term →
      (¬ node.TakesOver nowMs request →
        node.AgreesUpTo leader (min request.commitSequence node.engine.lastAppliedSequence)) ∧
      (node.TakesOver nowMs request →
        node.AgreesUpTo leader (min request.commitSequence request.baseSequence) ∧
        ∀ sequence, sequence ≤ min request.commitSequence node.engine.lastAppliedSequence →
          node.Uncommitted leader sequence →
            sequence ≤ request.baseSequence + request.entries.length)

instance (node : Node) (leaderNodeId : NodeId) (term : Nat) :
    Decidable (node.Heeds leaderNodeId term) := inferInstanceAs (Decidable (_ ∧ _))

instance [Codec] (node : Node) (nowMs : Nat) (request : AppendEntriesRequest) :
    Decidable (node.TakesOver nowMs request) := inferInstanceAs (Decidable (_ ∧ _ ∧ _ ∧ _))

instance (node leader : Node) (sequence : Nat) : Decidable (node.Uncommitted leader sequence) :=
  inferInstanceAs (Decidable (_ ∧ _ ∧ _))

instance (node leader : Node) (bound : Nat) : Decidable (node.AgreesUpTo leader bound) :=
  inferInstanceAs (Decidable (∀ sequence, sequence ≤ bound → _))

instance [Codec] (engine : Engine) (entries : List WalEntry) :
    Decidable (engine.Recognizes entries) :=
  inferInstanceAs (Decidable (∀ own ∈ engine.walEntries, ∀ entry ∈ entries, _ → _ → _ → _))

instance [Codec] (node leader : Node) : ∀ message, Decidable (node.CommitBacked leader message)
  | .heartbeat _ => inferInstanceAs (Decidable (_ → _))
  | .status _ => inferInstanceAs (Decidable (_ → _))
  | .append _ _ =>
    inferInstanceAs (Decidable (_ → (_ → _) ∧ (_ → _ ∧ ∀ sequence, sequence ≤ _ → _)))

end Node

namespace ReplicationState

def position (state : ReplicationState) : LogAppendResult :=
  ⟨state.localLastAppliedSequence, state.localLastAppliedTerm, state.localLastAppliedChecksum⟩

theorem steppedDown_eq_follower {state : ReplicationState} (clustered : state.role ≠ .standalone) :
    state.steppedDown = .follower := if_neg clustered

/-- A node that does not heed a message changes nothing; one that does steps down, and its commit
point moves to the leader's within its own position. -/
structure Hears (heeds : Prop) (commit : Nat) (before after : ReplicationState) : Prop where
  ignored : ¬ heeds → after = before
  position : after.position = before.position
  term : before.currentTerm ≤ after.currentTerm
  role : heeds → after.role = before.steppedDown
  commits : heeds → after.commitSequence =
    max before.commitSequence (min commit before.localLastAppliedSequence)

namespace Hears

variable {heeds : Prop} {commit : Nat} {before after : ReplicationState}

theorem of_ignored (ignores : ¬ heeds) : Hears heeds commit before before :=
  ⟨fun _ => rfl, rfl, le_rfl, fun heeded => absurd heeded ignores,
    fun heeded => absurd heeded ignores⟩

theorem of_followLeader (heeded : heeds) (term : Nat) (leader : NodeId)
    (address : Option String) (frontier : Nat) (members : Members) :
    Hears heeds commit before
      (before.followLeader term leader address commit frontier members) :=
  ⟨fun ignores => absurd heeded ignores, rfl, Nat.le_max_left _ _, fun _ => rfl, fun _ => rfl⟩

theorem localLastAppliedSequence (hears : Hears heeds commit before after) :
    after.localLastAppliedSequence = before.localLastAppliedSequence :=
  congrArg LogAppendResult.lastAppliedSequence hears.position

theorem clustered (hears : Hears heeds commit before after) (member : before.role ≠ .standalone) :
    after.role ≠ .standalone := by
  by_cases heeded : heeds
  · rw [hears.role heeded, steppedDown_eq_follower member]
    decide
  · rwa [hears.ignored heeded]

end Hears

theorem accepted_handleHeartbeat (state : ReplicationState) (request : HeartbeatRequest) :
    (state.handleHeartbeat request).answer.accepted = true ↔
      isVotingMember state.members request.leaderNodeId = true ∧
        state.currentTerm ≤ request.term := by
  unfold handleHeartbeat
  split
  · simp_all
  split
  · rename_i stale
    exact ⟨by rintro ⟨⟩, fun heeded => absurd heeded.2 (Nat.not_le.mpr stale)⟩
  · rename_i recent
    exact ⟨fun _ => ⟨by simp_all, Nat.not_lt.mp recent⟩, fun _ => rfl⟩

theorem hears_handleHeartbeat (state : ReplicationState) (request : HeartbeatRequest) :
    Hears (isVotingMember state.members request.leaderNodeId = true ∧
      state.currentTerm ≤ request.term) request.commitSequence state
      (state.handleHeartbeat request).state := by
  unfold handleHeartbeat
  split
  · rename_i stranger
    exact .of_ignored fun heeded => by simp [heeded.1] at stranger
  rename_i member
  split
  · rename_i stale
    exact .of_ignored fun heeded => absurd heeded.2 (Nat.not_le.mpr stale)
  · rename_i recent
    exact .of_followLeader ⟨by simpa using member, Nat.not_lt.mp recent⟩ _ _ _ _ _

theorem hears_observeLeaderStatus (state : ReplicationState) (report : LeaderStatus) :
    Hears (state.currentTerm ≤ report.term) report.commitSequence state
      (state.observeLeaderStatus report).state := by
  unfold observeLeaderStatus
  split
  · rename_i stale
    exact .of_ignored (Nat.not_le.mpr stale)
  · rename_i recent
    exact .of_followLeader (Nat.not_lt.mp recent) _ _ _ _ _

end ReplicationState

namespace Node

open ReplicationState

variable [Codec]

theorem acceptedAppend_replication {node : Node} (follows : node.replication.role = .follower)
    (request : AppendEntriesRequest) (term : Nat) (engine : Engine) (applied : Nat) :
    (node.acceptedAppend request term engine applied).1.replication.commitSequence =
      max node.replication.commitSequence (min request.commitSequence applied) ∧
    (node.acceptedAppend request term engine applied).1.replication.position =
      engine.appliedStateForSequence applied ∧
    (node.acceptedAppend request term engine applied).1.replication.role = .follower := by
  obtain ⟨phase, index, accepted⟩ := node.acceptedAppend_eq request term engine applied
  rw [accepted]
  simp only [publish, setLocalLastAppliedState, follows, observeLeaderCommit]
  exact ⟨rfl, rfl, trivial⟩

theorem answer_acceptedAppend {node : Node} {request : AppendEntriesRequest} {term : Nat}
    {engine : Engine} {applied : Nat} {response : AppendEntriesResponse}
    (answered : (node.acceptedAppend request term engine applied).2 = .ok response) :
    response = ⟨term, true, applied⟩ := by
  unfold acceptedAppend at answered
  dsimp only at answered
  split at answered
  · cases answered
  · exact (Except.ok.inj answered).symm

/-- **What the handler of an append does** to the log and the commit point, and what it
answers. -/
theorem handleAppend_cases {node : Node} (clustered : node.replication.role ≠ .standalone)
    (nowMs : Nat) (request : AppendEntriesRequest) :
    (¬ (node.Heeds request.leaderNodeId request.term ∧ node.TakesOver nowMs request) ∧
      (node.handleAppend nowMs request).1.engine = node.engine ∧
      Hears (node.Heeds request.leaderNodeId request.term) request.commitSequence
        node.replication (node.handleAppend nowMs request).1.replication ∧
      ∀ response, (node.handleAppend nowMs request).2 = .ok response →
        response.accepted = false) ∨
    (node.Heeds request.leaderNodeId request.term ∧ node.TakesOver nowMs request ∧
      ∃ applied, node.engine.acceptEntries nowMs request.prevSequence request.entries =
          .ok ((node.handleAppend nowMs request).1.engine, applied) ∧
        (node.handleAppend nowMs request).1.replication.commitSequence =
          max (max node.replication.commitSequence
            (min request.commitSequence node.replication.localLastAppliedSequence))
              (min request.commitSequence applied) ∧
        (node.handleAppend nowMs request).1.replication.position =
          (node.handleAppend nowMs request).1.engine.appliedStateForSequence applied ∧
        (node.handleAppend nowMs request).1.replication.role = .follower ∧
        ∀ response, (node.handleAppend nowMs request).2 = .ok response →
          response.matchSequence = applied) := by
  have hears := node.replication.hears_handleHeartbeat request.heartbeat
  have answers := node.replication.accepted_handleHeartbeat request.heartbeat
  by_cases heeds : node.Heeds request.leaderNodeId request.term
  swap
  · have refused : (node.replication.handleHeartbeat request.heartbeat).answer.accepted = false :=
      Bool.eq_false_iff.mpr fun accepted => heeds (answers.mp accepted)
    refine .inl ⟨fun both => heeds both.1, ?_⟩
    unfold handleAppend
    dsimp only
    split
    · exact ⟨rfl, .of_ignored heeds, by rintro _ ⟨⟩; rfl⟩
    · rw [refused]
      exact ⟨rfl, hears, by rintro _ ⟨⟩; rfl⟩
  have heard : (node.after (node.replication.handleHeartbeat request.heartbeat)).replication.role =
      .follower := (hears.role heeds).trans (steppedDown_eq_follower clustered)
  obtain ⟨target, phase, noted⟩ := (node.after
    (node.replication.handleHeartbeat request.heartbeat)).noteFrontier_eq request
  have recent : ¬ request.term < node.replication.currentTerm := Nat.not_lt.mpr heeds.2
  have kept : Hears (node.Heeds request.leaderNodeId request.term) request.commitSequence
      node.replication ((node.after
        (node.replication.handleHeartbeat request.heartbeat)).noteFrontier
          request).replication := by
    rw [noted]
    exact ⟨fun ignores => absurd heeds ignores, hears.position, hears.term, hears.role,
      hears.commits⟩
  unfold handleAppend
  rw [if_neg recent]
  simp only [answers.mpr heeds, Bool.not_true, Bool.false_eq_true, if_false]
  split
  · rename_i mismatch
    refine .inl ⟨?_, noteFrontier_engine _ _, kept, by rintro _ ⟨⟩; rfl⟩
    rintro ⟨-, term, checksum, -⟩
    exact mismatch.elim (· term) (· checksum)
  rename_i matching
  obtain ⟨term, checksum⟩ := not_or.mp matching
  split
  · rename_i short
    exact .inl ⟨fun both => both.2.2.2.1 short, noteFrontier_engine _ _, kept,
      by rintro _ ⟨⟩; rfl⟩
  rename_i reaches
  cases done : node.engine.acceptEntries nowMs request.prevSequence request.entries with
  | error err =>
    refine .inl ⟨?_, noteFrontier_engine _ _, kept, by rintro _ ⟨⟩⟩
    rintro ⟨-, -, -, -, taken⟩
    rw [done] at taken
    cases taken
  | ok result =>
    obtain ⟨next, applied⟩ := result
    have follows : ((node.after
        (node.replication.handleHeartbeat request.heartbeat)).noteFrontier
          request).replication.role = .follower := by rw [noted]; exact heard
    obtain ⟨commit, position, role⟩ := acceptedAppend_replication follows request
      (node.replication.handleHeartbeat request.heartbeat).answer.term next applied
    refine .inr ⟨heeds, ⟨not_not.mp term, not_not.mp checksum, reaches, by rw [done]; rfl⟩,
      applied, ?_, ?_, ?_, role, ?_⟩
    · rw [acceptedAppend_engine]
    · rw [commit, kept.commits heeds]
    · rw [acceptedAppend_engine]
      exact position
    · intro response answered
      rw [answer_acceptedAppend answered]

end Node

namespace Engine

variable [Codec]

theorem SuffixReplaced.entryAt_eq {engine next : Engine} {sequence : Nat}
    {replacement : List WalEntry} (replaced : engine.SuffixReplaced sequence replacement next)
    (position : Nat) :
    entryAt next.walEntries position =
      if position ≤ sequence then entryAt engine.walEntries position
      else entryAt replacement position := by
  rw [replaced.log, entryAt_append]
  split
  · rename_i below
    have absent : entryAt replacement position = none := by
      refine List.find?_eq_none.mpr ?_
      intro entry member
      have := replaced.numbered.mem_bounds member
      simp only [decide_eq_true_eq]
      omega
    rw [absent, Option.or_none, entryAt, logUpTo, List.find?_filter]
    congr 1
    funext entry
    by_cases here : entry.sequence = position
    · simp [here, below]
    · simp [here]
  · have absent : entryAt (engine.logUpTo sequence) position = none := by
      refine List.find?_eq_none.mpr ?_
      intro entry member
      have := of_decide_eq_true (List.mem_filter.mp member).2
      simp only [decide_eq_true_eq]
      omega
    rw [absent, Option.none_or]

omit [Codec] in
theorem entryAt_of_from {first : Nat} {entries : List WalEntry}
    (numbered : From WalEntry.sequence first entries) (sequence : Nat) :
    (∃ entry ∈ entries, entry.sequence = sequence ∧ entryAt entries sequence = some entry) ∨
      (entryAt entries sequence = none ∧
        (sequence < first ∨ first + entries.length ≤ sequence)) := by
  cases found : entryAt entries sequence with
  | some entry =>
    exact .inl ⟨entry, List.mem_of_find?_eq_some found, by simpa using List.find?_some found, rfl⟩
  | none =>
    refine .inr ⟨rfl, ?_⟩
    by_contra inside
    have found' := found
    rw [entryAt, numbered.find?_number (by omega), List.getElem?_eq_none_iff] at found'
    omega

end Engine

/-- What a request carries comes from a log. -/
structure AppendEntriesRequest.CarriedFrom (request : AppendEntriesRequest) (log : List WalEntry) :
    Prop where
  known : 0 < request.prevSequence → request.prevTerm.isSome
  begins : request.prevSequence ≤ request.baseSequence
  numbered : From WalEntry.sequence (request.baseSequence + 1) request.entries
  members : ∀ entry ∈ request.entries, entry ∈ log

namespace Node

variable [Codec]

variable {node : Node} {target : NodeId} {request : AppendEntriesRequest}

/-- How a leader builds a request to one of the other voters, from what a round has read. -/
structure Builds (node : Node) (target : NodeId) (request : AppendEntriesRequest)
    (cached : List WalEntry) : Prop where
  leads : node.replication.role = .leader
  term : request.term = node.replication.currentTerm
  leaderNodeId : request.leaderNodeId = node.config.nodeId
  leaderAddr : request.leaderAddr = (node.replication.localAdvertiseAddr node.config).getD ""
  members : request.members = memberList node.replication.members
  commit : request.commitSequence = node.replication.commitSequence
  planned : ∃ member : ClusterMember, member.nodeId = target ∧
    (member, request.prevSequence) ∈ node.peerPlans
  read : node.cachedEntries = .ok cached
  entries : request.entries = (cached.filter fun entry =>
    decide (request.prevSequence < entry.sequence)).take node.config.fetchBatchSize
  previous : 0 < request.prevSequence → ∃ entry, entryAt cached request.prevSequence = some entry ∧
    request.prevTerm = some entry.term ∧ request.prevEntryChecksum = some entry.checksum

theorem builds_of_appendRequest (built : node.appendRequest target = some request) :
    ∃ cached, node.Builds target request cached := by
  unfold appendRequest at built
  split at built
  swap
  · cases built
  rename_i payload member prevSequence cached leading planned read
  have chosen : ∃ other : ClusterMember, other.nodeId = target ∧
      (other, prevSequence) ∈ node.peerPlans :=
    ⟨member, by simpa using List.find?_some planned, List.mem_of_find?_eq_some planned⟩
  unfold ReplicationState.leaderHeartbeatPayload at leading
  split at leading <;> cases leading
  rename_i leads
  split at built
  · rename_i zero
    cases built
    exact ⟨cached, not_not.mp leads, rfl, rfl, rfl, rfl, rfl, chosen, read, rfl,
      fun positive => absurd zero positive.ne'⟩
  · obtain ⟨entry, found, rfl⟩ := Option.map_eq_some_iff.mp built
    exact ⟨cached, not_not.mp leads, rfl, rfl, rfl, rfl, rfl, chosen, read, rfl,
      fun _ => ⟨entry, found, rfl, rfl⟩⟩

theorem carriedFrom_of_appendRequest {leader : Node} (logged : leader.engine.Logged)
    (built : leader.appendRequest target = some request) :
    request.CarriedFrom leader.engine.walEntries ∧
      request.commitSequence = leader.replication.commitSequence := by
  obtain ⟨numbered, -⟩ := logged.from_compacted
  obtain ⟨cached, builds⟩ := builds_of_appendRequest built
  -- What was read is a part of the log, so it is numbered as well.
  have sublog : (∃ first, 0 < first ∧ From WalEntry.sequence first cached) ∧
      ∀ entry ∈ cached, entry ∈ leader.engine.walEntries := by
    have read := builds.read
    unfold cachedEntries at read
    rw [Engine.walEntriesSince_of_numbered numbered, Except.ok.injEq] at read
    obtain ⟨first, above, dropped⟩ := numbered.drop
      ((((leader.peerPlans.map Prod.snd).min?).getD leader.engine.lastAppliedSequence - 1) + 1 -
        (leader.engine.compactedSequence + 1))
    subst read
    dsimp only
    split
    · exact ⟨⟨first, by omega, dropped.take _⟩,
        fun entry member => List.mem_of_mem_drop (List.mem_of_mem_take member)⟩
    · exact ⟨⟨first, by omega, dropped⟩, fun entry member => List.mem_of_mem_drop member⟩
  obtain ⟨⟨first, positive, inOrder⟩, inside⟩ := sublog
  refine ⟨?_, builds.commit⟩
  have known : 0 < request.prevSequence → request.prevTerm.isSome := by
    intro behind
    obtain ⟨entry, -, term, -⟩ := builds.previous behind
    rw [term]
    rfl
  obtain ⟨start, above, dropped⟩ := inOrder.drop (request.prevSequence + 1 - first)
  have taken := dropped.take leader.config.fetchBatchSize
  rw [← inOrder.filter_gt, ← builds.entries] at taken
  have members : ∀ entry ∈ request.entries,
      entry ∈ leader.engine.walEntries ∧ request.prevSequence < entry.sequence := by
    intro entry member
    rw [builds.entries] at member
    obtain ⟨found, later⟩ := List.mem_filter.mp (List.mem_of_mem_take member)
    exact ⟨inside entry found, of_decide_eq_true later⟩
  cases carried : request.entries with
  | nil =>
    have base : request.baseSequence = request.prevSequence := by
      simp [AppendEntriesRequest.baseSequence, carried]
    exact ⟨known, base.ge, by rw [carried]; trivial, by simp [carried]⟩
  | cons entry rest =>
    rw [carried] at taken
    have base : request.baseSequence = entry.sequence - 1 := by
      simp [AppendEntriesRequest.baseSequence, carried]
    have later := (members entry (by rw [carried]; exact List.mem_cons_self)).2
    refine ⟨known, by omega, ?_, fun entry member => (members entry member).1⟩
    rw [base, Nat.sub_add_cancel (by omega), carried]
    exact taken.1.symm ▸ taken

theorem prevSequence_le (logged : node.engine.Logged) {nowMs : Nat} {log : List WalEntry}
    (carried : request.CarriedFrom log) (takes : node.TakesOver nowMs request) :
    request.prevSequence ≤ node.engine.lastAppliedSequence := by
  rcases Nat.eq_zero_or_pos request.prevSequence with zero | positive
  · omega
  · have known := carried.known positive
    rw [← takes.1, (logged.identity_eq _).1, Option.isSome_map] at known
    exact (logged.entryAt_isSome_iff.mp known).2

theorem tookOver (logged : node.engine.Logged) {nowMs applied : Nat} {next : Engine}
    {log : List WalEntry} (carried : request.CarriedFrom log) (takes : node.TakesOver nowMs request)
    (done : node.engine.acceptEntries nowMs request.prevSequence request.entries =
      .ok (next, applied)) :
    node.engine.TookOver request.baseSequence request.entries next ∧
      applied = next.lastAppliedSequence := by
  have inside := prevSequence_le logged carried takes
  have numbered := carried.numbered
  cases entries : request.entries with
  | nil =>
    have base : request.baseSequence = request.prevSequence := by
      simp [AppendEntriesRequest.baseSequence, entries]
    rw [base] at numbered ⊢
    rw [← entries]
    exact logged.acceptEntries numbered inside done
  | cons entry rest =>
    rw [entries] at numbered done
    exact logged.acceptEntries_later carried.begins inside numbered done

namespace Following

variable {node leader : Node}

theorem receive (following : node.Following) {message : LeaderMessage}
    (logged : leader.engine.Logged) (sent : message.SentBy leader) :
    (node.receive message).Following := by
  have hears : ∀ {heeds : Prop} {commit : Nat} {α : Type} {handled : Handled α},
      node.replication.Hears heeds commit handled.state → (node.after handled).Following :=
    fun heard => ⟨following.logged, heard.localLastAppliedSequence.trans following.position,
      heard.clustered following.clustered⟩
  cases message with
  | heartbeat request => exact hears (node.replication.hears_handleHeartbeat request)
  | status report => exact hears (node.replication.hears_observeLeaderStatus report)
  | append nowMs request =>
    obtain ⟨target, built⟩ := sent
    obtain ⟨carried, -⟩ := carriedFrom_of_appendRequest logged built
    rcases handleAppend_cases following.clustered nowMs request with
      ⟨-, engine, heard, -⟩ | ⟨-, takes, applied, done, -, position, role, -⟩
    · exact ⟨(congrArg Engine.Logged engine).mpr following.logged,
        heard.localLastAppliedSequence.trans
          (following.position.trans (congrArg Engine.lastAppliedSequence engine).symm),
        heard.clustered following.clustered⟩
    · obtain ⟨took, ends⟩ := tookOver following.logged carried takes done
      refine ⟨took.logged, (congrArg LogAppendResult.lastAppliedSequence position).trans ends, ?_⟩
      simp only [Node.receive, role]
      decide

theorem foldl_receive (following : node.Following) {messages : List LeaderMessage}
    (sent : ∀ message ∈ messages, ∃ leader : Node,
      leader.engine.Logged ∧ message.SentBy leader) :
    (messages.foldl Node.receive node).Following := by
  induction messages generalizing node with
  | nil => exact following
  | cons message rest ih =>
    obtain ⟨leader, logged, first⟩ := sent message List.mem_cons_self
    exact ih (following.receive logged first) fun later member =>
      sent later (List.mem_cons_of_mem _ member)

end Following

omit [Codec] in
theorem agreesUpTo_iff {leader after : Node} {heeds : Prop} {commit : Nat}
    (position : node.replication.localLastAppliedSequence = node.engine.lastAppliedSequence)
    (engine : after.engine = node.engine)
    (hears : node.replication.Hears heeds commit after.replication) :
    (∀ sequence, sequence ≤ after.replication.commitSequence → node.Uncommitted leader sequence →
      entryAt after.engine.walEntries sequence = entryAt leader.engine.walEntries sequence) ↔
      (heeds → node.AgreesUpTo leader (min commit node.engine.lastAppliedSequence)) := by
  rw [engine, ← position]
  constructor
  · intro agrees heeded sequence below
    exact agrees sequence (hears.commits heeded ▸ le_max_of_le_right below)
  · intro agrees sequence below uncommitted
    by_cases heeded : heeds
    · rw [hears.commits heeded] at below
      exact agrees heeded sequence
        ((le_max_iff.mp below).resolve_left (Nat.not_le.mpr uncommitted.1)) uncommitted
    · rw [hears.ignored heeded] at below
      exact absurd uncommitted.1 (Nat.not_lt.mpr below)

theorem agreesUpTo_iff_of_replaced {leader after : Node} {commit base : Nat}
    {entries : List WalEntry} (logged : leader.engine.Logged)
    (covered : commit ≤ leader.engine.lastAppliedSequence)
    (members : ∀ entry ∈ entries, entry ∈ leader.engine.walEntries)
    (replaced : node.engine.SuffixReplaced base entries after.engine)
    (raised : after.replication.commitSequence = max (max node.replication.commitSequence
      (min commit node.engine.lastAppliedSequence)) (min commit (base + entries.length))) :
    (∀ sequence, sequence ≤ after.replication.commitSequence → node.Uncommitted leader sequence →
      entryAt after.engine.walEntries sequence = entryAt leader.engine.walEntries sequence) ↔
      node.AgreesUpTo leader (min commit base) ∧
      ∀ sequence, sequence ≤ min commit node.engine.lastAppliedSequence →
        node.Uncommitted leader sequence → sequence ≤ base + entries.length := by
  rw [raised]
  have carried := Engine.entryAt_of_from replaced.numbered
  constructor
  · intro agrees
    refine ⟨?_, ?_⟩
    · intro sequence below uncommitted
      have here := agrees sequence (by omega) uncommitted
      rwa [replaced.entryAt_eq, if_pos (by omega)] at here
    · intro sequence below uncommitted
      by_contra beyond
      have here := agrees sequence (by omega) uncommitted
      rw [replaced.entryAt_eq, if_neg (by omega)] at here
      obtain ⟨entry, member, number, -⟩ | ⟨absent, -⟩ := carried sequence
      · have := replaced.numbered.mem_bounds member
        omega
      · rw [absent] at here
        have found := logged.entryAt_isSome_iff.mpr ⟨uncommitted.2.2, by omega⟩
        rw [← here] at found
        cases found
  · rintro ⟨agrees, reaches⟩ sequence below uncommitted
    have above := uncommitted.1
    rw [replaced.entryAt_eq]
    split
    · rename_i low
      exact agrees sequence (by omega) uncommitted
    · rename_i high
      obtain ⟨entry, member, number, found⟩ | ⟨-, outside⟩ := carried sequence
      · rw [found, (logged.entryAt_eq_some_iff).mpr ⟨members entry member, number⟩]
      · by_cases heard : sequence ≤ min commit node.engine.lastAppliedSequence
        · have := reaches sequence heard uncommitted
          omega
        · omega

/-- **Where the commit point of a follower covers the leader's entries.** Handling a message
raises the commit point over entries of the sender exactly when they were so before, as far as the
message lets it move; an append that is taken over has to reach as far. -/
theorem raised_commit_agrees_iff (follower leader : Node) (earlier : List LeaderMessage)
    (message : LeaderMessage) (following : follower.Following)
    (received : ∀ message ∈ earlier, ∃ leader : Node,
      leader.engine.Logged ∧ message.SentBy leader)
    (logged : leader.engine.Logged)
    (covered : leader.replication.commitSequence ≤ leader.engine.lastAppliedSequence)
    (recognizes : (earlier.foldl receive follower).engine.Recognizes leader.engine.walEntries)
    (sent : message.SentBy leader) :
    (∀ sequence,
      sequence ≤ ((earlier.foldl receive follower).receive message).replication.commitSequence →
      (earlier.foldl receive follower).Uncommitted leader sequence →
        entryAt ((earlier.foldl receive follower).receive message).engine.walEntries sequence =
          entryAt leader.engine.walEntries sequence) ↔
      (earlier.foldl receive follower).CommitBacked leader message := by
  have reached := following.foldl_receive received
  generalize earlier.foldl receive follower = node at reached recognizes ⊢
  cases message with
  | heartbeat request =>
    exact agreesUpTo_iff reached.position rfl (node.replication.hears_handleHeartbeat request)
  | status report =>
    exact agreesUpTo_iff reached.position rfl (node.replication.hears_observeLeaderStatus report)
  | append nowMs request =>
    obtain ⟨target, built⟩ := sent
    obtain ⟨carried, sameCommit⟩ := carriedFrom_of_appendRequest logged built
    rcases handleAppend_cases reached.clustered nowMs request with
      ⟨refused, engine, hears, -⟩ | ⟨heeded, takes, applied, done, commit, -⟩
    · refine (agreesUpTo_iff reached.position engine hears).trans (forall_congr' fun heeded => ?_)
      have spared : ¬ node.TakesOver nowMs request := fun takes => refused ⟨heeded, takes⟩
      exact ⟨fun agrees => ⟨fun _ => agrees, fun takes => absurd takes spared⟩,
        fun backed => backed.1 spared⟩
    · obtain ⟨took, rfl⟩ := tookOver reached.logged carried takes done
      have replaced := took.suffixReplaced carried.numbered fun own member entry among =>
        recognizes own member entry (carried.members entry among)
      rw [reached.position, replaced.position] at commit
      exact (agreesUpTo_iff_of_replaced logged (sameCommit ▸ covered) carried.members replaced
        commit).trans ⟨fun agrees _ => ⟨fun refused => absurd takes refused, fun _ => agrees⟩,
          fun backed => (backed heeded).2 takes⟩

end Node

section Samples

open Sample Node

def threeMembers : List ClusterMember :=
  [⟨"a", "a:1", true⟩, ⟨"b", "b:1", true⟩, ⟨"c", "c:1", true⟩]

def thirdOf (id : NodeId) : ReplicationConfig := ⟨id, some id, .follower, .replica, 2, threeMembers⟩

def engineWith (entries : List WalEntry) : Engine :=
  match (Engine.create ⟨0, 0⟩ 0).applyReplicationEntries entries with
  | .ok (engine, _) => engine
  | .error _ => Engine.create ⟨0, 0⟩ 0

theorem engineWith_logged (entries : List WalEntry) : (engineWith entries).Logged := by
  have created : (Engine.create ⟨0, 0⟩ 0).Logged :=
    ⟨⟨1, Nat.one_pos, trivial, rfl⟩, fun _ => rfl⟩
  unfold engineWith
  split
  · rename_i engine applied done
    exact (Engine.suffixReplaced_of_applied created done).1.logged
  · exact created

def voterWith (id : NodeId) (role : ReplicationRole) (term commitSequence : Nat)
    (entries : List WalEntry) : Node :=
  Node.published
    { config := thirdOf id
      replication := { ReplicationState.new (thirdOf id) none with
        role := role, currentTerm := term, commitSequence := commitSequence }
      persisted := none
      engine := engineWith entries
      readIndex := CommittedReadIndex.new }

def agreedEntry : WalEntry := ⟨1, 1, 0, [.set "x" [49] 1]⟩

def abandonedEntry : WalEntry := ⟨2, 1, 0, [.set "x" [50] 2]⟩

def electedEntry : WalEntry := ⟨2, 2, 0, [.set "x" [51] 2]⟩

def secondLeader : Node := voterWith "a" .leader 2 2 [agreedEntry, electedEntry]

theorem secondLeader_logged : secondLeader.engine.Logged :=
  engineWith_logged [agreedEntry, electedEntry]

theorem following_voterWith (id : NodeId) {role : ReplicationRole}
    (clustered : role = .follower) (term commitSequence : Nat) (entries : List WalEntry) :
    (voterWith id role term commitSequence entries).Following := by
  subst clustered
  exact ⟨engineWith_logged entries, rfl, by simp [voterWith, Node.published,
    ReplicationState.publish, ReplicationState.setLocalLastAppliedState]⟩

/-- A follower that lacks the last entry gets it with the first append after a heartbeat. -/
theorem append_commits_carried_entry :
    ∃ heartbeat request, (LeaderMessage.heartbeat heartbeat).SentBy secondLeader ∧
      (LeaderMessage.append 0 request).SentBy secondLeader ∧
      let heard := [LeaderMessage.heartbeat heartbeat].foldl receive
        (voterWith "b" .follower 1 0 [agreedEntry])
      heard.replication.commitSequence = 1 ∧
      (heard.receive (.append 0 request)).replication.commitSequence = 2 ∧
      ∀ sequence,
        sequence ≤ (heard.receive (.append 0 request)).replication.commitSequence →
        heard.Uncommitted secondLeader sequence →
          entryAt (heard.receive (.append 0 request)).engine.walEntries sequence =
            entryAt secondLeader.engine.walEntries sequence := by
  have sends : ∃ heartbeat ∈ secondLeader.replication.leaderHeartbeatPayload secondLeader.config,
      ∃ request ∈ secondLeader.appendRequest "b",
        let heard := [LeaderMessage.heartbeat heartbeat].foldl receive
          (voterWith "b" .follower 1 0 [agreedEntry])
        heard.replication.commitSequence = 1 ∧
        (heard.receive (.append 0 request)).replication.commitSequence = 2 ∧
        heard.engine.Recognizes secondLeader.engine.walEntries ∧
        heard.CommitBacked secondLeader (.append 0 request) := by decide +kernel
  obtain ⟨heartbeat, beats, request, built, before, after, recognizes, backed⟩ := sends
  have sent : (LeaderMessage.heartbeat heartbeat).SentBy secondLeader := beats
  refine ⟨heartbeat, request, sent, ⟨"b", built⟩, before, after, ?_⟩
  exact (raised_commit_agrees_iff _ secondLeader [.heartbeat heartbeat] (.append 0 request)
    (following_voterWith "b" rfl 1 0 [agreedEntry])
    (by simpa using ⟨secondLeader, secondLeader_logged, sent⟩) (secondLeader_logged)
    (by decide +kernel) recognizes ⟨"b", built⟩).mpr backed

/-- **A heartbeat commits a divergent entry**, which the follower alone had written. -/
theorem heartbeat_commits_divergent_entry :
    (voterWith "b" .follower 1 1 [agreedEntry, abandonedEntry]).Following ∧
    secondLeader.engine.Logged ∧
    secondLeader.replication.commitSequence ≤ secondLeader.engine.lastAppliedSequence ∧
    ∃ heartbeat, (LeaderMessage.heartbeat heartbeat).SentBy secondLeader ∧
      let heard := (voterWith "b" .follower 1 1 [agreedEntry, abandonedEntry]).receive
        (.heartbeat heartbeat)
      heard.replication.commitSequence = 2 ∧
      entryAt heard.engine.walEntries 2 = some abandonedEntry ∧
      entryAt secondLeader.engine.walEntries 2 = some electedEntry := by
  have beats : ∃ heartbeat ∈ secondLeader.replication.leaderHeartbeatPayload secondLeader.config,
      let heard := (voterWith "b" .follower 1 1 [agreedEntry, abandonedEntry]).receive
        (.heartbeat heartbeat)
      heard.replication.commitSequence = 2 ∧
      entryAt heard.engine.walEntries 2 = some abandonedEntry ∧
      entryAt secondLeader.engine.walEntries 2 = some electedEntry := by decide +kernel
  obtain ⟨heartbeat, sent, committed⟩ := beats
  exact ⟨following_voterWith "b" rfl _ _ _, secondLeader_logged, by decide +kernel, heartbeat,
    sent, committed⟩

end Samples

end Vaylix
