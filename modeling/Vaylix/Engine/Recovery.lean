import Vaylix.Engine.Segments

/-!
# What an opened directory guarantees

Whatever the directory held, a replay that succeeds has checked that the entries
are consecutive, so an opened engine starts with a contiguous log.
-/

namespace Vaylix

open NumberedLog

def Disk.snapshotSequence (disk : Disk) : Nat :=
  (disk.snapshot.map fun state => state.metadata.lastAppliedSequence).getD 0

def Sample.survivors (saved : Option Nat) (sequences : List Nat) : Disk :=
  ⟨false, saved.map fun sequence => ⟨.new, ⟨1, 0, 0, none, sequence⟩⟩, none,
    [⟨sequences.headD 1, none, sequences.map fun sequence => ⟨sequence, 1, 0, []⟩⟩]⟩

namespace WalDir

variable {expected next : Option Nat} {entries : List WalEntry}

theorem checkContiguous_ok (checked : checkContiguous expected entries = .ok next) :
    entries = [] ∧ next = expected ∨
      ∃ first, From WalEntry.sequence first entries ∧ next = some (first + entries.length) ∧
        ∀ n, expected = some n → n = first := by
  induction entries generalizing expected with
  | nil =>
    cases checked
    exact .inl ⟨rfl, rfl⟩
  | cons entry rest ih =>
    right
    have following : checkContiguous (some (entry.sequence + 1)) rest = .ok next ∧
        ∀ n, expected = some n → n = entry.sequence := by
      unfold checkContiguous at checked
      split at checked
      · split at checked
        · rename_i same
          exact ⟨checked, fun m named => by cases named; exact same.symm⟩
        · cases checked
      · exact ⟨checked, fun m named => by cases named⟩
    refine ⟨entry.sequence, ?_⟩
    rcases ih following.1 with ⟨rfl, rfl⟩ | ⟨first, numbered, rfl, expects⟩
    · exact ⟨⟨rfl, trivial⟩, rfl, following.2⟩
    · obtain rfl := expects _ rfl
      refine ⟨⟨rfl, numbered⟩, ?_, following.2⟩
      rw [List.length_cons]
      congr 1
      omega

variable [Codec]

theorem replaySegment_ok {segment : SegmentFile}
    (replayed : replaySegment expected segment = .ok (next, entries)) :
    entries = segment.entries ∧ checkContiguous expected entries = .ok next := by
  unfold replaySegment at replayed
  split at replayed
  · cases replayed
  · rename_i found read
    obtain rfl := readSegmentEntries_ok read
    split at replayed
    · split at replayed
      · cases replayed
      · split at replayed
        · cases replayed
        · split at replayed
          · cases replayed
          · rename_i checked
            cases replayed
            exact ⟨rfl, checked⟩
    · rename_i empty
      split at replayed <;> cases replayed
      cases held : segment.entries with
      | nil => exact ⟨rfl, rfl⟩
      | cons head rest =>
        exact (empty head _ (by rw [held]; rfl)
          (List.getLast?_eq_getLast_of_ne_nil (by simp [held]))).elim

/-- A replay that succeeds has read consecutive entries. -/
theorem replaySegments_ok {segments : List SegmentFile}
    (replayed : replaySegments expected segments = .ok entries) :
    entries = segmentEntries segments ∧ (entries = [] ∨
      ∃ first, From WalEntry.sequence first entries ∧ ∀ n, expected = some n → n = first) := by
  induction segments generalizing expected entries with
  | nil =>
    cases replayed
    exact ⟨rfl, .inl rfl⟩
  | cons segment rest ih =>
    unfold replaySegments at replayed
    split at replayed
    · cases replayed
    · rename_i next found here
      split at replayed
      · cases replayed
      · rename_i later following
        cases replayed
        obtain ⟨rfl, checked⟩ := replaySegment_ok here
        obtain ⟨rfl, numberedLater⟩ := ih following
        refine ⟨rfl, ?_⟩
        rcases checkContiguous_ok checked with ⟨none, rfl⟩ | ⟨first, numbered, rfl, expects⟩
        · rwa [none, List.nil_append]
        · right
          refine ⟨first, ?_, expects⟩
          rcases numberedLater with none | ⟨second, laterNumbered, continues⟩
          · rwa [none, List.append_nil]
          · rw [from_append]
            exact ⟨numbered, continues _ rfl ▸ laterNumbered⟩

theorem replay_ok {dir : WalDir} (replayed : dir.replay = .ok entries) :
    entries = segmentEntries dir.listSegments ∧
      (entries = [] ∨ ∃ first, From WalEntry.sequence first entries) := by
  unfold replay at replayed
  dsimp only at replayed
  split at replayed
  · cases replayed
  · obtain ⟨held, numbered⟩ := replaySegments_ok replayed
    exact ⟨held, numbered.imp_right fun ⟨first, numbered, _⟩ => ⟨first, numbered⟩⟩

end WalDir

/-- The manifest passes as the description of a saved state. -/
def Manifest.Describes [Codec] (manifest : Manifest) (state : EngineState) : Prop :=
  manifest.storageFormatVersion = Vaylix.storageFormatVersion ∧
    manifest.snapshotSizeBytes = Codec.snapshotLen state ∧
    manifest.snapshotChecksum = Codec.snapshotChecksum state ∧
    manifest.lastSnapshotSequence = state.metadata.lastAppliedSequence

theorem validateManifestSnapshot_ok_iff [Codec] {snapshot : Option EngineState}
    {manifest : Manifest} : validateManifestSnapshot snapshot manifest = .ok () ↔
      ∃ state ∈ snapshot, manifest.Describes state := by
  unfold validateManifestSnapshot Manifest.Describes
  cases snapshot with
  | none => split_ifs <;> simp
  | some state =>
    dsimp only
    split_ifs with version size checksum sequence <;> simp_all [eq_comm]

namespace Engine

variable [Codec] {disk : Disk} {options : EngineOptions} {nowMs : Nat} {engine : Engine}

/-- Recovery loads the keyspace and position of the snapshot, which a manifest has to describe. -/
theorem recoveryBaseline_ok {state : EngineState}
    (loaded : recoveryBaseline disk nowMs = .ok state) :
    state.store = (disk.snapshot.getD (.new nowMs)).store ∧
      state.metadata.lastAppliedSequence =
        (disk.snapshot.getD (.new nowMs)).metadata.lastAppliedSequence ∧
      ∀ manifest ∈ disk.manifest, ∃ saved ∈ disk.snapshot, manifest.Describes saved := by
  unfold recoveryBaseline at loaded
  cases described : disk.manifest with
  | none =>
    rw [described] at loaded
    cases loaded
    exact ⟨rfl, rfl, by rintro _ ⟨⟩⟩
  | some manifest =>
    rw [described] at loaded
    dsimp only at loaded
    split at loaded
    · cases loaded
    · rename_i valid
      cases loaded
      obtain ⟨saved, held, describes⟩ := validateManifestSnapshot_ok_iff.mp valid
      rw [Option.mem_def.mp held]
      refine ⟨rfl, by simp [describes.2.2.2], ?_⟩
      rintro _ ⟨⟩
      exact ⟨saved, rfl, describes⟩

/-- Opening succeeds when the snapshot loads and the entries are read, indexed and replayed. -/
theorem fromPathsWithOptions_ok_iff :
    fromPathsWithOptions disk options nowMs = .ok engine ↔
      disk.legacyWal = false ∧ ∃ baseline entries identities state,
        recoveryBaseline disk nowMs = .ok baseline ∧ disk.walDir.replay = .ok entries ∧
        buildWalEntryIdentities entries = .ok identities ∧
        baseline.replayEntries entries = .ok state ∧
        engine = (let opened := WalWriter.open disk.walDir (state.metadata.lastAppliedSequence + 1)
          ⟨state, options, { disk with walDir := opened.1 }, opened.2, entries,
            identities, 0⟩) := by
  unfold fromPathsWithOptions
  cases disk.legacyWal with
  | true => simp
  | false =>
    cases recoveryBaseline disk nowMs with
    | error err => simp
    | ok baseline =>
      cases disk.walDir.replay with
      | error err => simp
      | ok entries =>
        cases indexed : buildWalEntryIdentities entries with
        | error err => simp [indexed]
        | ok identities =>
          cases rebuilt : baseline.replayEntries entries <;> simp [indexed, rebuilt, eq_comm]

theorem logContiguous_of_opened (opened : fromPathsWithOptions disk options nowMs = .ok engine) :
    engine.LogContiguous := by
  obtain ⟨-, baseline, entries, identities, state, -, replayed, -, rebuilt, rfl⟩ :=
    fromPathsWithOptions_ok_iff.mp opened
  obtain ⟨store, -, rfl⟩ := (EngineState.replayEntries_ok_iff _ _ _).mp rebuilt
  change ∃ first, From WalEntry.sequence first entries ∧
    first + entries.length = (baseline.metadata.after entries).lastAppliedSequence + 1
  rcases (WalDir.replay_ok replayed).2 with rfl | ⟨first, numbered⟩
  · exact ⟨_, trivial, rfl⟩
  · cases last : entries.getLast? with
    | none =>
      obtain rfl := List.getLast?_eq_none_iff.mp last
      exact ⟨_, trivial, rfl⟩
    | some entry =>
      refine ⟨first, numbered, ?_⟩
      have final := numbered.getLast?_number last
      simp only [EngineMetadata.after, last]
      omega

/-- **Opening misses no history exactly when the retained entries reach from the snapshot**: they
start no later than behind it and do not end before it. -/
theorem recovers_history_iff (disk : Disk) (options : EngineOptions) (nowMs : Nat)
    (engine : Engine) (opened : fromPathsWithOptions disk options nowMs = .ok engine) :
    ((∀ entry ∈ engine.walEntries.head?, entry.sequence ≤ disk.snapshotSequence + 1) ∧
        disk.snapshotSequence ≤ engine.lastAppliedSequence) ↔
      ∀ entry ∈ (segmentEntries disk.walDir.listSegments).head?,
        entry.sequence ≤ disk.snapshotSequence + 1 ∧ disk.snapshotSequence <
          entry.sequence + (segmentEntries disk.walDir.listSegments).length := by
  obtain ⟨first, numbered, final⟩ := logContiguous_of_opened opened
  obtain ⟨-, baseline, entries, identities, state, loaded, replayed, -, rebuilt, rfl⟩ :=
    fromPathsWithOptions_ok_iff.mp opened
  obtain ⟨store, -, rfl⟩ := (EngineState.replayEntries_ok_iff _ _ _).mp rebuilt
  rw [← (WalDir.replay_ok replayed).1]
  dsimp only at numbered final ⊢
  cases entries with
  | nil =>
    have position : disk.snapshotSequence = baseline.metadata.lastAppliedSequence := by
      rw [(recoveryBaseline_ok loaded).2.1, Disk.snapshotSequence]
      cases disk.snapshot <;> rfl
    simpa [lastAppliedSequence, EngineMetadata.after] using position.le
  | cons entry rest =>
    obtain ⟨rfl, -⟩ := numbered
    simp only [List.head?_cons, Option.mem_some_iff, forall_eq']
    omega

end Engine

section Samples

open Sample Engine

theorem recovers_history_overlapping :
    ∃ engine, fromPathsWithOptions (survivors (some 2) [2, 3]) ⟨0, 1⟩ 0 = .ok engine ∧
      (∀ entry ∈ engine.walEntries.head?,
        entry.sequence ≤ (survivors (some 2) [2, 3]).snapshotSequence + 1) ∧
      (survivors (some 2) [2, 3]).snapshotSequence ≤ engine.lastAppliedSequence :=
  ⟨_, rfl, (recovers_history_iff _ _ _ _ rfl).mpr (by decide +kernel)⟩

/-- The entries 1 to 4 are gone, or those that a snapshot at 10 covers end at 2. -/
theorem opens_with_lost_history :
    (∃ engine ∈ (fromPathsWithOptions (survivors none [5]) ⟨0, 1⟩ 0).toOption,
      ∃ entry ∈ engine.walEntries.head?,
        ¬entry.sequence ≤ (survivors none [5]).snapshotSequence + 1) ∧
    ∃ engine ∈ (fromPathsWithOptions (survivors (some 10) [1, 2]) ⟨0, 1⟩ 0).toOption,
      ¬(survivors (some 10) [1, 2]).snapshotSequence ≤ engine.lastAppliedSequence := by
  decide +kernel

end Samples

end Vaylix
