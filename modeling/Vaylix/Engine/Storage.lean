import Vaylix.Engine.Core

/-!
# Opening, snapshotting and rewriting the storage

Recovery loads the snapshot, checks it against the manifest and replays every retained entry.
Replication appends foreign entries, or rebuilds the state from the snapshot with a replaced
log suffix.
-/

namespace Vaylix

namespace EngineState

def replayEntries (state : EngineState) : List WalEntry → Except EngineError EngineState
  | [] => .ok state
  | entry :: rest =>
    match state.applyEntry entry with
    | (next, none) => next.replayEntries rest
    | (_, some err) => .error err

end EngineState

def validateManifestSnapshot [Codec] (snapshot : Option EngineState) (manifest : Manifest) :
    Except EngineError Unit :=
  if manifest.storageFormatVersion ≠ storageFormatVersion then
    .error (.unsupportedStorageFormat "manifest")
  else
    match snapshot with
    | none => .error (.checksumMismatch "snapshot")
    | some state =>
      if manifest.snapshotSizeBytes ≠ Codec.snapshotLen state then
        .error (.checksumMismatch "snapshot")
      else if Codec.snapshotChecksum state ≠ manifest.snapshotChecksum then
        .error (.checksumMismatch "snapshot")
      else if state.metadata.lastAppliedSequence ≠ manifest.lastSnapshotSequence then
        .error (.manifestDeserialize
          (s!"snapshot sequence {state.metadata.lastAppliedSequence} does not match " ++
            s!"manifest sequence {manifest.lastSnapshotSequence}"))
      else .ok ()

namespace Engine

variable [Codec] (engine : Engine)

def recoveryBaseline (disk : Disk) (nowMs : Nat) : Except EngineError EngineState :=
  let state := disk.snapshot.getD (EngineState.new nowMs)
  match disk.manifest with
  | none => .ok state
  | some manifest =>
    match validateManifestSnapshot disk.snapshot manifest with
    | .error err => .error err
    | .ok () => .ok { state with metadata := { state.metadata with
        lastSnapshotAtMs := some manifest.lastSnapshotAtMs
        lastAppliedSequence :=
          max state.metadata.lastAppliedSequence manifest.lastSnapshotSequence } }

def fromPathsWithOptions (disk : Disk) (options : EngineOptions) (nowMs : Nat) :
    Except EngineError Engine :=
  if disk.legacyWal then .error (.storageMigrationRequired "legacy wal layout")
  else
    match recoveryBaseline disk nowMs with
    | .error err => .error err
    | .ok baseline =>
      match disk.walDir.replay with
      | .error err => .error err
      | .ok walEntries =>
        match buildWalEntryIdentities walEntries with
        | .error err => .error err
        | .ok identities =>
          match baseline.replayEntries walEntries with
          | .error err => .error err
          | .ok state =>
            let (walDir, writer) :=
              WalWriter.open disk.walDir (state.metadata.lastAppliedSequence + 1)
            .ok ⟨state, options, { disk with walDir := walDir }, writer, walEntries,
              identities, 0⟩

def snapshotManifest (durable : EngineState) (walDir : WalDir) (sequence atMs : Nat) : Manifest :=
  { storageFormatVersion := storageFormatVersion
    engineVersion := durable.metadata.version
    lastSnapshotSequence := sequence
    lastSnapshotAtMs := atMs
    snapshotSizeBytes := Codec.snapshotLen durable
    snapshotChecksum := Codec.snapshotChecksum durable
    activeWalStartSequence := sequence + 1
    oldestRetainedSequence := walDir.oldestRetainedSequence.getD (sequence + 1) }

/-- The source closes its writer before it seals, so that after an error of `sealActive` every
later append fails; the writer of the model has no closed state and stays as it was. -/
def snapshot (reading : Reading) : Engine × Option EngineError :=
  let state := engine.state.purgeExpired reading.now
  let sequence := state.metadata.lastAppliedSequence
  let durable := state.markSnapshot reading.later sequence
  let saved := { engine with state := state, disk := { engine.disk with snapshot := some durable } }
  match saved.disk.walDir.sealActive with
  | .error err => (saved, some err)
  | .ok sealed =>
    let created := sealed.createActiveSegment (sequence + 1)
    let (opened, writer) := WalWriter.open created (sequence + 1)
    let walDir := opened.pruneSealedSegments engine.options.walRetainSegments
    let manifest := snapshotManifest durable walDir sequence reading.later
    let written := { saved with
      disk := { saved.disk with walDir := walDir, manifest := some manifest }, writer := writer }
    match walDir.replay with
    | .error err => ({ written with state := durable }, some err)
    | .ok walEntries =>
      match buildWalEntryIdentities walEntries with
      | .error err => ({ written with state := durable, walEntries := walEntries }, some err)
      | .ok identities =>
        ({ written with
            state := durable
            walEntries := walEntries
            walEntryIdentities := identities }, none)

/-- Adds an entry to a log cache that has to stay in order. -/
def pushUniqueWalEntry (entries : List WalEntry) (entry : WalEntry) :
    Except EngineError (List WalEntry) :=
  match entries.getLast? with
  | none => .ok (entries ++ [entry])
  | some last =>
    if entry.sequence < last.sequence then
      .error (.invalidStorageOperation
        s!"non-monotonic in-memory WAL cache: previous {last.sequence}, got {entry.sequence}")
    else if entry.sequence = last.sequence then
      if entry.term ≠ last.term ∨ entry.checksum ≠ last.checksum then
        .error (.invalidStorageOperation
          s!"conflicting duplicate in-memory WAL entry at sequence {entry.sequence}")
      else .ok entries
    else .ok (entries ++ [entry])

/-- `wal_entries_since`: the retained entries after a sequence; limit 0 is no limit. -/
def walEntriesSince (afterSequence limit : Nat) : Except EngineError (List WalEntry) :=
  match (engine.walEntries.filter fun entry => decide (afterSequence < entry.sequence)).foldlM
      pushUniqueWalEntry [] with
  | .error err => .error err
  | .ok entries => .ok (if 0 < limit ∧ limit < entries.length then entries.take limit else entries)

def stageEntries (staged : EngineState) (lastApplied : Nat) :
    List WalEntry → Except EngineError (EngineState × Nat)
  | [] => .ok (staged, lastApplied)
  | entry :: rest =>
    if entry.sequence ≠ lastApplied + 1 then
      .error (.invalidStorageOperation
        s!"replication WAL sequence gap: expected {lastApplied + 1}, got {entry.sequence}")
    else
      match staged.applyEntry entry with
      | (_, some err) => .error err
      | (next, none) => stageEntries next entry.sequence rest

def applyReplicationEntries (entries : List WalEntry) : Except EngineError (Engine × Nat) :=
  match stageEntries engine.state engine.lastAppliedSequence entries with
  | .error err => .error err
  | .ok (staged, lastApplied) =>
    match buildWalEntryIdentities entries with
    | .error err => .error err
    | .ok identities =>
      let engine := engine.appendWal entries
      .ok ({ engine with
        state := staged
        walEntries := engine.walEntries ++ entries
        walEntryIdentities := engine.walEntryIdentities.extend identities }, lastApplied)

/-- An entry at or below the kept prefix has to agree with the retained one. -/
def replacementAfter (baseline prefixSequence : Nat) (retained : List WalEntry) :
    List WalEntry → List WalEntry → Except EngineError (List WalEntry)
  | [], acc => .ok acc
  | entry :: rest, acc =>
    if entry.sequence ≤ prefixSequence then
      if baseline < entry.sequence then
        match retained.find? fun candidate => decide (candidate.sequence = entry.sequence) with
        | none => .error (.invalidStorageOperation
            s!"replication replacement overlap missing retained sequence {entry.sequence}")
        | some localEntry =>
          if localEntry.term ≠ entry.term ∨ localEntry.checksum ≠ entry.checksum then
            .error (.invalidStorageOperation
              s!"replication replacement overlap mismatch at sequence {entry.sequence}")
          else replacementAfter baseline prefixSequence retained rest acc
      else replacementAfter baseline prefixSequence retained rest acc
    else
      match pushUniqueWalEntry acc entry with
      | .error err => .error err
      | .ok acc => replacementAfter baseline prefixSequence retained rest acc

def checkReplacement (expected : Nat) : List WalEntry → Except EngineError Unit
  | [] => .ok ()
  | entry :: rest =>
    if entry.sequence ≠ expected then
      .error (.invalidStorageOperation
        s!"replication replacement gap: expected {expected}, got {entry.sequence}")
    else checkReplacement (expected + 1) rest

def retainedUpTo (prefixSequence : Nat) : Except EngineError (List WalEntry) :=
  (engine.walEntries.filter fun entry => decide (entry.sequence ≤ prefixSequence)).foldlM
    pushUniqueWalEntry []

def checkPrefix (baseline prefixSequence : Nat) (retained : List WalEntry) :
    Except EngineError Unit :=
  match retained.getLast? with
  | some last =>
    if last.sequence ≠ prefixSequence then
      .error (.invalidStorageOperation
        (s!"replication prefix gap: expected retained sequence {prefixSequence}, " ++
          s!"got {last.sequence}"))
    else .ok ()
  | none =>
    if prefixSequence ≠ baseline then
      .error (.invalidStorageOperation
        s!"replication prefix gap: expected baseline {baseline}, got {prefixSequence}")
    else .ok ()

def checkBaseline (baseline prefixSequence : Nat) : Except EngineError Unit :=
  if prefixSequence < baseline then
    .error (.invalidStorageOperation
      s!"replication prefix {prefixSequence} is older than snapshot baseline {baseline}")
  else .ok ()

def snapshotBaseline (nowMs : Nat) : EngineState :=
  engine.disk.snapshot.getD (EngineState.new nowMs)

/-- The log directory after its entries were rewritten, and the reopened writer. -/
def rewriteWal (baseline : Nat) (entries : List WalEntry) : WalDir × WalWriter :=
  let dir := match entries with
    | [] => WalDir.createActiveSegment [] (baseline + 1)
    | _ => WalDir.writeEntries engine.options.walSegmentSizeBytes entries
  let nextSequence := match entries.getLast? with
    | some last => last.sequence + 1
    | none => baseline + 1
  WalWriter.open dir nextSequence

/-- Keeps the log up to `prefixSequence`, puts `entries` after it and rebuilds the state. -/
def replaceReplicationSuffix (nowMs prefixSequence : Nat)
    (entries : List WalEntry) : Except EngineError (Engine × Nat) := do
  let snapshotState := engine.snapshotBaseline nowMs
  let baseline := snapshotState.metadata.lastAppliedSequence
  checkBaseline baseline prefixSequence
  let retained ← engine.retainedUpTo prefixSequence
  checkPrefix baseline prefixSequence retained
  let replacement ← replacementAfter baseline prefixSequence retained entries []
  checkReplacement (prefixSequence + 1) replacement
  let log := retained ++ replacement
  let rebuilt ← snapshotState.replayEntries log
  let identities ← buildWalEntryIdentities log
  let (walDir, writer) := engine.rewriteWal baseline log
  return ({ engine with
    state := rebuilt
    disk := { engine.disk with walDir := walDir }
    writer := writer
    walEntries := log
    walEntryIdentities := identities }, rebuilt.metadata.lastAppliedSequence)

end Engine

end Vaylix
