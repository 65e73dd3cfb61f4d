import Vaylix.Engine.Storage

/-!
# Installing the snapshot of another node

A node that lacks entries its leader has no longer got is sent the leader's state. The
state replaces the one that is there, whichever of the two is newer, and the log starts
again behind it: neither the entries nor their terms are kept.
-/

namespace Vaylix

/-- `ReplicationSnapshot`, without the time of its export. -/
structure ReplicationSnapshot where
  state : EngineState
  storageFormatVersion : Nat

namespace Engine

variable [Codec]

def replicationSnapshot (engine : Engine) : ReplicationSnapshot :=
  ⟨engine.state, storageFormatVersion⟩

def applyReplicationSnapshot (engine : Engine) (nowMs : Nat) (snapshot : ReplicationSnapshot) :
    Except EngineError Engine :=
  if snapshot.storageFormatVersion ≠ storageFormatVersion then
    .error (.unsupportedStorageFormat "replication snapshot")
  else
    let sequence := snapshot.state.metadata.lastAppliedSequence
    let state := snapshot.state.markSnapshot nowMs sequence
    let (walDir, writer) :=
      WalWriter.open (WalDir.createActiveSegment [] (sequence + 1)) (sequence + 1)
    .ok { engine with
      state := state
      disk := { engine.disk with
        snapshot := some state
        walDir := walDir
        manifest := some (snapshotManifest state walDir sequence nowMs) }
      writer := writer
      walEntries := []
      walEntryIdentities := ∅ }

end Engine

end Vaylix
