import Vaylix.Engine.Command
import Mathlib.Algebra.Ring.Nat
import Mathlib.Data.List.Sort

/-!
# The segmented write-ahead log on disk

At most one *active* file that the writer appends to, and *sealed* files whose names state the
range they hold. File contents are the entries they decode to, since encoding, encryption and
the filesystem are assumed to round-trip; the lengths that drive rotation and the reader's
limit are parameters.
-/

namespace Vaylix

/-- The encodings the engine depends on, left abstract. -/
class Codec where
  /-- CRC of the encoded entry, the replication identity. -/
  checksum : WalEntry → UInt32
  /-- Length of an entry as it stands in a segment, after encryption. -/
  durableLen : WalEntry → Nat
  durableLen_pos : ∀ entry, 0 < durableLen entry
  /-- Length and CRC of the serialized snapshot of a state. -/
  snapshotLen : EngineState → Nat
  snapshotChecksum : EngineState → UInt32
  /-- Decoding of a logical backup document. -/
  parseLogicalBackup : String → Except EngineError LogicalBackup

def WalEntry.checksum [Codec] (entry : WalEntry) : UInt32 := Codec.checksum entry

def maxWalEntrySize : Nat := 4 * 1024 * 1024

structure EngineOptions where
  walSegmentSizeBytes : Nat
  walRetainSegments : Nat
deriving DecidableEq, Repr

/-- One file of the log directory; a file without an end sequence is the active one. -/
structure SegmentFile where
  startSequence : Nat
  endSequence : Option Nat
  entries : List WalEntry
deriving DecidableEq, Repr

namespace SegmentFile

def active (segment : SegmentFile) : Bool := segment.endSequence.isNone

def sortsBefore (left right : SegmentFile) : Prop :=
  left.startSequence < right.startSequence ∨
    (left.startSequence = right.startSequence ∧ (left.active = true → right.active = true))

def spans (segment : SegmentFile) (sequence : Nat) : Bool :=
  decide (segment.startSequence ≤ sequence ∧
    sequence ≤ segment.endSequence.getD segment.startSequence)

instance : DecidableRel sortsBefore := fun _ _ => inferInstanceAs (Decidable (_ ∨ _))

end SegmentFile

abbrev WalDir := List SegmentFile

namespace WalDir

def listSegments (dir : WalDir) : List SegmentFile := dir.insertionSort SegmentFile.sortsBefore

def activeSegmentFile (dir : WalDir) : Option SegmentFile :=
  dir.listSegments.find? SegmentFile.active

def hasActive (dir : WalDir) (startSequence : Nat) : Bool :=
  dir.any fun segment => segment.active && decide (segment.startSequence = startSequence)

def createActiveSegment (dir : WalDir) (startSequence : Nat) : WalDir :=
  if dir.hasActive startSequence then dir else dir ++ [⟨startSequence, none, []⟩]

def updateActive (dir : WalDir) (startSequence : Nat) (change : SegmentFile → SegmentFile) :
    WalDir :=
  dir.map fun segment =>
    if segment.active && decide (segment.startSequence = startSequence) then change segment
    else segment

end WalDir

structure WalWriter where
  activeStart : Nat
  fileLen : Nat
deriving DecidableEq, Repr

/-- A segment on disk, with the 8 bytes of length and checksum before each entry. -/
def segmentLen [Codec] (entries : List WalEntry) : Nat :=
  (entries.map fun entry => 8 + Codec.durableLen entry).sum

namespace WalWriter

variable [Codec]

/-- Opens the active file, creating it at `startSequence` when there is none. -/
def «open» (dir : WalDir) (startSequence : Nat) : WalDir × WalWriter :=
  match dir.activeSegmentFile with
  | some segment => (dir, ⟨segment.startSequence, segmentLen segment.entries⟩)
  | none => (dir ++ [⟨startSequence, none, []⟩], ⟨startSequence, 0⟩)

def rotateAfter (dir : WalDir) (writer : WalWriter) (lastSequence : Nat) : WalDir × WalWriter :=
  let sealed := dir.updateActive writer.activeStart fun segment =>
    { segment with endSequence := some lastSequence }
  (sealed.createActiveSegment (lastSequence + 1), ⟨lastSequence + 1, 0⟩)

/-- Writes one entry and rotates when the file has reached the size limit. -/
def appendEntry (maxSegmentSizeBytes : Nat) (dir : WalDir) (writer : WalWriter)
    (entry : WalEntry) : WalDir × WalWriter :=
  let dir := dir.updateActive writer.activeStart fun segment =>
    { segment with entries := segment.entries ++ [entry] }
  let writer := { writer with fileLen := writer.fileLen + (8 + Codec.durableLen entry) }
  if 0 < maxSegmentSizeBytes ∧ maxSegmentSizeBytes ≤ writer.fileLen then
    rotateAfter dir writer entry.sequence
  else (dir, writer)

def appendBatch (maxSegmentSizeBytes : Nat) (dir : WalDir) (writer : WalWriter)
    (entries : List WalEntry) : WalDir × WalWriter :=
  entries.foldl (fun (dir, writer) entry =>
    appendEntry maxSegmentSizeBytes dir writer entry) (dir, writer)

end WalWriter

namespace WalDir

variable [Codec]

def readSegmentEntries (segment : SegmentFile) : Except EngineError (List WalEntry) :=
  match segment.entries.find? fun entry => decide (maxWalEntrySize < Codec.durableLen entry) with
  | some entry =>
    .error (.walDeserialize s!"invalid WAL entry length {Codec.durableLen entry}")
  | none => .ok segment.entries

def sealActive (dir : WalDir) : Except EngineError WalDir :=
  match dir.activeSegmentFile with
  | none => .ok dir
  | some active =>
    match readSegmentEntries active with
    | .error err => .error err
    | .ok entries =>
      match entries.getLast? with
      | none => .ok (dir.filter fun segment =>
          !(segment.active && decide (segment.startSequence = active.startSequence)))
      | some last => .ok (dir.updateActive active.startSequence fun segment =>
          { segment with endSequence := some last.sequence })

/-- Removes the oldest sealed files so that at most `retainSegments` remain. -/
def pruneSealedSegments (dir : WalDir) (retainSegments : Nat) : WalDir :=
  let sealed := dir.listSegments.filter fun segment => !segment.active
  let removed := sealed.take (sealed.length - retainSegments)
  dir.filter fun segment => decide (segment ∉ removed)

/-- Leaves a file alone whose range has `minimumSequenceToKeep`, and counts the removed ones. -/
def pruneSealedSegmentsWithFloor (dir : WalDir) (retainSegments : Nat)
    (minimumSequenceToKeep : Option Nat) : Nat × WalDir :=
  let sealed := dir.listSegments.filter fun segment => !segment.active
  let removed := (sealed.take (sealed.length - retainSegments)).filter fun segment =>
    !minimumSequenceToKeep.any segment.spans
  (removed.length, dir.filter fun segment => decide (segment ∉ removed))

def checkContiguous (expected : Option Nat) : List WalEntry → Except EngineError (Option Nat)
  | [] => .ok expected
  | entry :: rest =>
    match expected with
    | some sequence =>
      if entry.sequence = sequence then checkContiguous (some (entry.sequence + 1)) rest
      else .error (.walDeserialize
        s!"non-contiguous WAL sequence: expected {sequence}, found {entry.sequence}")
    | none => checkContiguous (some (entry.sequence + 1)) rest

/-- The checks on one file of a replay and the sequence expected after it. -/
def replaySegment (expected : Option Nat) (segment : SegmentFile) :
    Except EngineError (Option Nat × List WalEntry) :=
  match readSegmentEntries segment with
  | .error err => .error err
  | .ok entries =>
    match entries.head?, entries.getLast? with
    | some first, some last =>
      if first.sequence ≠ segment.startSequence then
        .error (.walDeserialize s!"segment start sequence mismatch for {segment.startSequence}")
      else if segment.endSequence.any fun stop => decide (last.sequence ≠ stop) then
        .error (.walDeserialize s!"segment end sequence mismatch for {segment.startSequence}")
      else
        match checkContiguous expected entries with
        | .error err => .error err
        | .ok expected => .ok (expected, entries)
    | _, _ =>
      if segment.active then .ok (expected, [])
      else .error (.walDeserialize "sealed WAL segment is empty")

def replaySegments (expected : Option Nat) :
    List SegmentFile → Except EngineError (List WalEntry)
  | [] => .ok []
  | segment :: rest =>
    match replaySegment expected segment with
    | .error err => .error err
    | .ok (expected, entries) =>
      match replaySegments expected rest with
      | .error err => .error err
      | .ok following => .ok (entries ++ following)

def replay (dir : WalDir) : Except EngineError (List WalEntry) :=
  let segments := dir.listSegments
  let activeCount := (segments.filter SegmentFile.active).length
  if 1 < activeCount then
    .error (.walDeserialize s!"ambiguous WAL layout: found {activeCount} active segments")
  else replaySegments none segments

def writeEntries (maxSegmentSizeBytes : Nat) (entries : List WalEntry) : WalDir :=
  match entries.head? with
  | none => []
  | some first =>
    let (dir, writer) := WalWriter.open [] first.sequence
    (WalWriter.appendBatch maxSegmentSizeBytes dir writer entries).1

def oldestRetainedSequence (dir : WalDir) : Option Nat :=
  dir.listSegments.head?.map SegmentFile.startSequence

end WalDir

def storageFormatVersion : Nat := 3

structure Manifest where
  storageFormatVersion : Nat
  engineVersion : Nat
  lastSnapshotSequence : Nat
  lastSnapshotAtMs : Nat
  snapshotSizeBytes : Nat
  snapshotChecksum : UInt32
  activeWalStartSequence : Nat
  oldestRetainedSequence : Nat
deriving DecidableEq, Repr

/-- The engine directory. `legacyWal` says whether a `wal.log` of the old layout is there. -/
structure Disk where
  legacyWal : Bool
  snapshot : Option EngineState
  manifest : Option Manifest
  walDir : WalDir

def Disk.empty : Disk := ⟨false, none, none, []⟩

namespace Sample

/-- The bytes an operation carries, folded into one number. -/
def operationCode : WalOperation → Nat
  | .set key value version =>
    value.foldl (fun code byte => code * 31 + byte.toNat) (key.length * 7 + version * 131 + 1)
  | .delete key => key.length * 11 + 2
  | .expire key expiresAtMs => key.length * 13 + expiresAtMs * 17 + 3
  | .persist key => key.length * 19 + 4
  | .clear => 5
  | .checkInteger key delta => key.length * 23 + delta.natAbs * 29 + 6

def emptyDump : String :=
  "\x7b\"version\":2,\"created_at_ms\":0,\"source_engine_version\":3," ++
    "\"source_sequence\":0,\"entries\":[]\x7d"

/-- Small concrete encodings for worked runs: a polynomial code in place of the CRC. -/
scoped instance codec : Codec where
  checksum entry := UInt32.ofNat (entry.operations.foldl
    (fun code operation => code * 37 + operationCode operation)
    (entry.sequence * 101 + entry.term * 211 + entry.createdAtMs * 401))
  durableLen entry := 16 + 8 * entry.operations.length
  durableLen_pos _ := by omega
  snapshotLen state := 64 + 32 * state.store.len
  snapshotChecksum state := UInt32.ofNat (state.metadata.lastAppliedSequence * 41)
  parseLogicalBackup dump :=
    if dump = emptyDump then .ok ⟨[]⟩ else .error (.snapshotDeserialize "expected value")

end Sample

end Vaylix
