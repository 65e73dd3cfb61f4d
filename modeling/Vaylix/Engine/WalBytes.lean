import Vaylix.Engine.SnapshotRecovery
import Vaylix.Lib.Framing

/-!
# The log directory as bytes

Reading a directory of bytes checks names and sequences as the model of decoded files does.
Only the bytes can show a frame that was not written to its end.
-/

namespace Vaylix

open Framing NumberedLog

/-- The encodings of the engine down to the bytes of an entry, after encryption. -/
class WalEncoding extends Codec where
  encodeEntry : WalEntry → List UInt8
  /-- Decryption and decoding. -/
  decodeEntry : List UInt8 → Except EngineError WalEntry
  hash : List UInt8 → UInt32
  decode_encode : ∀ entry, decodeEntry (encodeEntry entry) = .ok entry
  length_encodeEntry : ∀ entry, (encodeEntry entry).length = Codec.durableLen entry

variable [WalEncoding]

def walFormat : Format EngineError WalEntry where
  encode := WalEncoding.encodeEntry
  decode := WalEncoding.decodeEntry
  hash := WalEncoding.hash
  limit := maxWalEntrySize
  limit_lt := by decide
  decode_encode := WalEncoding.decode_encode
  encode_ne_nil entry empty := by
    have length := WalEncoding.length_encodeEntry entry
    have positive := Codec.durableLen_pos entry
    rw [empty, List.length_nil] at length
    omega

theorem length_encode (entry : WalEntry) :
    (walFormat.encode entry).length = Codec.durableLen entry :=
  WalEncoding.length_encodeEntry entry

def readError : ReadError EngineError → EngineError
  | .truncatedLength => .walDeserialize "truncated WAL length header"
  | .invalidLength length => .walDeserialize s!"invalid WAL entry length {length}"
  | .truncatedChecksum => .walDeserialize "truncated WAL checksum"
  | .truncatedPayload => .walDeserialize "truncated WAL payload"
  | .checksumMismatch => .checksumMismatch "wal entry"
  | .undecodable err => err

structure ByteFile where
  startSequence : Nat
  endSequence : Option Nat
  bytes : List UInt8
deriving DecidableEq, Repr

omit [WalEncoding] in
def ByteFile.name (file : ByteFile) : SegmentFile := ⟨file.startSequence, file.endSequence, []⟩

def ByteFile.readEntries (file : ByteFile) : Except EngineError (List WalEntry) :=
  (readFrames walFormat file.bytes).mapError readError

def encodeFile (segment : SegmentFile) : ByteFile :=
  ⟨segment.startSequence, segment.endSequence, frames walFormat segment.entries⟩

/-- The writer refuses longer entries. -/
def Writable (entries : List WalEntry) : Prop :=
  ∀ entry ∈ entries, Codec.durableLen entry < 2 ^ 32

theorem readEntries_encodeFile {segment : SegmentFile} (writable : Writable segment.entries) :
    (encodeFile segment).readEntries = WalDir.readSegmentEntries segment := by
  unfold ByteFile.readEntries encodeFile WalDir.readSegmentEntries
  cases found : segment.entries.find? fun entry =>
      decide (maxWalEntrySize < Codec.durableLen entry) with
  | none =>
    have bound : ∀ entry ∈ segment.entries, (walFormat.encode entry).length ≤ maxWalEntrySize := by
      intro entry member
      have := List.find?_eq_none.mp found entry member
      rw [length_encode]
      simpa using this
    have read := readFrames_frames_append bound []
    rw [List.append_nil, readFrames] at read
    rw [read]
    simp [Except.map, Except.mapError]
  | some entry =>
    obtain ⟨exceeds, front, back, shape, before⟩ := List.find?_eq_some_iff_append.mp found
    have bound : ∀ earlier ∈ front, (walFormat.encode earlier).length ≤ maxWalEntrySize := by
      intro earlier member
      have := before earlier member
      rw [length_encode]
      simpa using this
    have fits : (walFormat.encode entry).length < 2 ^ 32 := by
      rw [length_encode]
      refine writable entry ?_
      rw [shape]
      exact List.mem_append_right _ List.mem_cons_self
    have beyond : maxWalEntrySize < (walFormat.encode entry).length := by
      rw [length_encode]
      simpa using exceeds
    have split : frames walFormat segment.entries =
        frames walFormat front ++ (frame walFormat entry ++ frames walFormat back) := by
      rw [shape]
      simp [frames]
    rw [split, readFrames_frames_append bound, readFrames_oversized fits beyond, length_encode]
    rfl

omit [WalEncoding] in
/-- The checks of a replay on one file, and the sequence expected after it. -/
def checkSegment (expected : Option Nat) (file : SegmentFile) (entries : List WalEntry) :
    Except EngineError (Option Nat) :=
  match entries.head?, entries.getLast? with
  | some first, some last =>
    if first.sequence ≠ file.startSequence then
      .error (.walDeserialize s!"segment start sequence mismatch for {file.startSequence}")
    else if file.endSequence.any fun stop => decide (last.sequence ≠ stop) then
      .error (.walDeserialize s!"segment end sequence mismatch for {file.startSequence}")
    else WalDir.checkContiguous expected entries
  | _, _ =>
    if file.active then .ok expected
    else .error (.walDeserialize "sealed WAL segment is empty")

theorem replaySegment_eq (expected : Option Nat) (segment : SegmentFile) :
    WalDir.replaySegment expected segment =
      match WalDir.readSegmentEntries segment with
      | .error err => .error err
      | .ok entries => (checkSegment expected segment entries).map fun next => (next, entries) := by
  unfold WalDir.replaySegment
  cases WalDir.readSegmentEntries segment with
  | error err => rfl
  | ok entries =>
    cases entries with
    | nil =>
      dsimp only [checkSegment, List.head?_nil, List.getLast?_nil]
      split <;> rfl
    | cons head rest =>
      have last : (head :: rest).getLast? = some ((head :: rest).getLast (by simp)) :=
        List.getLast?_eq_some_getLast (by simp)
      simp only [checkSegment, List.head?_cons, last]
      split
      · rfl
      · split
        · rfl
        · cases WalDir.checkContiguous expected (head :: rest) <;> rfl

abbrev ByteDir := List ByteFile

namespace ByteDir

omit [WalEncoding] in
def listSegments (dir : ByteDir) : ByteDir :=
  dir.insertionSort fun left right => left.name.sortsBefore right.name

def replaySegments (expected : Option Nat) : List ByteFile → Except EngineError (List WalEntry)
  | [] => .ok []
  | file :: rest =>
    match file.readEntries with
    | .error err => .error err
    | .ok entries =>
      match checkSegment expected file.name entries with
      | .error err => .error err
      | .ok next =>
        match replaySegments next rest with
        | .error err => .error err
        | .ok following => .ok (entries ++ following)

def replay (dir : ByteDir) : Except EngineError (List WalEntry) :=
  let segments := dir.listSegments
  let activeCount := (segments.filter fun file => file.name.active).length
  if 1 < activeCount then
    .error (.walDeserialize s!"ambiguous WAL layout: found {activeCount} active segments")
  else replaySegments none segments

theorem readEntries_of_replaySegments {expected : Option Nat} {files : List ByteFile}
    {entries : List WalEntry} (replayed : replaySegments expected files = .ok entries)
    {file : ByteFile} (member : file ∈ files) : ∃ held, file.readEntries = .ok held := by
  induction files generalizing expected entries with
  | nil => cases member
  | cons head rest ih =>
    unfold replaySegments at replayed
    split at replayed
    · cases replayed
    · rename_i held read
      split at replayed
      · cases replayed
      · split at replayed
        · cases replayed
        · rename_i following
          rcases List.mem_cons.mp member with rfl | later
          · exact ⟨held, read⟩
          · exact ih following later

theorem readEntries_of_replay {dir : ByteDir} {entries : List WalEntry}
    (replayed : dir.replay = .ok entries) {file : ByteFile} (member : file ∈ dir) :
    ∃ held, file.readEntries = .ok held := by
  unfold replay at replayed
  dsimp only at replayed
  split at replayed
  · cases replayed
  · refine readEntries_of_replaySegments replayed ?_
    exact (List.mem_insertionSort _).mpr member

theorem replaySegments_encode (expected : Option Nat) {segments : List SegmentFile}
    (writable : ∀ segment ∈ segments, Writable segment.entries) :
    replaySegments expected (segments.map encodeFile) =
      WalDir.replaySegments expected segments := by
  induction segments generalizing expected with
  | nil => rfl
  | cons segment rest ih =>
    have later := fun next => ih next (List.forall_mem_cons.mp writable).2
    have named : ∀ entries, checkSegment expected (encodeFile segment).name entries =
        checkSegment expected segment entries := fun entries => rfl
    simp only [List.map_cons, replaySegments, WalDir.replaySegments, replaySegment_eq,
      readEntries_encodeFile (writable segment List.mem_cons_self), named, later]
    cases WalDir.readSegmentEntries segment with
    | error err => rfl
    | ok entries =>
      dsimp only
      cases checkSegment expected segment entries <;> rfl

theorem listSegments_encode (dir : WalDir) :
    listSegments (dir.map encodeFile) = dir.listSegments.map encodeFile :=
  (List.map_insertionSort SegmentFile.sortsBefore
    (fun left right : ByteFile => left.name.sortsBefore right.name) encodeFile dir
    fun _ _ _ _ => Iff.rfl).symm

/-- **A directory of whole frames reads as the decoded directory.** -/
theorem replay_encode {dir : WalDir} (writable : ∀ segment ∈ dir, Writable segment.entries) :
    replay (dir.map encodeFile) = dir.replay := by
  have active : ∀ segment : SegmentFile, (encodeFile segment).name.active = segment.active :=
    fun segment => rfl
  have same : replaySegments none (dir.listSegments.map encodeFile) =
      WalDir.replaySegments none dir.listSegments :=
    replaySegments_encode none fun segment member =>
      writable segment ((List.mem_insertionSort _).mp member)
  simp only [replay, WalDir.replay, listSegments_encode, List.filter_map, List.length_map,
    Function.comp_def, active, same]

end ByteDir

namespace Engine

def openFiles (disk : Disk) (files : ByteDir) (nowMs : Nat) : Except EngineError EngineState :=
  if disk.legacyWal then .error (.storageMigrationRequired "legacy wal layout")
  else do
    let baseline ← recoveryBaseline disk nowMs
    let entries ← files.replay
    let _ ← buildWalEntryIdentities entries
    baseline.replayEntries entries

theorem openFiles_encode {disk : Disk} {options : EngineOptions} {nowMs : Nat} {opened : Engine}
    (writable : ∀ segment ∈ disk.walDir, Writable segment.entries)
    (opens : fromPathsWithOptions disk options nowMs = .ok opened) :
    openFiles disk (disk.walDir.map encodeFile) nowMs = .ok opened.state := by
  obtain ⟨modern, baseline, entries, identities, state, loaded, read, indexed, rebuilt, rfl⟩ :=
    fromPathsWithOptions_ok_iff.mp opens
  rw [openFiles, ByteDir.replay_encode writable, if_neg (Bool.eq_false_iff.mp modern)]
  simp only [loaded, read, indexed, rebuilt, bind, Except.bind]

end Engine

end Vaylix
