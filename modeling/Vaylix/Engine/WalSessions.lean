import Vaylix.Engine.FailedAppend

/-!
# Writing a log in several sessions

Between batches the writer can be closed and opened again, and the active file sealed.
Whatever the segment size and however the entries are split, the directory reads back as the
entries that were appended. With its last file cut short it reads as the entries before the
cut, or not at all.
-/

namespace Vaylix

open Framing LabelledRun NumberedLog WalEffect

section Sessions

variable [WalEncoding]

namespace ByteDir

omit [WalEncoding] in
def activeSegmentFile (files : ByteDir) : Option ByteFile :=
  files.listSegments.find? fun file => file.name.active

omit [WalEncoding] in
def openWriter (files : ByteDir) (startSequence : Nat) : ByteDir × WalWriter :=
  match files.activeSegmentFile with
  | some file => (files, ⟨file.startSequence, file.bytes.length⟩)
  | none => (files ++ [⟨startSequence, none, []⟩], ⟨startSequence, 0⟩)

def sealActive (files : ByteDir) : Except EngineError ByteDir :=
  match files.activeSegmentFile with
  | none => .ok files
  | some active =>
    match active.readEntries with
    | .error err => .error err
    | .ok entries =>
      match entries.getLast? with
      | none => .ok (files.filter fun file =>
          !(file.name.active && decide (file.startSequence = active.startSequence)))
      | some last => .ok (files.updateActive active.startSequence fun file =>
          { file with endSequence := some last.sequence })

theorem activeSegmentFile_encode (dir : WalDir) :
    activeSegmentFile (dir.map encodeFile) = dir.activeSegmentFile.map encodeFile := by
  rw [activeSegmentFile, listSegments_encode, List.find?_map]
  rfl

theorem length_bytes_encodeFile (segment : SegmentFile) :
    (encodeFile segment).bytes.length = segmentLen segment.entries := by
  simp only [encodeFile, frames, segmentLen, List.length_flatMap, length_frame, length_encode]

theorem openWriter_encode (dir : WalDir) (startSequence : Nat) :
    openWriter (dir.map encodeFile) startSequence =
      ((WalWriter.open dir startSequence).1.map encodeFile,
        (WalWriter.open dir startSequence).2) := by
  unfold openWriter WalWriter.open
  rw [activeSegmentFile_encode]
  cases dir.activeSegmentFile with
  | none =>
    simp only [Option.map_none, List.map_append]
    rfl
  | some segment =>
    simp only [Option.map_some, length_bytes_encodeFile]
    rfl

theorem sealActive_encode {dir : WalDir} (writable : ∀ segment ∈ dir, Writable segment.entries) :
    sealActive (dir.map encodeFile) = (dir.sealActive).map fun dir => dir.map encodeFile := by
  unfold sealActive WalDir.sealActive
  rw [activeSegmentFile_encode]
  cases found : dir.activeSegmentFile with
  | none => rfl
  | some active =>
    have member : active ∈ dir :=
      (List.mem_insertionSort _).mp (List.mem_of_find?_eq_some found)
    simp only [Option.map_some, readEntries_encodeFile (writable active member)]
    cases WalDir.readSegmentEntries active with
    | error err => rfl
    | ok entries =>
      dsimp only
      cases entries.getLast? with
      | none =>
        simp only [Except.map, List.filter_map]
        rfl
      | some last => exact congrArg Except.ok (seal_encode dir active.startSequence last.sequence)

end ByteDir

theorem WalDir.Readable.writable {entries : List WalEntry} (readable : WalDir.Readable entries) :
    Writable entries :=
  fun entry member => (readable entry member).trans_lt (by decide)

namespace Stores

variable {first : Nat} {dir : WalDir} {writer : WalWriter} {held : List WalEntry}

omit [WalEncoding] in
theorem mem_iff (stores : Stores first dir writer held) {entry : WalEntry} :
    entry ∈ held ↔ ∃ segment ∈ dir, entry ∈ segment.entries := by
  obtain ⟨sealed, active, rfl, -, -, rfl⟩ := stores
  simp [segmentEntries, or_and_right, exists_or]

theorem writable (stores : Stores first dir writer held) (written : Writable held) :
    ∀ segment ∈ dir, Writable segment.entries :=
  fun segment member entry inside => written entry (stores.mem_iff.mpr ⟨segment, member, inside⟩)

theorem replay_encode (stores : Stores first dir writer held) (readable : WalDir.Readable held) :
    ByteDir.replay (dir.map encodeFile) = .ok held := by
  rw [ByteDir.replay_encode (stores.writable readable.writable)]
  obtain ⟨sealed, active, rfl, layout, -, rfl⟩ := stores
  exact layout.replay_eq readable

end Stores

/-- A directory with its active file cut short is read where the cut is the end of an entry. -/
theorem Layout.replay_cut {first : Nat} {sealed : List SegmentFile} {active : SegmentFile}
    (layout : Layout first sealed active)
    (readable : WalDir.Readable (segmentEntries sealed ++ active.entries)) {length : Nat}
    (within : length ≤ (frames walFormat active.entries).length) {read : List WalEntry} :
    ByteDir.replay (sealed.map encodeFile ++ [{ encodeFile active with
      bytes := (frames walFormat active.entries).take length }]) = .ok read ↔
      ∃ kept, kept <+: active.entries ∧ length = (frames walFormat kept).length ∧
        read = segmentEntries sealed ++ kept := by
  have whole {kept : List WalEntry} (front : kept <+: active.entries) :
      ByteDir.replay (sealed.map encodeFile ++ [{ encodeFile active with
        bytes := (frames walFormat active.entries).take (frames walFormat kept).length }]) =
        .ok (segmentEntries sealed ++ kept) := by
    have fewer := readable.mono fun entry => (front.sublist.append_left _).mem
    obtain ⟨back, shape⟩ := front
    have numbered := layout.numbered
    rw [← shape, from_append] at numbered
    have stores : Stores first (sealed ++ [{ active with entries := kept }])
        ⟨active.startSequence, 0⟩ (segmentEntries sealed ++ kept) :=
      ⟨sealed, _, rfl, ⟨layout.sealedFrom, layout.unsealed, layout.start, numbered.1⟩, rfl, rfl⟩
    have replayed := stores.replay_encode fewer
    rw [List.map_append] at replayed
    rw [← shape, frames_append, List.take_left]
    exact replayed
  constructor
  · intro replayed
    have bound : ∀ entry ∈ active.entries, (walFormat.encode entry).length ≤ maxWalEntrySize := by
      intro entry member
      rw [length_encode]
      exact readable entry (List.mem_append_right _ member)
    obtain ⟨kept, success⟩ := ByteDir.readEntries_of_replay replayed
      (List.mem_append_right _ List.mem_cons_self)
    obtain ⟨front, rfl⟩ := readFrames_take bound within (Except.mapError_eq_ok_iff.mp success)
    exact ⟨kept, front, rfl, Except.ok.inj (replayed.symm.trans (whole front))⟩
  · rintro ⟨kept, front, rfl, rfl⟩
    exact whole front

structure WalSession where
  files : ByteDir
  writer : Option WalWriter
  /-- An append or a seal has failed. -/
  failed : Bool
deriving DecidableEq, Repr

inductive WalSessionOp where
  | append (entries : List WalEntry)
  | close
  | open (startSequence : Nat)
  /-- `seal_active` followed by `create_active_segment`. -/
  | sealActive (nextSequence : Nat)
deriving DecidableEq, Repr

namespace WalSession

omit [WalEncoding] in
def create (startSequence : Nat) : WalSession :=
  let (files, writer) := ByteDir.openWriter [] startSequence
  ⟨files, some writer, false⟩

/-- Entries are appended with an open writer, files are sealed and writers opened without one. -/
def step (maxSegmentSizeBytes : Nat) (session : WalSession) : WalSessionOp → Option WalSession
  | .append entries =>
    session.writer.map fun writer =>
      let (files, writer) := performAll (session.files, writer)
        (batchEffects maxSegmentSizeBytes writer.fileLen entries)
      let refused := entries.any fun entry => decide (2 ^ 32 ≤ Codec.durableLen entry)
      ⟨files, some writer, session.failed || refused⟩
  | .close => session.writer.map fun _ => { session with writer := none }
  | .open startSequence =>
    if session.writer.isSome then none
    else
      let (files, writer) := session.files.openWriter startSequence
      some ⟨files, some writer, session.failed⟩
  | .sealActive nextSequence =>
    if session.writer.isSome then none
    else
      match session.files.sealActive with
      | .ok files => some ⟨files.createActive nextSequence, none, session.failed⟩
      | .error _ => some { session with failed := true }

omit [WalEncoding] in
def appended (operations : List WalSessionOp) : List WalEntry :=
  operations.flatMap fun
    | .append entries => entries
    | _ => []

omit [WalEncoding] in
/-- Files are created at the sequence that comes next; `next` is the one at the start. -/
def CreatesNext : Nat → List WalSessionOp → Prop
  | _, [] => True
  | next, .append entries :: rest => CreatesNext (next + entries.length) rest
  | next, .sealActive nextSequence :: rest => nextSequence = next ∧ CreatesNext next rest
  | next, _ :: rest => CreatesNext next rest

omit [WalEncoding] in
theorem createsNext_cons {next : Nat} {operation : WalSessionOp} {rest : List WalSessionOp} :
    CreatesNext next (operation :: rest) ↔
      CreatesNext next [operation] ∧ CreatesNext (next + (appended [operation]).length) rest := by
  cases operation <;> simp [CreatesNext, appended]

/-- The files are those of a directory that stores `held`, with the writer on its active
file. -/
structure Holds (first : Nat) (held : List WalEntry) (session : WalSession) : Prop where
  sound : session.failed = false
  stored : ∃ dir writer, session.files = dir.map encodeFile ∧ Stores first dir writer held ∧
    (session.writer = none ∨ session.writer = some writer)

theorem holds_create (first : Nat) : (create first).Holds first [] :=
  ⟨rfl, [⟨first, none, []⟩], ⟨first, 0⟩, rfl, Stores.fresh first 0, .inr rfl⟩

variable {first : Nat} {held : List WalEntry} {session : WalSession}

theorem Holds.replay (holds : session.Holds first held) (readable : WalDir.Readable held) :
    session.files.replay = .ok held := by
  obtain ⟨dir, writer, files, stores, -⟩ := holds.stored
  rw [files]
  exact stores.replay_encode readable

namespace Holds

variable {maxSegmentSizeBytes first : Nat} {held : List WalEntry} {session next : WalSession}

variable (holds : session.Holds first held)
include holds

theorem append {entries : List WalEntry} (readable : WalDir.Readable entries)
    (numbered : From WalEntry.sequence (first + held.length) entries)
    (taken : session.step maxSegmentSizeBytes (.append entries) = some next) :
    next.Holds first (held ++ entries) := by
  obtain ⟨dir, writer, files, stores, closed | opened⟩ := holds.stored
  · simp [step, closed] at taken
  · have writable := readable.writable
    have fits : (entries.any fun entry => decide (2 ^ 32 ≤ Codec.durableLen entry)) = false :=
      List.any_eq_false.mpr fun entry member => by simpa using writable entry member
    simp only [step, opened, files, Option.map_some, fits, holds.sound, Bool.or_false,
      performAll_batchEffects maxSegmentSizeBytes writable, Option.some.injEq] at taken
    subst taken
    exact ⟨rfl, _, _, rfl, stores.appendBatch maxSegmentSizeBytes numbered, .inr rfl⟩

theorem close (taken : session.step maxSegmentSizeBytes .close = some next) :
    next.Holds first held := by
  obtain ⟨dir, writer, files, stores, closed | opened⟩ := holds.stored
  · simp [step, closed] at taken
  · simp only [step, opened, Option.map_some, Option.some.injEq] at taken
    subst taken
    exact ⟨holds.sound, dir, writer, files, stores, .inl rfl⟩

theorem reopen {startSequence : Nat}
    (taken : session.step maxSegmentSizeBytes (.open startSequence) = some next) :
    next.Holds first held := by
  obtain ⟨dir, writer, files, stores, closed | opened⟩ := holds.stored
  · simp only [step, closed, Option.isSome_none, Bool.false_eq_true, if_false, files,
      ByteDir.openWriter_encode, Option.some.injEq] at taken
    subst taken
    exact ⟨holds.sound, _, _, rfl, stores.reopened startSequence, .inr rfl⟩
  · simp [step, opened] at taken

theorem sealActive (readable : WalDir.Readable held)
    (taken : session.step maxSegmentSizeBytes (.sealActive (first + held.length)) = some next) :
    next.Holds first held := by
  obtain ⟨dir, writer, files, stores, closed | opened⟩ := holds.stored
  · have encoded := ByteDir.sealActive_encode (stores.writable readable.writable)
    obtain ⟨sealed, active, rfl, layout, -, rfl⟩ := stores
    have sealing := layout.sealActive_eq (readable.mono fun entry member =>
      List.mem_append_right _ member)
    have all := layout.sealedFrom_sealedAll
    rw [sealing] at encoded
    simp only [step, closed, Option.isSome_none, Bool.false_eq_true, if_false, files, encoded,
      Except.map, createActive_encode, all.createActiveSegment_eq, Option.some.injEq] at taken
    subst taken
    refine ⟨holds.sound, _, ⟨_, 0⟩, rfl, ⟨_, _, rfl, all.fresh ?_, rfl, ?_⟩, .inl rfl⟩
    · rw [Layout.segmentEntries_sealedAll]
    · rw [Layout.segmentEntries_sealedAll, List.append_nil]
  · simp [step, opened] at taken

/-- Every operation keeps the files those of a directory. -/
theorem step {operation : WalSessionOp} (readable : WalDir.Readable (held ++ appended [operation]))
    (numbered : From WalEntry.sequence (first + held.length) (appended [operation]))
    (creates : CreatesNext (first + held.length) [operation])
    (taken : session.step maxSegmentSizeBytes operation = some next) :
    next.Holds first (held ++ appended [operation]) := by
  cases operation with
  | append entries =>
    have all : appended [.append entries] = entries := by simp [appended]
    rw [all] at readable numbered ⊢
    exact holds.append (readable.mono fun entry member => List.mem_append_right _ member)
      numbered taken
  | close => exact (List.append_nil held).symm ▸ holds.close taken
  | «open» startSequence => exact (List.append_nil held).symm ▸ holds.reopen taken
  | sealActive nextSequence =>
    obtain ⟨rfl, -⟩ := creates
    have before : WalDir.Readable held := readable.mono fun entry member =>
      List.mem_append_left _ member
    exact (List.append_nil held).symm ▸ holds.sealActive before taken

end Holds

/-- The files hold all that was appended. -/
theorem holds_run {maxSegmentSizeBytes : Nat} {operations : List WalSessionOp} {final : WalSession}
    (holds : session.Holds first held) (readable : WalDir.Readable (held ++ appended operations))
    (numbered : From WalEntry.sequence (first + held.length) (appended operations))
    (creates : CreatesNext (first + held.length) operations)
    (ran : run (step maxSegmentSizeBytes) session operations = some final) :
    final.Holds first (held ++ appended operations) := by
  induction operations generalizing held session with
  | nil =>
    obtain rfl : session = final := by simpa using ran
    simpa [appended] using holds
  | cons operation rest ih =>
    obtain ⟨next, taken, following⟩ := (run_cons_eq_some _).mp ran
    have split : appended (operation :: rest) = appended [operation] ++ appended rest := by
      simp [appended]
    rw [split, ← List.append_assoc] at readable ⊢
    rw [split, from_append] at numbered
    rw [createsNext_cons] at creates
    have here := holds.step (readable.mono fun entry member => List.mem_append_left _ member)
      numbered.1 creates.1 taken
    refine ih here readable ?_ ?_ following
    · rw [List.length_append, ← Nat.add_assoc]
      exact numbered.2
    · rw [List.length_append, ← Nat.add_assoc]
      exact creates.2

/-- **A log reads back as it was appended**, for every segment size, every split into batches, and
every closing, sealing and reopening in between. -/
theorem wal_round_trip (maxSegmentSizeBytes first : Nat) (operations : List WalSessionOp)
    (final : WalSession) (numbered : From WalEntry.sequence first (appended operations))
    (readable : ∀ entry ∈ appended operations, Codec.durableLen entry ≤ maxWalEntrySize)
    (creates : CreatesNext first operations)
    (ran : run (step maxSegmentSizeBytes) (create first) operations = some final) :
    final.failed = false ∧ final.files.replay = .ok (appended operations) := by
  have holds := holds_run (holds_create first) readable numbered creates ran
  exact ⟨holds.sound, holds.replay readable⟩

/-- **A torn tail is read up to the cut, or refused**: the log reads as the entries that are still
there whole where the cut is the end of an entry, and as nothing else. -/
theorem torn_tail_replay_iff (maxSegmentSizeBytes first : Nat) (operations : List WalSessionOp)
    (final : WalSession) (numbered : From WalEntry.sequence first (appended operations))
    (readable : ∀ entry ∈ appended operations, Codec.durableLen entry ≤ maxWalEntrySize)
    (creates : CreatesNext first operations)
    (ran : run (step maxSegmentSizeBytes) (create first) operations = some final) :
    ∃ sealed active before held, final.files = sealed ++ [active] ∧
      final.files.activeSegmentFile = some active ∧ active.bytes = frames walFormat held ∧
      before ++ held = appended operations ∧ ∀ length < active.bytes.length, ∀ read,
        ByteDir.replay (sealed ++ [{ active with bytes := active.bytes.take length }]) = .ok read ↔
          ∃ kept, kept <+: held ∧ length = (frames walFormat kept).length ∧
            read = before ++ kept := by
  obtain ⟨dir, writer, files, ⟨sealed, active, rfl, layout, -, held⟩, -⟩ :=
    (holds_run (holds_create first) readable numbered creates ran).stored
  refine ⟨sealed.map encodeFile, encodeFile active, segmentEntries sealed, active.entries, ?_, ?_,
    rfl, held, ?_⟩
  · rw [files, List.map_append]
    rfl
  · rw [files, ByteDir.activeSegmentFile_encode, layout.activeSegmentFile_eq]
    rfl
  · intro length short read
    exact layout.replay_cut (held ▸ readable) (Nat.le_of_lt short)

end WalSession

end Sessions

section Samples

open SampleBytes WalSession

def sealedOps : List WalSessionOp :=
  [.append [⟨7, 1, 5, [.set "a" [1] 1]⟩, ⟨8, 1, 5, [.delete "a"]⟩, ⟨9, 1, 6, [.clear]⟩],
    .close, .sealActive 10, .open 0, .append [], .append [⟨10, 2, 8, []⟩]]

theorem wal_round_trip_sealed :
    ∃ final ∈ run (step 200) (create 7) sealedOps,
      final.files.length = 3 ∧ final.failed = false ∧
        final.files.replay = .ok (appended sealedOps) := by
  obtain ⟨final, ran, files⟩ : ∃ final ∈ run (step 200) (create 7) sealedOps,
      final.files.length = 3 := by
    decide +kernel
  exact ⟨final, ran, files, wal_round_trip 200 7 sealedOps final ⟨rfl, rfl, rfl, rfl, trivial⟩
    (by decide +kernel) ⟨rfl, trivial⟩ ran⟩

def tornOps : List WalSessionOp := sealedOps ++ [.append [⟨11, 2, 9, []⟩]]

/-- A cut behind the first of the two entries in the last file, and one inside of it. -/
theorem torn_tail_replay_sealed :
    let last : List WalEntry := [⟨10, 2, 8, []⟩, ⟨11, 2, 9, []⟩]
    ∃ final ∈ run (step 200) (create 7) tornOps,
      ∃ sealed active before, final.files = sealed ++ [active] ∧
        before ++ last = appended tornOps ∧
        ByteDir.replay (sealed ++ [{ active with
          bytes := active.bytes.take (frames walFormat (last.take 1)).length }]) =
            .ok (before ++ last.take 1) ∧
        ∀ read, ByteDir.replay (sealed ++ [{ active with bytes := active.bytes.take 9 }]) ≠
          .ok read := by
  intro last
  have readable : ∀ entry ∈ appended tornOps, Codec.durableLen entry ≤ maxWalEntrySize := by
    decide +kernel
  obtain ⟨final, ran, ends⟩ : ∃ final ∈ run (step 200) (create 7) tornOps,
      final.files.getLast?.map (·.bytes) = some (frames walFormat last) := by
    decide +kernel
  obtain ⟨sealed, active, before, held, files, -, bytes, whole, cut⟩ := torn_tail_replay_iff 200 7
    tornOps final ⟨rfl, rfl, rfl, rfl, rfl, trivial⟩ readable ⟨rfl, trivial⟩ ran
  obtain rfl : held = last := by
    have same : frames walFormat held = frames walFormat last := by
      simpa [files, bytes] using ends
    refine frames_injective (fun entry member => ?_) (by decide +kernel) same
    rw [show (walFormat.encode entry).length = Codec.durableLen entry from
      WalEncoding.length_encodeEntry entry]
    exact readable entry (whole ▸ List.mem_append_right _ member)
  refine ⟨final, ran, sealed, active, before, files, whole, ?_, fun read found => ?_⟩
  · refine (cut _ ?_ _).mpr ⟨_, List.take_prefix 1 _, rfl, rfl⟩
    rw [bytes]
    decide +kernel
  · obtain ⟨kept, front, length, -⟩ := (cut 9 (by rw [bytes]; decide +kernel) read).mp found
    have other : ∀ kept ∈ List.inits last, 9 ≠ (frames walFormat kept).length := by
      decide +kernel
    exact other kept ((List.mem_inits kept last).mpr front) length

end Samples

end Vaylix
