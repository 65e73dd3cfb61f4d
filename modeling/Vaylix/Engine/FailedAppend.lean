import Vaylix.Engine.SampleBytes

/-!
# An append that fails on the way

A write that fails leaves what was written before it in the file, while the engine keeps its
state, so that the next entry is numbered as the failed one. The directory still leads to the
engine's state only if nothing of the failed batch was written.
-/

namespace Vaylix

open EngineStore Framing LabelledRun NumberedLog

inductive WalEffect where
  | write (byte : UInt8)
  | count (written : Nat)
  | seal (lastSequence : Nat)
  | create (startSequence : Nat)
deriving DecidableEq, Repr

namespace ByteDir

def updateActive (dir : ByteDir) (startSequence : Nat) (change : ByteFile → ByteFile) : ByteDir :=
  dir.map fun file =>
    if file.name.active && decide (file.startSequence = startSequence) then change file else file

def createActive (dir : ByteDir) (startSequence : Nat) : ByteDir :=
  if dir.any fun file => file.name.active && decide (file.startSequence = startSequence) then dir
  else dir ++ [⟨startSequence, none, []⟩]

def appendBytes (dir : ByteDir) (startSequence : Nat) (bytes : List UInt8) : ByteDir :=
  dir.updateActive startSequence fun file => { file with bytes := file.bytes ++ bytes }

theorem appendBytes_nil (dir : ByteDir) (startSequence : Nat) :
    dir.appendBytes startSequence [] = dir := by
  refine (List.map_congr_left fun file _ => ?_).trans (List.map_id dir)
  split <;> simp

theorem appendBytes_appendBytes (dir : ByteDir) (startSequence : Nat) (front back : List UInt8) :
    (dir.appendBytes startSequence front).appendBytes startSequence back =
      dir.appendBytes startSequence (front ++ back) := by
  unfold appendBytes updateActive
  rw [List.map_map]
  refine List.map_congr_left fun file _ => ?_
  dsimp only [Function.comp_apply]
  split
  · rename_i active
    rw [if_pos (by exact active)]
    simp
  · rfl

end ByteDir

namespace WalEffect

def perform : ByteDir × WalWriter → WalEffect → ByteDir × WalWriter
  | (dir, writer), .write byte => (dir.appendBytes writer.activeStart [byte], writer)
  | (dir, writer), .count written => (dir, { writer with fileLen := writer.fileLen + written })
  | (dir, writer), .seal lastSequence =>
    (dir.updateActive writer.activeStart fun file =>
      { file with endSequence := some lastSequence }, writer)
  | (dir, _), .create startSequence => (dir.createActive startSequence, ⟨startSequence, 0⟩)

def performAll (start : ByteDir × WalWriter) (effects : List WalEffect) : ByteDir × WalWriter :=
  effects.foldl perform start

theorem performAll_append (start : ByteDir × WalWriter) (front back : List WalEffect) :
    performAll start (front ++ back) = performAll (performAll start front) back :=
  List.foldl_append

theorem performAll_writes (dir : ByteDir) (writer : WalWriter) (bytes : List UInt8) :
    performAll (dir, writer) (bytes.map .write) =
      (dir.appendBytes writer.activeStart bytes, writer) := by
  induction bytes generalizing dir with
  | nil => rw [ByteDir.appendBytes_nil]; rfl
  | cons byte rest ih =>
    have following := ih (dir.appendBytes writer.activeStart [byte])
    rw [ByteDir.appendBytes_appendBytes] at following
    exact following

end WalEffect

section Appending

variable [WalEncoding]

def rotatesAt (maxSegmentSizeBytes fileLen : Nat) : Bool :=
  decide (0 < maxSegmentSizeBytes ∧ maxSegmentSizeBytes ≤ fileLen)

/-- The length is counted, and a full file is sealed and followed by the next one. -/
def afterEntry (maxSegmentSizeBytes fileLen : Nat) (entry : WalEntry) : List WalEffect :=
  .count (8 + Codec.durableLen entry) ::
    if rotatesAt maxSegmentSizeBytes (fileLen + (8 + Codec.durableLen entry)) then
      [.seal entry.sequence, .create (entry.sequence + 1)]
    else []

def entryEffects (maxSegmentSizeBytes fileLen : Nat) (entry : WalEntry) : List WalEffect :=
  (frame walFormat entry).map .write ++ afterEntry maxSegmentSizeBytes fileLen entry

def batchEffects (maxSegmentSizeBytes : Nat) : Nat → List WalEntry → List WalEffect
  | _, [] => []
  | fileLen, entry :: rest =>
    let written := fileLen + (8 + Codec.durableLen entry)
    if 2 ^ 32 ≤ Codec.durableLen entry then []
    else
      entryEffects maxSegmentSizeBytes fileLen entry ++
        batchEffects maxSegmentSizeBytes
          (if rotatesAt maxSegmentSizeBytes written then 0 else written) rest

theorem updateActive_encode (dir : WalDir) (startSequence : Nat)
    {change : SegmentFile → SegmentFile} {changeBytes : ByteFile → ByteFile}
    (commutes : ∀ segment, changeBytes (encodeFile segment) = encodeFile (change segment)) :
    ByteDir.updateActive (dir.map encodeFile) startSequence changeBytes =
      (dir.updateActive startSequence change).map encodeFile := by
  unfold ByteDir.updateActive WalDir.updateActive
  rw [List.map_map, List.map_map]
  refine List.map_congr_left fun segment _ => ?_
  change (if segment.active && decide (segment.startSequence = startSequence) then
    changeBytes (encodeFile segment) else encodeFile segment) = _
  dsimp only [Function.comp_apply]
  split
  · exact commutes segment
  · rfl

theorem createActive_encode (dir : WalDir) (startSequence : Nat) :
    ByteDir.createActive (dir.map encodeFile) startSequence =
      (dir.createActiveSegment startSequence).map encodeFile := by
  unfold ByteDir.createActive WalDir.createActiveSegment WalDir.hasActive
  rw [List.any_map]
  change (if dir.any (fun segment => segment.active &&
    decide (segment.startSequence = startSequence)) then _ else _) = _
  split
  · rfl
  · rw [List.map_append]
    rfl

theorem appendBytes_frame (dir : WalDir) (startSequence : Nat) (entry : WalEntry) :
    ByteDir.appendBytes (dir.map encodeFile) startSequence (frame walFormat entry) =
      (dir.updateActive startSequence fun segment =>
        { segment with entries := segment.entries ++ [entry] }).map encodeFile := by
  refine updateActive_encode dir startSequence fun segment => ?_
  simp [encodeFile, frames]

theorem seal_encode (dir : WalDir) (startSequence lastSequence : Nat) :
    ByteDir.updateActive (dir.map encodeFile) startSequence
        (fun file => { file with endSequence := some lastSequence }) =
      (dir.updateActive startSequence fun segment =>
        { segment with endSequence := some lastSequence }).map encodeFile :=
  updateActive_encode dir startSequence fun _ => rfl

open WalEffect

/-- **The effects of an entry are its append**, on the bytes of a decoded directory. -/
theorem performAll_entryEffects (maxSegmentSizeBytes : Nat) (dir : WalDir) (writer : WalWriter)
    (entry : WalEntry) :
    performAll (dir.map encodeFile, writer)
        (entryEffects maxSegmentSizeBytes writer.fileLen entry) =
      ((WalWriter.appendEntry maxSegmentSizeBytes dir writer entry).1.map encodeFile,
        (WalWriter.appendEntry maxSegmentSizeBytes dir writer entry).2) := by
  rw [entryEffects, performAll_append, performAll_writes, appendBytes_frame]
  unfold afterEntry WalWriter.appendEntry rotatesAt
  by_cases full : 0 < maxSegmentSizeBytes ∧
      maxSegmentSizeBytes ≤ writer.fileLen + (8 + Codec.durableLen entry)
  · simp only [full, decide_true, if_true, and_self]
    change (ByteDir.createActive (ByteDir.updateActive _ _ _) _, _) = _
    rw [seal_encode, createActive_encode]
    rfl
  · simp only [full, decide_false, if_false, Bool.false_eq_true]
    rfl

theorem appendEntry_fileLen (maxSegmentSizeBytes : Nat) (dir : WalDir) (writer : WalWriter)
    (entry : WalEntry) :
    (WalWriter.appendEntry maxSegmentSizeBytes dir writer entry).2.fileLen =
      if rotatesAt maxSegmentSizeBytes (writer.fileLen + (8 + Codec.durableLen entry)) then 0
      else writer.fileLen + (8 + Codec.durableLen entry) := by
  unfold WalWriter.appendEntry rotatesAt
  by_cases full : 0 < maxSegmentSizeBytes ∧
      maxSegmentSizeBytes ≤ writer.fileLen + (8 + Codec.durableLen entry)
  · simp [full, WalWriter.rotateAfter]
  · simp [full]

theorem performAll_batchEffects (maxSegmentSizeBytes : Nat) {entries : List WalEntry}
    (writable : Writable entries) (dir : WalDir) (writer : WalWriter) :
    performAll (dir.map encodeFile, writer)
        (batchEffects maxSegmentSizeBytes writer.fileLen entries) =
      ((WalWriter.appendBatch maxSegmentSizeBytes dir writer entries).1.map encodeFile,
        (WalWriter.appendBatch maxSegmentSizeBytes dir writer entries).2) := by
  induction entries generalizing dir writer with
  | nil => rfl
  | cons entry rest ih =>
    have fits := Nat.not_le.mpr (writable entry List.mem_cons_self)
    have later := ih (List.forall_mem_cons.mp writable).2
      (WalWriter.appendEntry maxSegmentSizeBytes dir writer entry).1
      (WalWriter.appendEntry maxSegmentSizeBytes dir writer entry).2
    rw [appendEntry_fileLen] at later
    rw [batchEffects, if_neg fits, performAll_append, performAll_entryEffects]
    exact later

/-- The directory does not lead back to the entries `held`. -/
def Spoilt (first : Nat) (held : List WalEntry) (files : ByteDir) : Prop :=
  (∃ file ∈ files, ∃ err, file.readEntries = .error err) ∨
    ∃ (dir : WalDir) (more : List WalEntry), files = dir.map encodeFile ∧
      (∀ segment ∈ dir, Writable segment.entries) ∧
      segmentEntries dir.listSegments = held ++ more ∧ more ≠ [] ∧
      From WalEntry.sequence first (held ++ more)

variable {first : Nat} {held : List WalEntry} {entry : WalEntry} {dir : WalDir}

theorem spoilt_of_listed (listed : dir.listSegments = dir)
    (holds : segmentEntries dir = held ++ [entry]) (writable : Writable (held ++ [entry]))
    (numbered : From WalEntry.sequence first (held ++ [entry])) :
    Spoilt first held (dir.map encodeFile) := by
  refine .inr ⟨dir, [entry], rfl, ?_, ?_, by simp, numbered⟩
  · intro segment member other inside
    refine writable other ?_
    rw [← holds]
    exact List.mem_flatMap.mpr ⟨segment, member, inside⟩
  · rw [listed, holds]

section Partly

variable {first fileLen : Nat} {sealed : List SegmentFile} {active : SegmentFile}
  {entry : WalEntry}

theorem spoilt_of_torn (layout : Layout first sealed active)
    (writable : Writable (segmentEntries sealed ++ active.entries ++ [entry])) {written : Nat}
    (started : 0 < written) (torn : written < (frame walFormat entry).length) :
    Spoilt first (segmentEntries sealed ++ active.entries)
      (ByteDir.appendBytes ((sealed ++ [active]).map encodeFile) active.startSequence
        ((frame walFormat entry).take written)) := by
  left
  refine ⟨⟨active.startSequence, active.endSequence,
    frames walFormat active.entries ++ (frame walFormat entry).take written⟩, ?_, ?_⟩
  · refine List.mem_map.mpr ⟨encodeFile active, by simp, ?_⟩
    have opened : ((encodeFile active).name.active &&
        decide ((encodeFile active).startSequence = active.startSequence)) = true := by
      rw [Bool.and_eq_true]
      exact ⟨layout.active_eq, by simp [encodeFile]⟩
    rw [if_pos opened]
    rfl
  · have fits : ∀ other ∈ active.entries, (walFormat.encode other).length < 2 ^ 32 := by
      intro other member
      rw [length_encode]
      exact writable other (by simp [member])
    have fitsEntry : (walFormat.encode entry).length < 2 ^ 32 := by
      rw [length_encode]
      exact writable entry (by simp)
    obtain ⟨err, unread⟩ := readFrames_error_append fits (readFrames_torn fitsEntry started torn)
    refine ⟨readError err, ?_⟩
    rw [ByteFile.readEntries, unread]
    rfl

theorem take_afterEntry (maxSegmentSizeBytes fileLen : Nat) (entry : WalEntry) (done : Nat) :
    (afterEntry maxSegmentSizeBytes fileLen entry).take done = [] ∨
      (afterEntry maxSegmentSizeBytes fileLen entry).take done =
        [.count (8 + Codec.durableLen entry)] ∨
      (afterEntry maxSegmentSizeBytes fileLen entry).take done =
        [.count (8 + Codec.durableLen entry), .seal entry.sequence] ∨
      (afterEntry maxSegmentSizeBytes fileLen entry).take done =
        [.count (8 + Codec.durableLen entry), .seal entry.sequence,
          .create (entry.sequence + 1)] := by
  unfold afterEntry
  match done with
  | 0 => exact .inl rfl
  | 1 => simp
  | 2 => split <;> simp
  | done + 3 => split <;> simp

/-- Once the frame is complete the files hold the entry, whatever of the rotation has
happened. -/
theorem spoilt_of_written (layout : Layout first sealed active)
    (next : entry.sequence = first + (segmentEntries sealed ++ active.entries).length)
    (writable : Writable (segmentEntries sealed ++ active.entries ++ [entry]))
    (maxSegmentSizeBytes fileLen done : Nat) :
    Spoilt first (segmentEntries sealed ++ active.entries)
      (performAll
        ((sealed ++ [{ active with entries := active.entries ++ [entry] }]).map encodeFile,
          ⟨active.startSequence, fileLen⟩)
        ((afterEntry maxSegmentSizeBytes fileLen entry).take done)).1 := by
  have extended := layout.extend next
  obtain ⟨sealedFrom, after⟩ := layout.seal_extended next
  have numbered : From WalEntry.sequence first
      (segmentEntries sealed ++ active.entries ++ [entry]) :=
    from_append.mpr ⟨layout.entries_numbered, next, trivial⟩
  have written : Spoilt first (segmentEntries sealed ++ active.entries)
      ((sealed ++ [{ active with entries := active.entries ++ [entry] }]).map encodeFile) :=
    spoilt_of_listed extended.listSegments_eq (by simp) writable numbered
  have update : WalDir.updateActive
      (sealed ++ [{ active with entries := active.entries ++ [entry] }]) active.startSequence
        (fun segment => { segment with endSequence := some entry.sequence }) =
      sealed ++ [⟨active.startSequence, some entry.sequence, active.entries ++ [entry]⟩] :=
    extended.updateActive_eq fun segment => { segment with endSequence := some entry.sequence }
  rcases take_afterEntry maxSegmentSizeBytes fileLen entry done with
    nothing | counted | sealing | creating
  · rw [nothing]
    exact written
  · rw [counted]
    exact written
  · rw [sealing]
    change Spoilt first _ (ByteDir.updateActive _ _ _)
    rw [seal_encode, update]
    exact spoilt_of_listed sealedFrom.listSegments_eq (by simp) writable numbered
  · rw [creating]
    change Spoilt first _ (ByteDir.createActive (ByteDir.updateActive _ _ _) _)
    rw [seal_encode, update, createActive_encode, sealedFrom.createActiveSegment_eq]
    exact spoilt_of_listed (sealedFrom.fresh after).listSegments_eq (by simp) writable numbered

theorem spoilt_of_entry {dir : WalDir} {writer : WalWriter} {held : List WalEntry}
    (stores : Stores first dir writer held) (next : entry.sequence = first + held.length)
    (writable : Writable (held ++ [entry])) (maxSegmentSizeBytes : Nat) {done : Nat}
    (started : 0 < done) :
    Spoilt first held (performAll (dir.map encodeFile, writer)
      ((entryEffects maxSegmentSizeBytes writer.fileLen entry).take done)).1 := by
  obtain ⟨sealed, active, rfl, layout, opened, rfl⟩ := stores
  obtain ⟨activeStart, fileLen⟩ := writer
  obtain rfl : activeStart = active.startSequence := opened
  have length : ((frame walFormat entry).map WalEffect.write).length =
      (frame walFormat entry).length := List.length_map _
  rw [entryEffects]
  by_cases torn : done < (frame walFormat entry).length
  · rw [List.take_append_of_le_length (by omega), ← List.map_take, performAll_writes]
    exact spoilt_of_torn layout writable started torn
  · have beyond : ((frame walFormat entry).map WalEffect.write).take done =
        (frame walFormat entry).map .write := List.take_of_length_le (by omega)
    rw [List.take_append, beyond, performAll_append, performAll_writes, appendBytes_frame,
      layout.updateActive_eq]
    exact spoilt_of_written layout next writable maxSegmentSizeBytes fileLen _

end Partly

theorem Spoilt.of_append {files : ByteDir} (spoilt : Spoilt first (held ++ [entry]) files) :
    Spoilt first held files := by
  rcases spoilt with unread | ⟨dir, more, shape, writable, holds, -, numbered⟩
  · exact .inl unread
  · rw [List.append_assoc] at holds numbered
    exact .inr ⟨dir, [entry] ++ more, shape, writable, holds, by simp, numbered⟩

/-- **A batch that was begun spoils the directory.** -/
theorem spoilt_of_batch {writer : WalWriter} {entries : List WalEntry}
    (stores : Stores first dir writer held)
    (next : From WalEntry.sequence (first + held.length) entries) (writable : Writable held)
    (maxSegmentSizeBytes : Nat) {done : Nat} (started : 0 < done)
    (within : done ≤ (batchEffects maxSegmentSizeBytes writer.fileLen entries).length) :
    Spoilt first held (performAll (dir.map encodeFile, writer)
      ((batchEffects maxSegmentSizeBytes writer.fileLen entries).take done)).1 := by
  induction entries generalizing dir writer held done with
  | nil =>
    simp only [batchEffects, List.length_nil] at within
    omega
  | cons entry rest ih =>
    have stored := stores.appendEntry maxSegmentSizeBytes next.1
    unfold batchEffects at within ⊢
    dsimp only at within ⊢
    split
    · rename_i exceeds
      rw [if_pos exceeds, List.length_nil] at within
      omega
    · rename_i fits
      rw [if_neg fits, List.length_append] at within
      have writableNext : Writable (held ++ [entry]) := by
        intro other member
        rcases List.mem_append.mp member with old | new
        · exact writable other old
        · obtain rfl := List.mem_singleton.mp new
          exact Nat.not_le.mp fits
      by_cases here : done ≤ (entryEffects maxSegmentSizeBytes writer.fileLen entry).length
      · rw [List.take_append_of_le_length here]
        exact spoilt_of_entry stores next.1 writableNext maxSegmentSizeBytes started
      · -- the first entry is complete, a later one was begun
        rw [List.take_append, List.take_of_length_le (by omega), performAll_append,
          performAll_entryEffects, ← appendEntry_fileLen maxSegmentSizeBytes dir writer entry]
        refine (ih stored ?_ writableNext (by omega) ?_).of_append
        · rw [List.length_append, List.length_singleton, ← Nat.add_assoc]
          exact next.2
        · rw [appendEntry_fileLen]
          omega


/-- A spoilt directory does not open at the position of the entries it should hold. -/
theorem Spoilt.position_ne {last nowMs : Nat} {files : ByteDir} {disk : Disk} {state : EngineState}
    (spoilt : Spoilt first held files) (ends : first + held.length = last + 1)
    (opened : Engine.openFiles disk files nowMs = .ok state) :
    state.metadata.lastAppliedSequence ≠ last := by
  unfold Engine.openFiles at opened
  split at opened
  · cases opened
  obtain ⟨baseline, -, opened⟩ := Except.bind_eq_ok_iff.mp opened
  obtain ⟨entries, replayed, opened⟩ := Except.bind_eq_ok_iff.mp opened
  obtain ⟨identities, -, rebuilt⟩ := Except.bind_eq_ok_iff.mp opened
  rcases spoilt with ⟨file, member, err, unread⟩ | ⟨dir, more, rfl, writable, holds, some, numbered⟩
  · obtain ⟨read, readable⟩ := ByteDir.readEntries_of_replay replayed member
    rw [unread] at readable
    cases readable
  · rw [ByteDir.replay_encode writable] at replayed
    obtain rfl : entries = held ++ more := (WalDir.replay_ok replayed).1.trans holds
    obtain ⟨store, -, rfl⟩ := (EngineState.replayEntries_ok_iff _ _ _).mp rebuilt
    have positive := List.length_pos_iff.mpr some
    cases final : (held ++ more).getLast? with
    | none =>
      rw [List.getLast?_eq_none_iff, List.append_eq_nil_iff] at final
      exact absurd final.2 some
    | some entry =>
      have position := numbered.getLast?_number final
      rw [List.length_append] at position
      simp only [EngineMetadata.after, final]
      omega

end Appending

/-- An engine after a failed append, with the bytes of its files. The writer may have lost its
file. -/
structure RunningEngine where
  engine : Engine
  files : ByteDir
  writer : WalWriter
  opened : Bool

section Running

variable [WalEncoding]

/-- An append that fails after `done` effects: the engine keeps its state. A failure inside a
rotation also closes the writer's file. -/
def Engine.failAppend (engine : Engine) (entries : List WalEntry) (done : Nat) (opened : Bool) :
    RunningEngine :=
  let after := WalEffect.performAll (engine.disk.walDir.map encodeFile, engine.writer)
    ((batchEffects engine.options.walSegmentSizeBytes engine.writer.fileLen entries).take done)
  ⟨engine, after.1, after.2, opened⟩

namespace RunningEngine

def write (running : RunningEngine) (call : EngineCall) : Option RunningEngine :=
  if call.action.snapshots then none
  else
    (running.engine.storageStep call).bind fun next =>
      let entries := next.walEntries.drop running.engine.walEntries.length
      if running.opened || entries.isEmpty then
        let after := WalEffect.performAll (running.files, running.writer)
          (batchEffects running.engine.options.walSegmentSizeBytes running.writer.fileLen entries)
        some ⟨next, after.1, after.2, running.opened⟩
      else none

structure Faithful (running : RunningEngine) : Prop where
  recoverable : running.engine.Recoverable
  files : running.files = running.engine.disk.walDir.map encodeFile
  writer : running.writer = running.engine.writer

namespace Faithful

variable {running next : RunningEngine}

theorem step {call : EngineCall} (faithful : running.Faithful)
    (taken : running.write call = some next) : next.Faithful := by
  unfold write at taken
  split at taken
  · cases taken
  rename_i plain
  obtain ⟨engine, stepped, written⟩ := Option.bind_eq_some_iff.mp taken
  have recoverable := faithful.recoverable.step (fun snapshots => absurd snapshots plain) stepped
  rcases faithful.recoverable.step_cases stepped with
    ⟨-, admissible, entries, appended⟩ | ⟨_, _, -, snapshots, -⟩
  · dsimp only at written
    split at written
    · cases written
      have log : engine.walEntries = running.engine.walEntries ++ entries := appended.log
      have added : engine.walEntries.drop running.engine.walEntries.length = entries := by
        rw [log, List.drop_left]
      have writable : Writable entries := by
        intro entry member
        have readable :=
          recoverable.readable entry (by rw [log]; exact List.mem_append_right _ member)
        exact readable.trans_lt (by decide)
      have effects := performAll_batchEffects running.engine.options.walSegmentSizeBytes writable
      refine ⟨recoverable, ?_, ?_⟩
      · rw [added, faithful.files, faithful.writer, effects, appended.disk]
        rfl
      · rw [added, faithful.files, faithful.writer, effects, appended.writer]
        rfl
    · cases written
  · exact absurd snapshots plain

theorem reopens (faithful : running.Faithful) (nowMs : Nat) :
    ∃ state, Engine.openFiles running.engine.disk running.files nowMs = .ok state ∧
      state.store = running.engine.state.store ∧
      state.metadata.lastAppliedSequence = running.engine.lastAppliedSequence := by
  obtain ⟨opened, opens, store, position⟩ :=
    faithful.recoverable.reopen running.engine.options nowMs
  have writable : ∀ segment ∈ running.engine.disk.walDir, Writable segment.entries := by
    obtain ⟨first, ⟨sealed, active, dir, -, -, entries⟩, -⟩ := faithful.recoverable.stored
    intro segment member entry inside
    refine (faithful.recoverable.readable entry ?_).trans_lt (by decide)
    rw [← entries]
    rw [dir] at member
    rcases List.mem_append.mp member with old | last
    · exact List.mem_append_left _ (List.mem_flatMap.mpr ⟨segment, old, inside⟩)
    · obtain rfl := List.mem_singleton.mp last
      exact List.mem_append_right _ inside
  refine ⟨opened.state, ?_, store, position⟩
  rw [faithful.files]
  exact Engine.openFiles_encode writable opens

end Faithful

end RunningEngine

/-- **A failed append leaves a recoverable log exactly when nothing of it was written.** Whatever
is written successfully afterwards, reopening the directory has to succeed with the keyspace and
position of the running engine. -/
theorem failed_append_recovers_iff (options : EngineOptions) (startMs : Nat)
    (calls : List EngineCall) (engine : Engine)
    (reached : run Engine.storageStep (Engine.create options startMs) calls = some engine)
    (settled : Meets Engine.storageStep Engine.SettledSnapshot (Engine.create options startMs)
      calls)
    (entries : List WalEntry)
    (numbered : From WalEntry.sequence (engine.lastAppliedSequence + 1) entries) (done : Nat)
    (within : done ≤ (batchEffects engine.options.walSegmentSizeBytes engine.writer.fileLen
      entries).length) (opened : Bool) (reopenMs : Nat) :
    (∀ further final,
      run RunningEngine.write (engine.failAppend entries done opened) further = some final →
      ∃ state, Engine.openFiles final.engine.disk final.files reopenMs = .ok state ∧
        state.store = final.engine.state.store ∧
        state.metadata.lastAppliedSequence = final.engine.lastAppliedSequence) ↔ done = 0 := by
  have recoverable : engine.Recoverable :=
    invariant_of_meets (fun _ _ _ recoverable settled taken => recoverable.step settled taken)
      (Engine.Recoverable.create options startMs) settled reached
  constructor
  · intro recovers
    by_contra started
    obtain ⟨state, opens, -, position⟩ := recovers [] _ rfl
    obtain ⟨first, stores, ends⟩ := recoverable.stored
    have writable : Writable engine.walEntries := fun entry member =>
      (recoverable.readable entry member).trans_lt (by decide)
    rw [← ends] at numbered
    have spoilt := spoilt_of_batch stores numbered writable engine.options.walSegmentSizeBytes
      (Nat.pos_of_ne_zero started) within
    exact spoilt.position_ne ends opens position
  · rintro rfl further final ran
    have faithful : (engine.failAppend entries 0 opened).Faithful := ⟨recoverable, rfl, rfl⟩
    exact (invariant_of_run (fun _ _ _ faithful taken => faithful.step taken) faithful ran).reopens
      reopenMs

end Running

section Runs

open SampleBytes RunningEngine

def twoWrites : List WalEntry :=
  [⟨1, 0, 5, [.set "a" [1] 1]⟩, ⟨2, 0, 5, [.set "b" [1] 1]⟩]

def retriedWrite : EngineCall := ⟨0, .direct (.still 6) (.set "a" [2] {})⟩

/-- Nothing of the batch was written: the retried write is recovered. -/
theorem failed_append_recovers_unwritten :
    ∃ final ∈ run write ((Engine.create ⟨0, 1⟩ 0).failAppend twoWrites 0 true) [retriedWrite],
      ∃ state, Engine.openFiles final.engine.disk final.files 9 = .ok state ∧
        state.store = final.engine.state.store ∧
        state.metadata.lastAppliedSequence = final.engine.lastAppliedSequence := by
  obtain ⟨final, ran, -⟩ : ∃ final ∈ run write
      ((Engine.create ⟨0, 1⟩ 0).failAppend twoWrites 0 true) [retriedWrite],
      final.engine.lastAppliedSequence = 1 := by
    decide +kernel
  exact ⟨final, ran, (failed_append_recovers_iff ⟨0, 1⟩ 0 [] _ rfl trivial twoWrites
    ⟨rfl, rfl, trivial⟩ 0 (Nat.zero_le _) true 9).mpr rfl [retriedWrite] final ran⟩

/-- The first entry of the batch was written: the retried write takes its sequence again, and the
directory does not open any more. -/
theorem failed_append_reuses_sequence :
    ∃ final ∈ run write ((Engine.create ⟨0, 1⟩ 0).failAppend twoWrites
        (entryEffects 0 0 ⟨1, 0, 5, [.set "a" [1] 1]⟩).length true) [retriedWrite],
      (Engine.openFiles final.engine.disk final.files 9).map (fun _ => ()) =
        .error (.walDeserialize "non-contiguous WAL sequence: expected 2, found 1") := by
  decide +kernel

end Runs

end Vaylix
