import Vaylix.Engine.Appending
import Vaylix.Engine.Transactions
import Vaylix.Engine.WalSessions

/-!
# Reading back what was acknowledged

The writer refuses an entry whose encoding does not fit a 32-bit length; the reader refuses
one of more than 4 MiB. A transaction or a restore is one entry, which nothing bounds: a call
is answered, and the directory does not open any more.
-/

namespace Vaylix

open Framing NumberedLog

namespace Engine

section Reading

variable [WalEncoding] (engine : Engine)

theorem readable_of_readEntries {segment : SegmentFile} {entries : List WalEntry}
    (written : Writable segment.entries)
    (read : (encodeFile segment).readEntries = .ok entries) :
    WalDir.Readable segment.entries := by
  rw [readEntries_encodeFile written, WalDir.readSegmentEntries] at read
  split at read
  · cases read
  · rename_i short
    intro entry member
    simpa using List.find?_eq_none.mp short entry member

theorem stores_perform {action : EngineAction} (stored : engine.LogStored)
    (plain : action.snapshots = false) (succeeded : action.succeeds engine = true) :
    ∃ first, Stores first (action.perform engine).disk.walDir (action.perform engine).writer
      (engine.walEntries ++ action.logged engine) := by
  have appended := Appended.perform engine plain succeeded
  obtain ⟨first, stores, ends⟩ := stored
  rw [appended.disk, appended.writer]
  refine ⟨first, stores.appendBatch engine.options.walSegmentSizeBytes ?_⟩
  rw [ends]
  exact appended.numbered

section Successful

variable {engine : Engine} {action : EngineAction} (stored : engine.LogStored)
  (readable : WalDir.Readable engine.walEntries) (plain : action.snapshots = false)
  (succeeded : action.succeeds engine = true)

include stored readable plain succeeded

theorem replay_of_readable (short : WalDir.Readable (action.logged engine)) :
    ByteDir.replay ((action.perform engine).disk.walDir.map encodeFile) =
      .ok (engine.walEntries ++ action.logged engine) := by
  obtain ⟨first, stores⟩ := stores_perform engine stored plain succeeded
  refine stores.replay_encode fun entry member => ?_
  rcases List.mem_append.mp member with earlier | logged
  · exact readable entry earlier
  · exact short entry logged

theorem readable_of_replay (accepted : Writable (action.logged engine)) {entries : List WalEntry}
    (replayed : ByteDir.replay ((action.perform engine).disk.walDir.map encodeFile) =
      .ok entries) : WalDir.Readable (action.logged engine) := by
  obtain ⟨first, stores⟩ := stores_perform engine stored plain succeeded
  have written : Writable (engine.walEntries ++ action.logged engine) := by
    intro entry member
    rcases List.mem_append.mp member with earlier | logged
    · exact readable.writable entry earlier
    · exact accepted entry logged
  intro entry member
  obtain ⟨segment, listed, inside⟩ := stores.mem_iff.mp (List.mem_append_right _ member)
  obtain ⟨held, read⟩ :=
    ByteDir.readEntries_of_replay replayed (List.mem_map_of_mem (f := encodeFile) listed)
  exact readable_of_readEntries (stores.writable written segment listed) read entry inside

end Successful

/-- **What a call was acknowledged for is read back** exactly when none of the entries it
logs is longer than 4 MiB. -/
theorem acknowledged_reads_back_iff (action : EngineAction) (stored : engine.LogStored)
    (readable : WalDir.Readable engine.walEntries) (plain : action.snapshots = false)
    (succeeded : action.succeeds engine = true)
    (accepted : ∀ entry ∈ action.logged engine, Codec.durableLen entry < 2 ^ 32) :
    (∃ entries, ByteDir.replay ((action.perform engine).disk.walDir.map encodeFile) =
        .ok entries) ↔
      ∀ entry ∈ action.logged engine, Codec.durableLen entry ≤ maxWalEntrySize := by
  constructor
  · rintro ⟨entries, replayed⟩
    exact readable_of_replay stored readable plain succeeded accepted replayed
  · intro short
    exact ⟨_, replay_of_readable stored readable plain succeeded short⟩

end Reading

end Engine

section Samples

open EngineStore Engine SampleBytes

theorem length_toBytes (codes : List Nat) : (toBytes codes).length = codes.sum + codes.length := by
  induction codes with
  | nil => rfl
  | cons code rest ih =>
    rw [toBytes, List.flatMap_cons, List.length_append, ← toBytes]
    simp only [List.length_append, List.length_replicate, List.sum_cons, List.length_cons,
      List.length_nil]
    omega

theorem evaluateTransaction_sets {nowMs : Nat} {key : Key} {value : Bytes} (count : Nat)
    {store : EngineStore} {version : Nat} (lasting : Unexpiring store)
    (current : nextValueVersion (store.get key) = version) (room : version + count ≤ u64Max) :
    ∃ final results, evaluateTransaction store nowMs (List.replicate count (.set key value {})) =
      .ok (final, (List.range' version count).map (.set key value), results) := by
  induction count generalizing store version with
  | zero => exact ⟨store, [], rfl⟩
  | succ count ih =>
    have written : evaluateTransactionCommand store nowMs (.set key value {}) =
        ⟨store.insertValueWithVersion key value version, [.set key value version], .ok .ok⟩ := by
      rw [evaluateTransactionCommand, lasting.purgeExpired_eq]
      simp only [evaluatePurged, evaluateSet, current]
      rfl
    have next : nextValueVersion ((store.insertValueWithVersion key value version).get key) =
        version + 1 := by
      rw [get_insertValueWithVersion, if_pos rfl]
      simp only [nextValueVersion, Option.map_some, Option.getD_some, satAdd]
      omega
    have still : Unexpiring (store.insertValueWithVersion key value version) :=
      lasting.applyOperation
        (show WalOperation.concernsExpiration (.set key value version) = false from rfl) rfl
    obtain ⟨final, results, later⟩ := ih still next (by omega)
    refine ⟨final, .ok :: results, ?_⟩
    rw [List.replicate_succ, evaluateTransaction, written]
    simp only [later]
    rfl

def bulkTransaction (size : Nat) : EngineAction :=
  .transaction (.still 5) (List.replicate 17 (.set "k" (List.replicate size 0) {}))

def bulkEntry (size : Nat) : WalEntry :=
  ⟨1, 0, 5, (List.range' 1 17).map (.set "k" (List.replicate size 0))⟩

theorem bulkTransaction_logged (size : Nat) :
    (bulkTransaction size).logged (create ⟨0, 0⟩ 0) = [bulkEntry size] ∧
      (bulkTransaction size).succeeds (create ⟨0, 0⟩ 0) = true := by
  have empty : Unexpiring (EngineState.new 0).store := fun key entry found => by
    simp [EngineState.new] at found
  obtain ⟨final, results, evaluated⟩ :
      ∃ final results, evaluateTransaction (EngineState.new 0).store 5
        (List.replicate 17 (.set "k" (List.replicate size 0) {})) =
        .ok (final, (bulkEntry size).operations, results) :=
    evaluateTransaction_sets 17 empty rfl (by decide)
  have prepared : evaluateTransaction
      ((create ⟨0, 0⟩ 0).state.store.purgeExpired (Reading.still 5).now) (Reading.still 5).now
      (List.replicate 17 (.set "k" (List.replicate size 0) {})) =
      .ok (final, (bulkEntry size).operations, results) := by
    rw [← evaluated]
    exact congrArg (evaluateTransaction · 5 _) (empty.purgeExpired_eq 5)
  constructor
  · simp only [bulkTransaction, EngineAction.logged, prepared]
    rfl
  · simp only [bulkTransaction, EngineAction.succeeds,
      (executeTransaction_of_ok (by decide) prepared).1]
    rfl

theorem durableLen_bulkEntry (size : Nat) :
    Codec.durableLen (bulkEntry size) = 34 * size + 2101 := by
  change (toBytes (entryCodes (bulkEntry size))).length = _
  rw [length_toBytes]
  simp [entryCodes, bulkEntry, operationCodes, counted, textCodes, byteCodes, List.range']
  omega

theorem logStored_create (options : EngineOptions) (nowMs : Nat) :
    (create options nowMs).LogStored :=
  ⟨1, Stores.fresh 1 0, rfl⟩

/-- 17 writes of 256 KiB are answered, and the directory does not open any more. -/
theorem acknowledged_transaction_unreadable :
    let engine := create ⟨0, 0⟩ 0
    let action := bulkTransaction 262144
    engine.LogStored ∧ WalDir.Readable engine.walEntries ∧ action.succeeds engine = true ∧
      (∀ entry ∈ action.logged engine, Codec.durableLen entry < 2 ^ 32) ∧
      ¬ ∃ entries, ByteDir.replay ((action.perform engine).disk.walDir.map encodeFile) =
        .ok entries := by
  obtain ⟨logged, succeeded⟩ := bulkTransaction_logged 262144
  have stored := logStored_create ⟨0, 0⟩ 0
  have readable : WalDir.Readable (create ⟨0, 0⟩ 0).walEntries := by
    intro entry member
    cases member
  have accepted : Writable ((bulkTransaction 262144).logged (create ⟨0, 0⟩ 0)) := by
    rw [logged]
    intro entry member
    rw [List.mem_singleton.mp member, durableLen_bulkEntry]
    decide
  refine ⟨stored, readable, succeeded, accepted, fun ⟨entries, replayed⟩ => ?_⟩
  have short := readable_of_replay stored readable rfl succeeded accepted replayed
  rw [logged] at short
  have length := short _ List.mem_cons_self
  rw [durableLen_bulkEntry] at length
  exact absurd length (by decide)

/-- Writes of one byte are read back. -/
theorem acknowledged_transaction_read :
    (∀ entry ∈ (bulkTransaction 1).logged (create ⟨0, 0⟩ 0),
      Codec.durableLen entry ≤ maxWalEntrySize) ∧
    ∃ entries, ByteDir.replay (((bulkTransaction 1).perform (create ⟨0, 0⟩ 0)).disk.walDir.map
      encodeFile) = .ok entries := by
  obtain ⟨logged, succeeded⟩ := bulkTransaction_logged 1
  have short : ∀ entry ∈ (bulkTransaction 1).logged (create ⟨0, 0⟩ 0),
      Codec.durableLen entry ≤ maxWalEntrySize := by
    rw [logged]
    intro entry member
    rw [List.mem_singleton.mp member, durableLen_bulkEntry]
    decide
  exact ⟨short, (acknowledged_reads_back_iff _ _ (logStored_create ⟨0, 0⟩ 0)
    (fun _ member => by cases member) rfl succeeded
    fun entry member => (short entry member).trans_lt (by decide)).mpr short⟩

end Samples

end Vaylix
