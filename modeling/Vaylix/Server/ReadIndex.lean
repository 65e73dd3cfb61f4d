import Vaylix.Engine.LogIndex
import Vaylix.Server.EngineWorker

/-!
# The committed read index

`GET`, `MGET`, `EXISTS` and `TTL` are answered from a projection of the log that keeps values
and expirations, has no versions and never purges. An operation that fails leaves the ones
before it applied and the position where it was.
-/

namespace Vaylix

open NumberedLog

structure ReadEntry where
  value : Bytes
  expiresAtMs : Option Nat
deriving DecidableEq, Repr

def ReadEntry.expiredAt (entry : ReadEntry) (nowMs : Nat) : Bool :=
  entry.expiresAtMs.any fun expiresAtMs => decide (expiresAtMs ≤ nowMs)

abbrev ReadEntries := Std.ExtTreeMap Key ReadEntry compare

structure CommittedReadIndex where
  entries : ReadEntries
  committedSequence : Nat

namespace ReadEntries

def applyOperation (entries : ReadEntries) : WalOperation → Except ServerError ReadEntries
  | .set key value _ => .ok (entries.insert key ⟨value, none⟩)
  | .delete key => .ok (entries.erase key)
  | .expire key expiresAtMs =>
    match entries[key]? with
    | some entry => .ok (entries.insert key { entry with expiresAtMs := some expiresAtMs })
    | none => .ok entries
  | .persist key =>
    match entries[key]? with
    | some entry => .ok (entries.insert key { entry with expiresAtMs := none })
    | none => .ok entries
  | .clear => .ok ∅
  | .checkInteger key delta =>
    let current := ((entries[key]?).map ReadEntry.value).getD zeroText
    match parseI64 current with
    | none => .error (.engine (.invalidIntegerValue key current))
    | some parsed =>
      match checkedAdd parsed delta with
      | none => .error (.engine (.numericOverflow key))
      | some next => .ok (entries.insert key ⟨renderI64 next, none⟩)

/-- Operations in place, up to the first that fails. -/
def applyOperations (entries : ReadEntries) :
    List WalOperation → ReadEntries × Option ServerError
  | [] => (entries, none)
  | operation :: rest =>
    match entries.applyOperation operation with
    | .error err => (entries, some err)
    | .ok next => ReadEntries.applyOperations next rest

def liveEntry (entries : ReadEntries) (key : Key) (nowMs : Nat) : Option ReadEntry :=
  match entries[key]? with
  | none => none
  | some entry =>
    match entry.expiresAtMs with
    | some expiresAtMs => if expiresAtMs ≤ nowMs then none else some entry
    | none => some entry

end ReadEntries

namespace CommittedReadIndex

def new : CommittedReadIndex := ⟨∅, 0⟩

def rebuildFromEngineState (state : EngineState) : CommittedReadIndex :=
  ⟨state.store.entries.map fun _ entry => ⟨entry.value, entry.expiresAtMs⟩,
    state.metadata.lastAppliedSequence⟩

def applyEntries (index : CommittedReadIndex) :
    List WalEntry → CommittedReadIndex × Option ServerError
  | [] => (index, none)
  | entry :: rest =>
    if entry.sequence ≤ index.committedSequence then index.applyEntries rest
    else
      match index.entries.applyOperations entry.operations with
      | (entries, some err) => ({ index with entries := entries }, some err)
      | (entries, none) => CommittedReadIndex.applyEntries ⟨entries, entry.sequence⟩ rest

def readCommand (index : CommittedReadIndex) (nowMs : Nat) :
    Command → Except ServerError TransactionResult
  | .get key => .ok (valueOrNotFound ((index.entries.liveEntry key nowMs).map ReadEntry.value))
  | .mGet keys => .ok (.strings (keys.map fun key =>
      (index.entries.liveEntry key nowMs).map ReadEntry.value))
  | .exists key => .ok (.boolean (index.entries.liveEntry key nowMs).isSome)
  | .ttl key => .ok (.integer (
      match index.entries[key]? with
      | some entry =>
        if entry.expiredAt nowMs then ttlKeyMissing
        else
          match entry.expiresAtMs with
          | some expiresAtMs => EngineState.remainingSeconds (expiresAtMs - nowMs)
          | none => ttlNoExpiry
      | none => ttlKeyMissing))
  | _ => .error .unsupportedRemoteCommand

def advanceLoop [Codec] (engine : Engine) (fetchBatchSize targetSequence : Nat) :
    Nat → CommittedReadIndex → CommittedReadIndex × Option ServerError
  | 0, index => (index, none)
  | fuel + 1, index =>
    if index.committedSequence < targetSequence then
      match engine.walEntriesSince index.committedSequence fetchBatchSize with
      | .error err => (index, some (.engine err))
      | .ok [] => (index, none)
      | .ok entries =>
        match index.applyEntries entries with
        | (index, some err) => (index, some err)
        | (index, none) => advanceLoop engine fetchBatchSize targetSequence fuel index
    else (index, none)

def advanceReadIndexTo [Codec] (index : CommittedReadIndex) (engine : Engine)
    (fetchBatchSize targetSequence : Nat) : CommittedReadIndex × Option ServerError :=
  advanceLoop engine fetchBatchSize targetSequence (targetSequence - index.committedSequence)
    index

end CommittedReadIndex

def StoredValue.readEntry (stored : StoredValue) : ReadEntry := ⟨stored.value, stored.expiresAtMs⟩

/-- The index entries are the values and expirations of a keyspace. -/
def ReadEntries.Projects (entries : ReadEntries) (full : EngineStore) : Prop :=
  ∀ key, entries[key]? = (full.get key).map StoredValue.readEntry

namespace ReadEntries.Projects

variable {entries : ReadEntries} {full full' : EngineStore}

theorem insert (projects : entries.Projects full) (key : Key) (stored : StoredValue) :
    ReadEntries.Projects (entries.insert key stored.readEntry) (full.insertEntry key stored) := by
  intro other
  rw [Std.ExtTreeMap.getElem?_insert]
  by_cases same : key = other
  · simp [same]
  · simpa [same] using projects other

theorem applyOperation (projects : entries.Projects full) {operation : WalOperation}
    (run : Vaylix.applyOperation full operation = .ok full') :
    ∃ entries', entries.applyOperation operation = .ok entries' ∧
      ReadEntries.Projects entries' full' := by
  cases operation with
  | set key value version =>
    cases run
    exact ⟨_, rfl, projects.insert key ⟨value, none, version⟩⟩
  | delete key =>
    cases run
    refine ⟨_, rfl, ?_⟩
    intro other
    rw [Std.ExtTreeMap.getElem?_erase]
    by_cases same : key = other
    · simp [same]
    · simpa [same] using projects other
  | expire key expiresAtMs =>
    cases run
    have here := projects key
    simp only [ReadEntries.applyOperation, EngineStore.setExpirationIfPresent]
    cases found : full.get key with
    | none =>
      simp only [here, found, Option.map_none]
      exact ⟨entries, rfl, projects⟩
    | some stored =>
      simp only [here, found, Option.map_some]
      exact ⟨_, rfl, projects.insert key { stored with expiresAtMs := some expiresAtMs }⟩
  | persist key =>
    cases run
    have here := projects key
    simp only [ReadEntries.applyOperation, EngineStore.clearExpiration]
    cases found : full.get key with
    | none =>
      simp only [here, found, Option.map_none]
      exact ⟨entries, rfl, projects⟩
    | some stored =>
      simp only [here, found, Option.map_some]
      exact ⟨_, rfl, projects.insert key { stored with expiresAtMs := none }⟩
  | clear =>
    cases run
    exact ⟨∅, rfl, fun key => by simp⟩
  | checkInteger key delta =>
    have here : (entries[key]?).map ReadEntry.value = (full.get key).map StoredValue.value := by
      rw [projects key, Option.map_map]
      rfl
    obtain ⟨number, sum, parsed, added, rfl⟩ := applyOperation_checkInteger.mp run
    refine ⟨entries.insert key ⟨renderI64 sum, none⟩, ?_,
      projects.insert key (incrementedEntry (full.get key) sum)⟩
    simp only [ReadEntries.applyOperation, here, parsed, added]

theorem applyOperations (projects : entries.Projects full) {operations : List WalOperation}
    (run : Vaylix.applyOperations full operations = .ok full') :
    ∃ entries', entries.applyOperations operations = (entries', none) ∧
      ReadEntries.Projects entries' full' := by
  induction operations generalizing entries full with
  | nil =>
    cases run
    exact ⟨entries, rfl, projects⟩
  | cons operation rest ih =>
    obtain ⟨next, first, rest⟩ := applyOperations_cons_eq_ok.mp run
    obtain ⟨middle, applied, related⟩ := projects.applyOperation first
    obtain ⟨entries', following, projected⟩ := ih related rest
    exact ⟨entries', by simp only [ReadEntries.applyOperations, applied, following], projected⟩

end ReadEntries.Projects

namespace CommittedReadIndex

open ReadEntries

theorem projects_rebuild (state : EngineState) :
    (rebuildFromEngineState state).entries.Projects state.store := by
  intro key
  rw [rebuildFromEngineState, Std.ExtTreeMap.getElem?_map]
  rfl

/-- Entries are handed over in order, and what has been handed over may come again. -/
inductive Delivers : List WalEntry → List WalEntry → List WalEntry → Prop
  | done {seen : List WalEntry} : Delivers seen [] []
  | again {seen delivered entries : List WalEntry} {entry : WalEntry} (old : entry ∈ seen)
      (later : Delivers seen delivered entries) : Delivers seen (entry :: delivered) entries
  | next {seen delivered entries : List WalEntry} {entry : WalEntry}
      (later : Delivers (entry :: seen) delivered entries) :
      Delivers seen (entry :: delivered) (entry :: entries)

theorem Delivers.once (seen entries : List WalEntry) : Delivers seen entries entries := by
  induction entries generalizing seen with
  | nil => exact .done
  | cons entry rest ih => exact .next (ih _)

theorem applyEntries_of_delivers {index : CommittedReadIndex} {full full' : EngineStore}
    {seen delivered entries : List WalEntry} (delivers : Delivers seen delivered entries)
    (projects : index.entries.Projects full)
    (old : ∀ entry ∈ seen, entry.sequence ≤ index.committedSequence)
    (increasing : (index.committedSequence :: entries.map WalEntry.sequence).Pairwise (· < ·))
    (run : replayStore full entries = .ok full') :
    ∃ projected, index.applyEntries delivered =
        (⟨projected, (entries.map WalEntry.sequence).getLastD index.committedSequence⟩, none) ∧
      ReadEntries.Projects projected full' := by
  induction delivers generalizing index full with
  | done =>
    cases run
    exact ⟨index.entries, rfl, projects⟩
  | again repeated _ ih =>
    rw [applyEntries, if_pos (old _ repeated)]
    exact ih projects old increasing run
  | @next seen delivered entries entry _ ih =>
    obtain ⟨next, first, run⟩ := Except.bind_eq_ok_iff.mp run
    obtain ⟨above, later⟩ := List.pairwise_cons.mp increasing
    have newer : index.committedSequence < entry.sequence := above _ List.mem_cons_self
    obtain ⟨middle, applied, related⟩ := projects.applyOperations first
    have seen : ∀ other ∈ entry :: seen, other.sequence ≤ entry.sequence := by
      rintro other (_ | ⟨_, earlier⟩)
      · exact le_rfl
      · exact (old other earlier).trans newer.le
    obtain ⟨projected, following, final⟩ := @ih ⟨middle, entry.sequence⟩ next related seen later run
    refine ⟨projected, ?_, final⟩
    rw [applyEntries, if_neg (not_le.mpr newer), applied, List.map_cons, List.getLastD_cons]
    exact following

/-- The index applies what the keyspace replays. -/
theorem applyEntries_of_replay {index : CommittedReadIndex} {full full' : EngineStore}
    (projects : index.entries.Projects full) {entries : List WalEntry}
    (numbered : From WalEntry.sequence (index.committedSequence + 1) entries)
    (run : replayStore full entries = .ok full') :
    ∃ projected, index.applyEntries entries =
        (⟨projected, index.committedSequence + entries.length⟩, none) ∧
      ReadEntries.Projects projected full' := by
  have increasing :
      (index.committedSequence :: entries.map WalEntry.sequence).Pairwise (· < ·) := by
    refine List.pairwise_cons.mpr ⟨?_, List.pairwise_map.mpr numbered.pairwise⟩
    intro sequence member
    obtain ⟨entry, inside, rfl⟩ := List.mem_map.mp member
    exact (numbered.mem_bounds inside).1
  have position : (entries.map WalEntry.sequence).getLastD index.committedSequence =
      index.committedSequence + entries.length := by
    cases final : entries.getLast? with
    | none => simp [List.getLast?_eq_none_iff.mp final]
    | some last =>
      have := numbered.getLast?_number final
      simp only [List.getLastD_eq_getLast?, List.getLast?_map, final, Option.map_some,
        Option.getD_some]
      omega
  rw [← position]
  exact applyEntries_of_delivers (.once [] entries) projects (by rintro _ ⟨⟩) increasing run

/-- `apply_entries` for one batch after the other, up to the first that fails. -/
def applyBatches (index : CommittedReadIndex) :
    List (List WalEntry) → CommittedReadIndex × Option ServerError
  | [] => (index, none)
  | batch :: rest =>
    match index.applyEntries batch with
    | (next, none) => applyBatches next rest
    | (next, some err) => (next, some err)

theorem applyBatches_flatten (index : CommittedReadIndex) (batches : List (List WalEntry)) :
    index.applyBatches batches = index.applyEntries batches.flatten := by
  induction batches generalizing index with
  | nil => rfl
  | cons batch rest ih =>
    rw [applyBatches, List.flatten_cons]
    induction batch generalizing index with
    | nil => exact ih index
    | cons entry batch inner =>
      rw [List.cons_append, applyEntries, applyEntries]
      by_cases old : entry.sequence ≤ index.committedSequence
      · rw [if_pos old, if_pos old]
        exact inner index
      · rw [if_neg old, if_neg old]
        obtain ⟨entries, _ | err⟩ := index.entries.applyOperations entry.operations
        · exact inner _
        · rfl

/-- **The index follows the engine**, however the entries are cut into batches that overlap. -/
theorem applyBatches_projects (state final : EngineState) (entries : List WalEntry)
    (increasing : entries.Pairwise fun a b => a.sequence < b.sequence)
    (above : ∀ entry ∈ entries, state.metadata.lastAppliedSequence < entry.sequence)
    (applied : state.replayEntries entries = .ok final) (batches : List (List WalEntry))
    (delivers : Delivers [] batches.flatten entries) :
    ∃ index, (rebuildFromEngineState state).applyBatches batches = (index, none) ∧
      index.entries.Projects final.store ∧
      index.committedSequence = final.metadata.lastAppliedSequence := by
  obtain ⟨store, run, rfl⟩ := (EngineState.replayEntries_ok_iff _ _ _).mp applied
  have sequences : (state.metadata.lastAppliedSequence :: entries.map WalEntry.sequence).Pairwise
      (· < ·) :=
    List.pairwise_cons.mpr ⟨by simpa using above, List.pairwise_map.mpr increasing⟩
  obtain ⟨projected, delivered, projects⟩ :=
    applyEntries_of_delivers delivers (projects_rebuild state) (by rintro _ ⟨⟩) sequences run
  refine ⟨_, (applyBatches_flatten _ batches).trans delivered, projects, ?_⟩
  simp only [rebuildFromEngineState, EngineMetadata.after, List.getLastD_eq_getLast?,
    List.getLast?_map]
  cases entries.getLast? <;> rfl

/-- The second batch repeats the first one. -/
theorem applyBatches_projects_overlapping :
    let state : EngineState := ⟨.new, ⟨1, 0, 0, none, 0⟩⟩
    let first : WalEntry := ⟨1, 1, 5, [.set "a" [49] 1]⟩
    let second : WalEntry := ⟨3, 1, 6, [.checkInteger "a" 1]⟩
    ∃ final, state.replayEntries [first, second] = .ok final ∧
      ∃ index, (rebuildFromEngineState state).applyBatches [[first], [first, second]] =
          (index, none) ∧
        index.entries.Projects final.store ∧
        index.committedSequence = final.metadata.lastAppliedSequence :=
  ⟨_, rfl, applyBatches_projects _ _ _ (by decide) (by decide) rfl _
    (.next (.again List.mem_cons_self (.next .done)))⟩

/-- **The index catches up** with entries that replay behind what it has seen. -/
theorem advanceLoop_of_replay [Codec] {engine : Engine} {first fetchBatchSize fuel : Nat}
    {index : CommittedReadIndex} {full full' : EngineStore} {seen entries : List WalEntry}
    (log : engine.walEntries = seen ++ entries)
    (numbered : From WalEntry.sequence first engine.walEntries)
    (position : first + seen.length = index.committedSequence + 1)
    (projects : index.entries.Projects full) (run : replayStore full entries = .ok full')
    (enough : entries.length ≤ fuel) :
    ∃ projected, advanceLoop engine fetchBatchSize (index.committedSequence + entries.length)
        fuel index = (⟨projected, index.committedSequence + entries.length⟩, none) ∧
      ReadEntries.Projects projected full' := by
  induction fuel generalizing index full seen entries with
  | zero =>
    obtain rfl : entries = [] := List.length_eq_zero_iff.mp (by omega)
    cases run
    exact ⟨index.entries, rfl, projects⟩
  | succ fuel ih =>
    unfold advanceLoop
    by_cases done : entries = []
    · subst done
      cases run
      exact ⟨index.entries, by simp, projects⟩
    · have nonempty : 0 < entries.length := List.length_pos_iff.mpr done
      have rest : engine.walEntries.drop (index.committedSequence + 1 - first) = entries := by
        have cut : index.committedSequence + 1 - first = seen.length := by omega
        rw [log, cut, List.drop_left]
      -- The round fetches a nonempty front of what is missing.
      obtain ⟨size, bound, fetched⟩ : ∃ size, 0 < size ∧
          engine.walEntriesSince index.committedSequence fetchBatchSize =
            .ok (entries.take size) := by
        rw [Engine.walEntriesSince_of_numbered numbered, rest]
        dsimp only
        split
        · rename_i limited
          exact ⟨fetchBatchSize, limited.1, rfl⟩
        · exact ⟨entries.length, nonempty, by rw [List.take_length]⟩
      have split := List.take_append_drop size entries
      have newNumbered : From WalEntry.sequence (index.committedSequence + 1) entries := by
        rw [log] at numbered
        rw [← position]
        exact (from_append.mp numbered).2
      rw [← split, replayStore_append] at run
      obtain ⟨middle, front, run⟩ := Except.bind_eq_ok_iff.mp run
      obtain ⟨projected, applied, related⟩ :=
        applyEntries_of_replay projects (newNumbered.take size) front
      have frontLength : 0 < (entries.take size).length := by
        rw [List.length_take]
        omega
      have lengths : (entries.take size).length + (entries.drop size).length =
          entries.length := by
        rw [← List.length_append, split]
      obtain ⟨final, advanced, projectedFinal⟩ :=
        @ih ⟨projected, index.committedSequence + (entries.take size).length⟩ middle
          (seen ++ entries.take size) (entries.drop size)
          (by rw [log, List.append_assoc, split])
          (by simp only [List.length_append]; omega) related run (by omega)
      refine ⟨final, ?_, projectedFinal⟩
      have target : index.committedSequence + (entries.take size).length +
          (entries.drop size).length = index.committedSequence + entries.length := by
        omega
      rw [if_pos (by omega), fetched]
      cases batch : entries.take size with
      | nil =>
        rw [batch] at frontLength
        cases frontLength
      | cons entry following =>
        rw [batch] at applied advanced target
        simp only [applied]
        rw [target] at advanced
        exact advanced

end CommittedReadIndex

end Vaylix
