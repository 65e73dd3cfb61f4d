import Vaylix.Engine.Shedding

/-!
# What a command logs reproduces what it did

The operations an evaluation pushes, run on the keyspace it started from, give the keyspace it
left. Apart from integer updates they are anchored: whatever expiration they set or clear
belongs to a key that is there.
-/

namespace Vaylix

namespace EngineStore

theorem purgeExpired_purgeExpired (store : EngineStore) (nowMs : Nat) :
    (store.purgeExpired nowMs).purgeExpired nowMs = store.purgeExpired nowMs := by
  rw [purgeExpired_max, Nat.max_self]

theorem remove_of_get_none {store : EngineStore} {key : Key} (absent : store.get key = none) :
    store.remove key = store := by
  ext1 other
  by_cases same : key = other
  · subst same
    simp [absent]
  · simp [same]

theorem containsKey_eq_true {store : EngineStore} {key : Key} :
    store.containsKey key = true ↔ store.get key ≠ none := by
  simp [containsKey, Option.isSome_iff_ne_none]

end EngineStore

open EngineStore

/-- The operations lead from the keyspace before to the one after, and are anchored there. -/
structure Reproduces (store : EngineStore) (evaluated : Evaluated) : Prop where
  run : applyOperations store evaluated.operations = .ok evaluated.store
  anchored : Anchored store evaluated.operations

def Command.counterKey : Command → Option Key
  | .incr key | .decr key => some key
  | _ => none

/-- The commands that, run directly, do not purge the keyspace. -/
def Command.unpurged : Command → Bool
  | .ping _ | .mSet _ | .clear => true
  | _ => false

/-- The keys a command may write, apart from `CLEAR` and `RESTORE`. -/
def Command.touchedKeys : Command → List Key
  | .set key _ _ | .setNx key _ | .getDel key | .getEx key _ _ | .expire key _ | .persist key
  | .incr key | .decr key => [key]
  | .mSet entries => entries.map Prod.fst
  | .delete keys => keys
  | .rename source destination | .renameNx source destination => [source, destination]
  | _ => []

/-- The keys that the command, decided on `store`, gives a value. -/
def Command.writtenKeys (store : EngineStore) : Command → List Key
  | .set key _ options => if options.allowed (store.get key) then [key] else []
  | .setNx key _ => if store.containsKey key then [] else [key]
  | .mSet entries => entries.map Prod.fst
  | .incr key | .decr key => [key]
  | .rename source destination => if store.containsKey source then [destination] else []
  | .renameNx source destination =>
    if store.containsKey destination then []
    else if store.containsKey source then [destination] else []
  | _ => []

/-- The key that a queued command moves onto itself. -/
def Command.selfRenamed : Command → List Key
  | .rename source destination => if source = destination then [source] else []
  | _ => []

/-- What evaluating `command` logs from a keyspace on the way on, and where that leads. -/
inductive Logs (command : Command) (start : EngineStore) (nowMs : Nat) :
    EngineStore → List WalOperation → EngineStore → Prop
  | done (store : EngineStore) : Logs command start nowMs store [] store
  | set {store final : EngineStore} {key : Key} {value : Bytes} {operations : List WalOperation}
    (touched : key ∈ command.touchedKeys) (written : key ∈ command.writtenKeys start)
    (kept : key ∉ command.selfRenamed → start.get key ≠ none → store.get key ≠ none)
    (later : Logs command start nowMs
      (store.insertValueWithVersion key value (nextValueVersion (store.get key)))
      operations final) :
    Logs command start nowMs store
      (.set key value (nextValueVersion (store.get key)) :: operations) final
  | delete {store final : EngineStore} {key : Key} {operations : List WalOperation}
    (touched : key ∈ command.touchedKeys)
    (later : Logs command start nowMs (store.remove key) operations final) :
    Logs command start nowMs store (.delete key :: operations) final
  | expire {store : EngineStore} {key : Key} {expiresAtMs : Nat}
    (touched : key ∈ command.touchedKeys) (present : store.get key ≠ none)
    (ahead : nowMs < u64Max → nowMs < expiresAtMs) :
    Logs command start nowMs store [.expire key expiresAtMs]
      (store.setExpirationIfPresent key expiresAtMs)
  | persist {store : EngineStore} {key : Key} (touched : key ∈ command.touchedKeys)
    (present : store.get key ≠ none) :
    Logs command start nowMs store [.persist key] (store.clearExpiration key)
  | clear (store : EngineStore) (cleared : command = .clear) :
    Logs command start nowMs store [.clear] store.clear

section Logs

variable {command : Command} {start store final : EngineStore} {nowMs : Nat}
  {operations : List WalOperation} {key source destination : Key}

/-- What was logged runs to the keyspace it leads to. -/
theorem Logs.run (logs : Logs command start nowMs store operations final) :
    applyOperations store operations = .ok final := by
  induction logs with
  | set _ _ _ _ ih => exact ih
  | delete _ _ ih => exact ih
  | _ => rfl

theorem Logs.anchored (logs : Logs command start nowMs store operations final) :
    Anchored store operations := by
  induction logs with
  | set _ _ _ _ ih => exact ih
  | delete _ _ ih => exact ih
  | expire _ present => exact ⟨present, trivial⟩
  | persist _ present => exact ⟨present, trivial⟩
  | _ => trivial

theorem lt_of_fresh {entry : StoredValue} {expiresAtMs : Nat}
    (purged : store.purgeExpired nowMs = store) (found : store.get key = some entry)
    (expires : entry.expiresAtMs = some expiresAtMs) : nowMs < expiresAtMs := by
  rw [← purged, get_purgeExpired, Option.filter_eq_some_iff] at found
  simpa [StoredValue.expiredAt, expires] using found.2

theorem evaluateExpiration_logs (touched : key ∈ command.touchedKeys)
    (present : store.get key ≠ none) (expiresAtMs : Nat) :
    Logs command start nowMs store (evaluateExpiration store nowMs key expiresAtMs).2
      (evaluateExpiration store nowMs key expiresAtMs).1 := by
  unfold evaluateExpiration
  split
  · exact .delete touched (.done _)
  · exact .expire touched present fun _ => by omega

theorem evaluateSet_logs (purged : store.purgeExpired nowMs = store) (key : Key) (value : Bytes)
    (options : SetOptions) :
    Logs (.set key value options) store nowMs store
      (evaluateSet store nowMs key value options).operations
      (evaluateSet store nowMs key value options).store := by
  have touched : key ∈ (Command.set key value options).touchedKeys := List.mem_singleton_self key
  unfold evaluateSet
  dsimp only
  cases allowed : options.allowed (store.get key) with
  | false => exact .done _
  | true =>
    refine .set touched (by simp [Command.writtenKeys, allowed]) (fun _ present => present) ?_
    have present :
        (store.insertValueWithVersion key value (nextValueVersion (store.get key))).get key ≠
          none := by
      simp
    cases options.expiration with
    | some expires => exact evaluateExpiration_logs touched present _
    | none =>
      dsimp only
      split
      · rename_i expiresAtMs kept
        obtain ⟨entry, found, expires⟩ := Option.bind_eq_some_iff.mp kept
        exact .expire touched present fun _ => lt_of_fresh purged found expires
      · exact .done _

theorem evaluateMSet_logs {rest entries : List (Key × Bytes)}
    (among : ∀ entry ∈ rest, entry ∈ entries)
    (kept : ∀ key, start.get key ≠ none → store.get key ≠ none) :
    Logs (.mSet entries) start nowMs store (evaluateMSet store rest).2
      (evaluateMSet store rest).1 := by
  induction rest generalizing store with
  | nil => exact .done _
  | cons entry rest ih =>
    obtain ⟨here, others⟩ := List.forall_mem_cons.mp among
    refine .set (List.mem_map_of_mem here) (List.mem_map_of_mem here) (fun _ => kept _)
      (ih others fun key present => ?_)
    by_cases same : entry.1 = key
    · simp [same]
    · simpa [same] using kept key present

theorem evaluateDelete_logs {rest keys : List Key} (among : ∀ key ∈ rest, key ∈ keys) :
    Logs (.delete keys) start nowMs store (evaluateDelete store rest).2
      (evaluateDelete store rest).1 := by
  induction rest generalizing store with
  | nil => exact .done _
  | cons key rest ih =>
    obtain ⟨here, others⟩ := List.forall_mem_cons.mp among
    unfold evaluateDelete
    dsimp only
    cases present : store.containsKey key with
    | true => exact .delete here (ih others)
    | false =>
      have absent : store.get key = none := by simpa [containsKey] using present
      rw [remove_of_get_none absent]
      exact ih others

theorem evaluateRename_logs (purged : store.purgeExpired nowMs = store)
    (touched : source ∈ command.touchedKeys ∧ destination ∈ command.touchedKeys)
    (written : store.containsKey source = true → destination ∈ command.writtenKeys store)
    (kept : destination ∉ command.selfRenamed → source = destination → store.get source = none) :
    Logs command store nowMs store (evaluateRename store source destination).operations
      (evaluateRename store source destination).store := by
  unfold evaluateRename
  cases found : store.get source with
  | none => exact .done _
  | some entry =>
    dsimp only
    refine .delete touched.1 (.set touched.2 (written (by simp [containsKey, found]))
      (fun apart present => ?_) ?_)
    · have other : source ≠ destination := fun same => by simp [kept apart same] at found
      simpa [other] using present
    · cases expires : entry.expiresAtMs with
      | none => exact .done _
      | some expiresAtMs =>
        exact .expire touched.2 (by simp) fun _ => lt_of_fresh purged found expires

theorem evaluateAdd_logs (store : EngineStore) (key : Key) (delta : Int) :
    Logs command store nowMs store (evaluateAdd store key delta).operations
        (evaluateAdd store key delta).store ∨
      (evaluateAdd store key delta).operations = [.checkInteger key delta] ∧
        applyOperations store [.checkInteger key delta] =
          .ok (evaluateAdd store key delta).store := by
  unfold evaluateAdd parseIntegerValue
  dsimp only
  simp only [getValue, applyOperations_cons, applyOperation]
  cases parsed : parseI64 ((Option.map StoredValue.value (store.get key)).getD zeroText) with
  | none => exact .inl (.done _)
  | some number =>
    dsimp only
    cases added : checkedAdd number delta with
    | none => exact .inl (.done _)
    | some next => exact .inr ⟨rfl, rfl⟩

/-- **What evaluating a command does**, an integer update apart. -/
theorem evaluatePurged_logs (command : Command)
    (purged : command.unpurged = false → store.purgeExpired nowMs = store) :
    Logs command store nowMs store (evaluatePurged store nowMs command).operations
        (evaluatePurged store nowMs command).store ∨
      ∃ key delta, command.counterKey = some key ∧
        (evaluatePurged store nowMs command).operations = [.checkInteger key delta] ∧
        applyOperations store [.checkInteger key delta] =
          .ok (evaluatePurged store nowMs command).store := by
  have single (key : Key) : key ∈ [key] := List.mem_singleton_self key
  cases command
  case incr key =>
    exact (evaluateAdd_logs store key 1).imp_right fun counted => ⟨key, 1, rfl, counted⟩
  case decr key =>
    exact (evaluateAdd_logs store key (-1)).imp_right fun counted => ⟨key, -1, rfl, counted⟩
  all_goals left
  case set key value options => exact evaluateSet_logs (purged rfl) key value options
  case mSet entries => exact evaluateMSet_logs (fun _ => id) fun _ => id
  case delete keys => exact evaluateDelete_logs fun _ => id
  case getDel key =>
    simp only [evaluatePurged, evaluateGetDel]
    split
    · exact .delete (single key) (.done _)
    · exact .done _
  case getEx key expires persist =>
    simp only [evaluatePurged, evaluateGetEx]
    split
    · exact .done _
    · rename_i entry found
      have present : store.get key ≠ none := by simp [found]
      split
      · exact evaluateExpiration_logs (single key) present _
      · split
        · exact .persist (single key) present
        · exact .done _
  case setNx key value =>
    simp only [evaluatePurged, evaluateSetNx]
    cases present : store.containsKey key with
    | true => exact .done _
    | false =>
      have absent : store.get key = none := by simpa [containsKey] using present
      refine absent ▸ .set (single key) ?_ (fun _ there => there) (.done _)
      simp [Command.writtenKeys, present]
  case expire key seconds =>
    simp only [evaluatePurged, evaluateExpire]
    cases present : store.containsKey key with
    | false => exact .done _
    | true =>
      simp only [Bool.not_true, Bool.false_eq_true, if_false]
      split
      · exact .delete (single key) (.done _)
      · refine .expire (single key) (containsKey_eq_true.mp present) fun before => ?_
        simp only [resolveExpiration, satAdd, u64Max] at before ⊢
        omega
  case persist key =>
    simp only [evaluatePurged, evaluatePersist]
    split
    · rename_i expiring
      refine .persist (single key) fun absent => ?_
      simp [EngineStore.expiration, absent] at expiring
    · exact .done _
  case rename source destination =>
    refine evaluateRename_logs (purged rfl) (by simp [Command.touchedKeys]) ?_ fun apart same => ?_
    · intro present
      simp [Command.writtenKeys, present]
    · simp [Command.selfRenamed, same] at apart
  case renameNx source destination =>
    simp only [evaluatePurged, purged rfl]
    cases present : store.containsKey destination with
    | true => exact .done _
    | false =>
      refine evaluateRename_logs (purged rfl) (by simp [Command.touchedKeys]) ?_ ?_
      · intro there
        simp [Command.writtenKeys, present, there]
      · rintro - rfl
        simpa [containsKey] using present
  case clear =>
    simp only [evaluatePurged]
    split
    · exact .done _
    · exact .clear _ rfl
  case scan | list =>
    simp only [evaluatePurged, purged rfl]
    exact .done _
  all_goals exact .done _

end Logs

theorem evaluatePurged_reproduces {store : EngineStore} {nowMs : Nat} (command : Command)
    (purged : command.unpurged = false → store.purgeExpired nowMs = store) :
    Reproduces store (evaluatePurged store nowMs command) ∨
      ∃ key delta, command.counterKey = some key ∧
        (evaluatePurged store nowMs command).operations = [.checkInteger key delta] ∧
        applyOperations store [.checkInteger key delta] =
          .ok (evaluatePurged store nowMs command).store :=
  (evaluatePurged_logs command purged).imp_left fun logs => ⟨logs.run, logs.anchored⟩

/-- The operations pushed lead to the keyspace left. -/
theorem evaluatePurged_run {store : EngineStore} {nowMs : Nat} (command : Command)
    (purged : command.unpurged = false → store.purgeExpired nowMs = store) :
    applyOperations store (evaluatePurged store nowMs command).operations =
      .ok (evaluatePurged store nowMs command).store := by
  rcases evaluatePurged_reproduces command purged with plain | ⟨key, delta, -, logged, run⟩
  · exact plain.run
  · rw [logged]
    exact run

end Vaylix
