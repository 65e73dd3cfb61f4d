import Mathlib.Data.Finset.Card
import Vaylix.Engine.DirectEffects
import Vaylix.Engine.LogGrowth

/-!
# One command, run directly and in a queue

Commands run directly, or are evaluated by `EXEC` and write batches. The two agree with three
exceptions: `MSET` counts on from the version of an expired entry, `DEL` counts a key that is
named twice two times, and `RENAME` of a key onto itself counts on from its own version.
-/

namespace Vaylix

open EngineStore

def Command.isData : Command → Bool
  | .get _ | .getDel _ | .getEx _ _ _ | .set _ _ _ | .setNx _ _ | .mGet _ | .mSet _ | .delete _
  | .exists _ | .incr _ | .decr _ | .expire _ _ | .ttl _ | .persist _ | .rename _ _
  | .renameNx _ _ | .scan _ _ _ | .dbSize | .list | .clear => true
  | _ => false

/-- No entry that `MSET` replaces has expired, no key that `DEL` removes is named twice, and no
key is moved onto itself. A version of zero is as good as none, and so is any version of a key
that is named until its versions run out. -/
def Command.Unambiguous (store : EngineStore) (nowMs : Nat) : Command → Prop
  | .mSet entries => ∀ key ∈ entries.map Prod.fst, ∀ stored, store.get key = some stored →
      stored.expiredAt nowMs = true →
        stored.version = 0 ∨ u64Max ≤ (entries.map Prod.fst).count key
  | .delete keys => (keys.filter (store.purgeExpired nowMs).containsKey).Nodup
  | .rename source destination => source = destination → ∀ stored,
      (store.purgeExpired nowMs).get source = some stored → stored.version = 0
  | _ => True

/-! ### `MSET` and `DEL` -/

def EngineStore.versionOf (store : EngineStore) (key : Key) : Nat :=
  ((store.get key).map StoredValue.version).getD 0

theorem nextValueVersion_get (store : EngineStore) (key : Key) :
    nextValueVersion (store.get key) = min (store.versionOf key + 1) u64Max := by
  unfold nextValueVersion versionOf
  cases store.get key <;> rfl

/-- `MSET` leaves the last value of a key, and counts its version each time it is named. -/
theorem evaluateMSet_get (entries : List (Key × Bytes)) (key : Key) :
    (key ∉ entries.map Prod.fst ∧ ∀ store, (evaluateMSet store entries).1.get key = store.get key) ∨
      key ∈ entries.map Prod.fst ∧ ∃ value, ∀ store, (evaluateMSet store entries).1.get key =
        some ⟨value, none,
          min (store.versionOf key + (entries.map Prod.fst).count key) u64Max⟩ := by
  induction entries with
  | nil => exact .inl ⟨by simp, fun store => rfl⟩
  | cons entry rest ih =>
    obtain ⟨name, given⟩ := entry
    by_cases same : name = key
    · subst same
      refine .inr ⟨by simp, ?_⟩
      rcases ih with ⟨absent, kept⟩ | ⟨-, value, written⟩
      · exact ⟨given, fun store => by
          simp [evaluateMSet, kept, nextValueVersion_get, List.count_eq_zero.mpr absent]⟩
      · refine ⟨value, fun store => ?_⟩
        simp only [evaluateMSet, written, versionOf, get_insertValueWithVersion, if_true,
          Option.map_some, Option.getD_some, nextValueVersion_get, Option.some.injEq,
          StoredValue.mk.injEq, true_and, List.map_cons, List.count_cons_self]
        omega
    · rcases ih with ⟨absent, kept⟩ | ⟨member, value, written⟩
      · exact .inl ⟨by simp [absent, Ne.symm same], fun store => by simp [evaluateMSet, kept, same]⟩
      · refine .inr ⟨by simp [member], value, fun store => ?_⟩
        simp [evaluateMSet, written, versionOf, same]

theorem length_evaluateDelete (store : EngineStore) (keys : List Key) :
    (evaluateDelete store keys).2.length = (keys.filter store.containsKey).dedup.length := by
  induction keys generalizing store with
  | nil => rfl
  | cons key rest ih =>
    unfold evaluateDelete
    dsimp only
    cases present : store.containsKey key with
    | false =>
      have absent : store.get key = none := by simpa [containsKey] using present
      rw [remove_of_get_none absent, List.filter_cons_of_neg (by simp [present])]
      exact ih store
    | true =>
      have others : rest.filter (store.remove key).containsKey =
          (rest.filter store.containsKey).filter (· ≠ key) := by
        rw [List.filter_filter]
        refine List.filter_congr fun other _ => ?_
        by_cases same : key = other <;> simp [containsKey, same, Ne.symm]
      rw [if_pos rfl, List.length_cons, ih, others, List.filter_cons_of_pos present]
      simp only [← List.card_toFinset, List.toFinset_cons, List.toFinset_filter,
        decide_eq_true_eq, Finset.filter_ne']
      rw [← Finset.erase_insert_eq_erase]
      exact Finset.card_erase_add_one (Finset.mem_insert_self _ _)

theorem applyOperations_deletes (store : EngineStore) (keys : List Key) :
    applyOperations store (keys.map .delete) = .ok (evaluateDelete store keys).1 := by
  induction keys generalizing store with
  | nil => rfl
  | cons key rest ih => exact ih (store.remove key)

namespace Engine

variable [Codec] (engine : Engine) (nowMs : Nat)

def SameBothWays (command : Command) : Prop :=
  let direct := engine.executeCommand (.still nowMs) command
  let evaluated := evaluateTransactionCommand engine.state.store nowMs command
  direct.2 = evaluated.outcome.mapError .engine ∧
    direct.1.state.store.purgeExpired nowMs = evaluated.store.purgeExpired nowMs

variable {engine nowMs} {command : Command} {prepared : Prepared TransactionResult}

theorem executeCommand_of_run {reading : Reading} {store : EngineStore}
    (data : command.isData = true)
    (found : engine.state.prepareCommand reading command = some prepared)
    (run : applyOperations prepared.state.store (prepared.operations.getD []) = .ok store) :
    (engine.executeCommand reading command).1.state.store = store ∧
      (engine.executeCommand reading command).2 = prepared.answer.mapError .engine := by
  have finished : (engine.finish reading.created prepared).1.state.store = store ∧
      (engine.finish reading.created prepared).2 = prepared.answer := by
    cases logged : prepared.operations with
    | none =>
      rw [logged] at run
      cases run
      simp [finish, logged]
    | some operations =>
      rw [logged, Option.getD_some] at run
      have taken := appendAndApply_of_ok { engine with state := prepared.state } reading.created run
      rw [finish, logged]
      dsimp only
      rw [taken]
      exact ⟨rfl, rfl⟩
  unfold executeCommand
  split
  · cases data
  · cases data
  · rw [found, ← finished.2]
    dsimp only
    rw [← finished.1]
    rcases engine.finish reading.created prepared with ⟨final, answer⟩
    cases answer <;> exact ⟨rfl, rfl⟩

theorem executeCommand_of_agrees {decided : EngineState} (data : command.isData = true)
    (found : engine.state.prepareCommand (.still nowMs) command = some prepared)
    (agrees : prepared.Agrees decided (evaluatePurged decided.store nowMs command))
    (purged : command.unpurged = false → decided.store.purgeExpired nowMs = decided.store) :
    (engine.executeCommand (.still nowMs) command).1.state.store =
        (evaluatePurged decided.store nowMs command).store ∧
      (engine.executeCommand (.still nowMs) command).2 =
        (evaluatePurged decided.store nowMs command).outcome.mapError .engine := by
  have run := evaluatePurged_run command purged
  rw [← agrees.operations, ← agrees.state] at run
  have done := executeCommand_of_run data found run
  rwa [agrees.answer, agrees.state] at done

variable (engine nowMs command) in
theorem executeCommand_alike (data : command.isData = true) (alike : command.Alike) :
    let store := if command.unpurged then engine.state.store
      else engine.state.store.purgeExpired nowMs
    (engine.executeCommand (.still nowMs) command).1.state.store =
        (evaluatePurged store nowMs command).store ∧
      (engine.executeCommand (.still nowMs) command).2 =
        (evaluatePurged store nowMs command).outcome.mapError .engine := by
  have known : ∃ prepared, engine.state.prepareCommand (.still nowMs) command = some prepared := by
    cases command <;> first | exact ⟨_, rfl⟩ | cases data
  obtain ⟨prepared, found⟩ := known
  obtain ⟨decided, readMs, agrees, purged, kept, on, read⟩ :=
    engine.state.prepareCommand_alike alike found
  obtain rfl : readMs = nowMs := read.elim id id
  have store : decided.store = if command.unpurged then engine.state.store
      else engine.state.store.purgeExpired readMs := by
    cases unpurged : command.unpurged with
    | true => rw [kept unpurged, if_pos rfl]
    | false =>
      rcases on.store with same | same | same
      · rw [← same, purged unpurged]
        rfl
      · exact same
      · exact same.trans (purgeExpired_purgeExpired _ _)
  exact store ▸ executeCommand_of_agrees data found agrees purged

theorem sameBothWays_of_alike (data : command.isData = true) (alike : command.Alike)
    (purges : command.unpurged = false) : engine.SameBothWays nowMs command := by
  obtain ⟨left, answered⟩ := executeCommand_alike engine nowMs command data alike
  rw [purges] at left answered
  exact ⟨answered, congrArg (purgeExpired · nowMs) left⟩

theorem sameBothWays_mSet_iff (entries : List (Key × Bytes)) :
    engine.SameBothWays nowMs (.mSet entries) ↔
      (Command.mSet entries).Unambiguous engine.state.store nowMs := by
  obtain ⟨left, answered⟩ := executeCommand_alike engine nowMs (.mSet entries) rfl trivial
  unfold SameBothWays
  dsimp only
  rw [left, answered]
  refine (and_iff_right rfl).trans ⟨fun same key member stored found expired => ?_, fun fresh => ?_⟩
  · rcases evaluateMSet_get entries key with ⟨absent, -⟩ | ⟨-, value, written⟩
    · exact absurd member absent
    · have here := congrArg (EngineStore.get · key) same
      simp only [evaluateTransactionCommand, evaluatePurged, Command.unpurged, if_true,
        get_purgeExpired, written, versionOf, found, Option.filter, expired] at here
      have versions : min (stored.version + (entries.map Prod.fst).count key) u64Max =
          min (0 + (entries.map Prod.fst).count key) u64Max :=
        congrArg (fun found => (found.map StoredValue.version).getD 0) here
      omega
  · ext1 key
    simp only [evaluateTransactionCommand, evaluatePurged, Command.unpurged, if_true,
      get_purgeExpired]
    rcases evaluateMSet_get entries key with ⟨-, kept⟩ | ⟨member, value, written⟩
    · simp [kept]
    · have versions :
          min (engine.state.store.versionOf key + (entries.map Prod.fst).count key) u64Max =
          min ((engine.state.store.purgeExpired nowMs).versionOf key +
            (entries.map Prod.fst).count key) u64Max := by
        unfold versionOf
        rw [get_purgeExpired]
        cases found : engine.state.store.get key with
        | none => rfl
        | some stored =>
          cases expired : stored.expiredAt nowMs with
          | false => simp [Option.filter, expired]
          | true =>
            have counted := fresh key member stored found expired
            simp only [Option.filter, expired, Option.map_some, Option.getD_some, Bool.not_true,
              Bool.false_eq_true, if_false, Option.map_none, Option.getD_none]
            omega
      rw [written, written, versions]

theorem sameBothWays_delete_iff (keys : List Key) :
    engine.SameBothWays nowMs (.delete keys) ↔
      (Command.delete keys).Unambiguous engine.state.store nowMs := by
  have run := applyOperations_deletes (engine.state.store.purgeExpired nowMs) keys
  have count := length_evaluateDelete (engine.state.store.purgeExpired nowMs) keys
  have done : (engine.executeCommand (.still nowMs) (.delete keys)).1.state.store =
        (evaluateDelete (engine.state.store.purgeExpired nowMs) keys).1 ∧
      (engine.executeCommand (.still nowMs) (.delete keys)).2 = .ok (.count
        (keys.filter (engine.state.store.purgeExpired nowMs).containsKey).length) := by
    by_cases none : (keys.filter (engine.state.store.purgeExpired nowMs).containsKey).length = 0
    · have silent : engine.state.prepareCommand (.still nowMs) (.delete keys) =
          some (.quiet (engine.state.purgeExpired nowMs) (.count 0)) := by
        exact congrArg _ (congrArg _ (if_pos none))
      have empty : (evaluateDelete (engine.state.store.purgeExpired nowMs) keys).2 = [] := by
        rw [← List.length_eq_zero_iff, count, List.length_eq_zero_iff.mp none]
        rfl
      have logs : Logs (.delete keys) (engine.state.store.purgeExpired nowMs) nowMs
          (engine.state.store.purgeExpired nowMs) _ _ := evaluateDelete_logs fun _ => id
      have kept := logs.run
      rw [empty] at kept
      exact none ▸ executeCommand_of_run rfl silent kept
    · have logs : engine.state.prepareCommand (.still nowMs) (.delete keys) =
          some (.log (engine.state.purgeExpired nowMs) (keys.map .delete) (.count
            (keys.filter (engine.state.store.purgeExpired nowMs).containsKey).length)) := by
        exact congrArg _ (congrArg _ (if_neg none))
      exact executeCommand_of_run rfl logs run
  unfold SameBothWays
  dsimp only
  rw [done.1, done.2]
  simp only [evaluateTransactionCommand, evaluatePurged, Command.Unambiguous, Except.mapError,
    and_true, Except.ok.injEq, TransactionResult.count.injEq, count]
  rw [eq_comm, (List.dedup_sublist _).length_eq, List.dedup_eq_self]

theorem version_of_renamed {key : Key} {stored : StoredValue}
    (found : (engine.state.store.purgeExpired nowMs).get key = some stored)
    (same : engine.SameBothWays nowMs (.rename key key)) : stored.version = 0 := by
  obtain ⟨value, expiresAtMs, version⟩ := stored
  have prepares : ∃ prepared, engine.state.prepareCommand (.still nowMs) (.rename key key) =
        some prepared ∧ ∃ left,
      applyOperations prepared.state.store (prepared.operations.getD []) = .ok left ∧
        left.get key = some ⟨value, expiresAtMs, satAdd version 1⟩ := by
    simp only [EngineState.prepareCommand, EngineState.rename, EngineState.purgeExpired_store,
      Reading.still, found]
    cases expiresAtMs <;> exact ⟨_, rfl, _, rfl, by simp [nextValueVersion]⟩
  have evaluated : (evaluateRename (engine.state.store.purgeExpired nowMs) key key).store.get key =
      some ⟨value, expiresAtMs, 1⟩ := by
    simp only [evaluateRename, found]
    cases expiresAtMs <;> simp [nextValueVersion]
  obtain ⟨prepared, known, left, run, direct⟩ := prepares
  have here := congrArg (EngineStore.get · key) same.2
  simp only [(executeCommand_of_run rfl known run).1, evaluateTransactionCommand, evaluatePurged,
    get_purgeExpired, direct, evaluated] at here
  -- What is there after a purge is not expired, and its version does not matter for that.
  have live (version : Nat) : (some (StoredValue.mk value expiresAtMs version)).filter
      (fun entry => !entry.expiredAt nowMs) = some ⟨value, expiresAtMs, version⟩ := by
    rw [get_purgeExpired, Option.filter_eq_some_iff] at found
    exact Option.filter_some_pos found.2
  rw [live, live] at here
  injection here with written
  injection written with _ _ counted
  simp only [satAdd, u64Max] at counted
  show version = 0
  omega

theorem sameBothWays_clear : engine.SameBothWays nowMs .clear := by
  have vacant (store : EngineStore) : (evaluatePurged store nowMs .clear).store.purgeExpired nowMs =
      .new ∧ (evaluatePurged store nowMs .clear).outcome = .ok .ok := by
    simp only [evaluatePurged]
    split
    · rename_i empty
      refine ⟨EngineStore.ext fun key => ?_, rfl⟩
      have absent : store.get key = none := by
        rw [EngineStore.get, Std.ExtTreeMap.isEmpty_iff.mp empty]
        exact Std.ExtTreeMap.getElem?_empty
      simp [Evaluated.answer, absent]
    · exact ⟨EngineStore.ext fun key => by simp, rfl⟩
  obtain ⟨left, answered⟩ := executeCommand_alike engine nowMs .clear rfl trivial
  refine ⟨answered.trans ?_, ?_⟩
  · rw [(vacant _).2, evaluateTransactionCommand, (vacant _).2]
  · rw [left, (vacant _).1, evaluateTransactionCommand, (vacant _).1]

/-- **The two implementations of a command agree exactly when it is unambiguous.** -/
theorem same_both_ways_iff (engine : Engine) (nowMs : Nat) (command : Command)
    (data : command.isData = true) :
    engine.SameBothWays nowMs command ↔ command.Unambiguous engine.state.store nowMs := by
  cases command
  case mSet entries => exact sameBothWays_mSet_iff entries
  case delete keys => exact sameBothWays_delete_iff keys
  case clear => exact ⟨fun _ => trivial, fun _ => sameBothWays_clear⟩
  case rename source destination =>
    refine ⟨fun same equal stored found => ?_, fun apart => ?_⟩
    · subst equal
      exact version_of_renamed found same
    · obtain ⟨left, answered⟩ := executeCommand_of_agrees data rfl
        (engine.state.rename_agrees nowMs apart) fun _ => purgeExpired_purgeExpired _ nowMs
      exact ⟨answered, congrArg (purgeExpired · nowMs) left⟩
  case ping => cases data
  case restore => cases data
  all_goals exact ⟨fun _ => trivial, fun _ => sameBothWays_of_alike data trivial rfl⟩

end Engine

section Samples

open Sample

def oneKey : Engine :=
  ((Engine.create ⟨0, 0⟩ 0).executeCommand (.still 0) (.set "a" [49] {})).1

/-- A key that is named twice is counted twice, and in a queue once. -/
theorem delete_twice_differs : ¬ oneKey.SameBothWays 0 (.delete ["a", "a"]) := by
  rintro ⟨answers, -⟩
  revert answers
  decide +kernel

theorem same_both_ways_delete :
    oneKey.SameBothWays 0 (.delete ["a"]) :=
  (oneKey.same_both_ways_iff 0 (.delete ["a"]) rfl).mpr (show List.Nodup _ by decide +kernel)

end Samples

end Vaylix
