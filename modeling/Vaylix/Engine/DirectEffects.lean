import Vaylix.Engine.CommandEffects

/-!
# What a direct command logs

A direct command purges at its first reading (some not at all, one twice) and then mostly logs
and answers what evaluating it comes to. The others write down versions or keys of their own.
Apart from integer updates the operations are anchored.
-/

namespace Vaylix

open EngineStore

namespace Prepared

/-- The command decides on `decided`, and logs and answers what evaluating it comes to. -/
structure Agrees (prepared : Prepared TransactionResult) (decided : EngineState)
    (evaluated : Evaluated) : Prop where
  state : prepared.state = decided
  operations : prepared.operations.getD [] = evaluated.operations
  answer : prepared.answer = evaluated.outcome

theorem Agrees.logged {prepared : Prepared TransactionResult} {decided : EngineState}
    {evaluated : Evaluated} (agrees : prepared.Agrees decided evaluated)
    {operations : List WalOperation} (logged : prepared.operations = some operations) :
    operations = evaluated.operations := by
  rw [← agrees.operations, logged]
  rfl

def Anchors {α : Type} (prepared : Prepared α) : Prop :=
  ∀ operations, prepared.operations = some operations →
    Anchored prepared.state.store operations

end Prepared

def Command.Alike : Command → Prop
  | .delete _ | .restore _ => False
  | .rename source destination => source ≠ destination
  | _ => True

open Prepared

namespace EngineState

/-- The states a direct command can decide on: as it stands, purged once, or twice. -/
structure DecidedOn (state : EngineState) (reading : Reading) (decided : EngineState) : Prop where
  position : decided.metadata.lastAppliedSequence = state.metadata.lastAppliedSequence
  store : decided.store = state.store ∨ decided.store = state.store.purgeExpired reading.now ∨
    decided.store = (state.store.purgeExpired reading.now).purgeExpired reading.later

variable (state : EngineState) (nowMs : Nat) (key : Key)

theorem decidedOn_self (reading : Reading) : state.DecidedOn reading state := ⟨rfl, .inl rfl⟩

theorem decidedOn_purged (reading : Reading) :
    state.DecidedOn reading (state.purgeExpired reading.now) :=
  ⟨purgeExpired_lastAppliedSequence _ _, .inr (.inl rfl)⟩

theorem setWithOptions_agrees (value : Bytes) (options : SetOptions) :
    ((state.setWithOptions nowMs key value options).render (renderSetResponse options)).Agrees
      (state.purgeExpired nowMs)
      (evaluateSet (state.purgeExpired nowMs).store nowMs key value options) := by
  unfold setWithOptions evaluateSet
  dsimp only
  cases options.allowed ((state.purgeExpired nowMs).store.get key) with
  | false => exact ⟨rfl, rfl, rfl⟩
  | true =>
    refine ⟨rfl, congrArg (List.cons _) ?_, rfl⟩
    cases options.expiration with
    | some expires =>
      unfold evaluateExpiration
      dsimp only
      split <;> rfl
    | none =>
      cases options.keepTtl with
      | false => rfl
      | true =>
        cases ((state.purgeExpired nowMs).store.get key).bind StoredValue.expiresAtMs <;> rfl

theorem setNx_agrees (value : Bytes) :
    ((state.setNx nowMs key value).render .boolean).Agrees
      (state.purgeExpired nowMs) (evaluateSetNx (state.purgeExpired nowMs).store key value) := by
  unfold setNx setWithOptions evaluateSetNx containsKey
  dsimp only
  cases found : (state.purgeExpired nowMs).store.get key <;> exact ⟨rfl, rfl, rfl⟩

theorem getDel_agrees : ((state.getDel nowMs key).render valueOrNotFound).Agrees
    (state.purgeExpired nowMs) (evaluateGetDel (state.purgeExpired nowMs).store key) := by
  unfold getDel evaluateGetDel getValue
  dsimp only
  cases (state.purgeExpired nowMs).store.get key <;> exact ⟨rfl, rfl, rfl⟩

theorem getEx_agrees (expires : Option Expiration) (persist : Bool) :
    ((state.getEx nowMs key expires persist).render valueOrNotFound).Agrees
      (state.purgeExpired nowMs)
      (evaluateGetEx (state.purgeExpired nowMs).store nowMs key expires persist) := by
  unfold getEx evaluateGetEx getValue EngineStore.expiration
  dsimp only
  cases (state.purgeExpired nowMs).store.get key with
  | none => exact ⟨rfl, rfl, rfl⟩
  | some entry =>
    cases expires with
    | some expires =>
      unfold evaluateExpiration
      by_cases past : resolveExpiration nowMs expires ≤ nowMs <;>
        simp only [past, if_true, if_false] <;> exact ⟨rfl, rfl, rfl⟩
    | none =>
      obtain ⟨value, expiresAtMs, version⟩ := entry
      cases persist <;> cases expiresAtMs <;> exact ⟨rfl, rfl, rfl⟩

theorem add_agrees (delta : Int) : ((state.add nowMs key delta).render .integer).Agrees
    (state.purgeExpired nowMs) (evaluateAdd (state.purgeExpired nowMs).store key delta) := by
  unfold add evaluateAdd
  dsimp only
  cases parseIntegerValue key (((state.purgeExpired nowMs).store.getValue key).getD zeroText) with
  | error err => exact ⟨rfl, rfl, rfl⟩
  | ok parsed =>
    dsimp only
    cases checkedAdd parsed delta <;> exact ⟨rfl, rfl, rfl⟩

theorem expire_agrees (seconds : Nat) : ((state.expire nowMs key seconds).render .boolean).Agrees
    (state.purgeExpired nowMs)
    (evaluateExpire (state.purgeExpired nowMs).store nowMs key seconds) := by
  unfold expire evaluateExpire
  dsimp only
  cases (state.purgeExpired nowMs).store.containsKey key with
  | false => exact ⟨rfl, rfl, rfl⟩
  | true => cases seconds <;> exact ⟨rfl, rfl, rfl⟩

theorem persist_agrees : ((state.persist nowMs key).render .boolean).Agrees
    (state.purgeExpired nowMs) (evaluatePersist (state.purgeExpired nowMs).store key) := by
  unfold persist evaluatePersist
  dsimp only
  cases (state.purgeExpired nowMs).store.expiration key <;> exact ⟨rfl, rfl, rfl⟩

/-- The version of the destination is read before the source is gone, and after. -/
theorem rename_agrees {source destination : Key}
    (apart : source = destination → ∀ stored,
      (state.purgeExpired nowMs).store.get source = some stored → stored.version = 0) :
    ((state.rename nowMs source destination).render .boolean).Agrees
      (state.purgeExpired nowMs)
      (evaluateRename (state.purgeExpired nowMs).store source destination) := by
  unfold rename evaluateRename
  dsimp only
  cases found : (state.purgeExpired nowMs).store.get source with
  | none => exact ⟨rfl, rfl, rfl⟩
  | some entry =>
    have version : nextValueVersion ((state.purgeExpired nowMs).store.get destination) =
        nextValueVersion (((state.purgeExpired nowMs).store.remove source).get destination) := by
      by_cases same : source = destination
      · subst same
        rw [found, get_remove, if_pos rfl, nextValueVersion, Option.map_some, apart rfl entry found]
        rfl
      · rw [get_remove, if_neg same]
    rw [version]
    obtain ⟨value, expiresAtMs, _⟩ := entry
    cases expiresAtMs <;> exact ⟨rfl, rfl, rfl⟩

/-- `mset` reads the versions first and counts them on itself, which comes to the same. -/
theorem msetOperations_eq {store live : EngineStore} {versions : Std.ExtTreeMap Key Nat compare}
    (ahead : ∀ key, (versions[key]?).getD (nextValueVersion (store.get key)) =
      nextValueVersion (live.get key)) (entries : List (Key × Bytes)) :
    msetOperations store versions entries = (evaluateMSet live entries).2 := by
  induction entries generalizing live versions with
  | nil => rfl
  | cons entry rest ih =>
    simp only [msetOperations, evaluateMSet, ahead]
    refine congrArg (List.cons _) (ih fun key => ?_)
    rw [Std.ExtTreeMap.getElem?_insert]
    by_cases same : entry.1 = key
    · subst same
      simp [nextValueVersion]
    · simpa [same] using ahead key

variable {reading : Reading} {command : Command} {prepared : Prepared TransactionResult}

/-- The command is decided on `decided` as evaluating it at `nowMs` decides it. -/
structure DecidedAlike (reading : Reading) (command : Command)
    (prepared : Prepared TransactionResult) (decided : EngineState) (nowMs : Nat) : Prop where
  agrees : prepared.Agrees decided (evaluatePurged decided.store nowMs command)
  purged : command.unpurged = false → decided.store.purgeExpired nowMs = decided.store
  kept : command.unpurged = true → decided = state
  on : state.DecidedOn reading decided
  read : nowMs = reading.now ∨ nowMs = reading.later

/-- The second reading of `rename_nx` matters only if the destination is free. -/
theorem renameNx_alike (source destination : Key) :
    ∃ decided nowMs, state.DecidedAlike reading (.renameNx source destination)
      ((state.renameNx reading source destination).render .boolean) decided nowMs := by
  unfold renameNx
  by_cases taken : (state.purgeExpired reading.now).store.containsKey destination = true
  · refine ⟨state.purgeExpired reading.now, reading.now, ?_,
      fun _ => purgeExpired_purgeExpired _ _, by rintro ⟨⟩, decidedOn_purged _ _, .inl rfl⟩
    simp only [evaluatePurged, if_pos taken]
    exact ⟨rfl, rfl, rfl⟩
  · refine ⟨(state.purgeExpired reading.now).purgeExpired reading.later, reading.later, ?_,
      fun _ => purgeExpired_purgeExpired _ _, by rintro ⟨⟩, ⟨by simp, .inr (.inr rfl)⟩, .inr rfl⟩
    have free : ((state.purgeExpired reading.now).purgeExpired
        reading.later).store.get destination = none := by
      rw [purgeExpired_store, get_purgeExpired, not_not.mp (mt containsKey_eq_true.mpr taken)]
      rfl
    simp only [evaluatePurged, if_neg taken]
    rw [containsKey, free, if_neg (by simp), purgeExpired_store, purgeExpired_purgeExpired]
    refine rename_agrees _ _ fun same stored found => ?_
    rw [same, free] at found
    cases found

/-- **Most direct commands log and answer what evaluating them comes to.** -/
theorem prepareCommand_alike [Codec] (alike : command.Alike)
    (found : state.prepareCommand reading command = some prepared) :
    ∃ decided nowMs, state.DecidedAlike reading command prepared decided nowMs := by
  have once (agrees : prepared.Agrees (state.purgeExpired reading.now)
      (evaluatePurged (state.purgeExpired reading.now).store reading.now command))
      (purges : command.unpurged = false) :
      ∃ decided nowMs, state.DecidedAlike reading command prepared decided nowMs :=
    ⟨_, _, agrees, fun _ => purgeExpired_purgeExpired _ _,
      fun unpurged => absurd unpurged (by simp [purges]), decidedOn_purged state reading, .inl rfl⟩
  have unpurged (agrees : prepared.Agrees state (evaluatePurged state.store reading.now command))
      (unpurged : command.unpurged = true) :
      ∃ decided nowMs, state.DecidedAlike reading command prepared decided nowMs :=
    ⟨_, _, agrees, fun purges => absurd unpurged (by simp [purges]), fun _ => rfl,
      decidedOn_self state reading, .inl rfl⟩
  cases command <;> simp only [prepareCommand, Option.some.injEq, reduceCtorEq] at found
  all_goals subst found
  case delete => cases alike
  case restore => cases alike
  case ping => exact unpurged ⟨rfl, rfl, rfl⟩ rfl
  case mSet entries =>
    have counted (key : Key) : ((∅ : Std.ExtTreeMap Key Nat compare)[key]?).getD
        (nextValueVersion (state.store.get key)) = nextValueVersion (state.store.get key) := by simp
    exact unpurged ⟨rfl, msetOperations_eq counted entries, rfl⟩ rfl
  case clear =>
    refine unpurged ?_ rfl
    simp only [evaluatePurged, clear]
    cases state.store.isEmpty <;> exact ⟨rfl, rfl, rfl⟩
  case renameNx => exact renameNx_alike _ _ _
  case rename => exact once (rename_agrees _ _ fun same => absurd same alike) rfl
  case getDel => exact once (getDel_agrees _ _ _) rfl
  case getEx => exact once (getEx_agrees _ _ _ _ _) rfl
  case set => exact once (setWithOptions_agrees _ _ _ _ _) rfl
  case setNx => exact once (setNx_agrees _ _ _ _) rfl
  case incr => exact once (add_agrees _ _ _ _) rfl
  case decr => exact once (add_agrees _ _ _ _) rfl
  case expire => exact once (expire_agrees _ _ _ _) rfl
  case persist => exact once (persist_agrees _ _ _) rfl
  case scan | list =>
    have purged := purgeExpired_purgeExpired state.store reading.now
    refine ⟨_, _, ⟨rfl, rfl, ?_⟩, fun _ => purged, by rintro ⟨⟩, ⟨rfl, .inr (.inl rfl)⟩, .inl rfl⟩
    simp only [evaluatePurged, Prepared.state, purged]
    rfl
  all_goals exact once ⟨rfl, rfl, rfl⟩ rfl

/-- Every key named, a version counted on from the key itself, or a whole backup. -/
inductive Apart [Codec] (store : EngineStore) (nowMs : Nat) : Command → List WalOperation → Prop
  | delete (keys : List Key) : Apart store nowMs (.delete keys) (keys.map .delete)
  | rename {key : Key} {entry : StoredValue} (present : store.get key = some entry) :
    Apart store nowMs (.rename key key) (.delete key ::
      .set key entry.value (nextValueVersion (some entry)) ::
        entry.expiresAtMs.toList.map (.expire key))
  | restore {dump : String} {backup : LogicalBackup} {operations : List WalOperation}
    {restored : Nat} (parsed : Codec.parseLogicalBackup dump = .ok backup)
    (read : restoreOperations nowMs backup.entries = .ok (operations, restored)) :
    Apart store nowMs (.restore dump) (.clear :: operations)

variable {operations : List WalOperation}

theorem prepareCommand_apart [Codec] (unlike : ¬ command.Alike)
    (found : state.prepareCommand reading command = some prepared)
    (logged : prepared.operations = some operations) :
    Apart prepared.state.store reading.now command operations := by
  cases command
  case delete keys =>
    simp only [prepareCommand, deleteMany, Option.some.injEq] at found
    split at found <;> cases found <;> cases logged
    exact .delete _
  case rename source destination =>
    obtain rfl := not_not.mp unlike
    simp only [prepareCommand, rename, Option.some.injEq] at found
    cases present : (state.purgeExpired reading.now).store.get source with
    | none =>
      rw [present] at found
      cases found
      cases logged
    | some entry =>
      rw [present] at found
      cases found
      cases logged
      obtain ⟨value, expiresAtMs, version⟩ := entry
      cases expiresAtMs <;> exact .rename present
  case restore dump =>
    simp only [prepareCommand, restoreLogicalBackup, Option.some.injEq] at found
    cases parsed : Codec.parseLogicalBackup dump with
    | error err => rw [parsed] at found; cases found; cases logged
    | ok backup =>
      simp only [parsed] at found
      cases read : restoreOperations reading.now backup.entries with
      | error err => rw [read] at found; cases found; cases logged
      | ok outcome =>
        rw [read] at found
        cases found
        cases logged
        exact .restore parsed read
  all_goals exact absurd trivial unlike

/-- **What a direct command logs** is what evaluating it logs, or one of the exceptions. -/
theorem prepareCommand_logs [Codec] (found : state.prepareCommand reading command = some prepared)
    (logged : prepared.operations = some operations) :
    (∃ nowMs, (command.unpurged = false →
          prepared.state.store.purgeExpired nowMs = prepared.state.store) ∧
        operations = (evaluatePurged prepared.state.store nowMs command).operations) ∨
      Apart prepared.state.store reading.now command operations := by
  by_cases alike : command.Alike
  · obtain ⟨decided, nowMs, agrees, purged, -⟩ := prepareCommand_alike state alike found
    rw [agrees.state]
    exact .inl ⟨nowMs, purged, agrees.logged logged⟩
  · exact .inr (prepareCommand_apart state alike found logged)

theorem deletes_anchored (live : EngineStore) (keys : List Key) :
    Anchored live (keys.map WalOperation.delete) := by
  induction keys generalizing live with
  | nil => trivial
  | cons key rest ih => exact ih _

theorem restoreOperations_anchored {entries : List LogicalBackupEntry} {restored : Nat}
    (parsed : restoreOperations nowMs entries = .ok (operations, restored))
    (live : EngineStore) : Anchored live operations := by
  induction entries generalizing live operations restored with
  | nil =>
    obtain ⟨rfl, -⟩ := by simpa [restoreOperations] using parsed
    trivial
  | cons entry rest ih =>
    unfold restoreOperations at parsed
    split at parsed
    · exact ih parsed live
    · cases decoded : entry.value with
      | none => simp [decoded] at parsed
      | some value =>
        cases following : restoreOperations nowMs rest with
        | error err => simp [decoded, following] at parsed
        | ok result =>
          obtain ⟨later, count⟩ := result
          simp only [decoded, following, Except.ok.injEq, Prod.mk.injEq] at parsed
          obtain ⟨rfl, -⟩ := parsed
          cases entry.expiresAtMs with
          | none => exact ih following _
          | some expiresAtMs => exact ⟨by simp, ih following _⟩

theorem prepareCommand_anchors [Codec] (plain : command.counterKey = none)
    (found : state.prepareCommand reading command = some prepared) : prepared.Anchors := by
  intro operations logged
  rcases prepareCommand_logs state found logged with ⟨nowMs, purged, rfl⟩ | apart
  · rcases evaluatePurged_reproduces command purged with reproduces | ⟨key, delta, counter, -⟩
    · exact reproduces.anchored
    · cases plain.symm.trans counter
  · cases apart with
    | delete keys => exact deletes_anchored _ _
    | @rename key entry present =>
      obtain ⟨value, expiresAtMs, version⟩ := entry
      cases expiresAtMs with
      | none => trivial
      | some expiresAtMs => exact ⟨by simp, trivial⟩
    | restore parsed read => exact restoreOperations_anchored _ read _

theorem prepareCommand_decidedOn [Codec]
    (found : state.prepareCommand reading command = some prepared) :
    state.DecidedOn reading prepared.state := by
  by_cases alike : command.Alike
  · obtain ⟨decided, nowMs, agrees, -, -, on, -⟩ := prepareCommand_alike state alike found
    exact agrees.state ▸ on
  · cases command <;> simp only [prepareCommand, Option.some.injEq, reduceCtorEq] at found
    all_goals subst found
    case delete =>
      unfold deleteMany
      dsimp only
      split <;> exact decidedOn_purged state reading
    case rename =>
      unfold rename
      dsimp only
      split <;> exact decidedOn_purged state reading
    case restore =>
      unfold restoreLogicalBackup
      split
      · exact decidedOn_self state reading
      · split <;> exact decidedOn_self state reading
    all_goals exact absurd trivial alike

theorem add_state (delta : Int) :
    (state.add nowMs key delta).state = state.purgeExpired nowMs :=
  (render_state _ _).symm.trans (add_agrees state nowMs key delta).state

theorem add_applies (delta : Int) :
    (state.add nowMs key delta).operations = none ∨
      (state.add nowMs key delta).operations = some [.checkInteger key delta] ∧
        ∃ store, applyOperations (state.store.purgeExpired nowMs) [.checkInteger key delta] =
          .ok store := by
  unfold add parseIntegerValue
  simp only [purgeExpired_store, getValue, applyOperations_cons, applyOperation]
  cases parseI64
      ((Option.map StoredValue.value ((state.store.purgeExpired nowMs).get key)).getD zeroText) with
  | none => exact .inl rfl
  | some number =>
    dsimp only
    cases checkedAdd number delta with
    | none => exact .inl rfl
    | some next => exact .inr ⟨rfl, _, rfl⟩

end EngineState

end Vaylix
