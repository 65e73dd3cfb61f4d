import Mathlib.Data.Set.Defs
import Vaylix.Engine.Confinement
import Vaylix.Engine.LogGrowth
import Vaylix.Server.TransactionSession

/-!
# Maintenance mode

While maintenance mode is on, `process_command` admits the commands of a list of names.
`GETEX` is on the list although it writes when it carries an expiration or `PERSIST`;
everything else that is admitted leaves the live keys and the log alone.
-/

namespace Vaylix

open EngineStore

/-- A `GETEX` with an expiration or with `PERSIST`. -/
def Command.altersExpiration : Command → Bool
  | .getEx _ expiration persists => expiration.isSome || persists
  | _ => false

theorem Command.reads_of_admitted {command : Command}
    (admitted : command.isAllowedDuringMaintenance = true)
    (plain : command.altersExpiration = false) (stays : command ≠ .maintenanceOff) :
    command.isWriteCommand = false := by
  cases command <;> first | rfl | exact plain | exact absurd rfl stays | cases admitted

/-- Keys are lost by expiration only, and the log is the same. -/
structure Engine.Unwritten (nowMs : Nat) (before after : Engine) : Prop where
  keys : ∀ key, Kept nowMs key before.state.store after.state.store
  log : after.walEntries = before.walEntries
  disk : after.disk.walDir = before.disk.walDir

namespace Engine.Unwritten

theorem refl (nowMs : Nat) (engine : Engine) : Unwritten nowMs engine engine :=
  ⟨fun _ => .refl _, rfl, rfl⟩

theorem sweepExpired (nowMs : Nat) (engine : Engine) :
    Unwritten nowMs engine (engine.sweepExpired nowMs) :=
  ⟨fun _ => .purgeExpired _, rfl, rfl⟩

theorem execute [Codec] (engine : Engine) (term : Nat) (reading : Reading) {command : Command}
    (reads : command.isWriteCommand = false) :
    Unwritten reading.now engine (engine.execute term reading command).1 := by
  obtain ⟨state, purged, left⟩ := engine.execute_of_read term reading reads
  rw [left]
  refine ⟨fun key => ?_, rfl, rfl⟩
  rcases purged with same | swept
  · exact .inl (by rw [same])
  · rw [swept]
    exact .purgeExpired _

end Engine.Unwritten

namespace Server

variable [Codec] (server : Server) (runtime : ServerRuntime) (around : Surroundings)
  (session : SessionState)

omit [Codec] in
theorem handleAuth_server (username : String) :
    (handleAuth runtime around server session username).server = server := by
  unfold handleAuth
  split
  · split <;> rfl
  · rfl

omit [Codec] in
theorem enqueue_server (command : Command) :
    (server.enqueue runtime session command).server = server := by
  unfold enqueue
  split
  · rfl
  split
  · rfl
  · split
    · rfl
    · split <;> rfl

variable {command : Command}

/-- Inside a transaction only `EXEC` touches what is shared, and maintenance refuses it. -/
theorem handleTransactionCommand_server (admitted : command.isAllowedDuringMaintenance = true) :
    (server.handleTransactionCommand runtime around session command).server = server := by
  unfold handleTransactionCommand
  split
  · rfl
  · split
    · rfl
    · split
      · rfl
      · rfl
      · cases admitted
      · rfl
      · exact server.enqueue_server runtime _ _

theorem processRead_unwritten (reads : command.isWriteCommand = false) :
    Engine.Unwritten around.reading.now server.engine
      (server.processRead around command).1.engine := by
  unfold processRead
  split
  · exact .refl _ _
  · split
    · exact .sweepExpired _ _
    · exact .execute _ _ _ reads

theorem dispatch_unwritten (admitted : command.isAllowedDuringMaintenance = true)
    (plain : command.altersExpiration = false) :
    Engine.Unwritten around.reading.now server.engine
      (server.dispatch runtime around command).1.engine := by
  by_cases leaves : command = .maintenanceOff
  · subst leaves
    unfold dispatch setMaintenance
    dsimp only
    split <;> exact .refl _ _
  · have reads := Command.reads_of_admitted admitted plain leaves
    have answered := server.processRead_unwritten around reads
    unfold dispatch
    split
    all_goals first
      | exact .refl _ _
      | exact .sweepExpired _ _
      | exact absurd rfl leaves
      | rwa [if_neg (Bool.eq_false_iff.mp reads)]
      | cases admitted

/-- A command in maintenance mode writes nothing, but for the admitted writes. -/
theorem processCommand_unwritten (enabled : server.maintenance = true)
    (plain : session.transactionQueue = [] → command.altersExpiration = false) :
    Engine.Unwritten around.reading.now server.engine
      (server.processCommand runtime around session command).server.engine := by
  unfold processCommand
  split
  · rw [server.handleAuth_server]
    exact .refl _ _
  split
  · exact .refl _ _
  obtain live | ⟨err, late⟩ := session.expireTransactionIfNeeded_cases runtime around.arrivedMs
  · rw [live]
    dsimp only
    split
    · exact .refl _ _
    rename_i unrefused
    have admitted : command.isAllowedDuringMaintenance = true := by
      simpa [enabled] using unrefused
    split
    · exact .refl _ _
    split
    · rw [server.handleTransactionCommand_server runtime around session admitted]
      exact .refl _ _
    · rename_i outside
      have quiet := plain (by simpa [SessionState.inTransaction] using outside)
      unfold handlePlainCommand
      split
      · exact .refl _ _
      · split
        · exact .refl _ _
        · exact .refl _ _
        · exact .refl _ _
        · exact server.dispatch_unwritten runtime around admitted quiet
  · rw [late]
    exact .refl _ _

end Server

/-- One command of one of the sessions of a server. -/
structure Turn where
  session : SessionState
  around : Surroundings
  command : Command

namespace Server

variable [Codec]

def take (server : Server) (runtime : ServerRuntime) (turn : Turn) : Server :=
  (server.processCommand runtime turn.around turn.session turn.command).server

/-- Every command that is processed in maintenance mode writes nothing. -/
def UnwrittenRun (runtime : ServerRuntime) : Server → List Turn → Prop
  | _, [] => True
  | server, turn :: rest =>
    (server.maintenance = true → Engine.Unwritten turn.around.reading.now server.engine
      (server.take runtime turn).engine) ∧ UnwrittenRun runtime (server.take runtime turn) rest

theorem unwrittenRun_of_plain (runtime : ServerRuntime) (server : Server) {turns : List Turn}
    (plain : ∀ turn ∈ turns, turn.command.altersExpiration = false) :
    server.UnwrittenRun runtime turns := by
  induction turns generalizing server with
  | nil => trivial
  | cons turn rest ih =>
    exact ⟨fun enabled => server.processCommand_unwritten runtime turn.around turn.session enabled
        fun _ => plain turn List.mem_cons_self,
      ih _ (List.forall_mem_cons.mp plain).2⟩

theorem executeWrite_engine (server : Server) (runtime : ServerRuntime) {around : Surroundings}
    (committed : around.driven = none) (command : Command) :
    (server.executeWrite runtime around command).1.engine =
      (server.engine.execute around.currentTerm around.reading command).1 := by
  unfold executeWrite settleWrite
  rcases server.engine.execute around.currentTerm around.reading command with ⟨engine, err | result⟩
  · rfl
  · rw [committed]
    dsimp only
    split <;> rfl

theorem take_altersExpiration (server : Server) (nowMs : Nat) {command : Command}
    (alters : command.altersExpiration = true) :
    (server.take Sample.runtime ⟨.new, Sample.calm nowMs, command⟩).engine =
      (server.engine.execute 0 (.still nowMs) command).1 := by
  cases command with
  | getEx key expiration persists =>
    have writes : (Command.getEx key expiration persists).isWriteCommand = true := alters
    refine Eq.trans ?_ (server.executeWrite_engine Sample.runtime
      (rfl : (Sample.calm nowMs).driven = none) (.getEx key expiration persists))
    simp [take, processCommand, handlePlainCommand, dispatch, processWrite, Processed.responded,
      SessionState.expireTransactionIfNeeded, SessionState.authorize, SessionState.inTransaction,
      SessionState.new, Standing.enforceLeaderWriteability, ReplicationRole.acceptsWrites,
      Command.isAllowedDuringMaintenance, Sample.runtime, Sample.calm, writes]
  | _ => cases alters

end Server

namespace Engine

variable [Codec] (engine : Engine)

theorem execute_logs (term : Nat) (reading : Reading) {command : Command}
    {result : TransactionResult} (batchable : command.isBatchableEngineWrite = true)
    (answered : (evaluateTransactionCommand (engine.state.store.purgeExpired reading.now)
      reading.now command).outcome = .ok result)
    (written : (evaluateTransactionCommand (engine.state.store.purgeExpired reading.now)
      reading.now command).operations ≠ []) :
    ∃ entry, (engine.execute term reading command).1.walEntries = engine.walEntries ++ [entry] := by
  have logged := List.isEmpty_eq_false_iff.mpr written
  simp only [execute, batchable, if_true, processWriteBatch, executeCommandBatch, evaluateBatch,
    setConsensusTerm, EngineState.purgeExpired_store, answered, logged, Bool.not_false,
    List.getLast?_singleton]
  exact ⟨_, rfl⟩

end Engine

theorem evaluateGetEx_alters {store : EngineStore} {key : Key} {entry : StoredValue} (nowMs : Nat)
    (found : store.get key = some entry) (expires : entry.expiresAtMs.isSome = true)
    {expiration : Option Expiration} {persists : Bool}
    (alters : (expiration.isSome || persists) = true) :
    (evaluateGetEx store nowMs key expiration persists).outcome = .ok (.value entry.value) ∧
      (evaluateGetEx store nowMs key expiration persists).operations ≠ [] := by
  unfold evaluateGetEx
  rw [found]
  cases expiration with
  | none =>
    obtain rfl : persists = true := by simpa using alters
    simp [expires]
  | some expiration =>
    refine ⟨rfl, ?_⟩
    dsimp only [evaluateExpiration]
    split <;> exact List.cons_ne_nil _ _

def Server.maintained (key : Key) : Server where
  engine := { Engine.create ⟨4096, 2⟩ 0 with
    state := { EngineState.new 0 with store := EngineStore.new.insertEntry key ⟨[49], some 1, 1⟩ } }
  readIndex := .new
  maintenance := true

theorem Server.maintained_written [Codec] {command : Command}
    (alters : command.altersExpiration = true) :
    ∃ key, ¬ Engine.Unwritten 0 (maintained key).engine
      ((maintained key).take Sample.runtime ⟨.new, Sample.calm 0, command⟩).engine := by
  cases command with
  | getEx key expiration persists =>
    have present : (((maintained key).engine.state.store.purgeExpired 0).purgeExpired 0).get key =
        some ⟨[49], some 1, 1⟩ := by
      simp [maintained, StoredValue.expiredAt]
    obtain ⟨answered, written⟩ := evaluateGetEx_alters 0 present rfl alters
    have batchable : (Command.getEx key expiration persists).isBatchableEngineWrite = true := alters
    obtain ⟨entry, longer⟩ := (maintained key).engine.execute_logs 0 (.still 0) batchable answered
      written
    refine ⟨key, fun unwritten => ?_⟩
    have same := unwritten.log
    rw [take_altersExpiration _ 0 alters, longer] at same
    simp at same
  | _ => cases alters

/-- **Maintenance mode is read-only** for a set of commands exactly when it has no `GETEX` with an
expiration or with `PERSIST`. -/
theorem maintenance_read_only_iff [Codec] (commands : Set Command) :
    (∀ (runtime : ServerRuntime) (server : Server) (turns : List Turn),
        (∀ turn ∈ turns, turn.command ∈ commands) → server.UnwrittenRun runtime turns) ↔
      ∀ command ∈ commands, command.altersExpiration = false := by
  constructor
  · intro unwritten command member
    by_contra alters
    obtain ⟨key, written⟩ := Server.maintained_written (Bool.not_eq_false _ ▸ alters)
    have run := unwritten Sample.runtime (.maintained key) [⟨.new, Sample.calm 0, command⟩]
      (List.forall_mem_singleton.mpr member)
    exact written (run.1 rfl)
  · intro plain runtime server turns listed
    exact server.unwrittenRun_of_plain runtime fun turn member => plain _ (listed turn member)

open Sample in
/-- `GETEX k EX 60` passes the maintenance check, moves the expiration and appends an entry. -/
theorem getEx_written_in_maintenance :
    let command : Command := .getEx "k" (some (.seconds 60)) false
    let server := Server.maintained "k"
    let processed := server.processCommand runtime (calm 0) .new command
    server.maintenance = true ∧ command.isAllowedDuringMaintenance = true ∧
      processed.reply = .ok (.data (.value [49])) ∧
      server.engine.state.store.get "k" = some ⟨[49], some 1, 1⟩ ∧
      processed.server.engine.state.store.get "k" = some ⟨[49], some 60000, 1⟩ ∧
      server.engine.walEntries = [] ∧
      processed.server.engine.walEntries = [⟨1, 0, 0, [.expire "k" 60000]⟩] := by
  decide +kernel

end Vaylix
