import Vaylix.Engine.LogGrowth
import Vaylix.Server.Session

/-!
# The transactions of a session

Between the commands of a session the shared state may change in any way. An `EXEC` that gets
as far as the engine runs there the commands answered with `QUEUED` since the `MULTI` that
opened its transaction.
-/

namespace Vaylix

/-- A command, what it met and handed over, its answer, and the engine before and after. -/
structure Exchange where
  command : Command
  around : Surroundings
  reply : Except ServerError Reply
  handed : Option (List Command)
  found : Engine
  left : Engine

namespace Exchange

variable (exchange : Exchange)

def Succeeds : Prop := ∃ reply, exchange.reply = .ok reply

def Opens : Prop := exchange.command = .multi ∧ exchange.Succeeds

/-- A `DISCARD` answered with success, a timeout, or an `EXEC` that reached the engine. -/
def Closes : Prop :=
  (exchange.command = .discard ∧ exchange.Succeeds) ∨
    (∃ seconds, exchange.reply = .error (.transactionExpired seconds)) ∨
    ∃ batch, exchange.handed = some batch

/-- The command, if it was answered with `QUEUED`. -/
def queued? : Option Command :=
  match exchange.reply with
  | .ok reply => if reply = .queued then some exchange.command else none
  | .error _ => none

/-- Nothing was handed to the engine, and an `EXEC` was refused before it got there. -/
def Withheld : Prop :=
  exchange.handed = none ∧
    (exchange.command = .exec → ¬ exchange.Succeeds ∧ exchange.left = exchange.found)

/-- The batch was handed over and is what the engine ran. Its error is the answer. Otherwise its
results are, unless it was given up, and then rolled back if possible, or could not be indexed. -/
def Runs [Codec] (runtime : ServerRuntime) (exchange : Exchange) (batch : List Command) : Prop :=
  exchange.handed = some batch ∧
    match exchange.found.executeBatch exchange.around.currentTerm exchange.around.reading
      batch with
    | (engine, .error err) => exchange.left = engine ∧ exchange.reply = .error err
    | (engine, .ok results) =>
      (exchange.left = engine ∧ exchange.reply = .ok (.results results)) ∨
        (∃ err, exchange.reply = .error err) ∧ (exchange.left = engine ∨
          ∃ replication, rollbackUncommittedTail runtime.replication exchange.around.atRollback
            engine exchange.around.rollbackMs = .ok (replication, exchange.left))

theorem Runs.results [Codec] {runtime : ServerRuntime} {exchange : Exchange}
    {batch : List Command} (ran : exchange.Runs runtime batch) (success : exchange.Succeeds) :
    ∃ results, exchange.found.executeBatch exchange.around.currentTerm exchange.around.reading
      batch = (exchange.left, .ok results) ∧ exchange.reply = .ok (.results results) := by
  obtain ⟨reply, answered⟩ := success
  obtain ⟨-, outcome⟩ := ran
  split at outcome
  · rw [answered] at outcome
    cases outcome.2
  · rename_i engine results executed
    obtain ⟨kept, shown⟩ | ⟨⟨err, failed⟩, -⟩ := outcome
    · exact ⟨results, by rw [executed, kept], shown⟩
    · rw [answered] at failed
      cases failed

end Exchange

/-- What the session shows of a command that was processed on this server. -/
def Processed.exchange (processed : Processed) (server : Server) (around : Surroundings)
    (command : Command) : Exchange :=
  ⟨command, around, processed.reply, processed.handed, server.engine, processed.server.engine⟩

/-- What an exchange may do to the queue of its session. -/
inductive QueueStep [Codec] (runtime : ServerRuntime) (exchange : Exchange) :
    List Command → List Command → Prop where
  | idle {queue : List Command} (withheld : exchange.Withheld) (outside : ¬ exchange.Opens)
      (inside : queue ≠ [] → ¬ exchange.Closes ∧ exchange.queued? = none) :
      QueueStep runtime exchange queue queue
  | opened (withheld : exchange.Withheld) (opens : exchange.Opens) :
      QueueStep runtime exchange [] [.multi]
  | joined {queue : List Command} (withheld : exchange.Withheld) (active : queue ≠ [])
      (answered : exchange.queued? = some exchange.command)
      (inside : ¬ exchange.Opens ∧ ¬ exchange.Closes) :
      QueueStep runtime exchange queue (queue ++ [exchange.command])
  | emptied {queue : List Command} (withheld : exchange.Withheld) :
      QueueStep runtime exchange queue []
  | executed {queue : List Command} (active : queue ≠ []) (sent : exchange.command = .exec)
      (ran : exchange.Runs runtime
        (if queue.head? = some .multi then queue.tail else queue)) :
      QueueStep runtime exchange queue []

namespace QueueStep

variable {runtime : ServerRuntime} {server : Server} {around : Surroundings}
  {session : SessionState} {command : Command} {queue : List Command}

theorem withheld_refused (err : ServerError) :
    ((Processed.refused server session err).exchange server around command).Withheld :=
  ⟨rfl, fun _ => ⟨fun ⟨_, success⟩ => (nomatch success), rfl⟩⟩

theorem refused [Codec] {err : ServerError}
    (live : ∀ seconds, err ≠ .transactionExpired seconds) :
    QueueStep runtime ((Processed.refused server session err).exchange server around command)
      queue queue := by
  refine .idle (withheld_refused err) (fun ⟨_, _, success⟩ => nomatch success) fun _ => ⟨?_, rfl⟩
  rintro (⟨-, _, success⟩ | ⟨seconds, expired⟩ | ⟨_, handed⟩)
  · cases success
  · exact live seconds (Except.error.inj expired)
  · cases handed

end QueueStep

namespace SessionState

variable (session : SessionState) (runtime : ServerRuntime)

theorem expireTransactionIfNeeded_cases (nowMs : Nat) :
    session.expireTransactionIfNeeded runtime nowMs = (session, none) ∨
      ∃ err, session.expireTransactionIfNeeded runtime nowMs =
        (session.clearTransaction, some err) := by
  unfold expireTransactionIfNeeded
  cases session.transactionStartedAtMs with
  | none => exact .inl rfl
  | some startedAtMs =>
    dsimp only
    split
    · exact .inl rfl
    · exact .inr ⟨_, rfl⟩

theorem queuedCommands_eq :
    session.queuedCommands = if session.transactionQueue.head? = some .multi
      then session.transactionQueue.tail else session.transactionQueue := by
  unfold queuedCommands
  split
  · rename_i rest marked
    rw [marked, List.head?_cons, if_pos rfl, List.tail_cons]
  · rename_i unmarked
    rw [if_neg fun marked => ?_]
    obtain ⟨rest, split⟩ := List.head?_eq_some_iff.mp marked
    exact unmarked rest split

end SessionState

/-- A check that never reports a timeout. -/
def Timely (check : Except ServerError Unit) : Prop :=
  ∀ seconds, check ≠ .error (.transactionExpired seconds)

namespace Timely

theorem ok : Timely (.ok ()) := fun _ failed => nomatch failed

theorem ite {exceeded : Prop} [Decidable exceeded] {refusal passed : Except ServerError Unit}
    (first : Timely refusal) (second : Timely passed) :
    Timely (if exceeded then refusal else passed) := by
  split_ifs
  · exact first
  · exact second

theorem bind {first second : Except ServerError Unit} (head : Timely first)
    (rest : Timely second) : Timely (first >>= fun _ => second) := by
  cases first with
  | error found => exact head
  | ok _ => exact rest

theorem forM {α : Type} {check : α → Except ServerError Unit} (each : ∀ item, Timely (check item))
    (items : List α) : Timely (items.forM check) := by
  induction items with
  | nil => exact ok
  | cons item rest ih => exact bind (each item) ih

theorem authorizeCommand (command : Command) (session : SessionState) :
    Timely (authorizeCommand command session) := by
  have denied : Timely (.error .permissionDenied) := fun _ failed => nomatch failed
  unfold Vaylix.authorizeCommand
  cases command.permission with
  | none => exact ok
  | some permission =>
    cases session.identity with
    | none => exact fun _ failed => nomatch failed
    | some identity =>
      refine ite ?_ (ite ok denied)
      cases command.pattern with
      | none => exact ite ok denied
      | some pattern => exact ite ok denied

theorem authorize (session : SessionState) (runtime : ServerRuntime) (command : Command) :
    Timely (session.authorize runtime command) :=
  ite (authorizeCommand command session) ok

theorem enforceLeaderWriteability (standing : Standing) (command : Command) :
    Timely (standing.enforceLeaderWriteability command) :=
  ite ok (ite (fun _ failed => nomatch failed) (ite (fun _ failed => nomatch failed) ok))

theorem validateCommand (guards : ServerGuards) (command : Command) :
    Timely (guards.validateCommand command) := by
  have quota : Timely (.error .quotaExceeded) := fun _ failed => nomatch failed
  have key (text : String) : Timely (guards.validateKey text) := ite quota ok
  have value (text : String) : Timely (guards.validateValue text) := ite quota ok
  have bytes (value : Bytes) : Timely (guards.validateValueBytes value) := ite quota ok
  have count (length : Nat) : Timely (guards.validateKeyCount length) := ite quota ok
  have stored (entry : Key × Bytes) : Timely (do
      guards.validateKey entry.1
      guards.validateValueBytes entry.2) := bind (key _) (bytes _)
  unfold ServerGuards.validateCommand
  split
  all_goals first
    | exact ok
    | exact key _
    | exact value _
    | exact bind (key _) (key _)
    | exact bind (key _) (value _)
    | exact bind (key _) (bytes _)
    | exact bind (key _) (bind (key _) (key _))
    | exact bind (count _) (forM key _)
    | exact bind (count _) (forM stored _)

end Timely

theorem Server.settleWrite_engine [Codec] (server : Server) (runtime : ServerRuntime)
    (around : Surroundings) (sequence : Nat) (reply : Reply) :
    match server.settleWrite runtime around sequence reply with
    | (next, outcome) => (next.engine = server.engine ∧ outcome = .ok reply) ∨
      (∃ err, outcome = .error err) ∧ (next.engine = server.engine ∨
        ∃ replication, rollbackUncommittedTail runtime.replication around.atRollback
          server.engine around.rollbackMs = .ok (replication, next.engine)) := by
  unfold Server.settleWrite
  cases around.driven with
  | some err =>
    dsimp only
    split
    · exact .inr ⟨⟨_, rfl⟩, .inl rfl⟩
    · rename_i replication engine cut
      exact .inr ⟨⟨_, rfl⟩, .inr ⟨replication, cut⟩⟩
  | none =>
    dsimp only
    split
    · exact .inr ⟨⟨_, rfl⟩, .inl rfl⟩
    · exact .inl ⟨rfl, rfl⟩

namespace QueueStep

variable [Codec] {runtime : ServerRuntime} {server : Server} {around : Surroundings}
  {session : SessionState} {command : Command} {queue : List Command}

theorem unchecked {check : Except ServerError Unit} {err : ServerError} (timely : Timely check)
    (failed : check = .error err) :
    QueueStep runtime ((Processed.refused server session err).exchange server around command)
      queue queue :=
  refused fun seconds expired => timely seconds (failed.trans (congrArg _ expired))

theorem expired (err : ServerError) :
    QueueStep runtime
      ((Processed.refused server session.clearTransaction err).exchange server around command)
      queue (Processed.refused server session.clearTransaction err).session.transactionQueue :=
  .emptied (withheld_refused err)

abbrev Handles (runtime : ServerRuntime) (server : Server) (around : Surroundings)
    (session : SessionState) (command : Command) (processed : Processed) : Prop :=
  QueueStep runtime (processed.exchange server around command) session.transactionQueue
    processed.session.transactionQueue

variable (server session command runtime around)

theorem handleAuth (username password : String) :
    Handles runtime server around session (.auth username password)
      (handleAuth runtime around server session username) := by
  have accepted (identity : Identity) : QueueStep runtime
      ((Processed.answered server { session with identity := some identity } (.data .ok)).exchange
        server around (.auth username password))
      session.transactionQueue session.transactionQueue := by
    refine .idle ⟨rfl, fun sent => nomatch sent⟩ (fun ⟨sent, _⟩ => nomatch sent)
      fun _ => ⟨?_, rfl⟩
    rintro (⟨sent, -⟩ | ⟨_, expired⟩ | ⟨_, handed⟩)
    · cases sent
    · cases expired
    · cases handed
  unfold Vaylix.handleAuth
  split
  · cases around.authentication with
    | locked remainingSeconds => exact refused fun _ expired => nomatch expired
    | unreadable => exact refused fun _ expired => nomatch expired
    | rejected => exact refused fun _ expired => nomatch expired
    | verified identity => exact accepted identity
  · exact accepted .anonymous

theorem enqueue (active : session.transactionQueue ≠ [])
    (waiting : command ≠ .multi ∧ command ≠ .exec ∧ command ≠ .discard) :
    Handles runtime server around session command
      (server.enqueue runtime session command) := by
  unfold Server.enqueue
  split
  · exact refused fun _ expired => nomatch expired
  cases valid : runtime.guards.validateCommand command with
  | error err => exact unchecked (.validateCommand _ _) valid
  | ok _ =>
    dsimp only
    split
    · exact refused fun _ expired => nomatch expired
    cases allowed : session.authorize runtime command with
    | error err => exact unchecked (.authorize _ _ _) allowed
    | ok _ =>
      refine .joined ⟨rfl, fun sent => absurd sent waiting.2.1⟩ active (if_pos rfl)
        ⟨fun ⟨sent, _⟩ => waiting.1 sent, ?_⟩
      rintro (⟨sent, -⟩ | ⟨_, expired⟩ | ⟨_, handed⟩)
      · exact waiting.2.2 sent
      · cases expired
      · cases handed

theorem execTransaction (active : session.transactionQueue ≠ []) :
    Handles runtime server around session .exec
      (server.execTransaction runtime around session) := by
  unfold Server.execTransaction
  cases writable : around.underLock.enforceLeaderWriteability .exec with
  | error err => exact unchecked (.enforceLeaderWriteability _ _) writable
  | ok _ =>
    dsimp only
    split
    · exact .emptied (withheld_refused _)
    have taken := session.queuedCommands_eq
    rcases executed : server.engine.executeBatch around.currentTerm around.reading
      session.queuedCommands with ⟨engine, err | results⟩
    · refine .executed active rfl ⟨congrArg some taken, ?_⟩
      rw [← taken]
      dsimp only [Processed.exchange]
      rw [executed]
      exact ⟨rfl, rfl⟩
    · refine .executed active rfl ⟨congrArg some taken, ?_⟩
      rw [← taken]
      dsimp only [Processed.exchange]
      rw [executed]
      exact Server.settleWrite_engine { server with engine := engine } runtime around
        engine.lastAppliedSequence (.results results)

theorem handleTransactionCommand (active : session.transactionQueue ≠ []) :
    Handles runtime server around session command
      (server.handleTransactionCommand runtime around session command) := by
  unfold Server.handleTransactionCommand
  obtain live | ⟨err, late⟩ := session.expireTransactionIfNeeded_cases runtime around.handledMs
  · rw [live]
    dsimp only
    split
    · exact refused fun _ expired => nomatch expired
    split
    · exact refused fun _ expired => nomatch expired
    · exact .emptied ⟨rfl, fun sent => nomatch sent⟩
    · exact execTransaction runtime server around session active
    · exact refused fun _ expired => nomatch expired
    · rename_i multi discard exec _
      exact enqueue runtime server around session command active ⟨multi, exec, discard⟩
  · rw [late]
    exact expired err

theorem handlePlainCommand (outside : session.transactionQueue = []) :
    Handles runtime server around session command
      (server.handlePlainCommand runtime around session command) := by
  unfold Server.handlePlainCommand
  cases allowed : session.authorize runtime command with
  | error err => exact unchecked (.authorize _ _ _) allowed
  | ok _ =>
    dsimp only
    split
    · rw [Handles, outside]
      exact .opened ⟨rfl, fun sent => nomatch sent⟩ ⟨rfl, _, rfl⟩
    · exact refused fun _ expired => nomatch expired
    · exact refused fun _ expired => nomatch expired
    · rename_i multi exec _
      exact .idle ⟨rfl, fun sent => absurd sent exec⟩ (fun ⟨sent, _⟩ => multi sent)
        (absurd outside)

theorem processCommand :
    Handles runtime server around session command
      (server.processCommand runtime around session command) := by
  unfold Server.processCommand
  split
  · exact handleAuth runtime server around session _ _
  split
  · exact refused fun _ expired => nomatch expired
  obtain live | ⟨err, late⟩ := session.expireTransactionIfNeeded_cases runtime around.arrivedMs
  · rw [live]
    dsimp only
    split
    · exact refused fun _ expired => nomatch expired
    cases writable : around.onArrival.enforceLeaderWriteability command with
    | error err => exact unchecked (.enforceLeaderWriteability _ _) writable
    | ok _ =>
      dsimp only
      split
      · rename_i inside
        exact handleTransactionCommand runtime server around session command
          (by simpa [SessionState.inTransaction] using inside)
      · rename_i outside
        exact handlePlainCommand runtime server around session command
          (by simpa [SessionState.inTransaction] using outside)
  · rw [late]
    exact expired err

end QueueStep

/-- A command together with what it meets when its turn comes. -/
structure Arrival where
  server : Server
  around : Surroundings
  command : Command

def SessionState.exchanges [Codec] (runtime : ServerRuntime) :
    SessionState → List Arrival → List Exchange
  | _, [] => []
  | session, ⟨server, around, command⟩ :: rest =>
    let processed := server.processCommand runtime around session command
    processed.exchange server around command ::
      SessionState.exchanges runtime processed.session rest

/-- A transaction was opened last, and since then these commands were answered with `QUEUED`. -/
def OpenSince (history : List Exchange) (commands : List Command) : Prop :=
  ∃ earlier opening since, history = earlier ++ opening :: since ∧ opening.Opens ∧
    (∀ exchange ∈ since, ¬ exchange.Opens ∧ ¬ exchange.Closes) ∧
    commands = since.filterMap Exchange.queued?

def Accounts (history : List Exchange) (queue : List Command) : Prop :=
  queue = [] ∨ ∃ commands, queue = .multi :: commands ∧ OpenSince history commands

theorem OpenSince.concat {history : List Exchange} {commands : List Command} {exchange : Exchange}
    (opened : OpenSince history commands) (inside : ¬ exchange.Opens ∧ ¬ exchange.Closes) :
    OpenSince (history ++ [exchange]) (commands ++ exchange.queued?.toList) := by
  obtain ⟨earlier, opening, since, rfl, opens, undisturbed, rfl⟩ := opened
  refine ⟨earlier, opening, since ++ [exchange], by simp, opens, ?_, ?_⟩
  · intro other member
    rcases List.mem_append.mp member with member | member
    · exact undisturbed other member
    · exact List.mem_singleton.mp member ▸ inside
  · cases answered : exchange.queued? <;> simp [answered]

/-- Each exchange is accounted for in the queue. -/
theorem Accounts.step [Codec] {runtime : ServerRuntime} {history : List Exchange}
    {queue next : List Command} {exchange : Exchange} (accounts : Accounts history queue)
    (step : QueueStep runtime exchange queue next) :
    Accounts (history ++ [exchange]) next := by
  cases step with
  | idle withheld outside inside =>
    obtain rfl | ⟨commands, rfl, opened⟩ := accounts
    · exact .inl rfl
    · obtain ⟨running, silent⟩ := inside (List.cons_ne_nil _ _)
      have longer := opened.concat ⟨outside, running⟩
      rw [silent, Option.toList_none, List.append_nil] at longer
      exact .inr ⟨commands, rfl, longer⟩
  | opened withheld opens =>
    exact .inr ⟨[], rfl, history, exchange, [], rfl, opens,
      fun _ member => absurd member List.not_mem_nil, rfl⟩
  | joined withheld active answered inside =>
    obtain rfl | ⟨commands, rfl, opened⟩ := accounts
    · exact absurd rfl active
    · have longer := opened.concat inside
      rw [answered] at longer
      exact .inr ⟨commands ++ [exchange.command], rfl, longer⟩
  | emptied withheld => exact .inl rfl
  | executed active sent ran => exact .inl rfl

/-- Every exchange of a session is a step of its queue. -/
theorem exchanges_step [Codec] (runtime : ServerRuntime) (arrivals : List Arrival)
    {session : SessionState} {history before after : List Exchange} {exchange : Exchange}
    (accounts : Accounts history session.transactionQueue)
    (served : session.exchanges runtime arrivals = before ++ exchange :: after) :
    ∃ queue next, Accounts (history ++ before) queue ∧
      QueueStep runtime exchange queue next := by
  induction arrivals generalizing session history before with
  | nil => exact absurd served.symm (List.append_ne_nil_of_right_ne_nil _ (List.cons_ne_nil _ _))
  | cons arrival rest ih =>
    have step := QueueStep.processCommand runtime arrival.server arrival.around session
      arrival.command
    cases before with
    | nil =>
      obtain ⟨rfl, -⟩ := List.cons.inj served
      exact ⟨_, _, by rwa [List.append_nil], step⟩
    | cons first before =>
      obtain ⟨rfl, later⟩ := List.cons.inj served
      have found := ih (accounts.step step) later
      rwa [List.append_assoc] at found

/-- **Transactions of a session.** Each `EXEC` answered with success is answered with what the
engine made of a queue handed to it, and leaves the engine as that run did. Whatever is handed
over is run there, and consists of the commands answered with `QUEUED` since the last `MULTI`
answered with success, in their order, with no `DISCARD`, timeout or other `EXEC` that reached the
engine between. Any other `EXEC` leaves the engine alone. -/
theorem exec_hands_over_queued [Codec] (runtime : ServerRuntime) (arrivals : List Arrival)
    {before after : List Exchange} {exchange : Exchange}
    (served : SessionState.new.exchanges runtime arrivals = before ++ exchange :: after) :
    (exchange.command = .exec ∧ exchange.Succeeds → ∃ batch results,
        exchange.handed = some batch ∧ exchange.reply = .ok (.results results) ∧
        exchange.found.executeBatch exchange.around.currentTerm exchange.around.reading batch =
          (exchange.left, .ok results)) ∧
      (∀ batch, exchange.handed = some batch →
        exchange.command = .exec ∧ OpenSince before batch ∧ exchange.Runs runtime batch) ∧
      (exchange.command = .exec → exchange.handed = none → exchange.left = exchange.found) := by
  obtain ⟨queue, next, accounts, step⟩ := exchanges_step runtime arrivals (.inl rfl) served
  rw [List.nil_append] at accounts
  cases step with
  | executed active sent ran =>
    refine ⟨fun ⟨_, success⟩ => ?_, fun batch found => ?_, fun _ withheld => ?_⟩
    · obtain ⟨results, executed, answered⟩ := ran.results success
      exact ⟨_, results, ran.1, answered, executed⟩
    · obtain rfl := Option.some.inj (ran.1.symm.trans found)
      refine ⟨sent, ?_, ran⟩
      obtain rfl | ⟨commands, rfl, opened⟩ := accounts
      · exact absurd rfl active
      · rwa [List.head?_cons, if_pos rfl]
    · rw [ran.1] at withheld
      cases withheld
  | idle withheld | opened withheld | joined withheld | emptied withheld =>
    refine ⟨fun ⟨sent, success⟩ => absurd success (withheld.2 sent).1, fun batch found => ?_,
      fun sent _ => (withheld.2 sent).2⟩
    rw [withheld.1] at found
    cases found

open Sample in
/-- One transaction is discarded, and the next writes one key. -/
theorem exec_hands_over_queued_set :
    let server : Server := ⟨.create ⟨4096, 2⟩ 0, .new, false⟩
    let served := SessionState.new.exchanges runtime
      [⟨server, calm 1, .multi⟩, ⟨server, calm 2, .set "a" [48] {}⟩, ⟨server, calm 3, .discard⟩,
        ⟨server, calm 4, .multi⟩, ⟨server, calm 5, .set "k" [49] {}⟩, ⟨server, calm 6, .exec⟩]
    served.map Exchange.reply = [.ok (.data .ok), .ok .queued, .ok (.data .ok),
        .ok (.data .ok), .ok .queued, .ok (.results [.ok])] ∧
      served.map (fun exchange => exchange.left.lastAppliedSequence) = [0, 0, 0, 0, 0, 1] ∧
      ∃ exchange, served = served.take 5 ++ [exchange] ∧
        OpenSince (served.take 5) [.set "k" [49] {}] ∧
        exchange.Runs runtime [.set "k" [49] {}] := by
  intro server served
  refine ⟨by decide +kernel, by decide +kernel, _, rfl, ?_⟩
  exact ((exec_hands_over_queued runtime _ (rfl : served = served.take 5 ++ _ :: [])).2.1 _
    (by decide +kernel)).2

/-- The failures that the values of keys cause. -/
def EngineError.isNumeric : EngineError → Bool
  | .invalidIntegerValue _ _ | .numericOverflow _ => true
  | _ => false

/-- The commands on members, which `validate_transaction_command` lets pass. -/
def Command.changesMembers : Command → Bool
  | .clusterJoin _ _ | .clusterRemove _ => true
  | _ => false

section Queues

variable {store : EngineStore} {nowMs : Nat} {err : EngineError}

theorem applyOperations_numeric {operations : List WalOperation}
    (failed : applyOperations store operations = .error err) : err.isNumeric = true := by
  induction operations generalizing store with
  | nil => cases failed
  | cons operation rest ih =>
    rw [applyOperations_cons] at failed
    cases first : applyOperation store operation with
    | ok next =>
      rw [first] at failed
      exact ih failed
    | error cause =>
      rw [first] at failed
      cases failed
      cases operation with
      | checkInteger key delta =>
        simp only [applyOperation] at first
        split at first
        · cases first
          rfl
        · split at first <;> cases first
          rfl
      | _ => cases first

theorem evaluateAdd_numeric {key : Key} {delta : Int}
    (failed : (evaluateAdd store key delta).outcome = .error err) : err.isNumeric = true := by
  unfold evaluateAdd parseIntegerValue at failed
  dsimp only at failed
  split at failed
  · rename_i unparsed
    split at unparsed <;> cases unparsed
    cases failed
    rfl
  · split at failed <;> cases failed
    rfl

/-- A command that a queue takes fails only on values, unless it is one on members. -/
theorem evaluatePurged_numeric {command : Command} (queued : command.refusedInTransaction = false)
    (plain : command.changesMembers = false)
    (failed : (evaluatePurged store nowMs command).outcome = .error err) :
    err.isNumeric = true := by
  cases command with
  | incr key | decr key => exact evaluateAdd_numeric failed
  | clusterJoin _ _ | clusterRemove _ => cases plain
  | set _ _ _ | setNx _ _ | getDel _ | getEx _ _ _ | expire _ _ | persist _ | rename _ _
  | renameNx _ _ | clear =>
    simp only [evaluatePurged, evaluateSet, evaluateSetNx, evaluateGetDel, evaluateGetEx,
      evaluateExpire, evaluatePersist, evaluateRename, Evaluated.answer] at failed
    repeat' split at failed
    all_goals cases failed
  | _ => first | cases failed; done | cases queued

theorem evaluateTransaction_numeric {commands : List Command}
    (taken : ∀ command ∈ commands,
      command.refusedInTransaction = false ∧ command.changesMembers = false)
    (failed : Engine.evaluateTransaction store nowMs commands = .error err) :
    err.isNumeric = true := by
  induction commands generalizing store with
  | nil => cases failed
  | cons command rest ih =>
    obtain ⟨⟨queued, plain⟩, later⟩ := List.forall_mem_cons.mp taken
    rw [Engine.evaluateTransaction] at failed
    split at failed
    · rename_i answered
      cases failed
      exact evaluatePurged_numeric queued plain answered
    · split at failed <;> cases failed
      rename_i following
      exact ih later following

theorem executeTransaction_numeric [Codec] (engine : Engine) (reading : Reading)
    {commands : List Command} (taken : ∀ command ∈ commands,
      command.refusedInTransaction = false ∧ command.changesMembers = false)
    (failed : (engine.executeTransaction reading commands).2 = .error err) :
    err.isNumeric = true := by
  unfold Engine.executeTransaction at failed
  dsimp only at failed
  split at failed
  · rename_i evaluated
    cases failed
    exact evaluateTransaction_numeric taken evaluated
  · split at failed
    · cases failed
    · split at failed <;> cases failed
      rename_i applied
      have cause := congrArg Prod.snd applied
      unfold Engine.appendAndApply at cause
      dsimp only at cause
      split at cause <;> cases cause
      rename_i entry
      exact applyOperations_numeric
        ((EngineState.applyEntry_error_iff _ _ _).mp (congrArg Prod.snd entry))

theorem not_refused_of_queued {server : Server} {runtime : ServerRuntime} {session : SessionState}
    {command : Command} (reply : (server.enqueue runtime session command).reply = .ok .queued) :
    command.refusedInTransaction = false := by
  unfold Server.enqueue at reply
  split at reply
  · cases reply
  split at reply
  · cases reply
  split at reply
  · cases reply
  · rename_i taken
    exact Bool.eq_false_iff.mpr taken

/-- **Queued commands fail only on the values of keys exactly when none of them changes the
members.** -/
theorem queued_executable_iff [Codec] (queued : Command → Prop)
    (taken : ∀ command, queued command → ∃ (server : Server) (runtime : ServerRuntime)
      (session : SessionState), (server.enqueue runtime session command).reply = .ok .queued) :
    (∀ (engine : Engine) (reading : Reading) (commands : List Command) (err : EngineError),
        (∀ command ∈ commands, queued command) →
        (engine.executeTransaction reading commands).2 = .error err → err.isNumeric = true) ↔
      ∀ command, queued command → command.changesMembers = false := by
  constructor
  · intro numeric command member
    rw [Bool.eq_false_iff]
    intro changes
    have failed := numeric (.create ⟨0, 0⟩ 0) (.still 0) [command]
      (.unsupportedCommand "command is not supported inside transactions")
      (List.forall_mem_singleton.mpr member)
    cases command with
    | clusterJoin _ _ | clusterRemove _ => cases failed rfl
    | _ => cases changes
  · intro plain engine reading commands err inside
    refine executeTransaction_numeric engine reading fun command member => ⟨?_, ?_⟩
    · obtain ⟨server, runtime, session, reply⟩ := taken command (inside command member)
      exact not_refused_of_queued reply
    · exact plain command (inside command member)

end Queues

section Samples

open Sample

theorem queued_executable_incr :
    Command.changesMembers (.incr "k") = false ∧
      ∀ (engine : Engine) (reading : Reading) (commands : List Command) (err : EngineError),
        (∀ command ∈ commands, command = .incr "k") →
        (engine.executeTransaction reading commands).2 = .error err → err.isNumeric = true := by
  refine ⟨rfl, (queued_executable_iff (· = .incr "k") ?_).mpr ?_⟩ <;> rintro _ rfl
  · exact ⟨⟨.create ⟨4096, 2⟩ 0, .new, false⟩, runtime, .new, by decide +kernel⟩
  · rfl

/-- `CLUSTER JOIN` is queued, and the transaction fails for it. -/
theorem queued_join_unsupported :
    let server : Server := ⟨.create ⟨4096, 2⟩ 0, .new, false⟩
    (SessionState.new.exchanges runtime [⟨server, calm 1, .multi⟩,
      ⟨server, calm 2, .clusterJoin "d" "d:1"⟩, ⟨server, calm 3, .exec⟩]).map Exchange.reply =
      [.ok (.data .ok), .ok .queued, .error (.engine
        (.unsupportedCommand "command is not supported inside transactions"))] := by
  decide +kernel

end Samples

end Vaylix
