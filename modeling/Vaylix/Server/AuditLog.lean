import Vaylix.Lib.Run
import Vaylix.Server.SampleAudit

/-!
# The audit log

`record` writes a line piece by piece and advances the chain at the end. What a failed or
interrupted write leaves behind is not removed, so the next line may become part of a broken
one, and the log is refused from then on.
-/

namespace Vaylix

open HashChain LabelledRun Lines

/-- The audit file, if there is one, and the chain of the running logger. -/
structure AuditSystem where
  file : Option (List UInt8)
  logger : Option AuditChainState

inductive AuditStep where
  | reopen
  | record (event : AuditEvent)
  /-- `record` fails after `written` bytes; the logger goes on. -/
  | failRecord (event : AuditEvent) (written : Nat)
  /-- The process dies after `written` bytes of a line. -/
  | crash (event : AuditEvent) (written : Nat)
  | close

namespace AuditSystem

variable [AuditCodec]

def append (system : AuditSystem) (bytes : List UInt8) (logger : Option AuditChainState) :
    AuditSystem :=
  ⟨some (system.file.getD [] ++ bytes), logger⟩

def step (system : AuditSystem) : AuditStep → Option AuditSystem
  | .reopen =>
    match system.logger with
    | some _ => none
    | none =>
      match verifyExistingChain system.file with
      | .error _ => some system
      | .ok chain => some (system.append [] (some chain))
  | .record event =>
    system.logger.map fun chain =>
      system.append (eventLine chain event) (some (advance computeHash chain event))
  | .failRecord event written =>
    system.logger.map fun chain =>
      system.append ((eventLine chain event).take written) (some chain)
  | .crash event written =>
    system.logger.map fun chain => system.append ((eventLine chain event).take written) none
  | .close => some ⟨system.file, none⟩

end AuditSystem

namespace AuditStep

def recorded : AuditStep → Option AuditEvent
  | .record event => some event
  | _ => none

/-- Nothing fails and nothing is interrupted. -/
def Smooth : AuditStep → Prop
  | .reopen | .record _ | .close => True
  | .failRecord _ _ | .crash _ _ => False

end AuditStep

namespace AuditSystem

section Chain

variable [AuditCodec]

theorem verifyExistingChain_eq (file : Option (List UInt8)) :
    verifyExistingChain file = verifyContent (file.getD []) := by
  cases file <;> rfl

structure Whole (system : AuditSystem) (chain : AuditChainState) : Prop where
  verified : verifyContent (system.file.getD []) = .ok chain
  terminated : Terminated newline (system.file.getD [])
  logger : ∀ held, system.logger = some held → held = chain

variable {system : AuditSystem} {chain : AuditChainState}

theorem whole_record (whole : system.Whole chain) (event : AuditEvent)
    (logger : Option AuditChainState)
    (continued : ∀ held, logger = some held → held = advance computeHash chain event) :
    (system.append (eventLine chain event) logger).Whole (advance computeHash chain event) where
  verified := verifyContent_eventLine whole.verified whole.terminated event
  terminated := terminated_eventLine _ _ _
  logger := continued

theorem whole_untouched (whole : system.Whole chain) (logger : Option AuditChainState)
    (continued : ∀ held, logger = some held → held = chain) :
    (system.append [] logger).Whole chain where
  verified := by
    rw [append, List.append_nil]
    exact whole.verified
  terminated := by
    rw [append, List.append_nil]
    exact whole.terminated
  logger := continued

theorem whole_smooth {next : AuditSystem} {action : AuditStep} (whole : system.Whole chain)
    (smooth : action.Smooth) (taken : system.step action = some next) :
    next.Whole (extend computeHash chain action.recorded.toList) := by
  cases action with
  | reopen =>
    simp only [step, verifyExistingChain_eq, whole.verified] at taken
    split at taken
    · cases taken
    · cases taken
      exact whole_untouched whole _ fun held found => (Option.some.inj found).symm
  | record event =>
    obtain ⟨held, running, rfl⟩ := Option.map_eq_some_iff.mp taken
    obtain rfl := whole.logger held running
    exact whole_record whole event _ fun _ found => (Option.some.inj found).symm
  | failRecord | crash => exact smooth.elim
  | close =>
    cases taken
    exact ⟨whole.verified, whole.terminated, fun _ found => by cases found⟩

/-- Smooth steps leave the file with the chain of its events. -/
theorem whole_run {final : AuditSystem} {steps : List AuditStep} (whole : system.Whole chain)
    (smooth : ∀ action ∈ steps, action.Smooth) (reached : run step system steps = some final) :
    final.Whole (extend computeHash chain (steps.filterMap AuditStep.recorded)) := by
  induction steps generalizing system chain with
  | nil =>
    cases reached
    exact whole
  | cons action rest ih =>
    obtain ⟨next, taken, following⟩ := (run_cons_eq_some step).mp reached
    have later := ih (whole_smooth whole (smooth action List.mem_cons_self) taken)
      (List.forall_mem_cons.mp smooth).2 following
    rw [← extend_append] at later
    cases recorded : action.recorded <;>
      simpa only [List.filterMap_cons, recorded, Option.toList, List.nil_append,
        List.cons_append] using later

def fresh : AuditSystem := ⟨none, none⟩

theorem whole_fresh : fresh.Whole genesis where
  verified := rfl
  terminated := terminated_nil
  logger := fun _ found => by cases found

/-- **The audit log is tamper evident.** A log that was only written by successful records is
accepted however often it is reopened; and as long as the digest has no collisions, files that
verify to the same chain state hold the same events. -/
theorem tamper_evident
    (injective : ∀ left right : HashPayload,
      AuditCodec.digest (AuditCodec.encodePayload left) =
        AuditCodec.digest (AuditCodec.encodePayload right) →
      AuditCodec.encodePayload left = AuditCodec.encodePayload right) :
    (∀ (steps : List AuditStep) (final : AuditSystem), (∀ action ∈ steps, action.Smooth) →
      run step fresh steps = some final →
        ∃ chain, verifyExistingChain final.file = .ok chain ∧
          chain = extend computeHash genesis (steps.filterMap AuditStep.recorded) ∧
          chain.next = (steps.filterMap AuditStep.recorded).length + 1 ∧
          fileEvents (final.file.getD []) = steps.filterMap AuditStep.recorded ∧
          (final.logger = none →
            step final .reopen = some ⟨some (final.file.getD []), some chain⟩)) ∧
    (∀ (left right : Option (List UInt8)) (chain : AuditChainState),
      verifyExistingChain left = .ok chain → verifyExistingChain right = .ok chain →
        fileEvents (left.getD []) = fileEvents (right.getD [])) := by
  have free := collisionFree_computeHash injective
  refine ⟨fun steps final smooth reached => ?_, fun left right chain first second => ?_⟩
  · have whole := whole_run whole_fresh smooth reached
    have verified := (verifyExistingChain_eq final.file).trans whole.verified
    refine ⟨_, verified, rfl, ?_, extend_injective free (verifyContent_ok whole.verified).symm,
      fun closed => ?_⟩
    · rw [next_extend, Nat.add_comm]
      rfl
    · simp only [step, closed, verified, append, List.append_nil]
  · rw [verifyExistingChain_eq] at first second
    have same := (verifyContent_ok first).symm.trans (verifyContent_ok second)
    exact extend_injective free same

end Chain

open SampleAudit in
/-- Two commands are recorded, and no file with other events is accepted in place of theirs. -/
theorem reopens_recorded_command :
    let refused : AuditEvent := { command with status := "error", errorCode := some "QUOTA" }
    ∃ final chain, run step fresh [.reopen, .record command, .record refused, .close] =
        some final ∧
      step final .reopen = some ⟨some (final.file.getD []), some chain⟩ ∧ chain.next = 3 ∧
      fileEvents (final.file.getD []) = [command, refused] ∧
      ∀ altered, fileEvents altered ≠ [command, refused] →
        verifyExistingChain (some altered) ≠ .ok chain := by
  intro refused
  have smooth : ∀ action ∈ [AuditStep.reopen, .record command, .record refused, .close],
      action.Smooth := by
    simp [AuditStep.Smooth]
  obtain ⟨chain, verified, -, next, events, opened⟩ :=
    (tamper_evident keeping_injective).1 _ _ smooth rfl
  refine ⟨_, chain, rfl, opened rfl, next, events, fun altered other accepted => other ?_⟩
  exact ((tamper_evident keeping_injective).2 _ _ chain accepted verified).trans events

section Broken

variable [AuditJson]

variable {content : List UInt8} {chain : AuditChainState}

omit [AuditJson] in
theorem rejects_line [AuditCodec] {text : List UInt8} (verified : verifyContent content = .ok chain)
    (terminated : Terminated newline content) (plain : newline ∉ text) (event : ChainedAuditEvent)
    (broken : ∀ parsed, AuditCodec.parseLine (text ++ AuditCodec.encodeEvent event) ≠ .ok parsed)
    (final : AuditChainState) :
    verifyContent (content ++ (text ++ AuditCodec.encodeEvent event ++ [newline])) ≠
      .ok final := by
  have whole : newline ∉ text ++ AuditCodec.encodeEvent event := by
    rw [List.mem_append, not_or]
    exact ⟨plain, AuditCodec.newline_not_mem event⟩
  rw [verifyContent_append verified terminated, lines_line whole]
  intro accepted
  rw [verifyLines_singleton_ok_iff, verifyLine_ok_iff, lineText_encode] at accepted
  obtain ⟨_, parsed, -⟩ := accepted
  exact broken _ parsed

theorem exists_unterminated (verified : verifyContent content = .ok chain)
    (unended : ¬Terminated newline content) :
    ∃ (whole text : List UInt8) (before : AuditChainState) (event : ChainedAuditEvent),
      content = whole ++ text ∧ Terminated newline whole ∧ newline ∉ text ∧
        verifyContent whole = .ok before ∧ AuditCodec.parseLine text = .ok event := by
  obtain ⟨whole, text, rfl, terminated, plain⟩ :
      ∃ whole text, content = whole ++ text ∧ Terminated newline whole ∧ newline ∉ text :=
    exists_split content
  have nonempty : text ≠ [] := by
    rintro rfl
    rw [List.append_nil] at unended
    exact unended terminated
  cases before : verifyContent whole with
  | error err =>
    unfold verifyContent at verified before
    rw [lines_append terminated, verifyLines_append, before] at verified
    cases verified
  | ok reached =>
    rw [verifyContent_append before terminated, lines_text plain nonempty,
      verifyLines_singleton_ok_iff, verifyLine_ok_iff] at verified
    obtain ⟨event, parsed, -⟩ := verified
    exact ⟨whole, text, reached, _, rfl, terminated, plain, before, parsed⟩

theorem rejects_unterminated (verified : verifyContent content = .ok chain)
    (unended : ¬Terminated newline content) (held : AuditChainState) (event : AuditEvent)
    (final : AuditChainState) :
    verifyContent (content ++ eventLine held event) ≠ .ok final := by
  obtain ⟨whole, text, before, last, rfl, terminated, plain, reached, parsed⟩ :=
    exists_unterminated verified unended
  have broken := rejects_line reached terminated plain (chainedEvent held event)
    (AuditJson.joined text last _ parsed) final
  rwa [eventLine, List.append_assoc, ← List.append_assoc text]

variable {event : AuditEvent} {written : Nat}

theorem take_eventLine_of_le
    (within : written ≤ (AuditCodec.encodeEvent (chainedEvent chain event)).length) :
    (eventLine chain event).take written =
      (AuditCodec.encodeEvent (chainedEvent chain event)).take written := by
  rw [eventLine, List.take_append_of_le_length within]

theorem take_eventLine_of_lt
    (past : (AuditCodec.encodeEvent (chainedEvent chain event)).length < written) :
    (eventLine chain event).take written = eventLine chain event := by
  refine List.take_of_length_le ?_
  rw [eventLine, List.length_append, List.length_singleton]
  exact past

section Whole

variable {content : List UInt8} {chain : AuditChainState}
  (verified : verifyContent content = .ok chain) (terminated : Terminated newline content)

include verified terminated

theorem rejects_repeated (first second : AuditEvent) (final : AuditChainState) :
    verifyContent (content ++ eventLine chain first ++ eventLine chain second) ≠ .ok final := by
  rw [verifyContent_append (verifyContent_eventLine verified terminated first)
    (terminated_eventLine _ _ _), lines_eventLine]
  intro accepted
  rw [verifyLines_singleton_ok_iff, verifyLine_ok_iff, lineText_encodeEvent,
    AuditCodec.parse_encode] at accepted
  obtain ⟨other, same, -⟩ := accepted
  have number := congrArg ChainedAuditEvent.sequence (Except.ok.inj same)
  exact absurd number (Nat.ne_of_lt (Nat.lt_succ_self chain.next))

theorem unterminated_event (event : AuditEvent) :
    let bytes := AuditCodec.encodeEvent (chainedEvent chain event)
    verifyContent (content ++ bytes) = .ok (advance computeHash chain event) ∧
      ¬Terminated newline (content ++ bytes) := by
  intro bytes
  constructor
  · rw [verifyContent_append verified terminated,
      lines_text (AuditCodec.newline_not_mem _) (encodeEvent_ne_nil _),
      verifyLines_singleton_ok_iff, verifyLine_ok_iff]
    refine ⟨event, ?_, rfl⟩
    rw [lineText_encodeEvent, AuditCodec.parse_encode]
  · intro ends
    refine absurd (ends closingBrace ?_) (by decide)
    rw [List.getLast?_append, AuditCodec.getLast_encode, Option.some_or]

/-- **Whatever a failed `record` has written breaks the next line.** -/
theorem rejects_after_failure (event next : AuditEvent) {written : Nat} (begun : 0 < written)
    (final : AuditChainState) :
    verifyContent (content ++ (eventLine chain event).take written ++ eventLine chain next) ≠
      .ok final := by
  rcases Nat.lt_trichotomy written
    (AuditCodec.encodeEvent (chainedEvent chain event)).length with torn | rfl | past
  · rw [take_eventLine_of_le torn.le]
    have plain : newline ∉ (AuditCodec.encodeEvent (chainedEvent chain event)).take written :=
      fun member => AuditCodec.newline_not_mem _ (List.mem_of_mem_take member)
    have broken := rejects_line verified terminated plain (chainedEvent chain next)
      (AuditJson.torn_append _ _ written begun torn) final
    rwa [eventLine, List.append_assoc, ← List.append_assoc (List.take _ _)]
  · rw [take_eventLine_of_le le_rfl, List.take_length]
    obtain ⟨accepted, unended⟩ := unterminated_event verified terminated event
    exact rejects_unterminated accepted unended chain next final
  · rw [take_eventLine_of_lt past]
    exact rejects_repeated verified terminated event next final

theorem rejects_torn (event : AuditEvent) {written : Nat} (begun : 0 < written)
    (torn : written < (AuditCodec.encodeEvent (chainedEvent chain event)).length)
    (final : AuditChainState) :
    verifyContent (content ++ (eventLine chain event).take written) ≠ .ok final := by
  rw [take_eventLine_of_le torn.le, verifyContent_append verified terminated,
    lines_text (fun member => AuditCodec.newline_not_mem _ (List.mem_of_mem_take member))
      (by rw [Ne, List.take_eq_nil_iff]; exact not_or.mpr ⟨by omega, encodeEvent_ne_nil _⟩)]
  intro accepted
  rw [verifyLines_singleton_ok_iff, verifyLine_ok_iff] at accepted
  obtain ⟨_, parsed, -⟩ := accepted
  refine AuditJson.torn _ written begun torn _ (Eq.trans (congrArg _ ?_) parsed)
  exact (if_neg fun stripped => Bool.false_ne_true stripped.1).symm

end Whole

/-- A failed `record` has written nothing, and no crash comes between a line and its newline. -/
def Clean (system : AuditSystem) : AuditStep → Prop
  | .failRecord _ written => system.logger.isSome → written = 0
  | .crash event written => ∀ chain, system.logger = some chain →
      written ≠ (AuditCodec.encodeEvent (chainedEvent chain event)).length
  | .reopen | .record _ | .close => True

variable {action : AuditStep}

theorem clean_of_smooth (smooth : action.Smooth) (system : AuditSystem) : system.Clean action := by
  cases action with
  | reopen | record | close => trivial
  | failRecord | crash => exact smooth.elim

structure Locked (system : AuditSystem) : Prop where
  stopped : system.logger = none
  refused : ∀ chain, verifyContent (system.file.getD []) ≠ .ok chain

def Good (system : AuditSystem) : Prop := (∃ chain, system.Whole chain) ∨ system.Locked

variable {system next : AuditSystem}

/-- A file that is refused stays so. -/
theorem Locked.step (locked : system.Locked) (taken : system.step action = some next) :
    next.Locked := by
  cases action with
  | reopen =>
    simp only [AuditSystem.step, locked.stopped, verifyExistingChain_eq] at taken
    split at taken
    · cases taken
      exact locked
    · rename_i chain verified
      exact absurd verified (locked.refused chain)
  | record | failRecord | crash =>
    simp only [AuditSystem.step, locked.stopped, Option.map_none] at taken
    cases taken
  | close =>
    cases taken
    exact ⟨rfl, locked.refused⟩

theorem Good.whole {held : AuditChainState} (good : system.Good)
    (running : system.logger = some held) : ∃ chain, system.Whole chain := by
  rcases good with whole | locked
  · exact whole
  · rw [locked.stopped] at running
    cases running

theorem good_step (good : system.Good) (clean : system.Clean action)
    (taken : system.step action = some next) : next.Good := by
  rcases good with ⟨chain, whole⟩ | locked
  · cases action with
    | reopen | record | close => exact .inl ⟨_, whole_smooth whole (by trivial) taken⟩
    | failRecord event written =>
      obtain ⟨held, running, rfl⟩ := Option.map_eq_some_iff.mp taken
      obtain rfl := whole.logger held running
      obtain rfl := clean (by rw [running]; rfl)
      exact .inl ⟨held, whole_untouched whole _ fun _ found => (Option.some.inj found).symm⟩
    | crash event written =>
      obtain ⟨held, running, rfl⟩ := Option.map_eq_some_iff.mp taken
      obtain rfl := whole.logger held running
      rcases Nat.lt_trichotomy written
        (AuditCodec.encodeEvent (chainedEvent held event)).length with torn | same | past
      · rcases Nat.eq_zero_or_pos written with rfl | begun
        · exact .inl ⟨held, whole_untouched whole _ fun _ found => by cases found⟩
        · exact .inr ⟨rfl, rejects_torn whole.verified whole.terminated event begun torn⟩
      · exact absurd same (clean held running)
      · rw [take_eventLine_of_lt past]
        exact .inl ⟨_, whole_record whole event _ fun _ found => by cases found⟩
  · exact .inr (locked.step taken)

/-- Whatever is recorded from here on, the file is accepted after it. -/
def Survives (system : AuditSystem) : Prop :=
  ∀ later : List AuditStep, (∀ action ∈ later, action.Smooth) → ∀ event final,
    run step system (later ++ [.record event]) = some final →
      ∃ chain, verifyExistingChain final.file = .ok chain

theorem Good.survives (good : system.Good) : system.Survives := by
  intro later smooth event final reached
  obtain ⟨middle, before, taken⟩ := (run_concat_eq_some step).mp reached
  have there : middle.Good := invariant_of_meets
    (fun _ _ _ holds smooth taken => good_step holds (clean_of_smooth smooth _) taken) good
    (meets_of_forall step smooth system) before
  obtain ⟨held, running, -⟩ := Option.map_eq_some_iff.mp taken
  obtain ⟨chain, whole⟩ := there.whole running
  have after := whole_smooth whole (by trivial) taken
  exact ⟨_, (verifyExistingChain_eq _).trans after.verified⟩

theorem not_survives_of_not_clean (good : system.Good) (dirty : ¬system.Clean action) :
    ∃ next, system.step action = some next ∧ ¬next.Survives := by
  cases action with
  | reopen | record | close => exact absurd trivial dirty
  | failRecord event written =>
    simp only [Clean, Classical.not_imp] at dirty
    obtain ⟨running, begun⟩ := dirty
    obtain ⟨held, running⟩ := Option.isSome_iff_exists.mp running
    obtain ⟨chain, whole⟩ := good.whole running
    obtain rfl := whole.logger held running
    refine ⟨_, congrArg (Option.map _) running, fun survives => ?_⟩
    obtain ⟨chain, accepted⟩ := survives [] (by simp) event _ rfl
    rw [verifyExistingChain_eq] at accepted
    exact rejects_after_failure whole.verified whole.terminated event event
      (Nat.pos_of_ne_zero begun) chain accepted
  | crash event written =>
    simp only [Clean, not_forall, not_not] at dirty
    obtain ⟨held, running, rfl⟩ := dirty
    obtain ⟨chain, whole⟩ := good.whole running
    obtain rfl := whole.logger held running
    refine ⟨_, congrArg (Option.map _) running, fun survives => ?_⟩
    obtain ⟨complete, unended⟩ := unterminated_event whole.verified whole.terminated event
    beta_reduce at survives
    rw [take_eventLine_of_le le_rfl, List.take_length] at survives
    -- The next opening accepts the line that lacks its newline.
    have opened : step (system.append (AuditCodec.encodeEvent (chainedEvent held event)) none)
        .reopen = some ((system.append (AuditCodec.encodeEvent (chainedEvent held event)) none
          ).append [] (some (advance computeHash held event))) := by
      simp only [step, append, verifyExistingChain_eq, Option.getD_some, complete]
    obtain ⟨final, accepted⟩ := survives [.reopen] (by simp [AuditStep.Smooth]) event _
      ((run_cons_eq_some step).mpr ⟨_, opened, rfl⟩)
    rw [verifyExistingChain_eq] at accepted
    simp only [append, Option.getD_some, List.append_nil] at accepted
    exact rejects_unterminated complete unended _ event final accepted

theorem survives_iff_meets (good : system.Good) (steps : List AuditStep) :
    (∀ before, before <+: steps → ∀ middle, run step system before = some middle →
      middle.Survives) ↔ Meets step Clean system steps := by
  constructor
  · induction steps generalizing system with
    | nil => exact fun _ => trivial
    | cons action rest ih =>
      intro survive
      have clean : system.Clean action := by
        by_contra dirty
        obtain ⟨next, taken, fails⟩ := not_survives_of_not_clean good dirty
        refine fails (survive [action] (List.prefix_append [action] rest) next ?_)
        exact (run_cons_eq_some step).mpr ⟨next, taken, rfl⟩
      refine ⟨clean, fun next taken => ih (good_step good clean taken) ?_⟩
      intro before beginning middle reached
      exact survive (action :: before) (List.cons_prefix_cons.mpr ⟨rfl, beginning⟩) middle
        ((run_cons_eq_some step).mpr ⟨next, taken, reached⟩)
  · rintro meets before ⟨behind, rfl⟩ middle reached
    have there : middle.Good := invariant_of_meets
      (fun _ _ _ holds clean taken => good_step holds clean taken) good
      (meets_left step meets) reached
    exact there.survives

/-- **When the audit log cannot lock the server out.** Every beginning of a run, followed by steps
without failures and a last successful `record`, leaves a file that `open` accepts, exactly if the
file it started with ends with a newline and no step begins a line and leaves it there. -/
theorem reopens_after_record_iff {content : List UInt8} {chain : AuditChainState}
    (accepted : verifyContent content = .ok chain) (steps : List AuditStep) :
    (∀ before, before <+: steps → ∀ later : List AuditStep,
      (∀ action ∈ later, action.Smooth) → ∀ event final,
        run step ⟨some content, some chain⟩ (before ++ (later ++ [.record event])) =
          some final →
        ∃ reached, verifyExistingChain final.file = .ok reached) ↔
      Terminated newline content ∧ Meets step Clean ⟨some content, some chain⟩ steps := by
  have good : Terminated newline content → Good ⟨some content, some chain⟩ := fun terminated =>
    .inl ⟨chain, accepted, terminated, fun _ found => (Option.some.inj found).symm⟩
  constructor
  · intro reopens
    have survive : ∀ before, before <+: steps → ∀ middle,
        run step ⟨some content, some chain⟩ before = some middle → middle.Survives :=
      fun before beginning middle reached later smooth event final following =>
        reopens before beginning later smooth event final (by
          rw [run_append, reached]
          exact following)
    have terminated : Terminated newline content := by
      by_contra unended
      obtain ⟨reached, verified⟩ := survive [] List.nil_prefix _ rfl [] (by simp)
        SampleAudit.command _ rfl
      exact rejects_unterminated accepted unended chain _ reached verified
    exact ⟨terminated, (survives_iff_meets (good terminated) steps).mp survive⟩
  · rintro ⟨terminated, meets⟩ before beginning later smooth event final reached
    rw [run_append, Option.bind_eq_some_iff] at reached
    obtain ⟨middle, there, following⟩ := reached
    exact (survives_iff_meets (good terminated) steps).mpr meets before beginning middle there
      later smooth event final following

end Broken

open SampleAudit

/-- Five bytes of a line reach the full disk; after the next command the log is refused. -/
theorem full_disk_locks_out : verifyContent [] = .ok genesis ∧
    ∃ final, run step ⟨some [], some genesis⟩ [.failRecord command 5, .record command] =
        some final ∧ ∀ chain, verifyExistingChain final.file ≠ .ok chain := by
  refine ⟨rfl, _, rfl, fun chain accepted => ?_⟩
  exact rejects_after_failure rfl terminated_nil command command (by decide) chain accepted

theorem reopens_after_clean_failure : ∃ final reached,
    run step ⟨some [], some genesis⟩ [.record command, .failRecord command 0, .record command] =
        some final ∧ verifyExistingChain final.file = .ok reached := by
  have clean : Meets step Clean ⟨some [], some genesis⟩ [.record command, .failRecord command 0] :=
    ⟨trivial, fun _ _ => ⟨fun _ => rfl, fun _ _ => trivial⟩⟩
  obtain ⟨reached, accepted⟩ := (reopens_after_record_iff rfl _).mpr ⟨terminated_nil, clean⟩ _
    List.prefix_rfl [] (by simp) command _ rfl
  exact ⟨_, reached, rfl, accepted⟩

end AuditSystem

end Vaylix
