import Vaylix.Engine.Replay

/-!
# Applying operations a second time

Recovery replays entries whose effect is already in the snapshot. Writes and deletions can be
repeated; an integer update cannot, unless its key was settled before it in the same stretch.
Then a stretch that led to a keyspace leads from that keyspace to itself.
-/

namespace Vaylix

namespace WalOperation

/-- After this operation the entry of `key` no longer depends on what was there. -/
def settles (key : Key) : WalOperation → Bool
  | .set name _ _ | .delete name => decide (name = key)
  | .clear => true
  | .expire _ _ | .persist _ | .checkInteger _ _ => false

def concernsExpiration : WalOperation → Bool
  | .expire _ _ | .persist _ => true
  | _ => false

end WalOperation

/-- Before each integer update the list settles its key. -/
def CountersSettled (operations : List WalOperation) : Prop :=
  ∀ before key delta after, operations = before ++ .checkInteger key delta :: after →
    ∃ earlier ∈ before, earlier.settles key = true

theorem countersSettled_of_uncounted {operations : List WalOperation}
    (uncounted : ∀ key delta, .checkInteger key delta ∉ operations) :
    CountersSettled operations := by
  intro before key delta after split
  refine absurd ?_ (uncounted key delta)
  rw [split]
  exact List.mem_append_right _ List.mem_cons_self

def WalOperation.counted : WalOperation → Option Key
  | .checkInteger key _ => some key
  | _ => none

instance : DecidablePred CountersSettled := fun operations =>
  decidable_of_iff (∀ i < operations.length, ∀ key ∈ (operations[i]?).bind WalOperation.counted,
    ∃ earlier ∈ operations.take i, earlier.settles key = true) <| by
  constructor
  · rintro settled before key delta after rfl
    simpa using settled before.length (by simp) key (by simp [WalOperation.counted])
  · intro settled i inside key counts
    rw [List.getElem?_eq_getElem inside, Option.bind_some] at counts
    cases found : operations[i] with
    | checkInteger name delta =>
      rw [found] at counts
      cases counts
      refine settled _ key delta (operations.drop (i + 1)) ?_
      rw [← found, List.getElem_cons_drop inside, List.take_append_drop]
    | _ =>
      rw [found] at counts
      cases counts

def Lasting (operations : List WalOperation) : Prop :=
  ∀ operation ∈ operations, operation.concernsExpiration = false

/-- Two runs of `before` agree on a key, or the second has left it as it is in `target`. -/
def AgreesOrKeeps (before : List WalOperation) (target first second : EngineStore) : Prop :=
  ∀ key, first.get key = second.get key ∨
    (∀ operation ∈ before, operation.settles key = false) ∧ second.get key = target.get key

namespace AgreesOrKeeps

variable {before : List WalOperation} {target first second first' second' : EngineStore}

theorem change (agrees : AgreesOrKeeps before target first second) (key : Key)
    {operation : WalOperation} (same : first'.get key = second'.get key)
    (firstRest : ∀ other, key ≠ other → first'.get other = first.get other)
    (secondRest : ∀ other, key ≠ other → second'.get other = second.get other)
    (about : ∀ other, key ≠ other → operation.settles other = false) :
    AgreesOrKeeps (before ++ [operation]) target first' second' := by
  intro other
  by_cases touched : key = other
  · subst touched
    exact .inl same
  · rw [firstRest other touched, secondRest other touched]
    rcases agrees other with equal | ⟨unsettled, kept⟩
    · exact .inl equal
    · refine .inr ⟨?_, kept⟩
      intro operation' member
      rcases List.mem_append.mp member with earlier | last
      · exact unsettled operation' earlier
      · obtain rfl := List.mem_singleton.mp last
        exact about other touched

/-- One operation on two keyspaces that agree or keep. -/
theorem step (agrees : AgreesOrKeeps before target first second) {operation : WalOperation}
    (lasting : operation.concernsExpiration = false)
    (settled : ∀ key delta, operation = .checkInteger key delta →
      ∃ earlier ∈ before, earlier.settles key = true)
    (run : applyOperation first operation = .ok first') :
    ∃ second', applyOperation second operation = .ok second' ∧
      AgreesOrKeeps (before ++ [operation]) target first' second' := by
  cases operation with
  | set key _ _ | delete key =>
    cases run
    refine ⟨_, rfl, agrees.change key (by simp) ?_ ?_ ?_⟩ <;>
      exact fun other distinct => by simp [distinct, WalOperation.settles]
  | clear =>
    cases run
    exact ⟨_, rfl, fun key => .inl (by simp)⟩
  | checkInteger key delta =>
    have equal : first.get key = second.get key := by
      obtain ⟨earlier, member, settles⟩ := settled key delta rfl
      rcases agrees key with equal | ⟨unsettled, -⟩
      · exact equal
      · rw [unsettled earlier member] at settles
        cases settles
    obtain ⟨number, sum, parsed, added, rfl⟩ := applyOperation_checkInteger.mp run
    rw [equal] at parsed ⊢
    refine ⟨_, applyOperation_checkInteger.mpr ⟨number, sum, parsed, added, rfl⟩,
      agrees.change key (by simp) ?_ ?_ ?_⟩
    · exact fun other distinct => by simp [distinct]
    · exact fun other distinct => by simp [distinct]
    · exact fun other _ => rfl
  | expire key expiresAtMs => cases lasting
  | persist key => cases lasting

theorem run {operations : List WalOperation} (settled : CountersSettled operations)
    (lasting : Lasting operations) (rest : List WalOperation) {before : List WalOperation}
    (split : operations = before ++ rest) {first second final : EngineStore}
    (agrees : AgreesOrKeeps before target first second)
    (reached : applyOperations first rest = .ok final) :
    ∃ final', applyOperations second rest = .ok final' ∧
      AgreesOrKeeps operations target final final' := by
  induction rest generalizing before first second with
  | nil =>
    cases reached
    exact ⟨second, rfl, by simpa [split] using agrees⟩
  | cons operation rest ih =>
    obtain ⟨next, here, following⟩ := applyOperations_cons_eq_ok.mp reached
    have member : operation ∈ operations := by simp [split]
    have settledHere : ∀ key delta, operation = .checkInteger key delta →
        ∃ earlier ∈ before, earlier.settles key = true := by
      rintro key delta rfl
      exact settled before key delta rest split
    obtain ⟨second', secondRun, agrees'⟩ := agrees.step (lasting operation member) settledHere here
    obtain ⟨final', finalRun, agreesFinal⟩ := ih (by simp [split]) agrees' following
    exact ⟨final', applyOperations_cons_eq_ok.mpr ⟨second', secondRun, finalRun⟩, agreesFinal⟩

end AgreesOrKeeps

/-- **Reapplying a settled stretch of operations changes nothing.** -/
theorem applyOperations_again {operations : List WalOperation}
    (settled : CountersSettled operations)
    (lasting : Lasting operations) {start final : EngineStore}
    (run : applyOperations start operations = .ok final) :
    applyOperations final operations = .ok final := by
  have initially : AgreesOrKeeps [] final start final :=
    fun key => .inr ⟨by simp, rfl⟩
  obtain ⟨again, secondRun, agrees⟩ :=
    AgreesOrKeeps.run settled lasting operations rfl initially run
  have same : again = final := by
    ext1 key
    rcases agrees key with equal | ⟨-, kept⟩
    · exact equal.symm
    · exact kept
  rw [secondRun, same]

theorem replayStore_eq_applyOperations (store : EngineStore) (entries : List WalEntry) :
    replayStore store entries = applyOperations store (entries.flatMap WalEntry.operations) := by
  induction entries generalizing store with
  | nil => rfl
  | cons entry rest ih =>
    rw [replayStore_cons, List.flatMap_cons, applyOperations_append]
    cases applyOperations store entry.operations with
    | error err => rfl
    | ok next => exact ih next

theorem replayStore_again {entries : List WalEntry}
    (settled : CountersSettled (entries.flatMap WalEntry.operations))
    (lasting : Lasting (entries.flatMap WalEntry.operations)) {start final : EngineStore}
    (run : replayStore start entries = .ok final) : replayStore final entries = .ok final := by
  rw [replayStore_eq_applyOperations] at run ⊢
  exact applyOperations_again settled lasting run

end Vaylix
