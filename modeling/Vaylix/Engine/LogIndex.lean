import Vaylix.Engine.Replay
import Vaylix.Lib.MapFold
import Vaylix.Lib.NumberedLog

/-!
# The in-memory log and its index

The engine keeps the retained entries as a consecutively numbered list and, for
replication, an index from sequences to identities. The index answers exactly
the entries of the list.
-/

namespace Vaylix

open NumberedLog

def entryAt (entries : List WalEntry) (sequence : Nat) : Option WalEntry :=
  entries.find? fun entry => decide (entry.sequence = sequence)

theorem entryAt_append (front back : List WalEntry) (sequence : Nat) :
    entryAt (front ++ back) sequence = (entryAt front sequence).or (entryAt back sequence) := by
  simp [entryAt, List.find?_append]

theorem getElem?_extend (index added : IdentityIndex) (sequence : Nat) :
    (index.extend added)[sequence]? = (added[sequence]?).or index[sequence]? := by
  have faithful : ∀ pair ∈ added.toList, added[pair.1]? = some pair.2 := fun pair member =>
    Std.ExtTreeMap.mem_toList_iff_getElem?_eq_some.mp member
  have folded := MapFold.getElem?_foldl_insert faithful index sequence
  refine folded.trans ?_
  cases found : added[sequence]? with
  | none =>
    have absent : sequence ∉ added.toList.map Prod.fst := by
      intro member
      obtain ⟨pair, inside, named⟩ := List.mem_map.mp member
      rw [← named, faithful pair inside] at found
      cases found
    rw [if_neg absent]
    rfl
  | some identity =>
    have present : sequence ∈ added.toList.map Prod.fst :=
      List.mem_map.mpr ⟨(sequence, identity),
        Std.ExtTreeMap.mem_toList_iff_getElem?_eq_some.mpr found, rfl⟩
    rw [if_pos present]
    rfl

variable [Codec]

def Indexes (index : IdentityIndex) (entries : List WalEntry) : Prop :=
  ∀ sequence, index[sequence]? = (entryAt entries sequence).map walEntryIdentity

def indexEntries (index : IdentityIndex) (entries : List WalEntry) : IdentityIndex :=
  entries.foldl (fun index entry => index.insert entry.sequence (walEntryIdentity entry)) index

variable {entries : List WalEntry}

theorem getElem?_indexEntries (ordered : entries.Pairwise fun a b => a.sequence < b.sequence)
    (index : IdentityIndex) (sequence : Nat) :
    (indexEntries index entries)[sequence]? =
      ((entryAt entries sequence).map walEntryIdentity).or index[sequence]? := by
  induction entries generalizing index with
  | nil => simp [indexEntries, entryAt]
  | cons entry rest ih =>
    obtain ⟨before, orderedRest⟩ := List.pairwise_cons.mp ordered
    change (indexEntries (index.insert entry.sequence (walEntryIdentity entry)) rest)[sequence]? = _
    rw [ih orderedRest]
    by_cases here : entry.sequence = sequence
    · have absent : entryAt rest sequence = none := by
        refine List.find?_eq_none.mpr ?_
        intro later member
        have := before later member
        simp only [decide_eq_true_eq]
        omega
      have found : entryAt (entry :: rest) sequence = some entry := by
        simp [entryAt, here]
      rw [absent, found, here]
      simp
    · have skipped : entryAt (entry :: rest) sequence = entryAt rest sequence := by
        simp [entryAt, here]
      rw [skipped, Std.ExtTreeMap.getElem?_insert, if_neg (by simpa using here)]

theorem buildWalEntryIdentities_of_pairwise
    (ordered : entries.Pairwise fun a b => a.sequence < b.sequence) :
    buildWalEntryIdentities entries = .ok (indexEntries ∅ entries) := by
  have fresh : ∀ entry ∈ entries, (∅ : IdentityIndex)[entry.sequence]? = none := by simp
  unfold buildWalEntryIdentities
  generalize (∅ : IdentityIndex) = index at fresh ⊢
  induction entries generalizing index with
  | nil => rfl
  | cons entry rest ih =>
    obtain ⟨before, orderedRest⟩ := List.pairwise_cons.mp ordered
    rw [List.foldlM_cons, fresh entry List.mem_cons_self]
    refine ih orderedRest _ ?_
    intro later member
    have := before later member
    rw [Std.ExtTreeMap.getElem?_insert, if_neg (by simp; omega)]
    exact fresh later (List.mem_cons_of_mem _ member)

variable {first : Nat}

omit [Codec] in
theorem EngineMetadata.after_position {metadata : EngineMetadata} {last : Nat}
    (numbered : From WalEntry.sequence first entries) (ends : first + entries.length = last + 1)
    (empty : entries = [] → metadata.lastAppliedSequence = last) :
    (metadata.after entries).lastAppliedSequence = last := by
  cases final : entries.getLast? with
  | none =>
    simp only [EngineMetadata.after, final]
    exact empty (List.getLast?_eq_none_iff.mp final)
  | some entry =>
    have := numbered.getLast?_number final
    simp only [EngineMetadata.after, final]
    omega

theorem buildWalEntryIdentities_of_numbered (numbered : From WalEntry.sequence first entries) :
    buildWalEntryIdentities entries = .ok (indexEntries ∅ entries) :=
  buildWalEntryIdentities_of_pairwise numbered.pairwise

theorem indexes_indexEntries (numbered : From WalEntry.sequence first entries) :
    Indexes (indexEntries ∅ entries) entries := by
  intro sequence
  rw [getElem?_indexEntries numbered.pairwise]
  simp

variable {index : IdentityIndex} {front : List WalEntry}

theorem Indexes.extend {back : List WalEntry} (indexes : Indexes index front)
    (numbered : From WalEntry.sequence first (front ++ back)) :
    Indexes (index.extend (indexEntries ∅ back)) (front ++ back) := by
  intro sequence
  obtain ⟨frontNumbered, backNumbered⟩ := from_append.mp numbered
  rw [getElem?_extend, getElem?_indexEntries backNumbered.pairwise, indexes, entryAt_append]
  cases inFront : entryAt front sequence with
  | none => simp
  | some entry =>
    have absent : entryAt back sequence = none := by
      refine List.find?_eq_none.mpr ?_
      intro later member
      have frontMember := List.mem_of_find?_eq_some inFront
      have named : entry.sequence = sequence := by simpa using List.find?_some inFront
      have := frontNumbered.mem_bounds frontMember
      have := backNumbered.mem_bounds member
      simp only [decide_eq_true_eq]
      omega
    simp [absent]

theorem Indexes.insert {entry : WalEntry} (indexes : Indexes index front)
    (numbered : From WalEntry.sequence first (front ++ [entry])) :
    Indexes (index.insert entry.sequence (walEntryIdentity entry)) (front ++ [entry]) := by
  intro sequence
  obtain ⟨frontNumbered, here, -⟩ := from_append.mp numbered
  rw [Std.ExtTreeMap.getElem?_insert, entryAt_append]
  by_cases same : entry.sequence = sequence
  · have absent : entryAt front sequence = none := by
      refine List.find?_eq_none.mpr ?_
      intro earlier member
      have := frontNumbered.mem_bounds member
      simp only [decide_eq_true_eq]
      omega
    rw [if_pos (by simpa using same), absent]
    simp [entryAt, same]
  · rw [if_neg (by simpa using same), indexes sequence]
    have absent : entryAt [entry] sequence = none := by simp [entryAt, same]
    rw [absent]
    simp

namespace Engine

theorem pushUniqueWalEntry_of_after {cached : List WalEntry} {entry : WalEntry}
    (after : ∀ previous ∈ cached, previous.sequence < entry.sequence) :
    pushUniqueWalEntry cached entry = .ok (cached ++ [entry]) := by
  unfold pushUniqueWalEntry
  cases last : cached.getLast? with
  | none => rfl
  | some previous =>
    have before := after previous (List.mem_of_getLast? last)
    simp only [Nat.not_lt.mpr before.le, before.ne', if_false]

theorem foldlM_pushUniqueWalEntry {cached entries : List WalEntry}
    (ordered : (cached ++ entries).Pairwise fun a b => a.sequence < b.sequence) :
    entries.foldlM pushUniqueWalEntry cached = .ok (cached ++ entries) := by
  induction entries generalizing cached with
  | nil => simp [pure, Except.pure]
  | cons entry rest ih =>
    have pushed : pushUniqueWalEntry cached entry = .ok (cached ++ [entry]) :=
      pushUniqueWalEntry_of_after fun previous member =>
        (List.pairwise_append.mp ordered).2.2 previous member entry List.mem_cons_self
    rw [List.foldlM_cons, pushed]
    exact (ih (by simpa using ordered)).trans (by simp)

/-- `wal_entries_since` on a numbered log: the entries after a sequence, up to the limit. -/
theorem walEntriesSince_of_numbered {engine : Engine} {first : Nat}
    (numbered : From WalEntry.sequence first engine.walEntries) (afterSequence limit : Nat) :
    engine.walEntriesSince afterSequence limit =
      .ok (let entries := engine.walEntries.drop (afterSequence + 1 - first)
        if 0 < limit ∧ limit < entries.length then entries.take limit else entries) := by
  have ordered := numbered.pairwise.sublist
    (List.drop_sublist (afterSequence + 1 - first) engine.walEntries)
  unfold walEntriesSince
  rw [numbered.filter_gt, foldlM_pushUniqueWalEntry (by simpa using ordered)]
  rfl

/-- The retained entries are consecutive and end at the applied position. -/
def LogContiguous (engine : Engine) : Prop :=
  ∃ first, From WalEntry.sequence first engine.walEntries ∧
    first + engine.walEntries.length = engine.lastAppliedSequence + 1

omit [Codec] in
theorem evaluateBatch_numbered {nowMs term visible : Nat} {store final : EngineStore}
    {record record' : BatchRollback} {commands : List Command} {entries : List WalEntry}
    {results : List CommandBatchResult}
    (done : evaluateBatch store record nowMs term visible commands =
      (final, record', .ok (entries, results))) :
    From WalEntry.sequence (visible + 1) entries ∧ ∀ entry ∈ entries, entry.term = term := by
  induction commands generalizing store record visible entries results with
  | nil =>
    cases done
    exact ⟨trivial, by simp⟩
  | cons command rest ih =>
    obtain ⟨-, later, _, -, following, rfl, -⟩ := evaluateBatch_cons_ok done
    obtain ⟨numbered, terms⟩ := ih following
    split at numbered
    · rename_i written
      rw [if_pos written]
      exact ⟨⟨rfl, numbered⟩, List.forall_mem_cons.mpr ⟨rfl, terms⟩⟩
    · rename_i silent
      rw [if_neg silent]
      exact ⟨numbered, terms⟩

end Engine

end Vaylix
