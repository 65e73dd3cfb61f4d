import Vaylix.Engine.LogIndex

/-!
# The layout of a log directory

The writer keeps the directory in one shape: sealed files that hold consecutive
entries under their range, in order, and one active file after them. Appending,
rotating and sealing keep that shape, and a directory of that shape is
read back entry for entry.
-/

namespace Vaylix

open NumberedLog

def segmentEntries (segments : List SegmentFile) : List WalEntry :=
  segments.flatMap SegmentFile.entries

@[simp] theorem segmentEntries_nil : segmentEntries [] = [] := rfl

@[simp] theorem segmentEntries_cons (segment : SegmentFile) (rest : List SegmentFile) :
    segmentEntries (segment :: rest) = segment.entries ++ segmentEntries rest := rfl

@[simp] theorem segmentEntries_append (front back : List SegmentFile) :
    segmentEntries (front ++ back) = segmentEntries front ++ segmentEntries back := by
  simp [segmentEntries]

theorem segmentEntries_drop_congr {left right : List SegmentFile}
    (same : left.map SegmentFile.entries = right.map SegmentFile.entries) (n : Nat) :
    segmentEntries (left.drop (left.length - n)) =
      segmentEntries (right.drop (right.length - n)) := by
  have length : left.length = right.length := by
    simpa using congrArg List.length same
  simp only [segmentEntries, List.flatMap_def, List.map_drop, same, length]

/-- A sealed file whose name states the range it holds. -/
structure SegmentFile.Seals (first : Nat) (segment : SegmentFile) : Prop where
  start : segment.startSequence = first
  numbered : From WalEntry.sequence first segment.entries
  nonempty : 0 < segment.entries.length
  stop : segment.endSequence = segment.entries.getLast?.map WalEntry.sequence

theorem SegmentFile.Seals.active_eq {first : Nat} {segment : SegmentFile}
    (seals : segment.Seals first) : segment.active = false := by
  have nonempty : segment.entries ≠ [] := List.length_pos_iff.mp seals.nonempty
  rw [SegmentFile.active, seals.stop, List.getLast?_eq_getLast_of_ne_nil nonempty]
  rfl

def SealedFrom : Nat → List SegmentFile → Prop
  | _, [] => True
  | first, segment :: rest =>
    segment.Seals first ∧ SealedFrom (first + segment.entries.length) rest

namespace SealedFrom

variable {first : Nat} {segments front back : List SegmentFile}

/-- Sealed files continue one another. -/
theorem append_iff : SealedFrom first (front ++ back) ↔
    SealedFrom first front ∧ SealedFrom (first + (segmentEntries front).length) back := by
  induction front generalizing first with
  | nil => simp [SealedFrom]
  | cons segment rest ih =>
    simp only [List.cons_append, SealedFrom, ih, segmentEntries_cons, List.length_append,
      and_assoc, Nat.add_assoc]

variable (sealed : SealedFrom first segments)
include sealed

theorem numbered :
    From WalEntry.sequence first (segmentEntries segments) := by
  induction segments generalizing first with
  | nil => trivial
  | cons segment rest ih =>
    rw [segmentEntries_cons, from_append]
    exact ⟨sealed.1.numbered, ih sealed.2⟩

theorem seals_of_mem {segment : SegmentFile} (member : segment ∈ segments) :
    segment.Seals segment.startSequence ∧ first ≤ segment.startSequence ∧
      segment.startSequence + segment.entries.length ≤
        first + (segmentEntries segments).length := by
  induction segments generalizing first with
  | nil => cases member
  | cons head rest ih =>
    rw [segmentEntries_cons, List.length_append]
    rcases List.mem_cons.mp member with rfl | later
    · have start := sealed.1.start
      exact ⟨start ▸ sealed.1, by omega⟩
    · obtain ⟨seals, bounds⟩ := ih sealed.2 later
      exact ⟨seals, by omega⟩

theorem active_eq {segment : SegmentFile} (member : segment ∈ segments) :
    segment.active = false :=
  (sealed.seals_of_mem member).1.active_eq

theorem pairwise :
    segments.Pairwise fun a b => a.startSequence < b.startSequence := by
  induction segments generalizing first with
  | nil => exact .nil
  | cons head rest ih =>
    refine .cons ?_ (ih sealed.2)
    intro later member
    have start := sealed.1.start
    have nonempty := sealed.1.nonempty
    have := (sealed.2.seals_of_mem member).2
    omega

theorem drop (removed : Nat) :
    SealedFrom (first + (segmentEntries (segments.take removed)).length) (segments.drop removed) ∧
      segmentEntries segments =
        segmentEntries (segments.take removed) ++ segmentEntries (segments.drop removed) := by
  constructor
  · rw [← List.take_append_drop removed segments, append_iff] at sealed
    exact sealed.2
  · rw [← segmentEntries_append, List.take_append_drop]

theorem listSegments_eq :
    WalDir.listSegments segments = segments :=
  (sealed.pairwise.imp fun before => Or.inl before).insertionSort_eq

theorem filter_active_eq :
    segments.filter SegmentFile.active = [] :=
  List.filter_eq_nil_iff.mpr fun segment member => by simp [sealed.active_eq member]

end SealedFrom

structure Layout (first : Nat) (sealed : List SegmentFile) (active : SegmentFile) : Prop where
  sealedFrom : SealedFrom first sealed
  unsealed : active.endSequence = none
  start : active.startSequence = first + (segmentEntries sealed).length
  numbered : From WalEntry.sequence active.startSequence active.entries

namespace Layout

variable {first : Nat} {sealed : List SegmentFile} {active : SegmentFile}

variable (layout : Layout first sealed active)
include layout

theorem active_eq : active.active = true := by
  rw [SegmentFile.active, layout.unsealed]
  rfl

theorem entries_numbered :
    From WalEntry.sequence first (segmentEntries sealed ++ active.entries) := by
  rw [from_append, ← layout.start]
  exact ⟨layout.sealedFrom.numbered, layout.numbered⟩

theorem pairwise :
    (sealed ++ [active]).Pairwise fun a b => a.startSequence < b.startSequence := by
  refine List.pairwise_append.mpr ⟨layout.sealedFrom.pairwise, List.pairwise_singleton _ _, ?_⟩
  intro segment member last isLast
  obtain rfl := List.mem_singleton.mp isLast
  obtain ⟨seals, bounds⟩ := layout.sealedFrom.seals_of_mem member
  have := seals.nonempty
  have := layout.start
  omega

theorem listSegments_eq :
    WalDir.listSegments (sealed ++ [active]) = sealed ++ [active] :=
  (layout.pairwise.imp fun before => Or.inl before).insertionSort_eq

theorem activeSegmentFile_eq :
    WalDir.activeSegmentFile (sealed ++ [active]) = some active := by
  have none : sealed.find? SegmentFile.active = none :=
    List.find?_eq_none.mpr fun segment member => by simp [layout.sealedFrom.active_eq member]
  rw [WalDir.activeSegmentFile, layout.listSegments_eq, List.find?_append, none]
  simp [layout.active_eq]

theorem updateActive_eq (change : SegmentFile → SegmentFile) :
    WalDir.updateActive (sealed ++ [active]) active.startSequence change =
      sealed ++ [change active] := by
  have same : sealed.map (fun segment => if segment.active &&
      decide (segment.startSequence = active.startSequence) then change segment else segment) =
        sealed := by
    refine (List.map_congr_left ?_).trans (List.map_id _)
    intro segment member
    simp [layout.sealedFrom.active_eq member]
  rw [WalDir.updateActive, List.map_append, same]
  simp [layout.active_eq]

theorem sealedFrom_seal {last : WalEntry} (final : active.entries.getLast? = some last) :
    SealedFrom first (sealed ++ [{ active with endSequence := some last.sequence }]) := by
  have nonempty : active.entries ≠ [] := by
    rintro empty
    rw [empty] at final
    cases final
  refine SealedFrom.append_iff.mpr ⟨layout.sealedFrom, ⟨layout.start, ?_, ?_, ?_⟩, trivial⟩
  · rw [← layout.start]
    exact layout.numbered
  · exact List.length_pos_iff.mpr nonempty
  · rw [final]
    rfl

end Layout

namespace SealedFrom

variable {first : Nat} {sealed : List SegmentFile}

theorem fresh (sealedFrom : SealedFrom first sealed) {start : Nat}
    (next : start = first + (segmentEntries sealed).length) :
    Layout first sealed ⟨start, none, []⟩ :=
  ⟨sealedFrom, rfl, next, trivial⟩

theorem createActiveSegment_eq (sealedFrom : SealedFrom first sealed) (start : Nat) :
    WalDir.createActiveSegment sealed start = sealed ++ [⟨start, none, []⟩] := by
  have none : WalDir.hasActive sealed start = false := by
    refine List.any_eq_false.mpr ?_
    intro segment member
    simp [sealedFrom.active_eq member]
  simp [WalDir.createActiveSegment, none]

end SealedFrom

namespace Layout

variable {first : Nat} {sealed : List SegmentFile} {active : SegmentFile} {entry : WalEntry}

theorem extend (layout : Layout first sealed active)
    (next : entry.sequence = first + (segmentEntries sealed ++ active.entries).length) :
    Layout first sealed { active with entries := active.entries ++ [entry] } := by
  have position : entry.sequence = active.startSequence + active.entries.length := by
    rw [next, List.length_append, layout.start]
    omega
  exact ⟨layout.sealedFrom, layout.unsealed, layout.start,
    from_append.mpr ⟨layout.numbered, position, trivial⟩⟩

theorem seal_extended (layout : Layout first sealed active)
    (next : entry.sequence = first + (segmentEntries sealed ++ active.entries).length) :
    SealedFrom first
        (sealed ++ [⟨active.startSequence, some entry.sequence, active.entries ++ [entry]⟩]) ∧
      entry.sequence + 1 = first + (segmentEntries
        (sealed ++ [⟨active.startSequence, some entry.sequence,
          active.entries ++ [entry]⟩])).length := by
  have last : (active.entries ++ [entry]).getLast? = some entry := by simp
  refine ⟨(layout.extend next).sealedFrom_seal last, ?_⟩
  rw [List.length_append] at next
  simp only [segmentEntries_append, segmentEntries_cons, segmentEntries_nil, List.append_nil,
    List.length_append, List.length_singleton]
  omega

end Layout

/-- The directory holds exactly `entries`, and the writer has its active file open. -/
def Stores (first : Nat) (dir : WalDir) (writer : WalWriter) (entries : List WalEntry) : Prop :=
  ∃ sealed active, dir = sealed ++ [active] ∧ Layout first sealed active ∧
    writer.activeStart = active.startSequence ∧ segmentEntries sealed ++ active.entries = entries

namespace Stores

theorem fresh (first fileLen : Nat) : Stores first [⟨first, none, []⟩] ⟨first, fileLen⟩ [] :=
  ⟨[], ⟨first, none, []⟩, rfl, ⟨trivial, rfl, rfl, trivial⟩, rfl, rfl⟩

variable {first : Nat} {dir : WalDir} {writer : WalWriter} {entries : List WalEntry}
  (stores : Stores first dir writer entries)
include stores

theorem numbered : From WalEntry.sequence first entries := by
  obtain ⟨sealed, active, -, layout, -, rfl⟩ := stores
  exact layout.entries_numbered

variable [Codec]

theorem appendEntry (maxSegmentSizeBytes : Nat) {entry : WalEntry}
    (next : entry.sequence = first + entries.length) :
    Stores first (WalWriter.appendEntry maxSegmentSizeBytes dir writer entry).1
      (WalWriter.appendEntry maxSegmentSizeBytes dir writer entry).2 (entries ++ [entry]) := by
  obtain ⟨sealed, active, rfl, layout, opened, rfl⟩ := stores
  have extended := layout.extend next
  unfold WalWriter.appendEntry
  dsimp only
  rw [opened, layout.updateActive_eq]
  split
  · -- The file has reached the limit: it is sealed and the next one starts.
    obtain ⟨sealedFrom, after⟩ := layout.seal_extended next
    refine ⟨_, _, ?_, sealedFrom.fresh after, rfl, by simp⟩
    have update := extended.updateActive_eq fun segment =>
      { segment with endSequence := some entry.sequence }
    rw [WalWriter.rotateAfter, update]
    exact sealedFrom.createActiveSegment_eq _
  · exact ⟨sealed, _, rfl, extended, rfl, by simp⟩

theorem appendBatch (maxSegmentSizeBytes : Nat) {added : List WalEntry}
    (next : From WalEntry.sequence (first + entries.length) added) :
    Stores first (WalWriter.appendBatch maxSegmentSizeBytes dir writer added).1
      (WalWriter.appendBatch maxSegmentSizeBytes dir writer added).2 (entries ++ added) := by
  induction added generalizing dir writer entries with
  | nil => simpa [WalWriter.appendBatch] using stores
  | cons entry rest ih =>
    have stored := stores.appendEntry maxSegmentSizeBytes next.1
    have following := ih stored (by
      rw [List.length_append, List.length_singleton]
      exact next.2)
    rw [List.append_assoc] at following
    exact following

theorem reopened (startSequence : Nat) :
    Stores first (WalWriter.open dir startSequence).1 (WalWriter.open dir startSequence).2
      entries := by
  obtain ⟨sealed, active, rfl, layout, -, held⟩ := stores
  rw [WalWriter.open, layout.activeSegmentFile_eq]
  exact ⟨sealed, active, rfl, layout, rfl, held⟩

end Stores

def Engine.LogStored (engine : Engine) : Prop :=
  ∃ first, Stores first engine.disk.walDir engine.writer engine.walEntries ∧
    first + engine.walEntries.length = engine.lastAppliedSequence + 1

namespace WalDir

variable {expected : Option Nat} {entries : List WalEntry}

theorem checkContiguous_of_numbered {first : Nat} (numbered : From WalEntry.sequence first entries)
    (expects : ∀ n, expected = some n → n = first) (nonempty : entries ≠ []) :
    checkContiguous expected entries = .ok (some (first + entries.length)) := by
  induction entries generalizing expected first with
  | nil => exact absurd rfl nonempty
  | cons entry rest ih =>
    have here : checkContiguous expected (entry :: rest) =
        checkContiguous (some (entry.sequence + 1)) rest := by
      cases expected with
      | none => rfl
      | some n =>
        have same : entry.sequence = n := numbered.1.trans (expects n rfl).symm
        simp [checkContiguous, same]
    rw [here, numbered.1]
    by_cases last : rest = []
    · subst last
      rfl
    · rw [ih numbered.2 (by rintro n ⟨⟩; rfl) last, List.length_cons]
      congr 2
      omega

variable [Codec]

/-- The reader takes every entry of the list. -/
def Readable (entries : List WalEntry) : Prop :=
  ∀ entry ∈ entries, Codec.durableLen entry ≤ maxWalEntrySize

theorem Readable.mono {fewer : List WalEntry} (readable : Readable entries)
    (subset : ∀ entry ∈ fewer, entry ∈ entries) : Readable fewer :=
  fun entry member => readable entry (subset entry member)

variable {segment : SegmentFile}

theorem readSegmentEntries_of_readable (readable : Readable segment.entries) :
    readSegmentEntries segment = .ok segment.entries := by
  have none : segment.entries.find?
      (fun entry => decide (maxWalEntrySize < Codec.durableLen entry)) = none := by
    refine List.find?_eq_none.mpr ?_
    intro entry member
    have := readable entry member
    simp only [decide_eq_true_eq]
    omega
  simp [readSegmentEntries, none]

theorem readSegmentEntries_ok (read : readSegmentEntries segment = .ok entries) :
    entries = segment.entries := by
  unfold readSegmentEntries at read
  split at read
  · cases read
  · exact (Except.ok.inj read).symm

theorem replaySegment_of_numbered (readable : Readable segment.entries)
    (nonempty : segment.entries ≠ [])
    (numbered : From WalEntry.sequence segment.startSequence segment.entries)
    (stop : ∀ n, segment.endSequence = some n →
      segment.entries.getLast?.map WalEntry.sequence = some n)
    (expects : ∀ n, expected = some n → n = segment.startSequence) :
    replaySegment expected segment =
      .ok (some (segment.startSequence + segment.entries.length), segment.entries) := by
  obtain ⟨head, rest, shape⟩ := List.exists_cons_of_ne_nil nonempty
  have start : head.sequence = segment.startSequence := by
    rw [shape] at numbered
    exact numbered.1
  have last := List.getLast?_eq_getLast_of_ne_nil nonempty
  have ends : (segment.endSequence.any fun stop =>
      decide ((segment.entries.getLast nonempty).sequence ≠ stop)) = false := by
    cases named : segment.endSequence with
    | none => rfl
    | some n =>
      have same := stop n named
      rw [last, Option.map_some, Option.some.injEq] at same
      simp [same]
  have first : segment.entries.head? = some head := by rw [shape]; rfl
  simp only [replaySegment, readSegmentEntries_of_readable readable, first, last, start, ne_eq,
    not_true_eq_false, if_false]
  rw [if_neg (by simpa using ends), checkContiguous_of_numbered numbered expects nonempty]

end WalDir

namespace SealedFrom

variable [Codec] {first : Nat} {sealed : List SegmentFile}

/-- Sealed files are read back entry for entry, before the files behind them. -/
theorem replaySegments_append (sealedFrom : SealedFrom first sealed) {expected : Option Nat}
    (expects : ∀ n, expected = some n → n = first)
    (readable : WalDir.Readable (segmentEntries sealed)) :
    ∃ after, (∀ n, after = some n → n = first + (segmentEntries sealed).length) ∧
      ∀ behind entries, WalDir.replaySegments after behind = .ok entries →
        WalDir.replaySegments expected (sealed ++ behind) =
          .ok (segmentEntries sealed ++ entries) := by
  induction sealed generalizing first expected with
  | nil => exact ⟨expected, by simpa using expects, fun _ _ replayed => replayed⟩
  | cons segment rest ih =>
    obtain ⟨seals, following⟩ := sealedFrom
    have replayed := WalDir.replaySegment_of_numbered
      (readable.mono fun entry member => by simp [member])
      (List.length_pos_iff.mp seals.nonempty) (by rw [seals.start]; exact seals.numbered)
      (fun n named => by rw [← named, seals.stop]) (by rw [seals.start]; exact expects)
    have reached : ∀ n, some (segment.startSequence + segment.entries.length) = some n →
        n = first + segment.entries.length := by
      rintro n ⟨⟩
      rw [seals.start]
    obtain ⟨after, ends, later⟩ := ih following reached (readable.mono fun entry member => by
      exact List.mem_append_right _ member)
    refine ⟨after, ?_, ?_⟩
    · intro n named
      rw [ends n named, segmentEntries_cons, List.length_append, Nat.add_assoc]
    · intro behind entries read
      simp [WalDir.replaySegments, replayed, later behind entries read]

/-- Sealed files read back as their entries. -/
theorem replay_eq (sealedFrom : SealedFrom first sealed)
    (readable : WalDir.Readable (segmentEntries sealed)) :
    WalDir.replay sealed = .ok (segmentEntries sealed) := by
  obtain ⟨after, -, replayed⟩ :=
    sealedFrom.replaySegments_append (fun n (named : none = some n) => by cases named) readable
  have read := replayed [] [] rfl
  simp only [WalDir.replay, sealedFrom.listSegments_eq, sealedFrom.filter_active_eq]
  simpa using read

end SealedFrom

namespace Layout

variable [Codec] {first : Nat} {sealed : List SegmentFile} {active : SegmentFile}

theorem replaySegments_active (layout : Layout first sealed active) {expected : Option Nat}
    (expects : ∀ n, expected = some n → n = first + (segmentEntries sealed).length)
    (readable : WalDir.Readable active.entries) :
    WalDir.replaySegments expected [active] = .ok active.entries := by
  by_cases empty : active.entries = []
  · have nothing : WalDir.replaySegment expected active = .ok (expected, []) := by
      simp [WalDir.replaySegment, WalDir.readSegmentEntries, empty, layout.active_eq]
    simp [WalDir.replaySegments, nothing, empty]
  · have replayed := WalDir.replaySegment_of_numbered readable empty layout.numbered
      (by rw [layout.unsealed]; rintro n ⟨⟩) (by rw [layout.start]; exact expects)
    simp [WalDir.replaySegments, replayed]

/-- The whole directory reads back as its entries. -/
theorem replay_eq (layout : Layout first sealed active)
    (readable : WalDir.Readable (segmentEntries sealed ++ active.entries)) :
    WalDir.replay (sealed ++ [active]) = .ok (segmentEntries sealed ++ active.entries) := by
  have count : ((sealed ++ [active]).filter SegmentFile.active).length = 1 := by
    simp [List.filter_append, layout.sealedFrom.filter_active_eq, layout.active_eq]
  obtain ⟨after, ends, replayed⟩ :=
    layout.sealedFrom.replaySegments_append (fun n (named : none = some n) => by cases named)
      (readable.mono fun entry member => List.mem_append_left _ member)
  have last := layout.replaySegments_active ends
    (readable.mono fun entry member => List.mem_append_right _ member)
  simp only [WalDir.replay, layout.listSegments_eq, count]
  exact replayed [active] active.entries last

end Layout

def sealedAll (sealed : List SegmentFile) (active : SegmentFile) : List SegmentFile :=
  match active.entries.getLast? with
  | none => sealed
  | some last => sealed ++ [{ active with endSequence := some last.sequence }]

namespace Layout

variable {first : Nat} {sealed : List SegmentFile} {active : SegmentFile}

theorem sealedFrom_sealedAll (layout : Layout first sealed active) :
    SealedFrom first (sealedAll sealed active) := by
  unfold sealedAll
  cases final : active.entries.getLast? with
  | none => exact layout.sealedFrom
  | some last => exact layout.sealedFrom_seal final

theorem segmentEntries_sealedAll (sealed : List SegmentFile) (active : SegmentFile) :
    segmentEntries (sealedAll sealed active) = segmentEntries sealed ++ active.entries := by
  unfold sealedAll
  cases final : active.entries.getLast? with
  | none => simp [List.getLast?_eq_none_iff.mp final]
  | some last => simp

theorem map_entries_sealedAll (layout : Layout first sealed active) :
    (sealedAll sealed active).map SegmentFile.entries =
      ((sealed ++ [active]).filter fun segment => !segment.entries.isEmpty).map
        SegmentFile.entries := by
  have kept : sealed.filter (fun segment => !segment.entries.isEmpty) = sealed := by
    refine List.filter_eq_self.mpr fun segment member => ?_
    simpa using List.length_pos_iff.mp (layout.sealedFrom.seals_of_mem member).1.nonempty
  rw [List.filter_append, kept, sealedAll]
  cases final : active.entries.getLast? with
  | none =>
    have empty := List.getLast?_eq_none_iff.mp final
    simp [empty]
  | some last =>
    have nonempty : active.entries ≠ [] := by
      intro empty
      rw [empty] at final
      cases final
    simp [nonempty]

theorem sealActive_eq [Codec] (layout : Layout first sealed active)
    (readable : WalDir.Readable active.entries) :
    WalDir.sealActive (sealed ++ [active]) = .ok (sealedAll sealed active) := by
  simp only [WalDir.sealActive, layout.activeSegmentFile_eq,
    WalDir.readSegmentEntries_of_readable readable, sealedAll]
  cases final : active.entries.getLast? with
  | none =>
    have kept : sealed.filter (fun segment => !(segment.active &&
        decide (segment.startSequence = active.startSequence))) = sealed := by
      refine List.filter_eq_self.mpr ?_
      intro segment member
      simp [layout.sealedFrom.active_eq member]
    rw [List.filter_append, kept]
    simp [layout.active_eq]
  | some last => simp only [layout.updateActive_eq]

end Layout

end Vaylix
