import Vaylix.Engine.Recovery

/-!
# Pruning sealed segments

Pruning removes the oldest sealed files and leaves alone one that has a given sequence in its
range. Files behind that one are removed all the same, so the log stays whole only if it is the
last of the files that are looked at, or none of them.
-/

namespace Vaylix

open NumberedLog

namespace WalDir

def sealedFiles (dir : WalDir) : List SegmentFile :=
  dir.listSegments.filter fun segment => !segment.active

def removeOldest (dir : WalDir) (removed : Nat) : WalDir :=
  dir.filter fun segment => decide (segment ∉ dir.sealedFiles.take removed)

theorem pruneSealedSegments_eq_removeOldest (dir : WalDir) (retainSegments : Nat) :
    dir.pruneSealedSegments retainSegments =
      dir.removeOldest (dir.sealedFiles.length - retainSegments) := rfl

end WalDir

namespace Layout

variable {first : Nat} {sealed : List SegmentFile} {active : SegmentFile}
  (layout : Layout first sealed active)
include layout

theorem sealedFiles_eq : WalDir.sealedFiles (sealed ++ [active]) = sealed := by
  have all : sealed.filter (fun segment => !segment.active) = sealed :=
    List.filter_eq_self.mpr fun segment member => by simp [layout.sealedFrom.active_eq member]
  rw [WalDir.sealedFiles, layout.listSegments_eq, List.filter_append, all]
  simp [layout.active_eq]

theorem filter_notMem_eq (count : Nat) (selected : SegmentFile → Bool) :
    (sealed ++ [active]).filter
        (fun segment => decide (segment ∉ (sealed.take count).filter selected)) =
      (sealed.take count).filter (fun segment => !selected segment) ++ sealed.drop count ++
        [active] := by
  have apart := layout.pairwise
  rw [← List.take_append_drop count sealed, List.append_assoc, List.pairwise_append] at apart
  have behind : ∀ segment ∈ sealed.drop count ++ [active], segment ∉ sealed.take count :=
    fun segment member before => lt_irrefl _ (apart.2.2 segment before segment member)
  conv_lhs => rw [← List.take_append_drop count sealed]
  rw [List.append_assoc, List.filter_append, List.append_assoc, List.take_append_drop]
  congr 1
  · refine List.filter_congr fun segment member => ?_
    simp [member]
  · refine List.filter_eq_self.mpr fun segment member => ?_
    simp [behind segment member]

theorem removeOldest_eq (removed : Nat) :
    WalDir.removeOldest (sealed ++ [active]) removed = sealed.drop removed ++ [active] := by
  simpa [WalDir.removeOldest, layout.sealedFiles_eq] using
    layout.filter_notMem_eq removed fun _ => true

theorem pruneSealedSegments_eq (retainSegments : Nat) :
    WalDir.pruneSealedSegments (sealed ++ [active]) retainSegments =
      sealed.drop (sealed.length - retainSegments) ++ [active] := by
  rw [WalDir.pruneSealedSegments_eq_removeOldest, layout.sealedFiles_eq, layout.removeOldest_eq]

theorem pruneSealedSegmentsWithFloor_eq (retainSegments : Nat) (floor : Option Nat) :
    (WalDir.pruneSealedSegmentsWithFloor (sealed ++ [active]) retainSegments floor).2 =
      (sealed.take (sealed.length - retainSegments)).filter
          (fun segment => floor.any segment.spans) ++
        sealed.drop (sealed.length - retainSegments) ++ [active] := by
  have listed : (WalDir.listSegments (sealed ++ [active])).filter (fun segment => !segment.active) =
      sealed := layout.sealedFiles_eq
  have kept := layout.filter_notMem_eq (sealed.length - retainSegments)
    fun segment => !floor.any segment.spans
  simpa only [WalDir.pruneSealedSegmentsWithFloor, listed, Bool.not_not] using kept

omit layout in
theorem behind {gone kept : List SegmentFile} (layout : Layout first (gone ++ kept) active) :
    Layout (first + (segmentEntries gone).length) kept active := by
  refine ⟨(SealedFrom.append_iff.mp layout.sealedFrom).2, layout.unsealed, ?_, layout.numbered⟩
  rw [layout.start, segmentEntries_append, List.length_append, Nat.add_assoc]

end Layout

theorem SegmentFile.Seals.spans_iff {first sequence : Nat} {segment : SegmentFile}
    (seals : segment.Seals first) : segment.spans sequence = true ↔
      first ≤ sequence ∧ sequence < first + segment.entries.length := by
  have final := List.getLast?_eq_some_getLast (List.length_pos_iff.mp seals.nonempty)
  have ends := seals.numbered.getLast?_number final
  simp only [spans, seals.start, seals.stop, final, Option.map_some, Option.getD_some,
    decide_eq_true_eq]
  omega

/-- The log is read back, as the end of what it was, with everything from the floor on. -/
def WalDir.KeepsReplayable [Codec] (dir pruned : WalDir) (floor : Option Nat) : Prop :=
  ∃ before kept, dir.replay = .ok before ∧ pruned.replay = .ok kept ∧ kept <:+ before ∧
    ∀ minimum ∈ floor, ∀ entry ∈ before, minimum ≤ entry.sequence → entry ∈ kept

section Floors

variable [Codec] {first minimum : Nat} {gone kept front back : List SegmentFile}
  {active last : SegmentFile} {floor : Option Nat}

theorem keepsReplayable_of_below (layout : Layout first (gone ++ kept) active)
    (readable : WalDir.Readable (segmentEntries (gone ++ kept) ++ active.entries))
    (below : ∀ minimum ∈ floor, ∀ entry ∈ segmentEntries gone, entry.sequence < minimum) :
    WalDir.KeepsReplayable (gone ++ kept ++ [active]) (kept ++ [active]) floor := by
  have held : segmentEntries (gone ++ kept) ++ active.entries =
      segmentEntries gone ++ (segmentEntries kept ++ active.entries) := by simp
  have before := layout.replay_eq readable
  rw [held] at before readable
  refine ⟨_, _, before, layout.behind.replay_eq (readable.mono fun entry member =>
    List.mem_append_right _ member), List.suffix_append _ _, ?_⟩
  intro minimum floored entry member reaches
  rcases List.mem_append.mp member with early | late
  · exact absurd (below minimum floored entry early) (not_lt.mpr reaches)
  · exact late

variable (layout : Layout first (front ++ [last] ++ back) active)
  (readable : WalDir.Readable (segmentEntries (front ++ [last] ++ back) ++ active.entries))
include layout readable

theorem keepsReplayable_of_le (reaches : last.startSequence ≤ minimum) :
    WalDir.KeepsReplayable (front ++ [last] ++ back ++ [active])
      ((front ++ [last]).filter (fun segment => segment.spans minimum) ++ back ++ [active])
      (some minimum) := by
  obtain ⟨⟨before, seals, -⟩, -⟩ :=
    SealedFrom.append_iff.mp layout.sealedFrom |>.imp_left SealedFrom.append_iff.mp
  have start := seals.start
  have early : front.filter (fun segment => segment.spans minimum) = [] := by
    refine List.filter_eq_nil_iff.mpr fun segment member spans => ?_
    obtain ⟨seals, bounds⟩ := before.seals_of_mem member
    have := seals.spans_iff.mp spans
    omega
  have below : ∀ entry ∈ segmentEntries front, entry.sequence < minimum := by
    intro entry member
    have := before.numbered.mem_bounds member
    omega
  rw [List.filter_append, early, List.nil_append]
  by_cases spans : last.spans minimum = true
  · rw [List.append_assoc] at layout readable ⊢
    simpa [spans] using keepsReplayable_of_below layout readable
      (by rintro _ ⟨⟩; exact below)
  · have beyond := mt seals.spans_iff.mpr spans
    simpa [spans] using keepsReplayable_of_below layout readable (by
      rintro _ ⟨⟩ entry member
      rw [segmentEntries_append, List.mem_append] at member
      rcases member with member | member
      · exact below entry member
      · have := seals.numbered.mem_bounds (by simpa using member)
        omega)

theorem le_of_keepsReplayable (keeps : WalDir.KeepsReplayable (front ++ [last] ++ back ++ [active])
      ((front ++ [last]).filter (fun segment => segment.spans minimum) ++ back ++ [active])
      (some minimum)) : last.startSequence ≤ minimum := by
  obtain ⟨⟨before, seals, -⟩, -⟩ :=
    SealedFrom.append_iff.mp layout.sealedFrom |>.imp_left SealedFrom.append_iff.mp
  by_contra below
  obtain ⟨entry, rest, held⟩ := List.exists_cons_of_ne_nil (List.length_pos_iff.mp seals.nonempty)
  have sequence : entry.sequence = last.startSequence := by
    have numbered := seals.numbered
    rw [held] at numbered
    exact numbered.1.trans seals.start.symm
  obtain ⟨all, kept, replayed, pruned, -, holds⟩ := keeps
  obtain rfl := Except.ok.inj ((layout.replay_eq readable).symm.trans replayed)
  have member := holds minimum rfl entry (by simp [held]) (by omega)
  rw [(WalDir.replay_ok pruned).1] at member
  obtain ⟨file, listed, inside⟩ := List.mem_flatMap.mp member
  rw [WalDir.listSegments, List.mem_insertionSort, List.append_assoc, List.mem_append] at listed
  rcases listed with earlier | later
  · obtain ⟨one, spans⟩ := List.mem_filter.mp earlier
    rcases List.mem_append.mp one with early | same
    · have := before.numbered.mem_bounds (List.mem_flatMap.mpr ⟨file, early, inside⟩)
      have := seals.start
      omega
    · rw [List.mem_singleton.mp same, SegmentFile.spans, decide_eq_true_eq] at spans
      omega
  · have late : entry ∈ segmentEntries back ++ active.entries := by
      rcases List.mem_append.mp later with sealed | same
      · exact List.mem_append_left _ (List.mem_flatMap.mpr ⟨file, sealed, inside⟩)
      · rw [List.mem_singleton.mp same] at inside
        exact List.mem_append_right _ inside
    have := layout.behind.entries_numbered.mem_bounds late
    simp only [segmentEntries_append, segmentEntries_cons, held, List.length_append,
      List.length_cons] at this
    have := seals.start
    omega

omit layout readable

/-- **Pruning keeps the log exactly if the floor is not below the last file that is looked at**: a
floor in an earlier one keeps that file and not the files behind it. -/
theorem pruned_log_replayable_iff {sealed : List SegmentFile} (layout : Layout first sealed active)
    (readable : WalDir.Readable (segmentEntries sealed ++ active.entries)) (retainSegments : Nat)
    (floor : Option Nat) :
    WalDir.KeepsReplayable (sealed ++ [active])
        (WalDir.pruneSealedSegmentsWithFloor (sealed ++ [active]) retainSegments floor).2 floor ↔
      ∀ minimum ∈ floor, ∀ last ∈ (sealed.take (sealed.length - retainSegments)).getLast?,
        last.startSequence ≤ minimum := by
  rw [layout.pruneSealedSegmentsWithFloor_eq]
  have split := List.take_append_drop (sealed.length - retainSegments) sealed
  generalize sealed.take (sealed.length - retainSegments) = gone at *
  generalize sealed.drop (sealed.length - retainSegments) = kept at *
  subst split
  cases floor with
  | none =>
    refine iff_of_true ?_ (by rintro _ ⟨⟩)
    simpa using keepsReplayable_of_below layout readable (by rintro _ ⟨⟩)
  | some minimum =>
    rcases List.eq_nil_or_concat gone with rfl | ⟨front, last, rfl⟩
    · refine iff_of_true ?_ (by simp)
      exact keepsReplayable_of_below layout readable (by simp)
    · rw [List.concat_eq_append] at layout readable ⊢
      simp only [Option.any_some, Option.mem_some_iff, forall_eq', List.getLast?_concat]
      exact ⟨le_of_keepsReplayable layout readable, keepsReplayable_of_le layout readable⟩

end Floors

section Samples

open Sample

def Sample.oneEntryFile (sequence : Nat) : SegmentFile :=
  ⟨sequence, some sequence, [⟨sequence, 1, 0, []⟩]⟩

theorem Sample.layout_oneEntryFile :
    Layout 1 [oneEntryFile 1, oneEntryFile 2, oneEntryFile 3] ⟨4, none, [⟨4, 1, 0, []⟩]⟩ :=
  have seals (sequence : Nat) : (oneEntryFile sequence).Seals sequence :=
    ⟨rfl, ⟨rfl, trivial⟩, Nat.one_pos, rfl⟩
  ⟨⟨seals 1, seals 2, seals 3, trivial⟩, rfl, rfl, rfl, trivial⟩

/-- One of three files is retained, and the floor lies in the second. -/
theorem pruned_log_replayable_second :
    let files := [oneEntryFile 1, oneEntryFile 2, oneEntryFile 3, ⟨4, none, [⟨4, 1, 0, []⟩]⟩]
    WalDir.KeepsReplayable files (WalDir.pruneSealedSegmentsWithFloor files 1 (some 2)).2
      (some 2) :=
  (pruned_log_replayable_iff layout_oneEntryFile (by unfold WalDir.Readable; decide) 1
    (some 2)).mpr (by decide)

/-- None is retained: the third file is removed and the second stays. -/
theorem pruning_leaves_gap :
    let files := [oneEntryFile 1, oneEntryFile 2, oneEntryFile 3, ⟨4, none, [⟨4, 1, 0, []⟩]⟩]
    ¬ WalDir.KeepsReplayable files (WalDir.pruneSealedSegmentsWithFloor files 0 (some 2)).2
      (some 2) := by
  rintro files ⟨_, _, -, replayed, -⟩
  have gap : WalDir.replay (WalDir.pruneSealedSegmentsWithFloor files 0 (some 2)).2 =
      .error (.walDeserialize "non-contiguous WAL sequence: expected 3, found 4") := by
    decide +kernel
  rw [gap] at replayed
  cases replayed

end Samples

end Vaylix
