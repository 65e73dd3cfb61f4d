import Vaylix.Engine.WholeLog
import Vaylix.Server.AppendHandler

/-!
# What an accepted request leaves in the log

The carried entries continue the previous one. Whatever the follower had behind the
previous entry, it ends up with the carried entries there and nothing after them,
provided that an own entry with the identity of a carried one is that entry.
-/

namespace Vaylix

open NumberedLog

namespace Engine

variable [Codec]

/-- An own entry with the identity of a carried one is that entry. -/
def Recognizes (engine : Engine) (entries : List WalEntry) : Prop :=
  ∀ own ∈ engine.walEntries, ∀ entry ∈ entries, own.sequence = entry.sequence →
    own.term = entry.term → own.checksum = entry.checksum → own = entry

/-- Where the search for the first unknown entry ends: the entries before are the follower's
own. -/
inductive Overlapped (engine : Engine) (sequence : Nat) (entries : List WalEntry) : Overlap → Prop
  | conflict (known : Nat) (inside : sequence + known ≤ engine.lastAppliedSequence)
      (same : engine.Recognizes entries →
        engine.logUpTo (sequence + known) = engine.logUpTo sequence ++ entries.take known)
      (before : known < entries.length) :
      Overlapped engine sequence entries (.conflict (sequence + known))
  | matched (known : Nat) (inside : sequence + known ≤ engine.lastAppliedSequence)
      (same : engine.Recognizes entries →
        engine.logUpTo (sequence + known) = engine.logUpTo sequence ++ entries.take known)
      (ends : known = entries.length ∨
        (known < entries.length ∧ engine.lastAppliedSequence = sequence + known)) :
      Overlapped engine sequence entries (.matched (sequence + known))

variable {engine : Engine} {sequence : Nat} {entries : List WalEntry}

theorem overlapped_findOverlap (logged : engine.Logged)
    (numbered : From WalEntry.sequence (sequence + 1) entries)
    (inside : sequence ≤ engine.lastAppliedSequence) :
    Overlapped engine sequence entries (engine.findOverlap sequence entries) := by
  induction entries generalizing sequence with
  | nil => exact .matched 0 inside (by simp) (.inl rfl)
  | cons entry rest ih =>
    obtain ⟨here, following⟩ := numbered
    unfold findOverlap
    rw [here]
    split
    · exact .matched 0 inside (by simp) (.inr ⟨by simp, by omega⟩)
    · rename_i reached
      obtain ⟨term, checksum⟩ := logged.identity_eq (sequence + 1)
      rw [term, checksum]
      split
      · exact .conflict 0 inside (by simp) (by simp)
      · rename_i identical
        simp only [ne_eq, not_or, not_not] at identical
        obtain ⟨own, found, sameTerm⟩ := Option.map_eq_some_iff.mp identical.1
        obtain ⟨member, position⟩ := logged.entryAt_eq_some_iff.mp found
        rw [found] at identical
        have deeper := ih following (Nat.not_lt.mp reached)
        have extend : ∀ known, (engine.Recognizes rest →
              engine.logUpTo (sequence + 1 + known) =
                engine.logUpTo (sequence + 1) ++ rest.take known) →
            engine.Recognizes (entry :: rest) → engine.logUpTo (sequence + (known + 1)) =
              engine.logUpTo sequence ++ (entry :: rest).take (known + 1) := by
          intro known same recognizes
          obtain rfl : own = entry := recognizes own member entry List.mem_cons_self
            (position.trans here.symm) sameTerm (Option.some.inj identical.2)
          have one := logged.from_compacted.1.filter_le_succ member position
          have later := same fun mine owned later inRest =>
            recognizes mine owned later (List.mem_cons_of_mem _ inRest)
          rw [Nat.add_comm known 1, ← Nat.add_assoc, later, Nat.add_comm 1, List.take_succ_cons,
            List.append_cons]
          exact congrArg (· ++ rest.take known) one.symm
        cases result : engine.findOverlap (sequence + 1) rest with
        | conflict =>
          rw [result] at deeper
          cases deeper with
          | conflict known bound same before =>
            rw [Nat.add_assoc, Nat.add_comm 1]
            exact .conflict (known + 1) (by omega) (extend known same) (by simpa using before)
        | matched =>
          rw [result] at deeper
          cases deeper with
          | matched known bound same ends =>
            rw [Nat.add_assoc, Nat.add_comm 1]
            refine .matched (known + 1) (by omega) (extend known same) ?_
            rw [List.length_cons]
            omega

/-- The log was cut behind some of the carried entries, and the others put there. Those before the
cut are the follower's own if it recognizes them. -/
def TookOver (engine : Engine) (sequence : Nat) (entries : List WalEntry) (next : Engine) : Prop :=
  ∃ known ≤ entries.length, sequence + known ≤ engine.lastAppliedSequence ∧
    engine.SuffixReplaced (sequence + known) (entries.drop known) next ∧
    (engine.Recognizes entries →
      engine.logUpTo (sequence + known) = engine.logUpTo sequence ++ entries.take known)

namespace TookOver

variable {engine next : Engine} {sequence : Nat} {entries : List WalEntry}

variable (took : engine.TookOver sequence entries next)
include took

/-- **A request that is taken over sets the log** behind the previous entry. -/
theorem suffixReplaced (numbered : From WalEntry.sequence (sequence + 1) entries)
    (recognizes : engine.Recognizes entries) : engine.SuffixReplaced sequence entries next := by
  obtain ⟨known, bound, -, replaced, same⟩ := took
  refine ⟨?_, numbered, ?_, replaced.logged, replaced.snapshot, replaced.manifest,
    replaced.stored⟩
  · rw [replaced.log, same recognizes, List.append_assoc, List.take_append_drop]
  · rw [replaced.position, List.length_drop]
    omega

theorem position :
    next.lastAppliedSequence = sequence + entries.length := by
  obtain ⟨known, bound, -, replaced, -⟩ := took
  rw [replaced.position, List.length_drop]
  omega

theorem logged : next.Logged := by
  obtain ⟨known, -, -, replaced, -⟩ := took
  exact replaced.logged

theorem whole (whole : engine.Whole) :
    next.Whole := by
  obtain ⟨known, -, inside, replaced, -⟩ := took
  exact (whole.replace replaced (whole.position ▸ inside)).1

theorem mem_or {entry : WalEntry} (member : entry ∈ next.walEntries) :
    entry ∈ engine.walEntries ∨ entry ∈ entries := by
  obtain ⟨known, -, -, replaced, -⟩ := took
  rw [replaced.log, List.mem_append] at member
  exact member.imp (fun kept => (List.mem_filter.mp kept).1) List.mem_of_mem_drop

theorem mem_of_mem (numbered : From WalEntry.sequence (sequence + 1) entries) {entry : WalEntry}
    (member : entry ∈ engine.walEntries) (spared : entry.sequence ≤ sequence ∨ entry ∈ entries) :
    entry ∈ next.walEntries := by
  obtain ⟨known, bound, -, replaced, -⟩ := took
  rw [replaced.log, List.mem_append]
  by_cases below : entry.sequence ≤ sequence + known
  · exact .inl (List.mem_filter.mpr ⟨member, decide_eq_true below⟩)
  · right
    have carried := spared.resolve_left (by omega)
    have above := numbered.filter_gt (sequence + known)
    rw [show sequence + known + 1 - (sequence + 1) = known by omega] at above
    rw [← above]
    exact List.mem_filter.mpr ⟨carried, decide_eq_true (by omega)⟩

end TookOver

theorem Logged.acceptEntries {next : Engine} (logged : engine.Logged) {nowMs applied : Nat}
    (numbered : From WalEntry.sequence (sequence + 1) entries)
    (inside : sequence ≤ engine.lastAppliedSequence)
    (done : engine.acceptEntries nowMs sequence entries = .ok (next, applied)) :
    engine.TookOver sequence entries next ∧ applied = next.lastAppliedSequence := by
  have continues : ∀ {known : Nat}, known ≤ entries.length →
      From WalEntry.sequence (sequence + known + 1) (entries.drop known) := by
    intro known bound
    rw [Nat.add_right_comm]
    exact from_drop numbered bound
  -- Every branch cuts the log at some point and puts the rest of the entries there.
  have replaced : ∀ (known : Nat) {added : List WalEntry}, known ≤ entries.length →
      sequence + known ≤ engine.lastAppliedSequence →
      (engine.Recognizes entries →
        engine.logUpTo (sequence + known) = engine.logUpTo sequence ++ entries.take known) →
      added = entries.drop known →
      engine.replaceReplicationSuffix nowMs (sequence + known) added = .ok (next, applied) →
      engine.TookOver sequence entries next ∧ applied = next.lastAppliedSequence := by
    rintro known added bound within same rfl replacing
    obtain ⟨replacement, replaced, checked, -, position⟩ :=
      suffixReplaced_of_ok logged.numbered replacing
    obtain rfl := checked.eq_of_from (continues bound)
    exact ⟨⟨known, bound, within, replaced, same⟩, position⟩
  -- The follower may have had exactly this log.
  have unchanged : (engine.Recognizes entries → engine.logUpTo (sequence + entries.length) =
        engine.logUpTo sequence ++ entries) →
      engine.lastAppliedSequence = sequence + entries.length →
      engine.TookOver sequence entries engine := by
    intro same position
    refine ⟨entries.length, le_rfl, position.ge, ⟨?_, ?_, ?_, logged, rfl, rfl, id⟩, ?_⟩
    · rw [List.drop_length, List.append_nil, logged.logUpTo_eq_self position.le]
    · rw [List.drop_length]
      trivial
    · rw [List.drop_length, position]
      rfl
    · rw [List.take_length]
      exact same
  unfold Engine.acceptEntries at done
  split at done
  · rename_i empty
    obtain rfl := List.isEmpty_iff.mp empty
    split at done
    · exact replaced 0 le_rfl inside (by simp) rfl done
    · rename_i short
      cases done
      exact ⟨unchanged (by simp) (Nat.le_antisymm (Nat.not_lt.mp short) inside), rfl⟩
  · have overlapped := overlapped_findOverlap logged numbered inside
    split at done
    · rename_i point found
      rw [found] at overlapped
      cases overlapped with
      | conflict known within same bound =>
        refine replaced known bound.le within same ?_ done
        rw [replacementEntriesAfter, numbered.filter_gt]
        congr 1
        omega
    · rename_i point found
      rw [found] at overlapped
      cases overlapped with
      | matched known within same ends =>
        have dropped :
            (entries.dropWhile fun entry => decide (entry.sequence < sequence + known + 1)) =
            entries.drop known := by
          rw [numbered.dropWhile_lt]
          congr 1
          omega
        rw [dropped] at done
        split at done
        · rename_i nothing
          obtain rfl : known = entries.length := by
            have := List.drop_eq_nil_iff.mp nothing
            omega
          split at done
          · exact replaced entries.length le_rfl within same nothing.symm done
          · rename_i short
            cases done
            rw [List.take_length] at same
            have position := Nat.le_antisymm (Nat.not_lt.mp short) within
            exact ⟨unchanged same position, by omega⟩
        · rename_i first rest remaining
          have some : known < entries.length := by
            by_contra none
            rw [List.drop_eq_nil_of_le (by omega)] at remaining
            cases remaining
          have final : engine.lastAppliedSequence = sequence + known := by omega
          have numberedRest := continues some.le
          rw [if_neg, ← remaining] at done
          · obtain ⟨applying, position⟩ := suffixReplaced_of_applied logged done
            exact ⟨⟨known, some.le, final.ge, final ▸ applying, same⟩, position⟩
          · rw [remaining] at numberedRest
            rw [numberedRest.1, final, not_not]

variable {entry : WalEntry} {rest : List WalEntry}

theorem findOverlap_of_reached (start sequence : Nat)
    (reached : ¬ engine.lastAppliedSequence < entry.sequence) :
    engine.findOverlap start (entry :: rest) = engine.findOverlap sequence (entry :: rest) := by
  simp only [findOverlap, if_neg reached]

/-- Carried entries that begin later than at the previous entry are taken over from there. -/
theorem Logged.acceptEntries_later {next : Engine} (logged : engine.Logged)
    {nowMs start applied : Nat} (later : start ≤ sequence)
    (inside : start ≤ engine.lastAppliedSequence)
    (numbered : From WalEntry.sequence (sequence + 1) (entry :: rest))
    (done : engine.acceptEntries nowMs start (entry :: rest) = .ok (next, applied)) :
    engine.TookOver sequence (entry :: rest) next ∧ applied = next.lastAppliedSequence := by
  rcases Nat.lt_or_eq_of_le later with gap | rfl
  swap
  · exact logged.acceptEntries numbered inside done
  have here : entry.sequence = sequence + 1 := numbered.1
  by_cases reached : engine.lastAppliedSequence < entry.sequence
  · -- Nothing is compared; the entries have to continue the log.
    have all : (entry :: rest).dropWhile (fun entry => decide (entry.sequence < start + 1)) =
        entry :: rest := by
      rw [numbered.dropWhile_lt, show start + 1 - (sequence + 1) = 0 by omega, List.drop_zero]
    unfold Engine.acceptEntries at done
    simp only [List.isEmpty_cons, Bool.false_eq_true, if_false, findOverlap, if_pos reached, all]
      at done
    split at done
    · obtain ⟨replacement, replaced, checked, -, -⟩ := suffixReplaced_of_ok logged.numbered done
      have kept : replacementEntriesAfter start (entry :: rest) = entry :: rest := by
        rw [replacementEntriesAfter, numbered.filter_gt,
          show start + 1 - (sequence + 1) = 0 by omega, List.drop_zero]
      rw [kept] at checked
      obtain ⟨-, covers⟩ := replacementAfter_keeps checked.selected
      obtain ⟨first, found, -⟩ := covers entry List.mem_cons_self (by omega)
      exfalso
      cases replacement with
      | nil => cases found
      | cons head _ =>
        have low := checked.continues.1
        have high := (numbered.mem_bounds (checked.members head List.mem_cons_self)).1
        omega
    · rename_i continues
      obtain ⟨applying, position⟩ := suffixReplaced_of_applied logged done
      obtain rfl : engine.lastAppliedSequence = sequence := by omega
      exact ⟨⟨0, Nat.zero_le _, le_rfl, applying, by simp⟩, position⟩
  · have moved : engine.acceptEntries nowMs sequence (entry :: rest) = .ok (next, applied) := by
      rw [← done]
      unfold Engine.acceptEntries
      rw [findOverlap_of_reached start sequence reached]
      rfl
    exact logged.acceptEntries numbered (by omega) moved

end Engine

end Vaylix
