import Mathlib.Logic.Relation
import Vaylix.Lib.Majority

/-!
# Majority elections by term

A ballot is a term and the candidate a voter stands for in it. A candidate enters the next
term with its own vote, a voter grants one candidate per term, and hears of the winner that a
majority granted. A term has at most one winner.
-/

namespace Ballots

open Majority

universe u

variable {N : Type u} [DecidableEq N]

structure Ballot (N : Type u) where
  term : Nat
  vote : Option N

structure State (N : Type u) where
  ballot : N → Ballot N
  granted : N → N → Nat → Prop
  won : N → Nat → Prop

namespace State

def setBallot (state : State N) (voter : N) (ballot : Ballot N) : State N :=
  { state with ballot := Function.update state.ballot voter ballot }

def grant (state : State N) (voter candidate : N) (term : Nat) : State N :=
  { state with granted := fun v c t =>
      state.granted v c t ∨ (v = voter ∧ c = candidate ∧ t = term) }

def win (state : State N) (candidate : N) (term : Nat) : State N :=
  { state with won := fun c t => state.won c t ∨ (c = candidate ∧ t = term) }

end State

inductive Step (voters : Finset N) : State N → State N → Prop
  | advance (state : State N) (voter : N) (term : Nat)
      (later : (state.ballot voter).term < term) :
      Step voters state (state.setBallot voter ⟨term, none⟩)
  | candidacy (state : State N) (voter : N) :
      Step voters state ((state.setBallot voter
        ⟨(state.ballot voter).term + 1, some voter⟩).grant voter voter
          ((state.ballot voter).term + 1))
  | grant (state : State N) (voter candidate : N)
      (free : (state.ballot voter).vote = none ∨ (state.ballot voter).vote = some candidate) :
      Step voters state ((state.setBallot voter
        ⟨(state.ballot voter).term, some candidate⟩).grant voter candidate
          (state.ballot voter).term)
  | follow (state : State N) (voter leader : N) (term : Nat) (won : state.won leader term)
      (current : (state.ballot voter).term ≤ term) :
      Step voters state (state.setBallot voter ⟨term, some leader⟩)
  | win (state : State N) (candidate : N) (term : Nat) (supporters : Finset N)
      (majority : IsMajority voters supporters)
      (support : ∀ voter ∈ supporters, state.granted voter candidate term) :
      Step voters state (state.win candidate term)

theorem Step.term_le {voters : Finset N} {state next : State N} (taken : Step voters state next)
    (v : N) : (state.ballot v).term ≤ (next.ballot v).term := by
  have moved : ∀ {voter : N} {ballot : Ballot N}, (state.ballot voter).term ≤ ballot.term →
      (state.ballot v).term ≤ ((state.setBallot voter ballot).ballot v).term := by
    intro voter ballot later
    by_cases here : v = voter
    · subst here
      simpa [State.setBallot] using later
    · simp [State.setBallot, here]
  cases taken with
  | advance voter term later => exact moved later.le
  | candidacy voter => exact moved (Nat.le_succ _)
  | grant voter candidate free => exact moved le_rfl
  | follow voter leader term won current => exact moved current
  | win candidate term supporters majority support => exact le_rfl

/-- A voter that stands for nobody but one candidate in a term, for good. -/
structure Bound (state : State N) (voter candidate : N) (term : Nat) : Prop where
  only : ∀ other, state.granted voter other term → other = candidate
  reached : term ≤ (state.ballot voter).term
  stands : (state.ballot voter).term = term → (state.ballot voter).vote = some candidate

/-- The invariant of elections. -/
structure Safe (voters : Finset N) (state : State N) : Prop where
  reached : ∀ v c t, state.granted v c t → t ≤ (state.ballot v).term
  /-- Before a term is won, a grant in it is the vote on the ballot. -/
  stands : ∀ v c t, (∀ winner, ¬ state.won winner t) → state.granted v c t →
    (state.ballot v).term = t → (state.ballot v).vote = some c
  single : ∀ v c d t, (∀ winner, ¬ state.won winner t) → state.granted v c t →
    state.granted v d t → c = d
  /-- Behind a winner stands a majority that is bound to it. -/
  bound : ∀ c t, state.won c t → ∃ supporters, IsMajority voters supporters ∧
    ∀ v ∈ supporters, Bound state v c t
  unique : ∀ c d t, state.won c t → state.won d t → c = d

namespace Safe

variable {voters : Finset N} {state : State N}

omit [DecidableEq N] in
theorem initial (ballot : N → Ballot N) :
    Safe voters ⟨ballot, fun _ _ _ => False, fun _ _ => False⟩ where
  reached _ _ _ granted := granted.elim
  stands _ _ _ _ granted := granted.elim
  single _ _ _ _ _ granted := granted.elim
  bound _ _ won := won.elim
  unique _ _ _ won := won.elim

/-- A ballot may move to a later term, and within a term from no vote to one, or to the winner. -/
theorem setBallot (safe : Safe voters state) {voter : N} {ballot : Ballot N}
    (later : (state.ballot voter).term ≤ ballot.term)
    (same : ballot.term = (state.ballot voter).term →
      ((state.ballot voter).vote = none ∨ ballot.vote = (state.ballot voter).vote) ∨
      ∃ winner, state.won winner ballot.term ∧ ballot.vote = some winner) :
    Safe voters (state.setBallot voter ballot) := by
  have grown : ∀ v, (state.ballot v).term ≤ ((state.setBallot voter ballot).ballot v).term := by
    intro v
    by_cases here : v = voter
    · subst here
      simpa [State.setBallot] using later
    · simp [State.setBallot, here]
  refine ⟨?_, ?_, safe.single, ?_, safe.unique⟩
  · intro v c t granted
    exact (safe.reached v c t granted).trans (grown v)
  · intro v c t open_ granted atTerm
    by_cases here : v = voter
    · subst here
      simp only [State.setBallot, Function.update_self] at atTerm ⊢
      have unchanged : (state.ballot v).term = t := by
        have := safe.reached v c t granted
        omega
      have stood := safe.stands v c t open_ granted unchanged
      rcases same (atTerm.trans unchanged.symm) with (free | kept) | ⟨winner, won, -⟩
      · rw [free] at stood
        cases stood
      · rw [kept]
        exact stood
      · exact absurd (atTerm ▸ won) (open_ winner)
    · simp only [State.setBallot, Function.update_of_ne here] at atTerm ⊢
      exact safe.stands v c t open_ granted atTerm
  · intro c t won
    obtain ⟨supporters, majority, all⟩ := safe.bound c t won
    refine ⟨supporters, majority, ?_⟩
    intro v member
    have bound := all v member
    refine ⟨bound.only, bound.reached.trans (grown v), ?_⟩
    intro atTerm
    by_cases here : v = voter
    · subst here
      simp only [State.setBallot, Function.update_self] at atTerm ⊢
      have unchanged : (state.ballot v).term = t := by
        have := bound.reached
        omega
      have stood := bound.stands unchanged
      rcases same (atTerm.trans unchanged.symm) with (free | kept) | ⟨winner, wonToo, stands⟩
      · rw [free] at stood
        cases stood
      · rw [kept]
        exact stood
      · rw [stands, safe.unique winner c t (atTerm ▸ wonToo) won]
    · simp only [State.setBallot, Function.update_of_ne here] at atTerm ⊢
      exact bound.stands atTerm

omit [DecidableEq N] in
/-- A grant of the vote on the ballot, in a term the voter was not bound in. -/
theorem grant (safe : Safe voters state) {voter candidate : N} {term : Nat}
    (reached : (state.ballot voter).term = term)
    (stands : (state.ballot voter).vote = some candidate)
    (single : ∀ other, state.granted voter other term →
      (∀ winner, ¬ state.won winner term) → other = candidate) :
    Safe voters (state.grant voter candidate term) := by
  refine ⟨?_, ?_, ?_, ?_, safe.unique⟩
  · rintro v c t (old | ⟨rfl, rfl, rfl⟩)
    · exact safe.reached v c t old
    · exact reached.ge
  · rintro v c t open_ (old | ⟨rfl, rfl, rfl⟩) atTerm
    · exact safe.stands v c t open_ old atTerm
    · exact stands
  · rintro v c d t open_ (first | ⟨rfl, rfl, rfl⟩) (second | ⟨sameVoter, rfl, sameTerm⟩)
    · exact safe.single v c d t open_ first second
    · subst sameVoter sameTerm
      exact single c first open_
    · exact (single d second open_).symm
    · rfl
  · intro c t won
    obtain ⟨supporters, majority, all⟩ := safe.bound c t won
    refine ⟨supporters, majority, ?_⟩
    intro v member
    have bound := all v member
    refine ⟨?_, bound.reached, bound.stands⟩
    rintro other (old | ⟨rfl, rfl, rfl⟩)
    · exact bound.only other old
    · have same := bound.stands reached
      rw [stands] at same
      exact Option.some.inj same

/-- **Every step keeps elections safe.** -/
theorem step (safe : Safe voters state) {next : State N} (taken : Step voters state next) :
    Safe voters next := by
  cases taken with
  | advance voter term later =>
    exact safe.setBallot later.le fun same => absurd same later.ne'
  | follow voter leader term won current =>
    exact safe.setBallot current fun _ => .inr ⟨leader, won, rfl⟩
  | candidacy voter =>
    have moved : Safe voters (state.setBallot voter ⟨(state.ballot voter).term + 1, some voter⟩) :=
      safe.setBallot (Nat.le_succ _) fun same => absurd same (Nat.succ_ne_self _)
    refine moved.grant (by simp [State.setBallot]) (by simp [State.setBallot]) ?_
    intro other granted
    have := safe.reached voter other _ granted
    omega
  | grant voter candidate free =>
    have moved : Safe voters (state.setBallot voter ⟨(state.ballot voter).term, some candidate⟩) :=
      safe.setBallot (Nat.le_refl _) fun _ => .inl (free.imp_right Eq.symm)
    refine moved.grant (by simp [State.setBallot]) (by simp [State.setBallot]) ?_
    intro other granted open_
    have stood := safe.stands voter other _ open_ granted rfl
    rcases free with none | same
    · rw [none] at stood
      cases stood
    · rw [same] at stood
      exact (Option.some.inj stood).symm
  | win candidate term supporters majority support =>
    -- A winner that is there already shares a voter with the new one and is the same.
    have only : ∀ winner, state.won winner term → winner = candidate := by
      intro winner won
      obtain ⟨others, otherMajority, bound⟩ := safe.bound winner term won
      obtain ⟨v, both⟩ := otherMajority.inter_nonempty majority
      obtain ⟨inOthers, inSupporters⟩ := Finset.mem_inter.mp both
      exact ((bound v inOthers).only candidate (support v inSupporters)).symm
    refine ⟨safe.reached, ?_, ?_, ?_, ?_⟩
    · intro v c t open_
      exact safe.stands v c t fun winner won => open_ winner (.inl won)
    · intro v c d t open_
      exact safe.single v c d t fun winner won => open_ winner (.inl won)
    · intro c t won
      have old : ∀ t, state.won c t → ∃ supporters, IsMajority voters supporters ∧
          ∀ v ∈ supporters, Bound (state.win candidate term) v c t := by
        intro t won
        obtain ⟨others, otherMajority, bound⟩ := safe.bound c t won
        exact ⟨others, otherMajority, fun v member =>
          ⟨(bound v member).only, (bound v member).reached, (bound v member).stands⟩⟩
      rcases won with before | ⟨rfl, rfl⟩
      · exact old t before
      · by_cases before : ∃ winner, state.won winner t
        · obtain ⟨winner, won⟩ := before
          obtain rfl := only winner won
          exact old t won
        · have open_ : ∀ winner, ¬ state.won winner t := fun winner won => before ⟨winner, won⟩
          refine ⟨supporters, majority, fun v member => ?_⟩
          have granted := support v member
          exact ⟨fun other also => safe.single v other c t open_ also granted,
            safe.reached v c t granted, safe.stands v c t open_ granted⟩
    · rintro c d t (first | ⟨rfl, rfl⟩) (second | ⟨same, sameTerm⟩)
      · exact safe.unique c d t first second
      · subst same sameTerm
        exact only c first
      · exact (only d second).symm
      · exact same.symm

/-- Several steps keep elections safe. -/
theorem steps (safe : Safe voters state) {next : State N}
    (taken : Relation.ReflTransGen (Step voters) state next) : Safe voters next := by
  induction taken with
  | refl => exact safe
  | tail _ last ih => exact ih.step last

end Safe

structure Steps (voters : Finset N) (voter : N) (state next : State N) : Prop where
  taken : Relation.ReflTransGen (Step voters) state next
  others : ∀ other, other ≠ voter → next.ballot other = state.ballot other
  granted : ∀ v c t, state.granted v c t → next.granted v c t
  won : ∀ c t, state.won c t → next.won c t

namespace Steps

variable {voters : Finset N} {voter : N} {state middle next : State N}

theorem term_le (steps : Steps voters voter state next) (v : N) :
    (state.ballot v).term ≤ (next.ballot v).term := by
  have taken := steps.taken
  clear steps
  induction taken with
  | refl => exact le_rfl
  | tail _ last ih => exact ih.trans (last.term_le v)

theorem trans (first : Steps voters voter state middle)
    (second : Steps voters voter middle next) : Steps voters voter state next :=
  ⟨first.taken.trans second.taken,
    fun other different => (second.others other different).trans (first.others other different),
    fun v c t granted => second.granted v c t (first.granted v c t granted),
    fun c t won => second.won c t (first.won c t won)⟩

theorem refl (voters : Finset N) (voter : N) (state : State N) : Steps voters voter state state :=
  ⟨.refl, fun _ _ => rfl, fun _ _ _ granted => granted, fun _ _ won => won⟩

theorem setBallot_others {ballot : Ballot N} (other : N) (different : other ≠ voter) :
    (state.setBallot voter ballot).ballot other = state.ballot other :=
  Function.update_of_ne different _ _

@[simp] theorem setBallot_self (ballot : Ballot N) :
    (state.setBallot voter ballot).ballot voter = ballot :=
  Function.update_self ..

theorem advance (term : Nat) (later : (state.ballot voter).term < term) :
    Steps voters voter state (state.setBallot voter ⟨term, none⟩) :=
  ⟨.single (.advance state voter term later), setBallot_others,
    fun _ _ _ granted => granted, fun _ _ won => won⟩

theorem candidacy : Steps voters voter state ((state.setBallot voter
    ⟨(state.ballot voter).term + 1, some voter⟩).grant voter voter
      ((state.ballot voter).term + 1)) :=
  ⟨.single (.candidacy state voter), setBallot_others, fun _ _ _ granted => .inl granted,
    fun _ _ won => won⟩

theorem grant {candidate : N}
    (free : (state.ballot voter).vote = none ∨ (state.ballot voter).vote = some candidate) :
    Steps voters voter state ((state.setBallot voter
      ⟨(state.ballot voter).term, some candidate⟩).grant voter candidate
        (state.ballot voter).term) :=
  ⟨.single (.grant state voter candidate free), setBallot_others,
    fun _ _ _ granted => .inl granted, fun _ _ won => won⟩

theorem follow {leader : N} {term : Nat} (won : state.won leader term)
    (current : (state.ballot voter).term ≤ term) :
    Steps voters voter state (state.setBallot voter ⟨term, some leader⟩) :=
  ⟨.single (.follow state voter leader term won current), setBallot_others,
    fun _ _ _ granted => granted, fun _ _ won => won⟩

theorem win {candidate : N} {term : Nat} {supporters : Finset N}
    (majority : IsMajority voters supporters)
    (support : ∀ v ∈ supporters, state.granted v candidate term) :
    Steps voters voter state (state.win candidate term) :=
  ⟨.single (.win state candidate term supporters majority support), fun _ _ => rfl,
    fun _ _ _ granted => granted, fun _ _ won => .inl won⟩

end Steps

end Ballots
