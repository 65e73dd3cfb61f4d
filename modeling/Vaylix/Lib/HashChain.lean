import Mathlib.Data.List.Induction

/-!
# Chains of hashes

A chain numbers its events and hashes each of them with its number and with the hash of
the one before. If hashing has no collisions, the last number and the last hash determine
all events: going back, each hash gives away the event it was made of and the hash before.
-/

namespace HashChain

universe u v

variable {ε : Type u} {η : Type v}

/-- The number the next event gets and the hash of the last one. -/
structure Head (η : Type v) where
  next : Nat
  previous : η
deriving DecidableEq, Repr

variable (hash : Nat → η → ε → η)

def advance (head : Head η) (event : ε) : Head η :=
  ⟨head.next + 1, hash head.next head.previous event⟩

/-- The head of a chain after some more events. -/
def extend (head : Head η) (events : List ε) : Head η := events.foldl (advance hash) head

theorem extend_cons (head : Head η) (event : ε) (rest : List ε) :
    extend hash head (event :: rest) = extend hash (advance hash head event) rest := rfl

theorem extend_append (head : Head η) (front back : List ε) :
    extend hash head (front ++ back) = extend hash (extend hash head front) back :=
  List.foldl_append

theorem extend_concat (head : Head η) (events : List ε) (event : ε) :
    extend hash head (events ++ [event]) = advance hash (extend hash head events) event :=
  extend_append hash head events [event]

@[simp] theorem next_extend (head : Head η) (events : List ε) :
    (extend hash head events).next = head.next + events.length := by
  induction events generalizing head with
  | nil => rfl
  | cons event rest ih =>
    rw [extend_cons, ih, List.length_cons]
    change head.next + 1 + rest.length = _
    omega

/-- Hashing has no collisions. -/
def CollisionFree : Prop :=
  ∀ number number' previous previous' event event',
    hash number previous event = hash number' previous' event' →
      number = number' ∧ previous = previous' ∧ event = event'

variable {hash}

/-- **The head determines the events** of a chain without collisions. -/
theorem extend_injective (free : CollisionFree hash) {head : Head η} {left right : List ε}
    (same : extend hash head left = extend hash head right) : left = right := by
  induction left using List.reverseRecOn generalizing right with
  | nil =>
    have length := congrArg Head.next same
    rw [next_extend, next_extend, List.length_nil] at length
    exact (List.length_eq_zero_iff.mp (by omega)).symm
  | append_singleton left event ih =>
    have length := congrArg Head.next same
    rw [next_extend, next_extend, List.length_append, List.length_singleton] at length
    rcases List.eq_nil_or_concat right with rfl | ⟨right, event', rfl⟩
    · rw [List.length_nil] at length
      omega
    · rw [List.concat_eq_append, extend_concat, extend_concat] at same
      have hashes := congrArg Head.previous same
      obtain ⟨number, previous, rfl⟩ := free _ _ _ _ _ _ hashes
      rw [List.concat_eq_append, ih (congrArg₂ Head.mk number previous)]

end HashChain
