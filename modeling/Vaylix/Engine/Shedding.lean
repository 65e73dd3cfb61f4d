import Vaylix.Engine.Replay
import Vaylix.Server.Commands

/-!
# A live keyspace and the one its log rebuilds

The live engine drops expired keys without logging it, while a replay never purges. Every
operation whose key is live, or that overwrites what it touches, keeps this relation; an
integer update does when the replayed keyspace has no expired entry for its key.
-/

namespace Vaylix

/-- `live` is `full` without some of the entries that have expired at `nowMs`. -/
def Sheds (nowMs : Nat) (full live : EngineStore) : Prop :=
  ∀ key, live.get key = full.get key ∨
    live.get key = none ∧ ∃ entry, full.get key = some entry ∧ entry.expiredAt nowMs = true

def Fresh (nowMs : Nat) (full : EngineStore) (key : Key) : Prop :=
  ∀ entry, full.get key = some entry → entry.expiredAt nowMs = false

namespace Sheds

variable {nowMs laterMs : Nat} {full middle live : EngineStore}

theorem refl (nowMs : Nat) (store : EngineStore) : Sheds nowMs store store :=
  fun _ => .inl rfl

theorem trans (outer : Sheds nowMs full middle) (inner : Sheds nowMs middle live) :
    Sheds nowMs full live := by
  intro key
  rcases inner key with same | ⟨gone, entry, found, expired⟩
  · rw [same]
    exact outer key
  · rcases outer key with same | ⟨absent, _⟩
    · exact .inr ⟨gone, entry, same ▸ found, expired⟩
    · rw [absent] at found
      cases found

theorem mono (order : nowMs ≤ laterMs) (sheds : Sheds nowMs full live) :
    Sheds laterMs full live := by
  intro key
  rcases sheds key with same | ⟨gone, entry, found, expired⟩
  · exact .inl same
  · exact .inr ⟨gone, entry, found, StoredValue.expiredAt_mono order expired⟩

variable (sheds : Sheds nowMs full live)
include sheds

theorem purge : Sheds nowMs full (live.purgeExpired nowMs) := by
  intro key
  rw [EngineStore.get_purgeExpired]
  rcases sheds key with same | ⟨gone, stale⟩
  · cases found : full.get key with
    | none =>
      left
      rw [same, found]
      rfl
    | some entry =>
      rw [same, found]
      cases expired : entry.expiredAt nowMs with
      | true => exact .inr ⟨by simp [Option.filter, expired], entry, rfl, expired⟩
      | false => exact .inl (by simp [Option.filter, expired])
  · exact .inr ⟨by simp [gone], stale⟩

theorem get_of_ne_none {key : Key} (present : live.get key ≠ none) :
    live.get key = full.get key := by
  rcases sheds key with same | ⟨gone, _⟩
  · exact same
  · exact absurd gone present

theorem get_of_fresh {key : Key} (fresh : Fresh nowMs full key) : live.get key = full.get key := by
  rcases sheds key with same | ⟨_, entry, found, expired⟩
  · exact same
  · rw [fresh entry found] at expired
    cases expired

theorem fresh_live {key : Key} (fresh : Fresh nowMs full key) :
    Fresh nowMs live key := by
  intro entry found
  exact fresh entry (sheds.get_of_fresh fresh ▸ found)

theorem live_eq {t : Nat} (order : nowMs ≤ t) (key : Key) :
    (full.get key).filter (fun entry => !entry.expiredAt t) =
      (live.get key).filter (fun entry => !entry.expiredAt t) := by
  rcases sheds key with same | ⟨gone, entry, found, expired⟩
  · rw [same]
  · have expiredLater := StoredValue.expiredAt_mono order expired
    rw [gone, found]
    simp [Option.filter, expiredLater]

theorem change {full' live' : EngineStore} (key : Key) (same : live'.get key = full'.get key)
    (fullRest : ∀ other, key ≠ other → full'.get other = full.get other)
    (liveRest : ∀ other, key ≠ other → live'.get other = live.get other) :
    Sheds nowMs full' live' := by
  intro other
  by_cases touched : key = other
  · subst touched
    exact .inl same
  · rw [fullRest other touched, liveRest other touched]
    exact sheds other

end Sheds

/-- Every expiration change of the list finds its key, and no operation reads a number. -/
def Anchored (live : EngineStore) : List WalOperation → Prop
  | [] => True
  | .set key value version :: rest => Anchored (live.insertValueWithVersion key value version) rest
  | .delete key :: rest => Anchored (live.remove key) rest
  | .expire key expiresAtMs :: rest =>
    live.get key ≠ none ∧ Anchored (live.setExpirationIfPresent key expiresAtMs) rest
  | .persist key :: rest => live.get key ≠ none ∧ Anchored (live.clearExpiration key) rest
  | .clear :: rest => Anchored live.clear rest
  | .checkInteger _ _ :: _ => False

variable {live : EngineStore} {operations : List WalOperation}

theorem Anchored.not_checkInteger (anchored : Anchored live operations) (key : Key) (delta : Int) :
    .checkInteger key delta ∉ operations := by
  induction operations generalizing live with
  | nil => exact List.not_mem_nil
  | cons operation rest ih =>
    intro member
    rcases List.mem_cons.mp member with rfl | later
    · exact anchored
    · cases operation with
      | set key value version => exact ih anchored later
      | delete key => exact ih anchored later
      | expire key expiresAtMs => exact ih anchored.2 later
      | persist key => exact ih anchored.2 later
      | clear => exact ih anchored later
      | checkInteger key delta => exact anchored

/-- Anchored operations run on both keyspaces, are anchored in both, and keep the
relation. -/
theorem Sheds.applyAnchored {nowMs : Nat} {full : EngineStore} (sheds : Sheds nowMs full live)
    (anchored : Anchored live operations) :
    ∃ full' live', applyOperations full operations = .ok full' ∧
      applyOperations live operations = .ok live' ∧ Sheds nowMs full' live' ∧
      Anchored full operations := by
  induction operations generalizing full live with
  | nil => exact ⟨full, live, rfl, rfl, sheds, trivial⟩
  | cons operation rest ih =>
    cases operation with
    | set key _ _ | delete key =>
      refine ih (sheds.change key (by simp) ?_ ?_) anchored <;>
        exact fun other distinct => by simp [distinct]
    | expire key expiresAtMs =>
      have same := sheds.get_of_ne_none anchored.1
      have kept : Sheds nowMs (full.setExpirationIfPresent key expiresAtMs)
          (live.setExpirationIfPresent key expiresAtMs) := by
        refine sheds.change key (by simp [same]) ?_ ?_ <;>
          exact fun other distinct => by simp [distinct]
      obtain ⟨full', live', fullRun, liveRun, related, anchoredFull⟩ := ih kept anchored.2
      exact ⟨full', live', fullRun, liveRun, related, same ▸ anchored.1, anchoredFull⟩
    | persist key =>
      have same := sheds.get_of_ne_none anchored.1
      have kept : Sheds nowMs (full.clearExpiration key) (live.clearExpiration key) := by
        refine sheds.change key (by simp [same]) ?_ ?_ <;>
          exact fun other distinct => by simp [distinct]
      obtain ⟨full', live', fullRun, liveRun, related, anchoredFull⟩ := ih kept anchored.2
      exact ⟨full', live', fullRun, liveRun, related, same ▸ anchored.1, anchoredFull⟩
    | clear => exact ih (fun key => .inl (by simp)) anchored
    | checkInteger key delta => exact anchored.elim

/-- An integer update that runs on the live keyspace runs on the replayed one as well. -/
theorem Sheds.applyCounter {nowMs : Nat} {full live' : EngineStore} {key : Key} {delta : Int}
    (sheds : Sheds nowMs full live) (fresh : Fresh nowMs full key)
    (run : applyOperations live [.checkInteger key delta] = .ok live') :
    ∃ full', applyOperations full [.checkInteger key delta] = .ok full' ∧
      Sheds nowMs full' live' := by
  rw [applyOperations_singleton] at run ⊢
  obtain ⟨number, sum, parsed, added, rfl⟩ := applyOperation_checkInteger.mp run
  rw [sheds.get_of_fresh fresh] at parsed ⊢
  refine ⟨_, applyOperation_checkInteger.mpr ⟨number, sum, parsed, added, rfl⟩, ?_⟩
  refine sheds.change key (by simp) ?_ ?_ <;>
    exact fun other distinct => by simp [distinct]

end Vaylix
