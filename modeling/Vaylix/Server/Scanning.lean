import Mathlib.Data.String.Basic
import Mathlib.Order.Compare
import Vaylix.Engine.LogGrowth
import Vaylix.Engine.Wildcard
import Vaylix.Server.Commands

/-!
# Following the cursor of a scan

A client asks again with the cursor of each page until it is 0. A page is a piece of the
sorted list of live keys that match the pattern; on keys that do not change the pages together
are that list.
-/

namespace Vaylix

def scannedKeys (keys : List Key) (pattern : Option String) : List Key :=
  match pattern with
  | some pattern => keys.filter (wildcardMatches pattern)
  | none => keys

def scanLimit (count : Option Nat) : Nat := max (count.getD defaultScanCount) 1

theorem scanLimit_pos (count : Option Nat) : 0 < scanLimit count :=
  Nat.lt_of_lt_of_le Nat.one_pos (Nat.le_max_right _ _)

theorem scanPage_eq (keys : List Key) (cursor : Nat) (pattern : Option String)
    (count : Option Nat) :
    scanPage keys cursor pattern count =
      ⟨if (scannedKeys keys pattern).length ≤ cursor + scanLimit count then 0
        else cursor + scanLimit count,
        ((scannedKeys keys pattern).drop cursor).take (scanLimit count)⟩ := by
  have unfolded : scanPage keys cursor pattern count =
      let scanned := scannedKeys keys pattern
      if scanned.length ≤ cursor then ⟨0, []⟩
      else
        let stop := min (cursor + scanLimit count) scanned.length
        ⟨if scanned.length ≤ stop then 0 else stop, (scanned.take stop).drop cursor⟩ := rfl
  rw [unfolded]
  generalize scannedKeys keys pattern = scanned
  dsimp only
  split
  · rename_i behind
    rw [if_pos (by omega), List.drop_eq_nil_of_le behind, List.take_nil]
  · by_cases last : scanned.length ≤ cursor + scanLimit count
    · rw [Nat.min_eq_right last, if_pos le_rfl, if_pos last, List.take_length,
        List.take_of_length_le (by rw [List.length_drop]; omega)]
    · rw [Nat.min_eq_left (by omega), if_neg last, List.drop_take, Nat.add_sub_cancel_left]

theorem mem_scannedKeys {keys : List Key} {pattern : Option String} {key : Key} :
    key ∈ scannedKeys keys pattern ↔
      key ∈ keys ∧ ∀ glob ∈ pattern, Glob.Matches (glyphs glob) key.toList := by
  cases pattern with
  | none => simp [scannedKeys]
  | some glob => simp [scannedKeys, wildcardMatches_iff]

theorem scannedKeys_ascending {keys : List Key} (ascending : keys.Pairwise (· < ·))
    (pattern : Option String) : (scannedKeys keys pattern).Pairwise (· < ·) := by
  cases pattern with
  | none => exact ascending
  | some glob => exact ascending.filter _

namespace EngineStore

theorem mem_keysSorted {store : EngineStore} {key : Key} :
    key ∈ store.keysSorted ↔ ∃ entry, store.get key = some entry := by
  simp only [keysSorted, List.mem_map, Prod.exists, exists_and_right, exists_eq_right, get,
    Std.ExtTreeMap.mem_toList_iff_getElem?_eq_some]

theorem keysSorted_ascending (store : EngineStore) : store.keysSorted.Pairwise (· < ·) := by
  refine List.Pairwise.map _ ?_ (Std.ExtTreeMap.ordered_keys_toList (t := store.entries))
  exact fun _ _ earlier => compare_lt_iff_lt.mp earlier

end EngineStore

structure ScanRequest where
  reading : Reading
  count : Option Nat

namespace Engine

variable [Codec]

theorem executeCommand_scan (engine : Engine) (reading : Reading) (cursor : Nat)
    (pattern : Option String) (count : Option Nat) :
    engine.executeCommand reading (.scan cursor pattern count) =
      ({ engine with state := { engine.state with
          store := engine.state.store.purgeExpired reading.now } },
        .ok (.scan (scanPage (engine.state.store.purgeExpired reading.now).keysSorted cursor
          pattern count))) := rfl

/-- The pages a client gets that follows the cursor; `none` while the cursor is not 0. -/
def scanPages (engine : Engine) (pattern : Option String) (cursor : Nat) :
    List ScanRequest → Option (List (List Key))
  | [] => none
  | request :: later =>
    match engine.executeCommand request.reading (.scan cursor pattern request.count) with
    | (next, .ok (.scan page)) =>
      if page.nextCursor = 0 then some [page.keys]
      else (next.scanPages pattern page.nextCursor later).map (page.keys :: ·)
    | _ => none

def liveKeys (engine : Engine) (nowMs : Nat) : List Key :=
  (engine.state.store.purgeExpired nowMs).keysSorted

variable {engine : Engine} {nowMs : Nat}

omit [Codec] in
theorem mem_liveKeys {key : Key} :
    key ∈ engine.liveKeys nowMs ↔
      ∃ entry, engine.state.store.get key = some entry ∧ entry.expiredAt nowMs = false := by
  simp [liveKeys, EngineStore.mem_keysSorted, Option.filter_eq_some_iff]

theorem liveKeys_executeCommand_scan {reading : Reading}
    (same : engine.liveKeys reading.now = engine.liveKeys nowMs) (cursor : Nat)
    (pattern : Option String) (count : Option Nat) :
    (engine.executeCommand reading (.scan cursor pattern count)).1.liveKeys nowMs =
      engine.liveKeys nowMs := by
  change ((engine.state.store.purgeExpired reading.now).purgeExpired nowMs).keysSorted = _
  rw [EngineStore.purgeExpired_max]
  rcases Nat.le_total reading.now nowMs with later | earlier
  · rw [Nat.max_eq_right later]
    rfl
  · rw [Nat.max_eq_left earlier]
    exact same

theorem scanPages_cons {keys : List Key} {request : ScanRequest}
    (live : engine.liveKeys request.reading.now = keys) (pattern : Option String) (cursor : Nat)
    (later : List ScanRequest) :
    engine.scanPages pattern cursor (request :: later) =
      let page := ((scannedKeys keys pattern).drop cursor).take (scanLimit request.count)
      if (scannedKeys keys pattern).length ≤ cursor + scanLimit request.count then some [page]
      else
        ((engine.executeCommand request.reading (.scan cursor pattern request.count)).1.scanPages
          pattern (cursor + scanLimit request.count) later).map (page :: ·) := by
  have positive := scanLimit_pos request.count
  have page := scanPage_eq keys cursor pattern request.count
  rw [← live] at page ⊢
  simp only [scanPages, executeCommand_scan, liveKeys] at page ⊢
  rw [page]
  by_cases last : (scannedKeys (engine.state.store.purgeExpired request.reading.now).keysSorted
      pattern).length ≤ cursor + scanLimit request.count
  · simp only [last, if_true]
  · simp only [last, if_false]
    rw [if_neg (by omega)]

/-- The pages from a cursor on are the rest of the keys. -/
theorem exists_scanPages {keys : List Key} (pattern : Option String) (engine : Engine)
    (cursor : Nat) {requests : List ScanRequest}
    (unchanged : ∀ request ∈ requests, engine.liveKeys request.reading.now = keys)
    (enough : (scannedKeys keys pattern).length - cursor < requests.length) :
    ∃ calls ≤ requests.length, ∃ pages,
      engine.scanPages pattern cursor (requests.take calls) = some pages ∧
      pages.flatten = (scannedKeys keys pattern).drop cursor ∧
      List.Forall₂ (fun page request => page.length ≤ scanLimit request.count) pages
        (requests.take calls) := by
  induction requests generalizing engine cursor with
  | nil => exact absurd enough (Nat.not_lt_zero _)
  | cons request later ih =>
    have live := unchanged request List.mem_cons_self
    have positive := scanLimit_pos request.count
    have short : (((scannedKeys keys pattern).drop cursor).take
        (scanLimit request.count)).length ≤ scanLimit request.count := List.length_take_le _ _
    by_cases last : (scannedKeys keys pattern).length ≤ cursor + scanLimit request.count
    · refine ⟨1, by simp, [((scannedKeys keys pattern).drop cursor).take
        (scanLimit request.count)], ?_, ?_, ?_⟩
      · rw [List.take_succ_cons, scanPages_cons live]
        exact if_pos last
      · rw [List.flatten_singleton, List.take_of_length_le (by rw [List.length_drop]; omega)]
      · exact .cons short .nil
    · have still : ∀ next ∈ later,
          (engine.executeCommand request.reading (.scan cursor pattern request.count)).1.liveKeys
            next.reading.now = keys := by
        intro next member
        have same := unchanged next (List.mem_cons_of_mem _ member)
        rw [liveKeys_executeCommand_scan (live.trans same.symm), same]
      obtain ⟨calls, made, pages, answered, rest, bounded⟩ :=
        ih _ (cursor + scanLimit request.count) still (by
          rw [List.length_cons] at enough
          omega)
      refine ⟨calls + 1, Nat.succ_le_succ made, _ :: pages, ?_, ?_, .cons short bounded⟩
      · rw [List.take_succ_cons, scanPages_cons live, if_neg last, answered]
        rfl
      · rw [List.flatten_cons, rest, ← List.drop_drop, List.take_append_drop]

/-- **A scan is complete**: on keys that do not change, a client that follows the cursor is done
after finitely many requests, and the pages list the live keys of the pattern in order, each of
them once. -/
theorem scan_lists_live_keys (engine : Engine) (pattern : Option String)
    (requests : Nat → ScanRequest) (nowMs : Nat)
    (unchanged : ∀ index, engine.liveKeys (requests index).reading.now = engine.liveKeys nowMs) :
    ∃ calls pages,
      engine.scanPages pattern 0 ((List.range calls).map requests) = some pages ∧
      List.Forall₂ (fun page request => page.length ≤ scanLimit request.count) pages
        ((List.range calls).map requests) ∧
      pages.flatten.Pairwise (· < ·) ∧
      ∀ key, key ∈ pages.flatten ↔
        (∃ entry, engine.state.store.get key = some entry ∧ entry.expiredAt nowMs = false) ∧
        ∀ glob ∈ pattern, Glob.Matches (glyphs glob) key.toList := by
  have still : ∀ bound, ∀ request ∈ (List.range bound).map requests,
      engine.liveKeys request.reading.now = engine.liveKeys nowMs := by simp [unchanged]
  obtain ⟨calls, made, pages, answered, listed, bounded⟩ :=
    exists_scanPages pattern engine 0
      (still ((scannedKeys (engine.liveKeys nowMs) pattern).length + 1)) (by simp)
  rw [List.length_map, List.length_range] at made
  rw [← List.map_take, List.take_range, Nat.min_eq_left made] at answered bounded
  rw [List.drop_zero] at listed
  refine ⟨calls, pages, answered, bounded, ?_, fun key => ?_⟩
  · rw [listed]
    exact scannedKeys_ascending (EngineStore.keysSorted_ascending _) pattern
  · rw [listed, mem_scannedKeys, mem_liveKeys]

end Engine

open Sample Engine in
/-- Three keys of a new engine, two of them in the pattern, in pages of one and of ten. -/
theorem scan_lists_three_keys :
    let engine := ((create ⟨0, 0⟩ 0).executeCommand (.still 1)
      (.mSet [("b:2", [50]), ("a", [48]), ("b:1", [49])])).1
    let requests (index : Nat) : ScanRequest :=
      ⟨.still 2, if index = 0 then some 0 else none⟩
    engine.scanPages (some "b:*") 0 ((List.range 2).map requests) = some [["b:1"], ["b:2"]] ∧
    ∃ calls pages,
      engine.scanPages (some "b:*") 0 ((List.range calls).map requests) = some pages ∧
      List.Forall₂ (fun page request => page.length ≤ scanLimit request.count) pages
        ((List.range calls).map requests) ∧
      pages.flatten.Pairwise (· < ·) ∧
      ∀ key, key ∈ pages.flatten ↔
        (∃ entry, engine.state.store.get key = some entry ∧ entry.expiredAt 2 = false) ∧
        ∀ glob ∈ some "b:*", Glob.Matches (glyphs glob) key.toList := by
  exact ⟨by decide +kernel, scan_lists_live_keys _ _ _ 2 fun _ => rfl⟩

end Vaylix
