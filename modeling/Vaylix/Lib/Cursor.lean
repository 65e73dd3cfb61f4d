import Mathlib.Data.List.Induction
import Mathlib.Tactic.Ring
import Vaylix.Lib.Outcome

/-!
# Reading values off a byte buffer

A reader takes bytes from the front of a buffer. It can refuse the input, or ask for more
bytes than are left, which no caller can handle. It is compared with the writer of the same
values by the inputs it accepts: those that start with what the writer writes.
-/

namespace Cursor

/-! ### Big-endian numbers -/

/-- The last `width` base-256 digits of a number. -/
def bigEndian : Nat → Nat → List UInt8
  | 0, _ => []
  | width + 1, n => bigEndian width (n / 256) ++ [UInt8.ofNat n]

def ofBigEndian (bytes : List UInt8) : Nat :=
  bytes.foldl (fun value byte => value * 256 + byte.toNat) 0

@[simp] theorem length_bigEndian (width n : Nat) : (bigEndian width n).length = width := by
  induction width generalizing n with
  | zero => rfl
  | succ width ih => rw [bigEndian, List.length_append, ih, List.length_singleton]

theorem ofBigEndian_concat (bytes : List UInt8) (byte : UInt8) :
    ofBigEndian (bytes ++ [byte]) = ofBigEndian bytes * 256 + byte.toNat := by
  rw [ofBigEndian, List.foldl_append]
  rfl

theorem ofBigEndian_bigEndian {width n : Nat} (bound : n < 256 ^ width) :
    ofBigEndian (bigEndian width n) = n := by
  induction width generalizing n with
  | zero =>
    rw [pow_zero, Nat.lt_one_iff] at bound
    rw [bound]
    rfl
  | succ width ih =>
    have high : n / 256 < 256 ^ width := by
      rw [Nat.div_lt_iff_lt_mul (by decide)]
      exact bound
    rw [bigEndian, ofBigEndian_concat, ih high, UInt8.toNat_ofNat']
    omega

theorem ofBigEndian_lt (bytes : List UInt8) : ofBigEndian bytes < 256 ^ bytes.length := by
  induction bytes using List.reverseRecOn with
  | nil => exact Nat.one_pos
  | append_singleton bytes byte ih =>
    have low := byte.toNat_lt
    rw [ofBigEndian_concat, List.length_append, List.length_singleton]
    omega

theorem bigEndian_ofBigEndian (bytes : List UInt8) :
    bigEndian bytes.length (ofBigEndian bytes) = bytes := by
  induction bytes using List.reverseRecOn with
  | nil => rfl
  | append_singleton bytes byte ih =>
    have low := byte.toNat_lt
    have high : (ofBigEndian bytes * 256 + byte.toNat) / 256 = ofBigEndian bytes := by omega
    rw [ofBigEndian_concat, List.length_append, List.length_singleton, bigEndian, high]
    congr 2
    apply UInt8.toNat_inj.mp
    rw [UInt8.toNat_ofNat']
    omega

/-! ### Readers -/

inductive Stop (ε : Type) where
  | refused (err : ε)
  | overread
deriving DecidableEq, Repr

/-- A reader advances the buffer. -/
abbrev Reader (ε α : Type) := StateT (List UInt8) (Except (Stop ε)) α

section Readers

variable {ε α β : Type}

def refuse (err : ε) : Reader ε α := fun _ => .error (.refused err)

def require (count : Nat) (err : ε) : Reader ε Unit := fun input =>
  if input.length < count then .error (.refused err) else .ok ((), input)

def take (count : Nat) : Reader ε (List UInt8) := fun input =>
  if input.length < count then .error .overread else .ok (input.take count, input.drop count)

def number (width : Nat) : Reader ε Nat := ofBigEndian <$> take width

def byte : Reader ε UInt8
  | [] => .error .overread
  | byte :: rest => .ok (byte, rest)

def isEmpty : Reader ε Bool := fun input => .ok (input.isEmpty, input)

/-- Nothing may be left. -/
def ended (err : ε) : Reader ε Unit := fun input =>
  if input.isEmpty then .ok ((), input) else .error (.refused err)

def lift (result : Except (Stop ε) α) : Reader ε α := fun input =>
  result.map fun value => (value, input)

def times (reader : Reader ε α) : Nat → Reader ε (List α)
  | 0 => pure []
  | count + 1 => do
    let value ← reader
    let values ← times reader count
    pure (value :: values)

variable {reader : Reader ε α} {next : α → Reader ε β} {input rest : List UInt8}

theorem bind_apply (reader : Reader ε α) (next : α → Reader ε β) (input : List UInt8) :
    (reader >>= next) input = match reader input with
      | .ok (value, rest) => next value rest
      | .error stop => .error stop := by
  change StateT.bind reader next input = _
  unfold StateT.bind
  cases reader input <;> rfl

theorem bind_of_ok {value : α} (read : reader input = .ok (value, rest)) :
    (reader >>= next) input = next value rest := by
  rw [bind_apply, read]

@[simp] theorem bind_eq_ok {result : β × List UInt8} :
    (reader >>= next) input = .ok result ↔
      ∃ value rest, reader input = .ok (value, rest) ∧ next value rest = .ok result := by
  rw [bind_apply]
  rcases reader input with stop | ⟨value, rest⟩ <;> simp

theorem bind_eq_overread :
    (reader >>= next) input = .error .overread ↔ reader input = .error .overread ∨
      ∃ value rest, reader input = .ok (value, rest) ∧ next value rest = .error .overread := by
  rw [bind_apply]
  rcases reader input with stop | ⟨value, rest⟩ <;> simp

theorem bind_eq_overread_of_safe (safe : reader input ≠ .error .overread) :
    (reader >>= next) input = .error .overread ↔
      ∃ value rest, reader input = .ok (value, rest) ∧ next value rest = .error .overread := by
  rw [bind_eq_overread, or_iff_right safe]

@[simp] theorem pure_eq_ok {value : α} {result : α × List UInt8} :
    (pure value : Reader ε α) input = .ok result ↔ (value, input) = result := by
  change Except.ok (value, input) = .ok result ↔ _
  rw [Except.ok.injEq]

@[simp] theorem refuse_ne_ok {err : ε} {result : α × List UInt8} :
    refuse err input ≠ .ok result := nofun

@[simp] theorem require_eq_ok {count : Nat} {err : ε} {value : Unit} :
    require count err input = .ok (value, rest) ↔ count ≤ input.length ∧ input = rest := by
  unfold require
  split <;> simp <;> omega

theorem require_of_le {count : Nat} {err : ε} (enough : count ≤ input.length) :
    require count err input = .ok ((), input) :=
  require_eq_ok.mpr ⟨enough, rfl⟩

@[simp] theorem take_eq_ok {count : Nat} {bytes : List UInt8} :
    (take count : Reader ε _) input = .ok (bytes, rest) ↔
      bytes.length = count ∧ input = bytes ++ rest := by
  unfold take
  split
  · rename_i short
    simp only [reduceCtorEq, false_iff, not_and]
    rintro length rfl
    rw [List.length_append] at short
    omega
  · rename_i long
    rw [Except.ok.injEq, Prod.mk.injEq]
    constructor
    · rintro ⟨rfl, rfl⟩
      exact ⟨List.length_take_of_le (not_lt.mp long), (List.take_append_drop ..).symm⟩
    · rintro ⟨rfl, rfl⟩
      exact ⟨List.take_left, List.drop_left⟩

@[simp] theorem number_eq_ok {width n : Nat} :
    (number width : Reader ε _) input = .ok (n, rest) ↔
      n < 256 ^ width ∧ input = bigEndian width n ++ rest := by
  have unfolded : (number width : Reader ε _) = take width >>= fun bytes =>
    pure (ofBigEndian bytes) := rfl
  rw [unfolded]
  simp only [bind_eq_ok, take_eq_ok, pure_eq_ok, Prod.mk.injEq]
  constructor
  · rintro ⟨bytes, _, ⟨rfl, rfl⟩, rfl, rfl⟩
    exact ⟨ofBigEndian_lt bytes, by rw [bigEndian_ofBigEndian]⟩
  · rintro ⟨bound, rfl⟩
    exact ⟨_, _, ⟨length_bigEndian .., rfl⟩, ofBigEndian_bigEndian bound, rfl⟩

@[simp] theorem lift_eq_ok {result : Except (Stop ε) α} {value : α} :
    lift result input = .ok (value, rest) ↔ result = .ok value ∧ input = rest := by
  cases result <;> simp [lift, Except.map]

@[simp] theorem byte_eq_ok {value : UInt8} :
    (byte : Reader ε _) input = .ok (value, rest) ↔ input = value :: rest := by
  cases input <;> simp [byte]

@[simp] theorem ended_eq_ok {err : ε} {value : Unit} :
    ended err input = .ok (value, rest) ↔ input = [] ∧ rest = [] := by
  unfold ended
  cases input <;> simp [eq_comm]

end Readers

/-! ### Reading what was written -/

section Inverse

variable {ε α : Type}

/-- The reader accepts what the writer writes, for values of the written type, and nothing
else. -/
def Inverse (typed : α → Prop) (put : α → Except ε (List UInt8)) (reader : Reader ε α) : Prop :=
  ∀ (input : List UInt8) (value : α) (rest : List UInt8), reader input = .ok (value, rest) ↔
    typed value ∧ ∃ bytes, put value = .ok bytes ∧ input = bytes ++ rest

variable {put : α → Except ε (List UInt8)} {reader : Reader ε α}

theorem Inverse.pair {β : Type} {first : α → Prop} {second : β → Prop}
    {putNext : β → Except ε (List UInt8)} {next : Reader ε β} (inverse : Inverse first put reader)
    (inverseNext : Inverse second putNext next) :
    Inverse (fun values : α × β => first values.1 ∧ second values.2)
      (fun values => do
        let front ← put values.1
        let back ← putNext values.2
        pure (front ++ back))
      (do
        let value ← reader
        let more ← next
        pure (value, more)) := by
  rintro input ⟨value, more⟩ rest
  simp only [bind_eq_ok, pure_eq_ok, Prod.mk.injEq, inverse _ _ _, inverseNext _ _ _,
    Except.bind_eq_ok_iff, Except.pure_eq_ok_iff]
  constructor
  · rintro ⟨_, _, ⟨typed, front, wrote, rfl⟩, _, _, ⟨typedNext, back, wroteNext, rfl⟩,
      ⟨rfl, rfl⟩, rfl⟩
    exact ⟨⟨typed, typedNext⟩, _, ⟨front, wrote, back, wroteNext, rfl⟩,
      (List.append_assoc ..).symm⟩
  · rintro ⟨⟨typed, typedNext⟩, _, ⟨front, wrote, back, wroteNext, rfl⟩, rfl⟩
    exact ⟨value, back ++ rest, ⟨typed, front, wrote, List.append_assoc ..⟩, more, rest,
      ⟨typedNext, back, wroteNext, rfl⟩, ⟨rfl, rfl⟩, rfl⟩

variable {typed : α → Prop}

theorem Inverse.retyped {other : α → Prop} (inverse : Inverse typed put reader)
    (same : ∀ value, typed value ↔ other value) : Inverse other put reader := by
  intro input value rest
  rw [inverse, same]

theorem Inverse.checked (inverse : Inverse typed put reader) {count : Nat} (err : ε)
    (long : ∀ value bytes, put value = .ok bytes → count ≤ bytes.length) :
    Inverse typed put (do
      require count err
      reader) := by
  intro input value rest
  simp only [bind_eq_ok, require_eq_ok, inverse _ _ _]
  constructor
  · rintro ⟨_, _, ⟨-, rfl⟩, read⟩
    exact read
  · rintro ⟨well, bytes, written, rfl⟩
    refine ⟨(), _, ⟨?_, rfl⟩, well, bytes, written, rfl⟩
    rw [List.length_append]
    exact (long value bytes written).trans (Nat.le_add_right ..)

def putAll (put : α → Except ε (List UInt8)) : List α → Except ε (List UInt8)
  | [] => .ok []
  | value :: values => do
    let bytes ← put value
    let more ← putAll put values
    pure (bytes ++ more)

variable {values : List α} {bytes : List UInt8}

theorem putAll_cons_eq_ok {value : α} :
    putAll put (value :: values) = .ok bytes ↔ ∃ front, put value = .ok front ∧
      ∃ back, putAll put values = .ok back ∧ front ++ back = bytes := by
  simp only [putAll, Except.bind_eq_ok_iff, Except.pure_eq_ok_iff]

theorem Inverse.times (inverse : Inverse typed put reader) (count : Nat) :
    Inverse (fun values : List α => values.length = count ∧ ∀ value ∈ values, typed value)
      (putAll put) (times reader count) := by
  induction count with
  | zero =>
    intro input values rest
    simp only [Cursor.times, pure_eq_ok, Prod.mk.injEq]
    constructor
    · rintro ⟨rfl, rfl⟩
      exact ⟨⟨rfl, nofun⟩, [], rfl, rfl⟩
    · rintro ⟨⟨none, -⟩, bytes, written, rfl⟩
      obtain rfl := List.length_eq_zero_iff.mp none
      cases written
      exact ⟨rfl, rfl⟩
  | succ count ih =>
    intro input values rest
    simp only [Cursor.times, bind_eq_ok, pure_eq_ok, Prod.mk.injEq, inverse _ _ _, ih _ _ _]
    constructor
    · rintro ⟨value, _, ⟨first, front, wrote, rfl⟩, more, _, ⟨⟨length, all⟩, back, wroteAll, rfl⟩,
        rfl, rfl⟩
      refine ⟨⟨by rw [List.length_cons, length], List.forall_mem_cons.mpr ⟨first, all⟩⟩,
        front ++ back, putAll_cons_eq_ok.mpr ⟨front, wrote, back, wroteAll, rfl⟩, ?_⟩
      rw [List.append_assoc]
    · rintro ⟨⟨length, all⟩, bytes, written, rfl⟩
      cases values with
      | nil => cases length
      | cons value more =>
        obtain ⟨front, wrote, back, wroteAll, rfl⟩ := putAll_cons_eq_ok.mp written
        obtain ⟨first, all⟩ := List.forall_mem_cons.mp all
        exact ⟨value, back ++ rest, ⟨first, front, wrote, List.append_assoc ..⟩, more, rest,
          ⟨⟨Nat.succ.inj length, all⟩, back, wroteAll, rfl⟩, rfl, rfl⟩

/-- The number of values in `width` bytes, if it fits, and the values. -/
def putCounted (width : Nat) (err : ε) (put : α → Except ε (List UInt8)) (values : List α) :
    Except ε (List UInt8) :=
  if values.length < 256 ^ width then do
    let bytes ← putAll put values
    pure (bigEndian width values.length ++ bytes)
  else .error err

/-- A number of values and the values; the number must be there. -/
def counted (width : Nat) (reader : Reader ε α) : Reader ε (List α) := do
  let count ← number width
  times reader count

variable {width : Nat} {err : ε}

theorem putCounted_eq_ok :
    putCounted width err put values = .ok bytes ↔ values.length < 256 ^ width ∧
      ∃ all, putAll put values = .ok all ∧ bigEndian width values.length ++ all = bytes := by
  unfold putCounted
  split <;> rename_i bound
  · simp only [Except.bind_eq_ok_iff, Except.pure_eq_ok_iff, bound, true_and]
  · simp only [reduceCtorEq, bound, false_and]

theorem length_putCounted (written : putCounted width err put values = .ok bytes) :
    width ≤ bytes.length := by
  obtain ⟨-, all, -, rfl⟩ := putCounted_eq_ok.mp written
  rw [List.length_append, length_bigEndian]
  exact Nat.le_add_right ..

theorem Inverse.counted (inverse : Inverse typed put reader) (width : Nat) (err : ε) :
    Inverse (fun values : List α => ∀ value ∈ values, typed value) (putCounted width err put)
      (counted width reader) := by
  intro input values rest
  simp only [Cursor.counted, bind_eq_ok, number_eq_ok, inverse.times _ _ _ _, putCounted_eq_ok]
  constructor
  · rintro ⟨count, _, ⟨bound, rfl⟩, ⟨rfl, well⟩, all, written, rfl⟩
    exact ⟨well, _, ⟨bound, all, written, rfl⟩, (List.append_assoc ..).symm⟩
  · rintro ⟨well, _, ⟨bound, all, written, rfl⟩, rfl⟩
    exact ⟨_, all ++ rest, ⟨bound, List.append_assoc ..⟩, ⟨rfl, well⟩, all, written, rfl⟩

/-- The reader finds what the writer has written. -/
def Restores (put : α → Except ε (List UInt8)) (reader : Reader ε α) : Prop :=
  ∀ ⦃value : α⦄ ⦃bytes : List UInt8⦄, put value = .ok bytes →
    ∀ rest, reader (bytes ++ rest) = .ok (value, rest)

theorem Inverse.restores (inverse : Inverse (fun _ => True) put reader) : Restores put reader :=
  fun _ _ written rest => (inverse _ _ rest).mpr ⟨trivial, _, written, rfl⟩

theorem Restores.checked (restores : Restores put reader) {count : Nat} (err : ε)
    (long : ∀ value bytes, put value = .ok bytes → count ≤ bytes.length) :
    Restores put (do
      require count err
      reader) := by
  intro value bytes written rest
  have enough : count ≤ (bytes ++ rest).length := by
    rw [List.length_append]
    exact (long value bytes written).trans (Nat.le_add_right ..)
  rw [bind_of_ok (require_of_le enough)]
  exact restores written rest

theorem Restores.times (restores : Restores put reader)
    (written : putAll put values = .ok bytes) (rest : List UInt8) :
    times reader values.length (bytes ++ rest) = .ok (values, rest) := by
  induction values generalizing bytes with
  | nil =>
    cases written
    rfl
  | cons value values ih =>
    obtain ⟨front, wrote, back, wroteAll, rfl⟩ := putAll_cons_eq_ok.mp written
    rw [List.append_assoc, List.length_cons, Cursor.times, bind_of_ok (restores wrote _),
      bind_of_ok (ih wroteAll)]
    rfl

theorem Restores.counted (restores : Restores put reader) (width : Nat) (err : ε) :
    Restores (putCounted width err put) (counted width reader) := by
  intro values bytes written rest
  obtain ⟨bound, all, wroteAll, rfl⟩ := putCounted_eq_ok.mp written
  rw [List.append_assoc, Cursor.counted, bind_of_ok (number_eq_ok.mpr ⟨bound, rfl⟩)]
  exact restores.times wroteAll rest

theorem putAll_ok_iff :
    (∃ bytes, putAll put values = .ok bytes) ↔
      ∀ value ∈ values, ∃ bytes, put value = .ok bytes := by
  induction values with
  | nil => exact ⟨nofun, fun _ => ⟨[], rfl⟩⟩
  | cons value values ih =>
    simp only [putAll_cons_eq_ok, List.forall_mem_cons, ← ih]
    constructor
    · rintro ⟨bytes, front, wrote, back, wroteAll, -⟩
      exact ⟨⟨front, wrote⟩, back, wroteAll⟩
    · rintro ⟨⟨front, wrote⟩, back, wroteAll⟩
      exact ⟨front ++ back, front, wrote, back, wroteAll, rfl⟩

theorem putCounted_ok_iff :
    (∃ bytes, putCounted width err put values = .ok bytes) ↔
      values.length < 256 ^ width ∧ ∀ value ∈ values, ∃ bytes, put value = .ok bytes := by
  rw [← putAll_ok_iff]
  simp only [putCounted_eq_ok, exists_and_left]
  refine and_congr_right fun _ => ⟨?_, ?_⟩
  · rintro ⟨_, all, written, -⟩
    exact ⟨all, written⟩
  · rintro ⟨all, written⟩
    exact ⟨_, all, written, rfl⟩

end Inverse

/-! ### Reads that stay inside the buffer -/

section Safe

variable {ε α β : Type}

/-- With `count` bytes left the reader never asks for more than there are. -/
def SafeFrom (count : Nat) (reader : Reader ε α) : Prop :=
  ∀ input : List UInt8, count ≤ input.length → reader input ≠ .error .overread

namespace SafeFrom

variable {count : Nat} {reader : Reader ε α} {next : α → Reader ε β}

theorem mono {more : Nat} (safe : SafeFrom count reader) (le : count ≤ more) :
    SafeFrom more reader :=
  fun input long => safe input (le.trans long)

theorem pure {value : α} : SafeFrom (ε := ε) count (Pure.pure value) := fun _ _ => nofun

theorem refuse {err : ε} : SafeFrom count (refuse err : Reader ε α) := fun _ _ => nofun

theorem bind (safe : SafeFrom count reader) (after : ∀ value, SafeFrom 0 (next value)) :
    SafeFrom count (reader >>= next) := by
  intro input long overran
  rcases bind_eq_overread.mp overran with first | ⟨value, rest, -, second⟩
  · exact safe input long first
  · exact after value rest (Nat.zero_le _) second

theorem require {known : Nat} {err : ε} {reader : Unit → Reader ε β}
    (safe : SafeFrom (max known count) (reader ())) :
    SafeFrom known (require count err >>= reader) := by
  intro input long overran
  rcases bind_eq_overread.mp overran with first | ⟨_, rest, passed, second⟩
  · unfold Cursor.require at first
    split at first <;> cases first
  · obtain ⟨enough, rfl⟩ := require_eq_ok.mp passed
    exact safe _ (max_le long enough) second

theorem times (safe : SafeFrom 0 reader) (count : Nat) : SafeFrom 0 (times reader count) := by
  induction count with
  | zero => exact pure
  | succ count ih => exact safe.bind fun value => ih.bind fun values => pure

end SafeFrom

/-- Takes `width` bytes if it succeeds, and asks for no more. -/
structure Fixed (width : Nat) (reader : Reader ε α) : Prop where
  safe : SafeFrom width reader
  spent : ∀ {input rest : List UInt8} {value : α}, reader input = .ok (value, rest) →
    input.length = width + rest.length

theorem SafeFrom.fixed {width known : Nat} {reader : Reader ε α} {next : α → Reader ε β}
    (fixed : Fixed width reader) (enough : width ≤ known)
    (safe : ∀ value, SafeFrom (known - width) (next value)) : SafeFrom known (reader >>= next) := by
  intro input long overran
  rcases bind_eq_overread.mp overran with first | ⟨value, rest, read, second⟩
  · exact fixed.safe input (enough.trans long) first
  · have spent := fixed.spent read
    exact safe value rest (by omega) second

namespace Fixed

variable {width : Nat} {reader : Reader ε α}

theorem byte : Fixed 1 (byte : Reader ε UInt8) where
  safe input long overran := by
    cases input with
    | nil => exact absurd long (by decide)
    | cons value rest => cases overran
  spent read := by
    rw [byte_eq_ok.mp read, List.length_cons, Nat.add_comm]

theorem take : Fixed width (take width : Reader ε (List UInt8)) where
  safe input long overran := by
    rw [Cursor.take, if_neg (not_lt.mpr long)] at overran
    cases overran
  spent read := by
    obtain ⟨rfl, rfl⟩ := take_eq_ok.mp read
    exact List.length_append

theorem lift (fixed : Fixed width reader) {result : α → Except (Stop ε) β}
    (handled : ∀ value, result value ≠ .error .overread) :
    Fixed width (reader >>= fun value => lift (result value)) where
  safe input long overran := by
    rcases bind_eq_overread.mp overran with first | ⟨value, rest, -, second⟩
    · exact fixed.safe input long first
    · apply handled value
      cases found : result value with
      | error stop =>
        rw [found] at second
        cases second
        rfl
      | ok after =>
        rw [found] at second
        cases second
  spent read := by
    obtain ⟨value, rest, first, second⟩ := bind_eq_ok.mp read
    obtain ⟨-, rfl⟩ := lift_eq_ok.mp second
    exact fixed.spent first

theorem convert (fixed : Fixed width reader) (f : α → β) :
    Fixed width (reader >>= fun value => Pure.pure (f value)) :=
  have lifted : Fixed width (reader >>= fun value => Cursor.lift (.ok (f value))) :=
    fixed.lift fun _ => nofun
  lifted

theorem number : Fixed width (number width : Reader ε Nat) := take.convert ofBigEndian

end Fixed

namespace SafeFrom

variable {count known : Nat}

theorem counted {width : Nat} {reader : Reader ε α} (safe : SafeFrom 0 reader) :
    SafeFrom width (counted width reader) :=
  fixed .number (le_refl width) fun count => (safe.times count).mono (Nat.zero_le _)

theorem byte {next : UInt8 → Reader ε β} (enough : 1 ≤ known)
    (safe : ∀ value, SafeFrom (known - 1) (next value)) : SafeFrom known (byte >>= next) :=
  fixed .byte enough safe

theorem number {next : Nat → Reader ε β} (enough : count ≤ known)
    (safe : ∀ n, SafeFrom (known - count) (next n)) :
    SafeFrom known (number count >>= next) := fixed .number enough safe

end SafeFrom

end Safe

end Cursor
