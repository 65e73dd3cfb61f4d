import Mathlib.Algebra.Ring.Nat
import Vaylix.Lib.Outcome

/-!
# Length-prefixed, checksummed records in a byte stream

A frame is the length of the encoding and a checksum, four bytes each and little-endian, then
the encoding. Frames are read back one by one, and a stream that ends inside a frame is an
error wherever it ends.
-/

namespace Framing

universe u v

/-- How records become bytes. -/
structure Format (ε : Type u) (α : Type v) where
  encode : α → List UInt8
  decode : List UInt8 → Except ε α
  hash : List UInt8 → UInt32
  /-- The longest encoding the reader accepts. -/
  limit : Nat
  limit_lt : limit < 2 ^ 32
  decode_encode : ∀ record, decode (encode record) = .ok record
  encode_ne_nil : ∀ record, encode record ≠ []

inductive ReadError (ε : Type u) where
  | truncatedLength
  | invalidLength (length : Nat)
  | truncatedChecksum
  | truncatedPayload
  | checksumMismatch
  | undecodable (err : ε)

def toLittleEndian (n : Nat) : List UInt8 :=
  [UInt8.ofNat n, UInt8.ofNat (n / 2 ^ 8), UInt8.ofNat (n / 2 ^ 16), UInt8.ofNat (n / 2 ^ 24)]

def fromLittleEndian (a b c d : UInt8) : Nat :=
  a.toNat + b.toNat * 2 ^ 8 + c.toNat * 2 ^ 16 + d.toNat * 2 ^ 24

theorem fromLittleEndian_toLittleEndian {n : Nat} (bound : n < 2 ^ 32) :
    fromLittleEndian (UInt8.ofNat n) (UInt8.ofNat (n / 2 ^ 8)) (UInt8.ofNat (n / 2 ^ 16))
      (UInt8.ofNat (n / 2 ^ 24)) = n := by
  simp only [fromLittleEndian, UInt8.toNat_ofNat']
  omega

variable {ε : Type u} {α : Type v} (format : Format ε α)

def frame (record : α) : List UInt8 :=
  toLittleEndian (format.encode record).length ++
    toLittleEndian (format.hash (format.encode record)).toNat ++ format.encode record

theorem length_frame (record : α) :
    (frame format record).length = 8 + (format.encode record).length := by
  simp [frame, toLittleEndian]
  omega

def frames (records : List α) : List UInt8 := records.flatMap (frame format)

def readFrames (bytes : List UInt8) : Except (ReadError ε) (List α) :=
  match bytes with
  | [] => .ok []
  | a :: b :: c :: d :: rest =>
    let length := fromLittleEndian a b c d
    if length = 0 ∨ format.limit < length then .error (.invalidLength length)
    else
      match rest with
      | a :: b :: c :: d :: behind =>
        if behind.length < length then .error .truncatedPayload
        else
          let payload := behind.take length
          if (format.hash payload).toNat ≠ fromLittleEndian a b c d then .error .checksumMismatch
          else
            match format.decode payload with
            | .error err => .error (.undecodable err)
            | .ok record => (readFrames (behind.drop length)).map (record :: ·)
      | _ => .error .truncatedChecksum
  | _ => .error .truncatedLength
termination_by bytes.length
decreasing_by
  simp only [List.length_cons, List.length_drop]
  omega

variable {format}

theorem frame_append_eq (record : α) (behind : List UInt8) :
    frame format record ++ behind =
      UInt8.ofNat (format.encode record).length ::
      UInt8.ofNat ((format.encode record).length / 2 ^ 8) ::
      UInt8.ofNat ((format.encode record).length / 2 ^ 16) ::
      UInt8.ofNat ((format.encode record).length / 2 ^ 24) ::
      UInt8.ofNat (format.hash (format.encode record)).toNat ::
      UInt8.ofNat ((format.hash (format.encode record)).toNat / 2 ^ 8) ::
      UInt8.ofNat ((format.hash (format.encode record)).toNat / 2 ^ 16) ::
      UInt8.ofNat ((format.hash (format.encode record)).toNat / 2 ^ 24) ::
      (format.encode record ++ behind) := by
  simp only [frame, toLittleEndian, List.cons_append, List.nil_append]

theorem readFrames_frame_append {record : α} (bound : (format.encode record).length ≤ format.limit)
    (behind : List UInt8) :
    readFrames format (frame format record ++ behind) =
      (readFrames format behind).map (record :: ·) := by
  have length := fromLittleEndian_toLittleEndian (Nat.lt_of_le_of_lt bound format.limit_lt)
  have positive := List.length_pos_iff.mpr (format.encode_ne_nil record)
  have checksum := fromLittleEndian_toLittleEndian
    (UInt32.toNat_lt (format.hash (format.encode record)))
  have valid : ¬ ((format.encode record).length = 0 ∨
      format.limit < (format.encode record).length) := by omega
  have whole : ¬ (format.encode record ++ behind).length < (format.encode record).length := by
    rw [List.length_append]
    omega
  rw [frame_append_eq, readFrames]
  simp only [length, checksum, if_neg valid, if_neg whole, List.take_left, List.drop_left,
    format.decode_encode, ne_eq, not_true_eq_false, if_false]

theorem readFrames_oversized {record : α} (fits : (format.encode record).length < 2 ^ 32)
    (exceeds : format.limit < (format.encode record).length) (behind : List UInt8) :
    readFrames format (frame format record ++ behind) =
      .error (.invalidLength (format.encode record).length) := by
  rw [frame_append_eq, readFrames]
  simp only [fromLittleEndian_toLittleEndian fits, exceeds, or_true, if_true]

/-- Frames are read back, whatever comes behind them. -/
theorem readFrames_frames_append {records : List α}
    (bound : ∀ record ∈ records, (format.encode record).length ≤ format.limit)
    (behind : List UInt8) :
    readFrames format (frames format records ++ behind) =
      (readFrames format behind).map (records ++ ·) := by
  induction records with
  | nil => cases read : readFrames format behind <;> simp [frames, read, Except.map]
  | cons record rest ih =>
    have later := ih (List.forall_mem_cons.mp bound).2
    rw [frames, List.flatMap_cons, List.append_assoc,
      readFrames_frame_append (bound record List.mem_cons_self)]
    rw [frames] at later
    rw [later]
    cases readFrames format behind <;> rfl

/-- The bytes determine the records. -/
theorem frames_injective {records others : List α}
    (bound : ∀ record ∈ records, (format.encode record).length ≤ format.limit)
    (bounded : ∀ record ∈ others, (format.encode record).length ≤ format.limit)
    (same : frames format records = frames format others) : records = others := by
  have left := readFrames_frames_append bound []
  have right := readFrames_frames_append bounded []
  rw [same, right] at left
  simpa [readFrames, Except.map] using left.symm

theorem readFrames_torn {record : α} {written : Nat}
    (fits : (format.encode record).length < 2 ^ 32) (started : 0 < written)
    (torn : written < (frame format record).length) :
    ∃ err, readFrames format ((frame format record).take written) = .error err := by
  rw [length_frame] at torn
  have shape := (List.append_nil (frame format record)).symm.trans (frame_append_eq record [])
  rw [List.append_nil] at shape
  rw [shape]
  have length := fromLittleEndian_toLittleEndian fits
  match written, started with
  | 1, _ | 2, _ | 3, _ => exact ⟨.truncatedLength, by simp [readFrames]⟩
  | 4, _ | 5, _ | 6, _ | 7, _ =>
    simp only [List.take_succ_cons, List.take_zero]
    rw [readFrames.eq_def]
    simp only [length]
    split
    · exact ⟨_, rfl⟩
    · exact ⟨_, rfl⟩
  | n + 8, _ =>
    simp only [List.take_succ_cons]
    rw [readFrames]
    simp only [length]
    split
    · exact ⟨_, rfl⟩
    · have short : ((format.encode record).take n).length < (format.encode record).length := by
        rw [List.length_take]
        omega
      rw [if_pos short]
      exact ⟨_, rfl⟩

theorem frames_append (front back : List α) :
    frames format (front ++ back) = frames format front ++ frames format back :=
  List.flatMap_append

/-- Frames that are cut short are read only where the cut is the end of a frame. -/
theorem readFrames_take {records : List α}
    (bound : ∀ record ∈ records, (format.encode record).length ≤ format.limit) {cut : Nat}
    (within : cut ≤ (frames format records).length) {read : List α}
    (success : readFrames format ((frames format records).take cut) = .ok read) :
    read <+: records ∧ cut = (frames format read).length := by
  induction records generalizing cut read with
  | nil =>
    obtain rfl : cut = 0 := Nat.le_zero.mp within
    rw [List.take_zero, readFrames] at success
    cases success
    exact ⟨List.prefix_rfl, rfl⟩
  | cons record rest ih =>
    have bounded := bound record List.mem_cons_self
    rw [frames, List.flatMap_cons, ← frames] at within success
    rw [List.length_append] at within
    rcases Nat.lt_or_ge cut (frame format record).length with inside | behind
    · rw [List.take_append_of_le_length (Nat.le_of_lt inside)] at success
      rcases Nat.eq_zero_or_pos cut with rfl | started
      · rw [List.take_zero, readFrames] at success
        cases success
        exact ⟨List.nil_prefix, rfl⟩
      · obtain ⟨err, failed⟩ := readFrames_torn (Nat.lt_of_le_of_lt bounded format.limit_lt)
          started inside
        rw [failed] at success
        cases success
    · obtain ⟨more, rfl⟩ := Nat.exists_eq_add_of_le behind
      rw [List.take_length_add_append, readFrames_frame_append bounded] at success
      obtain ⟨kept, later, rfl⟩ := Except.map_eq_ok_iff.mp success
      obtain ⟨front, rfl⟩ := ih (List.forall_mem_cons.mp bound).2
        (by omega) later
      refine ⟨(List.prefix_cons_inj record).mpr front, ?_⟩
      simp [frames]

theorem readFrames_error_append {records : List α}
    (fits : ∀ record ∈ records, (format.encode record).length < 2 ^ 32) {behind : List UInt8}
    (unread : ∃ err, readFrames format behind = .error err) :
    ∃ err, readFrames format (frames format records ++ behind) = .error err := by
  induction records with
  | nil => exact unread
  | cons record rest ih =>
    obtain ⟨err, later⟩ := ih (List.forall_mem_cons.mp fits).2
    rw [frames, List.flatMap_cons, List.append_assoc]
    by_cases bound : (format.encode record).length ≤ format.limit
    · rw [readFrames_frame_append bound]
      rw [frames] at later
      rw [later]
      exact ⟨err, rfl⟩
    · exact ⟨_, readFrames_oversized (fits record List.mem_cons_self) (Nat.not_le.mp bound) _⟩

end Framing
