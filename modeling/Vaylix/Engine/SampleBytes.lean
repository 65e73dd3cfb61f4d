import Vaylix.Engine.WalBytes

/-!
# A worked encoding of log entries

A small encoding with a decoder, for runs on concrete bytes: an entry is a list of
numbers, and a number is that many ones and a zero.
-/

namespace Vaylix

namespace SampleBytes

def takeCounted : List Nat → Option (List Nat × List Nat)
  | [] => none
  | count :: rest => some (rest.take count, rest.drop count)

def counted (numbers : List Nat) : List Nat := numbers.length :: numbers

theorem takeCounted_counted (numbers behind : List Nat) :
    takeCounted (counted numbers ++ behind) = some (numbers, behind) := by
  simp [takeCounted, counted]

def textCodes (text : String) : List Nat := text.toList.map Char.toNat

def codesText (codes : List Nat) : String := String.ofList (codes.map Char.ofNat)

theorem codesText_textCodes (text : String) : codesText (textCodes text) = text := by
  simp [codesText, textCodes, Function.comp_def]

def byteCodes (bytes : Bytes) : List Nat := bytes.map UInt8.toNat

def codesBytes (codes : List Nat) : Bytes := codes.map UInt8.ofNat

theorem codesBytes_byteCodes (bytes : Bytes) : codesBytes (byteCodes bytes) = bytes := by
  simp [codesBytes, byteCodes, Function.comp_def]

def operationCodes : WalOperation → List Nat
  | .set key value version => 0 :: version :: (counted (textCodes key) ++ counted (byteCodes value))
  | .delete key => 1 :: counted (textCodes key)
  | .expire key expiresAtMs => 2 :: expiresAtMs :: counted (textCodes key)
  | .persist key => 3 :: counted (textCodes key)
  | .clear => [4]
  | .checkInteger key (.ofNat delta) => 5 :: delta :: counted (textCodes key)
  | .checkInteger key (.negSucc delta) => 6 :: delta :: counted (textCodes key)

def takeOperation : List Nat → Option (WalOperation × List Nat)
  | 0 :: version :: rest => do
    let (key, rest) ← takeCounted rest
    let (value, rest) ← takeCounted rest
    return (.set (codesText key) (codesBytes value) version, rest)
  | 1 :: rest => (takeCounted rest).map fun (key, rest) => (.delete (codesText key), rest)
  | 2 :: expiresAtMs :: rest =>
    (takeCounted rest).map fun (key, rest) => (.expire (codesText key) expiresAtMs, rest)
  | 3 :: rest => (takeCounted rest).map fun (key, rest) => (.persist (codesText key), rest)
  | 4 :: rest => some (.clear, rest)
  | 5 :: delta :: rest =>
    (takeCounted rest).map fun (key, rest) => (.checkInteger (codesText key) (.ofNat delta), rest)
  | 6 :: delta :: rest =>
    (takeCounted rest).map fun (key, rest) => (.checkInteger (codesText key) (.negSucc delta), rest)
  | _ => none

theorem takeOperation_operationCodes (operation : WalOperation) (behind : List Nat) :
    takeOperation (operationCodes operation ++ behind) = some (operation, behind) := by
  match operation with
  | .set key value version =>
    simp [operationCodes, takeOperation, takeCounted_counted, codesText_textCodes,
      codesBytes_byteCodes]
  | .delete key | .expire key _ | .persist key =>
    simp [operationCodes, takeOperation, takeCounted_counted, codesText_textCodes]
  | .clear => rfl
  | .checkInteger key (.ofNat delta) | .checkInteger key (.negSucc delta) =>
    simp [operationCodes, takeOperation, takeCounted_counted, codesText_textCodes]

def takeOperations : Nat → List Nat → Option (List WalOperation)
  | 0, _ => some []
  | count + 1, codes => do
    let (operation, rest) ← takeOperation codes
    let operations ← takeOperations count rest
    return operation :: operations

theorem takeOperations_flatMap (operations : List WalOperation) :
    takeOperations operations.length (operations.flatMap operationCodes) = some operations := by
  induction operations with
  | nil => rfl
  | cons operation rest ih =>
    rw [List.length_cons, List.flatMap_cons, takeOperations, takeOperation_operationCodes]
    simp [ih]

def entryCodes (entry : WalEntry) : List Nat :=
  entry.sequence :: entry.term :: entry.createdAtMs :: entry.operations.length ::
    entry.operations.flatMap operationCodes

def codesEntry : List Nat → Option WalEntry
  | sequence :: term :: createdAtMs :: count :: codes =>
    (takeOperations count codes).map fun operations => ⟨sequence, term, createdAtMs, operations⟩
  | _ => none

theorem codesEntry_entryCodes (entry : WalEntry) : codesEntry (entryCodes entry) = some entry := by
  simp [codesEntry, entryCodes, takeOperations_flatMap]

def toBytes (codes : List Nat) : List UInt8 :=
  codes.flatMap fun code => List.replicate code 1 ++ [0]

def fromBytes : Nat → List UInt8 → List Nat
  | _, [] => []
  | seen, byte :: rest => if byte = 0 then seen :: fromBytes 0 rest else fromBytes (seen + 1) rest

theorem fromBytes_replicate (seen code : Nat) (behind : List UInt8) :
    fromBytes seen (List.replicate code 1 ++ 0 :: behind) =
      (seen + code) :: fromBytes 0 behind := by
  induction code generalizing seen with
  | zero => rfl
  | succ code ih =>
    rw [List.replicate_succ, List.cons_append, fromBytes, if_neg (by decide), ih, Nat.add_assoc,
      Nat.add_comm 1]

theorem fromBytes_toBytes (codes : List Nat) : fromBytes 0 (toBytes codes) = codes := by
  induction codes with
  | nil => rfl
  | cons code rest ih =>
    rw [toBytes, List.flatMap_cons, List.append_assoc, List.singleton_append, fromBytes_replicate,
      Nat.zero_add]
    rw [toBytes] at ih
    rw [ih]

def decodeEntry (bytes : List UInt8) : Except EngineError WalEntry :=
  match codesEntry (fromBytes 0 bytes) with
  | some entry => .ok entry
  | none => .error (.walDeserialize "unexpected end of file")

/-- The worked encoding; its checksums are those of the sample encodings. -/
scoped instance walEncoding : WalEncoding where
  checksum := Sample.codec.checksum
  durableLen entry := (toBytes (entryCodes entry)).length
  durableLen_pos entry := by
    simp only [toBytes, entryCodes, List.flatMap_cons, List.length_append, List.length_singleton]
    omega
  snapshotLen := Sample.codec.snapshotLen
  snapshotChecksum := Sample.codec.snapshotChecksum
  parseLogicalBackup := Sample.codec.parseLogicalBackup
  encodeEntry entry := toBytes (entryCodes entry)
  decodeEntry := decodeEntry
  hash bytes := UInt32.ofNat (bytes.foldl (fun code byte => code * 31 + byte.toNat) 7)
  decode_encode entry := by
    simp only [decodeEntry, fromBytes_toBytes, codesEntry_entryCodes]
  length_encodeEntry _ := rfl

end SampleBytes

end Vaylix
