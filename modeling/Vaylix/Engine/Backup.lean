import Vaylix.Engine.LogGrowth
import Vaylix.Engine.SampleBytes
import Vaylix.Lib.MapFold

/-!
# Logical backups

`BACKUP` renders the live keys as a JSON document with base64 values; `RESTORE` logs one entry
that clears the keyspace and writes them back. A restore gives the keys that are still live,
if its entry is short enough for the log. `RESTORE CHECK` does not decode the values, and
accepts documents a restore refuses.
-/

namespace Vaylix

open EngineStore

structure LogicalBackupItem where
  key : Key
  valueBase64 : String
  expiresAtMs : Option Nat
  version : Nat
deriving DecidableEq, Repr

structure LogicalBackupDocument where
  version : Nat
  createdAtMs : Nat
  sourceEngineVersion : Nat
  sourceSequence : Nat
  entries : List LogicalBackupItem
deriving DecidableEq, Repr

/-- One key of a version 1 document: the value is the text itself. -/
structure LegacyLogicalBackupEntry where
  key : Key
  value : String
  expiresAtMs : Option Nat
deriving DecidableEq, Repr

structure LegacyLogicalBackup where
  createdAtMs : Nat
  sourceEngineVersion : Nat
  sourceSequence : Nat
  entries : List LegacyLogicalBackupEntry
deriving DecidableEq, Repr

/-- The texts of documents and values, with their round trips. -/
class BackupText where
  encodeBase64 : Bytes → String
  decodeBase64 : String → Option Bytes
  parseHeader : String → Except String Nat
  parseDocument : String → Except String LogicalBackupDocument
  parseLegacy : String → Except String LegacyLogicalBackup
  renderDocument : LogicalBackupDocument → String
  decode_encode : ∀ bytes, decodeBase64 (encodeBase64 bytes) = some bytes
  parseHeader_render : ∀ document, parseHeader (renderDocument document) = .ok document.version
  parseDocument_render : ∀ document, parseDocument (renderDocument document) = .ok document

section Text

variable [BackupText]

def LegacyLogicalBackup.upgrade (legacy : LegacyLogicalBackup) : LogicalBackupDocument where
  version := 2
  createdAtMs := legacy.createdAtMs
  sourceEngineVersion := legacy.sourceEngineVersion
  sourceSequence := legacy.sourceSequence
  entries := legacy.entries.map fun entry =>
    ⟨entry.key, BackupText.encodeBase64 (textBytes entry.value), entry.expiresAtMs, 1⟩

/-- `parse_logical_backup`: the header decides how the document is read. -/
def parseLogicalBackup (dump : String) : Except EngineError LogicalBackupDocument :=
  match BackupText.parseHeader dump with
  | .error detail => .error (.snapshotDeserialize detail)
  | .ok 2 => (BackupText.parseDocument dump).mapError .snapshotDeserialize
  | .ok 1 =>
    match BackupText.parseLegacy dump with
    | .error detail => .error (.snapshotDeserialize detail)
    | .ok legacy => .ok legacy.upgrade
  | .ok _ => .error (.unsupportedStorageFormat "logical backup")

def LogicalBackupItem.decode (item : LogicalBackupItem) : LogicalBackupEntry :=
  ⟨item.key, BackupText.decodeBase64 item.valueBase64, item.expiresAtMs, item.version⟩

def StoredValue.backupItem (key : Key) (entry : StoredValue) : LogicalBackupItem :=
  ⟨key, BackupText.encodeBase64 entry.value, entry.expiresAtMs, entry.version⟩

theorem parseLogicalBackup_render {document : LogicalBackupDocument}
    (current : document.version = 2) :
    parseLogicalBackup (BackupText.renderDocument document) = .ok document := by
  unfold parseLogicalBackup
  rw [BackupText.parseHeader_render, current]
  simp only [BackupText.parseDocument_render]
  rfl

end Text

/-- The codec of the engine reads documents as `parse_logical_backup` does. -/
class BackupCodec extends Codec, BackupText where
  parse_eq : ∀ dump, Codec.parseLogicalBackup dump =
    (Vaylix.parseLogicalBackup dump).map fun document =>
      ⟨document.entries.map LogicalBackupItem.decode⟩

def LogicalBackupItem.live (item : LogicalBackupItem) (nowMs : Nat) : Bool :=
  (item.expiresAtMs.map fun expiresAtMs => decide (nowMs < expiresAtMs)).getD true

namespace SampleBackup

open SampleBytes

def encodeBytes (bytes : Bytes) : String :=
  String.ofList (bytes.map fun byte => Char.ofNat (byte.toNat + 64))

def decodeBytes (text : String) : Option Bytes :=
  text.toList.mapM fun char => if char.toNat < 64 then none else some (.ofNat (char.toNat - 64))

theorem toNat_encodeChar (byte : UInt8) :
    (Char.ofNat (byte.toNat + 64)).toNat = byte.toNat + 64 := by
  have bound := byte.toNat_lt
  have valid : (byte.toNat + 64).isValidChar := .inl (by omega)
  rw [Char.ofNat, dif_pos valid]
  rfl

theorem decodeBytes_encodeBytes (bytes : Bytes) : decodeBytes (encodeBytes bytes) = some bytes := by
  unfold decodeBytes encodeBytes
  rw [String.toList_ofList]
  induction bytes with
  | nil => rfl
  | cons byte rest ih => simp [ih, toNat_encodeChar, Nat.not_lt.mpr (Nat.le_add_left 64 _)]

def itemCodes (item : LogicalBackupItem) : List Nat :=
  item.version :: (item.expiresAtMs.elim 0 (· + 1)) ::
    (counted (textCodes item.key) ++ counted (textCodes item.valueBase64))

def takeItem : List Nat → Option (LogicalBackupItem × List Nat)
  | version :: expires :: rest => do
    let (key, rest) ← takeCounted rest
    let (value, rest) ← takeCounted rest
    return (⟨codesText key, codesText value,
      if expires = 0 then none else some (expires - 1), version⟩, rest)
  | _ => none

theorem takeItem_itemCodes (item : LogicalBackupItem) (behind : List Nat) :
    takeItem (itemCodes item ++ behind) = some (item, behind) := by
  obtain ⟨key, value, expiresAtMs, version⟩ := item
  cases expiresAtMs <;> simp [itemCodes, takeItem, takeCounted_counted, codesText_textCodes]

def takeItems : Nat → List Nat → Option (List LogicalBackupItem)
  | 0, _ => some []
  | count + 1, codes => do
    let (item, rest) ← takeItem codes
    let items ← takeItems count rest
    return item :: items

theorem takeItems_flatMap (items : List LogicalBackupItem) :
    takeItems items.length (items.flatMap itemCodes) = some items := by
  induction items with
  | nil => rfl
  | cons item rest ih =>
    rw [List.length_cons, List.flatMap_cons, takeItems, takeItem_itemCodes]
    simp [ih]

def documentCodes (document : LogicalBackupDocument) : List Nat :=
  document.version :: document.createdAtMs :: document.sourceEngineVersion ::
    document.sourceSequence :: document.entries.length :: document.entries.flatMap itemCodes

def codesDocument : List Nat → Except String LogicalBackupDocument
  | version :: createdAtMs :: sourceEngineVersion :: sourceSequence :: count :: codes =>
    match takeItems count codes with
    | some items => .ok ⟨version, createdAtMs, sourceEngineVersion, sourceSequence, items⟩
    | none => .error "EOF while parsing a list"
  | _ => .error "missing field"

theorem codesDocument_documentCodes (document : LogicalBackupDocument) :
    codesDocument (documentCodes document) = .ok document := by
  simp [codesDocument, documentCodes, takeItems_flatMap]

/-- Numbers in unary, as a text. -/
def codesToText (codes : List Nat) : String := encodeBytes (toBytes codes)

def textToCodes (text : String) : List Nat := fromBytes 0 ((decodeBytes text).getD [])

theorem textToCodes_codesToText (codes : List Nat) : textToCodes (codesToText codes) = codes := by
  rw [textToCodes, codesToText, decodeBytes_encodeBytes]
  exact fromBytes_toBytes codes

/-- A worked document text; it has no version 1. -/
scoped instance backupText : BackupText where
  encodeBase64 := encodeBytes
  decodeBase64 := decodeBytes
  parseHeader dump := (codesDocument (textToCodes dump)).map LogicalBackupDocument.version
  parseDocument dump := codesDocument (textToCodes dump)
  parseLegacy _ := .error "missing field"
  renderDocument document := codesToText (documentCodes document)
  decode_encode := decodeBytes_encodeBytes
  parseHeader_render document := by
    rw [textToCodes_codesToText, codesDocument_documentCodes]
    rfl
  parseDocument_render document := by
    rw [textToCodes_codesToText, codesDocument_documentCodes]

def operationLength : WalOperation → Nat
  | .set key value _ => 16 + key.length + value.length
  | _ => 16

scoped instance backupCodec : BackupCodec where
  checksum := Sample.codec.checksum
  durableLen entry := 16 + (entry.operations.map operationLength).sum
  durableLen_pos _ := by omega
  snapshotLen := Sample.codec.snapshotLen
  snapshotChecksum := Sample.codec.snapshotChecksum
  parseLogicalBackup dump := (parseLogicalBackup dump).map fun document =>
    ⟨document.entries.map LogicalBackupItem.decode⟩
  toBackupText := backupText
  parse_eq _ := rfl

end SampleBackup

def restoreEntry (nowMs : Nat) (store : EngineStore) (entry : LogicalBackupEntry) : EngineStore :=
  if entry.expiresAtMs.any fun expiresAtMs => decide (expiresAtMs ≤ nowMs) then store
  else
    match entry.value with
    | some value => store.insertEntry entry.key ⟨value, entry.expiresAtMs, max entry.version 1⟩
    | none => store

theorem applyOperations_set_expire (store : EngineStore) (key : Key) (value : Bytes)
    (version : Nat) (expiresAtMs : Option Nat) (rest : List WalOperation) :
    applyOperations store
        (.set key value version :: expiresAtMs.toList.map (WalOperation.expire key) ++ rest) =
      applyOperations (store.insertEntry key ⟨value, expiresAtMs, version⟩) rest := by
  cases expiresAtMs with
  | none => rfl
  | some expiresAtMs =>
    have both : (store.insertValueWithVersion key value version).setExpirationIfPresent key
        expiresAtMs = store.insertEntry key ⟨value, some expiresAtMs, version⟩ := by
      ext other : 1
      by_cases same : key = other <;> simp [same]
    change applyOperations ((store.insertValueWithVersion key value version).setExpirationIfPresent
      key expiresAtMs) rest = _
    rw [both]

theorem applyOperations_restoreOperations {nowMs count : Nat} {entries : List LogicalBackupEntry}
    {operations : List WalOperation}
    (decoded : EngineState.restoreOperations nowMs entries = .ok (operations, count))
    (store : EngineStore) :
    applyOperations store operations = .ok (entries.foldl (restoreEntry nowMs) store) := by
  induction entries generalizing operations count store with
  | nil =>
    cases decoded
    rfl
  | cons entry rest ih =>
    rw [EngineState.restoreOperations] at decoded
    rw [List.foldl_cons, restoreEntry]
    split at decoded
    · rename_i expired
      rw [if_pos expired]
      exact ih decoded store
    · rename_i live
      rw [if_neg live]
      split at decoded
      · cases decoded
      · rename_i value valued
        split at decoded
        · cases decoded
        · rename_i later restored following
          cases decoded
          have written := applyOperations_set_expire store entry.key value (max entry.version 1)
            entry.expiresAtMs later
          rw [ih following] at written
          rw [valued]
          refine Eq.trans ?_ written
          cases entry.expiresAtMs <;> rfl

section Decoding

variable [BackupText]

theorem LogicalBackupItem.expired_iff (item : LogicalBackupItem) (nowMs : Nat) :
    (item.decode.expiresAtMs.any fun expiresAtMs => decide (expiresAtMs ≤ nowMs)) =
      !item.live nowMs := by
  cases expires : item.expiresAtMs with
  | none => simp [decode, live, expires]
  | some expiresAtMs =>
    simp only [decode, live, expires, Option.any_some, Option.map_some, Option.getD_some,
      ← decide_not, Nat.not_lt]

theorem StoredValue.live_backupItem (key : Key) (entry : StoredValue) (nowMs : Nat) :
    (entry.backupItem key).live nowMs = !entry.expiredAt nowMs := by
  cases expires : entry.expiresAtMs with
  | none => simp [backupItem, LogicalBackupItem.live, expiredAt, expires]
  | some expiresAtMs =>
    simp only [backupItem, LogicalBackupItem.live, expiredAt, expires, Option.map_some,
      Option.getD_some, ← decide_not, Nat.not_le]

theorem exists_restoreOperations {nowMs : Nat} {items : List LogicalBackupItem}
    (decodes : ∀ item ∈ items, item.live nowMs = true →
      ∃ bytes, BackupText.decodeBase64 item.valueBase64 = some bytes) :
    ∃ operations, EngineState.restoreOperations nowMs (items.map LogicalBackupItem.decode) =
      .ok (operations, (items.filter fun item => item.live nowMs).length) := by
  induction items with
  | nil => exact ⟨[], rfl⟩
  | cons item rest ih =>
    obtain ⟨operations, following⟩ :=
      ih (List.forall_mem_cons.mp decodes).2
    rw [List.map_cons, EngineState.restoreOperations, item.expired_iff]
    cases live : item.live nowMs with
    | false =>
      refine ⟨operations, ?_⟩
      rw [Bool.not_false, if_pos rfl, following, List.filter_cons_of_neg (by simp [live])]
    | true =>
      obtain ⟨bytes, value⟩ := decodes item List.mem_cons_self live
      simp only [Bool.not_true, Bool.false_eq_true, if_false, following]
      rw [LogicalBackupItem.decode, value, List.filter_cons_of_pos (by exact live)]
      exact ⟨_, rfl⟩

theorem restoreOperations_undecodable {nowMs : Nat} {items : List LogicalBackupItem}
    {item : LogicalBackupItem} (member : item ∈ items) (live : item.live nowMs = true)
    (broken : BackupText.decodeBase64 item.valueBase64 = none) :
    ∃ err, EngineState.restoreOperations nowMs (items.map LogicalBackupItem.decode) =
      .error err := by
  induction items with
  | nil => cases member
  | cons first rest ih =>
    rw [List.map_cons, EngineState.restoreOperations, first.expired_iff]
    rcases List.mem_cons.mp member with rfl | later
    · simp only [live, Bool.not_true, Bool.false_eq_true, if_false]
      rw [LogicalBackupItem.decode, broken]
      exact ⟨_, rfl⟩
    · obtain ⟨err, stopped⟩ := ih later
      rw [stopped]
      cases first.live nowMs with
      | false => exact ⟨err, by simp⟩
      | true =>
        simp only [Bool.not_true, Bool.false_eq_true, if_false]
        split
        · exact ⟨_, rfl⟩
        · exact ⟨err, rfl⟩

end Decoding

namespace Engine

section Restoring

variable [BackupCodec]

def logicalBackup (engine : Engine) (nowMs : Nat) : Engine × String :=
  let state := engine.state.purgeExpired nowMs
  ({ engine with state := state },
    BackupText.renderDocument {
      version := 2
      createdAtMs := nowMs
      sourceEngineVersion := state.metadata.version
      sourceSequence := state.metadata.lastAppliedSequence
      entries := state.store.toEntries.map fun (key, entry) => entry.backupItem key })

def restoreLogicalBackup (engine : Engine) (reading : Reading) (dump : String) :
    Engine × Except EngineError Nat :=
  engine.finish reading.created (engine.state.restoreLogicalBackup reading.now dump)

/-- `restore_logical_backup`, where `append_encoded_entry` has four bytes for the length. -/
def restoreEncoded (engine : Engine) (reading : Reading) (dump : String) :
    Engine × Except EngineError Nat :=
  match (engine.state.restoreLogicalBackup reading.now dump).operations with
  | some operations =>
    if 2 ^ 32 ≤ Codec.durableLen (engine.nextEntry reading.created operations) then
      (engine, .error (.io "wal entry too large"))
    else engine.restoreLogicalBackup reading dump
  | none => engine.restoreLogicalBackup reading dump

/-- `validate_logical_backup`: the values are not looked at. -/
def validateBackup (_ : Engine) (nowMs : Nat) (dump : String) : Except EngineError Nat :=
  match parseLogicalBackup dump with
  | .error err => .error err
  | .ok document => .ok (document.entries.filter fun item => item.live nowMs).length

/-- **What a restore does**, given what its document decodes to. -/
theorem restoreLogicalBackup_eq (engine : Engine) (reading : Reading) (dump : String) :
    engine.restoreLogicalBackup reading dump =
      match parseLogicalBackup dump with
      | .error err => (engine, .error err)
      | .ok document =>
        let entries := document.entries.map LogicalBackupItem.decode
        match EngineState.restoreOperations reading.now entries with
        | .error err => (engine, .error err)
        | .ok (operations, restored) =>
          (engine.appended (engine.nextEntry reading.created (.clear :: operations))
            (entries.foldl (restoreEntry reading.now) .new), .ok restored) := by
  unfold restoreLogicalBackup EngineState.restoreLogicalBackup
  rw [BackupCodec.parse_eq]
  cases parseLogicalBackup dump with
  | error err => rfl
  | ok document =>
    simp only [Except.map]
    cases decoded : EngineState.restoreOperations reading.now
        (document.entries.map LogicalBackupItem.decode) with
    | error err => rfl
    | ok outcome =>
      obtain ⟨operations, restored⟩ := outcome
      have run : applyOperations engine.state.store (.clear :: operations) =
          .ok ((document.entries.map LogicalBackupItem.decode).foldl
            (restoreEntry reading.now) .new) :=
        applyOperations_restoreOperations decoded .new
      simp only [finish, Prepared.state, Prepared.operations, Prepared.answer,
        appendAndApply_of_ok engine reading.created run]

/-- **`RESTORE CHECK` predicts `RESTORE`** exactly for the documents all of whose live
values decode. -/
theorem check_predicts_restore_iff (engine : Engine) (reading : Reading) (dump : String) :
    (∀ count, engine.validateBackup reading.now dump = .ok count ↔
        (engine.restoreLogicalBackup reading dump).2 = .ok count) ↔
      ∀ document, parseLogicalBackup dump = .ok document →
        ∀ item ∈ document.entries, item.live reading.now = true →
          ∃ bytes, BackupText.decodeBase64 item.valueBase64 = some bytes := by
  rw [restoreLogicalBackup_eq, validateBackup]
  cases parseLogicalBackup dump with
  | error err => simp
  | ok document =>
    simp only [Except.ok.injEq, forall_eq']
    constructor
    · intro predicts item member live
      by_contra broken
      have undecoded : BackupText.decodeBase64 item.valueBase64 = none := by
        simpa [Option.eq_none_iff_forall_ne_some] using broken
      obtain ⟨err, stopped⟩ := restoreOperations_undecodable member live undecoded
      have answered := (predicts _).mp rfl
      rw [stopped] at answered
      cases answered
    · intro decodes count
      obtain ⟨operations, decoded⟩ := exists_restoreOperations decodes
      rw [decoded]
      simp

end Restoring

open SampleBackup in
/-- The check counts a key whose value the restore cannot decode. -/
theorem check_accepts_undecodable :
    let dump := BackupText.renderDocument ⟨2, 0, 3, 7, [⟨"k", "!", none, 1⟩]⟩
    (create ⟨0, 0⟩ 0).validateBackup 5 dump = .ok 1 ∧
      ((create ⟨0, 0⟩ 0).restoreLogicalBackup (.still 5) dump).2 =
        .error (.snapshotDeserialize "invalid base64") := by
  dsimp only
  rw [validateBackup, restoreLogicalBackup_eq, parseLogicalBackup_render rfl]
  exact ⟨rfl, rfl⟩

section RoundTrip

variable [BackupCodec]

theorem foldl_restoreEntry_backupItem {nowMs : Nat} {pairs : List (Key × StoredValue)}
    (versioned : ∀ pair ∈ pairs, 1 ≤ pair.2.version) (store : EngineStore) :
    (pairs.map fun pair => (pair.2.backupItem pair.1).decode).foldl (restoreEntry nowMs) store =
      ⟨(pairs.filter fun pair => !pair.2.expiredAt nowMs).foldl
        (fun map pair => map.insert pair.1 pair.2) store.entries⟩ := by
  induction pairs generalizing store with
  | nil => rfl
  | cons pair rest ih =>
    have later := fun other member => versioned other (List.mem_cons_of_mem pair member)
    rw [List.map_cons, List.foldl_cons, ih later, restoreEntry,
      LogicalBackupItem.expired_iff, StoredValue.live_backupItem, Bool.not_not]
    cases expired : pair.2.expiredAt nowMs with
    | true => rw [if_pos rfl, List.filter_cons_of_neg (by simp [expired])]
    | false =>
      have version : max pair.2.version 1 = pair.2.version :=
        Nat.max_eq_left (versioned pair List.mem_cons_self)
      rw [List.filter_cons_of_pos (by simp [expired])]
      simp only [StoredValue.backupItem, LogicalBackupItem.decode, BackupText.decode_encode,
        version, Bool.false_eq_true, if_false]
      rfl

omit [BackupCodec] in
theorem toEntries_purgeExpired (store : EngineStore) (nowMs : Nat) :
    (store.purgeExpired nowMs).toEntries =
      store.toEntries.filter fun pair => !pair.2.expiredAt nowMs :=
  Std.ExtTreeMap.toList_filter

omit [BackupCodec] in
theorem foldl_insert_toEntries (store : EngineStore) :
    (⟨store.toEntries.foldl (fun map pair => map.insert pair.1 pair.2) ∅⟩ : EngineStore) =
      store := by
  have faithful : ∀ pair ∈ store.toEntries, store.entries[pair.1]? = some pair.2 :=
    fun pair member => Std.ExtTreeMap.mem_toList_iff_getElem?_eq_some.mp member
  ext key : 1
  change (store.toEntries.foldl _ _)[key]? = store.entries[key]?
  rw [MapFold.getElem?_foldl_insert faithful]
  split
  · rfl
  · rename_i absent
    cases found : store.entries[key]? with
    | none => simp
    | some entry =>
      exact absurd (List.mem_map.mpr ⟨(key, entry),
        Std.ExtTreeMap.mem_toList_iff_getElem?_eq_some.mpr found, rfl⟩) absent

theorem restoreLogicalBackup_logicalBackup (source target : Engine) {backupMs : Nat}
    {reading : Reading} (later : backupMs ≤ reading.now)
    (versioned : ∀ key entry, source.state.store.get key = some entry → 1 ≤ entry.version) :
    ∃ operations,
      target.restoreLogicalBackup reading (source.logicalBackup backupMs).2 =
        (target.appended (target.nextEntry reading.created operations)
            (source.state.store.purgeExpired reading.now),
          .ok (source.state.store.purgeExpired reading.now).toEntries.length) := by
  let pairs := (source.state.store.purgeExpired backupMs).toEntries
  have live : (pairs.filter fun pair => !pair.2.expiredAt reading.now) =
      (source.state.store.purgeExpired reading.now).toEntries := by
    rw [← toEntries_purgeExpired, purgeExpired_max, Nat.max_eq_right later]
  have parsed : ∃ document, parseLogicalBackup (source.logicalBackup backupMs).2 = .ok document ∧
      document.entries = pairs.map fun pair => pair.2.backupItem pair.1 :=
    ⟨_, parseLogicalBackup_render rfl, by rw [EngineState.purgeExpired_store]⟩
  obtain ⟨document, read, listed⟩ := parsed
  have decodes : ∀ item ∈ document.entries, item.live reading.now = true →
      ∃ bytes, BackupText.decodeBase64 item.valueBase64 = some bytes := by
    rw [listed]
    intro item member _
    obtain ⟨pair, -, rfl⟩ := List.mem_map.mp member
    exact ⟨pair.2.value, BackupText.decode_encode _⟩
  obtain ⟨operations, decoded⟩ := exists_restoreOperations decodes
  have counted : (document.entries.filter fun item => item.live reading.now).length =
      (source.state.store.purgeExpired reading.now).toEntries.length := by
    rw [listed, List.filter_map, List.length_map, ← live]
    simp only [Function.comp_def, StoredValue.live_backupItem]
  have versions : ∀ pair ∈ pairs, 1 ≤ pair.2.version := by
    intro pair member
    have stored := Std.ExtTreeMap.mem_toList_iff_getElem?_eq_some.mp member
    have kept : (source.state.store.purgeExpired backupMs).get pair.1 = some pair.2 := stored
    rw [get_purgeExpired, Option.filter_eq_some_iff] at kept
    exact versioned _ _ kept.1
  have written : (document.entries.map LogicalBackupItem.decode).foldl
      (restoreEntry reading.now) .new = source.state.store.purgeExpired reading.now := by
    rw [listed, List.map_map]
    exact (foldl_restoreEntry_backupItem versions .new).trans
      (live ▸ foldl_insert_toEntries _)
  refine ⟨.clear :: operations, ?_⟩
  rw [restoreLogicalBackup_eq, read]
  simp only [decoded, written, counted]

/-- **A backup restores to the keys that are still live**, and nothing else, if the entry of the
restore is short enough. -/
theorem backup_restores_live_keys (source target : Engine) (backupMs : Nat) (reading : Reading)
    (later : backupMs ≤ reading.now)
    (versioned : ∀ key entry, source.state.store.get key = some entry → 1 ≤ entry.version)
    (short : ∀ operations, (target.state.restoreLogicalBackup reading.now
        (source.logicalBackup backupMs).2).operations = some operations →
      Codec.durableLen (target.nextEntry reading.created operations) < 2 ^ 32) :
    let restored := target.restoreEncoded reading (source.logicalBackup backupMs).2
    restored.2 = .ok (source.state.store.toEntries.filter fun pair =>
        decide (∀ expiresAtMs ∈ pair.2.expiresAtMs, reading.now < expiresAtMs)).length ∧
      ∀ key entry, restored.1.state.store.get key = some entry ↔
        source.state.store.get key = some entry ∧
          ∀ expiresAtMs ∈ entry.expiresAtMs, reading.now < expiresAtMs := by
  obtain ⟨operations, restored⟩ := restoreLogicalBackup_logicalBackup source target later versioned
  have unexpired : ∀ entry : StoredValue, (!entry.expiredAt reading.now) =
      decide (∀ expiresAtMs ∈ entry.expiresAtMs, reading.now < expiresAtMs) := by
    intro entry
    cases expires : entry.expiresAtMs with
    | none => simp [StoredValue.expiredAt, expires]
    | some expiresAtMs => simp [StoredValue.expiredAt, expires, ← decide_not]
  have written : target.restoreEncoded reading (source.logicalBackup backupMs).2 =
      target.restoreLogicalBackup reading (source.logicalBackup backupMs).2 := by
    unfold restoreEncoded
    split
    · rename_i logged
      exact if_neg (Nat.not_le.mpr (short _ logged))
    · rfl
  rw [written, restored]
  refine ⟨?_, fun key entry => ?_⟩
  · rw [toEntries_purgeExpired]
    simp only [unexpired]
  · change (source.state.store.purgeExpired reading.now).get key = some entry ↔ _
    rw [get_purgeExpired, Option.filter_eq_some_iff, unexpired, decide_eq_true_iff]

/-- The operations of a restore are those of the keys the backup has found live. -/
theorem restoreLogicalBackup_operations (source target : Engine) {backupMs nowMs : Nat}
    {pairs : List (Key × StoredValue)}
    (listed : ((source.state.purgeExpired backupMs).store).toEntries = pairs) :
    (target.state.restoreLogicalBackup nowMs (source.logicalBackup backupMs).2).operations =
      ((EngineState.restoreOperations nowMs (pairs.map fun pair =>
        (pair.2.backupItem pair.1).decode)).toOption.map fun outcome => .clear :: outcome.1) := by
  subst listed
  unfold EngineState.restoreLogicalBackup
  rw [BackupCodec.parse_eq, logicalBackup, parseLogicalBackup_render rfl]
  simp only [Except.map, List.map_map]
  change _ = (EngineState.restoreOperations nowMs (List.map (LogicalBackupItem.decode ∘ _) _)
    ).toOption.map _
  cases EngineState.restoreOperations nowMs _ <;> rfl

end RoundTrip

open SampleBackup

def holding (value : Bytes) : Engine :=
  { create ⟨0, 0⟩ 0 with
    state := ⟨new.insertEntry "k" ⟨value, none, 1⟩, (EngineState.new 0).metadata⟩ }

theorem restoreOperations_holding (value : Bytes) :
    ((create ⟨0, 0⟩ 0).state.restoreLogicalBackup 5
      ((holding value).logicalBackup 5).2).operations = some [.clear, .set "k" value 1] := by
  have one : (new.insertEntry "k" ⟨value, none, 1⟩).toEntries = [("k", ⟨value, none, 1⟩)] := by
    have length : (new.insertEntry "k" ⟨value, none, 1⟩).toEntries.length = 1 := by
      simp [toEntries, insertEntry, new, Std.ExtTreeMap.length_toList, Std.ExtTreeMap.size_insert]
    obtain ⟨pair, listed⟩ := List.length_eq_one_iff.mp length
    have member : ("k", ⟨value, none, 1⟩) ∈ (new.insertEntry "k" ⟨value, none, 1⟩).toEntries :=
      Std.ExtTreeMap.mem_toList_iff_getElem?_eq_some.mpr (by simp [insertEntry])
    rw [listed, List.mem_singleton] at member
    rw [listed, member]
  have listed : ((holding value).state.purgeExpired 5).store.toEntries =
      [("k", ⟨value, none, 1⟩)] := by
    rw [EngineState.purgeExpired_store, toEntries_purgeExpired, holding, one]
    rfl
  rw [restoreLogicalBackup_operations _ _ listed]
  simp [EngineState.restoreOperations, LogicalBackupItem.decode, StoredValue.backupItem,
    BackupText.decode_encode, Except.toOption]

/-- A backup of four gigabytes cannot be restored. -/
theorem large_backup_refused :
    ∃ value : Bytes, value.length = 2 ^ 32 ∧
      (∀ key entry, (holding value).state.store.get key = some entry → 1 ≤ entry.version) ∧
      ((create ⟨0, 0⟩ 0).restoreEncoded (.still 5) ((holding value).logicalBackup 5).2).2 =
        .error (.io "wal entry too large") := by
  obtain ⟨value, length⟩ : ∃ value : Bytes, value.length = 2 ^ 32 :=
    ⟨List.replicate (2 ^ 32) 0, List.length_replicate⟩
  refine ⟨value, length, ?_, ?_⟩
  · intro key entry found
    rw [holding, get_insertEntry] at found
    split at found <;> cases found
    exact Nat.le_refl 1
  · have long : 2 ^ 32 ≤ Codec.durableLen ((create ⟨0, 0⟩ 0).nextEntry 5
        [.clear, .set "k" value 1]) := by
      simp only [Codec.durableLen, nextEntry, List.map_cons, operationLength, List.sum_cons]
      omega
    simp only [restoreEncoded, Reading.still, restoreOperations_holding]
    exact congrArg Prod.snd (if_pos long)

def fading : Engine :=
  { create ⟨0, 0⟩ 0 with
    state := ⟨(new.insertEntry "a" ⟨[1], none, 1⟩).insertEntry "b" ⟨[2], some 10, 2⟩,
      (EngineState.new 0).metadata⟩ }

/-- Of two keys one is gone when the backup is restored. -/
theorem backup_restores_live_key :
    let restored := (create ⟨0, 0⟩ 0).restoreEncoded (.still 20) (fading.logicalBackup 5).2
    restored.2 = .ok (fading.state.store.toEntries.filter fun pair =>
        decide (∀ expiresAtMs ∈ pair.2.expiresAtMs, 20 < expiresAtMs)).length ∧
      ∀ key entry, restored.1.state.store.get key = some entry ↔
        fading.state.store.get key = some entry ∧
          ∀ expiresAtMs ∈ entry.expiresAtMs, 20 < expiresAtMs := by
  refine backup_restores_live_keys fading _ 5 (.still 20) (by decide) ?_ ?_
  · intro key entry found
    rw [fading, get_insertEntry, get_insertEntry] at found
    split at found
    · cases found
      decide
    · split at found
      · cases found
        decide
      · cases found
  · intro operations logged
    have listed : (fading.state.purgeExpired 5).store.toEntries =
        [("a", ⟨[1], none, 1⟩), ("b", ⟨[2], some 10, 2⟩)] := by decide +kernel
    rw [restoreLogicalBackup_operations _ _ listed] at logged
    simp [EngineState.restoreOperations, LogicalBackupItem.decode, StoredValue.backupItem,
      BackupText.decode_encode, Except.toOption, Reading.still] at logged
    subst logged
    decide +kernel

end Engine

end Vaylix
