import AgentSaas.CacheSchema.Backup

/-! Backups that come back: what is checked before one is accepted, and the one value that it is
stored as. -/

namespace AgentSaas.CacheSchema
open ToolCallRepair (Text unit units)
open JsonValues JsonReader JsonNumbers

variable {N : Type} (numbers : Numbers N)

/-! Values that may be of any shape. -/

/-- `value[key]` -/
def property (value : Value N) (key : String) : Value N :=
  match value with
  | .object members => ((members.find? (·.1 = units key)).map Prod.snd).getD (.other "undefined")
  | _ => .other "undefined"

/-- `const { [key]: _, ...rest } = value` -/
def without (value : Value N) (key : String) : Value N :=
  match value with
  | .object members => .object (members.filter (·.1 ≠ units key))
  | value => value

def joinSorted (keys : List Text) : Text := Splitting.join [unit ','] (keys.insertionSort (· ≤ ·))

def exactObjectKeys (value : Value N) (expected : List String) : Bool :=
  match value with
  | .object members => joinSorted (members.map Prod.fst) = joinSorted (expected.map units)
  | _ => false

def isVersion : Value N → Bool
  | .number version => numbers.toInt version = some (CACHE_SCHEMA_VERSION : Int)
  | _ => false

def componentOf (value : Value N) (label : Text) : Except CacheSchemaError Text :=
  match value with
  | .string text => do
    assertComponent text label
    return text
  | _ => do
    assertThat false label
    return []

def checkOwner (expected : CacheOwner) (malformed : CacheErrorCode) (owner : Value N) : Except CacheSchemaError Unit := do
  if !exactObjectKeys owner ["tenantId", "userId"] then error malformed
  let tenantId ← componentOf (property owner "tenantId") (units "tenantId")
  let userId ← componentOf (property owner "userId") (units "userId")
  if CacheOwner.mk tenantId userId ≠ expected then error .ownerMismatch

inductive RawBackup (N : Type)
  | text (raw : Text)
  | value (value : Value N)

def readRaw : RawBackup N → Except CacheSchemaError (Value N)
  | .text raw => parseCacheJson numbers raw CACHE_MAX_BACKUP_BYTES
  | .value value => do
    let _ ← canonicalSerialize numbers value CACHE_MAX_BACKUP_BYTES
    return value

def readEntry (payloadByKey : List CacheBackupEntry) (value : Value N) : Except CacheSchemaError CacheBackupEntry :=
  if !exactObjectKeys value ["key", "payload", "type"] then error .unknownEntryKey
  else
    match property value "key", property value "payload", property value "type" with
    | .string key, .string payload, .string type =>
      if payloadByKey.any (·.key = key) then error .duplicateEntry else .ok ⟨key, type, payload⟩
    | _, _, _ => error .invalidBackupEntry

def readEntries (payloadByKey : List CacheBackupEntry) : List (Value N) → Except CacheSchemaError (List CacheBackupEntry)
  | [] => .ok payloadByKey
  | value :: rest => do
    let entry ← readEntry payloadByKey value
    readEntries (payloadByKey ++ [entry]) rest

def isDigest (text : Text) : Bool :=
  (units "sha256:").isPrefixOf text && text.length = 71 &&
    (text.drop 7).all fun char => (unit '0' ≤ char && char ≤ unit '9') || (unit 'a' ≤ char && char ≤ unit 'f')

def byteCount : Value N → Option Nat
  | .number bytes => (numbers.toInt bytes).bind fun bytes => if isSafe bytes && 0 ≤ bytes then some bytes.toNat else none
  | _ => none

def readDescriptor (value : Value N) : Option CacheManifestEntry :=
  if exactObjectKeys value ["bytes", "digest", "key", "type"] then
    match property value "key", property value "type", property value "digest", byteCount numbers (property value "bytes") with
    | .string key, .string type, .string digest, some bytes =>
      if isResource type && isDigest digest then some ⟨key, type, digest, bytes⟩ else none
    | _, _, _, _ => none
  else none

def checkDescriptor (owner : CacheOwner) (payloadByKey : List CacheBackupEntry) (manifestKeys : List Text)
    (descriptor : CacheManifestEntry) : Except CacheSchemaError Unit := do
  if manifestKeys.contains descriptor.key then error .duplicateEntry
  let parsed ← CacheKeyBuilder.parse descriptor.key
  if parsed.owner ≠ owner then error .ownerMismatch
  match payloadByKey.find? (·.key = descriptor.key) with
  | none => error .entryTampered
  | some entry =>
    if entry.type ≠ descriptor.type then error .entryTampered
    let data ← parseCacheJson numbers entry.payload CACHE_MAX_JSON_BYTES
    let text ← canonicalSerialize numbers data CACHE_MAX_JSON_BYTES
    if text ≠ entry.payload ∨ cacheDigest entry.payload ≠ descriptor.digest ∨ (encode entry.payload).length ≠ descriptor.bytes then
      error .entryTampered
    validateBackupData numbers parsed.resource data

def readDescriptors (owner : CacheOwner) (payloadByKey : List CacheBackupEntry) (found : List CacheManifestEntry) :
    List (Value N) → Except CacheSchemaError (List CacheManifestEntry)
  | [] => .ok found
  | value :: rest =>
    match readDescriptor numbers value with
    | none => error .unknownManifestKey
    | some descriptor => do
      checkDescriptor numbers owner payloadByKey (found.map (·.key)) descriptor
      readDescriptors owner payloadByKey (found ++ [descriptor]) rest

def readExportedAt (datable : Text → Bool) : Value N → Except CacheSchemaError Text
  | .string exportedAt => if datable exportedAt then .ok exportedAt else error .invalidExportTime
  | _ => error .invalidExportTime

def readOverallDigest (manifest : Value N) : Except CacheSchemaError Text :=
  match property manifest "overallDigest" with
  | .string digest => do
    let body ← manifestBody numbers (without manifest "overallDigest")
    if cacheDigest body ≠ digest then error .manifestTampered
    return digest
  | _ => error .manifestTampered

def sameKeys (descriptors : List CacheManifestEntry) (entries : List CacheBackupEntry) : Bool :=
  descriptors.length = entries.length && entries.all fun entry => (descriptors.map (·.key)).contains entry.key

def readContents (datable : Text → Bool) (expectedOwner : CacheOwner) (manifest : Value N) (descriptors entries : List (Value N)) :
    Except CacheSchemaError CacheBackup := do
  if descriptors.length ≠ entries.length then error .invalidManifest
  let exportedAt ← readExportedAt datable (property manifest "exportedAt")
  let overallDigest ← readOverallDigest numbers manifest
  let entries ← readEntries [] entries
  let descriptors ← readDescriptors numbers expectedOwner entries [] descriptors
  if sameKeys descriptors entries then .ok ⟨⟨expectedOwner, exportedAt, descriptors, overallDigest⟩, entries⟩
  else error .entryTampered

/-- The backup that a document holds. -/
def readBackup (datable : Text → Bool) (raw : RawBackup N) (expectedOwner : CacheOwner) : Except CacheSchemaError CacheBackup := do
  assertComponent expectedOwner.tenantId (units "tenantId")
  assertComponent expectedOwner.userId (units "userId")
  let value ← readRaw numbers raw
  if !exactObjectKeys value ["entries", "manifest"] then error .unknownBackupKey
  let manifest := property value "manifest"
  if !(exactObjectKeys manifest ["entries", "exportedAt", "overallDigest", "owner", "schemaVersion"] &&
    isVersion numbers (property manifest "schemaVersion")) then error .unsupportedSchema
  checkOwner expectedOwner .ownerMismatch (property manifest "owner")
  match property manifest "entries", property value "entries" with
  | .array descriptors, .array entries => readContents numbers datable expectedOwner manifest descriptors entries
  | _, _ => error .invalidManifest

def verifyCacheBackup (datable : Text → Bool) (raw : RawBackup N) (expectedOwner : CacheOwner) :
    Except CacheSchemaError (List CacheBackupEntry) :=
  (readBackup numbers datable raw expectedOwner).map (·.entries)

/-! The stored bundle. -/

def readStoredEntry (owner : CacheOwner) (keys : List Text) (value : Value N) : Except CacheSchemaError CacheBackupEntry :=
  if !exactObjectKeys value ["key", "payload", "type"] then error .invalidBackupBundle
  else
    match property value "key", property value "payload", property value "type" with
    | .string key, .string payload, .string type => do
      if !isResource type then error .invalidBackupBundle
      let parsed ← CacheKeyBuilder.parse key
      if parsed.owner ≠ owner then error .ownerMismatch
      if keys.contains key then error .duplicateEntry
      let data ← parseCacheJson numbers payload CACHE_MAX_JSON_BYTES
      let text ← canonicalSerialize numbers data CACHE_MAX_JSON_BYTES
      if text ≠ payload then error .entryTampered
      validateBackupData numbers parsed.resource data
      return ⟨key, type, payload⟩
    | _, _, _ => error .invalidBackupBundle

def readStoredEntries (owner : CacheOwner) (found : List CacheBackupEntry) :
    List (Value N) → Except CacheSchemaError (List CacheBackupEntry)
  | [] => .ok found
  | value :: rest => do
    let entry ← readStoredEntry numbers owner (found.map (·.key)) value
    readStoredEntries owner (found ++ [entry]) rest

def validateStoredEntries (owner : CacheOwner) (entries : Value N) : Except CacheSchemaError (List CacheBackupEntry) :=
  match entries with
  | .array items => readStoredEntries numbers owner [] items
  | _ => error .invalidBackupBundle

/-- `StoredCacheBundle` -/
def bundle (owner : CacheOwner) (entries : List CacheBackupEntry) : Value N :=
  .object [(units "schemaVersion", .number (numbers.ofNat CACHE_SCHEMA_VERSION)), (units "owner", owner.toValue),
    (units "requiresFullSync", .bool true), (units "entries", .array (entries.map (·.toValue)))]

def isTrue : Value N → Bool
  | .bool value => value
  | _ => false

def decodeStoredBundle (raw : Text) (owner : CacheOwner) : Except CacheSchemaError (List CacheBackupEntry) := do
  let value ← parseCacheJson numbers raw CACHE_MAX_BACKUP_BYTES
  let text ← canonicalSerialize numbers value CACHE_MAX_BACKUP_BYTES
  if !(text = raw && exactObjectKeys value ["entries", "owner", "requiresFullSync", "schemaVersion"]) then error .invalidBackupBundle
  if !(isVersion numbers (property value "schemaVersion") && isTrue (property value "requiresFullSync")) then error .invalidBackupBundle
  checkOwner owner .invalidBackupBundle (property value "owner")
  validateStoredEntries numbers owner (property value "entries")

/-- What the backend holds. -/
abbrev Store := Text → Option Text

inductive Failure
  | schema (error : CacheSchemaError)
  | backend
  deriving DecidableEq, Repr

def bundleKey (owner : CacheOwner) : Except CacheSchemaError Text := CacheKeyBuilder.build owner (units "backup-bundle") (units "active")

/-- What `atomicReplace` does before the one change: the key, and the text for it. -/
def stage (owner : CacheOwner) (entries : List CacheBackupEntry) : Except CacheSchemaError (Text × Text) := do
  let stagedEntries ← validateStoredEntries numbers owner (.array (entries.map (·.toValue)))
  let staged ← canonicalSerialize numbers (bundle numbers owner stagedEntries) CACHE_MAX_BACKUP_BYTES
  let _ ← decodeStoredBundle numbers staged owner
  let key ← bundleKey owner
  return (key, staged)

/-- `setItem` changes the item or, when it throws, nothing. -/
def atomicReplace (store : Store) (accepts : Bool) (owner : CacheOwner) (entries : List CacheBackupEntry) : Except Failure Unit × Store :=
  match stage numbers owner entries with
  | .error error => (.error (.schema error), store)
  | .ok (key, staged) => if accepts then (.ok (), fun other => if other = key then some staged else store other) else (.error .backend, store)

def read (store : Store) (owner : CacheOwner) : Except CacheSchemaError (Option (List CacheBackupEntry)) := do
  let key ← bundleKey owner
  match store key with
  | none => return none
  | some [] => return none
  | some raw => do
    let entries ← decodeStoredBundle numbers raw owner
    return some entries

def restoreCacheBackup (datable : Text → Bool) (store : Store) (accepts : Bool) (raw : RawBackup N) (owner : CacheOwner) :
    Except Failure (List CacheBackupEntry) × Store :=
  match verifyCacheBackup numbers datable raw owner with
  | .error error => (.error (.schema error), store)
  | .ok staged =>
    match atomicReplace numbers store accepts owner staged with
    | (.ok (), after) => (.ok staged, after)
    | (.error failure, after) => (.error failure, after)

/-- A backend that has no `removeItem` keeps its item. -/
def clear (store : Store) (removable accepts : Bool) (owner : CacheOwner) : Except Failure Unit × Store :=
  if !removable then (.ok (), store)
  else
    match bundleKey owner with
    | .error error => (.error (.schema error), store)
    | .ok key => if accepts then (.ok (), fun other => if other = key then none else store other) else (.error .backend, store)

/-! The gate in front of sending. -/

structure CacheSyncGate where
  requiresFullSync : Bool
  syncGeneration : Int
  deriving DecidableEq, Repr

def createCacheSyncGate (requiresFullSync : Bool) : CacheSyncGate := ⟨requiresFullSync, 0⟩

def markCacheRestored (state : CacheSyncGate) : CacheSyncGate := ⟨true, state.syncGeneration + 1⟩

def markCacheFullSyncComplete (state : CacheSyncGate) (generation : Int) : CacheSyncGate :=
  if state.requiresFullSync && generation = state.syncGeneration then { state with requiresFullSync := false } else state

def assertCacheSendAllowed (state : CacheSyncGate) : Except (String × String) Unit :=
  if state.requiresFullSync then
    .error ("full_sync_required", "send/replay is blocked until the first authoritative sync completes")
  else .ok ()

end AgentSaas.CacheSchema
