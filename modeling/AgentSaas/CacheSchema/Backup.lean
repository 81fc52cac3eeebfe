import AgentSaas.CacheSchema.Digest
import AgentSaas.JsonNumbers
import AgentSaas.Sorting

/-! Backups of the cache: entries under keys of their owner, a manifest with their digests, and the
bundle that a restored backup is stored as. -/

namespace AgentSaas.CacheSchema
open ToolCallRepair (Text unit units isAlphanumeric)
open JsonValues JsonStrings JsonReader JsonNumbers Sorting

def CACHE_SCHEMA_VERSION : Nat := 2
def CACHE_KEY_PREFIX : Text := units "agent-cache:v2"
def CACHE_MAX_KEY_LENGTH : Nat := 512
def CACHE_MAX_JSON_BYTES : Nat := 1048576
def CACHE_MAX_BACKUP_BYTES : Nat := CACHE_MAX_JSON_BYTES * 8

inductive CacheErrorCode
  | invalidCacheKey
  | budgetExceeded
  | invalidJsonValue
  | absolutePathForbidden
  | prototypePollution
  | forbiddenBackupField
  | corruptJson
  | outboxNotDraftOnly
  | authoritativeResourceForbidden
  | invalidExportTime
  | duplicateEntry
  | unknownBackupKey
  | unsupportedSchema
  | ownerMismatch
  | invalidManifest
  | manifestTampered
  | unknownEntryKey
  | invalidBackupEntry
  | unknownManifestKey
  | entryTampered
  | invalidBackupBundle
  | invalidLegacyEntry
  deriving DecidableEq, Repr

structure CacheSchemaError where
  code : CacheErrorCode
  message : Option Text
  deriving DecidableEq, Repr

def error {α : Type} (code : CacheErrorCode) : Except CacheSchemaError α := .error ⟨code, none⟩

def isComponent : Text → Bool
  | [] => false
  | first :: rest =>
    isAlphanumeric first && rest.length ≤ 127 && rest.all fun char => isAlphanumeric char || (units "._~-").contains char

def isLower (char : Nat) : Bool := unit 'a' ≤ char && char ≤ unit 'z'

def isResource : Text → Bool
  | [] => false
  | first :: rest =>
    isLower first && rest.length ≤ 47 && rest.all fun char => isLower char || (unit '0' ≤ char && char ≤ unit '9') || char = unit '-'

def foldCase (char : Nat) : Nat :=
  if unit 'A' ≤ char ∧ char ≤ unit 'Z' then char + 32 else if char = 0x212A then unit 'k' else if char = 0x17F then unit 's' else char

def foldText (text : Text) : Text := text.map foldCase

def FORBIDDEN_PROPERTY : List String :=
  ["token", "accessToken", "refreshToken", "credential", "credentials", "password", "secret", "savedPath", "absolutePath",
    "displayPath", "rawTool", "rawToolInput", "rawToolResult", "toolInput", "toolResult", "queue", "queues", "queueId",
    "serverQueue", "serverQueueId", "runtime", "cursor", "epoch", "interaction", "interactions", "attachmentId",
    "uploadedAttachmentId", "submissionId", "serverSubmissionId"]

def POLLUTION_PROPERTY : List String := ["__proto__", "prototype", "constructor"]

def OUTBOX_RESOURCES : List String := ["outbox-draft", "draft-attachments"]

def OUTBOX_DRAFT_FIELDS : List String := ["draftId", "localDraftId", "localDraftRef", "localDraftRefs", "localUri"]

def OUTBOX_SENT_FIELDS : List String :=
  ["attachmentId", "uploadedAttachmentId", "queueId", "serverQueueId", "submissionId", "serverSubmissionId"]

def DISPLAY_RESOURCES : List String := ["sessions", "messages", "draft-metadata", "draft-text", "draft-attachments", "outbox-draft"]

def names (list : List String) (key : Text) : Bool := (list.map units).contains key

def namesAnyCase (list : List String) (key : Text) : Bool := (list.map fun name => foldText (units name)).contains (foldText key)

def isAbsolutePath (value : Text) : Bool :=
  (match value with
    | letter :: colon :: slash :: _ =>
      (unit 'A' ≤ letter && letter ≤ unit 'Z' || unit 'a' ≤ letter && letter ≤ unit 'z') && colon = unit ':' &&
        (slash = unit '\\' || slash = unit '/')
    | _ => false) ||
  (units "/").isPrefixOf value || (units "\\\\").isPrefixOf value || (units "file://").isPrefixOf value

/-- `/(?:path|uri|url)$/iu` -/
def endsAsPath (path : Text) : Bool := [units "path", units "uri", units "url"].any fun name => name.isSuffixOf (foldText path)

structure CacheOwner where
  tenantId : Text
  userId : Text
  deriving DecidableEq, Repr

structure ParsedCacheKey where
  owner : CacheOwner
  resource : Text
  resourceId : Text
  deriving DecidableEq, Repr

def assertThat (valid : Bool) (label : Text) : Except CacheSchemaError Unit :=
  if valid then .ok () else .error ⟨.invalidCacheKey, some (label ++ units " has invalid characters or length")⟩

def assertComponent (value label : Text) : Except CacheSchemaError Unit := assertThat (isComponent value) label

def assertResource (value label : Text) : Except CacheSchemaError Unit := assertThat (isResource value) label

namespace CacheKeyBuilder

/-- The parts of a key, between colons. -/
def parts (owner : CacheOwner) (resource resourceId : Text) : List Text :=
  [units "agent-cache", units "v2", units "tenant=" ++ owner.tenantId, units "user=" ++ owner.userId, units "resource=" ++ resource,
    units "id=" ++ resourceId]

def build (owner : CacheOwner) (resource resourceId : Text) : Except CacheSchemaError Text := do
  assertComponent owner.tenantId (units "tenantId")
  assertComponent owner.userId (units "userId")
  assertResource resource (units "resource")
  assertComponent resourceId (units "resourceId")
  let key := Splitting.join [unit ':'] (parts owner resource resourceId)
  if key.length > CACHE_MAX_KEY_LENGTH then .error ⟨.invalidCacheKey, some (units "cache key is too long")⟩ else .ok key

def labelled (label part : Text) : Option Text :=
  if label.isPrefixOf part && label.length < part.length then some (part.drop label.length) else none

def matchKey (key : Text) : Option ParsedCacheKey :=
  match Splitting.split [unit ':'] key with
  | [cache, version, tenant, user, resource, id] => do
    guard (cache = units "agent-cache" ∧ version = units "v2")
    let tenantId ← labelled (units "tenant=") tenant
    let userId ← labelled (units "user=") user
    let resource ← labelled (units "resource=") resource
    let resourceId ← labelled (units "id=") id
    return ⟨⟨tenantId, userId⟩, resource, resourceId⟩
  | _ => none

def parse (key : Text) : Except CacheSchemaError ParsedCacheKey :=
  if key.length > CACHE_MAX_KEY_LENGTH then error .invalidCacheKey
  else
    match matchKey key with
    | none => error .invalidCacheKey
    | some parsed => do
      assertComponent parsed.owner.tenantId (units "tenantId")
      assertComponent parsed.owner.userId (units "userId")
      assertResource parsed.resource (units "resource")
      assertComponent parsed.resourceId (units "resourceId")
      return parsed

end CacheKeyBuilder

variable {N : Type} (numbers : Numbers N)

abbrev Visit := Text → Nat → Except CacheSchemaError Unit

def checkDepth (depth : Nat) : Except CacheSchemaError Unit :=
  if depth > 24 then .error ⟨.budgetExceeded, some (units "cache JSON nesting is too deep")⟩ else .ok ()

def checkKey (backup : Bool) (path key : Text) : Except CacheSchemaError Unit :=
  if names POLLUTION_PROPERTY key then error .prototypePollution
  else if backup && namesAnyCase FORBIDDEN_PROPERTY key then
    .error ⟨.forbiddenBackupField, some (path ++ units "." ++ key ++ units " is not display data")⟩
  else .ok ()

def checkString (value path : Text) : Except CacheSchemaError Unit :=
  if isAbsolutePath value && endsAsPath path then .error ⟨.absolutePathForbidden, some (path ++ units " contains an absolute path")⟩
  else .ok ()

def visitItems (items : List Visit) : Visit := fun path depth =>
  items.zipIdx.forM fun item => item.1 (path ++ units "[" ++ decimal item.2 ++ units "]") (depth + 1)

def visitMembers (backup : Bool) (members : List (Text × Visit)) : Visit := fun path depth =>
  members.forM fun member => do
    checkKey backup path member.1
    member.2 (path ++ units "." ++ member.1) (depth + 1)

def atDepth (visit : Visit) : Visit := fun path depth => do
  checkDepth depth
  visit path depth

def validateTree (backup : Bool) : Value N → Visit :=
  Value.fold (atDepth fun _ _ => .ok ()) (fun _ => atDepth fun _ _ => .ok ())
    (fun value => atDepth fun _ _ => if numbers.isFinite value then .ok () else error .invalidJsonValue)
    (fun value => atDepth fun path _ => checkString value path) (fun items => atDepth (visitItems items))
    (fun members => atDepth (visitMembers backup members)) fun _ => atDepth fun _ _ => error .invalidJsonValue

def canonicalSerialize (value : Value N) (maxBytes : Nat) : Except CacheSchemaError Text := do
  validateTree numbers false value (units "$") 0
  let result := canonical numbers.toText value
  if (encode result).length > maxBytes then error .budgetExceeded else .ok result

def parseCacheJson (raw : Text) (maxBytes : Nat) : Except CacheSchemaError (Value N) :=
  if (encode raw).length > maxBytes then error .budgetExceeded
  else
    match JsonReader.parse (standard numbers) raw with
    | .error _ => error .corruptJson
    | .ok parsed => do
      validateTree numbers false parsed (units "$") 0
      return parsed

/-! What a backup may hold. -/

/-- Something below has a property that only a sent draft has. -/
def sent : Value N → Bool :=
  Value.fold false (fun _ => false) (fun _ => false) (fun _ => false) (fun items => items.any id)
    (fun members => members.any fun member => namesAnyCase OUTBOX_SENT_FIELDS member.1 || member.2) fun _ => false

def isFilledString : Value N → Bool
  | .string value => !value.isEmpty
  | _ => false

def validDraftField (key : Text) (value : Value N) : Bool :=
  if key = units "localDraftRefs" then
    match value with
    | .array items => !items.isEmpty && items.all isFilledString
    | _ => false
  else isFilledString value

def validateOutbox (resource : Text) (data : Value N) : Except CacheSchemaError Unit := do
  if sent data then error .outboxNotDraftOnly
  if resource = units "outbox-draft" then
    match data with
    | .object members =>
      if members.isEmpty || members.any fun member => !names OUTBOX_DRAFT_FIELDS member.1 then error .outboxNotDraftOnly
      if members.all fun member => validDraftField member.1 member.2 then .ok () else error .outboxNotDraftOnly
    | _ => error .outboxNotDraftOnly

def validateBackupData (resource : Text) (data : Value N) : Except CacheSchemaError Unit := do
  if !names DISPLAY_RESOURCES resource then error .authoritativeResourceForbidden
  if names OUTBOX_RESOURCES resource then validateOutbox resource data
  validateTree numbers true data (units "$") 0

structure CacheEntryInput (N : Type) where
  resource : Text
  resourceId : Text
  type : Text
  data : Value N

structure CacheBackupEntry where
  key : Text
  type : Text
  payload : Text
  deriving DecidableEq, Repr

structure CacheManifestEntry where
  key : Text
  type : Text
  digest : Text
  bytes : Nat
  deriving DecidableEq, Repr

structure CacheBackupManifest where
  owner : CacheOwner
  exportedAt : Text
  entries : List CacheManifestEntry
  overallDigest : Text
  deriving DecidableEq, Repr

structure CacheBackup where
  manifest : CacheBackupManifest
  entries : List CacheBackupEntry
  deriving DecidableEq, Repr

def CacheOwner.toValue (owner : CacheOwner) : Value N :=
  .object [(units "tenantId", .string owner.tenantId), (units "userId", .string owner.userId)]

def CacheBackupEntry.toValue (entry : CacheBackupEntry) : Value N :=
  .object [(units "key", .string entry.key), (units "type", .string entry.type), (units "payload", .string entry.payload)]

def CacheManifestEntry.toValue (entry : CacheManifestEntry) : Value N :=
  .object [(units "key", .string entry.key), (units "type", .string entry.type), (units "digest", .string entry.digest),
    (units "bytes", .number (numbers.ofNat entry.bytes))]

def bodyMembers (owner : CacheOwner) (exportedAt : Text) (entries : List CacheManifestEntry) : List (Text × Value N) :=
  [(units "schemaVersion", .number (numbers.ofNat CACHE_SCHEMA_VERSION)), (units "owner", owner.toValue),
    (units "exportedAt", .string exportedAt), (units "entries", .array (entries.map (·.toValue numbers)))]

def CacheBackupManifest.toValue (manifest : CacheBackupManifest) : Value N :=
  .object (bodyMembers numbers manifest.owner manifest.exportedAt manifest.entries ++
    [(units "overallDigest", .string manifest.overallDigest)])

def CacheBackup.toValue (backup : CacheBackup) : Value N :=
  .object [(units "manifest", backup.manifest.toValue numbers), (units "entries", .array (backup.entries.map (·.toValue)))]

def manifestBody (body : Value N) : Except CacheSchemaError Text := canonicalSerialize numbers body CACHE_MAX_JSON_BYTES

def prepareEntry (owner : CacheOwner) (entry : CacheEntryInput N) : Except CacheSchemaError CacheBackupEntry := do
  assertResource entry.type (units "type")
  validateBackupData numbers entry.resource entry.data
  let key ← CacheKeyBuilder.build owner entry.resource entry.resourceId
  let payload ← canonicalSerialize numbers entry.data CACHE_MAX_JSON_BYTES
  return ⟨key, entry.type, payload⟩

def byKey : Comparator CacheBackupEntry := (Comparator.ofLinearOrder Text).onKey CacheBackupEntry.key

def describe (entry : CacheBackupEntry) : CacheManifestEntry :=
  ⟨entry.key, entry.type, cacheDigest entry.payload, (encode entry.payload).length⟩

/-- `datable` says that `Date.parse` gives a number. -/
def createCacheBackup (datable : Text → Bool) (owner : CacheOwner) (input : List (CacheEntryInput N)) (exportedAt : Text) :
    Except CacheSchemaError CacheBackup := do
  if !datable exportedAt then error .invalidExportTime
  let prepared ← input.mapM (prepareEntry numbers owner)
  let entries := byKey.sort prepared
  if (entries.map (·.key)).dedup.length ≠ entries.length then error .duplicateEntry
  let descriptors := entries.map describe
  let body ← manifestBody numbers (.object (bodyMembers numbers owner exportedAt descriptors))
  let backup : CacheBackup := ⟨⟨owner, exportedAt, descriptors, cacheDigest body⟩, entries⟩
  let _ ← canonicalSerialize numbers (backup.toValue numbers) CACHE_MAX_BACKUP_BYTES
  return backup

end AgentSaas.CacheSchema
