import AgentSaas.AppContract.Paths
import AgentSaas.CacheSchema.Restore

/-! What is kept of the cache before the present schema: display data under keys that name their
owner. -/

namespace AgentSaas.CacheSchema
open ToolCallRepair (Text unit units)
open JsonValues JsonNumbers

structure LegacyCacheRecord where
  key : Text
  raw : Text
  deriving DecidableEq, Repr

structure CacheMigrationResult (N : Type) where
  entries : List (CacheEntryInput N)
  droppedKeys : List Text

/-! Patterns. Each reads on from the start of a text. -/

def behind (label : String) (text : Text) : Option Text :=
  if (units label).isPrefixOf text then some (text.drop (units label).length) else none

/-- The longest run of such characters, which is not empty, and what is behind it. -/
def filledRun (accepts : Nat → Bool) (text : Text) : Option (Text × Text) :=
  if (text.takeWhile accepts).isEmpty then none else some (text.takeWhile accepts, text.dropWhile accepts)

/-- `[^.]+$` -/
def lastName (text : Text) : Option Text := if !text.isEmpty && !text.contains (unit '.') then some text else none

/-- `u=([^;]+);t=([^;]+);g=\d+(?:\.[^.]+)?$` -/
def ownerParts (text : Text) : Option (Text × Text) := do
  let user ← filledRun (· != unit ';') (← behind "u=" text)
  let tenant ← filledRun (· != unit ';') (← behind ";t=" user.2)
  let generation ← filledRun JsonReader.isDigit (← behind ";g=" tenant.2)
  if generation.2.isEmpty then return (user.1, tenant.1)
  let _ ← lastName (← behind "." generation.2)
  return (user.1, tenant.1)

/-- The first place behind a mark where there are the parts of an owner. -/
def markedOwner : Text → Option (Text × Text)
  | [] => none
  | char :: rest =>
    ((behind "::" (char :: rest)).bind ownerParts <|> (behind "." (char :: rest)).bind ownerParts) <|> markedOwner rest

def legacyOwnerFromKey (key : Text) : Option CacheOwner := do
  let parts ← ownerParts key <|> markedOwner key
  let userId ← AppContract.Paths.decodeURIComponent parts.1
  let tenantId ← AppContract.Paths.decodeURIComponent parts.2
  return ⟨tenantId, userId⟩

def LEGACY_FAMILIES : List String := ["sessionList:", "msgCache:", "agentChat.msgCache.", "agentChat.inputDraft.v2."]

def isKnownFamily (key : Text) : Bool := LEGACY_FAMILIES.any fun family => (units family).isPrefixOf key

def legacyResource (key : Text) : Text :=
  if (units "sessionList:").isPrefixOf key then units "sessions"
  else if (units "msgCache:").isPrefixOf key || (units "agentChat.msgCache.").isPrefixOf key then units "messages"
  else units "draft-metadata"

/-! The id of a resource. -/

def isLineTerminator (char : Nat) : Bool := [0x0A, 0x0D, 0x2028, 0x2029].contains char

/-- `(.+?)(?:::u=|\.u=)` -/
def upToOwner : Text → Option Text
  | [] => none
  | char :: rest =>
    if isLineTerminator char then none
    else if (units "::u=").isPrefixOf rest || (units ".u=").isPrefixOf rest then some [char]
    else (upToOwner rest).map (char :: ·)

/-- `;g=\d+\.([^.]+)$`, at the first place where it fits. -/
def draftName : Text → Option Text
  | [] => none
  | char :: rest =>
    (do
      let generation ← filledRun JsonReader.isDigit (← behind ";g=" (char :: rest))
      lastName (← behind "." generation.2)) <|> draftName rest

def rawResourceId (key resource : Text) : Option Text :=
  if resource = units "sessions" then do
    let id ← filledRun (· != unit ':') (← behind "sessionList:" key)
    let _ ← behind "::" id.2
    return id.1
  else if resource = units "messages" then (behind "msgCache:" key <|> behind "agentChat.msgCache." key).bind upToOwner
  else draftName key

def orDefault (id : Text) : Text := if isComponent id then id else units "default"

def keyResourceId (key resource : Text) : Text :=
  match rawResourceId key resource with
  | none => units "default"
  | some raw => orDefault ((AppContract.Paths.decodeURIComponent raw).getD [])

variable {N : Type} (numbers : Numbers N)

def legacyResourceId (key resource : Text) (envelope : Option (Value N)) : Text :=
  match envelope.map (property · "resourceId") with
  | some (.string id) => if isComponent id then id else keyResourceId key resource
  | _ => keyResourceId key resource

/-! The data of a record. -/

def stripLegacyAuthority : Value N → Value N :=
  Value.fold .null .bool .number .string .array
    (fun members => .object (members.filter fun member => !namesAnyCase FORBIDDEN_PROPERTY member.1)) .other

def onlyProperty (name : String) : Value N → Value N
  | .object members =>
    if members.any (·.1 = units name) then .object [(units name, property (.object members) name)] else .object members
  | value => value

def legacyDisplayData (resource : Text) (data : Value N) : Value N :=
  if resource = units "sessions" then onlyProperty "sessions" (stripLegacyAuthority data)
  else if resource = units "messages" then onlyProperty "messages" (stripLegacyAuthority data)
  else stripLegacyAuthority data

/-- `value ?? other` -/
def orElse (value other : Value N) : Value N :=
  match value with
  | .null => other
  | .other "undefined" => other
  | value => value

def isFirstVersion : Value N → Bool
  | .number version => numbers.toInt version = some 1
  | _ => false

/-- What becomes of the record of a known family that names the owner. -/
def migrateOwned (record : LegacyCacheRecord) : Except CacheSchemaError (CacheEntryInput N) := do
  let parsed ← parseCacheJson numbers record.raw CACHE_MAX_JSON_BYTES
  let resource := legacyResource record.key
  match parsed with
  | .string text =>
    if resource = units "draft-metadata" then
      return ⟨resource, legacyResourceId record.key resource (none : Option (Value N)), units "draft-metadata-display",
        .object [(units "text", .string text)]⟩
    else error .invalidLegacyEntry
  | .object members =>
    let envelope : Value N := .object members
    if !isFirstVersion numbers (orElse (property envelope "schemaVersion") (.number (numbers.ofNat 1))) then error .unsupportedSchema
    let data := legacyDisplayData resource (orElse (property envelope "data") envelope)
    validateBackupData numbers resource data
    return ⟨resource, legacyResourceId record.key resource (some envelope), resource ++ units "-display", data⟩
  | _ => error .invalidLegacyEntry

def migrateRecord (owner : CacheOwner) (record : LegacyCacheRecord) : Except CacheSchemaError (Option (CacheEntryInput N)) :=
  match isKnownFamily record.key, legacyOwnerFromKey record.key with
  | true, some legacyOwner => if legacyOwner ≠ owner then error .ownerMismatch else some <$> migrateOwned numbers record
  | _, _ => .ok none

def migrateFrom (owner : CacheOwner) (result : CacheMigrationResult N) :
    List LegacyCacheRecord → Except CacheSchemaError (CacheMigrationResult N)
  | [] => .ok result
  | record :: rest => do
    match ← migrateRecord numbers owner record with
    | none => migrateFrom owner { result with droppedKeys := result.droppedKeys ++ [record.key] } rest
    | some entry => migrateFrom owner { result with entries := result.entries ++ [entry] } rest

def migrateKnownLegacyCache (records : List LegacyCacheRecord) (owner : CacheOwner) :
    Except CacheSchemaError (CacheMigrationResult N) := migrateFrom numbers owner ⟨[], []⟩ records

end AgentSaas.CacheSchema
