import AgentSaas.Dictionaries
import AgentSaas.Splitting
import AgentSaas.ToolCallRepair.Text

/-! The names under which the model sees the capabilities of an app, and the checks of a
manifest that read them. -/

namespace AgentSaas.AppContract
open Dictionaries Splitting ToolCallRepair

def TOOL_NAME_PREFIX : Text := units "app__"
def TOOL_NAME_MAX_LENGTH := 64
def TOOL_NAME_SEPARATOR : Text := units "__"

def isLower (char : Nat) : Bool := unit 'a' ≤ char && char ≤ unit 'z'

def isDigit (char : Nat) : Bool := unit '0' ≤ char && char ≤ unit '9'

/-- A lower case letter and then so many units of the class. -/
def matchesIdentifier (inside : Nat → Bool) (least most : Nat) : Text → Bool
  | [] => false
  | first :: rest => isLower first && least ≤ rest.length && rest.length ≤ most && rest.all inside

/-- `^[a-z][a-z0-9-]{2,23}$` -/
def isSystemId : Text → Bool := matchesIdentifier (fun char => isLower char || isDigit char || char = unit '-') 2 23

/-- `^[a-z][a-z0-9_.]{1,31}$` -/
def isCapabilityId : Text → Bool :=
  matchesIdentifier (fun char => isLower char || isDigit char || char = unit '_' || char = unit '.') 1 31

inductive PathErrorCode
  | notAbsolute | scheme | doubleSlash | dotSegment | percentEncodedSeparator | backslash | whitespace | tooLong | notAPrefix
  | toolNameTooLong | empty
  deriving DecidableEq, Repr

structure PathError where
  code : PathErrorCode
  message : Text
  deriving DecidableEq, Repr

def replaceAll (char replacement : Nat) (value : Text) : Text := value.map fun unit => if unit = char then replacement else unit

def normalizeToolSegment (value : Text) : Text :=
  replaceAll (unit '.') (unit '_') (replaceAll (unit '-') (unit '_') value)

def toolName (systemId capabilityId : Text) : Except PathError Text :=
  let name := TOOL_NAME_PREFIX ++ normalizeToolSegment systemId ++ (TOOL_NAME_SEPARATOR ++ normalizeToolSegment capabilityId)
  if name.length > TOOL_NAME_MAX_LENGTH then
    throw ⟨.toolNameTooLong, units "工具名 " ++ name ++ units (" 长度 " ++ toString name.length ++ " 超过 " ++
      toString TOOL_NAME_MAX_LENGTH)⟩
  else return name

structure ParsedToolName where
  systemSegment : Text
  capabilitySegment : Text
  deriving DecidableEq, Repr

def parseToolName (value : Text) : Option ParsedToolName :=
  if !TOOL_NAME_PREFIX.isPrefixOf value then none
  else
    match split TOOL_NAME_SEPARATOR (value.drop TOOL_NAME_PREFIX.length) with
    | [] => none
    | systemSegment :: rest =>
      let capabilitySegment := join TOOL_NAME_SEPARATOR rest
      if systemSegment.isEmpty || capabilitySegment.isEmpty then none else some ⟨systemSegment, capabilitySegment⟩

/-- A capability of a manifest, with the fields that its other checks read. -/
structure ManifestCapability (Rest : Type) where
  id : Text
  rest : Rest

structure Manifest (Rest : Type) where
  systemId : Text
  capabilities : List (ManifestCapability Rest)

structure CapabilityCheck where
  rawIds : List Text
  normalizedIds : Dictionary Text Text
  toolNames : Dictionary Text Text
  errors : List Text

section Checks
variable {Rest : Type} (otherErrors : Text → Rest → List Text)

def checkToolName (systemId label : Text) (capability : ManifestCapability Rest) (check : CapabilityCheck) : CapabilityCheck :=
  match toolName systemId capability.id with
  | .error error => { check with errors := check.errors ++ [label ++ units ": " ++ error.message] }
  | .ok name =>
    match check.toolNames.get name with
    | some nameOwner =>
      { check with errors := check.errors ++ [label ++ units ": 工具名 " ++ name ++ units " 与 " ++ nameOwner ++ units " 碰撞"] }
    | none => { check with toolNames := check.toolNames.set name capability.id }

def checkCapability (systemId : Text) (check : CapabilityCheck) (capability : ManifestCapability Rest) : CapabilityCheck :=
  let label := units "capabilities[" ++ capability.id ++ units "]"
  let repeated := if capability.id ∈ check.rawIds then [label ++ units ": id 重复"] else []
  let normalized := normalizeToolSegment capability.id
  let check : CapabilityCheck :=
    match check.normalizedIds.get normalized with
    | some owner =>
      { check with
        rawIds := capability.id :: check.rawIds
        errors := check.errors ++ repeated ++
          [label ++ units ": 规范化后的 id " ++ normalized ++ units " 与 " ++ owner ++ units " 碰撞"] }
    | none =>
      { check with
        rawIds := capability.id :: check.rawIds
        normalizedIds := check.normalizedIds.set normalized capability.id
        errors := check.errors ++ repeated }
  let check := checkToolName systemId label capability check
  -- The schemas, the result link and the description are checked apart from the names.
  { check with errors := check.errors ++ otherErrors label capability.rest }

def checkCapabilities (manifest : Manifest Rest) : List Text :=
  (manifest.capabilities.foldl (checkCapability otherErrors manifest.systemId) ⟨[], .empty, .empty, []⟩).errors

end Checks

end AgentSaas.AppContract
