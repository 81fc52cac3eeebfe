import AgentSaas.JsonNumbers

/-! A runtime event as text for the database. A string may hold U+0000, which the database does not
take; it is written as it is spelled. -/

namespace AgentSaas.EventJson
open JsonValues JsonStrings JsonNumbers
open ToolCallRepair (Text unit units)

/-- An object of the language has each of its keys once. -/
structure PlatformEvent (N : Type) where
  value : Value N
  distinct : Distinct value

inductive SerializeError
  | bigint
  | message (text : Text)
  deriving DecidableEq, Repr

variable {N : Type}

/-- `value.replaceAll('\u0000', '\\u0000')` -/
def replaceAll (value : Text) : Text := value.flatMap fun char => if char = 0 then units "\\u0000" else [char]

def replaceString (value : Text) : Value N := .string (if value.contains 0 then replaceAll value else value)

/-- The replacer, at every value. -/
def replaced : Value N → Value N := Value.fold .null .bool .number replaceString .array .object .other

def hasBigInt : Value N → Bool :=
  Value.fold false (fun _ => false) (fun _ => false) (fun _ => false) (·.any id) (·.any (·.2)) (· = "bigint")

def writtenNumber (numbers : Numbers N) (value : N) : Option (Value N) := some (if numbers.isFinite value then .number value else .null)

def writtenItems (items : List (Option (Value N))) : Option (Value N) := some (.array (items.map (·.getD .null)))

def writtenMembers (members : List (Text × Option (Value N))) : Option (Value N) :=
  some (.object (members.filterMap fun member => member.2.map (member.1, ·)))

/-- What `JSON.stringify` writes: a member without a text is left out, an item without one is null. -/
def written (numbers : Numbers N) : Value N → Option (Value N) :=
  Value.fold (some .null) (some ∘ .bool) (writtenNumber numbers) (some ∘ .string) writtenItems writtenMembers fun _ => none

def serializeEventForJsonb (numbers : Numbers N) (event : PlatformEvent N) : Except SerializeError Text :=
  if hasBigInt event.value then .error .bigint
  else
    match written numbers (replaced event.value) with
    | none => .error (.message (units "runtime event 无法序列化为 JSON"))
    | some value => .ok (text numbers.toText value)

end AgentSaas.EventJson
