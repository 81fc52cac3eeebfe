import AgentSaas.JsonNumbers

/-! JSON for signed tokens: the text is scanned for a key that an object has twice before it is
parsed. -/

namespace AgentSaas.AppContract.DuplicateFreeJson
open ToolCallRepair (Text unit units isSpace)
open JsonValues JsonNumbers
open JsonReader (Stop scanSign scanInteger scanFraction scanExponent)

inductive V2ContractErrorCode | malformedJose
  deriving DecidableEq, Repr

structure V2ContractError where
  code : V2ContractErrorCode
  stage : Text
  message : Text
  deriving DecidableEq, Repr

/-- `v2Fail('malformed_jose', 'json', message)` -/
def v2Fail {α : Type} (message : Text) : Except V2ContractError α := .error ⟨.malformedJose, units "json", message⟩

/-- Without a message, the code is one. -/
def v2FailPlain {α : Type} : Except V2ContractError α := v2Fail (units "malformed_jose")

/-- `/\s/u`, which is more than a JSON text may hold between its tokens. -/
def skipWhitespace (text : Text) : Text := text.dropWhile isSpace

/-- From inside a string to behind the quote that ends it. -/
def closeString : Text → Option Text
  | [] => none
  | [char] => if char = unit '"' then some [] else none
  | char :: next :: rest =>
    if char = unit '\\' then closeString rest
    else if char = unit '"' then some (next :: rest)
    else closeString (next :: rest)

variable {N : Type} (numbers : Numbers N)

/-- `JSON.parse` -/
def jsonParse (text : Text) : Except (Stop Empty) (Value N) := JsonReader.parse (standard numbers) text

def parseString (text : Text) : Except V2ContractError (Text × Text) :=
  match text with
  | [] => v2Fail (units "应为 JSON 字符串")
  | char :: rest =>
    if char = unit '"' then
      match closeString rest with
      | some later =>
        match jsonParse numbers (text.take (text.length - later.length)) with
        | .ok (.string key) => .ok (key, later)
        | _ => v2Fail (units "JSON 字符串转义不合法")
      | none => v2Fail (units "JSON 字符串未结束")
    else v2Fail (units "应为 JSON 字符串")

/-- `(?:…)?` -/
def skipOptional (scan : Text → Except (Stop Empty) (Text × Text)) (text : Text) : Text :=
  match scan text with
  | .ok (_, rest) => rest
  | .error _ => text

/-- `-?(?:0|[1-9]\d*)(?:\.\d+)?(?:[eE][+-]?\d+)?` -/
def matchNumber (text : Text) : Option Text :=
  match scanInteger (scanSign text).2 with
  | .ok (_, rest) => some (skipOptional scanExponent (skipOptional scanFraction rest))
  | .error (_ : Stop Empty) => none

def matchScalar (text : Text) : Option Text :=
  if (units "true").isPrefixOf text then some (text.drop 4)
  else if (units "false").isPrefixOf text then some (text.drop 5)
  else if (units "null").isPrefixOf text then some (text.drop 4)
  else matchNumber text

/-! Values. The first argument is the number of steps that are left. -/

mutual

def parseValue : Nat → Text → Except V2ContractError Text
  | 0, _ => v2FailPlain
  | steps + 1, text =>
    match skipWhitespace text with
    | [] => v2Fail (units "JSON value 不合法")
    | char :: rest =>
      if char = unit '\x7b' then
        if (skipWhitespace rest).head? = some (unit '\x7d') then .ok (skipWhitespace rest).tail
        else parseObject steps [] (skipWhitespace rest)
      else if char = unit '[' then
        if (skipWhitespace rest).head? = some (unit ']') then .ok (skipWhitespace rest).tail
        else parseArray steps (skipWhitespace rest)
      else if char = unit '"' then (parseString numbers (char :: rest)).map Prod.snd
      else
        match matchScalar (char :: rest) with
        | some rest => .ok rest
        | none => v2Fail (units "JSON value 不合法")

def parseObject : Nat → List Text → Text → Except V2ContractError Text
  | 0, _, _ => v2FailPlain
  | steps + 1, keys, text =>
    if text.isEmpty then v2FailPlain
    else do
      let (key, rest) ← parseString numbers (skipWhitespace text)
      if keys.contains key then v2Fail (units "重复 JSON key: " ++ key)
      else if (skipWhitespace rest).head? ≠ some (unit ':') then v2FailPlain
      else do
        let rest ← parseValue steps (skipWhitespace rest).tail
        if (skipWhitespace rest).head? = some (unit '\x7d') then .ok (skipWhitespace rest).tail
        else if (skipWhitespace rest).head? ≠ some (unit ',') then v2FailPlain
        else parseObject steps (keys ++ [key]) (skipWhitespace rest).tail

def parseArray : Nat → Text → Except V2ContractError Text
  | 0, _ => v2FailPlain
  | steps + 1, text =>
    if text.isEmpty then v2FailPlain
    else do
      let rest ← parseValue steps text
      if (skipWhitespace rest).head? = some (unit ']') then .ok (skipWhitespace rest).tail
      else if (skipWhitespace rest).head? ≠ some (unit ',') then v2FailPlain
      else parseArray steps (skipWhitespace rest).tail

end

def parseJsonWithoutDuplicateKeys (text : Text) : Except V2ContractError (Value N) := do
  let rest ← parseValue numbers (2 * text.length + 2) text
  if (skipWhitespace rest).isEmpty then
    match jsonParse numbers text with
    | .ok value => .ok value
    | .error _ => v2FailPlain
  else v2FailPlain

end AgentSaas.AppContract.DuplicateFreeJson
