import AgentSaas.JsonNumbers

/-! Canonical JSON for signatures: a serializer that checks what it writes, and a strict reader. -/

namespace AgentSaas.AppContract.Jcs
open ToolCallRepair (Text unit units)
open JsonValues JsonStrings JsonReader JsonNumbers CodePoints

inductive JcsErrorCode | invalidJson | duplicateKey | unsafeInteger | loneSurrogate | nonFiniteNumber | unsupportedType
  deriving DecidableEq, Repr

structure JcsError where
  code : JcsErrorCode
  message : Text
  offset : Option Nat
  deriving DecidableEq, Repr

def hasLoneSurrogate : Text → Bool
  | [] => false
  | char :: rest =>
    if isHigh char then
      match rest with
      | next :: later => if isLow next then hasLoneSurrogate later else true
      | [] => true
    else if isLow char then true
    else hasLoneSurrogate rest

variable {N : Type} [DecidableEq N] (numbers : Numbers N)

/-- `Number.isInteger(value) && !Number.isSafeInteger(value)` -/
def isUnsafe (value : N) : Bool := (numbers.toInt value).any fun value => !isSafe value

def serializeNumber (value : N) : Except JcsError Text :=
  if !numbers.isFinite value then .error ⟨.nonFiniteNumber, units "非有限数不满足 I-JSON：" ++ numbers.toText value, none⟩
  else if value = numbers.negativeZero then .ok (units "0")
  else if isUnsafe numbers value then .error ⟨.unsafeInteger, units "整数超出 ±(2^53-1)：" ++ numbers.toText value, none⟩
  else .ok (numbers.toText value)

def serializeString (value : Text) : Except JcsError Text :=
  if hasLoneSurrogate value then .error ⟨.loneSurrogate, units "字符串含孤立代理项，不满足 I-JSON", none⟩
  else .ok (quote value)

/-- What a value serializes to, and whether it is `undefined`. -/
structure Part where
  isUndefined : Bool
  text : Except JcsError Text

def unsupported (kind : String) : Except JcsError Text :=
  if kind = "object" then .error ⟨.unsupportedType, units "只接受普通对象与数组，不接受类实例 / Map / Date 等", none⟩
  else .error ⟨.unsupportedType, units "JSON 不支持的类型：" ++ units kind, none⟩

def serializeItems (items : List Part) : Except JcsError Text := do
  let items ← items.mapM Part.text
  return arrayText items

def serializeMember (member : Text × Part) : Except JcsError Text :=
  if member.2.isUndefined then
    .error ⟨.unsupportedType, units "属性 " ++ member.1 ++ units " 的值是 undefined，不是 JSON 值", none⟩
  else do
    let key ← serializeString member.1
    let item ← member.2.text
    return key ++ unit ':' :: item

def serializeMembers (members : List (Text × Part)) : Except JcsError Text := do
  let parts ← (sortMembers members).mapM serializeMember
  return unit '\x7b' :: (Splitting.join [unit ','] parts ++ [unit '\x7d'])

def serialize : Value N → Part :=
  Value.fold ⟨false, .ok (units "null")⟩ (fun value => ⟨false, .ok (boolText value)⟩) (fun value => ⟨false, serializeNumber numbers value⟩)
    (fun value => ⟨false, serializeString value⟩) (fun items => ⟨false, serializeItems items⟩)
    (fun members => ⟨false, serializeMembers members⟩) fun kind => ⟨kind = "undefined", unsupported kind⟩

def canonicalize (value : Value N) : Except JcsError Text := (serialize numbers value).text

/-- The reader refuses what I-JSON does not allow. -/
def iJson : Dialect N (JcsErrorCode × Text) where
  number literal isInteger :=
    if isInteger && !isSafe (bigInt literal) then .error (.unsafeInteger, units "整数超出 ±(2^53-1)：" ++ literal)
    else if !numbers.isFinite (numbers.ofText literal) then .error (.nonFiniteNumber, units "数字不是有限数：" ++ literal)
    else .ok (numbers.ofText literal)
  string out := if hasLoneSurrogate out then .error (.loneSurrogate, units "字符串含孤立代理项") else .ok ()
  repeated key := .error (.duplicateKey, units "对象内重复键 " ++ key)

def failure : Fault (JcsErrorCode × Text) → JcsErrorCode × Text
  | .expected char => (.invalidJson, units "期望 " ++ [char])
  | .literal => (.invalidJson, units "非法字面量")
  | .hexadecimal => (.invalidJson, units "非法 \\u 转义")
  | .unclosed => (.invalidJson, units "字符串未闭合")
  | .escapeUnclosed => (.invalidJson, units "转义未闭合")
  | .escape char => (.invalidJson, units "非法转义 \\" ++ [char])
  | .control => (.invalidJson, units "字符串内出现未转义控制字符")
  | .number => (.invalidJson, units "非法数字")
  | .fraction => (.invalidJson, units "小数点后缺少数字")
  | .exponent => (.invalidJson, units "指数缺少数字")
  | .ended => (.invalidJson, units "输入意外结束")
  | .character char => (.invalidJson, units "非法字符 " ++ [char])
  | .trailing => (.invalidJson, units "尾部有多余内容")
  | .refused reason => reason
  | .exhausted => (.invalidJson, [])

/-- `fail(code, message)`, at what is left of the text. -/
def fail (text : Text) (stop : Stop (JcsErrorCode × Text)) : JcsError :=
  let (code, message) := failure stop.1
  let offset := text.length - stop.2.length
  ⟨code, message ++ units "（偏移 " ++ decimal offset ++ units "）", some offset⟩

def parseIJson (text : Text) : Except JcsError (Value N) := (parse (iJson numbers) text).mapError (fail text)

def canonicalizeText (text : Text) : Except JcsError Text := do
  let value ← parseIJson numbers text
  canonicalize numbers value

end AgentSaas.AppContract.Jcs
