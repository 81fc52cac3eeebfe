import AgentSaas.AppContract.ToolNames
import AgentSaas.JsonReader
import Mathlib.Data.List.Infix
import Mathlib.Data.List.Lex
import Mathlib.Data.List.Sort

/-! The paths of an app: the one that is shown, with its query, and the one that a prefix is
matched with. -/

namespace AgentSaas.AppContract.Paths
open Splitting CodePoints
open ToolCallRepair (Text unit units isSpace)

def APP_PATH_MAX_LENGTH := 512
def RESERVED_QUERY_PARAMS : List Text := [units "ky", units "ky_iid", units "ky_nonce"]

def isLetter (char : Nat) : Bool := isLower char || (unit 'A' ≤ char && char ≤ unit 'Z')

/-- `/^[a-zA-Z][a-zA-Z0-9+.-]*:/u` -/
def hasScheme : Text → Bool
  | [] => false
  | first :: rest =>
    isLetter first && (rest.dropWhile fun char => isLetter char || isDigit char || (units "+.-").contains char).head? = some (unit ':')

/-- What `/%2[fe]/iu` finds. -/
def PERCENT_SEPARATORS : List Text := [units "%2f", units "%2F", units "%2e", units "%2E"]

def hasPercentSeparator (path : Text) : Bool := PERCENT_SEPARATORS.any (· <:+: path)

def checkAppPath (path : Text) : Except PathError Unit := do
  if path.length = 0 then throw ⟨.empty, units "path 不能为空"⟩
  if path.length > APP_PATH_MAX_LENGTH then
    throw ⟨.tooLong, units "path 超过 " ++ units (toString APP_PATH_MAX_LENGTH) ++ units " 字符"⟩
  if hasScheme path then throw ⟨.scheme, units "path 不得带 scheme"⟩
  if units "\\" <:+: path then throw ⟨.backslash, units "path 不得含反斜杠"⟩
  if path.any isSpace then throw ⟨.whitespace, units "path 不得含空白字符"⟩
  if ¬ units "/" <+: path then throw ⟨.notAbsolute, units "path 必须以 / 开头"⟩
  if units "//" <:+: path then throw ⟨.doubleSlash, units "path 不得含 //"⟩
  if units ".." <:+: path then throw ⟨.dotSegment, units "path 不得含 .."⟩
  if hasPercentSeparator path then throw ⟨.percentEncodedSeparator, units "path 不得含 %2f / %2e"⟩

/-! The parts of a path. -/

def hashOf (path : Text) : Text := path.dropWhile (· ≠ unit '#')

def withoutHash (path : Text) : Text := path.takeWhile (· ≠ unit '#')

def rawQueryOf (path : Text) : Text := ((withoutHash path).dropWhile (· ≠ unit '?')).drop 1

def pathnameOf (path : Text) : Text := (withoutHash path).takeWhile (· ≠ unit '?')

def trimPathname (pathname : Text) : Text :=
  let trimmed := if 1 < pathname.length ∧ units "/" <:+ pathname then pathname.dropLast else pathname
  if trimmed.length = 0 then units "/" else trimmed

structure QueryEntry where
  key : Text
  raw : Text
  order : Nat
  deriving DecidableEq, Repr

def keyOf (part : Text) : Text := part.takeWhile (· ≠ unit '=')

def isReserved (part : Text) : Bool := RESERVED_QUERY_PARAMS.contains (keyOf part)

/-- The loop over the parts, from the order of the next entry on. -/
def queryEntries : Nat → List Text → List QueryEntry
  | _, [] => []
  | order, part :: parts =>
    if part = [] then queryEntries order parts
    else if isReserved part then queryEntries order parts
    else ⟨keyOf part, part, order⟩ :: queryEntries (order + 1) parts

/-- The comparison of two entries is not positive. -/
def QueryEntry.le (left right : QueryEntry) : Prop :=
  if left.key < right.key then True
  else if right.key < left.key then False
  else left.order ≤ right.order

instance : DecidableRel QueryEntry.le := fun left right =>
  inferInstanceAs (Decidable (if left.key < right.key then True else if right.key < left.key then False else left.order ≤ right.order))

def normalizeQuery (rawQuery : Text) : Text :=
  if rawQuery = [] then []
  else join (units "&") (((queryEntries 0 (split (units "&") rawQuery)).insertionSort QueryEntry.le).map (·.raw))

def normalizeAppPath (path : Text) : Except PathError Text := do
  checkAppPath path
  let query := normalizeQuery (rawQueryOf path)
  return trimPathname (pathnameOf path) ++ ((if query = [] then [] else unit '?' :: query) ++ hashOf path)

/-! Percent decoding. -/

/-- What stands in a text that is percent-encoded. -/
inductive Piece
  | plain (char : Nat)
  | octet (value : Nat)
  deriving DecidableEq, Repr

def pieces : Text → Option (List Piece)
  | [] => some []
  | char :: rest =>
    if char = unit '%' then
      match rest with
      | high :: low :: later => do
        let high ← JsonReader.hexValue high
        let low ← JsonReader.hexValue low
        return .octet (16 * high + low) :: (← pieces later)
      | _ => none
    else (pieces rest).map (.plain char :: ·)

def isContinuation (octet : Nat) : Bool := 0x80 ≤ octet && octet < 0xC0

def decodePieces : List Piece → Option Text
  | [] => some []
  | .plain char :: rest => (decodePieces rest).map (char :: ·)
  | .octet first :: rest =>
    if first < 0x80 then (decodePieces rest).map (first :: ·)
    else if first < 0xC0 then none
    else
      match rest with
      | .octet second :: rest =>
        if !isContinuation second then none
        else if first < 0xE0 then
          let code := (first - 0xC0) * 0x40 + (second - 0x80)
          if code < 0x80 then none else (decodePieces rest).map (unitsOf code ++ ·)
        else
          match rest with
          | .octet third :: rest =>
            if !isContinuation third then none
            else if first < 0xF0 then
              let code := ((first - 0xE0) * 0x40 + (second - 0x80)) * 0x40 + (third - 0x80)
              if code < 0x800 || (0xD800 ≤ code && code < 0xE000) then none
              else (decodePieces rest).map (unitsOf code ++ ·)
            else
              match rest with
              | .octet fourth :: rest =>
                if !isContinuation fourth || 0xF8 ≤ first then none
                else
                  let code := (((first - 0xF0) * 0x40 + (second - 0x80)) * 0x40 + (third - 0x80)) * 0x40 + (fourth - 0x80)
                  if code < 0x10000 || 0x110000 ≤ code then none else (decodePieces rest).map (unitsOf code ++ ·)
              | _ => none
          | _ => none
      | _ => none

def decodeURIComponent (text : Text) : Option Text := do decodePieces (← pieces text)

/-! The path that a prefix is matched with. -/

/-- `replace(/\/{2,}/gu, '/')` -/
def mergeSlashes : Text → Text
  | [] => []
  | [char] => [char]
  | first :: second :: rest =>
    if first = unit '/' ∧ second = unit '/' then mergeSlashes (second :: rest) else first :: mergeSlashes (second :: rest)

def normalizePathname (pathname : Text) : Except PathError Text := do
  if pathname.length = 0 then throw ⟨.empty, units "pathname 不能为空"⟩
  if hasPercentSeparator pathname then throw ⟨.percentEncodedSeparator, units "pathname 含 %2f / %2e"⟩
  match decodeURIComponent pathname with
  | none => throw ⟨.percentEncodedSeparator, units "pathname 百分号编码非法"⟩
  | some decoded =>
    if hasPercentSeparator decoded then throw ⟨.percentEncodedSeparator, units "pathname 解码后仍含 %2f / %2e"⟩
    if units "\\" <:+: decoded then throw ⟨.backslash, units "pathname 不得含反斜杠"⟩
    if ¬ units "/" <+: decoded then throw ⟨.notAbsolute, units "pathname 必须以 / 开头"⟩
    let merged := mergeSlashes decoded
    if (split (units "/") merged).contains (units "..") then throw ⟨.dotSegment, units "pathname 含 .. 段"⟩
    return merged

/-- What `assertPathPrefix` asks of a prefix. -/
def isPathPrefix (path : Text) : Bool := units "/" <+: path && units "/" <:+ path && path ≠ units "/"

def isSegmentPrefix (pathname path : Text) : Bool := isPathPrefix path && path <+: pathname

def matchPathPrefix (pathname : Text) (prefixes : List Text) : Bool :=
  match normalizePathname pathname with
  | .error _ => false
  | .ok normalized => prefixes.any (isSegmentPrefix normalized)

end AgentSaas.AppContract.Paths
