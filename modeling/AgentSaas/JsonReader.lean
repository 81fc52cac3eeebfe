import AgentSaas.JsonValues
import AgentSaas.Dictionaries

/-! Reading a JSON text from left to right. A cursor is the rest of the text from there on. What a
reader accepts beyond the grammar is its dialect. -/

namespace AgentSaas.JsonReader
open ToolCallRepair (Text unit units)
open JsonValues Dictionaries

/-- Why a text is refused: by the grammar, or by the dialect for a reason of its own. -/
inductive Fault (ε : Type) where
  | expected (char : Nat)
  | literal
  | hexadecimal
  | unclosed
  | escapeUnclosed
  | escape (char : Nat)
  | control
  | number
  | fraction
  | exponent
  | ended
  | character (char : Nat)
  | trailing
  | refused (reason : ε)
  /-- Never met: the steps that are allowed are more than a text needs. -/
  | exhausted
  deriving DecidableEq, Repr

/-- What is made of a number literal (and whether it has neither fraction nor exponent), of a
string at its end, and of a key that the object has already. -/
structure Dialect (N ε : Type) where
  number : Text → Bool → Except ε N
  string : Text → Except ε Unit
  repeated : Text → Except ε Unit

variable {N ε : Type}

abbrev Stop (ε : Type) := Fault ε × Text

def isWhitespace (char : Nat) : Bool := char == unit ' ' || char == unit '\t' || char == unit '\n' || char == unit '\r'

def skipWhitespace (text : Text) : Text := text.dropWhile isWhitespace

def expect (char : Nat) (text : Text) : Except (Stop ε) (Unit × Text) :=
  match text with
  | next :: rest => if next = char then .ok ((), rest) else .error (.expected char, text)
  | [] => .error (.expected char, text)

def parseLiteral (literal : Text) (value : Value N) (text : Text) : Except (Stop ε) (Value N × Text) :=
  if literal.isPrefixOf text then .ok (value, text.drop literal.length) else .error (.literal, text)

def hexValue (char : Nat) : Option Nat :=
  if unit '0' ≤ char ∧ char ≤ unit '9' then some (char - unit '0')
  else if unit 'a' ≤ char ∧ char ≤ unit 'f' then some (char - unit 'a' + 10)
  else if unit 'A' ≤ char ∧ char ≤ unit 'F' then some (char - unit 'A' + 10)
  else none

def parseHex4 (first second third fourth : Nat) : Option Nat := do
  let first ← hexValue first
  let second ← hexValue second
  let third ← hexValue third
  let fourth ← hexValue fourth
  return first * 4096 + second * 256 + third * 16 + fourth

def escapeOf (char : Nat) : Option Nat :=
  if char = unit '"' then some (unit '"')
  else if char = unit '\\' then some (unit '\\')
  else if char = unit '/' then some (unit '/')
  else if char = unit 'b' then some 0x08
  else if char = unit 'f' then some 0x0C
  else if char = unit 'n' then some 0x0A
  else if char = unit 'r' then some 0x0D
  else if char = unit 't' then some 0x09
  else none

variable (dialect : Dialect N ε)

def parseChars (out : Text) : Text → Except (Stop ε) (Text × Text)
  | [] => .error (.unclosed, [])
  | char :: rest =>
    if char = unit '"' then
      match dialect.string out with
      | .ok () => .ok (out, rest)
      | .error reason => .error (.refused reason, rest)
    else if char = unit '\\' then
      match rest with
      | [] => .error (.escapeUnclosed, [])
      | escape :: later =>
        if escape = unit 'u' then
          match later with
          | first :: second :: third :: fourth :: next =>
            match parseHex4 first second third fourth with
            | some char => parseChars (out ++ [char]) next
            | none => .error (.hexadecimal, later)
          | _ => .error (.hexadecimal, later)
        else
          match escapeOf escape with
          | some char => parseChars (out ++ [char]) later
          | none => .error (.escape escape, rest)
    else if char < 0x20 then .error (.control, char :: rest)
    else parseChars (out ++ [char]) rest

def parseString (text : Text) : Except (Stop ε) (Text × Text) :=
  match expect (unit '"') text with
  | .ok (_, rest) => parseChars dialect [] rest
  | .error fault => .error fault

/-! Numbers. Each scan gives what it passed over. -/

def isDigit (char : Nat) : Bool := unit '0' ≤ char && char ≤ unit '9'

def scanSign : Text → Text × Text
  | char :: rest => if char = unit '-' then ([char], rest) else ([], char :: rest)
  | [] => ([], [])

def scanInteger (text : Text) : Except (Stop ε) (Text × Text) :=
  match text with
  | char :: rest =>
    if char = unit '0' then .ok ([char], rest)
    else if unit '1' ≤ char ∧ char ≤ unit '9' then .ok (text.takeWhile isDigit, text.dropWhile isDigit)
    else .error (.number, text)
  | [] => .error (.number, text)

def scanDigits (fault : Fault ε) (text : Text) : Except (Stop ε) (Text × Text) :=
  if text.head?.any isDigit then .ok (text.takeWhile isDigit, text.dropWhile isDigit) else .error (fault, text)

def scanFraction (text : Text) : Except (Stop ε) (Text × Text) :=
  match text with
  | char :: rest =>
    if char = unit '.' then (scanDigits .fraction rest).map fun found => (char :: found.1, found.2) else .ok ([], text)
  | [] => .ok ([], text)

def scanExponentSign : Text → Text × Text
  | char :: rest => if char = unit '+' ∨ char = unit '-' then ([char], rest) else ([], char :: rest)
  | [] => ([], [])

def scanExponent (text : Text) : Except (Stop ε) (Text × Text) :=
  match text with
  | char :: rest =>
    if char = unit 'e' ∨ char = unit 'E' then
      let (sign, rest) := scanExponentSign rest
      (scanDigits .exponent rest).map fun found => (char :: sign ++ found.1, found.2)
    else .ok ([], text)
  | [] => .ok ([], text)

def scanNumber (text : Text) : Except (Stop ε) ((Text × Bool) × Text) := do
  let (sign, rest) := scanSign text
  let (digits, rest) ← scanInteger rest
  let (fraction, rest) ← scanFraction rest
  let (exponent, rest) ← scanExponent rest
  return ((sign ++ digits ++ fraction ++ exponent, fraction.isEmpty && exponent.isEmpty), rest)

def parseNumber (text : Text) : Except (Stop ε) (Value N × Text) := do
  let ((literal, isInteger), rest) ← scanNumber text
  match dialect.number literal isInteger with
  | .ok value => .ok (.number value, rest)
  | .error reason => .error (.refused reason, rest)

/-! Values. The first argument is the number of steps that are left. -/

def parseKey (members : List (Text × Value N)) (text : Text) : Except (Stop ε) (Text × Text) := do
  let (key, rest) ← parseString dialect text
  if (members.map Prod.fst).contains key then
    match dialect.repeated key with
    | .ok () => .ok (key, rest)
    | .error reason => .error (.refused reason, rest)
  else .ok (key, rest)

mutual

def parseValue : Nat → Text → Except (Stop ε) (Value N × Text)
  | 0, text => .error (.exhausted, text)
  | steps + 1, text =>
    match skipWhitespace text with
    | [] => .error (.ended, [])
    | char :: rest =>
      if char = unit '\x7b' then
        if (skipWhitespace rest).head? = some (unit '\x7d') then .ok (.object [], (skipWhitespace rest).tail)
        else parseMembers steps [] rest
      else if char = unit '[' then
        if (skipWhitespace rest).head? = some (unit ']') then .ok (.array [], (skipWhitespace rest).tail)
        else parseItems steps [] (skipWhitespace rest)
      else if char = unit '"' then (parseString dialect (char :: rest)).map fun found => (.string found.1, found.2)
      else if char = unit 't' then parseLiteral (units "true") (.bool true) (char :: rest)
      else if char = unit 'f' then parseLiteral (units "false") (.bool false) (char :: rest)
      else if char = unit 'n' then parseLiteral (units "null") .null (char :: rest)
      else if char = unit '-' ∨ isDigit char then parseNumber dialect (char :: rest)
      else .error (.character char, char :: rest)

def parseMembers : Nat → List (Text × Value N) → Text → Except (Stop ε) (Value N × Text)
  | 0, _, text => .error (.exhausted, text)
  | steps + 1, out, text => do
    let (key, rest) ← parseKey dialect out (skipWhitespace text)
    let (_, rest) ← expect (unit ':') (skipWhitespace rest)
    let (value, rest) ← parseValue steps rest
    let out := Dictionary.setEntries out key value
    if (skipWhitespace rest).head? = some (unit ',') then parseMembers steps out (skipWhitespace rest).tail
    else
      let (_, rest) ← expect (unit '\x7d') (skipWhitespace rest)
      .ok (.object out, rest)

def parseItems : Nat → List (Value N) → Text → Except (Stop ε) (Value N × Text)
  | 0, _, text => .error (.exhausted, text)
  | steps + 1, out, text => do
    let (value, rest) ← parseValue steps text
    let out := out ++ [value]
    if (skipWhitespace rest).head? = some (unit ',') then parseItems steps out (skipWhitespace rest).tail
    else
      let (_, rest) ← expect (unit ']') (skipWhitespace rest)
      .ok (.array out, rest)

end

/-- A value, and nothing else. -/
def parse (text : Text) : Except (Stop ε) (Value N) := do
  let (value, rest) ← parseValue dialect (2 * text.length + 2) text
  if (skipWhitespace rest).isEmpty then .ok value else .error (.trailing, skipWhitespace rest)

end AgentSaas.JsonReader
