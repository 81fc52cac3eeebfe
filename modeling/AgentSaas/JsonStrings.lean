import AgentSaas.CodePoints
import AgentSaas.ToolCallRepair.Text

/-! `JSON.stringify` of a string, over its code points, and of a number. -/

namespace AgentSaas.JsonStrings
open CodePoints ToolCallRepair

def decimal (value : Nat) : Text := units (toString value)

def hexDigit (value : Nat) : Nat := if value < 10 then unit '0' + value else unit 'a' + (value - 10)

def unicodeEscape (char : Nat) : Text :=
  [unit '\\', unit 'u', hexDigit (char / 4096 % 16), hexDigit (char / 256 % 16), hexDigit (char / 16 % 16), hexDigit (char % 16)]

def quoteUnit (char : Nat) : Text :=
  if char = 0x08 then units "\\b"
  else if char = 0x09 then units "\\t"
  else if char = 0x0A then units "\\n"
  else if char = 0x0C then units "\\f"
  else if char = 0x0D then units "\\r"
  else if char = unit '"' then units "\\\""
  else if char = unit '\\' then units "\\\\"
  else if char < 0x20 || isHigh char || isLow char then unicodeEscape char
  else [char]

def quotePoint : List Nat → Text
  | [char] => quoteUnit char
  | pair => pair

def quote (text : Text) : Text := unit '"' :: ((codePoints text).flatMap quotePoint ++ [unit '"'])

end AgentSaas.JsonStrings
