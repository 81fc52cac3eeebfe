import AgentSaas.ToolCallRepair.Text
import Mathlib.Data.List.DropRight

/-! The formulas of a text in Markdown. Code is no formula, and what is not closed stays text. -/

namespace AgentSaas.MathSegments
open ToolCallRepair (Text unit units isSpace indexOf slice)

inductive MathSegment
  | text (content : Text)
  | math (tex : Text) (display : Bool)
  deriving DecidableEq, Repr

structure Delimiter where
  opening : Text
  closing : Text
  deriving DecidableEq, Repr

def BLOCK_DELIMITERS : List Delimiter := [⟨units "$$", units "$$"⟩, ⟨units "\\[", units "\\]"⟩]

def INLINE_DELIMITERS : List Delimiter := [⟨units "\\(", units "\\)"⟩, ⟨units "$", units "$"⟩]

def delimitersOf (inline : Bool) : List Delimiter :=
  if inline then BLOCK_DELIMITERS ++ INLINE_DELIMITERS else BLOCK_DELIMITERS

/-- `matched.open === '$$' || matched.open === '\\['` -/
def Delimiter.display (delimiter : Delimiter) : Bool :=
  delimiter.opening == units "$$" || delimiter.opening == units "\\["

def trim (text : Text) : Text := (text.dropWhile isSpace).rdropWhile isSpace

def runAt (char : Char) (text : Text) (index : Nat) : Text := (text.drop index).takeWhile (· == unit char)

def fenceAt (text : Text) (index : Nat) : Option Text :=
  if index ≠ 0 ∧ text[index - 1]? ≠ some (unit '\n') then none
  else if 3 ≤ (runAt '`' text index).length then some (runAt '`' text index)
  else if 3 ≤ (runAt '~' text index).length then some (runAt '~' text index)
  else none

def fenceEnd (text : Text) (index : Nat) (fence : Text) : Nat :=
  match indexOf text (unit '\n' :: fence) (index + fence.length) with
  | none => text.length
  | some closeIndex => closeIndex + 1 + fence.length

def inlineCodeEnd (text : Text) (index : Nat) : Option Nat :=
  let run := runAt '`' text index
  (indexOf text run (index + run.length)).bind fun closeIndex =>
    -- a longer run closes nothing
    if text[closeIndex + run.length]? = some (unit '`') then none else some (closeIndex + run.length)

structure Formula where
  delimiter : Delimiter
  closeIndex : Nat
  deriving DecidableEq, Repr

def Formula.body (formula : Formula) (text : Text) (index : Nat) : Text :=
  slice text (index + formula.delimiter.opening.length) formula.closeIndex

/-- The formula that begins at an index. Only the first delimiter that fits is tried. -/
def formulaAt (inline : Bool) (text : Text) (index : Nat) : Option Formula :=
  ((delimitersOf inline).find? fun delimiter => delimiter.opening.isPrefixOf (text.drop index)).bind fun matched =>
    (indexOf text matched.closing (index + matched.opening.length)).bind fun closeIndex =>
      if (trim (Formula.body ⟨matched, closeIndex⟩ text index)).isEmpty then none else some ⟨matched, closeIndex⟩

/-- What one turn of the loop does with its index. -/
inductive Turn
  | code (stop : Nat)
  | math (formula : Formula)
  | plain
  deriving DecidableEq, Repr

def turnAt (inline : Bool) (text : Text) (index : Nat) : Turn :=
  match fenceAt text index with
  | some fence => .code (fenceEnd text index fence)
  | none =>
    match if text[index]? = some (unit '`') then inlineCodeEnd text index else none with
    | some stop => .code stop
    | none =>
      match formulaAt inline text index with
      | some formula => .math formula
      | none => .plain

/-- The index of the next turn. -/
def Turn.next (index : Nat) : Turn → Nat
  | .code stop => stop
  | .math formula => formula.closeIndex + formula.delimiter.closing.length
  | .plain => index + 1

def flush (buffer : Text) : List MathSegment := if buffer.isEmpty then [] else [.text buffer]

def splitFrom (inline : Bool) (text : Text) : Nat → Nat → Text → List MathSegment
  | 0, _, buffer => flush buffer
  | turns + 1, index, buffer =>
    if index < text.length then
      let turn := turnAt inline text index
      match turn with
      | .math formula =>
        flush buffer ++ .math (trim (formula.body text index)) formula.delimiter.display ::
          splitFrom inline text turns (turn.next index) []
      | .code _ | .plain => splitFrom inline text turns (turn.next index) (buffer ++ slice text index (turn.next index))
    else flush buffer

end AgentSaas.MathSegments
