import AgentSaas.MathSegments
import AgentSaas.Proofs.ToolCallPrefixes

/-! The segments of a text are cut from it in order, a formula with its delimiters. No delimiter is
in code as long as the loop comes to no formula that begins in code or that code in its body
reaches out of. -/

namespace AgentSaas.Proofs.MathSegments
open AgentSaas.MathSegments
open ToolCallRepair (Text unit units isSpace indexOf slice)

/-! The code of a text, found from the left without a look at formulas. -/

def runEnd (count : Nat) : Text → Nat → Nat → Option Nat
  | [], run, place => if run = count then some place else none
  | char :: rest, run, place =>
    if char = unit '`' then runEnd count rest (run + 1) (place + 1)
    else if run = count then some place
    else runEnd count rest 0 (place + 1)

/-- Where the code that begins at a place ends: a fenced block, or a span between equal runs. -/
def codeEnd (text : Text) (place : Nat) : Option Nat :=
  match fenceAt text place with
  | some fence => some (fenceEnd text place fence)
  | none =>
    let count := (runAt '`' text place).length
    if count = 0 then none else runEnd count (text.drop (place + count)) 0 (place + count)

/-- The scan for code comes to the place. It goes on behind code, and behind a run that nothing
closes. -/
inductive Scanned (text : Text) : Nat → Prop
  | first : Scanned text 0
  | code {place stop : Nat} (scanned : Scanned text place) (ends : codeEnd text place = some stop) : Scanned text stop
  | plain {place : Nat} (scanned : Scanned text place) (open' : codeEnd text place = none) :
    Scanned text (place + max 1 (runAt '`' text place).length)

structure Region (text : Text) (start stop : Nat) : Prop where
  scanned : Scanned text start
  ends : codeEnd text start = some stop

def InCode (text : Text) (place : Nat) : Prop := ∃ start stop, Region text start stop ∧ start ≤ place ∧ place < stop

def Plain (text : Text) (place count : Nat) : Prop := ∀ index, place ≤ index → index < place + count → ¬ InCode text index

inductive Piece
  | text (content : Text)
  | math (delimiter : Delimiter) (body : Text)

def Piece.units : Piece → Text
  | .text content => content
  | .math delimiter body => delimiter.opening ++ body ++ delimiter.closing

/-- The segment that a piece gives. -/
inductive Gives (inline : Bool) : Piece → MathSegment → Prop
  | text (content : Text) : Gives inline (.text content) (.text content)
  | math {delimiter : Delimiter} {body : Text} (known : delimiter ∈ delimitersOf inline) (filled : trim body ≠ []) :
    Gives inline (.math delimiter body) (.math (trim body) delimiter.display)

def lengthOf (pieces : List Piece) : Nat := (pieces.flatMap Piece.units).length

inductive Reaches (inline : Bool) (text : Text) : Nat → Nat → Prop
  | here (index : Nat) : Reaches inline text index index
  | next {index place : Nat} (inside : index < text.length)
    (later : Reaches inline text ((turnAt inline text index).next index) place) : Reaches inline text index place

/-- A turn that takes a formula takes one that begins outside of code, and no code that begins in its
body reaches its end. -/
def Clear (inline : Bool) (text : Text) : Prop :=
  ∀ index formula, index < text.length → Reaches inline text 0 index → turnAt inline text index = .math formula →
    Plain text index formula.delimiter.opening.length ∧
      ∀ start stop, Region text start stop → index < start → start < formula.closeIndex → stop ≤ formula.closeIndex

/-- The formula that begins at a place, among pieces that begin at `start`. -/
def At (pieces : List Piece) (start place : Nat) (delimiter : Delimiter) (body : Text) : Prop :=
  ∃ before after, pieces = before ++ .math delimiter body :: after ∧ place = start + lengthOf before

def Takes (inline : Bool) (text : Text) (index place : Nat) (delimiter : Delimiter) (body : Text) : Prop :=
  ∃ formula, place < text.length ∧ Reaches inline text index place ∧ turnAt inline text place = .math formula ∧
    formula.delimiter = delimiter ∧ formula.body text place = body

/-- The pieces that the loop cuts from an index on. The text it has gathered begins at `start`. -/
structure Cut (inline : Bool) (text : Text) (start index : Nat) (segments : List MathSegment) (pieces : List Piece) : Prop where
  whole : pieces.flatMap Piece.units = text.drop start
  gives : List.Forall₂ (Gives inline) pieces segments
  taken : ∀ place delimiter body, At pieces start place delimiter body ↔ Takes inline text index place delimiter body

end AgentSaas.Proofs.MathSegments
