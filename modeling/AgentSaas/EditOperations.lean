import AgentSaas.Sorting
import AgentSaas.Splitting
import AgentSaas.ToolCallRepair.Text
import Mathlib.Data.List.DropRight

/-! Edits of a workspace file. An edit is matched in a view of the file, whose units know
which part of the file they stand for; a range of the view is mapped back to the file. -/

namespace AgentSaas.EditOperations
open Splitting Sorting ToolCallRepair

def MAX_EDIT_RESULT_BYTES := 1000000
def MAX_EDIT_REPLACEMENTS := 10000

/-- Unicode as the runtime has it: the normal form, and the graphemes that make up a text. -/
structure Unicode where
  nfkc : Text → Text
  graphemes : Text → List Text
  flatten_graphemes : ∀ text, (graphemes text).flatten = text
  graphemes_filled : ∀ text, ∀ grapheme ∈ graphemes text, grapheme ≠ []

structure EditOperation where
  old_string : Text
  new_string : Text
  replace_all : Bool

inductive LineEnding | crlf | lf
  deriving DecidableEq, Repr

inductive MatchMode | exact | fuzzy
  deriving DecidableEq, Repr

structure PlannedReplacement where
  editIndex : Nat
  start : Nat
  stop : Nat
  newText : Text
  matchMode : MatchMode
  deriving DecidableEq, Repr

structure AppliedWorkspaceEdits where
  updatedContent : Text
  replacements : Nat
  occurrences : Nat
  editCount : Nat
  fuzzyMatches : Nat
  bomPreserved : Bool
  lineEnding : LineEnding
  deriving DecidableEq, Repr

structure MappedUnit where
  value : Nat
  start : Nat
  stop : Nat
  deriving DecidableEq, Repr

structure FuzzyView where
  text : Text
  starts : List Nat
  ends : List Nat

def FuzzyView.ofUnits (units : List MappedUnit) : FuzzyView :=
  ⟨units.map (·.value), units.map (·.start), units.map (·.stop)⟩

def BOM : Nat := 0xFEFF
def CR : Nat := unit '\r'
def LF : Nat := unit '\n'

def isSingleQuote (char : Nat) : Bool := [0x2018, 0x2019, 0x201A, 0x201B].contains char
def isDoubleQuote (char : Nat) : Bool := [0x201C, 0x201D, 0x201E, 0x201F].contains char
def isDash (char : Nat) : Bool := (0x2010 ≤ char && char ≤ 0x2015) || char = 0x2212
def isSpecialSpace (char : Nat) : Bool := (0x2002 ≤ char && char ≤ 0x200A) || [0xA0, 0x202F, 0x205F, 0x3000].contains char

def stripBom (content : Text) : Text × Text :=
  if content.head? = some BOM then ([BOM], content.tail) else ([], content)

/-- `/\r\n/g` -/
def countCrLf : Text → Nat
  | [] => 0
  | first :: rest => (if first = CR ∧ rest.head? = some LF then 1 else 0) + countCrLf rest

def detectLineEnding (content : Text) : LineEnding :=
  let crlfCount := countCrLf content
  let lfCount := content.count LF - crlfCount
  if crlfCount = 0 then .lf
  else if crlfCount ≠ lfCount then if crlfCount > lfCount then .crlf else .lf
  else
    match indexOf content [LF] 0 with
    | some firstNewline => if firstNewline > 0 ∧ content[firstNewline - 1]? = some CR then .crlf else .lf
    | none => .lf

def crLfToLf : Text → Text
  | [] => []
  | first :: rest => if first = CR ∧ rest.head? = some LF then crLfToLf rest else first :: crLfToLf rest

def normalizeToLf (text : Text) : Text := (crLfToLf text).map fun char => if char = CR then LF else char

def restoreLineEndings (text : Text) (ending : LineEnding) : Text :=
  match ending with
  | .crlf => text.flatMap fun char => if char = LF then [CR, LF] else [char]
  | .lf => text

/-- The four replacements in turn, none of which brings in what a later one looks for. -/
def foldPunctuation (char : Nat) : Nat :=
  if isSingleQuote char then unit '\''
  else if isDoubleQuote char then unit '"'
  else if isDash char then unit '-'
  else if isSpecialSpace char then unit ' '
  else char

def trimEnd (text : Text) : Text := text.rdropWhile isSpace

section Views
variable (unicode : Unicode)

def normalizeForFuzzyMatch (text : Text) : Text :=
  (join [LF] ((split [LF] (unicode.nfkc text)).map trimEnd)).map foldPunctuation

def normalizeFuzzyCodePoint (value : Text) : Text := (unicode.nfkc value).map foldPunctuation

/-- The graphemes from this offset on, each unit of which stands for the whole grapheme. -/
def graphemeUnits : Nat → List Text → List MappedUnit
  | _, [] => []
  | start, grapheme :: rest =>
    let stop := start + grapheme.length
    (normalizeFuzzyCodePoint unicode grapheme).map (⟨·, start, stop⟩) ++ graphemeUnits stop rest

def mappedSegment (segment : Text) (segmentOffset : Nat) : List MappedUnit :=
  (graphemeUnits unicode segmentOffset (unicode.graphemes segment)).rdropWhile fun unit => isSpace unit.value

def lineUnits : Nat → List Text → List MappedUnit
  | _, [] => []
  | lineStart, [line] => mappedSegment unicode line lineStart
  | lineStart, line :: rest =>
    let newline := lineStart + line.length
    mappedSegment unicode line lineStart ++ ⟨LF, newline, newline + 1⟩ :: lineUnits (newline + 1) rest

def createFuzzyView (content : Text) : FuzzyView := .ofUnits (lineUnits unicode 0 (split [LF] content))

def lineEndingUnits : Nat → Text → List MappedUnit
  | _, [] => []
  | i, [first] => [⟨if first = CR then LF else first, i, i + 1⟩]
  | i, first :: second :: rest =>
    if first = CR then
      if second = LF then ⟨LF, i, i + 2⟩ :: lineEndingUnits (i + 2) rest
      else ⟨LF, i, i + 1⟩ :: lineEndingUnits (i + 1) (second :: rest)
    else ⟨first, i, i + 1⟩ :: lineEndingUnits (i + 1) (second :: rest)

def createLineEndingView (content : Text) : FuzzyView := .ofUnits (lineEndingUnits 0 content)

def FuzzyView.range (view : FuzzyView) (range : TextRange) : TextRange :=
  ⟨view.starts.getD range.start 0, view.ends.getD (range.stop - 1) 0⟩

def mapViewRanges (view : FuzzyView) (ranges : List TextRange) : List TextRange := ranges.map view.range

/-- The matches from `start` on, when so many are found already. -/
def findRangesFrom (content needle : Text) (filled : 0 < needle.length) (found start : Nat) : Except String (List TextRange) :=
  if _inside : start + needle.length ≤ content.length then
    match _hit : indexOf content needle start with
    | none => return []
    | some first =>
      if found + 1 > MAX_EDIT_REPLACEMENTS then
        throw s!"Edit: match count exceeds {MAX_EDIT_REPLACEMENTS}; use Write or Shell for a bulk rewrite."
      else return ⟨first, first + needle.length⟩ :: (← findRangesFrom content needle filled (found + 1) (first + needle.length))
  else return []
termination_by content.length - start
decreasing_by
  have := le_of_indexOf _hit
  omega

def findAllRanges (content needle : Text) : Except String (List TextRange) :=
  if filled : 0 < needle.length then findRangesFrom content needle filled 0 0 else return []

def startsInsideMappedUnit (view : FuzzyView) (range : TextRange) : Bool :=
  range.start > 0 && view.starts.getD range.start 0 = view.starts.getD (range.start - 1) 0

def endsInsideMappedUnit (view : FuzzyView) (range : TextRange) : Bool :=
  range.stop < view.text.length && view.ends.getD (range.stop - 1) 0 = view.ends.getD range.stop 0

def fuzzyRanges (view : FuzzyView) (oldText : Text) : Except String (List TextRange) := do
  let fuzzyOldText := normalizeForFuzzyMatch unicode oldText
  if fuzzyOldText.isEmpty then return []
  let ranges ← findAllRanges view.text fuzzyOldText
  return (ranges.filter fun range => !startsInsideMappedUnit view range && !endsInsideMappedUnit view range).map view.range

end Views

def operationLabel (editIndex editCount : Nat) : String :=
  if editCount = 1 then "old_string" else s!"edits[{editIndex}].old_string"

structure Plan where
  replacements : List PlannedReplacement
  occurrences : Nat
  fuzzyMatches : Nat

section Planning
variable (unicode : Unicode)

structure Target where
  path : String
  lineEnding : LineEnding
  hasBom : Bool
  editCount : Nat
  lineEndingView : FuzzyView
  fuzzyView : FuzzyView

/-- Exact matches, or else fuzzy ones; both are ranges of the line ending view. -/
def matchRanges (target : Target) (oldText : Text) : Except String (MatchMode × List TextRange) := do
  let viewRanges ← findAllRanges target.lineEndingView.text oldText
  if viewRanges.isEmpty then return (.fuzzy, ← fuzzyRanges unicode target.fuzzyView oldText)
  else return (.exact, viewRanges)

def oldTextOf (operation : EditOperation) : Text := normalizeToLf (stripBom operation.old_string).2

def newTextOf (target : Target) (operation : EditOperation) : Text :=
  restoreLineEndings (normalizeToLf operation.new_string) target.lineEnding

/-- The mark at the beginning of the file is not written twice. -/
def replacementText (target : Target) (operation : EditOperation) (start : Nat) : Text :=
  let newText := newTextOf target operation
  if target.hasBom ∧ start = 0 ∧ newText.head? = some BOM then newText.tail else newText

/-- An `old_string` with the mark is only matched at the beginning of a file which has one. -/
def allowedRanges (target : Target) (operation : EditOperation) (viewRanges : List TextRange) : List TextRange :=
  if operation.old_string.head? = some BOM then
    if target.hasBom then viewRanges.filter (·.start = 0) else []
  else viewRanges

def addReplacements (target : Target) (operation : EditOperation) (editIndex : Nat) (plan : Plan) (matchMode : MatchMode)
    (viewRanges : List TextRange) : Except String Plan :=
  let selected := mapViewRanges target.lineEndingView (if operation.replace_all then viewRanges else viewRanges.take 1)
  if plan.replacements.length + selected.length > MAX_EDIT_REPLACEMENTS then
    throw s!"Edit: total replacement count exceeds {MAX_EDIT_REPLACEMENTS}; split the operation or use Write/Shell."
  else return {
    replacements := plan.replacements ++ selected.map fun range =>
      ⟨editIndex, range.start, range.stop, replacementText target operation range.start, matchMode⟩
    occurrences := plan.occurrences + viewRanges.length
    fuzzyMatches := plan.fuzzyMatches + if matchMode = .fuzzy then selected.length else 0 }

def planOperation (target : Target) (operation : EditOperation) (editIndex : Nat) (plan : Plan) : Except String Plan :=
  let label := operationLabel editIndex target.editCount
  if (oldTextOf operation).isEmpty then throw s!"Edit: {label} is empty; use Write for new files."
  else if oldTextOf operation = newTextOf target operation then throw s!"Edit: {label} equals new_string; no-op."
  else do
    let (matchMode, found) ← matchRanges unicode target (oldTextOf operation)
    let viewRanges := allowedRanges target operation found
    let count := viewRanges.length
    if viewRanges.isEmpty then
      throw s!"Edit: {label} not found. It must match including whitespace and newlines; fuzzy quote/space normalization also found no match."
    else if !operation.replace_all && count > 1 then
      throw s!"Edit: {label} matched {count} times; supply more surrounding context or set replace_all=true."
    else addReplacements target operation editIndex plan matchMode viewRanges

def planOperations (target : Target) : List EditOperation → Nat → Plan → Except String Plan
  | [], _, plan => return plan
  | operation :: rest, editIndex, plan => do
    planOperations target rest (editIndex + 1) (← planOperation unicode target operation editIndex plan)

def byPosition : Comparator PlannedReplacement where
  compare a b :=
    if (a.start : Int) - b.start ≠ 0 then (a.start : Int) - b.start
    else if (a.stop : Int) - b.stop ≠ 0 then (a.stop : Int) - b.stop
    else (a.editIndex : Int) - b.editIndex
  swap a b := by split <;> split <;> (try split) <;> (try split) <;> omega
  trans a b c := by split <;> split <;> (try split) <;> (try split) <;> (try split) <;> (try split) <;> omega

def checkOverlaps (path : String) : List PlannedReplacement → Except String Unit
  | previous :: current :: rest =>
    if previous.stop > current.start then
      let first := previous.editIndex
      let second := current.editIndex
      throw s!"Edit: edits[{first}] and edits[{second}] overlap in {path}; merge them into one edit or target disjoint regions."
    else checkOverlaps path (current :: rest)
  | _ => return ()

def targetOf (content : Text) (operations : List EditOperation) (path : String) (lineEnding : LineEnding)
    (hasBom : Bool) : Target :=
  let lineEndingView := createLineEndingView content
  ⟨path, lineEnding, hasBom, operations.length, lineEndingView, createFuzzyView unicode lineEndingView.text⟩

def planReplacements (content : Text) (operations : List EditOperation) (path : String) (lineEnding : LineEnding)
    (hasBom : Bool) : Except String Plan := do
  let target := targetOf unicode content operations path lineEnding hasBom
  let plan ← planOperations unicode target operations 0 ⟨[], 0, 0⟩
  let planned := byPosition.sort plan.replacements
  checkOverlaps path planned
  return { plan with replacements := planned }

def applyFrom (content : Text) : Nat → List PlannedReplacement → Text
  | cursor, [] => content.drop cursor
  | cursor, replacement :: rest =>
    slice content cursor replacement.start ++ replacement.newText ++ applyFrom content replacement.stop rest

def applyPlannedReplacements (content : Text) (replacements : List PlannedReplacement) : Text :=
  applyFrom content 0 replacements

/-- The texts for display, which are computed from the result, are left out. -/
def applyWorkspaceEdits (content : Text) (operations : List EditOperation) (path : String) :
    Except String AppliedWorkspaceEdits :=
  if operations.isEmpty then throw "Edit: at least one edit is required."
  else do
    let (bom, text) := stripBom content
    let lineEnding := detectLineEnding text
    let plan ← planReplacements unicode text operations path lineEnding (bom.length > 0)
    let updatedText := applyPlannedReplacements text plan.replacements
    if updatedText = text then throw s!"Edit: no changes made to {path}; the replacement produced identical content."
    else
      let updatedContent := bom ++ updatedText
      let updatedBytes := byteLength updatedContent
      if updatedBytes > MAX_EDIT_RESULT_BYTES then
        throw s!"Edit: result too large ({updatedBytes}B > {MAX_EDIT_RESULT_BYTES}B); use Write for intentional full-file rewrites."
      else return ⟨updatedContent, plan.replacements.length, plan.occurrences, operations.length, plan.fuzzyMatches,
        bom.length > 0, lineEnding⟩

end Planning

end AgentSaas.EditOperations
