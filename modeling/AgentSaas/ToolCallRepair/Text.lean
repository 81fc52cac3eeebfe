import AgentSaas.Prefixes

/-! Assistant text in which a tool call may be written, and the markers a call starts with. A
text is its UTF-16 code units. A cursor into one is the rest of the text from there on. -/

namespace AgentSaas.ToolCallRepair
open Prefixes

abbrev Text := List Nat

def unit (char : Char) : Nat := char.toNat
def units (chars : String) : Text := chars.toList.map Char.toNat

def DEFAULT_TOOL_CALL_REPAIR_MAX_PAYLOAD_BYTES := 256000
def TOOL_CALL_REPAIR_MAX_NAME_CHARS := 120
def MAX_STREAM_WRAPPER_BYTES := 8192
def HARMONY_CHANNELS : List Text := [units "analysis", units "commentary", units "final"]

inductive ToolCallRepairMode | off | detect | repair
  deriving DecidableEq, Repr

inductive ToolCallRepairSyntax | namedBracket | toolBracket | harmony | xmlish | mixed | unknown
  deriving DecidableEq, Repr

inductive ToolCallRepairOutcome
  | rejectedUnknownTool
  | rejectedMalformed
  | rejectedMixedText
  | rejectedProtectedRange
  | rejectedOverCap
  | incomplete
  deriving DecidableEq, Repr

/-- What the code takes from its runtime. `lower` is the case table for the units that
`toLowerCase` does not spell out, in their context. -/
structure Runtime (Arguments : Type) where
  parseObject : Text → Option Arguments
  ofParameters : List (Text × Text) → Arguments
  stringify : Arguments → Text
  sha256 : Text → Text
  lower : Text → Nat → Text → Nat
  lower_outside : ∀ before unit after, 128 ≤ unit → 128 ≤ lower before unit after

def lowerAscii (unit : Nat) : Nat :=
  if 0x41 ≤ unit ∧ unit ≤ 0x5A then unit + 0x20 else unit

section Text
variable {Arguments : Type} (runtime : Runtime Arguments)

/-- Two letters outside ASCII have ASCII in their lower case, and one of them grows. -/
def lowerUnit (before : Text) (unit : Nat) (after : Text) : Text :=
  if unit < 128 then [lowerAscii unit]
  else if unit = 0x130 then [0x69, 0x307]
  else if unit = 0x212A then [0x6B]
  else [runtime.lower before unit after]

def toLowerCaseFrom (before : Text) : Text → Text
  | [] => []
  | unit :: after => lowerUnit runtime before unit after ++ toLowerCaseFrom (before ++ [unit]) after

def toLowerCase (text : Text) : Text := toLowerCaseFrom runtime [] text

/-- `Buffer.byteLength(text, 'utf8')`: an unpaired surrogate is written as U+FFFD. -/
def byteLength : Text → Nat
  | [] => 0
  | first :: rest =>
    if first < 0x80 then 1 + byteLength rest
    else if first < 0x800 then 2 + byteLength rest
    else
      match rest with
      | second :: later =>
        if (0xD800 ≤ first ∧ first ≤ 0xDBFF) ∧ (0xDC00 ≤ second ∧ second ≤ 0xDFFF) then 4 + byteLength later
        else 3 + byteLength (second :: later)
      | [] => 3

theorem byteLength_append_le (first last : Text) : byteLength first ≤ byteLength (first ++ last) := by
  fun_induction byteLength first with
  | case1 => exact Nat.zero_le _
  | case2 first rest ascii ih =>
    rw [List.cons_append, byteLength.eq_def (first :: (rest ++ last))]
    simp only [if_pos ascii]
    omega
  | case3 first rest large ascii ih =>
    rw [List.cons_append, byteLength.eq_def (first :: (rest ++ last))]
    simp only [if_neg large, if_pos ascii]
    omega
  | case4 first large larger second later pair ih =>
    rw [List.cons_append, List.cons_append, byteLength.eq_def (first :: second :: (later ++ last))]
    simp only [if_neg large, if_neg larger, if_pos pair]
    omega
  | case5 first large larger second later apart ih =>
    rw [List.cons_append, List.cons_append, byteLength.eq_def (first :: second :: (later ++ last))]
    simp only [if_neg large, if_neg larger, if_neg apart]
    rw [List.cons_append] at ih
    omega
  | case6 first large larger =>
    rw [List.cons_append, byteLength.eq_def (first :: ([] ++ last))]
    simp only [if_neg large, if_neg larger]
    split
    · split <;> omega
    · exact Nat.le_refl _

/-- The second half of a pair takes no more on its own than the pair. -/
theorem byteLength_cons_le (first : Nat) (text : Text) : byteLength text ≤ byteLength (first :: text) := by
  rw [byteLength.eq_def (first :: text)]
  dsimp only
  split
  · omega
  split
  · omega
  cases text with
  | nil => exact Nat.zero_le _
  | cons second later =>
    dsimp only
    split
    next pair =>
      rw [byteLength.eq_def (second :: later)]
      dsimp only
      rw [if_neg (by omega), if_neg (by omega)]
      cases later with
      | nil => exact Nat.le_add_right 3 1
      | cons third later =>
        dsimp only
        rw [if_neg (by omega)]
        omega
    next => exact Nat.le_add_left ..

theorem byteLength_infix_le {part text : Text} (inside : part <:+: text) : byteLength part ≤ byteLength text := by
  obtain ⟨before, after, rfl⟩ := inside
  rw [List.append_assoc]
  refine Nat.le_trans (byteLength_append_le part after) ?_
  induction before with
  | nil => exact Nat.le_refl _
  | cons first before ih => exact Nat.le_trans ih (byteLength_cons_le first _)

def isSpace (unit : Nat) : Bool :=
  (0x09 ≤ unit && unit ≤ 0x0D) || (0x2000 ≤ unit && unit ≤ 0x200A) ||
    [0x20, 0xA0, 0x1680, 0x2028, 0x2029, 0x202F, 0x205F, 0x3000, 0xFEFF].contains unit

def isHorizontal (char : Nat) : Bool := char = unit ' ' || char = unit '\t'

def isAlphanumeric (char : Nat) : Bool :=
  (unit 'A' ≤ char && char ≤ unit 'Z') || (unit 'a' ≤ char && char ≤ unit 'z') || (unit '0' ≤ char && char ≤ unit '9')

def isPlainNameUnit (char : Nat) : Bool := isAlphanumeric char || char = unit '_' || char = unit '-'

def isXmlNameUnit (char : Nat) : Bool := isPlainNameUnit char || char = unit '.' || char = unit ':'

def validPlainName (name : Text) : Bool :=
  !name.isEmpty && name.length ≤ TOOL_CALL_REPAIR_MAX_NAME_CHARS && name.all isPlainNameUnit

def validXmlName (name : Text) : Bool :=
  !name.isEmpty && name.length ≤ TOOL_CALL_REPAIR_MAX_NAME_CHARS && name.all isXmlNameUnit

def skipWhitespace (rest : Text) : Text := rest.dropWhile isSpace

def skipHorizontalWhitespace (rest : Text) : Text := rest.dropWhile isHorizontal

def consumeLineBreak : Text → Option Text
  | [] => none
  | first :: rest =>
    if first = unit '\r' then if rest.head? = some (unit '\n') then some rest.tail else some rest
    else if first = unit '\n' then some rest
    else none

def indexFrom (pattern : Text) : Nat → Text → Option Nat
  | offset, [] => if pattern.isEmpty then some offset else none
  | offset, unit :: rest => if pattern.isPrefixOf (unit :: rest) then some offset else indexFrom pattern (offset + 1) rest

def indexOf (text pattern : Text) (start : Nat) : Option Nat := indexFrom pattern start (text.drop start)

def slice (text : Text) (start stop : Nat) : Text := (text.take stop).drop start

/-- The index is one into the lower case of the text. -/
def indexOfAsciiCaseInsensitive (text marker : Text) (start : Nat) : Option Nat :=
  indexOf (toLowerCase runtime text) (toLowerCase runtime marker) start

theorem le_of_indexOf {text pattern : Text} {start found : Nat} (h : indexOf text pattern start = some found) : start ≤ found := by
  unfold indexOf at h
  generalize text.drop start = rest at h
  fun_induction indexFrom pattern start rest <;> grind

end Text

structure TextRange where
  start : Nat
  stop : Nat
  deriving DecidableEq, Repr

def findMarkdownCodeRangesFrom (text : Text) (cursor : Nat) : List TextRange :=
  if _inside : cursor < text.length then
    match _opened : indexOf text [unit '`'] cursor with
    | none => []
    | some start =>
      let width := 1 + ((text.drop (start + 1)).takeWhile (· = unit '`')).length
      match _closed : indexOf text (List.replicate width (unit '`')) (start + width) with
      | none => [⟨start, text.length⟩]
      | some stop => ⟨start, stop + width⟩ :: findMarkdownCodeRangesFrom text (stop + width)
  else []
termination_by text.length - cursor
decreasing_by
  have := le_of_indexOf _opened
  have := le_of_indexOf _closed
  omega

def findMarkdownCodeRanges (text : Text) : List TextRange := findMarkdownCodeRangesFrom text 0

def isProtected (offset : Nat) (ranges : List TextRange) : Bool :=
  ranges.any fun range => range.start ≤ offset && offset < range.stop

/-- The offsets of the matches, none of which overlap: a match says how long it is, from the
unit before it and the rest of the text. -/
def matchAll (matchAt : Option Nat → Text → Option Nat) : (skipped offset : Nat) → Option Nat → Text → List Nat
  | _, _, _, [] => []
  | skipped + 1, offset, _, unit :: rest => matchAll matchAt skipped (offset + 1) (some unit) rest
  | 0, offset, previous, unit :: rest =>
    match matchAt previous (unit :: rest) with
    | some length => offset :: matchAll matchAt (length - 1) (offset + 1) (some unit) rest
    | none => matchAll matchAt 0 (offset + 1) (some unit) rest

/-- `/\[(?:tool:)?[A-Za-z0-9_-]+\]|<function=|<\|channel\|>/` -/
def matchMarker (_ : Option Nat) (rest : Text) : Option Nat :=
  if (units "[").isPrefixOf rest then
    let opened := if (units "[tool:").isPrefixOf rest then (units "[tool:").length else 1
    let name := (rest.drop opened).takeWhile isPlainNameUnit
    if !name.isEmpty && (rest.drop (opened + name.length)).head? = some (unit ']') then some (opened + name.length + 1)
    else none
  else if (units "<function=").isPrefixOf rest then some (units "<function=").length
  else if (units "<|channel|>").isPrefixOf rest then some (units "<|channel|>").length
  else none

/-- `/\b(?:analysis|commentary|final)[ \t]+to=/` -/
def matchChannel (previous : Option Nat) (rest : Text) : Option Nat :=
  if previous.any fun char => isAlphanumeric char || char = unit '_' then none
  else
    match HARMONY_CHANNELS.find? (·.isPrefixOf rest) with
    | none => none
    | some channel =>
      let blank := (rest.drop channel.length).takeWhile isHorizontal
      let later := rest.drop (channel.length + blank.length)
      if !blank.isEmpty && (units "to=").isPrefixOf later then some (channel.length + blank.length + (units "to=").length)
      else none

def findMarkerOffsets (text : Text) : List Nat :=
  let offsets := matchAll matchMarker 0 0 none text ++ matchAll matchChannel 0 0 none text
  offsets.eraseDups.mergeSort (· ≤ ·)

def afterChannelMarker (rest : Text) : Text :=
  if (units "<|channel|>").isPrefixOf rest then rest.drop (units "<|channel|>").length else rest

def isHarmonyStart (rest : Text) : Bool := HARMONY_CHANNELS.any (·.isPrefixOf (afterChannelMarker rest))

def isPotentialCallStart (rest : Text) : Bool :=
  rest.head? = some (unit '[') || (units "<function=").isPrefixOf rest || isHarmonyStart rest

def syntaxAt (rest : Text) : ToolCallRepairSyntax :=
  if (units "[tool:").isPrefixOf rest then .toolBracket
  else if (units "[").isPrefixOf rest then .namedBracket
  else if (units "<function=").isPrefixOf rest then .xmlish
  else if isHarmonyStart rest then .harmony
  else .unknown

end AgentSaas.ToolCallRepair
