import AgentSaas.ReplayEventBounds
import Mathlib.Algebra.Ring.Nat
import Mathlib.Data.List.Induction

/-! What the model sees of a tool result is the text itself, or a head and a tail of it around
a marker whose numbers are those of the part between them. -/

namespace AgentSaas.Proofs.ToolResultProjection
open AgentSaas.CodePoints AgentSaas.JsonStrings AgentSaas.ReplayEventBounds AgentSaas.Rings AgentSaas.Scans
open AgentSaas.ToolCallRepair

structure Scanned (points : List Text) (scan : Scan) : Prop where
  front : scan.front = points.take TOOL_RESULT_PROJECTION_PREFIX_CHARS
  ring : scan.suffixRing.Holds TOOL_RESULT_PROJECTION_SUFFIX_CHARS points
  totalChars : scan.totalChars = points.length
  totalLines : scan.totalLines = 1 + countNewlines points

theorem Scanned.next {points : List Text} {scan : Scan} (scanned : Scanned points scan) (char : Text) :
    Scanned (points ++ [char]) (scan.next char) := by
  refine ⟨?_, scanned.ring.push char, by simp [Scan.next, scanned.totalChars], ?_⟩
  · simp only [Scan.next, scanned.front, List.length_take]
    split
    next room =>
      rw [List.take_of_length_le (by omega), List.take_of_length_le (by simp; omega)]
    next full => rw [List.take_append_of_le_length (by omega)]
  · simp only [Scan.next, scanned.totalLines, countNewlines, List.count_append, List.count_singleton]
    by_cases newline : char = NEWLINE
    · simp [newline]
      omega
    · simp [newline]

theorem scan_scanned (points : List Text) : Scanned points (points.foldl Scan.next ⟨[], .empty, 0, 1⟩) := by
  induction points using List.reverseRecOn with
  | nil => exact ⟨rfl, RingBuffer.holds_empty (by decide), rfl, rfl⟩
  | append_singleton points char ih =>
    rw [List.foldl_append]
    exact ih.next char

theorem source_eq (content : Text) : buildToolResultProjectionSource content =
    ⟨((codePoints content).take TOOL_RESULT_PROJECTION_PREFIX_CHARS).flatten,
      ((codePoints content).drop ((codePoints content).length - TOOL_RESULT_PROJECTION_SUFFIX_CHARS)).flatten,
      (codePoints content).length, 1 + countNewlines (codePoints content)⟩ := by
  have scanned := scan_scanned (codePoints content)
  simp only [buildToolResultProjectionSource, scanned.front, scanned.totalChars, scanned.totalLines,
    RingBuffer.items_eq scanned.ring]

theorem codePoints_take (content : Text) (count : Nat) :
    codePoints ((codePoints content).take count).flatten = (codePoints content).take count :=
  (codePoints_split (List.take_append_drop count (codePoints content)).symm).1

theorem codePoints_drop (content : Text) (count : Nat) :
    codePoints ((codePoints content).drop count).flatten = (codePoints content).drop count :=
  (codePoints_split (List.take_append_drop count (codePoints content)).symm).2

theorem decimal_digits (value : Nat) : ∀ unit ∈ decimal value, 48 ≤ unit ∧ unit ≤ 57 := by
  intro unit member
  obtain ⟨char, listed, rfl⟩ := List.mem_map.mp member
  rw [show toString value = value.repr from rfl, Nat.toList_repr] at listed
  have digit := Nat.isDigit_of_mem_toDigits (by omega) (by omega) listed
  rw [Char.isDigit_iff_toNat] at digit
  exact digit

theorem codePointLength_decimal (value : Nat) : codePointLength (decimal value) = (toString value).length := by
  have plain : ∀ unit ∈ decimal value, isHigh unit = false := by
    intro unit member
    have := decimal_digits value unit member
    simp [isHigh]
    omega
  rw [codePointLength, codePoints_plain plain, List.length_map, decimal, units, List.length_map, String.length_toList]

/-- A part of a marker: it is not empty and does not begin with the second half of a pair. -/
def Opens (part : Text) : Prop := ∃ first rest, part = first :: rest ∧ isLow first = false

theorem opens_decimal (value : Nat) : Opens (decimal value) := by
  cases digits : decimal value with
  | nil =>
    have length := congrArg List.length digits
    simp only [decimal, units, List.length_map, String.length_toList, List.length_nil] at length
    have positive : 0 < (toString value).length := Nat.length_repr_pos
    omega
  | cons first rest =>
    have := decimal_digits value first (by rw [digits]; exact List.mem_cons_self ..)
    exact ⟨first, rest, rfl, by simp [isLow]; omega⟩

theorem opens_quote (text : Text) : Opens (quote text) := ⟨unit '"', _, rfl, by decide⟩

theorem codePointLength_append {front back : Text} (opens : Opens back) :
    codePointLength (front ++ back) = codePointLength front + codePointLength back := by
  obtain ⟨first, rest, rfl, whole⟩ := opens
  have clean : Clean front (first :: rest) := by
    intro high last low next surrogate
    cases next
    exact whole
  rw [codePointLength, codePoints_append clean, List.length_append]
  rfl

theorem codePointLength_flatten (parts : List Text) (opens : ∀ part ∈ parts, Opens part) :
    codePointLength parts.flatten = (parts.map codePointLength).sum := by
  induction parts with
  | nil => rfl
  | cons part rest ih =>
    have later := ih fun other member => opens other (List.mem_cons_of_mem _ member)
    cases rest with
    | nil => simp
    | cons next others =>
      obtain ⟨first, remaining, same, whole⟩ := opens next (by simp)
      have begins : Opens (next :: others).flatten := ⟨first, remaining ++ others.flatten, by simp [same], whole⟩
      rw [List.flatten_cons, codePointLength_append begins, later]
      rfl

def size (value : Nat) : Nat := (toString value).length

theorem size_le_iff {value count : Nat} (positive : 0 < count) : size value ≤ count ↔ value < 10 ^ count :=
  Nat.length_repr_le_iff positive

theorem size_mono {small large : Nat} (le : small ≤ large) : size small ≤ size large := by
  have positive : 0 < size large := Nat.length_repr_pos
  exact (size_le_iff positive).mpr (Nat.lt_of_le_of_lt le ((size_le_iff positive).mp (Nat.le_refl _)))

theorem size_le_succ {small large : Nat} (le : large ≤ 10 * small) : size large ≤ size small + 1 := by
  have filled : 0 < size small := Nat.length_repr_pos
  have bound : small < 10 ^ size small := (size_le_iff filled).mp (Nat.le_refl _)
  apply (size_le_iff (Nat.succ_pos _)).mpr
  rw [Nat.pow_succ]
  omega

theorem opens_of_head {part : Text} (whole : part.head?.any (fun unit => !isLow unit) = true) : Opens part := by
  cases part with
  | nil => cases whole
  | cons first rest => exact ⟨first, rest, rfl, by simpa using whole⟩

def Literal (part : Text) (length : Nat) : Prop := Opens part ∧ codePointLength part = length

theorem literal_of_checks {part : Text} {length : Nat}
    (checked : (part.head?.any (fun unit => !isLow unit) && codePointLength part == length) = true) : Literal part length := by
  rw [Bool.and_eq_true, beq_iff_eq] at checked
  exact ⟨opens_of_head checked.1, checked.2⟩

theorem charMarker_length (input : CharMarker) : codePointLength (charMarker input) =
    181 + 2 * codePointLength (quote input.toolCallId) + size input.totalLines + 2 * size input.totalChars +
      size input.headEndChar + size input.tailStartChar + 2 * size input.omittedStartChar + size input.omittedEndChar +
      size (min TRACE_CHAR_COUNT (input.omittedEndChar + 1 - input.omittedStartChar)) := by
  have total : Literal (units "\n[tool_result 已截断：共 ") 20 := literal_of_checks (by decide +kernel)
  have lines : Literal (units " 行/") 3 := literal_of_checks (by decide +kernel)
  have kept : Literal (units " 字符；保留字符 1-") 11 := literal_of_checks (by decide +kernel)
  have comma : Literal (units "、") 1 := literal_of_checks (by decide +kernel)
  have dash : Literal (units "-") 1 := literal_of_checks (by decide +kernel)
  have omitted : Literal (units "；省略 ") 4 := literal_of_checks (by decide +kernel)
  have read : Literal (units "。\n按字符读取：SessionContext(action=\"trace\", toolCallId=") 50 := literal_of_checks (by decide +kernel)
  have start : Literal (units ", startChar=") 12 := literal_of_checks (by decide +kernel)
  have count : Literal (units ", charCount=") 12 := literal_of_checks (by decide +kernel)
  have search : Literal (units ")\n关键字定位：SessionContext(action=\"trace\", toolCallId=") 50 := literal_of_checks (by decide +kernel)
  have query : Literal (units ", query=\"关键字\")]\n") 16 := literal_of_checks (by decide +kernel)
  rw [charMarker, codePointLength_flatten]
  · simp only [List.map_cons, List.map_nil, List.sum_cons, List.sum_nil, codePointLength_decimal, total.2, lines.2, kept.2,
      comma.2, dash.2, omitted.2, read.2, start.2, count.2, search.2, query.2, size]
    omega
  · simp only [List.forall_mem_cons, opens_decimal, opens_quote, total.1, lines.1, kept.1, comma.1, dash.1, omitted.1,
      read.1, start.1, count.1, search.1, query.1, true_and]
    exact fun _ member => by cases member

theorem quoteUnit_length_le (char : Nat) : (quoteUnit char).length ≤ 6 := by
  have short : ∀ part ∈ [units "\\b", units "\\t", units "\\n", units "\\f", units "\\r", units "\\\"", units "\\\\"],
      part.length ≤ 6 := by decide
  simp only [List.forall_mem_cons] at short
  obtain ⟨b, t, n, f, r, quoted, slash, -⟩ := short
  unfold quoteUnit
  split_ifs
  · exact b
  · exact t
  · exact n
  · exact f
  · exact r
  · exact quoted
  · exact slash
  · exact Nat.le_refl 6
  · exact Nat.le_of_ble_eq_true rfl

theorem quote_length_le (text : Text) : codePointLength (quote text) ≤ 6 * text.length + 2 := by
  have inner : ((codePoints text).flatMap quotePoint).length ≤ 6 * text.length := by
    induction text using codePoints_induction with
    | nil => exact Nat.le_refl _
    | pair first second rest high low ih =>
      rw [codePoints_pair high low, List.flatMap_cons, List.length_append]
      simp only [quotePoint, List.length_cons, List.length_nil]
      omega
    | single first rest apart ih =>
      have short := quoteUnit_length_le first
      rw [codePoints_single apart, List.flatMap_cons, List.length_append]
      simp only [quotePoint, List.length_cons]
      omega
  refine (length_codePoints_le _).trans ?_
  simp only [quote, List.length_cons, List.length_append, List.length_nil]
  omega

/-! A marker between two parts of the text. -/

/-- The marker begins and ends with a newline. -/
structure Framed (marker : Text) : Prop where
  first : marker.head? = some (unit '\n')
  last : marker.getLast? = some (unit '\n')

theorem framed_flatten {parts : List Text} {first last : Text} (begins : parts.head? = some first)
    (ends : parts.getLast? = some last) (opened : first.head? = some (unit '\n'))
    (closed : last.getLast? = some (unit '\n')) : Framed parts.flatten := by
  constructor
  · obtain ⟨rest, rfl⟩ := List.head?_eq_some_iff.mp begins
    rw [List.flatten_cons, List.head?_append, opened, Option.some_or]
  · obtain ⟨rest, rfl⟩ := List.getLast?_eq_some_iff.mp ends
    rw [List.flatten_append, List.getLast?_append]
    simp [closed]

theorem framed_charMarker (input : CharMarker) : Framed (charMarker input) :=
  @framed_flatten _ (units "\n[tool_result 已截断：共 ") (units ", query=\"关键字\")]\n") rfl rfl (by decide +kernel) (by decide +kernel)

theorem framed_lineMarker (input : LineMarker) : Framed (lineMarker input) :=
  @framed_flatten _ (units "\n[tool_result 已截断：共 ") (units ", query=\"关键字\")]\n") rfl rfl (by decide +kernel) (by decide +kernel)

theorem codePoints_around {head tail : List Text} {marker : Text} (framed : Framed marker)
    (front : codePoints head.flatten = head) (back : codePoints tail.flatten = tail) :
    codePoints (head.flatten ++ marker ++ tail.flatten) = head ++ codePoints marker ++ tail := by
  have before : Clean head.flatten marker := by
    intro high last low next surrogate
    rw [framed.first] at next
    cases next
    rfl
  have after : Clean (head.flatten ++ marker) tail.flatten := by
    intro high last low next surrogate
    rw [List.getLast?_append, framed.last, Option.some_or] at last
    cases last
    cases surrogate
  rw [codePoints_append after, codePoints_append before, front, back]

/-- The head, what is left out, and the tail. -/
structure Parts (points head omitted tail : List Text) : Prop where
  whole : points = head ++ omitted ++ tail
  omits : omitted ≠ []

/-- The marker of parts that end at line ends, with the numbers of their lines. -/
def linesLeftOut (points head omitted : List Text) (toolCallId : Text) : LineMarker where
  toolCallId := toolCallId
  totalChars := points.length
  totalLines := 1 + countNewlines points
  headEndLine := countNewlines head
  tailStartLine := 1 + countNewlines (head ++ omitted)
  omittedStartLine := countNewlines head + 1
  omittedEndLine := countNewlines (head ++ omitted)

def charsLeftOut (points head omitted : List Text) (toolCallId : Text) : CharMarker where
  toolCallId := toolCallId
  totalChars := points.length
  totalLines := 1 + countNewlines points
  headEndChar := head.length
  tailStartChar := (head ++ omitted).length + 1
  omittedStartChar := head.length + 1
  omittedEndChar := (head ++ omitted).length

/-- The marker tells the lines, and the parts are made of whole lines, or it tells the characters. -/
def Describes (points head omitted : List Text) (toolCallId marker : Text) : Prop :=
  (head.getLast? = some NEWLINE ∧ omitted.getLast? = some NEWLINE ∧
    marker = lineMarker (linesLeftOut points head omitted toolCallId)) ∨
  marker = charMarker (charsLeftOut points head omitted toolCallId)

/-- A result in which a part of the text is left out. -/
def LeavesOut (points : List Text) (toolCallId result : Text) : Prop :=
  ∃ head omitted tail marker, Parts points head omitted tail ∧ Describes points head omitted toolCallId marker ∧
    result = head.flatten ++ marker ++ tail.flatten ∧ codePointLength result ≤ MODEL_TOOL_RESULT_MAX_CHARS

theorem Parts.codePoints_result {content marker : Text} {head omitted tail : List Text}
    (parts : Parts (codePoints content) head omitted tail) (framed : Framed marker) :
    codePointLength (head.flatten ++ marker ++ tail.flatten) = head.length + codePointLength marker + tail.length := by
  have front := codePoints_split (parts.whole.trans (List.append_assoc ..))
  have back := codePoints_split parts.whole
  rw [codePointLength, codePoints_around framed front.1 back.2, List.length_append, List.length_append]
  rfl

section Lines

variable {content toolCallId : Text}

theorem parts_of_places (points : List Text) {low high : Nat} (before : low < high) (inside : high ≤ points.length) :
    Parts points (points.take low) ((points.take high).drop low) (points.drop high) := by
  refine ⟨?_, ?_⟩
  · have taken : points.take low = (points.take high).take low := by rw [List.take_take, Nat.min_eq_left (by omega)]
    rw [taken, List.take_append_drop, List.take_append_drop]
  · intro empty
    have := congrArg List.length empty
    simp only [List.length_drop, List.length_take, List.length_nil] at this
    omega

theorem countNewlines_append (front back : List Text) : countNewlines (front ++ back) = countNewlines front + countNewlines back :=
  List.count_append

theorem nextBreak_spec {chars : List Text} {start found : Nat} (hit : nextBreak chars start = some found) :
    chars[found]? = some NEWLINE := by
  obtain ⟨index, inside, rfl⟩ := Option.map_eq_some_iff.mp hit
  obtain ⟨bound, newline, -⟩ := List.findIdx?_eq_some_iff_getElem.mp inside
  rw [List.getElem_drop, decide_eq_true_eq] at newline
  rw [List.length_drop] at bound
  rw [List.getElem?_eq_getElem (by omega), newline]

theorem last_of_take {points : List Text} {low high : Nat} (before : low < high) (inside : high ≤ points.length) :
    ((points.take high).drop low).getLast? = points[high - 1]? := by
  rw [List.getLast?_eq_getElem?, List.getElem?_drop, List.length_drop, List.length_take, List.getElem?_take]
  rw [if_pos (by omega)]
  congr 1
  omega

theorem fitTail_leavesOut {source : ToolResultProjectionSource} {head suffix : List Text} {low start offset : Nat}
    {result : Text} (built : source = buildToolResultProjectionSource content)
    (front : head = (codePoints content).take low) (back : suffix = (codePoints content).drop start)
    (closed : head.getLast? = some NEWLINE) (apart : low < start + offset)
    (broken : (codePoints content)[start + offset - 1]? = some NEWLINE)
    (fits : fitTail source toolCallId head suffix (countNewlines head) offset = some result) :
    LeavesOut (codePoints content) toolCallId result := by
  fun_induction fitTail source toolCallId head suffix (countNewlines head) offset with
  | case1 => cases fits
  | case2 => cases fits
  | case3 offset inside tail enough tailStartLine omittedStartLine omittedEndLine ordered marker short =>
    cases fits
    rw [back, List.length_drop] at inside
    have parts := parts_of_places (codePoints content) apart (by omega)
    rw [← front] at parts
    have rest : tail = (codePoints content).drop (start + offset) := by
      simp only [tail, back, List.drop_drop]
    have lines := congrArg countNewlines parts.whole
    rw [countNewlines_append, ← rest] at lines
    have told : marker = lineMarker (linesLeftOut (codePoints content) head (((codePoints content).take (start + offset)).drop low)
        toolCallId) := by
      have numbers : 1 + countNewlines (codePoints content) - countNewlines tail =
          1 + countNewlines (head ++ ((codePoints content).take (start + offset)).drop low) := by omega
      simp only [marker, linesLeftOut, omittedStartLine, omittedEndLine, tailStartLine, built, source_eq, numbers,
        Nat.add_sub_cancel_left]
    refine ⟨head, _, tail, marker, rest ▸ parts, .inl ⟨closed, ?_, told⟩, rfl, ?_⟩
    · rw [last_of_take apart (by omega), broken]
    · rw [Parts.codePoints_result (rest ▸ parts) (told ▸ framed_lineMarker _)]
      exact short
  | case4 => cases fits
  | case5 => cases fits
  | case6 offset inside tail enough tailStartLine omittedStartLine omittedEndLine ordered marker wide next found before ih =>
    have after := le_nextBreak found
    have newline := nextBreak_spec found
    rw [back, List.getElem?_drop] at newline
    exact ih (by omega) newline fits
  | case7 => cases fits

def Long (content : Text) : Prop := MODEL_TOOL_RESULT_MAX_CHARS < (codePoints content).length

theorem source_front (content : Text) : codePoints (buildToolResultProjectionSource content).prefixText =
    (codePoints content).take TOOL_RESULT_PROJECTION_PREFIX_CHARS := by
  rw [source_eq, codePoints_take]

theorem source_back (content : Text) : codePoints (buildToolResultProjectionSource content).suffixText =
    (codePoints content).drop ((codePoints content).length - TOOL_RESULT_PROJECTION_SUFFIX_CHARS) := by
  rw [source_eq, codePoints_drop]

theorem projectLineAware_some {source : ToolResultProjectionSource} {result : Text}
    (projected : projectLineAware source toolCallId = some result) : ∃ headBreak tailBreak,
      lastIndex (· = NEWLINE) ((codePoints source.prefixText).take MODEL_TOOL_RESULT_HEAD_CHARS) = some headBreak ∧
      nextBreak (codePoints source.suffixText)
        ((codePoints source.suffixText).length - MODEL_TOOL_RESULT_TAIL_TARGET_CHARS) = some tailBreak ∧
      fitTail source toolCallId (((codePoints source.prefixText).take MODEL_TOOL_RESULT_HEAD_CHARS).take (headBreak + 1))
        (codePoints source.suffixText)
        (countNewlines (((codePoints source.prefixText).take MODEL_TOOL_RESULT_HEAD_CHARS).take (headBreak + 1)))
        (tailBreak + 1) = some result := by
  obtain ⟨headBreak, last, later⟩ := Option.bind_eq_some_iff.mp projected
  obtain ⟨tailBreak, found, fits⟩ := Option.bind_eq_some_iff.mp later
  by_cases late : tailBreak ≥ (codePoints source.suffixText).length - 1
  · rw [if_pos late] at fits
    cases fits
  · rw [if_neg late] at fits
    exact ⟨headBreak, tailBreak, last, found, fits⟩

theorem projectLineAware_leavesOut {result : Text} (long : Long content)
    (projected : projectLineAware (buildToolResultProjectionSource content) toolCallId = some result) :
    LeavesOut (codePoints content) toolCallId result := by
  obtain ⟨headBreak, tailBreak, last, found, fits⟩ := projectLineAware_some projected
  obtain ⟨⟨newline, present, isNewline⟩, -⟩ := lastIndex_spec last
  have after := le_nextBreak found
  have opened := nextBreak_spec found
  rw [of_decide_eq_true isNewline, source_front, List.take_take] at present
  rw [source_front, List.take_take, source_back] at fits
  rw [source_back] at after opened
  rw [List.getElem?_drop] at opened
  rw [List.length_drop] at after
  have inside := (List.getElem?_eq_some_iff.mp present).1
  rw [List.length_take] at inside
  rw [List.getElem?_take, if_pos (by omega)] at present
  have limits : MODEL_TOOL_RESULT_HEAD_CHARS = 2000 ∧ TOOL_RESULT_PROJECTION_PREFIX_CHARS = 8000 ∧
      TOOL_RESULT_PROJECTION_SUFFIX_CHARS = 6000 ∧ MODEL_TOOL_RESULT_TAIL_TARGET_CHARS = 5600 ∧
      MODEL_TOOL_RESULT_MAX_CHARS = 8000 := ⟨rfl, rfl, rfl, rfl, rfl⟩
  obtain ⟨headLimit, prefixLimit, suffixLimit, target, limit⟩ := limits
  rw [Long, limit] at long
  have whole : min (min (headBreak + 1) MODEL_TOOL_RESULT_HEAD_CHARS) TOOL_RESULT_PROJECTION_PREFIX_CHARS = headBreak + 1 := by
    omega
  rw [List.take_take, whole] at fits
  have head := @last_of_take (codePoints content) 0 (headBreak + 1) (by omega) (by omega)
  rw [List.drop_zero, Nat.add_sub_cancel, present] at head
  exact fitTail_leavesOut rfl rfl rfl head (by omega) (by rw [← Nat.add_assoc, Nat.add_sub_cancel]; exact opened) fits

end Lines

section Characters

variable {toolCallId : Text} {source : ToolResultProjectionSource} {head : List Text}

def markerLength (source : ToolResultProjectionSource) (toolCallId : Text) (head : List Text) (tailCount : Nat) : Nat :=
  codePointLength (charMarkerOf source toolCallId head tailCount)

structure Ample (source : ToolResultProjectionSource) (head : List Text) : Prop where
  head : head.length = 2000
  least : 8000 < source.totalChars
  most : source.totalChars ≤ MAX_STRING_LENGTH
  lines : source.totalLines ≤ source.totalChars + 1

theorem markerLength_eq (tailCount : Nat) : markerLength source toolCallId head tailCount =
    181 + 2 * codePointLength (quote toolCallId) + size source.totalLines + 2 * size source.totalChars +
      size head.length + size (source.totalChars - tailCount + 1) + 2 * size (head.length + 1) +
      size (source.totalChars - tailCount) + size (min TRACE_CHAR_COUNT (source.totalChars - tailCount - head.length)) := by
  rw [markerLength, charMarkerOf, charMarker_length]
  simp only [Nat.add_sub_cancel, Nat.add_sub_add_right]

theorem markerLength_anti {short long : Nat} (le : short ≤ long) :
    markerLength source toolCallId head long ≤ markerLength source toolCallId head short := by
  have start := @size_mono (source.totalChars - long + 1) (source.totalChars - short + 1) (by omega)
  have omitted := @size_mono (source.totalChars - long) (source.totalChars - short) (by omega)
  have count := @size_mono (min TRACE_CHAR_COUNT (source.totalChars - long - head.length))
    (min TRACE_CHAR_COUNT (source.totalChars - short - head.length)) (by omega)
  rw [markerLength_eq, markerLength_eq]
  omega

/-- Two numbers can grow by a digit each, and one that has a digit at least has four at most. -/
theorem markerLength_le (ample : Ample source head) {tailCount : Nat} (le : tailCount ≤ 6000) :
    markerLength source toolCallId head tailCount ≤ markerLength source toolCallId head 6000 + 5 := by
  have least := ample.least
  have start := @size_le_succ (source.totalChars - 6000 + 1) (source.totalChars - tailCount + 1) (by omega)
  have omitted := @size_le_succ (source.totalChars - 6000) (source.totalChars - tailCount) (by omega)
  have most : size (min TRACE_CHAR_COUNT (source.totalChars - tailCount - head.length)) ≤ 4 :=
    (size_le_iff (by omega)).mpr (by simp only [TRACE_CHAR_COUNT]; omega)
  have one : 0 < size (min TRACE_CHAR_COUNT (source.totalChars - 6000 - head.length)) := Nat.length_repr_pos
  rw [markerLength_eq, markerLength_eq]
  omega

theorem markerLength_lt (ample : Ample source head) (short : toolCallId.length ≤ 256) (tailCount : Nat) :
    markerLength source toolCallId head tailCount < 6000 := by
  have most := ample.most
  rw [MAX_STRING_LENGTH] at most
  have lines := ample.lines
  have quoted := quote_length_le toolCallId
  have small {value : Nat} (bound : value < 10 ^ 16) : size value ≤ 16 := (size_le_iff (by omega)).mpr bound
  have total := @small source.totalChars (by omega)
  have numbered := @small source.totalLines (by omega)
  have headSize := @small head.length (by rw [ample.head]; omega)
  have headNext := @small (head.length + 1) (by rw [ample.head]; omega)
  have start := @small (source.totalChars - tailCount + 1) (by omega)
  have omitted := @small (source.totalChars - tailCount) (by omega)
  have count := @small (min TRACE_CHAR_COUNT (source.totalChars - tailCount - head.length)) (by omega)
  rw [markerLength_eq]
  omega

/-- The tail and the marker fit each other. -/
def Fits (source : ToolResultProjectionSource) (toolCallId : Text) (head : List Text) (tailCount : Nat) : Prop :=
  tailCount + markerLength source toolCallId head tailCount = 6000

theorem fitTailCount_fits (ample : Ample source head) (short : toolCallId.length ≤ 256) {suffix : List Text}
    (full : suffix.length = 6000) {attempts previous tailCount : Nat} (le : tailCount ≤ previous) (inside : previous ≤ 6000)
    (found : tailCount + markerLength source toolCallId head previous = 6000)
    (left : markerLength source toolCallId head 6000 + 6 ≤ markerLength source toolCallId head previous + attempts) :
    ∃ count, Fits source toolCallId head count ∧ fitTailCount source toolCallId head suffix attempts tailCount =
      head.flatten ++ charMarkerOf source toolCallId head count ++ takeTailCodePoints suffix count := by
  induction attempts generalizing previous tailCount with
  | zero =>
    have bound := @markerLength_le toolCallId source head ample previous inside
    omega
  | succ attempts ih =>
    have longer := @markerLength_anti toolCallId source head tailCount previous le
    have small := markerLength_lt ample short tailCount
    have next : min suffix.length (MODEL_TOOL_RESULT_MAX_CHARS - head.length - markerLength source toolCallId head tailCount) =
        6000 - markerLength source toolCallId head tailCount := by
      have limit : MODEL_TOOL_RESULT_MAX_CHARS = 8000 := rfl
      rw [full, limit, ample.head]
      omega
    simp only [fitTailCount]
    rw [show codePointLength (charMarkerOf source toolCallId head tailCount) = markerLength source toolCallId head tailCount from rfl,
      next]
    split
    next same => exact ⟨tailCount, by unfold Fits; omega, rfl⟩
    next other => exact @ih tailCount _ (by omega) (by omega) (by omega) (by omega)

/-- The first attempt is for the longest tail, which leaves no room for a marker. -/
theorem fitTailCount_starts (ample : Ample source head) (short : toolCallId.length ≤ 256) {suffix : List Text}
    (full : suffix.length = 6000) {attempts : Nat} (enough : 6 ≤ attempts) :
    ∃ count, Fits source toolCallId head count ∧ fitTailCount source toolCallId head suffix (attempts + 1) 6000 =
      head.flatten ++ charMarkerOf source toolCallId head count ++ takeTailCodePoints suffix count := by
  have small := markerLength_lt ample short 6000
  have some : 181 ≤ markerLength source toolCallId head 6000 := by
    rw [markerLength_eq]
    omega
  have next : min suffix.length (MODEL_TOOL_RESULT_MAX_CHARS - head.length - markerLength source toolCallId head 6000) =
      6000 - markerLength source toolCallId head 6000 := by
    have limit : MODEL_TOOL_RESULT_MAX_CHARS = 8000 := rfl
    rw [full, limit, ample.head]
    omega
  simp only [fitTailCount]
  rw [show codePointLength (charMarkerOf source toolCallId head 6000) = markerLength source toolCallId head 6000 from rfl,
    next, if_neg (by omega)]
  exact @fitTailCount_fits _ _ _ ample short _ full _ 6000 _ (by omega) (by omega) (by omega) (by omega)

theorem countNewlines_le (points : List Text) : countNewlines points ≤ points.length := List.count_le_length

theorem projectByCharacter_leavesOut {content : Text} (long : Long content) (bounded : content.length ≤ MAX_STRING_LENGTH)
    (short : toolCallId.length ≤ 256) : LeavesOut (codePoints content) toolCallId
      (projectByCharacter (buildToolResultProjectionSource content) toolCallId) := by
  obtain ⟨headLimit, prefixLimit, suffixLimit, limit⟩ : MODEL_TOOL_RESULT_HEAD_CHARS = 2000 ∧
    TOOL_RESULT_PROJECTION_PREFIX_CHARS = 8000 ∧ TOOL_RESULT_PROJECTION_SUFFIX_CHARS = 6000 ∧
    MODEL_TOOL_RESULT_MAX_CHARS = 8000 := ⟨rfl, rfl, rfl, rfl⟩
  rw [Long, limit] at long
  have most := length_codePoints_le content
  have lines := countNewlines_le (codePoints content)
  have front : (codePoints (buildToolResultProjectionSource content).prefixText).take MODEL_TOOL_RESULT_HEAD_CHARS =
      (codePoints content).take MODEL_TOOL_RESULT_HEAD_CHARS := by
    rw [source_front, List.take_take, Nat.min_eq_left (by omega)]
  have headLength : ((codePoints content).take MODEL_TOOL_RESULT_HEAD_CHARS).length = 2000 := by
    rw [List.length_take]
    omega
  have full : ((codePoints content).drop ((codePoints content).length - TOOL_RESULT_PROJECTION_SUFFIX_CHARS)).length = 6000 := by
    rw [List.length_drop]
    omega
  have ample : Ample (buildToolResultProjectionSource content) ((codePoints content).take MODEL_TOOL_RESULT_HEAD_CHARS) := by
    rw [source_eq]
    refine ⟨headLength, long, ?_, ?_⟩
    · simp only
      omega
    · simp only
      omega
  obtain ⟨count, fits, result⟩ := fitTailCount_starts ample short full (show 6 ≤ 7 by omega)
  have begins : min 6000 (MODEL_TOOL_RESULT_MAX_CHARS - 2000) = 6000 := by omega
  rw [projectByCharacter, front, source_back, full, headLength, begins, result]
  have length : 181 ≤ markerLength (buildToolResultProjectionSource content) toolCallId
      ((codePoints content).take MODEL_TOOL_RESULT_HEAD_CHARS) count := by
    rw [markerLength_eq]
    omega
  unfold Fits at fits
  have before : MODEL_TOOL_RESULT_HEAD_CHARS < (codePoints content).length - count := by omega
  have parts := parts_of_places (codePoints content) before (Nat.sub_le _ _)
  have tail : takeTailCodePoints ((codePoints content).drop ((codePoints content).length - TOOL_RESULT_PROJECTION_SUFFIX_CHARS))
      count = ((codePoints content).drop ((codePoints content).length - count)).flatten := by
    have place : (codePoints content).length - TOOL_RESULT_PROJECTION_SUFFIX_CHARS + (6000 - count) =
        (codePoints content).length - count := by omega
    rw [takeTailCodePoints, full, List.drop_drop, place]
  have told : charMarkerOf (buildToolResultProjectionSource content) toolCallId
      ((codePoints content).take MODEL_TOOL_RESULT_HEAD_CHARS) count =
        charMarker (charsLeftOut (codePoints content) ((codePoints content).take MODEL_TOOL_RESULT_HEAD_CHARS)
          (((codePoints content).take ((codePoints content).length - count)).drop MODEL_TOOL_RESULT_HEAD_CHARS) toolCallId) := by
    have kept : ((codePoints content).take MODEL_TOOL_RESULT_HEAD_CHARS ++
        ((codePoints content).take ((codePoints content).length - count)).drop MODEL_TOOL_RESULT_HEAD_CHARS).length =
          (codePoints content).length - count := by
      rw [List.length_append, headLength, List.length_drop, List.length_take]
      omega
    simp only [charMarkerOf, charsLeftOut, kept, source_eq, Nat.add_sub_cancel]
  rw [tail]
  refine ⟨_, _, _, _, parts, .inr told, rfl, ?_⟩
  rw [parts.codePoints_result (told ▸ framed_charMarker _), headLength, List.length_drop, limit]
  change 2000 + markerLength (buildToolResultProjectionSource content) toolCallId
    ((codePoints content).take MODEL_TOOL_RESULT_HEAD_CHARS) count + _ ≤ 8000
  omega

end Characters

theorem projected_of_short {content : Text} (toolCallId : Text) (short : codePointLength content ≤ MODEL_TOOL_RESULT_MAX_CHARS) :
    projectToolResultContentForModel content toolCallId = content := by
  rw [codePointLength] at short
  have whole : (codePoints content).length ≤ TOOL_RESULT_PROJECTION_PREFIX_CHARS := short
  rw [projectToolResultContentForModel, source_eq, projectToolResultSourceForModel]
  simp only
  rw [if_pos short, List.take_of_length_le whole, flatten_codePoints]

theorem leavesOut_of_long {content toolCallId : Text} (long : Long content) (bounded : content.length ≤ MAX_STRING_LENGTH)
    (short : toolCallId.length ≤ 256) :
    LeavesOut (codePoints content) toolCallId (projectToolResultContentForModel content toolCallId) := by
  have total : (buildToolResultProjectionSource content).totalChars = (codePoints content).length := by rw [source_eq]
  rw [projectToolResultContentForModel, projectToolResultSourceForModel, total, if_neg (Nat.not_le_of_lt long)]
  cases projected : projectLineAware (buildToolResultProjectionSource content) toolCallId with
  | none => exact projectByCharacter_leavesOut long bounded short
  | some result => exact projectLineAware_leavesOut long projected

/-- What the model is shown has a limit. A short text is shown as it is, and of a long one a part is left out
that the marker tells; what is shown is shown the same again. -/
theorem projection_exact (content : JsString) (toolCallId : Text) (short : toolCallId.length ≤ 256) :
    codePointLength (projectToolResultContentForModel content.text toolCallId) ≤ MODEL_TOOL_RESULT_MAX_CHARS ∧
    (codePointLength content.text ≤ MODEL_TOOL_RESULT_MAX_CHARS →
      projectToolResultContentForModel content.text toolCallId = content.text) ∧
    (MODEL_TOOL_RESULT_MAX_CHARS < codePointLength content.text →
      ∃ head omitted tail marker, Parts (codePoints content.text) head omitted tail ∧
        Describes (codePoints content.text) head omitted toolCallId marker ∧
        projectToolResultContentForModel content.text toolCallId = head.flatten ++ marker ++ tail.flatten) ∧
    ∀ other, projectToolResultContentForModel (projectToolResultContentForModel content.text toolCallId) other =
      projectToolResultContentForModel content.text toolCallId := by
  have left : MODEL_TOOL_RESULT_MAX_CHARS < codePointLength content.text →
      LeavesOut (codePoints content.text) toolCallId (projectToolResultContentForModel content.text toolCallId) :=
    fun long => leavesOut_of_long long content.bounded short
  have bounded : codePointLength (projectToolResultContentForModel content.text toolCallId) ≤ MODEL_TOOL_RESULT_MAX_CHARS := by
    by_cases long : MODEL_TOOL_RESULT_MAX_CHARS < codePointLength content.text
    · obtain ⟨_, _, _, _, _, _, _, fits⟩ := left long
      exact fits
    · rw [projected_of_short toolCallId (Nat.le_of_not_lt long)]
      exact Nat.le_of_not_lt long
  refine ⟨bounded, projected_of_short toolCallId, fun long => ?_, fun other => projected_of_short other bounded⟩
  obtain ⟨head, omitted, tail, marker, parts, told, result, _⟩ := left long
  exact ⟨head, omitted, tail, marker, parts, told, result⟩

/-- One line, longer than what the model is shown. -/
theorem projection_exact_long : ∃ content : JsString, content.text = List.replicate 9000 (unit 'a') ∧
    codePointLength (projectToolResultContentForModel content.text (units "call_1")) ≤ MODEL_TOOL_RESULT_MAX_CHARS ∧
    ∃ head omitted tail marker, Parts (codePoints content.text) head omitted tail ∧
      Describes (codePoints content.text) head omitted (units "call_1") marker ∧
      projectToolResultContentForModel content.text (units "call_1") = head.flatten ++ marker ++ tail.flatten := by
  have bounded : (List.replicate 9000 (unit 'a')).length ≤ MAX_STRING_LENGTH := by
    rw [List.length_replicate, MAX_STRING_LENGTH]
    omega
  have plain : ∀ char ∈ List.replicate 9000 (unit 'a'), isHigh char = false := by
    intro char member
    rw [List.eq_of_mem_replicate member]
    rfl
  have long : MODEL_TOOL_RESULT_MAX_CHARS < codePointLength (List.replicate 9000 (unit 'a')) := by
    rw [codePointLength, codePoints_plain plain, List.length_map, List.length_replicate, MODEL_TOOL_RESULT_MAX_CHARS]
    omega
  have exact := projection_exact ⟨_, bounded⟩ (units "call_1") (by decide)
  exact ⟨⟨_, bounded⟩, rfl, exact.1, exact.2.2.1 long⟩

end AgentSaas.Proofs.ToolResultProjection
