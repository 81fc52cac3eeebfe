import AgentSaas.EditOperations
import AgentSaas.Outcomes
import AgentSaas.Proofs.ToolCallPrefixes
import AgentSaas.Spans

/-! The views of a file. A unit of the line ending view is a character or a whole line ending,
and one of the fuzzy view a grapheme or a part of what it is normalized to. -/

namespace AgentSaas.Proofs.EditViews
open AgentSaas.EditOperations AgentSaas.Outcomes AgentSaas.Splitting AgentSaas.Spans AgentSaas.ToolCallRepair

def AtCrLf (first : Nat) (rest : Text) : Prop := first = CR ∧ rest.head? = some LF

theorem crLf_induction {motive : Text → Prop} (nil : motive []) (pair : ∀ rest, motive rest → motive (CR :: LF :: rest))
    (single : ∀ first rest, ¬ AtCrLf first rest → motive rest → motive (first :: rest)) (text : Text) : motive text := by
  induction length : text.length using Nat.strongRecOn generalizing text with
  | ind size ih =>
    cases text with
    | nil => exact nil
    | cons first rest =>
      by_cases here : AtCrLf first rest
      · obtain ⟨rfl, next⟩ := here
        obtain ⟨later, rfl⟩ := List.head?_eq_some_iff.mp next
        exact pair later (ih later.length (by rw [← length, List.length_cons, List.length_cons]; omega) later rfl)
      · exact single first rest here (ih rest.length (by rw [← length, List.length_cons]; omega) rest rfl)

theorem normalizeToLf_pair (rest : Text) : normalizeToLf (CR :: LF :: rest) = LF :: normalizeToLf rest := by
  have apart : ¬ AtCrLf LF rest := fun here => absurd here.1 (by decide)
  unfold AtCrLf at apart
  simp only [normalizeToLf, crLfToLf, List.head?_cons, and_self, if_true, if_neg apart, List.map_cons]
  simp [CR, LF, unit]

theorem normalizeToLf_single {first : Nat} {rest : Text} (here : ¬ AtCrLf first rest) :
    normalizeToLf (first :: rest) = (if first = CR then LF else first) :: normalizeToLf rest := by
  unfold AtCrLf at here
  simp only [normalizeToLf, crLfToLf, if_neg here, List.map_cons]

theorem lineEndingUnits_pair (i : Nat) (rest : Text) :
    lineEndingUnits i (CR :: LF :: rest) = ⟨LF, i, i + 2⟩ :: lineEndingUnits (i + 2) rest := by
  simp [lineEndingUnits]

theorem lineEndingUnits_single {first : Nat} {rest : Text} (i : Nat) (here : ¬ AtCrLf first rest) :
    lineEndingUnits i (first :: rest) = ⟨if first = CR then LF else first, i, i + 1⟩ :: lineEndingUnits (i + 1) rest := by
  cases rest with
  | nil => rfl
  | cons second later =>
    simp only [lineEndingUnits]
    split
    next carriage =>
      have apart : second ≠ LF := fun same => here ⟨carriage, by simp [same]⟩
      simp [apart]
    next => rfl

theorem lineEndingUnits_values (i : Nat) (text : Text) : (lineEndingUnits i text).map (·.value) = normalizeToLf text := by
  induction text using crLf_induction generalizing i with
  | nil => rfl
  | pair rest ih => rw [lineEndingUnits_pair, normalizeToLf_pair, List.map_cons, ih]
  | single first rest here ih => rw [lineEndingUnits_single i here, normalizeToLf_single here, List.map_cons, ih]

theorem lineEndingUnits_tiled (i : Nat) (text : Text) :
    Tiled MappedUnit.start MappedUnit.stop i (i + text.length) (lineEndingUnits i text) := by
  induction text using crLf_induction generalizing i with
  | nil => rfl
  | pair rest ih =>
    rw [lineEndingUnits_pair]
    refine ⟨rfl, by simp, ?_⟩
    have later := ih (i + 2)
    rw [show i + 2 + rest.length = i + (CR :: LF :: rest).length by simp; omega] at later
    exact later
  | single first rest here ih =>
    rw [lineEndingUnits_single i here]
    refine ⟨rfl, by simp, ?_⟩
    have later := ih (i + 1)
    rw [show i + 1 + rest.length = i + (first :: rest).length by simp; omega] at later
    exact later

def CutsCrLf (before after : Text) : Prop := before.getLast? = some CR ∧ after.head? = some LF

theorem lineEndingUnits_split (i : Nat) (text : Text) (count : Nat) (inside : count ≤ (lineEndingUnits i text).length) :
    ∃ before after, text = before ++ after ∧ (lineEndingUnits i before).length = count ∧
      lineEndingUnits i text = lineEndingUnits i before ++ lineEndingUnits (i + before.length) after ∧
      ¬ CutsCrLf before after := by
  induction text using crLf_induction generalizing i count with
  | nil =>
    refine ⟨[], [], rfl, ?_, rfl, fun cut => by cases cut.1⟩
    have none : count ≤ 0 := inside
    rw [Nat.le_zero.mp none]
    rfl
  | pair rest ih =>
    cases count with
    | zero => exact ⟨[], CR :: LF :: rest, rfl, rfl, rfl, fun cut => by cases cut.1⟩
    | succ count =>
      rw [lineEndingUnits_pair, List.length_cons] at inside
      obtain ⟨before, after, rfl, length, parts, whole⟩ := ih (i + 2) count (Nat.le_of_succ_le_succ inside)
      refine ⟨CR :: LF :: before, after, rfl, ?_, ?_, fun cut => ?_⟩
      · rw [lineEndingUnits_pair, List.length_cons, length]
      · rw [lineEndingUnits_pair, lineEndingUnits_pair, parts]
        simp [Nat.add_assoc, Nat.add_comm 2]
      · cases before with
        | nil => exact absurd cut.1 (by decide)
        | cons head tail => exact whole ⟨by simpa [List.getLast?_cons_cons] using cut.1, cut.2⟩
  | single first rest here ih =>
    cases count with
    | zero => exact ⟨[], first :: rest, rfl, rfl, rfl, fun cut => by cases cut.1⟩
    | succ count =>
      rw [lineEndingUnits_single i here, List.length_cons] at inside
      obtain ⟨before, after, rfl, length, parts, whole⟩ := ih (i + 1) count (Nat.le_of_succ_le_succ inside)
      have apart : ¬ AtCrLf first before := fun found =>
        here ⟨found.1, by rw [List.head?_append, found.2, Option.some_or]⟩
      refine ⟨first :: before, after, rfl, ?_, ?_, fun cut => ?_⟩
      · rw [lineEndingUnits_single i apart, List.length_cons, length]
      · rw [lineEndingUnits_single i here, lineEndingUnits_single i apart, parts]
        simp [Nat.add_assoc, Nat.add_comm 1]
      · cases before with
        | nil => exact here ⟨by simpa using cut.1, cut.2⟩
        | cons head tail => exact whole ⟨by simpa [List.getLast?_cons_cons] using cut.1, cut.2⟩

/-- A part of the file, and what a range of the line ending view stands for in it. -/
structure Stands (text : Text) (range raw : TextRange) : Prop where
  start_lt : raw.start < raw.stop
  stop_le : raw.stop ≤ text.length
  normalized : normalizeToLf (slice text raw.start raw.stop) = slice (normalizeToLf text) range.start range.stop
  start_whole : ¬ CutsCrLf (text.take raw.start) (text.drop raw.start)
  stop_whole : ¬ CutsCrLf (text.take raw.stop) (text.drop raw.stop)

theorem head_append {first second : Text} (filled : first ≠ []) : (first ++ second).head? = first.head? := by
  cases first with
  | nil => exact (filled rfl).elim
  | cons => rfl

theorem lineEndingView_text (text : Text) : (createLineEndingView text).text = normalizeToLf text :=
  lineEndingUnits_values 0 text

theorem slice_middle (before middle after : Text) :
    slice (before ++ (middle ++ after)) before.length (before.length + middle.length) = middle := by
  rw [slice, List.take_length_add_append, List.drop_left, List.take_left]

theorem range_ofUnits {units : List MappedUnit} {range : TextRange} {first last : MappedUnit}
    (begins : units[range.start]? = some first) (ends : units[range.stop - 1]? = some last) :
    (FuzzyView.ofUnits units).range range = ⟨first.start, last.stop⟩ := by
  simp [FuzzyView.range, FuzzyView.ofUnits, begins, ends]

theorem lineEnding_stands {text : Text} {range : TextRange} (filled : range.start < range.stop)
    (inside : range.stop ≤ (normalizeToLf text).length) : Stands text range ((createLineEndingView text).range range) := by
  have count : (lineEndingUnits 0 text).length = (normalizeToLf text).length := by
    rw [← lineEndingUnits_values 0 text, List.length_map]
  obtain ⟨front, after, rfl, frontLength, parts, whole⟩ := lineEndingUnits_split 0 text range.stop (count ▸ inside)
  obtain ⟨before, middle, rfl, beforeLength, inner, cleft⟩ :=
    lineEndingUnits_split 0 front range.start (by omega)
  simp only [Nat.zero_add] at parts inner
  have middleLength : (lineEndingUnits before.length middle).length = range.stop - range.start := by
    rw [inner, List.length_append] at frontLength
    omega
  have occupied : lineEndingUnits before.length middle ≠ [] := by
    intro empty
    rw [empty] at middleLength
    simp at middleLength
    omega
  have tiled := lineEndingUnits_tiled before.length middle
  obtain ⟨starts, stops⟩ := tiled.ends occupied
  have units : lineEndingUnits 0 (before ++ middle ++ after) = lineEndingUnits 0 before ++
      (lineEndingUnits before.length middle ++ lineEndingUnits (before ++ middle).length after) := by
    rw [parts, inner, List.append_assoc]
  have begins : (lineEndingUnits 0 (before ++ middle ++ after))[range.start]? =
      some ((lineEndingUnits before.length middle).head occupied) := by
    rw [units, List.getElem?_append_right (by omega), beforeLength, Nat.sub_self, List.getElem?_append_left (by omega),
      ← List.head?_eq_getElem?, List.head?_eq_some_head]
  have ends : (lineEndingUnits 0 (before ++ middle ++ after))[range.stop - 1]? =
      some ((lineEndingUnits before.length middle).getLast occupied) := by
    rw [units, List.getElem?_append_right (by omega), List.getElem?_append_left (by omega),
      ← List.getLast?_eq_some_getLast, List.getLast?_eq_getElem?]
    congr 1
    omega
  have raw : (createLineEndingView (before ++ middle ++ after)).range range =
      ⟨before.length, before.length + middle.length⟩ := by
    rw [createLineEndingView, range_ofUnits begins ends, starts, stops]
  have nonempty : middle ≠ [] := fun empty => occupied (by rw [empty]; rfl)
  have positive := List.length_pos_iff.mpr nonempty
  rw [raw]
  refine ⟨?_, ?_, ?_, ?_, ?_⟩
  · simp only
    omega
  · simp only [List.length_append]
    omega
  · have values : normalizeToLf (before ++ middle ++ after) = normalizeToLf before ++
        (normalizeToLf middle ++ (lineEndingUnits (before ++ middle).length after).map (·.value)) := by
      rw [← lineEndingUnits_values 0, units, List.map_append, List.map_append, lineEndingUnits_values, lineEndingUnits_values]
    have low : range.start = (normalizeToLf before).length := by
      rw [← lineEndingUnits_values 0 before, List.length_map, beforeLength]
    have high : range.stop = (normalizeToLf before).length + (normalizeToLf middle).length := by
      rw [← low, ← lineEndingUnits_values before.length middle, List.length_map, middleLength]
      omega
    rw [values, low, high, slice_middle, List.append_assoc, slice_middle]
  · simp only [List.append_assoc, List.take_left, List.drop_left]
    intro cut
    exact cleft ⟨cut.1, by rw [← head_append nonempty]; exact cut.2⟩
  · have place : before.length + middle.length = (before ++ middle).length := (List.length_append ..).symm
    simp only [place, List.take_left, List.drop_left]
    exact whole

/-! The graphemes of a file, which the units of the fuzzy view are made from. -/

def graphemeRanges : Nat → List Text → List TextRange
  | _, [] => []
  | start, grapheme :: rest => ⟨start, start + grapheme.length⟩ :: graphemeRanges (start + grapheme.length) rest

variable (unicode : Unicode)

def lineGraphemes : Nat → List Text → List TextRange
  | _, [] => []
  | lineStart, line :: rest =>
    graphemeRanges lineStart (unicode.graphemes line) ++ lineGraphemes (lineStart + line.length + 1) rest

/-- Graphemes and units of one stretch: a unit is from one grapheme, and away from the others. -/
structure Laid (low high : Nat) (graphemes : List TextRange) (units : List MappedUnit) : Prop where
  spread : Spread MappedUnit.start MappedUnit.stop low high units
  inside : ∀ grapheme ∈ graphemes, low ≤ grapheme.start ∧ grapheme.start < grapheme.stop ∧ grapheme.stop ≤ high
  aligned : ∀ grapheme ∈ graphemes, ∀ unit ∈ units,
    (grapheme.start = unit.start ∧ grapheme.stop = unit.stop) ∨ grapheme.stop ≤ unit.start ∨ unit.stop ≤ grapheme.start

section Laid

variable {low middle high : Nat} {graphemes later : List TextRange} {units more : List MappedUnit}

theorem Laid.append (front : Laid low middle graphemes units) (back : Laid middle high later more) (le : low ≤ middle)
    (ge : middle ≤ high) : Laid low high (graphemes ++ later) (units ++ more) := by
  refine ⟨front.spread.append back.spread le ge, fun grapheme member => ?_, fun grapheme member unit present => ?_⟩
  · cases List.mem_append.mp member with
    | inl member =>
      have := front.inside grapheme member
      omega
    | inr member =>
      have := back.inside grapheme member
      omega
  · cases List.mem_append.mp member with
    | inl member =>
      cases List.mem_append.mp present with
      | inl present => exact front.aligned grapheme member unit present
      | inr present =>
        have := front.inside grapheme member
        have := back.spread.within unit present
        omega
    | inr member =>
      cases List.mem_append.mp present with
      | inl present =>
        have := back.inside grapheme member
        have := front.spread.within unit present
        omega
      | inr present => exact back.aligned grapheme member unit present

theorem Laid.sublist (laid : Laid low high graphemes units) (sub : more.Sublist units) : Laid low high graphemes more :=
  ⟨laid.spread.sublist sub, laid.inside, fun grapheme member unit present =>
    laid.aligned grapheme member unit (sub.subset present)⟩

theorem Laid.one (start stop : Nat) (filled : start < stop) (values : Text) :
    Laid start stop [⟨start, stop⟩] (values.map (⟨·, start, stop⟩)) := by
  have shape : ∀ unit ∈ values.map (MappedUnit.mk · start stop), unit.start = start ∧ unit.stop = stop := by
    intro unit member
    obtain ⟨value, _, rfl⟩ := List.mem_map.mp member
    exact ⟨rfl, rfl⟩
  refine ⟨⟨fun unit member => ?_, ?_⟩, fun grapheme member => ?_, fun grapheme member unit present => .inl ?_⟩
  · have := shape unit member
    omega
  · exact List.pairwise_map.mpr (List.pairwise_of_forall fun _ _ => ⟨Nat.le_refl _, Nat.le_refl _⟩)
  · cases List.mem_singleton.mp member
    exact ⟨Nat.le_refl _, filled, Nat.le_refl _⟩
  · cases List.mem_singleton.mp member
    exact ⟨(shape unit present).1.symm, (shape unit present).2.symm⟩

end Laid

theorem graphemeUnits_laid (start : Nat) {graphemes : List Text} (filled : ∀ grapheme ∈ graphemes, grapheme ≠ []) :
    Laid start (start + graphemes.flatten.length) (graphemeRanges start graphemes)
      (graphemeUnits unicode start graphemes) := by
  induction graphemes generalizing start with
  | nil => exact ⟨⟨fun _ member => (by cases member), .nil⟩, fun _ member => (by cases member), fun _ member => (by cases member)⟩
  | cons grapheme rest ih =>
    have positive := List.length_pos_iff.mpr (filled grapheme (List.mem_cons_self ..))
    have later := ih (start + grapheme.length) fun other member => filled other (List.mem_cons_of_mem _ member)
    have first := Laid.one start (start + grapheme.length) (by omega) (normalizeFuzzyCodePoint unicode grapheme)
    rw [List.flatten_cons, List.length_append, ← Nat.add_assoc]
    exact first.append later (by omega) (by omega)

theorem mappedSegment_laid (line : Text) (lineStart : Nat) :
    Laid lineStart (lineStart + line.length) (graphemeRanges lineStart (unicode.graphemes line))
      (mappedSegment unicode line lineStart) := by
  have laid := graphemeUnits_laid unicode lineStart (unicode.graphemes_filled line)
  rw [unicode.flatten_graphemes] at laid
  exact laid.sublist (List.rdropWhile_prefix ..).sublist

theorem lineUnits_laid (lineStart : Nat) (lines : List Text) :
    Laid lineStart (lineStart + (join [LF] lines).length) (lineGraphemes unicode lineStart lines)
      (lineUnits unicode lineStart lines) := by
  induction lines generalizing lineStart with
  | nil => exact ⟨⟨fun _ member => (by cases member), .nil⟩, fun _ member => (by cases member), fun _ member => (by cases member)⟩
  | cons line rest ih =>
    have own := mappedSegment_laid unicode line lineStart
    cases rest with
    | nil => simpa [join, lineGraphemes, lineUnits] using own
    | cons next later =>
      have newline : Laid (lineStart + line.length) (lineStart + line.length + 1) []
          [⟨LF, lineStart + line.length, lineStart + line.length + 1⟩] :=
        ⟨⟨fun unit member => by cases List.mem_singleton.mp member; simp, List.pairwise_singleton _ _⟩,
          fun _ member => (by cases member), fun _ member => (by cases member)⟩
      have length : (join [LF] (line :: next :: later)).length = line.length + 1 + (join [LF] (next :: later)).length := by
        simp [join, List.intercalate_cons_cons]
        omega
      rw [length, ← Nat.add_assoc, ← Nat.add_assoc]
      exact own.append (newline.append (ih (lineStart + line.length + 1)) (by omega) (by omega)) (by omega) (by omega)

def filed (text : Text) (unit : MappedUnit) : MappedUnit :=
  let range := (createLineEndingView text).range ⟨unit.start, unit.stop⟩
  ⟨unit.value, range.start, range.stop⟩

def graphemes (text : Text) : List TextRange :=
  mapViewRanges (createLineEndingView text) (lineGraphemes unicode 0 (split [LF] (normalizeToLf text)))

def viewUnits (text : Text) : List MappedUnit := lineUnits unicode 0 (split [LF] (normalizeToLf text))

/-- The units of the fuzzy view, each with the part of the file it stands for. -/
def fuzzyUnits (text : Text) : List MappedUnit := (viewUnits unicode text).map (filed text)

structure Inside (text : Text) (range : TextRange) : Prop where
  filled : range.start < range.stop
  inside : range.stop ≤ (lineEndingUnits 0 text).length

theorem lineEndingUnits_length (i : Nat) (text : Text) : (lineEndingUnits i text).length = (normalizeToLf text).length := by
  rw [← lineEndingUnits_values i text, List.length_map]

section Order

variable {text : Text} {left right : TextRange}

theorem lineEnding_range (first : left.start < (lineEndingUnits 0 text).length)
    (last : left.stop - 1 < (lineEndingUnits 0 text).length) : (createLineEndingView text).range left =
      ⟨(lineEndingUnits 0 text)[left.start].start, (lineEndingUnits 0 text)[left.stop - 1].stop⟩ :=
  range_ofUnits (List.getElem?_eq_getElem first) (List.getElem?_eq_getElem last)

theorem lineEndingUnits_apart {i j : Nat} (before : i < j) (inside : j < (lineEndingUnits 0 text).length) :
    (lineEndingUnits 0 text)[i].stop ≤ (lineEndingUnits 0 text)[j].start :=
  List.pairwise_iff_getElem.mp (lineEndingUnits_tiled 0 text).apart.2 i j _ inside before

theorem lineEndingUnits_filled {i : Nat} (inside : i < (lineEndingUnits 0 text).length) :
    (lineEndingUnits 0 text)[i].start < (lineEndingUnits 0 text)[i].stop :=
  ((lineEndingUnits_tiled 0 text).apart.1 _ (List.getElem_mem inside)).2.1

structure SameOrder (left right rawLeft rawRight : TextRange) : Prop where
  starts : rawLeft.start ≤ rawRight.start ↔ left.start ≤ right.start
  stops : rawLeft.stop ≤ rawRight.stop ↔ left.stop ≤ right.stop
  apart : left.stop ≤ right.start → rawLeft.stop ≤ rawRight.start
  filled : rawLeft.start < rawLeft.stop

theorem range_order (first : Inside text left) (second : Inside text right) :
    SameOrder left right ((createLineEndingView text).range left) ((createLineEndingView text).range right) := by
  obtain ⟨leftFilled, leftInside⟩ := first
  obtain ⟨rightFilled, rightInside⟩ := second
  rw [lineEnding_range (by omega) (by omega), lineEnding_range (by omega) (by omega)]
  have compare {i j : Nat} (hi : i < (lineEndingUnits 0 text).length) (hj : j < (lineEndingUnits 0 text).length) :
      ((lineEndingUnits 0 text)[i].start ≤ (lineEndingUnits 0 text)[j].start ↔ i ≤ j) ∧
        ((lineEndingUnits 0 text)[i].stop ≤ (lineEndingUnits 0 text)[j].stop ↔ i ≤ j) := by
    have filledLeft := lineEndingUnits_filled hi
    have filledRight := lineEndingUnits_filled hj
    rcases Nat.lt_trichotomy i j with before | same | after
    · have := lineEndingUnits_apart before hj
      omega
    · subst same
      simp
    · have := lineEndingUnits_apart after hi
      omega
  refine ⟨(compare (by omega) (by omega)).1, ?_, fun before => ?_, ?_⟩
  · refine (compare (by omega) (by omega)).2.trans ?_
    omega
  · exact lineEndingUnits_apart (by omega) (by omega)
  · have start := ((compare (i := left.start) (j := left.stop - 1) (by omega) (by omega)).1).mpr (by omega)
    have stop := @lineEndingUnits_filled text (left.stop - 1) (by omega)
    simp only at start ⊢
    omega

end Order

/-- A range in which the needle is. -/
structure Found (content needle : Text) (range : TextRange) : Prop where
  filled : range.start < range.stop
  inside : range.stop ≤ content.length
  same : slice content range.start range.stop = needle

theorem found_of_prefix {content needle : Text} {first : Nat} (filled : 0 < needle.length)
    (here : needle <+: content.drop first) : Found content needle ⟨first, first + needle.length⟩ := by
  obtain ⟨rest, parts⟩ := here
  have whole := congrArg List.length parts
  rw [List.length_append, List.length_drop] at whole
  refine ⟨by simp only; omega, by simp only; omega, ?_⟩
  simp only [slice, List.drop_take, Nat.add_sub_cancel_left, ← parts, List.take_left]

theorem findRangesFrom_found {content needle : Text} {filled : 0 < needle.length} {found start : Nat}
    {ranges : List TextRange} (returned : findRangesFrom content needle filled found start = .ok ranges) :
    ∀ range ∈ ranges, Found content needle range := by
  fun_induction findRangesFrom content needle filled found start generalizing ranges with
  | case1 found start inside missed =>
    cases returned
    intro range member
    cases member
  | case2 found start inside first hit many => cases returned
  | case3 found start inside first hit room ih =>
    obtain ⟨later, searched, same⟩ := of_ok_bind returned
    cases same
    intro range member
    cases List.mem_cons.mp member with
    | inl same => exact same ▸ found_of_prefix filled (ToolCallPrefixes.prefix_of_indexOf hit).2
    | inr member => exact ih searched range member
  | case4 found start outside =>
    cases returned
    intro range member
    cases member

theorem findAllRanges_found {content needle : Text} {ranges : List TextRange}
    (returned : findAllRanges content needle = .ok ranges) : ∀ range ∈ ranges, Found content needle range := by
  unfold findAllRanges at returned
  split at returned
  · exact findRangesFrom_found returned
  next =>
    cases returned
    intro range member
    cases member

section Fuzzy

variable {unicode} {text : Text}

theorem lines_laid (text : Text) : Laid 0 (normalizeToLf text).length (lineGraphemes unicode 0 (split [LF] (normalizeToLf text)))
    (viewUnits unicode text) := by
  have laid := lineUnits_laid unicode 0 (split [LF] (normalizeToLf text))
  rw [join_split (by simp), Nat.zero_add] at laid
  exact laid

theorem unit_inside {unit : MappedUnit} (member : unit ∈ viewUnits unicode text) :
    Inside text ⟨unit.start, unit.stop⟩ := by
  have within := (lines_laid text).spread.within unit member
  exact ⟨within.2.1, by rw [lineEndingUnits_length]; exact within.2.2⟩

theorem grapheme_inside {grapheme : TextRange}
    (member : grapheme ∈ lineGraphemes unicode 0 (split [LF] (normalizeToLf text))) : Inside text grapheme := by
  have within := (lines_laid text).inside grapheme member
  exact ⟨within.2.1, by rw [lineEndingUnits_length]; exact within.2.2⟩

theorem unit_whole {unit : MappedUnit} (present : unit ∈ fuzzyUnits unicode text) :
    ∀ grapheme ∈ graphemes unicode text, ¬ (grapheme.start < unit.start ∧ unit.start < grapheme.stop) ∧
      ¬ (grapheme.start < unit.stop ∧ unit.stop < grapheme.stop) := by
  intro grapheme member
  obtain ⟨source, origin, rfl⟩ := List.mem_map.mp present
  obtain ⟨cluster, listed, rfl⟩ := List.mem_map.mp member
  have forward := range_order (grapheme_inside listed) (unit_inside origin)
  have backward := range_order (unit_inside origin) (grapheme_inside listed)
  have filled := forward.filled
  have kept := backward.filled
  have starts := forward.starts
  have startsBack := backward.starts
  have stops := forward.stops
  have stopsBack := backward.stops
  have apart := forward.apart
  have apartBack := backward.apart
  have aligned := (lines_laid text).aligned cluster listed source origin
  simp only [filed] at *
  omega

theorem fuzzyUnits_spread : Spread MappedUnit.start MappedUnit.stop 0 text.length (fuzzyUnits unicode text) := by
  refine ⟨fun unit member => ?_, List.pairwise_map.mpr ?_⟩
  · obtain ⟨source, origin, rfl⟩ := List.mem_map.mp member
    have inside := unit_inside origin
    have stands := lineEnding_stands inside.filled (lineEndingUnits_length 0 text ▸ inside.inside)
    exact ⟨Nat.zero_le _, stands.start_lt, stands.stop_le⟩
  · apply (lines_laid text).spread.ordered.imp_of_mem
    intro left right first second order
    have same := range_order (unit_inside first) (unit_inside second)
    exact ⟨same.starts.mpr order.1, same.stops.mpr order.2⟩

/-- A fuzzy match: what the units in its part of the file spell, and that it cuts no grapheme. -/
structure Matches (unicode : Unicode) (text oldText : Text) (raw : TextRange) : Prop where
  spelled : ((fuzzyUnits unicode text).filter fun unit => raw.start ≤ unit.start ∧ unit.stop ≤ raw.stop).map (·.value) =
    normalizeForFuzzyMatch unicode oldText
  start_whole : ∀ grapheme ∈ graphemes unicode text, ¬ (grapheme.start < raw.start ∧ raw.start < grapheme.stop)
  stop_whole : ∀ grapheme ∈ graphemes unicode text, ¬ (grapheme.start < raw.stop ∧ raw.stop < grapheme.stop)

theorem getD_map {units : List MappedUnit} (shown : MappedUnit → Nat) {index : Nat} (inside : index < units.length) :
    (units.map shown).getD index 0 = shown units[index] := by
  simp [List.getD_eq_getElem?_getD, inside]

/-- A range of units which has whole graphemes only is all that is in its part of the file. -/
theorem range_matches {oldText : Text} {hit : TextRange}
    (found : Found (createFuzzyView unicode (normalizeToLf text)).text oldText hit)
    (starts : startsInsideMappedUnit (createFuzzyView unicode (normalizeToLf text)) hit = false)
    (ends : endsInsideMappedUnit (createFuzzyView unicode (normalizeToLf text)) hit = false) :
    ∃ first ∈ viewUnits unicode text, ∃ last ∈ viewUnits unicode text,
      (createFuzzyView unicode (normalizeToLf text)).range hit = ⟨first.start, last.stop⟩ ∧ first.start < last.stop ∧
      ((fuzzyUnits unicode text).filter fun unit => (filed text first).start ≤ unit.start ∧
        unit.stop ≤ (filed text last).stop).map (·.value) = oldText := by
  obtain ⟨filled, inside, spelled⟩ := found
  change slice ((viewUnits unicode text).map (·.value)) hit.start hit.stop = oldText at spelled
  change hit.stop ≤ ((viewUnits unicode text).map (·.value)).length at inside
  change startsInsideMappedUnit (.ofUnits (viewUnits unicode text)) hit = false at starts
  change endsInsideMappedUnit (.ofUnits (viewUnits unicode text)) hit = false at ends
  rw [List.length_map] at inside
  have length : (fuzzyUnits unicode text).length = (viewUnits unicode text).length := List.length_map ..
  have unit (index : Nat) (bound : index < (viewUnits unicode text).length) :=
    unit_inside (List.getElem_mem bound)
  have spread : Spread MappedUnit.start MappedUnit.stop 0 (normalizeToLf text).length (viewUnits unicode text) :=
    (lines_laid text).spread
  refine ⟨(viewUnits unicode text)[hit.start], List.getElem_mem _, (viewUnits unicode text)[hit.stop - 1],
    List.getElem_mem _, ?_, ?_, ?_⟩
  · change (FuzzyView.ofUnits (viewUnits unicode text)).range hit = _
    exact range_ofUnits (List.getElem?_eq_getElem (by omega)) (List.getElem?_eq_getElem (by omega))
  · have whole := (unit hit.start (by omega)).filled
    have later := (spread.le (i := hit.start) (j := hit.stop - 1) (by omega) (by omega)).2
    simp only at whole later
    omega
  · have between := (@fuzzyUnits_spread unicode text).filter_between filled (by omega)
    simp only [fuzzyUnits, List.getElem_map] at between
    rw [fuzzyUnits, between]
    · rw [List.map_drop, List.map_take, List.map_map]
      exact spelled
    · intro positive same
      have order := range_order (unit (hit.start - 1) (by omega)) (unit hit.start (by omega))
      have back := range_order (unit hit.start (by omega)) (unit (hit.start - 1) (by omega))
      have places := order.starts
      have placesBack := back.starts
      simp only [startsInsideMappedUnit, FuzzyView.ofUnits, getD_map _ (show hit.start < (viewUnits unicode text).length by omega),
        getD_map _ (show hit.start - 1 < (viewUnits unicode text).length by omega), Bool.and_eq_false_iff,
        decide_eq_false_iff_not] at starts
      simp only [filed] at same places placesBack
      omega
    · intro more same
      rw [List.length_map] at more
      have inside : hit.stop < (viewUnits unicode text).length := more
      have order := range_order (unit (hit.stop - 1) (by omega)) (unit hit.stop inside)
      have back := range_order (unit hit.stop inside) (unit (hit.stop - 1) (by omega))
      have places := order.stops
      have placesBack := back.stops
      simp only [endsInsideMappedUnit, FuzzyView.ofUnits, getD_map _ inside, List.length_map,
        getD_map _ (show hit.stop - 1 < (viewUnits unicode text).length by omega), Bool.and_eq_false_iff,
        decide_eq_false_iff_not] at ends
      simp only [filed] at same places placesBack
      omega

theorem fuzzyRanges_matches {oldText : Text} {ranges : List TextRange}
    (returned : fuzzyRanges unicode (createFuzzyView unicode (normalizeToLf text)) oldText = .ok ranges) {range : TextRange}
    (member : range ∈ ranges) : Inside text range ∧ Matches unicode text oldText ((createLineEndingView text).range range) := by
  simp only [fuzzyRanges] at returned
  split at returned
  · cases returned
    cases member
  obtain ⟨found, searched, same⟩ := of_ok_bind returned
  cases same
  obtain ⟨hit, kept, rfl⟩ := List.mem_map.mp member
  obtain ⟨listed, whole⟩ := List.mem_filter.mp kept
  simp only [Bool.and_eq_true, Bool.not_eq_true'] at whole
  obtain ⟨first, firstIn, last, lastIn, same, filled, spelled⟩ :=
    range_matches (findAllRanges_found searched hit listed) whole.1 whole.2
  rw [same]
  refine ⟨⟨filled, (unit_inside lastIn).inside⟩, spelled, fun grapheme present => ?_, fun grapheme present => ?_⟩
  · exact (unit_whole (List.mem_map_of_mem firstIn) grapheme present).1
  · exact (unit_whole (List.mem_map_of_mem lastIn) grapheme present).2

end Fuzzy

end AgentSaas.Proofs.EditViews
