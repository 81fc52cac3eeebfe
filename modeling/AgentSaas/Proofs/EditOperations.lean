import AgentSaas.Proofs.EditViews

/-! Edits of a file change only what they matched. -/

namespace AgentSaas.Proofs.EditOperations
open AgentSaas.EditOperations AgentSaas.Outcomes AgentSaas.Sorting AgentSaas.Spans AgentSaas.ToolCallRepair EditViews

/-- A replacement, and what the operation behind it asks for. -/
structure Justified (unicode : Unicode) (target : Target) (text : Text) (operation : EditOperation)
    (replacement : PlannedReplacement) : Prop where
  newText : replacement.newText = replacementText target operation replacement.start
  bom : operation.old_string.head? = some BOM → target.hasBom = true ∧ replacement.start = 0
  filled : replacement.start < replacement.stop
  inside : replacement.stop ≤ text.length
  exact : replacement.matchMode = .exact →
    normalizeToLf (slice text replacement.start replacement.stop) = oldTextOf operation
  fuzzy : replacement.matchMode = .fuzzy →
    Matches unicode text (oldTextOf operation) ⟨replacement.start, replacement.stop⟩
  start_whole : ¬ CutsCrLf (text.take replacement.start) (text.drop replacement.start)
  stop_whole : ¬ CutsCrLf (text.take replacement.stop) (text.drop replacement.stop)

section Planning

variable {unicode : Unicode} {text : Text} {target : Target} {operation : EditOperation}

structure Views (unicode : Unicode) (text : Text) (target : Target) : Prop where
  lineEnding : target.lineEndingView = createLineEndingView text
  fuzzy : target.fuzzyView = createFuzzyView unicode (normalizeToLf text)

theorem matchRanges_spec {oldText : Text} {mode : MatchMode} {ranges : List TextRange} (views : Views unicode text target)
    (returned : matchRanges unicode target oldText = .ok (mode, ranges)) : ∀ range ∈ ranges, Inside text range ∧
      (mode = .exact → slice (normalizeToLf text) range.start range.stop = oldText) ∧
      (mode = .fuzzy → Matches unicode text oldText ((createLineEndingView text).range range)) := by
  simp only [matchRanges] at returned
  obtain ⟨found, searched, same⟩ := of_ok_bind returned
  split at same
  · obtain ⟨fuzzy, searched, same⟩ := of_ok_bind same
    cases same
    intro range member
    rw [views.fuzzy] at searched
    obtain ⟨inside, matched⟩ := fuzzyRanges_matches searched member
    exact ⟨inside, fun exact => (by cases exact), fun _ => matched⟩
  · cases same
    intro range member
    rw [views.lineEnding, lineEndingView_text] at searched
    obtain ⟨filled, inside, same⟩ := findAllRanges_found searched range member
    exact ⟨⟨filled, lineEndingUnits_length 0 text ▸ inside⟩, fun _ => same, fun fuzzy => (by cases fuzzy)⟩

theorem range_start_zero {range : TextRange} (inside : Inside text range) (first : range.start = 0) :
    ((createLineEndingView text).range range).start = 0 := by
  obtain ⟨filled, bound⟩ := inside
  have occupied : lineEndingUnits 0 text ≠ [] := List.ne_nil_of_length_pos (by omega)
  rw [lineEnding_range (by omega) (by omega)]
  simp only [first, ← List.head_eq_getElem_zero occupied]
  exact ((lineEndingUnits_tiled 0 text).ends occupied).1

theorem allowedRanges_spec {found : List TextRange} {range : TextRange}
    (member : range ∈ allowedRanges target operation found) : range ∈ found ∧
      (operation.old_string.head? = some BOM → target.hasBom = true ∧ range.start = 0) := by
  simp only [allowedRanges] at member
  split at member
  next marked =>
    split at member
    next has =>
      obtain ⟨listed, first⟩ := List.mem_filter.mp member
      exact ⟨listed, fun _ => ⟨has, by simpa using first⟩⟩
    next => cases member
  next unmarked => exact ⟨member, fun marked => absurd marked unmarked⟩

theorem addReplacements_spec {editIndex : Nat} {plan after : Plan} {mode : MatchMode} {ranges : List TextRange}
    (returned : addReplacements target operation editIndex plan mode ranges = .ok after) :
    ∃ added, after.replacements = plan.replacements ++ added ∧ ∀ replacement ∈ added, ∃ range ∈ ranges,
      replacement = ⟨editIndex, (target.lineEndingView.range range).start, (target.lineEndingView.range range).stop,
        replacementText target operation (target.lineEndingView.range range).start, mode⟩ := by
  simp only [addReplacements] at returned
  have kept : (if operation.replace_all then ranges else ranges.take 1) ⊆ ranges := by
    split
    · exact List.Subset.refl _
    · exact List.take_subset ..
  generalize (if operation.replace_all then ranges else ranges.take 1) = chosen at kept returned
  split at returned
  · cases returned
  cases returned
  refine ⟨_, rfl, fun replacement member => ?_⟩
  obtain ⟨raw, listed, rfl⟩ := List.mem_map.mp member
  obtain ⟨range, picked, rfl⟩ := List.mem_map.mp listed
  exact ⟨range, kept picked, rfl⟩

theorem planOperation_spec {editIndex : Nat} {plan after : Plan} (views : Views unicode text target)
    (returned : planOperation unicode target operation editIndex plan = .ok after) :
    ∃ added, after.replacements = plan.replacements ++ added ∧ ∀ replacement ∈ added,
      replacement.editIndex = editIndex ∧ Justified unicode target text operation replacement := by
  simp only [planOperation] at returned
  split at returned
  · cases returned
  split at returned
  · cases returned
  obtain ⟨⟨mode, found⟩, matched, returned⟩ := of_ok_bind returned
  simp only at returned
  split at returned
  · cases returned
  split at returned
  · cases returned
  obtain ⟨added, same, shapes⟩ := addReplacements_spec returned
  refine ⟨added, same, fun replacement member => ?_⟩
  obtain ⟨range, allowed, rfl⟩ := shapes replacement member
  obtain ⟨listed, marked⟩ := allowedRanges_spec allowed
  obtain ⟨inside, exact, fuzzy⟩ := matchRanges_spec views matched range listed
  have stands := lineEnding_stands inside.filled (lineEndingUnits_length 0 text ▸ inside.inside)
  rw [views.lineEnding]
  refine ⟨rfl, rfl, fun bom => ⟨(marked bom).1, range_start_zero inside (marked bom).2⟩, stands.start_lt, stands.stop_le,
    fun mode => stands.normalized.trans (exact mode), fuzzy, stands.start_whole, stands.stop_whole⟩

theorem planOperations_spec {operations : List EditOperation} {editIndex : Nat} {plan after : Plan}
    (views : Views unicode text target) (returned : planOperations unicode target operations editIndex plan = .ok after) :
    ∃ added, after.replacements = plan.replacements ++ added ∧ ∀ replacement ∈ added, ∃ offset operation,
      replacement.editIndex = editIndex + offset ∧ operations[offset]? = some operation ∧
        Justified unicode target text operation replacement := by
  induction operations generalizing editIndex plan with
  | nil =>
    cases returned
    exact ⟨[], (List.append_nil _).symm, fun _ member => by cases member⟩
  | cons operation rest ih =>
    obtain ⟨next, first, returned⟩ := of_ok_bind returned
    obtain ⟨own, same, justified⟩ := planOperation_spec views first
    obtain ⟨added, later, others⟩ := ih returned
    refine ⟨own ++ added, by rw [later, same, List.append_assoc], fun replacement member => ?_⟩
    cases List.mem_append.mp member with
    | inl member => exact ⟨0, operation, (justified replacement member).1, rfl, (justified replacement member).2⟩
    | inr member =>
      obtain ⟨offset, found, index, listed, justified⟩ := others replacement member
      exact ⟨offset + 1, found, by omega, listed, justified⟩

end Planning

theorem checkOverlaps_apart {path : String} {planned : List PlannedReplacement} {high low : Nat}
    (checked : checkOverlaps path planned = .ok ()) (first : ∀ replacement ∈ planned.head?, low ≤ replacement.start)
    (filled : ∀ replacement ∈ planned, replacement.start < replacement.stop ∧ replacement.stop ≤ high) (le : low ≤ high) :
    Apart PlannedReplacement.start PlannedReplacement.stop high low planned := by
  induction planned generalizing low with
  | nil => exact le
  | cons previous rest ih =>
    have own := filled previous (List.mem_cons_self ..)
    refine ⟨first previous rfl, Nat.le_of_lt own.1, ?_⟩
    have others : ∀ replacement ∈ rest, replacement.start < replacement.stop ∧ replacement.stop ≤ high :=
      fun other member => filled other (List.mem_cons_of_mem _ member)
    cases rest with
    | nil => exact own.2
    | cons current later =>
      simp only [checkOverlaps] at checked
      split at checked
      · cases checked
      next apart =>
        refine ih checked (fun replacement head => ?_) others own.2
        cases head
        omega

theorem applyFrom_splice (content : Text) (cursor : Nat) (replacements : List PlannedReplacement) :
    applyFrom content cursor replacements =
      splice PlannedReplacement.start PlannedReplacement.stop PlannedReplacement.newText content cursor replacements := by
  induction replacements generalizing cursor with
  | nil => rfl
  | cons replacement rest ih => rw [applyFrom, splice, ih, slice]

/-- The plan of a file: its replacements are in order and apart, and each one is justified. -/
structure Planned (unicode : Unicode) (target : Target) (text : Text) (operations : List EditOperation) (plan : Plan) :
    Prop where
  apart : Apart PlannedReplacement.start PlannedReplacement.stop text.length 0 plan.replacements
  justified : ∀ replacement ∈ plan.replacements, ∃ operation, operations[replacement.editIndex]? = some operation ∧
    Justified unicode target text operation replacement

theorem planReplacements_planned {unicode : Unicode} {text : Text} {operations : List EditOperation} {path : String}
    {lineEnding : LineEnding} {hasBom : Bool} {plan : Plan}
    (returned : planReplacements unicode text operations path lineEnding hasBom = .ok plan) :
    Planned unicode (targetOf unicode text operations path lineEnding hasBom) text operations plan := by
  have views : Views unicode text (targetOf unicode text operations path lineEnding hasBom) :=
    ⟨rfl, congrArg (createFuzzyView unicode) (lineEndingView_text text)⟩
  obtain ⟨unsorted, collected, returned⟩ := of_ok_bind returned
  obtain ⟨_, checked, same⟩ := of_ok_bind returned
  cases same
  obtain ⟨added, shape, justified⟩ := planOperations_spec views collected
  simp only [List.nil_append] at shape
  have each : ∀ replacement ∈ byPosition.sort unsorted.replacements, ∃ operation,
      operations[replacement.editIndex]? = some operation ∧
        Justified unicode (targetOf unicode text operations path lineEnding hasBom) text operation replacement := by
    intro replacement member
    rw [Comparator.mem_sort, shape] at member
    obtain ⟨offset, operation, index, found, justified⟩ := justified replacement member
    exact ⟨operation, by rw [index, Nat.zero_add, found], justified⟩
  refine ⟨checkOverlaps_apart checked (fun _ _ => Nat.zero_le _) (fun replacement member => ?_) (Nat.zero_le _), each⟩
  obtain ⟨operation, _, justified⟩ := each replacement member
  exact ⟨justified.filled, justified.inside⟩

theorem stripBom_parts (content : Text) : content = (stripBom content).1 ++ (stripBom content).2 := by
  unfold stripBom
  split
  next marked =>
    obtain ⟨rest, rfl⟩ := List.head?_eq_some_iff.mp marked
    rfl
  next => rfl

/-- What is returned is the file with the planned replacements made in the text behind its mark. -/
theorem edits_confined {unicode : Unicode} {content : Text} {operations : List EditOperation} {path : String}
    {applied : AppliedWorkspaceEdits} (returned : applyWorkspaceEdits unicode content operations path = .ok applied) :
    ∃ bom text updated plan, stripBom content = (bom, text) ∧ content = bom ++ text ∧ applied.updatedContent = bom ++ updated ∧
      planReplacements unicode text operations path (detectLineEnding text) (bom.length > 0) = .ok plan ∧
      Spliced PlannedReplacement.start PlannedReplacement.stop PlannedReplacement.newText 0 text plan.replacements updated ∧
      ∀ replacement ∈ plan.replacements, ∃ operation, operations[replacement.editIndex]? = some operation ∧
        Justified unicode (targetOf unicode text operations path (detectLineEnding text) (bom.length > 0)) text
          operation replacement := by
  simp only [applyWorkspaceEdits] at returned
  split at returned
  · cases returned
  obtain ⟨plan, planned, returned⟩ := of_ok_bind returned
  split at returned
  · cases returned
  split at returned
  · cases returned
  cases returned
  obtain ⟨apart, justified⟩ := planReplacements_planned planned
  refine ⟨(stripBom content).1, (stripBom content).2, _, plan, rfl, stripBom_parts content, rfl, planned, ?_, justified⟩
  rw [applyPlannedReplacements, applyFrom_splice]
  exact spliced_splice apart

def accented : Text → List Text
  | [] => []
  | unit :: rest =>
    match accented rest with
    | (0x301 :: grapheme) :: later => (unit :: 0x301 :: grapheme) :: later
    | later => [unit] :: later

/-- `e` and an acute accent are one letter. -/
def composed : Text → Text
  | [] => []
  | unit :: rest =>
    match composed rest with
    | 0x301 :: later => if unit = 0x65 then 0xE9 :: later else unit :: 0x301 :: later
    | later => unit :: later

theorem accented_flatten (text : Text) : (accented text).flatten = text := by
  induction text with
  | nil => rfl
  | cons unit rest ih =>
    simp only [accented]
    split
    next same =>
      rw [same] at ih
      simp [← ih]
    next => simp [ih]

theorem accented_filled (text : Text) : ∀ grapheme ∈ accented text, grapheme ≠ [] := by
  induction text with
  | nil =>
    intro grapheme member
    cases member
  | cons unit rest ih =>
    intro grapheme member
    simp only [accented] at member
    split at member
    next same =>
      cases List.mem_cons.mp member with
      | inl same => simp [same]
      | inr member => exact ih grapheme (by rw [same]; exact List.mem_cons_of_mem _ member)
    next =>
      cases List.mem_cons.mp member with
      | inl same => simp [same]
      | inr member => exact ih grapheme member

def acute : Unicode := ⟨composed, accented, accented_flatten, accented_filled⟩

/-- A file with a mark, an accent in two characters and mixed line endings, edited twice. -/
def sampleContent : Text := BOM :: (units "cafe" ++ 0x301 :: units " \r\nbar\r\nend\n")

def sampleEdits : List EditOperation :=
  [⟨units "bar\nend", units "x\ny", false⟩, ⟨units "caf" ++ [0xE9], units "tea", false⟩]

theorem edits_confined_sample : ∃ applied, applyWorkspaceEdits acute sampleContent sampleEdits "f" = .ok applied ∧
    applied.updatedContent = BOM :: units "tea \r\nx\r\ny\n" ∧
    ∃ bom text updated plan, stripBom sampleContent = (bom, text) ∧ sampleContent = bom ++ text ∧
      applied.updatedContent = bom ++ updated ∧
      planReplacements acute text sampleEdits "f" (detectLineEnding text) (bom.length > 0) = .ok plan ∧
      Spliced PlannedReplacement.start PlannedReplacement.stop PlannedReplacement.newText 0 text plan.replacements updated ∧
      ∀ replacement ∈ plan.replacements, ∃ operation, sampleEdits[replacement.editIndex]? = some operation ∧
        Justified acute (targetOf acute text sampleEdits "f" (detectLineEnding text) (bom.length > 0)) text
          operation replacement := by
  have result : (applyWorkspaceEdits acute sampleContent sampleEdits "f").toOption.map (·.updatedContent) =
      some (BOM :: units "tea \r\nx\r\ny\n") := by decide +kernel
  cases outcome : applyWorkspaceEdits acute sampleContent sampleEdits "f" with
  | error message =>
    rw [outcome] at result
    cases result
  | ok applied =>
    rw [outcome] at result
    exact ⟨applied, rfl, Option.some.inj result, edits_confined outcome⟩

/-- An exact match may end between a letter and its accent. -/
theorem exact_match_cuts : ¬ ∀ (unicode : Unicode) (content : Text) (operations : List EditOperation) (path : String)
    (applied : AppliedWorkspaceEdits), applyWorkspaceEdits unicode content operations path = .ok applied →
    ∃ bom text plan, stripBom content = (bom, text) ∧
      planReplacements unicode text operations path (detectLineEnding text) (bom.length > 0) = .ok plan ∧
      ∀ replacement ∈ plan.replacements, ∀ grapheme ∈ graphemes unicode text,
        ¬ (grapheme.start < replacement.start ∧ replacement.start < grapheme.stop) ∧
        ¬ (grapheme.start < replacement.stop ∧ replacement.stop < grapheme.stop) := by
  intro claimed
  have result : (applyWorkspaceEdits acute [0x65, 0x301, 0x78] [⟨[0x65], [0x61], false⟩] "f").isOk = true := by decide +kernel
  have planned : (planReplacements acute [0x65, 0x301, 0x78] [⟨[0x65], [0x61], false⟩] "f" .lf false).toOption.map
      (·.replacements) = some [⟨0, 0, 1, [0x61], .exact⟩] := by decide +kernel
  have whole : (⟨0, 2⟩ : TextRange) ∈ graphemes acute [0x65, 0x301, 0x78] := by decide +kernel
  cases outcome : applyWorkspaceEdits acute [0x65, 0x301, 0x78] [⟨[0x65], [0x61], false⟩] "f" with
  | error message =>
    rw [outcome] at result
    cases result
  | ok applied =>
    obtain ⟨bom, text, plan, parts, returned, uncut⟩ := claimed acute _ _ "f" applied outcome
    cases parts
    have same : (planReplacements acute [0x65, 0x301, 0x78] [⟨[0x65], [0x61], false⟩] "f" .lf false) = .ok plan := returned
    rw [same] at planned
    have replacements : plan.replacements = [⟨0, 0, 1, [0x61], .exact⟩] := Option.some.inj planned
    exact (uncut ⟨0, 0, 1, [0x61], .exact⟩ (by simp [replacements]) ⟨0, 2⟩ whole).2 (by decide)

end AgentSaas.Proofs.EditOperations
