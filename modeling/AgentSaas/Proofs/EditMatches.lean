import AgentSaas.Needles
import AgentSaas.Proofs.EditOperations

/-! What an edit that is meant for one place may match. The matches are counted by a scan from the
left; a match that overlaps one it has found is not seen. -/

namespace AgentSaas.Proofs.EditMatches
open AgentSaas.EditOperations EditOperations EditViews Needles Outcomes ToolCallRepair

section Scan

variable {content needle : Text}

theorem indexFrom_first {pattern rest : Text} {offset : Nat} :
    (∀ found, indexFrom pattern offset rest = some found → ∀ place, offset ≤ place → place < found → ¬ Occurs rest pattern (place - offset)) ∧
      (indexFrom pattern offset rest = none → ∀ place, ¬ Occurs rest pattern place) := by
  induction rest generalizing offset with
  | nil =>
    unfold indexFrom
    split
    next =>
      refine ⟨fun found same place after before => ?_, fun wrong => by cases wrong⟩
      have place : offset = found := Option.some.inj same
      omega
    next filled =>
      refine ⟨fun _ wrong => (by cases wrong), fun _ place occurs => filled ?_⟩
      rw [Occurs, List.drop_nil] at occurs
      exact List.isEmpty_iff.mpr (List.prefix_nil.mp occurs)
  | cons char rest ih =>
    unfold indexFrom
    split
    next =>
      refine ⟨fun found same place after before => ?_, fun wrong => by cases wrong⟩
      have place : offset = found := Option.some.inj same
      omega
    next other =>
      have absent : ¬ Occurs (char :: rest) pattern 0 := fun occurs => other (List.isPrefixOf_iff_prefix.mpr occurs)
      obtain ⟨first, never⟩ := @ih (offset + 1)
      refine ⟨fun found same place after before => ?_, fun none place => ?_⟩
      · by_cases here : place = offset
        · rw [here, Nat.sub_self]
          exact absent
        · have step : place - offset = place - (offset + 1) + 1 := by omega
          rw [step, occurs_cons]
          exact first found same place (by omega) before
      · cases place with
        | zero => exact absent
        | succ place =>
          rw [occurs_cons]
          exact never none place

theorem occurs_drop {start place : Nat} (after : start ≤ place) :
    Occurs (content.drop start) needle (place - start) ↔ Occurs content needle place := by
  rw [Occurs, Occurs, List.drop_drop, Nat.add_sub_cancel' after]

structure Scanned (content needle : Text) (start : Nat) (ranges : List TextRange) : Prop where
  mem_iff : ∀ range, range ∈ ranges ↔ start ≤ range.start ∧ Stops content needle range.start ∧ range.stop = range.start + needle.length
  sorted : ranges.Pairwise (·.start < ·.start)

def Passed (content needle : Text) (start : Nat) : Prop := ∀ stop, Stops content needle stop → stop < start → stop + needle.length ≤ start

theorem scanned_nil {start : Nat} (absent : ∀ place, start ≤ place → ¬ Occurs content needle place) : Scanned content needle start [] :=
  ⟨fun _ => ⟨nofun, fun found => absurd found.2.1.occurs (absent _ found.1)⟩, .nil⟩

theorem findRangesFrom_scanned {filled : 0 < needle.length} {found start : Nat} {ranges : List TextRange}
    (returned : findRangesFrom content needle filled found start = .ok ranges) (passed : Passed content needle start) :
    Scanned content needle start ranges := by
  fun_induction findRangesFrom content needle filled found start generalizing ranges with
  | case1 found start inside missed =>
    cases returned
    refine scanned_nil fun place after => ?_
    rw [← occurs_drop after]
    exact indexFrom_first.2 missed _
  | case2 found start inside first hit many => cases returned
  | case3 found start inside first hit room ih =>
    obtain ⟨later, searched, same⟩ := of_ok_bind returned
    cases same
    obtain ⟨after, here⟩ := ToolCallPrefixes.prefix_of_indexOf hit
    have absent (place : Nat) (from_start : start ≤ place) (before : place < first) : ¬ Occurs content needle place := by
      rw [← occurs_drop from_start]
      exact indexFrom_first.1 first hit place from_start before
    have stops : Stops content needle first := by
      rw [Stops]
      refine ⟨here, fun earlier before stop => ?_⟩
      by_cases old : earlier < start
      · have behind := passed earlier stop old
        omega
      · exact absurd stop.occurs (absent earlier (by omega) before)
    have next : Passed content needle (first + needle.length) := by
      intro stop found before
      rcases Nat.lt_trichotomy stop first with early | same | late
      · have behind := found.apart stops early
        omega
      · omega
      · have behind := stops.apart found late
        omega
    obtain ⟨members, sorted⟩ := ih searched next
    refine ⟨fun range => ?_, List.pairwise_cons.mpr ⟨fun other member => ?_, sorted⟩⟩
    · rw [List.mem_cons, members]
      constructor
      · rintro (rfl | ⟨behind, stop, length⟩)
        · exact ⟨after, stops, rfl⟩
        · exact ⟨by omega, stop, length⟩
      · intro inside
        obtain ⟨from_start, stop, length⟩ := inside
        rcases Nat.lt_trichotomy range.start first with early | same | late
        · exact absurd stop.occurs (absent _ from_start early)
        · refine .inl ?_
          cases range
          simp only at same length
          rw [length, same]
        · exact .inr ⟨stops.apart stop late, stop, length⟩
    · have behind := ((members other).mp member).1
      simp only
      omega
  | case4 found start outside =>
    cases returned
    refine scanned_nil fun place after occurs => ?_
    have bounded := occurs.bounded (List.length_pos_iff.mp filled)
    omega

theorem findAllRanges_scanned {ranges : List TextRange} (filled : needle ≠ []) (returned : findAllRanges content needle = .ok ranges) :
    Scanned content needle 0 ranges := by
  unfold findAllRanges at returned
  rw [dif_pos (List.length_pos_iff.mpr filled)] at returned
  exact findRangesFrom_scanned returned fun _ _ before => absurd before (Nat.not_lt_zero _)

theorem alone_of_scanned {ranges : List TextRange} (scanned : Scanned content needle 0 ranges) (kind : TextRange → Bool) {range : TextRange}
    (one : ranges.filter kind = [range]) (place : Nat) :
    Stops content needle place ∧ kind ⟨place, place + needle.length⟩ = true ↔ place = range.start := by
  have member : range ∈ ranges.filter kind := one ▸ List.mem_singleton_self range
  obtain ⟨listed, own⟩ := List.mem_filter.mp member
  obtain ⟨_, stop, length⟩ := (scanned.mem_iff range).mp listed
  constructor
  · intro ⟨stops, kept⟩
    have found : (⟨place, place + needle.length⟩ : TextRange) ∈ ranges.filter kind :=
      List.mem_filter.mpr ⟨(scanned.mem_iff _).mpr ⟨Nat.zero_le _, stops, rfl⟩, kept⟩
    rw [one] at found
    exact congrArg TextRange.start (List.mem_singleton.mp found)
  · rintro rfl
    refine ⟨stop, ?_⟩
    rw [← length]
    exact own

end Scan

def Led (operation : EditOperation) : Prop := operation.old_string.head? = some BOM

def Exact (content : Text) (operation : EditOperation) (place : Nat) : Prop :=
  Occurs (normalizeToLf content) (normalizeToLf operation.old_string) place

section Matching

variable (unicode : Unicode) (content : Text) (operation : EditOperation)

def fuzzyViewOf : FuzzyView := createFuzzyView unicode (normalizeToLf (stripBom content).2)

def fuzzyOldText : Text := normalizeForFuzzyMatch unicode (oldTextOf operation)

/-- It begins and ends where units of the view do. -/
def whole (view : FuzzyView) (range : TextRange) : Bool := !startsInsideMappedUnit view range && !endsInsideMappedUnit view range

/-- A place of the fuzzy view that matches. What begins with the mark matches where the file does. -/
structure Fuzzy (place : Nat) : Prop where
  occurs : Occurs (fuzzyViewOf unicode content).text (fuzzyOldText unicode operation) place
  filled : fuzzyOldText unicode operation ≠ []
  whole : whole (fuzzyViewOf unicode content) ⟨place, place + (fuzzyOldText unicode operation).length⟩ = true
  marked : Led operation → content.head? = some BOM ∧ (fuzzyViewOf unicode content).starts.getD place 0 = 0

/-- There is one exact match, or there is none and one fuzzy match. -/
def Unambiguous : Prop :=
  (∃ place, Exact content operation place ∧ ∀ other, Exact content operation other → other = place) ∨
    (∀ place, ¬ Exact content operation place) ∧
      ∃ place, Fuzzy unicode content operation place ∧ ∀ other, Fuzzy unicode content operation other → other = place

/-- No match is hidden from the scan, nor from the search at the beginning of the file. -/
structure Clear : Prop where
  exact : ∀ place, Exact content operation place →
    ¬ Hidden (normalizeToLf content) (normalizeToLf operation.old_string) place ∧ (Led operation → place = 0)
  fuzzy : (∀ place, ¬ Exact content operation place) → ∀ place, Fuzzy unicode content operation place →
    ¬ Hidden (fuzzyViewOf unicode content).text (fuzzyOldText unicode operation) place

end Matching

section Marks

variable {content : Text} {operation : EditOperation}

theorem normalizeToLf_bom (text : Text) : normalizeToLf (BOM :: text) = BOM :: normalizeToLf text := by
  have apart : ¬ AtCrLf BOM text := fun pair => absurd pair.1 (by decide)
  rw [normalizeToLf_single apart, if_neg (by decide)]

theorem normalizeToLf_head {first : Nat} {rest : Text} (other : first ≠ BOM) : (normalizeToLf (first :: rest)).head? ≠ some BOM := by
  by_cases pair : AtCrLf first rest
  · obtain ⟨rfl, next⟩ := pair
    obtain ⟨later, rfl⟩ := List.head?_eq_some_iff.mp next
    rw [normalizeToLf_pair]
    exact fun same => absurd (Option.some.inj same) (by decide)
  · rw [normalizeToLf_single pair]
    split
    · exact fun same => absurd (Option.some.inj same) (by decide)
    · exact fun same => other (Option.some.inj same)

theorem stripBom_led {text : Text} (led : text.head? = some BOM) : text = BOM :: (stripBom text).2 := by
  obtain ⟨rest, rfl⟩ := List.head?_eq_some_iff.mp led
  rfl

theorem stripBom_plain {text : Text} (plain : text.head? ≠ some BOM) : (stripBom text).2 = text := by
  rw [stripBom, if_neg plain]

theorem stripBom_length (content : Text) : decide ((stripBom content).1.length > 0) = decide (content.head? = some BOM) := by
  unfold stripBom
  split <;> simp_all

theorem old_led (led : Led operation) : normalizeToLf operation.old_string = BOM :: oldTextOf operation := by
  rw [oldTextOf, ← normalizeToLf_bom, ← stripBom_led led]

theorem old_plain (plain : ¬ Led operation) : normalizeToLf operation.old_string = oldTextOf operation := by
  rw [oldTextOf, stripBom_plain plain]

theorem old_head (plain : ¬ Led operation) : (oldTextOf operation).head? ≠ some BOM := by
  rw [← old_plain plain]
  cases same : operation.old_string with
  | nil => exact nofun
  | cons first rest =>
    refine normalizeToLf_head fun mark => plain ?_
    rw [Led, same, mark]
    rfl

theorem stops_text (plain : ¬ Led operation) (filled : oldTextOf operation ≠ []) {stop : Nat}
    (alone : ∀ place, Stops (normalizeToLf (stripBom content).2) (oldTextOf operation) place ↔ place = stop) :
    ∃ found, ∀ place, Stops (normalizeToLf content) (normalizeToLf operation.old_string) place ↔ place = found := by
  rw [old_plain plain]
  by_cases marked : content.head? = some BOM
  · rw [stripBom_led marked, normalizeToLf_bom]
    have absent : ¬ Occurs (BOM :: normalizeToLf (stripBom content).2) (oldTextOf operation) 0 := by
      intro occurs
      obtain ⟨first, rest, same⟩ := List.exists_cons_of_ne_nil filled
      obtain ⟨behind, parts⟩ := occurs
      have head := old_head plain
      rw [same] at parts head
      exact head (congrArg List.head? parts)
    refine ⟨stop + 1, fun place => ?_⟩
    cases place with
    | zero => exact ⟨fun stops => absurd stops.occurs absent, fun wrong => absurd wrong (Nat.succ_ne_zero stop).symm⟩
    | succ place =>
      rw [stops_cons absent, alone]
      omega
  · rw [stripBom_plain marked] at alone
    exact ⟨stop, alone⟩

end Marks

/-! What is known of an operation that has been planned. -/

section Planning

variable {unicode : Unicode} {target : Target} {operation : EditOperation}

theorem planOperations_each {operations : List EditOperation} {editIndex : Nat} {plan after : Plan}
    (returned : planOperations unicode target operations editIndex plan = .ok after) :
    ∀ operation ∈ operations, ∃ editIndex plan after, planOperation unicode target operation editIndex plan = .ok after := by
  induction operations generalizing editIndex plan with
  | nil => exact nofun
  | cons operation rest ih =>
    obtain ⟨next, first, returned⟩ := of_ok_bind returned
    intro other member
    rcases List.mem_cons.mp member with rfl | member
    · exact ⟨editIndex, plan, next, first⟩
    · exact ih returned other member

theorem planOperation_single {editIndex : Nat} {plan after : Plan} (returned : planOperation unicode target operation editIndex plan = .ok after)
    (single : operation.replace_all = false) : oldTextOf operation ≠ [] ∧ ∃ mode found range,
      matchRanges unicode target (oldTextOf operation) = .ok (mode, found) ∧ allowedRanges target operation found = [range] := by
  simp only [planOperation] at returned
  split at returned
  · cases returned
  next filled =>
    refine ⟨fun empty => filled (by rw [empty]; rfl), ?_⟩
    split at returned
    · cases returned
    obtain ⟨⟨mode, found⟩, matched, returned⟩ := of_ok_bind returned
    simp only at returned
    split at returned
    · cases returned
    next some =>
      split at returned
      · cases returned
      next few =>
        rw [single, Bool.not_false, Bool.true_and, decide_eq_true_eq] at few
        rw [List.isEmpty_iff] at some
        have positive := List.length_pos_iff.mpr some
        have one : (allowedRanges target operation found).length = 1 := by omega
        obtain ⟨range, same⟩ := List.length_eq_one_iff.mp one
        exact ⟨mode, found, range, matched, same⟩

theorem matchRanges_cases {oldText : Text} {mode : MatchMode} {found : List TextRange}
    (returned : matchRanges unicode target oldText = .ok (mode, found)) :
    findAllRanges target.lineEndingView.text oldText = .ok found ∧ found ≠ [] ∨
      findAllRanges target.lineEndingView.text oldText = .ok [] ∧ fuzzyRanges unicode target.fuzzyView oldText = .ok found := by
  simp only [matchRanges] at returned
  obtain ⟨exact, searched, same⟩ := of_ok_bind returned
  split at same
  next empty =>
    obtain ⟨fuzzy, other, same⟩ := of_ok_bind same
    cases same
    rw [List.isEmpty_iff.mp empty] at searched
    exact .inr ⟨searched, other⟩
  next some =>
    cases same
    exact .inl ⟨searched, fun empty => some (by rw [empty]; rfl)⟩

theorem fuzzyRanges_hits {view : FuzzyView} {oldText : Text} {found : List TextRange}
    (returned : fuzzyRanges unicode view oldText = .ok found) (some : found ≠ []) :
    normalizeForFuzzyMatch unicode oldText ≠ [] ∧ ∃ hits, findAllRanges view.text (normalizeForFuzzyMatch unicode oldText) = .ok hits ∧
      found = (hits.filter (whole view)).map view.range := by
  simp only [fuzzyRanges] at returned
  split at returned
  · cases returned
    exact absurd rfl some
  next filled =>
    obtain ⟨hits, searched, same⟩ := of_ok_bind returned
    cases same
    exact ⟨fun empty => filled (by rw [empty]; rfl), hits, searched, rfl⟩

theorem allowedRanges_plain (plain : ¬ Led operation) (found : List TextRange) : allowedRanges target operation found = found := if_neg plain

end Planning

theorem place_zero {unicode : Unicode} {content : Text} {operation : EditOperation} {place : Nat} (fuzzy : Fuzzy unicode content operation place)
    (begins : (fuzzyViewOf unicode content).starts.getD place 0 = 0) : place = 0 := by
  by_contra later
  have bounded := fuzzy.occurs.bounded fuzzy.filled
  have positive := List.length_pos_iff.mpr fuzzy.filled
  have whole := fuzzy.whole
  have spread := (@lines_laid unicode (stripBom content).2).spread
  change place + _ ≤ ((viewUnits unicode (stripBom content).2).map (·.value)).length at bounded
  rw [List.length_map] at bounded
  have order := (spread.le (i := place - 1) (j := place) (by omega) (by omega)).1
  change ((viewUnits unicode (stripBom content).2).map (·.start)).getD place 0 = 0 at begins
  rw [getD_map _ (by omega)] at begins
  simp only [EditMatches.whole, Bool.and_eq_true, Bool.not_eq_true', startsInsideMappedUnit, Bool.and_eq_false_iff,
    decide_eq_false_iff_not] at whole
  have apart := whole.1
  change ¬ place > 0 ∨ ¬ ((viewUnits unicode (stripBom content).2).map (·.start)).getD place 0 =
    ((viewUnits unicode (stripBom content).2).map (·.start)).getD (place - 1) 0 at apart
  rw [getD_map _ (by omega), getD_map _ (by omega)] at apart
  omega

section Single

variable {unicode : Unicode} {content : Text} {operation : EditOperation}

theorem exact_absent (none : ∀ place, ¬ Occurs (normalizeToLf (stripBom content).2) (oldTextOf operation) place)
    (filled : oldTextOf operation ≠ []) (place : Nat) : ¬ Exact content operation place := by
  intro exact
  unfold Exact at exact
  by_cases led : Led operation
  · rw [old_led led] at exact
    by_cases marked : content.head? = some BOM
    · rw [stripBom_led marked, normalizeToLf_bom] at exact
      cases place with
      | zero => exact none 0 (List.cons_prefix_cons.mp exact).2
      | succ place =>
        obtain ⟨rest, parts⟩ := occurs_cons BOM |>.mp exact
        refine none (place + 1) ⟨rest, ?_⟩
        rw [← List.drop_drop, ← parts]
        rfl
    · rw [stripBom_plain marked] at none
      obtain ⟨rest, parts⟩ := exact
      refine none (place + 1) ⟨rest, ?_⟩
      rw [← List.drop_drop, ← parts]
      rfl
  · obtain ⟨stop, stops⟩ := exact.found
    rw [old_plain led] at stops exact
    by_cases marked : content.head? = some BOM
    · rw [stripBom_led marked, normalizeToLf_bom] at exact
      cases place with
      | zero =>
        obtain ⟨first, rest, same⟩ := List.exists_cons_of_ne_nil filled
        obtain ⟨behind, parts⟩ := exact
        have head := old_head led
        rw [same] at parts head
        exact head (congrArg List.head? parts)
      | succ place => exact none place (occurs_cons BOM |>.mp exact)
    · rw [stripBom_plain marked] at none
      exact none place exact

theorem exact_led (led : Led operation) (marked : content.head? = some BOM)
    (begins : Occurs (normalizeToLf (stripBom content).2) (oldTextOf operation) 0) : Exact content operation 0 := by
  rw [Exact, old_led led, stripBom_led marked, normalizeToLf_bom]
  exact List.cons_prefix_cons.mpr ⟨rfl, begins⟩

theorem not_hidden_zero {content needle : Text} : ¬ Hidden content needle 0 := fun ⟨earlier, before, _⟩ => absurd before (Nat.not_lt_zero earlier)

/-- An exact match where the file begins, which is all the search for an `old_string` with the mark
counts. -/
theorem led_iff (led : Led operation) (exact : Exact content operation 0) : Unambiguous unicode content operation ↔ Clear unicode content operation := by
  constructor
  · intro unambiguous
    obtain ⟨place, _, only⟩ := unambiguous.resolve_right fun fuzzy => fuzzy.1 0 exact
    have first (other : Nat) (found : Exact content operation other) : other = 0 := (only other found).trans (only 0 exact).symm
    refine ⟨fun other found => ?_, fun none => absurd exact (none 0)⟩
    obtain rfl := first other found
    exact ⟨not_hidden_zero, fun _ => rfl⟩
  · intro clear
    exact .inl ⟨0, exact, fun other found => (clear.exact other found).2 led⟩

theorem exact_iff (plain : ¬ Led operation) {stop : Nat}
    (alone : ∀ place, Stops (normalizeToLf content) (normalizeToLf operation.old_string) place ↔ place = stop) :
    Unambiguous unicode content operation ↔ Clear unicode content operation := by
  have exact : Exact content operation stop := ((alone stop).mpr rfl).occurs
  have every (place : Nat) : Stops (normalizeToLf content) (normalizeToLf operation.old_string) place ∧ True ↔ place = stop :=
    (and_iff_left trivial).trans (alone place)
  have unique := unique_iff every
  simp only [and_true] at unique
  constructor
  · intro unambiguous
    have shown := unique.mp (unambiguous.resolve_right fun fuzzy => fuzzy.1 stop exact)
    exact ⟨fun place found => ⟨shown place found, fun led => absurd led plain⟩, fun none => absurd exact (none stop)⟩
  · intro clear
    exact .inl (unique.mpr fun place found => (clear.exact place found).1)

/-- With no exact match, the fuzzy matches are those that are whole, and at the beginning for an
`old_string` with the mark. -/
theorem fuzzy_iff (none : ∀ place, ¬ Exact content operation place) {stop : Nat} {kind : Nat → Prop}
    (kinds : ∀ place, Fuzzy unicode content operation place ↔
      Occurs (fuzzyViewOf unicode content).text (fuzzyOldText unicode operation) place ∧ kind place)
    (alone : ∀ place, Stops (fuzzyViewOf unicode content).text (fuzzyOldText unicode operation) place ∧ kind place ↔ place = stop) :
    Unambiguous unicode content operation ↔ Clear unicode content operation := by
  have unique := unique_iff alone
  simp only [← kinds] at unique
  constructor
  · intro unambiguous
    have ⟨_, one⟩ := unambiguous.resolve_left fun ⟨place, exact, _⟩ => none place exact
    exact ⟨fun place exact => absurd exact (none place), fun _ => unique.mp one⟩
  · intro clear
    exact .inr ⟨none, unique.mpr (clear.fuzzy none)⟩

theorem fuzzy_kinds (filled : fuzzyOldText unicode operation ≠ []) (marked : Led operation → content.head? = some BOM) (place : Nat) :
    Fuzzy unicode content operation place ↔ Occurs (fuzzyViewOf unicode content).text (fuzzyOldText unicode operation) place ∧
      whole (fuzzyViewOf unicode content) ⟨place, place + (fuzzyOldText unicode operation).length⟩ = true ∧
      (Led operation → (fuzzyViewOf unicode content).starts.getD place 0 = 0) :=
  ⟨fun fuzzy => ⟨fuzzy.occurs, fuzzy.whole, fun led => (fuzzy.marked led).2⟩, fun ⟨occurs, whole, begins⟩ =>
    ⟨occurs, filled, whole, fun led => ⟨marked led, begins led⟩⟩⟩

variable {operations : List EditOperation} {path : String} {lineEnding : LineEnding} {editIndex : Nat} {plan after : Plan}

theorem planned_iff (returned : planOperation unicode (targetOf unicode (stripBom content).2 operations path lineEnding
      ((stripBom content).1.length > 0)) operation editIndex plan = .ok after) (single : operation.replace_all = false) :
    Unambiguous unicode content operation ↔ Clear unicode content operation := by
  obtain ⟨filled, mode, found, range, matched, allowed⟩ := planOperation_single returned single
  have text : (createLineEndingView (stripBom content).2).text = normalizeToLf (stripBom content).2 := lineEndingView_text _
  have marks (led : Led operation) : content.head? = some BOM ∧ range ∈ found ∧ range.start = 0 := by
    have own : range ∈ allowedRanges _ operation found := allowed ▸ List.mem_singleton_self range
    obtain ⟨listed, marked⟩ := allowedRanges_spec own
    have has : decide ((stripBom content).1.length > 0) = true := (marked led).1
    rw [stripBom_length, decide_eq_true_eq] at has
    exact ⟨has, listed, (marked led).2⟩
  rcases matchRanges_cases matched with ⟨searched, _⟩ | ⟨searched, others⟩
  · have scanned := findAllRanges_scanned filled searched
    simp only [targetOf] at scanned
    rw [text] at scanned
    by_cases led : Led operation
    · obtain ⟨marked, listed, first⟩ := marks led
      obtain ⟨_, stops, _⟩ := (scanned.mem_iff range).mp listed
      rw [first] at stops
      exact led_iff led (exact_led led marked stops.occurs)
    · rw [allowedRanges_plain led] at allowed
      have every : found.filter (fun _ => true) = [range] := by rw [List.filter_true, allowed]
      have alone := alone_of_scanned scanned (fun _ => true) every
      simp only [and_true] at alone
      obtain ⟨stop, alone⟩ := stops_text led filled alone
      exact exact_iff led alone
  · have scanned := findAllRanges_scanned filled searched
    simp only [targetOf] at scanned others
    rw [text] at scanned others
    have none (place : Nat) : ¬ Occurs (normalizeToLf (stripBom content).2) (oldTextOf operation) place := by
      intro occurs
      obtain ⟨stop, stops⟩ := occurs.found
      have member := (scanned.mem_iff ⟨stop, stop + (oldTextOf operation).length⟩).mpr ⟨Nat.zero_le _, stops, rfl⟩
      cases member
    have some : found ≠ [] := by
      rintro rfl
      have own : range ∈ allowedRanges _ operation [] := allowed ▸ List.mem_singleton_self range
      cases (allowedRanges_spec own).1
    obtain ⟨needle, hits, searched, same⟩ := fuzzyRanges_hits others some
    have scanned : Scanned (fuzzyViewOf unicode content).text (fuzzyOldText unicode operation) 0 hits :=
      findAllRanges_scanned needle searched
    have kinds := @fuzzy_kinds unicode content operation needle fun led => (marks led).1
    by_cases led : Led operation
    · obtain ⟨marked, listed, first⟩ := marks led
      rw [same] at listed
      obtain ⟨hit, kept, place⟩ := List.mem_map.mp listed
      obtain ⟨listed, own⟩ := List.mem_filter.mp kept
      obtain ⟨_, stops, length⟩ := (scanned.mem_iff hit).mp listed
      have begins : (fuzzyViewOf unicode content).starts.getD hit.start 0 = 0 := (congrArg TextRange.start place).trans first
      have shape : hit = ⟨hit.start, hit.start + (fuzzyOldText unicode operation).length⟩ := by
        rw [← length]
      rw [shape] at own
      have zero := place_zero ((kinds hit.start).mpr ⟨stops.occurs, own, fun _ => begins⟩) begins
      apply fuzzy_iff (exact_absent none filled) kinds
      intro place
      constructor
      · intro ⟨stop, kind⟩
        exact place_zero ((kinds place).mpr ⟨stop.occurs, kind⟩) (kind.2 led)
      · rintro rfl
        rw [zero] at stops own begins
        exact ⟨stops, own, fun _ => begins⟩
    · rw [allowedRanges_plain led, same] at allowed
      obtain ⟨hit, one, _⟩ := List.map_eq_singleton_iff.mp allowed
      have alone := alone_of_scanned scanned (whole (fuzzyViewOf unicode content)) one
      apply fuzzy_iff (exact_absent none filled) kinds
      intro place
      rw [← alone place]
      exact and_congr_right fun _ => and_iff_left fun marked => absurd marked led

end Single

/-- An edit that is meant for one place has one match exactly when none is hidden. -/
theorem unambiguous_iff {unicode : Unicode} {content : Text} {operations : List EditOperation} {path : String}
    {applied : AppliedWorkspaceEdits} {operation : EditOperation} (returned : applyWorkspaceEdits unicode content operations path = .ok applied)
    (member : operation ∈ operations) (single : operation.replace_all = false) :
    Unambiguous unicode content operation ↔ Clear unicode content operation := by
  obtain ⟨bom, text, _, plan, stripped, _, _, planned, _⟩ := edits_confined returned
  obtain ⟨unsorted, collected, _⟩ := of_ok_bind planned
  obtain ⟨editIndex, before, after, own⟩ := planOperations_each collected operation member
  obtain rfl : (stripBom content).1 = bom := congrArg Prod.fst stripped
  obtain rfl : (stripBom content).2 = text := congrArg Prod.snd stripped
  exact planned_iff own single

theorem unambiguous_iff_sample : ∃ applied, applyWorkspaceEdits acute sampleContent sampleEdits "f" = .ok applied ∧
    (Unambiguous acute sampleContent ⟨units "bar\nend", units "x\ny", false⟩ ↔ Clear acute sampleContent ⟨units "bar\nend", units "x\ny", false⟩) := by
  have result : (applyWorkspaceEdits acute sampleContent sampleEdits "f").isOk = true := by decide +kernel
  cases outcome : applyWorkspaceEdits acute sampleContent sampleEdits "f" with
  | error message =>
    rw [outcome] at result
    cases result
  | ok applied => exact ⟨applied, rfl, unambiguous_iff outcome List.mem_cons_self rfl⟩

/-- Of two matches that overlap the second is not seen. -/
theorem overlapping_match_edited : ∃ applied, applyWorkspaceEdits acute (units "aaa") [⟨units "aa", units "b", false⟩] "f" = .ok applied ∧
    applied.updatedContent = units "ba" ∧ ¬ Unambiguous acute (units "aaa") ⟨units "aa", units "b", false⟩ := by
  have result : (applyWorkspaceEdits acute (units "aaa") [⟨units "aa", units "b", false⟩] "f").toOption.map (·.updatedContent) =
      some (units "ba") := by decide +kernel
  have first : Exact (units "aaa") ⟨units "aa", units "b", false⟩ 0 := ⟨units "a", rfl⟩
  have second : Exact (units "aaa") ⟨units "aa", units "b", false⟩ 1 := ⟨[], rfl⟩
  cases outcome : applyWorkspaceEdits acute (units "aaa") [⟨units "aa", units "b", false⟩] "f" with
  | error message =>
    rw [outcome] at result
    cases result
  | ok applied =>
    rw [outcome] at result
    refine ⟨applied, rfl, Option.some.inj result, ?_⟩
    rintro (⟨place, _, only⟩ | ⟨none, _⟩)
    · exact absurd ((only 0 first).trans (only 1 second).symm) (by decide)
    · exact none 0 first

end AgentSaas.Proofs.EditMatches
