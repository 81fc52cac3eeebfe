import AgentSaas.Proofs.EditOperations

/-! The line endings of an edited file. What is kept of the file and what is put in are both made
of lines with the ending of the file, and no place between them is inside an ending. -/

namespace AgentSaas.Proofs.LineEndings
open AgentSaas.EditOperations EditOperations EditViews Spans ToolCallRepair

inductive Break | crlf | cr | lf
  deriving DecidableEq, Repr

def breakOf : LineEnding → Break
  | .crlf => .crlf
  | .lf => .lf

/-- The line endings of a text in their order. -/
def breaks : Text → List Break
  | [] => []
  | [first] => if first = CR then [.cr] else if first = LF then [.lf] else []
  | first :: second :: rest =>
    if first = CR then if second = LF then .crlf :: breaks rest else .cr :: breaks (second :: rest)
    else if first = LF then .lf :: breaks (second :: rest)
    else breaks (second :: rest)

abbrev Uniform (ending : LineEnding) (text : Text) : Prop := ∀ found ∈ breaks text, found = breakOf ending

theorem breaks_pair (rest : Text) : breaks (CR :: LF :: rest) = .crlf :: breaks rest := by
  rw [breaks, if_pos rfl, if_pos rfl]

theorem breaks_single {first : Nat} {rest : Text} (apart : ¬ AtCrLf first rest) :
    breaks (first :: rest) = if first = CR then .cr :: breaks rest else if first = LF then .lf :: breaks rest else breaks rest := by
  cases rest with
  | nil =>
    rw [breaks]
    rfl
  | cons second later =>
    rw [breaks]
    split
    next carriage =>
      rw [if_neg fun line => apart ⟨carriage, congrArg some line⟩]
    next => rfl

/-- A line of the text ends in this way and in no other. -/
def Written (ending : LineEnding) (text : Text) : Prop := ∃ plain, CR ∉ plain ∧ text = restoreLineEndings plain ending

section Written

variable {ending : LineEnding} {before after text : Text}

theorem restore_append (first second : Text) (ending : LineEnding) :
    restoreLineEndings (first ++ second) ending = restoreLineEndings first ending ++ restoreLineEndings second ending := by
  cases ending with
  | crlf => exact List.flatMap_append
  | lf => rfl

theorem restore_cons (char : Nat) (rest : Text) (ending : LineEnding) : restoreLineEndings (char :: rest) ending =
    (if ending = .crlf ∧ char = LF then [CR, LF] else [char]) ++ restoreLineEndings rest ending := by
  cases ending with
  | crlf => simp [restoreLineEndings]
  | lf => simp [restoreLineEndings]

theorem restore_nil (ending : LineEnding) : restoreLineEndings [] ending = [] := by
  cases ending <;> rfl

theorem written_nil : Written ending [] := ⟨[], nofun, (restore_nil ending).symm⟩

theorem Written.append (first : Written ending before) (second : Written ending after) : Written ending (before ++ after) := by
  obtain ⟨front, none, rfl⟩ := first
  obtain ⟨back, absent, rfl⟩ := second
  refine ⟨front ++ back, fun inside => ?_, (restore_append front back ending).symm⟩
  rcases List.mem_append.mp inside with inside | inside
  · exact none inside
  · exact absent inside

theorem written_cons {char : Nat} {rest : Text} (written : Written ending rest) (other : char ≠ CR)
    (plain : ending = .crlf → char ≠ LF) : Written ending (char :: rest) := by
  obtain ⟨back, absent, rfl⟩ := written
  refine ⟨char :: back, fun inside => ?_, ?_⟩
  · rcases List.mem_cons.mp inside with same | inside
    · exact other same.symm
    · exact absent inside
  · rw [restore_cons, if_neg fun both => plain both.1 both.2]
    rfl

/-- A text of one kind of endings falls apart into two, unless it is cut inside an ending. -/
theorem Written.split (written : Written ending (before ++ after)) (whole : ¬ CutsCrLf before after) :
    Written ending before ∧ Written ending after := by
  obtain ⟨plain, absent, same⟩ := written
  induction plain generalizing before with
  | nil =>
    rw [restore_nil] at same
    obtain ⟨rfl, rfl⟩ := List.append_eq_nil_iff.mp same
    exact ⟨written_nil, written_nil⟩
  | cons char rest ih =>
    have none : CR ∉ rest := fun inside => absent (List.mem_cons_of_mem _ inside)
    have other : char ≠ CR := fun same => absent (same ▸ List.mem_cons_self)
    cases before with
    | nil => exact ⟨written_nil, char :: rest, absent, same⟩
    | cons first later =>
      rw [restore_cons] at same
      by_cases pair : ending = .crlf ∧ char = LF
      · rw [if_pos pair] at same
        obtain ⟨rfl, behind⟩ := List.cons.inj same
        cases later with
        | nil =>
          have cut : after = LF :: restoreLineEndings rest ending := behind
          refine absurd ⟨rfl, ?_⟩ whole
          rw [cut]
          rfl
        | cons second later =>
          obtain ⟨line, others⟩ := List.cons.inj behind
          obtain rfl : second = LF := line
          have inner : ¬ CutsCrLf later after := fun cut => whole ⟨by
            rw [List.getLast?_cons, List.getLast?_cons, cut.1]
            rfl, cut.2⟩
          obtain ⟨front, back⟩ := ih inner none others
          have line : Written ending [CR, LF] := ⟨[LF], by decide, by rw [pair.1]; rfl⟩
          exact ⟨line.append front, back⟩
      · rw [if_neg pair] at same
        obtain ⟨head, others⟩ := List.cons.inj same
        obtain rfl : first = char := head
        have inner : ¬ CutsCrLf later after := fun cut => whole ⟨by
          rw [List.getLast?_cons, cut.1]
          rfl, cut.2⟩
        obtain ⟨front, back⟩ := ih inner none others
        exact ⟨written_cons front other fun ending line => pair ⟨ending, line⟩, back⟩

theorem uniform_iff : Uniform ending text ↔ Written ending text := by
  constructor
  · intro uniform
    induction text using crLf_induction with
    | nil => exact written_nil
    | pair rest ih =>
      unfold Uniform at uniform
      rw [breaks_pair] at uniform
      cases ending with
      | lf => exact absurd (uniform .crlf List.mem_cons_self) (by decide)
      | crlf =>
        have later := ih fun found inside => uniform found (List.mem_cons_of_mem _ inside)
        have line : Written .crlf [CR, LF] := ⟨[LF], by decide, rfl⟩
        exact line.append later
    | single first rest apart ih =>
      unfold Uniform at uniform
      rw [breaks_single apart] at uniform
      by_cases carriage : first = CR
      · rw [if_pos carriage] at uniform
        have same := uniform .cr List.mem_cons_self
        cases ending <;> cases same
      rw [if_neg carriage] at uniform
      by_cases line : first = LF
      · rw [if_pos line] at uniform
        have same := uniform .lf List.mem_cons_self
        cases ending with
        | crlf => cases same
        | lf => exact written_cons (ih fun found inside => uniform found (List.mem_cons_of_mem _ inside)) carriage nofun
      · rw [if_neg line] at uniform
        exact written_cons (ih uniform) carriage fun _ => line
  · intro ⟨plain, absent, same⟩
    subst same
    induction plain with
    | nil => cases ending <;> exact nofun
    | cons char rest ih =>
      have other : char ≠ CR := fun same => absent (same ▸ List.mem_cons_self)
      have later := ih fun inside => absent (List.mem_cons_of_mem _ inside)
      unfold Uniform at later ⊢
      rw [restore_cons]
      split
      next pair =>
        obtain ⟨rfl, rfl⟩ := pair
        change ∀ found ∈ breaks (CR :: LF :: restoreLineEndings rest .crlf), _
        rw [breaks_pair]
        exact List.forall_mem_cons.mpr ⟨rfl, later⟩
      next single =>
        rw [List.singleton_append, breaks_single fun pair => other pair.1, if_neg other]
        split
        next line =>
          cases ending with
          | crlf => exact absurd ⟨rfl, line⟩ single
          | lf => exact List.forall_mem_cons.mpr ⟨rfl, later⟩
        next => exact later

end Written

theorem countCrLf_restore {plain : Text} (absent : CR ∉ plain) : countCrLf (restoreLineEndings plain .crlf) = plain.count LF := by
  induction plain with
  | nil => rfl
  | cons char rest ih =>
    have other : char ≠ CR := fun same => absent (same ▸ List.mem_cons_self)
    rw [restore_cons, List.count_cons, ← ih fun inside => absent (List.mem_cons_of_mem _ inside)]
    by_cases line : char = LF
    · rw [if_pos ⟨rfl, line⟩, if_pos (by simp [line])]
      change countCrLf (CR :: LF :: restoreLineEndings rest .crlf) = _
      rw [countCrLf, if_pos ⟨rfl, rfl⟩, countCrLf, if_neg fun pair => absurd pair.1 (by decide)]
      omega
    · rw [if_neg fun both => line both.2, if_neg (by simp [line]), List.singleton_append, countCrLf, if_neg fun pair => other pair.1]
      omega

theorem count_restore {plain : Text} (absent : CR ∉ plain) : (restoreLineEndings plain .crlf).count LF = plain.count LF := by
  induction plain with
  | nil => rfl
  | cons char rest ih =>
    rw [restore_cons, List.count_append, List.count_cons, ih fun inside => absent (List.mem_cons_of_mem _ inside)]
    by_cases line : char = LF
    · rw [if_pos ⟨rfl, line⟩, if_pos (by simp [line])]
      have one : [CR, LF].count LF = 1 := by decide
      omega
    · rw [if_neg fun both => line both.2, if_neg (by simp [line]), List.count_singleton, if_neg (by simp [line])]
      omega

theorem countCrLf_absent {text : Text} (absent : CR ∉ text) : countCrLf text = 0 := by
  induction text with
  | nil => rfl
  | cons char rest ih =>
    have apart : ¬ (char = CR ∧ rest.head? = some LF) := fun pair => absent (pair.1 ▸ List.mem_cons_self)
    rw [countCrLf, if_neg apart, ih fun inside => absent (List.mem_cons_of_mem _ inside)]

theorem breaks_absent {text : Text} (carriage : CR ∉ text) (line : LF ∉ text) : breaks text = [] := by
  induction text with
  | nil => rfl
  | cons char rest ih =>
    rw [List.mem_cons, not_or] at carriage line
    have apart : ¬ AtCrLf char rest := fun pair => carriage.1 pair.1.symm
    rw [breaks_single apart, if_neg fun same => carriage.1 same.symm, if_neg fun same => line.1 same.symm, ih carriage.2 line.2]

theorem line_of_breaks {text : Text} (written : Written .crlf text) (shown : breaks text ≠ []) : LF ∈ text := by
  obtain ⟨plain, absent, rfl⟩ := written
  rw [← List.count_pos_iff, count_restore absent, List.count_pos_iff]
  refine Decidable.byContradiction fun line => shown ?_
  have same : restoreLineEndings plain .crlf = plain := by
    have alone (char : Nat) (inside : char ∈ plain) : (if char = LF then [CR, LF] else [char]) = [char] := by
      rw [if_neg]
      rintro rfl
      exact line inside
    exact (List.flatMap_congr alone).trans (List.flatMap_singleton' plain)
  rw [same]
  exact breaks_absent absent line

theorem detectLineEnding_written {ending : LineEnding} {text : Text} (written : Written ending text)
    (shown : ending = .lf ∨ LF ∈ text) : detectLineEnding text = ending := by
  obtain ⟨plain, absent, rfl⟩ := written
  cases ending with
  | lf =>
    rw [restoreLineEndings, detectLineEnding, countCrLf_absent absent]
    rfl
  | crlf =>
    have inside : LF ∈ restoreLineEndings plain .crlf := shown.resolve_left nofun
    have positive := List.count_pos_iff.mpr inside
    rw [detectLineEnding, countCrLf_restore absent, count_restore absent]
    rw [count_restore absent] at positive
    simp only [Nat.sub_self]
    rw [if_neg (by omega), if_pos (by omega), if_pos (by omega)]

theorem normalizeToLf_absent (text : Text) : CR ∉ normalizeToLf text := by
  intro inside
  obtain ⟨char, _, same⟩ := List.mem_map.mp inside
  split at same
  · exact absurd same (by decide)
  next other => exact other same

theorem replacementText_written (target : Target) (operation : EditOperation) (start : Nat) :
    Written target.lineEnding (replacementText target operation start) := by
  have whole : Written target.lineEnding (newTextOf target operation) := ⟨_, normalizeToLf_absent operation.new_string, rfl⟩
  unfold replacementText
  dsimp only
  split
  next marked =>
    obtain ⟨rest, same⟩ := List.head?_eq_some_iff.mp marked.2.2
    rw [same] at whole ⊢
    rw [← List.singleton_append] at whole
    exact (whole.split fun cut => absurd cut.1 (by decide)).2
  next => exact whole

theorem CutsCrLf.behind {before after : Text} (cut : CutsCrLf before after) (front : Text) : CutsCrLf (front ++ before) after :=
  ⟨by rw [List.getLast?_append, cut.1]; rfl, cut.2⟩

/-- Replacing stretches of a text that are not cut inside an ending keeps its endings. -/
theorem spliced_written {ending : LineEnding} {ι : Type} {start stop : ι → Nat} {newText : ι → Text} {offset : Nat} {content updated : Text}
    {spans : List ι} (spliced : Spliced start stop newText offset content spans updated) (front : Text) (length : front.length = offset)
    (whole : ∀ span ∈ spans, ¬ CutsCrLf ((front ++ content).take (start span)) ((front ++ content).drop (start span)) ∧
      ¬ CutsCrLf ((front ++ content).take (stop span)) ((front ++ content).drop (stop span)))
    (texts : ∀ span ∈ spans, Written ending (newText span)) (written : Written ending content) : Written ending updated := by
  induction spliced generalizing front with
  | rest => exact written
  | @replace offset kept old later span spans updated starts stops _ ih =>
    obtain ⟨first, last⟩ := whole span List.mem_cons_self
    have begin : start span = (front ++ kept).length := by rw [List.length_append, starts, length]
    have finish : stop span = (front ++ kept ++ old).length := by rw [stops, begin, @List.length_append _ _ old]
    have parts : front ++ (kept ++ (old ++ later)) = front ++ kept ++ (old ++ later) := (List.append_assoc ..).symm
    have others : front ++ (kept ++ (old ++ later)) = front ++ kept ++ old ++ later := by rw [parts, List.append_assoc (front ++ kept)]
    rw [parts, begin, List.take_left, List.drop_left] at first
    rw [others, finish, List.take_left, List.drop_left] at last
    obtain ⟨head, tail⟩ := written.split fun cut => first (CutsCrLf.behind cut front)
    obtain ⟨_, tail⟩ := tail.split fun cut => last (CutsCrLf.behind cut (front ++ kept))
    refine head.append ((texts span List.mem_cons_self).append ?_)
    refine ih (front ++ kept ++ old) finish.symm (fun other inside => ?_) (fun other inside => texts other (List.mem_cons_of_mem _ inside)) tail
    rw [← others]
    exact whole other (List.mem_cons_of_mem _ inside)

/-- A file with only one kind of line endings has only that kind afterwards. One without any is
written with LF. -/
theorem endings_stay {unicode : Unicode} {content : Text} {operations : List EditOperation} {path : String}
    {applied : AppliedWorkspaceEdits} {ending : LineEnding} (returned : applyWorkspaceEdits unicode content operations path = .ok applied)
    (uniform : Uniform ending content) (shown : ending = .lf ∨ breaks content ≠ []) : Uniform ending applied.updatedContent := by
  obtain ⟨bom, text, updated, plan, stripped, rfl, same, _, spliced, justified⟩ := edits_confined returned
  have mark : bom = [] ∨ bom = [BOM] := by
    have result := congrArg Prod.fst stripped
    unfold stripBom at result
    split at result
    · exact .inr result.symm
    · exact .inl result.symm
  have whole : ¬ CutsCrLf bom text := by
    rcases mark with rfl | rfl
    · exact fun cut => absurd cut.1 nofun
    · exact fun cut => absurd cut.1 (by decide)
  rw [uniform_iff] at uniform ⊢
  obtain ⟨front, written⟩ := uniform.split whole
  have found : detectLineEnding text = ending := by
    cases ending with
    | lf => exact detectLineEnding_written written (.inl rfl)
    | crlf =>
      apply detectLineEnding_written written
      have inside := line_of_breaks (front.append written) (shown.resolve_left nofun)
      refine .inr ((List.mem_append.mp inside).resolve_left ?_)
      rcases mark with rfl | rfl
      · exact nofun
      · decide
  rw [same]
  refine front.append (spliced_written spliced [] rfl (fun span inside => ?_) (fun span inside => ?_) written)
  · obtain ⟨operation, _, own⟩ := justified span inside
    exact ⟨own.start_whole, own.stop_whole⟩
  · obtain ⟨operation, _, own⟩ := justified span inside
    rw [own.newText, ← found]
    exact replacementText_written _ operation span.start

/-- A file with CRLF only, into which a text with all three endings is put. -/
theorem endings_stay_sample : ∃ applied, applyWorkspaceEdits acute (units "a\r\nb\r\n") [⟨units "b\n", units "x\ry\r\nz\n", false⟩] "f" = .ok applied ∧
    applied.updatedContent = units "a\r\nx\r\ny\r\nz\r\n" ∧ Uniform .crlf applied.updatedContent := by
  have result : (applyWorkspaceEdits acute (units "a\r\nb\r\n") [⟨units "b\n", units "x\ry\r\nz\n", false⟩] "f").toOption.map (·.updatedContent) =
      some (units "a\r\nx\r\ny\r\nz\r\n") := by decide +kernel
  cases outcome : applyWorkspaceEdits acute (units "a\r\nb\r\n") [⟨units "b\n", units "x\ry\r\nz\n", false⟩] "f" with
  | error message =>
    rw [outcome] at result
    cases result
  | ok applied =>
    rw [outcome] at result
    refine ⟨applied, rfl, Option.some.inj result, endings_stay outcome ?_ (.inr ?_)⟩
    · decide
    · decide

end AgentSaas.Proofs.LineEndings
