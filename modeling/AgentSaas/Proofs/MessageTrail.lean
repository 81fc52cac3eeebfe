import AgentSaas.MessageTrail
import Mathlib.Algebra.Ring.Nat

/-! The trail tells how much it leaves out, and it leaves out no more than the budget asks for:
a longer suffix of the messages is a longer text. -/

namespace AgentSaas.Proofs.MessageTrail
open AgentSaas.MessageTrail
open ToolCallRepair (Text units)

variable (renderer : Renderer) (tokenBudget : Int) (items : List TrailItem)

/-- An estimate that is no smaller for a longer text. -/
def Monotone : Prop := ∀ first last : Text, first.length ≤ last.length →
  renderer.estimateContextTokens first ≤ renderer.estimateContextTokens last

/-- The block of the items from `start` on, and of none before. -/
def suffixBlock (start : Nat) : Text := renderTrailBlock (fullLines renderer start (items.drop start)) start

/-- What stands before the suffix, with the number of items that are not shown at all: nothing,
or a part of the item just before it. -/
inductive Excerpt (start : Nat) : List Text → Nat → Prop where
  | absent : Excerpt start [] start
  | part {index : Nat} {item : TrailItem} {keptChars : Nat} (before : start = index + 1)
      (here : items[index]? = some item) (less : keptChars < item.content.length) :
      Excerpt start [formatTrailLine renderer item index (excerptTextForBudget item.content keptChars)] index

/-- The text within the budget that shows the items from `start` on, numbered as in the list. -/
structure Trail (start : Nat) (text : Text) : Prop where
  inside : start ≤ items.length
  shown : ∃ excerpt omittedCount, Excerpt renderer items start excerpt omittedCount ∧
    text = renderTrailBlock (excerpt ++ fullLines renderer start (items.drop start)) omittedCount
  fits : renderer.estimateContextTokens text ≤ tokenBudget
  longest : ∀ earlier < start, tokenBudget < renderer.estimateContextTokens (suffixBlock renderer items earlier)

/-- Nothing to show, no budget, or not even the number of the items that are left out fits. -/
def Untold : Prop :=
  items = [] ∨ tokenBudget ≤ 0 ∨
    ∀ start ≤ items.length, tokenBudget < renderer.estimateContextTokens (suffixBlock renderer items start)

variable {renderer tokenBudget items}

theorem length_units (text : String) : (units text).length = text.length := by
  rw [units, List.length_map, String.length_toList]

theorem length_decimal_succ (value : Nat) : (decimal (value + 1)).length ≤ (decimal value).length + 1 := by
  have small : value < 10 ^ (toString value).length :=
    (Nat.length_repr_le_iff (k := (toString value).length) Nat.length_repr_pos).mp (Nat.le_refl _)
  rw [decimal, decimal, length_units, length_units]
  apply (Nat.length_repr_le_iff (Nat.succ_pos _)).mpr
  rw [Nat.pow_succ]
  omega

theorem length_line_pos (item : TrailItem) (index : Nat) (content : Text) :
    0 < (formatTrailLine renderer item index content).length := by
  have digits : 0 < (decimal (index + 1)).length := by
    rw [decimal, length_units]
    exact Nat.length_repr_pos
  unfold formatTrailLine
  dsimp only
  simp only [List.length_append]
  omega

theorem length_intercalate (separator last : Text) (lists : List Text) :
    (List.intercalate separator (lists ++ [last])).length =
      (lists.map fun list => list.length + separator.length).sum + last.length := by
  induction lists with
  | nil => simp [List.intercalate]
  | cons list lists ih =>
    have step : List.intercalate separator (list :: (lists ++ [last])) =
        list ++ separator ++ List.intercalate separator (lists ++ [last]) := by
      cases lists with
      | nil => simp [List.intercalate]
      | cons next lists => simp [List.intercalate]
    rw [List.cons_append, step, List.length_append, List.length_append, ih, List.map_cons, List.sum_cons]
    omega

def measure (lines : List Text) : Nat := (lines.map fun line => line.length + (units "\n").length).sum

theorem measure_append (first last : List Text) : measure (first ++ last) = measure first + measure last := by
  rw [measure, List.map_append, List.sum_append]
  rfl

theorem length_block (lines : List Text) (omittedCount : Nat) : (renderTrailBlock lines omittedCount).length =
    measure trailOpening + measure (if omittedCount > 0 then [omittedLine omittedCount] else []) + measure lines
      + (units "</user-message-trail>").length := by
  rw [renderTrailBlock, length_intercalate, ← measure, measure_append, measure_append]

theorem length_omittedLine_succ (omittedCount : Nat) :
    (omittedLine (omittedCount + 1)).length ≤ (omittedLine omittedCount).length + 1 := by
  have digits := length_decimal_succ omittedCount
  simp only [omittedLine, List.length_append]
  omega

theorem fullLines_drop {index : Nat} {item : TrailItem} (here : items[index]? = some item) :
    fullLines renderer index (items.drop index) =
      formatTrailLine renderer item index item.content :: fullLines renderer (index + 1) (items.drop (index + 1)) := by
  obtain ⟨inside, rfl⟩ := List.getElem?_eq_some_iff.mp here
  rw [List.drop_eq_getElem_cons inside]
  rfl

theorem length_suffix_step {index : Nat} (inside : index + 1 < items.length) :
    (suffixBlock renderer items (index + 1 + 1)).length ≤ (suffixBlock renderer items (index + 1)).length := by
  have line : 0 < (formatTrailLine renderer items[index + 1] (index + 1) items[index + 1].content).length := length_line_pos ..
  have omitted := length_omittedLine_succ (index + 1)
  rw [suffixBlock, suffixBlock, length_block, length_block, fullLines_drop (List.getElem?_eq_getElem inside),
    if_pos (Nat.succ_pos _), if_pos (Nat.succ_pos _)]
  simp only [measure, List.map_cons, List.map_nil, List.sum_cons, List.sum_nil]
  omega

theorem length_suffix {first last : Nat} (positive : 0 < first) (before : first ≤ last) (inside : last ≤ items.length) :
    (suffixBlock renderer items last).length ≤ (suffixBlock renderer items first).length := by
  induction before with
  | refl => exact Nat.le_refl _
  | @step last before ih =>
    obtain ⟨index, rfl⟩ := Nat.exists_eq_succ_of_ne_zero (Nat.ne_of_gt (Nat.lt_of_lt_of_le positive before))
    exact Nat.le_trans (length_suffix_step inside) (ih (Nat.le_of_succ_le inside))

theorem searchExcerpt_spec (content : Text) (fits : Text → Bool) (low stop : Nat) (best : Option Text) {found : Text}
    (searched : searchExcerpt content fits low stop best = some found) :
    best = some found ∨ ∃ keptChars, found = excerptTextForBudget content keptChars ∧ fits found = true := by
  induction low, stop, best using searchExcerpt.induct content fits with
  | case1 low stop best less keptChars candidate fine ih =>
    unfold searchExcerpt at searched
    rw [if_pos less] at searched
    dsimp only at searched
    rw [if_pos fine] at searched
    rcases ih searched with here | later
    · have same : candidate = found := Option.some.inj here
      exact .inr ⟨keptChars, same.symm, same ▸ fine⟩
    · exact .inr later
  | case2 low stop best less keptChars candidate large ih =>
    unfold searchExcerpt at searched
    rw [if_pos less] at searched
    dsimp only at searched
    rw [if_neg large] at searched
    exact ih searched
  | case3 low stop best ended =>
    unfold searchExcerpt at searched
    rw [if_neg ended] at searched
    exact .inl searched

theorem fitTextToBudget_spec {content found : Text} {fits : Text → Bool} (fitted : fitTextToBudget content fits = some found)
    (large : fits content = false) :
    ∃ keptChars, found = excerptTextForBudget content keptChars ∧ keptChars < content.length ∧ fits found = true := by
  rcases searchExcerpt_spec content fits 0 (content.length + 1) none fitted with wrong | ⟨keptChars, rfl, fine⟩
  · cases wrong
  · refine ⟨keptChars, rfl, Nat.lt_of_not_le fun whole => ?_, fine⟩
    rw [excerptTextForBudget, if_pos whole, large] at fine
    cases fine

/-- Where the loop stops: it has taken every item, or those behind an item that does not fit. -/
inductive Stops (renderer : Renderer) (tokenBudget : Int) (items : List TrailItem) : Selected → Prop where
  | all (fits : 0 < items.length → fitsBudget renderer tokenBudget (fullLines renderer 0 items) 0) :
      Stops renderer tokenBudget items ⟨fullLines renderer 0 items, 0⟩
  | before {index : Nat} {excerpt : List Text} {omittedCount : Nat} (inside : index < items.length)
      (large : fitsBudget renderer tokenBudget (fullLines renderer index (items.drop index)) index = false)
      (around : Excerpt renderer items (index + 1) excerpt omittedCount)
      (fits : excerpt ≠ [] ∨ index + 1 < items.length →
        fitsBudget renderer tokenBudget (excerpt ++ fullLines renderer (index + 1) (items.drop (index + 1))) omittedCount) :
      Stops renderer tokenBudget items ⟨excerpt ++ fullLines renderer (index + 1) (items.drop (index + 1)), omittedCount⟩

theorem selectLines_stops (earlier : List TrailItem) (front : earlier.reverse = items.take earlier.length)
    (inside : earlier.length ≤ items.length)
    (fits : earlier.length < items.length →
      fitsBudget renderer tokenBudget (fullLines renderer earlier.length (items.drop earlier.length)) earlier.length) :
    Stops renderer tokenBudget items
      (selectLines renderer tokenBudget earlier (fullLines renderer earlier.length (items.drop earlier.length))) := by
  induction earlier with
  | nil => exact .all fits
  | cons item earlier ih =>
    have room : earlier.length < items.length := inside
    rw [List.length_cons, List.reverse_cons, List.take_add_one, List.getElem?_eq_getElem room] at front
    obtain ⟨front, last⟩ := List.append_inj' front rfl
    have here : items[earlier.length]? = some item := by
      rw [List.getElem?_eq_getElem room]
      exact congrArg some (List.cons.inj last).1.symm
    have grown : fullLines renderer earlier.length (items.drop earlier.length) = formatTrailLine renderer item earlier.length item.content ::
        fullLines renderer (earlier.length + 1) (items.drop (earlier.length + 1)) := fullLines_drop here
    unfold selectLines
    simp only [List.length_cons, ← grown]
    split
    next fine => exact ih front (Nat.le_of_lt room) fun _ => fine
    next large =>
      rw [Bool.not_eq_true] at large
      split
      next content fitted =>
        obtain ⟨keptChars, rfl, less, fine⟩ := fitTextToBudget_spec fitted (by rw [← grown]; exact large)
        exact .before room large (.part rfl here less) fun _ => fine
      next => exact .before room large .absent fun more => fits (more.resolve_left fun wrong => wrong rfl)

theorem fits_iff {lines : List Text} {omittedCount : Nat} : fitsBudget renderer tokenBudget lines omittedCount = true ↔
    renderer.estimateContextTokens (renderTrailBlock lines omittedCount) ≤ tokenBudget := decide_eq_true_iff

theorem large_iff {lines : List Text} {omittedCount : Nat} : fitsBudget renderer tokenBudget lines omittedCount = false ↔
    tokenBudget < renderer.estimateContextTokens (renderTrailBlock lines omittedCount) := by
  rw [fitsBudget, decide_eq_false_iff_not, Int.not_le]

theorem large_before (monotone : Monotone renderer)
    (whole : fitsBudget renderer tokenBudget (fullLines renderer 0 items) 0 = false) {index earlier : Nat}
    (inside : index < items.length)
    (large : fitsBudget renderer tokenBudget (fullLines renderer index (items.drop index)) index = false)
    (before : earlier < index + 1) : tokenBudget < renderer.estimateContextTokens (suffixBlock renderer items earlier) := by
  rcases Nat.eq_zero_or_pos earlier with rfl | positive
  · exact large_iff.mp whole
  · exact Int.lt_of_lt_of_le (large_iff.mp large)
      (monotone _ _ (length_suffix positive (Nat.le_of_lt_succ before) (Nat.le_of_lt inside)))

/-- The trail is empty, and then nothing can be told, or it shows the longest suffix of the
messages that fits, at most a part of the message before it, and how many it leaves out. -/
theorem renders_trail (renderer : Renderer) (monotone : Monotone renderer) (tokenBudget : Int) (items : List TrailItem) :
    renderUserMessageTrail renderer tokenBudget items = [] ∧ Untold renderer tokenBudget items ∨
      ∃ start, Trail renderer tokenBudget items start (renderUserMessageTrail renderer tokenBudget items) := by
  unfold renderUserMessageTrail
  split
  next none => exact .inl ⟨rfl, none.elim .inl fun small => .inr (.inl small)⟩
  next some =>
    split
    next fits =>
      exact .inr ⟨0, Nat.zero_le _, ⟨[], 0, .absent, rfl⟩, fits_iff.mp fits, fun _ wrong => absurd wrong (Nat.not_lt_zero _)⟩
    next whole =>
      rw [Bool.not_eq_true] at whole
      have nonempty : 0 < items.length := List.length_pos_iff.mpr fun empty => some (.inl empty)
      have stops : Stops renderer tokenBudget items (selectLines renderer tokenBudget items.reverse []) := by
        have start : Stops renderer tokenBudget items (selectLines renderer tokenBudget items.reverse
            (fullLines renderer items.reverse.length (items.drop items.reverse.length))) :=
          selectLines_stops items.reverse (by simp) (by simp) fun wrong => absurd wrong (by simp)
        rwa [List.length_reverse, List.drop_length, fullLines] at start
      dsimp only
      generalize selectLines renderer tokenBudget items.reverse [] = selected at stops ⊢
      cases stops with
      | all fits => rw [whole] at fits; exact absurd (fits nonempty) Bool.false_ne_true
      | @before index excerpt omittedCount inside large around fits =>
        split
        next fine =>
          exact .inr ⟨index + 1, inside, ⟨excerpt, omittedCount, around, rfl⟩, fits_iff.mp fine,
            fun earlier before => large_before monotone whole inside large before⟩
        next unfit =>
          refine .inl ⟨rfl, .inr (.inr fun start within => ?_)⟩
          by_cases before : start < index + 1
          · exact large_before monotone whole inside large before
          · -- Only the number of the items is left to show, and it is what does not fit.
            have alone := not_or.mp fun more => unfit (fits more)
            have last : start = index + 1 := by omega
            cases around with
            | absent => rw [last]; exact large_iff.mp (Bool.not_eq_true _ ▸ unfit)
            | part => exact absurd (List.cons_ne_nil _ _) alone.1

def counting : Renderer := ⟨fun text => text.length, fun _ => []⟩

def question (content : String) : TrailItem := ⟨units "e", [], units content, content.length, false, []⟩

theorem renders_trail_counting : renderUserMessageTrail counting 150 [question "first", question "second"] = [] ∧
    Untold counting 150 [question "first", question "second"] ∨ ∃ start, Trail counting 150 [question "first", question "second"] start
      (renderUserMessageTrail counting 150 [question "first", question "second"]) :=
  renders_trail counting (fun _ _ shorter => Int.ofNat_le.mpr shorter) 150 _

end AgentSaas.Proofs.MessageTrail
