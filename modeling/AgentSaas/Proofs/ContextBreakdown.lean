import AgentSaas.Apportionment
import AgentSaas.ContextBreakdown
import Mathlib.Algebra.BigOperators.Ring.List
import Mathlib.Algebra.Order.Field.Rat

/-! The calibrated parts of a context add up: whole tokens at every node, and no token lost or made up by
the rounding. A weight counts with its whole part. -/

namespace AgentSaas.Proofs.ContextBreakdown
open AgentSaas.ContextBreakdown Apportionment Sorting

variable {weights : List Rat} {target : Int}

/-- The whole parts of the weights. -/
def whole (weights : List Rat) : List Int := weights.map wholeTokens

def shares (weights : List Rat) (target : Int) : List Rat := exactValues (whole weights) target

theorem wholeTokens_nonneg (value : Rat) : 0 ≤ wholeTokens value := le_max_left _ _

theorem wholeTokens_whole (nonneg : 0 ≤ target) : wholeTokens target = target := by
  rw [wholeTokens, Int.floor_intCast, max_eq_right nonneg]

theorem sum_shares (positive : (whole weights).sum ≠ 0) : (shares weights target).sum = target := by
  have total : ((whole weights).map fun weight : Int => (weight : Rat)).sum = ((whole weights).sum : Int) :=
    (map_list_sum (Int.castRingHom Rat) (whole weights)).symm
  have filled : (((whole weights).sum : Int) : Rat) ≠ 0 := Int.cast_ne_zero.mpr positive
  have each : shares weights target =
      (whole weights).map fun (weight : Int) => (weight : Rat) * ((((whole weights).sum : Int) : Rat)⁻¹ * target) := by
    apply List.map_congr_left
    intro weight _
    rw [div_eq_mul_inv, mul_assoc]
  rw [each, List.sum_map_mul_right, total, ← mul_assoc, mul_inv_cancel₀ filled, one_mul]

/-! The order in which what is missing is given back. -/

def remainders (exact : List Rat) : List Remainder := exact.mapIdx fun index value => ⟨index, value - ⌊value⌋⟩

theorem descending {first second : Remainder} (before : remainderOrder.le first second) : second.fraction ≤ first.fraction := by
  by_contra above
  have compared : remainderOrder.compare first second = 1 := by
    have higher : first.fraction < second.fraction := not_le.mp above
    simp [remainderOrder, Comparator.andThen, Comparator.onKey, Comparator.ofLinearOrder, higher, higher.not_gt]
  rw [Comparator.le, compared] at before
  omega

theorem map_index (exact : List Rat) : (remainders exact).map (·.index) = List.range exact.length := by
  apply List.ext_getElem
  · simp [remainders]
  · intro index first second
    simp [remainders]

theorem map_fraction (exact : List Rat) : (remainders exact).map (·.fraction) = exact.map Int.fract := by
  apply List.ext_getElem
  · simp [remainders]
  · intro index first second
    simp only [remainders, List.getElem_map, List.getElem_mapIdx]
    rfl

theorem range_getElem? {α : Type} {items : List α} {count : Nat} (inside : count ≤ items.length) :
    (List.range count).map (fun index => items[index]?) = (items.take count).map some := by
  apply List.ext_getElem
  · simp [inside]
  · intro index first second
    simp

theorem loop_eq {order : List Remainder} {count : Nat} (inside : count ≤ order.length) (allocated : List Int) :
    (List.range count).foldlM
        (fun allocated index => order[index]?.bind fun entry => increment allocated entry.index) allocated =
      raise allocated ((order.take count).map (·.index)) := by
  let step (allocated : List Int) (entry : Option Remainder) : Option (List Int) :=
    entry.bind fun entry => increment allocated entry.index
  calc (List.range count).foldlM (fun allocated index => step allocated order[index]?) allocated
    _ = ((List.range count).map fun index => order[index]?).foldlM step allocated := List.foldlM_map.symm
    _ = ((order.take count).map some).foldlM step allocated := by rw [range_getElem? inside]
    _ = (order.take count).foldlM (fun allocated entry => increment allocated entry.index) allocated := List.foldlM_map
    _ = raise allocated ((order.take count).map (·.index)) := List.foldlM_map.symm

theorem shares_nonneg (nonneg : 0 ≤ target) : ∀ share ∈ shares weights target, 0 ≤ share := by
  have each : ∀ weight ∈ whole weights, 0 ≤ weight := by
    intro weight member
    obtain ⟨value, -, rfl⟩ := List.mem_map.mp member
    exact wholeTokens_nonneg value
  intro share member
  obtain ⟨weight, inside, rfl⟩ := List.mem_map.mp member
  apply mul_nonneg
  · exact div_nonneg (Int.cast_nonneg_iff.mpr (each weight inside)) (Int.cast_nonneg_iff.mpr (List.sum_nonneg each))
  · exact Int.cast_nonneg_iff.mpr nonneg

theorem apportioned_zero : Apportioned (shares weights 0) 0 ((whole weights).map fun _ => 0) where
  length := by rw [shares, exactValues, List.length_map, List.length_map]
  sum := by
    apply List.sum_eq_zero
    intro tokens member
    obtain ⟨_, -, rfl⟩ := List.mem_map.mp member
    rfl
  near index share value found there := by
    rw [shares, exactValues, List.getElem?_map] at found
    rw [List.getElem?_map] at there
    obtain ⟨weight, -, rfl⟩ := Option.map_eq_some_iff.mp found
    obtain ⟨_, -, rfl⟩ := Option.map_eq_some_iff.mp there
    simp

theorem allocate_exact (nonneg : 0 ≤ target) (positive : 0 < (whole weights).sum) :
    ∃ allocated, allocateProportionalTokens weights target = some allocated ∧
      Apportioned (shares weights target) target allocated ∧ ∀ tokens ∈ allocated, 0 ≤ tokens := by
  by_cases empty : target = 0
  · subst empty
    refine ⟨(whole weights).map fun _ => 0, ?_, apportioned_zero, ?_⟩
    · exact if_pos (.inr (wholeTokens_whole le_rfl))
    · intro tokens member
      obtain ⟨_, -, rfl⟩ := List.mem_map.mp member
      exact le_rfl
  · have total : (shares weights target).sum = target := sum_shares positive.ne'
    have some_ := missing_nonneg total
    have enough := missing_le total
    let order := remainderOrder.sort (remainders (shares weights target))
    have perm : order.Perm (remainders (shares weights target)) := List.perm_insertionSort ..
    have counted : order.countP (0 < ·.fraction) = (shares weights target).countP (0 < Int.fract ·) := by
      rw [perm.countP_eq, ← Function.comp_def (fun fraction : Rat => decide (0 < fraction)), ← List.countP_map, map_fraction, List.countP_map]
      rfl
    let count := (missing (shares weights target) target).toNat
    have few : count ≤ order.countP (0 < ·.fraction) := by omega
    have inside : count ≤ order.length := few.trans List.countP_le_length
    have sorted : order.Pairwise fun first second => second.fraction ≤ first.fraction :=
      (remainderOrder.pairwise_sort _).imp descending
    have first := pos_of_mem_take sorted few
    have distinct : ((order.take count).map (·.index)).Nodup := by
      apply ((List.take_sublist count order).map _).nodup
      rw [(perm.map _).nodup_iff, map_index]
      exact List.nodup_range
    obtain ⟨allocated, raised, apportioned, floor⟩ :=
      @apportioned_of_places Rat _ _ _ _ (shares weights target) target _ distinct (by
        rw [List.length_map, List.length_take, Nat.min_eq_left inside]
        exact Int.toNat_of_nonneg some_) (by
        intro place member
        obtain ⟨entry, taken, rfl⟩ := List.mem_map.mp member
        obtain ⟨index, found, rfl⟩ := List.mem_mapIdx.mp (perm.mem_iff.mp (List.mem_of_mem_take taken))
        exact ⟨_, List.getElem?_eq_getElem found, first _ taken⟩)
    refine ⟨allocated, ?_, apportioned, ?_⟩
    · rw [← loop_eq inside] at raised
      rw [allocateProportionalTokens, wholeTokens_whole nonneg]
      rw [if_neg (by rw [not_or]; exact ⟨positive.ne', empty⟩)]
      exact raised
    · intro tokens member
      obtain ⟨index, found⟩ := List.mem_iff_getElem?.mp member
      obtain ⟨share, there, low⟩ := floor index tokens found
      exact (Int.floor_nonneg.mpr (shares_nonneg nonneg share (List.mem_of_getElem? there))).trans low

theorem allocate_some (weights : List Rat) (nonneg : 0 ≤ target) :
    ∃ allocated, allocateProportionalTokens weights target = some allocated ∧ allocated.length = weights.length ∧
      (∀ tokens ∈ allocated, 0 ≤ tokens) ∧ (0 < (whole weights).sum → allocated.sum = target) := by
  have weighed : 0 ≤ (whole weights).sum := by
    apply List.sum_nonneg
    intro weight member
    obtain ⟨value, -, rfl⟩ := List.mem_map.mp member
    exact wholeTokens_nonneg value
  obtain positive | zero := weighed.lt_or_eq
  · obtain ⟨allocated, same, apportioned, above⟩ := allocate_exact nonneg positive
    refine ⟨allocated, same, ?_, above, fun _ => apportioned.sum⟩
    rw [apportioned.length, shares, exactValues, whole, List.length_map, List.length_map]
  · refine ⟨(whole weights).map fun _ => 0, if_pos (.inl zero.symm), ?_, ?_, fun positive => ?_⟩
    · rw [whole, List.length_map, List.length_map]
    · intro tokens member
      obtain ⟨_, -, rfl⟩ := List.mem_map.mp member
      exact le_rfl
    · omega

/-- The estimates of a category and of all below it are numbers of tokens. -/
inductive Estimated : ContextUsageCategory → Prop
  | node {category : ContextUsageCategory} (tokens : ∃ count : Nat, category.tokens = count)
      (children : ∀ child ∈ category.children, Estimated child) : Estimated category

/-- A category and what calibration makes of it: another number of tokens here and below, which adds up
wherever there is something to divide by. -/
inductive Calibrated : ContextUsageCategory → ContextUsageCategory → Prop
  | node {before after : ContextUsageCategory}
      (same : { after with tokens := before.tokens, children := before.children } = before)
      (whole : ∃ count : Nat, after.tokens = count)
      (length : after.children.length = before.children.length)
      (children : ∀ (index : Nat) (child calibrated : ContextUsageCategory), before.children[index]? = some child →
        after.children[index]? = some calibrated → Calibrated child calibrated)
      (sums : (∃ child ∈ before.children, 0 < child.tokens) → (after.children.map (·.tokens)).sum = after.tokens) :
      Calibrated before after

variable {categories : List ContextUsageCategory}

theorem weighed (estimated : ∀ item ∈ categories, Estimated item) :
    (((whole (categories.map (·.tokens))).sum : Int) : Rat) = (categories.map (·.tokens)).sum := by
  induction categories with
  | nil => rfl
  | cons first rest ih =>
    obtain ⟨⟨count, same⟩, -⟩ := estimated first List.mem_cons_self
    have own : ((wholeTokens first.tokens : Int) : Rat) = first.tokens := by
      have natural := @wholeTokens_whole count (Int.natCast_nonneg count)
      rw [same, ← Int.cast_natCast, natural]
    have rest_ := ih fun item member => estimated item (List.mem_cons_of_mem _ member)
    simp only [whole, List.map_cons, List.sum_cons, Int.cast_add] at rest_ ⊢
    rw [rest_, own]

theorem weighed_pos (estimated : ∀ item ∈ categories, Estimated item) (positive : 0 < (categories.map (·.tokens)).sum) :
    0 < (whole (categories.map (·.tokens))).sum := by
  rw [← weighed estimated] at positive
  exact Int.cast_pos.mp positive

theorem sum_pos (estimated : ∀ item ∈ categories, Estimated item) (some_ : ∃ item ∈ categories, 0 < item.tokens) :
    0 < (categories.map (·.tokens)).sum := by
  have each : ∀ tokens ∈ categories.map (·.tokens), 0 ≤ tokens := by
    intro tokens member
    obtain ⟨item, inside, rfl⟩ := List.mem_map.mp member
    obtain ⟨⟨count, same⟩, -⟩ := estimated item inside
    rw [same]
    exact Nat.cast_nonneg count
  obtain ⟨item, member, positive⟩ := some_
  exact positive.trans_le (List.single_le_sum each _ (List.mem_map_of_mem member))

structure CalibratedAll (before after : List ContextUsageCategory) (allocated : List Int) : Prop where
  tokens : after.map (·.tokens) = allocated.map fun count : Int => (count : Rat)
  each : ∀ (index : Nat) (item calibrated : ContextUsageCategory), before[index]? = some item → after[index]? = some calibrated →
    Calibrated item calibrated

theorem cast_sum (allocated : List Int) : (allocated.map fun count : Int => (count : Rat)).sum = (allocated.sum : Int) :=
  (map_list_sum (Int.castRingHom Rat) allocated).symm

def CategoryCalibrated (item : ContextUsageCategory) : Prop :=
  ∀ tokens : Int, 0 ≤ tokens →
    ∃ calibrated, calibrateCategory tokens item = some calibrated ∧ Calibrated item calibrated ∧ calibrated.tokens = tokens

theorem calibrateEach_some {allocated : List Int} (length : allocated.length = categories.length)
    (above : ∀ tokens ∈ allocated, 0 ≤ tokens) (step : ∀ item ∈ categories, CategoryCalibrated item) :
    ∃ after, calibrateEach allocated categories = some after ∧ CalibratedAll categories after allocated := by
  induction categories generalizing allocated with
  | nil =>
    obtain rfl := List.length_eq_zero_iff.mp length
    exact ⟨[], rfl, rfl, fun _ _ _ found => by cases found⟩
  | cons item rest ih =>
    cases allocated with
    | nil => cases length
    | cons tokens others =>
      obtain ⟨first, same, calibrated, own⟩ := step item List.mem_cons_self tokens (above tokens List.mem_cons_self)
      obtain ⟨later, each, all⟩ := ih (Nat.succ.inj length) (fun count member => above count (List.mem_cons_of_mem _ member))
        fun item member => step item (List.mem_cons_of_mem _ member)
      refine ⟨first :: later, ?_, ?_, fun index found => ?_⟩
      · rw [calibrateEach, same, Option.bind_some, each, Option.map_some]
      · rw [List.map_cons, List.map_cons, own, all.tokens]
      · cases index with
        | zero =>
          intro other here there
          obtain rfl := Option.some.inj here
          obtain rfl := Option.some.inj there
          exact calibrated
        | succ index => exact all.each index found

theorem calibrateCategory_some {item : ContextUsageCategory} (estimated : Estimated item) : CategoryCalibrated item := by
  induction estimated with
  | @node item natural below ih =>
    intro tokens nonneg
    obtain ⟨key, name, estimate, color, accuracy, isDeferred, children⟩ := item
    have count : ∃ count : Nat, (tokens : Rat) = count := ⟨tokens.toNat, by rw [← Int.cast_natCast, Int.toNat_of_nonneg nonneg]⟩
    cases children with
    | nil =>
      refine ⟨⟨key, name, tokens, color, accuracy, isDeferred, []⟩, by rw [calibrateCategory], .node rfl count rfl ?_ ?_, rfl⟩
      · intro index child calibrated found
        cases found
      · rintro ⟨child, member, -⟩
        cases member
    | cons first rest =>
      obtain ⟨allocated, same, length, above, total⟩ := allocate_some ((first :: rest).map (·.tokens)) nonneg
      rw [List.length_map] at length
      obtain ⟨after, each, all⟩ := calibrateEach_some length above ih
      refine ⟨⟨key, name, tokens, color, accuracy, isDeferred, after⟩, ?_, .node rfl count ?_ all.each fun positive => ?_, rfl⟩
      · rw [List.map_cons] at same
        rw [calibrateCategory, same, Option.bind_some, each, Option.map_some]
      · have sizes := congrArg List.length all.tokens
        rw [List.length_map, List.length_map] at sizes
        exact sizes.trans length
      · rw [all.tokens, cast_sum, total (weighed_pos below (sum_pos below positive))]

theorem calibrateCategories_some (estimated : ∀ item ∈ categories, Estimated item) (nonneg : 0 ≤ target)
    (positive : 0 < (categories.map (·.tokens)).sum) :
    ∃ after allocated, calibrateCategories categories target = some after ∧ CalibratedAll categories after allocated ∧
      after.length = categories.length ∧ (after.map (·.tokens)).sum = target := by
  obtain ⟨allocated, same, length, above, total⟩ := allocate_some (categories.map (·.tokens)) nonneg
  rw [List.length_map] at length
  obtain ⟨after, each, all⟩ := calibrateEach_some length above fun item member => calibrateCategory_some (estimated item member)
  refine ⟨after, allocated, ?_, all, ?_, ?_⟩
  · rw [calibrateCategories, same]
    exact each
  · have sizes := congrArg List.length all.tokens
    rw [List.length_map, List.length_map] at sizes
    exact sizes.trans length
  · rw [all.tokens, cast_sum, total (weighed_pos estimated positive)]

theorem allocate_total (weights : List Rat) (targetTotal : Rat) : ∃ allocated, allocateProportionalTokens weights targetTotal = some allocated := by
  obtain ⟨allocated, same, -⟩ := allocate_some weights (wholeTokens_nonneg targetTotal)
  refine ⟨allocated, ?_⟩
  rw [allocateProportionalTokens, wholeTokens_whole (wholeTokens_nonneg targetTotal)] at same
  exact same

theorem calibrateTokenItems_some {α : Type} (tokens : α → Rat) (set : α → Rat → α) (items : List α) (targetTotal : Rat) :
    ∃ calibrated, calibrateTokenItems tokens set items targetTotal = some calibrated := by
  obtain ⟨allocated, same⟩ := allocate_total (items.map tokens) targetTotal
  exact ⟨_, by rw [calibrateTokenItems, same, Option.map_some]⟩

/-- What calibration makes of the categories that are estimated, and what it adds behind them. -/
structure Totals (breakdown after : ContextUsageBreakdown) (total : Int) : Prop where
  parts : ∃ calibrated rest, after.categories = calibrated ++ rest ∧
    (∀ (index : Nat) (item category : ContextUsageCategory), (estimatedCategories breakdown)[index]? = some item →
      calibrated[index]? = some category → Calibrated item category) ∧
    ∀ category ∈ rest, category.children = []
  sum : (after.categories.map (·.tokens)).sum = total

theorem estimated_filter {breakdown : ContextUsageBreakdown} (estimated : ∀ item ∈ breakdown.categories, Estimated item) :
    ∀ item ∈ estimatedCategories breakdown, Estimated item :=
  fun item member => estimated item (List.mem_of_mem_filter member)

theorem sum_withProvided (calibrated : List ContextUsageCategory) {outputTokens unattributedTokens : Int} (output : 0 ≤ outputTokens)
    (left : 0 ≤ unattributedTokens) :
    ((withProvided calibrated outputTokens unattributedTokens).map (·.tokens)).sum =
      (calibrated.map (·.tokens)).sum + outputTokens + unattributedTokens := by
  have one {count : Int} (nonneg : 0 ≤ count) {category : ContextUsageCategory} (tokens : category.tokens = count) :
      ((if 0 < count then [category] else []).map (·.tokens)).sum = (count : Rat) := by
    split
    next => rw [List.map_singleton, List.sum_singleton, tokens]
    next none =>
      have zero : count = 0 := by omega
      rw [zero]
      rfl
  rw [withProvided, List.map_append, List.map_append, List.sum_append, List.sum_append, ← add_assoc]
  congr 1
  · congr 1
    exact one output rfl
  · exact one left rfl

theorem children_provided {outputTokens unattributedTokens : Int} :
    ∀ category ∈ (if 0 < outputTokens then [assistantOutput outputTokens] else []) ++
      (if 0 < unattributedTokens then [unattributed unattributedTokens] else []), category.children = [] := by
  intro category member
  obtain member | member := List.mem_append.mp member
  all_goals
    split at member
    next =>
      rw [List.mem_singleton.mp member]
      rfl
    next => cases member

theorem calibrateContextBreakdown_totals (breakdown : ContextUsageBreakdown) {usage : ModelUsage} {inputTokens : Rat}
    (currentContextTokens : Option Rat) (reported : usage.inputTokens = some inputTokens)
    (estimated : ∀ item ∈ breakdown.categories, Estimated item) :
    ∃ after, calibrateContextBreakdown breakdown (some usage) currentContextTokens = some after ∧
      Totals breakdown after (max (providerContextTokensOf usage inputTokens currentContextTokens) (outputTokensOf usage)) := by
  have below := estimated_filter estimated
  have output : 0 ≤ outputTokensOf usage := wholeTokens_nonneg _
  let input := max 0 (providerContextTokensOf usage inputTokens currentContextTokens - outputTokensOf usage)
  let total := ((estimatedCategories breakdown).map (·.tokens)).sum
  have given : 0 ≤ input := le_max_left _ _
  have target : input + outputTokensOf usage = max (providerContextTokensOf usage inputTokens currentContextTokens) (outputTokensOf usage) := by
    omega
  obtain ⟨calibrated, same, sum, each⟩ : ∃ calibrated,
      calibrateEstimated (estimatedCategories breakdown) input = some calibrated ∧
      (calibrated.map (·.tokens)).sum + ((if 0 < total then 0 else input : Int) : Rat) = (input : Rat) ∧
      ∀ (index : Nat) (item category : ContextUsageCategory), (estimatedCategories breakdown)[index]? = some item →
        calibrated[index]? = some category → Calibrated item category := by
    by_cases positive : 0 < total
    · obtain ⟨after, allocated, same, all, -, sum⟩ := calibrateCategories_some below given positive
      refine ⟨after, by rw [calibrateEstimated, if_pos positive, same], ?_, all.each⟩
      rw [if_pos positive, sum, Int.cast_zero, add_zero]
    · refine ⟨[], by rw [calibrateEstimated, if_neg positive], ?_, fun _ _ _ _ found => by cases found⟩
      rw [if_neg positive]
      exact zero_add _
  have left : 0 ≤ (if 0 < total then 0 else input : Int) := by
    split
    next => exact le_rfl
    next => exact given
  let categories := withProvided calibrated (outputTokensOf usage) (if 0 < total then 0 else input)
  obtain ⟨memoryFiles, memory⟩ := calibrateTokenItems_some MemoryFile.tokens (fun item tokens => { item with tokens := tokens })
    (breakdown.memoryFiles.getD []) (calibratedMemoryTokens categories)
  obtain ⟨mcpTools, tools⟩ := calibrateTokenItems_some McpTool.tokens (fun item tokens => { item with tokens := tokens })
    (breakdown.mcpTools.getD []) (calibratedMcpTokens categories)
  let after : ContextUsageBreakdown :=
    { breakdown with
      providerInputTokens := some inputTokens
      providerContextTokens := some (providerContextTokensOf usage inputTokens currentContextTokens)
      unattributedTokens := (if 0 < total then 0 else input : Int)
      categories := categories
      memoryFiles := some memoryFiles
      mcpTools := some mcpTools }
  refine ⟨after, ?_, ⟨calibrated, _, rfl, each, children_provided⟩, ?_⟩
  · simp only [calibrateContextBreakdown, Option.bind_some, reported, Option.map_some]
    change (calibrateEstimated (estimatedCategories breakdown) input).bind _ = _
    rw [same, Option.bind_some]
    change (calibrateTokenItems _ _ _ (calibratedMemoryTokens categories)).bind _ = _
    rw [memory, Option.bind_some]
    change (calibrateTokenItems _ _ _ (calibratedMcpTokens categories)).bind _ = _
    rw [tools, Option.bind_some]
    rfl
  · change (categories.map (·.tokens)).sum = _
    rw [sum_withProvided calibrated output left, add_right_comm, sum, ← target, Int.cast_add]

/-- What is allocated is exact, and so is what calibration makes of a breakdown. -/
theorem calibration_exact :
    (∀ (weights : List Rat) (target : Nat), 0 < (weights.map wholeTokens).sum →
      ∃ allocated, allocateProportionalTokens weights target = some allocated ∧ allocated.length = weights.length ∧
        (∀ tokens ∈ allocated, 0 ≤ tokens) ∧ allocated.sum = target ∧
        ∀ (index : Nat) (weight : Rat) (tokens : Int), weights[index]? = some weight → allocated[index]? = some tokens →
          |(tokens : Rat) - (wholeTokens weight : Rat) / (weights.map wholeTokens).sum * target| < 1) ∧
    ∀ (breakdown : ContextUsageBreakdown) (usage : ModelUsage) (inputTokens : Rat) (currentContextTokens : Option Rat),
      usage.inputTokens = some inputTokens → (∀ item ∈ breakdown.categories, Estimated item) →
      ∃ after, calibrateContextBreakdown breakdown (some usage) currentContextTokens = some after ∧
        Totals breakdown after (max (providerContextTokensOf usage inputTokens currentContextTokens) (outputTokensOf usage)) := by
  refine ⟨fun weights target positive => ?_, fun breakdown usage inputTokens currentContextTokens reported estimated => ?_⟩
  · obtain ⟨allocated, same, apportioned, above⟩ := allocate_exact (Int.natCast_nonneg target) positive
    refine ⟨allocated, same, ?_, above, apportioned.sum, fun index weight tokens found there => ?_⟩
    · rw [apportioned.length, shares, exactValues, whole, List.length_map, List.length_map]
    · apply apportioned.near index _ tokens _ there
      rw [shares, exactValues, whole, List.getElem?_map, List.getElem?_map, found]
      rfl
  · exact calibrateContextBreakdown_totals breakdown currentContextTokens reported estimated

/-- Half a token is no weight. -/
theorem fractions_lost : ¬ ∀ (weights : List Rat) (target : Nat), (∀ weight ∈ weights, 0 ≤ weight) → 0 < weights.sum →
    ∃ allocated, allocateProportionalTokens weights target = some allocated ∧ allocated.sum = target := by
  intro exact_
  obtain ⟨allocated, same, sum⟩ := exact_ [1 / 2, 1 / 2] 1 (by decide +kernel) (by decide +kernel)
  have none : allocateProportionalTokens [1 / 2, 1 / 2] (1 : Nat) = some [0, 0] := by decide +kernel
  rw [none] at same
  rw [← Option.some.inj same] at sum
  cases sum

def sampleCategories : List ContextUsageCategory :=
  [⟨"system_prompt", "系统提示语", 3, "#8B5CF6", .estimated, none, []⟩,
    ⟨"history", "历史消息", 4, "#06B6D4", .estimated, none,
      [⟨"history_user", "历史用户消息", 1, "#3B82F6", .estimated, none, []⟩,
        ⟨"history_assistant", "历史助手回复", 3, "#06B6D4", .estimated, none, []⟩]⟩]

theorem sampleCategories_estimated : ∀ item ∈ sampleCategories, Estimated item := by
  have leaf (key name color : String) (count : Nat) : Estimated ⟨key, name, count, color, .estimated, none, []⟩ :=
    .node ⟨count, rfl⟩ fun child member => by cases member
  intro item member
  simp only [sampleCategories, List.mem_cons, List.not_mem_nil, or_false] at member
  obtain rfl | rfl := member
  · exact leaf _ _ _ 3
  · refine .node ⟨4, rfl⟩ fun child member => ?_
    simp only [List.mem_cons, List.not_mem_nil, or_false] at member
    obtain rfl | rfl := member
    · exact leaf _ _ _ 1
    · exact leaf _ _ _ 3

def sampleBreakdown : ContextUsageBreakdown := ⟨7, none, none, 0, sampleCategories, none, none, none⟩

theorem calibration_exact_shared :
    (∃ allocated, allocateProportionalTokens [3, 4] (10 : Nat) = some allocated ∧ allocated.sum = 10) ∧
    ∃ after, calibrateContextBreakdown sampleBreakdown (some ⟨some 12, some 2, none, none⟩) (some 12) = some after ∧
      Totals sampleBreakdown after 12 := by
  obtain ⟨allocation, calibration⟩ := calibration_exact
  constructor
  · obtain ⟨allocated, same, -, -, sum, -⟩ := allocation [3, 4] 10 (by decide +kernel)
    exact ⟨allocated, same, sum⟩
  · obtain ⟨after, same, totals⟩ := calibration sampleBreakdown ⟨some 12, some 2, none, none⟩ 12 (some 12) rfl sampleCategories_estimated
    refine ⟨after, same, ?_⟩
    have total : max (providerContextTokensOf ⟨some 12, some 2, none, none⟩ 12 (some 12)) (outputTokensOf ⟨some 12, some 2, none, none⟩) = 12 := by
      decide +kernel
    rw [← total]
    exact totals

end AgentSaas.Proofs.ContextBreakdown
