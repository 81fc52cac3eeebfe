import AgentSaas.ContextCheckpoint

/-! The raw tail keeps whole tool batches and stays within its budget. -/

namespace AgentSaas.Proofs.RawTail
open AgentSaas.ContextCheckpoint AgentSaas.PlatformEvents AgentSaas.Ranges AgentSaas.Dictionaries AgentSaas.Sorting

variable {events : List PlatformEvent} {tools : ToolRanges}

structure Indexed (done : List (PlatformEvent × Nat)) (indexed : ToolIndex) : Prop where
  calls : ∀ id index, indexed.callIndexById.get id = some index → ∃ event, (event, index) ∈ done ∧ id ∈ event.issues
  results : ∀ id index, index ∈ indexed.results id ↔ ∃ event, (event, index) ∈ done ∧ event.answers = some id

theorem setCalls_get {calls : Dictionary String Nat} {toolCalls : List ModelToolCall} {index found : Nat} {id : String}
    (here : (toolCalls.foldl (fun calls call => calls.set call.id index) calls).get id = some found) :
    found = index ∧ id ∈ toolCalls.map (·.id) ∨ calls.get id = some found := by
  induction toolCalls generalizing calls with
  | nil => exact .inr here
  | cons call rest ih =>
    rcases ih here with ⟨same, member⟩ | earlier
    · exact .inl ⟨same, List.mem_cons_of_mem _ member⟩
    · rw [Dictionary.get_set] at earlier
      split at earlier
      next own =>
        left
        cases earlier
        exact ⟨rfl, own ▸ List.mem_cons_self ..⟩
      next => exact .inr earlier

theorem indexEvent_indexed {done : List (PlatformEvent × Nat)} {indexed : ToolIndex} (before : Indexed done indexed)
    (entry : PlatformEvent × Nat) : Indexed (done ++ [entry]) (indexEvent indexed entry) := by
  obtain ⟨event, index⟩ := entry
  have kept (id : String) (other : Nat) (shown : PlatformEvent → Prop) (found : ∃ event, (event, other) ∈ done ∧ shown event) :
      ∃ old, (old, other) ∈ done ++ [(event, index)] ∧ shown old := by
    obtain ⟨old, member, rest⟩ := found
    exact ⟨old, List.mem_append_left _ member, rest⟩
  cases body : event.body with
  | assistantToolCalls content toolCalls =>
    constructor
    · intro id other found
      simp only [indexEvent, body] at found
      rcases setCalls_get found with ⟨rfl, member⟩ | earlier
      · exact ⟨event, by simp, by simpa [PlatformEvent.issues, body] using member⟩
      · exact kept id other _ (before.calls id other earlier)
    · intro id other
      have silent : event.answers = none := by simp [PlatformEvent.answers, body]
      have same : (indexEvent indexed (event, index)).results id = indexed.results id := by
        simp [indexEvent, body, ToolIndex.results]
      rw [same, before.results]
      simp [or_and_right, exists_or, silent]
  | toolResult toolCallId toolName content =>
    constructor
    · intro id other found
      simp only [indexEvent, body] at found
      exact kept id other _ (before.calls id other found)
    · intro id other
      have answer : event.answers = some toolCallId := by simp [PlatformEvent.answers, body]
      have results : (indexEvent indexed (event, index)).results id =
          if id = toolCallId then indexed.results toolCallId ++ [index] else indexed.results id := by
        simp only [indexEvent, body, ToolIndex.results, Dictionary.get_set]
        split <;> rfl
      rw [results]
      split
      next same =>
        subst same
        simp [before.results, or_and_right, exists_or, answer]
      next apart => simp [before.results, or_and_right, exists_or, answer, Ne.symm apart]
  | _ =>
    constructor
    · intro id other found
      simp only [indexEvent, body] at found
      exact kept id other _ (before.calls id other found)
    · intro id other
      have silent : event.answers = none := by simp [PlatformEvent.answers, body]
      simp only [indexEvent, body, before.results]
      simp [or_and_right, exists_or, silent]

theorem indexTools_indexed (events : List PlatformEvent) : Indexed events.zipIdx (indexTools events) := by
  have each (rest done : List (PlatformEvent × Nat)) (indexed : ToolIndex) (before : Indexed done indexed) :
      Indexed (done ++ rest) (rest.foldl indexEvent indexed) := by
    induction rest generalizing done indexed with
    | nil => rwa [List.append_nil]
    | cons entry rest ih =>
      rw [List.append_cons]
      exact ih _ _ (indexEvent_indexed before entry)
  apply each events.zipIdx [] ⟨.empty, .empty⟩
  constructor
  · intro id index wrong
    cases wrong
  · simp [ToolIndex.results]

theorem callIndex_sound {id : String} {index : Nat} (found : (indexTools events).callIndexById.get id = some index) :
    ∃ event, events[index]? = some event ∧ id ∈ event.issues := by
  obtain ⟨event, member, issues⟩ := (indexTools_indexed events).calls id index found
  exact ⟨event, List.mk_mem_zipIdx_iff_getElem?.mp member, issues⟩

theorem mem_results {id : String} {index : Nat} :
    index ∈ (indexTools events).results id ↔ ∃ event, events[index]? = some event ∧ event.answers = some id := by
  rw [(indexTools_indexed events).results]
  simp only [List.mk_mem_zipIdx_iff_getElem?]

def rangesOf (indexed : ToolIndex) (entry : PlatformEvent × Nat) : List AtomicRange :=
  match entry.1.body with
  | .assistantToolCalls _ toolCalls =>
    if batchComplete indexed entry.2 toolCalls then
      [⟨entry.2, (toolCalls.flatMap (laterResults indexed entry.2)).max?.getD 0⟩]
    else []
  | _ => []

def unsafeOf (indexed : ToolIndex) (entry : PlatformEvent × Nat) : List Nat :=
  match entry.1.body with
  | .assistantToolCalls _ toolCalls =>
    if batchComplete indexed entry.2 toolCalls then []
    else entry.2 :: toolCalls.flatMap (laterResults indexed entry.2)
  | _ => []

def orphanOf (indexed : ToolIndex) (entry : PlatformEvent × Nat) : List Nat :=
  match entry.1.body with
  | .toolResult toolCallId _ _ => if (indexed.callIndexById.get toolCallId).all (· ≥ entry.2) then [entry.2] else []
  | _ => []

theorem collectBatch_eq (indexed : ToolIndex) (collected : ToolRanges) (entry : PlatformEvent × Nat) :
    collectBatch indexed collected entry =
      ⟨collected.ranges ++ rangesOf indexed entry, collected.unsafeIndices ++ unsafeOf indexed entry⟩ := by
  rw [collectBatch, rangesOf, unsafeOf]
  cases entry.1.body with
  | assistantToolCalls content toolCalls =>
    simp only
    split <;> simp
  | _ => simp

theorem collectBatches_eq (indexed : ToolIndex) (entries : List (PlatformEvent × Nat)) (collected : ToolRanges) :
    entries.foldl (collectBatch indexed) collected =
      ⟨collected.ranges ++ entries.flatMap (rangesOf indexed), collected.unsafeIndices ++ entries.flatMap (unsafeOf indexed)⟩ := by
  induction entries generalizing collected with
  | nil => simp
  | cons entry rest ih => rw [List.foldl_cons, collectBatch_eq, ih, List.flatMap_cons, List.flatMap_cons, List.append_assoc,
      List.append_assoc]

theorem collectOrphans_eq (indexed : ToolIndex) (entries : List (PlatformEvent × Nat)) (unsafeIndices : List Nat) :
    entries.foldl (collectOrphan indexed) unsafeIndices = unsafeIndices ++ entries.flatMap (orphanOf indexed) := by
  induction entries generalizing unsafeIndices with
  | nil => simp
  | cons entry rest ih =>
    have step : collectOrphan indexed unsafeIndices entry = unsafeIndices ++ orphanOf indexed entry := by
      rw [collectOrphan, orphanOf]
      cases entry.1.body with
      | toolResult =>
        simp only
        split <;> simp
      | _ => simp
    rw [List.foldl_cons, step, ih, List.flatMap_cons, List.append_assoc]

theorem unsafe_iff {index : Nat} : index ∈ (buildAtomicToolRanges events).unsafeIndices ↔
    ∃ entry ∈ events.zipIdx, index ∈ unsafeOf (indexTools events) entry ∨ index ∈ orphanOf (indexTools events) entry := by
  simp only [buildAtomicToolRanges, collectBatches_eq, collectOrphans_eq, List.nil_append, List.mem_append,
    List.mem_flatMap]
  constructor
  · rintro (⟨entry, member, here⟩ | ⟨entry, member, here⟩)
    · exact ⟨entry, member, .inl here⟩
    · exact ⟨entry, member, .inr here⟩
  · rintro ⟨entry, member, here | here⟩
    · exact .inl ⟨entry, member, here⟩
    · exact .inr ⟨entry, member, here⟩

theorem ranges_merged (events : List PlatformEvent) :
    Merged (byStart.sort (events.zipIdx.flatMap (rangesOf (indexTools events)))) (buildAtomicToolRanges events).ranges := by
  simp only [buildAtomicToolRanges, collectBatches_eq, List.nil_append]
  apply merge_merged
  apply (Comparator.pairwise_sort byStart _).imp
  intro left right order
  simp only [Comparator.le, byStart] at order
  split at order <;> omega

theorem rangesOf_complete {indexed : ToolIndex} {event : PlatformEvent} {index : Nat} {content : String}
    {toolCalls : List ModelToolCall} (body : event.body = .assistantToolCalls content toolCalls)
    (complete : batchComplete indexed index toolCalls) :
    ∃ last ∈ toolCalls.flatMap (laterResults indexed index), rangesOf indexed (event, index) = [⟨index, last⟩] ∧
      ∀ result ∈ toolCalls.flatMap (laterResults indexed index), result ≤ last := by
  have some : toolCalls.flatMap (laterResults indexed index) ≠ [] := by
    obtain ⟨nonempty, each⟩ := complete
    cases toolCalls with
    | nil => exact absurd rfl nonempty
    | cons call rest => simp [each call (List.mem_cons_self ..)]
  obtain ⟨last, greatest⟩ := Option.isSome_iff_exists.mp (List.isSome_max?_of_ne_nil some)
  obtain ⟨member, above⟩ := List.max?_eq_some_iff.mp greatest
  refine ⟨last, member, ?_, above⟩
  rw [rangesOf]
  simp only [body, if_pos complete, greatest, Option.getD_some]

theorem mem_laterResults {index result : Nat} {call : ModelToolCall} :
    result ∈ laterResults (indexTools events) index call ↔
      index < result ∧ ∃ event, events[result]? = some event ∧ event.answers = some call.id := by
  rw [laterResults, List.mem_filter, mem_results, and_comm]
  simp

theorem rangesOf_ends {entry : PlatformEvent × Nat} {range : AtomicRange}
    (member : range ∈ rangesOf (indexTools events) entry) :
    ∃ event, events[range.last]? = some event ∧ event.answers.isSome := by
  obtain ⟨event, index⟩ := entry
  cases body : event.body with
  | assistantToolCalls content toolCalls =>
    by_cases complete : batchComplete (indexTools events) index toolCalls
    · obtain ⟨last, listed, ranges, -⟩ := rangesOf_complete body complete
      rw [ranges, List.mem_singleton] at member
      obtain ⟨call, -, later⟩ := List.mem_flatMap.mp listed
      obtain ⟨-, result, found, answers⟩ := mem_laterResults.mp later
      rw [member]
      exact ⟨result, found, by simp [answers]⟩
    · simp [rangesOf, body, complete] at member
  | _ => simp [rangesOf, body] at member

/-- What the ranges and the unsafe indices say of the events. -/
structure Atomic (events : List PlatformEvent) (tools : ToolRanges) : Prop where
  apart : Apart tools.ranges
  ends : ∀ range ∈ tools.ranges, ∃ event, events[range.last]? = some event ∧ event.answers.isSome
  answered : ∀ index event content toolCalls, events[index]? = some event →
    event.body = .assistantToolCalls content toolCalls → index ∉ tools.unsafeIndices →
    ∀ call ∈ toolCalls, ∃ later result, index < later ∧ events[later]? = some result ∧ result.answers = some call.id
  issued : ∀ index event id, events[index]? = some event → event.answers = some id → index ∉ tools.unsafeIndices →
    ∃ earlier call, earlier < index ∧ events[earlier]? = some call ∧ id ∈ call.issues
  linked : ∀ index later event result id, events[index]? = some event → id ∈ event.issues →
    events[later]? = some result → result.answers = some id → index < later → later ∉ tools.unsafeIndices →
    ∃ range ∈ tools.ranges, range.first ≤ index ∧ later ≤ range.last

theorem issues_body {event : PlatformEvent} {id : String} (issues : id ∈ event.issues) :
    ∃ content toolCalls, event.body = .assistantToolCalls content toolCalls ∧ ∃ call ∈ toolCalls, call.id = id := by
  rw [PlatformEvent.issues] at issues
  split at issues
  next content toolCalls body => exact ⟨content, toolCalls, body, List.mem_map.mp issues⟩
  next => cases issues

theorem answers_body {event : PlatformEvent} {id : String} (answers : event.answers = some id) :
    ∃ toolName content, event.body = .toolResult id toolName content := by
  rw [PlatformEvent.answers] at answers
  split at answers
  next body =>
    cases answers
    exact ⟨_, _, body⟩
  next => cases answers

theorem buildAtomicToolRanges_atomic (events : List PlatformEvent) : Atomic events (buildAtomicToolRanges events) := by
  have merged := ranges_merged events
  constructor
  · exact merged.apart
  · intro whole member
    obtain ⟨range, listed, same⟩ := merged.ends whole member
    obtain ⟨entry, -, own⟩ := List.mem_flatMap.mp ((Comparator.mem_sort _).mp listed)
    rw [same]
    exact rangesOf_ends own
  · intro index event content toolCalls here body kept call member
    have complete : batchComplete (indexTools events) index toolCalls := by
      apply Classical.byContradiction
      intro missing
      apply kept
      apply unsafe_iff.mpr
      refine ⟨(event, index), List.mk_mem_zipIdx_iff_getElem?.mpr here, .inl ?_⟩
      simp [unsafeOf, body, missing]
    obtain ⟨later, listed⟩ := List.exists_mem_of_ne_nil _ (complete.2 call member)
    obtain ⟨after, result, found, answers⟩ := mem_laterResults.mp listed
    exact ⟨later, result, after, found, answers⟩
  · intro index event id here answers kept
    obtain ⟨toolName, content, body⟩ := answers_body answers
    cases known : (indexTools events).callIndexById.get id with
    | none =>
      apply absurd _ kept
      apply unsafe_iff.mpr
      refine ⟨(event, index), List.mk_mem_zipIdx_iff_getElem?.mpr here, .inr ?_⟩
      simp [orphanOf, body, known]
    | some earlier =>
      obtain ⟨call, found, issues⟩ := callIndex_sound known
      refine ⟨earlier, call, ?_, found, issues⟩
      apply Nat.lt_of_not_le
      intro wrong
      apply kept
      apply unsafe_iff.mpr
      refine ⟨(event, index), List.mk_mem_zipIdx_iff_getElem?.mpr here, .inr ?_⟩
      simp [orphanOf, body, known, wrong]
  · intro index later event result id here issues there answers after kept
    obtain ⟨content, toolCalls, body, call, called, rfl⟩ := issues_body issues
    have entry : (event, index) ∈ events.zipIdx := List.mk_mem_zipIdx_iff_getElem?.mpr here
    have listed : later ∈ toolCalls.flatMap (laterResults (indexTools events) index) :=
      List.mem_flatMap.mpr ⟨call, called, mem_laterResults.mpr ⟨after, result, there, answers⟩⟩
    by_cases complete : batchComplete (indexTools events) index toolCalls
    · obtain ⟨last, -, ranges, above⟩ := rangesOf_complete body complete
      have own : (⟨index, last⟩ : AtomicRange) ∈ byStart.sort (events.zipIdx.flatMap (rangesOf (indexTools events))) := by
        apply (Comparator.mem_sort _).mpr
        apply List.mem_flatMap.mpr
        exact ⟨(event, index), entry, by simp [ranges]⟩
      obtain ⟨whole, member, first, end'⟩ := merged.covers _ own
      exact ⟨whole, member, first, Nat.le_trans (above later listed) end'⟩
    · apply absurd _ kept
      apply unsafe_iff.mpr
      refine ⟨(event, index), entry, .inl ?_⟩
      simp only [unsafeOf, body, if_neg complete]
      exact List.mem_cons_of_mem _ listed

/-- No range begins before the index and ends at it or after. -/
def Boundary (tools : ToolRanges) (index : Nat) : Prop :=
  ∀ range ∈ tools.ranges, index ≤ range.first ∨ range.last < index

/-- The ranges are apart and each ends with a result. -/
structure Batched (events : List PlatformEvent) (tools : ToolRanges) : Prop where
  apart : Apart tools.ranges
  ends : ∀ range ∈ tools.ranges, ∃ event, events[range.last]? = some event ∧ event.answers.isSome

theorem Atomic.batched (atomic : Atomic events tools) : Batched events tools := ⟨atomic.apart, atomic.ends⟩

theorem boundary_length (batched : Batched events tools) : Boundary tools events.length := by
  intro range member
  obtain ⟨event, found, -⟩ := batched.ends range member
  right
  exact (List.getElem?_eq_some_iff.mp found).1

theorem Boundary.back (batched : Batched events tools) {index : Nat} (boundary : Boundary tools (index + 1))
    {event : PlatformEvent} (here : events[index]? = some event) (silent : event.answers = none) : Boundary tools index := by
  intro range member
  rcases boundary range member with later | earlier
  · left
    omega
  · by_cases ends : range.last = index
    · obtain ⟨last, found, answers⟩ := batched.ends range member
      rw [ends, here] at found
      cases found
      simp [silent] at answers
    · right
      omega

theorem scanThinking_boundary (batched : Batched events tools) (runId : Option String) {scan : Nat}
    (boundary : Boundary tools scan) (found : Bool) :
    let scanned := scanThinking events runId scan ⟨scan, found⟩
    Boundary tools scanned.pendingStart ∧ scanned.pendingStart ≤ scan := by
  induction scan generalizing found with
  | zero => exact ⟨boundary, Nat.le_refl _⟩
  | succ scan ih =>
    have stay : Boundary tools (scan + 1) ∧ scan + 1 ≤ scan + 1 := ⟨boundary, Nat.le_refl _⟩
    simp only [scanThinking]
    cases here : events[scan]? with
    | none => exact stay
    | some previous =>
      have further (silent : previous.answers = none) (found : Bool) :
          Boundary tools (scanThinking events runId scan ⟨scan, found⟩).pendingStart ∧
            (scanThinking events runId scan ⟨scan, found⟩).pendingStart ≤ scan + 1 := by
        obtain ⟨kept, below⟩ := ih (boundary.back batched here silent) found
        exact ⟨kept, Nat.le_succ_of_le below⟩
      simp only
      split
      next body =>
        split
        next => exact further (by simp [PlatformEvent.answers, body]) true
        next => exact stay
      next body =>
        split
        next => exact further (by simp [PlatformEvent.answers, body]) found
        next => exact stay
      next => exact stay

theorem unitStartAt_boundary (batched : Batched events tools) {cursor : Nat} (boundary : Boundary tools (cursor + 1)) :
    Boundary tools (unitStartAt events tools.ranges cursor) ∧ unitStartAt events tools.ranges cursor ≤ cursor := by
  have start : Boundary tools (((rangeByIndex tools.ranges cursor).map (·.first)).getD cursor) ∧
      ((rangeByIndex tools.ranges cursor).map (·.first)).getD cursor ≤ cursor := by
    cases found : rangeByIndex tools.ranges cursor with
    | none =>
      refine ⟨fun range member => ?_, Nat.le_refl _⟩
      have outside : ¬range.Contains cursor := by
        simpa using List.find?_eq_none.mp found range (List.mem_reverse.mpr member)
      rcases boundary range member with later | earlier
      · left
        exact Nat.le_of_succ_le later
      · unfold Range.Contains at outside
        simp only [Option.map_none, Option.getD_none]
        omega
    | some own =>
      have member : own ∈ tools.ranges := List.mem_reverse.mp (List.mem_of_find?_eq_some found)
      have inside : own.Contains cursor := by simpa using List.find?_some found
      refine ⟨fun range listed => ?_, inside.1⟩
      simp only [Option.map_some, Option.getD_some]
      rcases batched.apart.cases member listed with same | before | after
      · left
        rw [same]
      · left
        have order := inside.2
        have first := inside.1
        omega
      · exact .inr after
  simp only [unitStartAt]
  generalize ((rangeByIndex tools.ranges cursor).map (·.first)).getD cursor = unitStart at start
  cases events[unitStart]? with
  | none => exact start
  | some first =>
    simp only
    split
    next =>
      split
      next =>
        obtain ⟨kept, below⟩ := scanThinking_boundary batched first.runId start.1 false
        exact ⟨kept, Nat.le_trans below start.2⟩
      next => exact start
    next => exact start

theorem unsafePrefix_mono (unsafeIndices : List Nat) {low high : Nat} (order : low ≤ high) :
    unsafePrefix unsafeIndices low ≤ unsafePrefix unsafeIndices high := by
  induction order with
  | refl => exact Nat.le_refl _
  | step _ ih => exact Nat.le_trans ih (Nat.le_add_right ..)

theorem not_unsafe_of_prefix {unsafeIndices : List Nat} {low high index : Nat}
    (none : unsafePrefix unsafeIndices high - unsafePrefix unsafeIndices low = 0) (from' : low ≤ index)
    (before : index < high) : index ∉ unsafeIndices := by
  intro wrong
  have first := unsafePrefix_mono unsafeIndices from'
  have last := unsafePrefix_mono unsafeIndices (Nat.succ_le_of_lt before)
  have counted : unsafePrefix unsafeIndices (index + 1) = unsafePrefix unsafeIndices index + 1 := by
    simp [unsafePrefix, wrong]
  rw [Nat.succ_eq_add_one, counted] at last
  omega

/-- A suffix that may be kept: it begins at a boundary and has nothing unsafe. -/
structure Keepable (events : List PlatformEvent) (tools : ToolRanges) (start : Nat) : Prop where
  inside : start < events.length
  boundary : Boundary tools start
  clear : ∀ index, start ≤ index → index < events.length → index ∉ tools.unsafeIndices

theorem walkBack_keepable (estimate : List PlatformEvent → Int) (batched : Batched events tools) (budget : Int)
    (rounds position : Nat) (walk : Walk) (within : position ≤ events.length) (boundary : Boundary tools position)
    (clear : ∀ index, position ≤ index → index < events.length → index ∉ tools.unsafeIndices)
    (accepted : ∀ start ∈ walk.acceptedStarts, Keepable events tools start) :
    ∀ start ∈ walkBack estimate events tools budget rounds position walk, Keepable events tools start := by
  induction rounds generalizing position walk with
  | zero => exact accepted
  | succ rounds ih =>
    cases position with
    | zero => exact accepted
    | succ cursor =>
      obtain ⟨kept, below⟩ := unitStartAt_boundary batched boundary
      simp only [walkBack]
      generalize unitStartAt events tools.ranges cursor = unitStart at kept below
      split
      next => exact accepted
      split
      next => exact accepted
      split
      next => exact accepted
      next none =>
        split
        next => exact accepted
        next =>
          have more : ∀ index, unitStart ≤ index → index < events.length → index ∉ tools.unsafeIndices := by
            intro index after last
            by_cases unit : index < cursor + 1
            · exact not_unsafe_of_prefix (Nat.eq_zero_of_not_pos none) after unit
            · exact clear index (Nat.le_of_not_lt unit) last
          apply ih unitStart _ (by omega) kept more
          intro start member
          rcases List.mem_append.mp member with earlier | here
          · exact accepted start earlier
          · rw [List.mem_singleton.mp here]
            exact ⟨by omega, kept, more⟩

theorem shrink_spec (estimate : List PlatformEvent → Int) (events : List PlatformEvent) (budget : Int) (starts : List Nat) :
    let tail := shrink estimate events budget starts
    tail = ⟨events.length, 0⟩ ∨ tail.startIndex ∈ starts ∧
      tail.observedTokens = estimate (events.drop tail.startIndex) ∧ tail.observedTokens ≤ budget := by
  induction starts with
  | nil => exact .inl rfl
  | cons start rest ih =>
    simp only [shrink]
    split
    next =>
      rcases ih with none | ⟨member, facts⟩
      · exact .inl none
      · exact .inr ⟨List.mem_cons_of_mem _ member, facts⟩
    next fits => exact .inr ⟨List.mem_cons_self .., rfl, Int.not_lt.mp fits⟩

theorem selectAtomicRawTail_spec (estimate : List PlatformEvent → Int) (events : List PlatformEvent) (budget : Int) :
    let tail := selectAtomicRawTail estimate events budget
    tail = ⟨events.length, 0⟩ ∨ Keepable events (buildAtomicToolRanges events) tail.startIndex ∧
      tail.observedTokens = estimate (events.drop tail.startIndex) ∧ tail.observedTokens ≤ budget ∧ 0 < budget := by
  intro tail
  simp only [tail, selectAtomicRawTail]
  split
  next => exact .inl rfl
  next some =>
    have batched := (buildAtomicToolRanges_atomic events).batched
    have accepted := walkBack_keepable estimate batched budget events.length events.length ⟨[], 0⟩ (Nat.le_refl _)
      (boundary_length batched) (fun index after before => absurd before (Nat.not_lt.mpr after)) (by simp)
    rcases shrink_spec estimate events budget _ with none | ⟨member, tokens, fits⟩
    · exact .inl none
    · exact .inr ⟨accepted _ (List.mem_reverse.mp member), tokens, fits, by omega⟩

theorem Keepable.uncut (atomic : Atomic events tools) {start : Nat} (keepable : Keepable events tools start)
    {index later : Nat} {event result : PlatformEvent} {id : String} (here : events[index]? = some event)
    (issues : id ∈ event.issues) (there : events[later]? = some result) (answers : result.answers = some id)
    (order : index < later) (kept : start ≤ later) : start ≤ index := by
  have clear := keepable.clear later kept (List.getElem?_eq_some_iff.mp there).1
  obtain ⟨range, member, first, last⟩ := atomic.linked index later event result id here issues there answers order clear
  rcases keepable.boundary range member with after | before
  · omega
  · omega

/-- The raw tail has whole tool batches only, nothing of a batch that it drops, and is
empty or as large as it is said to be, never larger than the budget. -/
theorem rawTail_atomic (estimate : List PlatformEvent → Int) (events : List PlatformEvent) (budget : Int) :
    let tail := selectAtomicRawTail estimate events budget
    (∀ index event id, tail.startIndex ≤ index → events[index]? = some event → event.answers = some id →
      ∃ earlier call, tail.startIndex ≤ earlier ∧ earlier < index ∧ events[earlier]? = some call ∧ id ∈ call.issues) ∧
    (∀ index event content toolCalls, tail.startIndex ≤ index → events[index]? = some event →
      event.body = .assistantToolCalls content toolCalls → ∀ call ∈ toolCalls,
        ∃ later result, index < later ∧ events[later]? = some result ∧ result.answers = some call.id) ∧
    (∀ index later event result id, index < tail.startIndex → tail.startIndex ≤ later → events[index]? = some event →
      id ∈ event.issues → events[later]? = some result → result.answers ≠ some id) ∧
    (∀ index later event result id, tail.startIndex ≤ index → index < later → later < tail.startIndex →
      events[index]? = some event → id ∈ event.issues → events[later]? = some result → result.answers ≠ some id) ∧
    tail.startIndex ≤ events.length ∧
    tail.observedTokens = (if tail.startIndex < events.length then estimate (events.drop tail.startIndex) else 0) ∧
    tail.observedTokens ≤ max 0 budget := by
  intro tail
  have atomic := buildAtomicToolRanges_atomic events
  rcases selectAtomicRawTail_spec estimate events budget with empty | ⟨keepable, tokens, fits, positive⟩
  · have start : tail.startIndex = events.length := congrArg RawTail.startIndex empty
    have observed : tail.observedTokens = 0 := congrArg RawTail.observedTokens empty
    have outside {index : Nat} {event : PlatformEvent} (after : tail.startIndex ≤ index) : events[index]? ≠ some event := by
      rw [List.getElem?_eq_none (start ▸ after)]
      simp
    refine ⟨?_, ?_, ?_, ?_, by omega, by simp [start, observed], by omega⟩
    · intro index event id after here
      exact absurd here (outside after)
    · intro index event content toolCalls after here
      exact absurd here (outside after)
    · intro index later event result id before after here issues there
      exact absurd there (outside after)
    · intro index later event result id after order before here issues there
      omega
  · have clear {index : Nat} {event : PlatformEvent} (after : tail.startIndex ≤ index) (here : events[index]? = some event) :
        index ∉ (buildAtomicToolRanges events).unsafeIndices :=
      keepable.clear index after (List.getElem?_eq_some_iff.mp here).1
    refine ⟨?_, ?_, ?_, ?_, Nat.le_of_lt keepable.inside, ?_, ?_⟩
    · intro index event id after here answers
      obtain ⟨earlier, call, order, there, issues⟩ := atomic.issued index event id here answers (clear after here)
      exact ⟨earlier, call, keepable.uncut atomic there issues here answers order after, order, there, issues⟩
    · intro index event content toolCalls after here body
      exact atomic.answered index event content toolCalls here body (clear after here)
    · intro index later event result id before after here issues there answers
      have inside : tail.startIndex ≤ index := keepable.uncut atomic here issues there answers (by omega) after
      omega
    · intro index later event result id after order before
      omega
    · rw [if_pos keepable.inside]
      exact tokens
    · exact Int.le_trans fits (by omega)

/-- An estimate that counts a token for an empty list too, as that of the empty JSON array. -/
theorem empty_tail_unmeasured :
    let estimate (events : List PlatformEvent) : Int := events.length + 1
    let tail := selectAtomicRawTail estimate [] 10
    tail.startIndex = 0 ∧ tail.observedTokens = 0 ∧ estimate (([] : List PlatformEvent).drop tail.startIndex) = 1 := by
  decide

end AgentSaas.Proofs.RawTail
