import AgentSaas.BoundedWalk
import AgentSaas.Distances

/-! A walk finds what is near its start. Each entity is found once, on its level, and a walk that
was not cut short has found all of them. -/

namespace AgentSaas.Proofs.RelationWalk
open AgentSaas.BoundedWalk Distances Sorting
open ToolCallRepair (Text unit units)

variable {N Details : Type}

def Joins (edge : RelationEdgeCandidate Details) (item next : Text) : Prop :=
  edge.fromEntityId = item ∧ edge.toEntityId = next ∨ edge.toEntityId = item ∧ edge.fromEntityId = next

def Related (graph : List (RelationEdgeCandidate Details)) (item next : Text) : Prop := ∃ edge ∈ graph, Joins edge item next

def incident (ids : List Text) (edge : RelationEdgeCandidate Details) : Bool :=
  ids.contains edge.fromEntityId || ids.contains edge.toEntityId

/-- The store gives relations of the entities that are asked for: all of them, where they are not too
many. -/
structure Gives (graph : Text → List (RelationEdgeCandidate Details))
    (listAdjacent : RelationReadInput → List (RelationEdgeCandidate Details)) : Prop where
  real : ∀ input, ∀ edge ∈ listAdjacent input, edge ∈ graph input.tenantId ∧ incident input.entityIds edge = true
  complete : ∀ input, ((graph input.tenantId).filter (incident input.entityIds)).length ≤ input.limit →
    ∀ edge ∈ graph input.tenantId, incident input.entityIds edge = true → edge ∈ listAdjacent input

/-- Where they are too many it gives as many as it may. -/
structure Serves (graph : Text → List (RelationEdgeCandidate Details))
    (listAdjacent : RelationReadInput → List (RelationEdgeCandidate Details)) : Prop extends Gives graph listAdjacent where
  full : ∀ input, input.limit < ((graph input.tenantId).filter (incident input.entityIds)).length → input.limit ≤ (listAdjacent input).length

def OnLevel (start : Text) (candidates : List (RelationWalkCandidate Details)) (level : Nat) (item : Text) : Prop :=
  level = 0 ∧ item = start ∨ ∃ candidate ∈ candidates, candidate.depth = level ∧ candidate.nextEntityId = item

/-- Each entity is found once, by a relation from the level before. -/
structure Sound (graph : List (RelationEdgeCandidate Details)) (start : Text) (level : Nat) (walk : Walk Details) : Prop where
  visited : walk.visited = start :: walk.candidates.map (·.nextEntityId)
  distinct : walk.visited.Nodup
  levels : ∀ candidate ∈ walk.candidates, candidate.depth ≤ level
  real : ∀ candidate ∈ walk.candidates, candidate.edge ∈ graph ∧ Joins candidate.edge candidate.fromEntityId candidate.nextEntityId ∧
    ∃ before, candidate.depth = before + 1 ∧ OnLevel start walk.candidates before candidate.fromEntityId

/-- What is found is what is near. -/
def Exact (graph : List (RelationEdgeCandidate Details)) (start : Text) (level : Nat) (candidates : List (RelationWalkCandidate Details)) : Prop :=
  ∀ near ≤ level, ∀ item, OnLevel start candidates near item ↔ AtDistance (Related graph) start near item

section Edges

variable {candidateLimit depth : Nat} {frontier : List Text} {edges : List (RelationEdgeCandidate Details)} {walk : Walk Details}
  {edge : RelationEdgeCandidate Details} {step : Step}

theorem nextStep_joins (found : nextStep edge frontier = some step) :
    step.fromEntityId ∈ frontier ∧ Joins edge step.fromEntityId step.nextEntityId := by
  unfold nextStep at found
  split at found
  next here =>
    rw [← Option.some.inj found]
    exact ⟨List.contains_iff_mem.mp here, .inl ⟨rfl, rfl⟩⟩
  split at found
  next _ here =>
    rw [← Option.some.inj found]
    exact ⟨List.contains_iff_mem.mp here, .inr ⟨rfl, rfl⟩⟩
  · cases found

theorem nextStep_outward {item next : Text} (joins : Joins edge item next) (inside : item ∈ frontier) (outside : next ∉ frontier) :
    nextStep edge frontier = some ⟨item, next⟩ := by
  unfold nextStep
  rcases joins with ⟨rfl, rfl⟩ | ⟨rfl, rfl⟩
  · rw [if_pos (List.contains_iff_mem.mpr inside)]
  · rw [if_neg fun here => outside (List.contains_iff_mem.mp here), if_pos (List.contains_iff_mem.mpr inside)]

structure Taken (depth : Nat) (frontier : List Text) (edges : List (RelationEdgeCandidate Details)) (before after : Walk Details)
    (added : List (RelationWalkCandidate Details)) : Prop where
  candidates : after.candidates = before.candidates ++ added
  visited : after.visited = before.visited ++ added.map (·.nextEntityId)
  nextFrontier : after.nextFrontier = before.nextFrontier ++ added.map (·.nextEntityId)
  steps : ∀ candidate ∈ added, candidate.depth = depth ∧ candidate.edge ∈ edges ∧
    nextStep candidate.edge frontier = some ⟨candidate.fromEntityId, candidate.nextEntityId⟩
  distinct : before.visited.Nodup → after.visited.Nodup
  all : after.bounded = false → before.bounded = false ∧
    ∀ edge ∈ edges, ∀ step, nextStep edge frontier = some step → step.nextEntityId ∈ after.visited

/-- Nothing is added where no edge is left, or where the walk is cut short. -/
theorem Taken.stop (bounded : Bool) (last : bounded = false → walk.bounded = false ∧ edges = []) :
    Taken depth frontier edges walk { walk with bounded := bounded } [] := by
  refine ⟨(List.append_nil _).symm, (List.append_nil _).symm, (List.append_nil _).symm, fun _ member => absurd member List.not_mem_nil, id, ?_⟩
  intro free
  refine ⟨(last free).1, ?_⟩
  rw [(last free).2]
  exact fun _ member => absurd member List.not_mem_nil

theorem Taken.pass {after : Walk Details} {added : List (RelationWalkCandidate Details)} (taken : Taken depth frontier edges walk after added)
    (known : ∀ step, nextStep edge frontier = some step → step.nextEntityId ∈ walk.visited) :
    Taken depth frontier (edge :: edges) walk after added := by
  refine ⟨taken.candidates, taken.visited, taken.nextFrontier, ?_, taken.distinct, ?_⟩
  · exact fun candidate member => ⟨(taken.steps candidate member).1, List.mem_cons_of_mem _ (taken.steps candidate member).2.1,
      (taken.steps candidate member).2.2⟩
  · intro bounded
    refine ⟨(taken.all bounded).1, List.forall_mem_cons.mpr ⟨fun step found => ?_, (taken.all bounded).2⟩⟩
    rw [taken.visited]
    exact List.mem_append_left _ (known step found)

theorem Taken.add {after : Walk Details} {added : List (RelationWalkCandidate Details)} (found : nextStep edge frontier = some step)
    (fresh : step.nextEntityId ∉ walk.visited)
    (taken : Taken depth frontier edges
      { walk with
        visited := walk.visited ++ [step.nextEntityId]
        nextFrontier := walk.nextFrontier ++ [step.nextEntityId]
        candidates := walk.candidates ++ [⟨depth, step.fromEntityId, step.nextEntityId, edge⟩] } after added) :
    Taken depth frontier (edge :: edges) walk after (⟨depth, step.fromEntityId, step.nextEntityId, edge⟩ :: added) := by
  refine ⟨?_, ?_, ?_, ?_, ?_, ?_⟩
  · rw [taken.candidates, List.append_assoc]
    rfl
  · rw [taken.visited, List.append_assoc]
    rfl
  · rw [taken.nextFrontier, List.append_assoc]
    rfl
  · refine List.forall_mem_cons.mpr ⟨⟨rfl, List.mem_cons_self, found⟩, fun candidate member => ?_⟩
    exact ⟨(taken.steps candidate member).1, List.mem_cons_of_mem _ (taken.steps candidate member).2.1, (taken.steps candidate member).2.2⟩
  · intro distinct
    refine taken.distinct (List.nodup_append.mpr ⟨distinct, List.nodup_cons.mpr ⟨List.not_mem_nil, List.nodup_nil⟩, ?_⟩)
    intro item inside other same
    rw [List.mem_singleton.mp same]
    rintro rfl
    exact fresh inside
  · intro bounded
    refine ⟨(taken.all bounded).1, List.forall_mem_cons.mpr ⟨fun other again => ?_, (taken.all bounded).2⟩⟩
    rw [found] at again
    rw [← Option.some.inj again, taken.visited]
    exact List.mem_append_left _ (List.mem_append_right _ List.mem_cons_self)

theorem takeEdges_taken (candidateLimit depth : Nat) (frontier : List Text) (edges : List (RelationEdgeCandidate Details)) (walk : Walk Details) :
    ∃ added, Taken depth frontier edges walk (takeEdges candidateLimit depth frontier edges walk) added := by
  induction edges generalizing walk with
  | nil => exact ⟨[], .stop walk.bounded fun free => ⟨free, rfl⟩⟩
  | cons edge rest ih =>
    rw [takeEdges]
    split
    next full => exact ⟨[], .stop true fun free => absurd free Bool.noConfusion⟩
    next room =>
      split
      next nowhere =>
        obtain ⟨added, taken⟩ := ih walk
        refine ⟨added, taken.pass fun step found => ?_⟩
        rw [nowhere] at found
        cases found
      next step found =>
        split
        next known =>
          obtain ⟨added, taken⟩ := ih walk
          refine ⟨added, taken.pass fun other again => ?_⟩
          rw [found] at again
          rw [← Option.some.inj again]
          exact List.contains_iff_mem.mp known
        next fresh =>
          obtain ⟨added, taken⟩ := ih { walk with
            visited := walk.visited ++ [step.nextEntityId]
            nextFrontier := walk.nextFrontier ++ [step.nextEntityId]
            candidates := walk.candidates ++ [⟨depth, step.fromEntityId, step.nextEntityId, edge⟩] }
          exact ⟨_, .add found (fun inside => fresh (List.contains_iff_mem.mpr inside)) taken⟩

end Edges

section Levels

variable {graph : List (RelationEdgeCandidate Details)} {start : Text} {level : Nat} {frontier : List Text}
  {edges : List (RelationEdgeCandidate Details)} {before after : Walk Details} {added : List (RelationWalkCandidate Details)}

theorem onLevel_append {candidates : List (RelationWalkCandidate Details)} {near : Nat} {item : Text} :
    OnLevel start (candidates ++ added) near item ↔
      OnLevel start candidates near item ∨ ∃ candidate ∈ added, candidate.depth = near ∧ candidate.nextEntityId = item := by
  simp only [OnLevel, List.mem_append, or_and_right, exists_or, or_assoc]

theorem Sound.onLevel {walk : Walk Details} (sound : Sound graph start level walk) {item : Text} (member : item ∈ walk.visited) :
    ∃ near ≤ level, OnLevel start walk.candidates near item := by
  rw [sound.visited] at member
  rcases List.mem_cons.mp member with rfl | member
  · exact ⟨0, Nat.zero_le _, .inl ⟨rfl, rfl⟩⟩
  · obtain ⟨candidate, inside, rfl⟩ := List.mem_map.mp member
    exact ⟨_, sound.levels candidate inside, .inr ⟨candidate, inside, rfl, rfl⟩⟩

theorem Sound.visited_of_onLevel {walk : Walk Details} (sound : Sound graph start level walk) {near : Nat} {item : Text}
    (found : OnLevel start walk.candidates near item) : item ∈ walk.visited := by
  rw [sound.visited]
  rcases found with ⟨_, rfl⟩ | ⟨candidate, inside, _, rfl⟩
  · exact List.mem_cons_self
  · exact List.mem_cons_of_mem _ (List.mem_map_of_mem inside)

theorem Sound.take (sound : Sound graph start level before) (taken : Taken (level + 1) frontier edges before after added)
    (real : ∀ edge ∈ edges, edge ∈ graph) (ahead : ∀ item ∈ frontier, OnLevel start before.candidates level item) :
    Sound graph start (level + 1) after := by
  refine ⟨?_, taken.distinct sound.distinct, ?_, ?_⟩
  · rw [taken.visited, sound.visited, taken.candidates, List.map_append]
    rfl
  · rw [taken.candidates]
    intro candidate member
    rcases List.mem_append.mp member with member | member
    · exact Nat.le_succ_of_le (sound.levels candidate member)
    · exact Nat.le_of_eq (taken.steps candidate member).1
  · rw [taken.candidates]
    intro candidate member
    rcases List.mem_append.mp member with member | member
    · obtain ⟨inside, joins, near, depth, found⟩ := sound.real candidate member
      exact ⟨inside, joins, near, depth, onLevel_append.mpr (.inl found)⟩
    · obtain ⟨depth, inside, found⟩ := taken.steps candidate member
      obtain ⟨here, joins⟩ := nextStep_joins found
      exact ⟨real _ inside, joins, level, depth, onLevel_append.mpr (.inl (ahead _ here))⟩

theorem Exact.take (exact_before : Exact graph start level before.candidates) (sound : Sound graph start level before)
    (taken : Taken (level + 1) frontier edges before after added) (open_walk : after.bounded = false)
    (ahead : ∀ item, item ∈ frontier ↔ OnLevel start before.candidates level item) (real : ∀ edge ∈ edges, edge ∈ graph)
    (all : ∀ edge ∈ graph, incident frontier edge = true → edge ∈ edges) : Exact graph start (level + 1) after.candidates := by
  have distinct := taken.distinct sound.distinct
  rw [taken.visited] at distinct
  have fresh : ∀ candidate ∈ added, candidate.nextEntityId ∉ before.visited := fun candidate member inside =>
    (List.nodup_append.mp distinct).2.2 _ inside _ (List.mem_map_of_mem member) rfl
  rw [taken.candidates]
  intro near within item
  rw [onLevel_append]
  rcases Nat.lt_or_eq_of_le within with earlier | rfl
  · rw [← exact_before near (Nat.le_of_lt_succ earlier)]
    refine or_iff_left ?_
    rintro ⟨candidate, member, depth, _⟩
    rw [(taken.steps candidate member).1] at depth
    omega
  · have none_before : ¬ OnLevel start before.candidates (level + 1) item := by
      rintro (⟨zero, _⟩ | ⟨candidate, member, depth, _⟩)
      · cases zero
      · have bound := sound.levels candidate member
        omega
    rw [atDistance_succ]
    refine (or_iff_right none_before).trans ⟨?_, ?_⟩
    · rintro ⟨candidate, member, _, rfl⟩
      obtain ⟨_, inside, found⟩ := taken.steps candidate member
      obtain ⟨here, joins⟩ := nextStep_joins found
      refine ⟨⟨_, (exact_before level (Nat.le_refl _) _).mp ((ahead _).mp here), _, real _ inside, joins⟩, fun fewer short again => ?_⟩
      exact fresh candidate member (sound.visited_of_onLevel ((exact_before fewer short _).mpr again))
    · rintro ⟨⟨previous, close, edge, inside, joins⟩, far⟩
      have here : previous ∈ frontier := (ahead previous).mpr ((exact_before level (Nat.le_refl _) _).mpr close)
      have outside : item ∉ frontier := fun again => far level (Nat.le_refl _) ((exact_before level (Nat.le_refl _) _).mp ((ahead item).mp again))
      have adjacent : incident frontier edge = true := by
        simp only [incident, Bool.or_eq_true, List.contains_iff_mem]
        rcases joins with ⟨rfl, _⟩ | ⟨rfl, _⟩
        · exact .inl here
        · exact .inr here
      have found := (taken.all open_walk).2 edge (all edge inside adjacent) _ (nextStep_outward joins here outside)
      rw [taken.visited] at found
      rcases List.mem_append.mp found with known | new
      · obtain ⟨fewer, short, known⟩ := sound.onLevel known
        exact absurd ((exact_before fewer short _).mp known) (far fewer short)
      · obtain ⟨candidate, member, same⟩ := List.mem_map.mp new
        exact ⟨candidate, member, (taken.steps candidate member).1, same⟩

theorem Exact.beyond {candidates : List (RelationWalkCandidate Details)} (found : Exact graph start level candidates)
    (levels : ∀ candidate ∈ candidates, candidate.depth ≤ level) (nobody : ∀ item, ¬ OnLevel start candidates level item) (more : Nat) :
    Exact graph start (level + more) candidates := by
  have empty : ∀ more item, ¬ AtDistance (Related graph) start (level + more) item := by
    intro more
    induction more with
    | zero => exact fun item close => nobody item ((found level (Nat.le_refl _) item).mpr close)
    | succ more ih =>
      intro item close
      obtain ⟨⟨previous, closer, _⟩, _⟩ := atDistance_succ.mp close
      exact ih previous closer
  intro near within item
  by_cases short : near ≤ level
  · exact found near short item
  · obtain ⟨past, rfl⟩ := Nat.exists_eq_add_of_le (Nat.le_of_not_le short)
    refine iff_of_false ?_ (empty past item)
    rintro (⟨zero, _⟩ | ⟨candidate, member, depth, _⟩)
    · omega
    · have bound := levels candidate member
      omega

theorem takeLevels_walk {service : BoundedRelationWalkService N Details} {tenantId : Text} {candidateLimit : Nat} {graph : Text → List (RelationEdgeCandidate Details)}
    (serves : Serves graph service.listAdjacent) (few : candidateLimit ≤ MAX_CANDIDATES) (levels : Nat) {walk : Walk Details}
    (sound : Sound (graph tenantId) start level walk) (ahead : ∀ item, item ∈ frontier ↔ OnLevel start walk.candidates level item)
    (near : walk.bounded = false → Exact (graph tenantId) start level walk.candidates) :
    let after := takeLevels service tenantId candidateLimit levels (level + 1) frontier walk
    Sound (graph tenantId) start (level + levels) after ∧ (after.bounded = false → Exact (graph tenantId) start (level + levels) after.candidates) := by
  induction levels generalizing level frontier walk with
  | zero => exact ⟨sound, near⟩
  | succ levels ih =>
    have wider : Sound (graph tenantId) start (level + (levels + 1)) walk :=
      ⟨sound.visited, sound.distinct, fun candidate member => Nat.le_trans (sound.levels candidate member) (Nat.le_add_right _ _), sound.real⟩
    rw [takeLevels]
    split
    next empty =>
      refine ⟨wider, fun free => (near free).beyond sound.levels (fun item on => ?_) _⟩
      have inside := (ahead item).mpr on
      rw [empty] at inside
      cases inside
    split
    next full => exact ⟨⟨wider.visited, wider.distinct, wider.levels, wider.real⟩, fun free => absurd free Bool.noConfusion⟩
    next filled room =>
      dsimp only
      generalize asked : RelationReadInput.mk tenantId (frontier.insertionSort (· ≤ ·)) (min 500 (candidateLimit - walk.candidates.length + 1)) =
        input
      have limit : input.limit = candidateLimit - walk.candidates.length + 1 := by
        rw [← asked]
        simp only [MAX_CANDIDATES] at few
        exact Nat.min_eq_right (by omega)
      have tenant : input.tenantId = tenantId := by rw [← asked]
      have ids (edge : RelationEdgeCandidate Details) : incident input.entityIds edge = incident frontier edge := by
        rw [← asked, Bool.eq_iff_iff]
        simp only [incident, Bool.or_eq_true, List.contains_iff_mem, List.mem_insertionSort]
      generalize cut_short : decide (candidateLimit - walk.candidates.length < (service.listAdjacent input).length) = exceeded
      obtain ⟨added, taken⟩ := takeEdges_taken candidateLimit (level + 1) frontier
        ((compareEdges service.localeCompare).sort (service.listAdjacent input))
        { walk with bounded := walk.bounded || exceeded, nextFrontier := [] }
      generalize takeEdges candidateLimit (level + 1) frontier ((compareEdges service.localeCompare).sort (service.listAdjacent input))
        { walk with bounded := walk.bounded || exceeded, nextFrontier := [] } = after at taken
      have start_sound : Sound (graph tenantId) start level { walk with bounded := walk.bounded || exceeded, nextFrontier := [] } :=
        ⟨sound.visited, sound.distinct, sound.levels, sound.real⟩
      have real : ∀ edge ∈ (compareEdges service.localeCompare).sort (service.listAdjacent input), edge ∈ graph tenantId := by
        intro edge member
        rw [← tenant]
        exact (serves.real input edge ((compareEdges service.localeCompare).mem_sort.mp member)).1
      rw [show level + (levels + 1) = level + 1 + levels by omega]
      apply ih (start_sound.take taken real fun item inside => (ahead item).mp inside)
      · intro item
        rw [taken.nextFrontier, taken.candidates, onLevel_append]
        refine Iff.trans ?_ (or_iff_right ?_).symm
        · simp only [List.nil_append, List.mem_map]
          exact exists_congr fun candidate => and_congr_right fun member => (and_iff_right (taken.steps candidate member).1).symm
        · rintro (⟨zero, _⟩ | ⟨candidate, member, depth, _⟩)
          · cases zero
          · have bound := sound.levels candidate member
            omega
      · intro free
        have whole := (taken.all free).1
        simp only [Bool.or_eq_false_iff] at whole
        obtain ⟨free_before, within⟩ := whole
        rw [within, decide_eq_false_iff_not, Nat.not_lt] at cut_short
        have exact_before : Exact (graph tenantId) start level ({ walk with bounded := walk.bounded || exceeded, nextFrontier := [] } : Walk Details).candidates :=
          near free_before
        refine exact_before.take start_sound taken free ahead real fun edge inside adjacent => ?_
        rw [(compareEdges service.localeCompare).mem_sort]
        rw [← tenant] at inside
        refine serves.complete input ?_ edge inside (by rw [ids]; exact adjacent)
        by_contra more
        have given := serves.full input (Nat.lt_of_not_le more)
        omega

theorem takeEdges_length {candidateLimit depth : Nat} {walk : Walk Details} (few : walk.candidates.length ≤ candidateLimit) :
    (takeEdges candidateLimit depth frontier edges walk).candidates.length ≤ candidateLimit := by
  induction edges generalizing walk with
  | nil => exact few
  | cons edge rest ih =>
    rw [takeEdges]
    split
    · exact few
    next room =>
      split
      · exact ih few
      · split
        · exact ih few
        · apply ih
          rw [List.length_append]
          exact Nat.lt_of_not_le room

theorem takeLevels_length {service : BoundedRelationWalkService N Details} {tenantId : Text} {candidateLimit levels depth : Nat}
    {walk : Walk Details} (few : walk.candidates.length ≤ candidateLimit) :
    (takeLevels service tenantId candidateLimit levels depth frontier walk).candidates.length ≤ candidateLimit := by
  induction levels generalizing depth frontier walk with
  | zero => exact few
  | succ levels ih =>
    rw [takeLevels]
    split
    · exact few
    split
    · exact few
    · exact ih (takeEdges_length few)

end Levels

/-- What a walk finds. -/
structure Found (graph : List (RelationEdgeCandidate Details)) (start : Text) (maxDepth : Nat) (candidates : List (RelationWalkCandidate Details))
    (truncated : Bool) : Prop where
  once : (candidates.map (·.nextEntityId)).Nodup
  other : ∀ candidate ∈ candidates, candidate.nextEntityId ≠ start
  real : ∀ candidate ∈ candidates, candidate.edge ∈ graph ∧ Joins candidate.edge candidate.fromEntityId candidate.nextEntityId ∧
    ∃ before, candidate.depth = before + 1 ∧ OnLevel start candidates before candidate.fromEntityId
  near : truncated = false → ∀ depth item, (∃ candidate ∈ candidates, candidate.depth = depth ∧ candidate.nextEntityId = item) ↔
    1 ≤ depth ∧ depth ≤ maxDepth ∧ AtDistance (Related graph) start depth item

theorem collect_found {service : BoundedRelationWalkService N Details} {graph : Text → List (RelationEdgeCandidate Details)}
    (serves : Serves graph service.listAdjacent) (input : RelationWalkInput) {candidateLimit : Nat} (few : candidateLimit ≤ MAX_CANDIDATES) :
    Found (graph input.tenantId) input.startEntityId input.maxDepth (collect service input candidateLimit).candidates
      (collect service input candidateLimit).bounded := by
  have sound : Sound (graph input.tenantId) input.startEntityId 0 (⟨[input.startEntityId], [], [], false⟩ : Walk Details) :=
    ⟨rfl, List.nodup_cons.mpr ⟨List.not_mem_nil, List.nodup_nil⟩, fun _ member => absurd member List.not_mem_nil,
      fun _ member => absurd member List.not_mem_nil⟩
  have ahead : ∀ item, item ∈ [input.startEntityId] ↔
      OnLevel input.startEntityId ([] : List (RelationWalkCandidate Details)) 0 item := by
    simp [OnLevel]
  have near : Exact (graph input.tenantId) input.startEntityId 0 [] := by
    intro near within item
    obtain rfl := Nat.le_zero.mp within
    rw [atDistance_zero]
    simp [OnLevel]
  obtain ⟨after, exact_after⟩ := takeLevels_walk serves few input.maxDepth sound ahead fun _ => near
  simp only [Nat.zero_add] at after exact_after
  change Sound _ _ _ (collect service input candidateLimit) at after
  have distinct := after.distinct
  rw [after.visited, List.nodup_cons] at distinct
  refine ⟨distinct.2, fun candidate member same => ?_, after.real, fun free depth item => ?_⟩
  · exact distinct.1 (same ▸ List.mem_map_of_mem member)
  · constructor
    · rintro ⟨candidate, member, rfl, rfl⟩
      obtain ⟨_, _, before, positive, _⟩ := after.real candidate member
      have within := after.levels candidate member
      exact ⟨by omega, within, (exact_after free _ within _).mp (.inr ⟨candidate, member, rfl, rfl⟩)⟩
    · rintro ⟨positive, within, close⟩
      rcases (exact_after free depth within item).mpr close with ⟨zero, _⟩ | found
      · omega
      · exact found

end AgentSaas.Proofs.RelationWalk
