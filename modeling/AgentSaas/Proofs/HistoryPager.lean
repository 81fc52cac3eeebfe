import Mathlib.Data.String.Basic
import AgentSaas.HistoryPager

/-! The history pager: what pages, live items and deletions leave in any order, and the cursor that
a live item takes away. -/

namespace AgentSaas.Proofs.HistoryPager
open AgentSaas.HistoryPager AgentSaas.Dictionaries AgentSaas.Sorting

variable {τ : Type} {localeCompare : Comparator String} {orders : String → HistorySemanticOrder} {ids : List String}
  {state next : HistoryPagerState τ} {id : String}

def itemsOf : HistoryPagerAction τ → List (HistorySemanticItem τ)
  | .page page => page.items
  | .upsert _ _ item => [item]
  | .compaction _ _ items _ _ => items
  | .reset _ | .tombstone .. => []

def deletedBy : HistoryPagerAction τ → List String
  | .tombstone _ _ semanticId => [semanticId]
  | _ => []

/-- Every item is one of those known, with the order of its id. -/
def Carries (ids : List String) (orders : String → HistorySemanticOrder) (items : List (HistorySemanticItem τ)) : Prop :=
  ∀ item ∈ items, item.semanticId ∈ ids ∧ item.order = some (orders item.semanticId)

def Stored (ids : List String) (orders : String → HistorySemanticOrder)
    (byId : Dictionary String (StoredHistoryItem τ)) : Prop :=
  ∀ id item, byId.get id = some item → id ∈ ids ∧ item.order = some (orders id)

/-- No two of the ids have the same order. -/
def Apart (localeCompare : Comparator String) (orders : String → HistorySemanticOrder) (ids : List String) : Prop :=
  ∀ left ∈ ids, ∀ right ∈ ids,
    (compareHistorySemanticOrder localeCompare).compare (some (orders left)) (some (orders right)) = 0 → left = right

structure Valid (localeCompare : Comparator String) (orders : String → HistorySemanticOrder) (ids : List String)
    (state : HistoryPagerState τ) : Prop where
  ordered : state.orderedIds = sortIds localeCompare state.byId
  stored : Stored ids orders state.byId
  buried : ∀ id, state.tombstones.has id = true → state.byId.get id = none

theorem Valid.alive (valid : Valid localeCompare orders ids state) (id : String) (there : (state.byId.get id).isSome) :
    state.tombstones.has id = false := by
  by_contra gone
  simp [valid.buried id (by simpa using gone)] at there

theorem perm_sortIds (byId : Dictionary String (StoredHistoryItem τ)) : (sortIds localeCompare byId).Perm byId.keys :=
  (List.perm_insertionSort ..).map _

theorem mem_sortIds {byId : Dictionary String (StoredHistoryItem τ)} :
    id ∈ sortIds localeCompare byId ↔ (byId.get id).isSome := by
  rw [(perm_sortIds byId).mem_iff, Dictionary.mem_keys]

theorem sortIds_erase (byId : Dictionary String (StoredHistoryItem τ)) :
    sortIds localeCompare (byId.erase id) = (sortIds localeCompare byId).filter (· ≠ id) := by
  unfold sortIds
  rw [List.filter_map, Comparator.filter_sort]
  rfl

theorem le_of_items {left right : String × StoredHistoryItem τ} (first : left.2.order = some (orders left.1))
    (last : right.2.order = some (orders right.1)) (placed : (compareItems localeCompare).le left right) :
    (compareHistorySemanticOrder localeCompare).compare (some (orders left.1)) (some (orders right.1)) ≤ 0 := by
  rw [← first, ← last]
  unfold Comparator.le compareItems Comparator.andThen Comparator.onKey at placed
  dsimp only at placed
  split at placed
  next => exact placed
  next same => omega

theorem pairwise_sortIds {byId : Dictionary String (StoredHistoryItem τ)} (stored : Stored ids orders byId) :
    (sortIds localeCompare byId).Pairwise fun left right =>
      (compareHistorySemanticOrder localeCompare).compare (some (orders left)) (some (orders right)) ≤ 0 := by
  unfold sortIds
  rw [List.pairwise_map]
  refine List.Pairwise.imp_of_mem ?_ ((compareItems localeCompare).pairwise_sort byId.entries)
  intro left right first last placed
  have kept {entry : String × StoredHistoryItem τ} (member : entry ∈ (compareItems localeCompare).sort byId.entries) :
      entry.2.order = some (orders entry.1) :=
    (stored entry.1 entry.2 (Dictionary.mem_entries.mp ((compareItems localeCompare).mem_sort.mp member))).2
  exact le_of_items (kept first) (kept last) placed

theorem sortIds_congr {left right : Dictionary String (StoredHistoryItem τ)} (apart : Apart localeCompare orders ids)
    (first : Stored ids orders left) (last : Stored ids orders right)
    (same : ∀ id, (left.get id).isSome ↔ (right.get id).isSome) : sortIds localeCompare left = sortIds localeCompare right := by
  have known {byId : Dictionary String (StoredHistoryItem τ)} (stored : Stored ids orders byId) {id : String}
      (member : id ∈ sortIds localeCompare byId) : id ∈ ids := by
    obtain ⟨item, found⟩ := Option.isSome_iff_exists.mp (mem_sortIds.mp member)
    exact (stored id item found).1
  have perm : (sortIds localeCompare left).Perm (sortIds localeCompare right) := by
    apply (List.perm_ext_iff_of_nodup ?_ ?_).mpr
    · exact fun id => mem_sortIds.trans ((same id).trans mem_sortIds.symm)
    · exact (perm_sortIds left).nodup_iff.mpr left.keys_nodup
    · exact (perm_sortIds right).nodup_iff.mpr right.keys_nodup
  refine List.Perm.eq_of_pairwise ?_ (pairwise_sortIds first) (pairwise_sortIds last) perm
  intro one two inside outside before after
  have back := (compareHistorySemanticOrder localeCompare).swap (some (orders one)) (some (orders two))
  exact apart one (known first inside) two (known last outside) (by omega)

section merge

variable {tombstones : Dictionary String Unit} {merge : Merge τ} {items : List (HistorySemanticItem τ)}

theorem skips_iff {item : HistorySemanticItem τ} :
    skips tombstones item = false ↔ item.semanticId ≠ "" ∧ tombstones.has item.semanticId = false := by
  simp [skips]

theorem putItem_present (item : HistorySemanticItem τ) :
    ((putItem tombstones merge item).byId.get id).isSome ↔
      (merge.byId.get id).isSome ∨ skips tombstones item = false ∧ item.semanticId = id := by
  unfold putItem
  cases skipped : skips tombstones item with
  | true => simp
  | false =>
    simp only [Bool.false_eq_true, if_false, Dictionary.get_set, true_and]
    by_cases same : item.semanticId = id
    · simp [same]
    · simp [same, Ne.symm same]

theorem putItems_present : ((items.foldl (putItem tombstones) merge).byId.get id).isSome ↔
    (merge.byId.get id).isSome ∨ ∃ item ∈ items, skips tombstones item = false ∧ item.semanticId = id := by
  induction items generalizing merge with
  | nil => simp
  | cons item rest ih =>
    rw [List.foldl_cons, ih, putItem_present]
    simp only [List.mem_cons, exists_eq_or_imp, or_assoc]

theorem putItem_stored (stored : Stored ids orders merge.byId) {item : HistorySemanticItem τ}
    (carries : item.semanticId ∈ ids ∧ item.order = some (orders item.semanticId)) :
    Stored ids orders (putItem tombstones merge item).byId := by
  unfold putItem
  split
  · exact stored
  · intro id found
    dsimp only
    rw [Dictionary.get_set]
    split
    next same =>
      rintro ⟨⟩
      exact ⟨same ▸ carries.1, by simp [carries.2, same]⟩
    next => exact stored id found

theorem putItems_stored (stored : Stored ids orders merge.byId) (carries : Carries ids orders items) :
    Stored ids orders (items.foldl (putItem tombstones) merge).byId := by
  induction items generalizing merge with
  | nil => exact stored
  | cons item rest ih =>
    apply ih (putItem_stored stored (carries item (List.mem_cons_self ..)))
    exact fun other member => carries other (List.mem_cons_of_mem _ member)

theorem putItems_changed (items : List (HistorySemanticItem τ)) (merge : Merge τ) :
    (items.foldl (putItem tombstones) merge).changed = (merge.changed || items.any fun item => !skips tombstones item) := by
  induction items generalizing merge with
  | nil => simp
  | cons item rest ih =>
    rw [List.foldl_cons, ih]
    cases skipped : skips tombstones item <;> simp [putItem, skipped]

theorem putItems_skipped (skipped : ∀ item ∈ items, skips tombstones item = true) :
    items.foldl (putItem tombstones) merge = merge := by
  induction items generalizing merge with
  | nil => rfl
  | cons item rest ih =>
    rw [List.foldl_cons, putItem, if_pos (skipped item (List.mem_cons_self ..))]
    exact ih fun other member => skipped other (List.mem_cons_of_mem _ member)

theorem place_stored (stored : Stored ids orders merge.byId) {item : HistorySemanticItem τ}
    (carries : item.semanticId ∈ ids ∧ item.order = some (orders item.semanticId)) :
    Stored ids orders (place merge item).byId := by
  unfold place
  split
  · exact stored
  · intro id found
    dsimp only
    rw [Dictionary.get_set]
    split
    next same =>
      rintro ⟨⟩
      exact ⟨same ▸ carries.1, same ▸ carries.2⟩
    next => exact stored id found

theorem places_stored (stored : Stored ids orders merge.byId) (carries : Carries ids orders items) :
    Stored ids orders (items.foldl place merge).byId := by
  induction items generalizing merge with
  | nil => exact stored
  | cons item rest ih =>
    apply ih (place_stored stored (carries item (List.mem_cons_self ..)))
    exact fun other member => carries other (List.mem_cons_of_mem _ member)

end merge

theorem stored_empty : Stored (τ := τ) ids orders .empty := by
  intro id item found
  cases found

theorem create_valid (generation : Int) : Valid (τ := τ) localeCompare orders ids (createHistoryPagerState generation) where
  ordered := rfl
  stored := stored_empty
  buried _ _ := rfl

theorem replace_valid {items : List (HistorySemanticItem τ)} (carries : Carries ids orders items) (generation : Int)
    (historyRevision : String) (hasMore : Bool) (nextCursor : Option String) :
    Valid localeCompare orders ids
      (replaceWithItems localeCompare generation historyRevision items hasMore nextCursor) where
  ordered := rfl
  stored := places_stored stored_empty carries
  buried _ gone := by cases gone

/-! What a page, a live item and a deletion do. -/

/-- The ids there are, and those deleted, after items were taken in and ids deleted. -/
structure Steps (state : HistoryPagerState τ) (items : List (HistorySemanticItem τ)) (deleted : List String)
    (next : HistoryPagerState τ) : Prop where
  gone : ∀ id, next.tombstones.has id = true ↔ state.tombstones.has id = true ∨ id ≠ "" ∧ id ∈ deleted
  present : ∀ id, (next.byId.get id).isSome ↔ next.tombstones.has id = false ∧
    ((state.byId.get id).isSome ∨ id ≠ "" ∧ ∃ item ∈ items, item.semanticId = id)

theorem Steps.trans {last : HistoryPagerState τ} {items more : List (HistorySemanticItem τ)} {deleted further : List String}
    (first : Steps state items deleted next) (second : Steps next more further last) :
    Steps state (items ++ more) (deleted ++ further) last where
  gone id := by
    rw [second.gone, first.gone, List.mem_append]
    tauto
  present id := by
    have kept : last.tombstones.has id = false → next.tombstones.has id = false := by
      intro absent
      by_contra there
      rw [Bool.not_eq_false] at there
      simp [(second.gone id).mpr (.inl there)] at absent
    rw [second.present, first.present]
    simp only [List.mem_append, or_and_right, exists_or]
    constructor
    · rintro ⟨live, ⟨-, there | ⟨named, here⟩⟩ | ⟨named, later⟩⟩
      · exact ⟨live, .inl there⟩
      · exact ⟨live, .inr ⟨named, .inl here⟩⟩
      · exact ⟨live, .inr ⟨named, .inr later⟩⟩
    · rintro ⟨live, there | ⟨named, here | later⟩⟩
      · exact ⟨live, .inl ⟨kept live, .inl there⟩⟩
      · exact ⟨live, .inl ⟨kept live, .inr ⟨named, here⟩⟩⟩
      · exact ⟨live, .inr ⟨named, later⟩⟩

theorem mergeItems_fields (state : HistoryPagerState τ) (actionRevision : Option String)
    (items : List (HistorySemanticItem τ)) (page : Option (HistoryPage τ)) :
    let next := mergeItems localeCompare state actionRevision items page
    next.generation = state.generation ∧ next.tombstones = state.tombstones ∧
      next.byId = (items.foldl (putItem state.tombstones) ⟨state.byId, state.arrivalSequence, false⟩).byId := by
  simp only [mergeItems]
  split
  next unchanged =>
    have skipped : ∀ item ∈ items, skips state.tombstones item = true := by
      simpa [putItems_changed] using (Bool.and_eq_true_iff.mp unchanged).1
    rw [putItems_skipped skipped]
    exact ⟨rfl, rfl, rfl⟩
  next => exact ⟨rfl, rfl, rfl⟩

theorem mergeItems_ordered (ordered : state.orderedIds = sortIds localeCompare state.byId) (actionRevision : Option String)
    (items : List (HistorySemanticItem τ)) (page : Option (HistoryPage τ)) :
    let next := mergeItems localeCompare state actionRevision items page
    next.orderedIds = sortIds localeCompare next.byId := by
  simp only [mergeItems]
  split
  next => exact ordered
  next =>
    dsimp only
    split
    next => rfl
    next unchanged =>
      have skipped : ∀ item ∈ items, skips state.tombstones item = true := by simpa [putItems_changed] using unchanged
      rw [putItems_skipped skipped]
      exact ordered

theorem mergeItems_valid (valid : Valid localeCompare orders ids state) {items : List (HistorySemanticItem τ)}
    (carries : Carries ids orders items) (actionRevision : Option String) (page : Option (HistoryPage τ)) :
    Valid localeCompare orders ids (mergeItems localeCompare state actionRevision items page) := by
  obtain ⟨-, tombstones, byId⟩ := @mergeItems_fields τ localeCompare state actionRevision items page
  refine ⟨mergeItems_ordered valid.ordered actionRevision items page, ?_, fun id gone => ?_⟩
  · rw [byId]
    exact putItems_stored valid.stored carries
  · rw [tombstones] at gone
    rw [byId, ← Option.not_isSome_iff_eq_none, putItems_present]
    rintro (there | ⟨item, -, taken, rfl⟩)
    · simp [valid.buried id gone] at there
    · simp [(skips_iff.mp taken).2] at gone

theorem mergeItems_steps (valid : Valid localeCompare orders ids state) (actionRevision : Option String)
    (items : List (HistorySemanticItem τ)) (page : Option (HistoryPage τ)) :
    Steps state items [] (mergeItems localeCompare state actionRevision items page) := by
  obtain ⟨-, tombstones, byId⟩ := @mergeItems_fields τ localeCompare state actionRevision items page
  refine ⟨fun id => by simp [tombstones], fun id => ?_⟩
  rw [tombstones, byId, putItems_present]
  constructor
  · rintro (there | ⟨item, member, taken, rfl⟩)
    · exact ⟨valid.alive id there, .inl there⟩
    · exact ⟨(skips_iff.mp taken).2, .inr ⟨(skips_iff.mp taken).1, item, member, rfl⟩⟩
  · rintro ⟨live, there | ⟨named, item, member, rfl⟩⟩
    · exact .inl there
    · exact .inr ⟨item, member, skips_iff.mpr ⟨named, live⟩, rfl⟩

theorem applyTombstone_valid (valid : Valid localeCompare orders ids state) (historyRevision : Option String)
    (semanticId : String) : Valid localeCompare orders ids (applyTombstone state historyRevision semanticId) := by
  unfold applyTombstone
  split
  · exact valid
  · refine ⟨?_, fun id item found => ?_, fun id gone => ?_⟩
    · dsimp only
      rw [sortIds_erase, valid.ordered]
    · by_cases same : id = semanticId
      · simp [same] at found
      · rw [Dictionary.get_erase_of_ne same] at found
        exact valid.stored id item found
    · by_cases same : id = semanticId
      · simp [same]
      · dsimp only at gone ⊢
        rw [Dictionary.has, Dictionary.get_set_of_ne same] at gone
        rw [Dictionary.get_erase_of_ne same]
        exact valid.buried id gone

theorem applyTombstone_steps (valid : Valid localeCompare orders ids state) (historyRevision : Option String)
    (semanticId : String) : Steps state [] [semanticId] (applyTombstone state historyRevision semanticId) := by
  unfold applyTombstone
  split
  next nothing =>
    refine ⟨fun id => ?_, fun id => ?_⟩
    · constructor
      · exact .inl
      · rintro (gone | ⟨named, member⟩)
        · exact gone
        · cases List.mem_singleton.mp member
          simpa [named] using nothing
    · simpa using valid.alive id
  next deletes =>
    have named : semanticId ≠ "" := fun empty => deletes (by simp [empty])
    refine ⟨fun id => ?_, fun id => ?_⟩
    · rw [Dictionary.has, Dictionary.get_set]
      by_cases same : id = semanticId
      · simp [same, named]
      · simp [same, Dictionary.has]
    · rw [Dictionary.has, Dictionary.get_set]
      by_cases same : id = semanticId
      · simp [same]
      · simp only [Dictionary.get_erase_of_ne same, same, if_false]
        simpa [Dictionary.has] using valid.alive id

/-! Any actions, and those of one generation and one revision. -/

theorem reduce_valid (valid : Valid localeCompare orders ids state) {action : HistoryPagerAction τ}
    (carries : Carries ids orders (itemsOf action)) :
    Valid localeCompare orders ids (reduceHistoryPager localeCompare state action) := by
  cases action with
  | reset generation =>
    simp only [reduceHistoryPager]
    split
    · exact valid
    · exact create_valid generation
  | compaction =>
    simp only [reduceHistoryPager]
    split
    · exact valid
    · exact replace_valid carries ..
  | page page =>
    simp only [reduceHistoryPager]
    split
    · exact valid
    · split
      · split
        · exact replace_valid carries ..
        · exact valid
      · exact mergeItems_valid valid carries ..
  | upsert =>
    simp only [reduceHistoryPager]
    split
    · exact valid
    · exact mergeItems_valid valid carries ..
  | tombstone =>
    simp only [reduceHistoryPager]
    split
    · exact valid
    · exact applyTombstone_valid valid ..

def run (localeCompare : Comparator String) (state : HistoryPagerState τ) (actions : List (HistoryPagerAction τ)) :
    HistoryPagerState τ :=
  actions.foldl (reduceHistoryPager localeCompare) state

theorem run_append (first rest : List (HistoryPagerAction τ)) :
    run localeCompare state (first ++ rest) = run localeCompare (run localeCompare state first) rest :=
  List.foldl_append

theorem run_valid (valid : Valid localeCompare orders ids state) {actions : List (HistoryPagerAction τ)}
    (carries : Carries ids orders (actions.flatMap itemsOf)) : Valid localeCompare orders ids (run localeCompare state actions) := by
  induction actions generalizing state with
  | nil => exact valid
  | cons action rest ih =>
    rw [List.flatMap_cons] at carries
    apply ih (reduce_valid valid fun item member => carries item (List.mem_append_left _ member))
    exact fun item member => carries item (List.mem_append_right _ member)

/-- A page, a live item or a deletion of the generation and the revision. -/
def Within (generation : Int) (revision : String) : HistoryPagerAction τ → Prop
  | .page page => page.generation = generation ∧ page.historyRevision = revision
  | .upsert asked known _ | .tombstone asked known _ => asked = generation ∧ ∀ other ∈ known, other = revision
  | .reset _ | .compaction .. => False

structure InRevision (generation : Int) (revision : String) (state : HistoryPagerState τ) : Prop where
  generation : state.generation = generation
  revised : ∀ known ∈ state.historyRevision, known = revision

theorem otherRevision_same {revision : String} {known asked : Option String} (first : ∀ other ∈ known, other = revision)
    (last : ∀ other ∈ asked, other = revision) : otherRevision known asked = false := by
  unfold otherRevision
  split
  next one two =>
    have kept := first _ (Option.filter_eq_some_iff.mp one).1
    have other := last _ (Option.filter_eq_some_iff.mp two).1
    simp [kept, other]
  next => rfl

theorem orElse_revised {revision : String} {known asked : Option String} (first : ∀ other ∈ known, other = revision)
    (last : ∀ other ∈ asked, other = revision) : ∀ other ∈ known <|> asked, other = revision := by
  cases known with
  | none => simpa using last
  | some known => simpa using first

section within

variable {generation : Int} {revision : String} {action : HistoryPagerAction τ}

theorem reduce_within (inside : InRevision generation revision state) (within : Within generation revision action) :
    (∃ page, action = .page page ∧ reduceHistoryPager localeCompare state action =
      mergeItems localeCompare state (some page.historyRevision) page.items (some page)) ∨
    (∃ known item, action = .upsert generation known item ∧ reduceHistoryPager localeCompare state action =
      mergeItems localeCompare state known [item] none) ∨
    (∃ known semanticId, action = .tombstone generation known semanticId ∧
      reduceHistoryPager localeCompare state action = applyTombstone state known semanticId) := by
  cases action with
  | reset | compaction => exact within.elim
  | page page =>
    have same := @otherRevision_same revision state.historyRevision (some page.historyRevision) inside.revised
      (fun other member => (Option.mem_some_iff.mp member) ▸ within.2)
    refine .inl ⟨page, rfl, ?_⟩
    simp [reduceHistoryPager, within.1, inside.generation, same]
  | upsert asked known item =>
    obtain ⟨rfl, revised⟩ := within
    refine .inr (.inl ⟨known, item, rfl, ?_⟩)
    simp [reduceHistoryPager, inside.generation, otherRevision_same inside.revised revised]
  | tombstone asked known semanticId =>
    obtain ⟨rfl, revised⟩ := within
    refine .inr (.inr ⟨known, semanticId, rfl, ?_⟩)
    simp [reduceHistoryPager, inside.generation, otherRevision_same inside.revised revised]

theorem mergeItems_revision (inside : InRevision generation revision state) {known : Option String}
    (revised : ∀ other ∈ known, other = revision) (items : List (HistorySemanticItem τ)) (page : Option (HistoryPage τ)) :
    InRevision generation revision (mergeItems localeCompare state known items page) := by
  refine ⟨(mergeItems_fields state known items page).1.trans inside.generation, ?_⟩
  simp only [mergeItems]
  split
  · exact inside.revised
  · exact orElse_revised inside.revised revised

theorem applyTombstone_revision (inside : InRevision generation revision state) {known : Option String}
    (revised : ∀ other ∈ known, other = revision) (semanticId : String) :
    InRevision generation revision (applyTombstone state known semanticId) := by
  unfold applyTombstone
  split
  · exact inside
  · exact ⟨inside.generation, orElse_revised inside.revised revised⟩

theorem reduce_revision (inside : InRevision generation revision state) (within : Within generation revision action) :
    InRevision generation revision (reduceHistoryPager localeCompare state action) := by
  obtain ⟨page, rfl, same⟩ | ⟨known, item, rfl, same⟩ | ⟨known, semanticId, rfl, same⟩ :=
    @reduce_within τ localeCompare state generation revision action inside within
  · rw [same]
    exact mergeItems_revision inside (fun other member => (Option.mem_some_iff.mp member) ▸ within.2) _ _
  · rw [same]
    exact mergeItems_revision inside within.2 _ _
  · rw [same]
    exact applyTombstone_revision inside within.2 _

theorem reduce_steps (valid : Valid localeCompare orders ids state) (inside : InRevision generation revision state)
    (within : Within generation revision action) :
    Steps state (itemsOf action) (deletedBy action) (reduceHistoryPager localeCompare state action) := by
  obtain ⟨page, rfl, same⟩ | ⟨known, item, rfl, same⟩ | ⟨known, semanticId, rfl, same⟩ :=
    @reduce_within τ localeCompare state generation revision action inside within
  · rw [same]
    exact mergeItems_steps valid _ _ _
  · rw [same]
    exact mergeItems_steps valid _ _ _
  · rw [same]
    exact applyTombstone_steps valid _ _

variable {actions : List (HistoryPagerAction τ)}

theorem run_revision (inside : InRevision generation revision state)
    (within : ∀ action ∈ actions, Within generation revision action) :
    InRevision generation revision (run localeCompare state actions) := by
  induction actions generalizing state with
  | nil => exact inside
  | cons action rest ih =>
    apply ih (reduce_revision inside (within action (List.mem_cons_self ..)))
    exact fun other member => within other (List.mem_cons_of_mem _ member)

theorem run_steps (valid : Valid localeCompare orders ids state) (inside : InRevision generation revision state)
    (carries : Carries ids orders (actions.flatMap itemsOf)) (within : ∀ action ∈ actions, Within generation revision action) :
    Steps state (actions.flatMap itemsOf) (actions.flatMap deletedBy) (run localeCompare state actions) := by
  induction actions generalizing state with
  | nil => exact ⟨fun id => by simp [run], fun id => by simpa [run] using valid.alive id⟩
  | cons action rest ih =>
    have own := within action (List.mem_cons_self ..)
    rw [List.flatMap_cons] at carries
    rw [List.flatMap_cons, List.flatMap_cons]
    apply (reduce_steps valid inside own).trans
    apply ih (reduce_valid valid fun item member => carries item (List.mem_append_left _ member)) (reduce_revision inside own)
    · exact fun item member => carries item (List.mem_append_right _ member)
    · exact fun other member => within other (List.mem_cons_of_mem _ member)

theorem run_perm (apart : Apart localeCompare orders ids) (valid : Valid localeCompare orders ids state)
    (inside : InRevision generation revision state) (carries : Carries ids orders (actions.flatMap itemsOf))
    (within : ∀ action ∈ actions, Within generation revision action) {other : List (HistoryPagerAction τ)}
    (perm : actions.Perm other) : (run localeCompare state other).orderedIds = (run localeCompare state actions).orderedIds := by
  have items : (actions.flatMap itemsOf).Perm (other.flatMap itemsOf) := perm.flatMap_right itemsOf
  have deleted : (actions.flatMap deletedBy).Perm (other.flatMap deletedBy) := perm.flatMap_right deletedBy
  have others : Carries ids orders (other.flatMap itemsOf) := fun item member => carries item (items.mem_iff.mpr member)
  have first := run_steps valid inside carries within
  have last := run_steps valid inside others fun action member => within action (perm.mem_iff.mpr member)
  have gone (id : String) : (run localeCompare state other).tombstones.has id =
      (run localeCompare state actions).tombstones.has id := by
    rw [Bool.eq_iff_iff, first.gone, last.gone, deleted.mem_iff]
  have there := run_valid valid carries
  have here := run_valid valid others
  rw [there.ordered, here.ordered]
  refine sortIds_congr apart here.stored there.stored fun id => ?_
  rw [first.present, last.present, gone]
  simp only [items.mem_iff]

theorem run_buried (valid : Valid localeCompare orders ids state) (inside : InRevision generation revision state)
    (carries : Carries ids orders (actions.flatMap itemsOf)) (within : ∀ action ∈ actions, Within generation revision action)
    (gone : state.tombstones.has id = true) : id ∉ (run localeCompare state actions).orderedIds := by
  have kept := ((run_steps valid inside carries within).gone id).mpr (.inl gone)
  have last := run_valid valid carries
  rw [last.ordered, mem_sortIds, last.buried id kept]
  simp

end within

def IsLive : HistoryPagerAction τ → Prop
  | .upsert .. | .tombstone .. => True
  | _ => False

/-- The item is passed by, or there is no cursor to lose. -/
def SparesCursor (state : HistoryPagerState τ) : HistoryPagerAction τ → Prop
  | .upsert _ _ item => skips state.tombstones item = true ∨ state.nextCursor = none
  | _ => True

theorem mergeItem_paging (state : HistoryPagerState τ) (known : Option String) (item : HistorySemanticItem τ) :
    let next := mergeItems localeCompare state known [item] none
    next.hasMore = state.hasMore ∧
      next.nextCursor = if skips state.tombstones item = true then state.nextCursor else none := by
  cases skipped : skips state.tombstones item with
  | true => simp [mergeItems, putItem, skipped]
  | false => simp [mergeItems, putItem, skipped, truthy]

theorem applyTombstone_paging (state : HistoryPagerState τ) (known : Option String) (semanticId : String) :
    let next := applyTombstone state known semanticId
    next.hasMore = state.hasMore ∧ next.nextCursor = state.nextCursor := by
  unfold applyTombstone
  split <;> exact ⟨rfl, rfl⟩

theorem live_paging {generation : Int} {revision : String} {action : HistoryPagerAction τ}
    (inside : InRevision generation revision state) (within : Within generation revision action) (live : IsLive action) :
    let next := reduceHistoryPager localeCompare state action
    next.hasMore = state.hasMore ∧ (next.nextCursor = state.nextCursor ↔ SparesCursor state action) := by
  obtain ⟨page, rfl, same⟩ | ⟨known, item, rfl, same⟩ | ⟨known, semanticId, rfl, same⟩ :=
    @reduce_within τ localeCompare state generation revision action inside within
  · exact live.elim
  · obtain ⟨more, cursor⟩ := @mergeItem_paging τ localeCompare state known item
    rw [same]
    refine ⟨more, ?_⟩
    rw [cursor, SparesCursor]
    cases skips state.tombstones item with
    | true => simp
    | false => simp [eq_comm]
  · obtain ⟨more, cursor⟩ := applyTombstone_paging state known semanticId
    rw [same]
    exact ⟨more, iff_of_true cursor trivial⟩

/-- The order of the items is that of any order of the actions, what is deleted stays away, and live
items and deletions leave the paging where it is. -/
structure Keeps (localeCompare : Comparator String) (state : HistoryPagerState τ) (actions : List (HistoryPagerAction τ)) :
    Prop where
  converges : ∀ other, actions.Perm other →
    (run localeCompare state other).orderedIds = (run localeCompare state actions).orderedIds
  buried : ∀ first rest id, actions = first ++ rest → (run localeCompare state first).tombstones.has id = true →
    id ∉ (run localeCompare state actions).orderedIds
  paging : ∀ first action rest, actions = first ++ action :: rest → IsLive action →
    let before := run localeCompare state first
    let after := reduceHistoryPager localeCompare before action
    after.nextCursor = before.nextCursor ∧ after.hasMore = before.hasMore

theorem keeps_iff {actions : List (HistoryPagerAction τ)} {revision : String} (apart : Apart localeCompare orders ids)
    (valid : Valid localeCompare orders ids state) (revised : ∀ known ∈ state.historyRevision, known = revision)
    (carries : Carries ids orders (actions.flatMap itemsOf))
    (within : ∀ action ∈ actions, Within state.generation revision action) :
    Keeps localeCompare state actions ↔
      ∀ first action rest, actions = first ++ action :: rest → SparesCursor (run localeCompare state first) action := by
  have inside : InRevision state.generation revision state := ⟨rfl, revised⟩
  -- The state before any action of the run is of the same generation and revision.
  have reached {first rest : List (HistoryPagerAction τ)} (split : actions = first ++ rest) :
      InRevision state.generation revision (run localeCompare state first) :=
    run_revision inside fun action member => within action (split ▸ List.mem_append_left _ member)
  have own {first rest : List (HistoryPagerAction τ)} {action : HistoryPagerAction τ}
      (split : actions = first ++ action :: rest) : Within state.generation revision action :=
    within action (split ▸ List.mem_append_right _ (List.mem_cons_self ..))
  constructor
  · intro keeps first action rest split
    cases action with
    | upsert asked known item =>
      exact (live_paging (reached split) (own split) trivial).2.mp (keeps.paging first _ rest split trivial).1
    | _ => exact trivial
  · intro spares
    refine ⟨fun other perm => run_perm apart valid inside carries within perm, ?_, ?_⟩
    · rintro first rest id rfl gone
      rw [List.flatMap_append] at carries
      rw [run_append]
      refine run_buried (run_valid valid fun item member => carries item (List.mem_append_left _ member)) (reached rfl)
        (fun item member => carries item (List.mem_append_right _ member)) ?_ gone
      exact fun action member => within action (List.mem_append_right _ member)
    · intro first action rest split live
      obtain ⟨more, cursor⟩ := @live_paging τ localeCompare _ _ _ _ (reached split) (own split) live
      exact ⟨cursor.mpr (spares first action rest split), more⟩

/-- After any actions, those of one generation and one revision converge and keep the paging position
exactly when no live item is taken in while there is a cursor. -/
theorem history_converges (localeCompare : Comparator String) (orders : String → HistorySemanticOrder) (start : Int)
    (before actions : List (HistoryPagerAction τ)) (revision : String)
    (ordered : ∀ item ∈ (before ++ actions).flatMap itemsOf, item.order = some (orders item.semanticId))
    (apart : Apart localeCompare orders (((before ++ actions).flatMap itemsOf).map (·.semanticId)))
    (revised : ∀ known ∈ (run localeCompare (createHistoryPagerState start) before).historyRevision, known = revision)
    (within : ∀ action ∈ actions,
      Within (run localeCompare (createHistoryPagerState start) before).generation revision action) :
    let state := run localeCompare (createHistoryPagerState start) before
    Keeps localeCompare state actions ↔
      ∀ first action rest, actions = first ++ action :: rest → SparesCursor (run localeCompare state first) action := by
  have carries : Carries (((before ++ actions).flatMap itemsOf).map (·.semanticId)) orders
      ((before ++ actions).flatMap itemsOf) :=
    fun item member => ⟨List.mem_map_of_mem member, ordered item member⟩
  generalize ((before ++ actions).flatMap itemsOf).map (·.semanticId) = ids at apart carries
  rw [List.flatMap_append] at carries
  have valid : Valid localeCompare orders ids (run localeCompare (createHistoryPagerState start) before) :=
    run_valid (create_valid start) fun item member => carries item (List.mem_append_left _ member)
  exact keeps_iff apart valid revised (fun item member => carries item (List.mem_append_right _ member)) within

/-! The latest page, with or without a cursor, and then a live item. -/

def names : Comparator String := .ofLinearOrder String

def numbered (semanticId : String) : HistorySemanticOrder := ⟨if semanticId = "line-7" then 7 else 8, 0, semanticId⟩

def line (semanticId : String) : HistorySemanticItem Nat := ⟨semanticId, some (numbered semanticId), 0⟩

def latest (nextCursor : Option String) : HistoryPagerAction Nat :=
  .page ⟨[line "line-7"], "r1", nextCursor.isSome, nextCursor, none, 1⟩

def live : HistoryPagerAction Nat := .upsert 1 (some "r1") (line "line-8")

def paged (nextCursor : Option String) : HistoryPagerState Nat := run names (createHistoryPagerState 1) [latest nextCursor]

theorem lines_ordered (nextCursor : Option String) :
    ∀ item ∈ ([latest nextCursor] ++ [live]).flatMap itemsOf, item.order = some (numbered item.semanticId) := by
  intro item member
  simp only [latest, live, itemsOf, List.cons_append, List.nil_append, List.flatMap_cons, List.flatMap_nil,
    List.append_nil, List.mem_cons, List.not_mem_nil, or_false] at member
  obtain rfl | rfl := member <;> rfl

theorem lines_apart (nextCursor : Option String) :
    Apart names numbered ((([latest nextCursor] ++ [live]).flatMap itemsOf).map (·.semanticId)) := by
  intro left first right last same
  have known {id : String} (member : id ∈ (([latest nextCursor] ++ [live]).flatMap itemsOf).map (·.semanticId)) :
      id = "line-7" ∨ id = "line-8" := by
    simpa [latest, live, itemsOf, line] using member
  obtain rfl | rfl := known first <;> obtain rfl | rfl := known last
  · rfl
  · cases same
  · cases same
  · rfl

theorem lines_revised (nextCursor : Option String) : ∀ known ∈ (paged nextCursor).historyRevision, known = "r1" := by
  rintro known ⟨⟩
  rfl

theorem lines_within (nextCursor : Option String) :
    ∀ action ∈ [live], Within (paged nextCursor).generation "r1" action := by
  intro action member
  cases List.mem_singleton.mp member
  refine ⟨rfl, ?_⟩
  rintro other ⟨⟩
  rfl

/-- Where the history is all there, a live item changes nothing of the paging. -/
theorem history_converges_complete : Keeps names (paged none) [live] := by
  apply (history_converges names numbered 1 [latest none] [live] "r1" (lines_ordered none) (lines_apart none)
    (lines_revised none) (lines_within none)).mpr
  intro first action rest split
  cases first with
  | nil =>
    cases split
    exact .inr rfl
  | cons other first => simp at split

/-- A live item takes the cursor to the older pages away. -/
theorem live_drops_cursor : ¬∀ (localeCompare : Comparator String) (orders : String → HistorySemanticOrder) (start : Int)
    (before actions : List (HistoryPagerAction Nat)) (revision : String),
    (∀ item ∈ (before ++ actions).flatMap itemsOf, item.order = some (orders item.semanticId)) →
    Apart localeCompare orders (((before ++ actions).flatMap itemsOf).map (·.semanticId)) →
    (∀ known ∈ (run localeCompare (createHistoryPagerState start) before).historyRevision, known = revision) →
    (∀ action ∈ actions,
      Within (run localeCompare (createHistoryPagerState start) before).generation revision action) →
    Keeps localeCompare (run localeCompare (createHistoryPagerState start) before) actions := by
  intro keeps
  have kept := keeps names numbered 1 [latest (some "c1")] [live] "r1" (lines_ordered _) (lines_apart _)
    (lines_revised _) (lines_within _)
  have cursor := (kept.paging [] live [] rfl trivial).1
  cases cursor

end AgentSaas.Proofs.HistoryPager
