import AgentSaas.CacheSchema.Restore
import AgentSaas.Proofs.CacheTrees

/-! What the documents of the cache say: keys, entries and descriptors, read from values whose members
may stand in any order. -/

namespace AgentSaas.Proofs.CacheDocuments
open AgentSaas.CacheSchema JsonValues JsonStrings JsonReader JsonNumbers CacheTrees Splitting
open ToolCallRepair (Text unit units isAlphanumeric)

theorem assertThat_ok_iff {valid : Bool} {label : Text} : assertThat valid label = .ok () ↔ valid = true := by
  cases valid <;> simp [assertThat]

/-- The parts of a key are what they should be. -/
structure Parts (owner : CacheOwner) (resource resourceId : Text) : Prop where
  tenantId : isComponent owner.tenantId = true
  userId : isComponent owner.userId = true
  resource : isResource resource = true
  resourceId : isComponent resourceId = true

theorem build_ok_iff {owner : CacheOwner} {resource resourceId key : Text} :
    CacheKeyBuilder.build owner resource resourceId = .ok key ↔ Parts owner resource resourceId ∧
      key = join [unit ':'] (CacheKeyBuilder.parts owner resource resourceId) ∧ key.length ≤ CACHE_MAX_KEY_LENGTH := by
  constructor
  · intro built
    obtain ⟨_, tenantId, built⟩ := Outcomes.of_ok_bind built
    obtain ⟨_, userId, built⟩ := Outcomes.of_ok_bind built
    obtain ⟨_, resource, built⟩ := Outcomes.of_ok_bind built
    obtain ⟨_, resourceId, built⟩ := Outcomes.of_ok_bind built
    dsimp only at built
    split at built
    · cases built
    next short =>
      cases built
      exact ⟨⟨assertThat_ok_iff.mp tenantId, assertThat_ok_iff.mp userId, assertThat_ok_iff.mp resource, assertThat_ok_iff.mp resourceId⟩,
        rfl, by omega⟩
  · rintro ⟨parts, rfl, short⟩
    simp only [CacheKeyBuilder.build, assertComponent, assertResource, assertThat_ok_iff.mpr parts.tenantId, assertThat_ok_iff.mpr parts.userId,
      assertThat_ok_iff.mpr parts.resource, assertThat_ok_iff.mpr parts.resourceId]
    exact if_neg (by omega)

theorem colon_component {text : Text} (component : isComponent text = true) : unit ':' ∉ text := by
  intro inside
  cases text with
  | nil => cases inside
  | cons first rest =>
    simp only [isComponent, Bool.and_eq_true, List.all_eq_true] at component
    obtain ⟨⟨alphanumeric, _⟩, each⟩ := component
    obtain same | later := List.mem_cons.mp inside
    · rw [← same] at alphanumeric
      revert alphanumeric
      decide
    · have plain := each _ later
      revert plain
      decide

theorem colon_resource {text : Text} (resource : isResource text = true) : unit ':' ∉ text := by
  intro inside
  cases text with
  | nil => cases inside
  | cons first rest =>
    simp only [isResource, Bool.and_eq_true, List.all_eq_true] at resource
    obtain ⟨⟨lower, _⟩, each⟩ := resource
    obtain same | later := List.mem_cons.mp inside
    · rw [← same] at lower
      revert lower
      decide
    · have plain := each _ later
      revert plain
      decide

theorem filled_component {text : Text} (component : isComponent text = true) : 0 < text.length := by
  cases text with
  | nil => cases component
  | cons => exact Nat.succ_pos _

theorem filled_resource {text : Text} (resource : isResource text = true) : 0 < text.length := by
  cases text with
  | nil => cases resource
  | cons => exact Nat.succ_pos _

theorem labelled_eq_some_iff {label part rest : Text} : CacheKeyBuilder.labelled label part = some rest ↔ part = label ++ rest ∧ 0 < rest.length := by
  unfold CacheKeyBuilder.labelled
  constructor
  · intro found
    split at found
    next matched =>
      simp only [Bool.and_eq_true, List.isPrefixOf_iff_prefix, decide_eq_true_eq] at matched
      obtain ⟨⟨later, rfl⟩, longer⟩ := matched
      cases found
      rw [List.drop_left]
      rw [List.length_append] at longer
      exact ⟨rfl, by omega⟩
    · cases found
  · rintro ⟨rfl, filled⟩
    rw [if_pos (by simp [filled]), List.drop_left]

theorem matchKey_of_parts {owner : CacheOwner} {resource resourceId : Text} (parts : Parts owner resource resourceId) :
    CacheKeyBuilder.matchKey (join [unit ':'] (CacheKeyBuilder.parts owner resource resourceId)) = some ⟨owner, resource, resourceId⟩ := by
  have absent : ∀ part ∈ CacheKeyBuilder.parts owner resource resourceId, unit ':' ∉ part := by
    simp only [CacheKeyBuilder.parts, List.forall_mem_cons, List.mem_append, not_or]
    refine ⟨by decide, by decide, ⟨by decide, colon_component parts.tenantId⟩, ⟨by decide, colon_component parts.userId⟩,
      ⟨by decide, colon_resource parts.resource⟩, ⟨by decide, colon_component parts.resourceId⟩, nofun⟩
  have tenantId := labelled_eq_some_iff.mpr ⟨@rfl _ (units "tenant=" ++ owner.tenantId), filled_component parts.tenantId⟩
  have userId := labelled_eq_some_iff.mpr ⟨@rfl _ (units "user=" ++ owner.userId), filled_component parts.userId⟩
  have kind := labelled_eq_some_iff.mpr ⟨@rfl _ (units "resource=" ++ resource), filled_resource parts.resource⟩
  have id := labelled_eq_some_iff.mpr ⟨@rfl _ (units "id=" ++ resourceId), filled_component parts.resourceId⟩
  have parted : split [unit ':'] (join [unit ':'] (CacheKeyBuilder.parts owner resource resourceId)) =
      CacheKeyBuilder.parts owner resource resourceId := split_join (List.cons_ne_nil _ _) absent
  rw [CacheKeyBuilder.matchKey, parted]
  simp only [CacheKeyBuilder.parts, tenantId, userId, kind, id]
  rfl

theorem parts_of_matchKey {key : Text} {parsed : ParsedCacheKey} (matched : CacheKeyBuilder.matchKey key = some parsed) :
    key = join [unit ':'] (CacheKeyBuilder.parts parsed.owner parsed.resource parsed.resourceId) := by
  unfold CacheKeyBuilder.matchKey at matched
  split at matched
  next cache version tenant user resource id same =>
    simp only [Option.bind_eq_bind, Option.bind_eq_some_iff] at matched
    obtain ⟨_, fixed, tenantId, first, userId, second, kind, third, resourceId, fourth, last⟩ := matched
    cases last
    obtain ⟨rfl, _⟩ := labelled_eq_some_iff.mp first
    obtain ⟨rfl, _⟩ := labelled_eq_some_iff.mp second
    obtain ⟨rfl, _⟩ := labelled_eq_some_iff.mp third
    obtain ⟨rfl, _⟩ := labelled_eq_some_iff.mp fourth
    have named : cache = units "agent-cache" ∧ version = units "v2" := by
      by_contra other
      rw [guard, if_neg other] at fixed
      cases fixed
    obtain ⟨rfl, rfl⟩ := named
    exact (join_split (List.cons_ne_nil (unit ':') []) key).symm.trans (congrArg (join [unit ':']) same)
  · cases matched

theorem parse_ok_iff {owner : CacheOwner} {resource resourceId key : Text} :
    CacheKeyBuilder.parse key = .ok ⟨owner, resource, resourceId⟩ ↔ CacheKeyBuilder.build owner resource resourceId = .ok key := by
  rw [build_ok_iff]
  unfold CacheKeyBuilder.parse
  constructor
  · intro parsed
    split at parsed
    · cases parsed
    next short =>
      split at parsed
      · cases parsed
      next found matched =>
        obtain ⟨_, tenantId, parsed⟩ := Outcomes.of_ok_bind parsed
        obtain ⟨_, userId, parsed⟩ := Outcomes.of_ok_bind parsed
        obtain ⟨_, kind, parsed⟩ := Outcomes.of_ok_bind parsed
        obtain ⟨_, id, parsed⟩ := Outcomes.of_ok_bind parsed
        cases parsed
        exact ⟨⟨assertThat_ok_iff.mp tenantId, assertThat_ok_iff.mp userId, assertThat_ok_iff.mp kind, assertThat_ok_iff.mp id⟩,
          parts_of_matchKey matched, by omega⟩
  · rintro ⟨parts, rfl, short⟩
    rw [if_neg (by omega), matchKey_of_parts parts]
    simp only [assertComponent, assertResource, assertThat_ok_iff.mpr parts.tenantId, assertThat_ok_iff.mpr parts.userId,
      assertThat_ok_iff.mpr parts.resource, assertThat_ok_iff.mpr parts.resourceId]
    rfl

section Properties

variable {N : Type} {read : N → N} {members : List (Text × Value N)} {value : Value N} {key : String}

theorem property_of_mem (nodup : (members.map Prod.fst).Nodup) (member : (units key, value) ∈ members) :
    property (.object members) key = value := by
  change ((members.find? (·.1 = units key)).map Prod.snd).getD _ = value
  cases found : members.find? (·.1 = units key) with
  | none =>
    have absent := List.find?_eq_none.mp found _ member
    simp at absent
  | some other =>
    have same := List.find?_some found
    rw [decide_eq_true_eq] at same
    rw [eq_of_key nodup (List.mem_of_find?_eq_some found) member same]
    rfl

theorem property_absent (absent : units key ∉ members.map Prod.fst) : property (.object members) key = .other "undefined" := by
  have none : members.find? (·.1 = units key) = none := List.find?_eq_none.mpr fun member inside same =>
    absent (List.mem_map.mpr ⟨member, inside, of_decide_eq_true same⟩)
  change ((members.find? (·.1 = units key)).map Prod.snd).getD _ = _
  rw [none]
  rfl

theorem mem_of_property {object : Value N} (found : property object key = value) (defined : value ≠ .other "undefined") :
    ∃ members, object = .object members ∧ (units key, value) ∈ members := by
  unfold property at found
  split at found
  next members =>
    refine ⟨members, rfl, ?_⟩
    cases first : members.find? (·.1 = units key) with
    | none =>
      rw [first] at found
      exact absurd found.symm defined
    | some member =>
      rw [first] at found
      cases found
      have same := List.find?_some first
      rw [decide_eq_true_eq] at same
      exact same ▸ List.mem_of_find?_eq_some first
  · exact absurd found.symm defined

theorem property_normal {object : Value N} (distinct : Distinct object) :
    property (normal read object) key = normal read (property object key) := by
  cases distinct with
  | @object members nodup each =>
    have names : ((sortMembers (members.map (Prod.map id (normal read)))).map Prod.fst).Nodup := by
      refine sortMembers_keys ?_
      rw [List.map_map]
      exact nodup
    rw [normal_object]
    by_cases present : units key ∈ members.map Prod.fst
    · obtain ⟨⟨_, value⟩, member, rfl⟩ := List.mem_map.mp present
      rw [property_of_mem nodup member]
      exact property_of_mem names (mem_sortMembers.mpr (List.mem_map.mpr ⟨_, member, rfl⟩))
    · rw [property_absent present, property_absent fun inside => present ?_]
      · rfl
      · have keys := ((sortMembers_perm (members.map (Prod.map id (normal read)))).map Prod.fst).mem_iff.mp inside
        rwa [List.map_map] at keys
  | _ => rfl

theorem Distinct.property {object : Value N} (distinct : Distinct object) : Distinct (property object key) := by
  cases distinct with
  | @object members nodup each =>
    by_cases present : units key ∈ members.map Prod.fst
    · obtain ⟨⟨_, value⟩, member, rfl⟩ := List.mem_map.mp present
      exact property_of_mem nodup member ▸ each _ member
    · exact property_absent present ▸ .other _
  | _ => exact .other _

theorem joinSorted_perm {keys others : List Text} (perm : keys.Perm others) : joinSorted keys = joinSorted others := by
  have sorted (list : List Text) : (list.insertionSort (· ≤ ·)).Pairwise (· ≤ ·) := List.pairwise_insertionSort ..
  refine congrArg (join [unit ',']) (List.Perm.eq_of_pairwise (fun _ _ _ _ => le_antisymm) (sorted keys) (sorted others) ?_)
  exact (List.perm_insertionSort ..).trans (perm.trans (List.perm_insertionSort ..).symm)

theorem exactObjectKeys_normal {expected : List String} (object : Value N) :
    exactObjectKeys (normal read object) expected = exactObjectKeys object expected := by
  cases object with
  | object members =>
    rw [normal_object]
    change decide (joinSorted _ = _) = decide (joinSorted _ = _)
    rw [joinSorted_perm ((sortMembers_perm _).map Prod.fst), List.map_map]
    rfl
  | _ => rfl

theorem length_join (parts : List Text) : (join [unit ','] parts).length = (parts.map (·.length + 1)).sum - 1 := by
  induction parts with
  | nil => rfl
  | cons first later ih =>
    cases later with
    | nil => simp [join]
    | cons second later =>
      rw [join, List.intercalate_cons_cons, ← join, List.length_append, List.length_append, ih]
      simp only [List.map_cons, List.sum_cons, List.length_singleton]
      omega

theorem keys_perm {keys expected : List Text} (nodup : expected.Nodup) (present : expected ⊆ keys) (filled : expected ≠ [])
    (same : joinSorted keys = joinSorted expected) : keys.Perm expected := by
  have lengths := congrArg List.length same
  unfold joinSorted at lengths
  rw [length_join, length_join, ((List.perm_insertionSort _ keys).map _).sum_nat, ((List.perm_insertionSort _ expected).map _).sum_nat] at lengths
  obtain ⟨own, expects, inside⟩ := List.subperm_of_subset nodup present
  obtain ⟨rest, perm⟩ := inside.exists_perm_append
  replace perm := perm.trans (expects.append_right rest)
  have total := (perm.map (·.length + 1)).sum_nat
  rw [List.map_append, List.sum_append] at total
  cases expected with
  | nil => exact absurd rfl filled
  | cons first others =>
    cases rest with
    | nil => rwa [List.append_nil] at perm
    | cons extra rest =>
      simp only [List.map_cons, List.sum_cons] at lengths total
      omega

/-- A document with just the properties of another, read the same, is read as the other is. -/
theorem normal_of_properties {object : Value N} {names order : List String} {expected : List (String × Value N)} (distinct : Distinct object)
    (exact : exactObjectKeys object names = true) (keys : joinSorted (names.map units) = joinSorted (order.map units))
    (nodup : (order.map units).Nodup) (filled : order ≠ []) (ordered : expected.map Prod.fst = order)
    (each : ∀ member ∈ expected, property object member.1 ≠ .other "undefined" ∧
      normal read (property object member.1) = normal read member.2) :
    normal read object = normal read (.object (expected.map (Prod.map units id))) := by
  subst ordered
  have same : (expected.map (Prod.map units id)).map Prod.fst = (expected.map Prod.fst).map units := by
    rw [List.map_map, List.map_map]
    rfl
  cases distinct with
  | @object members own others =>
    have perm : (members.map Prod.fst).Perm ((expected.map Prod.fst).map units) := by
      refine keys_perm nodup (fun name inside => ?_) (by simpa using filled) ((of_decide_eq_true exact).trans keys)
      rw [List.map_map] at inside
      obtain ⟨member, listed, rfl⟩ := List.mem_map.mp inside
      obtain ⟨_, ⟨⟩, found⟩ := mem_of_property rfl (each member listed).1
      exact List.mem_map.mpr ⟨_, found, rfl⟩
    have alike := @normal_members _ read _ _ own (same ▸ nodup) (fun name => by rw [same]; exact perm.mem_iff) fun name item other member also => by
      obtain ⟨wanted, listed, pair⟩ := List.mem_map.mp also
      obtain ⟨rfl, rfl⟩ := Prod.mk.inj pair
      rw [id, ← (each wanted listed).2, property_of_mem own member]
    rw [normal_object, normal_object]
    refine congrArg Value.object (sortMembers_eq_of_perm ?_ alike)
    rw [List.map_map]
    exact own
  | _ => cases exact

theorem normal_without (object : Value N) : normal read (without object key) = without (normal read object) key := by
  cases object with
  | object members =>
    have : IsTrans (Text × Value N) (·.1 ≤ ·.1) := ⟨fun _ _ _ => le_trans⟩
    have : Std.Total (α := Text × Value N) (·.1 ≤ ·.1) := ⟨fun left right => le_total left.1 right.1⟩
    have same := Sorting.filter_insertionSort (fun left right : Text × Value N => left.1 ≤ right.1) (·.1 ≠ units key)
      (members.map (Prod.map id (normal read)))
    change normal read (.object (members.filter (·.1 ≠ units key))) = without (normal read (.object members)) key
    rw [normal_object, normal_object]
    change _ = Value.object (List.filter (·.1 ≠ units key) (sortMembers _))
    rw [sortMembers, sortMembers, same, List.filter_map]
    rfl
  | _ => rfl

end Properties

section Naturals

variable {N : Type} {numbers : Numbers N} {value : N} {natural : Nat}

theorem ofNat_zero : numbers.ofNat 0 = numbers.zero := by
  obtain same | negative := numbers.eq_ofNat numbers.zero 0 numbers.finite_zero (by decide) numbers.toInt_zero
  · exact same.symm
  · exact absurd negative numbers.zero_ne

variable [DecidableEq N]

theorem plain_ofNat (safe : isSafe natural = true) : numbers.plain (numbers.ofNat natural) = numbers.ofNat natural := by
  refine if_neg fun negative => ?_
  have value := numbers.toInt_ofNat natural safe
  rw [negative, numbers.toInt_negativeZero] at value
  have zero : natural = 0 := by
    have same := Option.some.inj value
    omega
  rw [zero, ofNat_zero] at negative
  exact numbers.zero_ne negative

theorem plain_eq_ofNat (finite : numbers.isFinite value = true) (safe : isSafe natural = true) (same : numbers.toInt value = some (natural : Int)) :
    numbers.plain value = numbers.ofNat natural := by
  obtain rfl | rfl := numbers.eq_ofNat value natural finite safe same
  · exact plain_ofNat safe
  · rw [numbers.toInt_negativeZero] at same
    have zero : natural = 0 := by
      have same := Option.some.inj same
      omega
    rw [zero, ofNat_zero]
    exact if_pos rfl

end Naturals

/-! What is read from a document, and what the document is read as. -/

section Documents

variable {N : Type} {read : N → N} {numbers : Numbers N} {value : Value N}

theorem string_defined {text : Text} {kind : String} : (.string text : Value N) ≠ .other kind := by
  intro same
  cases same

theorem agrees {object own expected : Value N} {key : String} (found : property object key = own) (defined : own ≠ .other "undefined")
    (same : normal read own = normal read expected) :
    property object key ≠ .other "undefined" ∧ normal read (property object key) = normal read expected := by
  rw [found]
  exact ⟨defined, same⟩

theorem componentOf_ok_iff {label text : Text} : componentOf value label = .ok text ↔ value = .string text ∧ isComponent text = true := by
  unfold componentOf
  split
  next own =>
    constructor
    · intro returned
      obtain ⟨_, component, returned⟩ := Outcomes.of_ok_bind returned
      cases returned
      exact ⟨rfl, assertThat_ok_iff.mp component⟩
    · rintro ⟨⟨⟩, component⟩
      rw [assertComponent, assertThat_ok_iff.mpr component]
      rfl
  next other =>
    constructor
    · intro returned
      cases returned
    · rintro ⟨rfl, _⟩
      exact absurd rfl (other text)

structure ValidOwner (owner : CacheOwner) : Prop where
  tenantId : isComponent owner.tenantId = true
  userId : isComponent owner.userId = true

theorem checkOwner_ok_iff {expected : CacheOwner} {malformed : CacheErrorCode} : checkOwner expected malformed value = .ok () ↔
    exactObjectKeys value ["tenantId", "userId"] = true ∧ property value "tenantId" = .string expected.tenantId ∧
      property value "userId" = .string expected.userId ∧ ValidOwner expected := by
  unfold checkOwner
  refine check_ok_iff.trans ?_
  rw [Bool.not_eq_true', Bool.not_eq_false]
  refine and_congr_right fun _ => ?_
  constructor
  · intro returned
    obtain ⟨tenantId, first, returned⟩ := Outcomes.of_ok_bind returned
    obtain ⟨userId, second, returned⟩ := Outcomes.of_ok_bind returned
    obtain ⟨first, tenant⟩ := componentOf_ok_iff.mp first
    obtain ⟨second, user⟩ := componentOf_ok_iff.mp second
    split at returned
    · cases returned
    next same =>
      rw [not_not] at same
      cases same
      exact ⟨first, second, tenant, user⟩
  · rintro ⟨first, second, valid⟩
    rw [componentOf_ok_iff.mpr ⟨first, valid.tenantId⟩, componentOf_ok_iff.mpr ⟨second, valid.userId⟩]
    exact if_neg (not_not.mpr rfl)

theorem checkOwner_normal {expected : CacheOwner} {malformed : CacheErrorCode} (distinct : Distinct value)
    (checked : checkOwner expected malformed value = .ok ()) : checkOwner expected malformed (normal read value) = .ok () := by
  obtain ⟨exact, first, second, valid⟩ := checkOwner_ok_iff.mp checked
  refine checkOwner_ok_iff.mpr ⟨(exactObjectKeys_normal value).trans exact, ?_, ?_, valid⟩
  · rw [property_normal distinct, first]
    rfl
  · rw [property_normal distinct, second]
    rfl

theorem checkOwner_toValue {owner : CacheOwner} {malformed : CacheErrorCode} (valid : ValidOwner owner) :
    checkOwner owner malformed (owner.toValue : Value N) = .ok () := checkOwner_ok_iff.mpr ⟨by rfl, by rfl, by rfl, valid⟩

theorem normal_owner {expected : CacheOwner} {malformed : CacheErrorCode} (distinct : Distinct value)
    (checked : checkOwner expected malformed value = .ok ()) : normal read value = normal read expected.toValue := by
  obtain ⟨exact, first, second, valid⟩ := checkOwner_ok_iff.mp checked
  have listed : (expected.toValue : Value N) =
      .object ([("tenantId", .string expected.tenantId), ("userId", .string expected.userId)].map (Prod.map units id)) := rfl
  have names : (["tenantId", "userId"].map units).Nodup := by decide
  rw [listed]
  exact normal_of_properties distinct exact (by rfl) names (List.cons_ne_nil _ _) rfl
    (List.forall_mem_cons.mpr ⟨agrees first string_defined rfl, List.forall_mem_cons.mpr ⟨agrees second string_defined rfl, List.forall_mem_nil _⟩⟩)

end Documents

end AgentSaas.Proofs.CacheDocuments
