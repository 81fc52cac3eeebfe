import AgentSaas.CacheSchema.Backup
import AgentSaas.Proofs.JsonRoundTrip

/-! The trees that may be cached: what the walk over one finds does not depend on the order of
members, so a tree and what its canonical text is read as pass the same checks. -/

namespace AgentSaas.Proofs.CacheTrees
open AgentSaas.CacheSchema JsonValues JsonStrings JsonReader JsonNumbers JsonRoundTrip
open ToolCallRepair (Text unit units)

variable {N : Type} {numbers : Numbers N}

theorem check_ok_iff {β : Type} {failed : Prop} [Decidable failed] {code : CacheErrorCode} {next : PUnit → Except CacheSchemaError β}
    {result : β} : (if failed then error code >>= next else next ⟨⟩) = .ok result ↔ ¬ failed ∧ next ⟨⟩ = .ok result := by
  split
  next wrong =>
    constructor
    · intro same
      cases same
    · exact fun both => absurd wrong both.1
  next passed => exact ⟨fun same => ⟨passed, same⟩, And.right⟩

abbrev Passes (numbers : Numbers N) (backup : Bool) (value : Value N) (path : Text) (depth : Nat) : Prop :=
  validateTree numbers backup value path depth = .ok ()

section Walk

variable {backup : Bool} {path : Text} {depth : Nat}

theorem atDepth_ok_iff {visit : Visit} : atDepth visit path depth = .ok () ↔ depth ≤ 24 ∧ visit path depth = .ok () := by
  unfold atDepth checkDepth
  by_cases deep : depth > 24
  · rw [if_pos deep]
    constructor
    · intro same
      cases same
    · rintro ⟨shallow, _⟩
      exact absurd deep (by omega)
  · rw [if_neg deep]
    exact ⟨fun passed => ⟨by omega, passed⟩, And.right⟩

theorem passes_array {items : List (Value N)} : Passes numbers backup (.array items) path depth ↔
    depth ≤ 24 ∧ ∀ item ∈ items.zipIdx, Passes numbers backup item.1 (path ++ units "[" ++ decimal item.2 ++ units "]") (depth + 1) := by
  unfold Passes validateTree
  rw [Value.fold_array, atDepth_ok_iff, visitItems, List.zipIdx_map, Outcomes.forM_ok_iff, List.forall_mem_map]
  rfl

theorem passes_object {members : List (Text × Value N)} : Passes numbers backup (.object members) path depth ↔
    depth ≤ 24 ∧ ∀ member ∈ members, checkKey backup path member.1 = .ok () ∧
      Passes numbers backup member.2 (path ++ units "." ++ member.1) (depth + 1) := by
  unfold Passes validateTree
  rw [Value.fold_object, atDepth_ok_iff, visitMembers, Outcomes.forM_ok_iff, List.forall_mem_map]
  refine and_congr_right fun _ => forall₂_congr fun member _ => ?_
  constructor
  · intro returned
    obtain ⟨_, key, own⟩ := Outcomes.of_ok_bind returned
    exact ⟨key, own⟩
  · rintro ⟨key, own⟩
    change (checkKey backup path member.1 >>= fun _ => _) = _
    rw [key]
    exact own

theorem passes_number {value : N} : Passes numbers backup (.number value) path depth ↔ depth ≤ 24 ∧ numbers.isFinite value = true := by
  change atDepth (fun _ _ => if numbers.isFinite value then .ok () else error .invalidJsonValue) path depth = .ok () ↔ _
  rw [atDepth_ok_iff]
  cases numbers.isFinite value <;> simp [error]

theorem passes_other {kind : String} : ¬ Passes numbers backup (.other kind) path depth := by
  change ¬ atDepth (fun _ _ => error .invalidJsonValue) path depth = .ok ()
  rw [atDepth_ok_iff]
  simp [error]

theorem Passes.made {value : Value N} (passes : Passes numbers backup value path depth) (distinct : Distinct value) :
    Made (numbers.isFinite · = true) (fun _ => True) value := by
  induction distinct generalizing path depth with
  | null => exact .null
  | bool value => exact .bool value
  | number value => exact .number (passes_number.mp passes).2
  | string value => exact .string trivial
  | other kind => exact absurd passes passes_other
  | array each ih =>
    refine .array fun item member => ?_
    obtain ⟨index, inside⟩ := List.mem_iff_getElem?.mp member
    exact ih item member ((passes_array.mp passes).2 (item, index) (List.mk_mem_zipIdx_iff_getElem?.mpr inside))
  | object nodup each ih =>
    exact .object nodup (fun _ _ => trivial) fun member inside => ih member inside ((passes_object.mp passes).2 member inside).2

variable [DecidableEq N]

theorem Passes.normal {value : Value N} (passes : Passes numbers backup value path depth) :
    Passes numbers backup (normal numbers.plain value) path depth := by
  induction value using Value.induction generalizing path depth with
  | null | bool | string => exact passes
  | other kind => exact absurd passes passes_other
  | number value =>
    obtain ⟨shallow, finite⟩ := passes_number.mp passes
    exact passes_number.mpr ⟨shallow, numbers.isFinite_plain finite⟩
  | array items ih =>
    obtain ⟨shallow, each⟩ := passes_array.mp passes
    rw [normal_array]
    refine passes_array.mpr ⟨shallow, ?_⟩
    rw [List.zipIdx_map]
    intro item inside
    obtain ⟨old, member, rfl⟩ := List.mem_map.mp inside
    exact ih old.1 (List.mem_of_getElem? (List.mk_mem_zipIdx_iff_getElem?.mp member)) (each old member)
  | object members ih =>
    obtain ⟨shallow, each⟩ := passes_object.mp passes
    rw [normal_object]
    refine passes_object.mpr ⟨shallow, fun member inside => ?_⟩
    obtain ⟨old, first, rfl⟩ := List.mem_map.mp (mem_sortMembers.mp inside)
    exact ⟨(each old first).1, ih old first (each old first).2⟩

end Walk

theorem canonicalSerialize_ok_iff {value : Value N} {maxBytes : Nat} {text : Text} :
    canonicalSerialize numbers value maxBytes = .ok text ↔ Passes numbers false value (units "$") 0 ∧
      (encode (canonical numbers.toText value)).length ≤ maxBytes ∧ text = canonical numbers.toText value := by
  constructor
  · intro returned
    obtain ⟨_, passes, returned⟩ := Outcomes.of_ok_bind returned
    dsimp only at returned
    split at returned
    · cases returned
    · cases returned
      exact ⟨passes, by omega, rfl⟩
  · rintro ⟨passes, small, rfl⟩
    rw [canonicalSerialize, passes]
    exact if_neg (by omega)

theorem parseCacheJson_ok_iff {raw : Text} {maxBytes : Nat} {value : Value N} :
    parseCacheJson numbers raw maxBytes = .ok value ↔ (encode raw).length ≤ maxBytes ∧
      JsonReader.parse (standard numbers) raw = .ok value ∧ Passes numbers false value (units "$") 0 := by
  unfold parseCacheJson
  by_cases large : (encode raw).length > maxBytes
  · rw [if_pos large]
    constructor
    · intro same
      cases same
    · rintro ⟨small, _⟩
      exact absurd large (by omega)
  rw [if_neg large]
  constructor
  · intro returned
    split at returned
    · cases returned
    next parsed same =>
      obtain ⟨_, passes, returned⟩ := Outcomes.of_ok_bind returned
      cases returned
      exact ⟨by omega, same, passes⟩
  · rintro ⟨_, same, passes⟩
    rw [same]
    simp only
    rw [passes]
    rfl

section Reading

variable [DecidableEq N]

theorem legible {value : Value N} (made : Made (numbers.isFinite · = true) (fun _ => True) value) :
    Legible (standard numbers) numbers.toText numbers.plain value := by
  refine made.mono (fun number finite => ?_) fun _ _ => rfl
  obtain ⟨whole, numeral⟩ := numbers.numeral number finite
  exact ⟨whole, numeral _, congrArg Except.ok (numbers.ofText_plain finite)⟩

theorem parse_serialized {value : Value N} {maxBytes : Nat} {text : Text} (distinct : Distinct value)
    (written : canonicalSerialize numbers value maxBytes = .ok text) :
    parseCacheJson numbers text maxBytes = .ok (normal numbers.plain value) ∧
      canonicalSerialize numbers (normal numbers.plain value) maxBytes = .ok text := by
  obtain ⟨passes, small, rfl⟩ := canonicalSerialize_ok_iff.mp written
  refine ⟨parseCacheJson_ok_iff.mpr ⟨small, ?_, passes.normal⟩, ?_⟩
  · exact parse_canonical (legible (passes.made distinct))
  · have same := canonical_normal numbers.toText_plain value
    exact canonicalSerialize_ok_iff.mpr ⟨passes.normal, same ▸ small, same.symm⟩

end Reading

section Sizes

open CodePoints Splitting

def size (text : Text) : Nat := (encode text).length

/-- A text does not begin with the second half of a pair. -/
def Apart (text : Text) : Prop := ∀ low ∈ text.head?, isLow low = false

theorem Apart.cons {char : Nat} {rest : Text} (own : isLow char = false) : Apart (char :: rest) := by
  rintro _ ⟨⟩
  exact own

theorem size_append {front back : Text} (apart : Apart back) : size (front ++ back) = size front + size back := by
  have clean : Clean front back := fun _ _ low next _ => apart low next
  rw [size, encode, codePoints_append clean, List.flatMap_append, List.length_append]
  rfl

theorem Apart.join {parts : List Text} (apart : ∀ part ∈ parts, Apart part) : Apart (join [unit ','] parts) := by
  cases parts with
  | nil => exact nofun
  | cons first later =>
    have own := apart first List.mem_cons_self
    cases later with
    | nil =>
      rw [Splitting.join, List.intercalate_singleton]
      exact own
    | cons second later =>
      rw [Splitting.join, List.intercalate_cons_cons]
      cases first with
      | nil => exact .cons (by decide)
      | cons char rest => exact own

theorem size_join {parts : List Text} (apart : ∀ part ∈ parts, Apart part) :
    size (join [unit ','] parts) = (parts.map (size · + 1)).sum - 1 := by
  induction parts with
  | nil => rfl
  | cons first later ih =>
    cases later with
    | nil => simp [join]
    | cons second later =>
      have others := ih fun part member => apart part (.tail _ member)
      have behind := Apart.join fun part member => apart part (.tail first member)
      have comma : Apart ([unit ','] ++ join [unit ','] (second :: later)) := .cons (by decide)
      have one : size [unit ','] = 1 := by decide
      rw [join, List.intercalate_cons_cons, ← join, List.append_assoc, size_append comma, size_append behind, others, one]
      simp only [List.map_cons, List.sum_cons]
      omega

theorem size_between {first last : Nat} {inner : Text} (opening : size [first] = 1) (close : isLow last = false) (one : size [last] = 1)
    (apart : Apart inner) : size (first :: (inner ++ [last])) = size inner + 2 := by
  have whole : Apart (inner ++ [last]) := by
    cases inner with
    | nil => exact .cons close
    | cons char rest => exact apart
  rw [← List.singleton_append, size_append whole, size_append (.cons close), opening, one]
  omega

theorem size_arrayText {parts : List Text} (apart : ∀ part ∈ parts, Apart part) :
    size (arrayText parts) = (parts.map (size · + 1)).sum - 1 + 2 := by
  rw [arrayText, size_between (by decide) (by decide) (by decide) (.join apart), size_join apart]

theorem size_memberText {member : Text × Text} (apart : Apart member.2) :
    size (memberText member) = size (quote member.1) + size member.2 + 1 := by
  have colon : Apart ([unit ':'] ++ member.2) := .cons (by decide)
  have one : size [unit ':'] = 1 := by decide
  rw [memberText, ← List.singleton_append, size_append colon, size_append apart, one]
  omega

theorem size_objectText {members : List (Text × Text)} (apart : ∀ member ∈ members, Apart member.2) :
    size (objectText members) = (members.map fun member => size (quote member.1) + size member.2 + 2).sum - 1 + 2 := by
  have names : ∀ part ∈ members.map memberText, Apart part := by
    intro part inside
    obtain ⟨member, _, rfl⟩ := List.mem_map.mp inside
    exact .cons (by decide)
  rw [objectText, size_between (by decide) (by decide) (by decide) (.join names), size_join names, List.map_map]
  have each : members.map ((size · + 1) ∘ memberText) = members.map fun member => size (quote member.1) + size member.2 + 2 :=
    List.map_congr_left fun member inside => congrArg (· + 1) (size_memberText (apart member inside))
  rw [each]

abbrev Json (numbers : Numbers N) : Value N → Prop := Made (numbers.isFinite · = true) fun _ => True

theorem apart_text {value : Value N} (made : Json numbers value) : Apart (text numbers.toText value) := by
  cases made with
  | null => exact .cons (by decide)
  | bool value => cases value <;> exact .cons (by decide)
  | string => exact .cons (by decide)
  | array =>
    rw [text_array]
    exact .cons (by decide)
  | object =>
    rw [text_object]
    exact .cons (by decide)
  | @number value finite =>
    obtain ⟨whole, numeral⟩ := numbers.numeral value finite
    obtain ⟨char, rest, same, first⟩ := JsonLiterals.scanNumber_head (numeral Empty)
    change Apart (numbers.toText value)
    rw [same]
    refine .cons ?_
    obtain rfl | digit := first
    · decide
    · simp only [isDigit, Bool.and_eq_true, decide_eq_true_eq] at digit
      have bound : unit '9' < 0xDC00 := by decide
      simp only [isLow, Bool.and_eq_false_iff, decide_eq_false_iff_not]
      omega

theorem apart_canonical {value : Value N} (made : Json numbers value) : Apart (canonical numbers.toText value) := by
  rw [canonical_eq]
  exact apart_text (made.normal fun _ => id)

theorem size_canonical_object {members : List (Text × Value N)} (made : Json numbers (.object members)) :
    size (canonical numbers.toText (.object members)) =
      (members.map fun member => size (quote member.1) + size (canonical numbers.toText member.2) + 2).sum - 1 + 2 := by
  cases made with
  | object nodup keys each =>
    rw [canonical_object, sortMembers_map, size_objectText fun member inside => ?_, List.map_map]
    · rw [((sortMembers_perm members).map _).sum_nat]
      rfl
    · obtain ⟨old, first, rfl⟩ := List.mem_map.mp inside
      exact apart_canonical (each old (mem_sortMembers.mp first))

theorem size_canonical_array {items : List (Value N)} (made : Json numbers (.array items)) :
    size (canonical numbers.toText (.array items)) = (items.map fun item => size (canonical numbers.toText item) + 1).sum - 1 + 2 := by
  cases made with
  | array each =>
    rw [canonical_array, size_arrayText fun part inside => ?_, List.map_map]
    · rfl
    · obtain ⟨item, member, rfl⟩ := List.mem_map.mp inside
      exact apart_canonical (each item member)

theorem size_text {value : Value N} (made : Json numbers value) : size (text numbers.toText value) = size (canonical numbers.toText value) := by
  induction made with
  | null | bool | number | string => rfl
  | @array items each ih =>
    rw [size_canonical_array (.array each), text_array, size_arrayText fun part inside => ?_, List.map_map]
    · have same : items.map ((size · + 1) ∘ text numbers.toText) = items.map fun item => size (canonical numbers.toText item) + 1 :=
        List.map_congr_left fun item member => congrArg (· + 1) (ih item member)
      rw [same]
    · obtain ⟨item, member, rfl⟩ := List.mem_map.mp inside
      exact apart_text (each item member)
  | @object members nodup keys each ih =>
    rw [size_canonical_object (.object nodup keys each), text_object, size_objectText fun part inside => ?_, List.map_map]
    · have same : ∀ member ∈ members, size (quote member.1) + size (text numbers.toText member.2) + 2 =
        size (quote member.1) + size (canonical numbers.toText member.2) + 2 := fun member inside => by rw [ih member inside]
      rw [← List.map_congr_left same]
      rfl
    · obtain ⟨member, inner, rfl⟩ := List.mem_map.mp inside
      exact apart_text (each member inner)

end Sizes

section Contents

variable {read : N → N}

theorem sent_array (items : List (Value N)) : sent (.array items) = (items.map sent).any id := Value.fold_array ..

theorem sent_object (members : List (Text × Value N)) :
    sent (.object members) = (members.map fun member => namesAnyCase OUTBOX_SENT_FIELDS member.1 || sent member.2).any id := by
  rw [sent, Value.fold_object, List.any_map, List.any_map]
  rfl

theorem sent_normal (value : Value N) : sent (normal read value) = sent value := by
  induction value using Value.induction with
  | null | bool | number | string | other => rfl
  | array items ih =>
    rw [normal_array, sent_array, sent_array, List.map_map]
    exact congrArg (·.any id) (List.map_congr_left ih)
  | object members ih =>
    rw [normal_object, sent_object, sent_object, ((sortMembers_perm _).map _).any_eq, List.map_map]
    refine congrArg (·.any id) (List.map_congr_left fun member inside => ?_)
    exact congrArg (namesAnyCase OUTBOX_SENT_FIELDS member.1 || ·) (ih member inside)

theorem isFilledString_normal (value : Value N) : isFilledString (normal read value) = isFilledString value := by
  cases value <;> rfl

theorem validDraftField_normal (key : Text) (value : Value N) : validDraftField key (normal read value) = validDraftField key value := by
  unfold validDraftField
  rw [isFilledString_normal]
  cases value with
  | array items =>
    rw [normal_array]
    simp only [List.isEmpty_map, List.all_map, Function.comp_def, isFilledString_normal]
  | _ => rfl

structure Draft (resource : Text) (data : Value N) : Prop where
  unsent : sent data = false
  fields : resource = units "outbox-draft" → ∃ members, data = .object members ∧ members ≠ [] ∧
    ∀ member ∈ members, names OUTBOX_DRAFT_FIELDS member.1 = true ∧ validDraftField member.1 member.2 = true

theorem validateOutbox_ok_iff {resource : Text} {data : Value N} : validateOutbox resource data = .ok () ↔ Draft resource data := by
  unfold validateOutbox
  refine check_ok_iff.trans ?_
  dsimp only
  constructor
  · rintro ⟨unsent, valid⟩
    refine ⟨by simpa using unsent, fun draftOnly => ?_⟩
    rw [if_pos draftOnly] at valid
    split at valid
    next members =>
      obtain ⟨known, valid⟩ := check_ok_iff.mp valid
      split at valid
      next each =>
        simp only [Bool.or_eq_true, List.isEmpty_iff, List.any_eq_true, not_or, not_exists, not_and, Bool.not_eq_true', Bool.not_eq_false] at known
        rw [List.all_eq_true] at each
        exact ⟨members, rfl, known.1, fun member inside => ⟨known.2 member inside, each member inside⟩⟩
      · cases valid
    · cases valid
  · rintro ⟨unsent, fields⟩
    refine ⟨by simp [unsent], ?_⟩
    split
    next draftOnly =>
      obtain ⟨members, rfl, filled, each⟩ := fields draftOnly
      refine check_ok_iff.mpr ⟨?_, ?_⟩
      · simp only [Bool.or_eq_true, List.isEmpty_iff, List.any_eq_true, not_or, not_exists, not_and, Bool.not_eq_true', Bool.not_eq_false]
        exact ⟨filled, fun member inside => (each member inside).1⟩
      · exact if_pos (List.all_eq_true.mpr fun member inside => (each member inside).2)
    · rfl

theorem Draft.normal {resource : Text} {data : Value N} (draft : Draft resource data) : Draft resource (normal read data) := by
  refine ⟨(sent_normal data).trans draft.unsent, fun draftOnly => ?_⟩
  obtain ⟨members, rfl, filled, each⟩ := draft.fields draftOnly
  refine ⟨_, normal_object .., ?_, fun member inside => ?_⟩
  · intro none
    have perm := (sortMembers_perm (members.map (Prod.map id (JsonValues.normal read)))).length_eq
    rw [none, List.length_map] at perm
    exact filled (List.eq_nil_of_length_eq_zero perm.symm)
  · obtain ⟨old, first, rfl⟩ := List.mem_map.mp (mem_sortMembers.mp inside)
    exact ⟨(each old first).1, (validDraftField_normal ..).trans (each old first).2⟩

theorem validateBackupData_ok_iff {resource : Text} {data : Value N} : validateBackupData numbers resource data = .ok () ↔
    names DISPLAY_RESOURCES resource = true ∧ (names OUTBOX_RESOURCES resource = true → Draft resource data) ∧
      Passes numbers true data (units "$") 0 := by
  unfold validateBackupData
  refine check_ok_iff.trans (and_congr (by simp) ?_)
  dsimp only
  split
  next outbox =>
    rw [← validateOutbox_ok_iff]
    constructor
    · intro valid
      obtain ⟨_, draft, passes⟩ := Outcomes.of_ok_bind valid
      exact ⟨fun _ => draft, passes⟩
    · rintro ⟨draft, passes⟩
      rw [draft outbox]
      exact passes
  next other => exact ⟨fun passes => ⟨fun outbox => absurd outbox other, passes⟩, And.right⟩

end Contents

end AgentSaas.Proofs.CacheTrees
