import AgentSaas.AppContract.Jcs
import AgentSaas.Proofs.JsonRoundTrip

/-! What is signed is read back as it was. A text whose value holds an integer that is not safe is
read but has no canonical form. -/

namespace AgentSaas.Proofs.Jcs
open AgentSaas.AppContract.Jcs JsonValues JsonStrings JsonReader JsonNumbers JsonRoundTrip
open ToolCallRepair (Text unit units)

variable {N : Type} [DecidableEq N] {numbers : Numbers N}

def Fit (numbers : Numbers N) (value : N) : Prop := numbers.isFinite value = true ∧ isUnsafe numbers value = false

abbrev Canonical (numbers : Numbers N) : Value N → Prop := Made (Fit numbers) fun text => hasLoneSurrogate text = false

theorem serializeNumber_ok_iff (value : N) (text : Text) :
    serializeNumber numbers value = .ok text ↔ Fit numbers value ∧ text = numbers.toText value := by
  unfold serializeNumber Fit
  cases finite : numbers.isFinite value with
  | false => simp
  | true =>
    by_cases negative : value = numbers.negativeZero
    · have safe : isUnsafe numbers value = false := by
        rw [negative, isUnsafe, numbers.toInt_negativeZero]
        rfl
      rw [safe]
      simp [negative, numbers.text_negativeZero, eq_comm]
    · cases isUnsafe numbers value <;> simp [negative, eq_comm]

theorem serializeString_ok_iff (value text : Text) : serializeString value = .ok text ↔ hasLoneSurrogate value = false ∧ text = quote value := by
  unfold serializeString
  cases hasLoneSurrogate value <;> simp [eq_comm]

theorem serialize_array (items : List (Value N)) :
    (serialize numbers (.array items)).text = serializeItems (items.map (serialize numbers)) := by
  rw [serialize, Value.fold_array]

theorem serialize_object (members : List (Text × Value N)) :
    (serialize numbers (.object members)).text = serializeMembers (members.map (Prod.map id (serialize numbers))) := by
  rw [serialize, Value.fold_object]

theorem canonical_undefined {value : Value N} (made : Canonical numbers value) : (serialize numbers value).isUndefined = false := by
  cases made with
  | array => rw [serialize, Value.fold_array]
  | object => rw [serialize, Value.fold_object]
  | _ => rfl

theorem serializeMember_ok_iff {member : Text × Value N}
    (own : ∀ text, canonicalize numbers member.2 = .ok text ↔ Canonical numbers member.2 ∧ text = canonical numbers.toText member.2)
    (text : Text) : serializeMember (Prod.map id (serialize numbers) member) = .ok text ↔
      (hasLoneSurrogate member.1 = false ∧ Canonical numbers member.2) ∧
        text = memberText (Prod.map id (canonical numbers.toText) member) := by
  unfold serializeMember
  constructor
  · intro returned
    split at returned
    · cases returned
    · obtain ⟨key, string, returned⟩ := Outcomes.of_ok_bind returned
      obtain ⟨item, part, returned⟩ := Outcomes.of_ok_bind returned
      obtain ⟨paired, rfl⟩ := (serializeString_ok_iff _ _).mp string
      obtain ⟨made, rfl⟩ := (own item).mp part
      cases returned
      exact ⟨⟨paired, made⟩, rfl⟩
  · rintro ⟨⟨paired, made⟩, rfl⟩
    have defined : (Prod.map id (serialize numbers) member).2.isUndefined = false := canonical_undefined made
    have key : serializeString (Prod.map id (serialize numbers) member).1 = .ok (quote member.1) :=
      (serializeString_ok_iff _ _).mpr ⟨paired, rfl⟩
    have item : (Prod.map id (serialize numbers) member).2.text = .ok (canonical numbers.toText member.2) :=
      (own _).mpr ⟨made, rfl⟩
    rw [defined, key, item]
    rfl

theorem canonicalize_ok_iff {value : Value N} (distinct : Distinct value) (text : Text) :
    canonicalize numbers value = .ok text ↔ Canonical numbers value ∧ text = canonical numbers.toText value := by
  induction distinct generalizing text with
  | null =>
    constructor
    · intro same
      cases same
      exact ⟨.null, rfl⟩
    · rintro ⟨_, rfl⟩
      rfl
  | bool value =>
    constructor
    · intro same
      cases same
      exact ⟨.bool value, rfl⟩
    · rintro ⟨_, rfl⟩
      rfl
  | number value =>
    refine (serializeNumber_ok_iff value text).trans (and_congr_left fun _ => ⟨fun fit => .number fit, fun made => ?_⟩)
    cases made with
    | number fit => exact fit
  | string value =>
    refine (serializeString_ok_iff value text).trans (and_congr_left fun _ => ⟨fun paired => .string paired, fun made => ?_⟩)
    cases made with
    | string paired => exact paired
  | other kind =>
    constructor
    · intro same
      change unsupported kind = _ at same
      unfold unsupported at same
      split at same <;> cases same
    · rintro ⟨⟨⟩, _⟩
  | @array items each ih =>
    have parts : ∀ item ∈ items, ∀ text, Part.text (serialize numbers item) = .ok text ↔
        Canonical numbers item ∧ text = canonical numbers.toText item := fun item member => ih item member
    rw [canonicalize, serialize_array, serializeItems, List.mapM_map, canonical_array]
    constructor
    · intro returned
      obtain ⟨texts, each, returned⟩ := Outcomes.of_ok_bind returned
      obtain ⟨all, rfl⟩ := (Outcomes.mapM_ok_iff parts texts).mp each
      cases returned
      exact ⟨.array all, rfl⟩
    · rintro ⟨made, rfl⟩
      cases made with
      | array all =>
        have each := (Outcomes.mapM_ok_iff parts _).mpr ⟨all, rfl⟩
        rw [Function.comp_def, each]
        rfl
  | @object members nodup each ih =>
    have parts : ∀ member ∈ sortMembers members, ∀ text, serializeMember (Prod.map id (serialize numbers) member) = .ok text ↔
        (hasLoneSurrogate member.1 = false ∧ Canonical numbers member.2) ∧
          text = memberText (Prod.map id (canonical numbers.toText) member) :=
      fun member inside => serializeMember_ok_iff (ih member (mem_sortMembers.mp inside))
    rw [canonicalize, serialize_object, serializeMembers, sortMembers_map, List.mapM_map, canonical_object, sortMembers_map, objectText,
      List.map_map]
    constructor
    · intro returned
      obtain ⟨texts, each, returned⟩ := Outcomes.of_ok_bind returned
      obtain ⟨all, rfl⟩ := (Outcomes.mapM_ok_iff parts texts).mp each
      cases returned
      refine ⟨.object nodup (fun member inside => ?_) fun member inside => ?_, rfl⟩
      · exact (all member (mem_sortMembers.mpr inside)).1
      · exact (all member (mem_sortMembers.mpr inside)).2
    · rintro ⟨made, rfl⟩
      cases made with
      | object _ keys all =>
        have each := (Outcomes.mapM_ok_iff parts _).mpr
          ⟨fun member inside => ⟨keys member (mem_sortMembers.mp inside), all member (mem_sortMembers.mp inside)⟩, rfl⟩
        rw [Function.comp_def, each]
        rfl

theorem readable {value : N} (fit : Fit numbers value) : Readable (iJson numbers) numbers.toText numbers.plain value := by
  obtain ⟨finite, safe⟩ := fit
  obtain ⟨whole, numeral⟩ := numbers.numeral value finite
  refine ⟨whole, numeral _, ?_⟩
  have back := numbers.ofText_plain finite
  have bounded : (whole && !isSafe (bigInt (numbers.toText value))) = false := by
    cases whole with
    | false => rfl
    | true =>
      have integer := numbers.toInt_numeral value finite numeral
      rw [isUnsafe, integer] at safe
      exact safe
  have still : numbers.isFinite (numbers.ofText (numbers.toText value)) = true := back ▸ numbers.isFinite_plain finite
  simp only [iJson, bounded, still]
  rw [back]
  rfl

theorem legible {value : Value N} (made : Canonical numbers value) : Legible (iJson numbers) numbers.toText numbers.plain value := by
  refine made.mono (fun _ => readable) fun text paired => ?_
  simp only [iJson, paired]
  rfl

omit [DecidableEq N] in
theorem parseIJson_ok_iff (text : Text) (value : Value N) :
    parseIJson numbers text = .ok value ↔ parse (iJson numbers) text = .ok value := by
  unfold parseIJson
  cases parse (iJson numbers) text <;> simp [Except.mapError]

theorem parsed_made {text : Text} {value : Value N} (parsed : parseIJson numbers text = .ok value) :
    Made (numbers.isFinite · = true) (fun text => hasLoneSurrogate text = false) value := by
  refine (parse_accepted ((parseIJson_ok_iff text value).mp parsed)).mono ?_ ?_
  · rintro number ⟨literal, whole, accepted⟩
    simp only [iJson] at accepted
    split at accepted
    · cases accepted
    · split at accepted
      · cases accepted
      next finite =>
        cases accepted
        simpa using finite
  · intro string accepted
    simp only [iJson] at accepted
    split at accepted
    · cases accepted
    next paired => simpa using paired

theorem canonical_back {value : Value N} (made : Canonical numbers value) :
    parseIJson numbers (canonical numbers.toText value) = .ok (normal numbers.plain value) :=
  (parseIJson_ok_iff _ _).mpr (parse_canonical (legible made))

abbrev Safe (numbers : Numbers N) : Value N → Prop := Made (isUnsafe numbers · = false) fun _ => True

theorem canonical_of_safe {text : Text} {value : Value N} (parsed : parseIJson numbers text = .ok value) (safe : Safe numbers value) :
    Canonical numbers value := ((parsed_made parsed).and safe).mono (fun _ => id) fun _ both => both.1

theorem canonicalizeText_ok_iff {text : Text} {value : Value N} (parsed : parseIJson numbers text = .ok value) (bytes : Text) :
    canonicalizeText numbers text = .ok bytes ↔ Safe numbers value ∧ bytes = canonical numbers.toText value := by
  have own : canonicalizeText numbers text = canonicalize numbers value := by
    rw [canonicalizeText, parsed]
    rfl
  rw [own, canonicalize_ok_iff (parsed_made parsed).distinct]
  refine and_congr_left fun _ => ⟨fun made => made.mono (fun _ fit => fit.2) fun _ _ => trivial, canonical_of_safe parsed⟩

/-- A signature is made over bytes that are read back as the value, are canonical themselves, and are
the same for every text of the value. A text is refused exactly where its value holds an integer that
is not safe. -/
structure RoundTrip (numbers : Numbers N) : Prop where
  back : ∀ (value : Value N) (bytes : Text), Distinct value → canonicalize numbers value = .ok bytes →
    parseIJson numbers bytes = .ok (normal numbers.plain value) ∧ Alike numbers.plain (normal numbers.plain value) value
  idempotent : ∀ text bytes : Text, canonicalizeText numbers text = .ok bytes → canonicalizeText numbers bytes = .ok bytes
  accepted : ∀ (text : Text) (value : Value N), parseIJson numbers text = .ok value →
    ((∃ bytes, canonicalizeText numbers text = .ok bytes) ↔ Safe numbers value)
  bytes : ∀ (first second one two : Text) (left right : Value N), parseIJson numbers first = .ok left →
    parseIJson numbers second = .ok right → canonicalizeText numbers first = .ok one → canonicalizeText numbers second = .ok two →
    (one = two ↔ Alike numbers.plain left right)

theorem round_trip (numbers : Numbers N) : RoundTrip numbers where
  back value bytes distinct written := by
    obtain ⟨made, rfl⟩ := (canonicalize_ok_iff distinct bytes).mp written
    have sorted : Made (fun _ => True) (fun text => hasLoneSurrogate text = false) (normal numbers.plain value) :=
      made.normal fun _ _ => trivial
    exact ⟨canonical_back made, (normal_eq_iff sorted.distinct distinct).mp (normal_normal _ numbers.plain_plain value)⟩
  idempotent text bytes written := by
    obtain ⟨value, parsed, _⟩ := Outcomes.of_ok_bind written
    obtain ⟨safe, rfl⟩ := (canonicalizeText_ok_iff parsed bytes).mp written
    have back := canonical_back (canonical_of_safe parsed safe)
    refine (canonicalizeText_ok_iff back _).mpr ⟨safe.normal fun number kind => ?_, ?_⟩
    · rwa [isUnsafe, numbers.toInt_plain]
    · exact (canonical_normal numbers.toText_plain value).symm
  accepted text value parsed := by
    constructor
    · rintro ⟨bytes, written⟩
      exact ((canonicalizeText_ok_iff parsed bytes).mp written).1
    · exact fun safe => ⟨_, (canonicalizeText_ok_iff parsed _).mpr ⟨safe, rfl⟩⟩
  bytes first second one two left right parsed parsed' written written' := by
    obtain ⟨safe, rfl⟩ := (canonicalizeText_ok_iff parsed one).mp written
    obtain ⟨safe', rfl⟩ := (canonicalizeText_ok_iff parsed' two).mp written'
    have made := canonical_of_safe parsed safe
    have made' := canonical_of_safe parsed' safe'
    rw [← normal_eq_iff made.distinct made'.distinct]
    constructor
    · intro same
      have back := canonical_back made
      rw [same, canonical_back made'] at back
      exact (Except.ok.inj back).symm
    · intro same
      rw [← canonical_normal numbers.toText_plain left, same, canonical_normal numbers.toText_plain]

theorem round_trip_example : canonicalizeText Whole.numbers (units "\x7b\"b\": [1e2, -0], \"a\": \"\\u00e9\"\x7d") =
      .ok (units "\x7b\"a\":\"é\",\"b\":[100,0]\x7d") ∧
    canonicalizeText Whole.numbers (units "\x7b\"a\":\"é\",\"b\":[100,0]\x7d") = .ok (units "\x7b\"a\":\"é\",\"b\":[100,0]\x7d") := by
  have written : canonicalizeText Whole.numbers (units "\x7b\"b\": [1e2, -0], \"a\": \"\\u00e9\"\x7d") =
      .ok (units "\x7b\"a\":\"é\",\"b\":[100,0]\x7d") := by decide +kernel
  exact ⟨written, (round_trip Whole.numbers).idempotent _ _ written⟩

/-- One number is read from a text twice, and has no canonical form. -/
theorem unsafe_refused : ¬ ∀ (N : Type) (_ : DecidableEq N) (numbers : Numbers N) (first second : Text) (left right : Value N),
    parseIJson numbers first = .ok left → parseIJson numbers second = .ok right →
    ((∃ bytes, canonicalizeText numbers first = .ok bytes ∧ canonicalizeText numbers second = .ok bytes) ↔
      Alike numbers.plain left right) := by
  intro same
  have parsed : parseIJson Whole.numbers (units "1e17") = .ok (.number (.integer 100000000000000000)) := by rfl
  obtain ⟨bytes, written, _⟩ := (same Whole inferInstance Whole.numbers _ _ _ _ parsed parsed).mpr (.number rfl)
  cases ((canonicalizeText_ok_iff parsed bytes).mp written).1 with
  | number safe => cases safe

end AgentSaas.Proofs.Jcs
