import AgentSaas.AppContract.Jcs
import AgentSaas.EventJson
import AgentSaas.Proofs.JsonRoundTrip

/-! What the database takes of an event. U+0000 is cared for in strings; in keys it is not, and half
of a pair of surrogates is cared for nowhere. -/

namespace AgentSaas.Proofs.StoredEvents
open AgentSaas.EventJson JsonValues JsonStrings JsonReader JsonNumbers JsonRoundTrip CodePoints
open AppContract.Jcs (hasLoneSurrogate)
open ToolCallRepair (Text unit units)

variable {N : Type}

inductive JsonbError | nul | surrogate
  deriving DecidableEq, Repr

/-- JSON as jsonb takes it. -/
def jsonb (numbers : Numbers N) : Dialect N JsonbError where
  number literal _ := .ok (numbers.ofText literal)
  string out := if out.contains 0 then .error .nul else if hasLoneSurrogate out then .error .surrogate else .ok ()
  repeated _ := .ok ()

/-- The keys of all objects in a value. -/
def keys : Value N → List Text :=
  Value.fold [] (fun _ => []) (fun _ => []) (fun _ => []) List.flatten (fun members => members.flatMap fun member => member.1 :: member.2)
    fun _ => []

def strings : Value N → List Text :=
  Value.fold [] (fun _ => []) (fun _ => []) (fun text => [text]) List.flatten (fun members => members.flatMap (·.2)) fun _ => []

/-- No key holds U+0000, and no key and no string has half of a pair. -/
structure Storable (value : Value N) : Prop where
  keys : ∀ key ∈ keys value, 0 ∉ key ∧ hasLoneSurrogate key = false
  strings : ∀ text ∈ strings value, hasLoneSurrogate text = false

theorem mem_replaceAll {text : Text} : 0 ∉ replaceAll text := by
  intro member
  obtain ⟨char, _, inside⟩ := List.mem_flatMap.mp member
  split at inside
  · revert inside
    decide
  next other => exact other (List.mem_singleton.mp inside).symm

theorem replaceAll_cons {char : Nat} (other : char ≠ 0) (rest : Text) : replaceAll (char :: rest) = char :: replaceAll rest := by
  rw [replaceAll, List.flatMap_cons, if_neg other]
  rfl

theorem replaceAll_nul (rest : Text) : replaceAll (0 :: rest) = units "\\u0000" ++ replaceAll rest := rfl

theorem lone_plain {char : Nat} (high : isHigh char = false) (low : isLow char = false) (rest : Text) :
    hasLoneSurrogate (char :: rest) = hasLoneSurrogate rest := by
  rw [AppContract.Jcs.hasLoneSurrogate.eq_def]
  simp only [high, low, Bool.false_eq_true, if_false]

theorem lone_pair {char next : Nat} (high : isHigh char = true) (low : isLow next = true) (rest : Text) :
    hasLoneSurrogate (char :: next :: rest) = hasLoneSurrogate rest := by
  simp only [hasLoneSurrogate, high, low, if_true]

theorem lone_high {char : Nat} (high : isHigh char = true) {rest : Text} (apart : ∀ next ∈ rest.head?, isLow next = false) :
    hasLoneSurrogate (char :: rest) = true := by
  unfold hasLoneSurrogate
  cases rest with
  | nil => simp only [high, if_true]
  | cons next later => simp only [high, apart next rfl, if_true, Bool.false_eq_true, if_false]

theorem lone_low {char : Nat} (high : isHigh char = false) (low : isLow char = true) (rest : Text) : hasLoneSurrogate (char :: rest) = true := by
  unfold hasLoneSurrogate
  simp only [high, low, if_true, Bool.false_eq_true, if_false]

theorem lone_nul (rest : Text) : hasLoneSurrogate (units "\\u0000" ++ rest) = hasLoneSurrogate rest := by
  have same : units "\\u0000" = [92, 117, 48, 48, 48, 48] := rfl
  rw [same]
  simp only [List.cons_append, List.nil_append]
  rw [lone_plain rfl rfl, lone_plain rfl rfl, lone_plain rfl rfl, lone_plain rfl rfl, lone_plain rfl rfl, lone_plain rfl rfl]

theorem lone_replaceAll (text : Text) : hasLoneSurrogate (replaceAll text) = hasLoneSurrogate text := by
  have apart {char : Nat} (surrogate : isHigh char = true ∨ isLow char = true) : char ≠ 0 := by
    rintro rfl
    revert surrogate
    decide
  fun_induction hasLoneSurrogate text with
  | case1 => rfl
  | case2 char high next later low ih =>
    rw [replaceAll_cons (apart (.inl high)), replaceAll_cons (apart (.inr low)), lone_pair high low, ih]
  | case3 char high next later low =>
    rw [replaceAll_cons (apart (.inl high))]
    apply lone_high high
    by_cases nul : next = 0
    · rw [nul, replaceAll_nul]
      rintro _ ⟨⟩
      rfl
    · rw [replaceAll_cons nul]
      rintro _ ⟨⟩
      exact Bool.eq_false_iff.mpr low
  | case4 char high =>
    rw [replaceAll_cons (apart (.inl high))]
    exact lone_high high nofun
  | case5 char rest high low =>
    rw [replaceAll_cons (apart (.inr low))]
    exact lone_low (Bool.eq_false_iff.mpr high) low _
  | case6 char rest high low ih =>
    rw [Bool.not_eq_true] at high low
    by_cases nul : char = 0
    · rw [nul, replaceAll_nul, lone_nul, ih]
    · rw [replaceAll_cons nul, lone_plain high low, ih]

theorem string_accepted (numbers : Numbers N) (text : Text) :
    (jsonb numbers).string (if text.contains 0 then replaceAll text else text) = .ok () ↔ hasLoneSurrogate text = false := by
  have sound : ∀ other : Text, 0 ∉ other → ((jsonb numbers).string other = .ok () ↔ hasLoneSurrogate other = false) := by
    intro other absent
    change (if other.contains 0 then _ else if hasLoneSurrogate other then _ else _) = _ ↔ _
    rw [if_neg fun inside => absent (List.contains_iff_mem.mp inside)]
    cases hasLoneSurrogate other <;> simp
  split
  next => rw [sound _ mem_replaceAll, lone_replaceAll]
  next absent => exact sound text fun inside => absent (List.contains_iff_mem.mpr inside)

theorem key_accepted (numbers : Numbers N) (key : Text) : (jsonb numbers).string key = .ok () ↔ 0 ∉ key ∧ hasLoneSurrogate key = false := by
  change (if key.contains 0 then _ else if hasLoneSurrogate key then _ else _) = _ ↔ _
  by_cases nul : 0 ∈ key
  · rw [if_pos (List.contains_iff_mem.mpr nul)]
    simp [nul]
  · rw [if_neg fun inside => nul (List.contains_iff_mem.mp inside)]
    cases hasLoneSurrogate key <;> simp [nul]

section Parts

variable (items : List (Value N)) (members : List (Text × Value N))

theorem replaced_array : replaced (.array items) = .array (items.map replaced) := Value.fold_array ..

theorem replaced_object : replaced (.object members) = .object (members.map (Prod.map id replaced)) := Value.fold_object ..

theorem written_array (numbers : Numbers N) : written numbers (.array items) = writtenItems (items.map (written numbers)) := Value.fold_array ..

theorem written_object (numbers : Numbers N) :
    written numbers (.object members) = writtenMembers (members.map (Prod.map id (written numbers))) := Value.fold_object ..

theorem storable_array : Storable (.array items) ↔ ∀ item ∈ items, Storable item := by
  have names : keys (.array items) = (items.map keys).flatten := Value.fold_array ..
  have texts : strings (.array items) = (items.map strings).flatten := Value.fold_array ..
  constructor
  · intro storable item member
    refine ⟨fun key inside => storable.keys key ?_, fun text inside => storable.strings text ?_⟩
    · rw [names]
      exact List.mem_flatten_of_mem (List.mem_map_of_mem member) inside
    · rw [texts]
      exact List.mem_flatten_of_mem (List.mem_map_of_mem member) inside
  · intro each
    refine ⟨fun key inside => ?_, fun text inside => ?_⟩
    · rw [names] at inside
      obtain ⟨list, listed, within⟩ := List.mem_flatten.mp inside
      obtain ⟨item, member, rfl⟩ := List.mem_map.mp listed
      exact (each item member).keys key within
    · rw [texts] at inside
      obtain ⟨list, listed, within⟩ := List.mem_flatten.mp inside
      obtain ⟨item, member, rfl⟩ := List.mem_map.mp listed
      exact (each item member).strings text within

theorem storable_object : Storable (.object members) ↔
    ∀ member ∈ members, (0 ∉ member.1 ∧ hasLoneSurrogate member.1 = false) ∧ Storable member.2 := by
  have names : keys (.object members) = (members.map (Prod.map id keys)).flatMap fun member => member.1 :: member.2 := Value.fold_object ..
  have texts : strings (.object members) = (members.map (Prod.map id strings)).flatMap (·.2) := Value.fold_object ..
  rw [List.flatMap_map] at names texts
  constructor
  · intro storable member inside
    refine ⟨storable.keys _ ?_, fun key found => storable.keys key ?_, fun text found => storable.strings text ?_⟩
    · rw [names]
      exact List.mem_flatMap_of_mem inside List.mem_cons_self
    · rw [names]
      exact List.mem_flatMap_of_mem inside (List.mem_cons_of_mem _ found)
    · rw [texts]
      exact List.mem_flatMap_of_mem inside found
  · intro each
    refine ⟨fun key found => ?_, fun text found => ?_⟩
    · rw [names] at found
      obtain ⟨member, inside, found⟩ := List.mem_flatMap.mp found
      rcases List.mem_cons.mp found with rfl | found
      · exact (each member inside).1
      · exact (each member inside).2.keys key found
    · rw [texts] at found
      obtain ⟨member, inside, found⟩ := List.mem_flatMap.mp found
      exact (each member inside).2.strings text found

end Parts

section Writing

variable (numbers : Numbers N)

theorem written_replaced (value : Value N) : written numbers (replaced value) = (written numbers value).map replaced := by
  induction value using Value.induction with
  | null | bool | string | other => rfl
  | number value =>
    change writtenNumber numbers value = (writtenNumber numbers value).map replaced
    unfold writtenNumber
    split <;> rfl
  | array items ih =>
    rw [replaced_array, written_array, written_array, writtenItems, writtenItems, Option.map_some, replaced_array]
    simp only [List.map_map]
    refine congrArg (some ∘ Value.array) (List.map_congr_left fun item member => ?_)
    simp only [Function.comp_apply, ih item member]
    cases written numbers item <;> rfl
  | object members ih =>
    rw [replaced_object, written_object, written_object, writtenMembers, writtenMembers, Option.map_some, replaced_object, List.map_filterMap]
    simp only [List.filterMap_map]
    refine congrArg (some ∘ Value.object) (List.filterMap_congr fun member inside => ?_)
    simp only [Function.comp_apply, Prod.map, id, ih member inside]
    cases written numbers member.2 <;> rfl

theorem written_keys (members : List (Text × Value N)) :
    ((members.filterMap ((fun member => member.2.map (member.1, ·)) ∘ Prod.map id (written numbers))).map Prod.fst).Sublist
      (members.map Prod.fst) := by
  induction members with
  | nil => exact List.Sublist.slnil
  | cons member members ih =>
    rw [List.filterMap_cons]
    simp only [Function.comp_apply, Prod.map]
    cases written numbers member.2 with
    | none => exact ih.cons _
    | some value => exact ih.cons_cons _

theorem written_made {value out : Value N} (distinct : Distinct value) (some_text : written numbers value = some out) :
    Made (numbers.isFinite · = true) (fun _ => True) out := by
  induction distinct generalizing out with
  | null =>
    obtain rfl := Option.some.inj some_text
    exact .null
  | bool =>
    obtain rfl := Option.some.inj some_text
    exact .bool _
  | number value =>
    obtain rfl := Option.some.inj some_text
    split
    next finite => exact .number finite
    · exact .null
  | string =>
    obtain rfl := Option.some.inj some_text
    exact .string trivial
  | @array items each ih =>
    rw [written_array] at some_text
    obtain rfl := Option.some.inj some_text
    refine .array fun out listed => ?_
    obtain ⟨found, among, rfl⟩ := List.mem_map.mp listed
    obtain ⟨item, member, rfl⟩ := List.mem_map.mp among
    cases result : written numbers item with
    | none => exact .null
    | some value => exact ih item member result
  | @object members nodup each ih =>
    rw [written_object] at some_text
    obtain rfl := Option.some.inj some_text
    rw [List.filterMap_map]
    refine .object (nodup.sublist (written_keys numbers members)) (fun _ _ => trivial) fun pair listed => ?_
    obtain ⟨member, inside, found⟩ := List.mem_filterMap.mp listed
    obtain ⟨value, result, rfl⟩ := Option.map_eq_some_iff.mp found
    exact ih member inside result
  | other => cases some_text

theorem replaced_keys (members : List (Text × Value N)) :
    (members.map (Prod.map id (replaced (N := N)))).map Prod.fst = members.map Prod.fst := by
  rw [List.map_map]
  rfl

theorem storable_string (text : Text) : Storable (.string text : Value N) ↔ hasLoneSurrogate text = false :=
  ⟨fun storable => storable.strings text List.mem_cons_self, fun sound =>
    ⟨nofun, fun _ inside => List.mem_singleton.mp inside ▸ sound⟩⟩

/-- With U+0000 spelled, the values that can be stored are those the database takes. -/
theorem made_replaced {kind : N → Prop} {value : Value N} (made : Made kind (fun _ => True) value) :
    Made kind (fun text => (jsonb numbers).string text = .ok ()) (replaced value) ↔ Storable value := by
  have silent (value : Value N) (names : keys value = []) (texts : strings value = []) : Storable value :=
    ⟨by rw [names]; exact nofun, by rw [texts]; exact nofun⟩
  induction made with
  | null => exact ⟨fun _ => silent _ rfl rfl, fun _ => .null⟩
  | bool value => exact ⟨fun _ => silent _ rfl rfl, fun _ => .bool value⟩
  | number own => exact ⟨fun _ => silent _ rfl rfl, fun _ => .number own⟩
  | @string text =>
    rw [storable_string, ← string_accepted numbers]
    constructor
    · intro accepted
      cases accepted with
      | string own => exact own
    · intro own
      exact Made.string own
  | @array items each ih =>
    rw [replaced_array, storable_array]
    constructor
    · intro accepted item member
      cases accepted with
      | array all => exact (ih item member).mp (all _ (List.mem_map_of_mem member))
    · intro storable
      refine .array fun out listed => ?_
      obtain ⟨item, member, rfl⟩ := List.mem_map.mp listed
      exact (ih item member).mpr (storable item member)
  | @object members nodup _ each ih =>
    rw [replaced_object, storable_object]
    constructor
    · intro accepted member inside
      cases accepted with
      | object _ names all =>
        have listed := List.mem_map_of_mem (f := Prod.map id replaced) inside
        exact ⟨(key_accepted numbers member.1).mp (names (Prod.map id replaced member) listed), (ih member inside).mp (all (Prod.map id replaced member) listed)⟩
    · intro storable
      refine .object (by rwa [replaced_keys]) (fun out listed => ?_) fun out listed => ?_
      · obtain ⟨member, inside, rfl⟩ := List.mem_map.mp listed
        exact (key_accepted numbers member.1).mpr (storable member inside).1
      · obtain ⟨member, inside, rfl⟩ := List.mem_map.mp listed
        exact (ih member inside).mpr (storable member inside).2

theorem replaced_made {kind : N → Prop} {value : Value N} (made : Made kind (fun _ => True) value) :
    Made kind (fun _ => True) (replaced value) := by
  induction made with
  | null => exact .null
  | bool value => exact .bool value
  | number own => exact .number own
  | string => exact .string trivial
  | array each ih =>
    rw [replaced_array]
    refine .array fun out listed => ?_
    obtain ⟨item, member, rfl⟩ := List.mem_map.mp listed
    exact ih item member
  | object nodup _ each ih =>
    rw [replaced_object]
    refine .object (by rwa [replaced_keys]) (fun _ _ => trivial) fun out listed => ?_
    obtain ⟨member, inside, rfl⟩ := List.mem_map.mp listed
    exact ih member inside

end Writing

section Storing

variable [DecidableEq N] (numbers : Numbers N)

theorem legible {value : Value N}
    (made : Made (numbers.isFinite · = true) (fun text => (jsonb numbers).string text = .ok ()) value) :
    Legible (jsonb numbers) numbers.toText numbers.plain value := by
  refine made.mono (fun number finite => ?_) fun _ accepted => accepted
  obtain ⟨whole, numeral⟩ := numbers.numeral number finite
  exact ⟨whole, numeral _, congrArg Except.ok (numbers.ofText_plain finite)⟩

theorem made_arranged {kind : N → Prop} {strings : Text → Prop} {value : Value N} (own : Made kind (fun _ => True) value)
    (accepted : Made (fun _ => True) strings (arranged numbers.plain id value)) : Made kind strings value := by
  induction own with
  | null => exact .null
  | bool value => exact .bool value
  | number own => exact .number own
  | string =>
    cases accepted with
    | string kept => exact .string kept
  | array each ih =>
    rw [arranged_array] at accepted
    cases accepted with
    | array all => exact .array fun item member => ih item member (all _ (List.mem_map_of_mem member))
  | object nodup _ each ih =>
    rw [arranged_object] at accepted
    cases accepted with
    | object _ names all =>
      refine .object nodup (fun member inside => ?_) fun member inside => ?_
      · exact names (Prod.map id (arranged numbers.plain id) member) (List.mem_map_of_mem inside)
      · exact ih member inside (all (Prod.map id (arranged numbers.plain id) member) (List.mem_map_of_mem inside))

/-- The text of an event that has one. The database takes it, and reads the event with U+0000
spelled in its strings, exactly when the event can be stored. -/
theorem stored_iff (event : PlatformEvent N) {value : Value N} (texts : written numbers event.value = some value)
    (plain : hasBigInt event.value = false) : ∃ text, serializeEventForJsonb numbers event = .ok text ∧
      (parse (jsonb numbers) text = .ok (arranged numbers.plain id (replaced value)) ↔ Storable value) := by
  have made := written_made numbers event.distinct texts
  refine ⟨text numbers.toText (replaced value), ?_, ?_⟩
  · rw [serializeEventForJsonb, if_neg (by rw [plain]; exact Bool.false_ne_true), written_replaced, texts]
    rfl
  constructor
  · intro read
    have accepted := (parse_accepted read).mono (fun _ _ => trivial) fun _ => id
    exact (made_replaced numbers made).mp (made_arranged numbers (replaced_made made) accepted)
  · intro storable
    exact parse_text (legible numbers ((made_replaced numbers made).mpr storable))

end Storing

private def result (key content : Text) : PlatformEvent Whole where
  value := .object [(units "input", .object [(key, .string content)])]
  distinct := by
    refine .object (List.pairwise_singleton ..) fun member inside => ?_
    obtain rfl := List.mem_singleton.mp inside
    refine .object (List.pairwise_singleton ..) fun member inside => ?_
    obtain rfl := List.mem_singleton.mp inside
    exact .string _

theorem nul_of_string_stored : ∃ text, serializeEventForJsonb Whole.numbers (result (units "a") [98, 0]) = .ok text ∧
    (parse (jsonb Whole.numbers) text = .ok (arranged Whole.numbers.plain id (replaced (result (units "a") [98, 0]).value)) ↔
      Storable (result (units "a") [98, 0]).value) :=
  stored_iff Whole.numbers (result (units "a") [98, 0]) rfl rfl

/-- Neither a key with U+0000 nor a string that was cut within a pair. -/
theorem nul_of_key_refused :
    (∃ text rest, serializeEventForJsonb Whole.numbers (result [0] []) = .ok text ∧
      parse (jsonb Whole.numbers) text = .error (.refused .nul, rest)) ∧
    ∃ text rest, serializeEventForJsonb Whole.numbers (result (units "a") [0xD83D]) = .ok text ∧
      parse (jsonb Whole.numbers) text = .error (.refused .surrogate, rest) :=
  ⟨⟨_, _, rfl, rfl⟩, _, _, rfl, rfl⟩

end AgentSaas.Proofs.StoredEvents
