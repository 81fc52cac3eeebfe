import AgentSaas.JsonStrings
import AgentSaas.Splitting
import Mathlib.Data.List.Lex
import Mathlib.Data.List.Sort
import Mathlib.Data.List.Perm.Subperm

/-! JSON values over any type of numbers, their text with the members of an object in the order of
the keys, and what that order forgets. -/

namespace AgentSaas.JsonValues
open ToolCallRepair (Text unit units)
open JsonStrings

/-- `other` is what has no text, with its `typeof`. -/
inductive Value (N : Type) where
  | null
  | bool (value : Bool)
  | number (value : N)
  | string (value : Text)
  | array (items : List (Value N))
  | object (members : List (Text × Value N))
  | other (kind : String)

variable {N : Type}

@[elab_as_elim]
theorem Value.induction {motive : Value N → Prop} (null : motive .null) (bool : ∀ value, motive (.bool value))
    (number : ∀ value, motive (.number value)) (string : ∀ value, motive (.string value))
    (array : ∀ items, (∀ item ∈ items, motive item) → motive (.array items))
    (object : ∀ members, (∀ member ∈ members, motive member.2) → motive (.object members))
    (other : ∀ kind, motive (.other kind)) : ∀ value, motive value
  | .null => null
  | .bool value => bool value
  | .number value => number value
  | .string value => string value
  | .array items => array items fun item _ => Value.induction null bool number string array object other item
  | .object members => object members fun member _ => Value.induction null bool number string array object other member.2
  | .other kind => other kind
termination_by value => sizeOf value
decreasing_by
  · rename_i inside
    have smaller := List.sizeOf_lt_of_mem inside
    simp only [Value.array.sizeOf_spec]
    omega
  · rename_i inside
    have smaller := List.sizeOf_lt_of_mem inside
    have part : sizeOf member = 1 + sizeOf member.1 + sizeOf member.2 := rfl
    simp only [Value.object.sizeOf_spec]
    omega

/-! Members in the order of their keys. -/

section Members

variable {α β : Type}

/-- `Object.keys(record).sort()`, with what each key holds: by UTF-16 code unit. -/
def sortMembers (members : List (Text × α)) : List (Text × α) := members.insertionSort (·.1 ≤ ·.1)

theorem sortMembers_perm (members : List (Text × α)) : (sortMembers members).Perm members := List.perm_insertionSort ..

@[simp] theorem mem_sortMembers {members : List (Text × α)} {member : Text × α} :
    member ∈ sortMembers members ↔ member ∈ members := (sortMembers_perm members).mem_iff

theorem sortMembers_keys {members : List (Text × α)} (nodup : (members.map Prod.fst).Nodup) :
    ((sortMembers members).map Prod.fst).Nodup := ((sortMembers_perm members).map Prod.fst).nodup_iff.mpr nodup

theorem sortMembers_sorted (members : List (Text × α)) : (sortMembers members).Pairwise (·.1 ≤ ·.1) :=
  have : IsTrans (Text × α) (·.1 ≤ ·.1) := ⟨fun _ _ _ => le_trans⟩
  have : Std.Total (α := Text × α) (·.1 ≤ ·.1) := ⟨fun left right => le_total left.1 right.1⟩
  List.pairwise_insertionSort ..

theorem eq_of_key {members : List (Text × α)} (nodup : (members.map Prod.fst).Nodup) {left right : Text × α}
    (first : left ∈ members) (second : right ∈ members) (same : left.1 = right.1) : left = right :=
  List.inj_on_of_nodup_map nodup first second same

theorem sortMembers_eq_of_perm {members others : List (Text × α)} (nodup : (members.map Prod.fst).Nodup)
    (perm : members.Perm others) : sortMembers members = sortMembers others := by
  refine List.Perm.eq_of_pairwise (fun left right first second le ge => ?_) (sortMembers_sorted members) (sortMembers_sorted others)
    ((sortMembers_perm members).trans (perm.trans (sortMembers_perm others).symm))
  have inside : right ∈ members := perm.mem_iff.mpr (mem_sortMembers.mp second)
  exact eq_of_key nodup (mem_sortMembers.mp first) inside (le_antisymm le ge)

theorem sortMembers_of_sorted {members : List (Text × α)} (sorted : members.Pairwise (·.1 ≤ ·.1)) : sortMembers members = members :=
  sorted.insertionSort_eq

@[simp] theorem sortMembers_sortMembers (members : List (Text × α)) : sortMembers (sortMembers members) = sortMembers members :=
  sortMembers_of_sorted (sortMembers_sorted members)

theorem sortMembers_map (f : α → β) (members : List (Text × α)) :
    sortMembers (members.map (Prod.map id f)) = (sortMembers members).map (Prod.map id f) :=
  (List.map_insertionSort (fun left right : Text × α => left.1 ≤ right.1) (fun left right : Text × β => left.1 ≤ right.1)
    (Prod.map id f) members fun _ _ _ _ => Iff.rfl).symm

end Members

/-! What is computed from the parts of a value. -/

section Folds

variable {β : Type} (null : β) (bool : Bool → β) (number : N → β) (string : Text → β) (array : List β → β)
  (object : List (Text × β) → β) (other : String → β)

mutual

def Value.fold : Value N → β
  | .null => null
  | .bool value => bool value
  | .number value => number value
  | .string value => string value
  | .array items => array (foldItems items)
  | .object members => object (foldMembers members)
  | .other kind => other kind

def Value.foldItems : List (Value N) → List β
  | [] => []
  | item :: rest => Value.fold item :: Value.foldItems rest

def Value.foldMembers : List (Text × Value N) → List (Text × β)
  | [] => []
  | (key, item) :: rest => (key, Value.fold item) :: Value.foldMembers rest

end

theorem Value.fold_array (items : List (Value N)) : Value.fold null bool number string array object other (.array items) =
    array (items.map (Value.fold null bool number string array object other)) := by
  rw [Value.fold]
  congr 1
  induction items with
  | nil => rfl
  | cons item rest ih => rw [Value.foldItems, ih, List.map_cons]

theorem Value.fold_object (members : List (Text × Value N)) :
    Value.fold null bool number string array object other (.object members) =
      object (members.map (Prod.map id (Value.fold null bool number string array object other))) := by
  rw [Value.fold]
  congr 1
  induction members with
  | nil => rfl
  | cons member rest ih =>
    rw [Value.foldMembers, ih, List.map_cons]
    rfl

end Folds

def boolText : Bool → Text
  | true => units "true"
  | false => units "false"

def arrayText (items : List Text) : Text := unit '[' :: (Splitting.join [unit ','] items ++ [unit ']'])

def memberText (member : Text × Text) : Text := quote member.1 ++ unit ':' :: member.2

def objectText (members : List (Text × Text)) : Text :=
  unit '\x7b' :: (Splitting.join [unit ','] (members.map memberText) ++ [unit '\x7d'])

/-- `JSON.stringify(value)` -/
def text (numberText : N → Text) : Value N → Text :=
  Value.fold (units "null") boolText numberText quote arrayText objectText fun _ => []

/-- The same, with the keys of every object in their order. -/
def canonical (numberText : N → Text) : Value N → Text :=
  Value.fold (units "null") boolText numberText quote arrayText (fun members => objectText (sortMembers members)) fun _ => []

/-! What reading a text gives. -/

/-- The numbers read anew, and the members of every object arranged. -/
def arranged (read : N → N) (arrange : List (Text × Value N) → List (Text × Value N)) : Value N → Value N :=
  Value.fold .null .bool (.number ∘ read) .string .array (.object ∘ arrange) .other

def normal (read : N → N) : Value N → Value N := arranged read sortMembers

section Equations

variable (numberText : N → Text) (read : N → N) (arrange : List (Text × Value N) → List (Text × Value N))
  (items : List (Value N)) (members : List (Text × Value N))

@[simp] theorem text_array : text numberText (.array items) = arrayText (items.map (text numberText)) := Value.fold_array ..

@[simp] theorem text_object : text numberText (.object members) = objectText (members.map (Prod.map id (text numberText))) :=
  Value.fold_object ..

@[simp] theorem canonical_array : canonical numberText (.array items) = arrayText (items.map (canonical numberText)) :=
  Value.fold_array ..

@[simp] theorem canonical_object : canonical numberText (.object members) =
    objectText (sortMembers (members.map (Prod.map id (canonical numberText)))) := Value.fold_object ..

@[simp] theorem arranged_array : arranged read arrange (.array items) = .array (items.map (arranged read arrange)) :=
  Value.fold_array ..

@[simp] theorem arranged_object : arranged read arrange (.object members) =
    .object (arrange (members.map (Prod.map id (arranged read arrange)))) := Value.fold_object ..

@[simp] theorem normal_array : normal read (.array items) = .array (items.map (normal read)) := Value.fold_array ..

@[simp] theorem normal_object : normal read (.object members) =
    .object (sortMembers (members.map (Prod.map id (normal read)))) := arranged_object ..

end Equations

theorem map_members {α β γ : Type} {members : List (Text × α)} {f : α → γ} {g : α → β} {h : β → γ}
    (same : ∀ member ∈ members, f member.2 = h (g member.2)) :
    members.map (Prod.map id f) = (members.map (Prod.map id g)).map (Prod.map id h) := by
  rw [List.map_map]
  exact List.map_congr_left fun member inside => Prod.ext rfl (same member inside)

theorem canonical_eq (numberText : N → Text) (value : Value N) : canonical numberText value = text numberText (normal id value) := by
  induction value using Value.induction with
  | null | bool | number | string | other => rfl
  | array items ih =>
    rw [canonical_array, normal_array, text_array, List.map_map]
    exact congrArg arrayText (List.map_congr_left ih)
  | object members ih => rw [canonical_object, normal_object, text_object, map_members ih, sortMembers_map]

theorem arranged_normal (read : N → N) (value : Value N) : arranged read id (normal id value) = normal read value := by
  induction value using Value.induction with
  | null | bool | number | string | other => rfl
  | array items ih =>
    rw [normal_array, normal_array, arranged_array, List.map_map]
    exact congrArg Value.array (List.map_congr_left ih)
  | object members ih =>
    rw [normal_object, normal_object, arranged_object, map_members fun member inside => (ih member inside).symm, sortMembers_map, sortMembers_map,
      sortMembers_map]
    rfl

theorem normal_normal (read : N → N) (again : ∀ value, read (read value) = read value) (value : Value N) :
    normal read (normal read value) = normal read value := by
  induction value using Value.induction with
  | number value => exact congrArg Value.number (again value)
  | null | bool | string | other => rfl
  | array items ih =>
    rw [normal_array, normal_array, List.map_map]
    exact congrArg Value.array (List.map_congr_left ih)
  | object members ih =>
    rw [normal_object, normal_object, ← sortMembers_map, ← map_members fun member inside => (ih member inside).symm, sortMembers_sortMembers]

theorem canonical_normal {numberText : N → Text} {read : N → N} (same : ∀ value, numberText (read value) = numberText value)
    (value : Value N) : canonical numberText (normal read value) = canonical numberText value := by
  induction value using Value.induction with
  | number value => exact same value
  | null | bool | string | other => rfl
  | array items ih =>
    rw [normal_array, canonical_array, canonical_array, List.map_map]
    exact congrArg arrayText (List.map_congr_left ih)
  | object members ih =>
    rw [normal_object, canonical_object, canonical_object, ← sortMembers_map, ← map_members fun member inside => (ih member inside).symm,
      sortMembers_sortMembers]

/-! The order of members. -/

/-- Every object has each of its keys once. -/
inductive Distinct : Value N → Prop
  | null : Distinct .null
  | bool (value : Bool) : Distinct (.bool value)
  | number (value : N) : Distinct (.number value)
  | string (value : Text) : Distinct (.string value)
  | array {items : List (Value N)} (each : ∀ item ∈ items, Distinct item) : Distinct (.array items)
  | object {members : List (Text × Value N)} (nodup : (members.map Prod.fst).Nodup) (each : ∀ member ∈ members, Distinct member.2) :
    Distinct (.object members)
  | other (kind : String) : Distinct (.other kind)

/-- The same up to the order of members, with numbers that are read the same. -/
inductive Alike (read : N → N) : Value N → Value N → Prop
  | null : Alike read .null .null
  | bool (value : Bool) : Alike read (.bool value) (.bool value)
  | number {left right : N} (same : read left = read right) : Alike read (.number left) (.number right)
  | string (value : Text) : Alike read (.string value) (.string value)
  | array {items others : List (Value N)} (length : items.length = others.length)
    (each : ∀ (index : Nat) item other, items[index]? = some item → others[index]? = some other → Alike read item other) : Alike read (.array items) (.array others)
  | object {members others : List (Text × Value N)} (keys : ∀ key, key ∈ members.map Prod.fst ↔ key ∈ others.map Prod.fst)
    (each : ∀ key item other, (key, item) ∈ members → (key, other) ∈ others → Alike read item other) :
    Alike read (.object members) (.object others)
  | other (kind : String) : Alike read (.other kind) (.other kind)

theorem normal_members {read : N → N} {members others : List (Text × Value N)} (nodup : (members.map Prod.fst).Nodup)
    (nodup' : (others.map Prod.fst).Nodup) (keys : ∀ key, key ∈ members.map Prod.fst ↔ key ∈ others.map Prod.fst)
    (each : ∀ key item other, (key, item) ∈ members → (key, other) ∈ others → normal read item = normal read other) :
    (members.map (Prod.map id (normal read))).Perm (others.map (Prod.map id (normal read))) := by
  have names (list : List (Text × Value N)) : (list.map (Prod.map id (normal read))).map Prod.fst = list.map Prod.fst := by
    rw [List.map_map]
    rfl
  refine (List.perm_ext_iff_of_nodup (.of_map Prod.fst ?_) (.of_map Prod.fst ?_)).mpr fun pair => ?_
  · rwa [names]
  · rwa [names]
  constructor
  · intro inside
    obtain ⟨⟨key, item⟩, member, rfl⟩ := List.mem_map.mp inside
    obtain ⟨⟨_, other⟩, also, rfl⟩ := List.mem_map.mp ((keys key).mp (List.mem_map_of_mem member))
    exact List.mem_map.mpr ⟨_, also, Prod.ext rfl (each _ _ _ member also).symm⟩
  · intro inside
    obtain ⟨⟨key, other⟩, member, rfl⟩ := List.mem_map.mp inside
    obtain ⟨⟨_, item⟩, also, rfl⟩ := List.mem_map.mp ((keys key).mpr (List.mem_map_of_mem member))
    exact List.mem_map.mpr ⟨_, also, Prod.ext rfl (each _ _ _ also member)⟩

theorem Alike.normal {read : N → N} {left right : Value N} (alike : Alike read left right) (first : Distinct left)
    (second : Distinct right) : normal read left = normal read right := by
  induction alike with
  | null | bool | string | other => rfl
  | number same => exact congrArg Value.number same
  | @array items others length each ih =>
    cases first with
    | array first =>
      cases second with
      | array second =>
        rw [normal_array, normal_array]
        refine congrArg Value.array (List.ext_getElem? fun index => ?_)
        rw [List.getElem?_map, List.getElem?_map]
        by_cases inside : index < items.length
        · have here : items[index]? = some items[index] := List.getElem?_eq_getElem inside
          have there : others[index]? = some others[index] := List.getElem?_eq_getElem (length ▸ inside)
          rw [here, there, Option.map_some, Option.map_some]
          exact congrArg some (ih index _ _ here there (first _ (List.getElem_mem inside)) (second _ (List.getElem_mem _)))
        · rw [List.getElem?_eq_none (by omega), List.getElem?_eq_none (by omega)]
  | object keys each ih =>
    cases first with
    | object nodup first =>
      cases second with
      | object nodup' second =>
        rw [normal_object, normal_object]
        have perm := normal_members nodup nodup' keys fun key item other member also =>
          ih key item other member also (first _ member) (second _ also)
        refine congrArg Value.object (sortMembers_eq_of_perm ?_ perm)
        rw [List.map_map]
        exact nodup

theorem alike_of_normal {read : N → N} {left right : Value N} (first : Distinct left) (second : Distinct right)
    (same : normal read left = normal read right) : Alike read left right := by
  induction left using Value.induction generalizing right with
  | null =>
    cases right with
    | null => exact .null
    | _ => cases same
  | bool value =>
    cases right with
    | bool other =>
      cases same
      exact .bool value
    | _ => cases same
  | number value =>
    cases right with
    | number other => exact .number (Value.number.inj same)
    | _ => cases same
  | string value =>
    cases right with
    | string other =>
      cases same
      exact .string value
    | _ => cases same
  | other kind =>
    cases right with
    | other =>
      cases same
      exact .other kind
    | _ => cases same
  | array items ih =>
    cases right with
    | array others =>
      cases first with
      | array first =>
        cases second with
        | array second =>
          rw [normal_array, normal_array] at same
          have maps := Value.array.inj same
          refine .array (by simpa using congrArg List.length maps) fun index item other here there => ?_
          have both := congrArg (·[index]?) maps
          simp only [List.getElem?_map, here, there, Option.map_some, Option.some.injEq] at both
          have inside : item ∈ items := List.mem_of_getElem? here
          exact ih item inside (first item inside) (second other (List.mem_of_getElem? there)) both
    | _ => cases same
  | object members ih =>
    cases right with
    | object others =>
      cases first with
      | object nodup first =>
        cases second with
        | object nodup' second =>
          rw [normal_object, normal_object] at same
          have perm : (members.map (Prod.map id (normal read))).Perm (others.map (Prod.map id (normal read))) :=
            (sortMembers_perm _).symm.trans ((Value.object.inj same) ▸ sortMembers_perm _)
          refine .object (fun key => ?_) fun key item other member also => ?_
          · have keys := (perm.map Prod.fst).mem_iff (a := key)
            rwa [List.map_map, List.map_map] at keys
          · obtain ⟨⟨_, found⟩, inside, pair⟩ := List.mem_map.mp (perm.mem_iff.mp (List.mem_map_of_mem member))
            obtain ⟨rfl, equal⟩ := Prod.mk.inj pair
            cases eq_of_key nodup' also inside rfl
            exact ih _ member (first _ member) (second _ also) equal.symm
    | _ => cases same

theorem normal_eq_iff {read : N → N} {left right : Value N} (first : Distinct left) (second : Distinct right) :
    normal read left = normal read right ↔ Alike read left right :=
  ⟨alike_of_normal first second, fun alike => alike.normal first second⟩

/-! What a value is made of. -/

/-- Every number and every string is of a kind, and every object has each of its keys once. -/
inductive Made (numbers : N → Prop) (strings : Text → Prop) : Value N → Prop
  | null : Made numbers strings .null
  | bool (value : Bool) : Made numbers strings (.bool value)
  | number {value : N} (kind : numbers value) : Made numbers strings (.number value)
  | string {value : Text} (kind : strings value) : Made numbers strings (.string value)
  | array {items : List (Value N)} (each : ∀ item ∈ items, Made numbers strings item) : Made numbers strings (.array items)
  | object {members : List (Text × Value N)} (nodup : (members.map Prod.fst).Nodup) (keys : ∀ member ∈ members, strings member.1)
    (each : ∀ member ∈ members, Made numbers strings member.2) : Made numbers strings (.object members)

section Made

variable {numbers wider : N → Prop} {strings longer : Text → Prop} {value : Value N}

theorem Made.mono (made : Made numbers strings value) (wide : ∀ value, numbers value → wider value)
    (long : ∀ text, strings text → longer text) : Made wider longer value := by
  induction made with
  | null => exact .null
  | bool value => exact .bool value
  | number kind => exact .number (wide _ kind)
  | string kind => exact .string (long _ kind)
  | array each ih => exact .array ih
  | object nodup keys each ih => exact .object nodup (fun member inside => long _ (keys member inside)) ih

theorem Made.and (made : Made numbers strings value) (also : Made wider longer value) :
    Made (fun value => numbers value ∧ wider value) (fun text => strings text ∧ longer text) value := by
  induction made with
  | null => exact .null
  | bool value => exact .bool value
  | number kind =>
    cases also with
    | number other => exact .number ⟨kind, other⟩
  | string kind =>
    cases also with
    | string other => exact .string ⟨kind, other⟩
  | array each ih =>
    cases also with
    | array others => exact .array fun item member => ih item member (others item member)
  | object nodup keys each ih =>
    cases also with
    | object _ names others =>
      exact .object nodup (fun member inside => ⟨keys member inside, names member inside⟩) fun member inside =>
        ih member inside (others member inside)

theorem Made.distinct (made : Made numbers strings value) : Distinct value := by
  induction made with
  | null => exact .null
  | bool value => exact .bool value
  | number => exact .number _
  | string => exact .string _
  | array each ih => exact .array ih
  | object nodup keys each ih => exact .object nodup ih

theorem Made.normal {read : N → N} (made : Made numbers strings value) (reads : ∀ value, numbers value → wider (read value)) :
    Made wider strings (normal read value) := by
  induction made with
  | null => exact .null
  | bool value => exact .bool value
  | number kind => exact .number (reads _ kind)
  | string kind => exact .string kind
  | array each ih =>
    rw [normal_array]
    refine .array fun item member => ?_
    obtain ⟨old, inside, rfl⟩ := List.mem_map.mp member
    exact ih old inside
  | @object members nodup keys each ih =>
    rw [normal_object]
    refine .object (sortMembers_keys ?_) (fun member inside => ?_) fun member inside => ?_
    · rw [List.map_map]
      exact nodup
    · obtain ⟨old, first, rfl⟩ := List.mem_map.mp (mem_sortMembers.mp inside)
      exact keys old first
    · obtain ⟨old, first, rfl⟩ := List.mem_map.mp (mem_sortMembers.mp inside)
      exact ih old first

end Made

end AgentSaas.JsonValues
