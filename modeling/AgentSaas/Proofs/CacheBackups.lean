import AgentSaas.Proofs.CacheDocuments
import Mathlib.Data.List.Dedup

/-! What a backup is made from. Once its entries are prepared under keys of their own, only the size
of a text can stand in the way. -/

namespace AgentSaas.Proofs.CacheBackups
open AgentSaas.CacheSchema JsonValues JsonStrings JsonReader JsonNumbers Sorting CacheTrees CacheDocuments
open ToolCallRepair (Text unit units)

variable {N : Type} {numbers : Numbers N} {owner : CacheOwner}

/-- The error of a text that is too long. -/
def tooLong : CacheSchemaError := ⟨.budgetExceeded, none⟩

/-- Nothing but the size of a text stands in the way. -/
def Accepted {α : Type} (result : Except CacheSchemaError α) : Prop := result = .error tooLong ∨ ∃ value, result = .ok value

theorem Accepted.bind {α β : Type} {first : Except CacheSchemaError α} {next : α → Except CacheSchemaError β} (accepted : Accepted first)
    (later : ∀ value, Accepted (next value)) : Accepted (first >>= next) := by
  obtain same | ⟨value, same⟩ := accepted
  · rw [same]
    exact .inl rfl
  · rw [same]
    exact later value

theorem not_accepted {α : Type} {failure : CacheSchemaError} (other : failure ≠ tooLong) : ¬ Accepted (.error failure : Except CacheSchemaError α) := by
  rintro (same | ⟨_, same⟩)
  · cases same
    exact other rfl
  · cases same

theorem serialize_of_passes {value : Value N} (passes : Passes numbers false value (units "$") 0) (maxBytes : Nat) :
    canonicalSerialize numbers value maxBytes =
      if size (canonical numbers.toText value) > maxBytes then .error tooLong else .ok (canonical numbers.toText value) := by
  rw [canonicalSerialize, passes]
  rfl

theorem accepted_serialize {value : Value N} (passes : Passes numbers false value (units "$") 0) (maxBytes : Nat) :
    Accepted (canonicalSerialize numbers value maxBytes) := by
  rw [serialize_of_passes passes]
  split
  · exact .inl rfl
  · exact .inr ⟨_, rfl⟩

theorem length_component {text : Text} (component : isComponent text = true) : text.length ≤ 128 := by
  cases text with
  | nil => exact Nat.zero_le _
  | cons first rest =>
    simp only [isComponent, Bool.and_eq_true, decide_eq_true_eq] at component
    have short := component.1.2
    rw [List.length_cons]
    omega

theorem length_resource {text : Text} (resource : isResource text = true) : text.length ≤ 48 := by
  cases text with
  | nil => exact Nat.zero_le _
  | cons first rest =>
    simp only [isResource, Bool.and_eq_true, decide_eq_true_eq] at resource
    have short := resource.1.2
    rw [List.length_cons]
    omega

theorem build_of_parts {resource resourceId : Text} (parts : Parts owner resource resourceId) :
    CacheKeyBuilder.build owner resource resourceId = .ok (Splitting.join [unit ':'] (CacheKeyBuilder.parts owner resource resourceId)) := by
  have tenantId := length_component parts.tenantId
  have userId := length_component parts.userId
  have kind := length_resource parts.resource
  have id := length_component parts.resourceId
  have labels : (units "agent-cache").length = 11 ∧ (units "v2").length = 2 ∧ (units "tenant=").length = 7 ∧ (units "user=").length = 5 ∧
      (units "resource=").length = 9 ∧ (units "id=").length = 3 := by decide
  refine build_ok_iff.mpr ⟨parts, rfl, ?_⟩
  simp only [CacheKeyBuilder.parts, Splitting.join, List.intercalate_cons_cons, List.intercalate_singleton, List.length_append,
    List.length_singleton, CACHE_MAX_KEY_LENGTH]
  omega

theorem build_fails {resource resourceId : Text} (invalid : ¬ ValidOwner owner) :
    ∃ message, CacheKeyBuilder.build owner resource resourceId = .error ⟨.invalidCacheKey, some message⟩ := by
  cases tenantId : isComponent owner.tenantId with
  | false =>
    refine ⟨units "tenantId" ++ units " has invalid characters or length", ?_⟩
    rw [CacheKeyBuilder.build, assertComponent, tenantId]
    rfl
  | true =>
    have userId : isComponent owner.userId = false := by
      rw [← Bool.not_eq_true]
      exact fun valid => invalid ⟨tenantId, valid⟩
    refine ⟨units "userId" ++ units " has invalid characters or length", ?_⟩
    rw [CacheKeyBuilder.build, assertComponent, assertComponent, tenantId, userId]
    rfl

theorem key_inj {resource resourceId resource' resourceId' : Text} (parts : Parts owner resource resourceId)
    (parts' : Parts owner resource' resourceId')
    (same : Splitting.join [unit ':'] (CacheKeyBuilder.parts owner resource resourceId) =
      Splitting.join [unit ':'] (CacheKeyBuilder.parts owner resource' resourceId')) : resource = resource' ∧ resourceId = resourceId' := by
  have first := matchKey_of_parts parts
  rw [same, matchKey_of_parts parts'] at first
  cases first
  exact ⟨rfl, rfl⟩

section Documents

variable {front : Text} {depth : Nat}

theorem endsAsPath_append {back : Text} (long : 4 ≤ back.length) : endsAsPath (front ++ back) = endsAsPath back := by
  unfold endsAsPath
  have each : ∀ name ∈ [units "path", units "uri", units "url"],
      name.isSuffixOf (foldText (front ++ back)) = name.isSuffixOf (foldText back) := by
    intro name member
    have short : name.length ≤ 4 := by
      revert name
      decide
    rw [Bool.eq_iff_iff, List.isSuffixOf_iff_suffix, List.isSuffixOf_iff_suffix, foldText, foldText, List.map_append]
    constructor
    · intro whole
      refine List.suffix_of_suffix_length_le whole (List.suffix_append _ _) ?_
      rw [List.length_map]
      omega
    · exact fun part => part.trans (List.suffix_append _ _)
  simp only [List.any_cons, List.any_nil, each (units "path") (by decide), each (units "uri") (by decide), each (units "url") (by decide)]

theorem passes_string {backup : Bool} {text : Text} (shallow : depth ≤ 24) (plain : endsAsPath front = false) :
    Passes numbers backup (.string text) front depth := by
  change atDepth (fun path _ => checkString text path) front depth = .ok ()
  refine atDepth_ok_iff.mpr ⟨shallow, ?_⟩
  rw [checkString, plain, Bool.and_false]
  rfl

theorem passes_text {backup : Bool} {name : String} {text : Text} (shallow : depth ≤ 24) (long : 3 ≤ (units name).length)
    (plain : endsAsPath (units "." ++ units name) = false) : Passes numbers backup (.string text) (front ++ units "." ++ units name) depth := by
  refine passes_string shallow ?_
  have whole : 4 ≤ (units "." ++ units name).length := by
    rw [List.length_append]
    have one : (units ".").length = 1 := by decide
    omega
  rw [List.append_assoc, endsAsPath_append whole]
  exact plain

theorem passes_natural {natural : Nat} (shallow : depth ≤ 24) (safe : isSafe natural = true) :
    Passes numbers false (.number (numbers.ofNat natural)) front depth :=
  passes_number.mpr ⟨shallow, numbers.finite_ofNat natural safe⟩

theorem passes_members {members : List (Text × Value N)} (shallow : depth ≤ 24)
    (each : ∀ member ∈ members, names POLLUTION_PROPERTY member.1 = false ∧
      Passes numbers false member.2 (front ++ units "." ++ member.1) (depth + 1)) :
    Passes numbers false (.object members) front depth := by
  refine passes_object.mpr ⟨shallow, fun member inside => ⟨?_, (each member inside).2⟩⟩
  rw [checkKey, (each member inside).1]
  rfl

theorem passes_owner (shallow : depth ≤ 23) : Passes numbers false (owner.toValue : Value N) front depth := by
  refine passes_members (by omega) ?_
  simp only [List.forall_mem_cons]
  exact ⟨⟨by decide, passes_text (by omega) (by decide) (by decide)⟩, ⟨by decide, passes_text (by omega) (by decide) (by decide)⟩, nofun⟩

theorem passes_entry (entry : CacheBackupEntry) (shallow : depth ≤ 23) : Passes numbers false (entry.toValue : Value N) front depth := by
  refine passes_members (by omega) ?_
  simp only [List.forall_mem_cons]
  exact ⟨⟨by decide, passes_text (by omega) (by decide) (by decide)⟩, ⟨by decide, passes_text (by omega) (by decide) (by decide)⟩,
    ⟨by decide, passes_text (by omega) (by decide) (by decide)⟩, nofun⟩

theorem passes_descriptor {descriptor : CacheManifestEntry} (safe : isSafe descriptor.bytes = true) (shallow : depth ≤ 23) :
    Passes numbers false (descriptor.toValue numbers) front depth := by
  refine passes_members (by omega) ?_
  simp only [List.forall_mem_cons]
  exact ⟨⟨by decide, passes_text (by omega) (by decide) (by decide)⟩, ⟨by decide, passes_text (by omega) (by decide) (by decide)⟩,
    ⟨by decide, passes_text (by omega) (by decide) (by decide)⟩, ⟨by decide, passes_natural (by omega) safe⟩, nofun⟩

variable {exportedAt : Text} {descriptors : List CacheManifestEntry}

theorem passes_bodyMembers (safe : ∀ descriptor ∈ descriptors, isSafe descriptor.bytes = true) (shallow : depth ≤ 20) :
    ∀ member ∈ bodyMembers numbers owner exportedAt descriptors, names POLLUTION_PROPERTY member.1 = false ∧
      Passes numbers false member.2 (front ++ units "." ++ member.1) (depth + 1) := by
  rw [bodyMembers]
  simp only [List.forall_mem_cons]
  refine ⟨⟨by decide, passes_natural (by omega) (by decide)⟩, ⟨by decide, passes_owner (by omega)⟩,
    ⟨by decide, passes_text (by omega) (by decide) (by decide)⟩, ⟨by decide, passes_array.mpr ⟨by omega, ?_⟩⟩, nofun⟩
  rw [List.zipIdx_map]
  intro item inside
  obtain ⟨⟨descriptor, index⟩, member, rfl⟩ := List.mem_map.mp inside
  have listed := List.mem_of_getElem? (List.mk_mem_zipIdx_iff_getElem?.mp member)
  exact passes_descriptor (safe descriptor listed) (by omega)

theorem passes_body (safe : ∀ descriptor ∈ descriptors, isSafe descriptor.bytes = true) :
    Passes numbers false (.object (bodyMembers numbers owner exportedAt descriptors)) (units "$") 0 :=
  passes_members (by omega) (passes_bodyMembers safe (by omega))

theorem passes_backup {backup : CacheBackup} (safe : ∀ descriptor ∈ backup.manifest.entries, isSafe descriptor.bytes = true) :
    Passes numbers false (backup.toValue numbers) (units "$") 0 := by
  refine passes_members (by omega) ?_
  simp only [List.forall_mem_cons]
  refine ⟨⟨by decide, passes_members (by omega) fun member inside => ?_⟩, ⟨by decide, passes_array.mpr ⟨by omega, ?_⟩⟩, nofun⟩
  · obtain listed | own := List.mem_append.mp inside
    · exact passes_bodyMembers safe (by omega) member listed
    · have plain : names POLLUTION_PROPERTY (units "overallDigest") = false := by decide
      rw [List.mem_singleton.mp own]
      exact ⟨plain, passes_text (by omega) (by decide) (by decide)⟩
  · rw [List.zipIdx_map]
    intro item inside
    obtain ⟨⟨entry, index⟩, _, rfl⟩ := List.mem_map.mp inside
    exact passes_entry entry (by omega)

end Documents

theorem Passes.loose {value : Value N} {path : Text} {depth : Nat} (passes : Passes numbers true value path depth) :
    Passes numbers false value path depth := by
  induction value using Value.induction generalizing path depth with
  | null | bool | number | string => exact passes
  | other => exact absurd passes passes_other
  | array items ih =>
    obtain ⟨shallow, each⟩ := passes_array.mp passes
    exact passes_array.mpr ⟨shallow, fun item inside =>
      ih item.1 (List.mem_of_getElem? (List.mk_mem_zipIdx_iff_getElem?.mp inside)) (each item inside)⟩
  | object members ih =>
    obtain ⟨shallow, each⟩ := passes_object.mp passes
    refine passes_members shallow fun member inside => ⟨?_, ih member inside (each member inside).2⟩
    have allowed := (each member inside).1
    unfold checkKey at allowed
    split at allowed
    · cases allowed
    next plain => exact Bool.not_eq_true _ ▸ plain

structure Preparable (numbers : Numbers N) (owner : CacheOwner) (entry : CacheEntryInput N) : Prop where
  type : isResource entry.type = true
  valid : validateBackupData numbers entry.resource entry.data = .ok ()
  parts : Parts owner entry.resource entry.resourceId

def payload (numbers : Numbers N) (entry : CacheEntryInput N) : Text := canonical numbers.toText entry.data

def isOversize (numbers : Numbers N) (entry : CacheEntryInput N) : Bool := size (payload numbers entry) > CACHE_MAX_JSON_BYTES

def prepared (numbers : Numbers N) (owner : CacheOwner) (entry : CacheEntryInput N) : CacheBackupEntry :=
  ⟨Splitting.join [unit ':'] (CacheKeyBuilder.parts owner entry.resource entry.resourceId), entry.type, payload numbers entry⟩

theorem prepareEntry_eq {entry : CacheEntryInput N} (preparable : Preparable numbers owner entry) :
    prepareEntry numbers owner entry = if isOversize numbers entry = true then .error tooLong else .ok (prepared numbers owner entry) := by
  have passes := Passes.loose (validateBackupData_ok_iff.mp preparable.valid).2.2
  rw [prepareEntry, assertResource, assertThat_ok_iff.mpr preparable.type, preparable.valid, build_of_parts preparable.parts,
    serialize_of_passes passes, isOversize, payload]
  by_cases large : size (canonical numbers.toText entry.data) > CACHE_MAX_JSON_BYTES
  · rw [if_pos large, if_pos (decide_eq_true large)]
    rfl
  · rw [if_neg large, if_neg (by simpa using large)]
    rfl

def address (entry : CacheEntryInput N) : Text × Text := (entry.resource, entry.resourceId)

theorem dedup_length_iff {α : Type} [DecidableEq α] {items : List α} : items.dedup.length = items.length ↔ items.Nodup := by
  constructor
  · intro same
    rw [← (List.dedup_sublist items).eq_of_length same]
    exact List.nodup_dedup items
  · exact fun nodup => congrArg List.length nodup.dedup

theorem safe_bytes {entry : CacheEntryInput N} (small : ¬ isOversize numbers entry = true) :
    isSafe (describe (prepared numbers owner entry)).bytes = true := by
  have bound : size (payload numbers entry) ≤ CACHE_MAX_JSON_BYTES := by simpa [isOversize] using small
  have budget : (CACHE_MAX_JSON_BYTES : Int) ≤ MAX_SAFE_INTEGER := by decide
  have whole : ((size (payload numbers entry) : Nat) : Int) ≤ (CACHE_MAX_JSON_BYTES : Int) := Int.ofNat_le.mpr bound
  change isSafe (size (payload numbers entry) : Nat) = true
  simp only [isSafe, Bool.and_eq_true, decide_eq_true_eq]
  have least : -MAX_SAFE_INTEGER ≤ 0 := by decide
  omega

theorem keys_nodup_iff {input : List (CacheEntryInput N)} (preparable : ∀ entry ∈ input, Preparable numbers owner entry) :
    ((input.map (prepared numbers owner)).map (·.key)).Nodup ↔ (input.map address).Nodup := by
  rw [List.map_map, List.Nodup, List.Nodup, List.pairwise_map, List.pairwise_map]
  refine List.Pairwise.iff_of_mem fun {left right} first second => not_congr ?_
  constructor
  · intro same
    obtain ⟨resource, resourceId⟩ := key_inj (preparable left first).parts (preparable right second).parts same
    exact Prod.ext resource resourceId
  · intro same
    obtain ⟨resource, resourceId⟩ := Prod.mk.inj same
    rw [Function.comp_apply, Function.comp_apply, prepared, prepared, resource, resourceId]

/-- Entries that may be in a backup are accepted exactly where no two have one address, unless the
size of one of them is complained about before. -/
theorem accepted_iff {datable : Text → Bool} {exportedAt : Text} (dated : datable exportedAt = true) {input : List (CacheEntryInput N)}
    (preparable : ∀ entry ∈ input, Preparable numbers owner entry) :
    Accepted (createCacheBackup numbers datable owner input exportedAt) ↔
      (input.map address).Nodup ∨ ∃ entry ∈ input, isOversize numbers entry = true := by
  have ready : input.mapM (prepareEntry numbers owner) =
      if input.any (isOversize numbers) = true then .error tooLong else .ok (input.map (prepared numbers owner)) :=
    Outcomes.mapM_eq fun entry member => prepareEntry_eq (preparable entry member)
  rw [createCacheBackup, dated, ready]
  by_cases large : input.any (isOversize numbers) = true
  · rw [if_pos large]
    exact iff_of_true (.inl rfl) (.inr (List.any_eq_true.mp large))
  rw [if_neg large]
  have others : ¬ ∃ entry ∈ input, isOversize numbers entry = true := fun any => large (List.any_eq_true.mpr any)
  change Accepted (if ((byKey.sort _).map _).dedup.length ≠ (byKey.sort _).length then _ else _) ↔ _
  have sorted : (byKey.sort (input.map (prepared numbers owner))).Perm (input.map (prepared numbers owner)) := List.perm_insertionSort ..
  generalize byKey.sort (input.map (prepared numbers owner)) = entries at sorted ⊢
  have keys : (entries.map (·.key)).dedup.length = entries.length ↔ (input.map address).Nodup := by
    rw [← keys_nodup_iff preparable, ← (sorted.map (·.key)).nodup_iff, ← dedup_length_iff, List.length_map]
  by_cases distinct : (input.map address).Nodup
  · refine iff_of_true ?_ (.inl distinct)
    rw [if_neg (not_not.mpr (keys.mpr distinct))]
    have fits : ∀ descriptor ∈ entries.map describe, isSafe descriptor.bytes = true := by
      intro descriptor member
      obtain ⟨entry, listed, rfl⟩ := List.mem_map.mp member
      obtain ⟨source, inside, rfl⟩ := List.mem_map.mp (sorted.mem_iff.mp listed)
      exact safe_bytes fun wrong => others ⟨source, inside, wrong⟩
    refine Accepted.bind (accepted_serialize (passes_body fits) _) fun body => ?_
    exact Accepted.bind (accepted_serialize (passes_backup fits) _) fun _ => .inr ⟨_, rfl⟩
  · refine iff_of_false ?_ (not_or.mpr ⟨distinct, others⟩)
    rw [if_pos (mt keys.mp distinct)]
    exact not_accepted nofun

theorem refused (invalid : ¬ ValidOwner owner) {datable : Text → Bool} {exportedAt : Text} (dated : datable exportedAt = true)
    {entry : CacheEntryInput N} {rest : List (CacheEntryInput N)} (type : isResource entry.type = true)
    (valid : validateBackupData numbers entry.resource entry.data = .ok ()) :
    ¬ Accepted (createCacheBackup numbers datable owner (entry :: rest) exportedAt) := by
  obtain ⟨message, failure⟩ := @build_fails owner entry.resource entry.resourceId invalid
  have first : prepareEntry numbers owner entry = .error ⟨.invalidCacheKey, some message⟩ := by
    rw [prepareEntry, assertResource, assertThat_ok_iff.mpr type, valid, failure]
    rfl
  rw [createCacheBackup, dated, List.mapM_cons, first]
  exact not_accepted fun same => by cases same

end AgentSaas.Proofs.CacheBackups
