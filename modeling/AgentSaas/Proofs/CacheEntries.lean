import AgentSaas.Proofs.CacheDocuments

/-! The entries of a backup and of a stored bundle, and what the manifest says of them: what is read is
what a document tells. -/

namespace AgentSaas.Proofs.CacheEntries
open AgentSaas.CacheSchema JsonValues JsonStrings JsonReader JsonNumbers Sorting CacheTrees CacheDocuments
open ToolCallRepair (Text unit units)

variable {N : Type} {numbers : Numbers N} {owner : CacheOwner}

structure Holds (numbers : Numbers N) (owner : CacheOwner) (entry : CacheBackupEntry) (input : CacheEntryInput N) : Prop where
  type : input.type = entry.type
  resource : isResource entry.type = true
  key : CacheKeyBuilder.build owner input.resource input.resourceId = .ok entry.key
  parsed : parseCacheJson numbers entry.payload CACHE_MAX_JSON_BYTES = .ok input.data
  written : canonicalSerialize numbers input.data CACHE_MAX_JSON_BYTES = .ok entry.payload
  valid : validateBackupData numbers input.resource input.data = .ok ()

def Sound (numbers : Numbers N) (owner : CacheOwner) (entry : CacheBackupEntry) : Prop := ∃ input, Holds numbers owner entry input

theorem prepareEntry_ok_iff {input : CacheEntryInput N} {entry : CacheBackupEntry} : prepareEntry numbers owner input = .ok entry ↔
    input.type = entry.type ∧ isResource entry.type = true ∧ validateBackupData numbers input.resource input.data = .ok () ∧
      CacheKeyBuilder.build owner input.resource input.resourceId = .ok entry.key ∧
      canonicalSerialize numbers input.data CACHE_MAX_JSON_BYTES = .ok entry.payload := by
  unfold prepareEntry
  constructor
  · intro returned
    obtain ⟨_, resource, returned⟩ := Outcomes.of_ok_bind returned
    obtain ⟨_, valid, returned⟩ := Outcomes.of_ok_bind returned
    obtain ⟨key, built, returned⟩ := Outcomes.of_ok_bind returned
    obtain ⟨payload, written, returned⟩ := Outcomes.of_ok_bind returned
    cases returned
    exact ⟨rfl, assertThat_ok_iff.mp resource, valid, built, written⟩
  · rintro ⟨same, resource, valid, built, written⟩
    rw [assertResource, assertThat_ok_iff.mpr (same ▸ resource), valid, built, written, same]
    rfl

theorem Holds.prepared {entry : CacheBackupEntry} {input : CacheEntryInput N} (holds : Holds numbers owner entry input) :
    prepareEntry numbers owner input = .ok entry :=
  prepareEntry_ok_iff.mpr ⟨holds.type, holds.resource, holds.valid, holds.key, holds.written⟩

structure Tells (value : Value N) (entry : CacheBackupEntry) : Prop where
  exact : exactObjectKeys value ["key", "payload", "type"] = true
  key : property value "key" = .string entry.key
  payload : property value "payload" = .string entry.payload
  type : property value "type" = .string entry.type

theorem tells_toValue (entry : CacheBackupEntry) : Tells (entry.toValue : Value N) entry := ⟨by rfl, by rfl, by rfl, by rfl⟩

theorem Tells.normal {read : N → N} {value : Value N} {entry : CacheBackupEntry} (distinct : Distinct value) (tells : Tells value entry) :
    Tells (normal read value) entry := by
  refine ⟨(exactObjectKeys_normal value).trans tells.exact, ?_, ?_, ?_⟩
  · rw [property_normal distinct, tells.key]
    rfl
  · rw [property_normal distinct, tells.payload]
    rfl
  · rw [property_normal distinct, tells.type]
    rfl

theorem readEntry_ok_iff {found : List CacheBackupEntry} {value : Value N} {entry : CacheBackupEntry} :
    readEntry found value = .ok entry ↔ Tells value entry ∧ entry.key ∉ found.map (·.key) := by
  unfold readEntry
  constructor
  · intro returned
    split at returned
    · cases returned
    next exact =>
      rw [Bool.not_eq_true', Bool.not_eq_false] at exact
      split at returned
      next key payload type first second third =>
        split at returned
        · cases returned
        next fresh =>
          cases returned
          refine ⟨⟨exact, first, second, third⟩, fun member => fresh ?_⟩
          obtain ⟨other, inside, same⟩ := List.mem_map.mp member
          exact List.any_eq_true.mpr ⟨other, inside, decide_eq_true same⟩
      · cases returned
  · rintro ⟨tells, fresh⟩
    have absent : ¬ found.any (·.key = entry.key) = true := by
      intro any
      obtain ⟨other, inside, same⟩ := List.any_eq_true.mp any
      exact fresh (List.mem_map.mpr ⟨other, inside, of_decide_eq_true same⟩)
    rw [tells.exact, tells.key, tells.payload, tells.type]
    exact if_neg absent

theorem readEntries_ok_iff {values : List (Value N)} {entries : List CacheBackupEntry} :
    readEntries [] values = .ok entries ↔ List.Forall₂ Tells values entries ∧ (entries.map (·.key)).Nodup := by
  exact @Outcomes.collect_nil_ok_iff _ _ _ _ CacheBackupEntry.key readEntry readEntries Tells (fun _ => rfl) (fun _ _ _ => rfl)
    (fun _ _ _ => readEntry_ok_iff) _ _

theorem parse_owned_iff {key : Text} {parsed : ParsedCacheKey} : CacheKeyBuilder.parse key = .ok parsed ∧ parsed.owner = owner ↔
    parsed.owner = owner ∧ CacheKeyBuilder.build owner parsed.resource parsed.resourceId = .ok key := by
  constructor
  · rintro ⟨found, rfl⟩
    exact ⟨rfl, parse_ok_iff.mp found⟩
  · rintro ⟨rfl, built⟩
    exact ⟨parse_ok_iff.mpr built, rfl⟩

theorem readStoredEntry_ok_iff {keys : List Text} {value : Value N} {entry : CacheBackupEntry} :
    readStoredEntry numbers owner keys value = .ok entry ↔ (Tells value entry ∧ Sound numbers owner entry) ∧ entry.key ∉ keys := by
  unfold readStoredEntry
  constructor
  · intro returned
    split at returned
    · cases returned
    next exact =>
      rw [Bool.not_eq_true', Bool.not_eq_false] at exact
      split at returned
      next key payload type first second third =>
        obtain ⟨resource, returned⟩ := check_ok_iff.mp returned
        obtain ⟨parsed, found, returned⟩ := Outcomes.of_ok_bind returned
        obtain ⟨own, returned⟩ := check_ok_iff.mp returned
        obtain ⟨fresh, returned⟩ := check_ok_iff.mp returned
        obtain ⟨data, read, returned⟩ := Outcomes.of_ok_bind returned
        obtain ⟨text, written, returned⟩ := Outcomes.of_ok_bind returned
        obtain ⟨same, returned⟩ := check_ok_iff.mp returned
        obtain ⟨_, valid, returned⟩ := Outcomes.of_ok_bind returned
        cases returned
        obtain ⟨_, built⟩ := parse_owned_iff.mp ⟨found, Decidable.not_not.mp own⟩
        rw [Decidable.not_not.mp same] at written
        refine ⟨⟨⟨exact, first, second, third⟩, ⟨parsed.resource, parsed.resourceId, type, data⟩, rfl, by simpa using resource, built, read,
          written, valid⟩, by simpa using fresh⟩
      · cases returned
  · rintro ⟨⟨tells, input, holds⟩, fresh⟩
    have parsed : CacheKeyBuilder.parse entry.key = .ok ⟨owner, input.resource, input.resourceId⟩ := parse_ok_iff.mpr holds.key
    rw [tells.exact, tells.key, tells.payload, tells.type]
    simp only [holds.resource, Bool.not_true, Bool.false_eq_true, if_false, parsed, bind, Except.bind, ne_eq, not_true_eq_false,
      List.contains_iff_mem, fresh, holds.parsed, holds.written, holds.valid]
    rfl

theorem readStoredEntries_ok_iff {values : List (Value N)} {entries : List CacheBackupEntry} :
    readStoredEntries numbers owner [] values = .ok entries ↔
      List.Forall₂ (fun value entry => Tells value entry ∧ Sound numbers owner entry) values entries ∧ (entries.map (·.key)).Nodup := by
  exact @Outcomes.collect_nil_ok_iff _ _ _ _ CacheBackupEntry.key (fun found => readStoredEntry numbers owner (found.map (·.key)))
    (readStoredEntries numbers owner) _ (fun _ => rfl) (fun _ _ _ => rfl) (fun _ _ _ => readStoredEntry_ok_iff) _ _

theorem byteCount_eq_some_iff {value : Value N} {bytes : Nat} : byteCount numbers value = some bytes ↔
    ∃ number, value = .number number ∧ numbers.toInt number = some (bytes : Int) ∧ isSafe bytes = true := by
  unfold byteCount
  constructor
  · intro found
    split at found
    next number =>
      obtain ⟨count, whole, found⟩ := Option.bind_eq_some_iff.mp found
      split at found
      next fits =>
        cases found
        simp only [Bool.and_eq_true, decide_eq_true_eq] at fits
        have same : (count.toNat : Int) = count := Int.toNat_of_nonneg fits.2
        exact ⟨number, rfl, same ▸ whole, same.symm ▸ fits.1⟩
      · cases found
    · cases found
  · rintro ⟨number, rfl, whole, safe⟩
    change (numbers.toInt number).bind _ = _
    rw [whole]
    simp [safe]

/-- The value tells what the descriptor does. -/
structure Describes (numbers : Numbers N) (value : Value N) (descriptor : CacheManifestEntry) : Prop where
  exact : exactObjectKeys value ["bytes", "digest", "key", "type"] = true
  key : property value "key" = .string descriptor.key
  type : property value "type" = .string descriptor.type
  digest : property value "digest" = .string descriptor.digest
  bytes : byteCount numbers (property value "bytes") = some descriptor.bytes
  resource : isResource descriptor.type = true
  digested : isDigest descriptor.digest = true

theorem readDescriptor_eq_some_iff {value : Value N} {descriptor : CacheManifestEntry} :
    readDescriptor numbers value = some descriptor ↔ Describes numbers value descriptor := by
  unfold readDescriptor
  constructor
  · intro found
    split at found
    next exact =>
      split at found
      next key type digest bytes first second third fourth =>
        split at found
        next fits =>
          cases found
          rw [Bool.and_eq_true] at fits
          exact ⟨exact, first, second, third, fourth, fits.1, fits.2⟩
        · cases found
      · cases found
    · cases found
  · intro describes
    rw [if_pos describes.exact, describes.key, describes.type, describes.digest, describes.bytes]
    simp [describes.resource, describes.digested]

theorem find_key {entries : List CacheBackupEntry} (nodup : (entries.map (·.key)).Nodup) {entry : CacheBackupEntry} (member : entry ∈ entries) :
    entries.find? (·.key = entry.key) = some entry := by
  cases found : entries.find? (·.key = entry.key) with
  | none => exact absurd (decide_eq_true rfl) (List.find?_eq_none.mp found entry member)
  | some other =>
    have same := List.find?_some found
    rw [decide_eq_true_eq] at same
    exact congrArg some (List.inj_on_of_nodup_map nodup (List.mem_of_find?_eq_some found) member same)

theorem checkDescriptor_ok_iff {entries : List CacheBackupEntry} (nodup : (entries.map (·.key)).Nodup) {keys : List Text}
    {descriptor : CacheManifestEntry} (resource : isResource descriptor.type = true) :
    checkDescriptor numbers owner entries keys descriptor = .ok () ↔
      (∃ entry ∈ entries, descriptor = describe entry ∧ Sound numbers owner entry) ∧ descriptor.key ∉ keys := by
  unfold checkDescriptor
  constructor
  · intro returned
    obtain ⟨fresh, returned⟩ := check_ok_iff.mp returned
    obtain ⟨parsed, found, returned⟩ := Outcomes.of_ok_bind returned
    obtain ⟨own, returned⟩ := check_ok_iff.mp returned
    split at returned
    · cases returned
    next entry selected =>
      have named := List.find?_some selected
      rw [decide_eq_true_eq] at named
      obtain ⟨type, returned⟩ := check_ok_iff.mp returned
      obtain ⟨data, read, returned⟩ := Outcomes.of_ok_bind returned
      obtain ⟨text, written, returned⟩ := Outcomes.of_ok_bind returned
      obtain ⟨untampered, valid⟩ := check_ok_iff.mp returned
      rw [not_or, not_or, Decidable.not_not, Decidable.not_not, Decidable.not_not] at untampered
      obtain ⟨same, digest, bytes⟩ := untampered
      rw [Decidable.not_not] at type
      obtain ⟨_, built⟩ := parse_owned_iff.mp ⟨found, Decidable.not_not.mp own⟩
      refine ⟨⟨entry, List.mem_of_find?_eq_some selected, ?_, ⟨parsed.resource, parsed.resourceId, entry.type, data⟩, rfl, ?_, ?_, read, ?_, valid⟩,
        by simpa using fresh⟩
      · rw [describe, named, type, digest, bytes]
      · exact type ▸ resource
      · exact named ▸ built
      · exact same ▸ written
  · rintro ⟨⟨entry, member, rfl, input, holds⟩, fresh⟩
    have parsed : CacheKeyBuilder.parse (describe entry).key = .ok ⟨owner, input.resource, input.resourceId⟩ := parse_ok_iff.mpr holds.key
    have found : entries.find? (·.key = (describe entry).key) = some entry := find_key nodup member
    simp only [parsed, bind, Except.bind, ne_eq, not_true_eq_false, if_false, List.contains_iff_mem, fresh, found, holds.parsed,
      holds.written]
    simp [describe, holds.valid]

def readOne (numbers : Numbers N) (owner : CacheOwner) (entries : List CacheBackupEntry) (found : List CacheManifestEntry) (value : Value N) :
    Except CacheSchemaError CacheManifestEntry :=
  match readDescriptor numbers value with
  | none => error .unknownManifestKey
  | some descriptor => checkDescriptor numbers owner entries (found.map (·.key)) descriptor >>= fun _ => .ok descriptor

theorem readDescriptors_cons (entries : List CacheBackupEntry) (found : List CacheManifestEntry) (value : Value N) (rest : List (Value N)) :
    readDescriptors numbers owner entries found (value :: rest) =
      readOne numbers owner entries found value >>= fun item => readDescriptors numbers owner entries (found ++ [item]) rest := by
  rw [readDescriptors, readOne]
  cases readDescriptor numbers value with
  | none => rfl
  | some descriptor =>
    dsimp only
    cases checkDescriptor numbers owner entries (found.map (·.key)) descriptor with
    | error => rfl
    | ok => rfl

def DescribesOne (numbers : Numbers N) (owner : CacheOwner) (entries : List CacheBackupEntry) (value : Value N)
    (descriptor : CacheManifestEntry) : Prop :=
  Describes numbers value descriptor ∧ ∃ entry ∈ entries, descriptor = describe entry ∧ Sound numbers owner entry

theorem readOne_ok_iff {entries : List CacheBackupEntry} (nodup : (entries.map (·.key)).Nodup) {found : List CacheManifestEntry}
    {value : Value N} {descriptor : CacheManifestEntry} : readOne numbers owner entries found value = .ok descriptor ↔
      DescribesOne numbers owner entries value descriptor ∧ descriptor.key ∉ found.map (·.key) := by
  rw [readOne, DescribesOne, ← readDescriptor_eq_some_iff]
  cases read : readDescriptor numbers value with
  | none => simp [error]
  | some other =>
    have resource := (readDescriptor_eq_some_iff.mp read).resource
    constructor
    · intro returned
      obtain ⟨_, checked, same⟩ := Outcomes.of_ok_bind returned
      cases same
      obtain ⟨described, fresh⟩ := (checkDescriptor_ok_iff nodup resource).mp checked
      exact ⟨⟨rfl, described⟩, fresh⟩
    · rintro ⟨⟨⟨⟩, described⟩, fresh⟩
      dsimp only
      rw [(checkDescriptor_ok_iff nodup resource).mpr ⟨described, fresh⟩]
      rfl

theorem readDescriptors_ok_iff {entries : List CacheBackupEntry} (nodup : (entries.map (·.key)).Nodup) {values : List (Value N)}
    {descriptors : List CacheManifestEntry} : readDescriptors numbers owner entries [] values = .ok descriptors ↔
      List.Forall₂ (DescribesOne numbers owner entries) values descriptors ∧ (descriptors.map (·.key)).Nodup :=
  @Outcomes.collect_nil_ok_iff _ _ _ _ CacheManifestEntry.key (readOne numbers owner entries) (readDescriptors numbers owner entries) _
    (fun _ => rfl) (readDescriptors_cons entries) (fun _ _ _ => readOne_ok_iff nodup) _ _

end AgentSaas.Proofs.CacheEntries
