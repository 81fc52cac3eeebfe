import AgentSaas.Proofs.CacheRoundTrip

/-! A backup that is accepted is made again from its entries, and one that is made is accepted, stored and
read back. Without entries, it may have been made for an owner who cannot have any. -/

namespace AgentSaas.Proofs.CacheRecreation
open AgentSaas.CacheSchema JsonValues JsonStrings JsonReader JsonNumbers Sorting CacheTrees CacheDocuments CacheBackups CacheEntries CacheRoundTrip
open ToolCallRepair (Text unit units)

variable {N : Type} {numbers : Numbers N} {datable : Text → Bool} {owner : CacheOwner} {backup again : CacheBackup} {value : Value N}

theorem stored {exportedAt : Text} (created : Created numbers datable owner exportedAt backup) :
    ∃ staged, canonicalSerialize numbers (bundle numbers owner backup.entries) CACHE_MAX_BACKUP_BYTES = .ok staged := by
  obtain ⟨_, whole⟩ := created.written
  obtain ⟨passes, small, _⟩ := canonicalSerialize_ok_iff.mp whole
  have fits := (size_bundle created.proper.named passes).trans small
  rw [serialize_of_passes passes_bundle, if_neg (Nat.not_lt.mpr fits)]
  exact ⟨_, rfl⟩

/-- What is made of the parsed entries of a backup describes the same entries, in the order of their keys. -/
structure Again (numbers : Numbers N) (datable : Text → Bool) (owner : CacheOwner) (backup again : CacheBackup) : Prop where
  created : Created numbers datable owner backup.manifest.exportedAt again
  entries : again.entries = byKey.sort backup.entries

theorem Again.entries_perm (same : Again numbers datable owner backup again) : again.entries.Perm backup.entries :=
  same.entries ▸ List.perm_insertionSort ..

theorem Again.described (same : Again numbers datable owner backup again) (proper : Proper numbers datable owner backup) :
    again.manifest.entries.Perm backup.manifest.entries :=
  same.created.ordered ▸ (same.entries_perm.map describe).trans proper.described.symm

theorem key_le {left right : CacheBackupEntry} (below : byKey.le left right) : left.key ≤ right.key := by
  by_contra above
  have compared : byKey.compare left right = 1 := by
    have greater : right.key < left.key := not_le.mp above
    simp [byKey, Comparator.onKey, Comparator.ofLinearOrder, greater, greater.not_gt]
  rw [Comparator.le, compared] at below
  omega

theorem Again.ordered (same : Again numbers datable owner backup again) (proper : Proper numbers datable owner backup)
    (ascends : backup.manifest.entries.Pairwise (·.key ≤ ·.key)) : again.manifest.entries = backup.manifest.entries := by
  have sorted : again.manifest.entries.Pairwise (·.key ≤ ·.key) := by
    rw [same.created.ordered, same.entries, List.pairwise_map]
    exact (byKey.pairwise_sort backup.entries).imp key_le
  have keys : (again.manifest.entries.map (·.key)).Nodup := by
    rw [same.created.ordered, describe_keys]
    exact same.created.proper.nodup
  refine List.Perm.eq_of_pairwise (fun left right first second low high => ?_) sorted ascends (same.described proper)
  exact List.inj_on_of_nodup_map keys first ((same.described proper).mem_iff.mpr second) (le_antisymm low high)

section Digest

theorem json_property {key : String} {own : Value N} (made : Json numbers value) (found : property value key = own)
    (defined : own ≠ .other "undefined") : Json numbers own := by
  obtain ⟨members, rfl, member⟩ := mem_of_property found defined
  cases made with
  | object _ _ each => exact each _ member

theorem isVersion_iff : isVersion numbers value = true ↔
    ∃ number, value = .number number ∧ numbers.toInt number = some (CACHE_SCHEMA_VERSION : Int) := by
  unfold isVersion
  constructor
  · intro found
    split at found
    next number => exact ⟨number, rfl, of_decide_eq_true found⟩
    · cases found
  · rintro ⟨number, rfl, same⟩
    exact decide_eq_true same

theorem readOverallDigest_ok_iff {digest : Text} : readOverallDigest numbers value = .ok digest ↔
    property value "overallDigest" = .string digest ∧
      ∃ body, manifestBody numbers (without value "overallDigest") = .ok body ∧ digest = cacheDigest body := by
  unfold readOverallDigest
  constructor
  · intro returned
    split at returned
    next found =>
      obtain ⟨body, written, returned⟩ := Outcomes.of_ok_bind returned
      obtain ⟨same, returned⟩ := check_ok_iff.mp returned
      cases returned
      exact ⟨found, body, written, (not_not.mp same).symm⟩
    · cases returned
  · rintro ⟨found, body, written, rfl⟩
    rw [found, written]
    exact if_neg (not_not.mpr rfl)

variable [DecidableEq N]

theorem normal_natural {number : N} {natural : Nat} (made : Json numbers (.number number)) (safe : isSafe natural = true)
    (same : numbers.toInt number = some (natural : Int)) :
    normal numbers.plain (.number number) = normal numbers.plain (.number (numbers.ofNat natural)) := by
  cases made with
  | number finite => exact congrArg Value.number ((plain_eq_ofNat finite safe same).trans (plain_ofNat safe).symm)

theorem normal_descriptor {descriptor : CacheManifestEntry} (made : Json numbers value) (describes : Describes numbers value descriptor) :
    normal numbers.plain value = normal numbers.plain (descriptor.toValue numbers) := by
  obtain ⟨number, counted, whole, safe⟩ := byteCount_eq_some_iff.mp describes.bytes
  have defined : (.number number : Value N) ≠ .other "undefined" := nofun
  have bytes := normal_natural (json_property made counted defined) safe whole
  have listed : descriptor.toValue numbers = .object ([("key", .string descriptor.key), ("type", .string descriptor.type),
    ("digest", .string descriptor.digest), ("bytes", .number (numbers.ofNat descriptor.bytes))].map (Prod.map units id)) := rfl
  have names : (["key", "type", "digest", "bytes"].map units).Nodup := by decide
  have keys : joinSorted (["bytes", "digest", "key", "type"].map units) = joinSorted (["key", "type", "digest", "bytes"].map units) := by decide
  rw [listed]
  refine normal_of_properties made.distinct describes.exact keys names (List.cons_ne_nil _ _) rfl ?_
  simp only [List.forall_mem_cons]
  exact ⟨agrees describes.key string_defined rfl, agrees describes.type string_defined rfl, agrees describes.digest string_defined rfl,
    agrees counted defined bytes, List.forall_mem_nil _⟩

theorem normal_descriptors {values : List (Value N)} {descriptors : List CacheManifestEntry} (made : ∀ value ∈ values, Json numbers value)
    (describes : List.Forall₂ (Describes numbers) values descriptors) :
    values.map (normal numbers.plain) = (descriptors.map (·.toValue numbers)).map (normal numbers.plain) := by
  induction describes with
  | nil => rfl
  | cons own _ ih =>
    obtain ⟨here, later⟩ := List.forall_mem_cons.mp made
    rw [List.map_cons, List.map_cons, List.map_cons, normal_descriptor here own, ih later]

theorem normal_manifest (made : Json numbers value) (states : States numbers value backup) :
    normal numbers.plain (property value "manifest") = normal numbers.plain (backup.manifest.toValue numbers) := by
  have manifest : Json numbers (property value "manifest") := by
    refine json_property made rfl fun undefined => ?_
    have exact := states.manifest
    rw [undefined] at exact
    cases exact
  obtain ⟨values, listed, describes⟩ := states.descriptors
  obtain ⟨number, version, whole⟩ := isVersion_iff.mp states.version
  obtain ⟨digest, _⟩ := readOverallDigest_ok_iff.mp states.overallDigest
  have arrayDefined : (.array values : Value N) ≠ .other "undefined" := nofun
  have numberDefined : (.number number : Value N) ≠ .other "undefined" := nofun
  have ownerDefined : property (property value "manifest") "owner" ≠ .other "undefined" := by
    intro undefined
    have exact := (checkOwner_ok_iff.mp states.owner).1
    rw [undefined] at exact
    cases exact
  have own : Json numbers (.array values) := json_property manifest listed arrayDefined
  have entries : normal numbers.plain (.array values) = normal numbers.plain (.array (backup.manifest.entries.map (·.toValue numbers))) := by
    cases own with
    | array each => rw [normal_array, normal_array, normal_descriptors each describes]
  have natural := normal_natural (json_property manifest version numberDefined) (by decide) whole
  have owned := @normal_owner _ numbers.plain _ _ _ (Distinct.property manifest.distinct) states.owner
  have order : (["schemaVersion", "owner", "exportedAt", "entries", "overallDigest"].map units).Nodup := by decide
  have keys : joinSorted (["entries", "exportedAt", "overallDigest", "owner", "schemaVersion"].map units) =
      joinSorted (["schemaVersion", "owner", "exportedAt", "entries", "overallDigest"].map units) := by decide
  have fields : backup.manifest.toValue numbers = .object ([("schemaVersion", .number (numbers.ofNat CACHE_SCHEMA_VERSION)),
    ("owner", backup.manifest.owner.toValue), ("exportedAt", .string backup.manifest.exportedAt),
    ("entries", .array (backup.manifest.entries.map (·.toValue numbers))),
    ("overallDigest", .string backup.manifest.overallDigest)].map (Prod.map units id)) := rfl
  rw [fields]
  refine normal_of_properties manifest.distinct states.manifest keys order (List.cons_ne_nil _ _) rfl ?_
  simp only [List.forall_mem_cons]
  exact ⟨agrees version numberDefined natural, agrees rfl ownerDefined owned, agrees states.exportedAt string_defined rfl,
    agrees listed arrayDefined entries, agrees digest string_defined rfl, List.forall_mem_nil _⟩

/-- A manifest whose descriptors are in the order of their keys is made again as it is. -/
theorem Again.manifest (same : Again numbers datable owner backup again) (proper : Proper numbers datable owner backup)
    (made : Json numbers value) (states : States numbers value backup) (ascends : backup.manifest.entries.Pairwise (·.key ≤ ·.key)) :
    again.manifest = backup.manifest := by
  have descriptors := same.ordered proper ascends
  obtain ⟨body, written, digest⟩ := same.created.digest
  obtain ⟨_, other, read, overall⟩ := readOverallDigest_ok_iff.mp states.overallDigest
  obtain ⟨_, _, rfl⟩ := canonicalSerialize_ok_iff.mp written
  obtain ⟨_, _, rfl⟩ := canonicalSerialize_ok_iff.mp read
  have rest : without (backup.manifest.toValue numbers) "overallDigest" =
      .object (bodyMembers numbers backup.manifest.owner backup.manifest.exportedAt backup.manifest.entries) := by rfl
  have bodies : canonical numbers.toText (without (property value "manifest") "overallDigest") =
      canonical numbers.toText (.object (bodyMembers numbers owner backup.manifest.exportedAt again.manifest.entries)) := by
    rw [← canonical_normal numbers.toText_plain, normal_without, normal_manifest made states, ← normal_without,
      canonical_normal numbers.toText_plain, rest, proper.named, descriptors]
  have digests : again.manifest.overallDigest = backup.manifest.overallDigest := by rw [digest, overall, bodies]
  have owners : again.manifest.owner = backup.manifest.owner := same.created.proper.named.trans proper.named.symm
  have times := same.created.named
  calc again.manifest = ⟨again.manifest.owner, again.manifest.exportedAt, again.manifest.entries, again.manifest.overallDigest⟩ := rfl
    _ = ⟨backup.manifest.owner, backup.manifest.exportedAt, backup.manifest.entries, backup.manifest.overallDigest⟩ := by
      rw [owners, times, descriptors, digests]

end Digest

end AgentSaas.Proofs.CacheRecreation
