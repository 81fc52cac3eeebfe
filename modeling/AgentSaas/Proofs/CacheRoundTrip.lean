import AgentSaas.Proofs.CacheBackups
import AgentSaas.Proofs.CacheEntries

/-! A backup that is made is accepted, stored and read again, and one that is accepted is made again
from its entries. -/

namespace AgentSaas.Proofs.CacheRoundTrip
open AgentSaas.CacheSchema JsonValues JsonStrings JsonReader JsonNumbers Sorting CacheTrees CacheDocuments CacheBackups CacheEntries
open ToolCallRepair (Text unit units)

variable {N : Type} {numbers : Numbers N} {datable : Text → Bool} {owner : CacheOwner} {backup : CacheBackup} {value : Value N}

structure States (numbers : Numbers N) (value : Value N) (backup : CacheBackup) : Prop where
  exact : exactObjectKeys value ["entries", "manifest"] = true
  manifest : exactObjectKeys (property value "manifest") ["entries", "exportedAt", "overallDigest", "owner", "schemaVersion"] = true
  version : isVersion numbers (property (property value "manifest") "schemaVersion") = true
  owner : checkOwner backup.manifest.owner .ownerMismatch (property (property value "manifest") "owner") = .ok ()
  exportedAt : property (property value "manifest") "exportedAt" = .string backup.manifest.exportedAt
  overallDigest : readOverallDigest numbers (property value "manifest") = .ok backup.manifest.overallDigest
  descriptors : ∃ values, property (property value "manifest") "entries" = .array values ∧
    List.Forall₂ (Describes numbers) values backup.manifest.entries
  entries : ∃ values, property value "entries" = .array values ∧ List.Forall₂ Tells values backup.entries

structure Proper (numbers : Numbers N) (datable : Text → Bool) (owner : CacheOwner) (backup : CacheBackup) : Prop where
  named : backup.manifest.owner = owner
  dated : datable backup.manifest.exportedAt = true
  sound : ∀ entry ∈ backup.entries, Sound numbers owner entry
  nodup : (backup.entries.map (·.key)).Nodup
  described : backup.manifest.entries.Perm (backup.entries.map describe)

theorem readExportedAt_ok_iff {exportedAt : Text} : readExportedAt datable value = .ok exportedAt ↔
    value = .string exportedAt ∧ datable exportedAt = true := by
  unfold readExportedAt
  constructor
  · intro returned
    split at returned
    · split at returned
      next dated =>
        cases returned
        exact ⟨rfl, dated⟩
      · cases returned
    · cases returned
  · rintro ⟨rfl, dated⟩
    exact if_pos dated

section Keys

variable {entries : List CacheBackupEntry} {descriptors : List CacheManifestEntry}

theorem describe_keys (entries : List CacheBackupEntry) : (entries.map describe).map (·.key) = entries.map (·.key) := by
  rw [List.map_map]
  rfl

theorem described_of_keys (nodup : (entries.map (·.key)).Nodup) (keys : (descriptors.map (·.key)).Nodup)
    (each : ∀ descriptor ∈ descriptors, ∃ entry ∈ entries, descriptor = describe entry) (same : sameKeys descriptors entries = true) :
    descriptors.Perm (entries.map describe) := by
  have unique : (entries.map describe).Nodup := .of_map (·.key) ((describe_keys entries).symm ▸ nodup)
  refine (List.perm_ext_iff_of_nodup (.of_map _ keys) unique).mpr fun descriptor => ⟨fun member => ?_, fun member => ?_⟩
  · obtain ⟨entry, inside, rfl⟩ := each descriptor member
    exact List.mem_map.mpr ⟨entry, inside, rfl⟩
  · obtain ⟨entry, inside, rfl⟩ := List.mem_map.mp member
    rw [sameKeys, Bool.and_eq_true, List.all_eq_true] at same
    obtain ⟨other, listed, key⟩ := List.mem_map.mp (List.contains_iff_mem.mp (same.2 entry inside))
    obtain ⟨source, present, rfl⟩ := each other listed
    rwa [← List.inj_on_of_nodup_map nodup present inside key]

theorem sameKeys_of_described (perm : descriptors.Perm (entries.map describe)) : sameKeys descriptors entries = true := by
  have keys := perm.map (·.key)
  rw [describe_keys] at keys
  rw [sameKeys, Bool.and_eq_true, decide_eq_true_eq, List.all_eq_true]
  refine ⟨by rw [perm.length_eq, List.length_map], fun entry member => List.contains_iff_mem.mpr (keys.mem_iff.mpr ?_)⟩
  exact List.mem_map.mpr ⟨entry, member, rfl⟩

end Keys

theorem forall₂_and {α β : Type} {first : α → β → Prop} {second : β → Prop} {items : List α} {results : List β} :
    List.Forall₂ (fun item result => first item result ∧ second result) items results ↔
      List.Forall₂ first items results ∧ ∀ result ∈ results, second result := by
  constructor
  · intro both
    induction both with
    | nil => exact ⟨.nil, nofun⟩
    | cons own _ ih => exact ⟨.cons own.1 ih.1, List.forall_mem_cons.mpr ⟨own.2, ih.2⟩⟩
  · rintro ⟨related, each⟩
    induction related with
    | nil => exact .nil
    | cons own _ ih =>
      obtain ⟨here, later⟩ := List.forall_mem_cons.mp each
      exact .cons ⟨own, here⟩ (ih later)

theorem readContents_ok_iff {manifest : Value N} {descriptors entries : List (Value N)} :
    readContents numbers datable owner manifest descriptors entries = .ok backup ↔
      property manifest "exportedAt" = .string backup.manifest.exportedAt ∧
      readOverallDigest numbers manifest = .ok backup.manifest.overallDigest ∧
      List.Forall₂ (Describes numbers) descriptors backup.manifest.entries ∧ List.Forall₂ Tells entries backup.entries ∧
      Proper numbers datable owner backup := by
  unfold readContents
  constructor
  · intro returned
    obtain ⟨_, returned⟩ := check_ok_iff.mp returned
    obtain ⟨exportedAt, first, returned⟩ := Outcomes.of_ok_bind returned
    obtain ⟨overallDigest, second, returned⟩ := Outcomes.of_ok_bind returned
    obtain ⟨found, third, returned⟩ := Outcomes.of_ok_bind returned
    obtain ⟨described, fourth, returned⟩ := Outcomes.of_ok_bind returned
    obtain ⟨named, dated⟩ := readExportedAt_ok_iff.mp first
    obtain ⟨told, nodup⟩ := readEntries_ok_iff.mp third
    obtain ⟨each, keys⟩ := (readDescriptors_ok_iff nodup).mp fourth
    obtain ⟨describes, ones⟩ := forall₂_and.mp each
    split at returned
    next same =>
      cases returned
      have perm := described_of_keys nodup keys (fun descriptor member => ?_) same
      · refine ⟨named, second, describes, told, rfl, dated, fun entry member => ?_, nodup, perm⟩
        obtain ⟨other, inside, equal, sound⟩ := ones (describe entry) (perm.mem_iff.mpr (List.mem_map.mpr ⟨entry, member, rfl⟩))
        rwa [List.inj_on_of_nodup_map nodup member inside (congrArg CacheManifestEntry.key equal)]
      · obtain ⟨entry, inside, equal, _⟩ := ones descriptor member
        exact ⟨entry, inside, equal⟩
    · cases returned
  · rintro ⟨named, digest, describes, told, ⟨rfl, dated, sound, nodup, perm⟩⟩
    have keys : (backup.manifest.entries.map (·.key)).Nodup := by
      rw [(perm.map (·.key)).nodup_iff, describe_keys]
      exact nodup
    have ones : ∀ descriptor ∈ backup.manifest.entries,
        ∃ entry ∈ backup.entries, descriptor = describe entry ∧ Sound numbers backup.manifest.owner entry := by
      intro descriptor member
      obtain ⟨entry, inside, rfl⟩ := List.mem_map.mp (perm.mem_iff.mp member)
      exact ⟨entry, inside, rfl, sound entry inside⟩
    have lengths : descriptors.length = entries.length := by
      rw [describes.length_eq, told.length_eq, perm.length_eq, List.length_map]
    have found := (readDescriptors_ok_iff nodup).mpr ⟨forall₂_and.mpr ⟨describes, ones⟩, keys⟩
    refine check_ok_iff.mpr ⟨not_not.mpr lengths, ?_⟩
    rw [readExportedAt_ok_iff.mpr ⟨named, dated⟩, digest, readEntries_ok_iff.mpr ⟨told, nodup⟩]
    change (readDescriptors numbers backup.manifest.owner backup.entries [] descriptors >>= _) = _
    rw [found]
    exact if_pos (sameKeys_of_described perm)

theorem readBackup_ok_iff {raw : RawBackup N} : readBackup numbers datable raw owner = .ok backup ↔
    ∃ value, readRaw numbers raw = .ok value ∧ States numbers value backup ∧ Proper numbers datable owner backup := by
  unfold readBackup
  constructor
  · intro returned
    obtain ⟨_, _, returned⟩ := Outcomes.of_ok_bind returned
    obtain ⟨_, _, returned⟩ := Outcomes.of_ok_bind returned
    obtain ⟨value, read, returned⟩ := Outcomes.of_ok_bind returned
    obtain ⟨exact, returned⟩ := check_ok_iff.mp returned
    obtain ⟨manifest, returned⟩ := check_ok_iff.mp returned
    obtain ⟨_, named, returned⟩ := Outcomes.of_ok_bind returned
    rw [Bool.not_eq_true', Bool.not_eq_false] at exact manifest
    rw [Bool.and_eq_true] at manifest
    split at returned
    next descriptors entries first second =>
      obtain ⟨exportedAt, digest, describes, told, proper⟩ := readContents_ok_iff.mp returned
      exact ⟨value, read, ⟨exact, manifest.1, manifest.2, proper.named ▸ named, exportedAt, digest, ⟨_, first, describes⟩, ⟨_, second, told⟩⟩, proper⟩
    · cases returned
  · rintro ⟨value, read, states, proper⟩
    obtain ⟨descriptors, first, describes⟩ := states.descriptors
    obtain ⟨entries, second, told⟩ := states.entries
    have checked := states.owner
    rw [proper.named] at checked
    obtain ⟨_, _, _, valid⟩ := checkOwner_ok_iff.mp checked
    rw [assertComponent, assertThat_ok_iff.mpr valid.tenantId, assertComponent, assertThat_ok_iff.mpr valid.userId, read]
    change (if (!exactObjectKeys value ["entries", "manifest"]) = true then _ else _) = _
    rw [states.exact, if_neg (by decide), states.manifest, states.version, if_neg (by decide), checked, first, second]
    exact readContents_ok_iff.mpr ⟨states.exportedAt, states.overallDigest, describes, told, proper⟩

section Documents

variable {descriptors : List CacheManifestEntry} {exportedAt : Text}

theorem distinct_members {members : List (Text × Value N)} (names : List String) (nodup : (names.map units).Nodup)
    (keys : members.map Prod.fst = names.map units) (each : ∀ member ∈ members, Distinct member.2) : Distinct (.object members) :=
  .object (keys ▸ nodup) each

theorem distinct_owner : Distinct (owner.toValue : Value N) := by
  refine distinct_members ["tenantId", "userId"] (by decide) rfl ?_
  simp only [List.forall_mem_cons]
  exact ⟨.string _, .string _, List.forall_mem_nil _⟩

theorem distinct_entry (entry : CacheBackupEntry) : Distinct (entry.toValue : Value N) := by
  refine distinct_members ["key", "type", "payload"] (by decide) rfl ?_
  simp only [List.forall_mem_cons]
  exact ⟨.string _, .string _, .string _, List.forall_mem_nil _⟩

theorem distinct_entries (entries : List CacheBackupEntry) : Distinct (.array (entries.map (·.toValue)) : Value N) := by
  refine .array fun item member => ?_
  obtain ⟨entry, _, rfl⟩ := List.mem_map.mp member
  exact distinct_entry entry

theorem distinct_descriptor (descriptor : CacheManifestEntry) : Distinct (descriptor.toValue numbers) := by
  refine distinct_members ["key", "type", "digest", "bytes"] (by decide) rfl ?_
  simp only [List.forall_mem_cons]
  exact ⟨.string _, .string _, .string _, .number _, List.forall_mem_nil _⟩

theorem distinct_manifest (manifest : CacheBackupManifest) : Distinct (manifest.toValue numbers) := by
  refine distinct_members ["schemaVersion", "owner", "exportedAt", "entries", "overallDigest"] (by decide) rfl ?_
  simp only [bodyMembers, List.cons_append, List.nil_append, List.forall_mem_cons]
  refine ⟨.number _, distinct_owner, .string _, .array fun item member => ?_, .string _, List.forall_mem_nil _⟩
  obtain ⟨descriptor, _, rfl⟩ := List.mem_map.mp member
  exact distinct_descriptor descriptor

theorem distinct_backup (backup : CacheBackup) : Distinct (backup.toValue numbers) := by
  refine distinct_members ["manifest", "entries"] (by decide) rfl ?_
  simp only [List.forall_mem_cons]
  exact ⟨distinct_manifest backup.manifest, distinct_entries backup.entries, List.forall_mem_nil _⟩

theorem distinct_bundle (entries : List CacheBackupEntry) : Distinct (bundle numbers owner entries) := by
  refine distinct_members ["schemaVersion", "owner", "requiresFullSync", "entries"] (by decide) rfl ?_
  simp only [List.forall_mem_cons]
  exact ⟨.number _, distinct_owner, .bool _, distinct_entries entries, List.forall_mem_nil _⟩

variable [DecidableEq N]

theorem arranged_entry (entry : CacheBackupEntry) : arranged numbers.plain id (entry.toValue : Value N) = entry.toValue := by
  rw [CacheBackupEntry.toValue, arranged_object]
  rfl

theorem arranged_owner : arranged numbers.plain id (owner.toValue : Value N) = owner.toValue := by
  rw [CacheOwner.toValue, arranged_object]
  rfl

theorem arranged_natural {natural : Nat} (safe : isSafe natural = true) :
    arranged numbers.plain id (.number (numbers.ofNat natural)) = .number (numbers.ofNat natural) :=
  congrArg Value.number (plain_ofNat safe)

theorem arranged_descriptor {descriptor : CacheManifestEntry} (safe : isSafe descriptor.bytes = true) :
    arranged numbers.plain id (descriptor.toValue numbers) = descriptor.toValue numbers := by
  rw [CacheManifestEntry.toValue, arranged_object]
  simp only [List.map_cons, List.map_nil, Prod.map_apply, arranged_natural safe]
  rfl

theorem arranged_backup {backup : CacheBackup} (safe : ∀ descriptor ∈ backup.manifest.entries, isSafe descriptor.bytes = true) :
    arranged numbers.plain id (backup.toValue numbers) = backup.toValue numbers := by
  have entries : backup.entries.map (arranged numbers.plain id ∘ CacheBackupEntry.toValue) = backup.entries.map CacheBackupEntry.toValue :=
    List.map_congr_left fun entry _ => arranged_entry entry
  have descriptors : backup.manifest.entries.map (arranged numbers.plain id ∘ CacheManifestEntry.toValue numbers) =
      backup.manifest.entries.map (CacheManifestEntry.toValue numbers) :=
    List.map_congr_left fun descriptor member => arranged_descriptor (safe descriptor member)
  have version : isSafe CACHE_SCHEMA_VERSION = true := by decide
  rw [CacheBackup.toValue, CacheBackupManifest.toValue, bodyMembers]
  simp only [arranged_object, arranged_array, List.map_cons, List.map_nil, List.map_append, List.map_map, Prod.map_apply, entries, descriptors,
    arranged_natural version, arranged_owner]
  rfl

end Documents

theorem isDigest_cacheDigest (text : Text) : isDigest (cacheDigest text) = true := by
  have digits : ∀ digit < 16, ((unit '0' ≤ hexDigit digit && hexDigit digit ≤ unit '9') ||
      (unit 'a' ≤ hexDigit digit && hexDigit digit ≤ unit 'f')) = true := by decide
  have word (value : Word) : ∀ char ∈ hexWord value,
      ((unit '0' ≤ char && char ≤ unit '9') || (unit 'a' ≤ char && char ≤ unit 'f')) = true := by
    intro char member
    obtain ⟨place, _, rfl⟩ := List.mem_map.mp member
    exact digits _ (Nat.mod_lt _ (by decide))
  have lengths : (units "sha256:").length = 7 := by decide
  unfold cacheDigest isDigest
  simp only [Bool.and_eq_true, decide_eq_true_eq, List.isPrefixOf_iff_prefix, List.all_eq_true]
  refine ⟨⟨List.prefix_append _ _, ?_⟩, fun char member => ?_⟩
  · simp [lengths, hexWord]
  · rw [List.drop_left' lengths] at member
    obtain ⟨value, _, inside⟩ := List.mem_flatMap.mp member
    exact word value char inside

theorem describes_toValue {descriptor : CacheManifestEntry} (safe : isSafe descriptor.bytes = true)
    (resource : isResource descriptor.type = true) (digest : isDigest descriptor.digest = true) :
    Describes numbers (descriptor.toValue numbers) descriptor :=
  ⟨by rfl, by rfl, by rfl, by rfl, byteCount_eq_some_iff.mpr ⟨_, rfl, numbers.toInt_ofNat _ safe, safe⟩, resource, digest⟩

theorem forall₂_map {α β : Type} {related : α → β → Prop} {f : β → α} {items : List β} (each : ∀ item ∈ items, related (f item) item) :
    List.Forall₂ related (items.map f) items := by
  induction items with
  | nil => exact .nil
  | cons item items ih =>
    obtain ⟨own, later⟩ := List.forall_mem_cons.mp each
    exact .cons own (ih later)

structure Created (numbers : Numbers N) (datable : Text → Bool) (owner : CacheOwner) (exportedAt : Text) (backup : CacheBackup) : Prop where
  proper : Proper numbers datable owner backup
  named : backup.manifest.exportedAt = exportedAt
  ordered : backup.manifest.entries = backup.entries.map describe
  digest : ∃ body, manifestBody numbers (.object (bodyMembers numbers owner exportedAt backup.manifest.entries)) = .ok body ∧
    backup.manifest.overallDigest = cacheDigest body
  written : ∃ text, canonicalSerialize numbers (backup.toValue numbers) CACHE_MAX_BACKUP_BYTES = .ok text

theorem safe_of_sound {entry : CacheBackupEntry} (sound : Sound numbers owner entry) : isSafe (describe entry).bytes = true := by
  obtain ⟨input, holds⟩ := sound
  have bound := (parseCacheJson_ok_iff.mp holds.parsed).1
  have budget : (CACHE_MAX_JSON_BYTES : Int) ≤ MAX_SAFE_INTEGER := by decide
  have whole : (((encode entry.payload).length : Nat) : Int) ≤ (CACHE_MAX_JSON_BYTES : Int) := Int.ofNat_le.mpr bound
  have least : -MAX_SAFE_INTEGER ≤ 0 := by decide
  change isSafe ((encode entry.payload).length : Nat) = true
  simp only [isSafe, Bool.and_eq_true, decide_eq_true_eq]
  omega

section Making

variable {exportedAt : Text}

theorem Created.safe (created : Created numbers datable owner exportedAt backup) :
    ∀ descriptor ∈ backup.manifest.entries, isSafe descriptor.bytes = true := by
  intro descriptor member
  rw [created.ordered] at member
  obtain ⟨entry, inside, rfl⟩ := List.mem_map.mp member
  exact safe_of_sound (created.proper.sound entry inside)

theorem Created.states (created : Created numbers datable owner exportedAt backup) (valid : ValidOwner owner) :
    States numbers (backup.toValue numbers) backup := by
  have owned := created.proper.named
  refine ⟨by rfl, by rfl, ?_, ?_, by rfl, ?_, ⟨_, by rfl, forall₂_map fun descriptor member => ?_⟩, ⟨_, by rfl, forall₂_map fun entry _ => tells_toValue entry⟩⟩
  · exact decide_eq_true (numbers.toInt_ofNat _ (by decide))
  · exact checkOwner_toValue (owned.symm ▸ valid)
  · obtain ⟨body, written, digest⟩ := created.digest
    have rest : without (backup.manifest.toValue numbers) "overallDigest" =
        .object (bodyMembers numbers owner exportedAt backup.manifest.entries) := by
      rw [← owned, ← created.named]
      rfl
    have own : property (backup.manifest.toValue numbers) "overallDigest" = .string backup.manifest.overallDigest := by rfl
    change readOverallDigest numbers (backup.manifest.toValue numbers) = _
    rw [readOverallDigest, own, rest, written]
    exact if_neg (not_not.mpr digest.symm)
  · obtain ⟨entry, inside, rfl⟩ := List.mem_map.mp (created.ordered ▸ member)
    obtain ⟨_, holds⟩ := created.proper.sound entry inside
    exact describes_toValue (created.safe _ member) holds.resource (isDigest_cacheDigest _)

theorem Created.read [DecidableEq N] (created : Created numbers datable owner exportedAt backup) (valid : ValidOwner owner) :
    readBackup numbers datable (.value (backup.toValue numbers)) owner = .ok backup ∧
      readBackup numbers datable (.text (text numbers.toText (backup.toValue numbers))) owner = .ok backup := by
  have states := created.states valid
  obtain ⟨written, whole⟩ := created.written
  obtain ⟨passes, small, _⟩ := canonicalSerialize_ok_iff.mp whole
  have made := passes.made (distinct_backup backup)
  refine ⟨readBackup_ok_iff.mpr ⟨backup.toValue numbers, ?_, states, created.proper⟩,
    readBackup_ok_iff.mpr ⟨backup.toValue numbers, ?_, states, created.proper⟩⟩
  · rw [readRaw, whole]
    rfl
  · rw [readRaw]
    refine parseCacheJson_ok_iff.mpr ⟨?_, ?_, passes⟩
    · have same := size_text made
      unfold size at same
      rw [same]
      exact small
    · rw [JsonRoundTrip.parse_text (legible made), arranged_backup created.safe]

end Making

section Storing

variable {entries : List CacheBackupEntry}

theorem passes_bundle : Passes numbers false (bundle numbers owner entries) (units "$") 0 := by
  refine passes_members (by omega) ?_
  simp only [List.forall_mem_cons]
  refine ⟨⟨by decide, passes_natural (by omega) (by decide)⟩, ⟨by decide, passes_owner (by omega)⟩,
    ⟨by decide, by rfl⟩, ⟨by decide, passes_array.mpr ⟨by omega, ?_⟩⟩, nofun⟩
  rw [List.zipIdx_map]
  intro item inside
  obtain ⟨⟨entry, index⟩, _, rfl⟩ := List.mem_map.mp inside
  exact passes_entry entry (by omega)

theorem size_bundle {backup : CacheBackup} (named : backup.manifest.owner = owner)
    (passes : Passes numbers false (backup.toValue numbers) (units "$") 0) :
    size (canonical numbers.toText (bundle numbers owner backup.entries)) ≤ size (canonical numbers.toText (backup.toValue numbers)) := by
  have outer : Json numbers (backup.toValue numbers) := passes.made (distinct_backup backup)
  have inner : Json numbers (backup.manifest.toValue numbers) := by
    cases outer with
    | object _ _ each => exact each _ (.head _)
  have names : size (quote (units "requiresFullSync")) = 18 ∧ size (quote (units "overallDigest")) = 15 ∧
      size (quote (units "exportedAt")) = 12 ∧ size (units "true") = 4 := by decide
  subst named
  have own := size_canonical_object (passes_bundle.made (distinct_bundle backup.entries) : Json numbers (bundle numbers backup.manifest.owner backup.entries))
  have whole := size_canonical_object outer
  have manifest := size_canonical_object inner
  simp only [bodyMembers, List.map_cons, List.map_nil, List.sum_cons, List.sum_nil, List.cons_append, List.nil_append] at own whole manifest
  have yes : size (canonical numbers.toText (.bool true : Value N)) = 4 := names.2.2.2
  have part : size (canonical numbers.toText (backup.manifest.toValue numbers)) = _ := manifest
  rw [bundle, CacheBackup.toValue, own, whole, part]
  omega

variable [DecidableEq N] {staged : Text}

theorem decode_bundle (sound : ∀ entry ∈ entries, Sound numbers owner entry) (nodup : (entries.map (·.key)).Nodup) (valid : ValidOwner owner)
    (written : canonicalSerialize numbers (bundle numbers owner entries) CACHE_MAX_BACKUP_BYTES = .ok staged) :
    decodeStoredBundle numbers staged owner = .ok entries := by
  have distinct : Distinct (bundle numbers owner entries) := distinct_bundle entries
  obtain ⟨parsed, again⟩ := parse_serialized distinct written
  have exact : exactObjectKeys (bundle numbers owner entries) ["entries", "owner", "requiresFullSync", "schemaVersion"] = true := by rfl
  have version : isVersion numbers (property (normal numbers.plain (bundle numbers owner entries)) "schemaVersion") = true := by
    rw [property_normal distinct]
    exact decide_eq_true ((numbers.toInt_plain _).trans (numbers.toInt_ofNat _ (by decide)))
  have yes : isTrue (property (normal numbers.plain (bundle numbers owner entries)) "requiresFullSync") = true := by
    rw [property_normal distinct]
    rfl
  have named : checkOwner owner .invalidBackupBundle (property (normal numbers.plain (bundle numbers owner entries)) "owner") = .ok () := by
    rw [property_normal distinct]
    exact checkOwner_normal distinct_owner (checkOwner_toValue valid)
  have listed : property (normal numbers.plain (bundle numbers owner entries)) "entries" =
      .array (entries.map (normal numbers.plain ∘ CacheBackupEntry.toValue)) := by
    rw [property_normal distinct]
    change normal numbers.plain (.array (entries.map (·.toValue))) = _
    rw [normal_array, List.map_map]
  have read : readStoredEntries numbers owner [] (entries.map (normal numbers.plain ∘ CacheBackupEntry.toValue)) = .ok entries :=
    readStoredEntries_ok_iff.mpr ⟨forall₂_map fun entry member =>
      ⟨(tells_toValue entry).normal (distinct_entry entry), sound entry member⟩, nodup⟩
  rw [decodeStoredBundle, parsed]
  change (canonicalSerialize numbers (normal numbers.plain (bundle numbers owner entries)) CACHE_MAX_BACKUP_BYTES >>= _) = _
  rw [again]
  change (if _ then _ else _) = _
  rw [exactObjectKeys_normal, exact, decide_eq_true rfl, if_neg (by decide), version, yes, if_neg (by decide), named, listed]
  exact read

theorem stage_ok (sound : ∀ entry ∈ entries, Sound numbers owner entry) (nodup : (entries.map (·.key)).Nodup) (valid : ValidOwner owner)
    (written : canonicalSerialize numbers (bundle numbers owner entries) CACHE_MAX_BACKUP_BYTES = .ok staged) :
    ∃ key, bundleKey owner = .ok key ∧ stage numbers owner entries = .ok (key, staged) := by
  have stored : readStoredEntries numbers owner [] (entries.map (·.toValue)) = .ok entries :=
    readStoredEntries_ok_iff.mpr ⟨forall₂_map fun entry member => ⟨tells_toValue entry, sound entry member⟩, nodup⟩
  have key := build_of_parts (⟨valid.tenantId, valid.userId, by decide, by decide⟩ : Parts owner (units "backup-bundle") (units "active"))
  refine ⟨_, key, ?_⟩
  have read : validateStoredEntries numbers owner (.array (entries.map (·.toValue))) = .ok entries := stored
  rw [stage, read]
  change (canonicalSerialize numbers (bundle numbers owner entries) CACHE_MAX_BACKUP_BYTES >>= _) = _
  rw [written]
  change (decodeStoredBundle numbers staged owner >>= _) = _
  rw [decode_bundle sound nodup valid written, bundleKey, key]
  rfl

omit [DecidableEq N] in
theorem filled_bundle (written : canonicalSerialize numbers (bundle numbers owner entries) CACHE_MAX_BACKUP_BYTES = .ok staged) :
    ∃ char rest, staged = char :: rest := by
  obtain ⟨_, _, rfl⟩ := canonicalSerialize_ok_iff.mp written
  rw [bundle, canonical_object, objectText]
  exact ⟨_, _, rfl⟩

theorem restore_ok (store : Store) {raw : RawBackup N} (verified : verifyCacheBackup numbers datable raw owner = .ok entries)
    (sound : ∀ entry ∈ entries, Sound numbers owner entry) (nodup : (entries.map (·.key)).Nodup) (valid : ValidOwner owner)
    (written : canonicalSerialize numbers (bundle numbers owner entries) CACHE_MAX_BACKUP_BYTES = .ok staged) :
    ∃ after, restoreCacheBackup numbers datable store true raw owner = (.ok entries, after) ∧
      CacheSchema.read numbers after owner = .ok (some entries) := by
  obtain ⟨key, named, ready⟩ := stage_ok sound nodup valid written
  obtain ⟨char, rest, rfl⟩ := filled_bundle written
  have replaced : atomicReplace numbers store true owner entries =
      (.ok (), fun other => if other = key then some (char :: rest) else store other) := by
    unfold atomicReplace
    rw [ready]
    rfl
  refine ⟨fun other => if other = key then some (char :: rest) else store other, ?_, ?_⟩
  · unfold restoreCacheBackup
    rw [verified]
    dsimp only
    rw [replaced]
  · unfold CacheSchema.read
    rw [named]
    simp only [bind, Except.bind, if_true, decode_bundle sound nodup valid written]
    rfl

omit [DecidableEq N] in
theorem restore_failed {store after : Store} {accepts : Bool} {raw : RawBackup N} {failure : Failure}
    (failed : restoreCacheBackup numbers datable store accepts raw owner = (.error failure, after)) : after = store := by
  unfold restoreCacheBackup at failed
  split at failed
  · exact (Prod.mk.inj failed).2.symm
  next staged verified =>
    cases ready : stage numbers owner staged with
    | error error =>
      unfold atomicReplace at failed
      rw [ready] at failed
      exact (Prod.mk.inj failed).2.symm
    | ok pair =>
      unfold atomicReplace at failed
      rw [ready] at failed
      cases accepts with
      | true => cases (Prod.mk.inj failed).1
      | false => exact (Prod.mk.inj failed).2.symm

end Storing

end AgentSaas.Proofs.CacheRoundTrip
