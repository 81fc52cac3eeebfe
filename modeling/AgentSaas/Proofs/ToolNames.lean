import AgentSaas.AppContract.ToolNames

/-! When a tool name says which system and which capability it names. A system id that ends
in a dash, or has two of them in a row, moves the place where the name is taken apart. -/

namespace AgentSaas.Proofs.ToolNames
open AgentSaas.AppContract Splitting Dictionaries ToolCallRepair

def segments (systemId capabilityId : Text) : ParsedToolName :=
  ⟨normalizeToolSegment systemId, normalizeToolSegment capabilityId⟩

/-- The pair has a name, and taking the name apart gives the segments back. -/
def Decodes (systemId capabilityId : Text) : Prop :=
  ∃ name, toolName systemId capabilityId = .ok name ∧ parseToolName name = some (segments systemId capabilityId)

/-- No two dashes in a row, and none at the end. -/
def Clean (systemId : Text) : Prop := ¬ units "--" <:+: systemId ∧ ¬ units "-" <:+ systemId

section Acceptance
variable {Rest : Type} (otherErrors : Text → Rest → List Text)

/-- A manifest without errors has the capability in the system. -/
structure Accepted (systemId capabilityId : Text) : Prop where
  system : isSystemId systemId = true
  capability : isCapabilityId capabilityId = true
  listed : ∃ manifest : Manifest Rest, manifest.systemId = systemId ∧ (∃ capability ∈ manifest.capabilities,
    capability.id = capabilityId) ∧ checkCapabilities otherErrors manifest = []

variable {otherErrors} {systemId label : Text} {capability : ManifestCapability Rest} {check : CapabilityCheck}

theorem named_of_checkToolName (clear : (checkToolName systemId label capability check).errors = []) :
    check.errors = [] ∧ ∃ name, toolName systemId capability.id = .ok name := by
  simp only [checkToolName] at clear
  split at clear
  next => simp at clear
  next name named =>
    split at clear
    next => simp at clear
    next => exact ⟨clear, name, named⟩

theorem named_of_checkCapability (clear : (checkCapability otherErrors systemId check capability).errors = []) :
    check.errors = [] ∧ ∃ name, toolName systemId capability.id = .ok name := by
  obtain ⟨clear, named⟩ := named_of_checkToolName (List.append_eq_nil_iff.mp clear).1
  refine ⟨?_, named⟩
  split at clear
  · exact (List.append_eq_nil_iff.mp (List.append_eq_nil_iff.mp clear).1).1
  · exact (List.append_eq_nil_iff.mp clear).1

theorem named_of_checks {capabilities : List (ManifestCapability Rest)}
    (clear : (capabilities.foldl (checkCapability otherErrors systemId) check).errors = []) :
    check.errors = [] ∧ ∀ capability ∈ capabilities, ∃ name, toolName systemId capability.id = .ok name := by
  induction capabilities generalizing check with
  | nil => exact ⟨clear, fun _ member => (by cases member)⟩
  | cons capability rest ih =>
    obtain ⟨before, named⟩ := ih clear
    obtain ⟨clear, here⟩ := named_of_checkCapability before
    refine ⟨clear, fun other member => ?_⟩
    rcases List.mem_cons.mp member with rfl | later
    · exact here
    · exact named other later

theorem Accepted.named {capabilityId : Text} (accepted : Accepted otherErrors systemId capabilityId) :
    ∃ name, toolName systemId capabilityId = .ok name := by
  obtain ⟨manifest, rfl, ⟨capability, member, rfl⟩, clear⟩ := accepted.listed
  exact (named_of_checks clear).2 capability member

end Acceptance

theorem toolName_ok {systemId capabilityId name : Text} (named : toolName systemId capabilityId = .ok name) :
    name = TOOL_NAME_PREFIX ++ (normalizeToolSegment systemId ++
      (TOOL_NAME_SEPARATOR ++ normalizeToolSegment capabilityId)) := by
  simp only [toolName] at named
  split at named
  · cases named
  · cases named
    simp only [List.append_assoc]

theorem normalize_cons (char : Nat) (value : Text) :
    normalizeToolSegment (char :: value) = (if char = unit '-' ∨ char = unit '.' then unit '_' else char) ::
      normalizeToolSegment value := by
  simp only [normalizeToolSegment, replaceAll, List.map_cons, List.cons.injEq, and_true]
  by_cases dash : char = unit '-'
  · simp [dash]
  · by_cases dot : char = unit '.'
    · subst dot
      decide
    · simp [dash, dot]

theorem normalize_eq_nil {value : Text} : normalizeToolSegment value = [] ↔ value = [] := by
  simp [normalizeToolSegment, replaceAll]

theorem separator_prefix {first second : Nat} {rest : Text} :
    TOOL_NAME_SEPARATOR <+: first :: second :: rest ↔ first = unit '_' ∧ second = unit '_' := by
  simp [TOOL_NAME_SEPARATOR, units, unit, List.cons_prefix_cons, eq_comm]

theorem dash_iff {char : Nat} (plain : char ≠ unit '_' ∧ char ≠ unit '.') :
    (if char = unit '-' ∨ char = unit '.' then unit '_' else char) = unit '_' ↔ char = unit '-' := by
  split
  next either => simpa using either.resolve_right plain.2
  next neither => simp [plain.1, not_or.mp neither]

/-- The separator occurs before the end of the system segment exactly where two dashes of the
id meet, or where its last dash meets the separator. -/
theorem clean_iff {systemId : Text} (plain : ∀ char ∈ systemId, char ≠ unit '_' ∧ char ≠ unit '.') (rest : Text) :
    (∀ start < (normalizeToolSegment systemId).length,
      ¬ TOOL_NAME_SEPARATOR <+: (normalizeToolSegment systemId ++ (TOOL_NAME_SEPARATOR ++ rest)).drop start) ↔
      Clean systemId := by
  induction systemId with
  | nil => simp [Clean, normalizeToolSegment, replaceAll, units]
  | cons char later ih =>
    obtain ⟨first, plain⟩ := List.forall_mem_cons.mp plain
    have here : TOOL_NAME_SEPARATOR <+: (if char = unit '-' ∨ char = unit '.' then unit '_' else char) ::
        (normalizeToolSegment later ++ (TOOL_NAME_SEPARATOR ++ rest)) ↔
        units "--" <+: char :: later ∨ units "-" = char :: later := by
      cases later with
      | nil =>
        have ending : normalizeToolSegment [] ++ (TOOL_NAME_SEPARATOR ++ rest) = unit '_' :: unit '_' :: rest := rfl
        rw [ending, separator_prefix, dash_iff first]
        simp [units, unit, List.cons_prefix_cons, eq_comm]
      | cons next last =>
        rw [normalize_cons, List.cons_append, separator_prefix, dash_iff first, dash_iff (plain next (List.mem_cons_self ..))]
        simp [units, unit, List.cons_prefix_cons, eq_comm]
    rw [normalize_cons, List.length_cons, List.cons_append, Nat.forall_lt_succ_left]
    simp only [List.drop_zero, List.drop_succ_cons, here, ih plain, Clean, List.infix_cons_iff, List.suffix_cons_iff]
    tauto

theorem plain_of_isSystemId {systemId : Text} (system : isSystemId systemId = true) :
    systemId ≠ [] ∧ ∀ char ∈ systemId, char ≠ unit '_' ∧ char ≠ unit '.' := by
  cases systemId with
  | nil => cases system
  | cons first rest =>
    simp only [isSystemId, matchesIdentifier, Bool.and_eq_true, List.all_eq_true, Bool.or_eq_true, isLower, isDigit,
      decide_eq_true_eq] at system
    refine ⟨List.cons_ne_nil _ _, fun char member => ?_⟩
    simp only [unit] at system ⊢
    rcases List.mem_cons.mp member with rfl | later
    · have lower := system.1.1.1
      grind
    · have inside := system.2 char later
      grind

theorem capability_ne_nil {capabilityId : Text} (capability : isCapabilityId capabilityId = true) : capabilityId ≠ [] := by
  rintro rfl
  cases capability

theorem parse_iff {systemId capabilityId name : Text} (system : isSystemId systemId = true)
    (capability : isCapabilityId capabilityId = true) (named : toolName systemId capabilityId = .ok name) :
    parseToolName name = some (segments systemId capabilityId) ↔ Clean systemId := by
  obtain ⟨systemFilled, plain⟩ := plain_of_isSystemId system
  have filled : TOOL_NAME_SEPARATOR ≠ [] := by decide
  have opened : TOOL_NAME_PREFIX.isPrefixOf name = true := by
    rw [toolName_ok named, List.isPrefixOf_iff_prefix]
    exact List.prefix_append _ _
  have rest : name.drop TOOL_NAME_PREFIX.length =
      normalizeToolSegment systemId ++ (TOOL_NAME_SEPARATOR ++ normalizeToolSegment capabilityId) := by
    rw [toolName_ok named, List.drop_left]
  rw [← clean_iff plain (normalizeToolSegment capabilityId)]
  simp only [parseToolName, opened, rest, Bool.not_true, Bool.false_eq_true, if_false]
  constructor
  · intro parsed start inside here
    cases parts : split TOOL_NAME_SEPARATOR
      (normalizeToolSegment systemId ++ (TOOL_NAME_SEPARATOR ++ normalizeToolSegment capabilityId)) with
    | nil => exact split_ne_nil filled _ parts
    | cons head tail =>
      have short := head_le filled here parts
      simp only [parts] at parsed
      split at parsed
      · cases parsed
      · have same : head = normalizeToolSegment systemId := congrArg ParsedToolName.systemSegment (Option.some.inj parsed)
        rw [same] at short
        omega
  · intro absent
    rw [split_first filled absent]
    simp only [join_split filled]
    rw [if_neg]
    · rfl
    · simp [normalize_eq_nil, systemFilled, capability_ne_nil capability]

/-- For pairs that a manifest without errors names, a tool name gives its segments back, and
names no other pair, exactly when the system ids are clean. -/
theorem decodes_iff {Rest : Type} (otherErrors : Text → Rest → List Text) (first second : Text × Text)
    (firstAccepted : Accepted otherErrors first.1 first.2) (secondAccepted : Accepted otherErrors second.1 second.2) :
    (Decodes first.1 first.2 ∧ Decodes second.1 second.2 ∧ (segments first.1 first.2 ≠ segments second.1 second.2 →
      toolName first.1 first.2 ≠ toolName second.1 second.2)) ↔ Clean first.1 ∧ Clean second.1 := by
  obtain ⟨name, named⟩ := firstAccepted.named
  obtain ⟨other, otherNamed⟩ := secondAccepted.named
  have parsed := parse_iff firstAccepted.system firstAccepted.capability named
  have otherParsed := parse_iff secondAccepted.system secondAccepted.capability otherNamed
  constructor
  · rintro ⟨⟨_, again, decoded⟩, ⟨_, otherAgain, otherDecoded⟩, _⟩
    rw [named] at again
    rw [otherNamed] at otherAgain
    cases again
    cases otherAgain
    exact ⟨parsed.mp decoded, otherParsed.mp otherDecoded⟩
  · rintro ⟨clean, otherClean⟩
    have decoded := parsed.mpr clean
    have otherDecoded := otherParsed.mpr otherClean
    refine ⟨⟨name, named, decoded⟩, ⟨other, otherNamed, otherDecoded⟩, fun apart same => apart ?_⟩
    rw [named, otherNamed] at same
    cases same
    exact Option.some.inj (decoded.symm.trans otherDecoded)

theorem accepted_alone {systemId capabilityId : Text} (system : isSystemId systemId = true)
    (capability : isCapabilityId capabilityId = true)
    (clear : checkCapabilities (fun _ _ => []) ⟨systemId, [⟨capabilityId, ()⟩]⟩ = []) :
    Accepted (fun _ (_ : Unit) => []) systemId capabilityId :=
  ⟨system, capability, ⟨systemId, [⟨capabilityId, ()⟩]⟩, rfl, ⟨_, List.mem_singleton_self _, rfl⟩, clear⟩

theorem decodes_iff_orders :
    Decodes (units "demo-erp") (units "order.search") ∧ Decodes (units "demo-crm") (units "order.search") ∧
      (segments (units "demo-erp") (units "order.search") ≠ segments (units "demo-crm") (units "order.search") →
        toolName (units "demo-erp") (units "order.search") ≠ toolName (units "demo-crm") (units "order.search")) := by
  have erp : Accepted (fun _ (_ : Unit) => []) (units "demo-erp") (units "order.search") :=
    accepted_alone (by decide) (by decide) (by decide +kernel)
  have crm : Accepted (fun _ (_ : Unit) => []) (units "demo-crm") (units "order.search") :=
    accepted_alone (by decide) (by decide) (by decide +kernel)
  exact (decodes_iff _ (_, _) (_, _) erp crm).mpr
    ⟨⟨by decide +kernel, by decide +kernel⟩, by decide +kernel, by decide +kernel⟩

/-- Two apps share a tool name: the first reads it as a capability of the second. -/
theorem dashes_collide :
    ¬ ∀ first second : Text × Text, Accepted (fun _ (_ : Unit) => []) first.1 first.2 →
      Accepted (fun _ (_ : Unit) => []) second.1 second.2 →
      Decodes first.1 first.2 ∧ Decodes second.1 second.2 ∧ (segments first.1 first.2 ≠ segments second.1 second.2 →
        toolName first.1 first.2 ≠ toolName second.1 second.2) := by
  intro decodes
  have region : Accepted (fun _ (_ : Unit) => []) (units "erp--eu") (units "orders") :=
    accepted_alone (by decide) (by decide) (by decide +kernel)
  have plain : Accepted (fun _ (_ : Unit) => []) (units "erp") (units "eu__orders") :=
    accepted_alone (by decide) (by decide) (by decide +kernel)
  exact (decodes (_, _) (_, _) region plain).2.2 (by decide) (by decide +kernel)

end AgentSaas.Proofs.ToolNames
