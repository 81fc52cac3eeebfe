import AgentSaas.Billing.Policies
import AgentSaas.Proofs.InterleavingSafety
import Mathlib.Data.List.Pairwise

/-! When every patched column keeps its value. A call writes back the columns that it only
read, so what another call wrote meanwhile is lost. -/

namespace AgentSaas.Proofs.PolicyUpdates
open AgentSaas.Billing.Policies Interleaving InterleavingSafety

/-- No column is set by both. -/
def Disjoint (first second : BillingPolicyPatch) : Prop := ∀ field, first field = none ∨ second field = none

/-- The row has the value of every column that one of the patches set. -/
def Carries (policy : Option TenantBillingPolicy) (patches : List BillingPolicyPatch) : Prop :=
  ∀ patch ∈ patches, ∀ field value, patch field = some value → ∃ row, policy = some row ∧ row.fields field = value

/-- The columns that the call only read still have the values it read. -/
def Unchanged (store : Store) (call : Call) : Prop :=
  match call.stage with
  | .writing current => ∀ field, call.patch field = none → ∀ row, store.policies call.tenantId = some row →
      row.fields field = current.fields field
  | _ => True

def Kept (store : Store) : Prop :=
  ∀ tenantId, (store.patches tenantId).Pairwise Disjoint → Carries (store.policies tenantId) (store.patches tenantId)

variable {isInternalTenant : String → Bool} {store : Store} {tenantId : String}

theorem ensure_kept {actor : String} {move : Move} (kept : Kept store) :
    Kept (ensureTenantPolicy isInternalTenant tenantId actor move store) := by
  unfold ensureTenantPolicy
  split
  next => exact kept
  next missing =>
    intro other disjoint patch member field value set
    obtain ⟨row, found, same⟩ := kept other disjoint patch member field value set
    have apart : other ≠ tenantId := by
      rintro rfl
      rw [missing] at found
      cases found
    exact ⟨row, (Function.update_of_ne apart ..).trans found, same⟩

theorem patches_append (patch : BillingPolicyPatch) (other : String) (policies : String → Option TenantBillingPolicy) :
    (Store.mk policies (store.written ++ [(tenantId, patch)])).patches other =
      store.patches other ++ if tenantId = other then [patch] else [] := by
  simp only [Store.patches, List.filter_append, List.map_append, List.append_cancel_left_eq, List.filter_cons, List.filter_nil,
    decide_eq_true_eq]
  split <;> rfl

theorem update_kept {patch : BillingPolicyPatch} {current : TenantBillingPolicy} {actor : String} {now : Int} (kept : Kept store)
    (unchanged : ∀ field, patch field = none → ∀ row, store.policies tenantId = some row →
      row.fields field = current.fields field) :
    Kept (updatePolicy tenantId patch (merge current patch actor now) store) := by
  unfold updatePolicy
  split
  next => exact kept
  next old present =>
    intro other disjoint patch' member field value set
    rw [patches_append] at disjoint member
    by_cases same : tenantId = other
    · subst same
      rw [if_pos rfl] at disjoint member
      obtain ⟨before, -, apart⟩ := List.pairwise_append.mp disjoint
      refine ⟨_, Function.update_self .., ?_⟩
      rcases List.mem_append.mp member with earlier | latest
      · obtain ⟨row, found, held⟩ := kept tenantId before patch' earlier field value set
        -- An earlier patch set the column, so this one leaves it out and writes back what it read.
        have left : patch field = none := by
          apply (apart patch' earlier patch (List.mem_singleton_self _) field).resolve_left
          simp [set]
        simp only [merge, left, Option.getD_none]
        rw [← unchanged field left row found, held]
      · rw [List.mem_singleton.mp latest] at set
        simp [merge, set]
    · rw [if_neg same, List.append_nil] at disjoint member
      obtain ⟨row, found, held⟩ := kept other disjoint patch' member field value set
      exact ⟨row, (Function.update_of_ne (Ne.symm same) ..).trans found, held⟩

/-- Calls that may write only while the columns they leave out are as they read them. -/
def cautious (isInternalTenant : String → Bool) : System Store Call Move :=
  service isInternalTenant fun store call _ => Unchanged store call

theorem advance_kept {call : Call} {move : Move} {after : Store} {rest : Option Call} (kept : Kept store)
    (unchanged : Unchanged store call) (moved : advance isInternalTenant store call move = some (after, rest)) : Kept after := by
  unfold advance at moved
  split at moved
  next => cases moved; exact ensure_kept kept
  next => cases moved; exact ensure_kept kept
  next => cases moved; exact kept
  next current stage =>
    simp only [Unchanged, stage] at unchanged
    dsimp only at moved
    split at moved
    · cases moved
      exact kept
    · cases moved
      exact update_kept kept unchanged
  next => cases moved; exact ensure_kept kept
  next => cases moved; exact kept

def outline : Outline Store Call := ⟨Kept, fun _ _ => True, fun _ _ => True, fun _ _ => True⟩

theorem outline_sound : outline.Sound (cautious isInternalTenant) where
  refl _ := trivial
  trans _ _ := trivial
  symm _ := trivial
  starts _ _ := ⟨trivial, fun _ _ => trivial⟩
  advances kept _ unchanged moved := ⟨advance_kept kept unchanged moved, trivial, fun _ _ => ⟨trivial, fun _ _ _ => trivial⟩⟩
  stable _ _ _ _ _ _ := trivial

/-- After any number of calls of a tenant whose patches are disjoint, the row has every value
that one of them set, as long as no call writes over a column that changed since it read it. -/
theorem patches_carried (isInternalTenant : String → Bool) (policies : String → Option TenantBillingPolicy)
    {world : World Store Call} (run : Run (cautious isInternalTenant) ⟨⟨policies, []⟩, []⟩ world) (tenantId : String)
    (disjoint : (world.shared.patches tenantId).Pairwise Disjoint) :
    Carries (world.shared.policies tenantId) (world.shared.patches tenantId) := by
  have start : Kept ⟨policies, []⟩ := fun _ _ _ member => (by cases member)
  exact ((Outline.Holds.start start).run outline_sound run).1.shared tenantId disjoint

/-! Two calls that patch different columns. -/

def margin : BillingPolicyPatch
  | .defaultTargetMarginBps => some (7000 : Int)
  | _ => none

def hardCap : BillingPolicyPatch
  | .hardCapMode => some HardCapMode.stopBeforeRun
  | .maxRunCreditsMicro => some (some (5000000 : Int))
  | _ => none

def atAnyTime : System Store Call Move := service (fun _ => false) fun _ _ _ => True

instance (store : Store) (call : Call) : Decidable (atAnyTime.starts store call) := inferInstanceAs (Decidable (starts store call))

instance (store : Store) (call : Call) (move : Move) : Decidable (atAnyTime.permits store call move) := isTrue trivial

def begin (patch : BillingPolicyPatch) : Call := ⟨"acme", patch, "admin", .ensuring⟩

def noon : Move := ⟨⟨"v1", 3000⟩, 43200000⟩

def allFields : List PolicyField :=
  [.billingEnabled, .billingMode, .pricingVersion, .defaultTargetMarginBps, .organizationMultiplierBps,
    .allowNegativeBalance, .negativeLimitCreditsMicro, .lowBalanceThresholdCreditsMicro, .hardCapMode,
    .maxRunCreditsMicro, .showBalance, .showUsageCredits, .showCost, .showGrossMargin]

theorem mem_allFields (field : PolicyField) : field ∈ allFields := by
  cases field <;> simp [allFields]

instance (store : Store) (call : Call) : Decidable (Unchanged store call) :=
  match stage : call.stage with
  | .writing current =>
    decidable_of_iff (∀ field ∈ allFields, (call.patch field).isNone = true →
        ∀ row ∈ store.policies call.tenantId, row.fields field = current.fields field) (by
      simp [Unchanged, stage, mem_allFields])
  | .ensuring | .ensuringAgain | .reading | .ensuringLast | .answering => isTrue (by simp [Unchanged, stage])

instance (store : Store) (call : Call) : Decidable ((cautious fun _ => false).starts store call) :=
  inferInstanceAs (Decidable (starts store call))

instance (store : Store) (call : Call) (move : Move) : Decidable ((cautious fun _ => false).permits store call move) :=
  inferInstanceAs (Decidable (Unchanged store call))

def inTurn : Option (World Store Call) :=
  (⟨⟨fun _ => none, []⟩, []⟩ : World Store Call).play (cautious fun _ => false)
    [.start (begin hardCap), .advance 0 noon, .advance 0 noon, .advance 0 noon, .advance 0 noon,
      .start (begin margin), .advance 1 noon, .advance 1 noon, .advance 1 noon, .advance 1 noon]

theorem hardCap_margin_disjoint : [hardCap, margin].Pairwise Disjoint := by
  refine List.pairwise_pair.mpr fun field => ?_
  cases field <;> simp [hardCap, margin]

theorem patches_carried_in_turn : ∃ world : World Store Call, Run (cautious fun _ => false) ⟨⟨fun _ => none, []⟩, []⟩ world ∧
    world.shared.patches "acme" = [hardCap, margin] ∧
      Carries (world.shared.policies "acme") (world.shared.patches "acme") := by
  obtain ⟨world, played⟩ : ∃ world, inTurn = some world := Option.isSome_iff_exists.mp (by decide +kernel)
  have both : world.shared.patches "acme" = [hardCap, margin] := by
    cases played
    rfl
  have run : Run (cautious fun _ => false) ⟨⟨fun _ => none, []⟩, []⟩ world := World.run_of_play _ played
  exact ⟨world, run, both, patches_carried _ _ run "acme" (both ▸ hardCap_margin_disjoint)⟩

def crossed : Option (World Store Call) :=
  (⟨⟨fun _ => none, []⟩, []⟩ : World Store Call).play atAnyTime
    [.start (begin hardCap), .start (begin margin), .advance 0 noon, .advance 0 noon, .advance 0 noon,
      .advance 1 noon, .advance 1 noon, .advance 1 noon, .advance 0 noon, .advance 1 noon]

/-- The second write puts the cap back to what its call had read. -/
theorem hard_cap_lost :
    ¬ ∀ (policies : String → Option TenantBillingPolicy) (world : World Store Call) (tenantId : String),
      Run atAnyTime ⟨⟨policies, []⟩, []⟩ world → (world.shared.patches tenantId).Pairwise Disjoint →
        Carries (world.shared.policies tenantId) (world.shared.patches tenantId) := by
  intro carried
  obtain ⟨world, played⟩ : ∃ world, crossed = some world := ⟨_, rfl⟩
  have both : world.shared.patches "acme" = [hardCap, margin] := by
    cases played
    rfl
  obtain ⟨row, found, set⟩ := carried _ world "acme" (World.run_of_play _ played) (both ▸ hardCap_margin_disjoint) hardCap (by simp [both])
    .hardCapMode HardCapMode.stopBeforeRun rfl
  have shown : ∀ row, world.shared.policies "acme" = some row → row.fields .hardCapMode = HardCapMode.none := by
    cases played
    intro row found
    cases found
    rfl
  cases (shown row found).symm.trans set

end AgentSaas.Proofs.PolicyUpdates
