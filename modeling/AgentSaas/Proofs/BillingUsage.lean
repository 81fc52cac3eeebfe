import AgentSaas.Proofs.BillingRefinement

/-! A usage event is charged by one debit at most, and by one debit exactly once
a settlement that saw it has committed. The charged set is read from the ledger
itself, under the run lock. -/

namespace AgentSaas.Proofs.BillingUsage
open AgentSaas.Transactions AgentSaas.Billing BillingCommits BillingRefinement

variable {hashing : Hashing} {a b db : Database} {entry row : BillingLedgerEntry} {id tenantId runId : String}

/-- The keys that `settleRunDebit` makes. -/
def isUsageDebitKey (key : String) : Bool := "debit:usage:v1:".toList.isPrefixOf key.toList

/-- Keys are `debit:tool:...`, `reversal:...` and `manual:...` in every caller, and
a fixed debit's source is `tool:...`. -/
def promised : Request → Prop
  | .chargeFixedDebit input => isUsageDebitKey input.idempotencyKey = false ∧ input.source ≠ "usage_event"
  | .reverseDebit input => isUsageDebitKey input.idempotencyKey = false
  | .adjustAccount input => ∀ key, input.idempotencyKey = some key → isUsageDebitKey key = false
  | _ => True

/-- The digest has hex digits only, and does not collide on these ids. -/
structure Digests (hashing : Hashing) (ids : List String) : Prop where
  hex : ∀ text, ':' ∉ (hashing.sha1Prefix text).toList
  distinct : ∀ left right, left ⊆ ids → right ⊆ ids → left.Nodup → right.Nodup →
    hashing.usageEventIdHash left = hashing.usageEventIdHash right → left ⊆ right

def charges (entry : BillingLedgerEntry) (id : String) : Bool :=
  entry.type == .debit && entry.source == "usage_event" && entry.relatedUsageEventIds.contains id

/-- The usage debits of one event. -/
def usageDebits (db : Database) (id : String) : List BillingLedgerEntry := db.ledger.filter (charges · id)

def isUsageSource (entry : BillingLedgerEntry) : Prop := entry.type = .debit ∧ entry.source = "usage_event"

theorem charges_iff : charges entry id = true ↔ isUsageSource entry ∧ id ∈ entry.relatedUsageEventIds := by
  simp [charges, isUsageSource, and_assoc]

structure Names (usageEvents : List BillingUsageEvent) (hashing : Hashing) (entry : BillingLedgerEntry)
    (runId : String) : Prop where
  run : entry.runId = some runId
  key : entry.idempotencyKey = usageDebitKey hashing runId entry.relatedUsageEventIds
  nodup : entry.relatedUsageEventIds.Nodup
  events : ∀ id ∈ entry.relatedUsageEventIds, ∃ event ∈ usageEvents,
    event.id = id ∧ event.tenantId = entry.tenantId ∧ event.runId = some runId ∧ event.billable = true

structure Charged (hashing : Hashing) (db : Database) : Prop where
  ids : (db.usageEvents.map (·.id)).Nodup
  names : ∀ entry ∈ db.ledger, isUsageSource entry → ∃ runId, Names db.usageEvents hashing entry runId
  keys : ∀ entry ∈ db.ledger, isUsageDebitKey entry.idempotencyKey = true → isUsageSource entry
  once : ∀ id, (usageDebits db id).length ≤ 1

theorem event_unique (ids : (db.usageEvents.map (·.id)).Nodup) {left right : BillingUsageEvent}
    (first : left ∈ db.usageEvents) (last : right ∈ db.usageEvents) (same : left.id = right.id) : left = right :=
  List.inj_on_of_nodup_map ids first last same

theorem mem_debited : id ∈ db.debitedUsageEventIds tenantId runId ↔ ∃ entry ∈ db.ledger,
    isUsageSource entry ∧ entry.tenantId = tenantId ∧ entry.runId = some runId ∧ id ∈ entry.relatedUsageEventIds := by
  simp only [Database.debitedUsageEventIds, List.mem_flatMap, List.mem_filter, Database.isUsageDebit,
    Bool.and_eq_true, beq_iff_eq, isUsageSource]
  constructor
  · rintro ⟨entry, ⟨member, ⟨⟨tenant, run⟩, type⟩, source⟩, inside⟩
    exact ⟨entry, member, ⟨type, source⟩, tenant, run, inside⟩
  · rintro ⟨entry, member, ⟨type, source⟩, tenant, run, inside⟩
    exact ⟨entry, ⟨member, ⟨⟨tenant, run⟩, type⟩, source⟩, inside⟩

/-- An event of this run that any usage debit names is in the run's own charged set. -/
theorem debited_of_named (charged : Charged hashing db) (member : row ∈ db.ledger) (source : isUsageSource row)
    (named : id ∈ row.relatedUsageEventIds) {event : BillingUsageEvent} (present : event ∈ db.usageEvents)
    (same : event.id = id) (tenant : event.tenantId = tenantId) (run : event.runId = some runId) :
    id ∈ db.debitedUsageEventIds tenantId runId := by
  obtain ⟨otherRun, names⟩ := charged.names row member source
  obtain ⟨other, inside, sameId, sameTenant, sameRun, _⟩ := names.events id named
  have equal : other = event := event_unique charged.ids inside present (sameId.trans same.symm)
  subst equal
  refine mem_debited.mpr ⟨row, member, source, sameTenant.symm.trans tenant, ?_, named⟩
  rw [names.run, ← sameRun, run]

theorem Names.grow {before after : List BillingUsageEvent} (names : Names before hashing entry runId)
    (subset : before ⊆ after) : Names after hashing entry runId := by
  refine ⟨names.run, names.key, names.nodup, fun id member => ?_⟩
  obtain ⟨event, inside, facts⟩ := names.events id member
  exact ⟨event, subset inside, facts⟩

theorem Charged.other (charged : Charged hashing a) (ledger : b.ledger = a.ledger ++ [entry])
    (usageEvents : b.usageEvents = a.usageEvents) (source : ¬ isUsageSource entry)
    (key : isUsageDebitKey entry.idempotencyKey = false) : Charged hashing b := by
  refine ⟨usageEvents ▸ charged.ids, ?_, ?_, ?_⟩
  · rw [usageEvents, ledger]
    intro row member counted
    cases List.mem_append.mp member with
    | inl old => exact charged.names row old counted
    | inr new => exact (source (List.mem_singleton.mp new ▸ counted)).elim
  · rw [ledger]
    intro row member keyed
    cases List.mem_append.mp member with
    | inl old => exact charged.keys row old keyed
    | inr new =>
      rw [List.mem_singleton.mp new, key] at keyed
      cases keyed
  · intro id
    have uncharged : charges entry id = false := by
      by_contra charge
      exact source (charges_iff.mp (by simpa using charge)).1
    rw [usageDebits, ledger, List.filter_append, List.filter_cons, uncharged]
    simpa [usageDebits] using charged.once id

theorem Charged.settled (charged : Charged hashing a) (ledger : b.ledger = a.ledger ++ [entry])
    (usageEvents : b.usageEvents = a.usageEvents) (names : Names a.usageEvents hashing entry runId)
    (source : isUsageSource entry)
    (fresh : ∀ id ∈ entry.relatedUsageEventIds, id ∉ a.debitedUsageEventIds entry.tenantId runId) :
    Charged hashing b := by
  refine ⟨usageEvents ▸ charged.ids, ?_, ?_, ?_⟩
  · rw [usageEvents, ledger]
    intro row member counted
    cases List.mem_append.mp member with
    | inl old => exact charged.names row old counted
    | inr new => exact ⟨runId, List.mem_singleton.mp new ▸ names⟩
  · rw [ledger]
    intro row member keyed
    cases List.mem_append.mp member with
    | inl old => exact charged.keys row old keyed
    | inr new => exact List.mem_singleton.mp new ▸ source
  · intro id
    rw [usageDebits, ledger, List.filter_append, List.length_append]
    by_cases named : id ∈ entry.relatedUsageEventIds
    · obtain ⟨event, present, same, tenant, run, _⟩ := names.events id named
      have none : a.ledger.filter (charges · id) = [] := by
        rw [List.filter_eq_nil_iff]
        intro row member charge
        obtain ⟨counted, inside⟩ := charges_iff.mp charge
        exact fresh id named (debited_of_named charged member counted inside present same tenant run)
      rw [none, List.length_nil, Nat.zero_add]
      exact List.length_filter_le _ [entry]
    · have uncharged : charges entry id = false := by
        by_contra charge
        exact named (charges_iff.mp (by simpa using charge)).2
      rw [List.filter_cons, uncharged]
      simpa [usageDebits] using charged.once id

theorem Digests.earlier {before after : List String} (digests : Digests hashing after) (subset : before ⊆ after) :
    Digests hashing before :=
  ⟨digests.hex, fun left right first last => digests.distinct left right (List.Subset.trans first subset)
    (List.Subset.trans last subset)⟩

/-- SHA-1 of `e1` and of the empty text. -/
def sampleHashing : Hashing := ⟨fun text => if text = "e1" then "84896d3e06788462" else "da39a3ee5e6b4b0d"⟩

def billed : TenantBillingPolicy := { defaultTenantPolicy "acme" defaultPricingVersion with billingEnabled := true }

def projected : ProjectedRuntimeUsageInput :=
  ⟨"usage:event:v1:7", "acme", some "u1", "ada", some "s1", some "r1", 2500, none, none, none⟩

def settlements : List Request :=
  [.changeSettings (fun pricing => pricing) fun _ _ => some billed, .insertUsageEvent projected, .settleRunDebit "acme" "r1",
    .settleRunDebit "acme" "r1"]

def overlapping : Option (World Database Lock Outside Reply) :=
  ((World.mk Database.empty []).spawn (settlements.map (Request.run sampleHashing))).play (fun _ _ _ => true)
    (List.replicate 3 (0, ⟨"a", 1⟩) ++ List.replicate 14 (1, ⟨"e1", 2⟩) ++ List.replicate 13 (2, ⟨"b", 3⟩) ++
      List.replicate 12 (3, ⟨"c", 4⟩) ++ List.replicate 11 (2, ⟨"d", 5⟩) ++ List.replicate 6 (3, ⟨"f", 6⟩))

end AgentSaas.Proofs.BillingUsage
