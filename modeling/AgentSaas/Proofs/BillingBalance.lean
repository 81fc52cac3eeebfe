import AgentSaas.Proofs.BillingRefinement

/-! The balance is what the ledger says. Only a posted row moves either of them,
and it moves both. -/

namespace AgentSaas.Proofs.BillingBalance
open AgentSaas.Transactions AgentSaas.Billing BillingCommits BillingRefinement

variable {hashing : Hashing} {allowed : Request → Prop} {a b : Database} {entry : BillingLedgerEntry}

/-- Each row starts at the balance where the one before it ended. -/
def Chained (start : Int) : List BillingLedgerEntry → Prop
  | [] => True
  | row :: rest => row.balanceBeforeMicro = start ∧
      row.balanceAfterMicro = row.balanceBeforeMicro + row.creditsDeltaMicro ∧ Chained row.balanceAfterMicro rest

def total (rows : List BillingLedgerEntry) : Int := (rows.map (·.creditsDeltaMicro)).sum

theorem Chained.append {start : Int} {rows : List BillingLedgerEntry} (chained : Chained start rows)
    (before : entry.balanceBeforeMicro = start + total rows)
    (moved : entry.balanceAfterMicro = entry.balanceBeforeMicro + entry.creditsDeltaMicro) :
    Chained start (rows ++ [entry]) := by
  induction rows generalizing start with
  | nil => exact ⟨by simpa [total] using before, moved, trivial⟩
  | cons row rest ih =>
    obtain ⟨first, step, rest_chained⟩ := chained
    refine ⟨first, step, ih rest_chained ?_⟩
    rw [before, step, first, total, List.map_cons, List.sum_cons, total]
    omega

structure Explained (db : Database) (tenantId : String) : Prop where
  balance : (db.accounts tenantId).getD 0 = total (rowsOf db tenantId)
  chained : Chained 0 (rowsOf db tenantId)

theorem explained_posted {tenantId : String} (explained : Explained a tenantId) (posted : Posted a entry b) :
    Explained b tenantId := by
  have rows : rowsOf b tenantId = rowsOf a tenantId ++ [entry].filter (·.tenantId == tenantId) := by
    rw [rowsOf, posted.ledger, List.filter_append, rowsOf]
  by_cases same : entry.tenantId = tenantId
  · subst same
    have known := explained.balance
    rw [posted.balance, Option.getD_some] at known
    have selected : [entry].filter (·.tenantId == entry.tenantId) = [entry] := by simp
    rw [selected] at rows
    refine ⟨?_, ?_⟩
    · rw [posted.accounts, Function.update_self, Option.getD_some, rows, posted.moved, known]
      simp [total]
    · rw [rows]
      exact explained.chained.append (by simpa using known) posted.moved
  · have selected : [entry].filter (·.tenantId == tenantId) = [] := by simp [same]
    rw [selected, List.append_nil] at rows
    refine ⟨?_, rows ▸ explained.chained⟩
    rw [posted.accounts, Function.update_of_ne (Ne.symm same), rows]
    exact explained.balance

theorem explained_commit {tenantId : String} (explained : Explained a tenantId) (commit : Commit hashing allowed a b) :
    Explained b tenantId := by
  cases effect_of_commit commit with
  | settings ledger accounts => exact ⟨by rw [accounts, rowsOf, ledger]; exact explained.balance, by
      rw [rowsOf, ledger]; exact explained.chained⟩
  | account other absent opened =>
    subst opened
    refine ⟨?_, explained.chained⟩
    change (Function.update a.accounts other (some 0) tenantId).getD 0 = total (rowsOf a tenantId)
    have known := explained.balance
    by_cases same : tenantId = other
    · subst same
      rw [absent] at known
      rw [Function.update_self]
      exact known
    · rwa [Function.update_of_ne same]
  | usage event recorded =>
    subst recorded
    exact ⟨explained.balance, explained.chained⟩
  | posted entry posted => exact explained_posted explained posted

theorem explained_reachable {db : Database} (reachable : Reachable hashing allowed db) (tenantId : String) :
    Explained db tenantId := by
  induction reachable with
  | refl => exact ⟨rfl, trivial⟩
  | tail _ commit ih => exact explained_commit ih commit

/-- Whatever the interleaving, the balance is the sum of the tenant's rows and the
rows form one chain from zero. -/
theorem balance_is_ledger (hashing : Hashing) {world : World Database Lock Outside Reply}
    (run : Run (store hashing fun _ => True) ⟨.empty, []⟩ world) (tenantId : String) :
    (world.db.accounts tenantId).getD 0 =
        ((world.db.ledger.filter (·.tenantId == tenantId)).map (·.creditsDeltaMicro)).sum ∧
      Chained 0 (world.db.ledger.filter (·.tenantId == tenantId)) := by
  have explained := explained_reachable (refines run).1 tenantId
  exact ⟨explained.balance, explained.chained⟩

def adjustment (key : String) (credits : Rat) : Request :=
  .adjustAccount ⟨"acme", .grant, credits, none, "admin", some key⟩

/-- Two adjustments that overlap: the second waits for the first one's row lock. -/
def overlapping : Option (World Database Lock Outside Reply) :=
  ((World.mk Database.empty []).spawn [(adjustment "first" 5).run ⟨id⟩, (adjustment "second" (-2)).run ⟨id⟩]).play (fun _ _ _ => true)
    (List.replicate 14 (0, ⟨"a", 1⟩) ++ List.replicate 12 (1, ⟨"b", 2⟩) ++ List.replicate 6 (0, ⟨"c", 3⟩) ++
      List.replicate 8 (1, ⟨"d", 4⟩))

theorem balance_is_ledger_overlapping : ∃ world, overlapping = some world ∧ world.db.accounts "acme" = some 3 ∧
    (world.db.accounts "acme").getD 0 =
      ((world.db.ledger.filter (·.tenantId == "acme")).map (·.creditsDeltaMicro)).sum ∧
    Chained 0 (world.db.ledger.filter (·.tenantId == "acme")) := by
  have played : overlapping.map (fun world => world.db.accounts "acme") = some (some 3) := by decide +kernel
  obtain ⟨world, same, balance⟩ := Option.map_eq_some_iff.mp played
  have started : Run (store ⟨id⟩ fun _ => True) (World.mk Database.empty []) (World.spawn ⟨.empty, []⟩ _) :=
    run_of_spawn [(adjustment "first" 5).run ⟨id⟩, (adjustment "second" (-2)).run ⟨id⟩] (by
      intro program member _
      simp only [List.mem_cons, List.not_mem_nil, or_false] at member
      obtain rfl | rfl := member <;> exact ⟨_, trivial, rfl⟩)
  exact ⟨world, same, balance,
    balance_is_ledger ⟨id⟩ (started.trans (run_of_play (fun _ _ _ _ _ => trivial) same)) "acme"⟩

end AgentSaas.Proofs.BillingBalance
