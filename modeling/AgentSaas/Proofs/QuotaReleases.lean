import AgentSaas.SubscriptionFailover
import Mathlib.Data.List.Nodup

/-! A response refused for its quota is released once. The one that is held and the new one change
places around a call, and where that call fails the new one is held by nobody. -/

namespace AgentSaas.Proofs.QuotaReleases
open SubscriptionFailover

variable {Token Result Quota ε : Type}

section Log

def attempts (log : List (SubscriptionFailover.Event Quota)) : List Nat :=
  log.filterMap fun event => match event with
    | .attempted place => some place
    | _ => none

def returned (log : List (SubscriptionFailover.Event Quota)) : List (Held Quota) :=
  log.filterMap fun event => match event with
    | .returned held => some held
    | _ => none

def disposals (log : List (SubscriptionFailover.Event Quota)) : List (Held Quota) :=
  log.filterMap fun event => match event with
    | .disposed held => held
    | _ => none

def finished (log : List (SubscriptionFailover.Event Quota)) : List (Held Quota) :=
  log.filterMap fun event => match event with
    | .finished held => some held
    | _ => none

def places (helds : List (Held Quota)) : List Nat := helds.map Held.place

theorem attempts_append (log added : List (SubscriptionFailover.Event Quota)) : attempts (log ++ added) = attempts log ++ attempts added :=
  List.filterMap_append

theorem returned_append (log added : List (SubscriptionFailover.Event Quota)) : returned (log ++ added) = returned log ++ returned added :=
  List.filterMap_append

theorem disposals_append (log added : List (SubscriptionFailover.Event Quota)) :
    disposals (log ++ added) = disposals log ++ disposals added :=
  List.filterMap_append

theorem finished_append (log added : List (SubscriptionFailover.Event Quota)) : finished (log ++ added) = finished log ++ finished added :=
  List.filterMap_append

theorem places_append (helds added : List (Held Quota)) : places (helds ++ added) = places helds ++ places added := List.map_append

theorem disposals_disposed (held : Option (Held Quota)) : disposals [.disposed held] = held.toList := by
  cases held <;> rfl

end Log

/-- The credential is skipped, or what it gives is refused. -/
def Passes (turn : Turn Token Result Quota ε) : Prop :=
  ∃ prepared, prepare turn = .ok prepared ∧
    ∀ token, prepared = .ready token → ∃ outcome, turn.attempt token = .ok outcome ∧ ∀ result, outcome ≠ .result result

def GivesQuota (turn : Turn Token Result Quota ε) : Prop :=
  ∃ token quota cooldownUntil, prepare turn = .ok (.ready token) ∧ turn.attempt token = .ok (.quota quota cooldownUntil)

def GivesResult (turn : Turn Token Result Quota ε) (result : Result) : Prop :=
  ∃ token, prepare turn = .ok (.ready token) ∧ turn.attempt token = .ok (.result result)

/-- No release fails while a new response waits to be held. -/
def Gentle (credentials : List (Turn Token Result Quota ε)) : Prop :=
  ∀ earlier turn later, credentials = earlier ++ turn :: later → (∀ before ∈ earlier, Passes before) →
    GivesQuota turn → turn.disposeQuota = .ok ()

/-- What a call does with the responses it got, with the order of its attempts, and with a result. -/
structure Releases (options : Options Token Result Quota ε) (outcome : Except ε Result) (log : List (SubscriptionFailover.Event Quota)) : Prop where
  once : ∀ held ∈ returned log,
    (places (disposals log)).count held.place = if held.place ∈ places (finished log) then 0 else 1
  own : ∀ held ∈ disposals log, held ∈ returned log
  last : ∀ held ∈ finished log, (returned log).getLast? = some held ∧
    ∃ moment result, options.finishQuota held.quota moment = .ok result ∧ outcome = .ok result
  ordered : (attempts log).Pairwise (· < ·)
  attempted : ∀ held ∈ returned log, held.place ∈ attempts log
  result : ∀ place, .resulted place ∈ log → ∃ turn result, options.credentials[place]? = some turn ∧ GivesResult turn result ∧
    ∀ earlier ∈ options.credentials.take place, Passes earlier

section Turns

variable {turn : Turn Token Result Quota ε} {place : Nat} {progress : Progress Quota}

inductive Turned (turn : Turn Token Result Quota ε) (place : Nat) (progress : Progress Quota) :
    Except ε (Option Result) → Progress Quota → Prop
  | skipped {next} (passes : Passes turn) (spared : ¬ GivesQuota turn) (log : next.log = progress.log)
      (held : next.lastQuota = progress.lastQuota) (free : next.retainLastQuota = progress.retainLastQuota) :
      Turned turn place progress (.ok none) next
  | refused {next} (passes : Passes turn) (spared : ¬ GivesQuota turn) (log : next.log = progress.log ++ [.attempted place])
      (held : next.lastQuota = progress.lastQuota) (free : next.retainLastQuota = progress.retainLastQuota) :
      Turned turn place progress (.ok none) next
  | replaced {next} (quota : Quota) (passes : Passes turn) (gives : GivesQuota turn) (released : turn.disposeQuota = .ok ())
      (log : next.log = progress.log ++ [.attempted place, .returned ⟨place, quota⟩, .disposed progress.lastQuota])
      (held : next.lastQuota = some ⟨place, quota⟩) (free : next.retainLastQuota = progress.retainLastQuota) :
      Turned turn place progress (.ok none) next
  | lost {next error} (quota : Quota) (gives : GivesQuota turn) (failed : turn.disposeQuota = .error error)
      (log : next.log = progress.log ++ [.attempted place, .returned ⟨place, quota⟩, .disposed progress.lastQuota])
      (held : next.lastQuota = progress.lastQuota) (free : next.retainLastQuota = progress.retainLastQuota) :
      Turned turn place progress (.error error) next
  | resulted {next result} (gives : GivesResult turn result) (stops : ¬ Passes turn) (spared : ¬ GivesQuota turn)
      (log : next.log = progress.log ++ [.attempted place, .resulted place])
      (held : next.lastQuota = progress.lastQuota) (free : next.retainLastQuota = progress.retainLastQuota) :
      Turned turn place progress (.ok (some result)) next
  | failed {error} (stops : ¬ Passes turn) (spared : ¬ GivesQuota turn) : Turned turn place progress (.error error) progress
  | raised {next error} (stops : ¬ Passes turn) (spared : ¬ GivesQuota turn) (log : next.log = progress.log ++ [.attempted place])
      (held : next.lastQuota = progress.lastQuota) (free : next.retainLastQuota = progress.retainLastQuota) :
      Turned turn place progress (.error error) next

@[simp] theorem log_observeCooldown (moment : Option ToolCallRepair.Text) : (progress.observeCooldown moment).log = progress.log := by
  unfold Progress.observeCooldown
  repeat' split
  all_goals rfl

@[simp] theorem lastQuota_observeCooldown (moment : Option ToolCallRepair.Text) :
    (progress.observeCooldown moment).lastQuota = progress.lastQuota := by
  unfold Progress.observeCooldown
  repeat' split
  all_goals rfl

@[simp] theorem retainLastQuota_observeCooldown (moment : Option ToolCallRepair.Text) :
    (progress.observeCooldown moment).retainLastQuota = progress.retainLastQuota := by
  unfold Progress.observeCooldown
  repeat' split
  all_goals rfl

theorem passes_of_prepared {prepared : Prepared Token} (found : prepare turn = .ok prepared) (idle : ∀ token, prepared ≠ .ready token) :
    Passes turn ∧ ¬ GivesQuota turn := by
  refine ⟨⟨prepared, found, fun token same => absurd same (idle token)⟩, ?_⟩
  rintro ⟨token, quota, cooldownUntil, ready, answer⟩
  rw [found] at ready
  exact idle token (Except.ok.inj ready)

theorem attempt_of_gives {token : Token} (ready : prepare turn = .ok (.ready token)) (gives : GivesQuota turn) :
    ∃ quota cooldownUntil, turn.attempt token = .ok (.quota quota cooldownUntil) := by
  obtain ⟨other, quota, cooldownUntil, found, answer⟩ := gives
  rw [ready] at found
  obtain rfl : token = other := by simpa using found
  exact ⟨quota, cooldownUntil, answer⟩

theorem passes_ready {token : Token} (ready : prepare turn = .ok (.ready token)) (passes : Passes turn) :
    ∃ outcome, turn.attempt token = .ok outcome ∧ ∀ result, outcome ≠ .result result := by
  obtain ⟨prepared, found, tried⟩ := passes
  rw [ready] at found
  exact tried token (Except.ok.inj found).symm

theorem concluded {token : Token} {outcome : SubscriptionAttempt Result Quota} (ready : prepare turn = .ok (.ready token))
    (answered : turn.attempt token = .ok outcome) :
    Turned turn place progress (conclude turn place (progress.record (.attempted place)) outcome).1
      (conclude turn place (progress.record (.attempted place)) outcome).2 := by
  have passes : (∀ result, outcome ≠ .result result) → Passes turn := by
    intro other
    refine ⟨_, ready, fun token same => ?_⟩
    obtain rfl := Prepared.ready.inj same
    exact ⟨outcome, answered, other⟩
  have spared : (∀ quota cooldownUntil, outcome ≠ .quota quota cooldownUntil) → ¬ GivesQuota turn := by
    intro other gives
    obtain ⟨quota, cooldownUntil, given⟩ := attempt_of_gives ready gives
    rw [answered] at given
    exact other quota cooldownUntil (Except.ok.inj given)
  cases outcome with
  | result result =>
    refine .resulted ⟨token, ready, answered⟩ ?_ (spared (by simp)) (by simp [conclude, Progress.record]) rfl rfl
    intro passes
    obtain ⟨outcome, given, other⟩ := passes_ready ready passes
    rw [answered] at given
    exact other result (Except.ok.inj given).symm
  | authUnavailable => exact .refused (passes (by simp)) (spared (by simp)) rfl rfl rfl
  | ineligible => exact .refused (passes (by simp)) (spared (by simp)) rfl rfl rfl
  | quota quota cooldownUntil =>
    have gives : GivesQuota turn := ⟨token, quota, cooldownUntil, ready, answered⟩
    simp only [conclude]
    split
    next error failed => exact .lost quota gives failed (by simp [Progress.record]) (by simp [Progress.record]) (by simp [Progress.record])
    next released =>
      exact .replaced quota (passes (by simp)) gives released (by simp [Progress.record]) (by simp) (by simp [Progress.record])

theorem turned (turn : Turn Token Result Quota ε) (place : Nat) (progress : Progress Quota) :
    Turned turn place progress (takeTurn turn place progress).1 (takeTurn turn place progress).2 := by
  unfold takeTurn
  split
  next error failed =>
    apply Turned.failed
    · rintro ⟨prepared, found, _⟩
      rw [failed] at found
      cases found
    · rintro ⟨token, quota, cooldownUntil, ready, answer⟩
      rw [failed] at ready
      cases ready
  next found =>
    obtain ⟨passes, spared⟩ := passes_of_prepared found (by simp)
    exact .skipped passes spared rfl rfl rfl
  next moment found =>
    obtain ⟨passes, spared⟩ := passes_of_prepared found (by simp)
    exact .skipped passes spared (by simp) (by simp) (by simp)
  next found =>
    obtain ⟨passes, spared⟩ := passes_of_prepared found (by simp)
    exact .skipped passes spared rfl rfl rfl
  next token ready =>
    dsimp only
    split
    next error failed =>
      refine .raised ?_ ?_ rfl rfl rfl
      · intro passes
        obtain ⟨outcome, given, _⟩ := passes_ready ready passes
        rw [failed] at given
        cases given
      · intro gives
        obtain ⟨quota, cooldownUntil, given⟩ := attempt_of_gives ready gives
        rw [failed] at given
        cases given
    next outcome answered => exact concluded ready answered

end Turns

section Runs

variable {turn : Turn Token Result Quota ε} {rest : List (Turn Token Result Quota ε)} {place : Nat} {progress after : Progress Quota}

theorem gentle_cons : Gentle (turn :: rest) ↔ (GivesQuota turn → turn.disposeQuota = .ok ()) ∧ (Passes turn → Gentle rest) := by
  constructor
  · intro gentle
    refine ⟨gentle [] turn rest rfl (by simp), fun passes earlier other later split before => ?_⟩
    apply gentle (turn :: earlier) other later (by rw [split, List.cons_append])
    intro first member
    rcases List.mem_cons.mp member with rfl | member
    · exact passes
    · exact before first member
  · rintro ⟨here, further⟩ earlier other later split before gives
    cases earlier with
    | nil =>
      obtain ⟨rfl, rfl⟩ := List.cons.inj split
      exact here gives
    | cons first earlier =>
      obtain ⟨rfl, rfl⟩ := List.cons.inj split
      exact further (before _ List.mem_cons_self) earlier other later rfl (fun each member => before each (List.mem_cons_of_mem _ member)) gives

/-- Every response that came is released, or it is the one that is held. -/
structure Kept (place : Nat) (progress : Progress Quota) : Prop where
  balance : returned progress.log = disposals progress.log ++ progress.lastQuota.toList
  sources : (places (returned progress.log)).Sublist (attempts progress.log)
  ordered : (attempts progress.log).Pairwise (· < ·)
  below : ∀ attempt ∈ attempts progress.log, attempt < place
  unfinished : finished progress.log = []
  free : progress.retainLastQuota = false

structure Lost (progress : Progress Quota) : Prop where
  stray : ∃ held ∈ returned progress.log, held.place ∉ places (disposals progress.log ++ progress.lastQuota.toList)
  unfinished : finished progress.log = []
  free : progress.retainLastQuota = false

theorem kept_initial : Kept 0 (initial : Progress Quota) :=
  ⟨rfl, List.Sublist.refl _, List.Pairwise.nil, fun _ member => absurd member List.not_mem_nil, rfl, rfl⟩

theorem Kept.skip (kept : Kept place progress) (log : after.log = progress.log) (held : after.lastQuota = progress.lastQuota)
    (free : after.retainLastQuota = progress.retainLastQuota) : Kept (place + 1) after := by
  refine ⟨?_, ?_, ?_, ?_, ?_, free.trans kept.free⟩
  · rw [log, held]; exact kept.balance
  · rw [log]; exact kept.sources
  · rw [log]; exact kept.ordered
  · rw [log]; exact fun attempt member => Nat.lt_succ_of_lt (kept.below attempt member)
  · rw [log]; exact kept.unfinished

/-- The place of the turn is added, and a response may change places with the one that was held. -/
theorem Kept.attempt {added : List (SubscriptionFailover.Event Quota)} (kept : Kept place progress) (log : after.log = progress.log ++ added)
    (attempted : attempts added = [place]) (sources : (places (returned added)).Sublist [place]) (unfinished : finished added = [])
    (balance : progress.lastQuota.toList ++ returned added = disposals added ++ after.lastQuota.toList)
    (free : after.retainLastQuota = progress.retainLastQuota) : Kept (place + 1) after := by
  refine ⟨?_, ?_, ?_, ?_, ?_, free.trans kept.free⟩
  · rw [log, returned_append, disposals_append, kept.balance, List.append_assoc, balance, List.append_assoc]
  · rw [log, returned_append, attempts_append, places_append, attempted]
    exact kept.sources.append sources
  · rw [log, attempts_append, attempted]
    refine List.pairwise_append.mpr ⟨kept.ordered, List.pairwise_singleton _ _, ?_⟩
    intro attempt member other same
    rw [List.mem_singleton.mp same]
    exact kept.below attempt member
  · rw [log, attempts_append, attempted]
    intro attempt member
    rcases List.mem_append.mp member with member | member
    · exact Nat.lt_succ_of_lt (kept.below attempt member)
    · rw [List.mem_singleton.mp member]
      exact Nat.lt_succ_self place
  · rw [log, finished_append, kept.unfinished, unfinished, List.nil_append]

theorem Kept.lost {quota : Quota} (kept : Kept place progress)
    (log : after.log = progress.log ++ [.attempted place, .returned ⟨place, quota⟩, .disposed progress.lastQuota])
    (held : after.lastQuota = progress.lastQuota) (free : after.retainLastQuota = progress.retainLastQuota) : Lost after := by
  refine ⟨⟨⟨place, quota⟩, ?_, ?_⟩, ?_, free.trans kept.free⟩
  · rw [log, returned_append]
    exact List.mem_append_right _ List.mem_cons_self
  · have disposed : disposals after.log = returned progress.log := by
      rw [log, disposals_append, kept.balance]
      exact congrArg (disposals progress.log ++ ·) (disposals_disposed progress.lastQuota)
    have earlier : ∀ other ∈ disposals after.log ++ after.lastQuota.toList, other ∈ returned progress.log := by
      intro other member
      rw [disposed, held] at member
      rcases List.mem_append.mp member with member | member
      · exact member
      · rw [kept.balance]
        exact List.mem_append_right _ member
    intro member
    obtain ⟨other, member, same⟩ := List.mem_map.mp member
    have before := kept.below other.place (kept.sources.subset (List.mem_map_of_mem (earlier other member)))
    change other.place = place at same
    omega
  · rw [log, finished_append]
    exact List.append_eq_nil_iff.mpr ⟨kept.unfinished, rfl⟩

theorem takeTurns_kept (kept : Kept place progress) :
    (Gentle rest → ∃ last, Kept last (takeTurns place rest progress).2) ∧
      (¬ Gentle rest → Lost (takeTurns place rest progress).2 ∧ ∃ error, (takeTurns place rest progress).1 = .error error) := by
  induction rest generalizing place progress with
  | nil => exact ⟨fun _ => ⟨place, kept⟩, fun harsh => absurd (fun earlier turn later split => by cases earlier <;> cases split) harsh⟩
  | cons turn rest ih =>
    have step := turned turn place progress
    rw [takeTurns, gentle_cons]
    generalize takeTurn turn place progress = answer at step
    obtain ⟨outcome, after⟩ := answer
    dsimp only at step
    -- A turn that goes on leaves what it keeps to the rest.
    have further (passes : Passes turn) (here : GivesQuota turn → turn.disposeQuota = .ok ()) (kept : Kept (place + 1) after) :
        ((GivesQuota turn → turn.disposeQuota = .ok ()) ∧ (Passes turn → Gentle rest) →
          ∃ last, Kept last (takeTurns (place + 1) rest after).2) ∧
        (¬ ((GivesQuota turn → turn.disposeQuota = .ok ()) ∧ (Passes turn → Gentle rest)) →
          Lost (takeTurns (place + 1) rest after).2 ∧ ∃ error, (takeTurns (place + 1) rest after).1 = .error error) :=
      ⟨fun gentle => (ih kept).1 (gentle.2 passes), fun harsh => (ih kept).2 fun gentle => harsh ⟨here, fun _ => gentle⟩⟩
    -- One that stops the loop leaves nothing to fail.
    have stopped (stops : ¬ Passes turn) (spared : ¬ GivesQuota turn) (kept : ∃ last, Kept last after) :
        ((GivesQuota turn → turn.disposeQuota = .ok ()) ∧ (Passes turn → Gentle rest) → ∃ last, Kept last after) ∧
        (¬ ((GivesQuota turn → turn.disposeQuota = .ok ()) ∧ (Passes turn → Gentle rest)) →
          Lost after ∧ ∃ error, outcome = .error error) :=
      ⟨fun _ => kept, fun harsh => absurd ⟨fun gives => absurd gives spared, fun passes => absurd passes stops⟩ harsh⟩
    cases step with
    | skipped passes spared log held free => exact further passes (fun gives => absurd gives spared) (kept.skip log held free)
    | refused passes spared log held free =>
      apply further passes (fun gives => absurd gives spared)
      exact kept.attempt log rfl (List.nil_sublist _) rfl (by rw [held]; exact List.append_nil _) free
    | replaced quota passes gives released log held free =>
      apply further passes (fun _ => released)
      refine kept.attempt log rfl (List.Sublist.refl _) rfl ?_ free
      rw [held]
      exact congrArg (· ++ [_]) (disposals_disposed progress.lastQuota).symm
    | lost quota gives failed log held free =>
      refine ⟨fun gentle => ?_, fun _ => ⟨kept.lost log held free, _, rfl⟩⟩
      have released := gentle.1 gives
      rw [failed] at released
      cases released
    | resulted gives stops spared log held free =>
      refine stopped stops spared ⟨place + 1, kept.attempt log rfl (List.nil_sublist _) rfl ?_ free⟩
      rw [held]
      exact List.append_nil _
    | failed stops spared => exact stopped stops spared ⟨place, kept⟩
    | raised stops spared log held free =>
      refine stopped stops spared ⟨place + 1, kept.attempt log rfl (List.nil_sublist _) rfl ?_ free⟩
      rw [held]
      exact List.append_nil _

theorem takeTurns_resulted {found : Nat} (result : .resulted found ∈ (takeTurns place rest progress).2.log) :
    .resulted found ∈ progress.log ∨ place ≤ found ∧ (∃ turn result, rest[found - place]? = some turn ∧ GivesResult turn result) ∧
      ∀ earlier ∈ rest.take (found - place), Passes earlier := by
  induction rest generalizing place progress with
  | nil => exact .inl result
  | cons turn rest ih =>
    have step := turned turn place progress
    rw [takeTurns] at result
    generalize takeTurn turn place progress = answer at step result
    obtain ⟨outcome, after⟩ := answer
    dsimp only at step
    have further (passes : Passes turn) (added : List (SubscriptionFailover.Event Quota)) (log : after.log = progress.log ++ added)
        (silent : .resulted found ∉ added) (result : .resulted found ∈ (takeTurns (place + 1) rest after).2.log) :
        .resulted found ∈ progress.log ∨ place ≤ found ∧ (∃ other result, (turn :: rest)[found - place]? = some other ∧ GivesResult other result) ∧
          ∀ earlier ∈ (turn :: rest).take (found - place), Passes earlier := by
      rcases ih result with here | ⟨beyond, source, before⟩
      · rw [log] at here
        exact .inl ((List.mem_append.mp here).resolve_right silent)
      · right
        obtain ⟨more, rfl⟩ : ∃ more, found = place + 1 + more := ⟨found - (place + 1), by omega⟩
        rw [show place + 1 + more - (place + 1) = more by omega] at source before
        rw [show place + 1 + more - place = more + 1 by omega]
        refine ⟨by omega, source, ?_⟩
        rw [List.take_succ_cons]
        exact List.forall_mem_cons.mpr ⟨passes, before⟩
    cases step with
    | skipped passes spared log held free => exact further passes [] (by rw [log, List.append_nil]) List.not_mem_nil result
    | refused passes spared log held free => exact further passes _ log (by simp) result
    | replaced quota passes gives released log held free => exact further passes _ log (by simp) result
    | lost quota gives failed log held free =>
      left
      rw [log] at result
      simpa using result
    | resulted gives stops spared log held free =>
      rw [log] at result
      rcases List.mem_append.mp result with result | result
      · exact .inl result
      · obtain rfl : found = place := by simpa using result
        rw [Nat.sub_self]
        exact .inr ⟨Nat.le_refl found, ⟨turn, _, rfl, gives⟩, by simp⟩
    | failed stops spared => exact .inl result
    | raised stops spared log held free =>
      left
      rw [log] at result
      simpa using result

end Runs

section Calls

variable {options : Options Token Result Quota ε} {progress : Progress Quota} {log : List (SubscriptionFailover.Event Quota)}

theorem finish_cases (options : Options Token Result Quota ε) (progress : Progress Quota) : (finish options progress).2 = progress ∨ ∃ held moment result, progress.lastQuota = some held ∧
    options.finishQuota held.quota moment = .ok result ∧
    finish options progress = (.ok result, { progress.record (.finished held) with retainLastQuota := true }) := by
  unfold finish
  split
  next => exact .inl rfl
  next =>
    split
    next held here =>
      split
      next => exact .inl rfl
      next result answered => exact .inr ⟨held, _, result, here, answered, rfl⟩
    next => exact .inl rfl

theorem attemptAll_cases (options : Options Token Result Quota ε) : (attemptAll options).2 = (takeTurns 0 options.credentials initial).2 ∨
    ∃ held moment result, (takeTurns 0 options.credentials initial).1 = .ok none ∧
      (takeTurns 0 options.credentials initial).2.lastQuota = some held ∧ options.finishQuota held.quota moment = .ok result ∧
      attemptAll options =
        (.ok result, { (takeTurns 0 options.credentials initial).2.record (.finished held) with retainLastQuota := true }) := by
  unfold attemptAll
  generalize takeTurns 0 options.credentials initial = loop
  split
  next => exact .inl rfl
  next => exact .inl rfl
  next progress =>
    rcases finish_cases options progress with same | ⟨held, moment, result, here, answered, ends⟩
    · exact .inl same
    · exact .inr ⟨held, moment, result, rfl, here, answered, ends⟩

theorem released_log (free : (attemptAll options).2.retainLastQuota = false) :
    (executeOrderedSubscriptionFailover options).2.log =
      (attemptAll options).2.log ++ [.disposed (attemptAll options).2.lastQuota] := by
  unfold executeOrderedSubscriptionFailover
  generalize attemptAll options = ended at free
  obtain ⟨outcome, progress⟩ := ended
  dsimp only at free ⊢
  rw [if_neg (by rw [free]; exact Bool.false_ne_true)]
  cases options.disposeLastQuota <;> rfl

theorem retained (held : (attemptAll options).2.retainLastQuota = true) : executeOrderedSubscriptionFailover options = attemptAll options := by
  unfold executeOrderedSubscriptionFailover
  generalize attemptAll options = ended at held
  obtain ⟨outcome, progress⟩ := ended
  dsimp only at held ⊢
  rw [if_pos held]

theorem once_of_split (split : returned log = disposals log ++ finished log) (distinct : (places (returned log)).Nodup) :
    ∀ held ∈ returned log, (places (disposals log)).count held.place = if held.place ∈ places (finished log) then 0 else 1 := by
  intro held member
  rw [split, places_append] at distinct
  obtain ⟨inside, _, apart⟩ := List.nodup_append.mp distinct
  have place : held.place ∈ places (disposals log) ++ places (finished log) := by
    rw [← places_append, ← split]
    exact List.mem_map_of_mem member
  split
  next ends => exact List.count_eq_zero.mpr fun again => apart _ again _ ends rfl
  next other => exact List.count_eq_one_of_mem inside ((List.mem_append.mp place).resolve_right other)

theorem Kept.releases {place : Nat} {outcome : Except ε Result} {ends : List (SubscriptionFailover.Event Quota)} (kept : Kept place progress)
    (loop : progress = (takeTurns 0 options.credentials initial).2) (quiet : returned ends = []) (still : attempts ends = [])
    (silent : ∀ place, .resulted place ∉ ends) (split : progress.lastQuota.toList = disposals ends ++ finished ends)
    (last : ∀ held ∈ finished ends, ∃ moment result, options.finishQuota held.quota moment = .ok result ∧ outcome = .ok result) :
    Releases options outcome (progress.log ++ ends) := by
  have came : returned (progress.log ++ ends) = disposals (progress.log ++ ends) ++ finished (progress.log ++ ends) := by
    rw [returned_append, disposals_append, finished_append, quiet, kept.unfinished, kept.balance, split]
    simp only [List.append_nil, List.nil_append, List.append_assoc]
  have tried : attempts (progress.log ++ ends) = attempts progress.log := by rw [attempts_append, still, List.append_nil]
  have sources : (places (returned (progress.log ++ ends))).Sublist (attempts (progress.log ++ ends)) := by
    rw [tried, returned_append, quiet, List.append_nil]
    exact kept.sources
  have ordered : (attempts (progress.log ++ ends)).Pairwise (· < ·) := by rw [tried]; exact kept.ordered
  have distinct : (places (returned (progress.log ++ ends))).Nodup := (ordered.sublist sources).imp fun before => Nat.ne_of_lt before
  refine ⟨once_of_split came distinct, ?_, ?_, ordered, ?_, ?_⟩
  · intro held member
    rw [came]
    exact List.mem_append_left _ member
  · intro held member
    rw [finished_append, kept.unfinished, List.nil_append] at member
    refine ⟨?_, last held member⟩
    have only : finished ends = [held] := by
      cases here : progress.lastQuota with
      | none =>
        rw [here] at split
        rw [(List.append_eq_nil_iff.mp split.symm).2] at member
        cases member
      | some other =>
        rw [here] at split
        rcases List.append_eq_singleton_iff.mp split.symm with ⟨_, one⟩ | ⟨_, none⟩
        · rw [one] at member ⊢
          rw [List.mem_singleton.mp member]
        · rw [none] at member
          cases member
    rw [came, finished_append, only, ← List.append_assoc, List.getLast?_concat]
  · intro held member
    exact sources.subset (List.mem_map_of_mem member)
  · intro place result
    have inside := (List.mem_append.mp result).resolve_right (silent place)
    rw [loop] at inside
    rcases takeTurns_resulted inside with nothing | ⟨_, ⟨turn, result, here, gives⟩, before⟩
    · cases nothing
    · exact ⟨turn, result, here, gives, before⟩

theorem Lost.not_once (lost : Lost progress) (ended : log = progress.log ++ [.disposed progress.lastQuota]) :
    ¬ ∀ held ∈ returned log, (places (disposals log)).count held.place = if held.place ∈ places (finished log) then 0 else 1 := by
  intro once
  obtain ⟨held, member, stray⟩ := lost.stray
  have disposed : disposals log = disposals progress.log ++ progress.lastQuota.toList := by
    rw [ended, disposals_append, disposals_disposed]
  have unfinished : finished log = [] := by
    rw [ended, finished_append, lost.unfinished]
    rfl
  have one := once held (by rw [ended, returned_append]; exact List.mem_append_left _ member)
  rw [disposed, unfinished, List.count_eq_zero.mpr stray] at one
  simp [places] at one

/-- Every response refused for its quota is released once, or finished at last, as long as no release
fails that makes room for another. -/
theorem released_once (options : Options Token Result Quota ε) :
    Releases options (executeOrderedSubscriptionFailover options).1 (executeOrderedSubscriptionFailover options).2.log ↔
      Gentle options.credentials := by
  have loop := @takeTurns_kept _ _ _ _ options.credentials 0 initial kept_initial
  constructor
  · intro releases
    by_contra harsh
    obtain ⟨lost, error, raised⟩ := loop.2 harsh
    rcases attemptAll_cases options with same | ⟨_, _, _, settled, _⟩
    · rw [← same] at lost
      exact lost.not_once (released_log lost.free) releases.once
    · rw [raised] at settled
      cases settled
  · intro gentle
    obtain ⟨place, kept⟩ := loop.1 gentle
    rcases attemptAll_cases options with same | ⟨held, moment, result, _, here, answered, ends⟩
    · rw [released_log (by rw [same]; exact kept.free), same]
      refine kept.releases rfl rfl rfl (by simp) ?_ ?_
      · rw [disposals_disposed]
        exact (List.append_nil _).symm
      · intro held member
        cases member
    · rw [retained (by rw [ends]), ends]
      refine kept.releases rfl rfl rfl (by simp) ?_ ?_
      · rw [here]
        rfl
      · intro other member
        rw [List.mem_singleton.mp member]
        exact ⟨moment, result, answered, rfl⟩

/-- A configured credential that is out of quota; releasing what is held at its turn goes as said. -/
private def refused (quota : Nat) (disposeQuota : Except Unit Unit) : Turn Unit Unit Nat Unit where
  signalBefore := .ok ()
  isConfigured := .ok true
  getRuntimeState := .ok none
  getCredentials := .ok ()
  signalAfterError := .ok ()
  handleCredentialError := fun _ => .ok false
  signalAfterCredentials := .ok ()
  isStillConfigured := .ok true
  attempt := fun _ => .ok (.quota quota [50])
  disposeQuota := disposeQuota

private def twice : Options Unit Unit Nat Unit where
  credentials := [refused 10 (.ok ()), refused 20 (.error ())]
  signalAtEnd := .ok ()
  now := [49]
  finishQuota := fun _ _ => .ok ()
  finishUnavailable := fun _ => .ok ()
  disposeLastQuota := .ok ()

theorem second_never_released :
    ¬ Releases twice (executeOrderedSubscriptionFailover twice).1 (executeOrderedSubscriptionFailover twice).2.log := by
  intro releases
  have counted : (places (disposals (executeOrderedSubscriptionFailover twice).2.log)).count 1 = 1 :=
    releases.once ⟨1, 20⟩ (List.mem_cons_of_mem _ List.mem_cons_self)
  cases counted

end Calls

end AgentSaas.Proofs.QuotaReleases
