import AgentSaas.Interleaving

/-! Each call has an assertion of its own, and no step of another call breaks it. -/

namespace AgentSaas.Proofs.InterleavingSafety
open AgentSaas.Interleaving

variable {σ τ μ : Type}

/-- `grows` is what no step undoes, and `apart` what two calls never share. -/
structure Outline (σ τ : Type) where
  shared : σ → Prop
  call : σ → τ → Prop
  apart : τ → τ → Prop
  grows : σ → σ → Prop

structure Outline.Sound (outline : Outline σ τ) (system : System σ τ μ) : Prop where
  refl : ∀ shared, outline.grows shared shared
  trans : ∀ {a b c}, outline.grows a b → outline.grows b c → outline.grows a c
  symm : ∀ {call other}, outline.apart call other → outline.apart other call
  starts : ∀ {shared call}, outline.shared shared → system.starts shared call →
    outline.call shared call ∧ ∀ other, outline.call shared other → outline.apart call other
  advances : ∀ {shared call move after rest}, outline.shared shared → outline.call shared call →
    system.permits shared call move → system.advance shared call move = some (after, rest) →
    outline.shared after ∧ outline.grows shared after ∧ ∀ next, rest = some next →
      outline.call after next ∧ ∀ other, outline.call shared other → outline.apart call other → outline.apart next other
  stable : ∀ {shared call move after rest other}, outline.shared shared → outline.call shared call →
    system.permits shared call move → system.advance shared call move = some (after, rest) →
    outline.call shared other → outline.apart call other → outline.call after other

structure Outline.Holds (outline : Outline σ τ) (world : World σ τ) : Prop where
  shared : outline.shared world.shared
  call : ∀ {index : Nat} {call}, world.calls[index]? = some (some call) → outline.call world.shared call
  apart : ∀ {index other : Nat} {call second}, index ≠ other → world.calls[index]? = some (some call) →
    world.calls[other]? = some (some second) → outline.apart call second

namespace Outline

variable {outline : Outline σ τ} {system : System σ τ μ} {world next : World σ τ}

theorem Holds.start {shared : σ} (valid : outline.shared shared) : outline.Holds ⟨shared, []⟩ :=
  ⟨valid, fun found => by simp at found, fun _ found => by simp at found⟩

theorem set_cases {calls : List (Option τ)} {index other : Nat} {rest : Option τ} {call : τ}
    (found : (calls.set index rest)[other]? = some (some call)) :
    other = index ∧ rest = some call ∨ other ≠ index ∧ calls[other]? = some (some call) := by
  by_cases same : other = index
  · subst same
    rw [List.getElem?_set_self'] at found
    cases present : calls[other]? with
    | none => simp [present] at found
    | some old => exact .inl ⟨rfl, by simpa [present] using found⟩
  · rw [List.getElem?_set_ne (Ne.symm same)] at found
    exact .inr ⟨same, found⟩

theorem Holds.step (sound : outline.Sound system) (holds : outline.Holds world) (moved : Step system world next) :
    outline.Holds next ∧ outline.grows world.shared next.shared := by
  cases moved with
  | @start call started =>
    obtain ⟨asserted, fresh⟩ := sound.starts holds.shared started
    have old {index : Nat} {found : τ} (member : (world.calls ++ [some call])[index]? = some (some found)) :
        world.calls[index]? = some (some found) ∨ index = world.calls.length ∧ found = call := by
      simp only [List.getElem?_append, List.getElem?_singleton] at member
      split at member
      · exact .inl member
      · split at member
        next outside first =>
          cases member
          exact .inr ⟨by omega, rfl⟩
        next => cases member
    refine ⟨⟨holds.shared, fun member => ?_, fun different first second => ?_⟩, sound.refl _⟩
    · cases old member with
      | inl member => exact holds.call member
      | inr added => exact added.2 ▸ asserted
    · cases old first with
      | inl first =>
        cases old second with
        | inl second => exact holds.apart different first second
        | inr added => exact added.2 ▸ sound.symm (fresh _ (holds.call first))
      | inr added =>
        cases old second with
        | inl second => exact added.2 ▸ fresh _ (holds.call second)
        | inr also => exact (different (added.1.trans also.1.symm)).elim
  | @advance index call move after rest found permitted moved =>
    obtain ⟨valid, growth, continues⟩ := sound.advances holds.shared (holds.call found) permitted moved
    refine ⟨⟨valid, fun member => ?_, fun different first second => ?_⟩, growth⟩
    · obtain ⟨_, same⟩ | ⟨other, member⟩ := set_cases member
      · exact (continues _ same).1
      · exact sound.stable holds.shared (holds.call found) permitted moved (holds.call member)
          (holds.apart (Ne.symm other) found member)
    · obtain ⟨here, same⟩ | ⟨other, first⟩ := set_cases first
      · obtain ⟨also, _⟩ | ⟨other, second⟩ := set_cases second
        · exact (different (here.trans also.symm)).elim
        · exact (continues _ same).2 _ (holds.call second) (holds.apart (Ne.symm other) found second)
      · obtain ⟨_, same⟩ | ⟨_, second⟩ := set_cases second
        · exact sound.symm ((continues _ same).2 _ (holds.call first) (holds.apart (Ne.symm other) found first))
        · exact holds.apart different first second
  | crash =>
    refine ⟨⟨holds.shared, fun member => ?_, fun different first second => ?_⟩, sound.refl _⟩
    · obtain ⟨_, same⟩ | ⟨_, member⟩ := set_cases member
      · cases same
      · exact holds.call member
    · obtain ⟨_, same⟩ | ⟨_, first⟩ := set_cases first
      · cases same
      · obtain ⟨_, same⟩ | ⟨_, second⟩ := set_cases second
        · cases same
        · exact holds.apart different first second

theorem Holds.run (sound : outline.Sound system) (holds : outline.Holds world) (run : Run system world next) :
    outline.Holds next ∧ outline.grows world.shared next.shared := by
  induction run with
  | refl => exact ⟨holds, sound.refl _⟩
  | tail _ moved ih =>
    obtain ⟨kept, growth⟩ := ih.1.step sound moved
    exact ⟨kept, sound.trans ih.2 growth⟩

/-- What every step does from a state that the outline describes, a step of the system does. -/
theorem Holds.moves {relation : σ → σ → Prop} (refl : ∀ shared, relation shared shared)
    (advances : ∀ {shared call move after rest}, outline.shared shared → outline.call shared call →
      system.permits shared call move → system.advance shared call move = some (after, rest) → relation shared after)
    (holds : outline.Holds world) (moved : Step system world next) : relation world.shared next.shared := by
  cases moved with
  | start => exact refl _
  | advance found permitted moved => exact advances holds.shared (holds.call found) permitted moved
  | crash => exact refl _

/-- Assertions that outlast whatever grows: no call has to stay apart from another. -/
def relying (shared : σ → Prop) (call : σ → τ → Prop) (grows : σ → σ → Prop) : Outline σ τ :=
  ⟨shared, call, fun _ _ => True, grows⟩

end Outline

structure Relies (shared : σ → Prop) (call : σ → τ → Prop) (grows : σ → σ → Prop) (system : System σ τ μ) : Prop where
  refl : ∀ state, grows state state
  trans : ∀ {a b c}, grows a b → grows b c → grows a c
  mono : ∀ {state after other}, call state other → grows state after → call after other
  starts : ∀ {state started}, shared state → system.starts state started → call state started
  advances : ∀ {state current move after rest}, shared state → call state current → system.permits state current move →
    system.advance state current move = some (after, rest) →
    shared after ∧ grows state after ∧ ∀ next, rest = some next → call after next

theorem Relies.sound {shared : σ → Prop} {call : σ → τ → Prop} {grows : σ → σ → Prop} {system : System σ τ μ}
    (relies : Relies shared call grows system) : (Outline.relying shared call grows).Sound system where
  refl := relies.refl
  trans := relies.trans
  symm _ := trivial
  starts valid started := ⟨relies.starts valid started, fun _ _ => trivial⟩
  advances valid asserted permitted moved := by
    obtain ⟨kept, growth, continues⟩ := relies.advances valid asserted permitted moved
    exact ⟨kept, growth, fun next same => ⟨continues next same, fun _ _ _ => trivial⟩⟩
  stable valid asserted permitted moved other _ := relies.mono other (relies.advances valid asserted permitted moved).2.1

theorem Relies.holds {shared : σ → Prop} {call : σ → τ → Prop} {grows : σ → σ → Prop} {system : System σ τ μ}
    (relies : Relies shared call grows system) {state : σ} (valid : shared state) {world : World σ τ}
    (run : Run system ⟨state, []⟩ world) : (Outline.relying shared call grows).Holds world :=
  ((Outline.Holds.start valid : (Outline.relying shared call grows).Holds _).run relies.sound run).1

end AgentSaas.Proofs.InterleavingSafety
