import Mathlib.Data.List.Basic
import Mathlib.Data.List.TakeDrop

/-! Items that stand for stretches of a text, each with the place where it starts and the one
where it stops. -/

namespace AgentSaas.Spans

variable {ι α : Type} (start stop : ι → Nat)

def Tiled : Nat → Nat → List ι → Prop
  | low, high, [] => low = high
  | low, high, span :: rest => start span = low ∧ low < stop span ∧ Tiled (stop span) high rest

structure Spread (low high : Nat) (spans : List ι) : Prop where
  within : ∀ span ∈ spans, low ≤ start span ∧ start span < stop span ∧ stop span ≤ high
  ordered : spans.Pairwise fun left right => start left ≤ start right ∧ stop left ≤ stop right

/-- None of them starts before the one in front has stopped. -/
def Apart (high : Nat) : Nat → List ι → Prop
  | low, [] => low ≤ high
  | low, span :: rest => low ≤ start span ∧ start span ≤ stop span ∧ Apart high (stop span) rest

variable {start stop}

theorem Tiled.apart {low high : Nat} {spans : List ι} (tiled : Tiled start stop low high spans) :
    (∀ span ∈ spans, low ≤ start span ∧ start span < stop span ∧ stop span ≤ high) ∧
      spans.Pairwise fun left right => stop left ≤ start right := by
  induction spans generalizing low with
  | nil => exact ⟨fun _ member => (by cases member), .nil⟩
  | cons span rest ih =>
    obtain ⟨begins, grows, tiled⟩ := tiled
    obtain ⟨within, apart⟩ := ih tiled
    have ends : stop span ≤ high := by
      cases rest with
      | nil => exact Nat.le_of_eq tiled
      | cons next later =>
        have := within next (List.mem_cons_self ..)
        omega
    refine ⟨fun other member => ?_, List.pairwise_cons.mpr ⟨fun other member => (within other member).1, apart⟩⟩
    cases List.mem_cons.mp member with
    | inl same =>
      subst same
      exact ⟨by omega, by omega, ends⟩
    | inr member =>
      have := within other member
      omega

theorem Tiled.ends {low high : Nat} {spans : List ι} (tiled : Tiled start stop low high spans) (filled : spans ≠ []) :
    start (spans.head filled) = low ∧ stop (spans.getLast filled) = high := by
  induction spans generalizing low with
  | nil => exact (filled rfl).elim
  | cons span rest ih =>
    refine ⟨tiled.1, ?_⟩
    cases rest with
    | nil => exact tiled.2.2
    | cons next later =>
      rw [List.getLast_cons (List.cons_ne_nil _ _)]
      exact (ih tiled.2.2 (List.cons_ne_nil _ _)).2

section Spread

variable {low middle high : Nat} {first second spans : List ι}

theorem Spread.append (front : Spread start stop low middle first) (back : Spread start stop middle high second)
    (le : low ≤ middle) (ge : middle ≤ high) : Spread start stop low high (first ++ second) := by
  refine ⟨fun span member => ?_, List.pairwise_append.mpr ⟨front.ordered, back.ordered, fun left member right final => ?_⟩⟩
  · cases List.mem_append.mp member with
    | inl member =>
      have := front.within span member
      omega
    | inr member =>
      have := back.within span member
      omega
  · have := front.within left member
    have := back.within right final
    omega

theorem Spread.sublist (spread : Spread start stop low high spans) (sub : first.Sublist spans) :
    Spread start stop low high first :=
  ⟨fun span member => spread.within span (sub.subset member), spread.ordered.sublist sub⟩

theorem Spread.le (spread : Spread start stop low high spans) {i j : Nat} (le : i ≤ j) (inside : j < spans.length) :
    start spans[i] ≤ start spans[j] ∧ stop spans[i] ≤ stop spans[j] := by
  cases Nat.eq_or_lt_of_le le with
  | inl same =>
    subst same
    exact ⟨Nat.le_refl _, Nat.le_refl _⟩
  | inr before => exact List.pairwise_iff_getElem.mp spread.ordered i j _ inside before

/-- The items between two places are those of an interval of indices, when the item in front
of it starts elsewhere and the one behind it stops elsewhere. -/
theorem Spread.filter_between (spread : Spread start stop low high spans) {first last : Nat} (before : first < last)
    (inside : last ≤ spans.length)
    (starts : ∀ positive : 0 < first, start spans[first - 1] ≠ start spans[first])
    (stops : ∀ more : last < spans.length, stop spans[last - 1] ≠ stop spans[last]) :
    spans.filter (fun span => start spans[first] ≤ start span ∧ stop span ≤ stop spans[last - 1]) =
      (spans.take last).drop first := by
  have front : ∀ index, (bound : index < spans.length) → index < first → start spans[index] < start spans[first] := by
    intro index bound early
    have step := (spread.le (i := index) (j := first - 1) (by omega) (by omega)).1
    have last := (spread.le (i := first - 1) (j := first) (by omega) (by omega)).1
    have apart := starts (by omega)
    omega
  have back : ∀ index, (bound : index < spans.length) → last ≤ index → stop spans[last - 1] < stop spans[index] := by
    intro index bound late
    have step := (spread.le (i := last) (j := index) late bound).2
    have first := (spread.le (i := last - 1) (j := last) (by omega) (by omega)).2
    have apart := stops (by omega)
    omega
  have parts : spans.take first ++ (spans.take last).drop first ++ spans.drop last = spans := by
    have taken : spans.take first = (spans.take last).take first := by rw [List.take_take, Nat.min_eq_left (by omega)]
    rw [taken, List.take_append_drop, List.take_append_drop]
  let between (span : ι) : Bool := start spans[first] ≤ start span ∧ stop span ≤ stop spans[last - 1]
  have none (part : List ι) (outside : ∀ span ∈ part, between span = false) : part.filter between = [] :=
    List.filter_eq_nil_iff.mpr fun span member => by simp [outside span member]
  have whole := congrArg (List.filter between) parts
  rw [List.filter_append, List.filter_append, none (spans.take first), none (spans.drop last),
    List.filter_eq_self.mpr] at whole
  · simpa [between] using whole.symm
  · intro span member
    obtain ⟨index, bound, rfl⟩ := List.mem_iff_getElem.mp member
    simp only [List.length_drop, List.length_take] at bound
    simp only [List.getElem_drop, List.getElem_take, between, decide_eq_true_eq]
    exact ⟨(spread.le (by omega) (by omega)).1, (spread.le (by omega) (by omega)).2⟩
  · intro span member
    obtain ⟨index, bound, rfl⟩ := List.mem_iff_getElem.mp member
    rw [List.length_drop] at bound
    have after := back (last + index) (by omega) (by omega)
    simp only [List.getElem_drop, between, decide_eq_false_iff_not]
    omega
  · intro span member
    obtain ⟨index, bound, rfl⟩ := List.mem_iff_getElem.mp member
    rw [List.length_take] at bound
    have early := front index (by omega) (by omega)
    simp only [List.getElem_take, between, decide_eq_false_iff_not]
    omega

end Spread

section Splice
variable (start stop) (text : ι → List α)

/-- The content from here on, with the stretches of the items replaced by their texts. -/
def splice (content : List α) : Nat → List ι → List α
  | cursor, [] => content.drop cursor
  | cursor, span :: rest => (content.take (start span)).drop cursor ++ text span ++ splice content (stop span) rest

/-- The content from an offset on is made of what is kept and of what the items replace. -/
inductive Spliced : Nat → List α → List ι → List α → Prop
  | rest {offset kept} : Spliced offset kept [] kept
  | replace {offset kept old later span spans updated} (starts : start span = offset + kept.length)
      (stops : stop span = start span + old.length) (spliced : Spliced (stop span) later spans updated) :
      Spliced offset (kept ++ (old ++ later)) (span :: spans) (kept ++ (text span ++ updated))

variable {start stop text}

theorem Apart.le {high low : Nat} {spans : List ι} (apart : Apart start stop high low spans) : low ≤ high := by
  induction spans generalizing low with
  | nil => exact apart
  | cons span rest ih =>
    obtain ⟨after, grows, apart⟩ := apart
    have := ih apart
    omega

theorem drop_take_append (content : List α) {low high : Nat} (le : low ≤ high) (inside : high ≤ content.length) :
    (content.take high).drop low ++ content.drop high = content.drop low := by
  have short : low ≤ (content.take high).length := by
    rw [List.length_take]
    omega
  rw [← List.drop_append_of_le_length short, List.take_append_drop]

theorem spliced_splice {content : List α} {cursor : Nat} {spans : List ι}
    (apart : Apart start stop content.length cursor spans) :
    Spliced start stop text cursor (content.drop cursor) spans (splice start stop text content cursor spans) := by
  induction spans generalizing cursor with
  | nil => exact .rest
  | cons span rest ih =>
    obtain ⟨after, grows, apart⟩ := apart
    have inside := apart.le
    have parts : content.drop cursor = (content.take (start span)).drop cursor ++
        ((content.take (stop span)).drop (start span) ++ content.drop (stop span)) := by
      rw [drop_take_append content grows inside, drop_take_append content after (by omega)]
    rw [parts, splice, List.append_assoc]
    apply Spliced.replace _ _ (ih apart)
    · simp; omega
    · simp; omega

end Splice

end AgentSaas.Spans
