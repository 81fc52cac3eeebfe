import Mathlib.Data.List.TakeWhile

/-! Recognisers of what a text read so far can still become. They are put together so that
whatever they accept, they accepted all along. -/

namespace AgentSaas.Prefixes

variable {α : Type}

def Closed (could : List α → Bool) : Prop :=
  ∀ front back, could (front ++ back) = true → could front = true

def orEnd (next : List α → Bool) (rest : List α) : Bool :=
  rest.isEmpty || next rest

def opens (allowed : α → Bool) (next : List α → Bool) : List α → Bool
  | [] => true
  | first :: rest => allowed first && next (first :: rest)

def skip (allowed : α → Bool) (next : List α → Bool) (rest : List α) : Bool :=
  next (rest.dropWhile allowed)

def word (allowed : α → Bool) (limit : Nat) (next : List α → Bool) (rest : List α) : Bool :=
  let name := rest.takeWhile allowed
  name.length ≤ limit && orEnd (fun rest => !name.isEmpty && next rest) (rest.dropWhile allowed)

variable {could next found other : List α → Bool} {allowed : α → Bool} {expected rest front back : List α}

theorem Closed.nil (closed : Closed could) (accepted : could rest = true) : could [] = true :=
  closed [] rest accepted

theorem closed_orEnd (closed : Closed next) : Closed (orEnd next) := by
  intro front back accepted
  cases front with
  | nil => rfl
  | cons first front => exact closed _ back accepted

theorem closed_opens (closed : Closed next) : Closed (opens allowed next) := by
  intro front back accepted
  cases front with
  | nil => rfl
  | cons first front =>
    obtain ⟨ok, later⟩ := (Bool.and_eq_true _ _).mp accepted
    exact (Bool.and_eq_true _ _).mpr ⟨ok, closed _ back later⟩

theorem closed_skip (closed : Closed next) : Closed (skip allowed next) := by
  intro front back accepted
  simp only [skip, List.dropWhile_append] at accepted
  split at accepted
  next all =>
    rw [skip, List.isEmpty_iff.mp all]
    exact closed.nil accepted
  next => exact closed _ back accepted

theorem closed_or (first : Closed next) (second : Closed other) : Closed fun rest => next rest || other rest := by
  intro front back accepted
  rcases (Bool.or_eq_true _ _).mp accepted with ok | ok
  · exact (Bool.or_eq_true _ _).mpr (.inl (first _ back ok))
  · exact (Bool.or_eq_true _ _).mpr (.inr (second _ back ok))

theorem closed_guard {flag : Bool} (closed : Closed next) : Closed fun rest => flag && next rest := by
  intro front back accepted
  obtain ⟨set, accepted⟩ := (Bool.and_eq_true _ _).mp accepted
  exact (Bool.and_eq_true _ _).mpr ⟨set, closed _ back accepted⟩

theorem closed_map {change : α → α} (closed : Closed next) : Closed fun rest => next (rest.map change) := by
  intro front back accepted
  apply closed _ (back.map change)
  rw [← List.map_append]
  exact accepted

theorem closed_word {limit : Nat} (closed : Closed next) : Closed (word allowed limit next) := by
  intro front back accepted
  simp only [word, Bool.and_eq_true, decide_eq_true_eq] at accepted ⊢
  obtain ⟨within, later⟩ := accepted
  rw [List.takeWhile_append] at within
  rw [List.takeWhile_append, List.dropWhile_append] at later
  by_cases all : ∀ x ∈ front, allowed x = true
  · have taken : front.takeWhile allowed = front := List.takeWhile_eq_self_iff.mpr all
    have dropped : front.dropWhile allowed = [] := List.dropWhile_eq_nil_iff.mpr all
    simp only [taken, if_true, List.length_append] at within
    rw [taken, dropped]
    exact ⟨by omega, rfl⟩
  · have some : front.dropWhile allowed ≠ [] := fun empty => all (List.dropWhile_eq_nil_iff.mp empty)
    have fewer : (front.takeWhile allowed).length ≠ front.length := by
      intro same
      exact all (List.takeWhile_eq_self_iff.mp ((List.takeWhile_prefix _).eq_of_length same))
    rw [if_neg fewer] at within later
    rw [if_neg (by simpa using some)] at later
    exact ⟨within, closed_orEnd (closed_guard closed) _ back later⟩

variable [DecidableEq α]

def isLiteralPrefix (rest literal : List α) : Bool :=
  rest.length < literal.length && rest.isPrefixOf literal

def literal (expected : List α) (next : List α → Bool) (rest : List α) : Bool :=
  if expected.isPrefixOf rest then next (rest.drop expected.length) else isLiteralPrefix rest expected

def maybe (expected : List α) (found other : List α → Bool) (rest : List α) : Bool :=
  if expected.isPrefixOf rest then found (rest.drop expected.length)
  else isLiteralPrefix rest expected || other rest

def oneOf (entries : List (List α)) (next : List α → Bool) (rest : List α) : Bool :=
  match entries.find? (·.isPrefixOf rest) with
  | some entry => next (rest.drop entry.length)
  | none => entries.any rest.isPrefixOf

def compatible (expected rest : List α) : Bool :=
  rest.isPrefixOf expected || expected.isPrefixOf rest

theorem isLiteralPrefix_iff : isLiteralPrefix rest expected = true ↔ rest <+: expected ∧ rest ≠ expected := by
  constructor
  · intro short
    simp only [isLiteralPrefix, Bool.and_eq_true, decide_eq_true_eq, List.isPrefixOf_iff_prefix] at short
    exact ⟨short.2, fun same => by simp [same] at short⟩
  · intro ⟨shorter, different⟩
    have length := shorter.length_le
    have unequal : rest.length ≠ expected.length := fun same => different (shorter.eq_of_length same)
    simp only [isLiteralPrefix, Bool.and_eq_true, decide_eq_true_eq, List.isPrefixOf_iff_prefix]
    exact ⟨by omega, shorter⟩

/-- Against a longer text, a literal was either read already or still being read. -/
theorem prefix_append_cases (longer : expected <+: front ++ back) : expected <+: front ∨ front <+: expected ∧ front ≠ expected := by
  by_cases same : front = expected
  · exact .inl (same ▸ List.prefix_refl _)
  · rcases List.prefix_or_prefix_of_prefix longer (List.prefix_append front back) with read | reading
    · exact .inl read
    · exact .inr ⟨reading, same⟩

theorem closed_literal (closed : Closed next) : Closed (literal expected next) := by
  intro front back accepted
  unfold literal at accepted ⊢
  split
  next read =>
    have read := List.isPrefixOf_iff_prefix.mp read
    rw [if_pos (List.isPrefixOf_iff_prefix.mpr (read.trans (List.prefix_append front back))),
      List.drop_append_of_le_length read.length_le] at accepted
    exact closed _ back accepted
  next unread =>
    rw [isLiteralPrefix_iff]
    split at accepted
    next later =>
      exact (prefix_append_cases (List.isPrefixOf_iff_prefix.mp later)).resolve_left
        fun read => unread (List.isPrefixOf_iff_prefix.mpr read)
    next =>
      have short := (isLiteralPrefix_iff.mp accepted).1
      refine ⟨(List.prefix_append front back).trans short, ?_⟩
      intro same
      exact unread (List.isPrefixOf_iff_prefix.mpr (same ▸ List.prefix_refl _))

theorem closed_maybe (closed : Closed found) (otherwise : Closed other) : Closed (maybe expected found other) := by
  intro front back accepted
  unfold maybe at accepted ⊢
  split
  next read =>
    have read := List.isPrefixOf_iff_prefix.mp read
    rw [if_pos (List.isPrefixOf_iff_prefix.mpr (read.trans (List.prefix_append front back))),
      List.drop_append_of_le_length read.length_le] at accepted
    exact closed _ back accepted
  next unread =>
    rw [Bool.or_eq_true, isLiteralPrefix_iff]
    split at accepted
    next later =>
      exact .inl ((prefix_append_cases (List.isPrefixOf_iff_prefix.mp later)).resolve_left
        fun read => unread (List.isPrefixOf_iff_prefix.mpr read))
    next =>
      rcases (Bool.or_eq_true _ _).mp accepted with short | later
      · have short := (isLiteralPrefix_iff.mp short).1
        refine .inl ⟨(List.prefix_append front back).trans short, ?_⟩
        intro same
        exact unread (List.isPrefixOf_iff_prefix.mpr (same ▸ List.prefix_refl _))
      · exact .inr (otherwise _ back later)

theorem closed_compatible : Closed (compatible expected) := by
  intro front back accepted
  simp only [compatible, Bool.or_eq_true, List.isPrefixOf_iff_prefix] at accepted ⊢
  rcases accepted with short | later
  · exact .inl ((List.prefix_append front back).trans short)
  · rcases prefix_append_cases later with read | reading
    · exact .inr read
    · exact .inl reading.1

/-- No entry is the beginning of another. -/
def Apart (entries : List (List α)) : Prop :=
  ∀ first ∈ entries, ∀ second ∈ entries, first <+: second → first = second

theorem prefix_of_find {entries : List (List α)} {entry : List α} (found : entries.find? (·.isPrefixOf rest) = some entry) :
    entry <+: rest := by
  have read := List.find?_some (p := fun entry => List.isPrefixOf entry rest) found
  exact List.isPrefixOf_iff_prefix.mp read

theorem find_entry_iff {entries : List (List α)} (apart : Apart entries) {entry : List α} :
    entries.find? (·.isPrefixOf rest) = some entry ↔ entry ∈ entries ∧ entry <+: rest := by
  constructor
  · intro found
    exact ⟨List.mem_of_find?_eq_some found, prefix_of_find found⟩
  · intro ⟨member, read⟩
    cases found : entries.find? (·.isPrefixOf rest) with
    | none => exact absurd (List.isPrefixOf_iff_prefix.mpr read) (List.find?_eq_none.mp found _ member)
    | some chosen =>
      have chosenRead := prefix_of_find found
      have chosenMember := List.mem_of_find?_eq_some found
      rcases List.prefix_or_prefix_of_prefix chosenRead read with before | before
      · rw [apart _ chosenMember _ member before]
      · rw [apart _ member _ chosenMember before]

theorem closed_oneOf {entries : List (List α)} (apart : Apart entries) (closed : Closed next) : Closed (oneOf entries next) := by
  intro front back accepted
  unfold oneOf at accepted ⊢
  split
  next entry found =>
    obtain ⟨member, read⟩ := (find_entry_iff apart).mp found
    rw [(find_entry_iff apart).mpr ⟨member, read.trans (List.prefix_append front back)⟩] at accepted
    dsimp only at accepted
    rw [List.drop_append_of_le_length read.length_le] at accepted
    exact closed _ back accepted
  next missing =>
    rw [List.any_eq_true]
    split at accepted
    next entry found =>
      obtain ⟨member, later⟩ := (find_entry_iff apart).mp found
      refine ⟨entry, member, List.isPrefixOf_iff_prefix.mpr ?_⟩
      rcases prefix_append_cases later with read | reading
      · exact absurd (List.isPrefixOf_iff_prefix.mpr read) (List.find?_eq_none.mp missing _ member)
      · exact reading.1
    next =>
      obtain ⟨entry, member, short⟩ := List.any_eq_true.mp accepted
      refine ⟨entry, member, List.isPrefixOf_iff_prefix.mpr ?_⟩
      exact (List.prefix_append front back).trans (List.isPrefixOf_iff_prefix.mp short)

end AgentSaas.Prefixes
