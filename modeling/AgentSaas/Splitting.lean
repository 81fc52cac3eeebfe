import Mathlib.Data.List.Flatten
import Mathlib.Data.List.Infix
import Mathlib.Data.List.Perm.Subperm

/-! Splitting at every occurrence of a separator, from the left; no two of them overlap. -/

namespace AgentSaas.Splitting

/-- A list that is one item longer, cut at an item: that is the last one, or one of those before. -/
theorem split_concat {ι : Type*} {items before rest : List ι} {item added : ι} (same : items ++ [added] = before ++ item :: rest) :
    before = items ∧ item = added ∧ rest = [] ∨ ∃ less, rest = less ++ [added] ∧ items = before ++ item :: less := by
  obtain rfl | ⟨less, last, rfl⟩ := List.eq_nil_or_concat rest
  · obtain ⟨rfl, last⟩ := List.append_inj' same rfl
    exact .inl ⟨rfl, (List.singleton_inj.mp last).symm, rfl⟩
  · rw [List.concat_eq_append, ← List.cons_append, ← List.append_assoc] at same
    obtain ⟨shorter, final⟩ := List.append_inj' same rfl
    rw [List.concat_eq_append, List.singleton_inj.mp final]
    exact .inr ⟨less, rfl, shorter⟩

variable {α : Type} [DecidableEq α] (separator : List α)

def splitFrom : Nat → List α → List (List α)
  | _, [] => [[]]
  | skipped + 1, _ :: rest => splitFrom skipped rest
  | 0, item :: rest =>
    if separator.isPrefixOf (item :: rest) then [] :: splitFrom (separator.length - 1) rest
    else (splitFrom 0 rest).modifyHead (item :: ·)

def split (text : List α) : List (List α) := splitFrom separator 0 text

def join (parts : List (List α)) : List α := separator.intercalate parts

variable {separator}

theorem splitFrom_eq (skipped : Nat) (text : List α) : splitFrom separator skipped text = split separator (text.drop skipped) := by
  induction skipped generalizing text with
  | zero => rfl
  | succ skipped ih =>
    cases text with
    | nil => rfl
    | cons item rest => exact ih rest

@[simp] theorem split_nil : split separator [] = [[]] := rfl

theorem split_separator (filled : separator ≠ []) (text : List α) :
    split separator (separator ++ text) = [] :: split separator text := by
  cases separator with
  | nil => exact (filled rfl).elim
  | cons first later =>
    have here : (first :: later).isPrefixOf (first :: (later ++ text)) = true := by simp
    simp only [split, List.cons_append, splitFrom, if_pos here, List.cons.injEq, true_and]
    rw [splitFrom_eq]
    simp [split]

theorem split_cons {item : α} {text : List α} (absent : ¬ separator <+: item :: text) :
    split separator (item :: text) = (split separator text).modifyHead (item :: ·) := by
  simp only [split, splitFrom]
  rw [if_neg (by simpa using absent)]

theorem split_induction (filled : separator ≠ []) {motive : List α → Prop} (nil : motive [])
    (found : ∀ text, motive text → motive (separator ++ text))
    (missed : ∀ item text, ¬ separator <+: item :: text → motive text → motive (item :: text)) (text : List α) :
    motive text := by
  induction length : text.length using Nat.strongRecOn generalizing text with
  | ind size ih =>
    cases text with
    | nil => exact nil
    | cons item rest =>
      by_cases here : separator <+: item :: rest
      · obtain ⟨later, same⟩ := here
        have shorter : later.length < size := by
          have whole := congrArg List.length same
          have positive := List.length_pos_iff.mpr filled
          rw [List.length_append] at whole
          omega
        exact same ▸ found later (ih later.length shorter later rfl)
      · exact missed item rest here (ih rest.length (by simp [← length]) rest rfl)

theorem split_ne_nil (filled : separator ≠ []) (text : List α) : split separator text ≠ [] := by
  induction text using split_induction filled with
  | nil => simp
  | found text ih => simp [split_separator filled]
  | missed item text absent ih =>
    rw [split_cons absent]
    cases parts : split separator text with
    | nil => exact (ih parts).elim
    | cons => simp

theorem join_split (filled : separator ≠ []) (text : List α) : join separator (split separator text) = text := by
  induction text using split_induction filled with
  | nil => simp [join]
  | found text ih =>
    rw [split_separator filled]
    cases parts : split separator text with
    | nil => exact (split_ne_nil filled text parts).elim
    | cons first later =>
      rw [parts] at ih
      rw [join, List.intercalate_cons_cons, ← join, ih]
      rfl
  | missed item text absent ih =>
    rw [split_cons absent]
    cases parts : split separator text with
    | nil => exact (split_ne_nil filled text parts).elim
    | cons first later =>
      rw [parts] at ih
      subst ih
      cases later <;> simp [join, List.intercalate_cons_cons]

theorem split_first (filled : separator ≠ []) {part rest : List α}
    (absent : ∀ start < part.length, ¬ separator <+: (part ++ (separator ++ rest)).drop start) :
    split separator (part ++ (separator ++ rest)) = part :: split separator rest := by
  induction part with
  | nil => exact split_separator filled rest
  | cons item part ih =>
    have here : ¬ separator <+: item :: (part ++ (separator ++ rest)) := absent 0 (by simp)
    rw [List.cons_append, split_cons here, ih fun start inside => absent (start + 1) (Nat.succ_lt_succ inside)]
    rfl

theorem head_le (filled : separator ≠ []) {text : List α} {start : Nat} (here : separator <+: text.drop start)
    {first : List α} {later : List (List α)} (parts : split separator text = first :: later) : first.length ≤ start := by
  induction text using split_induction filled generalizing start first later with
  | nil =>
    cases parts
    exact Nat.zero_le _
  | found text ih =>
    rw [split_separator filled] at parts
    cases parts
    exact Nat.zero_le _
  | missed item text absent ih =>
    cases start with
    | zero => exact (absent here).elim
    | succ start =>
      rw [split_cons absent] at parts
      cases inside : split separator text with
      | nil => exact (split_ne_nil filled text inside).elim
      | cons head tail =>
        rw [inside] at parts
        cases parts
        exact Nat.succ_le_succ (ih here inside)

theorem split_absent {item : α} {part : List α} (absent : item ∉ part) : split [item] part = [part] := by
  induction part with
  | nil => rfl
  | cons first rest ih =>
    obtain ⟨other, absent⟩ := List.ne_and_not_mem_of_not_mem_cons absent
    rw [split_cons (by simpa using other), ih absent]
    rfl

theorem split_join {item : α} {parts : List (List α)} (filled : parts ≠ []) (absent : ∀ part ∈ parts, item ∉ part) :
    split [item] (join [item] parts) = parts := by
  induction parts with
  | nil => exact absurd rfl filled
  | cons first later ih =>
    have own := absent first List.mem_cons_self
    cases later with
    | nil =>
      rw [join, List.intercalate_singleton]
      exact split_absent own
    | cons second later =>
      rw [join, List.intercalate_cons_cons, ← join, List.append_assoc, split_first (List.cons_ne_nil _ _) fun start inside => ?_,
        ih (List.cons_ne_nil _ _) fun part member => absent part (.tail _ member)]
      intro here
      rw [List.drop_append_of_le_length (Nat.le_of_lt inside), List.drop_eq_getElem_cons inside, List.cons_append] at here
      have head := (List.cons_prefix_cons.mp here).1
      exact own (head ▸ List.getElem_mem inside)

variable {item : α}

theorem split_same (text : List α) : split [item] (item :: text) = [] :: split [item] text :=
  split_separator (List.cons_ne_nil _ _) text

theorem split_other {first : α} (other : first ≠ item) (text : List α) :
    split [item] (first :: text) = (split [item] text).modifyHead (first :: ·) :=
  split_cons fun here => other (List.cons_prefix_cons.mp here).1.symm

theorem split_append (front back : List α) : split [item] (front ++ item :: back) = split [item] front ++ split [item] back := by
  induction front with
  | nil => exact split_same back
  | cons first front ih =>
    by_cases same : first = item
    · rw [same, List.cons_append, split_same, split_same, ih]
      rfl
    · rw [List.cons_append, split_other same, split_other same, ih]
      cases parts : split [item] front with
      | nil => exact absurd parts (split_ne_nil (List.cons_ne_nil _ _) front)
      | cons => rfl

theorem absent_of_split {text part : List α} (found : part ∈ split [item] text) : item ∉ part := by
  induction text generalizing part with
  | nil =>
    rw [split_nil, List.mem_singleton] at found
    rw [found]
    exact List.not_mem_nil
  | cons first text ih =>
    by_cases same : first = item
    · rw [same, split_same] at found
      cases found with
      | head => exact List.not_mem_nil
      | tail _ later => exact ih later
    · rw [split_other same] at found
      cases parts : split [item] text with
      | nil => exact absurd parts (split_ne_nil (List.cons_ne_nil _ _) text)
      | cons head tail =>
        rw [parts] at found ih
        cases found with
        | head =>
          intro inside
          cases inside with
          | head => exact same rfl
          | tail _ inside => exact ih List.mem_cons_self inside
        | tail _ later => exact ih (.tail _ later)

omit [DecidableEq α] in
theorem infix_append_cons {pattern front back : List α} (absent : item ∉ pattern) (found : pattern <:+: front ++ item :: back) :
    pattern <:+: front ∨ pattern <:+: back := by
  obtain ⟨before, after, whole⟩ := found
  rw [List.append_assoc, List.append_eq_append_iff] at whole
  rcases whole with ⟨middle, rfl, same⟩ | ⟨middle, rfl, same⟩
  · rw [List.append_eq_append_iff] at same
    rcases same with ⟨rest, rfl, _⟩ | ⟨rest, rfl, same⟩
    · exact .inl ⟨before, rest, by simp⟩
    · cases rest with
      | nil => exact .inl ⟨before, [], by simp⟩
      | cons first rest =>
        cases same
        exact absurd (by simp) absent
  · cases middle with
    | nil =>
      cases pattern with
      | nil => exact .inl (List.nil_infix)
      | cons first pattern =>
        cases same
        exact absurd List.mem_cons_self absent
    | cons first middle =>
      cases same
      exact .inr ⟨middle, after, by simp⟩

omit [DecidableEq α] in
theorem infix_join {pattern : List α} {parts : List (List α)} (some : pattern ≠ []) (absent : item ∉ pattern)
    (found : pattern <:+: join [item] parts) : ∃ part ∈ parts, pattern <:+: part := by
  induction parts with
  | nil => exact absurd (List.infix_nil.mp found) some
  | cons first later ih =>
    cases later with
    | nil => exact ⟨first, List.mem_cons_self, by simpa [join] using found⟩
    | cons second later =>
      have whole : join [item] (first :: second :: later) = first ++ item :: join [item] (second :: later) := by
        rw [join, List.intercalate_cons_cons, ← join]
        simp
      rw [whole] at found
      cases infix_append_cons absent found with
      | inl here => exact ⟨first, List.mem_cons_self, here⟩
      | inr here =>
        obtain ⟨part, member, inside⟩ := ih here
        exact ⟨part, .tail _ member, inside⟩

omit [DecidableEq α] in
theorem join_append {parts : List (List α)} (filled : parts ≠ []) : join [item] parts ++ [item] = parts.flatMap (· ++ [item]) := by
  induction parts with
  | nil => exact absurd rfl filled
  | cons first later ih =>
    cases later with
    | nil => simp [join]
    | cons second later =>
      rw [List.flatMap_cons, ← ih (List.cons_ne_nil _ _), join, List.intercalate_cons_cons, ← join]
      simp

omit [DecidableEq α] in
theorem infix_join_of_mem {part : List α} {parts : List (List α)} (member : part ∈ parts) : part <:+: join [item] parts := by
  induction parts with
  | nil => cases member
  | cons first later ih =>
    cases later with
    | nil =>
      rw [List.mem_singleton.mp member, join, List.intercalate_singleton]
    | cons second later =>
      rw [join, List.intercalate_cons_cons, ← join]
      cases member with
      | head => exact (List.prefix_append _ _).isInfix.trans (List.prefix_append _ _).isInfix
      | tail _ member => exact (ih member).trans (List.suffix_append _ _).isInfix

theorem infix_of_split {text part : List α} (found : part ∈ split [item] text) : part <:+: text := by
  have inside : part <:+: join [item] (split [item] text) := infix_join_of_mem found
  rwa [join_split (List.cons_ne_nil _ _)] at inside

omit [DecidableEq α] in
theorem length_join_le {parts others : List (List α)} (fewer : parts.Subperm others) :
    (join [item] parts).length ≤ (join [item] others).length := by
  cases parts with
  | nil => exact Nat.zero_le _
  | cons first later =>
    obtain ⟨kept, perm, sublist⟩ := fewer
    have some : others ≠ [] := by
      intro none
      rw [none, List.sublist_nil] at sublist
      rw [sublist] at perm
      exact List.cons_ne_nil _ _ perm.symm.eq_nil
    have whole : (join [item] others ++ [item]).length = _ := congrArg List.length (join_append some)
    have own : (join [item] (first :: later) ++ [item]).length = _ := congrArg List.length (join_append (List.cons_ne_nil _ _))
    have same := (perm.flatMap_right (· ++ [item])).length_eq
    have shorter := (sublist.flatMap (· ++ [item])).length_le
    rw [List.length_append, List.length_singleton] at whole own
    omega

end AgentSaas.Splitting
