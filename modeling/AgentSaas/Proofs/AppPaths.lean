import AgentSaas.AppContract.Paths
import AgentSaas.Outcomes
import AgentSaas.Sorting

/-! A path that is normalised stays as it is, and keeps its parameters but the reserved ones. A
path that is matched with a prefix lies under it. -/

namespace AgentSaas.Proofs.AppPaths
open AgentSaas.AppContract AgentSaas.AppContract.Paths Splitting Outcomes
open ToolCallRepair (Text unit units isSpace)

def Forbidden (pattern : Text) : Prop :=
  pattern ∈ [units "\\", units "//", units ".."] ++ PERCENT_SEPARATORS ∨ ∃ char, isSpace char = true ∧ pattern = [char]

structure Accepted (path : Text) : Prop where
  absolute : units "/" <+: path
  short : path.length ≤ APP_PATH_MAX_LENGTH
  clean : ∀ pattern, Forbidden pattern → ¬ pattern <:+: path

theorem hasPercentSeparator_iff {path : Text} : hasPercentSeparator path = true ↔ ∃ pattern ∈ PERCENT_SEPARATORS, pattern <:+: path := by
  simp only [hasPercentSeparator, List.any_eq_true, decide_eq_true_eq]

theorem infix_unit {char : Nat} {path : Text} : [char] <:+: path ↔ char ∈ path := by
  constructor
  · exact fun inside => inside.subset List.mem_cons_self
  · intro member
    obtain ⟨before, after, rfl⟩ := List.append_of_mem member
    exact ⟨before, after, by simp⟩

theorem hasScheme_absolute {path : Text} (absolute : units "/" <+: path) : hasScheme path = false := by
  obtain ⟨rest, rfl⟩ := absolute
  rfl

theorem checkAppPath_ok_iff {path : Text} : checkAppPath path = .ok () ↔ Accepted path := by
  constructor
  · intro returned
    unfold checkAppPath at returned
    obtain ⟨_, returned⟩ := of_ok_check returned
    obtain ⟨short, returned⟩ := of_ok_check returned
    obtain ⟨_, returned⟩ := of_ok_check returned
    obtain ⟨backslash, returned⟩ := of_ok_check returned
    obtain ⟨whitespace, returned⟩ := of_ok_check returned
    obtain ⟨absolute, returned⟩ := of_ok_check returned
    obtain ⟨slashes, returned⟩ := of_ok_check returned
    obtain ⟨dots, returned⟩ := of_ok_check returned
    have percent := ok_iff_check.mp returned
    refine ⟨Decidable.not_not.mp absolute, Nat.le_of_not_lt short, fun pattern forbidden found => ?_⟩
    rcases forbidden with listed | ⟨char, space, rfl⟩
    · rw [List.mem_append] at listed
      rcases listed with listed | listed
      · simp only [List.mem_cons, List.not_mem_nil, or_false] at listed
        rcases listed with rfl | rfl | rfl
        · exact backslash found
        · exact slashes found
        · exact dots found
      · exact percent (hasPercentSeparator_iff.mpr ⟨pattern, listed, found⟩)
    · exact whitespace (List.any_eq_true.mpr ⟨char, infix_unit.mp found, space⟩)
  · intro accepted
    have some : ¬ path.length = 0 := by
      obtain ⟨rest, rfl⟩ := accepted.absolute
      exact Nat.succ_ne_zero _
    have plain : ¬ hasScheme path = true := by simp [hasScheme_absolute accepted.absolute]
    have backslash : ¬ units "\\" <:+: path := accepted.clean _ (.inl (by simp))
    have slashes : ¬ units "//" <:+: path := accepted.clean _ (.inl (by simp))
    have dots : ¬ units ".." <:+: path := accepted.clean _ (.inl (by simp))
    have whitespace : ¬ path.any isSpace = true := by
      intro found
      obtain ⟨char, member, space⟩ := List.any_eq_true.mp found
      exact accepted.clean _ (.inr ⟨char, space, rfl⟩) (infix_unit.mpr member)
    have percent : ¬ hasPercentSeparator path = true := by
      rw [hasPercentSeparator_iff]
      rintro ⟨pattern, listed, found⟩
      exact accepted.clean pattern (.inl (List.mem_append_right _ listed)) found
    unfold checkAppPath
    rw [if_neg some, if_neg (Nat.not_lt.mpr accepted.short), if_neg plain, if_neg backslash, if_neg whitespace,
      if_neg (not_not_intro accepted.absolute), if_neg slashes, if_neg dots, if_neg percent]
    rfl

def assemble (pathname query hash : Text) : Text := pathname ++ ((if query = [] then [] else unit '?' :: query) ++ hash)

theorem normalizeAppPath_ok_iff {path result : Text} : normalizeAppPath path = .ok result ↔
    Accepted path ∧ result = assemble (trimPathname (pathnameOf path)) (normalizeQuery (rawQueryOf path)) (hashOf path) := by
  unfold normalizeAppPath
  constructor
  · intro returned
    obtain ⟨_, checked, returned⟩ := of_ok_bind returned
    cases returned
    exact ⟨checkAppPath_ok_iff.mp checked, rfl⟩
  · rintro ⟨accepted, rfl⟩
    rw [checkAppPath_ok_iff.mpr accepted]
    rfl

/-! Cutting a text at the first occurrence of a unit. -/

variable {char : Nat} {front back : Text}

theorem takeWhile_cut (absent : char ∉ front) (opens : ∀ next ∈ back.head?, next = char) :
    (front ++ back).takeWhile (· ≠ char) = front := by
  have apart : ∀ next ∈ front, decide (next ≠ char) = true := fun next inside => decide_eq_true (ne_of_mem_of_not_mem inside absent)
  rw [List.takeWhile_append_of_pos apart]
  cases back with
  | nil => simp
  | cons next back => simp [opens next rfl]

theorem dropWhile_cut (absent : char ∉ front) (opens : ∀ next ∈ back.head?, next = char) :
    (front ++ back).dropWhile (· ≠ char) = back := by
  have apart : ∀ next ∈ front, decide (next ≠ char) = true := fun next inside => decide_eq_true (ne_of_mem_of_not_mem inside absent)
  rw [List.dropWhile_append_of_pos apart]
  cases back with
  | nil => rfl
  | cons next back => simp [opens next rfl]

theorem absent_takeWhile (char : Nat) (text : Text) : char ∉ text.takeWhile (· ≠ char) := fun inside => by
  simpa using List.mem_takeWhile_imp inside

theorem dropWhile_opens (char : Nat) (text : Text) : ∀ next ∈ (text.dropWhile (· ≠ char)).head?, next = char := by
  intro next found
  have failed := List.head?_dropWhile_not (· ≠ char) text
  rw [Option.mem_def.mp found] at failed
  simpa using failed

def queryPart (query : Text) : Text := if query = [] then [] else unit '?' :: query

theorem queryPart_opens (query : Text) : ∀ next ∈ (queryPart query).head?, next = unit '?' := by
  unfold queryPart
  split
  · intro next found
    cases found
  · intro next found
    cases found
    rfl

theorem drop_queryPart (query : Text) : (queryPart query).drop 1 = query := by
  unfold queryPart
  split
  next none => exact none.symm
  next => rfl

theorem mem_queryPart {query : Text} (inside : char ∈ queryPart query) : char = unit '?' ∨ char ∈ query := by
  unfold queryPart at inside
  split at inside
  next => cases inside
  next => exact List.mem_cons.mp inside

section Parts
variable {pathname query hash : Text} (bare : unit '#' ∉ pathname) (unasked : unit '?' ∉ pathname) (closed : unit '#' ∉ query)
  (opens : ∀ next ∈ hash.head?, next = unit '#')
include bare closed opens

theorem withoutHash_assemble : withoutHash (assemble pathname query hash) = pathname ++ queryPart query := by
  have absent : unit '#' ∉ pathname ++ queryPart query := by
    intro inside
    cases List.mem_append.mp inside with
    | inl inside => exact bare inside
    | inr inside =>
      cases mem_queryPart inside with
      | inl same => exact absurd same (by decide)
      | inr inside => exact closed inside
  have cut := takeWhile_cut absent opens
  rwa [List.append_assoc] at cut

theorem hashOf_assemble : hashOf (assemble pathname query hash) = hash := by
  have absent : unit '#' ∉ pathname ++ queryPart query := by
    rw [← withoutHash_assemble bare closed opens]
    exact absent_takeWhile _ _
  have cut := dropWhile_cut absent opens
  rwa [List.append_assoc] at cut

include unasked

theorem pathnameOf_assemble : pathnameOf (assemble pathname query hash) = pathname := by
  rw [pathnameOf, withoutHash_assemble bare closed opens]
  exact takeWhile_cut unasked (queryPart_opens query)

theorem rawQueryOf_assemble : rawQueryOf (assemble pathname query hash) = query := by
  rw [rawQueryOf, withoutHash_assemble bare closed opens, dropWhile_cut unasked (queryPart_opens query), drop_queryPart]

end Parts

theorem parts_of_path (path : Text) : ∃ asked : Text, asked.drop 1 = rawQueryOf path ∧ (∀ next ∈ asked.head?, next = unit '?') ∧
    path = pathnameOf path ++ (asked ++ hashOf path) := by
  refine ⟨(withoutHash path).dropWhile (· ≠ unit '?'), rfl, dropWhile_opens _ _, ?_⟩
  rw [pathnameOf, ← List.append_assoc, List.takeWhile_append_dropWhile, withoutHash, hashOf, List.takeWhile_append_dropWhile]

theorem bare_pathname (path : Text) : unit '#' ∉ pathnameOf path := fun inside =>
  absent_takeWhile _ _ ((List.takeWhile_prefix _).subset inside)

theorem unasked_pathname (path : Text) : unit '?' ∉ pathnameOf path := absent_takeWhile _ _

theorem closed_rawQuery (path : Text) : unit '#' ∉ rawQueryOf path := fun inside =>
  absent_takeWhile _ _ ((List.dropWhile_suffix _).subset ((List.drop_suffix _ _).subset inside))

theorem hash_opens (path : Text) : ∀ next ∈ (hashOf path).head?, next = unit '#' := dropWhile_opens _ _

/-- A part that becomes an entry. -/
def counted (part : Text) : Bool := part ≠ [] && !isReserved part

theorem queryEntries_raw (order : Nat) (parts : List Text) : (queryEntries order parts).map (·.raw) = parts.filter counted := by
  induction parts generalizing order with
  | nil => rfl
  | cons part parts ih =>
    rw [queryEntries]
    split
    next none => rw [ih, List.filter_cons_of_neg (by simp [counted, none])]
    next some =>
      split
      next reserved => rw [ih, List.filter_cons_of_neg (by simp [counted, reserved])]
      next plain => rw [List.map_cons, ih, List.filter_cons_of_pos (by simp [counted, some, plain])]

theorem queryEntries_key {order : Nat} {parts : List Text} {entry : QueryEntry} (member : entry ∈ queryEntries order parts) :
    entry.key = keyOf entry.raw := by
  induction parts generalizing order with
  | nil => cases member
  | cons part parts ih =>
    rw [queryEntries] at member
    split at member
    · exact ih member
    · split at member
      · exact ih member
      · cases member with
        | head => rfl
        | tail _ later => exact ih later

theorem le_order {order : Nat} {parts : List Text} {entry : QueryEntry} (member : entry ∈ queryEntries order parts) :
    order ≤ entry.order := by
  induction parts generalizing order with
  | nil => cases member
  | cons part parts ih =>
    rw [queryEntries] at member
    split at member
    · exact ih member
    · split at member
      · exact ih member
      · cases member with
        | head => exact Nat.le_refl _
        | tail _ later => exact Nat.le_of_succ_le (ih later)

theorem le_iff {left right : QueryEntry} : left.le right ↔ left.key < right.key ∨ left.key = right.key ∧ left.order ≤ right.order := by
  unfold QueryEntry.le
  rcases lt_trichotomy left.key right.key with before | same | after
  · simp [before]
  · simp [same]
  · simp [after, after.not_gt, after.ne']

instance : IsTrans QueryEntry QueryEntry.le where
  trans first second third before after := by
    rw [le_iff] at before after ⊢
    rcases before with before | ⟨same, before⟩
    · rcases after with after | ⟨equal, _⟩
      · exact .inl (before.trans after)
      · exact .inl (equal ▸ before)
    · rcases after with after | ⟨equal, after⟩
      · exact .inl (same ▸ after)
      · exact .inr ⟨same.trans equal, before.trans after⟩

instance : Std.Total QueryEntry.le where
  total left right := by
    rw [le_iff, le_iff]
    rcases lt_trichotomy left.key right.key with before | same | after
    · exact .inl (.inl before)
    · cases Nat.le_total left.order right.order with
      | inl below => exact .inl (.inr ⟨same, below⟩)
      | inr above => exact .inr (.inr ⟨same.symm, above⟩)
    · exact .inr (.inl after)

theorem queryEntries_sorted {parts : List Text} (sorted : (parts.filter counted).Pairwise (keyOf · ≤ keyOf ·)) (order : Nat) :
    (queryEntries order parts).Pairwise QueryEntry.le := by
  induction parts generalizing order with
  | nil => exact .nil
  | cons part parts ih =>
    rw [queryEntries]
    split
    next none => exact ih (by rwa [List.filter_cons_of_neg (by simp [counted, none])] at sorted) order
    next some =>
      split
      next reserved => exact ih (by rwa [List.filter_cons_of_neg (by simp [counted, reserved])] at sorted) order
      next plain =>
        rw [List.filter_cons_of_pos (by simp [counted, some, plain]), List.pairwise_cons] at sorted
        refine List.pairwise_cons.mpr ⟨fun entry member => le_iff.mpr ?_, ih sorted.2 (order + 1)⟩
        have raw : entry.raw ∈ parts.filter counted := queryEntries_raw (order + 1) parts ▸ List.mem_map_of_mem member
        have below := sorted.1 entry.raw raw
        rw [← queryEntries_key member] at below
        cases below.lt_or_eq with
        | inl before => exact .inl before
        | inr same => exact .inr ⟨same, Nat.le_of_succ_le (le_order member)⟩

theorem pairwise_of_key {order : Nat} {parts : List Text} (key : Text) :
    ((queryEntries order parts).filter fun entry => entry.key = key).Pairwise QueryEntry.le := by
  induction parts generalizing order with
  | nil => exact .nil
  | cons part parts ih =>
    rw [queryEntries]
    split
    · exact ih
    · split
      · exact ih
      · by_cases same : keyOf part = key
        · rw [List.filter_cons_of_pos (by simpa using same)]
          refine List.pairwise_cons.mpr ⟨fun entry member => le_iff.mpr (.inr ?_), ih⟩
          obtain ⟨member, equal⟩ := List.mem_filter.mp member
          exact ⟨same.trans (of_decide_eq_true equal).symm, Nat.le_of_succ_le (le_order member)⟩
        · rw [List.filter_cons_of_neg (by simpa using same)]
          exact ih

def parametersOf (query : Text) : List Text := (split (units "&") query).filter (· ≠ [])

/-- The parts of a query that is normalised. -/
def ordered (query : Text) : List Text :=
  ((queryEntries 0 (split (units "&") query)).insertionSort QueryEntry.le).map (·.raw)

theorem normalizeQuery_eq (query : Text) : normalizeQuery query = join (units "&") (ordered query) := by
  unfold normalizeQuery
  split
  next none =>
    rw [none]
    rfl
  next => rfl

theorem ordered_perm (query : Text) : (ordered query).Perm ((split (units "&") query).filter counted) := by
  rw [← queryEntries_raw 0]
  exact (List.perm_insertionSort _ _).map _

theorem counted_of_ordered {query part : Text} (member : part ∈ ordered query) :
    part ∈ split (units "&") query ∧ part ≠ [] ∧ isReserved part = false := by
  obtain ⟨inside, kept⟩ := List.mem_filter.mp ((ordered_perm query).mem_iff.mp member)
  simpa [counted, inside] using kept

theorem ordered_sorted (query : Text) : (ordered query).Pairwise (keyOf · ≤ keyOf ·) := by
  refine List.pairwise_map.mpr ((List.pairwise_insertionSort QueryEntry.le _).imp_of_mem fun first second related => ?_)
  rw [← queryEntries_key ((List.mem_insertionSort _).mp first), ← queryEntries_key ((List.mem_insertionSort _).mp second)]
  rcases le_iff.mp related with before | ⟨same, _⟩
  · exact before.le
  · exact same.le

theorem ordered_key (query key : Text) : (ordered query).filter (keyOf · = key) =
    ((split (units "&") query).filter counted).filter (keyOf · = key) := by
  have own : ∀ entry ∈ queryEntries 0 (split (units "&") query), decide (keyOf entry.raw = key) = decide (entry.key = key) :=
    fun entry member => by rw [queryEntries_key member]
  have sorted : (queryEntries 0 (split (units "&") query)).insertionSort QueryEntry.le ⊆ queryEntries 0 (split (units "&") query) :=
    (List.perm_insertionSort _ _).subset
  rw [← queryEntries_raw 0, ordered, List.filter_map, List.filter_map]
  simp only [Function.comp_def]
  rw [List.filter_congr fun entry member => own entry (sorted member), List.filter_congr own, Sorting.filter_insertionSort,
    (pairwise_of_key key).insertionSort_eq]

theorem split_normalizeQuery (query : Text) (some : ordered query ≠ []) : split (units "&") (normalizeQuery query) = ordered query := by
  rw [normalizeQuery_eq]
  exact split_join some fun part member => absent_of_split (counted_of_ordered member).1

theorem parametersOf_normalizeQuery (query : Text) : parametersOf (normalizeQuery query) = ordered query := by
  by_cases none : ordered query = []
  · rw [normalizeQuery_eq, none]
    rfl
  · rw [parametersOf, split_normalizeQuery query none]
    exact List.filter_eq_self.mpr fun part member => decide_eq_true (counted_of_ordered member).2.1

theorem normalizeQuery_again (query : Text) : normalizeQuery (normalizeQuery query) = normalizeQuery query := by
  by_cases none : ordered query = []
  · rw [normalizeQuery_eq query, none]
    rfl
  · have kept : (ordered query).filter counted = ordered query :=
      List.filter_eq_self.mpr fun part member => by simp [counted, (counted_of_ordered member).2]
    have sorted : (queryEntries 0 (ordered query)).Pairwise QueryEntry.le := queryEntries_sorted (kept.symm ▸ ordered_sorted query) 0
    rw [normalizeQuery_eq (normalizeQuery query), ordered, split_normalizeQuery query none, sorted.insertionSort_eq, queryEntries_raw,
      kept, normalizeQuery_eq]

theorem length_normalizeQuery_le (query : Text) : (normalizeQuery query).length ≤ query.length := by
  have fewer : (ordered query).Subperm (split (units "&") query) := (ordered_perm query).subperm.trans List.filter_sublist.subperm
  have shorter : (join (units "&") (ordered query)).length ≤ (join (units "&") (split (units "&") query)).length := length_join_le fewer
  have whole : join (units "&") (split (units "&") query) = query := join_split (List.cons_ne_nil _ _) query
  rwa [← normalizeQuery_eq, whole] at shorter

theorem infix_normalizeQuery {pattern query : Text} (some : pattern ≠ []) (absent : unit '&' ∉ pattern)
    (found : pattern <:+: normalizeQuery query) : pattern <:+: query := by
  rw [normalizeQuery_eq] at found
  obtain ⟨part, member, inside⟩ := infix_join some absent found
  exact inside.trans (infix_of_split (counted_of_ordered member).1)

theorem trimPathname_prefix {pathname : Text} (absolute : units "/" <+: pathname) : trimPathname pathname <+: pathname := by
  unfold trimPathname
  dsimp only
  split
  next slashed =>
    rw [if_neg (by rw [List.length_dropLast]; omega)]
    exact List.dropLast_prefix _
  next =>
    have some : ¬ pathname.length = 0 := by
      have shorter := absolute.length_le
      have one : (units "/").length = 1 := rfl
      omega
    rw [if_neg some]

theorem trimPathname_absolute {pathname : Text} (absolute : units "/" <+: pathname) : units "/" <+: trimPathname pathname := by
  obtain ⟨rest, rfl⟩ := absolute
  unfold trimPathname
  dsimp only
  split
  next slashed =>
    cases rest with
    | nil => exact absurd slashed.1 (by decide)
    | cons next rest => exact ⟨(next :: rest).dropLast, rfl⟩
  next => exact ⟨rest, rfl⟩

theorem trimPathname_again {pathname : Text} (single : ¬ units "//" <:+: pathname) :
    trimPathname (trimPathname pathname) = trimPathname pathname := by
  have settled : ∀ trimmed : Text, ¬ (1 < trimmed.length ∧ units "/" <:+ trimmed) → trimmed.length ≠ 0 → trimPathname trimmed = trimmed := by
    intro trimmed bare some
    rw [trimPathname, if_neg bare, if_neg some]
  by_cases slashed : 1 < pathname.length ∧ units "/" <:+ pathname
  · obtain ⟨long, front, rfl⟩ := slashed
    have trimmed : trimPathname (front ++ units "/") = front := by
      have last : (front ++ units "/").dropLast = front := List.dropLast_concat
      have some : ¬ front.length = 0 := by
        have whole : (front ++ units "/").length = front.length + 1 := List.length_append
        omega
      have slashed : 1 < (front ++ units "/").length ∧ units "/" <:+ front ++ units "/" := ⟨long, List.suffix_append _ _⟩
      rw [trimPathname, if_pos slashed, last, if_neg some]
    rw [trimmed]
    apply settled
    · rintro ⟨_, start, rfl⟩
      exact single ⟨start, [], by simp [units]⟩
    · have whole : (front ++ units "/").length = front.length + 1 := List.length_append
      omega
  · by_cases none : pathname.length = 0
    · rw [List.length_eq_zero_iff.mp none]
      rfl
    · rw [settled pathname slashed none]
      exact settled pathname slashed none

theorem Forbidden.closed {pattern : Text} (forbidden : Forbidden pattern) :
    pattern ≠ [] ∧ unit '#' ∉ pattern ∧ unit '?' ∉ pattern ∧ unit '&' ∉ pattern := by
  rcases forbidden with listed | ⟨char, space, rfl⟩
  · have all : ∀ pattern ∈ [units "\\", units "//", units ".."] ++ PERCENT_SEPARATORS,
        pattern ≠ [] ∧ unit '#' ∉ pattern ∧ unit '?' ∉ pattern ∧ unit '&' ∉ pattern := by decide
    exact all pattern listed
  · have other : ∀ plain, isSpace plain = false → plain ∉ [char] := by
      intro plain own member
      rw [List.mem_singleton.mp member, space] at own
      cases own
    exact ⟨List.cons_ne_nil _ _, other _ (by decide), other _ (by decide), other _ (by decide)⟩

/-- What lies in a text that goes on with a unit it does not hold lies in one of the two. -/
theorem infix_opened {pattern front back : Text} (absent : char ∉ pattern) (opens : ∀ next ∈ back.head?, next = char)
    (found : pattern <:+: front ++ back) : pattern <:+: front ∨ pattern <:+: back.drop 1 := by
  cases back with
  | nil => exact .inl (by rwa [List.append_nil] at found)
  | cons next back =>
    rw [opens next rfl] at found
    exact infix_append_cons absent found

theorem infix_assemble {pattern pathname query hash : Text} (forbidden : Forbidden pattern) (opens : ∀ next ∈ hash.head?, next = unit '#')
    (found : pattern <:+: assemble pathname query hash) : pattern <:+: pathname ∨ pattern <:+: query ∨ pattern <:+: hash := by
  obtain ⟨_, unhashed, unasked, _⟩ := forbidden.closed
  rw [assemble, ← queryPart, ← List.append_assoc] at found
  cases infix_opened unhashed opens found with
  | inr inside => exact .inr (.inr (inside.trans (List.drop_suffix _ _).isInfix))
  | inl inside =>
    cases infix_opened unasked (queryPart_opens query) inside with
    | inl inside => exact .inl inside
    | inr inside => exact .inr (.inl (drop_queryPart query ▸ inside))

section Accepting
variable {path : Text} (accepted : Accepted path)
include accepted

theorem pathname_absolute : units "/" <+: pathnameOf path := by
  obtain ⟨rest, rfl⟩ := accepted.absolute
  exact ⟨_, rfl⟩

theorem accepted_normalized :
    Accepted (assemble (trimPathname (pathnameOf path)) (normalizeQuery (rawQueryOf path)) (hashOf path)) := by
  obtain ⟨asked, query, _, whole⟩ := parts_of_path path
  have absolute := pathname_absolute accepted
  have trimmed := trimPathname_prefix absolute
  refine ⟨(trimPathname_absolute absolute).trans (List.prefix_append _ _), ?_, fun pattern forbidden found => ?_⟩
  · have size := congrArg List.length whole
    have asked_length := congrArg List.length query
    have shorter := trimmed.length_le
    have fewer := length_normalizeQuery_le (rawQueryOf path)
    have short := accepted.short
    have part : (queryPart (normalizeQuery (rawQueryOf path))).length ≤ asked.length := by
      unfold queryPart
      split
      next => exact Nat.zero_le _
      next some =>
        have positive := List.length_pos_iff.mpr some
        rw [List.length_drop] at asked_length
        rw [List.length_cons]
        omega
    rw [assemble, ← queryPart, List.length_append, List.length_append]
    rw [List.length_append, List.length_append] at size
    omega
  · have inside : pattern <:+: pathnameOf path ∨ pattern <:+: rawQueryOf path ∨ pattern <:+: hashOf path := by
      rcases infix_assemble forbidden (hash_opens path) found with here | here | here
      · exact .inl (here.trans trimmed.isInfix)
      · exact .inr (.inl (infix_normalizeQuery forbidden.closed.1 forbidden.closed.2.2.2 here))
      · exact .inr (.inr here)
    apply accepted.clean pattern forbidden
    rw [whole, ← List.append_assoc]
    rcases inside with here | here | here
    · exact here.trans ((List.prefix_append _ _).isInfix.trans (List.prefix_append _ _).isInfix)
    · have later : rawQueryOf path <:+: asked := query ▸ (List.drop_suffix _ _).isInfix
      exact here.trans (later.trans ((List.suffix_append _ _).isInfix.trans (List.prefix_append _ _).isInfix))
    · exact here.trans (List.suffix_append _ _).isInfix

theorem normalized_again :
    normalizeAppPath (assemble (trimPathname (pathnameOf path)) (normalizeQuery (rawQueryOf path)) (hashOf path)) =
      .ok (assemble (trimPathname (pathnameOf path)) (normalizeQuery (rawQueryOf path)) (hashOf path)) := by
  have trimmed := trimPathname_prefix (pathname_absolute accepted)
  have bare : unit '#' ∉ trimPathname (pathnameOf path) := fun inside => bare_pathname path (trimmed.subset inside)
  have unasked : unit '?' ∉ trimPathname (pathnameOf path) := fun inside => unasked_pathname path (trimmed.subset inside)
  have closed : unit '#' ∉ normalizeQuery (rawQueryOf path) := fun inside =>
    closed_rawQuery path (infix_unit.mp (infix_normalizeQuery (List.cons_ne_nil _ _) (by decide) (infix_unit.mpr inside)))
  have single : ¬ units "//" <:+: pathnameOf path := by
    intro found
    obtain ⟨asked, _, _, whole⟩ := parts_of_path path
    apply accepted.clean (units "//") (.inl (by simp))
    rw [whole]
    exact found.trans (List.prefix_append _ _).isInfix
  apply normalizeAppPath_ok_iff.mpr ⟨accepted_normalized accepted, ?_⟩
  rw [pathnameOf_assemble bare unasked closed (hash_opens path), rawQueryOf_assemble bare unasked closed (hash_opens path),
    hashOf_assemble bare closed (hash_opens path), trimPathname_again single, normalizeQuery_again]

theorem rawQuery_normalized :
    rawQueryOf (assemble (trimPathname (pathnameOf path)) (normalizeQuery (rawQueryOf path)) (hashOf path)) =
      normalizeQuery (rawQueryOf path) := by
  have trimmed := trimPathname_prefix (pathname_absolute accepted)
  have closed : unit '#' ∉ normalizeQuery (rawQueryOf path) := fun inside =>
    closed_rawQuery path (infix_unit.mp (infix_normalizeQuery (List.cons_ne_nil _ _) (by decide) (infix_unit.mpr inside)))
  exact rawQueryOf_assemble (fun inside => bare_pathname path (trimmed.subset inside))
    (fun inside => unasked_pathname path (trimmed.subset inside)) closed (hash_opens path)

end Accepting

/-- What normalising makes of a path. -/
structure Normalized (path result : Text) : Prop where
  again : normalizeAppPath result = .ok result
  clean : ∀ pattern, Forbidden pattern → ¬ pattern <:+: result
  unreserved : ∀ part ∈ parametersOf (rawQueryOf result), isReserved part = false
  kept : (parametersOf (rawQueryOf result)).Perm ((parametersOf (rawQueryOf path)).filter (!isReserved ·))
  order : ∀ key, (parametersOf (rawQueryOf result)).filter (keyOf · = key) =
    ((parametersOf (rawQueryOf path)).filter (!isReserved ·)).filter (keyOf · = key)

theorem filter_counted (query : Text) :
    (split (units "&") query).filter counted = (parametersOf query).filter (!isReserved ·) := by
  rw [parametersOf, List.filter_filter]
  exact List.filter_congr fun part _ => Bool.and_comm ..

theorem normalized_of_ok {path result : Text} (returned : normalizeAppPath path = .ok result) : Normalized path result := by
  obtain ⟨accepted, rfl⟩ := normalizeAppPath_ok_iff.mp returned
  have query := congrArg parametersOf (rawQuery_normalized accepted)
  rw [parametersOf_normalizeQuery] at query
  constructor
  · exact normalized_again accepted
  · exact (accepted_normalized accepted).clean
  · rw [query]
    exact fun part member => (counted_of_ordered member).2.2
  · rw [query, ← filter_counted]
    exact ordered_perm _
  · intro key
    rw [query, ← filter_counted]
    exact ordered_key _ key

theorem split_slash (rest : Text) : split (units "/") (unit '/' :: rest) = [] :: split (units "/") rest := split_same rest

theorem split_plain {first : Nat} (other : first ≠ unit '/') (rest : Text) :
    split (units "/") (first :: rest) = (split (units "/") rest).modifyHead (first :: ·) := split_other other rest

theorem mergeSlashes_parts (text : Text) : ∃ (first : Text) (later merged : List Text),
    split (units "/") text = first :: later ∧ split (units "/") (mergeSlashes text) = first :: merged ∧
      later.filter (· ≠ []) = merged.filter (· ≠ []) := by
  fun_induction mergeSlashes text with
  | case1 => exact ⟨[], [], [], rfl, rfl, rfl⟩
  | case2 char =>
    cases parts : split (units "/") [char] with
    | nil => exact absurd parts (split_ne_nil (List.cons_ne_nil _ _) _)
    | cons first later => exact ⟨first, later, later, rfl, rfl, rfl⟩
  | case3 first second rest both ih =>
    obtain ⟨rfl, rfl⟩ := both
    obtain ⟨head, later, merged, own, after, same⟩ := ih
    rw [split_slash] at own
    cases own
    refine ⟨[], _, merged, split_slash _, after, ?_⟩
    rw [split_slash, ← same]
    rfl
  | case4 first second rest apart ih =>
    obtain ⟨head, later, merged, own, after, same⟩ := ih
    by_cases slash : first = unit '/'
    · rw [slash]
      refine ⟨[], _, _, split_slash _, split_slash _, ?_⟩
      rw [own, after, List.filter_cons, List.filter_cons, same]
    · rw [split_plain slash, split_plain slash, own, after]
      exact ⟨first :: head, later, merged, rfl, rfl, same⟩

/-- The segments of a path. -/
def segments (path : Text) : List Text := (split (units "/") path).filter (· ≠ [])

theorem segments_mergeSlashes (text : Text) : segments (mergeSlashes text) = segments text := by
  obtain ⟨first, later, merged, own, after, same⟩ := mergeSlashes_parts text
  rw [segments, segments, own, after, List.filter_cons, List.filter_cons, same]

theorem normalizePathname_ok {pathname merged : Text} (returned : normalizePathname pathname = .ok merged) :
    ∃ decoded, decodeURIComponent pathname = some decoded ∧ merged = mergeSlashes decoded ∧ units ".." ∉ segments decoded := by
  unfold normalizePathname at returned
  obtain ⟨_, returned⟩ := of_ok_check returned
  obtain ⟨_, returned⟩ := of_ok_check returned
  cases decodes : decodeURIComponent pathname with
  | none =>
    rw [decodes] at returned
    cases returned
  | some decoded =>
    rw [decodes] at returned
    obtain ⟨_, returned⟩ := of_ok_check returned
    obtain ⟨_, returned⟩ := of_ok_check returned
    obtain ⟨_, returned⟩ := of_ok_check returned
    obtain ⟨dots, returned⟩ := of_ok_check returned
    cases returned
    refine ⟨decoded, rfl, rfl, fun member => ?_⟩
    rw [← segments_mergeSlashes] at member
    exact dots (List.contains_iff_mem.mpr (List.mem_of_mem_filter member))

/-- The segments of the decoded path begin with those of the prefix, and none goes up. -/
structure Under (decoded merged path : Text) : Prop where
  same : segments merged = segments decoded
  starts : path <+: merged
  under : segments path <+: segments decoded
  whole : (split (units "/") path).dropLast <+: split (units "/") merged
  below : units ".." ∉ segments decoded

theorem under_of_match {pathname : Text} {prefixes : List Text} (accepted : matchPathPrefix pathname prefixes = true) :
    ∃ decoded merged, decodeURIComponent pathname = some decoded ∧ normalizePathname pathname = .ok merged ∧
      ∃ path ∈ prefixes, isPathPrefix path = true ∧ Under decoded merged path := by
  unfold matchPathPrefix at accepted
  split at accepted
  next => cases accepted
  next merged returned =>
    obtain ⟨decoded, decodes, rfl, dots⟩ := normalizePathname_ok returned
    obtain ⟨path, member, found⟩ := List.any_eq_true.mp accepted
    rw [isSegmentPrefix, Bool.and_eq_true, decide_eq_true_eq] at found
    obtain ⟨isPrefix, rest, starts⟩ := found
    refine ⟨decoded, _, decodes, returned, path, member, isPrefix, ?_⟩
    have ends : units "/" <:+ path := by
      simp only [isPathPrefix, Bool.and_eq_true, decide_eq_true_eq] at isPrefix
      exact isPrefix.1.2
    obtain ⟨front, rfl⟩ := ends
    have own : split (units "/") (front ++ units "/") = split (units "/") front ++ [[]] := split_append front []
    have whole : split (units "/") (mergeSlashes decoded) = split (units "/") front ++ split (units "/") rest := by
      rw [← starts, List.append_assoc]
      exact split_append front rest
    constructor
    · exact segments_mergeSlashes decoded
    · exact ⟨rest, starts⟩
    · rw [← segments_mergeSlashes decoded, segments, segments, own, whole, List.filter_append, List.filter_append]
      have empty : ([[]] : List Text).filter (· ≠ []) = [] := rfl
      rw [empty, List.append_nil]
      exact List.prefix_append _ _
    · rw [own, whole, List.dropLast_concat]
      exact List.prefix_append _ _
    · exact dots

/-- Normalising is done once and for all, and a prefix that matches leads the decoded path. -/
theorem paths_normalized_and_matched :
    (∀ path result, normalizeAppPath path = .ok result → Normalized path result) ∧
      ∀ pathname prefixes, matchPathPrefix pathname prefixes = true →
        ∃ decoded merged, decodeURIComponent pathname = some decoded ∧ normalizePathname pathname = .ok merged ∧
          ∃ path ∈ prefixes, isPathPrefix path = true ∧ Under decoded merged path :=
  ⟨fun _ _ => normalized_of_ok, fun _ _ => under_of_match⟩

theorem accepted_of {path : Text} (absolute : units "/" <+: path) (short : path.length ≤ APP_PATH_MAX_LENGTH)
    (listed : ∀ pattern ∈ [units "\\", units "//", units ".."] ++ PERCENT_SEPARATORS, ¬ pattern <:+: path)
    (plain : ∀ char ∈ path, isSpace char = false) : Accepted path := by
  refine ⟨absolute, short, fun pattern forbidden found => ?_⟩
  rcases forbidden with named | ⟨char, space, rfl⟩
  · exact listed pattern named found
  · rw [plain char (infix_unit.mp found)] at space
    cases space

def shown : Text := units "/a/?z=1&ky=2&a=3#x"

theorem accepted_shown : Accepted shown := by
  have length : shown.length = 18 := rfl
  have short : shown.length ≤ APP_PATH_MAX_LENGTH := by
    rw [length, APP_PATH_MAX_LENGTH]
    omega
  exact accepted_of ⟨_, rfl⟩ short (by decide) (by decide)

theorem normalize_shown : normalizeAppPath shown = .ok (units "/a?a=3&z=1#x") := by
  apply normalizeAppPath_ok_iff.mpr ⟨accepted_shown, ?_⟩
  decide

theorem match_shown : matchPathPrefix (units "/api//%41/b") [units "/app/", units "/api/"] = true := by decide +kernel

theorem paths_normalized_and_matched_shown :
    Normalized shown (units "/a?a=3&z=1#x") ∧
      ∃ decoded merged, decodeURIComponent (units "/api//%41/b") = some decoded ∧ normalizePathname (units "/api//%41/b") = .ok merged ∧
        ∃ path ∈ [units "/app/", units "/api/"], isPathPrefix path = true ∧ Under decoded merged path :=
  ⟨paths_normalized_and_matched.1 _ _ normalize_shown, paths_normalized_and_matched.2 _ _ match_shown⟩

/-! Control characters that are no white space stay, and so does a segment that is a dot. -/

def isControl (char : Nat) : Bool := char < 0x20 || (0x7F ≤ char && char < 0xA0)

theorem normalize_short {path : Text} (length : path.length ≤ 6) (absolute : units "/" <+: path)
    (listed : ∀ pattern ∈ [units "\\", units "//", units ".."] ++ PERCENT_SEPARATORS, ¬ pattern <:+: path)
    (plain : ∀ char ∈ path, isSpace char = false)
    (same : path = assemble (trimPathname (pathnameOf path)) (normalizeQuery (rawQueryOf path)) (hashOf path)) :
    normalizeAppPath path = .ok path := by
  have short : path.length ≤ APP_PATH_MAX_LENGTH := by
    rw [APP_PATH_MAX_LENGTH]
    omega
  exact normalizeAppPath_ok_iff.mpr ⟨accepted_of absolute short listed plain, same⟩

theorem controls_and_dots_refuted :
    ¬ (∀ path result, normalizeAppPath path = .ok result → ∀ char ∈ result, isControl char = false) ∧
      ¬ ∀ path result, normalizeAppPath path = .ok result → units "." ∉ segments (pathnameOf result) := by
  constructor
  · intro free
    have returned : normalizeAppPath [unit '/', 1] = .ok [unit '/', 1] :=
      normalize_short (by decide) (by decide) (by decide) (by decide) (by decide)
    exact absurd (free _ _ returned 1 (by decide)) (by decide)
  · intro free
    have returned : normalizeAppPath (units "/a/./b") = .ok (units "/a/./b") :=
      normalize_short (by decide) (by decide) (by decide) (by decide) (by decide)
    exact free _ _ returned (by decide)

end AgentSaas.Proofs.AppPaths
