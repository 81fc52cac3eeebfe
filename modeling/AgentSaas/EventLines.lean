import AgentSaas.ToolCallRepair.Text
import Mathlib.Data.List.Chain
import Mathlib.Data.List.DropRight

/-! The lines of a stream of events. Events are runs of lines that are not empty. A text may also
be cut wherever two characters of line breaks stand together, which is not always between events. -/

namespace AgentSaas.EventLines
open ToolCallRepair (Text unit)

def CR : Nat := unit '\r'
def LF : Nat := unit '\n'

def isBreak (char : Nat) : Bool := char = CR || char = LF

def linesFrom (line : Text) : Text → List Text
  | [] => [line]
  | [char] => if isBreak char then [line, []] else [line ++ [char]]
  | first :: second :: rest =>
    if first = CR ∧ second = LF then line :: linesFrom [] rest
    else if isBreak first then line :: linesFrom [] (second :: rest)
    else linesFrom (line ++ [first]) (second :: rest)

def lines (text : Text) : List Text := linesFrom [] text

def closed (run : List Text) : List (List Text) := if run.isEmpty then [] else [run]

def runsFrom (run : List Text) : List Text → List (List Text)
  | [] => closed run
  | line :: rest => if line.isEmpty then closed run ++ runsFrom [] rest else runsFrom (run ++ [line]) rest

/-- The maximal runs of lines that are not empty. -/
def runs (text : Text) : List (List Text) := runsFrom [] (lines text)

def trim (text : Text) : Text := (text.dropWhile isBreak).rdropWhile isBreak

def filled (block : Text) : List Text := if (trim block).isEmpty then [] else [trim block]

/-- The text is cut at the first two characters of breaks, and so on behind them. -/
def segmentsFrom (block : Text) : Text → List Text
  | [] => filled block
  | [char] => filled (block ++ [char])
  | first :: second :: rest =>
    if isBreak first && isBreak second then filled block ++ segmentsFrom [] rest else segmentsFrom (block ++ [first]) (second :: rest)

def segments (text : Text) : List Text := segmentsFrom [] text

abbrev Unbroken (text : Text) : Prop := text.IsChain fun first second => ¬ (isBreak first = true ∧ isBreak second = true)

def Ends (text : Text) : Prop := ∀ char ∈ text.getLast?, isBreak char = false

/-- Between two lines that are not empty there is one CRLF. -/
def Joined (text : Text) : Prop :=
  ∃ front first last rest, text = front ++ first :: CR :: LF :: last :: rest ∧ isBreak first = false ∧ isBreak last = false

theorem break_cases {char : Nat} (found : isBreak char = true) : char = CR ∨ char = LF := by
  simpa [isBreak] using found

theorem Ends.tail {char : Nat} {text : Text} (ends : Ends (char :: text)) : Ends text := by
  intro last found
  apply ends
  cases text with
  | nil => cases found
  | cons next rest => rwa [List.getLast?_cons_cons]

theorem tail_of_break {char : Nat} {text : Text} (unbroken : Unbroken (char :: text)) (ends : Ends (char :: text)) (found : isBreak char = true) :
    ∃ next rest, text = next :: rest ∧ isBreak next = false := by
  cases text with
  | nil =>
    have last := ends char rfl
    rw [found] at last
    cases last
  | cons next rest =>
    refine ⟨next, rest, rfl, Bool.eq_false_iff.mpr fun also => ?_⟩
    exact (List.isChain_cons_cons.mp unbroken).1 ⟨found, also⟩

section Lines

variable {line : Text}

theorem linesFrom_char {char : Nat} (other : isBreak char = false) (rest : Text) : linesFrom line (char :: rest) = linesFrom (line ++ [char]) rest := by
  cases rest with
  | nil =>
    have single : linesFrom line [char] = if isBreak char then [line, []] else [line ++ [char]] := by rw [linesFrom]
    rw [single, other, if_neg Bool.false_ne_true, linesFrom]
  | cons second rest =>
    rw [linesFrom, other, if_neg Bool.false_ne_true, if_neg]
    rintro ⟨rfl, _⟩
    cases other

def Opens (text behind : Text) : Prop := ∀ line, linesFrom line text = line :: lines behind

theorem opens_pair (rest : Text) : Opens (CR :: LF :: rest) rest := fun line => by rw [linesFrom, if_pos ⟨rfl, rfl⟩, lines]

theorem opens_single {char : Nat} {rest : Text} (found : isBreak char = true) (alone : ¬ (char = CR ∧ rest.head? = some LF)) :
    Opens (char :: rest) rest := by
  intro line
  cases rest with
  | nil =>
    rw [linesFrom, if_pos found]
    rfl
  | cons second rest =>
    rw [linesFrom, if_pos found, if_neg, lines]
    rintro ⟨carriage, rfl⟩
    exact alone ⟨carriage, rfl⟩

/-- What is behind the first break is all but one character of it, or two. -/
theorem opens_of_break {char : Nat} (found : isBreak char = true) (rest : Text) :
    ∃ behind, Opens (char :: rest) behind ∧ (behind = rest ∨ rest = LF :: behind) := by
  by_cases pair : char = CR ∧ rest.head? = some LF
  · obtain ⟨rfl, next⟩ := pair
    obtain ⟨behind, rfl⟩ := List.head?_eq_some_iff.mp next
    exact ⟨behind, opens_pair behind, .inr rfl⟩
  · exact ⟨rest, opens_single found pair, .inl rfl⟩

theorem linesFrom_block {block rest behind : Text} (unbroken : Unbroken block) (ends : Ends block) (opens : Opens rest behind) :
    linesFrom line (block ++ rest) = linesFrom line block ++ lines behind := by
  induction block generalizing line with
  | nil => exact opens line
  | cons char block ih =>
    have later (line : Text) := @ih line unbroken.tail ends.tail
    rw [List.cons_append]
    cases found : isBreak char with
    | false => rw [linesFrom_char found, linesFrom_char found, later]
    | true =>
      obtain ⟨next, others, rfl, visible⟩ := tail_of_break unbroken ends found
      have alone (text : Text) : ¬ (char = CR ∧ (next :: text).head? = some LF) := by
        rintro ⟨_, same⟩
        cases Option.some.inj same
        exact absurd visible (by decide)
      have first : linesFrom line (char :: next :: others) = line :: lines (next :: others) := opens_single found (alone others) line
      have second : linesFrom line (char :: (next :: others ++ rest)) = line :: lines (next :: others ++ rest) := opens_single found (alone _) line
      rw [first, second, lines, lines, later []]
      rfl

theorem linesFrom_filled {block : Text} (unbroken : Unbroken block) (ends : Ends block)
    (begins : line ≠ [] ∨ ∃ char rest, block = char :: rest ∧ isBreak char = false) : ∀ found ∈ linesFrom line block, found ≠ [] := by
  induction block generalizing line with
  | nil =>
    intro found member
    rw [linesFrom, List.mem_singleton] at member
    rcases begins with some | ⟨_, _, none, _⟩
    · exact member ▸ some
    · cases none
  | cons char block ih =>
    cases break_char : isBreak char with
    | false =>
      rw [linesFrom_char break_char]
      exact ih unbroken.tail ends.tail (.inl (by simp))
    | true =>
      obtain ⟨next, others, rfl, visible⟩ := tail_of_break unbroken ends break_char
      have own : line ≠ [] := by
        rcases begins with own | ⟨_, _, same, other⟩
        · exact own
        · cases same
          rw [break_char] at other
          cases other
      have alone : ¬ (char = CR ∧ (next :: others).head? = some LF) := by
        rintro ⟨_, same⟩
        cases Option.some.inj same
        exact absurd visible (by decide)
      rw [opens_single break_char alone line]
      exact List.forall_mem_cons.mpr ⟨own, ih unbroken.tail ends.tail (.inr ⟨next, others, rfl, visible⟩)⟩

end Lines

section Runs

variable {run : List Text}

theorem runsFrom_filled {found : List Text} (some : ∀ line ∈ found, line ≠ []) (rest : List Text) :
    runsFrom run (found ++ rest) = runsFrom (run ++ found) rest := by
  induction found generalizing run with
  | nil => rw [List.nil_append, List.append_nil]
  | cons line found ih =>
    obtain ⟨own, others⟩ := List.forall_mem_cons.mp some
    rw [List.cons_append, runsFrom, if_neg fun empty => own (List.isEmpty_iff.mp empty), ih others, List.append_assoc]
    rfl

theorem runs_opens {text behind : Text} (opens : Opens text behind) : runs text = runs behind := by
  rw [runs, lines, opens []]
  rfl

theorem runsFrom_opens {text behind : Text} (opens : Opens text behind) (some : run ≠ []) : runsFrom run (lines text) = run :: runs behind := by
  rw [lines, opens [], runsFrom, List.isEmpty_nil, if_pos rfl, closed, if_neg fun empty => some (List.isEmpty_iff.mp empty)]
  rfl

theorem runs_break {char : Nat} (found : isBreak char = true) (rest : Text) : runs (char :: rest) = runs rest := by
  obtain ⟨behind, opens, rfl | rfl⟩ := opens_of_break found rest
  · exact runs_opens opens
  · rw [runs_opens opens, runs_opens (opens_single rfl fun pair => absurd pair.1 (by decide))]

theorem runs_breaks {gap : Text} (breaks : ∀ char ∈ gap, isBreak char = true) (rest : Text) : runs (gap ++ rest) = runs rest := by
  induction gap with
  | nil => rfl
  | cons char gap ih =>
    obtain ⟨own, others⟩ := List.forall_mem_cons.mp breaks
    rw [List.cons_append, runs_break own, ih others]

theorem runsFrom_longer {char : Nat} (other : isBreak char = false) (rest : Text) :
    ∃ more others, runsFrom run (lines (char :: rest)) = (run ++ more) :: others ∧ more ≠ [] := by
  have goes (found : List Text) (run : List Text) (some : run ≠ []) : ∃ more others, runsFrom run found = (run ++ more) :: others := by
    induction found generalizing run with
    | nil =>
      refine ⟨[], [], ?_⟩
      rw [runsFrom, closed, if_neg fun empty => some (List.isEmpty_iff.mp empty), List.append_nil]
    | cons line found ih =>
      rw [runsFrom]
      split
      · refine ⟨[], runsFrom [] found, ?_⟩
        rw [closed, if_neg fun empty => some (List.isEmpty_iff.mp empty), List.append_nil]
        rfl
      · obtain ⟨more, others, same⟩ := ih (run ++ [line]) (by simp)
        exact ⟨line :: more, others, by rw [same, List.append_assoc]; rfl⟩
  have head (line rest : Text) (some : line ≠ []) : ∃ first later, linesFrom line rest = first :: later ∧ first ≠ [] := by
    induction rest generalizing line with
    | nil => exact ⟨line, [], rfl, some⟩
    | cons char rest ih =>
      cases found : isBreak char with
      | false =>
        rw [linesFrom_char found]
        exact ih (line ++ [char]) (by simp)
      | true =>
        obtain ⟨behind, opens, _⟩ := opens_of_break found rest
        exact ⟨line, lines behind, opens line, some⟩
  obtain ⟨first, later, same, filled⟩ := head [char] rest (by simp)
  rw [lines, linesFrom_char other, List.nil_append, same, runsFrom, if_neg fun empty => filled (List.isEmpty_iff.mp empty)]
  obtain ⟨more, others, same⟩ := goes later (run ++ [first]) (by simp)
  exact ⟨first :: more, others, by rw [same, List.append_assoc]; rfl, List.cons_ne_nil _ _⟩

end Runs

section Segments

variable {block : Text}

theorem filled_break {char : Nat} (found : isBreak char = true) (block : Text) : filled (char :: block) = filled block := by
  rw [filled, filled, trim, trim, List.dropWhile_cons_of_pos found]

/-- A text that begins and does not end with a break is only freed of one that is behind it. -/
theorem trim_visible {char : Nat} (other : isBreak char = false) (rest : Text) (ends : Ends (char :: rest)) :
    trim (char :: rest) = char :: rest := by
  rw [trim, List.dropWhile_cons_of_neg (by rw [other]; exact Bool.false_ne_true), List.rdropWhile_eq_self_iff]
  intro some found
  have last := ends _ (List.getLast?_eq_some_getLast some)
  rw [found] at last
  cases last

theorem trim_last {char last : Nat} (other : isBreak char = false) (rest : Text) (ends : Ends (char :: rest)) (found : isBreak last = true) :
    trim (char :: rest ++ [last]) = char :: rest := by
  have own := trim_visible other rest ends
  rw [trim, List.dropWhile_cons_of_neg (by rw [other]; exact Bool.false_ne_true)] at own
  rw [trim, List.cons_append, List.dropWhile_cons_of_neg (by rw [other]; exact Bool.false_ne_true), ← List.cons_append,
    List.rdropWhile_concat_pos _ _ _ found, own]

theorem segmentsFrom_break {char : Nat} (found : isBreak char = true) (block text : Text) :
    segmentsFrom (char :: block) text = segmentsFrom block text := by
  fun_induction segmentsFrom block text with
  | case1 block => rw [segmentsFrom, filled_break found]
  | case2 block single => rw [segmentsFrom, List.cons_append, filled_break found]
  | case3 block first second rest pair ih => rw [segmentsFrom, if_pos pair, filled_break found]
  | case4 block first second rest apart ih => rw [segmentsFrom, if_neg apart, List.cons_append, ih]

theorem segments_break {char : Nat} (found : isBreak char = true) (text : Text) : segments (char :: text) = segments text := by
  induction text generalizing char with
  | nil =>
    have none : filled [char] = [] := filled_break found []
    exact none
  | cons next rest ih =>
    cases also : isBreak next with
    | true =>
      rw [ih also, segments, segmentsFrom, found, also]
      rfl
    | false =>
      rw [segments, segmentsFrom, found, also]
      exact segmentsFrom_break found [] (next :: rest)

theorem segments_breaks {gap : Text} (breaks : ∀ char ∈ gap, isBreak char = true) (rest : Text) : segments (gap ++ rest) = segments rest := by
  induction gap with
  | nil => rfl
  | cons char gap ih =>
    obtain ⟨own, others⟩ := List.forall_mem_cons.mp breaks
    rw [List.cons_append, segments_break own, ih others]

theorem segmentsFrom_unbroken {text : Text} (unbroken : Unbroken text) : segmentsFrom block text = filled (block ++ text) := by
  fun_induction segmentsFrom block text with
  | case1 block => rw [List.append_nil]
  | case2 block single => rfl
  | case3 block first second rest pair ih =>
    rw [Bool.and_eq_true] at pair
    exact absurd pair (List.isChain_cons_cons.mp unbroken).1
  | case4 block first second rest apart ih => rw [ih unbroken.tail, List.append_assoc]; rfl

theorem segmentsFrom_block {text rest : Text} {first second : Nat} (unbroken : Unbroken text) (ends : Ends text)
    (here : isBreak first = true) (also : isBreak second = true) : segmentsFrom block (text ++ first :: second :: rest) = filled (block ++ text) ++ segments rest := by
  induction text generalizing block with
  | nil =>
    rw [List.nil_append, segmentsFrom, here, also, List.append_nil]
    rfl
  | cons char text ih =>
    have later := @ih (block ++ [char]) unbroken.tail ends.tail
    rw [List.append_assoc] at later
    have apart (next : Nat) (others : Text) (same : text ++ first :: second :: rest = next :: others) : ¬ (isBreak char && isBreak next) = true := by
      intro both
      rw [Bool.and_eq_true] at both
      obtain ⟨follows, rest, rfl, visible⟩ := tail_of_break unbroken ends both.1
      obtain rfl : follows = next := (List.cons.inj same).1
      rw [both.2] at visible
      cases visible
    rw [List.cons_append]
    cases same : text ++ first :: second :: rest with
    | nil =>
      cases (List.append_eq_nil_iff.mp same).2
    | cons next others =>
      rw [segmentsFrom, if_neg (apart next others same), ← same, later]
      rfl

theorem two_of_length {gap : Text} (wide : 2 ≤ gap.length) : ∃ first second rest, gap = first :: second :: rest := by
  cases gap with
  | nil => cases wide
  | cons first gap =>
    cases gap with
    | nil =>
      rw [List.length_singleton] at wide
      omega
    | cons second gap => exact ⟨first, second, gap, rfl⟩

theorem segments_gap {text gap : Text} (unbroken : Unbroken text) (ends : Ends text) (breaks : ∀ char ∈ gap, isBreak char = true)
    (wide : 2 ≤ gap.length) (rest : Text) : segments (text ++ gap ++ rest) = filled text ++ segments rest := by
  obtain ⟨first, second, gap, rfl⟩ := two_of_length wide
  obtain ⟨here, breaks⟩ := List.forall_mem_cons.mp breaks
  obtain ⟨also, breaks⟩ := List.forall_mem_cons.mp breaks
  rw [List.append_assoc, segments, List.cons_append, List.cons_append, segmentsFrom_block unbroken ends here also, segments_breaks breaks]
  rfl

end Segments

/-! A text is a segment, the gap behind it, and the rest. -/

def Begins (text : Text) : Prop := ∀ char ∈ text.head?, isBreak char = false

structure Parts (text block gap rest : Text) : Prop where
  same : text = block ++ gap ++ rest
  unbroken : Unbroken block
  breaks : ∀ char ∈ gap, isBreak char = true
  begins : Begins rest
  ends : gap = [] ∧ rest = [] ∨ 2 ≤ gap.length ∧ Ends block

theorem parts_exist (text : Text) : ∃ block gap rest, Parts text block gap rest := by
  induction text with
  | nil => exact ⟨[], [], [], rfl, .nil, nofun, nofun, .inl ⟨rfl, rfl⟩⟩
  | cons char text ih =>
    obtain ⟨block, gap, rest, rfl, unbroken, breaks, begins, ends⟩ := ih
    have ends_cons (visible : isBreak char = false) (own : Ends block) : Ends (char :: block) := by
      intro last found
      cases block with
      | nil =>
        cases found
        exact visible
      | cons next others =>
        rw [List.getLast?_cons_cons] at found
        exact own last found
    cases found : isBreak char with
    | false =>
      refine ⟨char :: block, gap, rest, rfl, ?_, breaks, begins, ends.imp_right fun wide => ⟨wide.1, ends_cons found wide.2⟩⟩
      refine List.isChain_cons.mpr ⟨fun next _ both => ?_, unbroken⟩
      rw [found] at both
      cases both.1
    | true =>
      cases block with
      | nil =>
        rcases ends with ⟨rfl, rfl⟩ | ⟨wide, _⟩
        · exact ⟨[char], [], [], rfl, List.isChain_singleton _, nofun, nofun, .inl ⟨rfl, rfl⟩⟩
        · refine ⟨[], char :: gap, rest, rfl, .nil, List.forall_mem_cons.mpr ⟨found, breaks⟩, begins, .inr ⟨?_, nofun⟩⟩
          rw [List.length_cons]
          omega
      | cons next others =>
        cases also : isBreak next with
        | false =>
          refine ⟨char :: next :: others, gap, rest, rfl, ?_, breaks, begins, ends.imp_right fun wide => ⟨wide.1, fun last found => ?_⟩⟩
          · refine List.isChain_cons_cons.mpr ⟨fun both => ?_, unbroken⟩
            rw [also] at both
            cases both.2
          · rw [List.getLast?_cons_cons] at found
            exact wide.2 last found
        | true =>
          refine ⟨[], [char, next], others ++ gap ++ rest, rfl, .nil, ?_, ?_, .inr ⟨Nat.le_refl 2, nofun⟩⟩
          · exact List.forall_mem_cons.mpr ⟨found, List.forall_mem_cons.mpr ⟨also, nofun⟩⟩
          · rcases ends with ⟨rfl, rfl⟩ | ⟨_, ends⟩
            · rw [List.append_nil, List.append_nil]
              intro first same
              cases others with
              | nil => cases same
              | cons first rest =>
                cases same
                exact Bool.eq_false_iff.mpr fun third => (List.isChain_cons_cons.mp unbroken).1 ⟨also, third⟩
            · obtain ⟨first, later, rfl, visible⟩ := tail_of_break unbroken ends also
              intro char same
              cases same
              exact visible

/-! Segments are the runs of lines, but for the places where they are joined by one CRLF. -/

theorem joined_cons {char : Nat} {text : Text} : Joined (char :: text) ↔
    (∃ last rest, text = CR :: LF :: last :: rest ∧ isBreak char = false ∧ isBreak last = false) ∨ Joined text := by
  constructor
  · intro ⟨front, first, last, rest, same, visible, also⟩
    cases front with
    | nil =>
      obtain ⟨rfl, rfl⟩ := List.cons.inj same
      exact .inl ⟨last, rest, rfl, visible, also⟩
    | cons head front =>
      obtain ⟨rfl, rfl⟩ := List.cons.inj same
      exact .inr ⟨front, first, last, rest, rfl, visible, also⟩
  · rintro (⟨last, rest, rfl, visible, also⟩ | ⟨front, first, last, rest, rfl, visible, also⟩)
    · exact ⟨[], char, last, rest, rfl, visible, also⟩
    · exact ⟨char :: front, first, last, rest, rfl, visible, also⟩

theorem joined_break {char : Nat} (found : isBreak char = true) (text : Text) : Joined (char :: text) ↔ Joined text := by
  rw [joined_cons, or_iff_right]
  rintro ⟨_, _, _, visible, _⟩
  rw [found] at visible
  cases visible

theorem joined_breaks {gap : Text} (breaks : ∀ char ∈ gap, isBreak char = true) (rest : Text) : Joined (gap ++ rest) ↔ Joined rest := by
  induction gap with
  | nil => rfl
  | cons char gap ih =>
    obtain ⟨own, others⟩ := List.forall_mem_cons.mp breaks
    rw [List.cons_append, joined_break own, ih others]

def Joins (rest : Text) : Prop := ∃ last later, rest = CR :: LF :: last :: later ∧ isBreak last = false

theorem joined_block {block rest : Text} (unbroken : Unbroken block) (ends : Ends block) (some : block ≠ []) :
    Joined (block ++ rest) ↔ Joins rest ∨ Joined rest := by
  induction block with
  | nil => exact absurd rfl some
  | cons char block ih =>
    rw [List.cons_append, joined_cons]
    cases block with
    | nil =>
      have visible := ends char rfl
      refine or_congr_left ?_
      rw [List.nil_append]
      exact ⟨fun ⟨last, later, same, _, also⟩ => ⟨last, later, same, also⟩, fun ⟨last, later, same, also⟩ => ⟨last, later, same, visible, also⟩⟩
    | cons next others =>
      rw [← ih unbroken.tail ends.tail (List.cons_ne_nil _ _), or_iff_right]
      rintro ⟨last, later, same, _, _⟩
      obtain ⟨carriage, behind⟩ := List.cons.inj same
      obtain rfl : next = CR := carriage
      obtain ⟨third, rest, rfl, visible⟩ := tail_of_break unbroken.tail ends.tail rfl
      obtain ⟨line, _⟩ := List.cons.inj behind
      obtain rfl : third = LF := line
      exact absurd visible (by decide)

theorem lines_ne_nil (text : Text) : lines text ≠ [] := by
  unfold lines
  generalize ([] : Text) = line
  fun_induction linesFrom line text with
  | case1 | case2 | case3 | case4 | case5 => exact List.cons_ne_nil _ _
  | case6 line first second rest pair apart ih => exact ih

theorem filled_visible {char : Nat} (other : isBreak char = false) (rest : Text) (ends : Ends (char :: rest)) : filled (char :: rest) = [char :: rest] := by
  rw [filled, trim_visible other rest ends]
  rfl

theorem lines_filled {char : Nat} {block : Text} (other : isBreak char = false) (unbroken : Unbroken (char :: block)) (ends : Ends (char :: block)) :
    ∀ line ∈ lines (char :: block), line ≠ [] := linesFrom_filled unbroken ends (.inr ⟨char, block, rfl, other⟩)

theorem runs_block {char : Nat} {block rest behind : Text} (other : isBreak char = false) (unbroken : Unbroken (char :: block))
    (ends : Ends (char :: block)) (opens : Opens rest behind) :
    runs (char :: block ++ rest) = runsFrom (lines (char :: block)) (lines behind) := by
  have whole : lines (char :: block ++ rest) = lines (char :: block) ++ lines behind := linesFrom_block unbroken ends opens
  rw [runs, whole, runsFrom_filled (lines_filled other unbroken ends)]
  rfl

theorem runs_alone {char : Nat} {block : Text} (other : isBreak char = false) (unbroken : Unbroken (char :: block)) (ends : Ends (char :: block)) :
    runs (char :: block) = [lines (char :: block)] := by
  have all : runsFrom [] (lines (char :: block) ++ []) = _ := runsFrom_filled (lines_filled other unbroken ends) []
  rw [List.append_nil, List.nil_append, runsFrom, closed, if_neg fun empty => lines_ne_nil (char :: block) (List.isEmpty_iff.mp empty)] at all
  exact all

theorem joined_unbroken {text : Text} (unbroken : Unbroken text) : ¬ Joined text := by
  rintro ⟨front, first, last, rest, rfl, _, _⟩
  have pair := (List.isChain_append.mp unbroken).2.1.tail
  exact (List.isChain_cons_cons.mp pair).1 ⟨rfl, rfl⟩

theorem runsFrom_rest {run : List Text} {text : Text} (some : run ≠ []) (breaks : ∀ char ∈ text.head?, isBreak char = true) :
    runsFrom run (lines text) = run :: runs text := by
  cases text with
  | nil =>
    rw [lines, linesFrom, runsFrom, List.isEmpty_nil, if_pos rfl, closed, if_neg fun empty => some (List.isEmpty_iff.mp empty)]
    rfl
  | cons char rest =>
    obtain ⟨behind, opens, _⟩ := opens_of_break (breaks char rfl) rest
    rw [runsFrom_opens opens some, runs_opens opens]

/-- The run ends with the segment, unless the gap joins it to what follows. -/
theorem runs_gap {char : Nat} {block gap rest : Text} (other : isBreak char = false) (unbroken : Unbroken (char :: block))
    (ends : Ends (char :: block)) (breaks : ∀ char ∈ gap, isBreak char = true) (wide : 2 ≤ gap.length) (begins : Begins rest) :
    ¬ Joins (gap ++ rest) ∧ runs (char :: block ++ (gap ++ rest)) = lines (char :: block) :: runs rest ∨
      Joins (gap ++ rest) ∧ ∃ more others, runs (char :: block ++ (gap ++ rest)) = (lines (char :: block) ++ more) :: others ∧ more ≠ [] := by
  obtain ⟨first, second, gap, rfl⟩ := two_of_length wide
  obtain ⟨here, breaks⟩ := List.forall_mem_cons.mp breaks
  obtain ⟨also, inner⟩ := List.forall_mem_cons.mp breaks
  have some := lines_ne_nil (char :: block)
  rw [List.cons_append, List.cons_append]
  by_cases pair : first = CR ∧ second = LF
  · obtain ⟨rfl, rfl⟩ := pair
    rw [runs_block other unbroken ends (opens_pair (gap ++ rest))]
    cases visible : gap ++ rest with
    | nil =>
      obtain ⟨rfl, rfl⟩ := List.append_eq_nil_iff.mp visible
      refine .inl ⟨?_, runsFrom_rest some nofun⟩
      rintro ⟨_, _, same, _⟩
      cases same
    | cons last later =>
      cases found : isBreak last with
      | true =>
        refine .inl ⟨?_, ?_⟩
        · rintro ⟨_, _, same, visible⟩
          obtain ⟨rfl, _⟩ := List.cons.inj (List.cons.inj (List.cons.inj same).2).2
          rw [found] at visible
          cases visible
        · rw [← visible, runsFrom_rest some, runs_breaks inner]
          rw [visible]
          intro char same
          cases same
          exact found
      | false => exact .inr ⟨⟨last, later, rfl, found⟩, runsFrom_longer found later⟩
  · refine .inl ⟨?_, ?_⟩
    · rintro ⟨_, _, same, _⟩
      obtain ⟨carriage, behind⟩ := List.cons.inj same
      exact pair ⟨carriage, (List.cons.inj behind).1⟩
    · have alone : ¬ (first = CR ∧ (second :: (gap ++ rest)).head? = Option.some LF) := fun same => pair ⟨same.1, Option.some.inj same.2⟩
      rw [runs_block other unbroken ends (opens_single here alone), runsFrom_rest some, ← List.cons_append, runs_breaks breaks]
      intro char same
      cases same
      exact also

theorem segments_alone {char : Nat} {block : Text} (other : isBreak char = false) (unbroken : Unbroken (char :: block)) :
    (segments (char :: block)).map lines = runs (char :: block) := by
  rw [segments, segmentsFrom_unbroken unbroken, List.nil_append]
  by_cases ends : Ends (char :: block)
  · rw [filled_visible other block ends, runs_alone other unbroken ends]
    rfl
  · obtain ⟨front, last, same⟩ := List.eq_nil_or_concat (char :: block) |>.resolve_left (List.cons_ne_nil _ _)
    have found : isBreak last = true := by
      refine Bool.of_not_eq_false fun visible => ends ?_
      rw [same]
      intro final own
      rw [List.concat_eq_append, List.getLast?_concat] at own
      exact Option.some.inj own ▸ visible
    rw [List.concat_eq_append] at same
    cases front with
    | nil =>
      obtain rfl : char = last := (List.cons.inj same).1
      rw [other] at found
      cases found
    | cons first body =>
      obtain rfl : char = first := (List.cons.inj same).1
      rw [same] at unbroken ⊢
      obtain ⟨inner, _, apart⟩ := List.isChain_append.mp unbroken
      have ends : Ends (char :: body) := fun final own => Bool.eq_false_iff.mpr fun also => apart final own last rfl ⟨also, found⟩
      have alone : ¬ (last = CR ∧ ([] : Text).head? = some LF) := by
        rintro ⟨_, none⟩
        cases none
      rw [runs_block other inner ends (opens_single found alone), runsFrom_rest (lines_ne_nil _) (fun _ none => by cases none), filled, trim_last other body ends found]
      rfl

/-- The segments of a text are its runs of lines exactly when no two lines are joined by a CRLF. -/
theorem segments_runs (text : Text) : (segments text).map lines = runs text ↔ ¬ Joined text := by
  induction length : text.length using Nat.strongRecOn generalizing text with
  | ind size ih =>
    cases text with
    | nil =>
      refine ⟨fun _ ⟨front, first, last, rest, same, _⟩ => ?_, fun _ => rfl⟩
      cases (List.append_eq_nil_iff.mp same.symm).2
    | cons char text =>
      rw [List.length_cons] at length
      cases found : isBreak char with
      | true =>
        rw [segments_break found, runs_break found, joined_break found]
        exact ih text.length (by omega) text rfl
      | false =>
        obtain ⟨block, gap, rest, same, unbroken, breaks, begins, ends⟩ := parts_exist (char :: text)
        cases block with
        | nil =>
          rcases ends with ⟨rfl, rfl⟩ | ⟨wide, _⟩
          · cases same
          · obtain ⟨first, second, gap, rfl⟩ := two_of_length wide
            obtain rfl : char = first := (List.cons.inj same).1
            have own := breaks char List.mem_cons_self
            rw [found] at own
            cases own
        | cons first block =>
          obtain rfl : char = first := (List.cons.inj same).1
          rw [same]
          rcases ends with ⟨rfl, rfl⟩ | ⟨wide, ends⟩
          · rw [List.append_nil, List.append_nil]
            exact iff_of_true (segments_alone found unbroken) (joined_unbroken unbroken)
          · have shorter := congrArg List.length same
            rw [List.length_append, List.length_append, List.length_cons, List.length_cons] at shorter
            have later := ih rest.length (by omega) rest rfl
            have joined : Joined (char :: block ++ gap ++ rest) ↔ Joins (gap ++ rest) ∨ Joined rest := by
              rw [List.append_assoc, joined_block unbroken ends (List.cons_ne_nil _ _), joined_breaks breaks]
            rw [segments_gap unbroken ends breaks wide, filled_visible found block ends, joined, List.append_assoc]
            rcases runs_gap found unbroken ends breaks wide begins with ⟨apart, runs⟩ | ⟨joins, more, others, runs, some⟩
            · rw [runs, or_iff_right apart, ← later]
              exact ⟨fun same => (List.cons.inj same).2, congrArg (List.cons (lines (char :: block)))⟩
            · rw [runs]
              refine ⟨fun same => absurd ?_ some, fun apart => absurd (.inl joins) apart⟩
              exact List.self_eq_append_right.mp (List.cons.inj same).1

end AgentSaas.EventLines
