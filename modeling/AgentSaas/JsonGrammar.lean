import AgentSaas.JsonValues

/-! The grammar of JSON texts, RFC 8259, over UTF-16 code units. A tree keeps each number as it is
written, and every member of an object in its order, also those with one key. -/

namespace AgentSaas.JsonGrammar
open ToolCallRepair (Text unit units)
open JsonValues

/-- A number is its literal, and whether the literal has neither a fraction nor an exponent. -/
abbrev Tree := Value (Text × Bool)

def Blank (text : Text) : Prop := ∀ char ∈ text, char ∈ units " \t\n\r"

/-! Strings, with what they stand for. -/

def escapes : List (Nat × Nat) :=
  [ (unit '"', unit '"'), (unit '\\', unit '\\'), (unit '/', unit '/'), (unit 'b', 0x08), (unit 'f', 0x0C), (unit 'n', 0x0A),
    (unit 'r', 0x0D), (unit 't', 0x09) ]

inductive Hex : Nat → Nat → Prop
  | digit {value : Nat} (small : value < 10) : Hex (unit '0' + value) value
  | lower {value : Nat} (small : value < 6) : Hex (unit 'a' + value) (10 + value)
  | upper {value : Nat} (small : value < 6) : Hex (unit 'A' + value) (10 + value)

inductive Chars : Text → Text → Prop
  | nil : Chars [] []
  | plain {char : Nat} {text out : Text} (control : 0x20 ≤ char) (quote : char ≠ unit '"') (escape : char ≠ unit '\\')
    (rest : Chars text out) : Chars (char :: text) (char :: out)
  | escape {letter char : Nat} {text out : Text} (pair : (letter, char) ∈ escapes) (rest : Chars text out) :
    Chars (unit '\\' :: letter :: text) (char :: out)
  | unicode {first second third fourth one two three four : Nat} {text out : Text} (first_hex : Hex first one)
    (second_hex : Hex second two) (third_hex : Hex third three) (fourth_hex : Hex fourth four) (rest : Chars text out) :
    Chars (unit '\\' :: unit 'u' :: first :: second :: third :: fourth :: text)
      ((one * 4096 + two * 256 + three * 16 + four) :: out)

def Digit (char : Nat) : Prop := unit '0' ≤ char ∧ char ≤ unit '9'

def Digits (text : Text) : Prop := text ≠ [] ∧ ∀ char ∈ text, Digit char

inductive Integer : Text → Prop
  | zero : Integer [unit '0']
  | digits {first : Nat} {rest : Text} (low : unit '1' ≤ first) (high : first ≤ unit '9') (each : ∀ char ∈ rest, Digit char) :
    Integer (first :: rest)

inductive Fraction : Text → Prop
  | absent : Fraction []
  | point {digits : Text} (some : Digits digits) : Fraction (unit '.' :: digits)

inductive Exponent : Text → Prop
  | absent : Exponent []
  | power {letter : Nat} {sign digits : Text} (marked : letter = unit 'e' ∨ letter = unit 'E')
    (signed : sign = [] ∨ sign = [unit '+'] ∨ sign = [unit '-']) (some : Digits digits) : Exponent (letter :: sign ++ digits)

inductive Number : Text → Bool → Prop
  | parts {sign integer fraction exponent : Text} (signed : sign = [] ∨ sign = [unit '-']) (whole : Integer integer)
    (part : Fraction fraction) (power : Exponent exponent) :
    Number (sign ++ integer ++ fraction ++ exponent) (fraction.isEmpty && exponent.isEmpty)

/-- What a stretch of text may be: a value, a value with blanks around it, several of them with
commas between them, a member, or several members. -/
inductive Phrase
  | value (tree : Tree)
  | item (tree : Tree)
  | items (trees : List Tree)
  | member (member : Text × Tree)
  | members (members : List (Text × Tree))

inductive Spells : Text → Phrase → Prop
  | null : Spells (units "null") (.value .null)
  | true : Spells (units "true") (.value (.bool true))
  | false : Spells (units "false") (.value (.bool false))
  | number {literal : Text} {whole : Bool} (number : Number literal whole) : Spells literal (.value (.number (literal, whole)))
  | string {text out : Text} (chars : Chars text out) : Spells (unit '"' :: text ++ [unit '"']) (.value (.string out))
  | emptyArray {blank : Text} (blanks : Blank blank) : Spells (unit '[' :: blank ++ [unit ']']) (.value (.array []))
  | array {text : Text} {trees : List Tree} (items : Spells text (.items trees)) :
    Spells (unit '[' :: text ++ [unit ']']) (.value (.array trees))
  | emptyObject {blank : Text} (blanks : Blank blank) : Spells (unit '\x7b' :: blank ++ [unit '\x7d']) (.value (.object []))
  | object {text : Text} {trees : List (Text × Tree)} (members : Spells text (.members trees)) :
    Spells (unit '\x7b' :: text ++ [unit '\x7d']) (.value (.object trees))
  | item {before text after : Text} {tree : Tree} (opens : Blank before) (value : Spells text (.value tree)) (closes : Blank after) :
    Spells (before ++ text ++ after) (.item tree)
  | lastItem {text : Text} {tree : Tree} (item : Spells text (.item tree)) : Spells text (.items [tree])
  | nextItem {text rest : Text} {tree : Tree} {trees : List Tree} (item : Spells text (.item tree))
    (items : Spells rest (.items trees)) : Spells (text ++ unit ',' :: rest) (.items (tree :: trees))
  | member {before key name after text : Text} {tree : Tree} (opens : Blank before) (chars : Chars key name)
    (closes : Blank after) (item : Spells text (.item tree)) :
    Spells (before ++ unit '"' :: key ++ unit '"' :: after ++ unit ':' :: text) (.member (name, tree))
  | lastMember {text : Text} {tree : Text × Tree} (member : Spells text (.member tree)) : Spells text (.members [tree])
  | nextMember {text rest : Text} {tree : Text × Tree} {trees : List (Text × Tree)} (member : Spells text (.member tree))
    (members : Spells rest (.members trees)) : Spells (text ++ unit ',' :: rest) (.members (tree :: trees))

/-- A text that is one value. -/
def Document (text : Text) (tree : Tree) : Prop := Spells text (.item tree)

/-! Blanks around what is spelled. -/

section Blanks

variable {text : Text}

theorem Blank.append {first second : Text} (blank : Blank first) (also : Blank second) : Blank (first ++ second) := fun char inside =>
  (List.mem_append.mp inside).elim (blank char) (also char)

theorem Spells.blank_item {before : Text} {tree : Tree} (blank : Blank before) (item : Spells text (.item tree)) :
    Spells (before ++ text) (.item tree) := by
  cases item with
  | item opens value closes =>
    rw [← List.append_assoc, ← List.append_assoc]
    exact .item (Blank.append blank opens) value closes

theorem Spells.item_blank {after : Text} {tree : Tree} (item : Spells text (.item tree)) (blank : Blank after) :
    Spells (text ++ after) (.item tree) := by
  cases item with
  | item opens value closes =>
    rw [List.append_assoc]
    exact .item opens value (Blank.append closes blank)

theorem Spells.blank_items {before : Text} {trees : List Tree} (blank : Blank before) (items : Spells text (.items trees)) :
    Spells (before ++ text) (.items trees) := by
  cases items with
  | lastItem item => exact .lastItem (item.blank_item blank)
  | nextItem item items =>
    rw [← List.append_assoc]
    exact .nextItem (item.blank_item blank) items

theorem Spells.member_blank {after : Text} {member : Text × Tree} (spelled : Spells text (.member member)) (blank : Blank after) :
    Spells (text ++ after) (.member member) := by
  cases spelled with
  | member opens chars closes item =>
    have grown := Spells.member opens chars closes (item.item_blank blank)
    simpa using grown

end Blanks

/-! What a value begins with. -/

def Begins (char : Nat) : Prop := char ∈ units "ntf\"[\x7b-" ∨ Digit char

theorem Integer.head {text : Text} (integer : Integer text) : ∃ char more, text = char :: more ∧ Digit char := by
  cases integer with
  | zero => exact ⟨_, _, rfl, by unfold Digit; decide⟩
  | @digits first more low high each =>
    have bounds : unit '0' < unit '1' := by decide
    exact ⟨first, more, rfl, by omega, high⟩

theorem Number.head {text : Text} {whole : Bool} (number : Number text whole) :
    ∃ char more, text = char :: more ∧ (char = unit '-' ∨ Digit char) := by
  cases number with
  | parts signed integer _ _ =>
    obtain ⟨char, more, rfl, digit⟩ := integer.head
    rcases signed with rfl | rfl
    · exact ⟨char, _, rfl, .inr digit⟩
    · exact ⟨unit '-', _, rfl, .inl rfl⟩

theorem Spells.begins {text : Text} {tree : Tree} (spells : Spells text (.value tree)) :
    ∃ char more, text = char :: more ∧ Begins char := by
  cases spells with
  | number number =>
    obtain ⟨char, more, same, rfl | digit⟩ := number.head
    · exact ⟨_, more, same, .inl (by decide)⟩
    · exact ⟨char, more, same, .inr digit⟩
  | null => exact ⟨unit 'n', units "ull", by decide, .inl (by decide)⟩
  | true => exact ⟨unit 't', units "rue", by decide, .inl (by decide)⟩
  | false => exact ⟨unit 'f', units "alse", by decide, .inl (by decide)⟩
  | string | array | object | emptyArray | emptyObject => exact ⟨_, _, rfl, .inl (by decide)⟩

theorem Spells.item_begins {text : Text} {tree : Tree} (spells : Spells text (.item tree)) :
    ∃ before char more, Blank before ∧ text = before ++ char :: more ∧ Begins char := by
  cases spells with
  | @item before _ after _ opens value _ =>
    obtain ⟨char, more, rfl, begins⟩ := value.begins
    exact ⟨before, char, more ++ after, opens, by rw [List.append_assoc, List.cons_append], begins⟩

theorem Spells.items_begin {text : Text} {trees : List Tree} (spells : Spells text (.items trees)) :
    ∃ before char more, Blank before ∧ text = before ++ char :: more ∧ Begins char := by
  cases spells with
  | lastItem item => exact item.item_begins
  | nextItem item _ =>
    obtain ⟨before, char, more, blank, rfl, begins⟩ := item.item_begins
    exact ⟨before, char, _, blank, by rw [List.append_assoc, List.cons_append], begins⟩

theorem Spells.member_begins {text : Text} {member : Text × Tree} (spells : Spells text (.member member)) :
    ∃ before more, Blank before ∧ text = before ++ unit '"' :: more := by
  cases spells with
  | @member before key _ after rest _ opens _ _ _ =>
    refine ⟨before, key ++ unit '"' :: (after ++ unit ':' :: rest), opens, ?_⟩
    simp only [List.append_assoc, List.cons_append]

theorem Spells.members_begin {text : Text} {members : List (Text × Tree)} (spells : Spells text (.members members)) :
    ∃ before more, Blank before ∧ text = before ++ unit '"' :: more := by
  cases spells with
  | lastMember member => exact member.member_begins
  | nextMember member _ =>
    obtain ⟨before, more, blank, rfl⟩ := member.member_begins
    exact ⟨before, _, blank, by rw [List.append_assoc, List.cons_append]⟩

/-! What a tree may hold. -/

/-- A key stands a second time, among the members or in front of them, only where it may. -/
def Repeats (repeated : Text → Prop) (front : List Text) (members : List (Text × Tree)) : Prop :=
  ∀ earlier member later, members = earlier ++ member :: later → member.1 ∈ front ++ earlier.map Prod.fst → repeated member.1

/-- Every number, every string and every repeated key is of a kind. -/
inductive Admits (numbers : Text × Bool → Prop) (strings repeated : Text → Prop) : Tree → Prop
  | null : Admits numbers strings repeated .null
  | bool (value : Bool) : Admits numbers strings repeated (.bool value)
  | number {value : Text × Bool} (kind : numbers value) : Admits numbers strings repeated (.number value)
  | string {value : Text} (kind : strings value) : Admits numbers strings repeated (.string value)
  | array {items : List Tree} (each : ∀ item ∈ items, Admits numbers strings repeated item) : Admits numbers strings repeated (.array items)
  | object {members : List (Text × Tree)} (repeats : Repeats repeated [] members) (keys : ∀ member ∈ members, strings member.1)
    (each : ∀ member ∈ members, Admits numbers strings repeated member.2) : Admits numbers strings repeated (.object members)

variable {repeated : Text → Prop} {front : List Text} {member : Text × Tree} {members : List (Text × Tree)}

theorem repeats_nil : Repeats repeated front [] := fun _ _ _ split => absurd split (by simp)

theorem repeats_cons : Repeats repeated front (member :: members) ↔
    (member.1 ∈ front → repeated member.1) ∧ Repeats repeated (front ++ [member.1]) members := by
  constructor
  · intro repeats
    refine ⟨fun inside => repeats [] member members rfl (by simpa using inside), fun earlier other later split inside => ?_⟩
    exact repeats (member :: earlier) other later (by rw [split]; rfl) (by simpa [or_assoc] using inside)
  · rintro ⟨first, rest⟩ earlier other later split inside
    cases earlier with
    | nil =>
      obtain ⟨rfl, rfl⟩ := List.cons.inj split
      exact first (by simpa using inside)
    | cons earliest earlier =>
      obtain ⟨rfl, later_split⟩ := List.cons.inj split
      exact rest earlier other later later_split (by simpa [or_assoc] using inside)

theorem repeats_congr {other : List Text} (same : ∀ key, key ∈ front ↔ key ∈ other) (repeats : Repeats repeated front members) :
    Repeats repeated other members := fun earlier member later split inside => repeats earlier member later split (by
  rw [List.mem_append] at inside ⊢
  rwa [same])

theorem repeats_never : Repeats (fun _ => False) front members ↔ (∀ key ∈ front, key ∉ members.map Prod.fst) ∧ (members.map Prod.fst).Nodup := by
  induction members generalizing front with
  | nil => exact iff_of_true repeats_nil (by simp)
  | cons member members ih =>
    rw [repeats_cons, ih, List.map_cons, List.nodup_cons]
    simp only [List.mem_append, List.mem_cons, List.not_mem_nil, or_false, not_or]
    constructor
    · rintro ⟨fresh, apart, nodup⟩
      refine ⟨fun key inside => ⟨?_, apart key (.inl inside)⟩, apart member.1 (.inr rfl), nodup⟩
      rintro rfl
      exact fresh inside
    · rintro ⟨apart, own, nodup⟩
      refine ⟨fun inside => (apart member.1 inside).1 rfl, fun key inside => ?_, nodup⟩
      rcases inside with old | rfl
      · exact (apart key old).2
      · exact own

variable {numbers : Text × Bool → Prop} {strings : Text → Prop} {tree : Tree}

theorem Admits.mono {wider : Text × Bool → Prop} {longer oftener : Text → Prop} (admits : Admits numbers strings repeated tree)
    (wide : ∀ value, numbers value → wider value) (long : ∀ text, strings text → longer text)
    (often : ∀ text, repeated text → oftener text) : Admits wider longer oftener tree := by
  induction admits with
  | null => exact .null
  | bool value => exact .bool value
  | number kind => exact .number (wide _ kind)
  | string kind => exact .string (long _ kind)
  | array _ ih => exact .array ih
  | object repeats keys _ ih =>
    refine .object (fun earlier member later split inside => often _ (repeats earlier member later split inside)) (fun member inside => ?_) ih
    exact long _ (keys member inside)

theorem admits_iff_made : Admits numbers strings (fun _ => False) tree ↔ Made numbers strings tree := by
  constructor
  · intro admits
    induction admits with
    | null => exact .null
    | bool value => exact .bool value
    | number kind => exact .number kind
    | string kind => exact .string kind
    | array _ ih => exact .array ih
    | object repeats keys _ ih => exact .object (repeats_never.mp repeats).2 keys ih
  · intro made
    induction made with
    | null => exact .null
    | bool value => exact .bool value
    | number kind => exact .number kind
    | string kind => exact .string kind
    | array _ ih => exact .array ih
    | object nodup keys _ ih => exact .object (repeats_never.mpr ⟨fun _ wrong => (by cases wrong), nodup⟩) keys ih

def Phrase.trees : Phrase → List Tree
  | .value tree | .item tree => [tree]
  | .items trees => trees
  | .member member => [member.2]
  | .members members => members.map Prod.snd

theorem Spells.admits {text : Text} {phrase : Phrase} (spells : Spells text phrase) :
    ∀ tree ∈ phrase.trees, Admits (fun _ => True) (fun _ => True) (fun _ => True) tree := by
  induction spells with
  | null => exact List.forall_mem_singleton.mpr .null
  | true | false => exact List.forall_mem_singleton.mpr (.bool _)
  | number => exact List.forall_mem_singleton.mpr (.number trivial)
  | string => exact List.forall_mem_singleton.mpr (.string trivial)
  | emptyArray => exact List.forall_mem_singleton.mpr (.array nofun)
  | array _ each => exact List.forall_mem_singleton.mpr (.array each)
  | emptyObject => exact List.forall_mem_singleton.mpr (.object repeats_nil nofun nofun)
  | object _ each =>
    refine List.forall_mem_singleton.mpr (.object (fun _ _ _ _ _ => trivial) (fun _ _ => trivial) fun member inside => ?_)
    exact each member.2 (List.mem_map_of_mem inside)
  | item _ _ _ own | lastItem _ own | member _ _ _ _ own | lastMember _ own => exact own
  | nextItem _ _ own later | nextMember _ _ own later => exact List.forall_mem_cons.mpr ⟨own _ List.mem_cons_self, later⟩

theorem Document.admits {text : Text} {tree : Tree} (document : Document text tree) :
    Admits (fun _ => True) (fun _ => True) (fun _ => True) tree :=
  Spells.admits document tree List.mem_cons_self

end AgentSaas.JsonGrammar
