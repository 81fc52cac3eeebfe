import AgentSaas.Transactions

/-! A call is verified alone: whatever the others commit between two of its
statements, it may rely on what its locks keep and on what no commit undoes.
The run theorem puts the calls back together. -/

namespace AgentSaas.Proofs.TransactionSafety
open AgentSaas.Transactions

/-- The proof obligations of a store. `keeps key` says what the holder of a lock
may rely on, and `grows` what no commit ever undoes. -/
structure Rules (σ κ : Type) where
  invariant : σ → Prop
  grows : σ → σ → Prop
  keeps : κ → σ → σ → Prop
  permits : List κ → (κ → Prop) → σ → σ → Prop
  grows_refl : ∀ db, grows db db
  grows_trans : ∀ {a b c}, grows a b → grows b c → grows a c
  keeps_refl : ∀ key db, keeps key db db
  keeps_trans : ∀ {key a b c}, keeps key a b → keeps key b c → keeps key a c

namespace Rules

variable {σ κ ε α β : Type} (rules : Rules σ κ)

/-- What other calls may have committed while this one held its locks. -/
def Moves (held : List κ) (before after : σ) : Prop :=
  rules.grows before after ∧ ∀ key ∈ held, rules.keeps key before after

/-- A program may be resumed at any later database. Every commit it can reach
keeps the invariant and disturbs no lock of another call. -/
def Safe (post : α → Open σ κ → σ → Prop) : Program σ κ ε α → Open σ κ → σ → Prop
  | .returned value, transaction, db =>
    ∀ later, rules.invariant later → rules.Moves transaction.held db later → post value transaction later
  | .query statement next, transaction, db =>
    ∀ later, rules.invariant later → rules.Moves transaction.held db later →
      Safe post (next (statement.result (transaction.patch later))) (transaction.after statement later) later
  | .commit next, transaction, db =>
    ∀ later, rules.invariant later → rules.Moves transaction.held db later →
      ∀ others : κ → Prop, (∀ key ∈ transaction.held, ¬ others key) →
        rules.permits transaction.held others later (transaction.patch later) →
        (rules.invariant (transaction.patch later) ∧ rules.grows later (transaction.patch later) ∧
          ∀ key, others key → rules.keeps key later (transaction.patch later)) ∧
        Safe post next .closed (transaction.patch later)
  | .rollback next, transaction, db =>
    ∀ later, rules.invariant later → rules.Moves transaction.held db later → Safe post next .closed later
  | .receive next, transaction, db => ∀ answer, Safe post (next answer) transaction db

variable {rules} {post : α → Open σ κ → σ → Prop}

theorem Moves.refl (held : List κ) (db : σ) : rules.Moves held db db :=
  ⟨rules.grows_refl db, fun key _ => rules.keeps_refl key db⟩

theorem Moves.trans {held : List κ} {a b c : σ} (first : rules.Moves held a b) (last : rules.Moves held b c) :
    rules.Moves held a c :=
  ⟨rules.grows_trans first.1 last.1, fun key owned => rules.keeps_trans (first.2 key owned) (last.2 key owned)⟩

theorem Moves.mono {more held : List κ} {before after : σ} (moved : rules.Moves more before after)
    (subset : held ⊆ more) : rules.Moves held before after :=
  ⟨moved.1, fun key owned => moved.2 key (subset owned)⟩

theorem Safe.later {program : Program σ κ ε α} {transaction : Open σ κ} {db after : σ}
    (safe : rules.Safe post program transaction db) (moved : rules.Moves transaction.held db after) :
    rules.Safe post program transaction after := by
  induction program with
  | returned value => exact fun later valid last => safe later valid (moved.trans last)
  | query statement next _ => exact fun later valid last => safe later valid (moved.trans last)
  | commit next _ => exact fun later valid last => safe later valid (moved.trans last)
  | rollback next _ => exact fun later valid last => safe later valid (moved.trans last)
  | receive next ih => exact fun answer => ih answer (safe answer)

/-- Sequencing: the rest of the program starts from what the first part
established, with the transaction the first part left open. -/
theorem Safe.bind {program : Program σ κ ε α} {next : α → Program σ κ ε β}
    {first : α → Open σ κ → σ → Prop} {post : β → Open σ κ → σ → Prop} {transaction : Open σ κ} {db : σ}
    (safe : rules.Safe first program transaction db)
    (valid : rules.invariant db)
    (resume : ∀ value transaction db, rules.invariant db → first value transaction db →
      rules.Safe post (next value) transaction db) :
    rules.Safe post (program >>= next) transaction db := by
  change rules.Safe post (program.bind next) transaction db
  induction program generalizing transaction db with
  | returned value => exact resume value transaction db valid (safe db valid (.refl _ _))
  | query statement rest ih =>
    exact fun later kept moved => ih _ (safe later kept moved) kept
  | commit rest ih =>
    intro later kept moved others apart permitted
    have committed := safe later kept moved others apart permitted
    exact ⟨committed.1, ih committed.2 committed.1.1⟩
  | rollback rest ih => exact fun later kept moved => ih (safe later kept moved) kept
  | receive rest ih => exact fun answer => ih answer (safe answer) valid

theorem Safe.weaken {program : Program σ κ ε α} {transaction : Open σ κ} {db : σ}
    {other : α → Open σ κ → σ → Prop} (safe : rules.Safe post program transaction db)
    (implies : ∀ value transaction db, rules.invariant db → post value transaction db → other value transaction db) :
    rules.Safe other program transaction db := by
  induction program generalizing transaction db with
  | returned value => exact fun later valid moved => implies _ _ _ valid (safe later valid moved)
  | query statement next ih => exact fun later valid moved => ih _ (safe later valid moved)
  | commit next ih =>
    intro later valid moved others apart permitted
    have committed := safe later valid moved others apart permitted
    exact ⟨committed.1, ih committed.2⟩
  | rollback next ih => exact fun later valid moved => ih (safe later valid moved)
  | receive next ih => exact fun answer => ih answer (safe answer)

/-- What a transaction owes for its commit: the invariant, no undoing, and no
change under a lock that somebody else holds. -/
def Commits (rules : Rules σ κ) (held : List κ) (before after : σ) : Prop :=
  ∀ others : κ → Prop, (∀ key ∈ held, ¬ others key) → rules.permits held others before after →
    rules.invariant after ∧ rules.grows before after ∧ ∀ key, others key → rules.keeps key before after

theorem Commits.unchanged {held : List κ} {db : σ} (valid : rules.invariant db) : rules.Commits held db db :=
  fun _ _ _ => ⟨valid, rules.grows_refl db, fun key _ => rules.keeps_refl key db⟩

section Steps

variable {transaction : Open σ κ} {db : σ}

theorem Safe.query {γ : Type} {statement : Statement σ κ γ} {next : γ → Program σ κ ε α}
    (resume : ∀ later, rules.invariant later → rules.Moves transaction.held db later →
      rules.Safe post (next (statement.result (transaction.patch later))) (transaction.after statement later) later) :
    rules.Safe post (Transactions.query statement >>= next) transaction db := resume

theorem Safe.read {γ : Type} {result : σ → γ} {next : γ → Program σ κ ε α}
    (resume : ∀ later, rules.invariant later → rules.Moves transaction.held db later →
      rules.Safe post (next (result (transaction.patch later))) transaction later) :
    rules.Safe post (Transactions.query (.read result) >>= next) transaction db := resume

theorem Safe.lock {γ : Type} {locks : σ → List κ} {result : σ → γ} {next : γ → Program σ κ ε α}
    (resume : ∀ later, rules.invariant later → rules.Moves transaction.held db later →
      rules.Safe post (next (result (transaction.patch later)))
        ⟨locks (transaction.patch later) ++ transaction.held, transaction.patch⟩ later) :
    rules.Safe post (Transactions.query (.lock locks result) >>= next) transaction db := resume

theorem Safe.answer {next : ε → Program σ κ ε α} (resume : ∀ answer, rules.Safe post (next answer) transaction db) :
    rules.Safe post (receive >>= next) transaction db := resume

theorem Safe.commit {next : Unit → Program σ κ ε α}
    (resume : ∀ later, rules.invariant later → rules.Moves transaction.held db later →
      rules.Commits transaction.held later (transaction.patch later) ∧
      (rules.invariant (transaction.patch later) → rules.Safe post (next ()) .closed (transaction.patch later))) :
    rules.Safe post (Transactions.commit >>= next) transaction db := by
  intro later valid moved others apart permitted
  obtain ⟨commits, safe⟩ := resume later valid moved
  have committed := commits others apart permitted
  exact ⟨committed, safe committed.1⟩

theorem Safe.rollback {next : Unit → Program σ κ ε α}
    (resume : ∀ later, rules.invariant later → rules.Moves transaction.held db later →
      rules.Safe post (next ()) .closed later) :
    rules.Safe post (Transactions.rollback >>= next) transaction db := resume

/-- A statement outside a transaction: its locks last until its own commit. -/
theorem Safe.execute {γ : Type} {statement : Statement σ κ γ} {next : γ → Program σ κ ε α}
    (resume : ∀ snapshot later, rules.invariant snapshot → rules.grows db snapshot → rules.invariant later →
      rules.Moves (statement.locks snapshot) snapshot later →
      rules.Commits (statement.locks snapshot) later (statement.write snapshot later) ∧
      (rules.invariant (statement.write snapshot later) →
        rules.Safe post (next (statement.result snapshot)) .closed (statement.write snapshot later))) :
    rules.Safe post (Transactions.execute statement >>= next) .closed db := by
  intro snapshot valid moved later kept held others apart permitted
  have owned : statement.locks snapshot ++ [] = statement.locks snapshot := List.append_nil _
  obtain ⟨commits, safe⟩ := resume snapshot later valid moved.1 kept (owned ▸ held)
  have committed := commits others (owned ▸ apart) (by rw [← owned]; exact permitted)
  exact ⟨committed, safe committed.1⟩

theorem Safe.executed {statement : Statement σ κ α}
    (resume : ∀ snapshot later, rules.invariant snapshot → rules.grows db snapshot → rules.invariant later →
      rules.Moves (statement.locks snapshot) snapshot later →
      rules.Commits (statement.locks snapshot) later (statement.write snapshot later) ∧
      ∀ final, rules.invariant final → rules.grows (statement.write snapshot later) final →
        post (statement.result snapshot) .closed final) :
    rules.Safe post (Transactions.execute statement : Program σ κ ε α) .closed db := by
  change rules.Safe post ((Transactions.execute statement : Program σ κ ε α) >>= fun value => .returned value) .closed db
  refine Safe.execute fun snapshot later valid moved kept held => ?_
  obtain ⟨commits, done⟩ := resume snapshot later valid moved kept held
  exact ⟨commits, fun _ final last growth => done final last growth.1⟩

theorem Safe.executeRead {γ : Type} {result : σ → γ} {next : γ → Program σ κ ε α}
    (resume : ∀ snapshot later, rules.invariant snapshot → rules.grows db snapshot → rules.invariant later →
      rules.grows snapshot later → rules.Safe post (next (result snapshot)) .closed later) :
    rules.Safe post (Transactions.execute (.read result) >>= next) .closed db :=
  Safe.execute fun snapshot later valid moved kept held =>
    ⟨Commits.unchanged kept, fun _ => resume snapshot later valid moved kept held.1⟩

end Steps

/-- What one call has established so far, whether it still runs or not. -/
def Fits (rules : Rules σ κ) (post : Nat → α → σ → Prop) (index : Nat) (db : σ) : Call σ κ ε α → Prop
  | .running transaction program => rules.Safe (fun value _ => post index value) program transaction db
  | .finished value => post index value db
  | .crashed => True

structure Covers (rules : Rules σ κ) (system : System σ κ ε α) (post : Nat → α → σ → Prop) : Prop where
  permits : ∀ {own others before after}, system.permits own others before after → rules.permits own others before after
  admits : ∀ {index program db}, system.admits index program → rules.invariant db →
    rules.Safe (fun value _ => post index value) program .closed db
  lasting : ∀ {index value before after}, rules.invariant after → rules.grows before after →
    post index value before → post index value after

structure Holds (rules : Rules σ κ) (post : Nat → α → σ → Prop) (world : World σ κ ε α) : Prop where
  invariant : rules.invariant world.db
  exclusive : ∀ {index call key}, world.calls[index]? = some call → key ∈ call.held → ¬ world.Others index key
  fits : ∀ {index call}, world.calls[index]? = some call → rules.Fits post index world.db call

section Runs

variable {system : System σ κ ε α} {post : Nat → α → σ → Prop} {world next : World σ κ ε α}

theorem Holds.start {db : σ} (valid : rules.invariant db) :
    rules.Holds post (⟨db, []⟩ : World σ κ ε α) :=
  ⟨valid, fun found => by simp at found, fun found => by simp at found⟩

theorem Fits.later (covers : rules.Covers system post) {call : Call σ κ ε α} {index : Nat} {before after : σ}
    (valid : rules.invariant after) (moved : rules.Moves call.held before after)
    (fits : rules.Fits post index before call) : rules.Fits post index after call := by
  cases call with
  | running transaction program => exact Safe.later fits moved
  | finished value => exact covers.lasting valid moved.1 fits
  | crashed => trivial

theorem set_found {γ : Type*} {calls : List γ} {index : Nat} {call found : γ}
    (member : (calls.set index call)[index]? = some found) : found = call := by
  rw [List.getElem?_set_self'] at member
  cases present : calls[index]? with
  | none => simp [present] at member
  | some old => simpa [present] using member.symm

theorem others_replace {db : σ} {index other : Nat} {call : Call σ κ ε α} {key : κ} (apart : other ≠ index)
    (held : World.Others ⟨db, world.calls.set index call⟩ other key) :
    world.Others other key ∨ key ∈ call.held := by
  obtain ⟨third, found, different, member, owned⟩ := held
  by_cases same : third = index
  · subst same
    exact .inr (set_found member ▸ owned)
  · rw [List.getElem?_set_ne (Ne.symm same)] at member
    exact .inl ⟨third, found, different, member, owned⟩

theorem Holds.replace (covers : rules.Covers system post) (holds : rules.Holds post world)
    {index : Nat} {call : Call σ κ ε α} {db : σ} (valid : rules.invariant db)
    (growth : rules.grows world.db db) (kept : ∀ key, world.Others index key → rules.keeps key world.db db)
    (free : ∀ key ∈ call.held, ¬ world.Others index key) (fits : rules.Fits post index db call) :
    rules.Holds post ⟨db, world.calls.set index call⟩ := by
  refine ⟨valid, ?_, ?_⟩
  · intro other found key member owned blocked
    by_cases same : other = index
    · subst same
      obtain ⟨third, last, different, inside, taken⟩ := blocked
      rw [List.getElem?_set_ne (Ne.symm different)] at inside
      exact free key (set_found member ▸ owned) ⟨third, last, different, inside, taken⟩
    · rw [List.getElem?_set_ne (Ne.symm same)] at member
      cases others_replace same blocked with
      | inl before => exact holds.exclusive member owned before
      | inr taken => exact free key taken ⟨other, found, same, member, owned⟩
  · intro other found member
    by_cases same : other = index
    · subst same
      exact set_found member ▸ fits
    · rw [List.getElem?_set_ne (Ne.symm same)] at member
      exact Fits.later covers valid ⟨growth, fun key owned => kept key ⟨other, found, same, member, owned⟩⟩
        (holds.fits member)

theorem Holds.put (covers : rules.Covers system post) (holds : rules.Holds post world)
    {index : Nat} {call : Call σ κ ε α} (free : ∀ key ∈ call.held, ¬ world.Others index key)
    (fits : rules.Fits post index world.db call) : rules.Holds post (world.put index call) :=
  holds.replace covers holds.invariant (rules.grows_refl _) (fun _ _ => rules.keeps_refl _ _) free fits

theorem Holds.entering (covers : rules.Covers system post) (holds : rules.Holds post world)
    {program : Program σ κ ε α} (admitted : system.admits world.calls.length program) :
    rules.Holds post { world with calls := world.calls ++ [.running .closed program] } := by
  have old : ∀ {index : Nat} {call : Call σ κ ε α},
      (world.calls ++ [.running .closed program])[index]? = some call →
      world.calls[index]? = some call ∨ index = world.calls.length ∧ call = .running .closed program := by
    intro index call member
    simp only [List.getElem?_append, List.getElem?_singleton] at member
    split at member
    · exact .inl member
    · split at member
      next outside first =>
        cases member
        exact .inr ⟨by omega, rfl⟩
      next => cases member
  refine ⟨holds.invariant, ?_, ?_⟩
  · intro index call key member owned blocked
    obtain ⟨other, found, apart, inside, taken⟩ := blocked
    cases old member with
    | inr added => rw [added.2] at owned; cases owned
    | inl member =>
      cases old inside with
      | inr added => rw [added.2] at taken; cases taken
      | inl inside => exact holds.exclusive member owned ⟨other, found, apart, inside, taken⟩
  · intro index call member
    cases old member with
    | inl member => exact holds.fits member
    | inr added =>
      rw [added.1, added.2]
      exact covers.admits admitted holds.invariant

/-- The rules of a run from a database where the fact holds already, if no commit undoes it. -/
def adding (rules : Rules σ κ) (fact : σ → Prop) : Rules σ κ :=
  { rules with invariant := fun db => rules.invariant db ∧ fact db }

theorem Safe.adding {fact : σ → Prop} (lasts : ∀ {a b}, rules.grows a b → fact a → fact b) {post : α → Open σ κ → σ → Prop}
    {program : Program σ κ ε α} {transaction : Open σ κ} {db : σ} (safe : rules.Safe post program transaction db) :
    (rules.adding fact).Safe post program transaction db := by
  induction program generalizing transaction db with
  | returned value => exact fun later valid moved => safe later valid.1 moved
  | query statement next ih => exact fun later valid moved => ih _ (safe later valid.1 moved)
  | commit next ih =>
    intro later valid moved others apart permitted
    obtain ⟨⟨kept, growth, quiet⟩, rest⟩ := safe later valid.1 moved others apart permitted
    exact ⟨⟨⟨kept, lasts growth valid.2⟩, growth, quiet⟩, ih rest⟩
  | rollback next ih => exact fun later valid moved => ih (safe later valid.1 moved)
  | receive next ih => exact fun answer => ih answer (safe answer)

theorem Covers.adding {fact : σ → Prop} (lasts : ∀ {a b}, rules.grows a b → fact a → fact b)
    (covers : rules.Covers system post) : (rules.adding fact).Covers system post :=
  ⟨covers.permits, fun admitted valid => (covers.admits admitted valid.1).adding lasts, fun valid => covers.lasting valid.1⟩

theorem Holds.adding {fact : σ → Prop} (lasts : ∀ {a b}, rules.grows a b → fact a → fact b) {later : Nat → α → σ → Prop}
    (holds : rules.Holds post world) (now : fact world.db)
    (implies : ∀ index value db, index < world.calls.length → rules.invariant db → post index value db → later index value db) :
    (rules.adding fact).Holds later world := by
  refine ⟨⟨holds.invariant, now⟩, holds.exclusive, fun {index call} member => ?_⟩
  have inside : index < world.calls.length := (List.getElem?_eq_some_iff.mp member).1
  have fits := holds.fits member
  cases call with
  | running transaction program =>
    have weaker : rules.Safe (fun value _ => later index value) program transaction world.db :=
      Safe.weaken fits fun value _ db valid => implies index value db inside valid
    exact weaker.adding lasts
  | finished value => exact implies index value world.db inside holds.invariant fits
  | crashed => trivial

variable [DecidableEq κ]

theorem free_of_othersHold {index : Nat} {keys : List κ} (free : world.othersHold index keys = false) :
    ∀ key ∈ keys, ¬ world.Others index key := by
  intro key wanted blocked
  obtain ⟨other, found, apart, member, owned⟩ := blocked
  simp only [World.othersHold, List.any_eq_false, Bool.and_eq_true, bne_iff_ne, ne_eq, not_and,
    List.any_eq_true, decide_eq_true_eq, not_exists] at free
  exact free (found, other) (List.mem_zipIdx_iff_getElem?.mpr member) apart key owned wanted

theorem Holds.advance (covers : rules.Covers system post) (holds : rules.Holds post world)
    {index : Nat} {answer : ε} (advanced : world.advance index answer = some next)
    (permitted : system.permits (world.held index) (world.Others index) world.db next.db) :
    rules.Holds post next ∧ rules.grows world.db next.db := by
  have valid := holds.invariant
  unfold World.advance at advanced
  split at advanced
  next transaction program member =>
    have safe : rules.Safe (fun value _ => post index value) program transaction world.db := holds.fits member
    have mine : ∀ key ∈ transaction.held, ¬ world.Others index key := fun key owned =>
      holds.exclusive member owned
    cases program with
    | returned value =>
      cases advanced
      exact ⟨holds.put covers (fun _ owned => by cases owned) (safe _ valid (.refl _ _)), rules.grows_refl _⟩
    | query statement next =>
      simp only at advanced
      split at advanced
      · cases advanced
      next free =>
        cases advanced
        refine ⟨holds.put covers ?_ (safe _ valid (.refl _ _)), rules.grows_refl _⟩
        intro key owned
        cases List.mem_append.mp owned with
        | inl taken => exact free_of_othersHold (Bool.eq_false_iff.mpr free) key taken
        | inr already => exact mine key already
    | commit rest =>
      cases advanced
      have own : world.held index = transaction.held := by simp [World.held, member, Call.held]
      obtain ⟨⟨kept, growth, apart⟩, safe⟩ := safe _ valid (.refl _ _) _ mine (own ▸ covers.permits permitted)
      exact ⟨holds.replace covers kept growth apart (fun _ owned => by cases owned) safe, growth⟩
    | rollback rest =>
      cases advanced
      exact ⟨holds.put covers (fun _ owned => by cases owned) (safe _ valid (.refl _ _)), rules.grows_refl _⟩
    | receive rest =>
      cases advanced
      exact ⟨holds.put covers mine (safe answer), rules.grows_refl _⟩
  next => cases advanced

theorem Holds.step (covers : rules.Covers system post) (holds : rules.Holds post world)
    (moved : Step system world next) : rules.Holds post next ∧ rules.grows world.db next.db := by
  cases moved with
  | start admitted => exact ⟨holds.entering covers admitted, rules.grows_refl _⟩
  | advance advanced permitted => exact holds.advance covers advanced permitted
  | crash inside => exact ⟨holds.put covers (fun _ owned => by cases owned) trivial, rules.grows_refl _⟩

/-- Whatever the interleaving and the crashes, the invariant and the answers
already given keep holding. -/
theorem Holds.run (covers : rules.Covers system post) (holds : rules.Holds post world)
    (run : Run system world next) : rules.Holds post next ∧ rules.grows world.db next.db := by
  induction run with
  | refl => exact ⟨holds, rules.grows_refl _⟩
  | tail _ moved ih =>
    obtain ⟨kept, growth⟩ := ih.1.step covers moved
    exact ⟨kept, rules.grows_trans ih.2 growth⟩

end Runs

/-! One call among the others: what it may write, and what it returns. -/

section Confined

variable (rules : Rules σ κ) (writes : σ → σ → Prop) (returns : α → Prop)

def Confined : Program σ κ ε α → Open σ κ → σ → Prop
  | .returned value, _, _ => returns value
  | .query statement next, transaction, db =>
    ∀ later, rules.invariant later → rules.Moves transaction.held db later →
      Confined (next (statement.result (transaction.patch later))) (transaction.after statement later) later
  | .commit next, transaction, db =>
    ∀ later, rules.invariant later → rules.Moves transaction.held db later →
      writes later (transaction.patch later) ∧
      (rules.invariant (transaction.patch later) → Confined next .closed (transaction.patch later))
  | .rollback next, transaction, db =>
    ∀ later, rules.invariant later → rules.Moves transaction.held db later → Confined next .closed later
  | .receive next, transaction, db => ∀ answer, Confined (next answer) transaction db

def Bound (db : σ) : Call σ κ ε α → Prop
  | .running transaction program => rules.Confined writes returns program transaction db
  | .finished value => returns value
  | .crashed => True

def BoundAt (index : Nat) (world : World σ κ ε α) : Prop :=
  ∀ call, world.calls[index]? = some call → rules.Bound writes returns world.db call

variable {rules writes returns}

theorem Confined.later {program : Program σ κ ε α} {transaction : Open σ κ} {db after : σ}
    (confined : rules.Confined writes returns program transaction db) (moved : rules.Moves transaction.held db after) :
    rules.Confined writes returns program transaction after := by
  induction program with
  | returned value => exact confined
  | query statement next _ => exact fun later valid last => confined later valid (moved.trans last)
  | commit next _ => exact fun later valid last => confined later valid (moved.trans last)
  | rollback next _ => exact fun later valid last => confined later valid (moved.trans last)
  | receive next ih => exact fun answer => ih answer (confined answer)

theorem Bound.later {call : Call σ κ ε α} {db after : σ} (bound : rules.Bound writes returns db call)
    (moved : rules.Moves call.held db after) : rules.Bound writes returns after call := by
  cases call with
  | running transaction program => exact Confined.later bound moved
  | finished value => exact bound
  | crashed => trivial

theorem boundAt_set {world : World σ κ ε α} {index : Nat} {call : Call σ κ ε α} {db : σ}
    (bound : rules.Bound writes returns db call) :
    rules.BoundAt writes returns index ⟨db, world.calls.set index call⟩ := by
  intro found member
  rw [set_found member]
  exact bound

variable [DecidableEq κ] {system : System σ κ ε α} {post : Nat → α → σ → Prop} {world next : World σ κ ε α}
  {index other : Nat} {answer : ε}

theorem Holds.kept (covers : rules.Covers system post) (holds : rules.Holds post world)
    (advanced : world.advance other answer = some next)
    (permitted : system.permits (world.held other) (world.Others other) world.db next.db) {call : Call σ κ ε α}
    (apart : index ≠ other) (found : world.calls[index]? = some call) : rules.Moves call.held world.db next.db := by
  unfold World.advance at advanced
  split at advanced
  next transaction program member =>
    cases program with
    | commit rest =>
      cases advanced
      have own : world.held other = transaction.held := by simp [World.held, member, Call.held]
      have mine : ∀ key ∈ transaction.held, ¬ world.Others other key := fun key owned => holds.exclusive member owned
      have safe : rules.Safe (fun value _ => post other value) (.commit rest) transaction world.db := holds.fits member
      obtain ⟨⟨_, growth, quiet⟩, _⟩ := safe _ holds.invariant (.refl _ _) _ mine (own ▸ covers.permits permitted)
      exact ⟨growth, fun key owned => quiet key ⟨index, call, apart, found, owned⟩⟩
    | query statement rest =>
      simp only at advanced
      split at advanced
      · cases advanced
      · cases advanced
        exact .refl _ _
    | returned | rollback | receive =>
      cases advanced
      exact .refl _ _
  next => cases advanced

theorem advance_replaces (advanced : world.advance index answer = some next) :
    ∃ db call, next = ⟨db, world.calls.set index call⟩ := by
  unfold World.advance at advanced
  split at advanced
  next transaction program member =>
    cases program with
    | query statement rest =>
      simp only at advanced
      split at advanced
      · cases advanced
      · cases advanced
        exact ⟨_, _, rfl⟩
    | returned | commit | rollback | receive =>
      cases advanced
      exact ⟨_, _, rfl⟩
  next => cases advanced

theorem BoundAt.advance (bound : rules.BoundAt writes returns index world) (valid : rules.invariant world.db)
    (still : rules.invariant next.db) (advanced : world.advance index answer = some next) :
    rules.BoundAt writes returns index next ∧ (next.db = world.db ∨ writes world.db next.db) := by
  unfold World.advance at advanced
  split at advanced
  next transaction program member =>
    have confined : rules.Confined writes returns program transaction world.db := bound _ member
    cases program with
    | returned value =>
      cases advanced
      exact ⟨boundAt_set confined, .inl rfl⟩
    | query statement rest =>
      simp only at advanced
      split at advanced
      · cases advanced
      · cases advanced
        exact ⟨boundAt_set (confined _ valid (.refl _ _)), .inl rfl⟩
    | commit rest =>
      cases advanced
      obtain ⟨written, rest⟩ := confined _ valid (.refl _ _)
      exact ⟨boundAt_set (rest still), .inr written⟩
    | rollback rest =>
      cases advanced
      exact ⟨boundAt_set (confined _ valid (.refl _ _)), .inl rfl⟩
    | receive rest =>
      cases advanced
      exact ⟨boundAt_set (confined _), .inl rfl⟩
  next => cases advanced

theorem BoundAt.step (covers : rules.Covers system post) (holds : rules.Holds post world)
    (inside : index < world.calls.length) (bound : rules.BoundAt writes returns index world)
    (moved : Step system world next) : rules.BoundAt writes returns index next ∧ index < next.calls.length := by
  cases moved with
  | start admitted =>
    refine ⟨fun call found => ?_, by simp only [List.length_append]; omega⟩
    rw [List.getElem?_append_left inside] at found
    exact bound call found
  | @advance _ other answer advanced permitted =>
    obtain ⟨db, call, rfl⟩ := advance_replaces advanced
    refine ⟨?_, by simpa using inside⟩
    by_cases same : index = other
    · subst same
      exact (bound.advance holds.invariant (holds.advance covers advanced permitted).1.invariant advanced).1
    · intro call found
      change (world.calls.set other _)[index]? = some call at found
      rw [List.getElem?_set_ne (Ne.symm same)] at found
      exact (bound call found).later (holds.kept covers advanced permitted same found)
  | @crash other crashed =>
    refine ⟨fun call found => ?_, by simpa [World.put] using inside⟩
    by_cases same : index = other
    · subst same
      rw [set_found found]
      trivial
    · change (world.calls.set other .crashed)[index]? = some call at found
      rw [List.getElem?_set_ne (Ne.symm same)] at found
      exact bound call found

theorem BoundAt.run (covers : rules.Covers system post) (holds : rules.Holds post world)
    (inside : index < world.calls.length) (bound : rules.BoundAt writes returns index world)
    (run : Run system world next) : rules.BoundAt writes returns index next := by
  have both : rules.Holds post next ∧ rules.BoundAt writes returns index next ∧ index < next.calls.length := by
    induction run with
    | refl => exact ⟨holds, bound, inside⟩
    | tail _ moved ih =>
      obtain ⟨kept, still, present⟩ := ih
      exact ⟨(kept.step covers moved).1, BoundAt.step covers kept present still moved⟩
  exact both.2.1

end Confined

end Rules

end AgentSaas.Proofs.TransactionSafety
