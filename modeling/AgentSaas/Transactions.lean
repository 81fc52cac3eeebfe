import Mathlib.Logic.Relation
import Mathlib.Data.List.Basic

/-! Interleaved database sessions. A call is a program of SQL statements; its
writes stay private until it commits, its locks block every other call until
the transaction ends, and it may stop at any statement. Nothing here names a
table: the rows, the locks and the programs are parameters. -/

namespace AgentSaas.Transactions

/-- One statement: the locks it must own, the rows it returns and the patch it
makes, all computed from the snapshot it runs on. -/
structure Statement (σ κ β : Type) where
  locks : σ → List κ
  result : σ → β
  write : σ → σ → σ

namespace Statement

/-- A plain read takes no lock and writes nothing. -/
def read (result : σ → β) : Statement σ κ β := ⟨fun _ => [], result, fun _ => id⟩

/-- A locking read, such as `SELECT ... FOR UPDATE` or an advisory lock. -/
def lock (locks : σ → List κ) (result : σ → β) : Statement σ κ β := ⟨locks, result, fun _ => id⟩

end Statement

/-- The code of one call. `receive` is an answer from outside the database: a
clock reading, or whether a remote service failed. -/
inductive Program (σ κ ε : Type) (α : Type) : Type 1 where
  | returned (value : α)
  | query {β : Type} (statement : Statement σ κ β) (next : β → Program σ κ ε α)
  | commit (next : Program σ κ ε α)
  | rollback (next : Program σ κ ε α)
  | receive (next : ε → Program σ κ ε α)

namespace Program

def bind (program : Program σ κ ε α) (next : α → Program σ κ ε β) : Program σ κ ε β :=
  match program with
  | .returned value => next value
  | .query statement rest => .query statement fun value => (rest value).bind next
  | .commit rest => .commit (rest.bind next)
  | .rollback rest => .rollback (rest.bind next)
  | .receive rest => .receive fun value => (rest value).bind next

instance : Monad (Program σ κ ε) where
  pure := .returned
  bind := .bind

theorem bind_bind (program : Program σ κ ε α) (first : α → Program σ κ ε β) (last : β → Program σ κ ε γ) :
    program >>= first >>= last = program >>= fun value => first value >>= last := by
  change (program.bind first).bind last = program.bind fun value => (first value).bind last
  induction program with
  | returned value => rfl
  | query statement next ih => exact congrArg (query statement) (funext ih)
  | commit next ih => exact congrArg commit ih
  | rollback next ih => exact congrArg rollback ih
  | receive next ih => exact congrArg receive (funext ih)

end Program

/-- `client.query(...)` inside a transaction. -/
def query (statement : Statement σ κ β) : Program σ κ ε β := .query statement .returned

def commit : Program σ κ ε Unit := .commit (.returned ())

def rollback : Program σ κ ε Unit := .rollback (.returned ())

def receive : Program σ κ ε ε := .receive .returned

/-- `pool.query(...)`: a statement that is its own transaction. -/
def execute (statement : Statement σ κ β) : Program σ κ ε β :=
  .query statement fun value => .commit (.returned value)

/-- What a call holds between two statements. The patch maps the committed
database to the one this call sees. -/
structure Open (σ κ : Type) where
  held : List κ
  patch : σ → σ

def Open.closed : Open σ κ := ⟨[], id⟩

def Open.after (transaction : Open σ κ) (statement : Statement σ κ β) (db : σ) : Open σ κ :=
  ⟨statement.locks (transaction.patch db) ++ transaction.held,
    statement.write (transaction.patch db) ∘ transaction.patch⟩

inductive Call (σ κ ε : Type) (α : Type) : Type 1 where
  | running (transaction : Open σ κ) (program : Program σ κ ε α)
  | finished (value : α)
  | crashed

def Call.held : Call σ κ ε α → List κ
  | .running transaction _ => transaction.held
  | _ => []

/-- Calls are numbered in the order they start, so a number is never reused. -/
structure World (σ κ ε : Type) (α : Type) where
  db : σ
  calls : List (Call σ κ ε α)

namespace World

variable {σ κ ε α : Type}

def held (world : World σ κ ε α) (index : Nat) : List κ := (world.calls[index]?.map Call.held).getD []

def Others (world : World σ κ ε α) (index : Nat) (key : κ) : Prop :=
  ∃ other call, other ≠ index ∧ world.calls[other]? = some call ∧ key ∈ call.held

def put (world : World σ κ ε α) (index : Nat) (call : Call σ κ ε α) : World σ κ ε α :=
  { world with calls := world.calls.set index call }

def othersHold [DecidableEq κ] (world : World σ κ ε α) (index : Nat) (keys : List κ) : Bool :=
  world.calls.zipIdx.any fun entry => entry.2 != index && entry.1.held.any fun key => decide (key ∈ keys)

/-- One await of one call. A statement whose locks are taken has to wait, which
is no step at all. -/
def advance [DecidableEq κ] (world : World σ κ ε α) (index : Nat) (answer : ε) : Option (World σ κ ε α) :=
  match world.calls[index]? with
  | some (.running transaction program) =>
    match program with
    | .returned value => some (world.put index (.finished value))
    | .query statement next =>
      if world.othersHold index (statement.locks (transaction.patch world.db)) then none
      else some (world.put index (.running (transaction.after statement world.db)
        (next (statement.result (transaction.patch world.db)))))
    | .commit next =>
      some { world with db := transaction.patch world.db, calls := world.calls.set index (.running .closed next) }
    | .rollback next => some (world.put index (.running .closed next))
    | .receive next => some (world.put index (.running transaction (next answer)))
  | _ => none

end World

/-- Which programs may be called, and which commits a conditional result
assumes, given the locks of the committing call and of the others. An
unconditional result permits every commit. -/
structure System (σ κ ε : Type) (α : Type) where
  admits : Nat → Program σ κ ε α → Prop
  permits : List κ → (κ → Prop) → σ → σ → Prop

/-- The runs of the system that never reach such a database. -/
def System.avoiding (system : System σ κ ε α) (reached : σ → Prop) : System σ κ ε α where
  admits := system.admits
  permits own others before after := system.permits own others before after ∧ ¬reached after

inductive Step [DecidableEq κ] (system : System σ κ ε α) : World σ κ ε α → World σ κ ε α → Prop
  | start {world program} (admitted : system.admits world.calls.length program) :
      Step system world { world with calls := world.calls ++ [.running .closed program] }
  | advance {world after index answer} (advanced : world.advance index answer = some after)
      (permitted : system.permits (world.held index) (world.Others index) world.db after.db) : Step system world after
  | crash {world index} (inside : index < world.calls.length) : Step system world (world.put index .crashed)

def Run [DecidableEq κ] (system : System σ κ ε α) : World σ κ ε α → World σ κ ε α → Prop :=
  Relation.ReflTransGen (Step system)

namespace World

variable {σ κ ε α : Type}

def spawn (world : World σ κ ε α) (programs : List (Program σ κ ε α)) : World σ κ ε α :=
  { world with calls := world.calls ++ programs.map (.running .closed) }

/-- Advance the calls in this order, with these answers from outside, as long as
every step passes the check. -/
def play [DecidableEq κ] (world : World σ κ ε α) (check : List κ → σ → σ → Bool) : List (Nat × ε) → Option (World σ κ ε α)
  | [] => some world
  | (index, answer) :: rest =>
    match world.advance index answer with
    | none => none
    | some next => if check (world.held index) world.db next.db then next.play check rest else none

def playWhere [DecidableEq κ] (world : World σ κ ε α) (check : World σ κ ε α → Nat → World σ κ ε α → Bool) :
    List (Nat × ε) → Option (World σ κ ε α)
  | [] => some world
  | (index, answer) :: rest =>
    (world.advance index answer).bind fun next => if check world index next then next.playWhere check rest else none

end World

theorem run_of_spawn [DecidableEq κ] {system : System σ κ ε α} {world : World σ κ ε α}
    (programs : List (Program σ κ ε α)) (admitted : ∀ program ∈ programs, ∀ index, system.admits index program) :
    Run system world (world.spawn programs) := by
  induction programs generalizing world with
  | nil =>
    rw [show world.spawn ([] : List (Program σ κ ε α)) = world by simp [World.spawn]]
    exact .refl
  | cons program rest ih =>
    let next : World σ κ ε α := { world with calls := world.calls ++ [.running .closed program] }
    have first : Step system world next := .start (admitted program List.mem_cons_self _)
    have others : Run system next (next.spawn rest) := ih fun other member =>
      admitted other (List.mem_cons_of_mem _ member)
    rw [show world.spawn (program :: rest) = next.spawn rest by simp [World.spawn, next]]
    exact .head first others

theorem run_of_play [DecidableEq κ] {system : System σ κ ε α} {check : List κ → σ → σ → Bool}
    (sound : ∀ own others before after, check own before after → system.permits own others before after)
    {schedule : List (Nat × ε)} {world after : World σ κ ε α} (played : world.play check schedule = some after) :
    Run system world after := by
  induction schedule generalizing world with
  | nil =>
    cases played
    exact .refl
  | cons turn rest ih =>
    unfold World.play at played
    split at played
    · cases played
    next next advanced =>
      split at played
      next passed => exact .head (.advance advanced (sound _ _ _ _ passed)) (ih played)
      next => cases played

theorem run_of_playWhere [DecidableEq κ] {system : System σ κ ε α} {check : World σ κ ε α → Nat → World σ κ ε α → Bool}
    (sound : ∀ world index next, check world index next = true →
      system.permits (world.held index) (world.Others index) world.db next.db)
    {schedule : List (Nat × ε)} {world after : World σ κ ε α} (played : world.playWhere check schedule = some after) :
    Run system world after := by
  induction schedule generalizing world with
  | nil =>
    cases played
    exact .refl
  | cons turn rest ih =>
    obtain ⟨next, advanced, played⟩ := Option.bind_eq_some_iff.mp played
    split at played
    next passed => exact .head (.advance advanced (sound _ _ _ passed)) (ih played)
    next => cases played

end AgentSaas.Transactions
