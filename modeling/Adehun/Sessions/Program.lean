import Mathlib.Logic.Function.Basic
import Mathlib.Data.List.Basic

/-!
# Programs over a shared database

A request handler of a web application is straight-line code with effects:
it reads rows, stages changes in a session, takes row locks, commits, and
now and then waits for an answer from outside. What it never sees is who
else is running. This module gives such code a syntax that leaves the
schedule open: a `Prog` is a tree whose nodes are the statements of the
code, and whose branches are what the code does with each possible answer,
an exception included.

The statements speak about a `System`: the tables with their unique index
entries and checks, the store shared besides the database, and the calls to
the outside. Nothing here runs anything; the machine that interleaves
several programs is the next module's business.
-/

namespace Sessions

/-- A database schema with the world around it. -/
structure System where
  /-- The tables, and the rows each of them holds. -/
  Table : Type
  [decTable : DecidableEq Table]
  Row : Table → Type
  /-- The primary key of a row. -/
  id : {t : Table} → Row t → Nat
  /-- What a unique index stores: a row occupies the entries it lists. -/
  Index : Type
  [decIndex : DecidableEq Index]
  entries : {t : Table} → Row t → List Index
  /-- The exceptions a program can raise or catch. -/
  Exn : Type
  /-- The exception a row violating its own checks raises when written. -/
  check : {t : Table} → Row t → Option Exn
  integrityError : Exn
  databaseError : Exn
  staleDataError : Exn
  failedTransaction : Exn
  noResultFound : Exn
  sharedError : Exn
  /-- The store shared besides the database, and what may happen to it by
  itself. -/
  Shared : Type
  Ambient : Type
  ambient : Ambient → Shared → Shared
  /-- The wall clock, which time passing is an ambient event of. -/
  clock : Shared → Nat
  /-- Calls to the outside and their answers. -/
  Call : Type
  Reply : Type

attribute [instance] System.decTable System.decIndex

variable {M : System}

/-- A row of a table, named by its primary key. -/
structure Key (M : System) where
  table : M.Table
  id : Nat
deriving DecidableEq

/-- The committed (or viewed) contents of every table. -/
def Db (M : System) : Type := (t : M.Table) → List (M.Row t)

/-- Some columns of a row assigned; the primary key is not among them. -/
structure Patch (M : System) (t : M.Table) where
  run : M.Row t → M.Row t
  id_run : ∀ r, M.id (run r) = M.id r := by intro r; rfl

/-- One row written. -/
inductive Write (M : System) : Type
  | insert (t : M.Table) (r : M.Row t)
  | update (t : M.Table) (id : Nat) (f : Patch M t)
  | delete (t : M.Table) (id : Nat)

/-- The statements of a session. -/
inductive Stmt (M : System) : Type → Type 1
  /-- A query whose result no object of the session stands for. -/
  | select {X : Type} (q : Db M → X) : Stmt M X
  /-- A query for mapped objects: a row whose object the session still has
  is answered by that object, as it was loaded. -/
  | load (t : M.Table) (q : Db M → List Nat) : Stmt M (List (M.Row t))
  /-- One object by primary key, without SQL when the session has it. With
  `held` the program itself still refers to the object. -/
  | get (held : Bool) (k : Key M) : Stmt M (Option (M.Row k.table))
  /-- `SELECT ... FOR UPDATE` of at most one mapped object. -/
  | lock (t : M.Table) (q : Db M → Option Nat) : Stmt M (Option (M.Row t))
  /-- Reload one object. -/
  | refresh (k : Key M) : Stmt M (M.Row k.table)
  /-- Add a new object, or assign attributes of a loaded one. No SQL. -/
  | stage (d : Write M) : Stmt M Unit
  /-- Send everything staged. -/
  | flush : Stmt M Unit
  /-- A statement sent past the session's unit of work, such as `INSERT ...
  ON CONFLICT`: it waits for the transactions that hold the given index
  entries, then writes what it finds right. -/
  | upsert {X : Type} (waits : List M.Index) (f : Db M → List (Write M) × X) :
      Stmt M X
  | commit : Stmt M Unit
  | rollback : Stmt M Unit
  /-- Wait for the outside. -/
  | await (c : M.Call) : Stmt M M.Reply
  /-- One atomic command on the shared store. -/
  | shared {X : Type} (f : M.Shared → M.Shared × X) : Stmt M X
  /-- A random identifier. -/
  | fresh : Stmt M Nat
  /-- The time of day. -/
  | now : Stmt M Nat

/-- A program: a value, an exception, or a statement and what to do with
its outcome. -/
inductive Prog (M : System) (α : Type) : Type 1
  | ret (a : α)
  | raise (e : M.Exn)
  | call {X : Type} (s : Stmt M X) (k : Except M.Exn X → Prog M α)

namespace Prog

variable {α β γ : Type}

/-- Run `f` on the value `p` ends with; an exception of `p` ends both. -/
def bind (p : Prog M α) (f : α → Prog M β) : Prog M β :=
  match p with
  | .ret a => f a
  | .raise e => .raise e
  | .call s k => .call s fun r => bind (k r) f

/-- Run `h` on the exception `p` ends with. -/
def tryCatch (p : Prog M α) (h : M.Exn → Prog M α) : Prog M α :=
  match p with
  | .ret a => .ret a
  | .raise e => h e
  | .call s k => .call s fun r => tryCatch (k r) h

instance : Monad (Prog M) where
  pure := .ret
  bind := Prog.bind

/-- How `p` ended, as a value: nothing raised gets past it. -/
def attempt (p : Prog M α) : Prog M (Except M.Exn α) :=
  tryCatch (bind p fun a => .ret (.ok a)) fun e => .ret (.error e)

/-- Run `fin` however `p` ends, then end as `p` did. -/
def ensuring (p : Prog M α) (fin : Prog M Unit) : Prog M α :=
  bind (attempt p) fun
    | .ok a => bind fin fun _ => .ret a
    | .error e => bind fin fun _ => .raise e

/-- A program of one statement. -/
def perform {X : Type} (s : Stmt M X) : Prog M X :=
  .call s fun
    | .ok x => .ret x
    | .error e => .raise e

/-- Run `f` on every element in turn. -/
def forEach (f : α → Prog M β) : List α → Prog M (List β)
  | [] => .ret []
  | a :: as => bind (f a) fun b => bind (forEach f as) fun bs => .ret (b :: bs)

theorem bind_assoc (p : Prog M α) (f : α → Prog M β) (g : β → Prog M γ) :
    bind (bind p f) g = bind p fun a => bind (f a) g := by
  induction p with
  | ret a => rfl
  | raise e => rfl
  | call s k ih =>
      simp only [bind]
      congr 1
      funext r
      exact ih r

theorem bind_ret (p : Prog M α) : bind p .ret = p := by
  induction p with
  | ret a => rfl
  | raise e => rfl
  | call s k ih =>
      simp only [bind]
      congr 1
      funext r
      exact ih r

instance : LawfulMonad (Prog M) :=
  LawfulMonad.mk' _ bind_ret (fun _ _ => rfl) bind_assoc

/-! ## Properties of programs that their parts pass on -/

/-- A property that a program has when the programs it runs one after the
other have it. -/
structure Sequential (K : (α : Type) → Prog M α → Prop) : Prop where
  ret : ∀ {α : Type} (a : α), K α (.ret a)
  raise : ∀ {α : Type} (e : M.Exn), K α (.raise e)
  bind : ∀ {α β : Type} {p : Prog M α} {f : α → Prog M β},
    K α p → (∀ a, K β (f a)) → K β (p.bind f)

/-- A property that a program has when the programs it is put together from
have it, handlers included. -/
structure Compositional (K : (α : Type) → Prog M α → Prop) : Prop extends
    Sequential K where
  tryCatch : ∀ {α : Type} {p : Prog M α} {f : M.Exn → Prog M α},
    K α p → (∀ e, K α (f e)) → K α (p.tryCatch f)

namespace Sequential

variable {K : (α : Type) → Prog M α → Prop}

theorem ite (_ : Sequential K) {c : Prop} [Decidable c] {p q : Prog M α}
    (hp : K α p) (hq : K α q) : K α (if c then p else q) := by
  split
  · exact hp
  · exact hq

variable (h : Sequential K)

include h

theorem map {p : Prog M α} {f : α → β} (hp : K α p) : K β (f <$> p) :=
  h.bind hp fun a => h.ret (f a)

theorem forEach {f : α → Prog M β} (hf : ∀ a, K β (f a)) (as : List α) :
    K _ (Prog.forEach f as) := by
  induction as with
  | nil => exact h.ret []
  | cons a as ih => exact h.bind (hf a) fun b => h.bind ih fun bs => h.ret (b :: bs)

/-- A conditional statement in front of the rest of a program. -/
theorem ite_then {c : Prop} [Decidable c] {p : Prog M α} {f : α → Prog M β} {a : α}
    (hp : K α p) (hf : ∀ a, K β (f a)) : K β (if c then p.bind f else f a) :=
  h.ite (h.bind hp hf) (hf a)

end Sequential

namespace Compositional

variable {K : (α : Type) → Prog M α → Prop} (h : Compositional K)

include h

theorem attempt {p : Prog M α} (hp : K α p) : K _ p.attempt :=
  h.tryCatch (h.bind hp fun a => h.ret (Except.ok a)) fun e => h.ret (Except.error e)

theorem ensuring {p : Prog M α} {fin : Prog M Unit} (hp : K α p) (hfin : K _ fin) :
    K α (p.ensuring fin) := by
  refine h.bind (h.attempt hp) ?_
  intro r
  cases r with
  | ok a => exact h.bind hfin fun _ => h.ret a
  | error e => exact h.bind hfin fun _ => h.raise e

end Compositional

end Prog

end Sessions
