import Adehun.Sessions.Program

/-!
# Sessions running against one database

The machine behind the programs. Every program runs in a session of its own,
at READ COMMITTED: a statement sees what is committed when it runs, together
with what its own transaction has written. A session stages changes in
memory and sends them, one write at a time, before its next query; a write
waits until nobody else holds the row or the unique index entries it
touches, and holds them itself until its transaction ends. A commit makes
the writes of the transaction the committed state, all at once.

The session keeps the objects its queries loaded. A later query for the same
row is answered by the object, as it was loaded, until a commit, a rollback
or an explicit refresh drops it. This is the identity map of an
object-relational mapper, and the reason a row lock alone does not make the
attributes in hand current.

One step of the machine is one statement, one staged write sent, or an event
no program asked for: a crash, or something happening to the shared store.
What the machine leaves open is collected in a `Choice`.
-/

namespace Sessions

variable {M : System} {α X : Type}

/-- What a transaction can hold: a row, or an entry of a unique index. -/
inductive Lock (M : System) : Type
  | row (k : Key M)
  | entry (e : M.Index)
deriving DecidableEq

/-! ## Rows and writes -/

namespace Db

/-- The rows of one table replaced. -/
def set (db : Db M) (t : M.Table) (rows : List (M.Row t)) : Db M :=
  fun t' => if h : t = t' then h ▸ rows else db t'

/-- The row a key names. -/
def lookup (db : Db M) (k : Key M) : Option (M.Row k.table) :=
  (db k.table).find? fun r => M.id r == k.id

/-- Another row already has an index entry that `r` would take. -/
def clash (db : Db M) {t : M.Table} (r : M.Row t) : Bool :=
  (db t).any fun r' => M.id r' != M.id r && (M.entries r').any (· ∈ M.entries r)

end Db

namespace Write

/-- The row a write is about. -/
def key : Write M → Key M
  | .insert t r => ⟨t, M.id r⟩
  | .update t id _ => ⟨t, id⟩
  | .delete t id => ⟨t, id⟩

/-- The tables after a write. -/
def apply (db : Db M) : Write M → Db M
  | .insert t r => db.set t (db t ++ [r])
  | .update t id f =>
      db.set t ((db t).map fun r => if M.id r = id then f.run r else r)
  | .delete t id => db.set t ((db t).filter fun r => M.id r ≠ id)

/-- What a transaction holds from a write until it ends. -/
def locks (db : Db M) : Write M → List (Lock M)
  | .insert t r => .row ⟨t, M.id r⟩ :: (M.entries r).map .entry
  | .update t id f =>
      .row ⟨t, id⟩ :: match db.lookup ⟨t, id⟩ with
        | none => []
        | some r => (M.entries r ++ M.entries (f.run r)).map .entry
  | .delete t id =>
      .row ⟨t, id⟩ :: match db.lookup ⟨t, id⟩ with
        | none => []
        | some r => (M.entries r).map .entry

/-- The exception the database answers a write with, if it refuses it. -/
def refusal (db : Db M) : Write M → Option M.Exn
  | .insert t r =>
      if (db.lookup ⟨t, M.id r⟩).isSome || db.clash r then some M.integrityError
      else M.check r
  | .update t id f =>
      match db.lookup ⟨t, id⟩ with
      | none => some M.staleDataError
      | some r =>
          if db.clash (f.run r) then some M.integrityError
          else M.check (f.run r)
  | .delete _ _ => none

end Write

/-- Several writes, in order. -/
def Db.applyAll (db : Db M) (ds : List (Write M)) : Db M :=
  ds.foldl Write.apply db

/-! ## The state of a session and of the world -/

/-- The transaction of one session: what it has written, what is staged but
not sent, the objects it has loaded, and whether a failed statement has left
it unusable until a rollback. -/
@[ext] structure Tx (M : System) where
  writes : List (Write M) := []
  dirty : List (Write M) := []
  objects : (k : Key M) → Option (M.Row k.table) := fun _ => none
  aborted : Bool := false

/-- The committed tables, who holds what, every session's transaction, and
the shared store. -/
structure World (M : System) where
  db : Db M
  holder : Lock M → Option Nat := fun _ => none
  tx : Nat → Tx M := fun _ => {}
  shared : M.Shared

/-- What one step leaves open: whether the statement fails, whether an
object nobody is known to hold is still alive, the identifier drawn, and the
answer from outside. -/
structure Choice (M : System) where
  fail : Bool := false
  alive : Bool := false
  value : Nat := 0
  reply : Option M.Reply := none

namespace World

/-- What session `i` sees: the committed rows under its own writes. -/
def view (w : World M) (i : Nat) : Db M :=
  w.db.applyAll (w.tx i).writes

/-- What session `i` would see with everything staged sent. -/
def staged (w : World M) (i : Nat) : Db M :=
  w.db.applyAll ((w.tx i).writes ++ (w.tx i).dirty)

/-- The transaction of session `i` replaced. -/
def setTx (w : World M) (i : Nat) (t : Tx M) : World M :=
  { w with tx := Function.update w.tx i t }

/-- Nobody but session `i` holds any of these. -/
def free (w : World M) (i : Nat) (ls : List (Lock M)) : Bool :=
  ls.all fun l => w.holder l = none ∨ w.holder l = some i

/-- Session `i` holds some more. -/
def acquire (w : World M) (i : Nat) (ls : List (Lock M)) : World M :=
  { w with holder := fun l => if l ∈ ls then some i else w.holder l }

/-- Session `i` holds nothing any more. -/
def release (w : World M) (i : Nat) : World M :=
  { w with holder := fun l => (w.holder l).filter (· ≠ i) }

/-- The transaction of session `i` ends: its locks go, its objects expire. -/
def reset (w : World M) (i : Nat) : World M :=
  (w.setTx i {}).release i

/-- A statement failed: what the transaction wrote is lost, and the session
is unusable until it is rolled back. -/
def abort (w : World M) (i : Nat) : World M :=
  (w.setTx i { aborted := true }).release i

/-- What session `i` sees becomes the committed state. -/
def commit (w : World M) (i : Nat) : World M :=
  { w with db := w.view i }.reset i

/-- Session `i` keeps the object loaded for a key. -/
def remember (w : World M) (i : Nat) (k : Key M) (o : Option (M.Row k.table)) :
    World M :=
  w.setTx i { w.tx i with objects := Function.update (w.tx i).objects k o }

/-- The object of session `i` for a key if it is alive, and else the row. -/
def answer (w : World M) (i : Nat) (alive : Bool) (k : Key M) :
    Option (M.Row k.table) :=
  match (w.tx i).objects k with
  | some o => if alive then some o else (w.view i).lookup k
  | none => (w.view i).lookup k

/-- Keep the objects a query for mapped rows has answered with. -/
def rememberAll (w : World M) (i : Nat) (alive : Bool) (ks : List (Key M)) :
    World M :=
  ks.foldl (fun w k => w.remember i k (w.answer i alive k)) w

/-- Add or assign in memory: the object in the session changes at once. -/
def stage (w : World M) (i : Nat) (d : Write M) : World M :=
  let t := w.tx i
  w.setTx i { t with
    dirty := t.dirty ++ [d]
    objects := match d with
      | .insert tb r => Function.update t.objects ⟨tb, M.id r⟩ (some r)
      | .update tb id f =>
          Function.update t.objects ⟨tb, id⟩ ((t.objects ⟨tb, id⟩).map f.run)
      | .delete tb id => Function.update t.objects ⟨tb, id⟩ none }

/-- One more write of session `i`, with what it holds. -/
def put (w : World M) (i : Nat) (d : Write M) : World M :=
  (w.acquire i (d.locks (w.view i))).setTx i
    { w.tx i with writes := (w.tx i).writes ++ [d] }

/-- Send one write of session `i`, unless it has to wait. -/
def write (w : World M) (i : Nat) (d : Write M) :
    Option (Except M.Exn Unit × World M) :=
  if w.free i (d.locks (w.view i)) then
    match d.refusal (w.view i) with
    | some e => some (.error e, w.abort i)
    | none => some (.ok (), w.put i d)
  else none

/-- Send several writes of one statement. -/
def writeAll (w : World M) (i : Nat) :
    List (Write M) → Option (Except M.Exn Unit × World M)
  | [] => some (.ok (), w)
  | d :: ds =>
      match w.write i d with
      | some (.ok (), w') => w'.writeAll i ds
      | r => r

/-- Send the first staged write of session `i`. -/
def flush (w : World M) (i : Nat) : Option (Except M.Exn Unit × World M) :=
  match (w.tx i).dirty with
  | [] => none
  | d :: ds => (w.setTx i { w.tx i with dirty := ds }).write i d

/-- What every statement sent to the database has in common: a failed
transaction refuses it, it may fail by itself, and what is staged goes
first. A refused write raises from the statement that sent it. -/
def sql (w : World M) (i : Nat) (c : Choice M) (autoflush : Bool)
    (body : Option (Except M.Exn X × World M)) : Option (Except M.Exn X × World M) :=
  if (w.tx i).aborted then some (.error M.failedTransaction, w)
  else if c.fail then some (.error M.databaseError, w.abort i)
  else if autoflush && !(w.tx i).dirty.isEmpty then
    match w.flush i with
    | some (.error e, w') => some (.error e, w')
    | _ => none
  else body

/-- One statement of session `i`; no answer means that it has to wait. -/
def exec (w : World M) (i : Nat) (c : Choice M) :
    {X : Type} → Stmt M X → Option (Except M.Exn X × World M)
  | _, .select q => w.sql i c true (some (.ok (q (w.view i)), w))
  | _, .load t q =>
      let ks := (q (w.view i)).map (Key.mk t)
      w.sql i c true (some (.ok ((q (w.view i)).filterMap fun id =>
        w.answer i c.alive ⟨t, id⟩), w.rememberAll i c.alive ks))
  | _, .get held k =>
      match (w.tx i).objects k, held || c.alive with
      | some o, true => some (.ok (some o), w)
      | _, _ =>
          let o := (w.view i).lookup k
          w.sql i c true (some (.ok o, w.remember i k o))
  | _, .lock t q =>
      w.sql i c true <|
        match q (w.view i) with
        | none => some (.ok none, w)
        | some id =>
            if w.free i [.row ⟨t, id⟩] then
              let o := w.answer i c.alive ⟨t, id⟩
              some (.ok o, (w.acquire i [.row ⟨t, id⟩]).remember i ⟨t, id⟩ o)
            else none
  | _, .refresh k =>
      w.sql i c true <|
        match (w.view i).lookup k with
        | none => some (.error M.noResultFound, w)
        | some o => some (.ok o, w.remember i k (some o))
  | _, .stage d => some (.ok (), w.stage i d)
  | _, .flush => w.sql i c true (some (.ok (), w))
  | _, .upsert waits f =>
      w.sql i c false <|
        if w.free i (waits.map .entry) then
          (w.writeAll i (f (w.view i)).1).map fun
            | (.ok (), w') => (.ok (f (w.view i)).2, w')
            | (.error e, w') => (.error e, w')
        else none
  | _, .commit => w.sql i c true (some (.ok (), w.commit i))
  | _, .rollback => some (.ok (), w.reset i)
  | _, .await _ => c.reply.map fun r => (.ok r, w)
  | _, .shared f =>
      if c.fail then some (.error M.sharedError, w)
      else some (.ok (f w.shared).2, { w with shared := (f w.shared).1 })
  | _, .fresh => some (.ok c.value, w)
  | _, .now => some (.ok (M.clock w.shared), w)

end World

/-! ## Configurations and runs -/

/-- The statements before which the session sends what is staged. -/
def Stmt.autoflushes : Stmt M X → Bool
  | .select _ | .load _ _ | .get _ _ | .lock _ _ | .refresh _ | .flush | .commit => true
  | _ => false

def Stmt.IsCommit : Stmt M X → Prop
  | .commit => True
  | _ => False

/-- A statement that neither writes nor ends a transaction. -/
def Stmt.Quiet : Stmt M X → Prop
  | .stage _ | .upsert _ _ | .commit | .rollback => False
  | _ => True

/-- The world and the program left to run in each session. -/
structure Conf (M : System) (α : Type) where
  world : World M
  threads : Nat → Option (Prog M α) := fun _ => none

/-- One step: a request arrives in a new session, a session executes its
next statement or sends a staged write, a session dies, or the shared store
changes by itself. -/
inductive Label (M : System) (Req : Type)
  | start (i : Nat) (r : Req)
  | exec (i : Nat) (c : Choice M)
  | flush (i : Nat)
  | crash (i : Nat)
  | ambient (a : M.Ambient)

namespace Conf

variable {Req : Type}

def setThread (C : Conf M α) (i : Nat) (p : Option (Prog M α)) (w : World M) :
    Conf M α :=
  { world := w, threads := Function.update C.threads i p }

def step (handler : Req → Prog M α) (C : Conf M α) : Label M Req → Option (Conf M α)
  | .start i r =>
      match C.threads i with
      | none => some (C.setThread i (some (handler r)) C.world)
      | some _ => none
  | .exec i c =>
      match C.threads i with
      | some (.call s k) =>
          (C.world.exec i c s).map fun (r, w) => C.setThread i (some (k r)) w
      | _ => none
  | .flush i =>
      match C.threads i with
      | some (.call s k) =>
          if s.autoflushes && !(C.world.tx i).aborted then
            match C.world.flush i with
            | some (.ok (), w) => some (C.setThread i (some (.call s k)) w)
            | _ => none
          else none
      | _ => none
  | .crash i =>
      match C.threads i with
      | some _ => some (C.setThread i none (C.world.reset i))
      | none => none
  | .ambient a =>
      some { C with world := { C.world with shared := M.ambient a C.world.shared } }

/-- A whole run. -/
def run (handler : Req → Prog M α) (C : Conf M α) : List (Label M Req) → Option (Conf M α)
  | [] => some C
  | l :: ls =>
      match C.step handler l with
      | some C' => C'.run handler ls
      | none => none

end Conf

end Sessions
