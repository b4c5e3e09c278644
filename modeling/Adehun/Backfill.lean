import Adehun.Schema
import Mathlib.Algebra.Order.BigOperators.Group.List
import Mathlib.Algebra.Order.Group.Int
import Mathlib.Algebra.Ring.Int.Defs
import Mathlib.Data.List.Sort

/-!
# The ledger backfill

The migration that gives wallets from before the ledger their history. It
runs once, in one transaction, on the tables as they were at that revision:
identifiers and references are still plain strings here. For every wallet
with money and no entry it replays the user's successful deposits up to what
the wallet holds, explains the rest by one adjustment, and moves everything
into the available balance; then it counts the wallets that do not reconcile
and raises if there are any.

The loop over deposits and the adjustment insert a list of entries that can
be written down beforehand, `entriesFor`. What the migration does is that
list inserted for every legacy wallet, and the rest is about the list.
-/

namespace Adehun

namespace Backfill

structure Wallet where
  id : String
  userId : String
  availableBalance : Kobo
  escrowBalance : Kobo
deriving DecidableEq

structure PaystackTransaction where
  id : String
  userId : String
  reference : String
  amount : Kobo
  status : TransactionStatus
  transactionType : TransactionType
  createdAt : Nat
deriving DecidableEq

/-- A row of the ledger, as far as `_INSERT_ENTRY` and the queries go. -/
structure Entry where
  userId : String
  walletId : String
  reference : String
  amount : Kobo
  availableDelta : Kobo
  escrowDelta : Kobo := 0
  balanceAfter : Kobo
  escrowAfter : Kobo := 0
  type : LedgerEntryType
  direction : LedgerDirection := .credit
  status : LedgerEntryStatus := .completed
  description : String
  paystackTransactionId : Option String
  createdAt : Nat
deriving DecidableEq

@[ext] structure Db where
  wallet : List Wallet
  transaction : List Entry
  paystackTransaction : List PaystackTransaction
deriving DecidableEq

/-- A unique index or a check refuses a row, a number does not fit its
column, or the `RuntimeError` at the end. -/
inductive Failure
  | integrity
  | data
  | drift (wallets : Nat)
deriving DecidableEq

/-! ## The statements -/

def entriesOf (db : Db) (walletId : String) : List Entry :=
  db.transaction.filter (·.walletId = walletId)

/-- Wallets with money and no ledger rows. -/
def legacyWallets (db : Db) : List Wallet :=
  db.wallet.filter fun w =>
    (entriesOf db w.id).isEmpty && (0 < w.availableBalance || 0 < w.escrowBalance)

/-- The user's successful deposits, oldest first. -/
def depositsOf (db : Db) (userId : String) : List PaystackTransaction :=
  (db.paystackTransaction.filter fun p =>
    p.userId = userId && p.status = .success && p.transactionType = .escrowDeposit).insertionSort
      fun p q => p.createdAt ≤ q.createdAt

def insertEntry (db : Db) (e : Entry) : Except Failure Db :=
  if [e.amount, e.availableDelta, e.balanceAfter].any (!fitsNumeric ·) then .error .data
  else if e.amount ≤ 0 then .error .integrity
  else if db.transaction.any (·.reference = e.reference) then .error .integrity
  else .ok { db with transaction := db.transaction ++ [e] }

def updateWallet (db : Db) (walletId : String) (total : Kobo) : Except Failure Db :=
  if !fitsNumeric total then .error .data
  else if total < 0 then .error .integrity
  else .ok { db with wallet := db.wallet.map fun w =>
    if w.id = walletId then { w with availableBalance := total, escrowBalance := 0 } else w }

/-- Wallets that do not reconcile with the ledger. -/
def drifting (db : Db) : List Wallet :=
  db.wallet.filter fun w =>
    w.availableBalance ≠ ((entriesOf db w.id).map (·.availableDelta)).sum ||
      w.escrowBalance ≠ ((entriesOf db w.id).map (·.escrowDelta)).sum

/-! ## The migration -/

def depositEntry (w : Wallet) (p : PaystackTransaction) (running : Kobo) : Entry where
  userId := w.userId
  walletId := w.id
  reference := "dep_" ++ p.reference
  amount := p.amount
  availableDelta := p.amount
  balanceAfter := running
  type := .deposit
  description := "Funded wallet"
  paystackTransactionId := some p.id
  createdAt := p.createdAt

def openingEntry (now : Nat) (w : Wallet) (total residual : Kobo) : Entry where
  userId := w.userId
  walletId := w.id
  reference := "opening_" ++ w.id
  amount := residual
  availableDelta := residual
  balanceAfter := total
  type := .adjustmentCredit
  description := "Opening balance"
  paystackTransactionId := none
  createdAt := now

/-- The loop over the deposits, from a running sum. -/
def replayDeposits (w : Wallet) (total : Kobo) :
    List PaystackTransaction → Kobo → Db → Except Failure (Kobo × Db)
  | [], running, db => .ok (running, db)
  | p :: ps, running, db =>
      -- do not manufacture more money than the wallet actually holds
      if running + p.amount > total then .ok (running, db)
      else do
        let db ← insertEntry db (depositEntry w p (running + p.amount))
        replayDeposits w total ps (running + p.amount) db

def Wallet.total (w : Wallet) : Kobo := w.availableBalance + w.escrowBalance

def backfillWallet (now : Nat) (db : Db) (w : Wallet) : Except Failure Db := do
  let (running, db) ← replayDeposits w w.total (depositsOf db w.userId) 0 db
  let residual := w.total - running
  let db ← if 0 < residual then insertEntry db (openingEntry now w w.total residual) else pure db
  updateWallet db w.id w.total

def upgrade (now : Nat) (db : Db) : Except Failure Db := do
  let db ← (legacyWallets db).foldlM (backfillWallet now) db
  if (drifting db).length ≠ 0 then .error (.drift (drifting db).length)
  else .ok db

/-! ## The entries of a wallet -/

/-- The deposits that are replayed. -/
def replayed (total : Kobo) : List PaystackTransaction → Kobo → List PaystackTransaction
  | [], _ => []
  | p :: ps, running =>
      if running + p.amount > total then []
      else p :: replayed total ps (running + p.amount)

/-- Their sum, on top of where it starts. -/
def runningAfter (ps : List PaystackTransaction) (running : Kobo) : Kobo :=
  running + (ps.map (·.amount)).sum

/-- Their entries. -/
def depositEntries (w : Wallet) : List PaystackTransaction → Kobo → List Entry
  | [], _ => []
  | p :: ps, running =>
      depositEntry w p (running + p.amount) :: depositEntries w ps (running + p.amount)

/-- The adjustment, where the deposits leave a residual. -/
def openingEntries (now : Nat) (w : Wallet) (running : Kobo) : List Entry :=
  if 0 < w.total - running then [openingEntry now w w.total (w.total - running)] else []

/-- Everything inserted for a wallet. -/
def entriesFor (now : Nat) (w : Wallet) (deposits : List PaystackTransaction) : List Entry :=
  let ps := replayed w.total deposits 0
  depositEntries w ps 0 ++ openingEntries now w (runningAfter ps 0)

def insertAll (db : Db) (es : List Entry) : Except Failure Db := es.foldlM insertEntry db

theorem runningAfter_cons (p : PaystackTransaction) (ps : List PaystackTransaction) (k : Kobo) :
    runningAfter (p :: ps) k = runningAfter ps (k + p.amount) := by
  simp only [runningAfter, List.map_cons, List.sum_cons, add_assoc]

/-- The loop inserts the entries of the deposits it replays. -/
theorem replayDeposits_eq (w : Wallet) (total : Kobo) (ps : List PaystackTransaction)
    (running : Kobo) (db : Db) :
    replayDeposits w total ps running db =
      (insertAll db (depositEntries w (replayed total ps running) running)).map
        (runningAfter (replayed total ps running) running, ·) := by
  induction ps generalizing running db with
  | nil => simp [replayDeposits, replayed, depositEntries, runningAfter, insertAll]; rfl
  | cons p ps ih =>
      unfold replayDeposits replayed
      split
      · simp [depositEntries, runningAfter, insertAll]; rfl
      · rw [runningAfter_cons, depositEntries, insertAll, List.foldlM_cons]
        cases hins : insertEntry db (depositEntry w p (running + p.amount)) with
        | error e => rfl
        | ok db' => exact ih (running + p.amount) db'

theorem insertAll_append (db : Db) (es es' : List Entry) :
    insertAll db (es ++ es') = (insertAll db es).bind (insertAll · es') := by
  rw [insertAll, List.foldlM_append]
  rfl

/-- A wallet is backfilled by inserting its entries. -/
theorem backfillWallet_eq (now : Nat) (db : Db) (w : Wallet) :
    backfillWallet now db w =
      (insertAll db (entriesFor now w (depositsOf db w.userId))).bind
        (updateWallet · w.id w.total) := by
  rw [entriesFor, insertAll_append, backfillWallet, replayDeposits_eq]
  cases insertAll db (depositEntries w (replayed w.total (depositsOf db w.userId) 0) 0) with
  | error e => rfl
  | ok db' =>
      unfold openingEntries
      simp only [Except.map, Except.bind, bind, pure, Except.pure]
      split
      · rw [insertAll, List.foldlM_cons]
        cases insertEntry db' _ <;> rfl
      · rfl

/-! ## What the entries come to -/

theorem replayed_initial (total : Kobo) (ps : List PaystackTransaction) (running : Kobo) :
    replayed total ps running <+: ps := by
  induction ps generalizing running with
  | nil => exact List.prefix_rfl
  | cons p ps ih =>
      unfold replayed
      split
      · exact List.nil_prefix
      · exact List.cons_prefix_cons.mpr ⟨rfl, ih _⟩

/-- What is replayed never comes to more than the wallet holds. -/
theorem runningAfter_le {total running : Kobo} (h : running ≤ total)
    (ps : List PaystackTransaction) :
    runningAfter (replayed total ps running) running ≤ total := by
  induction ps generalizing running with
  | nil => simpa [replayed, runningAfter] using h
  | cons p ps ih =>
      unfold replayed
      split
      · simpa [runningAfter] using h
      · next hle =>
          rw [runningAfter_cons]
          exact ih (Int.not_lt.mp hle)

/-- Every balance is the running sum of the entries up to it. -/
def Runs : Kobo → List Entry → Prop
  | _, [] => True
  | running, e :: es =>
      e.balanceAfter = running + e.availableDelta ∧ Runs e.balanceAfter es

theorem runs_append {running : Kobo} {es es' : List Entry} :
    Runs running (es ++ es') ↔
      Runs running es ∧ Runs (running + (es.map (·.availableDelta)).sum) es' := by
  induction es generalizing running with
  | nil => simp [Runs]
  | cons e es ih =>
      simp only [List.cons_append, Runs, ih, List.map_cons, List.sum_cons, and_assoc]
      refine and_congr_right fun h => and_congr_right fun _ => ?_
      rw [h, add_assoc]

theorem runs_depositEntries (w : Wallet) (ps : List PaystackTransaction) (running : Kobo) :
    Runs running (depositEntries w ps running) := by
  induction ps generalizing running with
  | nil => trivial
  | cons p ps ih => exact ⟨rfl, ih _⟩

theorem sum_depositEntries (w : Wallet) (ps : List PaystackTransaction) (running : Kobo) :
    ((depositEntries w ps running).map (·.availableDelta)).sum = (ps.map (·.amount)).sum := by
  induction ps generalizing running with
  | nil => rfl
  | cons p ps ih => simp only [depositEntries, List.map_cons, List.sum_cons, ih, depositEntry]

/-- An entry of a deposit, and the running sum it brings. -/
theorem mem_depositEntries {w : Wallet} {ps : List PaystackTransaction} {running : Kobo}
    {e : Entry} (h : e ∈ depositEntries w ps running) :
    ∃ p ∈ ps, ∃ k, e = depositEntry w p k := by
  induction ps generalizing running with
  | nil => cases h
  | cons p ps ih =>
      rcases List.mem_cons.mp h with rfl | h
      · exact ⟨p, List.mem_cons_self, _, rfl⟩
      · obtain ⟨q, hq, k, rfl⟩ := ih h
        exact ⟨q, List.mem_cons_of_mem p hq, k, rfl⟩

/-- As long as deposits are not negative, no balance passes the last one. -/
theorem balance_le_runningAfter {w : Wallet} {ps : List PaystackTransaction} {running : Kobo}
    (hpos : ∀ p ∈ ps, 0 < p.amount) {e : Entry} (h : e ∈ depositEntries w ps running) :
    running < e.balanceAfter ∧ e.balanceAfter ≤ runningAfter ps running := by
  induction ps generalizing running with
  | nil => cases h
  | cons p ps ih =>
      have hp : 0 < p.amount := hpos p List.mem_cons_self
      have hps : ∀ q ∈ ps, 0 < q.amount := fun q hq => hpos q (List.mem_cons_of_mem p hq)
      have hsum : 0 ≤ (ps.map (·.amount)).sum := by
        refine List.sum_nonneg ?_
        intro k hk
        obtain ⟨q, hq, rfl⟩ := List.mem_map.mp hk
        exact Int.le_of_lt (hps q hq)
      rw [runningAfter_cons]
      rcases List.mem_cons.mp h with rfl | h
      · simp only [depositEntry, runningAfter]
        exact ⟨Int.lt_add_of_pos_right _ hp, Int.le_add_of_nonneg_right hsum⟩
      · obtain ⟨hlt, hle⟩ := ih hps h
        exact ⟨Int.lt_trans (Int.lt_add_of_pos_right _ hp) hlt, hle⟩

/-- What the new entries of a wallet have to be. -/
structure Explains (db : Db) (w : Wallet) (es : List Entry) : Prop where
  sum : (es.map (·.availableDelta)).sum = w.total
  escrow : ∀ e ∈ es, e.escrowDelta = 0
  wallet : ∀ e ∈ es, e.walletId = w.id
  positive : ∀ e ∈ es, 0 < e.amount ∧ e.availableDelta = e.amount
  runs : Runs 0 es
  bounded : ∀ e ∈ es, e.balanceAfter ≤ w.total
  /-- The deposits, and an adjustment at most. -/
  parts : ∃ ps opening, es = depositEntries w ps 0 ++ opening ∧
    ps <+: depositsOf db w.userId ∧ opening.length ≤ 1 ∧
    ∀ e ∈ opening, e.type = .adjustmentCredit ∧
      e.amount = w.total - (ps.map (·.amount)).sum

/-- The entries of a wallet do. -/
theorem explains_entriesFor (now : Nat) {db : Db} {w : Wallet} (htotal : 0 ≤ w.total)
    (hpos : ∀ p ∈ depositsOf db w.userId, 0 < p.amount) :
    Explains db w (entriesFor now w (depositsOf db w.userId)) := by
  have hle := runningAfter_le htotal (depositsOf db w.userId)
  have hinitial := replayed_initial w.total (depositsOf db w.userId) 0
  have hps : ∀ p ∈ replayed w.total (depositsOf db w.userId) 0, 0 < p.amount :=
    fun p hp => hpos p (hinitial.subset hp)
  simp only [entriesFor]
  generalize replayed w.total (depositsOf db w.userId) 0 = ps at hle hinitial hps ⊢
  have hrun : runningAfter ps 0 = (ps.map (·.amount)).sum := by
    rw [runningAfter, zero_add]
  have hopening : ∀ e ∈ openingEntries now w (runningAfter ps 0), 0 < w.total - runningAfter ps 0 ∧
      e = openingEntry now w w.total (w.total - runningAfter ps 0) := by
    intro e he
    unfold openingEntries at he
    split at he
    · next hres => exact ⟨hres, List.mem_singleton.mp he⟩
    · cases he
  have hsum : ((openingEntries now w (runningAfter ps 0)).map (·.availableDelta)).sum =
      w.total - runningAfter ps 0 := by
    unfold openingEntries
    split
    · simp [openingEntry]
    · next hres =>
        have hzero : w.total - runningAfter ps 0 = 0 :=
          Int.le_antisymm (Int.not_lt.mp hres) (Int.sub_nonneg.mpr hle)
        simp [hzero]
  refine ⟨?_, ?_, ?_, ?_, ?_, ?_, ps, _, rfl, hinitial, ?_, ?_⟩
  · rw [List.map_append, List.sum_append, sum_depositEntries, hsum, hrun]
    exact add_sub_cancel _ _
  · intro e he
    rcases List.mem_append.mp he with he | he
    · obtain ⟨p, -, k, rfl⟩ := mem_depositEntries he
      rfl
    · obtain ⟨-, rfl⟩ := hopening e he
      rfl
  · intro e he
    rcases List.mem_append.mp he with he | he
    · obtain ⟨p, -, k, rfl⟩ := mem_depositEntries he
      rfl
    · obtain ⟨-, rfl⟩ := hopening e he
      rfl
  · intro e he
    rcases List.mem_append.mp he with he | he
    · obtain ⟨p, hp, k, rfl⟩ := mem_depositEntries he
      exact ⟨hps p hp, rfl⟩
    · obtain ⟨hres, rfl⟩ := hopening e he
      exact ⟨hres, rfl⟩
  · rw [runs_append]
    refine ⟨runs_depositEntries w ps 0, ?_⟩
    rw [sum_depositEntries, zero_add, ← hrun]
    unfold openingEntries
    split
    · exact ⟨(add_sub_cancel _ _).symm, trivial⟩
    · trivial
  · intro e he
    rcases List.mem_append.mp he with he | he
    · exact Int.le_trans (balance_le_runningAfter hps he).2 hle
    · obtain ⟨-, rfl⟩ := hopening e he
      exact Int.le_refl _
  · unfold openingEntries
    split <;> simp
  · intro e he
    obtain ⟨-, rfl⟩ := hopening e he
    exact ⟨rfl, by rw [← hrun]; rfl⟩

/-! ## References -/

theorem dep_ne_opening (r x : String) : "dep_" ++ r ≠ "opening_" ++ x := by
  intro h
  have hlist := congrArg String.toList h
  have hd : "dep_".toList = ['d', 'e', 'p', '_'] := by decide
  have ho : "opening_".toList = ['o', 'p', 'e', 'n', 'i', 'n', 'g', '_'] := by decide
  simp only [String.toList_append, hd, ho] at hlist
  cases hlist

theorem prefix_inj {p r r' : String} (h : p ++ r = p ++ r') : r = r' :=
  String.append_right_inj p |>.mp h

/-- Paystack references are unique. -/
def ReferencesUnique (db : Db) : Prop := (db.paystackTransaction.map (·.reference)).Nodup

theorem mem_depositsOf {db : Db} {userId : String} {p : PaystackTransaction} :
    p ∈ depositsOf db userId ↔ p ∈ db.paystackTransaction ∧ p.userId = userId ∧
      p.status = .success ∧ p.transactionType = .escrowDeposit := by
  simp only [depositsOf, List.mem_insertionSort, List.mem_filter, Bool.and_eq_true,
    decide_eq_true_eq, and_assoc]

theorem depositsOf_nodup {db : Db} (h : ReferencesUnique db) (userId : String) :
    ((depositsOf db userId).map (·.reference)).Nodup := by
  have hperm := List.perm_insertionSort (fun p q : PaystackTransaction => p.createdAt ≤ q.createdAt)
    (db.paystackTransaction.filter fun p =>
      p.userId = userId && p.status = .success && p.transactionType = .escrowDeposit)
  refine (hperm.map _).nodup_iff.mpr ?_
  exact h.sublist (List.filter_sublist.map _)

theorem reference_depositEntries (w : Wallet) (ps : List PaystackTransaction) (running : Kobo) :
    (depositEntries w ps running).map (·.reference) = ps.map ("dep_" ++ ·.reference) := by
  induction ps generalizing running with
  | nil => rfl
  | cons p ps ih => simp only [depositEntries, List.map_cons, ih, depositEntry]

/-- The reference of a new entry names a deposit of the user, or the wallet. -/
theorem reference_entriesFor {now : Nat} {w : Wallet} {ps : List PaystackTransaction}
    {e : Entry} (h : e ∈ entriesFor now w ps) :
    (∃ p ∈ ps, e.reference = "dep_" ++ p.reference) ∨ e.reference = "opening_" ++ w.id := by
  rcases List.mem_append.mp h with he | he
  · obtain ⟨p, hp, k, rfl⟩ := mem_depositEntries he
    exact Or.inl ⟨p, (replayed_initial _ _ _).subset hp, rfl⟩
  · unfold openingEntries at he
    split at he
    · rw [List.mem_singleton] at he
      rw [he]
      exact Or.inr rfl
    · cases he

theorem nodup_entriesFor (now : Nat) (w : Wallet) {ps : List PaystackTransaction}
    (h : (ps.map (·.reference)).Nodup) :
    ((entriesFor now w ps).map (·.reference)).Nodup := by
  simp only [entriesFor, List.map_append]
  refine List.nodup_append.mpr ⟨?_, ?_, ?_⟩
  · have hmap : (replayed w.total ps 0).map ("dep_" ++ ·.reference) =
        ((replayed w.total ps 0).map (·.reference)).map ("dep_" ++ ·) := by
      rw [List.map_map]
      rfl
    rw [reference_depositEntries, hmap]
    refine List.Nodup.map (fun _ _ hp => prefix_inj hp) ?_
    exact h.sublist ((replayed_initial _ _ _).sublist.map _)
  · unfold openingEntries
    split <;> simp
  · intro r hr r' hr'
    rw [reference_depositEntries] at hr
    obtain ⟨p, -, rfl⟩ := List.mem_map.mp hr
    unfold openingEntries at hr'
    split at hr'
    · rw [List.map_cons, List.map_nil, List.mem_singleton] at hr'
      rw [hr']
      exact dep_ne_opening _ _
    · cases hr'

/-- The entries of several wallets. -/
def plan (now : Nat) (db : Db) (ws : List Wallet) : List Entry :=
  ws.flatMap fun w => entriesFor now w (depositsOf db w.userId)

/-- No reference is planned twice: a deposit is one user's, and a user has
one wallet. -/
theorem nodup_plan (now : Nat) {db : Db} (href : ReferencesUnique db) {ws : List Wallet}
    (hids : (ws.map (·.id)).Nodup) (husers : (ws.map (·.userId)).Nodup) :
    ((plan now db ws).map (·.reference)).Nodup := by
  induction ws with
  | nil => exact List.nodup_nil
  | cons w ws ih =>
      rw [List.map_cons, List.nodup_cons] at hids husers
      simp only [plan, List.flatMap_cons, List.map_append]
      refine List.nodup_append.mpr ⟨nodup_entriesFor now w (depositsOf_nodup href _),
        ih hids.2 husers.2, ?_⟩
      intro r hr r' hr' hrr
      subst hrr
      obtain ⟨e, he, rfl⟩ := List.mem_map.mp hr
      obtain ⟨e', he', hee⟩ := List.mem_map.mp hr'
      obtain ⟨v, hv, hev⟩ := List.mem_flatMap.mp he'
      rcases reference_entriesFor he with ⟨p, hp, hpr⟩ | hpr <;>
        rcases reference_entriesFor hev with ⟨q, hq, hqr⟩ | hqr
      · -- the same deposit of two users
        have hsame : p.reference = q.reference := prefix_inj (hpr.symm.trans (hee.symm.trans hqr))
        rw [mem_depositsOf] at hp hq
        have hpq : p = q := List.inj_on_of_nodup_map href hp.1 hq.1 hsame
        refine husers.1 (List.mem_map.mpr ⟨v, hv, ?_⟩)
        rw [← hq.2.1, ← hp.2.1, hpq]
      · exact dep_ne_opening _ _ (hpr.symm.trans (hee.symm.trans hqr))
      · exact dep_ne_opening _ _ (hqr.symm.trans (hee.trans hpr))
      · have hid : w.id = v.id := prefix_inj (hpr.symm.trans (hee.symm.trans hqr))
        exact hids.1 (List.mem_map.mpr ⟨v, hv, hid.symm⟩)

/-! ## The migration on the tables -/

/-- What the code promises of a legacy database, and the schema at that
revision enforces. -/
structure Legacy (db : Db) : Prop where
  ids : (db.wallet.map (·.id)).Nodup
  onePerUser : (db.wallet.map (·.userId)).Nodup
  nonneg : ∀ w ∈ db.wallet, 0 ≤ w.availableBalance ∧ 0 ≤ w.escrowBalance
  reconciled : ∀ w ∈ db.wallet, entriesOf db w.id ≠ [] → w ∉ drifting db
  references : ReferencesUnique db
  positive : ∀ p ∈ db.paystackTransaction, p.status = .success →
    p.transactionType = .escrowDeposit → 0 < p.amount

/-- A wallet row once wallet `w` is backfilled. -/
def settle (w v : Wallet) : Wallet :=
  if v.id = w.id then { v with availableBalance := w.total, escrowBalance := 0 } else v

theorem settle_id (w v : Wallet) : (settle w v).id = v.id := by
  unfold settle
  split <;> rfl

theorem foldl_settle_id (ws : List Wallet) (v : Wallet) :
    (ws.foldl (fun v w => settle w v) v).id = v.id := by
  induction ws generalizing v with
  | nil => rfl
  | cons w ws ih => rw [List.foldl_cons, ih, settle_id]

/-- A wallet that is not backfilled stays as it is. -/
theorem foldl_settle_of_not_mem {ws : List Wallet} {v : Wallet}
    (h : v.id ∉ ws.map (·.id)) : ws.foldl (fun v w => settle w v) v = v := by
  induction ws with
  | nil => rfl
  | cons w ws ih =>
      rw [List.map_cons, List.mem_cons, not_or] at h
      rw [List.foldl_cons, settle, if_neg h.1]
      exact ih h.2

/-- A wallet that is has everything in its available balance. -/
theorem foldl_settle_of_mem {ws : List Wallet} {v : Wallet} (hids : (ws.map (·.id)).Nodup)
    (h : v ∈ ws) : ws.foldl (fun v w => settle w v) v =
      { v with availableBalance := v.total, escrowBalance := 0 } := by
  induction ws with
  | nil => cases h
  | cons w ws ih =>
      rw [List.map_cons, List.nodup_cons] at hids
      rw [List.foldl_cons]
      rcases List.mem_cons.mp h with rfl | hmem
      · rw [settle, if_pos rfl]
        exact foldl_settle_of_not_mem hids.1
      · have hne : v.id ≠ w.id := fun he => hids.1 (he ▸ List.mem_map_of_mem hmem)
        rw [settle, if_neg hne]
        exact ih hids.2 hmem

/-- The tables with some wallets backfilled. -/
def afterwards (now : Nat) (db : Db) (ws : List Wallet) : Db where
  wallet := db.wallet.map fun v => ws.foldl (fun v w => settle w v) v
  transaction := db.transaction ++ plan now db ws
  paystackTransaction := db.paystackTransaction

theorem insertEntry_ok {db db' : Db} {e : Entry} (h : insertEntry db e = .ok db') :
    db' = { db with transaction := db.transaction ++ [e] } := by
  unfold insertEntry at h
  split at h
  · cases h
  · split at h
    · cases h
    · split at h <;> cases h
      rfl

theorem insertAll_ok {db db' : Db} {es : List Entry} (h : insertAll db es = .ok db') :
    db' = { db with transaction := db.transaction ++ es } := by
  induction es generalizing db with
  | nil =>
      cases h
      simp
  | cons e es ih =>
      rw [insertAll, List.foldlM_cons] at h
      cases hins : insertEntry db e with
      | error f =>
          rw [hins] at h
          cases h
      | ok db₁ =>
          rw [hins] at h
          rw [ih h, insertEntry_ok hins]
          simp

/-- What was inserted had references nobody had. -/
theorem insertAll_fresh {db db' : Db} {es : List Entry} (h : insertAll db es = .ok db') :
    ∀ e ∈ es, ∀ t ∈ db.transaction, t.reference ≠ e.reference := by
  induction es generalizing db with
  | nil => simp
  | cons e es ih =>
      rw [insertAll, List.foldlM_cons] at h
      cases hins : insertEntry db e with
      | error f =>
          rw [hins] at h
          cases h
      | ok db₁ =>
          rw [hins] at h
          have hrest := ih h
          rw [insertEntry_ok hins] at hrest
          intro e' he' t ht
          rcases List.mem_cons.mp he' with rfl | he'
          · intro href
            have hany : db.transaction.any (·.reference = e'.reference) = true := by
              simpa using ⟨t, ht, href⟩
            unfold insertEntry at hins
            rw [hany] at hins
            simp only [if_true] at hins
            split at hins
            · cases hins
            · split at hins <;> cases hins
          · exact hrest e' he' t (List.mem_append_left _ ht)

/-- Why an entry may be refused. -/
inductive Refused (db : Db) (e : Entry) : Failure → Prop
  | data (h : ¬ (fitsNumeric e.amount ∧ fitsNumeric e.availableDelta ∧
      fitsNumeric e.balanceAfter)) : Refused db e .data
  | amount (h : e.amount ≤ 0) : Refused db e .integrity
  | reference (h : ∃ t ∈ db.transaction, t.reference = e.reference) : Refused db e .integrity

theorem insertEntry_error {db : Db} {e : Entry} {f : Failure} (h : insertEntry db e = .error f) :
    Refused db e f := by
  unfold insertEntry at h
  split at h
  · next hfit =>
      cases h
      refine .data fun hall => ?_
      simp [hall.1, hall.2.1, hall.2.2] at hfit
  · split at h
    · next hle =>
        cases h
        exact .amount hle
    · split at h
      · next hany =>
          cases h
          exact .reference (by simpa using hany)
      · cases h

/-- The first entry that is refused, with the ones before it inserted. -/
theorem insertAll_error {db : Db} {es : List Entry} {f : Failure}
    (h : insertAll db es = .error f) : ∃ es₁ e es₂, es = es₁ ++ e :: es₂ ∧
      Refused { db with transaction := db.transaction ++ es₁ } e f := by
  induction es generalizing db with
  | nil => cases h
  | cons e es ih =>
      rw [insertAll, List.foldlM_cons] at h
      cases hins : insertEntry db e with
      | error f' =>
          rw [hins] at h
          cases h
          exact ⟨[], e, es, rfl, by simpa using insertEntry_error hins⟩
      | ok db₁ =>
          rw [hins] at h
          obtain ⟨es₁, e', es₂, rfl, hr⟩ := ih h
          refine ⟨e :: es₁, e', es₂, rfl, ?_⟩
          rw [insertEntry_ok hins] at hr
          simpa using hr

theorem plan_congr (now : Nat) {db db' : Db} (h : db'.paystackTransaction = db.paystackTransaction)
    (ws : List Wallet) : plan now db' ws = plan now db ws := by
  unfold plan depositsOf
  rw [h]

theorem updateWallet_ok {db db' : Db} {w : Wallet}
    (h : updateWallet db w.id w.total = .ok db') :
    db' = { db with wallet := db.wallet.map (settle w) } := by
  unfold updateWallet at h
  split at h
  · cases h
  · split at h <;> cases h
    rfl

theorem backfillWallet_ok {now : Nat} {db db' : Db} {w : Wallet}
    (h : backfillWallet now db w = .ok db') : db' = afterwards now db [w] := by
  rw [backfillWallet_eq] at h
  cases hins : insertAll db (entriesFor now w (depositsOf db w.userId)) with
  | error f =>
      rw [hins] at h
      cases h
  | ok db₁ =>
      rw [hins] at h
      rw [updateWallet_ok h, insertAll_ok hins]
      simp [afterwards, plan]

/-- Where the migration gets through all wallets, their entries are there. -/
theorem foldlM_ok {now : Nat} {db db' : Db} {ws : List Wallet}
    (h : ws.foldlM (backfillWallet now) db = .ok db') : db' = afterwards now db ws := by
  induction ws generalizing db with
  | nil =>
      cases h
      simp [afterwards, plan]
  | cons w ws ih =>
      rw [List.foldlM_cons] at h
      cases hw : backfillWallet now db w with
      | error f =>
          rw [hw] at h
          cases h
      | ok db₁ =>
          rw [hw] at h
          have hdb₁ := backfillWallet_ok hw
          rw [ih h]
          have hplan : plan now db₁ ws = plan now db ws := plan_congr now (by rw [hdb₁]; rfl) ws
          ext1
          · simp [afterwards, hdb₁]
          · simp only [afterwards, hplan]
            rw [hdb₁]
            simp [afterwards, plan]
          · simp [afterwards, hdb₁]

/-- And none of them has a reference from before. -/
theorem foldlM_fresh {now : Nat} {db db' : Db} {ws : List Wallet}
    (h : ws.foldlM (backfillWallet now) db = .ok db') :
    ∀ e ∈ plan now db ws, ∀ t ∈ db.transaction, t.reference ≠ e.reference := by
  induction ws generalizing db with
  | nil => simp [plan]
  | cons w ws ih =>
      rw [List.foldlM_cons] at h
      cases hw : backfillWallet now db w with
      | error f =>
          rw [hw] at h
          cases h
      | ok db₁ =>
          rw [hw] at h
          have hdb₁ := backfillWallet_ok hw
          have hpay : db₁.paystackTransaction = db.paystackTransaction := by rw [hdb₁]; rfl
          have hrest := ih h
          rw [plan_congr now hpay ws] at hrest
          rw [backfillWallet_eq] at hw
          cases hins : insertAll db (entriesFor now w (depositsOf db w.userId)) with
          | error f =>
              rw [hins] at hw
              cases hw
          | ok db₂ =>
              intro e he t ht
              rw [plan, List.flatMap_cons] at he
              rcases List.mem_append.mp he with he | he
              · exact insertAll_fresh hins e he t ht
              · refine hrest e he t ?_
                rw [hdb₁]
                exact List.mem_append_left _ ht

theorem Explains.balance_nonneg {db : Db} {w : Wallet} {es : List Entry} (h : Explains db w es)
    {e : Entry} (he : e ∈ es) : 0 ≤ e.balanceAfter := by
  have hgen : ∀ (es : List Entry) (k : Kobo), 0 ≤ k →
      (∀ e ∈ es, 0 < e.amount ∧ e.availableDelta = e.amount) → Runs k es →
      ∀ e ∈ es, 0 ≤ e.balanceAfter := by
    intro es
    induction es with
    | nil => simp
    | cons d es ih =>
        intro k hk hpos hruns e he
        have hd := hpos d List.mem_cons_self
        have hnext : 0 ≤ d.balanceAfter := by
          rw [hruns.1, hd.2]
          exact Int.add_nonneg hk (Int.le_of_lt hd.1)
        rcases List.mem_cons.mp he with rfl | he
        · exact hnext
        · exact ih _ hnext (fun e he => hpos e (List.mem_cons_of_mem d he)) hruns.2 e he
  exact hgen es 0 (Int.le_refl _) h.positive h.runs e he

theorem fitsNumeric_of_le {k total : Kobo} (h₀ : 0 ≤ k) (h : k ≤ total)
    (hfit : fitsNumeric total) : fitsNumeric k := by
  simp only [fitsNumeric, Bool.and_eq_true, decide_eq_true_eq] at hfit ⊢
  exact ⟨Int.lt_of_lt_of_le (by decide) h₀, Int.lt_of_le_of_lt h hfit.2⟩

/-- An entry fits its columns where the total does. -/
theorem Explains.fits {db : Db} {w : Wallet} {es : List Entry} (h : Explains db w es)
    (hfit : fitsNumeric w.total) {e : Entry} (he : e ∈ es) :
    fitsNumeric e.amount ∧ fitsNumeric e.availableDelta ∧ fitsNumeric e.balanceAfter := by
  have hpos := h.positive e he
  have hle : e.availableDelta ≤ w.total := by
    rw [← h.sum]
    refine List.single_le_sum ?_ _ (List.mem_map_of_mem he)
    intro k hk
    obtain ⟨d, hd, rfl⟩ := List.mem_map.mp hk
    have := h.positive d hd
    rw [this.2]
    exact Int.le_of_lt this.1
  have hdelta : fitsNumeric e.availableDelta :=
    fitsNumeric_of_le (by rw [hpos.2]; exact Int.le_of_lt hpos.1) hle hfit
  exact ⟨hpos.2 ▸ hdelta, hdelta, fitsNumeric_of_le (h.balance_nonneg he) (h.bounded e he) hfit⟩

/-- Why the migration may not get through: a total that does not fit, or a
reference somebody has taken before. -/
inductive Stopped (now : Nat) (db : Db) (ws : List Wallet) : Failure → Prop
  | total (w : Wallet) (hw : w ∈ ws) (h : ¬ fitsNumeric w.total) : Stopped now db ws .data
  | taken (e : Entry) (he : e ∈ plan now db ws) (t : Entry) (ht : t ∈ db.transaction)
      (h : t.reference = e.reference) : Stopped now db ws .integrity

theorem foldlM_error {now : Nat} {db : Db} {ws : List Wallet} {f : Failure}
    (hexplains : ∀ w ∈ ws, 0 ≤ w.total ∧
      Explains db w (entriesFor now w (depositsOf db w.userId)))
    (hnodup : ((plan now db ws).map (·.reference)).Nodup)
    (h : ws.foldlM (backfillWallet now) db = .error f) : Stopped now db ws f := by
  induction ws generalizing db with
  | nil => cases h
  | cons w ws ih =>
      obtain ⟨hnonneg, hw⟩ := hexplains w List.mem_cons_self
      have hcons : plan now db (w :: ws) =
          entriesFor now w (depositsOf db w.userId) ++ plan now db ws := rfl
      rw [List.foldlM_cons] at h
      cases hback : backfillWallet now db w with
      | error f' =>
          rw [hback] at h
          cases h
          rw [backfillWallet_eq] at hback
          cases hins : insertAll db (entriesFor now w (depositsOf db w.userId)) with
          | error f' =>
              rw [hins] at hback
              cases hback
              obtain ⟨es₁, e, es₂, hes, hr⟩ := insertAll_error hins
              have he : e ∈ entriesFor now w (depositsOf db w.userId) := by
                rw [hes]
                exact List.mem_append_right _ List.mem_cons_self
              cases hr with
              | data hfit => exact .total w List.mem_cons_self fun htotal => hfit (hw.fits htotal he)
              | amount hle => exact absurd (hw.positive e he).1 (Int.not_lt.mpr hle)
              | reference ht =>
                  obtain ⟨t, ht, href⟩ := ht
                  have hmem : e ∈ plan now db (w :: ws) := by
                    rw [hcons]
                    exact List.mem_append_left _ he
                  rcases List.mem_append.mp ht with ht | ht
                  · exact .taken e hmem t ht href
                  · -- not one of those inserted just before
                    rw [hcons, hes, List.append_assoc, List.map_append, List.nodup_append] at hnodup
                    refine absurd href (hnodup.2.2 _ (List.mem_map_of_mem ht) _ ?_)
                    exact List.mem_map_of_mem (List.mem_append_left _ List.mem_cons_self)
          | ok db₁ =>
              rw [hins] at hback
              simp only [Except.bind, updateWallet] at hback
              split at hback
              · next hfit =>
                  cases hback
                  exact .total w List.mem_cons_self (by simpa using hfit)
              · split at hback
                · next hneg => exact absurd hnonneg (Int.not_le.mpr hneg)
                · cases hback
      | ok db₁ =>
          rw [hback] at h
          have hdb₁ := backfillWallet_ok hback
          have hpay : db₁.paystackTransaction = db.paystackTransaction := by rw [hdb₁]; rfl
          have hdep : ∀ u, depositsOf db₁ u = depositsOf db u := fun u => by
            rw [depositsOf, depositsOf, hpay]
          have hplan := plan_congr now hpay ws
          rw [hcons, List.map_append, List.nodup_append] at hnodup
          have hstop := ih ?_ (by rw [hplan]; exact hnodup.2.1) h
          · cases hstop with
            | total v hv hfit => exact .total v (List.mem_cons_of_mem w hv) hfit
            | taken e he t ht href =>
                rw [hplan] at he
                have hmem : e ∈ plan now db (w :: ws) := by
                  rw [hcons]
                  exact List.mem_append_right _ he
                rw [hdb₁, afterwards, List.mem_append] at ht
                rcases ht with ht | ht
                · exact .taken e hmem t ht href
                · refine absurd href (hnodup.2.2 _ (List.mem_map_of_mem ?_) _
                    (List.mem_map_of_mem he))
                  simpa [plan] using ht
          · intro v hv
            obtain ⟨h₁, h₂⟩ := hexplains v (List.mem_cons_of_mem w hv)
            rw [hdep]
            obtain ⟨a, b, c, d, e, f, g⟩ := h₂
            exact ⟨h₁, a, b, c, d, e, f, by rw [hdep]; exact g⟩

/-! ## No wallet drifts -/

theorem entriesOf_plan_of_not_mem {now : Nat} {db : Db} {ws : List Wallet} {walletId : String}
    (hexplains : ∀ w ∈ ws, Explains db w (entriesFor now w (depositsOf db w.userId)))
    (h : walletId ∉ ws.map (·.id)) : (plan now db ws).filter (·.walletId = walletId) = [] := by
  rw [List.filter_eq_nil_iff]
  intro e he
  obtain ⟨w, hw, hew⟩ := List.mem_flatMap.mp he
  rw [decide_eq_true_eq, (hexplains w hw).wallet e hew]
  rintro rfl
  exact h (List.mem_map_of_mem hw)

/-- The planned entries of a wallet are those written down for it. -/
theorem entriesOf_plan_of_mem {now : Nat} {db : Db} {ws : List Wallet} {w : Wallet}
    (hexplains : ∀ w ∈ ws, Explains db w (entriesFor now w (depositsOf db w.userId)))
    (hids : (ws.map (·.id)).Nodup) (hw : w ∈ ws) :
    (plan now db ws).filter (·.walletId = w.id) =
      entriesFor now w (depositsOf db w.userId) := by
  induction ws with
  | nil => cases hw
  | cons v ws ih =>
      have hv := hexplains v List.mem_cons_self
      have hws : ∀ w ∈ ws, Explains db w (entriesFor now w (depositsOf db w.userId)) :=
        fun w hw => hexplains w (List.mem_cons_of_mem v hw)
      rw [List.map_cons, List.nodup_cons] at hids
      simp only [plan, List.flatMap_cons, List.filter_append]
      rcases List.mem_cons.mp hw with rfl | hmem
      · have hself : (entriesFor now w (depositsOf db w.userId)).filter (·.walletId = w.id) =
            entriesFor now w (depositsOf db w.userId) := by
          rw [List.filter_eq_self]
          exact fun e he => by rw [decide_eq_true_eq]; exact hv.wallet e he
        have hrest := entriesOf_plan_of_not_mem hws hids.1
        rw [plan] at hrest
        rw [hself, hrest, List.append_nil]
      · have hnone : (entriesFor now v (depositsOf db v.userId)).filter (·.walletId = w.id) = [] := by
          rw [List.filter_eq_nil_iff]
          intro e he
          rw [decide_eq_true_eq, hv.wallet e he]
          intro hid
          exact hids.1 (hid ▸ List.mem_map_of_mem hmem)
        rw [hnone, List.nil_append]
        exact ih hws hids.2 hmem

theorem mem_legacyWallets {db : Db} {w : Wallet} : w ∈ legacyWallets db ↔
    w ∈ db.wallet ∧ entriesOf db w.id = [] ∧ (0 < w.availableBalance ∨ 0 < w.escrowBalance) := by
  simp [legacyWallets]

theorem Legacy.explains {db : Db} (h : Legacy db) (now : Nat) {w : Wallet}
    (hw : w ∈ legacyWallets db) :
    0 ≤ w.total ∧ Explains db w (entriesFor now w (depositsOf db w.userId)) := by
  obtain ⟨hmem, -, -⟩ := mem_legacyWallets.mp hw
  have hnonneg := h.nonneg w hmem
  have htotal : 0 ≤ w.total := Int.add_nonneg hnonneg.1 hnonneg.2
  refine ⟨htotal, explains_entriesFor now htotal ?_⟩
  intro p hp
  obtain ⟨hp, -, hs, ht⟩ := mem_depositsOf.mp hp
  exact h.positive p hp hs ht

theorem Legacy.legacy_ids {db : Db} (h : Legacy db) : ((legacyWallets db).map (·.id)).Nodup :=
  h.ids.sublist (List.filter_sublist.map _)

/-- What the migration leaves has no wallet that drifts. -/
theorem drifting_afterwards (now : Nat) {db : Db} (h : Legacy db) :
    drifting (afterwards now db (legacyWallets db)) = [] := by
  have hexplains : ∀ w ∈ legacyWallets db,
      Explains db w (entriesFor now w (depositsOf db w.userId)) := fun w hw => (h.explains now hw).2
  rw [drifting, List.filter_eq_nil_iff]
  intro v' hv'
  obtain ⟨v, hv, rfl⟩ := List.mem_map.mp hv'
  have hentries : entriesOf (afterwards now db (legacyWallets db)) v.id =
      entriesOf db v.id ++ (plan now db (legacyWallets db)).filter (·.walletId = v.id) :=
    List.filter_append _ _
  rw [foldl_settle_id, hentries]
  by_cases hleg : v ∈ legacyWallets db
  · have hv := hexplains v hleg
    have hescrow : ((entriesFor now v (depositsOf db v.userId)).map (·.escrowDelta)).sum = 0 := by
      refine List.sum_eq_zero ?_
      intro k hk
      obtain ⟨e, he, rfl⟩ := List.mem_map.mp hk
      exact hv.escrow e he
    rw [(mem_legacyWallets.mp hleg).2.1, List.nil_append,
      entriesOf_plan_of_mem hexplains h.legacy_ids hleg, foldl_settle_of_mem h.legacy_ids hleg,
      hv.sum, hescrow]
    simp
  · have hnot : v.id ∉ (legacyWallets db).map (·.id) := by
      intro hmem
      obtain ⟨w, hw, hid⟩ := List.mem_map.mp hmem
      have hwv : w = v :=
        List.inj_on_of_nodup_map h.ids (mem_legacyWallets.mp hw).1 hv hid
      exact hleg (hwv ▸ hw)
    rw [entriesOf_plan_of_not_mem hexplains hnot, List.append_nil, foldl_settle_of_not_mem hnot]
    by_cases hnil : entriesOf db v.id = []
    · -- no entries and no money
      have hzero : ¬ (0 < v.availableBalance ∨ 0 < v.escrowBalance) :=
        fun hpos => hleg (mem_legacyWallets.mpr ⟨hv, hnil, hpos⟩)
      have hnonneg := h.nonneg v hv
      rw [not_or, Int.not_lt, Int.not_lt] at hzero
      rw [hnil, Int.le_antisymm hzero.1 hnonneg.1, Int.le_antisymm hzero.2 hnonneg.2]
      simp
    · have hrec := h.reconciled v hv hnil
      intro hdrift
      exact hrec (List.mem_filter.mpr ⟨hv, hdrift⟩)

/-! ## The migration -/

/-- What the migration does for a wallet: its entries explain what it held,
and that is its available balance now. -/
structure Backfilled (db db' : Db) (w : Wallet) : Prop where
  explained : Explains db w (entriesOf db' w.id)
  moved : { w with availableBalance := w.total, escrowBalance := 0 } ∈ db'.wallet

/-- What the migration does for a database: every legacy wallet is backfilled,
no wallet drifts, and no reference is written twice. -/
structure Reconciled (db db' : Db) : Prop where
  backfilled : ∀ w ∈ legacyWallets db, Backfilled db db' w
  steady : drifting db' = []
  appended : ∃ new, db'.transaction = db.transaction ++ new ∧ (new.map (·.reference)).Nodup ∧
    ∀ e ∈ new, ∀ t ∈ db.transaction, t.reference ≠ e.reference

/-- What a legacy wallet holds in both balances fits its column. -/
def Fits (db : Db) : Prop := ∀ w ∈ legacyWallets db, fitsNumeric w.total

/-- No reference that the migration writes is in the ledger already. -/
def Unclaimed (db : Db) : Prop :=
  ∀ w ∈ legacyWallets db, ∀ t ∈ db.transaction, t.reference ≠ "opening_" ++ w.id ∧
    ∀ p ∈ replayed w.total (depositsOf db w.userId) 0, t.reference ≠ "dep_" ++ p.reference

/-- Where the totals fit and the references are free, nothing stops it. -/
theorem not_stopped {now : Nat} {db : Db} (hfits : Fits db) (hfree : Unclaimed db) {f : Failure} :
    ¬ Stopped now db (legacyWallets db) f := by
  intro h
  cases h with
  | total w hw hfit => exact hfit (hfits w hw)
  | taken e he t ht href =>
      obtain ⟨w, hw, he⟩ := List.mem_flatMap.mp he
      obtain ⟨hopening, hdeposits⟩ := hfree w hw t ht
      rcases List.mem_append.mp he with he | he
      · obtain ⟨p, hp, k, rfl⟩ := mem_depositEntries he
        exact hdeposits p hp href
      · unfold openingEntries at he
        split at he
        · rw [List.mem_singleton] at he
          rw [he] at href
          exact hopening href
        · cases he

/-- The migration backfills every legacy wallet, and no wallet drifts. -/
theorem upgrade_backfills (now : Nat) (db : Db) (h : Legacy db) (hfits : Fits db)
    (hfree : Unclaimed db) : ∃ db', upgrade now db = .ok db' ∧ Reconciled db db' := by
  have hexplains : ∀ w ∈ legacyWallets db,
      Explains db w (entriesFor now w (depositsOf db w.userId)) := fun w hw => (h.explains now hw).2
  have husers : ((legacyWallets db).map (·.userId)).Nodup :=
    h.onePerUser.sublist (List.filter_sublist.map _)
  have hnodup := nodup_plan now h.references h.legacy_ids husers
  have hdrift := drifting_afterwards now h
  unfold upgrade
  cases hfold : (legacyWallets db).foldlM (backfillWallet now) db with
  | error f =>
      have hstop := foldlM_error (fun w hw => h.explains now hw) hnodup hfold
      exact absurd hstop (not_stopped hfits hfree)
  | ok db' =>
      have hfresh := foldlM_fresh hfold
      obtain rfl := foldlM_ok hfold
      simp only [bind, Except.bind, hdrift, List.length_nil, ne_eq, not_true_eq_false, if_false]
      refine ⟨_, rfl, ?_, hdrift, plan now db (legacyWallets db), rfl, hnodup, hfresh⟩
      intro w hw
      obtain ⟨hmem, hnil, -⟩ := mem_legacyWallets.mp hw
      have happend : entriesOf (afterwards now db (legacyWallets db)) w.id =
          entriesOf db w.id ++ (plan now db (legacyWallets db)).filter (·.walletId = w.id) :=
        List.filter_append _ _
      rw [hnil, List.nil_append, entriesOf_plan_of_mem hexplains h.legacy_ids hw] at happend
      refine ⟨by rw [happend]; exact hexplains w hw, ?_⟩
      rw [← foldl_settle_of_mem h.legacy_ids hw]
      exact List.mem_map_of_mem hmem

/-- A wallet with 150 naira, two deposits of 100 and 70, and a wallet that
has its ledger already. -/
def twoWallets : Db where
  wallet := [
    { id := "w1", userId := "ada", availableBalance := 0, escrowBalance := 15000 },
    { id := "w2", userId := "bob", availableBalance := 500, escrowBalance := 0 }]
  transaction := [
    { userId := "bob"
      walletId := "w2"
      reference := "dep_B"
      amount := 500
      availableDelta := 500
      balanceAfter := 500
      type := .deposit
      description := "Funded wallet"
      paystackTransactionId := some "p3"
      createdAt := 3 }]
  paystackTransaction := [
    { id := "p2"
      userId := "ada"
      reference := "A2"
      amount := 7000
      status := .success
      transactionType := .escrowDeposit
      createdAt := 2 },
    { id := "p1"
      userId := "ada"
      reference := "A1"
      amount := 10000
      status := .success
      transactionType := .escrowDeposit
      createdAt := 1 }]

theorem legacy_twoWallets : Legacy twoWallets where
  ids := by decide
  onePerUser := by decide
  nonneg := by decide
  reconciled := by decide
  references := by unfold ReferencesUnique; decide
  positive := by decide

theorem upgrade_backfills_twoWallets :
    ∃ db', upgrade 9 twoWallets = .ok db' ∧ Reconciled twoWallets db' :=
  upgrade_backfills 9 twoWallets legacy_twoWallets (by unfold Fits; decide)
    (by unfold Unclaimed; decide)

example : (upgrade 9 twoWallets).toOption.map
    (fun db => (entriesOf db "w1").map fun e => (e.reference, e.availableDelta, e.balanceAfter)) =
    some [("dep_A1", 10000, 10000), ("opening_w1", 5000, 15000)] := by decide +kernel

/-! ### Where it stops -/

/-- Each balance fits its column, and what they come to does not. -/
def tooRich : Db where
  wallet := [
    { id := "w1"
      userId := "ada"
      availableBalance := 999999999999
      escrowBalance := 1 }]
  transaction := []
  paystackTransaction := []

theorem legacy_tooRich : Legacy tooRich where
  ids := by decide
  onePerUser := by decide
  nonneg := by decide
  reconciled := by decide
  references := by unfold ReferencesUnique; decide
  positive := by decide

/-- The deposit of a legacy wallet is in the ledger, on somebody else's. -/
def credited : Db where
  wallet := [
    { id := "w1", userId := "ada", availableBalance := 500, escrowBalance := 0 },
    { id := "w2", userId := "bob", availableBalance := 500, escrowBalance := 0 }]
  transaction := [
    { userId := "bob"
      walletId := "w2"
      reference := "dep_A1"
      amount := 500
      availableDelta := 500
      balanceAfter := 500
      type := .deposit
      description := "Funded wallet"
      paystackTransactionId := some "p1"
      createdAt := 1 }]
  paystackTransaction := [
    { id := "p1"
      userId := "ada"
      reference := "A1"
      amount := 500
      status := .success
      transactionType := .escrowDeposit
      createdAt := 1 }]

theorem legacy_credited : Legacy credited where
  ids := by decide
  onePerUser := by decide
  nonneg := by decide
  reconciled := by decide
  references := by unfold ReferencesUnique; decide
  positive := by decide

/-- A legacy database alone is not enough: a total may not fit, and a
reference may be taken. -/
theorem not_upgrade_reconciles :
    (¬ ∀ db, Legacy db → Unclaimed db → ∃ db', upgrade 9 db = .ok db' ∧ Reconciled db db') ∧
    (¬ ∀ db, Legacy db → Fits db → ∃ db', upgrade 9 db = .ok db' ∧ Reconciled db db') := by
  constructor
  · intro h
    obtain ⟨db', hok, -⟩ := h tooRich legacy_tooRich (by unfold Unclaimed; decide)
    have hdata : upgrade 9 tooRich = .error .data := by decide +kernel
    rw [hdata] at hok
    cases hok
  · intro h
    obtain ⟨db', hok, -⟩ := h credited legacy_credited (by unfold Fits; decide)
    have hintegrity : upgrade 9 credited = .error .integrity := by decide +kernel
    rw [hintegrity] at hok
    cases hok

end Backfill

end Adehun
