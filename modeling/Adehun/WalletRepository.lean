import Adehun.Schema

/-!
# Sessions, the cache, and the wallet repository

The statements of a session under the names the repositories use them by,
the cache client, and the single choke point through which money moves. A
ledger entry is staged together with the balance it moves, under a row lock
on the wallet, and `applyEntry` or `applyTransfer` commits both: with them
commits whatever else the request has staged.
-/

namespace Adehun

open Sessions

/-! ## Statements -/

def select {X : Type} (q : Db adehun → X) : App X := .perform (.select q)

/-- `session.exec(select(T).where(p)).all()` -/
def loadAll (t : Table) (p : t.Row → Bool) : App (List t.Row) :=
  .perform (Stmt.load (M := adehun) t fun db => ((db t).filter p).map rowId)

/-- `session.exec(select(T).where(p)).first()` -/
def loadFirst (t : Table) (p : t.Row → Bool) : App (Option t.Row) := do
  let rows ← Prog.perform (.load t fun db => (((db t).filter p).map rowId).take 1)
  pure rows.head?

/-- `session.get(T, id)` -/
def get (t : Table) (id : Id) : App (Option t.Row) :=
  .perform (Stmt.get (M := adehun) false ⟨t, id⟩)

/-- The attributes of an object the program still refers to; an expired
object is loaded again. -/
def attributes (t : Table) (id : Id) : App t.Row := do
  match ← Prog.perform (.get true ⟨t, id⟩) with
  | some r => pure r
  | none => .raise .invalidRequest

def refresh (t : Table) (id : Id) : App t.Row :=
  .perform (Stmt.refresh (M := adehun) ⟨t, id⟩)

/-- `session.add(T(...))` -/
def add (t : Table) (r : t.Row) : App Unit := .perform (.stage (.insert t r))

/-- Attributes of a mapped object assigned. -/
def assign (t : Table) (id : Id) (f : Patch adehun t) : App Unit :=
  .perform (.stage (.update t id f))

def flush : App Unit := .perform .flush

def commit : App Unit := .perform .commit

def rollback : App Unit := .perform .rollback

def fresh : App Id := .perform .fresh

def now : App Nat := .perform .now

def raiseIf (p : Prop) [Decidable p] (e : Exn) : App Unit :=
  if p then .raise e else pure ()

/-! ## The cache client

Redis is optional: every failure of the client is swallowed. -/

def cacheGet (k : CacheKey) : App (Option CacheValue) :=
  .tryCatch
    (.perform (.shared fun m => (m, (m.cache.find? (·.1 = k)).map (·.2))))
    fun _ => pure none

def cacheSet (k : CacheKey) (v : CacheValue) : App Unit :=
  .tryCatch
    (.perform (.shared fun m =>
      ({ m with cache := (k, v) :: m.cache.filter (·.1 ≠ k) }, ())))
    fun _ => pure ()

def cacheDelete (ks : List CacheKey) : App Unit :=
  .tryCatch
    (.perform (.shared fun m =>
      ({ m with cache := m.cache.filter (·.1 ∉ ks) }, ())))
    fun _ => pure ()

/-! ## The effects table -/

/-- The sign of each entry type on the available and the escrow balance. -/
def ledgerEffects : LedgerEntryType → Int × Int
  | .deposit => (1, 0)
  | .escrowLock => (-1, 1)
  | .escrowReleaseOut => (0, -1)
  | .escrowReleaseIn => (1, 0)
  | .escrowRefund => (1, -1)
  | .withdrawal => (-1, 0)
  | .withdrawalReversal => (1, 0)
  | .adjustmentCredit => (1, 0)
  | .adjustmentDebit => (-1, 0)

def ledgerDirection : LedgerEntryType → LedgerDirection
  | .deposit => .credit
  | .escrowLock => .debit
  | .escrowReleaseOut => .debit
  | .escrowReleaseIn => .credit
  | .escrowRefund => .credit
  | .withdrawal => .debit
  | .withdrawalReversal => .credit
  | .adjustmentCredit => .credit
  | .adjustmentDebit => .debit

/-! ## Arguments and results -/

/-- The keyword arguments of `apply_entry`. -/
structure EntryArgs where
  userId : Id
  entryType : LedgerEntryType
  amount : Kobo
  reference : Reference
  status : LedgerEntryStatus := .completed
  description : Option String := none
  groupId : Option GroupId := none
  agreementId : Option Id := none
  participantId : Option Id := none
  conditionId : Option Id := none
  paystackTransactionId : Option Id := none
  counterpartyUserId : Option Id := none

structure LedgerResult where
  entry : Transaction
  wallet : Wallet
  replayed : Bool

structure TransferResult where
  debit : Transaction
  credit : Transaction
  replayed : Bool

/-- One side of a two-wallet transfer. -/
structure LedgerLeg where
  userId : Id
  entryType : LedgerEntryType
  amount : Kobo
  description : Option String := none
  agreementId : Option Id := none
  participantId : Option Id := none
  conditionId : Option Id := none
  paystackTransactionId : Option Id := none
  counterpartyUserId : Option Id := none

def LedgerLeg.asArgs (l : LedgerLeg) (reference : Reference) (groupId : GroupId) :
    EntryArgs where
  userId := l.userId
  entryType := l.entryType
  amount := l.amount
  reference := reference
  description := l.description
  groupId := some groupId
  agreementId := l.agreementId
  participantId := l.participantId
  conditionId := l.conditionId
  paystackTransactionId := l.paystackTransactionId
  counterpartyUserId := l.counterpartyUserId

/-! ## Reads -/

def getUserWallet (userId : Id) : App (Option Wallet) :=
  loadFirst .wallet fun w => w.userId = userId

def getWalletById (walletId : Id) : App (Option Wallet) :=
  loadFirst .wallet fun w => w.id = walletId

def getEntryByReference (reference : Reference) : App (Option Transaction) :=
  loadFirst .transaction fun t => t.reference = reference

def getEntriesByGroup (groupId : GroupId) : App (List Transaction) :=
  loadAll .transaction fun t => t.groupId = some groupId

/-- The ledger has an entry with this reference. -/
def Posted (db : Db adehun) (reference : Reference) : Prop :=
  ∃ t ∈ (db .transaction : List Transaction), t.reference = reference

instance (db : Db adehun) (reference : Reference) : Decidable (Posted db reference) :=
  inferInstanceAs (Decidable (∃ t ∈ (db .transaction : List Transaction), _))

/-! ## Wallet lifecycle -/

def walletNotFound : Exn := .app .walletNotFound "Wallet not found"

/-- Return the user's wallet, creating it if absent. Commits. -/
def ensureWallet (userId : Id) : App Wallet := do
  let id ← fresh
  Prog.perform (.upsert [.walletUser userId] fun db =>
    if ((db .wallet : List Wallet).any fun w => w.userId = userId) then ([], ())
    else ([.insert .wallet ({ id := id, userId := userId } : Wallet)], ()))
  commit
  match ← getUserWallet userId with
  | some w => pure w
  | none => .raise .invalidRequest

/-- Wallet id for a user, creating the wallet on miss. -/
def resolveWalletId (userId : Id) : App Id := do
  match ← getUserWallet userId with
  | some w => pure w.id
  | none => do
      let w ← ensureWallet userId
      pure w.id

/-- Take a row lock on one wallet. -/
def lockWallet (walletId : Id) : App Wallet := do
  let found ← Prog.perform (Stmt.lock (M := adehun) Table.wallet fun db =>
    ((db .wallet : List Wallet).find? fun w => w.id = walletId).map (·.id))
  match found with
  | some w => pure w
  | none => .raise walletNotFound

/-- Lock two wallets in ascending order, one statement each. -/
def lockWallets (a b : Id) : App Unit :=
  if a = b then do
    let _ ← lockWallet a
    pure ()
  else do
    let _ ← lockWallet (min a b)
    let _ ← lockWallet (max a b)
    pure ()

/-! ## The choke point -/

/-- An amount of naira with its two decimals. -/
def naira (k : Kobo) : String :=
  let n := k.natAbs
  let cents := n % 100
  (if k < 0 then "-" else "") ++ toString (n / 100) ++ "." ++
    (if cents < 10 then "0" else "") ++ toString cents

/-- The balances of a wallet assigned. -/
def setBalances (available escrow : Kobo) : Patch adehun .wallet where
  run := fun w : Wallet => { w with availableBalance := available, escrowBalance := escrow }

/-- The one place a wallet balance changes: the entry and the balances it
leads to are staged, not committed. The balances are those of the wallet
object in the session. -/
def applyLedgerEntry (walletId : Id) (a : EntryArgs) : App Transaction := do
  raiseIf (a.amount ≤ 0) (.app .badRequest "Amount must be greater than zero")
  let wallet ← attributes .wallet walletId
  let availableDelta := a.amount * (ledgerEffects a.entryType).1
  let escrowDelta := a.amount * (ledgerEffects a.entryType).2
  let newAvailable := wallet.availableBalance + availableDelta
  let newEscrow := wallet.escrowBalance + escrowDelta
  raiseIf (newAvailable < 0) (.app .insufficientFunds
    ("Insufficient available balance: have " ++ naira wallet.availableBalance ++
      ", need " ++ naira a.amount))
  raiseIf (newEscrow < 0) (.app .insufficientEscrowBalance
    ("Insufficient escrow balance: have " ++ naira wallet.escrowBalance ++
      ", need " ++ naira a.amount))
  let time ← now
  let id ← fresh
  let entry : Transaction :=
    { id := id
      userId := a.userId
      walletId := wallet.id
      reference := a.reference
      groupId := a.groupId
      agreementId := a.agreementId
      participantId := a.participantId
      conditionId := a.conditionId
      paystackTransactionId := a.paystackTransactionId
      counterpartyUserId := a.counterpartyUserId
      amount := a.amount
      currency := wallet.currency
      availableDelta := availableDelta
      escrowDelta := escrowDelta
      balanceAfter := newAvailable
      escrowAfter := newEscrow
      type := a.entryType
      direction := ledgerDirection a.entryType
      status := a.status
      description := a.description
      processedAt := if a.status = .completed then some time else none }
  assign .wallet wallet.id (setBalances newAvailable newEscrow)
  add .transaction entry
  pure entry

/-! ## The money entry points -/

def replay (entry : Transaction) : App LedgerResult := do
  match ← getWalletById entry.walletId with
  | none => .raise walletNotFound
  | some wallet => pure { entry, wallet, replayed := true }

def replayTransfer (entries : List Transaction) (debitReference : Reference) :
    App TransferResult :=
  match entries.find? (·.reference = debitReference),
      entries.find? (·.reference ≠ debitReference) with
  | some debit, some credit => pure { debit, credit, replayed := true }
  | _, _ => .raise .value

/-- Move money on a single wallet, atomically and idempotently. -/
def applyEntry (a : EntryArgs) : App LedgerResult := do
  match ← getEntryByReference a.reference with
  | some existing => replay existing
  | none => do
      let walletId ← resolveWalletId a.userId
      let applied ← Prog.attempt do
        let wallet ← lockWallet walletId
        let entry ← applyLedgerEntry wallet.id a
        commit
        pure (wallet.id, entry.id)
      match applied with
      | .error .integrity => do
          rollback
          match ← getEntryByReference a.reference with
          | none => .raise .integrity
          | some existing => replay existing
      | .error e => do
          rollback
          .raise e
      | .ok (walletId, entryId) => do
          let entry ← refresh .transaction entryId
          let wallet ← refresh .wallet walletId
          cacheDelete [.userWallet a.userId]
          pure { entry, wallet, replayed := false }

/-- Move money between two wallets in one database transaction. -/
def applyTransfer (groupId : GroupId) (debit credit : LedgerLeg) :
    App TransferResult := do
  let existing ← getEntriesByGroup groupId
  if existing.length = 2 then replayTransfer existing (.out groupId)
  else do
    let debitWalletId ← resolveWalletId debit.userId
    let creditWalletId ← resolveWalletId credit.userId
    let applied ← Prog.attempt do
      lockWallets debitWalletId creditWalletId
      let debitEntry ← applyLedgerEntry debitWalletId (debit.asArgs (.out groupId) groupId)
      let creditEntry ←
        applyLedgerEntry creditWalletId (credit.asArgs (.into groupId) groupId)
      commit
      pure (debitEntry.id, creditEntry.id)
    match applied with
    | .error .integrity => do
        rollback
        let existing ← getEntriesByGroup groupId
        if existing.length = 2 then replayTransfer existing (.out groupId)
        else .raise .integrity
    | .error e => do
        rollback
        .raise e
    | .ok (debitId, creditId) => do
        let debitEntry ← refresh .transaction debitId
        let creditEntry ← refresh .transaction creditId
        cacheDelete [.userWallet debit.userId, .userWallet credit.userId]
        pure { debit := debitEntry, credit := creditEntry, replayed := false }

/-- The presentational status of a ledger row assigned, with its time of
processing where one is given. -/
def setEntryStatus (status : LedgerEntryStatus) (processedAt : Option Nat) :
    Patch adehun .transaction where
  run := fun t : Transaction =>
    { t with status := status, processedAt := processedAt <|> t.processedAt }

/-- Update a ledger row's presentational status. -/
def markEntryStatus (reference : Reference) (status : LedgerEntryStatus)
    (processedAt : Option Nat := none) (andCommit : Bool := true) :
    App (Option Transaction) := do
  match ← getEntryByReference reference with
  | none => pure none
  | some entry => do
      let time ←
        if processedAt.isNone && status = .completed && entry.processedAt.isNone then
          some <$> now
        else pure processedAt
      assign .transaction entry.id (setEntryStatus status time)
      if andCommit then do
        commit
        some <$> refresh .transaction entry.id
      else some <$> attributes .transaction entry.id

/-! ## Paystack transaction records -/

/-- Record an intent to move money through Paystack. -/
def createPaystackTransaction (row : PaystackTransaction) (andCommit : Bool := true) :
    App PaystackTransaction := do
  add .paystackTransaction row
  if andCommit then do
    commit
    refresh .paystackTransaction row.id
  else do
    flush
    attributes .paystackTransaction row.id

/-- Persist what was assigned to a Paystack transaction. -/
def savePaystackTransaction (id : Id) (andCommit : Bool := true) :
    App PaystackTransaction :=
  if andCommit then do
    commit
    refresh .paystackTransaction id
  else attributes .paystackTransaction id

/-- Fetch and lock a Paystack transaction row. -/
def getPaystackTransaction (reference : PaystackReference) :
    App (Option PaystackTransaction) :=
  .perform (Stmt.lock (M := adehun) Table.paystackTransaction fun db =>
    ((db .paystackTransaction : List PaystackTransaction).find? fun p =>
      p.reference = reference).map (·.id))

/-- Unlocked, user-scoped read for the withdrawal status endpoint. -/
def getPaystackTransactionForUser (reference : PaystackReference) (userId : Id) :
    App (Option PaystackTransaction) :=
  loadFirst .paystackTransaction fun p => p.reference = reference && p.userId = userId

end Adehun
