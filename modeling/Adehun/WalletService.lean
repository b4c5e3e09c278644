import Adehun.PaystackClient

/-!
# The wallet service

What should move and why: funding, the three escrow movements, withdrawals
and their reversal, and the status read that reconciles a withdrawal lazily.
Balances are only ever moved by the repository's two entry points.
-/

namespace Adehun

open Sessions

/-- The settings the money flows read. -/
structure Settings where
  paystackTransfersEnabled : Bool := false
  withdrawalMinAmount : Kobo := 10000
  withdrawalMaxAmount : Kobo := 100000000
  walletFundMaxAmount : Kobo := 1000000000
  agreementMaxAmount : Kobo := 5000000000
  idempotencyTtlHours : Nat := 24
  idempotencyInflightTimeoutSeconds : Nat := 120

/-- A validated body of `POST /wallet/fund`. -/
structure WalletCreate where
  amount : Kobo
  amount_pos : 0 < amount
  channel : String := "card"

/-- A validated body of `POST /wallet/withdraw`. -/
structure WithdrawalCreate where
  amount : Kobo
  amount_pos : 0 < amount
  bankAccountId : Option Id := none

def generateFundReference (userId : Id) : App PaystackReference := do
  let n ← fresh
  pure (.fund userId n)

def generateWithdrawalReference (userId : Id) : App PaystackReference := do
  let n ← fresh
  pure (.withdrawal userId n)

/-- Amounts are kept in kobo already. -/
def toKobo (amount : Kobo) : Int := amount

/-- `s[:n]` -/
def clip (n : Nat) (s : String) : String := String.ofList (s.toList.take n)

/-! ## Bank accounts -/

def getBankAccountForUser (bankAccountId userId : Id) : App (Option BankAccount) :=
  loadFirst .bankAccount fun b => b.id = bankAccountId && b.userId = userId && b.isActive

def getDefaultBankAccountForUser (userId : Id) : App (Option BankAccount) :=
  loadFirst .bankAccount fun b => b.userId = userId && b.isDefault && b.isActive

def resolveBankAccount (userId : Id) (bankAccountId : Option Id) : App BankAccount := do
  match bankAccountId with
  | some id =>
      match ← getBankAccountForUser id userId with
      | some account => pure account
      | none => .raise (.app .bankAccountNotFound "Bank account not found")
  | none =>
      match ← getDefaultBankAccountForUser userId with
      | some account => pure account
      | none => .raise (.app .bankAccountNotFound
          "No default bank account. Add one or pass bank_account_id.")

/-! ## Reads -/

/-- Current balances, creating the wallet on first read. -/
def getBalance (userId : Id) : App WalletBalanceResponse := do
  let wallet ← ensureWallet userId
  pure { availableBalance := wallet.availableBalance
         escrowBalance := wallet.escrowBalance
         totalBalance := wallet.availableBalance + wallet.escrowBalance
         currency := wallet.currency }

/-! ## Funding -/

/-- The outcome of a Paystack transaction assigned. -/
def setFailed (status : TransactionStatus) (reason : String) :
    Patch adehun .paystackTransaction where
  run := fun p : PaystackTransaction =>
    { p with status := status, failureReason := some (clip 255 reason) }

/-- Start a Paystack payment: the intent is recorded first, and no money
moves. -/
def requestWalletFund (userId : Id) (userEmail : String) (walletData : WalletCreate) :
    App FundInitResponse := do
  let reference ← generateFundReference userId
  let id ← fresh
  let row ← createPaystackTransaction
    { id := id
      userId := userId
      reference := reference
      amount := walletData.amount
      transactionType := .escrowDeposit
      paymentChannel := some walletData.channel }
  let started ← Prog.attempt
    (initializeTransaction userEmail (toKobo walletData.amount) reference
      walletData.channel)
  match started with
  | .error e =>
      if e.isPaystackError then do
        assign .paystackTransaction row.id (setFailed .failed e.message)
        let _ ← savePaystackTransaction row.id
        .raise e
      else .raise e
  | .ok data => do
      let d ← fields data
      match d.accessCode with
      | none => .raise .key
      | some accessCode =>
          pure { reference := reference
                 accessCode := accessCode
                 authorizationUrl := d.authorizationUrl
                 amount := walletData.amount }

/-! ## Escrow -/

/-- Move a depositor's money from available into escrow. -/
def lockEscrow (userId : Id) (amount : Kobo) (agreementId : Id)
    (participantId counterpartyUserId : Option Id) (description : String) :
    App LedgerResult :=
  applyEntry
    { userId := userId
      entryType := .escrowLock
      amount := amount
      reference := .lock agreementId
      agreementId := some agreementId
      participantId := participantId
      counterpartyUserId := counterpartyUserId
      description := some description }

/-- Hand escrowed money to the beneficiary, both legs at once. -/
def releaseEscrow (agreementId depositorUserId beneficiaryUserId : Id) (amount : Kobo)
    (description : String) : App TransferResult :=
  applyTransfer (.release agreementId)
    { userId := depositorUserId
      entryType := .escrowReleaseOut
      amount := amount
      agreementId := some agreementId
      counterpartyUserId := some beneficiaryUserId
      description := some description }
    { userId := beneficiaryUserId
      entryType := .escrowReleaseIn
      amount := amount
      agreementId := some agreementId
      counterpartyUserId := some depositorUserId
      description := some description }

/-- Return escrowed money to the depositor. -/
def refundEscrow (agreementId depositorUserId : Id) (amount : Kobo)
    (description : String) : App LedgerResult :=
  applyEntry
    { userId := depositorUserId
      entryType := .escrowRefund
      amount := amount
      reference := .refund agreementId
      agreementId := some agreementId
      description := some description }

/-! ## Withdrawal -/

def withdrawalResponse (rowId accountId : Id) (availableBalance : Option Kobo) :
    App WithdrawalResponse := do
  let row ← attributes .paystackTransaction rowId
  let account ← attributes .bankAccount accountId
  pure { reference := row.reference
         amount := row.amount
         currency := row.currency
         status := row.status
         bankAccountId := some account.id
         accountNumber := some account.accountNumber
         bankName := some account.bankName
         availableBalance := availableBalance
         failureReason := row.failureReason }

/-- Undo a debit whose transfer was refused. -/
def reverseWithdrawal (reference : PaystackReference) (userId : Id) (amount : Kobo)
    (reason : String) : App Unit := do
  match ← getPaystackTransaction reference with
  | none => pure ()
  | some row => do
      assign .paystackTransaction row.id (setFailed .failed reason)
      let _ ← savePaystackTransaction row.id false
  let _ ← markEntryStatus (.withdrawal reference) .reversed none false
  let _ ← applyEntry
    { userId := userId
      entryType := .withdrawalReversal
      amount := amount
      reference := .reversal reference
      description := some "Withdrawal could not be sent" }

/-- The outcome of the transfer is unknown: it may have gone through. -/
def Exn.outcomeUnknown : Exn → Bool
  | .app .paystackTimeout _ | .app .paystackDuplicateReference _ => true
  | _ => false

/-- What the provider calls the transfer assigned. -/
def setTransfer (transferCode : Option String) (paystackId : Option Nat) :
    Patch adehun .paystackTransaction where
  run := fun p : PaystackTransaction =>
    { p with transferCode := transferCode, paystackId := paystackId }

/-- `account_number[-4:]` -/
def lastFour (s : String) : String := String.ofList (s.toList.drop (s.length - 4))

/-- Debit first, then call the provider, and decide on its answer. -/
def requestWithdrawal (settings : Settings) (userId : Id) (payload : WithdrawalCreate) :
    App WithdrawalResponse := do
  raiseIf (!settings.paystackTransfersEnabled)
    (.app .withdrawalNotAllowed "Withdrawals are temporarily unavailable")
  raiseIf (payload.amount < settings.withdrawalMinAmount) (.app .badRequest
    ("Minimum withdrawal is " ++ naira settings.withdrawalMinAmount))
  raiseIf (payload.amount > settings.withdrawalMaxAmount) (.app .badRequest
    ("Maximum withdrawal is " ++ naira settings.withdrawalMaxAmount))
  let account ← resolveBankAccount userId payload.bankAccountId
  let reference ← generateWithdrawalReference userId
  -- the intent, uncommitted: `applyEntry` commits it with the debit
  let id ← fresh
  let row ← createPaystackTransaction
    { id := id
      userId := userId
      reference := reference
      amount := payload.amount
      transactionType := .withdrawal
      recipientCode := some account.recipientCode
      bankAccountId := some account.id } false
  let result ← applyEntry
    { userId := userId
      entryType := .withdrawal
      amount := payload.amount
      reference := .withdrawal reference
      status := .pending
      paystackTransactionId := some row.id
      description := some ("Withdrawal to " ++ account.bankName ++ " ****" ++
        lastFour account.accountNumber) }
  -- only now does money leave
  let sent ← Prog.attempt do
    let account ← attributes .bankAccount account.id
    initiateTransfer (toKobo payload.amount) account.recipientCode reference
      "Wallet withdrawal"
  match sent with
  | .error e =>
      if e.outcomeUnknown then do
        let wallet ← attributes .wallet result.wallet.id
        withdrawalResponse row.id account.id (some wallet.availableBalance)
      else if e.isPaystackError then do
        reverseWithdrawal reference userId payload.amount e.message
        .raise e
      else .raise e
  | .ok data => do
      let d ← fields data
      assign .paystackTransaction row.id (setTransfer d.transferCode d.id)
      let _ ← savePaystackTransaction row.id
      let wallet ← attributes .wallet result.wallet.id
      withdrawalResponse row.id account.id (some wallet.availableBalance)

/-- A transfer found to have arrived. -/
def setArrived (transferCode : Option String) : Patch adehun .paystackTransaction where
  run := fun p : PaystackTransaction =>
    { p with status := .success, transferCode := transferCode }

/-- Ask the provider about a withdrawal that is still pending. -/
def reconcilePendingWithdrawal (row : PaystackTransaction) : App Unit := do
  match ← Prog.attempt (verifyTransfer row.reference) with
  | .error e => if e.isPaystackError then pure () else .raise e
  | .ok data => do
      let d ← fields data
      match d.status with
      | .success => do
          assign .paystackTransaction row.id (setArrived d.transferCode)
          let _ ← savePaystackTransaction row.id false
          let _ ← markEntryStatus (.withdrawal row.reference) .completed
      | .failed | .reversed | .abandoned =>
          reverseWithdrawal row.reference row.userId row.amount
            (messageOr (d.reason.getD "") "Transfer failed")
      | .other => pure ()

/-- Status of a withdrawal, reconciling lazily if it has been stuck. -/
def getWithdrawal (userId : Id) (reference : PaystackReference) :
    App WithdrawalResponse := do
  match ← getPaystackTransactionForUser reference userId with
  | none => .raise (.app .transactionNotFound "Withdrawal not found")
  | some row => do
      if row.status = .pending then reconcilePendingWithdrawal row else pure ()
      let row ← attributes .paystackTransaction row.id
      let account ← match row.bankAccountId with
        | some id => getBankAccountForUser id userId
        | none => pure none
      let wallet ← getUserWallet userId
      pure { reference := row.reference
             amount := row.amount
             currency := row.currency
             status := row.status
             bankAccountId := row.bankAccountId
             accountNumber := account.map (·.accountNumber)
             bankName := account.map (·.bankName)
             availableBalance := wallet.map (·.availableBalance)
             failureReason := row.failureReason }

end Adehun
