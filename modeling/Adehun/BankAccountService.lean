import Adehun.WalletService

/-!
# Bank accounts

Where a withdrawal goes. A user saves accounts, chooses the default among
them, and removes them; a removed account stays as a row that is not active.
Three unique indexes watch over the table: over the recipient codes of all
rows, and over the destinations and the defaults of the active ones.

The payment provider is what it is documented to be here: it knows the banks
and the holders of their accounts, and it has one recipient for every
account. Its list of banks is the same with and without the cache, and its
texts fit their columns.
-/

namespace Adehun

open Sessions

structure Paystack where
  banks : List (String × String)
  resolveAccountNumber : (accountNumber bankCode : String) → Except Exn String
  recipientCode : (accountNumber bankCode : String) → String

/-- A validated body of `POST /bank-accounts`. -/
structure BankAccountCreate where
  accountNumber : String
  bankCode : String
  makeDefault : Bool := false
  accountNumber_length : 10 ≤ accountNumber.length ∧ accountNumber.length ≤ 20
  bankCode_length : 1 ≤ bankCode.length ∧ bankCode.length ≤ 10

/-! ## The bank account repository -/

namespace BankAccountRepository

def findActiveDuplicate (userId : Id) (bankCode accountNumber : String) :
    App (Option BankAccount) :=
  loadFirst .bankAccount fun b => b.userId = userId && b.bankCode = bankCode &&
    b.accountNumber = accountNumber && b.isActive

/-- `bank_account.is_default = ...` -/
def setIsDefault (isDefault : Bool) : Patch adehun .bankAccount where
  run := fun b : BankAccount => { b with isDefault := isDefault }

def setInactive : Patch adehun .bankAccount where
  run := fun b : BankAccount => { b with isActive := false, isDefault := false }

def add (bankAccount : BankAccount) (andCommit : Bool := true) : App BankAccount := do
  Adehun.add .bankAccount bankAccount
  if andCommit then do
    commit
    refresh .bankAccount bankAccount.id
  else pure bankAccount

/-- The default of before is cleared and sent first. -/
def clearDefault (bankAccount : BankAccount) : App Unit := do
  match ← getDefaultBankAccountForUser bankAccount.userId with
  | some current =>
      if current.id ≠ bankAccount.id then do
        assign .bankAccount current.id (setIsDefault false)
        flush
      else pure ()
  | none => pure ()

/-- Make one account the default, clearing any other. -/
def setDefault (bankAccount : BankAccount) : App BankAccount := do
  clearDefault bankAccount
  assign .bankAccount bankAccount.id (setIsDefault true)
  commit
  refresh .bankAccount bankAccount.id

def deactivate (bankAccount : BankAccount) : App BankAccount := do
  assign .bankAccount bankAccount.id setInactive
  commit
  refresh .bankAccount bankAccount.id

/-- A payout in flight pins the account it is going to. -/
def hasPendingWithdrawal (bankAccountId : Id) : App Bool :=
  select fun db => (db .paystackTransaction : List PaystackTransaction).any fun t =>
    t.bankAccountId = some bankAccountId && t.status = .pending

end BankAccountRepository

/-! ## The bank account service -/

def bankAccountNotFound : Exn := .app .bankAccountNotFound "Bank account not found"

def bankName (paystack : Paystack) (bankCode : String) : App String :=
  match paystack.banks.find? fun bank => bank.1 = bankCode with
  | some bank => pure bank.2
  | none => .raise (.app .badRequest "Unknown bank code")

/-- `payload.make_default or get_default_for_user(user_id) is None` -/
def makesDefault (userId : Id) (payload : BankAccountCreate) : App Bool :=
  if payload.makeDefault then pure true
  else do
    let current ← getDefaultBankAccountForUser userId
    pure current.isNone

def saveAccount (account : BankAccount) (makeDefault : Bool) : App BankAccount := do
  let account ← BankAccountRepository.add account (!makeDefault)
  if makeDefault then BankAccountRepository.setDefault account else pure account

/-- A recipient is registered for an account that resolved, and the account
saved. The first account of a user becomes the default, whatever was asked for. -/
def saveResolved (paystack : Paystack) (userId : Id) (payload : BankAccountCreate)
    (bankName accountName : String) : App BankAccount := do
  let id ← fresh
  let makeDefault ← makesDefault userId payload
  saveAccount
    { id := id
      userId := userId
      accountNumber := payload.accountNumber
      bankCode := payload.bankCode
      bankName := bankName
      accountName := accountName
      recipientCode := paystack.recipientCode payload.accountNumber payload.bankCode }
    makeDefault

def addBankAccount (paystack : Paystack) (userId : Id) (payload : BankAccountCreate) :
    App BankAccount := do
  match ← BankAccountRepository.findActiveDuplicate userId payload.bankCode
      payload.accountNumber with
  | some _ => .raise (.app .duplicateBankAccount "This bank account is already saved")
  | none =>
      let bankName ← bankName paystack payload.bankCode
      let accountName ←
        ofExcept (paystack.resolveAccountNumber payload.accountNumber payload.bankCode)
      saveResolved paystack userId payload bankName accountName

def setDefaultBankAccount (bankAccountId userId : Id) : App BankAccount := do
  match ← getBankAccountForUser bankAccountId userId with
  | none => .raise bankAccountNotFound
  | some account => BankAccountRepository.setDefault account

/-- Soft delete: payouts still name the row. -/
def removeBankAccount (bankAccountId userId : Id) : App Unit := do
  match ← getBankAccountForUser bankAccountId userId with
  | none => .raise bankAccountNotFound
  | some account => do
      if ← BankAccountRepository.hasPendingWithdrawal account.id then
        .raise (.app .badRequest
          "This account has a withdrawal in progress and cannot be removed yet")
      else do
        let _ ← BankAccountRepository.deactivate account
        pure ()

end Adehun
