import Adehun.Sessions.Machine

/-!
# The tables of the escrow API

Every table the money flows read or write, with its columns, unique indexes
and checks, and the types of what goes over the wire to the payment provider
and back. Money is a whole number of kobo: request bodies are refused unless
their amount has at most two decimals, and the columns are `NUMERIC(12, 2)`.
Columns nothing reads back (timestamps of creation, raw payloads, metadata)
are left out.

The last section packs the tables into the system the session machine runs
over; a program of the API is a `Prog` of that system.
-/

namespace Adehun

open Sessions

/-- Primary keys are drawn at random. -/
abbrev Id := Nat

/-- An amount of money in hundredths of a naira. -/
abbrev Kobo := Int

/-! ## Enumerations -/

inductive ParticipantRole
  | depositor
  | beneficiary
deriving DecidableEq

inductive InvitationStatus
  | invited
  | accepted
  | rejected
deriving DecidableEq

inductive AgreementStatus
  | pending
  | active
  | disputed
  | completed
  | cancelled
  | refunded
deriving DecidableEq

def AgreementStatus.value : AgreementStatus → String
  | .pending => "pending"
  | .active => "active"
  | .disputed => "disputed"
  | .completed => "completed"
  | .cancelled => "cancelled"
  | .refunded => "refunded"

inductive NotificationType
  | invitationReceived
  | agreementAccepted
  | agreementDeclined
  | conditionAdded
  | conditionUpdated
  | agreementCompleted
  | agreementCancelled
  | escrowFunded
  | escrowReleased
  | escrowRefunded
  | walletCredited
  | withdrawalCompleted
  | withdrawalFailed
  | disputeRaised
  | disputeEvidenceAdded
  | disputeUnderReview
  | disputeResolved
  | general
deriving DecidableEq

inductive LedgerEntryType
  | deposit
  | escrowLock
  | escrowReleaseOut
  | escrowReleaseIn
  | escrowRefund
  | withdrawal
  | withdrawalReversal
  | adjustmentCredit
  | adjustmentDebit
deriving DecidableEq

inductive LedgerDirection
  | credit
  | debit
deriving DecidableEq

inductive LedgerEntryStatus
  | pending
  | completed
  | reversed
deriving DecidableEq

inductive WebhookEventStatus
  | received
  | processed
  | ignored
  | failed
deriving DecidableEq

inductive IdempotencyStatus
  | inProgress
  | completed
deriving DecidableEq

inductive DisputeCategory
  | qualityIssues
  | missedDeadline
  | incompleteWork
  | nonResponsive
  | other
deriving DecidableEq

inductive DisputeStatus
  | open
  | underReview
  | resolved
deriving DecidableEq

def DisputeStatus.value : DisputeStatus → String
  | .open => "open"
  | .underReview => "under_review"
  | .resolved => "resolved"

inductive DisputeResolutionOutcome
  | favourDepositor
  | favourBeneficiary
  | split
  | dismissed
deriving DecidableEq

inductive TransactionStatus
  | pending
  | success
  | failed
  | refunded
deriving DecidableEq

inductive TransactionType
  | escrowDeposit
  | escrowPayout
  | escrowRefund
  | withdrawal
deriving DecidableEq

/-- The one currency that is supported, and the rest. -/
inductive Currency
  | ngn
  | other
deriving DecidableEq

/-! ## References -/

/-- `ESC-...` and `WD-...`: the user's prefix and a random part. -/
inductive PaystackReference
  | fund (user random : Nat)
  | withdrawal (user random : Nat)
deriving DecidableEq

/-- `esc_rel_...`: what ties the two legs of a transfer together. -/
inductive GroupId
  | release (agreement : Id)
deriving DecidableEq

/-- The unique reference of a ledger entry: `dep_...`, `wd_...`, `wdrev_...`,
`esc_lock_...`, `esc_ref_...`, and a group with `:out` or `:in`. -/
inductive Reference
  | deposit (r : PaystackReference)
  | withdrawal (r : PaystackReference)
  | reversal (r : PaystackReference)
  | lock (agreement : Id)
  | refund (agreement : Id)
  | out (g : GroupId)
  | into (g : GroupId)
deriving DecidableEq

/-! ## Responses -/

structure UserResponse where
  id : Id
  name : String
  email : String

structure ParticipantResponse where
  id : Id
  agreementId : Id
  role : ParticipantRole
  status : InvitationStatus
  user : Option UserResponse

structure AgreementResponse where
  id : Id
  title : String
  description : String
  amount : Kobo
  status : AgreementStatus
  depositor : Option ParticipantResponse
  beneficiary : Option ParticipantResponse
  conditionCount : Nat
  conditionsMetCount : Nat
  currentUserAccepted : Bool := false
  isFunded : Bool := false

structure WithdrawalResponse where
  reference : PaystackReference
  amount : Kobo
  currency : Currency
  status : TransactionStatus
  bankAccountId : Option Id
  accountNumber : Option String
  bankName : Option String
  availableBalance : Option Kobo
  failureReason : Option String

structure FundInitResponse where
  reference : PaystackReference
  accessCode : String
  authorizationUrl : Option String
  amount : Kobo

structure WalletBalanceResponse where
  availableBalance : Kobo
  escrowBalance : Kobo
  totalBalance : Kobo
  currency : Currency

structure EscrowMovementResponse where
  agreementId : Id
  amount : Kobo
  reference : Reference
  availableBalance : Kobo
  escrowBalance : Kobo
  replayed : Bool

structure DisputeResponse where
  id : Id
  agreementId : Id
  agreementTitle : String
  agreementAmount : Kobo
  category : DisputeCategory
  description : String
  status : DisputeStatus
  raisedBy : Option Id
  againstUser : Option Id
  resolutionOutcome : Option DisputeResolutionOutcome
  resolutionNotes : Option String
  resolvedBy : Option Id

/-- `agreementId` is that of the participant who added the condition. -/
structure ConditionResponse where
  id : Id
  agreementId : Id
  title : String
  description : String
  status : String
  createdByParticipant : Id
  requiredFromParticipant : Option Id
  invitation : Option Id
  rejectedReason : Option String

/-- What a response carries. -/
inductive Body
  | withdrawal (r : WithdrawalResponse)
  | fundInit (r : FundInitResponse)
  | balance (r : WalletBalanceResponse)
  | agreement (r : AgreementResponse)
  | agreementCreated (r : AgreementResponse) (conditions : List ConditionResponse)
  | escrowMovement (r : EscrowMovementResponse)
  | dispute (r : DisputeResponse) (message : Option String)
  | condition (r : ConditionResponse)
  | status (s : String)
  | null

structure Response where
  statusCode : Nat := 200
  body : Body

/-! ## Rows -/

structure User where
  id : Id
  email : String
  name : String
  active : Bool := true
  isAdmin : Bool := false

/-- One row per issued refresh token, keyed by the `jti` of its JWT. -/
structure RefreshToken where
  jti : Id
  userId : Id
  expiresAt : Nat
  revokedAt : Option Nat := none
  replacedByJti : Option Id := none
deriving DecidableEq

structure Wallet where
  id : Id
  userId : Id
  availableBalance : Kobo := 0
  escrowBalance : Kobo := 0
  currency : Currency := .ngn
deriving DecidableEq

structure Transaction where
  id : Id
  userId : Id
  walletId : Id
  reference : Reference
  groupId : Option GroupId := none
  agreementId : Option Id := none
  participantId : Option Id := none
  conditionId : Option Id := none
  paystackTransactionId : Option Id := none
  counterpartyUserId : Option Id := none
  amount : Kobo
  currency : Currency := .ngn
  availableDelta : Kobo
  escrowDelta : Kobo
  balanceAfter : Kobo
  escrowAfter : Kobo
  type : LedgerEntryType
  direction : LedgerDirection
  status : LedgerEntryStatus
  description : Option String := none
  processedAt : Option Nat := none

structure PaystackTransaction where
  id : Id
  userId : Id
  reference : PaystackReference
  paystackId : Option Nat := none
  amount : Kobo
  currency : Currency := .ngn
  status : TransactionStatus := .pending
  transactionType : TransactionType
  transferCode : Option String := none
  recipientCode : Option String := none
  bankAccountId : Option Id := none
  failureReason : Option String := none
  paymentChannel : Option String := none
  gatewayResponse : Option String := none

structure Agreement where
  id : Id
  userId : Id
  title : String
  description : String
  amount : Kobo
  status : AgreementStatus := .pending

structure AgreementParticipant where
  id : Id
  agreementId : Id
  userId : Id
  role : ParticipantRole
  status : InvitationStatus

/-- `status` is `pending`, `accepted` or `expired`; an old row may have
none. -/
structure Invitation where
  id : Id
  email : String
  token : Nat
  agreementId : Id
  role : ParticipantRole
  invitedBy : Id
  status : Option String := some "pending"
  expiresAt : Nat

structure Condition where
  id : Id
  agreementId : Id
  participantId : Id
  invitationId : Option Id := none
  title : String
  description : String
  requiredFromParticipantId : Option Id := none
  status : String := "pending"
  approvedAt : Option Nat := none
  rejectedReason : Option String := none

structure Dispute where
  id : Id
  agreementId : Id
  raisedByUserId : Id
  againstUserId : Id
  category : DisputeCategory
  description : String
  status : DisputeStatus := .open
  agreementStatusBefore : AgreementStatus
  resolutionOutcome : Option DisputeResolutionOutcome := none
  resolutionNotes : Option String := none
  resolvedByUserId : Option Id := none
  resolvedAt : Option Nat := none
deriving DecidableEq

structure AssetFile where
  id : Id
  url : String
  type : String
  name : String
  size : Nat

structure Asset where
  id : Id
  conditionId : Option Id := none
  disputeId : Option Id := none
  fileId : Id
  uploadedBy : Id
  isApproved : Bool := false

structure Notification where
  id : Id
  userId : Id
  type : NotificationType
  title : String
  message : String

structure BankAccount where
  id : Id
  userId : Id
  accountNumber : String
  bankCode : String
  bankName : String
  accountName : String
  recipientCode : String
  isDefault : Bool := false
  isActive : Bool := true

/-- The event types of the provider's webhook that have a handler, and the
rest. -/
inductive EventType
  | chargeSuccess
  | transferSuccess
  | transferFailed
  | transferReversed
  | other (name : String)
deriving DecidableEq

/-- `paystack:{event_type}:{identifier}`, where the identifier is the event's
id, else its reference, else the hash of the body. -/
inductive DedupeKey
  | id (event : EventType) (n : Nat)
  | reference (event : EventType) (r : PaystackReference)
  | digest (event : EventType) (hash : Nat)
deriving DecidableEq

structure WebhookEvent where
  id : Id
  dedupeKey : DedupeKey
  eventType : EventType
  providerEventId : Option Nat := none
  reference : Option PaystackReference := none
  status : WebhookEventStatus
  attempts : Nat := 1
  error : Option String := none

structure IdempotencyKey where
  id : Id
  userId : Id
  key : String
  endpoint : String
  requestHash : String
  status : IdempotencyStatus
  responseStatusCode : Option Nat := none
  responseBody : Option Body := none
  resourceReference : Option (PaystackReference ⊕ Reference) := none
  createdAt : Nat
  expiresAt : Nat

/-! ## Exceptions -/

/-- The subclasses of `AppError`. -/
inductive ErrorClass
  | badRequest
  | unauthorized
  | forbidden
  | withdrawalNotAllowed
  | adminAccessRequired
  | agreementNotFound
  | invitationNotFound
  | conditionNotFound
  | participantNotFound
  | transactionNotFound
  | bankAccountNotFound
  | disputeNotFound
  | insufficientFunds
  | insufficientEscrowBalance
  | duplicateBankAccount
  | disputeAlreadyExists
  | disputeNotOpen
  | idempotencyConflict
  | idempotencyKeyReused
  | agreementCreation
  | conditionSave
  | agreementAcceptance
  | assetUpload
  | assetApproval
  | assetNotFound
  | assetRetrieval
  | walletNotFound
  | disputeCreation
  | paystack
  | paystackTimeout
  | paystackValidation
  | paystackDuplicateReference
deriving DecidableEq

namespace ErrorClass

def code : ErrorClass → String
  | .badRequest => "BAD_REQUEST"
  | .unauthorized => "UNAUTHORIZED"
  | .forbidden | .adminAccessRequired => "FORBIDDEN"
  | .withdrawalNotAllowed => "WITHDRAWALS_DISABLED"
  | .agreementNotFound | .invitationNotFound | .conditionNotFound
  | .participantNotFound | .transactionNotFound | .bankAccountNotFound
  | .disputeNotFound | .assetNotFound | .walletNotFound => "NOT_FOUND"
  | .insufficientFunds => "INSUFFICIENT_FUNDS"
  | .insufficientEscrowBalance => "INSUFFICIENT_ESCROW_BALANCE"
  | .duplicateBankAccount | .disputeAlreadyExists | .disputeNotOpen => "CONFLICT"
  | .idempotencyConflict => "IDEMPOTENT_REQUEST_IN_PROGRESS"
  | .idempotencyKeyReused => "IDEMPOTENCY_KEY_REUSED"
  | .agreementCreation | .conditionSave | .agreementAcceptance | .assetUpload
  | .assetApproval | .assetRetrieval | .disputeCreation => "INTERNAL_SERVER_ERROR"
  | .paystack => "PAYSTACK_ERROR"
  | .paystackTimeout => "PAYSTACK_TIMEOUT"
  | .paystackValidation => "PAYSTACK_VALIDATION_ERROR"
  | .paystackDuplicateReference => "PAYSTACK_DUPLICATE_REFERENCE"

def statusCode : ErrorClass → Nat
  | .badRequest => 400
  | .unauthorized => 401
  | .forbidden | .withdrawalNotAllowed | .adminAccessRequired => 403
  | .agreementNotFound | .invitationNotFound | .conditionNotFound
  | .participantNotFound | .transactionNotFound | .bankAccountNotFound
  | .disputeNotFound | .assetNotFound | .walletNotFound => 404
  | .insufficientFunds | .insufficientEscrowBalance | .duplicateBankAccount
  | .disputeAlreadyExists | .disputeNotOpen | .idempotencyConflict
  | .idempotencyKeyReused => 409
  | .agreementCreation | .conditionSave | .agreementAcceptance | .assetUpload
  | .assetApproval | .assetRetrieval | .disputeCreation => 500
  | .paystack => 502
  | .paystackTimeout => 504
  | .paystackValidation => 400
  | .paystackDuplicateReference => 409

/-- `PaystackError` and its subclasses. -/
def isPaystack : ErrorClass → Bool
  | .paystack | .paystackTimeout | .paystackValidation
  | .paystackDuplicateReference => true
  | _ => false

end ErrorClass

/-- What the API raises itself, what the database driver and the cache client
raise, and what plain Python raises on data of the wrong shape. -/
inductive Exn
  | app (c : ErrorClass) (message : String)
  | integrity
  | data
  | operational
  | staleData
  | pendingRollback
  | invalidRequest
  | redis
  | attribute
  | key
  | value
deriving DecidableEq

/-! ## The provider's wire -/

/-- A provider status after `str(...).lower()`. -/
inductive ProviderStatus
  | success
  | failed
  | reversed
  | abandoned
  | other
deriving DecidableEq

/-- The `amount` field of a provider payload. -/
inductive ProviderAmount
  | missing
  | kobo (n : Int)
  | unusable
deriving DecidableEq

/-- The fields of the `data` of a provider answer that anything reads. -/
structure ProviderData where
  status : ProviderStatus := .other
  currency : Option Currency := none
  amount : ProviderAmount := .missing
  id : Option Nat := none
  transferCode : Option String := none
  reason : Option String := none
  accessCode : Option String := none
  authorizationUrl : Option String := none

/-- A `data` field: absent or null, an object, or a value of another kind. -/
inductive DataField (α : Type)
  | missing
  | object (d : α)
  | notAnObject

/-- An HTTP body as the client decodes it. -/
inductive HttpBody
  | notJson
  | notAnObject
  | object (status : Bool) (message : String) (data : DataField ProviderData)

/-- How a request to the provider can end: `httpx.TimeoutException`,
`httpx.ConnectError`, any other `httpx.RequestError`, or a response. -/
inductive Transport
  | timeout
  | connectError
  | requestError
  | response (statusCode : Nat) (body : HttpBody)

/-- The provider endpoints in use. -/
inductive ProviderRequest
  | initializeTransaction (email : String) (amountKobo : Int)
      (reference : PaystackReference) (channel : String)
  | verifyTransaction (reference : PaystackReference)
  | initiateTransfer (amountKobo : Int) (recipient : String)
      (reference : PaystackReference) (reason : String)
  | verifyTransfer (reference : PaystackReference)

/-- Everything a handler awaits. -/
inductive Call
  | provider (r : ProviderRequest)
  | sleep (halfSeconds : Nat)
  | sendToUser (user : Id)

/-! ## The cache -/

inductive CacheKey
  | user (u : Id)
  | agreement (a : Id)
  | userAgreements (u : Id)
  | userWallet (u : Id)
  | agreementCondition (a : Id)
  | condition (c : Id)
  | invitation (token : Nat)
  | asset (a : Id)
  | agreementAsset (a : Id)
  | conditionAsset (c : Id)
deriving DecidableEq

inductive CacheValue
  | user (u : User)
  | agreement (a : Agreement)
  | agreements (rows : List (Agreement × Nat × Nat × Bool))
  | invitation (v : Invitation)
  | asset (a : Asset)
  | assets (rows : List Asset)

/-- Redis and the wall clock. -/
structure Shared where
  cache : List (CacheKey × CacheValue) := []
  now : Nat := 0

/-- Time passes, and a cached value expires. -/
inductive Ambient
  | tick (seconds : Nat)
  | expire (k : CacheKey)

def ambient : Ambient → Shared → Shared
  | .tick s, m => { m with now := m.now + s }
  | .expire k, m => { m with cache := m.cache.filter (·.1 ≠ k) }

/-! ## The system -/

inductive Table
  | user
  | refreshToken
  | wallet
  | transaction
  | paystackTransaction
  | agreement
  | agreementParticipant
  | invitation
  | condition
  | dispute
  | assetFile
  | asset
  | notification
  | bankAccount
  | webhookEvent
  | idempotencyKey
deriving DecidableEq

abbrev Table.Row : Table → Type
  | .user => User
  | .refreshToken => RefreshToken
  | .wallet => Wallet
  | .transaction => Transaction
  | .paystackTransaction => PaystackTransaction
  | .agreement => Agreement
  | .agreementParticipant => AgreementParticipant
  | .invitation => Invitation
  | .condition => Condition
  | .dispute => Dispute
  | .assetFile => AssetFile
  | .asset => Asset
  | .notification => Notification
  | .bankAccount => BankAccount
  | .webhookEvent => WebhookEvent
  | .idempotencyKey => IdempotencyKey

def rowId : {t : Table} → t.Row → Nat
  | .user, r => r.id
  | .refreshToken, r => r.jti
  | .wallet, r => r.id
  | .transaction, r => r.id
  | .paystackTransaction, r => r.id
  | .agreement, r => r.id
  | .agreementParticipant, r => r.id
  | .invitation, r => r.id
  | .condition, r => r.id
  | .dispute, r => r.id
  | .assetFile, r => r.id
  | .asset, r => r.id
  | .notification, r => r.id
  | .bankAccount, r => r.id
  | .webhookEvent, r => r.id
  | .idempotencyKey, r => r.id

/-- The entries of the unique indexes. -/
inductive Index
  | userEmail (email : String)
  | walletUser (u : Id)
  | transactionReference (r : Reference)
  | paystackReference (r : PaystackReference)
  | participant (agreement user : Id)
  | invitationToken (t : Nat)
  | activeDispute (agreement : Id)
  | recipientCode (code : String)
  | activeAccount (user : Id) (bankCode accountNumber : String)
  | defaultAccount (user : Id)
  | webhookDedupe (k : DedupeKey)
  | idempotency (user : Id) (endpoint key : String)
deriving DecidableEq

def rowEntries : {t : Table} → t.Row → List Index
  | .user, r => [.userEmail r.email]
  | .wallet, r => [.walletUser r.userId]
  | .transaction, r => [.transactionReference r.reference]
  | .paystackTransaction, r => [.paystackReference r.reference]
  | .agreementParticipant, r => [.participant r.agreementId r.userId]
  | .invitation, r => [.invitationToken r.token]
  | .dispute, r => if r.status = .resolved then [] else [.activeDispute r.agreementId]
  | .bankAccount, r =>
      .recipientCode r.recipientCode ::
        (if r.isActive then [.activeAccount r.userId r.bankCode r.accountNumber]
          else []) ++
        (if r.isDefault && r.isActive then [.defaultAccount r.userId] else [])
  | .webhookEvent, r => [.webhookDedupe r.dedupeKey]
  | .idempotencyKey, r => [.idempotency r.userId r.endpoint r.key]
  | .refreshToken, _ | .agreement, _ | .condition, _ | .assetFile, _ | .asset, _
  | .notification, _ => []

/-- `NUMERIC(12, 2)` holds ten digits before the point. -/
def fitsNumeric (k : Kobo) : Bool :=
  -1000000000000 < k && k < 1000000000000

def rowCheck : {t : Table} → t.Row → Option Exn
  | .wallet, r =>
      if !(fitsNumeric r.availableBalance && fitsNumeric r.escrowBalance) then some .data
      else if r.availableBalance < 0 || r.escrowBalance < 0 then some .integrity
      else none
  | .transaction, r =>
      if [r.amount, r.availableDelta, r.escrowDelta, r.balanceAfter,
          r.escrowAfter].any (!fitsNumeric ·) then some .data
      else if r.amount ≤ 0 then some .integrity
      else none
  | .paystackTransaction, r => if fitsNumeric r.amount then none else some .data
  | .asset, r => if r.conditionId.isSome = r.disputeId.isSome then some .integrity else none
  | _, _ => none

/-- The database, cache and provider of the API. -/
abbrev adehun : System where
  Table := Table
  Row := Table.Row
  id := rowId
  Index := Index
  entries := rowEntries
  Exn := Exn
  check := rowCheck
  integrityError := .integrity
  databaseError := .operational
  staleDataError := .staleData
  failedTransaction := .pendingRollback
  noResultFound := .invalidRequest
  sharedError := .redis
  Shared := Shared
  Ambient := Ambient
  ambient := ambient
  clock := Shared.now
  Call := Call
  Reply := Transport

/-- A program of the API. -/
abbrev App := Prog adehun

end Adehun
