import Adehun.WalletService

/-!
# The provider's webhook

An event is claimed on its dedupe key before anything else, so that a
redelivery of a handled event is ignored. A handler then locks the Paystack
transaction row, asks the provider whether the event is true, changes the row
without committing and lets the wallet repository commit it together with the
money. Notifications and websocket pushes are handed back to the route.
-/

namespace Adehun

open Sessions

/-! ## The event repository -/

/-- How often a failed event is handled again. -/
def maxAttempts : Nat := 5

def claimAgain : Patch adehun .webhookEvent where
  run := fun e : WebhookEvent =>
    { e with status := .received, attempts := e.attempts + 1 }

/-- Try to take ownership of an event. True means "process it". -/
def claim (dedupeKey : DedupeKey) (eventType : EventType) (providerEventId : Option Nat)
    (reference : Option PaystackReference) : App Bool := do
  let id ← fresh
  let claimed ← Prog.perform (.upsert [.webhookDedupe dedupeKey] fun db =>
    match (db .webhookEvent : List WebhookEvent).find? fun e => e.dedupeKey = dedupeKey with
    | none =>
        ([.insert .webhookEvent
          ({ id := id
             dedupeKey := dedupeKey
             eventType := eventType
             providerEventId := providerEventId
             reference := reference
             status := .received } : WebhookEvent)], true)
    | some e =>
        if e.status = .failed && e.attempts < maxAttempts then
          ([.update .webhookEvent e.id claimAgain], true)
        else ([], false))
  commit
  pure claimed

def getEvent (dedupeKey : DedupeKey) : App (Option WebhookEvent) :=
  loadFirst .webhookEvent fun e => e.dedupeKey = dedupeKey

def setEventStatus (status : WebhookEventStatus) (error : Option String) :
    Patch adehun .webhookEvent where
  run := fun e : WebhookEvent => { e with status := status, error := error <|> e.error }

def mark (dedupeKey : DedupeKey) (status : WebhookEventStatus) : App Unit := do
  match ← getEvent dedupeKey with
  | none => pure ()
  | some e => do
      assign .webhookEvent e.id (setEventStatus status none)
      commit

/-- Record a handler failure, in a transaction of its own. -/
def markFailed (dedupeKey : DedupeKey) (error : String) : App Unit := do
  rollback
  match ← getEvent dedupeKey with
  | none => pure ()
  | some e => do
      assign .webhookEvent e.id (setEventStatus .failed (some (clip 2000 error)))
      commit

/-! ## Payloads and outcomes -/

/-- The fields of an event's `data` and of its raw body. Nothing reads
`amount`. -/
structure WebhookData where
  id : Option Nat := none
  reference : Option PaystackReference := none
  amount : ProviderAmount := .missing
  currency : Option Currency := none
  channel : Option String := none
  gatewayResponse : Option String := none
  reason : Option String := none
  transferCode : Option String := none

/-- A signed body: unparseable, not an object, or an event. -/
inductive WebhookPayload
  | notJson
  | notAnObject
  | event (type : EventType) (data : DataField WebhookData)

structure NotificationIntent where
  userId : Id
  type : NotificationType
  title : String
  message : String

structure WebhookOutcome where
  httpStatus : Nat
  status : String
  notifications : List NotificationIntent := []
  wsEvents : List Id := []

/-- `data.get("id")` where it counts as one: zero is falsy. -/
def WebhookData.eventId (data : WebhookData) : Option Nat := data.id.filter (· ≠ 0)

/-- `sha256(raw_body)` stands in where an event has neither id nor
reference. -/
def buildDedupeKey (eventType : EventType) (data : WebhookData) (bodyHash : Nat) :
    DedupeKey :=
  match data.eventId, data.reference with
  | some n, _ => .id eventType n
  | none, some r => .reference eventType r
  | none, none => .digest eventType bodyHash

/-! ## charge.success -/

/-- A verified charge recorded on its row. -/
def setCharged (credited : Kobo) (paystackId : Option Nat)
    (channel gatewayResponse : Option String) : Patch adehun .paystackTransaction where
  run := fun p : PaystackTransaction =>
    { p with
      amount := credited
      status := .success
      paystackId := paystackId
      paymentChannel := channel
      gatewayResponse := gatewayResponse }

def mismatchNote (expected credited : Kobo) : Option String :=
  if credited < expected then
    some ("Underpaid: expected " ++ toString (toKobo expected) ++ " kobo, received " ++
      toString credited ++ " kobo")
  else if credited > expected then
    some ("Overpaid: expected " ++ toString (toKobo expected) ++ " kobo, received " ++
      toString credited ++ " kobo")
  else none

/-- Credit a verified charge in kobo to the wallet its row names. -/
def creditCharge (row : PaystackTransaction) (data : WebhookData) (paidKobo : Int) :
    App WebhookOutcome := do
  let credited : Kobo := paidKobo
  let note := mismatchNote row.amount credited
  assign .paystackTransaction row.id
    (setCharged credited data.id data.channel (note <|> data.gatewayResponse))
  let _ ← savePaystackTransaction row.id false
  let result ← applyEntry
    { userId := row.userId
      entryType := .deposit
      amount := credited
      reference := .deposit row.reference
      paystackTransactionId := some row.id
      description := some "Wallet funding" }
  let row ← attributes .paystackTransaction row.id
  let _ ← attributes .wallet result.wallet.id
  pure { httpStatus := 200
         status := "processed"
         notifications := [
           { userId := row.userId
             type := .walletCredited
             title := "Wallet Funded"
             message := "Your wallet was credited with " ++ naira credited }]
         wsEvents := [row.userId] }

/-- What the provider says about a charge whose row is pending and locked. -/
def settleCharge (row : PaystackTransaction) (data : WebhookData)
    (verified : ProviderData) : App WebhookOutcome :=
  if verified.status ≠ .success then pure { httpStatus := 200, status := "not_verified" }
  else if (verified.currency <|> data.currency) ≠ some .ngn then
    pure { httpStatus := 200, status := "unsupported_currency" }
  else
    match verified.amount with
    | .missing => pure { httpStatus := 200, status := "malformed" }
    | .unusable => .raise .value
    | .kobo n => creditCharge row data n

def handleChargeSuccess (data : WebhookData) : App WebhookOutcome := do
  match data.reference with
  | none => pure { httpStatus := 200, status := "ignored" }
  | some reference =>
      match ← getPaystackTransaction reference with
      | none => pure { httpStatus := 200, status := "unknown_reference" }
      | some row =>
          if row.status ≠ .pending then
            pure { httpStatus := 200, status := "already_processed" }
          else do
            match ← Prog.attempt (verifyTransaction reference) with
            | .error e =>
                if e.isPaystackError then
                  pure { httpStatus := 500, status := "verify_failed" }
                else .raise e
            | .ok answer => do
                let verified ← fields answer
                settleCharge row data verified

/-! ## transfer.* -/

/-- A transfer confirmed by the provider recorded on its row. -/
def setTransferred (paystackId : Option Nat) (transferCode : Option String) :
    Patch adehun .paystackTransaction where
  run := fun p : PaystackTransaction =>
    { p with status := .success, paystackId := paystackId, transferCode := transferCode }

/-- A confirmed transfer moves no money: the debit happened at request
time. -/
def settleTransfer (row : PaystackTransaction) (reference : PaystackReference)
    (data : WebhookData) : App WebhookOutcome := do
  assign .paystackTransaction row.id (setTransferred data.id data.transferCode)
  let _ ← savePaystackTransaction row.id false
  let time ← now
  let _ ← markEntryStatus (.withdrawal reference) .completed (some time)
  let row ← attributes .paystackTransaction row.id
  let _ ← getUserWallet row.userId
  pure { httpStatus := 200
         status := "processed"
         notifications := [
           { userId := row.userId
             type := .withdrawalCompleted
             title := "Withdrawal Sent"
             message := naira row.amount ++ " has been sent to your bank" }]
         wsEvents := [row.userId] }

def handleTransferSuccess (data : WebhookData) : App WebhookOutcome := do
  match data.reference with
  | none => pure { httpStatus := 200, status := "ignored" }
  | some reference =>
      match ← getPaystackTransaction reference with
      | none => pure { httpStatus := 200, status := "unknown_reference" }
      | some row =>
          if row.status ≠ .pending then
            pure { httpStatus := 200, status := "already_processed" }
          else do
            match ← Prog.attempt (verifyTransfer reference) with
            | .error e =>
                if e.isPaystackError then
                  pure { httpStatus := 500, status := "verify_failed" }
                else .raise e
            | .ok answer => do
                let verified ← fields answer
                if verified.status ≠ .success then
                  pure { httpStatus := 200, status := "not_verified" }
                else settleTransfer row reference data

/-- Put the money of a failed or reversed transfer back. -/
def creditReversal (row : PaystackTransaction) (reference : PaystackReference)
    (original : Transaction) : App WebhookOutcome := do
  let _ ← savePaystackTransaction row.id false
  let _ ← markEntryStatus original.reference .reversed none false
  let result ← applyEntry
    { userId := row.userId
      entryType := .withdrawalReversal
      amount := original.amount
      reference := .reversal reference
      paystackTransactionId := some row.id
      description := some "Withdrawal reversed by bank" }
  let row ← attributes .paystackTransaction row.id
  let original ← attributes .transaction original.id
  let _ ← attributes .wallet result.wallet.id
  pure { httpStatus := 200
         status := "reversed"
         notifications := [
           { userId := row.userId
             type := .withdrawalFailed
             title := "Withdrawal Failed"
             message := "Your withdrawal of " ++ naira original.amount ++
               " could not be completed and has been returned to your wallet" }]
         wsEvents := [row.userId] }

/-- A reversal may arrive after a success; a plain failure may not. -/
def reversalAllowed (finalStatus status : TransactionStatus) : Bool :=
  status = .pending || (finalStatus = .refunded && status = .success)

def handleTransferReversal (data : WebhookData) (finalStatus : TransactionStatus) :
    App WebhookOutcome := do
  match data.reference with
  | none => pure { httpStatus := 200, status := "ignored" }
  | some reference =>
      match ← getPaystackTransaction reference with
      | none => pure { httpStatus := 200, status := "unknown_reference" }
      | some row =>
          if !reversalAllowed finalStatus row.status then
            pure { httpStatus := 200, status := "already_processed" }
          else do
            let reason := messageOr (messageOr (data.reason.getD "")
              (data.gatewayResponse.getD "")) "Transfer failed"
            assign .paystackTransaction row.id (setFailed finalStatus reason)
            match ← getEntryByReference (.withdrawal reference) with
            | none => do
                -- nothing was debited: do not invent a credit
                let _ ← savePaystackTransaction row.id
                pure { httpStatus := 200, status := "no_ledger_entry" }
            | some original => creditReversal row reference original

/-! ## Dispatch -/

/-- The handler of an event type, if there is one. -/
def webhookHandler (eventType : EventType) (data : WebhookData) :
    Option (App WebhookOutcome) :=
  match eventType with
  | .chargeSuccess => some (handleChargeSuccess data)
  | .transferSuccess => some (handleTransferSuccess data)
  | .transferFailed => some (handleTransferReversal data .failed)
  | .transferReversed => some (handleTransferReversal data .refunded)
  | .other _ => none

/-- Claim the event, run its handler, and record how that went. -/
def handleEvent (eventType : EventType) (data : WebhookData) (bodyHash : Nat) :
    App WebhookOutcome := do
  let dedupeKey := buildDedupeKey eventType data bodyHash
  let claimed ← claim dedupeKey eventType data.eventId data.reference
  if !claimed then pure { httpStatus := 200, status := "duplicate" }
  else
    match webhookHandler eventType data with
    | none => do
        mark dedupeKey .ignored
        pure { httpStatus := 200, status := "ignored" }
    | some handler => do
        match ← Prog.attempt handler with
        | .error (.app c message) => do
            markFailed dedupeKey (c.code ++ ": " ++ message)
            -- a 4xx is our data being wrong, a 5xx is worth another delivery
            pure { httpStatus := if c.statusCode < 500 then 200 else 500
                   status := "failed" }
        | .error _ => do
            markFailed dedupeKey "error"
            pure { httpStatus := 500, status := "error" }
        | .ok outcome => do
            if outcome.httpStatus ≥ 500 then markFailed dedupeKey outcome.status
            else mark dedupeKey .processed
            pure outcome

/-- `PaystackWebhookService.handle`. A missing `data` is an empty object. -/
def handle (payload : WebhookPayload) (bodyHash : Nat) : App WebhookOutcome :=
  match payload with
  | .event eventType (.object data) => handleEvent eventType data bodyHash
  | .event eventType .missing => handleEvent eventType {} bodyHash
  | _ => .raise .attribute

end Adehun
