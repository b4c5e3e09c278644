import Adehun.Webhook
import Adehun.DisputeService

/-!
# The routes

Every route that can change money, agreements, conditions or disputes, as a
program over one session. The services never call each other: a route asks
the agreement service to authorise and stage, the wallet service to move the
money, and sends notifications afterwards. Creating a notification commits
the session it shares with everything else; its failure is swallowed.

`Request` lists the requests and `handler` says what each of them runs.
-/

namespace Adehun

open Sessions

/-! ## Reading the ledger -/

/-- Whether the agreement has an `escrow_lock` entry. -/
def isAgreementFunded (agreementId : Id) : App Bool := isFunded agreementId

/-- Whether the reference of the release's debit leg exists. -/
def isAgreementReleased (agreementId : Id) : App Bool :=
  select fun db => (db .transaction : List Transaction).any fun t =>
    t.reference = .out (.release agreementId)

/-! ## Notifications and websockets -/

def createNotification (userId : Id) (type : NotificationType)
    (title message : String) : App Unit := do
  let id ← fresh
  add .notification
    { id := id, userId := userId, type := type, title := title, message := message }
  commit
  let _ ← refresh .notification id

/-- Best-effort notification: its failure is logged and dropped. -/
def notify (userId : Id) (type : NotificationType) (title : String)
    (message : App String) : App Unit := do
  let _ ← Prog.attempt do
    let m ← message
    createNotification userId type title m

def notifyEach (userIds : List Id) (type : NotificationType) (title : String)
    (message : App String) : App Unit := do
  let _ ← Prog.forEach (fun u => notify u type title message) userIds

def sendToUser (userId : Id) : App Unit := do
  let _ ← Prog.perform (Stmt.await (M := adehun) (.sendToUser userId))

def sendToEach (userIds : List Id) : App Unit := do
  let _ ← Prog.forEach sendToUser userIds

/-- Push the current agreement state to both participants, best effort. -/
def broadcastAgreementUpdate (agreementId : Id) : App Unit := do
  let _ ← Prog.attempt do
    let agreement ← getAgreement agreementId
    sendToEach agreement.participantIds.dedup

/-- `current_user.name` in a message. -/
def byName (userId : Id) (rest : String) : App String := do
  let user ← currentUser userId
  pure (user.name ++ rest)

/-! ## Wallet routes -/

def getWallet (userId : Id) : App Response := closing do
  let _ ← authenticate userId
  let balance ← getBalance userId
  pure { body := .balance balance }

def fundWallet (settings : Settings) (userId : Id) (key : Option String)
    (data : WalletCreate) : App Response := closing do
  let _ ← authenticate userId
  idempotent settings userId key "POST /wallet/fund"
      (toString data.amount ++ " " ++ data.channel) fun record => do
    let user ← currentUser userId
    let result ← requestWalletFund user.id user.email data
    bindReference record (.inl result.reference)
    pure { statusCode := 201, body := .fundInit result }

def withdraw (settings : Settings) (userId : Id) (key : Option String)
    (payload : WithdrawalCreate) : App Response := closing do
  let _ ← authenticate userId
  idempotent settings userId key "POST /wallet/withdraw"
      (toString payload.amount ++ " " ++ toString payload.bankAccountId) fun record => do
    let user ← currentUser userId
    let result ← requestWithdrawal settings user.id payload
    bindReference record (.inl result.reference)
    pure { statusCode := 202, body := .withdrawal result }

def getWithdrawalRoute (userId : Id) (reference : PaystackReference) : App Response :=
  closing do
    let user ← authenticate userId
    let result ← getWithdrawal user.id reference
    pure { body := .withdrawal result }

/-- A delivery: the signature is checked over the raw bytes first. -/
def paystackWebhook (signed : Bool) (payload : WebhookPayload) (bodyHash : Nat) :
    App Response := closing do
  raiseIf (!signed) (.app .unauthorized "Invalid signature")
  match payload with
  | .notJson => pure { body := .status "ignored" }
  | payload => do
      let outcome ← handle payload bodyHash
      let _ ← Prog.forEach
        (fun n : NotificationIntent => notify n.userId n.type n.title (pure n.message))
        outcome.notifications
      sendToEach outcome.wsEvents
      pure { statusCode := outcome.httpStatus, body := .status outcome.status }

/-! ## Escrow routes -/

def fundAgreement (settings : Settings) (userId : Id) (key : Option String)
    (agreementId : Id) : App Response := closing do
  let _ ← authenticate userId
  idempotent settings userId key "POST /agreements/\x7bid\x7d/fund"
      (toString agreementId) fun record => do
    let user ← currentUser userId
    let context ← prepareEscrowFunding agreementId user.id
    let funded ← isAgreementFunded agreementId
    raiseIf (funded = true) (.app .badRequest "This agreement has already been funded")
    let user ← currentUser userId
    let result ← lockEscrow user.id context.amount agreementId
      (some context.depositorParticipantId) (some context.beneficiaryUserId)
      ("Escrow funding for '" ++ context.title ++ "'")
    notify context.beneficiaryUserId .escrowFunded "Escrow Funded"
      (byName userId (" funded the escrow for '" ++ context.title ++ "'"))
    let _ ← getAgreement agreementId
    let user ← currentUser userId
    sendToUser user.id
    sendToUser context.beneficiaryUserId
    let entry ← attributes .transaction result.entry.id
    bindReference record (.inr entry.reference)
    let entry ← attributes .transaction result.entry.id
    let wallet ← attributes .wallet result.wallet.id
    pure
      { body := .escrowMovement
          { agreementId := agreementId
            amount := context.amount
            reference := entry.reference
            availableBalance := wallet.availableBalance
            escrowBalance := wallet.escrowBalance
            replayed := result.replayed } }

/-- Return escrow to the depositor and tell both parties. -/
def performEscrowRefund (agreementId : Id) : App (EscrowContext × LedgerResult) := do
  let context ← prepareRefund agreementId
  let result ← refundEscrow agreementId context.depositorUserId context.amount
    ("Escrow refund for '" ++ context.title ++ "'")
  invalidateAgreementCache agreementId
  notify context.depositorUserId .escrowRefunded "Escrow Refunded"
    (pure (naira context.amount ++ " has been refunded to you for '" ++
      context.title ++ "'"))
  notify context.beneficiaryUserId .escrowRefunded "Escrow Refunded"
    (pure ("The escrow for '" ++ context.title ++ "' was refunded to the depositor"))
  pure (context, result)

/-- Move escrow to the beneficiary and tell both parties. -/
def performEscrowRelease (agreementId : Id) : App TransferResult := do
  let context ← prepareRelease agreementId
  let result ← releaseEscrow agreementId context.depositorUserId
    context.beneficiaryUserId context.amount
    ("Escrow release for '" ++ context.title ++ "'")
  invalidateAgreementCache agreementId
  notify context.beneficiaryUserId .escrowReleased "Escrow Released"
    (pure (naira context.amount ++ " has been released to you for '" ++
      context.title ++ "'"))
  notify context.depositorUserId .escrowReleased "Escrow Released"
    (pure ("The escrow for '" ++ context.title ++ "' has been released"))
  pure result

def releaseAgreementEscrow (settings : Settings) (userId : Id) (key : Option String)
    (agreementId : Id) : App Response := closing do
  let _ ← authenticate userId
  idempotent settings userId key "POST /agreements/\x7bid\x7d/release"
      (toString agreementId) fun record => do
    let context ← getEscrowContext agreementId
    let user ← currentUser userId
    raiseIf (user.id ≠ context.depositorUserId ∧ user.id ≠ context.beneficiaryUserId)
      (.app .badRequest "You are not a participant on this agreement")
    let funded ← isAgreementFunded agreementId
    raiseIf (funded = false) (.app .badRequest "This agreement has not been funded")
    let approved ← allConditionsApproved agreementId
    raiseIf (approved = false)
      (.app .badRequest "Not every condition on this agreement is approved yet")
    let result ← performEscrowRelease agreementId
    broadcastAgreementUpdate agreementId
    let debit ← attributes .transaction result.debit.id
    bindReference record (.inr debit.reference)
    let debit ← attributes .transaction result.debit.id
    pure
      { body := .escrowMovement
          { agreementId := agreementId
            amount := context.amount
            reference := debit.reference
            availableBalance := debit.balanceAfter
            escrowBalance := debit.escrowAfter
            replayed := result.replayed } }

def refundAgreementEscrow (settings : Settings) (userId : Id) (key : Option String)
    (agreementId : Id) : App Response := closing do
  let user ← authenticate userId
  requireAdmin user
  idempotent settings userId key "POST /agreements/\x7bid\x7d/refund"
      (toString agreementId) fun record => do
    let funded ← isAgreementFunded agreementId
    raiseIf (funded = false) (.app .badRequest "This agreement has not been funded")
    let released ← isAgreementReleased agreementId
    raiseIf (released = true) (.app .badRequest
      "This agreement's escrow has already been released to the beneficiary")
    let (context, result) ← performEscrowRefund agreementId
    broadcastAgreementUpdate agreementId
    let entry ← attributes .transaction result.entry.id
    bindReference record (.inr entry.reference)
    let entry ← attributes .transaction result.entry.id
    let wallet ← attributes .wallet result.wallet.id
    pure
      { body := .escrowMovement
          { agreementId := agreementId
            amount := context.amount
            reference := entry.reference
            availableBalance := wallet.availableBalance
            escrowBalance := wallet.escrowBalance
            replayed := result.replayed } }

/-! ## Agreement routes -/

def createAgreementRoute (userId : Id) (data : AgreementCreate) : App Response :=
  closing do
    let user ← authenticate userId
    let (agreement, conditions) ← createAgreement user.id user.email data
    let invited ← loadFirst .user fun u => u.email = data.inviteeEmail
    let _ ← getInvitationByAgreementId data.inviteeEmail agreement.id
    match invited with
    | none => pure ()
    | some v => do
        let user ← currentUser userId
        if v.id ≠ user.id then do
          notify v.id .invitationReceived "New Escrow Invitation"
            (byName userId " invited you to an escrow agreement")
          sendToUser v.id
        else pure ()
    let user ← currentUser userId
    sendToUser user.id
    pure { statusCode := 201, body := .agreementCreated agreement conditions }

/-- Tell the other side, then push to everybody on the agreement. -/
def announce (userId : Id) (agreement : AgreementResponse) (type : NotificationType)
    (title : String) (message : App String) : App Unit := do
  let ids := agreement.participantIds
  notifyEach (ids.filter (· ≠ userId)) type title message
  sendToEach (ids ++ [userId]).dedup

def acceptAgreementRoute (settings : Settings) (userId : Id) (key : Option String)
    (agreementId : Id) : App Response := closing do
  let _ ← authenticate userId
  idempotent settings userId key "POST /agreements/\x7bid\x7d/accept"
      (toString agreementId) fun _ => do
    let user ← currentUser userId
    let agreement ← acceptAgreement agreementId user.id user.email
    let ids :=
      if agreement.depositor.isSome && agreement.beneficiary.isSome then
        agreement.participantIds
      else []
    notifyEach (ids.filter (· ≠ userId)) .agreementAccepted "Agreement Accepted"
      (byName userId " accepted the agreement")
    if agreement.status = .active then
      notifyEach ids .agreementCompleted "Agreement Complete"
        (pure "All parties have accepted the agreement")
    else pure ()
    sendToEach (ids ++ [userId]).dedup
    pure { body := .agreement agreement }

/-- Whether money sits in the agreement's escrow and was not released. -/
def refuseFunded (agreementId : Id) (message : String) : App Unit := do
  let funded ← isAgreementFunded agreementId
  if funded then do
    let released ← isAgreementReleased agreementId
    raiseIf (released = false) (.app .badRequest message)
  else pure ()

def rejectAgreementRoute (settings : Settings) (userId : Id) (key : Option String)
    (agreementId : Id) : App Response := closing do
  let _ ← authenticate userId
  idempotent settings userId key "POST /agreements/\x7bid\x7d/reject"
      (toString agreementId) fun _ => do
    refuseFunded agreementId ("This agreement is funded and cannot be rejected. " ++
      "Raise a dispute so an admin can refund the escrow.")
    let user ← currentUser userId
    let agreement ← rejectAgreement agreementId user.id user.email
    let ids :=
      if agreement.depositor.isSome && agreement.beneficiary.isSome then
        agreement.participantIds
      else []
    notifyEach (ids.filter (· ≠ userId)) .agreementDeclined "Agreement Declined"
      (byName userId " declined the agreement")
    sendToEach (ids ++ [userId]).dedup
    pure { body := .agreement agreement }

def cancelAgreementRoute (userId agreementId : Id) : App Response := closing do
  let user ← authenticate userId
  refuseFunded agreementId ("This agreement is funded and cannot be cancelled. " ++
    "Raise a dispute so an admin can refund the escrow.")
  let agreement ← cancelAgreement agreementId user.id
  announce userId agreement .agreementCancelled "Agreement Cancelled"
    (byName userId (" cancelled '" ++ agreement.title ++ "'"))
  pure { body := .agreement agreement }

/-! ## Condition routes -/

/-- Send a notification to every participant except the acting user. -/
def notifyAgreementParticipants (agreementId actingUserId : Id)
    (type : NotificationType) (title : String) (message : String) : App Unit := do
  match ← Prog.attempt (getAgreement agreementId) with
  | .error _ => pure ()
  | .ok agreement =>
      notifyEach (agreement.participantIds.filter (· ≠ actingUserId)) type title
        (pure message)

/-- Release the escrow once every condition has been approved; a failure
leaves the approval alone. -/
def releaseEscrowIfReady (agreementId : Id) : App Unit := do
  let _ ← Prog.attempt do
    let funded ← isAgreementFunded agreementId
    if !funded then pure ()
    else do
      let released ← isAgreementReleased agreementId
      if released then pure ()
      else do
        let approved ← allConditionsApproved agreementId
        if !approved then pure ()
        else do
          let agreement ← getAgreement agreementId
          if agreement.status = .disputed then pure ()
          else do
            let _ ← performEscrowRelease agreementId
            broadcastAgreementUpdate agreementId

def addConditionRoute (userId agreementId : Id) (data : ConditionCreate) :
    App Response := closing do
  let user ← authenticate userId
  match ← get .agreement agreementId with
  | none => .raise agreementNotFound
  | some _ => do
      let participant ← getParticipantForUser agreementId user.id
      raiseIf (participant.isNone = true)
        (.app .forbidden "You are not a participant in this agreement")
      let condition ← addCondition agreementId user.id data
      let user ← currentUser userId
      notifyAgreementParticipants agreementId user.id .conditionAdded
        "New Condition Added" (user.name ++ " added a new condition")
      pure { body := .condition condition }

def approveConditionRoute (userId conditionId : Id) : App Response := closing do
  let user ← authenticate userId
  let condition ← approveCondition conditionId user.id
  let user ← currentUser userId
  notifyAgreementParticipants condition.agreementId user.id .conditionUpdated
    "Condition Approved" (user.name ++ " approved a condition")
  let _ ← currentUser userId
  releaseEscrowIfReady condition.agreementId
  pure { body := .condition condition }

def rejectConditionRoute (userId conditionId : Id) (reason : String) : App Response :=
  closing do
    let user ← authenticate userId
    let condition ← rejectCondition conditionId user.id reason
    let user ← currentUser userId
    notifyAgreementParticipants condition.agreementId user.id .conditionUpdated
      "Condition Rejected" (user.name ++ " rejected a condition")
    pure { body := .condition condition }

/-! ## Dispute routes -/

/-- The two sides of a dispute. -/
def DisputeResponse.parties (d : DisputeResponse) : List Id :=
  d.raisedBy.toList ++ d.againstUser.toList

/-- Tell both parties the dispute changed, and that the agreement did too. -/
def broadcastDisputeChange (d : DisputeResponse) : App Unit := do
  sendToEach d.parties
  let _ ← Prog.attempt do
    let _ ← getAgreement d.agreementId
    sendToEach d.parties

def raiseDisputeRoute (userId agreementId : Id) (data : DisputeCreateRequest) :
    App Response := closing do
  let user ← authenticate userId
  let dispute ← raiseDispute agreementId user.id data
  match dispute.againstUser with
  | none => pure ()
  | some other =>
      notify other .disputeRaised "Dispute Raised"
        (byName userId (" raised a dispute on '" ++ dispute.agreementTitle ++ "'"))
  broadcastDisputeChange dispute
  pure { statusCode := 201, body := .dispute dispute none }

def markUnderReviewRoute (userId disputeId : Id) : App Response := closing do
  let user ← authenticate userId
  requireAdmin user
  let dispute ← adminMarkUnderReview disputeId
  notifyEach dispute.parties .disputeUnderReview "Dispute Under Review"
    (pure ("An agent is reviewing the dispute on '" ++ dispute.agreementTitle ++ "'"))
  pure { body := .dispute dispute none }

/-- What the admin's decision pays out. -/
def settleDispute (agreementId : Id) (outcome : DisputeResolutionOutcome) : App Unit :=
  match outcome with
  | .favourBeneficiary => do
      let _ ← performEscrowRelease agreementId
      broadcastAgreementUpdate agreementId
  | .favourDepositor => do
      let _ ← performEscrowRefund agreementId
      broadcastAgreementUpdate agreementId
  | _ => pure ()

/-- Record a binding outcome, unfreeze the agreement, and settle the money.
The decision stays when the payout fails. -/
def resolveDisputeRoute (userId disputeId : Id) (resolution : DisputeResolveRequest) :
    App Response := closing do
  let user ← authenticate userId
  requireAdmin user
  let dispute ← adminResolveDispute disputeId user.id resolution
  let agreementId := dispute.agreementId
  let funded ← isAgreementFunded agreementId
  let released ← isAgreementReleased agreementId
  let settled ← Prog.attempt
    (if funded && !released then settleDispute agreementId resolution.outcome
     else pure ())
  let message := match settled with
    | .ok _ => none
    | .error _ => some ("Dispute resolved, but the payout could not be completed. " ++
        "Retry with POST /agreements/\x7bid\x7d/release or /refund.")
  notifyEach dispute.parties .disputeResolved "Dispute Resolved"
    (pure ("The dispute on '" ++ dispute.agreementTitle ++ "' has been resolved"))
  broadcastDisputeChange dispute
  pure { body := .dispute dispute message }

/-! ## Requests -/

inductive Request
  | getWallet (user : Id)
  | fundWallet (user : Id) (key : Option String) (data : WalletCreate)
  | withdraw (user : Id) (key : Option String) (payload : WithdrawalCreate)
  | getWithdrawal (user : Id) (reference : PaystackReference)
  | webhook (signed : Bool) (payload : WebhookPayload) (bodyHash : Nat)
  | fundAgreement (user : Id) (key : Option String) (agreement : Id)
  | release (user : Id) (key : Option String) (agreement : Id)
  | refund (user : Id) (key : Option String) (agreement : Id)
  | createAgreement (user : Id) (data : AgreementCreate)
  | acceptAgreement (user : Id) (key : Option String) (agreement : Id)
  | rejectAgreement (user : Id) (key : Option String) (agreement : Id)
  | cancelAgreement (user : Id) (agreement : Id)
  | addCondition (user : Id) (agreement : Id) (data : ConditionCreate)
  | approveCondition (user : Id) (condition : Id)
  | rejectCondition (user : Id) (condition : Id) (reason : String)
  | raiseDispute (user : Id) (agreement : Id) (data : DisputeCreateRequest)
  | markUnderReview (user : Id) (dispute : Id)
  | resolveDispute (user : Id) (dispute : Id) (resolution : DisputeResolveRequest)

def handler (settings : Settings) : Request → App Response
  | .getWallet u => getWallet u
  | .fundWallet u k d => fundWallet settings u k d
  | .withdraw u k p => withdraw settings u k p
  | .getWithdrawal u r => getWithdrawalRoute u r
  | .webhook s p h => paystackWebhook s p h
  | .fundAgreement u k a => fundAgreement settings u k a
  | .release u k a => releaseAgreementEscrow settings u k a
  | .refund u k a => refundAgreementEscrow settings u k a
  | .createAgreement u d => createAgreementRoute u d
  | .acceptAgreement u k a => acceptAgreementRoute settings u k a
  | .rejectAgreement u k a => rejectAgreementRoute settings u k a
  | .cancelAgreement u a => cancelAgreementRoute u a
  | .addCondition u a d => addConditionRoute u a d
  | .approveCondition u c => approveConditionRoute u c
  | .rejectCondition u c r => rejectConditionRoute u c r
  | .raiseDispute u a d => raiseDisputeRoute u a d
  | .markUnderReview u d => markUnderReviewRoute u d
  | .resolveDispute u d r => resolveDisputeRoute u d r

end Adehun
