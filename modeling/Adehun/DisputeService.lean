import Adehun.AgreementService

/-!
# Disputes and conditions

A dispute freezes its agreement: the dispute row and the status `disputed`
are committed together. Resolving it records an outcome and restores the
status the agreement had, if the agreement is still frozen; no money moves
here. Conditions are what holds the escrow: the depositor decides on them,
one at a time, while the agreement is active.
-/

namespace Adehun

open Sessions

/-! ## The dispute repository -/

/-- A dispute by id, whose agreement is loaded with it. -/
def getDispute (disputeId : Id) : App (Option Dispute) := do
  match ← get .dispute disputeId with
  | none => pure none
  | some d => do
      let _ ← loadAll .agreement fun a => a.id = d.agreementId
      pure (some d)

/-- The live dispute on an agreement, if any. -/
def getActiveForAgreement (agreementId : Id) : App (Option Dispute) :=
  loadFirst .dispute fun d => d.agreementId = agreementId && d.status ≠ .resolved

/-- A file already uploaded. -/
structure UploadedFile where
  url : String
  type : String
  name : String
  size : Nat

/-- Attach uploaded files to a dispute as evidence. -/
def addEvidence (disputeId participantId : Id) (files : List UploadedFile) : App Unit := do
  let _ ← Prog.forEach (fun f : UploadedFile => do
    let fileId ← fresh
    add .assetFile
      { id := fileId, url := f.url, type := f.type, name := f.name, size := f.size }
    flush
    let assetId ← fresh
    add .asset
      { id := assetId
        disputeId := some disputeId
        fileId := fileId
        uploadedBy := participantId }) files
  flush

/-- Freeze or unfreeze an agreement, staged and sent. -/
def setAgreementStatus (agreement : Agreement) (status : AgreementStatus) : App Unit := do
  assignStatus agreement status
  flush

/-! ## The dispute service -/

def disputeNotFound : Exn := .app .disputeNotFound "Dispute not found"

def disputeAlreadyExists : Exn :=
  .app .disputeAlreadyExists "This agreement already has an open dispute"

def disputeNotOpen : Exn := .app .disputeNotOpen "This dispute is no longer open"

/-- The caller's accepted participant row. -/
def requireAcceptedParticipant (agreementId userId : Id) : App AgreementParticipant := do
  match ← getParticipantForUser agreementId userId with
  | none => .raise (.app .forbidden "You are not a participant on this agreement")
  | some participant => do
      raiseIf (participant.status ≠ .accepted) (.app .forbidden
        "You must have accepted this agreement to raise a dispute")
      pure participant

def toDisputeResponse (disputeId : Id) : App DisputeResponse := do
  let d ← attributes .dispute disputeId
  let agreement ← attributes .agreement d.agreementId
  let _ ← loadAll .asset fun a => a.disputeId = some d.id
  pure
    { id := d.id
      agreementId := d.agreementId
      agreementTitle := agreement.title
      agreementAmount := agreement.amount
      category := d.category
      description := d.description
      status := d.status
      raisedBy := some d.raisedByUserId
      againstUser := some d.againstUserId
      resolutionOutcome := d.resolutionOutcome
      resolutionNotes := d.resolutionNotes
      resolvedBy := d.resolvedByUserId }

/-- A validated body of a new dispute. -/
structure DisputeCreateRequest where
  category : DisputeCategory
  description : String
  files : List UploadedFile := []

/-- The rows of a new dispute: the dispute, its evidence and the freeze, in
one transaction. -/
def raiseDisputeRows (agreement : Agreement) (participantId userId otherId : Id)
    (data : DisputeCreateRequest) : App Id := do
  let id ← fresh
  add .dispute
    { id := id
      agreementId := agreement.id
      raisedByUserId := userId
      againstUserId := otherId
      category := data.category
      description := data.description
      status := .open
      agreementStatusBefore := agreement.status }
  flush
  if data.files.isEmpty then pure () else addEvidence id participantId data.files
  setAgreementStatus agreement .disputed
  commit
  let _ ← refresh .dispute id
  pure id

/-- Open a dispute and freeze the agreement. -/
def raiseDispute (agreementId userId : Id) (data : DisputeCreateRequest) :
    App DisputeResponse := do
  match ← get .agreement agreementId with
  | none => .raise agreementNotFound
  | some agreement => do
      let participant ← requireAcceptedParticipant agreementId userId
      let active ← getActiveForAgreement agreementId
      raiseIf (active.isSome = true) disputeAlreadyExists
      raiseIf (agreement.status ≠ .active) (.app .badRequest
        ("An agreement that is " ++ agreement.status.value ++ " cannot be disputed"))
      let participants ← getParticipantsForAgreement agreementId
      match participants.find? (·.userId ≠ userId) with
      | none => .raise (.app .participantNotFound
          "Agreement does not yet have a second participant")
      | some other => do
          match ← Prog.attempt
              (raiseDisputeRows agreement participant.id userId other.userId data) with
          | .error .integrity => do
              rollback
              .raise disputeAlreadyExists
          | .error _ => do
              rollback
              .raise (.app .disputeCreation "Failed to raise dispute")
          | .ok id => do
              cacheDelete (agreementCacheKeys agreementId [userId, other.userId])
              toDisputeResponse id

def setDisputeStatus (status : DisputeStatus) : Patch adehun .dispute where
  run := fun d : Dispute => { d with status := status }

/-- Claim a dispute, so two admins do not resolve the same one. -/
def adminMarkUnderReview (disputeId : Id) : App DisputeResponse := do
  match ← getDispute disputeId with
  | none => .raise disputeNotFound
  | some d => do
      raiseIf (d.status ≠ .open)
        (.app .disputeNotOpen ("This dispute is already " ++ d.status.value))
      assign .dispute disputeId (setDisputeStatus .underReview)
      commit
      let _ ← refresh .dispute disputeId
      toDisputeResponse disputeId

/-- A validated body of a resolution: a split is refused. -/
structure DisputeResolveRequest where
  outcome : DisputeResolutionOutcome
  supported : outcome ≠ .split
  resolutionNotes : String

def setResolution (data : DisputeResolveRequest) (adminUserId : Id) (time : Nat) :
    Patch adehun .dispute where
  run := fun d : Dispute =>
    { d with
      status := .resolved
      resolutionOutcome := some data.outcome
      resolutionNotes := some data.resolutionNotes
      resolvedByUserId := some adminUserId
      resolvedAt := some time }

/-- Record a binding outcome and unfreeze the agreement. -/
def adminResolveDispute (disputeId adminUserId : Id) (data : DisputeResolveRequest) :
    App DisputeResponse := do
  match ← getDispute disputeId with
  | none => .raise disputeNotFound
  | some d => do
      raiseIf (d.status = .resolved) disputeNotOpen
      let time ← now
      assign .dispute disputeId (setResolution data adminUserId time)
      -- the agreement came with the dispute, and is still referred to by it
      match ← Prog.perform (Stmt.get (M := adehun) true ⟨.agreement, d.agreementId⟩) with
      | none => pure ()
      | some agreement =>
          if agreement.status = .disputed then
            setAgreementStatus agreement d.agreementStatusBefore
          else pure ()
      let saved ← Prog.attempt do
        flush
        commit
        refresh .dispute disputeId
      match saved with
      | .error _ => do
          rollback
          .raise (.app .disputeCreation "Failed to resolve dispute")
      | .ok _ => do
          let participants ← getParticipantsForAgreement d.agreementId
          cacheDelete (agreementCacheKeys d.agreementId (participants.map (·.userId)))
          toDisputeResponse disputeId

/-! ## Conditions -/

def conditionNotFound : Exn := .app .conditionNotFound "Condition not found"

def participantNotFound : Exn :=
  .app .participantNotFound "Participant not found in agreement"

/-- A condition by id, whose agreement is loaded with it. -/
def requireCondition (conditionId : Id) : App Condition := do
  match ← get .condition conditionId with
  | none => .raise conditionNotFound
  | some c => do
      let _ ← loadAll .agreement fun a => a.id = c.agreementId
      pure c

/-- The statuses in which the depositor may still decide on a condition. -/
def decidableStatuses : List String := ["pending", "submitted", "rejected"]

/-- Only the depositor decides, and only while the agreement is active. -/
def requireDepositor (c : Condition) (userId : Id) : App Unit := do
  match ← getParticipantForUser c.agreementId userId with
  | none => .raise (.app .forbidden "You are not a participant in this agreement")
  | some participant => do
      raiseIf (participant.role ≠ .depositor)
        (.app .forbidden "Only the depositor can approve or reject conditions")
      -- the agreement came with the condition, and is still referred to by it
      match ← Prog.perform (Stmt.get (M := adehun) true ⟨.agreement, c.agreementId⟩) with
      | none => .raise (.app .badRequest
          ("Conditions can only be decided while the agreement is active " ++
            "(current status: missing)"))
      | some agreement => do
          raiseIf (agreement.status ≠ .active) (.app .badRequest
            ("Conditions can only be decided while the agreement is active " ++
              "(current status: " ++ agreement.status.value ++ ")"))
          raiseIf (c.status ∉ decidableStatuses) (.app .badRequest
            ("A condition that is " ++ c.status ++ " cannot be changed"))

def setApproved (time : Nat) : Patch adehun .condition where
  run := fun c : Condition =>
    { c with approvedAt := some time, rejectedReason := none, status := "approved" }

def setRejected (reason : String) : Patch adehun .condition where
  run := fun c : Condition =>
    { c with rejectedReason := some reason, approvedAt := none, status := "rejected" }

/-- A decision on a condition saved. -/
def saveDecision (conditionId : Id) (f : Patch adehun .condition) :
    App ConditionResponse := do
  assign .condition conditionId f
  commit
  let c ← refresh .condition conditionId
  cacheDelete [.agreementCondition c.agreementId, .condition conditionId]
  let c ← attributes .condition conditionId
  conditionResponse c

def approveCondition (conditionId userId : Id) : App ConditionResponse := do
  let c ← requireCondition conditionId
  requireDepositor c userId
  let time ← now
  saveDecision conditionId (setApproved time)

def rejectCondition (conditionId userId : Id) (reason : String) :
    App ConditionResponse := do
  let c ← requireCondition conditionId
  requireDepositor c userId
  saveDecision conditionId (setRejected reason)

/-- Who a condition asks something of: a participant, or an invitation. -/
def getParticipantOrInvitationByEmail (email : String) (agreementId : Id) :
    App (Option (Id ⊕ Id)) := do
  let users ← select fun db =>
    ((db .user : List User).filter fun u => u.email = email).map (·.id)
  let rows ← loadParticipants fun p => p.agreementId = agreementId && p.userId ∈ users
  match rows.head? with
  | some p => pure (some (.inl p.id))
  | none => do
      let invitation ← getInvitationByAgreementId email agreementId
      pure (invitation.map fun v => .inr v.id)

/-- Add a condition. Allowed for participants while the deal is pending. -/
def addCondition (agreementId userId : Id) (data : ConditionCreate) :
    App ConditionResponse := do
  match ← getParticipantForUser agreementId userId with
  | none => .raise participantNotFound
  | some current => do
      match ← Prog.perform (Stmt.get (M := adehun) true ⟨.agreement, agreementId⟩) with
      | none => .raise participantNotFound
      | some agreement => do
          raiseIf (agreement.status ≠ .pending) (.app .badRequest
            "Conditions can only be added before the agreement becomes active")
          match ← getParticipantOrInvitationByEmail data.requiredFromEmail agreementId with
          | none => .raise participantNotFound
          | some other => do
              let saved ← Prog.attempt do
                let id ← fresh
                add .condition
                  { id := id
                    agreementId := agreementId
                    participantId := current.id
                    title := data.title
                    description := data.description
                    requiredFromParticipantId := other.getLeft?
                    invitationId := other.getRight? }
                commit
                let _ ← refresh .condition id
                cacheDelete [.agreementCondition agreementId]
                let c ← requireCondition id
                conditionResponse c
              match saved with
              | .ok response => pure response
              | .error _ => do
                  rollback
                  .raise (.app .conditionSave "Failed to save condition")

/-- Whether every condition has been approved. With no conditions there is
nothing that holds the money, and nothing to release on. -/
def allConditionsApproved (agreementId : Id) : App Bool := do
  let conditions ← loadAll .condition fun c => c.agreementId = agreementId
  pure (!conditions.isEmpty && conditions.all fun c => c.status = "approved")

end Adehun
