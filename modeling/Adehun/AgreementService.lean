import Adehun.Idempotency

/-!
# Agreements

The agreement repository with its read cache, and the service over it: what
a release, a refund or a funding has to check, and how an agreement comes to
be, is accepted, declined and cancelled. The service moves no money; the
changes of status that go with a movement are staged and left for the wallet
repository to commit.

A cached agreement is a plain value with no session behind it: its
participants are an empty list, and mutating it would not update the row.
-/

namespace Adehun

open Sessions

/-! ## The repository -/

/-- How many conditions an agreement has, and how many are approved. -/
def getConditionCounts (agreementId : Id) : App (Nat × Nat) :=
  select fun db =>
    let rows := (db .condition : List Condition).filter fun c => c.agreementId = agreementId
    (rows.length, (rows.filter fun c => c.status = "approved").length)

/-- Whether the ledger has an `escrow_lock` entry for the agreement. -/
def isFunded (agreementId : Id) : App Bool :=
  select fun db => (db .transaction : List Transaction).any fun t =>
    t.agreementId = some agreementId && t.type = .escrowLock

/-- An agreement read, and whether the session stands behind it. -/
structure Found where
  agreement : Agreement
  attached : Bool

/-- Return an agreement by its id, from the cache when it is there. -/
def getById (agreementId : Id) : App (Option Found) := do
  match ← cacheGet (.agreement agreementId) with
  | some (.agreement a) => pure (some { agreement := a, attached := false })
  | _ => do
      match ← loadFirst .agreement fun a => a.id = agreementId with
      | none => pure none
      | some a => do
          cacheSet (.agreement agreementId) (.agreement a)
          pure (some { agreement := a, attached := true })

/-- Return a session-attached agreement, bypassing the read cache. -/
def getAttached (agreementId : Id) : App (Option Agreement) := get .agreement agreementId

/-- Participants, whose agreements are loaded eagerly. -/
def loadParticipants (p : AgreementParticipant → Bool) :
    App (List AgreementParticipant) := do
  let rows ← loadAll .agreementParticipant p
  if rows.isEmpty then pure rows
  else do
    let _ ← loadAll .agreement fun a => rows.any fun r => r.agreementId = a.id
    pure rows

def getParticipantForUser (agreementId userId : Id) :
    App (Option AgreementParticipant) := do
  let rows ← loadParticipants fun p => p.agreementId = agreementId && p.userId = userId
  pure rows.head?

def getParticipantsForAgreement (agreementId : Id) : App (List AgreementParticipant) :=
  loadParticipants fun p => p.agreementId = agreementId

/-- Invitations, whose agreements are loaded eagerly. -/
def getInvitationByAgreementId (email : String) (agreementId : Id) :
    App (Option Invitation) := do
  let found ← loadFirst .invitation fun v => v.agreementId = agreementId && v.email = email
  match found with
  | none => pure none
  | some v => do
      let _ ← loadAll .agreement fun a => a.id = v.agreementId
      pure (some v)

def setStatus (status : AgreementStatus) : Patch adehun .agreement where
  run := fun a : Agreement => { a with status := status }

/-- `agreement.status = ...`: an attribute set to the value it has is no
change, and sends nothing. -/
def assignStatus (agreement : Agreement) (status : AgreementStatus) : App Unit :=
  if agreement.status = status then pure ()
  else assign .agreement agreement.id (setStatus status)

/-- Every cache key that goes stale when an agreement's state changes. -/
def agreementCacheKeys (agreementId : Id) (userIds : List Id) : List CacheKey :=
  .agreement agreementId :: userIds.map .userAgreements

def setRequiredFrom (participantId : Id) : Patch adehun .condition where
  run := fun c : Condition => { c with requiredFromParticipantId := some participantId }

/-- Point every condition that named the invitee at their participant row. -/
def updateAgreementConditionsWithInvitation
    (agreementId invitationId participantId : Id) : App Unit := do
  let conditions ← loadAll .condition fun c =>
    c.agreementId = agreementId && c.invitationId = some invitationId
  let _ ← Prog.forEach
    (fun c : Condition => assign .condition c.id (setRequiredFrom participantId)) conditions
  if conditions.isEmpty then pure () else commit

/-! ## Escrow preparation -/

/-- Everything a money operation needs about an agreement. -/
structure EscrowContext where
  agreementId : Id
  title : String
  amount : Kobo
  depositorUserId : Id
  beneficiaryUserId : Id
  depositorParticipantId : Id
  beneficiaryParticipantId : Id

def agreementNotFound : Exn := .app .agreementNotFound "Agreement not found"

/-- Resolve both sides of an agreement, or explain what is missing. -/
def getEscrowContext (agreementId : Id) : App EscrowContext := do
  match ← getById agreementId with
  | none => .raise agreementNotFound
  | some found => do
      let participants ← getParticipantsForAgreement agreementId
      match participants.find? (·.role = .depositor),
          participants.find? (·.role = .beneficiary) with
      | some depositor, some beneficiary =>
          pure
            { agreementId := found.agreement.id
              title := found.agreement.title
              amount := found.agreement.amount
              depositorUserId := depositor.userId
              beneficiaryUserId := beneficiary.userId
              depositorParticipantId := depositor.id
              beneficiaryParticipantId := beneficiary.id }
      | _, _ => .raise (.app .participantNotFound
          "Agreement does not yet have both a depositor and a beneficiary")

/-- The statuses an agreement cannot be funded in. -/
def notFundable (s : AgreementStatus) : Bool :=
  s = .cancelled || s = .completed || s = .refunded || s = .disputed

/-- Authorise a depositor to move the agreement amount into escrow. -/
def prepareEscrowFunding (agreementId userId : Id) : App EscrowContext := do
  let context ← getEscrowContext agreementId
  raiseIf (context.depositorUserId ≠ userId)
    (.app .forbidden "Only the depositor can fund this agreement")
  match ← getById agreementId with
  | none => pure context
  | some found => do
      raiseIf (notFundable found.agreement.status) (.app .badRequest
        ("An agreement that is " ++ found.agreement.status.value ++ " cannot be funded"))
      pure context

/-- Resolve both sides for a release, and stage the agreement completed. -/
def prepareRelease (agreementId : Id) : App EscrowContext := do
  let context ← getEscrowContext agreementId
  match ← getAttached agreementId with
  | none => .raise agreementNotFound
  | some agreement => do
      raiseIf (agreement.status = .disputed) (.app .badRequest
        "This agreement is under dispute and cannot be released")
      raiseIf (agreement.status = .cancelled ∨ agreement.status = .refunded)
        (.app .badRequest
          ("An agreement that is " ++ agreement.status.value ++ " cannot be released"))
      assignStatus agreement .completed
      pure context

/-- Authorise returning escrowed money, and stage the agreement refunded. -/
def prepareRefund (agreementId : Id) : App EscrowContext := do
  let context ← getEscrowContext agreementId
  match ← getAttached agreementId with
  | none => .raise agreementNotFound
  | some agreement => do
      raiseIf (agreement.status = .completed) (.app .badRequest
        ("This agreement has already been released to the beneficiary " ++
          "and cannot be refunded"))
      assignStatus agreement .refunded
      pure context

/-- Drop the cached agreement for both participants after a state change. -/
def invalidateAgreementCache (agreementId : Id) : App Unit := do
  let _ ← Prog.attempt do
    let context ← getEscrowContext agreementId
    cacheDelete (agreementCacheKeys agreementId
      [context.depositorUserId, context.beneficiaryUserId])

/-! ## Reading -/

def userResponse (u : User) : UserResponse :=
  { id := u.id, name := u.name, email := u.email }

/-- `ParticipantResponse.model_validate(p)`: the user is loaded with it. -/
def participantResponse (p : AgreementParticipant) : App ParticipantResponse := do
  let user ← loadFirst .user fun u => u.id = p.userId
  pure
    { id := p.id
      agreementId := p.agreementId
      role := p.role
      status := p.status
      user := user.map userResponse }

def participantResponse? (p : Option AgreementParticipant) :
    App (Option ParticipantResponse) :=
  match p with
  | none => pure none
  | some p => some <$> participantResponse p

/-- Map an agreement to its response. The participants of a cached one are
not loaded. -/
def toAgreementResponse (found : Found) (conditionCount conditionsMetCount : Nat)
    (userId : Option Id) (funded : Bool) : App AgreementResponse := do
  let agreement := found.agreement
  let participants ←
    if found.attached then getParticipantsForAgreement agreement.id else pure []
  let depositor ←
    participantResponse? (participants.filter (·.role = .depositor)).getLast?
  let beneficiary ←
    participantResponse? (participants.filter (·.role = .beneficiary)).getLast?
  let accepted ← match userId with
    | none => pure false
    | some u => do
        let participant ← getParticipantForUser agreement.id u
        pure (participant.any (·.status = .accepted))
  pure
    { id := agreement.id
      title := agreement.title
      description := agreement.description
      amount := agreement.amount
      status := agreement.status
      depositor := depositor
      beneficiary := beneficiary
      conditionCount := conditionCount
      conditionsMetCount := conditionsMetCount
      currentUserAccepted := accepted
      isFunded := funded }

def getAgreement (agreementId : Id) (userId : Option Id := none) :
    App AgreementResponse := do
  match ← getById agreementId with
  | none => .raise agreementNotFound
  | some found => do
      let (total, met) ← getConditionCounts agreementId
      let funded ← isFunded agreementId
      toAgreementResponse found total met userId funded

/-- The users on an agreement response. -/
def AgreementResponse.participantIds (a : AgreementResponse) : List Id :=
  [a.depositor, a.beneficiary].filterMap fun p => p.bind fun p => p.user.map (·.id)

/-! ## Creation -/

/-- A validated condition of a new agreement. -/
structure ConditionCreate where
  title : String
  description : String
  requiredFromEmail : String

/-- A validated body of `POST /agreements/`: the e-mail is lower case. -/
structure AgreementCreate where
  inviteeEmail : String
  role : ParticipantRole
  title : String
  description : String
  amount : Kobo
  amount_pos : 0 < amount
  conditions : List ConditionCreate := []

def ParticipantRole.opposite : ParticipantRole → ParticipantRole
  | .depositor => .beneficiary
  | .beneficiary => .depositor

/-- Seven days. -/
def invitationTtl : Nat := 60 * 60 * 24 * 7

/-- Create the invitation row and cache its token; the e-mail is sent in the
background. The cache command is not guarded. -/
def inviteParticipant (role : ParticipantRole) (creatorId : Id) (email : String)
    (agreementId : Id) : App Invitation := do
  let token ← fresh
  let id ← fresh
  let time ← now
  let invitation : Invitation :=
    { id := id
      email := email
      token := token
      agreementId := agreementId
      role := role.opposite
      invitedBy := creatorId
      expiresAt := time + invitationTtl }
  add .invitation invitation
  flush
  Prog.perform (.shared fun m =>
    ({ m with cache := (.invitation token, .invitation invitation) :: m.cache }, ()))
  pure invitation

/-- `ConditionResponse.model_validate(c)`: the participant who added it is
loaded with it. -/
def conditionResponse (c : Condition) : App ConditionResponse := do
  let creator ← attributes .agreementParticipant c.participantId
  pure
    { id := c.id
      agreementId := creator.agreementId
      title := c.title
      description := c.description
      status := c.status
      createdByParticipant := creator.id
      requiredFromParticipant := c.requiredFromParticipantId
      invitation := c.invitationId
      rejectedReason := c.rejectedReason }

/-- Add the conditions of a new agreement, tied to its invitation. -/
def addConditions (agreementId creatorId invitationId : Id)
    (conditions : List ConditionCreate) : App (List Id) :=
  Prog.forEach (fun c : ConditionCreate => do
    let id ← fresh
    add .condition
      { id := id
        agreementId := agreementId
        participantId := creatorId
        title := c.title
        description := c.description
        invitationId := some invitationId }
    pure id) conditions

/-- What `create_agreement` does inside its guard. -/
def createAgreementRows (currentUserId : Id) (data : AgreementCreate) :
    App (AgreementResponse × List ConditionResponse) := do
  let agreementId ← fresh
  add .agreement
    { id := agreementId
      title := data.title
      description := data.description
      amount := data.amount
      userId := currentUserId }
  flush
  let creatorId ← fresh
  let creator : AgreementParticipant :=
    { id := creatorId
      userId := currentUserId
      agreementId := agreementId
      role := data.role
      status := .accepted }
  add .agreementParticipant creator
  flush
  let invitation ← inviteParticipant data.role currentUserId data.inviteeEmail agreementId
  let conditionIds ← addConditions agreementId creatorId invitation.id data.conditions
  commit
  let conditions ← Prog.forEach (refresh .condition) conditionIds
  -- the creator's row is put back if it went missing
  match ← getParticipantForUser agreementId currentUserId with
  | some _ => pure ()
  | none => do
      let id ← fresh
      add .agreementParticipant { creator with id := id }
      commit
      let _ ← refresh .agreementParticipant id
  match ← getById agreementId with
  | none => .raise agreementNotFound
  | some found => do
      let response ← toAgreementResponse found conditions.length 0 none false
      let shown ← Prog.forEach conditionResponse conditions
      pure (response, shown)

def createAgreement (currentUserId : Id) (currentUserEmail : String)
    (data : AgreementCreate) : App (AgreementResponse × List ConditionResponse) := do
  raiseIf (currentUserEmail ≠ "" ∧ data.inviteeEmail.toList = lower currentUserEmail)
    (.app .badRequest "You cannot invite yourself to an agreement")
  match ← Prog.attempt (createAgreementRows currentUserId data) with
  | .ok created => pure created
  | .error _ => do
      rollback
      .raise (.app .agreementCreation "Failed to create agreement")

/-! ## Accepting, declining, cancelling -/

def setParticipantStatus (status : InvitationStatus) :
    Patch adehun .agreementParticipant where
  run := fun p : AgreementParticipant => { p with status := status }

def setInvitationStatus (status : String) : Patch adehun .invitation where
  run := fun v : Invitation => { v with status := some status }

/-- The caller's participant row in a new status, added if there is none. -/
def joinAs (participant : Option AgreementParticipant) (agreementId userId : Id)
    (role : ParticipantRole) (status : InvitationStatus) : App Id := do
  match participant with
  | none => do
      let id ← fresh
      add .agreementParticipant
        { id := id
          agreementId := agreementId
          userId := userId
          role := role
          status := status }
      pure id
  | some p => do
      assign .agreementParticipant p.id (setParticipantStatus status)
      pure p.id

def noInvitation : Exn :=
  .app .agreementAcceptance "No invitation found for this agreement"

/-- Activate the agreement once both sides have accepted. -/
def settleAcceptance (agreementId : Id) : App Agreement := do
  match ← getAttached agreementId with
  | none => .raise agreementNotFound
  | some agreement => do
      let participants ← getParticipantsForAgreement agreementId
      let accepted := (participants.filter (·.status = .accepted)).length
      assignStatus agreement (if accepted ≥ 2 then .active else .pending)
      commit
      refresh .agreement agreementId

/-- Accept an agreement without failing if the same user clicks twice. -/
def acceptAgreement (agreementId userId : Id) (email : String) :
    App AgreementResponse := do
  match ← getInvitationByAgreementId email agreementId with
  | none => .raise noInvitation
  | some invitation => do
      let participant ← getParticipantForUser agreementId userId
      if participant.any (·.status = .accepted) then
        getAgreement agreementId (some userId)
      else
        match ← getAttached agreementId with
        | none => .raise agreementNotFound
        | some existing => do
            raiseIf (existing.status ≠ .pending) (.app .badRequest
              ("An agreement that is " ++ existing.status.value ++
                " can no longer be accepted"))
            raiseIf (messageOr (invitation.status.getD "") "pending" ≠ "pending")
              (.app .badRequest "This invitation is no longer valid")
            let participantId ←
              joinAs participant agreementId userId invitation.role .accepted
            assign .invitation invitation.id (setInvitationStatus "accepted")
            commit
            let _ ← refresh .agreementParticipant participantId
            let agreement ← settleAcceptance agreementId
            cacheDelete (agreementCacheKeys agreementId [agreement.userId, userId])
            let invitation ← attributes .invitation invitation.id
            updateAgreementConditionsWithInvitation agreementId invitation.id participantId
            getAgreement agreementId (some userId)

/-- Cancel an agreement the caller is a participant on. -/
def cancelAgreement (agreementId userId : Id) : App AgreementResponse := do
  match ← getAttached agreementId with
  | none => .raise agreementNotFound
  | some agreement => do
      match ← getParticipantForUser agreementId userId with
      | none => .raise (.app .forbidden "You are not a participant on this agreement")
      | some _ =>
          if agreement.status = .cancelled then getAgreement agreementId (some userId)
          else do
            raiseIf (agreement.status ≠ .pending ∧ agreement.status ≠ .active)
              (.app .badRequest ("An agreement that is " ++ agreement.status.value ++
                " cannot be cancelled"))
            assignStatus agreement .cancelled
            commit
            let _ ← refresh .agreement agreementId
            invalidateAgreementCache agreementId
            getAgreement agreementId (some userId)

/-- Reject an agreement and mark the participant as rejected. -/
def rejectAgreement (agreementId userId : Id) (email : String) :
    App AgreementResponse := do
  match ← getAttached agreementId with
  | none => .raise agreementNotFound
  | some existing => do
      raiseIf (existing.status = .disputed) (.app .badRequest
        "This agreement is under dispute and cannot be cancelled")
      raiseIf (existing.status ≠ .pending ∧ existing.status ≠ .active) (.app .badRequest
        ("An agreement that is " ++ existing.status.value ++
          " can no longer be declined"))
      match ← getInvitationByAgreementId email agreementId with
      | none => .raise noInvitation
      | some invitation => do
          let participant ← getParticipantForUser agreementId userId
          if participant.any (·.status = .rejected) then
            getAgreement agreementId (some userId)
          else do
            let participantId ←
              joinAs participant agreementId userId invitation.role .rejected
            assign .invitation invitation.id (setInvitationStatus "expired")
            commit
            let _ ← refresh .agreementParticipant participantId
            match ← getAttached agreementId with
            | none => .raise agreementNotFound
            | some agreement => do
                assignStatus agreement .cancelled
                commit
                let agreement ← refresh .agreement agreementId
                cacheDelete (agreementCacheKeys agreementId [agreement.userId, userId])
                getAgreement agreementId (some userId)

end Adehun
