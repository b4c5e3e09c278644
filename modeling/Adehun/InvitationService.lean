import Adehun.AgreementService

/-!
# Invitation tokens, and who may read

The uses of an invitation besides answering it: read access for a pending
invitee, the two public pages behind the link, and the token that a new
account can be registered with. Each of them decides for itself whether the
invitation is still live.
-/

namespace Adehun

open Sessions

/-! ## Object-level authorization -/

/-- Whether the first invitation of an address is pending. -/
def hasPendingInvitation (agreementId : Id) (email : String) : App Bool :=
  if email = "" then pure false
  else do
    let invitation ← getInvitationByAgreementId email agreementId
    pure (invitation.any fun v => messageOr (v.status.getD "") "pending" = "pending")

/-- Participants may read; so may a pending invitee. -/
def requireReadAccess (agreementId userId : Id) (email : String) : App Unit := do
  match ← get .agreement agreementId with
  | none => .raise agreementNotFound
  | some _ => do
      match ← getParticipantForUser agreementId userId with
      | some _ => pure ()
      | none => do
          if ← hasPendingInvitation agreementId email then pure ()
          else .raise (.app .forbidden "You do not have access to this agreement")

/-! ## Points in time -/

/-- A `datetime`: its digits read as UTC, and its offset if it has a zone. -/
structure Datetime where
  digits : Int
  offset : Option Int

/-- `replace(tzinfo=timezone.utc)` where the zone is missing. -/
def Datetime.utc (d : Datetime) : Int := d.digits - d.offset.getD 0

/-- What an `expires_at` can be. A string may be an ISO date. -/
inductive Expiry
  | datetime (d : Datetime)
  | text (iso : Option Datetime)
  | other

def parseExpiry : Expiry → Option Datetime
  | .datetime d => some d
  | .text iso => iso
  | .other => none

/-- The column has no zone. -/
def Invitation.expiry (v : Invitation) : Datetime := { digits := v.expiresAt, offset := none }

/-- The cached date was serialised with its zone. -/
def Invitation.cachedExpiry (v : Invitation) : Expiry :=
  .text (some { digits := v.expiresAt, offset := some 0 })

/-! ## The public pages -/

/-- `_is_live` of the router. -/
def isLive (status : Option String) (expiresAt : Datetime) : App Bool :=
  if messageOr (status.getD "") "pending" ≠ "pending" then pure false
  else do
    let time ← now
    pure (expiresAt.utc > time)

def findInvitationByToken (token : Nat) : App (Option Invitation) := do
  let found ← loadFirst .invitation fun v => v.token = token
  match found with
  | none => pure none
  | some v => do
      let _ ← loadAll .agreement fun a => a.id = v.agreementId
      pure (some v)

def invalidToken : Exn := .app .invitationNotFound "Invalid or expired invitation token"

/-- The first letter of an address and its domain. -/
def maskEmail (email : String) : String :=
  let localPart := email.toList.takeWhile (· ≠ '@')
  let domain := (email.toList.dropWhile (· ≠ '@')).drop 1
  if domain.isEmpty then "***"
  else String.ofList (localPart.take 1 ++ "***@".toList ++ domain)

structure InvitationLookupResponse where
  agreementId : Id
  agreementTitle : String
  inviterName : String
  role : ParticipantRole
  status : String
  expiresAt : Nat
  emailHint : String

/-- `GET /invitations/{token}` -/
def lookupInvitation (token : Nat) : App InvitationLookupResponse := do
  match ← findInvitationByToken token with
  | none => .raise invalidToken
  | some v => do
      let live ← isLive v.status v.expiry
      raiseIf (live = false) invalidToken
      let agreement ← get .agreement v.agreementId
      let inviter ← get .user v.invitedBy
      pure
        { agreementId := v.agreementId
          agreementTitle := (agreement.map (·.title)).getD ""
          inviterName := (inviter.map (·.name)).getD "Someone"
          role := v.role
          status := messageOr (v.status.getD "") "pending"
          expiresAt := v.expiresAt
          emailHint := maskEmail v.email }

/-- What the landing page is rendered with. -/
structure InvitePage where
  statusCode : Nat
  live : Bool
  agreementTitle : String
  inviterName : String
  role : Option ParticipantRole
  deepLink : Option Nat

/-- `GET /invite?token=...` -/
def invitePage (token : Nat) : App InvitePage := do
  match ← findInvitationByToken token with
  | none =>
      pure
        { statusCode := 404
          live := false
          agreementTitle := ""
          inviterName := "Someone"
          role := none
          deepLink := none }
  | some v => do
      let live ← isLive v.status v.expiry
      let agreement ← get .agreement v.agreementId
      let inviter ← get .user v.invitedBy
      pure
        { statusCode := if live then 200 else 404
          live := live
          agreementTitle := (agreement.map (·.title)).getD ""
          inviterName := (inviter.map (·.name)).getD "Someone"
          role := some v.role
          deepLink := if live then some token else none }

/-! ## The token service -/

/-- `_is_live` of the service. -/
def isLiveToken (status : Option String) (expiresAt : Expiry) : App Bool :=
  if messageOr (status.getD "") "pending" ≠ "pending" then pure false
  else match parseExpiry expiresAt with
    | none => pure true
    | some d => do
        let time ← now
        pure (d.utc > time)

/-- The cached copy of an invitation. The command is not guarded. -/
def getInvitation (token : Nat) : App (Option Invitation) := do
  let cached : Option CacheValue ← Prog.perform (M := adehun)
    (.shared fun m => (m, (m.cache.find? (·.1 = .invitation token)).map (·.2)))
  match cached with
  | some (.invitation v) => pure (some v)
  | _ => pure none

/-- The row of a token, if it is live. -/
def validateRow (token : Nat) : App Invitation := do
  match ← findInvitationByToken token with
  | none => .raise invalidToken
  | some v => do
      let live ← isLiveToken v.status (.datetime v.expiry)
      raiseIf (live = false) invalidToken
      pure v

/-- Resolve an invitation token; Redis is a cache in front of the tables. -/
def validateToken (token : Nat) : App Invitation := do
  match ← getInvitation token with
  | none => validateRow token
  | some v => do
      if ← isLiveToken v.status v.cachedExpiry then pure v
      else validateRow token

end Adehun
