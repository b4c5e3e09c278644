import Adehun.Routes

/-!
# Signing in, refreshing, signing out

The exchange of an identity for a pair of tokens, and the rotation of the
refresh token. A refresh token is a row; the row is read without a lock, and
what rotation assigns to it goes out with the next flush. Whether the row was
consumed is looked at once, when it is read.

An identity provider vouches for the caller of a login. It is not part of the
repository, so a login carries what the provider says.
-/

namespace Adehun

open Sessions

/-! ## Tokens -/

inductive TokenType
  | access
  | refresh
deriving DecidableEq

/-- The claims of a signed token. -/
structure Claims where
  sub : Id
  type : TokenType
  exp : Nat
  jti : Id
deriving DecidableEq

structure TokenSettings where
  accessTokenExpirationMinutes : Nat := 30
  refreshTokenExpirationDays : Nat := 3

def tokenLifetime (settings : TokenSettings) : TokenType → Nat
  | .access => settings.accessTokenExpirationMinutes * 60
  | .refresh => settings.refreshTokenExpirationDays * 86400

def credentialsError : Exn := .app .unauthorized "Could not validate credentials"

def sessionExpired : Exn := .app .unauthorized "Session expired, please sign in again"

/-- Mint a token; the `jti` may be supplied so that the caller can persist it
first. -/
def createToken (settings : TokenSettings) (userId : Id) (type : TokenType)
    (jti : Option Id) : App Claims := do
  let time ← now
  let jti ← match jti with
    | some jti => pure jti
    | none => fresh
  pure { sub := userId, type := type, exp := time + tokenLifetime settings type, jti := jti }

/-- Validate expiry and type. Text that is not a token of ours, or lacks a
claim, has no claims. -/
def verifyToken (token : Option Claims) (expected : TokenType) : App Claims :=
  match token with
  | none => .raise credentialsError
  | some payload => do
      let time ← now
      raiseIf (payload.exp ≤ time) credentialsError
      raiseIf (payload.type ≠ expected) credentialsError
      pure payload

/-! ## The user repository -/

/-- A user read, and whether the session stands behind it. -/
structure FoundUser where
  user : User
  attached : Bool

/-- Participations are loaded with a user, and agreements with them. -/
def loadUser (p : User → Bool) : App (Option User) := do
  match ← loadFirst .user p with
  | none => pure none
  | some user => do
      let joined ← loadAll .agreementParticipant fun p => p.userId = user.id
      let _ ← loadAll .agreement fun a => joined.any fun p => p.agreementId = a.id
      pure (some user)

/-- Fetch a user for reading, from the cache when it is there. -/
def getUserById (userId : Id) : App (Option FoundUser) := do
  match ← cacheGet (.user userId) with
  | some (.user u) => pure (some { user := u, attached := false })
  | _ => do
      match ← loadUser fun u => u.id = userId with
      | none => pure none
      | some u => do
          cacheSet (.user userId) (.user u)
          pure (some { user := u, attached := true })

def getUserByEmail (email : String) : App (Option User) := loadUser fun u => u.email = email

def createUserRow (user : User) : App User := do
  add .user user
  commit
  refresh .user user.id

/-! ## The refresh token repository -/

def createRefreshToken (jti userId : Id) (expiresAt : Nat) : App Unit := do
  add .refreshToken { jti := jti, userId := userId, expiresAt := expiresAt }
  flush

def getRefreshToken (jti : Id) : App (Option RefreshToken) := get .refreshToken jti

/-- `revoked_at` and `replaced_by_jti` assigned. What equals the loaded value
is not part of the statement. -/
def setRevoked (row : RefreshToken) (time : Nat) (replacedBy : Option Id) :
    Patch adehun .refreshToken where
  run r := { r with
    revokedAt := some time
    replacedByJti := if row.replacedByJti = replacedBy then r.replacedByJti else replacedBy }

def revoke (row : RefreshToken) (replacedBy : Option Id) : App Unit := do
  let time ← now
  assign .refreshToken row.jti (setRevoked row time replacedBy)
  flush

/-- `WHERE user_id = ... AND revoked_at IS NULL` -/
def RefreshToken.liveOf (userId : Id) (r : RefreshToken) : Bool :=
  r.userId = userId && r.revokedAt.isNone

def setRevokedAt (time : Nat) : Patch adehun .refreshToken where
  run r := { r with revokedAt := some time }

/-- One row of the bulk update, waited for and looked at again. -/
def revokeIfLive (userId : Id) (time : Nat) (jti : Id) : App Bool :=
  .perform (.upsert [] fun db =>
    if (db.lookup ⟨.refreshToken, jti⟩ : Option RefreshToken).any (·.liveOf userId) then
      ([.update .refreshToken jti (setRevokedAt time)], true)
    else ([], false))

/-- Kill every live session of a user. The update is about the rows that are
there when it starts. -/
def revokeAllForUser (userId : Id) : App Nat := do
  let time ← now
  let jtis ← select fun db =>
    ((db .refreshToken : List RefreshToken).filter (·.liveOf userId)).map (·.jti)
  let hits ← Prog.forEach (revokeIfLive userId time) jtis
  flush
  pure (hits.filter (· = true)).length

/-! ## The service -/

structure LoginResponse where
  accessToken : Claims
  refreshToken : Claims
  isSignedUp : Bool := true
  user : UserResponse

/-- What the identity provider knows of the owner of an ID token. -/
structure FirebaseUser where
  uid : Id
  email : String
  displayName : String

/-- Mint an access and a refresh token and persist the refresh `jti`. -/
def issueTokenPair (settings : TokenSettings) (userId : Id) : App (Claims × Claims) := do
  let jti ← fresh
  let time ← now
  createRefreshToken jti userId (time + tokenLifetime settings .refresh)
  let access ← createToken settings userId .access none
  let refresh ← createToken settings userId .refresh (some jti)
  commit
  pure (access, refresh)

/-- One pending invitation told of. The warning about a failure names both
rows again. -/
def notifyPendingInvitation (user : User) (v : Invitation) : App Unit := do
  let told ← Prog.attempt do
    let v : Invitation ← attributes .invitation v.id
    let inviter ← get .user v.invitedBy
    let name := match inviter with
      | some inviter => inviter.name
      | none => "a sender"
    let user : User ← attributes .user user.id
    createNotification user.id .invitationReceived "New Escrow Invitation"
      ("You have been invited to an escrow agreement by " ++ name)
  match told with
  | .ok _ => pure ()
  | .error _ => do
      let _ ← attributes .user user.id
      let _ ← attributes .invitation v.id

def notifyPendingInvitations (user : User) : App Unit := do
  let user : User ← attributes .user user.id
  let invitations ← loadAll .invitation fun v => v.email = user.email
  let _ ← Prog.forEach (notifyPendingInvitation user) invitations

/-- `UserResponse.model_validate(user)`: an object that was committed is
loaded again, a cached one is as it was cached. -/
def showUser (found : FoundUser) : App UserResponse :=
  if found.attached then userResponse <$> attributes .user found.user.id
  else pure (userResponse found.user)

/-- Exchange an ID token for our own token pair. -/
def verifyIdToken (settings : TokenSettings) (identity : Option FirebaseUser) :
    App LoginResponse :=
  match identity with
  | none => .raise (.app .unauthorized "Invalid or expired credentials")
  | some identity => do
      let found ← getUserByEmail identity.email
      let user ← match found with
        | none => do
            let user ← createUserRow
              { id := identity.uid, email := identity.email, name := identity.displayName }
            notifyPendingInvitations user
            pure user
        | some user => do
            raiseIf (!user.active) (.app .unauthorized "This account has been deactivated")
            pure user
      let user : User ← attributes .user user.id
      let pair ← issueTokenPair settings user.id
      let shown ← showUser { user := user, attached := true }
      pure
        { accessToken := pair.1
          refreshToken := pair.2
          isSignedUp := found.isSome
          user := shown }

/-- A presented token that was consumed before: every session of its owner
ends. -/
def endAllSessions (userId : Id) : App LoginResponse := do
  let _ ← revokeAllForUser userId
  commit
  .raise sessionExpired

/-- The new pair of a rotation. -/
def rotateToken (settings : TokenSettings) (userId : Id) (row : RefreshToken)
    (found : FoundUser) : App LoginResponse := do
  let jti ← fresh
  revoke row (some jti)
  let time ← now
  createRefreshToken jti userId (time + tokenLifetime settings .refresh)
  let access ← createToken settings userId .access none
  let refresh ← createToken settings userId .refresh (some jti)
  commit
  let shown ← showUser found
  pure { accessToken := access, refreshToken := refresh, user := shown }

/-- Rotate a refresh token. Reuse of a consumed token kills the family. -/
def refreshToken (settings : TokenSettings) (token : Option Claims) : App LoginResponse := do
  let payload ← verifyToken token .refresh
  match ← getRefreshToken payload.jti with
  | none => .raise credentialsError
  | some row => do
      raiseIf (row.userId ≠ payload.sub) credentialsError
      if row.revokedAt.isSome then endAllSessions payload.sub
      else do
        let time ← now
        raiseIf (row.expiresAt < time) sessionExpired
        match ← getUserById payload.sub with
        | none => .raise credentialsError
        | some found => do
            raiseIf (!found.user.active) credentialsError
            rotateToken settings payload.sub row found

/-- Best-effort revoke. Invalid tokens are ignored. -/
def logout (token : Option Claims) : App Unit := do
  match ← Prog.attempt (verifyToken token .refresh) with
  | .error _ => pure ()
  | .ok payload => do
      match ← getRefreshToken payload.jti with
      | none => pure ()
      | some row =>
          if row.revokedAt.isSome then pure ()
          else do
            revoke row none
            commit

/-! ## The routes -/

inductive AuthRequest
  | login (identity : Option FirebaseUser)
  | refresh (token : Option Claims)
  | logout (token : Option Claims)

inductive AuthReply
  | signedIn (r : LoginResponse)
  | loggedOut

def authHandler (settings : TokenSettings) : AuthRequest → App AuthReply
  | .login identity => closing (.signedIn <$> verifyIdToken settings identity)
  | .refresh token => closing (.signedIn <$> refreshToken settings token)
  | .logout token => closing do
      logout token
      pure .loggedOut

end Adehun
