import Adehun.WalletService

/-!
# Idempotency keys and the request session

A client may send a key with a request that moves money. The key is reserved
in one statement before the handler runs; the response is stored under it
when the handler is done, and replayed to whoever comes with the same key
later. A handler that raises gives the reservation up, so that the client can
try again.

The module also has what every route starts and ends with: the caller is
loaded into the session, and the session is closed at the end.
-/

namespace Adehun

open Sessions

/-! ## The repository -/

def takeOver (requestHash : String) (createdAt expiresAt : Nat) :
    Patch adehun .idempotencyKey where
  run := fun k : IdempotencyKey =>
    { k with
      status := .inProgress
      requestHash := requestHash
      createdAt := createdAt
      expiresAt := expiresAt
      responseStatusCode := none
      responseBody := none }

/-- Best-effort cleanup of expired rows. -/
def sweepExpired : App Unit := do
  let swept ← Prog.attempt do
    let time ← now
    Prog.perform (.upsert [] fun db =>
      (((db .idempotencyKey : List IdempotencyKey).filter fun k =>
        k.expiresAt < time).map fun k => .delete Table.idempotencyKey k.id, ()))
    commit
  match swept with
  | .ok _ => pure ()
  | .error _ => rollback

/-- Claim the key: the row id on success, none if it is taken. A reservation
left in progress for longer than the timeout can be taken over. -/
def reserve (settings : Settings) (userId : Id) (endpoint key requestHash : String) :
    App (Option Id) := do
  let time ← now
  let id ← fresh
  let expiresAt := time + settings.idempotencyTtlHours * 3600
  let reserved ← Prog.perform (.upsert [.idempotency userId endpoint key] fun db =>
    match (db .idempotencyKey : List IdempotencyKey).find? fun k =>
        k.userId = userId && k.endpoint = endpoint && k.key = key with
    | none =>
        ([.insert .idempotencyKey
          ({ id := id
             userId := userId
             key := key
             endpoint := endpoint
             requestHash := requestHash
             status := .inProgress
             createdAt := time
             expiresAt := expiresAt } : IdempotencyKey)], some id)
    | some k =>
        if k.status = .inProgress &&
            k.createdAt + settings.idempotencyInflightTimeoutSeconds < time then
          ([.update .idempotencyKey k.id (takeOver requestHash time expiresAt)], some k.id)
        else ([], none))
  commit
  -- one reservation in fifty sweeps
  let n ← fresh
  if reserved.isSome && n % 50 = 0 then sweepExpired else pure ()
  pure reserved

def getKey (userId : Id) (endpoint key : String) : App (Option IdempotencyKey) :=
  loadFirst .idempotencyKey fun k =>
    k.userId = userId && k.endpoint = endpoint && k.key = key

def setCompleted (response : Response) : Patch adehun .idempotencyKey where
  run := fun k : IdempotencyKey =>
    { k with
      status := .completed
      responseStatusCode := some response.statusCode
      responseBody := some response.body }

def completeKey (recordId : Id) (response : Response) : App Unit := do
  match ← get .idempotencyKey recordId with
  | none => pure ()
  | some _ => do
      assign .idempotencyKey recordId (setCompleted response)
      commit

def setReference (reference : PaystackReference ⊕ Reference) :
    Patch adehun .idempotencyKey where
  run := fun k : IdempotencyKey => { k with resourceReference := some reference }

def bindKeyReference (recordId : Id) (reference : PaystackReference ⊕ Reference) :
    App Unit := do
  match ← get .idempotencyKey recordId with
  | none => pure ()
  | some _ => do
      assign .idempotencyKey recordId (setReference reference)
      commit

/-- Drop a reservation that is still in progress. -/
def releaseKey (recordId : Id) : App Unit := do
  rollback
  Prog.perform (.upsert [] fun db =>
    if ((db .idempotencyKey : List IdempotencyKey).any fun k =>
        k.id = recordId && k.status = .inProgress) then
      ([.delete Table.idempotencyKey recordId], ())
    else ([], ()))
  commit

/-! ## The context a route drives -/

/-- What reserving a key led to: an answer already given, or a record to
complete. -/
inductive Begun
  | replay (r : Response)
  | proceed (record : Option Id)

/-- Claim the key. -/
def begin (settings : Settings) (userId : Id) (key : Option String)
    (endpoint requestHash : String) : App Begun := do
  match key with
  | none => .raise (.app .badRequest "Idempotency-Key header is required")
  | some key => do
      raiseIf (key = "") (.app .badRequest "Idempotency-Key header is required")
      raiseIf (key.length > 120)
        (.app .badRequest "Idempotency-Key must be at most 120 characters")
      match ← reserve settings userId endpoint key requestHash with
      | some record => pure (.proceed (some record))
      | none =>
          match ← getKey userId endpoint key with
          | none => pure (.proceed none)
          | some existing =>
              if existing.requestHash ≠ requestHash then
                .raise (.app .idempotencyKeyReused
                  ("This Idempotency-Key was already used with a different " ++
                    "request body"))
              else if existing.status = .completed then
                pure (.replay
                  { statusCode := existing.responseStatusCode.getD 200
                    body := existing.responseBody.getD .null })
              else
                .raise (.app .idempotencyConflict
                  "A request with this Idempotency-Key is still in progress")

/-- Link the key to what it produced; a failure is swallowed. -/
def bindReference (record : Option Id) (reference : PaystackReference ⊕ Reference) :
    App Unit :=
  match record with
  | none => pure ()
  | some id => do
      let _ ← Prog.attempt (bindKeyReference id reference)

/-- Store the response for replay and return it unchanged. -/
def complete (record : Option Id) (response : Response) : App Response :=
  match record with
  | none => pure response
  | some id => do
      completeKey id response
      pure response

/-- Teardown: drop the reservation if the handler raised. -/
def releaseIfAbandoned (record : Option Id) : App Unit :=
  match record with
  | none => pure ()
  | some id => do
      let _ ← Prog.attempt (releaseKey id)

/-- A route under an idempotency key. -/
def idempotent (settings : Settings) (userId : Id) (key : Option String)
    (endpoint requestHash : String) (handler : Option Id → App Response) :
    App Response := do
  match ← begin settings userId key endpoint requestHash with
  | .replay r => pure r
  | .proceed record => do
      let done ← Prog.attempt do
        let response ← handler record
        complete record response
      match done with
      | .ok response => pure response
      | .error e => do
          releaseIfAbandoned record
          .raise e

/-! ## The session of a request -/

/-- The caller, who is loaded at the start and referred to until the end. -/
def currentUser (userId : Id) : App User := attributes .user userId

/-- Resolve the token subject. The agreements of the caller are loaded with
it, as participations are eager. -/
def authenticate (userId : Id) : App User := do
  match ← get .user userId with
  | none => .raise (.app .unauthorized "Could not validate credentials")
  | some user => do
      raiseIf (!user.active) (.app .unauthorized "Could not validate credentials")
      let joined ← loadAll .agreementParticipant fun p => p.userId = userId
      let _ ← loadAll .agreement fun a => joined.any fun p => p.agreementId = a.id
      pure user

def requireAdmin (user : User) : App Unit :=
  raiseIf (!user.isAdmin) (.app .adminAccessRequired "Administrator access required")

/-- The session is closed however the request ends. -/
def closing {α : Type} (p : App α) : App α := .ensuring p rollback

end Adehun
