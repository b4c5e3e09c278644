import Adehun.DisputeService

/-!
# Assets

What is handed over for a condition: files, uploaded by a participant and
approved or rejected by the depositor. Three reads of the repository are
cached for a day. A cached asset is a plain value with no session behind it:
nothing hangs on it, and a session that it is added to takes it for a new
row.
-/

namespace Adehun

open Sessions

/-! ## The asset repository -/

/-- An asset read, and whether the session stands behind it. -/
structure FoundAsset where
  asset : Asset
  attached : Bool

/-- Get an asset by id, from the cache when it is there. -/
def getAssetById (assetId : Id) : App (Option FoundAsset) := do
  match ← cacheGet (.asset assetId) with
  | some (.asset a) => pure (some { asset := a, attached := false })
  | _ => do
      match ← loadFirst .asset fun a => a.id = assetId with
      | none => pure none
      | some a => do
          cacheSet (.asset assetId) (.asset a)
          pure (some { asset := a, attached := true })

/-- The assets of the conditions with a property. Evidence belongs to no
condition. -/
def deliverables (db : Db adehun) (p : Condition → Bool) : List Asset :=
  (db .asset : List Asset).filter fun a =>
    (db .condition : List Condition).any fun c => a.conditionId = some c.id && p c

def loadDeliverables (p : Condition → Bool) : App (List Asset) :=
  .perform (Stmt.load (M := adehun) Table.asset fun db =>
    (deliverables db p).map fun a : Asset => a.id)

/-- The deliverables, from the cache when they are there. An empty list is
not cached. -/
def cachedAssets (key : CacheKey) (p : Condition → Bool) : App (List FoundAsset) := do
  match ← cacheGet key with
  | some (.assets rows) => pure (rows.map fun a => { asset := a, attached := false })
  | _ => do
      let assets ← loadDeliverables p
      if assets.isEmpty then pure () else cacheSet key (.assets assets)
      pure (assets.map fun a => { asset := a, attached := true })

def getAgreementAssets (agreementId : Id) : App (List FoundAsset) :=
  cachedAssets (.agreementAsset agreementId) fun c => c.agreementId = agreementId

def getConditionAssets (conditionId : Id) : App (List FoundAsset) :=
  cachedAssets (.conditionAsset conditionId) fun c => c.id = conditionId

/-- A key deleted. The command is not handled. -/
def invalidateCache (key : CacheKey) : App Unit :=
  Prog.perform (M := adehun) (.shared fun m =>
    ({ m with cache := m.cache.filter (·.1 ≠ key) }, ()))

def setAssetApproval (isApproved : Bool) : Patch adehun .asset where
  run := fun a : Asset => { a with isApproved := isApproved }

/-- `asset.is_approved = ...` of an asset of the session. -/
def assignApproval (asset : Asset) (isApproved : Bool) : App Unit :=
  if asset.isApproved = isApproved then pure ()
  else assign .asset asset.id (setAssetApproval isApproved)

/-- The approval assigned, and the asset saved. To the session a cached asset
is a new row. -/
def saveAsset (found : FoundAsset) (isApproved : Bool) : App Asset := do
  if found.attached then assignApproval found.asset isApproved
  else add .asset { found.asset with isApproved := isApproved }
  commit
  refresh .asset found.asset.id

/-! ## The asset service -/

structure AssetFileResponse where
  id : Id
  url : String
  type : String
  name : String
  size : Nat

structure AssetResponse where
  id : Id
  uploader : ParticipantResponse
  isApproved : Bool
  file : AssetFileResponse

/-- `AssetResponse.model_validate(asset)`: a cached asset has no uploader, and
does not validate. -/
def assetResponse (found : FoundAsset) : App AssetResponse :=
  if found.attached then do
    let uploader ← attributes .agreementParticipant found.asset.uploadedBy
    let uploader ← participantResponse uploader
    let file ← attributes .assetFile found.asset.fileId
    pure
      { id := found.asset.id
        uploader := uploader
        isApproved := found.asset.isApproved
        file :=
          { id := file.id, url := file.url, type := file.type, name := file.name
            size := file.size } }
  else .raise .value

/-- An exception that a handler lets through. -/
def Exn.isOneOf (classes : List ErrorClass) : Exn → Bool
  | .app c _ => c ∈ classes
  | _ => false

/-- A handler that lets some exceptions through, and rolls back and raises
another one after the rest. -/
def handled {α : Type} (kept : List ErrorClass) (failure : Exn) (p : App α) : App α := do
  match ← Prog.attempt p with
  | .ok a => pure a
  | .error e =>
      if e.isOneOf kept then .raise e
      else do
        rollback
        .raise failure

/-- Rows added for some values, each with an identifier of its own. -/
def addEach {α : Type} (t : Table) (row : Id → α → t.Row) (values : List α) : App (List Id) :=
  Prog.forEach (fun a => do
    let id ← fresh
    add t (row id a)
    pure id) values

def uploadFile (id : Id) (f : UploadedFile) : AssetFile :=
  { id := id, url := f.url, type := f.type, name := f.name, size := f.size }

def deliverable (conditionId participantId id fileId : Id) : Asset :=
  { id := id, conditionId := some conditionId, fileId := fileId, uploadedBy := participantId }

def notAParticipant : Exn := .app .forbidden "User is not a participant of this agreement"

/-- What `add_asset_to_condition` does inside its guard. -/
def uploadRows (userId conditionId : Id) (files : List UploadedFile) :
    App (List AssetResponse) := do
  match ← get .condition conditionId with
  | none => .raise conditionNotFound
  | some condition => do
      match ← getParticipantForUser condition.agreementId userId with
      | none => .raise notAParticipant
      | some participant => do
          let fileIds ← addEach .assetFile uploadFile files
          flush
          let assetIds ← addEach .asset (deliverable conditionId participant.id) fileIds
          flush
          commit
          invalidateCache (.conditionAsset conditionId)
          let assets ← loadAll .asset fun a => a.id ∈ assetIds
          Prog.forEach assetResponse (assets.map fun a => { asset := a, attached := true })

/-- Add assets to a condition. -/
def addAssetToCondition (userId conditionId : Id) (files : List UploadedFile) :
    App (List AssetResponse) :=
  handled [.conditionNotFound, .forbidden] (.app .assetUpload "Failed to upload asset")
    (uploadRows userId conditionId files)

/-- The responses of a listing: what it is a listing of, and the assets. -/
def listAssets {α : Type} (owner : App (Option α)) (missing : Exn)
    (assets : App (List FoundAsset)) : App (List AssetResponse) := do
  match ← owner with
  | none => .raise missing
  | some _ => do
      let found ← assets
      Prog.forEach assetResponse found

def retrieveAssets {α : Type} (owner : App (Option α)) (missing : Exn) (kept : ErrorClass)
    (assets : App (List FoundAsset)) : App (List AssetResponse) := do
  match ← Prog.attempt (listAssets owner missing assets) with
  | .ok shown => pure shown
  | .error e =>
      if e.isOneOf [kept] then .raise e
      else .raise (.app .assetRetrieval "Failed to retrieve assets")

/-- Get assets for a condition. -/
def getAssetsForCondition (conditionId : Id) : App (List AssetResponse) :=
  retrieveAssets (get .condition conditionId) conditionNotFound .conditionNotFound
    (getConditionAssets conditionId)

/-- Get assets for an agreement. -/
def getAssetsForAgreement (agreementId : Id) : App (List AssetResponse) :=
  retrieveAssets (get .agreement agreementId) agreementNotFound .agreementNotFound
    (getAgreementAssets agreementId)

def assetNotFound : Exn := .app .assetNotFound "Asset not found"

/-- What a decision does inside its guard. The depositor decides. -/
def decisionRows (refusal : String) (isApproved : Bool) (conditionId assetId userId : Id) :
    App AssetResponse := do
  match ← get .condition conditionId with
  | none => .raise conditionNotFound
  | some condition => do
      match ← getParticipantForUser condition.agreementId userId with
      | none => .raise notAParticipant
      | some participant => do
          raiseIf (participant.role ≠ .depositor) (.app .forbidden refusal)
          match ← getAssetById assetId with
          | none => .raise assetNotFound
          | some found => do
              raiseIf (found.asset.conditionId ≠ some conditionId) assetNotFound
              let asset ← saveAsset found isApproved
              invalidateCache (.conditionAsset conditionId)
              assetResponse { asset := asset, attached := true }

/-- A decision on an asset uploaded to a condition. -/
def decideAsset (refusal : String) (isApproved : Bool) (conditionId assetId userId : Id) :
    App AssetResponse :=
  handled [.conditionNotFound, .forbidden, .assetNotFound]
    (.app .assetApproval "Failed to approve or reject asset")
    (decisionRows refusal isApproved conditionId assetId userId)

/-- Approve an asset uploaded to a condition. -/
def approveAsset (conditionId assetId userId : Id) : App AssetResponse :=
  decideAsset "Only the depositor can approve assets" true conditionId assetId userId

/-- Reject an asset uploaded to a condition. -/
def rejectAsset (conditionId assetId userId : Id) : App AssetResponse :=
  decideAsset "Only the depositor can reject assets" false conditionId assetId userId

end Adehun
