import Adehun.Routine.Provider

/-!
# Every request, by its parts

Agreements, disputes and the three escrow movements, and then the requests:
what is left to show of a property, once it is routine, are the statements
and functions that `EscrowSide` and `ProviderRequests` list.
-/

namespace Adehun

open Sessions

/-- The rows of a dispute, rolled back where they fail. -/
def raiseDisputeOrNot (agreement : Agreement) (participantId userId otherId : Id)
    (data : DisputeCreateRequest) : App (Except Exn Id) := do
  match ← Prog.attempt (raiseDisputeRows agreement participantId userId otherId data) with
  | .error e => do
      rollback
      pure (.error e)
  | .ok id => pure (.ok id)

/-- What the agreement and dispute services and the escrow routes do
besides: they write agreements and disputes, and make the three escrow
movements. -/
structure EscrowSide (K : (α : Type) → App α → Prop) : Prop where
  newAgreement : ∀ r : Agreement, r.status = .pending → K Unit (add .agreement r)
  agreementStatus : ∀ id s, K Unit (assign .agreement id (setStatus s))
  underReview : ∀ id, K Unit (assign .dispute id (setDisputeStatus .underReview))
  resolution : ∀ id r u t, K Unit (assign .dispute id (setResolution r u t))
  raised : ∀ a p u o data, a.status = .active → K _ (raiseDisputeOrNot a p u o data)
  lockEscrow : ∀ u amount a p c description,
    K _ (lockEscrow u amount a p c description)
  release : ∀ a, K _ (performEscrowRelease a)
  refund : ∀ a, K _ (performEscrowRefund a)

/-- The requests to the provider. -/
structure Payments (K : (α : Type) → App α → Prop) : Prop where
  ensureWallet : ∀ u, K _ (ensureWallet u)
  fund : ∀ u email data, K _ (requestWalletFund u email data)
  withdrawal : ∀ s u p, K _ (requestWithdrawal s u p)
  status : ∀ u r, K _ (getWithdrawal u r)

/-- The requests to the provider, and what comes back from it. -/
structure ProviderRequests (K : (α : Type) → App α → Prop) : Prop extends Payments K where
  event : ∀ e data p, webhookHandler e data = some p → K _ p

/-! ### Several properties at once -/

section All

variable {ι : Type} {K : ι → (α : Type) → App α → Prop}

theorem Plain.all (h : ∀ x, Plain (K x)) : Plain fun α p => ∀ x, K x α p where
  ret a x := (h x).ret a
  raise e x := (h x).raise e
  bind hp hf x := (h x).bind (hp x) fun a => hf a x
  tryCatch hp hf x := (h x).tryCatch (hp x) fun e => hf e x
  reads s hs hu x := (h x).reads s hs hu
  commit x := (h x).commit
  rollback x := (h x).rollback
  stages d hd hb x := (h x).stages d hd hb

theorem EscrowSide.all (h : ∀ x, EscrowSide (K x)) : EscrowSide fun α p => ∀ x, K x α p where
  newAgreement r hr x := (h x).newAgreement r hr
  agreementStatus id s x := (h x).agreementStatus id s
  underReview id x := (h x).underReview id
  resolution id data u time x := (h x).resolution id data u time
  raised a p u o data hs x := (h x).raised a p u o data hs
  lockEscrow u amount a p c description x := (h x).lockEscrow u amount a p c description
  release a x := (h x).release a
  refund a x := (h x).refund a

theorem ProviderRequests.all (h : ∀ x, ProviderRequests (K x)) :
    ProviderRequests fun α p => ∀ x, K x α p where
  ensureWallet u x := (h x).ensureWallet u
  fund u email data x := (h x).fund u email data
  withdrawal s u p x := (h x).withdrawal s u p
  status u r x := (h x).status u r
  event e data p he x := (h x).event e data p he

end All

/-- An escrow movement on one wallet. -/
def EntryArgs.Escrow (a : EntryArgs) : Prop :=
  (a.entryType = .escrowLock ∧ ∃ x, a.reference = .lock x) ∨
    (a.entryType = .escrowRefund ∧ ∃ x, a.reference = .refund x)

/-- The name of an idempotency key. -/
structure KeyName where
  user : Id
  endpoint : String
  key : String
deriving DecidableEq

/-- The key a request runs under. -/
def Request.reserves : Request → Option KeyName
  | .fundWallet u key _ => key.map (KeyName.mk u "POST /wallet/fund")
  | .withdraw u key _ => key.map (KeyName.mk u "POST /wallet/withdraw")
  | .fundAgreement u key _ => key.map (KeyName.mk u "POST /agreements/\x7bid\x7d/fund")
  | .release u key _ => key.map (KeyName.mk u "POST /agreements/\x7bid\x7d/release")
  | .refund u key _ => key.map (KeyName.mk u "POST /agreements/\x7bid\x7d/refund")
  | .acceptAgreement u key _ => key.map (KeyName.mk u "POST /agreements/\x7bid\x7d/accept")
  | .rejectAgreement u key _ => key.map (KeyName.mk u "POST /agreements/\x7bid\x7d/reject")
  | _ => none

/-- The requests without the deliveries: a route may run under an idempotency
key, to which it binds what it produced. What a route does may depend on the
record it has of its key, and what is had of the whole on the key. -/
structure Keyed (K : Option Id → (α : Type) → App α → Prop)
    (R : Option KeyName → App Response → Prop) : Prop where
  plain : ∀ p, K none Response p → R none p
  keyed : ∀ s u key endpoint hash (allow : User → App Unit) (run : Option Id → App Response),
    (∀ user, allow user = .ret () ∨ ∃ e, allow user = .raise e) →
    (∀ record, K record _ (run record)) → R (key.map (KeyName.mk u endpoint)) (closing do
      let user ← authenticate u
      allow user
      idempotent s u key endpoint hash run)
  bound : ∀ record r, K record _ (bindReference record r)

/-- The requests that keep books: a delivery is handled under a claim. -/
structure Books (K : Option Id → (α : Type) → App α → Prop)
    (R : Option KeyName → App Response → Prop) : Prop extends Keyed K R where
  webhook : ∀ signed p hash, R none (paystackWebhook signed p hash)

namespace Plain

variable {K : (α : Type) → App α → Prop} (h : Plain K)

include h

/-- The requests, by the records they leave, and withdrawals. -/
theorem requests_of_records (hp : ProviderRecords K)
    (hwithdrawal : ∀ s u p, K _ (Adehun.requestWithdrawal s u p))
    (hwallet : ∀ u, K _ (Adehun.ensureWallet u)) : ProviderRequests K where
  ensureWallet := hwallet
  fund := h.requestWalletFund hp
  withdrawal := hwithdrawal
  status := h.getWithdrawal hp
  event _ _ _ he := h.webhookHandler hp he

theorem requests_of_parts (hp : ProviderParts K)
    (hwallet : ∀ u, K _ (Adehun.ensureWallet u)) : ProviderRequests K :=
  h.requests_of_records hp.toProviderRecords (h.requestWithdrawal hp) hwallet

theorem requests_of_writes (hp : ProviderWrites K) (hwallet : ∀ u, K _ (Adehun.ensureWallet u)) :
    ProviderRequests K :=
  h.requests_of_parts (h.parts hp) hwallet

theorem providerRequests (hp : ProviderSide K) (hwallet : ∀ u, K _ (Adehun.ensureWallet u)) :
    ProviderRequests K :=
  h.requests_of_writes hp.writes hwallet

theorem assignStatus (ha : ∀ id s, K Unit (assign .agreement id (setStatus s))) (a : Agreement)
    (s : AgreementStatus) : K _ (assignStatus a s) :=
  h.ite (h.ret _) (ha _ _)

theorem prepareRelease (ha : ∀ id s, K Unit (assign .agreement id (setStatus s))) (a : Id) :
    K _ (prepareRelease a) := by
  refine h.bind (h.getEscrowContext a) fun context => h.bind (h.get .agreement a) fun found => ?_
  cases found with
  | none => exact h.raise _
  | some agreement =>
      exact h.bind (h.raiseIf _ _) fun _ => h.bind (h.raiseIf _ _) fun _ =>
        h.bind (h.assignStatus ha _ _) fun _ => h.ret _

theorem prepareRefund (ha : ∀ id s, K Unit (assign .agreement id (setStatus s))) (a : Id) :
    K _ (prepareRefund a) := by
  refine h.bind (h.getEscrowContext a) fun context => h.bind (h.get .agreement a) fun found => ?_
  cases found with
  | none => exact h.raise _
  | some agreement =>
      exact h.bind (h.raiseIf _ _) fun _ => h.bind (h.assignStatus ha _ _) fun _ => h.ret _

/-- What follows a movement of escrow. -/
theorem tellBoth (a u v : Id) (type : NotificationType) (title m m' : String) {β : Type}
    (b : β) : K _ (do
      Adehun.invalidateAgreementCache a
      Adehun.notify u type title (pure m)
      Adehun.notify v type title (pure m')
      pure b : App β) :=
  h.bind (h.invalidateAgreementCache a) fun _ =>
    h.bind (h.notify u type title (h.ret m)) fun _ =>
      h.bind (h.notify v type title (h.ret m')) fun _ => h.ret b

/-- A release, by its preparation and its movement. -/
theorem performEscrowRelease (ha : ∀ id s, K Unit (assign .agreement id (setStatus s)))
    (hr : ∀ a d b amount description, K _ (releaseEscrow a d b amount description))
    (a : Id) : K _ (performEscrowRelease a) :=
  h.bind (h.prepareRelease ha a) fun _ => h.bind (hr _ _ _ _ _) fun _ =>
    h.tellBoth _ _ _ _ _ _ _ _

theorem performEscrowRefund (ha : ∀ id s, K Unit (assign .agreement id (setStatus s)))
    (hr : ∀ a d amount description, K _ (refundEscrow a d amount description))
    (a : Id) : K _ (performEscrowRefund a) :=
  h.bind (h.prepareRefund ha a) fun _ => h.bind (hr _ _ _ _) fun _ =>
    h.tellBoth _ _ _ _ _ _ _ _

/-- The rows of a dispute, by the writes to its table and the agreement. -/
theorem raiseDisputeRows (ha : ∀ id s, K Unit (assign .agreement id (setStatus s)))
    (hd : ∀ r : Dispute, r.status = .open → K Unit (add .dispute r)) (a : Agreement)
    (p u o : Id) (data : DisputeCreateRequest) : K _ (raiseDisputeRows a p u o data) := by
  have hevidence : ∀ id, K _ (Adehun.addEvidence id p data.files) := fun id =>
    h.bind (h.forEach (fun f => h.bind h.fresh fun _ =>
      h.bind (h.stages (.insert .assetFile _) rfl rfl) fun _ => h.bind h.flush fun _ =>
        h.bind h.fresh fun _ => h.stages (.insert .asset _) rfl rfl) _) fun _ => h.flush
  refine h.bind h.fresh fun id => h.bind (hd _ rfl) fun _ => h.bind h.flush fun _ => ?_
  have hrest : ∀ _ : Unit, K _ (do
      Adehun.setAgreementStatus a .disputed
      Adehun.commit
      let _ ← Adehun.refresh .dispute id
      pure id : App Id) := fun _ =>
    h.bind (h.bind (h.assignStatus ha _ _) fun _ => h.flush) fun _ => h.bind h.commit fun _ =>
      h.bind (h.refresh .dispute _) fun _ => h.ret _
  exact h.ite (hrest ()) (h.bind (hevidence id) hrest)

theorem raiseDisputeOrNot {a : Agreement} {p u o : Id} {data : DisputeCreateRequest}
    (hrows : K Id (Adehun.raiseDisputeRows a p u o data)) :
    K _ (raiseDisputeOrNot a p u o data) := by
  refine h.bind (h.attempt hrows) fun raised => ?_
  cases raised with
  | error e => exact h.bind h.rollback fun _ => h.ret _
  | ok id => exact h.ret _

omit h in
/-- What a failure is turned into can wait until it is rolled back. -/
theorem raiseDispute_rollback {α : Type} (a : Agreement) (p u o : Id)
    (data : DisputeCreateRequest) (e₁ e₂ : Exn) (f : Id → App α) :
    (do
      match ← Prog.attempt (Adehun.raiseDisputeRows a p u o data) with
      | .error .integrity => do
          Adehun.rollback
          .raise e₁
      | .error _ => do
          Adehun.rollback
          .raise e₂
      | .ok id => f id) = (do
        match ← Adehun.raiseDisputeOrNot a p u o data with
        | .error .integrity => .raise e₁
        | .error _ => .raise e₂
        | .ok id => f id) := by
  simp only [Adehun.raiseDisputeOrNot, bind_assoc]
  congr 1
  funext raised
  cases raised with
  | error e => cases e <;> simp only [bind_assoc, pure_bind]
  | ok id => rfl

/-- All the writes on this side, where none of them matters by itself. -/
theorem escrowSide (hfree : ∀ d : Write adehun,
      d.key.table = Table.agreement ∨ d.key.table = Table.dispute →
      K Unit (.perform (.stage d)))
    (hentry : ∀ a, K _ (Adehun.applyEntry a))
    (htransfer : ∀ g d c, K _ (Adehun.applyTransfer g d c)) : EscrowSide K where
  newAgreement _ _ := hfree _ (Or.inl rfl)
  agreementStatus _ _ := hfree _ (Or.inl rfl)
  underReview _ := hfree _ (Or.inr rfl)
  resolution _ _ _ _ := hfree _ (Or.inr rfl)
  raised _ _ _ _ _ _ := h.raiseDisputeOrNot
    (h.raiseDisputeRows (fun _ _ => hfree _ (Or.inl rfl)) (fun _ _ => hfree _ (Or.inr rfl))
      _ _ _ _ _)
  lockEscrow _ _ _ _ _ _ := hentry _
  release := h.performEscrowRelease (fun _ _ => hfree _ (Or.inl rfl))
    fun _ _ _ _ _ => htransfer _ _ _
  refund := h.performEscrowRefund (fun _ _ => hfree _ (Or.inl rfl)) fun _ _ _ _ => hentry _

/-- All the writes on this side, where the entries are made and other rows than
those of payments matter to nobody. -/
theorem escrowSide_of_entries
    (hadd : ∀ (t : Table) (r : t.Row), t ≠ .transaction → t ≠ .paystackTransaction →
      K Unit (add t r))
    (hassign : ∀ (t : Table) (id : Id) (f : Patch adehun t), t ≠ .transaction →
      t ≠ .paystackTransaction → K Unit (assign t id f))
    (hentry : ∀ a : EntryArgs, a.Escrow → K _ (Adehun.applyEntry a))
    (htransfer : ∀ g (d c : LedgerLeg), d.entryType = .escrowReleaseOut →
      c.entryType = .escrowReleaseIn → K _ (Adehun.applyTransfer g d c)) : EscrowSide K where
  newAgreement _ _ := hadd _ _ (by decide) (by decide)
  agreementStatus _ _ := hassign _ _ _ (by decide) (by decide)
  underReview _ := hassign _ _ _ (by decide) (by decide)
  resolution _ _ _ _ := hassign _ _ _ (by decide) (by decide)
  raised _ _ _ _ _ _ := h.raiseDisputeOrNot
    (h.raiseDisputeRows (fun _ _ => hassign _ _ _ (by decide) (by decide))
      (fun _ _ => hadd _ _ (by decide) (by decide)) _ _ _ _ _)
  lockEscrow _ _ _ _ _ _ := hentry _ (Or.inl ⟨rfl, _, rfl⟩)
  release := h.performEscrowRelease (fun _ _ => hassign _ _ _ (by decide) (by decide))
    fun _ _ _ _ _ => htransfer _ _ _ rfl rfl
  refund := h.performEscrowRefund (fun _ _ => hassign _ _ _ (by decide) (by decide))
    fun _ _ _ _ => hentry _ (Or.inr ⟨rfl, _, rfl⟩)

/-! ### The agreement service -/

theorem inviteParticipant (role : ParticipantRole) (u : Id) (email : String) (a : Id) :
    K _ (inviteParticipant role u email a) :=
  h.bind h.fresh fun _ => h.bind h.fresh fun _ => h.bind h.now fun _ =>
    h.bind (h.stages _ rfl rfl) fun _ => h.bind h.flush fun _ =>
      h.bind (h.reads _ trivial (Command.store _ _)) fun _ => h.ret _

theorem addConditions (a u v : Id) (cs : List ConditionCreate) :
    K _ (addConditions a u v cs) :=
  h.forEach (fun _ => h.bind h.fresh fun _ =>
    h.bind (h.stages (.insert .condition _) rfl rfl) fun _ => h.ret _) cs

theorem joinAs (p : Option AgreementParticipant) (a u : Id) (role : ParticipantRole)
    (s : InvitationStatus) : K _ (joinAs p a u role s) := by
  cases p with
  | none => exact h.bind h.fresh fun _ => h.bind (h.stages _ rfl rfl) fun _ => h.ret _
  | some p => exact h.bind (h.stages _ rfl rfl) fun _ => h.ret _

theorem updateAgreementConditionsWithInvitation (a v p : Id) :
    K _ (updateAgreementConditionsWithInvitation a v p) :=
  h.bind (h.loadAll .condition _) fun _ =>
    h.bind (h.forEach (fun c : Condition => h.stages (.update .condition c.id _) rfl rfl) _) fun _ =>
      h.ite (h.ret _) h.commit

/-- What a creation answers with. -/
theorem creationResponse (a : Id) (conditions : List Condition) : K _ (do
    match ← Adehun.getById a with
    | none => .raise agreementNotFound
    | some found => do
        let response ← Adehun.toAgreementResponse found conditions.length 0 none false
        let shown ← Prog.forEach Adehun.conditionResponse conditions
        pure (response, shown) : App (AgreementResponse × List ConditionResponse)) := by
  refine h.bind (h.getById _) fun found => ?_
  cases found with
  | none => exact h.raise _
  | some found =>
      exact h.bind (h.toAgreementResponse _ _ _ _ _) fun _ =>
        h.bind (h.forEach h.conditionResponse _) fun _ => h.ret _

section Creating

variable (hnew : ∀ r : Agreement, r.status = .pending → K Unit (add .agreement r))

include hnew

theorem createAgreementRows (u : Id) (data : AgreementCreate) :
    K _ (createAgreementRows u data) := by
  refine h.bind h.fresh fun agreementId => h.bind (hnew _ rfl) fun _ =>
    h.bind h.flush fun _ => h.bind h.fresh fun creatorId =>
      h.bind (h.stages _ rfl rfl) fun _ => h.bind h.flush fun _ => ?_
  refine h.bind (h.inviteParticipant _ _ _ _) fun invitation => ?_
  refine h.bind (h.addConditions _ _ _ _) fun ids => h.bind h.commit fun _ => ?_
  refine h.bind (h.forEach (fun id => h.refresh .condition id) ids) fun conditions => ?_
  refine h.bind (h.getParticipantForUser _ _) fun found => ?_
  cases found with
  | some _ => exact h.creationResponse agreementId conditions
  | none =>
      exact h.bind h.fresh fun _ => h.bind (h.stages _ rfl rfl) fun _ => h.bind h.commit fun _ =>
        h.bind (h.refresh .agreementParticipant _) fun _ =>
          h.creationResponse agreementId conditions

theorem createAgreement (u : Id) (email : String) (data : AgreementCreate) :
    K _ (createAgreement u email data) := by
  refine h.bind (h.raiseIf _ _) fun _ =>
    h.bind (h.attempt (h.createAgreementRows hnew u data)) fun created => ?_
  cases created with
  | ok c => exact h.ret c
  | error e => exact h.bind h.rollback fun _ => h.raise _

theorem createAgreementRoute (u : Id) (data : AgreementCreate) :
    K _ (createAgreementRoute u data) := by
  refine h.closing (h.bind (h.authenticate u) fun _ =>
    h.bind (h.createAgreement hnew _ _ _) fun _ => h.bind (h.loadFirst .user _) fun invited =>
      h.bind (h.getInvitationByAgreementId _ _) fun _ => ?_)
  have hrest : ∀ (agreement : AgreementResponse) (conditions : List ConditionResponse),
      K _ (do
        let user ← Adehun.currentUser u
        Adehun.sendToUser user.id
        pure { statusCode := 201, body := .agreementCreated agreement conditions } :
          App Response) :=
    fun _ _ => h.bind (h.currentUser u) fun _ => h.bind (h.sendToUser _) fun _ => h.ret _
  cases invited with
  | none => exact hrest _ _
  | some v =>
      refine h.bind (h.currentUser u) fun _ => h.ite ?_ (hrest _ _)
      exact h.bind (h.notify _ _ _ (h.byName _ _)) fun _ =>
        h.bind (h.sendToUser _) fun _ => hrest _ _

end Creating

variable (hs : EscrowSide K)

include hs

theorem settleAcceptance (a : Id) : K _ (settleAcceptance a) := by
  refine h.bind (h.get .agreement a) fun found => ?_
  cases found with
  | none => exact h.raise _
  | some agreement =>
      exact h.bind (h.getParticipantsForAgreement a) fun _ =>
        h.bind (h.assignStatus hs.agreementStatus _ _) fun _ => h.bind h.commit fun _ =>
          h.refresh .agreement a

theorem acceptAgreement (a u : Id) (email : String) : K _ (acceptAgreement a u email) := by
  refine h.bind (h.getInvitationByAgreementId _ _) fun found => ?_
  cases found with
  | none => exact h.raise _
  | some invitation =>
      refine h.bind (h.getParticipantForUser _ _) fun participant =>
        h.ite (h.getAgreement _ _) (h.bind (h.get .agreement a) fun found => ?_)
      cases found with
      | none => exact h.raise _
      | some existing =>
          exact h.bind (h.raiseIf _ _) fun _ => h.bind (h.raiseIf _ _) fun _ =>
            h.bind (h.joinAs _ _ _ _ _) fun _ => h.bind (h.stages _ rfl rfl) fun _ =>
              h.bind h.commit fun _ => h.bind (h.refresh .agreementParticipant _) fun _ =>
                h.bind (h.settleAcceptance hs a) fun _ => h.bind (h.cacheDelete _) fun _ =>
                  h.bind (h.attributes .invitation _) fun _ =>
                    h.bind (h.updateAgreementConditionsWithInvitation _ _ _) fun _ =>
                      h.getAgreement _ _

theorem cancelAgreement (a u : Id) : K _ (cancelAgreement a u) := by
  refine h.bind (h.get .agreement a) fun found => ?_
  cases found with
  | none => exact h.raise _
  | some agreement =>
      refine h.bind (h.getParticipantForUser _ _) fun found => ?_
      cases found with
      | none => exact h.raise _
      | some p =>
          exact h.ite (h.getAgreement _ _) (h.bind (h.raiseIf _ _) fun _ =>
            h.bind (h.assignStatus hs.agreementStatus _ _) fun _ => h.bind h.commit fun _ =>
              h.bind (h.refresh .agreement a) fun _ =>
                h.bind (h.invalidateAgreementCache a) fun _ => h.getAgreement _ _)

theorem rejectAgreement (a u : Id) (email : String) : K _ (rejectAgreement a u email) := by
  refine h.bind (h.get .agreement a) fun found => ?_
  cases found with
  | none => exact h.raise _
  | some existing =>
      refine h.bind (h.raiseIf _ _) fun _ => h.bind (h.raiseIf _ _) fun _ =>
        h.bind (h.getInvitationByAgreementId _ _) fun found => ?_
      cases found with
      | none => exact h.raise _
      | some invitation =>
          refine h.bind (h.getParticipantForUser _ _) fun participant =>
            h.ite (h.getAgreement _ _) (h.bind (h.joinAs _ _ _ _ _) fun _ =>
              h.bind (h.stages _ rfl rfl) fun _ => h.bind h.commit fun _ =>
                h.bind (h.refresh .agreementParticipant _) fun _ =>
                  h.bind (h.get .agreement a) fun found => ?_)
          cases found with
          | none => exact h.raise _
          | some agreement =>
              exact h.bind (h.assignStatus hs.agreementStatus _ _) fun _ =>
                h.bind h.commit fun _ => h.bind (h.refresh .agreement a) fun _ =>
                  h.bind (h.cacheDelete _) fun _ => h.getAgreement _ _

/-! ### The dispute service -/

theorem raiseDispute (a u : Id) (data : DisputeCreateRequest) :
    K _ (raiseDispute a u data) := by
  refine h.bind (h.get .agreement a) fun found => ?_
  cases found with
  | none => exact h.raise _
  | some agreement =>
      refine h.bind ?_ fun participant => h.bind (h.loadFirst .dispute _) fun active =>
        h.bind (h.raiseIf _ _) fun _ => ?_
      · refine h.bind (h.getParticipantForUser a u) fun found => ?_
        cases found with
        | none => exact h.raise _
        | some p => exact h.bind (h.raiseIf _ _) fun _ => h.ret p
      · -- past this check the agreement was active
        by_cases hactive : agreement.status = .active
        · refine h.bind (h.raiseIf _ _) fun _ =>
            h.bind (h.getParticipantsForAgreement a) fun participants => ?_
          split
          · exact h.raise _
          · next other _ =>
              have hraised : K DisputeResponse (do
                  match ← Adehun.raiseDisputeOrNot agreement participant.id u
                      other.userId data with
                  | .error .integrity => .raise disputeAlreadyExists
                  | .error _ => .raise (.app .disputeCreation "Failed to raise dispute")
                  | .ok id => do
                      Adehun.cacheDelete (agreementCacheKeys a [u, other.userId])
                      Adehun.toDisputeResponse id) := by
                refine h.bind (hs.raised _ _ _ _ _ hactive) fun raised => ?_
                split
                · exact h.raise _
                · exact h.raise _
                · exact h.bind (h.cacheDelete _) fun _ => h.toDisputeResponse _
              rw [← raiseDispute_rollback] at hraised
              exact hraised
        · simp only [Adehun.raiseIf, ne_eq, hactive, not_false_eq_true, if_true]
          exact h.raise _

theorem setAgreementStatus (a : Agreement) (s : AgreementStatus) :
    K _ (setAgreementStatus a s) :=
  h.bind (h.assignStatus hs.agreementStatus a s) fun _ => h.flush

theorem adminMarkUnderReview (d : Id) : K _ (adminMarkUnderReview d) := by
  refine h.bind (h.getDispute d) fun found => ?_
  cases found with
  | none => exact h.raise _
  | some d =>
      exact h.bind (h.raiseIf _ _) fun _ => h.bind (hs.underReview _) fun _ =>
        h.bind h.commit fun _ => h.bind (h.refresh .dispute _) fun _ => h.toDisputeResponse _

omit hs in
/-- A staged resolution committed and shown. -/
theorem saveResolution (d a : Id) : K _ (do
    let saved ← Prog.attempt do
      Adehun.flush
      Adehun.commit
      Adehun.refresh .dispute d
    match saved with
    | .error _ => do
        Adehun.rollback
        .raise (.app .disputeCreation "Failed to resolve dispute")
    | .ok _ => do
        let participants ← Adehun.getParticipantsForAgreement a
        Adehun.cacheDelete (agreementCacheKeys a (participants.map (·.userId)))
        Adehun.toDisputeResponse d : App DisputeResponse) := by
  refine h.bind (h.attempt (h.bind h.flush fun _ => h.bind h.commit fun _ =>
    h.refresh .dispute d)) fun saved => ?_
  cases saved with
  | error e => exact h.bind h.rollback fun _ => h.raise _
  | ok _ =>
      exact h.bind (h.getParticipantsForAgreement _) fun _ =>
        h.bind (h.cacheDelete _) fun _ => h.toDisputeResponse d

theorem adminResolveDispute (d u : Id) (data : DisputeResolveRequest) :
    K _ (adminResolveDispute d u data) := by
  refine h.bind (h.getDispute d) fun found => ?_
  cases found with
  | none => exact h.raise _
  | some dispute =>
      have hrest := fun _ : Unit => h.saveResolution d dispute.agreementId
      refine h.bind (h.raiseIf _ _) fun _ => h.bind h.now fun time =>
        h.bind (hs.resolution _ _ _ _) fun _ => h.bind (h.reads _ trivial trivial) fun found => ?_
      cases found with
      | none => exact hrest ()
      | some agreement => exact h.ite_then (a := ()) (h.setAgreementStatus hs _ _) hrest

/-! ## The requests -/

theorem releaseEscrowIfReady (a : Id) : K _ (releaseEscrowIfReady a) := by
  refine h.bind (h.attempt (h.bind (h.select _) fun funded => ?_)) fun _ => h.ret _
  refine h.ite (h.ret _) (h.bind (h.select _) fun released => h.ite (h.ret _) ?_)
  refine h.bind (h.allConditionsApproved a) fun approved => h.ite (h.ret _) ?_
  exact h.bind (h.getAgreement a none) fun agreement => h.ite (h.ret _)
    (h.bind (hs.release a) fun _ => h.broadcastAgreementUpdate a)

theorem settleDispute (a : Id) (outcome : DisputeResolutionOutcome) :
    K _ (settleDispute a outcome) := by
  cases outcome with
  | favourBeneficiary => exact h.bind (hs.release a) fun _ => h.broadcastAgreementUpdate a
  | favourDepositor => exact h.bind (hs.refund a) fun _ => h.broadcastAgreementUpdate a
  | split => exact h.ret _
  | dismissed => exact h.ret _

omit hs in
theorem handle (hh : ∀ e data hash, K _ (handleEvent e data hash)) (p : WebhookPayload)
    (hash : Nat) : K _ (handle p hash) := by
  unfold Adehun.handle
  split
  · exact hh _ _ _
  · exact hh _ _ _
  · exact h.raise _

omit hs in
/-- A delivery, by how it is handled if it is signed. -/
theorem paystackWebhook_of {signed : Bool} {p : WebhookPayload} {hash : Nat}
    (hh : signed = true → K _ (Adehun.handle p hash)) : K _ (paystackWebhook signed p hash) := by
  refine h.closing ?_
  cases signed with
  | false => exact h.raise _
  | true =>
      refine h.bind (h.raiseIf _ _) fun _ => ?_
      split
      · exact h.ret _
      · exact h.bind (hh rfl) fun outcome =>
          h.bind (h.forEach (fun n => h.notify _ _ _ (h.ret _)) _) fun _ =>
            h.bind (h.sendToEach _) fun _ => h.ret _

omit hs in
theorem paystackWebhook (hh : ∀ e data hash, K _ (handleEvent e data hash)) (signed : Bool)
    (p : WebhookPayload) (hash : Nat) : K _ (paystackWebhook signed p hash) :=
  h.paystackWebhook_of fun _ => h.handle hh p hash

omit hs in
theorem getWallet (hp : Payments K) (u : Id) : K _ (getWallet u) :=
  h.closing (h.bind (h.authenticate u) fun _ =>
    h.bind (h.bind (hp.ensureWallet u) fun _ => h.ret _) fun _ => h.ret _)

omit hs in
theorem getWithdrawalRoute (hp : Payments K) (u : Id) (r : PaystackReference) :
    K _ (getWithdrawalRoute u r) :=
  h.closing (h.bind (h.authenticate u) fun _ => h.bind (hp.status _ _) fun _ => h.ret _)

theorem cancelAgreementRoute (u a : Id) : K _ (cancelAgreementRoute u a) :=
  h.closing (h.bind (h.authenticate u) fun _ => h.bind (h.refuseFunded _ _) fun _ =>
    h.bind (h.cancelAgreement hs _ _) fun _ =>
      h.bind (h.announce _ _ _ _ (h.byName _ _)) fun _ => h.ret _)

omit hs in
theorem addConditionRoute (u a : Id) (data : ConditionCreate) :
    K _ (addConditionRoute u a data) := by
  refine h.closing (h.bind (h.authenticate u) fun _ => h.bind (h.get .agreement a) fun found => ?_)
  cases found with
  | none => exact h.raise _
  | some _ =>
      exact h.bind (h.getParticipantForUser _ _) fun _ => h.bind (h.raiseIf _ _) fun _ =>
        h.bind (h.addCondition _ _ _) fun _ => h.bind (h.currentUser u) fun _ =>
          h.bind (h.notifyAgreementParticipants _ _ _ _ _) fun _ => h.ret _

theorem approveConditionRoute (u c : Id) : K _ (approveConditionRoute u c) :=
  h.closing (h.bind (h.authenticate u) fun _ => h.bind (h.approveCondition c _) fun _ =>
    h.bind (h.currentUser u) fun _ =>
      h.bind (h.notifyAgreementParticipants _ _ _ _ _) fun _ =>
        h.bind (h.currentUser u) fun _ => h.bind (h.releaseEscrowIfReady hs _) fun _ =>
          h.ret _)

omit hs in
theorem rejectConditionRoute (u c : Id) (reason : String) :
    K _ (rejectConditionRoute u c reason) :=
  h.closing (h.bind (h.authenticate u) fun _ => h.bind (h.rejectCondition c _ _) fun _ =>
    h.bind (h.currentUser u) fun _ =>
      h.bind (h.notifyAgreementParticipants _ _ _ _ _) fun _ => h.ret _)

theorem raiseDisputeRoute (u a : Id) (data : DisputeCreateRequest) :
    K _ (raiseDisputeRoute u a data) := by
  refine h.closing (h.bind (h.authenticate u) fun _ =>
    h.bind (h.raiseDispute hs _ _ _) fun dispute => ?_)
  dsimp only
  split
  · exact h.bind (h.broadcastDisputeChange _) fun _ => h.ret _
  · exact h.bind (h.notify _ _ _ (h.byName _ _)) fun _ =>
      h.bind (h.broadcastDisputeChange _) fun _ => h.ret _

theorem markUnderReviewRoute (u d : Id) : K _ (markUnderReviewRoute u d) :=
  h.closing (h.bind (h.authenticate u) fun _ => h.bind (h.requireAdmin _) fun _ =>
    h.bind (h.adminMarkUnderReview hs d) fun _ =>
      h.bind (h.notifyEach _ _ _ (h.ret _)) fun _ => h.ret _)

theorem resolveDisputeRoute (u d : Id) (r : DisputeResolveRequest) :
    K _ (resolveDisputeRoute u d r) :=
  h.closing (h.bind (h.authenticate u) fun _ => h.bind (h.requireAdmin _) fun _ =>
    h.bind (h.adminResolveDispute hs d _ r) fun _ => h.bind (h.select _) fun _ =>
      h.bind (h.select _) fun _ =>
        h.bind (h.attempt (h.ite (h.settleDispute hs _ _) (h.ret _))) fun _ =>
          h.bind (h.notifyEach _ _ _ (h.ret _)) fun _ =>
            h.bind (h.broadcastDisputeChange _) fun _ => h.ret _)

end Plain

theorem requireAdmin_cases (user : User) :
    requireAdmin user = .ret () ∨ ∃ e, requireAdmin user = .raise e := by
  unfold requireAdmin raiseIf
  split
  · exact Or.inr ⟨_, rfl⟩
  · exact Or.inl rfl

namespace Keyed

variable {K : Option Id → (α : Type) → App α → Prop} {R : Option KeyName → App Response → Prop}
  (hb : Keyed K R) (h : ∀ record, Plain (K record))

include hb h

omit h in
/-- A route under an idempotency key, by what it runs. -/
theorem route {s : Settings} {u : Id} {key : Option String} {endpoint hash : String}
    {run : Option Id → App Response} (hrun : ∀ record, K record _ (run record)) :
    R (key.map (KeyName.mk u endpoint)) (Adehun.closing do
      let _ ← Adehun.authenticate u
      idempotent s u key endpoint hash run) :=
  hb.keyed s u key endpoint hash (fun _ => .ret ()) run (fun _ => Or.inl rfl) hrun

theorem fundWallet (hp : ∀ record, Payments (K record)) (s : Settings) (u : Id)
    (key : Option String) (data : WalletCreate) :
    R (key.map (KeyName.mk u "POST /wallet/fund")) (fundWallet s u key data) :=
  hb.route fun record => (h record).bind ((h record).currentUser u) fun _ =>
    (h record).bind ((hp record).fund _ _ _) fun _ => (h record).bind (hb.bound _ _) fun _ =>
      (h record).ret _

theorem withdraw (hp : ∀ record, Payments (K record)) (s : Settings) (u : Id)
    (key : Option String) (p : WithdrawalCreate) :
    R (key.map (KeyName.mk u "POST /wallet/withdraw")) (withdraw s u key p) :=
  hb.route fun record => (h record).bind ((h record).currentUser u) fun _ =>
    (h record).bind ((hp record).withdrawal _ _ _) fun _ =>
      (h record).bind (hb.bound _ _) fun _ => (h record).ret _

variable (hs : ∀ record, EscrowSide (K record))

include hs

theorem fundAgreement (s : Settings) (u : Id) (key : Option String) (a : Id) :
    R (key.map (KeyName.mk u "POST /agreements/\x7bid\x7d/fund")) (fundAgreement s u key a) := by
  refine hb.route fun record => ?_
  have h := h record
  refine h.bind (h.currentUser u) fun _ => h.bind (h.prepareEscrowFunding _ _) fun _ =>
    h.bind (h.select _) fun _ => h.bind (h.raiseIf _ _) fun _ =>
      h.bind (h.currentUser u) fun _ => h.bind ((hs record).lockEscrow _ _ _ _ _ _) fun _ => ?_
  exact h.bind (h.notify _ _ _ (h.byName _ _)) fun _ => h.bind (h.getAgreement _ _) fun _ =>
    h.bind (h.currentUser u) fun _ => h.bind (h.sendToUser _) fun _ =>
      h.bind (h.sendToUser _) fun _ => h.bind (h.attributes .transaction _) fun _ =>
        h.bind (hb.bound _ _) fun _ => h.bind (h.attributes .transaction _) fun _ =>
          h.bind (h.attributes .wallet _) fun _ => h.ret _

theorem releaseAgreementEscrow (s : Settings) (u : Id) (key : Option String) (a : Id) :
    R (key.map (KeyName.mk u "POST /agreements/\x7bid\x7d/release"))
      (releaseAgreementEscrow s u key a) := by
  refine hb.route fun record => ?_
  have h := h record
  refine h.bind (h.getEscrowContext a) fun _ => h.bind (h.currentUser u) fun _ =>
    h.bind (h.raiseIf _ _) fun _ => h.bind (h.select _) fun _ =>
      h.bind (h.raiseIf _ _) fun _ => h.bind (h.allConditionsApproved a) fun _ =>
        h.bind (h.raiseIf _ _) fun _ => h.bind ((hs record).release a) fun _ => ?_
  exact h.bind (h.broadcastAgreementUpdate a) fun _ =>
    h.bind (h.attributes .transaction _) fun _ => h.bind (hb.bound _ _) fun _ =>
      h.bind (h.attributes .transaction _) fun _ => h.ret _

theorem refundAgreementEscrow (s : Settings) (u : Id) (key : Option String) (a : Id) :
    R (key.map (KeyName.mk u "POST /agreements/\x7bid\x7d/refund"))
      (refundAgreementEscrow s u key a) := by
  refine hb.keyed _ _ _ _ _ _ _ requireAdmin_cases fun record => ?_
  have h := h record
  refine h.bind (h.select _) fun _ => h.bind (h.raiseIf _ _) fun _ =>
    h.bind (h.select _) fun _ => h.bind (h.raiseIf _ _) fun _ =>
      h.bind ((hs record).refund a) fun _ => ?_
  exact h.bind (h.broadcastAgreementUpdate a) fun _ =>
    h.bind (h.attributes .transaction _) fun _ => h.bind (hb.bound _ _) fun _ =>
      h.bind (h.attributes .transaction _) fun _ => h.bind (h.attributes .wallet _) fun _ =>
        h.ret _

theorem acceptAgreementRoute (s : Settings) (u : Id) (key : Option String) (a : Id) :
    R (key.map (KeyName.mk u "POST /agreements/\x7bid\x7d/accept"))
      (acceptAgreementRoute s u key a) := by
  refine hb.route fun record => ?_
  have h := h record
  refine h.bind (h.currentUser u) fun _ => h.bind (h.acceptAgreement (hs record) _ _ _) fun _ =>
    h.bind (h.notifyEach _ _ _ (h.byName _ _)) fun _ => ?_
  exact h.ite_then (a := ()) (h.notifyEach _ _ _ (h.ret _)) fun _ =>
    h.bind (h.sendToEach _) fun _ => h.ret _

theorem rejectAgreementRoute (s : Settings) (u : Id) (key : Option String) (a : Id) :
    R (key.map (KeyName.mk u "POST /agreements/\x7bid\x7d/reject"))
      (rejectAgreementRoute s u key a) := by
  refine hb.route fun record => ?_
  have h := h record
  exact h.bind (h.refuseFunded _ _) fun _ => h.bind (h.currentUser u) fun _ =>
    h.bind (h.rejectAgreement (hs record) _ _ _) fun _ =>
      h.bind (h.notifyEach _ _ _ (h.byName _ _)) fun _ =>
        h.bind (h.sendToEach _) fun _ => h.ret _

/-- A request has the property, by the key it runs under, and a delivery if
it is handled so. -/
theorem handler (hp : ∀ record, Payments (K record)) (s : Settings) (r : Request)
    (hw : ∀ signed p hash, r = .webhook signed p hash → R none (paystackWebhook signed p hash)) :
    R r.reserves (handler s r) := by
  have h' := h none
  have hs' := hs none
  cases r with
  | getWallet u => exact hb.plain _ (h'.getWallet (hp none) u)
  | fundWallet u key data => exact hb.fundWallet h hp s u key data
  | withdraw u key p => exact hb.withdraw h hp s u key p
  | getWithdrawal u r => exact hb.plain _ (h'.getWithdrawalRoute (hp none) u r)
  | webhook signed p hash => exact hw signed p hash rfl
  | fundAgreement u key a => exact hb.fundAgreement h hs s u key a
  | release u key a => exact hb.releaseAgreementEscrow h hs s u key a
  | refund u key a => exact hb.refundAgreementEscrow h hs s u key a
  | createAgreement u data => exact hb.plain _ (h'.createAgreementRoute hs'.newAgreement u data)
  | acceptAgreement u key a => exact hb.acceptAgreementRoute h hs s u key a
  | rejectAgreement u key a => exact hb.rejectAgreementRoute h hs s u key a
  | cancelAgreement u a => exact hb.plain _ (h'.cancelAgreementRoute hs' u a)
  | addCondition u a data => exact hb.plain _ (h'.addConditionRoute u a data)
  | approveCondition u c => exact hb.plain _ (h'.approveConditionRoute hs' u c)
  | rejectCondition u c reason => exact hb.plain _ (h'.rejectConditionRoute u c reason)
  | raiseDispute u a data => exact hb.plain _ (h'.raiseDisputeRoute hs' u a data)
  | markUnderReview u d => exact hb.plain _ (h'.markUnderReviewRoute hs' u d)
  | resolveDispute u d r => exact hb.plain _ (h'.resolveDisputeRoute hs' u d r)

end Keyed

/-- Every request has the property, by the key it runs under. -/
theorem Books.handler {K : Option Id → (α : Type) → App α → Prop}
    {R : Option KeyName → App Response → Prop} (hb : Books K R) (h : ∀ record, Plain (K record))
    (hs : ∀ record, EscrowSide (K record)) (hp : ∀ record, ProviderRequests (K record))
    (s : Settings) (r : Request) : R r.reserves (Adehun.handler s r) :=
  hb.toKeyed.handler h hs (fun record => (hp record).toPayments) s r
    fun signed p hash _ => hb.webhook signed p hash

namespace Booking

variable {K : (α : Type) → App α → Prop}

theorem handleEvent (h : Booking K .webhookEvent) {e : EventType} {data : WebhookData}
    (hash : Nat) (hp : ∀ p, webhookHandler e data = some p → K WebhookOutcome p) :
    K _ (handleEvent e data hash) := by
  refine h.bind (h.claim _ _ _ _) fun claimed => h.ite (h.ret _) ?_
  split
  · exact h.bind (h.mark _ _) fun _ => h.ret _
  · next p hp' =>
      refine h.bind (h.attempt (hp p hp')) fun outcome => ?_
      split
      · exact h.bind (h.markFailed _ _) fun _ => h.ret _
      · exact h.bind (h.markFailed _ _) fun _ => h.ret _
      · exact h.ite (h.bind (h.markFailed _ _) fun _ => h.ret _)
          (h.bind (h.mark _ _) fun _ => h.ret _)

/-- A whole route under an idempotency key. -/
theorem route (h : Booking K .idempotencyKey) (s : Settings) (u : Id) (key : Option String)
    (endpoint hash : String) {allow : User → App Unit} {run : Option Id → App Response}
    (hallow : ∀ user, allow user = .ret () ∨ ∃ e, allow user = .raise e)
    (hrun : ∀ record, K _ (run record)) :
    K _ (Adehun.closing do
      let user ← Adehun.authenticate u
      allow user
      Adehun.idempotent s u key endpoint hash run) :=
  h.closing (h.bind (h.authenticate u) fun user => by
    refine h.bind ?_ fun _ => h.idempotent _ _ _ _ _ hrun
    rcases hallow user with hret | ⟨e, hraise⟩
    · rw [hret]
      exact h.ret ()
    · rw [hraise]
      exact h.raise e)

end Booking

namespace Routine

variable {K : (α : Type) → App α → Prop} (h : Routine K)

include h

theorem keepsBooks (hp : ProviderRequests K) : Books (fun _ => K) fun _ p => K _ p where
  plain _ hp := hp
  webhook := h.paystackWebhook fun e data hash =>
    (h.booking rfl).handleEvent hash (hp.event e data)
  keyed s u key endpoint hash _ _ hallow := (h.booking rfl).route s u key endpoint hash hallow
  bound := (h.booking rfl).bindReference

theorem handler (hs : EscrowSide K) (hp : ProviderRequests K) (s : Settings) (r : Request) :
    K _ (handler s r) :=
  (h.keepsBooks hp).handler (fun _ => h.toPlain) (fun _ => hs) (fun _ => hp) s r

/-- What a property needs of the writes of a request for the movements of
money and the agreement and dispute services: rows added, columns assigned (of
an entry, the status alone; of a dispute, a claim for review or a resolution). -/
theorem escrowSide_of_rulings (hnew : ∀ u, K _ (Adehun.ensureWallet u))
    (hadd : ∀ (t : Table) (r : t.Row), K Unit (add t r))
    (hassign : ∀ (t : Table) (id : Id) (p : Patch adehun t), t ≠ .transaction → t ≠ .dispute →
      K Unit (assign t id p))
    (hreview : ∀ id, K Unit (assign .dispute id (setDisputeStatus .underReview)))
    (hresolve : ∀ id r u time, K Unit (assign .dispute id (setResolution r u time))) :
    EscrowSide K ∧ ∀ a, K _ (Adehun.applyEntry a) := by
  have hentry : ∀ a, K _ (Adehun.applyEntry a) := fun a =>
    h.applyEntry hnew (h.lockedEntry (fun _ _ _ => hassign .wallet _ _ (by decide) (by decide))
      fun _ _ => hadd _ _)
  have htransfer : ∀ g d c, K _ (Adehun.applyTransfer g d c) := fun g d c =>
    h.applyTransfer hnew (h.lockedTransfer
      (fun _ _ _ => hassign .wallet _ _ (by decide) (by decide)) fun _ _ => hadd _ _)
  have hagreement : ∀ id s, K _ (assign .agreement id (setStatus s)) :=
    fun _ _ => hassign .agreement _ _ (by decide) (by decide)
  have hescrow : EscrowSide K :=
    { newAgreement := fun _ _ => hadd _ _
      agreementStatus := hagreement
      underReview := hreview
      resolution := hresolve
      raised := fun _ _ _ _ _ _ => h.raiseDisputeOrNot
        (h.raiseDisputeRows hagreement (fun _ _ => hadd _ _) _ _ _ _ _)
      lockEscrow := fun _ _ _ _ _ _ => hentry _
      release := h.performEscrowRelease hagreement fun _ _ _ _ _ => htransfer _ _ _
      refund := h.performEscrowRefund hagreement fun _ _ _ _ => hentry _ }
  exact ⟨hescrow, hentry⟩

/-- A property of programs that every write of a request has. -/
theorem handler_of_rulings (hnew : ∀ u, K _ (Adehun.ensureWallet u))
    (hadd : ∀ (t : Table) (r : t.Row), K Unit (add t r))
    (hassign : ∀ (t : Table) (id : Id) (p : Patch adehun t), t ≠ .transaction → t ≠ .dispute →
      K Unit (assign t id p))
    (hreview : ∀ id, K Unit (assign .dispute id (setDisputeStatus .underReview)))
    (hresolve : ∀ id r u time, K Unit (assign .dispute id (setResolution r u time)))
    (hstatus : ∀ id s time, K Unit (assign .transaction id (setEntryStatus s time)))
    (hintent : ∀ d : Write adehun, d.key.table = Table.paystackTransaction →
      K Unit (.perform (.stage d)))
    (htransfer : ∀ n code r reason, K _ (initiateTransfer n code r reason))
    (settings : Settings) (r : Request) : K _ (Adehun.handler settings r) := by
  obtain ⟨hescrow, hentry⟩ := h.escrowSide_of_rulings hnew hadd hassign hreview hresolve
  have hprovider : ProviderSide K :=
    { transfer := htransfer
      intent := hintent
      entryStatus := hstatus
      entry := fun a _ _ => hentry a }
  exact h.handler hescrow (h.providerRequests hprovider hnew) settings r

end Routine

end Adehun
