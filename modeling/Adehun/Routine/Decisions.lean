import Adehun.Routine.Pages

/-!
# The requests and their checks

Every operation on agreements and disputes, from what it has been told to
what it commits, and then every request: whatever it is answered, it commits
nothing but deeds.
-/

namespace Adehun

open Sessions

/-! ## The services -/

section Services

variable {ns : List Note} {a : Id}

/-- Money of the agreement is in escrow, or was. -/
def Funded (ns : List Note) (a : Id) : Prop :=
  ∃ locked released, .ledger locked released ∈ ns ∧ a ∈ locked

theorem leads_performEscrowRelease (hf : Funded ns a) :
    Leads (Knows ns) (performEscrowRelease a) := by
  obtain ⟨locked, released, hledger, hfunded⟩ := hf
  have hk := steady_knows ns
  have hprepared : Takes (Knows ns) (prepareRelease a) fun _ => Settling a .completed [] := by
    refine hk.bind (hk.routine.getEscrowContext a) fun context => ?_
    refine takes_getAttached (Diary.Runs.raise fun p hp => hp.any .nothing) ?_
    rintro r rfl
    refine (steady_knows _).check fun hdisputed => (steady_knows _).check fun hover => ?_
    refine (takes_assignSettled ?_ hledger hfunded).bind fun _ => Diary.Runs.ret fun p hp => hp
    rw [not_or] at hover
    simp [settleable, hdisputed, hover.1, hover.2]
  refine hprepared.bind fun context => leads_releaseEscrow.bind fun result => ?_
  exact steady_any.routine.tellBoth _ _ _ _ _ _ _ _

theorem leads_performEscrowRefund (hf : Funded ns a) :
    Leads (Knows ns) (performEscrowRefund a) := by
  obtain ⟨locked, released, hledger, hfunded⟩ := hf
  have hk := steady_knows ns
  have hprepared : Takes (Knows ns) (prepareRefund a) fun _ => Settling a .refunded [] := by
    refine hk.bind (hk.routine.getEscrowContext a) fun context => ?_
    refine takes_getAttached (Diary.Runs.raise fun p hp => hp.any .nothing) ?_
    rintro r rfl
    refine (steady_knows _).check fun hcompleted => ?_
    refine (takes_assignSettled ?_ hledger hfunded).bind fun _ => Diary.Runs.ret fun p hp => hp
    simp [settleable, hcompleted]
  refine hprepared.bind fun context => leads_refundEscrow.bind fun result => ?_
  exact steady_any.routine.tellBoth _ _ _ _ _ _ _ _

theorem leads_lockEscrow (hf : Fundable ns a) (u : Id) (amount : Kobo)
    (participant counterparty : Option Id) (description : String) :
    Leads (Knows ns) (lockEscrow u amount a participant counterparty description) := by
  refine (steady_knows ns).moving.applyEntry fun e he => ?_
  refine Diary.Runs.stage (proper_entry fun _ => ⟨a, he.reference⟩) fun p hp => ?_
  have hescrow : decides (.insert Table.transaction e) = true := by
    rw [decides, he.reference]
    rfl
  exact (hp.add hescrow).any (.lock hf he.reference he.agreementId he.type)

/-- A status assigned and committed at once. -/
theorem leads_assign_commit {α : Type} {r : Agreement} {s : AgreementStatus} {f : Unit → App α}
    (hd : Deed ns [.update Table.agreement r.id (setStatus s)]) (hf : Leads Any (f ())) :
    Leads (Knows ns) ((assignStatus r s).bind fun _ => commit.bind f) := by
  have hassigned : Takes (Knows ns) (assignStatus r s) fun _ => Any := by
    unfold assignStatus
    split
    · exact Diary.Runs.ret fun p hp => hp.any .nothing
    · exact Diary.Runs.stage (proper_status _ _) fun p hp => (hp.add rfl).any hd
  exact hassigned.bind fun _ => steady_any.bind steady_any.routine.commit fun _ => hf

theorem leads_settleAcceptance {r : Agreement} (hr : .got r ∈ ns) (hpending : r.status = .pending) :
    Leads (Knows ns) (settleAcceptance r.id) := by
  have hany := steady_any.routine
  refine takes_getAttached (Diary.Runs.raise fun p hp => hp.any .nothing) ?_
  intro r' hr'
  refine (steady_knows _).bind ((steady_knows _).routine.getParticipantsForAgreement _) fun ps => ?_
  refine leads_assign_commit ?_ (hany.refresh .agreement _)
  rw [hr']
  refine .accept (List.mem_cons_of_mem _ hr) hpending ?_
  split
  · exact Or.inl rfl
  · exact Or.inr rfl

theorem leads_acceptAgreement (u : Id) (email : String) :
    Leads (Knows ns) (acceptAgreement a u email) := by
  have hany := steady_any.routine
  have hk := steady_knows ns
  refine hk.bind (hk.routine.getInvitationByAgreementId _ _) fun found => ?_
  cases found with
  | none => exact hk.leads (hany.raise _)
  | some invitation =>
      refine hk.bind (hk.routine.getParticipantForUser _ _) fun participant => ?_
      split
      · exact hk.leads (hany.getAgreement _ _)
      · refine takes_getAttached (hk.leads (hany.raise _)) ?_
        rintro r rfl
        have hk' := steady_knows (.got r :: ns)
        refine hk'.check fun hpending => hk'.check fun _ => ?_
        refine hk'.bind (hk'.routine.joinAs _ _ _ _ _) fun participantId => ?_
        refine hk'.bind (hk'.routine.stages _ rfl rfl) fun _ => ?_
        refine hk'.bind hk'.routine.commit fun _ => ?_
        refine hk'.bind (hk'.routine.refresh .agreementParticipant _) fun _ => ?_
        refine Diary.Runs.bind
          (leads_settleAcceptance List.mem_cons_self (not_not.mp hpending)) fun agreement => ?_
        exact hany.bind (hany.cacheDelete _) fun _ =>
          hany.bind (hany.attributes .invitation _) fun _ =>
            hany.bind (hany.updateAgreementConditionsWithInvitation _ _ _) fun _ =>
              hany.getAgreement _ _

theorem leads_cancelAgreement (hspare : Spare ns a) (u : Id) :
    Leads (Knows ns) (cancelAgreement a u) := by
  obtain ⟨locked, released, hledger, hspare⟩ := hspare
  have hany := steady_any.routine
  have hk := steady_knows ns
  refine takes_getAttached (hk.leads (hany.raise _)) ?_
  rintro r rfl
  have hk' := steady_knows (.got r :: ns)
  refine hk'.bind (hk'.routine.getParticipantForUser _ _) fun found => ?_
  cases found with
  | none => exact hk'.leads (hany.raise _)
  | some participant =>
      dsimp only
      split
      · exact hk'.leads (hany.getAgreement _ _)
      · refine hk'.check fun hlive => leads_assign_commit ?_ ?_
        · have hlive : r.status = .pending ∨ r.status = .active := by
            rwa [not_and_or, not_not, not_not] at hlive
          exact .cancel List.mem_cons_self hlive (List.mem_cons_of_mem _ hledger) hspare
        · exact hany.bind (hany.refresh .agreement _) fun _ =>
            hany.bind (hany.invalidateAgreementCache _) fun _ => hany.getAgreement _ _

theorem leads_rejectAgreement (hspare : Spare ns a) (u : Id) (email : String) :
    Leads (Knows ns) (rejectAgreement a u email) := by
  obtain ⟨locked, released, hledger, hspare⟩ := hspare
  have hany := steady_any.routine
  have hk := steady_knows ns
  refine takes_getAttached (hk.leads (hany.raise _)) ?_
  rintro r rfl
  have hk' := steady_knows (.got r :: ns)
  refine hk'.check fun _ => hk'.check fun hlive => ?_
  have hlive : r.status = .pending ∨ r.status = .active := by
    rwa [not_and_or, not_not, not_not] at hlive
  refine hk'.bind (hk'.routine.getInvitationByAgreementId _ _) fun found => ?_
  cases found with
  | none => exact hk'.leads (hany.raise _)
  | some invitation =>
      refine hk'.bind (hk'.routine.getParticipantForUser _ _) fun participant => ?_
      split
      · exact hk'.leads (hany.getAgreement _ _)
      · refine hk'.bind (hk'.routine.joinAs _ _ _ _ _) fun participantId => ?_
        refine hk'.bind (hk'.routine.stages _ rfl rfl) fun _ => ?_
        refine hk'.bind hk'.routine.commit fun _ => ?_
        refine hk'.bind (hk'.routine.refresh .agreementParticipant _) fun _ => ?_
        refine takes_getAttached (hk'.leads (hany.raise _)) ?_
        intro r' hr'
        refine leads_assign_commit ?_ ?_
        · rw [hr']
          exact .cancel (List.mem_cons_of_mem _ List.mem_cons_self) hlive
            (List.mem_cons_of_mem _ (List.mem_cons_of_mem _ hledger)) hspare
        · exact hany.bind (hany.refresh .agreement _) fun _ =>
            hany.bind (hany.cacheDelete _) fun _ => hany.getAgreement _ _

/-- A dispute that has been asked for is committed with the freeze. -/
theorem runs_freeze {r : Agreement} {d : Dispute} (hr : .got r ∈ ns) (hactive : r.status = .active)
    (hopen : d.status = .open) (hon : d.agreementId = r.id)
    (hbefore : d.agreementStatusBefore = .active) (id : Id) :
    register.Runs (Intends ns [.insert Table.dispute d]) (do
      setAgreementStatus r .disputed
      commit
      let _ ← refresh .dispute id
      pure id : App Id) (fun _ => Any) fun _ => True := by
  have hany := steady_any.routine
  have hfrozen : register.Runs (Intends ns [.insert Table.dispute d])
      (setAgreementStatus r .disputed) (fun _ => Any) fun _ => True := by
    have hassign : assignStatus r .disputed = assign .agreement r.id (setStatus .disputed) := by
      rw [assignStatus, if_neg]
      rw [hactive]
      decide
    rw [setAgreementStatus, hassign]
    refine Diary.Runs.bind (Q := fun _ => Any) ?_ fun _ => ?_
    · refine Diary.Runs.stage (proper_status _ _) fun p hp => (hp.add rfl).any ?_
      exact .raise hr hactive hopen hon hbefore
    · exact hany.flush.conseq (fun _ h => h) (fun _ _ h => h) fun _ _ => trivial
  refine hfrozen.bind fun _ => ?_
  exact (hany.bind hany.commit fun _ => hany.bind (hany.refresh .dispute id) fun _ =>
    hany.ret id).conseq (fun _ h => h) (fun _ _ h => h) fun _ _ => trivial

theorem reading_intends (ds : List (Write adehun)) : Reading fun _ p =>
    register.Runs (Intends ns ds) p (fun _ => Intends ns ds) fun _ => True where
  toSequential := Diary.Runs.sequential fun _ _ => trivial
  reads _ hs _ := Diary.Runs.quiet (fun _ _ => trivial) (fun _ _ => trivial) hs
    fun _ _ _ _ _ ha _ _ _ => ha.noted _

/-- Evidence is on the side. -/
theorem runs_addEvidence (ds : List (Write adehun)) (id p : Id) (files : List UploadedFile) :
    register.Runs (Intends ns ds) (addEvidence id p files) (fun _ => Intends ns ds)
      fun _ => True := by
  have h : Reading fun _ p =>
      register.Runs (Intends ns ds) p (fun _ => Intends ns ds) fun _ => True := reading_intends ds
  have hside : ∀ d : Write adehun, Side d → register.Runs (Intends ns ds) (.perform (.stage d))
      (fun _ => Intends ns ds) fun _ => True :=
    fun d hd => runs_aside (proper_of_side hd) (decides_of_side hd)
  refine h.bind (h.forEach (fun f => ?_) files) fun _ => h.flush
  exact h.bind h.fresh fun _ => h.bind (hside (.insert .assetFile _) rfl) fun _ =>
    h.bind h.flush fun _ => h.bind h.fresh fun _ => hside (.insert .asset _) rfl

/-- The rows of a dispute on an agreement that was active. -/
theorem runs_raiseDisputeRows {r : Agreement} (hr : .got r ∈ ns) (hactive : r.status = .active)
    (p u o : Id) (data : DisputeCreateRequest) :
    register.Runs (Knows ns) (raiseDisputeRows r p u o data) (fun _ => Any) fun _ => True := by
  have hopened : ∀ d : Dispute, register.Runs (Knows ns) (add .dispute d)
      (fun _ => Intends ns [.insert Table.dispute d]) fun _ => True := by
    intro d
    have hproper : Proper (.insert Table.dispute d) :=
      ⟨trivial, trivial, trivial, (fun _ h => by cases h), (fun _ h => by cases h)⟩
    exact Diary.Runs.stage hproper fun p hp => hp.add rfl
  refine ((reading_intends []).fresh).bind fun id => (hopened _).bind fun _ => ?_
  refine (reading_intends _).flush.bind fun _ => ?_
  dsimp only
  split
  · exact runs_freeze hr hactive rfl rfl hactive id
  · exact (runs_addEvidence _ id p data.files).bind fun _ =>
      runs_freeze hr hactive rfl rfl hactive id

theorem leads_raiseDispute (u : Id) (data : DisputeCreateRequest) :
    Leads (Knows ns) (raiseDispute a u data) := by
  have hany := steady_any.routine
  have hk := steady_knows ns
  refine takes_get_agreement .nothing (hk.leads (hany.raise _)) ?_
  rintro r rfl
  have hk' := steady_knows (.got r :: ns)
  have hparticipant : register.Runs (Knows (.got r :: ns)) (requireAcceptedParticipant r.id u)
      (fun _ => Knows (.got r :: ns)) (Knows (.got r :: ns)) := by
    refine hk'.routine.bind (hk'.routine.getParticipantForUser _ _) fun found => ?_
    cases found with
    | none => exact hk'.routine.raise _
    | some p => exact hk'.routine.bind (hk'.routine.raiseIf _ _) fun _ => hk'.routine.ret p
  refine hk'.bind hparticipant fun participant => ?_
  refine hk'.bind (hk'.routine.loadFirst .dispute _) fun active => ?_
  refine hk'.check fun _ => hk'.check fun hactive => ?_
  refine hk'.bind (hk'.routine.getParticipantsForAgreement _) fun participants => ?_
  split
  · exact hk'.leads (hany.raise _)
  · next other _ =>
      have hgot : Note.got r ∈ Note.got r :: ns := List.mem_cons_self
      have hrows := runs_raiseDisputeRows hgot (not_not.mp hactive) participant.id u other.userId
        data
      have hback : ∀ e : Exn, register.Runs (fun _ => True)
          (rollback.bind fun _ => (.raise e : App DisputeResponse)) (fun _ => Any) Any := fun e =>
        Diary.Runs.bind (Q := fun _ => Any) (Diary.Runs.rollback fun p _ => Any.lost p)
          fun _ => hany.raise e
      refine hrows.attempt (fun id => ?_) fun e => ?_
      · exact hany.bind (hany.cacheDelete _) fun _ => hany.toDisputeResponse id
      · split
        · exact hback _
        · exact hback _
        · next h => cases h

theorem leads_adminMarkUnderReview (id : Id) :
    Leads (Knows ns) (adminMarkUnderReview id) := by
  have hany := steady_any.routine
  refine takes_getDispute ((steady_knows ns).leads (hany.raise _)) ?_
  rintro d rfl
  refine (steady_knows _).check fun hopen => ?_
  have hclaimed : Takes (Knows (.seen d :: ns))
      (assign .dispute d.id (setDisputeStatus .underReview)) fun _ => Any :=
    Diary.Runs.stage (proper_ruling fun _ => rfl) fun p hp =>
      (hp.add rfl).any (.review List.mem_cons_self (not_not.mp hopen))
  exact hclaimed.bind fun _ => hany.bind hany.commit fun _ =>
    hany.bind (hany.refresh .dispute _) fun _ => hany.toDisputeResponse _

/-- Saving the resolution leaves nothing asked for. -/
theorem takes_saveResolution (d b : Id) : Takes Any (do
    let saved ← Prog.attempt do
      flush
      commit
      refresh .dispute d
    match saved with
    | .error _ => do
        rollback
        .raise (.app .disputeCreation "Failed to resolve dispute")
    | .ok _ => do
        let participants ← getParticipantsForAgreement b
        cacheDelete (agreementCacheKeys b (participants.map (·.userId)))
        toDisputeResponse d : App DisputeResponse) fun _ => Knows [] := by
  have hany := steady_any.routine
  have hk := steady_knows []
  have hsaved : Takes Any (do
      flush
      commit
      refresh .dispute d : App Dispute) fun _ => Knows [] := by
    refine steady_any.bind hany.flush fun _ => ?_
    have hcommit : Takes Any commit fun _ => Knows [] :=
      Diary.Runs.commit (fun _ h => h) (fun p _ => Any.lost p) (fun _ h => h)
        fun _ _ => ⟨List.nil_subset _, rfl⟩
    exact hcommit.bind fun _ => hk.takes (hk.routine.refresh .dispute d)
  refine hsaved.attempt (fun _ => hk.takes ?_) fun _ => ?_
  · exact hk.routine.bind (hk.routine.getParticipantsForAgreement b) fun _ =>
      hk.routine.bind (hk.routine.cacheDelete _) fun _ => hk.routine.toDisputeResponse d
  · exact steady_any.bind hany.rollback fun _ => Diary.Runs.raise fun _ h => h

theorem takes_adminResolveDispute (id u : Id) (data : DisputeResolveRequest) :
    Takes (Knows ns) (adminResolveDispute id u data) fun _ => Knows [] := by
  refine takes_getDispute (Diary.Runs.raise fun _ h => h.any .nothing) ?_
  rintro d rfl
  have hk' := steady_knows (.seen d :: ns)
  refine hk'.check fun hresolved => hk'.bind hk'.routine.now fun time => ?_
  have hresolve : Deed (.seen d :: ns)
      [.update Table.dispute d.id (setResolution data u time)] :=
    .resolve List.mem_cons_self hresolved
  have hruled : Takes (Knows (.seen d :: ns))
      (assign .dispute d.id (setResolution data u time)) fun _ => Intends (.seen d :: ns)
        [.update Table.dispute d.id (setResolution data u time)] :=
    Diary.Runs.stage (proper_ruling fun _ => rfl) fun p hp => hp.add rfl
  refine hruled.bind fun _ => takes_get_agreement hresolve ?_ ?_
  · exact (takes_saveResolution d.id d.agreementId).conseq (fun _ h => h.any hresolve)
      (fun _ _ h => h) fun _ h => h
  · intro r hr
    have hdeed := hresolve.mono (List.subset_cons_self (.got r) _)
    have hsaved := takes_saveResolution d.id d.agreementId
    dsimp only
    split
    · next hdisputed =>
        have hrestored : Takes (Intends (.got r :: .seen d :: ns)
            [.update Table.dispute d.id (setResolution data u time)])
            (assignStatus r d.agreementStatusBefore) fun _ => Any := by
          unfold assignStatus
          split
          · exact Diary.Runs.ret fun p hp => hp.any hdeed
          · refine Diary.Runs.stage (proper_status _ _) fun p hp => (hp.add rfl).any ?_
            exact .restore (List.mem_cons_of_mem _ List.mem_cons_self) hresolved
              List.mem_cons_self hr hdisputed
        exact (hrestored.bind fun _ => steady_any.routine.flush).bind fun _ => hsaved
    · exact hsaved.conseq (fun _ h => h.any hdeed) (fun _ _ h => h) fun _ h => h

end Services

/-! ## The requests -/

section Requests

variable {ns : List Note} {a : Id}

theorem leads_closing {P : register.Page → Prop} {α : Type} {p : App α} (hp : Leads P p) :
    Leads P (closing p) := by
  have hany := steady_any.routine
  refine hp.attempt (fun x => ?_) fun e => ?_
  · exact hany.bind hany.rollback fun _ => hany.ret x
  · exact hany.bind hany.rollback fun _ => hany.raise e

theorem leads_idempotent (s : Settings) (u : Id) (key : Option String) (endpoint hash : String)
    {run : Option Id → App Response} (hrun : ∀ record, Leads (Knows []) (run record)) :
    Leads (Knows []) (idempotent s u key endpoint hash run) := by
  have hany := steady_any.routine.booking (t := .idempotencyKey) rfl
  have hk := steady_knows []
  refine hk.bind ((hk.routine.booking rfl).begin _ _ _ _ _) fun begun => ?_
  cases begun with
  | replay r => exact hk.leads (hany.ret r)
  | proceed record =>
      have hdone : Leads (Knows []) (do
          let response ← run record
          complete record response : App Response) :=
        (hrun record).bind fun _ => hany.complete _ _
      refine hdone.attempt (fun r => hany.ret r) fun e => ?_
      exact hany.bind (hany.releaseIfAbandoned _) fun _ => hany.raise e

theorem leads_fundAgreement (s : Settings) (u : Id) (key : Option String) :
    Leads (Knows []) (fundAgreement s u key a) := by
  have hany := steady_any.routine
  have hk := steady_knows []
  refine leads_closing (hk.bind (hk.routine.authenticate u) fun _ => leads_idempotent _ _ _ _ _ ?_)
  intro record
  refine hk.bind (hk.routine.currentUser u) fun user => ?_
  refine takes_prepareEscrowFunding fun ns' context hfundable => ?_
  have hk' := steady_knows ns'
  refine hk'.bind (hk'.routine.select _) fun funded => ?_
  refine hk'.bind (hk'.routine.raiseIf _ _) fun _ => ?_
  refine hk'.bind (hk'.routine.currentUser u) fun user => ?_
  refine (leads_lockEscrow hfundable _ _ _ _ _).bind fun result => ?_
  refine hany.bind (hany.notify _ _ _ (hany.byName _ _)) fun _ => ?_
  refine hany.bind (hany.getAgreement _ _) fun _ => hany.bind (hany.currentUser u) fun _ => ?_
  refine hany.bind (hany.sendToUser _) fun _ => hany.bind (hany.sendToUser _) fun _ => ?_
  refine hany.bind (hany.attributes .transaction _) fun entry => ?_
  refine hany.bind ((hany.booking rfl).bindReference _ _) fun _ => ?_
  exact hany.bind (hany.attributes .transaction _) fun _ =>
    hany.bind (hany.attributes .wallet _) fun _ => hany.ret _

theorem leads_releaseAgreementEscrow (s : Settings) (u : Id) (key : Option String) :
    Leads (Knows []) (releaseAgreementEscrow s u key a) := by
  have hany := steady_any.routine
  have hk := steady_knows []
  refine leads_closing (hk.bind (hk.routine.authenticate u) fun _ => leads_idempotent _ _ _ _ _ ?_)
  intro record
  refine hk.bind (hk.routine.getEscrowContext a) fun context => ?_
  refine hk.bind (hk.routine.currentUser u) fun user => hk.bind (hk.routine.raiseIf _ _) fun _ => ?_
  refine takes_isAgreementFunded fun locked released funded hfunded => ?_
  have hk' := steady_knows (.ledger locked released :: [])
  refine hk'.check fun hnot => ?_
  refine hk'.bind (hk'.routine.allConditionsApproved a) fun approved => ?_
  refine hk'.bind (hk'.routine.raiseIf _ _) fun _ => ?_
  refine (leads_performEscrowRelease
    ⟨locked, released, List.mem_cons_self, hfunded.mp (by simpa using hnot)⟩).bind fun result => ?_
  refine hany.bind (hany.broadcastAgreementUpdate a) fun _ => ?_
  refine hany.bind (hany.attributes .transaction _) fun debit => ?_
  refine hany.bind ((hany.booking rfl).bindReference _ _) fun _ => ?_
  exact hany.bind (hany.attributes .transaction _) fun _ => hany.ret _

theorem leads_refundAgreementEscrow (s : Settings) (u : Id) (key : Option String) :
    Leads (Knows []) (refundAgreementEscrow s u key a) := by
  have hany := steady_any.routine
  have hk := steady_knows []
  refine leads_closing (hk.bind (hk.routine.authenticate u) fun user =>
    hk.bind (hk.routine.requireAdmin user) fun _ => leads_idempotent _ _ _ _ _ ?_)
  intro record
  refine takes_isAgreementFunded fun locked released funded hfunded => ?_
  have hk' := steady_knows (.ledger locked released :: [])
  refine hk'.check fun hnot => ?_
  refine hk'.bind (hk'.routine.select _) fun _ => hk'.bind (hk'.routine.raiseIf _ _) fun _ => ?_
  refine (leads_performEscrowRefund
    ⟨locked, released, List.mem_cons_self, hfunded.mp (by simpa using hnot)⟩).bind fun result => ?_
  refine hany.bind (hany.broadcastAgreementUpdate a) fun _ => ?_
  refine hany.bind (hany.attributes .transaction _) fun entry => ?_
  refine hany.bind ((hany.booking rfl).bindReference _ _) fun _ => ?_
  exact hany.bind (hany.attributes .transaction _) fun _ =>
    hany.bind (hany.attributes .wallet _) fun _ => hany.ret _

theorem leads_acceptAgreementRoute (s : Settings) (u : Id) (key : Option String) :
    Leads (Knows []) (acceptAgreementRoute s u key a) := by
  have hany := steady_any.routine
  have hk := steady_knows []
  refine leads_closing (hk.bind (hk.routine.authenticate u) fun _ => leads_idempotent _ _ _ _ _ ?_)
  intro record
  refine hk.bind (hk.routine.currentUser u) fun user => ?_
  refine (leads_acceptAgreement _ _).bind fun agreement => ?_
  refine hany.bind (hany.notifyEach _ _ _ (hany.byName _ _)) fun _ => ?_
  exact hany.ite_then (a := ()) (hany.notifyEach _ _ _ (hany.ret _)) fun _ =>
    hany.bind (hany.sendToEach _) fun _ => hany.ret _

theorem leads_rejectAgreementRoute (s : Settings) (u : Id) (key : Option String) :
    Leads (Knows []) (rejectAgreementRoute s u key a) := by
  have hany := steady_any.routine
  have hk := steady_knows []
  refine leads_closing (hk.bind (hk.routine.authenticate u) fun _ => leads_idempotent _ _ _ _ _ ?_)
  intro record
  refine takes_refuseFunded fun ns' _ hspare => ?_
  have hk' := steady_knows ns'
  refine hk'.bind (hk'.routine.currentUser u) fun user => ?_
  refine (leads_rejectAgreement hspare _ _).bind fun agreement => ?_
  exact hany.bind (hany.notifyEach _ _ _ (hany.byName _ _)) fun _ =>
    hany.bind (hany.sendToEach _) fun _ => hany.ret _

theorem leads_cancelAgreementRoute (u : Id) : Leads (Knows []) (cancelAgreementRoute u a) := by
  have hany := steady_any.routine
  have hk := steady_knows []
  refine leads_closing (hk.bind (hk.routine.authenticate u) fun user => ?_)
  refine takes_refuseFunded fun ns' _ hspare => ?_
  refine (leads_cancelAgreement hspare _).bind fun agreement => ?_
  exact hany.bind (hany.announce _ _ _ _ (hany.byName _ _)) fun _ => hany.ret _

theorem leads_releaseEscrowIfReady : Leads (Knows ns) (releaseEscrowIfReady a) := by
  have hany := steady_any.routine
  have hready : Leads (Knows ns) (do
      let funded ← isAgreementFunded a
      if !funded then pure ()
      else do
        let released ← isAgreementReleased a
        if released then pure ()
        else do
          let approved ← allConditionsApproved a
          if !approved then pure ()
          else do
            let agreement ← getAgreement a
            if agreement.status = .disputed then pure ()
            else do
              let _ ← performEscrowRelease a
              broadcastAgreementUpdate a : App Unit) := by
    refine takes_isAgreementFunded fun locked released funded hfunded => ?_
    have hk := steady_knows (.ledger locked released :: ns)
    split
    · exact hk.leads (hany.ret ())
    · next hnot =>
        have hfund : Funded (.ledger locked released :: ns) a :=
          ⟨locked, released, List.mem_cons_self, hfunded.mp (by simpa using hnot)⟩
        refine hk.bind (hk.routine.select _) fun released => ?_
        split
        · exact hk.leads (hany.ret ())
        · refine hk.bind (hk.routine.allConditionsApproved a) fun approved => ?_
          split
          · exact hk.leads (hany.ret ())
          · refine hk.bind (hk.routine.getAgreement a _) fun agreement => ?_
            split
            · exact hk.leads (hany.ret ())
            · exact (leads_performEscrowRelease hfund).bind fun _ =>
                hany.broadcastAgreementUpdate a
  exact hready.attempt (fun _ => hany.ret _) fun _ => hany.ret _

theorem leads_approveConditionRoute (u c : Id) :
    Leads (Knows []) (approveConditionRoute u c) := by
  have hany := steady_any.routine
  have hk := steady_knows []
  refine leads_closing (hk.bind (hk.routine.authenticate u) fun user => ?_)
  refine hk.bind (hk.routine.approveCondition c _) fun condition => ?_
  refine hk.bind (hk.routine.currentUser u) fun user => ?_
  refine hk.bind (hk.routine.notifyAgreementParticipants _ _ _ _ _) fun _ => ?_
  refine hk.bind (hk.routine.currentUser u) fun _ => ?_
  exact leads_releaseEscrowIfReady.bind fun _ => hany.ret _

theorem leads_raiseDisputeRoute (u : Id) (data : DisputeCreateRequest) :
    Leads (Knows []) (raiseDisputeRoute u a data) := by
  have hany := steady_any.routine
  have hk := steady_knows []
  refine leads_closing (hk.bind (hk.routine.authenticate u) fun user => ?_)
  refine (leads_raiseDispute _ _).bind fun dispute => ?_
  have htold : ∀ _ : Unit, Leads Any (do
      broadcastDisputeChange dispute
      pure { statusCode := 201, body := .dispute dispute none } : App Response) :=
    fun _ => hany.bind (hany.broadcastDisputeChange _) fun _ => hany.ret _
  split
  · exact htold ()
  · exact hany.bind (hany.notify _ _ _ (hany.byName _ _)) htold

theorem leads_markUnderReviewRoute (u d : Id) : Leads (Knows []) (markUnderReviewRoute u d) := by
  have hany := steady_any.routine
  have hk := steady_knows []
  refine leads_closing (hk.bind (hk.routine.authenticate u) fun user =>
    hk.bind (hk.routine.requireAdmin user) fun _ => ?_)
  exact (leads_adminMarkUnderReview d).bind fun _ =>
    hany.bind (hany.notifyEach _ _ _ (hany.ret _)) fun _ => hany.ret _

theorem leads_settleDispute (hf : Funded ns a) (outcome : DisputeResolutionOutcome) :
    Leads (Knows ns) (settleDispute a outcome) := by
  have hany := steady_any.routine
  cases outcome with
  | favourBeneficiary =>
      exact (leads_performEscrowRelease hf).bind fun _ => hany.broadcastAgreementUpdate a
  | favourDepositor =>
      exact (leads_performEscrowRefund hf).bind fun _ => hany.broadcastAgreementUpdate a
  | split => exact (steady_knows ns).leads (hany.ret ())
  | dismissed => exact (steady_knows ns).leads (hany.ret ())

theorem leads_resolveDisputeRoute (u d : Id) (r : DisputeResolveRequest) :
    Leads (Knows []) (resolveDisputeRoute u d r) := by
  have hany := steady_any.routine
  have hk := steady_knows []
  refine leads_closing (hk.bind (hk.routine.authenticate u) fun user =>
    hk.bind (hk.routine.requireAdmin user) fun _ => ?_)
  refine (takes_adminResolveDispute d _ r).bind fun dispute => ?_
  refine takes_isAgreementFunded fun locked released funded hfunded => ?_
  have hk' := steady_knows (.ledger locked released :: [])
  refine hk'.bind (hk'.routine.select _) fun out => ?_
  have hsettled : Leads (Knows (.ledger locked released :: []))
      (if funded && !out then settleDispute dispute.agreementId r.outcome else pure ()) := by
    split
    · next hcond =>
        rw [Bool.and_eq_true] at hcond
        exact leads_settleDispute ⟨locked, released, List.mem_cons_self, hfunded.mp hcond.1⟩ _
    · exact hk'.leads (hany.ret ())
  have hend : ∀ settled : Except Exn Unit, Leads Any (do
      let message := match settled with
        | .ok _ => none
        | .error _ => some ("Dispute resolved, but the payout could not be completed. " ++
            "Retry with POST /agreements/\x7bid\x7d/release or /refund.")
      notifyEach dispute.parties .disputeResolved "Dispute Resolved"
        (pure ("The dispute on '" ++ dispute.agreementTitle ++ "' has been resolved"))
      broadcastDisputeChange dispute
      pure { body := .dispute dispute message } : App Response) :=
    fun _ => hany.bind (hany.notifyEach _ _ _ (hany.ret _)) fun _ =>
      hany.bind (hany.broadcastDisputeChange _) fun _ => hany.ret _
  exact hsettled.attempt (fun x => hend (.ok x)) fun e => hend (.error e)

end Requests

/-- Every request commits deeds only. -/
theorem register_serves (settings : Settings) : register.Serves (handler settings) := by
  intro r
  have hany := steady_any.routine
  have hp := steady_any.providerRequests
  have hleads : Leads (Knows []) (handler settings r) := by
    have hbooks := (hany.keepsBooks hp).toKeyed
    have hnew : ∀ r : Agreement, r.status = .pending →
        register.Runs Any (add .agreement r) (fun _ => Any) Any := by
      intro r hr
      refine runs_aside ⟨trivial, trivial, trivial, ?_, ?_⟩ rfl
      · intro r' h
        cases h
        exact hr
      · intro _ h
        cases h
    cases r with
    | getWallet u => exact (steady_knows []).leads (hany.getWallet hp.toPayments u)
    | fundWallet u key data =>
        exact (steady_knows []).leads
          (hbooks.fundWallet (fun _ => hany.toPlain) (fun _ => hp.toPayments) settings u key data)
    | withdraw u key p =>
        exact (steady_knows []).leads
          (hbooks.withdraw (fun _ => hany.toPlain) (fun _ => hp.toPayments) settings u key p)
    | getWithdrawal u r => exact (steady_knows []).leads (hany.getWithdrawalRoute hp.toPayments u r)
    | webhook signed p hash =>
        exact (steady_knows []).leads ((hany.keepsBooks hp).webhook signed p hash)
    | fundAgreement u key a => exact leads_fundAgreement settings u key
    | release u key a => exact leads_releaseAgreementEscrow settings u key
    | refund u key a => exact leads_refundAgreementEscrow settings u key
    | createAgreement u data =>
        exact (steady_knows []).leads (hany.createAgreementRoute hnew u data)
    | acceptAgreement u key a => exact leads_acceptAgreementRoute settings u key
    | rejectAgreement u key a => exact leads_rejectAgreementRoute settings u key
    | cancelAgreement u a => exact leads_cancelAgreementRoute u
    | addCondition u a data => exact (steady_knows []).leads (hany.addConditionRoute u a data)
    | approveCondition u c => exact leads_approveConditionRoute u c
    | rejectCondition u c reason =>
        exact (steady_knows []).leads (hany.rejectConditionRoute u c reason)
    | raiseDispute u a data => exact leads_raiseDisputeRoute u data
    | markUnderReview u d => exact leads_markUnderReviewRoute u d
    | resolveDispute u d r => exact leads_resolveDisputeRoute u d r
  exact (hleads _ ⟨List.nil_subset _, rfl⟩).mono (fun _ _ _ => trivial) fun _ _ _ => trivial

end Adehun
