import Adehun.Routes

/-!
# What the requests are made of

Most of what a request does has nothing to do with money: it reads, commits,
waits, keeps its books on events and keys, and sends notifications. A
property of programs that all such statements have, and that programs
inherit from their parts, is one that these functions all have; this module
says so once, for every such property, up to the choke point through which
money moves.
-/

namespace Adehun

open Sessions

/-- The tables that money, its provider's records and the freeze live in. -/
def guarded : Table → Bool
  | .wallet | .transaction | .paystackTransaction | .agreement | .dispute => true
  | _ => false

/-- A write to a table that no balance depends on. -/
def Side (d : Write adehun) : Prop := guarded d.key.table = false

theorem ne_of_side {d : Write adehun} (hd : Side d) {t : Table} (ht : guarded t = true) :
    d.key.table ≠ t := by
  rintro rfl
  rw [Side, ht] at hd
  cases hd

/-- What the requests do to the shared store. None of them stores a list of
agreements: that is left to the listing itself. -/
inductive Command : {X : Type} → (Shared → Shared × X) → Prop
  | look {X : Type} (f : Shared → X) : Command fun m => (m, f m)
  | set {k : CacheKey} (hk : ∀ u, k ≠ .userAgreements u) (v : CacheValue) :
      Command fun m => ({ m with cache := (k, v) :: m.cache.filter (·.1 ≠ k) }, ())
  | delete (ks : List CacheKey) :
      Command fun m => ({ m with cache := m.cache.filter (·.1 ∉ ks) }, ())
  | store (token : Nat) (v : Invitation) :
      Command fun m => ({ m with cache := (.invitation token, .invitation v) :: m.cache }, ())

/-- What sends money out. -/
def ProviderRequest.sends : ProviderRequest → Bool
  | .initiateTransfer .. => true
  | _ => false

/-- A statement as the requests have them, but for the one that sends money. -/
def Usual {X : Type} : Stmt adehun X → Prop
  | .shared f => Command f
  | .await (.provider r) => r.sends = false
  | _ => True

/-- What an entry has from the arguments it is made with. -/
structure Transaction.From (a : EntryArgs) (e : Transaction) : Prop where
  reference : e.reference = a.reference
  userId : e.userId = a.userId
  amount : e.amount = a.amount
  agreementId : e.agreementId = a.agreementId
  type : e.type = a.entryType

/-- A property of programs that quiet statements have. -/
structure Reading (K : (α : Type) → App α → Prop) : Prop extends
    Prog.Sequential K where
  reads : ∀ {X : Type} (s : Stmt adehun X), s.Quiet → Usual s → K X (.perform s)

/-- The tables on the side that keep the books on requests: the events that
have been delivered, the idempotency keys, and the refresh tokens. -/
def booked : Table → Bool
  | .webhookEvent | .idempotencyKey | .refreshToken => true
  | _ => false

/-- A property of programs that reading has, and writing on the side but for
the books. -/
structure Plain (K : (α : Type) → App α → Prop) : Prop extends
    Prog.Compositional K, Reading K where
  commit : K Unit (.perform .commit)
  rollback : K Unit (.perform .rollback)
  stages : ∀ d : Write adehun, Side d → booked d.key.table = false →
    K Unit (.perform (.stage d))

/-- A property of programs that reading and writing on the side have. -/
structure Routine (K : (α : Type) → App α → Prop) : Prop extends Plain K where
  books : ∀ d : Write adehun, Side d → K Unit (.perform (.stage d))
  upserts : ∀ {X : Type} (waits : List Index) (f : Db adehun → List (Write adehun) × X),
    (∀ db, ∀ d ∈ (f db).1, Side d) → K X (.perform (.upsert waits f))

/-- A property of programs that plain writing has, and writing one more
table, the unit of work or not. -/
structure Booking (K : (α : Type) → App α → Prop) (t : Table) : Prop extends Plain K where
  books : ∀ d : Write adehun, d.key.table = t → K Unit (.perform (.stage d))
  upserts : ∀ {X : Type} (waits : List Index) (f : Db adehun → List (Write adehun) × X),
    (∀ db, ∀ d ∈ (f db).1, d.key.table = t) → K X (.perform (.upsert waits f))

theorem Routine.booking {K : (α : Type) → App α → Prop} (h : Routine K) {t : Table}
    (ht : guarded t = false) : Booking K t where
  toPlain := h.toPlain
  books d hd := h.books d (by rw [Side, hd]; exact ht)
  upserts waits f hf := h.upserts waits f fun db d hd => by
    rw [Side, hf db d hd]
    exact ht

namespace Reading

variable {K : (α : Type) → App α → Prop} (h : Reading K)

include h

/-! ## Statements -/

theorem select {X : Type} (q : Db adehun → X) : K X (select q) := h.reads _ trivial trivial

theorem loadAll (t : Table) (p : t.Row → Bool) : K _ (loadAll t p) := h.reads _ trivial trivial

theorem loadFirst (t : Table) (p : t.Row → Bool) : K _ (loadFirst t p) :=
  h.bind (h.reads _ trivial trivial) fun _ => h.ret _

theorem get (t : Table) (id : Id) : K _ (get t id) := h.reads _ trivial trivial

theorem attributes (t : Table) (id : Id) : K _ (attributes t id) := by
  refine h.bind (h.reads _ trivial trivial) fun o => ?_
  cases o with
  | none => exact h.raise _
  | some r => exact h.ret r

theorem refresh (t : Table) (id : Id) : K _ (refresh t id) := h.reads _ trivial trivial

theorem flush : K _ flush := h.reads _ trivial trivial

theorem fresh : K _ fresh := h.reads _ trivial trivial

theorem now : K _ now := h.reads _ trivial trivial

theorem await {c : Call} (hc : Usual (Stmt.await (M := adehun) c)) :
    K Transport (.perform (Stmt.await (M := adehun) c)) :=
  h.reads _ trivial hc

theorem raiseIf (p : Prop) [Decidable p] (e : Exn) : K _ (raiseIf p e) :=
  h.ite (h.raise e) (h.ret ())

/-! ## The caller -/

theorem currentUser (u : Id) : K _ (currentUser u) := h.attributes .user u

theorem authenticate (u : Id) : K _ (authenticate u) := by
  refine h.bind (h.get _ _) fun found => ?_
  cases found with
  | none => exact h.raise _
  | some user =>
      exact h.bind (h.raiseIf _ _) fun _ => h.bind (h.loadAll _ _) fun _ =>
        h.bind (h.loadAll _ _) fun _ => h.ret _

theorem requireAdmin (u : User) : K _ (requireAdmin u) := h.raiseIf _ _

/-! ## The wallet repository's reads -/

theorem getUserWallet (u : Id) : K _ (getUserWallet u) := h.loadFirst .wallet _

theorem getEntryByReference (r : Reference) : K _ (getEntryByReference r) :=
  h.loadFirst .transaction _

theorem getEntriesByGroup (g : GroupId) : K _ (getEntriesByGroup g) :=
  h.loadAll .transaction _

theorem lockWallet (id : Id) : K _ (lockWallet id) := by
  refine h.bind (h.reads _ trivial trivial) fun found => ?_
  cases found with
  | none => exact h.raise _
  | some w => exact h.ret w

theorem lockWallets (a b : Id) : K _ (lockWallets a b) :=
  h.ite (h.bind (h.lockWallet _) fun _ => h.ret _)
    (h.bind (h.lockWallet _) fun _ => h.bind (h.lockWallet _) fun _ => h.ret _)

theorem replay (e : Transaction) : K _ (replay e) := by
  refine h.bind (h.loadFirst .wallet _) fun found => ?_
  cases found with
  | none => exact h.raise _
  | some w => exact h.ret _

theorem replayTransfer (es : List Transaction) (r : Reference) :
    K _ (replayTransfer es r) := by
  unfold Adehun.replayTransfer
  split
  · exact h.ret _
  · exact h.raise _

theorem getPaystackTransaction (r : PaystackReference) : K _ (getPaystackTransaction r) :=
  h.reads _ trivial trivial

theorem getPaystackTransactionForUser (r : PaystackReference) (u : Id) :
    K _ (getPaystackTransactionForUser r u) :=
  h.loadFirst .paystackTransaction _

/-! ## The provider's client -/

theorem ofExcept {α : Type} (r : Except Exn α) : K α (ofExcept r) := by
  cases r with
  | ok a => exact h.ret a
  | error e => exact h.raise e

theorem requestFrom {r : ProviderRequest} (hr : r.sends = false) (attempt left : Nat) :
    K _ (requestFrom r attempt left) := by
  induction left generalizing attempt with
  | zero => exact h.bind (h.await hr) fun t => h.ofExcept _
  | succ left ih =>
      refine h.bind (h.await hr) fun t => h.ite ?_ (h.ofExcept _)
      exact h.bind (h.await (c := .sleep _) trivial) fun _ => ih (attempt + 1)

theorem request {r : ProviderRequest} (hr : r.sends = false) (retries : Nat) :
    K _ (request r retries) :=
  h.requestFrom hr 0 retries

/-- A transfer is asked for once. -/
theorem initiateTransfer {n : Int} {code : String} {r : PaystackReference} {reason : String}
    (hsend : K Transport (.perform (Stmt.await (M := adehun)
      (.provider (.initiateTransfer n code r reason))))) :
    K _ (Adehun.initiateTransfer n code r reason) :=
  h.bind hsend fun _ => h.ofExcept _

theorem fields (d : Option ProviderData) : K _ (fields d) := by
  cases d with
  | none => exact h.raise _
  | some d => exact h.ret d

/-! ## The wallet service's reads -/

theorem resolveBankAccount (u : Id) (b : Option Id) : K _ (resolveBankAccount u b) := by
  cases b with
  | none =>
      refine h.bind (h.loadFirst .bankAccount _) fun found => ?_
      cases found with
      | none => exact h.raise _
      | some a => exact h.ret a
  | some id =>
      refine h.bind (h.loadFirst .bankAccount _) fun found => ?_
      cases found with
      | none => exact h.raise _
      | some a => exact h.ret a

theorem withdrawalResponse (r a : Id) (b : Option Kobo) :
    K _ (withdrawalResponse r a b) :=
  h.bind (h.attributes _ _) fun _ => h.bind (h.attributes _ _) fun _ => h.ret _

/-! ## The choke point, by its statements -/

/-- A new wallet, by the row that is inserted. -/
theorem ensureWallet
    (hwallet : ∀ id u, K Unit (.perform (.upsert [.walletUser u] fun db =>
      if ((db .wallet : List Wallet).any fun w => w.userId = u) then ([], ())
      else ([.insert .wallet ({ id := id, userId := u } : Wallet)], ()))))
    (hcommit : K Unit (.perform .commit)) (u : Id) :
    K _ (ensureWallet u) := by
  refine h.bind h.fresh fun id => h.bind (hwallet id u) fun _ => h.bind hcommit fun _ =>
    h.bind (h.getUserWallet u) fun found => ?_
  cases found with
  | some w => exact h.ret w
  | none => exact h.raise _

theorem resolveWalletId (hwallet : ∀ u, K _ (Adehun.ensureWallet u)) (u : Id) :
    K _ (resolveWalletId u) := by
  refine h.bind (h.getUserWallet u) fun found => ?_
  cases found with
  | some w => exact h.ret _
  | none => exact h.bind (hwallet u) fun _ => h.ret _

/-- An entry without its lock, by the two writes it stages, and what the
entry has from the arguments. -/
theorem applyLedgerEntry_of {walletId : Id} {a : EntryArgs}
    (hbalances : ∀ id x y, K Unit (assign .wallet id (setBalances x y)))
    (hentry : ∀ e : Transaction, Transaction.From a e → K Unit (add .transaction e)) :
    K _ (applyLedgerEntry walletId a) := by
  refine h.bind (h.raiseIf _ _) fun _ => h.bind (h.attributes .wallet _) fun w => ?_
  refine h.bind (h.raiseIf _ _) fun _ => h.bind (h.raiseIf _ _) fun _ => ?_
  refine h.bind h.now fun time => h.bind h.fresh fun id => ?_
  exact h.bind (hbalances _ _ _) fun _ => h.bind (hentry _ ⟨rfl, rfl, rfl, rfl, rfl⟩) fun _ =>
    h.ret _

/-- An entry under the lock of its wallet, by what it has from the arguments. -/
theorem lockedEntry_of {a : EntryArgs}
    (hbalances : ∀ id x y, K Unit (assign .wallet id (setBalances x y)))
    (hentry : ∀ e : Transaction, Transaction.From a e → K Unit (add .transaction e))
    (walletId : Id) : K _ (do
      let wallet ← Adehun.lockWallet walletId
      let entry ← Adehun.applyLedgerEntry wallet.id a
      pure (wallet.id, entry.id) : App (Id × Id)) :=
  h.bind (h.lockWallet _) fun _ => h.bind (h.applyLedgerEntry_of hbalances hentry) fun _ =>
    h.ret _

/-- An entry under the lock of its wallet. -/
theorem lockedEntry {a : EntryArgs}
    (hbalances : ∀ id x y, K Unit (assign .wallet id (setBalances x y)))
    (hentry : ∀ e : Transaction, e.reference = a.reference → K Unit (add .transaction e))
    (walletId : Id) : K _ (do
      let wallet ← Adehun.lockWallet walletId
      let entry ← Adehun.applyLedgerEntry wallet.id a
      pure (wallet.id, entry.id) : App (Id × Id)) :=
  h.lockedEntry_of hbalances (fun e he => hentry e he.reference) walletId

/-- Two entries under the locks of their wallets, by what they have from the
arguments. -/
theorem lockedTransfer_of {d c : EntryArgs}
    (hbalances : ∀ id x y, K Unit (assign .wallet id (setBalances x y)))
    (hentry : ∀ e : Transaction, Transaction.From d e ∨ Transaction.From c e →
      K Unit (add .transaction e)) (a b : Id) : K _ (do
      Adehun.lockWallets a b
      let debitEntry ← Adehun.applyLedgerEntry a d
      let creditEntry ← Adehun.applyLedgerEntry b c
      pure (debitEntry.id, creditEntry.id) : App (Id × Id)) :=
  h.bind (h.lockWallets a b) fun _ =>
    h.bind (h.applyLedgerEntry_of hbalances fun e he => hentry e (Or.inl he)) fun _ =>
      h.bind (h.applyLedgerEntry_of hbalances fun e he => hentry e (Or.inr he)) fun _ => h.ret _

/-- Two entries under the locks of their wallets. -/
theorem lockedTransfer {d c : EntryArgs}
    (hbalances : ∀ id x y, K Unit (assign .wallet id (setBalances x y)))
    (hentry : ∀ e : Transaction, e.reference = d.reference ∨ e.reference = c.reference →
      K Unit (add .transaction e)) (a b : Id) : K _ (do
      Adehun.lockWallets a b
      let debitEntry ← Adehun.applyLedgerEntry a d
      let creditEntry ← Adehun.applyLedgerEntry b c
      pure (debitEntry.id, creditEntry.id) : App (Id × Id)) :=
  h.lockedTransfer_of hbalances (fun e he => hentry e (he.imp (·.reference) (·.reference))) a b

end Reading

namespace Plain

variable {K : (α : Type) → App α → Prop} (h : Plain K)

include h

theorem cacheGet (k : CacheKey) : K _ (cacheGet k) :=
  h.tryCatch (h.reads _ trivial (Command.look _)) fun _ => h.ret _

theorem cacheSet {k : CacheKey} (hk : ∀ u, k ≠ .userAgreements u) (v : CacheValue) :
    K _ (cacheSet k v) :=
  h.tryCatch (h.reads _ trivial (Command.set hk v)) fun _ => h.ret _

theorem cacheDelete (ks : List CacheKey) : K _ (cacheDelete ks) :=
  h.tryCatch (h.reads _ trivial (Command.delete ks)) fun _ => h.ret _

theorem savePaystackTransaction (id : Id) (andCommit : Bool) :
    K _ (savePaystackTransaction id andCommit) :=
  h.ite (h.bind h.commit fun _ => h.refresh .paystackTransaction _)
    (h.attributes .paystackTransaction _)

theorem closing {α : Type} {p : App α} (hp : K α p) : K α (closing p) :=
  h.ensuring hp h.rollback

/-! ## Agreements and disputes, read -/

theorem getById_row (a : Id) : K _ (do
    match ← Adehun.loadFirst .agreement fun r => r.id = a with
    | none => pure none
    | some r => do
        Adehun.cacheSet (.agreement a) (.agreement r)
        pure (some { agreement := r, attached := true }) : App (Option Found)) := by
  refine h.bind (h.loadFirst _ _) fun found => ?_
  cases found with
  | none => exact h.ret _
  | some r => exact h.bind (h.cacheSet (fun _ => CacheKey.noConfusion) _) fun _ => h.ret _

theorem getById (a : Id) : K _ (getById a) := by
  refine h.bind (h.cacheGet _) fun cached => ?_
  split
  · exact h.ret _
  · exact h.getById_row a

theorem loadParticipants (p : AgreementParticipant → Bool) : K _ (loadParticipants p) :=
  h.bind (h.loadAll _ _) fun _ => h.ite (h.ret _) (h.bind (h.loadAll _ _) fun _ => h.ret _)

theorem getParticipantForUser (a u : Id) : K _ (getParticipantForUser a u) :=
  h.bind (h.loadParticipants _) fun _ => h.ret _

theorem getParticipantsForAgreement (a : Id) : K _ (getParticipantsForAgreement a) :=
  h.loadParticipants _

theorem getInvitationByAgreementId (email : String) (a : Id) :
    K _ (getInvitationByAgreementId email a) := by
  refine h.bind (h.loadFirst _ _) fun found => ?_
  cases found with
  | none => exact h.ret _
  | some v => exact h.bind (h.loadAll _ _) fun _ => h.ret _

theorem getEscrowContext (a : Id) : K _ (getEscrowContext a) := by
  refine h.bind (h.getById a) fun found => ?_
  cases found with
  | none => exact h.raise _
  | some found =>
      refine h.bind (h.getParticipantsForAgreement a) fun participants => ?_
      split
      · exact h.ret _
      · exact h.raise _

theorem prepareEscrowFunding (a u : Id) : K _ (prepareEscrowFunding a u) := by
  refine h.bind (h.getEscrowContext a) fun context => h.bind (h.raiseIf _ _) fun _ =>
    h.bind (h.getById a) fun found => ?_
  cases found with
  | none => exact h.ret _
  | some found => exact h.bind (h.raiseIf _ _) fun _ => h.ret _

theorem invalidateAgreementCache (a : Id) : K _ (invalidateAgreementCache a) :=
  h.bind (h.attempt (h.bind (h.getEscrowContext a) fun _ => h.cacheDelete _)) fun _ =>
    h.ret _

theorem participantResponse (p : AgreementParticipant) : K _ (participantResponse p) :=
  h.bind (h.loadFirst _ _) fun _ => h.ret _

theorem participantResponse? (p : Option AgreementParticipant) :
    K _ (participantResponse? p) := by
  cases p with
  | none => exact h.ret _
  | some p => exact h.map (h.participantResponse p)

theorem agreementResponse_of (ps : List AgreementParticipant) (found : Found) (n m : Nat)
    (u : Option Id) (b : Bool) : K _ (do
    let depositor ← Adehun.participantResponse? (ps.filter (·.role = .depositor)).getLast?
    let beneficiary ←
      Adehun.participantResponse? (ps.filter (·.role = .beneficiary)).getLast?
    let accepted ← match u with
      | none => pure false
      | some u => do
          let participant ← Adehun.getParticipantForUser found.agreement.id u
          pure (participant.any (·.status = .accepted))
    pure
      { id := found.agreement.id
        title := found.agreement.title
        description := found.agreement.description
        amount := found.agreement.amount
        status := found.agreement.status
        depositor := depositor
        beneficiary := beneficiary
        conditionCount := n
        conditionsMetCount := m
        currentUserAccepted := accepted
        isFunded := b } : App AgreementResponse) := by
  refine h.bind (h.participantResponse? _) fun _ =>
    h.bind (h.participantResponse? _) fun _ => ?_
  cases u with
  | none => exact h.bind (h.ret _) fun _ => h.ret _
  | some u =>
      exact h.bind (h.getParticipantForUser _ _) fun _ =>
        h.bind (h.ret _) fun _ => h.ret _

theorem toAgreementResponse (found : Found) (n m : Nat) (u : Option Id) (b : Bool) :
    K _ (toAgreementResponse found n m u b) := by
  have hrest := fun ps => h.agreementResponse_of ps found n m u b
  exact h.ite (h.bind (h.getParticipantsForAgreement _) hrest) (h.bind (h.ret _) hrest)

theorem getAgreement (a : Id) (u : Option Id) : K _ (getAgreement a u) := by
  refine h.bind (h.getById a) fun found => ?_
  cases found with
  | none => exact h.raise _
  | some found =>
      exact h.bind (h.select _) fun _ => h.bind (h.select _) fun _ =>
        h.toAgreementResponse _ _ _ _ _

theorem toDisputeResponse (d : Id) : K _ (toDisputeResponse d) :=
  h.bind (h.attributes _ _) fun _ => h.bind (h.attributes _ _) fun _ =>
    h.bind (h.loadAll _ _) fun _ => h.ret _

theorem getDispute (d : Id) : K _ (getDispute d) := by
  refine h.bind (h.get _ _) fun found => ?_
  cases found with
  | none => exact h.ret _
  | some d => exact h.bind (h.loadAll _ _) fun _ => h.ret _

theorem conditionResponse (c : Condition) : K _ (conditionResponse c) :=
  h.bind (h.attributes _ _) fun _ => h.ret _

/-! ## Conditions -/

theorem requireCondition (c : Id) : K _ (requireCondition c) := by
  refine h.bind (h.get _ _) fun found => ?_
  cases found with
  | none => exact h.raise _
  | some c => exact h.bind (h.loadAll _ _) fun _ => h.ret _

theorem requireDepositor (c : Condition) (u : Id) : K _ (requireDepositor c u) := by
  refine h.bind (h.getParticipantForUser _ _) fun found => ?_
  cases found with
  | none => exact h.raise _
  | some p =>
      refine h.bind (h.raiseIf _ _) fun _ => h.bind (h.reads _ trivial trivial) fun found => ?_
      cases found with
      | none => exact h.raise _
      | some a => exact h.bind (h.raiseIf _ _) fun _ => h.raiseIf _ _

theorem saveDecision (c : Id) (f : Patch adehun .condition) : K _ (saveDecision c f) :=
  h.bind (h.stages _ rfl rfl) fun _ => h.bind h.commit fun _ => h.bind (h.refresh _ _) fun _ =>
    h.bind (h.cacheDelete _) fun _ => h.bind (h.attributes _ _) fun _ =>
      h.conditionResponse _

theorem approveCondition (c u : Id) : K _ (approveCondition c u) :=
  h.bind (h.requireCondition c) fun _ => h.bind (h.requireDepositor _ u) fun _ =>
    h.bind h.now fun _ => h.saveDecision c _

theorem rejectCondition (c u : Id) (reason : String) : K _ (rejectCondition c u reason) :=
  h.bind (h.requireCondition c) fun _ => h.bind (h.requireDepositor _ u) fun _ =>
    h.saveDecision c _

theorem getParticipantOrInvitationByEmail (email : String) (a : Id) :
    K _ (getParticipantOrInvitationByEmail email a) := by
  refine h.bind (h.select _) fun users => h.bind (h.loadParticipants _) fun rows => ?_
  cases rows.head? with
  | none => exact h.bind (h.getInvitationByAgreementId _ _) fun _ => h.ret _
  | some p => exact h.ret _

theorem addCondition (a u : Id) (data : ConditionCreate) : K _ (addCondition a u data) := by
  refine h.bind (h.getParticipantForUser _ _) fun found => ?_
  cases found with
  | none => exact h.raise _
  | some current =>
      refine h.bind (h.reads _ trivial trivial) fun found => ?_
      cases found with
      | none => exact h.raise _
      | some agreement =>
          refine h.bind (h.raiseIf _ _) fun _ =>
            h.bind (h.getParticipantOrInvitationByEmail _ _) fun found => ?_
          cases found with
          | none => exact h.raise _
          | some other =>
              refine h.bind (h.attempt ?_) fun saved => ?_
              · exact h.bind h.fresh fun _ => h.bind (h.stages _ rfl rfl) fun _ =>
                  h.bind h.commit fun _ => h.bind (h.refresh _ _) fun _ =>
                    h.bind (h.cacheDelete _) fun _ => h.bind (h.requireCondition _) fun _ =>
                      h.conditionResponse _
              · cases saved with
                | ok r => exact h.ret r
                | error e => exact h.bind h.rollback fun _ => h.raise _

theorem allConditionsApproved (a : Id) : K _ (allConditionsApproved a) :=
  h.bind (h.loadAll _ _) fun _ => h.ret _

/-! ## Notifications and websockets -/

theorem notify (u : Id) (type : NotificationType) (title : String) {message : App String}
    (hm : K _ message) : K _ (notify u type title message) := by
  refine h.bind (h.attempt (h.bind hm fun m => ?_)) fun _ => h.ret _
  exact h.bind h.fresh fun _ => h.bind (h.stages _ rfl rfl) fun _ => h.bind h.commit fun _ =>
    h.bind (h.refresh _ _) fun _ => h.ret _

theorem notifyEach (us : List Id) (type : NotificationType) (title : String)
    {message : App String} (hm : K _ message) : K _ (notifyEach us type title message) :=
  h.bind (h.forEach (fun u => h.notify u type title hm) us) fun _ => h.ret _

theorem sendToUser (u : Id) : K _ (sendToUser u) :=
  h.bind (h.await (c := .sendToUser u) trivial) fun _ => h.ret _

theorem sendToEach (us : List Id) : K _ (sendToEach us) :=
  h.bind (h.forEach h.sendToUser us) fun _ => h.ret _

theorem byName (u : Id) (rest : String) : K _ (byName u rest) :=
  h.bind (h.currentUser u) fun _ => h.ret _

theorem broadcastAgreementUpdate (a : Id) : K _ (broadcastAgreementUpdate a) :=
  h.bind (h.attempt (h.bind (h.getAgreement a none) fun _ => h.sendToEach _)) fun _ =>
    h.ret _

theorem announce (u : Id) (a : AgreementResponse) (type : NotificationType)
    (title : String) {message : App String} (hm : K _ message) :
    K _ (announce u a type title message) :=
  h.bind (h.notifyEach _ type title hm) fun _ => h.sendToEach _

theorem notifyAgreementParticipants (a u : Id) (type : NotificationType)
    (title message : String) : K _ (notifyAgreementParticipants a u type title message) := by
  refine h.bind (h.attempt (h.getAgreement a none)) fun found => ?_
  cases found with
  | error e => exact h.ret _
  | ok agreement => exact h.notifyEach _ type title (h.ret message)

theorem broadcastDisputeChange (d : DisputeResponse) : K _ (broadcastDisputeChange d) :=
  h.bind (h.sendToEach _) fun _ =>
    h.bind (h.attempt (h.bind (h.getAgreement _ none) fun _ => h.sendToEach _)) fun _ =>
      h.ret _

theorem refuseFunded (a : Id) (message : String) : K _ (refuseFunded a message) :=
  h.bind (h.select _) fun _ =>
    h.ite (h.bind (h.select _) fun _ => h.raiseIf _ _) (h.ret _)

/-! ## The choke point -/

omit h in
/-- An entry made under the lock of its wallet, without the commit. -/
theorem lockedEntry_commit (walletId : Id) (a : EntryArgs) :
    (do
      let wallet ← Adehun.lockWallet walletId
      let entry ← Adehun.applyLedgerEntry wallet.id a
      Adehun.commit
      pure (wallet.id, entry.id) : App (Id × Id)) = (do
        let ids ← (do
          let wallet ← Adehun.lockWallet walletId
          let entry ← Adehun.applyLedgerEntry wallet.id a
          pure (wallet.id, entry.id) : App (Id × Id))
        Adehun.commit
        pure ids) := by
  simp only [bind_assoc, pure_bind]

/-- `applyEntry`, by what it does under the lock of its wallet. -/
theorem applyEntry {a : EntryArgs} (hwallet : ∀ u, K _ (ensureWallet u))
    (hlocked : ∀ walletId, K _ (do
      let wallet ← Adehun.lockWallet walletId
      let entry ← Adehun.applyLedgerEntry wallet.id a
      pure (wallet.id, entry.id) : App (Id × Id))) : K _ (applyEntry a) := by
  refine h.bind (h.getEntryByReference _) fun found => ?_
  cases found with
  | some existing => exact h.replay existing
  | none =>
      refine h.bind (h.resolveWalletId hwallet _) fun walletId => ?_
      refine h.bind (h.attempt ?_) fun applied => ?_
      · rw [lockedEntry_commit]
        exact h.bind (hlocked walletId) fun ids => h.bind h.commit fun _ => h.ret ids
      · split
        · refine h.bind h.rollback fun _ => h.bind (h.getEntryByReference _) fun found => ?_
          cases found with
          | none => exact h.raise _
          | some existing => exact h.replay existing
        · exact h.bind h.rollback fun _ => h.raise _
        · exact h.bind (h.refresh .transaction _) fun _ =>
            h.bind (h.refresh .wallet _) fun _ => h.bind (h.cacheDelete _) fun _ => h.ret _

omit h in
theorem lockedTransfer_commit (a b : Id) (d c : EntryArgs) :
    (do
      Adehun.lockWallets a b
      let debitEntry ← Adehun.applyLedgerEntry a d
      let creditEntry ← Adehun.applyLedgerEntry b c
      Adehun.commit
      pure (debitEntry.id, creditEntry.id) : App (Id × Id)) = (do
        let ids ← (do
          Adehun.lockWallets a b
          let debitEntry ← Adehun.applyLedgerEntry a d
          let creditEntry ← Adehun.applyLedgerEntry b c
          pure (debitEntry.id, creditEntry.id) : App (Id × Id))
        Adehun.commit
        pure ids) := by
  simp only [bind_assoc, pure_bind]

/-- `applyTransfer`, by what it does under the locks of its wallets. -/
theorem applyTransfer {g : GroupId} {debit credit : LedgerLeg}
    (hwallet : ∀ u, K _ (ensureWallet u))
    (hlocked : ∀ a b, K _ (do
      Adehun.lockWallets a b
      let debitEntry ← Adehun.applyLedgerEntry a (debit.asArgs (.out g) g)
      let creditEntry ← Adehun.applyLedgerEntry b (credit.asArgs (.into g) g)
      pure (debitEntry.id, creditEntry.id) : App (Id × Id))) :
    K _ (applyTransfer g debit credit) := by
  refine h.bind (h.getEntriesByGroup _) fun existing => h.ite (h.replayTransfer _ _) ?_
  refine h.bind (h.resolveWalletId hwallet _) fun a =>
    h.bind (h.resolveWalletId hwallet _) fun b => h.bind (h.attempt ?_) fun applied => ?_
  · rw [lockedTransfer_commit]
    exact h.bind (hlocked a b) fun ids => h.bind h.commit fun _ => h.ret ids
  · split
    · exact h.bind h.rollback fun _ => h.bind (h.getEntriesByGroup _) fun existing =>
        h.ite (h.replayTransfer _ _) (h.raise _)
    · exact h.bind h.rollback fun _ => h.raise _
    · exact h.bind (h.refresh .transaction _) fun _ =>
        h.bind (h.refresh .transaction _) fun _ => h.bind (h.cacheDelete _) fun _ => h.ret _

theorem markEntryStatus
    (hstatus : ∀ id s t, K Unit (assign .transaction id (setEntryStatus s t)))
    (r : Reference) (s : LedgerEntryStatus) (t : Option Nat) (andCommit : Bool) :
    K _ (markEntryStatus r s t andCommit) := by
  refine h.bind (h.getEntryByReference r) fun found => ?_
  cases found with
  | none => exact h.ret _
  | some e =>
      have hrest : ∀ time, K _ (do
          assign .transaction e.id (setEntryStatus s time)
          if andCommit then do
            Adehun.commit
            some <$> Adehun.refresh .transaction e.id
          else some <$> Adehun.attributes .transaction e.id : App (Option Transaction)) := by
        intro time
        exact h.bind (hstatus _ _ _) fun _ =>
          h.ite (h.bind h.commit fun _ => h.map (h.refresh .transaction _))
            (h.map (h.attributes .transaction _))
      exact h.ite (h.bind (h.map h.now) hrest) (h.bind (h.ret _) hrest)

end Plain

namespace Booking

variable {K : (α : Type) → App α → Prop}

/-! ## Events -/

section Events

variable (h : Booking K .webhookEvent)

include h

theorem claim (k : DedupeKey) (e : EventType) (n : Option Nat)
    (r : Option PaystackReference) : K _ (claim k e n r) := by
  refine h.bind h.fresh fun id => ?_
  refine h.bind (h.upserts _ _ ?_) fun _ => h.bind h.commit fun _ => h.ret _
  intro db d hd
  split at hd
  · obtain rfl := List.mem_singleton.mp hd
    rfl
  · split at hd
    · obtain rfl := List.mem_singleton.mp hd
      rfl
    · cases hd

theorem mark (k : DedupeKey) (s : WebhookEventStatus) : K _ (mark k s) := by
  refine h.bind (h.loadFirst .webhookEvent _) fun found => ?_
  cases found with
  | none => exact h.ret _
  | some e => exact h.bind (h.books _ rfl) fun _ => h.commit

theorem markFailed (k : DedupeKey) (error : String) : K _ (markFailed k error) := by
  refine h.bind h.rollback fun _ => h.bind (h.loadFirst .webhookEvent _) fun found => ?_
  cases found with
  | none => exact h.ret _
  | some e => exact h.bind (h.books _ rfl) fun _ => h.commit

end Events

/-! ## Keys -/

section Keys

variable (h : Booking K .idempotencyKey)

include h

theorem sweepExpired : K _ sweepExpired := by
  refine h.bind (h.attempt (h.bind h.now fun time => ?_)) fun r => ?_
  · refine h.bind (h.upserts _ _ ?_) fun _ => h.commit
    intro db d hd
    obtain ⟨k, -, rfl⟩ := List.mem_map.mp hd
    rfl
  · cases r with
    | ok _ => exact h.ret _
    | error _ => exact h.rollback

theorem reserve (s : Settings) (u : Id) (endpoint key hash : String) :
    K _ (reserve s u endpoint key hash) := by
  refine h.bind h.now fun time => h.bind h.fresh fun id => ?_
  refine h.bind (h.upserts _ _ ?_) fun reserved => h.bind h.commit fun _ =>
    h.bind h.fresh fun n => h.ite_then (a := ()) h.sweepExpired fun _ => h.ret _
  intro db d hd
  split at hd
  · obtain rfl := List.mem_singleton.mp hd
    rfl
  · split at hd
    · obtain rfl := List.mem_singleton.mp hd
      rfl
    · cases hd

theorem completeKey (id : Id) (r : Response) : K _ (completeKey id r) := by
  refine h.bind (h.get _ _) fun found => ?_
  cases found with
  | none => exact h.ret _
  | some _ => exact h.bind (h.books _ rfl) fun _ => h.commit

theorem bindKeyReference (id : Id) (r : PaystackReference ⊕ Reference) :
    K _ (bindKeyReference id r) := by
  refine h.bind (h.get _ _) fun found => ?_
  cases found with
  | none => exact h.ret _
  | some _ => exact h.bind (h.books _ rfl) fun _ => h.commit

theorem releaseKey (id : Id) : K _ (releaseKey id) := by
  refine h.bind h.rollback fun _ => h.bind (h.upserts _ _ ?_) fun _ => h.commit
  intro db d hd
  dsimp only at hd
  split at hd
  · obtain rfl := List.mem_singleton.mp hd
    rfl
  · cases hd

theorem begin (s : Settings) (u : Id) (key : Option String) (endpoint hash : String) :
    K _ (begin s u key endpoint hash) := by
  cases key with
  | none => exact h.raise _
  | some key =>
      refine h.bind (h.raiseIf _ _) fun _ => h.bind (h.raiseIf _ _) fun _ =>
        h.bind (h.reserve _ _ _ _ _) fun reserved => ?_
      cases reserved with
      | some record => exact h.ret _
      | none =>
          refine h.bind (h.loadFirst .idempotencyKey _) fun found => ?_
          cases found with
          | none => exact h.ret _
          | some existing => exact h.ite (h.raise _) (h.ite (h.ret _) (h.raise _))

theorem bindReference (record : Option Id) (r : PaystackReference ⊕ Reference) :
    K _ (bindReference record r) := by
  cases record with
  | none => exact h.ret _
  | some id => exact h.bind (h.attempt (h.bindKeyReference id r)) fun _ => h.ret _

theorem complete (record : Option Id) (r : Response) : K _ (complete record r) := by
  cases record with
  | none => exact h.ret _
  | some id => exact h.bind (h.completeKey id r) fun _ => h.ret _

theorem releaseIfAbandoned (record : Option Id) : K _ (releaseIfAbandoned record) := by
  cases record with
  | none => exact h.ret _
  | some id => exact h.bind (h.attempt (h.releaseKey id)) fun _ => h.ret _

/-- A route under an idempotency key, by what it runs. -/
theorem idempotent (s : Settings) (u : Id) (key : Option String) (endpoint hash : String)
    {handler : Option Id → App Response} (hh : ∀ record, K _ (handler record)) :
    K _ (idempotent s u key endpoint hash handler) := by
  refine h.bind (h.begin _ _ _ _ _) fun begun => ?_
  cases begun with
  | replay r => exact h.ret _
  | proceed record =>
      refine h.bind (h.attempt (h.bind (hh record) fun _ => h.complete _ _)) fun done => ?_
      cases done with
      | ok r => exact h.ret _
      | error e => exact h.bind (h.releaseIfAbandoned _) fun _ => h.raise _

end Keys

end Booking

end Adehun
