import Adehun.Routine.Statements

/-!
# Requests to the provider, by their parts

The wallet and the webhook services write the records of what the provider
is asked for and has answered, and make the entries of deposits and
withdrawals. A property that these writes have is one that the requests have
which lead to them.
-/

namespace Adehun

open Sessions

/-- What the wallet and the webhook services do besides: they send money,
write intents, restate the status of an entry, and make entries for deposits
and withdrawals. -/
structure ProviderSide (K : (α : Type) → App α → Prop) : Prop where
  transfer : ∀ n code r reason, K _ (initiateTransfer n code r reason)
  intent : ∀ d : Write adehun, d.key.table = Table.paystackTransaction →
    K Unit (.perform (.stage d))
  entryStatus : ∀ id s t, K Unit (assign .transaction id (setEntryStatus s t))
  entry : ∀ (a : EntryArgs) (r : PaystackReference),
    a.reference = .deposit r ∨ a.reference = .withdrawal r ∨ a.reference = .reversal r →
    K _ (applyEntry a)

/-- The same, by what each entry is. -/
structure ProviderWrites (K : (α : Type) → App α → Prop) : Prop where
  transfer : ∀ n code r reason, K _ (initiateTransfer n code r reason)
  intent : ∀ d : Write adehun, d.key.table = Table.paystackTransaction →
    K Unit (.perform (.stage d))
  entryStatus : ∀ id s t, K Unit (assign .transaction id (setEntryStatus s t))
  deposit : ∀ (a : EntryArgs) (r : PaystackReference), a.entryType = .deposit →
    a.reference = .deposit r → K _ (applyEntry a)
  withdrawal : ∀ (a : EntryArgs) (r : PaystackReference), a.entryType = .withdrawal →
    a.reference = .withdrawal r → K _ (applyEntry a)
  reversal : ∀ (a : EntryArgs) (r : PaystackReference), a.entryType = .withdrawalReversal →
    a.reference = .reversal r → K _ (applyEntry a)

theorem ProviderSide.writes {K : (α : Type) → App α → Prop} (h : ProviderSide K) :
    ProviderWrites K where
  transfer := h.transfer
  intent := h.intent
  entryStatus := h.entryStatus
  deposit a r _ hr := h.entry a r (Or.inl hr)
  withdrawal a r _ hr := h.entry a r (Or.inr (Or.inl hr))
  reversal a r _ hr := h.entry a r (Or.inr (Or.inr hr))

/-- A change of a payment's record that leaves whose it is and what it is of,
and takes no record back to be pending. -/
structure Restates (f : Patch adehun .paystackTransaction) : Prop where
  reference : ∀ p, PaystackTransaction.reference (f.run p) = PaystackTransaction.reference p
  userId : ∀ p, PaystackTransaction.userId (f.run p) = PaystackTransaction.userId p
  pending : ∀ p, PaystackTransaction.status (f.run p) = .pending →
    PaystackTransaction.status p = .pending ∧
      PaystackTransaction.amount (f.run p) = PaystackTransaction.amount p

theorem restates_setFailed {s : TransactionStatus} (hs : s ≠ .pending) (reason : String) :
    Restates (setFailed s reason) :=
  ⟨fun _ => rfl, fun _ => rfl, fun _ h => absurd h hs⟩

theorem restates_setTransfer (code : Option String) (id : Option Nat) :
    Restates (setTransfer code id) :=
  ⟨fun _ => rfl, fun _ => rfl, fun _ h => ⟨h, rfl⟩⟩

theorem restates_setArrived (code : Option String) : Restates (setArrived code) :=
  ⟨fun _ => rfl, fun _ => rfl, fun _ h => by cases h⟩

theorem restates_setCharged (n : Kobo) (id : Option Nat) (channel note : Option String) :
    Restates (setCharged n id channel note) :=
  ⟨fun _ => rfl, fun _ => rfl, fun _ h => by cases h⟩

theorem restates_setTransferred (id : Option Nat) (code : Option String) :
    Restates (setTransferred id code) :=
  ⟨fun _ => rfl, fun _ => rfl, fun _ h => by cases h⟩

/-- The same once more, by what becomes of the records; nothing is withdrawn. -/
structure ProviderRecords (K : (α : Type) → App α → Prop) : Prop where
  newIntent : ∀ p, K Unit (add .paystackTransaction p)
  outcome : ∀ id f, Restates f → K Unit (assign .paystackTransaction id f)
  entryStatus : ∀ id s t, K Unit (assign .transaction id (setEntryStatus s t))
  charge : ∀ data, K _ (handleChargeSuccess data)
  reversal : ∀ (a : EntryArgs) (r : PaystackReference), a.entryType = .withdrawalReversal →
    a.reference = .reversal r → K _ (applyEntry a)

/-- And what a withdrawal does besides. -/
structure ProviderParts (K : (α : Type) → App α → Prop) : Prop extends ProviderRecords K where
  transfer : ∀ n code r reason, K _ (initiateTransfer n code r reason)
  withdrawal : ∀ (a : EntryArgs) (r : PaystackReference), a.entryType = .withdrawal →
    a.reference = .withdrawal r → K _ (applyEntry a)

namespace Plain

variable {K : (α : Type) → App α → Prop} (h : Plain K)

include h

theorem createPaystackTransaction {row : PaystackTransaction}
    (hintent : K Unit (add .paystackTransaction row)) (andCommit : Bool) :
    K _ (createPaystackTransaction row andCommit) :=
  h.bind hintent fun _ =>
    h.ite (h.bind h.commit fun _ => h.refresh .paystackTransaction _)
      (h.bind h.flush fun _ => h.attributes .paystackTransaction _)

/-- A charge, by the record that is restated and the deposit. -/
theorem creditCharge (hout : ∀ id f, Restates f → K Unit (assign .paystackTransaction id f))
    (hdeposit : ∀ (a : EntryArgs) (r : PaystackReference), a.entryType = .deposit →
      a.reference = .deposit r → K _ (Adehun.applyEntry a))
    (row : PaystackTransaction) (data : WebhookData) (n : Int) : K _ (creditCharge row data n) :=
  h.bind (hout _ _ (restates_setCharged _ _ _ _)) fun _ =>
    h.bind (h.savePaystackTransaction _ _) fun _ =>
      h.bind (hdeposit _ row.reference rfl rfl) fun _ =>
        h.bind (h.attributes .paystackTransaction _) fun _ =>
          h.bind (h.attributes .wallet _) fun _ => h.ret _

theorem handleChargeSuccess
    (hout : ∀ id f, Restates f → K Unit (assign .paystackTransaction id f))
    (hdeposit : ∀ (a : EntryArgs) (r : PaystackReference), a.entryType = .deposit →
      a.reference = .deposit r → K _ (Adehun.applyEntry a)) (data : WebhookData) :
    K _ (handleChargeSuccess data) := by
  unfold Adehun.handleChargeSuccess
  split
  · exact h.ret _
  · refine h.bind (h.getPaystackTransaction _) fun found => ?_
    cases found with
    | none => exact h.ret _
    | some row =>
        refine h.ite (h.ret _) (h.bind (h.attempt (h.request rfl _)) fun answer => ?_)
        cases answer with
        | error e => exact h.ite (h.ret _) (h.raise _)
        | ok d =>
            refine h.bind (h.fields d) fun d => h.ite (h.ret _) (h.ite (h.ret _) ?_)
            split
            · exact h.ret _
            · exact h.raise _
            · exact h.creditCharge hout hdeposit _ _ _

theorem parts (hp : ProviderWrites K) : ProviderParts K where
  transfer := hp.transfer
  newIntent _ := hp.intent _ rfl
  outcome _ _ _ := hp.intent _ rfl
  entryStatus := hp.entryStatus
  charge := h.handleChargeSuccess (fun _ _ _ => hp.intent _ rfl) hp.deposit
  withdrawal := hp.withdrawal
  reversal := hp.reversal

variable (hp : ProviderRecords K)

include hp

theorem requestWalletFund (u : Id) (email : String) (data : WalletCreate) :
    K _ (requestWalletFund u email data) := by
  refine h.bind (h.bind h.fresh fun _ => h.ret _) fun reference => h.bind h.fresh fun id => ?_
  refine h.bind (h.createPaystackTransaction (hp.newIntent _) _) fun row => ?_
  refine h.bind (h.attempt (h.request rfl _)) fun started => ?_
  cases started with
  | error e =>
      exact h.ite (h.bind (hp.outcome _ _ (restates_setFailed (by decide) _)) fun _ =>
        h.bind (h.savePaystackTransaction _ _) fun _ => h.raise _) (h.raise _)
  | ok d =>
      refine h.bind (h.fields d) fun d => ?_
      split
      · exact h.raise _
      · exact h.ret _

omit hp in
/-- A withdrawal that is taken back, by the record that is restated, the status
of the debit, and the reversal. -/
theorem reverseWithdrawal_of
    (hout : ∀ id f, Restates f → K Unit (assign .paystackTransaction id f))
    (hstatus : ∀ id s t, K Unit (assign .transaction id (setEntryStatus s t)))
    {r : PaystackReference} {u : Id} {amount : Kobo}
    (hentry : ∀ a : EntryArgs, a.entryType = .withdrawalReversal → a.reference = .reversal r →
      a.userId = u → a.amount = amount → K _ (Adehun.applyEntry a)) (reason : String) :
    K _ (reverseWithdrawal r u amount reason) := by
  have hrest : ∀ _ : Unit, K _ (do
      let _ ← Adehun.markEntryStatus (.withdrawal r) .reversed none false
      let _ ← Adehun.applyEntry
        { userId := u
          entryType := .withdrawalReversal
          amount := amount
          reference := .reversal r
          description := some "Withdrawal could not be sent" } : App Unit) := by
    intro _
    exact h.bind (h.markEntryStatus hstatus _ _ _ _) fun _ =>
      h.bind (hentry _ rfl rfl rfl rfl) fun _ => h.ret _
  refine h.bind (h.getPaystackTransaction r) fun found => ?_
  cases found with
  | none => exact hrest ()
  | some row =>
      exact h.bind (hout _ _ (restates_setFailed (by decide) _)) fun _ =>
        h.bind (h.savePaystackTransaction _ _) fun _ => hrest ()

theorem reverseWithdrawal (r : PaystackReference) (u : Id) (amount : Kobo)
    (reason : String) : K _ (reverseWithdrawal r u amount reason) :=
  h.reverseWithdrawal_of hp.outcome hp.entryStatus (fun a ht hr _ _ => hp.reversal a r ht hr) reason

omit hp in
theorem requestWithdrawal (hp : ProviderParts K) (s : Settings) (u : Id) (p : WithdrawalCreate) :
    K _ (requestWithdrawal s u p) := by
  refine h.bind (h.raiseIf _ _) fun _ => h.bind (h.raiseIf _ _) fun _ =>
    h.bind (h.raiseIf _ _) fun _ => h.bind (h.resolveBankAccount _ _) fun account => ?_
  refine h.bind (h.bind h.fresh fun _ => h.ret _) fun reference => h.bind h.fresh fun id => ?_
  refine h.bind (h.createPaystackTransaction (hp.newIntent _) _) fun row => ?_
  refine h.bind (hp.withdrawal _ reference rfl rfl) fun result => ?_
  refine h.bind (h.attempt (h.bind (h.attributes .bankAccount _) fun _ =>
    hp.transfer _ _ _ _)) fun sent => ?_
  cases sent with
  | error e =>
      exact h.ite (h.bind (h.attributes .wallet _) fun _ => h.withdrawalResponse _ _ _)
        (h.ite (h.bind (h.reverseWithdrawal hp.toProviderRecords _ _ _ _) fun _ => h.raise _)
          (h.raise _))
  | ok d =>
      exact h.bind (h.fields d) fun d => h.bind (hp.outcome _ _ (restates_setTransfer _ _)) fun _ =>
        h.bind (h.savePaystackTransaction _ _) fun _ =>
          h.bind (h.attributes .wallet _) fun _ => h.withdrawalResponse _ _ _

theorem reconcilePendingWithdrawal (row : PaystackTransaction) :
    K _ (reconcilePendingWithdrawal row) := by
  refine h.bind (h.attempt (h.request rfl _)) fun answer => ?_
  cases answer with
  | error e => exact h.ite (h.ret _) (h.raise _)
  | ok d =>
      refine h.bind (h.fields d) fun d => ?_
      split
      · exact h.bind (hp.outcome _ _ (restates_setArrived _)) fun _ =>
          h.bind (h.savePaystackTransaction _ _) fun _ =>
            h.bind (h.markEntryStatus hp.entryStatus _ _ _ _) fun _ => h.ret _
      · exact h.reverseWithdrawal hp _ _ _ _
      · exact h.reverseWithdrawal hp _ _ _ _
      · exact h.reverseWithdrawal hp _ _ _ _
      · exact h.ret _

omit hp in
/-- What is shown of a withdrawal. -/
theorem shownWithdrawal (rowId u : Id) : K _ (do
    let row ← Adehun.attributes .paystackTransaction rowId
    let account ← match row.bankAccountId with
      | some id => Adehun.getBankAccountForUser id u
      | none => pure none
    let wallet ← Adehun.getUserWallet u
    pure
      { reference := row.reference
        amount := row.amount
        currency := row.currency
        status := row.status
        bankAccountId := row.bankAccountId
        accountNumber := account.map (·.accountNumber)
        bankName := account.map (·.bankName)
        availableBalance := wallet.map (·.availableBalance)
        failureReason := row.failureReason } : App WithdrawalResponse) := by
  refine h.bind (h.attributes .paystackTransaction _) fun row => ?_
  have hrest : ∀ account : Option BankAccount, K _ (do
      let wallet ← Adehun.getUserWallet u
      pure
        { reference := row.reference
          amount := row.amount
          currency := row.currency
          status := row.status
          bankAccountId := row.bankAccountId
          accountNumber := account.map (·.accountNumber)
          bankName := account.map (·.bankName)
          availableBalance := wallet.map (·.availableBalance)
          failureReason := row.failureReason } : App WithdrawalResponse) :=
    fun account => h.bind (h.getUserWallet u) fun _ => h.ret _
  dsimp only
  split
  · exact h.bind (h.loadFirst .bankAccount _) hrest
  · exact h.bind (h.ret _) hrest

omit hp in
/-- `getWithdrawal`, by what it reconciles. -/
theorem getWithdrawal_of (hr : ∀ row, K _ (Adehun.reconcilePendingWithdrawal row)) (u : Id)
    (r : PaystackReference) : K _ (getWithdrawal u r) := by
  refine h.bind (h.getPaystackTransactionForUser r u) fun found => ?_
  cases found with
  | none => exact h.raise _
  | some row => exact h.ite_then (a := ()) (hr row) fun _ => h.shownWithdrawal row.id u

theorem getWithdrawal (u : Id) (r : PaystackReference) : K _ (getWithdrawal u r) :=
  h.getWithdrawal_of (h.reconcilePendingWithdrawal hp) u r

omit hp in
/-- A confirmed transfer, by the record and the status of the entry. -/
theorem handleTransferSuccess
    (hout : ∀ id f, Restates f → K Unit (assign .paystackTransaction id f))
    (hstatus : ∀ id s t, K Unit (assign .transaction id (setEntryStatus s t)))
    (data : WebhookData) : K _ (handleTransferSuccess data) := by
  unfold Adehun.handleTransferSuccess
  split
  · exact h.ret _
  · refine h.bind (h.getPaystackTransaction _) fun found => ?_
    cases found with
    | none => exact h.ret _
    | some row =>
        refine h.ite (h.ret _) (h.bind (h.attempt (h.request rfl _)) fun answer => ?_)
        cases answer with
        | error e => exact h.ite (h.ret _) (h.raise _)
        | ok d =>
            refine h.bind (h.fields d) fun d => h.ite (h.ret _) ?_
            exact h.bind (hout _ _ (restates_setTransferred _ _)) fun _ =>
              h.bind (h.savePaystackTransaction _ _) fun _ => h.bind h.now fun _ =>
                h.bind (h.markEntryStatus hstatus _ _ _ _) fun _ =>
                  h.bind (h.attributes .paystackTransaction _) fun _ =>
                    h.bind (h.getUserWallet _) fun _ => h.ret _

theorem handleTransferReversal (data : WebhookData) {s : TransactionStatus} (hs : s ≠ .pending) :
    K _ (handleTransferReversal data s) := by
  unfold Adehun.handleTransferReversal
  split
  · exact h.ret _
  · refine h.bind (h.getPaystackTransaction _) fun found => ?_
    cases found with
    | none => exact h.ret _
    | some row =>
        refine h.ite (h.ret _) (h.bind (hp.outcome _ _ (restates_setFailed hs _)) fun _ =>
          h.bind (h.getEntryByReference _) fun found => ?_)
        cases found with
        | none => exact h.bind (h.savePaystackTransaction _ _) fun _ => h.ret _
        | some original =>
            exact h.bind (h.savePaystackTransaction _ _) fun _ =>
              h.bind (h.markEntryStatus hp.entryStatus _ _ _ _) fun _ =>
                h.bind (hp.reversal _ _ rfl rfl) fun _ =>
                  h.bind (h.attributes .paystackTransaction _) fun _ =>
                    h.bind (h.attributes .transaction _) fun _ =>
                      h.bind (h.attributes .wallet _) fun _ => h.ret _

theorem webhookHandler {e : EventType} {data : WebhookData} {p : App WebhookOutcome}
    (he : webhookHandler e data = some p) : K _ p := by
  cases e <;> cases he
  · exact hp.charge data
  · exact h.handleTransferSuccess hp.outcome hp.entryStatus data
  · exact h.handleTransferReversal hp data (by decide)
  · exact h.handleTransferReversal hp data (by decide)

end Plain

end Adehun
