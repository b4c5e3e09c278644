import Adehun.Reversals

/-!
# Returns, from whoever hears of the failure

The three ways to a reversal, each followed from what it looks at to the
entry: the request that is refused its transfer, the look at a withdrawal that
is pending, and the webhook.
-/

namespace Adehun

open Sessions
open Observer (Triple)
open Observer.Discipline

section Requests

variable {old : Reference → Prop} {i : Nat} {g : Matter}
  {R : Sessions.World adehun → Registry → Prop}

/-- What a session finds out, as long as no debit is on its way. -/
theorem Deals.know {w : Sessions.World adehun} {o : Registry} (h : Deals g i w o)
    (hg : ¬ g.Enters) {g' : Matter} (hholds : g'.Holds i w o) : Deals g' i w o :=
  { h with
    debits := fun t r ht hr => by
      obtain ⟨b, rfl, -⟩ := h.debits t r ht hr
      exact absurd trivial hg
    holds := hholds }

theorem deals_idle (hg : ¬ g.Enters) (w : Sessions.World adehun) (o : Registry)
    (h : Deals g i w o ∨ Deals g.lost i w o) : Deals .idle i w o := by
  rcases h with h | h
  · exact h.below hg
  · refine h.below ?_
    cases g <;> exact id

/-- A matter that neither end of a transaction changes. -/
theorem still_returning (hlost : g.lost = g) (hdone : g.done = g) : (returning old).Still g :=
  ⟨hlost, hdone, trivial, fun _ => id⟩

variable (old) in
theorem reading_returning_of (hR : ∀ w o, Deals g i w o ∨ Deals g.lost i w o → R w o) :
    Reading fun _ p => Triple (returning old).logic i (Deals g i) p (fun _ => Deals g i) R :=
  reading_triple hR fun _ _ => id

variable (old i) in
theorem reading_returning (hg : ¬ g.Enters) : Reading fun _ p =>
    Triple (returning old).logic i (Deals g i) p (fun _ => Deals g i) (Deals .idle i) :=
  reading_returning_of old (deals_idle hg)

/-! ### What is routine -/

theorem deals_stage_of_ne {w : Sessions.World adehun} {o : Registry} {d : Write adehun}
    (hname : d.key.table ≠ .paystackTransaction) (hvoucher : d.key.table ≠ .transaction)
    (h : Deals g i w o) : Deals g i (w.stage i d) o := by
  refine h.stage (Write.retains_of_ne hname) (Write.retains_of_ne hvoucher) ?_ ?_ ?_
  · rintro id f rfl
    exact absurd rfl hname
  · rintro p rfl
    exact hname rfl
  · rintro t rfl
    exact absurd rfl hvoucher

variable (old) in
theorem routine_returning (hlost : g.lost = g) (hdone : g.done = g) :
    Routine fun _ p => (returning old).Keeps g p :=
  routine_watched (still_returning hlost hdone)
    (fun _ hd _ _ _ _ _ h => deals_stage_of_ne (ne_of_side hd rfl) (ne_of_side hd rfl) h)
    fun _ hd _ _ _ _ _ h _ _ => Deals.put h (ne_of_side hd rfl) (ne_of_side hd rfl)

theorem returning_add {t : Table} (r : t.Row) (ht : t ≠ .transaction)
    (hp : t ≠ .paystackTransaction) :
    Triple (returning old).logic i (Deals g i) (add t r) (fun _ => Deals g i) R :=
  triple_stage fun _ _ _ _ h => deals_stage_of_ne hp ht h

theorem returning_assign {t : Table} (id : Id) (f : Patch adehun t) (ht : t ≠ .transaction)
    (hp : t ≠ .paystackTransaction) :
    Triple (returning old).logic i (Deals g i) (assign t id f) (fun _ => Deals g i) R :=
  triple_stage fun _ _ _ _ h => deals_stage_of_ne hp ht h

/-- A record is restated. -/
theorem returning_record (id : Id) (f : Patch adehun .paystackTransaction) (hf : Restates f) :
    Triple (returning old).logic i (Deals g i) (assign .paystackTransaction id f)
      (fun _ => Deals g i) R := by
  refine triple_stage fun w o _ _ h => Deals.stage h ?_ ?_ ?_ ?_ ?_
  · intro _ p
    rw [PaystackTransaction.name, hf.reference p, hf.userId p]
    rfl
  · exact Write.retains_of_ne (by simp [Write.key])
  · intro id' f' heq
    cases heq
    exact hf
  · intro p heq
    cases heq
  · intro t heq
    cases heq

/-- An entry changes its status only. -/
theorem returning_status (id : Id) (s : LedgerEntryStatus) (time : Option Nat) :
    Triple (returning old).logic i (Deals g i) (assign .transaction id (setEntryStatus s time))
      (fun _ => Deals g i) R := by
  refine triple_stage fun w o _ _ h => Deals.stage h ?_ (fun _ _ => rfl) ?_ ?_ ?_
  · exact Write.retains_of_ne (by simp [Write.key])
  · intro id' f' heq
    cases heq
  · intro p heq
    cases heq
  · intro t heq
    cases heq

/-- An entry that is no debit, and that returns what was taken if it is a
reversal. -/
theorem returning_entry {e : Transaction} (href : ∀ r, e.reference ≠ .withdrawal r)
    (hreturned : e.type = .withdrawalReversal → ∀ w o, Deals g i w o → Returned w.db e) :
    Triple (returning old).logic i (Deals g i) (add .transaction e) (fun _ => Deals g i) R := by
  refine triple_stage fun w o _ _ h => Deals.stage h ?_ trivial ?_ ?_ ?_
  · exact Write.retains_of_ne (by simp [Write.key])
  · intro id' f' heq
    cases heq
  · intro p heq
    cases heq
  · intro t heq
    cases heq
    exact ⟨href, fun htype => hreturned htype w o h⟩

theorem returning_commit (hR : ∀ w o, Deals g i w o ∨ Deals g.lost i w o → R w o) :
    Triple (returning old).logic i (Deals g i) commit (fun _ => Deals g.done i) R :=
  triple_commit hR trivial

theorem returning_ensureWallet (hg : ¬ g.Enters) (hdone : g.done = g) (u : Id) :
    Triple (returning old).logic i (Deals g i) (ensureWallet u) (fun _ => Deals g i)
      (Deals .idle i) := by
  refine (reading_returning old i hg).ensureWallet (fun x u => ?_) ?_ u
  · refine triple_upsert (deals_idle hg) ?_
    intro db d hd j w o _ _ h _ _
    dsimp only at hd
    split at hd
    · cases hd
    · obtain rfl := List.mem_singleton.mp hd
      exact Deals.put h (by simp [Write.key]) (by simp [Write.key])
  · have h : Triple (returning old).logic i (Deals g i) commit (fun _ => Deals g.done i)
        (Deals .idle i) := returning_commit (deals_idle hg)
    rw [hdone] at h
    exact h

theorem returning_keepsWallet (hlost : g.lost = g) (hdone : g.done = g) (u : Id) :
    (returning old).Keeps g (ensureWallet u) := by
  refine (routine_returning old hlost hdone).keeps_watched_ensureWallet
    (still_returning hlost hdone) ?_ u
  exact fun x u i w o _ _ h _ _ =>
    Deals.put h (by simp [newWallet, Write.key]) (by simp [newWallet, Write.key])

/-! ### Movements on one wallet, and between two -/

/-- `applyEntry` of a session whose matter stays, if the entry is no debit. -/
theorem returning_applyEntry (hlost : g.lost = g) (hdone : g.done = g)
    {a : EntryArgs} (href : ∀ r, a.reference ≠ .withdrawal r)
    (hreturned : a.entryType = .withdrawalReversal → ∀ e, Transaction.From a e → ∀ i w o,
      Deals g i w o → Returned w.db e) : (returning old).Keeps g (applyEntry a) := by
  have h := routine_returning old hlost hdone
  refine h.applyEntry (returning_keepsWallet hlost hdone) fun x => ?_
  refine h.bind (h.lockWallet x) fun wallet => h.bind ?_ fun entry => h.ret _
  refine h.applyLedgerEntry_of (fun _ _ _ _ => returning_assign _ _ (by decide) (by decide)) ?_
  intro e he i
  refine returning_entry (fun r hr => href r (he.reference.symm.trans hr)) fun htype => ?_
  exact hreturned (he.type.symm.trans htype) e he i

theorem returning_otherEntry {a : EntryArgs} (href : ∀ r, a.reference ≠ .withdrawal r)
    (htype : a.entryType ≠ .withdrawalReversal) :
    (returning old).Keeps Matter.idle (applyEntry a) :=
  returning_applyEntry rfl rfl href fun h => absurd h htype

theorem returning_applyTransfer {gr : GroupId} {d c : LedgerLeg}
    (hd : d.entryType = .escrowReleaseOut) (hc : c.entryType = .escrowReleaseIn) :
    (returning old).Keeps Matter.idle (applyTransfer gr d c) := by
  have h := routine_returning old (g := .idle) rfl rfl
  have hentry : ∀ {x : Id} {a : EntryArgs}, (∀ r, a.reference ≠ .withdrawal r) →
      a.entryType ≠ .withdrawalReversal →
      (returning old).Keeps Matter.idle (applyLedgerEntry x a) := by
    intro x a href htype
    refine h.applyLedgerEntry_of (fun _ _ _ _ => returning_assign _ _ (by decide) (by decide)) ?_
    intro e he i
    refine returning_entry (fun r hr => href r (he.reference.symm.trans hr)) fun hrev => ?_
    exact absurd (he.type.symm.trans hrev) htype
  refine h.applyTransfer (returning_keepsWallet rfl rfl) fun x y => ?_
  refine h.bind (h.lockWallets x y) fun _ => h.bind (hentry ?_ ?_) fun _ =>
    h.bind (hentry ?_ ?_) fun _ => h.ret _
  · exact fun _ => Reference.noConfusion
  · show d.entryType ≠ .withdrawalReversal
    rw [hd]
    decide
  · exact fun _ => Reference.noConfusion
  · show c.entryType ≠ .withdrawalReversal
    rw [hc]
    decide

theorem returning_escrowSide : EscrowSide fun _ p => (returning old).Keeps Matter.idle p := by
  refine (routine_returning old rfl rfl).escrowSide_of_entries ?_ ?_ ?_ ?_
  · exact fun _ _ ht hp _ => returning_add _ ht hp
  · exact fun _ _ _ ht hp _ => returning_assign _ _ ht hp
  · rintro a (⟨ha, x, hx⟩ | ⟨ha, x, hx⟩) <;>
      exact returning_otherEntry (fun r hr => Reference.noConfusion (hx.symm.trans hr))
        (by rw [ha]; decide)
  · exact fun _ _ _ hd hc => returning_applyTransfer hd hc

/-! ### The record and the debit -/

/-- A new number is nobody else's, and neither a bill nor an entry has it. -/
theorem returning_draw {f : Nat → PaystackReference} (hf : ∀ n, (f n).number = n) :
    Triple (returning old).logic i (Deals .idle i)
      (do
        let n ← fresh
        pure (f n))
      (fun r => Deals (.unused r) i) (Deals .idle i) := by
  refine Triple.bind (Q := fun n => Deals (.unused (f n)) i)
    (triple_see (deals_idle id) trivial ?_) fun n => Triple.ret fun _ _ h => h
  intro w o c n w₂ _ hgood h he hguard _
  cases he
  have hfree : o.drawer c.value = none := hguard
  have hlater : Deals .idle i w (o.draw i c.value) :=
    Deals.later h rfl fun _ hm => Registry.draw_of_some hm
  refine hlater.know id ⟨?_, ?_, ?_⟩
  · rw [hf]
    exact Registry.draw_self hfree
  · intro t ht hr
    have hdrawn := hgood.drawn _ (hgood.debits t ht _ hr).1
    rw [hf] at hdrawn
    exact hdrawn hfree
  · intro b hb hr
    rcases List.mem_append.mp hb with hb | hb
    · have hdrawn := hgood.drawn b hb
      rw [hr, hf] at hdrawn
      exact hdrawn hfree
    · obtain ⟨p, hp, rfl⟩ := mem_billed.mp hb
      have hheld : o.drawer p.reference.number = some i := Deals.held h p hp
      have hnumber : p.reference.number = c.value := by
        rw [show p.reference = f c.value from hr, hf]
      rw [hnumber, hfree] at hheld
      cases hheld

/-- The record is written, and committed or not. -/
theorem returning_createPaystackTransaction {row : PaystackTransaction} {r : PaystackReference}
    (hrow : row.reference = r) (andCommit : Bool) :
    Triple (returning old).logic i (Deals (.unused r) i) (createPaystackTransaction row andCommit)
      (fun _ => Deals (.noted row.bill) i) (Deals .idle i) := by
  subst hrow
  have h := reading_returning old i (g := .noted row.bill) id
  refine Triple.bind (triple_stage fun w o _ _ h => Deals.note h) fun _ => ?_
  refine h.ite (Triple.bind (returning_commit (deals_idle id)) fun _ => ?_) ?_
  · exact h.refresh .paystackTransaction _
  · exact h.flush.bind fun _ => h.attributes .paystackTransaction _

/-- Under a number that is the session's alone there is no debit. -/
theorem returning_getEntryByReference {r : PaystackReference} (hg : ¬ g.Enters)
    (hnone : ∀ w o, Deals g i w o → Undebited w.db r) :
    Triple (returning old).logic i (Deals g i) (getEntryByReference (.withdrawal r))
      (Looked (fun _ _ _ => False) (Deals g i)) (Deals .idle i) := by
  refine triple_loadFirst (triple_firstRow (t := Table.transaction) (deals_idle hg)
    (fun _ => id) (fun _ _ _ _ => rfl) ?_)
  intro w o w₂ alive t row hw _ h _ _ _ ht hr _ _
  refine Deals.undebited h hw ?_ (hnone w o h) t ht (by simpa using hr)
  rintro b rfl
  exact absurd trivial hg

/-- What a failed debit leaves: nothing, or a debit that is not committed. -/
def Unsettled (i : Nat) (b : Bill) (w : Sessions.World adehun) (o : Registry) : Prop :=
  Deals (.noted b) i w o ∨ Deals (.entering b) i w o ∨ Deals (.drew b.1) i w o

/-- `applyEntry` of a withdrawal ends with the debit of the bill in the ledger. -/
theorem returning_withdraw {a : EntryArgs} {b : Bill} (htype : a.entryType = .withdrawal)
    (href : a.reference = .withdrawal b.1) (huser : a.userId = b.2.1) (hamount : a.amount = b.2.2) :
    Triple (returning old).logic i (Deals (.noted b) i) (applyEntry a)
      (fun _ => Deals (.owed b) i) (Deals .idle i) := by
  have h := reading_returning old i (g := .noted b) id
  have hk := routine_returning old (g := .owed b) rfl rfl
  have hlook : Triple (returning old).logic i (Deals (.noted b) i)
      (getEntryByReference (.withdrawal b.1)) (Looked (fun _ _ _ => False) (Deals (.noted b) i))
      (Deals .idle i) := returning_getEntryByReference id fun w o h => h.holds.2.1
  have hagain : Triple (returning old).logic i (Deals (.drew b.1) i)
      (getEntryByReference (.withdrawal b.1)) (Looked (fun _ _ _ => False) (Deals (.drew b.1) i))
      (Deals .idle i) := returning_getEntryByReference id fun w o h => h.holds.2
  rw [← href] at hlook hagain
  refine triple_applyEntry (F := fun _ _ _ => False) (T := Deals (.drew b.1) i)
    (S := Unsettled i b) (V := fun _ => Deals (.noted b) i) (N := fun _ => Deals (.owed b) i)
    hlook ?_ ?_ ?_ ?_ hagain (fun _ _ h => h.below id) ?_
  · exact fun _ _ _ hfalse => hfalse.elim
  · exact h.resolveWalletId (returning_ensureWallet id rfl) _
  · intro x
    have hr : Reading fun _ p => Triple (returning old).logic i (Deals (.noted b) i) p
        (fun _ => Deals (.noted b) i) (Unsettled i b) :=
      reading_returning_of old fun _ _ h => h.imp id Or.inr
    refine (hr.lockWallet x).bind fun wallet => ?_
    refine Triple.bind (Q := fun _ => Deals (.entering b) i) ?_ fun entry =>
      Triple.bind (returning_commit fun _ _ h => Or.inr h) fun _ => Triple.ret fun _ _ h => h
    refine triple_applyLedgerEntry hr (fun _ _ _ => returning_assign _ _ (by decide) (by decide)) ?_
    intro e he
    refine triple_stage fun w o _ _ h => Deals.enter h ?_
    simp only [Transaction.voucher, Bill.debit, he.type, he.reference, he.userId, he.amount, htype,
      href, huser, hamount]
  · rintro w o (h | h | h)
    · exact triple_rollback (D := returning old) w o h
    · exact triple_rollback (D := returning old) w o h
    · exact triple_rollback (D := returning old) w o h
  · intro ids
    refine Triple.conseq (?_ : Triple _ i (Deals (.owed b) i) _ (fun _ => Deals (.owed b) i)
      (Deals (.owed b) i)) (fun _ _ h => h) (fun _ _ _ h => h) fun _ _ h => h.below id
    exact hk.bind (hk.refresh .transaction _) (fun _ => hk.bind (hk.refresh .wallet _) fun _ =>
      hk.bind (hk.cacheDelete _) fun _ => hk.ret _) i

/-! ### What is owed is returned -/

/-- The reversal of a debit that is in the ledger. -/
theorem returning_reversal {b : Bill} {a : EntryArgs} (href : a.reference = .reversal b.1)
    (huser : a.userId = b.2.1) (hamount : a.amount = b.2.2) :
    (returning old).Keeps (Matter.owed b) (applyEntry a) := by
  refine returning_applyEntry rfl rfl ?_ ?_
  · intro r hr
    rw [href] at hr
    cases hr
  · intro _ e he i w o h
    refine ⟨b.1, he.reference.trans href, ?_⟩
    rw [he.userId, he.amount, huser, hamount]
    exact h.holds

theorem returning_reverseWithdrawal (b : Bill) (reason : String) :
    (returning old).Keeps (Matter.owed b) (reverseWithdrawal b.1 b.2.1 b.2.2 reason) :=
  (routine_returning old rfl rfl).reverseWithdrawal_of (fun id f hf _ => returning_record id f hf)
    (fun id s t _ => returning_status id s t)
    (fun _ _ href huser hamount => returning_reversal href huser hamount) reason

/-- A request ends where it knows nothing any more. -/
theorem returning_forget {α : Type} {p : App α} (hg : ¬ g.Enters)
    (h : (returning old).Keeps g p) (i : Nat) : Triple (returning old).logic i (Deals g i) p
      (fun _ => Deals .idle i) (Deals .idle i) :=
  Triple.conseq (h i) (fun _ _ h => h) (fun _ _ _ h => h.below hg) fun _ _ h => h.below hg

theorem returning_requestWithdrawal (s : Settings) (u : Id) (p : WithdrawalCreate) :
    (returning old).Keeps Matter.idle (requestWithdrawal s u p) := by
  refine triple_requestWithdrawal (L := (returning old).logic) (P := fun i => Deals .idle i)
    (U := fun r i => Deals (.unused r) i) (V := fun r i => Deals (.noted (r, u, p.amount)) i)
    (E := fun r i => Deals (.owed (r, u, p.amount)) i)
    (T := fun r i => Deals (.owed (r, u, p.amount)) i) s
    (fun i => reading_returning old i id) (fun i => returning_draw fun _ => rfl)
    (fun r i => reading_returning old i id) ?_ ?_ ?_ ?_
    (fun r => (routine_returning old rfl rfl).toPlain)
    (fun _ _ _ hf _ => returning_record _ _ hf) ?_ (fun _ _ _ _ h => h.below id)
  · intro r row hrow i
    rw [← hrow]
    exact returning_createPaystackTransaction (congrArg Prod.fst hrow) false
  · exact fun r a htype href huser hamount i => returning_withdraw htype href huser hamount
  · exact fun r i => reading_returning_of old fun _ _ h => h.elim id id
  · exact fun r code reason i => (routine_returning old (g := .owed (r, u, p.amount)) rfl
      rfl).keeps_watched_transfer (still_returning rfl rfl) _ code r reason i
  · exact fun r reason => returning_reverseWithdrawal (r, u, p.amount) reason

/-- A deposit that is asked for: the record is written under a new number. -/
theorem returning_requestWalletFund (u : Id) (email : String) (data : WalletCreate) :
    (returning old).Keeps Matter.idle (requestWalletFund u email data) := by
  intro i
  have hk := routine_returning old (g := .idle) rfl rfl
  refine Triple.bind (returning_draw (f := .fund u) fun _ => rfl) fun reference => ?_
  have hunused := reading_returning old i (g := .unused reference) id
  refine hunused.fresh.bind fun id => ?_
  refine Triple.bind (returning_createPaystackTransaction (r := reference) (by rfl) true)
    fun row => ?_
  refine Triple.conseq (?_ : Triple _ i (Deals .idle i) _ (fun _ => Deals .idle i)
    (Deals .idle i)) (fun _ _ h => h.below (fun h => h)) (fun _ _ _ h => h) fun _ _ h => h
  refine hk.bind (hk.attempt (hk.request rfl _)) (fun started => ?_) i
  cases started with
  | error e =>
      exact hk.ite (hk.bind (fun _ => returning_record _ _ (restates_setFailed (by decide) _))
        fun _ => hk.bind (hk.savePaystackTransaction _ _) fun _ => hk.raise _) (hk.raise _)
  | ok d =>
      refine hk.bind (hk.fields d) fun d => ?_
      split
      · exact hk.raise _
      · exact hk.ret _

/-- Of a bill and a debit under its reference, the provider says that the
transfer failed: it is owed. -/
theorem owed_of_intent {b : Bill} {w : Sessions.World adehun} {o : Registry}
    (hgood : Billed old w.db o) (h : Deals (.intent b) i w o)
    (hposted : Posted w.db (.withdrawal b.1)) : Deals (.owed b) i w o := by
  obtain ⟨t, ht, hr⟩ := hposted
  obtain ⟨hbill, htype⟩ := hgood.debits t ht b.1 hr
  have hsame : b = (b.1, t.userId, t.amount) :=
    h.one b h.holds _ (List.mem_append_left _ hbill) rfl
  refine h.know id ?_
  show Owed w.db b
  rw [hsame]
  exact Owed.voucher ht hr htype

/-- What the provider says of a transfer that failed is said of a debit. -/
theorem returning_verifyTransfer (b : Bill) :
    Triple (returning old).logic i (Deals (.intent b) i) (verifyTransfer b.1)
      (fun x w o => Deals .idle i w o ∧ ∀ d, x = some d → d.status.isFailure = true →
        Deals (.owed b) i w o) (Deals .idle i) := by
  have hidle := deals_idle (g := .intent b) (i := i) id
  refine Triple.conseq (triple_requestFrom (q := .verifyTransfer b.1) (P := Deals (.intent b) i)
    (A := fun t w o => ∀ d, t.outcome.1 = .ok (some d) → d.status.isFailure = true →
      Deals (.owed b) i w o) ?_ ?_ (fun _ _ h => h.below id) 0 2) (fun _ _ h => h) ?_
    fun _ _ h => h
  · refine triple_see hidle trivial ?_
    intro w o c t w₂ _ hgood h he hguard h₂
    simp only [World.exec, Option.map_eq_some_iff] at he
    obtain ⟨t', hreply, heq⟩ := he
    cases heq
    exact ⟨h₂, fun d hd hfail => owed_of_intent hgood h (hguard t d hreply hd hfail)⟩
  · exact fun n => triple_quiet hidle trivial id
  · rintro x w o ⟨h, t, ht, howed⟩
    refine ⟨h.below id, ?_⟩
    rintro d rfl hfail
    exact howed d ht hfail

theorem returning_reconcilePendingWithdrawal (row : PaystackTransaction) :
    Triple (returning old).logic i (Deals (.intent row.bill) i) (reconcilePendingWithdrawal row)
      (fun _ => Deals .idle i) (Deals .idle i) := by
  have hk := routine_returning old (g := .idle) rfl rfl
  have hreverse : ∀ d : ProviderData, d.status.isFailure = true → Triple (returning old).logic i
      (fun w o => Deals .idle i w o ∧ (d.status.isFailure = true → Deals (.owed row.bill) i w o))
      (reverseWithdrawal row.reference row.userId row.amount
        (messageOr (d.reason.getD "") "Transfer failed"))
      (fun _ => Deals .idle i) (Deals .idle i) := fun d hd =>
    (returning_forget id (returning_reverseWithdrawal row.bill _) i).conseq
      (fun _ _ h => h.2 hd) (fun _ _ _ h => h) fun _ _ h => h
  refine Triple.attempt (returning_verifyTransfer row.bill) (fun x => ?_) fun e => ?_
  · cases x with
    | none => exact Triple.raise fun _ _ h => h.1
    | some d =>
        refine Triple.conseq (P := fun w o => Deals .idle i w o ∧
          (d.status.isFailure = true → Deals (.owed row.bill) i w o)) ?_
          (fun w o h => ⟨h.1, h.2 d rfl⟩) (fun _ _ _ h => h) fun _ _ h => h
        dsimp only [fields]
        simp only [pure_bind]
        split
        · refine Triple.conseq (?_ : Triple _ i (Deals .idle i) _ (fun _ => Deals .idle i)
            (Deals .idle i)) (fun _ _ h => h.1) (fun _ _ _ h => h) fun _ _ h => h
          exact hk.bind (fun _ => returning_record _ _ (restates_setArrived _)) (fun _ =>
            hk.bind (hk.savePaystackTransaction _ _) fun _ =>
              hk.bind (hk.markEntryStatus (fun _ _ _ _ => returning_status _ _ _) _ _ _ _)
                fun _ => hk.ret _) i
        · next hstatus => exact hreverse d (by rw [hstatus]; rfl)
        · next hstatus => exact hreverse d (by rw [hstatus]; rfl)
        · next hstatus => exact hreverse d (by rw [hstatus]; rfl)
        · exact Triple.ret fun _ _ h => h.1
  · exact hk.ite (hk.ret _) (hk.raise _) i

/-- A pending record of the user is a bill. -/
theorem returning_getPaystackTransactionForUser (r : PaystackReference) (u : Id) :
    Triple (returning old).logic i (Deals .idle i) (getPaystackTransactionForUser r u)
      (Looked (fun row w o => Deals .idle i w o ∧
        (row.status = .pending → Deals (.intent row.bill) i w o)) (Deals .idle i))
      (Deals .idle i) := by
  refine triple_loadFirst (triple_firstRow (t := Table.paystackTransaction) (deals_idle id)
    (fun _ => id) (fun _ _ _ _ => rfl) ?_)
  intro w o w₂ alive p row _ _ h _ _ hasked _ _ hanswer h₂
  refine ⟨h₂, fun hpending => h₂.know id ?_⟩
  show row.bill ∈ known o i w₂
  rw [known, hasked]
  exact (h.records.answer hanswer).bill_mem hpending

theorem returning_getWithdrawal (u : Id) (r : PaystackReference) :
    (returning old).Keeps Matter.idle (getWithdrawal u r) := by
  intro i
  have hk := routine_returning old (g := .idle) rfl rfl
  refine (returning_getPaystackTransactionForUser r u).bind fun found => ?_
  cases found with
  | none => exact Triple.raise fun _ _ h => h
  | some row =>
      dsimp only [Looked]
      split
      · next hpending =>
          refine Triple.bind (Q := fun _ => Deals .idle i) ?_ fun _ => ?_
          · exact (returning_reconcilePendingWithdrawal row).conseq (fun _ _ h => h.2 hpending)
              (fun _ _ _ h => h) fun _ _ h => h
          · exact hk.shownWithdrawal row.id u i
      · refine Triple.conseq (P := Deals .idle i) (Q := fun _ => Deals .idle i)
          (R := Deals .idle i) ?_ (fun _ _ h => h.1) (fun _ _ _ h => h) fun _ _ h => h
        exact hk.shownWithdrawal row.id u i

/-! ### The webhook -/

/-- The record that is locked under a reference goes with a bill. -/
theorem returning_getPaystackTransaction (r : PaystackReference) :
    Triple (returning old).logic i (Deals .idle i) (getPaystackTransaction r)
      (Looked (fun row w o => ∃ n, Deals (.intent (r, row.userId, n)) i w o) (Deals .idle i))
      (Deals .idle i) := by
  refine triple_query (deals_idle id) trivial id ?_
  intro w o c found w₂ hw _ h he h₂
  cases found with
  | none => exact h₂
  | some row =>
      obtain ⟨id, hq, hdirty, -, hans, hw₂⟩ := World.exec_lock_some he
      obtain ⟨p, hfind, rfl⟩ := Option.map_eq_some_iff.mp hq
      have href : p.reference = r := by simpa using List.find?_some hfind
      obtain ⟨p', hp', hname⟩ := (Deals.names h).answer hdirty hans
      have hsame : p' = p := by
        have hlook := (hw.view_keys i).lookup (List.mem_of_find?_eq_some hfind)
        exact Option.some.inj (hp'.symm.trans hlook)
      obtain ⟨⟨r', u, n⟩, hb, hr, hu, -⟩ := (Deals.records h).answer hans
      simp only [PaystackTransaction.name, Prod.mk.injEq, hsame, href] at hname
      refine ⟨n, Deals.know h₂ (fun h => h) ?_⟩
      show (r, row.userId, n) ∈ known o i w₂
      have hasked : asked w₂ i = asked w i := by
        rw [hw₂]
        simp [asked, World.remember]
      rw [known, hasked]
      rw [hname.1, ← show r' = row.reference from hr, ← show u = row.userId from hu]
      exact hb

/-- A debit in sight under the reference of a bill is the debit of the bill. -/
theorem returning_getOriginal (b : Bill) :
    Triple (returning old).logic i (Deals (.intent b) i) (getEntryByReference (.withdrawal b.1))
      (Looked (fun t => Deals (.owed (b.1, b.2.1, t.amount)) i) (Deals (.intent b) i))
      (Deals .idle i) := by
  refine triple_loadFirst (triple_firstRow (t := Table.transaction) (deals_idle id)
    (fun _ => id) (fun _ _ _ _ => rfl) ?_)
  intro w o w₂ alive t row hw hgood h hdirty hdb _ ht hr hanswer h₂
  have href : Transaction.reference t = .withdrawal b.1 := by simpa using hr
  obtain ⟨t', ht', hv⟩ := (Deals.vouchers h).answer hdirty hanswer
  have hsame : t' = t := Option.some.inj (ht'.symm.trans ((hw.view_keys i).lookup ht))
  rw [hsame] at hv
  obtain ⟨t₀, hv₀, h₀ | h₀⟩ := Deals.mem_view h hw ht
  · have href₀ := (reference_of_voucher hv₀).trans href
    obtain ⟨hbill, htype⟩ := hgood.debits t₀ h₀ b.1 href₀
    have hone : b = (b.1, t₀.userId, t₀.amount) :=
      Deals.one h b h.holds _ (List.mem_append_left _ hbill) rfl
    have hamount : t₀.amount = row.amount := by
      have hvoucher := hv₀.trans hv
      simp only [Transaction.voucher, Prod.mk.injEq] at hvoucher
      exact hvoucher.2.2.2
    refine h₂.know id ?_
    show Owed w₂.db (b.1, b.2.1, row.amount)
    rw [hdb, ← hamount, show b.2.1 = t₀.userId by rw [hone]]
    exact Owed.voucher h₀ href₀ htype
  · obtain ⟨b', hb', -⟩ := Deals.debits h t₀ b.1 h₀ ((reference_of_voucher hv₀).trans href)
    cases hb'

theorem returning_creditReversal (row : PaystackTransaction) (r : PaystackReference)
    (original : Transaction) :
    (returning old).Keeps (Matter.owed (r, row.userId, original.amount))
      (creditReversal row r original) := by
  have hk := routine_returning old (g := .owed (r, row.userId, original.amount)) rfl rfl
  refine hk.bind (hk.savePaystackTransaction _ _) fun _ =>
    hk.bind (hk.markEntryStatus (fun _ _ _ _ => returning_status _ _ _) _ _ _ _) fun _ => ?_
  refine hk.bind (returning_reversal rfl rfl rfl) fun _ => ?_
  exact hk.bind (hk.attributes .paystackTransaction _) fun _ =>
    hk.bind (hk.attributes .transaction _) fun _ =>
      hk.bind (hk.attributes .wallet _) fun _ => hk.ret _

theorem returning_handleTransferReversal (data : WebhookData) {s : TransactionStatus}
    (hs : s ≠ .pending) : (returning old).Keeps Matter.idle (handleTransferReversal data s) := by
  have hk := routine_returning old (g := .idle) rfl rfl
  unfold handleTransferReversal
  split
  · exact hk.ret _
  · next r _ =>
      intro i
      refine (returning_getPaystackTransaction r).bind fun found => ?_
      cases found with
      | none => exact Triple.ret fun _ _ h => h
      | some row =>
          rintro w o ⟨n, h⟩
          revert w o
          show Triple (returning old).logic i (Deals (.intent (r, row.userId, n)) i) _
            (fun _ => Deals .idle i) (Deals .idle i)
          dsimp only
          split
          · exact Triple.ret fun _ _ h => h.below id
          · refine Triple.bind (returning_record _ _ (restates_setFailed hs _)) fun _ => ?_
            refine (returning_getOriginal (r, row.userId, n)).bind fun found => ?_
            cases found with
            | none =>
                refine Triple.conseq (P := Deals .idle i) (Q := fun _ => Deals .idle i)
                  (R := Deals .idle i) ?_ (fun _ _ h => h.below (fun h => h)) (fun _ _ _ h => h)
                  fun _ _ h => h
                exact hk.bind (hk.savePaystackTransaction _ _) (fun _ => hk.ret _) i
            | some original =>
                exact returning_forget id (returning_creditReversal row r original) i

/-! ### All requests -/

theorem returning_webhookHandler {e : EventType} {data : WebhookData} {p : App WebhookOutcome}
    (he : webhookHandler e data = some p) : (returning old).Keeps Matter.idle p := by
  have hk := (routine_returning old (g := .idle) rfl rfl).toPlain
  have hout : ∀ id f, Restates f →
      (returning old).Keeps Matter.idle (assign .paystackTransaction id f) :=
    fun _ _ hf _ => returning_record _ _ hf
  cases e <;> cases he
  · refine hk.handleChargeSuccess hout (fun a r ht hr => returning_otherEntry ?_ ?_) data
    · rw [hr]
      exact fun _ => Reference.noConfusion
    · rw [ht]
      decide
  · exact hk.handleTransferSuccess hout (fun _ _ _ _ => returning_status _ _ _) data
  · exact returning_handleTransferReversal data (by decide)
  · exact returning_handleTransferReversal data (by decide)

theorem returning_requests : ProviderRequests fun _ p => (returning old).Keeps Matter.idle p where
  ensureWallet := returning_keepsWallet rfl rfl
  fund := returning_requestWalletFund
  withdrawal := returning_requestWithdrawal
  status := returning_getWithdrawal
  event _ _ _ he := returning_webhookHandler he

theorem returning_handler (settings : Settings) (r : Request) :
    (returning old).Keeps Matter.idle (handler settings r) :=
  (routine_returning old rfl rfl).handler returning_escrowSide returning_requests settings r

end Requests

/-! ## Whole runs -/

/-- The bills are those of the records there are, and their numbers drawn. -/
def Registry.opening (db : Db adehun) : Registry where
  drawer n :=
    if (db .paystackTransaction : List PaystackTransaction).any (·.reference.number = n)
      then some 0 else none
  bills := (db .paystackTransaction : List PaystackTransaction).map PaystackTransaction.bill

/-- Every withdrawal of the ledger has its record, of the same user and amount. -/
def Recorded (db : Db adehun) : Prop :=
  ∀ t ∈ (db .transaction : List Transaction), ∀ r, t.reference = .withdrawal r →
    t.type = .withdrawal ∧ ∃ p ∈ (db .paystackTransaction : List PaystackTransaction),
      p.bill = (r, t.userId, t.amount)

theorem billed_opening {old : Reference → Prop} {db : Db adehun} (hk : db.KeysDistinct)
    (he : db.EntriesDistinct) (hr : Recorded db)
    (hold : ∀ t ∈ (db .transaction : List Transaction), t.type = .withdrawalReversal →
      old t.reference ∨ Returned db t) : Billed old db (.opening db) := by
  refine ⟨?_, ?_, ?_, ?_, ?_⟩
  · intro p hp
    exact ⟨p.bill, List.mem_map_of_mem hp, rfl, rfl, fun _ => rfl⟩
  · intro b hb
    obtain ⟨p, hp, rfl⟩ := List.mem_map.mp hb
    have hany : (db .paystackTransaction : List PaystackTransaction).any
        (·.reference.number = p.reference.number) = true :=
      List.any_eq_true.mpr ⟨p, hp, by simp⟩
    simp only [Registry.opening, PaystackTransaction.bill, hany, if_true]
    simp
  · intro b hb b' hb' hsame
    obtain ⟨p, hp, rfl⟩ := List.mem_map.mp hb
    obtain ⟨p', hp', rfl⟩ := List.mem_map.mp hb'
    have hrow : p = p' := by
      refine he.eq hk hp hp' (e := .paystackReference p.reference) List.mem_cons_self ?_
      rw [show p.reference = p'.reference from hsame]
      exact List.mem_cons_self
    rw [hrow]
  · intro t ht r href
    obtain ⟨htype, p, hp, hbill⟩ := hr t ht r href
    refine ⟨?_, htype⟩
    rw [← hbill]
    exact List.mem_map_of_mem hp
  · exact hold

/-- Records, debits and reversals go together in all of a run. -/
theorem always_billed {old : Reference → Prop} {settings : Settings} {db : Db adehun}
    {shared : Shared} (hk : db.KeysDistinct) (he : db.EntriesDistinct)
    (hb : Billed old db (.opening db)) {P : Conf adehun Response → Registry → Prop}
    (hP : ∀ C o, C.world.WF → Billed old C.world.db o → P C o) {ls : List (Label adehun Request)}
    (hg : registry.RunMeets sincere (handler settings) { world := { db, shared } }
      (.opening db) ls) :
    registry.Always P (handler settings) { world := { db, shared } } (.opening db) ls := by
  have hi : (returning old).logic.Inv { db, shared } (.opening db) := ⟨World.wf_init hk he, hb⟩
  refine (Observer.Logic.sound_init hi fun i => ⟨rfl, fun l hl => by cases hl⟩).always
    (Observer.Discipline.serves (returning_handler settings)) ?_ hg
  exact fun C o hs => hP C o hs.inv.1 hs.inv.2

/-- In every run whose generator does not repeat itself, and where the provider
does not say of a transfer that nobody was debited for that it failed, every
reversal that was not there at the start returns what was withdrawn under its
reference, to the user it was taken from. -/
theorem returned_run {settings : Settings} {db : Db adehun} {shared : Shared}
    (hk : db.KeysDistinct) (he : db.EntriesDistinct) (hr : Recorded db)
    {ls : List (Label adehun Request)}
    (hg : registry.RunMeets sincere (handler settings) { world := { db, shared } }
      (.opening db) ls) :
    registry.Always (fun C _ => ∀ t ∈ (C.world.db .transaction : List Transaction),
        t.type = .withdrawalReversal → Posted db t.reference ∨ Returned C.world.db t)
      (handler settings) { world := { db, shared } } (.opening db) ls := by
  refine always_billed hk he ?_ (fun _ _ _ hb => hb.returned) hg
  exact billed_opening hk he hr fun t ht _ => Or.inl ⟨t, ht, rfl⟩

namespace OneDay

theorem db_recorded : Recorded db := by
  intro t ht r hr
  obtain rfl := List.mem_singleton.mp ht
  cases hr

theorem sincere_labels :
    registry.RunMeets sincere (handler settings) start (.opening db) labels :=
  Observer.runMeets_of_test sincere.test (by decide +kernel)

end OneDay

/-- The withdrawal that is refused is returned. -/
theorem returned_run_oneDay :
    (OneDay.evening.2.world.db .transaction : List Transaction).map (·.reference) =
      [.deposit (.fund 1 0), .deposit (.fund 1 1), .withdrawal (.withdrawal 1 3010),
        .reversal (.withdrawal 1 3010), .lock 20, .out (.release 20), .into (.release 20),
        .withdrawal (.withdrawal 1 7010)] ∧
    registry.Always (fun C _ => ∀ t ∈ (C.world.db .transaction : List Transaction),
        t.type = .withdrawalReversal → Posted OneDay.db t.reference ∨ Returned C.world.db t)
      (handler OneDay.settings) OneDay.start (.opening OneDay.db) OneDay.labels :=
  ⟨OneDay.references_evening, returned_run OneDay.db_keysDistinct OneDay.db_entriesDistinct
    OneDay.db_recorded OneDay.sincere_labels⟩

end Adehun
