import Adehun.Routine.Triples
import Adehun.Ownership

/-!
# What is credited was paid

Anybody who can sign an event can say that a charge succeeded, and whatever
the event says of the amount nobody reads. What is credited is what the
provider answers when it is asked about the reference, to the user whose
intent the reference names. Between the answer and the commit of the deposit
lie the commits of others, and perhaps one of the session's own: still, every
deposit of the ledger is backed by an answer of its amount.
-/

namespace Adehun

open Sessions
open Observer (Triple)
open Observer.Discipline

/-! ## What the provider has confirmed -/

/-- What a charge has brought, if it succeeded and is not in a foreign
currency. -/
def ProviderData.charged (d : ProviderData) : Option Kobo :=
  match d.status, d.currency, d.amount with
  | .success, some .other, _ => none
  | .success, _, .kobo n => some n
  | _, _, _ => none

def Transport.charged (t : Transport) : Option Kobo :=
  match t.outcome.1 with
  | .ok (some d) => d.charged
  | _ => none

/-- The charges the provider has confirmed, by reference and amount. -/
abbrev Confirmations : Type := List (PaystackReference × Kobo)

def Confirmations.hear (o : Confirmations) (r : PaystackReference) (t : Transport) :
    Confirmations :=
  match t.charged with
  | some n => (r, n) :: o
  | none => o

def Confirmations.look : {X : Type} → Stmt adehun X → X → Confirmations → Confirmations
  | _, .await (.provider (.verifyTransaction r)), t, o => o.hear r t
  | _, _, _, o => o

/-- The provider's confirmations, as the sessions hear them. -/
abbrev till : Observer adehun Request where
  State := Confirmations
  look _ _ := Confirmations.look

theorem Confirmations.subset_hear (o : Confirmations) (r : PaystackReference) (t : Transport) :
    o ⊆ o.hear r t := by
  unfold hear
  split
  · exact List.subset_cons_self _ _
  · exact fun _ h => h

theorem Confirmations.subset_look {X : Type} (s : Stmt adehun X) (x : X)
    (o : Confirmations) : o ⊆ Confirmations.look s x o := by
  unfold look
  split
  · exact subset_hear _ _ _
  · exact fun _ h => h

/-! ## Deposits that are backed -/

/-- Whose intent a record is. -/
def PaystackTransaction.name (p : PaystackTransaction) : PaystackReference × Id :=
  (p.reference, p.userId)

/-- What of an entry says what it gives to whom, and what for. -/
def Transaction.voucher (t : Transaction) : LedgerEntryType × Reference × Id × Kobo :=
  (t.type, t.reference, t.userId, t.amount)

theorem reference_of_voucher {t t' : Transaction} (h : t.voucher = t'.voucher) :
    t.reference = t'.reference := by
  simp only [Transaction.voucher, Prod.mk.injEq] at h
  exact h.2.1

/-- The record of a reference is this user's. -/
def Named (db : Db adehun) (r : PaystackReference) (u : Id) : Prop :=
  (r, u) ∈ (db .paystackTransaction : List PaystackTransaction).map PaystackTransaction.name

/-- The provider has confirmed a charge of the entry's amount, for an intent
of the entry's user. -/
def Earned (db : Db adehun) (o : Confirmations) (t : Transaction) : Prop :=
  ∃ r, t.reference = .deposit r ∧ (r, t.amount) ∈ o ∧ Named db r t.userId

/-- Every deposit is an old one, or has been earned. -/
def Credited (old : Reference → Prop) (db : Db adehun) (o : Confirmations) : Prop :=
  ∀ t ∈ (db .transaction : List Transaction), t.type = .deposit →
    old t.reference ∨ Earned db o t

theorem Earned.mono {db db' : Db adehun} {o o' : Confirmations} {t : Transaction}
    (h : Earned db o t) (hnamed : ∀ r u, Named db r u → Named db' r u) (ho : o ⊆ o') :
    Earned db' o' t := by
  obtain ⟨r, hr, hpaid, hname⟩ := h
  exact ⟨r, hr, ho hpaid, hnamed _ _ hname⟩

theorem Earned.congr {db : Db adehun} {o : Confirmations} {t t' : Transaction}
    (h : Earned db o t) (hv : t.voucher = t'.voucher) : Earned db o t' := by
  obtain ⟨r, hr, hpaid, hname⟩ := h
  simp only [Transaction.voucher, Prod.mk.injEq] at hv
  obtain ⟨-, href, huser, hamount⟩ := hv
  rw [href] at hr
  rw [hamount] at hpaid
  rw [huser] at hname
  exact ⟨r, hr, hpaid, hname⟩

/-! ## What a session has to own -/

/-- What a session knows of the charge it is told of: nothing, whose intent it
is, or what it has brought as well. -/
inductive Hearing
  | nothing
  | named (r : PaystackReference) (u : Id)
  | paid (r : PaystackReference) (u : Id) (n : Kobo)

def Hearing.Holds (i : Nat) (w : Sessions.World adehun) (o : Confirmations) : Hearing → Prop
  | .nothing => True
  | .named r u => Named (w.view i) r u
  | .paid r u n => Named (w.view i) r u ∧ (r, n) ∈ o

/-- A session leaves names and vouchers as they are, and the deposits it asks
for are earned. -/
structure Banks (g : Hearing) (i : Nat) (w : Sessions.World adehun) (o : Confirmations) : Prop where
  mirrors : World.Mirrors Table.paystackTransaction PaystackTransaction.name i w
  vouchers : ∀ d ∈ asked w i, d.Retains Table.transaction Transaction.voucher
  earned : ∀ t, Write.insert Table.transaction t ∈ asked w i →
    Transaction.type t = .deposit → Earned (w.view i) o t
  holds : g.Holds i w o

section Banks

variable {i j : Nat} {w w' : Sessions.World adehun} {o o' : Confirmations} {g : Hearing}

theorem Hearing.Holds.mono (h : g.Holds i w o)
    (hview : ∀ r u, Named (w.view i) r u → Named (w'.view i) r u) (ho : o ⊆ o') :
    g.Holds i w' o' := by
  cases g with
  | nothing => trivial
  | named r u => exact hview r u h
  | paid r u n => exact ⟨hview r u h.1, ho h.2⟩

/-- A session that asks for no more, and sees no less. -/
theorem Banks.of_view (h : Banks g i w o)
    (hmirrors : World.Mirrors Table.paystackTransaction PaystackTransaction.name i w')
    (hasked : ∀ d ∈ asked w' i, d ∈ asked w i)
    (hview : ∀ r u, Named (w.view i) r u → Named (w'.view i) r u) (ho : o ⊆ o') :
    Banks g i w' o' where
  mirrors := hmirrors
  vouchers d hd := h.vouchers d (hasked d hd)
  earned t ht htype := (h.earned t (hasked _ ht) htype).mono hview ho
  holds := h.holds.mono hview ho

theorem Banks.of_fresh {b : Bool} (htx : w.tx i = { aborted := b }) : Banks .nothing i w o := by
  refine ⟨World.Mirrors.of_fresh htx, ?_, ?_, trivial⟩ <;> simp [asked, htx]

theorem Banks.below (h : Banks g i w o) : Banks .nothing i w o := { h with holds := trivial }

/-- More is heard. -/
theorem Banks.later (h : Banks g i w o) (ho : o ⊆ o') : Banks g i w o' :=
  h.of_view h.mirrors (fun _ hd => hd) (fun _ _ hn => hn) ho

theorem Banks.writes (h : Banks g i w o) :
    ∀ d ∈ (w.tx i).writes, d.Retains Table.paystackTransaction PaystackTransaction.name :=
  fun d hd => h.mirrors.writes d (List.mem_append_left _ hd)

theorem Banks.stage (h : Banks g i w o) {d : Write adehun}
    (hname : d.Retains Table.paystackTransaction PaystackTransaction.name)
    (hvoucher : d.Retains Table.transaction Transaction.voucher)
    (hearned : ∀ t, d = .insert .transaction t → Transaction.type t = .deposit →
      Earned (w.view i) o t) : Banks g i (w.stage i d) o := by
  have hview : (w.stage i d).view i = w.view i := World.view_congr rfl (by simp)
  have hmem : ∀ e ∈ asked (w.stage i d) i, e ∈ asked w i ∨ e = d := by
    intro e he
    rw [asked_stage, List.mem_append, List.mem_singleton] at he
    exact he
  refine ⟨h.mirrors.stage hname, ?_, ?_, ?_⟩
  · intro e he
    rcases hmem e he with he | rfl
    · exact h.vouchers e he
    · exact hvoucher
  · intro t ht htype
    rw [hview]
    rcases hmem _ ht with ht | rfl
    · exact h.earned t ht htype
    · exact hearned t rfl htype
  · refine h.holds.mono ?_ fun _ hc => hc
    rw [hview]
    exact fun _ _ hn => hn

theorem Banks.put (h : Banks g i w o) {d : Write adehun}
    (hname : d.key.table ≠ .paystackTransaction) (hvoucher : d.key.table ≠ .transaction) :
    Banks g i (w.put i d) o := by
  have hretains : d.Retains Table.paystackTransaction PaystackTransaction.name :=
    Write.retains_of_ne hname
  have hview : ∀ r u, Named (w.view i) r u → Named ((w.put i d).view i) r u := by
    intro r u hn
    rw [World.put_view]
    exact Db.map_subset_apply hretains _ hn
  have hmem : ∀ e ∈ asked (w.put i d) i, e ∈ asked w i ∨ e = d := by
    intro e he
    simp only [asked, World.put_tx_self, List.mem_append, List.mem_singleton] at he ⊢
    tauto
  refine ⟨h.mirrors.put hretains, ?_, ?_, h.holds.mono hview fun _ hc => hc⟩
  · intro e he
    rcases hmem e he with he | rfl
    · exact h.vouchers e he
    · exact Write.retains_of_ne hvoucher
  · intro t ht htype
    rcases hmem _ ht with ht | rfl
    · exact (h.earned t ht htype).mono hview fun _ hc => hc
    · exact absurd rfl hvoucher

/-- What one session commits is no less to the others. -/
theorem Banks.commit (hne : j ≠ i) (hw : w.WF) (hi : Banks g i w o) {g' : Hearing}
    (hj : Banks g' j w o) : Banks g' j (w.commit i) o := by
  refine hj.of_view (hi.mirrors.commit hne hw hj.mirrors) ?_ ?_ fun _ hc => hc
  · intro d hd
    rw [asked, World.commit_tx_of_ne w hne] at hd
    exact hd
  · exact fun _ _ hn => World.map_view_subset_commit hne hi.writes hj.writes hn

end Banks

/-- Deposits are earned: as a discipline. -/
def crediting (old : Reference → Prop) : till.Discipline where
  Ghost := Hearing
  rest _ := .nothing
  lost _ := .nothing
  done g := g
  Commits _ := True
  Good := Credited old
  Own := Banks
  guard _ := {}
  own_congr := by
    intro g i o w w' hdb htx _ h
    have hview : w'.view i = w.view i := World.view_congr hdb (by rw [htx])
    refine h.of_view (h.mirrors.congr hdb htx) ?_ ?_ fun _ hc => hc
    · rw [asked, asked, htx]
      exact fun _ hd => hd
    · rw [hview]
      exact fun _ _ hn => hn
  own_remember := by
    intro g i o w k hd h
    have hview : (w.remember i k ((w.view i).lookup k)).view i = w.view i :=
      World.view_congr rfl (by simp [World.remember])
    refine h.of_view (h.mirrors.remember k) ?_ ?_ fun _ hc => hc
    · simp [asked, World.remember]
    · rw [hview]
      exact fun _ _ hn => hn
  own_send := by
    intro g i o w d ds _ _ _ hd _ hr h
    have hsent := h.mirrors.send hd hr
    have hview : ((w.put i d).setTx i
        { w.tx i with writes := (w.tx i).writes ++ [d], dirty := ds }).view i =
          d.apply (w.view i) :=
      (World.view_congr (by simp) (by simp)).trans (World.put_view w i d)
    refine h.of_view hsent ?_ ?_ fun _ hc => hc
    · simp [asked, hd]
    · intro r u hn
      rw [hview]
      exact Db.map_subset_apply (h.mirrors.writes d (by simp [hd])) _ hn
  own_lost := by
    rintro g i o w w' - - - ⟨b, htx⟩
    exact Banks.of_fresh htx
  good_commit := by
    intro g i o w c _ hw hgood _ _ h t ht htype
    have hretains : ∀ d ∈ (w.tx i).writes, d.Retains Table.transaction Transaction.voucher :=
      fun d hd => h.vouchers d (List.mem_append_left _ hd)
    rcases Db.mem_of_retains hretains (hw.view_keys i) ht with ⟨t₀, h₀, hsame⟩ | ⟨t₀, h₀, hsame⟩
    · have hfields := hsame
      simp only [Transaction.voucher, Prod.mk.injEq] at hfields
      rcases hgood t₀ h₀ (hfields.1.trans htype) with hold | hearned
      · rw [hfields.2.1] at hold
        exact Or.inl hold
      · refine Or.inr ((hearned.mono ?_ fun _ hc => hc).congr hsame)
        exact fun _ _ hn => Db.map_subset_applyAll h.writes _ hn
    · have htype₀ : t₀.type = .deposit := by
        rw [← htype]
        exact congrArg Prod.fst hsame
      exact Or.inr ((h.earned t₀ (List.mem_append_left _ h₀) htype₀).congr hsame)
  own_done := by
    intro g i o w c _ _ _ _ _ h
    have hview : (w.commit i).view i = w.view i := by
      simp [World.view, World.commit_tx_self]
    have hfresh : Banks .nothing i (w.commit i) o :=
      Banks.of_fresh (b := false) (World.commit_tx_self w i)
    refine { hfresh with holds := h.holds.mono ?_ fun _ hc => hc }
    rw [hview]
    exact fun _ _ hn => hn
  own_commit hne _ hw _ _ _ hi hj := Banks.commit hne hw hi hj
  good_start _ h := h
  own_start _ _ h := h
  own_init _ _ htx := Banks.of_fresh (b := false) htx
  good_look _ _ _ _ hgood _ t ht htype := (hgood t ht htype).imp_right fun h =>
    h.mono (fun _ _ hn => hn) (Confirmations.subset_look _ _ _)
  own_look _ _ _ _ _ h := h.later (Confirmations.subset_look _ _ _)
  look_other _ _ _ _ h := h.later (Confirmations.subset_look _ _ _)
  good_crash _ h := h
  own_crash _ h := h

section Requests

variable {old : Reference → Prop} {i : Nat} {g : Hearing}

theorem floor_crediting : (crediting old).Floor Hearing.nothing where
  lost := rfl
  done := rfl
  commits := trivial
  minds _ := id
  below _ _ _ _ := Banks.below

/-! ### What is routine -/

/-- A write to neither table may be staged at any time. -/
theorem banks_stage_of_ne {w : Sessions.World adehun} {o : Confirmations} {d : Write adehun}
    (hname : d.key.table ≠ .paystackTransaction) (hvoucher : d.key.table ≠ .transaction)
    (h : Banks g i w o) : Banks g i (w.stage i d) o := by
  refine h.stage (Write.retains_of_ne hname) (Write.retains_of_ne hvoucher) ?_
  rintro t rfl
  exact absurd rfl hvoucher

variable (old) in
theorem routine_crediting : Routine fun _ p => (crediting old).Keeps Hearing.nothing p :=
  routine_watched floor_crediting.toStill
    (fun _ hd _ _ _ _ _ h => banks_stage_of_ne (ne_of_side hd rfl) (ne_of_side hd rfl) h)
    fun _ hd _ _ _ _ _ h _ _ => Banks.put h (ne_of_side hd rfl) (ne_of_side hd rfl)

variable (old i) in
/-- What a session knows, it knows as long as it only reads. -/
theorem reading_crediting (g : Hearing) : Reading fun _ p =>
    Triple (crediting old).logic i (Banks g i) p (fun _ => Banks g i) (Banks .nothing i) :=
  reading_triple floor_crediting.either fun _ _ => id

theorem crediting_ensureWallet (g : Hearing) (u : Id) :
    Triple (crediting old).logic i (Banks g i) (ensureWallet u) (fun _ => Banks g i)
      (Banks .nothing i) := by
  refine (reading_crediting old i g).ensureWallet (fun x u => ?_)
    (triple_commit floor_crediting.either trivial) u
  refine triple_upsert floor_crediting.either ?_
  intro db d hd j w o _ _ h _ _
  dsimp only at hd
  split at hd
  · cases hd
  · obtain rfl := List.mem_singleton.mp hd
    exact Banks.put h (by simp [Write.key]) (by simp [Write.key])

theorem crediting_assign {t : Table} (id : Id) (f : Patch adehun t) (ht : t ≠ .transaction)
    (hp : t ≠ .paystackTransaction) :
    Triple (crediting old).logic i (Banks g i) (assign t id f) (fun _ => Banks g i)
      (Banks .nothing i) :=
  triple_stage fun _ _ _ _ h => banks_stage_of_ne hp ht h

theorem crediting_add {t : Table} (r : t.Row) (ht : t ≠ .transaction)
    (hp : t ≠ .paystackTransaction) :
    Triple (crediting old).logic i (Banks g i) (add t r) (fun _ => Banks g i)
      (Banks .nothing i) :=
  triple_stage fun _ _ _ _ h => banks_stage_of_ne hp ht h

/-- A record may be restated, not given to somebody else. -/
theorem crediting_record (id : Id) (f : Patch adehun .paystackTransaction)
    (hf : ∀ p, PaystackTransaction.name (f.run p) = PaystackTransaction.name p) :
    Triple (crediting old).logic i (Banks g i) (assign .paystackTransaction id f)
      (fun _ => Banks g i) (Banks .nothing i) := by
  refine triple_stage fun w o _ _ h => Banks.stage h (fun _ => hf) ?_ ?_
  · exact Write.retains_of_ne (by simp [Write.key])
  · intro t ht
    cases ht

/-- An entry that the session knows to be earned, if it is a deposit. -/
theorem crediting_entry {e : Transaction}
    (he : e.type = .deposit → ∀ w o, g.Holds i w o → Earned (w.view i) o e) :
    Triple (crediting old).logic i (Banks g i) (add .transaction e) (fun _ => Banks g i)
      (Banks .nothing i) := by
  refine triple_stage fun w o _ _ h => Banks.stage h trivial trivial ?_
  intro t ht htype
  cases ht
  exact he htype w o (Banks.holds h)

/-- `applyEntry` of a session that may make the entry. -/
theorem crediting_applyEntry {a : EntryArgs}
    (ha : ∀ e, Transaction.From a e → e.type = .deposit → ∀ w o, g.Holds i w o →
      Earned (w.view i) o e) :
    Triple (crediting old).logic i (Banks g i) (applyEntry a) (fun _ => Banks .nothing i)
      (Banks .nothing i) := by
  have h := reading_crediting old i g
  have h₀ := (routine_crediting old).toPlain
  have hrest : ∀ w o, Banks g i w o → Banks .nothing i w o := fun _ _ => Banks.below
  refine triple_applyEntry (F := fun _ => Banks .nothing i) (T := Banks .nothing i)
    (S := Banks .nothing i) (V := fun _ => Banks g i) (N := fun _ => Banks g i) ?_ ?_ ?_ ?_ ?_ ?_
    (fun _ _ h => h) ?_
  · refine (h.getEntryByReference _).conseq (fun _ _ h => h) ?_ fun _ _ h => h
    rintro (_ | e) w o ho
    · exact ho
    · exact hrest w o ho
  · exact fun e => h₀.replay e i
  · exact h.resolveWalletId (crediting_ensureWallet g) _
  · intro x
    refine (h.lockWallet x).bind fun wallet => Triple.bind ?_ fun entry =>
      Triple.bind (triple_commit floor_crediting.either trivial) fun _ => h.ret _
    exact h.applyLedgerEntry_of (fun _ _ _ => crediting_assign _ _ (by decide) (by decide))
      fun e he => crediting_entry (ha e he)
  · exact triple_rollback
  · refine Triple.conseq (h₀.getEntryByReference _ i) (fun _ _ h => h) ?_ fun _ _ h => h
    rintro (_ | e) w o ho <;> exact ho
  · intro ids
    refine Triple.conseq (h₀.bind (h₀.refresh .transaction _) (fun _ =>
      h₀.bind (h₀.refresh .wallet _) fun _ => h₀.bind (h₀.cacheDelete _) fun _ => h₀.ret _) i)
      hrest (fun _ _ _ h => h) fun _ _ h => h

/-! ### The movements that are no deposits -/

theorem crediting_otherEntry {a : EntryArgs} (ha : a.entryType ≠ .deposit) :
    (crediting old).Keeps Hearing.nothing (applyEntry a) := fun _ =>
  crediting_applyEntry fun _ he htype => absurd (he.type.symm.trans htype) ha

theorem crediting_applyTransfer {gr : GroupId} {d c : LedgerLeg}
    (hd : d.entryType = .escrowReleaseOut) (hc : c.entryType = .escrowReleaseIn) :
    (crediting old).Keeps Hearing.nothing (applyTransfer gr d c) := by
  have h := routine_crediting old
  have hassign : ∀ id x y,
      (crediting old).Keeps Hearing.nothing (assign .wallet id (setBalances x y)) :=
    fun _ _ _ _ => crediting_assign _ _ (by decide) (by decide)
  have hentry : ∀ {x : Id} {a : EntryArgs}, a.entryType ≠ .deposit →
      (crediting old).Keeps Hearing.nothing (applyLedgerEntry x a) := fun ha =>
    h.applyLedgerEntry_of hassign fun _ he _ =>
      crediting_entry fun htype => absurd (he.type.symm.trans htype) ha
  refine h.applyTransfer (fun u _ => crediting_ensureWallet .nothing u) fun x y => ?_
  refine h.bind (h.lockWallets x y) fun _ => h.bind (hentry ?_) fun _ =>
    h.bind (hentry ?_) fun _ => h.ret _
  · show d.entryType ≠ .deposit
    rw [hd]
    decide
  · show c.entryType ≠ .deposit
    rw [hc]
    decide

theorem crediting_escrowSide : EscrowSide fun _ p => (crediting old).Keeps Hearing.nothing p := by
  refine (routine_crediting old).escrowSide_of_entries ?_ ?_ ?_ ?_
  · exact fun _ _ ht hp _ => crediting_add _ ht hp
  · exact fun _ _ _ ht hp _ => crediting_assign _ _ ht hp
  · rintro a (⟨ha, -⟩ | ⟨ha, -⟩) <;> exact crediting_otherEntry (by rw [ha]; decide)
  · exact fun _ _ _ hd hc => crediting_applyTransfer hd hc

/-! ### The charge -/

/-- The record that is locked under a reference names whose intent it is. -/
theorem crediting_getPaystackTransaction (r : PaystackReference) :
    Triple (crediting old).logic i (Banks .nothing i) (getPaystackTransaction r)
      (fun found w o => match found with
        | some row => Banks (.named r row.userId) i w o ∧ row.reference = r
        | none => Banks .nothing i w o) (Banks .nothing i) := by
  refine triple_query floor_crediting.either trivial id ?_
  intro w o c found w₂ hw _ h he h₂
  cases found with
  | none => exact h₂
  | some row =>
      obtain ⟨id, hq, hdirty, -, hans, hw₂⟩ := World.exec_lock_some he
      obtain ⟨p, hfind, rfl⟩ := Option.map_eq_some_iff.mp hq
      have href : p.reference = r := by simpa using List.find?_some hfind
      obtain ⟨p', hp', hname⟩ := (Banks.mirrors h).answer hdirty hans
      have hsame : p' = p := by
        have hlook := (hw.view_keys i).lookup (List.mem_of_find?_eq_some hfind)
        exact Option.some.inj (hp'.symm.trans hlook)
      simp only [PaystackTransaction.name, Prod.mk.injEq, hsame, href] at hname
      have hview : w₂.view i = w.view i := by
        rw [hw₂]
        exact World.view_congr rfl (by simp [World.remember])
      refine ⟨{ h₂ with holds := List.mem_map.mpr ⟨p, ?_, ?_⟩ }, hname.1.symm⟩
      · rw [hview]
        exact List.mem_of_find?_eq_some hfind
      · simp only [PaystackTransaction.name, href, hname.2]

/-- What the provider answers has been heard. -/
theorem crediting_verifyTransaction (r : PaystackReference) (u : Id) :
    Triple (crediting old).logic i (Banks (.named r u) i) (verifyTransaction r)
      (fun x w o => Banks .nothing i w o ∧
        ∀ d n, x = some d → d.charged = some n → Banks (.paid r u n) i w o)
      (Banks .nothing i) := by
  refine Triple.conseq (triple_requestFrom (q := .verifyTransaction r) (P := Banks (.named r u) i)
    (A := fun t w o => ∀ n, t.charged = some n → Banks (.paid r u n) i w o)
    ?_ ?_ (fun _ _ => Banks.below) 0 2) (fun _ _ h => h) ?_ fun _ _ h => h
  · refine triple_query floor_crediting.either trivial id ?_
    intro w o c t w₂ _ _ _ _ h
    refine ⟨h, fun n hn => { h with holds := ⟨Banks.holds h, ?_⟩ }⟩
    show (r, n) ∈ Confirmations.hear o r t
    rw [Confirmations.hear, hn]
    exact List.mem_cons_self
  · exact fun n => triple_quiet floor_crediting.either trivial id
  · rintro x w o ⟨hnamed, t, ht, hpaid⟩
    refine ⟨Banks.below hnamed, ?_⟩
    rintro d n rfl hd
    refine hpaid n ?_
    rw [Transport.charged, ht]
    exact hd

/-- A charge that is not turned down has brought its amount. -/
theorem charged_of_settled {d : ProviderData} {c : Option Currency} {n : Kobo}
    (hstatus : ¬ d.status ≠ .success) (hcurrency : ¬ (d.currency <|> c) ≠ some .ngn)
    (hamount : d.amount = .kobo n) : d.charged = some n := by
  have hs : d.status = .success := not_not.mp hstatus
  unfold ProviderData.charged
  rw [hs, hamount]
  cases hd : d.currency with
  | none => rfl
  | some x =>
      cases x with
      | ngn => rfl
      | other =>
          rw [hd] at hcurrency
          exact absurd (by simp) hcurrency

/-- A verified charge is credited. -/
theorem crediting_creditCharge {r : PaystackReference} {row : PaystackTransaction} {n : Kobo}
    (href : row.reference = r) (data : WebhookData) :
    Triple (crediting old).logic i (Banks (.paid r row.userId n) i) (creditCharge row data n)
      (fun _ => Banks .nothing i) (Banks .nothing i) := by
  have h := reading_crediting old i (.paid r row.userId n)
  have h₀ := (routine_crediting old).toPlain
  refine Triple.bind (crediting_record _ _ fun _ => rfl) fun _ => ?_
  refine Triple.bind (h.attributes .paystackTransaction row.id) fun _ => ?_
  refine (crediting_applyEntry ?_).bind fun _ => ?_
  · intro e he _ w o hpaid
    refine ⟨r, ?_, ?_, ?_⟩
    · rw [he.reference, href]
    · rw [he.amount]
      exact hpaid.2
    · rw [he.userId]
      exact hpaid.1
  · exact h₀.bind (h₀.attributes .paystackTransaction _) (fun _ =>
      h₀.bind (h₀.attributes .wallet _) fun _ => h₀.ret _) i

theorem crediting_settleCharge {r : PaystackReference} {row : PaystackTransaction}
    (href : row.reference = r) (data : WebhookData) (d : ProviderData) :
    Triple (crediting old).logic i
      (fun w o => Banks .nothing i w o ∧
        ∀ n, d.charged = some n → Banks (.paid r row.userId n) i w o)
      (settleCharge row data d) (fun _ => Banks .nothing i) (Banks .nothing i) := by
  unfold settleCharge
  split
  · exact Triple.ret fun _ _ h => h.1
  · next hstatus =>
      split
      · exact Triple.ret fun _ _ h => h.1
      · next hcurrency =>
          split
          · exact Triple.ret fun _ _ h => h.1
          · exact Triple.raise fun _ _ h => h.1
          · next n hamount =>
              refine (crediting_creditCharge href data).conseq ?_ (fun _ _ _ h => h)
                fun _ _ h => h
              exact fun w o h => h.2 n (charged_of_settled hstatus hcurrency hamount)

theorem crediting_handleChargeSuccess (data : WebhookData) :
    (crediting old).Keeps Hearing.nothing (handleChargeSuccess data) := by
  intro i
  show Triple (crediting old).logic i (Banks .nothing i) (handleChargeSuccess data)
    (fun _ => Banks .nothing i) (Banks .nothing i)
  unfold handleChargeSuccess
  split
  · exact Triple.ret fun _ _ h => h
  · next r _ =>
      refine (crediting_getPaystackTransaction r).bind fun found => ?_
      cases found with
      | none => exact Triple.ret fun _ _ h => h
      | some row =>
          dsimp only
          split
          · exact Triple.ret fun _ _ h => Banks.below h.1
          · rintro w o ⟨h, href⟩
            refine Triple.attempt (crediting_verifyTransaction r row.userId) (fun x => ?_)
              (fun e => ?_) w o h
            · cases x with
              | none => exact Triple.raise fun _ _ h => h.1
              | some d =>
                  exact (crediting_settleCharge href data d).conseq
                    (fun _ _ h => ⟨h.1, fun n hn => h.2 d n rfl hn⟩) (fun _ _ _ h => h)
                    fun _ _ h => h
            · dsimp only
              split
              · exact Triple.ret fun _ _ h => h
              · exact Triple.raise fun _ _ h => h

/-! ### All requests -/

/-- Of what the services do with the provider, only a charge is a deposit. -/
theorem crediting_parts : ProviderParts fun _ p => (crediting old).Keeps Hearing.nothing p where
  transfer := (routine_crediting old).keeps_watched_transfer floor_crediting.toStill
  newIntent p _ := triple_stage fun w o _ _ ho => Banks.stage ho trivial
    (Write.retains_of_ne (by simp [Write.key])) fun t ht => by cases ht
  outcome id f hf _ := crediting_record id f fun p => by
    rw [PaystackTransaction.name, hf.reference p, hf.userId p]
    rfl
  entryStatus id s t _ := triple_stage fun w o _ _ ho => Banks.stage ho
    (Write.retains_of_ne (by simp [Write.key])) (fun _ _ => rfl) fun t ht => by cases ht
  charge := crediting_handleChargeSuccess
  withdrawal a _ ha _ := crediting_otherEntry (by rw [ha]; decide)
  reversal a _ ha _ := crediting_otherEntry (by rw [ha]; decide)

theorem crediting_handler (settings : Settings) (r : Request) :
    (crediting old).Keeps Hearing.nothing (handler settings r) := by
  have h := routine_crediting old
  exact h.handler crediting_escrowSide
    (h.requests_of_parts crediting_parts fun u _ => crediting_ensureWallet .nothing u) settings r

end Requests

/-! ## Whole runs -/

/-- In every state of every run, a deposit that was not there at the start has
been confirmed by the provider in its amount, for an intent of its user. -/
theorem credited_run {settings : Settings} {db : Db adehun} {shared : Shared}
    (hk : db.KeysDistinct) (he : db.EntriesDistinct) (ls : List (Label adehun Request)) :
    till.Always (fun C o => Credited (Posted db) C.world.db o) (handler settings)
      { world := { db, shared } } [] ls := by
  have hi : (crediting (Posted db)).logic.Inv { db, shared } [] :=
    ⟨World.wf_init hk he, fun t ht _ => Or.inl ⟨t, ht, rfl⟩⟩
  refine (Observer.Logic.sound_init hi fun i => ⟨rfl, fun l hl => by cases hl⟩).always
    (Observer.Discipline.serves (crediting_handler settings)) ?_ (Observer.runMeets_trivial _ _ ls)
  exact fun _ _ hs => hs.inv.2

/-- The second deposit of the day was not there at the start. -/
theorem credited_run_oneDay :
    (OneDay.evening.2.world.db .transaction : List Transaction).map (·.reference) =
      [.deposit (.fund 1 0), .deposit (.fund 1 1), .withdrawal (.withdrawal 1 3010),
        .reversal (.withdrawal 1 3010), .lock 20, .out (.release 20), .into (.release 20),
        .withdrawal (.withdrawal 1 7010)] ∧
    till.Always (fun C o => Credited (Posted OneDay.db) C.world.db o)
      (handler OneDay.settings) OneDay.start [] OneDay.labels :=
  ⟨OneDay.references_evening, credited_run OneDay.db_keysDistinct OneDay.db_entriesDistinct _⟩

end Adehun
