import Adehun.Withdrawals
import Adehun.PaidOut

/-!
# What is returned was withdrawn

A withdrawal that fails is credited back by whoever hears of it first: the
request itself, a webhook, or a look at its status. They take the amount from
three different places (the request's arguments, the debit in the ledger, the
provider's record), and whether these agree depends on what others have
committed in between. What ties them together is the bill: the reference, the
user and the amount a record is first written with.
-/

namespace Adehun

open Sessions
open Observer (Triple)
open Observer.Discipline

/-! ## Bills -/

/-- The voucher of the debit that goes with a bill. -/
def Bill.debit (b : Bill) : LedgerEntryType × Reference × Id × Kobo :=
  (.withdrawal, .withdrawal b.1, b.2.1, b.2.2)

/-- The bills of what is written. -/
def billed (ds : List (Write adehun)) : List Bill :=
  (ds.flatMap (Write.inserted Table.paystackTransaction)).map PaystackTransaction.bill

/-- Who has drawn which number, and the bills that are committed. -/
structure Registry where
  drawer : Nat → Option Nat
  bills : List Bill

def Registry.draw (o : Registry) (i n : Nat) : Registry :=
  { o with drawer := fun m => if m = n ∧ o.drawer m = none then some i else o.drawer m }

def Registry.look (i : Nat) : {X : Type} → Stmt adehun X → X → Registry → Registry
  | _, .fresh, n, o => o.draw i n
  | _, _, _, o => o

/-- Draws, and the bills of what is committed. -/
abbrev registry : Observer adehun Request where
  State := Registry
  look i _ := Registry.look i
  commit _ ds _ _ o := { o with bills := o.bills ++ billed ds }

/-- The generator does not repeat itself, and the provider does not say that
a transfer has failed that nobody has asked it for. -/
def sincere (o : Registry) : Guard adehun where
  exec w _ s c :=
    match s with
    | .fresh => o.drawer c.value = none
    | .await (.provider (.verifyTransfer r)) => ∀ t d, c.reply = some t →
        t.outcome.1 = .ok (some d) → d.status.isFailure = true → Posted w.db (.withdrawal r)
    | _ => True

/-- `sincere`, tested. -/
def sincere.test (o : Registry) : (sincere o).Test where
  exec w _ s c :=
    match s with
    | .fresh => (o.drawer c.value).isNone
    | .await (.provider (.verifyTransfer r)) => c.reply.all fun t : Transport =>
        match t.outcome.1 with
        | .ok (some d) => !d.status.isFailure || decide (Posted w.db (.withdrawal r))
        | _ => true
    | _ => true
  exec_sound := by
    intro X w i s c h
    cases s with
    | fresh => exact Option.isNone_iff_eq_none.mp h
    | await q =>
        cases q with
        | provider r =>
            cases r with
            | verifyTransfer r =>
                intro t d ht hd hfail
                simp only [ht] at h
                simpa [hd, hfail] using h
            | _ => trivial
        | _ => trivial
    | _ => trivial
  flush_sound _ := trivial

/-- A record goes with a bill: as long as it is pending, in its amount too. -/
def PaystackTransaction.Follows (p : PaystackTransaction) (b : Bill) : Prop :=
  b.1 = p.reference ∧ b.2.1 = p.userId ∧ (p.status = .pending → b.2.2 = p.amount)

def FollowsOne (bs : List Bill) (p : PaystackTransaction) : Prop := ∃ b ∈ bs, p.Follows b

/-- No two bills have the same reference. -/
def OneEach (bs : List Bill) : Prop := ∀ b ∈ bs, ∀ b' ∈ bs, b.1 = b'.1 → b = b'

/-- The debit of a bill is in the ledger. -/
def Owed (db : Db adehun) (b : Bill) : Prop :=
  b.debit ∈ (db .transaction : List Transaction).map Transaction.voucher

/-- The entry returns what was taken from its user under its reference. -/
def Returned (db : Db adehun) (t : Transaction) : Prop :=
  ∃ r, t.reference = .reversal r ∧ Owed db (r, t.userId, t.amount)

/-- Records and debits go with bills, and reversals with debits. -/
structure Billed (old : Reference → Prop) (db : Db adehun) (o : Registry) : Prop where
  records : ∀ p ∈ (db .paystackTransaction : List PaystackTransaction), FollowsOne o.bills p
  drawn : ∀ b ∈ o.bills, o.drawer b.1.number ≠ none
  one : OneEach o.bills
  debits : ∀ t ∈ (db .transaction : List Transaction), ∀ r, t.reference = .withdrawal r →
    (r, t.userId, t.amount) ∈ o.bills ∧ t.type = .withdrawal
  returned : ∀ t ∈ (db .transaction : List Transaction), t.type = .withdrawalReversal →
    old t.reference ∨ Returned db t

section Bills

variable {o : Registry} {bs bs' : List Bill} {i n m : Nat} {p : PaystackTransaction}

theorem Registry.draw_of_some (h : o.drawer m ≠ none) : (o.draw i n).drawer m = o.drawer m := by
  simp [draw, h]

theorem Registry.draw_self (h : o.drawer n = none) : (o.draw i n).drawer n = some i := by
  simp [draw, h]

/-- What has been drawn stays so, whatever is looked at. -/
theorem Registry.look_of_some {X : Type} (h : o.drawer m ≠ none) (s : Stmt adehun X) (x : X) :
    (Registry.look i s x o).drawer m = o.drawer m := by
  cases s with
  | fresh => exact draw_of_some h
  | _ => rfl

theorem Registry.look_bills {X : Type} (s : Stmt adehun X) (x : X) :
    (Registry.look i s x o).bills = o.bills := by
  cases s <;> rfl

theorem FollowsOne.mono (h : FollowsOne bs p) (hbs : bs ⊆ bs') : FollowsOne bs' p := by
  obtain ⟨b, hb, hp⟩ := h
  exact ⟨b, hbs hb, hp⟩

theorem FollowsOne.restate {f : Patch adehun .paystackTransaction} (hf : Restates f)
    (h : FollowsOne bs p) : FollowsOne bs (f.run p) := by
  obtain ⟨b, hb, href, huser, hamount⟩ := h
  refine ⟨b, hb, href.trans (hf.reference p).symm, huser.trans (hf.userId p).symm, ?_⟩
  intro hpending
  obtain ⟨hp, hsame⟩ := hf.pending p hpending
  exact (hamount hp).trans hsame.symm

/-- A pending record is the bill itself. -/
theorem FollowsOne.bill_mem (h : FollowsOne bs p) (hp : p.status = .pending) : p.bill ∈ bs := by
  obtain ⟨⟨r, u, n⟩, hb, href, huser, hamount⟩ := h
  obtain rfl : r = p.reference := href
  obtain rfl : u = p.userId := huser
  obtain rfl : n = p.amount := hamount hp
  exact hb

theorem mem_billed {ds : List (Write adehun)} {b : Bill} :
    b ∈ billed ds ↔ ∃ p : PaystackTransaction, Write.insert Table.paystackTransaction p ∈ ds ∧
      p.bill = b := by
  simp only [billed, List.mem_map, List.mem_flatMap]
  refine ⟨?_, ?_⟩
  · rintro ⟨p, ⟨d, hd, hp⟩, rfl⟩
    obtain rfl := Write.mem_inserted.mp hp
    exact ⟨p, hd, rfl⟩
  · rintro ⟨p, hp, rfl⟩
    exact ⟨p, ⟨_, hp, Write.mem_inserted.mpr rfl⟩, rfl⟩

theorem billed_append (ds ds' : List (Write adehun)) :
    billed (ds ++ ds') = billed ds ++ billed ds' := by
  simp [billed]

end Bills

/-! ## What a session has to own -/

/-- What a session knows of a bill: that there is none under a reference that
it has drawn, that no debit is, that it is written, that its debit is on the
way, that the debit is in the ledger, or only that there is the bill. -/
inductive Matter
  | idle
  | unused (r : PaystackReference)
  | drew (r : PaystackReference)
  | noted (b : Bill)
  | entering (b : Bill)
  | owed (b : Bill)
  | intent (b : Bill)

/-- The bills a session knows of: those that are committed, and its own. -/
def known (o : Registry) (i : Nat) (w : Sessions.World adehun) : List Bill :=
  o.bills ++ billed (asked w i)

def Matter.Holds (i : Nat) (w : Sessions.World adehun) (o : Registry) : Matter → Prop
  | .idle => True
  | .unused r => o.drawer r.number = some i ∧ Undebited w.db r ∧ ∀ b ∈ known o i w, b.1 ≠ r
  | .drew r => o.drawer r.number = some i ∧ Undebited w.db r
  | .noted b => o.drawer b.1.number = some i ∧ Undebited w.db b.1 ∧ b ∈ known o i w
  | .entering b => o.drawer b.1.number = some i ∧ Undebited w.db b.1 ∧ b ∈ known o i w ∧
      ∃ t : Transaction, Write.insert Table.transaction t ∈ asked w i ∧ t.voucher = b.debit
  | .owed b => Owed w.db b
  | .intent b => b ∈ known o i w

/-- A session restates records and leaves vouchers as they are; its new
records have numbers of its own, its debits bills, and its reversals debits
in the ledger. -/
structure Deals (g : Matter) (i : Nat) (w : Sessions.World adehun) (o : Registry) : Prop where
  names : World.Mirrors Table.paystackTransaction PaystackTransaction.name i w
  vouchers : World.Mirrors Table.transaction Transaction.voucher i w
  restates : ∀ id f, Write.update Table.paystackTransaction id f ∈ asked w i → Restates f
  records : World.Upholds Table.paystackTransaction (FollowsOne (known o i w)) i w
  one : OneEach (known o i w)
  held : ∀ p : PaystackTransaction, Write.insert Table.paystackTransaction p ∈ asked w i →
    o.drawer p.reference.number = some i
  debits : ∀ (t : Transaction) r, Write.insert Table.transaction t ∈ asked w i →
    t.reference = .withdrawal r → ∃ b, g = .entering b ∧ t.voucher = b.debit
  reversals : ∀ t : Transaction, Write.insert Table.transaction t ∈ asked w i →
    t.type = .withdrawalReversal → Returned w.db t
  holds : g.Holds i w o

/-- Where losing its transaction leads a session. -/
def Matter.lost : Matter → Matter
  | .noted b | .entering b => .drew b.1
  | .intent _ => .idle
  | g => g

/-- Where a commit leads. -/
def Matter.done : Matter → Matter
  | .entering b => .owed b
  | g => g

/-- The debits of a session are on their way in one ghost only. -/
def Matter.Enters : Matter → Prop
  | .entering _ => True
  | _ => False

section Deals

variable {i j : Nat} {w w' : Sessions.World adehun} {o o' : Registry} {g : Matter}
  {r : PaystackReference} {b : Bill} {old : Reference → Prop}

theorem Owed.voucher {db : Db adehun} {t : Transaction}
    (ht : t ∈ (db .transaction : List Transaction)) (href : t.reference = .withdrawal r)
    (htype : t.type = .withdrawal) : Owed db (r, t.userId, t.amount) := by
  refine List.mem_map.mpr ⟨t, ht, ?_⟩
  simp only [Transaction.voucher, Bill.debit, href, htype]

theorem reference_of_debit {t : Transaction} (h : t.voucher = b.debit) :
    t.reference = .withdrawal b.1 := by
  simp only [Transaction.voucher, Bill.debit, Prod.mk.injEq] at h
  exact h.2.1

theorem Returned.mono {db db' : Db adehun} {t : Transaction} (h : Returned db t)
    (hdb : ∀ b, Owed db b → Owed db' b) : Returned db' t := by
  obtain ⟨r, hr, howed⟩ := h
  exact ⟨r, hr, hdb _ howed⟩

theorem Returned.congr {db : Db adehun} {t t' : Transaction} (h : Returned db t)
    (hv : t.voucher = t'.voucher) : Returned db t' := by
  obtain ⟨r, hr, howed⟩ := h
  simp only [Transaction.voucher, Prod.mk.injEq] at hv
  obtain ⟨-, href, huser, hamount⟩ := hv
  rw [href] at hr
  rw [huser, hamount] at howed
  exact ⟨r, hr, howed⟩

theorem Deals.writes (h : Deals g i w o) :
    ∀ d ∈ (w.tx i).writes, d.Retains Table.transaction Transaction.voucher :=
  fun d hd => h.vouchers.writes d (List.mem_append_left _ hd)

/-- What a session commits keeps every debit. -/
theorem Owed.view (h : Owed w.db b) (hd : Deals g i w o) : Owed (w.view i) b :=
  Db.map_subset_applyAll hd.writes w.db h

/-- An entry that a session sees is an old one, or one it asks for. -/
theorem Deals.mem_view (h : Deals g i w o) (hw : w.WF) {t : Transaction}
    (ht : t ∈ (w.view i .transaction : List Transaction)) :
    ∃ t₀ : Transaction, t₀.voucher = t.voucher ∧
      (t₀ ∈ (w.db .transaction : List Transaction) ∨
        Write.insert Table.transaction t₀ ∈ asked w i) := by
  rcases Db.mem_of_retains h.writes (hw.view_keys i) ht with ⟨t₀, h₀, hv⟩ | ⟨t₀, h₀, hv⟩
  · exact ⟨t₀, hv, Or.inl h₀⟩
  · exact ⟨t₀, hv, Or.inr (List.mem_append_left _ h₀)⟩

theorem Deals.undebited (h : Deals g i w o) (hw : w.WF)
    (hg : ∀ b, g = .entering b → b.1 ≠ r) (hnone : Undebited w.db r) :
    Undebited (w.view i) r := by
  intro t ht hr
  obtain ⟨t₀, hv, h₀ | h₀⟩ := h.mem_view hw ht
  · exact hnone t₀ h₀ ((reference_of_voucher hv).trans hr)
  · have hr₀ := (reference_of_voucher hv).trans hr
    obtain ⟨b, hb, hdebit⟩ := h.debits t₀ r h₀ hr₀
    have href := reference_of_debit hdebit
    rw [hr₀] at href
    cases href
    exact hg b hb rfl

/-- A session that asks for the same, and knows its objects as well. -/
theorem Deals.of_asked (h : Deals g i w o)
    (hnames : World.Mirrors Table.paystackTransaction PaystackTransaction.name i w')
    (hvouchers : World.Mirrors Table.transaction Transaction.voucher i w')
    (hrecords : World.Upholds Table.paystackTransaction (FollowsOne (known o i w)) i w')
    (hdb : w'.db = w.db) (hasked : asked w' i = asked w i) : Deals g i w' o := by
  have hknown : known o i w' = known o i w := by rw [known, known, hasked]
  refine ⟨hnames, hvouchers, ?_, ?_, ?_, ?_, ?_, ?_, ?_⟩
  · rw [hasked]
    exact h.restates
  · rw [hknown]
    exact hrecords
  · rw [hknown]
    exact h.one
  · rw [hasked]
    exact h.held
  · rw [hasked]
    exact h.debits
  · rw [hasked, hdb]
    exact h.reversals
  · have hholds := h.holds
    cases g with
    | idle => trivial
    | _ => simpa only [Matter.Holds, hknown, hasked, hdb] using hholds

/-- More is drawn. -/
theorem Deals.later (h : Deals g i w o) (hbills : o'.bills = o.bills)
    (hdrawer : ∀ m, o.drawer m ≠ none → o'.drawer m = o.drawer m) : Deals g i w o' := by
  have hknown : known o' i w = known o i w := by rw [known, known, hbills]
  have hsome : ∀ m, o.drawer m = some i → o'.drawer m = some i := by
    intro m hm
    rw [hdrawer m (by rw [hm]; simp), hm]
  refine ⟨h.names, h.vouchers, h.restates, ?_, ?_, ?_, h.debits, h.reversals, ?_⟩
  · rw [hknown]
    exact h.records
  · rw [hknown]
    exact h.one
  · exact fun p hp => hsome _ (h.held p hp)
  · have hholds := h.holds
    cases g with
    | idle => trivial
    | unused r => exact ⟨hsome _ hholds.1, hholds.2.1, by rw [hknown]; exact hholds.2.2⟩
    | drew r => exact ⟨hsome _ hholds.1, hholds.2⟩
    | noted b => exact ⟨hsome _ hholds.1, hholds.2.1, by rw [hknown]; exact hholds.2.2⟩
    | entering b => exact ⟨hsome _ hholds.1, hholds.2.1, by rw [hknown]; exact hholds.2.2⟩
    | owed b => exact hholds
    | intent b =>
        show b ∈ known o' i w
        rw [hknown]
        exact hholds

/-- A session that asks for nothing. -/
theorem Deals.of_fresh {c : Bool} (hgood : Billed old w.db o) (htx : w.tx i = { aborted := c })
    (hg : g.Holds i w o) : Deals g i w o := by
  have hasked : asked w i = [] := by simp [asked, htx]
  have hknown : known o i w = o.bills := by simp [known, hasked, billed]
  refine ⟨World.Mirrors.of_fresh htx, World.Mirrors.of_fresh htx, ?_, ?_, ?_, ?_, ?_, ?_, hg⟩
  · simp [hasked]
  · rw [hknown]
    exact World.Upholds.of_fresh hgood.records htx
  · rw [hknown]
    exact hgood.one
  · simp [hasked]
  · simp [hasked]
  · simp [hasked]

/-- Whatever a session knows, it may forget, but for a debit on its way. -/
theorem Deals.below (h : Deals g i w o) (hg : ¬ g.Enters) : Deals .idle i w o :=
  { h with
    debits := fun t r ht hr => by
      obtain ⟨b, rfl, -⟩ := h.debits t r ht hr
      exact absurd trivial hg
    holds := trivial }

/-! ### Writes -/

theorem maintains_followsOne {d : Write adehun} {bs : List Bill}
    (hupdate : ∀ id f, d = .update .paystackTransaction id f → Restates f)
    (hinsert : ∀ p, d = .insert .paystackTransaction p → FollowsOne bs p) :
    d.Maintains Table.paystackTransaction (FollowsOne bs) := by
  by_cases ht : d.key.table = .paystackTransaction
  · cases d with
    | insert t p =>
        obtain rfl : t = .paystackTransaction := ht
        exact fun _ => hinsert p rfl
    | update t id f =>
        obtain rfl : t = .paystackTransaction := ht
        exact fun _ p hp => FollowsOne.restate (hupdate id f rfl) hp
    | delete t id => trivial
  · exact Write.maintains_of_ne ht

/-- With more bills the records go with one all the more. -/
theorem Deals.upholds (h : Deals g i w o) {bs : List Bill} (hbs : known o i w ⊆ bs) :
    World.Upholds Table.paystackTransaction (FollowsOne bs) i w := by
  refine h.records.mono (fun d hd hm => ?_) fun p hp => FollowsOne.mono hp hbs
  refine maintains_followsOne ?_ ?_
  · rintro id f rfl
    exact h.restates id f hd
  · rintro p rfl
    exact FollowsOne.mono (hm rfl) hbs

theorem known_stage (d : Write adehun) :
    known o i (w.stage i d) = known o i w ++ billed [d] := by
  rw [known, known, asked_stage, billed_append, List.append_assoc]

theorem billed_eq_nil {d : Write adehun} (hd : ∀ p, d ≠ .insert .paystackTransaction p) :
    billed [d] = [] := by
  refine List.eq_nil_iff_forall_not_mem.mpr fun b hb => ?_
  obtain ⟨p, hp, -⟩ := mem_billed.mp hb
  exact hd p (List.mem_singleton.mp hp).symm

theorem mem_asked_stage {d e : Write adehun} :
    e ∈ asked (w.stage i d) i ↔ e ∈ asked w i ∨ e = d := by
  rw [asked_stage, List.mem_append, List.mem_singleton]

/-- A write that is no new record, by where it leads. -/
theorem Deals.stage_to (h : Deals g i w o) {d : Write adehun} {g' : Matter}
    (hname : d.Retains Table.paystackTransaction PaystackTransaction.name)
    (hvoucher : d.Retains Table.transaction Transaction.voucher)
    (hrestates : ∀ id f, d = .update .paystackTransaction id f → Restates f)
    (hnew : ∀ p, d ≠ .insert .paystackTransaction p)
    (hreturned : ∀ t : Transaction, d = .insert .transaction t → t.type = .withdrawalReversal →
      Returned w.db t)
    (hdebits : ∀ (t : Transaction) r, Write.insert Table.transaction t ∈ asked (w.stage i d) i →
      t.reference = .withdrawal r → ∃ b, g' = .entering b ∧ t.voucher = b.debit)
    (hholds : g'.Holds i (w.stage i d) o) : Deals g' i (w.stage i d) o := by
  have hknown : known o i (w.stage i d) = known o i w := by
    rw [known_stage, billed_eq_nil hnew, List.append_nil]
  refine ⟨h.names.stage hname, h.vouchers.stage hvoucher, ?_, ?_, ?_, ?_, hdebits, ?_, hholds⟩
  · intro id f hf
    rcases mem_asked_stage.mp hf with hf | hf
    · exact h.restates id f hf
    · exact hrestates id f hf.symm
  · rw [hknown]
    refine h.records.stage (maintains_followsOne hrestates ?_)
    exact fun p hp => absurd hp (hnew p)
  · rw [hknown]
    exact h.one
  · intro p hp
    rcases mem_asked_stage.mp hp with hp | hp
    · exact h.held p hp
    · exact absurd hp.symm (hnew p)
  · intro t ht htype
    rcases mem_asked_stage.mp ht with ht | ht
    · exact h.reversals t ht htype
    · exact hreturned t ht.symm htype

/-- A write that is no new record, and no debit. -/
theorem Deals.stage (h : Deals g i w o) {d : Write adehun}
    (hname : d.Retains Table.paystackTransaction PaystackTransaction.name)
    (hvoucher : d.Retains Table.transaction Transaction.voucher)
    (hrestates : ∀ id f, d = .update .paystackTransaction id f → Restates f)
    (hnew : ∀ p, d ≠ .insert .paystackTransaction p)
    (hentry : ∀ t : Transaction, d = .insert .transaction t →
      (∀ r, t.reference ≠ .withdrawal r) ∧
        (t.type = .withdrawalReversal → Returned w.db t)) : Deals g i (w.stage i d) o := by
  have hknown : known o i (w.stage i d) = known o i w := by
    rw [known_stage, billed_eq_nil hnew, List.append_nil]
  refine h.stage_to hname hvoucher hrestates hnew (fun t ht => (hentry t ht).2) ?_ ?_
  · intro t r ht hr
    rcases mem_asked_stage.mp ht with ht | ht
    · exact h.debits t r ht hr
    · exact absurd hr ((hentry t ht.symm).1 r)
  · have hholds := h.holds
    cases g with
    | idle => trivial
    | entering b =>
        obtain ⟨hheld, hnone, hb, t, ht, hv⟩ := hholds
        refine ⟨hheld, hnone, ?_, t, mem_asked_stage.mpr (Or.inl ht), hv⟩
        rw [hknown]
        exact hb
    | unused r => exact ⟨hholds.1, hholds.2.1, by rw [hknown]; exact hholds.2.2⟩
    | drew r => exact hholds
    | noted b => exact ⟨hholds.1, hholds.2.1, by rw [hknown]; exact hholds.2.2⟩
    | owed b => exact hholds
    | intent b =>
        show b ∈ known o i (w.stage i d)
        rw [hknown]
        exact hholds

/-- A new record, under a reference that has none. -/
theorem Deals.note {p : PaystackTransaction} (h : Deals (.unused p.reference) i w o) :
    Deals (.noted p.bill) i (w.stage i (.insert .paystackTransaction p)) o := by
  obtain ⟨hheld, hnone, hunused⟩ := h.holds
  have hbills : billed [.insert .paystackTransaction p] = [p.bill] := rfl
  have hknown : known o i (w.stage i (.insert .paystackTransaction p)) =
      known o i w ++ [p.bill] := by rw [known_stage, hbills]
  have hself : p.bill ∈ known o i w ++ [p.bill] := List.mem_append_right _ List.mem_cons_self
  refine ⟨h.names.stage trivial, h.vouchers.stage (Write.retains_of_ne (by simp [Write.key])),
    ?_, ?_, ?_, ?_, ?_, ?_, hheld, hnone, ?_⟩
  · intro id f hf
    rcases mem_asked_stage.mp hf with hf | hf
    · exact h.restates id f hf
    · cases hf
  · rw [hknown]
    refine (h.upholds (List.subset_append_left _ _)).stage (maintains_followsOne ?_ ?_)
    · intro id f hf
      cases hf
    · intro p' hp'
      cases hp'
      exact ⟨p.bill, hself, rfl, rfl, fun _ => rfl⟩
  · rw [hknown]
    intro b hb b' hb' hsame
    rw [List.mem_append, List.mem_singleton] at hb hb'
    rcases hb with hb | rfl <;> rcases hb' with hb' | rfl
    · exact h.one b hb b' hb' hsame
    · exact absurd hsame (hunused b hb)
    · exact absurd hsame.symm (hunused b' hb')
    · rfl
  · intro p' hp'
    rcases mem_asked_stage.mp hp' with hp' | hp'
    · exact h.held p' hp'
    · cases hp'
      exact hheld
  · intro t r ht hr
    rcases mem_asked_stage.mp ht with ht | ht
    · obtain ⟨b, hb, -⟩ := h.debits t r ht hr
      cases hb
    · cases ht
  · intro t ht htype
    rcases mem_asked_stage.mp ht with ht | ht
    · exact h.reversals t ht htype
    · cases ht
  · rw [hknown]
    exact hself

/-- The debit of a bill. -/
theorem Deals.enter (h : Deals (.noted b) i w o) {t : Transaction} (hv : t.voucher = b.debit) :
    Deals (.entering b) i (w.stage i (.insert .transaction t)) o := by
  obtain ⟨hheld, hnone, hb⟩ := h.holds
  have htype : t.type = .withdrawal := congrArg Prod.fst hv
  refine h.stage_to (Write.retains_of_ne (by simp [Write.key])) trivial ?_ ?_ ?_ ?_ ?_
  · intro id f hf
    cases hf
  · intro p hp
    cases hp
  · intro t' ht' hreversal
    cases ht'
    rw [htype] at hreversal
    cases hreversal
  · intro t' r ht' hr
    rcases mem_asked_stage.mp ht' with ht' | ht'
    · obtain ⟨b', hb', -⟩ := h.debits t' r ht' hr
      cases hb'
    · cases ht'
      exact ⟨b, rfl, hv⟩
  · refine ⟨hheld, hnone, ?_, t, mem_asked_stage.mpr (Or.inr rfl), hv⟩
    rw [known_stage]
    exact List.mem_append_left _ hb

/-- A write past the unit of work, to another table. -/
theorem Deals.put (h : Deals g i w o) {d : Write adehun}
    (hname : d.key.table ≠ .paystackTransaction) (hvoucher : d.key.table ≠ .transaction) :
    Deals g i (w.put i d) o := by
  have hmem : ∀ e, e ∈ asked (w.put i d) i ↔ e ∈ asked w i ∨ e = d := by
    intro e
    simp only [asked, World.put_tx_self, List.mem_append, List.mem_singleton]
    tauto
  have hp : ∀ p, Write.insert Table.paystackTransaction p ≠ d := by
    rintro p rfl
    exact hname rfl
  have ht : ∀ t, Write.insert Table.transaction t ≠ d := by
    rintro t rfl
    exact hvoucher rfl
  have hbills : ∀ b, b ∈ billed (asked (w.put i d) i) ↔ b ∈ billed (asked w i) := by
    intro b
    rw [mem_billed, mem_billed]
    refine exists_congr fun p => and_congr_left fun _ => ?_
    rw [hmem]
    exact or_iff_left (hp p)
  have hknown : ∀ b, b ∈ known o i (w.put i d) ↔ b ∈ known o i w := by
    intro b
    rw [known, known, List.mem_append, List.mem_append, hbills]
  refine ⟨h.names.put (Write.retains_of_ne hname), h.vouchers.put (Write.retains_of_ne hvoucher),
    ?_, ?_, ?_, ?_, ?_, ?_, ?_⟩
  · intro id f hf
    rcases (hmem _).mp hf with hf | rfl
    · exact h.restates id f hf
    · exact absurd rfl hname
  · exact (h.upholds fun b hb => (hknown b).mpr hb).put (Write.maintains_of_ne hname)
  · intro b hb b' hb'
    exact h.one b ((hknown b).mp hb) b' ((hknown b').mp hb')
  · intro p hp'
    exact h.held p (((hmem _).mp hp').resolve_right (hp p))
  · intro t r ht'
    exact h.debits t r (((hmem _).mp ht').resolve_right (ht t))
  · intro t ht'
    exact h.reversals t (((hmem _).mp ht').resolve_right (ht t))
  · have hholds := h.holds
    cases g with
    | idle => trivial
    | unused r => exact ⟨hholds.1, hholds.2.1, fun b hb => hholds.2.2 b ((hknown b).mp hb)⟩
    | drew r => exact hholds
    | noted b => exact ⟨hholds.1, hholds.2.1, (hknown b).mpr hholds.2.2⟩
    | entering b =>
        obtain ⟨hheld, hnone, hb, t, ht', hv⟩ := hholds
        exact ⟨hheld, hnone, (hknown b).mpr hb, t, (hmem _).mpr (Or.inl ht'), hv⟩
    | owed b => exact hholds
    | intent b => exact (hknown b).mpr hholds

/-! ### Ends of transactions -/

theorem Deals.lost (h : Deals g i w o) (hgood : Billed old w.db o) {c : Bool}
    (hdb : w'.db = w.db) (htx : w'.tx i = { aborted := c }) : Deals g.lost i w' o := by
  have hgood' : Billed old w'.db o := by
    rw [hdb]
    exact hgood
  have hasked : asked w' i = [] := by simp [asked, htx]
  refine Deals.of_fresh hgood' htx ?_
  have hholds := h.holds
  cases g with
  | idle => trivial
  | unused r =>
      refine ⟨hholds.1, ?_, ?_⟩
      · rw [hdb]
        exact hholds.2.1
      · intro b hb
        rw [known, hasked, billed, List.flatMap_nil, List.map_nil, List.append_nil] at hb
        exact hholds.2.2 b (List.mem_append_left _ hb)
  | drew r => exact ⟨hholds.1, by rw [hdb]; exact hholds.2⟩
  | noted b => exact ⟨hholds.1, by rw [hdb]; exact hholds.2.1⟩
  | entering b => exact ⟨hholds.1, by rw [hdb]; exact hholds.2.1⟩
  | owed b =>
      show Owed w'.db b
      rw [hdb]
      exact hholds
  | intent b => trivial

/-- The record after a commit. -/
abbrev Registry.commit (o : Registry) (i : Nat) (w : Sessions.World adehun) : Registry :=
  { o with bills := o.bills ++ billed (w.tx i).writes }

theorem known_of_clean (hd : (w.tx i).dirty = []) :
    known o i w = (o.commit i w).bills := by
  rw [known, asked, hd, List.append_nil]

theorem Billed.commit (hgood : Billed old w.db o) (h : Deals g i w o) (hw : w.WF)
    (hd : (w.tx i).dirty = []) : Billed old (w.view i) (o.commit i w) := by
  have hknown := known_of_clean (o := o) hd
  refine ⟨?_, ?_, ?_, ?_, ?_⟩
  · rw [← hknown]
    exact h.records.rows
  · intro b hb
    rcases List.mem_append.mp hb with hb | hb
    · exact hgood.drawn b hb
    · obtain ⟨p, hp, rfl⟩ := mem_billed.mp hb
      have hheld : o.drawer p.reference.number = some i :=
        h.held p (List.mem_append_left _ hp)
      show o.drawer p.reference.number ≠ none
      rw [hheld]
      simp
  · rw [← hknown]
    exact h.one
  · intro t ht r hr
    obtain ⟨t₀, hv, h₀ | h₀⟩ := h.mem_view hw ht
    · have hdebit := hgood.debits t₀ h₀ r ((reference_of_voucher hv).trans hr)
      simp only [Transaction.voucher, Prod.mk.injEq] at hv
      rw [hv.1, hv.2.2.1, hv.2.2.2] at hdebit
      exact ⟨List.mem_append_left _ hdebit.1, hdebit.2⟩
    · obtain ⟨b, rfl, hdebit⟩ := h.debits t₀ r h₀ ((reference_of_voucher hv).trans hr)
      have hb := h.holds.2.2.1
      rw [hknown] at hb
      have hbill := hv.symm.trans hdebit
      simp only [Transaction.voucher, Bill.debit, Prod.mk.injEq] at hbill
      obtain ⟨htype, href, huser, hamount⟩ := hbill
      rw [hr] at href
      cases href
      rw [huser, hamount]
      exact ⟨hb, htype⟩
  · intro t ht htype
    obtain ⟨t₀, hv, h₀ | h₀⟩ := h.mem_view hw ht
    · have htype₀ : t₀.type = .withdrawalReversal := (congrArg Prod.fst hv).trans htype
      rcases hgood.returned t₀ h₀ htype₀ with hold | hreturned
      · rw [reference_of_voucher hv] at hold
        exact Or.inl hold
      · exact Or.inr ((hreturned.mono fun b hb => hb.view h).congr hv)
    · have htype₀ : t₀.type = .withdrawalReversal := (congrArg Prod.fst hv).trans htype
      exact Or.inr (((h.reversals t₀ h₀ htype₀).mono fun b hb => hb.view h).congr hv)

theorem Deals.done (h : Deals g i w o) (hgood : Billed old w.db o) (hw : w.WF)
    (hd : (w.tx i).dirty = []) : Deals g.done i (w.commit i) (o.commit i w) := by
  have htx : (w.commit i).tx i = { aborted := false } := World.commit_tx_self w i
  have hknown := known_of_clean (o := o) hd
  have hknown' : known (o.commit i w) i (w.commit i) = known o i w := by
    rw [known, hknown]
    simp [asked, billed]
  have hgood' : Billed old (w.commit i).db (o.commit i w) := by
    rw [World.commit_db]
    exact hgood.commit h hw hd
  refine Deals.of_fresh hgood' htx ?_
  have hholds := h.holds
  cases g with
  | idle => trivial
  | unused r =>
      refine ⟨hholds.1, ?_, by rw [hknown']; exact hholds.2.2⟩
      rw [World.commit_db]
      exact h.undebited hw (fun b hb => by cases hb) hholds.2.1
  | drew r =>
      refine ⟨hholds.1, ?_⟩
      rw [World.commit_db]
      exact h.undebited hw (fun b hb => by cases hb) hholds.2
  | noted b =>
      refine ⟨hholds.1, ?_, by rw [hknown']; exact hholds.2.2⟩
      rw [World.commit_db]
      exact h.undebited hw (fun b hb => by cases hb) hholds.2.1
  | entering b =>
      obtain ⟨-, -, -, t, ht, hv⟩ := hholds
      have hin : Write.insert Table.transaction t ∈ (w.tx i).writes := by
        rw [asked, hd, List.append_nil] at ht
        exact ht
      show Owed (w.commit i).db b
      rw [World.commit_db, Owed, ← hv]
      exact Db.mem_map_applyAll h.writes hin w.db
  | owed b =>
      show Owed (w.commit i).db b
      rw [World.commit_db]
      exact hholds.view h
  | intent b =>
      show b ∈ known (o.commit i w) i (w.commit i)
      rw [hknown']
      exact hholds

/-- What one session commits is under numbers that no other holds. -/
theorem Deals.commit (hne : j ≠ i) (hw : w.WF) (hd : (w.tx i).dirty = []) (hi : Deals g i w o)
    {g' : Matter} (hj : Deals g' j w o) : Deals g' j (w.commit i) (o.commit i w) := by
  have hasked : asked (w.commit i) j = asked w j := by
    rw [asked, asked, World.commit_tx_of_ne w hne]
  have hmem : ∀ b, b ∈ known (o.commit i w) j (w.commit i) ↔
      b ∈ known o j w ∨ b ∈ billed (w.tx i).writes := by
    intro b
    rw [known, known, hasked, List.mem_append, List.mem_append, List.mem_append]
    tauto
  -- a bill of the committed session is under a number that is its own
  have hnew : ∀ b ∈ billed (w.tx i).writes, o.drawer b.1.number = some i := by
    intro b hb
    obtain ⟨p, hp, rfl⟩ := mem_billed.mp hb
    exact hi.held p (List.mem_append_left _ hp)
  have hapart : ∀ r : PaystackReference, o.drawer r.number = some j →
      ∀ b ∈ billed (w.tx i).writes, b.1 ≠ r := by
    rintro r hr b hb rfl
    have hheld := hnew b hb
    rw [hr] at hheld
    exact hne (Option.some.inj hheld)
  have hknown : ∀ b ∈ billed (w.tx i).writes, b ∈ known o i w := fun b hb => by
    rw [known_of_clean hd]
    exact List.mem_append_right _ hb
  have hnone : ∀ r : PaystackReference, o.drawer r.number = some j → Undebited w.db r →
      Undebited (w.commit i).db r := by
    intro r hr hnone
    rw [World.commit_db]
    refine hi.undebited hw ?_ hnone
    rintro b rfl rfl
    have hheld := hi.holds.1
    rw [hr] at hheld
    exact hne (Option.some.inj hheld)
  have hgrow : ∀ b, Owed w.db b → Owed (w.commit i).db b := by
    intro b hb
    rw [World.commit_db]
    exact hb.view hi
  refine ⟨hi.names.commit hne hw hj.names, hi.vouchers.commit hne hw hj.vouchers,
    ?_, ?_, ?_, ?_, ?_, ?_, ?_⟩
  · rw [hasked]
    exact hj.restates
  · refine World.Upholds.commit hne (hi.upholds ?_) (hj.upholds ?_)
    · intro b hb
      rw [known_of_clean hd] at hb
      refine (hmem b).mpr ((List.mem_append.mp hb).imp_left fun hb => ?_)
      exact List.mem_append_left _ hb
    · exact fun b hb => (hmem b).mpr (Or.inl hb)
  · intro b hb b' hb' hsame
    -- bills that both were committed are among those the committed session knows of
    have hcross : ∀ b ∈ known o j w, ∀ b' ∈ billed (w.tx i).writes, b.1 = b'.1 → b = b' := by
      intro b hb b' hb' hsame
      rcases List.mem_append.mp hb with hb | hb
      · exact hi.one b (List.mem_append_left _ hb) b' (hknown b' hb') hsame
      · obtain ⟨p, hp, rfl⟩ := mem_billed.mp hb
        exact absurd hsame.symm (hapart p.reference (hj.held p hp) b' hb')
    rcases (hmem b).mp hb with hb | hb <;> rcases (hmem b').mp hb' with hb' | hb'
    · exact hj.one b hb b' hb' hsame
    · exact hcross b hb b' hb' hsame
    · exact (hcross b' hb' b hb hsame.symm).symm
    · exact hi.one b (hknown b hb) b' (hknown b' hb') hsame
  · rw [hasked]
    exact hj.held
  · rw [hasked]
    exact hj.debits
  · rw [hasked]
    exact fun t ht htype => (hj.reversals t ht htype).mono hgrow
  · have hholds := hj.holds
    cases g' with
    | idle => trivial
    | unused r =>
        refine ⟨hholds.1, hnone r hholds.1 hholds.2.1, ?_⟩
        intro b hb
        rcases (hmem b).mp hb with hb | hb
        · exact hholds.2.2 b hb
        · exact hapart r hholds.1 b hb
    | drew r => exact ⟨hholds.1, hnone r hholds.1 hholds.2⟩
    | noted b =>
        exact ⟨hholds.1, hnone b.1 hholds.1 hholds.2.1, (hmem b).mpr (Or.inl hholds.2.2)⟩
    | entering b =>
        refine ⟨hholds.1, hnone b.1 hholds.1 hholds.2.1, (hmem b).mpr (Or.inl hholds.2.2.1), ?_⟩
        rw [hasked]
        exact hholds.2.2.2
    | owed b => exact hgrow b hholds
    | intent b => exact (hmem b).mpr (Or.inl hholds)

end Deals

/-- Reversals return what was withdrawn: as a discipline. -/
def returning (old : Reference → Prop) : registry.Discipline where
  Ghost := Matter
  rest _ := .idle
  lost := Matter.lost
  done := Matter.done
  Commits _ := True
  Good := Billed old
  Own := Deals
  guard := sincere
  own_congr := by
    intro g i o w w' hdb htx _ h
    refine h.of_asked (h.names.congr hdb htx) (h.vouchers.congr hdb htx)
      (h.records.congr hdb htx) hdb ?_
    rw [asked, asked, htx]
  own_remember := by
    intro g i o w k _ h
    refine h.of_asked (h.names.remember k) (h.vouchers.remember k) (h.records.remember k) rfl ?_
    simp [asked, World.remember]
  own_send := by
    intro g i o w d ds _ _ _ hd _ hr h
    refine h.of_asked (h.names.send hd hr) (h.vouchers.send hd hr) (h.records.send hd) (by simp) ?_
    simp [asked, hd]
  own_lost := by
    rintro g i o w w' hgood h hdb ⟨b, htx⟩
    exact h.lost hgood hdb htx
  good_commit _ hw hgood hd _ h := hgood.commit h hw hd
  own_done _ hw hgood hd _ h := h.done hgood hw hd
  own_commit hne _ hw _ hd _ hi hj := Deals.commit hne hw hd hi hj
  good_start _ h := h
  own_start _ _ h := h
  own_init _ hgood htx := Deals.of_fresh (c := false) hgood htx trivial
  good_look := by
    intro g i o w w' c X s x _ _ _ _ hgood _
    refine { hgood with records := ?_, drawn := ?_, one := ?_, debits := ?_ }
    · rw [Registry.look_bills]
      exact hgood.records
    · rw [Registry.look_bills]
      intro b hb
      rw [Registry.look_of_some (hgood.drawn b hb)]
      exact hgood.drawn b hb
    · rw [Registry.look_bills]
      exact hgood.one
    · rw [Registry.look_bills]
      exact hgood.debits
  own_look _ _ _ _ _ h := h.later (Registry.look_bills _ _) fun _ hm => Registry.look_of_some hm _ _
  look_other _ _ _ _ h := h.later (Registry.look_bills _ _) fun _ hm => Registry.look_of_some hm _ _
  good_crash _ h := h
  own_crash _ h := h

end Adehun
