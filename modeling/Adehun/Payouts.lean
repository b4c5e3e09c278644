import Adehun.Sessions.Licence
import Adehun.Deposits

/-!
# What is paid out was debited

A transfer cannot be taken back, and the provider is asked for it outside of
any transaction. Between the commit of the debit and the request lie the
statements of others, and what the session read before may be stale: what
makes the transfer safe is the random part of its reference. As long as the
generator does not repeat itself, the number is the session's alone from the
moment it is drawn, so that no other debit can stand under the reference and
no other transfer can be sent under it.
-/

namespace Adehun

open Sessions
open Observer (Triple)
open Observer.Discipline

/-! ## What has been drawn and sent -/

/-- What has become of a random number: nobody has drawn it, a session draws
on it, or it is used up. -/
inductive Draw
  | free
  | held (i : Nat)
  | gone
deriving DecidableEq

/-- The random part of a reference. -/
def PaystackReference.number : PaystackReference → Nat
  | .fund _ n | .withdrawal _ n => n

/-- The numbers that have been drawn, and the transfers that have been sent,
by reference and amount. -/
structure Payouts where
  drawer : Nat → Draw
  sent : List (PaystackReference × Kobo) := []

namespace Payouts

def draw (o : Payouts) (i n : Nat) : Payouts :=
  { o with drawer := fun m => if m = n ∧ o.drawer m = .free then .held i else o.drawer m }

/-- A transfer uses up the number that its sender holds. -/
def send (o : Payouts) (i : Nat) (r : PaystackReference) (n : Kobo) : Payouts where
  drawer m := if m = r.number ∧ o.drawer m = .held i then .gone else o.drawer m
  sent := (r, n) :: o.sent

/-- With a new request a session lets go of what it held. -/
def start (o : Payouts) (i : Nat) : Payouts :=
  { o with drawer := fun m => if o.drawer m = .held i then .gone else o.drawer m }

def look (i : Nat) : {X : Type} → Stmt adehun X → X → Payouts → Payouts
  | _, .fresh, n, o => o.draw i n
  | _, .await (.provider (.initiateTransfer n _ r _)), _, o => o.send i r n
  | _, _, _, o => o

end Payouts

/-- The draws and the transfers, as the sessions make them. -/
abbrev dispatch : Observer adehun Request where
  State := Payouts
  start i _ o := o.start i
  look i _ := Payouts.look i

/-- A statement that sends money. -/
def Sends {X : Type} : Stmt adehun X → Prop
  | .await (.provider r) => r.sends = true
  | _ => False

/-- The generator does not repeat itself, nor a number that a withdrawal of
the ledger has. -/
def unrepeated (o : Payouts) : Guard adehun where
  exec _ _ s c :=
    match s with
    | .fresh => o.drawer c.value = .free
    | _ => True

/-- `unrepeated`, tested. -/
def unrepeated.test (o : Payouts) : (unrepeated o).Test where
  exec _ _ s c :=
    match s with
    | .fresh => decide (o.drawer c.value = .free)
    | _ => true
  exec_sound := by
    intro X w i s c h
    cases s with
    | fresh => exact (of_decide_eq_true h : o.drawer c.value = .free)
    | _ => trivial
  flush_sound _ := trivial

theorem not_sends_of_usual {X : Type} {s : Stmt adehun X} (hs : Usual s) : ¬ Sends s := by
  intro hsends
  cases s with
  | await c =>
      cases c with
      | provider r =>
          rw [Usual] at hs
          rw [Sends, hs] at hsends
          cases hsends
      | _ => exact hsends
  | _ => exact hsends

/-- For a session, all that it holds it still holds, what is gone stays gone,
and nothing is given back. -/
structure Payouts.Later (i : Nat) (o o' : Payouts) : Prop where
  held : ∀ m, o.drawer m = .held i → o'.drawer m = .held i
  gone : ∀ m, o.drawer m = .gone → o'.drawer m = .gone
  free : ∀ m, o'.drawer m = .free → o.drawer m = .free

/-- A number that nobody else can draw on. -/
def Payouts.Taken (o : Payouts) (i m : Nat) : Prop :=
  o.drawer m = .held i ∨ o.drawer m = .gone

namespace Payouts

variable {i j : Nat} {o o' : Payouts} {m n : Nat} {r : PaystackReference} {k : Kobo}

theorem Later.refl (i : Nat) (o : Payouts) : Later i o o :=
  ⟨fun _ h => h, fun _ h => h, fun _ h => h⟩

theorem later_draw (i j n : Nat) (o : Payouts) : Later j o (o.draw i n) := by
  refine ⟨?_, ?_, ?_⟩
  · intro m hm
    simp [draw, hm]
  · intro m hm
    simp [draw, hm]
  · intro m hm
    simp only [draw] at hm
    split at hm
    · cases hm
    · exact hm

theorem later_send (hne : j ≠ i) : Later j o (o.send i r k) := by
  refine ⟨?_, ?_, ?_⟩
  · intro m hm
    simp [send, hm, hne]
  · intro m hm
    simp [send, hm]
  · intro m hm
    simp only [send] at hm
    split at hm
    · cases hm
    · exact hm

theorem later_start (hne : j ≠ i) : Later j o (o.start i) := by
  refine ⟨?_, ?_, ?_⟩
  · intro m hm
    simp [start, hm, hne]
  · intro m hm
    simp [start, hm]
  · intro m hm
    simp only [start] at hm
    split at hm
    · cases hm
    · exact hm

theorem free_start (h : (o.start i).drawer m = .free) : o.drawer m = .free := by
  simp only [start] at h
  split at h
  · cases h
  · exact h

theorem gone_start (h : o.drawer m = .gone) : (o.start i).drawer m = .gone := by
  simp [start, h]

theorem free_send (h : (o.send i r k).drawer m = .free) : o.drawer m = .free := by
  simp only [send] at h
  split at h
  · cases h
  · exact h

theorem taken_send (h : o.Taken i m) : (o.send i r k).Taken i m := by
  unfold Taken send
  dsimp only
  split
  · exact Or.inr rfl
  · exact h

theorem gone_send (h : o.drawer m = .gone) : (o.send i r k).drawer m = .gone := by
  simp [send, h]

theorem gone_send_self (h : o.drawer r.number = .held i) :
    (o.send i r k).drawer r.number = .gone := by
  simp [send, h]

theorem Taken.later (h : o.Taken i m) (ho : Later i o o') : o'.Taken i m :=
  h.imp (ho.held m) (ho.gone m)

theorem Taken.not_free (h : o.Taken i m) : o.drawer m ≠ .free := by
  rcases h with h | h <;> rw [h] <;> simp

/-- Nobody else holds it. -/
theorem Taken.not_held (h : o.Taken i m) (hne : j ≠ i) : o.drawer m ≠ .held j := by
  rcases h with h | h <;> rw [h] <;> simp [Ne.symm hne]

/-- What is not a transfer leaves everybody with what they hold. -/
theorem later_look {X : Type} {s : Stmt adehun X} (hs : ¬ Sends s) (i j : Nat) (x : X)
    (o : Payouts) : Later j o (look i s x o) := by
  cases s with
  | fresh => exact later_draw i j x o
  | await c =>
      cases c with
      | provider q =>
          cases q with
          | initiateTransfer => exact absurd rfl hs
          | _ => exact Later.refl j o
      | _ => exact Later.refl j o
  | _ => exact Later.refl j o

/-- A transfer is not looked at but as one. -/
theorem look_sends {X : Type} {s : Stmt adehun X} (hs : Sends s) (i : Nat)
    (w : Sessions.World adehun) (x : X) (o : Payouts) :
    ∃ r k, dispatch.look i w s x o = o.send i r k := by
  cases s with
  | await c =>
      cases c with
      | provider q =>
          cases q with
          | initiateTransfer n code r reason => exact ⟨r, n, rfl⟩
          | _ => cases hs
      | _ => exact hs.elim
  | _ => exact hs.elim

end Payouts

/-! ## Transfers that are backed -/

/-- A withdrawal of the amount is in the ledger under the reference. -/
def Debited (db : Db adehun) (r : PaystackReference) (n : Kobo) : Prop :=
  ∃ u, (LedgerEntryType.withdrawal, Reference.withdrawal r, u, n) ∈
    (db .transaction : List Transaction).map Transaction.voucher

/-- No entry is under the reference. -/
def Undebited (db : Db adehun) (r : PaystackReference) : Prop :=
  ∀ t ∈ (db .transaction : List Transaction), t.reference ≠ .withdrawal r

/-- No transfer is sent twice, and each has its debit. -/
structure Covered (db : Db adehun) (o : Payouts) : Prop where
  once : (o.sent.map Prod.fst).Nodup
  debited : ∀ s ∈ o.sent, Debited db s.1 s.2

/-- The numbers of withdrawals are not drawn again. -/
def Numbered (db : Db adehun) (o : Payouts) : Prop :=
  ∀ t ∈ (db .transaction : List Transaction), ∀ r, t.reference = .withdrawal r →
    o.drawer r.number ≠ .free

/-! ## What a session has to own -/

/-- How far a session is with a withdrawal: nowhere, with a reference that is
its alone, with a debit on its way, or with one in the ledger. -/
inductive Errand
  | idle
  | drew (r : PaystackReference)
  | entering (r : PaystackReference) (n : Kobo)
  | debited (r : PaystackReference) (n : Kobo)

def Errand.Holds (i : Nat) (w : Sessions.World adehun) (o : Payouts) : Errand → Prop
  | .idle => True
  | .drew r => o.drawer r.number = .held i ∧ Undebited w.db r ∧
      ∀ t, Write.insert Table.transaction t ∈ asked w i → t.reference ≠ .withdrawal r
  | .entering r n => o.drawer r.number = .held i ∧ Undebited w.db r ∧
      ∃ t : Transaction, Write.insert Table.transaction t ∈ asked w i ∧ t.type = .withdrawal ∧
        t.reference = .withdrawal r ∧ t.amount = n
  | .debited r n => o.drawer r.number = .held i ∧ Debited w.db r n

/-- A session leaves vouchers as they are, and the withdrawals it asks for
have numbers that are its alone. -/
structure Pays (g : Errand) (i : Nat) (w : Sessions.World adehun) (o : Payouts) : Prop where
  vouchers : ∀ d ∈ asked w i, d.Retains Table.transaction Transaction.voucher
  taken : ∀ (t : Transaction) r, Write.insert Table.transaction t ∈ asked w i →
    t.reference = .withdrawal r → o.Taken i r.number
  holds : g.Holds i w o

section Pays

variable {i j : Nat} {w w' : Sessions.World adehun} {o o' : Payouts} {g : Errand}
  {r : PaystackReference} {n : Kobo}

/-- A session that asks for the same. -/
theorem Pays.of_asked (h : Pays g i w o) (hdb : w'.db = w.db)
    (hasked : ∀ d, d ∈ asked w' i ↔ d ∈ asked w i) (ho : o.Later i o') : Pays g i w' o' := by
  refine ⟨?_, ?_, ?_⟩
  · intro d hd
    exact h.vouchers d ((hasked d).mp hd)
  · intro t r ht hr
    exact (h.taken t r ((hasked _).mp ht) hr).later ho
  · have hholds := h.holds
    cases g with
    | idle => trivial
    | drew r =>
        obtain ⟨hheld, hnone, hnew⟩ := hholds
        refine ⟨ho.held _ hheld, ?_, ?_⟩
        · rw [hdb]
          exact hnone
        · intro t ht
          exact hnew t ((hasked _).mp ht)
    | entering r n =>
        obtain ⟨hheld, hnone, t, ht, hdebit⟩ := hholds
        refine ⟨ho.held _ hheld, ?_, t, (hasked _).mpr ht, hdebit⟩
        rw [hdb]
        exact hnone
    | debited r n =>
        refine ⟨ho.held _ hholds.1, ?_⟩
        rw [hdb]
        exact hholds.2

theorem Pays.later (h : Pays g i w o) (ho : o.Later i o') : Pays g i w o' :=
  h.of_asked rfl (fun _ => Iff.rfl) ho

theorem Pays.below (h : Pays g i w o) : Pays .idle i w o := { h with holds := trivial }

theorem Pays.sent (h : Pays g i w o) : Pays .idle i w (o.send i r n) where
  vouchers := h.vouchers
  taken t r ht hr := (h.taken t r ht hr).imp_left id |> Payouts.taken_send
  holds := trivial

/-- A session that asks for nothing. -/
theorem Pays.of_fresh {b : Bool} (htx : w.tx i = { aborted := b }) (hg : g.Holds i w o) :
    Pays g i w o := by
  refine ⟨?_, ?_, hg⟩ <;> simp [asked, htx]

theorem Pays.writes (h : Pays g i w o) :
    ∀ d ∈ (w.tx i).writes, d.Retains Table.transaction Transaction.voucher :=
  fun d hd => h.vouchers d (List.mem_append_left _ hd)

/-- More than the old entries, and what one session asks for. -/
theorem mem_view_transaction (hw : w.WF) (h : Pays g i w o) {t : Transaction}
    (ht : t ∈ (w.view i .transaction : List Transaction)) :
    ∃ t₀ : Transaction, t₀.voucher = t.voucher ∧
      (t₀ ∈ (w.db .transaction : List Transaction) ∨
        Write.insert Table.transaction t₀ ∈ asked w i) := by
  rcases Db.mem_of_retains h.writes (hw.view_keys i) ht with ⟨t₀, h₀, hv⟩ | ⟨t₀, h₀, hv⟩
  · exact ⟨t₀, hv, Or.inl h₀⟩
  · exact ⟨t₀, hv, Or.inr (List.mem_append_left _ h₀)⟩

theorem Pays.view_undebited (h : Pays (.drew r) i w o) (hw : w.WF) : Undebited (w.view i) r := by
  intro t ht hr
  obtain ⟨-, hnone, hnew⟩ := h.holds
  obtain ⟨t₀, hv, h₀ | h₀⟩ := mem_view_transaction hw h ht
  · exact hnone t₀ h₀ ((reference_of_voucher hv).trans hr)
  · exact hnew t₀ h₀ ((reference_of_voucher hv).trans hr)

/-- What a session commits keeps every debit. -/
theorem Debited.view (h : Debited w.db r n) (hp : Pays g i w o) : Debited (w.view i) r n := by
  obtain ⟨u, hu⟩ := h
  exact ⟨u, Db.map_subset_applyAll hp.writes w.db hu⟩

theorem Pays.stage (h : Pays g i w o) {d : Write adehun}
    (hvoucher : d.Retains Table.transaction Transaction.voucher)
    (hnew : ∀ t : Transaction, d = .insert .transaction t → ∀ r, t.reference ≠ .withdrawal r) :
    Pays g i (w.stage i d) o := by
  have hmem : ∀ e ∈ asked (w.stage i d) i, e ∈ asked w i ∨ e = d := by
    intro e he
    rw [asked_stage, List.mem_append, List.mem_singleton] at he
    exact he
  refine ⟨?_, ?_, ?_⟩
  · intro e he
    rcases hmem e he with he | rfl
    · exact h.vouchers e he
    · exact hvoucher
  · intro t r ht hr
    rcases hmem _ ht with ht | rfl
    · exact h.taken t r ht hr
    · exact absurd hr (hnew t rfl r)
  · have hholds := h.holds
    cases g with
    | idle => trivial
    | drew r =>
        refine ⟨hholds.1, hholds.2.1, ?_⟩
        intro t ht
        rcases hmem _ ht with ht | rfl
        · exact hholds.2.2 t ht
        · exact hnew t rfl r
    | entering r n =>
        obtain ⟨hheld, hnone, t, ht, hdebit⟩ := hholds
        refine ⟨hheld, hnone, t, ?_, hdebit⟩
        rw [asked_stage]
        exact List.mem_append_left _ ht
    | debited r n => exact hholds

/-- The debit itself. -/
theorem Pays.enter (h : Pays (.drew r) i w o) {t : Transaction} (htype : t.type = .withdrawal)
    (href : t.reference = .withdrawal r) :
    Pays (.entering r t.amount) i (w.stage i (.insert .transaction t)) o := by
  obtain ⟨hheld, hnone, -⟩ := h.holds
  have hmem : ∀ e, e ∈ asked (w.stage i (.insert .transaction t)) i ↔
      e ∈ asked w i ∨ e = .insert .transaction t := by
    intro e
    rw [asked_stage, List.mem_append, List.mem_singleton]
  refine ⟨?_, ?_, hheld, hnone, t, (hmem _).mpr (Or.inr rfl), htype, href, rfl⟩
  · intro e he
    rcases (hmem e).mp he with he | rfl
    · exact h.vouchers e he
    · trivial
  · intro t' r' ht' hr'
    rcases (hmem _).mp ht' with ht' | heq
    · exact h.taken t' r' ht' hr'
    · cases heq
      rw [href] at hr'
      cases hr'
      exact Or.inl hheld

theorem Pays.put (h : Pays g i w o) {d : Write adehun} (hd : d.key.table ≠ .transaction) :
    Pays g i (w.put i d) o := by
  have hmem : ∀ e, e ∈ asked (w.put i d) i ↔ e ∈ asked w i ∨ e = d := by
    intro e
    simp only [asked, World.put_tx_self, List.mem_append, List.mem_singleton]
    tauto
  have hnot : ∀ t : Transaction, Write.insert Table.transaction t ≠ d := by
    rintro t rfl
    exact hd rfl
  refine ⟨?_, ?_, ?_⟩
  · intro e he
    rcases (hmem e).mp he with he | rfl
    · exact h.vouchers e he
    · exact Write.retains_of_ne hd
  · intro t r ht hr
    exact h.taken t r (((hmem _).mp ht).resolve_right (hnot t)) hr
  · have hholds := h.holds
    cases g with
    | idle => trivial
    | drew r =>
        refine ⟨hholds.1, hholds.2.1, ?_⟩
        intro t ht
        exact hholds.2.2 t (((hmem _).mp ht).resolve_right (hnot t))
    | entering r n =>
        obtain ⟨hheld, hnone, t, ht, hdebit⟩ := hholds
        exact ⟨hheld, hnone, t, (hmem _).mpr (Or.inl ht), hdebit⟩
    | debited r n => exact hholds

/-- Where losing its transaction leads a session. -/
def Errand.lost : Errand → Errand
  | .entering r _ => .drew r
  | g => g

/-- Where a commit leads. -/
def Errand.done : Errand → Errand
  | .entering r n => .debited r n
  | g => g

theorem Pays.lost (h : Pays g i w o) {b : Bool} (hdb : w'.db = w.db)
    (htx : w'.tx i = { aborted := b }) : Pays g.lost i w' o := by
  refine Pays.of_fresh htx ?_
  have hholds := h.holds
  cases g with
  | idle => trivial
  | drew r =>
      refine ⟨hholds.1, ?_, by simp [asked, htx]⟩
      rw [hdb]
      exact hholds.2.1
  | entering r n =>
      refine ⟨hholds.1, ?_, by simp [asked, htx]⟩
      rw [hdb]
      exact hholds.2.1
  | debited r n =>
      refine ⟨hholds.1, ?_⟩
      rw [hdb]
      exact hholds.2

theorem Pays.done (h : Pays g i w o) (hw : w.WF) (hd : (w.tx i).dirty = []) :
    Pays g.done i (w.commit i) o := by
  have htx : (w.commit i).tx i = { aborted := false } := World.commit_tx_self w i
  refine Pays.of_fresh htx ?_
  have hholds := h.holds
  cases g with
  | idle => trivial
  | drew r =>
      refine ⟨hholds.1, ?_, by simp [asked]⟩
      rw [World.commit_db]
      exact h.view_undebited hw
  | entering r n =>
      obtain ⟨hheld, -, t, ht, htype, href, rfl⟩ := hholds
      have hin : Write.insert Table.transaction t ∈ (w.tx i).writes := by
        rw [asked, hd, List.append_nil] at ht
        exact ht
      refine ⟨hheld, t.userId, ?_⟩
      rw [World.commit_db, ← htype, ← href]
      exact Db.mem_map_applyAll h.writes hin w.db
  | debited r n =>
      refine ⟨hholds.1, ?_⟩
      rw [World.commit_db]
      exact hholds.2.view h

/-- What one session commits is under numbers that no other holds. -/
theorem Pays.commit (hne : j ≠ i) (hw : w.WF) (hi : Pays g i w o) {g' : Errand}
    (hj : Pays g' j w o) : Pays g' j (w.commit i) o := by
  have hasked : asked (w.commit i) j = asked w j := by
    rw [asked, asked, World.commit_tx_of_ne w hne]
  have hnone : ∀ r : PaystackReference, o.drawer r.number = .held j → Undebited w.db r →
      Undebited (w.commit i).db r := by
    intro r hheld hnone t ht hr
    rw [World.commit_db] at ht
    obtain ⟨t₀, hv, h₀ | h₀⟩ := mem_view_transaction hw hi ht
    · exact hnone t₀ h₀ ((reference_of_voucher hv).trans hr)
    · exact (hi.taken t₀ r h₀ ((reference_of_voucher hv).trans hr)).not_held hne hheld
  refine ⟨?_, ?_, ?_⟩
  · rw [hasked]
    exact hj.vouchers
  · rw [hasked]
    exact hj.taken
  · have hholds := hj.holds
    cases g' with
    | idle => trivial
    | drew r =>
        refine ⟨hholds.1, hnone r hholds.1 hholds.2.1, ?_⟩
        rw [hasked]
        exact hholds.2.2
    | entering r n =>
        refine ⟨hholds.1, hnone r hholds.1 hholds.2.1, ?_⟩
        rw [hasked]
        exact hholds.2.2
    | debited r n =>
        refine ⟨hholds.1, ?_⟩
        rw [World.commit_db]
        exact hholds.2.view hi

theorem Numbered.view (h : Numbered w.db o) (hw : w.WF) (hp : Pays g i w o) :
    Numbered (w.view i) o := by
  intro t ht r hr
  obtain ⟨t₀, hv, h₀ | h₀⟩ := mem_view_transaction hw hp ht
  · exact h t₀ h₀ r ((reference_of_voucher hv).trans hr)
  · exact (hp.taken t₀ r h₀ ((reference_of_voucher hv).trans hr)).not_free

end Pays

/-- Withdrawals have numbers of their own: as a discipline. -/
def paying : dispatch.Discipline where
  Ghost := Errand
  rest _ := .idle
  lost := Errand.lost
  done := Errand.done
  Commits _ := True
  Minds g _ s := Sends s ∧ g ≠ .idle
  Good := Numbered
  Own := Pays
  guard := unrepeated
  own_congr := by
    intro g i o w w' hdb htx _ h
    refine h.of_asked hdb ?_ (.refl i o)
    rw [asked, asked, htx]
    exact fun _ => Iff.rfl
  own_remember := by
    intro g i o w k _ h
    refine h.of_asked rfl ?_ (.refl i o)
    simp [asked, World.remember]
  own_send := by
    intro g i o w d ds _ _ _ hd _ _ h
    refine h.of_asked (by simp) ?_ (.refl i o)
    simp [asked, hd]
  own_lost := by
    rintro g i o w w' - h hdb ⟨b, htx⟩
    exact h.lost hdb htx
  good_commit _ hw hgood _ _ h := hgood.view hw h
  own_done _ hw _ hd _ h := h.done hw hd
  own_commit hne _ hw _ _ _ hi hj := Pays.commit hne hw hi hj
  good_start _ h t ht r hr hfree := h t ht r hr (Payouts.free_start hfree)
  own_start _ hne h := h.later (Payouts.later_start hne)
  own_init _ _ htx := Pays.of_fresh (b := false) htx trivial
  good_look := by
    intro g i o w w' c X s x _ _ _ _ hgood _ t ht r hr hfree
    refine hgood t ht r hr ?_
    by_cases hs : Sends s
    · obtain ⟨r, k, hlook⟩ := Payouts.look_sends hs i _ x o
      rw [hlook] at hfree
      exact Payouts.free_send hfree
    · exact (Payouts.later_look hs i i x o).free _ hfree
  own_look := by
    intro g i o w w' c X s x hm _ _ _ _ h
    by_cases hs : Sends s
    · obtain rfl : g = .idle := by
        by_contra hg
        exact hm ⟨hs, hg⟩
      obtain ⟨r, k, hlook⟩ := Payouts.look_sends hs i _ x o
      rw [hlook]
      exact h.sent
    · exact h.later (Payouts.later_look hs i i x o)
  look_other := by
    intro g i j o w X w₀ s x hne h
    by_cases hs : Sends s
    · obtain ⟨r, k, hlook⟩ := Payouts.look_sends hs i _ x o
      rw [hlook]
      exact h.later (Payouts.later_send hne)
    · exact h.later (Payouts.later_look hs i j x o)
  good_crash _ h := h
  own_crash _ h := h

/-! ## What is kept -/

/-- Transfers are backed, and their numbers used up. -/
structure Spent (db : Db adehun) (o : Payouts) : Prop extends Covered db o where
  gone : ∀ s ∈ o.sent, o.drawer s.1.number = .gone

/-- A session that holds the number, and has committed the debit. -/
def MaySend (i : Nat) (db : Db adehun) (o : Payouts) : {X : Type} → Stmt adehun X → Prop
  | _, .await (.provider (.initiateTransfer n _ r _)) =>
      o.drawer r.number = .held i ∧ Debited db r n
  | _, _ => True

section Spent

variable {i : Nat} {db : Db adehun} {o o' : Payouts} {r : PaystackReference} {n : Kobo}

/-- Nothing is sent. -/
theorem Spent.later (h : Spent db o) (hsent : o'.sent = o.sent)
    (hgone : ∀ m, o.drawer m = .gone → o'.drawer m = .gone) : Spent db o' := by
  refine ⟨⟨?_, ?_⟩, ?_⟩
  · rw [hsent]
    exact h.once
  · rw [hsent]
    exact h.debited
  · rw [hsent]
    exact fun s hs => hgone _ (h.gone s hs)

theorem Spent.send (h : Spent db o) (hheld : o.drawer r.number = .held i)
    (hdebit : Debited db r n) : Spent db (o.send i r n) := by
  -- a number that is held is not one that has been used
  have hnew : r ∉ o.sent.map Prod.fst := by
    intro hr
    obtain ⟨s, hs, rfl⟩ := List.mem_map.mp hr
    have hgone := h.gone s hs
    rw [hheld] at hgone
    cases hgone
  refine ⟨⟨?_, ?_⟩, ?_⟩
  · show ((r, n) :: o.sent |>.map Prod.fst).Nodup
    exact List.nodup_cons.mpr ⟨hnew, h.once⟩
  · intro s hs
    rcases List.mem_cons.mp hs with rfl | hs
    · exact hdebit
    · exact h.debited s hs
  · intro s hs
    rcases List.mem_cons.mp hs with rfl | hs
    · exact Payouts.gone_send_self hheld
    · exact Payouts.gone_send (h.gone s hs)

theorem Payouts.sent_look {X : Type} {s : Stmt adehun X} (hs : ¬ Sends s) (i : Nat)
    (w : Sessions.World adehun) (x : X) (o : Payouts) : (dispatch.look i w s x o).sent = o.sent := by
  cases s with
  | await c =>
      cases c with
      | provider q =>
          cases q with
          | initiateTransfer => exact absurd rfl hs
          | _ => rfl
      | _ => rfl
  | _ => rfl

end Spent

/-- Transfers need a licence. -/
def sending : Observer.Licence paying where
  Needs := Sends
  Licensed i s db o := MaySend i db o s
  Kept := Spent
  guard := unrepeated
  guard_exec _ _ h := h
  guard_flush h := h
  kept_start _ h := h.later rfl fun _ => Payouts.gone_start
  kept_crash _ h := h
  kept_look := by
    intro db o i X s x _ _ hl h
    by_cases hs : Sends s
    · have hmay := hl hs
      cases s with
      | await c =>
          cases c with
          | provider q =>
              cases q with
              | initiateTransfer n code r reason => exact h.send hmay.1 hmay.2
              | _ => cases hs
          | _ => exact hs.elim
      | _ => exact hs.elim
    · exact h.later (Payouts.sent_look hs i _ x o) (Payouts.later_look hs i i x o).gone
  kept_commit := by
    intro g i o w c _ _ _ _ _ hp h
    exact { h with debited := fun s hs => (h.debited s hs).view hp }

end Adehun
