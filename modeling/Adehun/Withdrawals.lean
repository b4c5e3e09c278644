import Adehun.Payouts

/-!
# Withdrawals, from the draw to the transfer

`requestWithdrawal` is the only request that sends money. It is followed here
from the draw of its reference over the debit to the transfer; the other
requests make no entry under the reference of a withdrawal, and send nothing.
-/

namespace Adehun

open Sessions
open Observer (Triple)
open Observer.Discipline
open Observer.Licence (triple_plain triple_licensed)

section Requests

variable {i : Nat} {g : Errand} {R : Sessions.World adehun → Payouts → Prop}

theorem floor_paying : paying.Floor Errand.idle where
  lost := rfl
  done := rfl
  commits := trivial
  minds _ h := h.2 rfl
  below _ _ _ _ := Pays.below

/-- How far a session is, it is as long as it only reads. -/
theorem reading_paying_of (hR : ∀ w o, Pays g i w o ∨ Pays g.lost i w o → R w o) :
    Reading fun _ p => Triple sending.logic i (Pays g i) p (fun _ => Pays g i) R :=
  reading_licensed hR (fun _ hs h => not_sends_of_usual hs h.1) fun _ => not_sends_of_usual

variable (i) in
theorem reading_paying (g : Errand) : Reading fun _ p =>
    Triple sending.logic i (Pays g i) p (fun _ => Pays g i) (Pays .idle i) :=
  reading_paying_of floor_paying.either

/-! ### What is routine -/

theorem pays_stage_of_ne {w : Sessions.World adehun} {o : Payouts} {d : Write adehun}
    (hd : d.key.table ≠ .transaction) (h : Pays g i w o) : Pays g i (w.stage i d) o := by
  refine h.stage (Write.retains_of_ne hd) ?_
  rintro t rfl
  exact absurd rfl hd

theorem routine_paying : Routine fun _ p => sending.Keeps Errand.idle p :=
  routine_licensed floor_paying.toStill (fun _ => not_sends_of_usual)
    (fun _ hd _ _ _ _ _ h => pays_stage_of_ne (ne_of_side hd rfl) h)
    fun _ hd _ _ _ _ _ h _ _ => h.put (ne_of_side hd rfl)

theorem paying_stage {d : Write adehun} (hd : d.key.table ≠ .transaction) :
    Triple sending.logic i (Pays g i) (.perform (.stage d)) (fun _ => Pays g i) R :=
  triple_plain id (triple_stage fun _ _ _ _ h => pays_stage_of_ne hd h)

theorem paying_add {t : Table} (r : t.Row) (ht : t ≠ .transaction) :
    Triple sending.logic i (Pays g i) (add t r) (fun _ => Pays g i) R :=
  paying_stage ht

theorem paying_assign {t : Table} (id : Id) (f : Patch adehun t) (ht : t ≠ .transaction) :
    Triple sending.logic i (Pays g i) (assign t id f) (fun _ => Pays g i) R :=
  paying_stage ht

theorem paying_commit : Triple sending.logic i (Pays g i) commit (fun _ => Pays g.done i)
    (fun w o => Pays g i w o ∨ Pays g.lost i w o) :=
  triple_plain id (triple_commit (fun _ _ h => h) trivial)

theorem paying_rollback :
    Triple sending.logic i (Pays g i) rollback (fun _ => Pays g.lost i) R :=
  triple_plain id triple_rollback

/-- An errand that a commit does not advance. -/
theorem paying_commit_still (hlost : g.lost = g) (hdone : g.done = g) :
    Triple sending.logic i (Pays g i) commit (fun _ => Pays g i) (Pays .idle i) := by
  refine paying_commit.conseq (fun _ _ h => h) ?_ ?_
  · intro _ w o h
    rwa [hdone] at h
  · intro w o h
    rw [hlost] at h
    exact Pays.below (h.elim id id)

theorem paying_ensureWallet (hlost : g.lost = g) (hdone : g.done = g) (u : Id) :
    Triple sending.logic i (Pays g i) (ensureWallet u) (fun _ => Pays g i) (Pays .idle i) := by
  refine (reading_paying i g).ensureWallet (fun x u => ?_) (paying_commit_still hlost hdone) u
  refine triple_plain id (triple_upsert floor_paying.either ?_)
  intro db d hd j w o _ _ h _ _
  dsimp only at hd
  split at hd
  · cases hd
  · obtain rfl := List.mem_singleton.mp hd
    exact Pays.put h (by simp [Write.key])

/-- A cache that is out of reach takes no errand back. -/
theorem paying_cacheDelete (hlost : g.lost = g) (ks : List CacheKey) :
    Triple sending.logic i (Pays g i) (cacheDelete ks) (fun _ => Pays g i) (Pays .idle i) := by
  have h : Reading fun _ p =>
      Triple sending.logic i (Pays g i) p (fun _ => Pays g i) (Pays g i) := by
    refine reading_paying_of fun w o h => ?_
    rw [hlost] at h
    exact h.elim id id
  have hdelete : Triple sending.logic i (Pays g i) (cacheDelete ks) (fun _ => Pays g i)
      (Pays g i) :=
    Triple.compositional.tryCatch (h.reads _ trivial (Command.delete ks)) fun _ => h.ret ()
  exact hdelete.conseq (fun _ _ h => h) (fun _ _ _ h => h) fun _ _ => Pays.below

/-! ### The movements that are no withdrawals -/

theorem paying_entry {e : Transaction} (he : ∀ r, e.reference ≠ .withdrawal r) :
    sending.Keeps Errand.idle (add .transaction e) := fun _ => by
  refine triple_plain id (triple_stage fun w o _ _ h => Pays.stage h trivial ?_)
  intro t ht
  cases ht
  exact he

theorem paying_otherEntry {a : EntryArgs} (ha : ∀ r, a.reference ≠ .withdrawal r) :
    sending.Keeps Errand.idle (applyEntry a) := by
  have h := routine_paying
  refine h.applyEntry (fun u _ => paying_ensureWallet rfl rfl u) (h.lockedEntry ?_ ?_)
  · exact fun _ _ _ _ => paying_assign _ _ (by decide)
  · intro e he
    refine paying_entry ?_
    rw [he]
    exact ha

theorem paying_applyTransfer (gr : GroupId) (d c : LedgerLeg) :
    sending.Keeps Errand.idle (applyTransfer gr d c) := by
  have h := routine_paying
  refine h.applyTransfer (fun u _ => paying_ensureWallet rfl rfl u) (h.lockedTransfer ?_ ?_)
  · exact fun _ _ _ _ => paying_assign _ _ (by decide)
  · intro e he
    refine paying_entry ?_
    rcases he with he | he <;> rw [he] <;> exact fun _ => Reference.noConfusion

theorem paying_escrowSide : EscrowSide fun _ p => sending.Keeps Errand.idle p := by
  refine routine_paying.escrowSide_of_entries ?_ ?_ ?_ fun _ _ _ _ _ => paying_applyTransfer _ _ _
  · exact fun _ _ ht _ _ => paying_add _ ht
  · exact fun _ _ _ ht _ _ => paying_assign _ _ ht
  · rintro a (⟨-, x, hx⟩ | ⟨-, x, hx⟩) <;>
      exact paying_otherEntry fun r hr => Reference.noConfusion (hx.symm.trans hr)

theorem paying_records : ProviderRecords fun _ p => sending.Keeps Errand.idle p where
  newIntent p _ := paying_add p (by decide)
  outcome id f _ _ := paying_assign id f (by decide)
  entryStatus _ s t _ := triple_plain id (triple_stage fun w o _ _ h =>
    Pays.stage h (fun _ _ => rfl) fun t ht => by cases ht)
  charge data := routine_paying.handleChargeSuccess (fun id f _ _ => paying_assign id f (by decide))
    (fun a r _ hr => paying_otherEntry fun r' hr' => by
      rw [hr] at hr'
      cases hr') data
  reversal a r _ hr := paying_otherEntry fun r' hr' => by
    rw [hr] at hr'
    cases hr'

/-! ### The withdrawal -/

/-- A new number is nobody else's, and no entry has it. -/
theorem paying_generateWithdrawalReference (u : Id) :
    Triple sending.logic i (Pays .idle i) (generateWithdrawalReference u)
      (fun r => Pays (.drew r) i) (Pays .idle i) := by
  refine Triple.bind (Q := fun n => Pays (.drew (.withdrawal u n)) i)
    (triple_plain id (triple_see floor_paying.either trivial ?_)) fun n =>
      Triple.ret fun _ _ h => h
  intro w o c n w₂ _ hgood h he hguard _
  cases he
  have hfree : o.drawer c.value = .free := hguard
  refine { Pays.later h (Payouts.later_draw i i c.value o) with holds := ⟨?_, ?_, ?_⟩ }
  · show (o.draw i c.value).drawer c.value = .held i
    simp [Payouts.draw, hfree]
  · intro t ht hr
    exact hgood t ht _ hr hfree
  · intro t ht hr
    exact (Pays.taken h t _ ht hr).not_free hfree

/-- Under a number that is the session's alone there is no entry. -/
theorem paying_getEntryByReference (r : PaystackReference) :
    Triple sending.logic i (Pays (.drew r) i) (getEntryByReference (.withdrawal r))
      (Looked (fun _ _ _ => False) (Pays (.drew r) i)) (Pays .idle i) := by
  refine triple_loadFirst (triple_plain id (triple_firstRow (g := Errand.drew r)
    (t := Table.transaction) floor_paying.either (fun _ h => h.1) (fun _ _ _ _ => rfl) ?_))
  intro w o w₂ alive t row hw _ h _ _ _ ht hr _ _
  exact Pays.view_undebited h hw t ht (by simpa using hr)

theorem paying_debit {e : Transaction} {r : PaystackReference} (htype : e.type = .withdrawal)
    (href : e.reference = .withdrawal r) :
    Triple sending.logic i (Pays (.drew r) i) (add .transaction e)
      (fun _ => Pays (.entering r e.amount) i) R :=
  triple_plain id (triple_stage fun _ _ _ _ h => Pays.enter h htype href)

/-- The debit is staged with the balances. -/
theorem paying_applyLedgerEntry {a : EntryArgs} {r : PaystackReference} (x : Id)
    (htype : a.entryType = .withdrawal) (href : a.reference = .withdrawal r)
    (hR : ∀ w o, Pays (.drew r) i w o → R w o) :
    Triple sending.logic i (Pays (.drew r) i) (applyLedgerEntry x a)
      (fun _ => Pays (.entering r a.amount) i) R := by
  refine triple_applyLedgerEntry (reading_paying_of fun w o h => hR w o (h.elim id id)) ?_ ?_
  · exact fun _ _ _ => paying_assign _ _ (by decide)
  · intro e he
    rw [← he.amount]
    exact paying_debit (he.type.trans htype) (he.reference.trans href)

/-- What a failed debit leaves: nothing, or a debit that is not committed. -/
def Unpaid (i : Nat) (r : PaystackReference) (n : Kobo) (w : Sessions.World adehun)
    (o : Payouts) : Prop :=
  Pays (.drew r) i w o ∨ Pays (.entering r n) i w o

/-- `applyEntry` of a withdrawal ends with the debit in the ledger. -/
theorem paying_applyEntry {a : EntryArgs} {r : PaystackReference}
    (htype : a.entryType = .withdrawal) (href : a.reference = .withdrawal r) :
    Triple sending.logic i (Pays (.drew r) i) (applyEntry a)
      (fun _ => Pays (.debited r a.amount) i) (Pays .idle i) := by
  have h := reading_paying i (.drew r)
  have hd := reading_paying i (.debited r a.amount)
  have hlook := paying_getEntryByReference (i := i) r
  rw [← href] at hlook
  refine triple_applyEntry (F := fun _ _ _ => False) (T := Pays (.drew r) i)
    (S := Unpaid i r a.amount) (V := fun _ => Pays (.drew r) i)
    (N := fun _ => Pays (.debited r a.amount) i) hlook ?_ ?_ ?_ ?_ hlook
    (fun _ _ => Pays.below) ?_
  · exact fun _ _ _ hfalse => hfalse.elim
  · exact h.resolveWalletId (paying_ensureWallet rfl rfl) _
  · intro x
    have hr : Reading fun _ p => Triple sending.logic i (Pays (.drew r) i) p
        (fun _ => Pays (.drew r) i) (Unpaid i r a.amount) :=
      reading_paying_of fun _ _ h => Or.inl (h.elim id id)
    refine (hr.lockWallet x).bind fun wallet => ?_
    refine (paying_applyLedgerEntry _ htype href fun _ _ => Or.inl).bind fun entry => ?_
    refine Triple.bind (paying_commit.conseq (fun _ _ h => h) (fun _ _ _ h => h) ?_) fun _ =>
      Triple.ret fun _ _ h => h
    exact fun _ _ h => h.elim Or.inr Or.inl
  · rintro w o (h | h)
    · exact paying_rollback w o h
    · exact paying_rollback w o h
  · intro ids
    refine (hd.refresh .transaction _).bind fun entry =>
      (hd.refresh .wallet _).bind fun wallet => ?_
    exact Triple.bind (paying_cacheDelete rfl _) fun _ => hd.ret _

/-- The transfer, which the session may send. -/
theorem paying_initiateTransfer (n : Kobo) (code : String) (r : PaystackReference)
    (reason : String) :
    Triple sending.logic i (Pays (.debited r n) i) (initiateTransfer n code r reason)
      (fun _ => Pays .idle i) (Pays .idle i) := by
  refine Triple.bind (triple_licensed (triple_see floor_paying.either trivial ?_) ?_) fun t =>
    (reading_paying i .idle).ofExcept _
  · intro w o c t w₂ _ _ _ _ _ h
    exact Pays.sent h
  · intro w o _ h _
    exact Pays.holds h

theorem paying_requestWithdrawal (s : Settings) (u : Id) (p : WithdrawalCreate) :
    sending.Keeps Errand.idle (requestWithdrawal s u p) := by
  refine triple_requestWithdrawal (L := sending.logic) (P := fun i => Pays .idle i)
    (U := fun r i => Pays (.drew r) i) (V := fun r i => Pays (.drew r) i)
    (E := fun r i => Pays (.debited r p.amount) i) (T := fun _ i => Pays .idle i) s
    (fun i => reading_paying i .idle) (fun i => paying_generateWithdrawalReference u)
    (fun r i => reading_paying i (.drew r)) ?_ ?_ (fun r i => reading_paying i (.debited r p.amount))
    (fun r code reason i => paying_initiateTransfer _ _ _ _)
    (fun _ => routine_paying.toPlain) (fun _ _ _ _ _ => paying_assign _ _ (by decide))
    (fun r reason => routine_paying.reverseWithdrawal paying_records _ _ _ _)
    (fun _ _ _ _ h => h)
  · intro r row _ i
    refine Triple.bind (paying_add _ (by decide)) fun _ => ?_
    exact (reading_paying i (.drew r)).flush.bind fun _ =>
      (reading_paying i (.drew r)).attributes .paystackTransaction _
  · intro r a htype href _ hamount i
    rw [← hamount]
    exact paying_applyEntry htype href

/-! ### All requests -/

theorem paying_handler (settings : Settings) (r : Request) :
    sending.Keeps Errand.idle (handler settings r) := by
  have h := routine_paying
  exact h.handler paying_escrowSide
    (h.requests_of_records paying_records paying_requestWithdrawal
      fun u _ => paying_ensureWallet rfl rfl u) settings r

end Requests

/-! ## Whole runs -/

/-- Nothing is sent, and no number drawn but those of the withdrawals there
are. -/
def Payouts.opening (db : Db adehun) : Payouts where
  drawer n :=
    if (db .transaction : List Transaction).any fun t =>
        match t.reference with
        | .withdrawal r => r.number = n
        | _ => false
      then .gone else .free

theorem numbered_opening (db : Db adehun) : Numbered db (.opening db) := by
  intro t ht r hr
  have hany : (db .transaction : List Transaction).any (fun t =>
      match t.reference with
      | .withdrawal r' => r'.number = r.number
      | _ => false) = true := by
    refine List.any_eq_true.mpr ⟨t, ht, ?_⟩
    rw [hr]
    simp
  simp only [Payouts.opening, hany, if_true]
  decide

/-- In every run whose generator does not repeat itself, no transfer is sent
twice, and each has its debit in the ledger, in the amount that is sent. -/
theorem covered_run {settings : Settings} {db : Db adehun} {shared : Shared}
    (hk : db.KeysDistinct) (he : db.EntriesDistinct) {ls : List (Label adehun Request)}
    (hg : dispatch.RunMeets unrepeated (handler settings) { world := { db, shared } }
      (.opening db) ls) :
    dispatch.Always (fun C o => Covered C.world.db o) (handler settings)
      { world := { db, shared } } (.opening db) ls := by
  refine Observer.Licence.always_run (L := sending) (paying_handler settings)
    (fun _ _ _ _ h => h.toCovered) ⟨⟨World.wf_init hk he, numbered_opening db⟩, ?_⟩
    (fun i => ⟨rfl, fun l hl => by cases hl⟩) hg
  refine ⟨⟨List.nodup_nil, ?_⟩, ?_⟩ <;> intro s hs <;> cases hs

namespace OneDay

theorem unrepeated_labels :
    dispatch.RunMeets unrepeated (handler settings) start (.opening db) labels :=
  Observer.runMeets_of_test unrepeated.test (by decide +kernel)

end OneDay

/-- Two transfers are sent, the first of them refused. -/
theorem covered_run_oneDay :
    (dispatch.run (handler OneDay.settings) OneDay.start (.opening OneDay.db) OneDay.labels).map
        (fun x => x.2.sent) =
      some [(.withdrawal 1 7010, 10000), (.withdrawal 1 3010, 15000)] ∧
    dispatch.Always (fun C o => Covered C.world.db o) (handler OneDay.settings) OneDay.start
      (.opening OneDay.db) OneDay.labels :=
  ⟨by decide +kernel, covered_run OneDay.db_keysDistinct OneDay.db_entriesDistinct
    OneDay.unrepeated_labels⟩

end Adehun
