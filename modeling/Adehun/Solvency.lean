import Adehun.Returns
import Adehun.TransactionHistory
import Mathlib.Tactic.Linarith

/-!
# The wallets hold no more than was paid in

Money enters the books by deposits and by credits that are made by hand; it
leaves them by withdrawals, and comes back by reversals. A reversal that is
written twice, or for more than was taken, would be money from nowhere. As
every reversal returns a debit of its own, all of them together come to no
more than all debits do, and what the wallets have is covered by what was
paid in.
-/

namespace Adehun

open Sessions

/-! ## What entries are worth -/

/-- The amounts of the entries of some types. -/
def worth (types : List LedgerEntryType) (ts : List Transaction) : Kobo :=
  ((ts.filter (·.type ∈ types)).map Transaction.amount).sum

/-- What users paid in, and what they were credited by hand. -/
def paidIn (db : Db adehun) : Kobo := worth [.deposit, .adjustmentCredit] (db .transaction)

theorem worth_cons (types : List LedgerEntryType) (t : Transaction) (ts : List Transaction) :
    worth types (t :: ts) = (if t.type ∈ types then t.amount else 0) + worth types ts := by
  by_cases ht : t.type ∈ types <;> simp [worth, ht]

/-- What came in is what was paid in and returned, less what was taken. -/
theorem external_le {ts : List Transaction} (h : ∀ t ∈ ts, 0 ≤ t.amount) :
    (ts.map Transaction.external).sum ≤ worth [.deposit, .adjustmentCredit] ts +
      worth [.withdrawalReversal] ts - worth [.withdrawal] ts := by
  induction ts with
  | nil => simp [worth]
  | cons t ts ih =>
      have hrest := ih fun s hs => h s (List.mem_cons_of_mem _ hs)
      have hpos := h t List.mem_cons_self
      rw [List.map_cons, List.sum_cons, worth_cons, worth_cons, worth_cons]
      cases htype : t.type <;> simp [Transaction.external, htype] <;> linarith

/-! ## What was returned -/

/-- Two entries under one reference are the same. -/
theorem entry_eq {db : Db adehun} (hk : db.KeysDistinct) (he : db.EntriesDistinct)
    {t t' : Transaction} (ht : t ∈ (db .transaction : List Transaction))
    (ht' : t' ∈ (db .transaction : List Transaction)) (href : t.reference = t'.reference) :
    t = t' := by
  refine he.eq hk ht ht' (e := .transactionReference t.reference) List.mem_cons_self ?_
  rw [href]
  exact List.mem_cons_self

/-- The reference of what an entry returns. -/
def Reference.debited : Reference → Reference
  | .reversal r => .withdrawal r
  | r => r

/-- What was taken, by reference. -/
def withdrawn (db : Db adehun) : List (Reference × Kobo) :=
  ((db .transaction : List Transaction).filter (·.type ∈ [.withdrawal])).map
    fun t => (t.reference, t.amount)

/-- What was returned, by the reference it was taken under. -/
def returned (db : Db adehun) : List (Reference × Kobo) :=
  ((db .transaction : List Transaction).filter (·.type ∈ [.withdrawalReversal])).map
    fun t => (t.reference.debited, t.amount)

theorem sum_withdrawn (db : Db adehun) :
    ((withdrawn db).map Prod.snd).sum = worth [.withdrawal] (db .transaction) := by
  simp only [worth, withdrawn, List.map_map, Function.comp_def]

theorem sum_returned (db : Db adehun) :
    ((returned db).map Prod.snd).sum = worth [.withdrawalReversal] (db .transaction) := by
  simp only [worth, returned, List.map_map, Function.comp_def]

section Reversals

variable {db : Db adehun}

theorem mem_reversals {t : Transaction} :
    t ∈ (db .transaction : List Transaction).filter (·.type ∈ [.withdrawalReversal]) ↔
      t ∈ (db .transaction : List Transaction) ∧ t.type = .withdrawalReversal := by
  simp

/-- Nothing is returned twice. -/
theorem returned_nodup (hk : db.KeysDistinct) (he : db.EntriesDistinct)
    (hreturned : ∀ t ∈ (db .transaction : List Transaction), t.type = .withdrawalReversal →
      Returned db t) : (returned db).Nodup := by
  refine List.Nodup.map_on ?_ ((List.Nodup.of_map _ (hk .transaction)).filter _)
  intro t ht t' ht' hsame
  obtain ⟨ht, htype⟩ := mem_reversals.mp ht
  obtain ⟨ht', htype'⟩ := mem_reversals.mp ht'
  obtain ⟨r, hr, -⟩ := hreturned t ht htype
  obtain ⟨r', hr', -⟩ := hreturned t' ht' htype'
  simp only [hr, hr', Reference.debited, Prod.mk.injEq, Reference.withdrawal.injEq] at hsame
  exact entry_eq hk he ht ht' (by rw [hr, hr', hsame.1])

/-- Whatever is returned was taken. -/
theorem returned_subset (hreturned : ∀ t ∈ (db .transaction : List Transaction),
    t.type = .withdrawalReversal → Returned db t) : returned db ⊆ withdrawn db := by
  intro x hx
  obtain ⟨t, ht, rfl⟩ := List.mem_map.mp hx
  obtain ⟨ht, htype⟩ := mem_reversals.mp ht
  obtain ⟨r, hr, howed⟩ := hreturned t ht htype
  obtain ⟨t₀, ht₀, hv⟩ := List.mem_map.mp howed
  simp only [Transaction.voucher, Bill.debit, Prod.mk.injEq] at hv
  obtain ⟨htype₀, href, -, hamount⟩ := hv
  refine List.mem_map.mpr ⟨t₀, by simpa using ⟨ht₀, htype₀⟩, ?_⟩
  rw [href, hamount, hr]
  rfl

/-- Reversals that return what was taken come to no more than was taken. -/
theorem worth_reversals_le (hk : db.KeysDistinct) (he : db.EntriesDistinct)
    (hpos : ∀ t ∈ (db .transaction : List Transaction), 0 ≤ t.amount)
    (hreturned : ∀ t ∈ (db .transaction : List Transaction), t.type = .withdrawalReversal →
      Returned db t) :
    worth [.withdrawalReversal] (db .transaction) ≤ worth [.withdrawal] (db .transaction) := by
  obtain ⟨l, hperm, hsublist⟩ :=
    List.subperm_of_subset (returned_nodup hk he hreturned) (returned_subset hreturned)
  rw [← sum_returned, ← sum_withdrawn, ← (hperm.map Prod.snd).sum_eq]
  refine (hsublist.map _).sum_le_sum ?_
  intro n hn
  obtain ⟨x, hx, rfl⟩ := List.mem_map.mp hn
  obtain ⟨t, ht, rfl⟩ := List.mem_map.mp hx
  exact hpos t (List.mem_of_mem_filter ht)

theorem inflow_le_paidIn (hk : db.KeysDistinct) (he : db.EntriesDistinct)
    (hpos : ∀ t ∈ (db .transaction : List Transaction), 0 ≤ t.amount)
    (hreturned : ∀ t ∈ (db .transaction : List Transaction), t.type = .withdrawalReversal →
      Returned db t) : inflow db ≤ paidIn db := by
  have hle := external_le hpos
  have hreversals := worth_reversals_le hk he hpos hreturned
  rw [inflow, paidIn]
  linarith

end Reversals

/-! ## Whole runs -/

/-- In every run in which no wallet is locked whose object is out of date, no
number is drawn twice, and the provider does not say of a transfer that nobody
was debited for that it failed, what the wallets have was paid in. -/
theorem solvent_run {settings : Settings} {db : Db adehun} {shared : Shared}
    (hk : db.KeysDistinct) (he : db.EntriesDistinct) (hb : LedgerBalances db)
    (href : Referenced db) (hs : AllShaped db) (hr : Recorded db)
    (hreturned : ∀ t ∈ (db .transaction : List Transaction), t.type = .withdrawalReversal →
      Returned db t)
    (hcovered : custody db ≤ inflow db) {ls : List (Label adehun Request)}
    {C : Conf adehun Response}
    (hlocks : Conf.RunMeets currentLocks (handler settings)
      ({ world := { db, shared } } : Conf adehun Response) ls)
    (hg : registry.RunMeets sincere (handler settings) { world := { db, shared } }
      (.opening db) ls)
    (hrun : Conf.run (handler settings) { world := { db, shared } } ls = some C) :
    custody C.world.db ≤ paidIn C.world.db := by
  have hshaped : AllShaped C.world.db :=
    Conf.RunSteps.rel (P := fun C C' => AllShaped C.world.db → AllShaped C'.world.db)
      (fun _ h => h) (fun h h' hs => h' (h hs))
      ((entersOne_of hk he ls).mono fun _ _ h => h.allShaped) hrun hs
  obtain ⟨o, hseen⟩ := Observer.exists_run hrun (O := registry) (.opening db)
  obtain ⟨hwf, hbilled⟩ : C.world.WF ∧ Billed (fun _ => False) C.world.db o :=
    (always_billed (P := fun C o => C.world.WF ∧ Billed (fun _ => False) C.world.db o) hk he
      (billed_opening hk he hr fun t ht htype => Or.inr (hreturned t ht htype))
      (fun _ _ hwf hb => ⟨hwf, hb⟩) hg).last hseen
  have hpaid : inflow C.world.db ≤ paidIn C.world.db :=
    inflow_le_paidIn hwf.keys hwf.entries (fun t ht => (hshaped t ht).amount_pos.le)
      fun t ht htype => (hbilled.returned t ht htype).resolve_left id
  have hsteps := (refinesVault_of (followed_of hk hb href) he hlocks).mono
    fun _ _ h => custody_of_refinesVault h.1.keys h.2.1.keys h.2.2
  have hsame : custody C.world.db - inflow C.world.db = custody db - inflow db :=
    Conf.RunSteps.eq_of_run (f := fun C => custody C.world.db - inflow C.world.db) hsteps hrun
  calc custody C.world.db = custody db - inflow db + inflow C.world.db := by rw [← hsame]; abel
    _ ≤ inflow C.world.db := by linarith
    _ ≤ paidIn C.world.db := hpaid

theorem OneDay.db_returned : ∀ t ∈ (OneDay.db .transaction : List Transaction),
    t.type = .withdrawalReversal → Returned OneDay.db t := by
  intro t ht htype
  obtain rfl := List.mem_singleton.mp ht
  cases htype

/-- Of 305.00 paid in, 100.00 are on their way out. -/
theorem solvent_run_oneDay :
    paidIn OneDay.evening.2.world.db = 30500 ∧ custody OneDay.evening.2.world.db = 20500 ∧
    custody OneDay.evening.2.world.db ≤ paidIn OneDay.evening.2.world.db :=
  ⟨by decide +kernel, by decide +kernel, solvent_run OneDay.db_keysDistinct
    OneDay.db_entriesDistinct (by decide) (by decide) OneDay.db_allShaped OneDay.db_recorded
    OneDay.db_returned (by decide) OneDay.currentLocks_labels OneDay.sincere_labels
    OneDay.run_labels⟩

end Adehun
