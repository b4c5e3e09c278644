import Adehun.Routine.Aside
import Adehun.Sessions.Alone
import Adehun.Sessions.Licence

/-!
# Requests that know where they are

The functions of the wallet repository and of the provider's client, for a
request that is followed from one predicate to the next: what a look at the
ledger tells, what a movement of money needs and leaves, and what is known
once the provider has answered.
-/

namespace Adehun

open Sessions
open Observer (Triple)

/-- Whom a record of the provider is for, under which reference and what of. -/
abbrev Bill : Type := PaystackReference × Id × Kobo

def PaystackTransaction.bill (p : PaystackTransaction) : Bill := (p.reference, p.userId, p.amount)

variable {Req : Type} {O : Observer adehun Req} {L : O.Logic} {i : Nat}

/-- What a session holds that a usual statement does not mind is held while it
reads. -/
theorem reading_triple {D : O.Discipline} {g : D.Ghost}
    {R : Sessions.World adehun → O.State → Prop}
    (hR : ∀ w o, D.Own g i w o ∨ D.Own (D.lost g) i w o → R w o)
    (hm : ∀ {X : Type} (s : Stmt adehun X), Usual s → ¬ D.Minds g s) :
    Reading fun _ p => Triple D.logic i (D.Own g i) p (fun _ => D.Own g i) R where
  toSequential := Triple.sequential fun w o h => hR w o (Or.inl h)
  reads s hq hu := Observer.Discipline.triple_quiet hR hq (hm s hu)

section Licence

variable {D : O.Discipline} {L : Observer.Licence D} {g : D.Ghost}

/-- The same where some statements need a licence, but usual ones do not. -/
theorem reading_licensed {R : Sessions.World adehun → O.State → Prop}
    (hR : ∀ w o, D.Own g i w o ∨ D.Own (D.lost g) i w o → R w o)
    (hm : ∀ {X : Type} (s : Stmt adehun X), Usual s → ¬ D.Minds g s)
    (hn : ∀ {X : Type} (s : Stmt adehun X), Usual s → ¬ L.Needs s) :
    Reading fun _ p => Triple L.logic i (D.Own g i) p (fun _ => D.Own g i) R where
  toSequential := Triple.sequential fun w o h => hR w o (Or.inl h)
  reads s hq hu := Observer.Licence.triple_plain (hn s hu)
    (Observer.Discipline.triple_quiet hR hq (hm s hu))

/-- What is routine without licences is routine with them. -/
theorem routine_licensed (hg : D.Still g)
    (hn : ∀ {X : Type} (s : Stmt adehun X), Usual s → ¬ L.Needs s)
    (hstages : ∀ d, Side d → ∀ i w o, w.WF → D.Good w.db o → D.Own g i w o →
      D.Own g i (w.stage i d) o)
    (hputs : ∀ d, Side d → ∀ i w o, w.WF → D.Good w.db o → D.Own g i w o →
      w.free i (d.locks (w.view i)) = true → d.refusal (w.view i) = none →
      D.Own g i (w.put i d) o) : Routine fun _ p => L.Keeps g p := by
  have hR : ∀ i w o, D.Own g i w o ∨ D.Own (D.lost g) i w o → D.Own g i w o := by
    intro i w o h
    rw [hg.lost] at h
    exact h.elim id id
  refine { Observer.Licence.keeps_compositional with
    reads := ?_, commit := ?_, rollback := ?_, stages := ?_, books := ?_, upserts := ?_ }
  · intro X s hq hu i
    exact (reading_licensed (hR i) (fun s _ => hg.minds s) hn).reads s hq hu
  · intro i
    have h := Observer.Discipline.triple_commit (hR i) hg.commits
    rw [hg.done] at h
    exact Observer.Licence.triple_plain (hn _ trivial) h
  · intro i
    have h := Observer.Discipline.triple_rollback (D := D) (g := g) (i := i) (R := D.Own g i)
    rw [hg.lost] at h
    exact Observer.Licence.triple_plain (hn _ trivial) h
  · intro d hd _ i
    exact Observer.Licence.triple_plain (hn _ trivial)
      (Observer.Discipline.triple_stage (hstages d hd i))
  · intro d hd i
    exact Observer.Licence.triple_plain (hn _ trivial)
      (Observer.Discipline.triple_stage (hstages d hd i))
  · intro X waits f hf i
    exact Observer.Licence.triple_plain (hn _ trivial)
      (Observer.Discipline.triple_upsert (hR i) fun db d hd => hputs d (hf db d hd))

end Licence

/-- What there is when something has been looked up. -/
def Looked {α : Type} (F : α → Sessions.World adehun → O.State → Prop)
    (P : Sessions.World adehun → O.State → Prop) :
    Option α → Sessions.World adehun → O.State → Prop
  | some a => F a
  | none => P

/-- The first row of a query, by the row in sight that it is the object of. -/
theorem triple_firstRow {D : O.Discipline} {g : D.Ghost}
    {R : Sessions.World adehun → O.State → Prop}
    (hR : ∀ w o, D.Own g i w o ∨ D.Own (D.lost g) i w o → R w o) {t : Table}
    {p : t.Row → Bool} {F : t.Row → Sessions.World adehun → O.State → Prop}
    (hm : ∀ q, ¬ D.Minds g (Stmt.load (M := adehun) t q))
    (hsee : ∀ w q rows o, O.look i w (Stmt.load (M := adehun) t q) rows o = o)
    (h : ∀ w o w₂ alive r row, w.WF → D.Good w.db o → D.Own g i w o → (w.tx i).dirty = [] →
      w₂.db = w.db → asked w₂ i = asked w i → r ∈ (w.view i t : List t.Row) → p r = true →
      w.answer i alive ⟨t, rowId r⟩ = some row → D.Own g i w₂ o → F row w₂ o) :
    Triple D.logic i (D.Own g i)
      (.perform (Stmt.load (M := adehun) t fun db => (((db t).filter p).map rowId).take 1))
      (fun rows => Looked F (D.Own g i) rows.head?) R := by
  refine Observer.Discipline.triple_query hR trivial (hm _) ?_
  intro w o c rows w₂ hw hgood ho he h₂
  rw [hsee] at h₂ ⊢
  rcases World.sql_cases he with ⟨e, he', -⟩ | ⟨-, hd, hb⟩
  · cases he'
  · simp only [Option.some.injEq, Prod.mk.injEq, Except.ok.injEq] at hb
    obtain ⟨hrows, hw₂⟩ := hb
    cases hhead : rows.head? with
    | none => exact h₂
    | some row =>
        have hrow : row ∈ rows := List.mem_of_mem_head? hhead
        rw [← hrows, List.mem_filterMap] at hrow
        obtain ⟨id, hid, hanswer⟩ := hrow
        obtain ⟨r, hr, rfl⟩ := List.mem_map.mp (List.mem_of_mem_take hid)
        obtain ⟨hr, hpr⟩ := List.mem_filter.mp hr
        obtain ⟨hwrites, hdirty, -, -⟩ := World.rememberAll_tx w i c.alive
          (((((w.view i t).filter p).map rowId).take 1).map (Key.mk t))
        rw [hw₂] at hwrites hdirty
        refine h w o w₂ c.alive r row hw hgood ho (hd rfl) ?_ ?_ hr hpr hanswer h₂
        · rw [← hw₂]
          exact (World.rememberAll_fields w i _ _).1
        · rw [asked, asked, hwrites, hdirty]

theorem triple_loadFirst {t : Table} {p : t.Row → Bool}
    {P R : Sessions.World adehun → O.State → Prop}
    {F : t.Row → Sessions.World adehun → O.State → Prop}
    (h : Triple L i P
      (.perform (Stmt.load (M := adehun) t fun db => (((db t).filter p).map rowId).take 1))
      (fun rows => Looked F P rows.head?) R) : Triple L i P (loadFirst t p) (Looked F P) R :=
  h.bind fun _ => Triple.ret fun _ _ h => h

section Entry

variable {R P S T : Sessions.World adehun → O.State → Prop}
  {F : Transaction → Sessions.World adehun → O.State → Prop}
  {V : Id → Sessions.World adehun → O.State → Prop}
  {N : Id × Id → Sessions.World adehun → O.State → Prop}
  {Q : LedgerResult → Sessions.World adehun → O.State → Prop} {a : EntryArgs}

/-- `applyEntry`, by the entry that is in its way, before or after the attempt
(`F`), the wallet (`V`), what is committed under its lock (`N`), and where a
failure leads (`S`, and `T` when it is rolled back). -/
theorem triple_applyEntry
    (hlook : Triple L i P (getEntryByReference a.reference) (Looked F P) R)
    (hreplay : ∀ e, Triple L i (F e) (replay e) Q R)
    (hresolve : Triple L i P (resolveWalletId a.userId) V R)
    (hlocked : ∀ x, Triple L i (V x)
      (do
        let wallet ← lockWallet x
        let entry ← applyLedgerEntry wallet.id a
        commit
        pure (wallet.id, entry.id)) N S)
    (hrollback : Triple L i S rollback (fun _ => T) R)
    (hagain : Triple L i T (getEntryByReference a.reference) (Looked F T) R)
    (hlost : ∀ w o, T w o → R w o)
    (hdone : ∀ ids : Id × Id, Triple L i (N ids)
      (do
        let entry ← refresh .transaction ids.2
        let wallet ← refresh .wallet ids.1
        cacheDelete [.userWallet a.userId]
        pure { entry, wallet, replayed := false }) Q R) :
    Triple L i P (applyEntry a) Q R := by
  refine hlook.bind fun found => ?_
  cases found with
  | some existing => exact hreplay existing
  | none =>
      refine hresolve.bind fun walletId =>
        (hlocked walletId).attempt (fun ids => hdone ids) fun e => ?_
      split
      · refine hrollback.bind fun _ => hagain.bind fun found => ?_
        cases found with
        | none => exact Triple.raise hlost
        | some existing => exact hreplay existing
      · exact hrollback.bind fun _ => Triple.raise hlost
      · next h => cases h

/-- `applyLedgerEntry`, by its two writes, the last of which leads on. -/
theorem triple_applyLedgerEntry {x : Id}
    (h : Reading fun _ p => Triple L i P p (fun _ => P) R)
    (hbalances : ∀ id x y, Triple L i P (assign .wallet id (setBalances x y)) (fun _ => P) R)
    (hentry : ∀ e : Transaction, Transaction.From a e →
      Triple L i P (add .transaction e) (fun _ => T) R) :
    Triple L i P (applyLedgerEntry x a) (fun _ => T) R := by
  refine (h.raiseIf _ _).bind fun _ => (h.attributes .wallet _).bind fun wallet => ?_
  refine (h.raiseIf _ _).bind fun _ => (h.raiseIf _ _).bind fun _ => ?_
  refine h.now.bind fun time => h.fresh.bind fun entryId => ?_
  exact (hbalances _ _ _).bind fun _ => (hentry _ ⟨rfl, rfl, rfl, rfl, rfl⟩).bind fun _ =>
    Triple.ret fun _ _ h => h

/-- A request that is answered at last is answered as one of the attempts was. -/
theorem triple_requestFrom {q : ProviderRequest}
    {A : Transport → Sessions.World adehun → O.State → Prop}
    (hawait : Triple L i P (.perform (Stmt.await (M := adehun) (.provider q)))
      (fun t w o => P w o ∧ A t w o) R)
    (hsleep : ∀ n, Triple L i P (.perform (Stmt.await (M := adehun) (.sleep n))) (fun _ => P) R)
    (hend : ∀ w o, P w o → R w o) (attempt left : Nat) :
    Triple L i P (requestFrom q attempt left)
      (fun x w o => P w o ∧ ∃ t, t.outcome.1 = .ok x ∧ A t w o) R := by
  have hlast : ∀ t : Transport, Triple L i (fun w o => P w o ∧ A t w o) (ofExcept t.outcome.1)
      (fun x w o => P w o ∧ ∃ t, t.outcome.1 = .ok x ∧ A t w o) R := by
    intro t
    cases hout : t.outcome.1 with
    | ok x => exact Triple.ret fun w o h => ⟨h.1, t, hout, h.2⟩
    | error e => exact Triple.raise fun w o h => hend w o h.1
  induction left generalizing attempt with
  | zero => exact hawait.bind hlast
  | succ left ih =>
      refine hawait.bind fun t => ?_
      split
      · exact ((hsleep _).conseq (fun _ _ h => h.1) (fun _ _ _ h => h) fun _ _ h => h).bind
          fun _ => ih (attempt + 1)
      · exact hlast t

end Entry

section Withdrawal

variable {P : Nat → Sessions.World adehun → O.State → Prop}
  {U V E T : PaystackReference → Nat → Sessions.World adehun → O.State → Prop}

/-- `requestWithdrawal`, by what is had of the reference that is drawn (`U`),
of the record (`V`) and the debit (`E`) that are written under it, and of the
transfer that is sent (`T`). -/
theorem triple_requestWithdrawal {u : Id} {p : WithdrawalCreate} (s : Settings)
    (hP : ∀ i, Reading fun _ p => Triple L i (P i) p (fun _ => P i) (P i))
    (hdraw : ∀ i, Triple L i (P i) (generateWithdrawalReference u) (fun r => U r i) (P i))
    (hU : ∀ r i, Reading fun _ p => Triple L i (U r i) p (fun _ => U r i) (P i))
    (hrow : ∀ r (row : PaystackTransaction), row.bill = (r, u, p.amount) → ∀ i,
      Triple L i (U r i) (createPaystackTransaction row false) (fun _ => V r i) (P i))
    (hentry : ∀ r (a : EntryArgs), a.entryType = .withdrawal → a.reference = .withdrawal r →
      a.userId = u → a.amount = p.amount → ∀ i,
      Triple L i (V r i) (applyEntry a) (fun _ => E r i) (P i))
    (hE : ∀ r i, Reading fun _ p => Triple L i (E r i) p (fun _ => E r i) (T r i))
    (hsend : ∀ r code reason i, Triple L i (E r i)
      (initiateTransfer (toKobo p.amount) code r reason) (fun _ => T r i) (T r i))
    (hT : ∀ r, Plain fun _ p => ∀ i, Triple L i (T r i) p (fun _ => T r i) (T r i))
    (hout : ∀ r id f, Restates f → ∀ i,
      Triple L i (T r i) (assign .paystackTransaction id f) (fun _ => T r i) (T r i))
    (hreverse : ∀ r reason, ∀ i,
      Triple L i (T r i) (reverseWithdrawal r u p.amount reason) (fun _ => T r i) (T r i))
    (hend : ∀ r i w o, T r i w o → P i w o) (i : Nat) :
    Triple L i (P i) (requestWithdrawal s u p) (fun _ => P i) (P i) := by
  refine ((hP i).raiseIf _ _).bind fun _ => ((hP i).raiseIf _ _).bind fun _ => ?_
  refine ((hP i).raiseIf _ _).bind fun _ => ((hP i).resolveBankAccount _ _).bind fun account => ?_
  refine (hdraw i).bind fun r => (hU r i).fresh.bind fun rowId => ?_
  refine (hrow r _ rfl i).bind fun row => (hentry r _ rfl rfl rfl rfl i).bind fun result => ?_
  have hsent : Triple L i (E r i)
      (do
        let account ← attributes .bankAccount account.id
        initiateTransfer (toKobo p.amount) account.recipientCode r "Wallet withdrawal")
      (fun _ => T r i) (T r i) :=
    ((hE r i).attributes .bankAccount _).bind fun _ => hsend r _ _ i
  have h := hT r
  refine hsent.attempt (fun d => ?_) fun e => ?_
  · refine Triple.conseq (?_ : Triple L i (T r i) _ (fun _ => T r i) (T r i)) (fun _ _ h => h)
      (fun _ => hend r i) (hend r i)
    exact h.bind (h.fields d) (fun d => h.bind (hout r _ _ (restates_setTransfer _ _)) fun _ =>
      h.bind (h.savePaystackTransaction _ _) fun _ =>
        h.bind (h.attributes .wallet _) fun _ => h.withdrawalResponse _ _ _) i
  · refine Triple.conseq (?_ : Triple L i (T r i) _ (fun _ => T r i) (T r i)) (fun _ _ h => h)
      (fun _ => hend r i) (hend r i)
    exact h.ite (h.bind (h.attributes .wallet _) fun _ => h.withdrawalResponse _ _ _)
      (h.ite (h.bind (hreverse r _) fun _ => h.raise _) (h.raise _)) i

end Withdrawal

end Adehun
