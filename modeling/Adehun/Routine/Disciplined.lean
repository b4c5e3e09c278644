import Adehun.Routine.Requests
import Adehun.Sessions.Discipline
import Adehun.Sessions.Stable

/-!
# Requests under a discipline

Keeping a discipline is routine as soon as the tables on the side are none
of its business. What is left for an invariant over all requests is then its
own tables.
-/

namespace Adehun

open Sessions

variable {D : Discipline adehun}

/-- A discipline that no write on the side disturbs. -/
theorem routine_keeps (hstages : ∀ d, Side d → D.Stages d) (hputs : ∀ d, Side d → D.Puts d) :
    Routine fun _ p => D.Keeps p where
  toCompositional := D.keeps_compositional
  reads s hs _ := by
    refine D.keeps_perform ?_
    cases s with
    | stage d => exact hs.elim
    | upsert waits f => exact hs.elim
    | _ => trivial
  commit := D.keeps_perform trivial
  rollback := D.keeps_perform trivial
  stages d hd _ := D.keeps_perform (hstages d hd)
  books d hd := D.keeps_perform (hstages d hd)
  upserts waits f hf := D.keeps_perform fun db d hd => hputs d (hf db d hd)

theorem Routine.keeps_transfer (h : Routine fun _ p => D.Keeps p) (n : Int) (code : String)
    (r : PaystackReference) (reason : String) : D.Keeps (initiateTransfer n code r reason) :=
  h.initiateTransfer (D.keeps_perform trivial)

/-- What a session has asked the database to write, sent or not. -/
abbrev asked (w : World adehun) (i : Nat) : List (Write adehun) :=
  (w.tx i).writes ++ (w.tx i).dirty

theorem asked_stage (w : World adehun) (i : Nat) (d : Write adehun) :
    asked (w.stage i d) i = asked w i ++ [d] := by
  rw [asked, asked, World.stage_writes, World.stage_dirty, List.append_assoc]

/-- A check that may raise. -/
theorem safe_raiseIf {L : Logic adehun} {i : Nat} {w : World adehun} {α : Type}
    {Q : α → World adehun → Prop} {E : Exn → World adehun → Prop} {p : Prop} [Decidable p]
    {e : Exn} {f : Unit → App α} (hE : p → E e w) (hf : ¬ p → Safe L i Q E (f ()) w) :
    Safe L i Q E (raiseIf p e >>= f) w := by
  refine safe_bind ?_
  by_cases hp : p
  · rw [raiseIf, if_pos hp]
    exact hE hp
  · rw [raiseIf, if_neg hp]
    exact hf hp

/-- The row of a new wallet. -/
def newWallet (x u : Id) : Write adehun := .insert .wallet ({ id := x, userId := u } : Wallet)

theorem Routine.keeps_ensureWallet (h : Routine fun _ p => D.Keeps p)
    (hnew : ∀ x u, D.Puts (newWallet x u)) (u : Id) : D.Keeps (Adehun.ensureWallet u) := by
  refine h.ensureWallet (fun x u => D.keeps_perform ?_) h.commit u
  intro db d hd
  dsimp only at hd
  split at hd
  · cases hd
  · obtain rfl := List.mem_singleton.mp hd
    exact hnew x u

/-! ## A movement that a ghost prepares -/

/-- What reads leave the ghost. -/
theorem reading_holds (g : D.Ghost) : Reading fun _ p => D.Holds g p where
  toSequential := D.holds_sequential g
  reads _ hs _ := D.holds_quiet hs

/-- What a movement of money starts from, and what it has before its commit.
A session that is ready may as well be at rest. -/
structure Moves (D : Discipline adehun) (ready moving : D.Ghost) : Prop where
  rest : ∀ i w, D.Own ready i w → D.Own D.rest i w
  start : ∀ i w, D.Own ready i w → D.Own moving i w
  commits : D.Commits moving
  wallet : ∀ u, D.Holds ready (ensureWallet u)

section Moves

variable {ready moving : D.Ghost} (h : Routine fun _ p => D.Keeps p) (hm : Moves D ready moving)

include h hm

omit h in
/-- A program of a session that is ready, and the rest. -/
theorem safe_ready {α β : Type} {p : App α} {f : α → App β} {i : Nat} {w : World adehun}
    {Q : β → World adehun → Prop} (hp : D.Holds ready p)
    (hf : ∀ a w, D.Own ready i w →
      Safe D.logic i Q (fun _ w => D.Own D.rest i w) (f a) w)
    (ho : D.Own ready i w) : Safe D.logic i Q (fun _ w => D.Own D.rest i w) (p >>= f) w := by
  refine safe_bind (safe_mono (hf · ·) ?_ (hp i w ho))
  rintro e w₁ (h₁ | h₁)
  · exact hm.rest i w₁ h₁
  · exact h₁

omit h hm in
/-- What is done under the locks of the wallets, with its commit. -/
theorem safe_committed {α : Type} {p : App α} {i : Nat} {w : World adehun}
    (hp : Safe D.logic i (fun _ w => ∃ g, D.Commits g ∧ D.Own g i w) (fun _ _ => True) p w) :
    Safe D.logic i
      (fun r w => match r with
        | .ok _ => D.Own D.rest i w
        | .error _ => True)
      (fun _ w => D.Own D.rest i w)
      (Prog.attempt do
        let a ← p
        commit
        pure a) w := by
  refine safe_attempt (safe_bind (safe_mono ?_ (fun _ _ _ => trivial) hp))
  rintro a w₁ ⟨g, hg, h₁⟩
  refine safe_bind (safe_mono ?_ (fun _ _ _ => trivial) (D.safe_commit hg h₁))
  exact fun _ _ h₂ => h₂

/-- `applyEntry` of a session that is ready for it, by what finding the wallet
tells, and what is done under its lock. -/
theorem safe_applyEntry_at {a : EntryArgs} {found : Id → D.Ghost}
    (hresolve : ∀ i w, D.Own ready i w → Safe D.logic i (fun x w => D.Own (found x) i w)
      (fun _ w => D.Own D.rest i w) (resolveWalletId a.userId) w)
    (hlocked : ∀ walletId i w, D.Own (found walletId) i w →
      Safe D.logic i (fun _ w => ∃ g, D.Commits g ∧ D.Own g i w) (fun _ _ => True)
        (do
          let wallet ← lockWallet walletId
          let entry ← applyLedgerEntry wallet.id a
          pure (wallet.id, entry.id) : App (Id × Id)) w) {i : Nat} {w : World adehun}
    (ho : D.Own ready i w) :
    Safe D.logic i (fun _ w => D.Own D.rest i w) (fun _ w => D.Own D.rest i w)
      (applyEntry a) w := by
  have hr := reading_holds (D := D) ready
  refine safe_ready hm (hr.getEntryByReference _) ?_ ho
  intro existing w₁ h₁
  cases existing with
  | some existing => exact h.replay existing i w₁ (hm.rest i w₁ h₁)
  | none =>
      refine safe_bind (safe_mono ?_ (fun _ _ h₂ => h₂) (hresolve i w₁ h₁))
      intro walletId w₂ h₂
      have hmoved := safe_committed (hlocked walletId i w₂ h₂)
      rw [← Plain.lockedEntry_commit] at hmoved
      refine safe_bind (safe_mono ?_ (fun _ _ h₃ => h₃) hmoved)
      intro applied w₃ h₃
      split
      · refine safe_bind (safe_mono ?_ (fun _ _ h₄ => h₄) D.safe_rollback)
        intro _ w₄ h₄
        refine h.bind (h.getEntryByReference _) (fun found => ?_) i w₄ h₄
        cases found with
        | none => exact h.raise _
        | some existing => exact h.replay existing
      · refine safe_bind (safe_mono ?_ (fun _ _ h₄ => h₄) D.safe_rollback)
        exact fun _ _ h₄ => h₄
      · refine h.bind (h.refresh .transaction _) (fun _ => ?_) i w₃ h₃
        exact h.bind (h.refresh .wallet _) fun _ => h.bind (h.cacheDelete _) fun _ =>
          h.ret _

omit h in
/-- Finding the wallet, for a session that only has to stay ready. -/
theorem safe_resolve (u : Id) (i : Nat) (w : World adehun) (ho : D.Own ready i w) :
    Safe D.logic i (fun _ w => D.Own ready i w) (fun _ w => D.Own D.rest i w)
      (resolveWalletId u) w := by
  have hr := reading_holds (D := D) ready
  refine safe_mono (fun _ _ h₁ => h₁) ?_ (hr.resolveWalletId hm.wallet u i w ho)
  rintro e w₁ (h₁ | h₁)
  · exact hm.rest i w₁ h₁
  · exact h₁

/-- `applyEntry` of a session that is ready for it, by what is done under the
lock of the wallet. -/
theorem safe_applyEntry_of {a : EntryArgs}
    (hlocked : ∀ walletId i w, D.Own ready i w →
      Safe D.logic i (fun _ w => ∃ g, D.Commits g ∧ D.Own g i w) (fun _ _ => True)
        (do
          let wallet ← lockWallet walletId
          let entry ← applyLedgerEntry wallet.id a
          pure (wallet.id, entry.id) : App (Id × Id)) w) {i : Nat} {w : World adehun}
    (ho : D.Own ready i w) :
    Safe D.logic i (fun _ w => D.Own D.rest i w) (fun _ w => D.Own D.rest i w)
      (applyEntry a) w :=
  safe_applyEntry_at h hm (safe_resolve hm a.userId) hlocked ho

/-- `applyTransfer` of a session that is ready for it, by what finding the
wallets tells, and what is done under their locks. -/
theorem safe_applyTransfer_at {g : GroupId} {debit credit : LedgerLeg} {found : Id → D.Ghost}
    {both : Id → Id → D.Ghost}
    (hdebit : ∀ i w, D.Own ready i w → Safe D.logic i (fun x w => D.Own (found x) i w)
      (fun _ w => D.Own D.rest i w) (resolveWalletId debit.userId) w)
    (hcredit : ∀ x i w, D.Own (found x) i w → Safe D.logic i
      (fun y w => D.Own (both x y) i w) (fun _ w => D.Own D.rest i w)
      (resolveWalletId credit.userId) w)
    (hlocked : ∀ a b i w, D.Own (both a b) i w →
      Safe D.logic i (fun _ w => ∃ g, D.Commits g ∧ D.Own g i w) (fun _ _ => True)
        (do
          lockWallets a b
          let debitEntry ← applyLedgerEntry a (debit.asArgs (.out g) g)
          let creditEntry ← applyLedgerEntry b (credit.asArgs (.into g) g)
          pure (debitEntry.id, creditEntry.id) : App (Id × Id)) w) {i : Nat} {w : World adehun}
    (ho : D.Own ready i w) :
    Safe D.logic i (fun _ w => D.Own D.rest i w) (fun _ w => D.Own D.rest i w)
      (applyTransfer g debit credit) w := by
  have hr := reading_holds (D := D) ready
  refine safe_ready hm (hr.getEntriesByGroup _) ?_ ho
  intro existing w₁ h₁
  split
  · exact h.replayTransfer _ _ i w₁ (hm.rest i w₁ h₁)
  · refine safe_bind (safe_mono ?_ (fun _ _ h₂ => h₂) (hdebit i w₁ h₁))
    intro x w₂ h₂
    refine safe_bind (safe_mono ?_ (fun _ _ h₃ => h₃) (hcredit x i w₂ h₂))
    intro y w₃ h₃
    have hmoved := safe_committed (hlocked x y i w₃ h₃)
    rw [← Plain.lockedTransfer_commit] at hmoved
    refine safe_bind (safe_mono ?_ (fun _ _ h₄ => h₄) hmoved)
    intro applied w₄ h₄
    split
    · refine safe_bind (safe_mono ?_ (fun _ _ h₅ => h₅) D.safe_rollback)
      intro _ w₅ h₅
      exact h.bind (h.getEntriesByGroup _)
        (fun existing => h.ite (h.replayTransfer _ _) (h.raise _)) i w₅ h₅
    · refine safe_bind (safe_mono ?_ (fun _ _ h₅ => h₅) D.safe_rollback)
      exact fun _ _ h₅ => h₅
    · refine h.bind (h.refresh .transaction _) (fun _ => ?_) i w₄ h₄
      exact h.bind (h.refresh .transaction _) fun _ => h.bind (h.cacheDelete _) fun _ =>
        h.ret _

/-- `applyTransfer` of a session that is ready for it, by what is done under
the locks of the wallets. -/
theorem safe_applyTransfer_of {g : GroupId} {debit credit : LedgerLeg}
    (hlocked : ∀ a b i w, D.Own ready i w →
      Safe D.logic i (fun _ w => ∃ g, D.Commits g ∧ D.Own g i w) (fun _ _ => True)
        (do
          lockWallets a b
          let debitEntry ← applyLedgerEntry a (debit.asArgs (.out g) g)
          let creditEntry ← applyLedgerEntry b (credit.asArgs (.into g) g)
          pure (debitEntry.id, creditEntry.id) : App (Id × Id)) w) {i : Nat} {w : World adehun}
    (ho : D.Own ready i w) :
    Safe D.logic i (fun _ w => D.Own D.rest i w) (fun _ w => D.Own D.rest i w)
      (applyTransfer g debit credit) w :=
  safe_applyTransfer_at h hm
    (safe_resolve hm debit.userId) (fun _ => safe_resolve hm credit.userId) hlocked ho

end Moves

/-- An invariant that every request keeps holds of the committed tables in
every run whose steps meet its guard. -/
theorem good_of_keeps {settings : Settings} (h : ∀ r, D.Keeps (handler settings r))
    {db : Db adehun} {shared : Shared} (hk : db.KeysDistinct) (he : db.EntriesDistinct)
    (hgood : D.Good db) {ls : List (Label adehun Request)} {C : Conf adehun Response}
    (hg : Conf.RunMeets D.guard (handler settings) { world := { db, shared } } ls)
    (hr : Conf.run (handler settings) { world := { db, shared } } ls = some C) :
    C.world.WF ∧ D.Good C.world.db := by
  refine D.inv_run h ⟨?_, hgood⟩ ?_ hg hr
  · exact World.wf_init hk he
  · exact fun i => ⟨rfl, fun l hl => by cases hl⟩

end Adehun
