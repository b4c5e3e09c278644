import Adehun.Routine.Disciplined
import Adehun.Sessions.Watched

/-!
# Requests beside their books

An invariant of the books on requests, the delivered events or the
idempotency keys, is nobody's business but that of the functions that keep
them. What a ghost has to stand, for all the others to leave it alone, are
writes to other tables.
-/

namespace Adehun

open Sessions Observer.Discipline

variable {Req : Type} {O : Observer adehun Req} {D : O.Discipline} {g : D.Ghost} {t : Table}

/-- The first row of a query, by the object it is answered with. -/
theorem safe_loadFirst {i : Nat} {w : World adehun} {o : O.State} {p : t.Row → Bool}
    {Q : Option t.Row → World adehun → O.State → Prop} (hm : ∀ q, ¬ D.Minds g (.load t q))
    (h : ∀ w₁ o₁ alive w₂ o₂, w₁.WF → D.Good w₁.db o₁ → D.Own g i w₁ o₁ → w₂.db = w₁.db →
      D.Own g i w₂ o₂ →
      Q (((w₁.view i t).find? p).bind fun r => w₁.answer i alive ⟨t, rowId r⟩) w₂ o₂)
    (ho : D.Own g i w o) :
    Observer.Safe D.logic i Q (fun _ w o => D.Own g i w o ∨ D.Own (D.lost g) i w o)
      (loadFirst t p) w o := by
  refine Observer.safe_bind (Observer.safe_mono (fun _ _ _ h => h) (fun _ _ _ h => h)
    (Observer.Discipline.safe_load (hm _) ?_ ho))
  intro w₁ o₁ alive w₂ hw hgood ho₁ hdb rows ho₂
  have hhead := h w₁ o₁ alive w₂ _ hw hgood ho₁ hdb ho₂
  have hrows : ((((w₁.view i t).filter p).map rowId).take 1).filterMap
      (fun id => (w₁.answer i alive ⟨t, id⟩ : Option t.Row)) =
      (((w₁.view i t).find? p).bind fun r => w₁.answer i alive ⟨t, rowId r⟩ :
        Option t.Row).toList := by
    rw [← List.head?_filter]
    cases (w₁.view i t).filter p with
    | nil => rfl
    | cons r rs =>
        simp only [List.map_cons, List.take_succ_cons, List.take_zero, List.head?_cons,
          Option.bind_some]
        cases ha : w₁.answer i alive ⟨t, rowId r⟩ with
        | none => simp [ha]
        | some r' => simp [ha]
  have hfirst : rows.head? = (((w₁.view i t).find? p).bind fun r =>
      w₁.answer i alive ⟨t, rowId r⟩ : Option t.Row) :=
    (congrArg List.head? hrows).trans Option.head?_toList
  show Q rows.head? w₂ _
  rw [hfirst]
  exact hhead

/-- A request may be rolled back from anywhere when its session is closed. -/
theorem takes_closing {g' : D.Ghost} {α : Type} {p : App α} (hl : D.lost g' = g')
    (h : D.Takes g g' (fun _ => True) p) : D.Takes g g' (fun _ => True) (closing p) := by
  refine Takes.ensuring h ?_ fun e _ => ⟨_, trivial, takes_rollback⟩
  have hback : D.Takes g' (D.lost g') (fun _ => True) rollback := takes_rollback
  rwa [hl] at hback

/-- A ghost that no write on the side disturbs. -/
theorem routine_watched (hg : D.Still g)
    (hstages : ∀ d, Side d → ∀ i w o, w.WF → D.Good w.db o → D.Own g i w o →
      D.Own g i (w.stage i d) o)
    (hputs : ∀ d, Side d → ∀ i w o, w.WF → D.Good w.db o → D.Own g i w o →
      w.free i (d.locks (w.view i)) = true → d.refusal (w.view i) = none →
      D.Own g i (w.put i d) o) : Routine fun _ p => D.Keeps g p where
  toCompositional := keeps_compositional
  reads _ hs _ := keeps_quiet hg hs
  commit := keeps_commit hg
  rollback := keeps_rollback hg
  stages d hd _ := keeps_stage (hstages d hd)
  books d hd := keeps_stage (hstages d hd)
  upserts _ _ hf := keeps_upsert hg fun db d hd => hputs d (hf db d hd)

theorem Routine.keeps_watched_transfer (h : Routine fun _ p => D.Keeps g p) (hg : D.Still g)
    (n : Int) (code : String) (r : PaystackReference) (reason : String) :
    D.Keeps g (initiateTransfer n code r reason) :=
  h.initiateTransfer (keeps_quiet hg trivial)

/-- A new wallet, by what it is to a ghost. -/
theorem Routine.keeps_watched_ensureWallet (h : Routine fun _ p => D.Keeps g p) (hg : D.Still g)
    (hnew : ∀ x u i w o, w.WF → D.Good w.db o → D.Own g i w o →
      w.free i ((newWallet x u).locks (w.view i)) = true →
      (newWallet x u).refusal (w.view i) = none → D.Own g i (w.put i (newWallet x u)) o)
    (u : Id) : D.Keeps g (Adehun.ensureWallet u) := by
  refine h.ensureWallet (fun x u => keeps_upsert hg ?_) h.commit u
  intro db d hd
  dsimp only at hd
  split at hd
  · cases hd
  · obtain rfl := List.mem_singleton.mp hd
    exact hnew x u

/-- A ghost that no write to another table disturbs. -/
structure Undisturbed (D : O.Discipline) (g : D.Ghost) (t : Table) : Prop where
  still : D.Still g
  stage : ∀ d : Write adehun, d.key.table ≠ t → ∀ i w o, w.WF → D.Good w.db o →
    D.Own g i w o → D.Own g i (w.stage i d) o
  put : ∀ d : Write adehun, d.key.table ≠ t → ∀ i w o, w.WF → D.Good w.db o → D.Own g i w o →
    w.free i (d.locks (w.view i)) = true → d.refusal (w.view i) = none →
    D.Own g i (w.put i d) o

namespace Undisturbed

variable (h : Undisturbed D g t) (ht : booked t)

include h ht

omit ht in
theorem stages {d : Write adehun} (hd : d.key.table ≠ t) : D.Keeps g (.perform (.stage d)) :=
  keeps_stage (h.stage d hd)

theorem plain : Plain fun _ p => D.Keeps g p where
  toCompositional := keeps_compositional
  reads _ hs _ := keeps_quiet h.still hs
  commit := keeps_commit h.still
  rollback := keeps_rollback h.still
  stages d _ hd := by
    refine h.stages ?_
    rintro rfl
    rw [ht] at hd
    cases hd

/-- Another table of the books may be written as well. -/
theorem booking {t' : Table} (hne : t' ≠ t) : Booking (fun _ p => D.Keeps g p) t' where
  toPlain := h.plain ht
  books d hd := h.stages (by rw [hd]; exact hne)
  upserts _ _ hf := keeps_upsert h.still fun db d hd => h.put d (by rw [hf db d hd]; exact hne)

theorem ne_of_guarded {t' : Table} (ht' : guarded t') : t' ≠ t := by
  rintro rfl
  cases t' <;> simp [booked, guarded] at ht ht'

theorem ensureWallet (u : Id) : D.Keeps g (ensureWallet u) := by
  refine (h.plain ht).ensureWallet (fun x u => keeps_upsert h.still ?_) (h.plain ht).commit u
  intro db d hd
  dsimp only at hd
  split at hd
  · cases hd
  · obtain rfl := List.mem_singleton.mp hd
    exact h.put _ (h.ne_of_guarded ht rfl)

theorem applyEntry (a : EntryArgs) : D.Keeps g (applyEntry a) :=
  (h.plain ht).applyEntry (h.ensureWallet ht) ((h.plain ht).lockedEntry
    (fun _ _ _ => h.stages (h.ne_of_guarded ht rfl))
    fun _ _ => h.stages (h.ne_of_guarded ht rfl))

theorem applyTransfer (group : GroupId) (d c : LedgerLeg) :
    D.Keeps g (applyTransfer group d c) :=
  (h.plain ht).applyTransfer (h.ensureWallet ht) ((h.plain ht).lockedTransfer
    (fun _ _ _ => h.stages (h.ne_of_guarded ht rfl))
    fun _ _ => h.stages (h.ne_of_guarded ht rfl))

theorem providerRequests : ProviderRequests fun _ p => D.Keeps g p := by
  refine (h.plain ht).providerRequests ⟨?_, ?_, ?_, fun a _ _ => h.applyEntry ht a⟩
    (h.ensureWallet ht)
  · exact fun _ _ _ _ => (h.plain ht).initiateTransfer (keeps_quiet h.still trivial)
  · intro d hd
    refine h.stages ?_
    rw [hd]
    exact h.ne_of_guarded ht rfl
  · exact fun _ _ _ => h.stages (h.ne_of_guarded ht rfl)

theorem escrowSide : EscrowSide fun _ p => D.Keeps g p := by
  have hp := h.plain ht
  have hstatus : ∀ id s, D.Keeps g (assign .agreement id (setStatus s)) :=
    fun _ _ => h.stages (h.ne_of_guarded ht rfl)
  exact
    { newAgreement := fun _ _ => h.stages (h.ne_of_guarded ht rfl)
      agreementStatus := hstatus
      underReview := fun _ => h.stages (h.ne_of_guarded ht rfl)
      resolution := fun _ _ _ _ => h.stages (h.ne_of_guarded ht rfl)
      raised := fun _ _ _ _ _ _ => hp.raiseDisputeOrNot
        (hp.raiseDisputeRows hstatus (fun _ _ => h.stages (h.ne_of_guarded ht rfl)) _ _ _ _ _)
      lockEscrow := fun _ _ _ _ _ _ => h.applyEntry ht _
      release := hp.performEscrowRelease hstatus fun _ _ _ _ _ => h.applyTransfer ht _ _ _
      refund := hp.performEscrowRefund hstatus fun _ _ _ _ => h.applyEntry ht _ }

/-- Every request leaves the ghost alone, if those that keep the books do. -/
theorem handler (hb : Books (fun _ _ p => D.Keeps g p) fun _ p => D.Keeps g p)
    (settings : Settings) (r : Request) : D.Keeps g (handler settings r) :=
  hb.handler (fun _ => h.plain ht) (fun _ => h.escrowSide ht) (fun _ => h.providerRequests ht)
    settings r

end Undisturbed

end Adehun
