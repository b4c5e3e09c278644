import Adehun.DisputeFinality

/-!
# A dispute freezes the escrow

A dispute is committed together with the status `disputed`, so while a
dispute is live its agreement is frozen: disputed, or refunded since. Whoever
moves money into or out of the escrow checks the status, but on an object or
a cached value read without a lock. The checks are enough as long as what
they have read is still so when the entries are committed; and so are those
of whoever changes the status, which keep the agreement frozen.
-/

namespace Adehun

open Sessions

/-! ## Frozen agreements -/

/-- The statuses an agreement has while it is disputed. -/
def AgreementStatus.frozen (s : AgreementStatus) : Bool :=
  s = .disputed || s = .refunded

/-- The agreement has a dispute that is open or under review. -/
def Live (db : Db adehun) (a : Id) : Prop :=
  ∃ d ∈ (db .dispute : List Dispute), d.agreementId = a ∧ d.status ≠ .resolved

instance (db : Db adehun) (a : Id) : Decidable (Live db a) :=
  inferInstanceAs (Decidable (∃ d ∈ (db .dispute : List Dispute), _))

/-- The same, by the row of the dispute. -/
def Disputed (db : Db adehun) (a : Id) : Prop :=
  ∃ (id : Id) (d : Dispute), db.lookup ⟨Table.dispute, id⟩ = some d ∧ d.agreementId = a ∧
    d.status ≠ .resolved

theorem Live.disputed {db : Db adehun} {a : Id} (hk : db.KeysDistinct) (h : Live db a) :
    Disputed db a := by
  obtain ⟨d, hd, ha, hs⟩ := h
  exact ⟨d.id, d, hk.lookup hd, ha, hs⟩

/-- The agreement is frozen. -/
abbrev Frozen (db : Db adehun) (a : Id) : Prop :=
  db.Has Table.agreement (fun r : Agreement => r.status.frozen) a

/-- The agreement whose escrow an entry fills or pays out to the
beneficiary. -/
def Reference.guardedBy : Reference → Option Id
  | .lock a | .out (.release a) | .into (.release a) => some a
  | _ => none

theorem Reference.escrow_of_guarded {r : Reference} {a : Id} (h : r.guardedBy = some a) :
    r.escrow = true := by
  cases r with
  | lock b => rfl
  | out g =>
      cases g
      rfl
  | into g =>
      cases g
      rfl
  | _ => cases h

/-- A guarded entry settles its agreement by a release. -/
theorem settles_of_guarded {r : Reference} {a b : Id} {s : AgreementStatus}
    (h : r.settles = some (b, s)) (hr : r.guardedBy = some a) :
    r.settles = some (a, .completed) := by
  cases r with
  | lock b => cases h
  | out g =>
      cases g
      cases hr
      rfl
  | into g =>
      cases g
      cases hr
      rfl
  | _ => cases hr

/-- What a transition of the committed tables must not do: add an entry for
an agreement with a live dispute. -/
def RespectsFreeze (db db' : Db adehun) : Prop :=
  ∀ t ∈ (db' .transaction : List Transaction), ∀ a, t.reference.guardedBy = some a →
    ¬ Posted db t.reference → ¬ Live db' a

/-- Every agreement with a live dispute is frozen. -/
def FrozenWhileLive (db : Db adehun) : Prop := ∀ a, Disputed db a → Frozen db a

/-! ## What the freeze is decided on -/

/-- Statuses and rulings, and the agreement whose escrow is filled or
settled. -/
def freezeRead : Grounds := fun d n =>
  statusRead d n || disputeRead d n || fundingRead d n || settlingRead d n

section Commit

variable {w : World adehun} {o : Nat → List Note} {i : Nat} {c : Choice adehun}
  (h : register.Permitted w o i) (hg : (grounded freezeRead o).exec w i .commit c)

include h hg

/-- A dispute that is live after a commit was live before, or has been raised
on an agreement that is to be frozen. -/
theorem live_of_view {id : Id} {d : Dispute} (hd : (w.view i).lookup ⟨Table.dispute, id⟩ = some d)
    (hs : d.status ≠ .resolved) :
    (∃ d₀ : Dispute, w.db.lookup ⟨Table.dispute, id⟩ = some d₀ ∧
      d₀.agreementId = d.agreementId ∧ d₀.status ≠ .resolved) ∨
    ∃ r : Agreement, .got r ∈ o i ∧ r.status = .active ∧ r.id = d.agreementId ∧
      .update Table.agreement r.id (setStatus .disputed) ∈ decisions w i := by
  rw [lookup_view_dispute] at hd
  cases hrow : w.db.lookup (⟨Table.dispute, id⟩ : Key adehun) with
  | none => exact Or.inr ((deed_of_permitted h).dispute_new hrow hd)
  | some d₀ =>
      left
      rcases (deed_of_permitted h).lookup_dispute hrow with
        hsame | ⟨d₁, p, hseen, rfl, hmem, how, hafter⟩
      · rw [hsame] at hd
        cases hd
        exact ⟨d, rfl, rfl, hs⟩
      · have hstill : w.db.lookup ⟨Table.dispute, d₁.id⟩ = some d₁ :=
          holds_of_grounded hg hmem rfl hseen rfl rfl
        rw [hrow] at hstill
        cases hstill
        rw [hafter] at hd
        cases hd
        exact ⟨d₁, rfl, how.agreementId.symm, how.precedes.1⟩

/-- Nobody who has seen the agreement as it is thaws it. -/
theorem frozen_of_turns {id : Id} {d d₀ : Dispute} {r : Agreement} {s : AgreementStatus}
    (hd : (w.view i).lookup ⟨Table.dispute, id⟩ = some d) (hs : d.status ≠ .resolved)
    (hrow : w.db.lookup ⟨Table.dispute, id⟩ = some d₀) (hs₀ : d₀.status ≠ .resolved)
    (hon : d₀.agreementId = r.id) (hfrozen : r.status.frozen = true)
    (how : Turns (o i) (decisions w i) r s) : s.frozen = true := by
  cases how with
  | accept pending next =>
      rw [pending] at hfrozen
      cases hfrozen
  | cancel live spare alone =>
      rcases live with hr | hr <;>
      · rw [hr] at hfrozen
        cases hfrozen
  | raise active =>
      rw [active] at hfrozen
      cases hfrozen
  | @restore d₁ p seen unresolved on disputed ends ruled =>
      -- the dispute that is ruled on is the live one of the agreement
      have hstill : w.db.lookup ⟨Table.dispute, d₁.id⟩ = some d₁ :=
        holds_of_grounded hg ruled rfl seen rfl rfl
      have hsame : d₀.id = d₁.id :=
        oneLive_of_entriesDistinct h.wf.keys h.wf.entries d₀ (Db.lookup_mem hrow) d₁
          (Db.lookup_mem hstill) hs₀ unresolved (hon.trans on)
      have hid : id = d₁.id := (Db.lookup_id hrow).symm.trans hsame
      subst hid
      obtain ⟨-, -, -, -, hafter⟩ := (deed_of_permitted h).lookup_revised ruled
      rw [lookup_view_dispute, hafter w.db d₁ hstill] at hd
      cases hd
      exact absurd (ends d₁) hs
  | settle allowed => cases s <;> cases hr : r.status <;> simp_all [settleable,
      AgreementStatus.frozen]

theorem frozenWhileLive_view (hgood : FrozenWhileLive w.db) : FrozenWhileLive (w.view i) := by
  rintro a ⟨id, d, hd, rfl, hs⟩
  rcases live_of_view h hg hd hs with ⟨d₀, hrow, hon, hs₀⟩ | ⟨r, hgot, -, hid, hmem⟩
  · obtain ⟨r₀, hr₀, hfrozen⟩ := hgood d.agreementId ⟨id, d₀, hrow, hon, hs₀⟩
    rw [Frozen, Db.has_congr (lookup_view_agreement h hr₀)]
    rcases (deed_of_permitted h).lookup_agreement hr₀ with
      hsame | ⟨r, s, hgot, hid, hmem, how, hafter⟩
    · exact ⟨r₀, hsame, hfrozen⟩
    · rw [← hid] at hmem hr₀ hon
      obtain ⟨r₁, hr₁, hstatus⟩ := (holds_of_grounded hg hmem rfl hgot rfl rfl :
        StatusIs w.db r.id r.status)
      rw [hr₀] at hr₁
      cases hr₁
      refine ⟨_, hafter, ?_⟩
      rw [hstatus] at hfrozen
      exact frozen_of_turns h hg hd hs hrow hs₀ hon hfrozen how
  · rw [← hid]
    obtain ⟨r₀, hr₀, -⟩ := (holds_of_grounded hg hmem rfl hgot rfl rfl :
      StatusIs w.db r.id r.status)
    rw [Frozen, Db.has_congr (lookup_view_agreement h hr₀)]
    exact ⟨_, (deed_of_permitted h).lookup_turned hmem hr₀, rfl⟩

/-- Nobody who has seen the agreement as it is fills or settles a frozen
escrow. -/
theorem not_frozen_of_makes {e : Transaction} {a : Id}
    (he : .insert Table.transaction e ∈ decisions w i) (hguarded : e.reference.guardedBy = some a) :
    ¬ Frozen (w.view i) a := by
  rintro ⟨r₁, hr₁, hfrozen⟩
  cases (deed_of_permitted h).makes he with
  | lock fundable reference on type alone =>
      rw [reference] at hguarded
      cases hguarded
      have hon := subject_lock reference
      have hreads : ∀ n : Note, fundingRead (.insert Table.transaction e) n = true →
          freezeRead (.insert Table.transaction e) n = true := by
        intro n hn
        simp [freezeRead, hn]
      have hopen : (e.reference.settles).isNone = true := by rw [reference]; rfl
      obtain ⟨s, hshown, hcan⟩ := fundable
      obtain ⟨r₀, hr₀, hstatus⟩ := (holds_of_grounded hg he hon hshown (hreads _ hopen) rfl :
        StatusIs w.db a s)
      rcases hcan with hfundable | ⟨ids, hlisted, hnot⟩
      · rw [lookup_view_agreement h hr₀, alone, Db.applyAll_cons, Db.applyAll_nil,
          Write.lookup_apply_of_ne _ (by simp), hr₀] at hr₁
        cases hr₁
        rw [hstatus] at hfrozen
        cases s <;> simp_all [notFundable, AgreementStatus.frozen]
      · have hthere : a ∈ ids ↔ (w.db.lookup ⟨Table.agreement, a⟩).isSome :=
          holds_of_grounded hg he hon hlisted (hreads _ hopen)
        rw [hr₀] at hthere
        exact hnot (hthere.mpr rfl)
  | @settle r s locked released es got allowed ledger funded reference whole =>
      have hsettles : e.reference.settles = some (a, .completed) :=
        settles_of_guarded reference hguarded
      rw [hsettles] at reference
      cases reference
      have hstatus : StatusIs w.db r.id r.status :=
        holds_of_grounded hg he (subject_settling hsettles) got
          (by simp [freezeRead, settlingRead, hsettles]) rfl
      obtain ⟨r₀, hr₀, hs₀⟩ := hstatus
      obtain ⟨r₂, hr₂, hs₂⟩ := statusIs_settled (s := .completed) es ⟨r₀, hr₀, hs₀⟩
      rw [lookup_view_agreement h hr₀, whole, hr₂] at hr₁
      cases hr₁
      rw [hs₂] at hfrozen
      cases hfrozen

end Commit

/-- A commit whose decisions are made on what is still so. -/
theorem freeze_upheld : Diary.Upholds (D := register) (grounded freezeRead)
    (fun db _ => FrozenWhileLive db) RespectsFreeze where
  toLasts := Diary.lasts_of_db FrozenWhileLive
  same db _ _ := fun t ht a _ hnew => absurd ⟨t, ht, rfl⟩ hnew
  commit w o i c h hg hgood := by
    have hfrozen := frozenWhileLive_view h hg hgood
    refine ⟨fun t ht a hguarded hnew hlive => ?_, hfrozen⟩
    rcases entry_of_view h ht with ⟨t₀, ht₀, hmark⟩ | ⟨e, he, hmark⟩ | ⟨hnot, -⟩
    · exact hnew ⟨t₀, ht₀, congrArg (·.1) hmark⟩
    · have href : e.reference = t.reference := congrArg (·.1) hmark
      rw [← href] at hguarded
      exact not_frozen_of_makes h hg he hguarded (hfrozen a (hlive.disputed (h.wf.view_keys i)))
    · rw [Reference.escrow_of_guarded hguarded] at hnot
      cases hnot

/-! ## The freeze in every run -/

/-- In every run whose commits are decided on what is still so, no step
commits a lock or release entry of an agreement with a live dispute. -/
theorem respectsFreeze_run {settings : Settings} {db : Db adehun} {shared : Shared}
    (hk : db.KeysDistinct) (he : db.EntriesDistinct) (hf : FrozenWhileLive db)
    {ls : List (Label adehun Request)}
    (hg : (register.observer Request).RunMeets (grounded freezeRead) (handler settings)
      ({ world := { db, shared } } : Conf adehun Response) (fun _ => []) ls) :
    Conf.RunSteps (fun C C' => RespectsFreeze C.world.db C'.world.db) (handler settings)
      { world := { db, shared } } ls :=
  freeze_upheld.runSteps (register_serves settings)
    (Diary.sound_init (World.wf_init hk he) (fun i => ⟨rfl, fun l hl => by cases hl⟩) _) hf hg

/-! ### A release in the middle of a dispute

A release has read the agreement, active, when the depositor raises a
dispute. The dispute is open when the release overwrites the status and
commits its entries. -/

namespace PaidInDispute

def db : Db adehun
  | .user => [
      ({ id := 1, email := "ada@mail", name := "Ada" } : User),
      ({ id := 2, email := "bob@mail", name := "Bob" } : User),
      ({ id := 3, email := "eve@mail", name := "Eve", isAdmin := true } : User)]
  | .wallet => [
      ({ id := 10, userId := 1, escrowBalance := 10000 } : Wallet),
      ({ id := 11, userId := 2 } : Wallet)]
  | .agreement => [
      ({ id := 20
         userId := 1
         title := "Work"
         description := ""
         amount := 10000
         status := .active } : Agreement)]
  | .agreementParticipant => [
      ({ id := 21, agreementId := 20, userId := 1, role := .depositor
         status := .accepted } : AgreementParticipant),
      ({ id := 22, agreementId := 20, userId := 2, role := .beneficiary
         status := .accepted } : AgreementParticipant)]
  | .condition => [
      ({ id := 23
         agreementId := 20
         participantId := 21
         title := "Done"
         description := ""
         status := "approved" } : Condition)]
  | .transaction => [
      ({ id := 40
         userId := 1
         walletId := 10
         reference := .lock 20
         agreementId := some 20
         amount := 10000
         availableDelta := -10000
         escrowDelta := 10000
         balanceAfter := 0
         escrowAfter := 10000
         type := .escrowLock
         direction := .debit
         status := .completed } : Transaction)]
  | _ => []

/-- Up to where the release commits. -/
def script : List (Turn adehun Request) := [
  .arrive 0 (.release 2 (some "key") 20),
  .go 0 20 100,
  .arrive 1 (.raiseDispute 1 20 { category := .other, description := "" }),
  .go 1 100 1000,
  .go 0 21 2000]

/-- The dispute is raised first: the release is refused, and made when the
dispute has been resolved. -/
def inTurn : List (Turn adehun Request) := [
  .arrive 0 (.raiseDispute 1 20 { category := .other, description := "" }),
  .go 0 100 100,
  .arrive 1 (.release 2 (some "key") 20),
  .go 1 100 1000,
  .arrive 2 (.resolveDispute 3 109 ResolvedTwice.favourBeneficiary),
  .go 2 100 2000]

def start : Conf adehun Response := { world := { db := db, shared := {} } }

/-- The run of `inTurn`, and where it leads. -/
def run : List (Label adehun Request) × Conf adehun Response :=
  start.played (handler {}) inTurn

theorem db_keysDistinct : db.KeysDistinct := by
  intro t
  cases t <;> decide

theorem db_entriesDistinct : db.EntriesDistinct := by
  refine Db.entriesDistinct_of_pairwise fun t => ?_
  cases t <;> decide

theorem db_frozenWhileLive : FrozenWhileLive db := by
  rintro a ⟨id, d, hd, -⟩
  cases Db.lookup_mem hd

theorem grounded_run : (register.observer Request).RunMeets (grounded freezeRead) (handler {})
    start (fun _ => []) run.1 :=
  Observer.runMeets_of_test (grounded.test freezeRead) (by decide +kernel)

end PaidInDispute

/-- A script after which a step commits the release of an agreement with a
live dispute. -/
theorem not_runSteps_of_play {settings : Settings} {C : Conf adehun Response} {a : Id}
    (ts : List (Turn adehun Request)) (l : Label adehun Request)
    (hbefore : ¬ Posted (C.play (handler settings) ts).2.world.db (.out (.release a)))
    (hafter : ((C.play (handler settings) ts).2.step (handler settings) l).any (fun C' =>
      decide (Posted C'.world.db (.out (.release a))) && decide (Live C'.world.db a)) = true) :
    ¬ ∀ ls, Conf.RunSteps (fun C C' => RespectsFreeze C.world.db C'.world.db)
      (handler settings) C ls := by
  intro h
  obtain ⟨C', hstep, hC⟩ := (Option.any_eq_true _ _).mp hafter
  rw [Bool.and_eq_true, decide_eq_true_eq, decide_eq_true_eq] at hC
  obtain ⟨⟨t, ht, href⟩, hlive⟩ := hC
  have hrespects := Conf.step_play h ts hstep
  refine hrespects t ht a ?_ ?_ hlive
  · rw [href]
    rfl
  · rw [href]
    exact hbefore

/-- No release while the dispute is live, and one after it. -/
theorem respectsFreeze_run_inTurn :
    Live (PaidInDispute.start.played (handler {})
      (PaidInDispute.inTurn.take 4)).2.world.db 20 ∧
    ¬ Posted (PaidInDispute.start.played (handler {})
      (PaidInDispute.inTurn.take 4)).2.world.db (.out (.release 20)) ∧
    Posted PaidInDispute.run.2.world.db (.out (.release 20)) ∧
    Conf.RunSteps (fun C C' => RespectsFreeze C.world.db C'.world.db) (handler {})
      PaidInDispute.start PaidInDispute.run.1 :=
  ⟨by decide +kernel, by decide +kernel, by decide +kernel,
    respectsFreeze_run PaidInDispute.db_keysDistinct PaidInDispute.db_entriesDistinct
      PaidInDispute.db_frozenWhileLive PaidInDispute.grounded_run⟩

/-- Over all runs a release can be committed while a dispute is open. -/
theorem not_respectsFreeze : ¬ ∀ (settings : Settings) (db : Db adehun) (shared : Shared),
    db.KeysDistinct → db.EntriesDistinct → FrozenWhileLive db →
    ∀ ls : List (Label adehun Request),
      Conf.RunSteps (fun C C' => RespectsFreeze C.world.db C'.world.db) (handler settings)
        ({ world := { db, shared } } : Conf adehun Response) ls := by
  intro h
  refine @not_runSteps_of_play {} { world := { db := PaidInDispute.db, shared := {} } } 20
    PaidInDispute.script (.exec 0 {}) ?_ ?_ (h {} PaidInDispute.db {} PaidInDispute.db_keysDistinct
      PaidInDispute.db_entriesDistinct PaidInDispute.db_frozenWhileLive)
  · decide +kernel
  · decide +kernel

end Adehun
