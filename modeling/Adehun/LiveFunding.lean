import Adehun.AgreementOver
import Adehun.EscrowOnce

/-!
# Money is locked into live agreements

Funding an agreement checks its status and then writes the ledger; ending it
checks the ledger, or does not, and then writes the status. No lock is taken
by both, so each can find the other's outcome missing and commit: the status
that funding goes by may even come from the cache.

Both checks are enough while what they have found is still so. The rest of
the argument is that of a cancellation: an agreement with nothing in escrow,
or with its escrow released, has no money locked into it, for a released one
is completed and not cancelled any more.
-/

namespace Adehun

open Sessions

/-- The agreement is completed, cancelled or refunded. -/
abbrev Over (db : Db adehun) (a : Id) : Prop :=
  db.Has Table.agreement (fun r : Agreement => r.status.terminal = true) a

theorem StatusIs.over {db : Db adehun} {a : Id} (h : StatusIs db a .cancelled) : Over db a := by
  obtain ⟨r, hr, hs⟩ := h
  refine ⟨r, hr, ?_⟩
  show r.status.terminal = true
  rw [hs]
  rfl

/-- No agreement is cancelled with money locked into it. -/
def NoneStranded (db : Db adehun) : Prop :=
  ∀ a, StatusIs db a .cancelled → ¬ Posted db (.lock a)

/-- What a transition of the committed tables must be: money is locked into
agreements that are not over, and no cancelled one has any. -/
def LocksLive (db db' : Db adehun) : Prop :=
  (∀ a, ¬ Posted db (.lock a) → Posted db' (.lock a) → ¬ Over db a) ∧ NoneStranded db'

/-- What the requests themselves see to: settled agreements have their
status, lock entries name their agreement, and no agreement was cancelled
when it was disputed. -/
structure OrderlyEscrow (db : Db adehun) : Prop where
  backed : Backed db
  named : ∀ t ∈ (db .transaction : List Transaction), ∀ a, t.reference = .lock a →
    t.agreementId = some a ∧ t.type = .escrowLock
  before : ∀ d ∈ (db .dispute : List Dispute), d.agreementStatusBefore ≠ .cancelled

/-- Everything that is checked before a status is written or an escrow filled
or settled. -/
def checked : Grounds := fun d n =>
  statusRead d n || disputeRead d n || fundingRead d n || settlingRead d n || ledgerRead d n

/-! ## OrderlyEscrow tables -/

section Commit

variable {w : World adehun} {o : Nat → List Note} {i : Nat} {c : Choice adehun}
  (h : register.Permitted w o i) (hg : (grounded checked o).exec w i .commit c)

include h

theorem named_view (hgood : OrderlyEscrow w.db) :
    ∀ t ∈ (w.view i .transaction : List Transaction), ∀ a, t.reference = .lock a →
      t.agreementId = some a ∧ t.type = .escrowLock := by
  intro t ht a href
  have hsame : ∀ e : Transaction, e.mark = t.mark → e.reference = .lock a →
      e.agreementId = some a ∧ e.type = .escrowLock → t.agreementId = some a ∧
        t.type = .escrowLock := by
    intro e hmark _ hlock
    exact ⟨(congrArg (·.2.1) hmark).symm.trans hlock.1, (congrArg (·.2.2) hmark).symm.trans hlock.2⟩
  rcases entry_of_view h ht with ⟨t₀, ht₀, hmark⟩ | ⟨e, he, hmark⟩ | ⟨hnot, -⟩
  · have href₀ : t₀.reference = .lock a := (congrArg (·.1) hmark).trans href
    exact hsame t₀ hmark href₀ (hgood.named t₀ ht₀ a href₀)
  · have href₀ : e.reference = .lock a := (congrArg (·.1) hmark).trans href
    refine hsame e hmark href₀ ?_
    cases (deed_of_permitted h).makes he with
    | lock fundable reference on type alone =>
        rw [href₀] at reference
        cases reference
        exact ⟨on, type⟩
    | settle got allowed ledger funded reference whole =>
        rw [href₀] at reference
        cases reference
  · rw [href] at hnot
    cases hnot

theorem before_view (hgood : OrderlyEscrow w.db) :
    ∀ d ∈ (w.view i .dispute : List Dispute), d.agreementStatusBefore ≠ .cancelled := by
  intro d hd
  rcases Db.mem_of_retains (fun d hd => (h.kept d hd).disputes) (h.wf.view_keys i) hd with
    ⟨d₀, hd₀, hsame⟩ | ⟨d₀, hd₀, hsame⟩
  · have hbefore : d₀.agreementStatusBefore = d.agreementStatusBefore := congrArg (·.2) hsame
    rw [← hbefore]
    exact hgood.before d₀ hd₀
  · have hbefore : d₀.agreementStatusBefore = d.agreementStatusBefore := congrArg (·.2) hsame
    rw [← hbefore, (deed_of_permitted h).raised (List.mem_filter.mpr ⟨hd₀, rfl⟩)]
    decide

include hg

/-- Settled agreements are left as they are. -/
theorem settled_view {a : Id} {s : AgreementStatus} (hs : s.settled = true)
    (hstatus : StatusIs w.db a s) : StatusIs (w.view i) a s := by
  obtain ⟨r₀, hr₀, rfl⟩ := hstatus
  rw [StatusIs, Db.has_congr (lookup_view_agreement h hr₀)]
  rcases (deed_of_permitted h).lookup_agreement hr₀ with
    hsame | ⟨r, s, hgot, rfl, hmem, how, hafter⟩
  · exact ⟨r₀, hsame, rfl⟩
  · refine ⟨_, hafter, ?_⟩
    obtain ⟨r₁, hr₁, hread⟩ := (holds_of_grounded hg hmem rfl hgot rfl rfl :
      StatusIs w.db r.id r.status)
    rw [hr₀] at hr₁
    cases hr₁
    rw [hread] at hs ⊢
    exact how.eq_of_settled hs

theorem backed_view (hgood : OrderlyEscrow w.db) : Backed (w.view i) := by
  intro id t ht a s hs
  rcases entry_of_view h (Db.lookup_mem ht) with ⟨t₀, ht₀, hmark⟩ | ⟨e, he, hmark⟩ | ⟨hnot, -⟩
  · have href : t₀.reference = t.reference := congrArg (·.1) hmark
    rw [← href] at hs
    exact settled_view h hg (settled_of_settles hs)
      (hgood.backed t₀.id t₀ (h.wf.keys.lookup ht₀) a s hs)
  · have href : e.reference = t.reference := congrArg (·.1) hmark
    rw [← href] at hs
    cases (deed_of_permitted h).makes he with
    | lock fundable reference on type alone =>
        rw [reference] at hs
        cases hs
    | @settle r s' locked released es got allowed ledger funded reference whole =>
        rw [hs] at reference
        cases reference
        have hstatus : StatusIs w.db r.id r.status :=
          holds_of_grounded hg he (subject_settling hs) got
            (by simp [checked, settlingRead, hs]) rfl
        obtain ⟨r₀, hr₀, hs₀⟩ := hstatus
        rw [StatusIs, Db.has_congr (lookup_view_agreement h hr₀), whole]
        exact statusIs_settled es ⟨r₀, hr₀, hs₀⟩
  · rw [Reference.escrow_of_settles hs] at hnot
    cases hnot

/-! ## Money locked -/

omit hg in
/-- Money is newly locked by an entry that has been decided on. -/
theorem exists_lock {a : Id} (hnew : ¬ Posted w.db (.lock a))
    (hposted : Posted (w.view i) (.lock a)) :
    ∃ e : Transaction, .insert Table.transaction e ∈ decisions w i ∧ e.reference = .lock a := by
  obtain ⟨t, ht, href⟩ := hposted
  rcases entry_of_view h ht with ⟨t₀, ht₀, hmark⟩ | ⟨e, he, hmark⟩ | ⟨hnot, -⟩
  · exact absurd ⟨t₀, ht₀, (congrArg (·.1) hmark).trans href⟩ hnew
  · exact ⟨e, he, (congrArg (·.1) hmark).trans href⟩
  · rw [href] at hnot
    cases hnot

/-- Money is locked into agreements that are there and can be funded. -/
theorem not_over_of_lock {e : Transaction} {a : Id}
    (he : .insert Table.transaction e ∈ decisions w i) (href : e.reference = .lock a) :
    ¬ Over w.db a := by
  cases (deed_of_permitted h).makes he with
  | lock fundable reference on type alone =>
      rw [href] at reference
      cases reference
      have hon := subject_lock href
      have hreads : ∀ n : Note, fundingRead (.insert Table.transaction e) n = true →
          checked (.insert Table.transaction e) n = true := by
        intro n hn
        simp [checked, hn]
      have hopen : e.reference.settles.isNone = true := by
        rw [href]
        rfl
      obtain ⟨s, hshown, hcan⟩ := fundable
      obtain ⟨r, hr, hs⟩ := (holds_of_grounded hg he hon hshown (hreads _ hopen) rfl :
        StatusIs w.db a s)
      rcases hcan with hfundable | ⟨ids, hlisted, hnot⟩
      · rintro ⟨r', hr', hover⟩
        rw [hr] at hr'
        cases hr'
        rw [hs] at hover
        cases s <;> simp_all [notFundable, AgreementStatus.terminal]
      · have hthere : a ∈ ids ↔ (w.db.lookup ⟨Table.agreement, a⟩).isSome :=
          holds_of_grounded hg he hon hlisted (hreads _ hopen)
        rw [hr] at hthere
        exact absurd (hthere.mpr rfl) hnot
  | settle got allowed ledger funded reference whole =>
      rw [href] at reference
      cases reference

/-- An agreement is cancelled by somebody who has seen that it is not, and that
nothing is in its escrow. -/
theorem not_posted_of_turns {r r₀ : Agreement} {s : AgreementStatus} (hgood : OrderlyEscrow w.db)
    (hr₀ : w.db.lookup ⟨Table.agreement, r.id⟩ = some r₀) (hstatus : r₀.status = r.status)
    (hmem : .update Table.agreement r.id (setStatus s) ∈ decisions w i)
    (how : Turns (o i) (decisions w i) r s) (hs : s = .cancelled) :
    ¬ Posted (w.view i) (.lock r.id) := by
  intro hposted
  cases how with
  | accept pending next => rcases next with rfl | rfl <;> cases hs
  | raise active => cases hs
  | restore p seen unresolved on disputed ends ruled =>
      have hstill : w.db.lookup ⟨Table.dispute, _⟩ = some _ :=
        holds_of_grounded hg ruled rfl seen rfl rfl
      exact hgood.before _ (Db.lookup_mem hstill) hs
  | settle allowed =>
      subst hs
      cases allowed
  | cancel live spare alone =>
      obtain ⟨locked, released, hledger, hspare⟩ := spare
      have hcounts : (r.id ∈ locked ↔ r.id ∈ lockedIn w.db) ∧
          (r.id ∈ released ↔ r.id ∈ releasedIn w.db) :=
        holds_of_grounded hg hmem rfl hledger rfl
      rcases hspare with hunlocked | hreleased
      · have hold : Posted w.db (.lock r.id) := by
          by_contra hnew
          obtain ⟨e, he, -⟩ := exists_lock h hnew hposted
          exact alone e he
        obtain ⟨t, ht, href⟩ := hold
        obtain ⟨hon, htype⟩ := hgood.named t ht r.id href
        exact hunlocked (hcounts.1.mpr (mem_lockedIn.mpr ⟨t, ht, hon, htype⟩))
      · obtain ⟨t, ht, href⟩ := mem_releasedIn.mp (hcounts.2.mp hreleased)
        obtain ⟨r₁, hr₁, hcompleted⟩ := hgood.backed t.id t (h.wf.keys.lookup ht) r.id .completed
          (by rw [href]; rfl)
        rw [hr₀] at hr₁
        cases hr₁
        rw [hstatus] at hcompleted
        rw [hcompleted] at live
        rcases live with hlive | hlive <;> cases hlive

theorem noneStranded_view (hnone : NoneStranded w.db) (hgood : OrderlyEscrow w.db) :
    NoneStranded (w.view i) := by
  rintro a ⟨r, hr, hcancelled⟩ hposted
  cases hr₀ : w.db.lookup (⟨Table.agreement, a⟩ : Key adehun) with
  | none =>
      -- an agreement that was not there is a new one
      have hno : ∀ p, .update Table.agreement a p ∉ decisions w i := by
        intro p hmem
        obtain ⟨r', hgot, rfl⟩ := (deed_of_permitted h).got_of_update hmem
        obtain ⟨r₁, hr₁, -⟩ := (holds_of_grounded hg hmem rfl hgot rfl rfl :
          StatusIs w.db r'.id r'.status)
        rw [hr₀] at hr₁
        cases hr₁
      rw [pending_of_new h hr₀ hno hr] at hcancelled
      cases hcancelled
  | some r₀ =>
      rw [lookup_view_agreement h hr₀] at hr
      rcases (deed_of_permitted h).lookup_agreement hr₀ with
        hsame | ⟨r₁, s, hgot, rfl, hmem, how, hafter⟩
      · rw [hsame] at hr
        cases hr
        have hbefore : StatusIs w.db a .cancelled := ⟨r, hr₀, hcancelled⟩
        obtain ⟨e, he, href⟩ := exists_lock h (hnone a hbefore) hposted
        exact not_over_of_lock h hg he href hbefore.over
      · obtain ⟨r₂, hr₂, hstatus⟩ := (holds_of_grounded hg hmem rfl hgot rfl rfl :
          StatusIs w.db r₁.id r₁.status)
        rw [hr₀] at hr₂
        cases hr₂
        rw [hafter] at hr
        cases hr
        exact not_posted_of_turns h hg hgood hr₀ hstatus hmem how hcancelled hposted

end Commit

/-- A commit whose decisions are made on what is still so. -/
theorem locksLive_upheld : Diary.Upholds (D := register) (grounded checked)
    (fun db _ => NoneStranded db ∧ OrderlyEscrow db) LocksLive where
  toLasts := Diary.lasts_of_db fun db => NoneStranded db ∧ OrderlyEscrow db
  same db _ hgood := ⟨fun a hbefore hafter => absurd hafter hbefore, hgood.1⟩
  commit w o i c h hg hgood := by
    have hnone := noneStranded_view h hg hgood.1 hgood.2
    refine ⟨⟨fun a hbefore hafter => ?_, hnone⟩, hnone, backed_view h hg hgood.2,
      named_view h hgood.2, before_view h hgood.2⟩
    obtain ⟨e, he, href⟩ := exists_lock h hbefore hafter
    exact not_over_of_lock h hg he href

/-- In every run whose commits are decided on what is still so, money is
locked into live agreements only, and no cancelled agreement has any. -/
theorem locksLive_run {settings : Settings} {db : Db adehun} {shared : Shared}
    (hk : db.KeysDistinct) (he : db.EntriesDistinct) (hnone : NoneStranded db)
    (ho : OrderlyEscrow db)
    {ls : List (Label adehun Request)}
    (hg : (register.observer Request).RunMeets (grounded checked) (handler settings)
      ({ world := { db, shared } } : Conf adehun Response) (fun _ => []) ls) :
    Conf.RunSteps (fun C C' => LocksLive C.world.db C'.world.db) (handler settings)
      { world := { db, shared } } ls :=
  locksLive_upheld.runSteps (register_serves settings)
    (Diary.sound_init (World.wf_init hk he) (fun i => ⟨rfl, fun l hl => by cases hl⟩) _)
    ⟨hnone, ho⟩ hg

/-! ## A run without the condition -/

namespace FundedAfterCancel

/-- Ada can afford the active agreement she is the depositor of. -/
def db : Db adehun
  | .user => [
      ({ id := 1, name := "Ada", email := "ada@mail" } : User),
      ({ id := 2, name := "Bob", email := "bob@mail" } : User)]
  | .wallet => [
      ({ id := 10, userId := 1, availableBalance := 10000 } : Wallet),
      ({ id := 11, userId := 2 } : Wallet)]
  | .agreement => [
      ({ id := 20
         userId := 1
         title := "Work"
         description := ""
         amount := 10000
         status := .active } : Agreement)]
  | .agreementParticipant => [
      ({ id := 21, agreementId := 20, userId := 1, role := .depositor
         status := .accepted } : AgreementParticipant),
      ({ id := 22, agreementId := 20, userId := 2, role := .beneficiary
         status := .accepted } : AgreementParticipant)]
  | _ => []

/-- Up to where the funding commits: it has found the agreement active and
not funded yet when the agreement is cancelled. -/
def script : List (Turn adehun Request) := [
  .arrive 0 (.fundAgreement 1 (some "key") 20),
  .go 0 16 100,
  .arrive 1 (.cancelAgreement 1 20),
  .go 1 100 1000,
  .go 0 11 2000]

/-- The agreement is funded first, and then not cancelled any more. -/
def inTurn : List (Turn adehun Request) := [
  .arrive 0 (.fundAgreement 1 (some "key") 20),
  .go 0 100 100,
  .arrive 1 (.cancelAgreement 1 20),
  .go 1 100 1000]

def start : Conf adehun Response := { world := { db := db, shared := {} } }

/-- The run of `inTurn`, and where it leads. -/
def run : List (Label adehun Request) × Conf adehun Response :=
  start.played (handler {}) inTurn

theorem db_keysDistinct : db.KeysDistinct := by
  intro t
  cases t <;> decide

theorem db_entriesDistinct : db.EntriesDistinct := by
  refine Db.entriesDistinct_of_pairwise fun t => ?_
  cases t <;> decide

theorem db_noneStranded : NoneStranded db := by
  rintro a - ⟨t, ht, -⟩
  cases ht

theorem db_orderly : OrderlyEscrow db where
  backed := by
    intro id t ht
    cases Db.lookup_mem ht
  named := by
    intro t ht
    cases ht
  before := by
    intro d hd
    cases hd

theorem grounded_run : (register.observer Request).RunMeets (grounded checked) (handler {})
    start (fun _ => []) run.1 :=
  Observer.runMeets_of_test (grounded.test checked) (by decide +kernel)

/-- The agreement is not cancelled with money locked into it. -/
def notStranded (_ C' : Conf adehun Response) : Bool :=
  !(decide (StatusIs C'.world.db 20 .cancelled) && decide (Posted C'.world.db (.lock 20)))

theorem notStranded_of_locksLive (C C' : Conf adehun Response)
    (h : LocksLive C.world.db C'.world.db) : notStranded C C' = true := by
  rw [notStranded, Bool.not_eq_true', Bool.and_eq_false_iff, decide_eq_false_iff_not,
    decide_eq_false_iff_not, ← not_and_or]
  rintro ⟨hcancelled, hposted⟩
  exact h.2 20 hcancelled hposted

end FundedAfterCancel

/-- The money is locked and the agreement stays active. -/
theorem locksLive_run_inTurn :
    Posted FundedAfterCancel.run.2.world.db (.lock 20) ∧
    StatusIs FundedAfterCancel.run.2.world.db 20 .active ∧
    Conf.RunSteps (fun C C' => LocksLive C.world.db C'.world.db) (handler {})
      FundedAfterCancel.start FundedAfterCancel.run.1 :=
  ⟨by decide +kernel, by decide +kernel,
    locksLive_run FundedAfterCancel.db_keysDistinct FundedAfterCancel.db_entriesDistinct
      FundedAfterCancel.db_noneStranded FundedAfterCancel.db_orderly
      FundedAfterCancel.grounded_run⟩

/-- Over all runs money can be locked into an agreement that was cancelled. -/
theorem not_locksLive : ¬ ∀ (settings : Settings) (db : Db adehun) (shared : Shared),
    db.KeysDistinct → db.EntriesDistinct → NoneStranded db → OrderlyEscrow db →
    ∀ ls : List (Label adehun Request),
      Conf.RunSteps (fun C C' => LocksLive C.world.db C'.world.db) (handler settings)
        ({ world := { db, shared } } : Conf adehun Response) ls := by
  intro h
  refine Conf.not_runSteps_of_play FundedAfterCancel.notStranded_of_locksLive
    FundedAfterCancel.script (.exec 0 {}) ?_
    (h {} FundedAfterCancel.db {} FundedAfterCancel.db_keysDistinct
      FundedAfterCancel.db_entriesDistinct FundedAfterCancel.db_noneStranded
      FundedAfterCancel.db_orderly)
  decide +kernel

end Adehun
