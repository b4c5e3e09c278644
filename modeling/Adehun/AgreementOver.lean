import Adehun.Grounds

/-!
# An agreement that is over stays over

Seven operations write the status of an agreement. Each checks it first, on
an object it has read, and then assigns a value; accepting and declining
even commit in between. An agreement that somebody else finishes after the
check is overwritten. What the operations do check is enough as long as it
lasts: where every status that is committed has been decided on a row that
is still as it was read, no agreement that is over changes, but for the
refund of a cancelled one.
-/

namespace Adehun

open Sessions

/-- The statuses of an agreement that is over. -/
def AgreementStatus.terminal (s : AgreementStatus) : Bool :=
  s = .completed || s = .cancelled || s = .refunded

/-- What may follow a status: an agreement that is over stays as it is, but
a cancelled one may be refunded by an administrator. -/
def AgreementStatus.leadsTo (s s' : AgreementStatus) : Bool :=
  !s.terminal || s' = s || (s = .cancelled && s' = .refunded)

theorem AgreementStatus.leadsTo_iff {s s' : AgreementStatus} :
    s.leadsTo s' ↔ s.terminal = false ∨ s' = s ∨ s = .cancelled ∧ s' = .refunded := by
  simp [leadsTo, or_assoc]

/-- What a transition of the committed tables must be: whatever agreement was
over is as it was, or refunded after being cancelled. -/
def KeepsOver (db db' : Db adehun) : Prop :=
  ∀ (a : Id) (r : Agreement), db.lookup ⟨Table.agreement, a⟩ = some r → r.status.terminal →
    ∃ r' : Agreement, db'.lookup ⟨Table.agreement, a⟩ = some r' ∧
      (r'.status = r.status ∨ r.status = .cancelled ∧ r'.status = .refunded)

/-- The checks leave a status for another only where it may. -/
theorem Turns.leadsTo {ns : List Note} {ds : List (Write adehun)} {r : Agreement}
    {s : AgreementStatus} (h : Turns ns ds r s) : r.status.leadsTo s := by
  cases h with
  | accept pending next => simp [AgreementStatus.leadsTo, AgreementStatus.terminal, pending]
  | cancel live spare alone =>
      rcases live with hs | hs <;> simp [AgreementStatus.leadsTo, AgreementStatus.terminal, hs]
  | raise active => simp [AgreementStatus.leadsTo, AgreementStatus.terminal, active]
  | restore p seen unresolved on disputed ends ruled =>
      simp [AgreementStatus.leadsTo, AgreementStatus.terminal, disputed]
  | settle allowed =>
      cases s <;> cases hs : r.status <;> simp_all [settleable, AgreementStatus.leadsTo,
        AgreementStatus.terminal]

/-- A commit whose statuses are decided on what is still so. -/
theorem keepsOver_upheld :
    Diary.Upholds (D := register) (grounded statusRead) (fun _ _ => True) KeepsOver where
  toLasts := Diary.lasts_of_db fun _ => True
  same _ _ _ _ r hr _ := ⟨r, hr, Or.inl rfl⟩
  commit w o i c h hg _ := by
    refine ⟨?_, trivial⟩
    intro a r₀ hr₀ hover
    rw [lookup_view_agreement h hr₀]
    rcases (deed_of_permitted h).lookup_agreement hr₀ with
      hsame | ⟨r, s, hgot, rfl, hmem, hturns, hrow⟩
    · exact ⟨r₀, hsame, Or.inl rfl⟩
    · have hstatus : StatusIs w.db r.id r.status := holds_of_grounded hg hmem rfl hgot rfl rfl
      obtain ⟨r', hr', hs⟩ := hstatus
      rw [hr₀] at hr'
      cases hr'
      refine ⟨_, hrow, ?_⟩
      have hleads := hturns.leadsTo
      rw [← hs] at hleads
      rcases AgreementStatus.leadsTo_iff.mp hleads with hopen | hrest
      · rw [hover] at hopen
        cases hopen
      · exact hrest

/-- In every run whose statuses are decided on rows that are still as they were
read when they are committed, every step keeps the agreements that are over. -/
theorem keepsOver_run {settings : Settings} {db : Db adehun} {shared : Shared}
    (hk : db.KeysDistinct) (he : db.EntriesDistinct) {ls : List (Label adehun Request)}
    (hg : (register.observer Request).RunMeets (grounded statusRead) (handler settings)
      ({ world := { db, shared } } : Conf adehun Response) (fun _ => []) ls) :
    Conf.RunSteps (fun C C' => KeepsOver C.world.db C'.world.db) (handler settings)
      { world := { db, shared } } ls :=
  keepsOver_upheld.runSteps (register_serves settings)
    (Diary.sound_init (World.wf_init hk he) (fun i => ⟨rfl, fun l hl => by cases hl⟩) _) trivial hg

/-! ### Accepted after it was cancelled

The invited side accepts a pending agreement and has committed its part when
the other side cancels. The second half of accepting counts two acceptances
and makes the cancelled agreement active. -/

namespace AcceptedAfterCancel

def db : Db adehun
  | .user => [
      ({ id := 1, email := "ada@mail", name := "Ada" } : User),
      ({ id := 2, email := "bob@mail", name := "Bob" } : User)]
  | .agreement => [
      ({ id := 20, userId := 1, title := "Work", description := "", amount := 10000 } :
        Agreement)]
  | .agreementParticipant => [
      ({ id := 21, agreementId := 20, userId := 1, role := .depositor
         status := .accepted } : AgreementParticipant)]
  | .invitation => [
      ({ id := 25
         email := "bob@mail"
         token := 1
         agreementId := 20
         role := .beneficiary
         invitedBy := 1
         expiresAt := 1000 } : Invitation)]
  | _ => []

/-- Up to where the acceptance commits the status. -/
def script : List (Turn adehun Request) := [
  .arrive 0 (.acceptAgreement 2 (some "key") 20),
  .go 0 19 100,
  .arrive 1 (.cancelAgreement 1 20),
  .go 1 100 1000,
  .go 0 6 2000]

/-- The acceptance runs to its end before the agreement is cancelled. -/
def inTurn : List (Turn adehun Request) := [
  .arrive 0 (.acceptAgreement 2 (some "key") 20),
  .go 0 100 100,
  .arrive 1 (.cancelAgreement 1 20),
  .go 1 100 1000,
  .arrive 2 (.rejectAgreement 2 (some "again") 20),
  .go 2 100 2000]

def start : Conf adehun Response := { world := { db := db, shared := {} } }

/-- The run of `inTurn`, and where it leads. -/
def run : List (Label adehun Request) × Conf adehun Response :=
  start.played (handler {}) inTurn

theorem db_keysDistinct : db.KeysDistinct := by
  intro t
  cases t <;> decide

theorem db_entriesDistinct : db.EntriesDistinct := by
  refine Db.entriesDistinct_of_pairwise fun t => ?_
  cases t <;> decide

theorem grounded_run : (register.observer Request).RunMeets (grounded statusRead) (handler {})
    start (fun _ => []) run.1 :=
  Observer.runMeets_of_test (grounded.test statusRead) (by decide +kernel)

/-- The status of the agreement. -/
def status (db : Db adehun) : Option AgreementStatus :=
  (db.lookup ⟨Table.agreement, 20⟩).map fun r : Agreement => r.status

/-- The agreement is not taken from cancelled to active. -/
def staysCancelled (C C' : Conf adehun Response) : Bool :=
  !(status C.world.db = some .cancelled && status C'.world.db = some .active)

theorem staysCancelled_of_keepsOver (C C' : Conf adehun Response)
    (h : KeepsOver C.world.db C'.world.db) : staysCancelled C C' = true := by
  rw [staysCancelled, Bool.not_eq_true', Bool.and_eq_false_iff, decide_eq_false_iff_not,
    decide_eq_false_iff_not, ← not_and_or]
  rintro ⟨hbefore, hafter⟩
  obtain ⟨r, hr, hcancelled⟩ := Option.map_eq_some_iff.mp hbefore
  obtain ⟨r', hr', hactive⟩ := Option.map_eq_some_iff.mp hafter
  obtain ⟨r'', hr'', hkept⟩ := h 20 r hr (by rw [hcancelled]; rfl)
  rw [hr'] at hr''
  cases hr''
  rw [hactive, hcancelled] at hkept
  rcases hkept with hkept | ⟨-, hkept⟩ <;> cases hkept

end AcceptedAfterCancel

/-- The agreement is accepted, then cancelled, and no longer declined. -/
theorem keepsOver_run_inTurn :
    AcceptedAfterCancel.status (AcceptedAfterCancel.start.played (handler {})
        (AcceptedAfterCancel.inTurn.take 2)).2.world.db = some .active ∧
      AcceptedAfterCancel.status AcceptedAfterCancel.run.2.world.db = some .cancelled ∧
      Conf.RunSteps (fun C C' => KeepsOver C.world.db C'.world.db) (handler {})
        AcceptedAfterCancel.start AcceptedAfterCancel.run.1 :=
  ⟨by decide +kernel, by decide +kernel, keepsOver_run AcceptedAfterCancel.db_keysDistinct
    AcceptedAfterCancel.db_entriesDistinct AcceptedAfterCancel.grounded_run⟩

/-- Over all runs a cancelled agreement can become active. -/
theorem not_keepsOver : ¬ ∀ (settings : Settings) (db : Db adehun) (shared : Shared),
    db.KeysDistinct → db.EntriesDistinct → ∀ ls : List (Label adehun Request),
      Conf.RunSteps (fun C C' => KeepsOver C.world.db C'.world.db) (handler settings)
        ({ world := { db, shared } } : Conf adehun Response) ls := by
  intro h
  refine Conf.not_runSteps_of_play AcceptedAfterCancel.staysCancelled_of_keepsOver
    AcceptedAfterCancel.script (.exec 0 {}) ?_
    (h {} AcceptedAfterCancel.db {} AcceptedAfterCancel.db_keysDistinct
      AcceptedAfterCancel.db_entriesDistinct)
  decide +kernel

end Adehun
