import Adehun.Grounds
import Adehun.Routine.Disciplined

/-!
# Escrow is settled once

A release and a refund of one agreement use different references, so the
unique index does not keep them apart. What does is the agreement's status:
every entry of a release is committed with or after the status `completed`,
and that of a refund with or after `refunded`. The entries of both would
need a row that has been in both, and the argument fails exactly where a
settled row is overwritten: the status is checked on an object read without
a lock. `keepsSettled` is the condition under which it is right: no update
sent changes the status of a row that is already settled.
-/

namespace Adehun

open Sessions

/-! ## Settled agreements -/

/-- The statuses an agreement does not leave. -/
def AgreementStatus.settled (s : AgreementStatus) : Bool :=
  s = .completed || s = .refunded

theorem settled_of_settles {r : Reference} {a : Id} {s : AgreementStatus}
    (h : r.settles = some (a, s)) : s.settled = true := by
  cases r with
  | out g =>
      cases g
      cases h
      rfl
  | into g =>
      cases g
      cases h
      rfl
  | refund b =>
      cases h
      rfl
  | deposit _ => cases h
  | withdrawal _ => cases h
  | reversal _ => cases h
  | lock _ => cases h

theorem Reference.escrow_of_settles {r : Reference} {x : Id × AgreementStatus}
    (h : r.settles = some x) : r.escrow = true := by
  cases r with
  | lock a => rfl
  | _ => exact Option.isSome_iff_exists.mpr ⟨x, h⟩

/-- A settled agreement is settled again as it was, or not at all. -/
theorem Turns.eq_of_settled {ns : List Note} {ds : List (Write adehun)} {r : Agreement}
    {s : AgreementStatus} (h : Turns ns ds r s) (hr : r.status.settled = true) :
    s = r.status := by
  cases h with
  | accept pending next =>
      rw [pending] at hr
      cases hr
  | cancel live spare alone =>
      rcases live with hs | hs <;>
      · rw [hs] at hr
        cases hr
  | raise active =>
      rw [active] at hr
      cases hr
  | restore p seen unresolved on disputed ends ruled =>
      rw [disputed] at hr
      cases hr
  | settle allowed =>
      cases s <;> cases hs : r.status <;> simp_all [settleable, AgreementStatus.settled]

/-- Every entry that settles an agreement has the agreement's status behind
it. -/
def Backed (db : Db adehun) : Prop :=
  ∀ (id : Id) (t : Transaction), db.lookup ⟨Table.transaction, id⟩ = some t →
    ∀ a s, t.reference.settles = some (a, s) → StatusIs db a s

/-- The agreement has this status in what the session sees, or will when
everything staged is sent. -/
def Sure (i : Nat) (w : World adehun) (a : Id) (s : AgreementStatus) : Prop :=
  StatusIs (w.view i) a s ∨
    Write.Pending Table.agreement (fun r : Agreement => r.status = s) a (w.tx i).dirty

/-- How far a session has come with settling an agreement. -/
inductive Stance
  | idle
  | ready (a : Id) (s : AgreementStatus)
  | moving (a : Id) (s : AgreementStatus)

/-- The agreement a session is about to settle. -/
def Stance.aim : Stance → Option (Id × AgreementStatus)
  | .idle => none
  | .ready a s | .moving a s => some (a, s)

/-- The agreement whose entries a session may have written. -/
def Stance.pays : Stance → Option (Id × AgreementStatus)
  | .moving a s => some (a, s)
  | _ => none

/-- A write that keeps the references of entries, and deletes no entry and
no agreement. -/
def Lasting (d : Write adehun) : Prop :=
  d.Retains Table.transaction Transaction.reference ∧
    d.Retains Table.agreement fun _ : Agreement => ()

/-- A session's writes are lasting, it undoes no settled status, the objects
it has of settled agreements are right, and it writes settling entries for
one agreement only, whose status it is sure of. -/
structure Stands (g : Stance) (i : Nat) (w : World adehun) : Prop where
  lasting : ∀ d ∈ asked w i, Lasting d
  preserves : ∀ s : AgreementStatus, s.settled →
    w.Preserves Table.agreement (fun r : Agreement => r.status = s) i
  objects : ∀ (a : Id) (o : Agreement), (w.tx i).objects ⟨Table.agreement, a⟩ = some o →
    o.id = a ∧ (o.status.settled → Sure i w a o.status)
  entries : ∀ t : Transaction, Write.insert Table.transaction t ∈ asked w i →
    ∀ a s, t.reference.settles = some (a, s) → g.pays = some (a, s)
  sure : ∀ a s, g.aim = some (a, s) → s.settled ∧ Sure i w a s

/-- No update that is sent changes the status of a settled agreement. -/
def keepsSettled : Guard adehun where
  flush w i := ∀ a p ds, (w.tx i).dirty = Write.update Table.agreement a p :: ds →
    ∀ r : Agreement, (w.view i).lookup ⟨Table.agreement, a⟩ = some r → r.status.settled →
      (p.run r : Agreement).status = r.status

/-- `keepsSettled`, tested. -/
def keepsSettled.test : keepsSettled.Test where
  flush w i :=
    match (w.tx i).dirty with
    | .update .agreement a p :: _ =>
        match (w.view i).lookup ⟨Table.agreement, a⟩ with
        | none => true
        | some r =>
            !(r : Agreement).status.settled || decide ((p.run r : Agreement).status = r.status)
    | _ => true
  exec_sound _ := trivial
  flush_sound := by
    intro w i h a p ds hd r hr hs
    rw [hd] at h
    simp only [hr] at h
    rw [hs] at h
    simpa using h

/-! ## What a session is sure of -/

theorem Sure.of_eq {i : Nat} {w w' : World adehun} {a : Id} {s : AgreementStatus}
    (h : Sure i w a s)
    (hview : (w'.view i).lookup ⟨Table.agreement, a⟩ =
      (w.view i).lookup ⟨Table.agreement, a⟩)
    (hdirty : (w'.tx i).dirty = (w.tx i).dirty) : Sure i w' a s := by
  rcases h with h | h
  · exact Or.inl ((Db.has_congr hview).mpr h)
  · refine Or.inr ?_
    rw [hdirty]
    exact h

/-- Staging anything else about other rows leaves a session as sure as it
was. -/
theorem Sure.stage {i : Nat} {w : World adehun} {a : Id} {s : AgreementStatus}
    {d : Write adehun} (h : Sure i w a s) (hd : d.key ≠ ⟨Table.agreement, a⟩) :
    Sure i (w.stage i d) a s := by
  have hview : (w.stage i d).view i = w.view i := World.view_congr rfl (World.stage_writes w i d)
  rcases h with h | h
  · refine Or.inl ?_
    rw [hview]
    exact h
  · refine Or.inr ?_
    rw [World.stage_dirty]
    exact h.concat hd

/-- A status staged. -/
theorem sure_assigned (i : Nat) (w : World adehun) (a : Id) (s : AgreementStatus) :
    Sure i (w.stage i (.update Table.agreement a (setStatus s))) a s := by
  refine Or.inr ?_
  rw [World.stage_dirty]
  exact Write.pending_self fun _ => rfl

/-- Under the guard, a settled row keeps its status when a write is sent. -/
theorem statusIs_apply {i : Nat} {w : World adehun} {a : Id} {s : AgreementStatus}
    {d : Write adehun} {ds : List (Write adehun)} (hg : keepsSettled.flush w i)
    (hdirty : (w.tx i).dirty = d :: ds) (hr : d.refusal (w.view i) = none)
    (hl : Lasting d) (hs : s.settled) (h : StatusIs (w.view i) a s) :
    StatusIs (d.apply (w.view i)) a s := by
  by_cases hk : d.key = ⟨Table.agreement, a⟩
  · obtain ⟨r, hrow, rfl⟩ := h
    cases d with
    | insert t r' =>
        cases hk
        rw [(Write.insert_free hr).1] at hrow
        cases hrow
    | update t id p =>
        cases hk
        refine ⟨p.run r, ?_, hg a p ds hdirty r hrow hs⟩
        rw [Write.lookup_update, hrow]
        simp
    | delete t id =>
        cases hk
        exact absurd rfl hl.2
  · exact (Db.has_congr (Write.lookup_apply_of_ne _ hk)).mpr h

/-- Sending what comes first leaves a session sure. -/
theorem Sure.send {i : Nat} {w : World adehun} {a : Id} {s : AgreementStatus}
    {d : Write adehun} {ds : List (Write adehun)} (h : Sure i w a s)
    (hg : keepsSettled.flush w i) (hdirty : (w.tx i).dirty = d :: ds)
    (hr : d.refusal (w.view i) = none) (hl : Lasting d) (hs : s.settled) :
    Sure i ((w.put i d).setTx i
      { w.tx i with writes := (w.tx i).writes ++ [d], dirty := ds }) a s := by
  have hview : ((w.put i d).setTx i
      { w.tx i with writes := (w.tx i).writes ++ [d], dirty := ds }).view i =
      d.apply (w.view i) := by
    rw [← World.put_view w i d]
    exact World.view_congr rfl (by simp)
  rw [Sure, hview]
  rcases h with h | h
  · exact Or.inl (statusIs_apply hg hdirty hr hl hs h)
  · rw [hdirty] at h
    rcases h.tail with h | ⟨p, rfl, hp, -⟩
    · exact Or.inr (by simpa using h)
    · exact Or.inl (Write.has_update hp hr)

/-! ## The discipline -/

theorem Stands.congr {g : Stance} {i : Nat} {w w' : World adehun} (h : Stands g i w)
    (hdb : w'.db = w.db) (hwrites : (w'.tx i).writes = (w.tx i).writes)
    (hdirty : (w'.tx i).dirty = (w.tx i).dirty)
    (hobjects : ∀ (a : Id) (o : Agreement),
      (w'.tx i).objects ⟨Table.agreement, a⟩ = some o →
      (w.tx i).objects ⟨Table.agreement, a⟩ = some o ∨
        (w.view i).lookup ⟨Table.agreement, a⟩ = some o) : Stands g i w' := by
  have hasked : asked w' i = asked w i := by rw [asked, asked, hwrites, hdirty]
  have hsure : ∀ {a s}, Sure i w a s → Sure i w' a s := fun hs =>
    hs.of_eq (by rw [World.view_congr hdb hwrites]) hdirty
  refine ⟨?_, fun s hs => (h.preserves s hs).congr hdb hwrites, ?_, ?_, ?_⟩
  · rw [hasked]
    exact h.lasting
  · intro a o ho
    rcases hobjects a o ho with ho | ho
    · exact ⟨(h.objects a o ho).1, fun hs => hsure ((h.objects a o ho).2 hs)⟩
    · have hid := Db.lookup_id ho
      exact ⟨hid, fun _ => hsure (Or.inl ⟨o, ho, rfl⟩)⟩
  · rw [hasked]
    exact h.entries
  · exact fun a s ha => ⟨(h.sure a s ha).1, hsure (h.sure a s ha).2⟩

theorem Stands.send {g : Stance} {i : Nat} {w : World adehun} {d : Write adehun}
    {ds : List (Write adehun)} (h : Stands g i w) (hg : keepsSettled.flush w i)
    (hdirty : (w.tx i).dirty = d :: ds) (hr : d.refusal (w.view i) = none) :
    Stands g i ((w.put i d).setTx i
      { w.tx i with writes := (w.tx i).writes ++ [d], dirty := ds }) := by
  have hl : Lasting d := h.lasting d (by rw [asked, hdirty]; simp)
  have hasked : asked ((w.put i d).setTx i
      { w.tx i with writes := (w.tx i).writes ++ [d], dirty := ds }) i = asked w i := by
    simp [asked, hdirty]
  refine ⟨?_, ?_, ?_, ?_, ?_⟩
  · rw [hasked]
    exact h.lasting
  · intro s hs
    have hput : (w.put i d).Preserves Table.agreement (fun r : Agreement => r.status = s) i :=
      (h.preserves s hs).put fun a _ ha => statusIs_apply hg hdirty hr hl hs ha
    exact hput.congr rfl (by simp)
  · intro a o ho
    rw [World.setTx_tx_self] at ho
    exact ⟨(h.objects a o ho).1,
      fun hs => ((h.objects a o ho).2 hs).send hg hdirty hr hl hs⟩
  · rw [hasked]
    exact h.entries
  · exact fun a s ha =>
      ⟨(h.sure a s ha).1, (h.sure a s ha).2.send hg hdirty hr hl (h.sure a s ha).1⟩

theorem Stands.commit {g g' : Stance} {i j : Nat} {w : World adehun} (hne : j ≠ i)
    (hw : w.WF) (hi : Stands g i w) (hj : Stands g' j w) : Stands g' j (w.commit i) := by
  have htx : (w.commit i).tx j = w.tx j := World.commit_tx_of_ne w hne
  have hsure : ∀ {a s}, s.settled → Sure j w a s → Sure j (w.commit i) a s := by
    intro a s hs h
    rcases h with h | h
    · exact Or.inl (World.has_view_commit hne hw (hi.preserves s hs) h)
    · refine Or.inr ?_
      rw [htx]
      exact h
  refine ⟨?_, fun s hs => (hj.preserves s hs).commit hne hw, ?_, ?_, ?_⟩
  · rw [asked, htx]
    exact hj.lasting
  · rw [htx]
    exact fun a o ho => ⟨(hj.objects a o ho).1, fun hs => hsure hs ((hj.objects a o ho).2 hs)⟩
  · rw [asked, htx]
    exact hj.entries
  · exact fun a s ha => ⟨(hj.sure a s ha).1, hsure (hj.sure a s ha).1 (hj.sure a s ha).2⟩

/-- A session with nothing staged that stands for its entries may commit. -/
theorem Stands.backed {g : Stance} {i : Nat} {w : World adehun} (h : Stands g i w)
    (hgood : Backed w.db) (hd : (w.tx i).dirty = []) : Backed (w.view i) := by
  have hasked : asked w i = (w.tx i).writes := by rw [asked, hd, List.append_nil]
  intro id t ht a s hs
  have hretains : ∀ d ∈ (w.tx i).writes, d.Retains Table.transaction Transaction.reference := by
    intro d hd
    rw [← hasked] at hd
    exact (h.lasting d hd).1
  rcases Db.lookup_of_retains hretains ht with ⟨t₀, ht₀, href⟩ | ⟨t₀, ht₀, -, href⟩
  · rw [← href] at hs
    exact h.preserves s (settled_of_settles hs) a (hgood id t₀ ht₀ a s hs)
  · rw [← hasked] at ht₀
    rw [← href] at hs
    have hpays := h.entries t₀ ht₀ a s hs
    have haim : g.aim = some (a, s) := by
      cases g with
      | idle => cases hpays
      | ready _ _ => cases hpays
      | moving _ _ => exact hpays
    rcases (h.sure a s haim).2 with hsure | hsure
    · exact hsure
    · rw [hd] at hsure
      exact absurd hsure Write.not_pending_nil

theorem Stands.idle {g : Stance} {i : Nat} {w : World adehun} (h : Stands g i w)
    (hg : g.pays = none) : Stands .idle i w := by
  refine ⟨h.lasting, h.preserves, h.objects, ?_, fun a s ha => by cases ha⟩
  intro t ht a s hs
  have hpays := h.entries t ht a s hs
  rw [hg] at hpays
  cases hpays

theorem Stands.start {a : Id} {s : AgreementStatus} {i : Nat} {w : World adehun}
    (h : Stands (.ready a s) i w) : Stands (.moving a s) i w := by
  refine ⟨h.lasting, h.preserves, h.objects, ?_, h.sure⟩
  intro t ht a' s' hs
  have hpays := h.entries t ht a' s' hs
  cases hpays

/-- A write that an agreement's settling does not hang on, where the session
may make the entry it makes. -/
structure Beside (g : Stance) (d : Write adehun) : Prop where
  lasting : Lasting d
  table : d.key.table ≠ Table.agreement
  entry : ∀ t : Transaction, d = Write.insert Table.transaction t →
    ∀ a s, t.reference.settles = some (a, s) → g.pays = some (a, s)

theorem Beside.key_ne {g : Stance} {d : Write adehun} (h : Beside g d) (a : Id) :
    d.key ≠ ⟨Table.agreement, a⟩ :=
  fun hk => h.table (congrArg Key.table hk)

theorem Stands.stage {g : Stance} {i : Nat} {w : World adehun} {d : Write adehun}
    (h : Stands g i w) (hd : Beside g d) : Stands g i (w.stage i d) := by
  refine ⟨?_, fun s hs => (h.preserves s hs).congr rfl (World.stage_writes w i d), ?_, ?_, ?_⟩
  · intro d' hd'
    rw [asked_stage, List.mem_append, List.mem_singleton] at hd'
    rcases hd' with hd' | rfl
    · exact h.lasting d' hd'
    · exact hd.lasting
  · intro a o ho
    rw [World.stage_objects_of_ne w i (hd.key_ne a)] at ho
    exact ⟨(h.objects a o ho).1, fun hs => ((h.objects a o ho).2 hs).stage (hd.key_ne a)⟩
  · intro t ht
    rw [asked_stage, List.mem_append, List.mem_singleton] at ht
    rcases ht with ht | ht
    · exact h.entries t ht
    · exact hd.entry t ht.symm
  · exact fun a s ha => ⟨(h.sure a s ha).1, (h.sure a s ha).2.stage (hd.key_ne a)⟩

theorem Stands.put {g : Stance} {i : Nat} {w : World adehun} {d : Write adehun}
    (h : Stands g i w) (hd : Beside g d) : Stands g i (w.put i d) := by
  have hlook : ∀ a, ((w.put i d).view i).lookup ⟨Table.agreement, a⟩ =
      (w.view i).lookup ⟨Table.agreement, a⟩ := by
    intro a
    rw [World.put_view]
    exact Write.lookup_apply_of_ne _ (hd.key_ne a)
  have hmem : ∀ e, e ∈ asked (w.put i d) i ↔ e ∈ asked w i ∨ e = d := by
    intro e
    simp only [asked, World.put_tx_self, List.mem_append, List.mem_singleton]
    tauto
  have hsure : ∀ {a s}, Sure i w a s → Sure i (w.put i d) a s := fun hs =>
    hs.of_eq (hlook _) (by rw [World.put_tx_self])
  refine ⟨?_, ?_, ?_, ?_, ?_⟩
  · intro e he
    rcases (hmem e).mp he with he | rfl
    · exact h.lasting e he
    · exact hd.lasting
  · exact fun s hs => (h.preserves s hs).put fun a ha => absurd ha (hd.key_ne a)
  · intro a o ho
    rw [World.put_tx_self] at ho
    exact ⟨(h.objects a o ho).1, fun hs => hsure ((h.objects a o ho).2 hs)⟩
  · intro t ht
    rcases (hmem _).mp ht with ht | ht
    · exact h.entries t ht
    · exact hd.entry t ht.symm
  · exact fun a s ha => ⟨(h.sure a s ha).1, hsure (h.sure a s ha).2⟩

/-- A status staged by a session that settles nothing yet: if it is a settled
one, the session is ready. -/
theorem Stands.assign {i : Nat} {w : World adehun} (h : Stands .idle i w) (a : Id)
    (s : AgreementStatus) :
    Stands .idle i (w.stage i (.update Table.agreement a (setStatus s))) ∧
      (s.settled → Stands (.ready a s) i
        (w.stage i (.update Table.agreement a (setStatus s)))) := by
  have hsure := sure_assigned i w a s
  have hstands : Stands .idle i (w.stage i (.update Table.agreement a (setStatus s))) := by
    refine ⟨?_, fun s' hs => (h.preserves s' hs).congr rfl (World.stage_writes w i _), ?_, ?_,
      fun a' s' ha => by cases ha⟩
    · intro d hd
      rw [asked_stage, List.mem_append, List.mem_singleton] at hd
      rcases hd with hd | rfl
      · exact h.lasting d hd
      · exact ⟨Write.retains_of_ne (by simp), fun _ _ => rfl⟩
    · intro b o ho
      by_cases hab : b = a
      · subst hab
        have hobj : ((w.tx i).objects ⟨Table.agreement, b⟩).map (setStatus s).run = some o := by
          simpa [World.stage] using ho
        obtain ⟨o₀, ho₀, rfl⟩ := Option.map_eq_some_iff.mp hobj
        exact ⟨(h.objects b o₀ ho₀).1, fun _ => hsure⟩
      · have hne : (Write.update Table.agreement a (setStatus s) : Write adehun).key ≠
            ⟨Table.agreement, b⟩ := by
          intro hk
          cases hk
          exact hab rfl
        rw [World.stage_objects_of_ne w i hne] at ho
        exact ⟨(h.objects b o ho).1, fun hs => ((h.objects b o ho).2 hs).stage hne⟩
    · intro t ht
      rw [asked_stage, List.mem_append, List.mem_singleton] at ht
      rcases ht with ht | ht
      · exact h.entries t ht
      · cases ht
  refine ⟨hstands, fun hs => ⟨hstands.lasting, hstands.preserves, hstands.objects, ?_, ?_⟩⟩
  · exact fun t ht a' s' hset => absurd (hstands.entries t ht a' s' hset) (by simp [Stance.pays])
  · rintro a' s' ha
    cases ha
    exact ⟨hs, hsure⟩

/-- A commit in between leaves a session ready: what it was sure of is then
committed. -/
theorem Stands.committed {a : Id} {s : AgreementStatus} {i : Nat} {w : World adehun}
    (hd : (w.tx i).dirty = []) (h : Stands (.ready a s) i w) :
    Stands (.ready a s) i (w.commit i) := by
  have htx : (w.commit i).tx i = {} := World.commit_tx_self w i
  refine ⟨by simp [asked], ?_, by simp, by simp [asked], ?_⟩
  · exact fun s _ => World.preserves_of_writes_nil (by rw [htx])
  · rintro a' s' ha
    cases ha
    obtain ⟨hs, hsure⟩ := h.sure a s rfl
    refine ⟨hs, Or.inl ?_⟩
    have hview : (w.commit i).view i = w.view i := by
      rw [World.view, htx]
      rfl
    rw [hview]
    rcases hsure with hsure | hsure
    · exact hsure
    · rw [hd] at hsure
      exact absurd hsure Write.not_pending_nil

/-- The entry is paid out of a depositor's escrow, for an agreement. -/
def Transaction.Pays (t : Transaction) (a : Id) : Prop :=
  t.reference = .out (.release a) ∨ t.reference = .refund a

theorem Transaction.Pays.settles {t : Transaction} {a : Id} (h : t.Pays a) :
    ∃ s, t.reference.settles = some (a, s) := by
  rcases h with h | h
  · exact ⟨.completed, by rw [h]; rfl⟩
  · exact ⟨.refunded, by rw [h]; rfl⟩

namespace PaidTwice

def locked (id a : Id) (escrowAfter : Kobo) : Transaction :=
  { id := id
    userId := 1
    walletId := 10
    reference := .lock a
    agreementId := some a
    amount := 10000
    availableDelta := -10000
    escrowDelta := 10000
    balanceAfter := 20000 - escrowAfter
    escrowAfter := escrowAfter
    type := .escrowLock
    direction := .debit
    status := .completed }

def db : Db adehun
  | .user => [
      ({ id := 1, email := "ada@mail", name := "Ada" } : User),
      ({ id := 2, email := "bob@mail", name := "Bob" } : User),
      ({ id := 3, email := "eve@mail", name := "Eve", isAdmin := true } : User)]
  | .wallet => [
      ({ id := 10, userId := 1, escrowBalance := 20000 } : Wallet),
      ({ id := 11, userId := 2 } : Wallet)]
  | .agreement => [20, 30].map fun id : Id =>
      ({ id := id
         userId := 1
         title := "Work"
         description := ""
         amount := 10000
         status := .active } : Agreement)
  | .agreementParticipant => [
      ({ id := 21, agreementId := 20, userId := 1, role := .depositor
         status := .accepted } : AgreementParticipant),
      ({ id := 22, agreementId := 20, userId := 2, role := .beneficiary
         status := .accepted } : AgreementParticipant),
      ({ id := 31, agreementId := 30, userId := 1, role := .depositor
         status := .accepted } : AgreementParticipant),
      ({ id := 32, agreementId := 30, userId := 2, role := .beneficiary
         status := .accepted } : AgreementParticipant)]
  | .condition => [
      ({ id := 23
         agreementId := 20
         participantId := 21
         title := "Done"
         description := ""
         status := "approved" } : Condition)]
  | .transaction => [locked 40 20 10000, locked 41 30 20000]
  | _ => []

def script : List (Turn adehun Request) := [
  .arrive 0 (.release 1 (some "key") 20),
  .go 0 20 100,
  .arrive 1 (.refund 3 (some "key") 20),
  .go 1 100 1000,
  .go 0 100 2000]

/-- The release runs to its end first; the refund is refused, and the other
agreement refunded. -/
def inTurn : List (Turn adehun Request) := [
  .arrive 0 (.release 1 (some "key") 20),
  .go 0 100 100,
  .arrive 1 (.refund 3 (some "key") 20),
  .go 1 100 1000,
  .arrive 2 (.refund 3 (some "again") 30),
  .go 2 100 2000]

def start : Conf adehun Response := { world := { db := db, shared := {} } }

/-- The run of `inTurn`, and where it leads. -/
def run : List (Label adehun Request) × Conf adehun Response :=
  start.played (handler {}) inTurn

theorem db_keysDistinct : db.KeysDistinct := by
  intro t
  cases t <;> decide

theorem db_entriesDistinct : db.EntriesDistinct := by
  refine Db.entriesDistinct_of_pairwise fun t => ?_
  cases t <;> decide

end PaidTwice

end Adehun
