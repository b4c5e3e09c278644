import Adehun.Routine.Decisions
import Adehun.Sessions.Schedule

/-!
# The grounds of a decision

Whatever a request commits is called for by what it has been told. What is
left to go wrong is that it has been told so a while ago: the checks are made
on rows, copies and counts that nobody holds a lock on. `grounded` says of a
commit that some of what its session has been told is still so in the
committed tables, for each of the writes it commits; which notes matter to
which write is the parameter. From there on the programs are out of sight:
the module ends with what a deed makes of the row of an agreement and of a
dispute.
-/

namespace Adehun

open Sessions

/-- The agreement has a status. -/
abbrev StatusIs (db : Db adehun) (a : Id) (s : AgreementStatus) : Prop :=
  db.Has Table.agreement (fun r : Agreement => r.status = s) a

theorem StatusIs.unique {db : Db adehun} {a : Id} {s s' : AgreementStatus}
    (h : StatusIs db a s) (h' : StatusIs db a s') : s = s' := by
  obtain ⟨r, hr, rfl⟩ := h
  obtain ⟨r', hr', rfl⟩ := h'
  rw [hr] at hr'
  cases hr'
  rfl

/-! ## Notes that are still right -/

/-- The agreement or the dispute that a write decides on. -/
def subject : Write adehun → Option (Key adehun)
  | .update Table.agreement a _ => some ⟨Table.agreement, a⟩
  | .update Table.dispute id _ => some ⟨Table.dispute, id⟩
  | .insert Table.transaction t =>
      match (t : Transaction).reference with
      | .lock a => some ⟨Table.agreement, a⟩
      | r => r.settles.map fun x => ⟨Table.agreement, x.1⟩
  | _ => none

theorem subject_lock {e : Transaction} {a : Id} (h : e.reference = .lock a) :
    subject (.insert Table.transaction e) = some ⟨Table.agreement, a⟩ := by
  simp only [subject]
  rw [h]

theorem subject_settling {e : Transaction} {a : Id} {s : AgreementStatus}
    (h : e.reference.settles = some (a, s)) :
    subject (.insert Table.transaction e) = some ⟨Table.agreement, a⟩ := by
  simp only [subject]
  split
  · next b hb =>
      rw [hb] at h
      cases h
  · rw [h]
    rfl

/-- What a note says of a row is so. -/
def Note.Holds (db : Db adehun) (k : Key adehun) : Note → Prop
  | .got r => k = ⟨Table.agreement, r.id⟩ → StatusIs db r.id r.status
  | .shown a s => k = ⟨Table.agreement, a⟩ → StatusIs db a s
  | .listed ids => k.id ∈ ids ↔ (db.lookup ⟨Table.agreement, k.id⟩).isSome
  | .seen d => k = ⟨Table.dispute, d.id⟩ → db.lookup ⟨Table.dispute, d.id⟩ = some d
  | .ledger locked released =>
      (k.id ∈ locked ↔ k.id ∈ lockedIn db) ∧ (k.id ∈ released ↔ k.id ∈ releasedIn db)

instance (db : Db adehun) (k : Key adehun) (n : Note) : Decidable (n.Holds db k) :=
  match n with
  | .got r => inferInstanceAs (Decidable (k = ⟨Table.agreement, r.id⟩ → StatusIs db r.id r.status))
  | .shown a s => inferInstanceAs (Decidable (k = ⟨Table.agreement, a⟩ → StatusIs db a s))
  | .listed ids =>
      inferInstanceAs (Decidable (k.id ∈ ids ↔ (db.lookup ⟨Table.agreement, k.id⟩).isSome))
  | .seen d =>
      letI : DecidableEq (Option Dispute) := inferInstance
      inferInstanceAs (Decidable (k = ⟨Table.dispute, d.id⟩ →
        (db.lookup ⟨Table.dispute, d.id⟩ : Option Dispute) = some d))
  | .ledger locked released =>
      inferInstanceAs (Decidable ((k.id ∈ locked ↔ k.id ∈ lockedIn db) ∧
        (k.id ∈ released ↔ k.id ∈ releasedIn db)))

/-- The notes that matter to a write. -/
abbrev Grounds := Write adehun → Note → Bool

/-- A change of a status is decided on the agreement that was asked for. -/
def statusRead : Grounds
  | .update Table.agreement _ _, .got _ => true
  | _, _ => false

/-- A ruling is decided on the dispute that was asked for. -/
def disputeRead : Grounds
  | .update Table.dispute _ _, .seen _ => true
  | _, _ => false

/-- Money is locked into an agreement as it was shown. -/
def fundingRead : Grounds
  | .insert Table.transaction t, .shown _ _ | .insert Table.transaction t, .listed _ =>
      (t : Transaction).reference.settles.isNone
  | _, _ => false

/-- An escrow is settled on the agreement that was asked for. -/
def settlingRead : Grounds
  | .insert Table.transaction t, .got _ => (t : Transaction).reference.settles.isSome
  | _, _ => false

/-- A change of a status is decided on what was in escrow. -/
def ledgerRead : Grounds
  | .update Table.agreement _ _, .ledger _ _ => true
  | _, _ => false

/-- What a session has been told of what it commits is still so, as far as it
matters. -/
def grounded (g : Grounds) (o : Nat → List Note) : Guard adehun where
  exec w i s _ :=
    match s with
    | .commit => ∀ d ∈ (w.tx i).writes, ∀ k, subject d = some k → ∀ n ∈ o i, g d n = true →
        n.Holds w.db k
    | _ => True

/-- `grounded`, tested. -/
def grounded.test (g : Grounds) (o : Nat → List Note) : (grounded g o).Test where
  exec w i s _ :=
    match s with
    | .commit => (w.tx i).writes.all fun d =>
        match subject d with
        | none => true
        | some k => (o i).all fun n => !g d n || decide (n.Holds w.db k)
    | _ => true
  exec_sound := by
    intro X w i s c h
    cases s with
    | commit =>
        intro d hd k hk n hn hg
        have hd' := List.all_eq_true.mp h d hd
        rw [hk] at hd'
        have hn' := List.all_eq_true.mp hd' n hn
        rw [hg] at hn'
        simpa using hn'
    | _ => trivial
  flush_sound _ := trivial

/-! ## What is committed -/

section Permitted

variable {w : World adehun} {o : Nat → List Note} {i : Nat} {c : Choice adehun} {g : Grounds}

/-- The writes of a transaction that decide on agreements and disputes. -/
def decisions (w : World adehun) (i : Nat) : List (Write adehun) :=
  (w.tx i).writes.filter decides

theorem mem_writes_of_decisions {d : Write adehun} (h : d ∈ decisions w i) :
    d ∈ (w.tx i).writes :=
  (List.mem_filter.mp h).1

/-- A note that matters to a write holds when it is committed. -/
theorem holds_of_grounded (hg : (grounded g o).exec w i .commit c) {d : Write adehun}
    (hd : d ∈ decisions w i) {k : Key adehun} (hk : subject d = some k) {n : Note} (hn : n ∈ o i)
    (hgn : g d n = true) : n.Holds w.db k :=
  hg d (mem_writes_of_decisions hd) k hk n hn hgn

variable (h : register.Permitted w o i)

/-- What is committed of a dispute is what is decided. -/
theorem lookup_view_dispute (id : Id) : (w.view i).lookup ⟨Table.dispute, id⟩ =
    (w.db.applyAll (decisions w i)).lookup ⟨Table.dispute, id⟩ := by
  refine Db.lookup_applyAll_filter (fun d hd hk => ?_) w.db
  cases d with
  | insert t r =>
      cases hk
      rfl
  | update t id p =>
      cases hk
      rfl
  | delete t id =>
      cases hk
      rfl

include h

theorem deed_of_permitted : Deed (o i) (decisions w i) := h.permits

/-- So is what is committed of an agreement that there was before. -/
theorem lookup_view_agreement {a : Id} {r : Agreement}
    (hr : w.db.lookup ⟨Table.agreement, a⟩ = some r) :
    (w.view i).lookup ⟨Table.agreement, a⟩ =
      (w.db.applyAll (decisions w i)).lookup ⟨Table.agreement, a⟩ := by
  refine Db.lookup_applyAll_filter (fun d hd hk => ?_) w.db
  cases d with
  | insert t r' =>
      cases hk
      exact absurd rfl ((h.wf.legal i).id_ne_of_insert (fun d hd => (h.kept d hd).agreements) hr hd)
  | update t id p =>
      cases hk
      rfl
  | delete t id =>
      cases hk
      rfl

/-- An agreement that there was not, and that nothing is decided on, is a new
one. -/
theorem pending_of_new {a : Id} {r : Agreement} (hnone : w.db.lookup ⟨Table.agreement, a⟩ = none)
    (hno : ∀ p, .update Table.agreement a p ∉ decisions w i)
    (hr : (w.view i).lookup ⟨Table.agreement, a⟩ = some r) : r.status = .pending := by
  have hinserts : ∀ d ∈ (w.tx i).writes, d.key = ⟨Table.agreement, a⟩ →
      ∃ r : Agreement, d = .insert Table.agreement r := by
    intro d hd hk
    cases d with
    | insert t r' =>
        cases hk
        exact ⟨r', rfl⟩
    | update t id p =>
        cases hk
        exact absurd (List.mem_filter.mpr ⟨hd, rfl⟩) (hno p)
    | delete t id =>
        cases hk
        exact absurd rfl (h.kept _ hd).agreements
  rcases Db.lookup_applyAll_of_inserts hinserts hr with hrow | hmem
  · rw [hnone] at hrow
    cases hrow
  · exact (h.kept _ hmem).pending r rfl

/-- An entry after a commit is an old one, or one of an escrow that is decided,
or of none. -/
theorem entry_of_view {t : Transaction} (ht : t ∈ (w.view i Table.transaction : List Transaction)) :
    (∃ t₀ ∈ (w.db .transaction : List Transaction), t₀.mark = t.mark) ∨
      (∃ e : Transaction, .insert Table.transaction e ∈ decisions w i ∧ e.mark = t.mark) ∨
      t.reference.escrow = false ∧ t.type ≠ .escrowLock := by
  rcases Db.mem_of_retains (f := Transaction.mark) (fun d hd => (h.kept d hd).entries)
    (h.wf.view_keys i) ht with hold | ⟨e, he, hmark⟩
  · exact Or.inl hold
  · right
    have hsame : e.reference = t.reference ∧ e.type = t.type :=
      ⟨congrArg (·.1) hmark, congrArg (·.2.2) hmark⟩
    by_cases hescrow : e.reference.escrow = true
    · exact Or.inl ⟨e, List.mem_filter.mpr ⟨he, hescrow⟩, hmark⟩
    · refine Or.inr ⟨by simpa [← hsame.1] using hescrow, fun htype => hescrow ?_⟩
      obtain ⟨a, ha⟩ := (h.kept _ he).locks e rfl (hsame.2.trans htype)
      rw [ha]
      rfl

end Permitted

/-! ## What a deed does -/

section Deeds

variable {ns : List Note} {ds : List (Write adehun)} {db : Db adehun}

/-- How a deed changes the status of an agreement it has been handed. -/
inductive Turns (ns : List Note) (ds : List (Write adehun)) (r : Agreement) :
    AgreementStatus → Prop
  | accept {s : AgreementStatus} (pending : r.status = .pending)
      (next : s = .active ∨ s = .pending) : Turns ns ds r s
  | cancel (live : r.status = .pending ∨ r.status = .active) (spare : Spare ns r.id)
      (alone : ∀ e, .insert Table.transaction e ∉ ds) : Turns ns ds r .cancelled
  | raise (active : r.status = .active) : Turns ns ds r .disputed
  | restore {d : Dispute} (p : Patch adehun .dispute) (seen : .seen d ∈ ns)
      (unresolved : d.status ≠ .resolved) (on : r.id = d.agreementId)
      (disputed : r.status = .disputed) (ends : ∀ d, (p.run d : Dispute).status = .resolved)
      (ruled : .update Table.dispute d.id p ∈ ds) : Turns ns ds r d.agreementStatusBefore
  | settle {s : AgreementStatus} (allowed : settleable s r.status = true) : Turns ns ds r s

/-- How a deed makes an entry. -/
inductive Makes (ns : List Note) (ds : List (Write adehun)) (e : Transaction) : Prop
  | lock {a : Id} (fundable : Fundable ns a) (reference : e.reference = .lock a)
      (on : e.agreementId = some a) (type : e.type = .escrowLock)
      (alone : ds = [.insert Table.transaction e])
  | settle {r : Agreement} {s : AgreementStatus} {locked released : List Id}
      {es : List Transaction} (got : .got r ∈ ns) (allowed : settleable s r.status = true)
      (ledger : .ledger locked released ∈ ns) (funded : r.id ∈ locked)
      (reference : e.reference.settles = some (r.id, s))
      (whole : ds = statusWrite r s ++ entryWrites es)

theorem Deed.makes (hd : Deed ns ds) {e : Transaction} (he : .insert Table.transaction e ∈ ds) :
    Makes ns ds e := by
  cases hd with
  | lock fundable reference on type =>
      rw [List.mem_singleton] at he
      cases he
      exact .lock fundable reference on type rfl
  | @settle r s locked released es got allowed ledger funded legs =>
      rcases List.mem_append.mp he with hstatus | hentry
      · rw [statusWrite] at hstatus
        split at hstatus <;> simp at hstatus
      · obtain ⟨e', he', heq⟩ := List.mem_map.mp hentry
        cases heq
        exact .settle got allowed ledger funded (legs e he') rfl
  | _ => simp at he

/-! ### Agreements -/

/-- The writes to a table among some writes. -/
abbrev ofTable (t : Table) (ds : List (Write adehun)) : List (Write adehun) :=
  ds.filter fun d => d.key.table = t

theorem lookup_ofTable (t : Table) (ds : List (Write adehun)) (db : Db adehun) (id : Id) :
    (db.applyAll ds).lookup ⟨t, id⟩ = (db.applyAll (ofTable t ds)).lookup ⟨t, id⟩ :=
  Db.lookup_applyAll_filter (fun d _ hk => by simp [hk]) db

theorem ofTable_entryWrites {t : Table} (ht : t ≠ .transaction) (es : List Transaction) :
    ofTable t (entryWrites es) = [] := by
  refine List.filter_eq_nil_iff.mpr fun d hd => ?_
  obtain ⟨e, -, rfl⟩ := List.mem_map.mp hd
  rw [decide_eq_true_eq]
  exact ht.symm

theorem ofTable_statusWrite (r : Agreement) (s : AgreementStatus) :
    ofTable .agreement (statusWrite r s) = statusWrite r s := by
  rw [statusWrite]
  split <;> rfl

theorem ofTable_statusWrite_of_ne {t : Table} (ht : t ≠ .agreement) (r : Agreement)
    (s : AgreementStatus) : ofTable t (statusWrite r s) = [] := by
  rw [statusWrite]
  split
  · rfl
  · simpa [ofTable] using ht.symm

/-- Settling an agreement is a matter of its status and the ledger. -/
theorem ofTable_settled {t : Table} (ha : t ≠ .agreement) (ht : t ≠ .transaction) (r : Agreement)
    (s : AgreementStatus) (es : List Transaction) :
    ofTable t (statusWrite r s ++ entryWrites es) = [] := by
  rw [ofTable, List.filter_append, List.append_eq_nil_iff]
  exact ⟨ofTable_statusWrite_of_ne ha r s, ofTable_entryWrites ht es⟩

theorem ofTable_settled_agreement (r : Agreement) (s : AgreementStatus) (es : List Transaction) :
    ofTable .agreement (statusWrite r s ++ entryWrites es) = statusWrite r s := by
  have hentries := ofTable_entryWrites (t := .agreement) (by decide) es
  have hstatus := ofTable_statusWrite r s
  rw [ofTable] at hentries hstatus
  rw [ofTable, List.filter_append, hstatus, hentries, List.append_nil]

/-- What a deed writes of agreements. -/
inductive Turned (ns : List Note) (ds : List (Write adehun)) : List (Write adehun) → Prop
  | nothing : Turned ns ds []
  | turn {r : Agreement} {s : AgreementStatus} (got : .got r ∈ ns) (how : Turns ns ds r s) :
      Turned ns ds [.update Table.agreement r.id (setStatus s)]

theorem Deed.turned (hd : Deed ns ds) : Turned ns ds (ofTable .agreement ds) := by
  cases hd with
  | nothing => exact .nothing
  | accept got pending next => exact .turn got (.accept pending next)
  | cancel got live ledger spare =>
      exact .turn got (.cancel live ⟨_, _, ledger, spare⟩ (by simp))
  | raise got active isOpen on before => exact .turn got (.raise active)
  | review seen isOpen => exact .nothing
  | resolve seen unresolved => exact .nothing
  | restore seen unresolved got on disputed =>
      exact .turn got (.restore _ seen unresolved on disputed (fun _ => rfl) List.mem_cons_self)
  | lock fundable reference on type => exact .nothing
  | @settle r s locked released es got allowed ledger funded legs =>
      rw [ofTable_settled_agreement, statusWrite]
      split
      · exact .nothing
      · exact .turn got (.settle allowed)

/-- A status that is changed is the one that is assigned. -/
theorem Deed.lookup_turned (hd : Deed ns ds) {a : Id} {s : AgreementStatus} {r₀ : Agreement}
    (hmem : .update Table.agreement a (setStatus s) ∈ ds)
    (h : db.lookup ⟨Table.agreement, a⟩ = some r₀) :
    (db.applyAll ds).lookup ⟨Table.agreement, a⟩ = some { r₀ with status := s } := by
  have hmem' : .update Table.agreement a (setStatus s) ∈ ofTable .agreement ds :=
    List.mem_filter.mpr ⟨hmem, by simp⟩
  rw [lookup_ofTable]
  have hturned := hd.turned
  generalize ofTable .agreement ds = ds' at hmem' hturned
  cases hturned with
  | nothing => cases hmem'
  | turn got how =>
      rw [← List.mem_singleton.mp hmem', Db.applyAll_cons, Db.applyAll_nil, Write.lookup_update, h]
      simp [setStatus]

/-- A status is changed by those who have been handed the agreement. -/
theorem Deed.got_of_update (hd : Deed ns ds) {a : Id} {p : Patch adehun .agreement}
    (hmem : .update Table.agreement a p ∈ ds) : ∃ r : Agreement, .got r ∈ ns ∧ r.id = a := by
  have hmem' : .update Table.agreement a p ∈ ofTable .agreement ds :=
    List.mem_filter.mpr ⟨hmem, by simp⟩
  have hturned := hd.turned
  generalize ofTable .agreement ds = ds' at hmem' hturned
  cases hturned with
  | nothing => cases hmem'
  | turn got how =>
      cases List.mem_singleton.mp hmem'
      exact ⟨_, got, rfl⟩

/-- A settled agreement has the status that its entries need. -/
theorem statusIs_settled {r : Agreement} {s : AgreementStatus} (es : List Transaction)
    (h : StatusIs db r.id r.status) :
    StatusIs (db.applyAll (statusWrite r s ++ entryWrites es)) r.id s := by
  obtain ⟨r₀, hr₀, hstatus⟩ := h
  rw [StatusIs, Db.has_congr (lookup_ofTable .agreement _ db r.id), ofTable_settled_agreement,
    statusWrite]
  split
  · next hs => exact ⟨r₀, hr₀, hstatus.trans hs⟩
  · refine ⟨{ r₀ with status := s }, ?_, rfl⟩
    rw [Db.applyAll_cons, Db.applyAll_nil, Write.lookup_update, hr₀]
    simp [setStatus]

/-- The row of an agreement after a deed. -/
theorem Deed.lookup_agreement (hd : Deed ns ds) {a : Id} {r₀ : Agreement}
    (h : db.lookup ⟨Table.agreement, a⟩ = some r₀) :
    (db.applyAll ds).lookup ⟨Table.agreement, a⟩ = some r₀ ∨
      ∃ r s, .got r ∈ ns ∧ r.id = a ∧ .update Table.agreement a (setStatus s) ∈ ds ∧
        Turns ns ds r s ∧
        (db.applyAll ds).lookup ⟨Table.agreement, a⟩ = some { r₀ with status := s } := by
  have hsub : ofTable .agreement ds ⊆ ds := List.filter_sublist.subset
  have hturned := hd.turned
  have hlook := lookup_ofTable .agreement ds db a
  generalize ofTable .agreement ds = ds' at hsub hturned hlook
  cases hturned with
  | nothing => exact Or.inl (hlook.trans h)
  | @turn r s got how =>
      have hmem := hsub List.mem_cons_self
      by_cases ha : a = r.id
      · subst ha
        exact Or.inr ⟨r, s, got, rfl, hmem, how, hd.lookup_turned hmem h⟩
      · left
        rw [hlook, Db.applyAll_cons, Db.applyAll_nil, Write.lookup_update, h]
        simp [ha]

/-! ### Disputes -/

/-- How a deed changes a dispute it has been handed. -/
inductive Revises (d : Dispute) : Patch adehun .dispute → Prop
  | review (isOpen : d.status = .open) : Revises d (setDisputeStatus .underReview)
  | resolve (data : DisputeResolveRequest) (u : Id) (time : Nat)
      (unresolved : d.status ≠ .resolved) : Revises d (setResolution data u time)

/-- What a deed writes of disputes. -/
inductive Ruled (ns : List Note) (ds : List (Write adehun)) : List (Write adehun) → Prop
  | nothing : Ruled ns ds []
  | raise {r : Agreement} {d : Dispute} (got : .got r ∈ ns) (active : r.status = .active)
      (on : d.agreementId = r.id)
      (frozen : .update Table.agreement r.id (setStatus .disputed) ∈ ds) :
      Ruled ns ds [.insert Table.dispute d]
  | revise {d : Dispute} {p : Patch adehun .dispute} (seen : .seen d ∈ ns) (how : Revises d p) :
      Ruled ns ds [.update Table.dispute d.id p]

theorem Deed.ruled (hd : Deed ns ds) : Ruled ns ds (ofTable .dispute ds) := by
  cases hd with
  | raise got active isOpen on before =>
      exact .raise got active on (List.mem_cons_of_mem _ (List.mem_singleton.mpr rfl))
  | review seen isOpen => exact .revise seen (.review isOpen)
  | resolve seen unresolved => exact .revise seen (.resolve _ _ _ unresolved)
  | restore seen unresolved got on disputed => exact .revise seen (.resolve _ _ _ unresolved)
  | @settle r s locked released es got allowed ledger funded legs =>
      rw [ofTable_settled (by decide) (by decide)]
      exact .nothing
  | _ => exact .nothing

/-- A dispute is raised on an agreement that was active. -/
theorem Deed.raised (hd : Deed ns ds) {d : Dispute} (h : .insert Table.dispute d ∈ ds) :
    d.agreementStatusBefore = .active := by
  cases hd with
  | raise got active isOpen on before =>
      rcases List.mem_cons.mp h with h | h
      · cases h
        exact before
      · cases List.mem_singleton.mp h
  | settle got allowed ledger funded legs =>
      have hmem : .insert Table.dispute d ∈ ofTable .dispute (statusWrite _ _ ++ entryWrites _) :=
        List.mem_filter.mpr ⟨h, by simp⟩
      rw [ofTable_settled (by decide) (by decide)] at hmem
      cases hmem
  | _ => simp at h

/-- A dispute is revised by those who have seen it. -/
theorem Deed.lookup_revised (hd : Deed ns ds) {id : Id} {p : Patch adehun .dispute}
    (hmem : .update Table.dispute id p ∈ ds) : ∃ d, .seen d ∈ ns ∧ d.id = id ∧ Revises d p ∧
      ∀ (db : Db adehun) (d₀ : Dispute), db.lookup ⟨Table.dispute, id⟩ = some d₀ →
        (db.applyAll ds).lookup ⟨Table.dispute, id⟩ = some (p.run d₀) := by
  have hmem' : .update Table.dispute id p ∈ ofTable .dispute ds :=
    List.mem_filter.mpr ⟨hmem, by simp⟩
  have hruled := hd.ruled
  have hlook := fun db => lookup_ofTable .dispute ds db id
  generalize ofTable .dispute ds = ds' at hmem' hruled hlook
  cases hruled with
  | nothing => cases hmem'
  | raise got active on frozen => cases List.mem_singleton.mp hmem'
  | revise seen how =>
      cases List.mem_singleton.mp hmem'
      refine ⟨_, seen, rfl, how, fun db d₀ h => ?_⟩
      rw [hlook, Db.applyAll_cons, Db.applyAll_nil, Write.lookup_update, h]
      simp

/-- The row of a dispute after a deed. -/
theorem Deed.lookup_dispute (hd : Deed ns ds) {id : Id} {d₀ : Dispute}
    (h : db.lookup ⟨Table.dispute, id⟩ = some d₀) :
    (db.applyAll ds).lookup ⟨Table.dispute, id⟩ = some d₀ ∨
      ∃ d p, .seen d ∈ ns ∧ d.id = id ∧ .update Table.dispute id p ∈ ds ∧ Revises d p ∧
        (db.applyAll ds).lookup ⟨Table.dispute, id⟩ = some (p.run d₀) := by
  have hsub : ofTable .dispute ds ⊆ ds := List.filter_sublist.subset
  have hruled := hd.ruled
  have hlook := lookup_ofTable .dispute ds db id
  generalize ofTable .dispute ds = ds' at hsub hruled hlook
  cases hruled with
  | nothing => exact Or.inl (hlook.trans h)
  | raise got active on frozen =>
      left
      rw [hlook, Db.applyAll_cons, Db.applyAll_nil, Write.lookup_insert, h, Option.some_or]
  | @revise d p seen how =>
      have hmem := hsub List.mem_cons_self
      by_cases hid : id = d.id
      · subst hid
        obtain ⟨-, -, -, -, hrow⟩ := hd.lookup_revised hmem
        exact Or.inr ⟨d, p, seen, rfl, hmem, how, hrow db d₀ h⟩
      · left
        rw [hlook, Db.applyAll_cons, Db.applyAll_nil, Write.lookup_update, h]
        simp [hid]

/-- A dispute that there was not is one that has been raised. -/
theorem Deed.dispute_new (hd : Deed ns ds) {id : Id} {d : Dispute}
    (hnone : db.lookup ⟨Table.dispute, id⟩ = none)
    (h : (db.applyAll ds).lookup ⟨Table.dispute, id⟩ = some d) :
    ∃ r : Agreement, .got r ∈ ns ∧ r.status = .active ∧ r.id = d.agreementId ∧
      .update Table.agreement r.id (setStatus .disputed) ∈ ds := by
  rw [lookup_ofTable] at h
  have hruled := hd.ruled
  generalize ofTable .dispute ds = ds' at h hruled
  cases hruled with
  | nothing =>
      rw [Db.applyAll_nil, hnone] at h
      cases h
  | @raise r d' got active on frozen =>
      rw [Db.applyAll_cons, Db.applyAll_nil, Write.lookup_insert, hnone, Option.none_or] at h
      obtain ⟨-, heq⟩ := Option.ite_none_right_eq_some.mp h
      cases heq
      exact ⟨r, got, active, on.symm, frozen⟩
  | revise seen how =>
      rw [Db.applyAll_cons, Db.applyAll_nil, Write.lookup_update, hnone] at h
      cases h

end Deeds

end Adehun