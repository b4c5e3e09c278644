import Adehun.Grounds
import Adehun.Routine.Aside

/-!
# A dispute is resolved once

An administrator resolves a dispute in three steps: the status is read, it
is checked, and the resolution is written. No lock is taken before the last
of them, so a second administrator who has read the status as well writes
over what the first one has decided, and one who claims the dispute for
review takes it back from resolved.

The check is enough while the dispute is still the one that was read. Then
nobody writes to a resolved dispute, the resolutions can be counted, and a
request that says it has resolved a dispute is the one that has.
-/

namespace Adehun

open Sessions Observer.Discipline
open Observer (Safe)

/-! ## Dispute statuses -/

/-- What may follow a status. -/
def DisputeStatus.leadsTo : DisputeStatus → DisputeStatus → Bool
  | .open, _ => true
  | .underReview, s => s ≠ .open
  | .resolved, s => s = .resolved

theorem DisputeStatus.leadsTo_refl (s : DisputeStatus) : s.leadsTo s := by
  cases s <;> rfl

/-- The order of the rows of a dispute: statuses move one way, and a resolved
dispute is as it was. -/
def Dispute.Precedes (r r' : Dispute) : Prop :=
  r.status.leadsTo r'.status ∧ (r.status = .resolved → r' = r)

theorem Dispute.precedes_refl (r : Dispute) : r.Precedes r :=
  ⟨DisputeStatus.leadsTo_refl r.status, fun _ => rfl⟩

/-- The dispute is resolved. -/
abbrev Resolved (db : Db adehun) (id : Id) : Prop :=
  db.Has Table.dispute (fun r : Dispute => r.status = .resolved) id

/-- An agreement has one live dispute at most. -/
def OneLive (db : Db adehun) : Prop :=
  ∀ d ∈ (db .dispute : List Dispute), ∀ d' ∈ (db .dispute : List Dispute),
    d.status ≠ .resolved → d'.status ≠ .resolved → d.agreementId = d'.agreementId → d.id = d'.id

theorem oneLive_of_entriesDistinct {db : Db adehun} (hk : db.KeysDistinct)
    (h : db.EntriesDistinct) : OneLive db := by
  intro d hd d' hd' hlive hlive' ha
  by_contra hne
  have hentry : Index.activeDispute d.agreementId ∈ rowEntries (t := .dispute) d := by
    simp [rowEntries, hlive]
  have hentry' : Index.activeDispute d.agreementId ∈ rowEntries (t := .dispute) d' := by
    simp [rowEntries, hlive', ha]
  exact h Table.dispute d.id d'.id d d' hne (hk.lookup hd) (hk.lookup hd') _ hentry hentry'

/-! ## Rulings on what is still so -/

/-- A ruling takes the dispute it was made on one way. -/
theorem Revises.precedes {d : Dispute} {p : Patch adehun .dispute} (h : Revises d p) :
    d.status ≠ .resolved ∧ d.Precedes (p.run d) := by
  cases h with
  | review isOpen =>
      have hne : d.status ≠ .resolved := by rw [isOpen]; decide
      refine ⟨hne, ?_, fun hs => absurd hs hne⟩
      rw [isOpen]
      rfl
  | resolve data u time unresolved =>
      refine ⟨unresolved, ?_, fun hs => absurd hs unresolved⟩
      show d.status.leadsTo .resolved = true
      cases hs : d.status with
      | resolved => exact absurd hs unresolved
      | _ => rfl

theorem Revises.agreementId {d : Dispute} {p : Patch adehun .dispute} (h : Revises d p) :
    (p.run d : Dispute).agreementId = d.agreementId := by
  cases h <;> rfl

/-- No dispute that is ruled on in a commit is resolved by then. -/
def rulesUnresolved : Guard adehun where
  exec w i s _ :=
    match s with
    | .commit => (w.tx i).dirty = [] → ∀ id p, .update Table.dispute id p ∈ (w.tx i).writes →
        ¬ Resolved w.db id
    | _ => True

theorem rulesUnresolved_of_grounded {w : World adehun} {o : Nat → List Note} {i : Nat}
    {c : Choice adehun} (h : register.Permitted w o i)
    (hg : (grounded disputeRead o).exec w i .commit c) :
    rulesUnresolved.exec w i .commit c := by
  rintro - id p hmem ⟨d', hrow, hres⟩
  have hmem' : .update Table.dispute id p ∈ decisions w i := List.mem_filter.mpr ⟨hmem, rfl⟩
  obtain ⟨d, hseen, rfl, how, -⟩ := (deed_of_permitted h).lookup_revised hmem'
  have hstill : w.db.lookup ⟨Table.dispute, d.id⟩ = some d :=
    holds_of_grounded hg hmem' rfl hseen rfl rfl
  rw [hstill] at hrow
  cases hrow
  exact how.precedes.1 hres

/-- A commit whose rulings are made on what is still so. -/
theorem rises_upheld : Diary.Upholds (D := register) (grounded disputeRead) (fun _ _ => True)
    (Db.Rises Table.dispute Dispute.Precedes) where
  toLasts := Diary.lasts_of_db fun _ => True
  same db _ _ := Db.rises_refl Dispute.precedes_refl db
  commit w o i c h hg _ := by
    refine ⟨?_, trivial⟩
    intro id d₀ hrow
    rw [lookup_view_dispute]
    rcases (deed_of_permitted h).lookup_dispute hrow with
      hsame | ⟨d, p, hseen, rfl, hmem, how, hafter⟩
    · exact ⟨d₀, hsame, d₀.precedes_refl⟩
    · have hstill : w.db.lookup ⟨Table.dispute, d.id⟩ = some d :=
        holds_of_grounded hg hmem rfl hseen rfl rfl
      rw [hrow] at hstill
      cases hstill
      exact ⟨_, hafter, how.precedes.2⟩

/-! ## Who has resolved what -/

/-- The dispute a request is to resolve. -/
def Request.resolves : Request → Option Id
  | .resolveDispute _ id _ => some id
  | _ => none

/-- What is on record: which dispute every session has been asked to
resolve, and who has committed a resolution of a dispute, a session or one
that has died since. -/
structure Docket where
  asked : Nat → Option Id := fun _ => none
  resolvers : Id → List (Option Nat) := fun _ => []

/-- The resolutions, as seen from the commits that write them. -/
abbrev docket : Observer adehun Request where
  State := Docket
  start i r o := { o with asked := Function.update o.asked i r.resolves }
  commit i writes _ after o :=
    { o with
      resolvers := fun id =>
        if (writes.any fun d => d.key = ⟨Table.dispute, id⟩) && decide (Resolved after id) then
          some i :: o.resolvers id
        else o.resolvers id }
  crash i o :=
    { o with
      resolvers := fun id => (o.resolvers id).map fun s => if s = some i then none else s }

/-- What is on record for a dispute must be: the one resolution since the
first state, or none where the dispute is not resolved or was so before. -/
structure ResolvedOnce (first now : Db adehun) (id : Id) (l : List (Option Nat)) : Prop where
  once : l.length ≤ 1
  resolved : Resolved now id ↔ Resolved first id ∨ l ≠ []
  earlier : Resolved first id → l = []

theorem ResolvedOnce.init (db : Db adehun) (id : Id) : ResolvedOnce db db id [] :=
  ⟨Nat.zero_le 1, by simp, fun _ => rfl⟩

/-! ## What a session has to own -/

/-- A write that deletes no dispute. -/
abbrev Ruling (d : Write adehun) : Prop := d.Retains Table.dispute fun _ : Dispute => ()

/-- A session deletes no dispute. -/
def Rules (i : Nat) (w : World adehun) : Prop := ∀ d ∈ asked w i, Ruling d

namespace Rules

variable {i j : Nat} {w w' : World adehun} {id : Id} {c : Choice adehun}

theorem congr (h : Rules i w) (hasked : asked w' i = asked w i) : Rules i w' := by
  rw [Rules, hasked]
  exact h

theorem stage (h : Rules i w) {d : Write adehun} (hd : Ruling d) : Rules i (w.stage i d) := by
  intro e he
  rw [asked_stage, List.mem_append, List.mem_singleton] at he
  rcases he with he | rfl
  · exact h e he
  · exact hd

theorem put (h : Rules i w) {d : Write adehun} (hd : Ruling d) : Rules i (w.put i d) := by
  intro e he
  rw [asked, World.put_tx_self, List.mem_append, List.mem_append, List.mem_singleton] at he
  rcases he with (he | rfl) | he
  · exact h e (List.mem_append_left _ he)
  · exact hd
  · exact h e (List.mem_append_right _ he)

theorem of_fresh {b : Bool} (htx : w.tx i = { aborted := b }) : Rules i w := by
  intro d hd
  rw [asked, htx] at hd
  cases hd

/-- What a session writes and commits in time was not resolved. -/
theorem not_resolved (h : Rules i w) (hw : w.WF) (hd : (w.tx i).dirty = [])
    (hg : rulesUnresolved.exec w i .commit c) (ht : w.Touches i ⟨Table.dispute, id⟩) :
    ¬ Resolved w.db id := by
  obtain ⟨d, hmem, hk⟩ := ht
  have hspares : ∀ d ∈ (w.tx i).writes, Ruling d :=
    fun d hd => h d (List.mem_append_left _ hd)
  cases d with
  | insert t r =>
      cases hk
      rintro ⟨r', hrow, -⟩
      exact (hw.legal i).id_ne_of_insert hspares hrow hmem rfl
  | update t id' p =>
      cases hk
      exact hg hd id p hmem
  | delete t id' =>
      cases hk
      exact absurd rfl (hspares _ hmem)

/-- A commit is on record where it resolves. -/
theorem resolvedOnce {first : Db adehun} {o : Docket} (h : Rules i w) (hw : w.WF)
    (hd : (w.tx i).dirty = []) (hg : rulesUnresolved.exec w i .commit c)
    (hgood : ResolvedOnce first w.db id (o.resolvers id)) :
    ResolvedOnce first (w.view i) id
      ((docket.commit i (w.tx i).writes w.db (w.view i) o).resolvers id) := by
  dsimp only
  split
  · next hcond =>
      rw [Bool.and_eq_true, List.any_eq_true, decide_eq_true_eq] at hcond
      obtain ⟨⟨d, hmem, hk⟩, hres⟩ := hcond
      have hnot := h.not_resolved hw hd hg ⟨d, hmem, of_decide_eq_true hk⟩
      have hbefore := (not_congr hgood.resolved).mp hnot
      rw [not_or, not_not] at hbefore
      obtain ⟨hfirst, hnil⟩ := hbefore
      rw [hnil]
      exact ⟨Nat.le_refl 1, ⟨fun _ => Or.inr (List.cons_ne_nil _ _), fun _ => hres⟩,
        fun hf => absurd hf hfirst⟩
  · next hcond =>
      have hsame : Resolved (w.view i) id ↔ Resolved w.db id := by
        by_cases ht : w.Touches i ⟨Table.dispute, id⟩
        · have hbefore := h.not_resolved hw hd hg ht
          obtain ⟨d, hmem, hk⟩ := ht
          have hnot : ¬ Resolved (w.view i) id := by
            intro hres
            refine hcond ?_
            rw [Bool.and_eq_true, List.any_eq_true, decide_eq_true_eq]
            exact ⟨⟨d, hmem, decide_eq_true hk⟩, hres⟩
          exact iff_of_false hnot hbefore
        · exact Db.has_congr (World.lookup_view_of_not_touches ht)
      exact ⟨hgood.once, hsame.trans hgood.resolved, hgood.earlier⟩

end Rules

/-! ## Where a session is with its dispute -/

/-- What a session is doing: not resolving, about to resolve a dispute,
having the resolution in its transaction, or having committed it. -/
inductive RulingGhost
  | other
  | deciding (id : Id)
  | ruling (id : Id)
  | decided (id : Id)

/-- The resolution of a dispute is in the transaction of a session, sent or
not, and nothing comes after it. -/
def RulesOn (id : Id) (i : Nat) (w : World adehun) : Prop :=
  Write.Pending Table.dispute (fun r : Dispute => r.status = .resolved) id (w.tx i).dirty ∨
  w.Touches i ⟨Table.dispute, id⟩ ∧ Resolved (w.view i) id ∧
    ∀ d ∈ (w.tx i).dirty, d.key ≠ ⟨Table.dispute, id⟩

/-- What is on record of a session. -/
def RulingGhost.Told : RulingGhost → Nat → World adehun → Docket → Prop
  | .other, i, _, o => o.asked i = none
  | .deciding id, i, _, o => o.asked i = some id
  | .ruling id, i, w, o => o.asked i = some id ∧ RulesOn id i w
  | .decided id, i, _, o => o.asked i = some id ∧ some i ∈ o.resolvers id

def RulingGhost.lost : RulingGhost → RulingGhost
  | .ruling id => .deciding id
  | g => g

def RulingGhost.done : RulingGhost → RulingGhost
  | .ruling id => .decided id
  | g => g

section Told

variable {i j : Nat} {w w' : World adehun} {o o' : Docket} {g : RulingGhost} {id : Id}

theorem RulesOn.congr (h : RulesOn id i w) (hdb : w'.db = w.db)
    (hwrites : (w'.tx i).writes = (w.tx i).writes) (hdirty : (w'.tx i).dirty = (w.tx i).dirty) :
    RulesOn id i w' := by
  rwa [RulesOn, hdirty, World.touches_congr hwrites, World.view_congr hdb hwrites]

/-- A write of something else staged. -/
theorem RulesOn.stage (h : RulesOn id i w) {d : Write adehun} (hd : d.key ≠ ⟨Table.dispute, id⟩) :
    RulesOn id i (w.stage i d) := by
  have hview : (w.stage i d).view i = w.view i := World.view_congr rfl (World.stage_writes w i d)
  rw [RulesOn, World.stage_dirty, World.touches_congr (World.stage_writes w i d), hview]
  rcases h with h | ⟨ht, hres, hlast⟩
  · exact Or.inl (h.concat hd)
  · refine Or.inr ⟨ht, hres, fun e he => ?_⟩
    rw [List.mem_append, List.mem_singleton] at he
    rcases he with he | rfl
    · exact hlast e he
    · exact hd

theorem RulesOn.put (h : RulesOn id i w) {d : Write adehun} (hd : d.key ≠ ⟨Table.dispute, id⟩) :
    RulesOn id i (w.put i d) := by
  rcases h with h | ⟨⟨e, he, hk⟩, hres, hlast⟩
  · exact Or.inl (by rw [World.put_tx_self]; exact h)
  · refine Or.inr ⟨⟨e, by rw [World.put_tx_self]; exact List.mem_append_left _ he, hk⟩, ?_, ?_⟩
    · rw [World.put_view, Resolved, Db.has_congr (Write.lookup_apply_of_ne _ hd)]
      exact hres
    · rw [World.put_tx_self]
      exact hlast

theorem RulesOn.commit (h : RulesOn id j w) (hne : j ≠ i) (hw : w.WF) :
    RulesOn id j (w.commit i) := by
  have htx : (w.commit i).tx j = w.tx j := World.commit_tx_of_ne w hne
  rcases h with h | ⟨ht, hres, hlast⟩
  · exact Or.inl (by rw [htx]; exact h)
  · refine Or.inr ⟨by rw [World.Touches, htx]; exact ht, ?_, by rw [htx]; exact hlast⟩
    rw [Resolved, Db.has_congr (World.lookup_view_commit hne (hw.not_touches (Ne.symm hne) ht))]
    exact hres

/-- The resolution is sent, or still to be. -/
theorem RulesOn.send (h : RulesOn id i w) {d : Write adehun} {ds : List (Write adehun)}
    (hd : (w.tx i).dirty = d :: ds) (hr : d.refusal (w.view i) = none) :
    RulesOn id i ((w.put i d).setTx i
      { w.tx i with writes := (w.tx i).writes ++ [d], dirty := ds }) := by
  have hview : ((w.put i d).setTx i
      { w.tx i with writes := (w.tx i).writes ++ [d], dirty := ds }).view i =
        d.apply (w.view i) := by
    rw [← World.put_view]
    exact World.view_congr rfl (by rw [World.setTx_tx_self, World.put_tx_self])
  rw [RulesOn, hview, World.Touches, World.setTx_tx_self]
  rcases h with h | ⟨⟨e, he, hk⟩, hres, hlast⟩
  · rw [hd] at h
    rcases h.tail with h | ⟨p, rfl, hp, hlast⟩
    · exact Or.inl h
    · refine Or.inr ⟨⟨.update Table.dispute id p, ?_, rfl⟩, Write.has_update hp hr, hlast⟩
      exact List.mem_append_right _ (List.mem_singleton.mpr rfl)
  · rw [hd] at hlast
    have hne : d.key ≠ ⟨Table.dispute, id⟩ := hlast d List.mem_cons_self
    refine Or.inr ⟨⟨e, List.mem_append_left _ he, hk⟩, ?_, ?_⟩
    · rw [Resolved, Db.has_congr (Write.lookup_apply_of_ne _ hne)]
      exact hres
    · exact fun e he => hlast e (List.mem_cons_of_mem d he)

/-- What is on record of a session depends on its part of the world and of
the record. -/
theorem RulingGhost.Told.congr (h : g.Told i w o) (hon : ∀ id, RulesOn id i w → RulesOn id i w')
    (hasked : o'.asked i = o.asked i)
    (hby : ∀ id, some i ∈ o.resolvers id → some i ∈ o'.resolvers id) : g.Told i w' o' := by
  cases g with
  | other => exact hasked.trans h
  | deciding id => exact hasked.trans h
  | ruling id => exact ⟨hasked.trans h.1, hon id h.2⟩
  | decided id => exact ⟨hasked.trans h.1, hby id h.2⟩

/-- Without its transaction a session falls back. -/
theorem RulingGhost.Told.falls (h : g.Told i w o) : g.lost.Told i w' o := by
  cases g with
  | other => exact h
  | deciding id => exact h
  | ruling id => exact h.1
  | decided id => exact h

/-- A commit puts nobody off the record. -/
theorem mem_resolvers_commit {writes : List (Write adehun)} {db db' : Db adehun}
    (h : some j ∈ o.resolvers id) : some j ∈ (docket.commit i writes db db' o).resolvers id := by
  dsimp only
  split
  · exact List.mem_cons_of_mem _ h
  · exact h

/-- With everything sent, committing is resolving. -/
theorem RulingGhost.Told.commits (h : g.Told i w o) (hd : (w.tx i).dirty = []) :
    g.done.Told i w' (docket.commit i (w.tx i).writes w.db (w.view i) o) := by
  cases g with
  | other => exact h
  | deciding id => exact h
  | ruling id =>
      obtain ⟨hasked, hpending | ⟨⟨e, he, hk⟩, hres, -⟩⟩ := h
      · rw [hd] at hpending
        exact absurd hpending Write.not_pending_nil
      · refine ⟨hasked, ?_⟩
        dsimp only
        rw [if_pos]
        · exact List.mem_cons_self
        · rw [Bool.and_eq_true, List.any_eq_true, decide_eq_true_eq]
          exact ⟨⟨e, he, decide_eq_true hk⟩, hres⟩
  | decided id => exact ⟨h.1, mem_resolvers_commit h.2⟩

end Told

/-- Disputes resolved once, from a first state of the tables on: as a
discipline. -/
def resolvedOnce (first : Db adehun) : docket.Discipline where
  Ghost := RulingGhost
  rest r := match r.resolves with
    | some id => .deciding id
    | none => .other
  lost := RulingGhost.lost
  done := RulingGhost.done
  Commits _ := True
  Good db o := ∀ id, ResolvedOnce first db id (o.resolvers id)
  Own g i w o := Rules i w ∧ g.Told i w o
  guard _ := rulesUnresolved
  own_congr hdb htx _ h := ⟨h.1.congr (by rw [asked, asked, htx]),
    h.2.congr (fun _ hon => hon.congr hdb (by rw [htx]) (by rw [htx])) rfl fun _ hm => hm⟩
  own_remember k _ h := ⟨h.1.congr (by simp [asked, World.remember]),
    h.2.congr (fun _ hon => hon.congr rfl (by simp [World.remember])
      (by simp [World.remember])) rfl fun _ hm => hm⟩
  own_send _ _ _ hd _ hr h := ⟨h.1.congr (by simp [asked, hd]),
    h.2.congr (fun _ hon => hon.send hd hr) rfl fun _ hm => hm⟩
  own_lost := by
    rintro g i o w w' - ⟨-, h⟩ - ⟨b, htx⟩
    exact ⟨.of_fresh htx, h.falls⟩
  good_commit _ hw hgood hd hg h := fun id => h.1.resolvedOnce hw hd hg (hgood id)
  own_done _ _ _ hd _ h := ⟨.of_fresh (World.commit_tx_self _ _), h.2.commits hd⟩
  own_commit hne _ hw _ _ _ _ hj := ⟨hj.1.congr (by rw [asked, asked, World.commit_tx_of_ne _ hne]),
    hj.2.congr (fun _ hon => hon.commit hne hw) rfl fun _ hm => mem_resolvers_commit hm⟩
  good_start _ h := h
  own_start r hne h := ⟨h.1, h.2.congr (fun _ hon => hon) (Function.update_of_ne hne _ _)
    fun _ hm => hm⟩
  own_init := by
    intro i o w r _ htx
    refine ⟨.of_fresh (b := false) htx, ?_⟩
    cases hr : r.resolves with
    | none => simp [RulingGhost.Told, hr]
    | some id => simp [RulingGhost.Told, hr]
  good_look _ _ _ _ h _ := h
  own_look _ _ _ _ _ h := h
  look_other _ _ _ _ h := h
  good_crash i h := by
    intro id
    obtain ⟨honce, hres, hearlier⟩ := h id
    exact ⟨by simpa using honce, by simpa using hres, by simpa using hearlier⟩
  own_crash := by
    rintro g i j o w hne ⟨hrules, h⟩
    refine ⟨hrules, h.congr (fun _ hon => hon) rfl fun id hm => ?_⟩
    exact List.mem_map.mpr ⟨some j, hm, if_neg fun he => hne (Option.some.inj he)⟩

/-! ## The requests -/

section Requests

variable {first : Db adehun} {g : RulingGhost} {id : Id}

/-- The ghosts that ending a transaction leads back to. -/
theorem still_resolvedOnce (h : g.lost = g) (h' : g.done = g) : (resolvedOnce first).Still g :=
  ⟨h, h', trivial, fun _ hm => hm⟩

/-- A write of no dispute. -/
theorem own_stage {i : Nat} {w : World adehun} {o : Docket} {d : Write adehun}
    (hd : d.key.table ≠ .dispute) (h : (resolvedOnce first).Own g i w o) :
    (resolvedOnce first).Own g i (w.stage i d) o :=
  ⟨h.1.stage (Write.retains_of_ne hd), h.2.congr
    (fun _ hon => hon.stage fun hk => hd (congrArg Key.table hk)) rfl fun _ hm => hm⟩

theorem own_put {i : Nat} {w : World adehun} {o : Docket} {d : Write adehun}
    (hd : d.key.table ≠ .dispute) (h : (resolvedOnce first).Own g i w o) :
    (resolvedOnce first).Own g i (w.put i d) o :=
  ⟨h.1.put (Write.retains_of_ne hd), h.2.congr
    (fun _ hon => hon.put fun hk => hd (congrArg Key.table hk)) rfl fun _ hm => hm⟩

theorem resolvedOnce_stage {d : Write adehun} (hd : d.key.table ≠ .dispute) :
    (resolvedOnce first).Keeps g (.perform (.stage d)) :=
  keeps_stage fun _ _ _ _ _ h => own_stage hd h

theorem keeps_assign (t : Table) (id : Id) (p : Patch adehun t) (ht : t ≠ .dispute) :
    (resolvedOnce first).Keeps g (assign t id p) := resolvedOnce_stage ht

variable (hg : (resolvedOnce first).Still g)

include hg

/-- A ruling, by a session that is not in the middle of a resolution. -/
theorem keeps_ruling {d : Write adehun} (hd : Ruling d) :
    (resolvedOnce first).Keeps g (.perform (.stage d)) := by
  refine keeps_stage fun i w o _ _ h => ⟨h.1.stage hd, ?_⟩
  have htold := h.2
  cases g with
  | ruling id => cases hg.1
  | other => exact htold
  | deciding id => exact htold
  | decided id => exact htold

theorem keeps_underReview (id : Id) :
    (resolvedOnce first).Keeps g (assign .dispute id (setDisputeStatus .underReview)) :=
  keeps_ruling hg fun _ _ => rfl

theorem keeps_resolution (id : Id) (data : DisputeResolveRequest) (u : Id) (time : Nat) :
    (resolvedOnce first).Keeps g (assign .dispute id (setResolution data u time)) :=
  keeps_ruling hg fun _ _ => rfl

theorem routine_resolvedOnce : Routine fun _ p => (resolvedOnce first).Keeps g p := by
  have hne : ∀ {d : Write adehun}, Side d → d.key.table ≠ .dispute := by
    intro d hd ht
    rw [Side, ht] at hd
    cases hd
  refine routine_watched hg ?_ ?_
  · exact fun d hd i w o _ _ h => own_stage (hne hd) h
  · exact fun d hd i w o _ _ h _ _ => own_put (hne hd) h

theorem resolvedOnce_ensureWallet (u : Id) : (resolvedOnce first).Keeps g (ensureWallet u) :=
  (routine_resolvedOnce hg).keeps_watched_ensureWallet hg
    (fun _ _ _ _ _ _ _ h _ _ => own_put (by simp [newWallet]) h) u

/-- A session that is not in the middle of a resolution stays where it is,
whatever it is asked for. -/
theorem resolvedOnce_keeps (settings : Settings) (r : Request) :
    (resolvedOnce first).Keeps g (handler settings r) :=
  (routine_resolvedOnce hg).handler_of_rulings (resolvedOnce_ensureWallet hg)
    (fun _ _ => keeps_ruling hg trivial)
    (fun t id p _ ht => keeps_assign t id p ht) (keeps_underReview hg) (keeps_resolution hg)
    (fun _ _ _ => keeps_assign _ _ _ (by decide))
    (fun d hd => resolvedOnce_stage (by rw [hd]; decide))
    ((routine_resolvedOnce hg).keeps_watched_transfer hg) settings r

theorem resolvedOnce_settleDispute (a : Id) (outcome : DisputeResolutionOutcome) :
    (resolvedOnce first).Keeps g (settleDispute a outcome) :=
  (routine_resolvedOnce hg).settleDispute
    ((routine_resolvedOnce hg).escrowSide_of_rulings (resolvedOnce_ensureWallet hg)
      (fun _ _ => keeps_ruling hg trivial)
      (fun t id p _ ht => keeps_assign t id p ht) (keeps_underReview hg)
      (keeps_resolution hg)).1 a outcome

end Requests

/-! ## Resolving a dispute -/

section Resolving

variable {first : Db adehun} {id : Id} {α : Type}

/-- An exception may leave a session anywhere. -/
abbrev Brings (first : Db adehun) (g g' : RulingGhost) (p : App α) : Prop :=
  (resolvedOnce first).Takes g g' (fun _ => True) p

/-- The resolution is staged. -/
theorem brings_resolution (data : DisputeResolveRequest) (u : Id) (time : Nat) :
    Brings first (.deciding id) (.ruling id) (assign .dispute id (setResolution data u time)) := by
  refine takes_stage fun i w o _ _ h => ?_
  refine ⟨h.1.stage fun _ _ => rfl, h.2, Or.inl ?_⟩
  rw [World.stage_dirty]
  exact Write.pending_self fun _ => rfl

/-- The freeze is lifted in the same transaction. -/
theorem brings_setAgreementStatus (a : Agreement) (s : AgreementStatus) :
    Brings first (.ruling id) (.ruling id) (setAgreementStatus a s) := by
  refine Takes.bind ?_ fun _ => takes_quiet (s := .flush) trivial (fun h => h) trivial trivial
  unfold assignStatus
  split
  · exact takes_ret ()
  · exact (keeps_assign _ _ _ (by decide)).takes trivial

/-- Saving the resolution, and what is answered. -/
theorem brings_saveResolution (a : Id) :
    Brings first (.ruling id) (.decided id) (do
      let saved ← Prog.attempt do
        flush
        commit
        refresh .dispute id
      match saved with
      | .error _ => do
          rollback
          .raise (.app .disputeCreation "Failed to resolve dispute")
      | .ok _ => do
          let participants ← getParticipantsForAgreement a
          cacheDelete (agreementCacheKeys a (participants.map (·.userId)))
          toDisputeResponse id : App DisputeResponse) := by
  have h := @routine_resolvedOnce first (.decided id) (still_resolvedOnce rfl rfl)
  have hsaved : Brings first (.ruling id) (.decided id) (do
      flush
      commit
      refresh .dispute id : App Dispute) :=
    Takes.bind (takes_quiet (s := .flush) trivial (fun h => h) trivial trivial) fun _ =>
      Takes.bind (takes_commit (D := resolvedOnce first) (g := .ruling id) trivial trivial trivial)
        fun _ => (h.refresh .dispute id).takes trivial
  refine hsaved.attempt (fun _ => ?_) fun _ _ _ => ?_
  · exact Keeps.takes (h.bind (h.getParticipantsForAgreement _) fun _ =>
      h.bind (h.cacheDelete _) fun _ => h.toDisputeResponse id) trivial
  · exact Takes.bind takes_rollback fun _ => takes_raise _ trivial

theorem brings_adminResolveDispute (u : Id) (data : DisputeResolveRequest) :
    Brings first (.deciding id) (.decided id) (adminResolveDispute id u data) := by
  have h := @routine_resolvedOnce first (.deciding id) (still_resolvedOnce rfl rfl)
  refine Takes.bind (Keeps.takes (h.getDispute id) trivial) fun found => ?_
  cases found with
  | none => exact takes_raise _ trivial
  | some dispute =>
      refine Takes.bind (Keeps.takes (h.raiseIf _ _) trivial) fun _ =>
        Takes.bind (Keeps.takes h.now trivial) fun time =>
          Takes.bind (brings_resolution data u time) fun _ =>
            Takes.bind (takes_quiet trivial (fun h => h) trivial trivial) fun found => ?_
      cases found with
      | none => exact brings_saveResolution _
      | some agreement =>
          dsimp only
          split
          · exact Takes.bind (brings_setAgreementStatus _ _) fun _ => brings_saveResolution _
          · exact brings_saveResolution _

/-- A request that answers has committed the resolution. -/
theorem brings_resolveDisputeRoute (u : Id) (data : DisputeResolveRequest) :
    Brings first (.deciding id) (.decided id) (resolveDisputeRoute u id data) := by
  have hstill : (resolvedOnce first).Still (.decided id) := still_resolvedOnce rfl rfl
  have h := routine_resolvedOnce hstill
  have h' := @routine_resolvedOnce first (.deciding id) (still_resolvedOnce rfl rfl)
  refine takes_closing rfl ?_
  refine Takes.bind (Keeps.takes (h'.authenticate u) trivial) fun user =>
    Takes.bind (Keeps.takes (h'.requireAdmin user) trivial) fun _ =>
      Takes.bind (brings_adminResolveDispute _ data) fun dispute => Keeps.takes ?_ trivial
  exact h.bind (h.select _) fun _ => h.bind (h.select _) fun _ =>
    h.bind (h.attempt (h.ite (resolvedOnce_settleDispute hstill _ _) (h.ret _))) fun _ =>
      h.bind (h.notifyEach _ _ _ (h.ret _)) fun _ =>
        h.bind (h.broadcastDisputeChange _) fun _ => h.ret _

end Resolving

/-! ## Disputes in every run -/

/-- What must hold of a state and of what is on record: an agreement has one
live dispute at most, a dispute that was not resolved at first has exactly as
many resolutions as its status says, and a request that has answered is the
one whose resolution it is. -/
structure Settled (first : Db adehun) (C : Conf adehun Response) (o : Docket) : Prop where
  oneLive : OneLive C.world.db
  once : ∀ id, ResolvedOnce first C.world.db id (o.resolvers id)
  answered : ∀ i id answer, C.threads i = some (.ret answer) → o.asked i = some id →
    o.resolvers id = [some i]

/-- How requests end. -/
def Answered (first : Db adehun) (i : Nat) (_ : Response) (w : World adehun) (o : Docket) : Prop :=
  ∃ g : RulingGhost, (resolvedOnce first).Own g i w o ∧ (g = .other ∨ ∃ id, g = .decided id)

theorem resolvedOnce_serves (settings : Settings) (first : Db adehun) :
    (resolvedOnce first).logic.Serves (Answered first) (handler settings) := by
  intro r i w o hi hidle
  have hinit := (resolvedOnce first).own_init r hi.2 hidle.1
  have hother : r.resolves = none → Safe (resolvedOnce first).logic i (Answered first i)
      (fun _ _ _ => True) (handler settings r) w (docket.start i r o) := by
    intro hr
    have hrest : (resolvedOnce first).rest r = .other := by
      show (match r.resolves with
        | some id => RulingGhost.deciding id
        | none => .other) = .other
      rw [hr]
    rw [hrest] at hinit
    exact Observer.safe_mono (fun _ _ _ h => ⟨.other, h, Or.inl rfl⟩) (fun _ _ _ _ => trivial)
      (resolvedOnce_keeps (still_resolvedOnce rfl rfl) settings r i w _ hinit)
  cases r with
  | resolveDispute u id data =>
      exact Observer.safe_mono (fun _ _ _ h => ⟨.decided id, h, Or.inr ⟨id, rfl⟩⟩)
        (fun _ _ _ _ => trivial) (brings_resolveDisputeRoute u data i w _ hinit)
  | _ => exact hother rfl

theorem settled_of_sound {first : Db adehun} {C : Conf adehun Response} {o : Docket}
    (h : (resolvedOnce first).logic.Sound (Answered first) C o) : Settled first C o := by
  refine ⟨oneLive_of_entriesDistinct h.inv.1.keys h.inv.1.entries, h.inv.2, ?_⟩
  intro i id answer hret hasked
  obtain ⟨w, o₀, hrely, g, hown, hg⟩ := h.returned hret
  obtain ⟨-, htold⟩ := hrely.2 g hown
  rcases hg with rfl | ⟨id', rfl⟩
  · rw [RulingGhost.Told, hasked] at htold
    cases htold
  · obtain ⟨hasked', hmem⟩ := htold
    rw [hasked, Option.some.injEq] at hasked'
    subst hasked'
    obtain ⟨s, hs⟩ := List.length_eq_one_iff.mp
      (Nat.le_antisymm (h.inv.2 id).once (List.length_pos_of_mem hmem))
    rw [hs, List.mem_singleton] at hmem
    rw [hs, hmem]

/-- In every run whose rulings are committed while the dispute is still as it
was read, statuses move one way, a resolved dispute stays as it is, and each
is resolved once. -/
theorem resolvedOnce_run {settings : Settings} {db : Db adehun} {shared : Shared}
    (hk : db.KeysDistinct) (he : db.EntriesDistinct) {ls : List (Label adehun Request)}
    (hg : (register.observer Request).RunMeets (grounded disputeRead) (handler settings)
      ({ world := { db, shared } } : Conf adehun Response) (fun _ => []) ls) :
    Conf.RunSteps (fun C C' => C.world.db.Rises Table.dispute Dispute.Precedes C'.world.db)
        (handler settings) { world := { db, shared } } ls ∧
      docket.Always (Settled db) (handler settings) { world := { db, shared } } {} ls := by
  have hwf : World.WF ({ db, shared } : World adehun) := World.wf_init hk he
  have hidle : ∀ i, World.Idle ({ db, shared } : World adehun) i :=
    fun i => ⟨rfl, fun l hl => by cases hl⟩
  have hnoted : (register.logic Request).Sound (fun _ _ _ _ => True)
      ({ world := { db, shared } } : Conf adehun Response) (fun _ => []) :=
    Diary.sound_init hwf hidle _
  refine ⟨rises_upheld.runSteps (register_serves settings) hnoted trivial hg, ?_⟩
  have hmeets : Conf.RunMeets rulesUnresolved (handler settings)
      ({ world := { db, shared } } : Conf adehun Response) ls := by
    refine Diary.runMeets_of_permitted (register_serves settings) hnoted (fun _ _ => trivial)
      ?_ ?_ (fun _ _ _ _ h => rulesUnresolved_of_grounded h) hg
    · intro X w i s c hs
      cases s with
      | commit => exact absurd trivial hs
      | _ => trivial
    · exact fun w i c hd hnil => absurd hnil hd
  have hsound : (resolvedOnce db).logic.Sound (Answered db)
      ({ world := { db, shared } } : Conf adehun Response) {} :=
    Observer.Logic.sound_init ⟨hwf, ResolvedOnce.init db⟩ hidle
  exact hsound.always (resolvedOnce_serves settings db) (fun _ _ h => settled_of_sound h)
    (Observer.runMeets_of_guard (O := docket) hmeets {})

/-! ### Two administrators at once

Both have read the dispute as open. The second decides for the depositor and
has answered when the first writes its own decision over it. -/

namespace ResolvedTwice

def db : Db adehun
  | .user => [
      ({ id := 1, email := "ada@mail", name := "Ada" } : User),
      ({ id := 2, email := "bob@mail", name := "Bob" } : User),
      ({ id := 3, email := "eve@mail", name := "Eve", isAdmin := true } : User),
      ({ id := 4, email := "joe@mail", name := "Joe", isAdmin := true } : User)]
  | .agreement => [
      ({ id := 20
         userId := 1
         title := "Work"
         description := ""
         amount := 10000
         status := .disputed } : Agreement)]
  | .agreementParticipant => [
      ({ id := 21, agreementId := 20, userId := 1, role := .depositor
         status := .accepted } : AgreementParticipant),
      ({ id := 22, agreementId := 20, userId := 2, role := .beneficiary
         status := .accepted } : AgreementParticipant)]
  | .dispute => [
      ({ id := 30
         agreementId := 20
         raisedByUserId := 1
         againstUserId := 2
         category := .other
         description := ""
         agreementStatusBefore := .active } : Dispute)]
  | _ => []

def favourBeneficiary : DisputeResolveRequest :=
  { outcome := .favourBeneficiary, supported := by decide, resolutionNotes := "" }

def favourDepositor : DisputeResolveRequest :=
  { outcome := .favourDepositor, supported := by decide, resolutionNotes := "" }

/-- Up to where the first resolution commits. -/
def script : List (Turn adehun Request) := [
  .arrive 0 (.resolveDispute 3 30 favourBeneficiary),
  .go 0 6 100,
  .arrive 1 (.resolveDispute 4 30 favourDepositor),
  .go 1 100 1000,
  .go 0 7 2000]

/-- One administrator claims the dispute and resolves it. The other one comes
too late. -/
def inTurn : List (Turn adehun Request) := [
  .arrive 0 (.markUnderReview 3 30),
  .go 0 100 100,
  .arrive 1 (.resolveDispute 3 30 favourBeneficiary),
  .go 1 100 1000,
  .arrive 2 (.resolveDispute 4 30 favourDepositor),
  .go 2 100 2000]

def start : Conf adehun Response := { world := { db := db, shared := {} } }

/-- The run of `inTurn`, and where it leads. -/
def run : List (Label adehun Request) × Conf adehun Response :=
  start.played (handler {}) inTurn

theorem db_keysDistinct : db.KeysDistinct := by
  intro t
  cases t <;> decide

theorem db_entriesDistinct : db.EntriesDistinct := by
  refine Db.entriesDistinct_of_pairwise fun t => ?_
  cases t <;> decide

theorem grounded_run : (register.observer Request).RunMeets (grounded disputeRead) (handler {})
    start (fun _ => []) run.1 :=
  Observer.runMeets_of_test (grounded.test disputeRead) (by decide +kernel)

def resolver (db : Db adehun) : Option Id :=
  (db.lookup ⟨Table.dispute, 30⟩).bind fun r : Dispute =>
    if r.status = .resolved then r.resolvedByUserId else none

/-- The resolution is not taken from one administrator to the other. -/
def staysResolved (C C' : Conf adehun Response) : Bool :=
  !(decide (resolver C.world.db = some 4) && decide (resolver C'.world.db = some 3))

theorem staysResolved_of_rises (C C' : Conf adehun Response)
    (h : C.world.db.Rises Table.dispute Dispute.Precedes C'.world.db) :
    staysResolved C C' = true := by
  rw [staysResolved, Bool.not_eq_true', Bool.and_eq_false_iff, decide_eq_false_iff_not,
    decide_eq_false_iff_not, ← not_and_or]
  rintro ⟨hbefore, hafter⟩
  obtain ⟨r, hr, hs⟩ := Option.bind_eq_some_iff.mp hbefore
  split at hs
  · next hresolved =>
      obtain ⟨r', hr', hle⟩ := h 30 r hr
      obtain rfl := hle.2 hresolved
      rw [resolver, hr', Option.bind_some, if_pos hresolved, hs] at hafter
      cases hafter
  · cases hs

end ResolvedTwice

/-- The dispute is claimed and resolved, and stays so. -/
theorem resolvedOnce_run_inTurn :
    ResolvedTwice.resolver (ResolvedTwice.start.played (handler {})
        (ResolvedTwice.inTurn.take 2)).2.world.db = none ∧
      ResolvedTwice.resolver ResolvedTwice.run.2.world.db = some 3 ∧
      Conf.RunSteps (fun C C' => C.world.db.Rises Table.dispute Dispute.Precedes C'.world.db)
        (handler {}) ResolvedTwice.start ResolvedTwice.run.1 ∧
      docket.Always (Settled ResolvedTwice.db) (handler {}) ResolvedTwice.start {}
        ResolvedTwice.run.1 :=
  ⟨by decide +kernel, by decide +kernel, resolvedOnce_run ResolvedTwice.db_keysDistinct
    ResolvedTwice.db_entriesDistinct ResolvedTwice.grounded_run⟩

/-- Over all runs a resolution can be written over. -/
theorem not_resolvedOnce : ¬ ∀ (settings : Settings) (db : Db adehun) (shared : Shared),
    db.KeysDistinct → db.EntriesDistinct → ∀ ls : List (Label adehun Request),
      Conf.RunSteps (fun C C' => C.world.db.Rises Table.dispute Dispute.Precedes C'.world.db)
          (handler settings) ({ world := { db, shared } } : Conf adehun Response) ls ∧
        docket.Always (Settled db) (handler settings) { world := { db, shared } } {} ls := by
  intro h
  refine Conf.not_runSteps_of_play ResolvedTwice.staysResolved_of_rises ResolvedTwice.script
    (.exec 0 {}) ?_ fun ls => (h {} ResolvedTwice.db {}
      ResolvedTwice.db_keysDistinct ResolvedTwice.db_entriesDistinct ls).1
  decide +kernel

end Adehun
