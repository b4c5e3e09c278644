import Adehun.Collapse
import Adehun.Sessions.Rows
import Adehun.Schema

/-!
# One participant for an agreement and a user

The migration that adds the unique constraint on participants. Rows of the
same agreement and user are collapsed onto the one with the lowest identifier,
and every foreign key that refers to one of the others is repointed before
they are deleted; the deletion fails where one was missed, and so does the
constraint where two rows are left.

Neither happens. Every reference leads to a row of the same agreement and the
same user as before, and running the migration again, once it has been taken
back, changes nothing. Where the constraint is there already the migration
stops, with nothing changed.
-/

namespace Adehun

namespace ParticipantMerge

open Sessions

/-- What is to be unique. -/
def pair (p : AgreementParticipant) : Id × Id := (p.agreementId, p.userId)

def participants (db : Db adehun) : List AgreementParticipant := db .agreementParticipant

/-! ## The statements -/

/-- `(array_agg(id ORDER BY id))[1]` of a group of several rows. -/
def keepId (db : Db adehun) (k : Id × Id) : Option Id :=
  if 1 < (Collapse.group pair (participants db) k).length then
    ((Collapse.group pair (participants db) k).map (·.id)).min?
  else none

/-- `participant_dupes`: the rows to go, each with the row to keep. -/
def participantDupes (db : Db adehun) : List (Id × Id) :=
  (participants db).filterMap fun p =>
    match keepId db (pair p) with
    | none => none
    | some keep => if p.id ≠ keep then some (p.id, keep) else none

/-- `SET x = d.keep_id FROM participant_dupes d WHERE x = d.loser_id` -/
def repoint (dupes : List (Id × Id)) (x : Id) : Id :=
  match dupes.find? (·.1 = x) with
  | some d => d.2
  | none => x

def updateConditions (dupes : List (Id × Id)) (db : Db adehun) : Db adehun :=
  db.set .condition ((db .condition : List Condition).map fun c =>
    { c with
      participantId := repoint dupes c.participantId
      requiredFromParticipantId := c.requiredFromParticipantId.map (repoint dupes) })

def updateAssets (dupes : List (Id × Id)) (db : Db adehun) : Db adehun :=
  db.set .asset ((db .asset : List Asset).map fun a =>
    { a with uploadedBy := repoint dupes a.uploadedBy })

def updateTransactions (dupes : List (Id × Id)) (db : Db adehun) : Db adehun :=
  db.set .transaction ((db .transaction : List Transaction).map fun t =>
    { t with participantId := t.participantId.map (repoint dupes) })

/-- The foreign keys that refer to a participant. -/
def references (db : Db adehun) : List Id :=
  ((db .condition : List Condition).flatMap fun c =>
      c.participantId :: c.requiredFromParticipantId.toList) ++
    (db .asset : List Asset).map (·.uploadedBy) ++
    (db .transaction : List Transaction).flatMap fun t => t.participantId.toList

/-- The rows to go deleted, unless something still refers to one. -/
def deleteDupes (dupes : List (Id × Id)) (db : Db adehun) : Except Exn (Db adehun) :=
  if (references db).any (· ∈ dupes.map (·.1)) then .error .integrity
  else .ok (db.set .agreementParticipant
    ((participants db).filter fun p => p.id ∉ dupes.map (·.1)))

/-- `ux_agreement_participant_agreement_user`, which must not be there yet. -/
def createConstraint (constrained : Bool) (db : Db adehun) : Except Exn (Db adehun) :=
  if constrained then .error .operational
  else if ((participants db).map pair).Nodup then .ok db
  else .error .integrity

/-- The migration, in one transaction: an error leaves the tables alone. -/
def upgrade (constrained : Bool) (db : Db adehun) : Except Exn (Db adehun) := do
  let dupes := participantDupes db
  let db := updateTransactions dupes (updateAssets dupes (updateConditions dupes db))
  let db ← deleteDupes dupes db
  createConstraint constrained db

/-! ## Who stays -/

/-- The row with the lowest identifier of each agreement and user. -/
def kept (db : Db adehun) : List AgreementParticipant :=
  Collapse.leaders pair AgreementParticipant.id (participants db)

/-- The identifiers tell the participants apart. -/
abbrev IdsDistinct (db : Db adehun) : Prop := ((participants db).map (·.id)).Nodup

variable {db : Db adehun} {p q : AgreementParticipant}

theorem ranked (h : IdsDistinct db) : Collapse.Ranked AgreementParticipant.id (participants db) :=
  fun _ ha _ hb hid => List.inj_on_of_nodup_map h ha hb hid

theorem mem_group : q ∈ Collapse.group pair (participants db) (pair p) ↔
    q ∈ participants db ∧ pair q = pair p := by
  rw [Collapse.group, List.mem_filter, decide_eq_true_eq]

/-- The row to keep is the one that stays, if there are others. -/
theorem keepId_eq_some {k : Id × Id} {keep : Id} (h : keepId db k = some keep) :
    ∃ q ∈ kept db, q.id = keep ∧ pair q = k := by
  unfold keepId at h
  split at h
  · obtain ⟨hmem, hle⟩ := List.min?_eq_some_iff.mp h
    obtain ⟨q, hq, rfl⟩ := List.mem_map.mp hmem
    obtain ⟨hq, hkey⟩ := List.mem_filter.mp hq
    rw [decide_eq_true_eq] at hkey
    refine ⟨q, Collapse.mem_leaders.mpr ⟨hq, ?_⟩, rfl, hkey⟩
    intro b hb hbkey
    refine hle b.id (List.mem_map_of_mem (List.mem_filter.mpr ⟨hb, ?_⟩))
    rw [decide_eq_true_eq, hbkey, hkey]
  · cases h

theorem keepId_isSome (hp : p ∈ participants db) (hq : q ∈ participants db)
    (hpair : pair q = pair p) (hne : q ≠ p) : (keepId db (pair p)).isSome := by
  have hlong : 1 < (Collapse.group pair (participants db) (pair p)).length := by
    have hp' := mem_group.mpr ⟨hp, rfl⟩
    have hq' := mem_group.mpr ⟨hq, hpair⟩
    match hrows : Collapse.group pair (participants db) (pair p) with
    | [] =>
        rw [hrows] at hp'
        cases hp'
    | [r] =>
        rw [hrows, List.mem_singleton] at hp' hq'
        exact absurd (hq'.trans hp'.symm) hne
    | _ :: _ :: _ => simp
  rw [keepId, if_pos hlong, List.isSome_min?_iff]
  intro hnil
  rw [List.map_eq_nil_iff] at hnil
  rw [hnil] at hlong
  exact absurd hlong (by simp)

/-- A row goes where another one of its agreement and user stays. -/
theorem mem_participantDupes (h : IdsDistinct db) {d : Id × Id} :
    d ∈ participantDupes db ↔ ∃ p ∈ participants db, ∃ q ∈ kept db,
      pair q = pair p ∧ q ≠ p ∧ d = (p.id, q.id) := by
  rw [participantDupes, List.mem_filterMap]
  constructor
  · rintro ⟨p, hp, hd⟩
    split at hd
    · cases hd
    · next keep hkeep =>
        split at hd
        · next hne =>
            obtain ⟨q, hq, rfl, hpair⟩ := keepId_eq_some hkeep
            refine ⟨p, hp, q, hq, hpair, ?_, (Option.some.inj hd).symm⟩
            rintro rfl
            exact hne rfl
        · cases hd
  · rintro ⟨p, hp, q, hq, hpair, hne, rfl⟩
    have hqmem := (Collapse.mem_leaders.mp hq).1
    refine ⟨p, hp, ?_⟩
    obtain ⟨keep, hkeep⟩ := Option.isSome_iff_exists.mp (keepId_isSome hp hqmem hpair hne)
    obtain ⟨q', hq', rfl, hpair'⟩ := keepId_eq_some hkeep
    obtain rfl := Collapse.eq_of_leaders (ranked h) hq' hq (hpair'.trans hpair.symm)
    have hid : p.id ≠ q'.id := fun hid => hne (ranked h q' hqmem p hp hid.symm)
    simp only [hkeep, if_pos hid]

/-- The rows that stay are those nobody is to replace. -/
theorem filter_eq_kept (h : IdsDistinct db) :
    (participants db).filter (fun p => p.id ∉ (participantDupes db).map (·.1)) = kept db := by
  refine List.filter_congr ?_
  intro p hp
  rw [Bool.eq_iff_iff, decide_eq_true_eq, List.mem_map]
  constructor
  · intro hnot
    obtain ⟨q, hq, hpair⟩ :=
      Collapse.exists_leader pair AgreementParticipant.id hp
    by_cases hqp : q = p
    · subst hqp
      exact Collapse.leads_iff.mpr (Collapse.mem_leaders.mp hq).2
    · refine absurd ⟨(p.id, q.id), ?_, rfl⟩ hnot
      exact (mem_participantDupes h).mpr ⟨p, hp, q, hq, hpair, hqp, rfl⟩
  · rintro hleads ⟨d, hd, hid⟩
    obtain ⟨p', hp', q, hq, hpair, hne, rfl⟩ := (mem_participantDupes h).mp hd
    obtain rfl := ranked h p' hp' p hp hid
    have hp'' : p' ∈ kept db := List.mem_filter.mpr ⟨hp, hleads⟩
    exact hne (Collapse.eq_of_leaders (ranked h) hq hp'' hpair)

/-! ## Where references lead -/

/-- A reference leads to the row that stays for the one it led to. -/
theorem repoint_participant (h : IdsDistinct db) (hp : p ∈ participants db) :
    ∃ q ∈ kept db, q.id = repoint (participantDupes db) p.id ∧ pair q = pair p := by
  unfold repoint
  split
  · next d hd =>
      have hid := List.find?_some hd
      obtain ⟨p', hp', q, hq, hpair, -, rfl⟩ :=
        (mem_participantDupes h).mp (List.mem_of_find?_eq_some hd)
      obtain rfl := ranked h p' hp' p hp (of_decide_eq_true hid)
      exact ⟨q, hq, rfl, hpair⟩
  · next hnone =>
      refine ⟨p, ?_, rfl, rfl⟩
      rw [← filter_eq_kept h, List.mem_filter, decide_eq_true_eq, List.mem_map]
      refine ⟨hp, ?_⟩
      rintro ⟨d, hd, hid⟩
      exact absurd (decide_eq_true hid) (List.find?_eq_none.mp hnone d hd)

theorem repoint_of_not_mem {x : Id} (h : x ∉ (participantDupes db).map (·.1)) :
    repoint (participantDupes db) x = x := by
  unfold repoint
  split
  · next d hd =>
      have hid := List.find?_some hd
      exact absurd (List.mem_map.mpr
        ⟨d, List.mem_of_find?_eq_some hd, of_decide_eq_true hid⟩) h
  · rfl

/-- No reference leads to a row that goes. -/
theorem repoint_not_mem (h : IdsDistinct db) (x : Id) :
    repoint (participantDupes db) x ∉ (participantDupes db).map (·.1) := by
  by_cases hx : x ∈ (participantDupes db).map (·.1)
  · obtain ⟨d, hd, rfl⟩ := List.mem_map.mp hx
    obtain ⟨p, hp, -, -, -, -, rfl⟩ := (mem_participantDupes h).mp hd
    obtain ⟨q, hq, hid, -⟩ := repoint_participant h hp
    rw [← filter_eq_kept h, List.mem_filter, decide_eq_true_eq] at hq
    rw [← hid]
    exact hq.2
  · rw [repoint_of_not_mem hx]
    exact hx

/-! ## The migration -/

/-- The tables afterwards. -/
def collapsed (db : Db adehun) : Db adehun :=
  (updateTransactions (participantDupes db) (updateAssets (participantDupes db)
    (updateConditions (participantDupes db) db))).set .agreementParticipant (kept db)

theorem references_updated (dupes : List (Id × Id)) (db : Db adehun) :
    references (updateTransactions dupes (updateAssets dupes (updateConditions dupes db))) =
      (references db).map (repoint dupes) := by
  have hc : ((updateTransactions dupes (updateAssets dupes (updateConditions dupes db)))
      Table.condition : List Condition) = (db .condition : List Condition).map fun c =>
        { c with
          participantId := repoint dupes c.participantId
          requiredFromParticipantId := c.requiredFromParticipantId.map (repoint dupes) } := rfl
  have ha : ((updateTransactions dupes (updateAssets dupes (updateConditions dupes db)))
      Table.asset : List Asset) = (db .asset : List Asset).map fun a =>
        { a with uploadedBy := repoint dupes a.uploadedBy } := rfl
  have ht : ((updateTransactions dupes (updateAssets dupes (updateConditions dupes db)))
      Table.transaction : List Transaction) = (db .transaction : List Transaction).map fun t =>
        { t with participantId := t.participantId.map (repoint dupes) } := rfl
  have htoList : ∀ o : Option Id, (o.map (repoint dupes)).toList = o.toList.map (repoint dupes) := by
    intro o
    cases o <;> rfl
  rw [references, hc, ha, ht, references]
  simp only [List.map_append, List.map_flatMap, List.flatMap_map, List.map_map, List.map_cons,
    htoList]
  rfl

/-- Neither the deletion nor a new constraint fails. -/
theorem upgrade_eq (h : IdsDistinct db) (constrained : Bool) : upgrade constrained db =
    if constrained then .error .operational else .ok (collapsed db) := by
  have hnone : ¬ ((references (updateTransactions (participantDupes db)
      (updateAssets (participantDupes db) (updateConditions (participantDupes db) db)))).any
      (· ∈ (participantDupes db).map (·.1))) := by
    rw [references_updated, List.any_map, List.any_eq_true]
    rintro ⟨x, -, hx⟩
    exact repoint_not_mem h x (of_decide_eq_true hx)
  have hunique : ((participants (collapsed db)).map pair).Nodup :=
    Collapse.leaders_keys_nodup (ranked h) (List.Nodup.of_map _ h)
  have hfilter : (participants (updateTransactions (participantDupes db)
      (updateAssets (participantDupes db) (updateConditions (participantDupes db) db)))).filter
      (fun p => p.id ∉ (participantDupes db).map (·.1)) = kept db := filter_eq_kept h
  simp only [upgrade, deleteDupes, bind, Except.bind, if_neg hnone, hfilter]
  cases constrained
  · exact if_pos hunique
  · rfl

/-- Every reference leads to a participant. -/
def Intact (db : Db adehun) : Prop :=
  ∀ x ∈ references db, ∃ p ∈ participants db, p.id = x

/-- What the migration may do to the tables. Rows of participants go where
another of the same agreement and user stays; references follow, by a map
that leads every one of them to such a row; and nothing else changes. -/
structure Collapsed (db db' : Db adehun) : Prop where
  unique : ((participants db').map pair).Nodup
  sublist : (participants db').Sublist (participants db)
  lowest : ∀ p ∈ participants db, ∃ q ∈ participants db', pair q = pair p ∧ q.id ≤ p.id
  references : ∃ f : Id → Id,
    (∀ p ∈ participants db, ∃ q ∈ participants db', q.id = f p.id ∧ pair q = pair p) ∧
    (∀ q ∈ participants db', f q.id = q.id) ∧
    (db' .condition : List Condition) = (db .condition : List Condition).map (fun c =>
      { c with
        participantId := f c.participantId
        requiredFromParticipantId := c.requiredFromParticipantId.map f }) ∧
    (db' .asset : List Asset) = (db .asset : List Asset).map (fun a =>
      { a with uploadedBy := f a.uploadedBy }) ∧
    (db' .transaction : List Transaction) = (db .transaction : List Transaction).map (fun t =>
      { t with participantId := t.participantId.map f })
  intact : Intact db → Intact db'
  others : ∀ t, t ≠ .agreementParticipant → t ≠ .condition → t ≠ .asset → t ≠ .transaction →
    db' t = db t
  again : ∀ constrained, upgrade constrained db' =
    if constrained then .error .operational else .ok db'

theorem participants_collapsed (db : Db adehun) : participants (collapsed db) = kept db := rfl

theorem kept_sublist : (kept db).Sublist (participants db) := List.filter_sublist

theorem set_same (db : Db adehun) (t : Table) : db.set t (db t) = db := by
  funext t'
  by_cases ht : t' = t
  · subst ht
    rw [Db.set_self]
  · exact Db.set_of_ne db _ ht

theorem update_nil (db : Db adehun) :
    updateTransactions [] (updateAssets [] (updateConditions [] db)) = db := by
  have hnil : repoint [] = id := rfl
  have hc : updateConditions [] db = db := by
    simp only [updateConditions, hnil, Option.map_id, id_eq, List.map_id']
    exact set_same db .condition
  have ha : updateAssets [] db = db := by
    simp only [updateAssets, hnil, id_eq, List.map_id']
    exact set_same db .asset
  rw [hc, ha]
  simp only [updateTransactions, hnil, Option.map_id, id_eq, List.map_id']
  exact set_same db .transaction

/-- What has been collapsed has nothing to collapse. -/
theorem upgrade_of_unique (h : IdsDistinct db) (hunique : ((participants db).map pair).Nodup)
    (constrained : Bool) : upgrade constrained db =
      if constrained then .error .operational else .ok db := by
  have hkept : kept db = participants db := Collapse.leaders_eq_self hunique
  have hnone : participantDupes db = [] := by
    refine List.eq_nil_iff_forall_not_mem.mpr ?_
    intro d hd
    obtain ⟨p, hp, q, hq, hpair, hne, -⟩ := (mem_participantDupes h).mp hd
    exact hne (List.inj_on_of_nodup_map hunique (kept_sublist.subset hq) hp hpair)
  rw [upgrade_eq h, collapsed, hnone, update_nil, hkept]
  exact if_congr Iff.rfl rfl (congrArg Except.ok (set_same db .agreementParticipant))

/-- The migration gets through, and loses nothing but duplicates. -/
theorem upgrade_collapses (h : IdsDistinct db) :
    ∃ db', upgrade false db = .ok db' ∧ Collapsed db db' := by
  have hunique : ((participants (collapsed db)).map pair).Nodup :=
    Collapse.leaders_keys_nodup (ranked h) (List.Nodup.of_map _ h)
  have hids : IdsDistinct (collapsed db) := h.sublist (kept_sublist.map _)
  have hleads : ∀ p ∈ participants db, ∃ q ∈ participants (collapsed db),
      q.id = repoint (participantDupes db) p.id ∧ pair q = pair p :=
    fun p hp => repoint_participant h hp
  refine ⟨collapsed db, upgrade_eq h false, hunique, kept_sublist, ?_,
    ⟨repoint (participantDupes db), hleads, ?_, rfl, rfl, rfl⟩, ?_, ?_,
    upgrade_of_unique hids hunique⟩
  · intro p hp
    obtain ⟨q, hq, hpair⟩ :=
      Collapse.exists_leader pair AgreementParticipant.id hp
    exact ⟨q, hq, hpair, (Collapse.mem_leaders.mp hq).2 p hp hpair.symm⟩
  · intro q hq
    rw [participants_collapsed, ← filter_eq_kept h, List.mem_filter, decide_eq_true_eq] at hq
    exact repoint_of_not_mem hq.2
  · intro hintact x hx
    have hrefs : references (collapsed db) =
        (references db).map (repoint (participantDupes db)) :=
      references_updated (participantDupes db) db
    rw [hrefs, List.mem_map] at hx
    obtain ⟨y, hy, rfl⟩ := hx
    obtain ⟨p, hp, rfl⟩ := hintact y hy
    obtain ⟨q, hq, hid, -⟩ := hleads p hp
    exact ⟨q, hq, hid⟩
  · intro t hp hc ha ht
    rw [collapsed, Db.set_of_ne _ _ hp, updateTransactions, Db.set_of_ne _ _ ht, updateAssets,
      Db.set_of_ne _ _ ha, updateConditions, Db.set_of_ne _ _ hc]

/-- Bob is a participant three times over, and the condition he added as the
second of them is required from the third. -/
def threeTimes : Db adehun
  | .agreementParticipant => [
      ({ id := 5, agreementId := 1, userId := 2, role := .beneficiary
         status := .accepted } : AgreementParticipant),
      ({ id := 3, agreementId := 1, userId := 2, role := .beneficiary
         status := .invited } : AgreementParticipant),
      ({ id := 4, agreementId := 1, userId := 1, role := .depositor
         status := .accepted } : AgreementParticipant),
      ({ id := 7, agreementId := 1, userId := 2, role := .beneficiary
         status := .invited } : AgreementParticipant)]
  | .condition => [
      ({ id := 8, agreementId := 1, participantId := 5, title := "", description := ""
         requiredFromParticipantId := some 7 } : Condition)]
  | _ => []

theorem upgrade_collapses_threeTimes :
    ∃ db', upgrade false threeTimes = .ok db' ∧ Collapsed threeTimes db' :=
  @upgrade_collapses threeTimes (by decide)

example : (upgrade false threeTimes).toOption.map references = some [3, 3] := by decide +kernel

end ParticipantMerge

end Adehun
