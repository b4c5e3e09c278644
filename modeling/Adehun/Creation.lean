import Adehun.Restart

/-!
# A creation, run alone

What `create_agreement` does to the tables when nobody else is at work: an
agreement, its creator's row, an invitation and the conditions, in one
transaction. The rows are functions of the identifiers drawn for them.
-/

namespace Adehun

open Sessions

/-! ## The rows -/

/-- The conditions of a new agreement, with the identifiers drawn for them. -/
def newConditions (agreementId creatorId invitationId : Id) :
    List ConditionCreate → (Nat → Id) → List Condition
  | [], _ => []
  | c :: κ, ids =>
      { id := ids 0
        agreementId := agreementId
        participantId := creatorId
        title := c.title
        description := c.description
        invitationId := some invitationId } ::
      newConditions agreementId creatorId invitationId κ fun n => ids (n + 1)

/-- Who creates what, and the identifiers drawn for it. -/
structure Creation where
  userId : Id
  data : AgreementCreate
  ids : Nat → Id

namespace Creation

variable (k : Creation)

def agreement : Agreement :=
  { id := k.ids 0
    userId := k.userId
    title := k.data.title
    description := k.data.description
    amount := k.data.amount }

def creator : AgreementParticipant :=
  { id := k.ids 1
    userId := k.userId
    agreementId := k.ids 0
    role := k.data.role
    status := .accepted }

def invitation (time : Nat) : Invitation :=
  { id := k.ids 3
    email := k.data.inviteeEmail
    token := k.ids 2
    agreementId := k.ids 0
    role := k.data.role.opposite
    invitedBy := k.userId
    expiresAt := time + invitationTtl }

def conditions : List Condition :=
  newConditions (k.ids 0) (k.ids 1) (k.ids 3) k.data.conditions fun n => k.ids (n + 4)

def newAgreement : Write adehun := .insert .agreement k.agreement

def newCreator : Write adehun := .insert .agreementParticipant k.creator

def newInvitation (time : Nat) : Write adehun := .insert .invitation (k.invitation time)

def newRows : List (Write adehun) :=
  k.conditions.map (Write.insert (M := adehun) Table.condition)

/-- The tables with the new rows, before the conditions and with them. -/
def invited (db : Db adehun) (time : Nat) : Db adehun :=
  (k.newInvitation time).apply (k.newCreator.apply (k.newAgreement.apply db))

def created (db : Db adehun) (time : Nat) : Db adehun := (k.invited db time).applyAll k.newRows

/-- Every identifier drawn is one that nothing has or refers to. -/
structure New (db : Db adehun) : Prop where
  injective : Function.Injective k.ids
  rows : ∀ n (t : Table) (r : t.Row), r ∈ db t → rowId r ≠ k.ids n
  noParticipants : ∀ n, ∀ p ∈ (db .agreementParticipant : List AgreementParticipant),
    p.agreementId ≠ k.ids n
  noInvitations : ∀ n, ∀ v ∈ (db .invitation : List Invitation),
    v.agreementId ≠ k.ids n ∧ v.token ≠ k.ids n
  noConditions : ∀ n, ∀ c ∈ (db .condition : List Condition),
    c.agreementId ≠ k.ids n ∧ c.invitationId ≠ some (k.ids n)

end Creation

section Rows

theorem newConditions_ids (a p v : Id) (κ : List ConditionCreate) (ids : Nat → Id) :
    (newConditions a p v κ ids).map (·.id) = (List.range κ.length).map ids := by
  induction κ generalizing ids with
  | nil => rfl
  | cons c κ ih =>
      rw [newConditions, List.map_cons, ih, List.length_cons, List.range_succ_eq_map,
        List.map_cons, List.map_map]
      rfl

theorem newConditions_fields {a p v : Id} {κ : List ConditionCreate} {ids : Nat → Id}
    {c : Condition} (h : c ∈ newConditions a p v κ ids) :
    c.agreementId = a ∧ c.invitationId = some v ∧ c.requiredFromParticipantId = none := by
  induction κ generalizing ids with
  | nil => cases h
  | cons d κ ih =>
      rcases List.mem_cons.mp h with rfl | h
      · exact ⟨rfl, rfl, rfl⟩
      · exact ih h

end Rows

section Created

variable {k : Creation} {db : Db adehun} (h : k.New db) (hs : db.Sound) (time : Nat)

include h in
theorem Creation.New.lookup {t : Table} (n : Nat) : db.lookup ⟨t, k.ids n⟩ = none := by
  rw [Db.lookup_eq_none]
  intro hmem
  obtain ⟨r, hr, hid⟩ := List.mem_map.mp hmem
  exact h.rows n t r hr hid

/-- A new row that shares no index entry. -/
theorem insert_goes {db : Db adehun} {t : Table} {r : t.Row}
    (hnew : db.lookup ⟨t, rowId r⟩ = none) (hcheck : rowCheck r = none)
    (hentries : ∀ r' ∈ db t, ∀ e ∈ rowEntries r', e ∉ rowEntries r) :
    (Write.insert t r : Write adehun).refusal db = none := by
  have hclash : db.clash (M := adehun) (t := t) r = false := by
    rw [Db.clash, List.any_eq_false]
    intro r' hr'
    simp only [Bool.and_eq_true, List.any_eq_true, decide_eq_true_eq, not_and, not_exists]
    exact fun _ e he => hentries r' hr' e he
  have hfree : db.lookup ⟨t, adehun.id (t := t) r⟩ = none := hnew
  simp only [Write.refusal, hfree, hclash]
  exact hcheck

omit h in
theorem insert_self (db : Db adehun) (t : Table) (r : t.Row) :
    (Write.insert t r : Write adehun).apply db t = db t ++ [r] := by
  simp [Write.apply]

namespace Creation.New

include h

theorem agreement_goes : k.newAgreement.refusal db = none :=
  insert_goes (t := .agreement) (h.lookup 0) rfl fun _ _ _ he => by cases he

theorem creator_goes : k.newCreator.refusal (k.newAgreement.apply db) = none := by
  refine insert_goes (t := .agreementParticipant) ?_ rfl ?_
  · rw [newAgreement, Write.lookup_apply_of_ne _ (by simp)]
    exact h.lookup 1
  · rw [newAgreement, Write.apply_table_of_ne _ (by simp)]
    intro p hp e he he'
    simp only [rowEntries, List.mem_singleton] at he he'
    rw [he] at he'
    exact h.noParticipants 0 p hp (Index.participant.inj he').1

theorem invitation_goes :
    (k.newInvitation time).refusal (k.newCreator.apply (k.newAgreement.apply db)) = none := by
  refine insert_goes (t := .invitation) ?_ rfl ?_
  · rw [newCreator, Write.lookup_apply_of_ne _ (by simp), newAgreement,
      Write.lookup_apply_of_ne _ (by simp)]
    exact h.lookup 3
  · rw [newCreator, Write.apply_table_of_ne _ (by simp), newAgreement,
      Write.apply_table_of_ne _ (by simp)]
    intro v hv e he he'
    simp only [rowEntries, List.mem_singleton] at he he'
    rw [he] at he'
    exact (h.noInvitations 2 v hv).2 (Index.invitationToken.inj he')

omit h in
/-- The other tables are what they were. -/
theorem invited_apart {t : Table} (h₁ : t ≠ .agreement) (h₂ : t ≠ .agreementParticipant)
    (h₃ : t ≠ .invitation) : k.invited db time t = db t := by
  rw [invited, newInvitation, Write.apply_table_of_ne _ (Ne.symm h₃), newCreator,
    Write.apply_table_of_ne _ (Ne.symm h₂), newAgreement, Write.apply_table_of_ne _ (Ne.symm h₁)]

theorem ids_nodup : (k.conditions.map (·.id)).Nodup := by
  rw [Creation.conditions, newConditions_ids]
  refine List.Nodup.map ?_ List.nodup_range
  intro i j hij
  have := h.injective hij
  omega

omit h in
theorem id_of_condition {c : Condition} (hc : c ∈ k.conditions) : ∃ n, c.id = k.ids (n + 4) := by
  have hmem := List.mem_map_of_mem (f := (·.id)) hc
  rw [Creation.conditions, newConditions_ids] at hmem
  obtain ⟨n, -, hn⟩ := List.mem_map.mp hmem
  exact ⟨n, hn.symm⟩

include hs

theorem sound_invited : (k.invited db time).Sound :=
  ((hs.apply h.agreement_goes).apply h.creator_goes).apply (h.invitation_goes time)

theorem conditions_go : (k.invited db time).sendAll k.newRows = .ok (k.created db time) := by
  show (k.invited db time).sendAll (k.conditions.map (Write.insert (M := adehun) Table.condition)) = _
  refine (h.sound_invited hs time).sendInserts (fun _ _ => rfl) (fun _ _ => rfl) h.ids_nodup ?_
  intro c hc
  obtain ⟨n, hn⟩ := id_of_condition hc
  show (k.invited db time).lookup ⟨.condition, c.id⟩ = none
  simp only [Db.lookup]
  rw [invited_apart time (by decide) (by decide) (by decide), hn]
  exact h.lookup (t := .condition) (n + 4)

theorem sound_created : (k.created db time).Sound :=
  (h.sound_invited hs time).sendAll (h.conditions_go hs time)

omit h hs in
/-- The tables of a new agreement: what was there, and the new rows. -/
theorem created_apart {t : Table} (ht : t ≠ .condition) :
    k.created db time t = k.invited db time t :=
  Db.inserts_apart (M := adehun) (t := .condition) ht k.conditions

omit h hs in
theorem created_agreement : (k.created db time .agreement : List Agreement) =
    db .agreement ++ [k.agreement] := by
  rw [created_apart time (by decide), Creation.invited, Creation.newInvitation,
    Write.apply_table_of_ne _ (by simp), Creation.newCreator,
    Write.apply_table_of_ne _ (by simp)]
  exact insert_self db .agreement k.agreement

omit h hs in
theorem created_participant :
    (k.created db time .agreementParticipant : List AgreementParticipant) =
      db .agreementParticipant ++ [k.creator] := by
  rw [created_apart time (by decide), Creation.invited, Creation.newInvitation,
    Write.apply_table_of_ne _ (by simp), Creation.newCreator, insert_self, Creation.newAgreement,
    Write.apply_table_of_ne _ (by simp)]

omit h hs in
theorem created_invitation : (k.created db time .invitation : List Invitation) =
    db .invitation ++ [k.invitation time] := by
  rw [created_apart time (by decide), Creation.invited, Creation.newInvitation, insert_self,
    Creation.newCreator, Write.apply_table_of_ne _ (by simp), Creation.newAgreement,
    Write.apply_table_of_ne _ (by simp)]

omit h hs in
theorem created_condition : (k.created db time .condition : List Condition) =
    db .condition ++ k.conditions := by
  rw [Creation.created]
  refine (Db.applyAll_inserts (M := adehun) .condition k.conditions).trans ?_
  rw [invited_apart time (by decide) (by decide) (by decide)]

omit h hs in
theorem created_user : k.created db time .user = db .user := by
  rw [created_apart time (by decide), invited_apart time (by decide) (by decide) (by decide)]

end Creation.New

end Created

/-! ## Around the commit -/

/-- What `create_agreement` does up to its commit. -/
def stageAgreement (currentUserId : Id) (data : AgreementCreate) :
    App (Id × AgreementParticipant × List Id) := do
  let agreementId ← fresh
  add .agreement
    { id := agreementId
      title := data.title
      description := data.description
      amount := data.amount
      userId := currentUserId }
  flush
  let creatorId ← fresh
  let creator : AgreementParticipant :=
    { id := creatorId
      userId := currentUserId
      agreementId := agreementId
      role := data.role
      status := .accepted }
  add .agreementParticipant creator
  flush
  let invitation ← inviteParticipant data.role currentUserId data.inviteeEmail agreementId
  let conditionIds ← addConditions agreementId creatorId invitation.id data.conditions
  pure (agreementId, creator, conditionIds)

/-- What follows the commit of a new agreement: the creator's row is put back
if it is missing, and the agreement is shown. -/
def showCreation (userId agreementId : Id) (creator : AgreementParticipant)
    (conditionIds : List Id) : App (AgreementResponse × List ConditionResponse) := do
  let conditions ← Prog.forEach (refresh .condition) conditionIds
  match ← getParticipantForUser agreementId userId with
  | some _ => pure ()
  | none => do
      let id ← fresh
      add .agreementParticipant { creator with id := id }
      commit
      let _ ← refresh .agreementParticipant id
  match ← getById agreementId with
  | none => .raise agreementNotFound
  | some found => do
      let response ← toAgreementResponse found conditions.length 0 none false
      let shown ← Prog.forEach conditionResponse conditions
      pure (response, shown)

theorem createAgreementRows_eq (currentUserId : Id) (data : AgreementCreate) :
    createAgreementRows currentUserId data = (do
      let staged ← stageAgreement currentUserId data
      commit
      showCreation currentUserId staged.1 staged.2.1 staged.2.2) := by
  simp only [createAgreementRows, stageAgreement, bind_assoc, pure_bind]
  rfl

/-! ## The request, run alone -/

section CreateSolo

open Prog

variable {db view : Db adehun} {κ : List (Db adehun)} {m : Shared} {χ : Chance adehun}

/-- A copy of an invitation, under its token. -/
def storing (v : Invitation) (m : Shared) : Shared :=
  { m with cache := (.invitation v.token, .invitation v) :: m.cache }

/-- An invitation is added and sent, and its token cached. -/
theorem inviteParticipant_solo (db view : Db adehun) {role : ParticipantRole} {creatorId : Id} {email : String}
    {agreementId : Id} {v : Nat → Invitation}
    (hv : v = fun time =>
      { id := χ.ids 1
        email := email
        token := χ.ids 0
        agreementId := agreementId
        role := role.opposite
        invitedBy := creatorId
        expiresAt := time + invitationTtl })
    (hgoes : ∀ time, (Write.insert .invitation (v time) : Write adehun).refusal view = none) :
    ∃ time m' χ', (inviteParticipant role creatorId email agreementId).solo
        (.amid db view κ m χ) =
      (.ok (v time), .amid db ((Write.insert .invitation (v time) : Write adehun).apply view) κ
        (storing (v time) m') χ') ∧
      (χ'.ids = fun n => χ.ids (n + 2)) ∧
      ∀ R : Shared → Shared → Prop, Drift (M := adehun) R → R m m' := by
  subst hv
  have hnow : now.solo (.amid db view κ m χ.next.next) =
      (.ok (Solo.weathered (.amid db view κ m χ.next.next)).shared.now,
        Solo.weathered (.amid db view κ m χ.next.next)) := now_solo
  obtain ⟨m₁, χ₁, hw, hids⟩ : ∃ m₁ χ₁, Solo.weathered (.amid db view κ m χ.next.next) =
      .amid db view κ m₁ χ₁ ∧ χ₁.ids = fun n => χ.ids (n + 2) := ⟨_, _, rfl, rfl⟩
  have hfirst : ∀ R : Shared → Shared → Prop, Drift (M := adehun) R → R m m₁ := by
    intro R hR
    have := hR.weathered (.amid db view κ m χ.next.next)
    rw [hw] at this
    exact this
  rw [hw] at hnow
  refine ⟨m₁.now, ?_⟩
  have hfresh : ∀ c : Chance adehun, fresh.solo (.amid db view κ m c) =
      (.ok (c.ids 0), .amid db view κ m c.next) := fun _ => rfl
  unfold inviteParticipant
  rw [Prog.solo_bind_ok (hfresh χ), Prog.solo_bind_ok (hfresh χ.next), Prog.solo_bind_ok hnow]
  refine ⟨_, _, (Solo.send_amid (hgoes m₁.now) _).trans rfl, hids, fun R hR => ?_⟩
  exact hR.trans (hfirst R hR) (hR.weathered (.amid db view κ m₁ χ₁))

theorem addConditions_solo (db view : Db adehun) (agreementId creatorId invitationId : Id)
    (conditions : List ConditionCreate) (ds : List (Write adehun)) :
    ∃ χ', (addConditions agreementId creatorId invitationId conditions).solo
        { Solo.amid db view κ m χ with dirty := ds } =
      (.ok ((newConditions agreementId creatorId invitationId conditions χ.ids).map (·.id)),
        { Solo.amid db view κ m χ' with
          dirty := ds ++ (newConditions agreementId creatorId invitationId conditions χ.ids).map
            (Write.insert (M := adehun) Table.condition) }) := by
  unfold addConditions
  induction conditions generalizing χ ds with
  | nil => exact ⟨χ, by simp [newConditions, Prog.forEach]⟩
  | cons c conditions ih =>
      obtain ⟨χ', h⟩ := ih (χ := χ.next) (ds ++ [Write.insert (M := adehun)
        Table.condition
          { id := χ.ids 0
            agreementId := agreementId
            participantId := creatorId
            title := c.title
            description := c.description
            invitationId := some invitationId }])
      refine ⟨χ', ?_⟩
      rw [Prog.forEach, Prog.solo_bind']
      refine (Prog.solo_bind_ok h).trans ?_
      simp [newConditions]
      exact ⟨⟨rfl, rfl⟩, rfl⟩

theorem looks_conditionResponse (c : Condition) : Looks (conditionResponse c) :=
  looks_compositional.bind (looks_reading.attributes _ _) fun _ => looks_compositional.ret _

/-- It is not missing. -/
theorem showCreation_solo (userId agreementId : Id) (creator : AgreementParticipant)
    (hs : db.Sound)
    (hfound : ∃ p, p ∈ (db .agreementParticipant : List AgreementParticipant) ∧
      p.agreementId = agreementId ∧ p.userId = userId) (conditionIds : List Id) :
    ∃ r m' χ', (showCreation userId agreementId creator conditionIds).solo
        (.between db κ m χ) = (r, .between db κ m' χ') := by
  have hlooks := looks_reading.forEach (fun id => looks_reading.refresh .condition id)
    conditionIds
  obtain ⟨r, m', χ', hrows⟩ := looks_between (κ := κ) (m := m) (χ := χ) hlooks
  unfold showCreation
  cases r with
  | error e => exact ⟨_, m', χ', Prog.solo_bind_error hrows⟩
  | ok conditions =>
      rw [Prog.solo_bind_ok hrows]
      obtain ⟨p, hp, hpa, hpu⟩ := hfound
      have hjoined := getParticipantForUser_solo (σ := .between db κ m' χ') Solo.tidy_between hs
        agreementId userId
      rw [Solo.between_view] at hjoined
      have hsome : ((db .agreementParticipant : List AgreementParticipant).find? fun p =>
          p.agreementId = agreementId && p.userId = userId).isSome := by
        rw [List.find?_isSome]
        exact ⟨p, hp, by simp [hpa, hpu]⟩
      obtain ⟨q, hq⟩ := Option.isSome_iff_exists.mp hsome
      rw [hq] at hjoined
      rw [Prog.solo_bind_ok hjoined]
      refine looks_between ?_
      refine looks_compositional.bind (looks_getById _) fun found => ?_
      cases found with
      | none => exact looks_compositional.raise _
      | some found =>
          exact looks_compositional.bind (looks_toAgreementResponse _ _ _ _ _) fun response =>
            looks_compositional.bind
              (looks_reading.forEach looks_conditionResponse conditions) fun _ =>
              looks_compositional.ret _

section New

variable {k : Creation} (h : k.New db) (hs : db.Sound) (hids : χ.ids = k.ids)

include h hs hids

/-- The transaction that makes an agreement. The copy is stored before it is
committed. -/
theorem createAgreementRows_commit :
    ∃ time m' χ', (createAgreementRows k.userId k.data).solo (.between db κ m χ) =
      (showCreation k.userId (k.ids 0) k.creator (k.conditions.map (·.id))).solo
        (.between (k.created db time) (k.created db time :: κ)
          (storing (k.invitation time) m') χ') ∧
      ∀ R : Shared → Shared → Prop, Drift (M := adehun) R → R m m' := by
  obtain ⟨time, m₁, χ₁, hinvite, hids₁, hdrift⟩ := inviteParticipant_solo db
    (k.newCreator.apply (k.newAgreement.apply db)) (κ := κ) (m := m) (χ := χ.next.next)
    (v := k.invitation)
    (by rw [show χ.next.next.ids = fun n => k.ids (n + 2) by rw [← hids]; rfl]; rfl)
    (fun time => h.invitation_goes time)
  obtain ⟨χ₂, hconditions⟩ := addConditions_solo db (k.invited db time)
    (κ := κ) (m := storing (k.invitation time) m₁) (χ := χ₁) (k.ids 0) (k.ids 1) (k.ids 3)
    k.data.conditions []
  rw [show newConditions (k.ids 0) (k.ids 1) (k.ids 3) k.data.conditions χ₁.ids = k.conditions by
    rw [hids₁, Creation.conditions, ← hids]; rfl] at hconditions
  have hcommit := Solo.commit_amid db (k.invited db time) (κ := κ) (m := storing (k.invitation time) m₁)
    (χ := χ₂) (h.conditions_go hs time)
  refine ⟨time, m₁, χ₂, ?_, hdrift⟩
  have hfresh : ∀ c : Chance adehun, ∀ v, fresh.solo (.amid db v κ m c) =
      (.ok (c.ids 0), .amid db v κ m c.next) := fun _ _ => rfl
  unfold createAgreementRows
  rw [← Solo.amid_self, Prog.solo_bind_ok (hfresh χ db), hids]
  refine (Solo.send_amid h.agreement_goes _).trans ?_
  rw [Prog.solo_bind_ok (hfresh χ.next _), show χ.next.ids 0 = k.ids 1 by rw [← hids]; rfl]
  refine (Solo.send_amid h.creator_goes _).trans ?_
  rw [Prog.solo_bind_ok hinvite]
  refine (Prog.solo_bind_ok hconditions).trans ?_
  exact Prog.solo_bind_ok hcommit

omit hids in
theorem showCreation_created (time : Nat) : ∃ r m' χ',
    (showCreation k.userId (k.ids 0) k.creator (k.conditions.map (·.id))).solo
      (.between (k.created db time) κ m χ) = (r, .between (k.created db time) κ m' χ') :=
  showCreation_solo k.userId (k.ids 0) k.creator (h.sound_created hs time)
    ⟨k.creator, by simp [Creation.New.created_participant], rfl, rfl⟩ (k.conditions.map (·.id))

/-- A creation that nobody refuses. -/
theorem createAgreement_called {email : String}
    (hother : ¬ (email ≠ "" ∧ k.data.inviteeEmail.toList = lower email)) :
    ∃ time m₁ χ₁, (called (createAgreement k.userId email k.data) db m χ).db = k.created db time ∧
      (called (createAgreement k.userId email k.data) db m χ).shared =
        ((showCreation k.userId (k.ids 0) k.creator (k.conditions.map (·.id))).solo
          (.between (k.created db time) [k.created db time]
            (storing (k.invitation time) m₁) χ₁)).2.shared ∧
      ∀ R : Shared → Shared → Prop, Drift (M := adehun) R → R m m₁ := by
  obtain ⟨time, m₁, χ₁, hrows, hdrift⟩ := createAgreementRows_commit (κ := []) (m := m) h hs hids
  obtain ⟨r, m', χ', hshown⟩ := showCreation_created (κ := [k.created db time])
    (m := storing (k.invitation time) m₁) (χ := χ₁) h hs time
  have hattempt := solo_attempt (σ := .between db [] m χ) (createAgreementRows k.userId k.data)
  rw [hrows, hshown] at hattempt
  have hcreate : ∃ r', (createAgreement k.userId email k.data).solo (.between db [] m χ) =
      (r', .between (k.created db time) [k.created db time] m' χ') := by
    unfold createAgreement
    rw [Prog.solo_bind_ok (raiseIf_pass hother), Prog.solo_bind_ok hattempt]
    cases r with
    | ok shown => exact ⟨_, rfl⟩
    | error e => exact ⟨_, rfl⟩
  obtain ⟨r', hr'⟩ := hcreate
  refine ⟨time, m₁, χ₁, ?_, ?_, hdrift⟩
  · rw [called_eq hr', Solo.between_db]
  · rw [called_eq hr', hshown, Solo.between_shared]

end New

/-- Nobody creates an agreement with themselves. -/
theorem createAgreement_self {userId : Id} {email : String} {data : AgreementCreate}
    (hself : email ≠ "" ∧ data.inviteeEmail.toList = lower email) :
    (createAgreement userId email data).solo (.between db [] m χ) =
      (.error (.app .badRequest "You cannot invite yourself to an agreement"),
        .between db [] m χ) := by
  unfold createAgreement
  rw [Prog.solo_bind_error (raiseIf_stop hself)]

end CreateSolo

/-! Ada, who is about to make an agreement with Bob. -/

namespace Deal

def ada : User := { id := 1, email := "ada@mail", name := "Ada" }

def bob : User := { id := 2, email := "bob@mail", name := "Bob" }

def db : Db adehun
  | .user => [ada, bob]
  | _ => []

theorem amount_pos : (0 : Kobo) < 10000 := by decide

def data : AgreementCreate :=
  { inviteeEmail := "bob@mail"
    role := .depositor
    title := "Work"
    description := ""
    amount := 10000
    amount_pos := amount_pos
    conditions := [
      { title := "Draft", description := "", requiredFromEmail := "bob@mail" },
      { title := "Brief", description := "", requiredFromEmail := "ada@mail" }] }

def chance (n : Nat) : Chance adehun :=
  { ids := fun k => n + k, replies := fun _ => .timeout, weather := fun _ => [] }

theorem sound : db.Sound where
  keys t := by cases t <;> decide +kernel
  entries := by
    refine Db.entriesDistinct_of_pairwise fun t => ?_
    cases t <;> decide +kernel

theorem new (n : Nat) (hn : 2 < n) : (⟨1, data, (chance n).ids⟩ : Creation).New db := by
  refine ⟨fun i j h => Nat.add_left_cancel h, ?_, ?_, ?_, ?_⟩
  · intro k t r hr
    cases t
    case user =>
      have hsmall : ∀ u ∈ (db .user : List User), u.id ≤ 2 := by decide +kernel
      exact Nat.ne_of_lt (Nat.lt_of_le_of_lt (hsmall r hr)
        (Nat.lt_of_lt_of_le hn (Nat.le_add_right n k)))
    all_goals cases hr
  · intro k p hp
    cases hp
  · intro k v hv
    cases hv
  · intro k c hc
    cases hc

end Deal

end Adehun
