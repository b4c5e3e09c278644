import Adehun.Creation
import Adehun.DisputeService

/-!
# Whom a condition is asked of

A condition names an address. `add_condition` looks the address up: a
participant is pointed at directly, an invitee through the invitation, which
an acceptance turns into the invitee's row. `create_agreement` does not look:
every condition of a new agreement goes to the invitee.
-/

namespace Adehun

open Sessions

/-! ## A further condition, run alone -/

/-- The participants with an address. -/
def participantsNamed (db : Db adehun) (email : String) (agreementId : Id) :
    List AgreementParticipant :=
  let users := ((db .user : List User).filter fun u => u.email = email).map (·.id)
  (db .agreementParticipant : List AgreementParticipant).filter fun p =>
    p.agreementId = agreementId && p.userId ∈ users

/-- The participant with an address, or else the invitation to it. -/
def requiredFrom (db : Db adehun) (email : String) (agreementId : Id) : Option (Id ⊕ Id) :=
  match (participantsNamed db email agreementId).head? with
  | some p => some (.inl p.id)
  | none => ((db .invitation : List Invitation).find? fun v =>
      v.agreementId = agreementId && v.email = email).map fun v => .inr v.id

/-- The row of a further condition. -/
def furtherCondition (agreementId currentId id : Id) (data : ConditionCreate) (other : Id ⊕ Id) :
    Condition :=
  { id := id
    agreementId := agreementId
    participantId := currentId
    title := data.title
    description := data.description
    requiredFromParticipantId := other.getLeft?
    invitationId := other.getRight? }

section AddSolo

open Prog

variable {db : Db adehun} {κ : List (Db adehun)} {m : Shared} {χ : Chance adehun}

theorem getParticipantOrInvitationByEmail_solo (hs : db.Sound) (email : String)
    (agreementId : Id) : (getParticipantOrInvitationByEmail email agreementId).solo
      (.between db κ m χ) = (.ok (requiredFrom db email agreementId), .between db κ m χ) := by
  have hload := loadParticipants_solo (σ := .between db κ m χ) Solo.tidy_between hs fun p =>
    p.agreementId = agreementId &&
      p.userId ∈ ((db .user : List User).filter fun u => u.email = email).map (·.id)
  rw [Solo.between_view, show (db .agreementParticipant : List AgreementParticipant).filter _ =
    participantsNamed db email agreementId from rfl] at hload
  unfold getParticipantOrInvitationByEmail requiredFrom
  rw [Prog.solo_bind_ok (select_solo Solo.tidy_between _), Solo.between_view,
    Prog.solo_bind_ok hload]
  cases (participantsNamed db email agreementId).head? with
  | some p => rfl
  | none =>
      simp only
      rw [Prog.solo_bind_ok (getInvitationByAgreementId_solo Solo.tidy_between hs _ _)]
      rfl

theorem looks_cacheDelete (ks : List CacheKey) : Looks (cacheDelete ks) := fun _ _ =>
  ⟨_, _, rfl⟩

/-- A new condition goes in, whatever is answered. -/
theorem saveCondition_solo (hs : db.Sound) (row : Id → Condition) (hid : ∀ id, (row id).id = id)
    (hnew : db.lookup ⟨.condition, χ.ids 0⟩ = none) (agreementId : Id) :
    ∃ r m' χ', (do
      let id ← fresh
      add .condition (row id)
      commit
      let _ ← refresh .condition id
      cacheDelete [.agreementCondition agreementId]
      let c ← requireCondition id
      conditionResponse c : App ConditionResponse).solo (.between db κ m χ) =
      (r, .between ((Write.insert .condition (row (χ.ids 0)) : Write adehun).apply db)
        ((Write.insert .condition (row (χ.ids 0)) : Write adehun).apply db :: κ) m' χ') := by
  have hgoes : (Write.insert .condition (row (χ.ids 0)) : Write adehun).refusal db = none := by
    refine insert_goes (t := .condition) ?_ rfl fun _ _ _ he => by cases he
    rw [show rowId (t := .condition) (row (χ.ids 0)) = χ.ids 0 from hid _]
    exact hnew
  have hsend := @Db.Sound.send adehun db [] _ hs hgoes fun _ _ _ => rfl
  have hcommit := Solo.commit_between (κ := κ) (m := m) (χ := χ.next) hsend
  have hlooks : Looks (do
      let _ ← refresh .condition (χ.ids 0)
      cacheDelete [.agreementCondition agreementId]
      let c ← requireCondition (χ.ids 0)
      conditionResponse c : App ConditionResponse) := by
    refine looks_compositional.bind (looks_reading.refresh _ _) fun _ => ?_
    refine looks_compositional.bind (looks_cacheDelete _) fun _ => ?_
    refine looks_compositional.bind ?_ looks_conditionResponse
    refine looks_compositional.bind (looks_reading.get _ _) fun found => ?_
    cases found with
    | none => exact looks_compositional.raise _
    | some d =>
        exact looks_compositional.bind (looks_reading.loadAll _ _) fun _ =>
          looks_compositional.ret _
  obtain ⟨r, m', χ', hshown⟩ := @looks_between
    ((Write.insert .condition (row (χ.ids 0)) : Write adehun).apply db)
    ((Write.insert .condition (row (χ.ids 0)) : Write adehun).apply db :: κ) m χ.next _ _ hlooks
  refine ⟨r, m', χ', ?_⟩
  rw [← hshown]
  exact Prog.solo_bind_ok hcommit

/-- A further condition is refused, or its row is added. -/
theorem addCondition_called (hs : db.Sound) (agreementId userId : Id) (data : ConditionCreate)
    (hnew : db.lookup ⟨.condition, χ.ids 0⟩ = none) :
    (called (addCondition agreementId userId data) db m χ).db = db ∨
    ∃ current other, requiredFrom db data.requiredFromEmail agreementId = some other ∧
      (called (addCondition agreementId userId data) db m χ).db =
        (Write.insert .condition (furtherCondition agreementId current (χ.ids 0) data other) :
          Write adehun).apply db := by
  have hstays : ∀ r m' χ', (addCondition agreementId userId data).solo (.between db [] m χ) =
      (r, .between db [] m' χ') →
      (called (addCondition agreementId userId data) db m χ).db = db := by
    intro r m' χ' h
    rw [called_eq h, Solo.between_db]
  have hjoined := getParticipantForUser_solo (σ := .between db [] m χ) Solo.tidy_between hs
    agreementId userId
  have hheld := held_solo (σ := .between db [] m χ) Solo.tidy_between .agreement agreementId
  have hrequired := getParticipantOrInvitationByEmail_solo (κ := []) (m := m) (χ := χ) hs
    data.requiredFromEmail agreementId
  rw [Solo.between_view] at hjoined hheld
  cases hcurrent : (db .agreementParticipant : List AgreementParticipant).find? (fun p =>
      p.agreementId = agreementId && p.userId = userId) with
  | none =>
      rw [hcurrent] at hjoined
      refine .inl (hstays (.error participantNotFound) m χ ?_)
      unfold addCondition
      rw [Prog.solo_bind_ok hjoined]
      rfl
  | some current =>
      rw [hcurrent] at hjoined
      cases ha : db.lookup ⟨.agreement, agreementId⟩ with
      | none =>
          rw [ha] at hheld
          refine .inl (hstays (.error participantNotFound) m χ ?_)
          unfold addCondition
          rw [Prog.solo_bind_ok hjoined]
          simp only
          rw [Prog.solo_bind_ok hheld]
          rfl
      | some a =>
          rw [ha] at hheld
          by_cases hpending : (a : Agreement).status = .pending
          · cases hother : requiredFrom db data.requiredFromEmail agreementId with
            | none =>
                rw [hother] at hrequired
                refine .inl (hstays (.error participantNotFound) m χ ?_)
                unfold addCondition
                rw [Prog.solo_bind_ok hjoined]
                simp only
                rw [Prog.solo_bind_ok hheld]
                simp only
                rw [Prog.solo_bind_ok (raiseIf_pass (not_not.mpr hpending)),
                  Prog.solo_bind_ok hrequired]
                rfl
            | some other =>
                rw [hother] at hrequired
                obtain ⟨r, m', χ', hsave⟩ := saveCondition_solo (κ := []) (m := m) hs
                  (fun id => furtherCondition agreementId current.id id data other)
                  (fun _ => rfl) hnew agreementId
                have hattempt := solo_attempt (σ := .between db [] m χ) (do
                  let id ← fresh
                  add .condition (furtherCondition agreementId current.id id data other)
                  commit
                  let _ ← refresh .condition id
                  cacheDelete [.agreementCondition agreementId]
                  let c ← requireCondition id
                  conditionResponse c : App ConditionResponse)
                rw [hsave] at hattempt
                refine .inr ⟨current.id, other, rfl, ?_⟩
                have hadd : ∃ r', (addCondition agreementId userId data).solo
                    (.between db [] m χ) = (r', .between
                      ((Write.insert .condition (furtherCondition agreementId current.id
                        (χ.ids 0) data other) : Write adehun).apply db)
                      [(Write.insert .condition (furtherCondition agreementId current.id
                        (χ.ids 0) data other) : Write adehun).apply db] m' χ') := by
                  unfold addCondition
                  rw [Prog.solo_bind_ok hjoined]
                  simp only
                  rw [Prog.solo_bind_ok hheld]
                  simp only
                  rw [Prog.solo_bind_ok (raiseIf_pass (not_not.mpr hpending)),
                    Prog.solo_bind_ok hrequired]
                  simp only
                  cases r with
                  | ok response => exact ⟨_, (Prog.solo_bind_ok hattempt).trans rfl⟩
                  | error e => exact ⟨_, (Prog.solo_bind_ok hattempt).trans rfl⟩
                obtain ⟨r', hr'⟩ := hadd
                rw [called_eq hr', Solo.between_db]
          · refine .inl (hstays (.error (.app .badRequest
              "Conditions can only be added before the agreement becomes active")) m χ ?_)
            unfold addCondition
            rw [Prog.solo_bind_ok hjoined]
            simp only
            rw [Prog.solo_bind_ok hheld]
            simp only
            rw [Prog.solo_bind_error (raiseIf_stop hpending)]

end AddSolo

/-! ## An agreement that is forming -/

/-- What the validators of a body see to: the address is there, and in lower
case. -/
structure AgreementCreate.Validated (data : AgreementCreate) : Prop where
  named : data.inviteeEmail ≠ ""
  lower : lower data.inviteeEmail = data.inviteeEmail.toList

/-- The conditions of an agreement that were not there before. -/
def addedConditions (db db' : Db adehun) (agreementId : Id) : List Condition :=
  (db' .condition : List Condition).filter fun c =>
    c.agreementId = agreementId && (db.lookup ⟨.condition, c.id⟩).isNone

/-- Something else happens, and leaves the agreement alone. -/
structure Elsewhere (agreementId : Id) (db db' : Db adehun) : Prop where
  sound : db'.Sound
  agreement : db'.lookup ⟨.agreement, agreementId⟩ = db.lookup ⟨.agreement, agreementId⟩
  participants : (db' .agreementParticipant : List AgreementParticipant).filter
      (·.agreementId = agreementId) =
    (db .agreementParticipant : List AgreementParticipant).filter (·.agreementId = agreementId)
  invitations : (db' .invitation : List Invitation).filter (·.agreementId = agreementId) =
    (db .invitation : List Invitation).filter (·.agreementId = agreementId)
  conditions : (db' .condition : List Condition).filter (·.agreementId = agreementId) =
    (db .condition : List Condition).filter (·.agreementId = agreementId)
  users : ∀ u ∈ (db .user : List User), ∃ u' ∈ (db' .user : List User),
    u'.id = u.id ∧ u'.email = u.email

/-- From the creation of an agreement on: further conditions are added to it,
by anybody, or something else happens. The list says which conditions were
added, and the address that each of them named. -/
inductive Forming (agreementId : Id) (db : Db adehun) : Db adehun → List (Id × String) → Prop
  | created : Forming agreementId db db []
  | added {v v' : Db adehun} {named : List (Id × String)} (userId : Id) (data : ConditionCreate)
      (m : Shared) (χ : Chance adehun) (h : Forming agreementId db v named)
      (hnew : v.lookup ⟨.condition, χ.ids 0⟩ = none)
      (hv : v' = (called (addCondition agreementId userId data) v m χ).db) :
      Forming agreementId db v'
        (named ++ (addedConditions v v' agreementId).map fun c => (c.id, data.requiredFromEmail))
  | elsewhere {v v' : Db adehun} {named : List (Id × String)} (h : Forming agreementId db v named)
      (hv : Elsewhere agreementId v v') : Forming agreementId db v' named

/-- The row of a user on an agreement. -/
def participantRow (db : Db adehun) (agreementId userId : Id) : Option Id :=
  ((db .agreementParticipant : List AgreementParticipant).find? fun p =>
    p.agreementId = agreementId && p.userId = userId).map (·.id)

/-- Both parties are on the agreement, and each condition is asked of the one
whose address it named. -/
def AsNamed (db : Db adehun) (agreementId : Id) (creator invitee : User)
    (names : List (Id × String)) : Prop :=
  ∃ p q, participantRow db agreementId creator.id = some p ∧
    participantRow db agreementId invitee.id = some q ∧
    ∀ n ∈ names, ∃ c : Condition, db.lookup ⟨.condition, n.1⟩ = some c ∧
      (n.2 = creator.email → c.requiredFromParticipantId = some p) ∧
      (n.2 = invitee.email → c.requiredFromParticipantId = some q)

/-- What an agreement that is forming looks like: one party, one invitation,
the conditions it was made with all waiting for the invitee, and of the others
those that named the creator asked of the creator. -/
structure Formed (k : Creation) (time : Nat) (c : User) (v : Db adehun)
    (named : List (Id × String)) : Prop where
  sound : v.Sound
  agreement : ∃ a : Agreement, v.lookup ⟨.agreement, k.ids 0⟩ = some a ∧ a.status = .pending
  participants : (v .agreementParticipant : List AgreementParticipant).filter
    (·.agreementId = k.ids 0) = [k.creator]
  invitations : (v .invitation : List Invitation).filter (·.agreementId = k.ids 0) =
    [k.invitation time]
  creator : ∃ u ∈ (v .user : List User), u.id = k.userId ∧ u.email = c.email
  supplied : ∀ x ∈ k.conditions, x ∈ (v .condition : List Condition)
  named : ∀ n ∈ named, ∃ x ∈ (v .condition : List Condition), x.id = n.1 ∧
    x.agreementId = k.ids 0 ∧
    ((n.2 = k.data.inviteeEmail ∧ x.invitationId = some (k.ids 3)) ∨
      (n.2 = c.email ∧ x.invitationId = none ∧
        x.requiredFromParticipantId = some (k.ids 1)))

section Formed

variable {k : Creation} {time : Nat} {c : User} {db v : Db adehun} {named : List (Id × String)}

theorem mem_of_filter_eq {α : Type} {p : α → Bool} {l l' : List α} {a : α}
    (h : l'.filter p = l.filter p) (ha : a ∈ l) (hp : p a = true) : a ∈ l' := by
  have hmem : a ∈ l'.filter p := by
    rw [h]
    exact List.mem_filter.mpr ⟨ha, hp⟩
  exact List.mem_of_mem_filter hmem

/-- The first of those that have both of two properties. -/
theorem find?_and {α : Type} (p q : α → Bool) (l : List α) :
    l.find? (fun a => p a && q a) = (l.filter p).find? q := by
  simp [List.find?_filter]

/-- A new agreement is forming. -/
theorem formed_created (h : k.New db) (hs : db.Sound) (hc : c ∈ (db .user : List User))
    (hk : k.userId = c.id) (time : Nat) : Formed k time c (k.created db time) [] where
  sound := h.sound_created hs time
  agreement := by
    refine ⟨k.agreement, ?_, rfl⟩
    refine (h.sound_created hs time).keys.lookup (t := .agreement) (r := k.agreement) ?_
    rw [Creation.New.created_agreement]
    exact List.mem_append_right _ (List.mem_singleton_self _)
  participants := by
    rw [Creation.New.created_participant, List.filter_append]
    rw [List.filter_eq_nil_iff.mpr fun p hp => by simpa using h.noParticipants 0 p hp]
    simp [Creation.creator]
  invitations := by
    rw [Creation.New.created_invitation, List.filter_append]
    rw [List.filter_eq_nil_iff.mpr fun p hp => by simpa using (h.noInvitations 0 p hp).1]
    simp [Creation.invitation]
  creator := by
    rw [Creation.New.created_user]
    exact ⟨c, hc, hk.symm, rfl⟩
  supplied x hx := by
    rw [Creation.New.created_condition]
    exact List.mem_append_right _ hx
  named n hn := by cases hn

/-- What happens elsewhere leaves it so. -/
theorem Formed.elsewhere {v' : Db adehun} (h : Formed k time c v named)
    (he : Elsewhere (k.ids 0) v v') : Formed k time c v' named where
  sound := he.sound
  agreement := by
    rw [he.agreement]
    exact h.agreement
  participants := he.participants.trans h.participants
  invitations := he.invitations.trans h.invitations
  creator := by
    obtain ⟨u, hu, hid, hemail⟩ := h.creator
    obtain ⟨u', hu', hid', hemail'⟩ := he.users u hu
    exact ⟨u', hu', hid'.trans hid, hemail'.trans hemail⟩
  supplied x hx :=
    mem_of_filter_eq he.conditions (h.supplied x hx) (by simpa using (newConditions_fields hx).1)
  named n hn := by
    obtain ⟨d, hd, hid, ha, hrest⟩ := h.named n hn
    exact ⟨d, mem_of_filter_eq he.conditions hd (by simpa using ha), hid, ha, hrest⟩

/-- The address of a user. -/
theorem Formed.email (h : Formed k time c v named) {u : User} (hu : u ∈ (v .user : List User))
    (hid : u.id = k.userId) : u.email = c.email := by
  obtain ⟨u', hu', hid', hemail⟩ := h.creator
  have h₁ := h.sound.keys.lookup (t := .user) hu
  have h₂ := h.sound.keys.lookup (t := .user) hu'
  have hsame : adehun.id (t := .user) u = adehun.id (t := .user) u' := hid.trans hid'.symm
  rw [hsame, h₂] at h₁
  rw [← Option.some.inj h₁]
  exact hemail

/-- Whom a further condition is asked of. -/
theorem Formed.requiredFrom (h : Formed k time c v named) {email : String} {other : Id ⊕ Id}
    (ho : requiredFrom v email (k.ids 0) = some other) :
    (email = k.data.inviteeEmail ∧ other = .inr (k.ids 3)) ∨
      (email = c.email ∧ other = .inl (k.ids 1)) := by
  unfold Adehun.requiredFrom at ho
  split at ho
  · next p hp =>
      have hmem := List.mem_of_mem_head? hp
      rw [participantsNamed] at hmem
      obtain ⟨hp', hboth⟩ := List.mem_filter.mp hmem
      simp only [Bool.and_eq_true, decide_eq_true_eq] at hboth
      have hone : p ∈ (v .agreementParticipant : List AgreementParticipant).filter
          (·.agreementId = k.ids 0) := List.mem_filter.mpr ⟨hp', by simpa using hboth.1⟩
      rw [h.participants, List.mem_singleton] at hone
      subst hone
      obtain ⟨u, hu, hid⟩ := List.mem_map.mp hboth.2
      obtain ⟨hu, hemail⟩ := List.mem_filter.mp hu
      refine .inr ⟨?_, (Option.some.inj ho).symm⟩
      rw [← h.email hu hid]
      exact (of_decide_eq_true hemail).symm
  · obtain ⟨w, hw, hother⟩ := Option.map_eq_some_iff.mp ho
    have hboth := List.find?_some hw
    simp only [Bool.and_eq_true, decide_eq_true_eq] at hboth
    have hone : w ∈ (v .invitation : List Invitation).filter (·.agreementId = k.ids 0) :=
      List.mem_filter.mpr ⟨List.mem_of_find?_eq_some hw, by simpa using hboth.1⟩
    rw [h.invitations, List.mem_singleton] at hone
    subst hone
    exact .inl ⟨hboth.2.symm, hother.symm⟩

/-- A further condition, added or not. -/
theorem Formed.added (h : Formed k time c v named) {userId : Id} {data : ConditionCreate}
    {m : Shared} {χ : Chance adehun} (hnew : v.lookup ⟨.condition, χ.ids 0⟩ = none)
    {v' : Db adehun} (hv : v' = (called (addCondition (k.ids 0) userId data) v m χ).db) :
    Formed k time c v'
      (named ++ (addedConditions v v' (k.ids 0)).map fun x => (x.id, data.requiredFromEmail)) := by
  rcases addCondition_called (m := m) h.sound (k.ids 0) userId data hnew with hsame | hadd
  · rw [← hv] at hsame
    subst hsame
    have hnone : addedConditions v' v' (k.ids 0) = [] := by
      refine List.filter_eq_nil_iff.mpr fun x hx => ?_
      have := h.sound.keys.lookup (t := .condition) hx
      rw [show adehun.id (t := .condition) x = x.id from rfl] at this
      simp [this]
    rw [hnone, List.map_nil, List.append_nil]
    exact h
  · obtain ⟨current, other, hother, hadd⟩ := hadd
    rw [← hv] at hadd
    have hwhom := h.requiredFrom hother
    have hgoes : (Write.insert .condition
        (furtherCondition (k.ids 0) current (χ.ids 0) data other) : Write adehun).refusal v = none :=
      insert_goes (t := .condition) hnew rfl fun _ _ _ he => by cases he
    have happart : ∀ t : Table, t ≠ .condition → v' t = v t := fun t ht => by
      rw [hadd]
      exact Write.apply_table_of_ne (d := Write.insert (M := adehun) Table.condition _) v (Ne.symm ht)
    have hcondition : (v' .condition : List Condition) =
        v .condition ++ [furtherCondition (k.ids 0) current (χ.ids 0) data other] := by
      rw [hadd]
      exact insert_self v .condition _
    have hmem : ∀ x ∈ (v .condition : List Condition), x ∈ (v' .condition : List Condition) := by
      intro x hx
      rw [hcondition]
      exact List.mem_append_left _ hx
    refine
      { sound := by
          rw [hadd]
          exact h.sound.apply hgoes
        agreement := by
          rw [Db.lookup, happart .agreement (by decide)]
          exact h.agreement
        participants := by
          rw [happart .agreementParticipant (by decide)]
          exact h.participants
        invitations := by
          rw [happart .invitation (by decide)]
          exact h.invitations
        creator := by
          rw [happart .user (by decide)]
          exact h.creator
        supplied := fun x hx => hmem x (h.supplied x hx)
        named := ?_ }
    intro n hn
    rcases List.mem_append.mp hn with hn | hn
    · obtain ⟨x, hx, hrest⟩ := h.named n hn
      exact ⟨x, hmem x hx, hrest⟩
    · obtain ⟨x, hx, rfl⟩ := List.mem_map.mp hn
      obtain ⟨hx, hboth⟩ := List.mem_filter.mp hx
      refine ⟨x, hx, rfl, ?_⟩
      rw [hcondition] at hx
      rcases List.mem_append.mp hx with hold | hone
      · have := h.sound.keys.lookup (t := .condition) hold
        rw [show adehun.id (t := .condition) x = x.id from rfl] at this
        simp [this] at hboth
      · rw [List.mem_singleton] at hone
        subst hone
        refine ⟨rfl, ?_⟩
        rcases hwhom with ⟨hemail, rfl⟩ | ⟨hemail, rfl⟩
        · exact .inl ⟨hemail, rfl⟩
        · exact .inr ⟨hemail, rfl, rfl⟩

/-- And so it stays until somebody answers. -/
theorem Forming.formed (hdb : Formed k time c db []) (h : Forming (k.ids 0) db v named) :
    Formed k time c v named := by
  induction h with
  | created => exact hdb
  | added userId data m χ _ hnew hv ih => exact ih.added hnew hv
  | elsewhere _ hv ih => exact ih.elsewhere hv

/-! ## The acceptance -/

/-- The invitee who accepts. -/
def Creation.invitee (k : Creation) (time : Nat) (userId drawn : Id) : Invitee where
  invitation := k.invitation time
  participant := none
  userId := userId
  drawn := drawn

theorem Formed.invitee_in (h : Formed k time c v named) {userId drawn : Id}
    (hu : userId ≠ k.userId) (hd : v.lookup ⟨.agreementParticipant, drawn⟩ = none) :
    (k.invitee time userId drawn).In v where
  found := by
    show (v .invitation : List Invitation).find? (fun w =>
      w.agreementId = k.ids 0 && w.email = k.data.inviteeEmail) = some (k.invitation time)
    rw [find?_and, h.invitations]
    simp [Creation.invitation]
  joined := by
    show (v .agreementParticipant : List AgreementParticipant).find? (fun p =>
      p.agreementId = k.ids 0 && p.userId = userId) = none
    rw [find?_and, h.participants]
    simp [Creation.creator, Ne.symm hu]
  fresh _ := hd

/-- Where both parties' rows are once the invitee has accepted. -/
theorem Formed.rows_accepted (h : Formed k time c v named) {userId drawn : Id}
    (hu : userId ≠ k.userId) (hd : v.lookup ⟨.agreementParticipant, drawn⟩ = none)
    (a : Agreement) :
    participantRow ((k.invitee time userId drawn).acceptedDb v a) (k.ids 0) k.userId =
        some (k.ids 1) ∧
      participantRow ((k.invitee time userId drawn).acceptedDb v a) (k.ids 0) userId =
        some drawn := by
  have hin := h.invitee_in hu hd
  have htable : ((k.invitee time userId drawn).acceptedDb v a .agreementParticipant :
      List AgreementParticipant) =
        v .agreementParticipant ++ [(k.invitee time userId drawn).row .accepted] := by
    rw [Invitee.acceptedDb, addressed_apart (by decide), Invitee.settledDb,
      statusWrites_apart (by decide), Invitee.joinedDb, Invitee.answered_participant]
    rfl
  unfold participantRow
  rw [htable]
  constructor
  · rw [find?_and, List.filter_append, h.participants]
    simp [Creation.creator]
  · have hnone := hin.joined
    rw [show (k.invitee time userId drawn).agreementId = k.ids 0 from rfl,
      show (k.invitee time userId drawn).userId = userId from rfl] at hnone
    rw [List.find?_append, hnone]
    simp [Invitee.row, Creation.invitee, Invitee.agreementId, Creation.invitation]

/-- Whom a condition is asked of once the invitee has accepted. -/
theorem Formed.condition_accepted (h : Formed k time c v named) (userId drawn : Id)
    (a : Agreement) {x : Condition} (hx : x ∈ (v .condition : List Condition))
    (hxa : x.agreementId = k.ids 0) :
    ∃ y : Condition, ((k.invitee time userId drawn).acceptedDb v a).lookup ⟨.condition, x.id⟩ =
        some y ∧
      (x.invitationId = some (k.ids 3) → y.requiredFromParticipantId = some drawn) ∧
      (x.invitationId = none → y.requiredFromParticipantId = x.requiredFromParticipantId) := by
  have hrow := h.sound.keys.lookup (t := .condition) hx
  have hsettled : ((k.invitee time userId drawn).settledDb v a).lookup ⟨.condition, x.id⟩ =
      some x := by
    rw [← show v.lookup ⟨.condition, x.id⟩ = some x from hrow]
    simp only [Db.lookup]
    rw [Invitee.settledDb, statusWrites_apart (by decide), Invitee.joinedDb,
      Invitee.answered_apart _ _ (by decide) (by decide)]
  have hlook := lookup_addressed ((k.invitee time userId drawn).settledDb v a) (k.ids 0)
    (k.ids 3) drawn x.id
  rw [hsettled, Option.map_some, tiedConditions_settled] at hlook
  refine ⟨_, hlook, ?_, ?_⟩
  · intro htied
    have hin : x.id ∈ (tiedConditions v (k.ids 0) (k.ids 3)).map (·.id) :=
      List.mem_map_of_mem (List.mem_filter.mpr ⟨hx, by simp [hxa, htied]⟩)
    rw [if_pos hin]
  · intro hfree
    rw [if_neg]
    intro hin
    obtain ⟨z, hz, hid⟩ := List.mem_map.mp hin
    obtain ⟨hz, htied⟩ := List.mem_filter.mp hz
    have hother := h.sound.keys.lookup (t := .condition) hz
    rw [show adehun.id (t := .condition) z = x.id from hid,
      show v.lookup ⟨.condition, x.id⟩ = some x from hrow] at hother
    rw [← Option.some.inj hother] at htied
    simp [hfree] at htied

/-- The conditions of a new agreement are the ones supplied, in their order. -/
theorem addedConditions_created (h : k.New db) (hs : db.Sound) (time : Nat) :
    addedConditions db (k.created db time) (k.ids 0) = k.conditions := by
  unfold addedConditions
  rw [Creation.New.created_condition, List.filter_append]
  have hold : (db .condition : List Condition).filter (fun x =>
      x.agreementId = k.ids 0 && (db.lookup ⟨.condition, x.id⟩).isNone) = [] := by
    refine List.filter_eq_nil_iff.mpr fun x hx => ?_
    have := hs.keys.lookup (t := .condition) hx
    rw [show adehun.id (t := .condition) x = x.id from rfl] at this
    simp [this]
  have hnew : k.conditions.filter (fun x =>
      x.agreementId = k.ids 0 && (db.lookup ⟨.condition, x.id⟩).isNone) = k.conditions := by
    refine List.filter_eq_self.mpr fun x hx => ?_
    obtain ⟨n, hn⟩ := Creation.New.id_of_condition hx
    have hfree := h.lookup (t := .condition) (n + 4)
    rw [← hn] at hfree
    simp [hfree, (newConditions_fields hx).1]
  rw [hold, hnew, List.nil_append]

theorem length_conditions (k : Creation) : k.conditions.length = k.data.conditions.length := by
  have h := congrArg List.length (newConditions_ids (k.ids 0) (k.ids 1) (k.ids 3)
    k.data.conditions fun n => k.ids (n + 4))
  simpa [Creation.conditions] using h

/-- Whoever is invited is not the creator. -/
theorem Validated.ne {data : AgreementCreate} (h : data.Validated) {email : String}
    (hother : ¬ (email ≠ "" ∧ data.inviteeEmail.toList = lower email)) :
    email ≠ data.inviteeEmail := by
  rintro rfl
  exact hother ⟨h.named, h.lower.symm⟩

/-- What an acceptance makes of an agreement that is forming. -/
theorem Formed.asNamed_accepted (h : Formed k time c v named) (hk : k.userId = c.id) {u : User}
    (hu : u ∈ (v .user : List User)) (hemail : u.email = k.data.inviteeEmail)
    (hother : c.email ≠ k.data.inviteeEmail) {m : Shared} {χ : Chance adehun}
    (hfresh : v.lookup ⟨.agreementParticipant, χ.ids 0⟩ = none) :
    AsNamed (called (acceptAgreement (k.ids 0) u.id u.email) v m χ).db (k.ids 0) c u
        ((k.conditions.map (·.id)).zip (k.data.conditions.map (·.requiredFromEmail)) ++ named) ↔
      ∀ x ∈ k.data.conditions, x.requiredFromEmail ≠ c.email := by
  have hne : u.id ≠ k.userId := by
    intro hid
    exact hother (by rw [← h.email hu hid, hemail])
  obtain ⟨a, ha, hpending⟩ := h.agreement
  have hin := h.invitee_in hne hfresh
  have haccept := (acceptAgreement_called (m := m) (χ := χ) hin h.sound ha hfresh (by
    simp [Creation.invitee]) hpending rfl).1
  rw [show acceptAgreement (k.ids 0) u.id u.email = acceptAgreement
    (k.invitee time u.id (χ.ids 0)).agreementId (k.invitee time u.id (χ.ids 0)).userId
    (k.invitee time u.id (χ.ids 0)).invitation.email by rw [hemail]; rfl, haccept]
  rw [show ({ k.invitee time u.id (χ.ids 0) with drawn := χ.ids 0 } : Invitee) =
    k.invitee time u.id (χ.ids 0) from rfl]
  obtain ⟨hcreator, hinvitee⟩ := h.rows_accepted hne hfresh a
  rw [hk] at hcreator
  have hcondition : ∀ x ∈ (v .condition : List Condition), x.agreementId = k.ids 0 → _ :=
    fun x hx => h.condition_accepted u.id (χ.ids 0) a hx
  constructor
  · rintro ⟨p, q, hp, hq, hall⟩ x hx hcalled
    rw [hcreator] at hp
    cases hp
    -- the pair of this condition is among those supplied
    have hpair : x.requiredFromEmail ∈ (((k.conditions.map (·.id)).zip
        (k.data.conditions.map (·.requiredFromEmail))).map Prod.snd) := by
      rw [List.map_snd_zip]
      · exact List.mem_map_of_mem hx
      · exact Nat.le_of_eq (by rw [List.length_map, List.length_map, length_conditions])
    obtain ⟨n, hn, hname⟩ := List.mem_map.mp hpair
    obtain ⟨y, hy, hid⟩ := List.mem_map.mp (List.of_mem_zip hn).1
    obtain ⟨z, hz, hpointed, -⟩ := hall n (List.mem_append_left _ hn)
    obtain ⟨w, hw, htied, -⟩ := hcondition y (h.supplied y hy) (newConditions_fields hy).1
    rw [hid, hz] at hw
    cases hw
    have hsame := hpointed (hname.trans hcalled)
    rw [htied (newConditions_fields hy).2.1] at hsame
    have hmem : k.creator ∈ (v .agreementParticipant : List AgreementParticipant) := by
      refine List.mem_of_mem_filter (p := fun p => decide (p.agreementId = k.ids 0)) ?_
      rw [h.participants]
      exact List.mem_singleton_self _
    have hlook := h.sound.keys.lookup (t := .agreementParticipant) hmem
    rw [show adehun.id (t := .agreementParticipant) k.creator = χ.ids 0 from
      (Option.some.inj hsame).symm, hfresh] at hlook
    cases hlook
  · intro hnone
    refine ⟨k.ids 1, χ.ids 0, hcreator, hinvitee, ?_⟩
    intro n hn
    rcases List.mem_append.mp hn with hn | hn
    · obtain ⟨hid, hname⟩ := List.of_mem_zip hn
      obtain ⟨y, hy, hid⟩ := List.mem_map.mp hid
      obtain ⟨x, hx, hname⟩ := List.mem_map.mp hname
      obtain ⟨z, hz, htied, -⟩ := hcondition y (h.supplied y hy) (newConditions_fields hy).1
      rw [hid] at hz
      refine ⟨z, hz, ?_, fun _ => htied (newConditions_fields hy).2.1⟩
      intro hcalled
      exact absurd (hname.trans hcalled) (hnone x hx)
    · obtain ⟨y, hy, hid, hya, hwhom⟩ := h.named n hn
      obtain ⟨z, hz, htied, hfree⟩ := hcondition y hy hya
      rw [hid] at hz
      refine ⟨z, hz, ?_⟩
      rcases hwhom with ⟨hname, hinv⟩ | ⟨hname, hinv, hreq⟩
      · refine ⟨fun hcalled => ?_, fun _ => htied hinv⟩
        exact absurd (hcalled.symm.trans hname) hother
      · refine ⟨fun _ => (hfree hinv).trans hreq, fun hcalled => ?_⟩
        exact absurd (hname.symm.trans (hcalled.trans hemail)) hother

end Formed

/-- An agreement made with any conditions, further ones added in any order,
and the invitation accepted: each condition is asked of the one whose address
it named, if none of those it was made with named the creator. -/
theorem asNamed_iff {db : Db adehun} (hs : db.Sound) {c u : User} {data : AgreementCreate}
    {m : Shared} {χ : Chance adehun} (hc : c ∈ (db .user : List User)) (hdata : data.Validated)
    (hnew : (⟨c.id, data, χ.ids⟩ : Creation).New db)
    {shown : AgreementResponse × List ConditionResponse}
    (hok : ((createAgreement c.id c.email data).solo (.start db m χ)).1 = .ok shown)
    {v : Db adehun} {named : List (Id × String)}
    (hforming : Forming (χ.ids 0) (called (createAgreement c.id c.email data) db m χ).db v named)
    (hu : u ∈ (v .user : List User)) (hemail : u.email = data.inviteeEmail) {m' : Shared}
    {χ' : Chance adehun} (hfresh : v.lookup ⟨.agreementParticipant, χ'.ids 0⟩ = none) :
    let created := called (createAgreement c.id c.email data) db m χ
    let supplied := ((addedConditions db created.db (χ.ids 0)).map (·.id)).zip
      (data.conditions.map (·.requiredFromEmail))
    AsNamed (called (acceptAgreement (χ.ids 0) u.id u.email) v m' χ').db (χ.ids 0) c u
        (supplied ++ named) ↔
      ∀ x ∈ data.conditions, x.requiredFromEmail ≠ c.email := by
  have hother : ¬ (c.email ≠ "" ∧ data.inviteeEmail.toList = lower c.email) := by
    intro hself
    rw [Solo.start_eq, createAgreement_self hself] at hok
    cases hok
  obtain ⟨time, -, -, hcreated, -, -⟩ := createAgreement_called (m := m) hnew hs rfl hother
  rw [show createAgreement (⟨c.id, data, χ.ids⟩ : Creation).userId c.email
    (⟨c.id, data, χ.ids⟩ : Creation).data = createAgreement c.id c.email data from rfl] at hcreated
  simp only
  rw [hcreated] at hforming ⊢
  have hformed := Forming.formed (formed_created hnew hs hc rfl time) hforming
  rw [show χ.ids 0 = (⟨c.id, data, χ.ids⟩ : Creation).ids 0 from rfl,
    addedConditions_created hnew hs time]
  exact hformed.asNamed_accepted rfl hu hemail (Validated.ne hdata hother) hfresh

/-! A condition that its own author was to meet. -/

namespace Misaddressed

open Deal

/-- The tables once Ada has made the agreement. -/
def created : Db adehun := (called (createAgreement 1 "ada@mail" data) db {} (chance 100)).db

def supplied : List (Id × String) :=
  ((addedConditions db created 100).map (·.id)).zip (data.conditions.map (·.requiredFromEmail))

/-- Whom a condition is asked of. -/
def askedOf (v : Db adehun) (id : Id) : Option (Option Id) :=
  (v.lookup ⟨Table.condition, id⟩).map fun c : Condition => c.requiredFromParticipantId

/-- The brief that Ada was to supply is asked of Bob. -/
theorem not_asNamed :
    ¬ AsNamed (called (acceptAgreement 100 2 "bob@mail") created {} (chance 200)).db 100 ada bob
      supplied := by
  rintro ⟨p, q, hp, -, hall⟩
  have hrow : participantRow (called (acceptAgreement 100 2 "bob@mail") created {}
      (chance 200)).db 100 ada.id = some 101 := by decide +kernel
  rw [hrow] at hp
  cases hp
  obtain ⟨c, hc, hpointed, -⟩ := hall (105, "ada@mail") (by decide +kernel)
  have hasked : askedOf (called (acceptAgreement 100 2 "bob@mail") created {}
      (chance 200)).db 105 = some (some 200) := by decide +kernel
  rw [askedOf, hc, Option.map_some, hpointed rfl] at hasked
  cases hasked

end Misaddressed

/-- Ada's agreement with Bob, who accepts it. -/
theorem asNamed_iff_bob :
    AsNamed (called (acceptAgreement 100 2 "bob@mail") Misaddressed.created {}
        (Deal.chance 200)).db 100 Deal.ada Deal.bob
      (Misaddressed.supplied ++ []) ↔
      ∀ x ∈ Deal.data.conditions, x.requiredFromEmail ≠ "ada@mail" := by
  have hok : ∃ shown, ((createAgreement 1 "ada@mail" Deal.data).solo
      (.start Deal.db {} (Deal.chance 100))).1 = .ok shown := ⟨_, rfl⟩
  obtain ⟨shown, hok⟩ := hok
  have husers : (Misaddressed.created .user : List User) = [Deal.ada, Deal.bob] := rfl
  have hbob : Deal.bob ∈ (Misaddressed.created .user : List User) := by
    rw [husers]
    exact List.mem_cons_of_mem _ List.mem_cons_self
  exact asNamed_iff (c := Deal.ada) (u := Deal.bob) Deal.sound
    List.mem_cons_self ⟨by decide, rfl⟩ (Deal.new 100 (by decide)) hok .created hbob rfl rfl

end Adehun
