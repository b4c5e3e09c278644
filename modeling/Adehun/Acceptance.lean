import Adehun.Routine.Serial

/-!
# An invitation answered

What `accept_agreement` and `reject_agreement` do to the tables when they run
alone, one transaction after the other: the invitee's row and the invitation,
the agreement, and the conditions that were waiting for the invitee. Each
transaction is a function of the tables, so that a request that is cut off is
one that got through the first few of them.
-/

namespace Adehun

open Sessions

/-- An invitee about to answer: the invitation, their own row on the
agreement if there is one, and the identifier a new row would get. -/
structure Invitee where
  invitation : Invitation
  participant : Option AgreementParticipant
  userId : Id
  drawn : Id

namespace Invitee

variable (n : Invitee)

def agreementId : Id := n.invitation.agreementId

/-- The row the invitee has afterwards. -/
def participantId : Id := (n.participant.map (·.id)).getD n.drawn

def row (status : InvitationStatus) : AgreementParticipant :=
  match n.participant with
  | none =>
      { id := n.drawn
        agreementId := n.agreementId
        userId := n.userId
        role := n.invitation.role
        status := status }
  | some p => { p with status := status }

/-- The invitee's row in a new status, and the invitation in a new one. -/
def answering (status : InvitationStatus) (s : String) : List (Write adehun) :=
  [ match n.participant with
    | none => .insert .agreementParticipant (n.row status)
    | some p => .update .agreementParticipant p.id (setParticipantStatus status),
    .update .invitation n.invitation.id (setInvitationStatus s) ]

/-- The tables after the first transaction. -/
def answered (db : Db adehun) (status : InvitationStatus) (s : String) : Db adehun :=
  db.applyAll (n.answering status s)

/-- What the queries of a request find, and a new identifier that is new. -/
structure In (db : Db adehun) : Prop where
  found : (db .invitation : List Invitation).find? (fun v =>
    v.agreementId = n.agreementId && v.email = n.invitation.email) = some n.invitation
  joined : (db .agreementParticipant : List AgreementParticipant).find? (fun p =>
    p.agreementId = n.agreementId && p.userId = n.userId) = n.participant
  fresh : n.participant = none → db.lookup ⟨.agreementParticipant, n.drawn⟩ = none

@[simp] theorem row_id (status : InvitationStatus) : (n.row status).id = n.participantId := by
  unfold row participantId
  cases n.participant <;> rfl

@[simp] theorem row_status (status : InvitationStatus) : (n.row status).status = status := by
  unfold row
  cases n.participant <;> rfl

/-! ## The first transaction -/

section Answered

variable {n} {db : Db adehun} (h : n.In db) (hs : db.Sound) (status : InvitationStatus)
  (s : String)

include h

theorem In.invitation_mem : n.invitation ∈ (db .invitation : List Invitation) :=
  List.mem_of_find?_eq_some h.found

theorem In.participant_mem {p : AgreementParticipant} (hp : n.participant = some p) :
    p ∈ (db .agreementParticipant : List AgreementParticipant) ∧
      p.agreementId = n.agreementId ∧ p.userId = n.userId := by
  have hfind := h.joined
  rw [hp] at hfind
  refine ⟨List.mem_of_find?_eq_some hfind, ?_⟩
  simpa using List.find?_some hfind

theorem In.row_owner : (n.row status).agreementId = n.agreementId ∧
    (n.row status).userId = n.userId := by
  unfold row
  split
  · exact ⟨rfl, rfl⟩
  · next p hp => exact (h.participant_mem hp).2

omit h in
theorem answered_apart {t : Table} (hp : t ≠ .agreementParticipant) (hv : t ≠ .invitation) :
    n.answered db status s t = db t := by
  unfold answered answering
  rw [Db.applyAll_cons, Db.applyAll_cons, Db.applyAll_nil, Write.apply_table_of_ne,
    Write.apply_table_of_ne]
  · cases n.participant <;> exact Ne.symm hp
  · exact Ne.symm hv

omit h in
theorem answered_invitation : (n.answered db status s .invitation : List Invitation) =
    (db .invitation : List Invitation).map fun v =>
      if v.id = n.invitation.id then { v with status := some s } else v := by
  unfold answered answering
  rw [Db.applyAll_cons, Db.applyAll_cons, Db.applyAll_nil]
  simp only [Write.apply, Db.set_self]
  congr 1
  cases n.participant <;> exact Db.set_of_ne _ _ (by decide)

omit h in
theorem answered_participant :
    (n.answered db status s .agreementParticipant : List AgreementParticipant) =
      match n.participant with
      | none => db .agreementParticipant ++ [n.row status]
      | some p => (db .agreementParticipant : List AgreementParticipant).map fun q =>
          if q.id = p.id then { q with status := status } else q := by
  unfold answered answering
  rw [Db.applyAll_cons, Db.applyAll_cons, Db.applyAll_nil,
    Write.apply_table_of_ne _ (by simp)]
  cases n.participant with
  | none => simp only [Write.apply, Db.set_self]
  | some p =>
      simp only [Write.apply, Db.set_self]
      rfl

include hs

theorem In.goes : db.sendAll (n.answering status s) = .ok (n.answered db status s) := by
  have hv := hs.keys.lookup (t := .invitation) h.invitation_mem
  have hjoin : (match n.participant with
      | none => Write.insert .agreementParticipant (n.row status)
      | some p => Write.update .agreementParticipant p.id (setParticipantStatus status) :
        Write adehun).refusal db = none := by
    cases hp : n.participant with
    | none =>
        have hfree := h.fresh hp
        have hnone := h.joined
        rw [hp] at hnone
        have hclash : db.clash (M := adehun) (t := .agreementParticipant) (n.row status) = false := by
          rw [Db.clash, List.any_eq_false]
          intro q hq
          have hother := List.find?_eq_none.mp hnone q hq
          have howner := h.row_owner status
          simp only [Bool.and_eq_true, decide_eq_true_eq, not_and] at hother
          simp only [rowEntries, howner.1, howner.2, List.any_cons, List.any_nil, Bool.or_false,
            List.mem_singleton, Index.participant.injEq, Bool.and_eq_true, decide_eq_true_eq,
            not_and]
          exact fun _ => hother
        have hid : db.lookup ⟨.agreementParticipant, adehun.id (t := .agreementParticipant)
            (n.row status)⟩ = none := by
          show db.lookup ⟨.agreementParticipant, (n.row status).id⟩ = none
          rw [row_id, participantId, hp]
          exact hfree
        simp only [Write.refusal, hid, hclash]
        rfl
    | some p =>
        have hmem := (h.participant_mem hp).1
        exact Write.update_goes hs.keys hs.entries (hs.keys.lookup hmem) rfl rfl
  refine hs.send hjoin ?_
  rintro v hv' rfl
  refine hv'.send ?_ fun _ _ _ => rfl
  have hrow : Db.lookup (Write.apply db (match n.participant with
      | none => Write.insert .agreementParticipant (n.row status)
      | some p => Write.update .agreementParticipant p.id (setParticipantStatus status)))
      (⟨.invitation, n.invitation.id⟩ : Key adehun) = some n.invitation := by
    rw [Write.lookup_apply_of_ne]
    · exact hv
    · cases n.participant <;> simp
  exact Write.update_goes hv'.keys hv'.entries hrow rfl rfl

theorem In.sound_answered : (n.answered db status s).Sound := hs.sendAll (h.goes hs status s)

/-- The invitee's row is there. -/
theorem In.lookup_answered : (n.answered db status s).lookup
    ⟨.agreementParticipant, n.participantId⟩ = some (n.row status) := by
  have hmem : n.row status ∈
      (n.answered db status s .agreementParticipant : List AgreementParticipant) := by
    rw [answered_participant]
    cases hp : n.participant with
    | none => simp
    | some p =>
        have := (h.participant_mem hp).1
        exact List.mem_map.mpr ⟨p, this, by simp [row, hp]⟩
  have := (h.sound_answered hs status s).keys.lookup (t := .agreementParticipant) hmem
  rwa [show adehun.id (t := .agreementParticipant) (n.row status) = n.participantId from
    n.row_id status] at this

omit hs in
/-- The next request of the invitee finds the row. -/
theorem In.joined_answered :
    (n.answered db status s .agreementParticipant : List AgreementParticipant).find? (fun p =>
      p.agreementId = n.agreementId && p.userId = n.userId) = some (n.row status) := by
  rw [answered_participant]
  have howner := h.row_owner status
  have hjoined := h.joined
  cases hp : n.participant with
  | none =>
      rw [hp] at hjoined
      simp [List.find?_append, hjoined, howner]
  | some p =>
      rw [hp] at hjoined
      simp only
      rw [List.find?_map]
      have hsame : ((fun q : AgreementParticipant =>
          decide (q.agreementId = n.agreementId) && decide (q.userId = n.userId)) ∘
          fun q : AgreementParticipant => if q.id = p.id then { q with status := status } else q) =
          fun q => decide (q.agreementId = n.agreementId) && decide (q.userId = n.userId) := by
        funext q
        by_cases hq : q.id = p.id <;> simp [hq]
      rw [hsame, hjoined]
      simp [row, hp]

omit hs in
/-- And the invitation. -/
theorem In.found_answered : (n.answered db status s .invitation : List Invitation).find? (fun v =>
    v.agreementId = n.agreementId && v.email = n.invitation.email) =
      some { n.invitation with status := some s } := by
  rw [answered_invitation, List.find?_map]
  have hsame : ((fun v : Invitation =>
      decide (v.agreementId = n.agreementId) && decide (v.email = n.invitation.email)) ∘
      fun v : Invitation => if v.id = n.invitation.id then { v with status := some s } else v) =
      fun v => decide (v.agreementId = n.agreementId) && decide (v.email = n.invitation.email) := by
    funext v
    by_cases hv : v.id = n.invitation.id <;> simp [hv]
  rw [hsame, h.found]
  simp

theorem In.lookup_invitation : (n.answered db status s).lookup ⟨.invitation, n.invitation.id⟩ =
    some { n.invitation with status := some s } :=
  (h.sound_answered hs status s).keys.lookup (t := .invitation)
    (r := { n.invitation with status := some s })
    (List.mem_of_find?_eq_some (h.found_answered status s))

end Answered

/-- The invitee once the invitation is answered. -/
def after (status : InvitationStatus) (s : String) : Invitee where
  invitation := { n.invitation with status := some s }
  participant := some (n.row status)
  userId := n.userId
  drawn := n.drawn

theorem In.answered {n : Invitee} {db : Db adehun} (h : n.In db) (status : InvitationStatus)
    (s : String) : (n.after status s).In (n.answered db status s) where
  found := h.found_answered status s
  joined := h.joined_answered status s
  fresh hp := by cases hp

/-- What the queries find depends on two tables alone. -/
theorem In.congr {n : Invitee} {db db' : Db adehun} (h : n.In db)
    (hv : db' .invitation = db .invitation)
    (hp : db' .agreementParticipant = db .agreementParticipant) : n.In db' where
  found := by
    rw [hv]
    exact h.found
  joined := by
    rw [hp]
    exact h.joined
  fresh hnone := by
    have := h.fresh hnone
    simp only [Db.lookup] at this ⊢
    rw [hp]
    exact this

end Invitee

/-! ## The agreement and the conditions -/

/-- How many participants have accepted. -/
def acceptedCount (db : Db adehun) (agreementId : Id) : Nat :=
  (((db .agreementParticipant : List AgreementParticipant).filter fun p =>
    p.agreementId = agreementId).filter (·.status = .accepted)).length

/-- What an acceptance makes of the agreement. -/
def settledStatus (db : Db adehun) (agreementId : Id) : AgreementStatus :=
  if acceptedCount db agreementId ≥ 2 then .active else .pending

/-- The agreement in a new status, if it is one. -/
def statusWrites (a : Agreement) (status : AgreementStatus) : List (Write adehun) :=
  if a.status = status then [] else [.update .agreement a.id (setStatus status)]

/-- The conditions that are tied to an invitation. -/
def tiedConditions (db : Db adehun) (agreementId invitationId : Id) : List Condition :=
  (db .condition : List Condition).filter fun c =>
    c.agreementId = agreementId && c.invitationId = some invitationId

def addressing (db : Db adehun) (agreementId invitationId participantId : Id) :
    List (Write adehun) :=
  ((tiedConditions db agreementId invitationId).map (·.id)).map fun id =>
    .update .condition id (setRequiredFrom participantId)

/-- The tables after the conditions were pointed at the invitee. -/
def addressed (db : Db adehun) (agreementId invitationId participantId : Id) : Db adehun :=
  db.applyAll (addressing db agreementId invitationId participantId)

section Phases

variable {db : Db adehun} {κ : List (Db adehun)} {m : Shared} {χ : Chance adehun}

theorem statusWrites_go (hs : db.Sound) {a : Agreement} {agreementId : Id}
    (ha : db.lookup ⟨.agreement, agreementId⟩ = some a) (status : AgreementStatus) :
    db.sendAll (statusWrites a status) = .ok (db.applyAll (statusWrites a status)) := by
  unfold statusWrites
  split
  · rfl
  · have hid : a.id = agreementId := Db.lookup_id ha
    rw [← hid] at ha
    exact hs.send (Write.update_goes hs.keys hs.entries ha rfl rfl) fun _ _ _ => rfl

theorem lookup_statusWrites {a : Agreement} {agreementId : Id}
    (ha : db.lookup ⟨.agreement, agreementId⟩ = some a) (status : AgreementStatus) :
    (db.applyAll (statusWrites a status)).lookup ⟨.agreement, agreementId⟩ =
      some { a with status := status } := by
  have hid : a.id = agreementId := Db.lookup_id ha
  unfold statusWrites
  split
  · next hsame =>
      rw [Db.applyAll_nil, ha, ← hsame]
  · rw [Db.applyAll_cons, Db.applyAll_nil, Write.lookup_update, ha]
    simp [setStatus, hid]

theorem statusWrites_apart {t : Table} (ht : t ≠ .agreement) (a : Agreement)
    (status : AgreementStatus) : db.applyAll (statusWrites a status) t = db t := by
  unfold statusWrites
  split
  · rfl
  · have hd : (Write.update .agreement a.id (setStatus status) : Write adehun).key.table ≠ t :=
      Ne.symm ht
    exact Write.apply_table_of_ne db hd

theorem addressing_goes (hs : db.Sound) (agreementId invitationId participantId : Id) :
    db.sendAll (addressing db agreementId invitationId participantId) =
      .ok (addressed db agreementId invitationId participantId) := by
  refine hs.sendUpdates (fun _ => rfl) (fun _ => rfl) ?_
  intro id hid
  obtain ⟨c, hc, rfl⟩ := List.mem_map.mp hid
  have := hs.keys.lookup (t := .condition) (List.mem_of_mem_filter hc)
  exact Option.isSome_iff_exists.mpr ⟨c, this⟩

theorem lookup_addressed (db : Db adehun) (agreementId invitationId participantId id : Id) :
    (addressed db agreementId invitationId participantId).lookup ⟨.condition, id⟩ =
      (db.lookup ⟨.condition, id⟩).map fun c : Condition =>
        if id ∈ (tiedConditions db agreementId invitationId).map (·.id) then
          { c with requiredFromParticipantId := some participantId }
        else c :=
  Db.lookup_updates (f := setRequiredFrom participantId) (fun _ => rfl) _ id

theorem addressed_apart {t : Table} (ht : t ≠ .condition)
    (agreementId invitationId participantId : Id) :
    addressed db agreementId invitationId participantId t = db t :=
  Db.updates_apart ht _ _

theorem assignStatus_solo (σ : Solo adehun) (a : Agreement) (status : AgreementStatus) :
    (assignStatus a status).solo σ =
      (.ok (), { σ with dirty := σ.dirty ++ statusWrites a status }) := by
  unfold assignStatus statusWrites
  split
  · simp
  · rfl

/-- The agreement is assigned its status and committed. -/
theorem saveStatus_solo (hs : db.Sound) {a : Agreement} {agreementId : Id}
    (ha : db.lookup ⟨.agreement, agreementId⟩ = some a) (status : AgreementStatus)
    {v : Db adehun} (hv : v = db.applyAll (statusWrites a status)) {α : Type}
    (f : Agreement → App α) :
    (do
      assignStatus a status
      commit
      let a' ← refresh .agreement agreementId
      f a' : App α).solo (.between db κ m χ) =
      (f { a with status := status }).solo (.between v (v :: κ) m χ) := by
  have hgoes := statusWrites_go hs ha status
  rw [← hv] at hgoes
  have hrow := lookup_statusWrites ha status
  rw [← hv] at hrow
  rw [Prog.solo_bind_ok (assignStatus_solo _ _ _)]
  refine (Prog.solo_bind_ok (Solo.commit_between hgoes)).trans ?_
  exact Prog.solo_bind_ok (refresh_solo (σ := .between v (v :: κ) m χ) Solo.tidy_between hrow)

theorem settleAcceptance_solo (hs : db.Sound) {a : Agreement} {agreementId : Id}
    (ha : db.lookup ⟨.agreement, agreementId⟩ = some a) {v : Db adehun}
    (hv : v = db.applyAll (statusWrites a (settledStatus db agreementId))) :
    (settleAcceptance agreementId).solo (.between db κ m χ) =
      (.ok { a with status := settledStatus db agreementId }, .between v (v :: κ) m χ) := by
  have ht : (Solo.between db κ m χ).Tidy := Solo.tidy_between
  unfold settleAcceptance getAttached
  rw [Prog.solo_bind_ok (get_solo ht _ _), Solo.between_view, ha]
  simp only
  rw [Prog.solo_bind_ok (getParticipantsForAgreement_solo ht hs agreementId)]
  have hsave := saveStatus_solo (κ := κ) (m := m) (χ := χ) hs ha _ hv pure
  simp only [bind_pure] at hsave
  exact hsave

/-- What is committed once the conditions point at the invitee. -/
def addressedCommits (db : Db adehun) (agreementId invitationId participantId : Id) :
    List (Db adehun) :=
  if (tiedConditions db agreementId invitationId).isEmpty then []
  else [addressed db agreementId invitationId participantId]

theorem addressed_of_isEmpty {agreementId invitationId : Id}
    (h : (tiedConditions db agreementId invitationId).isEmpty = true) (participantId : Id) :
    addressed db agreementId invitationId participantId = db := by
  unfold addressed addressing
  rw [List.isEmpty_iff.mp h]
  rfl

theorem updateAgreementConditions_solo (hs : db.Sound)
    (agreementId invitationId participantId : Id) :
    (updateAgreementConditionsWithInvitation agreementId invitationId participantId).solo
        (.between db κ m χ) =
      (.ok (), .between (addressed db agreementId invitationId participantId)
        (addressedCommits db agreementId invitationId participantId ++ κ) m χ) := by
  unfold updateAgreementConditionsWithInvitation
  rw [Prog.solo_bind_ok (loadAll_solo Solo.tidy_between hs .condition _)]
  have hstaged := Prog.solo_forEach_stage (σ := .between db κ m χ)
    (fun c : Condition => (.update .condition c.id (setRequiredFrom participantId) : Write adehun))
    (tiedConditions db agreementId invitationId)
  refine (Prog.solo_bind_ok hstaged).trans ?_
  show (if (tiedConditions db agreementId invitationId).isEmpty then _ else _ : App Unit).solo _ = _
  unfold addressedCommits
  split
  · next hempty =>
      rw [addressed_of_isEmpty hempty]
      rw [List.isEmpty_iff.mp hempty]
      rfl
  · have hgoes := addressing_goes hs agreementId invitationId participantId
    unfold addressing at hgoes
    rw [List.map_map] at hgoes
    exact Solo.commit_between hgoes

end Phases

/-! ## The requests -/

/-- Whether an invitation can still be answered, as far as its status goes. -/
def Invitation.Open (v : Invitation) : Prop := messageOr (v.status.getD "") "pending" = "pending"

instance (v : Invitation) : Decidable v.Open := inferInstanceAs (Decidable (_ = _))

namespace Invitee

variable (n : Invitee) (db : Db adehun)

/-- The tables after each transaction of an acceptance. -/
def joinedDb : Db adehun := n.answered db .accepted "accepted"

def settledDb (a : Agreement) : Db adehun :=
  (n.joinedDb db).applyAll (statusWrites a (settledStatus (n.joinedDb db) n.agreementId))

def acceptedDb (a : Agreement) : Db adehun :=
  addressed (n.settledDb db a) n.agreementId n.invitation.id n.participantId

/-- What an acceptance commits, the last first. -/
def acceptedCommits (a : Agreement) : List (Db adehun) :=
  addressedCommits (n.settledDb db a) n.agreementId n.invitation.id n.participantId ++
    [n.settledDb db a, n.joinedDb db]

/-- A refusal after its checks. -/
def declining : App AgreementResponse := do
  let participantId ← joinAs n.participant n.agreementId n.userId n.invitation.role .rejected
  assign .invitation n.invitation.id (setInvitationStatus "expired")
  commit
  let _ ← refresh .agreementParticipant participantId
  match ← getAttached n.agreementId with
  | none => .raise agreementNotFound
  | some agreement => do
      assignStatus agreement .cancelled
      commit
      let agreement ← refresh .agreement n.agreementId
      cacheDelete (agreementCacheKeys n.agreementId [agreement.userId, n.userId])
      getAgreement n.agreementId (some n.userId)

/-- The tables after each transaction of a refusal. -/
def declinedDb : Db adehun := n.answered db .rejected "expired"

def rejectedDb (a : Agreement) : Db adehun :=
  (n.declinedDb db).applyAll (statusWrites a .cancelled)

end Invitee

section Requests

variable {n : Invitee} {db : Db adehun} {κ : List (Db adehun)} {m : Shared} {χ : Chance adehun}
  {a : Agreement}

theorem raiseIf_pass {p : Prop} [Decidable p] {e : Exn} {σ : Solo adehun} (h : ¬ p) :
    (raiseIf p e).solo σ = (.ok (), σ) := by
  rw [raiseIf_solo, if_neg h]

theorem raiseIf_stop {p : Prop} [Decidable p] {e : Exn} {σ : Solo adehun} (h : p) :
    (raiseIf p e).solo σ = (.error e, σ) := by
  rw [raiseIf_solo, if_pos h]

/-- A program that only looks, in a session between two transactions. -/
theorem looks_between {α : Type} {p : App α} (h : p.Looks) : ∃ r m' χ',
    p.solo (.between db κ m χ) = (r, .between db κ m' χ') := by
  obtain ⟨m', χ', he⟩ := h (.between db κ m χ) Solo.tidy_between
  exact ⟨(p.solo (.between db κ m χ)).1, m', χ', Prod.ext rfl he⟩

theorem cacheDelete_between (ks : List CacheKey) : ∃ m' χ',
    (cacheDelete ks).solo (.between db κ m χ) = (.ok (), .between db κ m' χ') :=
  cacheDelete_solo ks

/-- The invitee's row and the invitation are answered and committed. -/
theorem answer_solo (h : n.In db) (hs : db.Sound) (hd : χ.ids 0 = n.drawn)
    (status : InvitationStatus) (s : String) : ∃ χ', ∀ {α : Type} (f : Id → App α),
    (do
      let participantId ← joinAs n.participant n.agreementId n.userId n.invitation.role status
      assign .invitation n.invitation.id (setInvitationStatus s)
      commit
      let _ ← refresh .agreementParticipant participantId
      f participantId : App α).solo (.between db κ m χ) =
      (f n.participantId).solo
        (.between (n.answered db status s) (n.answered db status s :: κ) m χ') := by
  have hgoes := h.goes hs status s
  have hrow := h.lookup_answered hs status s
  have hcommit : ∀ {α : Type} (f : Id → App α) χ', (do
      assign .invitation n.invitation.id (setInvitationStatus s)
      commit
      let _ ← refresh .agreementParticipant n.participantId
      f n.participantId : App α).solo { Solo.between db κ m χ' with
        dirty := [match n.participant with
          | none => .insert .agreementParticipant (n.row status)
          | some p => .update .agreementParticipant p.id (setParticipantStatus status)] } =
      (f n.participantId).solo
        (.between (n.answered db status s) (n.answered db status s :: κ) m χ') := by
    intro α f χ'
    rw [Prog.solo_bind_ok (assign_solo _ _)]
    refine (Prog.solo_bind_ok (Solo.commit_between (χ := χ') (m := m) (κ := κ) hgoes)).trans ?_
    exact Prog.solo_bind_ok (refresh_solo
      (σ := .between (n.answered db status s) (n.answered db status s :: κ) m χ')
      Solo.tidy_between hrow)
  cases hp : n.participant with
  | none =>
      refine ⟨{ χ with ids := fun k => χ.ids (k + 1) }, fun f => ?_⟩
      have := hcommit f { χ with ids := fun k => χ.ids (k + 1) }
      rw [← this]
      unfold joinAs Invitee.row Invitee.participantId
      simp only [hp, Option.map_none, Option.getD_none, ← hd]
      rfl
  | some p =>
      refine ⟨χ, fun f => ?_⟩
      rw [← hcommit f χ]
      unfold joinAs Invitee.participantId
      simp only [hp, Option.map_some, Option.getD_some]
      rfl

section Accept

variable (h : n.In db) (hs : db.Sound)

include h hs

/-- What both requests look up first. -/
theorem lookups_solo :
    (getInvitationByAgreementId n.invitation.email n.agreementId).solo (.between db κ m χ) =
      (.ok (some n.invitation), .between db κ m χ) ∧
    (getParticipantForUser n.agreementId n.userId).solo (.between db κ m χ) =
      (.ok n.participant, .between db κ m χ) := by
  have hv := getInvitationByAgreementId_solo (σ := .between db κ m χ) Solo.tidy_between hs
    n.invitation.email n.agreementId
  have hp := getParticipantForUser_solo (σ := .between db κ m χ) Solo.tidy_between hs
    n.agreementId n.userId
  rw [Solo.between_view, h.found] at hv
  rw [Solo.between_view, h.joined] at hp
  exact ⟨hv, hp⟩

/-- Somebody who has accepted is shown the agreement. -/
theorem acceptAgreement_again (hdone : n.participant.any (·.status = .accepted) = true) :
    ∃ r m' χ', (acceptAgreement n.agreementId n.userId n.invitation.email).solo
      (.between db κ m χ) = (r, .between db κ m' χ') := by
  obtain ⟨hv, hp⟩ := lookups_solo (κ := κ) (m := m) (χ := χ) h hs
  unfold acceptAgreement
  rw [Prog.solo_bind_ok hv]
  simp only
  rw [Prog.solo_bind_ok hp, if_pos hdone]
  exact looks_between (looks_getAgreement _ _)

/-- Nothing is done about an agreement that is not pending, or an invitation
that is not open. -/
theorem acceptAgreement_refused (ha : db.lookup ⟨.agreement, n.agreementId⟩ = some a)
    (hno : a.status ≠ .pending ∨ ¬ n.invitation.Open) :
    ∃ r m' χ', (acceptAgreement n.agreementId n.userId n.invitation.email).solo
      (.between db κ m χ) = (r, .between db κ m' χ') := by
  by_cases hdone : n.participant.any (·.status = .accepted) = true
  · exact acceptAgreement_again h hs hdone
  obtain ⟨hv, hp⟩ := lookups_solo (κ := κ) (m := m) (χ := χ) h hs
  have hget := get_solo (σ := .between db κ m χ) Solo.tidy_between .agreement n.agreementId
  rw [Solo.between_view, ha] at hget
  unfold acceptAgreement
  rw [Prog.solo_bind_ok hv]
  simp only
  rw [Prog.solo_bind_ok hp, if_neg hdone]
  unfold getAttached
  rw [Prog.solo_bind_ok hget]
  simp only
  by_cases hstatus : a.status = .pending
  · have hclosed : messageOr (n.invitation.status.getD "") "pending" ≠ "pending" :=
      hno.resolve_left (not_not.mpr hstatus)
    rw [Prog.solo_bind_ok (raiseIf_pass (not_not.mpr hstatus)),
      Prog.solo_bind_error (raiseIf_stop hclosed)]
    exact ⟨_, m, χ, rfl⟩
  · rw [Prog.solo_bind_error (raiseIf_stop hstatus)]
    exact ⟨_, m, χ, rfl⟩

/-- An acceptance that goes through. -/
theorem acceptAgreement_solo (hd : χ.ids 0 = n.drawn)
    (hnew : ¬ n.participant.any (·.status = .accepted) = true)
    (ha : db.lookup ⟨.agreement, n.agreementId⟩ = some a) (hpending : a.status = .pending)
    (hopen : n.invitation.Open) :
    ∃ r m' χ', (acceptAgreement n.agreementId n.userId n.invitation.email).solo
      (.between db κ m χ) =
        (r, .between (n.acceptedDb db a) (n.acceptedCommits db a ++ κ) m' χ') := by
  obtain ⟨hv, hp⟩ := lookups_solo (κ := κ) (m := m) (χ := χ) h hs
  have hget := get_solo (σ := .between db κ m χ) Solo.tidy_between .agreement n.agreementId
  rw [Solo.between_view, ha] at hget
  have hstill : ¬ messageOr (n.invitation.status.getD "") "pending" ≠ "pending" :=
    not_not.mpr hopen
  obtain ⟨χ₁, hanswer⟩ := answer_solo (κ := κ) (m := m) h hs hd .accepted "accepted"
  have hs₁ : (n.joinedDb db).Sound := h.sound_answered hs _ _
  have ha₁ : (n.joinedDb db).lookup ⟨.agreement, n.agreementId⟩ = some a := by
    rw [← ha]
    simp only [Db.lookup]
    rw [Invitee.joinedDb, Invitee.answered_apart _ _ (by decide) (by decide)]
  have hsettle := settleAcceptance_solo (κ := n.joinedDb db :: κ) (m := m) (χ := χ₁) hs₁ ha₁
    (v := n.settledDb db a) rfl
  have hgoes := statusWrites_go hs₁ ha₁ (settledStatus (n.joinedDb db) n.agreementId)
  have hs₂ : (n.settledDb db a).Sound := hs₁.sendAll hgoes
  have hv₂ : (n.settledDb db a).lookup ⟨.invitation, n.invitation.id⟩ =
      some { n.invitation with status := some "accepted" } := by
    rw [← h.lookup_invitation hs .accepted "accepted"]
    simp only [Db.lookup]
    rw [Invitee.settledDb, statusWrites_apart (by decide)]
    rfl
  obtain ⟨m₂, χ₂, hdelete⟩ := cacheDelete_between
    (κ := n.settledDb db a :: n.joinedDb db :: κ) (m := m) (χ := χ₁)
    (agreementCacheKeys n.agreementId [a.userId, n.userId])
  have hattributes := attributes_solo
    (σ := .between (n.settledDb db a) (n.settledDb db a :: n.joinedDb db :: κ) m₂ χ₂)
    Solo.tidy_between hv₂
  have haddress := updateAgreementConditions_solo
    (κ := n.settledDb db a :: n.joinedDb db :: κ) (m := m₂) (χ := χ₂) hs₂ n.agreementId
    n.invitation.id n.participantId
  unfold acceptAgreement
  rw [Prog.solo_bind_ok hv]
  simp only
  rw [Prog.solo_bind_ok hp, if_neg hnew]
  unfold getAttached
  rw [Prog.solo_bind_ok hget]
  simp only
  rw [Prog.solo_bind_ok (raiseIf_pass (not_not.mpr hpending)),
    Prog.solo_bind_ok (raiseIf_pass hstill), hanswer]
  rw [show n.answered db .accepted "accepted" = n.joinedDb db from rfl]
  rw [Prog.solo_bind_ok hsettle, Prog.solo_bind_ok hdelete, Prog.solo_bind_ok hattributes,
    Prog.solo_bind_ok haddress]
  unfold Invitee.acceptedCommits
  rw [List.append_assoc]
  exact looks_between (looks_getAgreement _ _)

omit h hs in
/-- An agreement that is not forming any more cannot be declined. -/
theorem rejectAgreement_over {agreementId userId : Id} {email : String}
    (ha : db.lookup ⟨.agreement, agreementId⟩ = some a)
    (hover : ¬ (a.status = .pending ∨ a.status = .active)) :
    ∃ r m' χ', (rejectAgreement agreementId userId email).solo (.between db κ m χ) =
      (r, .between db κ m' χ') := by
  have hget := get_solo (σ := .between db κ m χ) Solo.tidy_between .agreement agreementId
  rw [Solo.between_view, ha] at hget
  have hclosed : a.status ≠ .pending ∧ a.status ≠ .active := not_or.mp hover
  unfold rejectAgreement
  rw [show getAttached agreementId = get .agreement agreementId from rfl, Prog.solo_bind_ok hget]
  simp only
  by_cases hdisputed : a.status = .disputed
  · rw [Prog.solo_bind_error (raiseIf_stop hdisputed)]
    exact ⟨_, m, χ, rfl⟩
  · rw [Prog.solo_bind_ok (raiseIf_pass hdisputed), Prog.solo_bind_error (raiseIf_stop hclosed)]
    exact ⟨_, m, χ, rfl⟩

/-- The checks of a refusal, passed. -/
theorem rejectAgreement_checks (ha : db.lookup ⟨.agreement, n.agreementId⟩ = some a)
    (hforming : a.status = .pending ∨ a.status = .active) :
    (rejectAgreement n.agreementId n.userId n.invitation.email).solo (.between db κ m χ) =
      (if n.participant.any (·.status = .rejected) then
        getAgreement n.agreementId (some n.userId) else n.declining).solo
        (.between db κ m χ) := by
  obtain ⟨hv, hp⟩ := lookups_solo (κ := κ) (m := m) (χ := χ) h hs
  have hget := get_solo (σ := .between db κ m χ) Solo.tidy_between .agreement n.agreementId
  rw [Solo.between_view, ha] at hget
  have hundisputed : ¬ a.status = .disputed := by
    rcases hforming with hf | hf <;> simp [hf]
  have hopen : ¬ (a.status ≠ .pending ∧ a.status ≠ .active) := by
    rcases hforming with hf | hf <;> simp [hf]
  unfold rejectAgreement
  rw [show getAttached n.agreementId = get .agreement n.agreementId from rfl,
    Prog.solo_bind_ok hget]
  simp only
  rw [Prog.solo_bind_ok (raiseIf_pass hundisputed), Prog.solo_bind_ok (raiseIf_pass hopen),
    Prog.solo_bind_ok hv]
  simp only
  rw [Prog.solo_bind_ok hp]
  rfl

/-- Somebody who has declined is shown the agreement. -/
theorem rejectAgreement_again (ha : db.lookup ⟨.agreement, n.agreementId⟩ = some a)
    (hforming : a.status = .pending ∨ a.status = .active)
    (hdone : n.participant.any (·.status = .rejected) = true) :
    ∃ r m' χ', (rejectAgreement n.agreementId n.userId n.invitation.email).solo
      (.between db κ m χ) = (r, .between db κ m' χ') := by
  rw [rejectAgreement_checks h hs ha hforming, if_pos hdone]
  exact looks_between (looks_getAgreement _ _)

/-- A refusal that goes through. -/
theorem rejectAgreement_solo (hd : χ.ids 0 = n.drawn)
    (hnew : ¬ n.participant.any (·.status = .rejected) = true)
    (ha : db.lookup ⟨.agreement, n.agreementId⟩ = some a)
    (hforming : a.status = .pending ∨ a.status = .active) :
    ∃ r m' χ', (rejectAgreement n.agreementId n.userId n.invitation.email).solo
      (.between db κ m χ) =
        (r, .between (n.rejectedDb db a) (n.rejectedDb db a :: n.declinedDb db :: κ) m' χ') := by
  obtain ⟨χ₁, hanswer⟩ := answer_solo (κ := κ) (m := m) h hs hd .rejected "expired"
  have hs₁ : (n.declinedDb db).Sound := h.sound_answered hs _ _
  have ha₁ : (n.declinedDb db).lookup ⟨.agreement, n.agreementId⟩ = some a := by
    rw [← ha]
    simp only [Db.lookup]
    rw [Invitee.declinedDb, Invitee.answered_apart _ _ (by decide) (by decide)]
  have hget := get_solo (σ := .between (n.declinedDb db) (n.declinedDb db :: κ) m χ₁)
    Solo.tidy_between .agreement n.agreementId
  rw [Solo.between_view, ha₁] at hget
  have hsave := saveStatus_solo (κ := n.declinedDb db :: κ) (m := m) (χ := χ₁) hs₁ ha₁
    .cancelled (v := n.rejectedDb db a) rfl fun agreement => do
      cacheDelete (agreementCacheKeys n.agreementId [agreement.userId, n.userId])
      getAgreement n.agreementId (some n.userId)
  obtain ⟨m₂, χ₂, hdelete⟩ := cacheDelete_between
    (κ := n.rejectedDb db a :: n.declinedDb db :: κ) (m := m) (χ := χ₁)
    (agreementCacheKeys n.agreementId [a.userId, n.userId])
  rw [rejectAgreement_checks h hs ha hforming, if_neg hnew]
  unfold Invitee.declining
  rw [hanswer]
  rw [show n.answered db .rejected "expired" = n.declinedDb db from rfl]
  unfold getAttached
  rw [Prog.solo_bind_ok hget]
  simp only
  rw [hsave, Prog.solo_bind_ok hdelete]
  exact looks_between (looks_getAgreement _ _)

end Accept

end Requests

end Adehun
