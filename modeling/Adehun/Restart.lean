import Adehun.Acceptance

/-!
# A request cut off between two of its transactions

`accept_agreement` commits three times and `reject_agreement` twice, and both
begin with a look at the invitee's row, which the first transaction has
already put right. A request that is cut off later is therefore taken for one
that has been through, and calling again finishes nothing.
-/

namespace Adehun

open Sessions

/-! ## Cutting off -/

/-- A call in a session of its own. -/
def called {α : Type} (p : App α) (db : Db adehun) (m : Shared) (χ : Chance adehun) :
    Solo adehun := (p.solo (.start db m χ)).2

/-- What a call answers, in a session of its own. -/
def outcome {α : Type} (p : App α) (db : Db adehun) (m : Shared) (χ : Chance adehun) :
    Except Exn α := (p.solo (.start db m χ)).1

/-- The tables and the shared store. -/
structure World where
  db : Db adehun
  shared : Shared

/-- What a call makes of both. -/
def World.after {α : Type} (w : World) (p : App α) (χ : Chance adehun) : World :=
  { db := (called p w.db w.shared χ).db, shared := (called p w.db w.shared χ).shared }

theorem after_eq {α : Type} {w : World} {p : App α} {χ : Chance adehun} {r : Except Exn α}
    {σ : Solo adehun} (h : p.solo (.between w.db [] w.shared χ) = (r, σ)) :
    w.after p χ = ⟨σ.db, σ.shared⟩ ∧ outcome p w.db w.shared χ = r := by
  unfold World.after called outcome
  rw [Solo.start_eq, h]
  exact ⟨rfl, rfl⟩

/-- What is committed when a call is cut off after its first transactions. -/
def cutAfter {α : Type} (p : App α) (db : Db adehun) (m : Shared) (χ : Chance adehun)
    (k : Nat) : Db adehun :=
  ((called p db m χ).commits.reverse.take k).getLast?.getD db

/-- Cut off there, and called again with nothing in between, a request leaves
the tables that it leaves uninterrupted. The identifier of a new row is drawn
by whichever of the two calls commits it. -/
def Restarts {α : Type} (p : App α) (db : Db adehun) (m : Shared) (χ : Chance adehun)
    (k : Nat) : Prop :=
  ∀ m' χ', db.lookup ⟨.agreementParticipant, χ'.ids 0⟩ = none →
    (called p (cutAfter p db m χ k) m' χ').db =
      (called p db m (if k = 0 then χ' else χ)).db

section Cut

variable {α : Type} {p : App α} {db db₁ : Db adehun} {m m₁ : Shared} {χ χ₁ : Chance adehun}
  {κ : List (Db adehun)} {r : Except Exn α} {k : Nat}

theorem called_eq (h : p.solo (.between db [] m χ) = (r, .between db₁ κ m₁ χ₁)) :
    called p db m χ = .between db₁ κ m₁ χ₁ := by
  unfold called
  rw [Solo.start_eq, h]

theorem cutAfter_zero : cutAfter p db m χ 0 = db := rfl

/-- Where a repeated call does nothing, a request restarts from where it was
cut off if nothing was left to do. -/
theorem restarts_iff_of_still (hk : k ≠ 0)
    (h : ∀ m' χ', ∃ r m'' χ'', p.solo (.between (cutAfter p db m χ k) [] m' χ') =
      (r, .between (cutAfter p db m χ k) [] m'' χ''))
    (hfresh : db.lookup ⟨.agreementParticipant, χ.ids 0⟩ = none) :
    Restarts p db m χ k ↔ cutAfter p db m χ k = (called p db m χ).db := by
  have hstill : ∀ m' χ', (called p (cutAfter p db m χ k) m' χ').db = cutAfter p db m χ k := by
    intro m' χ'
    obtain ⟨r, m'', χ'', he⟩ := h m' χ'
    rw [called_eq he, Solo.between_db]
  unfold Restarts
  simp only [if_neg hk]
  constructor
  · intro hr
    rw [← hr m χ hfresh, hstill]
  · intro he m' χ' _
    rw [hstill, he]

end Cut

/-! ## What is left to do -/

section Left

variable {n : Invitee} {db : Db adehun} {a : Agreement}

theorem addressed_eq_iff (hs : db.Sound) (agreementId invitationId participantId : Id) :
    addressed db agreementId invitationId participantId = db ↔
      ∀ c ∈ tiedConditions db agreementId invitationId,
        c.requiredFromParticipantId = some participantId := by
  constructor
  · intro he c hc
    have hrow := hs.keys.lookup (t := .condition) (List.mem_of_mem_filter hc)
    have hid : c.id ∈ (tiedConditions db agreementId invitationId).map (·.id) :=
      List.mem_map_of_mem hc
    have hlook := lookup_addressed db agreementId invitationId participantId c.id
    rw [he, show db.lookup ⟨.condition, c.id⟩ = some c from hrow] at hlook
    simp only [Option.map_some, if_pos hid, Option.some.injEq] at hlook
    rw [hlook]
  · intro hall
    refine hs.updates_eq (f := setRequiredFrom participantId) ?_
    intro id hid r hr
    obtain ⟨c, hc, rfl⟩ := List.mem_map.mp hid
    have hrow := hs.keys.lookup (t := .condition) (List.mem_of_mem_filter hc)
    rw [show db.lookup ⟨.condition, c.id⟩ = some c from hrow] at hr
    cases hr
    have := hall c hc
    simp only [setRequiredFrom]
    rw [← this]

theorem statusWrites_eq_iff (ha : db.lookup ⟨.agreement, n.agreementId⟩ = some a)
    (status : AgreementStatus) : db.applyAll (statusWrites a status) = db ↔ a.status = status := by
  constructor
  · intro he
    have hlook := lookup_statusWrites ha status
    rw [he, ha] at hlook
    have : a = { a with status := status } := Option.some.inj hlook
    rw [this]
  · intro he
    rw [statusWrites, if_pos he]
    rfl

/-- One of several rows comes to be counted. -/
theorem countP_update {α : Type} {l : List α} {key : α → Nat} {x : α} {q : α → Bool} {f : α → α}
    (hnodup : (l.map key).Nodup) (hx : x ∈ l) (hno : q x = false) (hyes : q (f x) = true) :
    (l.map fun y => if key y = key x then f y else y).countP q = l.countP q + 1 := by
  induction l with
  | nil => cases hx
  | cons y ys ih =>
      rw [List.map_cons, List.nodup_cons] at hnodup
      by_cases hy : key y = key x
      · have hyx : y = x := by
          rcases List.mem_cons.mp hx with rfl | hmem
          · rfl
          · exact absurd (hy ▸ List.mem_map_of_mem hmem) hnodup.1
        subst hyx
        have hrest : ys.map (fun z => if key z = key y then f z else z) = ys := by
          refine (List.map_congr_left fun z hz => ?_).trans (List.map_id ys)
          refine if_neg fun he => ?_
          rw [← he] at hnodup
          exact hnodup.1 (List.mem_map_of_mem hz)
        rw [List.map_cons, if_pos rfl, hrest, List.countP_cons_of_pos hyes,
          List.countP_cons_of_neg (by simp [hno])]
      · have hmem : x ∈ ys := by
          rcases List.mem_cons.mp hx with rfl | hmem
          · exact absurd rfl hy
          · exact hmem
        rw [List.map_cons, if_neg hy, List.countP_cons, List.countP_cons, ih hnodup.2 hmem]
        omega

theorem acceptedCount_eq (db : Db adehun) (agreementId : Id) : acceptedCount db agreementId =
    (db .agreementParticipant : List AgreementParticipant).countP fun p =>
      p.status = .accepted && p.agreementId = agreementId := by
  unfold acceptedCount
  rw [List.filter_filter, List.countP_eq_length_filter]

/-- The invitee is one more who has accepted. -/
theorem acceptedCount_joined (h : n.In db) (hs : db.Sound)
    (hnew : ¬ n.participant.any (·.status = .accepted) = true) :
    acceptedCount (n.joinedDb db) n.agreementId = acceptedCount db n.agreementId + 1 := by
  have howner := h.row_owner .accepted
  rw [acceptedCount_eq, acceptedCount_eq, Invitee.joinedDb, Invitee.answered_participant]
  cases hp : n.participant with
  | none =>
      simp only
      rw [List.countP_append]
      simp [howner]
  | some p =>
      have hmem := h.participant_mem hp
      rw [hp] at hnew
      refine countP_update (f := fun q => { q with status := .accepted })
        (hs.keys .agreementParticipant) hmem.1 ?_ ?_
      · simpa using fun hstatus _ => hnew (by simpa using hstatus)
      · simp [hmem.2]

/-- The agreement becomes active, if anybody had accepted it before. -/
theorem settledStatus_joined (h : n.In db) (hs : db.Sound)
    (hnew : ¬ n.participant.any (·.status = .accepted) = true) :
    settledStatus (n.joinedDb db) n.agreementId =
      if acceptedCount db n.agreementId = 0 then .pending else .active := by
  unfold settledStatus
  rw [acceptedCount_joined h hs hnew]
  by_cases hzero : acceptedCount db n.agreementId = 0
  · rw [hzero]
    rfl
  · rw [if_neg hzero, if_pos (by omega)]

end Left

/-! ## Acceptance -/

section Accept

variable {n : Invitee} {db : Db adehun} {a : Agreement} (h : n.In db) (hs : db.Sound)
  (ha : db.lookup ⟨.agreement, n.agreementId⟩ = some a)

theorem tiedConditions_settled (n : Invitee) (db : Db adehun) (a : Agreement)
    (agreementId invitationId : Id) :
    tiedConditions (n.settledDb db a) agreementId invitationId =
      tiedConditions db agreementId invitationId := by
  unfold tiedConditions
  rw [Invitee.settledDb, statusWrites_apart (by decide), Invitee.joinedDb,
    Invitee.answered_apart _ _ (by decide) (by decide)]

include h hs ha

omit h hs in
theorem lookup_joined : (n.joinedDb db).lookup ⟨.agreement, n.agreementId⟩ = some a := by
  rw [← ha]
  simp only [Db.lookup]
  rw [Invitee.joinedDb, Invitee.answered_apart _ _ (by decide) (by decide)]

theorem sound_settled : (n.settledDb db a).Sound :=
  (h.sound_answered hs .accepted "accepted").sendAll
    (statusWrites_go (h.sound_answered hs .accepted "accepted") (lookup_joined ha) _)

theorem sound_accepted : (n.acceptedDb db a).Sound :=
  (sound_settled h hs ha).sendAll (addressing_goes (sound_settled h hs ha) _ _ _)

/-- After each of the transactions the invitee is found to have accepted. -/
theorem acceptAgreement_still {v : Db adehun}
    (hv : v = n.joinedDb db ∨ v = n.settledDb db a ∨ v = n.acceptedDb db a) (m : Shared)
    (χ : Chance adehun) :
    ∃ r m' χ', (acceptAgreement n.agreementId n.userId n.invitation.email).solo
      (.between v [] m χ) = (r, .between v [] m' χ') := by
  have hdone : (n.after .accepted "accepted").participant.any (·.status = .accepted) = true := by
    simp [Invitee.after]
  have hagain : ∀ v : Db adehun, (n.after .accepted "accepted").In v → v.Sound → ∃ r m' χ',
      (acceptAgreement n.agreementId n.userId n.invitation.email).solo (.between v [] m χ) =
        (r, .between v [] m' χ') := fun v hin hv =>
    acceptAgreement_again (n := n.after .accepted "accepted") (κ := []) (m := m) (χ := χ)
      hin hv hdone
  have hin := h.answered .accepted "accepted"
  have hsettled : (n.after .accepted "accepted").In (n.settledDb db a) :=
    hin.congr (statusWrites_apart (by decide) _ _) (statusWrites_apart (by decide) _ _)
  rcases hv with rfl | rfl | rfl
  · exact hagain _ hin (h.sound_answered hs _ _)
  · exact hagain _ hsettled (sound_settled h hs ha)
  · exact hagain _ (hsettled.congr (addressed_apart (by decide) _ _ _)
      (addressed_apart (by decide) _ _ _)) (sound_accepted h hs ha)

/-- What the second and the third transaction have left to do. -/
theorem settled_eq_accepted_iff : n.settledDb db a = n.acceptedDb db a ↔
    ∀ c ∈ tiedConditions db n.agreementId n.invitation.id,
      c.requiredFromParticipantId = some n.participantId := by
  rw [← tiedConditions_settled n db a, eq_comm]
  exact addressed_eq_iff (sound_settled h hs ha) _ _ _

theorem joined_eq_accepted_iff (hpending : a.status = .pending)
    (hnew : ¬ n.participant.any (·.status = .accepted) = true) :
    n.joinedDb db = n.acceptedDb db a ↔ acceptedCount db n.agreementId = 0 ∧
      ∀ c ∈ tiedConditions db n.agreementId n.invitation.id,
        c.requiredFromParticipantId = some n.participantId := by
  have hstatus : n.settledDb db a = n.joinedDb db ↔ acceptedCount db n.agreementId = 0 := by
    rw [Invitee.settledDb, statusWrites_eq_iff (lookup_joined ha),
      settledStatus_joined h hs hnew, hpending]
    split <;> simp [*]
  rw [← hstatus, ← settled_eq_accepted_iff h hs ha]
  constructor
  · intro he
    have hsame : (n.settledDb db a).lookup ⟨.agreement, n.agreementId⟩ =
        (n.joinedDb db).lookup ⟨.agreement, n.agreementId⟩ := by
      rw [he]
      simp only [Db.lookup]
      rw [Invitee.acceptedDb, addressed_apart (by decide)]
    rw [Invitee.settledDb, lookup_statusWrites (lookup_joined ha),
      lookup_joined ha] at hsame
    have hkept : a.status = settledStatus (n.joinedDb db) n.agreementId := by
      rw [← Option.some.inj hsame]
    have hsettled := (statusWrites_eq_iff (lookup_joined ha) _).mpr hkept
    exact ⟨hsettled, hsettled.trans he⟩
  · rintro ⟨hsettled, he⟩
    exact hsettled.symm.trans he

/-- What an acceptance is for. -/
structure HasAccepted (n : Invitee) (v : Db adehun) : Prop where
  participant : ∃ p, v.lookup ⟨.agreementParticipant, n.participantId⟩ =
      some (p : AgreementParticipant) ∧ p.agreementId = n.agreementId ∧ p.userId = n.userId ∧
    p.status = .accepted
  invitation : ∃ i, v.lookup ⟨.invitation, n.invitation.id⟩ = some (i : Invitation) ∧
    i.status = some "accepted"
  agreement : ∃ b, v.lookup ⟨.agreement, n.agreementId⟩ = some (b : Agreement) ∧
    b.status = .active
  conditions : ∀ c ∈ tiedConditions v n.agreementId n.invitation.id,
    c.requiredFromParticipantId = some n.participantId

theorem hasAccepted (hnew : ¬ n.participant.any (·.status = .accepted) = true)
    (hother : acceptedCount db n.agreementId ≠ 0) : HasAccepted n (n.acceptedDb db a) where
  participant := by
    refine ⟨n.row .accepted, ?_, (h.row_owner .accepted).1, (h.row_owner .accepted).2,
      n.row_status .accepted⟩
    rw [← h.lookup_answered hs .accepted "accepted"]
    simp only [Db.lookup]
    rw [Invitee.acceptedDb, addressed_apart (by decide), Invitee.settledDb,
      statusWrites_apart (by decide)]
    rfl
  invitation := by
    refine ⟨{ n.invitation with status := some "accepted" }, ?_, rfl⟩
    rw [← h.lookup_invitation hs .accepted "accepted"]
    simp only [Db.lookup]
    rw [Invitee.acceptedDb, addressed_apart (by decide), Invitee.settledDb,
      statusWrites_apart (by decide)]
    rfl
  agreement := by
    refine ⟨{ a with status := settledStatus (n.joinedDb db) n.agreementId }, ?_, ?_⟩
    · rw [← lookup_statusWrites (lookup_joined ha)]
      simp only [Db.lookup]
      rw [Invitee.acceptedDb, addressed_apart (by decide)]
      rfl
    · rw [settledStatus_joined h hs hnew, if_neg hother]
  conditions := by
    intro c hc
    have hsound := sound_accepted h hs ha
    have hrow := hsound.keys.lookup (t := .condition) (List.mem_of_mem_filter hc)
    have hlook := lookup_addressed (n.settledDb db a) n.agreementId
      n.invitation.id n.participantId c.id
    rw [show (addressed _ _ _ _).lookup ⟨.condition, c.id⟩ = some c from hrow] at hlook
    obtain ⟨c₀, hc₀, hcc⟩ := Option.map_eq_some_iff.mp hlook.symm
    have hid : c₀.id = c.id := Db.lookup_id hc₀
    split at hcc
    · rw [← hcc]
    · next hnot =>
        subst hcc
        refine absurd (List.mem_map_of_mem (f := (·.id)) (a := c₀) ?_) hnot
        refine List.mem_filter.mpr ⟨Db.lookup_mem hc₀, ?_⟩
        exact (List.mem_filter.mp hc).2

omit h hs ha in
/-- The tables at the cuts of an acceptance. -/
theorem cuts_accept (n : Invitee) (db : Db adehun) (a : Agreement) :
    ((n.acceptedCommits db a).reverse.take 1).getLast? = some (n.joinedDb db) ∧
    ((n.acceptedCommits db a).reverse.take 2).getLast? = some (n.settledDb db a) ∧
    ((n.acceptedCommits db a).reverse.take (n.acceptedCommits db a).length).getLast? =
      some (n.acceptedDb db a) := by
  unfold Invitee.acceptedCommits addressedCommits
  split
  · next hempty =>
      refine ⟨rfl, rfl, ?_⟩
      rw [Invitee.acceptedDb, addressed_of_isEmpty hempty]
      rfl
  · exact ⟨rfl, rfl, rfl⟩

/-- Another call of the same invitee, which may draw another identifier. -/
theorem acceptAgreement_called {m : Shared} {χ : Chance adehun}
    (hfresh : db.lookup ⟨.agreementParticipant, χ.ids 0⟩ = none)
    (hnew : ¬ n.participant.any (·.status = .accepted) = true) (hpending : a.status = .pending)
    (hopen : n.invitation.Open) :
    (called (acceptAgreement n.agreementId n.userId n.invitation.email) db m χ).db =
        ({ n with drawn := χ.ids 0 } : Invitee).acceptedDb db a ∧
      (called (acceptAgreement n.agreementId n.userId n.invitation.email) db m χ).commits =
        ({ n with drawn := χ.ids 0 } : Invitee).acceptedCommits db a := by
  have hin : ({ n with drawn := χ.ids 0 } : Invitee).In db :=
    ⟨h.found, h.joined, fun _ => hfresh⟩
  obtain ⟨r, m₁, χ₁, hrun⟩ := acceptAgreement_solo (n := { n with drawn := χ.ids 0 }) (κ := [])
    (m := m) (χ := χ) hin hs rfl hnew ha hpending hopen
  have hcalled := called_eq hrun
  rw [show acceptAgreement n.agreementId n.userId n.invitation.email = acceptAgreement
    ({ n with drawn := χ.ids 0 } : Invitee).agreementId
    ({ n with drawn := χ.ids 0 } : Invitee).userId
    ({ n with drawn := χ.ids 0 } : Invitee).invitation.email from rfl, hcalled]
  exact ⟨rfl, List.append_nil _⟩

/-- An acceptance cut off: where it restarts from. -/
theorem restarts_accept {m : Shared} {χ : Chance adehun} (hd : n.drawn = χ.ids 0)
    (hfresh : db.lookup ⟨.agreementParticipant, χ.ids 0⟩ = none)
    (hnew : ¬ n.participant.any (·.status = .accepted) = true) (hpending : a.status = .pending)
    (hopen : n.invitation.Open) {k : Nat} (hk : k ≤ (n.acceptedCommits db a).length) :
    Restarts (acceptAgreement n.agreementId n.userId n.invitation.email) db m χ k ↔
      k = 0 ∨ k = (n.acceptedCommits db a).length ∨
        ((k = 1 → acceptedCount db n.agreementId = 0) ∧
          ∀ c ∈ tiedConditions db n.agreementId n.invitation.id,
            c.requiredFromParticipantId = some n.participantId) := by
  have hn : n = { n with drawn := χ.ids 0 } := by rw [← hd]
  obtain ⟨hend, hcommits⟩ := acceptAgreement_called (m := m) h hs ha hfresh hnew hpending hopen
  rw [← hn] at hend hcommits
  obtain ⟨hone, htwo, hlast⟩ := cuts_accept n db a
  -- a cut after which a repeated call does nothing
  have hiff : ∀ v, v = n.joinedDb db ∨ v = n.settledDb db a ∨ v = n.acceptedDb db a → k ≠ 0 →
      ((n.acceptedCommits db a).reverse.take k).getLast? = some v →
      (Restarts (acceptAgreement n.agreementId n.userId n.invitation.email) db m χ k ↔
        v = n.acceptedDb db a) := by
    intro v hv hne hlast
    have hcut : cutAfter (acceptAgreement n.agreementId n.userId n.invitation.email) db m χ k =
        v := by
      rw [cutAfter, hcommits, hlast]
      rfl
    have hstill := acceptAgreement_still h hs ha hv
    rw [← hcut] at hstill
    rw [restarts_iff_of_still hne hstill hfresh, hcut, hend]
  by_cases hzero : k = 0
  · subst hzero
    refine iff_of_true ?_ (Or.inl rfl)
    intro m' χ' hfresh'
    rw [cutAfter_zero, if_pos rfl, (acceptAgreement_called h hs ha hfresh' hnew hpending hopen).1,
      (acceptAgreement_called h hs ha hfresh' hnew hpending hopen).1]
  by_cases hall : k = (n.acceptedCommits db a).length
  · refine iff_of_true ?_ (Or.inr (Or.inl hall))
    rw [hiff _ (Or.inr (Or.inr rfl)) hzero (by rw [hall, hlast])]
  have hlength : (n.acceptedCommits db a).length ≤ 3 := by
    unfold Invitee.acceptedCommits addressedCommits
    split <;> simp
  have htwice : k = 1 ∨ k = 2 := by omega
  rcases htwice with rfl | rfl
  · rw [hiff _ (Or.inl rfl) hzero hone, joined_eq_accepted_iff h hs ha hpending hnew]
    simp [hall]
  · rw [hiff _ (Or.inr (Or.inl rfl)) hzero htwo, settled_eq_accepted_iff h hs ha]
    simp [hall]

end Accept

/-! ## Refusal -/

section Reject

variable {n : Invitee} {db : Db adehun} {a : Agreement} (h : n.In db) (hs : db.Sound)
  (ha : db.lookup ⟨.agreement, n.agreementId⟩ = some a)
  (hforming : a.status = .pending ∨ a.status = .active)

omit h hs in
theorem lookup_declined (ha : db.lookup ⟨.agreement, n.agreementId⟩ = some a) :
    (n.declinedDb db).lookup ⟨.agreement, n.agreementId⟩ = some a := by
  rw [← ha]
  simp only [Db.lookup]
  rw [Invitee.declinedDb, Invitee.answered_apart _ _ (by decide) (by decide)]

/-- What a refusal is for. -/
structure HasRejected (n : Invitee) (v : Db adehun) : Prop where
  participant : ∃ p, v.lookup ⟨.agreementParticipant, n.participantId⟩ =
      some (p : AgreementParticipant) ∧ p.agreementId = n.agreementId ∧ p.userId = n.userId ∧
    p.status = .rejected
  invitation : ∃ i, v.lookup ⟨.invitation, n.invitation.id⟩ = some (i : Invitation) ∧
    i.status = some "expired"
  agreement : ∃ b, v.lookup ⟨.agreement, n.agreementId⟩ = some (b : Agreement) ∧
    b.status = .cancelled

include h hs ha

theorem hasRejected : HasRejected n (n.rejectedDb db a) where
  participant := by
    refine ⟨n.row .rejected, ?_, (h.row_owner .rejected).1, (h.row_owner .rejected).2,
      n.row_status .rejected⟩
    rw [← h.lookup_answered hs .rejected "expired"]
    simp only [Db.lookup]
    rw [Invitee.rejectedDb, statusWrites_apart (by decide)]
    rfl
  invitation := by
    refine ⟨{ n.invitation with status := some "expired" }, ?_, rfl⟩
    rw [← h.lookup_invitation hs .rejected "expired"]
    simp only [Db.lookup]
    rw [Invitee.rejectedDb, statusWrites_apart (by decide)]
    rfl
  agreement := ⟨_, lookup_statusWrites (lookup_declined ha) .cancelled, rfl⟩

include hforming

theorem rejectAgreement_called {m : Shared} {χ : Chance adehun}
    (hfresh : db.lookup ⟨.agreementParticipant, χ.ids 0⟩ = none)
    (hnew : ¬ n.participant.any (·.status = .rejected) = true) :
    (called (rejectAgreement n.agreementId n.userId n.invitation.email) db m χ).db =
        ({ n with drawn := χ.ids 0 } : Invitee).rejectedDb db a ∧
      (called (rejectAgreement n.agreementId n.userId n.invitation.email) db m χ).commits =
        [({ n with drawn := χ.ids 0 } : Invitee).rejectedDb db a,
          ({ n with drawn := χ.ids 0 } : Invitee).declinedDb db] := by
  have hin : ({ n with drawn := χ.ids 0 } : Invitee).In db :=
    ⟨h.found, h.joined, fun _ => hfresh⟩
  obtain ⟨r, m₁, χ₁, hrun⟩ := rejectAgreement_solo (n := { n with drawn := χ.ids 0 }) (κ := [])
    (m := m) (χ := χ) hin hs rfl hnew ha hforming
  have hcalled := called_eq hrun
  rw [show rejectAgreement n.agreementId n.userId n.invitation.email = rejectAgreement
    ({ n with drawn := χ.ids 0 } : Invitee).agreementId
    ({ n with drawn := χ.ids 0 } : Invitee).userId
    ({ n with drawn := χ.ids 0 } : Invitee).invitation.email from rfl, hcalled]
  exact ⟨rfl, rfl⟩

/-- A refusal cut off: where it restarts from. -/
theorem restarts_reject {m : Shared} {χ : Chance adehun} (hd : n.drawn = χ.ids 0)
    (hfresh : db.lookup ⟨.agreementParticipant, χ.ids 0⟩ = none)
    (hnew : ¬ n.participant.any (·.status = .rejected) = true) {k : Nat} (hk : k ≤ 2) :
    Restarts (rejectAgreement n.agreementId n.userId n.invitation.email) db m χ k ↔
      k = 0 ∨ k = 2 := by
  have hn : n = { n with drawn := χ.ids 0 } := by rw [← hd]
  obtain ⟨hend, hcommits⟩ := rejectAgreement_called (m := m) h hs ha hforming hfresh hnew
  rw [← hn] at hend hcommits
  have hrow := lookup_statusWrites (lookup_declined ha) .cancelled
  have hthree : k = 0 ∨ k = 1 ∨ k = 2 := by omega
  rcases hthree with rfl | rfl | rfl
  · refine iff_of_true ?_ (Or.inl rfl)
    intro m' χ' hfresh'
    rw [cutAfter_zero, if_pos rfl, (rejectAgreement_called h hs ha hforming hfresh' hnew).1,
      (rejectAgreement_called h hs ha hforming hfresh' hnew).1]
  · have hcut : cutAfter (rejectAgreement n.agreementId n.userId n.invitation.email) db m χ 1 =
        n.declinedDb db := by
      rw [cutAfter, hcommits]
      rfl
    have hdone : (n.after .rejected "expired").participant.any (·.status = .rejected) = true := by
      simp [Invitee.after]
    have hstill : ∀ m' χ', ∃ r m'' χ'',
        (rejectAgreement n.agreementId n.userId n.invitation.email).solo
          (.between (n.declinedDb db) [] m' χ') = (r, .between (n.declinedDb db) [] m'' χ'') :=
      fun m' χ' => rejectAgreement_again (n := n.after .rejected "expired") (κ := []) (m := m')
        (χ := χ') (h.answered .rejected "expired") (h.sound_answered hs _ _)
        (lookup_declined ha) hforming hdone
    rw [← hcut] at hstill
    rw [restarts_iff_of_still (by decide) hstill hfresh, hcut, hend]
    refine iff_of_false ?_ (by decide)
    intro he
    have hsame := statusWrites_eq_iff (lookup_declined ha) .cancelled
    rw [show (n.declinedDb db).applyAll (statusWrites a .cancelled) = n.rejectedDb db a from rfl,
      ← he] at hsame
    rw [hsame.mp rfl] at hforming
    rcases hforming with hf | hf <;> cases hf
  · have hcut : cutAfter (rejectAgreement n.agreementId n.userId n.invitation.email) db m χ 2 =
        n.rejectedDb db a := by
      rw [cutAfter, hcommits]
      rfl
    have hstill : ∀ m' χ', ∃ r m'' χ'',
        (rejectAgreement n.agreementId n.userId n.invitation.email).solo
          (.between (n.rejectedDb db a) [] m' χ') = (r, .between (n.rejectedDb db a) [] m'' χ'') :=
      fun m' χ' => rejectAgreement_over (κ := []) (m := m') (χ := χ') hrow (by simp)
    rw [← hcut] at hstill
    rw [restarts_iff_of_still (by decide) hstill hfresh, hcut, hend]
    exact iff_of_true rfl (Or.inr rfl)

end Reject

/-! ## Both requests -/

/-- A request that answers an invitation, cut off after any of its
transactions: calling again finishes it if nothing had been committed, if
everything had, or if what was left of an acceptance was nothing. -/
theorem restarts_iff {n : Invitee} {db : Db adehun} {a : Agreement} {m : Shared}
    {χ : Chance adehun} (hs : db.Sound) (h : n.In db)
    (ha : db.lookup ⟨.agreement, n.agreementId⟩ = some a) (hd : n.drawn = χ.ids 0)
    (hfresh : db.lookup ⟨.agreementParticipant, χ.ids 0⟩ = none) :
    (a.status = .pending → n.invitation.Open →
      ¬ n.participant.any (·.status = .accepted) = true →
      let accept := acceptAgreement n.agreementId n.userId n.invitation.email
      let done := called accept db m χ
      (acceptedCount db n.agreementId ≠ 0 → HasAccepted n done.db) ∧
      ∀ k ≤ done.commits.length, Restarts accept db m χ k ↔
        k = 0 ∨ k = done.commits.length ∨
          ((k = 1 → acceptedCount db n.agreementId = 0) ∧
            ∀ c ∈ tiedConditions db n.agreementId n.invitation.id,
              c.requiredFromParticipantId = some n.participantId)) ∧
    (a.status = .pending ∨ a.status = .active →
      ¬ n.participant.any (·.status = .rejected) = true →
      let reject := rejectAgreement n.agreementId n.userId n.invitation.email
      let done := called reject db m χ
      HasRejected n done.db ∧
      ∀ k ≤ done.commits.length, Restarts reject db m χ k ↔
        k = 0 ∨ k = done.commits.length) := by
  have hn : n = { n with drawn := χ.ids 0 } := by rw [← hd]
  refine ⟨?_, ?_⟩
  · intro hpending hopen hnew
    obtain ⟨hend, hcommits⟩ := acceptAgreement_called (m := m) h hs ha hfresh hnew hpending hopen
    rw [← hn] at hend hcommits
    simp only
    rw [hend, hcommits]
    exact ⟨hasAccepted h hs ha hnew, fun k hk =>
      restarts_accept h hs ha hd hfresh hnew hpending hopen hk⟩
  · intro hforming hnew
    obtain ⟨hend, hcommits⟩ := rejectAgreement_called (m := m) h hs ha hforming hfresh hnew
    rw [← hn] at hend hcommits
    simp only
    rw [hend, hcommits]
    exact ⟨hasRejected h hs ha, fun k hk => restarts_reject h hs ha hforming hd hfresh hnew hk⟩

/-! An acceptance and a refusal that were cut off. -/

namespace CutOff

def agreement : Agreement :=
  { id := 20, userId := 1, title := "Work", description := "", amount := 10000 }

def invitation : Invitation :=
  { id := 25
    email := "bob@mail"
    token := 1
    agreementId := 20
    role := .beneficiary
    invitedBy := 1
    expiresAt := 1000 }

def db : Db adehun
  | .user => [
      ({ id := 1, email := "ada@mail", name := "Ada" } : User),
      ({ id := 2, email := "bob@mail", name := "Bob" } : User)]
  | .agreement => [agreement]
  | .agreementParticipant => [
      ({ id := 21, agreementId := 20, userId := 1, role := .depositor
         status := .accepted } : AgreementParticipant)]
  | .invitation => [invitation]
  | .condition => [
      ({ id := 30, agreementId := 20, participantId := 21, invitationId := some 25
         title := "Draft", description := "" } : Condition)]
  | _ => []

def chance : Chance adehun :=
  { ids := fun n => 100 + n, replies := fun _ => .timeout, weather := fun _ => [] }

def invitee : Invitee :=
  { invitation := invitation, participant := none, userId := 2, drawn := 100 }

/-- What a request leaves: the agreement's status, and whom the condition is
asked of. -/
def outcome (v : Db adehun) : Option AgreementStatus × Option (Option Id) :=
  ((v.lookup ⟨Table.agreement, 20⟩).map fun a : Agreement => a.status,
    (v.lookup ⟨Table.condition, 30⟩).map fun c : Condition => c.requiredFromParticipantId)

/-- Cut off after its first transaction or its second, an acceptance is not
finished by another call; nor is a refusal after its first. -/
theorem not_restarts :
    ¬ Restarts (acceptAgreement 20 2 "bob@mail") db {} chance 1 ∧
    ¬ Restarts (acceptAgreement 20 2 "bob@mail") db {} chance 2 ∧
    ¬ Restarts (rejectAgreement 20 2 "bob@mail") db {} chance 1 := by
  have hno : ∀ (p : App AgreementResponse) (k : Nat),
      outcome (called p (cutAfter p db {} chance k) {} chance).db ≠
        outcome (called p db {} (if k = 0 then chance else chance)).db →
      ¬ Restarts p db {} chance k :=
    fun p k hne h => hne (congrArg outcome (h {} chance rfl))
  refine ⟨hno _ _ ?_, hno _ _ ?_, hno _ _ ?_⟩ <;> decide +kernel

end CutOff

/-- The cuts of Bob's two answers. -/
theorem restarts_iff_bob :
    (∀ k ≤ (called (acceptAgreement 20 2 "bob@mail") CutOff.db {} CutOff.chance).commits.length,
      Restarts (acceptAgreement 20 2 "bob@mail") CutOff.db {} CutOff.chance k ↔
        k = 0 ∨
        k = (called (acceptAgreement 20 2 "bob@mail") CutOff.db {} CutOff.chance).commits.length ∨
          ((k = 1 → acceptedCount CutOff.db 20 = 0) ∧
            ∀ c ∈ tiedConditions CutOff.db 20 25, c.requiredFromParticipantId = some 100)) ∧
    ∀ k ≤ (called (rejectAgreement 20 2 "bob@mail") CutOff.db {} CutOff.chance).commits.length,
      Restarts (rejectAgreement 20 2 "bob@mail") CutOff.db {} CutOff.chance k ↔
        k = 0 ∨
        k = (called (rejectAgreement 20 2 "bob@mail") CutOff.db {} CutOff.chance).commits.length := by
  have hkeys : CutOff.db.KeysDistinct := by
    intro t
    cases t <;> decide +kernel
  have hentries : CutOff.db.EntriesDistinct := by
    refine Db.entriesDistinct_of_pairwise fun t => ?_
    cases t <;> decide +kernel
  have hin : CutOff.invitee.In CutOff.db := ⟨rfl, rfl, fun _ => rfl⟩
  have hboth := restarts_iff (n := CutOff.invitee) (a := CutOff.agreement) (m := {})
    (χ := CutOff.chance) ⟨hkeys, hentries⟩ hin rfl rfl rfl
  exact ⟨(hboth.1 rfl rfl (by decide)).2, (hboth.2 (Or.inl rfl) (by decide)).2⟩

end Adehun
