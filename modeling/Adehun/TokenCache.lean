import Adehun.LiveInvitation
import Adehun.Creation

/-!
# The cached copy of an invitation

A copy of every new invitation is cached under its token before the row is
committed, and the token service believes a live copy. Nothing ever writes
the copy again: an invitation that is answered keeps its pending copy, and so
does one whose row was never committed.
-/

namespace Adehun

open Sessions Prog

/-! ## What a request does to the copies -/

/-- Time has passed, and copies may have gone. -/
structure Fades (m m' : Shared) : Prop where
  later : m.now ≤ m'.now
  copies : ∀ token c, cachedCopy m' token = some c → cachedCopy m token = some c

/-- Apart from one invitation that may have been stored. -/
structure Stores (v : Invitation) (m m' : Shared) : Prop where
  later : m.now ≤ m'.now
  copies : ∀ token c, cachedCopy m' token = some c →
    cachedCopy m token = some c ∨ (token = v.token ∧ c = v)

section Copies

variable {m m' m'' : Shared} {v : Invitation}

theorem Fades.refl (m : Shared) : Fades m m := ⟨Nat.le_refl _, fun _ _ h => h⟩

theorem Fades.trans (h : Fades m m') (h' : Fades m' m'') : Fades m m'' :=
  ⟨Nat.le_trans h.later h'.later, fun token c hc => h.copies token c (h'.copies token c hc)⟩

theorem Stores.fades (h : Stores v m m') (h' : Fades m' m'') : Stores v m m'' :=
  ⟨Nat.le_trans h.later h'.later, fun token c hc => h.copies token c (h'.copies token c hc)⟩

theorem Fades.stores (h : Fades m m') (h' : Stores v m' m'') : Stores v m m'' := by
  refine ⟨Nat.le_trans h.later h'.later, fun token c hc => ?_⟩
  rcases h'.copies token c hc with hold | hnew
  · exact .inl (h.copies token c hold)
  · exact .inr hnew

/-- Keys that go, and the rest. -/
theorem fades_filter (q : CacheKey → Bool) (m : Shared) :
    Fades m { m with cache := m.cache.filter fun e => q e.1 } := by
  refine ⟨Nat.le_refl _, fun token c hc => ?_⟩
  have hfind : (m.cache.filter fun e => q e.1).find? (·.1 = .invitation token) =
      if q (.invitation token) then m.cache.find? (·.1 = .invitation token) else none := by
    rw [List.find?_filter]
    split
    · next hq =>
        congr 1
        funext e
        by_cases he : e.1 = .invitation token
        · simp [he, hq]
        · simp [he]
    · next hq =>
        refine List.find?_eq_none.mpr fun e _ => ?_
        by_cases he : e.1 = .invitation token
        · simp [he, hq]
        · simp [he]
  unfold cachedCopy at hc ⊢
  rw [hfind] at hc
  by_cases hq : q (.invitation token) = true
  · rw [if_pos hq] at hc
    exact hc
  · rw [if_neg hq] at hc
    cases hc

/-- A value set under another key. -/
theorem fades_set {k : CacheKey} (hk : ∀ token, k ≠ .invitation token) (value : CacheValue)
    (m : Shared) : Fades m { m with cache := (k, value) :: m.cache.filter (·.1 ≠ k) } := by
  have hrest := fades_filter (fun k' => decide (k' ≠ k)) m
  refine ⟨Nat.le_refl _, fun token c hc => hrest.copies token c ?_⟩
  unfold cachedCopy at hc ⊢
  rw [List.find?_cons_of_neg (by simpa using hk token)] at hc
  exact hc

/-- An invitation stored under its token. -/
theorem stores_copy (v : Invitation) (m : Shared) :
    Stores v m { m with cache := (.invitation v.token, .invitation v) :: m.cache } := by
  refine ⟨Nat.le_refl _, fun token c hc => ?_⟩
  by_cases ht : token = v.token
  · subst ht
    refine .inr ⟨rfl, ?_⟩
    unfold cachedCopy at hc
    rw [List.find?_cons_of_pos (by simp)] at hc
    exact (Option.some.inj hc).symm
  · refine .inl ?_
    unfold cachedCopy at hc ⊢
    rw [List.find?_cons_of_neg (by simpa using Ne.symm ht)] at hc
    exact hc

theorem drift_fades : Drift (M := adehun) Fades where
  refl := Fades.refl
  trans h h' := h.trans h'
  ambient a m := by
    cases a with
    | tick s => exact ⟨Nat.le_add_right _ _, fun _ _ h => h⟩
    | expire k => exact fades_filter (fun k' => decide (k' ≠ k)) m

end Copies

/-! ## The requests -/

/-- A program under which the cached invitations can only go. -/
abbrev Fading {α : Type} (p : App α) : Prop := Drifts (M := adehun) Fades p

theorem fading : Compositional (M := adehun) fun _ p => Fading p := drift_fades.compositional

section Fading

theorem fading_other {X : Type} {s : Stmt adehun X} (hs : s.Respects Fades) :
    Fading (.perform s) := drift_fades.perform hs

theorem fading_cacheGet (k : CacheKey) : Fading (cacheGet k) :=
  fading.tryCatch (fading_other fun m => Fades.refl m) fun _ => fading.ret _

theorem fading_cacheSet {k : CacheKey} (hk : ∀ token, k ≠ .invitation token) (v : CacheValue) :
    Fading (cacheSet k v) :=
  fading.tryCatch (fading_other (fades_set hk v)) fun _ => fading.ret _

theorem fading_cacheDelete (ks : List CacheKey) : Fading (cacheDelete ks) :=
  fading.tryCatch (fading_other (fades_filter fun k => decide (k ∉ ks))) fun _ => fading.ret _

theorem fading_loadAll (t : Table) (p : t.Row → Bool) : Fading (loadAll t p) :=
  fading_other trivial

theorem fading_loadFirst (t : Table) (p : t.Row → Bool) : Fading (loadFirst t p) :=
  fading.bind (fading_other trivial) fun _ => fading.ret _

theorem fading_attributes (t : Table) (id : Id) : Fading (attributes t id) := by
  refine fading.bind (fading_other trivial) fun found => ?_
  cases found with
  | none => exact fading.raise _
  | some r => exact fading.ret _

theorem fading_refresh (t : Table) (id : Id) : Fading (refresh t id) := fading_other trivial

theorem fading_raiseIf (p : Prop) [Decidable p] (e : Exn) : Fading (raiseIf p e) :=
  fading.ite (fading.raise _) (fading.ret _)

theorem fading_loadParticipants (p : AgreementParticipant → Bool) : Fading (loadParticipants p) :=
  fading.bind (fading_loadAll _ _) fun _ => fading.ite (fading.ret _)
    (fading.bind (fading_loadAll _ _) fun _ => fading.ret _)

theorem fading_getParticipantForUser (agreementId userId : Id) :
    Fading (getParticipantForUser agreementId userId) :=
  fading.bind (fading_loadParticipants _) fun _ => fading.ret _

theorem fading_getInvitationByAgreementId (email : String) (agreementId : Id) :
    Fading (getInvitationByAgreementId email agreementId) := by
  refine fading.bind (fading_loadFirst _ _) fun found => ?_
  cases found with
  | none => exact fading.ret _
  | some v => exact fading.bind (fading_loadAll _ _) fun _ => fading.ret _

theorem fading_getById_row (agreementId : Id) : Fading (do
    match ← loadFirst .agreement fun a => a.id = agreementId with
    | none => pure none
    | some a => do
        cacheSet (.agreement agreementId) (.agreement a)
        pure (some ({ agreement := a, attached := true } : Found)) : App (Option Found)) := by
  refine fading.bind (fading_loadFirst _ _) fun found => ?_
  cases found with
  | none => exact fading.ret _
  | some a => exact fading.bind (fading_cacheSet (by simp) _) fun _ => fading.ret _

theorem fading_getById (agreementId : Id) : Fading (getById agreementId) := by
  refine fading.bind (fading_cacheGet _) fun cached => ?_
  split
  · exact fading.ret _
  · exact fading_getById_row agreementId

theorem fading_participantResponse? (p : Option AgreementParticipant) :
    Fading (participantResponse? p) := by
  cases p with
  | none => exact fading.ret _
  | some p => exact fading.map (fading.bind (fading_loadFirst _ _) fun _ => fading.ret _)

theorem fading_toAgreementResponse (found : Found) (n k : Nat) (userId : Option Id)
    (funded : Bool) : Fading (toAgreementResponse found n k userId funded) := by
  unfold toAgreementResponse
  simp only
  split
  all_goals
    refine fading.bind ?_ fun participants => ?_
    · first
      | exact fading_loadParticipants _
      | exact fading.ret _
    refine fading.bind (fading_participantResponse? _) fun depositor => ?_
    refine fading.bind (fading_participantResponse? _) fun beneficiary => ?_
    cases userId with
    | none => exact fading.ret _
    | some u =>
        exact fading.bind (fading_getParticipantForUser _ _) fun _ => fading.ret _

theorem fading_getAgreement (agreementId : Id) (userId : Option Id) :
    Fading (getAgreement agreementId userId) := by
  refine fading.bind (fading_getById _) fun found => ?_
  cases found with
  | none => exact fading.raise _
  | some found =>
      exact fading.bind (fading_other trivial) fun _ => fading.bind (fading_other trivial) fun _ =>
        fading_toAgreementResponse _ _ _ _ _

theorem fading_assign {t : Table} (id : Id) (f : Patch adehun t) : Fading (assign t id f) :=
  fading_other trivial

theorem fading_assignStatus (a : Agreement) (status : AgreementStatus) :
    Fading (assignStatus a status) := fading.ite (fading.ret _) (fading_assign _ _)

theorem fading_joinAs (p : Option AgreementParticipant) (agreementId userId : Id)
    (role : ParticipantRole) (status : InvitationStatus) :
    Fading (joinAs p agreementId userId role status) := by
  cases p with
  | none =>
      exact fading.bind (fading_other trivial) fun _ => fading.bind (fading_other trivial) fun _ =>
        fading.ret _
  | some p => exact fading.bind (fading_assign _ _) fun _ => fading.ret _

theorem fading_conditionResponse (c : Condition) : Fading (conditionResponse c) :=
  fading.bind (fading_attributes _ _) fun _ => fading.ret _

theorem fading_updateAgreementConditions (agreementId invitationId participantId : Id) :
    Fading (updateAgreementConditionsWithInvitation agreementId invitationId participantId) :=
  fading.bind (fading_loadAll _ _) fun _ =>
    fading.bind (fading.forEach (fun _ => fading_assign _ _) _) fun _ =>
      fading.ite (fading.ret _) (fading_other trivial)

theorem fading_settleAcceptance (agreementId : Id) : Fading (settleAcceptance agreementId) := by
  refine fading.bind (fading_other trivial) fun found => ?_
  cases found with
  | none => exact fading.raise _
  | some a =>
      exact fading.bind (fading_loadParticipants _) fun _ =>
        fading.bind (fading_assignStatus _ _) fun _ =>
        fading.bind (fading_other trivial) fun _ => fading_other trivial

/-- An acceptance leaves the copy as it is. -/
theorem fading_acceptAgreement (agreementId userId : Id) (email : String) :
    Fading (acceptAgreement agreementId userId email) := by
  refine fading.bind (fading_getInvitationByAgreementId _ _) fun found => ?_
  cases found with
  | none => exact fading.raise _
  | some v =>
      refine fading.bind (fading_getParticipantForUser _ _) fun participant => ?_
      refine fading.ite (fading_getAgreement _ _) ?_
      refine fading.bind (fading_other trivial) fun existing => ?_
      cases existing with
      | none => exact fading.raise _
      | some a =>
          exact fading.bind (fading_raiseIf _ _) fun _ =>
            fading.bind (fading_raiseIf _ _) fun _ =>
            fading.bind (fading_joinAs _ _ _ _ _) fun _ =>
            fading.bind (fading_assign _ _) fun _ =>
            fading.bind (fading_other trivial) fun _ =>
            fading.bind (fading_other trivial) fun _ =>
            fading.bind (fading_settleAcceptance _) fun _ =>
            fading.bind (fading_cacheDelete _) fun _ =>
            fading.bind (fading_attributes _ _) fun _ =>
            fading.bind (fading_updateAgreementConditions _ _ _) fun _ =>
            fading_getAgreement _ _

/-- And so does a refusal. -/
theorem fading_rejectAgreement (agreementId userId : Id) (email : String) :
    Fading (rejectAgreement agreementId userId email) := by
  refine fading.bind (fading_other trivial) fun existing => ?_
  cases existing with
  | none => exact fading.raise _
  | some a =>
      refine fading.bind (fading_raiseIf _ _) fun _ => ?_
      refine fading.bind (fading_raiseIf _ _) fun _ => ?_
      refine fading.bind (fading_getInvitationByAgreementId _ _) fun found => ?_
      cases found with
      | none => exact fading.raise _
      | some v =>
          refine fading.bind (fading_getParticipantForUser _ _) fun participant => ?_
          refine fading.ite (fading_getAgreement _ _) ?_
          refine fading.bind (fading_joinAs _ _ _ _ _) fun _ => ?_
          refine fading.bind (fading_assign _ _) fun _ => ?_
          refine fading.bind (fading_other trivial) fun _ => ?_
          refine fading.bind (fading_other trivial) fun _ => ?_
          refine fading.bind (fading_other trivial) fun existing => ?_
          cases existing with
          | none => exact fading.raise _
          | some a =>
              exact fading.bind (fading_assignStatus _ _) fun _ =>
                fading.bind (fading_other trivial) fun _ =>
                fading.bind (fading_other trivial) fun _ =>
                fading.bind (fading_cacheDelete _) fun _ => fading_getAgreement _ _

end Fading

/-! ## A creation -/

/-- `create_agreement` when its commit fails. -/
def lostCreation (currentUserId : Id) (currentUserEmail : String) (data : AgreementCreate) :
    App (AgreementResponse × List ConditionResponse) := do
  raiseIf (currentUserEmail ≠ "" ∧ data.inviteeEmail.toList = lower currentUserEmail)
    (.app .badRequest "You cannot invite yourself to an agreement")
  let _ ← Prog.attempt (stageAgreement currentUserId data)
  rollback
  .raise (.app .agreementCreation "Failed to create agreement")

section Creation

variable {db : Db adehun} {m : Shared} {χ : Chance adehun}

theorem fading_creationResponse (agreementId : Id) (conditions : List Condition) : Fading (do
    match ← getById agreementId with
    | none => .raise agreementNotFound
    | some found => do
        let response ← toAgreementResponse found conditions.length 0 none false
        let shown ← Prog.forEach conditionResponse conditions
        pure (response, shown) : App (AgreementResponse × List ConditionResponse)) := by
  refine fading.bind (fading_getById _) fun found => ?_
  cases found with
  | none => exact fading.raise _
  | some found =>
      exact fading.bind (fading_toAgreementResponse _ _ _ _ _) fun _ =>
        fading.bind (fading.forEach fading_conditionResponse _) fun _ => fading.ret _

theorem fading_showCreation (userId agreementId : Id) (creator : AgreementParticipant)
    (conditionIds : List Id) : Fading (showCreation userId agreementId creator conditionIds) := by
  have hshow := fading_creationResponse agreementId
  refine fading.bind (fading.forEach (fading_refresh .condition) _) fun conditions => ?_
  refine fading.bind (fading_getParticipantForUser _ _) fun participant => ?_
  cases participant with
  | some p => exact hshow conditions
  | none =>
      exact fading.bind (fading_other trivial) fun _ => fading.bind (fading_other trivial) fun _ =>
        fading.bind (fading_other trivial) fun _ => fading.bind (fading_other trivial) fun _ =>
        hshow conditions

/-- The copy that a creation stores is the row that it adds. -/
theorem createAgreement_stores {k : Creation} (h : k.New db) (hs : db.Sound)
    (hids : χ.ids = k.ids) {email : String}
    (hother : ¬ (email ≠ "" ∧ k.data.inviteeEmail.toList = lower email)) :
    ∃ time, (called (createAgreement k.userId email k.data) db m χ).db = k.created db time ∧
      Stores (k.invitation time) m
        (called (createAgreement k.userId email k.data) db m χ).shared := by
  obtain ⟨time, m₁, χ₁, hdb, hshared, hdrift⟩ := createAgreement_called (m := m) h hs hids hother
  refine ⟨time, hdb, ?_⟩
  have hshow := fading_showCreation k.userId (k.ids 0) k.creator (k.conditions.map (·.id))
    (.between (k.created db time) [k.created db time] (storing (k.invitation time) m₁) χ₁)
  rw [← hshared] at hshow
  have hstored : Stores (k.invitation time) m (storing (k.invitation time) m₁) :=
    (hdrift Fades drift_fades).stores (stores_copy _ _)
  exact hstored.fades hshow

end Creation

/-! ## Answers to an invitation -/

/-- An acceptance that goes through. -/
structure Accepts (db : Db adehun) (agreementId userId : Id) (email : String) (n : Invitee)
    (a : Agreement) : Prop where
  found : n.In db
  names : n.agreementId = agreementId ∧ n.userId = userId ∧ n.invitation.email = email
  agreement : db.lookup ⟨.agreement, agreementId⟩ = some a
  pending : a.status = .pending
  awaiting : n.invitation.Open
  undecided : ¬ n.participant.any (·.status = .accepted) = true

/-- A refusal that goes through. -/
structure Rejects (db : Db adehun) (agreementId userId : Id) (email : String) (n : Invitee)
    (a : Agreement) : Prop where
  found : n.In db
  names : n.agreementId = agreementId ∧ n.userId = userId ∧ n.invitation.email = email
  agreement : db.lookup ⟨.agreement, agreementId⟩ = some a
  forming : a.status = .pending ∨ a.status = .active
  undecided : ¬ n.participant.any (·.status = .rejected) = true

section Answer

variable {db : Db adehun} {m : Shared} {χ : Chance adehun}

theorem called_db {α : Type} {p : App α} {v : Db adehun}
    (h : ∃ r κ m' χ', p.solo (.between db [] m χ) = (r, .between v κ m' χ')) :
    (called p db m χ).db = v := by
  obtain ⟨r, κ, m', χ', h⟩ := h
  rw [called_eq h, Solo.between_db]

variable (hs : db.Sound) (hfresh : db.lookup ⟨.agreementParticipant, χ.ids 0⟩ = none)
  (agreementId userId : Id) (email : String)

/-- Whoever answers an invitation. -/
def inviteeOf (db : Db adehun) (v : Invitation) (userId drawn : Id) : Invitee where
  invitation := v
  participant := (db .agreementParticipant : List AgreementParticipant).find? fun p =>
    p.agreementId = v.agreementId && p.userId = userId
  userId := userId
  drawn := drawn

/-- The invitee of a request, if there is an invitation. -/
theorem exists_invitee {v : Invitation} (hv : (db .invitation : List Invitation).find? (fun v =>
    v.agreementId = agreementId && v.email = email) = some v)
    (hfresh : db.lookup ⟨.agreementParticipant, χ.ids 0⟩ = none) :
    ∃ n : Invitee, n.In db ∧ n.drawn = χ.ids 0 ∧ n.agreementId = agreementId ∧
      n.userId = userId ∧ n.invitation.email = email := by
  have hnames := List.find?_some hv
  simp only [Bool.and_eq_true, decide_eq_true_eq] at hnames
  obtain ⟨rfl, rfl⟩ := hnames
  exact ⟨inviteeOf db v userId (χ.ids 0), ⟨hv, rfl, fun _ => hfresh⟩, rfl, rfl, rfl, rfl⟩

include hs hfresh

/-- An acceptance goes through, or does nothing. -/
theorem acceptAgreement_db :
    (called (acceptAgreement agreementId userId email) db m χ).db = db ∨
    ∃ n a, Accepts db agreementId userId email n a ∧
      (called (acceptAgreement agreementId userId email) db m χ).db = n.acceptedDb db a := by
  cases hv : (db .invitation : List Invitation).find? (fun v =>
      v.agreementId = agreementId && v.email = email) with
  | none =>
      have hfound := getInvitationByAgreementId_solo (σ := .between db [] m χ) Solo.tidy_between
        hs email agreementId
      rw [Solo.between_view, hv] at hfound
      refine .inl (called_db ⟨.error noInvitation, [], m, χ, ?_⟩)
      unfold acceptAgreement
      rw [Prog.solo_bind_ok hfound]
      rfl
  | some v =>
      obtain ⟨n, hin, hd, rfl, rfl, rfl⟩ := exists_invitee (χ := χ) agreementId userId email hv
        hfresh
      by_cases hdone : n.participant.any (·.status = .accepted) = true
      · obtain ⟨r, m', χ', hrun⟩ := acceptAgreement_again (κ := []) (m := m) (χ := χ) hin hs hdone
        exact .inl (called_db ⟨r, [], m', χ', hrun⟩)
      cases ha : db.lookup ⟨.agreement, n.agreementId⟩ with
      | none =>
          obtain ⟨hfound, hjoined⟩ := lookups_solo (κ := []) (m := m) (χ := χ) hin hs
          have hget := get_solo (σ := .between db [] m χ) Solo.tidy_between .agreement
            n.agreementId
          rw [Solo.between_view, ha] at hget
          refine .inl (called_db ⟨.error agreementNotFound, [], m, χ, ?_⟩)
          unfold acceptAgreement
          rw [Prog.solo_bind_ok hfound]
          simp only
          rw [Prog.solo_bind_ok hjoined, if_neg hdone]
          unfold getAttached
          rw [Prog.solo_bind_ok hget]
          rfl
      | some a =>
          by_cases hno : (a : Agreement).status ≠ .pending ∨ ¬ n.invitation.Open
          · obtain ⟨r, m', χ', hrun⟩ := acceptAgreement_refused (κ := []) (m := m) (χ := χ) hin
              hs ha hno
            exact .inl (called_db ⟨r, [], m', χ', hrun⟩)
          · obtain ⟨hpending, hopen⟩ := not_or.mp hno
            obtain ⟨r, m', χ', hrun⟩ := acceptAgreement_solo (κ := []) (m := m) (χ := χ) hin hs
              hd.symm hdone ha (not_not.mp hpending) (not_not.mp hopen)
            exact .inr ⟨n, a, ⟨hin, ⟨rfl, rfl, rfl⟩, ha, not_not.mp hpending, not_not.mp hopen,
              hdone⟩, called_db ⟨r, _, m', χ', hrun⟩⟩

/-- So does a refusal. -/
theorem rejectAgreement_db :
    (called (rejectAgreement agreementId userId email) db m χ).db = db ∨
    ∃ n a, Rejects db agreementId userId email n a ∧
      (called (rejectAgreement agreementId userId email) db m χ).db = n.rejectedDb db a := by
  have hget := get_solo (σ := .between db [] m χ) Solo.tidy_between .agreement agreementId
  rw [Solo.between_view] at hget
  cases ha : db.lookup ⟨.agreement, agreementId⟩ with
  | none =>
      rw [ha] at hget
      refine .inl (called_db ⟨.error agreementNotFound, [], m, χ, ?_⟩)
      unfold rejectAgreement getAttached
      rw [Prog.solo_bind_ok hget]
      rfl
  | some a =>
      by_cases hforming : (a : Agreement).status = .pending ∨ (a : Agreement).status = .active
      · cases hv : (db .invitation : List Invitation).find? (fun v =>
            v.agreementId = agreementId && v.email = email) with
        | none =>
            have hfound := getInvitationByAgreementId_solo (σ := .between db [] m χ)
              Solo.tidy_between hs email agreementId
            rw [Solo.between_view, hv] at hfound
            rw [ha] at hget
            have hundisputed : ¬ (a : Agreement).status = .disputed := by
              rcases hforming with hf | hf <;> simp [hf]
            have hopen : ¬ ((a : Agreement).status ≠ .pending ∧ (a : Agreement).status ≠ .active) := by
              rcases hforming with hf | hf <;> simp [hf]
            refine .inl (called_db ⟨.error noInvitation, [], m, χ, ?_⟩)
            unfold rejectAgreement getAttached
            rw [Prog.solo_bind_ok hget]
            simp only
            rw [Prog.solo_bind_ok (raiseIf_pass hundisputed),
              Prog.solo_bind_ok (raiseIf_pass hopen), Prog.solo_bind_ok hfound]
            rfl
        | some v =>
            obtain ⟨n, hin, hd, rfl, rfl, rfl⟩ := exists_invitee (χ := χ) agreementId userId email
              hv hfresh
            by_cases hdone : n.participant.any (·.status = .rejected) = true
            · obtain ⟨r, m', χ', hrun⟩ := rejectAgreement_again (κ := []) (m := m) (χ := χ) hin
                hs ha hforming hdone
              exact .inl (called_db ⟨r, [], m', χ', hrun⟩)
            · obtain ⟨r, m', χ', hrun⟩ := rejectAgreement_solo (κ := []) (m := m) (χ := χ) hin hs
                hd.symm hdone ha hforming
              exact .inr ⟨n, a, ⟨hin, ⟨rfl, rfl, rfl⟩, ha, hforming, hdone⟩,
                called_db ⟨r, _, m', χ', hrun⟩⟩
      · obtain ⟨r, m', χ', hrun⟩ := rejectAgreement_over (κ := []) (m := m) (χ := χ) ha hforming
        exact .inl (called_db ⟨r, [], m', χ', hrun⟩)

end Answer

/-! ## A history -/

/-- Something that happens to invitations: one is created, or its creation is
lost when its commit fails, one is accepted or declined, or time passes and a
copy expires. -/
inductive Happening
  | creates (userId : Id) (email : String) (data : AgreementCreate) (χ : Chance adehun)
  | loses (userId : Id) (email : String) (data : AgreementCreate) (χ : Chance adehun)
  | accepts (agreementId userId : Id) (email : String) (χ : Chance adehun)
  | rejects (agreementId userId : Id) (email : String) (χ : Chance adehun)
  | passes (a : Ambient)

namespace Happening

def apply (w : World) : Happening → World
  | creates userId email data χ => w.after (createAgreement userId email data) χ
  | loses userId email data χ => w.after (lostCreation userId email data) χ
  | accepts agreementId userId email χ => w.after (acceptAgreement agreementId userId email) χ
  | rejects agreementId userId email χ => w.after (rejectAgreement agreementId userId email) χ
  | passes a => { w with shared := ambient a w.shared }

/-- The identifiers it draws are new. -/
def Draws (w : World) : Happening → Prop
  | creates userId _ data χ | loses userId _ data χ =>
      (⟨userId, data, χ.ids⟩ : Creation).New w.db
  | accepts _ _ _ χ | rejects _ _ _ χ =>
      w.db.lookup ⟨.agreementParticipant, χ.ids 0⟩ = none
  | passes _ => True

/-- No answer to an invitation with a live copy goes through, and no creation
is lost after its copy was stored. -/
def Clean (w : World) : Happening → Prop
  | creates _ _ _ _ => True
  | loses _ email data _ => email ≠ "" ∧ data.inviteeEmail.toList = lower email
  | accepts agreementId userId email _ => ∀ n a, Accepts w.db agreementId userId email n a →
      ∀ c, cachedCopy w.shared n.invitation.token = some c → ¬ c.Live w.shared.now
  | rejects agreementId userId email _ => ∀ n a, Rejects w.db agreementId userId email n a →
      ∀ c, cachedCopy w.shared n.invitation.token = some c → ¬ c.Live w.shared.now
  | passes _ => True

end Happening

/-- What can have come about, by things that are all so. -/
inductive History (ok : World → Happening → Prop) (w₀ : World) : World → Prop
  | start : History ok w₀ w₀
  | step {w : World} {x : Happening} (h : History ok w₀ w) (hd : x.Draws w) (hx : ok w x) :
      History ok w₀ (x.apply w)

/-- The token service answers as the tables do: with an invitation if the row
of the token is pending and its date has not passed. -/
def Transparent (w : World) : Prop :=
  ∀ token χ, Still χ →
    ((∃ v, outcome (validateToken token) w.db w.shared χ = .ok v) ↔
      ∃ v ∈ (w.db .invitation : List Invitation), v.token = token ∧ v.Live w.shared.now)

/-- Every copy that is live has a row that is pending as long. -/
structure Faithful (w : World) : Prop where
  sound : w.db.Sound
  copies : ∀ token c, cachedCopy w.shared token = some c → c.Live w.shared.now →
    ∃ v ∈ (w.db .invitation : List Invitation), v.token = token ∧ v.Open ∧
      v.expiresAt = c.expiresAt

section Faithful

variable {w w' : World}

theorem Invitation.Live.earlier {v : Invitation} {time time' : Nat} (h : v.Live time')
    (ht : time ≤ time') : v.Live time := ⟨h.1, Nat.lt_of_le_of_lt ht h.2⟩

/-- Rows that are pending stay, but for some whose copy is not live. -/
theorem Faithful.fades (h : Faithful w) (hs : w'.db.Sound) (hf : Fades w.shared w'.shared)
    (hrows : ∀ v ∈ (w.db .invitation : List Invitation), v.Open →
      v ∈ (w'.db .invitation : List Invitation) ∨
        ∀ c, cachedCopy w.shared v.token = some c → ¬ c.Live w.shared.now) : Faithful w' where
  sound := hs
  copies token c hc hlive := by
    have hcopy := hf.copies token c hc
    have hearlier := hlive.earlier hf.later
    obtain ⟨v, hv, htoken, hopen, hexpires⟩ := h.copies token c hcopy hearlier
    subst htoken
    rcases hrows v hv hopen with hstays | hdead
    · exact ⟨v, hstays, rfl, hopen, hexpires⟩
    · exact absurd hearlier (hdead c hcopy)

/-- A row that answers the token. -/
theorem Faithful.transparent (h : Faithful w) : Transparent w := by
  intro token χ hstill
  obtain ⟨r, hrun, hok⟩ := validateToken_solo (κ := []) (m := w.shared) h.sound hstill
  have hanswer : outcome (validateToken token) w.db w.shared χ = r := by
    rw [outcome, Solo.start_eq, hrun]
  rw [hanswer, hok]
  constructor
  · rintro (⟨c, hc, hlive⟩ | ⟨v, hv, hlive⟩)
    · obtain ⟨v, hv, htoken, hopen, hexpires⟩ := h.copies token c hc hlive
      refine ⟨v, hv, htoken, hopen, ?_⟩
      rw [hexpires]
      exact hlive.2
    · exact ⟨v, List.mem_of_find?_eq_some hv, by simpa using List.find?_some hv, hlive⟩
  · rintro ⟨v, hv, rfl, hlive⟩
    exact .inr ⟨v, find_token h.sound hv, hlive⟩

/-- The invitation that an answer closes. -/
theorem answered_rows {n : Invitee} {db : Db adehun} (hin : n.In db) (hs : db.Sound)
    {status : InvitationStatus} {s : String} {v : Invitation}
    (hv : v ∈ (db .invitation : List Invitation)) :
    v ∈ (n.answered db status s .invitation : List Invitation) ∨ v = n.invitation := by
  by_cases hid : v.id = n.invitation.id
  · have hrow := hs.keys.lookup (t := .invitation) hv
    have hrow' := hs.keys.lookup (t := .invitation) hin.invitation_mem
    rw [show adehun.id (t := .invitation) v = adehun.id (t := .invitation) n.invitation from hid,
      hrow'] at hrow
    exact .inr (Option.some.inj hrow).symm
  · refine .inl ?_
    rw [Invitee.answered_invitation]
    exact List.mem_map.mpr ⟨v, hv, if_neg hid⟩

/-- Answers keep the copies faithful, if the invitation has no live copy. -/
theorem Faithful.accepts (h : Faithful w) {agreementId userId : Id} {email : String}
    {χ : Chance adehun} (hfresh : w.db.lookup ⟨.agreementParticipant, χ.ids 0⟩ = none)
    (hclean : (Happening.accepts agreementId userId email χ).Clean w) :
    Faithful (w.after (acceptAgreement agreementId userId email) χ) := by
  have hf : Fades w.shared (w.after (acceptAgreement agreementId userId email) χ).shared :=
    fading_acceptAgreement agreementId userId email (.start w.db w.shared χ)
  rcases acceptAgreement_db (m := w.shared) h.sound hfresh agreementId userId email with
    hsame | ⟨n, a, hn, hdb⟩
  · have hdb : (w.after (acceptAgreement agreementId userId email) χ).db = w.db := hsame
    refine h.fades ?_ hf fun v hv _ => .inl ?_
    · rw [hdb]
      exact h.sound
    · rw [hdb]
      exact hv
  · have hdb : (w.after (acceptAgreement agreementId userId email) χ).db = n.acceptedDb w.db a := hdb
    have ha := hn.agreement
    rw [← hn.names.1] at ha
    have htable : (n.acceptedDb w.db a .invitation : List Invitation) =
        n.answered w.db .accepted "accepted" .invitation := by
      rw [Invitee.acceptedDb, addressed_apart (by decide), Invitee.settledDb,
        statusWrites_apart (by decide), Invitee.joinedDb]
    refine h.fades ?_ hf fun v hv _ => ?_
    · rw [hdb]
      exact sound_accepted hn.found h.sound ha
    · rw [hdb, htable]
      rcases answered_rows hn.found h.sound hv with hstays | rfl
      · exact .inl hstays
      · exact .inr (hclean n a hn)

theorem Faithful.rejects (h : Faithful w) {agreementId userId : Id} {email : String}
    {χ : Chance adehun} (hfresh : w.db.lookup ⟨.agreementParticipant, χ.ids 0⟩ = none)
    (hclean : (Happening.rejects agreementId userId email χ).Clean w) :
    Faithful (w.after (rejectAgreement agreementId userId email) χ) := by
  have hf : Fades w.shared (w.after (rejectAgreement agreementId userId email) χ).shared :=
    fading_rejectAgreement agreementId userId email (.start w.db w.shared χ)
  rcases rejectAgreement_db (m := w.shared) h.sound hfresh agreementId userId email with
    hsame | ⟨n, a, hn, hdb⟩
  · have hdb : (w.after (rejectAgreement agreementId userId email) χ).db = w.db := hsame
    refine h.fades ?_ hf fun v hv _ => .inl ?_
    · rw [hdb]
      exact h.sound
    · rw [hdb]
      exact hv
  · have hdb : (w.after (rejectAgreement agreementId userId email) χ).db = n.rejectedDb w.db a := hdb
    have ha := hn.agreement
    rw [← hn.names.1] at ha
    have hdeclined : (n.declinedDb w.db).Sound := hn.found.sound_answered h.sound _ _
    have htable : (n.rejectedDb w.db a .invitation : List Invitation) =
        n.answered w.db .rejected "expired" .invitation := by
      rw [Invitee.rejectedDb, statusWrites_apart (by decide), Invitee.declinedDb]
    refine h.fades ?_ hf fun v hv _ => ?_
    · rw [hdb]
      exact hdeclined.sendAll (statusWrites_go hdeclined (lookup_declined ha) _)
    · rw [hdb, htable]
      rcases answered_rows hn.found h.sound hv with hstays | rfl
      · exact .inl hstays
      · exact .inr (hclean n a hn)

/-- A creation stores a copy of the row that it commits. -/
theorem Faithful.creates (h : Faithful w) {userId : Id} {email : String} {data : AgreementCreate}
    {χ : Chance adehun} (hnew : (⟨userId, data, χ.ids⟩ : Creation).New w.db) :
    Faithful (w.after (createAgreement userId email data) χ) := by
  by_cases hself : email ≠ "" ∧ data.inviteeEmail.toList = lower email
  · have hsame : w.after (createAgreement userId email data) χ = w := by
      unfold World.after
      rw [called_eq (createAgreement_self hself)]
      rfl
    rw [hsame]
    exact h
  · obtain ⟨time, hdb, hstores⟩ := createAgreement_stores (m := w.shared) hnew h.sound rfl hself
    have hdb : (w.after (createAgreement userId email data) χ).db =
      Creation.created ⟨userId, data, χ.ids⟩ w.db time := hdb
    have hstores : Stores (Creation.invitation ⟨userId, data, χ.ids⟩ time) w.shared
      (w.after (createAgreement userId email data) χ).shared := hstores
    refine ⟨?_, fun token c hc hlive => ?_⟩
    · rw [hdb]
      exact hnew.sound_created h.sound time
    · rw [hdb, Creation.New.created_invitation]
      rcases hstores.copies token c hc with hold | ⟨rfl, rfl⟩
      · obtain ⟨v, hv, hrest⟩ := h.copies token c hold (hlive.earlier hstores.later)
        exact ⟨v, List.mem_append_left _ hv, hrest⟩
      · exact ⟨_, List.mem_append_right _ (List.mem_singleton_self _), rfl, rfl, rfl⟩

/-- One step. -/
theorem Faithful.step (h : Faithful w) {x : Happening} (hd : x.Draws w) (hx : x.Clean w) :
    Faithful (x.apply w) := by
  cases x with
  | creates userId email data χ => exact h.creates hd
  | loses userId email data χ =>
      have hself : email ≠ "" ∧ data.inviteeEmail.toList = lower email := hx
      have hlost : (lostCreation userId email data).solo (.between w.db [] w.shared χ) =
          (.error (.app .badRequest "You cannot invite yourself to an agreement"),
            .between w.db [] w.shared χ) := by
        unfold lostCreation
        rw [Prog.solo_bind_error (raiseIf_stop hself)]
      have hsame : w.after (lostCreation userId email data) χ = w := by
        unfold World.after
        rw [called_eq hlost]
        rfl
      rw [Happening.apply, hsame]
      exact h
  | accepts agreementId userId email χ => exact h.accepts hd hx
  | rejects agreementId userId email χ => exact h.rejects hd hx
  | passes a =>
      exact h.fades h.sound (drift_fades.ambient a _)
        fun v hv _ => .inl hv

/-- A whole history. -/
theorem History.faithful (h₀ : Faithful w) (h : History (fun w x => x.Clean w) w w') :
    Faithful w' := by
  induction h with
  | start => exact h₀
  | step _ hd hx ih => exact ih.step hd hx

end Faithful

/-- From any tables on, and with no invitation cached yet: as long as nobody
answers an invitation that has a live copy, and no creation is lost after it
has cached its token, the token service answers as the tables do. -/
theorem transparent_of_history {w₀ w : World} (hs : w₀.db.Sound)
    (hempty : ∀ token, cachedCopy w₀.shared token = none)
    (h : History (fun w x => x.Clean w) w₀ w) : Transparent w := by
  refine (History.faithful ⟨hs, fun token c hc => ?_⟩ h).transparent
  rw [hempty token] at hc
  cases hc

/-! A copy that outlives its row, and one that never had one. -/

namespace Outlived

open Deal

def start : World := ⟨db, {}⟩

def creates : Happening := .creates 1 "ada@mail" data (chance 100)

def loses : Happening := .loses 1 "ada@mail" data (chance 100)

def accepts : Happening := .accepts 100 2 "bob@mail" (chance 200)

def rejects : Happening := .rejects 100 2 "bob@mail" (chance 200)

/-- Whether the token service answers, and whether it would without the cache. -/
def answers (w : World) (token : Nat) : Bool × Bool :=
  ((outcome (validateToken token) w.db w.shared (chance 300)).toOption.isSome,
    (w.db .invitation : List Invitation).any fun v => v.token = token && v.Live w.shared.now)

theorem not_of_answers {w : World} (token : Nat) (h : answers w token = (true, false)) :
    ¬ Transparent w := by
  intro ht
  have hok : ∃ v, outcome (validateToken token) w.db w.shared (chance 300) = .ok v := by
    have hsome := congrArg Prod.fst h
    cases hv : outcome (validateToken token) w.db w.shared (chance 300) with
    | ok v => exact ⟨v, rfl⟩
    | error e =>
        rw [answers, hv] at hsome
        cases hsome
  obtain ⟨v, hv, htoken, hlive⟩ := (ht token (chance 300) fun _ => rfl).mp hok
  have hnone : (w.db .invitation : List Invitation).any
      (fun v => v.token = token && v.Live w.shared.now) = false := congrArg Prod.snd h
  rw [List.any_eq_false] at hnone
  exact hnone v hv (by simp [htoken, hlive])

/-- An acceptance, a refusal and a creation whose commit failed: each of them
leaves a token that is answered from the cache alone. -/
theorem not_transparent :
    (∃ w, History (fun _ _ => True) start w ∧ w = accepts.apply (creates.apply start) ∧
      ¬ Transparent w) ∧
    (∃ w, History (fun _ _ => True) start w ∧ w = rejects.apply (creates.apply start) ∧
      ¬ Transparent w) ∧
    ∃ w, History (fun _ _ => True) start w ∧ w = loses.apply start ∧ ¬ Transparent w := by
  have hcreated : History (fun _ _ => True) start (creates.apply start) :=
    .step .start (new 100 (by decide)) trivial
  refine ⟨⟨_, .step (x := accepts) hcreated rfl trivial, rfl, not_of_answers 102 ?_⟩,
    ⟨_, .step (x := rejects) hcreated rfl trivial, rfl, not_of_answers 102 ?_⟩,
    ⟨_, .step (x := loses) .start (new 100 (by decide)) trivial, rfl,
      not_of_answers 102 ?_⟩⟩ <;>
  decide +kernel

end Outlived

/-- Ada's agreement with Bob, whose copy expires before he accepts. -/
theorem transparent_of_history_bob :
    Transparent (Outlived.accepts.apply ((Happening.passes (.expire (.invitation 102))).apply
      (Outlived.creates.apply Outlived.start))) := by
  refine @transparent_of_history Outlived.start _ Deal.sound (fun _ => rfl) ?_
  refine .step (.step (.step .start (Deal.new 100 (by decide)) trivial) trivial trivial) rfl ?_
  intro n a hn c hc
  have hnone : ∀ v ∈ ((Outlived.creates.apply Outlived.start).db .invitation : List Invitation),
      v.token = 102 := by decide +kernel
  have htoken : n.invitation.token = 102 := hnone _ hn.found.invitation_mem
  rw [htoken] at hc
  cases hc

end Adehun
