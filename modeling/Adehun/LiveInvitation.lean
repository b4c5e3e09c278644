import Adehun.InvitationService
import Adehun.Restart

/-!
# When an invitation is live

An invitation is live while its status is pending and its date has not
passed. The token pages look at both, and so does the token service, unless
a cached copy answers for the row; accepting and reading look at the status
alone.
-/

namespace Adehun

open Sessions

def Invitation.Live (v : Invitation) (time : Nat) : Prop := v.Open ∧ time < v.expiresAt

instance Invitation.decidableLive (v : Invitation) (time : Nat) : Decidable (v.Live time) :=
  inferInstanceAs (Decidable (_ ∧ _))

/-- The copy of an invitation that is cached under its token. -/
def cachedCopy (m : Shared) (token : Nat) : Option Invitation :=
  match ((m.cache.find? (·.1 = .invitation token)).map (·.2) : Option CacheValue) with
  | some (.invitation v) => some v
  | _ => none

/-! ## At one moment -/

/-- Nothing happens to the shared store during a call. -/
def Still (χ : Chance adehun) : Prop := ∀ n, χ.weather n = []

section Moment

variable {db : Db adehun} {κ : List (Db adehun)} {m : Shared} {χ : Chance adehun}

theorem weathered_still (h : Still χ) :
    (Solo.between db κ m χ).weathered = .between db κ m χ := by
  have hrest : (fun n => χ.weather (n + 1)) = χ.weather := by
    funext n
    rw [h n, h (n + 1)]
  unfold Solo.weathered
  simp only [Solo.between_chance, Solo.between_shared, h 0, hrest, List.foldl_nil]
  rfl

theorem now_still (h : Still χ) :
    now.solo (.between db κ m χ) = (.ok m.now, .between db κ m χ) := by
  rw [now_solo, weathered_still h]
  rfl

/-- The clock decides about an open invitation. -/
theorem isLive_still (h : Still χ) (status : Option String) (d : Datetime) :
    (isLive status d).solo (.between db κ m χ) =
      (.ok (messageOr (status.getD "") "pending" = "pending" && decide ((m.now : Int) < d.utc)),
        .between db κ m χ) := by
  unfold isLive
  split
  · next hclosed => simp [hclosed]
  · next hopen =>
      rw [Prog.solo_bind_ok (now_still h)]
      simp [not_not.mp hopen]

theorem isLiveToken_still (status : Option String) {e : Expiry} {d : Datetime}
    (he : parseExpiry e = some d) : (isLiveToken status e).solo (.between db κ m χ) =
      (isLive status d).solo (.between db κ m χ) := by
  unfold isLiveToken isLive
  rw [he]

/-- Both services agree on a row, and on its cached copy. -/
theorem live_row (h : Still χ) (v : Invitation) :
    (isLive v.status v.expiry).solo (.between db κ m χ) =
      (.ok (decide (v.Live m.now)), .between db κ m χ) ∧
    (isLiveToken v.status (.datetime v.expiry)).solo (.between db κ m χ) =
      (.ok (decide (v.Live m.now)), .between db κ m χ) ∧
    (isLiveToken v.status v.cachedExpiry).solo (.between db κ m χ) =
      (.ok (decide (v.Live m.now)), .between db κ m χ) := by
  have hdate : ∀ d : Datetime, d.utc = v.expiresAt →
      (messageOr (v.status.getD "") "pending" = "pending" && decide ((m.now : Int) < d.utc)) =
        decide (v.Live m.now) := by
    intro d hd
    rw [hd]
    by_cases hopen : messageOr (v.status.getD "") "pending" = "pending" <;>
      simp [Invitation.Live, Invitation.Open, hopen]
  refine ⟨?_, ?_, ?_⟩
  · rw [isLive_still h, hdate]
    simp [Datetime.utc, Invitation.expiry]
  · rw [isLiveToken_still _ (d := v.expiry) rfl, isLive_still h, hdate]
    simp [Datetime.utc, Invitation.expiry]
  · rw [isLiveToken_still _ (d := { digits := v.expiresAt, offset := some 0 }) rfl,
      isLive_still h, hdate]
    simp [Datetime.utc]

end Moment

/-! ## The answers -/

section Answers

variable {db : Db adehun} {κ : List (Db adehun)} {m : Shared} {χ : Chance adehun}
  (hs : db.Sound)

include hs

theorem findInvitationByToken_solo (token : Nat) :
    (findInvitationByToken token).solo (.between db κ m χ) =
      (.ok ((db .invitation : List Invitation).find? fun v => v.token = token),
        .between db κ m χ) := by
  have ht : (Solo.between db κ m χ).Tidy := Solo.tidy_between
  unfold findInvitationByToken
  rw [Prog.solo_bind_ok (loadFirst_solo ht hs .invitation _)]
  simp only [Solo.between_view]
  generalize (db .invitation : List Invitation).find? (fun v => v.token = token) = found
  cases found with
  | none => rfl
  | some v =>
      simp only
      rw [Prog.solo_bind_ok (loadAll_solo ht hs .agreement _)]
      rfl

theorem hasPendingInvitation_solo {agreementId : Id} {email : String} (he : email ≠ "")
    {v : Invitation} (hv : (db .invitation : List Invitation).find? (fun v =>
      v.agreementId = agreementId && v.email = email) = some v) :
    (hasPendingInvitation agreementId email).solo (.between db κ m χ) =
      (.ok (decide v.Open), .between db κ m χ) := by
  have hfound := getInvitationByAgreementId_solo (σ := .between db κ m χ) Solo.tidy_between hs
    email agreementId
  rw [Solo.between_view, hv] at hfound
  unfold hasPendingInvitation
  rw [if_neg he, Prog.solo_bind_ok hfound]
  rfl

/-- Somebody who is not on an agreement may read it while their invitation is
pending. -/
theorem requireReadAccess_solo {agreementId userId : Id} {email : String} (he : email ≠ "")
    {v : Invitation} (hv : (db .invitation : List Invitation).find? (fun v =>
      v.agreementId = agreementId && v.email = email) = some v) {a : Agreement}
    (ha : db.lookup ⟨.agreement, agreementId⟩ = some a)
    (hno : (db .agreementParticipant : List AgreementParticipant).find? (fun p =>
      p.agreementId = agreementId && p.userId = userId) = none) :
    (requireReadAccess agreementId userId email).solo (.between db κ m χ) =
      (if v.Open then .ok () else
        .error (.app .forbidden "You do not have access to this agreement"),
        .between db κ m χ) := by
  have hget := get_solo (σ := .between db κ m χ) Solo.tidy_between .agreement agreementId
  rw [Solo.between_view, ha] at hget
  have hjoined := getParticipantForUser_solo (σ := .between db κ m χ) Solo.tidy_between hs
    agreementId userId
  rw [Solo.between_view, hno] at hjoined
  unfold requireReadAccess
  rw [Prog.solo_bind_ok hget]
  simp only
  rw [Prog.solo_bind_ok hjoined]
  simp only
  rw [Prog.solo_bind_ok (hasPendingInvitation_solo hs he hv)]
  by_cases hopen : v.Open <;> simp [hopen]

variable (hstill : Still χ) {token : Nat}

include hstill

theorem lookupInvitation_solo {v : Invitation}
    (hv : (db .invitation : List Invitation).find? (fun v => v.token = token) = some v) :
    ∃ r, (lookupInvitation token).solo (.between db κ m χ) = (r, .between db κ m χ) ∧
      ((∃ x, r = .ok x) ↔ v.Live m.now) := by
  have hfound := findInvitationByToken_solo (κ := κ) (m := m) (χ := χ) hs token
  rw [hv] at hfound
  unfold lookupInvitation
  rw [Prog.solo_bind_ok hfound]
  simp only
  rw [Prog.solo_bind_ok (live_row hstill v).1]
  by_cases hlive : v.Live m.now
  · rw [Prog.solo_bind_ok (raiseIf_pass (by simp [hlive]))]
    rw [Prog.solo_bind_ok (get_solo Solo.tidy_between _ _),
      Prog.solo_bind_ok (get_solo Solo.tidy_between _ _)]
    exact ⟨_, rfl, iff_of_true ⟨_, rfl⟩ hlive⟩
  · rw [Prog.solo_bind_error (raiseIf_stop (by simp [hlive]))]
    exact ⟨_, rfl, iff_of_false (by simp) hlive⟩

theorem invitePage_solo {v : Invitation}
    (hv : (db .invitation : List Invitation).find? (fun v => v.token = token) = some v) :
    ∃ page, (invitePage token).solo (.between db κ m χ) = (.ok page, .between db κ m χ) ∧
      page.live = decide (v.Live m.now) ∧
      page.statusCode = if v.Live m.now then 200 else 404 := by
  have hfound := findInvitationByToken_solo (κ := κ) (m := m) (χ := χ) hs token
  rw [hv] at hfound
  unfold invitePage
  rw [Prog.solo_bind_ok hfound]
  simp only
  rw [Prog.solo_bind_ok (live_row hstill v).1, Prog.solo_bind_ok (get_solo Solo.tidy_between _ _),
    Prog.solo_bind_ok (get_solo Solo.tidy_between _ _)]
  refine ⟨_, rfl, rfl, ?_⟩
  simp

omit hs in
theorem getInvitation_solo (token : Nat) :
    (getInvitation token).solo (.between db κ m χ) =
      (.ok (cachedCopy m token), .between db κ m χ) := by
  have hcommand : (Prog.perform (M := adehun) (.shared fun m =>
      (m, (m.cache.find? (·.1 = .invitation token)).map (·.2)))).solo (.between db κ m χ) =
      (.ok ((m.cache.find? (·.1 = .invitation token)).map (·.2)), .between db κ m χ) := by
    rw [Prog.solo_perform, Solo.exec, weathered_still hstill]
    rfl
  unfold getInvitation cachedCopy
  rw [Prog.solo_bind_ok hcommand]
  generalize (m.cache.find? (·.1 = .invitation token)).map (·.2) = cached
  rcases cached with _ | v
  · rfl
  · cases v <;> rfl

theorem validateRow_solo :
    ∃ r, (validateRow token).solo (.between db κ m χ) = (r, .between db κ m χ) ∧
      ((∃ x, r = .ok x) ↔ ∃ v, (db .invitation : List Invitation).find? (fun v => v.token = token) =
        some v ∧ v.Live m.now) := by
  have hfound := findInvitationByToken_solo (κ := κ) (m := m) (χ := χ) hs token
  unfold validateRow
  rw [Prog.solo_bind_ok hfound]
  cases (db .invitation : List Invitation).find? (fun v => v.token = token) with
  | none => exact ⟨_, rfl, by simp⟩
  | some v =>
      simp only
      rw [Prog.solo_bind_ok (live_row hstill v).2.1]
      by_cases hlive : v.Live m.now
      · rw [Prog.solo_bind_ok (raiseIf_pass (by simp [hlive]))]
        exact ⟨_, rfl, iff_of_true ⟨v, rfl⟩ ⟨v, rfl, hlive⟩⟩
      · rw [Prog.solo_bind_error (raiseIf_stop (by simp [hlive]))]
        exact ⟨_, rfl, by simp [hlive]⟩

/-- The token service answers with a live cached copy, or else a live row. -/
theorem validateToken_solo :
    ∃ r, (validateToken token).solo (.between db κ m χ) = (r, .between db κ m χ) ∧
      ((∃ x, r = .ok x) ↔ (∃ c, cachedCopy m token = some c ∧ c.Live m.now) ∨
        ∃ v, (db .invitation : List Invitation).find? (fun v => v.token = token) = some v ∧
          v.Live m.now) := by
  obtain ⟨r, hrow, hr⟩ := validateRow_solo (κ := κ) (m := m) hs hstill
  unfold validateToken
  rw [Prog.solo_bind_ok (getInvitation_solo hstill token)]
  cases hc : cachedCopy m token with
  | none => exact ⟨r, hrow, by simp [hr]⟩
  | some c =>
      simp only
      rw [Prog.solo_bind_ok (live_row hstill c).2.2]
      by_cases hlive : c.Live m.now
      · simp only [hlive, decide_true, if_true]
        exact ⟨_, rfl, iff_of_true ⟨c, rfl⟩ (Or.inl ⟨c, rfl, hlive⟩)⟩
      · simp only [hlive, decide_false, Bool.false_eq_true, if_false]
        exact ⟨r, hrow, by simp [hr, hlive]⟩

end Answers

/-- A token has one row. -/
theorem find_token {db : Db adehun} (hs : db.Sound) {v : Invitation}
    (hv : v ∈ (db .invitation : List Invitation)) :
    (db .invitation : List Invitation).find? (fun w => w.token = v.token) = some v := by
  cases hf : (db .invitation : List Invitation).find? (fun w => w.token = v.token) with
  | none =>
      have := List.find?_eq_none.mp hf v hv
      simp at this
  | some w =>
      have hw : w.token = v.token := by simpa using List.find?_some hf
      have hmem := List.mem_of_find?_eq_some hf
      by_cases hid : w.id = v.id
      · have hsame := hs.keys.lookup (t := .invitation) hmem
        rw [show adehun.id (t := .invitation) w = v.id from hid] at hsame
        have hrow : db.lookup ⟨.invitation, v.id⟩ = some v := hs.keys.lookup hv
        rw [hrow] at hsame
        exact hsame.symm
      · refine absurd ?_ (hs.entries .invitation w.id v.id w v hid (hs.keys.lookup hmem)
          (hs.keys.lookup hv) (.invitationToken w.token) (by simp [rowEntries]))
        simp [rowEntries, hw]

/-! ## All uses of an invitation -/

/-- An invitation as it stands in the tables: the only one of its agreement,
for an address. -/
structure Standing (v : Invitation) (db : Db adehun) : Prop where
  mem : v ∈ (db .invitation : List Invitation)
  alone : ∀ w ∈ (db .invitation : List Invitation), w.agreementId = v.agreementId → w = v
  address : v.email ≠ ""
  agreement : ∃ a, db.lookup ⟨.agreement, v.agreementId⟩ = some (a : Agreement)

/-- Every use of an invitation honours it if it is live, and no use does if
it is not. -/
structure Uniform (v : Invitation) (db : Db adehun) (m : Shared) (χ : Chance adehun) : Prop where
  accepts : v.Live m.now → ∀ (u : Id) (a : Agreement),
    db.lookup ⟨.agreement, v.agreementId⟩ = some a → a.status = .pending →
    ∃ p ∈ ((called (acceptAgreement v.agreementId u v.email) db m χ).db .agreementParticipant :
      List AgreementParticipant), p.agreementId = v.agreementId ∧ p.userId = u ∧
        p.status = .accepted
  refuses : ¬ v.Live m.now → ∀ u : Id,
    (called (acceptAgreement v.agreementId u v.email) db m χ).db .agreementParticipant =
      db .agreementParticipant
  pending : outcome (hasPendingInvitation v.agreementId v.email) db m χ =
    .ok (decide (v.Live m.now))
  reads : ∀ u : Id, (db .agreementParticipant : List AgreementParticipant).find? (fun p =>
      p.agreementId = v.agreementId && p.userId = u) = none →
    ((∃ x, outcome (requireReadAccess v.agreementId u v.email) db m χ = .ok x) ↔ v.Live m.now)
  lookups : (∃ x, outcome (lookupInvitation v.token) db m χ = .ok x) ↔ v.Live m.now
  page : ∃ page, outcome (invitePage v.token) db m χ = .ok page ∧
    (page.live = true ↔ v.Live m.now)
  tokens : (∃ x, outcome (validateToken v.token) db m χ = .ok x) ↔ v.Live m.now

namespace Standing

variable {v : Invitation} {db : Db adehun} {m : Shared} {χ : Chance adehun} (h : Standing v db)

include h

theorem found : (db .invitation : List Invitation).find? (fun w =>
    w.agreementId = v.agreementId && w.email = v.email) = some v := by
  cases hf : (db .invitation : List Invitation).find? (fun w =>
      w.agreementId = v.agreementId && w.email = v.email) with
  | none =>
      have := List.find?_eq_none.mp hf v h.mem
      simp at this
  | some w =>
      have hw := List.find?_some hf
      simp only [Bool.and_eq_true, decide_eq_true_eq] at hw
      rw [h.alone w (List.mem_of_find?_eq_some hf) hw.1]

theorem byToken (hs : db.Sound) :
    (db .invitation : List Invitation).find? (fun w => w.token = v.token) = some v :=
  find_token hs h.mem

theorem invitee (u : Id) (hfresh : db.lookup ⟨.agreementParticipant, χ.ids 0⟩ = none) :
    ({ invitation := v
       participant := (db .agreementParticipant : List AgreementParticipant).find? fun p =>
         p.agreementId = v.agreementId && p.userId = u
       userId := u
       drawn := χ.ids 0 } : Invitee).In db :=
  ⟨h.found, rfl, fun _ => hfresh⟩

end Standing

/-- All uses of an invitation agree on whether it is live, unless its date
has passed while its status is pending, or a live copy is cached of one that
has been answered. -/
theorem uniform_iff {v : Invitation} {db : Db adehun} {m : Shared} {χ : Chance adehun}
    (hs : db.Sound) (h : Standing v db) (hstill : Still χ)
    (hfresh : db.lookup ⟨.agreementParticipant, χ.ids 0⟩ = none) :
    Uniform v db m χ ↔ (v.Open → m.now < v.expiresAt) ∧
      ∀ c, cachedCopy m v.token = some c → c.Live m.now → v.Open := by
  obtain ⟨a, ha⟩ := h.agreement
  have hpending := hasPendingInvitation_solo (κ := []) (m := m) (χ := χ) hs h.address h.found
  obtain ⟨r, hvalidate, hr⟩ := validateToken_solo (κ := []) (m := m) (χ := χ) hs hstill
  rw [h.byToken hs] at hr
  simp only [Option.some.injEq, exists_eq_left'] at hr
  constructor
  · intro hu
    have hopen : v.Open → v.Live m.now := by
      have := hu.pending
      unfold outcome at this
      rw [Solo.start_eq, hpending] at this
      have hiff : v.Open ↔ v.Live m.now := by simpa using this
      exact hiff.mp
    refine ⟨fun ho => (hopen ho).2, fun c hc hlive => ?_⟩
    have htokens := hu.tokens
    unfold outcome at htokens
    rw [Solo.start_eq, hvalidate] at htokens
    exact (htokens.mp (hr.mpr (Or.inl ⟨c, hc, hlive⟩))).1
  · rintro ⟨hdate, hcopy⟩
    have hopen : v.Open ↔ v.Live m.now := ⟨fun ho => ⟨ho, hdate ho⟩, fun hl => hl.1⟩
    obtain ⟨r₁, hlookup, hr₁⟩ := lookupInvitation_solo (κ := []) (m := m) (χ := χ) hs hstill
      (h.byToken hs)
    obtain ⟨page, hpage, hlive, -⟩ := invitePage_solo (κ := []) (m := m) (χ := χ) hs hstill
      (h.byToken hs)
    refine
      { accepts := ?_
        refuses := ?_
        pending := ?_
        reads := ?_
        lookups := ?_
        page := ?_
        tokens := ?_ }
    · intro hl u a ha hstatus
      have hin := h.invitee u hfresh
      by_cases hdone : ((db .agreementParticipant : List AgreementParticipant).find? fun p =>
          p.agreementId = v.agreementId && p.userId = u).any (·.status = .accepted) = true
      · obtain ⟨r, m', χ', hrun⟩ := acceptAgreement_again (κ := []) (m := m) (χ := χ) hin hs hdone
        obtain ⟨p, hp, haccepted⟩ := (Option.any_eq_true _ _).mp hdone
        have howner := List.find?_some hp
        simp only [Bool.and_eq_true, decide_eq_true_eq] at howner haccepted
        refine ⟨p, ?_, howner.1, howner.2, haccepted⟩
        rw [show called (acceptAgreement v.agreementId u v.email) db m χ = _ from called_eq hrun]
        exact List.mem_of_find?_eq_some hp
      · have hend := (acceptAgreement_called (m := m) hin hs ha hfresh hdone hstatus hl.1).1
        have howner := hin.row_owner .accepted
        refine ⟨_, ?_, howner.1, howner.2, Invitee.row_status _ .accepted⟩
        refine (congrArg (fun d : Db adehun => _ ∈ (d .agreementParticipant :
          List AgreementParticipant)) hend).mpr ?_
        have hrow := Db.lookup_mem (hin.lookup_answered hs .accepted "accepted")
        rw [Invitee.acceptedDb, addressed_apart (by decide), Invitee.settledDb,
          statusWrites_apart (by decide)]
        exact hrow
    · intro hl u
      have hclosed : ¬ v.Open := fun ho => hl (hopen.mp ho)
      obtain ⟨r, m', χ', hrun⟩ := acceptAgreement_refused (κ := []) (m := m) (χ := χ)
        (h.invitee u hfresh) hs ha (Or.inr hclosed)
      exact congrArg (fun σ : Solo adehun => σ.db .agreementParticipant) (called_eq hrun)
    · unfold outcome
      rw [Solo.start_eq, hpending]
      simp [hopen]
    · intro u hno
      unfold outcome
      rw [Solo.start_eq, requireReadAccess_solo hs h.address h.found ha hno, ← hopen]
      by_cases ho : v.Open <;> simp [ho]
    · unfold outcome
      rw [Solo.start_eq, hlookup]
      exact hr₁
    · refine ⟨page, ?_, by simp [hlive]⟩
      unfold outcome
      rw [Solo.start_eq, hpage]
    · unfold outcome
      rw [Solo.start_eq, hvalidate, hr]
      refine ⟨?_, Or.inr⟩
      rintro (⟨c, hc, hl⟩ | hl)
      · exact hopen.mp (hcopy c hc hl)
      · exact hl

/-- A pending invitation whose date has passed can be accepted. -/
theorem not_uniform : ¬ Uniform CutOff.invitation CutOff.db { now := 2000 } CutOff.chance := by
  intro h
  have hlate : ¬ CutOff.invitation.Live 2000 := by decide
  have hsame := congrArg List.length (h.refuses hlate 2)
  revert hsame
  decide +kernel

theorem uniform_iff_bob : Uniform CutOff.invitation CutOff.db { now := 500 } CutOff.chance := by
  have hkeys : CutOff.db.KeysDistinct := by
    intro t
    cases t <;> decide +kernel
  have hentries : CutOff.db.EntriesDistinct := by
    refine Db.entriesDistinct_of_pairwise fun t => ?_
    cases t <;> decide +kernel
  have hstanding : Standing CutOff.invitation CutOff.db := by
    refine ⟨List.mem_singleton.mpr rfl, ?_, by decide, ⟨CutOff.agreement, rfl⟩⟩
    intro w hw _
    exact List.mem_singleton.mp hw
  refine (uniform_iff ⟨hkeys, hentries⟩ hstanding (fun _ => rfl) rfl).mpr ⟨fun _ => by decide, ?_⟩
  intro c hc
  cases hc

end Adehun
