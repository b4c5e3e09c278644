import Adehun.Sessions.Alone
import Adehun.Routine.Statements

/-!
# The statements of a request that runs alone

What the repository's small reading functions answer when nobody else is at
work: the rows of the tables as the session sees them. A look at the cache
or the clock leaves the session where it is, only later.
-/

namespace Adehun

open Sessions

variable {σ : Solo adehun} {t : Table}

/-! ## Single statements -/

@[simp] theorem add_solo (r : t.Row) :
    (add t r).solo σ = (.ok (), { σ with dirty := σ.dirty ++ [.insert t r] }) := rfl

@[simp] theorem assign_solo (id : Id) (f : Patch adehun t) :
    (assign t id f).solo σ = (.ok (), { σ with dirty := σ.dirty ++ [.update t id f] }) := rfl

@[simp] theorem fresh_solo : fresh.solo σ = (.ok (σ.chance.ids 0),
    { σ with chance := { σ.chance with ids := fun n => σ.chance.ids (n + 1) } }) := rfl

theorem now_solo : now.solo σ = (.ok σ.weathered.shared.now, σ.weathered) := rfl

@[simp] theorem raiseIf_solo (p : Prop) [Decidable p] (e : Exn) :
    (raiseIf p e).solo σ = (if p then .error e else .ok (), σ) := by
  unfold raiseIf
  split <;> rfl

theorem flush_solo {v : Db adehun} (ha : σ.aborted = false)
    (hv : σ.view.sendAll σ.dirty = .ok v) : flush.solo σ = (.ok (), { σ with
      view := v, dirty := [], early := false }) :=
  (Prog.solo_perform _).trans (Solo.exec_flush ha hv)

@[simp] theorem rollback_solo : rollback.solo σ = (.ok (), { σ with
    view := σ.db, dirty := [], aborted := false, early := false }) := rfl

/-! ## The cache client -/

theorem cacheGet_solo (k : CacheKey) : (cacheGet k).solo σ =
    (.ok ((σ.weathered.shared.cache.find? (·.1 = k)).map (·.2)), σ.weathered) := by
  unfold cacheGet
  rw [Prog.solo_tryCatch]
  rfl

theorem cacheDelete_solo (ks : List CacheKey) : ∃ m χ,
    (cacheDelete ks).solo σ = (.ok (), σ.later m χ) := ⟨_, _, rfl⟩

/-! ## With nothing staged -/

section Tidy

variable (h : σ.Tidy)

include h

theorem select_solo {X : Type} (q : Db adehun → X) : (select q).solo σ = (.ok (q σ.view), σ) :=
  (Prog.solo_perform _).trans (h.select q)

theorem get_solo (t : Table) (id : Id) :
    (get t id).solo σ = (.ok (σ.view.lookup ⟨t, id⟩), σ) :=
  (Prog.solo_perform _).trans (h.get false ⟨t, id⟩)

theorem held_solo (t : Table) (id : Id) :
    (Prog.perform (Stmt.get (M := adehun) true ⟨t, id⟩)).solo σ =
      (.ok (σ.view.lookup ⟨t, id⟩), σ) :=
  (Prog.solo_perform _).trans (h.get true ⟨t, id⟩)

theorem attributes_solo {id : Id} {r : t.Row} (hr : σ.view.lookup ⟨t, id⟩ = some r) :
    (attributes t id).solo σ = (.ok r, σ) := by
  unfold attributes
  rw [Prog.solo_bind, held_solo h, hr]
  rfl

theorem refresh_solo {id : Id} {r : t.Row} (hr : σ.view.lookup ⟨t, id⟩ = some r) :
    (refresh t id).solo σ = (.ok r, σ) :=
  (Prog.solo_perform _).trans (h.refresh hr)

end Tidy

/-! ## Queries for objects -/

section Rows

variable (h : σ.Tidy) (hs : σ.view.Sound)

include h hs

theorem loadAll_solo (t : Table) (p : t.Row → Bool) :
    (loadAll t p).solo σ = (.ok ((σ.view t).filter p), σ) := by
  have hrows := hs.keys.rows (l := (σ.view t).filter p)
    fun r hr => List.mem_of_mem_filter hr
  unfold loadAll
  rw [Prog.solo_perform, h.load]
  exact congrArg (fun rows => (Except.ok rows, σ)) hrows

theorem loadFirst_solo (t : Table) (p : t.Row → Bool) :
    (loadFirst t p).solo σ = (.ok ((σ.view t).find? p), σ) := by
  have hrows := hs.keys.rows (l := ((σ.view t).filter p).take 1)
    fun r hr => List.mem_of_mem_filter (List.mem_of_mem_take hr)
  unfold loadFirst
  rw [Prog.solo_bind, Prog.solo_perform, h.load]
  show (Except.ok (List.head? _), σ) = _
  rw [← List.map_take]
  rw [show (((σ.view t).filter p).take 1).map rowId =
    (((σ.view t).filter p).take 1).map adehun.id from rfl, hrows]
  rw [List.head?_take, if_neg (by omega), List.head?_filter]

theorem loadParticipants_solo (p : AgreementParticipant → Bool) :
    (loadParticipants p).solo σ = (.ok ((σ.view .agreementParticipant).filter p), σ) := by
  unfold loadParticipants
  rw [Prog.solo_bind_ok (loadAll_solo h hs .agreementParticipant p)]
  split
  · rfl
  · rw [Prog.solo_bind_ok (loadAll_solo h hs .agreement _)]
    rfl

theorem getParticipantForUser_solo (agreementId userId : Id) :
    (getParticipantForUser agreementId userId).solo σ =
      (.ok ((σ.view .agreementParticipant : List AgreementParticipant).find? fun p =>
        p.agreementId = agreementId && p.userId = userId), σ) := by
  unfold getParticipantForUser
  rw [Prog.solo_bind_ok (loadParticipants_solo h hs _)]
  show (Except.ok (List.head? _), σ) = _
  rw [List.head?_filter]

theorem getParticipantsForAgreement_solo (agreementId : Id) :
    (getParticipantsForAgreement agreementId).solo σ =
      (.ok ((σ.view .agreementParticipant : List AgreementParticipant).filter fun p =>
        p.agreementId = agreementId), σ) :=
  loadParticipants_solo h hs _

theorem getInvitationByAgreementId_solo (email : String) (agreementId : Id) :
    (getInvitationByAgreementId email agreementId).solo σ =
      (.ok ((σ.view .invitation : List Invitation).find? fun v =>
        v.agreementId = agreementId && v.email = email), σ) := by
  unfold getInvitationByAgreementId
  rw [Prog.solo_bind_ok (loadFirst_solo h hs .invitation _)]
  generalize (σ.view .invitation : List Invitation).find? (fun v =>
    v.agreementId = agreementId && v.email = email) = found
  cases found with
  | none => rfl
  | some v =>
      simp only
      rw [Prog.solo_bind_ok (loadAll_solo h hs .agreement _)]
      rfl

end Rows

/-! ## Reading an agreement -/

open Prog

theorem looks_reading : Reading fun _ p => Looks p where
  toSequential := looks_compositional.toSequential
  reads _ hs _ := looks_quiet hs

theorem looks_cacheGet (k : CacheKey) : Looks (cacheGet k) :=
  looks_compositional.tryCatch (looks_quiet trivial) fun _ => looks_compositional.ret _

theorem looks_cacheSet (k : CacheKey) (v : CacheValue) : Looks (cacheSet k v) :=
  looks_compositional.tryCatch (looks_quiet trivial) fun _ => looks_compositional.ret _

theorem looks_loadParticipants (p : AgreementParticipant → Bool) :
    Looks (loadParticipants p) := by
  refine looks_compositional.bind (looks_reading.loadAll _ _) fun rows =>
    looks_compositional.ite (looks_compositional.ret _) ?_
  exact looks_compositional.bind (looks_reading.loadAll _ _) fun _ => looks_compositional.ret _

theorem looks_participantResponse? (p : Option AgreementParticipant) :
    Looks (participantResponse? p) := by
  cases p with
  | none => exact looks_compositional.ret _
  | some p =>
      exact looks_compositional.map
        (looks_compositional.bind (looks_reading.loadFirst _ _) fun _ => looks_compositional.ret _)

theorem looks_getById_row (agreementId : Id) : Looks (do
    match ← loadFirst .agreement fun a => a.id = agreementId with
    | none => pure none
    | some a => do
        cacheSet (.agreement agreementId) (.agreement a)
        pure (some ({ agreement := a, attached := true } : Found)) : App (Option Found)) := by
  refine looks_compositional.bind (looks_reading.loadFirst _ _) fun found => ?_
  cases found with
  | none => exact looks_compositional.ret _
  | some a =>
      exact looks_compositional.bind (looks_cacheSet _ _) fun _ => looks_compositional.ret _

theorem looks_getById (agreementId : Id) : Looks (getById agreementId) := by
  refine looks_compositional.bind (looks_cacheGet _) fun cached => ?_
  split
  · exact looks_compositional.ret _
  · exact looks_getById_row agreementId

theorem looks_toAgreementResponse (found : Found) (n m : Nat) (userId : Option Id)
    (funded : Bool) : Looks (toAgreementResponse found n m userId funded) := by
  have haccepted : ∀ u, Looks (getParticipantForUser found.agreement.id u) := fun u =>
    looks_compositional.bind (looks_loadParticipants _) fun _ => looks_compositional.ret _
  unfold toAgreementResponse
  simp only
  split
  all_goals
    refine looks_compositional.bind ?_ fun participants => ?_
    · first
      | exact looks_loadParticipants _
      | exact looks_compositional.ret _
    refine looks_compositional.bind (looks_participantResponse? _) fun depositor => ?_
    refine looks_compositional.bind (looks_participantResponse? _) fun beneficiary => ?_
    cases userId with
    | none => exact looks_compositional.ret _
    | some u => exact looks_compositional.bind (haccepted u) fun _ => looks_compositional.ret _

/-- Reading an agreement changes nothing but the cache. -/
theorem looks_getAgreement (agreementId : Id) (userId : Option Id) :
    Looks (getAgreement agreementId userId) := by
  refine looks_compositional.bind (looks_getById _) fun found => ?_
  cases found with
  | none => exact looks_compositional.raise _
  | some found =>
      refine looks_compositional.bind (looks_quiet trivial) fun counts => ?_
      refine looks_compositional.bind (looks_quiet trivial) fun funded => ?_
      exact looks_toAgreementResponse _ _ _ _ _

end Adehun
