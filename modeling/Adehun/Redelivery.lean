import Adehun.Deliveries

/-!
# What becomes of a delivery that was cut off

The claim of an event is committed before the work, and only the mark at the
end makes the event claimable again. If a delivery dies in between, or its
mark is not committed, the row stays as received, with attempts to spare and
nobody at work on it, and every later delivery is answered as a duplicate.

An unfinished event is handled again exactly when every run of it has ended
with its mark.
-/

namespace Adehun

open Sessions

/-- The dedupe key of a delivery that has one. -/
def WebhookPayload.dedupeKey (p : WebhookPayload) (hash : Nat) : Option DedupeKey :=
  match p with
  | .event type (.object data) => some (buildDedupeKey type data hash)
  | .event type .missing => some (buildDedupeKey type {} hash)
  | _ => none

/-- Session `j` brings a delivery, and gets as far as its claim. -/
def delivery (j : Nat) (p : WebhookPayload) (hash : Nat) (id : Id) :
    List (Label adehun Request) :=
  [.start j (.webhook true p hash), .exec j { value := id }, .exec j {}, .exec j {}]

/-- The delivery is claimed: a run of the event has started when its claim is
through. -/
def Redriven (settings : Settings) (C : Conf adehun Response) (o : DedupeKey → Drive)
    (k : DedupeKey) (ls : List (Label adehun Request)) : Prop :=
  ∃ C' o', drives.run (handler settings) C o ls = some (C', o') ∧
    (o' k).started = (o k).started + 1

/-- An event that is not finished, may be tried again, and is nobody's at the
moment: its row and its entry are free. -/
structure Waiting (C : Conf adehun Response) (k : DedupeKey) (e : WebhookEvent) : Prop where
  found : eventOf C.world.db k = some e
  unfinished : e.status.final = false
  tries : e.attempts < maxAttempts
  entry : C.world.holder (.entry (.webhookDedupe k)) = none
  row : C.world.holder (.row ⟨Table.webhookEvent, e.id⟩) = none

/-- Some event waits under the key. -/
def waits (C : Conf adehun Response) (k : DedupeKey) : Bool :=
  (eventOf C.world.db k).any fun e =>
    !e.status.final && e.attempts < maxAttempts &&
      C.world.holder (.entry (.webhookDedupe k)) = none &&
      C.world.holder (.row ⟨Table.webhookEvent, e.id⟩) = none

theorem waits_iff {C : Conf adehun Response} {k : DedupeKey} :
    waits C k = true ↔ ∃ e, Waiting C k e := by
  simp only [waits, Option.any_eq_true, Bool.and_eq_true, Bool.not_eq_true', decide_eq_true_eq]
  constructor
  · rintro ⟨e, he, ⟨⟨hopen, hmax⟩, hentry⟩, hrow⟩
    exact ⟨e, he, hopen, hmax, hentry, hrow⟩
  · rintro ⟨e, h⟩
    exact ⟨e, h.found, ⟨⟨h.unfinished, h.tries⟩, h.entry⟩, h.row⟩

/-- What is asked of a state: an event that waits, and whose handlers are all
gone, is handled again at the next delivery. -/
def StaysRedrivable (settings : Settings) (C : Conf adehun Response) (o : DedupeKey → Drive) :
    Prop :=
  ∀ k e, Waiting C k e → (∀ i ∈ (o k).running, C.threads i = none) →
    ∀ j p hash id, p.dedupeKey hash = some k → C.threads j = none →
      Redriven settings C o k (delivery j p hash id)

/-- Every run of an event that was claimed, before or since, has ended with
its mark. -/
def AllMarked (first : Option WebhookEvent) (d : Drive) : Prop :=
  d.running = [] ∧ isReceived first = false

/-! ## The claim of a delivery -/

section Claim

variable {settings : Settings} {w : World adehun} {j : Nat} {k : DedupeKey} {e : WebhookEvent}

/-- A delivery begins with its claim. -/
theorem webhook_claims {p : WebhookPayload} {hash : Nat} (hp : p.dedupeKey hash = some k)
    (settings : Settings) :
    ∃ type n r K, handler settings (.webhook true p hash) = .call .fresh K ∧
      ∀ id, ∃ K', K (.ok id) = .call (.upsert [.webhookDedupe k] fun db =>
          claimOutcome k id type n r (eventOf db k)) K' ∧
        ∀ b, ∃ K'', K' (.ok b) = .call .commit K'' := by
  cases p with
  | notJson => cases hp
  | notAnObject => cases hp
  | event type data =>
      cases data with
      | notAnObject => cases hp
      | missing =>
          cases hp
          exact ⟨type, _, _, _, rfl, fun id => ⟨_, rfl, fun b => ⟨_, rfl⟩⟩⟩
      | object data =>
          cases hp
          exact ⟨type, _, _, _, rfl, fun id => ⟨_, rfl, fun b => ⟨_, rfl⟩⟩⟩

variable {C : Conf adehun Response} {o : drives.State} {first : Option WebhookEvent}

/-- A delivery that nobody is in the way of gets through its claim. -/
theorem run_delivery {p : WebhookPayload} {hash : Nat} (hp : p.dedupeKey hash = some k)
    (hj : C.threads j = none) (htx : C.world.tx j = {})
    (hentry : C.world.holder (.entry (.webhookDedupe k)) = none) (id : Id) :
    ∃ type n r, ∀ w', C.world.writeAll j
        (claimOutcome k id type n r (eventOf C.world.db k)).1 = some (.ok (), w') →
      (w'.tx j).aborted = false → (w'.tx j).dirty = [] →
      ∃ C', drives.run (handler settings) C o (delivery j p hash id) =
        some (C', drives.commit j (w'.tx j).writes w'.db (w'.view j) o) := by
  obtain ⟨type, n, r, K, hK, hrest⟩ := webhook_claims hp settings
  refine ⟨type, n, r, ?_⟩
  intro w' hwr ha hd
  obtain ⟨K', hK', hrest'⟩ := hrest id
  have hview : C.world.view j = C.world.db := by rw [World.view, htx]; rfl
  have hfree : C.world.free j [Lock.entry (.webhookDedupe k)] = true := by
    simp [World.free, hentry]
  have hupsert := @World.exec_upsert adehun Bool C.world w' j [.webhookDedupe k]
    (fun db => claimOutcome k id type n r (eventOf db k)) (by rw [htx]) hfree
    (by rw [hview]; exact hwr)
  obtain ⟨K'', hK''⟩ := hrest' (claimOutcome k id type n r (eventOf (C.world.view j) k)).2
  have harrived : drives.run (handler settings) C o (delivery j p hash id) = _ :=
    Observer.run_start (Request.webhook true p hash) hj _
  have hfresh : C.world.exec j { value := id } (Stmt.fresh : Stmt adehun Nat) =
    some (.ok id, C.world) := rfl
  have hdrawn := harrived.trans (Observer.run_exec (C := Conf.setThread _ j _ _)
    ((Function.update_self _ _ _).trans (congrArg some hK)) hfresh _)
  have hclaimed := hdrawn.trans (Observer.run_exec (C := Conf.setThread _ j _ _)
    ((Function.update_self _ _ _).trans (congrArg some hK')) hupsert _)
  have hcommitted := hclaimed.trans (Observer.run_exec (C := Conf.setThread _ j _ _)
    ((Function.update_self _ _ _).trans (congrArg some hK'')) (World.exec_commit ha hd) [])
  exact ⟨_, hcommitted⟩

/-- Claiming an event again succeeds, if nobody is in the way. -/
theorem claimAgain_goes (hw : w.WF) (htx : w.tx j = {}) (he : eventOf w.db k = some e)
    (hentry : w.holder (.entry (.webhookDedupe k)) = none)
    (hrow : w.holder (.row ⟨Table.webhookEvent, e.id⟩) = none) :
    w.free j ((Write.update (M := adehun) Table.webhookEvent e.id claimAgain).locks
      (w.view j)) = true ∧
    (Write.update (M := adehun) Table.webhookEvent e.id claimAgain).refusal (w.view j) = none := by
  obtain ⟨hlook, hkey⟩ := (Cells.cell_eq_some (S := eventCells) hw.keys hw.entries).mp he
  have hview : w.view j = w.db := by rw [World.view, htx]; rfl
  have hlook' : w.db.lookup ⟨Table.webhookEvent, e.id⟩ = some e := hlook
  rw [hview]
  refine ⟨?_, Write.update_goes hw.keys hw.entries hlook' rfl rfl⟩
  rw [World.free_iff]
  intro l hl
  simp only [Write.locks, hlook', List.mem_cons, List.mem_map] at hl
  rcases hl with rfl | ⟨x, hx, rfl⟩
  · exact Or.inl hrow
  · have hxk : x = .webhookDedupe k := by
      rw [← hkey]
      simpa [rowEntries, claimAgain] using hx
    rw [hxk]
    exact Or.inl hentry

/-- An unfinished event that nobody is at work on is handled again exactly if
all its runs have ended with their marks. -/
theorem redriven_iff (hw : C.world.WF) (hd : Driven first (eventOf C.world.db k) (o k))
    {p : WebhookPayload} {hash : Nat} (hp : p.dedupeKey hash = some k)
    (hj : C.threads j = none) (htx : C.world.tx j = {}) (hrest : Waiting C k e) (id : Id) :
    Redriven settings C o k (delivery j p hash id) ↔ AllMarked first (o k) := by
  have he := hrest.found
  have hopen := hrest.unfinished
  have hmax := hrest.tries
  obtain ⟨type, n, r, hrun⟩ :=
    @run_delivery settings j k C o p hash hp hj htx hrest.entry id
  have hclear : eventCells.Clear j C.world := .of_nil (by rw [htx])
  rw [he, claimOutcome] at hrun
  cases hs : e.status with
  | processed => rw [hs] at hopen; cases hopen
  | ignored => rw [hs] at hopen; cases hopen
  | received =>
      rw [if_neg (by simp [hs])] at hrun
      obtain ⟨C', hC'⟩ := hrun C.world rfl (by rw [htx]) (by rw [htx])
      rw [commit_clear hclear] at hC'
      constructor
      · rintro ⟨C₁, o₁, h₁, hstarted⟩
        rw [h₁] at hC'
        cases hC'
        exact absurd hstarted (Nat.ne_of_lt (Nat.lt_succ_self _))
      · intro hmarked
        have hreceived := hd.received.mp (by simp [he, isReceived, hs])
        rcases hreceived with hne | hfirst
        · exact absurd hmarked.1 hne
        · rw [hmarked.2] at hfirst
          cases hfirst
  | failed =>
      rw [if_pos (by simp [hs, hmax])] at hrun
      obtain ⟨hfree, hr⟩ := claimAgain_goes hw htx he hrest.entry hrest.row
      obtain ⟨C', hC'⟩ := hrun _ (World.writeAll_put hfree hr)
        (by rw [World.put_tx_self, htx]) (by rw [World.put_tx_self, htx])
      obtain ⟨hlook, hkey⟩ := (Cells.cell_eq_some (S := eventCells) hw.keys hw.entries).mp he
      have hrow : (C.world.view j).lookup ⟨Table.webhookEvent, e.id⟩ = some e :=
        (hclear.lookup e.id).trans hlook
      have hat := hclear.update hw (p := claimAgain) hrow rfl
      rw [hkey] at hat
      have hw' : (C.world.put j (.update Table.webhookEvent e.id claimAgain)).WF :=
        hw.put hfree hr rfl (fun j hne => World.put_tx_of_ne _ _ hne) (by simp) rfl
      have hafter : eventOf ((C.world.put j
          (.update Table.webhookEvent e.id claimAgain)).view j) k = some (claimAgain.run e) := by
        rw [eventOf, hat.cell_after hw', World.put_view]
        refine (Write.lookup_update _ _ _ _ _).trans ?_
        rw [hrow, Option.map_some, if_pos rfl]
      constructor
      · intro _
        have hnot := (not_congr hd.received).mp (by simp [he, isReceived, hs])
        exact ⟨not_not.mp fun hne => hnot (Or.inl hne),
          Bool.not_eq_true _ ▸ fun hfirst => hnot (Or.inr hfirst)⟩
      · intro _
        refine ⟨C', _, hC', ?_⟩
        have hreceived : (claimAgain.run e).status = WebhookEventStatus.received := rfl
        rw [commit_at hat hw' hafter, Drive.after, if_pos hreceived]

end Claim

/-! ## Every run -/

theorem redriven_sound {settings : Settings} {first : DedupeKey → Option WebhookEvent}
    {C : Conf adehun Response} {o : DedupeKey → Drive}
    (h : (deliveries first).logic.Sound (fun _ _ _ _ => True) C o) :
    ∀ k e, Waiting C k e → ∀ j p hash id, p.dedupeKey hash = some k → C.threads j = none →
      (Redriven settings C o k (delivery j p hash id) ↔ AllMarked (first k) (o k)) :=
  fun k _ hwait j _ _ id hp hj =>
    redriven_iff h.inv.1 (h.inv.2 k) hp hj (h.idle j hj).1 hwait id

/-- In every state of every run, the next delivery of a waiting event is
handled again if and only if all its runs have ended with their marks. -/
theorem redriven_always {settings : Settings} {db : Db adehun} {shared : Shared}
    (hk : db.KeysDistinct) (he : db.EntriesDistinct) (ls : List (Label adehun Request)) :
    drives.Always (fun C o => ∀ k e, Waiting C k e →
        ∀ j p hash id, p.dedupeKey hash = some k → C.threads j = none →
          (Redriven settings C o k (delivery j p hash id) ↔ AllMarked (eventOf db k) (o k)))
      (handler settings) ({ world := { db, shared } } : Conf adehun Response)
      (driveStart db) ls :=
  deliveries_always hk he ls fun _ _ => redriven_sound

/-- A delivery that failed has left its mark, and the next one is handled. -/
theorem redriven_always_failed : ∃ C o e,
    drives.run (handler OneDay.settings) OneDay.start (driveStart OneDay.db)
      Redelivered.failed.1 = some (C, o) ∧
    Waiting C Redelivered.key e ∧
    Redriven OneDay.settings C o Redelivered.key (delivery 1 Redelivered.charge 0 3000) := by
  have hrun : (drives.run (handler OneDay.settings) OneDay.start (driveStart OneDay.db)
      Redelivered.failed.1).any (fun x => waits x.1 Redelivered.key &&
        (x.1.threads 1).isNone && (x.2 Redelivered.key).running = []) = true := by
    decide +kernel
  obtain ⟨⟨C, o⟩, hr, hend⟩ := (Option.any_eq_true _ _).mp hrun
  simp only [Bool.and_eq_true, decide_eq_true_eq, Option.isNone_iff_eq_none] at hend
  obtain ⟨⟨hwaits, hfree⟩, hmarked⟩ := hend
  obtain ⟨e, he⟩ := waits_iff.mp hwaits
  have hiff := (redriven_always OneDay.db_keysDistinct OneDay.db_entriesDistinct _).last hr
    Redelivered.key e he 1 Redelivered.charge 0 3000 rfl hfree
  exact ⟨C, o, e, hr, he, hiff.mpr ⟨hmarked, rfl⟩⟩

/-! ### Cut off after the claim

A charge is delivered, its event claimed, and the process dies. The row says
received, attempted once, and nobody will ever mark it. -/

namespace CutOff

def charge : WebhookPayload :=
  .event .chargeSuccess (.object { id := some 1, reference := some (.fund 1 1) })

def key : DedupeKey := .id .chargeSuccess 1

def run : List (Label adehun Request) := delivery 0 charge 0 7 ++ [.crash 0]

/-- Nobody is left, the event waits, and its run has never ended. -/
def stuck (C : Conf adehun Response) (o : DedupeKey → Drive) : Bool :=
  (C.threads 0).isNone && (C.threads 1).isNone && (o key).running = [0] && waits C key

end CutOff

/-- Over all runs, a delivery can leave its event waiting for ever. -/
theorem not_staysRedrivable : ¬ ∀ (settings : Settings) (db : Db adehun) (shared : Shared),
    db.KeysDistinct → db.EntriesDistinct → ∀ ls : List (Label adehun Request),
      drives.Always (StaysRedrivable settings) (handler settings)
        ({ world := { db, shared } } : Conf adehun Response) (driveStart db) ls := by
  intro h
  have hkeys : Db.KeysDistinct (M := adehun) fun _ => [] := fun _ => List.nodup_nil
  have hentries : Db.EntriesDistinct (M := adehun) fun _ => [] :=
    Db.entriesDistinct_of_pairwise fun _ => List.Pairwise.nil
  have hrun : (drives.run (handler {})
      ({ world := { db := fun _ => [], shared := {} } } : Conf adehun Response)
      (driveStart fun _ => []) CutOff.run).any (fun r => CutOff.stuck r.1 r.2) = true := by
    decide +kernel
  obtain ⟨⟨C, o⟩, hr, hstuck⟩ := (Option.any_eq_true _ _).mp hrun
  have hredrivable := (h {} _ {} hkeys hentries CutOff.run).last hr
  have hiff := (@deliveries_always {} (fun _ => []) {} hkeys hentries CutOff.run _
    fun C o => @redriven_sound {} _ C o).last hr
  simp only [CutOff.stuck, Bool.and_eq_true, decide_eq_true_eq,
    Option.isNone_iff_eq_none] at hstuck
  obtain ⟨⟨⟨h₀, h₁⟩, hrunning⟩, hwaits⟩ := hstuck
  obtain ⟨e, hwait⟩ := waits_iff.mp hwaits
  have hgone : ∀ i ∈ (o CutOff.key).running, C.threads i = none := by
    rw [hrunning]
    intro i hi
    rw [List.mem_singleton.mp hi]
    exact h₀
  have hredriven := hredrivable _ e hwait hgone 1 CutOff.charge 0 8 rfl h₁
  have hnil := ((hiff _ e hwait 1 CutOff.charge 0 8 rfl h₁).mp hredriven).1
  rw [hrunning] at hnil
  cases hnil

end Adehun
