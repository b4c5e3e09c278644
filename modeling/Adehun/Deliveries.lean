import Adehun.Ownership
import Adehun.Routine.Aside
import Adehun.Sessions.Cells

/-!
# How a delivered event is driven

The provider delivers an event as often as it likes. What keeps it from being
handled twice is the row of its dedupe key: whoever changes the row to
received has claimed the event and runs its handler, until the row is marked.

A `Drive` is what has become of one event: whose runs are going on, how many
have started, whether the event has been marked as handled. It is read off
the commits that write the row and off nothing else, least of all off the
attempts the row counts. That the row tells the truth about the drive is
what is proved here, and the rest follows from it.
-/

namespace Adehun

open Sessions

/-! ## The runs of one event -/

/-- The runs of an event: whose are going on, how many have started, whether
the event has been marked as handled, and whether one started after that. -/
structure Drive where
  running : List Nat := []
  started : Nat := 0
  finished : Bool := false
  late : Bool := false

/-- Handled, and not to be handled again. -/
def WebhookEventStatus.final : WebhookEventStatus → Bool
  | .processed | .ignored => true
  | .received | .failed => false

def isReceived (e : Option WebhookEvent) : Bool := e.any fun e => e.status = .received

def attemptsOf (e : Option WebhookEvent) : Nat := (e.map fun e => e.attempts).getD 0

/-- Session `i` has committed a change of the event. Left as received the
event is claimed and a run starts; left as anything else it is marked, and
the run of `i` ends. -/
def Drive.after (i : Nat) (e : WebhookEvent) (d : Drive) : Drive :=
  if e.status = .received then
    { d with
      running := i :: d.running
      started := d.started + 1
      late := d.late || d.finished }
  else
    { d with
      running := d.running.filter (· ≠ i)
      finished := d.finished || e.status.final }

/-- What the runs of an event, seen from a first state of its row on, must
be: no two at once, only so many, each of them counted in the row, and none
after the event was handled. -/
structure Exclusive (first now : Option WebhookEvent) (d : Drive) : Prop where
  alone : d.running.length ≤ 1
  bounded : d.started = 0 ∨ attemptsOf first + d.started ≤ maxAttempts
  counted : attemptsOf now = attemptsOf first + d.started
  settled : d.late = false

/-- The row tells the truth about the runs. -/
structure Driven (first now : Option WebhookEvent) (d : Drive) : Prop extends
    Exclusive first now d where
  finished : d.finished = now.any fun e => e.status.final
  received : isReceived now = true ↔ d.running ≠ [] ∨ isReceived first = true
  stuck : isReceived first = true → d.running = []

/-- A change that claims an event: it is new, or has failed and may be tried
again. -/
structure Claimed (before : Option WebhookEvent) (e : WebhookEvent) : Prop where
  received : e.status = .received
  attempts : e.attempts = attemptsOf before + 1
  free : ∀ e₀, before = some e₀ → e₀.status = .failed ∧ e₀.attempts < maxAttempts

/-- A change that marks an event. -/
structure Marked (s : WebhookEventStatus) (before : Option WebhookEvent)
    (e : WebhookEvent) : Prop where
  status : e.status = s
  left : s ≠ .received
  attempts : e.attempts = attemptsOf before

section Drive

variable {first before now : Option WebhookEvent} {d : Drive} {e : WebhookEvent} {i j : Nat}
  {s : WebhookEventStatus}

theorem Claimed.not_received (hc : Claimed before e) : isReceived before = false := by
  cases before with
  | none => rfl
  | some e₀ => simp [isReceived, (hc.free e₀ rfl).1]

theorem Claimed.attemptsOf_lt (hc : Claimed before e) : attemptsOf before < maxAttempts := by
  cases before with
  | none => decide
  | some e₀ => exact (hc.free e₀ rfl).2

theorem Claimed.not_final (hc : Claimed before e) :
    (before.any fun e => e.status.final) = false := by
  cases before with
  | none => rfl
  | some e₀ => simp [(hc.free e₀ rfl).1, WebhookEventStatus.final]

/-- A claim starts a run, the only one. -/
theorem Driven.claimed (h : Driven first before d) (hc : Claimed before e) :
    Driven first (some e) (d.after i e) := by
  obtain ⟨hnil, hfirst⟩ : d.running = [] ∧ isReceived first = false := by
    have hnot := (not_congr h.received).mp (by rw [hc.not_received]; exact Bool.false_ne_true)
    exact ⟨not_not.mp fun hne => hnot (Or.inl hne), Bool.not_eq_true _ ▸ fun hr => hnot (Or.inr hr)⟩
  have hlt := hc.attemptsOf_lt
  have hcounted := h.counted
  have hfinished : d.finished = false := by rw [h.finished, hc.not_final]
  have hafter : d.after i e = { running := [i], started := d.started + 1 } := by
    rw [Drive.after, if_pos hc.received, hnil, h.settled, hfinished]
    rfl
  rw [hafter]
  refine ⟨⟨Nat.le_refl 1, ?_, ?_, rfl⟩, ?_, ?_, ?_⟩
  · right
    show attemptsOf first + (d.started + 1) ≤ maxAttempts
    omega
  · have := hc.attempts
    simp only [attemptsOf, Option.map_some, Option.getD_some] at this hcounted ⊢
    omega
  · simp [hc.received, WebhookEventStatus.final]
  · simp [isReceived, hc.received]
  · intro hr
    rw [hfirst] at hr
    cases hr

/-- A mark by the session whose run it is ends the run. -/
theorem Driven.marked (h : Driven first before d) (hm : Marked s before e)
    (hi : i ∈ d.running) : Driven first (some e) (d.after i e) := by
  have hstatus : e.status ≠ .received := by
    rw [hm.status]
    exact hm.left
  have hne := List.ne_nil_of_mem hi
  have hrunning : d.running = [i] := by
    obtain ⟨j, hj⟩ := List.length_eq_one_iff.mp
      (Nat.le_antisymm h.alone (List.length_pos_of_mem hi))
    rw [hj, List.mem_singleton] at hi
    rw [hj, hi]
  have hfirst : isReceived first ≠ true := fun hr => hne (h.stuck hr)
  have hfinished : d.finished = false := by
    have hreceived := h.received.mpr (Or.inl hne)
    rw [h.finished]
    cases before with
    | none => rfl
    | some e₀ =>
        simp only [isReceived, Option.any_some, decide_eq_true_eq] at hreceived
        simp [hreceived, WebhookEventStatus.final]
  have hafter : d.after i e = { d with running := [], finished := e.status.final } := by
    rw [Drive.after, if_neg hstatus, hrunning, hfinished]
    simp
  rw [hafter]
  refine ⟨⟨Nat.zero_le 1, h.bounded, ?_, h.settled⟩, rfl, ?_, fun _ => rfl⟩
  · rw [← h.counted, ← hm.attempts]
    rfl
  · simpa [isReceived, hstatus] using hfirst

/-- A change by one session leaves the runs of the others. -/
theorem Drive.mem_after (hne : j ≠ i) (hj : j ∈ d.running) : j ∈ (d.after i e).running := by
  unfold Drive.after
  split
  · exact List.mem_cons_of_mem i hj
  · exact List.mem_filter.mpr ⟨hj, decide_eq_true hne⟩

theorem Claimed.mem_after (hc : Claimed before e) : i ∈ (d.after i e).running := by
  rw [Drive.after, if_pos hc.received]
  exact List.mem_cons_self

end Drive

/-! ## The commits of an event -/

/-- The events by their dedupe keys. -/
abbrev eventCells : Cells adehun DedupeKey where
  table := .webhookEvent
  key := fun e : WebhookEvent => e.dedupeKey
  entry := .webhookDedupe
  entry_mem := fun _ => List.mem_singleton_self _

/-- The event with a dedupe key. -/
def eventOf (db : Db adehun) (k : DedupeKey) : Option WebhookEvent := eventCells.cell db k

/-- What becomes of every event, as seen from the commits that write its
row. -/
abbrev drives : Observer adehun Request where
  State := DedupeKey → Drive
  commit i writes _ after o := fun k =>
    match eventOf after k with
    | some e =>
        if writes.any fun d => d.key = ⟨Table.webhookEvent, e.id⟩ then (o k).after i e else o k
    | none => o k

section Commits

variable {w : World adehun} {i j : Nat} {o : DedupeKey → Drive} {k k' : DedupeKey} {id : Id}
  {e : WebhookEvent}

theorem commit_clear (h : eventCells.Clear i w) :
    drives.commit i (w.tx i).writes w.db (w.view i) o = o := by
  funext k
  dsimp only
  split
  · next e he =>
      refine if_neg fun hany => ?_
      obtain ⟨d, hd, hk⟩ := List.any_eq_true.mp hany
      exact h e.id ⟨d, hd, of_decide_eq_true hk⟩
  · rfl

theorem commit_at (h : eventCells.At k id i w) (hw : w.WF) (he : eventOf (w.view i) k = some e) :
    drives.commit i (w.tx i).writes w.db (w.view i) o k = (o k).after i e := by
  simp only [he]
  refine if_pos ?_
  have hrow : (w.view i).lookup ⟨Table.webhookEvent, id⟩ = some e :=
    (h.cell_after hw).symm.trans he
  have hid : e.id = id := Db.lookup_id hrow
  obtain ⟨d, hd, hk⟩ := h.wrote
  rw [List.any_eq_true]
  exact ⟨d, hd, decide_eq_true (by rw [hk, hid])⟩

theorem commit_at_of_ne (h : eventCells.At k id i w) (hw : w.WF) (hne : k' ≠ k) :
    drives.commit i (w.tx i).writes w.db (w.view i) o k' = o k' := by
  dsimp only
  split
  · next e he =>
      refine if_neg fun hany => ?_
      obtain ⟨d, hd, hkey⟩ := List.any_eq_true.mp hany
      have hid := h.only e.id ⟨d, hd, of_decide_eq_true hkey⟩
      obtain ⟨hrow, hk⟩ := (Cells.cell_eq_some (hw.view_keys i) (hw.distinct i)).mp he
      exact hne (hk.symm.trans (h.after e (by rw [← hid]; exact hrow)))
  · rfl

end Commits

/-! ## Where a session is with an event -/

/-- What a delivery is doing: nothing about events, claiming one, running its
handler (with the row it has just looked up), or marking it. -/
inductive DriveGhost
  | idle
  | claiming (k : DedupeKey)
  | driving (k : DedupeKey) (found : Option Id)
  | marking (k : DedupeKey) (id : Id) (s : WebhookEventStatus)

/-- The objects of events are filed under their ids. -/
def EventObjects (i : Nat) (w : World adehun) : Prop :=
  ∀ id, ∀ e ∈ ((w.tx i).objects ⟨Table.webhookEvent, id⟩ : Option WebhookEvent), e.id = id

def EventsUnstaged (i : Nat) (w : World adehun) : Prop :=
  ∀ d ∈ (w.tx i).dirty, d.key.table ≠ .webhookEvent

/-- The row of an event is the one with an id. -/
def Located (db : Db adehun) (k : DedupeKey) (id : Id) : Prop :=
  (eventOf db k).map (fun e => e.id) = some id

/-- What a session is entitled to: a claim is at the cell of its event, and
whoever drives or marks an event has a run of it. -/
def DriveGhost.Entitled : DriveGhost → Nat → World adehun → (DedupeKey → Drive) → Prop
  | .idle, i, w, _ => EventsUnstaged i w ∧ eventCells.Clear i w
  | .claiming k, i, w, _ => EventsUnstaged i w ∧ ∃ id e, eventCells.At k id i w ∧
      eventOf (w.view i) k = some e ∧ Claimed (eventOf w.db k) e
  | .driving k found, i, w, o => EventsUnstaged i w ∧ eventCells.Clear i w ∧
      i ∈ (o k).running ∧ ∀ id ∈ found, Located w.db k id
  | .marking k id s, i, w, o =>
      (∀ d ∈ (w.tx i).dirty, d.key.table = .webhookEvent →
        ∃ error, d = .update .webhookEvent id (setEventStatus s error)) ∧
      s ≠ .received ∧ i ∈ (o k).running ∧ Located w.db k id ∧
      (eventCells.Clear i w ∨ ∃ e, eventCells.At k id i w ∧
        eventOf (w.view i) k = some e ∧ Marked s (eventOf w.db k) e)

def DriveGhost.Owns (g : DriveGhost) (i : Nat) (w : World adehun) (o : DedupeKey → Drive) : Prop :=
  EventObjects i w ∧ g.Entitled i w o

/-- What a commit does to the events: nothing, or it claims one, or marks one
whose run the session has. -/
inductive DriveStep (i : Nat) (w : World adehun) (o : DedupeKey → Drive) : Prop
  | clear (h : eventCells.Clear i w)
  | claims {k : DedupeKey} {id : Id} {e : WebhookEvent} (h : eventCells.At k id i w)
      (he : eventOf (w.view i) k = some e) (hc : Claimed (eventOf w.db k) e)
  | marks {k : DedupeKey} {id : Id} {e : WebhookEvent} {s : WebhookEventStatus}
      (h : eventCells.At k id i w) (he : eventOf (w.view i) k = some e)
      (hm : Marked s (eventOf w.db k) e) (hi : i ∈ (o k).running)

section Entitled

variable {w w' : World adehun} {i j : Nat} {o : DedupeKey → Drive} {k : DedupeKey} {id : Id}
  {g : DriveGhost} {first : DedupeKey → Option WebhookEvent}

theorem DriveGhost.Entitled.driveStep (h : g.Entitled i w o) : DriveStep i w o := by
  cases g with
  | idle => exact .clear h.2
  | claiming k =>
      obtain ⟨-, id, e, hat, he, hc⟩ := h
      exact .claims hat he hc
  | driving k found => exact .clear h.2.1
  | marking k id s =>
      obtain ⟨-, -, hi, -, hclear | ⟨e, hat, he, hm⟩⟩ := h
      · exact .clear hclear
      · exact .marks hat he hm hi

/-- The rows go on telling the truth. -/
theorem DriveStep.driven (h : DriveStep i w o) (hw : w.WF)
    (hgood : ∀ k, Driven (first k) (eventOf w.db k) (o k)) (k : DedupeKey) :
    Driven (first k) (eventOf (w.view i) k)
      (drives.commit i (w.tx i).writes w.db (w.view i) o k) := by
  have hother : ∀ {k' id}, eventCells.At k' id i w → k ≠ k' →
      Driven (first k) (eventOf (w.view i) k)
        (drives.commit i (w.tx i).writes w.db (w.view i) o k) := by
    intro k' id hat hne
    rw [commit_at_of_ne hat hw hne, eventOf, hat.cell_of_ne hw hne]
    exact hgood k
  cases h with
  | clear hclear =>
      rw [commit_clear hclear, eventOf, hclear.cell hw]
      exact hgood k
  | @claims k' id e hat he hc =>
      by_cases hk : k = k'
      · subst hk
        rw [commit_at hat hw he, he]
        exact (hgood k).claimed hc
      · exact hother hat hk
  | @marks k' id e s hat he hm hi =>
      by_cases hk : k = k'
      · subst hk
        rw [commit_at hat hw he, he]
        exact (hgood k).marked hm hi
      · exact hother hat hk

/-- The runs of the others go on. -/
theorem DriveStep.mem_running (h : DriveStep i w o) (hw : w.WF) (hne : j ≠ i)
    (hj : j ∈ (o k).running) :
    j ∈ (drives.commit i (w.tx i).writes w.db (w.view i) o k).running := by
  have hat : ∀ {k' id e}, eventCells.At k' id i w → eventOf (w.view i) k' = some e →
      j ∈ (drives.commit i (w.tx i).writes w.db (w.view i) o k).running := by
    intro k' id e hat he
    by_cases hk : k = k'
    · subst hk
      rw [commit_at hat hw he]
      exact Drive.mem_after hne hj
    · rw [commit_at_of_ne hat hw hk]
      exact hj
  cases h with
  | clear hclear =>
      rw [commit_clear hclear]
      exact hj
  | claims h he _ => exact hat h he
  | marks h he _ _ => exact hat h he

/-- An event stays in its row. -/
theorem DriveStep.located (h : DriveStep i w o) (hw : w.WF) (hl : Located w.db k id) :
    Located (w.view i) k id := by
  have hat : ∀ {k' id' e}, eventCells.At k' id' i w → eventOf (w.view i) k' = some e →
      Located (w.view i) k id := by
    intro k' id' e hat he
    by_cases hk : k = k'
    · subst hk
      have hafter : e.id = id' := Db.lookup_id ((hat.cell_after hw).symm.trans he)
      obtain ⟨e₀, he₀, hid⟩ := Option.map_eq_some_iff.mp hl
      have hbefore : e₀.id = id' := Db.lookup_id ((hat.cell_before hw).symm.trans he₀)
      rw [Located, he, Option.map_some, hafter, ← hbefore, hid]
    · rw [Located, eventOf, hat.cell_of_ne hw hk]
      exact hl
  cases h with
  | clear hclear =>
      rw [Located, eventOf, hclear.cell hw]
      exact hl
  | claims h he _ => exact hat h he
  | marks h he _ _ => exact hat h he

theorem DriveGhost.Entitled.congr (h : g.Entitled i w o) (hdb : w'.db = w.db)
    (hwrites : (w'.tx i).writes = (w.tx i).writes)
    (hdirty : ∀ d ∈ (w'.tx i).dirty, d ∈ (w.tx i).dirty ∨ d.key.table ≠ .webhookEvent)
    (hholder : ∀ l, w.holder l = some i → w'.holder l = some i) : g.Entitled i w' o := by
  have hview := World.view_congr hdb hwrites
  have hunstaged' : EventsUnstaged i w → EventsUnstaged i w' :=
    fun hu d hd => (hdirty d hd).elim (hu d) id
  cases g with
  | idle => exact ⟨hunstaged' h.1, h.2.congr hwrites⟩
  | claiming k =>
      obtain ⟨hunstaged, id, e, hat, he, hc⟩ := h
      refine ⟨hunstaged' hunstaged, id, e, hat.congr hdb hwrites hholder, ?_, ?_⟩
      · rw [hview]
        exact he
      · rw [hdb]
        exact hc
  | driving k found =>
      obtain ⟨hunstaged, hclear, hi, hl⟩ := h
      refine ⟨hunstaged' hunstaged, hclear.congr hwrites, hi, ?_⟩
      rw [hdb]
      exact hl
  | marking k id s =>
      obtain ⟨hstaged, hs, hi, hl, hrow⟩ := h
      refine ⟨fun d hd ht => hstaged d ((hdirty d hd).resolve_right (not_not_intro ht)) ht,
        hs, hi, ?_, ?_⟩
      · rw [hdb]
        exact hl
      · rw [hdb, hview]
        refine hrow.imp (fun hclear => hclear.congr hwrites) ?_
        rintro ⟨e, hat, hrest⟩
        exact ⟨e, hat.congr hdb hwrites hholder, hrest⟩

/-- Somebody else's commit takes nothing away. -/
theorem DriveGhost.Entitled.commit (h : g.Entitled i w o) (hm : DriveStep j w o) (hw : w.WF)
    (hne : j ≠ i) :
    g.Entitled i (w.commit j) (drives.commit j (w.tx j).writes w.db (w.view j) o) := by
  have htx : (w.commit j).tx i = w.tx i := World.commit_tx_of_ne w (Ne.symm hne)
  have hrun : ∀ {k}, i ∈ (o k).running → _ := fun {k} hi =>
    hm.mem_running (k := k) hw (Ne.symm hne) hi
  cases g with
  | idle => exact ⟨by rw [EventsUnstaged, htx]; exact h.1, h.2.commit hne⟩
  | claiming k =>
      obtain ⟨hunstaged, id, e, hat, he, hc⟩ := h
      refine ⟨by rw [EventsUnstaged, htx]; exact hunstaged, id, e, hat.commit hw hne, ?_, ?_⟩
      · rw [eventOf, hat.cell_view_commit hw hne]
        exact he
      · rw [World.commit_db, eventOf, hat.cell_commit hw hne]
        exact hc
  | driving k found =>
      obtain ⟨hunstaged, hclear, hi, hl⟩ := h
      exact ⟨by rw [EventsUnstaged, htx]; exact hunstaged, hclear.commit hne, hrun hi,
        fun id hid => hm.located hw (hl id hid)⟩
  | marking k id s =>
      obtain ⟨hstaged, hs, hi, hl, hrow⟩ := h
      refine ⟨by rw [htx]; exact hstaged, hs, hrun hi, hm.located hw hl, ?_⟩
      refine hrow.imp (fun hclear => hclear.commit hne) ?_
      rintro ⟨e, hat, he, hmarked⟩
      refine ⟨e, hat.commit hw hne, ?_, ?_⟩
      · rw [eventOf, hat.cell_view_commit hw hne]
        exact he
      · rw [World.commit_db, eventOf, hat.cell_commit hw hne]
        exact hmarked

/-- Writing another table takes nothing away. -/
theorem DriveGhost.Entitled.put (h : g.Entitled i w o) (hw : w.WF) {d : Write adehun}
    (hd : d.key.table ≠ .webhookEvent) (hfree : w.free i (d.locks (w.view i)) = true)
    (hr : d.refusal (w.view i) = none) : g.Entitled i (w.put i d) o := by
  have hw' : (w.put i d).WF :=
    hw.put hfree hr rfl (fun j hne => World.put_tx_of_ne w d hne) (by simp) rfl
  have hcell : ∀ {k id e}, eventCells.At k id i w → eventOf (w.view i) k = some e →
      eventOf ((w.put i d).view i) k = some e := by
    intro k id e hat he
    rw [eventOf, (hat.put hd).cell_after hw', World.put_view,
      Write.lookup_apply_of_ne _ fun hk => hd (congrArg Key.table hk), ← hat.cell_after hw]
    exact he
  have hdirty : ((w.put i d).tx i).dirty = (w.tx i).dirty := by rw [World.put_tx_self]
  cases g with
  | idle => exact ⟨by rw [EventsUnstaged, hdirty]; exact h.1, h.2.put hd⟩
  | claiming k =>
      obtain ⟨hunstaged, id, e, hat, he, hc⟩ := h
      exact ⟨by rw [EventsUnstaged, hdirty]; exact hunstaged, id, e, hat.put hd, hcell hat he, hc⟩
  | driving k found =>
      obtain ⟨hunstaged, hclear, hi, hl⟩ := h
      exact ⟨by rw [EventsUnstaged, hdirty]; exact hunstaged, hclear.put hd, hi, hl⟩
  | marking k id s =>
      obtain ⟨hstaged, hs, hi, hl, hrow⟩ := h
      refine ⟨by rw [hdirty]; exact hstaged, hs, hi, hl, hrow.imp (fun hc => hc.put hd) ?_⟩
      rintro ⟨e, hat, he, hm⟩
      exact ⟨e, hat.put hd, hcell hat he, hm⟩

/-- The mark that is sent. -/
theorem entitled_mark {s : WebhookEventStatus} {error : Option String}
    (h : (DriveGhost.marking k id s).Entitled i w o) (hw : w.WF)
    (hfree : w.free i ((Write.update (M := adehun) Table.webhookEvent id
      (setEventStatus s error)).locks (w.view i)) = true)
    (hr : (Write.update (M := adehun) Table.webhookEvent id
      (setEventStatus s error)).refusal (w.view i) = none) :
    (DriveGhost.marking k id s).Entitled i
      (w.put i (.update Table.webhookEvent id (setEventStatus s error))) o := by
  obtain ⟨hstaged, hs, hi, hl, hrow⟩ := h
  have hw' : (w.put i (.update Table.webhookEvent id (setEventStatus s error))).WF :=
    hw.put hfree hr rfl (fun j hne => World.put_tx_of_ne w _ hne) (by simp) rfl
  refine ⟨by rw [World.put_tx_self]; exact hstaged, hs, hi, hl, Or.inr ?_⟩
  have hafter : ∀ e : WebhookEvent, eventCells.At k id i
      (w.put i (.update Table.webhookEvent id (setEventStatus s error))) →
      (w.view i).lookup ⟨Table.webhookEvent, id⟩ = some e →
      eventOf ((w.put i (.update Table.webhookEvent id (setEventStatus s error))).view i) k =
        some ((setEventStatus s error).run e) := by
    intro e hat he
    rw [eventOf, hat.cell_after hw', World.put_view]
    refine (Write.lookup_update _ _ _ _ _).trans ?_
    rw [he, Option.map_some, if_pos rfl]
  rcases hrow with hclear | ⟨e, hat, he, hm⟩
  · obtain ⟨e, he, hid⟩ := Option.map_eq_some_iff.mp hl
    obtain ⟨hlook, hkey⟩ := (Cells.cell_eq_some hw.keys hw.entries).mp he
    have hrow : (w.view i).lookup ⟨Table.webhookEvent, id⟩ = some e := by
      rw [← hid]
      exact (hclear.lookup _).trans hlook
    have hat : eventCells.At k id i
        (w.put i (.update Table.webhookEvent id (setEventStatus s error))) := by
      rw [← hkey]
      exact hclear.update hw hrow rfl
    refine ⟨_, hat, hafter e hat hrow, rfl, hs, ?_⟩
    rw [World.put_db, he]
    rfl
  · have hrow : (w.view i).lookup ⟨Table.webhookEvent, id⟩ = some e :=
      (hat.cell_after hw).symm.trans he
    have hat' : eventCells.At k id i
        (w.put i (.update Table.webhookEvent id (setEventStatus s error))) :=
      hat.update fun r hr => hat.after r hr
    exact ⟨_, hat', hafter e hat' hrow, rfl, hs, hm.attempts⟩

theorem DriveGhost.Entitled.send (h : g.Entitled i w o) (hw : w.WF) {d : Write adehun}
    {ds : List (Write adehun)} (hd : (w.tx i).dirty = d :: ds)
    (hfree : w.free i (d.locks (w.view i)) = true) (hr : d.refusal (w.view i) = none) :
    g.Entitled i ((w.put i d).setTx i
      { w.tx i with writes := (w.tx i).writes ++ [d], dirty := ds }) o := by
  have hput : g.Entitled i (w.put i d) o := by
    by_cases ht : d.key.table = .webhookEvent
    · have hmem : d ∈ (w.tx i).dirty := by simp [hd]
      cases g with
      | idle => exact absurd ht (h.1 d hmem)
      | claiming k => exact absurd ht (h.1 d hmem)
      | driving k found => exact absurd ht (h.1 d hmem)
      | marking k id s =>
          obtain ⟨error, rfl⟩ := h.1 d hmem ht
          exact entitled_mark h hw hfree hr
    · exact h.put hw ht hfree hr
  refine hput.congr (World.setTx_db _ _ _) ?_ ?_ fun _ hl => hl
  · rw [World.setTx_tx_self, World.put_tx_self]
  · intro d' hd'
    rw [World.setTx_tx_self] at hd'
    rw [World.put_tx_self, hd]
    exact Or.inl (List.mem_cons_of_mem d hd')

end Entitled

/-! ## The discipline -/

/-- Where a lost transaction leads back to. -/
def DriveGhost.lost : DriveGhost → DriveGhost
  | .idle | .claiming _ => .idle
  | .driving k _ | .marking k _ _ => .driving k none

/-- Where a commit leads. -/
def DriveGhost.done : DriveGhost → DriveGhost
  | .idle | .marking _ _ _ => .idle
  | .claiming k | .driving k _ => .driving k none

section Discipline

variable {w w' : World adehun} {i : Nat} {o : DedupeKey → Drive} {g : DriveGhost}

theorem entitled_of_fresh {b : Bool} (htx : w'.tx i = { aborted := b }) :
    EventsUnstaged i w' ∧ eventCells.Clear i w' := by
  refine ⟨?_, .of_nil (by rw [htx])⟩
  intro d hd
  rw [htx] at hd
  cases hd

theorem DriveGhost.Entitled.lost (h : g.Entitled i w o) {b : Bool}
    (htx : w'.tx i = { aborted := b }) : g.lost.Entitled i w' o := by
  obtain ⟨hunstaged, hclear⟩ := entitled_of_fresh htx
  cases g with
  | idle => exact ⟨hunstaged, hclear⟩
  | claiming k => exact ⟨hunstaged, hclear⟩
  | driving k found => exact ⟨hunstaged, hclear, h.2.2.1, fun id hid => by cases hid⟩
  | marking k id s => exact ⟨hunstaged, hclear, h.2.2.1, fun id hid => by cases hid⟩

theorem DriveGhost.Entitled.done (h : g.Entitled i w o) (hw : w.WF) :
    g.done.Entitled i (w.commit i) (drives.commit i (w.tx i).writes w.db (w.view i) o) := by
  obtain ⟨hunstaged, hclear⟩ := entitled_of_fresh (World.commit_tx_self w i)
  cases g with
  | idle => exact ⟨hunstaged, hclear⟩
  | claiming k =>
      obtain ⟨-, id, e, hat, he, hc⟩ := h
      refine ⟨hunstaged, hclear, ?_, fun id hid => by cases hid⟩
      rw [commit_at hat hw he]
      exact hc.mem_after
  | driving k found =>
      refine ⟨hunstaged, hclear, ?_, fun id hid => by cases hid⟩
      rw [commit_clear h.2.1]
      exact h.2.2.1
  | marking k id s => exact ⟨hunstaged, hclear⟩

/-- The objects of events stay filed under their ids. -/
theorem EventObjects.of_eq (h : EventObjects i w) (ho : (w'.tx i).objects = (w.tx i).objects) :
    EventObjects i w' := by
  intro id e he
  rw [ho] at he
  exact h id e he

theorem EventObjects.of_fresh {b : Bool} (htx : w'.tx i = { aborted := b }) :
    EventObjects i w' := by
  intro id e he
  rw [htx] at he
  cases he

theorem EventObjects.remember (h : EventObjects i w) (k : Key adehun) :
    EventObjects i (w.remember i k ((w.view i).lookup k)) := by
  intro id e he
  by_cases hk : k = ⟨Table.webhookEvent, id⟩
  · subst hk
    simp only [World.remember, World.setTx_tx_self, Function.update_self] at he
    exact Db.lookup_id he
  · simp only [World.remember, World.setTx_tx_self, Function.update_of_ne (Ne.symm hk)] at he
    exact h id e he

end Discipline

/-- Events are driven by one run at a time, seen from their first rows on: as
a discipline. -/
def deliveries (first : DedupeKey → Option WebhookEvent) : drives.Discipline where
  Ghost := DriveGhost
  rest _ := .idle
  lost := DriveGhost.lost
  done := DriveGhost.done
  Commits _ := True
  Good db o := ∀ k, Driven (first k) (eventOf db k) (o k)
  Own := DriveGhost.Owns
  guard _ := {}
  own_congr hdb htx hl h :=
    ⟨h.1.of_eq (by rw [htx]), h.2.congr hdb (by rw [htx]) (by rw [htx]; exact fun _ => Or.inl) hl⟩
  own_remember k _ h := ⟨h.1.remember k, h.2.congr (World.setTx_db _ _ _)
    (by rw [World.remember, World.setTx_tx_self])
    (by rw [World.remember, World.setTx_tx_self]; exact fun _ => Or.inl) fun _ hl => hl⟩
  own_send hw _ _ hd hfree hr h :=
    ⟨h.1.of_eq (by rw [World.setTx_tx_self]), h.2.send hw hd hfree hr⟩
  own_lost := by
    rintro g i o w w' - h - ⟨b, htx⟩
    exact ⟨.of_fresh htx, h.2.lost htx⟩
  good_commit _ hw hgood _ _ h := h.2.driveStep.driven hw hgood
  own_done _ hw _ _ _ h := ⟨.of_fresh (World.commit_tx_self _ _), h.2.done hw⟩
  own_commit hne _ hw _ _ _ h hj :=
    ⟨hj.1.of_eq (by rw [World.commit_tx_of_ne _ hne]), hj.2.commit h.2.driveStep hw (Ne.symm hne)⟩
  good_start _ h := h
  own_start _ _ h := h
  own_init := by
    intro i o w r _ htx
    have htx' : w.tx i = { aborted := false } := htx
    exact ⟨.of_fresh htx', entitled_of_fresh htx'⟩
  good_look _ _ _ _ h _ := h
  own_look _ _ _ _ _ h := h
  look_other _ _ _ _ h := h
  good_crash _ h := h
  own_crash _ h := h

/-! ## The requests -/

section Requests

open Observer (Safe)

variable {first : DedupeKey → Option WebhookEvent} {i : Nat} {w : World adehun}
  {o : DedupeKey → Drive} {k : DedupeKey}

theorem undisturbed {g : DriveGhost} (hs : (deliveries first).Still g) :
    Undisturbed (deliveries first) g .webhookEvent where
  still := hs
  stage d hd i w o _ _ h := by
    refine ⟨?_, h.2.congr (World.stage_db w i d) (World.stage_writes w i d) ?_ fun _ hl => hl⟩
    · intro id e he
      rw [World.stage_objects_of_ne w i fun hk => hd (congrArg Key.table hk)] at he
      exact h.1 id e he
    · intro d' hd'
      rw [World.stage_dirty, List.mem_append, List.mem_singleton] at hd'
      exact hd'.imp id (by rintro rfl; exact hd)
  put d hd i w o hw _ h hfree hr := ⟨h.1.of_eq (by rw [World.put_tx_self]), h.2.put hw hd hfree hr⟩

variable (first) in
theorem undisturbed_idle : Undisturbed (deliveries first) DriveGhost.idle .webhookEvent :=
  undisturbed ⟨rfl, rfl, trivial, fun _ h => h⟩

variable (first) in
theorem undisturbed_driving (k : DedupeKey) :
    Undisturbed (deliveries first) (DriveGhost.driving k none) .webhookEvent :=
  undisturbed ⟨rfl, rfl, trivial, fun _ h => h⟩

/-- Whatever a session was doing, it is idle once its transaction is lost. -/
theorem own_idle_of_lost {g : DriveGhost} (h : g.lost.Owns i w o) : DriveGhost.idle.Owns i w o := by
  cases g with
  | idle => exact h
  | claiming k => exact h
  | driving k found => exact ⟨h.1, h.2.1, h.2.2.1⟩
  | marking k id s => exact ⟨h.1, h.2.1, h.2.2.1⟩

/-- A claim that finds the event open. -/
theorem own_claiming {e : WebhookEvent} {d : Write adehun} (ho : EventObjects i w)
    (h : DriveGhost.idle.Entitled i w o) (hw : (w.put i d).WF)
    (hat : eventCells.At k e.id i (w.put i d))
    (he : (d.apply (w.view i)).lookup ⟨Table.webhookEvent, e.id⟩ = some e)
    (hc : Claimed (eventOf w.db k) e) :
    (DriveGhost.claiming k).Owns i (w.put i d) o := by
  refine ⟨ho.of_eq (by rw [World.put_tx_self]), ?_, e.id, e, hat, ?_, hc⟩
  · rw [EventsUnstaged, World.put_tx_self]
    exact h.1
  · rw [eventOf, hat.cell_after hw, World.put_view]
    exact he

/-- What a claim writes and answers, by the row it finds. -/
def claimOutcome (k : DedupeKey) (id : Id) (type : EventType) (n : Option Nat)
    (r : Option PaystackReference) : Option WebhookEvent → List (Write adehun) × Bool
  | none =>
      ([.insert .webhookEvent
        ({ id := id
           dedupeKey := k
           eventType := type
           providerEventId := n
           reference := r
           status := .received } : WebhookEvent)], true)
  | some e =>
      if e.status = .failed && e.attempts < maxAttempts then
        ([.update .webhookEvent e.id claimAgain], true)
      else ([], false)

/-- What a claim writes leads to claiming the event, if it writes. -/
theorem own_claim {id : Id} {type : EventType} {n : Option Nat} {r : Option PaystackReference}
    {w' : World adehun} (hw : w.WF) (ho : DriveGhost.idle.Owns i w o)
    (hwr : w.writeAll i (claimOutcome k id type n r (eventOf (w.view i) k)).1 =
      some (.ok (), w')) :
    (if (claimOutcome k id type n r (eventOf (w.view i) k)).2 then
      DriveGhost.claiming k else .idle).Owns i w' o := by
  have hcell : eventOf (w.view i) k = eventOf w.db k := ho.2.2.cell hw k
  cases hfound : eventOf (w.view i) k with
  | none =>
      rw [hfound] at hcell hwr
      obtain ⟨hfree, hr, rfl⟩ := World.writeAll_singleton hwr
      refine own_claiming (e := { id, dedupeKey := k, eventType := type, providerEventId := n
                                  reference := r, status := .received }) ho.1 ho.2
        (hw.put hfree hr rfl (fun j hne => World.put_tx_of_ne w _ hne) (by simp) rfl)
        (ho.2.2.insert hr) (Write.lookup_insert_self (Write.insert_free hr).1) ?_
      rw [← hcell]
      exact ⟨rfl, rfl, fun e₀ he₀ => by cases he₀⟩
  | some e₀ =>
      rw [hfound] at hcell hwr
      simp only [claimOutcome] at hwr ⊢
      split
      · next hfree₀ =>
          rw [if_pos hfree₀] at hwr
          obtain ⟨hfree, hr, rfl⟩ := World.writeAll_singleton hwr
          obtain ⟨hrow, hkey⟩ :=
            (Cells.cell_eq_some (S := eventCells) (hw.view_keys i) (hw.distinct i)).mp hfound
          have hat := ho.2.2.update hw (p := claimAgain) hrow rfl
          rw [hkey] at hat
          refine own_claiming (e := claimAgain.run e₀) ho.1 ho.2
            (hw.put hfree hr rfl (fun j hne => World.put_tx_of_ne w _ hne) (by simp) rfl)
            hat ?_ ?_
          · refine (Write.lookup_update _ _ _ _ _).trans ?_
            have hrow' : (w.view i).lookup ⟨Table.webhookEvent, (claimAgain.run e₀).id⟩ =
              some e₀ := hrow
            rw [hrow', Option.map_some]
            exact congrArg some (if_pos rfl)
          · rw [← hcell]
            refine ⟨rfl, rfl, ?_⟩
            rintro _ ⟨⟩
            simpa using hfree₀
      · next hclosed =>
          rw [if_neg hclosed] at hwr
          cases hwr
          exact ho

/-- A claim that says so has started a run. -/
theorem safe_claim {type : EventType} {n : Option Nat} {r : Option PaystackReference}
    (ho : DriveGhost.idle.Owns i w o) :
    Safe (deliveries first).logic i
      (fun b => (if b then DriveGhost.driving k none else .idle).Owns i)
      (fun _ w o => ∃ g : DriveGhost, g.Owns i w o) (claim k type n r) w o := by
  refine Observer.safe_bind (Observer.safe_mono ?_ (fun _ _ _ h => h.elim (⟨_, ·⟩) (⟨_, ·⟩))
    (Observer.Discipline.safe_quiet (D := deliveries first) (g := .idle) (s := .fresh) trivial
      (fun h => h) ho))
  intro id w o ho
  refine Observer.safe_bind (Observer.safe_mono ?_ (fun _ _ _ h => h.elim (⟨_, ·⟩) (⟨_, ·⟩))
    (@Observer.Discipline.safe_upsert adehun Request Bool drives (deliveries first) i w o .idle _ _
      (fun b => if b then .claiming k else .idle)
      (fun w₁ o₁ _ hw _ ho₁ _ _ w₂ hwr => own_claim hw ho₁ hwr) ho))
  intro claimed w o ho
  refine Observer.safe_bind (Observer.safe_mono ?_ (fun _ _ _ h => h.elim (⟨_, ·⟩) (⟨_, ·⟩))
    (Observer.Discipline.safe_commit (D := deliveries first) trivial ho))
  intro _ w o ho
  cases claimed with
  | true => exact ho
  | false => exact ho

/-- The event looked up is in its row. -/
theorem safe_getEvent (ho : (DriveGhost.driving k none).Owns i w o) :
    Safe (deliveries first).logic i
      (fun e => (DriveGhost.driving k (e.map fun e => e.id)).Owns i)
      (fun _ w o => ∃ g : DriveGhost, g.Owns i w o) (getEvent k) w o := by
  refine Observer.safe_mono (fun _ _ _ h => h) (fun _ _ _ h => h.elim (⟨_, ·⟩) (⟨_, ·⟩))
    (safe_loadFirst (D := deliveries first) (g := .driving k none) (fun _ h => h) ?_ ho)
  intro w₁ o₁ alive w₂ o₂ hw _ ho₁ hdb ho₂
  obtain ⟨hobjects, hunstaged, hclear, hi, -⟩ := ho₂
  refine ⟨hobjects, hunstaged, hclear, hi, ?_⟩
  intro id hid
  obtain ⟨e', he', rfl⟩ := Option.map_eq_some_iff.mp hid
  obtain ⟨e, he, hans⟩ := Option.bind_eq_some_iff.mp he'
  have hcell : eventOf w₁.db k = some e := (ho₁.2.2.1.cell hw k).symm.trans he
  have hrow := ((Cells.cell_eq_some (S := eventCells) hw.keys hw.entries).mp hcell).1
  have hid : e'.id = e.id := by
    simp only [World.answer] at hans
    split at hans
    · next e₀ he₀ =>
        split at hans
        · cases hans
          exact ho₁.1 e.id _ he₀
        · exact Db.lookup_id hans
    · exact Db.lookup_id hans
  rw [hdb, Located, hcell, Option.map_some, hid]

/-- Staging and committing the mark ends the run. -/
theorem safe_marking {s : WebhookEventStatus} {error : Option String} {id : Id}
    (hs : s ≠ .received) (ho : (DriveGhost.driving k (some id)).Owns i w o) :
    Safe (deliveries first).logic i (fun _ => DriveGhost.idle.Owns i)
      (fun _ w o => ∃ g : DriveGhost, g.Owns i w o)
      (do assign .webhookEvent id (setEventStatus s error); commit) w o := by
  refine Observer.safe_bind (Observer.safe_mono ?_ (fun _ _ _ h => h.elim)
    (@Observer.Discipline.safe_stage adehun Request drives (deliveries first) i w o
      (.driving k (some id)) (.marking k id s) _ ?_ ho))
  · intro _ w o ho
    exact Observer.safe_mono (fun _ _ _ h => h) (fun _ _ _ h => h.elim (⟨_, ·⟩) (⟨_, ·⟩))
      (Observer.Discipline.safe_commit (D := deliveries first) (g := .marking k id s) trivial ho)
  · intro w₁ o₁ _ _ h
    obtain ⟨hobjects, hunstaged, hclear, hi, hl⟩ := h
    refine ⟨?_, ?_, hs, hi, hl id rfl, Or.inl (hclear.congr (World.stage_writes w₁ i _))⟩
    · intro id' e he
      by_cases hid : id' = id
      · subst hid
        simp only [World.stage, World.setTx_tx_self, Function.update_self] at he
        obtain ⟨e₀, he₀, rfl⟩ := Option.map_eq_some_iff.mp he
        exact hobjects id' e₀ he₀
      · refine hobjects id' e ?_
        rw [World.stage_objects_of_ne w₁ i fun hk => hid (Key.mk.inj hk).2.symm] at he
        exact he
    · intro d hd ht
      rw [World.stage_dirty, List.mem_append, List.mem_singleton] at hd
      rcases hd with hd | rfl
      · exact absurd ht (hunstaged d hd)
      · exact ⟨error, rfl⟩

theorem safe_mark {s : WebhookEventStatus} (hs : s ≠ .received)
    (ho : (DriveGhost.driving k none).Owns i w o) :
    Safe (deliveries first).logic i (fun _ => DriveGhost.idle.Owns i)
      (fun _ w o => ∃ g : DriveGhost, g.Owns i w o) (mark k s) w o := by
  refine Observer.safe_bind (Observer.safe_mono ?_ (fun _ _ _ h => h) (safe_getEvent ho))
  intro found w o ho
  cases found with
  | none => exact ⟨ho.1, ho.2.1, ho.2.2.1⟩
  | some e => exact safe_marking hs ho

theorem safe_markFailed {error : String} (ho : (DriveGhost.driving k none).Owns i w o) :
    Safe (deliveries first).logic i (fun _ => DriveGhost.idle.Owns i)
      (fun _ w o => ∃ g : DriveGhost, g.Owns i w o) (markFailed k error) w o := by
  refine Observer.safe_bind (Observer.safe_mono ?_ (fun _ _ _ h => h.elim)
    (Observer.Discipline.safe_rollback (D := deliveries first) (g := .driving k none) ho))
  intro _ w o ho
  refine Observer.safe_bind (Observer.safe_mono ?_ (fun _ _ _ h => h) (safe_getEvent ho))
  intro found w o ho
  cases found with
  | none => exact ⟨ho.1, ho.2.1, ho.2.2.1⟩
  | some e => exact safe_marking (by simp) ho

/-- A delivery is idle again when it is done with its event. -/
theorem safe_handleEvent {type : EventType} {data : WebhookData} {hash : Nat}
    (ho : DriveGhost.idle.Owns i w o) :
    Safe (deliveries first).logic i (fun _ => DriveGhost.idle.Owns i)
      (fun _ w o => ∃ g : DriveGhost, g.Owns i w o) (handleEvent type data hash) w o := by
  refine Observer.safe_bind (Observer.safe_mono ?_ (fun _ _ _ h => h) (safe_claim ho))
  intro claimed w o ho
  cases claimed with
  | false => exact ho
  | true =>
      simp only [Bool.not_true, Bool.false_eq_true, if_false]
      split
      · exact Observer.safe_bind (Observer.safe_mono (fun _ _ _ h => h) (fun _ _ _ h => h)
          (safe_mark (by simp) ho))
      · next p hp =>
          have hkeeps := ((undisturbed_driving first _).providerRequests rfl).event _ _ p hp i w o ho
          refine Observer.safe_bind (Observer.safe_attempt
            (Observer.safe_mono ?_ ?_ hkeeps))
          · intro outcome w o ho
            dsimp only
            split
            · exact Observer.safe_bind (Observer.safe_mono (fun _ _ _ h => h)
                (fun _ _ _ h => h) (safe_markFailed ho))
            · exact Observer.safe_bind (Observer.safe_mono (fun _ _ _ h => h)
                (fun _ _ _ h => h) (safe_mark (by simp) ho))
          · intro e w o ho
            dsimp only
            split
            · exact Observer.safe_bind (Observer.safe_mono (fun _ _ _ h => h)
                (fun _ _ _ h => h) (safe_markFailed ho))
            · exact Observer.safe_bind (Observer.safe_mono (fun _ _ _ h => h)
                (fun _ _ _ h => h) (safe_markFailed ho))
            · next h => cases h

variable (first) in
/-- From idle on, to idle again or, with an exception, to anywhere. -/
def Tries {α : Type} (p : App α) : Prop := ∀ i w o, DriveGhost.idle.Owns i w o →
  Safe (deliveries first).logic i (fun _ => DriveGhost.idle.Owns i)
    (fun _ w o => ∃ g : DriveGhost, g.Owns i w o) p w o

variable (first) in
theorem tries_sequential : Prog.Sequential fun _ p => Tries first p where
  ret _ _ _ _ ho := ho
  raise _ _ _ _ ho := ⟨.idle, ho⟩
  bind hp hf i w o ho := Observer.safe_bind
    (Observer.safe_mono (fun a w₁ o₁ h₁ => hf a i w₁ o₁ h₁) (fun _ _ _ h => h) (hp i w o ho))

theorem Tries.of_keeps {α : Type} {p : App α} (h : (deliveries first).Keeps DriveGhost.idle p) :
    Tries first p := fun i w o ho =>
  Observer.safe_mono (fun _ _ _ h => h) (fun _ _ _ h => ⟨.idle, h⟩) (h i w o ho)

/-- Closing the session gives up whatever was going on. -/
theorem keeps_closing {α : Type} {p : App α} (h : Tries first p) :
    (deliveries first).Keeps DriveGhost.idle (closing p) := by
  intro i w o ho
  have hrollback : ∀ {g : DriveGhost} {w o}, g.Owns i w o →
      Safe (deliveries first).logic i (fun _ => DriveGhost.idle.Owns i) (fun _ _ _ => False)
        rollback w o := by
    intro g w o ho
    exact Observer.safe_mono (fun _ _ _ h => own_idle_of_lost h) (fun _ _ _ h => h)
      (Observer.Discipline.safe_rollback (D := deliveries first) ho)
  refine Observer.safe_bind (Observer.safe_attempt (Observer.safe_mono ?_ ?_ (h i w o ho)))
  · intro a w o ho
    exact Observer.safe_bind
      (Observer.safe_mono (fun _ _ _ h => h) (fun _ _ _ h => h.elim) (hrollback ho))
  · rintro e w o ⟨g, ho⟩
    exact Observer.safe_bind
      (Observer.safe_mono (fun _ _ _ h => h) (fun _ _ _ h => h.elim) (hrollback ho))

theorem tries_handle (p : WebhookPayload) (hash : Nat) : Tries first (handle p hash) := by
  unfold handle
  split
  · exact fun i w o ho => safe_handleEvent ho
  · exact fun i w o ho => safe_handleEvent ho
  · exact (tries_sequential first).raise _

theorem keeps_paystackWebhook (signed : Bool) (p : WebhookPayload) (hash : Nat) :
    (deliveries first).Keeps DriveGhost.idle (paystackWebhook signed p hash) := by
  have hs := tries_sequential first
  have hplain := (undisturbed_idle first).plain rfl
  refine keeps_closing (hs.bind (.of_keeps (hplain.raiseIf _ _)) fun _ => ?_)
  split
  · exact hs.ret _
  · refine hs.bind (tries_handle p hash) fun outcome => ?_
    exact hs.bind (.of_keeps (hplain.forEach (fun n => hplain.notify _ _ _ (hplain.ret _)) _))
      fun _ => hs.bind (.of_keeps (hplain.sendToEach _)) fun _ => hs.ret _

variable (first) in
theorem deliveries_handler (settings : Settings) (r : Request) :
    (deliveries first).Keeps DriveGhost.idle (handler settings r) := by
  have hu := undisturbed_idle first
  have hkeys : Booking (fun _ p => (deliveries first).Keeps DriveGhost.idle p) .idempotencyKey :=
    hu.booking rfl (by decide)
  refine hu.handler rfl ?_ settings r
  exact
    { plain := fun _ hp => hp
      webhook := keeps_paystackWebhook
      keyed := fun s u key endpoint hash _ _ hallow => hkeys.route s u key endpoint hash hallow
      bound := hkeys.bindReference }

end Requests

/-! ## Every run -/

/-- Before a run nobody is running, and what is handled is handled. -/
def driveStart (db : Db adehun) (k : DedupeKey) : Drive :=
  { finished := (eventOf db k).any fun e => e.status.final }

theorem driven_start (e : Option WebhookEvent) :
    Driven e e { finished := e.any fun e => e.status.final } where
  alone := Nat.zero_le 1
  bounded := Or.inl rfl
  counted := rfl
  settled := rfl
  finished := rfl
  received := by simp
  stuck _ := rfl

section Runs

variable {settings : Settings} {db : Db adehun} {shared : Shared}

theorem deliveries_always (hk : db.KeysDistinct) (he : db.EntriesDistinct)
    (ls : List (Label adehun Request))
    {P : Conf adehun Response → (DedupeKey → Drive) → Prop}
    (hP : ∀ C o, (deliveries (eventOf db)).logic.Sound (fun _ _ _ _ => True) C o → P C o) :
    drives.Always P (handler settings) ({ world := { db, shared } } : Conf adehun Response)
      (driveStart db) ls := by
  refine Observer.Logic.Sound.always ?_ (Observer.Discipline.serves (deliveries_handler _ settings))
    hP (Observer.runMeets_trivial _ _ ls)
  refine Observer.Logic.sound_init ⟨World.wf_init hk he, fun k => driven_start _⟩ ?_
  exact fun i => ⟨rfl, fun l hl => by cases hl⟩

/-- Events are driven by one run at a time, at most so often, and never after
they have been handled; and the attempts are the runs. -/
theorem exclusive_always (hk : db.KeysDistinct) (he : db.EntriesDistinct)
    (ls : List (Label adehun Request)) :
    drives.Always (fun C o => ∀ k, Exclusive (eventOf db k) (eventOf C.world.db k) (o k))
      (handler settings) ({ world := { db, shared } } : Conf adehun Response)
      (driveStart db) ls :=
  deliveries_always hk he ls fun _ _ h k => (h.inv.2 k).toExclusive

end Runs

/-! ### Delivered again

A charge is delivered three times. The provider cannot be reached at first,
then it confirms the charge, and the third delivery finds it handled. -/

namespace Redelivered

open OneDay

def charge : WebhookPayload :=
  .event .chargeSuccess (.object { id := some 7, reference := some (.fund 1 1) })

def key : DedupeKey := .id .chargeSuccess 7

def delivered : Request := .webhook true charge 0

/-- The first delivery, which fails. -/
def failing : List (Turn adehun Request) := [
  .arrive 0 delivered,
  .go 0 100 1000,
  .answer 0 .requestError,
  .go 0 100 2000]

def failed : List (Label adehun Request) × Conf adehun Response :=
  start.played (handler settings) failing

/-- The other two. -/
def again : List (Turn adehun Request) := [
  .arrive 1 delivered,
  .go 1 100 3000,
  .answer 1 verified,
  .go 1 100 4000,
  .arrive 2 delivered,
  .go 2 100 5000]

def labels : List (Label adehun Request) :=
  failed.1 ++ (failed.2.played (handler settings) again).1

end Redelivered

/-- Of three deliveries two start a run, and the second run handles the
event. -/
theorem exclusive_always_redelivered :
    (drives.run (handler OneDay.settings) OneDay.start (driveStart OneDay.db)
        Redelivered.labels).map
        (fun x => ((x.2 Redelivered.key).started,
          (eventOf x.1.world.db Redelivered.key).map fun e => (e.status, e.attempts))) =
      some (2, some (.processed, 2)) ∧
    drives.Always
      (fun C o => ∀ k, Exclusive (eventOf OneDay.db k) (eventOf C.world.db k) (o k))
      (handler OneDay.settings) OneDay.start (driveStart OneDay.db) Redelivered.labels :=
  ⟨by decide +kernel, exclusive_always OneDay.db_keysDistinct OneDay.db_entriesDistinct _⟩

end Adehun
