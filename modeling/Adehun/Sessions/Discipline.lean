import Adehun.Sessions.Logic

/-!
# Disciplines: invariants of the committed tables

Most invariants of a database application have one shape. Something good
holds of the committed tables; a session at work has, in what it has written
and staged, what it takes to keep it so when it commits; and what one session
has is not disturbed by the commit of another, because of the locks both
hold. A `Discipline` is an invariant in this shape, and gives a `Logic`.

Under a discipline only the statements that write need an argument. `Keeps`
is the property of a program that it starts and ends at rest, and it is
compositional: a program keeps a discipline when its parts do.
-/

namespace Sessions

variable {M : System} {α β X : Type}

/-- An invariant `Good` of the committed tables, and what each session has
to `Own` for it. Between two writes that belong together a session may be
off by a `Ghost`, but not when it commits. -/
structure Discipline (M : System) where
  Ghost : Type
  rest : Ghost
  /-- Whether a session may commit like this. -/
  Commits : Ghost → Prop
  rest_commits : Commits rest
  Good : Db M → Prop
  Own : Ghost → Nat → World M → Prop
  guard : Guard M
  own_congr : ∀ {g i} {w w' : World M}, w'.db = w.db → w'.tx i = w.tx i →
    (∀ l, w.holder l = some i → w'.holder l = some i) → Own g i w → Own g i w'
  own_init : ∀ {i} {w : World M}, Good w.db →
    (∃ b, w.tx i = { aborted := b }) → Own rest i w
  own_remember : ∀ {g i} {w : World M} (k : Key M), (w.tx i).dirty = [] → Own g i w →
    Own g i (w.remember i k ((w.view i).lookup k))
  own_send : ∀ {g i} {w : World M} {d : Write M} {ds : List (Write M)}, w.WF → Good w.db →
    guard.flush w i → (w.tx i).dirty = d :: ds →
    w.free i (d.locks (w.view i)) = true → d.refusal (w.view i) = none → Own g i w →
    Own g i ((w.put i d).setTx i
      { w.tx i with writes := (w.tx i).writes ++ [d], dirty := ds })
  good_commit : ∀ {g i} {w : World M}, Commits g → w.WF → Good w.db →
    (w.tx i).dirty = [] → Own g i w → Good (w.view i)
  own_commit : ∀ {g g' i j} {w : World M}, j ≠ i → Commits g → w.WF → Good w.db →
    (w.tx i).dirty = [] → Own g i w → Own g' j w → Own g' j (w.commit i)

namespace World

theorem sql_ok {w w' : World M} {i : Nat} {c : Choice M} {auto : Bool}
    {body : Option (Except M.Exn X × World M)} {x : X}
    (h : w.sql i c auto body = some (.ok x, w')) : body = some (.ok x, w') := by
  rcases sql_cases h with ⟨e, he, -⟩ | ⟨-, -, hb⟩
  · cases he
  · exact hb

theorem rememberAll_fields (w : World M) (i : Nat) (alive : Bool) (ks : List (Key M)) :
    (w.rememberAll i alive ks).db = w.db ∧ (w.rememberAll i alive ks).holder = w.holder := by
  unfold rememberAll
  induction ks generalizing w with
  | nil => exact ⟨rfl, rfl⟩
  | cons k ks ih => exact ih _

/-- A session whose transaction has not failed, and that has nothing left to
send, gets to the statement itself. -/
theorem sql_of_clean {w : World M} {i : Nat} {c : Choice M} {auto : Bool}
    {body : Option (Except M.Exn X × World M)}
    (ha : (w.tx i).aborted = false) (hf : c.fail = false) (hd : (w.tx i).dirty = []) :
    w.sql i c auto body = body := by
  simp [sql, ha, hf, hd]

/-- What can raise when no statement fails by itself: a write that is
refused, or the statement. -/
theorem sql_error {w w' : World M} {i : Nat} {c : Choice M} {auto : Bool}
    {body : Option (Except M.Exn X × World M)} {e : M.Exn}
    (ha : (w.tx i).aborted = false) (hf : c.fail = false)
    (h : w.sql i c auto body = some (.error e, w')) :
    (∃ d ds, (w.tx i).dirty = d :: ds ∧ d.refusal (w.view i) = some e) ∨
      body = some (.error e, w') := by
  unfold sql at h
  rw [if_neg (by rw [ha]; decide), if_neg (by rw [hf]; decide)] at h
  split at h
  · split at h
    · next e' w₁ hflush =>
        cases h
        refine Or.inl ?_
        unfold flush at hflush
        split at hflush
        · cases hflush
        · next d ds hd =>
            have hview : (w.setTx i { w.tx i with dirty := ds }).view i = w.view i := by
              simp [view]
            obtain ⟨-, ⟨e', href, he, -⟩ | ⟨-, he, -⟩⟩ := write_cases hflush
            · cases he
              rw [hview] at href
              exact ⟨d, ds, hd, href⟩
            · cases he
    · cases h
  · exact Or.inr h

/-- The objects of a session after a query are those it had, or rows it
sees. -/
theorem rememberAll_objects {w : World M} {i : Nat} (alive : Bool) (ks : List (Key M))
    {k : Key M} {r : M.Row k.table} (h : ((w.rememberAll i alive ks).tx i).objects k = some r) :
    (w.tx i).objects k = some r ∨ (w.view i).lookup k = some r := by
  unfold rememberAll at h
  induction ks generalizing w with
  | nil => exact Or.inl h
  | cons k' ks ih =>
      rcases ih h with hobj | hview
      · by_cases hk : k' = k
        · subst hk
          simp only [remember, setTx_tx_self, Function.update_self, answer] at hobj
          split at hobj
          · next o ho =>
              split at hobj
              · exact Or.inl (ho.trans hobj)
              · exact Or.inr hobj
          · exact Or.inr hobj
        · simp only [remember, setTx_tx_self] at hobj
          rw [Function.update_of_ne (Ne.symm hk)] at hobj
          exact Or.inl hobj
      · refine Or.inr ?_
        have hsame : (w.remember i k' (w.answer i alive k')).view i = w.view i :=
          view_congr rfl (by simp [remember])
        rwa [hsame] at hview

theorem rememberAll_writes (w : World M) (i : Nat) (alive : Bool) (ks : List (Key M)) :
    ((w.rememberAll i alive ks).tx i).writes = (w.tx i).writes := by
  unfold rememberAll
  induction ks generalizing w with
  | nil => rfl
  | cons k ks ih => exact (ih _).trans (by simp [remember])

/-- A row that is there is answered with, be it as an old object. -/
theorem answer_isSome (w : World M) {i : Nat} (alive : Bool) {k : Key M}
    (h : ((w.view i).lookup k).isSome) : (w.answer i alive k).isSome := by
  unfold World.answer
  split
  · split
    · rfl
    · exact h
  · exact h

theorem rememberAll_tx (w : World M) (i : Nat) (alive : Bool) (ks : List (Key M)) :
    ((w.rememberAll i alive ks).tx i).writes = (w.tx i).writes ∧
    ((w.rememberAll i alive ks).tx i).dirty = (w.tx i).dirty ∧
    ((w.rememberAll i alive ks).tx i).aborted = (w.tx i).aborted ∧
    (w.rememberAll i alive ks).shared = w.shared := by
  unfold rememberAll
  induction ks generalizing w with
  | nil => exact ⟨rfl, rfl, rfl, rfl⟩
  | cons k ks ih =>
      have := ih (w.remember i k (w.answer i alive k))
      simpa [remember] using this

theorem writeAll_db {w w' : World M} {i : Nat} {ds : List (Write M)}
    {r : Except M.Exn Unit} (h : w.writeAll i ds = some (r, w')) : w'.db = w.db := by
  induction ds generalizing w with
  | nil =>
      cases h
      rfl
  | cons d ds ih =>
      unfold writeAll at h
      split at h
      · next w₁ hw =>
          obtain ⟨-, ⟨e, -, he, -⟩ | ⟨-, -, rfl⟩⟩ := write_cases hw
          · cases he
          · exact (ih h).trans (put_db w i d)
      · obtain ⟨-, ⟨e, -, -, rfl⟩ | ⟨-, -, rfl⟩⟩ := write_cases h
        · exact abort_db w i
        · exact put_db w i d

/-- Only a commit changes the committed tables. -/
theorem exec_db {w w' : World M} {i : Nat} {c : Choice M} {s : Stmt M X}
    {r : Except M.Exn X} (h : w.exec i c s = some (r, w')) :
    w'.db = w.db ∨ (w.tx i).dirty = [] ∧ w' = w.commit i ∧ s.IsCommit := by
  have hsql : ∀ {auto : Bool} {body : Option (Except M.Exn X × World M)},
      w.sql i c auto body = some (r, w') →
      ((auto = true → (w.tx i).dirty = []) → body = some (r, w') →
        w'.db = w.db ∨ (w.tx i).dirty = [] ∧ w' = w.commit i ∧ s.IsCommit) →
      w'.db = w.db ∨ (w.tx i).dirty = [] ∧ w' = w.commit i ∧ s.IsCommit := by
    intro auto body hs hbody
    rcases sql_cases hs with ⟨e, -, ⟨-, rfl⟩ | rfl⟩ | ⟨-, hd, hb⟩
    · exact Or.inl rfl
    · exact Or.inl rfl
    · exact hbody hd hb
  cases s with
  | select q =>
      refine hsql h fun _ hb => ?_
      cases hb
      exact Or.inl rfl
  | load t q =>
      refine hsql h fun _ hb => ?_
      cases hb
      exact Or.inl (rememberAll_fields w i _ _).1
  | get held k =>
      rw [exec_get] at h
      split at h
      · cases h
        exact Or.inl rfl
      · refine hsql h fun _ hb => ?_
        cases hb
        exact Or.inl rfl
  | lock t q =>
      refine hsql h fun _ hb => ?_
      split at hb
      · cases hb
        exact Or.inl rfl
      · split at hb
        · cases hb
          exact Or.inl rfl
        · cases hb
  | refresh k =>
      refine hsql h fun _ hb => ?_
      split at hb <;> (cases hb; exact Or.inl rfl)
  | stage d =>
      cases h
      exact Or.inl rfl
  | flush =>
      refine hsql h fun _ hb => ?_
      cases hb
      exact Or.inl rfl
  | upsert waits f =>
      refine hsql h fun _ hb => ?_
      split at hb
      · simp only [Option.map_eq_some_iff] at hb
        obtain ⟨⟨r', w₁⟩, hw, hr⟩ := hb
        have hw' : w₁ = w' := by
          cases r' <;> (cases hr; rfl)
        rw [← hw']
        exact Or.inl (writeAll_db hw)
      · cases hb
  | commit =>
      refine hsql h fun hd hb => ?_
      cases hb
      exact Or.inr ⟨hd rfl, rfl, trivial⟩
  | rollback =>
      cases h
      exact Or.inl rfl
  | await q =>
      simp only [exec, Option.map_eq_some_iff] at h
      obtain ⟨x, -, hx⟩ := h
      cases hx
      exact Or.inl rfl
  | shared f =>
      rw [exec_shared] at h
      split at h <;> (cases h; exact Or.inl rfl)
  | fresh =>
      cases h
      exact Or.inl rfl
  | now =>
      cases h
      exact Or.inl rfl

/-- What only reads, or waits, leaves the committed tables alone. -/
theorem exec_db_of_quiet {w w' : World M} {i : Nat} {c : Choice M} {s : Stmt M X}
    {r : Except M.Exn X} (hq : s.Quiet) (h : w.exec i c s = some (r, w')) : w'.db = w.db := by
  rcases exec_db h with hdb | ⟨-, -, hc⟩
  · exact hdb
  · cases s with
    | commit => exact hq.elim
    | _ => exact hc.elim

end World

/-- A step that changes the committed tables is a commit. -/
theorem Conf.step_db {Req : Type} {handler : Req → Prog M α} {C C' : Conf M α}
    {l : Label M Req} (hs : C.step handler l = some C') :
    C'.world.db = C.world.db ∨ ∃ i c k, l = .exec i c ∧
      C.threads i = some (.call .commit k) ∧ (C.world.tx i).dirty = [] ∧
      C'.world.db = C.world.view i := by
  cases l with
  | start i r =>
      simp only [Conf.step] at hs
      split at hs
      · cases hs
        exact Or.inl rfl
      · cases hs
  | exec i c =>
      simp only [Conf.step] at hs
      split at hs
      · next X s k hp =>
          simp only [Option.map_eq_some_iff] at hs
          obtain ⟨⟨r, w₂⟩, he, rfl⟩ := hs
          rcases World.exec_db he with hdb | ⟨hd, rfl, hc⟩
          · exact Or.inl hdb
          · cases s with
            | commit => exact Or.inr ⟨i, c, k, rfl, hp, hd, rfl⟩
            | _ => exact hc.elim
      · cases hs
  | flush i =>
      simp only [Conf.step] at hs
      split at hs
      · split at hs
        · split at hs
          · next w₂ hf =>
              cases hs
              obtain ⟨d, ds, -, -, -, rfl⟩ := World.flush_ok hf
              exact Or.inl rfl
          · cases hs
        · cases hs
      · cases hs
  | crash i =>
      simp only [Conf.step] at hs
      split at hs
      · cases hs
        exact Or.inl rfl
      · cases hs
  | ambient a =>
      simp only [Conf.step, Option.some.injEq] at hs
      subst hs
      exact Or.inl rfl


namespace Discipline

variable (D : Discipline M)

theorem rely_of_does {w w' : World M} {i j : Nat} (hw : w.WF) (hne : j ≠ i)
    (hd : World.DoesAll i w w') (hdb : w'.db = w.db) :
    World.Frame j w w' ∧ ∀ g, D.Own g j w → D.Own g j w' := by
  refine ⟨World.Frame.of_doesAll hw (Ne.symm hne) hd, ?_⟩
  intro g hg
  exact D.own_congr hdb (hd.tx_of_ne hne) (fun l => (hd.holder_iff hne l).mpr) hg

/-- A session may commit now. -/
def MayCommit (i : Nat) (w : World M) : Prop := ∃ g, D.Commits g ∧ D.Own g i w

/-- The logic of a discipline. -/
def logic : Logic M where
  Inv w := w.WF ∧ D.Good w.db
  guard := D.guard
  Must w i s :=
    match s with
    | .commit => D.MayCommit i w
    | _ => True
  Rely i w w' := World.Frame i w w' ∧ ∀ g, D.Own g i w → D.Own g i w'
  refl i w := ⟨.refl i w, fun _ h => h⟩
  trans h h' := ⟨h.1.trans h'.1, fun g hg => h'.2 g (h.2 g hg)⟩
  wf h := h.1
  flush := by
    intro w i w' hi hg hf
    have hdoes := World.flush_does hf
    obtain ⟨d, ds, hd, hfree, hr, hw'⟩ := World.flush_ok hf
    have hdb : w'.db = w.db := by rw [hw']; rfl
    refine ⟨⟨hi.1.flush hf, by rw [hdb]; exact hi.2⟩, ?_⟩
    intro j
    by_cases hj : j = i
    · subst hj
      refine ⟨.of_flush hf, ?_⟩
      intro g ho
      rw [hw']
      exact D.own_send hi.1 hi.2 hg hd hfree hr ho
    · exact D.rely_of_does hi.1 hj (.single hdoes) hdb
  crash := by
    intro w i hi
    refine ⟨⟨hi.1.reset i, hi.2⟩, ?_⟩
    intro j hj
    exact D.rely_of_does hi.1 hj (.single (World.does_reset w i)) rfl
  ambient := by
    intro w m hi
    refine ⟨⟨⟨hi.1.keys, hi.1.entries, hi.1.held, hi.1.legal, hi.1.distinct,
      hi.1.taken⟩, hi.2⟩, ?_⟩
    intro j
    refine ⟨⟨rfl, rfl, ⟨[], by simp⟩, fun _ h => h, fun _ _ => rfl⟩, ?_⟩
    intro g hg
    exact D.own_congr (w := w) rfl rfl (fun _ h => h) hg

theorem must_of_mayCommit {w : World M} {i : Nat} (h : D.MayCommit i w) (s : Stmt M X) :
    D.logic.Must w i s := by
  cases s with
  | commit => exact h
  | _ => trivial

theorem must_of_quiet {w : World M} {i : Nat} {s : Stmt M X} (h : s.Quiet) :
    D.logic.Must w i s := by
  cases s with
  | commit => exact h.elim
  | _ => trivial

/-- What a statement does to the invariant and to the others: only a commit
needs the session to have what it takes. -/
theorem exec_others {w w' : World M} {i : Nat} {c : Choice M} {s : Stmt M X}
    {r : Except M.Exn X} (hi : D.logic.Inv w) (he : w.exec i c s = some (r, w'))
    (ho : w' = w.commit i → D.MayCommit i w ∨ w'.db = w.db) :
    D.logic.Inv w' ∧ ∀ j, j ≠ i → D.logic.Rely j w w' := by
  have hdoes := World.exec_does he
  have hsame : w'.db = w.db → D.logic.Inv w' ∧ ∀ j, j ≠ i → D.logic.Rely j w w' := by
    intro hdb
    exact ⟨⟨hi.1.exec he, by rw [hdb]; exact hi.2⟩,
      fun j hj => D.rely_of_does hi.1 hj hdoes hdb⟩
  rcases World.exec_db he with hdb | ⟨hd, hc, -⟩
  · exact hsame hdb
  · rcases ho hc with ⟨g, hg, hown⟩ | hdb
    · subst hc
      refine ⟨⟨hi.1.exec he, D.good_commit hg hi.1 hi.2 hd hown⟩, ?_⟩
      intro j hj
      refine ⟨World.Frame.of_doesAll hi.1 (Ne.symm hj) hdoes, ?_⟩
      intro g' hg'
      exact D.own_commit hj hg hi.1 hi.2 hd hown hg'
    · exact hsame hdb

/-- A session at rest may stage this. -/
def Stages (d : Write M) : Prop :=
  ∀ i (w : World M), w.WF → D.Good w.db → D.Own D.rest i w → D.Own D.rest i (w.stage i d)

/-- A session at rest may write this past its unit of work. -/
def Puts (d : Write M) : Prop :=
  ∀ i (w : World M), w.WF → D.Good w.db → D.Own D.rest i w →
    w.free i (d.locks (w.view i)) = true → d.refusal (w.view i) = none →
    D.Own D.rest i (w.put i d)

/-- A statement that leaves a session at rest. -/
def Admits : Stmt M X → Prop
  | .stage d => D.Stages d
  | .upsert _ f => ∀ db, ∀ d ∈ (f db).1, D.Puts d
  | _ => True

theorem own_abort {w : World M} (i : Nat) (h : D.Good w.db) :
    D.Own D.rest i (w.abort i) :=
  D.own_init h ⟨true, World.abort_tx_self w i⟩

theorem own_answer {w : World M} {i : Nat} {g : D.Ghost} (alive : Bool) (k : Key M)
    (hd : (w.tx i).dirty = []) (h : D.Own g i w) :
    D.Own g i (w.remember i k (w.answer i alive k)) := by
  have hview := D.own_remember k hd h
  cases ho : (w.tx i).objects k with
  | none =>
      have : w.answer i alive k = (w.view i).lookup k := by rw [World.answer, ho]
      rw [this]
      exact hview
  | some o =>
      cases alive with
      | false =>
          have : w.answer i false k = (w.view i).lookup k := by rw [World.answer, ho]; rfl
          rw [this]
          exact hview
      | true =>
          -- the object in hand is kept, and nothing changes
          have hans : w.answer i true k = (w.tx i).objects k := by
            rw [World.answer, ho]
            rfl
          have : w.remember i k (w.answer i true k) = w := by
            rw [hans, World.remember, Function.update_eq_self]
            exact World.setTx_self w i
          rw [this]
          exact h

theorem own_rememberAll {w : World M} {i : Nat} {g : D.Ghost} (alive : Bool)
    (ks : List (Key M)) (hd : (w.tx i).dirty = []) (h : D.Own g i w) :
    D.Own g i (w.rememberAll i alive ks) := by
  unfold World.rememberAll
  induction ks generalizing w with
  | nil => exact h
  | cons k ks ih =>
      exact ih (by simp [World.remember, hd]) (D.own_answer alive k hd h)

theorem own_writeAll {w w' : World M} {i : Nat} {g : D.Ghost} {ds : List (Write M)}
    {r : Except M.Exn Unit} (hw : w.WF) (hgood : D.Good w.db)
    (hds : ∀ d ∈ ds, ∀ i (w : World M), w.WF → D.Good w.db → D.Own g i w →
      w.free i (d.locks (w.view i)) = true → d.refusal (w.view i) = none →
      D.Own g i (w.put i d))
    (h : D.Own g i w) (he : w.writeAll i ds = some (r, w')) :
    D.Own g i w' ∨ D.Own D.rest i w' ∧ ∃ e, r = .error e := by
  induction ds generalizing w with
  | nil =>
      cases he
      exact Or.inl h
  | cons d ds ih =>
      have hput : w.free i (d.locks (w.view i)) = true → d.refusal (w.view i) = none →
          D.Own g i (w.put i d) := hds d List.mem_cons_self i w hw hgood h
      unfold World.writeAll at he
      split at he
      · next w₁ hwr =>
          obtain ⟨hfree, ⟨e, -, hr, -⟩ | ⟨hr, -, rfl⟩⟩ := World.write_cases hwr
          · cases hr
          · have hd : World.Does i w (w.put i d) :=
              .put d hfree hr rfl (fun j hne => World.put_tx_of_ne w d hne) (by simp) rfl
            exact ih (hw.does hd) hgood (fun d' hd' => hds d' (List.mem_cons_of_mem d hd'))
              (hput hfree hr) he
      · obtain ⟨hfree, ⟨e, -, hre, rfl⟩ | ⟨hr, -, rfl⟩⟩ := World.write_cases he
        · exact Or.inr ⟨D.own_abort i hgood, e, hre⟩
        · exact Or.inl (hput hfree hr)

/-- What a statement that only reads leaves: the same, or a failed transaction. -/
theorem own_quiet {w w' : World M} {i : Nat} {g : D.Ghost} {c : Choice M} {s : Stmt M X}
    {r : Except M.Exn X} (hi : D.logic.Inv w) (hq : s.Quiet) (ho : D.Own g i w)
    (he : w.exec i c s = some (r, w')) :
    D.Own g i w' ∨ D.Own D.rest i w' ∧ ∃ e, r = .error e := by
  obtain ⟨-, hgood⟩ := hi
  have hsql : ∀ {auto : Bool} {body : Option (Except M.Exn X × World M)},
      w.sql i c auto body = some (r, w') →
      ((auto = true → (w.tx i).dirty = []) → body = some (r, w') → D.Own g i w') →
      D.Own g i w' ∨ D.Own D.rest i w' ∧ ∃ e, r = .error e := by
    intro auto body hs hbody
    rcases World.sql_cases hs with ⟨e, hr, ⟨-, rfl⟩ | rfl⟩ | ⟨-, hd, hb⟩
    · exact Or.inl ho
    · exact Or.inr ⟨D.own_abort i hgood, e, hr⟩
    · exact Or.inl (hbody hd hb)
  cases s with
  | select q =>
      refine hsql he fun _ hb => ?_
      cases hb
      exact ho
  | load t q =>
      refine hsql he fun hd hb => ?_
      cases hb
      exact D.own_rememberAll _ _ (hd rfl) ho
  | get held k =>
      rw [World.exec_get] at he
      split at he
      · cases he
        exact Or.inl ho
      · refine hsql he fun hd hb => ?_
        cases hb
        exact D.own_remember k (hd rfl) ho
  | lock t q =>
      refine hsql he fun hd hb => ?_
      split at hb
      · cases hb
        exact ho
      · next id hq =>
          split at hb
          · next hfree =>
              cases hb
              have hgrow : D.Own g i (w.rememberAll i c.alive [⟨t, id⟩]) :=
                D.own_rememberAll c.alive _ (hd rfl) ho
              refine D.own_congr ?_ ?_ ?_ hgrow
              · exact (World.rememberAll_fields w i c.alive [⟨t, id⟩]).1.symm ▸ rfl
              · simp [World.remember, World.rememberAll]
              · intro l hl
                rw [(World.rememberAll_fields w i c.alive [⟨t, id⟩]).2] at hl
                exact World.acquire_holder_of_free hfree hl
          · cases hb
  | refresh k =>
      refine hsql he fun hd hb => ?_
      split at hb
      · cases hb
        exact ho
      · next o hlook =>
          cases hb
          rw [← hlook]
          exact D.own_remember k (hd rfl) ho
  | flush =>
      refine hsql he fun _ hb => ?_
      cases hb
      exact ho
  | await q =>
      simp only [World.exec, Option.map_eq_some_iff] at he
      obtain ⟨x, -, hx⟩ := he
      cases hx
      exact Or.inl ho
  | shared f =>
      rw [World.exec_shared] at he
      split at he
      · cases he
        exact Or.inl ho
      · cases he
        exact Or.inl (D.own_congr (w := w) rfl rfl (fun _ h => h) ho)
  | fresh =>
      cases he
      exact Or.inl ho
  | now =>
      cases he
      exact Or.inl ho
  | stage d => exact hq.elim
  | upsert waits f => exact hq.elim
  | commit => exact hq.elim
  | rollback => exact hq.elim

/-- What a commit leaves: rest, unless it failed before it was tried. -/
theorem own_committed {w w' : World M} {i : Nat} {g : D.Ghost} {c : Choice M}
    {r : Except M.Exn Unit} (hi : D.logic.Inv w) (hg : D.Commits g) (ho : D.Own g i w)
    (he : w.exec i c .commit = some (r, w')) :
    D.Own D.rest i w' ∨ D.Own g i w' ∧ ∃ e, r = .error e := by
  obtain ⟨hw, hgood⟩ := hi
  rcases World.sql_cases he with ⟨e, hr, ⟨-, rfl⟩ | rfl⟩ | ⟨-, hd, hb⟩
  · exact Or.inr ⟨ho, e, hr⟩
  · exact Or.inl (D.own_abort i hgood)
  · cases hb
    exact Or.inl (D.own_init (D.good_commit hg hw hgood (hd rfl) ho)
      ⟨false, World.commit_tx_self w i⟩)

/-- An admitted statement leaves a session at rest. -/
theorem own_exec {w w' : World M} {i : Nat} {c : Choice M} {s : Stmt M X}
    {r : Except M.Exn X} (hi : D.logic.Inv w) (ha : D.Admits s) (ho : D.Own D.rest i w)
    (he : w.exec i c s = some (r, w')) : D.Own D.rest i w' := by
  have hquiet : s.Quiet → D.Own D.rest i w' := by
    intro hq
    rcases D.own_quiet hi hq ho he with h | ⟨h, -⟩ <;> exact h
  cases s with
  | stage d =>
      cases he
      exact ha i w hi.1 hi.2 ho
  | upsert waits f =>
      rcases World.sql_cases he with ⟨e, -, ⟨-, rfl⟩ | rfl⟩ | ⟨-, -, hb⟩
      · exact ho
      · exact D.own_abort i hi.2
      · split at hb
        · simp only [Option.map_eq_some_iff] at hb
          obtain ⟨⟨r', w₁⟩, hwr, hr⟩ := hb
          have hw' : w₁ = w' := by
            cases r' <;> (cases hr; rfl)
          rw [← hw']
          rcases D.own_writeAll hi.1 hi.2 (ha _) ho hwr with h | ⟨h, -⟩ <;> exact h
        · cases hb
  | commit =>
      rcases D.own_committed hi D.rest_commits ho he with h | ⟨h, -⟩ <;> exact h
  | rollback =>
      cases he
      exact D.own_init hi.2 ⟨false, World.reset_tx_self w i⟩
  | select q => exact hquiet trivial
  | load t q => exact hquiet trivial
  | get held k => exact hquiet trivial
  | lock t q => exact hquiet trivial
  | refresh k => exact hquiet trivial
  | flush => exact hquiet trivial
  | await q => exact hquiet trivial
  | shared f => exact hquiet trivial
  | fresh => exact hquiet trivial
  | now => exact hquiet trivial

/-! ## Programs that keep a discipline -/

/-- The program starts at rest and ends at rest, however it ends. -/
def Keeps (p : Prog M α) : Prop :=
  ∀ i w, D.Own D.rest i w →
    Safe D.logic i (fun _ w => D.Own D.rest i w) (fun _ w => D.Own D.rest i w) p w

theorem keeps_perform {s : Stmt M X} (h : D.Admits s) : D.Keeps (.perform s) := by
  intro i w ho
  refine safe_perform ?_
  intro w₁ hr hi
  have ho₁ := hr.2 D.rest ho
  have hmay : D.MayCommit i w₁ := ⟨D.rest, D.rest_commits, ho₁⟩
  refine ⟨D.must_of_mayCommit hmay s, ?_⟩
  intro c r w₂ he _
  obtain ⟨h₁, h₂⟩ := D.exec_others hi he (fun _ => Or.inl hmay)
  refine ⟨h₁, h₂, ?_⟩
  cases r <;> exact D.own_exec hi h ho₁ he

theorem keeps_compositional : Prog.Compositional fun _ p => D.Keeps (M := M) p where
  ret _ _ _ ho := ho
  raise _ _ _ ho := ho
  bind hp hf i w ho :=
    safe_bind (safe_mono (fun a w₁ h₁ => hf a i w₁ h₁) (fun _ _ h₁ => h₁) (hp i w ho))
  tryCatch hp hf i w ho :=
    safe_tryCatch (safe_mono (fun _ _ h₁ => h₁) (fun e w₁ h₁ => hf e i w₁ h₁) (hp i w ho))

/-- A statement that leaves the world alone. -/
theorem safe_silent {i : Nat} {w : World M} {s : Stmt M X} {A : World M → Prop}
    {P : Except M.Exn X → Prop} (hq : s.Quiet)
    (hA : ∀ w₁, D.logic.Rely i w w₁ → A w₁)
    (hs : ∀ w₁ c r w₂, A w₁ → w₁.exec i c s = some (r, w₂) → w₂ = w₁ ∧ P r) :
    Safe D.logic i (fun x w₂ => A w₂ ∧ P (.ok x)) (fun e w₂ => A w₂ ∧ P (.error e))
      (.perform s) w := by
  refine safe_perform ?_
  intro w₁ hr hi
  refine ⟨D.must_of_quiet hq, ?_⟩
  intro c r w₂ he _
  obtain ⟨rfl, hP⟩ := hs w₁ c r w₂ (hA w₁ hr) he
  refine ⟨hi, fun j _ => D.logic.refl j w₂, ?_⟩
  cases r <;> exact ⟨hA w₂ hr, hP⟩

/-- A random identifier, and the time of day. -/
theorem safe_fresh {i : Nat} {w : World M} {A : World M → Prop}
    {E : M.Exn → World M → Prop} (hA : ∀ w₁, D.logic.Rely i w w₁ → A w₁) :
    Safe D.logic i (fun _ w₁ => A w₁) E (.perform .fresh) w := by
  refine safe_mono ?_ ?_ (D.safe_silent (P := fun r => ∃ v, r = .ok v) trivial hA ?_)
  · exact fun _ _ hw => hw.1
  · rintro e w₁ ⟨-, v, hv⟩
    cases hv
  · intro w₁ c r w₂ _ he
    cases he
    exact ⟨rfl, _, rfl⟩

theorem safe_now {i : Nat} {w : World M} {A : World M → Prop}
    {E : M.Exn → World M → Prop} (hA : ∀ w₁, D.logic.Rely i w w₁ → A w₁) :
    Safe D.logic i (fun _ w₁ => A w₁) E (.perform .now) w := by
  refine safe_mono ?_ ?_ (D.safe_silent (P := fun r => ∃ v, r = .ok v) trivial hA ?_)
  · exact fun _ _ hw => hw.1
  · rintro e w₁ ⟨-, v, hv⟩
    cases hv
  · intro w₁ c r w₂ _ he
    cases he
    exact ⟨rfl, _, rfl⟩

/-- The attributes of an object the session has loaded. -/
theorem safe_held {i : Nat} {w : World M} {k : Key M} {o : M.Row k.table}
    {A : World M → Prop} {E : M.Exn → World M → Prop}
    (hA : ∀ w₁, D.logic.Rely i w w₁ → A w₁) (ho : (w.tx i).objects k = some o) :
    Safe D.logic i (fun r w₁ => A w₁ ∧ r = some o) E (.perform (.get true k)) w := by
  refine safe_mono ?_ ?_ (D.safe_silent (A := fun w₁ => A w₁ ∧ (w₁.tx i).objects k = some o)
    (P := fun r => r = .ok (some o)) trivial ?_ ?_)
  · rintro r w₁ ⟨⟨hw, -⟩, hr⟩
    cases hr
    exact ⟨hw, rfl⟩
  · rintro e w₁ ⟨-, he⟩
    cases he
  · intro w₁ hr
    refine ⟨hA w₁ hr, ?_⟩
    rw [hr.1.objects]
    exact ho
  · rintro w₁ c r w₂ ⟨-, hobj⟩ he
    rw [World.exec_get, hobj] at he
    cases he
    exact ⟨rfl, rfl⟩

/-- One write staged. -/
theorem safe_stage {i : Nat} {w : World M} {d : Write M} {Q : Unit → World M → Prop}
    {E : M.Exn → World M → Prop}
    (h : ∀ w₁, D.logic.Rely i w w₁ → D.logic.Inv w₁ → Q () (w₁.stage i d)) :
    Safe D.logic i Q E (.perform (.stage d)) w := by
  refine safe_perform ?_
  intro w₁ hr hi
  refine ⟨trivial, ?_⟩
  intro c r w₂ he _
  obtain ⟨h₁, h₂⟩ := D.exec_others hi he (fun _ => Or.inr (by cases he; rfl))
  cases he
  exact ⟨h₁, h₂, h w₁ hr hi⟩

/-! ## Programs between two writes -/

/-- The program leaves the session off by the ghost it starts with; with an
exception, by that or by nothing. -/
def Holds (g : D.Ghost) (p : Prog M α) : Prop :=
  ∀ i w, D.Own g i w →
    Safe D.logic i (fun _ w => D.Own g i w) (fun _ w => D.Own g i w ∨ D.Own D.rest i w) p w

theorem holds_sequential (g : D.Ghost) : Prog.Sequential fun _ p => D.Holds (M := M) g p where
  ret _ _ _ ho := ho
  raise _ _ _ ho := Or.inl ho
  bind hp hf i w ho :=
    safe_bind (safe_mono (fun a w₁ h₁ => hf a i w₁ h₁) (fun _ _ h₁ => h₁) (hp i w ho))

theorem holds_quiet {g : D.Ghost} {s : Stmt M X} (h : s.Quiet) : D.Holds g (.perform s) := by
  intro i w ho
  refine safe_perform ?_
  intro w₁ hr hi
  have ho₁ := hr.2 g ho
  refine ⟨D.must_of_quiet h, ?_⟩
  intro c r w₂ he _
  obtain ⟨h₁, h₂⟩ := D.exec_others hi he (by
    intro hc
    have hdb := World.exec_db_of_quiet h he
    exact Or.inr hdb)
  refine ⟨h₁, h₂, ?_⟩
  rcases D.own_quiet hi h ho₁ he with ho₂ | ⟨ho₂, e, rfl⟩
  · cases r with
    | ok x => exact ho₂
    | error e => exact Or.inl ho₂
  · exact Or.inr ho₂

/-- One write staged in between, where it leaves the ghost. -/
theorem holds_stage {g : D.Ghost} {d : Write M}
    (h : ∀ i (w : World M), w.WF → D.Good w.db → D.Own g i w → D.Own g i (w.stage i d)) :
    D.Holds g (.perform (.stage d)) := by
  intro i w ho
  refine D.safe_stage ?_
  intro w₁ hr hi
  exact h i w₁ hi.1 hi.2 (hr.2 g ho)

/-- An object the session asks for is the object it then has. -/
theorem safe_get {i : Nat} {w : World M} {g : D.Ghost} {held : Bool} {k : Key M}
    (ho : D.Own g i w) :
    Safe D.logic i
      (fun r w => D.Own g i w ∧ ∀ o, r = some o → (w.tx i).objects k = some o)
      (fun _ w => D.Own g i w ∨ D.Own D.rest i w) (.perform (.get held k)) w := by
  refine safe_perform ?_
  intro w₁ hr hi
  have ho₁ := hr.2 g ho
  refine ⟨trivial, ?_⟩
  intro c r w₂ he _
  obtain ⟨h₁, h₂⟩ := D.exec_others hi he
    (fun _ => Or.inr (World.exec_db_of_quiet (s := .get held k) trivial he))
  refine ⟨h₁, h₂, ?_⟩
  have hown := D.own_quiet (s := .get held k) hi trivial ho₁ he
  cases r with
  | error e => exact hown.imp id And.left
  | ok found =>
      refine ⟨hown.resolve_right (fun ⟨_, e, he⟩ => by cases he), ?_⟩
      rintro o rfl
      rw [World.exec_get] at he
      split at he
      · next o' ho' _ =>
          cases he
          exact ho'
      · have hb := World.sql_ok he
        simp only [Option.some.injEq, Prod.mk.injEq, Except.ok.injEq] at hb
        obtain ⟨hlook, rfl⟩ := hb
        simp [World.remember, hlook]

/-- A statement that only reads, by what it answers. -/
theorem safe_query {i : Nat} {w : World M} {g : D.Ghost} {s : Stmt M X} (hq : s.Quiet)
    {Q : X → World M → Prop}
    (h : ∀ w₁ c x w₂, w₁.WF → D.Own g i w₁ → w₁.exec i c s = some (.ok x, w₂) →
      D.Own g i w₂ → Q x w₂) (ho : D.Own g i w) :
    Safe D.logic i Q (fun _ w => D.Own g i w ∨ D.Own D.rest i w) (.perform s) w := by
  refine safe_perform ?_
  intro w₁ hr hi
  have ho₁ := hr.2 g ho
  refine ⟨D.must_of_quiet hq, ?_⟩
  intro c r w₂ he _
  obtain ⟨h₁, h₂⟩ := D.exec_others hi he (fun _ => Or.inr (World.exec_db_of_quiet hq he))
  refine ⟨h₁, h₂, ?_⟩
  have hown := D.own_quiet hi hq ho₁ he
  cases r with
  | error e => exact hown.imp id And.left
  | ok x => exact h w₁ c x w₂ hi.1 ho₁ he (hown.resolve_right fun ⟨_, e, he⟩ => by cases he)

/-- A query for objects, by what it answers. -/
theorem safe_load {i : Nat} {w : World M} {g : D.Ghost} {t : M.Table} {q : Db M → List Nat}
    {Q : List (M.Row t) → World M → Prop}
    (h : ∀ w₁ alive w₂, w₁.WF → D.Own g i w₁ → w₂.view i = w₁.view i → D.Own g i w₂ →
      Q ((q (w₁.view i)).filterMap fun id => w₁.answer i alive ⟨t, id⟩) w₂)
    (ho : D.Own g i w) :
    Safe D.logic i Q (fun _ w => D.Own g i w ∨ D.Own D.rest i w) (.perform (.load t q)) w := by
  refine D.safe_query (s := .load t q) trivial ?_ ho
  intro w₁ c x w₂ hw ho₁ he ho₂
  have hb := World.sql_ok he
  simp only [Option.some.injEq, Prod.mk.injEq, Except.ok.injEq] at hb
  obtain ⟨rfl, rfl⟩ := hb
  refine h w₁ c.alive _ hw ho₁ ?_ ho₂
  exact World.view_congr (World.rememberAll_fields w₁ i _ _).1 (World.rememberAll_writes w₁ i _ _)

/-- A commit in between, where it leaves the ghost. -/
theorem holds_commit {g : D.Ghost} (hg : D.Commits g)
    (hself : ∀ i w, w.WF → D.Good w.db → (w.tx i).dirty = [] → D.Own g i w →
      D.Own g i (w.commit i)) : D.Holds g (.perform .commit) := by
  intro i w ho
  refine safe_perform ?_
  intro w₁ hr hi
  have ho₁ := hr.2 g ho
  refine ⟨⟨g, hg, ho₁⟩, ?_⟩
  intro c r w₂ he _
  obtain ⟨h₁, h₂⟩ := D.exec_others hi he (fun _ => Or.inl ⟨g, hg, ho₁⟩)
  refine ⟨h₁, h₂, ?_⟩
  rcases World.sql_cases he with ⟨e, rfl, ⟨-, rfl⟩ | rfl⟩ | ⟨-, hd, hb⟩
  · exact Or.inl ho₁
  · exact Or.inr (D.own_abort i hi.2)
  · cases hb
    exact hself i w₁ hi.1 hi.2 (hd rfl) ho₁

/-- The commit a ghost was waiting for. -/
theorem safe_commit {i : Nat} {w : World M} {g : D.Ghost} (hg : D.Commits g)
    (ho : D.Own g i w) :
    Safe D.logic i (fun _ w => D.Own D.rest i w)
      (fun _ w => D.Own g i w ∨ D.Own D.rest i w) (.perform .commit) w := by
  refine safe_perform ?_
  intro w₁ hr hi
  have ho₁ := hr.2 g ho
  refine ⟨⟨g, hg, ho₁⟩, ?_⟩
  intro c r w₂ he _
  obtain ⟨h₁, h₂⟩ := D.exec_others hi he (fun _ => Or.inl ⟨g, hg, ho₁⟩)
  refine ⟨h₁, h₂, ?_⟩
  rcases D.own_committed hi hg ho₁ he with ho₂ | ⟨ho₂, e, rfl⟩
  · cases r with
    | ok x => exact ho₂
    | error e => exact Or.inr ho₂
  · exact Or.inl ho₂

/-- A rollback leaves a session at rest, wherever it was. -/
theorem safe_rollback {i : Nat} {w : World M} {E : M.Exn → World M → Prop} :
    Safe D.logic i (fun _ w => D.Own D.rest i w) E (.perform .rollback) w := by
  refine safe_perform ?_
  intro w₁ hr hi
  refine ⟨trivial, ?_⟩
  intro c r w₂ he _
  obtain ⟨h₁, h₂⟩ := D.exec_others hi he (fun _ => Or.inr (by cases he; rfl))
  cases he
  exact ⟨h₁, h₂, D.own_init hi.2 ⟨false, World.reset_tx_self w₁ i⟩⟩

/-- Writes past the unit of work, where each leaves the ghost. -/
theorem holds_upsert {g : D.Ghost} {waits : List M.Index} {f : Db M → List (Write M) × X}
    (h : ∀ db, ∀ d ∈ (f db).1, ∀ i (w : World M), w.WF → D.Good w.db → D.Own g i w →
      w.free i (d.locks (w.view i)) = true → d.refusal (w.view i) = none →
      D.Own g i (w.put i d)) : D.Holds g (.perform (.upsert waits f)) := by
  intro i w ho
  refine safe_perform ?_
  intro w₁ hr hi
  have ho₁ := hr.2 g ho
  refine ⟨trivial, ?_⟩
  intro c r w₂ he _
  rcases World.sql_cases he with ⟨e, rfl, ⟨-, rfl⟩ | rfl⟩ | ⟨-, -, hb⟩
  · exact ⟨hi, fun j _ => D.logic.refl j w₂, Or.inl ho₁⟩
  · obtain ⟨h₁, h₂⟩ := D.exec_others hi he (fun _ => Or.inr (World.abort_db w₁ i))
    exact ⟨h₁, h₂, Or.inr (D.own_abort i hi.2)⟩
  · split at hb
    · simp only [Option.map_eq_some_iff] at hb
      obtain ⟨⟨r', w₃⟩, hwr, hr'⟩ := hb
      have hw' : w₃ = w₂ := by
        cases r' <;> (cases hr'; rfl)
      subst hw'
      obtain ⟨h₁, h₂⟩ := D.exec_others hi he (fun _ => Or.inr (World.writeAll_db hwr))
      refine ⟨h₁, h₂, ?_⟩
      have hown := D.own_writeAll hi.1 hi.2 (h _) ho₁ hwr
      cases r' with
      | ok x =>
          cases hr'
          exact hown.resolve_right (fun ⟨_, e, he⟩ => by cases he)
      | error e =>
          cases hr'
          exact hown.imp id And.left
    · cases hb

/-- Requests that keep a discipline are served under its logic. -/
theorem serves {Req : Type} {handler : Req → Prog M α} (h : ∀ r, D.Keeps (handler r)) :
    D.logic.Serves handler := by
  intro r i w hi hidle
  have ho : D.Own D.rest i w := D.own_init hi.2 ⟨false, hidle.1⟩
  exact safe_mono (fun _ _ _ => trivial) (fun _ _ _ => trivial) (h r i w ho)

/-- A step that changes the committed tables is the commit of a session that
has what it takes. -/
theorem step_db {Req : Type} {handler : Req → Prog M α} {C C' : Conf M α} {l : Label M Req}
    (h : D.logic.Sound C) (hg : D.guard.Meets C l) (hs : C.step handler l = some C') :
    C'.world.db = C.world.db ∨ ∃ i c, D.guard.exec C.world i Stmt.commit c ∧
      D.MayCommit i C.world ∧ (C.world.tx i).dirty = [] ∧
      C'.world.db = C.world.view i := by
  rcases Conf.step_db hs with hdb | ⟨i, c, k, rfl, hp, hd, hdb⟩
  · exact Or.inl hdb
  · simp only [Guard.Meets, hp] at hg
    obtain ⟨w₀, hr, hsafe⟩ := h.safe i _ hp
    exact Or.inr ⟨i, c, hg, (hsafe C.world hr h.inv).1, hd, hdb⟩

/-- Requests that keep a discipline lead to sound configurations. -/
theorem sound_run {Req : Type} {handler : Req → Prog M α} (h : ∀ r, D.Keeps (handler r))
    {w : World M} (hi : D.logic.Inv w) (hidle : ∀ i, w.Idle i)
    {ls : List (Label M Req)} {C : Conf M α}
    (hg : Conf.RunMeets D.guard handler { world := w } ls)
    (hr : Conf.run handler { world := w } ls = some C) : D.logic.Sound C :=
  (D.logic.sound_init hi hidle).run D.logic (D.serves h) hg hr

/-- Every step of a run is a commit of a session that has what it takes, or
leaves the committed tables alone. -/
theorem steps_run {Req : Type} {handler : Req → Prog M α} (h : ∀ r, D.Keeps (handler r))
    {w : World M} (hi : D.logic.Inv w) (hidle : ∀ i, w.Idle i) {P : Db M → Db M → Prop}
    (hsame : ∀ db, P db db)
    (hcommit : ∀ (w : World M) i c, w.WF → D.Good w.db → D.guard.exec w i Stmt.commit c →
      D.MayCommit i w → (w.tx i).dirty = [] → D.Good (w.view i) → P w.db (w.view i))
    {ls : List (Label M Req)} (hg : Conf.RunMeets D.guard handler { world := w } ls) :
    Conf.RunSteps (fun C C' => P C.world.db C'.world.db) handler { world := w } ls := by
  refine (D.logic.sound_init hi hidle).runSteps D.logic (D.serves h) ?_ hg
  intro C C' l hsound hsound' hmeets hs
  rcases D.step_db hsound hmeets hs with hdb | ⟨i, c, hexec, hmay, hd, hdb⟩
  · rw [hdb]
    exact hsame _
  · have hgood := hsound'.inv.2
    rw [hdb] at hgood ⊢
    exact hcommit C.world i c hsound.inv.1 hsound.inv.2 hexec hmay hd hgood

/-- What is good stays good along every run whose steps meet the guard. -/
theorem inv_run {Req : Type} {handler : Req → Prog M α} (h : ∀ r, D.Keeps (handler r))
    {w : World M} (hi : D.logic.Inv w) (hidle : ∀ i, w.Idle i)
    {ls : List (Label M Req)} {C : Conf M α}
    (hg : Conf.RunMeets D.guard handler { world := w } ls)
    (hr : Conf.run handler { world := w } ls = some C) : D.logic.Inv C.world :=
  (D.sound_run h hi hidle hg hr).inv

end Discipline

end Sessions
