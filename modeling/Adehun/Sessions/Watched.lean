import Adehun.Sessions.Discipline
import Adehun.Sessions.Observer

/-!
# Disciplines of watched runs

A discipline whose invariant also speaks about what an observer has seen.
With that, a session can own something nobody else owns: not because of what
the tables say, but because of who has committed what.

A session passes through ghosts: `lost` is where it falls back to when its
transaction is rolled back or fails, and `done` where a commit leads. A ghost
that neither takes anywhere is one that ordinary programs run in, and for
those the rules are the ones of a plain discipline.
-/

namespace Sessions

variable {M : System} {Req α β X : Type}

namespace World

theorem writeAll_error {w w' : World M} {i : Nat} {ds : List (Write M)} {e : M.Exn}
    (h : w.writeAll i ds = some (.error e, w')) :
    w'.db = w.db ∧ w'.tx i = { aborted := true } := by
  induction ds generalizing w with
  | nil => cases h
  | cons d ds ih =>
      unfold writeAll at h
      split at h
      · next w₁ hw =>
          obtain ⟨-, ⟨e, -, he, -⟩ | ⟨-, -, rfl⟩⟩ := write_cases hw
          · cases he
          · have := ih h
            rwa [put_db] at this
      · obtain ⟨-, ⟨e, -, -, rfl⟩ | ⟨-, he, -⟩⟩ := write_cases h
        · exact ⟨abort_db w i, abort_tx_self w i⟩
        · cases he

theorem writeAll_ok {w w' : World M} {i : Nat} {ds : List (Write M)}
    (h : w.writeAll i ds = some (.ok (), w')) :
    w'.db = w.db ∧ w'.tx i = { w.tx i with writes := (w.tx i).writes ++ ds } := by
  induction ds generalizing w with
  | nil =>
      cases h
      exact ⟨rfl, by rw [List.append_nil]⟩
  | cons d ds ih =>
      unfold writeAll at h
      split at h
      · next w₁ hw =>
          obtain ⟨-, ⟨e, -, he, -⟩ | ⟨-, -, rfl⟩⟩ := write_cases hw
          · cases he
          · obtain ⟨hdb, htx⟩ := ih h
            rw [put_tx_self, List.append_assoc] at htx
            exact ⟨hdb.trans (put_db w i d), htx⟩
      · next hno =>
          obtain ⟨-, ⟨e, -, he, -⟩ | ⟨-, -, rfl⟩⟩ := write_cases h
          · cases he
          · exact absurd h (hno _)

theorem writeAll_singleton {w w' : World M} {i : Nat} {d : Write M}
    (h : w.writeAll i [d] = some (.ok (), w')) :
    w.free i (d.locks (w.view i)) = true ∧ d.refusal (w.view i) = none ∧ w' = w.put i d := by
  have hd : w.write i d = some (.ok (), w') := by
    unfold writeAll at h
    split at h
    · next w₁ hw =>
        cases h
        exact hw
    · exact h
  obtain ⟨hfree, ⟨e, -, he, -⟩ | ⟨hr, -, rfl⟩⟩ := write_cases hd
  · cases he
  · exact ⟨hfree, hr, rfl⟩

/-- An upsert that nobody is in the way of. -/
theorem exec_upsert {w w' : World M} {i : Nat} {waits : List M.Index}
    {f : Db M → List (Write M) × X} (ha : (w.tx i).aborted = false)
    (hfree : w.free i (waits.map .entry) = true)
    (hwr : w.writeAll i (f (w.view i)).1 = some (.ok (), w')) :
    w.exec i {} (.upsert waits f) = some (.ok (f (w.view i)).2, w') := by
  simp [exec, sql, ha, hfree, hwr]

theorem exec_commit {w : World M} {i : Nat} (ha : (w.tx i).aborted = false)
    (hd : (w.tx i).dirty = []) : w.exec i {} .commit = some (.ok (), w.commit i) := by
  simp [exec, sql, ha, hd]

theorem writeAll_put {w : World M} {i : Nat} {d : Write M}
    (hfree : w.free i (d.locks (w.view i)) = true) (hr : d.refusal (w.view i) = none) :
    w.writeAll i [d] = some (.ok (), w.put i d) := by
  simp [writeAll, write, hfree, hr]

/-- A statement that raises has changed nothing, or its transaction failed. -/
theorem exec_error {w w' : World M} {i : Nat} {c : Choice M} {s : Stmt M X} {e : M.Exn}
    (h : w.exec i c s = some (.error e, w')) :
    w' = w ∨ w'.db = w.db ∧ w'.tx i = { aborted := true } := by
  have hsql : ∀ {auto : Bool} {body : Option (Except M.Exn X × World M)},
      w.sql i c auto body = some (.error e, w') → (body = some (.error e, w') →
        w' = w ∨ w'.db = w.db ∧ w'.tx i = { aborted := true }) →
      w' = w ∨ w'.db = w.db ∧ w'.tx i = { aborted := true } := by
    intro auto body hs hbody
    rcases sql_cases hs with ⟨e, -, ⟨-, rfl⟩ | rfl⟩ | ⟨-, -, hb⟩
    · exact Or.inl rfl
    · exact Or.inr ⟨abort_db w i, abort_tx_self w i⟩
    · exact hbody hb
  cases s with
  | get held k =>
      rw [exec_get] at h
      split at h
      · cases h
      · exact hsql h fun hb => by cases hb
  | lock t q =>
      refine hsql h fun hb => ?_
      split at hb
      · cases hb
      · split at hb <;> cases hb
  | refresh k =>
      refine hsql h fun hb => ?_
      split at hb
      · cases hb
        exact Or.inl rfl
      · cases hb
  | upsert waits f =>
      refine hsql h fun hb => ?_
      split at hb
      · simp only [Option.map_eq_some_iff] at hb
        obtain ⟨⟨r', w₁⟩, hw, hr⟩ := hb
        cases r' with
        | ok x => cases hr
        | error e' =>
            cases hr
            exact Or.inr (writeAll_error hw)
      · cases hb
  | await q =>
      simp only [exec, Option.map_eq_some_iff] at h
      obtain ⟨x, -, hx⟩ := h
      cases hx
  | shared f =>
      rw [exec_shared] at h
      split at h
      · cases h
        exact Or.inl rfl
      · cases h
  | stage d => cases h
  | rollback => cases h
  | fresh => cases h
  | now => cases h
  | select q => exact hsql h fun hb => by cases hb
  | load t q => exact hsql h fun hb => by cases hb
  | flush => exact hsql h fun hb => by cases hb
  | commit => exact hsql h fun hb => by cases hb

end World

namespace Observer

variable (O : Observer M Req)

/-- An invariant `Good` of the committed tables and what has been seen, and
what each session has to `Own` for it. -/
structure Discipline where
  Ghost : Type
  rest : Req → Ghost
  /-- Where a session is after its transaction is lost, and after it is
  committed. -/
  lost : Ghost → Ghost
  done : Ghost → Ghost
  /-- Whether a session may commit like this. -/
  Commits : Ghost → Prop
  /-- Whether a session may be somewhere else once it is answered. -/
  Minds : Ghost → {X : Type} → Stmt M X → Prop := fun _ _ _ => False
  Good : Db M → O.State → Prop
  Own : Ghost → Nat → World M → O.State → Prop
  guard : O.State → Guard M
  own_congr : ∀ {g i o} {w w' : World M}, w'.db = w.db → w'.tx i = w.tx i →
    (∀ l, w.holder l = some i → w'.holder l = some i) → Own g i w o → Own g i w' o
  own_remember : ∀ {g i o} {w : World M} (k : Key M), (w.tx i).dirty = [] → Own g i w o →
    Own g i (w.remember i k ((w.view i).lookup k)) o
  own_send : ∀ {g i o} {w : World M} {d : Write M} {ds : List (Write M)}, w.WF →
    Good w.db o → (guard o).flush w i → (w.tx i).dirty = d :: ds →
    w.free i (d.locks (w.view i)) = true → d.refusal (w.view i) = none → Own g i w o →
    Own g i ((w.put i d).setTx i
      { w.tx i with writes := (w.tx i).writes ++ [d], dirty := ds }) o
  own_lost : ∀ {g i o} {w w' : World M}, Good w.db o → Own g i w o → w'.db = w.db →
    (∃ b, w'.tx i = { aborted := b }) → Own (lost g) i w' o
  good_commit : ∀ {g i o} {w : World M} {c : Choice M}, Commits g → w.WF → Good w.db o →
    (w.tx i).dirty = [] → (guard o).exec w i Stmt.commit c → Own g i w o →
    Good (w.view i) (O.commit i (w.tx i).writes w.db (w.view i) o)
  own_done : ∀ {g i o} {w : World M} {c : Choice M}, Commits g → w.WF → Good w.db o →
    (w.tx i).dirty = [] → (guard o).exec w i Stmt.commit c → Own g i w o →
    Own (done g) i (w.commit i) (O.commit i (w.tx i).writes w.db (w.view i) o)
  own_commit : ∀ {g g' i j o} {w : World M} {c : Choice M}, j ≠ i → Commits g → w.WF →
    Good w.db o → (w.tx i).dirty = [] → (guard o).exec w i Stmt.commit c → Own g i w o →
    Own g' j w o → Own g' j (w.commit i) (O.commit i (w.tx i).writes w.db (w.view i) o)
  good_start : ∀ {db i o} (r : Req), Good db o → Good db (O.start i r o)
  own_start : ∀ {g i j o} {w : World M} (r : Req), j ≠ i → Own g j w o →
    Own g j w (O.start i r o)
  own_init : ∀ {i o} {w : World M} (r : Req), Good w.db (O.start i r o) → w.tx i = {} →
    Own (rest r) i w (O.start i r o)
  good_look : ∀ {g i o} {w w' : World M} {c : Choice M} {X : Type} {s : Stmt M X} {x : X},
    s.Quiet → w.WF → w.exec i c s = some (.ok x, w') → (guard o).exec w i s c → Good w.db o →
    Own g i w o → Good w.db (O.look i w s x o)
  own_look : ∀ {g i o} {w w' : World M} {c : Choice M} {X : Type} {s : Stmt M X} {x : X},
    ¬ Minds g s → w.exec i c s = some (.ok x, w') → (guard o).exec w i s c → Good w.db o →
    Own g i w o → Own g i w' o → Own g i w' (O.look i w s x o)
  look_other : ∀ {g i j o} {w : World M} {X : Type} (w₀ : World M) (s : Stmt M X) (x : X),
    j ≠ i → Own g j w o → Own g j w (O.look i w₀ s x o)
  good_crash : ∀ {db o} (i : Nat), Good db o → Good db (O.crash i o)
  own_crash : ∀ {g i j o} {w : World M}, j ≠ i → Own g j w o → Own g j w (O.crash i o)

namespace Discipline

variable {O} (D : O.Discipline)

/-- The logic of a discipline. -/
def logic : O.Logic where
  Inv w o := w.WF ∧ D.Good w.db o
  guard := D.guard
  Must w i s o :=
    match s with
    | .commit => ∃ g, D.Commits g ∧ D.Own g i w o
    | _ => True
  Rely i w o w' o' := World.Frame i w w' ∧ ∀ g, D.Own g i w o → D.Own g i w' o'
  refl i w _ := ⟨.refl i w, fun _ h => h⟩
  trans h h' := ⟨h.1.trans h'.1, fun g hg => h'.2 g (h.2 g hg)⟩
  wf h := h.1
  start r hi _ := ⟨⟨hi.1, D.good_start r hi.2⟩,
    fun j hj => ⟨.refl j _, fun _ hg => D.own_start r hj hg⟩⟩
  flush := by
    intro w o i w' hi hg hf
    obtain ⟨d, ds, hd, hfree, hr, hw'⟩ := World.flush_ok hf
    have hdb : w'.db = w.db := by rw [hw']; rfl
    refine ⟨⟨hi.1.flush hf, by rw [hdb]; exact hi.2⟩, ?_⟩
    intro j
    by_cases hj : j = i
    · subst hj
      refine ⟨.of_flush hf, ?_⟩
      intro g ho
      rw [hw']
      exact D.own_send hi.1 hi.2 hg hd hfree hr ho
    · have hdoes : World.DoesAll i w w' := .single (World.flush_does hf)
      refine ⟨World.Frame.of_doesAll hi.1 (Ne.symm hj) hdoes, fun g ho => ?_⟩
      exact D.own_congr hdb (hdoes.tx_of_ne hj) (fun l => (hdoes.holder_iff hj l).mpr) ho
  crash := by
    intro w o i hi
    refine ⟨⟨hi.1.reset i, D.good_crash i hi.2⟩, ?_⟩
    intro j hj
    have hdoes : World.DoesAll i w (w.reset i) := .single (World.does_reset w i)
    refine ⟨World.Frame.of_doesAll hi.1 (Ne.symm hj) hdoes, fun g ho => ?_⟩
    have hdb : (w.reset i).db = w.db := rfl
    exact D.own_crash hj
      (D.own_congr hdb (hdoes.tx_of_ne hj) (fun l => (hdoes.holder_iff hj l).mpr) ho)
  ambient := by
    intro w o m hi
    refine ⟨⟨⟨hi.1.keys, hi.1.entries, hi.1.held, hi.1.legal, hi.1.distinct,
      hi.1.taken⟩, hi.2⟩, ?_⟩
    intro j
    refine ⟨⟨rfl, rfl, ⟨[], by simp⟩, fun _ h => h, fun _ _ => rfl⟩, ?_⟩
    intro g hg
    exact D.own_congr (w := w) rfl rfl (fun _ h => h) hg

/-! ## What statements do -/

/-- With what has been seen fixed, and nothing committed, a plain discipline:
a session that has neither written nor staged anything is at rest. -/
def plain (o : O.State) : Sessions.Discipline M where
  Ghost := Option D.Ghost
  rest := none
  Commits g := g = none
  rest_commits := rfl
  Good db := D.Good db o
  Own
    | none, i, w => (w.tx i).writes = [] ∧ (w.tx i).dirty = []
    | some g, i, w => D.Own g i w o
  guard := D.guard o
  own_congr := by
    intro g i w w' hdb htx hl h
    cases g with
    | none =>
        dsimp only at h ⊢
        rw [htx]
        exact h
    | some g => exact D.own_congr hdb htx hl h
  own_init := by
    rintro i w - ⟨b, hb⟩
    dsimp only
    rw [hb]
    exact ⟨rfl, rfl⟩
  own_remember := by
    intro g i w k hd h
    cases g with
    | none => simpa [World.remember] using h
    | some g => exact D.own_remember k hd h
  own_send := by
    intro g i w d ds hw hgood hg hd hfree hr h
    cases g with
    | none =>
        have hnil := h.2
        rw [hd] at hnil
        cases hnil
    | some g => exact D.own_send hw hgood hg hd hfree hr h
  good_commit := by
    rintro g i w rfl - hgood - ⟨hnil, -⟩
    rw [World.view, hnil]
    exact hgood
  own_commit := by
    rintro g g' i j w hne rfl - - - ⟨hnil, -⟩ hj
    have hdb : (w.commit i).db = w.db := by
      rw [World.commit_db, World.view, hnil]
      rfl
    have htx : (w.commit i).tx j = w.tx j := World.commit_tx_of_ne w hne
    cases g' with
    | none =>
        dsimp only at hj ⊢
        rw [htx]
        exact hj
    | some g' => exact D.own_congr hdb htx (fun l hl => World.reset_holder_of_ne hne hl) hj

variable {D}

/-- What a statement that only reads leaves. -/
theorem own_quiet {w w' : World M} {o : O.State} {i : Nat} {g : D.Ghost} {c : Choice M}
    {s : Stmt M X} {r : Except M.Exn X} (hi : D.logic.Inv w o) (hq : s.Quiet)
    (ho : D.Own g i w o) (he : w.exec i c s = some (r, w')) :
    D.Own g i w' o ∨ D.Own (D.lost g) i w' o ∧ ∃ e, r = .error e := by
  have hown := (D.plain o).own_quiet (g := some g) hi hq ho he
  cases r with
  | ok x =>
      rcases hown with hown | ⟨-, e, he⟩
      · exact Or.inl hown
      · cases he
  | error e =>
      rcases World.exec_error he with rfl | ⟨hdb, htx⟩
      · exact Or.inl ho
      · exact Or.inr ⟨D.own_lost hi.2 ho hdb ⟨true, htx⟩, e, rfl⟩

/-- What a statement that does not commit does to the invariant and to the
others. -/
theorem exec_others {w w' : World M} {o : O.State} {i : Nat} {c : Choice M} {s : Stmt M X}
    {r : Except M.Exn X} (hi : D.logic.Inv w o) (he : w.exec i c s = some (r, w'))
    (hdb : w'.db = w.db) (hs : O.exec i w w' s r o = o) :
    D.logic.Inv w' (O.exec i w w' s r o) ∧
      ∀ j, j ≠ i → D.logic.Rely j w o w' (O.exec i w w' s r o) := by
  have hdoes := World.exec_does he
  rw [hs]
  refine ⟨⟨hi.1.exec he, by rw [hdb]; exact hi.2⟩, ?_⟩
  intro j hj
  refine ⟨World.Frame.of_doesAll hi.1 (Ne.symm hj) hdoes, fun g ho => ?_⟩
  exact D.own_congr hdb (hdoes.tx_of_ne hj) (fun l => (hdoes.holder_iff hj l).mpr) ho

theorem must_of_ne {w : World M} {i : Nat} {s : Stmt M X} {o : O.State}
    (hs : ¬ s.IsCommit) : D.logic.Must w i s o := by
  cases s with
  | commit => exact absurd trivial hs
  | _ => trivial

theorem exec_of_quiet {w w' : World M} {i : Nat} {s : Stmt M X} {x : X} {o : O.State}
    (hq : s.Quiet) : O.exec i w w' s (.ok x) o = O.look i w s x o := by
  cases s with
  | stage d => exact hq.elim
  | upsert waits f => exact hq.elim
  | commit => exact hq.elim
  | rollback => exact hq.elim
  | _ => rfl

theorem exec_eq_of_error {w w' : World M} {i : Nat} {s : Stmt M X} {e : M.Exn} {o : O.State} :
    O.exec i w w' s (.error e) o = o := by
  cases s <;> rfl

section Programs

variable {i : Nat} {w : World M} {o : O.State} {g : D.Ghost}

/-- A quiet statement, by what is to be had of its answer; with an exception,
the transaction may be lost. -/
theorem safe_see {Q : X → World M → O.State → Prop} {s : Stmt M X} (hq : s.Quiet)
    (h : ∀ w₁ o₁ c x w₂, w₁.WF → D.Good w₁.db o₁ → D.Own g i w₁ o₁ →
      w₁.exec i c s = some (.ok x, w₂) → (D.guard o₁).exec w₁ i s c → D.Own g i w₂ o₁ →
      Q x w₂ (O.look i w₁ s x o₁)) (ho : D.Own g i w o) :
    Safe D.logic i Q (fun _ w o => D.Own g i w o ∨ D.Own (D.lost g) i w o) (.perform s) w o := by
  have hc : ¬ s.IsCommit := by
    intro hc
    cases s with
    | commit => exact hq
    | _ => exact hc
  refine safe_perform ?_
  intro w₁ o₁ hr hi
  have ho₁ := hr.2 g ho
  refine ⟨must_of_ne hc, ?_⟩
  intro c r w₂ he hguard
  have hown := own_quiet hi hq ho₁ he
  have hdb := World.exec_db_of_quiet hq he
  cases r with
  | error e =>
      obtain ⟨h₁, h₂⟩ := exec_others hi he hdb exec_eq_of_error
      refine ⟨h₁, h₂, ?_⟩
      rw [exec_eq_of_error]
      exact hown.imp id And.left
  | ok x =>
      have ho₂ : D.Own g i w₂ o₁ := hown.resolve_right fun ⟨_, e, he⟩ => by cases he
      have hdoes := World.exec_does he
      rw [exec_of_quiet hq]
      refine ⟨⟨hi.1.exec he, ?_⟩, ?_, h w₁ o₁ c x w₂ hi.1 hi.2 ho₁ he hguard ho₂⟩
      · rw [hdb]
        exact D.good_look hq hi.1 he hguard hi.2 ho₁
      · intro j hj
        refine ⟨World.Frame.of_doesAll hi.1 (Ne.symm hj) hdoes, fun g' hg' => ?_⟩
        exact D.look_other w₁ s x hj
          (D.own_congr hdb (hdoes.tx_of_ne hj) (fun l => (hdoes.holder_iff hj l).mpr) hg')

/-- A quiet statement that the session does not mind leaves the ghost, and
what it answers may tell more. -/
theorem safe_query {Q : X → World M → O.State → Prop} {s : Stmt M X} (hq : s.Quiet)
    (hm : ¬ D.Minds g s)
    (h : ∀ w₁ o₁ c x w₂, w₁.WF → D.Good w₁.db o₁ → D.Own g i w₁ o₁ →
      w₁.exec i c s = some (.ok x, w₂) → D.Own g i w₂ (O.look i w₁ s x o₁) →
      Q x w₂ (O.look i w₁ s x o₁)) (ho : D.Own g i w o) :
    Safe D.logic i Q (fun _ w o => D.Own g i w o ∨ D.Own (D.lost g) i w o) (.perform s) w o := by
  refine safe_see hq ?_ ho
  intro w₁ o₁ c x w₂ hw hgood ho₁ he hguard ho₂
  exact h w₁ o₁ c x w₂ hw hgood ho₁ he (D.own_look hm he hguard hgood ho₁ ho₂)

theorem safe_quiet {s : Stmt M X} (hq : s.Quiet) (hm : ¬ D.Minds g s) (ho : D.Own g i w o) :
    Safe D.logic i (fun _ => D.Own g i) (fun _ w o => D.Own g i w o ∨ D.Own (D.lost g) i w o)
      (.perform s) w o :=
  safe_query hq hm (fun _ _ _ _ _ _ _ _ _ h => h) ho

/-- A query for objects, by what it answers. -/
theorem safe_load {t : M.Table} {q : Db M → List Nat}
    {Q : List (M.Row t) → World M → O.State → Prop} (hm : ¬ D.Minds g (.load t q))
    (h : ∀ w₁ o₁ alive w₂, w₁.WF → D.Good w₁.db o₁ → D.Own g i w₁ o₁ → w₂.db = w₁.db →
      let rows := (q (w₁.view i)).filterMap fun id => w₁.answer i alive ⟨t, id⟩
      D.Own g i w₂ (O.look i w₁ (.load t q) rows o₁) → Q rows w₂ (O.look i w₁ (.load t q) rows o₁))
    (ho : D.Own g i w o) :
    Safe D.logic i Q (fun _ w o => D.Own g i w o ∨ D.Own (D.lost g) i w o)
      (.perform (.load t q)) w o := by
  refine safe_query (s := .load t q) trivial hm ?_ ho
  intro w₁ o₁ c x w₂ hw hgood ho₁ he ho₂
  have hb := World.sql_ok he
  simp only [Option.some.injEq, Prod.mk.injEq, Except.ok.injEq] at hb
  obtain ⟨rfl, -⟩ := hb
  exact h w₁ o₁ c.alive w₂ hw hgood ho₁
    (World.exec_db_of_quiet (s := .load t q) trivial he) ho₂

/-- One write staged. -/
theorem safe_stage {g' : D.Ghost} {d : Write M}
    (h : ∀ w₁ o₁, w₁.WF → D.Good w₁.db o₁ → D.Own g i w₁ o₁ → D.Own g' i (w₁.stage i d) o₁)
    (ho : D.Own g i w o) :
    Safe D.logic i (fun _ => D.Own g' i) (fun _ _ _ => False) (.perform (.stage d)) w o := by
  refine safe_perform ?_
  intro w₁ o₁ hr hi
  refine ⟨trivial, ?_⟩
  intro c r w₂ he _
  cases he
  obtain ⟨h₁, h₂⟩ := exec_others hi (w := w₁) (c := c) (s := .stage d) rfl rfl rfl
  exact ⟨h₁, h₂, h w₁ o₁ hi.1 hi.2 (hr.2 g ho)⟩

/-- Writes past the unit of work, whose result tells where they lead. -/
theorem safe_upsert {waits : List M.Index} {f : Db M → List (Write M) × X} {leads : X → D.Ghost}
    (h : ∀ w₁ o₁ c, w₁.WF → D.Good w₁.db o₁ → D.Own g i w₁ o₁ →
      (D.guard o₁).exec w₁ i (.upsert waits f) c → w₁.free i (waits.map .entry) = true → ∀ w₂,
        w₁.writeAll i (f (w₁.view i)).1 = some (.ok (), w₂) →
        D.Own (leads (f (w₁.view i)).2) i w₂ o₁) (ho : D.Own g i w o) :
    Safe D.logic i (fun x => D.Own (leads x) i)
      (fun _ w o => D.Own g i w o ∨ D.Own (D.lost g) i w o) (.perform (.upsert waits f)) w o := by
  refine safe_perform ?_
  intro w₁ o₁ hr hi
  have ho₁ := hr.2 g ho
  refine ⟨trivial, ?_⟩
  intro c r w₂ he hguard
  have hs : O.exec i w₁ w₂ (.upsert waits f) r o₁ = o₁ := by cases r <;> rfl
  have hdb : w₂.db = w₁.db := by
    rcases World.exec_db he with hdb | ⟨-, -, hc⟩
    · exact hdb
    · exact hc.elim
  obtain ⟨h₁, h₂⟩ := exec_others hi he hdb hs
  refine ⟨h₁, h₂, ?_⟩
  rw [hs]
  cases r with
  | error e =>
      rcases World.exec_error he with rfl | ⟨hdb, htx⟩
      · exact Or.inl ho₁
      · exact Or.inr (D.own_lost hi.2 ho₁ hdb ⟨true, htx⟩)
  | ok x =>
      have hb := World.sql_ok he
      split at hb
      · next hfree =>
          simp only [Option.map_eq_some_iff] at hb
          obtain ⟨⟨r', w₃⟩, hwr, hr'⟩ := hb
          cases r' with
          | error e => cases hr'
          | ok u =>
              cases hr'
              exact h w₁ o₁ c hi.1 hi.2 ho₁ hguard hfree w₂ hwr
      · cases hb

/-- A commit. -/
theorem safe_commit (hg : D.Commits g) (ho : D.Own g i w o) :
    Safe D.logic i (fun _ => D.Own (D.done g) i)
      (fun _ w o => D.Own g i w o ∨ D.Own (D.lost g) i w o) (.perform .commit) w o := by
  refine safe_perform ?_
  intro w₁ o₁ hr hi
  have ho₁ := hr.2 g ho
  refine ⟨⟨g, hg, ho₁⟩, ?_⟩
  intro c r w₂ he hguard
  rcases World.sql_cases he with ⟨e, rfl, ⟨-, rfl⟩ | rfl⟩ | ⟨-, hd, hb⟩
  · exact ⟨hi, fun j _ => D.logic.refl j w₂ _, Or.inl ho₁⟩
  · obtain ⟨h₁, h₂⟩ := exec_others hi he (World.abort_db w₁ i) rfl
    exact ⟨h₁, h₂, Or.inr (D.own_lost hi.2 ho₁ (World.abort_db w₁ i)
      ⟨true, World.abort_tx_self w₁ i⟩)⟩
  · cases hb
    have hd := hd rfl
    have hdoes := World.exec_does he
    refine ⟨⟨hi.1.exec he, D.good_commit hg hi.1 hi.2 hd hguard ho₁⟩, ?_,
      D.own_done hg hi.1 hi.2 hd hguard ho₁⟩
    intro j hj
    refine ⟨World.Frame.of_doesAll hi.1 (Ne.symm hj) hdoes, ?_⟩
    exact fun g' hg' => D.own_commit hj hg hi.1 hi.2 hd hguard ho₁ hg'

/-- A rollback. -/
theorem safe_rollback (ho : D.Own g i w o) :
    Safe D.logic i (fun _ => D.Own (D.lost g) i) (fun _ _ _ => False) (.perform .rollback) w o := by
  refine safe_perform ?_
  intro w₁ o₁ hr hi
  refine ⟨trivial, ?_⟩
  intro c r w₂ he _
  cases he
  obtain ⟨h₁, h₂⟩ := exec_others hi (w := w₁) (c := c) (s := .rollback) rfl rfl rfl
  exact ⟨h₁, h₂, D.own_lost hi.2 (hr.2 g ho) rfl ⟨false, World.reset_tx_self w₁ i⟩⟩

end Programs

/-! ## Programs that leave a ghost alone -/

variable (D) in
/-- A ghost that ending a transaction leads back to. -/
structure Still (g : D.Ghost) : Prop where
  lost : D.lost g = g
  done : D.done g = g
  commits : D.Commits g
  minds : ∀ {X : Type} (s : Stmt M X), ¬ D.Minds g s

variable (D) in
/-- The program starts and ends in the ghost, however it ends. -/
def Keeps (g : D.Ghost) (p : Prog M β) : Prop :=
  ∀ i w o, D.Own g i w o → Safe D.logic i (fun _ => D.Own g i) (fun _ => D.Own g i) p w o

variable {g : D.Ghost}

theorem keeps_compositional : Prog.Compositional fun _ p => D.Keeps (M := M) g p where
  ret _ _ _ _ ho := ho
  raise _ _ _ _ ho := ho
  bind hp hf i w o ho :=
    safe_bind (safe_mono (fun a w₁ o₁ h₁ => hf a i w₁ o₁ h₁) (fun _ _ _ h₁ => h₁) (hp i w o ho))
  tryCatch hp hf i w o ho :=
    safe_tryCatch (safe_mono (fun _ _ _ h₁ => h₁) (fun e w₁ o₁ h₁ => hf e i w₁ o₁ h₁)
      (hp i w o ho))

variable (hg : D.Still g)

include hg

theorem keeps_quiet {s : Stmt M X} (hq : s.Quiet) : D.Keeps g (.perform s) := by
  intro i w o ho
  refine safe_mono (fun _ _ _ h => h) ?_ (safe_quiet hq (hg.minds s) ho)
  rw [hg.lost]
  exact fun _ _ _ h => h.elim id id

theorem keeps_commit : D.Keeps g (.perform .commit) := by
  intro i w o ho
  have h := safe_commit hg.commits ho
  rw [hg.lost, hg.done] at h
  exact safe_mono (fun _ _ _ h => h) (fun _ _ _ h => h.elim id id) h

theorem keeps_rollback : D.Keeps g (.perform .rollback) := by
  intro i w o ho
  have h := safe_rollback ho
  rw [hg.lost] at h
  exact safe_mono (fun _ _ _ h => h) (fun _ _ _ h => h.elim) h

omit hg in
theorem keeps_stage {d : Write M}
    (h : ∀ i w o, w.WF → D.Good w.db o → D.Own g i w o → D.Own g i (w.stage i d) o) :
    D.Keeps g (.perform (.stage d)) := fun _ _ _ ho =>
  safe_mono (fun _ _ _ h => h) (fun _ _ _ h => h.elim) (safe_stage (h _) ho)

theorem keeps_upsert {waits : List M.Index} {f : Db M → List (Write M) × X}
    (h : ∀ db, ∀ d ∈ (f db).1, ∀ i w o, w.WF → D.Good w.db o → D.Own g i w o →
      w.free i (d.locks (w.view i)) = true → d.refusal (w.view i) = none →
      D.Own g i (w.put i d) o) : D.Keeps g (.perform (.upsert waits f)) := by
  intro i w o ho
  have hsafe : Safe D.logic i (fun _ => D.Own g i)
      (fun _ w o => D.Own g i w o ∨ D.Own (D.lost g) i w o) (.perform (.upsert waits f)) w o := by
    refine @safe_upsert M Req X O D i w o g waits f (fun _ => g) ?_ ho
    intro w₁ o₁ _ hw hgood ho₁ _ _ w₂ hwr
    have hown := (D.plain o₁).own_writeAll (g := some g) hw hgood
      (fun d hd i w hw hgood ho hfree hr => h _ d hd i w o₁ hw hgood ho hfree hr) ho₁ hwr
    exact hown.resolve_right (fun ⟨_, e, he⟩ => by cases he)
  rw [hg.lost] at hsafe
  exact safe_mono (fun _ _ _ h => h) (fun _ _ _ h => h.elim id id) hsafe

omit hg

/-! ## Programs that take a session from one ghost to another -/

variable (D) in
/-- The program starts in `g` and ends in `g'` or, with an exception, in one
of `E`. -/
def Takes (g g' : D.Ghost) (E : D.Ghost → Prop) (p : Prog M β) : Prop :=
  ∀ i w o, D.Own g i w o →
    Safe D.logic i (fun _ => D.Own g' i) (fun _ w o => ∃ e, E e ∧ D.Own e i w o) p w o

section Takes

variable {γ : Type} {g' g'' : D.Ghost} {E E' : D.Ghost → Prop} {p : Prog M β}

theorem Keeps.takes (h : D.Keeps g p) (he : E g) : D.Takes g g E p := fun i w o ho =>
  safe_mono (fun _ _ _ h => h) (fun _ _ _ h => ⟨g, he, h⟩) (h i w o ho)

theorem takes_ret (b : β) : D.Takes g g E (.ret b) := fun _ _ _ h => h

theorem takes_raise (x : M.Exn) (he : E g) : D.Takes (M := M) (β := β) g g' E (.raise x) :=
  fun _ _ _ h => ⟨g, he, h⟩

theorem Takes.bind {f : β → Prog M γ} (h : D.Takes g g' E p) (hf : ∀ b, D.Takes g' g'' E (f b)) :
    D.Takes g g'' E (p.bind f) := fun i w o ho =>
  safe_bind (safe_mono (fun b w₁ o₁ h₁ => hf b i w₁ o₁ h₁) (fun _ _ _ h₁ => h₁) (h i w o ho))

/-- A program whose exceptions are looked at, and what follows. -/
theorem Takes.attempt {f : Except M.Exn β → Prog M γ} (h : D.Takes g g' E p)
    (hok : ∀ b, D.Takes g' g'' E' (f (.ok b)))
    (herror : ∀ x e, E e → D.Takes e g'' E' (f (.error x))) :
    D.Takes g g'' E' (p.attempt.bind f) := fun i w o ho =>
  safe_bind (safe_attempt (safe_mono (fun b w₁ o₁ h₁ => hok b i w₁ o₁ h₁)
    (fun x w₁ o₁ ⟨e, he, h₁⟩ => herror x e he i w₁ o₁ h₁) (h i w o ho)))

theorem Takes.ensuring {fin : Prog M Unit} (h : D.Takes g g' E p) (hok : D.Takes g' g'' E' fin)
    (herror : ∀ e, E e → ∃ e', E' e' ∧ D.Takes e e' E' fin) :
    D.Takes g g'' E' (p.ensuring fin) := by
  refine h.attempt (fun b => hok.bind fun _ => takes_ret b) fun x e he => ?_
  obtain ⟨e', he', hfin⟩ := herror e he
  exact hfin.bind fun _ => takes_raise x he'

/-- What a statement that fails leaves. -/
theorem takes_of_fail {s : Stmt M X} (he : E g) (hl : E (D.lost g))
    (h : ∀ i w o, D.Own g i w o → Safe D.logic i (fun _ => D.Own g' i)
      (fun _ w o => D.Own g i w o ∨ D.Own (D.lost g) i w o) (.perform s) w o) :
    D.Takes g g' E (.perform s) := fun i w o ho =>
  safe_mono (fun _ _ _ h => h) (fun _ _ _ h => h.elim (⟨g, he, ·⟩) (⟨_, hl, ·⟩)) (h i w o ho)

theorem takes_quiet {s : Stmt M X} (hq : s.Quiet) (hm : ¬ D.Minds g s) (he : E g)
    (hl : E (D.lost g)) : D.Takes g g E (.perform s) :=
  takes_of_fail he hl fun _ _ _ ho => safe_quiet hq hm ho

theorem takes_commit (hc : D.Commits g) (he : E g) (hl : E (D.lost g)) :
    D.Takes g (D.done g) E (.perform .commit) :=
  takes_of_fail he hl fun _ _ _ ho => safe_commit hc ho

theorem takes_rollback : D.Takes g (D.lost g) E (.perform .rollback) := fun _ _ _ ho =>
  safe_mono (fun _ _ _ h => h) (fun _ _ _ h => h.elim) (safe_rollback ho)

theorem takes_stage {d : Write M}
    (h : ∀ i w o, w.WF → D.Good w.db o → D.Own g i w o → D.Own g' i (w.stage i d) o) :
    D.Takes g g' E (.perform (.stage d)) := fun _ _ _ ho =>
  safe_mono (fun _ _ _ h => h) (fun _ _ _ h => h.elim) (safe_stage (h _) ho)

end Takes

/-! ## Programs that end in one of several ghosts -/

variable (D) in
/-- The program starts in `g` and ends, with what it returns, in one of `G`
or, with an exception, in one of `E`. -/
def Reaches (g : D.Ghost) (G : β → D.Ghost → Prop) (E : D.Ghost → Prop) (p : Prog M β) : Prop :=
  ∀ i w o, D.Own g i w o → Safe D.logic i (fun b w o => ∃ e, G b e ∧ D.Own e i w o)
    (fun _ w o => ∃ e, E e ∧ D.Own e i w o) p w o

section Reaches

variable {γ : Type} {g' : D.Ghost} {G : β → D.Ghost → Prop} {G' : γ → D.Ghost → Prop}
  {E E' : D.Ghost → Prop} {p : Prog M β}

theorem Takes.reaches (h : D.Takes g g' E p) (hG : ∀ b, G b g') : D.Reaches g G E p :=
  fun i w o ho => safe_mono (fun b _ _ h₁ => ⟨g', hG b, h₁⟩) (fun _ _ _ h₁ => h₁) (h i w o ho)

theorem Reaches.takes (h : D.Reaches g (fun _ e => e = g') E p) : D.Takes g g' E p :=
  fun i w o ho => safe_mono (fun _ _ _ ⟨_, he, h₁⟩ => he ▸ h₁) (fun _ _ _ h₁ => h₁) (h i w o ho)

theorem reaches_ret (b : β) (hG : G b g) : D.Reaches (M := M) g G E (.ret b) :=
  fun _ _ _ h => ⟨g, hG, h⟩

theorem reaches_raise (x : M.Exn) (he : E g) : D.Reaches (M := M) g G E (.raise x) :=
  fun _ _ _ h => ⟨g, he, h⟩

theorem Reaches.bind {f : β → Prog M γ} (h : D.Reaches g G E p)
    (hf : ∀ b e, G b e → D.Reaches e G' E (f b)) : D.Reaches g G' E (p.bind f) :=
  fun i w o ho => safe_bind (safe_mono (fun b w₁ o₁ ⟨e, he, h₁⟩ => hf b e he i w₁ o₁ h₁)
    (fun _ _ _ h₁ => h₁) (h i w o ho))

theorem Takes.reaches_bind {f : β → Prog M γ} (h : D.Takes g g' E p)
    (hf : ∀ b, D.Reaches g' G' E (f b)) : D.Reaches g G' E (p.bind f) :=
  (h.reaches (G := fun _ e => e = g') fun _ => rfl).bind fun b e he => by
    subst he
    exact hf b

theorem Reaches.attempt {f : Except M.Exn β → Prog M γ} (h : D.Reaches g G E p)
    (hok : ∀ b e, G b e → D.Reaches e G' E' (f (.ok b)))
    (herror : ∀ x e, E e → D.Reaches e G' E' (f (.error x))) :
    D.Reaches g G' E' (p.attempt.bind f) := fun i w o ho =>
  safe_bind (safe_attempt (safe_mono (fun b w₁ o₁ ⟨e, he, h₁⟩ => hok b e he i w₁ o₁ h₁)
    (fun x w₁ o₁ ⟨e, he, h₁⟩ => herror x e he i w₁ o₁ h₁) (h i w o ho)))

theorem Reaches.ensuring {fin : Prog M Unit} {G'' : β → D.Ghost → Prop} (h : D.Reaches g G E p)
    (hok : ∀ b e, G b e → D.Reaches e (fun _ => G'' b) E' fin)
    (herror : ∀ e, E e → D.Reaches e (fun _ => E') E' fin) :
    D.Reaches g G'' E' (p.ensuring fin) :=
  h.attempt (fun b e he => (hok b e he).bind fun _ _ he' => reaches_ret b he')
    fun x e he => (herror e he).bind fun _ _ he' => reaches_raise x he'

end Reaches

/-- Requests that keep a discipline are served under its logic. -/
theorem serves {handler : Req → Prog M α} (h : ∀ r, D.Keeps (D.rest r) (handler r)) :
    D.logic.Serves (fun _ _ _ _ => True) handler := by
  intro r i w o hi hidle
  exact safe_mono (fun _ _ _ _ => trivial) (fun _ _ _ _ => trivial)
    (h r i w _ (D.own_init r hi.2 hidle.1))

/-- A step that changes the committed tables is the commit of a session that
has what it takes. -/
theorem step_db {handler : Req → Prog M α} {Q : Nat → α → World M → O.State → Prop}
    {C C' : Conf M α} {o : O.State} {l : Label M Req} (h : D.logic.Sound Q C o)
    (hg : (D.guard o).Meets C l) (hs : C.step handler l = some C') :
    C'.world.db = C.world.db ∨ ∃ i c g, (D.guard o).exec C.world i Stmt.commit c ∧
      D.Commits g ∧ D.Own g i C.world o ∧ (C.world.tx i).dirty = [] ∧ l = .exec i c ∧
      C'.world.db = C.world.view i := by
  rcases Conf.step_db hs with hdb | ⟨i, c, k, rfl, hp, hd, hdb⟩
  · exact Or.inl hdb
  · simp only [Guard.Meets, hp] at hg
    obtain ⟨w₀, o₀, hr, hsafe⟩ := h.safe i _ hp
    obtain ⟨g, hcommits, hown⟩ := (hsafe C.world o hr h.inv).1
    exact Or.inr ⟨i, c, g, hg, hcommits, hown, hd, rfl, hdb⟩

end Discipline

end Observer

end Sessions
