import Adehun.Sessions.Watched

/-!
# What a session has been told

A program decides what it writes by the answers it has been given. While it
goes on, so do the others, and whether its answers still hold when it commits
is their business too; but that every commit is one its own answers call for
is a property of the program alone. A `Diary` says which answers are noted,
and which writes a session may commit in view of its notes. A program that
`Abides` by a diary does so whatever it is answered, and then every commit of
every run is of that kind. What remains of a property of runs is what such
commits do to the tables, one after the other.
-/

namespace Sessions

variable {M : System} {Req α β γ X : Type}

/-- Which answers are noted, and what the notes permit. -/
structure Diary (M : System) where
  Note : Type
  /-- What is noted of an answer, and of the committed tables and the shared
  store at the time. -/
  note : {X : Type} → Db M → M.Shared → Stmt M X → X → List Note
  /-- What a note becomes when the session itself commits a write. -/
  revise : Write M → Note → Note
  /-- The writes that have to be permitted, and what all writes keep to. -/
  decided : Write M → Bool
  Kept : Write M → Prop
  Permits : List Note → List (Write M) → Prop

namespace Diary

variable (D : Diary M)

/-- The notes of a session, and what it has asked for of the writes that have
to be permitted. -/
@[ext] structure Page where
  notes : List D.Note
  batch : List (Write M)

/-- The notes after the session has committed some writes. -/
def revised (ds : List (Write M)) (ns : List D.Note) : List D.Note :=
  ns.map fun n => ds.foldl (fun n d => D.revise d n) n

namespace Page

variable {D}

/-- The transaction is rolled back, or has failed. -/
def lost (p : D.Page) : D.Page := { p with batch := [] }

def done (p : D.Page) : D.Page := { notes := D.revised p.batch p.notes, batch := [] }

def add (p : D.Page) (d : Write M) : D.Page :=
  { p with batch := p.batch ++ [d].filter D.decided }

def noted (p : D.Page) (ns : List D.Note) : D.Page := { p with notes := ns ++ p.notes }

@[simp] theorem lost_notes (p : D.Page) : p.lost.notes = p.notes := rfl
@[simp] theorem lost_batch (p : D.Page) : p.lost.batch = [] := rfl
@[simp] theorem done_notes (p : D.Page) : p.done.notes = D.revised p.batch p.notes := rfl
@[simp] theorem done_batch (p : D.Page) : p.done.batch = [] := rfl
@[simp] theorem add_notes (p : D.Page) (d : Write M) : (p.add d).notes = p.notes := rfl

theorem add_of_decided {p : D.Page} {d : Write M} (h : D.decided d = true) :
    p.add d = { p with batch := p.batch ++ [d] } := by
  rw [add, List.filter_cons_of_pos h, List.filter_nil]

theorem add_of_not_decided {p : D.Page} {d : Write M} (h : D.decided d = false) : p.add d = p := by
  rw [add, List.filter_cons_of_neg (by rw [h]; decide), List.filter_nil, List.append_nil]

@[simp] theorem noted_notes (p : D.Page) (ns : List D.Note) :
    (p.noted ns).notes = ns ++ p.notes := rfl
@[simp] theorem noted_batch (p : D.Page) (ns : List D.Note) : (p.noted ns).batch = p.batch := rfl

end Page

/-- What is known of an answer to a session that sees `v`. -/
def Answers (v : Db M) (m : M.Shared) : {X : Type} → Stmt M X → X → Prop
  | _, .select q, x => x = q v
  | _, .load t q, rows => (∀ r ∈ rows, M.id r ∈ q v) ∧
      ∀ id ∈ q v, (v.lookup ⟨t, id⟩).isSome → ∃ r ∈ rows, M.id r = id
  | _, .get _ k, found => ∀ r, found = some r → M.id r = k.id
  | _, .shared f, x => x = (f m).2
  | _, _, _ => True

/-- Where a statement may lead. It is answered over committed tables under
those of its own writes that have been sent. -/
def Follows : {X : Type} → Stmt M X → D.Page → Except M.Exn X → D.Page → Prop
  | _, .stage _, _, .error _, _ | _, .rollback, _, .error _, _ => False
  | _, _, p, .error _, p' => p' = p ∨ p' = p.lost
  | _, .stage d, p, .ok _, p' => p' = p.add d
  | _, .upsert _ f, p, .ok x, p' => (∃ v, x = (f v).2) ∧ p' = p
  | _, .commit, p, .ok _, p' => p' = p.done
  | _, .rollback, p, .ok _, p' => p' = p.lost
  | _, s, p, .ok x, p' => ∃ (db : Db M) (ds : List (Write M)) (m : M.Shared),
      (∀ d ∈ ds, D.Kept d) ∧ ds.filter D.decided <+: p.batch ∧
        Answers (db.applyAll ds) m s x ∧ p' = p.noted (D.note db m s x)

/-- What a statement needs. What is written past the unit of work is nothing
that has to be permitted. -/
def Allows : {X : Type} → Stmt M X → D.Page → Prop
  | _, .commit, p => D.Permits p.notes p.batch
  | _, .stage d, _ => D.Kept d
  | _, .upsert _ f, _ => ∀ v, ∀ d ∈ (f v).1, D.Kept d ∧ D.decided d = false
  | _, _, _ => True

/-- Program `p` commits what its answers permit, and ends in `Q` or, with an
exception, in `E`. -/
def Abides (Q : β → D.Page → Prop) (E : M.Exn → D.Page → Prop) : Prog M β → D.Page → Prop
  | .ret b, p => Q b p
  | .raise e, p => E e p
  | .call s k, p => D.Allows s p ∧ ∀ r p', D.Follows s p r p' → Abides Q E (k r) p'

variable {D}

section Abides

variable {p : Prog M β} {a : D.Page}

theorem Abides.mono {Q Q' : β → D.Page → Prop} {E E' : M.Exn → D.Page → Prop}
    (hQ : ∀ b a, Q b a → Q' b a) (hE : ∀ e a, E e a → E' e a) (h : D.Abides Q E p a) :
    D.Abides Q' E' p a := by
  induction p generalizing a with
  | ret b => exact hQ b a h
  | raise e => exact hE e a h
  | call s k ih => exact ⟨h.1, fun r a' hf => ih r (h.2 r a' hf)⟩

theorem Abides.bind {Q : γ → D.Page → Prop} {E : M.Exn → D.Page → Prop} {f : β → Prog M γ}
    (h : D.Abides (fun b a => D.Abides Q E (f b) a) E p a) : D.Abides Q E (p.bind f) a := by
  induction p generalizing a with
  | ret b => exact h
  | raise e => exact h
  | call s k ih => exact ⟨h.1, fun r a' hf => ih r (h.2 r a' hf)⟩

theorem Abides.tryCatch {Q : β → D.Page → Prop} {E : M.Exn → D.Page → Prop}
    {f : M.Exn → Prog M β} (h : D.Abides Q (fun e a => D.Abides Q E (f e) a) p a) :
    D.Abides Q E (p.tryCatch f) a := by
  induction p generalizing a with
  | ret b => exact h
  | raise e => exact h
  | call s k ih => exact ⟨h.1, fun r a' hf => ih r (h.2 r a' hf)⟩

end Abides

/-! ## From one predicate to the next -/

variable (D) in
/-- The program abides from where `P` holds, and ends in `Q` or, with an
exception, in `R`. -/
def Runs (P : D.Page → Prop) (p : Prog M β) (Q : β → D.Page → Prop) (R : D.Page → Prop) : Prop :=
  ∀ a, P a → D.Abides Q (fun _ => R) p a

namespace Runs

variable {P P' R R' : D.Page → Prop} {Q Q' : β → D.Page → Prop} {Q'' : γ → D.Page → Prop}
  {p : Prog M β}

theorem ret {b : β} (h : ∀ a, P a → Q b a) : D.Runs P (.ret b) Q R := h

theorem raise {e : M.Exn} (h : ∀ a, P a → R a) : D.Runs P (.raise e : Prog M β) Q R := h

theorem conseq (h : D.Runs P p Q R) (hP : ∀ a, P' a → P a) (hQ : ∀ b a, Q b a → Q' b a)
    (hR : ∀ a, R a → R' a) : D.Runs P' p Q' R' :=
  fun a ha => (h a (hP a ha)).mono hQ fun _ => hR

theorem bind {f : β → Prog M γ} (h : D.Runs P p Q R) (hf : ∀ b, D.Runs (Q b) (f b) Q'' R) :
    D.Runs P (p.bind f) Q'' R :=
  fun a ha => .bind ((h a ha).mono hf fun _ _ h => h)

/-- A program whose exceptions are looked at, and what follows. -/
theorem attempt {f : Except M.Exn β → Prog M γ} (h : D.Runs P p Q R')
    (hok : ∀ b, D.Runs (Q b) (f (.ok b)) Q'' R) (herror : ∀ e, D.Runs R' (f (.error e)) Q'' R) :
    D.Runs P (p.attempt.bind f) Q'' R :=
  fun a ha => .bind (.tryCatch (.bind ((h a ha).mono hok herror)))

theorem sequential (h : ∀ a, P a → R a) : Prog.Sequential fun _ p => D.Runs P p (fun _ => P) R where
  ret _ := ret fun _ ha => ha
  raise _ := raise h
  bind hp hf := hp.bind hf

theorem compositional : Prog.Compositional fun _ p => D.Runs R p (fun _ => R) R where
  toSequential := sequential fun _ ha => ha
  tryCatch hp hf a ha := .tryCatch ((hp a ha).mono (fun _ _ h => h) hf)

theorem perform {s : Stmt M X} {Q : X → D.Page → Prop} (hs : ∀ a, P a → D.Allows s a)
    (hok : ∀ a x a', P a → D.Follows s a (.ok x) a' → Q x a')
    (hR : ∀ a, P a → R a) (hlost : ∀ a, P a → R a.lost) :
    D.Runs P (.perform s) Q R := by
  intro a ha
  refine ⟨hs a ha, ?_⟩
  intro r a' hf
  cases r with
  | ok x => exact hok a x a' ha hf
  | error e =>
      have hf' : a' = a ∨ a' = a.lost := by
        cases s with
        | stage d => exact hf.elim
        | rollback => exact hf.elim
        | _ => exact hf
      rcases hf' with rfl | rfl
      · exact hR a' ha
      · exact hlost a ha

section Statements

variable (hR : ∀ a, P a → R a) (hlost : ∀ a, P a → R a.lost)

include hR hlost

/-- A statement that only reads, by what it answers. -/
theorem quiet {s : Stmt M X} {Q : X → D.Page → Prop} (hs : s.Quiet)
    (h : ∀ a x db ds m, P a → (∀ d ∈ ds, D.Kept d) → ds.filter D.decided <+: a.batch →
      Answers (db.applyAll ds) m s x → Q x (a.noted (D.note db m s x))) :
    D.Runs P (.perform s) Q R := by
  refine perform ?_ ?_ hR hlost
  · intro a _
    cases s with
    | stage d => exact hs.elim
    | upsert waits f => exact hs.elim
    | commit => exact hs.elim
    | _ => trivial
  · intro a x a' ha hf
    have hnoted : ∃ (db : Db M) (ds : List (Write M)) (m : M.Shared),
        (∀ d ∈ ds, D.Kept d) ∧ ds.filter D.decided <+: a.batch ∧
          Answers (db.applyAll ds) m s x ∧ a' = a.noted (D.note db m s x) := by
      cases s with
      | stage d => exact hs.elim
      | upsert waits f => exact hs.elim
      | commit => exact hs.elim
      | rollback => exact hs.elim
      | _ => exact hf
    obtain ⟨db, ds, m, hkept, hsent, hx, rfl⟩ := hnoted
    exact h a x db ds m ha hkept hsent hx

theorem commit (hc : ∀ a, P a → D.Permits a.notes a.batch) {Q : Unit → D.Page → Prop}
    (h : ∀ a, P a → Q () a.done) : D.Runs P (.perform .commit) Q R := by
  refine perform hc ?_ hR hlost
  rintro a x a' ha rfl
  exact h a ha

theorem upsert {waits : List M.Index} {f : Db M → List (Write M) × X} {Q : X → D.Page → Prop}
    (hf : ∀ v, ∀ d ∈ (f v).1, D.Kept d ∧ D.decided d = false)
    (h : ∀ a v, P a → Q (f v).2 a) : D.Runs P (.perform (.upsert waits f)) Q R := by
  refine perform (fun _ _ => hf) ?_ hR hlost
  rintro a x a' ha ⟨⟨v, rfl⟩, rfl⟩
  exact h a' v ha

omit hR hlost

theorem stage {d : Write M} (hd : D.Kept d) {Q : Unit → D.Page → Prop}
    (h : ∀ a, P a → Q () (a.add d)) : D.Runs P (.perform (.stage d)) Q R := by
  intro a ha
  refine ⟨hd, ?_⟩
  intro r a' hf
  cases r with
  | ok x =>
      rw [show a' = a.add d from hf]
      exact h a ha
  | error e => exact hf.elim

theorem rollback {Q : Unit → D.Page → Prop} (h : ∀ a, P a → Q () a.lost) :
    D.Runs P (.perform .rollback) Q R := by
  intro a ha
  refine ⟨trivial, ?_⟩
  intro r a' hf
  cases r with
  | ok x =>
      rw [show a' = a.lost from hf]
      exact h a ha
  | error e => exact hf.elim

end Statements

end Runs

/-! ## The diaries of a run -/

variable (D) in
/-- What the sessions of a run have noted since their requests arrived. -/
abbrev observer (Req : Type) : Observer M Req where
  State := Nat → List D.Note
  start i _ o := Function.update o i []
  look i w _ s x o := Function.update o i (D.note w.db w.shared s x ++ o i)
  commit i ds _ _ o := Function.update o i (D.revised (ds.filter D.decided) (o i))

variable (D) in
def page (i : Nat) (w : World M) (o : Nat → List D.Note) : D.Page where
  notes := o i
  batch := ((w.tx i).writes ++ (w.tx i).dirty).filter D.decided

variable (D) in
/-- The objects of a session are filed under their own keys, and its writes
keep to what all writes do. -/
structure Honest (i : Nat) (w : World M) : Prop where
  filed : ∀ k r, (w.tx i).objects k = some r → M.id r = k.id
  kept : ∀ d ∈ (w.tx i).writes ++ (w.tx i).dirty, D.Kept d

section Sound

variable {i j : Nat} {w w' : World M} {o o' : Nat → List D.Note} {c : Choice M}

theorem page_congr (htx : w'.tx i = w.tx i) (ho : o' i = o i) : D.page i w' o' = D.page i w o := by
  rw [page, page, htx, ho]

theorem Honest.congr (h : D.Honest i w) (htx : w'.tx i = w.tx i) : D.Honest i w' :=
  ⟨by rw [htx]; exact h.filed, by rw [htx]; exact h.kept⟩

theorem honest_of_fresh {b : Bool} (htx : w.tx i = { aborted := b }) : D.Honest i w := by
  refine ⟨?_, ?_⟩
  · intro k r hr
    rw [htx] at hr
    cases hr
  · rw [htx]
    exact fun d hd => by cases hd

theorem page_of_fresh {b : Bool} (htx : w.tx i = { aborted := b }) :
    D.page i w o = { notes := o i, batch := [] } := by
  rw [page, htx]
  rfl

/-- A session has read something: its writes are the same, and its objects are
filed under their own keys. -/
structure HasRead (i : Nat) (w w' : World M) : Prop where
  writes : (w'.tx i).writes = (w.tx i).writes
  dirty : (w'.tx i).dirty = (w.tx i).dirty
  filed : ∀ k r, (w'.tx i).objects k = some r → M.id r = k.id

theorem Honest.hasRead (h : D.Honest i w) (htx : w'.tx = w.tx) : HasRead i w w' :=
  ⟨by rw [htx], by rw [htx], by rw [htx]; exact h.filed⟩

theorem Honest.remember (h : D.Honest i w) {w₁ : World M} (htx : w₁.tx = w.tx) {k : Key M}
    {r : Option (M.Row k.table)} (hid : ∀ r', r = some r' → M.id r' = k.id) :
    HasRead i w (w₁.remember i k r) := by
  refine ⟨by simp [World.remember, htx], by simp [World.remember, htx], ?_⟩
  intro k' r' hr'
  simp only [World.remember, World.setTx_tx_self, htx] at hr'
  by_cases hk : k' = k
  · subst hk
    rw [Function.update_self] at hr'
    exact hid r' hr'
  · rw [Function.update_of_ne hk] at hr'
    exact h.filed k' r' hr'

/-- A row in an answer has the key that was asked for. -/
theorem Honest.answer (h : D.Honest i w) {alive : Bool} {k : Key M} {r : M.Row k.table}
    (hr : w.answer i alive k = some r) : M.id r = k.id := by
  unfold World.answer at hr
  split at hr
  · next o ho =>
      split at hr
      · exact h.filed k r (ho.trans hr)
      · exact Db.lookup_id hr
  · exact Db.lookup_id hr

theorem Honest.load (h : D.Honest i w) {t : M.Table} {q : Db M → List Nat}
    {rows : List (M.Row t)} (he : w.exec i c (.load t q) = some (.ok rows, w')) :
    HasRead i w w' ∧ Answers (w.view i) w.shared (.load t q) rows := by
  have hb := World.sql_ok he
  simp only [Option.some.injEq, Prod.mk.injEq, Except.ok.injEq] at hb
  obtain ⟨hrows, rfl⟩ := hb
  obtain ⟨hwrites, hdirty, -⟩ := World.rememberAll_tx w i c.alive ((q (w.view i)).map (Key.mk t))
  refine ⟨⟨hwrites, hdirty, ?_⟩, ?_, ?_⟩
  · intro k r hr
    rcases World.rememberAll_objects _ _ hr with ho | hv
    · exact h.filed k r ho
    · exact Db.lookup_id hv
  · intro r hr
    rw [← hrows, List.mem_filterMap] at hr
    obtain ⟨id, hid, hr⟩ := hr
    have hkey : M.id r = id := h.answer hr
    rw [hkey]
    exact hid
  · intro id hid hv
    obtain ⟨r, hr⟩ := Option.isSome_iff_exists.mp (w.answer_isSome c.alive hv)
    rw [← hrows]
    exact ⟨r, List.mem_filterMap.mpr ⟨id, hid, hr⟩, h.answer hr⟩

theorem Honest.get (h : D.Honest i w) {held : Bool} {k : Key M} {found : Option (M.Row k.table)}
    (he : w.exec i c (.get held k) = some (.ok found, w')) :
    HasRead i w w' ∧ Answers (w.view i) w.shared (.get held k) found := by
  rw [World.exec_get] at he
  split at he
  · next r hobj _ =>
      cases he
      exact ⟨h.hasRead rfl, fun r' hr' => h.filed k r' (hobj.trans hr')⟩
  · have hb := World.sql_ok he
    simp only [Option.some.injEq, Prod.mk.injEq, Except.ok.injEq] at hb
    obtain ⟨hfound, rfl⟩ := hb
    exact ⟨h.remember rfl fun r' hr' => Db.lookup_id hr',
      fun r hr => Db.lookup_id (hfound.trans hr)⟩

theorem Honest.lock (h : D.Honest i w) {t : M.Table} {q : Db M → Option Nat}
    {found : Option (M.Row t)} (he : w.exec i c (.lock t q) = some (.ok found, w')) :
    HasRead i w w' := by
  have hb := World.sql_ok he
  split at hb
  · simp only [Option.some.injEq, Prod.mk.injEq] at hb
    obtain ⟨-, rfl⟩ := hb
    exact h.hasRead rfl
  · split at hb
    · simp only [Option.some.injEq, Prod.mk.injEq] at hb
      obtain ⟨-, rfl⟩ := hb
      exact h.remember (World.acquire_tx _ _ _) fun r' hr' => h.answer hr'
    · cases hb

/-- What a statement that only reads makes of the transaction, and its
answer. -/
theorem Honest.quiet (h : D.Honest i w) {s : Stmt M X} {x : X} (hs : s.Quiet)
    (he : w.exec i c s = some (.ok x, w')) :
    HasRead i w w' ∧ Answers (w.view i) w.shared s x := by
  cases s with
  | stage d => exact hs.elim
  | upsert waits f => exact hs.elim
  | commit => exact hs.elim
  | rollback => exact hs.elim
  | select q =>
      have hb := World.sql_ok he
      simp only [Option.some.injEq, Prod.mk.injEq, Except.ok.injEq] at hb
      obtain ⟨hx, rfl⟩ := hb
      exact ⟨h.hasRead rfl, hx.symm⟩
  | load t q => exact h.load he
  | get held k => exact h.get he
  | lock t q => exact ⟨h.lock he, trivial⟩
  | refresh k =>
      have hb := World.sql_ok he
      split at hb
      · cases hb
      · next r hr =>
          simp only [Option.some.injEq, Prod.mk.injEq] at hb
          obtain ⟨-, rfl⟩ := hb
          exact ⟨h.remember rfl fun r' hr' => Db.lookup_id (hr.trans hr'), trivial⟩
  | flush =>
      have hb := World.sql_ok he
      simp only [Option.some.injEq, Prod.mk.injEq] at hb
      obtain ⟨-, rfl⟩ := hb
      exact ⟨h.hasRead rfl, trivial⟩
  | await q =>
      simp only [World.exec, Option.map_eq_some_iff] at he
      obtain ⟨r, -, hr⟩ := he
      cases hr
      exact ⟨h.hasRead rfl, trivial⟩
  | shared f =>
      rw [World.exec_shared] at he
      split at he
      · cases he
      · cases he
        exact ⟨h.hasRead rfl, rfl⟩
  | fresh =>
      cases he
      exact ⟨h.hasRead rfl, trivial⟩
  | now =>
      cases he
      exact ⟨h.hasRead rfl, trivial⟩

theorem Honest.filed_stage (h : D.Honest i w) (d : Write M) (k : Key M) (r : M.Row k.table)
    (hr : ((w.stage i d).tx i).objects k = some r) : M.id r = k.id := by
  simp only [World.stage, World.setTx_tx_self] at hr
  cases d with
  | insert t r' =>
      by_cases hk : k = ⟨t, M.id r'⟩
      · subst hk
        simp only [Function.update_self, Option.some.injEq] at hr
        rw [hr]
      · simp only [Function.update_of_ne hk] at hr
        exact h.filed k r hr
  | update t id f =>
      by_cases hk : k = ⟨t, id⟩
      · subst hk
        simp only [Function.update_self, Option.map_eq_some_iff] at hr
        obtain ⟨r', hr', rfl⟩ := hr
        exact (f.id_run r').trans (h.filed ⟨t, id⟩ r' hr')
      · simp only [Function.update_of_ne hk] at hr
        exact h.filed k r hr
  | delete t id =>
      by_cases hk : k = ⟨t, id⟩
      · subst hk
        simp only [Function.update_self] at hr
        cases hr
      · simp only [Function.update_of_ne hk] at hr
        exact h.filed k r hr

theorem Honest.exec_error (h : D.Honest i w) {s : Stmt M X} {e : M.Exn}
    (he : w.exec i c s = some (.error e, w')) :
    D.Honest i w' ∧ D.Follows s (D.page i w o) (.error e) (D.page i w' o) := by
  have hcases : D.Honest i w' ∧ (D.page i w' o = D.page i w o ∨
      D.page i w' o = (D.page i w o).lost) := by
    rcases World.exec_error he with rfl | ⟨-, htx⟩
    · exact ⟨h, Or.inl rfl⟩
    · exact ⟨honest_of_fresh htx, Or.inr (page_of_fresh htx)⟩
  cases s with
  | stage d => cases he
  | rollback => cases he
  | _ => exact hcases

theorem Honest.exec_quiet (h : D.Honest i w) {s : Stmt M X} {x : X} (hq : s.Quiet)
    (he : w.exec i c s = some (.ok x, w')) :
    D.Honest i w' ∧ D.Follows s (D.page i w o) (.ok x)
      (D.page i w' ((D.observer Req).exec i w w' s (.ok x) o)) := by
  obtain ⟨hread, hx⟩ := h.quiet hq he
  have hpage : D.page i w' ((D.observer Req).exec i w w' s (.ok x) o) =
      (D.page i w o).noted (D.note w.db w.shared s x) := by
    rw [Observer.Discipline.exec_of_quiet hq, page, hread.writes, hread.dirty]
    ext1
    · exact Function.update_self ..
    · rfl
  refine ⟨⟨hread.filed, by rw [hread.writes, hread.dirty]; exact h.kept⟩, ?_⟩
  have hsent : (w.tx i).writes.filter D.decided <+: (D.page i w o).batch := by
    rw [page, List.filter_append]
    exact List.prefix_append _ _
  have hkept : ∀ d ∈ (w.tx i).writes, D.Kept d :=
    fun d hd => h.kept d (List.mem_append_left _ hd)
  have hnoted := (⟨w.db, (w.tx i).writes, w.shared, hkept, hsent, hx, hpage⟩ :
    ∃ (db : Db M) (ds : List (Write M)) (m : M.Shared), (∀ d ∈ ds, D.Kept d) ∧
      ds.filter D.decided <+: (D.page i w o).batch ∧ Answers (db.applyAll ds) m s x ∧
      D.page i w' ((D.observer Req).exec i w w' s (.ok x) o) =
        (D.page i w o).noted (D.note db m s x))
  cases s with
  | stage d => exact hq.elim
  | upsert waits f => exact hq.elim
  | commit => exact hq.elim
  | rollback => exact hq.elim
  | _ => exact hnoted

theorem Honest.exec_stage (h : D.Honest i w) {d : Write M} (hd : D.Kept d) :
    D.Honest i (w.stage i d) ∧ D.page i (w.stage i d) o = (D.page i w o).add d := by
  refine ⟨⟨h.filed_stage d, ?_⟩, ?_⟩
  · rw [World.stage_writes, World.stage_dirty, ← List.append_assoc]
    intro d' hd'
    rcases List.mem_append.mp hd' with hd' | hd'
    · exact h.kept d' hd'
    · rw [List.mem_singleton.mp hd']
      exact hd
  · rw [page, World.stage_writes, World.stage_dirty, ← List.append_assoc, List.filter_append]
    rfl

/-- Writes that decide nothing, sent at once. -/
theorem Honest.sent (h : D.Honest i w) {ds : List (Write M)}
    (hds : ∀ d ∈ ds, D.Kept d ∧ D.decided d = false)
    (htx : w'.tx i = { w.tx i with writes := (w.tx i).writes ++ ds }) :
    D.Honest i w' ∧ D.page i w' o = D.page i w o := by
  refine ⟨⟨by rw [htx]; exact h.filed, ?_⟩, ?_⟩
  · rw [htx]
    intro d hd
    rcases List.mem_append.mp hd with hd | hd
    · rcases List.mem_append.mp hd with hd | hd
      · exact h.kept d (List.mem_append_left _ hd)
      · exact (hds d hd).1
    · exact h.kept d (List.mem_append_right _ hd)
  · have hnone : ds.filter D.decided = [] :=
      List.filter_eq_nil_iff.mpr fun d hd => by rw [(hds d hd).2]; decide
    rw [page, page, htx]
    simp only [List.filter_append, hnone, List.append_nil]

/-- A statement leads where the diary has it lead. -/
theorem Honest.exec (h : D.Honest i w) {s : Stmt M X} {r : Except M.Exn X}
    (hs : D.Allows s (D.page i w o)) (he : w.exec i c s = some (r, w')) :
    D.Honest i w' ∧ D.Follows s (D.page i w o) r
      (D.page i w' ((D.observer Req).exec i w w' s r o)) := by
  cases r with
  | error e =>
      rw [Observer.Discipline.exec_eq_of_error]
      exact h.exec_error he
  | ok x =>
      cases s with
      | stage d =>
          cases he
          exact h.exec_stage hs
      | rollback =>
          cases he
          have htx : (w.reset i).tx i = { aborted := false } := World.reset_tx_self w i
          exact ⟨honest_of_fresh htx, page_of_fresh htx⟩
      | upsert waits f =>
          have hb := World.sql_ok he
          split at hb
          · simp only [Option.map_eq_some_iff] at hb
            obtain ⟨⟨r', w₁⟩, hwr, hr'⟩ := hb
            cases r' with
            | error e => cases hr'
            | ok u =>
                cases hr'
                obtain ⟨hhonest, hpage⟩ := h.sent (hs (w.view i)) (World.writeAll_ok hwr).2
                exact ⟨hhonest, ⟨w.view i, rfl⟩, hpage⟩
          · cases hb
      | commit =>
          rcases World.sql_cases he with ⟨e, he', -⟩ | ⟨-, hd, hb⟩
          · cases he'
          · cases hb
            have htx : (w.commit i).tx i = { aborted := false } := World.commit_tx_self w i
            refine ⟨honest_of_fresh htx, ?_⟩
            show D.page i (w.commit i) _ = (D.page i w o).done
            rw [page_of_fresh htx]
            ext1
            · show Function.update o i _ i = D.revised (D.page i w o).batch (o i)
              rw [Function.update_self, page, hd rfl, List.append_nil]
            · rfl
      | _ => exact h.exec_quiet trivial he

end Sound

variable (D) in
/-- The logic of a run whose programs abide. -/
def logic (Req : Type) : (D.observer Req).Logic where
  Inv w _ := w.WF ∧ ∀ i, D.Honest i w
  guard _ := {}
  Must w i s o := D.Allows s (D.page i w o)
  Rely i w o w' o' := D.page i w' o' = D.page i w o
  refl _ _ _ := rfl
  trans h h' := h'.trans h
  wf h := h.1
  start r hi _ := ⟨hi, fun _ hj => page_congr rfl (Function.update_of_ne hj ..)⟩
  flush := by
    intro w o i w' hi _ hf
    obtain ⟨d, ds, hd, -, -, hw'⟩ := World.flush_ok hf
    have hasked : (w'.tx i).writes ++ (w'.tx i).dirty = (w.tx i).writes ++ (w.tx i).dirty := by
      rw [hw', World.setTx_tx_self, hd, List.append_assoc]
      rfl
    have hobjects : (w'.tx i).objects = (w.tx i).objects := by
      rw [hw', World.setTx_tx_self]
    have hdoes : World.DoesAll i w w' := .single (World.flush_does hf)
    refine ⟨⟨hi.1.flush hf, ?_⟩, ?_⟩
    · intro j
      by_cases hj : j = i
      · subst hj
        exact ⟨by rw [hobjects]; exact (hi.2 j).filed, by rw [hasked]; exact (hi.2 j).kept⟩
      · exact (hi.2 j).congr (hdoes.tx_of_ne hj)
    · intro j
      by_cases hj : j = i
      · subst hj
        rw [page, page, hasked]
      · exact page_congr (hdoes.tx_of_ne hj) rfl
  crash := by
    intro w o i hi
    have hdoes : World.DoesAll i w (w.reset i) := .single (World.does_reset w i)
    refine ⟨⟨hi.1.reset i, ?_⟩, fun j hj => page_congr (hdoes.tx_of_ne hj) rfl⟩
    intro j
    by_cases hj : j = i
    · subst hj
      exact honest_of_fresh (b := false) (World.reset_tx_self w j)
    · exact (hi.2 j).congr (hdoes.tx_of_ne hj)
  ambient := by
    intro w o m hi
    exact ⟨⟨⟨hi.1.keys, hi.1.entries, hi.1.held, hi.1.legal, hi.1.distinct, hi.1.taken⟩,
      fun i => (hi.2 i).congr rfl⟩, fun _ => rfl⟩

/-- What a session sees of the statements of others is nothing. -/
theorem observer_exec_of_ne {i j : Nat} {w w' : World M} {s : Stmt M X} {r : Except M.Exn X}
    {o : Nat → List D.Note} (hj : j ≠ i) : (D.observer Req).exec i w w' s r o j = o j := by
  cases r with
  | error e => rw [Observer.Discipline.exec_eq_of_error]
  | ok x =>
      cases s with
      | stage d => rfl
      | upsert waits f => rfl
      | rollback => rfl
      | _ => exact Function.update_of_ne hj ..

/-- A program that abides is safe in any company. -/
theorem safe_of_abides {i : Nat} {Q : β → D.Page → Prop} {E : M.Exn → D.Page → Prop}
    {p : Prog M β} {w : World M} {o : Nat → List D.Note} (h : D.Abides Q E p (D.page i w o)) :
    Observer.Safe (D.logic Req) i (fun b w o => Q b (D.page i w o))
      (fun e w o => E e (D.page i w o)) p w o := by
  induction p generalizing w o with
  | ret b => exact h
  | raise e => exact h
  | call s k ih =>
      intro w₁ o₁ hrely hi
      have hpage : D.page i w₁ o₁ = D.page i w o := hrely
      rw [← hpage] at h
      refine ⟨h.1, ?_⟩
      intro c r w₂ he _
      have hstep : D.Honest i w₂ ∧ D.Follows s (D.page i w₁ o₁) r
          (D.page i w₂ ((D.observer Req).exec i w₁ w₂ s r o₁)) := (hi.2 i).exec h.1 he
      obtain ⟨hhonest, hfollows⟩ := hstep
      have hdoes := World.exec_does he
      refine ⟨⟨hi.1.exec he, ?_⟩, ?_, ih r (h.2 r _ hfollows)⟩
      · intro j
        by_cases hj : j = i
        · subst hj
          exact hhonest
        · exact (hi.2 j).congr (hdoes.tx_of_ne hj)
      · exact fun j hj => page_congr (hdoes.tx_of_ne hj) (observer_exec_of_ne hj)

variable (D) in
/-- Every request abides, from an empty page. -/
def Serves (handler : Req → Prog M α) : Prop :=
  ∀ r, D.Abides (fun _ _ => True) (fun _ _ => True) (handler r) { notes := [], batch := [] }

/-- What a session commits is permitted by its notes. -/
structure Permitted (w : World M) (o : Nat → List D.Note) (i : Nat) : Prop where
  wf : w.WF
  sent : (w.tx i).dirty = []
  kept : ∀ d ∈ (w.tx i).writes, D.Kept d
  permits : D.Permits (o i) ((w.tx i).writes.filter D.decided)

variable {handler : Req → Prog M α} {C C' : Conf M α} {o : Nat → List D.Note}
  {Q : Nat → α → World M → (Nat → List D.Note) → Prop}

theorem Serves.sound (h : D.Serves handler) :
    (D.logic Req).Serves (fun _ _ _ _ => True) handler := by
  intro r i w o _ hidle
  have hempty : D.page i w (Function.update o i []) = { notes := [], batch := [] } := by
    rw [page_of_fresh (b := false) hidle.1, Function.update_self]
  have habides := h r
  rw [← hempty] at habides
  exact Observer.safe_mono (fun _ _ _ _ => trivial) (fun _ _ _ _ => trivial)
    (safe_of_abides habides)

/-- A session that is to commit everything it has staged is permitted to. -/
theorem permitted_of_sound (h : (D.logic Req).Sound Q C o) {i : Nat}
    {k : Except M.Exn Unit → Prog M α} (hp : C.threads i = some (.call .commit k))
    (hd : (C.world.tx i).dirty = []) : D.Permitted C.world o i := by
  obtain ⟨w₀, o₀, hr, hsafe⟩ := h.safe i _ hp
  have hallows : D.Permits (o i)
      (((C.world.tx i).writes ++ (C.world.tx i).dirty).filter D.decided) :=
    (hsafe C.world o hr h.inv).1
  rw [hd, List.append_nil] at hallows
  exact ⟨h.inv.1, hd, fun d hd => (h.inv.2 i).kept d (List.mem_append_left _ hd), hallows⟩

/-- What is good while nothing is committed, whatever is noted. -/
structure Lasts (Good : Db M → (Nat → List D.Note) → Prop) : Prop where
  start : ∀ db o i, Good db o → Good db (Function.update o i [])
  look : ∀ db o i (m : M.Shared) {X : Type} (s : Stmt M X) (x : X), Good db o →
    Good db (Function.update o i (D.note db m s x ++ o i))

theorem lasts_of_db (Good : Db M → Prop) : Lasts (D := D) fun db _ => Good db :=
  ⟨fun _ _ _ h => h, fun _ _ _ _ _ _ _ h => h⟩

/-- A property of the committed tables and the notes that every permitted
commit keeps under the guard, and what such a commit does. -/
structure Upholds (g : (Nat → List D.Note) → Guard M) (Good : Db M → (Nat → List D.Note) → Prop)
    (P : Db M → Db M → Prop) : Prop extends Lasts Good where
  same : ∀ db o, Good db o → P db db
  commit : ∀ w o i c, D.Permitted w o i → (g o).exec w i Stmt.commit c → Good w.db o →
    P w.db (w.view i) ∧ Good (w.view i)
      (Function.update o i (D.revised ((w.tx i).writes.filter D.decided) (o i)))

variable {g : (Nat → List D.Note) → Guard M} {Good : Db M → (Nat → List D.Note) → Prop}
  {P : Db M → Db M → Prop} {ls : List (Label M Req)}

/-- A step that commits nothing keeps what is good. -/
theorem Lasts.see (h : Lasts Good) {l : Label M Req} (hgood : Good C.world.db o)
    (hl : ∀ i c k, l = .exec i c → C.threads i ≠ some (.call .commit k)) :
    Good C.world.db ((D.observer Req).see C o l) := by
  cases l with
  | start i r => exact h.start _ _ i hgood
  | flush i => exact hgood
  | crash i => exact hgood
  | ambient a => exact hgood
  | exec i c =>
      simp only [Observer.see]
      split
      · next X s k hp =>
          split
          · next r w' he =>
              cases r with
              | error e =>
                  rw [Observer.Discipline.exec_eq_of_error]
                  exact hgood
              | ok x =>
                  cases s with
                  | stage d => exact hgood
                  | upsert waits f => exact hgood
                  | rollback => exact hgood
                  | commit => exact absurd hp (hl i c k rfl)
                  | _ => exact h.look _ _ i _ _ x hgood
          · exact hgood
      · exact hgood

theorem Upholds.step (hu : Upholds g Good P) (hsound : (D.logic Req).Sound Q C o)
    (hgood : Good C.world.db o) {l : Label M Req} (hg : (g o).Meets C l)
    (hs : C.step handler l = some C') :
    P C.world.db C'.world.db ∧ Good C'.world.db ((D.observer Req).see C o l) := by
  by_cases hcommit : ∃ i c k, l = .exec i c ∧ C.threads i = some (.call .commit k)
  · obtain ⟨i, c, k, rfl, hp⟩ := hcommit
    simp only [Guard.Meets, hp] at hg
    simp only [Conf.step, hp, Option.map_eq_some_iff] at hs
    obtain ⟨⟨r, w'⟩, he, rfl⟩ := hs
    simp only [Observer.see, hp, he]
    rcases World.sql_cases he with ⟨e, rfl, hw'⟩ | ⟨-, hd, hb⟩
    · have hdb : w'.db = C.world.db := by
        rcases hw' with ⟨-, rfl⟩ | rfl
        · rfl
        · rfl
      simp only [Conf.setThread, hdb, Observer.Discipline.exec_eq_of_error]
      exact ⟨hu.same _ o hgood, hgood⟩
    · cases hb
      exact hu.commit C.world o i c (permitted_of_sound hsound hp (hd rfl)) hg hgood
  · have hdb : C'.world.db = C.world.db := by
      rcases Conf.step_db hs with hdb | ⟨i, c, k, rfl, hp, -, -⟩
      · exact hdb
      · exact absurd ⟨i, c, k, rfl, hp⟩ hcommit
    rw [hdb]
    exact ⟨hu.same _ o hgood, hu.see hgood fun i c k hl hp => hcommit ⟨i, c, k, hl, hp⟩⟩

/-- The sessions of a configuration that nobody is at work in. -/
theorem sound_init {w : World M} (hw : w.WF) (hidle : ∀ i, w.Idle i) (o : Nat → List D.Note) :
    (D.logic Req).Sound Q ({ world := w } : Conf M α) o :=
  Observer.Logic.sound_init ⟨hw, fun i => honest_of_fresh (b := false) (hidle i).1⟩ hidle

/-- Every step of a run that meets the guard is of the kind of its commits. -/
theorem Upholds.runSteps (hu : Upholds g Good P) (hh : D.Serves handler)
    (hsound : (D.logic Req).Sound (fun _ _ _ _ => True) C o) (hgood : Good C.world.db o)
    (hg : (D.observer Req).RunMeets g handler C o ls) :
    C.RunSteps (fun C C' => P C.world.db C'.world.db) handler ls := by
  induction ls generalizing C o with
  | nil => trivial
  | cons l ls ih =>
      intro C' hs
      obtain ⟨hP, hgood'⟩ := hu.step hsound hgood hg.1 hs
      refine ⟨hP, ih (hsound.step hh.sound (Guard.meets_trivial C l) hs) hgood' (hg.2 C' hs)⟩

/-- So is what is good in the end. -/
theorem Upholds.run (hu : Upholds g Good P) (hh : D.Serves handler)
    (hsound : (D.logic Req).Sound (fun _ _ _ _ => True) C o) (hgood : Good C.world.db o)
    (hg : (D.observer Req).RunMeets g handler C o ls) (hr : C.run handler ls = some C') :
    ∃ o', (D.logic Req).Sound (fun _ _ _ _ => True) C' o' ∧ Good C'.world.db o' := by
  induction ls generalizing C o with
  | nil =>
      cases hr
      exact ⟨o, hsound, hgood⟩
  | cons l ls ih =>
      simp only [Conf.run] at hr
      split at hr
      · next C₁ hs =>
          obtain ⟨-, hgood₁⟩ := hu.step hsound hgood hg.1 hs
          exact ih (hsound.step hh.sound (Guard.meets_trivial C l) hs) hgood₁ (hg.2 C₁ hs) hr
      · cases hr

/-- What is known of every permitted commit under one guard may be another
guard of the run. -/
theorem runMeets_of_permitted {g' : Guard M} (hh : D.Serves handler)
    (hsound : (D.logic Req).Sound (fun _ _ _ _ => True) C o)
    (hflush : ∀ w i, g'.flush w i)
    (hexec : ∀ {X : Type} (w : World M) i (s : Stmt M X) c, ¬ s.IsCommit → g'.exec w i s c)
    (hunsent : ∀ w i c, (w.tx i).dirty ≠ [] → g'.exec w i Stmt.commit c)
    (hcommit : ∀ w o i c, D.Permitted w o i → (g o).exec w i Stmt.commit c →
      g'.exec w i Stmt.commit c)
    (hg : (D.observer Req).RunMeets g handler C o ls) : Conf.RunMeets g' handler C ls := by
  induction ls generalizing C o with
  | nil => trivial
  | cons l ls ih =>
      refine ⟨?_, fun C' hs => ih (hsound.step hh.sound (Guard.meets_trivial C l) hs) (hg.2 C' hs)⟩
      cases l with
      | start i r => trivial
      | crash i => trivial
      | ambient a => trivial
      | flush i => exact hflush _ _
      | exec i c =>
          have hmeets := hg.1
          simp only [Guard.Meets] at hmeets ⊢
          split
          · next X s k hp =>
              rw [hp] at hmeets
              cases s with
              | commit =>
                  by_cases hd : (C.world.tx i).dirty = []
                  · exact hcommit _ _ _ _ (permitted_of_sound hsound hp hd) hmeets
                  · exact hunsent _ _ _ hd
              | _ => exact hexec _ _ _ _ (fun hc => hc)
          · trivial

end Diary

end Sessions
