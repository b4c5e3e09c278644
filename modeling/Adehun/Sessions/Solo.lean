import Adehun.Sessions.Locks

/-!
# A session that runs alone

What a program does when nobody else is at work, as a function. There is
nothing to wait for and nothing gets out of date, so the session needs
neither locks nor objects: a query is answered by the tables with everything
sent, and what is staged is sent before it. What is left open is chance: the
identifiers drawn, the answers from outside, and what happens to the shared
store in between.

The function is for requests that are executed one at a time. That it says
what the machine does is the next module's theorem.
-/

namespace Sessions

variable {M : System} {α β X : Type}

/-- The identifiers still to be drawn, the answers still to come, and what
happens to the shared store before each look at it. -/
structure Chance (M : System) where
  ids : Nat → Nat
  replies : Nat → M.Reply
  weather : Nat → List M.Ambient

/-- One identifier less to come. -/
def Chance.next (χ : Chance M) : Chance M := { χ with ids := fun n => χ.ids (n + 1) }

/-- A new row. -/
def Write.isInsert : Write M → Bool
  | .insert _ _ => true
  | _ => false

/-- Writes sent one after the other, up to the first that is refused. -/
def Db.sendAll (db : Db M) : List (Write M) → Except M.Exn (Db M)
  | [] => .ok db
  | d :: ds =>
      match d.refusal db with
      | some e => .error e
      | none => (d.apply db).sendAll ds

/-- A session by itself: what is committed, what it has sent on top of that,
what it has staged, and what it has committed so far, the last first. An
object in hand is answered without sending what is staged, so the session
may be `early` here; and the function is no longer the machine's after
something `rough`, such as a write that is refused. -/
structure Solo (M : System) where
  db : Db M
  view : Db M
  dirty : List (Write M) := []
  aborted : Bool := false
  shared : M.Shared
  chance : Chance M
  commits : List (Db M) := []
  early : Bool := false
  rough : Bool := false

namespace Solo

/-- The session as it begins. -/
def start (db : Db M) (shared : M.Shared) (chance : Chance M) : Solo M :=
  { db := db, view := db, shared := shared, chance := chance }

/-- A write was refused, and the transaction is lost. -/
def refuse (σ : Solo M) : Solo M :=
  { σ with view := σ.db, dirty := [], aborted := true, rough := true }

/-- A statement sent to the database, with everything staged before it. -/
def sql (σ : Solo M) (body : Solo M → Except M.Exn X × Solo M) : Except M.Exn X × Solo M :=
  if σ.aborted then (.error M.failedTransaction, σ)
  else match σ.view.sendAll σ.dirty with
    | .error e => (.error e, σ.refuse)
    | .ok v => body { σ with view := v, dirty := [], early := false }

/-- The shared store after what happens to it next. -/
def weathered (σ : Solo M) : Solo M :=
  { σ with
    shared := (σ.chance.weather 0).foldl (fun m a => M.ambient a m) σ.shared
    chance := { σ.chance with weather := fun n => σ.chance.weather (n + 1) } }

/-- One statement. -/
def exec (σ : Solo M) : {X : Type} → Stmt M X → Except M.Exn X × Solo M
  | _, .select q => σ.sql fun σ => (.ok (q σ.view), σ)
  | _, .load t q => σ.sql fun σ =>
      (.ok ((q σ.view).filterMap fun id => σ.view.lookup ⟨t, id⟩), σ)
  | _, .get _ k =>
      let early := σ.early || !σ.dirty.isEmpty
      σ.sql fun σ => (.ok (σ.view.lookup k), { σ with early := early })
  | _, .lock t q => σ.sql fun σ => (.ok ((q σ.view).bind fun id => σ.view.lookup ⟨t, id⟩), σ)
  | _, .refresh k => σ.sql fun σ =>
      match σ.view.lookup k with
      | none => (.error M.noResultFound, σ)
      | some o => (.ok o, σ)
  | _, .stage d => (.ok (), { σ with dirty := σ.dirty ++ [d] })
  | _, .flush => σ.sql fun σ => (.ok (), σ)
  | _, .upsert _ f =>
      let rough := σ.rough || σ.early || !σ.dirty.isEmpty || (f σ.view).1.any (!·.isInsert)
      if σ.aborted then (.error M.failedTransaction, σ)
      else match σ.view.sendAll (f σ.view).1 with
        | .error e => (.error e, σ.refuse)
        | .ok v => (.ok (f σ.view).2, { σ with view := v, rough := rough })
  | _, .commit => σ.sql fun σ =>
      (.ok (), { σ with db := σ.view, commits := σ.view :: σ.commits })
  | _, .rollback =>
      (.ok (), { σ with view := σ.db, dirty := [], aborted := false, early := false })
  | _, .await _ =>
      (.ok (σ.chance.replies 0),
        { σ with chance := { σ.chance with replies := fun n => σ.chance.replies (n + 1) } })
  | _, .shared f =>
      (.ok (f σ.weathered.shared).2, { σ.weathered with shared := (f σ.weathered.shared).1 })
  | _, .fresh =>
      (.ok (σ.chance.ids 0),
        { σ with chance := { σ.chance with ids := fun n => σ.chance.ids (n + 1) } })
  | _, .now => (.ok (M.clock σ.weathered.shared), σ.weathered)

end Solo

namespace Prog

/-- A whole program. -/
def solo (p : Prog M α) (σ : Solo M) : Except M.Exn α × Solo M :=
  match p with
  | .ret a => (.ok a, σ)
  | .raise e => (.error e, σ)
  | .call s k => solo (k (σ.exec s).1) (σ.exec s).2

variable {σ σ' : Solo M}

@[simp] theorem solo_ret (a : α) : (Prog.ret a : Prog M α).solo σ = (.ok a, σ) := rfl

@[simp] theorem solo_pure (a : α) : (pure a : Prog M α).solo σ = (.ok a, σ) := rfl

@[simp] theorem solo_raise (e : M.Exn) : (Prog.raise e : Prog M α).solo σ = (.error e, σ) := rfl

theorem solo_bind' (p : Prog M α) (f : α → Prog M β) : (p.bind f).solo σ =
    match p.solo σ with
    | (.ok a, σ') => (f a).solo σ'
    | (.error e, σ') => (.error e, σ') := by
  induction p generalizing σ with
  | ret a => rfl
  | raise e => rfl
  | call s k ih => exact ih (σ.exec s).1

theorem solo_bind (p : Prog M α) (f : α → Prog M β) : (p >>= f).solo σ =
    match p.solo σ with
    | (.ok a, σ') => (f a).solo σ'
    | (.error e, σ') => (.error e, σ') := solo_bind' p f

theorem solo_tryCatch (p : Prog M α) (h : M.Exn → Prog M α) : (p.tryCatch h).solo σ =
    match p.solo σ with
    | (.ok a, σ') => (.ok a, σ')
    | (.error e, σ') => (h e).solo σ' := by
  induction p generalizing σ with
  | ret a => rfl
  | raise e => rfl
  | call s k ih => exact ih (σ.exec s).1

@[simp] theorem solo_perform (s : Stmt M X) : (Prog.perform s).solo σ = σ.exec s := by
  show solo _ _ = _
  cases h : σ.exec s with
  | mk r σ' =>
      simp only [perform, solo, h]
      cases r <;> rfl

/-- A program that returns, and what follows. -/
theorem solo_bind_ok {p : Prog M α} {f : α → Prog M β} {a : α} (h : p.solo σ = (.ok a, σ')) :
    (p >>= f).solo σ = (f a).solo σ' := by
  rw [solo_bind, h]

/-- A program that raises, and nothing follows. -/
theorem solo_bind_error {p : Prog M α} {f : α → Prog M β} {e : M.Exn}
    (h : p.solo σ = (.error e, σ')) : (p >>= f).solo σ = (.error e, σ') := by
  rw [solo_bind, h]

/-- Several writes staged. -/
theorem solo_forEach_stage (f : α → Write M) (as : List α) :
    (Prog.forEach (fun a => Prog.perform (.stage (f a))) as).solo σ =
      (.ok (as.map fun _ => ()), { σ with dirty := σ.dirty ++ as.map f }) := by
  induction as generalizing σ with
  | nil => simp [forEach]
  | cons a as ih =>
      rw [forEach, solo_bind', solo_perform]
      simp only [Solo.exec, solo_bind', ih, solo_ret]
      simp

theorem solo_attempt (p : Prog M α) : p.attempt.solo σ = (.ok (p.solo σ).1, (p.solo σ).2) := by
  rw [attempt, solo_tryCatch, solo_bind']
  cases p.solo σ with
  | mk r σ' => cases r <;> rfl

end Prog

/-! ## Writes that go through -/

namespace Db

variable {db db' : Db M} {ds ds' : List (Write M)}

theorem sendAll_cons {d : Write M} (h : d.refusal db = none) :
    db.sendAll (d :: ds) = (d.apply db).sendAll ds := by
  rw [sendAll, h]

theorem sendAll_append : db.sendAll (ds ++ ds') = (db.sendAll ds).bind (·.sendAll ds') := by
  induction ds generalizing db with
  | nil => rfl
  | cons d ds ih =>
      rw [List.cons_append, sendAll, sendAll]
      cases d.refusal db with
      | some e => rfl
      | none => exact ih

theorem sendAll_concat {d : Write M} (h : db.sendAll (ds ++ [d]) = .ok db') :
    ∃ v, db.sendAll ds = .ok v ∧ d.refusal v = none ∧ db' = d.apply v := by
  rw [sendAll_append] at h
  cases hv : db.sendAll ds with
  | error e =>
      rw [hv] at h
      cases h
  | ok v =>
      rw [hv] at h
      simp only [Except.bind, sendAll] at h
      split at h
      · cases h
      · next hr =>
          cases h
          exact ⟨v, rfl, hr, rfl⟩

/-- Distinct primary keys, and no entry of a unique index taken twice. -/
structure Sound (db : Db M) : Prop where
  keys : db.KeysDistinct
  entries : db.EntriesDistinct

theorem Sound.apply (h : db.Sound) {d : Write M} (hd : d.refusal db = none) :
    (d.apply db).Sound :=
  ⟨keysDistinct_apply h.keys (Write.legal_of_refusal hd),
    Write.entriesDistinct_apply h.entries hd⟩

theorem Sound.sendAll (h : db.Sound) (hs : db.sendAll ds = .ok db') : db'.Sound := by
  induction ds generalizing db with
  | nil =>
      cases hs
      exact h
  | cons d ds ih =>
      rw [Db.sendAll] at hs
      split at hs
      · cases hs
      · next hd => exact ih (h.apply hd) hs

/-- A write that goes through, and what follows it. -/
theorem Sound.send {d : Write M} (h : db.Sound) (hd : d.refusal db = none)
    (hds : ∀ v : Db M, v.Sound → v = d.apply db → v.sendAll ds = .ok (v.applyAll ds)) :
    db.sendAll (d :: ds) = .ok (db.applyAll (d :: ds)) := by
  rw [sendAll_cons hd, hds _ (h.apply hd) rfl]
  rfl

/-- Rows updated, where no index and no check looks at what is assigned. -/
theorem Sound.sendUpdates {t : M.Table} {f : Patch M t}
    (hentries : ∀ r, M.entries (f.run r) = M.entries r) (hcheck : ∀ r, M.check (f.run r) = none)
    {ids : List Nat} (h : db.Sound) (hids : ∀ id ∈ ids, (db.lookup ⟨t, id⟩).isSome) :
    db.sendAll (ids.map fun id => .update t id f) =
      .ok (db.applyAll (ids.map fun id => .update t id f)) := by
  induction ids generalizing db with
  | nil => rfl
  | cons id ids ih =>
      obtain ⟨r, hr⟩ := Option.isSome_iff_exists.mp (hids id List.mem_cons_self)
      refine h.send (Write.update_goes h.keys h.entries hr (hentries r) (hcheck r)) ?_
      rintro v hv rfl
      refine ih hv ?_
      intro id' hid'
      rw [Write.lookup_update, Option.isSome_map]
      exact hids id' (List.mem_cons_of_mem id hid')

/-- New rows, where no index and no check looks at them. -/
theorem Sound.sendInserts {t : M.Table} {rows : List (M.Row t)} (h : db.Sound)
    (hentries : ∀ r ∈ rows, M.entries r = []) (hcheck : ∀ r ∈ rows, M.check r = none)
    (hnodup : (rows.map M.id).Nodup) (hnew : ∀ r ∈ rows, db.lookup ⟨t, M.id r⟩ = none) :
    db.sendAll (rows.map (.insert t)) = .ok (db.applyAll (rows.map (.insert t))) := by
  induction rows generalizing db with
  | nil => rfl
  | cons r rows ih =>
      rw [List.map_cons, List.nodup_cons] at hnodup
      have hclash : db.clash r = false := by
        simp [clash, hentries r List.mem_cons_self]
      refine h.send ?_ ?_
      · simp [Write.refusal, hnew r List.mem_cons_self, hclash, hcheck r List.mem_cons_self]
      · rintro v hv rfl
        refine ih hv (fun r' h' => hentries r' (List.mem_cons_of_mem r h'))
          (fun r' h' => hcheck r' (List.mem_cons_of_mem r h')) hnodup.2 ?_
        intro r' h'
        have hne : M.id r ≠ M.id r' := fun he => hnodup.1 (he ▸ List.mem_map_of_mem h')
        rw [Write.lookup_insert, hnew r' (List.mem_cons_of_mem r h'), if_neg hne]
        rfl

theorem applyAll_inserts (t : M.Table) (rows : List (M.Row t)) :
    db.applyAll (rows.map (.insert t)) t = db t ++ rows := by
  induction rows generalizing db with
  | nil => simp
  | cons r rows ih =>
      rw [List.map_cons, applyAll_cons, ih]
      simp [Write.apply]

theorem inserts_apart {t t' : M.Table} (ht : t' ≠ t) (rows : List (M.Row t)) :
    db.applyAll (rows.map (.insert t)) t' = db t' := by
  induction rows generalizing db with
  | nil => rfl
  | cons r rows ih =>
      rw [List.map_cons, applyAll_cons, ih]
      exact Write.apply_table_of_ne (d := .insert t r) db (Ne.symm ht)

/-- What rows are after an update of some of them, if once is as good as twice. -/
theorem lookup_updates {t : M.Table} {f : Patch M t} (hf : ∀ r, f.run (f.run r) = f.run r)
    (ids : List Nat) (id : Nat) :
    (db.applyAll (ids.map fun id => .update t id f)).lookup ⟨t, id⟩ =
      (db.lookup ⟨t, id⟩).map fun r => if id ∈ ids then f.run r else r := by
  induction ids generalizing db with
  | nil => simp
  | cons id' ids ih =>
      rw [List.map_cons, applyAll_cons, ih, Write.lookup_update, Option.map_map]
      congr 1
      funext r
      by_cases hid : id = id' <;> by_cases hin : id ∈ ids <;> simp [hid, hin, hf]

theorem updates_apart {t t' : M.Table} (ht : t' ≠ t) (f : Patch M t) (ids : List Nat) :
    db.applyAll (ids.map fun id => .update t id f) t' = db t' := by
  induction ids generalizing db with
  | nil => rfl
  | cons id ids ih =>
      rw [List.map_cons, applyAll_cons, ih]
      exact Write.apply_table_of_ne (d := .update t id f) db (Ne.symm ht)

/-- Updates that change nothing. -/
theorem Sound.updates_eq {t : M.Table} {f : Patch M t} (h : db.Sound) {ids : List Nat}
    (hids : ∀ id ∈ ids, ∀ r, db.lookup ⟨t, id⟩ = some r → f.run r = r) :
    db.applyAll (ids.map fun id => .update t id f) = db := by
  induction ids with
  | nil => rfl
  | cons id ids ih =>
      have hsame : (Write.update t id f).apply db = db := by
        have hrows : (db t).map (fun r => if M.id r = id then f.run r else r) = db t := by
          refine (List.map_congr_left fun r hr => ?_).trans (List.map_id (db t))
          split
          · next hid =>
              refine hids id List.mem_cons_self r ?_
              rw [← hid]
              exact h.keys.lookup hr
          · rfl
        funext t'
        by_cases ht : t = t'
        · subst ht
          simp only [Write.apply, set_self, hrows]
        · exact Write.apply_table_of_ne (d := .update t id f) db ht
      rw [List.map_cons, applyAll_cons, hsame]
      exact ih fun id' hid' => hids id' (List.mem_cons_of_mem id hid')

/-- The rows that a query has found the identifiers of. -/
theorem KeysDistinct.rows (h : db.KeysDistinct) {t : M.Table} {l : List (M.Row t)}
    (hr : ∀ r ∈ l, r ∈ db t) :
    (l.map M.id).filterMap (fun id => db.lookup ⟨t, id⟩) = l := by
  induction l with
  | nil => rfl
  | cons r l ih =>
      have hrow := h.lookup (hr r List.mem_cons_self)
      rw [List.map_cons, List.filterMap_cons, hrow]
      simp only
      rw [ih fun r' h' => hr r' (List.mem_cons_of_mem r h')]

end Db

/-! ## A session with nothing on its hands -/

namespace Solo

/-- Nothing staged, and no failed transaction. -/
structure Tidy (σ : Solo M) : Prop where
  dirty : σ.dirty = []
  aborted : σ.aborted = false
  early : σ.early = false

variable {σ : Solo M}

theorem Tidy.sql (h : σ.Tidy) (body : Solo M → Except M.Exn X × Solo M) :
    σ.sql body = body σ := by
  obtain ⟨hd, ha, he⟩ := h
  cases σ
  simp only at hd ha he
  subst hd ha he
  rfl

theorem Tidy.select (h : σ.Tidy) (q : Db M → X) :
    σ.exec (.select q) = (.ok (q σ.view), σ) := by
  rw [exec, h.sql]

theorem Tidy.load (h : σ.Tidy) (t : M.Table) (q : Db M → List Nat) :
    σ.exec (.load t q) = (.ok ((q σ.view).filterMap fun id => σ.view.lookup ⟨t, id⟩), σ) := by
  rw [exec, h.sql]

theorem Tidy.get (h : σ.Tidy) (held : Bool) (k : Key M) :
    σ.exec (.get held k) = (.ok (σ.view.lookup k), σ) := by
  obtain ⟨hd, ha, he⟩ := h
  cases σ
  simp only at hd ha he
  subst hd ha he
  rfl

theorem Tidy.refresh (h : σ.Tidy) {k : Key M} {o : M.Row k.table}
    (ho : σ.view.lookup k = some o) : σ.exec (.refresh k) = (.ok o, σ) := by
  rw [exec, h.sql, ho]

/-- What is staged goes through, and is committed. -/
theorem exec_commit {v : Db M} (ha : σ.aborted = false) (hv : σ.view.sendAll σ.dirty = .ok v) :
    σ.exec .commit = (.ok (), { σ with
      db := v, view := v, dirty := [], early := false, commits := v :: σ.commits }) := by
  simp [exec, sql, ha, hv]

/-- What is staged goes through, and is sent. -/
theorem exec_flush {v : Db M} (ha : σ.aborted = false) (hv : σ.view.sendAll σ.dirty = .ok v) :
    σ.exec .flush = (.ok (), { σ with view := v, dirty := [], early := false }) := by
  simp [exec, sql, ha, hv]

/-! ## Programs that only look -/

/-- The session at another time, when other things are in the shared store. -/
def later (σ : Solo M) (m : M.Shared) (χ : Chance M) : Solo M :=
  { σ with shared := m, chance := χ }

@[simp] theorem later_db (m : M.Shared) (χ : Chance M) : (σ.later m χ).db = σ.db := rfl
@[simp] theorem later_view (m : M.Shared) (χ : Chance M) : (σ.later m χ).view = σ.view := rfl
@[simp] theorem later_dirty (m : M.Shared) (χ : Chance M) : (σ.later m χ).dirty = σ.dirty := rfl
@[simp] theorem later_aborted (m : M.Shared) (χ : Chance M) :
    (σ.later m χ).aborted = σ.aborted := rfl
@[simp] theorem later_commits (m : M.Shared) (χ : Chance M) :
    (σ.later m χ).commits = σ.commits := rfl
@[simp] theorem later_shared (m : M.Shared) (χ : Chance M) : (σ.later m χ).shared = m := rfl
@[simp] theorem later_chance (m : M.Shared) (χ : Chance M) : (σ.later m χ).chance = χ := rfl

@[simp] theorem later_later (m m' : M.Shared) (χ χ' : Chance M) :
    (σ.later m χ).later m' χ' = σ.later m' χ' := rfl

/-- A session between two transactions. -/
def between (db : Db M) (commits : List (Db M)) (m : M.Shared) (χ : Chance M) : Solo M :=
  { db := db, view := db, shared := m, chance := χ, commits := commits }

section Between

variable {db : Db M} {κ : List (Db M)} {m : M.Shared} {χ : Chance M}

@[simp] theorem between_db : (between db κ m χ).db = db := rfl
@[simp] theorem between_view : (between db κ m χ).view = db := rfl
@[simp] theorem between_dirty : (between db κ m χ).dirty = [] := rfl
@[simp] theorem between_aborted : (between db κ m χ).aborted = false := rfl
@[simp] theorem between_commits : (between db κ m χ).commits = κ := rfl
@[simp] theorem between_shared : (between db κ m χ).shared = m := rfl
@[simp] theorem between_chance : (between db κ m χ).chance = χ := rfl
@[simp] theorem between_rough : (between db κ m χ).rough = false := rfl

@[simp] theorem between_later (m' : M.Shared) (χ' : Chance M) :
    (between db κ m χ).later m' χ' = between db κ m' χ' := rfl

theorem tidy_between : (between db κ m χ).Tidy := ⟨rfl, rfl, rfl⟩

theorem start_eq : start db m χ = between db [] m χ := rfl

/-- Something staged, and committed. -/
theorem commit_between {ds : List (Write M)} {v : Db M} (hv : db.sendAll ds = .ok v) :
    (Prog.perform .commit).solo { between db κ m χ with dirty := ds } =
      (.ok (), between v (v :: κ) m χ) := by
  rw [Prog.solo_perform, exec_commit rfl hv]
  rfl

/-- A session in the middle of a transaction, with everything sent. -/
def amid (db view : Db M) (κ : List (Db M)) (m : M.Shared) (χ : Chance M) : Solo M :=
  { between db κ m χ with view := view }

theorem tidy_amid {view : Db M} : (amid db view κ m χ).Tidy := ⟨rfl, rfl, rfl⟩

theorem amid_self : amid db db κ m χ = between db κ m χ := rfl

/-- One write staged and sent. -/
theorem send_amid {view : Db M} {d : Write M} (hd : d.refusal view = none) (f : Prog M α) :
    (do
      Prog.perform (.stage d)
      Prog.perform .flush
      f : Prog M α).solo (amid db view κ m χ) = f.solo (amid db (d.apply view) κ m χ) := by
  have hv : view.sendAll [d] = .ok (d.apply view) := by
    rw [Db.sendAll_cons hd]
    rfl
  have hflush : (Prog.perform (M := M) .flush).solo { amid db view κ m χ with dirty := [d] } =
      (.ok (), amid db (d.apply view) κ m χ) := by
    rw [Prog.solo_perform, exec_flush rfl hv]
    rfl
  rw [Prog.solo_bind, Prog.solo_perform]
  exact Prog.solo_bind_ok hflush

theorem commit_amid (db view : Db M) {v : Db M} {ds : List (Write M)}
    (hv : view.sendAll ds = .ok v) :
    (Prog.perform .commit).solo { amid db view κ m χ with dirty := ds } =
      (.ok (), between v (v :: κ) m χ) := by
  rw [Prog.solo_perform, exec_commit rfl hv]
  rfl

end Between

theorem Tidy.later (h : σ.Tidy) (m : M.Shared) (χ : Chance M) : (σ.later m χ).Tidy :=
  ⟨h.dirty, h.aborted, h.early⟩

end Solo

/-- What a statement does to the shared store, as far as it does anything. -/
def Stmt.Respects (R : M.Shared → M.Shared → Prop) : {X : Type} → Stmt M X → Prop
  | _, .shared f => ∀ m, R m (f m).1
  | _, _ => True

namespace Prog

/-- A session with nothing on its hands has still nothing after the program,
and sees what it saw. -/
def Looks (p : Prog M α) : Prop :=
  ∀ σ : Solo M, σ.Tidy → ∃ m χ, (p.solo σ).2 = σ.later m χ

theorem looks_compositional : Compositional (M := M) fun _ p => Looks p where
  ret _ σ _ := ⟨σ.shared, σ.chance, rfl⟩
  raise _ σ _ := ⟨σ.shared, σ.chance, rfl⟩
  bind {_ _ p f} hp hf σ h := by
    obtain ⟨m, χ, he⟩ := hp σ h
    rw [solo_bind']
    cases hs : p.solo σ with
    | mk r σ' =>
        rw [hs] at he
        obtain rfl : σ' = σ.later m χ := he
        cases r with
        | ok a => exact hf a _ (h.later m χ)
        | error e => exact ⟨m, χ, rfl⟩
  tryCatch {_ p f} hp hf σ h := by
    obtain ⟨m, χ, he⟩ := hp σ h
    rw [solo_tryCatch]
    cases hs : p.solo σ with
    | mk r σ' =>
        rw [hs] at he
        obtain rfl : σ' = σ.later m χ := he
        cases r with
        | ok a => exact ⟨m, χ, rfl⟩
        | error e => exact hf e _ (h.later m χ)

theorem looks_quiet {s : Stmt M X} (hs : s.Quiet) : Looks (.perform s) := by
  intro σ h
  rw [solo_perform]
  cases s with
  | select q => exact ⟨σ.shared, σ.chance, by rw [h.select]; rfl⟩
  | load t q => exact ⟨σ.shared, σ.chance, by rw [h.load]; rfl⟩
  | get held k => exact ⟨σ.shared, σ.chance, by rw [h.get]; rfl⟩
  | lock t q => exact ⟨σ.shared, σ.chance, by rw [Solo.exec, h.sql]; rfl⟩
  | refresh k =>
      refine ⟨σ.shared, σ.chance, ?_⟩
      rw [Solo.exec, h.sql]
      split <;> rfl
  | flush => exact ⟨σ.shared, σ.chance, by rw [Solo.exec, h.sql]; rfl⟩
  | stage d => cases hs
  | upsert waits f => cases hs
  | commit => cases hs
  | rollback => cases hs
  | await q => exact ⟨_, _, rfl⟩
  | shared f => exact ⟨_, _, rfl⟩
  | fresh => exact ⟨_, _, rfl⟩
  | now => exact ⟨_, _, rfl⟩

/-! ## What becomes of the shared store -/

/-- A relation between the shared store before and after. -/
structure Drift (R : M.Shared → M.Shared → Prop) : Prop where
  refl : ∀ m, R m m
  trans : ∀ {m₁ m₂ m₃}, R m₁ m₂ → R m₂ m₃ → R m₁ m₃
  ambient : ∀ a m, R m (M.ambient a m)

/-- The program respects the relation, from wherever it starts. -/
def Drifts (R : M.Shared → M.Shared → Prop) (p : Prog M α) : Prop :=
  ∀ σ : Solo M, R σ.shared (p.solo σ).2.shared

namespace Drift

variable {R : M.Shared → M.Shared → Prop} (h : Drift R)

include h

theorem weathered (σ : Solo M) : R σ.shared σ.weathered.shared := by
  have hfold : ∀ (l : List M.Ambient) (m m' : M.Shared), R m m' →
      R m (l.foldl (fun m a => M.ambient a m) m') := by
    intro l
    induction l with
    | nil => exact fun m m' hm => hm
    | cons a l ih => exact fun m m' hm => ih m _ (h.trans hm (h.ambient a m'))
  exact hfold _ _ _ (h.refl _)

theorem compositional : Compositional (M := M) fun _ p => Drifts R p where
  ret _ σ := h.refl _
  raise _ σ := h.refl _
  bind {_ _ p f} hp hf σ := by
    have hfirst := hp σ
    rw [solo_bind']
    cases hs : p.solo σ with
    | mk r σ' =>
        rw [hs] at hfirst
        cases r with
        | ok a => exact h.trans hfirst (hf a σ')
        | error e => exact hfirst
  tryCatch {_ p f} hp hf σ := by
    have hfirst := hp σ
    rw [solo_tryCatch]
    cases hs : p.solo σ with
    | mk r σ' =>
        rw [hs] at hfirst
        cases r with
        | ok a => exact hfirst
        | error e => exact h.trans hfirst (hf e σ')

omit h in
theorem sql {body : Solo M → Except M.Exn X × Solo M} {σ : Solo M}
    (hbody : ∀ τ : Solo M, (body τ).2.shared = τ.shared) : (σ.sql body).2.shared = σ.shared := by
  unfold Solo.sql
  split
  · rfl
  · split
    · rfl
    · exact hbody _

theorem perform {s : Stmt M X} (hs : s.Respects R) : Drifts R (.perform s) := by
  intro σ
  have hsame : ∀ {m : M.Shared}, m = σ.shared → R σ.shared m := by
    rintro m rfl
    exact h.refl _
  rw [solo_perform]
  cases s with
  | select q => exact hsame (sql fun _ => rfl)
  | load t q => exact hsame (sql fun _ => rfl)
  | get held k => exact hsame (sql fun _ => rfl)
  | lock t q => exact hsame (sql fun _ => rfl)
  | refresh k =>
      refine hsame (sql fun τ => ?_)
      split <;> rfl
  | stage d => exact h.refl _
  | flush => exact hsame (sql fun _ => rfl)
  | upsert waits f =>
      refine hsame ?_
      simp only [Solo.exec]
      split
      · rfl
      · split <;> rfl
  | commit => exact hsame (sql fun _ => rfl)
  | rollback => exact h.refl _
  | await q => exact h.refl _
  | shared f => exact h.trans (h.weathered σ) (hs _)
  | fresh => exact h.refl _
  | now => exact h.weathered σ

end Drift

end Prog

end Sessions
