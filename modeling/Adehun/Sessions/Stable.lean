import Adehun.Sessions.Locks

/-!
# What stays true of a row

Ways in which something said of a row outlives what the sessions do.
A session `Preserves` a property when every committed row that has it has it
in the session's view as well; this passes through the commits of others,
since a row is written by one session at a time. Writes that `Retain` a
part of the rows of a table lead to tables where that part of every row is
an old one, or comes from an insertion. And a property that the last write
`Pending` for a row gives it is one the row has once everything is sent.
Last, what `Maintained` writes give every row of a table they also give every
object a session has of it.
-/

namespace Sessions

variable {M : System} {C : Type} {t : M.Table}

/-- The row of a key has a property. -/
def Db.Has (db : Db M) (t : M.Table) (P : M.Row t → Prop) (id : Nat) : Prop :=
  ∃ r, db.lookup ⟨t, id⟩ = some r ∧ P r

instance (db : Db M) (P : M.Row t → Prop) [DecidablePred P] (id : Nat) :
    Decidable (db.Has t P id) :=
  match h : db.lookup ⟨t, id⟩ with
  | none => isFalse fun ⟨r, hr, _⟩ => by rw [h] at hr; cases hr
  | some r =>
      if hP : P r then isTrue ⟨r, h, hP⟩
      else isFalse fun ⟨r', hr, hP'⟩ => by rw [h] at hr; cases hr; exact hP hP'

theorem Db.has_congr {db db' : Db M} {P : M.Row t → Prop} {id : Nat}
    (h : db.lookup ⟨t, id⟩ = db'.lookup ⟨t, id⟩) : db.Has t P id ↔ db'.Has t P id := by
  rw [Has, Has, h]

namespace World

variable {P : M.Row t → Prop} {w : World M} {i j : Nat}

/-- What is committed of the rows of a table is so in the view of a session. -/
def Preserves (t : M.Table) (P : M.Row t → Prop) (i : Nat) (w : World M) : Prop :=
  ∀ id, w.db.Has t P id → (w.view i).Has t P id

theorem preserves_of_writes_nil (h : (w.tx i).writes = []) : Preserves t P i w := by
  have hview : w.view i = w.db := by
    rw [view, h]
    rfl
  intro id hid
  rw [hview]
  exact hid

theorem Preserves.congr {w' : World M} (h : Preserves t P i w) (hdb : w'.db = w.db)
    (hw : (w'.tx i).writes = (w.tx i).writes) : Preserves t P i w' := by
  intro id hid
  rw [view_congr hdb hw]
  rw [hdb] at hid
  exact h id hid

theorem put_view (w : World M) (i : Nat) (d : Write M) :
    (w.put i d).view i = d.apply (w.view i) := by
  simp only [view, put_db, put_tx_self, Db.applyAll_concat]

theorem Preserves.put {d : Write M} (h : Preserves t P i w)
    (hd : ∀ id, d.key = ⟨t, id⟩ → (w.view i).Has t P id → (d.apply (w.view i)).Has t P id) :
    Preserves t P i (w.put i d) := by
  intro id hid
  rw [put_db] at hid
  rw [put_view]
  by_cases hk : d.key = ⟨t, id⟩
  · exact hd id hk (h id hid)
  · rw [Db.has_congr (Write.lookup_apply_of_ne _ hk)]
    exact h id hid

/-- A property of a row survives the commit of a session that preserves it. -/
theorem has_view_commit (hne : j ≠ i) (hw : w.WF) (hi : Preserves t P i w) {id : Nat}
    (h : (w.view j).Has t P id) : ((w.commit i).view j).Has t P id := by
  by_cases hti : w.Touches i ⟨t, id⟩
  · -- then it is not written by `j`, who sees the committed row
    have htj := hw.not_touches hne hti
    have htj' : ¬ (w.commit i).Touches j ⟨t, id⟩ := by
      rw [Touches, commit_tx_of_ne w hne]
      exact htj
    rw [Db.has_congr (lookup_view_of_not_touches htj)] at h
    rw [Db.has_congr (lookup_view_of_not_touches htj'), commit_db]
    exact hi id h
  · rw [Db.has_congr (lookup_view_commit hne hti)]
    exact h

theorem Preserves.commit (hne : j ≠ i) (hw : w.WF) (hj : Preserves t P j w) :
    Preserves t P j (w.commit i) := by
  intro id hid
  rw [commit_db] at hid
  by_cases hti : w.Touches i ⟨t, id⟩
  · have htj' : ¬ (w.commit i).Touches j ⟨t, id⟩ := by
      rw [Touches, commit_tx_of_ne w hne]
      exact hw.not_touches hne hti
    rw [Db.has_congr (lookup_view_of_not_touches htj'), commit_db]
    exact hid
  · rw [Db.has_congr (lookup_view_of_not_touches hti)] at hid
    rw [Db.has_congr (lookup_view_commit hne hti)]
    exact hj id hid

end World

/-! ## Parts that writes retain -/

namespace Write

/-- A write that deletes no row of a table, and keeps a part of each. -/
def Retains (t : M.Table) (f : M.Row t → C) : Write M → Prop
  | .insert _ _ => True
  | .update t' _ p => ∀ (h : t' = t) (r : M.Row t'), f (h ▸ p.run r) = f (h ▸ r)
  | .delete t' _ => t' ≠ t

theorem retains_of_ne {f : M.Row t → C} {d : Write M} (h : d.key.table ≠ t) :
    d.Retains t f := by
  cases d with
  | insert t' r => trivial
  | update t' id p => exact fun ht => absurd ht h
  | delete t' id => exact h

/-- The primary keys are kept by all writes that delete nothing. -/
theorem Retains.ids {f : M.Row t → C} {d : Write M} (h : d.Retains t f) : d.Retains t M.id := by
  cases d with
  | insert t' r => trivial
  | update t' id p =>
      rintro rfl r
      exact p.id_run r
  | delete t' id => exact h

/-- A row written by a retaining write: what was there, or what it inserts. -/
theorem lookup_of_retains {f : M.Row t → C} {d : Write M} (hd : d.Retains t f) {db : Db M}
    {id : Nat} {r : M.Row t} (h : (d.apply db).lookup ⟨t, id⟩ = some r) :
    (∃ r₀, db.lookup ⟨t, id⟩ = some r₀ ∧ f r₀ = f r) ∨ d = .insert t r := by
  by_cases hk : d.key = ⟨t, id⟩
  · cases d with
    | insert t' r' =>
        cases hk
        rw [lookup_insert, if_pos rfl] at h
        cases hold : db.lookup ⟨t, M.id r'⟩ with
        | none =>
            rw [hold, Option.none_or] at h
            cases h
            exact Or.inr rfl
        | some r₀ =>
            rw [hold, Option.some_or] at h
            cases h
            exact Or.inl ⟨r, rfl, rfl⟩
    | update t' id' p =>
        cases hk
        rw [lookup_update] at h
        obtain ⟨r₀, hold, hr⟩ := Option.map_eq_some_iff.mp h
        rw [if_pos rfl] at hr
        refine Or.inl ⟨r₀, hold, ?_⟩
        rw [← hr]
        exact (hd rfl r₀).symm
    | delete t' id' =>
        cases hk
        exact absurd rfl hd
  · rw [lookup_apply_of_ne db hk] at h
    exact Or.inl ⟨r, h, rfl⟩

/-- A row stays under a retaining write, and keeps its part. -/
theorem lookup_apply_of_retains {f : M.Row t → C} {d : Write M} (hd : d.Retains t f)
    {db : Db M} {id : Nat} {r : M.Row t} (h : db.lookup ⟨t, id⟩ = some r) :
    ∃ r', (d.apply db).lookup ⟨t, id⟩ = some r' ∧ f r' = f r := by
  by_cases hk : d.key = ⟨t, id⟩
  · cases d with
    | insert t' r' =>
        cases hk
        refine ⟨r, ?_, rfl⟩
        rw [lookup_insert, if_pos rfl, h]
        rfl
    | update t' id' p =>
        cases hk
        refine ⟨p.run r, ?_, hd rfl r⟩
        rw [lookup_update, h]
        simp
    | delete t' id' =>
        cases hk
        exact absurd rfl hd
  · rw [lookup_apply_of_ne db hk]
    exact ⟨r, h, rfl⟩

end Write

namespace Db

theorem lookup_of_retains {f : M.Row t → C} {ds : List (Write M)}
    (hds : ∀ d ∈ ds, d.Retains t f) {db : Db M} {id : Nat} {r : M.Row t}
    (h : (db.applyAll ds).lookup ⟨t, id⟩ = some r) :
    (∃ r₀, db.lookup ⟨t, id⟩ = some r₀ ∧ f r₀ = f r) ∨
      ∃ r₀, Write.insert t r₀ ∈ ds ∧ M.id r₀ = id ∧ f r₀ = f r := by
  induction ds generalizing db with
  | nil => exact Or.inl ⟨r, h, rfl⟩
  | cons d ds ih =>
      rcases ih (fun d' hd' => hds d' (List.mem_cons_of_mem d hd')) h with
        ⟨r₁, h₁, hf₁⟩ | ⟨r₁, h₁, hf₁⟩
      · rcases Write.lookup_of_retains (hds d List.mem_cons_self) h₁ with
          ⟨r₀, h₀, hf₀⟩ | rfl
        · exact Or.inl ⟨r₀, h₀, hf₀.trans hf₁⟩
        · exact Or.inr ⟨r₁, List.mem_cons_self, lookup_id h₁, hf₁⟩
      · exact Or.inr ⟨r₁, List.mem_cons_of_mem d h₁, hf₁⟩

theorem lookup_applyAll_of_retains {f : M.Row t → C} {ds : List (Write M)}
    (hds : ∀ d ∈ ds, d.Retains t f) {db : Db M} {id : Nat} {r : M.Row t}
    (h : db.lookup ⟨t, id⟩ = some r) :
    ∃ r', (db.applyAll ds).lookup ⟨t, id⟩ = some r' ∧ f r' = f r := by
  induction ds generalizing db r with
  | nil => exact ⟨r, h, rfl⟩
  | cons d ds ih =>
      obtain ⟨r₁, h₁, hf₁⟩ := Write.lookup_apply_of_retains (hds d List.mem_cons_self) h
      obtain ⟨r', h', hf'⟩ := ih (fun d' hd' => hds d' (List.mem_cons_of_mem d hd')) h₁
      exact ⟨r', h', hf'.trans hf₁⟩

end Db

/-- A row that is there is not inserted again. -/
theorem Db.Legal.id_ne_of_insert {f : M.Row t → C} {ds : List (Write M)} {db : Db M}
    (hl : db.Legal ds) (hds : ∀ d ∈ ds, d.Retains t f) {id : Nat} {r r' : M.Row t}
    (h : db.lookup ⟨t, id⟩ = some r) (hr' : .insert t r' ∈ ds) : M.id r' ≠ id := by
  induction ds generalizing db r with
  | nil => cases hr'
  | cons d ds ih =>
      rcases List.mem_cons.mp hr' with rfl | hr'
      · rintro rfl
        rw [hl.1 t r' rfl] at h
        cases h
      · obtain ⟨r₁, h₁, -⟩ := Write.lookup_apply_of_retains (hds d List.mem_cons_self) h
        exact ih hl.2 (fun d' hd' => hds d' (List.mem_cons_of_mem d hd')) h₁ hr'

/-- A row after retaining writes has the part of an old row, or of a row that
one of them inserts. -/
theorem Db.mem_of_retains {f : M.Row t → C} {ds : List (Write M)}
    (hds : ∀ d ∈ ds, d.Retains t f) {db : Db M} (hk : (db.applyAll ds).KeysDistinct)
    {r : M.Row t} (h : r ∈ db.applyAll ds t) :
    (∃ r₀ ∈ db t, f r₀ = f r) ∨ ∃ r₀, Write.insert t r₀ ∈ ds ∧ f r₀ = f r := by
  rcases Db.lookup_of_retains hds (hk.lookup h) with ⟨r₀, h₀, hf⟩ | ⟨r₀, h₀, -, hf⟩
  · exact Or.inl ⟨r₀, Db.lookup_mem h₀, hf⟩
  · exact Or.inr ⟨r₀, h₀, hf⟩

/-! ### Parts of whole tables -/

namespace Write

/-- The row of a table that a write inserts. -/
def inserted (t : M.Table) : Write M → List (M.Row t)
  | .insert t' r => if h : t' = t then [h ▸ r] else []
  | _ => []

theorem mem_inserted {d : Write M} {r : M.Row t} : r ∈ d.inserted t ↔ d = .insert t r := by
  cases d with
  | insert t' r' =>
      simp only [inserted]
      split
      · next h =>
          subst h
          simp [eq_comm]
      · next h =>
          simp only [List.not_mem_nil, insert.injEq, false_iff]
          exact fun he => h he.1
  | update t' id p => simp [inserted]
  | delete t' id => simp [inserted]

theorem map_apply {f : M.Row t → C} {d : Write M} (hd : d.Retains t f) (db : Db M) :
    (d.apply db t).map f = (db t).map f ++ (d.inserted t).map f := by
  by_cases ht : d.key.table = t
  · cases d with
    | insert t' r =>
        obtain rfl : t' = t := ht
        simp [apply, Db.set_self, inserted]
    | update t' id p =>
        obtain rfl : t' = t := ht
        simp only [apply, Db.set_self, inserted, List.map_nil, List.append_nil, List.map_map]
        refine List.map_congr_left fun r _ => ?_
        dsimp only [Function.comp]
        split
        · exact hd rfl r
        · rfl
    | delete t' id => exact absurd ht hd
  · have hnone : d.inserted t = [] := by
      cases d with
      | insert t' r => exact dif_neg ht
      | _ => rfl
    rw [apply_table_of_ne db ht, hnone, List.map_nil, List.append_nil]

end Write

/-- After retaining writes a table has the parts of the old rows, and of those
that are inserted. -/
theorem Db.map_applyAll {f : M.Row t → C} {ds : List (Write M)} (hds : ∀ d ∈ ds, d.Retains t f)
    (db : Db M) :
    (db.applyAll ds t).map f = (db t).map f ++ (ds.flatMap (Write.inserted t)).map f := by
  induction ds generalizing db with
  | nil => simp [applyAll]
  | cons d ds ih =>
      rw [List.flatMap_cons, List.map_append, ← List.append_assoc,
        ← Write.map_apply (hds d List.mem_cons_self) db]
      exact ih (fun d' hd' => hds d' (List.mem_cons_of_mem d hd')) (d.apply db)

theorem Db.map_subset_apply {f : M.Row t → C} {d : Write M} (hd : d.Retains t f) (db : Db M) :
    (db t).map f ⊆ (d.apply db t).map f := by
  rw [Write.map_apply hd]
  exact List.subset_append_left _ _

theorem Db.map_subset_applyAll {f : M.Row t → C} {ds : List (Write M)}
    (hds : ∀ d ∈ ds, d.Retains t f) (db : Db M) : (db t).map f ⊆ (db.applyAll ds t).map f := by
  rw [Db.map_applyAll hds]
  exact List.subset_append_left _ _

/-- What is inserted has its part. -/
theorem Db.mem_map_applyAll {f : M.Row t → C} {ds : List (Write M)}
    (hds : ∀ d ∈ ds, d.Retains t f) {r : M.Row t} (hr : .insert t r ∈ ds) (db : Db M) :
    f r ∈ (db.applyAll ds t).map f := by
  rw [Db.map_applyAll hds]
  refine List.mem_append_right _ (List.mem_map_of_mem ?_)
  exact List.mem_flatMap.mpr ⟨_, hr, Write.mem_inserted.mpr rfl⟩

/-- What a session sees of a table it still sees when another commits. -/
theorem World.map_view_subset_commit {f : M.Row t → C} {w : World M} {i j : Nat} (hne : j ≠ i)
    (hi : ∀ d ∈ (w.tx i).writes, d.Retains t f) (hj : ∀ d ∈ (w.tx j).writes, d.Retains t f) :
    (w.view j t).map f ⊆ ((w.commit i).view j t).map f := by
  have hjs : ∀ d ∈ ((w.commit i).tx j).writes, d.Retains t f := by
    rw [commit_tx_of_ne w hne]
    exact hj
  rw [view, view, Db.map_applyAll hj, Db.map_applyAll hjs, commit_tx_of_ne w hne, commit_db]
  refine List.append_subset.mpr ⟨?_, List.subset_append_right _ _⟩
  exact fun c hc => List.mem_append_left _ (Db.map_subset_applyAll hi _ hc)

/-! ## Updates on their way -/

namespace Write

/-- The last staged write of a row is an update that gives it a property. -/
def Pending (t : M.Table) (P : M.Row t → Prop) (id : Nat) (ds : List (Write M)) : Prop :=
  ∃ ds₁ p ds₂, ds = ds₁ ++ Write.update t id p :: ds₂ ∧ (∀ r, P (p.run r)) ∧
    ∀ d ∈ ds₂, d.key ≠ ⟨t, id⟩

variable {P : M.Row t → Prop} {id : Nat} {d : Write M} {ds : List (Write M)}

theorem pending_self {p : Patch M t} (h : ∀ r, P (p.run r)) :
    Pending t P id (ds ++ [.update t id p]) :=
  ⟨ds, p, [], rfl, h, by simp⟩

theorem not_pending_nil : ¬ Pending t P id [] := by
  rintro ⟨ds₁, p, ds₂, hnil, -⟩
  simp at hnil

theorem Pending.concat (h : Pending t P id ds) (hd : d.key ≠ ⟨t, id⟩) :
    Pending t P id (ds ++ [d]) := by
  obtain ⟨ds₁, p, ds₂, rfl, hp, hlast⟩ := h
  refine ⟨ds₁, p, ds₂ ++ [d], by simp, hp, ?_⟩
  intro d' hd'
  rw [List.mem_append, List.mem_singleton] at hd'
  rcases hd' with hd' | rfl
  · exact hlast d' hd'
  · exact hd

/-- When the first staged write is sent, the update is still to come, or is
the write that is sent and the last one about the row. -/
theorem Pending.tail (h : Pending t P id (d :: ds)) :
    Pending t P id ds ∨
      ∃ p, d = .update t id p ∧ (∀ r, P (p.run r)) ∧ ∀ d ∈ ds, d.key ≠ ⟨t, id⟩ := by
  obtain ⟨ds₁, p, ds₂, hsplit, hp, hlast⟩ := h
  cases ds₁ with
  | nil =>
      rw [List.nil_append, List.cons.injEq] at hsplit
      obtain ⟨rfl, rfl⟩ := hsplit
      exact Or.inr ⟨p, rfl, hp, hlast⟩
  | cons d' ds₁ =>
      rw [List.cons_append, List.cons.injEq] at hsplit
      obtain ⟨rfl, rfl⟩ := hsplit
      exact Or.inl ⟨ds₁, p, ds₂, rfl, hp, hlast⟩

/-- An update that the database takes gives the row its property. -/
theorem has_update {db : Db M} {p : Patch M t} (hp : ∀ r, P (p.run r))
    (hr : (Write.update t id p).refusal db = none) :
    ((Write.update t id p).apply db).Has t P id := by
  obtain ⟨r, hrow, -⟩ := update_found hr
  refine ⟨p.run r, ?_, hp r⟩
  rw [lookup_update, hrow]
  simp

end Write

/-! ## What all rows of a table have -/

namespace Write

variable {P : M.Row t → Prop} {d : Write M}

/-- A write that inserts rows with a property, and lets rows keep it. -/
def Maintains (t : M.Table) (P : M.Row t → Prop) : Write M → Prop
  | .insert t' r => ∀ h : t' = t, P (h ▸ r)
  | .update t' _ p => ∀ (h : t' = t) (r : M.Row t'), P (h ▸ r) → P (h ▸ p.run r)
  | .delete _ _ => True

theorem maintains_of_ne (h : d.key.table ≠ t) : d.Maintains t P := by
  cases d with
  | insert t' r => exact fun ht => absurd ht h
  | update t' id p => exact fun ht => absurd ht h
  | delete t' id => trivial

theorem Maintains.apply (hd : d.Maintains t P) {db : Db M} (h : ∀ r ∈ db t, P r) :
    ∀ r ∈ d.apply db t, P r := by
  by_cases ht : d.key.table = t
  · cases d with
    | insert t' r' =>
        obtain rfl : t' = t := ht
        intro r hr
        rw [apply, Db.set_self, List.mem_append, List.mem_singleton] at hr
        rcases hr with hr | rfl
        · exact h r hr
        · exact hd rfl
    | update t' id p =>
        obtain rfl : t' = t := ht
        intro r hr
        rw [apply, Db.set_self, List.mem_map] at hr
        obtain ⟨r₀, h₀, rfl⟩ := hr
        split
        · exact hd rfl r₀ (h r₀ h₀)
        · exact h r₀ h₀
    | delete t' id =>
        obtain rfl : t' = t := ht
        intro r hr
        rw [apply, Db.set_self, List.mem_filter] at hr
        exact h r hr.1
  · rw [apply_table_of_ne db ht]
    exact h

end Write

theorem Db.maintains_applyAll {P : M.Row t → Prop} {ds : List (Write M)}
    (hds : ∀ d ∈ ds, d.Maintains t P) {db : Db M} (h : ∀ r ∈ db t, P r) :
    ∀ r ∈ db.applyAll ds t, P r := by
  induction ds generalizing db with
  | nil => exact h
  | cons d ds ih =>
      exact ih (fun d' hd' => hds d' (List.mem_cons_of_mem d hd'))
        ((hds d List.mem_cons_self).apply h)

namespace World

variable {P : M.Row t → Prop} {i j : Nat} {w w' : World M}

/-- Every row that a session sees, writes or has as an object has a property. -/
structure Upholds (t : M.Table) (P : M.Row t → Prop) (i : Nat) (w : World M) : Prop where
  rows : ∀ r ∈ w.view i t, P r
  writes : ∀ d ∈ (w.tx i).writes ++ (w.tx i).dirty, d.Maintains t P
  objects : ∀ id o, (w.tx i).objects ⟨t, id⟩ = some o → P o

namespace Upholds

theorem of_fresh {b : Bool} (h : ∀ r ∈ w.db t, P r) (htx : w.tx i = { aborted := b }) :
    Upholds t P i w := by
  refine ⟨?_, ?_, ?_⟩
  · rw [view, htx]
    exact h
  · simp [htx]
  · simp [htx]

theorem congr (h : Upholds t P i w) (hdb : w'.db = w.db) (htx : w'.tx i = w.tx i) :
    Upholds t P i w' := by
  have hview : w'.view i = w.view i := view_congr hdb (by rw [htx])
  refine ⟨?_, ?_, ?_⟩
  · rw [hview]
    exact h.rows
  · rw [htx]
    exact h.writes
  · rw [htx]
    exact h.objects

theorem mono {P' : M.Row t → Prop} (h : Upholds t P i w)
    (hwrites : ∀ d ∈ (w.tx i).writes ++ (w.tx i).dirty, d.Maintains t P → d.Maintains t P')
    (hP : ∀ r, P r → P' r) : Upholds t P' i w :=
  ⟨fun r hr => hP r (h.rows r hr), fun d hd => hwrites d hd (h.writes d hd),
    fun id o ho => hP o (h.objects id o ho)⟩

/-- A row of the table, as it is answered. -/
theorem answer (h : Upholds t P i w) {alive : Bool} {id : Nat} {r : M.Row t}
    (hr : w.answer i alive ⟨t, id⟩ = some r) : P r := by
  have hlook : ∀ r : M.Row t, (w.view i).lookup ⟨t, id⟩ = some r → P r :=
    fun r hr => h.rows r (Db.lookup_mem hr)
  cases hobj : (w.tx i).objects ⟨t, id⟩ with
  | none =>
      rw [World.answer, hobj] at hr
      exact hlook r hr
  | some o =>
      rw [World.answer, hobj] at hr
      dsimp only at hr
      split at hr
      · cases hr
        exact h.objects id r hobj
      · exact hlook r hr

theorem remember (h : Upholds t P i w) (k : Key M) :
    Upholds t P i (w.remember i k ((w.view i).lookup k)) := by
  have hview : (w.remember i k ((w.view i).lookup k)).view i = w.view i :=
    view_congr rfl (by simp [World.remember])
  refine ⟨?_, ?_, ?_⟩
  · rw [hview]
    exact h.rows
  · simpa [World.remember] using h.writes
  · intro id o ho
    simp only [World.remember, setTx_tx_self] at ho
    by_cases hk : (⟨t, id⟩ : Key M) = k
    · subst hk
      rw [Function.update_self] at ho
      exact h.rows o (Db.lookup_mem ho)
    · rw [Function.update_of_ne hk] at ho
      exact h.objects id o ho

theorem put (h : Upholds t P i w) {d : Write M} (hd : d.Maintains t P) :
    Upholds t P i (w.put i d) := by
  refine ⟨?_, ?_, by simpa using h.objects⟩
  · rw [put_view]
    exact hd.apply h.rows
  · intro e he
    rw [put_tx_self, List.append_assoc, List.mem_append, List.mem_append,
      List.mem_singleton] at he
    rcases he with he | rfl | he
    · exact h.writes e (List.mem_append_left _ he)
    · exact hd
    · exact h.writes e (List.mem_append_right _ he)

theorem send (h : Upholds t P i w) {d : Write M} {ds : List (Write M)}
    (hd : (w.tx i).dirty = d :: ds) :
    Upholds t P i ((w.put i d).setTx i
      { w.tx i with writes := (w.tx i).writes ++ [d], dirty := ds }) := by
  have hput := h.put (h.writes d (by simp [hd]))
  have hview : ((w.put i d).setTx i
      { w.tx i with writes := (w.tx i).writes ++ [d], dirty := ds }).view i = (w.put i d).view i :=
    view_congr (by simp) (by simp)
  refine ⟨?_, ?_, by simpa using h.objects⟩
  · rw [hview]
    exact hput.rows
  · simpa [hd] using h.writes

theorem stage (h : Upholds t P i w) {d : Write M} (hd : d.Maintains t P) :
    Upholds t P i (w.stage i d) := by
  have hview : (w.stage i d).view i = w.view i := view_congr rfl (by simp)
  refine ⟨?_, ?_, ?_⟩
  · rw [hview]
    exact h.rows
  · intro e he
    rw [stage_writes, stage_dirty, ← List.append_assoc, List.mem_append,
      List.mem_singleton] at he
    rcases he with he | rfl
    · exact h.writes e he
    · exact hd
  · intro id o ho
    by_cases hk : d.key = ⟨t, id⟩
    · cases d with
      | insert t' r =>
          cases hk
          simp only [World.stage, setTx_tx_self, Function.update_self, Option.some.injEq] at ho
          rw [← ho]
          exact hd rfl
      | update t' id' p =>
          cases hk
          simp only [World.stage, setTx_tx_self, Function.update_self,
            Option.map_eq_some_iff] at ho
          obtain ⟨o', ho', rfl⟩ := ho
          exact hd rfl o' (h.objects id o' ho')
      | delete t' id' =>
          cases hk
          simp only [World.stage, setTx_tx_self, Function.update_self] at ho
          cases ho
    · rw [stage_objects_of_ne w i hk] at ho
      exact h.objects id o ho

/-- What another session commits has the property as well. -/
theorem commit (hne : j ≠ i) (hi : Upholds t P i w) (hj : Upholds t P j w) :
    Upholds t P j (w.commit i) := by
  have hsame : (w.commit i).tx j = w.tx j := commit_tx_of_ne w hne
  refine ⟨?_, ?_, ?_⟩
  · rw [view, hsame, commit_db]
    exact Db.maintains_applyAll (fun d hd => hj.writes d (List.mem_append_left _ hd)) hi.rows
  · rw [hsame]
    exact hj.writes
  · rw [hsame]
    exact hj.objects

end Upholds

variable {f : M.Row t → C}

/-- A session retains a part of the rows of a table, and the part of every
object it has is that of the row, or of an insertion still to be sent. -/
structure Mirrors (t : M.Table) (f : M.Row t → C) (i : Nat) (w : World M) : Prop where
  writes : ∀ d ∈ (w.tx i).writes ++ (w.tx i).dirty, d.Retains t f
  objects : ∀ id o, (w.tx i).objects ⟨t, id⟩ = some o →
    (w.view i).Has t (fun r => f r = f o) id ∨
      ∃ r, Write.insert t r ∈ (w.tx i).dirty ∧ M.id r = id ∧ f r = f o

namespace Mirrors

theorem of_fresh {b : Bool} (htx : w.tx i = { aborted := b }) : Mirrors t f i w := by
  refine ⟨?_, ?_⟩ <;> simp [htx]

theorem congr (h : Mirrors t f i w) (hdb : w'.db = w.db) (htx : w'.tx i = w.tx i) :
    Mirrors t f i w' := by
  have hview : w'.view i = w.view i := view_congr hdb (by rw [htx])
  refine ⟨?_, ?_⟩
  · rw [htx]
    exact h.writes
  · rw [htx, hview]
    exact h.objects

/-- The answer to a query has the part of the row. -/
theorem answer (h : Mirrors t f i w) (hd : (w.tx i).dirty = []) {alive : Bool} {id : Nat}
    {r : M.Row t} (hr : w.answer i alive ⟨t, id⟩ = some r) :
    (w.view i).Has t (fun r' => f r' = f r) id := by
  have hlook : ∀ r, (w.view i).lookup ⟨t, id⟩ = some r →
      (w.view i).Has t (fun r' => f r' = f r) id := fun r hr => ⟨r, hr, rfl⟩
  cases hobj : (w.tx i).objects ⟨t, id⟩ with
  | none =>
      rw [World.answer, hobj] at hr
      exact hlook r hr
  | some o =>
      rw [World.answer, hobj] at hr
      dsimp only at hr
      split at hr
      · cases hr
        refine (h.objects id r hobj).resolve_right ?_
        rintro ⟨r', hr', -⟩
        rw [hd] at hr'
        cases hr'
      · exact hlook r hr

theorem remember (h : Mirrors t f i w) (k : Key M) :
    Mirrors t f i (w.remember i k ((w.view i).lookup k)) := by
  have hview : (w.remember i k ((w.view i).lookup k)).view i = w.view i :=
    view_congr rfl (by simp [World.remember])
  refine ⟨by simpa [World.remember] using h.writes, ?_⟩
  intro id o ho
  rw [hview]
  simp only [World.remember, setTx_tx_self] at ho ⊢
  by_cases hk : (⟨t, id⟩ : Key M) = k
  · subst hk
    rw [Function.update_self] at ho
    exact Or.inl ⟨o, ho, rfl⟩
  · rw [Function.update_of_ne hk] at ho
    exact h.objects id o ho

theorem has_apply {d : Write M} (hd : d.Retains t f) {db : Db M} {id : Nat} {c : C}
    (h : db.Has t (fun r => f r = c) id) : (d.apply db).Has t (fun r => f r = c) id := by
  obtain ⟨r, hr, hf⟩ := h
  obtain ⟨r', hr', hsame⟩ := Write.lookup_apply_of_retains hd hr
  exact ⟨r', hr', hsame.trans hf⟩

theorem put (h : Mirrors t f i w) {d : Write M} (hd : d.Retains t f) :
    Mirrors t f i (w.put i d) := by
  refine ⟨?_, ?_⟩
  · intro e he
    rw [put_tx_self, List.append_assoc, List.mem_append, List.mem_append,
      List.mem_singleton] at he
    rcases he with he | rfl | he
    · exact h.writes e (List.mem_append_left _ he)
    · exact hd
    · exact h.writes e (List.mem_append_right _ he)
  · intro id o ho
    rw [put_tx_self] at ho ⊢
    rw [put_view]
    exact (h.objects id o ho).imp_left (has_apply hd)

theorem send (h : Mirrors t f i w) {d : Write M} {ds : List (Write M)}
    (hd : (w.tx i).dirty = d :: ds) (hr : d.refusal (w.view i) = none) :
    Mirrors t f i ((w.put i d).setTx i
      { w.tx i with writes := (w.tx i).writes ++ [d], dirty := ds }) := by
  have hview : ((w.put i d).setTx i
      { w.tx i with writes := (w.tx i).writes ++ [d], dirty := ds }).view i = d.apply (w.view i) :=
    (view_congr (by simp) (by simp)).trans (put_view w i d)
  refine ⟨by simpa [hd] using h.writes, ?_⟩
  intro id o ho
  rw [hview]
  simp only [setTx_tx_self] at ho ⊢
  rcases h.objects id o ho with hhas | ⟨r, hins, hid, hf⟩
  · exact Or.inl (has_apply (h.writes d (by simp [hd])) hhas)
  · rw [hd, List.mem_cons] at hins
    rcases hins with rfl | hins
    · subst hid
      exact Or.inl ⟨r, Write.lookup_insert_self (Write.insert_free hr).1, hf⟩
    · exact Or.inr ⟨r, hins, hid, hf⟩

theorem stage (h : Mirrors t f i w) {d : Write M} (hd : d.Retains t f) :
    Mirrors t f i (w.stage i d) := by
  have hview : (w.stage i d).view i = w.view i := view_congr rfl (by simp)
  refine ⟨?_, ?_⟩
  · intro e he
    rw [stage_writes, stage_dirty, ← List.append_assoc, List.mem_append,
      List.mem_singleton] at he
    rcases he with he | rfl
    · exact h.writes e he
    · exact hd
  · intro id o ho
    have hlift : ∀ o' : M.Row t, f o' = f o → (w.tx i).objects ⟨t, id⟩ = some o' →
        (w.view i).Has t (fun r => f r = f o) id ∨
          ∃ r, Write.insert t r ∈ ((w.stage i d).tx i).dirty ∧ M.id r = id ∧ f r = f o := by
      intro o' hsame ho'
      rw [← hsame, stage_dirty]
      refine (h.objects id o' ho').imp_right ?_
      rintro ⟨r, hr, hid, hf⟩
      exact ⟨r, List.mem_append_left _ hr, hid, hf⟩
    rw [hview]
    by_cases hk : d.key = ⟨t, id⟩
    · cases d with
      | insert t' r =>
          cases hk
          simp only [World.stage, setTx_tx_self, Function.update_self, Option.some.injEq] at ho
          subst ho
          exact Or.inr ⟨r, by simp, rfl, rfl⟩
      | update t' id' p =>
          cases hk
          have hobj := ho
          simp only [World.stage, setTx_tx_self, Function.update_self,
            Option.map_eq_some_iff] at hobj
          obtain ⟨o', ho', rfl⟩ := hobj
          exact hlift o' (hd rfl o').symm ho'
      | delete t' id' =>
          cases hk
          exact absurd rfl hd
    · rw [stage_objects_of_ne w i hk] at ho
      exact hlift o rfl ho

/-- What another session commits retains the parts as well. -/
theorem commit (hne : j ≠ i) (hw : w.WF) (hi : Mirrors t f i w) (hj : Mirrors t f j w) :
    Mirrors t f j (w.commit i) := by
  have hsame : (w.commit i).tx j = w.tx j := commit_tx_of_ne w hne
  refine ⟨?_, ?_⟩
  · rw [hsame]
    exact hj.writes
  · intro id o ho
    rw [hsame] at ho ⊢
    refine (hj.objects id o ho).imp_left ?_
    refine has_view_commit hne hw ?_
    rintro x ⟨r, hr, hf⟩
    obtain ⟨r', hr', hkeep⟩ := Db.lookup_applyAll_of_retains
      (fun d hd => hi.writes d (List.mem_append_left _ hd)) hr
    exact ⟨r', hr', hkeep.trans hf⟩

end Mirrors

end World

/-! ## Rows that move one way -/

section Rises

variable {R : M.Row t → M.Row t → Prop}

/-- Every row of a table is still there, and not below what it was. -/
def Db.Rises (t : M.Table) (R : M.Row t → M.Row t → Prop) (db db' : Db M) : Prop :=
  ∀ id r, db.lookup ⟨t, id⟩ = some r → ∃ r', db'.lookup ⟨t, id⟩ = some r' ∧ R r r'

theorem Db.rises_refl (hrefl : ∀ r, R r r) (db : Db M) : db.Rises t R db :=
  fun _ r hr => ⟨r, hr, hrefl r⟩

end Rises

end Sessions
