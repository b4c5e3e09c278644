import Adehun.Sessions.Stable

/-!
# Rows with a unique key

A table whose rows have a key of their own, under a unique index, is a store
of cells: one row for a key, or none. A session that writes one row of such a
table is at one cell. It holds the row and the index entry, so the cell is
nobody else's until the transaction ends, and the other cells are what is
committed of them.
-/

namespace Sessions

variable {M : System} {K : Type} [DecidableEq K]

/-- A table and the unique key of its rows. -/
structure Cells (M : System) (K : Type) [DecidableEq K] where
  table : M.Table
  key : M.Row table → K
  entry : K → M.Index
  entry_mem : ∀ r, entry (key r) ∈ M.entries r

namespace Cells

variable (S : Cells M K)

/-- The row with a key. -/
def cell (db : Db M) (k : K) : Option (M.Row S.table) :=
  (db S.table).find? fun r => S.key r = k

variable {S} {db db' : Db M} {k : K} {r r' : M.Row S.table} {id id' : Nat}

/-- A key has one row. -/
theorem unique (he : db.EntriesDistinct) (h : db.lookup ⟨S.table, id⟩ = some r)
    (h' : db.lookup ⟨S.table, id'⟩ = some r') (hk : S.key r = S.key r') : id = id' := by
  by_contra hne
  refine he S.table id id' r r' hne h h' _ (S.entry_mem r) ?_
  rw [hk]
  exact S.entry_mem r'

theorem cell_eq_some (hd : db.KeysDistinct) (he : db.EntriesDistinct) :
    S.cell db k = some r ↔ db.lookup ⟨S.table, M.id r⟩ = some r ∧ S.key r = k := by
  constructor
  · intro h
    have hkey : S.key r = k := by simpa using List.find?_some h
    exact ⟨hd.lookup (List.mem_of_find?_eq_some h), hkey⟩
  · rintro ⟨hr, rfl⟩
    cases hfound : S.cell db (S.key r) with
    | none =>
        have := List.find?_eq_none.mp hfound r (Db.lookup_mem hr)
        simp at this
    | some r' =>
        have hkey : S.key r' = S.key r := by simpa using List.find?_some hfound
        have hr' := hd.lookup (List.mem_of_find?_eq_some hfound)
        have hid := unique he hr' hr hkey
        rw [hid, hr] at hr'
        exact hr'.symm

/-- A cell is the same in two states that have the same rows for its key. -/
theorem cell_congr (hd : db.KeysDistinct) (he : db.EntriesDistinct) (hd' : db'.KeysDistinct)
    (he' : db'.EntriesDistinct)
    (h : ∀ r, S.key r = k → (db.lookup ⟨S.table, M.id r⟩ = some r ↔
      db'.lookup ⟨S.table, M.id r⟩ = some r)) : S.cell db k = S.cell db' k := by
  refine Option.ext fun r => ?_
  rw [cell_eq_some hd he, cell_eq_some hd' he']
  exact ⟨fun hr => ⟨(h r hr.2).mp hr.1, hr.2⟩, fun hr => ⟨(h r hr.2).mpr hr.1, hr.2⟩⟩

/-- The cell of a key whose rows are all in one place. -/
theorem cell_eq_lookup (hd : db.KeysDistinct) (he : db.EntriesDistinct)
    (hkey : ∀ r, db.lookup ⟨S.table, id⟩ = some r → S.key r = k)
    (halone : ∀ id' r, db.lookup ⟨S.table, id'⟩ = some r → S.key r = k → id' = id) :
    S.cell db k = db.lookup ⟨S.table, id⟩ := by
  refine Option.ext fun r => ?_
  rw [cell_eq_some hd he]
  constructor
  · rintro ⟨hr, hk⟩
    rw [halone _ r hr hk] at hr
    exact hr
  · intro hr
    have hid : M.id r = id := Db.lookup_id (k := ⟨S.table, id⟩) hr
    rw [hid]
    exact ⟨hr, hkey r hr⟩

/-! ## A session at a cell -/

variable {w w' : World M} {i j : Nat} {d : Write M}

variable (S) in
/-- Session `i` has written nothing of the table. -/
def Clear (i : Nat) (w : World M) : Prop := ∀ id, ¬ w.Touches i ⟨S.table, id⟩

variable (S) in
/-- Session `i` has written one row of the table, the one for a key. -/
structure At (k : K) (id i : Nat) (w : World M) : Prop where
  wrote : w.Touches i ⟨S.table, id⟩
  only : ∀ id', w.Touches i ⟨S.table, id'⟩ → id' = id
  row : w.holder (.row ⟨S.table, id⟩) = some i
  entry : w.holder (.entry (S.entry k)) = some i
  before : ∀ r, w.db.lookup ⟨S.table, id⟩ = some r → S.key r = k
  after : ∀ r, (w.view i).lookup ⟨S.table, id⟩ = some r → S.key r = k
  alone : ∀ id' r, w.db.lookup ⟨S.table, id'⟩ = some r → S.key r = k → id' = id

theorem Clear.lookup (h : S.Clear i w) (id : Nat) :
    (w.view i).lookup ⟨S.table, id⟩ = w.db.lookup ⟨S.table, id⟩ :=
  World.lookup_view_of_not_touches (h id)

theorem Clear.cell (h : S.Clear i w) (hw : w.WF) (k : K) :
    S.cell (w.view i) k = S.cell w.db k :=
  cell_congr (hw.view_keys i) (hw.distinct i) hw.keys hw.entries
    fun r _ => by rw [h.lookup]

namespace At

theorem cell_before (h : S.At k id i w) (hw : w.WF) :
    S.cell w.db k = w.db.lookup ⟨S.table, id⟩ :=
  cell_eq_lookup hw.keys hw.entries h.before h.alone

theorem lookup_of_ne (h : S.At k id i w) (hne : id' ≠ id) :
    (w.view i).lookup ⟨S.table, id'⟩ = w.db.lookup ⟨S.table, id'⟩ :=
  World.lookup_view_of_not_touches fun ht => hne (h.only id' ht)

theorem cell_after (h : S.At k id i w) (hw : w.WF) :
    S.cell (w.view i) k = (w.view i).lookup ⟨S.table, id⟩ := by
  refine cell_eq_lookup (hw.view_keys i) (hw.distinct i) h.after ?_
  intro id' r hr hk
  by_contra hne
  rw [h.lookup_of_ne hne] at hr
  exact hne (h.alone id' r hr hk)

/-- The other cells are what is committed of them. -/
theorem cell_of_ne (h : S.At k id i w) (hw : w.WF) {k' : K} (hne : k' ≠ k) :
    S.cell (w.view i) k' = S.cell w.db k' := by
  refine cell_congr (hw.view_keys i) (hw.distinct i) hw.keys hw.entries ?_
  intro r hr
  by_cases hid : M.id r = id
  · rw [hid]
    constructor
    · exact fun hlook => absurd (hr.symm.trans (h.after r hlook)) hne
    · exact fun hlook => absurd (hr.symm.trans (h.before r hlook)) hne
  · rw [h.lookup_of_ne hid]

theorem congr (h : S.At k id i w) (hdb : w'.db = w.db)
    (hwrites : (w'.tx i).writes = (w.tx i).writes)
    (hholder : ∀ l, w.holder l = some i → w'.holder l = some i) : S.At k id i w' := by
  refine ⟨(World.touches_congr hwrites).mpr h.wrote, ?_, hholder _ h.row, hholder _ h.entry,
    ?_, ?_, ?_⟩
  · intro id' ht
    rw [World.touches_congr hwrites] at ht
    exact h.only id' ht
  · rw [hdb]
    exact h.before
  · rw [World.view_congr hdb hwrites]
    exact h.after
  · rw [hdb]
    exact h.alone

theorem not_touches (h : S.At k id i w) (hw : w.WF) (hne : j ≠ i) :
    ¬ w.Touches j ⟨S.table, id⟩ :=
  hw.not_touches_of_holds hne h.row

/-- The commit of another session leaves a session at its cell. -/
theorem commit (h : S.At k id i w) (hw : w.WF) (hne : j ≠ i) :
    S.At k id i (w.commit j) := by
  have htx : (w.commit j).tx i = w.tx i := World.commit_tx_of_ne w (Ne.symm hne)
  have hholder : ∀ l, w.holder l = some i → (w.commit j).holder l = some i :=
    fun l hl => World.reset_holder_of_ne (w := { w with db := w.view j }) (Ne.symm hne) hl
  have hrow : (w.view j).lookup ⟨S.table, id⟩ = w.db.lookup ⟨S.table, id⟩ :=
    World.lookup_view_of_not_touches (h.not_touches hw hne)
  refine ⟨?_, ?_, hholder _ h.row, hholder _ h.entry, ?_, ?_, ?_⟩
  · rw [World.Touches, htx]
    exact h.wrote
  · intro id' ht
    rw [World.Touches, htx] at ht
    exact h.only id' ht
  · rw [World.commit_db, hrow]
    exact h.before
  · rw [World.lookup_view_commit (Ne.symm hne) (h.not_touches hw hne)]
    exact h.after
  · intro id' r hr hk
    rw [World.commit_db] at hr
    by_cases ht : w.Touches j ⟨S.table, id'⟩
    · have htaken := hw.taken j _ r ht hr _ (S.entry_mem r)
      rw [hk, h.entry] at htaken
      exact absurd (Option.some.inj htaken).symm hne
    · rw [World.lookup_view_of_not_touches ht] at hr
      exact h.alone id' r hr hk

/-- The committed cell does not change either. -/
theorem cell_commit (h : S.At k id i w) (hw : w.WF) (hne : j ≠ i) :
    S.cell (w.view j) k = S.cell w.db k := by
  have hafter := (h.commit hw hne).cell_before (hw.commit j)
  rw [World.commit_db] at hafter
  rw [hafter, h.cell_before hw]
  exact World.lookup_view_of_not_touches (h.not_touches hw hne)

/-- Nor does the cell in view. -/
theorem cell_view_commit (h : S.At k id i w) (hw : w.WF) (hne : j ≠ i) :
    S.cell ((w.commit j).view i) k = S.cell (w.view i) k := by
  rw [(h.commit hw hne).cell_after (hw.commit j), h.cell_after hw]
  exact World.lookup_view_commit (Ne.symm hne) (h.not_touches hw hne)

end At

/-- The commit of another session leaves a session clear. -/
theorem Clear.commit (h : S.Clear i w) (hne : j ≠ i) : S.Clear i (w.commit j) := by
  intro id ht
  rw [World.Touches, World.commit_tx_of_ne w (Ne.symm hne)] at ht
  exact h id ht

theorem Clear.congr (h : S.Clear i w) (hwrites : (w'.tx i).writes = (w.tx i).writes) :
    S.Clear i w' := by
  intro id ht
  rw [World.touches_congr hwrites] at ht
  exact h id ht

theorem Clear.of_nil (h : (w.tx i).writes = []) : S.Clear i w := by
  rintro id ⟨d, hd, -⟩
  rw [h] at hd
  cases hd

theorem Clear.put (h : S.Clear i w) (hd : d.key.table ≠ S.table) : S.Clear i (w.put i d) := by
  rintro id ⟨e, he, hk⟩
  rw [World.put_tx_self, List.mem_append, List.mem_singleton] at he
  rcases he with he | rfl
  · exact h id ⟨e, he, hk⟩
  · exact hd (congrArg Key.table hk)

theorem touches_put {d : Write M} {k : Key M} :
    (w.put i d).Touches i k ↔ w.Touches i k ∨ d.key = k := by
  simp [World.Touches, or_and_right, exists_or]

/-- A new row takes a session to its cell. -/
theorem Clear.insert (h : S.Clear i w) (hr : (Write.insert S.table r).refusal (w.view i) = none) :
    S.At (S.key r) (M.id r) i (w.put i (.insert S.table r)) := by
  obtain ⟨hnew, hclash⟩ := Write.insert_free hr
  have hlocks : ∀ l ∈ (Write.insert S.table r).locks (w.view i),
      (w.put i (.insert S.table r)).holder l = some i := by
    intro l hl
    rw [World.put_holder, if_pos hl]
  refine ⟨touches_put.mpr (Or.inr rfl), ?_, hlocks _ ?_, hlocks _ ?_, ?_, ?_, ?_⟩
  · intro id' ht
    rcases touches_put.mp ht with ht | ht
    · exact absurd ht (h id')
    · cases ht
      rfl
  · exact Write.key_mem_locks (.insert S.table r) _
  · exact List.mem_cons_of_mem _ (List.mem_map_of_mem (S.entry_mem r))
  · intro r' hr'
    rw [World.put_db, ← h.lookup, hnew] at hr'
    cases hr'
  · intro r' hr'
    rw [World.put_view, Write.lookup_insert_self hnew] at hr'
    cases hr'
    rfl
  · intro id' r' hr' hk
    by_contra hne
    rw [World.put_db, ← h.lookup] at hr'
    have hid : M.id r' = id' := Db.lookup_id (k := ⟨S.table, id'⟩) hr'
    have hnot := Db.not_clash hclash (Db.lookup_mem (k := ⟨S.table, id'⟩) hr')
      (by rw [hid]; exact hne)
    refine hnot _ (S.entry_mem r') ?_
    rw [hk]
    exact S.entry_mem r

/-- An update of a row that leaves its key takes a session to its cell. -/
theorem Clear.update (h : S.Clear i w) (hw : w.WF) {p : Patch M S.table}
    (hrow : (w.view i).lookup ⟨S.table, id⟩ = some r) (hp : S.key (p.run r) = S.key r) :
    S.At (S.key r) id i (w.put i (.update S.table id p)) := by
  have hdb : w.db.lookup ⟨S.table, id⟩ = some r := by rw [← h.lookup, hrow]
  have hlocks : ∀ l ∈ (Write.update S.table id p).locks (w.view i),
      (w.put i (.update S.table id p)).holder l = some i := by
    intro l hl
    rw [World.put_holder, if_pos hl]
  refine ⟨touches_put.mpr (Or.inr rfl), ?_, hlocks _ ?_, hlocks _ ?_, ?_, ?_, ?_⟩
  · intro id' ht
    rcases touches_put.mp ht with ht | ht
    · exact absurd ht (h id')
    · cases ht
      rfl
  · exact Write.key_mem_locks (.update S.table id p) _
  · simp only [Write.locks, hrow]
    refine List.mem_cons_of_mem _ (List.mem_map_of_mem ?_)
    exact List.mem_append_left _ (S.entry_mem r)
  · intro r' hr'
    rw [World.put_db, hdb] at hr'
    cases hr'
    rfl
  · intro r' hr'
    rw [World.put_view, Write.lookup_update, hrow] at hr'
    simp only [Option.map_some, if_true, Option.some.injEq] at hr'
    rw [← hr', hp]
  · intro id' r' hr' hk
    rw [World.put_db] at hr'
    exact unique hw.entries hr' hdb hk

/-- Another update of the row leaves a session at its cell. -/
theorem At.update (h : S.At k id i w) {p : Patch M S.table}
    (hp : ∀ r, (w.view i).lookup ⟨S.table, id⟩ = some r → S.key (p.run r) = k) :
    S.At k id i (w.put i (.update S.table id p)) := by
  have hholds : ∀ l, w.holder l = some i →
      (w.put i (.update S.table id p)).holder l = some i := by
    intro l hl
    rw [World.put_holder]
    split
    · rfl
    · exact hl
  refine ⟨touches_put.mpr (Or.inr rfl), ?_, hholds _ h.row, hholds _ h.entry, ?_, ?_, ?_⟩
  · intro id' ht
    rcases touches_put.mp ht with ht | ht
    · exact h.only id' ht
    · cases ht
      rfl
  · rw [World.put_db]
    exact h.before
  · intro r' hr'
    rw [World.put_view, Write.lookup_update] at hr'
    obtain ⟨r, hr, rfl⟩ := Option.map_eq_some_iff.mp hr'
    rw [if_pos rfl]
    exact hp r hr
  · rw [World.put_db]
    exact h.alone

/-- A write to another table leaves a session at its cell. -/
theorem At.put (h : S.At k id i w) (hd : d.key.table ≠ S.table) : S.At k id i (w.put i d) := by
  have hholds : ∀ l, w.holder l = some i → (w.put i d).holder l = some i := by
    intro l hl
    rw [World.put_holder]
    split
    · rfl
    · exact hl
  have hne : ∀ id', d.key ≠ ⟨S.table, id'⟩ := fun id' hk => hd (congrArg Key.table hk)
  refine ⟨touches_put.mpr (Or.inl h.wrote), ?_, hholds _ h.row, hholds _ h.entry, ?_, ?_, ?_⟩
  · intro id' ht
    exact h.only id' ((touches_put.mp ht).resolve_right (hne id'))
  · rw [World.put_db]
    exact h.before
  · rw [World.put_view, Write.lookup_apply_of_ne _ (hne id)]
    exact h.after
  · rw [World.put_db]
    exact h.alone

end Cells

end Sessions
