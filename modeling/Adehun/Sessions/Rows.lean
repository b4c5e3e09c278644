import Adehun.Sessions.Machine
import Mathlib.Data.List.Nodup

/-!
# What a write does to a row

A write is about one row, the one its key names, and says nothing of the
others. Looking up a row after several writes therefore depends only on the
writes with its key, and on what the row was before: two databases that agree
on a row agree on it after the same writes. Everything the interleaving of
transactions is later argued from comes down to this.

The primary keys of a table stay distinct as long as no row is inserted under
a key that is taken; `Legal` says that of a list of writes.
-/

namespace Sessions

variable {M : System}

namespace Db

@[simp] theorem set_self (db : Db M) (t : M.Table) (rows : List (M.Row t)) :
    db.set t rows t = rows := by
  simp [set]

theorem set_of_ne (db : Db M) {t t' : M.Table} (rows : List (M.Row t)) (h : t' ≠ t) :
    db.set t rows t' = db t' :=
  dif_neg (Ne.symm h)

theorem lookup_id {db : Db M} {k : Key M} {r : M.Row k.table}
    (h : db.lookup k = some r) : M.id r = k.id := by
  simpa using List.find?_some h

theorem lookup_mem {db : Db M} {k : Key M} {r : M.Row k.table}
    (h : db.lookup k = some r) : r ∈ db k.table :=
  List.mem_of_find?_eq_some h

theorem lookup_eq_none {db : Db M} {k : Key M} :
    db.lookup k = none ↔ k.id ∉ (db k.table).map M.id := by
  simp only [lookup, List.find?_eq_none, beq_iff_eq, List.mem_map, not_exists, not_and]

/-- The primary keys of every table are distinct. -/
def KeysDistinct (db : Db M) : Prop := ∀ t, ((db t).map M.id).Nodup

theorem KeysDistinct.lookup {db : Db M} (h : db.KeysDistinct) {t : M.Table}
    {r : M.Row t} (hr : r ∈ db t) : db.lookup ⟨t, M.id r⟩ = some r := by
  cases hf : db.lookup ⟨t, M.id r⟩ with
  | none => exact absurd (List.mem_map_of_mem hr) (lookup_eq_none.mp hf)
  | some r' =>
      have hid := lookup_id hf
      rw [List.inj_on_of_nodup_map (h t) (lookup_mem hf) hr hid]

end Db

namespace Write

@[simp] theorem key_insert (t : M.Table) (r : M.Row t) :
    (Write.insert t r).key = ⟨t, M.id r⟩ := rfl

@[simp] theorem key_update (t : M.Table) (id : Nat) (f : Patch M t) :
    (Write.update t id f).key = ⟨t, id⟩ := rfl

@[simp] theorem key_delete (t : M.Table) (id : Nat) :
    (Write.delete t id : Write M).key = ⟨t, id⟩ := rfl

theorem apply_table_of_ne {d : Write M} {t : M.Table} (db : Db M)
    (h : d.key.table ≠ t) : d.apply db t = db t := by
  cases d <;> exact Db.set_of_ne db _ (Ne.symm h)

theorem lookup_insert (db : Db M) (t : M.Table) (r : M.Row t) (id : Nat) :
    ((Write.insert t r).apply db).lookup ⟨t, id⟩ =
      (db.lookup ⟨t, id⟩).or (if M.id r = id then some r else none) := by
  simp only [apply, Db.lookup, Db.set_self, List.find?_append]
  congr 1
  by_cases h : M.id r = id <;> simp [h]

theorem lookup_insert_self {db : Db M} {t : M.Table} {r : M.Row t}
    (h : db.lookup ⟨t, M.id r⟩ = none) :
    ((Write.insert t r).apply db).lookup ⟨t, M.id r⟩ = some r := by
  rw [lookup_insert, h, if_pos rfl, Option.none_or]

theorem lookup_update (db : Db M) (t : M.Table) (id id' : Nat) (f : Patch M t) :
    ((Write.update t id f).apply db).lookup ⟨t, id'⟩ =
      (db.lookup ⟨t, id'⟩).map fun r => if id' = id then f.run r else r := by
  have hp : ((fun r => M.id r == id') ∘ fun r : M.Row t => if M.id r = id then f.run r else r)
      = fun r => M.id r == id' := by
    funext r
    by_cases h : M.id r = id <;> simp [h, f.id_run]
  simp only [apply, Db.lookup, Db.set_self, List.find?_map, hp]
  cases hf : (db t).find? (fun r => M.id r == id') with
  | none => rfl
  | some r =>
      have hid : M.id r = id' := by simpa using List.find?_some hf
      simp [hid]

theorem lookup_delete (db : Db M) (t : M.Table) (id id' : Nat) :
    ((Write.delete t id : Write M).apply db).lookup ⟨t, id'⟩ =
      if id' = id then none else db.lookup ⟨t, id'⟩ := by
  simp only [apply, Db.lookup, Db.set_self, List.find?_filter]
  by_cases h : id' = id
  · rw [if_pos h, List.find?_eq_none]
    intro r _
    simp only [ne_eq, beq_iff_eq, decide_eq_true_eq, not_and]
    intro hne hid
    exact hne (hid.trans h)
  · rw [if_neg h]
    congr 1
    funext r
    by_cases hr : M.id r = id'
    · have : M.id r ≠ id := fun he => h (hr.symm.trans he)
      simp [hr, h]
    · simp [hr]

theorem lookup_apply_of_ne {d : Write M} {k : Key M} (db : Db M) (h : d.key ≠ k) :
    (d.apply db).lookup k = db.lookup k := by
  obtain ⟨t', id'⟩ := k
  by_cases ht : d.key.table = t'
  · cases d with
    | insert t r =>
        obtain rfl : t = t' := ht
        have hid : M.id r ≠ id' := fun he => h (by rw [key_insert, he])
        rw [lookup_insert, if_neg hid, Option.or_none]
    | update t id f =>
        obtain rfl : t = t' := ht
        have hid : id' ≠ id := fun he => h (by rw [key_update, he])
        rw [lookup_update]
        simp [hid]
    | delete t id =>
        obtain rfl : t = t' := ht
        have hid : id' ≠ id := fun he => h (by rw [key_delete, he])
        rw [lookup_delete, if_neg hid]
  · simp only [Db.lookup, apply_table_of_ne db ht]

theorem lookup_apply_congr {d : Write M} {k : Key M} {db db' : Db M}
    (h : db.lookup k = db'.lookup k) :
    (d.apply db).lookup k = (d.apply db').lookup k := by
  by_cases hk : d.key = k
  · obtain ⟨t', id'⟩ := k
    cases d with
    | insert t r =>
        cases hk
        rw [lookup_insert, lookup_insert, h]
    | update t id f =>
        cases hk
        rw [lookup_update, lookup_update, h]
    | delete t id =>
        cases hk
        rw [lookup_delete, lookup_delete, if_pos rfl, if_pos rfl]
  · rw [lookup_apply_of_ne db hk, lookup_apply_of_ne db' hk, h]

end Write

namespace Db

@[simp] theorem applyAll_nil (db : Db M) : db.applyAll [] = db := rfl

@[simp] theorem applyAll_cons (db : Db M) (d : Write M) (ds : List (Write M)) :
    db.applyAll (d :: ds) = (d.apply db).applyAll ds := rfl

theorem applyAll_append (db : Db M) (ds ds' : List (Write M)) :
    db.applyAll (ds ++ ds') = (db.applyAll ds).applyAll ds' :=
  List.foldl_append

theorem applyAll_concat (db : Db M) (ds : List (Write M)) (d : Write M) :
    db.applyAll (ds ++ [d]) = d.apply (db.applyAll ds) :=
  applyAll_append db ds [d]

theorem lookup_applyAll_of_not_mem {ds : List (Write M)} {k : Key M}
    (h : ∀ d ∈ ds, d.key ≠ k) (db : Db M) : (db.applyAll ds).lookup k = db.lookup k := by
  induction ds generalizing db with
  | nil => rfl
  | cons d ds ih =>
      rw [applyAll_cons, ih (fun d' hd' => h d' (List.mem_cons_of_mem d hd')),
        Write.lookup_apply_of_ne db (h d List.mem_cons_self)]

theorem lookup_applyAll_congr {k : Key M} {db db' : Db M}
    (h : db.lookup k = db'.lookup k) (ds : List (Write M)) :
    (db.applyAll ds).lookup k = (db'.applyAll ds).lookup k := by
  induction ds generalizing db db' with
  | nil => exact h
  | cons d ds ih => exact ih (Write.lookup_apply_congr h)

/-- Writes that are about other rows may be left out. -/
theorem lookup_applyAll_filter {p : Write M → Bool} {k : Key M} {ds : List (Write M)}
    (h : ∀ d ∈ ds, d.key = k → p d = true) (db : Db M) :
    (db.applyAll ds).lookup k = (db.applyAll (ds.filter p)).lookup k := by
  induction ds generalizing db with
  | nil => rfl
  | cons d ds ih =>
      have ih' := ih (fun d' hd' => h d' (List.mem_cons_of_mem d hd'))
      by_cases hp : p d = true
      · rw [List.filter_cons_of_pos hp]
        exact ih' _
      · rw [List.filter_cons_of_neg hp, applyAll_cons, ih']
        refine lookup_applyAll_congr (Write.lookup_apply_of_ne db fun hk => hp ?_) _
        exact h d List.mem_cons_self hk

/-- A row that is only ever inserted is an old one, or inserted as it is. -/
theorem lookup_applyAll_of_inserts {t : M.Table} {id : Nat} {ds : List (Write M)}
    (h : ∀ d ∈ ds, d.key = ⟨t, id⟩ → ∃ r, d = .insert t r) {db : Db M} {r : M.Row t}
    (hr : (db.applyAll ds).lookup ⟨t, id⟩ = some r) :
    db.lookup ⟨t, id⟩ = some r ∨ Write.insert t r ∈ ds := by
  induction ds generalizing db with
  | nil => exact Or.inl hr
  | cons d ds ih =>
      rcases ih (fun d' hd' => h d' (List.mem_cons_of_mem d hd')) hr with hrow | hmem
      · by_cases hk : d.key = ⟨t, id⟩
        · obtain ⟨r', rfl⟩ := h d List.mem_cons_self hk
          rw [Write.lookup_insert] at hrow
          split at hrow
          · rcases Option.or_eq_some_iff.mp hrow with hrow | ⟨-, hrow⟩
            · exact Or.inl hrow
            · cases hrow
              exact Or.inr List.mem_cons_self
          · rw [Option.or_none] at hrow
            exact Or.inl hrow
        · rw [Write.lookup_apply_of_ne db hk] at hrow
          exact Or.inl hrow
      · exact Or.inr (List.mem_cons_of_mem d hmem)

/-- A write in between says nothing of the other rows. -/
theorem lookup_applyAll_middle {d : Write M} {k : Key M} (hk : d.key ≠ k) (db : Db M)
    (ds ds' : List (Write M)) :
    (db.applyAll (ds ++ d :: ds')).lookup k = (db.applyAll (ds ++ ds')).lookup k := by
  rw [applyAll_append, applyAll_append, applyAll_cons]
  exact lookup_applyAll_congr (Write.lookup_apply_of_ne _ hk) ds'

/-- Every row inserted has a key that is free at that point. -/
def Legal (db : Db M) : List (Write M) → Prop
  | [] => True
  | d :: ds =>
      (∀ t r, d = .insert t r → db.lookup ⟨t, M.id r⟩ = none) ∧ Legal (d.apply db) ds

theorem legal_append {db : Db M} {ds ds' : List (Write M)} :
    db.Legal (ds ++ ds') ↔ db.Legal ds ∧ (db.applyAll ds).Legal ds' := by
  induction ds generalizing db with
  | nil => simp [Legal]
  | cons d ds ih => simp only [List.cons_append, Legal, ih, applyAll_cons, and_assoc]

/-- Legality of some writes depends on the rows they are about alone. -/
theorem Legal.congr {db db' : Db M} {ds : List (Write M)} (hl : db.Legal ds)
    (h : ∀ d ∈ ds, db.lookup d.key = db'.lookup d.key) : db'.Legal ds := by
  induction ds generalizing db db' with
  | nil => trivial
  | cons d ds ih =>
      refine ⟨?_, ih hl.2 ?_⟩
      · rintro t r rfl
        have := h _ List.mem_cons_self
        rw [Write.key_insert] at this
        rw [← this]
        exact hl.1 t r rfl
      · intro d' hd'
        exact Write.lookup_apply_congr (h d' (List.mem_cons_of_mem d hd'))

/-- Of a table only the writes to it say anything. -/
theorem applyAll_table (t : M.Table) (ds : List (Write M)) {db db' : Db M}
    (h : db t = db' t) :
    db.applyAll ds t = db'.applyAll (ds.filter fun d => d.key.table = t) t := by
  induction ds generalizing db db' with
  | nil => exact h
  | cons d ds ih =>
      by_cases hd : d.key.table = t
      · rw [List.filter_cons_of_pos (by simp [hd]), applyAll_cons, applyAll_cons]
        refine ih ?_
        subst hd
        cases d <;> simp only [Write.key_insert, Write.key_update, Write.key_delete] at h ⊢ <;>
          simp only [Write.apply, set_self, h]
      · rw [List.filter_cons_of_neg (by simp [hd]), applyAll_cons]
        exact ih ((Write.apply_table_of_ne db hd).trans h)

/-- So is whether they are legal. -/
theorem Legal.table (t : M.Table) {ds : List (Write M)} {db db' : Db M}
    (hl : db.Legal ds) (h : db t = db' t) :
    db'.Legal (ds.filter fun d => d.key.table = t) := by
  induction ds generalizing db db' with
  | nil => trivial
  | cons d ds ih =>
      have happly := applyAll_table t [d] h
      by_cases hd : d.key.table = t
      · rw [List.filter_cons_of_pos (by simp [hd])] at happly ⊢
        refine ⟨?_, ih hl.2 happly⟩
        rintro t' r rfl
        obtain rfl : t' = t := hd
        have hnone := hl.1 _ r rfl
        rwa [lookup, h] at hnone
      · rw [List.filter_cons_of_neg (by simp [hd])] at happly ⊢
        exact ih hl.2 happly

theorem keysDistinct_apply {db : Db M} (hk : db.KeysDistinct) {d : Write M}
    (hd : ∀ t r, d = .insert t r → db.lookup ⟨t, M.id r⟩ = none) :
    (d.apply db).KeysDistinct := by
  intro t
  by_cases ht : d.key.table = t
  · cases d with
    | insert t' r =>
        obtain rfl : t' = t := ht
        simp only [Write.apply, Db.set_self, List.map_append, List.map_cons,
          List.map_nil]
        rw [← List.concat_eq_append, List.nodup_concat]
        exact ⟨lookup_eq_none.mp (hd t' r rfl), hk t'⟩
    | update t' id f =>
        obtain rfl : t' = t := ht
        simp only [Write.apply, Db.set_self, List.map_map]
        have he : (M.id ∘ fun r : M.Row t' => if M.id r = id then f.run r else r) = M.id := by
          funext r
          by_cases h : M.id r = id <;> simp [h, f.id_run]
        rw [he]
        exact hk t'
    | delete t' id =>
        obtain rfl : t' = t := ht
        simp only [Write.apply, Db.set_self]
        exact (hk t').sublist (List.filter_sublist.map _)
  · rw [Write.apply_table_of_ne db ht]
    exact hk t

theorem keysDistinct_applyAll {db : Db M} (hk : db.KeysDistinct) {ds : List (Write M)}
    (hl : db.Legal ds) : (db.applyAll ds).KeysDistinct := by
  induction ds generalizing db with
  | nil => exact hk
  | cons d ds ih => exact ih (keysDistinct_apply hk hl.1) hl.2

end Db

end Sessions
