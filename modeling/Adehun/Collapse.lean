import Mathlib.Algebra.BigOperators.Group.List.Lemmas
import Mathlib.Data.List.Nodup
import Mathlib.Order.Lattice

/-!
# One row of each group

Rows that have a key in common form a group, and one row of each is to stay:
the first by rank. `leaders` are the rows that stay. Every group has one, and
where no two rows have the same rank it has one only; a table without groups
of several rows is left as it is.
-/

namespace Collapse

variable {α κ ρ : Type} [DecidableEq κ] [LinearOrder ρ] {key : α → κ} {rank : α → ρ}
  {rows : List α} {a b : α}

/-- No row of the same group comes before it. -/
def leads (key : α → κ) (rank : α → ρ) (rows : List α) (a : α) : Bool :=
  rows.all fun b => key b ≠ key a || decide (rank a ≤ rank b)

/-- The first row of each group. -/
def leaders (key : α → κ) (rank : α → ρ) (rows : List α) : List α :=
  rows.filter (leads key rank rows)

/-- The rank tells the rows apart. -/
def Ranked (rank : α → ρ) (rows : List α) : Prop :=
  ∀ a ∈ rows, ∀ b ∈ rows, rank a = rank b → a = b

theorem leads_iff : leads key rank rows a = true ↔
    ∀ b ∈ rows, key b = key a → rank a ≤ rank b := by
  simp [leads, or_iff_not_imp_left]

theorem mem_leaders : a ∈ leaders key rank rows ↔
    a ∈ rows ∧ ∀ b ∈ rows, key b = key a → rank a ≤ rank b := by
  rw [leaders, List.mem_filter, leads_iff]

variable (key rank) in
/-- Every group has a first row. -/
theorem exists_leader (h : a ∈ rows) : ∃ k ∈ leaders key rank rows, key k = key a := by
  have hleast : ∀ (l : List α) (a : α), a ∈ l →
      ∃ k ∈ l, key k = key a ∧ ∀ b ∈ l, key b = key a → rank k ≤ rank b := by
    intro l
    induction l with
    | nil => exact fun a ha => by cases ha
    | cons x xs ih =>
        intro a ha
        by_cases hgroup : ∃ y ∈ xs, key y = key a
        · obtain ⟨y, hy, hkey⟩ := hgroup
          obtain ⟨k, hk, hk', hle⟩ := ih y hy
          rw [hkey] at hk' hle
          by_cases hx : key x = key a ∧ rank x ≤ rank k
          · refine ⟨x, List.mem_cons_self, hx.1, ?_⟩
            intro b hb hbkey
            rcases List.mem_cons.mp hb with rfl | hb
            · exact le_refl _
            · exact hx.2.trans (hle b hb hbkey)
          · refine ⟨k, List.mem_cons_of_mem x hk, hk', ?_⟩
            intro b hb hbkey
            rcases List.mem_cons.mp hb with rfl | hb
            · exact le_of_not_ge fun hge => hx ⟨hbkey, hge⟩
            · exact hle b hb hbkey
        · have hax : a = x := by
            rcases List.mem_cons.mp ha with rfl | ha
            · rfl
            · exact absurd ⟨a, ha, rfl⟩ hgroup
          subst hax
          refine ⟨a, List.mem_cons_self, rfl, ?_⟩
          intro b hb hbkey
          rcases List.mem_cons.mp hb with rfl | hb
          · exact le_refl _
          · exact absurd ⟨b, hb, hbkey⟩ hgroup
  obtain ⟨k, hk, hkey, hle⟩ := hleast rows a h
  exact ⟨k, mem_leaders.mpr ⟨hk, by rw [hkey]; exact hle⟩, hkey⟩

/-- A group has one first row. -/
theorem eq_of_leaders (hr : Ranked rank rows) (ha : a ∈ leaders key rank rows)
    (hb : b ∈ leaders key rank rows) (hkey : key a = key b) : a = b := by
  obtain ⟨ha, hale⟩ := mem_leaders.mp ha
  obtain ⟨hb, hble⟩ := mem_leaders.mp hb
  exact hr a ha b hb (le_antisymm (hale b hb hkey.symm) (hble a ha hkey))

theorem leaders_keys_nodup (hr : Ranked rank rows) (hn : rows.Nodup) :
    ((leaders key rank rows).map key).Nodup :=
  List.Nodup.map_on (fun _ ha _ hb hkey => eq_of_leaders hr ha hb hkey) (hn.filter _)

/-- Rows that keep their group and their rank stay or go as they did. -/
theorem leaders_map {f : α → α} (hkey : ∀ a, key (f a) = key a) (hrank : ∀ a, rank (f a) = rank a) :
    leaders key rank (rows.map f) = (leaders key rank rows).map f := by
  rw [leaders, leaders, List.filter_map]
  congr 1
  refine List.filter_congr ?_
  intro a _
  simp [leads, List.all_map, Function.comp_def, hkey, hrank]

/-- Where every row is a group of its own, every row stays. -/
theorem leaders_eq_self (h : (rows.map key).Nodup) : leaders key rank rows = rows := by
  rw [leaders, List.filter_eq_self]
  intro a ha
  rw [leads_iff]
  intro b hb hkey
  rw [List.inj_on_of_nodup_map h hb ha hkey]

/-- The rows of the group of a key. -/
def group (key : α → κ) (rows : List α) (k : κ) : List α := rows.filter (key · = k)

theorem group_eq_singleton (h : (rows.map key).Nodup) (ha : a ∈ rows) :
    group key rows (key a) = [a] := by
  induction rows with
  | nil => cases ha
  | cons x xs ih =>
      rw [List.map_cons, List.nodup_cons] at h
      rw [group, List.filter_cons]
      rcases List.mem_cons.mp ha with rfl | ha
      · rw [if_pos (decide_eq_true rfl), List.filter_eq_nil_iff.mpr]
        intro b hb
        rw [decide_eq_true_eq]
        exact fun hkey => h.1 (List.mem_map.mpr ⟨b, hb, hkey⟩)
      · have hne : key x ≠ key a := fun hkey => h.1 (List.mem_map.mpr ⟨a, ha, hkey.symm⟩)
        rw [if_neg (by rw [decide_eq_true_eq]; exact hne)]
        exact ih h.2 ha

/-- A sum over the rows, group by group. -/
theorem sum_groups {A : Type} [AddCommGroup A] (f : α → A) {ks : List κ} (hn : ks.Nodup)
    (hcover : ∀ a ∈ rows, key a ∈ ks) :
    (ks.map fun k => ((group key rows k).map f).sum).sum = (rows.map f).sum := by
  induction rows with
  | nil => simp [group]
  | cons x xs ih =>
      have hsplit : ∀ k, ((group key (x :: xs) k).map f).sum =
          (if k = key x then f x else 0) + ((group key xs k).map f).sum := by
        intro k
        by_cases hk : k = key x
        · simp [group, hk]
        · simp [group, hk, Ne.symm hk]
      simp only [hsplit]
      rw [List.sum_map_add, List.sum_map_ite_eq,
        List.count_eq_one_of_mem hn (hcover x List.mem_cons_self),
        ih fun a ha => hcover a (List.mem_cons_of_mem x ha), List.map_cons, List.sum_cons,
        one_nsmul]
      simp

variable (key) in
/-- The same by the rows that stay. -/
theorem sum_leaders {A : Type} [AddCommGroup A] (f : α → A) (hr : Ranked rank rows)
    (hn : rows.Nodup) :
    ((leaders key rank rows).map fun k => ((group key rows (key k)).map f).sum).sum =
      (rows.map f).sum := by
  have hkeys : ((leaders key rank rows).map key).Nodup := leaders_keys_nodup hr hn
  rw [← sum_groups f hkeys, List.map_map]
  · rfl
  · intro a ha
    obtain ⟨k, hk, hkey⟩ := exists_leader key rank ha
    exact List.mem_map.mpr ⟨k, hk, hkey⟩

end Collapse
