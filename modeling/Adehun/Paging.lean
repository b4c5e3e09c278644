import Mathlib.Data.List.Sort

/-!
# Reading a list page by page

A page is what comes after so many elements, up to a limit. A reader asks for
one page after the other, and the list may be another one each time. As long
as it only grows, wherever the new elements go, the reader misses nothing
that was there at the beginning: what is not on a page yet can only have been
pushed on to a later one.
-/

namespace Paging

variable {α : Type}

/-- `OFFSET skip LIMIT limit` -/
def page (skip limit : Nat) (l : List α) : List α := (l.drop skip).take limit

/-- The pages of a reader who finds these lists, from some page on. -/
def walk (limit : Nat) : (k : Nat) → List (List α) → List (List α)
  | _, [] => []
  | k, l :: ls => page (k * limit) limit l :: walk limit (k + 1) ls

theorem drop_eq_page_append (skip limit : Nat) (l : List α) :
    l.drop skip = page skip limit l ++ l.drop (skip + limit) := by
  rw [page, ← List.drop_drop, List.take_append_drop]

/-- To read the pages by something else about the elements is to read that
of the pages. -/
theorem walk_pages {β : Type} {ι : Type*} (f : α → β) (limit k : Nat) (is : List ι) (l : ι → List α) :
    (walk limit k (is.map l)).map (fun p => p.map f) =
      walk limit k (is.map fun i => (l i).map f) := by
  induction is generalizing k with
  | nil => rfl
  | cons i is ih =>
      rw [List.map_cons, List.map_cons, walk, walk, List.map_cons, ih, page, page, List.map_take,
        List.map_drop]

/-- What is left of the list is on the pages that follow, if the last of them
reaches its end. -/
theorem mem_walk_of_mem_drop {limit k : Nat} {l : List α} {ls : List (List α)} {x : α}
    (hgrow : (l :: ls).IsChain List.Sublist) (hx : x ∈ l.drop (k * limit))
    (hend : ((l :: ls).getLast (List.cons_ne_nil l ls)).length ≤ (k + (l :: ls).length) * limit) :
    ∃ p ∈ walk limit k (l :: ls), x ∈ p := by
  induction ls generalizing k l with
  | nil =>
      refine ⟨_, List.mem_cons_self, ?_⟩
      rw [drop_eq_page_append (k * limit) limit, List.mem_append] at hx
      refine hx.resolve_right ?_
      have hle : l.length ≤ k * limit + limit := by
        simpa [Nat.add_mul] using hend
      rw [List.drop_eq_nil_of_le hle]
      exact List.not_mem_nil
  | cons l' ls ih =>
      rw [drop_eq_page_append (k * limit) limit, List.mem_append] at hx
      rcases hx with hx | hx
      · exact ⟨_, List.mem_cons_self, hx⟩
      · rw [List.isChain_cons_cons] at hgrow
        have hx' : x ∈ l'.drop ((k + 1) * limit) := by
          rw [Nat.add_mul, Nat.one_mul]
          exact (hgrow.1.drop _).subset hx
        have hend' : ((l' :: ls).getLast (List.cons_ne_nil l' ls)).length ≤
            (k + 1 + (l' :: ls).length) * limit := by
          rw [List.getLast_cons (List.cons_ne_nil l' ls)] at hend
          rw [Nat.add_assoc, Nat.add_comm 1]
          exact hend
        obtain ⟨p, hp, hmem⟩ := ih hgrow.2 hx' hend'
        exact ⟨p, List.mem_cons_of_mem _ hp, hmem⟩

/-- A reader who reads to the end of a list that grows sees everything that
was there at the beginning. -/
theorem mem_walk {limit : Nat} {l : List α} {ls : List (List α)} {x : α}
    (hgrow : (l :: ls).IsChain List.Sublist) (hx : x ∈ l)
    (hend : ((l :: ls).getLast (List.cons_ne_nil l ls)).length ≤ (l :: ls).length * limit) :
    ∃ p ∈ walk limit 0 (l :: ls), x ∈ p :=
  mem_walk_of_mem_drop hgrow (by simpa using hx) (by simpa using hend)

/-- Sorted by a linear order, a list that grows keeps its elements in order. -/
theorem mergeSort_sublist [LinearOrder α] {l l' : List α} (h : l.Sublist l') :
    (l.mergeSort (fun a b => decide (b ≤ a))).Sublist (l'.mergeSort fun a b => decide (b ≤ a)) := by
  have hsorted : ∀ m : List α,
      (m.mergeSort fun a b => decide (b ≤ a)).Pairwise fun a b => b ≤ a := by
    intro m
    refine (List.pairwise_mergeSort ?_ ?_ m).imp fun hab => of_decide_eq_true hab
    · intro a b c hab hbc
      rw [decide_eq_true_eq] at hab hbc ⊢
      exact hbc.trans hab
    · intro a b
      rw [Bool.or_eq_true, decide_eq_true_eq, decide_eq_true_eq]
      exact le_total b a
  have : Std.Antisymm fun a b : α => b ≤ a := ⟨fun a b hab hba => le_antisymm hba hab⟩
  refine List.sublist_of_subperm_of_pairwise ?_ (hsorted l) (hsorted l')
  exact ((List.mergeSort_perm l _).subperm.trans h.subperm).trans
    (List.mergeSort_perm l' _).symm.subperm

end Paging
