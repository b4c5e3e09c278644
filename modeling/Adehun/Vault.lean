import Mathlib.Algebra.Order.BigOperators.Group.Finset
import Mathlib.Tactic.Abel

/-!
# Accounts with a free and a held purse

What a custodian of other people's money may do with it. Every account has
money that is free and money that is held; a movement takes from one purse
only what is in it, and puts it into another or pays it out. Amounts are in
any ordered group, accounts of any type.

The money there is changes by what was paid in and paid out.
-/

namespace Vault

variable {ι G : Type} [DecidableEq ι] [AddCommGroup G]

/-- The free and the held money of every account. -/
abbrev State (ι G : Type) := ι → G × G

/-- An account's purses changed by so much. -/
def post (s : State ι G) (x : ι) (d : G × G) : State ι G := Function.update s x (s x + d)

theorem post_self (s : State ι G) (x : ι) (d : G × G) : post s x d x = s x + d := by
  rw [post, Function.update_self]

theorem post_of_ne (s : State ι G) {x y : ι} (d : G × G) (h : y ≠ x) : post s x d y = s y := by
  rw [post, Function.update_of_ne h]

/-- A state is posted to where it differs by the delta at one account. -/
theorem eq_post {s s' : State ι G} {x : ι} {d : G × G}
    (h : ∀ y, s' y = s y + if x = y then d else 0) : s' = post s x d := by
  funext y
  rw [h y]
  by_cases hy : x = y
  · subst hy
    rw [if_pos rfl, post_self]
  · rw [if_neg hy, add_zero, post_of_ne s d (Ne.symm hy)]

theorem eq_post_post {s s' : State ι G} {x y : ι} {d e : G × G}
    (h : ∀ z, s' z = s z + ((if x = z then d else 0) + if y = z then e else 0)) :
    s' = post (post s x d) y e := by
  refine eq_post fun z => ?_
  rw [h z, ← add_assoc]
  congr 1
  by_cases hz : x = z
  · subst hz
    rw [if_pos rfl, post_self]
  · rw [if_neg hz, add_zero, post_of_ne s d (Ne.symm hz)]

/-- All the money of some accounts. -/
def total (accounts : Finset ι) (s : State ι G) : G := ∑ x ∈ accounts, ((s x).1 + (s x).2)

omit [DecidableEq ι] in
/-- Accounts that have nothing do not count. -/
theorem total_subset {accounts accounts' : Finset ι} {s : State ι G} (h : accounts ⊆ accounts')
    (hzero : ∀ x ∈ accounts', x ∉ accounts → s x = 0) : total accounts s = total accounts' s := by
  refine Finset.sum_subset h ?_
  intro x hx hnot
  rw [hzero x hx hnot]
  simp

theorem total_post {accounts : Finset ι} (s : State ι G) {x : ι} (d : G × G)
    (hx : x ∈ accounts) : total accounts (post s x d) = total accounts s + (d.1 + d.2) := by
  have hrest : ∀ y ∈ accounts.erase x, (post s x d y).1 + (post s x d y).2 = (s y).1 + (s y).2 := by
    intro y hy
    rw [post_of_ne s d (Finset.ne_of_mem_erase hy)]
  rw [total, total, ← Finset.add_sum_erase accounts _ hx, ← Finset.add_sum_erase accounts _ hx,
    Finset.sum_congr rfl hrest, post_self, Prod.fst_add, Prod.snd_add]
  abel

variable [LinearOrder G]

/-- One movement of money, and what it brings in from outside. -/
inductive Moves : State ι G → State ι G → G → Prop
  | payIn (s : State ι G) (x : ι) (a : G) : 0 < a → Moves s (post s x (a, 0)) a
  | payOut (s : State ι G) (x : ι) (a : G) : 0 < a → a ≤ (s x).1 →
      Moves s (post s x (-a, 0)) (-a)
  | hold (s : State ι G) (x : ι) (a : G) : 0 < a → a ≤ (s x).1 →
      Moves s (post s x (-a, a)) 0
  | giveBack (s : State ι G) (x : ι) (a : G) : 0 < a → a ≤ (s x).2 →
      Moves s (post s x (a, -a)) 0
  | handOver (s : State ι G) (x y : ι) (a : G) : 0 < a → a ≤ (s x).2 →
      Moves s (post (post s x (0, -a)) y (a, 0)) 0

/-- The accounts that a movement is about. -/
def Within (accounts : Finset ι) (s s' : State ι G) : Prop :=
  ∀ x, s' x ≠ s x → x ∈ accounts

/-- A movement only happens where there is money to move, or to put. -/
theorem Moves.total {accounts : Finset ι} {s s' : State ι G} {e : G} (h : Moves s s' e)
    (hin : Within accounts s s') : Vault.total accounts s' = Vault.total accounts s + e := by
  have hmem : ∀ {x : ι} {d : G × G}, d ≠ 0 → Within accounts s (Vault.post s x d) →
      x ∈ accounts := by
    intro x d hd hwithin
    refine hwithin x ?_
    rw [post_self]
    simpa using hd
  cases h with
  | payIn x _ ha =>
      rw [total_post _ _ (hmem (by simp [Prod.ext_iff, ha.ne']) hin), add_zero]
  | payOut x a ha hle =>
      rw [total_post _ _ (hmem (by simp [Prod.ext_iff, ha.ne']) hin), add_zero]
  | hold x a ha hle =>
      rw [total_post _ _ (hmem (by simp [Prod.ext_iff, ha.ne']) hin), neg_add_cancel]
  | giveBack x a ha hle =>
      rw [total_post _ _ (hmem (by simp [Prod.ext_iff, ha.ne']) hin), add_neg_cancel]
  | handOver x y a ha hle =>
      have hx : x ∈ accounts := by
        refine hin x ?_
        by_cases hxy : x = y
        · subst hxy
          rw [post_self, post_self]
          simp [Prod.ext_iff, ha.ne']
        · rw [post_of_ne _ _ hxy, post_self]
          simp [Prod.ext_iff, ha.ne']
      have hy : y ∈ accounts := by
        refine hin y ?_
        by_cases hxy : x = y
        · subst hxy
          rw [post_self, post_self]
          simp [Prod.ext_iff, ha.ne']
        · rw [post_self, post_of_ne _ _ (Ne.symm hxy)]
          simp [Prod.ext_iff, ha.ne']
      rw [total_post _ _ hy, total_post _ _ hx, add_assoc]
      simp

end Vault
