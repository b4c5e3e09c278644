import Adehun.Routine.Disciplined
import Adehun.Sessions.Schedule
import Mathlib.Algebra.BigOperators.Group.List.Basic
import Mathlib.Algebra.Ring.Int.Defs

/-!
# The ledger balances

A wallet's balances are the sums of the deltas of its ledger rows, and never
negative. The balance is a read, a decision and an absolute assignment, so
the invariant rests on three things: a session holds the row of every wallet
it writes or makes an entry for; the two writes of an entry are staged
together; and the balances it starts from are those of the row. The first
two the code sees to. The third it leaves to the object in the session, and
`currentLocks` is the condition under which that is right: when a wallet is
locked whose object the session still has, the object is the row as it is.
-/

namespace Adehun

open Sessions

/-! ## Sums over the ledger -/

/-- The sum of a delta over the ledger rows of a wallet. -/
def total (f : Transaction → Kobo) (x : Id) (db : Db adehun) : Kobo :=
  (((db .transaction : List Transaction).filter fun t => t.walletId = x).map f).sum

/-- What a write adds to a sum. -/
def contribution (f : Transaction → Kobo) (x : Id) : Write adehun → Kobo
  | .insert .transaction (t : Transaction) => if t.walletId = x then f t else 0
  | _ => 0

/-- A new wallet is empty, an entry keeps its wallet and its deltas, and
neither is ever deleted. -/
def Kept : Write adehun → Prop
  | .insert .wallet (w : Wallet) => w.availableBalance = 0 ∧ w.escrowBalance = 0
  | .update .transaction _ p => ∀ t : Transaction,
      (p.run t : Transaction).walletId = t.walletId ∧
      (p.run t : Transaction).availableDelta = t.availableDelta ∧
      (p.run t : Transaction).escrowDelta = t.escrowDelta
  | .delete .wallet _ | .delete .transaction _ => False
  | _ => True

/-- The wallet a write is about. -/
def Involves (x : Id) : Write adehun → Prop
  | .insert .wallet (w : Wallet) => w.id = x
  | .update .wallet id _ => id = x
  | .insert .transaction (t : Transaction) => t.walletId = x
  | _ => False

theorem contribution_of_not_involves {f : Transaction → Kobo} {x : Id} {d : Write adehun}
    (h : ¬ Involves x d) : contribution f x d = 0 := by
  cases d with
  | insert t r =>
      cases t <;> try rfl
      exact if_neg h
  | update t id p => rfl
  | delete t id => rfl

/-- The deltas, which a kept write does not touch. -/
def IsDelta (f : Transaction → Kobo) : Prop :=
  f = Transaction.availableDelta ∨ f = Transaction.escrowDelta

theorem total_apply {f : Transaction → Kobo} (hf : IsDelta f) {d : Write adehun}
    (hd : Kept d) (x : Id) (db : Db adehun) :
    total f x (d.apply db) = total f x db + contribution f x d := by
  by_cases ht : d.key.table = Table.transaction
  · cases d with
    | insert t r =>
        obtain rfl : t = Table.transaction := ht
        simp only [total, Write.apply, Db.set_self, List.filter_append, List.map_append,
          List.sum_append, contribution]
        congr 1
        by_cases hx : (r : Transaction).walletId = x <;> simp [hx]
    | update t id p =>
        obtain rfl : t = Table.transaction := ht
        have hp : ∀ t : Transaction, (p.run t : Transaction).walletId = t.walletId ∧
            f (p.run t) = f t := by
          intro t
          obtain ⟨h₁, h₂, h₃⟩ := hd t
          rcases hf with rfl | rfl
          · exact ⟨h₁, h₂⟩
          · exact ⟨h₁, h₃⟩
        simp only [total, Write.apply, Db.set_self, List.filter_map, List.map_map,
          contribution, add_zero]
        have hfilter : ((fun t : Transaction => decide (t.walletId = x)) ∘
            fun r : Transaction => if rowId (t := .transaction) r = id then p.run r else r) =
            fun t => decide (t.walletId = x) := by
          funext t
          by_cases h : rowId (t := .transaction) t = id
          · simp only [Function.comp_apply, if_pos h, (hp t).1]
          · simp only [Function.comp_apply, if_neg h]
        have hmap : (f ∘ fun r : Transaction =>
            if rowId (t := .transaction) r = id then p.run r else r) = f := by
          funext t
          by_cases h : rowId (t := .transaction) t = id
          · simp only [Function.comp_apply, if_pos h, (hp t).2]
          · simp only [Function.comp_apply, if_neg h]
        exact congrArg List.sum (congrArg₂ List.map hmap
          (congrArg (List.filter · (db .transaction : List Transaction)) hfilter))
    | delete t id =>
        obtain rfl : t = Table.transaction := ht
        exact hd.elim
  · have hsame : d.apply db Table.transaction = db Table.transaction :=
      Write.apply_table_of_ne db ht
    have hzero : contribution f x d = 0 := by
      cases d with
      | insert t r => cases t <;> first | rfl | exact absurd rfl ht
      | update t id p => rfl
      | delete t id => rfl
    rw [hzero, add_zero]
    simp only [total, hsame]

theorem total_applyAll {f : Transaction → Kobo} (hf : IsDelta f) {ds : List (Write adehun)}
    (hds : ∀ d ∈ ds, Kept d) (x : Id) (db : Db adehun) :
    total f x (db.applyAll ds) = total f x db + (ds.map (contribution f x)).sum := by
  induction ds generalizing db with
  | nil => simp [Db.applyAll]
  | cons d ds ih =>
      rw [Db.applyAll_cons, ih (fun d' hd' => hds d' (List.mem_cons_of_mem d hd')),
        total_apply hf (hds d List.mem_cons_self), List.map_cons, List.sum_cons, add_assoc]

theorem sum_contribution_eq_zero {f : Transaction → Kobo} {x : Id}
    {ds : List (Write adehun)} (h : ∀ d ∈ ds, ¬ Involves x d) :
    (ds.map (contribution f x)).sum = 0 := by
  refine List.sum_eq_zero ?_
  intro k hk
  obtain ⟨d, hd, rfl⟩ := List.mem_map.mp hk
  exact contribution_of_not_involves (h d hd)

/-! ## Rows under kept writes -/

/-- A wallet is not written by writes that do not involve it. -/
theorem lookup_wallet_applyAll {x : Id} {ds : List (Write adehun)}
    (h : ∀ d ∈ ds, Kept d ∧ ¬ Involves x d) (db : Db adehun) :
    (db.applyAll ds).lookup ⟨Table.wallet, x⟩ = db.lookup ⟨Table.wallet, x⟩ := by
  refine Db.lookup_applyAll_of_not_mem ?_ db
  intro d hd hk
  obtain ⟨hkept, hinv⟩ := h d hd
  cases d with
  | insert t r =>
      cases t <;> cases hk
      exact hinv rfl
  | update t id p =>
      cases t <;> cases hk
      exact hinv rfl
  | delete t id =>
      cases t <;> cases hk
      exact hkept

theorem isSome_wallet_apply {x : Id} {d : Write adehun} (hd : Kept d) {db : Db adehun}
    (h : (db.lookup ⟨Table.wallet, x⟩).isSome) :
    ((d.apply db).lookup ⟨Table.wallet, x⟩).isSome := by
  by_cases hk : d.key = ⟨Table.wallet, x⟩
  · cases d with
    | insert t r =>
        cases hk
        rw [Write.lookup_insert]
        rw [Option.isSome_or, h, Bool.true_or]
    | update t id p =>
        cases hk
        rw [Write.lookup_update]
        simpa using h
    | delete t id =>
        cases hk
        exact hd.elim
  · rw [Write.lookup_apply_of_ne db hk]
    exact h

theorem isSome_wallet_applyAll {x : Id} {ds : List (Write adehun)}
    (hds : ∀ d ∈ ds, Kept d) {db : Db adehun} (h : (db.lookup ⟨Table.wallet, x⟩).isSome) :
    ((db.applyAll ds).lookup ⟨Table.wallet, x⟩).isSome := by
  induction ds generalizing db with
  | nil => exact h
  | cons d ds ih =>
      exact ih (fun d' hd' => hds d' (List.mem_cons_of_mem d hd'))
        (isSome_wallet_apply (hds d List.mem_cons_self) h)

/-- An entry after kept writes was there before, or was made by one. -/
theorem mem_transaction_applyAll {ds : List (Write adehun)} (hds : ∀ d ∈ ds, Kept d)
    {db : Db adehun} {t : Transaction}
    (h : t ∈ (db.applyAll ds Table.transaction : List Transaction)) :
    (∃ t₀ ∈ (db .transaction : List Transaction), t₀.walletId = t.walletId) ∨
      ∃ d ∈ ds, Involves t.walletId d := by
  induction ds generalizing db with
  | nil => exact Or.inl ⟨t, h, rfl⟩
  | cons d ds ih =>
      rcases ih (fun d' hd' => hds d' (List.mem_cons_of_mem d hd')) h with
        ⟨t₀, ht₀, hw⟩ | ⟨d', hd', hinv⟩
      · by_cases ht : d.key.table = Table.transaction
        · cases d with
          | insert tb r =>
              obtain rfl : tb = Table.transaction := ht
              rw [Write.apply, Db.set_self, List.mem_append, List.mem_singleton] at ht₀
              rcases ht₀ with ht₀ | rfl
              · exact Or.inl ⟨t₀, ht₀, hw⟩
              · exact Or.inr ⟨_, List.mem_cons_self, hw⟩
          | update tb id p =>
              obtain rfl : tb = Table.transaction := ht
              rw [Write.apply, Db.set_self, List.mem_map] at ht₀
              obtain ⟨t₁, ht₁, rfl⟩ := ht₀
              refine Or.inl ⟨t₁, ht₁, ?_⟩
              rw [← hw]
              split
              · exact ((hds _ List.mem_cons_self) t₁).1.symm
              · rfl
          | delete tb id =>
              obtain rfl : tb = Table.transaction := ht
              exact (hds _ List.mem_cons_self).elim
        · rw [Write.apply_table_of_ne db ht] at ht₀
          exact Or.inl ⟨t₀, ht₀, hw⟩
      · exact Or.inr ⟨d', List.mem_cons_of_mem d hd', hinv⟩

/-! ## The invariant -/

/-- Off by nothing. -/
def even : Id → Kobo × Kobo := fun _ => (0, 0)

/-- Every wallet is off its sums by so much, and not overdrawn. -/
def BalancedBy (off : Id → Kobo × Kobo) (db : Db adehun) : Prop :=
  ∀ (x : Id) (w : Wallet), db.lookup ⟨Table.wallet, x⟩ = some w →
    w.availableBalance = total Transaction.availableDelta x db + (off x).1 ∧
    w.escrowBalance = total Transaction.escrowDelta x db + (off x).2 ∧
    0 ≤ w.availableBalance ∧ 0 ≤ w.escrowBalance

/-- Every entry is on a wallet that exists. -/
def Referenced (db : Db adehun) : Prop :=
  ∀ t ∈ (db .transaction : List Transaction), (db.lookup ⟨Table.wallet, t.walletId⟩).isSome

/-- A session holds the wallets it writes, and with everything sent they are
off by `off` at most, and only where it holds them. -/
structure Owns (off : Id → Kobo × Kobo) (i : Nat) (w : World adehun) : Prop where
  kept : ∀ d ∈ asked w i, Kept d
  held : ∀ d ∈ asked w i, ∀ x, Involves x d → w.holder (.row ⟨Table.wallet, x⟩) = some i
  found : ∀ d ∈ asked w i, ∀ x, Involves x d →
    ((w.staged i).lookup ⟨Table.wallet, x⟩).isSome
  opens : ∀ d ∈ (w.tx i).dirty, ∀ r, d ≠ .insert .wallet r
  slack : ∀ x, off x ≠ (0, 0) → w.holder (.row ⟨Table.wallet, x⟩) = some i
  balanced : BalancedBy off (w.staged i)
  referenced : Referenced (w.staged i)

/-- When a wallet is locked whose object the session has and still refers to,
the object is the row. -/
def currentLocks : Guard adehun where
  exec w i s c :=
    match s with
    | .lock t q => t = Table.wallet → c.alive = true → ∀ id o, q (w.view i) = some id →
        (w.tx i).objects ⟨t, id⟩ = some o → (w.view i).lookup ⟨t, id⟩ = some o
    | _ => True

def currentLocks.test : currentLocks.Test where
  exec w i s c :=
    match s with
    | .lock Table.wallet q =>
        match q (w.view i) with
        | none => true
        | some id =>
            match (w.tx i).objects ⟨Table.wallet, id⟩ with
            | none => true
            | some o =>
                !c.alive || decide ((w.view i).lookup ⟨Table.wallet, id⟩ = some (o : Wallet))
    | _ => true
  exec_sound := by
    intro X w i s c h
    cases s with
    | lock t q =>
        cases t with
        | wallet =>
            intro _ hc id o hq ho
            simp only [hq, ho, hc] at h
            simpa using h
        | _ => exact fun ht => by cases ht
    | _ => trivial
  flush_sound _ := trivial

theorem Owns.congr {off : Id → Kobo × Kobo} {i : Nat} {w w' : World adehun}
    (h : Owns off i w) (hdb : w'.db = w.db) (hasked : asked w' i = asked w i)
    (hdirty : ∀ d ∈ (w'.tx i).dirty, d ∈ (w.tx i).dirty)
    (hholder : ∀ l, w.holder l = some i → w'.holder l = some i) : Owns off i w' := by
  have hstaged : w'.staged i = w.staged i := by
    rw [World.staged, World.staged, hdb]
    exact congrArg _ hasked
  refine ⟨?_, ?_, ?_, fun d hd => h.opens d (hdirty d hd), ?_, ?_, ?_⟩
  · rw [hasked]
    exact h.kept
  · rw [hasked]
    exact fun d hd x hx => hholder _ (h.held d hd x hx)
  · rw [hasked, hstaged]
    exact h.found
  · exact fun x hx => hholder _ (h.slack x hx)
  · rw [hstaged]
    exact h.balanced
  · rw [hstaged]
    exact h.referenced

/-- Another session's commit leaves what a session owns as it is: a wallet
it holds the other has nothing to do with, and the rest balances by itself. -/
theorem Owns.commit {off : Id → Kobo × Kobo} {i j : Nat} {w : World adehun} (hne : j ≠ i)
    (hd : (w.tx i).dirty = []) (hi : Owns even i w) (hj : Owns off j w) :
    Owns off j (w.commit i) := by
  have hholder : ∀ l, w.holder l = some j → (w.commit i).holder l = some j :=
    fun l hl => World.reset_holder_of_ne (w := { w with db := w.view i }) hne hl
  have hasked : asked (w.commit i) j = asked w j := by
    rw [asked, asked, World.commit_tx_of_ne w hne]
  have hwrites : ∀ d ∈ (w.tx i).writes, d ∈ asked w i :=
    fun d hd => List.mem_append_left _ hd
  have hkept : ∀ d ∈ (w.tx i).writes, Kept d := fun d hd => hi.kept d (hwrites d hd)
  have hview : w.view i = w.staged i := by rw [World.view, World.staged, hd, List.append_nil]
  have hstaged : (w.commit i).staged j = (w.view i).applyAll (asked w j) := by
    rw [World.staged, World.commit_db]
    exact congrArg _ hasked
  have hold : w.staged j = w.db.applyAll (asked w j) := rfl
  -- a wallet held by `j` is none of the other's
  have hfree : ∀ x, w.holder (.row ⟨Table.wallet, x⟩) = some j →
      ∀ d ∈ (w.tx i).writes, Kept d ∧ ¬ Involves x d := by
    intro x hx d hd
    refine ⟨hkept d hd, ?_⟩
    intro hinv
    rw [hi.held d (hwrites d hd) x hinv] at hx
    exact hne (Option.some.inj hx).symm
  have hlook : ∀ x, w.holder (.row ⟨Table.wallet, x⟩) = some j →
      (w.view i).lookup ⟨Table.wallet, x⟩ = w.db.lookup ⟨Table.wallet, x⟩ :=
    fun x hx => lookup_wallet_applyAll (hfree x hx) w.db
  have htotal : ∀ f, IsDelta f → ∀ x, w.holder (.row ⟨Table.wallet, x⟩) = some j →
      total f x ((w.view i).applyAll (asked w j)) = total f x (w.staged j) := by
    intro f hf x hx
    rw [hold, total_applyAll hf hj.kept, total_applyAll hf hj.kept, World.view,
      total_applyAll hf hkept, sum_contribution_eq_zero (fun d hd => (hfree x hx d hd).2),
      add_zero]
  have hnone : ∀ x, w.holder (.row ⟨Table.wallet, x⟩) ≠ some j →
      ∀ d ∈ asked w j, Kept d ∧ ¬ Involves x d :=
    fun x hx d hd => ⟨hj.kept d hd, fun hinv => hx (hj.held d hd x hinv)⟩
  have hfound : ∀ d ∈ asked w j, ∀ x, Involves x d →
      (((w.view i).applyAll (asked w j)).lookup ⟨Table.wallet, x⟩).isSome := by
    intro d hd x hinv
    rw [Db.lookup_applyAll_congr (hlook x (hj.held d hd x hinv))]
    exact hj.found d hd x hinv
  have hopens : ∀ d ∈ ((w.commit i).tx j).dirty, ∀ r, d ≠ .insert .wallet r := by
    rw [World.commit_tx_of_ne w hne]
    exact hj.opens
  refine ⟨?_, ?_, ?_, hopens, ?_, ?_, ?_⟩
  · rw [hasked]
    exact hj.kept
  · rw [hasked]
    exact fun d hd x hx => hholder _ (hj.held d hd x hx)
  · rw [hasked, hstaged]
    exact hfound
  · exact fun x hx => hholder _ (hj.slack x hx)
  · intro x wal hwal
    rw [hstaged] at hwal ⊢
    by_cases hx : w.holder (.row ⟨Table.wallet, x⟩) = some j
    · rw [htotal _ (Or.inl rfl) x hx, htotal _ (Or.inr rfl) x hx]
      rw [Db.lookup_applyAll_congr (hlook x hx)] at hwal
      exact hj.balanced x wal hwal
    · have hoff : off x = (0, 0) := by
        by_contra hoff
        exact hx (hj.slack x hoff)
      rw [lookup_wallet_applyAll (hnone x hx), hview] at hwal
      rw [total_applyAll (Or.inl rfl) hj.kept, total_applyAll (Or.inr rfl) hj.kept,
        sum_contribution_eq_zero (fun d hd => (hnone x hx d hd).2),
        sum_contribution_eq_zero (fun d hd => (hnone x hx d hd).2), add_zero, add_zero,
        hoff, hview]
      exact hi.balanced x wal hwal
  · intro t ht
    rw [hstaged] at ht ⊢
    rcases mem_transaction_applyAll hj.kept ht with ⟨t₀, ht₀, hwal⟩ | ⟨d, hd, hinv⟩
    · rw [hview] at ht₀ ⊢
      rw [← hwal]
      exact isSome_wallet_applyAll hj.kept (hi.referenced t₀ ht₀)
    · exact hfound d hd _ hinv

/-- The ledger balances: as a discipline. -/
def ledgerBalance : Discipline adehun where
  Ghost := Id → Kobo × Kobo
  rest := even
  Commits g := g = even
  rest_commits := rfl
  Good db := BalancedBy even db ∧ Referenced db
  Own := Owns
  guard := currentLocks
  own_congr hdb htx hl h :=
    h.congr hdb (by rw [asked, asked, htx]) (by rw [htx]; exact fun _ hd => hd) hl
  own_init := by
    rintro i w ⟨hbal, href⟩ ⟨b, hb⟩
    have hstaged : w.staged i = w.db := by
      rw [World.staged, hb]
      rfl
    refine ⟨?_, ?_, ?_, ?_, fun x hx => absurd rfl hx, ?_, ?_⟩
    · simp [asked, hb]
    · simp [asked, hb]
    · simp [asked, hb]
    · simp [hb]
    · rw [hstaged]
      exact hbal
    · rw [hstaged]
      exact href
  own_remember k hd h :=
    h.congr rfl (by simp [asked, World.remember]) (by simp [World.remember]) (fun _ hl => hl)
  own_send := by
    intro off i w d ds hw hgood hg hd hfree hr h
    refine h.congr rfl (by simp [asked, hd]) ?_ ?_
    · simp only [World.setTx_tx_self, hd]
      exact fun d' hd' => List.mem_cons_of_mem d hd'
    · exact fun l hl => World.acquire_holder_of_free hfree hl
  good_commit := by
    rintro off i w rfl hw hgood hd h
    have hview : w.view i = w.staged i := by
      rw [World.view, World.staged, hd, List.append_nil]
    rw [hview]
    exact ⟨h.balanced, h.referenced⟩
  own_commit hne hg _ _ hd hi hj := Owns.commit hne hd (hg ▸ hi) hj

/-! ## Under the lock of a wallet -/

/-- The session holds a wallet, and its object is the row. -/
def Current (x : Id) (i : Nat) (w : World adehun) : Prop :=
  w.holder (.row ⟨Table.wallet, x⟩) = some i ∧
    ∃ o : Wallet, (w.tx i).objects ⟨Table.wallet, x⟩ = some o ∧
      (w.staged i).lookup ⟨Table.wallet, x⟩ = some o

theorem Current.frame {x : Id} {i : Nat} {w w' : World adehun} (hf : World.Frame i w w')
    (h : Current x i w) : Current x i w' := by
  obtain ⟨hh, o, ho, hs⟩ := h
  refine ⟨hf.holder _ hh, o, ?_, ?_⟩
  · rw [hf.objects]
    exact ho
  · rw [hf.lookup_staged hh]
    exact hs

/-- Assigning the balances of one wallet leaves every wallet current. -/
theorem Current.setBalances {x y : Id} {i : Nat} {w : World adehun} {a e : Kobo}
    (h : Current y i w) :
    Current y i (w.stage i (.update .wallet x (setBalances a e))) := by
  obtain ⟨hh, o, ho, hs⟩ := h
  refine ⟨hh, ?_⟩
  by_cases hxy : y = x
  · subst hxy
    refine ⟨(Adehun.setBalances a e).run o, ?_, ?_⟩
    · simp [World.stage, ho]
    · rw [World.stage_staged, Write.lookup_update, hs]
      simp
  · refine ⟨o, ?_, ?_⟩
    · simp [World.stage, ho, hxy]
    · rw [World.stage_staged, Write.lookup_update, hs]
      simp [hxy]

theorem Current.entry {y : Id} {i : Nat} {w : World adehun} {t : Transaction}
    (h : Current y i w) : Current y i (w.stage i (.insert .transaction t)) := by
  obtain ⟨hh, o, ho, hs⟩ := h
  refine ⟨hh, o, ?_, ?_⟩
  · simp [World.stage, ho]
  · rw [World.stage_staged, Write.lookup_apply_of_ne _ (by simp)]
    exact hs

/-- Off at one wallet. -/
def offBy (x : Id) (a e : Kobo) : Id → Kobo × Kobo := Function.update even x (a, e)

theorem Owns.setBalances {x : Id} {i : Nat} {w : World adehun} {a e : Kobo} {o : Wallet}
    (h : Owns even i w) (hh : w.holder (.row ⟨Table.wallet, x⟩) = some i)
    (ho : (w.staged i).lookup ⟨Table.wallet, x⟩ = some o) (ha : 0 ≤ a) (he : 0 ≤ e) :
    Owns (offBy x (a - o.availableBalance) (e - o.escrowBalance)) i
      (w.stage i (.update .wallet x (Adehun.setBalances a e))) := by
  have hstaged := World.stage_staged w i (.update .wallet x (Adehun.setBalances a e))
  have hlook : ∀ y, ((w.stage i (.update .wallet x (Adehun.setBalances a e))).staged i).lookup
      ⟨Table.wallet, y⟩ = ((w.staged i).lookup ⟨Table.wallet, y⟩).map fun r =>
        if y = x then (Adehun.setBalances a e).run r else r := by
    intro y
    rw [hstaged]
    exact Write.lookup_update _ _ _ _ _
  have htotal : ∀ f, IsDelta f → ∀ y,
      total f y ((w.stage i (.update .wallet x (Adehun.setBalances a e))).staged i) =
        total f y (w.staged i) := by
    intro f hf y
    rw [hstaged, total_apply (d := .update .wallet x (Adehun.setBalances a e)) hf trivial]
    exact add_zero _
  refine ⟨?_, ?_, ?_, ?_, ?_, ?_, ?_⟩
  · intro d hd
    rw [asked_stage, List.mem_append, List.mem_singleton] at hd
    rcases hd with hd | rfl
    · exact h.kept d hd
    · trivial
  · intro d hd y hy
    rw [asked_stage, List.mem_append, List.mem_singleton] at hd
    rcases hd with hd | rfl
    · exact h.held d hd y hy
    · cases hy
      exact hh
  · intro d hd y hy
    rw [hlook y, Option.isSome_map]
    rw [asked_stage, List.mem_append, List.mem_singleton] at hd
    rcases hd with hd | rfl
    · exact h.found d hd y hy
    · cases hy
      rw [ho]
      rfl
  · intro d hd r
    rw [World.stage_dirty, List.mem_append, List.mem_singleton] at hd
    rcases hd with hd | rfl
    · exact h.opens d hd r
    · intro he
      cases he
  · intro y hy
    by_cases hyx : y = x
    · subst hyx
      exact hh
    · exact absurd (Function.update_of_ne hyx _ _) hy
  · intro y wal hwal
    rw [hlook y] at hwal
    rw [htotal _ (Or.inl rfl), htotal _ (Or.inr rfl)]
    by_cases hyx : y = x
    · subst hyx
      rw [ho] at hwal
      obtain ⟨h₁, h₂, -, -⟩ := h.balanced y o ho
      simp only [even, add_zero] at h₁ h₂
      simp only [Option.map_some, if_true, Option.some.injEq] at hwal
      subst hwal
      simp only [offBy, Function.update_self]
      refine ⟨?_, ?_, ha, he⟩
      · rw [← h₁]
        exact (add_sub_cancel _ _).symm
      · rw [← h₂]
        exact (add_sub_cancel _ _).symm
    · simp only [if_neg hyx, Option.map_id'] at hwal
      rw [offBy, Function.update_of_ne hyx]
      exact h.balanced y wal hwal
  · intro t ht
    rw [hlook, Option.isSome_map]
    rw [hstaged, Write.apply_table_of_ne _ (by simp)] at ht
    exact h.referenced t ht

theorem Owns.entry {x : Id} {i : Nat} {w : World adehun} {a e : Kobo} {t : Transaction}
    (h : Owns (offBy x a e) i w) (hc : Current x i w) (hx : t.walletId = x)
    (ha : t.availableDelta = a) (he : t.escrowDelta = e) :
    Owns even i (w.stage i (.insert .transaction t)) := by
  have hstaged := World.stage_staged w i (.insert .transaction t)
  have hlook : ∀ y, ((w.stage i (.insert .transaction t)).staged i).lookup
      ⟨Table.wallet, y⟩ = (w.staged i).lookup ⟨Table.wallet, y⟩ := by
    intro y
    rw [hstaged]
    exact Write.lookup_apply_of_ne _ (by simp)
  have hsome : ((w.staged i).lookup ⟨Table.wallet, x⟩).isSome := by
    obtain ⟨-, o, -, ho⟩ := hc
    rw [ho]
    rfl
  refine ⟨?_, ?_, ?_, ?_, fun y hy => absurd rfl hy, ?_, ?_⟩
  · intro d hd
    rw [asked_stage, List.mem_append, List.mem_singleton] at hd
    rcases hd with hd | rfl
    · exact h.kept d hd
    · trivial
  · intro d hd y hy
    rw [asked_stage, List.mem_append, List.mem_singleton] at hd
    rcases hd with hd | rfl
    · exact h.held d hd y hy
    · obtain rfl : t.walletId = y := hy
      rw [hx]
      exact hc.1
  · intro d hd y hy
    rw [hlook y]
    rw [asked_stage, List.mem_append, List.mem_singleton] at hd
    rcases hd with hd | rfl
    · exact h.found d hd y hy
    · obtain rfl : t.walletId = y := hy
      rw [hx]
      exact hsome
  · intro d hd r
    rw [World.stage_dirty, List.mem_append, List.mem_singleton] at hd
    rcases hd with hd | rfl
    · exact h.opens d hd r
    · intro he
      cases he
  · intro y wal hwal
    rw [hlook y] at hwal
    rw [hstaged, total_apply (d := .insert .transaction t) (Or.inl rfl) trivial,
      total_apply (d := .insert .transaction t) (Or.inr rfl) trivial]
    obtain ⟨h₁, h₂, h₃, h₄⟩ := h.balanced y wal hwal
    refine ⟨?_, ?_, h₃, h₄⟩
    · rw [h₁]
      by_cases hy : y = x
      · subst hy
        simp [offBy, contribution, even, hx, ha]
      · have hty : t.walletId ≠ y := fun hty => hy (hty.symm.trans hx)
        simp [offBy, contribution, even, hy, hty]
    · rw [h₂]
      by_cases hy : y = x
      · subst hy
        simp [offBy, contribution, even, hx, he]
      · have hty : t.walletId ≠ y := fun hty => hy (hty.symm.trans hx)
        simp [offBy, contribution, even, hy, hty]
  · intro t' ht'
    rw [hlook]
    rw [hstaged, Write.apply, Db.set_self, List.mem_append, List.mem_singleton] at ht'
    rcases ht' with ht' | rfl
    · exact h.referenced t' ht'
    · rw [hx]
      exact hsome

/-! ## The choke point -/

/-- At rest, with two wallets in hand. -/
def InHand (x y i : Id) (w : World adehun) : Prop :=
  Owns even i w ∧ Current x i w ∧ Current y i w

theorem InHand.rely {x y i : Id} {w w' : World adehun}
    (hr : ledgerBalance.logic.Rely i w w') (h : InHand x y i w) : InHand x y i w' :=
  ⟨hr.2 even h.1, h.2.1.frame hr.1, h.2.2.frame hr.1⟩

/-- The wallet read is the object in the session, and that is the row. -/
theorem safe_wallet {x y i : Id} {w : World adehun} (h : InHand x y i w) :
    Safe ledgerBalance.logic i
      (fun r w => InHand x y i w ∧ r.id = x ∧
        (w.staged i).lookup ⟨Table.wallet, x⟩ = some r)
      (fun _ w => Owns even i w) (attributes .wallet x) w := by
  obtain ⟨hh, o, ho, hs⟩ := h.2.1
  have hid : (o : Wallet).id = x := by
    have := Db.lookup_id hs
    exact this
  refine safe_bind (safe_mono ?_ (fun _ _ he => he) (ledgerBalance.safe_held
    (A := fun w => InHand x y i w ∧ (w.staged i).lookup ⟨Table.wallet, x⟩ = some o) ?_ ho))
  · rintro r w₁ ⟨⟨h₁, hs₁⟩, rfl⟩
    exact ⟨h₁, hid, hs₁⟩
  · intro w₁ hr
    refine ⟨h.rely hr, ?_⟩
    rw [hr.1.lookup_staged hh]
    exact hs

/-- The two writes of an entry: off by its deltas, and even again. -/
theorem safe_entry {x y i : Id} {w : World adehun} {wallet : Wallet} {t : Transaction}
    {a e : Kobo} (h : InHand x y i w)
    (hs : (w.staged i).lookup ⟨Table.wallet, x⟩ = some wallet) (hx : t.walletId = x)
    (ha : wallet.availableBalance + t.availableDelta = a)
    (he : wallet.escrowBalance + t.escrowDelta = e) (hpa : 0 ≤ a) (hpe : 0 ≤ e) :
    Safe ledgerBalance.logic i (fun _ w => InHand x y i w) (fun _ w => Owns even i w)
      (do
        assign .wallet x (setBalances a e)
        add .transaction t
        pure t) w := by
  refine safe_bind (ledgerBalance.safe_stage ?_)
  intro w₁ hr₁ _
  have h₁ := h.rely hr₁
  have hs₁ : (w₁.staged i).lookup ⟨Table.wallet, x⟩ = some wallet := by
    rw [hr₁.1.lookup_staged h.2.1.1]
    exact hs
  have hoff := h₁.1.setBalances h₁.2.1.1 hs₁ hpa hpe
  have hcx := h₁.2.1.setBalances (x := x) (a := a) (e := e)
  have hcy := h₁.2.2.setBalances (x := x) (a := a) (e := e)
  refine safe_bind (ledgerBalance.safe_stage ?_)
  intro w₂ hr₂ _
  have hcx₂ := hcx.frame hr₂.1
  refine ⟨(hr₂.2 _ hoff).entry hcx₂ hx ?_ ?_, hcx₂.entry, (hcy.frame hr₂.1).entry⟩
  · exact eq_sub_of_add_eq' ha
  · exact eq_sub_of_add_eq' he

/-- From a wallet in hand, an entry leaves the session at rest. -/
theorem safe_applyLedgerEntry {x y i : Id} {a : EntryArgs} {w : World adehun}
    (h : InHand x y i w) :
    Safe ledgerBalance.logic i (fun _ w => InHand x y i w) (fun _ w => Owns even i w)
      (applyLedgerEntry x a) w := by
  refine safe_raiseIf (fun _ => h.1) fun _ => safe_bind ?_
  refine safe_mono ?_ (fun _ _ he => he) (safe_wallet h)
  rintro wallet w₁ ⟨h₁, hid, hs₁⟩
  refine safe_raiseIf (fun _ => h₁.1) fun havail =>
    safe_raiseIf (fun _ => h₁.1) fun hescrow => safe_bind ?_
  have hrely : ∀ {w w' : World adehun}, ledgerBalance.logic.Rely i w w' →
      InHand x y i w ∧ (w.staged i).lookup ⟨Table.wallet, x⟩ = some wallet →
      InHand x y i w' ∧ (w'.staged i).lookup ⟨Table.wallet, x⟩ = some wallet := by
    rintro w w' hr ⟨hw, hs⟩
    refine ⟨hw.rely hr, ?_⟩
    rw [hr.1.lookup_staged hw.2.1.1]
    exact hs
  refine safe_mono ?_ (fun _ _ he => he)
    (ledgerBalance.safe_now fun w₂ hr => hrely hr ⟨h₁, hs₁⟩)
  intro time w₂ h₂
  refine safe_bind (safe_mono ?_ (fun _ _ he => he)
    (ledgerBalance.safe_fresh fun w₃ hr => hrely hr h₂))
  rintro id w₃ ⟨h₃, hs₃⟩
  subst hid
  exact safe_entry h₃ hs₃ rfl rfl rfl (Int.not_lt.mp havail) (Int.not_lt.mp hescrow)

/-- The query of a wallet by its id. -/
def walletById (x : Id) (db : Db adehun) : Option Nat :=
  ((db .wallet : List Wallet).find? fun w => w.id = x).map (·.id)

/-- A wallet locked while the guard holds is in hand. -/
theorem current_of_lock {x i : Id} {w w' : World adehun} {c : Choice adehun} {o : Wallet}
    (hg : currentLocks.exec w i (.lock Table.wallet (walletById x)) c)
    (he : w.exec i c (.lock Table.wallet (walletById x)) = some (.ok (some o), w')) :
    Current x i w' ∧ o.id = x ∧ ∀ y, y ≠ x → Current y i w → Current y i w' := by
  obtain ⟨id, hq, hd, hfree, hans, rfl⟩ := World.exec_lock_some he
  obtain rfl : id = x := by
    obtain ⟨r, hr, hid⟩ := Option.map_eq_some_iff.mp hq
    have := List.find?_some hr
    simp only [decide_eq_true_eq] at this
    exact hid.symm.trans this
  have hview : w.staged i = w.view i := by
    rw [World.staged, World.view, hd, List.append_nil]
  have hlook : (w.view i).lookup ⟨Table.wallet, id⟩ = some o := by
    cases hobj : (w.tx i).objects ⟨Table.wallet, id⟩ with
    | none =>
        rw [World.answer, hobj] at hans
        exact hans
    | some o' =>
        rw [World.answer, hobj] at hans
        dsimp only at hans
        split at hans
        · next halive =>
            cases hans
            exact hg rfl halive id _ hq hobj
        · exact hans
  have hstaged : (((w.acquire i [.row ⟨Table.wallet, id⟩]).remember i
      ⟨Table.wallet, id⟩ (some o)).staged i) = w.staged i := by
    simp [World.staged, World.remember]
  refine ⟨⟨?_, o, ?_, ?_⟩, ?_, ?_⟩
  · exact if_pos List.mem_cons_self
  · simp [World.remember]
  · rw [hstaged, hview]
    exact hlook
  · have := Db.lookup_id hlook
    exact this
  · rintro y hy ⟨hh, oy, hoy, hsy⟩
    refine ⟨World.acquire_holder_of_free hfree hh, oy, ?_, ?_⟩
    · simp [World.remember, hy, hoy]
    · rw [hstaged]
      exact hsy

/-- Locking a wallet puts it in hand, beside what is in hand already. -/
theorem safe_lockWallet {x i : Id} {w : World adehun} (h : Owns even i w) :
    Safe ledgerBalance.logic i
      (fun r w' => Owns even i w' ∧ Current x i w' ∧ r.id = x ∧
        ∀ y, y ≠ x → Current y i w → Current y i w')
      (fun _ w => Owns even i w) (lockWallet x) w := by
  refine safe_bind (safe_perform ?_)
  intro w₁ hr hi
  have h₁ := hr.2 even h
  refine ⟨trivial, ?_⟩
  intro c r w₂ he hg
  obtain ⟨h₂, h₃⟩ := ledgerBalance.exec_others hi he (fun _ => Or.inl ⟨even, rfl, h₁⟩)
  have hadmits : ledgerBalance.Admits (Stmt.lock (M := adehun) Table.wallet (walletById x)) :=
    trivial
  have hown : Owns even i w₂ := ledgerBalance.own_exec hi hadmits h₁ he
  refine ⟨h₂, h₃, ?_⟩
  cases r with
  | error e => exact hown
  | ok o =>
      cases o with
      | none => exact hown
      | some o =>
          obtain ⟨hc, hid, hother⟩ := current_of_lock hg he
          exact ⟨hown, hc, hid, fun y hy hcy => hother y hy (hcy.frame hr.1)⟩

/-! ## The requests -/

/-- An entry under the lock of its wallet. -/
theorem keeps_entry (x : Id) (a : EntryArgs) :
    ledgerBalance.Keeps (do
      let wallet ← lockWallet x
      let entry ← applyLedgerEntry wallet.id a
      pure (wallet.id, entry.id) : App (Id × Id)) := by
  intro i w h
  refine safe_bind (safe_mono ?_ (fun _ _ he => he) (safe_lockWallet (x := x) h))
  rintro wallet w₁ ⟨h₁, hc, hid, -⟩
  rw [hid]
  refine safe_bind (safe_mono ?_ (fun _ _ he => he) (safe_applyLedgerEntry ⟨h₁, hc, hc⟩))
  rintro t w₂ ⟨h₂, -⟩
  exact h₂

/-- Both wallets of a transfer are in hand before either is written. -/
theorem safe_lockWallets {x y i : Id} {w : World adehun} (h : Owns even i w) :
    Safe ledgerBalance.logic i (fun _ w => InHand x y i w) (fun _ w => Owns even i w)
      (lockWallets x y) w := by
  unfold lockWallets
  split
  · next hxy =>
      subst hxy
      refine safe_bind (safe_mono ?_ (fun _ _ he => he) (safe_lockWallet (x := x) h))
      rintro r w₁ ⟨h₁, hc, -, -⟩
      exact ⟨h₁, hc, hc⟩
  · next hxy =>
      refine safe_bind (safe_mono ?_ (fun _ _ he => he) (safe_lockWallet (x := min x y) h))
      rintro r w₁ ⟨h₁, hc₁, -, -⟩
      refine safe_bind (safe_mono ?_ (fun _ _ he => he) (safe_lockWallet (x := max x y) h₁))
      rintro r w₂ ⟨h₂, hc₂, -, hother⟩
      have hne : ∀ x y : Nat, x ≠ y → min x y ≠ max x y := by
        intro x y hxy
        omega
      have hc₁ := hother _ (hne x y hxy) hc₁
      rcases Nat.le_total x y with hle | hle
      · rw [Nat.min_eq_left hle] at hc₁
        rw [Nat.max_eq_right hle] at hc₂
        exact ⟨h₂, hc₁, hc₂⟩
      · rw [Nat.min_eq_right hle] at hc₁
        rw [Nat.max_eq_left hle] at hc₂
        exact ⟨h₂, hc₂, hc₁⟩

/-- The two entries of a transfer under the locks of their wallets. -/
theorem keeps_transfer (x y : Id) (debit credit : EntryArgs) :
    ledgerBalance.Keeps (do
      lockWallets x y
      let debitEntry ← applyLedgerEntry x debit
      let creditEntry ← applyLedgerEntry y credit
      pure (debitEntry.id, creditEntry.id) : App (Id × Id)) := by
  intro i w h
  refine safe_bind (safe_mono ?_ (fun _ _ he => he) (safe_lockWallets h))
  rintro _ w₁ h₁
  refine safe_bind (safe_mono ?_ (fun _ _ he => he) (safe_applyLedgerEntry h₁))
  rintro t w₂ ⟨h₂, hx, hy⟩
  refine safe_bind (safe_mono ?_ (fun _ _ he => he) (safe_applyLedgerEntry ⟨h₂, hy, hx⟩))
  rintro t' w₃ ⟨h₃, -⟩
  exact h₃

/-- A kept write that is about no wallet changes nothing. -/
theorem Owns.other {off : Id → Kobo × Kobo} {i : Nat} {w w' : World adehun}
    {d : Write adehun} (h : Owns off i w) (ds ds' : List (Write adehun)) (hd : Kept d)
    (hinv : ∀ x, ¬ Involves x d) (hdb : w'.db = w.db)
    (hasked : asked w i = ds ++ ds') (hasked' : asked w' i = ds ++ d :: ds')
    (hdirty : ∀ e ∈ (w'.tx i).dirty, e ∈ (w.tx i).dirty ∨ e = d)
    (hholder : ∀ l, w.holder l = some i → w'.holder l = some i)
    (href : Referenced w.db) : Owns off i w' := by
  have hmem : ∀ e, e ∈ asked w' i ↔ e ∈ asked w i ∨ e = d := by
    intro e
    rw [hasked, hasked']
    simp only [List.mem_append, List.mem_cons]
    tauto
  have hstaged : w.staged i = w.db.applyAll (ds ++ ds') := congrArg _ hasked
  have hstaged' : w'.staged i = w.db.applyAll (ds ++ d :: ds') := by
    rw [World.staged, hdb]
    exact congrArg _ hasked'
  have hkept : ∀ e ∈ asked w' i, Kept e := by
    intro e he
    rcases (hmem e).mp he with he | rfl
    · exact h.kept e he
    · exact hd
  have hkey : ∀ x, d.key ≠ ⟨Table.wallet, x⟩ := by
    intro x hk
    cases d with
    | insert t r =>
        cases t <;> cases hk
        exact hinv _ rfl
    | update t id p =>
        cases t <;> cases hk
        exact hinv _ rfl
    | delete t id =>
        cases t <;> cases hk
        exact hd
  have hlook : ∀ x, (w'.staged i).lookup ⟨Table.wallet, x⟩ =
      (w.staged i).lookup ⟨Table.wallet, x⟩ := by
    intro x
    rw [hstaged, hstaged']
    exact Db.lookup_applyAll_middle (hkey x) w.db ds ds'
  have htotal : ∀ f, IsDelta f → ∀ x, total f x (w'.staged i) = total f x (w.staged i) := by
    intro f hf x
    rw [hstaged, hstaged', total_applyAll hf (by rw [← hasked']; exact hkept),
      total_applyAll hf (by rw [← hasked]; exact h.kept), List.map_append, List.map_append,
      List.map_cons, List.sum_append, List.sum_append, List.sum_cons,
      contribution_of_not_involves (hinv x), zero_add]
  refine ⟨hkept, ?_, ?_, ?_, fun x hx => hholder _ (h.slack x hx), ?_, ?_⟩
  · intro e he x hx
    rcases (hmem e).mp he with he | rfl
    · exact hholder _ (h.held e he x hx)
    · exact absurd hx (hinv x)
  · intro e he x hx
    rw [hlook]
    rcases (hmem e).mp he with he | rfl
    · exact h.found e he x hx
    · exact absurd hx (hinv x)
  · intro e he r
    rcases hdirty e he with he | rfl
    · exact h.opens e he r
    · rintro rfl
      exact hinv _ rfl
  · intro x wal hwal
    rw [hlook] at hwal
    rw [htotal _ (Or.inl rfl), htotal _ (Or.inr rfl)]
    exact h.balanced x wal hwal
  · intro t ht
    rw [hlook]
    rw [hstaged', ← hasked'] at ht
    rcases mem_transaction_applyAll hkept ht with ⟨t₀, ht₀, hwal⟩ | ⟨e, he, hinv'⟩
    · rw [← hwal]
      exact isSome_wallet_applyAll h.kept (href t₀ ht₀)
    · rcases (hmem e).mp he with he | rfl
      · exact h.found e he _ hinv'
      · exact absurd hinv' (hinv _)

theorem stages_other {d : Write adehun} (hd : Kept d) (hinv : ∀ x, ¬ Involves x d) :
    ledgerBalance.Stages d := by
  intro i w _ hgood h
  refine h.other (asked w i) [] hd hinv rfl (List.append_nil _).symm
    (asked_stage w i d) ?_ (fun l hl => hl) hgood.2
  intro e he
  rw [World.stage_dirty, List.mem_append, List.mem_singleton] at he
  exact he

theorem puts_other {d : Write adehun} (hd : Kept d) (hinv : ∀ x, ¬ Involves x d) :
    ledgerBalance.Puts d := by
  intro i w _ hgood h hfree _
  refine h.other (w.tx i).writes (w.tx i).dirty hd hinv rfl rfl ?_ ?_ ?_
    hgood.2
  · simp [asked]
  · intro e he
    rw [World.put_tx_self] at he
    exact Or.inl he
  · exact fun l hl => World.acquire_holder_of_free hfree hl

/-- Without a new wallet, a wallet that is not there stays away. -/
theorem lookup_wallet_none {x : Id} {ds : List (Write adehun)}
    (hds : ∀ d ∈ ds, ∀ r, d ≠ Write.insert Table.wallet r) {db : Db adehun}
    (h : db.lookup ⟨Table.wallet, x⟩ = none) :
    (db.applyAll ds).lookup ⟨Table.wallet, x⟩ = none := by
  induction ds generalizing db with
  | nil => exact h
  | cons d ds ih =>
      refine ih (fun d' hd' => hds d' (List.mem_cons_of_mem d hd')) ?_
      by_cases hk : d.key = ⟨Table.wallet, x⟩
      · cases d with
        | insert t r =>
            cases t <;> cases hk
            exact absurd rfl (hds _ List.mem_cons_self r)
        | update t id p =>
            cases hk
            rw [Write.lookup_update, h]
            rfl
        | delete t id =>
            cases hk
            rw [Write.lookup_delete, if_pos rfl]
      · rw [Write.lookup_apply_of_ne db hk]
        exact h

/-- A new wallet is empty, and nothing refers to it yet. -/
theorem puts_newWallet (x u : Id) : ledgerBalance.Puts (newWallet x u) := by
  intro i w _ hgood h hfree hr
  have hnew : (w.view i).lookup ⟨Table.wallet, x⟩ = none := (Write.insert_free hr).1
  have hasked : asked (w.put i (newWallet x u)) i =
      (w.tx i).writes ++ newWallet x u :: (w.tx i).dirty := by
    simp [asked]
  have hmem : ∀ e, e ∈ asked (w.put i (newWallet x u)) i ↔
      e ∈ asked w i ∨ e = newWallet x u := by
    intro e
    rw [hasked]
    simp only [asked, List.mem_append, List.mem_cons]
    tauto
  have hkept : ∀ e ∈ asked (w.put i (newWallet x u)) i, Kept e := by
    intro e he
    rcases (hmem e).mp he with he | rfl
    · exact h.kept e he
    · exact ⟨rfl, rfl⟩
  have hstaged : (w.put i (newWallet x u)).staged i =
      w.db.applyAll ((w.tx i).writes ++ newWallet x u :: (w.tx i).dirty) :=
    congrArg (Db.applyAll w.db) hasked
  have hnone : (w.staged i).lookup ⟨Table.wallet, x⟩ = none := by
    rw [World.staged, Db.applyAll_append]
    exact lookup_wallet_none h.opens hnew
  have hfresh : ∀ e ∈ asked w i, ¬ Involves x e := by
    intro e he hinv
    have := h.found e he x hinv
    rw [hnone] at this
    cases this
  have hself : ((w.put i (newWallet x u)).staged i).lookup ⟨Table.wallet, x⟩ =
      some ({ id := x, userId := u } : Wallet) := by
    rw [hstaged, Db.applyAll_append, Db.applyAll_cons, lookup_wallet_applyAll]
    · exact Write.lookup_insert_self hnew
    · intro e he
      have hea : e ∈ asked w i := List.mem_append_right _ he
      exact ⟨h.kept e hea, hfresh e hea⟩
  have hother : ∀ y, y ≠ x → ((w.put i (newWallet x u)).staged i).lookup
      ⟨Table.wallet, y⟩ = (w.staged i).lookup ⟨Table.wallet, y⟩ := by
    intro y hy
    rw [hstaged]
    refine Db.lookup_applyAll_middle ?_ w.db _ _
    intro hk
    cases hk
    exact hy rfl
  have htotal : ∀ f, IsDelta f → ∀ y,
      total f y ((w.put i (newWallet x u)).staged i) = total f y (w.staged i) := by
    intro f hf y
    rw [hstaged, World.staged, total_applyAll hf (by rw [← hasked]; exact hkept),
      total_applyAll hf h.kept, List.map_append, List.map_append, List.map_cons,
      List.sum_append, List.sum_append, List.sum_cons]
    simp [contribution, newWallet]
  have hzero : ∀ f, total f x (w.staged i) = 0 := by
    intro f
    have hnil : ((w.staged i .transaction : List Transaction).filter
        fun t => t.walletId = x) = [] := by
      rw [List.filter_eq_nil_iff]
      intro t ht htx
      have := h.referenced t ht
      rw [of_decide_eq_true htx, hnone] at this
      cases this
    rw [total, hnil]
    rfl
  have hsome : ∀ y, ((w.staged i).lookup ⟨Table.wallet, y⟩).isSome →
      (((w.put i (newWallet x u)).staged i).lookup ⟨Table.wallet, y⟩).isSome := by
    intro y hy
    by_cases hyx : y = x
    · subst hyx
      rw [hself]
      rfl
    · rw [hother y hyx]
      exact hy
  have hkeep : ∀ l, w.holder l = some i → (w.put i (newWallet x u)).holder l = some i :=
    fun l hl => World.acquire_holder_of_free hfree hl
  refine ⟨hkept, ?_, ?_, ?_, fun y hy => absurd rfl hy, ?_, ?_⟩
  · intro e he y hy
    rcases (hmem e).mp he with he | rfl
    · exact hkeep _ (h.held e he y hy)
    · obtain rfl : x = y := hy
      rw [World.put_holder]
      exact if_pos List.mem_cons_self
  · intro e he y hy
    rcases (hmem e).mp he with he | rfl
    · exact hsome y (h.found e he y hy)
    · obtain rfl : x = y := hy
      rw [hself]
      rfl
  · intro e he r
    rw [World.put_tx_self] at he
    exact h.opens e he r
  · intro y wal hwal
    rw [htotal _ (Or.inl rfl), htotal _ (Or.inr rfl)]
    by_cases hyx : y = x
    · subst hyx
      rw [hself] at hwal
      cases hwal
      rw [hzero, hzero]
      exact ⟨rfl, rfl, Int.le_refl _, Int.le_refl _⟩
    · rw [hother y hyx] at hwal
      exact h.balanced y wal hwal
  · intro t ht
    rw [hstaged, ← hasked] at ht
    rcases mem_transaction_applyAll hkept ht with ⟨t₀, ht₀, hwal⟩ | ⟨e, he, hinv⟩
    · rw [← hwal]
      exact hsome _ (isSome_wallet_applyAll h.kept (hgood.2 t₀ ht₀))
    · rcases (hmem e).mp he with he | rfl
      · exact hsome _ (h.found e he _ hinv)
      · have hx : x = t.walletId := hinv
        rw [← hx, hself]
        rfl

/-- What is written to other tables is about no wallet. -/
theorem kept_of_ne {d : Write adehun} (hw : d.key.table ≠ Table.wallet)
    (ht : d.key.table ≠ Table.transaction) : Kept d ∧ ∀ x, ¬ Involves x d := by
  cases d with
  | insert t r => cases t <;> first | contradiction | exact ⟨trivial, fun _ hx => hx⟩
  | update t id p => cases t <;> first | contradiction | exact ⟨trivial, fun _ hx => hx⟩
  | delete t id => cases t <;> first | contradiction | exact ⟨trivial, fun _ hx => hx⟩

theorem kept_of_side {d : Write adehun} (hd : Side d) : Kept d ∧ ∀ x, ¬ Involves x d := by
  refine kept_of_ne ?_ ?_ <;>
  · intro he
    rw [Side, he] at hd
    cases hd

/-- Reading, and writing on the side, do not touch a balance. -/
theorem routine_ledgerBalance : Routine fun _ p => ledgerBalance.Keeps p :=
  routine_keeps (fun _ hd => stages_other (kept_of_side hd).1 (kept_of_side hd).2)
    fun _ hd => puts_other (kept_of_side hd).1 (kept_of_side hd).2

theorem keeps_newWallet (u : Id) : ledgerBalance.Keeps (ensureWallet u) :=
  routine_ledgerBalance.keeps_ensureWallet puts_newWallet u

theorem keeps_applyEntry (a : EntryArgs) : ledgerBalance.Keeps (applyEntry a) :=
  routine_ledgerBalance.applyEntry keeps_newWallet fun x => keeps_entry x a

theorem keeps_applyTransfer (g : GroupId) (debit credit : LedgerLeg) :
    ledgerBalance.Keeps (applyTransfer g debit credit) :=
  routine_ledgerBalance.applyTransfer keeps_newWallet fun x y => keeps_transfer x y _ _

/-- Every request keeps the ledger balanced. -/
theorem keeps_handler (settings : Settings) (r : Request) :
    ledgerBalance.Keeps (handler settings r) := by
  have hfree : ∀ d : Write adehun, d.key.table ≠ Table.wallet →
      d.key.table ≠ Table.transaction → ledgerBalance.Keeps (.perform (.stage d)) :=
    fun d hw ht => ledgerBalance.keeps_perform
      (stages_other (kept_of_ne hw ht).1 (kept_of_ne hw ht).2)
  have hprovider : ProviderSide fun _ p => ledgerBalance.Keeps p :=
    { transfer := routine_ledgerBalance.keeps_transfer
      intent := fun d hd => hfree d (by rw [hd]; decide) (by rw [hd]; decide)
      entryStatus := fun _ _ _ => ledgerBalance.keeps_perform
        (stages_other (fun _ => ⟨rfl, rfl, rfl⟩) fun _ hx => hx)
      entry := fun a _ _ => keeps_applyEntry a }
  have hescrow : EscrowSide fun _ p => ledgerBalance.Keeps p := by
    refine routine_ledgerBalance.escrowSide ?_ keeps_applyEntry keeps_applyTransfer
    rintro d (hd | hd)
    · exact hfree d (by rw [hd]; decide) (by rw [hd]; decide)
    · exact hfree d (by rw [hd]; decide) (by rw [hd]; decide)
  exact routine_ledgerBalance.handler hescrow
    (routine_ledgerBalance.providerRequests hprovider keeps_newWallet) settings r

/-! ## The ledger balances in every run -/

/-- Every wallet's balances are the sums over its ledger rows, and none is
negative. -/
def LedgerBalances (db : Db adehun) : Prop :=
  ∀ w ∈ (db .wallet : List Wallet),
    w.availableBalance = total Transaction.availableDelta w.id db ∧
    w.escrowBalance = total Transaction.escrowDelta w.id db ∧
    0 ≤ w.availableBalance ∧ 0 ≤ w.escrowBalance

/-- In every run in which no wallet is locked whose object the session has
from before, out of date, the ledger balances in every committed state. -/
theorem ledgerBalances_run {settings : Settings} {db : Db adehun} {shared : Shared}
    (hk : db.KeysDistinct) (he : db.EntriesDistinct) (hb : LedgerBalances db)
    (href : Referenced db) {ls : List (Label adehun Request)} {C : Conf adehun Response}
    (hg : Conf.RunMeets currentLocks (handler settings) { world := { db, shared } } ls)
    (hr : Conf.run (handler settings) { world := { db, shared } } ls = some C) :
    LedgerBalances C.world.db := by
  have hgood : ledgerBalance.Good db := by
    refine ⟨?_, href⟩
    intro x w hw
    have hid : w.id = x := by
      have := Db.lookup_id hw
      exact this
    have hmem : w ∈ (db .wallet : List Wallet) := Db.lookup_mem hw
    rw [← hid]
    simp only [even, add_zero]
    exact hb w hmem
  obtain ⟨hwf, hbal, -⟩ := good_of_keeps (keeps_handler settings) hk he hgood hg hr
  intro w hw
  have hlook : C.world.db.lookup ⟨Table.wallet, w.id⟩ = some w := hwf.keys.lookup hw
  have := hbal w.id w hlook
  simp only [even, add_zero] at this
  exact this

instance (db : Db adehun) : Decidable (LedgerBalances db) :=
  inferInstanceAs (Decidable (∀ w ∈ (db .wallet : List Wallet), _))

instance (db : Db adehun) : Decidable (Referenced db) :=
  inferInstanceAs (Decidable (∀ t ∈ (db .transaction : List Transaction), _))

/-! ### A deposit lost

A withdrawal is refused by the provider, and while the refusal is on its way
a deposit is credited. The reversal locks the wallet again, is answered by
the object from before the deposit, and writes its balance. -/

namespace LostDeposit

/-- One user with one wallet, one bank account and one pending deposit. -/
def db : Db adehun
  | .user => [({ id := 1, email := "ada@mail", name := "Ada" } : User)]
  | .wallet => [({ id := 10, userId := 1, availableBalance := 30000 } : Wallet)]
  | .transaction => [
      ({ id := 11
         userId := 1
         walletId := 10
         reference := .deposit (.fund 1 0)
         amount := 30000
         availableDelta := 30000
         escrowDelta := 0
         balanceAfter := 30000
         escrowAfter := 0
         type := .deposit
         direction := .credit
         status := .completed } : Transaction)]
  | .paystackTransaction => [
      ({ id := 12
         userId := 1
         reference := .fund 1 1
         amount := 500
         transactionType := .escrowDeposit } : PaystackTransaction)]
  | .bankAccount => [
      ({ id := 20
         userId := 1
         accountNumber := "0123456789"
         bankCode := "044"
         bankName := "Access Bank"
         accountName := "Ada"
         recipientCode := "RCP_1"
         isDefault := true } : BankAccount)]
  | _ => []

def settings : Settings := { paystackTransfersEnabled := true }

def verified : Transport :=
  .response 200 (.object true "" (.object
    { status := .success, currency := some .ngn, amount := .kobo 500 }))

def script : List (Turn adehun Request) := [
  .arrive 0 (.withdraw 1 (some "key") { amount := 20000, amount_pos := by decide }),
  .go 0 100 1000,
  .arrive 1 (.webhook true
    (.event .chargeSuccess (.object { id := some 7, reference := some (.fund 1 1) })) 0),
  .go 1 100 2000,
  .answer 1 verified,
  .go 1 100 3000,
  .answer 0 .requestError,
  .go 0 100 4000]

/-- The deposit is verified only after the refusal. -/
def inOrder : List (Turn adehun Request) := [
  .arrive 0 (.withdraw 1 (some "key") { amount := 20000, amount_pos := by decide }),
  .go 0 100 1000,
  .arrive 1 (.webhook true
    (.event .chargeSuccess (.object { id := some 7, reference := some (.fund 1 1) })) 0),
  .go 1 100 2000,
  .answer 0 .requestError,
  .go 0 100 3000,
  .answer 1 verified,
  .go 1 100 4000]

def start : Conf adehun Response := { world := { db := db, shared := {} } }

/-- The run of `inOrder`, and where it leads. -/
def run : List (Label adehun Request) × Conf adehun Response :=
  start.played (handler settings) inOrder

theorem db_keysDistinct : db.KeysDistinct := by
  intro t
  cases t <;> decide

theorem db_entriesDistinct : db.EntriesDistinct := by
  refine Db.entriesDistinct_of_pairwise fun t => ?_
  cases t <;> decide

theorem currentLocks_run : Conf.RunMeets currentLocks (handler settings) start run.1 :=
  currentLocks.test.runMeets (by decide +kernel)

end LostDeposit

/-- A withdrawal, its reversal and a deposit: the ledger has an entry of each,
and balances. -/
theorem ledgerBalances_run_inOrder :
    (LostDeposit.run.2.world.db .transaction : List Transaction).map (·.availableDelta) =
      [30000, -20000, 20000, 500] ∧ LedgerBalances LostDeposit.run.2.world.db :=
  ⟨by decide +kernel, ledgerBalances_run LostDeposit.db_keysDistinct
    LostDeposit.db_entriesDistinct (by decide) (by decide) LostDeposit.currentLocks_run
    (Conf.run_played _ _)⟩

/-- Over all runs the ledger does not balance. -/
theorem not_ledgerBalances : ¬ ∀ (settings : Settings) (db : Db adehun) (shared : Shared),
    db.KeysDistinct → db.EntriesDistinct → LedgerBalances db → Referenced db →
    ∀ (ls : List (Label adehun Request)) (C : Conf adehun Response),
      Conf.run (handler settings) { world := { db, shared } } ls = some C →
      LedgerBalances C.world.db := by
  intro h
  have hend := h LostDeposit.settings LostDeposit.db {} LostDeposit.db_keysDistinct
    LostDeposit.db_entriesDistinct (by decide) (by decide) _ _
    (Conf.run_play _ LostDeposit.script)
  exact absurd hend (by decide +kernel)

end Adehun
