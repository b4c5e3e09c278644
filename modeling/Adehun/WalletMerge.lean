import Adehun.Backfill
import Adehun.Collapse
import Mathlib.Algebra.Order.Floor.Ring
import Mathlib.Data.Prod.Lex
import Mathlib.Data.Rat.Floor
import Mathlib.Data.String.Basic

/-!
# One wallet for every user

The migration before the ledger. Two code paths created a wallet on a miss,
so a user may have several; their balances are summed onto the oldest and the
rest are deleted. Then the available balance, a number of any precision so
far, is rounded to two decimals, and the constraints are added: one wallet
for a user, and no negative balance.

The ledger is created empty and backfilled by the revisions that follow.
What a user had in all wallets together is what the one wallet says in the
end, and what its ledger sums to.
-/

namespace Adehun

namespace WalletMerge

open Backfill (Failure)

/-- A wallet of that revision: the available balance in kobo is any number. -/
structure Wallet where
  id : String
  userId : String
  availableBalance : ℚ
  escrowBalance : Kobo
  createdAt : Nat

/-! ## The statements -/

/-- `ORDER BY created_at, id` -/
def Wallet.rank (w : Wallet) : ℕ ×ₗ String := toLex (w.createdAt, w.id)

/-- `SELECT DISTINCT ON (user_id) ... ORDER BY user_id, created_at, id` -/
def oldest (rows : List Wallet) : List Wallet := Collapse.leaders Wallet.userId Wallet.rank rows

def walletsOf (rows : List Wallet) (userId : String) : List Wallet :=
  Collapse.group Wallet.userId rows userId

def availableSum (rows : List Wallet) (userId : String) : ℚ :=
  ((walletsOf rows userId).map Wallet.availableBalance).sum

def escrowSum (rows : List Wallet) (userId : String) : Kobo :=
  ((walletsOf rows userId).map Wallet.escrowBalance).sum

/-- The number of users with more than one wallet. -/
def duplicates (rows : List Wallet) : Nat :=
  ((rows.map Wallet.userId).dedup.filter fun u => 1 < (walletsOf rows u).length).length

/-- A wallet with what the user has in all of them. -/
def summed (rows : List Wallet) (w : Wallet) : Wallet :=
  { w with
    availableBalance := availableSum rows w.userId
    escrowBalance := escrowSum rows w.userId }

/-- The balances summed onto the oldest wallet of each user. -/
def sumOntoOldest (rows : List Wallet) : Except Failure (List Wallet) :=
  if (oldest rows).any fun w => !fitsNumeric (escrowSum rows w.userId) then .error .data
  else .ok (rows.map fun w => if w.id ∈ (oldest rows).map (·.id) then summed rows w else w)

/-- The other wallets deleted. -/
def deleteRest (rows : List Wallet) : List Wallet :=
  rows.filter fun w => w.id ∈ (oldest rows).map (·.id)

/-- `ROUND(x, 2)`, with halves away from zero. -/
def round (x : ℚ) : Kobo := if 0 ≤ x then ⌊x + 1 / 2⌋ else -⌊-x + 1 / 2⌋

/-- Both balances as `NUMERIC(12, 2)`. -/
def alterColumns (rows : List Wallet) : Except Failure (List Backfill.Wallet) :=
  if rows.any fun w => !fitsNumeric (round w.availableBalance) then .error .data
  else .ok (rows.map fun w =>
    { id := w.id
      userId := w.userId
      availableBalance := round w.availableBalance
      escrowBalance := w.escrowBalance })

/-- One wallet per user, and no balance below zero. -/
def createConstraints (rows : List Backfill.Wallet) : Except Failure (List Backfill.Wallet) :=
  if ¬ (rows.map (·.userId)).Nodup then .error .integrity
  else if rows.any fun w => w.availableBalance < 0 || w.escrowBalance < 0 then .error .integrity
  else .ok rows

/-- Duplicates are merged where there are any. -/
def mergeDuplicates (rows : List Wallet) : Except Failure (List Wallet) :=
  if duplicates rows ≠ 0 then do
    let rows ← sumOntoOldest rows
    .ok (deleteRest rows)
  else .ok rows

def upgrade (rows : List Wallet) : Except Failure (List Backfill.Wallet) := do
  let rows ← mergeDuplicates rows
  let rows ← alterColumns rows
  createConstraints rows

/-! ## Rounding -/

theorem round_intCast (k : Kobo) : round k = k := by
  have hhalf : ⌊(1 / 2 : ℚ)⌋ = 0 := by norm_num
  unfold round
  split
  · rw [Int.floor_intCast_add, hhalf, add_zero]
  · rw [← Int.cast_neg, Int.floor_intCast_add, hhalf, add_zero, neg_neg]

/-! ## What merging leaves -/

/-- The identifiers tell the wallets apart. -/
abbrev IdsDistinct (rows : List Wallet) : Prop := (rows.map (·.id)).Nodup

theorem ranked {rows : List Wallet} (h : IdsDistinct rows) : Collapse.Ranked Wallet.rank rows := by
  intro a ha b hb hrank
  have hid : a.id = b.id := congrArg (fun r => (ofLex r).2) hrank
  exact List.inj_on_of_nodup_map h ha hb hid

/-- Of the wallets with their identifiers, those that stay are the oldest. -/
theorem deleteRest_eq {rows : List Wallet} (h : IdsDistinct rows) :
    deleteRest rows = oldest rows := by
  refine List.filter_congr ?_
  intro w hw
  rw [Bool.eq_iff_iff, decide_eq_true_eq, List.mem_map]
  constructor
  · rintro ⟨k, hk, hid⟩
    obtain ⟨hmem, hle⟩ := Collapse.mem_leaders.mp hk
    rw [← List.inj_on_of_nodup_map h hmem hw hid]
    exact Collapse.leads_iff.mpr hle
  · exact fun hleads => ⟨w, List.mem_filter.mpr ⟨hw, hleads⟩, rfl⟩

theorem nodup_users_of_duplicates {rows : List Wallet} (h : duplicates rows = 0) :
    (rows.map Wallet.userId).Nodup := by
  rw [List.nodup_iff_count_le_one]
  intro u
  have hcount : (rows.map Wallet.userId).count u = (walletsOf rows u).length := by
    rw [List.count, List.countP_map, List.countP_eq_length_filter, walletsOf, Collapse.group]
    rfl
  by_cases hu : u ∈ rows.map Wallet.userId
  · rw [duplicates, List.length_eq_zero_iff, List.filter_eq_nil_iff] at h
    have hle := h u (List.mem_dedup.mpr hu)
    rw [hcount]
    simpa using hle
  · rw [List.count_eq_zero_of_not_mem hu]
    exact Nat.zero_le 1

/-- Merging leaves the oldest wallet of each user, with everything the user
had. -/
theorem mergeDuplicates_ok {rows rows' : List Wallet} (hids : IdsDistinct rows)
    (h : mergeDuplicates rows = .ok rows') : rows' = (oldest rows).map (summed rows) := by
  unfold mergeDuplicates at h
  split at h
  · simp only [sumOntoOldest, bind, Except.bind] at h
    split at h
    · cases h
    · next rows₁ hrows =>
        split at hrows
        · cases hrows
        · cases hrows
          cases h
          have hsame : ∀ w : Wallet,
              (if w.id ∈ (oldest rows).map (·.id) then summed rows w else w).userId = w.userId ∧
              (if w.id ∈ (oldest rows).map (·.id) then summed rows w else w).rank = w.rank ∧
              (if w.id ∈ (oldest rows).map (·.id) then summed rows w else w).id = w.id := by
            intro w
            split
            · exact ⟨rfl, rfl, rfl⟩
            · exact ⟨rfl, rfl, rfl⟩
          rw [deleteRest_eq, oldest, Collapse.leaders_map (fun w => (hsame w).1)
            fun w => (hsame w).2.1]
          · refine List.map_congr_left ?_
            intro w hw
            exact if_pos (List.mem_map_of_mem hw)
          · rw [IdsDistinct, List.map_map]
            convert hids using 1
            exact List.map_congr_left fun w _ => (hsame w).2.2
  · next hnone =>
      cases h
      have husers := nodup_users_of_duplicates (not_not.mp hnone)
      rw [oldest, Collapse.leaders_eq_self husers]
      have hsame : ∀ w ∈ rows, summed rows w = id w := by
        intro w hw
        have hgroup : walletsOf rows w.userId = [w] := Collapse.group_eq_singleton husers hw
        simp [summed, availableSum, escrowSum, hgroup]
      rw [List.map_congr_left hsame, List.map_id]

/-- What stops it is a sum that does not fit. -/
theorem mergeDuplicates_error {rows : List Wallet} {f : Failure}
    (h : mergeDuplicates rows = .error f) :
    f = .data ∧ ∃ w ∈ rows, ¬ fitsNumeric (escrowSum rows w.userId) := by
  unfold mergeDuplicates at h
  split at h
  · simp only [sumOntoOldest, bind, Except.bind] at h
    split at h
    · next e hrows =>
        cases h
        split at hrows
        · next hany =>
            cases hrows
            obtain ⟨w, hw, hfit⟩ := List.any_eq_true.mp hany
            exact ⟨rfl, w, (Collapse.mem_leaders.mp hw).1, by simpa using hfit⟩
        · cases hrows
    · cases h
  · cases h

/-- The one wallet a user has afterwards. -/
def mergedWallet (rows : List Wallet) (w : Wallet) : Backfill.Wallet where
  id := w.id
  userId := w.userId
  availableBalance := round (availableSum rows w.userId)
  escrowBalance := escrowSum rows w.userId

/-- All wallets afterwards. -/
def merged (rows : List Wallet) : List Backfill.Wallet := (oldest rows).map (mergedWallet rows)

/-- Why the migration may not get through: the sum of a user's balances does
not fit its column, or is below zero. -/
inductive Stopped (rows : List Wallet) : Failure → Prop
  | available (w : Wallet) : w ∈ rows → ¬ fitsNumeric (round (availableSum rows w.userId)) →
      Stopped rows .data
  | escrow (w : Wallet) : w ∈ rows → ¬ fitsNumeric (escrowSum rows w.userId) →
      Stopped rows .data
  | negative (w : Wallet) : w ∈ rows →
      round (availableSum rows w.userId) < 0 ∨ escrowSum rows w.userId < 0 →
      Stopped rows .integrity

theorem mem_oldest {rows : List Wallet} {w : Wallet} (h : w ∈ oldest rows) : w ∈ rows :=
  (Collapse.mem_leaders.mp h).1

theorem merged_users {rows : List Wallet} :
    (merged rows).map (·.userId) = (oldest rows).map Wallet.userId := by
  rw [merged, List.map_map]
  rfl

theorem merged_nodup {rows : List Wallet} (h : IdsDistinct rows) :
    ((merged rows).map (·.userId)).Nodup ∧ ((merged rows).map (·.id)).Nodup := by
  constructor
  · rw [merged_users]
    exact Collapse.leaders_keys_nodup (ranked h) (List.Nodup.of_map _ h)
  · rw [merged, List.map_map]
    exact h.sublist (List.filter_sublist.map _)

/-- The migration merges, or stops at a sum that no wallet can have. -/
theorem upgrade_spec {rows : List Wallet} (h : IdsDistinct rows) :
    match upgrade rows with
    | .ok out => out = merged rows ∧ ∀ w ∈ out, 0 ≤ w.availableBalance ∧ 0 ≤ w.escrowBalance
    | .error f => Stopped rows f := by
  unfold upgrade
  cases hmerge : mergeDuplicates rows with
  | error f =>
      obtain ⟨rfl, w, hw, hfit⟩ := mergeDuplicates_error hmerge
      exact .escrow w hw hfit
  | ok rows' =>
      obtain rfl := mergeDuplicates_ok h hmerge
      simp only [alterColumns, bind, Except.bind]
      by_cases hfit : ((oldest rows).map (summed rows)).any
          fun w => !fitsNumeric (round w.availableBalance)
      · rw [if_pos hfit]
        obtain ⟨w', hw', hnot⟩ := List.any_eq_true.mp hfit
        obtain ⟨w, hw, rfl⟩ := List.mem_map.mp hw'
        exact .available w (mem_oldest hw) (by simpa [summed] using hnot)
      · rw [if_neg hfit]
        have hmerged : (((oldest rows).map (summed rows)).map fun w : Wallet =>
            ({ id := w.id
               userId := w.userId
               availableBalance := round w.availableBalance
               escrowBalance := w.escrowBalance } : Backfill.Wallet)) = merged rows := by
          rw [List.map_map]
          rfl
        rw [hmerged]
        simp only [createConstraints]
        rw [if_neg (not_not.mpr (merged_nodup h).1)]
        by_cases hneg : (merged rows).any fun w => w.availableBalance < 0 || w.escrowBalance < 0
        · rw [if_pos hneg]
          obtain ⟨w', hw', hlt⟩ := List.any_eq_true.mp hneg
          obtain ⟨w, hw, rfl⟩ := List.mem_map.mp hw'
          rw [Bool.or_eq_true, decide_eq_true_eq, decide_eq_true_eq] at hlt
          exact .negative w (mem_oldest hw) hlt
        · rw [if_neg hneg]
          refine ⟨rfl, ?_⟩
          intro w hw
          rw [List.any_eq_true, not_exists] at hneg
          have hnot := hneg w
          rw [not_and] at hnot
          simpa using hnot hw

/-! ## The chain of migrations -/

/-- The tables once the ledger is created, empty. -/
def created (wallets : List Backfill.Wallet) (payments : List Backfill.PaystackTransaction) :
    Backfill.Db where
  wallet := wallets
  transaction := []
  paystackTransaction := payments

/-- From the wallets before the ledger to the wallets with one. -/
def migrate (now : Nat) (rows : List Wallet) (payments : List Backfill.PaystackTransaction) :
    Except Failure Backfill.Db := do
  let wallets ← upgrade rows
  Backfill.upgrade now (created wallets payments)

/-- Everything a user had. -/
def holdings (rows : List Wallet) (userId : String) : Kobo :=
  round (availableSum rows userId) + escrowSum rows userId

/-- What the migrations leave of a user's wallets: the oldest, with
everything available that the user had, and a ledger that sums to it. -/
structure Settled (rows : List Wallet) (db : Backfill.Db) (w : Backfill.Wallet) : Prop where
  oldest : ∃ v ∈ rows, v.id = w.id ∧ v.userId = w.userId ∧
    ∀ v' ∈ rows, v'.userId = w.userId → v.rank ≤ v'.rank
  available : w.availableBalance = holdings rows w.userId
  escrow : w.escrowBalance = 0
  ledger : ((Backfill.entriesOf db w.id).map (·.availableDelta)).sum = w.availableBalance ∧
    ((Backfill.entriesOf db w.id).map (·.escrowDelta)).sum = 0

/-- A sum that no wallet can have. -/
def Impossible (rows : List Wallet) (userId : String) : Prop :=
  ¬ fitsNumeric (round (availableSum rows userId)) ∨ ¬ fitsNumeric (escrowSum rows userId) ∨
    ¬ fitsNumeric (holdings rows userId) ∨ round (availableSum rows userId) < 0 ∨
    escrowSum rows userId < 0

/-- Every balance is a whole number of kobo. -/
def Whole (rows : List Wallet) : Prop := ∀ w ∈ rows, ∃ k : Kobo, w.availableBalance = k

/-- All the money there was. -/
def fortune (rows : List Wallet) : ℚ :=
  (rows.map fun w => w.availableBalance + ((w.escrowBalance : Int) : ℚ)).sum

/-- How the migrations may end. -/
def Migrated (rows : List Wallet) : Except Failure Backfill.Db → Prop
  | .ok db => (∀ w ∈ db.wallet, Settled rows db w) ∧ (db.wallet.map (·.userId)).Nodup ∧
      (∀ v ∈ rows, ∃ w ∈ db.wallet, w.userId = v.userId) ∧
      (Whole rows → (db.wallet.map fun w => ((w.total : Int) : ℚ)).sum = fortune rows)
  | .error (.drift _) => False
  | .error _ => ∃ v ∈ rows, Impossible rows v.userId

/-- A wallet with everything made available. -/
def released (v : Backfill.Wallet) : Backfill.Wallet :=
  { v with availableBalance := v.total, escrowBalance := 0 }

theorem whole_availableSum {rows : List Wallet} (h : Whole rows) (userId : String) :
    (round (availableSum rows userId) : ℚ) = availableSum rows userId := by
  have hsum : ∀ l : List Wallet, (∀ w ∈ l, w ∈ rows) →
      ∃ k : Kobo, (l.map Wallet.availableBalance).sum = k := by
    intro l hl
    induction l with
    | nil => exact ⟨0, by simp⟩
    | cons w l ih =>
        obtain ⟨k, hk⟩ := h w (hl w List.mem_cons_self)
        obtain ⟨n, hn⟩ := ih fun v hv => hl v (List.mem_cons_of_mem w hv)
        exact ⟨k + n, by rw [List.map_cons, List.sum_cons, hk, hn]; push_cast; rfl⟩
  obtain ⟨k, hk⟩ := hsum (walletsOf rows userId) fun w hw => (List.mem_filter.mp hw).1
  rw [availableSum, hk, round_intCast]

/-- Nothing is lost where there is nothing to round. -/
theorem fortune_merged {rows : List Wallet} (hids : IdsDistinct rows) (h : Whole rows) :
    ((merged rows).map fun w => ((w.total : Int) : ℚ)).sum = fortune rows := by
  rw [fortune, ← Collapse.sum_leaders Wallet.userId _ (ranked hids)
    (List.Nodup.of_map _ hids), merged, List.map_map]
  refine congrArg List.sum (List.map_congr_left ?_)
  intro w _
  simp only [Function.comp_apply, mergedWallet, Backfill.Wallet.total]
  have hescrow : ((escrowSum rows w.userId : Int) : ℚ) =
      ((walletsOf rows w.userId).map fun w => ((w.escrowBalance : Int) : ℚ)).sum := by
    have hcast := map_list_sum (Int.castRingHom ℚ)
      ((walletsOf rows w.userId).map Wallet.escrowBalance)
    rwa [List.map_map] at hcast
  rw [Int.cast_add, whole_availableSum h, List.sum_map_add, hescrow]
  rfl

/-- The backfill of an empty ledger makes everything available. -/
theorem afterwards_wallet (now : Nat) {wallets : List Backfill.Wallet}
    {payments : List Backfill.PaystackTransaction}
    (h : Backfill.Legacy (created wallets payments)) :
    (Backfill.afterwards now (created wallets payments)
      (Backfill.legacyWallets (created wallets payments))).wallet = wallets.map released := by
  refine List.map_congr_left ?_
  intro v hv
  by_cases hleg : v ∈ Backfill.legacyWallets (created wallets payments)
  · exact Backfill.foldl_settle_of_mem h.legacy_ids hleg
  · have hnot : v.id ∉ (Backfill.legacyWallets (created wallets payments)).map (·.id) := by
      intro hmem
      obtain ⟨u, hu, hid⟩ := List.mem_map.mp hmem
      have huv : u = v :=
        List.inj_on_of_nodup_map h.ids (Backfill.mem_legacyWallets.mp hu).1 hv hid
      exact hleg (huv ▸ hu)
    have hzero : ¬ (0 < v.availableBalance ∨ 0 < v.escrowBalance) :=
      fun hpos => hleg (Backfill.mem_legacyWallets.mpr ⟨hv, rfl, hpos⟩)
    obtain ⟨ha, he⟩ := h.nonneg v hv
    rw [not_or, not_lt, not_lt] at hzero
    have ha' : v.availableBalance = 0 := le_antisymm hzero.1 ha
    have he' : v.escrowBalance = 0 := le_antisymm hzero.2 he
    rw [Backfill.foldl_settle_of_not_mem hnot]
    cases v
    simp_all [released, Backfill.Wallet.total]

theorem legacy_created {rows : List Wallet} {payments : List Backfill.PaystackTransaction}
    (hids : IdsDistinct rows)
    (hnonneg : ∀ w ∈ merged rows, 0 ≤ w.availableBalance ∧ 0 ≤ w.escrowBalance)
    (hreferences : (payments.map (·.reference)).Nodup)
    (hpositive : ∀ p ∈ payments, p.status = .success → p.transactionType = .escrowDeposit →
      0 < p.amount) : Backfill.Legacy (created (merged rows) payments) where
  ids := (merged_nodup hids).2
  onePerUser := (merged_nodup hids).1
  nonneg := hnonneg
  reconciled := fun _ _ hne => absurd rfl hne
  references := hreferences
  positive := hpositive

/-- Wallets that have been merged get their ledger, or one of them holds more
than its column takes. -/
theorem backfill_created {now : Nat} {rows : List Wallet}
    {payments : List Backfill.PaystackTransaction} (hids : IdsDistinct rows)
    (h : Backfill.Legacy (created (merged rows) payments)) :
    Migrated rows (Backfill.upgrade now (created (merged rows) payments)) := by
  unfold Backfill.upgrade
  cases hfold : (Backfill.legacyWallets (created (merged rows) payments)).foldlM
      (Backfill.backfillWallet now) (created (merged rows) payments) with
  | error f =>
      have husers : ((Backfill.legacyWallets (created (merged rows) payments)).map
          (·.userId)).Nodup := h.onePerUser.sublist (List.filter_sublist.map _)
      have hstop := Backfill.foldlM_error (fun w hw => h.explains now hw)
        (Backfill.nodup_plan now h.references h.legacy_ids husers) hfold
      cases hstop with
      | total w hw hfit =>
          obtain ⟨k, hk, rfl⟩ := List.mem_map.mp (Backfill.mem_legacyWallets.mp hw).1
          exact ⟨k, mem_oldest hk, Or.inr (Or.inr (Or.inl hfit))⟩
      | taken e he t ht href => cases ht
  | ok db =>
      obtain rfl := Backfill.foldlM_ok hfold
      have hdrift := Backfill.drifting_afterwards now h
      have hwallet := afterwards_wallet now h
      simp only [bind, Except.bind, hdrift, List.length_nil, ne_eq, not_true_eq_false, if_false]
      refine ⟨?_, ?_, ?_, ?_⟩
      · intro w hw
        have hnot := List.filter_eq_nil_iff.mp hdrift w hw
        rw [Bool.or_eq_true, decide_eq_true_eq, decide_eq_true_eq, not_or, not_not,
          not_not] at hnot
        rw [hwallet] at hw
        obtain ⟨v, hv, rfl⟩ := List.mem_map.mp hw
        obtain ⟨k, hk, rfl⟩ := List.mem_map.mp hv
        exact {
          oldest := ⟨k, mem_oldest hk, rfl, rfl, (Collapse.mem_leaders.mp hk).2⟩
          available := rfl
          escrow := rfl
          ledger := ⟨hnot.1.symm, hnot.2.symm⟩ }
      · rw [hwallet, List.map_map]
        exact h.onePerUser
      · intro v hv
        obtain ⟨k, hk, hkey⟩ :=
          Collapse.exists_leader Wallet.userId Wallet.rank hv
        rw [hwallet]
        exact ⟨_, List.mem_map_of_mem (List.mem_map_of_mem hk), hkey⟩
      · intro hwhole
        rw [hwallet, List.map_map, ← fortune_merged hids hwhole]
        refine congrArg List.sum (List.map_congr_left ?_)
        intro v _
        rw [Function.comp_apply, Backfill.Wallet.total, released, add_zero]

/-- However many wallets a user had, the migrations leave one, with all that
they held together and a ledger that says so; they never end in the drift
error, and stop only at sums that no wallet can have. -/
theorem migrate_settles {now : Nat} {rows : List Wallet}
    {payments : List Backfill.PaystackTransaction} (hids : IdsDistinct rows)
    (hreferences : (payments.map (·.reference)).Nodup)
    (hpositive : ∀ p ∈ payments, p.status = .success → p.transactionType = .escrowDeposit →
      0 < p.amount) : Migrated rows (migrate now rows payments) := by
  have hspec := upgrade_spec hids
  unfold migrate
  cases hup : upgrade rows with
  | error f =>
      rw [hup] at hspec
      cases hspec with
      | available v hv hfit => exact ⟨v, hv, Or.inl hfit⟩
      | escrow v hv hfit => exact ⟨v, hv, Or.inr (Or.inl hfit)⟩
      | negative v hv hlt => exact ⟨v, hv, Or.inr (Or.inr (Or.inr hlt))⟩
  | ok wallets =>
      rw [hup] at hspec
      obtain ⟨rfl, hnonneg⟩ := hspec
      exact backfill_created hids (legacy_created hids hnonneg hreferences hpositive)

/-- Ada has two wallets, the older one with half a kobo too many, and Bob has
one. -/
def threeWallets : List Wallet := [
  { id := "w2", userId := "ada", availableBalance := 100, escrowBalance := 4000, createdAt := 2 },
  { id := "w1", userId := "ada", availableBalance := 1 / 2, escrowBalance := 1000
    createdAt := 1 },
  { id := "w3", userId := "bob", availableBalance := 0, escrowBalance := 0, createdAt := 3 }]

/-- Ada's deposits, one of them more than she has. -/
def twoDeposits : List Backfill.PaystackTransaction := [
  { id := "p1"
    userId := "ada"
    reference := "A1"
    amount := 3000
    status := .success
    transactionType := .escrowDeposit
    createdAt := 1 },
  { id := "p2"
    userId := "ada"
    reference := "A2"
    amount := 3000
    status := .success
    transactionType := .escrowDeposit
    createdAt := 2 }]

theorem migrate_settles_threeWallets :
    Migrated threeWallets (migrate 9 threeWallets twoDeposits) :=
  @migrate_settles 9 threeWallets twoDeposits (by decide) (by decide) (by decide)

example : (migrate 9 threeWallets twoDeposits).toOption.map
    (fun db => (db.wallet.map fun w => (w.id, w.availableBalance, w.escrowBalance),
      db.transaction.map fun e => (e.reference, e.balanceAfter))) =
    some ([("w1", 5101, 0), ("w3", 0, 0)],
      [("dep_A1", 3000), ("opening_w1", 5101)]) := by decide +kernel

end WalletMerge

end Adehun
