import Adehun.Movements
import Adehun.Ownership
import Adehun.Paging
import Adehun.Routine.Serial
import Mathlib.Data.List.Infix
import Mathlib.Data.Prod.Lex
import Mathlib.Data.Rat.Defs

/-!
# The history of a user's money

The read side of the ledger. A listing filters the entries of one user,
sorts them newest first, with the identifier where the times tie, and cuts a
page out by offset and limit; the total and the header's sums are queries of
their own. Entries are written in between, so a client that pages through
the history reads a list that changes under it.

The ledger is only appended to. That is enough for a client that keeps
asking until it has reached the total: whatever was in the history when it
began is on one of the pages, unless the filter goes by status, which does
change.

The columns nothing else reads, the time of creation and the text of a
reference, are given by what they belong to.
-/

namespace Adehun

open Sessions

/-- The columns of an entry that are fixed when it is made. -/
structure Columns where
  createdAt : Id → Nat
  reference : Reference → String

/-! ## The filters -/

/-- The query parameters; money in naira, of any precision. -/
structure TransactionFilters where
  types : List LedgerEntryType := []
  direction : Option LedgerDirection := none
  status : Option LedgerEntryStatus := none
  agreementId : Option Id := none
  dateFrom : Option Nat := none
  dateTo : Option Nat := none
  minAmount : Option ℚ := none
  maxAmount : Option ℚ := none
  search : String := ""

/-- `text LIKE pattern`: a percent sign stands for any text, an underscore
for one character, and a backslash takes the next character as it is. -/
def like : (pattern text : List Char) → Bool
  | [], text => text.isEmpty
  | '%' :: pattern, text => text.tails.any (like pattern)
  | '_' :: pattern, text =>
      match text with
      | [] => false
      | _ :: rest => like pattern rest
  | '\\' :: c :: pattern, text =>
      match text with
      | [] => false
      | d :: rest => c = d && like pattern rest
  | c :: pattern, text =>
      match text with
      | [] => false
      | d :: rest => c = d && like pattern rest

/-- `text ILIKE '%search%'` -/
def searched (search text : String) : Bool :=
  like ('%' :: lower search ++ ['%']) (lower text)

/-- The amount of an entry in naira. -/
def Transaction.naira (t : Transaction) : ℚ := (t.amount : Int) / 100

/-- `_filtered`: what a listing of a user's entries is about. -/
def TransactionFilters.admits (f : TransactionFilters) (c : Columns) (userId : Id)
    (t : Transaction) : Bool :=
  t.userId = userId && (f.types.isEmpty || t.type ∈ f.types) &&
    f.direction.all (t.direction = ·) && f.status.all (t.status = ·) &&
    f.agreementId.all (t.agreementId = some ·) && f.dateFrom.all (· ≤ c.createdAt t.id) &&
    f.dateTo.all (c.createdAt t.id ≤ ·) && f.minAmount.all (· ≤ t.naira) &&
    f.maxAmount.all (t.naira ≤ ·) &&
    (f.search = "" || t.description.any (searched f.search) ||
      searched f.search (c.reference t.reference))

/-! ## The queries -/

/-- `ORDER BY created_at, id` -/
def Columns.key (c : Columns) (t : Transaction) : ℕ ×ₗ ℕ := toLex (c.createdAt t.id, t.id)

/-- All entries of a user that a filter admits, newest first. -/
def history (c : Columns) (userId : Id) (f : TransactionFilters) (db : Db adehun) :
    List Transaction :=
  ((db .transaction : List Transaction).filter (f.admits c userId)).mergeSort
    fun t t' => decide (c.key t' ≤ c.key t)

def listForUser (c : Columns) (userId : Id) (skip limit : Nat) (f : TransactionFilters)
    (db : Db adehun) : List Transaction :=
  Paging.page skip limit (history c userId f db)

def countForUser (c : Columns) (userId : Id) (f : TransactionFilters) (db : Db adehun) : Nat :=
  ((db .transaction : List Transaction).filter (f.admits c userId)).length

structure TransactionSummary where
  totalCredit : Kobo := 0
  totalDebit : Kobo := 0
  creditCount : Nat := 0
  debitCount : Nat := 0
deriving DecidableEq

/-- `SELECT direction, SUM(amount), COUNT(*) ... GROUP BY direction` -/
def byDirection (ts : List Transaction) : List (LedgerDirection × Kobo × Nat) :=
  ([.credit, .debit].filter fun d => ts.any (·.direction = d)).map fun d =>
    (d, ((ts.filter (·.direction = d)).map (·.amount)).sum, (ts.filter (·.direction = d)).length)

def summaryForUser (c : Columns) (userId : Id) (f : TransactionFilters) (db : Db adehun) :
    TransactionSummary :=
  (byDirection ((db .transaction : List Transaction).filter (f.admits c userId))).foldl
    (fun totals (direction, total, count) =>
      match direction with
      | .credit => { totals with totalCredit := total, creditCount := count }
      | .debit => { totals with totalDebit := total, debitCount := count }) {}

structure TransactionListResponse where
  transactions : List Transaction
  total : Nat
  skip : Nat
  limit : Nat
  summary : TransactionSummary

/-- `TransactionService.get_user_transactions`: three statements. -/
def getUserTransactions (c : Columns) (userId : Id) (skip limit : Nat) (f : TransactionFilters) :
    App TransactionListResponse := do
  let transactions ← Prog.perform (Stmt.load (M := adehun) .transaction fun db =>
    (listForUser c userId skip limit f db).map (·.id))
  let total ← select (countForUser c userId f)
  let summary ← select (summaryForUser c userId f)
  pure { transactions, total, skip, limit, summary }

/-! ## What a listing lists -/

variable {c : Columns} {userId : Id} {f : TransactionFilters} {db db' : Db adehun}

theorem mem_history {t : Transaction} : t ∈ history c userId f db ↔
    t ∈ (db .transaction : List Transaction) ∧ f.admits c userId t = true := by
  rw [history, List.mem_mergeSort, List.mem_filter]

theorem length_history : (history c userId f db).length = countForUser c userId f db := by
  rw [history, List.length_mergeSort, countForUser]

/-- The keys of a history, newest first. -/
theorem keys_history : (history c userId f db).map c.key =
    (((db .transaction : List Transaction).filter (f.admits c userId)).map c.key).mergeSort
      fun k k' => decide (k' ≤ k) :=
  List.map_mergeSort fun _ _ _ _ => rfl

/-- What a session that is alone is answered. -/
theorem getUserTransactions_solo {σ : Solo adehun} (h : σ.Tidy) (hs : σ.view.Sound)
    (skip limit : Nat) : (getUserTransactions c userId skip limit f).solo σ =
      (.ok { transactions := listForUser c userId skip limit f σ.view
             total := countForUser c userId f σ.view
             skip := skip
             limit := limit
             summary := summaryForUser c userId f σ.view }, σ) := by
  have hrows := hs.keys.rows (t := Table.transaction)
    (l := listForUser c userId skip limit f σ.view)
    fun t ht => (mem_history.mp (List.mem_of_mem_drop (List.mem_of_mem_take ht))).1
  have hload : (Prog.perform (Stmt.load (M := adehun) .transaction fun db =>
      (listForUser c userId skip limit f db).map (·.id))).solo σ =
      (.ok (listForUser c userId skip limit f σ.view), σ) := by
    rw [Prog.solo_perform, h.load]
    exact congrArg (fun rows => (Except.ok rows, σ)) hrows
  unfold getUserTransactions
  rw [Prog.solo_bind, hload]
  dsimp only
  rw [Prog.solo_bind, select_solo h]
  dsimp only
  rw [Prog.solo_bind, select_solo h]
  rfl

/-! ## Reading to the end -/

/-- The ledger has grown, and nothing else happened to its entries. -/
def Grown (db db' : Db adehun) : Prop := ∃ es, Appends es db db'

theorem Grown.refl (db : Db adehun) : Grown db db := ⟨[], by simp [Appends]⟩

theorem Grown.trans {db'' : Db adehun} (h : Grown db db') (h' : Grown db' db'') :
    Grown db db'' := by
  obtain ⟨es, hes⟩ := h
  obtain ⟨es', hes'⟩ := h'
  exact ⟨es ++ es', hes.trans hes'⟩

/-- What a filter that does not go by status says of an entry does not
change. -/
theorem admits_entered (hf : f.status = none) (t : Transaction) :
    f.admits c userId t.entered = f.admits c userId t := by
  simp only [TransactionFilters.admits, hf, Option.all_none]
  rfl

/-- A history that grows keeps what it had in its order. -/
theorem Grown.keys (h : Grown db db') (hf : f.status = none) :
    ((history c userId f db).map c.key).Sublist ((history c userId f db').map c.key) := by
  obtain ⟨es, hes⟩ := h
  have hkeys : ∀ ts : List Transaction, (ts.filter (f.admits c userId)).map c.key =
      ((ts.map Transaction.entered).filter (f.admits c userId)).map c.key := by
    intro ts
    have hsame : f.admits c userId ∘ Transaction.entered = f.admits c userId :=
      funext (admits_entered hf)
    rw [List.filter_map, List.map_map, hsame]
    rfl
  rw [keys_history, keys_history]
  refine Paging.mergeSort_sublist ?_
  rw [hkeys, hkeys (db' .transaction), hes, List.filter_append, List.map_append]
  exact List.sublist_append_left _ _

/-- A request leads from one configuration to another. -/
def RunsOn (settings : Settings) (C C' : Conf adehun Response) : Prop :=
  ∃ ls, C.run (handler settings) ls = some C'

/-- The pages a client is given that asks for one after the other. -/
def pagesRead (c : Columns) (userId : Id) (f : TransactionFilters) (limit : Nat) :
    (k : Nat) → List (Conf adehun Response) → List (List Transaction)
  | _, [] => []
  | k, C :: Cs => listForUser c userId (k * limit) limit f C.world.db ::
      pagesRead c userId f limit (k + 1) Cs

theorem pagesRead_eq (limit k : Nat) (Cs : List (Conf adehun Response)) :
    pagesRead c userId f limit k Cs =
      Paging.walk limit k (Cs.map fun C => history c userId f C.world.db) := by
  induction Cs generalizing k with
  | nil => rfl
  | cons C Cs ih => rw [pagesRead, List.map_cons, Paging.walk, ih, listForUser]

/-- From wherever a run has led, the ledger only grows. -/
theorem grown_of_runsOn {settings : Settings} {shared : Shared} (hk : db.KeysDistinct)
    (he : db.EntriesDistinct) {C C' : Conf adehun Response}
    (hC : RunsOn settings { world := { db, shared } } C) (h : RunsOn settings C C') :
    Grown C.world.db C'.world.db := by
  obtain ⟨ls, hls⟩ := hC
  obtain ⟨ls', hls'⟩ := h
  have hsteps := ((entersOne_of hk he (ls ++ ls')).after hls).mono
    (Q := fun C C' => Grown C.world.db C'.world.db) fun _ _ ⟨es, _, hes⟩ => ⟨es, hes⟩
  exact hsteps.rel (fun _ => .refl _) (fun h h' => h.trans h') hls'

theorem RunsOn.trans {settings : Settings} {C C' C'' : Conf adehun Response}
    (h : RunsOn settings C C') (h' : RunsOn settings C' C'') : RunsOn settings C C'' := by
  obtain ⟨ls, hls⟩ := h
  obtain ⟨ls', hls'⟩ := h'
  exact ⟨ls ++ ls', by rw [Conf.run_append, hls]; exact hls'⟩

/-- The histories that a client comes across in a run grow. -/
theorem histories_grow {settings : Settings} {shared : Shared} (hk : db.KeysDistinct)
    (he : db.EntriesDistinct) (hf : f.status = none) {Cs : List (Conf adehun Response)}
    (hchain : (({ world := { db, shared } } : Conf adehun Response) :: Cs).IsChain
      (RunsOn settings)) :
    (Cs.map fun C => (history c userId f C.world.db).map c.key).IsChain List.Sublist := by
  have hreach : ∀ (C₀ : Conf adehun Response) (Cs : List (Conf adehun Response)),
      RunsOn settings ({ world := { db, shared } } : Conf adehun Response) C₀ →
      (C₀ :: Cs).IsChain (RunsOn settings) →
      ((C₀ :: Cs).map fun C => (history c userId f C.world.db).map c.key).IsChain
        List.Sublist := by
    intro C₀ Cs h₀ hchain
    induction Cs generalizing C₀ with
    | nil => exact List.isChain_singleton _
    | cons C₁ Cs ih =>
        rw [List.isChain_cons_cons] at hchain
        rw [List.map_cons, List.map_cons, List.isChain_cons_cons]
        refine ⟨(grown_of_runsOn hk he h₀ hchain.1).keys hf, ?_⟩
        exact ih C₁ (h₀.trans hchain.1) hchain.2
  exact (hreach _ Cs ⟨[], rfl⟩ hchain).tail

/-- A client that pages through its history, in whatever run, and asks until
it has reached the total, is given every entry that was in the history when
it began, unless it filters by status. -/
theorem missesNone_run {settings : Settings} {shared : Shared} (hk : db.KeysDistinct)
    (he : db.EntriesDistinct) (hf : f.status = none) {limit : Nat} {C : Conf adehun Response}
    {Cs : List (Conf adehun Response)}
    (hchain : (({ world := { db, shared } } : Conf adehun Response) :: C :: Cs).IsChain
      (RunsOn settings))
    (hend : countForUser c userId f ((C :: Cs).getLast (List.cons_ne_nil C Cs)).world.db ≤
      (C :: Cs).length * limit) :
    ∀ t ∈ history c userId f C.world.db,
      ∃ page ∈ pagesRead c userId f limit 0 (C :: Cs), ∃ t' ∈ page, t'.id = t.id := by
  intro t ht
  have hgrow : ((C :: Cs).map fun C => (history c userId f C.world.db).map c.key).IsChain
      List.Sublist := histories_grow hk he hf hchain
  have hlength : ∀ C : Conf adehun Response, ((history c userId f C.world.db).map c.key).length =
      countForUser c userId f C.world.db := by
    intro C
    rw [List.length_map, length_history]
  have hlast : (((C :: Cs).map fun C => (history c userId f C.world.db).map c.key).getLast
      (List.cons_ne_nil _ _)).length ≤ ((C :: Cs).map fun C =>
        (history c userId f C.world.db).map c.key).length * limit := by
    rw [List.getLast_map, hlength, List.length_map]
    exact hend
  have hmem := List.mem_map_of_mem (f := c.key) ht
  obtain ⟨keys, hkeys, hkey⟩ := Paging.mem_walk hgrow hmem hlast
  have hread : keys ∈ (pagesRead c userId f limit 0 (C :: Cs)).map fun p => p.map c.key := by
    rw [pagesRead_eq, Paging.walk_pages]
    exact hkeys
  obtain ⟨page, hpage, rfl⟩ := List.mem_map.mp hread
  obtain ⟨t', ht', hsame⟩ := List.mem_map.mp hkey
  exact ⟨page, hpage, t', ht', congrArg (fun k => (ofLex k).2) hsame⟩

namespace OneDay

/-- Entries are created in the order of their identifiers. -/
def columns : Columns := ⟨fun id => id, fun _ => ""⟩

theorem runsOn_days :
    [start, noon.2, evening.2, evening.2, evening.2].IsChain (RunsOn settings) := by
  have hnoon : RunsOn settings start noon.2 := ⟨noon.1, Conf.run_played _ _⟩
  have hevening : RunsOn settings noon.2 evening.2 := ⟨evening.1, Conf.run_played _ _⟩
  have hstays : RunsOn settings evening.2 evening.2 := ⟨[], rfl⟩
  simp [hnoon, hevening, hstays]

end OneDay

/-- Ada reads the first page of two at noon, when she has four entries, and
the others in the evening, when there are three more before them. -/
theorem missesNone_run_oneDay :
    countForUser OneDay.columns 1 {} OneDay.noon.2.world.db = 4 ∧
    countForUser OneDay.columns 1 {} OneDay.evening.2.world.db = 7 ∧
    ∀ t ∈ history OneDay.columns 1 {} OneDay.noon.2.world.db,
      ∃ page ∈ pagesRead OneDay.columns 1 {} 2 0
          [OneDay.noon.2, OneDay.evening.2, OneDay.evening.2, OneDay.evening.2],
        ∃ t' ∈ page, t'.id = t.id :=
  ⟨by decide +kernel, by decide +kernel, missesNone_run OneDay.db_keysDistinct
    OneDay.db_entriesDistinct rfl
    OneDay.runsOn_days
    (by decide +kernel)⟩

/-! ## The header -/

/-- The amounts of the entries in one direction. -/
def totalOf (d : LedgerDirection) (ts : List Transaction) : Kobo :=
  ((ts.filter (·.direction = d)).map (·.amount)).sum

theorem totalOf_eq_zero {d : LedgerDirection} {ts : List Transaction}
    (h : ¬ ts.any (·.direction = d)) : totalOf d ts = 0 := by
  have hnil : ts.filter (·.direction = d) = [] := by
    rw [List.filter_eq_nil_iff]
    intro t ht hd
    exact h (List.any_eq_true.mpr ⟨t, ht, hd⟩)
  rw [totalOf, hnil]
  rfl

/-- The header's sums are those of all entries the filter admits, not of a
page, and a direction without entries counts as nothing. -/
theorem summaryForUser_totals :
    (summaryForUser c userId f db).totalCredit =
      totalOf .credit ((db .transaction : List Transaction).filter (f.admits c userId)) ∧
    (summaryForUser c userId f db).totalDebit =
      totalOf .debit ((db .transaction : List Transaction).filter (f.admits c userId)) := by
  unfold summaryForUser byDirection
  generalize (db .transaction : List Transaction).filter (f.admits c userId) = ts
  by_cases hcredit : ts.any (·.direction = .credit) <;>
    by_cases hdebit : ts.any (·.direction = .debit)
  · simp [hcredit, hdebit, totalOf]
  · simpa [hcredit, hdebit, totalOf] using (totalOf_eq_zero hdebit).symm
  · simpa [hcredit, hdebit, totalOf] using (totalOf_eq_zero hcredit).symm
  · simp [hcredit, hdebit, totalOf_eq_zero hcredit, totalOf_eq_zero hdebit]

/-- What has left a user's escrow for somebody else. -/
def released (userId : Id) (db : Db adehun) : Kobo :=
  (((db .transaction : List Transaction).filter fun t =>
    t.userId = userId && t.type = .escrowReleaseOut).map (·.amount)).sum

/-- An entry of the effects table moves the available balance by its amount,
in its direction, unless it is the first leg of a release. -/
theorem Transaction.Shaped.signed {t : Transaction} (h : t.Shaped) :
    (if t.direction = .credit then t.amount else 0) -
        (if t.direction = .debit then t.amount else 0) =
      t.availableDelta - if t.type = .escrowReleaseOut then t.amount else 0 := by
  rw [h.direction, h.available]
  cases t.type <;> simp [ledgerDirection, ledgerEffects]

theorem sum_filter (p : Transaction → Bool) (f : Transaction → Kobo) (ts : List Transaction) :
    ((ts.filter p).map f).sum = (ts.map fun t => if p t then f t else 0).sum := by
  induction ts with
  | nil => rfl
  | cons t ts ih =>
      by_cases hp : p t
      · simp [hp, ih]
      · simp [hp, ih]

theorem totals_signed {ts : List Transaction} (h : ∀ t ∈ ts, t.Shaped) :
    totalOf .credit ts - totalOf .debit ts = (ts.map (·.availableDelta)).sum -
      ((ts.filter (·.type = .escrowReleaseOut)).map (·.amount)).sum := by
  rw [totalOf, totalOf, sum_filter, sum_filter, sum_filter]
  induction ts with
  | nil => rfl
  | cons t ts ih =>
      have hsigned := (h t List.mem_cons_self).signed
      have hrest := ih fun t' ht' => h t' (List.mem_cons_of_mem t ht')
      simp only [List.map_cons, List.sum_cons, decide_eq_true_eq] at hrest ⊢
      rw [add_sub_add_comm, hsigned, hrest, ← add_sub_add_comm]

/-- A user has one wallet, so that a user's entries are the wallet's. -/
theorem userId_iff {w : Wallet} (hk : db.KeysDistinct) (he : db.EntriesDistinct)
    (hown : Attributed db) (hw : w ∈ (db .wallet : List Wallet)) {t : Transaction}
    (ht : t ∈ (db .transaction : List Transaction)) : t.userId = w.userId ↔ t.walletId = w.id := by
  have hlook : db.lookup ⟨Table.wallet, w.id⟩ = some w := hk.lookup hw
  obtain ⟨r, hr, hu⟩ := hown t ht
  constructor
  · intro hsame
    by_contra hne
    refine he Table.wallet t.walletId w.id r w hne hr hlook (.walletUser r.userId)
      (List.mem_singleton_self _) ?_
    rw [hu, hsame]
    exact List.mem_singleton_self _
  · intro hsame
    rw [hsame, hlook, Option.some.injEq] at hr
    rw [← hu, ← hr]

/-- Every entry is as the effects table has it. -/
def AllShaped (db : Db adehun) : Prop := ∀ t ∈ (db .transaction : List Transaction), t.Shaped

theorem Transaction.shaped_of_entered {t t' : Transaction} (h : t.Shaped)
    (hsame : t'.entered = t.entered) : t'.Shaped := by
  simp only [entered, Transaction.mk.injEq] at hsame
  obtain ⟨-, -, -, -, -, -, -, -, -, -, hamount, -, ha, he, -, -, htype, hd, -⟩ := hsame
  exact ⟨hamount ▸ h.amount_pos, by rw [ha, hamount, htype]; exact h.available,
    by rw [he, hamount, htype]; exact h.escrow, by rw [hd, htype]; exact h.direction⟩

theorem EntersOne.allShaped (h : EntersOne db db') (hs : AllShaped db) : AllShaped db' := by
  obtain ⟨es, hes, happends⟩ := h
  have hshaped : ∀ e ∈ es, e.Shaped := by
    intro e he
    rcases hes with rfl | hes
    · cases he
    · cases hes with
      | entry t ht =>
          obtain rfl := List.mem_singleton.mp he
          exact ht
      | transfer g out into hout hinto =>
          rcases List.mem_cons.mp he with rfl | he
          · exact hout
          · obtain rfl := List.mem_singleton.mp he
            exact hinto
  intro t ht
  have hmem : t.entered ∈ (db' .transaction : List Transaction).map Transaction.entered :=
    List.mem_map_of_mem ht
  rw [happends, List.mem_append, List.mem_map, List.mem_map] at hmem
  rcases hmem with ⟨t₀, h₀, hsame⟩ | ⟨t₀, h₀, hsame⟩
  · exact Transaction.shaped_of_entered (hs t₀ h₀) hsame.symm
  · exact Transaction.shaped_of_entered (hshaped t₀ h₀) hsame.symm

/-- The header of an unfiltered history: what came in less what went out is
the available balance, but for what was paid out of escrow, which the header
counts as a debit a second time. -/
theorem reconciles_of (hf : Followed db) (he : db.EntriesDistinct) (hown : Attributed db)
    (hs : AllShaped db) {w : Wallet} (hw : w ∈ (db .wallet : List Wallet)) :
    (summaryForUser c w.userId {} db).totalCredit - (summaryForUser c w.userId {} db).totalDebit =
      w.availableBalance - released w.userId db := by
  have hadmits : ∀ t ∈ (db .transaction : List Transaction),
      ({} : TransactionFilters).admits c w.userId t = decide (t.walletId = w.id) := by
    intro t ht
    have hiff := userId_iff hf.keys he hown hw ht
    simp [TransactionFilters.admits, hiff]
  have hfilter : (db .transaction : List Transaction).filter
      (({} : TransactionFilters).admits c w.userId) =
      (db .transaction : List Transaction).filter fun t => t.walletId = w.id :=
    List.filter_congr hadmits
  have hreleased : released w.userId db = ((((db .transaction : List Transaction).filter
      fun t => t.walletId = w.id).filter (·.type = .escrowReleaseOut)).map (·.amount)).sum := by
    rw [List.filter_filter, released]
    refine congrArg (fun ts : List Transaction => (ts.map (·.amount)).sum)
      (List.filter_congr ?_)
    intro t ht
    rw [decide_eq_decide.mpr (userId_iff hf.keys he hown hw ht), Bool.and_comm]
  have hbalance : w.availableBalance = total Transaction.availableDelta w.id db := by
    have := (hf.balanced w.id w (hf.keys.lookup hw)).1
    simpa [even] using this
  rw [summaryForUser_totals.1, summaryForUser_totals.2, hfilter, hreleased, hbalance, total]
  refine totals_signed ?_
  intro t ht
  exact hs t (List.mem_filter.mp ht).1

/-- In every run in which no wallet is locked whose object is out of date,
the header of a user's history fits the user's wallet. -/
theorem reconciles_run {settings : Settings} {shared : Shared} (hk : db.KeysDistinct)
    (he : db.EntriesDistinct) (hb : LedgerBalances db) (href : Referenced db)
    (hown : Attributed db) (hs : AllShaped db) {ls : List (Label adehun Request)}
    {C : Conf adehun Response}
    (hg : Conf.RunMeets currentLocks (handler settings)
      ({ world := { db, shared } } : Conf adehun Response) ls)
    (hr : Conf.run (handler settings) { world := { db, shared } } ls = some C) :
    ∀ w ∈ (C.world.db .wallet : List Wallet),
      (summaryForUser c w.userId {} C.world.db).totalCredit -
          (summaryForUser c w.userId {} C.world.db).totalDebit =
        w.availableBalance - released w.userId C.world.db := by
  obtain ⟨hwf, hattributed⟩ := good_of_keeps (D := ownership) (ownership_handler settings) hk he
    hown (Conf.runMeets_trivial _ ls) hr
  have hshaped : AllShaped C.world.db :=
    Conf.RunSteps.rel (P := fun C C' => AllShaped C.world.db → AllShaped C'.world.db)
      (fun _ h => h) (fun h h' hs => h' (h hs))
      ((entersOne_of hk he ls).mono fun _ _ h => h.allShaped) hr hs
  have hfollowed : Followed C.world.db :=
    Conf.RunSteps.rel (P := fun C C' => Followed C.world.db → Followed C'.world.db)
      (fun _ h => h) (fun h h' hf => h' (h hf))
      ((refinesVault_of (followed_of hk hb href) he hg).mono fun _ _ h _ => h.2.1) hr
      (followed_of hk hb href)
  exact fun w hw => reconciles_of hfollowed hwf.entries hattributed hshaped hw

theorem OneDay.db_allShaped : AllShaped OneDay.db := by
  intro t ht
  obtain rfl := List.mem_singleton.mp ht
  exact ⟨by decide, rfl, rfl, rfl⟩

theorem reconciles_run_oneDay :
    summaryForUser OneDay.columns 1 {} OneDay.evening.2.world.db =
      { totalCredit := 45500, totalDebit := 45000, creditCount := 3, debitCount := 4 } ∧
    ∀ w ∈ (OneDay.evening.2.world.db .wallet : List Wallet),
      (summaryForUser OneDay.columns w.userId {} OneDay.evening.2.world.db).totalCredit -
          (summaryForUser OneDay.columns w.userId {} OneDay.evening.2.world.db).totalDebit =
        w.availableBalance - released w.userId OneDay.evening.2.world.db :=
  ⟨by decide +kernel, reconciles_run OneDay.db_keysDistinct OneDay.db_entriesDistinct
    (by decide) (by decide) OneDay.db_attributed OneDay.db_allShaped OneDay.currentLocks_labels
    OneDay.run_labels⟩

end Adehun
