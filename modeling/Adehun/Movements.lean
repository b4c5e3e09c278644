import Adehun.LedgerBalance
import Adehun.Ownership
import Adehun.Vault

/-!
# What a commit does to the money

The ledger is only ever appended to, and what one commit appends is one
movement: a single entry, or the two legs of a transfer. That much needs no
condition on the run. Where the ledger balances besides, the wallets follow
it, and every step of a run is nothing or one whole movement of a vault:
the abstract machine that the API is, as far as money goes.
-/

namespace Adehun

open Sessions

/-! ## Entries and movements -/

/-- An entry without its status and its time of processing. -/
def Transaction.entered (t : Transaction) : Transaction :=
  { t with status := .pending, processedAt := none }

/-- An entry as the effects table has it. -/
structure Transaction.Shaped (t : Transaction) : Prop where
  amount_pos : 0 < t.amount
  available : t.availableDelta = t.amount * (ledgerEffects t.type).1
  escrow : t.escrowDelta = t.amount * (ledgerEffects t.type).2
  direction : t.direction = ledgerDirection t.type

/-- One leg of a release. -/
def LedgerEntryType.isLeg : LedgerEntryType → Bool
  | .escrowReleaseOut | .escrowReleaseIn => true
  | _ => false

/-- What is entered in one go: one entry, or the two legs of a release. -/
inductive Movement : List Transaction → Prop
  | entry (t : Transaction) : t.Shaped → t.type.isLeg = false → Movement [t]
  | transfer (g : GroupId) (out into : Transaction) : out.Shaped → into.Shaped →
      out.type = .escrowReleaseOut → into.type = .escrowReleaseIn →
      out.amount = into.amount → out.reference = .out g → into.reference = .into g →
      Movement [out, into]

/-- The ledger after the one before and some more entries. -/
def Appends (es : List Transaction) (db db' : Db adehun) : Prop :=
  (db' .transaction : List Transaction).map Transaction.entered =
    (db .transaction : List Transaction).map Transaction.entered ++ es.map Transaction.entered

/-- Nothing but statuses changes, or one movement is entered. -/
def EntersOne (db db' : Db adehun) : Prop :=
  ∃ es, (es = [] ∨ Movement es) ∧ Appends es db db'

/-! ## Writes to the ledger -/

/-- A write that enters an entry as it should be, or leaves the entries. -/
def Records : Write adehun → Prop
  | .insert .transaction (t : Transaction) => t.Shaped
  | .update .transaction _ p => ∀ t : Transaction,
      Transaction.entered (p.run t) = t.entered
  | .delete .transaction _ => False
  | _ => True

/-- What a write enters. -/
def entries : Write adehun → List Transaction
  | .insert .transaction (t : Transaction) => [t]
  | _ => []

theorem entries_of_ne {d : Write adehun} (h : d.key.table ≠ .transaction) : entries d = [] := by
  cases d with
  | insert t r => cases t <;> first | rfl | exact absurd rfl h
  | update t id p => rfl
  | delete t id => rfl

theorem records_of_ne {d : Write adehun} (h : d.key.table ≠ .transaction) : Records d := by
  cases d with
  | insert t r => cases t <;> trivial
  | update t id p => cases t <;> trivial
  | delete t id => cases t <;> trivial

theorem appends_apply {d : Write adehun} (hd : Records d) (db : Db adehun) :
    Appends (entries d) db (d.apply db) := by
  by_cases ht : d.key.table = Table.transaction
  · cases d with
    | insert t r =>
        obtain rfl : t = Table.transaction := ht
        simp only [Appends, Write.apply, Db.set_self, entries, List.map_append]
    | update t id p =>
        obtain rfl : t = Table.transaction := ht
        have hp : ∀ t : Transaction, Transaction.entered (p.run t) = t.entered := hd
        simp only [Appends, Write.apply, Db.set_self, entries, List.map_map, List.map_nil,
          List.append_nil]
        refine List.map_congr_left ?_
        intro t _
        simp only [Function.comp_apply]
        split
        · exact hp t
        · rfl
    | delete t id =>
        obtain rfl : t = Table.transaction := ht
        exact hd.elim
  · have hsame : d.apply db Table.transaction = db Table.transaction :=
      Write.apply_table_of_ne db ht
    simp only [Appends, entries_of_ne ht, hsame, List.map_nil, List.append_nil]

theorem Appends.trans {es es' : List Transaction} {db db' db'' : Db adehun}
    (h : Appends es db db') (h' : Appends es' db' db'') : Appends (es ++ es') db db'' := by
  rw [Appends, h', h, List.map_append, List.append_assoc]

theorem appends_applyAll {ds : List (Write adehun)} (hds : ∀ d ∈ ds, Records d)
    (db : Db adehun) : Appends (ds.flatMap entries) db (db.applyAll ds) := by
  induction ds generalizing db with
  | nil => simp [Appends]
  | cons d ds ih =>
      rw [Db.applyAll_cons, List.flatMap_cons]
      exact (appends_apply (hds d List.mem_cons_self) db).trans
        (ih (fun d' hd' => hds d' (List.mem_cons_of_mem d hd')) _)

/-! ## The discipline -/

/-- A session has asked for these entries, and for nothing else that changes
the ledger. -/
structure Asks (es : List Transaction) (i : Nat) (w : World adehun) : Prop where
  entries : (asked w i).flatMap entries = es
  records : ∀ d ∈ asked w i, Records d

theorem Asks.congr {es : List Transaction} {i : Nat} {w w' : World adehun} (h : Asks es i w)
    (hasked : asked w' i = asked w i) : Asks es i w' := by
  refine ⟨?_, ?_⟩
  · rw [hasked]
    exact h.entries
  · rw [hasked]
    exact h.records

/-- Whole movements are committed: as a discipline. -/
def movements : Discipline adehun where
  Ghost := List Transaction
  rest := []
  Commits es := es = [] ∨ Movement es
  rest_commits := Or.inl rfl
  Good _ := True
  Own := Asks
  guard := {}
  own_congr _ htx _ h := h.congr (by rw [asked, asked, htx])
  own_init := by
    rintro i w - ⟨b, hb⟩
    refine ⟨?_, ?_⟩ <;> simp [asked, hb]
  own_remember _ _ h := h.congr (by simp [asked, World.remember])
  own_send := by
    rintro es i w d ds - - - hd - - h
    exact h.congr (by simp [asked, hd])
  good_commit _ _ _ _ _ := trivial
  own_commit hne _ _ _ _ _ h := h.congr (by rw [asked, asked, World.commit_tx_of_ne _ hne])

theorem Asks.stage {es : List Transaction} {i : Nat} {w : World adehun} (h : Asks es i w)
    {d : Write adehun} (hd : Records d) : Asks (es ++ Adehun.entries d) i (w.stage i d) := by
  refine ⟨?_, ?_⟩
  · rw [asked_stage, List.flatMap_append, h.entries]
    simp
  · rw [asked_stage]
    intro d' hd'
    rcases List.mem_append.mp hd' with hd' | hd'
    · exact h.records d' hd'
    · rw [List.mem_singleton.mp hd']
      exact hd

theorem Asks.add {es : List Transaction} {i : Nat} {w : World adehun} (h : Asks es i w)
    {e : Transaction} (he : e.Shaped) :
    Asks (es ++ [e]) i (w.stage i (.insert .transaction e)) :=
  h.stage (d := .insert .transaction e) he

theorem Asks.put {es : List Transaction} {i : Nat} {w : World adehun} (h : Asks es i w)
    {d : Write adehun} (hd : Records d) (hnone : Adehun.entries d = []) :
    Asks es i (w.put i d) := by
  have hasked : asked (w.put i d) i = (w.tx i).writes ++ [d] ++ (w.tx i).dirty := by
    rw [asked, World.put_tx_self]
  refine ⟨?_, ?_⟩
  · have hall := h.entries
    rw [asked, List.flatMap_append] at hall
    rw [hasked, List.flatMap_append, List.flatMap_append]
    simp only [List.flatMap_cons, List.flatMap_nil, hnone, List.append_nil]
    exact hall
  · rw [hasked]
    intro d' hd'
    rw [List.mem_append, List.mem_append, List.mem_singleton] at hd'
    rcases hd' with (hd' | rfl) | hd'
    · exact h.records d' (List.mem_append_left _ hd')
    · exact hd
    · exact h.records d' (List.mem_append_right _ hd')

/-- A write that enters nothing may be staged at any time. -/
theorem holds_records {es : List Transaction} {d : Write adehun} (hd : Records d)
    (hnone : Adehun.entries d = []) : movements.Holds es (.perform (.stage d)) := by
  refine movements.holds_stage ?_
  intro i w _ _ ho
  have hstaged := Asks.stage ho hd
  rw [hnone, List.append_nil] at hstaged
  exact hstaged

theorem routine_movements : Routine fun _ p => movements.Keeps p := by
  have hne : ∀ {d : Write adehun}, Side d → d.key.table ≠ .transaction := by
    intro d hd ht
    rw [Side, ht] at hd
    cases hd
  refine routine_keeps ?_ ?_
  · intro d hd i w _ _ ho
    have hstaged := Asks.stage ho (records_of_ne (hne hd))
    rw [entries_of_ne (hne hd)] at hstaged
    exact hstaged
  · intro d hd i w _ _ ho _ _
    exact Asks.put ho (records_of_ne (hne hd)) (entries_of_ne (hne hd))

theorem movements_stage {d : Write adehun} (hd : Records d) (hnone : Adehun.entries d = []) :
    movements.Keeps (.perform (.stage d)) := by
  intro i w ho
  exact safe_mono (fun _ _ h => h) (fun _ _ h => h.elim (fun h => h) fun h => h)
    (holds_records hd hnone i w ho)

theorem movements_ensureWallet (u : Id) : movements.Keeps (ensureWallet u) :=
  routine_movements.keeps_ensureWallet (fun _ _ _ _ _ _ ho _ _ =>
    Asks.put ho (records_of_ne (by simp [newWallet, Write.key]))
      (entries_of_ne (by simp [newWallet, Write.key]))) u

/-! ## The choke point -/

/-- What an entry has from the arguments it is made with. -/
structure Made (a : EntryArgs) (e : Transaction) : Prop where
  shaped : e.Shaped
  type : e.type = a.entryType
  amount : e.amount = a.amount
  reference : e.reference = a.reference

/-- An entry made, after what the session had asked for. -/
theorem safe_made {es : List Transaction} {walletId : Id} {a : EntryArgs} {i : Nat}
    {w : World adehun} (ho : Asks es i w) :
    Safe movements.logic i (fun e w => Made a e ∧ Asks (es ++ [e]) i w) (fun _ _ => True)
      (applyLedgerEntry walletId a) w := by
  have hr := reading_holds (D := movements) es
  refine safe_raiseIf (fun _ => trivial) fun hpos => ?_
  refine safe_bind (safe_mono ?_ (fun _ _ _ => trivial) (hr.attributes .wallet walletId i w ho))
  intro wallet w₁ h₁
  refine safe_raiseIf (fun _ => trivial) fun _ => safe_raiseIf (fun _ => trivial) fun _ => ?_
  refine safe_bind (safe_mono ?_ (fun _ _ _ => trivial) (hr.now i w₁ h₁))
  intro time w₂ h₂
  refine safe_bind (safe_mono ?_ (fun _ _ _ => trivial) (hr.fresh i w₂ h₂))
  intro id w₃ h₃
  refine safe_bind (safe_mono ?_ (fun _ _ _ => trivial)
    (holds_records (records_of_ne (by simp [Write.key])) rfl i w₃ h₃))
  intro _ w₄ h₄
  refine safe_bind (movements.safe_stage ?_)
  intro w₅ hr₅ _
  have hmade : ∀ e : Transaction, e.amount = a.amount → e.type = a.entryType →
      e.reference = a.reference → e.availableDelta = a.amount * (ledgerEffects a.entryType).1 →
      e.escrowDelta = a.amount * (ledgerEffects a.entryType).2 →
      e.direction = ledgerDirection a.entryType → Made a e := by
    intro e hamount htype href havailable hescrow hdirection
    refine ⟨⟨?_, ?_, ?_, ?_⟩, htype, hamount, href⟩
    · rw [hamount]
      exact Int.not_le.mp hpos
    · rw [havailable, hamount, htype]
    · rw [hescrow, hamount, htype]
    · rw [hdirection, htype]
  refine And.intro ?_ (Asks.add (hr₅.2 _ h₄) (Made.shaped (a := a) ?_))
  · exact hmade _ rfl rfl rfl rfl rfl rfl
  · exact hmade _ rfl rfl rfl rfl rfl rfl

theorem movesAtRest : Moves movements movements.rest movements.rest where
  rest _ _ h := h
  start _ _ h := h
  commits := movements.rest_commits
  wallet u i w ho := safe_mono (fun _ _ h => h) (fun _ _ h => Or.inl h)
    (movements_ensureWallet u i w ho)

/-- A single entry is one movement. -/
theorem movements_applyEntry {a : EntryArgs} (ha : a.entryType.isLeg = false) :
    movements.Keeps (applyEntry a) := by
  intro i w ho
  refine safe_applyEntry_of routine_movements movesAtRest ?_ ho
  intro walletId i w ho
  refine safe_bind (safe_mono ?_ (fun _ _ _ => trivial)
    ((reading_holds (D := movements) _).lockWallet walletId i w ho))
  intro wallet w₁ h₁
  refine safe_bind (safe_mono ?_ (fun _ _ h => h) (safe_made h₁))
  rintro e w₂ ⟨hmade, h₂⟩
  refine ⟨[] ++ [e], Or.inr (.entry e hmade.shaped ?_), h₂⟩
  rw [hmade.type]
  exact ha

/-- The two legs of a release are one movement. -/
theorem movements_applyTransfer {g : GroupId} {debit credit : LedgerLeg}
    (hdebit : debit.entryType = .escrowReleaseOut)
    (hcredit : credit.entryType = .escrowReleaseIn) (hamount : debit.amount = credit.amount) :
    movements.Keeps (applyTransfer g debit credit) := by
  intro i w ho
  refine safe_applyTransfer_of routine_movements movesAtRest ?_ ho
  intro a b i w ho
  refine safe_bind (safe_mono ?_ (fun _ _ _ => trivial)
    ((reading_holds (D := movements) _).lockWallets a b i w ho))
  intro _ w₁ h₁
  refine safe_bind (safe_mono ?_ (fun _ _ h => h) (safe_made h₁))
  rintro out w₂ ⟨hout, h₂⟩
  refine safe_bind (safe_mono ?_ (fun _ _ h => h) (safe_made h₂))
  rintro into w₃ ⟨hinto, h₃⟩
  refine ⟨_, Or.inr (.transfer g out into hout.shaped hinto.shaped ?_ ?_ ?_ ?_ ?_), h₃⟩
  · rw [hout.type]
    exact hdebit
  · rw [hinto.type]
    exact hcredit
  · rw [hout.amount, hinto.amount]
    exact hamount
  · exact hout.reference
  · exact hinto.reference

/-! ## The requests -/

theorem movements_entryStatus (id : Id) (status : LedgerEntryStatus) (time : Option Nat) :
    movements.Keeps (assign .transaction id (setEntryStatus status time)) :=
  movements_stage (fun _ => rfl) rfl

theorem movements_elsewhere {d : Write adehun} (h : d.key.table ≠ .transaction) :
    movements.Keeps (.perform (.stage d)) :=
  movements_stage (records_of_ne h) (entries_of_ne h)

theorem movements_escrowSide : EscrowSide fun _ p => movements.Keeps p := by
  have h := routine_movements
  have hstatus : ∀ id s, movements.Keeps (assign .agreement id (setStatus s)) :=
    fun _ _ => movements_elsewhere (by simp [Write.key])
  exact {
    newAgreement := fun _ _ => movements_elsewhere (by simp [Write.key])
    agreementStatus := hstatus
    underReview := fun _ => movements_elsewhere (by simp [Write.key])
    resolution := fun _ _ _ _ => movements_elsewhere (by simp [Write.key])
    raised := fun _ _ _ _ _ _ => h.raiseDisputeOrNot (h.raiseDisputeRows hstatus
      (fun _ _ => movements_elsewhere (by simp [Write.key])) _ _ _ _ _)
    lockEscrow := fun _ _ _ _ _ _ => movements_applyEntry rfl
    release := h.performEscrowRelease hstatus fun _ _ _ _ _ => movements_applyTransfer rfl rfl rfl
    refund := h.performEscrowRefund hstatus fun _ _ _ _ => movements_applyEntry rfl }

theorem movements_handler (settings : Settings) (r : Request) :
    movements.Keeps (handler settings r) := by
  have h := routine_movements
  have hwrites : ProviderWrites fun _ p => movements.Keeps p := {
    transfer := h.keeps_transfer
    intent := fun _ hd => movements_elsewhere (by simp [hd])
    entryStatus := movements_entryStatus
    deposit := fun _ _ ht _ => movements_applyEntry (by rw [ht]; rfl)
    withdrawal := fun _ _ ht _ => movements_applyEntry (by rw [ht]; rfl)
    reversal := fun _ _ ht _ => movements_applyEntry (by rw [ht]; rfl) }
  exact h.handler movements_escrowSide (h.requests_of_writes hwrites movements_ensureWallet)
    settings r

theorem entersOne_of {settings : Settings} {db : Db adehun} {shared : Shared}
    (hk : db.KeysDistinct) (he : db.EntriesDistinct) (ls : List (Label adehun Request)) :
    Conf.RunSteps (fun C C' => EntersOne C.world.db C'.world.db) (handler settings)
      ({ world := { db, shared } } : Conf adehun Response) ls := by
  refine movements.steps_run (movements_handler settings) ⟨World.wf_init hk he, trivial⟩
    (fun i => ⟨rfl, fun l hl => by cases hl⟩) ?_ ?_ (Conf.runMeets_trivial _ ls)
  · exact fun db => ⟨[], Or.inl rfl, by simp [Appends]⟩
  · rintro w i c - - - ⟨es, hes, hasks⟩ hd -
    have hasked : asked w i = (w.tx i).writes := by rw [asked, hd, List.append_nil]
    refine ⟨es, hes, ?_⟩
    rw [World.view, ← hasked, ← hasks.entries]
    exact appends_applyAll hasks.records w.db

/-- What the wallets say, and nothing where there is none. -/
def balances (db : Db adehun) : Vault.State Id Kobo := fun x =>
  match db.lookup ⟨Table.wallet, x⟩ with
  | some (w : Wallet) => (w.availableBalance, w.escrowBalance)
  | none => 0

/-- What an entry brings in from outside. -/
def Transaction.external (t : Transaction) : Kobo :=
  match t.type with
  | .deposit | .withdrawalReversal | .adjustmentCredit => t.amount
  | .withdrawal | .adjustmentDebit => -t.amount
  | .escrowLock | .escrowReleaseOut | .escrowReleaseIn | .escrowRefund => 0

/-- What the ledger says was brought in. -/
def inflow (db : Db adehun) : Kobo :=
  ((db .transaction : List Transaction).map Transaction.external).sum

/-- A step of the vault, or none, with the ledger saying what it brought in. -/
def RefinesVault (db db' : Db adehun) : Prop :=
  balances db' = balances db ∧ inflow db' = inflow db ∨
    Vault.Moves (balances db) (balances db') (inflow db' - inflow db)

/-- The part of an entry that counts for a wallet. -/
def share (f : Transaction → Kobo) (x : Id) (t : Transaction) : Kobo :=
  if t.walletId = x then f t else 0

theorem total_eq_share (f : Transaction → Kobo) (x : Id) (db : Db adehun) :
    total f x db = ((db .transaction : List Transaction).map (share f x)).sum := by
  unfold total
  induction (db .transaction : List Transaction) with
  | nil => rfl
  | cons t ts ih =>
      by_cases ht : t.walletId = x
      · simp [share, ht, ih]
      · simp [share, ht, ih]

/-- A sum over the ledger grows by what is appended. -/
theorem Appends.sum {es : List Transaction} {db db' : Db adehun} (h : Appends es db db')
    {f : Transaction → Kobo} (hf : ∀ t : Transaction, f t.entered = f t) :
    ((db' .transaction : List Transaction).map f).sum =
      ((db .transaction : List Transaction).map f).sum + (es.map f).sum := by
  have hmap : ∀ ts : List Transaction, (ts.map Transaction.entered).map f = ts.map f := by
    intro ts
    rw [List.map_map]
    exact List.map_congr_left fun t _ => hf t
  rw [← hmap, h, List.map_append, List.sum_append, hmap, hmap]

theorem Appends.total {es : List Transaction} {db db' : Db adehun} (h : Appends es db db')
    {f : Transaction → Kobo} (hf : ∀ t : Transaction, f t.entered = f t) (x : Id) :
    Adehun.total f x db' = Adehun.total f x db + (es.map (share f x)).sum := by
  rw [total_eq_share, total_eq_share]
  refine h.sum ?_
  intro t
  simp only [share, hf]
  rfl

/-- Where the ledger balances the wallets say what its sums are. -/
theorem balances_eq {db : Db adehun} (hb : BalancedBy even db) (href : Referenced db) (x : Id) :
    balances db x =
      (total Transaction.availableDelta x db, total Transaction.escrowDelta x db) := by
  unfold balances
  split
  · next w hw =>
      obtain ⟨ha, he, -, -⟩ := hb x w hw
      rw [ha, he]
      simp [even]
  · next hnone =>
      have hzero : ∀ f, total f x db = 0 := by
        intro f
        rw [total_eq_share]
        refine List.sum_eq_zero ?_
        intro k hk
        obtain ⟨t, ht, rfl⟩ := List.mem_map.mp hk
        have hne : t.walletId ≠ x := by
          rintro rfl
          have := href t ht
          rw [hnone] at this
          cases this
        exact if_neg hne
      rw [hzero, hzero]
      rfl

theorem balances_nonneg {db : Db adehun} (hb : BalancedBy even db) (x : Id) :
    0 ≤ (balances db x).1 ∧ 0 ≤ (balances db x).2 := by
  unfold balances
  split
  · next w hw => exact (hb x w hw).2.2
  · exact ⟨le_refl _, le_refl _⟩

/-- What the appended entries do to the wallets. -/
theorem Appends.balances {es : List Transaction} {db db' : Db adehun} (h : Appends es db db')
    (hb : BalancedBy even db) (href : Referenced db) (hb' : BalancedBy even db')
    (href' : Referenced db') (x : Id) :
    Adehun.balances db' x = Adehun.balances db x +
      ((es.map (share Transaction.availableDelta x)).sum,
        (es.map (share Transaction.escrowDelta x)).sum) := by
  rw [balances_eq hb href, balances_eq hb' href',
    h.total (f := Transaction.availableDelta) (fun _ => rfl),
    h.total (f := Transaction.escrowDelta) (fun _ => rfl)]
  rfl

/-- What stays positive was there to be taken. -/
theorem le_of_debit {a k : Kobo} (h : 0 ≤ a + -k) : k ≤ a := by
  rwa [← sub_eq_add_neg, sub_nonneg] at h

/-- A single entry is a step of the vault. -/
theorem moves_entry {t : Transaction} {s s' : Vault.State Id Kobo} (ht : t.Shaped)
    (hleg : t.type.isLeg = false)
    (hs : s' = Vault.post s t.walletId (t.availableDelta, t.escrowDelta))
    (hnonneg : 0 ≤ (s' t.walletId).1 ∧ 0 ≤ (s' t.walletId).2) :
    Vault.Moves s s' t.external := by
  have hpos := ht.amount_pos
  have ha := ht.available
  have he := ht.escrow
  subst hs
  rw [Vault.post_self] at hnonneg
  simp only [Prod.fst_add, Prod.snd_add] at hnonneg
  unfold Transaction.external
  cases htype : t.type <;> rw [htype] at ha he hleg <;>
    simp only [ledgerEffects, mul_one, mul_zero, mul_neg] at ha he <;>
    rw [ha, he] at hnonneg ⊢
  case deposit | withdrawalReversal | adjustmentCredit => exact .payIn s _ _ hpos
  case withdrawal | adjustmentDebit =>
    exact .payOut s _ _ hpos (le_of_debit hnonneg.1)
  case escrowLock => exact .hold s _ _ hpos (le_of_debit hnonneg.1)
  case escrowRefund => exact .giveBack s _ _ hpos (le_of_debit hnonneg.2)
  case escrowReleaseOut | escrowReleaseIn => cases hleg

/-- So are the two legs of a release. -/
theorem moves_transfer {out into : Transaction} {s s' : Vault.State Id Kobo} (hout : out.Shaped)
    (hinto : into.Shaped) (htout : out.type = .escrowReleaseOut)
    (htinto : into.type = .escrowReleaseIn) (hamount : out.amount = into.amount)
    (hs : s' = Vault.post (Vault.post s out.walletId (out.availableDelta, out.escrowDelta))
      into.walletId (into.availableDelta, into.escrowDelta))
    (hnonneg : 0 ≤ (s' out.walletId).2) : Vault.Moves s s' 0 := by
  have hpos := hout.amount_pos
  have ha := hout.available
  have he := hout.escrow
  have ha' := hinto.available
  have he' := hinto.escrow
  rw [htout] at ha he
  rw [htinto] at ha' he'
  simp only [ledgerEffects, mul_one, mul_zero, mul_neg] at ha he ha' he'
  rw [ha, he, ha', he', ← hamount] at hs
  subst hs
  refine .handOver s _ _ _ hpos ?_
  by_cases hxy : out.walletId = into.walletId
  · rw [← hxy, Vault.post_self, Vault.post_self] at hnonneg
    simp only [Prod.snd_add] at hnonneg
    exact le_of_debit (by simpa using hnonneg)
  · rw [Vault.post_of_ne _ _ hxy, Vault.post_self] at hnonneg
    simp only [Prod.snd_add] at hnonneg
    exact le_of_debit hnonneg

/-- Where the ledger balances before and after, what one commit enters is one
step of the vault. -/
theorem refinesVault_of_entersOne {db db' : Db adehun} (h : EntersOne db db')
    (hb : BalancedBy even db) (href : Referenced db) (hb' : BalancedBy even db')
    (href' : Referenced db') : RefinesVault db db' := by
  obtain ⟨es, hes, happends⟩ := h
  have hbalances := happends.balances hb href hb' href'
  have hinflow : inflow db' = inflow db + (es.map Transaction.external).sum :=
    happends.sum fun _ => rfl
  rcases hes with rfl | hes
  · refine Or.inl ⟨?_, by simpa using hinflow⟩
    funext x
    rw [hbalances x]
    simp
  · refine Or.inr ?_
    cases hes with
    | entry t ht hleg =>
        have hext : inflow db' - inflow db = t.external := by simp [hinflow]
        rw [hext]
        refine moves_entry ht hleg (Vault.eq_post fun y => ?_) (balances_nonneg hb' _)
        rw [hbalances y]
        by_cases hy : t.walletId = y <;> simp [share, hy]
    | transfer g out into hout hinto htout htinto hamount =>
        have hext : inflow db' - inflow db = 0 := by
          simp [hinflow, Transaction.external, htout, htinto]
        rw [hext]
        refine moves_transfer hout hinto htout htinto hamount
          (Vault.eq_post_post fun y => ?_) (balances_nonneg hb' _).2
        rw [hbalances y]
        by_cases hy : out.walletId = y <;> by_cases hy' : into.walletId = y <;>
          simp [share, hy, hy']

/-- Whether a database may be refined: the wallets follow the ledger. -/
structure Followed (db : Db adehun) : Prop where
  keys : db.KeysDistinct
  balanced : BalancedBy even db
  referenced : Referenced db

theorem followed_of {db : Db adehun} (hk : db.KeysDistinct) (hb : LedgerBalances db)
    (href : Referenced db) : Followed db := by
  refine ⟨hk, ?_, href⟩
  intro x w hw
  have hbalances := hb w (Db.lookup_mem hw)
  rw [show w.id = x from Db.lookup_id hw] at hbalances
  simpa [even] using hbalances

theorem refinesVault_of {settings : Settings} {db : Db adehun} {shared : Shared}
    (hf : Followed db) (he : db.EntriesDistinct) {ls : List (Label adehun Request)}
    (hg : Conf.RunMeets currentLocks (handler settings)
      ({ world := { db, shared } } : Conf adehun Response) ls) :
    Conf.RunSteps (fun C C' => Followed C.world.db ∧ Followed C'.world.db ∧
      RefinesVault C.world.db C'.world.db) (handler settings)
      ({ world := { db, shared } } : Conf adehun Response) ls := by
  have hgood := (ledgerBalance.logic.sound_init (α := Response) (w := { db, shared })
    ⟨World.wf_init hf.keys he, hf.balanced, hf.referenced⟩
    (fun i => ⟨rfl, fun l hl => by cases hl⟩)).runSteps _
    (ledgerBalance.serves (keeps_handler settings))
    (P := fun C C' => Followed C.world.db ∧ Followed C'.world.db)
    (fun C C' l h h' _ _ => ⟨⟨h.inv.1.keys, h.inv.2.1, h.inv.2.2⟩,
      ⟨h'.inv.1.keys, h'.inv.2.1, h'.inv.2.2⟩⟩) hg
  refine ((entersOne_of hf.keys he ls).and hgood).mono ?_
  rintro C C' ⟨hone, h, h'⟩
  exact ⟨h, h', refinesVault_of_entersOne hone h.balanced h.referenced h'.balanced h'.referenced⟩

/-- In every run in which no wallet is locked whose object is out of date,
the API is a vault: each step leaves the wallets as they are, or is one whole
movement between purses that have the money. -/
theorem refinesVault_run {settings : Settings} {db : Db adehun} {shared : Shared}
    (hk : db.KeysDistinct) (he : db.EntriesDistinct) (hb : LedgerBalances db)
    (href : Referenced db) {ls : List (Label adehun Request)}
    (hg : Conf.RunMeets currentLocks (handler settings)
      ({ world := { db, shared } } : Conf adehun Response) ls) :
    Conf.RunSteps (fun C C' => RefinesVault C.world.db C'.world.db) (handler settings)
      ({ world := { db, shared } } : Conf adehun Response) ls :=
  (refinesVault_of (followed_of hk hb href) he hg).mono fun _ _ h => h.2.2

namespace OneDay

theorem currentLocks_labels : start.RunMeets currentLocks (handler settings) labels :=
  currentLocks.test.runMeets (by decide +kernel)

end OneDay

theorem refinesVault_run_oneDay :
    (OneDay.evening.2.world.db .wallet : List Wallet).map
        (fun w => (w.id, w.availableBalance, w.escrowBalance)) =
      [(10, 10500, 0), (11, 10000, 0)] ∧
    OneDay.start.RunSteps (fun C C' => RefinesVault C.world.db C'.world.db)
      (handler OneDay.settings) OneDay.labels :=
  ⟨by decide +kernel, refinesVault_run OneDay.db_keysDistinct OneDay.db_entriesDistinct
    (by decide) (by decide) OneDay.currentLocks_labels⟩

/-! ## What is conserved -/

/-- The money in all the wallets. -/
def custody (db : Db adehun) : Kobo :=
  ((db .wallet : List Wallet).map fun w => w.availableBalance + w.escrowBalance).sum

def walletIds (db : Db adehun) : Finset Id := ((db .wallet : List Wallet).map Wallet.id).toFinset

theorem balances_of_notMem {db : Db adehun} {x : Id} (h : x ∉ walletIds db) :
    balances db x = 0 := by
  unfold balances
  split
  · next w hw =>
      refine absurd (List.mem_toFinset.mpr (List.mem_map.mpr ⟨w, Db.lookup_mem hw, ?_⟩)) h
      exact Db.lookup_id hw
  · rfl

/-- The vault has what the wallets have. -/
theorem total_eq_custody {db : Db adehun} (hk : db.KeysDistinct) {accounts : Finset Id}
    (h : walletIds db ⊆ accounts) : Vault.total accounts (balances db) = custody db := by
  rw [← Vault.total_subset h fun x _ hx => balances_of_notMem hx]
  have hnodup : ((db .wallet : List Wallet).map Wallet.id).Nodup := hk .wallet
  rw [Vault.total, walletIds, List.sum_toFinset _ hnodup, List.map_map, custody]
  refine congrArg List.sum (List.map_congr_left ?_)
  intro w hw
  have hlookup : db.lookup ⟨Table.wallet, w.id⟩ = some w := hk.lookup hw
  simp only [Function.comp_apply, balances, hlookup]

theorem custody_of_refinesVault {db db' : Db adehun} (hk : db.KeysDistinct)
    (hk' : db'.KeysDistinct) (h : RefinesVault db db') :
    custody db' - inflow db' = custody db - inflow db := by
  have hall : walletIds db ⊆ walletIds db ∪ walletIds db' := Finset.subset_union_left
  have hall' : walletIds db' ⊆ walletIds db ∪ walletIds db' := Finset.subset_union_right
  rw [← total_eq_custody hk hall, ← total_eq_custody hk' hall']
  rcases h with ⟨hbalances, hinflow⟩ | hmoves
  · rw [hbalances, hinflow]
  · have hwithin : Vault.Within (walletIds db ∪ walletIds db') (balances db) (balances db') := by
      intro x hx
      by_contra hnot
      have hnone : x ∉ walletIds db := fun h => hnot (hall h)
      have hnone' : x ∉ walletIds db' := fun h => hnot (hall' h)
      exact hx (by rw [balances_of_notMem hnone, balances_of_notMem hnone'])
    rw [hmoves.total hwithin]
    abel

/-- In every such run the money in the wallets changes by what the ledger
says came in and went out, and by nothing else. -/
theorem conserved_run {settings : Settings} {db : Db adehun} {shared : Shared}
    (hk : db.KeysDistinct) (he : db.EntriesDistinct) (hb : LedgerBalances db)
    (href : Referenced db) {ls : List (Label adehun Request)} {C : Conf adehun Response}
    (hg : Conf.RunMeets currentLocks (handler settings)
      ({ world := { db, shared } } : Conf adehun Response) ls)
    (hr : Conf.run (handler settings)
      ({ world := { db, shared } } : Conf adehun Response) ls = some C) :
    custody C.world.db - custody db = inflow C.world.db - inflow db := by
  have hsteps := (refinesVault_of (followed_of hk hb href) he hg).mono
    fun _ _ h => custody_of_refinesVault h.1.keys h.2.1.keys h.2.2
  have hsame := Conf.RunSteps.eq_of_run hsteps hr
  rw [sub_eq_sub_iff_add_eq_add] at hsame ⊢
  rw [hsame, add_comm]

theorem conserved_run_oneDay :
    inflow OneDay.evening.2.world.db - inflow OneDay.db = -9500 ∧
    custody OneDay.evening.2.world.db - custody OneDay.db =
      inflow OneDay.evening.2.world.db - inflow OneDay.db :=
  ⟨by decide +kernel, conserved_run OneDay.db_keysDistinct OneDay.db_entriesDistinct
    (by decide) (by decide) OneDay.currentLocks_labels OneDay.run_labels⟩

end Adehun
