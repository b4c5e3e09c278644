import Adehun.Routine.Disciplined
import Adehun.Sessions.Schedule
import Adehun.Sessions.Stable

/-!
# Whose money an entry moves

An entry names a user and a wallet, and the two come from different places:
the user is an argument of the repository's entry points, the wallet is
looked up by it, perhaps made, locked and read again, with commits in
between and an object in the session that may be old. Still they fit: every
entry of the ledger is on a wallet of the user it names, in every state of
every run. Nothing is asked of the run, for a wallet never changes hands.
-/

namespace Adehun

open Sessions

/-- A wallet is there, and this user's. -/
abbrev OwnedBy (db : Db adehun) (x u : Id) : Prop :=
  db.Has Table.wallet (fun w : Wallet => w.userId = u) x

/-- Every entry is on a wallet of its user. -/
def Attributed (db : Db adehun) : Prop :=
  ∀ t ∈ (db .transaction : List Transaction), OwnedBy db t.walletId t.userId

/-- What of an entry says whose it is. -/
def Transaction.holding (t : Transaction) : Id × Id := (t.walletId, t.userId)

/-- Owners, and what entries say of them, stay; nothing is deleted. -/
structure LeavesOwners (d : Write adehun) : Prop where
  wallets : d.Retains Table.wallet Wallet.userId
  entries : d.Retains Table.transaction Transaction.holding

theorem leavesOwners_of_ne {d : Write adehun} (hw : d.key.table ≠ .wallet)
    (ht : d.key.table ≠ .transaction) : LeavesOwners d :=
  ⟨Write.retains_of_ne hw, Write.retains_of_ne ht⟩

theorem OwnedBy.apply {d : Write adehun} (hd : LeavesOwners d) {db : Db adehun} {x u : Id}
    (h : OwnedBy db x u) : OwnedBy (d.apply db) x u := by
  obtain ⟨r, hr, hu⟩ := h
  obtain ⟨r', hr', hsame⟩ := Write.lookup_apply_of_retains hd.wallets hr
  exact ⟨r', hr', hsame.trans hu⟩

theorem OwnedBy.applyAll {ds : List (Write adehun)} (hds : ∀ d ∈ ds, LeavesOwners d)
    {db : Db adehun} {x u : Id} (h : OwnedBy db x u) : OwnedBy (db.applyAll ds) x u := by
  obtain ⟨r, hr, hu⟩ := h
  obtain ⟨r', hr', hsame⟩ :=
    Db.lookup_applyAll_of_retains (fun d hd => (hds d hd).wallets) hr
  exact ⟨r', hr', hsame.trans hu⟩

/-! ## The discipline -/

/-- What a session has asked for attributes its entries, and these wallets
are these users'. -/
structure Attributes (known : List (Id × Id)) (i : Nat) (w : World adehun) : Prop where
  leaves : ∀ d ∈ asked w i, LeavesOwners d
  entered : ∀ t, Write.insert Table.transaction t ∈ asked w i →
    OwnedBy (w.view i) (Transaction.walletId t) (Transaction.userId t)
  known : ∀ p ∈ known, OwnedBy (w.view i) p.1 p.2
  objects : ∀ (x : Id) (o : Wallet), (w.tx i).objects ⟨Table.wallet, x⟩ = some o → o.id = x

theorem Attributes.writes {known : List (Id × Id)} {i : Nat} {w : World adehun}
    (h : Attributes known i w) : ∀ d ∈ (w.tx i).writes, LeavesOwners d :=
  fun d hd => h.leaves d (List.mem_append_left _ hd)

/-- Where the session asks for no less, what it knows stays true in a view
that keeps owners. -/
theorem Attributes.of_view {known : List (Id × Id)} {i : Nat} {w w' : World adehun}
    (h : Attributes known i w) (hasked : ∀ d, d ∈ asked w' i → d ∈ asked w i)
    (hview : ∀ x u, OwnedBy (w.view i) x u → OwnedBy (w'.view i) x u)
    (hobjects : ∀ (x : Id) (o : Wallet), (w'.tx i).objects ⟨Table.wallet, x⟩ = some o →
      o.id = x) : Attributes known i w' where
  leaves d hd := h.leaves d (hasked d hd)
  entered t ht := hview _ _ (h.entered t (hasked _ ht))
  known p hp := hview _ _ (h.known p hp)
  objects := hobjects

/-- A wallet that one session preserves is preserved for the others. -/
theorem Attributes.commit {known : List (Id × Id)} {i j : Nat} {w : World adehun} (hne : j ≠ i)
    (hw : w.WF) (hi : ∀ d ∈ (w.tx i).writes, LeavesOwners d) (hj : Attributes known j w) :
    Attributes known j (w.commit i) := by
  have hsame : (w.commit i).tx j = w.tx j := World.commit_tx_of_ne w hne
  refine hj.of_view ?_ ?_ ?_
  · intro d hd
    rw [asked, hsame] at hd
    exact hd
  · intro x u hxu
    refine World.has_view_commit hne hw ?_ hxu
    intro y hy
    exact OwnedBy.applyAll hi hy
  · rw [hsame]
    exact hj.objects

/-- The entries are on wallets of their users: as a discipline. -/
def ownership : Discipline adehun where
  Ghost := List (Id × Id)
  rest := []
  Commits _ := True
  rest_commits := trivial
  Good := Attributed
  Own := Attributes
  guard := {}
  own_congr := by
    intro known i w w' hdb htx _ h
    have hview : w'.view i = w.view i := World.view_congr hdb (by rw [htx])
    refine h.of_view ?_ ?_ ?_
    · rw [asked, asked, htx]
      exact fun d hd => hd
    · rw [hview]
      exact fun _ _ hxu => hxu
    · rw [htx]
      exact h.objects
  own_init := by
    rintro i w - ⟨b, hb⟩
    refine ⟨?_, ?_, ?_, ?_⟩ <;> simp [asked, hb]
  own_remember := by
    intro known i w k hd h
    have hview : (w.remember i k ((w.view i).lookup k)).view i = w.view i :=
      World.view_congr rfl (by simp [World.remember])
    refine h.of_view ?_ ?_ ?_
    · simp [asked, World.remember]
    · rw [hview]
      exact fun _ _ hxu => hxu
    · intro x o ho
      simp only [World.remember, World.setTx_tx_self] at ho
      by_cases hk : (⟨Table.wallet, x⟩ : Key adehun) = k
      · subst hk
        rw [Function.update_self] at ho
        have := Db.lookup_id ho
        exact this
      · rw [Function.update_of_ne hk] at ho
        exact h.objects x o ho
  own_send := by
    intro known i w d ds hw _ _ hd _ _ h
    have hleaves : LeavesOwners d := by
      refine h.leaves d ?_
      rw [asked, hd]
      exact List.mem_append_right _ List.mem_cons_self
    refine h.of_view ?_ ?_ ?_
    · simp [asked, hd]
    · intro x u hxu
      have hsent : ((w.put i d).setTx i
          { w.tx i with writes := (w.tx i).writes ++ [d], dirty := ds }).view i =
            d.apply (w.view i) := by
        simp only [World.view, World.setTx_tx_self, World.setTx_db, World.put_db,
          Db.applyAll_concat]
      rw [hsent]
      exact hxu.apply hleaves
    · simpa using h.objects
  good_commit := by
    intro known i w _ hw hgood hd h
    have hasked : ∀ d ∈ (w.tx i).writes, d ∈ asked w i := fun d hd => List.mem_append_left _ hd
    intro t ht
    rcases Db.mem_of_retains (fun d hd => (h.writes d hd).entries) (hw.view_keys i) ht with
      ⟨t₀, h₀, hsame⟩ | ⟨t₀, h₀, hsame⟩
    · have hold : OwnedBy (w.view i) t₀.walletId t₀.userId := (hgood t₀ h₀).applyAll h.writes
      rw [Transaction.holding, Transaction.holding, Prod.mk.injEq] at hsame
      rw [← hsame.1, ← hsame.2]
      exact hold
    · have hnew := h.entered t₀ (hasked _ h₀)
      rw [Transaction.holding, Transaction.holding, Prod.mk.injEq] at hsame
      rw [← hsame.1, ← hsame.2]
      exact hnew
  own_commit hne _ hw _ _ hi hj := hj.commit hne hw hi.writes

/-! ## What a session does -/

section Programs

variable {known : List (Id × Id)} {i : Nat} {w : World adehun}

theorem Attributes.mono {known' : List (Id × Id)} (h : Attributes known i w)
    (hsub : ∀ p ∈ known', p ∈ known) : Attributes known' i w :=
  { h with known := fun p hp => h.known p (hsub p hp) }

theorem Attributes.know (h : Attributes known i w) {x u : Id} (hx : OwnedBy (w.view i) x u) :
    Attributes ((x, u) :: known) i w := by
  refine { h with known := ?_ }
  intro p hp
  rcases List.mem_cons.mp hp with rfl | hp
  · exact hx
  · exact h.known p hp

/-- The object staged for a wallet has the wallet's key. -/
theorem objects_stage (h : Attributes known i w) (d : Write adehun) (x : Id) (o : Wallet)
    (ho : ((w.stage i d).tx i).objects ⟨Table.wallet, x⟩ = some o) : o.id = x := by
  by_cases hk : d.key = ⟨Table.wallet, x⟩
  · cases d with
    | insert t r =>
        cases hk
        simp only [World.stage, World.setTx_tx_self, Function.update_self, Option.some.injEq] at ho
        rw [← ho]
        rfl
    | update t id p =>
        cases hk
        simp only [World.stage, World.setTx_tx_self, Function.update_self,
          Option.map_eq_some_iff] at ho
        obtain ⟨o', ho', rfl⟩ := ho
        exact (p.id_run o').trans (h.objects x o' ho')
    | delete t id =>
        cases hk
        simp only [World.stage, World.setTx_tx_self, Function.update_self] at ho
        cases ho
  · rw [World.stage_objects_of_ne w i hk] at ho
    exact h.objects x o ho

theorem Attributes.stage (h : Attributes known i w) {d : Write adehun} (hd : LeavesOwners d)
    (hentry : ∀ t, d = .insert .transaction t →
      OwnedBy (w.view i) (Transaction.walletId t) (Transaction.userId t)) :
    Attributes known i (w.stage i d) := by
  have hview : (w.stage i d).view i = w.view i := World.view_congr rfl (by simp)
  have hmem : ∀ e ∈ asked (w.stage i d) i, e ∈ asked w i ∨ e = d := by
    intro e he
    rw [asked_stage, List.mem_append, List.mem_singleton] at he
    exact he
  refine ⟨?_, ?_, ?_, objects_stage h d⟩
  · intro e he
    rcases hmem e he with he | rfl
    · exact h.leaves e he
    · exact hd
  · intro t ht
    rw [hview]
    rcases hmem _ ht with ht | rfl
    · exact h.entered t ht
    · exact hentry t rfl
  · rw [hview]
    exact h.known

theorem Attributes.put (h : Attributes known i w) {d : Write adehun} (hd : LeavesOwners d)
    (hentry : ∀ t, d ≠ .insert .transaction t) : Attributes known i (w.put i d) := by
  have hmem : ∀ e ∈ asked (w.put i d) i, e ∈ asked w i ∨ e = d := by
    intro e he
    simp only [asked, World.put_tx_self, List.mem_append, List.mem_singleton] at he ⊢
    tauto
  refine ⟨?_, ?_, ?_, by simpa using h.objects⟩
  · intro e he
    rcases hmem e he with he | rfl
    · exact h.leaves e he
    · exact hd
  · intro t ht
    rw [World.put_view]
    rcases hmem _ ht with ht | rfl
    · exact (h.entered t ht).apply hd
    · exact absurd rfl (hentry t)
  · intro p hp
    rw [World.put_view]
    exact (h.known p hp).apply hd

end Programs

theorem routine_ownership : Routine fun _ p => ownership.Keeps p := by
  have hne : ∀ {d : Write adehun}, Side d → d.key.table ≠ .wallet ∧ d.key.table ≠ .transaction := by
    intro d hd
    constructor <;> (intro ht; rw [Side, ht] at hd; cases hd)
  have hentry : ∀ {d : Write adehun}, Side d → ∀ t, d ≠ .insert .transaction t := by
    rintro d hd t rfl
    exact (hne hd).2 rfl
  refine routine_keeps ?_ ?_
  · intro d hd i w _ _ ho
    exact ho.stage (leavesOwners_of_ne (hne hd).1 (hne hd).2) fun t ht => absurd ht (hentry hd t)
  · intro d hd i w _ _ ho _ _
    exact ho.put (leavesOwners_of_ne (hne hd).1 (hne hd).2) (hentry hd)

/-! ### Finding the wallet -/

/-- A row of the wallet with this key, as a query answers it. -/
theorem id_answer {known : List (Id × Id)} {i : Nat} {w : World adehun} (h : Attributes known i w)
    {alive : Bool} {x : Id} {r : Wallet} (hr : w.answer i alive ⟨Table.wallet, x⟩ = some r) :
    r.id = x := by
  have hlook : ∀ r : Wallet, (w.view i).lookup ⟨Table.wallet, x⟩ = some r → r.id = x :=
    fun r hr => Db.lookup_id hr
  cases hobj : (w.tx i).objects ⟨Table.wallet, x⟩ with
  | none =>
      rw [World.answer, hobj] at hr
      exact hlook r hr
  | some o =>
      rw [World.answer, hobj] at hr
      dsimp only at hr
      split at hr
      · cases hr
        exact h.objects x r hobj
      · exact hlook r hr

theorem safe_getUserWallet {known : List (Id × Id)} {u : Id} {i : Nat} {w : World adehun}
    (ho : Attributes known i w) :
    Safe ownership.logic i
      (fun found w => match found with
        | some r => Attributes ((r.id, u) :: known) i w
        | none => Attributes known i w)
      (fun _ w => Attributes known i w ∨ Attributes [] i w) (getUserWallet u) w := by
  refine safe_bind (safe_mono ?_ (fun _ _ h => h) (ownership.safe_load
    (Q := fun rows w => Attributes known i w ∧ ∀ r ∈ rows, OwnedBy (w.view i) (Wallet.id r) u)
    ?_ ho))
  · rintro rows w₁ ⟨h₁, hrows⟩
    cases rows with
    | nil => exact h₁
    | cons r rows => exact h₁.know (hrows r List.mem_cons_self)
  · intro w₁ alive w₂ hw h₁ hview h₂
    refine ⟨h₂, ?_⟩
    intro r hr
    obtain ⟨x, hx, hans⟩ := List.mem_filterMap.mp hr
    rw [hview, id_answer h₁ hans]
    obtain ⟨r', hr', rfl⟩ := List.mem_map.mp (List.mem_of_mem_take hx)
    rw [List.mem_filter, decide_eq_true_eq] at hr'
    exact ⟨r', (hw.view_keys i).lookup hr'.1, hr'.2⟩

theorem holds_ownCommit (known : List (Id × Id)) : ownership.Holds known (.perform .commit) := by
  refine ownership.holds_commit trivial ?_
  intro i w _ _ _ h
  have hview : (w.commit i).view i = w.view i := by
    simp [World.view, World.commit_tx_self]
  refine ⟨?_, ?_, ?_, ?_⟩
  · simp [asked, World.commit_tx_self]
  · simp [asked, World.commit_tx_self]
  · rw [hview]
    exact h.known
  · simp [World.commit_tx_self]

theorem holds_upsertWallet (known : List (Id × Id)) (x u : Id) :
    ownership.Holds known (.perform (.upsert [.walletUser u] fun db =>
      if ((db .wallet : List Wallet).any fun w => w.userId = u) then ([], ())
      else ([newWallet x u], ()))) := by
  refine ownership.holds_upsert ?_
  intro db d hd i w _ _ ho _ _
  dsimp only at hd
  split at hd
  · cases hd
  · obtain rfl := List.mem_singleton.mp hd
    refine Attributes.put ho ⟨trivial, ?_⟩ ?_
    · exact Write.retains_of_ne (by simp [newWallet, Write.key])
    · intro t ht
      cases ht

/-- What is known when a program fails is no less than nothing. -/
theorem forget {known : List (Id × Id)} {i : Nat} {w : World adehun}
    (h : Attributes known i w ∨ Attributes [] i w) : Attributes [] i w := by
  rcases h with h | h
  · exact h.mono fun _ hp => by cases hp
  · exact h

theorem safe_ensureWallet {known : List (Id × Id)} {u : Id} {i : Nat} {w : World adehun}
    (ho : Attributes known i w) :
    Safe ownership.logic i (fun r w => Attributes ((r.id, u) :: known) i w)
      (fun _ w => Attributes [] i w) (ensureWallet u) w := by
  have hr := reading_holds (D := ownership) known
  refine safe_bind (safe_mono ?_ (fun _ _ => forget) (hr.fresh i w ho))
  intro x w₁ h₁
  refine safe_bind (safe_mono ?_ (fun _ _ => forget) (holds_upsertWallet known x u i w₁ h₁))
  intro _ w₂ h₂
  refine safe_bind (safe_mono ?_ (fun _ _ => forget) (holds_ownCommit known i w₂ h₂))
  intro _ w₃ h₃
  refine safe_bind (safe_mono ?_ (fun _ _ => forget) (safe_getUserWallet (u := u) h₃))
  rintro (- | r) w₄ h₄
  · exact forget (Or.inl h₄)
  · exact h₄

/-- The wallet found for a user is the user's. -/
theorem safe_resolveWalletId {known : List (Id × Id)} {u : Id} {i : Nat} {w : World adehun}
    (ho : Attributes known i w) :
    Safe ownership.logic i (fun x w => Attributes ((x, u) :: known) i w)
      (fun _ w => Attributes [] i w) (resolveWalletId u) w := by
  refine safe_bind (safe_mono ?_ (fun _ _ => forget) (safe_getUserWallet (u := u) ho))
  rintro (- | r) w₁ h₁
  · exact safe_bind (safe_mono (fun _ _ h₂ => h₂) (fun _ _ h₂ => h₂) (safe_ensureWallet h₁))
  · exact h₁

/-! ### The choke point -/

theorem safe_lockedWallet {known : List (Id × Id)} {x : Id} {i : Nat} {w : World adehun}
    (ho : Attributes known i w) :
    Safe ownership.logic i (fun r w => Attributes known i w ∧ r.id = x)
      (fun _ w => Attributes [] i w) (lockWallet x) w := by
  have hquiet : (Stmt.lock (M := adehun) Table.wallet fun db =>
      ((db .wallet : List Wallet).find? fun w => w.id = x).map (·.id)).Quiet := trivial
  refine safe_bind (safe_mono ?_ (fun _ _ => forget) (ownership.safe_query
    (Q := fun found w => Attributes known i w ∧ ∀ r, found = some r → Wallet.id r = x)
    hquiet ?_ ho))
  · rintro (- | r) w₁ ⟨h₁, hid⟩
    · exact forget (Or.inl h₁)
    · exact ⟨h₁, hid r rfl⟩
  · rintro w₁ c found w₂ - h₁ he h₂
    refine ⟨h₂, ?_⟩
    rintro r rfl
    obtain ⟨y, hq, -, -, hans, -⟩ := World.exec_lock_some he
    obtain ⟨r', hr', rfl⟩ := Option.map_eq_some_iff.mp hq
    have hx := List.find?_some hr'
    rw [decide_eq_true_eq] at hx
    exact (id_answer h₁ hans).trans hx

/-- An entry made on a wallet that is known to be its user's. -/
theorem safe_attributed {known : List (Id × Id)} {x : Id} {a : EntryArgs} {i : Nat}
    {w : World adehun} (hx : (x, a.userId) ∈ known) (ho : Attributes known i w) :
    Safe ownership.logic i (fun _ w => Attributes known i w) (fun _ w => Attributes [] i w)
      (applyLedgerEntry x a) w := by
  have hr := reading_holds (D := ownership) known
  refine safe_raiseIf (fun _ => forget (Or.inl ho)) fun _ => ?_
  have hwallet : Safe ownership.logic i (fun r w => Attributes known i w ∧ Wallet.id r = x)
      (fun _ w => Attributes [] i w) (attributes .wallet x) w := by
    refine safe_bind (safe_mono ?_ (fun _ _ => forget) (ownership.safe_get
      (k := ⟨Table.wallet, x⟩) ho))
    rintro (- | r) w₁ ⟨h₁, hobj⟩
    · exact forget (Or.inl h₁)
    · exact ⟨h₁, h₁.objects x r (hobj r rfl)⟩
  refine safe_bind (safe_mono ?_ (fun _ _ h => h) hwallet)
  rintro wallet w₁ ⟨h₁, hid⟩
  refine safe_raiseIf (fun _ => forget (Or.inl h₁)) fun _ =>
    safe_raiseIf (fun _ => forget (Or.inl h₁)) fun _ => ?_
  refine safe_bind (safe_mono ?_ (fun _ _ => forget) (hr.now i w₁ h₁))
  intro time w₂ h₂
  refine safe_bind (safe_mono ?_ (fun _ _ => forget) (hr.fresh i w₂ h₂))
  intro id w₃ h₃
  refine safe_bind (safe_mono ?_ (fun _ _ => forget) (ownership.holds_stage ?_ i w₃ h₃))
  · intro _ w₄ h₄
    refine safe_bind (ownership.safe_stage ?_)
    intro w₅ hrely _
    have h₅ : Attributes known i w₅ := hrely.2 known h₄
    refine h₅.stage ⟨trivial, trivial⟩ ?_
    intro t ht
    cases ht
    have hknown := h₅.known _ hx
    rw [← hid] at hknown
    exact hknown
  · intro j w _ _ h
    refine Attributes.stage h ⟨fun _ _ => rfl, ?_⟩ ?_
    · exact Write.retains_of_ne (by simp [Write.key])
    · intro t ht
      cases ht

theorem movesOwned : Moves ownership [] [] where
  rest _ _ h := h
  start _ _ h := h
  commits := trivial
  wallet u i w ho := safe_mono (fun _ _ h => h.mono fun _ hp => by cases hp)
    (fun _ _ h => Or.inl h) (safe_ensureWallet (u := u) ho)

theorem ownership_applyEntry (a : EntryArgs) : ownership.Keeps (applyEntry a) := by
  intro i w ho
  refine safe_applyEntry_at routine_ownership movesOwned
    (fun i w ho => safe_resolveWalletId ho) ?_ ho
  intro x i w ho
  refine safe_bind (safe_mono ?_ (fun _ _ _ => trivial) (safe_lockedWallet (x := x) ho))
  rintro r w₁ ⟨h₁, rfl⟩
  refine safe_bind (safe_mono ?_ (fun _ _ _ => trivial)
    (safe_attributed (a := a) List.mem_cons_self h₁))
  exact fun _ _ h₂ => ⟨_, trivial, h₂⟩

theorem ownership_applyTransfer (g : GroupId) (debit credit : LedgerLeg) :
    ownership.Keeps (applyTransfer g debit credit) := by
  intro i w ho
  refine safe_applyTransfer_at routine_ownership movesOwned
    (fun i w ho => safe_resolveWalletId ho)
    (fun x i w ho => safe_resolveWalletId ho) ?_ ho
  intro x y i w ho
  have hr := reading_holds (D := ownership) [(y, credit.userId), (x, debit.userId)]
  refine safe_bind (safe_mono ?_ (fun _ _ _ => trivial) (hr.lockWallets x y i w ho))
  intro _ w₁ h₁
  refine safe_bind (safe_mono ?_ (fun _ _ _ => trivial) (safe_attributed
    (a := debit.asArgs (.out g) g) (List.mem_cons_of_mem _ List.mem_cons_self) h₁))
  intro _ w₂ h₂
  refine safe_bind (safe_mono ?_ (fun _ _ _ => trivial) (safe_attributed
    (a := credit.asArgs (.into g) g) List.mem_cons_self h₂))
  exact fun _ _ h₃ => ⟨_, trivial, h₃⟩

/-! ## The requests -/

theorem ownership_stage {d : Write adehun} (hd : LeavesOwners d)
    (hentry : ∀ t, d ≠ .insert .transaction t) : ownership.Keeps (.perform (.stage d)) := by
  refine ownership.keeps_perform ?_
  intro i w _ _ ho
  exact Attributes.stage ho hd fun t ht => absurd ht (hentry t)

theorem ownership_elsewhere {d : Write adehun} (hw : d.key.table ≠ .wallet)
    (ht : d.key.table ≠ .transaction) : ownership.Keeps (.perform (.stage d)) := by
  refine ownership_stage (leavesOwners_of_ne hw ht) ?_
  rintro t rfl
  exact ht rfl

theorem ownership_escrowSide : EscrowSide fun _ p => ownership.Keeps p := by
  have h := routine_ownership
  have hstatus : ∀ id s, ownership.Keeps (assign .agreement id (setStatus s)) :=
    fun _ _ => ownership_elsewhere (by simp [Write.key]) (by simp [Write.key])
  have hdispute : ∀ d : Write adehun, d.key.table = Table.dispute →
      ownership.Keeps (.perform (.stage d)) :=
    fun d hd => ownership_elsewhere (by simp [hd]) (by simp [hd])
  exact {
    newAgreement := fun _ _ => ownership_elsewhere (by simp [Write.key]) (by simp [Write.key])
    agreementStatus := hstatus
    underReview := fun _ => hdispute _ rfl
    resolution := fun _ _ _ _ => hdispute _ rfl
    raised := fun _ _ _ _ _ _ => h.raiseDisputeOrNot (h.raiseDisputeRows hstatus
      (fun _ _ => hdispute _ rfl) _ _ _ _ _)
    lockEscrow := fun _ _ _ _ _ _ => ownership_applyEntry _
    release := h.performEscrowRelease hstatus fun _ _ _ _ _ => ownership_applyTransfer _ _ _
    refund := h.performEscrowRefund hstatus fun _ _ _ _ => ownership_applyEntry _ }

theorem ownership_handler (settings : Settings) (r : Request) :
    ownership.Keeps (handler settings r) := by
  have h := routine_ownership
  have hentryStatus : ∀ id s t, ownership.Keeps
      (assign .transaction id (setEntryStatus s t)) := by
    intro id s t
    refine ownership_stage ⟨Write.retains_of_ne (by simp [Write.key]), fun _ _ => rfl⟩ ?_
    intro t' ht'
    cases ht'
  have hwrites : ProviderWrites fun _ p => ownership.Keeps p := {
    transfer := h.keeps_transfer
    intent := fun _ hd => ownership_elsewhere (by simp [hd]) (by simp [hd])
    entryStatus := hentryStatus
    deposit := fun _ _ _ _ => ownership_applyEntry _
    withdrawal := fun _ _ _ _ => ownership_applyEntry _
    reversal := fun _ _ _ _ => ownership_applyEntry _ }
  refine h.handler ownership_escrowSide (h.requests_of_writes hwrites ?_) settings r
  intro u i w ho
  exact movesOwned.wallet u i w ho |> safe_mono (fun _ _ h => h) fun _ _ h => h.elim id id

/-- In every run the entries of the ledger are on wallets of the users they
name. -/
theorem attributed_run {settings : Settings} {db : Db adehun} {shared : Shared}
    (hk : db.KeysDistinct) (he : db.EntriesDistinct) (hdb : Attributed db)
    {ls : List (Label adehun Request)} {C : Conf adehun Response}
    (hr : Conf.run (handler settings) { world := { db, shared } } ls = some C) :
    Attributed C.world.db :=
  (good_of_keeps (D := ownership) (ownership_handler settings) hk he hdb
    (Conf.runMeets_trivial _ ls) hr).2

/-! ### One day

Ada has a wallet with a deposit on it, a second deposit that is not yet
verified, and an active agreement with Bob. Through one day the money goes
every way it can: a deposit is credited, a withdrawal debited, refused and
reversed, the agreement funded and released, and another withdrawal sent. -/

namespace OneDay

def db : Db adehun
  | .user => [
      ({ id := 1, email := "ada@mail", name := "Ada" } : User),
      ({ id := 2, email := "bob@mail", name := "Bob" } : User)]
  | .wallet => [
      ({ id := 10, userId := 1, availableBalance := 30000 } : Wallet),
      ({ id := 11, userId := 2 } : Wallet)]
  | .transaction => [
      ({ id := 12
         userId := 1
         walletId := 10
         reference := .deposit (.fund 1 0)
         amount := 30000
         availableDelta := 30000
         escrowDelta := 0
         balanceAfter := 30000
         escrowAfter := 0
         type := .deposit
         direction := .credit
         status := .completed } : Transaction)]
  | .paystackTransaction => [
      ({ id := 13
         userId := 1
         reference := .fund 1 1
         amount := 500
         transactionType := .escrowDeposit } : PaystackTransaction)]
  | .bankAccount => [
      ({ id := 14
         userId := 1
         accountNumber := "0123456789"
         bankCode := "044"
         bankName := "Access Bank"
         accountName := "Ada"
         recipientCode := "RCP_1"
         isDefault := true } : BankAccount)]
  | .agreement => [
      ({ id := 20
         userId := 1
         title := "Work"
         description := ""
         amount := 10000
         status := .active } : Agreement)]
  | .agreementParticipant => [
      ({ id := 21, agreementId := 20, userId := 1, role := .depositor
         status := .accepted } : AgreementParticipant),
      ({ id := 22, agreementId := 20, userId := 2, role := .beneficiary
         status := .accepted } : AgreementParticipant)]
  | .condition => [
      ({ id := 23
         agreementId := 20
         participantId := 21
         title := "Done"
         description := ""
         status := "approved" } : Condition)]
  | _ => []

def settings : Settings := { paystackTransfersEnabled := true }

def verified : Transport :=
  .response 200 (.object true "" (.object
    { status := .success, currency := some .ngn, amount := .kobo 500 }))

/-- The provider does not take the transfer. -/
def refused : Transport := .response 400 (.object false "Account number is invalid" .missing)

def accepted : Transport :=
  .response 200 (.object true "" (.object { transferCode := some "TRF_1" }))

/-- A deposit is credited, and a withdrawal refused and reversed. -/
def morning : List (Turn adehun Request) := [
  .arrive 0 (.webhook true
    (.event .chargeSuccess (.object { id := some 7, reference := some (.fund 1 1) })) 0),
  .go 0 100 1000,
  .answer 0 verified,
  .go 0 100 2000,
  .arrive 1 (.withdraw 1 (some "one") { amount := 15000, amount_pos := by decide }),
  .go 1 100 3000,
  .answer 1 refused,
  .go 1 100 4000]

/-- An agreement is funded and released, and a second withdrawal sent. -/
def afternoon : List (Turn adehun Request) := [
  .arrive 2 (.fundAgreement 1 (some "two") 20),
  .go 2 100 5000,
  .arrive 3 (.release 2 (some "three") 20),
  .go 3 100 6000,
  .arrive 4 (.withdraw 1 (some "four") { amount := 10000, amount_pos := by decide }),
  .go 4 100 7000,
  .answer 4 accepted,
  .go 4 100 8000]

def start : Conf adehun Response := { world := { db := db, shared := {} } }

def noon : List (Label adehun Request) × Conf adehun Response :=
  start.played (handler settings) morning

def evening : List (Label adehun Request) × Conf adehun Response :=
  noon.2.played (handler settings) afternoon

/-- The whole day. -/
def labels : List (Label adehun Request) := noon.1 ++ evening.1

theorem db_keysDistinct : db.KeysDistinct := by
  intro t
  cases t <;> decide

theorem db_entriesDistinct : db.EntriesDistinct := by
  refine Db.entriesDistinct_of_pairwise fun t => ?_
  cases t <;> decide

theorem db_attributed : Attributed db := by
  intro t ht
  obtain rfl := List.mem_singleton.mp ht
  exact ⟨_, rfl, rfl⟩

theorem run_labels : Conf.run (handler settings) start labels = some evening.2 := by
  rw [labels, Conf.run_append, noon, Conf.run_played]
  exact Conf.run_played _ _

/-- What is in the ledger at the end of the day. -/
theorem references_evening :
    (evening.2.world.db .transaction : List Transaction).map (·.reference) =
      [.deposit (.fund 1 0), .deposit (.fund 1 1), .withdrawal (.withdrawal 1 3010),
        .reversal (.withdrawal 1 3010), .lock 20, .out (.release 20), .into (.release 20),
        .withdrawal (.withdrawal 1 7010)] := by
  decide +kernel

end OneDay

theorem attributed_run_oneDay :
    (OneDay.evening.2.world.db .transaction : List Transaction).map (·.reference) =
      [.deposit (.fund 1 0), .deposit (.fund 1 1), .withdrawal (.withdrawal 1 3010),
        .reversal (.withdrawal 1 3010), .lock 20, .out (.release 20), .into (.release 20),
        .withdrawal (.withdrawal 1 7010)] ∧
    Attributed OneDay.evening.2.world.db :=
  ⟨OneDay.references_evening, attributed_run OneDay.db_keysDistinct OneDay.db_entriesDistinct
    OneDay.db_attributed OneDay.run_labels⟩

end Adehun
