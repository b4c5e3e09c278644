import Adehun.BankAccountService
import Adehun.Restart

/-!
# Saving an account again

What the unique indexes allow. Choosing a default hands it over: the old
default is cleared and sent before the new one is set, so the index over the
defaults never stands in the way. Saving an account is another matter. A
removed account keeps its recipient code, and the index over these looks at
every row, of every user, active or not; the provider answers with the same
code whenever it is asked about the same account. So an account can be saved
once, by one user.
-/

namespace Adehun

open Sessions BankAccountRepository

/-! ## The table of accounts -/

/-- A default account is active. -/
def DefaultsActive (db : Db adehun) : Prop :=
  ∀ b ∈ (db .bankAccount : List BankAccount), b.isDefault = true → b.isActive = true

/-- What the table keeps to between requests. -/
structure Orderly (db : Db adehun) : Prop where
  sound : db.Sound
  active : DefaultsActive db

section Table

variable {db : Db adehun}

theorem Orderly.lookup (h : Orderly db) {b : BankAccount}
    (hb : b ∈ (db .bankAccount : List BankAccount)) :
    db.lookup ⟨.bankAccount, b.id⟩ = some b :=
  h.sound.keys.lookup (t := .bankAccount) hb

/-- A user has one default. -/
theorem Orderly.one_default (h : Orderly db) {b b' : BankAccount}
    (hb : b ∈ (db .bankAccount : List BankAccount))
    (hb' : b' ∈ (db .bankAccount : List BankAccount)) (hdefault : b.isDefault = true)
    (hdefault' : b'.isDefault = true) (huser : b.userId = b'.userId) : b.id = b'.id := by
  by_contra hne
  have hentry : ∀ a ∈ (db .bankAccount : List BankAccount), a.isDefault = true →
      Index.defaultAccount a.userId ∈ adehun.entries (t := .bankAccount) a := by
    intro a ha hd
    have hactive := h.active a ha hd
    show _ ∈ rowEntries (t := .bankAccount) a
    simp [rowEntries, hd, hactive]
  have := hentry b' hb' hdefault'
  rw [← huser] at this
  exact h.sound.entries .bankAccount b.id b'.id b b' hne (h.lookup hb) (h.lookup hb') _
    (hentry b hb hdefault) this

/-- The accounts after an update of one of them. -/
theorem mem_update {id : Id} {f : Patch adehun .bankAccount} {a : BankAccount}
    (ha : a ∈ ((Write.update (M := adehun) Table.bankAccount id f).apply db .bankAccount :
      List BankAccount)) :
    ∃ a₀ ∈ (db .bankAccount : List BankAccount),
      a₀.id = id ∧ a = f.run a₀ ∨ a₀.id ≠ id ∧ a = a₀ := by
  rw [Write.apply, Db.set_self] at ha
  obtain ⟨a₀, ha₀, hrun⟩ := List.mem_map.mp ha
  refine ⟨a₀, ha₀, ?_⟩
  by_cases hid : adehun.id (t := .bankAccount) a₀ = id
  · rw [if_pos hid] at hrun
    exact .inl ⟨hid, hrun.symm⟩
  · rw [if_neg hid] at hrun
    exact .inr ⟨hid, hrun.symm⟩

/-- An account updated. -/
theorem Orderly.update (h : Orderly db) {b : BankAccount} {f : Patch adehun .bankAccount}
    (hb : db.lookup ⟨.bankAccount, b.id⟩ = some b)
    (hactive : (f.run b : BankAccount).isDefault = true → (f.run b : BankAccount).isActive = true)
    (hentries : ∀ e ∈ rowEntries (t := .bankAccount) (f.run b),
      e ∈ rowEntries (t := .bankAccount) b ∨
        ∀ b' ∈ (db .bankAccount : List BankAccount), b'.id ≠ b.id →
          e ∉ rowEntries (t := .bankAccount) b') :
    (Write.update (M := adehun) Table.bankAccount b.id f).refusal db = none ∧
      Orderly ((Write.update (M := adehun) Table.bankAccount b.id f).apply db) := by
  have hgoes : (Write.update (M := adehun) Table.bankAccount b.id f).refusal db = none := by
    have hclash : db.clash (t := .bankAccount) (f.run b) = false := by
      rw [Db.clash, List.any_eq_false]
      intro b' hb' hany
      simp only [Bool.and_eq_true, bne_iff_ne, List.any_eq_true, decide_eq_true_eq] at hany
      obtain ⟨hne, e, he', he⟩ := hany
      have hne : b'.id ≠ b.id := fun heq => hne (heq.trans (f.id_run b).symm)
      cases hentries e he with
      | inl hown =>
          exact h.sound.entries .bankAccount _ b.id b' b hne (h.lookup hb') hb e he' hown
      | inr hfree => exact hfree b' hb' hne he'
    simp only [Write.refusal, hb, hclash, Bool.false_eq_true, if_false]
    rfl
  refine ⟨hgoes, h.sound.apply hgoes, ?_⟩
  intro a ha hdefault
  obtain ⟨a₀, ha₀, ⟨hid, rfl⟩ | ⟨hid, rfl⟩⟩ := mem_update ha
  · have hsame : a₀ = b := by
      have := h.lookup ha₀
      rw [hid, hb] at this
      exact (Option.some.inj this).symm
    rw [hsame] at hdefault ⊢
    exact hactive hdefault
  · exact h.active a ha₀ hdefault

end Table

/-! ## Choosing a default -/

section Session

variable {db view v : Db adehun} {κ : List (Db adehun)} {m : Shared} {χ : Chance adehun}
  {ds : List (Write adehun)}

/-- A session in the middle of a transaction, with writes still to be sent. -/
def staging (db view : Db adehun) (ds : List (Write adehun)) (κ : List (Db adehun))
    (m : Shared) (χ : Chance adehun) : Solo adehun :=
  { Solo.amid db view κ m χ with dirty := ds }

/-- A query sends what is staged. -/
theorem loadFirst_staging (hv : view.sendAll ds = .ok v) (hs : v.Sound) (t : Table)
    (p : t.Row → Bool) : (loadFirst t p).solo (staging db view ds κ m χ) =
      (.ok ((v t).find? p), .amid db v κ m χ) := by
  have hsent : (loadFirst t p).solo (staging db view ds κ m χ) =
      (loadFirst t p).solo (.amid db v κ m χ) := by
    unfold loadFirst
    rw [Prog.solo_bind, Prog.solo_bind, Prog.solo_perform, Prog.solo_perform]
    have hexec : ∀ q : Db adehun → List Nat, (staging db view ds κ m χ).exec (.load t q) =
        (Solo.amid db v κ m χ).exec (.load t q) := by
      intro q
      simp only [Solo.exec, Solo.sql, staging, Solo.amid, Solo.between, hv, Db.sendAll]
      rfl
    rw [hexec]
  rw [hsent]
  exact loadFirst_solo Solo.tidy_amid hs t p

/-- And if it is refused, the query raises. -/
theorem loadFirst_refused {e : Exn} (hv : view.sendAll ds = .error e) (t : Table)
    (p : t.Row → Bool) : ∃ σ, (loadFirst t p).solo (staging db view ds κ m χ) = (.error e, σ) ∧
      σ.db = db := by
  have hexec : ∀ q : Db adehun → List Nat, (staging db view ds κ m χ).exec (.load t q) =
      (.error e, (staging db view ds κ m χ).refuse) := by
    intro q
    simp only [Solo.exec, Solo.sql, staging, Solo.amid, Solo.between, hv]
    rfl
  refine ⟨(staging db view ds κ m χ).refuse, ?_, rfl⟩
  unfold loadFirst
  rw [Prog.solo_bind, Prog.solo_perform, hexec]

/-- The default account of a user. -/
def defaultOf (db : Db adehun) (userId : Id) : Option BankAccount :=
  (db .bankAccount : List BankAccount).find? fun b =>
    b.userId = userId && b.isDefault && b.isActive

theorem getDefault_staging (hv : view.sendAll ds = .ok v) (hs : v.Sound) (userId : Id) :
    (getDefaultBankAccountForUser userId).solo (staging db view ds κ m χ) =
      (.ok (defaultOf v userId), .amid db v κ m χ) :=
  loadFirst_staging hv hs .bankAccount _

/-- The default of before is no default any more, and nothing else has changed. -/
theorem clearDefault_solo (hv : view.sendAll ds = .ok v) (ho : Orderly v) (account : BankAccount) :
    ∃ v', (clearDefault account).solo (staging db view ds κ m χ) = (.ok (), .amid db v' κ m χ) ∧
      Orderly v' ∧ v'.lookup ⟨.bankAccount, account.id⟩ = v.lookup ⟨.bankAccount, account.id⟩ ∧
      ∀ b ∈ (v' .bankAccount : List BankAccount), b.userId = account.userId →
        b.isDefault = true → b.id = account.id := by
  unfold clearDefault
  rw [Prog.solo_bind_ok (getDefault_staging hv ho.sound account.userId)]
  cases hfind : defaultOf v account.userId with
  | none =>
      refine ⟨v, rfl, ho, rfl, ?_⟩
      intro b hb huser hdefault
      have := List.find?_eq_none.mp hfind b hb
      simp [huser, hdefault, ho.active b hb hdefault] at this
  | some current =>
      have hmem := List.mem_of_find?_eq_some hfind
      have hcurrent := List.find?_some hfind
      simp only [Bool.and_eq_true, decide_eq_true_eq] at hcurrent
      obtain ⟨⟨huser, hdefault⟩, hactive⟩ := hcurrent
      by_cases hid : current.id = account.id
      · refine ⟨v, ?_, ho, rfl, ?_⟩
        · simp only [hid, ne_eq, not_true_eq_false, if_false]
          rfl
        · intro b hb hb' hbdefault
          rw [← hid]
          exact ho.one_default hb hmem hbdefault hdefault (hb'.trans huser.symm)
      · have hrow := ho.lookup hmem
        obtain ⟨hgoes, hkept⟩ := ho.update (f := setIsDefault false) hrow
          (fun h => by cases h) (by
            intro e he
            left
            have he : e ∈ rowEntries (t := .bankAccount) { current with isDefault := false } := he
            simp only [rowEntries, Bool.false_and, Bool.false_eq_true, if_false,
              List.append_nil] at he
            show e ∈ rowEntries (t := .bankAccount) current
            simp only [rowEntries, List.mem_append]
            exact .inl he)
        have hsend : v.sendAll [Write.update (M := adehun) Table.bankAccount current.id
            (setIsDefault false)] = .ok ((Write.update (M := adehun) Table.bankAccount current.id
              (setIsDefault false)).apply v) := by
          rw [Db.sendAll_cons hgoes]
          rfl
        refine ⟨_, ?_, hkept, ?_, ?_⟩
        · simp only [ne_eq, hid, not_false_eq_true, if_true]
          refine (Prog.solo_bind_ok (assign_solo _ _)).trans ?_
          exact flush_solo rfl (by rw [← hsend]; rfl)
        · rw [Write.lookup_update]
          simp [Ne.symm hid]
        · intro b hb hb' hbdefault
          obtain ⟨b₀, hb₀, ⟨hsame, rfl⟩ | ⟨hne, rfl⟩⟩ := mem_update hb
          · cases hbdefault
          · exact absurd (ho.one_default hb₀ hmem hbdefault hdefault (hb'.trans huser.symm)) hne

/-- The account is the default, and committed as such. -/
theorem setDefault_solo (hv : view.sendAll ds = .ok v) (ho : Orderly v) {account : BankAccount}
    (hrow : v.lookup ⟨.bankAccount, account.id⟩ = some account)
    (hactive : account.isActive = true) :
    ∃ v', (setDefault account).solo (staging db view ds κ m χ) =
        (.ok { account with isDefault := true }, .between v' (v' :: κ) m χ) ∧ Orderly v' ∧
      v'.lookup ⟨.bankAccount, account.id⟩ = some { account with isDefault := true } := by
  obtain ⟨v₁, hclear, ho₁, hsame, hothers⟩ := @clearDefault_solo db view v κ m χ ds hv ho account
  rw [hrow] at hsame
  obtain ⟨hgoes, hkept⟩ := ho₁.update (f := setIsDefault true) hsame (fun _ => hactive) (by
    intro e he
    have he : e ∈ rowEntries (t := .bankAccount) { account with isDefault := true } := he
    simp only [rowEntries, hactive, Bool.and_true, if_true, List.mem_append,
      List.mem_singleton] at he
    cases he with
    | inl h =>
        left
        show e ∈ rowEntries (t := .bankAccount) account
        simp only [rowEntries, hactive, if_true, List.mem_append]
        exact .inl h
    | inr h =>
        right
        intro b hb hne hmem
        subst h
        have hb' : b.isDefault = true ∧ b.userId = account.userId := by
          simp only [rowEntries, List.cons_append, List.mem_cons, List.mem_append] at hmem
          rcases hmem with hmem | hmem | hmem
          · cases hmem
          · split at hmem
            · simp at hmem
            · cases hmem
          · split at hmem
            · next hd =>
                simp only [Bool.and_eq_true] at hd
                simp only [List.mem_singleton, Index.defaultAccount.injEq] at hmem
                exact ⟨hd.1, hmem.symm⟩
            · cases hmem
        exact hne (hothers b hb hb'.2 hb'.1))
  have hnew : ((Write.update (M := adehun) Table.bankAccount account.id
      (setIsDefault true)).apply v₁).lookup ⟨.bankAccount, account.id⟩ =
        some { account with isDefault := true } := by
    rw [Write.lookup_update, hsame, Option.map_some, if_pos rfl]
    rfl
  have hsend : v₁.sendAll [Write.update (M := adehun) Table.bankAccount account.id
      (setIsDefault true)] = .ok ((Write.update (M := adehun) Table.bankAccount account.id
        (setIsDefault true)).apply v₁) := by
    rw [Db.sendAll_cons hgoes]
    rfl
  refine ⟨_, ?_, hkept, hnew⟩
  unfold setDefault
  rw [Prog.solo_bind_ok hclear]
  refine (Prog.solo_bind_ok (assign_solo _ _)).trans ?_
  refine (Prog.solo_bind_ok (Solo.commit_amid db v₁ hsend)).trans ?_
  exact refresh_solo Solo.tidy_between hnew

/-! ## Saving an account -/

/-- Some row has the recipient code, of whatever user, active or not. -/
def CodeTaken (db : Db adehun) (recipientCode : String) : Prop :=
  ∃ b ∈ (db .bankAccount : List BankAccount), b.recipientCode = recipientCode

/-- The user has the account among the active ones. -/
def Saved (db : Db adehun) (userId : Id) (bankCode accountNumber : String) : Prop :=
  ∃ b ∈ (db .bankAccount : List BankAccount), b.userId = userId ∧ b.bankCode = bankCode ∧
    b.accountNumber = accountNumber ∧ b.isActive = true

/-- A new account is refused for its recipient code or not at all. -/
theorem insert_goes_iff (ho : Orderly db) {a : BankAccount}
    (hfresh : db.lookup ⟨.bankAccount, a.id⟩ = none) (hdefault : a.isDefault = false)
    (hactive : a.isActive = true) (hnew : ¬Saved db a.userId a.bankCode a.accountNumber) :
    (CodeTaken db a.recipientCode →
      (Write.insert (M := adehun) Table.bankAccount a).refusal db = some .integrity) ∧
    (¬CodeTaken db a.recipientCode →
      (Write.insert (M := adehun) Table.bankAccount a).refusal db = none ∧
        Orderly ((Write.insert (M := adehun) Table.bankAccount a).apply db)) := by
  have hentries : rowEntries (t := .bankAccount) a =
      [.recipientCode a.recipientCode, .activeAccount a.userId a.bankCode a.accountNumber] := by
    simp [rowEntries, hdefault, hactive]
  constructor
  · intro hcode
    obtain ⟨b, hb, hcode⟩ := hcode
    have hne : b.id ≠ a.id := by
      intro hid
      have := ho.lookup hb
      rw [hid, hfresh] at this
      cases this
    have hclash : db.clash (t := .bankAccount) a = true := by
      simp only [Db.clash, List.any_eq_true, Bool.and_eq_true, bne_iff_ne, decide_eq_true_eq]
      refine ⟨b, hb, hne, .recipientCode b.recipientCode, ?_, ?_⟩
      · show _ ∈ rowEntries (t := .bankAccount) b
        simp [rowEntries]
      · show _ ∈ rowEntries (t := .bankAccount) a
        rw [hentries, hcode]
        exact List.mem_cons_self
    simp only [Write.refusal, hclash, Bool.or_true, if_true]
  · intro hunclaimed
    have hclash : db.clash (t := .bankAccount) a = false := by
      rw [Db.clash, List.any_eq_false]
      intro b hb hany
      simp only [Bool.and_eq_true, bne_iff_ne, List.any_eq_true, decide_eq_true_eq] at hany
      obtain ⟨-, e, he, he'⟩ := hany
      have he : e ∈ rowEntries (t := .bankAccount) b := he
      have he' : e ∈ rowEntries (t := .bankAccount) a := he'
      rw [hentries] at he'
      simp only [List.mem_cons, List.not_mem_nil, or_false] at he'
      simp only [rowEntries, List.cons_append, List.mem_cons, List.mem_append] at he
      rcases he' with rfl | rfl
      · rcases he with he | he | he
        · injection he with he
          exact hunclaimed ⟨b, hb, he.symm⟩
        · split at he
          · simp at he
          · cases he
        · split at he
          · simp at he
          · cases he
      · rcases he with he | he | he
        · cases he
        · split at he
          · next hbactive =>
              simp only [List.mem_singleton, Index.activeAccount.injEq] at he
              exact hnew ⟨b, hb, he.1.symm, he.2.1.symm, he.2.2.symm, hbactive⟩
          · cases he
        · split at he
          · simp at he
          · cases he
    have hgoes : (Write.insert (M := adehun) Table.bankAccount a).refusal db = none := by
      have hlook : db.lookup ⟨.bankAccount, adehun.id (t := .bankAccount) a⟩ = none := hfresh
      simp only [Write.refusal, hlook, hclash, Option.isSome_none, Bool.or_self,
        Bool.false_eq_true, if_false]
      rfl
    refine ⟨hgoes, ho.sound.apply hgoes, ?_⟩
    intro b hb hbdefault
    rw [Write.apply, Db.set_self] at hb
    cases List.mem_append.mp hb with
    | inl h => exact ho.active b h hbdefault
    | inr h =>
        rw [List.mem_singleton.mp h]
        exact hactive

theorem add_staged (a : BankAccount) :
    (BankAccountRepository.add a false).solo (.between db κ m χ) =
      (.ok a, staging db db [.insert .bankAccount a] κ m χ) := rfl

theorem add_committed {a : BankAccount} (hsend : db.sendAll [.insert .bankAccount a] = .ok v)
    (hrow : v.lookup ⟨.bankAccount, a.id⟩ = some a) :
    (BankAccountRepository.add a true).solo (.between db κ m χ) =
      (.ok a, .between v (v :: κ) m χ) := by
  unfold BankAccountRepository.add
  refine (Prog.solo_bind_ok (add_solo _)).trans ?_
  refine (Prog.solo_bind_ok (Solo.commit_between hsend)).trans ?_
  exact refresh_solo Solo.tidy_between hrow

theorem add_refused {a : BankAccount} {e : Exn}
    (hsend : db.sendAll [.insert .bankAccount a] = .error e) :
    (BankAccountRepository.add a true).solo (.between db κ m χ) =
      (.error e, (staging db db [.insert .bankAccount a] κ m χ).refuse) := by
  have hcommit : commit.solo (staging db db [.insert .bankAccount a] κ m χ) =
      (.error e, (staging db db [.insert .bankAccount a] κ m χ).refuse) := by
    refine (Prog.solo_perform _).trans ?_
    simp only [Solo.exec, Solo.sql, staging, Solo.amid, Solo.between, hsend]
    rfl
  unfold BankAccountRepository.add
  refine (Prog.solo_bind_ok (add_solo _)).trans ?_
  exact Prog.solo_bind_error hcommit

theorem saveAccount_claimed {a : BankAccount} (makeDefault : Bool)
    (hrefused : (Write.insert (M := adehun) Table.bankAccount a).refusal db = some .integrity) :
    ∃ σ, (saveAccount a makeDefault).solo (.between db κ m χ) = (.error .integrity, σ) ∧
      σ.db = db := by
  have hsend : db.sendAll [.insert .bankAccount a] = .error .integrity := by
    rw [Db.sendAll, hrefused]
  unfold saveAccount
  cases makeDefault with
  | false => exact ⟨_, Prog.solo_bind_error (add_refused hsend), rfl⟩
  | true =>
      obtain ⟨σ, hload, hdb⟩ := @loadFirst_refused db db κ m χ _ _ hsend .bankAccount
        fun b : BankAccount => b.userId = a.userId && b.isDefault && b.isActive
      refine ⟨σ, ?_, hdb⟩
      refine (Prog.solo_bind_ok (add_staged a)).trans ?_
      exact Prog.solo_bind_error (Prog.solo_bind_error hload)

theorem saveAccount_unclaimed {a : BankAccount} (makeDefault : Bool)
    (hfresh : db.lookup ⟨.bankAccount, a.id⟩ = none) (hdefault : a.isDefault = false)
    (hactive : a.isActive = true)
    (hgoes : (Write.insert (M := adehun) Table.bankAccount a).refusal db = none)
    (hkept : Orderly ((Write.insert (M := adehun) Table.bankAccount a).apply db)) :
    ∃ v', (saveAccount a makeDefault).solo (.between db κ m χ) =
        (.ok { a with isDefault := makeDefault }, .between v' (v' :: κ) m χ) ∧ Orderly v' ∧
      v'.lookup ⟨.bankAccount, a.id⟩ = some { a with isDefault := makeDefault } := by
  have hsend : db.sendAll [.insert .bankAccount a] =
      .ok ((Write.insert (M := adehun) Table.bankAccount a).apply db) := by
    rw [Db.sendAll_cons hgoes]
    rfl
  have hrow : ((Write.insert (M := adehun) Table.bankAccount a).apply db).lookup
      ⟨.bankAccount, a.id⟩ = some a := Write.lookup_insert_self hfresh
  unfold saveAccount
  cases makeDefault with
  | false =>
      have hsame : { a with isDefault := false } = a := by rw [← hdefault]
      rw [hsame]
      exact ⟨_, Prog.solo_bind_ok (add_committed hsend hrow), hkept, hrow⟩
  | true =>
      obtain ⟨v', hset, hkept', hrow'⟩ := @setDefault_solo db db _ κ m χ _ hsend hkept a hrow
        hactive
      exact ⟨v', (Prog.solo_bind_ok (add_staged a)).trans hset, hkept', hrow'⟩

/-- The provider knows the account: its bank is listed, and it resolves. -/
structure Paystack.Knows (paystack : Paystack) (payload : BankAccountCreate) : Prop where
  listed : (paystack.banks.find? fun bank => bank.1 = payload.bankCode).isSome
  resolves : ∃ name,
    paystack.resolveAccountNumber payload.accountNumber payload.bankCode = .ok name

/-- The recipient code of the account that is to be saved. -/
def Paystack.codeOf (paystack : Paystack) (payload : BankAccountCreate) : String :=
  paystack.recipientCode payload.accountNumber payload.bankCode

/-- The account is saved: it is answered, and among the user's active ones. -/
def Adds (userId : Id) (payload : BankAccountCreate) (answer : Except Exn BankAccount)
    (after : Db adehun) : Prop :=
  ∃ b, answer = .ok b ∧ after.lookup ⟨.bankAccount, b.id⟩ = some b ∧ b.userId = userId ∧
    b.bankCode = payload.bankCode ∧ b.accountNumber = payload.accountNumber ∧ b.isActive = true

/-- The first account is the default. -/
def DefaultsFirst (userId : Id) (before : Db adehun) (answer : Except Exn BankAccount)
    (after : Db adehun) : Prop :=
  ∀ b, answer = .ok b → defaultOf before userId = none →
    after.lookup ⟨.bankAccount, b.id⟩ = some b ∧ b.userId = userId ∧ b.isDefault = true

theorem findActiveDuplicate_solo (ho : Orderly db) (userId : Id) (bankCode accountNumber : String) :
    ∃ found, (findActiveDuplicate userId bankCode accountNumber).solo (.between db κ m χ) =
        (.ok found, .between db κ m χ) ∧
      (found.isSome ↔ Saved db userId bankCode accountNumber) := by
  refine ⟨_, loadFirst_solo Solo.tidy_between ho.sound .bankAccount _, ?_⟩
  rw [List.find?_isSome]
  constructor
  · intro ⟨b, hb, h⟩
    simp only [Bool.and_eq_true, decide_eq_true_eq] at h
    exact ⟨b, hb, h.1.1.1, h.1.1.2, h.1.2, h.2⟩
  · intro ⟨b, hb, huser, hbank, hnumber, hactive⟩
    exact ⟨b, hb, by simp [huser, hbank, hnumber, hactive]⟩

theorem not_adds {userId : Id} {payload : BankAccountCreate} {e : Exn} {after : Db adehun} :
    ¬Adds userId payload (.error e) after := by
  intro ⟨b, hb, _⟩
  cases hb

theorem defaultsFirst_error {userId : Id} {before after : Db adehun} {e : Exn} :
    DefaultsFirst userId before (.error e) after := by
  intro b hb
  cases hb

theorem makesDefault_solo (ho : Orderly db) (userId : Id) (payload : BankAccountCreate) :
    (makesDefault userId payload).solo (.between db κ m χ) =
      (.ok (payload.makeDefault || (defaultOf db userId).isNone), .between db κ m χ) := by
  have hdefault : (getDefaultBankAccountForUser userId).solo (.between db κ m χ) =
      (.ok (defaultOf db userId), .between db κ m χ) :=
    loadFirst_solo Solo.tidy_between ho.sound .bankAccount _
  unfold makesDefault
  cases payload.makeDefault with
  | true => rfl
  | false => exact Prog.solo_bind_ok hdefault

/-- An account the user has not got is saved if nobody has its recipient code. -/
theorem saveResolved_solo (paystack : Paystack) (ho : Orderly db)
    (hfresh : db.lookup ⟨.bankAccount, χ.ids 0⟩ = none) {userId : Id}
    {payload : BankAccountCreate} (bankName accountName : String)
    (hnew : ¬Saved db userId payload.bankCode payload.accountNumber) :
    ∃ r σ, (saveResolved paystack userId payload bankName accountName).solo
        (.between db κ m χ) = (r, σ) ∧ Orderly σ.db ∧ DefaultsFirst userId db r σ.db ∧
      (Adds userId payload r σ.db ↔ ¬CodeTaken db (paystack.codeOf payload)) := by
  let account : BankAccount :=
    { id := χ.ids 0
      userId := userId
      accountNumber := payload.accountNumber
      bankCode := payload.bankCode
      bankName := bankName
      accountName := accountName
      recipientCode := paystack.codeOf payload }
  let makeDefault := payload.makeDefault || (defaultOf db userId).isNone
  let χ' : Chance adehun := { χ with ids := fun n => χ.ids (n + 1) }
  have hrun : (saveResolved paystack userId payload bankName accountName).solo
      (.between db κ m χ) = (saveAccount account makeDefault).solo (.between db κ m χ') := by
    unfold saveResolved
    refine (Prog.solo_bind_ok fresh_solo).trans ?_
    exact Prog.solo_bind_ok (makesDefault_solo (χ := χ') ho userId payload)
  rw [hrun]
  obtain ⟨hclaimed, hunclaimed⟩ := insert_goes_iff ho (a := account) hfresh rfl rfl hnew
  by_cases hc : CodeTaken db account.recipientCode
  · obtain ⟨σ, hsave, hdb⟩ := saveAccount_claimed (κ := κ) (m := m) (χ := χ') makeDefault
      (hclaimed hc)
    refine ⟨_, σ, hsave, ?_, defaultsFirst_error, ?_⟩
    · rw [hdb]
      exact ho
    · exact iff_of_false not_adds (not_not.2 hc)
  · obtain ⟨hgoes, hkept⟩ := hunclaimed hc
    obtain ⟨v', hsave, hkept', hrow⟩ := saveAccount_unclaimed (κ := κ) (m := m) (χ := χ')
      makeDefault hfresh rfl rfl hgoes hkept
    refine ⟨_, _, hsave, hkept', ?_, ?_⟩
    · intro b hb hnone
      cases hb
      refine ⟨hrow, rfl, ?_⟩
      show (payload.makeDefault || (defaultOf db userId).isNone) = true
      rw [hnone]
      exact Bool.or_true _
    · exact iff_of_true ⟨_, rfl, hrow, rfl, rfl, rfl, rfl⟩ hc

theorem addBankAccount_solo (paystack : Paystack) (ho : Orderly db)
    (hfresh : db.lookup ⟨.bankAccount, χ.ids 0⟩ = none) (userId : Id)
    (payload : BankAccountCreate) :
    ∃ r σ, (addBankAccount paystack userId payload).solo (.between db κ m χ) = (r, σ) ∧
      Orderly σ.db ∧ DefaultsFirst userId db r σ.db ∧
      (paystack.Knows payload → ¬Saved db userId payload.bankCode payload.accountNumber →
        (Adds userId payload r σ.db ↔ ¬CodeTaken db (paystack.codeOf payload))) := by
  obtain ⟨found, hfound, hsaved⟩ := findActiveDuplicate_solo (κ := κ) (m := m) (χ := χ) ho
    userId payload.bankCode payload.accountNumber
  unfold addBankAccount
  rw [Prog.solo_bind_ok hfound]
  cases found with
  | some duplicate =>
      exact ⟨_, _, rfl, ho, defaultsFirst_error, fun _ hnew => absurd (hsaved.1 rfl) hnew⟩
  | none =>
      have hnew : ¬Saved db userId payload.bankCode payload.accountNumber := by
        intro h
        have := hsaved.2 h
        cases this
      simp only
      cases hbank : paystack.banks.find? fun bank => bank.1 = payload.bankCode with
      | none =>
          have hname : (bankName paystack payload.bankCode).solo (.between db κ m χ) =
              (.error (.app .badRequest "Unknown bank code"), .between db κ m χ) := by
            unfold bankName
            rw [hbank]
            rfl
          refine ⟨_, _, Prog.solo_bind_error hname, ho, defaultsFirst_error, ?_⟩
          intro hknows
          have := hknows.listed
          rw [hbank] at this
          cases this
      | some bank =>
          have hname : (bankName paystack payload.bankCode).solo (.between db κ m χ) =
              (.ok bank.2, .between db κ m χ) := by
            unfold bankName
            rw [hbank]
            rfl
          rw [Prog.solo_bind_ok hname]
          cases hresolve : paystack.resolveAccountNumber payload.accountNumber
              payload.bankCode with
          | error e =>
              refine ⟨_, _, Prog.solo_bind_error rfl, ho, defaultsFirst_error, ?_⟩
              intro hknows
              obtain ⟨name, hname⟩ := hknows.resolves
              rw [hresolve] at hname
              cases hname
          | ok name =>
              obtain ⟨r, σ, hrun, hkept, hfirst, hadds⟩ := saveResolved_solo (κ := κ) (m := m)
                paystack ho hfresh bank.2 name hnew
              exact ⟨r, σ, (Prog.solo_bind_ok rfl).trans hrun, hkept, hfirst, fun _ _ => hadds⟩

/-! ## Choosing and removing -/

/-- An account of the user that is active. -/
theorem getForUser_solo (ho : Orderly db) (bankAccountId userId : Id) :
    ∃ found, (getBankAccountForUser bankAccountId userId).solo (.between db κ m χ) =
        (.ok found, .between db κ m χ) ∧
      ∀ b, found = some b → db.lookup ⟨.bankAccount, b.id⟩ = some b ∧ b.isActive = true := by
  refine ⟨_, loadFirst_solo Solo.tidy_between ho.sound .bankAccount _, ?_⟩
  intro b hb
  have h := List.find?_some hb
  simp only [Bool.and_eq_true] at h
  exact ⟨ho.lookup (List.mem_of_find?_eq_some hb), h.2⟩

theorem setDefaultBankAccount_solo (ho : Orderly db) (bankAccountId userId : Id) :
    ∃ r σ, (setDefaultBankAccount bankAccountId userId).solo (.between db κ m χ) = (r, σ) ∧
      Orderly σ.db := by
  obtain ⟨found, hfound, hrow⟩ := getForUser_solo (κ := κ) (m := m) (χ := χ) ho bankAccountId
    userId
  unfold setDefaultBankAccount
  rw [Prog.solo_bind_ok hfound]
  cases found with
  | none => exact ⟨_, _, rfl, ho⟩
  | some account =>
      obtain ⟨hlook, hactive⟩ := hrow account rfl
      obtain ⟨v', hset, hkept, -⟩ := @setDefault_solo db db db κ m χ [] rfl ho account hlook
        hactive
      exact ⟨_, _, hset, hkept⟩

theorem deactivate_solo (ho : Orderly db) {account : BankAccount}
    (hrow : db.lookup ⟨.bankAccount, account.id⟩ = some account) :
    ∃ r σ, (deactivate account).solo (.between db κ m χ) = (.ok r, σ) ∧ Orderly σ.db := by
  obtain ⟨hgoes, hkept⟩ := ho.update (f := setInactive) hrow (fun h => by cases h) (by
    intro e he
    left
    have he : e ∈ rowEntries (t := .bankAccount)
      { account with isActive := false, isDefault := false } := he
    simp only [rowEntries, Bool.false_and, Bool.false_eq_true, if_false, List.append_nil,
      List.mem_singleton] at he
    rw [he]
    show _ ∈ rowEntries (t := .bankAccount) account
    simp [rowEntries])
  have hsend : db.sendAll [Write.update (M := adehun) Table.bankAccount account.id setInactive] =
      .ok ((Write.update (M := adehun) Table.bankAccount account.id setInactive).apply db) := by
    rw [Db.sendAll_cons hgoes]
    rfl
  have hnew : ((Write.update (M := adehun) Table.bankAccount account.id setInactive).apply
      db).lookup ⟨.bankAccount, account.id⟩ =
        some { account with isActive := false, isDefault := false } := by
    rw [Write.lookup_update, hrow, Option.map_some, if_pos rfl]
    rfl
  generalize (Write.update (M := adehun) Table.bankAccount account.id setInactive).apply db = v
    at hkept hsend hnew
  refine ⟨{ account with isActive := false, isDefault := false }, .between v (v :: κ) m χ,
    ?_, hkept⟩
  unfold deactivate
  refine (Prog.solo_bind_ok (assign_solo _ _)).trans ?_
  refine (Prog.solo_bind_ok (Solo.commit_between hsend)).trans ?_
  exact refresh_solo Solo.tidy_between hnew

theorem removeBankAccount_solo (ho : Orderly db) (bankAccountId userId : Id) :
    ∃ r σ, (removeBankAccount bankAccountId userId).solo (.between db κ m χ) = (r, σ) ∧
      Orderly σ.db := by
  obtain ⟨found, hfound, hrow⟩ := getForUser_solo (κ := κ) (m := m) (χ := χ) ho bankAccountId
    userId
  unfold removeBankAccount
  rw [Prog.solo_bind_ok hfound]
  cases found with
  | none => exact ⟨_, _, rfl, ho⟩
  | some account =>
      simp only
      have hpending : (hasPendingWithdrawal account.id).solo (.between db κ m χ) = _ :=
        select_solo Solo.tidy_between _
      rw [Prog.solo_bind_ok hpending]
      split
      · exact ⟨_, _, rfl, ho⟩
      · obtain ⟨r, σ, hdeactivate, hkept⟩ := deactivate_solo (κ := κ) (m := m) (χ := χ) ho
          (hrow account rfl).1
        exact ⟨_, _, Prog.solo_bind_ok hdeactivate, hkept⟩

end Session

/-! ## Histories -/

/-- A request about bank accounts, or anything that leaves the table of them
alone. -/
inductive BankAccountOp
  | adds (userId : Id) (payload : BankAccountCreate) (χ : Chance adehun)
  | setsDefault (bankAccountId userId : Id) (χ : Chance adehun)
  | removes (bankAccountId userId : Id) (χ : Chance adehun)
  | elsewhere (after : World)

namespace BankAccountOp

def apply (paystack : Paystack) (w : World) : BankAccountOp → World
  | adds userId payload χ => w.after (addBankAccount paystack userId payload) χ
  | setsDefault bankAccountId userId χ => w.after (setDefaultBankAccount bankAccountId userId) χ
  | removes bankAccountId userId χ => w.after (removeBankAccount bankAccountId userId) χ
  | elsewhere after => after

/-- The identifier of a new row is new, and what happens elsewhere happens
there. -/
def Occurs (w : World) : BankAccountOp → Prop
  | adds _ _ χ => w.db.lookup ⟨.bankAccount, χ.ids 0⟩ = none
  | elsewhere after => after.db.Sound ∧ after.db .bankAccount = w.db .bankAccount
  | _ => True

/-- An account that the provider knows and the user has not got is saved. -/
def Succeeds (paystack : Paystack) (w : World) : BankAccountOp → Prop
  | op@(adds userId payload χ) => paystack.Knows payload →
      ¬Saved w.db userId payload.bankCode payload.accountNumber →
        Adds userId payload (outcome (addBankAccount paystack userId payload) w.db w.shared χ)
          (op.apply paystack w).db
  | _ => True

/-- Nobody has, or had, its recipient code. -/
def Unclaimed (paystack : Paystack) (w : World) : BankAccountOp → Prop
  | adds userId payload _ => paystack.Knows payload →
      ¬Saved w.db userId payload.bankCode payload.accountNumber →
        ¬CodeTaken w.db (paystack.codeOf payload)
  | _ => True

/-- Defaults are in order after the request: one at most for every user, an
active one, and the first account of a user. -/
structure InOrder (paystack : Paystack) (w : World) (op : BankAccountOp) : Prop where
  one : ∀ b ∈ ((op.apply paystack w).db .bankAccount : List BankAccount),
    ∀ b' ∈ ((op.apply paystack w).db .bankAccount : List BankAccount), b.isDefault = true →
      b'.isDefault = true → b.userId = b'.userId → b = b'
  active : DefaultsActive (op.apply paystack w).db
  first : ∀ userId payload χ, op = adds userId payload χ →
    DefaultsFirst userId w.db (outcome (addBankAccount paystack userId payload) w.db w.shared χ)
      (op.apply paystack w).db

/-- The steps of a history, each with what it starts from. -/
def steps (paystack : Paystack) (w : World) : List BankAccountOp → List (World × BankAccountOp)
  | [] => []
  | op :: ops => (w, op) :: steps paystack (op.apply paystack w) ops

end BankAccountOp

section Step

open BankAccountOp

variable {paystack : Paystack} {w : World}

theorem Orderly.one (h : Orderly w.db) : ∀ b ∈ (w.db .bankAccount : List BankAccount),
    ∀ b' ∈ (w.db .bankAccount : List BankAccount), b.isDefault = true →
      b'.isDefault = true → b.userId = b'.userId → b = b' := by
  intro b hb b' hb' hdefault hdefault' huser
  have hid := h.one_default hb hb' hdefault hdefault' huser
  have hlook := h.lookup hb
  rw [hid, h.lookup hb'] at hlook
  exact (Option.some.inj hlook).symm

theorem orderly_elsewhere (h : Orderly w.db) {after : World} (hs : after.db.Sound)
    (hsame : after.db .bankAccount = w.db .bankAccount) : Orderly after.db := by
  refine ⟨hs, ?_⟩
  intro b hb
  rw [hsame] at hb
  exact h.active b hb

/-- An account saved in a history. -/
theorem adds_step (h : Orderly w.db) {userId : Id} {payload : BankAccountCreate}
    {χ : Chance adehun} (hd : (adds userId payload χ).Occurs w) :
    Orderly ((adds userId payload χ).apply paystack w).db ∧
      DefaultsFirst userId w.db
        (outcome (addBankAccount paystack userId payload) w.db w.shared χ)
        ((adds userId payload χ).apply paystack w).db ∧
      ((adds userId payload χ).Succeeds paystack w ↔
        (adds userId payload χ).Unclaimed paystack w) := by
  obtain ⟨r, σ, hrun, hkept, hfirst, hadds⟩ := addBankAccount_solo (κ := []) (m := w.shared)
    paystack h hd userId payload
  obtain ⟨hafter, hanswer⟩ := after_eq hrun
  have hsucceeds : (adds userId payload χ).Succeeds paystack w ↔ (paystack.Knows payload →
      ¬Saved w.db userId payload.bankCode payload.accountNumber →
        Adds userId payload r σ.db) := by
    show (_ → _ → Adds _ _ _ (w.after _ _).db) ↔ _
    rw [hafter, hanswer]
  refine ⟨?_, ?_, ?_⟩
  · show Orderly (w.after _ _).db
    rw [hafter]
    exact hkept
  · show DefaultsFirst _ _ _ (w.after _ _).db
    rw [hafter, hanswer]
    exact hfirst
  · rw [hsucceeds]
    exact forall_congr' fun hknows => forall_congr' (hadds hknows)

/-- Every step keeps the table in order. -/
theorem Orderly.step (h : Orderly w.db) {op : BankAccountOp} (hd : op.Occurs w) :
    Orderly (op.apply paystack w).db := by
  cases op with
  | adds userId payload χ => exact (adds_step h hd).1
  | setsDefault bankAccountId userId χ =>
      obtain ⟨r, σ, hrun, hkept⟩ := setDefaultBankAccount_solo (κ := []) (m := w.shared) (χ := χ)
        h bankAccountId userId
      show Orderly (w.after _ _).db
      rw [(after_eq hrun).1]
      exact hkept
  | removes bankAccountId userId χ =>
      obtain ⟨r, σ, hrun, hkept⟩ := removeBankAccount_solo (κ := []) (m := w.shared) (χ := χ)
        h bankAccountId userId
      show Orderly (w.after _ _).db
      rw [(after_eq hrun).1]
      exact hkept
  | elsewhere after => exact orderly_elsewhere h hd.1 hd.2

/-- After it the defaults are in order. -/
theorem Orderly.inOrder (h : Orderly w.db) {op : BankAccountOp} (hd : op.Occurs w) :
    op.InOrder paystack w := by
  have hafter : Orderly (op.apply paystack w).db := h.step hd
  refine ⟨hafter.one, hafter.active, ?_⟩
  intro userId payload χ hop
  subst hop
  exact (adds_step h hd).2.1

/-- And an account is saved if nobody has, or had, its recipient code. -/
theorem Orderly.succeeds_iff (h : Orderly w.db) {op : BankAccountOp} (hd : op.Occurs w) :
    op.Succeeds paystack w ↔ op.Unclaimed paystack w := by
  cases op with
  | adds userId payload χ => exact (adds_step h hd).2.2
  | setsDefault bankAccountId userId χ => exact Iff.rfl
  | removes bankAccountId userId χ => exact Iff.rfl
  | elsewhere after => exact Iff.rfl

end Step

/-- In any history, from any tables in order: the defaults are in order after
every request, and every account that the user has not got is saved, if none
of them has a recipient code that a row of anybody's has. -/
theorem saved_iff_unclaimed {paystack : Paystack} {w : World} (h : Orderly w.db)
    {ops : List BankAccountOp}
    (hd : ∀ x ∈ BankAccountOp.steps paystack w ops, x.2.Occurs x.1) :
    (∀ x ∈ BankAccountOp.steps paystack w ops, x.2.InOrder paystack x.1) ∧
      ((∀ x ∈ BankAccountOp.steps paystack w ops, x.2.Succeeds paystack x.1) ↔
        ∀ x ∈ BankAccountOp.steps paystack w ops, x.2.Unclaimed paystack x.1) := by
  induction ops generalizing w with
  | nil => simp [BankAccountOp.steps]
  | cons op ops ih =>
      rw [BankAccountOp.steps] at hd ⊢
      have hhead : op.Occurs w := hd (w, op) List.mem_cons_self
      obtain ⟨hinOrder, hsucceeds⟩ := ih (h.step hhead) fun x hx =>
        hd x (List.mem_cons_of_mem _ hx)
      refine ⟨?_, ?_⟩
      · intro x hx
        cases List.mem_cons.mp hx with
        | inl heq =>
            subst heq
            exact h.inOrder hhead
        | inr hmem => exact hinOrder x hmem
      · rw [List.forall_mem_cons, List.forall_mem_cons, hsucceeds, h.succeeds_iff hhead]

/-! An account that is saved, removed and saved again, or saved by two users. -/

namespace Again

def paystack : Paystack :=
  { banks := [("058", "Bank")]
    resolveAccountNumber := fun _ _ => .ok "Ada"
    recipientCode := fun accountNumber bankCode => "RCP_" ++ bankCode ++ accountNumber }

def payload : BankAccountCreate :=
  { accountNumber := "0123456789", bankCode := "058"
    accountNumber_length := by decide, bankCode_length := by decide }

def chance (n : Nat) : Chance adehun :=
  { ids := fun k => n + k, replies := fun _ => .timeout, weather := fun _ => [] }

def start : World := ⟨fun _ => [], {}⟩

def saves (userId n : Nat) : BankAccountOp := .adds userId payload (chance n)

def removes : BankAccountOp := .removes 10 1 (chance 0)

theorem orderly : Orderly start.db where
  sound :=
    { keys := fun t => List.nodup_nil
      entries := Db.entriesDistinct_of_pairwise fun t => List.Pairwise.nil }
  active b hb := by cases hb

theorem knows : paystack.Knows payload := ⟨by decide, _, rfl⟩

theorem not_adds_of_isNone {userId : Id} {answer : Except Exn BankAccount} {after : Db adehun}
    (h : answer.toOption.isNone = true) : ¬Adds userId payload answer after := by
  intro ⟨b, hb, _⟩
  rw [hb] at h
  cases h

/-- The index over the recipient codes refuses the second row, although the first
is not active any more, or another user's. -/
theorem not_saved :
    (∀ x ∈ BankAccountOp.steps paystack start [saves 1 10, removes, saves 1 20, saves 2 30],
      x.2.Occurs x.1) ∧
    ¬(∀ x ∈ BankAccountOp.steps paystack start [saves 1 10, removes, saves 1 20],
      x.2.Succeeds paystack x.1) ∧
    ¬(∀ x ∈ BankAccountOp.steps paystack start [saves 1 10, saves 2 30],
      x.2.Succeeds paystack x.1) := by
  refine ⟨?_, ?_, ?_⟩
  · intro x hx
    simp only [BankAccountOp.steps, List.mem_cons, List.not_mem_nil, or_false] at hx
    rcases hx with rfl | rfl | rfl | rfl
    · rfl
    · trivial
    · show Db.lookup _ _ = none
      decide +kernel
    · show Db.lookup _ _ = none
      decide +kernel
  · intro h
    have hagain := h (removes.apply paystack ((saves 1 10).apply paystack start), saves 1 20)
      (by simp [BankAccountOp.steps])
    refine not_adds_of_isNone ?_ (hagain knows ?_)
    · decide +kernel
    · unfold Saved
      decide +kernel
  · intro h
    have hother := h ((saves 1 10).apply paystack start, saves 2 30)
      (by simp [BankAccountOp.steps])
    refine not_adds_of_isNone ?_ (hother knows ?_)
    · decide +kernel
    · unfold Saved
      decide +kernel

end Again

/-- Ada saves an account, and removes it. -/
theorem saved_iff_unclaimed_ada :
    (∀ x ∈ BankAccountOp.steps Again.paystack Again.start [Again.saves 1 10, Again.removes],
      x.2.InOrder Again.paystack x.1) ∧
    ((∀ x ∈ BankAccountOp.steps Again.paystack Again.start [Again.saves 1 10, Again.removes],
      x.2.Succeeds Again.paystack x.1) ↔
    ∀ x ∈ BankAccountOp.steps Again.paystack Again.start [Again.saves 1 10, Again.removes],
      x.2.Unclaimed Again.paystack x.1) := by
  refine saved_iff_unclaimed Again.orderly ?_
  intro x hx
  simp only [BankAccountOp.steps, List.mem_cons, List.not_mem_nil, or_false] at hx
  rcases hx with rfl | rfl
  · rfl
  · trivial

end Adehun
