import Adehun.Ownership

/-!
# A transfer that was carried out

A withdrawal debits the wallet, sends the transfer once, and has to decide on
the answer whether the money has left. What it takes for a refusal it
reverses; what it takes for an unknown outcome it leaves pending. The
question is whether a transfer that was carried out can be taken for one that
was refused.

`told` is the condition under which it is not: whenever the transfer is
answered, it is acknowledged, or the answer is a timeout or a body that no
field can be read from. Then no reversal of the withdrawal is ever written,
by whichever request, as long as nobody is told that the transfer failed.
-/

namespace Adehun

open Sessions

/-! ## Answers -/

/-- What `POST /transfer` can be answered with when the transfer was carried
out: it is acknowledged, or the answer is lost or of no use. -/
inductive CarriedOut : Transport → Prop
  | acknowledged (code : Nat) (message : String) (d : ProviderData) :
      code < 500 → CarriedOut (.response code (.object true message (.object d)))
  | timeout : CarriedOut .timeout
  | requestError : CarriedOut .requestError
  | serverError (code : Nat) (body : HttpBody) : 500 ≤ code → CarriedOut (.response code body)
  | notJson (code : Nat) : CarriedOut (.response code .notJson)
  | notAnObject (code : Nat) : CarriedOut (.response code .notAnObject)
  | noData (code : Nat) (message : String) :
      CarriedOut (.response code (.object true message .missing))
  | otherData (code : Nat) (message : String) :
      CarriedOut (.response code (.object true message .notAnObject))

/-- `CarriedOut`, decided: below 500, an answer of no success is a refusal. -/
def Transport.carries : Transport → Bool
  | .timeout | .requestError => true
  | .connectError => false
  | .response code (.object false _ _) => code ≥ 500
  | .response _ _ => true

theorem carries_iff {t : Transport} : t.carries = true ↔ CarriedOut t := by
  constructor
  · intro h
    match t, h with
    | .timeout, _ => exact .timeout
    | .requestError, _ => exact .requestError
    | .response code .notJson, _ => exact .notJson code
    | .response code .notAnObject, _ => exact .notAnObject code
    | .response code (.object false message data), h =>
        exact .serverError code _ (by simpa [Transport.carries] using h)
    | .response code (.object true message .missing), _ => exact .noData code message
    | .response code (.object true message .notAnObject), _ => exact .otherData code message
    | .response code (.object true message (.object d)), _ =>
        by_cases hcode : 500 ≤ code
        · exact .serverError code _ hcode
        · exact .acknowledged code message d (by omega)
  · intro h
    cases h with
    | serverError code body hcode =>
        unfold Transport.carries
        split <;> simp_all
    | _ => rfl

instance (t : Transport) : Decidable (CarriedOut t) :=
  decidable_of_iff _ carries_iff

/-- A broken connection, a server error, a body that is not JSON, or one
without `data`. -/
def Transport.mistaken : Transport → Bool
  | .requestError => true
  | .response code body => code ≥ 500 ||
      match body with
      | .notJson | .object true _ .missing => true
      | _ => false
  | _ => false

/-- The exceptions on which a withdrawal is reversed. -/
def Exn.refuses (e : Exn) : Bool := !e.outcomeUnknown && e.isPaystackError

@[simp] theorem refuses_paystackError (message : String) :
    (paystackError message).refuses = true := rfl

@[simp] theorem refuses_paystackTimeout : paystackTimeout.refuses = false := rfl

@[simp] theorem refuses_attribute : Exn.attribute.refuses = false := rfl

/-- A transfer that was carried out is taken for a refused one exactly on
these answers. -/
theorem CarriedOut.refuses_iff {t : Transport} (h : CarriedOut t) :
    (∃ e, t.outcome.1 = .error e ∧ e.refuses = true) ↔ t.mistaken = true := by
  cases h with
  | timeout | requestError => simp [Transport.outcome, Transport.mistaken]
  | acknowledged code message d hcode =>
      simp [Transport.outcome, Transport.mistaken, parse, Nat.not_le.mpr hcode]
  | serverError code body hcode => simp [Transport.outcome, Transport.mistaken, hcode]
  | notJson code | notAnObject code | noData code message | otherData code message =>
      by_cases hcode : 500 ≤ code
      · simp [Transport.outcome, Transport.mistaken, hcode]
      · simp [Transport.outcome, Transport.mistaken, hcode, parse]

/-- What the provider says of a transfer that failed. -/
def ProviderStatus.isFailure : ProviderStatus → Bool
  | .failed | .reversed | .abandoned => true
  | .success | .other => false

/-- A signed event says that a transfer failed or was reversed. -/
def Request.reportsFailed (r : PaystackReference) : Request → Bool
  | .webhook true (.event .transferFailed (.object d)) _
  | .webhook true (.event .transferReversed (.object d)) _ => d.reference = some r
  | _ => false

/-- A transfer is answered as one that was carried out, and not with what is
taken for a refusal; the provider never says that it failed. -/
def told (r : PaystackReference) : Guard adehun where
  exec _ _ s c :=
    match s with
    | .await (.provider (.initiateTransfer _ _ reference _)) =>
        reference = r → ∀ t, c.reply = some t → CarriedOut t ∧ t.mistaken = false
    | .await (.provider (.verifyTransfer reference)) =>
        reference = r → ∀ t d, c.reply = some t → t.outcome.1 = .ok (some d) →
          d.status.isFailure = false
    | _ => True

/-- `told`, tested. -/
def told.test (r : PaystackReference) : (told r).Test where
  exec _ _ s c :=
    match s with
    | .await (.provider (.initiateTransfer _ _ reference _)) =>
        reference ≠ r || c.reply.all fun t : Transport => decide (CarriedOut t) && !t.mistaken
    | .await (.provider (.verifyTransfer reference)) =>
        reference ≠ r || c.reply.all fun t : Transport =>
          match t.outcome.1 with
          | .ok (some d) => !d.status.isFailure
          | _ => true
    | _ => true
  exec_sound := by
    intro X w i s c h
    unfold told
    dsimp only
    split
    · intro hr t ht
      simp only [hr, ht] at h
      simpa using h
    · intro hr t d ht hd
      simp only [hr, ht] at h
      simpa [hd] using h
    · trivial
  flush_sound _ := trivial

/-! ## What stands -/

/-- What a ledger entry moved, and where. -/
def Transaction.moved (t : Transaction) : Reference × Id × Kobo × Kobo × Kobo :=
  (t.reference, t.walletId, t.amount, t.availableDelta, t.escrowDelta)

/-- A record is neither failed nor refunded. -/
def PaystackTransaction.Open (p : PaystackTransaction) : Prop :=
  p.status = .pending ∨ p.status = .success

/-- No withdrawal with the reference is reversed. -/
structure Unreversed (r : PaystackReference) (db : Db adehun) : Prop where
  entry : ¬ Posted db (.reversal r)
  record : ∀ id (p : PaystackTransaction),
    db.lookup ⟨Table.paystackTransaction, id⟩ = some p → p.reference = r → p.Open

/-- What a transition of the committed tables must be: the debits that were
there stay, and nothing is reversed. -/
structure StandsPaid (r : PaystackReference) (db db' : Db adehun) : Prop extends
    Unreversed r db' where
  debit : ∀ t ∈ (db .transaction : List Transaction), t.reference = .withdrawal r →
    ∃ t' ∈ (db' .transaction : List Transaction), t'.id = t.id ∧ t'.moved = t.moved

/-! ## What a session has to own -/

/-- The record is another's. -/
abbrev NotOf (r : PaystackReference) (db : Db adehun) (id : Id) : Prop :=
  db.Has Table.paystackTransaction (fun p : PaystackTransaction => p.reference ≠ r) id

/-- What a session may write without looking: nothing is deleted or renamed,
no reversal is entered, and no record is added that is not open. -/
structure Harmless (r : PaystackReference) (d : Write adehun) : Prop where
  entries : d.Retains Table.transaction Transaction.moved
  records : d.Retains Table.paystackTransaction PaystackTransaction.reference
  reversal : ∀ t, d = Write.insert Table.transaction t →
    (t : Transaction).reference ≠ .reversal r
  opening : ∀ p, d = Write.insert Table.paystackTransaction p →
    (p : PaystackTransaction).reference = r → (p : PaystackTransaction).Open

/-- A session asks for harmless writes; where it lets a record fail, the
record is another's. -/
structure Spares (r : PaystackReference) (i : Nat) (w : World adehun) : Prop where
  harmless : ∀ d ∈ asked w i, Harmless r d
  view : ∀ id (p : PaystackTransaction),
    (w.view i).lookup ⟨Table.paystackTransaction, id⟩ = some p → p.reference = r → p.Open
  updates : ∀ id (f : Patch adehun .paystackTransaction),
    Write.update Table.paystackTransaction id f ∈ (w.tx i).dirty →
      (∀ p : PaystackTransaction, p.Open → PaystackTransaction.Open (f.run p)) ∨
        NotOf r (w.view i) id
  objects : ∀ id (p : PaystackTransaction),
    (w.tx i).objects ⟨Table.paystackTransaction, id⟩ = some p → p.id = id

section NotOf

variable {r : PaystackReference} {db : Db adehun} {id : Id}

theorem NotOf.apply (h : NotOf r db id) {d : Write adehun}
    (hd : d.Retains Table.paystackTransaction PaystackTransaction.reference) :
    NotOf r (d.apply db) id := by
  obtain ⟨p, hp, href⟩ := h
  obtain ⟨p', hp', hsame⟩ := Write.lookup_apply_of_retains hd hp
  refine ⟨p', hp', ?_⟩
  show PaystackTransaction.reference p' ≠ r
  rw [hsame]
  exact href

/-- An open record stays open under a harmless write that is not about to let
it fail. -/
theorem open_apply {d : Write adehun} (hd : Harmless r d) (hr : d.refusal db = none)
    (hopen : ∀ id (p : PaystackTransaction),
      db.lookup ⟨Table.paystackTransaction, id⟩ = some p → p.reference = r → p.Open)
    (hupdate : ∀ id (f : Patch adehun .paystackTransaction),
      d = Write.update Table.paystackTransaction id f →
        (∀ p : PaystackTransaction, p.Open → PaystackTransaction.Open (f.run p)) ∨
          NotOf r db id) {p : PaystackTransaction}
    (hp : (d.apply db).lookup ⟨Table.paystackTransaction, id⟩ = some p) (href : p.reference = r) :
    p.Open := by
  by_cases hk : d.key = ⟨Table.paystackTransaction, id⟩
  · cases d with
    | insert t p' =>
        cases hk
        rw [Write.lookup_insert_self (Write.insert_free hr).1] at hp
        cases hp
        exact hd.opening p rfl href
    | update t id' f =>
        cases hk
        rw [Write.lookup_update] at hp
        obtain ⟨p₀, hp₀, hrun⟩ := Option.map_eq_some_iff.mp hp
        rw [if_pos rfl] at hrun
        subst hrun
        have hsame : PaystackTransaction.reference (f.run p₀) = PaystackTransaction.reference p₀ :=
          hd.records rfl p₀
        rw [hsame] at href
        rcases hupdate id f rfl with hbenign | ⟨p₁, hp₁, hne⟩
        · exact hbenign p₀ (hopen id p₀ hp₀ href)
        · rw [hp₀] at hp₁
          cases hp₁
          exact absurd href hne
    | delete t id' =>
        cases hk
        exact absurd rfl hd.records
  · rw [Write.lookup_apply_of_ne _ hk] at hp
    exact hopen id p hp href

end NotOf

namespace Spares

variable {r : PaystackReference} {i j : Nat} {w w' : World adehun}

theorem of_fresh {b : Bool} (hgood : Unreversed r w.db) (htx : w.tx i = { aborted := b }) :
    Spares r i w := by
  have hview : w.view i = w.db := by
    rw [World.view, htx]
    rfl
  refine ⟨?_, ?_, ?_, ?_⟩
  · simp [htx]
  · rw [hview]
    exact hgood.record
  · simp [htx]
  · simp [htx]

theorem congr (h : Spares r i w) (hdb : w'.db = w.db)
    (hwrites : (w'.tx i).writes = (w.tx i).writes) (hdirty : (w'.tx i).dirty = (w.tx i).dirty)
    (hobjects : ∀ id (p : PaystackTransaction),
      (w'.tx i).objects ⟨Table.paystackTransaction, id⟩ = some p → p.id = id) :
    Spares r i w' := by
  have hview := World.view_congr hdb hwrites
  refine ⟨?_, ?_, ?_, hobjects⟩
  · rw [asked, hwrites, hdirty]
    exact h.harmless
  · rw [hview]
    exact h.view
  · rw [hdirty, hview]
    exact h.updates

theorem remember (h : Spares r i w) (k : Key adehun) :
    Spares r i (w.remember i k ((w.view i).lookup k)) := by
  refine h.congr (World.setTx_db _ _ _) (by rw [World.remember, World.setTx_tx_self])
    (by rw [World.remember, World.setTx_tx_self]) ?_
  intro id p hp
  simp only [World.remember, World.setTx_tx_self] at hp
  by_cases hk : k = ⟨Table.paystackTransaction, id⟩
  · subst hk
    rw [Function.update_self] at hp
    exact Db.lookup_id hp
  · rw [Function.update_of_ne (Ne.symm hk)] at hp
    exact h.objects id p hp

/-- A harmless write may be staged, if what it lets fail is another's. -/
theorem stage (h : Spares r i w) {d : Write adehun} (hd : Harmless r d)
    (hupdate : ∀ id (f : Patch adehun .paystackTransaction),
      d = Write.update Table.paystackTransaction id f →
        (∀ p : PaystackTransaction, p.Open → PaystackTransaction.Open (f.run p)) ∨
          NotOf r (w.view i) id) : Spares r i (w.stage i d) := by
  have hview : (w.stage i d).view i = w.view i :=
    World.view_congr (World.stage_db w i d) (World.stage_writes w i d)
  refine ⟨?_, ?_, ?_, ?_⟩
  · intro e he
    rw [asked_stage, List.mem_append, List.mem_singleton] at he
    rcases he with he | rfl
    · exact h.harmless e he
    · exact hd
  · rw [hview]
    exact h.view
  · intro id f hf
    rw [World.stage_dirty, List.mem_append, List.mem_singleton] at hf
    rw [hview]
    rcases hf with hf | rfl
    · exact h.updates id f hf
    · exact hupdate id f rfl
  · intro id p hp
    cases d with
    | insert t row =>
        by_cases hk : (⟨t, rowId row⟩ : Key adehun) = ⟨Table.paystackTransaction, id⟩
        · cases hk
          simp only [World.stage, World.setTx_tx_self, Function.update_self] at hp
          cases hp
          rfl
        · simp only [World.stage, World.setTx_tx_self] at hp
          rw [Function.update_of_ne (Ne.symm hk)] at hp
          exact h.objects id p hp
    | update t id' f =>
        by_cases hk : (⟨t, id'⟩ : Key adehun) = ⟨Table.paystackTransaction, id⟩
        · cases hk
          simp only [World.stage, World.setTx_tx_self, Function.update_self] at hp
          obtain ⟨p₀, hp₀, rfl⟩ := Option.map_eq_some_iff.mp hp
          exact (f.id_run p₀).trans (h.objects id p₀ hp₀)
        · simp only [World.stage, World.setTx_tx_self] at hp
          rw [Function.update_of_ne (Ne.symm hk)] at hp
          exact h.objects id p hp
    | delete t id' =>
        by_cases hk : (⟨t, id'⟩ : Key adehun) = ⟨Table.paystackTransaction, id⟩
        · cases hk
          simp only [World.stage, World.setTx_tx_self, Function.update_self] at hp
          cases hp
        · simp only [World.stage, World.setTx_tx_self] at hp
          rw [Function.update_of_ne (Ne.symm hk)] at hp
          exact h.objects id p hp

theorem put (h : Spares r i w) {d : Write adehun} (hd : Harmless r d)
    (hr : d.refusal (w.view i) = none)
    (hupdate : ∀ id (f : Patch adehun .paystackTransaction),
      d = Write.update Table.paystackTransaction id f →
        (∀ p : PaystackTransaction, p.Open → PaystackTransaction.Open (f.run p)) ∨
          NotOf r (w.view i) id) : Spares r i (w.put i d) := by
  refine ⟨?_, ?_, ?_, ?_⟩
  · intro e he
    rw [asked, World.put_tx_self, List.mem_append, List.mem_append, List.mem_singleton] at he
    rcases he with (he | rfl) | he
    · exact h.harmless e (List.mem_append_left _ he)
    · exact hd
    · exact h.harmless e (List.mem_append_right _ he)
  · intro id p hp href
    rw [World.put_view] at hp
    exact open_apply hd hr h.view hupdate hp href
  · intro id f hf
    rw [World.put_tx_self] at hf
    rw [World.put_view]
    exact (h.updates id f hf).imp_right fun helse => helse.apply hd.records
  · rw [World.put_tx_self]
    exact h.objects

theorem send (h : Spares r i w) {d : Write adehun} {ds : List (Write adehun)}
    (hdirty : (w.tx i).dirty = d :: ds) (hr : d.refusal (w.view i) = none) :
    Spares r i ((w.put i d).setTx i
      { w.tx i with writes := (w.tx i).writes ++ [d], dirty := ds }) := by
  have hput : Spares r i (w.put i d) := by
    refine h.put (h.harmless d (by simp [hdirty])) hr ?_
    rintro id f rfl
    exact h.updates id f (by simp [hdirty])
  have hview : ((w.put i d).setTx i
      { w.tx i with writes := (w.tx i).writes ++ [d], dirty := ds }).view i =
        (w.put i d).view i := by
    refine World.view_congr (World.setTx_db _ _ _) ?_
    rw [World.setTx_tx_self, World.put_tx_self]
  refine ⟨?_, ?_, ?_, ?_⟩
  · intro e he
    refine hput.harmless e ?_
    rw [asked, World.setTx_tx_self, List.mem_append] at he
    rw [asked, World.put_tx_self, hdirty]
    rcases he with he | he
    · exact List.mem_append_left _ he
    · exact List.mem_append_right _ (List.mem_cons_of_mem d he)
  · rw [hview]
    exact hput.view
  · intro id f hf
    rw [hview]
    refine hput.updates id f ?_
    rw [World.setTx_tx_self] at hf
    rw [World.put_tx_self, hdirty]
    exact List.mem_cons_of_mem d hf
  · rw [World.setTx_tx_self]
    exact h.objects

/-- What a commit makes of the tables. -/
theorem committed (h : Spares r i w) (hw : w.WF) (hgood : Unreversed r w.db) :
    StandsPaid r w.db (w.view i) := by
  have hretains : ∀ d ∈ (w.tx i).writes, d.Retains Table.transaction Transaction.moved :=
    fun d hd => (h.harmless d (List.mem_append_left _ hd)).entries
  refine ⟨⟨?_, h.view⟩, ?_⟩
  · rintro ⟨t, ht, href⟩
    rcases Db.lookup_of_retains hretains ((hw.view_keys i).lookup ht) with
      ⟨t₀, h₀, hsame⟩ | ⟨t₀, h₀, -, hsame⟩
    · exact hgood.entry ⟨t₀, Db.lookup_mem h₀, (congrArg Prod.fst hsame).trans href⟩
    · exact (h.harmless _ (List.mem_append_left _ h₀)).reversal t₀ rfl
        ((congrArg Prod.fst hsame).trans href)
  · intro t ht _
    obtain ⟨t', ht', hsame⟩ := Db.lookup_applyAll_of_retains hretains (hw.keys.lookup ht)
    exact ⟨t', Db.lookup_mem ht', Db.lookup_id ht', hsame⟩

/-- What is another's in the committed tables is so in the view. -/
theorem preserves (h : Spares r i w) : World.Preserves Table.paystackTransaction
    (fun p : PaystackTransaction => p.reference ≠ r) i w := by
  intro id hid
  obtain ⟨p, hp, href⟩ := hid
  have hretains : ∀ d ∈ (w.tx i).writes,
      d.Retains Table.paystackTransaction PaystackTransaction.reference :=
    fun d hd => (h.harmless d (List.mem_append_left _ hd)).records
  obtain ⟨p', hp', hsame⟩ := Db.lookup_applyAll_of_retains hretains hp
  refine ⟨p', hp', ?_⟩
  show PaystackTransaction.reference p' ≠ r
  rw [hsame]
  exact href

/-- The commits of others leave a session what it owns. -/
theorem commit (hj : Spares r j w) (hi : Spares r i w) (hne : j ≠ i) (hw : w.WF) :
    Spares r j (w.commit i) := by
  have htx : (w.commit i).tx j = w.tx j := World.commit_tx_of_ne w hne
  refine ⟨by rw [asked, htx]; exact hj.harmless, ?_, ?_, by rw [htx]; exact hj.objects⟩
  · intro id p hp href
    by_cases hti : w.Touches i ⟨Table.paystackTransaction, id⟩
    · have htj : ¬ (w.commit i).Touches j ⟨Table.paystackTransaction, id⟩ := by
        rw [World.Touches, htx]
        exact hw.not_touches hne hti
      rw [World.lookup_view_of_not_touches htj, World.commit_db] at hp
      exact hi.view id p hp href
    · rw [World.lookup_view_commit hne hti] at hp
      exact hj.view id p hp href
  · intro id f hf
    rw [htx] at hf
    exact (hj.updates id f hf).imp_right fun helse =>
      World.has_view_commit hne hw hi.preserves helse

end Spares

/-- What a session knows of a record: nothing, that the one it has added will
be another's, or that one it sees is. -/
inductive Grip
  | nothing
  | adding (id : Id)
  | known (id : Id)

/-- What there is to a session's grip. -/
def Grip.Holds (r : PaystackReference) (i : Nat) (w : World adehun) : Grip → Prop
  | .nothing => True
  | .adding id => NotOf r (w.view i) id ∨
      ∃ p, Write.insert Table.paystackTransaction p ∈ (w.tx i).dirty ∧
        (p : PaystackTransaction).id = id ∧ (p : PaystackTransaction).reference ≠ r
  | .known id => NotOf r (w.view i) id

theorem Grip.Holds.of_view {r : PaystackReference} {i : Nat} {w w' : World adehun} {g : Grip}
    (h : g.Holds r i w) (hview : w'.view i = w.view i)
    (hdirty : (w'.tx i).dirty = (w.tx i).dirty) : g.Holds r i w' := by
  cases g with
  | nothing => trivial
  | adding id =>
      show NotOf r (w'.view i) id ∨ _
      rw [hview, hdirty]
      exact h
  | known id =>
      show NotOf r (w'.view i) id
      rw [hview]
      exact h

/-- Nothing with the reference is reversed: as a discipline. -/
def sparing (r : PaystackReference) : Discipline adehun where
  Ghost := Grip
  rest := .nothing
  Commits _ := True
  rest_commits := trivial
  Good := Unreversed r
  Own g i w := Spares r i w ∧ g.Holds r i w
  guard := told r
  own_congr := by
    rintro g i w w' hdb htx - ⟨h, hg⟩
    refine ⟨h.congr hdb (by rw [htx]) (by rw [htx]) (by rw [htx]; exact h.objects), ?_⟩
    exact hg.of_view (World.view_congr hdb (by rw [htx])) (by rw [htx])
  own_init := by
    rintro i w hgood ⟨b, htx⟩
    exact ⟨.of_fresh hgood htx, trivial⟩
  own_remember := by
    rintro g i w k - ⟨h, hg⟩
    refine ⟨h.remember k, hg.of_view (World.view_congr (World.setTx_db _ _ _) ?_) ?_⟩
    all_goals rw [World.remember, World.setTx_tx_self]
  own_send := by
    rintro g i w d ds - - - hd - hr ⟨h, hg⟩
    have hharmless := h.harmless d (by simp [hd])
    have hview : ((w.put i d).setTx i
        { w.tx i with writes := (w.tx i).writes ++ [d], dirty := ds }).view i =
          d.apply (w.view i) := by
      rw [← World.put_view]
      refine World.view_congr (World.setTx_db _ _ _) ?_
      rw [World.setTx_tx_self, World.put_tx_self]
    refine ⟨h.send hd hr, ?_⟩
    cases g with
    | nothing => trivial
    | known id =>
        show NotOf r (World.view _ i) id
        rw [hview]
        exact NotOf.apply hg hharmless.records
    | adding id =>
        show NotOf r (World.view _ i) id ∨ _
        rw [hview, World.setTx_tx_self]
        rcases hg with hg | ⟨p, hp, hid, href⟩
        · exact Or.inl (hg.apply hharmless.records)
        · rw [hd, List.mem_cons] at hp
          rcases hp with rfl | hp
          · refine Or.inl ⟨p, ?_, href⟩
            rw [← hid]
            exact Write.lookup_insert_self (Write.insert_free hr).1
          · exact Or.inr ⟨p, hp, hid, href⟩
  good_commit _ hw hgood _ h := (h.1.committed hw hgood).toUnreversed
  own_commit := by
    rintro g g' i j w hne - hw - - ⟨hi, -⟩ ⟨hj, hg⟩
    have helse : ∀ id, NotOf r (w.view j) id → NotOf r ((w.commit i).view j) id :=
      fun id h => World.has_view_commit hne hw hi.preserves h
    refine ⟨hj.commit hi hne hw, ?_⟩
    cases g' with
    | nothing => trivial
    | known id => exact helse id hg
    | adding id =>
        refine hg.imp (helse id) ?_
        rw [World.commit_tx_of_ne w hne]
        exact fun h => h

/-! ## Asking the provider -/

section Provider

variable {D : Discipline adehun} {g : D.Ghost} {i : Nat} {w : World adehun}

/-- An answer is one that the guard lets through. -/
theorem safe_await {c : Call} {P : Transport → Prop}
    (hP : ∀ w i x t, D.guard.exec w i (.await c) x → x.reply = some t → P t)
    (ho : D.Own g i w) :
    Safe D.logic i (fun t w => D.Own g i w ∧ P t) (fun _ _ => False)
      (.perform (Stmt.await (M := adehun) c)) w := by
  refine safe_perform ?_
  intro w₁ hr hi
  refine ⟨trivial, ?_⟩
  intro x r w₂ he hg
  obtain ⟨t, ht, hres⟩ := Option.map_eq_some_iff.mp he
  cases hres
  exact ⟨hi, fun j _ => D.logic.refl j w₁, hr.2 g ho, hP w₁ i x t hg ht⟩

/-- How a request ends is decided by one of the answers. -/
theorem safe_requestFrom {q : ProviderRequest} {P : Transport → Prop}
    (hP : ∀ w i x t, D.guard.exec w i (.await (.provider q)) x → x.reply = some t → P t)
    (attempt left : Nat) (ho : D.Own g i w) :
    Safe D.logic i (fun x w => D.Own g i w ∧ ∃ t, P t ∧ t.outcome.1 = .ok x)
      (fun e w => D.Own g i w ∧ ∃ t, P t ∧ t.outcome.1 = .error e)
      (requestFrom q attempt left) w := by
  have hlast : ∀ (t : Transport) w, D.Own g i w ∧ P t →
      Safe D.logic i (fun x w => D.Own g i w ∧ ∃ t, P t ∧ t.outcome.1 = .ok x)
        (fun e w => D.Own g i w ∧ ∃ t, P t ∧ t.outcome.1 = .error e)
        (ofExcept t.outcome.1) w := by
    intro t w h
    cases hout : t.outcome.1 with
    | ok x => exact ⟨h.1, t, h.2, hout⟩
    | error e => exact ⟨h.1, t, h.2, hout⟩
  induction left generalizing attempt w with
  | zero => exact safe_bind (safe_mono hlast (fun _ _ h => h.elim) (safe_await hP ho))
  | succ left ih =>
      refine safe_bind (safe_mono ?_ (fun _ _ h => h.elim) (safe_await hP ho))
      intro t w₁ h
      split
      · refine safe_bind (safe_mono ?_ (fun _ _ h => h.elim)
          (safe_await (P := fun _ => True) (fun _ _ _ _ _ _ => trivial) h.1))
        exact fun _ w₂ h₂ => ih (attempt + 1) h₂.1
      · exact hlast t w₁ h

end Provider

/-! ## The requests -/

section Requests

variable {r reference : PaystackReference} {i : Nat} {w : World adehun}

/-- A record that is locked under another reference is another's. -/
theorem safe_getPaystackTransaction (hne : reference ≠ r) (ho : (sparing r).Own .nothing i w) :
    Safe (sparing r).logic i
      (fun found w => (sparing r).Own .nothing i w ∧
        ∀ row, found = some row → (sparing r).Own (.known row.id) i w)
      (fun _ w => (sparing r).Own .nothing i w) (getPaystackTransaction reference) w := by
  have hquiet : (Stmt.lock (M := adehun) Table.paystackTransaction fun db =>
      ((db .paystackTransaction : List PaystackTransaction).find? fun p =>
        p.reference = reference).map (·.id)).Quiet := trivial
  refine safe_perform ?_
  intro w₁ hr hi
  have ho₁ := hr.2 _ ho
  refine ⟨trivial, ?_⟩
  intro c res w₂ he _
  obtain ⟨h₁, h₂⟩ := (sparing r).exec_others hi he
    (fun _ => Or.inr (World.exec_db_of_quiet hquiet he))
  refine ⟨h₁, h₂, ?_⟩
  have ho₂ : (sparing r).Own .nothing i w₂ :=
    ((sparing r).own_quiet hi hquiet ho₁ he).elim (fun h => h) fun h => h.1
  cases res with
  | error e => exact ho₂
  | ok found =>
      refine ⟨ho₂, ?_⟩
      rintro row rfl
      obtain ⟨id, hid, -, -, hanswer, hw₂⟩ := World.exec_lock_some he
      obtain ⟨p, hp, rfl⟩ := Option.map_eq_some_iff.mp hid
      have href : p.reference = reference := by simpa using List.find?_some hp
      have hrow := (hi.1.view_keys i).lookup (t := Table.paystackTransaction)
        (List.mem_of_find?_eq_some hp)
      have hrowid : row.id = p.id := by
        unfold World.answer at hanswer
        split at hanswer
        · next o hobj =>
            split at hanswer
            · cases hanswer
              exact ho₁.1.objects p.id _ hobj
            · exact Db.lookup_id hanswer
        · exact Db.lookup_id hanswer
      have hview : w₂.view i = w₁.view i := by
        rw [hw₂]
        refine World.view_congr (by rw [World.remember, World.setTx_db, World.acquire_db]) ?_
        rw [World.remember, World.setTx_tx_self, World.acquire_tx]
      refine ⟨ho₂.1, ?_⟩
      show NotOf r (w₂.view i) row.id
      rw [hview, hrowid]
      refine ⟨p, hrow, ?_⟩
      show p.reference ≠ r
      rw [href]
      exact hne

/-- What may be staged at any time. -/
theorem keeps_harmless {d : Write adehun} (hd : Harmless r d)
    (hupdate : ∀ id (f : Patch adehun .paystackTransaction),
      d = Write.update Table.paystackTransaction id f →
        ∀ p : PaystackTransaction, p.Open → PaystackTransaction.Open (f.run p)) :
    (sparing r).Keeps (.perform (.stage d)) :=
  (sparing r).keeps_perform fun _ _ _ _ ho =>
    ⟨ho.1.stage hd fun id f hf => Or.inl (hupdate id f hf), trivial⟩

theorem harmless_of_ne {d : Write adehun} (ht : d.key.table ≠ .transaction)
    (hp : d.key.table ≠ .paystackTransaction) : Harmless r d where
  entries := Write.retains_of_ne ht
  records := Write.retains_of_ne hp
  reversal := by
    rintro t rfl
    exact absurd rfl ht
  opening := by
    rintro p rfl
    exact absurd rfl hp

/-- A record of another reference may fail. -/
theorem safe_setFailed {id : Id} (status : TransactionStatus) (reason : String)
    (ho : (sparing r).Own (.known id) i w) :
    Safe (sparing r).logic i (fun _ w => (sparing r).Own .nothing i w)
      (fun _ w => (sparing r).Own .nothing i w)
      (assign .paystackTransaction id (setFailed status reason)) w := by
  refine (sparing r).safe_stage ?_
  intro w₁ hr hi
  have ho₁ := hr.2 _ ho
  refine ⟨ho₁.1.stage ?_ ?_, trivial⟩
  · exact {
      entries := Write.retains_of_ne (by simp [Write.key])
      records := fun _ _ => rfl
      reversal := fun _ h => by cases h
      opening := fun _ h => by cases h }
  · intro id' f hf
    cases hf
    exact Or.inr ho₁.2

theorem routine_sparing : Routine fun _ p => (sparing r).Keeps p := by
  have hne : ∀ {d : Write adehun} {t : Table}, Side d → guarded t → d.key.table ≠ t := by
    rintro d t hd ht rfl
    rw [Side, ht] at hd
    cases hd
  have hno : ∀ {d : Write adehun} {id : Id} {f : Patch adehun .paystackTransaction}, Side d →
      d ≠ Write.update Table.paystackTransaction id f := by
    rintro d id f hd rfl
    cases hd
  refine routine_keeps ?_ ?_
  · intro d hd i w _ _ ho
    exact ⟨ho.1.stage (harmless_of_ne (hne hd rfl) (hne hd rfl)) fun _ _ h => absurd h (hno hd),
      trivial⟩
  · intro d hd i w _ _ ho _ hr
    exact ⟨ho.1.put (harmless_of_ne (hne hd rfl) (hne hd rfl)) hr
      fun _ _ h => absurd h (hno hd), trivial⟩

theorem sparing_ensureWallet (u : Id) : (sparing r).Keeps (ensureWallet u) := by
  refine routine_sparing.keeps_ensureWallet (fun x u i w _ _ ho _ hr => ⟨ho.1.put ?_ hr ?_,
    trivial⟩) u
  · exact harmless_of_ne (by simp [newWallet, Write.key]) (by simp [newWallet, Write.key])
  · intro id f h
    cases h

theorem sparing_assign {t : Table} (id : Id) (f : Patch adehun t) (ht : t ≠ .transaction)
    (hp : t ≠ .paystackTransaction) : (sparing r).Keeps (assign t id f) := by
  refine keeps_harmless (harmless_of_ne ht hp) ?_
  intro id' f' h
  cases h
  exact absurd rfl hp

theorem sparing_add {t : Table} (row : t.Row) (ht : t ≠ .transaction)
    (hp : t ≠ .paystackTransaction) : (sparing r).Keeps (add t row) :=
  keeps_harmless (harmless_of_ne ht hp) fun _ _ h => by cases h

/-- A record restated, where what is open stays open. -/
theorem sparing_record (id : Id) (f : Patch adehun .paystackTransaction)
    (href : ∀ p, PaystackTransaction.reference (f.run p) = PaystackTransaction.reference p)
    (hopen : ∀ p : PaystackTransaction, p.Open → PaystackTransaction.Open (f.run p)) :
    (sparing r).Keeps (assign .paystackTransaction id f) := by
  refine keeps_harmless
    { entries := Write.retains_of_ne (by simp [Write.key])
      records := fun _ => href
      reversal := fun _ h => by cases h
      opening := fun _ h => by cases h } ?_
  intro id' f' h
  cases h
  exact hopen

theorem sparing_entryStatus (id : Id) (status : LedgerEntryStatus) (time : Option Nat) :
    (sparing r).Keeps (assign .transaction id (setEntryStatus status time)) :=
  keeps_harmless
    { entries := fun _ _ => rfl
      records := Write.retains_of_ne (by simp [Write.key])
      reversal := fun _ h => by cases h
      opening := fun _ h => by cases h }
    fun _ _ h => by cases h

theorem sparing_entry {e : Transaction} (he : e.reference ≠ .reversal r) :
    (sparing r).Keeps (add .transaction e) := by
  refine keeps_harmless
    { entries := trivial
      records := trivial
      reversal := ?_
      opening := fun _ h => by cases h } fun _ _ h => by cases h
  intro t h
  cases h
  exact he

theorem sparing_applyEntry {a : EntryArgs} (ha : a.reference ≠ .reversal r) :
    (sparing r).Keeps (applyEntry a) := by
  refine routine_sparing.applyEntry sparing_ensureWallet (routine_sparing.lockedEntry ?_ ?_)
  · exact fun id x y => sparing_assign id _ (by decide) (by decide)
  · intro e he
    exact sparing_entry (by rw [he]; exact ha)

theorem sparing_applyTransfer (g : GroupId) (debit credit : LedgerLeg) :
    (sparing r).Keeps (applyTransfer g debit credit) := by
  refine routine_sparing.applyTransfer sparing_ensureWallet fun a b =>
    routine_sparing.lockedTransfer ?_ ?_ a b
  · exact fun id x y => sparing_assign id _ (by decide) (by decide)
  · intro e he
    refine sparing_entry ?_
    rcases he with he | he <;> simp [he, LedgerLeg.asArgs]

theorem sparing_escrowSide : EscrowSide fun _ p => (sparing r).Keeps p := by
  have h := routine_sparing (r := r)
  have hstatus : ∀ id s, (sparing r).Keeps (assign .agreement id (setStatus s)) :=
    fun id s => sparing_assign id _ (by decide) (by decide)
  exact {
    newAgreement := fun _ _ => sparing_add _ (by decide) (by decide)
    agreementStatus := hstatus
    underReview := fun id => sparing_assign id _ (by decide) (by decide)
    resolution := fun id _ _ _ => sparing_assign id _ (by decide) (by decide)
    raised := fun _ _ _ _ _ _ => h.raiseDisputeOrNot (h.raiseDisputeRows hstatus
      (fun _ _ => sparing_add _ (by decide) (by decide)) _ _ _ _ _)
    lockEscrow := fun _ _ _ _ _ _ => sparing_applyEntry (by simp)
    release := h.performEscrowRelease hstatus fun _ _ _ _ _ => sparing_applyTransfer _ _ _
    refund := h.performEscrowRefund hstatus fun _ _ _ _ => sparing_applyEntry (by simp) }

/-- A withdrawal of another reference is reversed. -/
theorem sparing_reverseWithdrawal (hne : reference ≠ r) (u : Id) (amount : Kobo)
    (reason : String) : (sparing r).Keeps (reverseWithdrawal reference u amount reason) := by
  have h := routine_sparing (r := r)
  have hrest : ∀ _ : Unit, (sparing r).Keeps (do
      let _ ← markEntryStatus (.withdrawal reference) .reversed none false
      let _ ← applyEntry
        { userId := u
          entryType := .withdrawalReversal
          amount := amount
          reference := .reversal reference
          description := some "Withdrawal could not be sent" } : App Unit) := by
    intro _
    refine h.bind (h.markEntryStatus sparing_entryStatus _ _ _ _) fun _ => ?_
    exact h.bind (sparing_applyEntry (by simpa using hne)) fun _ => h.ret _
  intro i w ho
  refine safe_bind (safe_mono ?_ (fun _ _ h => h) (safe_getPaystackTransaction hne ho))
  intro found w₁ ⟨ho₁, hknown⟩
  cases found with
  | none => exact hrest () i w₁ ho₁
  | some row =>
      refine safe_bind (safe_mono ?_ (fun _ _ h => h)
        (safe_setFailed .failed reason (hknown row rfl)))
      intro _ w₂ ho₂
      exact h.bind (h.savePaystackTransaction _ _) (fun _ => hrest ()) i w₂ ho₂

/-- What a session knows of a record it may forget. -/
theorem sparing_letGo {g : Grip} (h : (sparing r).Own g i w) : (sparing r).Own .nothing i w :=
  ⟨h.1, trivial⟩

/-- A row that is read again is the row it was. -/
theorem safe_refresh {D : Discipline adehun} {g : D.Ghost} {t : Table} {id : Id}
    (ho : D.Own g i w) :
    Safe D.logic i
      (fun row w => D.Own g i w ∧ rowId row = id ∧ (w.tx i).dirty = [])
      (fun _ w => D.Own g i w ∨ D.Own D.rest i w) (refresh t id) w := by
  have hquiet : (Stmt.refresh (M := adehun) ⟨t, id⟩).Quiet := trivial
  refine safe_perform ?_
  intro w₁ hr hi
  have ho₁ := hr.2 g ho
  refine ⟨trivial, ?_⟩
  intro c res w₂ he _
  obtain ⟨h₁, h₂⟩ := D.exec_others hi he fun _ => Or.inr (World.exec_db_of_quiet hquiet he)
  refine ⟨h₁, h₂, ?_⟩
  have hown := D.own_quiet hi hquiet ho₁ he
  cases res with
  | error e => exact hown.imp_right And.left
  | ok row =>
      refine ⟨hown.resolve_right (fun ⟨_, e, he⟩ => by cases he), ?_⟩
      rcases World.sql_cases he with ⟨e, he, -⟩ | ⟨-, hd, hb⟩
      · cases he
      · split at hb
        · cases hb
        · next o hlook =>
            cases hb
            refine ⟨Db.lookup_id hlook, ?_⟩
            rw [World.remember, World.setTx_tx_self]
            exact hd rfl

/-- A record that is added under another reference is another's. -/
theorem safe_createOther {row : PaystackTransaction} (hne : row.reference ≠ r)
    (ho : (sparing r).Own .nothing i w) :
    Safe (sparing r).logic i (fun added w => (sparing r).Own (.known added.id) i w)
      (fun _ w => (sparing r).Own .nothing i w) (createPaystackTransaction row) w := by
  have hadded : ∀ w, (sparing r).Own .nothing i w →
      (sparing r).Own (.adding row.id) i (w.stage i (.insert .paystackTransaction row)) := by
    intro w ho
    refine ⟨ho.1.stage ?_ (fun _ _ h => by cases h), Or.inr ⟨row, ?_, rfl, hne⟩⟩
    · exact {
        entries := trivial
        records := trivial
        reversal := fun _ h => by cases h
        opening := fun p h href => by cases h; exact absurd href hne }
    · rw [World.stage_dirty]
      exact List.mem_append_right _ (List.mem_singleton.mpr rfl)
  have hforget : ∀ (_ : Exn) w,
      (sparing r).Own (.adding row.id) i w ∨ (sparing r).Own .nothing i w →
        (sparing r).Own .nothing i w := fun _ _ h => h.elim sparing_letGo id
  -- what is staged is gone when the commit is through
  have hcommit : (sparing r).Holds (.adding row.id) commit := by
    refine (sparing r).holds_commit trivial ?_
    intro i w hw hgood hd ⟨hspares, hg⟩
    have htx : (w.commit i).tx i = { aborted := false } := World.commit_tx_self w i
    have hview : (w.commit i).view i = w.view i := by
      rw [World.view, htx, World.commit_db]
      rfl
    refine ⟨.of_fresh (hspares.committed hw hgood).toUnreversed htx, ?_⟩
    rcases hg with hg | ⟨p, hp, -⟩
    · refine Or.inl ?_
      rw [hview]
      exact hg
    · rw [hd] at hp
      cases hp
  have hstaged : Safe (sparing r).logic i (fun _ w => (sparing r).Own (.adding row.id) i w)
      (fun _ w => (sparing r).Own .nothing i w) (add .paystackTransaction row) w :=
    (sparing r).safe_stage fun w₁ hr _ => hadded w₁ (hr.2 _ ho)
  refine safe_bind (safe_mono ?_ (fun _ _ h => h) hstaged)
  intro _ w₁ h₁
  refine safe_bind (safe_mono ?_ hforget (hcommit i w₁ h₁))
  intro _ w₂ h₂
  refine safe_mono ?_ hforget (safe_refresh h₂)
  rintro added w₃ ⟨⟨hspares, hg⟩, hid, hd⟩
  refine ⟨hspares, ?_⟩
  show NotOf r (w₃.view i) added.id
  rw [show added.id = row.id from hid]
  rcases hg with hg | ⟨p, hp, -⟩
  · exact hg
  · rw [hd] at hp
    cases hp

/-- A request for funds: its record is another's. -/
theorem sparing_requestWalletFund (hfund : ∀ u n, PaystackReference.fund u n ≠ r) (u : Id)
    (email : String) (data : WalletCreate) :
    (sparing r).Keeps (requestWalletFund u email data) := by
  have h := routine_sparing (r := r)
  intro i w ho
  have href : Safe (sparing r).logic i
      (fun reference w => (sparing r).Own .nothing i w ∧ reference ≠ r)
      (fun _ w => (sparing r).Own .nothing i w) (generateFundReference u) w := by
    refine safe_bind (safe_mono ?_ (fun _ _ h => h) (h.fresh i w ho))
    exact fun n w₁ h₁ => ⟨h₁, hfund u n⟩
  refine safe_bind (safe_mono ?_ (fun _ _ h => h) href)
  rintro reference w₁ ⟨h₁, hne⟩
  refine safe_bind (safe_mono ?_ (fun _ _ h => h) (h.fresh i w₁ h₁))
  intro id w₂ h₂
  refine safe_bind (safe_mono ?_ (fun _ _ h => h) (safe_createOther hne h₂))
  intro row w₃ h₃
  refine safe_bind (safe_attempt (safe_mono ?_ ?_
    (safe_requestFrom (P := fun _ => True) (fun _ _ _ _ _ _ => trivial) 0 0 h₃)))
  · rintro found w₄ ⟨h₄, -⟩
    refine h.bind (h.fields found) (fun d => ?_) i w₄ (sparing_letGo h₄)
    split
    · exact h.raise _
    · exact h.ret _
  · rintro e w₄ ⟨h₄, -⟩
    by_cases he : e.isPaystackError = true
    · simp only [he, if_true]
      refine safe_bind (safe_mono ?_ (fun _ _ h => h) (safe_setFailed _ _ h₄))
      intro _ w₅ h₅
      exact h.bind (h.savePaystackTransaction _ _) (fun _ => h.raise _) i w₅ h₅
    · simp only [he]
      exact sparing_letGo h₄

/-! ### The transfer -/

/-- No exception of the database is one of the provider's. -/
theorem refuses_of_query {X : Type} {w w' : World adehun} {c : Choice adehun} {auto : Bool}
    {body : Option (Except Exn X × World adehun)} {e : Exn}
    (he : w.sql i c auto body = some (.error e, w'))
    (hbody : ∀ e w', body ≠ some (.error e, w')) : e.refuses = false := by
  have hcheck : ∀ {t : Table} (row : t.Row), rowCheck row = some e → e.refuses = false := by
    intro t row hrow
    cases t <;> simp only [rowCheck] at hrow <;> grind [Exn.refuses, Exn.isPaystackError]
  by_cases ha : (w.tx i).aborted = true
  · rw [World.sql, if_pos ha] at he
    cases he
    rfl
  · by_cases hf : c.fail = true
    · rw [World.sql, if_neg ha, if_pos hf] at he
      cases he
      rfl
    · rcases World.sql_error (by simpa using ha) (by simpa using hf) he with
        ⟨d, ds, -, href⟩ | hb
      · cases d with
        | insert t row =>
            simp only [Write.refusal] at href
            split at href
            · cases href
              rfl
            · exact hcheck row href
        | update t id f =>
            simp only [Write.refusal] at href
            split at href
            · cases href
              rfl
            · split at href
              · cases href
                rfl
              · exact hcheck _ href
        | delete t id => cases href
      · exact absurd hb (hbody e w')

/-- Neither is one of a mapped object that is gone. -/
theorem safe_attributes {D : Discipline adehun} {t : Table} {id : Id}
    (ho : D.Own D.rest i w) :
    Safe D.logic i (fun _ w => D.Own D.rest i w)
      (fun e w => D.Own D.rest i w ∧ e.refuses = false) (attributes t id) w := by
  have hget : Safe D.logic i (fun _ w => D.Own D.rest i w)
      (fun e w => D.Own D.rest i w ∧ e.refuses = false)
      (.perform (Stmt.get (M := adehun) true ⟨t, id⟩)) w := by
    have hquiet : (Stmt.get (M := adehun) true ⟨t, id⟩).Quiet := trivial
    refine safe_perform ?_
    intro w₁ hr hi
    have ho₁ := hr.2 _ ho
    refine ⟨trivial, ?_⟩
    intro c res w₂ he _
    obtain ⟨h₁, h₂⟩ := D.exec_others hi he fun _ => Or.inr (World.exec_db_of_quiet hquiet he)
    have ho₂ := (D.own_quiet hi hquiet ho₁ he).elim (fun h => h) And.left
    refine ⟨h₁, h₂, ?_⟩
    cases res with
    | ok found => exact ho₂
    | error e =>
        refine ⟨ho₂, ?_⟩
        rw [World.exec_get] at he
        split at he
        · cases he
        · exact refuses_of_query he fun _ _ h => by cases h
  refine safe_bind (safe_mono ?_ (fun _ _ h => h) hget)
  intro found w₁ h₁
  cases found with
  | none => exact ⟨h₁, rfl⟩
  | some row => exact h₁

/-- Whoever sends a transfer that was carried out is not told that it was
refused. -/
theorem safe_initiateTransfer {amount : Int} {recipient reason : String}
    (ho : (sparing r).Own .nothing i w) :
    Safe (sparing r).logic i (fun _ w => (sparing r).Own .nothing i w)
      (fun e w => (sparing r).Own .nothing i w ∧ (e.refuses = true → reference ≠ r))
      (initiateTransfer amount recipient reference reason) w := by
  refine safe_mono (fun _ _ h => h.1) ?_ (safe_requestFrom
    (P := fun t => reference = r → CarriedOut t ∧ t.mistaken = false) ?_ 0 0 ho)
  · rintro e w₁ ⟨h₁, t, ht, hout⟩
    refine ⟨h₁, ?_⟩
    rintro he rfl
    obtain ⟨hcarried, hnot⟩ := ht rfl
    rw [hcarried.refuses_iff.mp ⟨e, hout, he⟩] at hnot
    cases hnot
  · intro w j x t hg ht href
    exact hg href t ht

theorem sparing_requestWithdrawal (s : Settings) (u : Id) (p : WithdrawalCreate) :
    (sparing r).Keeps (requestWithdrawal s u p) := by
  have h := routine_sparing (r := r)
  refine h.bind (h.raiseIf _ _) fun _ => h.bind (h.raiseIf _ _) fun _ =>
    h.bind (h.raiseIf _ _) fun _ => h.bind (h.resolveBankAccount _ _) fun account => ?_
  refine h.bind (h.bind h.fresh fun _ => h.ret _) fun reference => h.bind h.fresh fun id => ?_
  have hintent : (sparing r).Keeps (add .paystackTransaction
      { id := id
        userId := u
        reference := reference
        amount := p.amount
        transactionType := .withdrawal
        recipientCode := some account.recipientCode
        bankAccountId := some account.id }) :=
    keeps_harmless
      { entries := trivial
        records := trivial
        reversal := fun _ h => by cases h
        opening := fun q h _ => by cases h; exact Or.inl rfl } fun _ _ h => by cases h
  refine h.bind (h.createPaystackTransaction hintent _) fun row => ?_
  refine h.bind (sparing_applyEntry (by simp)) fun result => ?_
  intro i w ho
  have hsent : Safe (sparing r).logic i
      (fun sent w => (sparing r).Own .nothing i w ∧
        ∀ e, sent = .error e → e.refuses = true → reference ≠ r)
      (fun _ w => (sparing r).Own .nothing i w)
      (Prog.attempt do
        let account ← attributes .bankAccount account.id
        initiateTransfer (toKobo p.amount) account.recipientCode reference
          "Wallet withdrawal") w := by
    refine safe_attempt (safe_bind (safe_mono ?_ ?_ (safe_attributes ho)))
    · intro account w₁ h₁
      refine safe_mono ?_ ?_ (safe_initiateTransfer h₁)
      · exact fun found w₂ h₂ => ⟨h₂, fun e he => by cases he⟩
      · rintro e w₂ ⟨h₂, hne⟩
        refine ⟨h₂, ?_⟩
        rintro e' he
        cases he
        exact hne
    · rintro e w₁ ⟨h₁, he⟩
      refine ⟨h₁, ?_⟩
      rintro e' he' hrefuses
      cases he'
      rw [he] at hrefuses
      cases hrefuses
  refine safe_bind (safe_mono ?_ (fun _ _ h => h) hsent)
  rintro sent w₁ ⟨h₁, hne⟩
  cases sent with
  | ok found =>
      refine h.bind (h.fields found) (fun d => ?_) i w₁ h₁
      refine h.bind (sparing_record _ _ (fun _ => rfl) fun _ h => h) fun _ => ?_
      exact h.bind (h.savePaystackTransaction _ _) fun _ =>
        h.bind (h.attributes .wallet _) fun _ => h.withdrawalResponse _ _ _
  | error e =>
      by_cases hunknown : e.outcomeUnknown = true
      · simp only [hunknown, if_true]
        exact h.bind (h.attributes .wallet _) (fun _ => h.withdrawalResponse _ _ _) i w₁ h₁
      · by_cases hprovider : e.isPaystackError = true
        · have hother : reference ≠ r := hne e rfl (by simp [Exn.refuses, hunknown, hprovider])
          simp only [hunknown, hprovider, if_true]
          exact h.bind (sparing_reverseWithdrawal hother _ _ _) (fun _ => h.raise _) i w₁ h₁
        · simp only [hunknown, hprovider]
          exact h₁

/-! ### What the provider says later -/

/-- A withdrawal that is asked about is not found to have failed. -/
theorem sparing_reconcilePendingWithdrawal (row : PaystackTransaction) :
    (sparing r).Keeps (reconcilePendingWithdrawal row) := by
  have h := routine_sparing (r := r)
  intro i w ho
  have hasked : Safe (sparing r).logic i
      (fun answer w => (sparing r).Own .nothing i w ∧
        ∀ d, answer = .ok (some d) → d.status.isFailure = true → row.reference ≠ r)
      (fun _ w => (sparing r).Own .nothing i w) (Prog.attempt (verifyTransfer row.reference)) w := by
    refine safe_attempt (safe_mono ?_ ?_ (safe_requestFrom (P := fun t => row.reference = r →
      ∀ d, t.outcome.1 = .ok (some d) → d.status.isFailure = false) ?_ 0 2 ho))
    · rintro found w₁ ⟨h₁, t, ht, hout⟩
      refine ⟨h₁, ?_⟩
      rintro d he hfail href
      cases he
      rw [ht href d hout] at hfail
      cases hfail
    · exact fun e w₁ h₁ => ⟨h₁.1, fun d he => by cases he⟩
    · exact fun w j x t hg ht href d hout => hg href t d ht hout
  refine safe_bind (safe_mono ?_ (fun _ _ h => h) hasked)
  rintro answer w₁ ⟨h₁, hne⟩
  cases answer with
  | error e =>
      exact h.ite (c := e.isPaystackError = true) (h.ret ()) (h.raise e) i w₁ h₁
  | ok found =>
      cases found with
      | none => exact h₁
      | some d =>
          have hreversed : d.status.isFailure = true → (sparing r).Keeps
              (reverseWithdrawal row.reference row.userId row.amount
                (messageOr (d.reason.getD "") "Transfer failed")) :=
            fun hfail => sparing_reverseWithdrawal (hne d rfl hfail) _ _ _
          simp only [fields, pure_bind]
          split
          · refine h.bind (sparing_record _ _ (fun _ => rfl) fun _ _ => Or.inr rfl)
              (fun _ => ?_) i w₁ h₁
            exact h.bind (h.savePaystackTransaction _ _) fun _ =>
              h.bind (h.markEntryStatus sparing_entryStatus _ _ _ _) fun _ => h.ret _
          · next hd => exact hreversed (by rw [hd]; rfl) i w₁ h₁
          · next hd => exact hreversed (by rw [hd]; rfl) i w₁ h₁
          · next hd => exact hreversed (by rw [hd]; rfl) i w₁ h₁
          · exact h₁

theorem sparing_handleChargeSuccess (data : WebhookData) :
    (sparing r).Keeps (handleChargeSuccess data) := by
  have h := routine_sparing (r := r)
  unfold handleChargeSuccess
  split
  · exact h.ret _
  · refine h.bind (h.getPaystackTransaction _) fun found => ?_
    cases found with
    | none => exact h.ret _
    | some row =>
        refine h.ite (h.ret _) (h.bind (h.attempt (h.request rfl _)) fun answer => ?_)
        cases answer with
        | error e => exact h.ite (h.ret _) (h.raise _)
        | ok d =>
            refine h.bind (h.fields d) fun d => h.ite (h.ret _) (h.ite (h.ret _) ?_)
            split
            · exact h.ret _
            · exact h.raise _
            · refine h.bind (sparing_record _ _ (fun _ => rfl) fun _ _ => Or.inr rfl) fun _ => ?_
              exact h.bind (h.savePaystackTransaction _ _) fun _ =>
                h.bind (sparing_applyEntry (by simp)) fun _ =>
                  h.bind (h.attributes .paystackTransaction _) fun _ =>
                    h.bind (h.attributes .wallet _) fun _ => h.ret _

theorem sparing_handleTransferSuccess (data : WebhookData) :
    (sparing r).Keeps (handleTransferSuccess data) := by
  have h := routine_sparing (r := r)
  unfold handleTransferSuccess
  split
  · exact h.ret _
  · refine h.bind (h.getPaystackTransaction _) fun found => ?_
    cases found with
    | none => exact h.ret _
    | some row =>
        refine h.ite (h.ret _) (h.bind (h.attempt (h.request rfl _)) fun answer => ?_)
        cases answer with
        | error e => exact h.ite (h.ret _) (h.raise _)
        | ok d =>
            refine h.bind (h.fields d) fun d => h.ite (h.ret _) ?_
            refine h.bind (sparing_record _ _ (fun _ => rfl) fun _ _ => Or.inr rfl) fun _ => ?_
            exact h.bind (h.savePaystackTransaction _ _) fun _ => h.bind h.now fun _ =>
              h.bind (h.markEntryStatus sparing_entryStatus _ _ _ _) fun _ =>
                h.bind (h.attributes .paystackTransaction _) fun _ =>
                  h.bind (h.getUserWallet _) fun _ => h.ret _

/-- An event that says that another transfer failed. -/
theorem sparing_handleTransferReversal {data : WebhookData} (hne : data.reference ≠ some r)
    (s : TransactionStatus) : (sparing r).Keeps (handleTransferReversal data s) := by
  have h := routine_sparing (r := r)
  unfold handleTransferReversal
  split
  · exact h.ret _
  · next reference href =>
      have hother : reference ≠ r := by
        rintro rfl
        exact hne href
      intro i w ho
      refine safe_bind (safe_mono ?_ (fun _ _ h => h) (safe_getPaystackTransaction hother ho))
      rintro found w₁ ⟨h₁, hknown⟩
      cases found with
      | none => exact h₁
      | some row =>
          dsimp only
          split
          · exact h₁
          · refine safe_bind (safe_mono ?_ (fun _ _ h => h)
              (safe_setFailed s _ (hknown row rfl)))
            intro _ w₂ h₂
            refine h.bind (h.getEntryByReference _) (fun found => ?_) i w₂ h₂
            cases found with
            | none => exact h.bind (h.savePaystackTransaction _ _) fun _ => h.ret _
            | some original =>
                exact h.bind (h.savePaystackTransaction _ _) fun _ =>
                  h.bind (h.markEntryStatus sparing_entryStatus _ _ _ _) fun _ =>
                    h.bind (sparing_applyEntry (by simpa using hother)) fun _ =>
                      h.bind (h.attributes .paystackTransaction _) fun _ =>
                        h.bind (h.attributes .transaction _) fun _ =>
                          h.bind (h.attributes .wallet _) fun _ => h.ret _

theorem sparing_payments (hfund : ∀ u n, PaystackReference.fund u n ≠ r) :
    Payments fun _ p => (sparing r).Keeps p where
  ensureWallet := sparing_ensureWallet
  fund := sparing_requestWalletFund hfund
  withdrawal := sparing_requestWithdrawal
  status u n :=
    (routine_sparing (r := r)).getWithdrawal_of sparing_reconcilePendingWithdrawal u n

/-- A request that does not report that the transfer failed. -/
theorem sparing_handler (hfund : ∀ u n, PaystackReference.fund u n ≠ r) (s : Settings)
    {q : Request} (hq : q.reportsFailed r = false) : (sparing r).Keeps (handler s q) := by
  have h := routine_sparing (r := r)
  have hkeyed : Keyed (fun _ _ p => (sparing r).Keeps p) fun _ p => (sparing r).Keeps p := {
    plain := fun _ hp => hp
    keyed := fun s u key endpoint hash _ _ hallow =>
      (h.booking rfl).route s u key endpoint hash hallow
    bound := (h.booking rfl).bindReference }
  refine hkeyed.handler (fun _ => h.toPlain) (fun _ => sparing_escrowSide)
    (fun _ => sparing_payments hfund) s q ?_
  rintro signed p hash rfl
  refine h.toPlain.paystackWebhook_of ?_
  rintro rfl
  have hevent : ∀ (e : EventType) (data : WebhookData),
      (∀ p, webhookHandler e data = some p → (sparing r).Keeps p) →
        (sparing r).Keeps (handleEvent e data hash) :=
    fun e data hp => (h.booking rfl).handleEvent hash hp
  have hdata : ∀ (e : EventType) (data : WebhookData),
      (e = .transferFailed ∨ e = .transferReversed → data.reference ≠ some r) →
        (sparing r).Keeps (handleEvent e data hash) := by
    intro e data hne
    refine hevent e data fun p hp => ?_
    cases e <;> cases hp
    · exact sparing_handleChargeSuccess data
    · exact sparing_handleTransferSuccess data
    · exact sparing_handleTransferReversal (hne (Or.inl rfl)) _
    · exact sparing_handleTransferReversal (hne (Or.inr rfl)) _
  unfold handle
  split
  · next e data =>
      refine hdata e data ?_
      rintro (rfl | rfl) <;> simpa [Request.reportsFailed] using hq
  · exact hdata _ _ fun _ => by simp
  · exact h.raise _

end Requests

/-! ## Whole runs -/

/-- Nothing in a run says that the transfer failed. -/
def NoneReports (r : PaystackReference) (ls : List (Label adehun Request)) : Prop :=
  ∀ i q, Label.start i q ∈ ls → q.reportsFailed r = false

/-- Where every answer to a transfer that was carried out is one that is not
taken for a refusal, no withdrawal is paid out and credited back: in every
step of every run its debit stays, its record is not one of a failure, and no
reversal is entered. -/
theorem paidOnce_run {settings : Settings} {db : Db adehun} {shared : Shared} {user n : Nat}
    (hk : db.KeysDistinct) (he : db.EntriesDistinct)
    (hnone : Unreversed (.withdrawal user n) db) {ls : List (Label adehun Request)}
    (hreports : NoneReports (.withdrawal user n) ls)
    (hg : Conf.RunMeets (told (.withdrawal user n)) (handler settings)
      ({ world := { db, shared } } : Conf adehun Response) ls) :
    Conf.RunSteps (fun C C' => StandsPaid (.withdrawal user n) C.world.db C'.world.db)
      (handler settings) { world := { db, shared } } ls := by
  -- the events that are not in the run may as well be refused
  let served : Request → App Response := fun q =>
    if q.reportsFailed (.withdrawal user n) then .raise .attribute else handler settings q
  have hsame : ∀ i q, Label.start i q ∈ ls → handler settings q = served q := by
    intro i q hq
    simp [served, hreports i q hq]
  have hkeeps : ∀ q, (sparing (.withdrawal user n)).Keeps (served q) := by
    intro q
    by_cases hq : q.reportsFailed (.withdrawal user n) = true
    · simp only [served, hq, if_true]
      exact (sparing _).keeps_compositional.raise _
    · simp only [served, hq]
      exact sparing_handler (by simp) settings (by simpa using hq)
  rw [Conf.runSteps_congr hsame]
  rw [Conf.runMeets_congr hsame] at hg
  have hsound := (sparing (.withdrawal user n)).logic.sound_init (α := Response)
    (w := { db, shared }) ⟨World.wf_init hk he, hnone⟩
    (fun i => ⟨rfl, fun l hl => by cases hl⟩)
  refine hsound.runSteps _ ((sparing _).serves hkeeps) ?_ hg
  intro C C' l h h' hmeets hs
  rcases (sparing _).step_db h hmeets hs with hdb | ⟨i, c, -, ⟨g, -, hown⟩, -, hdb⟩
  · exact ⟨h'.inv.2, fun t ht _ => ⟨t, by rw [hdb]; exact ht, rfl, rfl⟩⟩
  · rw [hdb]
    exact hown.1.committed h.inv.1 h.inv.2

namespace OneDay

theorem noneReports_labels : NoneReports (.withdrawal 1 7010) labels := by
  have hall : labels.all (fun
      | .start _ q => !q.reportsFailed (.withdrawal 1 7010)
      | _ => true) = true := by decide +kernel
  intro i q hq
  simpa using List.all_eq_true.mp hall _ hq

theorem told_labels :
    start.RunMeets (told (.withdrawal 1 7010)) (handler settings) labels :=
  (told.test _).runMeets (by decide +kernel)

theorem db_pending : ∀ id (p : PaystackTransaction),
    db.lookup ⟨Table.paystackTransaction, id⟩ = some p → p.reference = .withdrawal 1 7010 →
      p.Open := by
  intro id p hp
  obtain rfl := List.mem_singleton.mp (Db.lookup_mem hp)
  exact fun _ => Or.inl rfl

end OneDay

/-- The second withdrawal of the day is sent, acknowledged and not reversed. -/
theorem paidOnce_run_oneDay :
    (OneDay.evening.2.world.db .transaction : List Transaction).map (·.reference) =
      [.deposit (.fund 1 0), .deposit (.fund 1 1), .withdrawal (.withdrawal 1 3010),
        .reversal (.withdrawal 1 3010), .lock 20, .out (.release 20), .into (.release 20),
        .withdrawal (.withdrawal 1 7010)] ∧
    OneDay.start.RunSteps
      (fun C C' => StandsPaid (.withdrawal 1 7010) C.world.db C'.world.db)
      (handler OneDay.settings) OneDay.labels :=
  ⟨OneDay.references_evening, paidOnce_run OneDay.db_keysDistinct OneDay.db_entriesDistinct
    { entry := by decide, record := OneDay.db_pending }
    OneDay.noneReports_labels OneDay.told_labels⟩

end Adehun
