import Adehun.Deeds

/-!
# What a session knows

The steps of the requests, by the notes they leave on the page of a session
and by what they ask for. A step that is nobody's business leaves the page
as it is: it is enough to follow the answers that are gone by, and the
movements of escrow.
-/

namespace Adehun

open Sessions

/-! ## Pages -/

/-- Everything asked for may be committed. -/
def Any (p : register.Page) : Prop := Deed p.notes p.batch

/-- Some notes are there, and this has been asked for. -/
structure Intends (ns : List Note) (ds : List (Write adehun)) (p : register.Page) : Prop where
  told : ns ⊆ p.notes
  batch : p.batch = ds

/-- Some notes are there, and nothing has been asked for. -/
abbrev Knows (ns : List Note) : register.Page → Prop := Intends ns []

theorem Any.lost (p : register.Page) : Any p.lost := Deed.nothing

theorem Any.done (p : register.Page) : Any p.done := Deed.nothing

theorem Intends.any {ns : List Note} {ds : List (Write adehun)} {p : register.Page}
    (h : Intends ns ds p) (hd : Deed ns ds) : Any p := by
  rw [Any, h.batch]
  exact hd.mono h.told

theorem Intends.lost {ns : List Note} {ds : List (Write adehun)} {p : register.Page}
    (h : Intends ns ds p) : Knows ns p.lost :=
  ⟨h.told, rfl⟩

theorem Intends.noted {ns : List Note} {ds : List (Write adehun)} {p : register.Page}
    (h : Intends ns ds p) (ns' : List Note) : Intends ns ds (p.noted ns') :=
  ⟨fun _ hn => List.mem_append_right _ (h.told hn), h.batch⟩

/-- What is noted just now is known. -/
theorem Intends.learn {ns ns' : List Note} {ds : List (Write adehun)} {p : register.Page}
    (h : Intends ns ds p) {n : Note} (hn : n ∈ ns') : Intends (n :: ns) ds (p.noted ns') := by
  refine ⟨?_, h.batch⟩
  intro m hm
  rcases List.mem_cons.mp hm with rfl | hm
  · exact List.mem_append_left _ hn
  · exact List.mem_append_right _ (h.told hm)

theorem Intends.add {ns : List Note} {ds : List (Write adehun)} {p : register.Page}
    (h : Intends ns ds p) {d : Write adehun} (hd : decides d = true) :
    Intends ns (ds ++ [d]) (p.add d) := by
  rw [Diary.Page.add_of_decided hd]
  exact ⟨h.told, congrArg (· ++ [d]) h.batch⟩

theorem Knows.done {ns : List Note} {p : register.Page} (h : Knows ns p) : Knows ns p.done := by
  have hsame : p.done = p := by
    ext1
    · rw [Diary.Page.done_notes, h.batch]
      simp [Diary.revised]
    · rw [Diary.Page.done_batch, h.batch]
  rwa [hsame]

/-- A predicate of pages that no answer and no statement on the side
disturbs. -/
structure Steady (P : register.Page → Prop) : Prop where
  any : ∀ p, P p → Any p
  noted : ∀ p ns, P p → P (p.noted ns)
  lost : ∀ p, P p → P p.lost
  done : ∀ p, P p → P p.done

theorem steady_any : Steady Any :=
  ⟨fun _ h => h, fun _ _ h => h.mono (List.subset_append_right _ _), fun p _ => Any.lost p,
    fun p _ => Any.done p⟩

theorem steady_knows (ns : List Note) : Steady (Knows ns) :=
  ⟨fun _ h => h.any .nothing, fun _ ns h => h.noted ns, fun _ h => h.lost, fun _ h => h.done⟩

/-- What is done from such a page, and what may be thrown. -/
abbrev Takes (P : register.Page → Prop) {α : Type} (p : App α)
    (Q : α → register.Page → Prop) : Prop :=
  register.Runs P p Q Any

/-- What is asked for may be committed to the end. -/
abbrev Leads (P : register.Page → Prop) {α : Type} (p : App α) : Prop := Takes P p fun _ => Any

section Pages

variable {P Q R : register.Page → Prop} {α β : Type}

/-- A statement that is nobody's business. -/
theorem runs_aside {d : Write adehun} (hd : Proper d) (hnot : decides d = false) :
    register.Runs P (.perform (.stage d)) (fun _ => P) R := by
  refine Diary.Runs.stage hd fun a ha => ?_
  rwa [Diary.Page.add_of_not_decided hnot]

theorem Steady.routine (h : Steady P) : Routine fun _ p => register.Runs P p (fun _ => P) P where
  toCompositional := Diary.Runs.compositional
  reads _ hs _ := Diary.Runs.quiet (fun _ h => h) h.lost hs fun a _ _ _ _ ha _ _ _ =>
    h.noted a _ ha
  commit := Diary.Runs.commit (fun _ h => h) h.lost h.any h.done
  rollback := Diary.Runs.rollback h.lost
  stages _ hd _ := runs_aside (proper_of_side hd) (decides_of_side hd)
  books _ hd := runs_aside (proper_of_side hd) (decides_of_side hd)
  upserts _ _ hf := Diary.Runs.upsert (fun _ h => h) h.lost
    (fun v d hd => ⟨proper_of_side (hf v d hd), decides_of_side (hf v d hd)⟩) fun _ _ ha => ha

/-- A program on the side leaves a steady predicate. -/
theorem Steady.takes (h : Steady P) {p : App α} (hp : register.Runs P p (fun _ => P) P) :
    Takes P p fun _ => P :=
  hp.conseq (fun _ h => h) (fun _ _ h => h) h.any

theorem Steady.ensureWallet (h : Steady P) (u : Id) :
    register.Runs P (ensureWallet u) (fun _ => P) P := by
  refine h.routine.ensureWallet (fun x u => ?_) h.routine.commit u
  refine Diary.Runs.upsert (fun _ h => h) h.lost ?_ fun _ _ ha => ha
  intro v d hd
  dsimp only at hd
  split at hd
  · cases hd
  · obtain rfl := List.mem_singleton.mp hd
    exact ⟨proper_of_ne (by simp) (by simp) (by simp), rfl⟩

theorem takes_assignWallet (id : Id) (x y : Kobo) :
    register.Runs P (assign .wallet id (setBalances x y)) (fun _ => P) R :=
  runs_aside (proper_of_ne (by simp) (by simp) (by simp)) rfl

/-- An entry of no escrow. -/
theorem Steady.applyEntry (h : Steady P) {a : EntryArgs} (hr : a.reference.escrow = false)
    (ht : a.entryType ≠ .escrowLock) : register.Runs P (applyEntry a) (fun _ => P) P := by
  refine h.routine.applyEntry h.ensureWallet
    (h.routine.lockedEntry_of takes_assignWallet fun e he => ?_)
  have hlock : e.type = .escrowLock → ∃ b, e.reference = .lock b :=
    fun hlock => absurd (he.type.symm.trans hlock) ht
  refine runs_aside (proper_entry hlock) ?_
  rw [decides, he.reference]
  exact hr

theorem Steady.providerRequests (h : Steady P) :
    ProviderRequests fun _ p => register.Runs P p (fun _ => P) P := by
  refine h.routine.requests_of_writes ⟨?_, ?_, ?_, ?_, ?_, ?_⟩ h.ensureWallet
  · exact fun _ _ _ _ => h.routine.initiateTransfer
      (Diary.Runs.quiet (fun _ h => h) h.lost trivial fun a _ _ _ _ ha _ _ _ => h.noted a _ ha)
  · intro d hd
    have hne : ∀ t : Table, t ≠ .paystackTransaction → d.key.table ≠ t :=
      fun t ht he => ht (he.symm.trans hd)
    exact runs_aside (proper_of_ne (hne _ (by decide)) (hne _ (by decide)) (hne _ (by decide)))
      (decides_of_ne (hne _ (by decide)) (hne _ (by decide)) (hne _ (by decide)))
  · exact fun id s time => runs_aside (proper_entryStatus id s time) rfl
  · exact fun a r ht hr => h.applyEntry (by rw [hr]; rfl) (by rw [ht]; decide)
  · exact fun a r ht hr => h.applyEntry (by rw [hr]; rfl) (by rw [ht]; decide)
  · exact fun a r ht hr => h.applyEntry (by rw [hr]; rfl) (by rw [ht]; decide)

/-- Reading leaves a predicate that answers do not disturb. -/
theorem reading_takes (hany : ∀ p, P p → Any p) (hnoted : ∀ p ns, P p → P (p.noted ns)) :
    Reading fun _ p => Takes P p fun _ => P where
  toSequential := Diary.Runs.sequential hany
  reads _ hs _ := Diary.Runs.quiet hany (fun p _ => Any.lost p) hs fun a _ _ _ _ ha _ _ _ =>
    hnoted a _ ha

theorem Steady.bind (h : Steady P) {p : App α} {f : α → App β} {Q : β → register.Page → Prop}
    (hp : register.Runs P p (fun _ => P) P) (hf : ∀ a, Takes P (f a) Q) :
    Takes P (p.bind f) Q :=
  (h.takes hp).bind hf

/-- A check, and what is known behind it. -/
theorem Steady.check (h : Steady P) {c : Prop} [Decidable c] {e : Exn} {f : Unit → App β}
    {Q : β → register.Page → Prop} (hf : ¬ c → Takes P (f ()) Q) :
    Takes P ((raiseIf c e).bind f) Q := by
  by_cases hc : c
  · rw [raiseIf, if_pos hc]
    exact Diary.Runs.raise h.any
  · rw [raiseIf, if_neg hc]
    exact hf hc

/-- Whatever follows is on the side. -/
theorem Steady.leads (h : Steady P) {p : App α} (hp : Leads Any p) : Leads P p :=
  hp.conseq h.any (fun _ _ h => h) fun _ h => h

end Pages

/-! ## What is learnt -/

section Answers

variable {ns : List Note} {ds : List (Write adehun)} {α : Type} {Q : α → register.Page → Prop}

/-- An agreement that is asked for by its id. -/
theorem takes_get_agreement (hd : Deed ns ds) {held : Bool} {a : Id}
    {f : Option Agreement → App α} (hnone : Takes (Intends ns ds) (f none) Q)
    (hsome : ∀ r : Agreement, r.id = a → Takes (Intends (.got r :: ns) ds) (f (some r)) Q) :
    Takes (Intends ns ds)
      ((Prog.perform (Stmt.get (M := adehun) held ⟨Table.agreement, a⟩)).bind f) Q := by
  have hget : Takes (Intends ns ds)
      (.perform (Stmt.get (M := adehun) held ⟨Table.agreement, a⟩))
      fun (found : Option Agreement) p =>
        Intends ns ds p ∧ ∀ r, found = some r → r.id = a ∧ Intends (.got r :: ns) ds p := by
    refine Diary.Runs.quiet (fun _ h => h.any hd) (fun p _ => Any.lost p) trivial ?_
    intro p found db es m hp _ _ hfound
    refine ⟨hp.noted _, ?_⟩
    rintro r rfl
    exact ⟨hfound r rfl, hp.learn (List.mem_singleton.mpr rfl)⟩
  refine hget.bind fun found => ?_
  cases found with
  | none => exact fun p hp => hnone p hp.1
  | some r => exact fun p hp => hsome r (hp.2 r rfl).1 p (hp.2 r rfl).2

theorem takes_getAttached {a : Id} {f : Option Agreement → App α}
    (hnone : Takes (Knows ns) (f none) Q)
    (hsome : ∀ r : Agreement, r.id = a → Takes (Knows (.got r :: ns)) (f (some r)) Q) :
    Takes (Knows ns) ((getAttached a).bind f) Q :=
  takes_get_agreement .nothing hnone hsome

theorem takes_getDispute {id : Id} {f : Option Dispute → App α}
    (hnone : Takes (Knows ns) (f none) Q)
    (hsome : ∀ d : Dispute, d.id = id → Takes (Knows (.seen d :: ns)) (f (some d)) Q) :
    Takes (Knows ns) ((getDispute id).bind f) Q := by
  have hget : Takes (Knows ns) (get .dispute id) fun (found : Option Dispute) p =>
      Knows ns p ∧ ∀ d, found = some d → d.id = id ∧ Knows (.seen d :: ns) p := by
    refine Diary.Runs.quiet (fun _ h => h.any .nothing) (fun p _ => Any.lost p) trivial ?_
    intro p found db es m hp _ _ hfound
    refine ⟨hp.noted _, ?_⟩
    rintro d rfl
    exact ⟨hfound d rfl, hp.learn (List.mem_singleton.mpr rfl)⟩
  have hdispute : Takes (Knows ns) (getDispute id) fun (found : Option Dispute) p =>
      Knows ns p ∧ ∀ d, found = some d → d.id = id ∧ Knows (.seen d :: ns) p := by
    refine hget.bind fun found => ?_
    cases found with
    | none => exact Diary.Runs.ret fun p hp => hp
    | some d =>
        have hload : Takes (Knows (.seen d :: ns)) (loadAll .agreement fun a => a.id = d.agreementId)
            fun _ => Knows (.seen d :: ns) :=
          (steady_knows _).takes ((steady_knows _).routine.loadAll _ _)
        refine Diary.Runs.bind (Q := fun _ p => d.id = id ∧ Knows (.seen d :: ns) p) ?_ ?_
        · intro p hp
          obtain ⟨hid, hp⟩ := hp.2 d rfl
          exact (hload p hp).mono (fun _ _ h => ⟨hid, h⟩) fun _ _ h => h
        · refine fun _ => Diary.Runs.ret fun p hp => ⟨⟨?_, hp.2.batch⟩, ?_⟩
          · exact fun n hn => hp.2.told (List.mem_cons_of_mem _ hn)
          · rintro d' hd'
            cases hd'
            exact hp
  refine hdispute.bind fun found => ?_
  cases found with
  | none => exact fun p hp => hnone p hp.1
  | some d => exact fun p hp => hsome d (hp.2 d rfl).1 p (hp.2 d rfl).2

end Answers

/-! ## What the ledger says -/

/-- What all writes keep of an entry. -/
def Transaction.mark (t : Transaction) : Reference × Option Id × LedgerEntryType :=
  (t.reference, t.agreementId, t.type)

theorem mem_lockedIn {db : Db adehun} {a : Id} :
    a ∈ lockedIn db ↔ ∃ t ∈ (db .transaction : List Transaction),
      t.agreementId = some a ∧ t.type = .escrowLock := by
  simp only [lockedIn, List.mem_filterMap]
  refine exists_congr fun t => and_congr_right fun _ => ?_
  by_cases h : t.type = .escrowLock <;> simp [h]

theorem mem_releasedIn {db : Db adehun} {a : Id} :
    a ∈ releasedIn db ↔ Posted db (.out (.release a)) := by
  simp only [releasedIn, List.mem_filterMap, Posted]
  refine exists_congr fun t => and_congr_right fun _ => ?_
  split
  · next b hb => simp [hb]
  · next hne =>
      simp only [reduceCtorEq, false_iff]
      exact hne a

/-- Entries that decide nothing are of no escrow. -/
theorem exists_entry_iff {es : List (Write adehun)} (hkept : ∀ d ∈ es, Proper d)
    (hnone : es.filter decides = []) {P : Reference × Option Id × LedgerEntryType → Prop}
    (hP : ∀ t : Transaction, t.reference.escrow = false → t.type ≠ .escrowLock → ¬ P t.mark)
    (db : Db adehun) :
    (∃ t ∈ (db.applyAll es Table.transaction : List Transaction), P t.mark) ↔
      ∃ t ∈ (db .transaction : List Transaction), P t.mark := by
  have hmap := Db.map_applyAll (f := Transaction.mark) (t := Table.transaction)
    (fun d hd => (hkept d hd).entries) db
  have hnew : ∀ t : Transaction, t ∈ es.flatMap (Write.inserted Table.transaction) →
      ¬ P t.mark := by
    intro t ht
    obtain ⟨d, hd, hin⟩ := List.mem_flatMap.mp ht
    obtain rfl := Write.mem_inserted.mp hin
    have hside : decides (.insert Table.transaction t) = false := by
      have := List.filter_eq_nil_iff.mp hnone _ hd
      simpa using this
    refine hP t hside fun htype => ?_
    obtain ⟨b, hb⟩ := (hkept _ hd).locks t rfl htype
    rw [decides, hb] at hside
    cases hside
  have hsplit : (∃ m ∈ (db.applyAll es Table.transaction : List Transaction).map
      Transaction.mark, P m) ↔ ∃ m ∈ (db .transaction : List Transaction).map
      Transaction.mark, P m := by
    rw [hmap]
    constructor
    · rintro ⟨m, hm, hp⟩
      rcases List.mem_append.mp hm with hm | hm
      · exact ⟨m, hm, hp⟩
      · obtain ⟨t, ht, rfl⟩ := List.mem_map.mp hm
        exact absurd hp (hnew t ht)
    · rintro ⟨m, hm, hp⟩
      exact ⟨m, List.mem_append_left _ hm, hp⟩
  simpa only [List.mem_map, exists_exists_and_eq_and] using hsplit

section Ledger

variable {ns : List Note} {α : Type} {Q : α → register.Page → Prop} {a : Id}

/-- A look at the ledger, by what it asks of entries of an escrow. -/
theorem takes_select (named : List Id → List Id → List Id) {q : Db adehun → Bool}
    (hq : ∀ (db : Db adehun) es, (∀ d ∈ es, Proper d) → es.filter decides = [] →
      (q (db.applyAll es) = true ↔ a ∈ named (lockedIn db) (releasedIn db)))
    {f : Bool → App α}
    (hf : ∀ locked released b, (b = true ↔ a ∈ named locked released) →
      Takes (Knows (.ledger locked released :: ns)) (f b) Q) :
    Takes (Knows ns) ((select q).bind f) Q := by
  have hlook : Takes (Knows ns) (select q) fun b p => ∃ locked released,
      (b = true ↔ a ∈ named locked released) ∧ Knows (.ledger locked released :: ns) p := by
    refine Diary.Runs.quiet (fun _ h => h.any .nothing) (fun p _ => Any.lost p) trivial ?_
    rintro p b db es m hp hkept hsent rfl
    have hnone : es.filter decides = [] := by
      rw [hp.batch] at hsent
      exact List.prefix_nil.mp hsent
    exact ⟨_, _, hq db es hkept hnone, hp.learn (List.mem_singleton.mpr rfl)⟩
  refine hlook.bind fun b => ?_
  rintro p ⟨locked, released, hb, hp⟩
  exact hf locked released b hb p hp

theorem takes_isAgreementFunded {f : Bool → App α}
    (hf : ∀ locked released b, (b = true ↔ a ∈ locked) →
      Takes (Knows (.ledger locked released :: ns)) (f b) Q) :
    Takes (Knows ns) ((isAgreementFunded a).bind f) Q := by
  refine takes_select (fun locked _ => locked) (fun db es hkept hnone => ?_) hf
  rw [mem_lockedIn]
  have h := exists_entry_iff hkept hnone
    (P := fun m => m.2.1 = some a ∧ m.2.2 = .escrowLock) (fun t _ ht hp => ht hp.2) db
  simpa [Transaction.mark] using h

theorem takes_isAgreementReleased {f : Bool → App α}
    (hf : ∀ locked released b, (b = true ↔ a ∈ released) →
      Takes (Knows (.ledger locked released :: ns)) (f b) Q) :
    Takes (Knows ns) ((isAgreementReleased a).bind f) Q := by
  refine takes_select (fun _ released => released) (fun db es hkept hnone => ?_) hf
  rw [mem_releasedIn, Posted]
  have h := exists_entry_iff hkept hnone
    (P := fun m => m.1 = .out (.release a)) (fun t ht _ hp => ?_) db
  · simpa [Transaction.mark] using h
  · have href : t.reference = .out (.release a) := hp
    rw [href] at ht
    cases ht

/-- The agreement has no money in escrow, as far as the ledger is known. -/
def Spare (ns : List Note) (a : Id) : Prop :=
  ∃ locked released, .ledger locked released ∈ ns ∧ (a ∉ locked ∨ a ∈ released)

theorem takes_refuseFunded {message : String} {f : Unit → App α}
    (hf : ∀ ns', ns ⊆ ns' → Spare ns' a → Takes (Knows ns') (f ()) Q) :
    Takes (Knows ns) ((refuseFunded a message).bind f) Q := by
  have hrefuse : Takes (Knows ns) (refuseFunded a message) fun _ p =>
      ∃ ns', ns ⊆ ns' ∧ Spare ns' a ∧ Knows ns' p := by
    refine takes_isAgreementFunded fun locked released b hb => ?_
    cases b with
    | false =>
        have hnot : a ∉ locked := fun ha => Bool.false_ne_true (hb.mpr ha)
        refine Diary.Runs.ret fun p hp => ⟨_, List.subset_cons_self _ _, ?_, hp⟩
        exact ⟨locked, released, List.mem_cons_self, Or.inl hnot⟩
    | true =>
        refine takes_isAgreementReleased fun locked' released' b hb => ?_
        cases b with
        | false => exact Diary.Runs.raise fun p hp => hp.any .nothing
        | true =>
            refine Diary.Runs.ret fun p hp => ⟨_, ?_, ?_, hp⟩
            · exact List.Subset.trans (List.subset_cons_self _ _) (List.subset_cons_self _ _)
            · exact ⟨locked', released', List.mem_cons_self, Or.inr (hb.mp rfl)⟩
  refine hrefuse.bind fun _ => ?_
  rintro p ⟨ns', hsub, hspare, hp⟩
  exact hf ns' hsub hspare p hp

end Ledger

/-! ## What the cache and the tables say -/

section Shown

variable {ns : List Note} {α : Type} {Q : α → register.Page → Prop} {a : Id}

theorem mem_copies {m : Shared} {r : Agreement}
    (h : ((m.cache.find? (·.1 = CacheKey.agreement a)).map (·.2)) =
      some (.agreement r)) : .shown a r.status ∈ copies m := by
  obtain ⟨⟨k, v⟩, hfind, hv⟩ := Option.map_eq_some_iff.mp h
  have hk : k = .agreement a := by simpa using List.find?_some hfind
  obtain rfl : v = .agreement r := hv
  subst hk
  exact List.mem_filterMap.mpr ⟨_, List.mem_of_find?_eq_some hfind, rfl⟩

/-- The agreement, as `getById` shows it, or how it does not. -/
def Shown (ns : List Note) (a : Id) : Option Found → Prop
  | some found => .shown a found.agreement.status ∈ ns
  | none => ∃ ids, .listed ids ∈ ns ∧ a ∉ ids

theorem first_found {rows : List Agreement} (h : a ∈ rows.map (·.id)) :
    a ∈ ((rows.filter fun r => r.id = a).map (·.id)).take 1 := by
  obtain ⟨r, hr, hid⟩ := List.mem_map.mp h
  have hmem : r ∈ rows.filter fun r => r.id = a :=
    List.mem_filter.mpr ⟨hr, decide_eq_true hid⟩
  cases hrows : rows.filter fun r => r.id = a with
  | nil =>
      rw [hrows] at hmem
      cases hmem
  | cons r' rs =>
      have hhead : r' ∈ rows.filter fun r => r.id = a := by
        rw [hrows]
        exact List.mem_cons_self
      have hid' : r'.id = a := by simpa using (List.mem_filter.mp hhead).2
      simp [hid']

theorem takes_loadAgreement :
    Takes (Knows ns) (loadFirst .agreement fun r : Agreement => r.id = a)
      fun (found : Option Agreement) p => ∃ ns', ns ⊆ ns' ∧ Knows ns' p ∧
        Shown ns' a (found.map fun r => { agreement := r, attached := true }) := by
  refine Diary.Runs.bind (Q := fun (rows : List Agreement) p => ∃ ns', ns ⊆ ns' ∧ Knows ns' p ∧
      Shown ns' a (rows.head?.map fun r => { agreement := r, attached := true })) ?_
    fun rows => Diary.Runs.ret fun p hp => hp
  refine Diary.Runs.quiet (fun _ h => h.any .nothing) (fun p _ => Any.lost p) trivial ?_
  rintro p rows db es m hp hkept - ⟨hfound, hall⟩
  cases rows with
  | cons r rows =>
      refine ⟨_, List.subset_cons_self _ _, hp.learn (n := .shown r.id r.status) ?_, ?_⟩
      · exact List.mem_map_of_mem (f := fun r : Agreement => Note.shown r.id r.status)
          List.mem_cons_self
      · have hid : r.id ∈ _ := hfound r List.mem_cons_self
        have hmem := List.mem_of_mem_take hid
        obtain ⟨r', hr', hid'⟩ := List.mem_map.mp hmem
        have ha : r'.id = a := by simpa using (List.mem_filter.mp hr').2
        have : r.id = a := hid'.symm.trans ha
        rw [← this]
        exact List.mem_cons_self
  | nil =>
      refine ⟨_, List.subset_cons_self _ _,
        hp.learn (n := .listed ((db .agreement : List Agreement).map (·.id)))
          (List.mem_singleton.mpr rfl), _, List.mem_cons_self, ?_⟩
      intro ha
      -- a row that is committed is in view, and would have been found
      have hids : a ∈ (db.applyAll es Table.agreement).map adehun.id :=
        Db.map_subset_applyAll (fun d hd => (hkept d hd).agreements.ids) db ha
      obtain ⟨r', hr', -⟩ := hall a (first_found hids) (Option.isSome_iff_ne_none.mpr fun hnone =>
        Db.lookup_eq_none.mp hnone hids)
      cases hr'

theorem takes_getById {f : Option Found → App α}
    (hf : ∀ ns' found, ns ⊆ ns' → Shown ns' a found → Takes (Knows ns') (f found) Q) :
    Takes (Knows ns) ((getById a).bind f) Q := by
  have hk := steady_knows ns
  have hcached : Takes (Knows ns) (cacheGet (.agreement a)) fun found p =>
      Knows ns p ∧ ∀ r, found = some (.agreement r) → Knows (.shown a r.status :: ns) p := by
    have hlook : register.Runs (Knows ns)
        (.perform (.shared fun m : Shared =>
          (m, (m.cache.find? (·.1 = CacheKey.agreement a)).map (·.2))))
        (fun found p => Knows ns p ∧ ∀ r, found = some (.agreement r) →
          Knows (.shown a r.status :: ns) p) (Knows ns) := by
      refine Diary.Runs.quiet (fun _ h => h) (fun _ h => h.lost) trivial ?_
      rintro p found db es m hp - - hfound
      refine ⟨hp.noted _, fun r hr => hp.learn ?_⟩
      exact mem_copies (hfound.symm.trans hr)
    intro p hp
    refine .tryCatch ((hlook p hp).mono (fun _ _ h => h) fun e p hp => ⟨hp, ?_⟩)
    intro r hr
    cases hr
  have hgot : Takes (Knows ns) (getById a) fun found p =>
      ∃ ns', ns ⊆ ns' ∧ Knows ns' p ∧ Shown ns' a found := by
    refine hcached.bind fun cached => ?_
    split
    · next r =>
        refine Diary.Runs.ret fun p hp => ⟨_, List.subset_cons_self _ _, hp.2 r rfl, ?_⟩
        exact List.mem_cons_self
    · refine Diary.Runs.conseq ?_ (fun _ h => h.1) (fun _ _ h => h) fun _ h => h
      refine takes_loadAgreement.bind fun found => ?_
      cases found with
      | none => exact Diary.Runs.ret fun p hp => hp
      | some r =>
          rintro p ⟨ns', hsub, hp, hshown⟩
          have hk' := steady_knows ns'
          refine (hk'.bind (hk'.routine.cacheSet (fun _ => CacheKey.noConfusion) _) fun _ =>
            Diary.Runs.ret fun p hp => ?_) p hp
          exact ⟨ns', hsub, hp, hshown⟩
  refine hgot.bind fun found => ?_
  rintro p ⟨ns', hsub, hp, hshown⟩
  exact hf ns' found hsub hshown p hp

theorem takes_getEscrowContext {f : EscrowContext → App α}
    (hf : ∀ ns' context s, ns ⊆ ns' → .shown a s ∈ ns' → Takes (Knows ns') (f context) Q) :
    Takes (Knows ns) ((getEscrowContext a).bind f) Q := by
  have hcontext : Takes (Knows ns) (getEscrowContext a) fun _ p =>
      ∃ ns' s, ns ⊆ ns' ∧ .shown a s ∈ ns' ∧ Knows ns' p := by
    refine takes_getById fun ns' found hsub hshown => ?_
    cases found with
    | none => exact Diary.Runs.raise fun p hp => hp.any .nothing
    | some found =>
        have hk := steady_knows ns'
        refine hk.bind (hk.routine.getParticipantsForAgreement a) fun participants => ?_
        split
        · exact Diary.Runs.ret fun p hp => ⟨ns', _, hsub, hshown, hp⟩
        · exact Diary.Runs.raise fun p hp => hp.any .nothing
  refine hcontext.bind fun context => ?_
  rintro p ⟨ns', s, hsub, hshown, hp⟩
  exact hf ns' context s hsub hshown p hp

theorem takes_prepareEscrowFunding {u : Id} {f : EscrowContext → App α}
    (hf : ∀ ns' context, Fundable ns' a → Takes (Knows ns') (f context) Q) :
    Takes (Knows ns) ((prepareEscrowFunding a u).bind f) Q := by
  have hprepared : Takes (Knows ns) (prepareEscrowFunding a u) fun _ p =>
      ∃ ns', Fundable ns' a ∧ Knows ns' p := by
    refine takes_getEscrowContext fun ns' context s _ hshown => ?_
    have hk := steady_knows ns'
    refine hk.bind (hk.routine.raiseIf _ _) fun _ => ?_
    refine takes_getById fun ns'' found hsub hfound => ?_
    cases found with
    | none =>
        obtain ⟨ids, hids, ha⟩ := hfound
        exact Diary.Runs.ret fun p hp =>
          ⟨ns'', ⟨s, hsub hshown, Or.inr ⟨ids, hids, ha⟩⟩, hp⟩
    | some found =>
        refine (steady_knows ns'').check fun hcan => ?_
        have hopen : notFundable found.agreement.status = false := by simpa using hcan
        exact Diary.Runs.ret fun p hp => ⟨ns'', ⟨_, hfound, Or.inl hopen⟩, hp⟩
  refine hprepared.bind fun context => ?_
  rintro p ⟨ns', hfundable, hp⟩
  exact hf ns' context hfundable p hp

end Shown

/-! ## Movements of escrow -/

section Movements

variable {P T : register.Page → Prop}

/-- A movement, by what reading and a new wallet leave, and what is asked for
under the locks. -/
structure Moving (P : register.Page → Prop) : Prop where
  any : ∀ p, P p → Any p
  read : Reading fun _ p => Takes P p fun _ => P
  wallet : ∀ u, Takes P (ensureWallet u) fun _ => P

theorem Steady.moving (h : Steady P) : Moving P where
  any := h.any
  read := reading_takes h.any h.noted
  wallet u := h.takes (h.ensureWallet u)

theorem Moving.lockedEntry (h : Moving P) {a : EntryArgs}
    (hentry : ∀ e, Transaction.From a e → Takes P (add .transaction e) fun _ => T) (x : Id) :
    Takes P (do
      let wallet ← lockWallet x
      let entry ← applyLedgerEntry wallet.id a
      pure (wallet.id, entry.id) : App (Id × Id)) fun _ => T := by
  have hr := h.read
  refine (hr.lockWallet x).bind fun wallet => ?_
  refine Diary.Runs.bind (Q := fun _ => T) ?_ fun _ => Diary.Runs.ret fun _ h => h
  refine (hr.raiseIf _ _).bind fun _ => (hr.attributes .wallet _).bind fun w => ?_
  refine (hr.raiseIf _ _).bind fun _ => (hr.raiseIf _ _).bind fun _ => ?_
  refine hr.now.bind fun time => hr.fresh.bind fun id => ?_
  exact (takes_assignWallet _ _ _).bind fun _ =>
    (hentry _ ⟨rfl, rfl, rfl, rfl, rfl⟩).bind fun _ => Diary.Runs.ret fun _ h => h

theorem Moving.applyEntry (h : Moving P) {a : EntryArgs}
    (hentry : ∀ e, Transaction.From a e → Takes P (add .transaction e) fun _ => Any) :
    Leads P (applyEntry a) := by
  have hany := steady_any.routine
  refine (h.read.getEntryByReference _).bind fun found => ?_
  cases found with
  | some existing =>
      exact (h.read.replay existing).conseq (fun _ h => h) (fun _ => h.any) fun _ h => h
  | none =>
      refine (h.read.resolveWalletId h.wallet _).bind fun walletId => ?_
      have hmoved := h.lockedEntry hentry walletId
      have hsaved : Leads P (do
          let wallet ← lockWallet walletId
          let entry ← applyLedgerEntry wallet.id a
          commit
          pure (wallet.id, entry.id) : App (Id × Id)) := by
        rw [Plain.lockedEntry_commit]
        exact hmoved.bind fun ids => hany.bind hany.commit fun _ => hany.ret ids
      refine Diary.Runs.attempt hsaved (fun ids => ?_) fun e => ?_
      · exact hany.bind (hany.refresh .transaction _) fun _ =>
          hany.bind (hany.refresh .wallet _) fun _ => hany.bind (hany.cacheDelete _) fun _ =>
            hany.ret _
      · split
        · refine hany.bind hany.rollback fun _ =>
            hany.bind (hany.getEntryByReference _) fun found => ?_
          cases found with
          | none => exact hany.raise _
          | some existing => exact hany.replay existing
        · exact hany.bind hany.rollback fun _ => hany.raise _
        · next h => cases h

theorem Moving.applyTransfer (h : Moving P) (hany' : ∀ p, T p → Any p)
    (hread : Reading fun _ p => Takes T p fun _ => T) (hPT : ∀ p, P p → T p) {g : GroupId}
    {debit credit : LedgerLeg}
    (hentry : ∀ e, Transaction.From (debit.asArgs (.out g) g) e ∨
      Transaction.From (credit.asArgs (.into g) g) e → Takes T (add .transaction e) fun _ => T) :
    Leads P (applyTransfer g debit credit) := by
  have hany := steady_any.routine
  refine (h.read.getEntriesByGroup _).bind fun existing => ?_
  split
  · exact (h.read.replayTransfer _ _).conseq (fun _ h => h) (fun _ => h.any) fun _ h => h
  · refine (h.read.resolveWalletId h.wallet _).bind fun a =>
      (h.read.resolveWalletId h.wallet _).bind fun b => ?_
    have hmoved := hread.lockedTransfer_of takes_assignWallet hentry a b
    have hsaved : Leads P (do
        lockWallets a b
        let debitEntry ← applyLedgerEntry a (debit.asArgs (.out g) g)
        let creditEntry ← applyLedgerEntry b (credit.asArgs (.into g) g)
        commit
        pure (debitEntry.id, creditEntry.id) : App (Id × Id)) := by
      rw [Plain.lockedTransfer_commit]
      refine (hmoved.conseq hPT (fun _ => hany') fun _ h => h).bind fun ids => ?_
      exact hany.bind hany.commit fun _ => hany.ret ids
    refine Diary.Runs.attempt hsaved (fun ids => ?_) fun e => ?_
    · exact hany.bind (hany.refresh .transaction _) fun _ =>
        hany.bind (hany.refresh .transaction _) fun _ => hany.bind (hany.cacheDelete _) fun _ =>
          hany.ret _
    · split
      · exact hany.bind hany.rollback fun _ => hany.bind (hany.getEntriesByGroup _) fun existing =>
          hany.ite (hany.replayTransfer _ _) (hany.raise _)
      · exact hany.bind hany.rollback fun _ => hany.raise _
      · next h => cases h

end Movements

section Settling

variable {ns : List Note} {a : Id} {s : AgreementStatus} {es : List Transaction}
  {p : register.Page} {e : Transaction}

/-- A session settles an agreement it has checked, and has asked for these
entries of it. -/
def Settling (a : Id) (s : AgreementStatus) (es : List Transaction) (p : register.Page) : Prop :=
  ∃ (r : Agreement) (locked released : List Id), r.id = a ∧ settleable s r.status = true ∧
    a ∈ locked ∧ (∀ e ∈ es, e.reference.settles = some (a, s)) ∧
    Intends [.got r, .ledger locked released] (statusWrite r s ++ entryWrites es) p

theorem Settling.any (h : Settling a s es p) : Any p := by
  obtain ⟨r, locked, released, rfl, hs, hfunded, hlegs, hasks⟩ := h
  exact hasks.any (.settle List.mem_cons_self hs (List.mem_cons_of_mem _ List.mem_cons_self)
    hfunded hlegs)

theorem Settling.noted (h : Settling a s es p) (ns : List Note) : Settling a s es (p.noted ns) := by
  obtain ⟨r, locked, released, hr, hs, hfunded, hlegs, hasks⟩ := h
  exact ⟨r, locked, released, hr, hs, hfunded, hlegs, hasks.noted ns⟩

theorem settleable_self {s s' : AgreementStatus} (h : settleable s s' = true) :
    settleable s s = true := by
  cases s <;> first | rfl | cases h

/-- The status is committed by itself, ahead of the entries. -/
theorem Settling.done (h : Settling a s [] p) : Settling a s [] p.done := by
  obtain ⟨r, locked, released, rfl, hs, hfunded, hlegs, hasks⟩ := h
  have hledger : Note.ledger locked released ∈ p.done.notes := by
    refine List.mem_map.mpr ⟨_, hasks.told (by simp : Note.ledger locked released ∈ _), ?_⟩
    rw [hasks.batch, statusWrite]
    split <;> rfl
  have hgot : Note.got { r with status := s } ∈ p.done.notes := by
    refine List.mem_map.mpr ⟨_, hasks.told (by simp : Note.got r ∈ _), ?_⟩
    rw [hasks.batch, statusWrite]
    split
    · next heq =>
        rw [← heq]
        rfl
    · simp [entryWrites, register, reviseNote, setStatus]
  refine ⟨{ r with status := s }, locked, released, rfl, settleable_self hs, hfunded, hlegs, ?_⟩
  refine ⟨?_, ?_⟩
  · intro n hn
    simp only [List.mem_cons, List.not_mem_nil, or_false] at hn
    rcases hn with rfl | rfl
    · exact hgot
    · exact hledger
  · simp [statusWrite, entryWrites]

theorem moving_settling : Moving (Settling a s []) := by
  have hread : Reading fun _ p => Takes (Settling a s []) p fun _ => Settling a s [] :=
    reading_takes (fun _ h => h.any) fun _ ns h => h.noted ns
  refine ⟨fun _ h => h.any, hread, fun u => hread.ensureWallet (fun x u => ?_) ?_ u⟩
  · refine Diary.Runs.upsert (fun _ h => h.any) (fun p _ => Any.lost p) ?_ fun _ _ h => h
    intro v d hd
    dsimp only at hd
    split at hd
    · cases hd
    · obtain rfl := List.mem_singleton.mp hd
      exact ⟨proper_of_ne (by simp) (by simp) (by simp), rfl⟩
  · exact Diary.Runs.commit (fun _ h => h.any) (fun p _ => Any.lost p) (fun _ h => h.any)
      fun _ h => h.done

/-- One more entry. -/
theorem Settling.add (h : Settling a s es p) (he : e.reference.settles = some (a, s)) :
    Settling a s (es ++ [e]) (p.add (.insert Table.transaction e)) := by
  obtain ⟨r, locked, released, hr, hs, hfunded, hlegs, hasks⟩ := h
  refine ⟨r, locked, released, hr, hs, hfunded, ?_, ?_⟩
  · intro e' he'
    rcases List.mem_append.mp he' with he' | he'
    · exact hlegs e' he'
    · rw [List.mem_singleton.mp he']
      exact he
  · have hescrow : decides (.insert Table.transaction e) = true := by
      show e.reference.escrow = true
      cases hr : e.reference <;> simp_all [Reference.escrow, Reference.settles]
    have hadd := hasks.add hescrow
    rwa [List.append_assoc, show entryWrites es ++ [Write.insert Table.transaction e] =
      entryWrites (es ++ [e]) by simp [entryWrites]] at hadd

theorem takes_leg (he : e.reference.settles = some (a, s)) (ht : e.type ≠ .escrowLock) :
    Takes (fun p => ∃ es, Settling a s es p) (Adehun.add .transaction e)
      fun _ p => ∃ es, Settling a s es p := by
  refine Diary.Runs.stage (proper_entry fun h => absurd h ht) ?_
  rintro p ⟨es, hp⟩
  exact ⟨_, hp.add he⟩

theorem leads_releaseEscrow {d b : Id} {amount : Kobo} {description : String} :
    Leads (Settling a .completed []) (releaseEscrow a d b amount description) := by
  refine moving_settling.applyTransfer (T := fun p => ∃ es, Settling a .completed es p)
    (fun _ ⟨_, h⟩ => h.any) (reading_takes (fun _ ⟨_, h⟩ => h.any) fun _ ns ⟨es, h⟩ =>
      ⟨es, h.noted ns⟩) (fun _ h => ⟨[], h⟩) ?_
  rintro e (he | he)
  · exact takes_leg (by rw [he.reference]; rfl) (by rw [he.type]; simp [LedgerLeg.asArgs])
  · exact takes_leg (by rw [he.reference]; rfl) (by rw [he.type]; simp [LedgerLeg.asArgs])

theorem leads_refundEscrow {d : Id} {amount : Kobo} {description : String} :
    Leads (Settling a .refunded []) (refundEscrow a d amount description) := by
  refine moving_settling.applyEntry fun e he => ?_
  exact (takes_leg (by rw [he.reference]; rfl) (by rw [he.type]; simp)).conseq
    (fun _ h => ⟨[], h⟩) (fun _ _ ⟨_, h⟩ => h.any) fun _ h => h

/-- The status is staged by whoever has found the money in escrow. -/
theorem takes_assignSettled {r : Agreement} {locked released : List Id}
    (hs : settleable s r.status = true) (hledger : .ledger locked released ∈ ns)
    (hfunded : r.id ∈ locked) :
    Takes (Knows (.got r :: ns)) (assignStatus r s) fun _ => Settling r.id s [] := by
  have hasks : ∀ {ds : List (Write adehun)} {p : register.Page}, Intends (.got r :: ns) ds p →
      ds = statusWrite r s → Settling r.id s [] p := by
    rintro ds p hp rfl
    refine ⟨r, locked, released, rfl, hs, hfunded, by simp, ?_, ?_⟩
    · intro n hn
      simp only [List.mem_cons, List.not_mem_nil, or_false] at hn
      rcases hn with rfl | rfl
      · exact hp.told List.mem_cons_self
      · exact hp.told (List.mem_cons_of_mem _ hledger)
    · rw [hp.batch]
      simp [entryWrites]
  unfold assignStatus
  split
  · next heq => exact Diary.Runs.ret fun p hp => hasks hp (by simp [statusWrite, heq])
  · next hne =>
      exact Diary.Runs.stage (proper_status _ _) fun p hp =>
        hasks (hp.add rfl) (by simp [statusWrite, hne])

end Settling

end Adehun
