import Adehun.Routine.Requests
import Adehun.Sessions.Diary
import Adehun.Sessions.Stable

/-!
# What a request commits

Agreements and disputes are decided on: an operation reads a row, checks its
status and assigns another, and the entries of an escrow are made after the
same checks. `register` is the diary of these decisions. It notes the
agreements and disputes a session is handed, the statuses it is shown by a
query or a cached copy, and what the ledger holds when it looks. A `Deed` is
what the checks of the operations let through in view of such notes, and
every request commits deeds only, whatever the others do. Whether a note is
still right when the deed is committed is left open: that is where the
operations can go wrong.
-/

namespace Adehun

open Sessions

/-! ## Notes -/

/-- What a session may go by. -/
inductive Note
  /-- An agreement that it asked for. -/
  | got (r : Agreement)
  /-- The status of an agreement, in the answer to a query or in the cache. -/
  | shown (a : Id) (s : AgreementStatus)
  /-- The agreements there are, when a query finds none. -/
  | listed (ids : List Id)
  /-- A dispute that it asked for. -/
  | seen (d : Dispute)
  /-- The agreements with an `escrow_lock` entry, and those released. -/
  | ledger (locked released : List Id)

/-- The agreements the ledger has an `escrow_lock` entry for. -/
def lockedIn (db : Db adehun) : List Id :=
  (db .transaction : List Transaction).filterMap fun t =>
    if t.type = .escrowLock then t.agreementId else none

/-- The agreements whose release has its debit leg in the ledger. -/
def releasedIn (db : Db adehun) : List Id :=
  (db .transaction : List Transaction).filterMap fun t =>
    match t.reference with
    | .out (.release a) => some a
    | _ => none

/-- The statuses of the agreements in the cache. -/
def copies (m : Shared) : List Note :=
  m.cache.filterMap fun
    | (.agreement a, .agreement r) => some (.shown a r.status)
    | _ => none

/-- What is noted of an answer. -/
def noteOf : {X : Type} → Db adehun → Shared → Stmt adehun X → X → List Note
  | _, _, _, .get _ ⟨Table.agreement, _⟩, found => (found : Option Agreement).toList.map .got
  | _, _, _, .get _ ⟨Table.dispute, _⟩, found => (found : Option Dispute).toList.map .seen
  | _, db, _, .load Table.agreement _, rows =>
      match (rows : List Agreement) with
      | [] => [.listed ((db .agreement : List Agreement).map (·.id))]
      | rows => rows.map fun r => .shown r.id r.status
  | _, db, _, .select _, _ => [.ledger (lockedIn db) (releasedIn db)]
  | _, _, m, .shared _, _ => copies m
  | _, _, _, _, _ => []

/-- A row the session was handed, as the session itself has left it. -/
def reviseNote : Write adehun → Note → Note
  | .update Table.agreement a p, .got r => .got (if r.id = a then p.run r else r)
  | .update Table.dispute id p, .seen d => .seen (if d.id = id then p.run d else d)
  | _, n => n

/-! ## Deeds -/

/-- The agreement an entry settles, and how. -/
def Reference.settles : Reference → Option (Id × AgreementStatus)
  | .out (.release a) | .into (.release a) => some (a, .completed)
  | .refund a => some (a, .refunded)
  | _ => none

/-- The entries of an escrow: its lock, its release and its refund. -/
def Reference.escrow : Reference → Bool
  | .lock _ => true
  | r => r.settles.isSome

/-- The writes that decide on agreements and disputes: changes of agreements,
disputes of any kind, and the entries of an escrow. -/
def decides : Write adehun → Bool
  | .insert Table.agreement _ => false
  | .insert Table.transaction t => (t : Transaction).reference.escrow
  | d => d.key.table = .agreement || d.key.table = .dispute

/-- What all writes of the requests keep to. -/
structure Proper (d : Write adehun) : Prop where
  entries : d.Retains Table.transaction fun t : Transaction => (t.reference, t.agreementId, t.type)
  disputes : d.Retains Table.dispute fun d : Dispute => (d.agreementId, d.agreementStatusBefore)
  agreements : d.Retains Table.agreement fun _ : Agreement => ()
  pending : ∀ r : Agreement, d = .insert Table.agreement r → r.status = .pending
  locks : ∀ t : Transaction, d = .insert Table.transaction t → t.type = .escrowLock →
    ∃ a, t.reference = .lock a

/-- An agreement has been shown to be one that can be funded; or it has been
shown, and then not found. -/
def Fundable (ns : List Note) (a : Id) : Prop :=
  ∃ s, .shown a s ∈ ns ∧ (notFundable s = false ∨ ∃ ids, .listed ids ∈ ns ∧ a ∉ ids)

/-- The statuses an agreement may have when it is released or refunded. -/
def settleable : AgreementStatus → AgreementStatus → Bool
  | .completed, s => s ≠ .disputed && s ≠ .cancelled && s ≠ .refunded
  | .refunded, s => s ≠ .completed
  | _, _ => false

/-- A status assigned to an agreement, if it is not the one it has. -/
def statusWrite (r : Agreement) (s : AgreementStatus) : List (Write adehun) :=
  if r.status = s then [] else [.update Table.agreement r.id (setStatus s)]

def entryWrites (es : List Transaction) : List (Write adehun) :=
  es.map fun e => .insert Table.transaction e

/-- What may be committed, of the writes that decide, in view of some notes. -/
inductive Deed (ns : List Note) : List (Write adehun) → Prop
  | nothing : Deed ns []
  | accept {r : Agreement} {s : AgreementStatus} (got : .got r ∈ ns)
      (pending : r.status = .pending) (next : s = .active ∨ s = .pending) :
      Deed ns [.update Table.agreement r.id (setStatus s)]
  | cancel {r : Agreement} {locked released : List Id} (got : .got r ∈ ns)
      (live : r.status = .pending ∨ r.status = .active) (ledger : .ledger locked released ∈ ns)
      (spare : r.id ∉ locked ∨ r.id ∈ released) :
      Deed ns [.update Table.agreement r.id (setStatus .cancelled)]
  | raise {r : Agreement} {d : Dispute} (got : .got r ∈ ns) (active : r.status = .active)
      (isOpen : d.status = .open) (on : d.agreementId = r.id)
      (before : d.agreementStatusBefore = .active) :
      Deed ns [.insert Table.dispute d, .update Table.agreement r.id (setStatus .disputed)]
  | review {d : Dispute} (seen : .seen d ∈ ns) (isOpen : d.status = .open) :
      Deed ns [.update Table.dispute d.id (setDisputeStatus .underReview)]
  | resolve {d : Dispute} {data : DisputeResolveRequest} {u : Id} {time : Nat}
      (seen : .seen d ∈ ns) (unresolved : d.status ≠ .resolved) :
      Deed ns [.update Table.dispute d.id (setResolution data u time)]
  | restore {d : Dispute} {r : Agreement} {data : DisputeResolveRequest} {u : Id} {time : Nat}
      (seen : .seen d ∈ ns) (unresolved : d.status ≠ .resolved) (got : .got r ∈ ns)
      (on : r.id = d.agreementId) (disputed : r.status = .disputed) :
      Deed ns [.update Table.dispute d.id (setResolution data u time),
        .update Table.agreement r.id (setStatus d.agreementStatusBefore)]
  | lock {a : Id} {e : Transaction} (fundable : Fundable ns a) (reference : e.reference = .lock a)
      (on : e.agreementId = some a) (type : e.type = .escrowLock) :
      Deed ns [.insert Table.transaction e]
  | settle {r : Agreement} {s : AgreementStatus} {locked released : List Id}
      {es : List Transaction} (got : .got r ∈ ns) (allowed : settleable s r.status)
      (ledger : .ledger locked released ∈ ns) (funded : r.id ∈ locked)
      (legs : ∀ e ∈ es, e.reference.settles = some (r.id, s)) :
      Deed ns (statusWrite r s ++ entryWrites es)

theorem Deed.mono {ns ns' : List Note} {ds : List (Write adehun)} (h : Deed ns ds)
    (hns : ns ⊆ ns') : Deed ns' ds := by
  cases h with
  | nothing => exact .nothing
  | accept got pending next => exact .accept (hns got) pending next
  | cancel got live ledger spare => exact .cancel (hns got) live (hns ledger) spare
  | raise got active isOpen on before => exact .raise (hns got) active isOpen on before
  | review seen isOpen => exact .review (hns seen) isOpen
  | resolve seen unresolved => exact .resolve (hns seen) unresolved
  | restore seen unresolved got on disputed =>
      exact .restore (hns seen) unresolved (hns got) on disputed
  | lock fundable reference on type =>
      obtain ⟨s, hs, hcan⟩ := fundable
      refine .lock ⟨s, hns hs, ?_⟩ reference on type
      exact hcan.imp id fun ⟨ids, hids, ha⟩ => ⟨ids, hns hids, ha⟩
  | settle got allowed ledger funded legs =>
      exact .settle (hns got) allowed (hns ledger) funded legs

/-- The diary of what is decided on agreements and disputes. -/
def register : Diary adehun where
  Note := Note
  note := noteOf
  revise := reviseNote
  decided := decides
  Kept := Proper
  Permits := Deed

/-! ## Writes on the side -/

theorem proper_of_ne {d : Write adehun} (ht : d.key.table ≠ .transaction)
    (hd : d.key.table ≠ .dispute) (ha : d.key.table ≠ .agreement) : Proper d where
  entries := Write.retains_of_ne ht
  disputes := Write.retains_of_ne hd
  agreements := Write.retains_of_ne ha
  pending := by
    rintro r rfl
    exact absurd rfl ha
  locks := by
    rintro t rfl
    exact absurd rfl ht

theorem decides_of_ne {d : Write adehun} (ht : d.key.table ≠ .transaction)
    (hd : d.key.table ≠ .dispute) (ha : d.key.table ≠ .agreement) : decides d = false := by
  cases d with
  | insert t r => cases t <;> simp_all [decides]
  | update t id p => cases t <;> simp_all [decides]
  | delete t id => cases t <;> simp_all [decides]

theorem proper_of_side {d : Write adehun} (hd : Side d) : Proper d :=
  proper_of_ne (ne_of_side hd rfl) (ne_of_side hd rfl) (ne_of_side hd rfl)

theorem decides_of_side {d : Write adehun} (hd : Side d) : decides d = false :=
  decides_of_ne (ne_of_side hd rfl) (ne_of_side hd rfl) (ne_of_side hd rfl)

/-- An entry that is not of an escrow. -/
theorem proper_entry {e : Transaction} (he : e.type = .escrowLock → ∃ a, e.reference = .lock a) :
    Proper (.insert Table.transaction e) where
  entries := trivial
  disputes := trivial
  agreements := trivial
  pending _ h := by cases h
  locks := by
    rintro t h
    cases h
    exact he

theorem proper_status (a : Id) (s : AgreementStatus) :
    Proper (.update Table.agreement a (setStatus s)) where
  entries := Write.retains_of_ne (by simp)
  disputes := Write.retains_of_ne (by simp)
  agreements _ _ := rfl
  pending _ h := by cases h
  locks _ h := by cases h

theorem proper_ruling {id : Id} {p : Patch adehun .dispute}
    (hp : ∀ d : Dispute, ((p.run d : Dispute).agreementId,
      (p.run d : Dispute).agreementStatusBefore) = (d.agreementId, d.agreementStatusBefore)) :
    Proper (.update Table.dispute id p) where
  entries := Write.retains_of_ne (by simp)
  disputes _ d := hp d
  agreements := Write.retains_of_ne (by simp)
  pending _ h := by cases h
  locks _ h := by cases h

theorem proper_entryStatus (id : Id) (s : LedgerEntryStatus) (time : Option Nat) :
    Proper (.update Table.transaction id (setEntryStatus s time)) where
  entries _ _ := rfl
  disputes := Write.retains_of_ne (by simp)
  agreements := Write.retains_of_ne (by simp)
  pending _ h := by cases h
  locks _ h := by cases h

end Adehun
