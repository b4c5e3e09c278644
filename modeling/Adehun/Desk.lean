import Adehun.Routine.Aside
import Adehun.Sessions.Schedule

/-!
# One owner of an idempotency key at a time

A request reserves its key in one statement, runs its handler, and completes
or gives up the reservation by the id of its row. A reservation that has been
in progress for long can be taken over, and keeps its id: from then on two
requests think it theirs. And where a reservation is gone between two
statements, the handler runs without one.

The desk keeps, for every session, where it is with its key. `firm` is the
condition under which a reservation is its owner's until the owner is done
with it: nobody takes over or sweeps away what a request at work has
reserved, none of them outlives its own reservation, and a reservation that
is in the way is found when it is looked up.
-/

namespace Adehun

open Sessions Observer.Discipline
open Observer (Safe)

/-! ## What is seen of the keys -/

/-- The name of the key a row reserves. -/
def IdempotencyKey.name (r : IdempotencyKey) : KeyName := ⟨r.userId, r.endpoint, r.key⟩

/-- What is replayed from a completed key. -/
def IdempotencyKey.replayed (r : IdempotencyKey) : Response where
  statusCode := r.responseStatusCode.getD 200
  body := r.responseBody.getD .null

/-- Where a session is with its key: it has none, it is about to reserve it,
its key was taken, it has found who has it, its handler runs (with the record
of its reservation, or with none), or it is done. -/
inductive Phase
  | idle
  | reserving (k : KeyName)
  | refused (k : KeyName)
  | found (r : IdempotencyKey)
  | running (k : KeyName) (record : Option Id)
  | over

/-- A key that was taken is looked up: the row that is found is answered
with, and where there is none the handler runs without a reservation. -/
def Phase.looked (rows : List IdempotencyKey) : Phase → Phase
  | .refused k =>
      match rows.head? with
      | some r => .found r
      | none => .running k none
  | p => p

/-- The row of a reservation. -/
def reservation (db : Db adehun) (id : Id) : Option IdempotencyKey :=
  db.lookup ⟨Table.idempotencyKey, id⟩

/-- The first commit of a session reserves its key or does not. After that a
commit that leaves the reservation not in progress is the last of the
handler. -/
def Phase.committed (writes : List (Write adehun)) (after : Db adehun) : Phase → Phase
  | .reserving k =>
      match (after .idempotencyKey : List IdempotencyKey).find? fun r => r.name = k with
      | some r =>
          if writes.any fun d => d.key = ⟨Table.idempotencyKey, r.id⟩ then .running k (some r.id)
          else .refused k
      | none => .refused k
  | .running k (some id) =>
      match reservation after id with
      | some r => if r.status = .inProgress then .running k (some id) else .over
      | none => .over
  | p => p

/-- The phase of every session, the time it has read last, and the latest
time anybody has read. -/
structure Desk where
  phase : Nat → Phase := fun _ => .idle
  read : Nat → Nat := fun _ => 0
  latest : Nat := 0

def Desk.enter (o : Desk) (i : Nat) (p : Phase) : Desk :=
  { o with phase := Function.update o.phase i p }

def Desk.look (i : Nat) : {X : Type} → Stmt adehun X → X → Desk → Desk
  | _, .load Table.idempotencyKey _, rows, o => o.enter i ((o.phase i).looked rows)
  | _, .now, time, o =>
      { o with read := Function.update o.read i time, latest := max o.latest time }
  | _, _, _, o => o

/-- Writes of session `i` that leave the reservations of the others that run
alone. -/
def Desk.Spares (o : Desk) (i : Nat) (ds : List (Write adehun)) : Prop :=
  ∀ d ∈ ds, ∀ id, d.key = ⟨Table.idempotencyKey, id⟩ →
    ∀ j k, o.phase j = .running k (some id) → j = i

/-- Reservations stand: a request at work is not outlived by its reservation,
nobody else takes it over or sweeps it away, and a taken key is found. -/
def firm (o : Desk) : Guard adehun where
  exec w i s c :=
    match s with
    | .upsert _ f => o.Spares i (f (w.view i)).1
    | .now => ∀ k id r, o.phase i = .running k (some id) → reservation w.db id = some r →
        w.shared.now ≤ r.expiresAt
    | .load t q => t = .idempotencyKey →
        ∃ id ∈ q (w.view i), w.answer i c.alive ⟨t, id⟩ ≠ none
    | _ => True

/-- A row that was answered with is as it was, until its time is over. -/
def Genuine (db : Db adehun) (o : Desk) (r : IdempotencyKey) : Prop :=
  r.status = .completed → reservation db r.id = some r ∨ r.expiresAt < o.latest

/-- The handlers that run have their reservations, each its own, and what is
replayed is what was stored. -/
structure Firm (db : Db adehun) (o : Desk) : Prop where
  guarded : ∀ i k, o.phase i ≠ .running k none
  held : ∀ i k id, o.phase i = .running k (some id) →
    ∃ r, reservation db id = some r ∧ r.name = k ∧ r.status = .inProgress ∧ o.read i ≤ r.expiresAt
  sole : ∀ i j k k' id, o.phase i = .running k (some id) → o.phase j = .running k' (some id) →
    i = j
  replayed : ∀ i r, o.phase i = .found r → Genuine db o r
  seen : ∀ i, o.read i ≤ o.latest

/-- Two handlers do not run under one key. -/
theorem Firm.alone {db : Db adehun} {o : Desk} (h : Firm db o) (he : db.EntriesDistinct)
    {i j : Nat} {k : KeyName} {x y : Option Id} (hi : o.phase i = .running k x)
    (hj : o.phase j = .running k y) : i = j := by
  cases x with
  | none => exact absurd hi (h.guarded i k)
  | some id =>
      cases y with
      | none => exact absurd hj (h.guarded j k)
      | some id' =>
          obtain ⟨r, hr, hname, -⟩ := h.held i k id hi
          obtain ⟨r', hr', hname', -⟩ := h.held j k id' hj
          have hid : id = id' := by
            by_contra hne
            refine he Table.idempotencyKey id id' r r' hne hr hr'
              (.idempotency k.user k.endpoint k.key) ?_ ?_
            · rw [← hname]
              exact List.mem_singleton_self _
            · rw [← hname']
              exact List.mem_singleton_self _
          subst hid
          exact h.sole i j k k id hi hj

/-! ## What a session does to reservations -/

/-- Session `i` has written a row of the keys. -/
abbrev Writes (w : World adehun) (i : Nat) (id : Id) : Prop :=
  w.Touches i ⟨Table.idempotencyKey, id⟩

/-- What a session makes of a row by writing it: it is its own reservation,
or becomes it, or the row has expired and goes. -/
inductive Rightful (o : Desk) (i : Nat) (db db' : Db adehun) (id : Id) : Prop
  | holds {k : KeyName} (h : o.phase i = .running k (some id))
  | reserves {k : KeyName} (h : o.phase i = .reserving k)
      (before : ∀ r, reservation db id = some r → r.name = k ∧ r.status = .inProgress)
      (after : ∃ r, reservation db' id = some r ∧ r.name = k ∧ r.status = .inProgress ∧
        o.read i ≤ r.expiresAt)
  | sweeps {r : IdempotencyKey} (before : reservation db id = some r)
      (expired : r.expiresAt < o.read i) (after : reservation db' id = none)

/-- A session writes no reservation of another, and what it writes
rightfully. -/
structure Apart (i : Nat) (w : World adehun) (o : Desk) : Prop where
  others : ∀ id, Writes w i id → ∀ j k, o.phase j = .running k (some id) → j = i
  rightful : ∀ id, Writes w i id → Rightful o i w.db (w.view i) id

theorem apart_of_not_writes {i : Nat} {w : World adehun} {o : Desk} (h : ∀ id, ¬ Writes w i id) :
    Apart i w o :=
  ⟨fun id ht => absurd ht (h id), fun id ht => absurd ht (h id)⟩

/-- A change of a reservation that keeps what it is, and its status or
completes it. -/
structure Answers (p : Patch adehun .idempotencyKey) : Prop where
  name : ∀ r, (p.run r : IdempotencyKey).name = IdempotencyKey.name r
  expiresAt : ∀ r, (p.run r : IdempotencyKey).expiresAt = IdempotencyKey.expiresAt r
  status : ∀ r, (p.run r : IdempotencyKey).status = IdempotencyKey.status r ∨
    (p.run r : IdempotencyKey).status = .completed

/-- What is staged about keys are changes of one reservation. -/
def StagedOn (id : Id) (P : Patch adehun .idempotencyKey → Prop) (i : Nat) (w : World adehun) :
    Prop :=
  ∀ d ∈ (w.tx i).dirty, d.key.table = .idempotencyKey →
    ∃ p, d = .update .idempotencyKey id p ∧ P p

/-- A change that leaves a reservation in progress. -/
structure Binds (p : Patch adehun .idempotencyKey) : Prop where
  name : ∀ r, (p.run r : IdempotencyKey).name = IdempotencyKey.name r
  expiresAt : ∀ r, (p.run r : IdempotencyKey).expiresAt = IdempotencyKey.expiresAt r
  status : ∀ r, (p.run r : IdempotencyKey).status = IdempotencyKey.status r

/-- Where a session is with its key: with none; about to reserve one, having
read the time or not; with the reservation in its transaction, or having
found it taken; answering with the row that is in its way; running the
handler; sweeping at some time; having the end of its reservation in its
transaction. -/
inductive KeyGhost
  | idle
  | reserving (k : KeyName) (time : Option Nat)
  | claiming (k : KeyName) (found : Option Id)
  | refused (k : KeyName)
  | answering (r : IdempotencyKey)
  | running (k : KeyName) (id : Id)
  | sweeping (k : KeyName) (id : Id) (time : Nat)
  | ending (k : KeyName) (id : Id)

/-- Nothing about keys is in the transaction. -/
structure Blank (i : Nat) (w : World adehun) : Prop where
  unstaged : ∀ d ∈ (w.tx i).dirty, d.key.table ≠ .idempotencyKey
  unwritten : ∀ id, ¬ Writes w i id

/-- The keys a session has loaded are such as can be answered with. -/
def Fair (i : Nat) (w : World adehun) (o : Desk) : Prop :=
  ∀ id r, (w.tx i).objects ⟨Table.idempotencyKey, id⟩ = some r → Genuine w.db o r

/-- The reservation of a session, as committed and as the session sees it. -/
def Reserved (k : KeyName) (id : Id) (i : Nat) (w : World adehun) : Prop :=
  ∃ r₀ r, reservation w.db id = some r₀ ∧ reservation (w.view i) id = some r ∧
    r.name = k ∧ r.status = .inProgress ∧ r.expiresAt = r₀.expiresAt

/-- The end of a reservation is in the transaction. -/
def Ends (id : Id) (i : Nat) (w : World adehun) : Prop :=
  (∃ p, Write.update Table.idempotencyKey id p ∈ (w.tx i).dirty ∧
      ∀ r, (p.run r : IdempotencyKey).status = .completed) ∨
    Writes w i id ∧ ∀ r, reservation (w.view i) id = some r → r.status = .completed

def KeyGhost.Tells : KeyGhost → Nat → World adehun → Desk → Prop
  | .idle, i, w, o => Blank i w ∧ (o.phase i = .idle ∨ o.phase i = .over)
  | .reserving k time, i, w, o =>
      Blank i w ∧ o.phase i = .reserving k ∧ ∀ t ∈ time, o.read i = t
  | .claiming k none, i, w, o => Blank i w ∧ o.phase i = .reserving k
  | .claiming k (some id), i, w, o => (∀ d ∈ (w.tx i).dirty, d.key.table ≠ .idempotencyKey) ∧
      o.phase i = .reserving k ∧ Writes w i id ∧ (∀ id', Writes w i id' → id' = id) ∧
      ∃ r, reservation (w.view i) id = some r ∧ r.name = k ∧ r.status = .inProgress ∧
        o.read i ≤ r.expiresAt
  | .refused k, i, w, o => Blank i w ∧ o.phase i = .refused k ∧ Fair i w o
  | .answering r, i, w, o => Blank i w ∧ o.phase i = .found r
  | .running k id, i, w, o => o.phase i = .running k (some id) ∧ StagedOn id Binds i w ∧
      (∀ id', Writes w i id' → id' = id) ∧ Reserved k id i w
  | .sweeping k id time, i, w, o => o.phase i = .running k (some id) ∧
      StagedOn id Binds i w ∧ o.read i = time ∧ Reserved k id i w
  | .ending k id, i, w, o => o.phase i = .running k (some id) ∧ StagedOn id Answers i w ∧
      (∀ id', Writes w i id' → id' = id) ∧ Ends id i w

/-- Where a lost transaction leads back to. -/
def KeyGhost.lost : KeyGhost → KeyGhost
  | .claiming k _ => .reserving k none
  | .sweeping k id _ | .ending k id => .running k id
  | g => g

/-- Where a commit leads. -/
def KeyGhost.done : KeyGhost → KeyGhost
  | .claiming k (some id) | .sweeping k id _ => .running k id
  | .claiming k none => .refused k
  | .ending _ _ => .idle
  | g => g

/-- What a commit makes of the phase. -/
def KeyGhost.after (p : Phase) : KeyGhost → Phase
  | .claiming k (some id) => .running k (some id)
  | .claiming k none => .refused k
  | .ending _ _ => .over
  | _ => p

def KeyGhost.Commits : KeyGhost → Prop
  | .reserving _ _ => False
  | _ => True

/-- A session that has used the time it has read may not read it again. -/
def KeyGhost.Minds : KeyGhost → {X : Type} → Stmt adehun X → Prop
  | .refused _, _, .load _ _ => True
  | .reserving _ (some _), _, .now => True
  | .claiming _ _, _, .now => True
  | .sweeping _ _ _, _, .now => True
  | _, _, _ => False

def KeyGhost.Owns (g : KeyGhost) (i : Nat) (w : World adehun) (o : Desk) : Prop :=
  Apart i w o ∧ g.Tells i w o

section Owns

variable {i j : Nat} {w w' : World adehun} {o o' : Desk} {g : KeyGhost} {k : KeyName} {id : Id}

/-! ### Worlds alike for a session -/

/-- Two worlds are alike for a session as far as keys go: it has written the
same rows, and they and its reservation are the same. -/
structure Alike (i : Nat) (o : Desk) (w w' : World adehun) : Prop where
  writes : ∀ id, Writes w' i id ↔ Writes w i id
  row : ∀ id, (Writes w i id ∨ ∃ k, o.phase i = .running k (some id)) →
    reservation w'.db id = reservation w.db id
  view : ∀ id, (Writes w i id ∨ ∃ k, o.phase i = .running k (some id)) →
    reservation (w'.view i) id = reservation (w.view i) id

theorem alike_of_eq (hdb : w'.db = w.db) (hwrites : (w'.tx i).writes = (w.tx i).writes) :
    Alike i o w w' where
  writes _ := World.touches_congr hwrites
  row _ _ := by rw [hdb]
  view _ _ := by rw [World.view_congr hdb hwrites]

/-- One more write, in view. -/
theorem view_written {d : Write adehun} (hdb : w'.db = w.db)
    (hwrites : (w'.tx i).writes = (w.tx i).writes ++ [d]) : w'.view i = d.apply (w.view i) := by
  simp only [World.view, hdb, hwrites, Db.applyAll_concat]

theorem writes_written {d : Write adehun} (hwrites : (w'.tx i).writes = (w.tx i).writes ++ [d]) :
    Writes w' i id ↔ Writes w i id ∨ d.key = ⟨Table.idempotencyKey, id⟩ := by
  simp only [Writes, World.Touches, hwrites, List.mem_append, List.mem_singleton, or_and_right,
    exists_or, exists_eq_left]

theorem alike_written {d : Write adehun} (hd : d.key.table ≠ .idempotencyKey)
    (hdb : w'.db = w.db) (hwrites : (w'.tx i).writes = (w.tx i).writes ++ [d]) :
    Alike i o w w' where
  writes id := by
    rw [writes_written hwrites]
    exact or_iff_left fun hk => hd (congrArg Key.table hk)
  row _ _ := by rw [hdb]
  view id _ := by
    rw [view_written hdb hwrites]
    exact Write.lookup_apply_of_ne _ fun hk => hd (congrArg Key.table hk)

theorem Rightful.congr {db₁ db₁' db₂ db₂' : Db adehun} (h : Rightful o i db₁ db₁' id)
    (hrow : reservation db₂ id = reservation db₁ id)
    (hview : reservation db₂' id = reservation db₁' id) (hphase : o'.phase i = o.phase i)
    (hread : o'.read i = o.read i) : Rightful o' i db₂ db₂' id := by
  cases h with
  | holds h => exact .holds (hphase.trans h)
  | reserves h before after =>
      refine .reserves (hphase.trans h) ?_ ?_
      · rw [hrow]
        exact before
      · rw [hview, hread]
        exact after
  | sweeps before expired after =>
      exact .sweeps (hrow.trans before) (by rw [hread]; exact expired) (hview.trans after)

theorem Apart.alike (h : Apart i w o) (ha : Alike i o w w') (hphase : o'.phase i = o.phase i)
    (hread : o'.read i = o.read i)
    (hothers : ∀ id, Writes w i id → ∀ j k, o'.phase j = .running k (some id) → j = i) :
    Apart i w' o' := by
  refine ⟨fun id ht => hothers id ((ha.writes id).mp ht), fun id ht => ?_⟩
  have ht' := (ha.writes id).mp ht
  exact (h.rightful id ht').congr (ha.row id (Or.inl ht')) (ha.view id (Or.inl ht')) hphase hread

theorem Reserved.alike (h : Reserved k id i w) (ha : Alike i o w w')
    (hphase : o.phase i = .running k (some id)) : Reserved k id i w' := by
  obtain ⟨r₀, r, h₀, hr, hrest⟩ := h
  exact ⟨r₀, r, (ha.row id (Or.inr ⟨k, hphase⟩)).trans h₀,
    (ha.view id (Or.inr ⟨k, hphase⟩)).trans hr, hrest⟩

theorem KeyGhost.Tells.alike (h : g.Tells i w o) (ha : Alike i o w w')
    (hphase : o'.phase i = o.phase i) (hread : o'.read i = o.read i)
    (hdirty : ∀ d : Write adehun, d.key.table = .idempotencyKey →
      (d ∈ (w'.tx i).dirty ↔ d ∈ (w.tx i).dirty))
    (hfair : Blank i w → Fair i w o → Fair i w' o') : g.Tells i w' o' := by
  have hunstaged : (∀ d ∈ (w.tx i).dirty, d.key.table ≠ .idempotencyKey) →
      ∀ d ∈ (w'.tx i).dirty, d.key.table ≠ .idempotencyKey :=
    fun hu d hd ht => hu d ((hdirty d ht).mp hd) ht
  have hblank : Blank i w → Blank i w' := fun hb =>
    ⟨hunstaged hb.unstaged, fun id ht => hb.unwritten id ((ha.writes id).mp ht)⟩
  have hstaged : ∀ {id P}, StagedOn id P i w → StagedOn id P i w' :=
    fun hs d hd ht => hs d ((hdirty d ht).mp hd) ht
  have honly : ∀ {id}, (∀ id', Writes w i id' → id' = id) → ∀ id', Writes w' i id' → id' = id :=
    fun hw id' ht => hw id' ((ha.writes id').mp ht)
  cases g with
  | idle => exact ⟨hblank h.1, by rw [hphase]; exact h.2⟩
  | reserving k time =>
      exact ⟨hblank h.1, hphase.trans h.2.1, by rw [hread]; exact h.2.2⟩
  | claiming k found =>
      cases found with
      | none => exact ⟨hblank h.1, hphase.trans h.2⟩
      | some id =>
          obtain ⟨hu, hp, ht, hwr, r, hr, hrest⟩ := h
          refine ⟨hunstaged hu, hphase.trans hp, (ha.writes id).mpr ht, honly hwr, r, ?_, ?_⟩
          · exact (ha.view id (Or.inl ht)).trans hr
          · rw [hread]
            exact hrest
  | refused k => exact ⟨hblank h.1, hphase.trans h.2.1, hfair h.1 h.2.2⟩
  | answering r => exact ⟨hblank h.1, hphase.trans h.2⟩
  | running k id =>
      obtain ⟨hp, hs, hwr, hr⟩ := h
      exact ⟨hphase.trans hp, hstaged hs, honly hwr, hr.alike ha hp⟩
  | sweeping k id time =>
      obtain ⟨hp, hs, ht, hr⟩ := h
      exact ⟨hphase.trans hp, hstaged hs, hread.trans ht, hr.alike ha hp⟩
  | ending k id =>
      obtain ⟨hp, hs, hwr, hend⟩ := h
      refine ⟨hphase.trans hp, hstaged hs, honly hwr, ?_⟩
      rcases hend with ⟨p, hmem, hc⟩ | ⟨ht, hc⟩
      · exact Or.inl ⟨p, (hdirty _ rfl).mpr hmem, hc⟩
      · refine Or.inr ⟨(ha.writes id).mpr ht, ?_⟩
        rw [ha.view id (Or.inl ht)]
        exact hc

theorem KeyGhost.Owns.alike (h : g.Owns i w o) (ha : Alike i o w w')
    (hdirty : ∀ d : Write adehun, d.key.table = .idempotencyKey →
      (d ∈ (w'.tx i).dirty ↔ d ∈ (w.tx i).dirty))
    (hfair : Blank i w → Fair i w o → Fair i w' o) : g.Owns i w' o :=
  ⟨h.1.alike ha rfl rfl h.1.others, h.2.alike ha rfl rfl hdirty hfair⟩

/-- What happens at the desk to somebody else, and what it does to the
tables. -/
theorem KeyGhost.Owns.enter (h : g.Owns j w o) (ha : Alike j o w w') (htx : w'.tx j = w.tx j)
    (hne : j ≠ i) {p : Phase} {read : Nat → Nat} {latest : Nat} (hread : read j = o.read j)
    (hp : ∀ k id, Writes w j id → p = .running k (some id) → o.phase i = .running k (some id))
    (hgen : ∀ r, Genuine w.db o r →
      Genuine w'.db { phase := Function.update o.phase i p, read, latest } r) :
    g.Owns j w' { phase := Function.update o.phase i p, read, latest } := by
  have hphase : Function.update o.phase i p j = o.phase j := Function.update_of_ne hne _ _
  refine ⟨h.1.alike ha hphase hread ?_, h.2.alike ha hphase hread (fun d _ => by rw [htx]) ?_⟩
  · intro id ht j' k hj'
    have hj' : Function.update o.phase i p j' = .running k (some id) := hj'
    by_cases hi : j' = i
    · subst hi
      rw [Function.update_self] at hj'
      exact h.1.others id ht j' k (hp k id ht hj')
    · rw [Function.update_of_ne hi] at hj'
      exact h.1.others id ht j' k hj'
  · intro _ hf id r hr
    rw [htx] at hr
    exact hgen r (hf id r hr)

/-! ### What is sent -/

theorem KeyGhost.Owns.remember (h : g.Owns i w o) (k : Key adehun) :
    g.Owns i (w.remember i k ((w.view i).lookup k)) o := by
  refine h.alike (alike_of_eq rfl (by simp [World.remember])) (by simp [World.remember]) ?_
  intro hb hf id r hr
  rw [World.remember, World.setTx_tx_self] at hr
  by_cases hk : (⟨Table.idempotencyKey, id⟩ : Key adehun) = k
  · subst hk
    dsimp only at hr
    rw [Function.update_self, World.lookup_view_of_not_touches (hb.unwritten id)] at hr
    have hid : r.id = id := Db.lookup_id hr
    exact fun _ => Or.inl (by rw [hid]; exact hr)
  · dsimp only at hr
    rw [Function.update_of_ne hk] at hr
    exact hf id r hr

/-- A session that has written no row but its reservation. -/
theorem apart_of_running {db : Db adehun} (hgood : Firm db o)
    (hphase : o.phase i = .running k (some id)) (honly : ∀ id', Writes w i id' → id' = id) :
    Apart i w o := by
  refine ⟨fun id' ht j k' hj => ?_, fun id' ht => ?_⟩
  · obtain rfl := honly id' ht
    exact hgood.sole j i k' k id' hj hphase
  · obtain rfl := honly id' ht
    exact .holds hphase

/-- A change of its reservation, sent by the session that has it. -/
theorem Apart.written (h : Apart i w o) (hgood : Firm w.db o) {d : Write adehun}
    (hphase : o.phase i = .running k (some id)) (hd : d.key = ⟨Table.idempotencyKey, id⟩)
    (hdb : w'.db = w.db) (hwrites : (w'.tx i).writes = (w.tx i).writes ++ [d]) : Apart i w' o := by
  have hold : ∀ {id'}, id' ≠ id → Writes w' i id' → Writes w i id' := by
    intro id' hne ht
    refine ((writes_written hwrites).mp ht).resolve_right fun hk => hne ?_
    rw [hd] at hk
    exact (Key.mk.inj hk).2.symm
  refine ⟨fun id' ht j k' hj => ?_, fun id' ht => ?_⟩
  · by_cases hid : id' = id
    · subst hid
      exact hgood.sole j i k' k id' hj hphase
    · exact h.others id' (hold hid ht) j k' hj
  · by_cases hid : id' = id
    · subst hid
      exact .holds hphase
    · refine (h.rightful id' (hold hid ht)).congr (by rw [hdb]) ?_ rfl rfl
      rw [view_written hdb hwrites, reservation, Write.lookup_apply_of_ne]
      · rfl
      · rw [hd]
        exact fun hk => hid (Key.mk.inj hk).2.symm

theorem Reserved.update (h : Reserved k id i w) {p : Patch adehun .idempotencyKey}
    (hp : Binds p) (hdb : w'.db = w.db)
    (hwrites : (w'.tx i).writes = (w.tx i).writes ++ [.update .idempotencyKey id p]) :
    Reserved k id i w' := by
  obtain ⟨r₀, r, h₀, hr, hname, hs, he⟩ := h
  refine ⟨r₀, p.run r, by rw [hdb]; exact h₀, ?_, (hp.name r).trans hname, (hp.status r).trans hs,
    (hp.expiresAt r).trans he⟩
  rw [view_written hdb hwrites, reservation, Write.lookup_update]
  rw [reservation] at hr
  rw [hr, Option.map_some, if_pos rfl]

/-- The end of a reservation, sent or still to be. -/
theorem Ends.update (h : Ends id i w) {p : Patch adehun .idempotencyKey} {ds : List (Write adehun)}
    (hp : Answers p) (hd : (w.tx i).dirty = .update .idempotencyKey id p :: ds)
    (hdb : w'.db = w.db)
    (hwrites : (w'.tx i).writes = (w.tx i).writes ++ [.update .idempotencyKey id p])
    (hdirty : (w'.tx i).dirty = ds) : Ends id i w' := by
  have hrow : ∀ r, reservation (w'.view i) id = some r →
      ∃ r₀, reservation (w.view i) id = some r₀ ∧ p.run r₀ = r := by
    intro r hr
    rw [view_written hdb hwrites, reservation, Write.lookup_update, Option.map_eq_some_iff] at hr
    obtain ⟨r₀, h₀, hr⟩ := hr
    rw [if_pos rfl] at hr
    exact ⟨r₀, h₀, hr⟩
  have hwritten : Writes w' i id := (writes_written hwrites).mpr (Or.inr rfl)
  rcases h with ⟨q, hq, hc⟩ | ⟨-, hc⟩
  · rw [hd, List.mem_cons] at hq
    rcases hq with hq | hq
    · cases hq
      refine Or.inr ⟨hwritten, fun r hr => ?_⟩
      obtain ⟨r₀, -, rfl⟩ := hrow r hr
      exact hc r₀
    · exact Or.inl ⟨q, by rw [hdirty]; exact hq, hc⟩
  · refine Or.inr ⟨hwritten, fun r hr => ?_⟩
    obtain ⟨r₀, h₀, rfl⟩ := hrow r hr
    rcases hp.status r₀ with hs | hs
    · exact hs.trans (hc r₀ h₀)
    · exact hs

theorem KeyGhost.Owns.send (h : g.Owns i w o) (hgood : Firm w.db o) {d : Write adehun}
    {ds : List (Write adehun)} (hd : (w.tx i).dirty = d :: ds) (hdb : w'.db = w.db)
    (hwrites : (w'.tx i).writes = (w.tx i).writes ++ [d]) (hdirty : (w'.tx i).dirty = ds)
    (hobjects : (w'.tx i).objects = (w.tx i).objects) : g.Owns i w' o := by
  have hmem : d ∈ (w.tx i).dirty := by
    rw [hd]
    exact List.mem_cons_self
  by_cases hk : d.key.table = .idempotencyKey
  · have hsent : ∀ {id p}, d = .update .idempotencyKey id p → (∀ id', Writes w i id' → id' = id) →
        ∀ id', Writes w' i id' → id' = id := by
      rintro id p rfl hwr id' ht
      rcases (writes_written hwrites).mp ht with ht | hk'
      · exact hwr id' ht
      · exact (Key.mk.inj hk').2.symm
    have hstaged : ∀ {id P}, StagedOn id P i w → StagedOn id P i w' := by
      intro id P hs e he
      rw [hdirty] at he
      exact hs e (by rw [hd]; exact List.mem_cons_of_mem d he)
    obtain ⟨hapart, h⟩ := h
    cases g with
    | idle => exact absurd hk (h.1.unstaged d hmem)
    | reserving k time => exact absurd hk (h.1.unstaged d hmem)
    | claiming k found =>
        cases found with
        | none => exact absurd hk (h.1.unstaged d hmem)
        | some id => exact absurd hk (h.1 d hmem)
    | refused k => exact absurd hk (h.1.unstaged d hmem)
    | answering r => exact absurd hk (h.1.unstaged d hmem)
    | sweeping k id time =>
        obtain ⟨hp, hs, ht, hr⟩ := h
        obtain ⟨p, rfl, hbinds⟩ := hs d hmem hk
        exact ⟨hapart.written hgood hp rfl hdb hwrites, hp, hstaged hs, ht,
          hr.update hbinds hdb hwrites⟩
    | running k id =>
        obtain ⟨hp, hs, hwr, hr⟩ := h
        obtain ⟨p, rfl, hbinds⟩ := hs d hmem hk
        exact ⟨hapart.written hgood hp rfl hdb hwrites, hp, hstaged hs, hsent rfl hwr,
          hr.update hbinds hdb hwrites⟩
    | ending k id =>
        obtain ⟨hp, hs, hwr, hend⟩ := h
        obtain ⟨p, rfl, hanswers⟩ := hs d hmem hk
        exact ⟨hapart.written hgood hp rfl hdb hwrites, hp, hstaged hs, hsent rfl hwr,
          hend.update hanswers hd hdb hwrites hdirty⟩
  · refine h.alike (alike_written hk hdb hwrites) ?_ ?_
    · intro e he
      rw [hdirty, hd, List.mem_cons]
      exact (or_iff_right fun hed => hk (by rw [← hed]; exact he)).symm
    · intro _ hf
      rw [Fair, hdb, hobjects]
      exact hf

/-! ### How transactions end -/

theorem blank_of_fresh {b : Bool} (htx : w.tx i = { aborted := b }) : Blank i w := by
  refine ⟨by simp [htx], ?_⟩
  rintro id ⟨d, hd, -⟩
  rw [htx] at hd
  cases hd

theorem fair_of_fresh {b : Bool} (htx : w.tx i = { aborted := b }) : Fair i w o := by
  intro id r hr
  rw [htx] at hr
  cases hr

/-- The reservation of a session that has written nothing. -/
theorem Firm.reserved {db : Db adehun} (hgood : Firm db o) (hdb : w.db = db)
    (hphase : o.phase i = .running k (some id)) (hno : ¬ Writes w i id) : Reserved k id i w := by
  obtain ⟨r, hr, hname, hs, -⟩ := hgood.held i k id hphase
  subst hdb
  refine ⟨r, r, hr, ?_, hname, hs, rfl⟩
  rw [reservation, World.lookup_view_of_not_touches hno]
  exact hr

theorem KeyGhost.Owns.falls {db : Db adehun} (h : g.Owns i w o) (hgood : Firm db o)
    (hdb : w'.db = db) {b : Bool} (htx : w'.tx i = { aborted := b }) : g.lost.Owns i w' o := by
  have hb := blank_of_fresh htx
  refine ⟨apart_of_not_writes hb.unwritten, ?_⟩
  have hrunning : ∀ {k id}, o.phase i = .running k (some id) →
      (KeyGhost.running k id).Tells i w' o := by
    intro k id hp
    refine ⟨hp, fun d hd ht => absurd ht (hb.unstaged d hd),
      fun id' ht => absurd ht (hb.unwritten id'), hgood.reserved hdb hp (hb.unwritten id)⟩
  obtain ⟨-, h⟩ := h
  cases g with
  | idle => exact ⟨hb, h.2⟩
  | reserving k time => exact ⟨hb, h.2⟩
  | claiming k found =>
      cases found with
      | none => exact ⟨hb, h.2, fun _ ht => by cases ht⟩
      | some id => exact ⟨hb, h.2.1, fun _ ht => by cases ht⟩
  | refused k => exact ⟨hb, h.2.1, fair_of_fresh htx⟩
  | answering r => exact ⟨hb, h.2⟩
  | running k id => exact hrunning h.1
  | sweeping k id time => exact hrunning h.1
  | ending k id => exact hrunning h.1

/-- What a commit makes of the phase of a session that may commit. -/
theorem KeyGhost.Owns.committed (h : g.Owns i w o) (hg : g.Commits) (hw : w.WF)
    (hd : (w.tx i).dirty = []) :
    (o.phase i).committed (w.tx i).writes (w.view i) = g.after (o.phase i) := by
  have hrunning : ∀ {k id}, o.phase i = .running k (some id) → Reserved k id i w →
      (o.phase i).committed (w.tx i).writes (w.view i) = o.phase i := by
    rintro k id hp ⟨r₀, r, -, hr, -, hs, -⟩
    rw [hp]
    simp only [Phase.committed, hr, hs, if_true]
  obtain ⟨-, h⟩ := h
  cases g with
  | idle => rcases h.2 with hp | hp <;> (rw [hp]; rfl)
  | reserving k time => exact hg.elim
  | claiming k found =>
      cases found with
      | none =>
          rw [h.2]
          simp only [Phase.committed, KeyGhost.after]
          split
          · next r hr =>
              rw [if_neg]
              intro ht
              obtain ⟨d, hd, hk⟩ := List.any_eq_true.mp ht
              exact h.1.unwritten r.id ⟨d, hd, of_decide_eq_true hk⟩
          · rfl
      | some id =>
          obtain ⟨-, hp, ⟨d, hmem, hk⟩, -, r, hr, hname, -⟩ := h
          rw [hp]
          simp only [Phase.committed, KeyGhost.after]
          have hrmem : r ∈ (w.view i .idempotencyKey : List IdempotencyKey) := Db.lookup_mem hr
          have hrid : r.id = id := Db.lookup_id hr
          split
          · next r' hr' =>
              have hname' : r'.name = k := by simpa using List.find?_some hr'
              have hrmem' : r' ∈ (w.view i .idempotencyKey : List IdempotencyKey) :=
                List.mem_of_find?_eq_some hr'
              have hid : r'.id = id := by
                by_contra hne
                refine hw.distinct i Table.idempotencyKey r'.id id r' r hne
                  ((hw.view_keys i).lookup hrmem') hr
                  (.idempotency k.user k.endpoint k.key) ?_ ?_
                · rw [← hname']
                  exact List.mem_singleton_self _
                · rw [← hname]
                  exact List.mem_singleton_self _
              rw [if_pos, hid]
              refine List.any_eq_true.mpr ⟨d, hmem, decide_eq_true ?_⟩
              rw [hid]
              exact hk
          · next hnone =>
              exact absurd (decide_eq_true hname) (List.find?_eq_none.mp hnone r hrmem)
  | refused k =>
      rw [h.2.1]
      rfl
  | answering r =>
      rw [h.2]
      rfl
  | running k id => exact hrunning h.1 h.2.2.2
  | sweeping k id time => exact hrunning h.1 h.2.2.2
  | ending k id =>
      obtain ⟨hp, -, -, hend⟩ := h
      rw [hp]
      simp only [Phase.committed, KeyGhost.after]
      rcases hend with ⟨p, hmem, -⟩ | ⟨-, hc⟩
      · rw [hd] at hmem
        cases hmem
      · split
        · next r hr =>
            rw [hc r hr]
            rfl
        · rfl

/-- A completed row goes when it has expired, and nothing else is done to
it. -/
theorem Rightful.completed {db db' : Db adehun} (h : Rightful o i db db' id) (hgood : Firm db o)
    {r : IdempotencyKey} (hr : reservation db id = some r) (hs : r.status = .completed) :
    reservation db' id = none ∧ r.expiresAt < o.read i := by
  cases h with
  | holds h =>
      obtain ⟨r', hr', -, hs', -⟩ := hgood.held i _ id h
      obtain rfl := Option.some.inj (hr'.symm.trans hr)
      rw [hs] at hs'
      cases hs'
  | reserves h before after =>
      have hs' := (before r hr).2
      rw [hs] at hs'
      cases hs'
  | sweeps before expired after =>
      obtain rfl := Option.some.inj (before.symm.trans hr)
      exact ⟨after, expired⟩

theorem Genuine.commit {r : IdempotencyKey} (h : Genuine w.db o r) (hgood : Firm w.db o)
    (ha : Apart i w o) (hlatest : o'.latest = o.latest) : Genuine (w.view i) o' r := by
  intro hs
  rw [hlatest]
  rcases h hs with hr | hlt
  · by_cases ht : Writes w i r.id
    · have hlt := ((ha.rightful r.id ht).completed hgood hr hs).2
      exact Or.inr (Nat.lt_of_lt_of_le hlt (hgood.seen i))
    · rw [reservation, World.lookup_view_of_not_touches ht]
      exact Or.inl hr
  · exact Or.inr hlt

/-- Where a commit leaves a handler running. -/
theorem KeyGhost.Tells.after_running (h : g.Tells i w o) (hgood : Firm w.db o)
    (hp : g.after (o.phase i) = .running k (some id)) :
    (Writes w i id ∨ o.phase i = .running k (some id)) ∧
      ∃ r, reservation (w.view i) id = some r ∧ r.name = k ∧ r.status = .inProgress ∧
        o.read i ≤ r.expiresAt := by
  have hrunning : ∀ {k' id'}, o.phase i = .running k' (some id') → Reserved k' id' i w →
      o.phase i = .running k (some id) →
      (Writes w i id ∨ o.phase i = .running k (some id)) ∧
      ∃ r, reservation (w.view i) id = some r ∧ r.name = k ∧ r.status = .inProgress ∧
        o.read i ≤ r.expiresAt := by
    rintro k' id' hphase ⟨r₀, r, h₀, hr, hname, hs, he⟩ hp'
    cases hphase.symm.trans hp'
    obtain ⟨r', hr', -, -, hread⟩ := hgood.held i k id hphase
    obtain rfl := Option.some.inj (hr'.symm.trans h₀)
    exact ⟨Or.inr hphase, r, hr, hname, hs, by rw [he]; exact hread⟩
  cases g with
  | idle => rcases h.2 with h | h <;> cases h.symm.trans hp
  | reserving k' time => cases h.2.1.symm.trans hp
  | claiming k' found =>
      cases found with
      | none => cases hp
      | some id' =>
          cases hp
          exact ⟨Or.inl h.2.2.1, h.2.2.2.2⟩
  | refused k' => cases h.2.1.symm.trans hp
  | answering r => cases h.2.symm.trans hp
  | running k' id' => exact hrunning h.1 h.2.2.2 hp
  | sweeping k' id' time => exact hrunning h.1 h.2.2.2 hp
  | ending k' id' => cases hp

theorem KeyGhost.after_cases (g : KeyGhost) (p : Phase) :
    g.after p = p ∨ (∃ k id, g.after p = .running k (some id)) ∨ (∃ k, g.after p = .refused k) ∨
      g.after p = .over := by
  cases g with
  | claiming k found =>
      cases found with
      | none => exact Or.inr (Or.inr (Or.inl ⟨k, rfl⟩))
      | some id => exact Or.inr (Or.inl ⟨k, id, rfl⟩)
  | ending k id => exact Or.inr (Or.inr (Or.inr rfl))
  | _ => exact Or.inl rfl

theorem Firm.commit (hgood : Firm w.db o) (h : g.Owns i w o) :
    Firm (w.view i) (o.enter i (g.after (o.phase i))) := by
  have hphase : ∀ {j p}, (o.enter i (g.after (o.phase i))).phase j = p →
      (j ≠ i ∧ o.phase j = p) ∨ (j = i ∧ g.after (o.phase i) = p) := by
    intro j p hj
    by_cases hji : j = i
    · subst hji
      exact Or.inr ⟨rfl, (Function.update_self j _ o.phase).symm.trans hj⟩
    · exact Or.inl ⟨hji, (Function.update_of_ne hji _ o.phase).symm.trans hj⟩
  constructor
  · intro j k hj
    rcases hphase hj with ⟨-, hj⟩ | ⟨-, hi⟩
    · exact hgood.guarded j k hj
    · rcases g.after_cases (o.phase i) with he | ⟨k', id, he⟩ | ⟨k', he⟩ | he <;> rw [he] at hi
      · exact hgood.guarded i k hi
      all_goals cases hi
  · intro j k id hj
    rcases hphase hj with ⟨hne, hj⟩ | ⟨rfl, hi⟩
    · have ht : ¬ Writes w i id := fun ht => hne (h.1.others id ht j k hj)
      rw [reservation, World.lookup_view_of_not_touches ht]
      exact hgood.held j k id hj
    · exact (h.2.after_running hgood hi).2
  · have hone : ∀ {j k k' id}, j ≠ i → o.phase j = .running k (some id) →
        g.after (o.phase i) ≠ .running k' (some id) := by
      intro j k k' id hne hj hi
      rcases (h.2.after_running hgood hi).1 with ht | hi
      · exact hne (h.1.others id ht j k hj)
      · exact hne (hgood.sole j i k k' id hj hi)
    intro j j' k k' id hj hj'
    rcases hphase hj with ⟨hne, hj⟩ | ⟨rfl, hi⟩
    · rcases hphase hj' with ⟨-, hj'⟩ | ⟨-, hi⟩
      · exact hgood.sole j j' k k' id hj hj'
      · exact absurd hi (hone hne hj)
    · rcases hphase hj' with ⟨hne, hj'⟩ | ⟨rfl, -⟩
      · exact absurd hi (hone hne hj')
      · rfl
  · intro j r hj
    rcases hphase hj with ⟨-, hj⟩ | ⟨-, hi⟩
    · exact (hgood.replayed j r hj).commit hgood h.1 rfl
    · rcases g.after_cases (o.phase i) with he | ⟨k', id, he⟩ | ⟨k', he⟩ | he <;> rw [he] at hi
      · exact (hgood.replayed i r hi).commit hgood h.1 rfl
      all_goals cases hi
  · exact hgood.seen

/-- Where a commit leaves the session. -/
theorem KeyGhost.Owns.done (h : g.Owns i w o) (hg : g.Commits) (hgood : Firm w.db o) :
    g.done.Owns i (w.commit i) (o.enter i (g.after (o.phase i))) := by
  have htx : (w.commit i).tx i = { aborted := false } := World.commit_tx_self w i
  have hb := blank_of_fresh htx
  have hfirm := hgood.commit h
  refine ⟨apart_of_not_writes hb.unwritten, ?_⟩
  have hphase : (o.enter i (g.after (o.phase i))).phase i = g.after (o.phase i) :=
    Function.update_self i _ o.phase
  have hrunning : ∀ {k id}, g.after (o.phase i) = .running k (some id) →
      (KeyGhost.running k id).Tells i (w.commit i) (o.enter i (g.after (o.phase i))) := by
    intro k id hp
    exact ⟨hphase.trans hp, fun d hd ht => absurd ht (hb.unstaged d hd),
      fun id' ht => absurd ht (hb.unwritten id'),
      hfirm.reserved rfl (hphase.trans hp) (hb.unwritten id)⟩
  have h' := h.2
  cases g with
  | idle =>
      refine ⟨hb, ?_⟩
      rw [hphase]
      exact h'.2
  | reserving k time => exact hg.elim
  | claiming k found =>
      cases found with
      | none => exact ⟨hb, hphase, fair_of_fresh htx⟩
      | some id => exact hrunning rfl
  | refused k => exact ⟨hb, hphase.trans h'.2.1, fair_of_fresh htx⟩
  | answering r => exact ⟨hb, hphase.trans h'.2⟩
  | running k id => exact hrunning h'.1
  | sweeping k id time => exact hrunning h'.1
  | ending k id => exact ⟨hb, Or.inr hphase⟩

/-- Somebody else's commit. -/
theorem KeyGhost.Owns.commit {g' : KeyGhost} (h' : g'.Owns j w o) (h : g.Owns i w o)
    (hne : j ≠ i) (hw : w.WF) (hgood : Firm w.db o) :
    g'.Owns j (w.commit i) (o.enter i (g.after (o.phase i))) := by
  have htx : (w.commit i).tx j = w.tx j := World.commit_tx_of_ne w hne
  have hrow : ∀ id, (Writes w j id ∨ ∃ k, o.phase j = .running k (some id)) → ¬ Writes w i id := by
    rintro id (ht | ⟨k, hj⟩) hi
    · exact hw.not_touches (Ne.symm hne) ht hi
    · exact hne (h.1.others id hi j k hj)
  refine h'.enter ⟨?_, ?_, ?_⟩ htx hne rfl ?_ fun r hr => hr.commit hgood h.1 rfl
  · exact fun id => World.touches_congr (by rw [htx])
  · exact fun id hid => World.lookup_view_of_not_touches (hrow id hid)
  · exact fun id hid => World.lookup_view_commit hne (hrow id hid)
  · intro k id ht hp
    rcases (h.2.after_running hgood hp).1 with hi | hi
    · exact absurd hi (hrow id (Or.inl ht))
    · exact hi

/-! ### What sessions see -/

theorem Desk.enter_self (o : Desk) (i : Nat) : o.enter i (o.phase i) = o := by
  rw [Desk.enter, Function.update_eq_self]

theorem Phase.looked_of_ne {p : Phase} (h : ∀ k, p ≠ .refused k) (rows : List IdempotencyKey) :
    p.looked rows = p := by
  cases p with
  | refused k => exact absurd rfl (h k)
  | _ => rfl

/-- At the desk, entering no handler changes nothing for those that run. -/
theorem Firm.enter {db : Db adehun} (hgood : Firm db o) {p : Phase}
    (hrun : ∀ k x, p ≠ .running k x) (hfound : ∀ r, p = .found r → Genuine db o r) :
    Firm db (o.enter i p) := by
  have hphase : ∀ {j p'}, (o.enter i p).phase j = p' → o.phase j = p' ∨ p = p' := by
    intro j p' hj
    by_cases hji : j = i
    · subst hji
      exact Or.inr ((Function.update_self j _ o.phase).symm.trans hj)
    · exact Or.inl ((Function.update_of_ne hji _ o.phase).symm.trans hj)
  have hold : ∀ {j k x}, (o.enter i p).phase j = .running k x → o.phase j = .running k x :=
    fun hj => (hphase hj).resolve_right (hrun _ _)
  exact
    { guarded := fun j k hj => hgood.guarded j k (hold hj)
      held := fun j k id hj => hgood.held j k id (hold hj)
      sole := fun j j' k k' id hj hj' => hgood.sole j j' k k' id (hold hj) (hold hj')
      replayed := fun j r hj => (hphase hj).elim (hgood.replayed j r) (hfound r)
      seen := hgood.seen }

theorem KeyGhost.Tells.refused (h : g.Tells i w o) (hp : o.phase i = .refused k) :
    ∃ k', g = .refused k' := by
  cases g with
  | idle => rcases h.2 with h | h <;> cases h.symm.trans hp
  | reserving k' time => cases h.2.1.symm.trans hp
  | claiming k' found =>
      cases found with
      | none => cases h.2.symm.trans hp
      | some id => cases h.2.1.symm.trans hp
  | refused k' => exact ⟨k', rfl⟩
  | answering r => cases h.2.symm.trans hp
  | running k' id => cases h.1.symm.trans hp
  | sweeping k' id time => cases h.1.symm.trans hp
  | ending k' id => cases h.1.symm.trans hp

/-- What a session that has written nothing is answered with is what is
stored. -/
theorem genuine_of_answer (hb : Blank i w) (hf : Fair i w o) {alive : Bool} {r : IdempotencyKey}
    (h : w.answer i alive ⟨Table.idempotencyKey, id⟩ = some r) : Genuine w.db o r := by
  have hrow : (w.view i).lookup ⟨Table.idempotencyKey, id⟩ = some r → Genuine w.db o r := by
    intro hr
    have hid : r.id = id := Db.lookup_id hr
    rw [World.lookup_view_of_not_touches (hb.unwritten id)] at hr
    exact fun _ => Or.inl (by rw [hid]; exact hr)
  unfold World.answer at h
  split at h
  · next r' hobj =>
      split at h
      · cases h
        exact hf id r hobj
      · exact hrow h
  · exact hrow h

theorem load_answers {c : Choice adehun} {q : Db adehun → List Id} {rows : List IdempotencyKey}
    (he : w.exec i c (.load Table.idempotencyKey q) = some (.ok rows, w')) :
    (q (w.view i)).filterMap (fun id => w.answer i c.alive ⟨Table.idempotencyKey, id⟩) = rows := by
  have hb := World.sql_ok he
  simp only [Option.some.injEq, Prod.mk.injEq, Except.ok.injEq] at hb
  exact hb.1

/-- What is looked up is found, and is what is stored. -/
theorem KeyGhost.Owns.looked (h : g.Owns i w o) {c : Choice adehun} {q : Db adehun → List Id}
    {rows : List IdempotencyKey}
    (he : w.exec i c (.load Table.idempotencyKey q) = some (.ok rows, w'))
    (hguard : (firm o).exec w i (.load Table.idempotencyKey q) c) (hp : o.phase i = .refused k) :
    ∃ r, rows.head? = some r ∧ Genuine w.db o r := by
  obtain ⟨k', rfl⟩ := h.2.refused hp
  obtain ⟨-, hb, -, hf⟩ := h
  have hrows := load_answers he
  obtain ⟨id, hid, hanswer⟩ := hguard rfl
  cases hrow : rows with
  | nil =>
      rw [hrow, List.filterMap_eq_nil_iff] at hrows
      exact absurd (hrows id hid) hanswer
  | cons r rs =>
      have hmem : r ∈ rows := by
        rw [hrow]
        exact List.mem_cons_self
      rw [← hrows, List.mem_filterMap] at hmem
      obtain ⟨id', -, hr⟩ := hmem
      exact ⟨r, rfl, genuine_of_answer hb hf hr⟩

/-- What is seen by one who has not been refused. -/
theorem look_load {t : Table} {q : Db adehun → List Id} {rows : List t.Row}
    (hp : ∀ k, o.phase i ≠ .refused k) : Desk.look i (.load t q) rows o = o := by
  cases t with
  | idempotencyKey =>
      show o.enter i ((o.phase i).looked rows) = o
      rw [Phase.looked_of_ne hp, Desk.enter_self]
  | _ => rfl

theorem Firm.now {db : Db adehun} (hgood : Firm db o) {time : Nat}
    (h : ∀ k id r, o.phase i = .running k (some id) → reservation db id = some r →
      time ≤ r.expiresAt) :
    Firm db { o with read := Function.update o.read i time, latest := max o.latest time } where
  guarded := hgood.guarded
  held j k id hj := by
    obtain ⟨r, hr, hname, hs, hread⟩ := hgood.held j k id hj
    refine ⟨r, hr, hname, hs, ?_⟩
    dsimp only
    by_cases hji : j = i
    · subst hji
      rw [Function.update_self]
      exact h k id r hj hr
    · rw [Function.update_of_ne hji]
      exact hread
  sole := hgood.sole
  replayed j r hj hs := by
    refine (hgood.replayed j r hj hs).imp_right fun hlt => ?_
    exact Nat.lt_of_lt_of_le hlt (Nat.le_max_left _ _)
  seen j := by
    dsimp only
    by_cases hji : j = i
    · subst hji
      rw [Function.update_self]
      exact Nat.le_max_right _ _
    · rw [Function.update_of_ne hji]
      exact Nat.le_trans (hgood.seen j) (Nat.le_max_left _ _)

theorem Firm.look {X : Type} {s : Stmt adehun X} {x : X} {c : Choice adehun}
    (hgood : Firm w.db o) (h : g.Owns i w o) (he : w.exec i c s = some (.ok x, w'))
    (hguard : (firm o).exec w i s c) : Firm w.db (Desk.look i s x o) := by
  cases s with
  | load t q =>
      by_cases hp : ∃ k, o.phase i = .refused k
      · obtain ⟨k, hp⟩ := hp
        cases t with
        | idempotencyKey =>
            obtain ⟨r, hr, hgen⟩ := h.looked he hguard hp
            show Firm w.db (o.enter i ((o.phase i).looked x))
            rw [hp]
            simp only [Phase.looked, hr]
            refine hgood.enter (fun k x he => by cases he) ?_
            intro r' he
            cases he
            exact hgen
        | _ => exact hgood
      · rw [look_load fun k hk => hp ⟨k, hk⟩]
        exact hgood
  | now =>
      cases he
      exact hgood.now hguard
  | _ => exact hgood

theorem Genuine.later {db : Db adehun} {r : IdempotencyKey} (h : Genuine db o r)
    (hle : o.latest ≤ o'.latest) : Genuine db o' r :=
  fun hs => (h hs).imp_right fun hlt => Nat.lt_of_lt_of_le hlt hle

/-- What a session sees tells it nothing that it would mind. -/
theorem KeyGhost.Owns.look {X : Type} {s : Stmt adehun X} {x : X} (h : g.Owns i w o)
    (hm : ¬ g.Minds s) {db : Db adehun} (hgood : Firm db (Desk.look i s x o)) :
    g.Owns i w (Desk.look i s x o) := by
  cases s with
  | load t q =>
      rw [look_load]
      · exact h
      · intro k hp
        obtain ⟨k', rfl⟩ := h.2.refused hp
        exact hm trivial
  | now =>
      have hlatest : o.latest ≤ (Desk.look i .now x o).latest := Nat.le_max_left _ _
      obtain ⟨-, h⟩ := h
      cases g with
      | idle => exact ⟨apart_of_not_writes h.1.unwritten, h⟩
      | reserving k time =>
          cases time with
          | none => exact ⟨apart_of_not_writes h.1.unwritten, h.1, h.2.1, fun _ ht => by cases ht⟩
          | some t => exact absurd trivial hm
      | claiming k found => exact absurd trivial hm
      | refused k =>
          exact ⟨apart_of_not_writes h.1.unwritten, h.1, h.2.1,
            fun id r hr => (h.2.2 id r hr).later hlatest⟩
      | answering r => exact ⟨apart_of_not_writes h.1.unwritten, h⟩
      | running k id => exact ⟨apart_of_running hgood h.1 h.2.2.1, h⟩
      | sweeping k id time => exact absurd trivial hm
      | ending k id => exact ⟨apart_of_running hgood h.1 h.2.2.1, h⟩
  | _ => exact h

/-- What somebody else sees. -/
theorem KeyGhost.Owns.look_other {X : Type} (h : g.Owns j w o) (s : Stmt adehun X) (x : X)
    (hne : j ≠ i) : g.Owns j w (Desk.look i s x o) := by
  have ha : Alike j o w w := alike_of_eq rfl rfl
  cases s with
  | load t q =>
      cases t with
      | idempotencyKey =>
          refine h.enter ha rfl hne rfl ?_ fun r hr => hr
          intro k id _ hp
          cases hphase : o.phase i with
          | refused k' =>
              rw [hphase] at hp
              unfold Phase.looked at hp
              dsimp only at hp
              split at hp <;> cases hp
          | _ =>
              rw [hphase] at hp
              exact hp
      | _ => exact h
  | now =>
      have h' : g.Owns j w
          { phase := Function.update o.phase i (o.phase i)
            read := Function.update o.read i x
            latest := max o.latest x } :=
        h.enter ha rfl hne (Function.update_of_ne hne _ _) (fun _ _ _ hp => hp)
          fun r hr => hr.later (Nat.le_max_left _ _)
      rw [Function.update_eq_self] at h'
      exact h'
  | _ => exact h

end Owns

/-! ## The discipline -/

/-- Where a request starts, by the key it runs under. -/
def KeyGhost.entry : Option KeyName → KeyGhost
  | some k => .reserving k none
  | none => .idle

end Adehun
