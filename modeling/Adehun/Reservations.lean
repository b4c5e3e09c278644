import Adehun.Desk
import Adehun.Sessions.Schedule

/-!
# Requests at the desk

What every request does with its key, statement by statement: it reserves
it, runs under the reservation, and completes or gives it up; or it finds the
key taken and answers with what is stored. In runs that `firm` describes, the
three laws of reservations hold: a key has one handler at work, a reservation
is touched by nobody but its owner, and what is stored is replayed as it was
stored.
-/

namespace Adehun

open Sessions Observer.Discipline
open Observer (Safe)

/-! ## Beside the keys -/

section Beside

variable {i : Nat} {w : World adehun} {o : Desk} {g : KeyGhost} {k : KeyName} {id : Id}

theorem KeyGhost.Owns.stage (h : g.Owns i w o) {d : Write adehun}
    (hd : d.key.table ≠ .idempotencyKey) : g.Owns i (w.stage i d) o := by
  refine h.alike (alike_of_eq (World.stage_db w i d) (World.stage_writes w i d)) ?_ ?_
  · intro e he
    rw [World.stage_dirty, List.mem_append, List.mem_singleton]
    exact or_iff_left fun hed => hd (by rw [← hed]; exact he)
  · intro _ hf id r hr
    rw [World.stage_objects_of_ne w i fun hk => hd (congrArg Key.table hk)] at hr
    exact hf id r hr

theorem KeyGhost.Owns.put (h : g.Owns i w o) {d : Write adehun}
    (hd : d.key.table ≠ .idempotencyKey) : g.Owns i (w.put i d) o := by
  have hwrites : ((w.put i d).tx i).writes = (w.tx i).writes ++ [d] := by rw [World.put_tx_self]
  refine h.alike (alike_written hd rfl hwrites) (fun e _ => by rw [World.put_tx_self]) ?_
  intro _ hf id r hr
  rw [World.put_tx_self] at hr
  exact hf id r hr

end Beside

/-! ## Reserving -/

section Reserving

variable {i : Nat} {w : World adehun} {o : Desk} {k : KeyName} {id : Id} {time : Nat}

/-- A row is reserved, new or taken over. -/
theorem claimed {d : Write adehun} {r : IdempotencyKey}
    (h : (KeyGhost.reserving k (some time)).Owns i w o) (hd : d.key = ⟨Table.idempotencyKey, id⟩)
    (hfree : ∀ j k', o.phase j = .running k' (some id) → j = i)
    (before : ∀ r, reservation (w.view i) id = some r → r.name = k ∧ r.status = .inProgress)
    (after : reservation (d.apply (w.view i)) id = some r) (hname : r.name = k)
    (hs : r.status = .inProgress) (hexpires : time ≤ r.expiresAt) :
    (KeyGhost.claiming k (some id)).Owns i (w.put i d) o := by
  obtain ⟨-, hb, hphase, htime⟩ := h
  have hwrites : ((w.put i d).tx i).writes = (w.tx i).writes ++ [d] := by rw [World.put_tx_self]
  have honly : ∀ id', Writes (w.put i d) i id' → id' = id := by
    intro id' ht
    rcases (writes_written hwrites).mp ht with ht | hk
    · exact absurd ht (hb.unwritten id')
    · rw [hd] at hk
      exact (Key.mk.inj hk).2.symm
  have hview : reservation ((w.put i d).view i) id = some r := by
    rw [World.put_view]
    exact after
  have hread : o.read i ≤ r.expiresAt := by
    rw [htime time rfl]
    exact hexpires
  refine ⟨⟨fun id' ht j k' hj => ?_, fun id' ht => ?_⟩, ?_, hphase, ?_, honly, r, hview, hname, hs,
    hread⟩
  · obtain rfl := honly id' ht
    exact hfree j k' hj
  · obtain rfl := honly id' ht
    refine .reserves hphase ?_ ⟨r, hview, hname, hs, hread⟩
    intro r' hr'
    refine before r' ?_
    rw [reservation, World.lookup_view_of_not_touches (hb.unwritten id')]
    exact hr'
  · rw [World.put_tx_self]
    exact hb.unstaged
  · exact (writes_written hwrites).mpr (Or.inr hd)

end Reserving

/-! ## Completing and giving up -/

section Ending

variable {k : KeyName} {id : Id} {e : KeyGhost}

theorem StagedOn.answers {i : Nat} {w : World adehun} (h : StagedOn id Binds i w) :
    StagedOn id Answers i w := by
  intro d hd ht
  obtain ⟨p, rfl, hp⟩ := h d hd ht
  exact ⟨p, rfl, hp.name, hp.expiresAt, fun r => Or.inl (hp.status r)⟩

end Ending

/-! ## The requests -/

theorem Firm.same {db : Db adehun} {o : Desk} (h : Firm db o) (he : db.EntriesDistinct)
    {i j : Nat} {r r' : IdempotencyKey} (hi : o.phase i = .found r) (hj : o.phase j = .found r')
    (hname : r.name = r'.name) (hs : r.status = .completed) (hs' : r'.status = .completed)
    (hlatest : o.latest ≤ r.expiresAt) (hlatest' : o.latest ≤ r'.expiresAt) : r = r' := by
  have hrow := (h.replayed i r hi hs).resolve_right (Nat.not_lt.mpr hlatest)
  have hrow' := (h.replayed j r' hj hs').resolve_right (Nat.not_lt.mpr hlatest')
  have hid : r.id = r'.id := by
    by_contra hne
    refine he Table.idempotencyKey r.id r'.id r r' hne hrow hrow'
      (.idempotency r.userId r.endpoint r.key) (List.mem_singleton_self _) ?_
    cases r
    cases r'
    cases hname
    exact List.mem_singleton_self _
  rw [hid] at hrow
  exact Option.some.inj (hrow.symm.trans hrow')

theorem KeyGhost.Tells.found {g : KeyGhost} {i : Nat} {w : World adehun} {o : Desk}
    {r : IdempotencyKey} (h : g.Tells i w o) (hp : o.phase i = .found r) : g = .answering r := by
  cases g with
  | idle => rcases h.2 with h | h <;> cases h.symm.trans hp
  | reserving k time => cases h.2.1.symm.trans hp
  | claiming k found =>
      cases found with
      | none => cases h.2.symm.trans hp
      | some id => cases h.2.1.symm.trans hp
  | refused k => cases h.2.1.symm.trans hp
  | answering r' =>
      cases h.2.symm.trans hp
      rfl
  | running k id => cases h.1.symm.trans hp
  | sweeping k id time => cases h.1.symm.trans hp
  | ending k id => cases h.1.symm.trans hp

namespace TakenOver

def db : Db adehun
  | .user => [({ id := 1, email := "ada@mail", name := "Ada" } : User)]
  | _ => []

def fund : Request := .fundWallet 1 (some "key") { amount := 12000, amount_pos := by decide }

def started (code : String) : Transport :=
  .response 200 (.object true ""
    (.object { accessCode := some code, authorizationUrl := some code }))

/-- Up to where the first request completes its key. -/
def script : List (Turn adehun Request) := [
  .arrive 0 fund,
  .go 0 100 100,
  .ambient (.tick 121),
  .arrive 1 fund,
  .go 1 100 1000,
  .answer 1 (started "second"),
  .go 1 100 2000,
  .answer 0 (started "first"),
  .go 0 7 3000]

/-- The first request has its answer before the second arrives. -/
def inTurn : List (Turn adehun Request) := [
  .arrive 0 fund,
  .go 0 100 100,
  .answer 0 (started "first"),
  .go 0 100 1000,
  .arrive 1 fund,
  .go 1 100 2000]

def start : Conf adehun Response := { world := { db := db, shared := {} } }

def run : List (Label adehun Request) × Conf adehun Response :=
  start.played (handler {}) inTurn

theorem db_keysDistinct : db.KeysDistinct := by
  intro t
  cases t <;> decide

theorem db_entriesDistinct : db.EntriesDistinct := by
  refine Db.entriesDistinct_of_pairwise fun t => ?_
  cases t <;> decide

/-- The access code a request has been answered with. -/
def answered (C : Conf adehun Response) (i : Nat) : Option String :=
  match C.threads i with
  | some (.ret { body := .fundInit result, .. }) => some result.accessCode
  | _ => none

end TakenOver

end Adehun
