import Mathlib.Data.Finset.Card
import Mathlib.Logic.Function.Basic

/-!
# The websocket registry

Every user has a set of open sockets, and opening one more than the cap
closes another first. The coroutines of one process take turns at their
`await`s: while the evicted socket is being closed, others may connect and
disconnect, and the one that waits goes on with the set it had in hand.

An empty set is taken out of the registry, and the next connect makes a new
one. So the set that a suspended connect holds need not be the registered
one when it resumes, and need not have room for one more.
-/

namespace Adehun

namespace Realtime

def maxSocketsPerUser : Nat := 5

/-- A call that is suspended: before its socket is accepted, while the socket
it has evicted is being closed, or while a payload is being sent. -/
inductive Coroutine (U S : Type)
  | accepting (userId : U) (websocket : S)
  | closing (userId : U) (websocket : S) (sockets : Nat)
  | sending (userId : U) (connection : S) (rest : List S)

/-- In-process registry of user to open sockets, and the calls that are
suspended. The sets made for a user are numbered. -/
structure WalletConnectionManager (U S : Type) where
  activeConnections : U → Option Nat := fun _ => none
  sets : U → Nat → Finset S := fun _ _ => ∅
  made : U → Nat := fun _ => 0
  suspended : Nat → Option (Coroutine U S) := fun _ => none

/-- What happens next. A call is suspended under a number of its own; what
`next(iter(sockets))` and `list(sockets)` give is up to the set; a coroutine
may be cancelled, or raise, wherever it waits. -/
inductive Event (U S : Type)
  | connect (t : Nat) (userId : U) (websocket : S)
  | accepted (t : Nat) (victim : S)
  | closed (t : Nat)
  | disconnect (userId : U) (websocket : S)
  | sendToUser (t : Nat) (userId : U) (connections : List S)
  | sent (t : Nat) (ok : Bool)
  | cancelled (t : Nat)

namespace WalletConnectionManager

variable {U S : Type} [DecidableEq U] [DecidableEq S]

/-- The sockets registered for a user. -/
def registered (m : WalletConnectionManager U S) (userId : U) : Finset S :=
  match m.activeConnections userId with
  | none => ∅
  | some sockets => m.sets userId sockets

/-- `self.active_connections.setdefault(user_id, set())` -/
def setdefault (m : WalletConnectionManager U S) (userId : U) :
    WalletConnectionManager U S × Nat :=
  match m.activeConnections userId with
  | some sockets => (m, sockets)
  | none =>
      let sockets := m.made userId
      ({ m with
          activeConnections := Function.update m.activeConnections userId (some sockets)
          sets := Function.update m.sets userId
            (Function.update (m.sets userId) sockets ∅)
          made := Function.update m.made userId (sockets + 1) }, sockets)

def assign (m : WalletConnectionManager U S) (userId : U) (sockets : Nat) (content : Finset S) :
    WalletConnectionManager U S :=
  { m with
    sets := Function.update m.sets userId (Function.update (m.sets userId) sockets content) }

/-- `sockets.add(websocket)` -/
def add (m : WalletConnectionManager U S) (userId : U) (sockets : Nat) (websocket : S) :
    WalletConnectionManager U S :=
  m.assign userId sockets (insert websocket (m.sets userId sockets))

/-- `sockets.discard(websocket)` -/
def discard (m : WalletConnectionManager U S) (userId : U) (sockets : Nat) (websocket : S) :
    WalletConnectionManager U S :=
  m.assign userId sockets ((m.sets userId sockets).erase websocket)

def suspend (m : WalletConnectionManager U S) (t : Nat) (c : Option (Coroutine U S)) :
    WalletConnectionManager U S :=
  { m with suspended := Function.update m.suspended t c }

def disconnect (m : WalletConnectionManager U S) (userId : U) (websocket : S) :
    WalletConnectionManager U S :=
  match m.activeConnections userId with
  | none => m
  | some sockets =>
      if m.sets userId sockets = ∅ then m
      else
        let m := m.discard userId sockets websocket
        if m.sets userId sockets = ∅ then
          { m with activeConnections := Function.update m.activeConnections userId none }
        else m

/-- `connect` from where the socket is accepted to where it returns or waits. -/
def enter (m : WalletConnectionManager U S) (t : Nat) (userId : U) (websocket victim : S) :
    Option (WalletConnectionManager U S) :=
  let (m, sockets) := m.setdefault userId
  if maxSocketsPerUser ≤ (m.sets userId sockets).card then
    if victim ∈ m.sets userId sockets then
      some ((m.discard userId sockets victim).suspend t
        (some (.closing userId websocket sockets)))
    else none
  else some ((m.add userId sockets websocket).suspend t none)

/-- `send_to_user` from one connection to the next. -/
def resume (m : WalletConnectionManager U S) (t : Nat) (userId : U) :
    List S → WalletConnectionManager U S
  | [] => m.suspend t none
  | connection :: rest => m.suspend t (some (.sending userId connection rest))

/-- One coroutine runs to its next `await`, or ends. -/
def step (m : WalletConnectionManager U S) : Event U S → Option (WalletConnectionManager U S)
  | .connect t userId websocket =>
      match m.suspended t with
      | none => some (m.suspend t (some (.accepting userId websocket)))
      | some _ => none
  | .accepted t victim =>
      match m.suspended t with
      | some (.accepting userId websocket) => m.enter t userId websocket victim
      | _ => none
  | .closed t =>
      match m.suspended t with
      | some (.closing userId websocket sockets) =>
          some ((m.add userId sockets websocket).suspend t none)
      | _ => none
  | .disconnect userId websocket => some (m.disconnect userId websocket)
  | .sendToUser t userId connections =>
      match m.suspended t with
      | none =>
          if connections.Nodup ∧ connections.toFinset = m.registered userId then
            some (m.resume t userId connections)
          else none
      | some _ => none
  | .sent t ok =>
      match m.suspended t with
      | some (.sending userId connection rest) =>
          some ((if ok then m else m.disconnect userId connection).resume t userId rest)
      | _ => none
  | .cancelled t =>
      match m.suspended t with
      | some _ => some (m.suspend t none)
      | none => none

/-! ## What must hold -/

/-- The sockets whose connect has returned and that were neither evicted nor
disconnected nor dropped since, after one more event. -/
def watch (m : WalletConnectionManager U S) (live : U → Finset S) : Event U S → U → Finset S
  | .accepted t victim =>
      match m.suspended t with
      | some (.accepting userId websocket) =>
          if maxSocketsPerUser ≤ (m.registered userId).card then
            Function.update live userId ((live userId).erase victim)
          else Function.update live userId (insert websocket (live userId))
      | _ => live
  | .closed t =>
      match m.suspended t with
      | some (.closing userId websocket _) =>
          Function.update live userId (insert websocket (live userId))
      | _ => live
  | .disconnect userId websocket =>
      Function.update live userId ((live userId).erase websocket)
  | .sent t false =>
      match m.suspended t with
      | some (.sending userId connection _) =>
          Function.update live userId ((live userId).erase connection)
      | _ => live
  | _ => live

/-- No user has more sockets than the cap, every live socket is registered,
and so a payload for its user is sent to it. -/
structure Whole (m : WalletConnectionManager U S) (live : U → Finset S) : Prop where
  bounded : ∀ userId, (m.registered userId).card ≤ maxSocketsPerUser
  kept : ∀ userId, live userId ⊆ m.registered userId
  reached : ∀ t userId connections, (m.step (.sendToUser t userId connections)).isSome →
    ∀ websocket ∈ live userId, websocket ∈ connections

/-- A connect that resumes finds the set it holds registered, with room for
its socket. -/
def Rejoins (m : WalletConnectionManager U S) : Event U S → Prop
  | .closed t => ∀ userId websocket sockets,
      m.suspended t = some (.closing userId websocket sockets) →
        (m.activeConnections userId = some sockets →
          (insert websocket (m.registered userId)).card ≤ maxSocketsPerUser) ∧
        (m.activeConnections userId ≠ some sockets → websocket ∈ m.registered userId)
  | _ => True

/-- Something holds of every state of a run and the sockets that are live. -/
def Always (P : WalletConnectionManager U S → (U → Finset S) → Prop) :
    WalletConnectionManager U S → (U → Finset S) → List (Event U S) → Prop
  | m, live, [] => P m live
  | m, live, e :: es => P m live ∧
      ∀ m', m.step e = some m' → Always P m' (m.watch live e) es

/-- Every event of a run that can happen is as it should be. -/
def Meets (P : WalletConnectionManager U S → Event U S → Prop) :
    WalletConnectionManager U S → List (Event U S) → Prop
  | _, [] => True
  | m, e :: es => ∀ m', m.step e = some m' → P m e ∧ Meets P m' es

/-- Where a run leads, and the sockets that are live. -/
def run (m : WalletConnectionManager U S) (live : U → Finset S) :
    List (Event U S) → Option (WalletConnectionManager U S × (U → Finset S))
  | [] => some (m, live)
  | e :: es => (m.step e).bind fun m' => m'.run (m.watch live e) es

/-! ## The registered sockets -/

section Registered

variable {m : WalletConnectionManager U S} {userId : U} {sockets : Nat} {websocket : S}

omit [DecidableEq U] [DecidableEq S] in
theorem registered_of_active (h : m.activeConnections userId = some sockets) :
    m.registered userId = m.sets userId sockets := by
  rw [registered, h]

omit [DecidableEq U] [DecidableEq S] in
theorem registered_of_inactive (h : m.activeConnections userId = none) :
    m.registered userId = ∅ := by
  rw [registered, h]

omit [DecidableEq U] [DecidableEq S] in
@[simp] theorem registered_suspend (m : WalletConnectionManager U S) (t : Nat)
    (c : Option (Coroutine U S)) : (m.suspend t c).registered = m.registered := rfl

omit [DecidableEq U] [DecidableEq S] in
@[simp] theorem registered_resume (m : WalletConnectionManager U S) (t : Nat) (userId : U)
    (connections : List S) : (m.resume t userId connections).registered = m.registered := by
  cases connections <;> rfl

omit [DecidableEq S] in
@[simp] theorem sets_assign (m : WalletConnectionManager U S) (userId : U) (sockets : Nat)
    (content : Finset S) :
    (m.assign userId sockets content).sets userId sockets = content := by
  simp [assign]

omit [DecidableEq S] in
/-- A set that is registered is assigned to. -/
theorem registered_assign (h : m.activeConnections userId = some sockets)
    (content : Finset S) :
    (m.assign userId sockets content).registered =
      Function.update m.registered userId content := by
  funext u
  by_cases hu : u = userId
  · subst hu
    simp [registered, assign, h]
  · simp [registered, assign, hu]

omit [DecidableEq S] in
/-- A set that is not registered is assigned to. -/
theorem registered_assign_of_ne (h : m.activeConnections userId ≠ some sockets)
    (content : Finset S) : (m.assign userId sockets content).registered = m.registered := by
  funext u
  by_cases hu : u = userId
  · subst hu
    show (match m.activeConnections u with
      | none => ∅
      | some other => (m.assign u sockets content).sets u other) = _
    rw [registered]
    cases ha : m.activeConnections u with
    | none => rfl
    | some other =>
        have hne : other ≠ sockets := fun he => h (by rw [ha, he])
        simp [assign, hne]
  · simp [registered, assign, hu]

omit [DecidableEq S] in
/-- A set that is made is registered, and empty. -/
theorem setdefault_spec (m : WalletConnectionManager U S) (userId : U) :
    (m.setdefault userId).1.registered = m.registered ∧
    (m.setdefault userId).1.activeConnections userId = some (m.setdefault userId).2 := by
  unfold setdefault
  cases ha : m.activeConnections userId with
  | some sockets => exact ⟨rfl, ha⟩
  | none =>
      refine ⟨?_, by simp⟩
      funext u
      by_cases hu : u = userId
      · subst hu
        simp [registered, ha]
      · simp [registered, hu]

theorem registered_disconnect (m : WalletConnectionManager U S) (userId : U) (websocket : S) :
    (m.disconnect userId websocket).registered =
      Function.update m.registered userId ((m.registered userId).erase websocket) := by
  unfold disconnect
  cases ha : m.activeConnections userId with
  | none =>
      have hnone := registered_of_inactive ha
      show m.registered = _
      rw [hnone, Finset.erase_empty, ← hnone, Function.update_eq_self]
  | some sockets =>
      have hset := registered_of_active ha
      show (if m.sets userId sockets = ∅ then m else _).registered = _
      split
      · next hempty =>
          rw [hset, hempty, Finset.erase_empty, ← hempty, ← hset, Function.update_eq_self]
      · show (if (m.discard userId sockets websocket).sets userId sockets = ∅ then _
          else m.discard userId sockets websocket).registered = _
        have hdiscard : (m.discard userId sockets websocket).registered =
            Function.update m.registered userId ((m.registered userId).erase websocket) := by
          rw [discard, registered_assign ha, hset]
        split
        · next hempty =>
            -- the set is taken out, and there is nothing in it
            have herase : (m.registered userId).erase websocket = ∅ := by
              rw [hset, ← hempty, discard, sets_assign]
            rw [← hdiscard]
            funext u
            by_cases hu : u = userId
            · subst hu
              rw [hdiscard, Function.update_self, herase]
              simp [registered]
            · simp [registered, hu]
        · exact hdiscard

end Registered

/-! ## Steps -/

section Steps

variable {m m' : WalletConnectionManager U S} {live : U → Finset S} {userId : U} {websocket : S}

/-- A payload is sent along the whole set. -/
theorem mem_connections {t : Nat} {connections : List S}
    (h : (m.step (.sendToUser t userId connections)).isSome)
    (hs : websocket ∈ m.registered userId) : websocket ∈ connections := by
  simp only [step] at h
  split at h
  · split at h
    · next horder =>
        rw [← horder.2] at hs
        exact List.mem_toFinset.mp hs
    · cases h
  · cases h

theorem whole_of_registered (hbounded : ∀ u, (m.registered u).card ≤ maxSocketsPerUser)
    (hkept : ∀ u, live u ⊆ m.registered u) : Whole m live :=
  ⟨hbounded, hkept, fun _ u _ hsend _ hs => mem_connections hsend (hkept u hs)⟩

/-- The registered sockets of one user and the live ones have changed. -/
theorem Whole.update (h : Whole m live) {set alive : Finset S}
    (hm : m'.registered = Function.update m.registered userId set)
    (hcard : set.card ≤ maxSocketsPerUser) (hsub : alive ⊆ set) :
    Whole m' (Function.update live userId alive) := by
  apply whole_of_registered
  · intro u
    rw [hm]
    by_cases hu : u = userId
    · subst hu
      rwa [Function.update_self]
    · rw [Function.update_of_ne hu]
      exact h.bounded u
  · intro u
    rw [hm]
    by_cases hu : u = userId
    · subst hu
      rwa [Function.update_self, Function.update_self]
    · rw [Function.update_of_ne hu, Function.update_of_ne hu]
      exact h.kept u

/-- Nothing has happened to the registered sockets. -/
theorem Whole.congr (h : Whole m live) (hm : m'.registered = m.registered) : Whole m' live :=
  whole_of_registered (fun u => by rw [hm]; exact h.bounded u)
    fun u => by rw [hm]; exact h.kept u

/-- A socket goes, wherever it was. -/
theorem Whole.disconnect (h : Whole m live) (userId : U) (websocket : S) :
    Whole (m.disconnect userId websocket)
      (Function.update live userId ((live userId).erase websocket)) := by
  apply h.update (registered_disconnect m userId websocket)
  · have hle := Finset.card_erase_le (s := m.registered userId) (a := websocket)
    have hbound := h.bounded userId
    omega
  · exact Finset.erase_subset_erase websocket (h.kept userId)

/-- What an accepted socket finds: the cap reached, and a victim, or room. -/
theorem enter_cases {t : Nat} {victim : S}
    (h : m.enter t userId websocket victim = some m') :
    (maxSocketsPerUser ≤ (m.registered userId).card ∧
      m'.registered =
        Function.update m.registered userId ((m.registered userId).erase victim)) ∨
    ((m.registered userId).card < maxSocketsPerUser ∧
      m'.registered =
        Function.update m.registered userId (insert websocket (m.registered userId))) := by
  obtain ⟨hregistered, hactive⟩ := setdefault_spec m userId
  have hset := registered_of_active hactive
  rw [hregistered] at hset
  simp only [enter] at h
  rw [← hset] at h
  split at h
  · next hfull =>
      split at h
      · cases h
        refine Or.inl ⟨hfull, ?_⟩
        rw [registered_suspend, discard, registered_assign hactive, hregistered, ← hset]
      · cases h
  · next hroom =>
      cases h
      refine Or.inr ⟨by omega, ?_⟩
      rw [registered_suspend, add, registered_assign hactive, hregistered, ← hset]

/-- The cap is kept by a connect that goes through at once, or evicts. -/
theorem Whole.enter (h : Whole m live) {t : Nat} {victim : S}
    (hc : m.suspended t = some (.accepting userId websocket))
    (hs : m.enter t userId websocket victim = some m') :
    Whole m' (m.watch live (.accepted t victim)) := by
  simp only [watch, hc]
  rcases enter_cases hs with ⟨hfull, hm⟩ | ⟨hroom, hm⟩
  · rw [if_pos hfull]
    apply h.update hm
    · have hle := Finset.card_erase_le (s := m.registered userId) (a := victim)
      have hbound := h.bounded userId
      omega
    · exact Finset.erase_subset_erase victim (h.kept userId)
  · rw [if_neg (by omega)]
    apply h.update hm
    · have hle := Finset.card_insert_le websocket (m.registered userId)
      omega
    · exact Finset.insert_subset_insert websocket (h.kept userId)

/-- A connect that resumes rejoins its user's sockets or is lost. -/
theorem Whole.rejoin (h : Whole m live) {t sockets : Nat}
    (hc : m.suspended t = some (.closing userId websocket sockets)) :
    Whole ((m.add userId sockets websocket).suspend t none)
        (m.watch live (.closed t)) ↔ Rejoins m (.closed t) := by
  simp only [watch, hc]
  have hlive : ∀ {n : WalletConnectionManager U S},
      Whole n (Function.update live userId (insert websocket (live userId))) →
        websocket ∈ n.registered userId := by
    intro n hn
    apply hn.kept userId
    rw [Function.update_self]
    exact Finset.mem_insert_self websocket _
  by_cases ha : m.activeConnections userId = some sockets
  · have hset := registered_of_active ha
    have hm : ((m.add userId sockets websocket).suspend t none).registered =
        Function.update m.registered userId (insert websocket (m.registered userId)) := by
      rw [registered_suspend, add, registered_assign ha, hset]
    constructor
    · intro hwhole u s r hr
      rw [hc] at hr
      cases hr
      refine ⟨fun _ => ?_, fun hne => absurd ha hne⟩
      have hbound := hwhole.bounded userId
      rwa [hm, Function.update_self] at hbound
    · intro hrejoins
      exact h.update hm ((hrejoins _ _ _ hc).1 ha)
        (Finset.insert_subset_insert websocket (h.kept userId))
  · have hm : ((m.add userId sockets websocket).suspend t none).registered = m.registered := by
      rw [registered_suspend, add, registered_assign_of_ne ha]
    constructor
    · intro hwhole u s r hr
      rw [hc] at hr
      cases hr
      refine ⟨fun he => absurd he ha, fun _ => ?_⟩
      have hmem := hlive hwhole
      rwa [hm] at hmem
    · intro hrejoins
      have hmem := (hrejoins _ _ _ hc).2 ha
      have hsame : ((m.add userId sockets websocket).suspend t none).registered =
          Function.update m.registered userId (m.registered userId) := by
        rw [hm, Function.update_eq_self]
      exact h.update hsame (h.bounded userId) (Finset.insert_subset hmem (h.kept userId))

/-- What one event preserves: everything, if a connect that resumes finds
what it has to find, and not otherwise. -/
theorem Whole.step (h : Whole m live) {e : Event U S} (hs : m.step e = some m') :
    Whole m' (m.watch live e) ↔ Rejoins m e := by
  cases e with
  | connect t u s =>
      simp only [WalletConnectionManager.step] at hs
      split at hs
      · cases hs
        exact iff_of_true (h.congr rfl) trivial
      · cases hs
  | accepted t victim =>
      simp only [WalletConnectionManager.step] at hs
      split at hs
      · next u s hc => exact iff_of_true (h.enter hc hs) trivial
      · cases hs
  | closed t =>
      simp only [WalletConnectionManager.step] at hs
      split at hs
      · next u s r hc =>
          cases hs
          exact h.rejoin hc
      · cases hs
  | disconnect u s =>
      cases hs
      exact iff_of_true (h.disconnect u s) trivial
  | sendToUser t u connections =>
      simp only [WalletConnectionManager.step] at hs
      split at hs
      · split at hs
        · cases hs
          exact iff_of_true (h.congr (registered_resume ..)) trivial
        · cases hs
      · cases hs
  | sent t ok =>
      simp only [WalletConnectionManager.step] at hs
      split at hs
      · next u connection rest hc =>
          cases hs
          refine iff_of_true ?_ trivial
          cases ok with
          | true => exact h.congr (registered_resume ..)
          | false =>
              simp only [watch, hc]
              exact (h.disconnect u connection).congr (registered_resume ..)
      · cases hs
  | cancelled t =>
      simp only [WalletConnectionManager.step] at hs
      split at hs
      · cases hs
        exact iff_of_true (h.congr rfl) trivial
      · cases hs

/-- And what a run preserves. -/
theorem Whole.always_iff (h : Whole m live) (es : List (Event U S)) :
    Always Whole m live es ↔ Meets Rejoins m es := by
  induction es generalizing m live with
  | nil => exact iff_of_true h trivial
  | cons e es ih =>
      constructor
      · rintro ⟨-, hrest⟩ m' hs
        have hnext := hrest m' hs
        have hwhole : Whole m' (m.watch live e) := by
          cases es with
          | nil => exact hnext
          | cons _ _ => exact hnext.1
        exact ⟨(h.step hs).mp hwhole, (ih hwhole).mp hnext⟩
      · intro hmeets
        refine ⟨h, fun m' hs => ?_⟩
        obtain ⟨hrejoins, hrest⟩ := hmeets m' hs
        exact (ih ((h.step hs).mpr hrejoins)).mpr hrest

end Steps

/-- In every run from the empty registry, of any number of connects,
disconnects and sends of any users: the registry stays bounded and keeps
every live socket if and only if every connect that resumes finds its set
registered, with room. -/
theorem whole_iff_rejoins (es : List (Event U S)) :
    Always Whole ({} : WalletConnectionManager U S) (fun _ => ∅) es ↔
      Meets Rejoins ({} : WalletConnectionManager U S) es := by
  have hinit : Whole ({} : WalletConnectionManager U S) fun _ => ∅ :=
    whole_of_registered (fun _ => Nat.zero_le _) fun _ => Finset.Subset.refl _
  exact hinit.always_iff es

theorem Always.last {P : WalletConnectionManager U S → (U → Finset S) → Prop}
    {m m' : WalletConnectionManager U S} {live live' : U → Finset S} {es : List (Event U S)}
    (h : Always P m live es) (hr : m.run live es = some (m', live')) : P m' live' := by
  induction es generalizing m live with
  | nil =>
      cases hr
      exact h
  | cons e es ih =>
      obtain ⟨m₁, hs, hr⟩ := Option.bind_eq_some_iff.mp hr
      exact ih (h.2 m₁ hs) hr

/-! ### Two connects at once

Five sockets are open, and the sixth evicts one. While that is being closed,
a seventh finds room, or the others disconnect. -/

namespace Resumed

/-- Five sockets connect, and a sixth waits for the first to be closed. -/
def waits : List (Event Unit Nat) := [
  .connect 0 () 0, .accepted 0 0, .connect 1 () 1, .accepted 1 0,
  .connect 2 () 2, .accepted 2 0, .connect 3 () 3, .accepted 3 0,
  .connect 4 () 4, .accepted 4 0, .connect 5 () 5, .accepted 5 0]

def overfull : List (Event Unit Nat) :=
  waits ++ [.connect 6 () 6, .accepted 6 0, .closed 5]

def lost : List (Event Unit Nat) :=
  waits ++ [.disconnect () 1, .disconnect () 2, .disconnect () 3, .disconnect () 4, .closed 5]

def isOverfull (x : WalletConnectionManager Unit Nat × (Unit → Finset Nat)) : Bool :=
  decide (maxSocketsPerUser < (x.1.registered ()).card)

def hasLost (x : WalletConnectionManager Unit Nat × (Unit → Finset Nat)) : Bool :=
  decide (¬ x.2 () ⊆ x.1.registered ())

end Resumed

/-- Over all runs the registry can grow past the cap, and can lose a socket
that is live. -/
theorem not_whole :
    (¬ ∀ es, Always (fun m _ => ∀ u, (m.registered u).card ≤ maxSocketsPerUser)
      ({} : WalletConnectionManager Unit Nat) (fun _ => ∅) es) ∧
    ¬ ∀ es, Always (fun m live => ∀ u, live u ⊆ m.registered u)
      ({} : WalletConnectionManager Unit Nat) (fun _ => ∅) es := by
  constructor
  · intro h
    have hrun : (run {} (fun _ => ∅) Resumed.overfull).any Resumed.isOverfull = true := by
      decide +kernel
    obtain ⟨x, hx, hover⟩ := (Option.any_eq_true _ _).mp hrun
    have hbound := (h Resumed.overfull).last hx ()
    have hcard := of_decide_eq_true hover
    omega
  · intro h
    have hrun : (run {} (fun _ => ∅) Resumed.lost).any Resumed.hasLost = true := by
      decide +kernel
    obtain ⟨x, hx, hlost⟩ := (Option.any_eq_true _ _).mp hrun
    exact of_decide_eq_true hlost ((h Resumed.lost).last hx ())

end WalletConnectionManager

end Realtime

end Adehun
