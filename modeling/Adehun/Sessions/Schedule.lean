import Adehun.Sessions.Observer

/-!
# Scripts

A run is a list of labels, most of which say that some session goes on. A
`Turn` says it for a stretch: a session goes on until it has to wait, for the
outside or for another session. `play` turns a script into the run it stands
for, and that it is one is proved once.
-/

namespace Sessions

variable {M : System} {α Req : Type}

/-- One turn of a script: a request arrives, a session goes on for a number
of steps at most, drawing identifiers from a start upwards, or it gets an
answer from outside. -/
inductive Turn (M : System) (Req : Type)
  | arrive (i : Nat) (r : Req)
  | go (i steps fresh : Nat)
  | answer (i : Nat) (reply : M.Reply)
  | fault (i : Nat)
  | crash (i : Nat)
  | ambient (a : M.Ambient)

namespace Conf

variable (handler : Req → Prog M α)

/-- One label, if the configuration takes it. -/
def take (C : Conf M α) (l : Label M Req) : List (Label M Req) × Conf M α :=
  match C.step handler l with
  | some C' => ([l], C')
  | none => ([], C)

/-- Session `i` goes on: what is staged is sent when it has to be. -/
def go (i : Nat) : (steps fresh : Nat) → Conf M α → List (Label M Req) × Conf M α
  | 0, _, C => ([], C)
  | n + 1, v, C =>
      match C.step handler (.flush i) with
      | some C' =>
          let (ls, C'') := go i n v C'
          (.flush i :: ls, C'')
      | none =>
          match C.step handler (.exec i { value := v, alive := true }) with
          | some C' =>
              let (ls, C'') := go i n (v + 1) C'
              (.exec i { value := v, alive := true } :: ls, C'')
          | none => ([], C)

/-- The run of one turn. -/
def turn (C : Conf M α) : Turn M Req → List (Label M Req) × Conf M α
  | .arrive i r => C.take handler (.start i r)
  | .go i steps fresh => go handler i steps fresh C
  | .answer i reply => C.take handler (.exec i { reply := some reply })
  | .fault i => C.take handler (.exec i { fail := true })
  | .crash i => C.take handler (.crash i)
  | .ambient a => C.take handler (.ambient a)

/-- The run of a script. -/
def play (C : Conf M α) : List (Turn M Req) → List (Label M Req) × Conf M α
  | [] => ([], C)
  | t :: ts =>
      let (ls, C') := C.turn handler t
      let (ls', C'') := C'.play ts
      (ls ++ ls', C'')

variable {handler}

theorem run_append (C : Conf M α) (ls ls' : List (Label M Req)) :
    C.run handler (ls ++ ls') = (C.run handler ls).bind fun C' => C'.run handler ls' := by
  induction ls generalizing C with
  | nil => rfl
  | cons l ls ih =>
      simp only [List.cons_append, run]
      cases C.step handler l with
      | none => rfl
      | some C' => exact ih C'

theorem run_take (C : Conf M α) (l : Label M Req) :
    C.run handler (C.take handler l).1 = some (C.take handler l).2 := by
  unfold take
  cases h : C.step handler l with
  | none => rfl
  | some C' => simp only [run, h]

theorem run_go (i steps fresh : Nat) (C : Conf M α) :
    C.run handler (go handler i steps fresh C).1 = some (go handler i steps fresh C).2 := by
  induction steps generalizing fresh C with
  | zero => rfl
  | succ n ih =>
      unfold go
      cases hf : C.step handler (.flush i) with
      | some C' =>
          simp only [run, hf]
          exact ih fresh C'
      | none =>
          cases he : C.step handler (.exec i { value := fresh, alive := true }) with
          | some C' =>
              simp only [run, he]
              exact ih (fresh + 1) C'
          | none => rfl

theorem run_turn (C : Conf M α) (t : Turn M Req) :
    C.run handler (C.turn handler t).1 = some (C.turn handler t).2 := by
  cases t with
  | go i steps fresh => exact run_go i steps fresh C
  | _ => exact run_take C _

/-- A script plays a run. -/
theorem run_play (C : Conf M α) (ts : List (Turn M Req)) :
    C.run handler (C.play handler ts).1 = some (C.play handler ts).2 := by
  induction ts generalizing C with
  | nil => rfl
  | cons t ts ih =>
      simp only [play]
      rw [run_append, run_turn]
      exact ih _

/-- The run a script plays, kept folded: what is said of it is evaluated only
where a decision asks for it. -/
@[irreducible] def played (handler : Req → Prog M α) (C : Conf M α) (ts : List (Turn M Req)) :
    List (Label M Req) × Conf M α :=
  C.play handler ts

theorem run_played (C : Conf M α) (ts : List (Turn M Req)) :
    C.run handler (C.played handler ts).1 = some (C.played handler ts).2 := by
  unfold played
  exact run_play C ts

/-- The step after a script, where every step of every run is of some kind. -/
theorem step_play {P : Conf M α → Conf M α → Prop} {C C' : Conf M α}
    (h : ∀ ls, C.RunSteps P handler ls) (ts : List (Turn M Req)) {l : Label M Req}
    (hs : (C.play handler ts).2.step handler l = some C') : P (C.play handler ts).2 C' :=
  (h ((C.play handler ts).1 ++ [l])).last (run_play C ts) hs

/-- A script after which a step is not of that kind, by a test that a step
of that kind passes. -/
theorem not_runSteps_of_play {P : Conf M α → Conf M α → Prop} {q : Conf M α → Conf M α → Bool}
    (hq : ∀ C C', P C C' → q C C' = true) {C : Conf M α} (ts : List (Turn M Req))
    (l : Label M Req)
    (h : ((C.play handler ts).2.step handler l).any
      (fun C' => !q (C.play handler ts).2 C') = true) :
    ¬ ∀ ls, C.RunSteps P handler ls := by
  intro hall
  obtain ⟨C', hstep, hC⟩ := (Option.any_eq_true _ _).mp h
  rw [hq _ _ (step_play hall ts hstep)] at hC
  cases hC

end Conf

/-! ## Guards along a script -/

/-- What can be tested of a step. -/
structure Check (M : System) where
  exec : {X : Type} → World M → Nat → Stmt M X → Choice M → Bool := fun _ _ _ _ => true
  flush : World M → Nat → Bool := fun _ _ => true

/-- A test that only passes what a guard lets pass. -/
structure Guard.Test (g : Guard M) extends Check M where
  exec_sound : ∀ {X : Type} {w : World M} {i : Nat} {s : Stmt M X} {c : Choice M},
    exec w i s c = true → g.exec w i s c
  flush_sound : ∀ {w : World M} {i : Nat}, flush w i = true → g.flush w i

/-- The guard that a test is. -/
def Check.guard (t : Check M) : Guard M where
  exec w i s c := t.exec w i s c = true
  flush w i := t.flush w i = true

def Check.test (t : Check M) : t.guard.Test where
  toCheck := t
  exec_sound h := h
  flush_sound h := h

namespace Guard.Test

variable {g : Guard M} {handler : Req → Prog M α} {C : Conf M α}

/-- The test of one step. -/
def step (t : g.Test) (C : Conf M α) : Label M Req → Bool
  | .exec i c =>
      match C.threads i with
      | some (.call s _) => t.exec C.world i s c
      | _ => true
  | .flush i => t.flush C.world i
  | _ => true

/-- The test of every step of a run. -/
def run (t : g.Test) (handler : Req → Prog M α) : Conf M α → List (Label M Req) → Bool
  | _, [] => true
  | C, l :: ls => t.step C l &&
      match C.step handler l with
      | some C' => t.run handler C' ls
      | none => true

theorem meets (t : g.Test) {l : Label M Req} (h : t.step C l = true) : g.Meets C l := by
  cases l with
  | exec i c =>
      simp only [step] at h
      simp only [Meets]
      cases hp : C.threads i with
      | none => trivial
      | some p =>
          rw [hp] at h
          cases p with
          | call s k => exact t.exec_sound h
          | _ => trivial
  | flush i => exact t.flush_sound h
  | _ => trivial

/-- A run that passes meets the guard. -/
theorem runMeets (t : g.Test) {ls : List (Label M Req)} (h : t.run handler C ls = true) :
    C.RunMeets g handler ls := by
  induction ls generalizing C with
  | nil => trivial
  | cons l ls ih =>
      simp only [run, Bool.and_eq_true] at h
      refine ⟨t.meets h.1, fun C' hs => ih ?_⟩
      rw [hs] at h
      exact h.2

end Guard.Test

namespace Observer

variable {O : Observer M Req} {g : O.State → Guard M} {handler : Req → Prog M α}

/-- The test of every step of a run that is watched. -/
def test (t : ∀ o, (g o).Test) (handler : Req → Prog M α) :
    Conf M α → O.State → List (Label M Req) → Bool
  | _, _, [] => true
  | C, o, l :: ls => (t o).step C l &&
      match C.step handler l with
      | some C' => test t handler C' (O.see C o l) ls
      | none => true

theorem runMeets_of_test (t : ∀ o, (g o).Test) {C : Conf M α} {o : O.State}
    {ls : List (Label M Req)} (h : O.test t handler C o ls = true) :
    O.RunMeets g handler C o ls := by
  induction ls generalizing C o with
  | nil => trivial
  | cons l ls ih =>
      simp only [test, Bool.and_eq_true] at h
      refine ⟨(t o).meets h.1, fun C' hs => ih ?_⟩
      rw [hs] at h
      exact h.2

/-- A run that meets a guard meets another that asks no more of what is seen
along the run. -/
theorem RunMeets.imp {g' : O.State → Guard M} {P : O.State → Prop} {q : Label M Req → Bool}
    (hsee : ∀ {C : Conf M α} {o l}, P o → q l = true → P (O.see C o l))
    (himp : ∀ {C : Conf M α} {o} {l : Label M Req}, P o → (g o).Meets C l → (g' o).Meets C l)
    {C : Conf M α} {o : O.State} {ls : List (Label M Req)} (ho : P o) (hq : ls.all q = true)
    (h : O.RunMeets g handler C o ls) : O.RunMeets g' handler C o ls := by
  induction ls generalizing C o with
  | nil => trivial
  | cons l ls ih =>
      simp only [List.all_cons, Bool.and_eq_true] at hq
      exact ⟨himp ho h.1, fun C' hs => ih (hsee ho hq.1) hq.2 (h.2 C' hs)⟩

end Observer

/-- A script after which something does not hold of what was seen, by a test
that it would pass. -/
theorem Observer.not_always_of_play {O : Observer M Req} {handler : Req → Prog M α}
    {P : Conf M α → O.State → Prop} {q : O.State → Bool} (hq : ∀ C o, P C o → q o = true)
    {C : Conf M α} {o : O.State} (ts : List (Turn M Req))
    (h : (O.run handler C o (C.play handler ts).1).any (fun x => !q x.2) = true) :
    ¬ ∀ ls, O.Always P handler C o ls := by
  intro hall
  obtain ⟨x, hrun, hx⟩ := (Option.any_eq_true _ _).mp h
  rw [hq _ _ ((hall _).last hrun)] at hx
  cases hx

end Sessions
