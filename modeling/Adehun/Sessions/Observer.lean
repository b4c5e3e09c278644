import Adehun.Sessions.Logic

/-!
# Watching a run

Some properties of a run are not properties of the states it passes through:
how often something happened, who did it, what was answered. An `Observer`
keeps such things in a state of its own, which the run does not see. It
watches requests arrive, statements answer, transactions commit and sessions
die; everything else leaves its state alone.

The logic of the last module is repeated for a world together with what its
observer has seen, and so is its soundness. What a program leaves when it
ends is kept here, so that something can be said of how requests end.
-/

namespace Sessions

variable {M : System} {Req α β X : Type}

/-- A state that follows a run. -/
structure Observer (M : System) (Req : Type) where
  State : Type
  start : Nat → Req → State → State := fun _ _ o => o
  /-- A session is answered, in a world, by a statement that changes nothing. -/
  look : Nat → World M → {X : Type} → Stmt M X → X → State → State := fun _ _ _ _ _ o => o
  /-- A session commits what it has written, from one committed state to the
  next. -/
  commit : Nat → List (Write M) → Db M → Db M → State → State := fun _ _ _ _ o => o
  crash : Nat → State → State := fun _ o => o

namespace Observer

variable (O : Observer M Req)

/-- What is seen of a statement. -/
def exec (i : Nat) (w w' : World M) : {X : Type} → Stmt M X → Except M.Exn X → O.State → O.State
  | _, .commit, .ok _, o => O.commit i (w.tx i).writes w.db w'.db o
  | _, .stage _, .ok _, o => o
  | _, .upsert _ _, .ok _, o => o
  | _, .rollback, .ok _, o => o
  | _, s, .ok x, o => O.look i w s x o
  | _, _, .error _, o => o

/-- What is seen of a step. -/
def see (C : Conf M α) (o : O.State) : Label M Req → O.State
  | .start i r => O.start i r o
  | .exec i c =>
      match C.threads i with
      | some (.call s _) =>
          match C.world.exec i c s with
          | some (r, w) => O.exec i C.world w s r o
          | none => o
      | _ => o
  | .crash i => O.crash i o
  | .flush _ | .ambient _ => o

/-- A run and what is seen of it. -/
def run (handler : Req → Prog M α) (C : Conf M α) (o : O.State) :
    List (Label M Req) → Option (Conf M α × O.State)
  | [] => some (C, o)
  | l :: ls =>
      match C.step handler l with
      | some C' => run handler C' (O.see C o l) ls
      | none => none

/-- Something holds of every state of a run and what has been seen up to
there. -/
def Always (P : Conf M α → O.State → Prop) (handler : Req → Prog M α) :
    Conf M α → O.State → List (Label M Req) → Prop
  | C, o, [] => P C o
  | C, o, l :: ls => P C o ∧
      ∀ C', C.step handler l = some C' → Always P handler C' (O.see C o l) ls

/-- Something holds of every step of a run and what has been seen before. -/
def Steps (P : Conf M α → O.State → Label M Req → Conf M α → Prop) (handler : Req → Prog M α) :
    Conf M α → O.State → List (Label M Req) → Prop
  | _, _, [] => True
  | C, o, l :: ls =>
      ∀ C', C.step handler l = some C' → P C o l C' ∧ Steps P handler C' (O.see C o l) ls

/-- Every step of a run meets a guard that knows what has been seen. -/
def RunMeets (g : O.State → Guard M) (handler : Req → Prog M α) :
    Conf M α → O.State → List (Label M Req) → Prop
  | _, _, [] => True
  | C, o, l :: ls => (g o).Meets C l ∧
      ∀ C', C.step handler l = some C' → RunMeets g handler C' (O.see C o l) ls

variable {O} {handler : Req → Prog M α} {C C' : Conf M α} {o o' : O.State}
  {ls : List (Label M Req)}

/-- Watching does not change a run. -/
theorem exists_run (h : C.run handler ls = some C') (o : O.State) :
    ∃ o', O.run handler C o ls = some (C', o') := by
  induction ls generalizing C o with
  | nil =>
      cases h
      exact ⟨o, rfl⟩
  | cons l ls ih =>
      simp only [Conf.run] at h
      split at h
      · next C₁ hs =>
          obtain ⟨o', hr⟩ := ih h (O.see C o l)
          exact ⟨o', by simp only [run, hs, hr]⟩
      · cases h

theorem runMeets_of_guard {g : Guard M} (h : C.RunMeets g handler ls) (o : O.State) :
    O.RunMeets (fun _ => g) handler C o ls := by
  induction ls generalizing C o with
  | nil => trivial
  | cons l ls ih => exact ⟨h.1, fun C' hs => ih (h.2 C' hs) _⟩

theorem run_start {i : Nat} (r : Req) (h : C.threads i = none) (ls : List (Label M Req)) :
    O.run handler C o (.start i r :: ls) =
      O.run handler (C.setThread i (some (handler r)) C.world) (O.start i r o) ls := by
  simp only [run, Conf.step, h, see]

theorem run_exec {i : Nat} {c : Choice M} {s : Stmt M X} {k : Except M.Exn X → Prog M α}
    {r : Except M.Exn X} {w : World M} (hp : C.threads i = some (.call s k))
    (he : C.world.exec i c s = some (r, w)) (ls : List (Label M Req)) :
    O.run handler C o (.exec i c :: ls) =
      O.run handler (C.setThread i (some (k r)) w) (O.exec i C.world w s r o) ls := by
  simp only [run, Conf.step, hp, he, Option.map_some, see]

/-- What every step of a run does in view of what has been seen, without
what has been seen. -/
theorem Steps.runSteps {P : Conf M α → O.State → Label M Req → Conf M α → Prop}
    {Q : Conf M α → Conf M α → Prop} (h : O.Steps P handler C o ls)
    (hP : ∀ C o l C', P C o l C' → Q C C') : C.RunSteps Q handler ls := by
  induction ls generalizing C o with
  | nil => trivial
  | cons l ls ih => exact fun C' hs => ⟨hP C o l C' (h C' hs).1, ih (h C' hs).2⟩

theorem Always.last {P : Conf M α → O.State → Prop} (h : O.Always P handler C o ls)
    (hr : O.run handler C o ls = some (C', o')) : P C' o' := by
  induction ls generalizing C o with
  | nil =>
      cases hr
      exact h
  | cons l ls ih =>
      simp only [run] at hr
      split at hr
      · next C₁ hs => exact ih (h.2 C₁ hs) hr
      · cases hr

theorem runMeets_trivial (C : Conf M α) (o : O.State) (ls : List (Label M Req)) :
    O.RunMeets (fun _ => {}) handler C o ls := by
  induction ls generalizing C o with
  | nil => trivial
  | cons l ls ih =>
      exact ⟨Guard.meets_trivial C l, fun C' _ => ih C' _⟩

/-! ## The logic of a watched world -/

variable (O) in
/-- Rely and guarantee, for a world and what has been seen. -/
structure Logic where
  Inv : World M → O.State → Prop
  guard : O.State → Guard M
  Must : {X : Type} → World M → Nat → Stmt M X → O.State → Prop := fun _ _ _ _ => True
  Rely : Nat → World M → O.State → World M → O.State → Prop
  refl : ∀ i w o, Rely i w o w o
  trans : ∀ {i w o w' o' w'' o''}, Rely i w o w' o' → Rely i w' o' w'' o'' →
    Rely i w o w'' o''
  wf : ∀ {w o}, Inv w o → w.WF
  start : ∀ {w o i} r, Inv w o → w.Idle i →
    Inv w (O.start i r o) ∧ ∀ j, j ≠ i → Rely j w o w (O.start i r o)
  flush : ∀ {w o i w'}, Inv w o → (guard o).flush w i → w.flush i = some (.ok (), w') →
    Inv w' o ∧ ∀ j, Rely j w o w' o
  crash : ∀ {w o} i, Inv w o → Inv (w.reset i) (O.crash i o) ∧
    ∀ j, j ≠ i → Rely j w o (w.reset i) (O.crash i o)
  ambient : ∀ {w : World M} {o} (m : M.Shared), Inv w o → Inv { w with shared := m } o ∧
    ∀ j, Rely j w o { w with shared := m } o

/-- Program `p` of session `i` keeps its part from here on, and ends in `Q`
or, with an exception, in `E`. -/
def Safe (L : O.Logic) (i : Nat) (Q : β → World M → O.State → Prop)
    (E : M.Exn → World M → O.State → Prop) (p : Prog M β) (w : World M) (o : O.State) : Prop :=
  match p with
  | .ret a => Q a w o
  | .raise e => E e w o
  | .call s k => ∀ w₁ o₁, L.Rely i w o w₁ o₁ → L.Inv w₁ o₁ → L.Must w₁ i s o₁ ∧
      ∀ c r w₂, w₁.exec i c s = some (r, w₂) → (L.guard o₁).exec w₁ i s c →
        L.Inv w₂ (O.exec i w₁ w₂ s r o₁) ∧
        (∀ j, j ≠ i → L.Rely j w₁ o₁ w₂ (O.exec i w₁ w₂ s r o₁)) ∧
        Safe L i Q E (k r) w₂ (O.exec i w₁ w₂ s r o₁)

section Rules

variable {L : O.Logic} {i : Nat} {w : World M}

/-- How a statement's outcome is to be read. -/
def Outcome (Q : X → World M → O.State → Prop) (E : M.Exn → World M → O.State → Prop)
    (r : Except M.Exn X) (w : World M) (o : O.State) : Prop :=
  match r with
  | .ok x => Q x w o
  | .error e => E e w o

theorem safe_mono {Q Q' : β → World M → O.State → Prop}
    {E E' : M.Exn → World M → O.State → Prop} {p : Prog M β}
    (hQ : ∀ a w o, Q a w o → Q' a w o) (hE : ∀ e w o, E e w o → E' e w o)
    (h : Safe L i Q E p w o) : Safe L i Q' E' p w o := by
  induction p generalizing w o with
  | ret a => exact hQ a w o h
  | raise e => exact hE e w o h
  | call s k ih =>
      intro w₁ o₁ hr hi
      obtain ⟨hm, hs⟩ := h w₁ o₁ hr hi
      refine ⟨hm, ?_⟩
      intro c r w₂ he hg
      obtain ⟨h₁, h₂, h₃⟩ := hs c r w₂ he hg
      exact ⟨h₁, h₂, ih r h₃⟩

theorem safe_bind {γ : Type} {Q : γ → World M → O.State → Prop}
    {E : M.Exn → World M → O.State → Prop} {p : Prog M β} {f : β → Prog M γ}
    (h : Safe L i (fun a w o => Safe L i Q E (f a) w o) E p w o) :
    Safe L i Q E (p.bind f) w o := by
  induction p generalizing w o with
  | ret a => exact h
  | raise e => exact h
  | call s k ih =>
      intro w₁ o₁ hr hi
      obtain ⟨hm, hs⟩ := h w₁ o₁ hr hi
      refine ⟨hm, ?_⟩
      intro c r w₂ he hg
      obtain ⟨h₁, h₂, h₃⟩ := hs c r w₂ he hg
      exact ⟨h₁, h₂, ih r h₃⟩

theorem safe_tryCatch {Q : β → World M → O.State → Prop}
    {E : M.Exn → World M → O.State → Prop} {p : Prog M β} {f : M.Exn → Prog M β}
    (h : Safe L i Q (fun e w o => Safe L i Q E (f e) w o) p w o) :
    Safe L i Q E (p.tryCatch f) w o := by
  induction p generalizing w o with
  | ret a => exact h
  | raise e => exact h
  | call s k ih =>
      intro w₁ o₁ hr hi
      obtain ⟨hm, hs⟩ := h w₁ o₁ hr hi
      refine ⟨hm, ?_⟩
      intro c r w₂ he hg
      obtain ⟨h₁, h₂, h₃⟩ := hs c r w₂ he hg
      exact ⟨h₁, h₂, ih r h₃⟩

theorem safe_attempt {Q : Except M.Exn β → World M → O.State → Prop}
    {E : M.Exn → World M → O.State → Prop} {p : Prog M β}
    (h : Safe L i (fun a w o => Q (.ok a) w o) (fun e w o => Q (.error e) w o) p w o) :
    Safe L i Q E p.attempt w o := by
  refine safe_tryCatch (safe_bind (safe_mono ?_ ?_ h))
  · exact fun _ _ _ hq => hq
  · exact fun _ _ _ he => he

theorem safe_perform {Q : X → World M → O.State → Prop}
    {E : M.Exn → World M → O.State → Prop} {s : Stmt M X}
    (h : ∀ w₁ o₁, L.Rely i w o w₁ o₁ → L.Inv w₁ o₁ → L.Must w₁ i s o₁ ∧
      ∀ c r w₂, w₁.exec i c s = some (r, w₂) → (L.guard o₁).exec w₁ i s c →
        L.Inv w₂ (O.exec i w₁ w₂ s r o₁) ∧
        (∀ j, j ≠ i → L.Rely j w₁ o₁ w₂ (O.exec i w₁ w₂ s r o₁)) ∧
        Outcome Q E r w₂ (O.exec i w₁ w₂ s r o₁)) :
    Safe L i Q E (.perform s) w o := by
  intro w₁ o₁ hr hi
  obtain ⟨hm, hs⟩ := h w₁ o₁ hr hi
  refine ⟨hm, ?_⟩
  intro c r w₂ he hg
  obtain ⟨h₁, h₂, h₃⟩ := hs c r w₂ he hg
  refine ⟨h₁, h₂, ?_⟩
  cases r with
  | ok x => exact h₃
  | error e => exact h₃

end Rules

/-! ## Soundness -/

namespace Logic

variable (L : O.Logic) (Q : Nat → α → World M → O.State → Prop)

/-- The invariant of a configuration and what has been seen of it: every
program is safe from somewhere it can rely on having led here, and so ends
in `Q` when it returns. -/
structure Sound (C : Conf M α) (o : O.State) : Prop where
  inv : L.Inv C.world o
  idle : ∀ i, C.threads i = none → C.world.Idle i
  safe : ∀ i p, C.threads i = some p → ∃ w o₀, L.Rely i w o₀ C.world o ∧
    Safe L i (Q i) (fun _ _ _ => True) p w o₀

/-- A request whose program is safe from wherever it may arrive. -/
def Serves (handler : Req → Prog M α) : Prop :=
  ∀ r i w o, L.Inv w (O.start i r o) → w.Idle i →
    Safe L i (Q i) (fun _ _ _ => True) (handler r) w (O.start i r o)

variable {L Q}

/-- What a request that has returned leaves behind. -/
theorem Sound.returned (h : L.Sound Q C o) {i : Nat} {a : α} (hi : C.threads i = some (.ret a)) :
    ∃ w o₀, L.Rely i w o₀ C.world o ∧ Q i a w o₀ := h.safe i _ hi

theorem Sound.setThread (h : L.Sound Q C o) {i : Nat} {p : Option (Prog M α)} {w : World M}
    (hi : L.Inv w o') (hr : ∀ j, j ≠ i → L.Rely j C.world o w o')
    (hidle : ∀ j, j ≠ i → C.world.Idle j → w.Idle j)
    (hp : match p with
      | none => w.Idle i
      | some p => ∃ w₀ o₀, L.Rely i w₀ o₀ w o' ∧
          Safe L i (Q i) (fun _ _ _ => True) p w₀ o₀) :
    L.Sound Q (C.setThread i p w) o' := by
  refine ⟨hi, ?_, ?_⟩
  · intro j hj
    by_cases hji : j = i
    · subst hji
      simp only [Conf.setThread, Function.update_self] at hj
      rw [hj] at hp
      exact hp
    · simp only [Conf.setThread, Function.update_of_ne hji] at hj
      exact hidle j hji (h.idle j hj)
  · intro j q hj
    by_cases hji : j = i
    · subst hji
      simp only [Conf.setThread, Function.update_self] at hj
      rw [hj] at hp
      exact hp
    · simp only [Conf.setThread, Function.update_of_ne hji] at hj
      obtain ⟨w₀, o₀, hr₀, hs⟩ := h.safe j q hj
      exact ⟨w₀, o₀, L.trans hr₀ (hr j hji), hs⟩

/-- One step keeps the invariant. -/
theorem Sound.step (h : L.Sound Q C o) (hh : L.Serves Q handler) {l : Label M Req}
    (hg : (L.guard o).Meets C l) (hs : C.step handler l = some C') :
    L.Sound Q C' (O.see C o l) := by
  have hwf := L.wf h.inv
  cases l with
  | start i r =>
      simp only [Conf.step] at hs
      split at hs
      · next hnone =>
          cases hs
          have hidle := h.idle i hnone
          obtain ⟨h₁, h₂⟩ := L.start r h.inv hidle
          refine h.setThread h₁ h₂ (fun _ _ hj => hj) ?_
          exact ⟨C.world, _, L.refl i _ _, hh r i _ o h₁ hidle⟩
      · cases hs
  | exec i c =>
      simp only [Conf.step] at hs
      split at hs
      · next X s k hp =>
          simp only [Option.map_eq_some_iff] at hs
          obtain ⟨⟨r, w₂⟩, he, rfl⟩ := hs
          simp only [Guard.Meets, hp] at hg
          obtain ⟨w₀, o₀, hr, hsafe⟩ := h.safe i _ hp
          obtain ⟨-, hstep⟩ := hsafe C.world o hr h.inv
          obtain ⟨h₁, h₂, h₃⟩ := hstep c r w₂ he hg
          simp only [see, hp, he]
          refine h.setThread h₁ h₂ ?_ ⟨w₂, _, L.refl i _ _, h₃⟩
          exact fun j hne hi => Sessions.Logic.idle_of_does (World.exec_does he) hne hi
      · cases hs
  | flush i =>
      simp only [Conf.step] at hs
      split at hs
      · next X s k hp =>
          split at hs
          · split at hs
            · next w₂ hf =>
                cases hs
                obtain ⟨h₁, h₂⟩ := L.flush h.inv hg hf
                refine h.setThread h₁ (fun j _ => h₂ j) ?_ ?_
                · exact fun j hne hi =>
                    Sessions.Logic.idle_of_does (.single (World.flush_does hf)) hne hi
                · obtain ⟨w₀, o₀, hr, hsafe⟩ := h.safe i _ hp
                  exact ⟨w₀, o₀, L.trans hr (h₂ i), hsafe⟩
            · cases hs
          · cases hs
      · cases hs
  | crash i =>
      simp only [Conf.step] at hs
      split at hs
      · next p hp =>
          cases hs
          obtain ⟨h₁, h₂⟩ := L.crash i h.inv
          refine h.setThread h₁ h₂ ?_ ?_
          · exact fun j hne hi =>
              Sessions.Logic.idle_of_does (.single (World.does_reset C.world i)) hne hi
          · refine ⟨World.reset_tx_self _ i, ?_⟩
            intro l hl
            rw [World.reset, World.release_holder] at hl
            split at hl
            · cases hl
            · next hne => exact hne hl
      · cases hs
  | ambient a =>
      simp only [Conf.step, Option.some.injEq] at hs
      subst hs
      obtain ⟨h₁, h₂⟩ := L.ambient (M.ambient a C.world.shared) h.inv
      refine ⟨h₁, h.idle, ?_⟩
      intro i p hp
      obtain ⟨w₀, o₀, hr, hsafe⟩ := h.safe i p hp
      exact ⟨w₀, o₀, L.trans hr (h₂ i), hsafe⟩

/-- The invariant holds wherever a run leads whose steps meet the guard. -/
theorem Sound.always (h : L.Sound Q C o) (hh : L.Serves Q handler)
    {P : Conf M α → O.State → Prop} (hP : ∀ C o, L.Sound Q C o → P C o)
    (hg : O.RunMeets L.guard handler C o ls) : O.Always P handler C o ls := by
  induction ls generalizing C o with
  | nil => exact hP C o h
  | cons l ls ih => exact ⟨hP C o h, fun C' hs => ih (h.step hh hg.1 hs) (hg.2 C' hs)⟩

/-- What every step from a sound configuration does in view of what has been
seen, every step of a run does. -/
theorem Sound.steps (h : L.Sound Q C o) (hh : L.Serves Q handler)
    {P : Conf M α → O.State → Label M Req → Conf M α → Prop}
    (hP : ∀ C o l C', L.Sound Q C o → (L.guard o).Meets C l → C.step handler l = some C' →
      P C o l C') (hg : O.RunMeets L.guard handler C o ls) : O.Steps P handler C o ls := by
  induction ls generalizing C o with
  | nil => trivial
  | cons l ls ih =>
      exact fun C' hs => ⟨hP C o l C' h hg.1 hs, ih (h.step hh hg.1 hs) (hg.2 C' hs)⟩

theorem sound_init {w : World M} (hi : L.Inv w o) (hidle : ∀ i, w.Idle i) :
    L.Sound Q ({ world := w } : Conf M α) o :=
  ⟨hi, fun i _ => hidle i, fun _ _ hp => by cases hp⟩

end Logic

end Observer

end Sessions
