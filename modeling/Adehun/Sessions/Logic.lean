import Adehun.Sessions.Locks

/-!
# Rely and guarantee

How to argue about one program while the others run. A `Logic` fixes an
invariant of the world, what a session can rely on between two of its own
statements, what has to be shown before each of them, and which steps are
considered at all. `Safe` then says that a program, started in a world,
keeps its part whatever the others do within the rely relation: it is the
weakest precondition of the program in that sense, by recursion on its tree.

Soundness is proved once: if the program of every request is safe from the
invariant, then the invariant holds in every configuration a run reaches.
-/

namespace Sessions

variable {M : System} {α β X : Type}

/-- Which steps of the machine a statement about runs considers. -/
structure Guard (M : System) where
  exec : {X : Type} → World M → Nat → Stmt M X → Choice M → Prop := fun _ _ _ _ => True
  flush : World M → Nat → Prop := fun _ _ => True

/-- A step of a configuration meets a guard. -/
def Guard.Meets {Req : Type} (g : Guard M) (C : Conf M α) : Label M Req → Prop
  | .exec i c =>
      match C.threads i with
      | some (.call s _) => g.exec C.world i s c
      | _ => True
  | .flush i => g.flush C.world i
  | _ => True

/-- A guard that lets everything pass. -/
theorem Guard.meets_trivial {Req : Type} (C : Conf M α) (l : Label M Req) :
    ({} : Guard M).Meets C l := by
  cases l with
  | exec i c =>
      simp only [Guard.Meets]
      split <;> trivial
  | _ => trivial

/-- Every step of a run meets a guard. -/
def Conf.RunMeets {Req : Type} (g : Guard M) (handler : Req → Prog M α) :
    Conf M α → List (Label M Req) → Prop
  | _, [] => True
  | C, l :: ls => g.Meets C l ∧ ∀ C', C.step handler l = some C' → RunMeets g handler C' ls

/-- Every step a run takes is of some kind. -/
def Conf.RunSteps {Req : Type} (P : Conf M α → Conf M α → Prop) (handler : Req → Prog M α) :
    Conf M α → List (Label M Req) → Prop
  | _, [] => True
  | C, l :: ls => ∀ C', C.step handler l = some C' → P C C' ∧ RunSteps P handler C' ls

/-- The step after a run is one of the steps of the longer run. -/
theorem Conf.RunSteps.last {Req : Type} {P : Conf M α → Conf M α → Prop}
    {handler : Req → Prog M α} {C C' C'' : Conf M α} {ls : List (Label M Req)}
    {l : Label M Req} (h : C.RunSteps P handler (ls ++ [l]))
    (hr : C.run handler ls = some C') (hs : C'.step handler l = some C'') : P C' C'' := by
  induction ls generalizing C with
  | nil =>
      cases hr
      exact (h C'' hs).1
  | cons l' ls ih =>
      simp only [Conf.run] at hr
      split at hr
      · next C₁ hstep => exact ih (h C₁ hstep).2 hr
      · cases hr

/-- What every longer run does after a run, the rest of it does. -/
theorem Conf.RunSteps.after {Req : Type} {P : Conf M α → Conf M α → Prop}
    {handler : Req → Prog M α} {C C' : Conf M α} {ls ls' : List (Label M Req)}
    (h : C.RunSteps P handler (ls ++ ls')) (hr : C.run handler ls = some C') :
    C'.RunSteps P handler ls' := by
  induction ls generalizing C with
  | nil =>
      cases hr
      exact h
  | cons l ls ih =>
      simp only [Conf.run] at hr
      split at hr
      · next C₁ hs => exact ih (h C₁ hs).2 hr
      · cases hr

theorem Conf.RunSteps.mono {Req : Type} {P Q : Conf M α → Conf M α → Prop}
    {handler : Req → Prog M α} {C : Conf M α} {ls : List (Label M Req)}
    (h : C.RunSteps P handler ls) (hPQ : ∀ C C', P C C' → Q C C') : C.RunSteps Q handler ls := by
  induction ls generalizing C with
  | nil => trivial
  | cons l ls ih =>
      intro C' hs
      exact ⟨hPQ C C' (h C' hs).1, ih (h C' hs).2⟩

theorem Conf.RunSteps.and {Req : Type} {P Q : Conf M α → Conf M α → Prop}
    {handler : Req → Prog M α} {C : Conf M α} {ls : List (Label M Req)}
    (hP : C.RunSteps P handler ls) (hQ : C.RunSteps Q handler ls) :
    C.RunSteps (fun C C' => P C C' ∧ Q C C') handler ls := by
  induction ls generalizing C with
  | nil => trivial
  | cons l ls ih =>
      intro C' hs
      exact ⟨⟨(hP C' hs).1, (hQ C' hs).1⟩, ih (hP C' hs).2 (hQ C' hs).2⟩

/-- What every step of a run does, and doing it twice as well, the run does. -/
theorem Conf.RunSteps.rel {Req : Type} {P : Conf M α → Conf M α → Prop}
    (hrefl : ∀ C, P C C) (htrans : ∀ {C C' C''}, P C C' → P C' C'' → P C C'')
    {handler : Req → Prog M α} {C C' : Conf M α} {ls : List (Label M Req)}
    (h : C.RunSteps P handler ls) (hr : C.run handler ls = some C') : P C C' := by
  induction ls generalizing C with
  | nil =>
      cases hr
      exact hrefl _
  | cons l ls ih =>
      simp only [Conf.run] at hr
      split at hr
      · next C₁ hs => exact htrans (h C₁ hs).1 (ih (h C₁ hs).2 hr)
      · cases hr

/-- What every step of a run leaves as it is, the run does. -/
theorem Conf.RunSteps.eq_of_run {Req β : Type} {f : Conf M α → β} {handler : Req → Prog M α}
    {C C' : Conf M α} {ls : List (Label M Req)}
    (h : C.RunSteps (fun C C' => f C' = f C) handler ls) (hr : C.run handler ls = some C') :
    f C' = f C :=
  Conf.RunSteps.rel (P := fun C C' => f C' = f C) (fun _ => rfl) (fun h h' => h'.trans h) h hr

theorem Conf.runMeets_trivial {Req : Type} {handler : Req → Prog M α} (C : Conf M α)
    (ls : List (Label M Req)) : C.RunMeets {} handler ls := by
  induction ls generalizing C with
  | nil => trivial
  | cons l ls ih =>
      exact ⟨Guard.meets_trivial C l, fun C' _ => ih C'⟩

/-- A step only knows the program of the request that arrives with it. -/
theorem Conf.step_congr {Req : Type} {handler handler' : Req → Prog M α} {C : Conf M α}
    {l : Label M Req} (h : ∀ i r, l = .start i r → handler r = handler' r) :
    C.step handler l = C.step handler' l := by
  cases l with
  | start i r => simp only [step, h i r rfl]
  | _ => rfl

theorem Conf.runSteps_congr {Req : Type} {P : Conf M α → Conf M α → Prop}
    {handler handler' : Req → Prog M α} {C : Conf M α} {ls : List (Label M Req)}
    (h : ∀ i r, Label.start i r ∈ ls → handler r = handler' r) :
    C.RunSteps P handler ls ↔ C.RunSteps P handler' ls := by
  induction ls generalizing C with
  | nil => exact Iff.rfl
  | cons l ls ih =>
      simp only [RunSteps]
      rw [step_congr fun i r hl => h i r (by simp [hl])]
      refine forall_congr' fun C' => imp_congr_right fun _ => and_congr_right fun _ => ?_
      exact ih fun i r hr => h i r (List.mem_cons_of_mem l hr)

theorem Conf.runMeets_congr {Req : Type} {g : Guard M} {handler handler' : Req → Prog M α}
    {C : Conf M α} {ls : List (Label M Req)}
    (h : ∀ i r, Label.start i r ∈ ls → handler r = handler' r) :
    C.RunMeets g handler ls ↔ C.RunMeets g handler' ls := by
  induction ls generalizing C with
  | nil => exact Iff.rfl
  | cons l ls ih =>
      simp only [RunMeets]
      rw [step_congr fun i r hl => h i r (by simp [hl])]
      refine and_congr_right fun _ => forall_congr' fun C' => imp_congr_right fun _ => ?_
      exact ih fun i r hr => h i r (List.mem_cons_of_mem l hr)

/-- The transaction of a session is empty, and it holds nothing. -/
def World.Idle (w : World M) (i : Nat) : Prop :=
  w.tx i = {} ∧ ∀ l, w.holder l ≠ some i

structure Logic (M : System) where
  Inv : World M → Prop
  guard : Guard M
  /-- What has to hold when a session is about to execute a statement. -/
  Must : {X : Type} → World M → Nat → Stmt M X → Prop := fun _ _ _ => True
  Rely : Nat → World M → World M → Prop
  refl : ∀ i w, Rely i w w
  trans : ∀ {i w w' w''}, Rely i w w' → Rely i w' w'' → Rely i w w''
  wf : ∀ {w}, Inv w → w.WF
  flush : ∀ {w i w'}, Inv w → guard.flush w i → w.flush i = some (.ok (), w') →
    Inv w' ∧ ∀ j, Rely j w w'
  crash : ∀ {w} i, Inv w → Inv (w.reset i) ∧ ∀ j, j ≠ i → Rely j w (w.reset i)
  ambient : ∀ {w : World M} (m : M.Shared), Inv w →
    Inv { w with shared := m } ∧ ∀ j, Rely j w { w with shared := m }

/-- Program `p` of session `i` keeps its part from world `w` on, and ends in
`Q` or, with an exception, in `E`. -/
def Safe (L : Logic M) (i : Nat) (Q : α → World M → Prop) (E : M.Exn → World M → Prop)
    (p : Prog M α) (w : World M) : Prop :=
  match p with
  | .ret a => Q a w
  | .raise e => E e w
  | .call s k => ∀ w₁, L.Rely i w w₁ → L.Inv w₁ → L.Must w₁ i s ∧
      ∀ c r w₂, w₁.exec i c s = some (r, w₂) → L.guard.exec w₁ i s c →
        L.Inv w₂ ∧ (∀ j, j ≠ i → L.Rely j w₁ w₂) ∧ Safe L i Q E (k r) w₂

/-! ## Rules -/

section Rules

variable {L : Logic M} {i : Nat} {w : World M}

/-- How a statement's outcome is to be read: as a value or an exception. -/
def Outcome (Q : X → World M → Prop) (E : M.Exn → World M → Prop)
    (r : Except M.Exn X) (w : World M) : Prop :=
  match r with
  | .ok x => Q x w
  | .error e => E e w

theorem safe_mono {Q Q' : α → World M → Prop} {E E' : M.Exn → World M → Prop}
    {p : Prog M α} (hQ : ∀ a w, Q a w → Q' a w) (hE : ∀ e w, E e w → E' e w)
    (h : Safe L i Q E p w) : Safe L i Q' E' p w := by
  induction p generalizing w with
  | ret a => exact hQ a w h
  | raise e => exact hE e w h
  | call s k ih =>
      intro w₁ hr hi
      obtain ⟨hm, hs⟩ := h w₁ hr hi
      refine ⟨hm, ?_⟩
      intro c r w₂ he hg
      obtain ⟨h₁, h₂, h₃⟩ := hs c r w₂ he hg
      exact ⟨h₁, h₂, ih r h₃⟩

theorem safe_bind {Q : β → World M → Prop} {E : M.Exn → World M → Prop} {p : Prog M α}
    {f : α → Prog M β} (h : Safe L i (fun a w => Safe L i Q E (f a) w) E p w) :
    Safe L i Q E (p.bind f) w := by
  induction p generalizing w with
  | ret a => exact h
  | raise e => exact h
  | call s k ih =>
      intro w₁ hr hi
      obtain ⟨hm, hs⟩ := h w₁ hr hi
      refine ⟨hm, ?_⟩
      intro c r w₂ he hg
      obtain ⟨h₁, h₂, h₃⟩ := hs c r w₂ he hg
      exact ⟨h₁, h₂, ih r h₃⟩

theorem safe_tryCatch {Q : α → World M → Prop} {E : M.Exn → World M → Prop} {p : Prog M α}
    {f : M.Exn → Prog M α} (h : Safe L i Q (fun e w => Safe L i Q E (f e) w) p w) :
    Safe L i Q E (p.tryCatch f) w := by
  induction p generalizing w with
  | ret a => exact h
  | raise e => exact h
  | call s k ih =>
      intro w₁ hr hi
      obtain ⟨hm, hs⟩ := h w₁ hr hi
      refine ⟨hm, ?_⟩
      intro c r w₂ he hg
      obtain ⟨h₁, h₂, h₃⟩ := hs c r w₂ he hg
      exact ⟨h₁, h₂, ih r h₃⟩

theorem safe_attempt {Q : Except M.Exn α → World M → Prop} {E : M.Exn → World M → Prop}
    {p : Prog M α}
    (h : Safe L i (fun a w => Q (.ok a) w) (fun e w => Q (.error e) w) p w) :
    Safe L i Q E p.attempt w := by
  refine safe_tryCatch (safe_bind (safe_mono ?_ ?_ h))
  · exact fun _ _ hq => hq
  · exact fun _ _ he => he

theorem safe_perform {Q : X → World M → Prop} {E : M.Exn → World M → Prop} {s : Stmt M X}
    (h : ∀ w₁, L.Rely i w w₁ → L.Inv w₁ → L.Must w₁ i s ∧
      ∀ c r w₂, w₁.exec i c s = some (r, w₂) → L.guard.exec w₁ i s c →
        L.Inv w₂ ∧ (∀ j, j ≠ i → L.Rely j w₁ w₂) ∧ Outcome Q E r w₂) :
    Safe L i Q E (.perform s) w := by
  intro w₁ hr hi
  obtain ⟨hm, hs⟩ := h w₁ hr hi
  refine ⟨hm, ?_⟩
  intro c r w₂ he hg
  obtain ⟨h₁, h₂, h₃⟩ := hs c r w₂ he hg
  refine ⟨h₁, h₂, ?_⟩
  cases r with
  | ok x => exact h₃
  | error e => exact h₃

end Rules

/-! ## Soundness -/

namespace Logic

variable {Req : Type} (L : Logic M) {handler : Req → Prog M α}

/-- The invariant of a configuration: that of its world, and every program
is safe from a world it can rely on having led here. -/
structure Sound (C : Conf M α) : Prop where
  inv : L.Inv C.world
  idle : ∀ i, C.threads i = none → C.world.Idle i
  safe : ∀ i p, C.threads i = some p → ∃ w, L.Rely i w C.world ∧
    Safe L i (fun _ _ => True) (fun _ _ => True) p w

/-- A request whose program is safe from wherever it may arrive. -/
def Serves (handler : Req → Prog M α) : Prop :=
  ∀ r i w, L.Inv w → w.Idle i →
    Safe L i (fun _ _ => True) (fun _ _ => True) (handler r) w

theorem idle_of_does {w w' : World M} {i j : Nat} (h : World.DoesAll i w w') (hne : j ≠ i)
    (hidle : w.Idle j) : w'.Idle j := by
  refine ⟨(h.tx_of_ne hne).trans hidle.1, ?_⟩
  intro l hl
  exact hidle.2 l ((h.holder_iff hne l).mp hl)

/-- The other threads after a step of session `i` that they can rely on. -/
theorem Sound.setThread {C : Conf M α} (h : L.Sound C) {i : Nat} {p : Option (Prog M α)}
    {w : World M} (hi : L.Inv w) (hr : ∀ j, j ≠ i → L.Rely j C.world w)
    (hidle : ∀ j, j ≠ i → C.world.Idle j → w.Idle j)
    (hp : match p with
      | none => w.Idle i
      | some p => ∃ w₀, L.Rely i w₀ w ∧
          Safe L i (fun _ _ => True) (fun _ _ => True) p w₀) :
    L.Sound (C.setThread i p w) := by
  refine ⟨hi, ?_, ?_⟩
  · intro j hj
    by_cases hji : j = i
    · subst hji
      simp only [Conf.setThread, Function.update_self] at hj
      rw [hj] at hp
      exact hp
    · simp only [Conf.setThread, Function.update_of_ne hji] at hj
      exact hidle j hji (h.idle j hj)
  · intro j q hj
    by_cases hji : j = i
    · subst hji
      simp only [Conf.setThread, Function.update_self] at hj
      rw [hj] at hp
      exact hp
    · simp only [Conf.setThread, Function.update_of_ne hji] at hj
      obtain ⟨w₀, hr₀, hs⟩ := h.safe j q hj
      exact ⟨w₀, L.trans hr₀ (hr j hji), hs⟩

/-- One step keeps the invariant of a configuration. -/
theorem Sound.step {C C' : Conf M α} (h : L.Sound C) (hh : L.Serves handler)
    {l : Label M Req} (hg : L.guard.Meets C l) (hs : C.step handler l = some C') :
    L.Sound C' := by
  have hwf := L.wf h.inv
  cases l with
  | start i r =>
      simp only [Conf.step] at hs
      split at hs
      · next hnone =>
          cases hs
          refine h.setThread L h.inv (fun j _ => L.refl j _) (fun _ _ hi => hi) ?_
          exact ⟨C.world, L.refl i _, hh r i _ h.inv (h.idle i hnone)⟩
      · cases hs
  | exec i c =>
      simp only [Conf.step] at hs
      split at hs
      · next X s k hp =>
          simp only [Option.map_eq_some_iff] at hs
          obtain ⟨⟨r, w₂⟩, he, rfl⟩ := hs
          simp only [Guard.Meets, hp] at hg
          obtain ⟨w₀, hr, hsafe⟩ := h.safe i _ hp
          obtain ⟨-, hstep⟩ := hsafe C.world hr h.inv
          obtain ⟨h₁, h₂, h₃⟩ := hstep c r w₂ he hg
          refine h.setThread L h₁ h₂ ?_ ⟨w₂, L.refl i _, h₃⟩
          exact fun j hne hi => idle_of_does (World.exec_does he) hne hi
      · cases hs
  | flush i =>
      simp only [Conf.step] at hs
      split at hs
      · next X s k hp =>
          split at hs
          · split at hs
            · next w₂ hf =>
                cases hs
                obtain ⟨h₁, h₂⟩ := L.flush h.inv hg hf
                refine h.setThread L h₁ (fun j _ => h₂ j) ?_ ?_
                · exact fun j hne hi =>
                    idle_of_does (.single (World.flush_does hf)) hne hi
                · obtain ⟨w₀, hr, hsafe⟩ := h.safe i _ hp
                  exact ⟨w₀, L.trans hr (h₂ i), hsafe⟩
            · cases hs
          · cases hs
      · cases hs
  | crash i =>
      simp only [Conf.step] at hs
      split at hs
      · next p hp =>
          cases hs
          obtain ⟨h₁, h₂⟩ := L.crash i h.inv
          refine h.setThread L h₁ h₂ ?_ ?_
          · exact fun j hne hi =>
              idle_of_does (.single (World.does_reset C.world i)) hne hi
          · refine ⟨World.reset_tx_self _ i, ?_⟩
            intro l hl
            rw [World.reset, World.release_holder] at hl
            split at hl
            · cases hl
            · next hne => exact hne hl
      · cases hs
  | ambient a =>
      simp only [Conf.step, Option.some.injEq] at hs
      subst hs
      obtain ⟨h₁, h₂⟩ := L.ambient (M.ambient a C.world.shared) h.inv
      refine ⟨h₁, h.idle, ?_⟩
      intro i p hp
      obtain ⟨w₀, hr, hsafe⟩ := h.safe i p hp
      exact ⟨w₀, L.trans hr (h₂ i), hsafe⟩

/-- The invariant holds wherever a run leads whose steps meet the guard. -/
theorem Sound.run {C C' : Conf M α} (h : L.Sound C) (hh : L.Serves handler)
    {ls : List (Label M Req)} (hg : C.RunMeets L.guard handler ls)
    (hr : C.run handler ls = some C') : L.Sound C' := by
  induction ls generalizing C with
  | nil =>
      cases hr
      exact h
  | cons l ls ih =>
      simp only [Conf.run] at hr
      split at hr
      · next C₁ hs => exact ih (h.step L hh hg.1 hs) (hg.2 C₁ hs) hr
      · cases hr

/-- What every step from a sound configuration does, every step of a run
does. -/
theorem Sound.runSteps {C : Conf M α} (h : L.Sound C) (hh : L.Serves handler)
    {P : Conf M α → Conf M α → Prop}
    (hP : ∀ C C' (l : Label M Req), L.Sound C → L.Sound C' → L.guard.Meets C l →
      C.step handler l = some C' → P C C')
    {ls : List (Label M Req)} (hg : C.RunMeets L.guard handler ls) :
    C.RunSteps P handler ls := by
  induction ls generalizing C with
  | nil => trivial
  | cons l ls ih =>
      intro C' hs
      have h' := h.step L hh hg.1 hs
      exact ⟨hP C C' l h h' hg.1 hs, ih h' (hg.2 C' hs)⟩

/-- A world with no session at work. -/
theorem sound_init {w : World M} (hi : L.Inv w) (hidle : ∀ i, w.Idle i) :
    L.Sound ({ world := w } : Conf M α) :=
  ⟨hi, fun i _ => hidle i, fun _ _ hp => by cases hp⟩

end Logic

end Sessions
