import Adehun.Sessions.Watched

/-!
# Triples of a watched logic

A program that knows more at some points than at others is run from one
predicate of the world and what has been seen to another. A `Triple` says
which, and where an exception leaves the session; it composes as programs do.

Under a discipline the predicates are what a session owns. With an exception
it is where it was, or where losing its transaction leads. A `Floor` is a
ghost that every other one may be given up for: what holds of a session there
holds wherever it was.
-/

namespace Sessions

variable {M : System} {Req α β γ X : Type}

namespace Observer

variable {O : Observer M Req}

/-- Session `i` runs the program safely from where `P` holds, and ends in `Q`
or, with an exception, in `R`. -/
def Triple (L : O.Logic) (i : Nat) (P : World M → O.State → Prop) (p : Prog M β)
    (Q : β → World M → O.State → Prop) (R : World M → O.State → Prop) : Prop :=
  ∀ w o, P w o → Safe L i Q (fun _ => R) p w o

namespace Triple

variable {L : O.Logic} {i : Nat} {P P' R R' : World M → O.State → Prop}
  {Q Q' : β → World M → O.State → Prop} {Q'' : γ → World M → O.State → Prop} {p : Prog M β}

theorem ret {b : β} (h : ∀ w o, P w o → Q b w o) : Triple L i P (.ret b) Q R := h

theorem raise {e : M.Exn} (h : ∀ w o, P w o → R w o) : Triple (β := β) L i P (.raise e) Q R := h

theorem conseq (h : Triple L i P p Q R) (hP : ∀ w o, P' w o → P w o)
    (hQ : ∀ b w o, Q b w o → Q' b w o) (hR : ∀ w o, R w o → R' w o) : Triple L i P' p Q' R' :=
  fun w o ho => safe_mono hQ (fun _ => hR) (h w o (hP w o ho))

theorem bind {f : β → Prog M γ} (h : Triple L i P p Q R) (hf : ∀ b, Triple L i (Q b) (f b) Q'' R) :
    Triple L i P (p.bind f) Q'' R := fun w o ho =>
  safe_bind (safe_mono hf (fun _ _ _ h => h) (h w o ho))

/-- A program whose exceptions are looked at, and what follows. -/
theorem attempt {f : Except M.Exn β → Prog M γ} (h : Triple L i P p Q R')
    (hok : ∀ b, Triple L i (Q b) (f (.ok b)) Q'' R)
    (herror : ∀ e, Triple L i R' (f (.error e)) Q'' R) : Triple L i P (p.attempt.bind f) Q'' R :=
  fun w o ho => safe_bind (safe_attempt (safe_mono hok herror (h w o ho)))

theorem sequential (h : ∀ w o, P w o → R w o) :
    Prog.Sequential fun _ p => Triple L i P p (fun _ => P) R where
  ret _ := ret fun _ _ ho => ho
  raise _ := raise h
  bind hp hf := hp.bind hf

theorem compositional : Prog.Compositional fun _ p => Triple L i R p (fun _ => R) R where
  toSequential := sequential fun _ _ ho => ho
  tryCatch hp hf w o ho := safe_tryCatch (safe_mono (fun _ _ _ h => h) hf (hp w o ho))

end Triple

namespace Discipline

variable {D : O.Discipline} {g g' r : D.Ghost} {i : Nat}

variable (D r) in
/-- A ghost to which a session may fall back from any other. -/
structure Floor : Prop extends D.Still r where
  below : ∀ g i w o, D.Own g i w o → D.Own r i w o

theorem Floor.either (hf : D.Floor r) (w : World M) (o : O.State)
    (h : D.Own g i w o ∨ D.Own g' i w o) : D.Own r i w o :=
  h.elim (hf.below g i w o) (hf.below g' i w o)

section Statements

variable {R : World M → O.State → Prop}

theorem triple_stage {d : Write M}
    (h : ∀ w o, w.WF → D.Good w.db o → D.Own g i w o → D.Own g' i (w.stage i d) o) :
    Triple D.logic i (D.Own g i) (.perform (.stage d)) (fun _ => D.Own g' i) R :=
  fun _ _ ho => safe_mono (fun _ _ _ h => h) (fun _ _ _ h => h.elim) (safe_stage h ho)

theorem triple_rollback :
    Triple D.logic i (D.Own g i) (.perform .rollback) (fun _ => D.Own (D.lost g) i) R :=
  fun _ _ ho => safe_mono (fun _ _ _ h => h) (fun _ _ _ h => h.elim) (safe_rollback ho)

variable (hR : ∀ w o, D.Own g i w o ∨ D.Own (D.lost g) i w o → R w o)

include hR

/-- A quiet statement, by what its answer tells and the guard lets through. -/
theorem triple_see {s : Stmt M X} {Q : X → World M → O.State → Prop} (hq : s.Quiet)
    (h : ∀ w₁ o₁ c x w₂, w₁.WF → D.Good w₁.db o₁ → D.Own g i w₁ o₁ →
      w₁.exec i c s = some (.ok x, w₂) → (D.guard o₁).exec w₁ i s c → D.Own g i w₂ o₁ →
      Q x w₂ (O.look i w₁ s x o₁)) : Triple D.logic i (D.Own g i) (.perform s) Q R :=
  fun _ _ ho => safe_mono (fun _ _ _ h => h) (fun _ => hR) (safe_see hq h ho)

/-- A quiet statement that the session does not mind. -/
theorem triple_query {s : Stmt M X} {Q : X → World M → O.State → Prop} (hq : s.Quiet)
    (hm : ¬ D.Minds g s)
    (h : ∀ w₁ o₁ c x w₂, w₁.WF → D.Good w₁.db o₁ → D.Own g i w₁ o₁ →
      w₁.exec i c s = some (.ok x, w₂) → D.Own g i w₂ (O.look i w₁ s x o₁) →
      Q x w₂ (O.look i w₁ s x o₁)) : Triple D.logic i (D.Own g i) (.perform s) Q R :=
  fun _ _ ho => safe_mono (fun _ _ _ h => h) (fun _ => hR) (safe_query hq hm h ho)

theorem triple_quiet {s : Stmt M X} (hq : s.Quiet) (hm : ¬ D.Minds g s) :
    Triple D.logic i (D.Own g i) (.perform s) (fun _ => D.Own g i) R :=
  triple_query hR hq hm fun _ _ _ _ _ _ _ _ _ h => h

theorem triple_commit (hc : D.Commits g) :
    Triple D.logic i (D.Own g i) (.perform .commit) (fun _ => D.Own (D.done g) i) R :=
  fun _ _ ho => safe_mono (fun _ _ _ h => h) (fun _ => hR) (safe_commit hc ho)

theorem triple_upsert {waits : List M.Index} {f : Db M → List (Write M) × X}
    (h : ∀ db, ∀ d ∈ (f db).1, ∀ i w o, w.WF → D.Good w.db o → D.Own g i w o →
      w.free i (d.locks (w.view i)) = true → d.refusal (w.view i) = none →
      D.Own g i (w.put i d) o) :
    Triple D.logic i (D.Own g i) (.perform (.upsert waits f)) (fun _ => D.Own g i) R := by
  intro w o ho
  refine safe_mono (fun _ _ _ h => h) (fun _ => hR)
    (@safe_upsert M Req X O D i w o g waits f (fun _ => g) ?_ ho)
  intro w₁ o₁ _ hw hgood ho₁ _ _ w₂ hwr
  have hown := (D.plain o₁).own_writeAll (g := some g) hw hgood
    (fun d hd i w hw hgood ho hfree hr => h _ d hd i w o₁ hw hgood ho hfree hr) ho₁ hwr
  exact hown.resolve_right (fun ⟨_, e, he⟩ => by cases he)

end Statements

end Discipline

end Observer

end Sessions
