import Adehun.Sessions.Triple

/-!
# Statements that need a licence

A discipline speaks of what sessions write. What they do to the world outside
is in no table, and a statement that acts on it cannot be undone; it must not
be executed unless something that has been seen allows it. A `Licence` says
which statements these are and what allows them, and `Kept` is what holds of
them as long as nobody goes without. Everything a discipline proves of the
other statements is proved for the licence as well.
-/

namespace Sessions

variable {M : System} {Req α β X : Type}

namespace Observer

variable {O : Observer M Req}

/-- Which statements need a licence, who has one, and what is kept by it. The
guard may be another than that of the discipline, where what is kept tells
that it is no weaker. -/
structure Licence (D : O.Discipline) where
  Needs : {X : Type} → Stmt M X → Prop
  Licensed : {X : Type} → Nat → Stmt M X → Db M → O.State → Prop
  Kept : Db M → O.State → Prop
  guard : O.State → Guard M
  guard_exec : ∀ {w : World M} {o i c} {X : Type} {s : Stmt M X}, D.Good w.db o → Kept w.db o →
    (guard o).exec w i s c → (D.guard o).exec w i s c
  guard_flush : ∀ {w : World M} {o i}, (guard o).flush w i → (D.guard o).flush w i
  kept_start : ∀ {db o i} (r : Req), Kept db o → Kept db (O.start i r o)
  kept_crash : ∀ {db o} (i : Nat), Kept db o → Kept db (O.crash i o)
  kept_look : ∀ {w : World M} {o i} {X : Type} {s : Stmt M X} {x : X}, s.Quiet → D.Good w.db o →
    (Needs s → Licensed i s w.db o) → Kept w.db o → Kept w.db (O.look i w s x o)
  kept_commit : ∀ {g i o} {w : World M} {c : Choice M}, D.Commits g → w.WF → D.Good w.db o →
    (w.tx i).dirty = [] → (D.guard o).exec w i Stmt.commit c → D.Own g i w o → Kept w.db o →
    Kept (w.view i) (O.commit i (w.tx i).writes w.db (w.view i) o)

namespace Licence

variable {D : O.Discipline} (L : Licence D)

/-- The logic of a discipline with a licence. -/
def logic : O.Logic where
  Inv w o := D.logic.Inv w o ∧ L.Kept w.db o
  guard := L.guard
  Must w i s o := D.logic.Must w i s o ∧ (L.Needs s → L.Licensed i s w.db o)
  Rely := D.logic.Rely
  refl := D.logic.refl
  trans := D.logic.trans
  wf h := h.1.1
  start r hi hidle := by
    obtain ⟨h₁, h₂⟩ := D.logic.start r hi.1 hidle
    exact ⟨⟨h₁, L.kept_start r hi.2⟩, h₂⟩
  flush := by
    intro w o i w' hi hg hf
    obtain ⟨h₁, h₂⟩ := D.logic.flush hi.1 (L.guard_flush hg) hf
    have hdb : w'.db = w.db := by
      obtain ⟨d, ds, -, -, -, hw'⟩ := World.flush_ok hf
      rw [hw']
      rfl
    refine ⟨⟨h₁, ?_⟩, h₂⟩
    rw [hdb]
    exact hi.2
  crash i hi := by
    obtain ⟨h₁, h₂⟩ := D.logic.crash i hi.1
    exact ⟨⟨h₁, L.kept_crash i hi.2⟩, h₂⟩
  ambient m hi := by
    obtain ⟨h₁, h₂⟩ := D.logic.ambient m hi.1
    exact ⟨⟨h₁, hi.2⟩, h₂⟩

variable {L}

/-- What is kept stays so, whatever statement is executed. -/
theorem kept_exec {w w' : World M} {o : O.State} {i : Nat} {c : Choice M} {s : Stmt M X}
    {r : Except M.Exn X} (hi : L.logic.Inv w o) (hm : L.logic.Must w i s o)
    (he : w.exec i c s = some (r, w')) (hg : (D.guard o).exec w i s c) :
    L.Kept w'.db (O.exec i w w' s r o) := by
  have hsame : w'.db = w.db → O.exec i w w' s r o = o → L.Kept w'.db (O.exec i w w' s r o) := by
    intro hdb ho
    rw [hdb, ho]
    exact hi.2
  cases r with
  | error e =>
      refine hsame ?_ Discipline.exec_eq_of_error
      rcases World.exec_error he with rfl | ⟨hdb, -⟩
      · rfl
      · exact hdb
  | ok x =>
      by_cases hq : s.Quiet
      · rw [World.exec_db_of_quiet hq he, Discipline.exec_of_quiet hq]
        exact L.kept_look hq hi.1.2 hm.2 hi.2
      · cases s with
        | stage d => cases he; exact hsame rfl rfl
        | rollback => cases he; exact hsame rfl rfl
        | upsert waits f =>
            refine hsame ?_ rfl
            rcases World.exec_db he with hdb | ⟨-, -, hc⟩
            · exact hdb
            · exact hc.elim
        | commit =>
            obtain ⟨g, hcommits, hown⟩ := hm.1
            rcases World.sql_cases he with ⟨e, he', -⟩ | ⟨-, hd, hb⟩
            · cases he'
            · cases hb
              exact L.kept_commit hcommits hi.1.1 hi.1.2 (hd rfl) hg hown hi.2
        | _ => exact absurd trivial hq

/-- A statement that the discipline has a triple for, and whose licence the
session has if it needs one. -/
theorem triple_licensed {g : D.Ghost} {i : Nat} {s : Stmt M X} {Q : X → World M → O.State → Prop}
    {R : World M → O.State → Prop} (h : Triple D.logic i (D.Own g i) (.perform s) Q R)
    (hl : ∀ w o, L.logic.Inv w o → D.Own g i w o → L.Needs s → L.Licensed i s w.db o) :
    Triple L.logic i (D.Own g i) (.perform s) Q R := by
  intro w o ho w₁ o₁ hr hi
  obtain ⟨hm, hstep⟩ := h w o ho w₁ o₁ hr hi.1
  have hm' : L.logic.Must w₁ i s o₁ := ⟨hm, hl w₁ o₁ hi (hr.2 g ho)⟩
  refine ⟨hm', ?_⟩
  intro c r w₂ he hg
  have hguard := L.guard_exec hi.1.2 hi.2 hg
  obtain ⟨h₁, h₂, h₃⟩ := hstep c r w₂ he hguard
  refine ⟨⟨h₁, kept_exec hi hm' he hguard⟩, h₂, ?_⟩
  cases r with
  | ok x => exact h₃
  | error e => exact h₃

/-- A statement that needs no licence. -/
theorem triple_plain {g : D.Ghost} {i : Nat} {s : Stmt M X} {Q : X → World M → O.State → Prop}
    {R : World M → O.State → Prop} (hs : ¬ L.Needs s)
    (h : Triple D.logic i (D.Own g i) (.perform s) Q R) :
    Triple L.logic i (D.Own g i) (.perform s) Q R :=
  triple_licensed h fun _ _ _ _ hn => absurd hn hs

variable (L) in
/-- The program starts and ends in the ghost, however it ends, and has the
licences it needs. -/
def Keeps (g : D.Ghost) (p : Prog M β) : Prop :=
  ∀ i, Triple L.logic i (D.Own g i) p (fun _ => D.Own g i) (D.Own g i)

theorem keeps_compositional {g : D.Ghost} : Prog.Compositional fun _ p => L.Keeps (M := M) g p where
  ret b _ := Triple.compositional.ret b
  raise e _ := Triple.compositional.raise e
  bind hp hf i := Triple.compositional.bind (hp i) fun b => hf b i
  tryCatch hp hf i := Triple.compositional.tryCatch (hp i) fun e => hf e i

/-- What is good and kept holds in every state of every run whose requests
have their licences, and whose steps meet the guard. -/
theorem always_run {handler : Req → Prog M α} (h : ∀ r, L.Keeps (D.rest r) (handler r))
    {P : Conf M α → O.State → Prop}
    (hP : ∀ C o, C.world.WF → D.Good C.world.db o → L.Kept C.world.db o → P C o)
    {w : World M} {o : O.State} (hi : L.logic.Inv w o) (hidle : ∀ i, w.Idle i)
    {ls : List (Label M Req)} (hg : O.RunMeets L.guard handler { world := w } o ls) :
    O.Always P handler { world := w } o ls := by
  have hserves : L.logic.Serves (fun _ _ _ _ => True) handler := by
    intro r i w o hi hidle
    exact safe_mono (fun _ _ _ _ => trivial) (fun _ _ _ _ => trivial)
      (h r i w _ (D.own_init r hi.1.2 hidle.1))
  refine (Logic.sound_init hi hidle).always hserves ?_ hg
  exact fun C o hs => hP C o hs.inv.1.1 hs.inv.1.2 hs.inv.2

end Licence

end Observer

end Sessions
