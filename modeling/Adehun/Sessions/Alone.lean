import Adehun.Sessions.Solo
import Adehun.Sessions.Discipline

/-!
# A session alone, on the machine

What the machine does when one session works and no statement fails by
itself is what `Prog.solo` says, for some chance. Two things make it so. The
objects in hand cannot get out of date: each of them is the row as it will be
once everything staged is sent. And whatever is sent, sooner or later, is
sent in the order it was staged, so it leads to the same tables.
-/

namespace Sessions

variable {M : System} {α X : Type} {i : Nat}

/-- Session `i` runs a program from one world to another, with nobody else
at work, and ends it like this. -/
inductive Alone (i : Nat) : World M → Prog M α → World M → Except M.Exn α → Prop
  | ret {w : World M} (a : α) : Alone i w (.ret a) w (.ok a)
  | raise {w : World M} (e : M.Exn) : Alone i w (.raise e) w (.error e)
  | exec {w w₁ w' : World M} {c : Choice M} {X : Type} {s : Stmt M X}
      {k : Except M.Exn X → Prog M α} {x : Except M.Exn X} {r : Except M.Exn α}
      (fine : c.fail = false) (step : w.exec i c s = some (x, w₁))
      (rest : Alone i w₁ (k x) w' r) : Alone i w (.call s k) w' r
  | flush {w w₁ w' : World M} {p : Prog M α} {r : Except M.Exn α}
      (step : w.flush i = some (.ok (), w₁)) (rest : Alone i w₁ p w' r) : Alone i w p w' r
  | ambient {w w' : World M} {p : Prog M α} {r : Except M.Exn α} (a : M.Ambient)
      (rest : Alone i { w with shared := M.ambient a w.shared } p w' r) : Alone i w p w' r

/-- A step of session `i`, which does not fail by itself, or one of the shared
store. -/
def Label.IsAlone {Req : Type} (i : Nat) : Label M Req → Prop
  | .exec j c => j = i ∧ c.fail = false
  | .flush j => j = i
  | .ambient _ => True
  | _ => False

/-- How a program that has ended has ended. -/
def Prog.outcome : Prog M α → Option (Except M.Exn α)
  | .ret a => some (.ok a)
  | .raise e => some (.error e)
  | .call _ _ => none

/-- A run in which only one session works. -/
theorem alone_of_run {Req : Type} {handler : Req → Prog M α} {C C' : Conf M α}
    {ls : List (Label M Req)} {p q : Prog M α} {r : Except M.Exn α}
    (hp : C.threads i = some p) (hl : ∀ l ∈ ls, l.IsAlone i)
    (hr : C.run handler ls = some C') (hq : C'.threads i = some q) (hend : q.outcome = some r) :
    Alone i C.world p C'.world r := by
  induction ls generalizing C p with
  | nil =>
      cases hr
      obtain rfl : p = q := Option.some.inj (hp.symm.trans hq)
      cases p with
      | ret a =>
          cases hend
          exact .ret a
      | raise e =>
          cases hend
          exact .raise e
      | call s k => cases hend
  | cons l ls ih =>
      have hl₀ := hl l List.mem_cons_self
      have hls : ∀ l ∈ ls, l.IsAlone i := fun l' hl' => hl l' (List.mem_cons_of_mem l hl')
      simp only [Conf.run] at hr
      split at hr
      · next C₁ hs =>
          cases l with
          | start j r => exact hl₀.elim
          | crash j => exact hl₀.elim
          | exec j c =>
              obtain ⟨rfl, hfine⟩ := hl₀
              simp only [Conf.step, hp] at hs
              split at hs
              · next X s k hcall =>
                  cases hcall
                  obtain ⟨⟨x, w₁⟩, he, rfl⟩ := Option.map_eq_some_iff.mp hs
                  exact .exec hfine he (ih (C := C.setThread j (some (k x)) w₁)
                    (by simp [Conf.setThread]) hls hr)
              · cases hs
          | flush j =>
              obtain rfl : j = i := hl₀
              simp only [Conf.step, hp] at hs
              split at hs
              · next X s k hcall =>
                  cases hcall
                  split at hs
                  · split at hs
                    · next w₁ hf =>
                        cases hs
                        exact .flush hf (ih (C := C.setThread j (some (.call s k)) w₁)
                          (by simp [Conf.setThread]) hls hr)
                    · cases hs
                  · cases hs
              · cases hs
          | ambient a =>
              simp only [Conf.step, Option.some.injEq] at hs
              subst hs
              exact .ambient a (ih (C := { C with
                world := { C.world with shared := M.ambient a C.world.shared } }) hp hls hr)
      · cases hr

/-- Chance, with what a statement takes of it in front. -/
def Chance.before (c : Choice M) (evs : List M.Ambient) (χ : Chance M) :
    {X : Type} → Stmt M X → Chance M
  | _, .fresh => { χ with ids := fun
      | 0 => c.value
      | n + 1 => χ.ids n }
  | _, .await _ =>
      match c.reply with
      | some y => { χ with replies := fun
          | 0 => y
          | n + 1 => χ.replies n }
      | none => χ
  | _, .shared _ | _, .now => { χ with weather := fun
      | 0 => evs
      | n + 1 => χ.weather n }
  | _, _ => χ

/-- What has happened to the shared store and no statement has seen. -/
def Stmt.unseen (evs : List M.Ambient) : {X : Type} → Stmt M X → List M.Ambient
  | _, .shared _ | _, .now => []
  | _, _ => evs

namespace World

/-- Writes of one statement, as writes sent one after the other. -/
theorem writeAll_sends {w w' : World M} {ds : List (Write M)} {r : Except M.Exn Unit}
    (h : w.writeAll i ds = some (r, w')) :
    (∃ e, r = .error e ∧ (w.view i).sendAll ds = .error e) ∨
    (r = .ok () ∧ (w.view i).sendAll ds = .ok (w'.view i) ∧ w'.db = w.db ∧
      w'.tx i = { w.tx i with writes := (w.tx i).writes ++ ds } ∧ w'.shared = w.shared) := by
  induction ds generalizing w with
  | nil =>
      cases h
      simp [Db.sendAll]
  | cons d ds ih =>
      unfold writeAll at h
      split at h
      · next w₁ hw =>
          obtain ⟨-, ⟨e, -, he, -⟩ | ⟨hr, -, rfl⟩⟩ := write_cases hw
          · cases he
          · have hput : (w.put i d).view i = d.apply (w.view i) := by
              simp only [view, put_db, put_tx_self, Db.applyAll_concat]
            have hrest := ih h
            rw [hput] at hrest
            rw [Db.sendAll_cons hr]
            rcases hrest with hbad | ⟨h₁, h₂, h₃, h₄, h₅⟩
            · exact .inl hbad
            · refine .inr ⟨h₁, h₂, h₃, ?_, h₅⟩
              rw [h₄, put_tx_self]
              simp
      · next hno =>
          obtain ⟨-, ⟨e, href, he, -⟩ | ⟨-, he, -⟩⟩ := write_cases h
          · cases he
            simp only [Db.sendAll, href]
            exact .inl ⟨e, rfl, rfl⟩
          · cases he
            exact absurd h (hno _)

end World

/-- New rows leave the others. -/
theorem Db.lookup_sendAll_inserts {db db' : Db M} {ds : List (Write M)}
    (hds : ds.any (!·.isInsert) = false) (h : db.sendAll ds = .ok db') {k : Key M}
    {o : M.Row k.table} (ho : db.lookup k = some o) : db'.lookup k = some o := by
  induction ds generalizing db with
  | nil =>
      cases h
      exact ho
  | cons d ds ih =>
      rw [List.any_cons, Bool.or_eq_false_iff] at hds
      rw [Db.sendAll] at h
      split at h
      · cases h
      · refine ih hds.2 h ?_
        cases d with
        | insert t r =>
            by_cases hk : (⟨t, M.id r⟩ : Key M) = k
            · subst hk
              rw [Write.lookup_insert, ho]
              rfl
            · rw [Write.lookup_apply_of_ne _ hk]
              exact ho
        | update t id f => cases hds.1
        | delete t id => cases hds.1

namespace Solo

/-- The world with session `i` at work is where the function is, but for
what has happened to the shared store since. -/
structure Stands (i : Nat) (w : World M) (evs : List M.Ambient) (σ : Solo M) : Prop where
  db : w.db = σ.db
  sound : (w.tx i).aborted = false ∧ σ.aborted = false
  sends : (w.view i).sendAll (w.tx i).dirty = σ.view.sendAll σ.dirty
  level : σ.early = false → σ.dirty = [] → (w.tx i).dirty = [] ∧ w.view i = σ.view
  objects : ∀ v, σ.view.sendAll σ.dirty = .ok v → ∀ k o, (w.tx i).objects k = some o →
    v.lookup k = some o
  shared : evs.foldl (fun m a => M.ambient a m) σ.shared = w.shared

namespace Stands

variable {w w₁ : World M} {evs : List M.Ambient} {σ : Solo M} {c : Choice M}

/-- A statement sent to the database: nothing is refused before it, or the
function is rough. -/
theorem sql {body : Option (Except M.Exn X × World M)} {f : Solo M → Except M.Exn X × Solo M}
    {x : Except M.Exn X} {P : Except M.Exn X × Solo M → Prop} (h : Stands i w evs σ)
    (hfine : c.fail = false) (he : w.sql i c true body = some (x, w₁))
    (hrough : (σ.sql f).2.rough = false)
    (hbody : ∀ σ₁, σ₁ = { σ with view := w.view i, dirty := [], early := false } →
      Stands i w evs σ₁ → (w.tx i).dirty = [] → body = some (x, w₁) → (f σ₁).2.rough = false →
      P (f σ₁)) : P (σ.sql f) := by
  have hsends := h.sends
  have hopen : ¬ σ.aborted = true := by simp [h.sound.2]
  unfold Solo.sql at hrough ⊢
  rw [if_neg hopen] at hrough ⊢
  cases hd : (w.tx i).dirty with
  | nil =>
      rw [hd, Db.sendAll] at hsends
      rw [← hsends] at hrough ⊢
      rw [World.sql_of_clean h.sound.1 hfine hd] at he
      refine hbody _ rfl ⟨h.db, ⟨h.sound.1, h.sound.2⟩, ?_, ?_, ?_, h.shared⟩ hd he hrough
      · rw [hd]
      · exact fun _ _ => ⟨hd, rfl⟩
      · intro v hv k o ho
        exact h.objects v (hsends.symm.trans hv) k o ho
  | cons d ds =>
      -- the write in front is refused, and here as well
      have hauto : ((w.tx i).dirty.isEmpty) = false := by rw [hd]; rfl
      unfold World.sql at he
      rw [h.sound.1, hfine, hauto] at he
      simp only [Bool.false_eq_true, if_false, Bool.not_false, Bool.and_self, if_true] at he
      split at he
      · next e w₂ hflush =>
          unfold World.flush at hflush
          rw [hd] at hflush
          simp only at hflush
          obtain ⟨-, ⟨e', href, -, -⟩ | ⟨-, hok, -⟩⟩ := World.write_cases hflush
          · have hview : (w.setTx i { w.tx i with dirty := ds }).view i = w.view i := by
              simp [World.view]
            rw [hview] at href
            rw [hd, Db.sendAll, href] at hsends
            rw [← hsends] at hrough
            cases hrough
          · cases hok
      · cases he

/-- What a session asks for is what it would find. -/
theorem answer (h : Stands i w evs σ) (hd : (w.tx i).dirty = []) (alive : Bool) (k : Key M) :
    w.answer i alive k = (w.view i).lookup k := by
  have hsends := h.sends
  rw [hd, Db.sendAll] at hsends
  unfold World.answer
  split
  · next o ho =>
      split
      · exact (h.objects _ hsends.symm k o ho).symm
      · rfl
  · rfl

/-- Objects that a query has found are the rows. -/
theorem congr {w' : World M} (h : Stands i w evs σ) (hd : (w.tx i).dirty = [])
    (hdb : w'.db = w.db) (haborted : (w'.tx i).aborted = (w.tx i).aborted)
    (hwrites : (w'.tx i).writes = (w.tx i).writes) (hdirty : (w'.tx i).dirty = (w.tx i).dirty)
    (hshared : w'.shared = w.shared)
    (hobjects : ∀ k o, (w'.tx i).objects k = some o →
      (w.tx i).objects k = some o ∨ (w.view i).lookup k = some o) : Stands i w' evs σ := by
  have hview := World.view_congr hdb hwrites
  have hsends := h.sends
  rw [hd, Db.sendAll] at hsends
  refine ⟨hdb.trans h.db, ⟨haborted.trans h.sound.1, h.sound.2⟩, ?_, ?_, ?_, ?_⟩
  · rw [hview, hdirty]
    exact h.sends
  · rw [hview, hdirty]
    exact h.level
  · intro v hv k o ho
    rcases hobjects k o ho with ho | ho
    · exact h.objects v hv k o ho
    · rw [← hsends] at hv
      cases hv
      exact ho
  · rw [hshared]
    exact h.shared

/-- A transaction ends with its objects, where the function is tidy. -/
theorem fresh {w' : World M} {σ' : Solo M} (hdb : w'.db = σ'.db) (htx : w'.tx i = {})
    (hview : σ'.view = σ'.db) (hdirty : σ'.dirty = []) (haborted : σ'.aborted = false)
    (hshared : evs.foldl (fun m a => M.ambient a m) σ'.shared = w'.shared) :
    Stands i w' evs σ' := by
  have hsame : w'.view i = σ'.view := by
    rw [World.view, htx, hview, hdb]
    rfl
  refine ⟨hdb, ⟨by rw [htx], haborted⟩, ?_, fun _ _ => ⟨by rw [htx], hsame⟩, ?_, hshared⟩
  · rw [hsame, htx, hdirty]
  · intro v _ k o ho
    rw [htx] at ho
    cases ho

theorem early {e : Bool} (h : Stands i w evs σ) (hd : (w.tx i).dirty = [])
    (hview : w.view i = σ.view) : Stands i w evs { σ with early := e } :=
  ⟨h.db, h.sound, h.sends, fun _ _ => ⟨hd, hview⟩, h.objects, h.shared⟩

/-- An object in hand is answered at once; what is staged would go through. -/
theorem held {k : Key M} {o : M.Row k.table} {held : Bool} (h : Stands i w evs σ)
    (ho : (w.tx i).objects k = some o) (hrough : (σ.exec (.get held k)).2.rough = false) :
    (σ.exec (.get held k)).1 = .ok (some o) ∧ (σ.exec (.get held k)).2.chance = σ.chance ∧
      Stands i w evs (σ.exec (.get held k)).2 := by
  have hopen : ¬ σ.aborted = true := by simp [h.sound.2]
  simp only [Solo.exec, Solo.sql, if_neg hopen] at hrough ⊢
  cases hsend : σ.view.sendAll σ.dirty with
  | error e =>
      rw [hsend] at hrough
      cases hrough
  | ok v =>
      simp only
      have hobj := h.objects v hsend k o ho
      refine ⟨by rw [hobj], ?_, h.db, ⟨h.sound.1, h.sound.2⟩, h.sends.trans hsend, ?_, ?_, h.shared⟩
      · trivial
      · intro hearly _
        simp only [Bool.or_eq_false_iff, Bool.not_eq_false', List.isEmpty_iff] at hearly
        obtain ⟨hd, hview⟩ := h.level hearly.1 hearly.2
        rw [hearly.2, Db.sendAll] at hsend
        cases hsend
        exact ⟨hd, hview⟩
      · intro v' hv'
        cases hv'
        exact h.objects v hsend

theorem stage (h : Stands i w evs σ) (d : Write M) :
    Stands i (w.stage i d) evs { σ with dirty := σ.dirty ++ [d] } := by
  have hview : (w.stage i d).view i = w.view i :=
    World.view_congr (World.stage_db w i d) (World.stage_writes w i d)
  refine ⟨h.db, ⟨?_, h.sound.2⟩, ?_, ?_, ?_, h.shared⟩
  · simpa [World.stage] using h.sound.1
  · rw [hview, World.stage_dirty, Db.sendAll_append, Db.sendAll_append, h.sends]
  · intro _ hnil
    simp at hnil
  · intro v hv k o ho
    obtain ⟨v₀, hv₀, hr, rfl⟩ := Db.sendAll_concat hv
    have hold := h.objects v₀ hv₀ k
    by_cases hk : d.key = k
    · cases d with
      | insert t r =>
          subst hk
          simp only [World.stage, World.setTx_tx_self, Write.key_insert,
            Function.update_self] at ho
          cases ho
          exact Write.lookup_insert_self (Write.insert_free hr).1
      | update t id f =>
          subst hk
          simp only [World.stage, World.setTx_tx_self, Write.key_update,
            Function.update_self] at ho
          obtain ⟨r, hr', rfl⟩ := Option.map_eq_some_iff.mp ho
          have hrow := hold r hr'
          show ((Write.update t id f).apply v₀).lookup ⟨t, id⟩ = some (f.run r)
          rw [Write.lookup_update, show v₀.lookup ⟨t, id⟩ = some r from hrow]
          simp
      | delete t id =>
          subst hk
          simp [World.stage] at ho
    · rw [World.stage_objects_of_ne w i hk] at ho
      rw [Write.lookup_apply_of_ne _ hk]
      exact hold o ho

/-- One statement. -/
theorem exec {s : Stmt M X} {x : Except M.Exn X} {χ : Chance M} (h : Stands i w evs σ)
    (hfine : c.fail = false) (he : w.exec i c s = some (x, w₁))
    (hch : σ.chance = χ.before c evs s) (hrough : (σ.exec s).2.rough = false) :
    (σ.exec s).1 = x ∧ (σ.exec s).2.chance = χ ∧
      Stands i w₁ (s.unseen evs) (σ.exec s).2 := by
  cases s with
  | select q =>
      refine h.sql (P := fun y => y.1 = x ∧ y.2.chance = χ ∧ Stands i w₁ evs y.2)
        hfine he hrough ?_
      rintro σ₁ rfl h₁ - hb -
      cases hb
      exact ⟨rfl, hch, h₁⟩
  | load t q =>
      refine h.sql (P := fun y => y.1 = x ∧ y.2.chance = χ ∧ Stands i w₁ evs y.2)
        hfine he hrough ?_
      rintro σ₁ rfl h₁ hd hb -
      cases hb
      obtain ⟨hwrites, hdirty, haborted, hshared⟩ := World.rememberAll_tx w i c.alive
        ((q (w.view i)).map (Key.mk t))
      refine ⟨?_, hch, h₁.congr hd (World.rememberAll_fields w i _ _).1 haborted hwrites hdirty
        hshared fun k o ho => World.rememberAll_objects _ _ ho⟩
      simp only [h₁.answer hd]
  | get held k =>
      rw [World.exec_get] at he
      split at he
      · next o ho _ =>
          cases he
          obtain ⟨h₁, h₂, h₃⟩ := h.held ho hrough
          exact ⟨h₁, h₂.trans hch, h₃⟩
      · refine h.sql (P := fun y => y.1 = x ∧ y.2.chance = χ ∧ Stands i w₁ evs y.2)
          hfine he hrough ?_
        rintro σ₁ rfl h₁ hd hb -
        cases hb
        refine ⟨rfl, hch, ?_⟩
        have hlook := h₁.early (e := σ.early || !σ.dirty.isEmpty) hd rfl
        refine hlook.congr hd rfl (by simp [World.remember]) (by simp [World.remember])
          (by simp [World.remember]) rfl ?_
        intro k' o ho
        by_cases hk : k = k'
        · subst hk
          simp only [World.remember, World.setTx_tx_self, Function.update_self] at ho
          exact Or.inr ho
        · simp only [World.remember, World.setTx_tx_self] at ho
          rw [Function.update_of_ne (Ne.symm hk)] at ho
          exact Or.inl ho
  | lock t q =>
      refine h.sql (P := fun y => y.1 = x ∧ y.2.chance = χ ∧ Stands i w₁ evs y.2)
        hfine he hrough ?_
      rintro σ₁ rfl h₁ hd hb -
      split at hb
      · next hq =>
          cases hb
          exact ⟨by simp [hq], hch, h₁⟩
      · next id hq =>
          split at hb
          · cases hb
            refine ⟨by simp [hq, h₁.answer hd], hch, ?_⟩
            refine h₁.congr hd rfl (by simp [World.remember]) (by simp [World.remember])
              (by simp [World.remember]) rfl ?_
            intro k' o ho
            by_cases hk : (⟨t, id⟩ : Key M) = k'
            · subst hk
              simp only [World.remember, World.setTx_tx_self, Function.update_self] at ho
              rw [h₁.answer hd] at ho
              exact Or.inr ho
            · simp only [World.remember, World.setTx_tx_self] at ho
              rw [Function.update_of_ne (Ne.symm hk)] at ho
              exact Or.inl ho
          · cases hb
  | refresh k =>
      refine h.sql (P := fun y => y.1 = x ∧ y.2.chance = χ ∧ Stands i w₁ evs y.2)
        hfine he hrough ?_
      rintro σ₁ rfl h₁ hd hb -
      split at hb
      · next hlook =>
          cases hb
          simp only [hlook]
          exact ⟨trivial, hch, h₁⟩
      · next o hlook =>
          cases hb
          simp only [hlook]
          refine ⟨trivial, hch, ?_⟩
          refine h₁.congr hd rfl (by simp [World.remember]) (by simp [World.remember])
            (by simp [World.remember]) rfl ?_
          intro k' o' ho
          by_cases hk : k = k'
          · subst hk
            simp only [World.remember, World.setTx_tx_self, Function.update_self] at ho
            cases ho
            exact Or.inr hlook
          · simp only [World.remember, World.setTx_tx_self] at ho
            rw [Function.update_of_ne (Ne.symm hk)] at ho
            exact Or.inl ho
  | stage d =>
      cases he
      exact ⟨rfl, hch, h.stage d⟩
  | flush =>
      refine h.sql (P := fun y => y.1 = x ∧ y.2.chance = χ ∧ Stands i w₁ evs y.2)
        hfine he hrough ?_
      rintro σ₁ rfl h₁ - hb -
      cases hb
      exact ⟨rfl, hch, h₁⟩
  | upsert waits f =>
      have hopen : ¬ σ.aborted = true := by simp [h.sound.2]
      simp only [Solo.exec, if_neg hopen] at hrough ⊢
      cases hsend : σ.view.sendAll (f σ.view).1 with
      | error e =>
          rw [hsend] at hrough
          cases hrough
      | ok v =>
          rw [hsend] at hrough
          simp only [Bool.or_eq_false_iff, Bool.not_eq_false', List.isEmpty_iff] at hrough
          obtain ⟨⟨⟨-, hearly⟩, hdirty⟩, hinserts⟩ := hrough
          obtain ⟨hd, hview⟩ := h.level hearly hdirty
          have hb : w.sql i c false _ = some (x, w₁) := he
          rw [World.sql_of_clean h.sound.1 hfine hd] at hb
          split at hb
          · obtain ⟨⟨r, w₂⟩, hwr, hr⟩ := Option.map_eq_some_iff.mp hb
            rw [← hview] at hsend
            rcases World.writeAll_sends hwr with ⟨e, -, hbad⟩ | ⟨rfl, hv, hdb, htx, hshared⟩
            · rw [hsend] at hbad
              cases hbad
            · cases hr
              rw [hsend] at hv
              simp only [Except.ok.injEq] at hv
              rw [hview]
              refine ⟨rfl, hch, hdb.trans h.db, ⟨by rw [htx]; exact h.sound.1, h.sound.2⟩, ?_, ?_,
                ?_, by rw [hshared]; exact h.shared⟩
              · show (w₁.view i).sendAll (w₁.tx i).dirty = v.sendAll σ.dirty
                rw [htx, hd, hdirty, ← hv]
              · intro _ _
                rw [htx]
                exact ⟨hd, hv.symm⟩
              · intro v' hv' k o ho
                have hv₁ : v.sendAll σ.dirty = .ok v' := hv'
                rw [hdirty] at hv₁
                cases hv₁
                rw [htx] at ho
                rw [hview] at hsend
                refine Db.lookup_sendAll_inserts hinserts hsend ?_
                refine h.objects σ.view ?_ k o ho
                rw [hdirty]
                rfl
          · cases hb
  | commit =>
      refine h.sql (P := fun y => y.1 = x ∧ y.2.chance = χ ∧ Stands i w₁ evs y.2)
        hfine he hrough ?_
      rintro σ₁ rfl h₁ - hb -
      cases hb
      exact ⟨rfl, hch, .fresh rfl (World.commit_tx_self w i) rfl rfl h₁.sound.2 h.shared⟩
  | rollback =>
      cases he
      exact ⟨rfl, hch, .fresh h.db (World.reset_tx_self w i) rfl rfl rfl h.shared⟩
  | await q =>
      obtain ⟨y, hy, hx⟩ := Option.map_eq_some_iff.mp he
      cases hx
      simp only [Solo.exec, hch, Chance.before, hy]
      exact ⟨trivial, trivial, h.db, h.sound, h.sends, h.level, h.objects, h.shared⟩
  | shared f =>
      rw [World.exec_shared, hfine] at he
      simp only [Bool.false_eq_true, if_false, Option.some.injEq, Prod.mk.injEq] at he
      obtain ⟨rfl, rfl⟩ := he
      have hshared : σ.weathered.shared = w.shared := by
        simp only [Solo.weathered, hch, Chance.before]
        exact h.shared
      refine ⟨by simp only [Solo.exec, hshared], by simp only [Solo.exec, Solo.weathered, hch, Chance.before],
        h.db, h.sound, h.sends, h.level, h.objects, ?_⟩
      simp only [Solo.exec, hshared]
      rfl
  | fresh =>
      cases he
      simp only [Solo.exec, hch, Chance.before]
      exact ⟨trivial, trivial, h.db, h.sound, h.sends, h.level, h.objects, h.shared⟩
  | now =>
      cases he
      have hshared : σ.weathered.shared = w.shared := by
        simp only [Solo.weathered, hch, Chance.before]
        exact h.shared
      refine ⟨by simp only [Solo.exec, hshared], by simp only [Solo.exec, Solo.weathered, hch, Chance.before],
        h.db, h.sound, h.sends, h.level, h.objects, ?_⟩
      exact hshared

/-- Something sent in between. -/
theorem flush (h : Stands i w evs σ) (he : w.flush i = some (.ok (), w₁)) :
    Stands i w₁ evs σ := by
  obtain ⟨d, ds, hd, -, hr, rfl⟩ := World.flush_ok he
  have hview : ((w.put i d).setTx i { w.tx i with
      writes := (w.tx i).writes ++ [d], dirty := ds }).view i = d.apply (w.view i) := by
    simp [World.view, Db.applyAll_concat]
  refine ⟨h.db, ⟨by simpa using h.sound.1, h.sound.2⟩, ?_, ?_, ?_, h.shared⟩
  · have hsends := h.sends
    rw [hd, Db.sendAll_cons hr] at hsends
    rw [hview, World.setTx_tx_self]
    exact hsends
  · intro hearly hdirty
    have hnil := (h.level hearly hdirty).1
    rw [hd] at hnil
    cases hnil
  · intro v hv k o ho
    rw [World.setTx_tx_self] at ho
    exact h.objects v hv k o ho

end Stands

/-- What is rough stays rough. -/
theorem rough_exec (s : Stmt M X) {σ : Solo M} (h : σ.rough = true) : (σ.exec s).2.rough = true := by
  have hsql : ∀ f : Solo M → Except M.Exn X × Solo M,
      (∀ σ₁ : Solo M, σ₁.rough = true → (f σ₁).2.rough = true) → (σ.sql f).2.rough = true := by
    intro f hf
    unfold Solo.sql
    split
    · exact h
    · split
      · rfl
      · exact hf _ h
  cases s with
  | select q => exact hsql _ fun _ h => h
  | load t q => exact hsql _ fun _ h => h
  | get held k => exact hsql _ fun _ h => h
  | lock t q => exact hsql _ fun _ h => h
  | refresh k =>
      refine hsql _ fun σ₁ h => ?_
      split <;> exact h
  | stage d => exact h
  | flush => exact hsql _ fun _ h => h
  | upsert waits f =>
      simp only [exec]
      split
      · exact h
      · split
        · rfl
        · simp [h]
  | commit => exact hsql _ fun _ h => h
  | rollback => exact h
  | await q => exact h
  | shared f => exact h
  | fresh => exact h
  | now => exact h

theorem rough_solo (p : Prog M α) {σ : Solo M} (h : σ.rough = true) :
    (p.solo σ).2.rough = true := by
  induction p generalizing σ with
  | ret a => exact h
  | raise e => exact h
  | call s k ih => exact ih _ (rough_exec s h)

end Solo

/-- A session alone does what the function says, unless that is rough. -/
theorem Alone.solo [Inhabited M.Reply] {w w' : World M} {p : Prog M α} {r : Except M.Exn α}
    (h : Alone i w p w' r) (evs : List M.Ambient) : ∃ χ : Chance M, ∀ σ : Solo M,
      Solo.Stands i w evs σ → σ.chance = χ → (p.solo σ).2.rough = false →
      (p.solo σ).1 = r ∧ ∃ evs', Solo.Stands i w' evs' (p.solo σ).2 := by
  induction h generalizing evs with
  | ret a => exact ⟨⟨fun _ => 0, fun _ => default, fun _ => []⟩, fun _ h _ _ => ⟨rfl, evs, h⟩⟩
  | raise e => exact ⟨⟨fun _ => 0, fun _ => default, fun _ => []⟩, fun _ h _ _ => ⟨rfl, evs, h⟩⟩
  | @exec w w₁ w' c X s k x r hfine hstep _ ih =>
      obtain ⟨χ, hch⟩ := ih (s.unseen evs)
      refine ⟨χ.before c evs s, ?_⟩
      intro σ hσ hc hrough
      have hfirst : (σ.exec s).2.rough = false := by
        by_contra hne
        have htrue : (σ.exec s).2.rough = true := by simpa using hne
        rw [Prog.solo, Solo.rough_solo _ htrue] at hrough
        cases hrough
      obtain ⟨hx, hc₁, h₁⟩ := hσ.exec hfine hstep hc hfirst
      rw [Prog.solo, hx] at hrough ⊢
      exact hch _ h₁ hc₁ hrough
  | flush hstep _ ih =>
      obtain ⟨χ, hch⟩ := ih evs
      exact ⟨χ, fun σ hσ hc hrough => hch σ (hσ.flush hstep) hc hrough⟩
  | ambient a _ ih =>
      obtain ⟨χ, hch⟩ := ih (evs ++ [a])
      refine ⟨χ, fun σ hσ hc hrough => hch σ ?_ hc hrough⟩
      refine ⟨hσ.db, hσ.sound, hσ.sends, hσ.level, hσ.objects, ?_⟩
      rw [List.foldl_append, hσ.shared]
      rfl

/-- A request executed with nobody else at work: the machine ends where the
function does. -/
theorem solo_of_run [Inhabited M.Reply] {Req : Type} {handler : Req → Prog M α}
    {C C' : Conf M α} {ls : List (Label M Req)} {p q : Prog M α} {r : Except M.Exn α}
    (hp : C.threads i = some p) (hidle : C.world.tx i = {}) (hl : ∀ l ∈ ls, l.IsAlone i)
    (hr : C.run handler ls = some C') (hq : C'.threads i = some q) (hend : q.outcome = some r) :
    ∃ χ, let out := p.solo (.start C.world.db C.world.shared χ)
      out.2.rough = false → out.1 = r ∧ C'.world.db = out.2.db := by
  obtain ⟨χ, hch⟩ := (alone_of_run hp hl hr hq hend).solo []
  refine ⟨χ, fun hrough => ?_⟩
  have hstands : Solo.Stands i C.world [] (.start C.world.db C.world.shared χ) :=
    .fresh rfl hidle rfl rfl rfl rfl
  obtain ⟨hout, evs', h'⟩ := hch _ hstands rfl hrough
  exact ⟨hout, h'.db⟩

end Sessions
