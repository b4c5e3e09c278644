import Adehun.Sessions.Rows
import Mathlib.Data.List.Pairwise
import Mathlib.Logic.Relation

/-!
# Locks keep transactions apart

Two transactions never write the same row or the same unique index entry at
the same time, because a write first takes both and keeps them. The first
half of this module reads off what each statement can do to the world. The
second half is the invariant that follows, `World.WF`: whoever has written a
row holds it, and the primary keys and unique entries of every session's view
stay distinct. From it comes the frame property every argument about one
session needs: whatever the others do, its transaction, what it holds, and
the committed rows it holds stay as they are.
-/

namespace Sessions

variable {M : System} {α X : Type}

namespace World

/-! ## Fields after the elementary moves -/

@[simp] theorem setTx_db (w : World M) (i : Nat) (t : Tx M) : (w.setTx i t).db = w.db := rfl
@[simp] theorem setTx_holder (w : World M) (i : Nat) (t : Tx M) :
    (w.setTx i t).holder = w.holder := rfl
@[simp] theorem setTx_shared (w : World M) (i : Nat) (t : Tx M) :
    (w.setTx i t).shared = w.shared := rfl
@[simp] theorem setTx_tx_self (w : World M) (i : Nat) (t : Tx M) :
    (w.setTx i t).tx i = t := by simp [setTx]
theorem setTx_tx_of_ne (w : World M) {i j : Nat} (t : Tx M) (h : j ≠ i) :
    (w.setTx i t).tx j = w.tx j := by simp [setTx, h]
theorem setTx_setTx (w : World M) (i : Nat) (t t' : Tx M) :
    (w.setTx i t).setTx i t' = w.setTx i t' := by
  simp [setTx]
theorem setTx_self (w : World M) (i : Nat) : w.setTx i (w.tx i) = w := by
  simp [setTx]

@[simp] theorem acquire_db (w : World M) (i : Nat) (ls : List (Lock M)) :
    (w.acquire i ls).db = w.db := rfl
@[simp] theorem acquire_tx (w : World M) (i : Nat) (ls : List (Lock M)) :
    (w.acquire i ls).tx = w.tx := rfl
@[simp] theorem acquire_shared (w : World M) (i : Nat) (ls : List (Lock M)) :
    (w.acquire i ls).shared = w.shared := rfl
theorem acquire_holder (w : World M) (i : Nat) (ls : List (Lock M)) (l : Lock M) :
    (w.acquire i ls).holder l = if l ∈ ls then some i else w.holder l := rfl

@[simp] theorem release_db (w : World M) (i : Nat) : (w.release i).db = w.db := rfl
@[simp] theorem release_tx (w : World M) (i : Nat) : (w.release i).tx = w.tx := rfl
@[simp] theorem release_shared (w : World M) (i : Nat) :
    (w.release i).shared = w.shared := rfl
theorem release_holder (w : World M) (i : Nat) (l : Lock M) :
    (w.release i).holder l = if w.holder l = some i then none else w.holder l := by
  change (w.holder l).filter (· ≠ i) = _
  cases w.holder l with
  | none => rfl
  | some j => by_cases hj : j = i <;> simp [hj]

@[simp] theorem reset_db (w : World M) (i : Nat) : (w.reset i).db = w.db := rfl
@[simp] theorem reset_shared (w : World M) (i : Nat) : (w.reset i).shared = w.shared := rfl
@[simp] theorem reset_tx_self (w : World M) (i : Nat) : (w.reset i).tx i = {} :=
  setTx_tx_self w i {}
@[simp] theorem abort_db (w : World M) (i : Nat) : (w.abort i).db = w.db := rfl
@[simp] theorem abort_shared (w : World M) (i : Nat) : (w.abort i).shared = w.shared := rfl
@[simp] theorem abort_tx_self (w : World M) (i : Nat) :
    (w.abort i).tx i = { aborted := true } := setTx_tx_self w i _
@[simp] theorem commit_db (w : World M) (i : Nat) : (w.commit i).db = w.view i := rfl
@[simp] theorem commit_shared (w : World M) (i : Nat) :
    (w.commit i).shared = w.shared := rfl
@[simp] theorem commit_tx_self (w : World M) (i : Nat) : (w.commit i).tx i = {} :=
  reset_tx_self _ i

theorem abort_setTx (w : World M) (i : Nat) (t : Tx M) : (w.setTx i t).abort i = w.abort i := by
  simp only [abort, setTx_setTx]

@[simp] theorem put_db (w : World M) (i : Nat) (d : Write M) : (w.put i d).db = w.db := rfl
@[simp] theorem put_shared (w : World M) (i : Nat) (d : Write M) :
    (w.put i d).shared = w.shared := rfl
@[simp] theorem put_tx_self (w : World M) (i : Nat) (d : Write M) :
    (w.put i d).tx i = { w.tx i with writes := (w.tx i).writes ++ [d] } :=
  setTx_tx_self _ i _
theorem put_tx_of_ne (w : World M) {i j : Nat} (d : Write M) (h : j ≠ i) :
    (w.put i d).tx j = w.tx j := setTx_tx_of_ne _ _ h
theorem put_holder (w : World M) (i : Nat) (d : Write M) (l : Lock M) :
    (w.put i d).holder l = if l ∈ d.locks (w.view i) then some i else w.holder l := rfl

@[simp] theorem stage_db (w : World M) (i : Nat) (d : Write M) : (w.stage i d).db = w.db := rfl
@[simp] theorem stage_holder (w : World M) (i : Nat) (d : Write M) :
    (w.stage i d).holder = w.holder := rfl
@[simp] theorem stage_shared (w : World M) (i : Nat) (d : Write M) :
    (w.stage i d).shared = w.shared := rfl
@[simp] theorem stage_writes (w : World M) (i : Nat) (d : Write M) :
    ((w.stage i d).tx i).writes = (w.tx i).writes := by simp [stage]
@[simp] theorem stage_dirty (w : World M) (i : Nat) (d : Write M) :
    ((w.stage i d).tx i).dirty = (w.tx i).dirty ++ [d] := by simp [stage]
theorem stage_objects_of_ne (w : World M) (i : Nat) {d : Write M} {k : Key M}
    (h : d.key ≠ k) : ((w.stage i d).tx i).objects k = (w.tx i).objects k := by
  cases d <;> exact (congrFun (congrArg Tx.objects (setTx_tx_self w i _)) k).trans
    (Function.update_of_ne (Ne.symm h) _ _)

/-- What is staged is seen by whoever looks at everything staged. -/
theorem stage_staged (w : World M) (i : Nat) (d : Write M) :
    (w.stage i d).staged i = d.apply (w.staged i) := by
  rw [staged, staged, stage_writes, stage_dirty, stage_db, ← List.append_assoc,
    Db.applyAll_concat]

theorem free_iff (w : World M) (i : Nat) (ls : List (Lock M)) :
    w.free i ls = true ↔ ∀ l ∈ ls, w.holder l = none ∨ w.holder l = some i := by
  simp [free]

/-! ## What a statement can do

A statement sent to the database either raises, leaving the world alone or
the transaction aborted, or runs its body with nothing left to send. -/

theorem flush_error {w w' : World M} {i : Nat} {e : M.Exn}
    (h : w.flush i = some (.error e, w')) : w' = w.abort i := by
  unfold flush at h
  split at h
  · cases h
  · next d ds hd =>
      unfold write at h
      split at h
      · split at h
        · simp only [Option.some.injEq, Prod.mk.injEq, Except.error.injEq] at h
          rw [← h.2, abort_setTx]
        · cases h
      · cases h

theorem sql_cases {w w' : World M} {i : Nat} {c : Choice M} {autoflush : Bool}
    {body : Option (Except M.Exn X × World M)} {r : Except M.Exn X}
    (h : w.sql i c autoflush body = some (r, w')) :
    (∃ e, r = .error e ∧ ((w.tx i).aborted = true ∧ w' = w ∨ w' = w.abort i)) ∨
      ((w.tx i).aborted = false ∧ (autoflush = true → (w.tx i).dirty = []) ∧
        body = some (r, w')) := by
  unfold sql at h
  split at h
  · next ha =>
      cases h
      exact Or.inl ⟨_, rfl, Or.inl ⟨ha, rfl⟩⟩
  · next ha =>
      split at h
      · cases h
        exact Or.inl ⟨_, rfl, Or.inr rfl⟩
      · split at h
        · split at h
          · next e w₁ hf =>
              cases h
              exact Or.inl ⟨e, rfl, Or.inr (flush_error hf)⟩
          · cases h
        · next hd =>
            refine Or.inr ⟨by simpa using ha, ?_, h⟩
            intro hauto
            simpa [hauto] using hd

theorem write_cases {w w' : World M} {i : Nat} {d : Write M} {r : Except M.Exn Unit}
    (h : w.write i d = some (r, w')) :
    w.free i (d.locks (w.view i)) = true ∧
      ((∃ e, d.refusal (w.view i) = some e ∧ r = .error e ∧ w' = w.abort i) ∨
        (d.refusal (w.view i) = none ∧ r = .ok () ∧ w' = w.put i d)) := by
  unfold write at h
  split at h
  · next hfree =>
      refine ⟨hfree, ?_⟩
      split at h
      · next e he =>
          cases h
          exact Or.inl ⟨e, he, rfl, rfl⟩
      · next he =>
          cases h
          exact Or.inr ⟨he, rfl, rfl⟩
  · cases h

theorem flush_ok {w w' : World M} {i : Nat} (h : w.flush i = some (.ok (), w')) :
    ∃ d ds, (w.tx i).dirty = d :: ds ∧ w.free i (d.locks (w.view i)) = true ∧
      d.refusal (w.view i) = none ∧
      w' = (w.put i d).setTx i { w.tx i with
        writes := (w.tx i).writes ++ [d], dirty := ds } := by
  unfold flush at h
  split at h
  · cases h
  · next d ds hd =>
      have hview : (w.setTx i { w.tx i with dirty := ds }).view i = w.view i := by
        simp [view]
      obtain ⟨hfree, he | ⟨hr, _, rfl⟩⟩ := write_cases h
      · obtain ⟨e, -, he, -⟩ := he
        cases he
      · rw [hview] at hr hfree
        refine ⟨d, ds, hd, hfree, hr, ?_⟩
        · simp only [put, hview, setTx_tx_self]
          simp [setTx, acquire]

/-- The elementary ways a session changes the world, as far as locks and
rows are concerned: it keeps to its own staging and takes what is free, it
gives everything up, it adds a write, or it commits. -/
inductive Does (i : Nat) (w : World M) : World M → Prop
  | keep {w' : World M} (db : w'.db = w.db)
      (others : ∀ j, j ≠ i → w'.tx j = w.tx j)
      (writes : (w'.tx i).writes = (w.tx i).writes)
      (holder : ∀ j l, w.holder l = some j → w'.holder l = some j)
      (gains : ∀ j l, j ≠ i → w'.holder l = some j → w.holder l = some j) : Does i w w'
  | clear {w' : World M} (db : w'.db = w.db)
      (others : ∀ j, j ≠ i → w'.tx j = w.tx j)
      (writes : (w'.tx i).writes = [])
      (holder : ∀ j l, j ≠ i → w.holder l = some j → w'.holder l = some j)
      (gains : ∀ j l, j ≠ i → w'.holder l = some j → w.holder l = some j) : Does i w w'
  | put {w' : World M} (d : Write M) (free : w.free i (d.locks (w.view i)) = true)
      (legal : d.refusal (w.view i) = none) (db : w'.db = w.db)
      (others : ∀ j, j ≠ i → w'.tx j = w.tx j)
      (writes : (w'.tx i).writes = (w.tx i).writes ++ [d])
      (holder : w'.holder = (w.put i d).holder) : Does i w w'
  | commit : Does i w (w.commit i)

theorem reset_holder_of_ne {w : World M} {i j : Nat} {l : Lock M} (hne : j ≠ i)
    (h : w.holder l = some j) : (w.reset i).holder l = some j := by
  have hj : w.holder l ≠ some i := by
    rw [h]
    intro he
    exact hne (Option.some.inj he)
  rw [reset, release_holder, setTx_holder, if_neg hj]
  exact h

theorem holder_of_reset {w : World M} {i j : Nat} {l : Lock M}
    (h : (w.reset i).holder l = some j) : w.holder l = some j := by
  rw [reset, release_holder, setTx_holder] at h
  split at h
  · cases h
  · exact h

theorem holder_of_acquire {w : World M} {i j : Nat} {ls : List (Lock M)} {l : Lock M}
    (hne : j ≠ i) (h : (w.acquire i ls).holder l = some j) : w.holder l = some j := by
  rw [acquire_holder] at h
  split at h
  · exact absurd (Option.some.inj h).symm hne
  · exact h

theorem acquire_holder_of_free {w : World M} {i j : Nat} {ls : List (Lock M)} {l : Lock M}
    (hfree : w.free i ls = true) (h : w.holder l = some j) :
    (w.acquire i ls).holder l = some j := by
  rw [acquire_holder]
  split
  · next hl =>
      rcases (w.free_iff i ls).mp hfree l hl with hn | hi
      · rw [hn] at h
        cases h
      · rw [← hi, h]
  · exact h

theorem does_reset (w : World M) (i : Nat) : Does i w (w.reset i) :=
  .clear rfl (fun _ h => setTx_tx_of_ne w _ h) (by simp)
    (fun _ _ hne h => reset_holder_of_ne hne h) (fun _ _ _ h => holder_of_reset h)

theorem does_abort (w : World M) (i : Nat) : Does i w (w.abort i) :=
  .clear rfl (fun _ h => setTx_tx_of_ne w _ h) (by simp)
    (fun _ _ hne h => reset_holder_of_ne hne h) (fun _ _ _ h => holder_of_reset h)

theorem does_setTx {w : World M} {i : Nat} {t : Tx M} (h : t.writes = (w.tx i).writes) :
    Does i w (w.setTx i t) :=
  .keep rfl (fun _ hne => setTx_tx_of_ne w _ hne) (by simpa using h) (fun _ _ h => h)
    (fun _ _ _ h => h)

theorem does_remember (w : World M) (i : Nat) (k : Key M) (o : Option (M.Row k.table)) :
    Does i w (w.remember i k o) := does_setTx rfl

/-- A chain of elementary moves of one session. -/
abbrev DoesAll (i : Nat) : World M → World M → Prop := Relation.ReflTransGen (Does i)

theorem doesAll_rememberAll (w : World M) (i : Nat) (alive : Bool) (ks : List (Key M)) :
    DoesAll i w (w.rememberAll i alive ks) := by
  unfold rememberAll
  induction ks generalizing w with
  | nil => exact .refl
  | cons k ks ih => exact .head (does_remember w i k _) (ih _)

theorem doesAll_writeAll {w w' : World M} {i : Nat} {ds : List (Write M)}
    {r : Except M.Exn Unit} (h : w.writeAll i ds = some (r, w')) : DoesAll i w w' := by
  induction ds generalizing w with
  | nil =>
      cases h
      exact .refl
  | cons d ds ih =>
      unfold writeAll at h
      split at h
      · next w₁ hw =>
          obtain ⟨hfree, he | ⟨hr, _, rfl⟩⟩ := write_cases hw
          · obtain ⟨e, -, he, -⟩ := he
            cases he
          · have hd : Does i w (w.put i d) :=
              .put d hfree hr rfl (fun j hne => put_tx_of_ne w d hne) (by simp) rfl
            exact .head hd (ih h)
      · next hno =>
          obtain ⟨hfree, ⟨e, -, -, rfl⟩ | ⟨hr, rfl, rfl⟩⟩ := write_cases h
          · exact .single (does_abort w i)
          · exact absurd h (hno _)

theorem exec_get (w : World M) (i : Nat) (c : Choice M) (held : Bool) (k : Key M) :
    w.exec i c (.get held k) =
      match (w.tx i).objects k, held || c.alive with
      | some o, true => some (.ok (some o), w)
      | _, _ => w.sql i c true
          (some (.ok ((w.view i).lookup k), w.remember i k ((w.view i).lookup k))) := rfl

theorem exec_shared (w : World M) (i : Nat) (c : Choice M) (f : M.Shared → M.Shared × X) :
    w.exec i c (.shared f) =
      if c.fail then some (.error M.sharedError, w)
      else some (.ok (f w.shared).2, { w with shared := (f w.shared).1 }) := rfl

/-- A row found and locked. -/
theorem exec_lock_some {w w' : World M} {i : Nat} {c : Choice M} {t : M.Table}
    {q : Db M → Option Nat} {o : M.Row t}
    (h : w.exec i c (.lock t q) = some (.ok (some o), w')) :
    ∃ id, q (w.view i) = some id ∧ (w.tx i).dirty = [] ∧
      w.free i [.row ⟨t, id⟩] = true ∧ w.answer i c.alive ⟨t, id⟩ = some o ∧
      w' = (w.acquire i [.row ⟨t, id⟩]).remember i ⟨t, id⟩ (some o) := by
  rcases sql_cases h with ⟨e, he, -⟩ | ⟨-, hd, hb⟩
  · cases he
  · split at hb
    · cases hb
    · next id hq =>
        split at hb
        · next hfree =>
            simp only [Option.some.injEq, Prod.mk.injEq, Except.ok.injEq] at hb
            refine ⟨id, hq, hd rfl, hfree, hb.1, ?_⟩
            rw [← hb.2, hb.1]
        · cases hb

/-- Every statement is a chain of elementary moves. -/
theorem exec_does {w w' : World M} {i : Nat} {c : Choice M} {s : Stmt M X}
    {r : Except M.Exn X} (h : w.exec i c s = some (r, w')) : DoesAll i w w' := by
  have hsql : ∀ {auto : Bool} {body : Option (Except M.Exn X × World M)},
      w.sql i c auto body = some (r, w') →
      (body = some (r, w') → DoesAll i w w') → DoesAll i w w' := by
    intro auto body hs hbody
    rcases sql_cases hs with ⟨e, -, ⟨-, rfl⟩ | rfl⟩ | ⟨-, -, hb⟩
    · exact .refl
    · exact .single (does_abort w i)
    · exact hbody hb
  cases s with
  | select q =>
      refine hsql h fun hb => ?_
      cases hb
      exact .refl
  | load t q =>
      refine hsql h fun hb => ?_
      cases hb
      exact doesAll_rememberAll w i _ _
  | get held k =>
      rw [exec_get] at h
      split at h
      · cases h
        exact .refl
      · refine hsql h fun hb => ?_
        cases hb
        exact .single (does_remember w i k _)
  | lock t q =>
      refine hsql h fun hb => ?_
      split at hb
      · cases hb
        exact .refl
      · next id hq =>
          split at hb
          · next hfree =>
              cases hb
              refine .single (.keep rfl ?_ (by simp [remember]) ?_ ?_)
              · exact fun j hne => setTx_tx_of_ne _ _ hne
              · exact fun j l hl => acquire_holder_of_free hfree hl
              · exact fun j l hne hl => holder_of_acquire hne hl
          · cases hb
  | refresh k =>
      refine hsql h fun hb => ?_
      split at hb
      · cases hb
        exact .refl
      · cases hb
        exact .single (does_remember w i k _)
  | stage d =>
      cases h
      exact .single (does_setTx rfl)
  | flush =>
      refine hsql h fun hb => ?_
      cases hb
      exact .refl
  | upsert waits f =>
      refine hsql h fun hb => ?_
      split at hb
      · simp only [Option.map_eq_some_iff] at hb
        obtain ⟨⟨r', w₁⟩, hw, hr⟩ := hb
        have hw' : w₁ = w' := by
          cases r' <;> (cases hr; rfl)
        rw [← hw']
        exact doesAll_writeAll hw
      · cases hb
  | commit =>
      refine hsql h fun hb => ?_
      cases hb
      exact .single .commit
  | rollback =>
      cases h
      exact .single (does_reset w i)
  | await q =>
      simp only [exec, Option.map_eq_some_iff] at h
      obtain ⟨x, -, hx⟩ := h
      cases hx
      exact .refl
  | shared f =>
      rw [exec_shared] at h
      split at h
      · cases h
        exact .refl
      · cases h
        exact .single
          (.keep rfl (fun _ _ => rfl) rfl (fun _ _ h => h) (fun _ _ _ h => h))
  | fresh =>
      cases h
      exact .refl
  | now =>
      cases h
      exact .refl

theorem flush_does {w w' : World M} {i : Nat} (h : w.flush i = some (.ok (), w')) :
    Does i w w' := by
  obtain ⟨d, ds, -, hfree, hr, rfl⟩ := flush_ok h
  refine .put d hfree hr rfl ?_ (by simp) rfl
  intro j hne
  rw [setTx_tx_of_ne _ _ hne, put_tx_of_ne w d hne]

/-- What the others hold is what they held. -/
theorem Does.holder_iff {w w' : World M} {i j : Nat} (h : Does i w w') (hne : j ≠ i)
    (l : Lock M) : w'.holder l = some j ↔ w.holder l = some j := by
  cases h with
  | keep db others writes holder gains => exact ⟨gains j l hne, holder j l⟩
  | clear db others writes holder gains => exact ⟨gains j l hne, holder j l hne⟩
  | put d free legal db others writes holder =>
      rw [holder]
      exact ⟨holder_of_acquire hne, acquire_holder_of_free free⟩
  | commit => exact ⟨holder_of_reset, reset_holder_of_ne (w := { w with db := w.view i }) hne⟩

theorem commit_tx_of_ne (w : World M) {i j : Nat} (hne : j ≠ i) :
    (w.commit i).tx j = w.tx j := by
  simp [commit, reset, release, setTx_tx_of_ne _ _ hne]

theorem Does.tx_of_ne {w w' : World M} {i j : Nat} (h : Does i w w') (hne : j ≠ i) :
    w'.tx j = w.tx j := by
  cases h with
  | keep db others => exact others j hne
  | clear db others => exact others j hne
  | put d free legal db others => exact others j hne
  | commit => exact commit_tx_of_ne w hne

theorem DoesAll.holder_iff {w w' : World M} {i j : Nat} (h : DoesAll i w w') (hne : j ≠ i)
    (l : Lock M) : w'.holder l = some j ↔ w.holder l = some j := by
  induction h with
  | refl => rfl
  | tail _ hstep ih => exact (hstep.holder_iff hne l).trans ih

theorem DoesAll.tx_of_ne {w w' : World M} {i j : Nat} (h : DoesAll i w w') (hne : j ≠ i) :
    w'.tx j = w.tx j := by
  induction h with
  | refl => rfl
  | tail _ hstep ih => exact (hstep.tx_of_ne hne).trans ih

/-! ## The invariant of the machine -/

end World

/-- No two rows of a table share a unique index entry. -/
def Db.EntriesDistinct (db : Db M) : Prop :=
  ∀ (t : M.Table) (id id' : Nat) (r r' : M.Row t), id ≠ id' →
    db.lookup ⟨t, id⟩ = some r → db.lookup ⟨t, id'⟩ = some r' →
    ∀ e ∈ M.entries r, e ∉ M.entries r'

theorem Db.entriesDistinct_of_pairwise {db : Db M}
    (h : ∀ t, (db t).Pairwise fun r r' => ∀ e ∈ M.entries r, e ∉ M.entries r') :
    db.EntriesDistinct := by
  intro t id id' r r' hne hr hr'
  have hid : M.id r = id := lookup_id (k := ⟨t, id⟩) hr
  have hid' : M.id r' = id' := lookup_id (k := ⟨t, id'⟩) hr'
  have hsymm : Std.Symm fun r r' : M.Row t => ∀ e ∈ M.entries r, e ∉ M.entries r' :=
    ⟨fun r r' hrr e he he' => hrr e he' he⟩
  refine (h t).forall (lookup_mem (k := ⟨t, id⟩) hr) (lookup_mem (k := ⟨t, id'⟩) hr') ?_
  rintro rfl
  exact hne (hid.symm.trans hid')

/-- A unique index finds one row at most. -/
theorem Db.EntriesDistinct.eq {db : Db M} (h : db.EntriesDistinct) (hk : db.KeysDistinct)
    {t : M.Table} {r r' : M.Row t} (hr : r ∈ db t) (hr' : r' ∈ db t) {e : M.Index}
    (he : e ∈ M.entries r) (he' : e ∈ M.entries r') : r = r' := by
  have hlook : db.lookup ⟨t, M.id r⟩ = some r := hk.lookup hr
  have hlook' : db.lookup ⟨t, M.id r'⟩ = some r' := hk.lookup hr'
  by_cases hid : M.id r = M.id r'
  · rw [hid, hlook'] at hlook
    exact (Option.some.inj hlook).symm
  · exact absurd he' (h t _ _ r r' hid hlook hlook' e he)

theorem Db.not_clash {db : Db M} {t : M.Table} {r r' : M.Row t} (h : db.clash r = false)
    (hr' : r' ∈ db t) (hne : M.id r' ≠ M.id r) : ∀ e ∈ M.entries r', e ∉ M.entries r := by
  intro e he' he
  have : db.clash r = true := by
    simp only [Db.clash, List.any_eq_true, Bool.and_eq_true, bne_iff_ne, decide_eq_true_eq]
    exact ⟨r', hr', hne, e, he', he⟩
  rw [h] at this
  cases this

namespace Write

theorem key_mem_locks (d : Write M) (db : Db M) : Lock.row d.key ∈ d.locks db := by
  cases d <;> exact List.mem_cons_self

theorem insert_free {db : Db M} {t : M.Table} {r : M.Row t}
    (h : (Write.insert t r).refusal db = none) :
    db.lookup ⟨t, M.id r⟩ = none ∧ db.clash r = false := by
  simp only [refusal] at h
  split at h
  · cases h
  · next hn => simpa using hn

theorem update_found {db : Db M} {t : M.Table} {id : Nat} {f : Patch M t}
    (h : (Write.update t id f).refusal db = none) :
    ∃ r, db.lookup ⟨t, id⟩ = some r ∧ db.clash (f.run r) = false ∧
      M.check (f.run r) = none := by
  simp only [refusal] at h
  split at h
  · cases h
  · next r hr =>
      split at h
      · cases h
      · next hc => exact ⟨r, hr, by simpa using hc, h⟩

/-- An update that leaves a row its index entries is refused by the checks
alone. -/
theorem update_goes {db : Db M} (hk : db.KeysDistinct) (he : db.EntriesDistinct) {t : M.Table}
    {id : Nat} {f : Patch M t} {r : M.Row t} (hr : db.lookup ⟨t, id⟩ = some r)
    (hentries : M.entries (f.run r) = M.entries r) (hcheck : M.check (f.run r) = none) :
    (Write.update t id f).refusal db = none := by
  have hclash : db.clash (f.run r) = false := by
    rw [Db.clash, List.any_eq_false]
    intro r' hr' hany
    simp only [Bool.and_eq_true, bne_iff_ne, List.any_eq_true, decide_eq_true_eq] at hany
    obtain ⟨hne, x, hx, hx'⟩ := hany
    rw [f.id_run, Db.lookup_id (k := ⟨t, id⟩) hr] at hne
    rw [hentries] at hx'
    exact he t (M.id r') id r' r hne (hk.lookup hr') hr x hx hx'
  simp only [refusal, hr, hclash, Bool.false_eq_true, if_false, hcheck]

theorem legal_of_refusal {db : Db M} {d : Write M} (h : d.refusal db = none) :
    ∀ t r, d = .insert t r → db.lookup ⟨t, M.id r⟩ = none := by
  rintro t r rfl
  exact (insert_free h).1

/-- The entries of the row a write leaves behind are among those it took. -/
theorem entries_mem_locks {db : Db M} {d : Write M} (h : d.refusal db = none)
    {r : M.Row d.key.table} (hr : (d.apply db).lookup d.key = some r) :
    ∀ e ∈ M.entries r, Lock.entry e ∈ d.locks db := by
  intro e he
  cases d with
  | insert t r' =>
      have hlook : (some r' : Option (M.Row t)) = some r := by
        rw [← hr]
        have := lookup_insert db t r' (M.id r')
        rw [(insert_free h).1, if_pos rfl] at this
        exact this.symm
      cases hlook
      exact List.mem_cons_of_mem _ (List.mem_map_of_mem he)
  | update t id f =>
      obtain ⟨r', hr', -, -⟩ := update_found h
      have hlook : (some (f.run r') : Option (M.Row t)) = some r := by
        rw [← hr]
        have := lookup_update db t id id f
        rw [hr'] at this
        simpa using this.symm
      cases hlook
      simp only [locks, hr', List.mem_cons, List.mem_map, List.mem_append]
      exact Or.inr ⟨e, Or.inr he, rfl⟩
  | delete t id =>
      have hnone : (apply db (.delete t id)).lookup ⟨t, id⟩ = none := by
        rw [lookup_delete, if_pos rfl]
      exact absurd (hnone.symm.trans hr) (by simp)

/-- A write that is not refused keeps the entries distinct. -/
theorem entriesDistinct_apply {db : Db M} {d : Write M} (hd : db.EntriesDistinct)
    (h : d.refusal db = none) : (d.apply db).EntriesDistinct := by
  -- only the row written can have new entries, and those do not clash
  have key : ∀ (k : Key M) (r : M.Row k.table) (id' : Nat) (r' : M.Row k.table),
      d.key = k → id' ≠ k.id → (d.apply db).lookup k = some r →
      db.lookup ⟨k.table, id'⟩ = some r' → ∀ e ∈ M.entries r', e ∉ M.entries r := by
    rintro ⟨t, id⟩ r id' r' hk hne hr hr'
    replace hr' : db.lookup ⟨t, id'⟩ = some r' := hr'
    have hid' : M.id r' = id' := Db.lookup_id (k := ⟨t, id'⟩) hr'
    have hmem : r' ∈ db t := Db.lookup_mem (k := ⟨t, id'⟩) hr'
    cases d with
    | insert t' r₀ =>
        cases hk
        rw [lookup_insert, (insert_free h).1, if_pos rfl] at hr
        cases hr
        exact Db.not_clash (insert_free h).2 hmem (by rw [hid']; exact hne)
    | update t' id₀ f =>
        cases hk
        obtain ⟨r₁, hr₁, hc, -⟩ := update_found h
        rw [lookup_update, hr₁] at hr
        simp only [Option.map_some, if_true, Option.some.injEq] at hr
        subst hr
        refine Db.not_clash hc hmem ?_
        rw [hid', f.id_run]
        exact fun he => hne (he.trans (Db.lookup_id (k := ⟨t, id⟩) hr₁))
    | delete t' id₀ =>
        cases hk
        rw [lookup_delete, if_pos rfl] at hr
        cases hr
  intro t id id' r r' hne hr hr' e he he'
  by_cases hk : d.key = ⟨t, id⟩
  · have hk' : d.key ≠ ⟨t, id'⟩ := by
      rw [hk]
      intro heq
      cases heq
      exact hne rfl
    rw [lookup_apply_of_ne db hk'] at hr'
    exact key ⟨t, id⟩ r id' r' hk (Ne.symm hne) hr hr' e he' he
  · rw [lookup_apply_of_ne db hk] at hr
    by_cases hk' : d.key = ⟨t, id'⟩
    · exact key ⟨t, id'⟩ r' id r hk' hne hr' hr e he he'
    · rw [lookup_apply_of_ne db hk'] at hr'
      exact hd t id id' r r' hne hr hr' e he he'

end Write

namespace World

/-- A session has written the row of a key. -/
def Touches (w : World M) (i : Nat) (k : Key M) : Prop :=
  ∃ d ∈ (w.tx i).writes, d.key = k

/-- What the locks guarantee in every state: keys and unique entries are
distinct in the committed tables and in every view, and a session holds every
row it has written and every entry of it. -/
structure WF (w : World M) : Prop where
  keys : w.db.KeysDistinct
  entries : w.db.EntriesDistinct
  held : ∀ i k, w.Touches i k → w.holder (.row k) = some i
  legal : ∀ i, w.db.Legal (w.tx i).writes
  distinct : ∀ i, (w.view i).EntriesDistinct
  taken : ∀ i k r, w.Touches i k → (w.view i).lookup k = some r →
    ∀ e ∈ M.entries r, w.holder (.entry e) = some i

/-- A world with no session at work. -/
theorem wf_init {db : Db M} {m : M.Shared} (hk : db.KeysDistinct) (he : db.EntriesDistinct) :
    ({ db := db, shared := m } : World M).WF where
  keys := hk
  entries := he
  held := by
    rintro i k ⟨d, hd, -⟩
    cases hd
  legal _ := trivial
  distinct _ := he
  taken := by
    rintro i k r ⟨d, hd, -⟩
    cases hd

/-- The row of a key a session has not written is the committed one. -/
theorem lookup_view_of_not_touches {w : World M} {i : Nat} {k : Key M}
    (h : ¬ w.Touches i k) : (w.view i).lookup k = w.db.lookup k :=
  Db.lookup_applyAll_of_not_mem (fun d hd hk => h ⟨d, hd, hk⟩) w.db

theorem WF.not_touches {w : World M} (h : w.WF) {i j : Nat} {k : Key M} (hne : j ≠ i)
    (hk : w.Touches i k) : ¬ w.Touches j k := by
  intro hj
  have hi := h.held i k hk
  rw [h.held j k hj] at hi
  exact hne (Option.some.inj hi)

/-- What a session holds is written by nobody else. -/
theorem WF.not_touches_of_holds {w : World M} (h : w.WF) {i j : Nat} {k : Key M}
    (hne : j ≠ i) (hk : w.holder (.row k) = some i) : ¬ w.Touches j k := by
  intro hj
  rw [h.held j k hj] at hk
  exact hne (Option.some.inj hk)

/-- The view of a session has distinct keys, as it may commit. -/
theorem WF.view_keys {w : World M} (h : w.WF) (i : Nat) : (w.view i).KeysDistinct :=
  Db.keysDistinct_applyAll h.keys (h.legal i)

/-- After another session's commit, a row of one's own view is either the
other's or as it was. -/
theorem lookup_view_commit {w : World M} {i j : Nat} {k : Key M} (hne : j ≠ i)
    (hk : ¬ w.Touches i k) : ((w.commit i).view j).lookup k = (w.view j).lookup k := by
  simp only [view, commit_tx_of_ne w hne]
  refine Db.lookup_applyAll_congr ?_ _
  exact lookup_view_of_not_touches hk

theorem view_congr {w w' : World M} {i : Nat} (hdb : w'.db = w.db)
    (hw : (w'.tx i).writes = (w.tx i).writes) : w'.view i = w.view i := by
  simp only [view, hdb, hw]

theorem touches_congr {w w' : World M} {i : Nat} {k : Key M}
    (hw : (w'.tx i).writes = (w.tx i).writes) : w'.Touches i k ↔ w.Touches i k := by
  simp only [Touches, hw]

/-- The invariant when one session keeps to what it may do: for the others
nothing changes, so only its own part is to be shown. -/
theorem WF.of_own {w w' : World M} {i : Nat} (h : w.WF) (hdb : w'.db = w.db)
    (hothers : ∀ j, j ≠ i → w'.tx j = w.tx j)
    (hholder : ∀ j l, j ≠ i → w.holder l = some j → w'.holder l = some j)
    (hheld : ∀ k, w'.Touches i k → w'.holder (.row k) = some i)
    (hlegal : w'.db.Legal (w'.tx i).writes)
    (hdistinct : (w'.view i).EntriesDistinct)
    (htaken : ∀ k r, w'.Touches i k → (w'.view i).lookup k = some r →
      ∀ e ∈ M.entries r, w'.holder (.entry e) = some i) : w'.WF where
  keys := hdb ▸ h.keys
  entries := hdb ▸ h.entries
  held j k hk := by
    by_cases hj : j = i
    · subst hj
      exact hheld k hk
    · rw [touches_congr (congrArg Tx.writes (hothers j hj))] at hk
      exact hholder j _ hj (h.held j k hk)
  legal j := by
    by_cases hj : j = i
    · subst hj
      exact hlegal
    · rw [hothers j hj, hdb]
      exact h.legal j
  distinct j := by
    by_cases hj : j = i
    · subst hj
      exact hdistinct
    · rw [view_congr hdb (congrArg Tx.writes (hothers j hj))]
      exact h.distinct j
  taken j k r hk hr e he := by
    by_cases hj : j = i
    · subst hj
      exact htaken k r hk hr e he
    · rw [touches_congr (congrArg Tx.writes (hothers j hj))] at hk
      rw [view_congr hdb (congrArg Tx.writes (hothers j hj))] at hr
      exact hholder j _ hj (h.taken j k r hk hr e he)

theorem WF.put {w w' : World M} {i : Nat} (h : w.WF) {d : Write M}
    (hfree : w.free i (d.locks (w.view i)) = true) (hr : d.refusal (w.view i) = none)
    (hdb : w'.db = w.db) (hothers : ∀ j, j ≠ i → w'.tx j = w.tx j)
    (hwrites : (w'.tx i).writes = (w.tx i).writes ++ [d])
    (hholder : w'.holder = (w.put i d).holder) : w'.WF := by
  have hview : w'.view i = d.apply (w.view i) := by
    simp only [view, hdb, hwrites, Db.applyAll_concat]
  have hkeep : ∀ j l, w.holder l = some j → w'.holder l = some j := by
    intro j l hl
    rw [hholder]
    exact acquire_holder_of_free hfree hl
  have htake : ∀ l ∈ d.locks (w.view i), w'.holder l = some i := by
    intro l hl
    rw [hholder, put_holder, if_pos hl]
  have htouch : ∀ k, w'.Touches i k → w.Touches i k ∨ d.key = k := by
    rintro k ⟨d', hd', hk⟩
    rw [hwrites, List.mem_append, List.mem_singleton] at hd'
    rcases hd' with hd' | rfl
    · exact Or.inl ⟨d', hd', hk⟩
    · exact Or.inr hk
  refine h.of_own hdb hothers (fun j l _ hl => hkeep j l hl) ?_ ?_ ?_ ?_
  · intro k hk
    rcases htouch k hk with hk | rfl
    · exact hkeep i _ (h.held i k hk)
    · exact htake _ (d.key_mem_locks _)
  · rw [hdb, hwrites, Db.legal_append]
    exact ⟨h.legal i, Write.legal_of_refusal hr, trivial⟩
  · rw [hview]
    exact Write.entriesDistinct_apply (h.distinct i) hr
  · intro k r hk hlook e he
    rw [hview] at hlook
    by_cases hdk : d.key = k
    · subst hdk
      exact htake _ (Write.entries_mem_locks hr hlook e he)
    · rw [Write.lookup_apply_of_ne _ hdk] at hlook
      rcases htouch k hk with hk | hk
      · exact hkeep i _ (h.taken i k r hk hlook e he)
      · exact absurd hk hdk

theorem WF.commit {w : World M} (h : w.WF) (i : Nat) : (w.commit i).WF := by
  have hholder : ∀ j l, j ≠ i → w.holder l = some j → (w.commit i).holder l = some j :=
    fun j l hne hl => reset_holder_of_ne (w := { w with db := w.view i }) hne hl
  have hself : ∀ k, ¬ (w.commit i).Touches i k := by
    rintro k ⟨d, hd, -⟩
    rw [commit_tx_self] at hd
    cases hd
  have hothers : ∀ j k, j ≠ i → ((w.commit i).Touches j k ↔ w.Touches j k) :=
    fun j k hne => touches_congr (by rw [commit_tx_of_ne w hne])
  refine ⟨h.view_keys i, h.distinct i, ?_, ?_, ?_, ?_⟩
  · intro j k hk
    by_cases hj : j = i
    · subst hj
      exact absurd hk (hself k)
    · rw [hothers j k hj] at hk
      exact hholder j _ hj (h.held j k hk)
  · intro j
    by_cases hj : j = i
    · subst hj
      rw [commit_tx_self]
      trivial
    · rw [commit_tx_of_ne w hj]
      refine (h.legal j).congr ?_
      intro d hd
      exact (lookup_view_of_not_touches (h.not_touches (Ne.symm hj) ⟨d, hd, rfl⟩)).symm
  · intro j
    by_cases hj : j = i
    · subst hj
      have : (w.commit j).view j = w.view j := by
        rw [view, commit_tx_self]
        rfl
      rw [this]
      exact h.distinct j
    · -- a row of the new view is the other session's, or one's own, or nobody's
      have hown : ∀ k, w.Touches j k →
          ((w.commit i).view j).lookup k = (w.view j).lookup k :=
        fun k hk => lookup_view_commit hj (h.not_touches (Ne.symm hj) hk)
      have hother : ∀ k, ¬ w.Touches j k →
          ((w.commit i).view j).lookup k = (w.view i).lookup k := by
        intro k hk
        rw [← hothers j k hj] at hk
        exact lookup_view_of_not_touches hk
      have hmixed : ∀ (t : M.Table) (id id' : Nat) (r r' : M.Row t), id ≠ id' →
          w.Touches j ⟨t, id⟩ → ¬ w.Touches j ⟨t, id'⟩ →
          ((w.commit i).view j).lookup ⟨t, id⟩ = some r →
          ((w.commit i).view j).lookup ⟨t, id'⟩ = some r' →
          ∀ e ∈ M.entries r, e ∉ M.entries r' := by
        intro t id id' r r' hne hk hk' hr hr' e he he'
        rw [hown _ hk] at hr
        rw [hother _ hk'] at hr'
        by_cases hi : w.Touches i ⟨t, id'⟩
        · have h₁ := h.taken j _ r hk hr e he
          rw [h.taken i _ r' hi hr' e he'] at h₁
          exact hj (Option.some.inj h₁).symm
        · rw [lookup_view_of_not_touches hi, ← lookup_view_of_not_touches hk'] at hr'
          exact h.distinct j t id id' r r' hne hr hr' e he he'
      intro t id id' r r' hne hr hr' e he he'
      by_cases hk : w.Touches j ⟨t, id⟩
      · by_cases hk' : w.Touches j ⟨t, id'⟩
        · rw [hown _ hk] at hr
          rw [hown _ hk'] at hr'
          exact h.distinct j t id id' r r' hne hr hr' e he he'
        · exact hmixed t id id' r r' hne hk hk' hr hr' e he he'
      · by_cases hk' : w.Touches j ⟨t, id'⟩
        · exact hmixed t id' id r' r (Ne.symm hne) hk' hk hr' hr e he' he
        · rw [hother _ hk] at hr
          rw [hother _ hk'] at hr'
          exact h.distinct i t id id' r r' hne hr hr' e he he'
  · intro j k r hk hr e he
    by_cases hj : j = i
    · subst hj
      exact absurd hk (hself k)
    · rw [hothers j k hj] at hk
      rw [lookup_view_commit hj (h.not_touches (Ne.symm hj) hk)] at hr
      exact hholder j _ hj (h.taken j k r hk hr e he)

/-- Every elementary move keeps the invariant. -/
theorem WF.does {w w' : World M} {i : Nat} (h : w.WF) (hd : Does i w w') : w'.WF := by
  cases hd with
  | keep db others writes holder gains =>
      refine h.of_own db others (fun j l _ hl => holder j l hl) ?_ ?_ ?_ ?_
      · intro k hk
        rw [touches_congr writes] at hk
        exact holder i _ (h.held i k hk)
      · rw [db, writes]
        exact h.legal i
      · rw [view_congr db writes]
        exact h.distinct i
      · intro k r hk hr e he
        rw [touches_congr writes] at hk
        rw [view_congr db writes] at hr
        exact holder i _ (h.taken i k r hk hr e he)
  | clear db others writes holder gains =>
      have hno : ∀ k, ¬ w'.Touches i k := by
        rintro k ⟨d, hd, -⟩
        rw [writes] at hd
        cases hd
      refine h.of_own db others holder (fun k hk => absurd hk (hno k)) ?_ ?_
        (fun k _ hk => absurd hk (hno k))
      · rw [writes]
        trivial
      · have : w'.view i = w.db := by rw [view, writes, db]; rfl
        rw [this]
        exact h.entries
  | put d free legal db others writes holder =>
      exact h.put free legal db others writes holder
  | commit => exact h.commit i

theorem WF.doesAll {w w' : World M} {i : Nat} (h : w.WF) (hd : DoesAll i w w') :
    w'.WF := by
  induction hd with
  | refl => exact h
  | tail _ hstep ih => exact ih.does hstep

theorem WF.exec {w w' : World M} {i : Nat} {c : Choice M} {s : Stmt M X}
    {r : Except M.Exn X} (h : w.WF) (he : w.exec i c s = some (r, w')) : w'.WF :=
  h.doesAll (exec_does he)

theorem WF.flush {w w' : World M} {i : Nat} (h : w.WF)
    (hf : w.flush i = some (.ok (), w')) : w'.WF :=
  h.does (flush_does hf)

theorem WF.reset {w : World M} (h : w.WF) (i : Nat) : (w.reset i).WF :=
  h.does (does_reset w i)

/-! ## What a session can rely on

While a session waits for its turn, it may send what it has staged, and the
others do what they do. -/

/-- Nothing of session `i` has changed, except that some of what it had
staged may have been sent. -/
structure Frame (i : Nat) (w w' : World M) : Prop where
  objects : (w'.tx i).objects = (w.tx i).objects
  aborted : (w'.tx i).aborted = (w.tx i).aborted
  sent : ∃ ds, (w'.tx i).writes = (w.tx i).writes ++ ds ∧
    (w.tx i).dirty = ds ++ (w'.tx i).dirty
  holder : ∀ l, w.holder l = some i → w'.holder l = some i
  rows : ∀ k, w.holder (.row k) = some i → w'.db.lookup k = w.db.lookup k

namespace Frame

variable {i j : Nat} {w w' w'' : World M}

theorem refl (i : Nat) (w : World M) : Frame i w w :=
  ⟨rfl, rfl, ⟨[], by simp⟩, fun _ h => h, fun _ _ => rfl⟩

theorem trans (h : Frame i w w') (h' : Frame i w' w'') : Frame i w w'' := by
  refine ⟨h'.objects.trans h.objects, h'.aborted.trans h.aborted, ?_, ?_, ?_⟩
  · obtain ⟨ds, hw, hd⟩ := h.sent
    obtain ⟨ds', hw', hd'⟩ := h'.sent
    exact ⟨ds ++ ds', by rw [hw', hw, List.append_assoc], by rw [hd, hd', List.append_assoc]⟩
  · exact fun l hl => h'.holder l (h.holder l hl)
  · exact fun k hk => (h'.rows k (h.holder _ hk)).trans (h.rows k hk)

/-- Sent or not, what a session has asked for is the same. -/
theorem asked (h : Frame i w w') :
    (w'.tx i).writes ++ (w'.tx i).dirty = (w.tx i).writes ++ (w.tx i).dirty := by
  obtain ⟨ds, hw, hd⟩ := h.sent
  rw [hw, hd, List.append_assoc]

/-- A row the session holds looks the same with everything staged sent. -/
theorem lookup_staged (h : Frame i w w') {k : Key M} (hk : w.holder (.row k) = some i) :
    (w'.staged i).lookup k = (w.staged i).lookup k := by
  rw [staged, staged, h.asked]
  exact Db.lookup_applyAll_congr (h.rows k hk) _

theorem of_does (hw : w.WF) (hne : j ≠ i) (hd : Does j w w') : Frame i w w' := by
  have key : w'.tx i = w.tx i → (∀ l, w.holder l = some i → w'.holder l = some i) →
      (∀ k, w.holder (.row k) = some i → w'.db.lookup k = w.db.lookup k) → Frame i w w' :=
    fun ht hl hr => ⟨by rw [ht], by rw [ht], ⟨[], by simp [ht]⟩, hl, hr⟩
  have hni : i ≠ j := Ne.symm hne
  cases hd with
  | keep db others writes holder gains =>
      exact key (others i hni) (fun l => holder i l) (fun k _ => by rw [db])
  | clear db others writes holder gains =>
      exact key (others i hni) (fun l => holder i l hni) (fun k _ => by rw [db])
  | put d free legal db others writes holder =>
      refine key (others i hni) ?_ (fun k _ => by rw [db])
      intro l hl
      rw [holder]
      exact acquire_holder_of_free free hl
  | commit =>
      refine key (commit_tx_of_ne w hni) ?_ ?_
      · exact fun l hl => reset_holder_of_ne (w := { w with db := w.view j }) hni hl
      · intro k hk
        exact lookup_view_of_not_touches (hw.not_touches_of_holds hne hk)

theorem of_doesAll (hw : w.WF) (hne : j ≠ i) (hd : DoesAll j w w') : Frame i w w' := by
  induction hd with
  | refl => exact refl i w
  | tail hd hstep ih => exact ih.trans (of_does (hw.doesAll hd) hne hstep)

theorem of_flush (hf : w.flush i = some (.ok (), w')) : Frame i w w' := by
  obtain ⟨d, ds, hd, hfree, -, rfl⟩ := flush_ok hf
  refine ⟨by simp, by simp, ⟨[d], by simp [hd]⟩, ?_, fun _ _ => rfl⟩
  exact fun l hl => acquire_holder_of_free hfree hl

end Frame

end World

end Sessions
