import Adehun.AuthService
import Adehun.Routine.Aside
import Adehun.Sessions.Schedule

/-!
# Refresh tokens are used once

A refresh token should be exchanged once, and a reuse that was detected
should end every session of its owner. Rotation reads the row of the token
without a lock and looks at it once, so two rotations of one token both find
it live, and both go through. The update that ends the sessions is about the
rows it sees when it starts, so a pair that is committed afterwards by a
request that was under way survives it.

`inTurn` is the condition under which none of this happens. A pair is
committed while the token that was presented is still as it was read, and no
reuse has been detected since its request began; and a detection is committed
while the live rows its update has found are all the live rows of the user.
-/

namespace Adehun

open Sessions Observer.Discipline
open Observer (Safe)

/-! ## What happens to tokens -/

def tokens (db : Db adehun) (jti : Id) : Option RefreshToken := db.lookup ⟨.refreshToken, jti⟩

/-- What is seen of tokens. A pair is issued by a request that arrived after
`since` of these had been seen. -/
inductive TokenEvent
  | issued (jti user : Id) (since : Nat)
  | exchanged (jti user : Id)
  | reuseDetected (user : Id)
deriving DecidableEq

def TokenEvent.exchange? : TokenEvent → Option Id
  | .exchanged jti _ => some jti
  | _ => none

/-- What a session has been told of tokens: a row that it asked for, and the
live rows when a query was made. -/
inductive TokenNote
  | read (row : RefreshToken)
  | live (rows : List RefreshToken)

/-- What was seen so far, the request every session serves, and what it has
been told. -/
structure TokenLog where
  events : List TokenEvent := []
  serving : Nat → Option (AuthRequest × Nat) := fun _ => none
  notes : Nat → List TokenNote := fun _ => []

/-- What is noted of an answer. -/
def tokenNote (i : Nat) (w : Sessions.World adehun) :
    {X : Type} → Stmt adehun X → X → List TokenNote
  | _, .get _ ⟨Table.refreshToken, _⟩, found => (found : Option RefreshToken).toList.map .read
  | _, .select _, _ =>
      [.live ((w.view i .refreshToken : List RefreshToken).filter (·.revokedAt.isNone))]
  | _, _, _ => []

def TokenLog.look (i : Nat) (w : Sessions.World adehun) {X : Type} (s : Stmt adehun X) (x : X)
    (o : TokenLog) : TokenLog :=
  { o with notes := Function.update o.notes i (tokenNote i w s x ++ o.notes i) }

/-- The token rows that some writes add. -/
def newTokens (ds : List (Write adehun)) : List RefreshToken :=
  ds.filterMap fun
    | .insert .refreshToken r => some r
    | _ => none

def issuedTokens (rows : List RefreshToken) (since : Nat) : List TokenEvent :=
  rows.map fun r => .issued r.jti r.userId since

/-- What the commit of a request means. A refresh that adds no row ends every
session of the user. -/
def AuthRequest.outcome (since : Nat) (ds : List (Write adehun)) : AuthRequest → List TokenEvent
  | .login _ => issuedTokens (newTokens ds) since
  | .refresh (some payload) =>
      match newTokens ds with
      | [] => [.reuseDetected payload.sub]
      | rows => .exchanged payload.jti payload.sub :: issuedTokens rows since
  | .refresh none => []
  | .logout _ => []

/-- What is seen of tokens, from the commits that write them. -/
abbrev tokenLog : Observer adehun AuthRequest where
  State := TokenLog
  start i r o :=
    { o with
      serving := Function.update o.serving i (some (r, o.events.length))
      notes := Function.update o.notes i [] }
  look i w := TokenLog.look i w
  commit i writes _ _ o :=
    { o with
      events := o.events ++ match o.serving i with
        | some (r, since) => r.outcome since writes
        | none => [] }

/-- A token was issued by a request that arrived after the first `k + 1`
events, and by no other. -/
structure Postdates (events : List TokenEvent) (user jti : Id) (k : Nat) : Prop where
  issued : ∃ since, .issued jti user since ∈ events
  after : ∀ user' since, .issued jti user' since ∈ events → k < since

/-- Every detected reuse of the user's tokens lies before the request that
issued this one. -/
def Outlives (events : List TokenEvent) (user jti : Id) : Prop :=
  ∀ k, events[k]? = some (.reuseDetected user) → Postdates events user jti k

/-- Every token is exchanged at most once, and none that was issued by a
request that began before a reuse was detected. -/
structure UsedOnce (events : List TokenEvent) : Prop where
  once : (events.filterMap TokenEvent.exchange?).Nodup
  outlives : ∀ m jti user, events[m]? = some (.exchanged jti user) →
    Outlives (events.take m) user jti

/-! ## The condition -/

/-- The request a session serves is in turn with what is committed. -/
structure InTurn (r : AuthRequest) (since : Nat) (i : Nat) (w : Sessions.World adehun)
    (o : TokenLog) : Prop where
  /-- A pair replaces a token that is still as it was read. -/
  current : newTokens (w.tx i).writes ≠ [] → ∀ row, .read row ∈ o.notes i →
    tokens w.db row.jti = some row
  /-- No reuse was detected while a pair was being issued. -/
  undisturbed : ∀ row ∈ newTokens (w.tx i).writes,
    .reuseDetected row.userId ∉ o.events.drop since
  /-- The live rows that were found are still all there are of the user. -/
  swept : ∀ payload, r = .refresh (some payload) → newTokens (w.tx i).writes = [] →
    ∀ rows, .live rows ∈ o.notes i → ∀ row ∈ (w.db .refreshToken : List RefreshToken),
      row.liveOf payload.sub = true → row.jti ∈ rows.map (·.jti)

/-- Requests commit in turn. -/
def inTurn (o : TokenLog) : Guard adehun where
  exec w i s _ :=
    match s with
    | .commit => ∀ r since, o.serving i = some (r, since) → InTurn r since i w o
    | _ => True

/-- `InTurn`, tested. -/
def InTurn.test (r : AuthRequest) (since : Nat) (i : Nat) (w : Sessions.World adehun)
    (o : TokenLog) : Bool :=
  let issued := newTokens (w.tx i).writes
  (issued.isEmpty || (o.notes i).all fun
    | .read row => decide (tokens w.db row.jti = some row)
    | .live _ => true) &&
  (issued.all fun row => decide (.reuseDetected row.userId ∉ o.events.drop since)) &&
  match r with
  | .refresh (some payload) => !issued.isEmpty || (o.notes i).all fun
      | .read _ => true
      | .live rows => (w.db .refreshToken : List RefreshToken).all fun row =>
          !row.liveOf payload.sub || decide (row.jti ∈ rows.map (·.jti))
  | _ => true

theorem inTurn_of_test {r : AuthRequest} {since i : Nat} {w : Sessions.World adehun} {o : TokenLog}
    (h : InTurn.test r since i w o = true) : InTurn r since i w o := by
  simp only [InTurn.test, Bool.and_eq_true] at h
  obtain ⟨⟨hcurrent, hcalm⟩, hswept⟩ := h
  refine ⟨fun hne row hrow => ?_, fun row hrow => ?_, ?_⟩
  · rw [Bool.or_eq_true, List.isEmpty_iff] at hcurrent
    exact of_decide_eq_true (List.all_eq_true.mp (hcurrent.resolve_left hne) _ hrow)
  · exact of_decide_eq_true (List.all_eq_true.mp hcalm row hrow)
  · rintro payload rfl hnil rows hrows row hrow hlive
    simp only [hnil, List.isEmpty_nil, Bool.not_true, Bool.false_or] at hswept
    have hall := List.all_eq_true.mp (List.all_eq_true.mp hswept _ hrows) row hrow
    rw [hlive] at hall
    simpa using hall

/-- `inTurn`, tested. -/
def inTurn.test (o : TokenLog) : (inTurn o).Test where
  exec w i s _ :=
    match s with
    | .commit =>
        match o.serving i with
        | some (r, since) => InTurn.test r since i w o
        | none => true
    | _ => true
  exec_sound := by
    intro X w i s c h
    cases s with
    | commit =>
        intro r since hserving
        simp only [hserving] at h
        exact inTurn_of_test h
    | _ => trivial
  flush_sound _ := trivial

/-! ## Tokens and what was seen of them -/

section Events

variable {events : List TokenEvent} {e : TokenEvent} {user jti k : Nat}

theorem Postdates.concat (h : Postdates events user jti k)
    (he : ∀ user' since, e ≠ .issued jti user' since) :
    Postdates (events ++ [e]) user jti k where
  issued := by
    obtain ⟨since, hs⟩ := h.issued
    exact ⟨since, List.mem_append_left _ hs⟩
  after user' since hs := by
    rcases List.mem_append.mp hs with hs | hs
    · exact h.after user' since hs
    · exact absurd (List.mem_singleton.mp hs).symm (he user' since)

/-- An event added is the last one, and the others stay where they are. -/
theorem getElem?_concat {e' : TokenEvent} (h : (events ++ [e])[k]? = some e') :
    events[k]? = some e' ∨ k = events.length ∧ e = e' := by
  rcases Nat.lt_trichotomy k events.length with hk | hk | hk
  · rw [List.getElem?_append_left hk] at h
    exact Or.inl h
  · subst hk
    rw [List.getElem?_append_right (Nat.le_refl _), Nat.sub_self] at h
    exact Or.inr ⟨rfl, Option.some.inj h⟩
  · have hnone : (events ++ [e])[k]? = none := by
      rw [List.getElem?_eq_none_iff, List.length_append, List.length_singleton]
      omega
    rw [hnone] at h
    cases h

theorem Outlives.concat (h : Outlives events user jti) (hreuse : e ≠ .reuseDetected user)
    (he : ∀ user' since, e ≠ .issued jti user' since) : Outlives (events ++ [e]) user jti := by
  intro k hk
  rcases getElem?_concat hk with hk | ⟨-, hk⟩
  · exact (h k hk).concat he
  · exact absurd hk hreuse

/-- An exchange is in order if its token was not exchanged before, and was
issued after every reuse that was detected. -/
theorem UsedOnce.concat (h : UsedOnce events)
    (he : ∀ jti user, e = .exchanged jti user →
      jti ∉ events.filterMap TokenEvent.exchange? ∧ Outlives events user jti) :
    UsedOnce (events ++ [e]) where
  once := by
    rw [List.filterMap_append]
    cases hx : e.exchange? with
    | none =>
        rw [List.filterMap_cons_none hx, List.filterMap_nil, List.append_nil]
        exact h.once
    | some jti =>
        rw [List.filterMap_cons_some hx, List.filterMap_nil, ← List.concat_eq_append,
          List.nodup_concat]
        cases e with
        | exchanged jti' user =>
            cases hx
            exact ⟨(he _ _ rfl).1, h.once⟩
        | issued _ _ _ => cases hx
        | reuseDetected _ => cases hx
  outlives m jti user hm := by
    rcases getElem?_concat hm with hm | ⟨rfl, hlast⟩
    · have hlt : m < events.length := (List.getElem?_eq_some_iff.mp hm).1
      rw [List.take_append_of_le_length (Nat.le_of_lt hlt)]
      exact h.outlives m jti user hm
    · rw [List.take_left]
      exact (he jti user hlast).2

end Events

/-- The rows of a store of tokens agree with what was seen of them. -/
structure Accounted (find : Id → Option RefreshToken) (events : List TokenEvent) : Prop where
  unspent : ∀ jti row, find jti = some row → row.revokedAt = none → row.replacedByJti = none
  spent : ∀ jti ∈ events.filterMap TokenEvent.exchange?,
    ∃ row, find jti = some row ∧ row.replacedByJti ≠ none
  live : ∀ jti row, find jti = some row → row.revokedAt = none → Outlives events row.userId jti
  known : ∀ jti user since, .issued jti user since ∈ events → (find jti).isSome
  used : UsedOnce events

/-- A row that stays with its user, and stays revoked. -/
structure RefreshToken.Remains (before after : RefreshToken) : Prop where
  user : after.userId = before.userId
  revoked : before.revokedAt ≠ none → after.revokedAt ≠ none

/-- A row some of whose sessions may have been ended. -/
structure RefreshToken.Wears (before after : RefreshToken) : Prop extends
    before.Remains after where
  successor : after.replacedByJti = before.replacedByJti

theorem RefreshToken.remains_refl (row : RefreshToken) : row.Remains row := ⟨rfl, fun h => h⟩

theorem RefreshToken.Remains.trans {a b c : RefreshToken} (h : a.Remains b) (h' : b.Remains c) :
    a.Remains c :=
  ⟨h'.user.trans h.user, fun ha => h'.revoked (h.revoked ha)⟩

theorem RefreshToken.wears_refl (row : RefreshToken) : row.Wears row :=
  ⟨row.remains_refl, rfl⟩

theorem RefreshToken.Wears.trans {a b c : RefreshToken} (h : a.Wears b) (h' : b.Wears c) :
    a.Wears c :=
  ⟨h.toRemains.trans h'.toRemains, h'.successor.trans h.successor⟩

/-- Rows may be revoked in a store, and nothing else. -/
def Wears (find find' : Id → Option RefreshToken) : Prop :=
  ∀ jti, Option.Rel RefreshToken.Wears (find jti) (find' jti)

theorem Wears.forth {find find' : Id → Option RefreshToken} {row : RefreshToken}
    (hw : Wears find find') {jti : Id} (hf : find jti = some row) :
    ∃ row', find' jti = some row' ∧ row.Wears row' := by
  have hrel := hw jti
  rw [hf] at hrel
  cases hf' : find' jti with
  | none =>
      rw [hf'] at hrel
      cases hrel
  | some row' =>
      rw [hf'] at hrel
      cases hrel with
      | some hrel => exact ⟨row', rfl, hrel⟩

theorem Wears.back {find find' : Id → Option RefreshToken} {row : RefreshToken}
    (hw : Wears find find') {jti : Id} (hf' : find' jti = some row) :
    ∃ row₀, find jti = some row₀ ∧ row₀.Wears row := by
  have hrel := hw jti
  rw [hf'] at hrel
  cases hf : find jti with
  | none =>
      rw [hf] at hrel
      cases hrel
  | some row₀ =>
      rw [hf] at hrel
      cases hrel with
      | some hrel => exact ⟨row₀, rfl, hrel⟩

namespace Accounted

variable {find find' : Id → Option RefreshToken} {events : List TokenEvent}

theorem wears (h : Accounted find events) (hw : Wears find find') : Accounted find' events := by
  refine ⟨?_, ?_, ?_, ?_, h.used⟩
  · intro jti row' hrow hlive
    obtain ⟨row, hf, hworn⟩ := hw.back hrow
    rw [hworn.successor]
    refine h.unspent jti row hf ?_
    by_contra hne
    exact hworn.revoked hne hlive
  · intro jti hjti
    obtain ⟨row, hf, hspent⟩ := h.spent jti hjti
    obtain ⟨row', hf', hworn⟩ := hw.forth hf
    exact ⟨row', hf', by rwa [hworn.successor]⟩
  · intro jti row' hrow hlive
    obtain ⟨row, hf, hworn⟩ := hw.back hrow
    rw [hworn.user]
    refine h.live jti row hf ?_
    by_contra hne
    exact hworn.revoked hne hlive
  · intro jti user since hissued
    obtain ⟨row, hf⟩ := Option.isSome_iff_exists.mp (h.known jti user since hissued)
    obtain ⟨row', hf', -⟩ := hw.forth hf
    rw [hf']
    rfl

/-- A reuse is detected, and no row of the user is live. -/
theorem detect (h : Accounted find events) {user : Id}
    (hdead : ∀ jti row, find jti = some row → row.userId = user → row.revokedAt ≠ none) :
    Accounted find (events ++ [.reuseDetected user]) := by
  have hexchanges : (events ++ [TokenEvent.reuseDetected user]).filterMap
      TokenEvent.exchange? = events.filterMap TokenEvent.exchange? := by
    rw [List.filterMap_append]
    exact List.append_nil _
  refine ⟨h.unspent, ?_, ?_, ?_, h.used.concat fun _ _ he => by cases he⟩
  · rw [hexchanges]
    exact h.spent
  · intro jti row hf hlive
    refine (h.live jti row hf hlive).concat ?_ fun _ _ he => by cases he
    rintro ⟨⟩
    exact hdead jti row hf rfl hlive
  · intro jti user' since hissued
    rcases List.mem_append.mp hissued with hissued | hissued
    · exact h.known jti user' since hissued
    · cases List.mem_singleton.mp hissued

/-- A row of a store into which one was put is that one, or an old one. -/
theorem row_of_update {jti jti' : Id} {row r : RefreshToken}
    (hr : Function.update find jti (some row) jti' = some r) :
    (jti' = jti ∧ row = r) ∨ (jti' ≠ jti ∧ find jti' = some r) := by
  by_cases hj : jti' = jti
  · subst hj
    rw [Function.update_self, Option.some.injEq] at hr
    exact Or.inl ⟨rfl, hr⟩
  · rw [Function.update_of_ne hj] at hr
    exact Or.inr ⟨hj, hr⟩

theorem isSome_update {jti jti' : Id} {row : RefreshToken} (h : jti' ≠ jti → (find jti').isSome) :
    (Function.update find jti (some row) jti').isSome := by
  by_cases hj : jti' = jti
  · subst hj
    rw [Function.update_self]
    rfl
  · rw [Function.update_of_ne hj]
    exact h hj

/-- A token is exchanged that has no successor. -/
theorem exchange (h : Accounted find events) {jti : Id} {row row' : RefreshToken} {user : Id}
    (hf : find jti = some row) (hunspent : row.replacedByJti = none)
    (hout : Outlives events user jti) (hrevoked : row'.revokedAt ≠ none)
    (hspent : row'.replacedByJti ≠ none) :
    Accounted (Function.update find jti (some row')) (events ++ [.exchanged jti user]) := by
  have hnew : jti ∉ events.filterMap TokenEvent.exchange? := by
    intro hjti
    obtain ⟨r, hr, hs⟩ := h.spent jti hjti
    rw [hf, Option.some.injEq] at hr
    subst hr
    exact hs hunspent
  refine ⟨?_, ?_, ?_, ?_, h.used.concat ?_⟩
  · intro jti' r hr hlive
    rcases row_of_update hr with ⟨-, rfl⟩ | ⟨-, hr⟩
    · exact absurd hlive hrevoked
    · exact h.unspent jti' r hr hlive
  · intro jti' hjti'
    by_cases hj : jti' = jti
    · subst hj
      exact ⟨row', Function.update_self .., hspent⟩
    · rw [Function.update_of_ne hj]
      rw [List.filterMap_append, List.mem_append] at hjti'
      rcases hjti' with hjti' | hjti'
      · exact h.spent jti' hjti'
      · exact absurd (List.mem_singleton.mp hjti') hj
  · intro jti' r hr hlive
    rcases row_of_update hr with ⟨-, rfl⟩ | ⟨-, hr⟩
    · exact absurd hlive hrevoked
    · exact (h.live jti' r hr hlive).concat (fun he => by cases he) fun _ _ he => by cases he
  · intro jti' user' since hissued
    rcases List.mem_append.mp hissued with hissued | hissued
    · exact isSome_update fun _ => h.known jti' user' since hissued
    · cases List.mem_singleton.mp hissued
  · rintro jti' user' ⟨⟩
    exact ⟨hnew, hout⟩

/-- A token that was never issued postdates whatever its request does. -/
theorem outlives_issued {jti user since : Nat}
    (hnever : ∀ user' since', .issued jti user' since' ∉ events)
    (hcalm : ∀ k, since ≤ k → events[k]? ≠ some (.reuseDetected user)) :
    Outlives (events ++ [.issued jti user since]) user jti := by
  intro k hk
  rcases getElem?_concat hk with hk | ⟨-, hk⟩
  · refine ⟨⟨since, List.mem_append_right _ (List.mem_singleton_self _)⟩, ?_⟩
    intro user' since' hissued
    rcases List.mem_append.mp hissued with hissued | hissued
    · exact absurd hissued (hnever user' since')
    · cases List.mem_singleton.mp hissued
      by_contra hle
      exact hcalm k (Nat.not_lt.mp hle) hk
  · cases hk

/-- A token is issued by a request during which no reuse was detected. -/
theorem issue (h : Accounted find events) {row : RefreshToken} {since : Nat}
    (hfresh : find row.jti = none) (hunspent : row.replacedByJti = none)
    (hcalm : ∀ k, since ≤ k → events[k]? ≠ some (.reuseDetected row.userId)) :
    Accounted (Function.update find row.jti (some row))
      (events ++ [.issued row.jti row.userId since]) := by
  have hnever : ∀ user' since', .issued row.jti user' since' ∉ events := by
    intro user' since' hissued
    have := h.known row.jti user' since' hissued
    rw [hfresh] at this
    cases this
  have hexchanges : (events ++ [TokenEvent.issued row.jti row.userId since]).filterMap
      TokenEvent.exchange? = events.filterMap TokenEvent.exchange? := by
    rw [List.filterMap_append]
    exact List.append_nil _
  refine ⟨?_, ?_, ?_, ?_, h.used.concat fun _ _ he => by cases he⟩
  · intro jti r hr hlive
    rcases row_of_update hr with ⟨-, rfl⟩ | ⟨-, hr⟩
    · exact hunspent
    · exact h.unspent jti r hr hlive
  · rw [hexchanges]
    intro jti hjti
    obtain ⟨r, hr, hs⟩ := h.spent jti hjti
    have hj : jti ≠ row.jti := by
      rintro rfl
      rw [hfresh] at hr
      cases hr
    exact ⟨r, by rwa [Function.update_of_ne hj], hs⟩
  · intro jti r hr hlive
    rcases row_of_update hr with ⟨rfl, rfl⟩ | ⟨hj, hr⟩
    · exact outlives_issued hnever hcalm
    · refine (h.live jti r hr hlive).concat (fun he => by cases he) ?_
      rintro user' since' ⟨⟩
      exact hj rfl
  · intro jti user' since' hissued
    refine isSome_update fun hj => ?_
    rcases List.mem_append.mp hissued with hissued | hissued
    · exact h.known jti user' since' hissued
    · cases List.mem_singleton.mp hissued
      exact absurd rfl hj

end Accounted

/-! ## What a commit does -/

/-- What a commit does: the rows agree with what was seen, and stay with their
users. -/
structure Accounts (find find' : Id → Option RefreshToken) (events events' : List TokenEvent) :
    Prop where
  accounted : Accounted find' events'
  still : ∀ jti row, find jti = some row → ∃ row', find' jti = some row' ∧ row.Remains row'
  longer : events.length ≤ events'.length

section Accounts

variable {find find' find'' : Id → Option RefreshToken} {events events' events'' : List TokenEvent}
  {row : RefreshToken} {since : Nat}

theorem Accounts.trans (h : Accounts find find' events events')
    (h' : Accounts find' find'' events' events'') : Accounts find find'' events events'' where
  accounted := h'.accounted
  still jti row hf := by
    obtain ⟨row', hf', hstill⟩ := h.still jti row hf
    obtain ⟨row'', hf'', hstill'⟩ := h'.still jti row' hf'
    exact ⟨row'', hf'', hstill.trans hstill'⟩
  longer := Nat.le_trans h.longer h'.longer

theorem Accounted.accounts_wears (h : Accounted find events) (hw : Wears find find') :
    Accounts find find' events events where
  accounted := h.wears hw
  still _ _ hf := by
    obtain ⟨row', hf', hworn⟩ := hw.forth hf
    exact ⟨row', hf', hworn.toRemains⟩
  longer := Nat.le_refl _

theorem Accounted.accounts_detect (h : Accounted find events) {user : Id}
    (hdead : ∀ jti row, find jti = some row → row.userId = user → row.revokedAt ≠ none) :
    Accounts find find events (events ++ [.reuseDetected user]) where
  accounted := h.detect hdead
  still _ row hf := ⟨row, hf, row.remains_refl⟩
  longer := by
    rw [List.length_append]
    exact Nat.le_add_right _ _

/-- A row is put in the place of another one, or where there was none. -/
theorem still_update {row' : RefreshToken} {jti : Id}
    (hrow : ∀ row, find jti = some row → row.Remains row') :
    ∀ jti' row, find jti' = some row → ∃ row'', Function.update find jti (some row') jti' =
      some row'' ∧ row.Remains row'' := by
  intro jti' row hf
  by_cases hj : jti' = jti
  · subst hj
    exact ⟨row', Function.update_self .., hrow row hf⟩
  · exact ⟨row, by rw [Function.update_of_ne hj, hf], row.remains_refl⟩

theorem Accounted.accounts_exchange (h : Accounted find events) {row' : RefreshToken}
    {user jti : Id} (hf : find jti = some row) (hunspent : row.replacedByJti = none)
    (hout : Outlives events user jti) (hremains : row.Remains row')
    (hrevoked : row'.revokedAt ≠ none) (hspent : row'.replacedByJti ≠ none) :
    Accounts find (Function.update find jti (some row')) events
      (events ++ [.exchanged jti user]) where
  accounted := h.exchange hf hunspent hout hrevoked hspent
  still := by
    refine still_update fun row₀ hf₀ => ?_
    rw [hf] at hf₀
    cases hf₀
    exact hremains
  longer := by
    rw [List.length_append]
    exact Nat.le_add_right _ _

theorem Accounted.accounts_issue (h : Accounted find events) (hfresh : find row.jti = none)
    (hunspent : row.replacedByJti = none)
    (hcalm : ∀ k, since ≤ k → events[k]? ≠ some (.reuseDetected row.userId)) :
    Accounts find (Function.update find row.jti (some row)) events
      (events ++ [.issued row.jti row.userId since]) where
  accounted := h.issue hfresh hunspent hcalm
  still := by
    refine still_update fun row₀ hf₀ => ?_
    rw [hfresh] at hf₀
    cases hf₀
  longer := by
    rw [List.length_append]
    exact Nat.le_add_right _ _

end Accounts

/-! ## The table of tokens -/

/-- The writes to the table of tokens. -/
def tokenWrites (ds : List (Write adehun)) : List (Write adehun) :=
  ds.filter fun d => d.key.table = .refreshToken

/-- What a session has written of tokens, or is to send. -/
def pendingTokens (i : Nat) (w : Sessions.World adehun) : List (Write adehun) :=
  tokenWrites ((w.tx i).writes ++ (w.tx i).dirty)

theorem tokens_applyAll (db : Db adehun) (ds : List (Write adehun)) :
    tokens (db.applyAll ds) = tokens (db.applyAll (tokenWrites ds)) := by
  funext jti
  have htable := Db.applyAll_table (M := adehun) Table.refreshToken ds (rfl : db _ = db _)
  simp only [tokens, Db.lookup, htable]
  rfl

theorem newTokens_tokenWrites (ds : List (Write adehun)) :
    newTokens (tokenWrites ds) = newTokens ds := by
  unfold newTokens tokenWrites
  rw [List.filterMap_filter]
  congr 1
  funext d
  split
  · rfl
  · next hd =>
      cases d with
      | insert t r =>
          cases t with
          | refreshToken => exact absurd rfl hd
          | _ => rfl
      | update t id f => rfl
      | delete t id => rfl

theorem tokens_insert {db : Db adehun} {row : RefreshToken} (hfresh : tokens db row.jti = none) :
    tokens ((Write.insert .refreshToken row : Write adehun).apply db) =
      Function.update (tokens db) row.jti (some row) := by
  funext jti
  have hlookup := Write.lookup_insert (M := adehun) db .refreshToken row jti
  by_cases hj : jti = row.jti
  · subst hj
    rw [Function.update_self]
    exact Write.lookup_insert_self (M := adehun) hfresh
  · rw [Function.update_of_ne hj]
    refine hlookup.trans ?_
    rw [if_neg (show rowId (t := .refreshToken) row ≠ jti from fun he => hj he.symm)]
    exact Option.or_none

theorem tokens_update (db : Db adehun) (jti : Id) (f : Patch adehun .refreshToken) :
    tokens ((Write.update .refreshToken jti f : Write adehun).apply db) =
      Function.update (tokens db) jti ((tokens db jti).map f.run) := by
  funext jti'
  refine (Write.lookup_update (M := adehun) db .refreshToken jti jti' f).trans ?_
  by_cases hj : jti' = jti
  · subst hj
    rw [Function.update_self]
    simp only [if_true]
    rfl
  · rw [Function.update_of_ne hj]
    simp only [if_neg hj]
    exact Option.map_id'

/-- A write that revokes a row, and nothing else. -/
def Wearing (d : Write adehun) : Prop :=
  ∃ jti f, d = .update .refreshToken jti f ∧
    ∀ r : RefreshToken, r.Wears (f.run r) ∧ (f.run r : RefreshToken).revokedAt ≠ none

theorem Wearing.wears {d : Write adehun} (hd : Wearing d) (db : Db adehun) :
    Wears (tokens db) (tokens (d.apply db)) := by
  obtain ⟨jti, f, rfl, hf⟩ := hd
  rw [tokens_update]
  intro jti'
  by_cases hj : jti' = jti
  · subst hj
    rw [Function.update_self]
    cases tokens db jti' with
    | none => exact .none
    | some r => exact .some (hf r).1
  · rw [Function.update_of_ne hj]
    cases tokens db jti' with
    | none => exact .none
    | some r => exact .some r.wears_refl

theorem Wears.trans {a b c : Id → Option RefreshToken} (h : Wears a b) (h' : Wears b c) :
    Wears a c := by
  intro jti
  have hab := h jti
  have hbc := h' jti
  generalize a jti = x, b jti = y, c jti = z at hab hbc
  cases hab with
  | none =>
      cases hbc with
      | none => exact .none
  | some hab =>
      cases hbc with
      | some hbc => exact .some (hab.trans hbc)

theorem wears_applyAll {ds : List (Write adehun)} (hds : ∀ d ∈ ds, Wearing d) (db : Db adehun) :
    Wears (tokens db) (tokens (db.applyAll ds)) := by
  induction ds generalizing db with
  | nil =>
      intro jti
      rw [Db.applyAll_nil]
      cases tokens db jti with
      | none => exact .none
      | some r => exact .some r.wears_refl
  | cons d ds ih =>
      have hd := (hds d List.mem_cons_self).wears db
      exact hd.trans (ih (fun d' hd' => hds d' (List.mem_cons_of_mem d hd')) (d.apply db))

/-- What one of the writes is about is revoked. -/
theorem revoked_applyAll {ds : List (Write adehun)} (hds : ∀ d ∈ ds, Wearing d) {db : Db adehun}
    {jti : Id} (hmem : ∃ d ∈ ds, d.key = ⟨Table.refreshToken, jti⟩) {row : RefreshToken}
    (hrow : tokens (db.applyAll ds) jti = some row) : row.revokedAt ≠ none := by
  obtain ⟨d, hd, hk⟩ := hmem
  obtain ⟨ds₁, ds₂, rfl⟩ := List.append_of_mem hd
  obtain ⟨jti', f, rfl, hf⟩ := hds d hd
  obtain rfl : jti' = jti := by
    cases hk
    rfl
  rw [Db.applyAll_append, Db.applyAll_cons] at hrow
  have hlater : ∀ d ∈ ds₂, Wearing d := fun d hd =>
    hds d (List.mem_append_right _ (List.mem_cons_of_mem _ hd))
  obtain ⟨row₁, hrow₁, hworn⟩ := (wears_applyAll hlater _).back hrow
  rw [tokens_update, Function.update_self] at hrow₁
  obtain ⟨row₀, -, rfl⟩ := Option.map_eq_some_iff.mp hrow₁
  exact hworn.revoked (hf row₀).2

theorem newTokens_wearing {ds : List (Write adehun)} (hds : ∀ d ∈ ds, Wearing d) :
    newTokens ds = [] := by
  unfold newTokens
  rw [List.filterMap_eq_nil_iff]
  intro d hd
  obtain ⟨jti, f, rfl, -⟩ := hds d hd
  rfl

/-! ## Where a session is with the token it was shown -/

/-- A change of a row that consumes it. -/
structure Consumes (f : Patch adehun .refreshToken) : Prop where
  remains : ∀ r : RefreshToken, r.Remains (f.run r)
  revoked : ∀ r : RefreshToken, (f.run r : RefreshToken).revokedAt ≠ none
  spent : ∀ r : RefreshToken, r.replacedByJti = none → (f.run r : RefreshToken).replacedByJti ≠ none

/-- A row that has no successor while it is live. -/
def RefreshToken.Unspent (row : RefreshToken) : Prop :=
  row.revokedAt = none → row.replacedByJti = none

/-- A session has written no token; it has read one; it revokes one; it revokes
those of a user that it has found live, some of which are left; it has
written the end of a token, and its successor; or a new token. -/
inductive TokenPhase
  | idle
  | sighted (row : RefreshToken)
  | ending
  | sweeping (user : Id) (seen : List RefreshToken) (left : List Id)
  | rotating (row : RefreshToken)
  | rotated (row new : RefreshToken)
  | issuing (new : RefreshToken)

/-- The objects of a session are rows that were in order when it read them. -/
def ObjectsUnspent (i : Nat) (w : Sessions.World adehun) (events : List TokenEvent) : Prop :=
  Accounted (tokens w.db) events → ∀ jti, ∀ row : RefreshToken,
    (w.tx i).objects ⟨.refreshToken, jti⟩ = some row → row.jti = jti ∧ row.Unspent

/-- A token of the user is revoked, or will be by what the session has
written. -/
def Retired (i : Nat) (w : Sessions.World adehun) (user jti : Id) : Prop :=
  (∃ d ∈ pendingTokens i w, d.key = ⟨Table.refreshToken, jti⟩) ∨
    ∃ row, tokens w.db jti = some row ∧ row.liveOf user = false

/-- The rows a session has found live are there, and those of the user are
ended but for some. -/
structure Swept (i : Nat) (w : Sessions.World adehun) (user : Id) (seen : List RefreshToken)
    (left : List Id) : Prop where
  wearing : ∀ d ∈ pendingTokens i w, Wearing d
  there : ∀ row ∈ seen, ∃ now, tokens w.db row.jti = some now ∧ now.userId = row.userId
  ended : ∀ row ∈ seen, row.userId = user → row.jti ∈ left ∨ Retired i w user row.jti

def TokenPhase.Holds (i : Nat) (w : Sessions.World adehun) (events : List TokenEvent) :
    TokenPhase → Prop
  | .idle => pendingTokens i w = [] ∧ ObjectsUnspent i w events
  | .sighted row => pendingTokens i w = [] ∧ row.Unspent
  | .ending => ∀ d ∈ pendingTokens i w, Wearing d
  | .sweeping user seen left => Swept i w user seen left
  | .rotating row => ∃ f, Consumes f ∧ pendingTokens i w = [.update .refreshToken row.jti f]
  | .rotated row new => ∃ f, Consumes f ∧ pendingTokens i w =
      [.update .refreshToken row.jti f, .insert .refreshToken new]
  | .issuing new => pendingTokens i w = [.insert .refreshToken new]

/-- What a session goes by it has been told. -/
def TokenPhase.Told (notes : List TokenNote) : TokenPhase → Prop
  | .sighted row | .rotating row | .rotated row _ => .read row ∈ notes
  | .sweeping _ seen _ => .live seen ∈ notes
  | _ => True

structure TokenGhost where
  request : AuthRequest
  phase : TokenPhase

structure TokenGhost.Owns (g : TokenGhost) (i : Nat) (w : Sessions.World adehun) (o : TokenLog) :
    Prop where
  serving : ∃ since, o.serving i = some (g.request, since) ∧ since ≤ o.events.length
  told : g.phase.Told (o.notes i)
  holds : g.phase.Holds i w o.events

/-- Whether a session may commit: not when only half of a rotation is
written, and a refresh that writes no pair has ended every session. -/
def TokenGhost.Commits (g : TokenGhost) : Prop :=
  match g.phase with
  | .idle | .ending => ∀ payload, g.request ≠ .refresh (some payload)
  | .sighted _ | .rotating _ => False
  | .sweeping user _ left => left = [] ∧
      ∃ payload, g.request = .refresh (some payload) ∧ payload.sub = user
  | .rotated row new => row.revokedAt = none ∧ new.replacedByJti = none ∧
      ∃ payload, g.request = .refresh (some payload) ∧ row.jti = payload.jti ∧
        row.userId = payload.sub ∧ new.userId = payload.sub
  | .issuing new => new.replacedByJti = none ∧ ∃ identity, g.request = .login identity

def TokenGhost.idle (g : TokenGhost) : TokenGhost := { g with phase := .idle }

section Owns

variable {g : TokenGhost} {i j since : Nat} {w w' : Sessions.World adehun} {o : TokenLog}
  {events events' : List TokenEvent} {user : Id} {seen : List RefreshToken} {left : List Id}

theorem pendingTokens_congr (htx : w'.tx i = w.tx i) : pendingTokens i w' = pendingTokens i w := by
  rw [pendingTokens, htx]
  rfl

theorem pendingTokens_of_fresh {b : Bool} (htx : w'.tx i = { aborted := b }) :
    pendingTokens i w' = [] := by
  rw [pendingTokens, htx]
  rfl

/-- A session that has just begun or lost its transaction. -/
theorem TokenPhase.holds_idle {b : Bool} (htx : w'.tx i = { aborted := b }) :
    TokenPhase.idle.Holds i w' events := by
  refine ⟨pendingTokens_of_fresh htx, ?_⟩
  intro _ jti row hrow
  rw [htx] at hrow
  cases hrow

theorem Swept.same (h : Swept i w user seen left) (hdb : w'.db = w.db)
    (hpending : pendingTokens i w' = pendingTokens i w) : Swept i w' user seen left := by
  refine ⟨?_, ?_, ?_⟩
  · rw [hpending]
    exact h.wearing
  · rw [hdb]
    exact h.there
  · simp only [Retired, hpending, hdb]
    exact h.ended

/-- What does not change what is pending, nor an object of an idle session. -/
theorem TokenPhase.Holds.same {p : TokenPhase} (h : p.Holds i w events)
    (hdb : w'.db = w.db) (hpending : pendingTokens i w' = pendingTokens i w)
    (hobjects : p = .idle → ObjectsUnspent i w' events) : p.Holds i w' events := by
  cases p with
  | idle => exact ⟨hpending.trans h.1, hobjects rfl⟩
  | sighted row => exact ⟨hpending.trans h.1, h.2⟩
  | ending =>
      intro d hd
      rw [hpending] at hd
      exact h d hd
  | sweeping user seen left => exact Swept.same h hdb hpending
  | rotating row =>
      obtain ⟨f, hf, hp⟩ := h
      exact ⟨f, hf, hpending.trans hp⟩
  | rotated row new =>
      obtain ⟨f, hf, hp⟩ := h
      exact ⟨f, hf, hpending.trans hp⟩
  | issuing new => exact hpending.trans h

theorem TokenPhase.Holds.congr {p : TokenPhase} (h : p.Holds i w events)
    (hdb : w'.db = w.db) (htx : w'.tx i = w.tx i) : p.Holds i w' events := by
  refine h.same hdb (pendingTokens_congr htx) ?_
  rintro rfl
  intro hacc jti row hrow
  rw [hdb] at hacc
  rw [htx] at hrow
  exact h.2 hacc jti row hrow

/-- The view of a session that has written no token. -/
theorem tokens_view_of_nil (h : tokenWrites (w.tx i).writes = []) :
    tokens (w.view i) = tokens w.db := by
  rw [World.view, tokens_applyAll, h]
  rfl

theorem tokenWrites_of_dirty_nil (hd : (w.tx i).dirty = []) :
    tokenWrites (w.tx i).writes = pendingTokens i w := by
  rw [pendingTokens, hd, List.append_nil]

theorem tokenWrites_of_pending_nil (h : pendingTokens i w = []) :
    tokenWrites (w.tx i).writes = [] :=
  (List.append_eq_nil_iff.mp ((List.filter_append ..).symm.trans h)).1

/-- A query remembers the committed row of a token. -/
theorem ObjectsUnspent.remember (h : ObjectsUnspent i w events)
    (hpending : pendingTokens i w = []) (k : Key adehun) :
    ObjectsUnspent i (w.remember i k ((w.view i).lookup k)) events := by
  intro hacc jti row hrow
  by_cases hk : k = ⟨Table.refreshToken, jti⟩
  · subst hk
    simp only [World.remember, World.setTx_tx_self, Function.update_self] at hrow
    have hview : tokens (w.view i) jti = some row := hrow
    rw [tokens_view_of_nil (tokenWrites_of_pending_nil hpending)] at hview
    exact ⟨Db.lookup_id hview, hacc.unspent jti row hview⟩
  · simp only [World.remember, World.setTx_tx_self, Function.update_of_ne (Ne.symm hk)] at hrow
    exact h hacc jti row hrow

theorem TokenPhase.Holds.remember {p : TokenPhase} (h : p.Holds i w events) (k : Key adehun) :
    p.Holds i (w.remember i k ((w.view i).lookup k)) events := by
  refine h.same rfl ?_ ?_
  · simp only [pendingTokens, World.remember, World.setTx_tx_self]
  · rintro rfl
    exact h.2.remember h.1 k

/-- A write that is sent stays pending until the commit. -/
theorem TokenPhase.Holds.send {p : TokenPhase} (h : p.Holds i w events) {d : Write adehun}
    {ds : List (Write adehun)} (hd : (w.tx i).dirty = d :: ds) :
    p.Holds i ((w.put i d).setTx i
      { w.tx i with writes := (w.tx i).writes ++ [d], dirty := ds }) events := by
  refine h.same rfl ?_ ?_
  · simp only [pendingTokens, World.setTx_tx_self, hd, List.append_assoc, List.singleton_append]
  · rintro rfl
    intro hacc jti row hrow
    rw [World.setTx_tx_self] at hrow
    exact h.2 hacc jti row hrow

theorem RefreshToken.Remains.not_live {row row' : RefreshToken} (h : row.Remains row')
    (hlive : row.liveOf user = false) : row'.liveOf user = false := by
  by_contra hne
  rw [Bool.not_eq_false, RefreshToken.liveOf, Bool.and_eq_true, decide_eq_true_eq, h.user,
    Option.isNone_iff_eq_none] at hne
  have hnone : row.revokedAt = none := by
    by_contra hrevoked
    exact h.revoked hrevoked hne.2
  simp [RefreshToken.liveOf, hne.1, hnone] at hlive

/-- What another session commits brings no token back. -/
theorem Swept.commit (h : Swept j w user seen left) (hne : j ≠ i)
    (hc : Accounts (tokens w.db) (tokens (w.view i)) events events') :
    Swept j (w.commit i) user seen left := by
  have hpending : pendingTokens j (w.commit i) = pendingTokens j w :=
    pendingTokens_congr (World.commit_tx_of_ne w hne)
  refine ⟨?_, fun row hrow => ?_, fun row hrow huser => ?_⟩
  · rw [hpending]
    exact h.wearing
  · obtain ⟨now, hnow, hsame⟩ := h.there row hrow
    obtain ⟨now', hnow', hstill⟩ := hc.still row.jti now hnow
    exact ⟨now', hnow', hstill.user.trans hsame⟩
  · rcases h.ended row hrow huser with hleft | hmem | ⟨now, hnow, hdead⟩
    · exact Or.inl hleft
    · exact Or.inr (Or.inl (by rwa [hpending]))
    · obtain ⟨now', hnow', hstill⟩ := hc.still row.jti now hnow
      exact Or.inr (Or.inr ⟨now', hnow', hstill.not_live hdead⟩)

/-- The commit of another session. -/
theorem TokenPhase.Holds.commit {p : TokenPhase} (h : p.Holds j w events) (hne : j ≠ i)
    (hacc : Accounted (tokens w.db) events)
    (hc : Accounts (tokens w.db) (tokens (w.view i)) events events') :
    p.Holds j (w.commit i) events' := by
  have htx : (w.commit i).tx j = w.tx j := World.commit_tx_of_ne w hne
  have hpending : pendingTokens j (w.commit i) = pendingTokens j w := pendingTokens_congr htx
  cases p with
  | idle =>
      refine ⟨hpending.trans h.1, ?_⟩
      intro _ jti row hrow
      rw [htx] at hrow
      exact h.2 hacc jti row hrow
  | sighted row => exact ⟨hpending.trans h.1, h.2⟩
  | ending =>
      intro d hd
      rw [hpending] at hd
      exact h d hd
  | sweeping user seen left => exact Swept.commit h hne hc
  | rotating row =>
      obtain ⟨f, hf, hp⟩ := h
      exact ⟨f, hf, hpending.trans hp⟩
  | rotated row new =>
      obtain ⟨f, hf, hp⟩ := h
      exact ⟨f, hf, hpending.trans hp⟩
  | issuing new => exact hpending.trans h

/-! ### Commits -/

/-- The tokens a session is about to commit. -/
theorem tokens_view (hd : (w.tx i).dirty = []) :
    tokens (w.view i) = tokens (w.db.applyAll (pendingTokens i w)) := by
  rw [World.view, tokens_applyAll, tokenWrites_of_dirty_nil hd]

theorem newTokens_pending (hd : (w.tx i).dirty = []) :
    newTokens (w.tx i).writes = newTokens (pendingTokens i w) := by
  rw [← newTokens_tokenWrites, tokenWrites_of_dirty_nil hd]

theorem legal_pending (hw : w.WF) (hd : (w.tx i).dirty = []) :
    w.db.Legal (pendingTokens i w) := by
  rw [← tokenWrites_of_dirty_nil hd]
  exact (hw.legal i).table Table.refreshToken rfl

/-- A commit that revokes tokens at most. -/
theorem accounts_wearing (hd : (w.tx i).dirty = [])
    (hwearing : ∀ d ∈ pendingTokens i w, Wearing d) (hacc : Accounted (tokens w.db) events) :
    Accounts (tokens w.db) (tokens (w.view i)) events events := by
  refine hacc.accounts_wears ?_
  rw [tokens_view hd]
  exact wears_applyAll hwearing w.db

theorem accounts_ending {r : AuthRequest} (hd : (w.tx i).dirty = [])
    (hwearing : ∀ d ∈ pendingTokens i w, Wearing d) (hacc : Accounted (tokens w.db) events)
    (hr : ∀ payload, r ≠ .refresh (some payload)) :
    Accounts (tokens w.db) (tokens (w.view i)) events
      (events ++ r.outcome since (w.tx i).writes) := by
  have hnone : newTokens (w.tx i).writes = [] := by
    rw [newTokens_pending hd, newTokens_wearing hwearing]
  have hquiet := accounts_wearing hd hwearing hacc
  cases r with
  | login identity =>
      rw [AuthRequest.outcome, hnone]
      exact (List.append_nil events).symm ▸ hquiet
  | logout token => exact (List.append_nil events).symm ▸ hquiet
  | refresh token =>
      cases token with
      | none => exact (List.append_nil events).symm ▸ hquiet
      | some payload => exact absurd rfl (hr payload)

/-- The commit that ends every session of a user. -/
theorem accounts_sweeping {payload : Claims} (hd : (w.tx i).dirty = [])
    (hswept : Swept i w payload.sub seen []) (hacc : Accounted (tokens w.db) o.events)
    (hseen : .live seen ∈ o.notes i) (hturn : InTurn (.refresh (some payload)) since i w o) :
    Accounts (tokens w.db) (tokens (w.view i)) o.events
      (o.events ++ (AuthRequest.refresh (some payload)).outcome since (w.tx i).writes) := by
  have hnone : newTokens (w.tx i).writes = [] := by
    rw [newTokens_pending hd, newTokens_wearing hswept.wearing]
  have hquiet := accounts_wearing hd hswept.wearing hacc
  rw [AuthRequest.outcome, hnone]
  refine hquiet.trans (hquiet.accounted.accounts_detect ?_)
  intro jti row hrow huser hlive
  -- a row that is live was so before, and is one of those that were found
  rw [tokens_view hd] at hrow
  obtain ⟨before, hbefore, hworn⟩ := (wears_applyAll hswept.wearing w.db).back hrow
  have hnow : before.liveOf payload.sub = true := by
    have hnone : before.revokedAt = none := by
      by_contra hrevoked
      exact hworn.revoked hrevoked hlive
    simp [RefreshToken.liveOf, hnone, ← hworn.user, huser]
  obtain ⟨found, hfound, hjti⟩ :=
    List.mem_map.mp (hturn.swept payload rfl hnone seen hseen before (Db.lookup_mem hbefore) hnow)
  have hid : before.jti = jti := Db.lookup_id hbefore
  rw [hid] at hjti
  subst hjti
  obtain ⟨now, hnow', hsame⟩ := hswept.there found hfound
  rw [hbefore] at hnow'
  cases hnow'
  have huser' : found.userId = payload.sub := hsame.symm.trans (hworn.user.symm.trans huser)
  rcases hswept.ended found hfound huser' with hleft | hmem | ⟨dead, hdead, hnot⟩
  · cases hleft
  · exact revoked_applyAll hswept.wearing hmem hrow hlive
  · rw [hbefore] at hdead
    cases hdead
    rw [hnow] at hnot
    cases hnot

/-- No reuse was detected since the request began. -/
theorem InTurn.calm {r : AuthRequest} (h : InTurn r since i w o) {row : RefreshToken}
    (hrow : row ∈ newTokens (w.tx i).writes) :
    ∀ k, since ≤ k → o.events[k]? ≠ some (.reuseDetected row.userId) := by
  intro k hk hreuse
  refine h.undisturbed row hrow (List.mem_iff_getElem?.mpr ⟨k - since, ?_⟩)
  rw [List.getElem?_drop, Nat.add_sub_cancel' hk]
  exact hreuse

/-- The commit of a new token. -/
theorem accounts_issuing {new : RefreshToken} {identity : Option FirebaseUser} (hw : w.WF)
    (hd : (w.tx i).dirty = []) (hpending : pendingTokens i w = [.insert .refreshToken new])
    (hunspent : new.replacedByJti = none) (hacc : Accounted (tokens w.db) o.events)
    (hturn : InTurn (.login identity) since i w o) :
    Accounts (tokens w.db) (tokens (w.view i)) o.events
      (o.events ++ (AuthRequest.login identity).outcome since (w.tx i).writes) := by
  have hnew : newTokens (w.tx i).writes = [new] := by
    rw [newTokens_pending hd, hpending]
    rfl
  have hfresh : tokens w.db new.jti = none := by
    have hlegal := legal_pending hw hd
    rw [hpending] at hlegal
    exact hlegal.1 Table.refreshToken new rfl
  have hview : tokens (w.view i) = Function.update (tokens w.db) new.jti (some new) := by
    rw [tokens_view hd, hpending]
    exact tokens_insert hfresh
  have hcalm := hturn.calm (hnew ▸ List.mem_singleton_self new)
  rw [hview, AuthRequest.outcome, hnew]
  exact hacc.accounts_issue hfresh hunspent hcalm

/-- The commit of a rotation. -/
theorem accounts_rotated {row new : RefreshToken} {payload : Claims}
    {f : Patch adehun .refreshToken} (hw : w.WF) (hd : (w.tx i).dirty = [])
    (hf : Consumes f) (hpending : pendingTokens i w =
      [.update .refreshToken row.jti f, .insert .refreshToken new])
    (hread : .read row ∈ o.notes i) (hlive : row.revokedAt = none)
    (hjti : row.jti = payload.jti) (huser : row.userId = payload.sub)
    (hnewuser : new.userId = payload.sub) (hunspent : new.replacedByJti = none)
    (hacc : Accounted (tokens w.db) o.events)
    (hturn : InTurn (.refresh (some payload)) since i w o) :
    Accounts (tokens w.db) (tokens (w.view i)) o.events
      (o.events ++ (AuthRequest.refresh (some payload)).outcome since (w.tx i).writes) := by
  have hnew : newTokens (w.tx i).writes = [new] := by
    rw [newTokens_pending hd, hpending]
    rfl
  have hcalm : ∀ k, since ≤ k → o.events[k]? ≠ some (.reuseDetected payload.sub) := by
    rw [← hnewuser]
    exact hturn.calm (hnew ▸ List.mem_singleton_self new)
  -- the row is as it was read: live, so it was neither exchanged nor ended
  have hrow : tokens w.db row.jti = some row :=
    hturn.current (by rw [hnew]; exact List.cons_ne_nil _ _) row hread
  have hfirst : row.replacedByJti = none := hacc.unspent row.jti row hrow hlive
  have hout : Outlives o.events payload.sub row.jti := by
    rw [← huser]
    exact hacc.live row.jti row hrow hlive
  have hexchange := hacc.accounts_exchange hrow hfirst hout (hf.remains row) (hf.revoked row)
    (hf.spent row hfirst)
  have hupdated : tokens ((Write.update .refreshToken row.jti f : Write adehun).apply w.db) =
      Function.update (tokens w.db) row.jti (some (f.run row)) := by
    rw [tokens_update, hrow]
    rfl
  have hfresh : tokens ((Write.update .refreshToken row.jti f : Write adehun).apply w.db)
      new.jti = none := by
    have hlegal := legal_pending hw hd
    rw [hpending] at hlegal
    exact hlegal.2.1 Table.refreshToken new rfl
  have hview : tokens (w.view i) = Function.update
      (Function.update (tokens w.db) row.jti (some (f.run row))) new.jti (some new) := by
    rw [tokens_view hd, hpending, ← hupdated]
    exact tokens_insert hfresh
  rw [hupdated] at hfresh
  have hquiet : ∀ k, since ≤ k →
      (o.events ++ [.exchanged row.jti payload.sub])[k]? ≠ some (.reuseDetected new.userId) := by
    intro k hle hk
    rcases getElem?_concat hk with hk | ⟨-, hk⟩
    · rw [hnewuser] at hk
      exact hcalm k hle hk
    · cases hk
  have hissue := hexchange.accounted.accounts_issue hfresh hunspent hquiet
  rw [hview, AuthRequest.outcome, hnew, ← hjti]
  have htwo := hexchange.trans hissue
  rw [List.append_assoc] at htwo
  exact htwo

/-- What a session that may commit does by it. -/
theorem TokenGhost.Owns.accounts (h : g.Owns i w o) (hc : g.Commits) (hw : w.WF)
    (hd : (w.tx i).dirty = []) (hacc : Accounted (tokens w.db) o.events)
    (hturn : ∀ r since, o.serving i = some (r, since) → InTurn r since i w o) :
    Accounts (tokens w.db) (tokens (w.view i)) o.events
      (tokenLog.commit i (w.tx i).writes w.db (w.view i) o).events := by
  obtain ⟨⟨since, hserving, -⟩, htold, hp⟩ := h
  have hr := hturn _ _ hserving
  show Accounts _ _ _ (o.events ++ match o.serving i with
    | some (r, since) => r.outcome since (w.tx i).writes
    | none => [])
  rw [hserving]
  obtain ⟨request, phase⟩ := g
  cases phase with
  | idle =>
      refine accounts_ending hd (fun d hmem => ?_) hacc hc
      rw [hp.1] at hmem
      cases hmem
  | sighted row => exact hc.elim
  | ending => exact accounts_ending hd hp hacc hc
  | sweeping user seen left =>
      obtain ⟨rfl, payload, hrequest, rfl⟩ := hc
      obtain rfl : request = .refresh (some payload) := hrequest
      exact accounts_sweeping hd hp hacc htold hr
  | rotating row => exact hc.elim
  | rotated row new =>
      obtain ⟨hlive, hunspent, payload, hrequest, hjti, huser, hnew⟩ := hc
      obtain ⟨f, hf, hpending⟩ := hp
      obtain rfl : request = .refresh (some payload) := hrequest
      exact accounts_rotated hw hd hf hpending htold hlive hjti huser hnew hunspent hacc hr
  | issuing new =>
      obtain ⟨hunspent, identity, hrequest⟩ := hc
      obtain rfl : request = .login identity := hrequest
      exact accounts_issuing hw hd hp hunspent hacc hr

theorem TokenPhase.Told.append {p : TokenPhase} {notes : List TokenNote} (h : p.Told notes)
    (more : List TokenNote) : p.Told (more ++ notes) := by
  cases p with
  | idle => trivial
  | ending => trivial
  | issuing new => trivial
  | sighted row => exact List.mem_append_right _ h
  | sweeping user seen left => exact List.mem_append_right _ h
  | rotating row => exact List.mem_append_right _ h
  | rotated row new => exact List.mem_append_right _ h

/-- What is on record of a session otherwise is nobody else's. -/
theorem TokenGhost.Owns.of_tx (h : g.Owns i w o) (hholds : g.phase.Holds i w' o.events) :
    g.Owns i w' o :=
  ⟨h.serving, h.told, hholds⟩

end Owns

/-- Tokens are used once, as a discipline. -/
def usedOnce : tokenLog.Discipline where
  Ghost := TokenGhost
  rest r := { request := r, phase := .idle }
  lost := TokenGhost.idle
  done := TokenGhost.idle
  Commits := TokenGhost.Commits
  Good db o := Accounted (tokens db) o.events
  Own := TokenGhost.Owns
  guard := inTurn
  own_congr hdb htx _ h := h.of_tx (h.holds.congr hdb htx)
  own_remember k _ h := h.of_tx (h.holds.remember k)
  own_send _ _ _ hd _ _ h := h.of_tx (h.holds.send hd)
  own_lost := by
    rintro g i o w w' - h - ⟨b, htx⟩
    exact ⟨h.serving, trivial, TokenPhase.holds_idle htx⟩
  good_commit := by
    intro g i o w c hc hw hgood hd hg h
    exact (h.accounts hc hw hd hgood hg).accounted
  own_done := by
    intro g i o w c hc hw hgood hd hg h
    have hlonger := (h.accounts hc hw hd hgood hg).longer
    obtain ⟨since, hserving, hs⟩ := h.serving
    exact ⟨⟨since, hserving, Nat.le_trans hs hlonger⟩, trivial,
      TokenPhase.holds_idle (b := false) (World.commit_tx_self w i)⟩
  own_commit := by
    intro g g' i j o w c hne hc hw hgood hd hg h h'
    have haccounts := h.accounts hc hw hd hgood hg
    obtain ⟨since, hserving, hs⟩ := h'.serving
    exact ⟨⟨since, hserving, Nat.le_trans hs haccounts.longer⟩, h'.told,
      h'.holds.commit hne hgood haccounts⟩
  good_start _ h := h
  own_start := by
    intro g i j o w r hne h
    obtain ⟨since, hserving, hs⟩ := h.serving
    refine ⟨⟨since, ?_, hs⟩, ?_, h.holds⟩
    · rw [← hserving]
      exact Function.update_of_ne hne ..
    · show TokenPhase.Told (Function.update o.notes i [] j) g.phase
      rw [Function.update_of_ne hne]
      exact h.told
  own_init := by
    intro i o w r _ htx
    exact ⟨⟨o.events.length, Function.update_self .., Nat.le_refl _⟩, trivial,
      TokenPhase.holds_idle (b := false) htx⟩
  good_look _ _ _ _ h _ := h
  own_look := by
    intro g i o w w' c X s x _ _ _ _ _ h
    refine ⟨h.serving, ?_, h.holds⟩
    show TokenPhase.Told (Function.update o.notes i (tokenNote i w s x ++ o.notes i) i) g.phase
    rw [Function.update_self]
    exact h.told.append _
  look_other := by
    intro g i j o w X w₀ s x hne h
    refine ⟨h.serving, ?_, h.holds⟩
    show TokenPhase.Told (Function.update o.notes i (tokenNote i w₀ s x ++ o.notes i) j) g.phase
    rw [Function.update_of_ne hne]
    exact h.told
  good_crash _ h := h
  own_crash _ h := h

/-! ## Programs -/

section Programs

variable {r : AuthRequest} {p p' : TokenPhase} {since i : Nat} {w : Sessions.World adehun}
  {o : TokenLog}

/-- The program takes the session of a request from one phase to another. -/
def Leading (r : AuthRequest) (p p' : TokenPhase) {α : Type} (q : App α) : Prop :=
  usedOnce.Takes ⟨r, p⟩ ⟨r, p'⟩ (fun e => e.request = r) q

theorem pendingTokens_stage_of_ne {d : Write adehun} (hd : d.key.table ≠ .refreshToken) :
    pendingTokens i (w.stage i d) = pendingTokens i w := by
  rw [pendingTokens, pendingTokens, tokenWrites, World.stage_writes, World.stage_dirty,
    ← List.append_assoc, List.filter_append, List.filter_cons_of_neg (by simpa using hd)]
  exact List.append_nil _

theorem pendingTokens_stage {d : Write adehun} (hd : d.key.table = .refreshToken) :
    pendingTokens i (w.stage i d) = pendingTokens i w ++ [d] := by
  rw [pendingTokens, pendingTokens, tokenWrites, World.stage_writes, World.stage_dirty,
    ← List.append_assoc, List.filter_append, List.filter_cons_of_pos (by simpa using hd)]
  rfl

theorem pendingTokens_put_of_ne {d : Write adehun} (hd : d.key.table ≠ .refreshToken) :
    pendingTokens i (w.put i d) = pendingTokens i w := by
  rw [pendingTokens, pendingTokens, tokenWrites, tokenWrites, World.put_tx_self]
  simp only [List.filter_append]
  rw [List.filter_cons_of_neg (by simpa using hd), List.filter_nil, List.append_nil]

/-- Writes to other tables leave a session idle that signs in. -/
theorem undisturbed_idle_tokens (identity : Option FirebaseUser) :
    Undisturbed usedOnce ⟨.login identity, .idle⟩ .refreshToken where
  still := ⟨rfl, rfl, (fun _ h => by cases h), fun _ h => h⟩
  stage := by
    intro d hd i w o _ _ h
    refine h.of_tx ⟨(pendingTokens_stage_of_ne hd).trans h.holds.1, ?_⟩
    intro hacc jti row hrow
    rw [World.stage_objects_of_ne w i fun hk => hd (congrArg Key.table hk)] at hrow
    exact h.holds.2 hacc jti row hrow
  put := by
    intro d hd i w o _ _ h _ _
    refine h.of_tx ⟨(pendingTokens_put_of_ne hd).trans h.holds.1, ?_⟩
    intro hacc jti row hrow
    rw [World.put_tx_self] at hrow
    exact h.holds.2 hacc jti row hrow

theorem plain_tokens (identity : Option FirebaseUser) :
    Plain fun _ q => usedOnce.Keeps ⟨.login identity, .idle⟩ q :=
  (undisturbed_idle_tokens identity).plain rfl

/-- What only reads leaves the phase. -/
theorem reading_tokens (r : AuthRequest) (p : TokenPhase) :
    Reading fun _ q => Leading r p p q where
  ret := takes_ret
  raise x := takes_raise x rfl
  bind := Takes.bind
  reads _ hs _ := takes_quiet hs (fun h => h) rfl rfl

/-- A command on the cache leaves the phase, even if it fails. -/
theorem leading_shared {X : Type} (f : Shared → Shared × X) (x : X) :
    Leading r p p (.tryCatch (.perform (.shared f)) fun _ => .ret x) := by
  intro i w o ho
  refine Observer.safe_tryCatch (Observer.safe_perform ?_)
  intro w₁ o₁ hr hi
  have ho₁ := hr.2 _ ho
  refine ⟨trivial, ?_⟩
  intro c result w₂ he _
  have hother : ∀ j, w₂.tx j = w₁.tx j := by
    rw [World.exec_shared] at he
    split at he <;> cases he <;> exact fun _ => rfl
  have hdb : w₂.db = w₁.db := World.exec_db_of_quiet (s := .shared f) trivial he
  have hseen : tokenLog.exec i w₁ w₂ (.shared f) result o₁ = o₁ := by
    cases result with
    | error e => rfl
    | ok x =>
        show ({ o₁ with notes := Function.update o₁.notes i (o₁.notes i) } : TokenLog) = o₁
        rw [Function.update_eq_self]
  obtain ⟨h₁, h₂⟩ := Observer.Discipline.exec_others hi he hdb hseen
  refine ⟨h₁, h₂, ?_⟩
  have ho₂ : usedOnce.Own ⟨r, p⟩ i w₂ o₁ :=
    TokenGhost.Owns.of_tx ho₁ (TokenPhase.Holds.congr ho₁.holds hdb (hother i))
  rw [hseen]
  cases result with
  | ok x => exact ho₂
  | error e => exact ho₂

theorem leading_cacheGet (k : CacheKey) : Leading r p p (cacheGet k) := leading_shared _ _

theorem leading_cacheSet (k : CacheKey) (v : CacheValue) : Leading r p p (cacheSet k v) :=
  leading_shared _ _

theorem reading_loadUser {K : (α : Type) → App α → Prop} (h : Reading K) (q : User → Bool) :
    K _ (loadUser q) := by
  refine h.bind (h.loadFirst .user q) fun found => ?_
  cases found with
  | none => exact h.ret _
  | some user =>
      exact h.bind (h.loadAll _ _) fun _ => h.bind (h.loadAll _ _) fun _ => h.ret _

theorem reading_createToken {K : (α : Type) → App α → Prop} (h : Reading K)
    (settings : TokenSettings) (u : Id) (type : TokenType) (jti : Option Id) :
    K _ (createToken settings u type jti) := by
  refine h.bind h.now fun time => ?_
  cases jti with
  | none => exact h.bind h.fresh fun _ => h.ret _
  | some jti => exact h.bind (h.ret _) fun _ => h.ret _

theorem reading_verifyToken {K : (α : Type) → App α → Prop} (h : Reading K)
    (payload : Claims) (type : TokenType) : K _ (verifyToken (some payload) type) :=
  h.bind h.now fun _ => h.bind (h.raiseIf _ _) fun _ => h.bind (h.raiseIf _ _) fun _ => h.ret _

theorem reading_showUser {K : (α : Type) → App α → Prop} (h : Reading K) (found : FoundUser) :
    K _ (showUser found) :=
  h.ite (h.map (h.attributes .user _)) (h.ret _)

theorem leading_getUserById_row (u : Id) : Leading r p p (do
    match ← loadUser fun x => x.id = u with
    | none => pure none
    | some x => do
        cacheSet (.user u) (.user x)
        pure (some { user := x, attached := true }) : App (Option FoundUser)) := by
  have h := reading_tokens r p
  refine h.bind (reading_loadUser h _) fun found => ?_
  cases found with
  | none => exact h.ret _
  | some x => exact h.bind (leading_cacheSet _ _) fun _ => h.ret _

theorem leading_getUserById (u : Id) : Leading r p p (getUserById u) := by
  have h := reading_tokens r p
  refine h.bind (leading_cacheGet _) fun cached => ?_
  split
  · exact h.ret _
  · exact leading_getUserById_row u

theorem Leading.bind {p'' : TokenPhase} {α β : Type} {q : App α} {f : α → App β}
    (h : Leading r p p' q) (hf : ∀ a, Leading r p' p'' (f a)) : Leading r p p'' (q.bind f) :=
  Takes.bind h hf

theorem leading_ret {α : Type} (a : α) : Leading r p p (.ret a : App α) := takes_ret a

theorem leading_raise {α : Type} (x : Exn) : Leading r p p' (.raise x : App α) :=
  fun _ _ _ h => ⟨⟨r, p⟩, rfl, h⟩

theorem leading_raiseIf {q : Prop} [Decidable q] (x : Exn) {α : Type} {f : Unit → App α}
    (h : ¬ q → Leading r p p' (f ())) : Leading r p p' ((raiseIf q x).bind f) := by
  by_cases hq : q
  · rw [raiseIf, if_pos hq]
    exact leading_raise x
  · rw [raiseIf, if_neg hq]
    exact h hq

theorem leading_of_keeps {α : Type} {q : App α} (h : usedOnce.Keeps ⟨r, p⟩ q) :
    Leading r p p q := h.takes rfl

/-- A write to the table of tokens staged. -/
theorem leading_stage {d : Write adehun} (htold : ∀ notes, p.Told notes → p'.Told notes)
    (h : ∀ i w events, p.Holds i w events → p'.Holds i (w.stage i d) events) :
    Leading r p p' (.perform (.stage d)) := by
  refine takes_stage fun i w o _ _ ho => ?_
  exact ⟨ho.serving, htold _ ho.told, h i w o.events ho.holds⟩

theorem leading_commit (hc : (⟨r, p⟩ : TokenGhost).Commits) : Leading r p .idle commit :=
  takes_commit (D := usedOnce) (g := ⟨r, p⟩) hc rfl rfl

/-- What a look at a token shows. -/
theorem reaches_getRefreshToken (r : AuthRequest) (jti : Id) :
    usedOnce.Reaches ⟨r, .idle⟩ (fun found e => match found with
      | none => e = ⟨r, .idle⟩
      | some row => e = ⟨r, .sighted row⟩ ∧ row.jti = jti) (fun e => e.request = r)
      (getRefreshToken jti) := by
  intro i w o ho
  refine Observer.safe_mono (fun _ _ _ h => h) ?_ (Observer.Discipline.safe_see
    (s := .get false (⟨Table.refreshToken, jti⟩ : Key adehun)) trivial ?_ ho)
  · rintro _ _ _ (h | h)
    · exact ⟨_, rfl, h⟩
    · exact ⟨_, rfl, h⟩
  intro w₁ o₁ c x w₂ _ hgood ho₁ he _ ho₂
  cases x with
  | none =>
      refine ⟨⟨r, .idle⟩, rfl, ho₂.serving, trivial, ho₂.holds⟩
  | some row =>
      -- the object the session has, or the row, which is the committed one
      have hrow : row.jti = jti ∧ row.Unspent := by
        rw [World.exec_get] at he
        split at he
        · next found hfound _ =>
            cases he
            exact ho₁.holds.2 hgood jti row hfound
        · have hbody := World.sql_ok he
          have hview : tokens (w₁.view i) jti = some row := by
            simp only [Option.some.injEq, Prod.mk.injEq, Except.ok.injEq] at hbody
            exact hbody.1
          rw [tokens_view_of_nil (tokenWrites_of_pending_nil ho₁.holds.1)] at hview
          exact ⟨Db.lookup_id hview, Accounted.unspent hgood jti row hview⟩
      refine ⟨⟨r, .sighted row⟩, ⟨rfl, hrow.1⟩, ho₂.serving, ?_, ho₂.holds.1, hrow.2⟩
      show .read row ∈ Function.update o₁.notes i (.read row :: o₁.notes i) i
      rw [Function.update_self]
      exact List.mem_cons_self

/-! ### Signing in -/

theorem keeps_notifyPendingInvitations (identity : Option FirebaseUser) (user : User) :
    usedOnce.Keeps ⟨.login identity, .idle⟩ (notifyPendingInvitations user) := by
  have h := plain_tokens identity
  refine h.bind (h.attributes .user _) fun user => h.bind (h.loadAll _ _) fun invitations =>
    h.bind (h.forEach (fun v => ?_) invitations) fun _ => h.ret _
  refine h.bind (h.attempt ?_) fun told => ?_
  · exact h.bind (h.attributes .invitation _) fun _ => h.bind (h.get .user _) fun _ =>
      h.bind (h.attributes .user _) fun _ => h.bind h.fresh fun _ =>
        h.bind (h.stages _ rfl rfl) fun _ => h.bind h.commit fun _ =>
          h.bind (h.refresh _ _) fun _ => h.ret _
  · cases told with
    | ok _ => exact h.ret _
    | error _ =>
        exact h.bind (h.attributes .user _) fun _ => h.bind (h.attributes .invitation _) fun _ =>
          h.ret _

theorem keeps_createUserRow (identity : Option FirebaseUser) (user : User) :
    usedOnce.Keeps ⟨.login identity, .idle⟩ (createUserRow user) := by
  have h := plain_tokens identity
  exact h.bind (h.stages _ rfl rfl) fun _ => h.bind h.commit fun _ => h.refresh .user _

theorem leading_issueTokenPair (settings : TokenSettings) (identity : Option FirebaseUser)
    (u : Id) : Leading (.login identity) .idle .idle (issueTokenPair settings u) := by
  have h := reading_tokens (.login identity)
  refine Leading.bind ((h .idle).fresh) fun jti => Leading.bind ((h .idle).now) fun time => ?_
  have hadd : Leading (.login identity) .idle (.issuing
      { jti := jti, userId := u, expiresAt := time + tokenLifetime settings .refresh })
      (add .refreshToken
        { jti := jti, userId := u, expiresAt := time + tokenLifetime settings .refresh }) := by
    refine leading_stage (fun _ _ => trivial) fun i w events hp => ?_
    exact (pendingTokens_stage rfl).trans (by rw [hp.1]; rfl)
  refine Leading.bind (Leading.bind hadd fun _ => (h _).flush) fun _ => ?_
  refine Leading.bind (reading_createToken (h _) _ _ _ _) fun access =>
    Leading.bind (reading_createToken (h _) _ _ _ _) fun refresh => ?_
  exact Leading.bind (leading_commit ⟨rfl, identity, rfl⟩) fun _ => leading_ret _

theorem leading_verifyIdToken (settings : TokenSettings) (identity : Option FirebaseUser) :
    Leading (.login identity) .idle .idle (verifyIdToken settings identity) := by
  have h := reading_tokens (.login identity) .idle
  cases identity with
  | none => exact leading_raise _
  | some identity =>
      refine Leading.bind (reading_loadUser h _) fun found => ?_
      have hrest : ∀ user : User, Leading (.login (some identity)) .idle .idle (do
          let user : User ← attributes .user user.id
          let pair ← issueTokenPair settings user.id
          let shown ← showUser { user := user, attached := true }
          pure ({ accessToken := pair.1
                  refreshToken := pair.2
                  isSignedUp := found.isSome
                  user := shown } : LoginResponse)) := fun user =>
        Leading.bind (h.attributes .user _) fun user =>
          Leading.bind (leading_issueTokenPair settings _ _) fun pair =>
            Leading.bind (reading_showUser h _) fun _ => leading_ret _
      cases found with
      | none =>
          exact Leading.bind (leading_of_keeps (keeps_createUserRow _ _)) fun user =>
            Leading.bind (leading_of_keeps (keeps_notifyPendingInvitations _ _)) fun _ =>
              hrest user
      | some user => exact Leading.bind (h.raiseIf _ _) fun _ => hrest user

/-! ### Refreshing and signing out -/

/-- A revocation that names no successor, of a row that was live. -/
theorem leading_revoke_none {row : RefreshToken} (hlive : row.revokedAt = none) :
    Leading r (.sighted row) .ending (revoke row none) := by
  have h := reading_tokens r
  have hassign : ∀ time, Leading r (.sighted row) .ending
      (assign .refreshToken row.jti (setRevoked row time none)) := by
    intro time
    refine leading_stage (fun _ _ => trivial) ?_
    rintro i w events ⟨hpending, hunspent⟩ d hd
    rw [pendingTokens_stage rfl, hpending, List.nil_append, List.mem_singleton] at hd
    subst hd
    refine ⟨row.jti, setRevoked row time none, rfl, fun x => ⟨⟨⟨rfl, fun _ hx => by cases hx⟩, ?_⟩,
      fun hx => by cases hx⟩⟩
    show (if row.replacedByJti = none then x.replacedByJti else none) = x.replacedByJti
    rw [if_pos (hunspent hlive)]
  exact Leading.bind (h _).now fun time => Leading.bind (hassign time) fun _ => (h _).flush

/-- A revocation that names a successor. -/
theorem leading_revoke_some {row : RefreshToken} (hlive : row.revokedAt = none) (jti : Id) :
    Leading r (.sighted row) (.rotating row) (revoke row (some jti)) := by
  have h := reading_tokens r
  have hassign : ∀ time, Leading r (.sighted row) (.rotating row)
      (assign .refreshToken row.jti (setRevoked row time (some jti))) := by
    intro time
    refine leading_stage (fun _ h => h) ?_
    rintro i w events ⟨hpending, hunspent⟩
    refine ⟨setRevoked row time (some jti), ⟨fun x => ⟨rfl, fun _ hx => by cases hx⟩,
      (fun _ hx => by cases hx), fun x _ hx => ?_⟩, ?_⟩
    · have hnone : (if row.replacedByJti = some jti then x.replacedByJti else some jti) = none := hx
      rw [hunspent hlive] at hnone
      cases hnone
    · rw [pendingTokens_stage rfl, hpending]
      rfl
  exact Leading.bind (h _).now fun time => Leading.bind (hassign time) fun _ => (h _).flush

theorem leading_rotateToken (settings : TokenSettings) {payload : Claims} {row : RefreshToken}
    (hlive : row.revokedAt = none) (hjti : row.jti = payload.jti)
    (huser : row.userId = payload.sub) (found : FoundUser) :
    Leading (.refresh (some payload)) (.sighted row) .idle
      (rotateToken settings payload.sub row found) := by
  have h := reading_tokens (.refresh (some payload))
  refine Leading.bind (h _).fresh fun jti =>
    Leading.bind (leading_revoke_some hlive jti) fun _ => Leading.bind (h _).now fun time => ?_
  have hadd : Leading (.refresh (some payload)) (.rotating row) (.rotated row
      { jti := jti, userId := payload.sub, expiresAt := time + tokenLifetime settings .refresh })
      (add .refreshToken
        { jti := jti, userId := payload.sub
          expiresAt := time + tokenLifetime settings .refresh }) := by
    refine leading_stage (fun _ h => h) ?_
    rintro i w events ⟨f, hf, hpending⟩
    refine ⟨f, hf, ?_⟩
    rw [pendingTokens_stage rfl, hpending]
    rfl
  refine Leading.bind (Leading.bind hadd fun _ => (h _).flush) fun _ => ?_
  refine Leading.bind (reading_createToken (h _) _ _ _ _) fun access =>
    Leading.bind (reading_createToken (h _) _ _ _ _) fun refresh => ?_
  exact Leading.bind (leading_commit ⟨hlive, rfl, payload, rfl, hjti, huser, rfl⟩) fun _ =>
    Leading.bind (reading_showUser (h _) _) fun _ => leading_ret _

/-- One more row is written. -/
theorem Swept.write {u jti : Id} {seen : List RefreshToken} {left : List Id}
    {w' : Sessions.World adehun} {d : Write adehun} (h : Swept i w u seen (jti :: left))
    (hdb : w'.db = w.db) (hd : Wearing d) (hk : d.key = ⟨Table.refreshToken, jti⟩)
    (hpending : ∀ e, e ∈ pendingTokens i w' ↔ e ∈ pendingTokens i w ∨ e = d) :
    Swept i w' u seen left := by
  refine ⟨fun e he => ?_, ?_, fun row hrow huser => ?_⟩
  · rcases (hpending e).mp he with he | rfl
    · exact h.wearing e he
    · exact hd
  · rw [hdb]
    exact h.there
  · rcases h.ended row hrow huser with hleft | ⟨e, he, hek⟩ | hdead
    · rcases List.mem_cons.mp hleft with hjti | hleft
      · exact Or.inr (Or.inl ⟨d, (hpending d).mpr (Or.inr rfl), by rw [hk, hjti]⟩)
      · exact Or.inl hleft
    · exact Or.inr (Or.inl ⟨e, (hpending e).mpr (Or.inl he), hek⟩)
    · exact Or.inr (Or.inr (by rwa [hdb]))

/-- A row that is not live any more needs no write. -/
theorem Swept.skip {u jti : Id} {seen : List RefreshToken} {left : List Id}
    (h : Swept i w u seen (jti :: left))
    (hdead : (tokens (w.view i) jti).any (·.liveOf u) = false) : Swept i w u seen left := by
  refine ⟨h.wearing, h.there, fun row hrow huser => ?_⟩
  rcases h.ended row hrow huser with hleft | hended
  · rcases List.mem_cons.mp hleft with rfl | hleft
    · right
      by_cases hmem : ∃ d ∈ pendingTokens i w, d.key = ⟨Table.refreshToken, row.jti⟩
      · exact Or.inl hmem
      · obtain ⟨now, hnow, -⟩ := h.there row hrow
        have huntouched : ¬ w.Touches i ⟨Table.refreshToken, row.jti⟩ := by
          rintro ⟨d, hd, hk⟩
          refine hmem ⟨d, List.mem_filter.mpr ⟨List.mem_append_left _ hd, ?_⟩, hk⟩
          rw [hk]
          rfl
        have hview : tokens (w.view i) row.jti = tokens w.db row.jti :=
          World.lookup_view_of_not_touches huntouched
        rw [hview, hnow, Option.any_some] at hdead
        exact Or.inr ⟨now, hnow, hdead⟩
    · exact Or.inl hleft
  · exact Or.inr hended

theorem mem_pendingTokens_sent {w' : Sessions.World adehun} {d : Write adehun}
    {ds : List (Write adehun)}
    (htx : w'.tx i = { w.tx i with writes := (w.tx i).writes ++ ds }) :
    d ∈ pendingTokens i w' ↔ d ∈ pendingTokens i w ∨ d ∈ tokenWrites ds := by
  simp only [pendingTokens, tokenWrites, htx, List.mem_filter, List.mem_append]
  tauto

/-- One row of the bulk update. -/
theorem leading_revokeIfLive (u : Id) (time : Nat) {seen : List RefreshToken} (jti : Id)
    (left : List Id) : Leading r (.sweeping u seen (jti :: left)) (.sweeping u seen left)
      (revokeIfLive u time jti) := by
  intro i w o ho
  refine Observer.safe_mono (fun _ _ _ h => h) ?_
    (@Observer.Discipline.safe_upsert _ _ Bool tokenLog usedOnce i w o
      ⟨r, .sweeping u seen (jti :: left)⟩ [] _ (fun _ => ⟨r, .sweeping u seen left⟩) ?_ ho)
  · rintro _ _ _ (h | h)
    · exact ⟨_, rfl, h⟩
    · exact ⟨_, rfl, h⟩
  intro w₁ o₁ _ _ _ ho₁ _ _ w₂ hwrites
  refine ⟨ho₁.serving, ho₁.told, ?_⟩
  have hswept : Swept i w₁ u seen (jti :: left) := ho₁.holds
  obtain ⟨hdb, htx⟩ := World.writeAll_ok hwrites
  have hcheck : ((w₁.view i).lookup ⟨.refreshToken, jti⟩ : Option RefreshToken).any (·.liveOf u) =
      (tokens (w₁.view i) jti).any (·.liveOf u) := rfl
  cases hlive : (tokens (w₁.view i) jti).any (·.liveOf u) with
  | true =>
      rw [hcheck, if_pos hlive] at htx
      refine hswept.write (d := .update .refreshToken jti (setRevokedAt time)) hdb ?_ rfl ?_
      · exact ⟨jti, setRevokedAt time, rfl, fun x => ⟨⟨⟨rfl, fun _ hx => by cases hx⟩, rfl⟩,
          fun hx => by cases hx⟩⟩
      · intro e
        rw [mem_pendingTokens_sent htx]
        exact or_congr_right List.mem_singleton
  | false =>
      rw [hcheck, hlive] at htx
      refine (hswept.skip hlive).same hdb ?_
      rw [pendingTokens, htx]
      exact congrArg (fun ds => tokenWrites (ds ++ (w₁.tx i).dirty)) (List.append_nil _)

theorem leading_revokeEach (u : Id) (time : Nat) {seen : List RefreshToken} (jtis : List Id) :
    Leading r (.sweeping u seen jtis) (.sweeping u seen [])
      (Prog.forEach (revokeIfLive u time) jtis) := by
  induction jtis with
  | nil => exact leading_ret _
  | cons jti jtis ih =>
      exact Leading.bind (leading_revokeIfLive u time jti jtis) fun _ =>
        Leading.bind ih fun _ => leading_ret _

/-- The update finds the rows that are live. -/
theorem reaches_selectLive (u : Id) {row : RefreshToken} :
    usedOnce.Reaches ⟨r, .sighted row⟩ (fun jtis e => ∃ seen, e = ⟨r, .sweeping u seen jtis⟩)
      (fun e => e.request = r) (select fun db =>
        ((db .refreshToken : List RefreshToken).filter (·.liveOf u)).map (·.jti)) := by
  intro i w o ho
  have hq : (Stmt.select fun db : Db adehun =>
      ((db .refreshToken : List RefreshToken).filter (·.liveOf u)).map (·.jti)).Quiet := trivial
  refine Observer.safe_mono (fun _ _ _ h => h) ?_ (Observer.Discipline.safe_see hq ?_ ho)
  · rintro _ _ _ (h | h)
    · exact ⟨_, rfl, h⟩
    · exact ⟨_, rfl, h⟩
  intro w₁ o₁ c x w₂ hw _ ho₁ he _ ho₂
  have hdb : w₂.db = w₁.db := World.exec_db_of_quiet hq he
  have hbody := World.sql_ok he
  simp only [Option.some.injEq, Prod.mk.injEq, Except.ok.injEq] at hbody
  obtain ⟨rfl, -⟩ := hbody
  refine ⟨⟨r, .sweeping u ((w₁.view i .refreshToken : List RefreshToken).filter
    (·.revokedAt.isNone)) _⟩, ⟨_, rfl⟩, ho₂.serving, ?_, ?_⟩
  · show .live _ ∈ Function.update o₁.notes i (.live _ :: o₁.notes i) i
    rw [Function.update_self]
    exact List.mem_cons_self
  have hpending : pendingTokens i w₂ = [] := ho₂.holds.1
  refine ⟨fun d hd => ?_, fun row hrow => ?_, fun row hrow huser => ?_⟩
  · rw [hpending] at hd
    cases hd
  · have hview : tokens (w₁.view i) row.jti = some row :=
      (hw.view_keys i).lookup (List.mem_filter.mp hrow).1
    rw [tokens_view_of_nil (tokenWrites_of_pending_nil ho₁.holds.1)] at hview
    exact ⟨row, by rw [hdb]; exact hview, rfl⟩
  · obtain ⟨hmem, hlive⟩ := List.mem_filter.mp hrow
    refine Or.inl (List.mem_map_of_mem (List.mem_filter.mpr ⟨hmem, ?_⟩))
    rw [RefreshToken.liveOf, hlive, Bool.and_true, decide_eq_true_eq]
    exact huser

/-- A token that passes is the one that was presented. -/
theorem leading_verifyToken {payload : Claims} (type : TokenType) {α : Type} {f : Claims → App α}
    (h : Leading r p p' (f payload)) :
    Leading r p p' ((verifyToken (some payload) type).bind f) := by
  have heq : (verifyToken (some payload) type).bind f = now.bind fun time =>
      (raiseIf (payload.exp ≤ time) credentialsError).bind fun _ =>
        (raiseIf (payload.type ≠ type) credentialsError).bind fun _ => f payload := by
    show verifyToken (some payload) type >>= f = now >>= fun time =>
      raiseIf (payload.exp ≤ time) credentialsError >>= fun _ =>
        raiseIf (payload.type ≠ type) credentialsError >>= fun _ => f payload
    simp only [verifyToken, bind_assoc, pure_bind]
  rw [heq]
  exact Leading.bind (reading_tokens r p).now fun _ =>
    leading_raiseIf _ fun _ => leading_raiseIf _ fun _ => h

/-- A look at the tokens, and what follows. -/
theorem leading_of_reaches {α β : Type} {G : α → TokenGhost → Prop} {q : App α} {f : α → App β}
    (h : usedOnce.Reaches ⟨r, p⟩ G (fun e => e.request = r) q)
    (hf : ∀ a e, G a e → usedOnce.Takes e ⟨r, p'⟩ (fun e => e.request = r) (f a)) :
    Leading r p p' (q.bind f) := by
  have hreaches : usedOnce.Reaches ⟨r, p⟩ (fun _ e => e = (⟨r, p'⟩ : TokenGhost))
      (fun e => e.request = r) (q.bind f) :=
    h.bind fun a e he => (hf a e he).reaches fun _ => rfl
  exact hreaches.takes

/-- Every session of the owner ends, as far as its token has been found. -/
theorem leading_endAllSessions {payload : Claims} {row : RefreshToken} :
    Leading (.refresh (some payload)) (.sighted row) .idle (endAllSessions payload.sub) := by
  have h := reading_tokens (.refresh (some payload))
  have hrevoke : usedOnce.Reaches ⟨.refresh (some payload), .sighted row⟩
      (fun _ e => ∃ seen, e = ⟨.refresh (some payload), .sweeping payload.sub seen []⟩)
      (fun e => e.request = .refresh (some payload)) (revokeAllForUser payload.sub) := by
    refine Takes.reaches_bind (h _).now fun time => (reaches_selectLive payload.sub).bind ?_
    rintro jtis e ⟨seen, rfl⟩
    exact Takes.reaches (Leading.bind (leading_revokeEach payload.sub time jtis) fun _ =>
      Leading.bind (h _).flush fun _ => leading_ret _) fun _ => ⟨seen, rfl⟩
  refine leading_of_reaches hrevoke ?_
  rintro hits e ⟨seen, rfl⟩
  exact Leading.bind (leading_commit ⟨rfl, payload, rfl, rfl⟩) fun _ => leading_raise _

/-- The token is looked at once, and what happens then is decided by what was
seen. -/
theorem leading_refreshToken (settings : TokenSettings) (token : Option Claims) :
    Leading (.refresh token) .idle .idle (refreshToken settings token) := by
  cases token with
  | none => exact leading_raise _
  | some payload =>
      have h := reading_tokens (.refresh (some payload))
      refine leading_verifyToken _ (leading_of_reaches (reaches_getRefreshToken _ _) ?_)
      rintro (_ | row) e hseen
      · subst hseen
        exact leading_raise _
      obtain ⟨rfl, hjti⟩ := hseen
      refine leading_raiseIf _ fun hne => ?_
      have huser : row.userId = payload.sub := not_not.mp hne
      by_cases hrevoked : row.revokedAt.isSome
      · rw [if_pos hrevoked]
        exact leading_endAllSessions
      rw [if_neg hrevoked]
      have hlive : row.revokedAt = none := by simpa using hrevoked
      refine Leading.bind (h _).now fun time => leading_raiseIf _ fun _ =>
        Leading.bind (leading_getUserById _) fun found => ?_
      cases found with
      | none => exact leading_raise _
      | some found =>
          exact leading_raiseIf _ fun _ => leading_rotateToken settings hlive hjti huser found

/-- A row of a token that is live is revoked, and any other is left. -/
theorem reaches_logout (token : Option Claims) :
    usedOnce.Reaches ⟨.logout token, .idle⟩ (fun _ e => e.request = .logout token)
      (fun e => e.request = .logout token) (logout token) := by
  have h := reading_tokens (.logout token)
  have hverify : Leading (.logout token) .idle .idle (verifyToken token .refresh) := by
    cases token with
    | none => exact leading_raise _
    | some payload => exact reading_verifyToken (h _) _ _
  have hverified : usedOnce.Reaches ⟨.logout token, .idle⟩
      (fun _ e => e = (⟨.logout token, .idle⟩ : TokenGhost))
      (fun e => e.request = .logout token) (verifyToken token .refresh) :=
    hverify.reaches fun _ => rfl
  refine hverified.attempt (fun payload e he => ?_) fun _ e he => reaches_ret _ he
  subst he
  refine (reaches_getRefreshToken _ _).bind ?_
  rintro (_ | row) e hseen
  · subst hseen
    exact reaches_ret _ rfl
  obtain ⟨rfl, -⟩ := hseen
  by_cases hrevoked : row.revokedAt.isSome
  · show usedOnce.Reaches _ _ _ (ite _ _ _)
    rw [if_pos hrevoked]
    exact reaches_ret _ rfl
  show usedOnce.Reaches _ _ _ (ite _ _ _)
  rw [if_neg hrevoked]
  have hlive : row.revokedAt = none := by simpa using hrevoked
  have hdone : Leading (.logout token) (.sighted row) .idle (do
      revoke row none
      commit) :=
    Leading.bind (leading_revoke_none hlive) fun _ =>
      leading_commit (p := .ending) fun _ h => by cases h
  exact hdone.reaches fun _ => rfl

/-- A session that is closed has its request still. -/
theorem keeps_closing_of_reaches {α : Type} {q : App α}
    (h : usedOnce.Reaches ⟨r, .idle⟩ (fun _ e => e.request = r) (fun e => e.request = r) q) :
    usedOnce.Keeps ⟨r, .idle⟩ (closing q) := by
  have hback : ∀ e : TokenGhost, e.request = r →
      usedOnce.Takes e ⟨r, .idle⟩ (fun e => e = (⟨r, .idle⟩ : TokenGhost)) rollback := by
    rintro e rfl
    exact takes_rollback
  have hclosed : usedOnce.Reaches ⟨r, .idle⟩ (fun _ e => e = (⟨r, .idle⟩ : TokenGhost))
      (fun e => e = (⟨r, .idle⟩ : TokenGhost)) (closing q) :=
    h.ensuring (fun _ e he => (hback e he).reaches fun _ => rfl)
      fun e he => (hback e he).reaches fun _ => rfl
  intro i w o ho
  exact Observer.safe_mono (fun _ _ _ ⟨_, he, h⟩ => he ▸ h) (fun _ _ _ ⟨_, he, h⟩ => he ▸ h)
    (hclosed i w o ho)

theorem keeps_authHandler (settings : TokenSettings) (r : AuthRequest) :
    usedOnce.Keeps ⟨r, .idle⟩ (authHandler settings r) := by
  cases r with
  | login identity =>
      have h : Leading (.login identity) .idle .idle
          (AuthReply.signedIn <$> verifyIdToken settings identity) :=
        Leading.bind (leading_verifyIdToken settings identity) fun _ => leading_ret _
      exact keeps_closing_of_reaches (h.reaches fun _ => rfl)
  | refresh token =>
      have h : Leading (.refresh token) .idle .idle
          (AuthReply.signedIn <$> refreshToken settings token) :=
        Leading.bind (leading_refreshToken settings token) fun _ => leading_ret _
      exact keeps_closing_of_reaches (h.reaches fun _ => rfl)
  | logout token =>
      exact keeps_closing_of_reaches
        ((reaches_logout token).bind fun _ _ he => reaches_ret _ he)

end Programs

/-! ## Tokens in every run -/

theorem usedOnce_serves (settings : TokenSettings) :
    usedOnce.logic.Serves (fun _ (_ : AuthReply) _ _ => True) (authHandler settings) := by
  intro r i w o hi hidle
  exact Observer.safe_mono (fun _ _ _ _ => trivial) (fun _ _ _ _ => trivial)
    (keeps_authHandler settings r i w _ (usedOnce.own_init r hi.2 hidle.1))

/-- Before anything is seen. -/
theorem accounted_nil {find : Id → Option RefreshToken}
    (h : ∀ jti row, find jti = some row → row.revokedAt = none → row.replacedByJti = none) :
    Accounted find [] where
  unspent := h
  spent jti hjti := by cases hjti
  live jti row _ _ k hk := by cases hk
  known jti user since hissued := by cases hissued
  used :=
    { once := List.nodup_nil
      outlives := fun m jti user hm => by cases hm }

/-- In every run whose commits are in turn, every token is exchanged once at
most, and none after a reuse that its issue does not postdate. -/
theorem usedOnce_run {settings : TokenSettings} {db : Db adehun} {shared : Shared}
    (hk : db.KeysDistinct) (he : db.EntriesDistinct)
    (hdb : ∀ row ∈ (db .refreshToken : List RefreshToken),
      row.revokedAt = none → row.replacedByJti = none)
    {ls : List (Label adehun AuthRequest)}
    (hg : tokenLog.RunMeets inTurn (authHandler settings)
      ({ world := { db, shared } } : Conf adehun AuthReply) {} ls) :
    tokenLog.Always (fun _ o => UsedOnce o.events) (authHandler settings)
      ({ world := { db, shared } } : Conf adehun AuthReply) {} ls := by
  have hacc : Accounted (tokens db) [] :=
    accounted_nil fun jti row hrow => hdb row (Db.lookup_mem hrow)
  have hsound : usedOnce.logic.Sound (fun _ (_ : AuthReply) _ _ => True)
      ({ world := { db, shared } } : Conf adehun AuthReply) {} :=
    Observer.Logic.sound_init ⟨World.wf_init hk he, hacc⟩
      fun i => ⟨rfl, fun l hl => by cases hl⟩
  exact hsound.always (usedOnce_serves settings) (fun _ _ h => h.inv.2.used) hg

/-! ### Two requests at once

A token is exchanged, presented again, and the login after that is exchanged
in its turn. Then two refreshes present one token, and both find it live; and
a reuse is detected while a login is under way, whose pair is committed
afterwards. -/

namespace Raced

def db : Db adehun
  | .user => [({ id := 1, email := "ada@mail", name := "Ada" } : User)]
  | .refreshToken => [
      ({ jti := 50, userId := 1, expiresAt := 1000 } : RefreshToken),
      ({ jti := 51, userId := 1, expiresAt := 1000, revokedAt := some 0
         replacedByJti := some 50 } : RefreshToken)]
  | _ => []

def start : Conf adehun AuthReply := { world := { db := db, shared := {} } }

def presents (jti : Id) : AuthRequest :=
  .refresh (some { sub := 1, type := .refresh, exp := 1000, jti := jti })

def ada : FirebaseUser := { uid := 1, email := "ada@mail", displayName := "Ada" }

/-- A refresh, a reuse of its token, a login, and a refresh with its token. -/
def inOrder : List (Turn adehun AuthRequest) := [
  .arrive 0 (presents 50),
  .go 0 40 100,
  .arrive 1 (presents 50),
  .go 1 40 200,
  .arrive 2 (.login (some ada)),
  .go 2 40 300,
  .arrive 3 (presents 304),
  .go 3 40 400]

def run : List (Label adehun AuthRequest) × Conf adehun AuthReply :=
  start.played (authHandler {}) inOrder

theorem db_keysDistinct : db.KeysDistinct := by
  intro t
  cases t <;> decide

theorem db_entriesDistinct : db.EntriesDistinct := by
  refine Db.entriesDistinct_of_pairwise fun t => ?_
  cases t <;> decide

theorem db_unspent : ∀ row ∈ (db .refreshToken : List RefreshToken),
    row.revokedAt = none → row.replacedByJti = none := by
  decide

theorem run_inTurn : tokenLog.RunMeets inTurn (authHandler {}) start {} run.1 :=
  Observer.runMeets_of_test inTurn.test (by decide +kernel)

/-- A token, whether it is revoked, and what has replaced it. -/
def standing (row : RefreshToken) : Id × Bool × Option Id :=
  (row.jti, row.revokedAt.isSome, row.replacedByJti)

/-- One token, presented twice. -/
def twice : List (Turn adehun AuthRequest) := [
  .arrive 0 (presents 50),
  .go 0 3 100,
  .arrive 1 (presents 50),
  .go 1 100 200,
  .go 0 100 300]

/-- A login, a reuse detected meanwhile, and a refresh with the token of the
login. -/
def missed : List (Turn adehun AuthRequest) := [
  .arrive 0 (.login (some ada)),
  .go 0 11 100,
  .arrive 1 (presents 51),
  .go 1 100 200,
  .go 0 100 300,
  .arrive 2 (presents 104),
  .go 2 100 400]

def exchangedOnce (o : TokenLog) : Bool := decide (o.events.filterMap TokenEvent.exchange?).Nodup

/-- The token of the login is not exchanged after the reuse. -/
def endsLogin (o : TokenLog) : Bool :=
  !(decide (o.events[0]? = some (.reuseDetected 1)) &&
    decide (o.events[1]? = some (.issued 104 1 0)) &&
    decide (o.events[2]? = some (.exchanged 104 1)))

theorem endsLogin_of_outlives {o : TokenLog} (h : ∀ m jti user,
    o.events[m]? = some (.exchanged jti user) → Outlives (o.events.take m) user jti) :
    endsLogin o = true := by
  rw [endsLogin, Bool.not_eq_true', ← Bool.not_eq_true]
  intro hall
  simp only [Bool.and_eq_true, decide_eq_true_eq] at hall
  obtain ⟨⟨hreuse, hissued⟩, hexchanged⟩ := hall
  have hbefore : ∀ k < 2, (o.events.take 2)[k]? = o.events[k]? := fun k hk =>
    List.getElem?_take_of_lt hk
  have hpost : Postdates (o.events.take 2) 1 104 0 :=
    h 2 104 1 hexchanged 0 ((hbefore 0 (by omega)).trans hreuse)
  have hsince := hpost.after 1 0
    (List.mem_of_getElem? ((hbefore 1 (by omega)).trans hissued))
  omega

end Raced

/-- Two tokens are exchanged, and the pair of the first is ended by the reuse. -/
theorem usedOnce_run_inTurn :
    (Raced.run.2.world.db .refreshToken : List RefreshToken).map Raced.standing =
        [(50, true, some 108), (51, true, some 50), (108, true, none), (304, true, some 404),
          (404, false, none)] ∧
      tokenLog.Always (fun _ o => UsedOnce o.events) (authHandler {}) Raced.start {}
        Raced.run.1 :=
  ⟨by decide +kernel, usedOnce_run Raced.db_keysDistinct Raced.db_entriesDistinct Raced.db_unspent
    Raced.run_inTurn⟩

/-- Over all runs from tables in order, a token can be exchanged twice, and
one can outlive a reuse that was detected while it was being issued. -/
theorem not_usedOnce :
    Raced.db.KeysDistinct ∧ Raced.db.EntriesDistinct ∧
    (∀ row ∈ (Raced.db .refreshToken : List RefreshToken),
      row.revokedAt = none → row.replacedByJti = none) ∧
    (¬ ∀ ls, tokenLog.Always (fun _ o => (o.events.filterMap TokenEvent.exchange?).Nodup)
      (authHandler {}) Raced.start {} ls) ∧
    ¬ ∀ ls, tokenLog.Always (fun _ o => ∀ m jti user,
        o.events[m]? = some (.exchanged jti user) → Outlives (o.events.take m) user jti)
      (authHandler {}) Raced.start {} ls := by
  refine ⟨Raced.db_keysDistinct, Raced.db_entriesDistinct, Raced.db_unspent, ?_, ?_⟩
  · refine Observer.not_always_of_play (q := Raced.exchangedOnce) ?_ Raced.twice ?_
    · exact fun _ _ h => decide_eq_true h
    · decide +kernel
  · refine Observer.not_always_of_play (q := Raced.endsLogin) ?_ Raced.missed ?_
    · exact fun _ _ h => Raced.endsLogin_of_outlives h
    · decide +kernel

end Adehun
