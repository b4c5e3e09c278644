import Adehun.LiveInvitation
import Adehun.AssetService

/-!
# The cached assets

Three reads of assets are cached for a day, and what comes out of the cache is
of no use: an asset without a session cannot be shown, because it has no
uploader, and cannot be decided on, because saving it inserts it again. The
first of each of these requests goes through, and the next one fails for as
long as the key is there.
-/

namespace Adehun

open Sessions Prog

/-! ## What the cache holds -/

def cached (m : Shared) (k : CacheKey) : Option CacheValue :=
  (m.cache.find? (·.1 = k)).map (·.2)

/-- The shared store at the first look that a call takes at it. -/
def seen (m : Shared) (χ : Chance adehun) : Shared :=
  (χ.weather 0).foldl (fun m a => ambient a m) m

def dropKeys (q : CacheKey → Bool) (m : Shared) : Shared :=
  { m with cache := m.cache.filter fun e => q e.1 }

def setKey (k : CacheKey) (v : CacheValue) (m : Shared) : Shared :=
  { m with cache := (k, v) :: m.cache.filter (·.1 ≠ k) }

theorem cached_dropKeys (q : CacheKey → Bool) (m : Shared) (k : CacheKey) :
    cached (dropKeys q m) k = if q k then cached m k else none := by
  unfold cached dropKeys
  rw [List.find?_filter]
  split
  · next hq =>
      congr 2
      funext e
      by_cases he : e.1 = k
      · simp [he, hq]
      · simp [he]
  · next hq =>
      rw [List.find?_eq_none.mpr]
      · rfl
      intro e _
      by_cases he : e.1 = k
      · simp [he, hq]
      · simp [he]

theorem cached_setKey (k : CacheKey) (v : CacheValue) (m : Shared) (k' : CacheKey) :
    cached (setKey k v m) k' = if k' = k then some v else cached m k' := by
  have hrest := cached_dropKeys (fun k' => decide (k' ≠ k)) m k'
  by_cases hk : k' = k
  · subst hk
    simp [cached, setKey]
  · rw [if_neg hk]
    simp only [ne_eq, hk, not_false_eq_true, decide_true, if_true] at hrest
    rw [← hrest]
    unfold cached setKey dropKeys
    rw [List.find?_cons_of_neg (by simpa using Ne.symm hk)]

/-- What is cached under the keys of assets: an asset that is in the tables,
or a list that is not empty. -/
def Stock (db : Db adehun) : CacheKey → CacheValue → Prop
  | .asset id, v => ∃ a : Asset, v = .asset a ∧ a.id = id ∧ (db.lookup ⟨.asset, id⟩).isSome
  | .agreementAsset _, v | .conditionAsset _, v => ∃ rows : List Asset, v = .assets rows ∧ rows ≠ []
  | _, _ => True

def Stocked (db : Db adehun) (m : Shared) : Prop := ∀ k v, cached m k = some v → Stock db k v

section Stocked

variable {db db' : Db adehun} {m : Shared}

theorem Stocked.dropKeys (h : Stocked db m) (q : CacheKey → Bool) :
    Stocked db (dropKeys q m) := by
  intro k v hv
  rw [cached_dropKeys] at hv
  split at hv
  · exact h k v hv
  · cases hv

theorem Stocked.setKey (h : Stocked db m) {k : CacheKey} {v : CacheValue} (hk : Stock db k v) :
    Stocked db (setKey k v m) := by
  intro k' v' hv
  rw [cached_setKey] at hv
  split at hv
  · next he =>
      cases hv
      rw [he]
      exact hk
  · exact h k' v' hv

theorem Stocked.ambient (h : Stocked db m) (a : Ambient) : Stocked db (ambient a m) := by
  cases a with
  | tick s => exact h
  | expire k => exact h.dropKeys fun k' => decide (k' ≠ k)

theorem Stocked.seen (h : Stocked db m) (χ : Chance adehun) : Stocked db (seen m χ) := by
  unfold Adehun.seen
  generalize χ.weather 0 = events
  induction events generalizing m with
  | nil => exact h
  | cons a events ih => exact ih (h.ambient a)

/-- Assets do not go. -/
theorem Stocked.mono (h : Stocked db m)
    (hids : ∀ id, (db.lookup ⟨.asset, id⟩).isSome → (db'.lookup ⟨.asset, id⟩).isSome) :
    Stocked db' m := by
  intro k v hv
  have hk := h k v hv
  cases k with
  | asset id =>
      obtain ⟨a, ha, hid, hsome⟩ := hk
      exact ⟨a, ha, hid, hids id hsome⟩
  | _ => exact hk

end Stocked

/-! ## The cache client, run alone -/

section Client

variable {db : Db adehun} {κ : List (Db adehun)} {m : Shared} {χ : Chance adehun}

/-- Chance after a look at the shared store. -/
def Chance.onward (χ : Chance adehun) : Chance adehun :=
  { χ with weather := fun n => χ.weather (n + 1) }

theorem cacheGet_between (k : CacheKey) : (cacheGet k).solo (.between db κ m χ) =
    (.ok (cached (seen m χ) k), .between db κ (seen m χ) (Chance.onward χ)) := cacheGet_solo k

theorem cacheSet_between (k : CacheKey) (v : CacheValue) :
    (cacheSet k v).solo (.between db κ m χ) =
      (.ok (), .between db κ (setKey k v (seen m χ)) (Chance.onward χ)) := rfl

theorem invalidateCache_between (k : CacheKey) :
    (invalidateCache k).solo (.between db κ m χ) =
      (.ok (), .between db κ (dropKeys (fun k' => decide (k' ≠ k)) (seen m χ))
        (Chance.onward χ)) := rfl

end Client

/-! ## Responses -/

/-- Assets have an uploader and a file, and one parent. -/
def Linked (db : Db adehun) : Prop :=
  ∀ a ∈ (db .asset : List Asset), (db.lookup ⟨.agreementParticipant, a.uploadedBy⟩).isSome ∧
    (db.lookup ⟨.assetFile, a.fileId⟩).isSome ∧ rowCheck (t := .asset) a = none

/-- What the tables and the cache keep to. -/
structure InOrder (w : World) : Prop where
  sound : w.db.Sound
  linked : Linked w.db
  stocked : Stocked w.db w.shared

/-- What a listing tells of an asset. -/
def AssetResponse.line (r : AssetResponse) : Id × Bool := (r.id, r.isApproved)

def Asset.line (a : Asset) : Id × Bool := (a.id, a.isApproved)

section Responses

variable {db : Db adehun} {κ : List (Db adehun)} {m : Shared} {χ : Chance adehun}

/-- An asset of the session can be shown. -/
theorem assetResponse_attached (hs : db.Sound) (hl : Linked db) {a : Asset}
    (ha : a ∈ (db .asset : List Asset)) :
    ∃ r, (assetResponse { asset := a, attached := true }).solo (.between db κ m χ) =
      (.ok r, .between db κ m χ) ∧ r.line = a.line := by
  obtain ⟨huploader, hfile, -⟩ := hl a ha
  obtain ⟨p, hp⟩ := Option.isSome_iff_exists.mp huploader
  obtain ⟨f, hf⟩ := Option.isSome_iff_exists.mp hfile
  have ht : (Solo.between db κ m χ).Tidy := Solo.tidy_between
  have hpr : ∃ r, (participantResponse p).solo (.between db κ m χ) =
      (.ok r, .between db κ m χ) := by
    unfold participantResponse
    rw [Prog.solo_bind_ok (loadFirst_solo ht hs .user _)]
    exact ⟨_, rfl⟩
  obtain ⟨r, hr⟩ := hpr
  unfold assetResponse
  rw [if_pos rfl, Prog.solo_bind_ok (attributes_solo ht hp), Prog.solo_bind_ok hr,
    Prog.solo_bind_ok (attributes_solo ht hf)]
  exact ⟨_, rfl, rfl⟩

theorem assetResponses_attached (hs : db.Sound) (hl : Linked db) {l : List Asset}
    (hrows : ∀ a ∈ l, a ∈ (db .asset : List Asset)) :
    ∃ shown, (Prog.forEach assetResponse
        (l.map fun a => { asset := a, attached := true })).solo (.between db κ m χ) =
      (.ok shown, .between db κ m χ) ∧
      shown.map AssetResponse.line = l.map Asset.line := by
  induction l with
  | nil => exact ⟨[], rfl, rfl⟩
  | cons a l ih =>
      obtain ⟨r, hr, hline⟩ := assetResponse_attached (κ := κ) (m := m) (χ := χ) hs hl
        (hrows a List.mem_cons_self)
      obtain ⟨shown, hshown, hlines⟩ := ih fun a' ha' => hrows a' (List.mem_cons_of_mem a ha')
      refine ⟨r :: shown, ?_, by rw [List.map_cons, List.map_cons, hline, hlines]⟩
      rw [List.map_cons, Prog.forEach]
      refine (Prog.solo_bind_ok hr).trans ?_
      exact (Prog.solo_bind_ok hshown).trans rfl

/-- A cached asset cannot. -/
theorem assetResponses_cached {rows : List Asset} (hrows : rows ≠ []) (σ : Solo adehun) :
    (Prog.forEach assetResponse (rows.map fun a => { asset := a, attached := false })).solo σ =
      (.error .value, σ) := by
  cases rows with
  | nil => exact absurd rfl hrows
  | cons a rows => rfl

theorem deliverables_mem {p : Condition → Bool} {a : Asset} (ha : a ∈ deliverables db p) :
    a ∈ (db .asset : List Asset) := List.mem_of_mem_filter ha

theorem loadDeliverables_solo (hs : db.Sound) (p : Condition → Bool) :
    (loadDeliverables p).solo (.between db κ m χ) =
      (.ok (deliverables db p), .between db κ m χ) := by
  have hrows := hs.keys.rows (t := .asset) (l := deliverables db p)
    fun a ha => deliverables_mem ha
  unfold loadDeliverables
  rw [Prog.solo_perform, Solo.tidy_between.load]
  exact congrArg (fun rows => (Except.ok rows, Solo.between db κ m χ)) hrows

end Responses

/-! ## Listings -/

section Listing

variable {db : Db adehun} {κ : List (Db adehun)} {m : Shared} {χ : Chance adehun}

/-- The key is not there, and the tables answer. -/
theorem cachedAssets_miss (hs : db.Sound) (hm : Stocked db m) {key : CacheKey}
    (hkey : ∀ rows : List Asset, rows ≠ [] → Stock db key (.assets rows)) (p : Condition → Bool)
    (hmiss : cached (seen m χ) key = none) :
    ∃ m' χ', (cachedAssets key p).solo (.between db κ m χ) =
      (.ok ((deliverables db p).map fun a => { asset := a, attached := true }),
        .between db κ m' χ') ∧ Stocked db m' := by
  have hget := @cacheGet_between db κ m χ key
  rw [hmiss] at hget
  unfold cachedAssets
  rw [Prog.solo_bind_ok hget]
  simp only
  rw [Prog.solo_bind_ok (loadDeliverables_solo hs p)]
  by_cases hempty : deliverables db p = []
  · rw [hempty]
    exact ⟨_, _, rfl, hm.seen χ⟩
  · have hfull : ¬ (deliverables db p).isEmpty = true := by
      rw [List.isEmpty_iff]
      exact hempty
    simp only [if_neg hfull]
    refine ⟨_, _, (Prog.solo_bind_ok (cacheSet_between key _)).trans rfl, ?_⟩
    exact ((hm.seen χ).seen _).setKey (hkey _ hempty)

/-- The key is there, and answers with assets that have no session. -/
theorem cachedAssets_hit {key : CacheKey} (p : Condition → Bool) {rows : List Asset}
    (hhit : cached (seen m χ) key = some (.assets rows)) :
    (cachedAssets key p).solo (.between db κ m χ) =
      (.ok (rows.map fun a => { asset := a, attached := false }),
        .between db κ (seen m χ) (Chance.onward χ)) := by
  have hget := @cacheGet_between db κ m χ key
  rw [hhit] at hget
  unfold cachedAssets
  rw [Prog.solo_bind_ok hget]
  rfl

variable {α : Type} {owner : App (Option α)} {missing : Exn} {kept : ErrorClass} {key : CacheKey}
  {p : Condition → Bool} {found : Option α}

/-- What a listing answers, and what it leaves. -/
theorem retrieveAssets_solo (missing : Exn) (kept : ErrorClass) (hs : db.Sound) (hl : Linked db) (hm : Stocked db m)
    (hkey : ∀ v, Stock db key v ↔ ∃ rows : List Asset, v = .assets rows ∧ rows ≠ [])
    (howner : owner.solo (.between db κ m χ) = (.ok found, .between db κ m χ)) :
    ∃ r m' χ', (retrieveAssets owner missing kept (cachedAssets key p)).solo
        (.between db κ m χ) = (r, .between db κ m' χ') ∧ Stocked db m' ∧
      (found.isSome → ((∃ shown, r = .ok shown ∧
        shown.map AssetResponse.line = (deliverables db p).map Asset.line) ↔
          cached (seen m χ) key = none)) := by
  -- the handler passes on an answer, and an error as some error
  have hguard : ∀ r m' χ', (listAssets owner missing (cachedAssets key p)).solo
      (.between db κ m χ) = (r, .between db κ m' χ') →
      ∃ r', (retrieveAssets owner missing kept (cachedAssets key p)).solo (.between db κ m χ) =
        (r', .between db κ m' χ') ∧ ∀ shown, r' = .ok shown ↔ r = .ok shown := by
    intro r m' χ' h
    have hattempt := solo_attempt (σ := .between db κ m χ)
      (listAssets owner missing (cachedAssets key p))
    rw [h] at hattempt
    unfold retrieveAssets
    rw [Prog.solo_bind_ok hattempt]
    cases r with
    | ok shown => exact ⟨_, rfl, fun _ => Iff.rfl⟩
    | error e =>
        simp only
        split
        · exact ⟨_, rfl, fun _ => by simp⟩
        · exact ⟨_, rfl, fun _ => by simp⟩
  cases found with
  | none =>
      have hlist : (listAssets owner missing (cachedAssets key p)).solo (.between db κ m χ) =
          (.error missing, .between db κ m χ) := by
        unfold listAssets
        rw [Prog.solo_bind_ok howner]
        rfl
      obtain ⟨r', hr', -⟩ := hguard _ _ _ hlist
      exact ⟨r', m, χ, hr', hm, by simp⟩
  | some x =>
      cases hc : cached (seen m χ) key with
      | none =>
          obtain ⟨m', χ', hassets, hm'⟩ := cachedAssets_miss (κ := κ) hs hm
            (fun rows hrows => (hkey _).mpr ⟨rows, rfl, hrows⟩) p hc
          obtain ⟨shown, hshown, hlines⟩ := assetResponses_attached (κ := κ) (m := m')
            (χ := χ') hs hl (l := deliverables db p) fun a ha => deliverables_mem ha
          have hlist : (listAssets owner missing (cachedAssets key p)).solo (.between db κ m χ) =
              (.ok shown, .between db κ m' χ') := by
            unfold listAssets
            rw [Prog.solo_bind_ok howner]
            simp only
            rw [Prog.solo_bind_ok hassets, hshown]
          obtain ⟨r', hr', hok⟩ := hguard _ _ _ hlist
          exact ⟨r', m', χ', hr', hm', fun _ =>
            iff_of_true ⟨shown, (hok shown).mpr rfl, hlines⟩ rfl⟩
      | some v =>
          obtain ⟨rows, rfl, hrows⟩ := (hkey v).mp (hm.seen χ key v hc)
          have hlist : (listAssets owner missing (cachedAssets key p)).solo (.between db κ m χ) =
              (.error .value, .between db κ (seen m χ) (Chance.onward χ)) := by
            unfold listAssets
            rw [Prog.solo_bind_ok howner]
            simp only
            rw [Prog.solo_bind_ok (cachedAssets_hit p hc), assetResponses_cached hrows]
          obtain ⟨r', hr', hok⟩ := hguard _ _ _ hlist
          refine ⟨r', _, _, hr', hm.seen χ, fun _ => iff_of_false ?_ (by simp)⟩
          rintro ⟨shown, h, -⟩
          cases (hok shown).mp h

end Listing

/-! ## Decisions -/

/-- Who may decide on what: the depositor, on an asset of the condition. -/
structure MayDecide (db : Db adehun) (conditionId assetId userId : Id) : Prop where
  depositor : ∃ c : Condition, db.lookup ⟨.condition, conditionId⟩ = some c ∧
    ∃ p : AgreementParticipant, (db .agreementParticipant : List AgreementParticipant).find?
      (fun p => p.agreementId = c.agreementId && p.userId = userId) = some p ∧ p.role = .depositor
  asset : ∃ a : Asset, db.lookup ⟨.asset, assetId⟩ = some a ∧ a.conditionId = some conditionId

/-- An asset assigned its approval, if that is a change. -/
def approvalWrites (a : Asset) (isApproved : Bool) : List (Write adehun) :=
  if a.isApproved = isApproved then [] else [.update .asset a.id (setAssetApproval isApproved)]

section Decision

variable {db : Db adehun} {κ : List (Db adehun)} {m : Shared} {χ : Chance adehun}

theorem approvalWrites_go (hs : db.Sound) (hl : Linked db) {a : Asset}
    (ha : a ∈ (db .asset : List Asset)) (isApproved : Bool) :
    db.sendAll (approvalWrites a isApproved) = .ok (db.applyAll (approvalWrites a isApproved)) := by
  unfold approvalWrites
  split
  · rfl
  · have hrow := hs.keys.lookup (t := .asset) ha
    exact hs.send (Write.update_goes hs.keys hs.entries hrow rfl (hl a ha).2.2) fun _ _ _ => rfl

theorem approvalWrites_apart {t : Table} (ht : t ≠ .asset) (a : Asset) (isApproved : Bool) :
    db.applyAll (approvalWrites a isApproved) t = db t := by
  unfold approvalWrites
  split
  · rfl
  · have hd : (Write.update .asset a.id (setAssetApproval isApproved) : Write adehun).key.table ≠
      t := Ne.symm ht
    exact Write.apply_table_of_ne db hd

theorem lookup_approvalWrites {a : Asset} (ha : db.lookup ⟨.asset, a.id⟩ = some a)
    (isApproved : Bool) (id : Id) :
    (db.applyAll (approvalWrites a isApproved)).lookup ⟨.asset, id⟩ =
      (db.lookup ⟨.asset, id⟩).map fun b : Asset =>
        if id = a.id then { b with isApproved := isApproved } else b := by
  unfold approvalWrites
  split
  · next hsame =>
      rw [Db.applyAll_nil]
      by_cases hid : id = a.id
      · subst hid
        rw [ha, Option.map_some, if_pos rfl, ← hsame]
      · simp [hid]
  · rw [Db.applyAll_cons, Db.applyAll_nil, Write.lookup_update]
    rfl

/-- A decision leaves the assets linked. -/
theorem linked_approval (hs : db.Sound) (hl : Linked db) {a : Asset}
    (ha : a ∈ (db .asset : List Asset)) (isApproved : Bool) :
    Linked (db.applyAll (approvalWrites a isApproved)) := by
  have hsound := hs.sendAll (approvalWrites_go hs hl ha isApproved)
  have hrow : db.lookup ⟨.asset, a.id⟩ = some a := hs.keys.lookup (t := .asset) ha
  intro b hb
  have hlook := hsound.keys.lookup (t := .asset) hb
  rw [show adehun.id (t := .asset) b = b.id from rfl, lookup_approvalWrites hrow] at hlook
  obtain ⟨b₀, hb₀, hbb⟩ := Option.map_eq_some_iff.mp hlook
  obtain ⟨hup, hfile, hcheck⟩ := hl b₀ (Db.lookup_mem hb₀)
  have hsame : b.uploadedBy = b₀.uploadedBy ∧ b.fileId = b₀.fileId ∧
      rowCheck (t := .asset) b = rowCheck (t := .asset) b₀ := by
    rw [← hbb]
    split <;> exact ⟨rfl, rfl, rfl⟩
  rw [hsame.1, hsame.2.1, hsame.2.2]
  simp only [Db.lookup] at hup hfile ⊢
  rw [approvalWrites_apart (by decide), approvalWrites_apart (by decide)]
  exact ⟨hup, hfile, hcheck⟩

/-- An asset of the session is saved. -/
theorem saveAsset_attached (hs : db.Sound) (hl : Linked db) {a : Asset}
    (ha : a ∈ (db .asset : List Asset)) (isApproved : Bool) {v : Db adehun}
    (hv : v = db.applyAll (approvalWrites a isApproved)) :
    (saveAsset { asset := a, attached := true } isApproved).solo (.between db κ m χ) =
      (.ok { a with isApproved := isApproved }, .between v (v :: κ) m χ) := by
  have hgoes := approvalWrites_go hs hl ha isApproved
  rw [← hv] at hgoes
  have hrow : db.lookup ⟨.asset, a.id⟩ = some a := hs.keys.lookup (t := .asset) ha
  have hnew : v.lookup ⟨.asset, a.id⟩ = some { a with isApproved := isApproved } := by
    rw [hv, lookup_approvalWrites hrow, hrow]
    simp
  have hstage : (assignApproval a isApproved).solo (.between db κ m χ) =
      (.ok (), { Solo.between db κ m χ with dirty := approvalWrites a isApproved }) := by
    unfold assignApproval approvalWrites
    split <;> rfl
  unfold saveAsset
  simp only [if_true]
  rw [Prog.solo_bind_ok hstage]
  refine (Prog.solo_bind_ok (Solo.commit_between hgoes)).trans ?_
  exact refresh_solo (σ := .between v (v :: κ) m χ) Solo.tidy_between hnew

/-- A cached asset is inserted again, and the insert is refused. -/
theorem saveAsset_cached {a : Asset} (ha : (db.lookup ⟨.asset, a.id⟩).isSome)
    (isApproved : Bool) : ∃ e σ, (saveAsset { asset := a, attached := false } isApproved).solo
      (.between db κ m χ) = (.error e, σ) ∧ σ.db = db ∧ σ.shared = m := by
  obtain ⟨b, hb⟩ := Option.isSome_iff_exists.mp ha
  have hrefused : db.sendAll [(Write.insert .asset { a with isApproved := isApproved } :
      Write adehun)] = .error .integrity := by
    rw [Db.sendAll]
    have hid : db.lookup ⟨.asset, adehun.id (t := .asset) { a with isApproved := isApproved }⟩ =
      some b := hb
    simp only [Write.refusal, hid]
    rfl
  let staged : Solo adehun := { Solo.between db κ m χ with
    dirty := [(Write.insert .asset { a with isApproved := isApproved } : Write adehun)] }
  have hcommit : commit.solo staged = (.error .integrity, staged.refuse) := by
    refine (Prog.solo_perform _).trans ?_
    simp [Solo.exec, Solo.sql, staged, hrefused]
  refine ⟨.integrity, staged.refuse, ?_, rfl, rfl⟩
  unfold saveAsset
  simp only [Bool.false_eq_true, if_false]
  rw [Prog.solo_bind_ok (add_solo _)]
  exact Prog.solo_bind_error hcommit

/-- The row of an asset, read past the cache and cached. -/
theorem getAssetById_miss (hs : db.Sound) {assetId : Id}
    (hmiss : cached (seen m χ) (.asset assetId) = none) :
    (db.lookup ⟨.asset, assetId⟩ = none ∧ ∃ χ', (getAssetById assetId).solo
      (.between db κ m χ) = (.ok none, .between db κ (seen m χ) χ')) ∨
    ∃ a : Asset, db.lookup ⟨.asset, assetId⟩ = some a ∧ ∃ χ', (getAssetById assetId).solo
      (.between db κ m χ) = (.ok (some { asset := a, attached := true }),
        .between db κ (setKey (.asset assetId) (.asset a) (seen (seen m χ) (Chance.onward χ)))
          χ') := by
  have hget := @cacheGet_between db κ m χ (.asset assetId)
  rw [hmiss] at hget
  have hload := loadFirst_solo (σ := .between db κ (seen m χ) (Chance.onward χ))
    Solo.tidy_between hs .asset fun a => a.id = assetId
  rw [Solo.between_view, show (db .asset : List Asset).find? (fun a => a.id = assetId) =
    db.lookup ⟨.asset, assetId⟩ from rfl] at hload
  cases ha : db.lookup ⟨.asset, assetId⟩ with
  | none =>
      rw [ha] at hload
      refine .inl ⟨rfl, Chance.onward χ, ?_⟩
      unfold getAssetById
      rw [Prog.solo_bind_ok hget]
      simp only
      rw [Prog.solo_bind_ok hload]
      rfl
  | some a =>
      rw [ha] at hload
      refine .inr ⟨a, rfl, Chance.onward (Chance.onward χ), ?_⟩
      unfold getAssetById
      rw [Prog.solo_bind_ok hget]
      simp only
      rw [Prog.solo_bind_ok hload]
      rfl

theorem getAssetById_hit {assetId : Id} {a : Asset}
    (hhit : cached (seen m χ) (.asset assetId) = some (.asset a)) :
    (getAssetById assetId).solo (.between db κ m χ) =
      (.ok (some { asset := a, attached := false }),
        .between db κ (seen m χ) (Chance.onward χ)) := by
  have hget := @cacheGet_between db κ m χ (.asset assetId)
  rw [hhit] at hget
  unfold getAssetById
  rw [Prog.solo_bind_ok hget]
  rfl

/-- What follows the lookups of a decision. -/
theorem settleDecision_solo (hk : InOrder ⟨db, m⟩) (isApproved : Bool) {a : Asset}
    (ha : a ∈ (db .asset : List Asset)) (conditionId : Id) :
    ∃ r σ, (do
      let asset ← saveAsset { asset := a, attached := true } isApproved
      invalidateCache (.conditionAsset conditionId)
      assetResponse { asset := asset, attached := true } : App AssetResponse).solo
        (.between db κ m χ) = (.ok r, σ) ∧ InOrder ⟨σ.db, σ.shared⟩ ∧ r.id = a.id ∧
      r.isApproved = isApproved ∧
      ∃ row : Asset, σ.db.lookup ⟨.asset, a.id⟩ = some row ∧ row.isApproved = isApproved := by
  have hs : db.Sound := hk.sound
  have hl : Linked db := hk.linked
  have hm : Stocked db m := hk.stocked
  have hrow : db.lookup ⟨.asset, a.id⟩ = some a := hs.keys.lookup (t := .asset) ha
  have hsave := saveAsset_attached (κ := κ) (m := m) (χ := χ) hs hl ha isApproved rfl
  have hsound := hs.sendAll (approvalWrites_go hs hl ha isApproved)
  have hlinked := linked_approval hs hl ha isApproved
  have hnew : (db.applyAll (approvalWrites a isApproved)).lookup ⟨.asset, a.id⟩ =
      some { a with isApproved := isApproved } := by
    rw [lookup_approvalWrites hrow, hrow]
    simp
  have hdrop := @invalidateCache_between (db.applyAll (approvalWrites a isApproved))
    (db.applyAll (approvalWrites a isApproved) :: κ) m χ (.conditionAsset conditionId)
  obtain ⟨r, hr, hline⟩ := assetResponse_attached
    (κ := db.applyAll (approvalWrites a isApproved) :: κ)
    (m := dropKeys (fun k' => decide (k' ≠ .conditionAsset conditionId)) (seen m χ))
    (χ := Chance.onward χ) hsound hlinked (Db.lookup_mem hnew)
  have hline := Prod.mk.inj hline
  have hids : ∀ id, (db.lookup ⟨.asset, id⟩).isSome →
      ((db.applyAll (approvalWrites a isApproved)).lookup ⟨.asset, id⟩).isSome := by
    intro id hid
    rw [lookup_approvalWrites hrow, Option.isSome_map]
    exact hid
  exact ⟨r, _, (Prog.solo_bind_ok hsave).trans ((Prog.solo_bind_ok hdrop).trans hr),
    ⟨hsound, hlinked, Stocked.mono ((hm.seen χ).dropKeys _) hids⟩, hline.1, hline.2, _, hnew, rfl⟩

/-- A decision, inside its guard. -/
theorem decisionRows_solo (hk : InOrder ⟨db, m⟩) (refusal : String) (isApproved : Bool)
    (conditionId assetId userId : Id) :
    ∃ r σ, (decisionRows refusal isApproved conditionId assetId userId).solo
        (.between db [] m χ) = (r, σ) ∧ InOrder ⟨σ.db, σ.shared⟩ ∧
      (MayDecide db conditionId assetId userId →
        ((∃ x, r = .ok x ∧ x.id = assetId ∧ x.isApproved = isApproved ∧
          ∃ row : Asset, σ.db.lookup ⟨.asset, assetId⟩ = some row ∧
            row.isApproved = isApproved) ↔ cached (seen m χ) (.asset assetId) = none)) := by
  have hs : db.Sound := hk.sound
  have hl : Linked db := hk.linked
  have hm : Stocked db m := hk.stocked
  have hcondition := get_solo (σ := .between db [] m χ) Solo.tidy_between .condition conditionId
  rw [Solo.between_view] at hcondition
  unfold decisionRows
  cases hc : db.lookup ⟨.condition, conditionId⟩ with
  | none =>
      rw [hc] at hcondition
      refine ⟨.error conditionNotFound, .between db [] m χ, (Prog.solo_bind_ok hcondition).trans rfl,
        ⟨hs, hl, hm⟩, ?_⟩
      rintro ⟨⟨c, hlook, -⟩, -⟩
      rw [hc] at hlook
      cases hlook
  | some c =>
  rw [hc] at hcondition
  rw [Prog.solo_bind_ok hcondition]
  simp only
  have hjoined := getParticipantForUser_solo (σ := .between db [] m χ) Solo.tidy_between hs
    (c : Condition).agreementId userId
  rw [Solo.between_view] at hjoined
  cases hp : (db .agreementParticipant : List AgreementParticipant).find? (fun p =>
      p.agreementId = (c : Condition).agreementId && p.userId = userId) with
  | none =>
      rw [hp] at hjoined
      refine ⟨.error notAParticipant, .between db [] m χ, (Prog.solo_bind_ok hjoined).trans rfl,
        ⟨hs, hl, hm⟩, ?_⟩
      rintro ⟨⟨c', hlook, p, hfind, -⟩, -⟩
      rw [hc] at hlook
      cases hlook
      rw [hp] at hfind
      cases hfind
  | some p =>
  rw [hp] at hjoined
  rw [Prog.solo_bind_ok hjoined]
  simp only
  by_cases hrole : p.role = .depositor
  case neg =>
    refine ⟨.error (.app .forbidden refusal), .between db [] m χ,
      Prog.solo_bind_error (raiseIf_stop hrole), ⟨hs, hl, hm⟩, ?_⟩
    rintro ⟨⟨c', hlook, p', hfind, hdepositor⟩, -⟩
    rw [hc] at hlook
    cases hlook
    rw [hp] at hfind
    cases hfind
    exact absurd hdepositor hrole
  rw [Prog.solo_bind_ok (raiseIf_pass (not_not.mpr hrole))]
  cases hcached : cached (seen m χ) (.asset assetId) with
  | some v =>
      -- the asset comes out of the cache: whatever it is, nothing is decided
      obtain ⟨a, rfl, hid, hsome⟩ := hm.seen χ _ v hcached
      have hget := @getAssetById_hit db [] m χ _ _ hcached
      rw [Prog.solo_bind_ok hget]
      simp only
      have hsame : InOrder ⟨db, seen m χ⟩ := ⟨hs, hl, hm.seen χ⟩
      by_cases howner : a.conditionId = some conditionId
      · rw [Prog.solo_bind_ok (raiseIf_pass (not_not.mpr howner))]
        rw [← hid] at hsome
        obtain ⟨e, σ, hsave, hdb, hshared⟩ := saveAsset_cached (κ := []) (m := seen m χ)
          (χ := Chance.onward χ) hsome isApproved
        refine ⟨.error e, σ, Prog.solo_bind_error hsave, ?_, fun _ => iff_of_false ?_ (by simp)⟩
        · rw [hdb, hshared]
          exact hsame
        · rintro ⟨x, hx, -⟩
          cases hx
      · refine ⟨.error assetNotFound, .between db [] (seen m χ) (Chance.onward χ),
          Prog.solo_bind_error (raiseIf_stop howner), hsame, fun _ => iff_of_false ?_ (by simp)⟩
        rintro ⟨x, hx, -⟩
        cases hx
  | none =>
      rcases getAssetById_miss (κ := []) hs hcached with ⟨hnone, χ', hget⟩ | ⟨a, ha, χ', hget⟩
      · refine ⟨.error assetNotFound, .between db [] (seen m χ) χ',
          (Prog.solo_bind_ok hget).trans rfl, ⟨hs, hl, hm.seen χ⟩, ?_⟩
        rintro ⟨-, a, ha, -⟩
        rw [hnone] at ha
        cases ha
      · rw [Prog.solo_bind_ok hget]
        simp only
        have hid : a.id = assetId := Db.lookup_id ha
        have hkept : InOrder ⟨db, setKey (.asset assetId) (.asset a)
            (seen (seen m χ) (Chance.onward χ))⟩ := by
          refine ⟨hs, hl, Stocked.setKey ((hm.seen χ).seen _) ⟨a, rfl, hid, ?_⟩⟩
          rw [ha]
          rfl
        by_cases howner : a.conditionId = some conditionId
        · rw [Prog.solo_bind_ok (raiseIf_pass (not_not.mpr howner))]
          obtain ⟨r, σ, hrun, hk', hrid, happroved, hrow⟩ := settleDecision_solo (κ := [])
            (χ := χ') hkept isApproved (Db.lookup_mem ha) conditionId
          rw [hid] at hrid hrow
          exact ⟨.ok r, σ, hrun, hk', fun _ => iff_of_true ⟨r, rfl, hrid, happroved, hrow⟩ trivial⟩
        · refine ⟨.error assetNotFound, .between db [] _ χ',
            Prog.solo_bind_error (raiseIf_stop howner), hkept, ?_⟩
          rintro ⟨-, a', ha', howner'⟩
          rw [ha] at ha'
          cases ha'
          exact absurd howner' howner

end Decision

/-! ## Handlers and uploads -/

section Handlers

variable {db : Db adehun} {m : Shared} {χ : Chance adehun}

/-- A handler that rolls back and raises something else keeps what was
committed, and answers what is answered inside it. -/
theorem handled_solo {α : Type} {p : App α} (kept : List ErrorClass) (e' : Exn)
    {r : Except Exn α} {σ : Solo adehun} (h : p.solo (.between db [] m χ) = (r, σ)) :
    ∃ r' σ', (handled kept e' p).solo (.between db [] m χ) = (r', σ') ∧ σ'.db = σ.db ∧
      σ'.shared = σ.shared ∧ ∀ a, r' = .ok a ↔ r = .ok a := by
  have hattempt := solo_attempt (σ := .between db [] m χ) p
  rw [h] at hattempt
  unfold handled
  rw [Prog.solo_bind_ok hattempt]
  cases r with
  | ok a => exact ⟨.ok a, σ, rfl, rfl, rfl, fun _ => Iff.rfl⟩
  | error e =>
      simp only
      split
      · exact ⟨.error e, σ, rfl, rfl, rfl, fun _ => Iff.rfl⟩
      · exact ⟨.error e', _, rfl, rfl, rfl, fun _ => by simp⟩

/-- A decision. -/
theorem decideAsset_solo (hk : InOrder ⟨db, m⟩) (refusal : String) (isApproved : Bool)
    (conditionId assetId userId : Id) :
    ∃ r σ, (decideAsset refusal isApproved conditionId assetId userId).solo
        (.between db [] m χ) = (r, σ) ∧ InOrder ⟨σ.db, σ.shared⟩ ∧
      (MayDecide db conditionId assetId userId →
        ((∃ x, r = .ok x ∧ x.id = assetId ∧ x.isApproved = isApproved ∧
          ∃ row : Asset, σ.db.lookup ⟨.asset, assetId⟩ = some row ∧
            row.isApproved = isApproved) ↔ cached (seen m χ) (.asset assetId) = none)) := by
  obtain ⟨r, σ, hrun, hkept, hright⟩ := decisionRows_solo (χ := χ) hk refusal isApproved conditionId
    assetId userId
  obtain ⟨r', σ', hrun', hdb, hshared, hok⟩ := handled_solo
    [.conditionNotFound, .forbidden, .assetNotFound]
    (.app .assetApproval "Failed to approve or reject asset") hrun
  refine ⟨r', σ', hrun', ?_, fun hmay => ?_⟩
  · rw [hdb, hshared]
    exact hkept
  · rw [← hright hmay, hdb]
    simp only [hok]

/-- Values numbered with the identifiers drawn for them. -/
def drawnFor {α : Type} (ids : Nat → Id) : List α → List (Id × α)
  | [] => []
  | a :: as => (ids 0, a) :: drawnFor (fun n => ids (n + 1)) as

theorem drawnFor_ids {α : Type} (ids : Nat → Id) (as : List α) :
    (drawnFor ids as).map (·.1) = (List.range as.length).map ids := by
  induction as generalizing ids with
  | nil => rfl
  | cons a as ih =>
      rw [drawnFor, List.map_cons, ih, List.length_cons, List.range_succ_eq_map, List.map_cons,
        List.map_map]
      rfl

theorem drawnFor_mem {α : Type} {ids : Nat → Id} {as : List α} {x : Id × α}
    (h : x ∈ drawnFor ids as) : x.2 ∈ as := by
  induction as generalizing ids with
  | nil => cases h
  | cons a as ih =>
      rcases List.mem_cons.mp h with rfl | h
      · exact List.mem_cons_self
      · exact List.mem_cons_of_mem _ (ih h)

/-- The rows that `addEach` stages. -/
def drawnRows {α : Type} (t : Table) (row : Id → α → t.Row) (ids : Nat → Id) (as : List α) :
    List t.Row := (drawnFor ids as).map fun x => row x.1 x.2

theorem addEach_solo (db view : Db adehun) {α : Type} (t : Table) (row : Id → α → t.Row)
    (as : List α) {κ : List (Db adehun)} (ds : List (Write adehun)) :
    ∃ χ', (addEach t row as).solo { Solo.amid db view κ m χ with dirty := ds } =
      (.ok ((List.range as.length).map χ.ids), { Solo.amid db view κ m χ' with
        dirty := ds ++ (drawnRows t row χ.ids as).map (Write.insert (M := adehun) t) }) ∧
      χ'.ids = fun n => χ.ids (n + as.length) := by
  unfold addEach drawnRows
  rw [← drawnFor_ids]
  induction as generalizing χ ds with
  | nil => exact ⟨χ, by simp [drawnFor, Prog.forEach], rfl⟩
  | cons a as ih =>
      obtain ⟨χ', h, hids⟩ := ih (χ := χ.next)
        (ds ++ [Write.insert (M := adehun) t (row (χ.ids 0) a)])
      refine ⟨χ', ?_, ?_⟩
      · rw [Prog.forEach, Prog.solo_bind']
        refine (Prog.solo_bind_ok h).trans ?_
        simp [drawnFor]
        exact ⟨⟨rfl, rfl⟩, rfl⟩
      · rw [hids]
        funext n
        show χ.ids (n + as.length + 1) = χ.ids (n + (as.length + 1))
        rfl

/-- Identifiers that no file and no asset has. -/
structure FreshAssets (db : Db adehun) (ids : Nat → Id) : Prop where
  injective : Function.Injective ids
  files : ∀ n, db.lookup ⟨.assetFile, ids n⟩ = none
  assets : ∀ n, db.lookup ⟨.asset, ids n⟩ = none

theorem drawnRows_ids {α : Type} {t : Table} (row : Id → α → t.Row)
    (hrow : ∀ id a, rowId (row id a) = id) (ids : Nat → Id) (as : List α) :
    (drawnRows t row ids as).map rowId = (List.range as.length).map ids := by
  rw [← drawnFor_ids, drawnRows, List.map_map]
  exact List.map_congr_left fun x _ => hrow x.1 x.2

theorem nodup_ids {ids : Nat → Id} (h : Function.Injective ids) (n : Nat) :
    ((List.range n).map ids).Nodup := List.Nodup.map h List.nodup_range

/-- New rows go in. -/
theorem drawnRows_go {α : Type} {t : Table} (row : Id → α → t.Row)
    (hrow : ∀ id a, rowId (row id a) = id) (hentries : ∀ id a, rowEntries (row id a) = [])
    (hcheck : ∀ id a, rowCheck (row id a) = none) {view : Db adehun} (hs : view.Sound)
    {ids : Nat → Id} (hids : Function.Injective ids) (hnew : ∀ n, view.lookup ⟨t, ids n⟩ = none)
    (as : List α) :
    view.sendAll ((drawnRows t row ids as).map (Write.insert (M := adehun) t)) =
      .ok (view.applyAll ((drawnRows t row ids as).map (Write.insert (M := adehun) t))) := by
  have hall : ∀ r ∈ drawnRows t row ids as, ∃ n a, r = row (ids n) a := by
    intro r hr
    obtain ⟨x, hx, rfl⟩ := List.mem_map.mp hr
    have hmem := List.mem_map_of_mem (f := (·.1)) hx
    rw [drawnFor_ids] at hmem
    obtain ⟨n, -, hn⟩ := List.mem_map.mp hmem
    exact ⟨n, x.2, by rw [hn]⟩
  refine hs.sendInserts ?_ ?_ ?_ ?_
  · intro r hr
    obtain ⟨n, a, rfl⟩ := hall r hr
    exact hentries _ _
  · intro r hr
    obtain ⟨n, a, rfl⟩ := hall r hr
    exact hcheck _ _
  · show ((drawnRows t row ids as).map rowId).Nodup
    rw [drawnRows_ids row hrow]
    exact nodup_ids hids _
  · intro r hr
    obtain ⟨n, a, rfl⟩ := hall r hr
    show view.lookup ⟨t, rowId (row (ids n) a)⟩ = none
    rw [hrow]
    exact hnew n

theorem isSome_lookup {db : Db adehun} (hs : db.Sound) {t : Table} {r : t.Row} (hr : r ∈ db t) :
    (db.lookup ⟨t, rowId r⟩).isSome := by
  have := hs.keys.lookup (t := t) hr
  rw [show rowId r = adehun.id r from rfl, this]
  rfl

theorem mem_of_isSome {db : Db adehun} {t : Table} {id : Id} (h : (db.lookup ⟨t, id⟩).isSome) :
    ∃ r ∈ db t, rowId r = id := by
  obtain ⟨r, hr⟩ := Option.isSome_iff_exists.mp h
  exact ⟨r, Db.lookup_mem hr, Db.lookup_id hr⟩

theorem flush_amid {view v : Db adehun} {κ : List (Db adehun)} {ds : List (Write adehun)}
    (hv : view.sendAll ds = .ok v) :
    flush.solo { Solo.amid db view κ m χ with dirty := ds } =
      (.ok (), .amid db v κ m χ) := by
  refine (Prog.solo_perform _).trans ?_
  rw [Solo.exec_flush rfl hv]
  rfl

/-- The tables once files and assets are in. -/
structure Uploaded (db v : Db adehun) (files : List AssetFile) (assets : List Asset) : Prop where
  files : (v .assetFile : List AssetFile) = db .assetFile ++ files
  assets : (v .asset : List Asset) = db .asset ++ assets
  apart : ∀ t : Table, t ≠ .assetFile → t ≠ .asset → v t = db t

/-- Everything stays linked, if the new assets are. -/
theorem Uploaded.kept {v : Db adehun} {files : List AssetFile} {assets : List Asset}
    (h : Uploaded db v files assets) (hk : InOrder ⟨db, m⟩) (hs : v.Sound) {m' : Shared}
    (hm : Stocked db m') (hnew : ∀ a ∈ assets,
      (∃ p ∈ (db .agreementParticipant : List AgreementParticipant), p.id = a.uploadedBy) ∧
      (∃ f ∈ files, f.id = a.fileId) ∧ rowCheck (t := .asset) a = none) : InOrder ⟨v, m'⟩ := by
  have hl : Linked db := hk.linked
  refine ⟨hs, ?_, hm.mono fun id hid => ?_⟩
  · show Linked v
    have hparticipants : ∀ p ∈ (db .agreementParticipant : List AgreementParticipant),
        (v.lookup ⟨.agreementParticipant, p.id⟩).isSome := by
      intro p hp
      refine isSome_lookup hs (t := .agreementParticipant) (r := p) ?_
      rw [h.apart _ (by decide) (by decide)]
      exact hp
    have hfiles : ∀ f ∈ (v .assetFile : List AssetFile), (v.lookup ⟨.assetFile, f.id⟩).isSome :=
      fun f hf => isSome_lookup hs (t := .assetFile) hf
    intro a ha
    rw [h.assets] at ha
    rcases List.mem_append.mp ha with hold | hone
    · obtain ⟨hup, hfile, hcheck⟩ := hl a hold
      obtain ⟨p, hp, hpid⟩ := mem_of_isSome hup
      obtain ⟨f, hf, hfid⟩ := mem_of_isSome hfile
      refine ⟨?_, ?_, hcheck⟩
      · rw [← hpid]
        exact hparticipants p hp
      · rw [← hfid]
        refine hfiles f ?_
        rw [h.files]
        exact List.mem_append_left _ hf
    · obtain ⟨⟨p, hp, hpid⟩, ⟨f, hf, hfid⟩, hcheck⟩ := hnew a hone
      refine ⟨?_, ?_, hcheck⟩
      · rw [← hpid]
        exact hparticipants p hp
      · rw [← hfid]
        refine hfiles f ?_
        rw [h.files]
        exact List.mem_append_right _ hf
  · obtain ⟨a, ha, haid⟩ := mem_of_isSome hid
    rw [← haid]
    refine isSome_lookup hs (t := .asset) (r := a) ?_
    show a ∈ (v .asset : List Asset)
    rw [h.assets]
    exact List.mem_append_left _ ha

/-- An upload, inside its guard. -/
theorem uploadRows_solo (hk : InOrder ⟨db, m⟩) (hfresh : FreshAssets db χ.ids)
    (userId conditionId : Id) (files : List UploadedFile) :
    ∃ r σ, (uploadRows userId conditionId files).solo (.between db [] m χ) = (r, σ) ∧
      InOrder ⟨σ.db, σ.shared⟩ := by
  have hs : db.Sound := hk.sound
  have hl : Linked db := hk.linked
  have hm : Stocked db m := hk.stocked
  have hcondition := get_solo (σ := .between db [] m χ) Solo.tidy_between .condition conditionId
  rw [Solo.between_view] at hcondition
  unfold uploadRows
  cases hc : db.lookup ⟨.condition, conditionId⟩ with
  | none =>
      rw [hc] at hcondition
      exact ⟨.error conditionNotFound, .between db [] m χ, (Prog.solo_bind_ok hcondition).trans rfl,
        hk⟩
  | some c =>
  rw [hc] at hcondition
  rw [Prog.solo_bind_ok hcondition]
  simp only
  have hjoined := getParticipantForUser_solo (σ := .between db [] m χ) Solo.tidy_between hs
    (c : Condition).agreementId userId
  rw [Solo.between_view] at hjoined
  cases hp : (db .agreementParticipant : List AgreementParticipant).find? (fun p =>
      p.agreementId = (c : Condition).agreementId && p.userId = userId) with
  | none =>
      rw [hp] at hjoined
      exact ⟨.error notAParticipant, .between db [] m χ, (Prog.solo_bind_ok hjoined).trans rfl, hk⟩
  | some p =>
  rw [hp] at hjoined
  rw [Prog.solo_bind_ok hjoined]
  simp only
  -- the files, and the assets that point at them
  obtain ⟨χ₁, hfiles, hids₁⟩ := addEach_solo db db (χ := χ) (m := m) (κ := []) .assetFile
    uploadFile files []
  have hgo₁ := drawnRows_go (t := .assetFile) uploadFile (fun _ _ => rfl)
    (fun _ _ => rfl) (fun _ _ => rfl) hs hfresh.injective hfresh.files files
  generalize hv₁ : db.applyAll ((drawnRows .assetFile uploadFile χ.ids files).map
    (Write.insert (M := adehun) .assetFile)) = v₁ at hgo₁
  have hs₁ : v₁.Sound := hs.sendAll hgo₁
  have hfiles₁ : (v₁ .assetFile : List AssetFile) =
      db .assetFile ++ drawnRows .assetFile uploadFile χ.ids files := by
    rw [← hv₁]
    exact Db.applyAll_inserts (M := adehun) .assetFile _
  have hapart₁ : ∀ t : Table, t ≠ .assetFile → v₁ t = db t := by
    intro t ht
    rw [← hv₁]
    exact Db.inserts_apart (M := adehun) (t := .assetFile) ht _
  obtain ⟨χ₂, hassets, hids₂⟩ := addEach_solo db v₁ (χ := χ₁) (m := m)
    (κ := []) .asset (deliverable conditionId p.id) ((List.range files.length).map χ.ids) []
  have hinjective : Function.Injective χ₁.ids := by
    rw [hids₁]
    intro i j hij
    have := hfresh.injective hij
    omega
  have hgo₂ := drawnRows_go (t := .asset) (deliverable conditionId p.id) (fun _ _ => rfl)
    (fun _ _ => rfl) (fun _ _ => rfl) hs₁ hinjective (by
      intro n
      rw [hids₁, Db.lookup, hapart₁ .asset (by decide)]
      exact hfresh.assets _) ((List.range files.length).map χ.ids)
  generalize hrows : drawnRows .asset (deliverable conditionId p.id) χ₁.ids
    ((List.range files.length).map χ.ids) = rows at hassets hgo₂
  generalize hv₂ : v₁.applyAll (rows.map (Write.insert (M := adehun) .asset)) = v₂ at hgo₂
  have hs₂ : v₂.Sound := hs₁.sendAll hgo₂
  have huploaded : Uploaded db v₂ (drawnRows .assetFile uploadFile χ.ids files) rows := by
    refine ⟨?_, ?_, ?_⟩
    · rw [← hfiles₁, ← hv₂]
      exact Db.inserts_apart (M := adehun) (t := .asset) (by decide) _
    · rw [← hapart₁ .asset (by decide), ← hv₂]
      exact Db.applyAll_inserts (M := adehun) .asset _
    · intro t ht ht'
      rw [← hapart₁ t ht, ← hv₂]
      exact Db.inserts_apart (M := adehun) (t := .asset) ht' _
  have hkept : InOrder ⟨v₂, dropKeys (fun k' => decide (k' ≠ .conditionAsset conditionId))
      (seen m χ₂)⟩ := by
    refine huploaded.kept hk hs₂ ((hm.seen χ₂).dropKeys _) ?_
    intro a ha
    rw [← hrows] at ha
    obtain ⟨x, hx, rfl⟩ := List.mem_map.mp ha
    refine ⟨⟨p, List.mem_of_find?_eq_some hp, rfl⟩, ?_, rfl⟩
    have hfile := drawnFor_mem hx
    rw [← drawnRows_ids (t := .assetFile) uploadFile fun _ _ => rfl] at hfile
    obtain ⟨f, hf, hfid⟩ := List.mem_map.mp hfile
    exact ⟨f, hf, hfid⟩
  rw [List.nil_append] at hfiles hassets
  have hcommit := Solo.commit_amid db v₂ (κ := []) (m := m) (χ := χ₂)
    (show v₂.sendAll [] = .ok v₂ from rfl)
  have hdrop := @invalidateCache_between v₂ [v₂] m χ₂ (.conditionAsset conditionId)
  generalize dropKeys (fun k' => decide (k' ≠ .conditionAsset conditionId)) (seen m χ₂) = m₃
    at hkept hdrop
  have hload := loadAll_solo (σ := .between v₂ [v₂] m₃ (Chance.onward χ₂)) Solo.tidy_between hs₂
    .asset fun a => a.id ∈ (List.range ((List.range files.length).map χ.ids).length).map χ₁.ids
  obtain ⟨shown, hshown, -⟩ := assetResponses_attached (κ := [v₂]) (m := m₃)
    (χ := Chance.onward χ₂) hs₂ hkept.linked
    (l := (v₂ .asset : List Asset).filter fun a =>
      a.id ∈ (List.range ((List.range files.length).map χ.ids).length).map χ₁.ids)
    fun a ha => List.mem_of_mem_filter ha
  refine ⟨.ok shown, .between v₂ [v₂] m₃ (Chance.onward χ₂), ?_, hkept⟩
  refine (Prog.solo_bind_ok hfiles).trans ?_
  refine (Prog.solo_bind_ok (flush_amid hgo₁)).trans ?_
  refine (Prog.solo_bind_ok hassets).trans ?_
  refine (Prog.solo_bind_ok (flush_amid hgo₂)).trans ?_
  refine (Prog.solo_bind_ok hcommit).trans ?_
  refine (Prog.solo_bind_ok hdrop).trans ?_
  exact (Prog.solo_bind_ok hload).trans hshown

/-- An upload. -/
theorem addAssetToCondition_solo (hk : InOrder ⟨db, m⟩) (hfresh : FreshAssets db χ.ids)
    (userId conditionId : Id) (files : List UploadedFile) :
    ∃ r σ, (addAssetToCondition userId conditionId files).solo (.between db [] m χ) = (r, σ) ∧
      InOrder ⟨σ.db, σ.shared⟩ := by
  obtain ⟨r, σ, hrun, hkept⟩ := uploadRows_solo hk hfresh userId conditionId files
  obtain ⟨r', σ', hrun', hdb, hshared, -⟩ := handled_solo [.conditionNotFound, .forbidden]
    (.app .assetUpload "Failed to upload asset") hrun
  refine ⟨r', σ', hrun', ?_⟩
  rw [hdb, hshared]
  exact hkept

end Handlers

/-! ## Histories -/

/-- A request about assets, or time that passes and a key that expires. -/
inductive AssetOp
  | uploads (userId conditionId : Id) (files : List UploadedFile) (χ : Chance adehun)
  | approves (conditionId assetId userId : Id) (χ : Chance adehun)
  | rejects (conditionId assetId userId : Id) (χ : Chance adehun)
  | listsCondition (conditionId : Id) (χ : Chance adehun)
  | listsAgreement (agreementId : Id) (χ : Chance adehun)
  | passes (a : Ambient)

namespace AssetOp

def apply (w : World) : AssetOp → World
  | uploads userId conditionId files χ => w.after (addAssetToCondition userId conditionId files) χ
  | approves conditionId assetId userId χ => w.after (approveAsset conditionId assetId userId) χ
  | rejects conditionId assetId userId χ => w.after (rejectAsset conditionId assetId userId) χ
  | listsCondition conditionId χ => w.after (getAssetsForCondition conditionId) χ
  | listsAgreement agreementId χ => w.after (getAssetsForAgreement agreementId) χ
  | passes a => { w with shared := ambient a w.shared }

/-- The identifiers an upload draws are new. -/
def Draws (w : World) : AssetOp → Prop
  | uploads _ _ _ χ => FreshAssets w.db χ.ids
  | _ => True

/-- A decision succeeds: it is answered, and the row says so. -/
def Decides (isApproved : Bool) (assetId : Id) (answer : Except Exn AssetResponse)
    (after : World) : Prop :=
  ∃ r, answer = .ok r ∧ r.id = assetId ∧ r.isApproved = isApproved ∧
    ∃ row : Asset, after.db.lookup ⟨.asset, assetId⟩ = some row ∧ row.isApproved = isApproved

/-- A listing succeeds: it shows what the tables hold. -/
def Lists (w : World) (p : Condition → Bool) (answer : Except Exn (List AssetResponse)) : Prop :=
  ∃ shown, answer = .ok shown ∧
    shown.map AssetResponse.line = (deliverables w.db p).map Asset.line

/-- Decisions of the depositor on an asset of the condition succeed, and so do
listings of what there is. -/
def Succeeds (w : World) : AssetOp → Prop
  | op@(approves conditionId assetId userId χ) => MayDecide w.db conditionId assetId userId →
      Decides true assetId (outcome (approveAsset conditionId assetId userId) w.db w.shared χ)
        (op.apply w)
  | op@(rejects conditionId assetId userId χ) => MayDecide w.db conditionId assetId userId →
      Decides false assetId (outcome (rejectAsset conditionId assetId userId) w.db w.shared χ)
        (op.apply w)
  | listsCondition conditionId χ => (w.db.lookup ⟨.condition, conditionId⟩).isSome →
      Lists w (fun c => c.id = conditionId)
        (outcome (getAssetsForCondition conditionId) w.db w.shared χ)
  | listsAgreement agreementId χ => (w.db.lookup ⟨.agreement, agreementId⟩).isSome →
      Lists w (fun c => c.agreementId = agreementId)
        (outcome (getAssetsForAgreement agreementId) w.db w.shared χ)
  | uploads _ _ _ _ | passes _ => True

/-- What the request reads is not cached. -/
def Misses (w : World) : AssetOp → Prop
  | approves conditionId assetId userId χ | rejects conditionId assetId userId χ =>
      MayDecide w.db conditionId assetId userId → cached (seen w.shared χ) (.asset assetId) = none
  | listsCondition conditionId χ => (w.db.lookup ⟨.condition, conditionId⟩).isSome →
      cached (seen w.shared χ) (.conditionAsset conditionId) = none
  | listsAgreement agreementId χ => (w.db.lookup ⟨.agreement, agreementId⟩).isSome →
      cached (seen w.shared χ) (.agreementAsset agreementId) = none
  | uploads _ _ _ _ | passes _ => True

end AssetOp

section Step

variable {w : World}

/-- A decision in a history. -/
theorem decides_iff (hk : InOrder w) (refusal : String) (isApproved : Bool)
    (conditionId assetId userId : Id) (χ : Chance adehun) :
    InOrder (w.after (decideAsset refusal isApproved conditionId assetId userId) χ) ∧
      (MayDecide w.db conditionId assetId userId →
        (AssetOp.Decides isApproved assetId
            (outcome (decideAsset refusal isApproved conditionId assetId userId) w.db w.shared χ)
            (w.after (decideAsset refusal isApproved conditionId assetId userId) χ) ↔
          cached (seen w.shared χ) (.asset assetId) = none)) := by
  obtain ⟨r, σ, hrun, hkept, hright⟩ := decideAsset_solo (m := w.shared) (χ := χ) hk
    refusal isApproved conditionId assetId userId
  obtain ⟨hafter, hanswer⟩ := after_eq hrun
  rw [hafter, hanswer]
  exact ⟨hkept, hright⟩

/-- A listing in a history. -/
theorem lists_iff (hk : InOrder w) {α : Type} {owner : App (Option α)} {missing : Exn}
    {kept : ErrorClass} {key : CacheKey} {p : Condition → Bool} {found : Option α}
    (hkey : ∀ v, Stock w.db key v ↔ ∃ rows : List Asset, v = .assets rows ∧ rows ≠ [])
    (χ : Chance adehun) (howner : owner.solo (.between w.db [] w.shared χ) =
      (.ok found, .between w.db [] w.shared χ)) :
    InOrder (w.after (retrieveAssets owner missing kept (cachedAssets key p)) χ) ∧
      (found.isSome → (AssetOp.Lists w p
          (outcome (retrieveAssets owner missing kept (cachedAssets key p)) w.db w.shared χ) ↔
        cached (seen w.shared χ) key = none)) := by
  obtain ⟨r, m', χ', hrun, hm, hright⟩ := retrieveAssets_solo missing kept
    (p := p) hk.sound hk.linked hk.stocked hkey howner
  obtain ⟨hafter, hanswer⟩ := after_eq hrun
  rw [hafter, hanswer]
  exact ⟨⟨hk.sound, hk.linked, hm⟩, hright⟩

theorem lists_condition (hk : InOrder w) (conditionId : Id) (χ : Chance adehun) :
    InOrder (w.after (getAssetsForCondition conditionId) χ) ∧
      ((w.db.lookup ⟨.condition, conditionId⟩).isSome → (AssetOp.Lists w
          (fun c => c.id = conditionId)
          (outcome (getAssetsForCondition conditionId) w.db w.shared χ) ↔
        cached (seen w.shared χ) (.conditionAsset conditionId) = none)) :=
  lists_iff hk (fun _ => Iff.rfl) χ
    (get_solo (σ := .between w.db [] w.shared χ) Solo.tidy_between .condition conditionId)

theorem lists_agreement (hk : InOrder w) (agreementId : Id) (χ : Chance adehun) :
    InOrder (w.after (getAssetsForAgreement agreementId) χ) ∧
      ((w.db.lookup ⟨.agreement, agreementId⟩).isSome → (AssetOp.Lists w
          (fun c => c.agreementId = agreementId)
          (outcome (getAssetsForAgreement agreementId) w.db w.shared χ) ↔
        cached (seen w.shared χ) (.agreementAsset agreementId) = none)) :=
  lists_iff hk (fun _ => Iff.rfl) χ
    (get_solo (σ := .between w.db [] w.shared χ) Solo.tidy_between .agreement agreementId)

/-- Every step keeps the tables and the cache as they are to be. -/
theorem InOrder.step (hk : InOrder w) {op : AssetOp} (hd : op.Draws w) : InOrder (op.apply w) := by
  cases op with
  | uploads userId conditionId files χ =>
      obtain ⟨r, σ, hrun, hkept⟩ := addAssetToCondition_solo (m := w.shared) hk hd
        userId conditionId files
      rw [AssetOp.apply, (after_eq hrun).1]
      exact hkept
  | approves conditionId assetId userId χ =>
      exact (decides_iff hk _ true conditionId assetId userId χ).1
  | rejects conditionId assetId userId χ =>
      exact (decides_iff hk _ false conditionId assetId userId χ).1
  | listsCondition conditionId χ => exact (lists_condition hk conditionId χ).1
  | listsAgreement agreementId χ => exact (lists_agreement hk agreementId χ).1
  | passes a => exact ⟨hk.sound, hk.linked, hk.stocked.ambient a⟩

/-- And succeeds if what it reads is not cached. -/
theorem InOrder.succeeds_iff (hk : InOrder w) (op : AssetOp) : op.Succeeds w ↔ op.Misses w := by
  cases op with
  | uploads userId conditionId files χ => exact Iff.rfl
  | approves conditionId assetId userId χ =>
      exact forall_congr' (decides_iff hk _ true conditionId assetId userId χ).2
  | rejects conditionId assetId userId χ =>
      exact forall_congr' (decides_iff hk _ false conditionId assetId userId χ).2
  | listsCondition conditionId χ => exact forall_congr' (lists_condition hk conditionId χ).2
  | listsAgreement agreementId χ => exact forall_congr' (lists_agreement hk agreementId χ).2
  | passes a => exact Iff.rfl

end Step

/-- The steps of a history, each with what it starts from. -/
def AssetOp.steps (w : World) : List AssetOp → List (World × AssetOp)
  | [] => []
  | op :: ops => (w, op) :: steps (op.apply w) ops

/-- In any history of uploads, decisions and listings, from any tables whose
assets have an uploader and a file: all decisions and listings succeed, if
none of them finds what it reads in the cache. -/
theorem succeeds_iff_misses {w : World} (hk : InOrder w) {ops : List AssetOp}
    (hd : ∀ x ∈ AssetOp.steps w ops, x.2.Draws x.1) :
    (∀ x ∈ AssetOp.steps w ops, x.2.Succeeds x.1) ↔
      ∀ x ∈ AssetOp.steps w ops, x.2.Misses x.1 := by
  induction ops generalizing w with
  | nil => simp [AssetOp.steps]
  | cons op ops ih =>
      rw [AssetOp.steps] at hd ⊢
      have hrest := ih (hk.step (hd (w, op) List.mem_cons_self)) fun x hx =>
        hd x (List.mem_cons_of_mem _ hx)
      rw [List.forall_mem_cons, List.forall_mem_cons, hrest, hk.succeeds_iff op]

/-! A deliverable that is looked at and decided on twice. -/

namespace Twice

def asset : Asset := { id := 40, conditionId := some 30, fileId := 41, uploadedBy := 22 }

def db : Db adehun
  | .user => [
      ({ id := 1, email := "ada@mail", name := "Ada" } : User),
      ({ id := 2, email := "bob@mail", name := "Bob" } : User)]
  | .agreement => [
      ({ id := 20, userId := 1, title := "Work", description := "", amount := 10000
         status := .active } : Agreement)]
  | .agreementParticipant => [
      ({ id := 21, agreementId := 20, userId := 1, role := .depositor
         status := .accepted } : AgreementParticipant),
      ({ id := 22, agreementId := 20, userId := 2, role := .beneficiary
         status := .accepted } : AgreementParticipant)]
  | .condition => [
      ({ id := 30, agreementId := 20, participantId := 21, title := "Draft"
         description := "" } : Condition)]
  | .assetFile => [
      ({ id := 41, url := "url", type := "pdf", name := "draft", size := 1 } : AssetFile)]
  | .asset => [asset]
  | _ => []

def chance : Chance adehun :=
  { ids := fun n => 100 + n, replies := fun _ => .timeout, weather := fun _ => [] }

def start : World := ⟨db, {}⟩

def approves : AssetOp := .approves 30 40 1 chance

def rejects : AssetOp := .rejects 30 40 1 chance

def lists : AssetOp := .listsCondition 30 chance

def listsAll : AssetOp := .listsAgreement 20 chance

theorem kept : InOrder start where
  sound :=
    { keys := fun t => by cases t <;> decide +kernel
      entries := by
        refine Db.entriesDistinct_of_pairwise fun t => ?_
        cases t <;> decide +kernel }
  linked := by
    intro a ha
    rw [List.mem_singleton.mp ha]
    exact ⟨rfl, rfl, rfl⟩
  stocked k v hv := by cases hv

theorem not_ok {α : Type} {answer : Except Exn α} (h : answer.toOption.isSome = false) (a : α) :
    answer ≠ .ok a := by
  rintro rfl
  cases h

/-- Whether the same asset has been looked at or decided on before makes the
difference: the second decision fails, and so does the second listing. -/
theorem not_succeeds :
    (∀ x ∈ AssetOp.steps start [approves, rejects, lists, lists, listsAll, listsAll],
      x.2.Draws x.1) ∧
    ¬ (∀ x ∈ AssetOp.steps start [approves, rejects], x.2.Succeeds x.1) ∧
    ¬ (∀ x ∈ AssetOp.steps start [lists, lists], x.2.Succeeds x.1) ∧
    ¬ (∀ x ∈ AssetOp.steps start [listsAll, listsAll], x.2.Succeeds x.1) := by
  refine ⟨?_, ?_, ?_, ?_⟩
  · intro x hx
    simp only [AssetOp.steps, List.mem_cons, List.not_mem_nil, or_false] at hx
    rcases hx with rfl | rfl | rfl | rfl | rfl | rfl <;> trivial
  · intro h
    have hsecond := h (approves.apply start, rejects) (by simp [AssetOp.steps])
    have hmay : MayDecide (approves.apply start).db 30 40 1 :=
      ⟨⟨_, rfl, _, rfl, rfl⟩, ⟨_, rfl, rfl⟩⟩
    obtain ⟨r, hr, -⟩ := hsecond hmay
    exact not_ok (by decide +kernel) r hr
  · intro h
    obtain ⟨r, hr, -⟩ := h (lists.apply start, lists) (by simp [AssetOp.steps]) rfl
    exact not_ok (by decide +kernel) r hr
  · intro h
    obtain ⟨r, hr, -⟩ := h (listsAll.apply start, listsAll) (by simp [AssetOp.steps]) rfl
    exact not_ok (by decide +kernel) r hr

end Twice

/-- Ada looks at the assets of a condition, and approves one. -/
theorem succeeds_iff_misses_ada :
    (∀ x ∈ AssetOp.steps Twice.start [Twice.lists, Twice.approves], x.2.Succeeds x.1) ↔
      ∀ x ∈ AssetOp.steps Twice.start [Twice.lists, Twice.approves], x.2.Misses x.1 := by
  refine succeeds_iff_misses Twice.kept ?_
  intro x hx
  simp only [AssetOp.steps, List.mem_cons, List.not_mem_nil, or_false] at hx
  rcases hx with rfl | rfl <;> trivial

end Adehun
