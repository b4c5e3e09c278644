import Adehun.Uri
import Mathlib

/-!
# File URLs on our Cloudinary cloud

`validate_cloudinary_url` lets a client's file URL through if the standard
library's `urlsplit` finds `https`, Cloudinary's host and a path that starts
with the configured cloud name. What is stored and later rendered is the
stripped text itself, which a browser takes apart by the generic syntax: it
drops no tab or line break the way `urlsplit` does, and it removes the dot
segments that `urlsplit` leaves in.
-/

namespace Adehun.Validators

open Uri

/-! ## The string methods -/

/-- `str.isspace` -/
def isspace (c : Char) : Bool :=
  let n := c.toNat
  (9 ≤ n && n ≤ 13) || (28 ≤ n && n ≤ 32) || n = 0x85 || n = 0xA0 || n = 0x1680 ||
    (0x2000 ≤ n && n ≤ 0x200A) || n = 0x2028 || n = 0x2029 || n = 0x202F || n = 0x205F ||
    n = 0x3000

/-- `str.strip` -/
def strip (url : List Char) : List Char := (url.dropWhile isspace).rdropWhile isspace

/-- `str.lower`, where it is compared with a text of ASCII letters: the only
other character that is lowered to one of these is the Kelvin sign, and the
texts have no `k`. -/
def lower (text : List Char) : List Char := text.map Char.toLower

/-! ## `urllib.parse.urlsplit` -/

/-- `_WHATWG_C0_CONTROL_OR_SPACE` -/
def c0ControlOrSpace (c : Char) : Bool := c.toNat ≤ 0x20

/-- `_UNSAFE_URL_BYTES_TO_REMOVE` -/
def unsafeToRemove (c : Char) : Bool := c = '\t' || c = '\r' || c = '\n'

/-- `scheme_chars` -/
def schemeChar (c : Char) : Bool := c.isAlphanum || c = '+' || c = '-' || c = '.'

/-- The text that is split: without what leads it, and without the unsafe bytes. -/
def cleaned (url : List Char) : List Char :=
  (url.dropWhile c0ControlOrSpace).filter (!unsafeToRemove ·)

/-- What `urlsplit` makes of an authority with brackets, and of one with
characters outside ASCII: nothing, or an error. -/
structure NetlocChecks where
  bracketed : List Char → Option String
  normalized : List Char → Option String

/-- The fields of the result that are read. -/
structure SplitResult where
  scheme : List Char
  netloc : List Char
  path : List Char

/-- The scheme, lowered, and what follows it. -/
def splitSchemeOff (url : List Char) : List Char × List Char :=
  match url.takeWhile (· ≠ ':'), url.dropWhile (· ≠ ':') with
  | c :: cs, ':' :: rest =>
      if c.isAlpha && (c :: cs).all schemeChar then (lower (c :: cs), rest) else ([], url)
  | _, _ => ([], url)

/-- `_splitnetloc`, if two slashes announce it. -/
def splitNetloc : List Char → List Char × List Char
  | '/' :: '/' :: url => (url.takeWhile (!endsAuthority ·), url.dropWhile (!endsAuthority ·))
  | url => ([], url)

def checkNetloc (checks : NetlocChecks) (netloc : List Char) : Option String :=
  if '[' ∈ netloc ∧ ']' ∉ netloc ∨ ']' ∈ netloc ∧ '[' ∉ netloc then
    some "Invalid IPv6 URL"
  else if '[' ∈ netloc ∧ ']' ∈ netloc ∧ (checks.bracketed netloc).isSome then
    checks.bracketed netloc
  else if netloc.all (·.toNat < 128) then
    none
  else
    checks.normalized netloc

def urlsplit (checks : NetlocChecks) (url : List Char) : Except String SplitResult :=
  let (scheme, url) := splitSchemeOff (cleaned url)
  let (netloc, url) := splitNetloc url
  match checkNetloc checks netloc with
  | some error => .error error
  | none =>
      let url := url.takeWhile (· ≠ '#')
      let url := url.takeWhile (· ≠ '?')
      .ok { scheme := scheme, netloc := netloc, path := url }

/-! ## `validate_cloudinary_url` -/

def cloudinaryHost : List Char := "res.cloudinary.com".toList

def validateCloudinaryUrl (checks : NetlocChecks) (cloudinaryCloudName url : List Char) :
    Except String (List Char) :=
  let url := strip url
  match urlsplit checks url with
  | .error error => .error error
  | .ok parts =>
      if parts.scheme ≠ "https".toList then
        .error "File URL must use https"
      else if lower parts.netloc ≠ cloudinaryHost then
        .error "File URL must be a Cloudinary URL"
      else if ¬('/' :: (cloudinaryCloudName ++ ['/'])) <+: parts.path then
        .error "File URL does not belong to this application"
      else if url.length > 2048 then
        .error "File URL is too long"
      else
        .ok url

/-! ## Texts up to letter case -/

theorem toLower_of_not_isUpper {c : Char} (h : c.isUpper = false) : c.toLower = c := by
  unfold Char.toLower
  rw [dif_neg]
  intro hup
  have : c.isUpper = true := by simpa [Char.isUpper] using hup
  rw [h] at this
  cases this

theorem isLower_of_isUpper {c : Char} (h : c.isUpper = true) : c.toLower.isLower = true := by
  simp only [Char.isUpper, Bool.decide_and, Bool.and_eq_true, decide_eq_true_eq] at h
  unfold Char.toLower
  rw [dif_pos h]
  simp only [Char.isLower, Bool.and_eq_true, decide_eq_true_eq]
  grind [UInt32.toNat_add, UInt32.le_iff_toNat_le]

theorem eq_of_toLower {c d : Char} (h : c.toLower = d) (hd : d.isLower = false) : c = d := by
  cases hc : c.isUpper with
  | true =>
    have := isLower_of_isUpper hc
    rw [h, hd] at this
    cases this
  | false => rw [← h, toLower_of_not_isUpper hc]

/-- A character that is no capital is found in the lowered text as it is. -/
theorem mem_lower {c : Char} {text : List Char} (hc : c.isUpper = false) (h : c ∈ text) :
    c ∈ lower text := by
  have := List.mem_map_of_mem (f := Char.toLower) h
  rw [toLower_of_not_isUpper hc] at this
  exact this

theorem not_mem_of_lower {c : Char} {text text' : List Char} (h : lower text = text')
    (hc : c.isUpper = false) (hmem : c ∉ text') : c ∉ text :=
  fun hin => hmem (h ▸ mem_lower hc hin)

theorem lower_append (text text' : List Char) :
    lower (text ++ text') = lower text ++ lower text' := List.map_append

theorem length_lower (text : List Char) : (lower text).length = text.length := List.length_map _

/-- `https://` and the host. -/
def origin : List Char := "https".toList ++ [':', '/', '/'] ++ cloudinaryHost ++ ['/']

/-- What follows the origin, up to the query or the fragment. -/
def pathAfter (url : List Char) : List Char := (url.drop origin.length).takeWhile (!endsPath ·)

/-- A text starts with the origin if it has these parts. -/
theorem lower_take_origin {url : List Char} :
    lower (url.take origin.length) = origin ↔
      ∃ scheme authority rest, lower scheme = "https".toList ∧ lower authority = cloudinaryHost ∧
        url = scheme ++ ':' :: '/' :: '/' :: (authority ++ '/' :: rest) := by
  constructor
  · intro h
    obtain ⟨lead, slash, htake, hlead, hslash⟩ := List.map_eq_append_iff.1 h
    obtain ⟨lead, authority, rfl, hlead, hauthority⟩ := List.map_eq_append_iff.1 hlead
    obtain ⟨scheme, marks, rfl, hscheme, hmarks⟩ := List.map_eq_append_iff.1 hlead
    have hmarks : marks = [':', '/', '/'] := by
      obtain ⟨a, as, rfl, ha, has⟩ := List.map_eq_cons_iff.1 hmarks
      obtain ⟨b, bs, rfl, hb, hbs⟩ := List.map_eq_cons_iff.1 has
      obtain ⟨c, cs, rfl, hc, hcs⟩ := List.map_eq_cons_iff.1 hbs
      rw [List.map_eq_nil_iff.1 hcs, eq_of_toLower ha (by decide), eq_of_toLower hb (by decide),
        eq_of_toLower hc (by decide)]
    have hslash : slash = ['/'] := by
      obtain ⟨a, as, rfl, ha, has⟩ := List.map_eq_cons_iff.1 hslash
      rw [List.map_eq_nil_iff.1 has, eq_of_toLower ha (by decide)]
    refine ⟨scheme, authority, url.drop origin.length, hscheme, hauthority, ?_⟩
    have hurl := List.take_append_drop origin.length url
    rw [htake, hmarks, hslash] at hurl
    simpa using hurl.symm
  · intro ⟨scheme, authority, rest, hscheme, hauthority, hurl⟩
    have hlen : origin.length = (scheme ++ [':', '/', '/'] ++ authority ++ ['/']).length := by
      simp only [List.length_append, ← length_lower scheme, ← length_lower authority, hscheme,
        hauthority]
      decide
    have hurl : url = (scheme ++ [':', '/', '/'] ++ authority ++ ['/']) ++ rest := by
      simp [hurl]
    rw [hurl, hlen, List.take_left]
    simp only [lower_append, hscheme, hauthority]
    rfl

theorem pathAfter_origin {scheme authority rest : List Char}
    (hscheme : lower scheme = "https".toList) (hauthority : lower authority = cloudinaryHost) :
    pathAfter (scheme ++ ':' :: '/' :: '/' :: (authority ++ '/' :: rest)) =
      rest.takeWhile (!endsPath ·) := by
  have hlen : origin.length = (scheme ++ [':', '/', '/'] ++ authority ++ ['/']).length := by
    simp only [List.length_append, ← length_lower scheme, ← length_lower authority, hscheme,
      hauthority]
    decide
  have hurl : scheme ++ ':' :: '/' :: '/' :: (authority ++ '/' :: rest) =
      (scheme ++ [':', '/', '/'] ++ authority ++ ['/']) ++ rest := by
    simp
  unfold pathAfter
  rw [hurl, hlen, List.drop_left]

/-! ## Where a client is led -/

/-- An https URL on Cloudinary's host whose path is under the cloud's name, once
its dot segments are removed. -/
def Confined (cloudinaryCloudName url : List Char) : Prop :=
  let uri := Uri.parse url
  uri.scheme.map lower = some "https".toList ∧ uri.authority.map lower = some cloudinaryHost ∧
    firstSegment (removeDotSegments uri.path) = some cloudinaryCloudName

theorem endsScheme_of_https {scheme : List Char} (h : lower scheme = "https".toList) :
    ∀ c ∈ scheme, endsScheme c = false := by
  intro c hc
  have hne : ∀ d, d.isUpper = false → d ∉ "https".toList → c ≠ d := by
    intro d hd hmem heq
    exact not_mem_of_lower h hd hmem (heq ▸ hc)
  simp [endsScheme, hne ':' (by decide) (by decide), hne '/' (by decide) (by decide),
    hne '?' (by decide) (by decide), hne '#' (by decide) (by decide)]

theorem endsAuthority_of_host {authority : List Char} (h : lower authority = cloudinaryHost) :
    ∀ c ∈ authority, endsAuthority c = false := by
  intro c hc
  have hne : ∀ d, d.isUpper = false → d ∉ cloudinaryHost → c ≠ d := by
    intro d hd hmem heq
    exact not_mem_of_lower h hd hmem (heq ▸ hc)
  simp [endsAuthority, hne '/' (by decide) (by decide), hne '?' (by decide) (by decide),
    hne '#' (by decide) (by decide)]

/-- The text itself has to start with the origin, and its segments to be rooted
at the cloud's name. -/
theorem confined_iff {cloudinaryCloudName url : List Char} :
    Confined cloudinaryCloudName url ↔
      lower (url.take origin.length) = origin ∧
        Rooted cloudinaryCloudName (segments (pathAfter url)) := by
  rw [lower_take_origin]
  constructor
  · intro h
    obtain ⟨hscheme, hauthority, hfirst⟩ := h
    unfold Uri.parse at hscheme hauthority hfirst
    cases hs : Uri.splitScheme url with
    | mk scheme rest =>
      cases ha : splitAuthority rest with
      | mk authority path =>
        simp only [hs, ha] at hscheme hauthority hfirst
        obtain ⟨scheme, rfl, hscheme'⟩ := Option.map_eq_some_iff.1 hscheme
        obtain ⟨authority, rfl, hauthority'⟩ := Option.map_eq_some_iff.1 hauthority
        obtain ⟨rfl, -, -⟩ := splitScheme_eq.1 hs
        obtain ⟨rfl, -, hends⟩ := splitAuthority_eq.1 ha
        cases path with
        | nil => simp [removeDotSegments, removeDots, firstSegment] at hfirst
        | cons c path =>
          have hc := hends c rfl
          simp only [endsAuthority, Bool.or_eq_true, decide_eq_true_eq] at hc
          rcases hc with (rfl | rfl) | rfl
          · refine ⟨⟨scheme, authority, path, hscheme', hauthority', rfl⟩, ?_⟩
            rw [pathAfter_origin hscheme' hauthority', ← firstSegment_removeDotSegments]
            rw [List.takeWhile_cons_of_pos (by decide)] at hfirst
            exact hfirst
          · simp [endsPath, removeDotSegments, removeDots, firstSegment] at hfirst
          · simp [endsPath, removeDotSegments, removeDots, firstSegment] at hfirst
  · intro h
    obtain ⟨⟨scheme, authority, rest, hscheme, hauthority, hurl⟩, hrooted⟩ := h
    subst hurl
    have hs : Uri.splitScheme (scheme ++ ':' :: '/' :: '/' :: (authority ++ '/' :: rest)) =
        (some scheme, '/' :: '/' :: (authority ++ '/' :: rest)) := by
      refine splitScheme_eq.2 ⟨rfl, ?_, endsScheme_of_https hscheme⟩
      intro hnil
      rw [hnil] at hscheme
      simp [lower] at hscheme
    have ha : splitAuthority ('/' :: '/' :: (authority ++ '/' :: rest)) =
        (some authority, '/' :: rest) := by
      refine splitAuthority_eq.2 ⟨rfl, endsAuthority_of_host hauthority, ?_⟩
      intro c hc
      have : '/' = c := by simpa using hc
      rw [← this]
      rfl
    rw [pathAfter_origin hscheme hauthority, ← firstSegment_removeDotSegments] at hrooted
    unfold Confined Uri.parse
    simp only [hs, ha, Option.map_some, hscheme, hauthority, true_and]
    rw [List.takeWhile_cons_of_pos (by decide)]
    exact hrooted

/-! ## What is let through -/

theorem checkNetloc_of_host {netloc : List Char} (checks : NetlocChecks)
    (h : lower netloc = cloudinaryHost) : checkNetloc checks netloc = none := by
  have hopen : '[' ∉ netloc := not_mem_of_lower h (by decide) (by decide)
  have hclose : ']' ∉ netloc := not_mem_of_lower h (by decide) (by decide)
  have hascii : netloc.all (·.toNat < 128) = true := by
    rw [List.all_eq_true]
    intro c hc
    cases hup : c.isUpper with
    | true =>
      simp only [Char.isUpper, decide_eq_true_eq] at hup
      have : c.toNat ≤ 90 := UInt32.le_iff_toNat_le.1 hup.2
      simp only [decide_eq_true_eq]
      omega
    | false =>
      have hall : cloudinaryHost.all (·.toNat < 128) = true := by decide
      exact List.all_eq_true.1 hall c (h ▸ mem_lower hup hc)
  unfold checkNetloc
  rw [if_neg (by simp [hopen, hclose]), if_neg (by simp [hopen]), if_pos hascii]

theorem ne_nil_of_host {netloc : List Char} (h : lower netloc = cloudinaryHost) :
    netloc ≠ [] := by
  intro hnil
  rw [hnil] at h
  exact absurd h (by decide)

theorem isAlpha_of_https {scheme : List Char} (h : lower scheme = "https".toList) :
    ∀ c ∈ scheme, c.isAlpha = true := by
  intro c hc
  cases hup : c.isUpper with
  | true => simp [Char.isAlpha, hup]
  | false =>
    have hall : "https".toList.all Char.isAlpha = true := by decide
    exact List.all_eq_true.1 hall c (h ▸ mem_lower hup hc)

theorem splitSchemeOff_eq {url rest : List Char} :
    splitSchemeOff url = ("https".toList, rest) ↔
      ∃ scheme, lower scheme = "https".toList ∧ url = scheme ++ ':' :: rest := by
  constructor
  · intro h
    unfold splitSchemeOff at h
    split at h
    · next c cs rest' htake hdrop =>
      split at h
      · injection h with hscheme hrest
        have := List.takeWhile_append_dropWhile (p := (· ≠ ':')) (l := url)
        rw [htake, hdrop, hrest] at this
        exact ⟨c :: cs, hscheme, this.symm⟩
      · injection h with hscheme hrest
        simp at hscheme
    · injection h with hscheme hrest
      simp at hscheme
  · intro ⟨scheme, hscheme, hurl⟩
    subst hurl
    have halpha := isAlpha_of_https hscheme
    have hcolon : ∀ c ∈ scheme, decide (c ≠ ':') = true := by
      intro c hc
      have : ':' ∉ scheme := not_mem_of_lower hscheme (by decide) (by decide)
      have : c ≠ ':' := fun heq => this (heq ▸ hc)
      simpa using this
    unfold splitSchemeOff
    rw [takeWhile_stop hcolon (by decide), dropWhile_stop hcolon (by decide)]
    cases scheme with
    | nil => simp [lower] at hscheme
    | cons c cs =>
      have hall : (c :: cs).all schemeChar = true := by
        rw [List.all_eq_true]
        intro d hd
        simp [schemeChar, Char.isAlphanum, halpha d hd]
      show (if c.isAlpha && (c :: cs).all schemeChar then _ else _) = _
      rw [hall, halpha c List.mem_cons_self, hscheme]
      rfl

theorem splitNetloc_eq {url netloc path : List Char} (hne : netloc ≠ []) :
    splitNetloc url = (netloc, path) ↔ splitAuthority url = (some netloc, path) := by
  unfold splitNetloc splitAuthority
  split
  · simp
  · simp [hne.symm]

theorem takeWhile_query_fragment (url : List Char) :
    (url.takeWhile (· ≠ '#')).takeWhile (· ≠ '?') = url.takeWhile (!endsPath ·) := by
  rw [List.takeWhile_takeWhile]
  congr
  funext c
  by_cases hq : c = '?'
  · simp [endsPath, hq]
  · by_cases hf : c = '#'
    · simp [endsPath, hf]
    · simp [endsPath, hq, hf]

/-- `urlsplit` finds https, the host and a path with a slash before `lead` if the
cleaned text has them. -/
theorem urlsplit_iff {checks : NetlocChecks} {url lead : List Char} :
    (∃ parts, urlsplit checks url = .ok parts ∧ parts.scheme = "https".toList ∧
      lower parts.netloc = cloudinaryHost ∧ ('/' :: lead) <+: parts.path) ↔
      lower ((cleaned url).take origin.length) = origin ∧ lead <+: pathAfter (cleaned url) := by
  rw [lower_take_origin]
  constructor
  · intro ⟨parts, hparts, hscheme, hnetloc, hpath⟩
    unfold urlsplit at hparts
    cases hs : splitSchemeOff (cleaned url) with
    | mk scheme rest =>
      cases hn : splitNetloc rest with
      | mk netloc path =>
        simp only [hs, hn] at hparts
        split at hparts
        · cases hparts
        · injection hparts with hparts
          subst hparts
          rw [takeWhile_query_fragment] at hpath
          have hscheme : scheme = "https".toList := hscheme
          rw [hscheme] at hs
          obtain ⟨scheme, hscheme', hurl⟩ := splitSchemeOff_eq.1 hs
          have hne := ne_nil_of_host hnetloc
          obtain ⟨rfl, -, hends⟩ := splitAuthority_eq.1 ((splitNetloc_eq hne).1 hn)
          cases path with
          | nil => simp at hpath
          | cons c path =>
            have hc : c = '/' := by
              rw [List.takeWhile_cons] at hpath
              split at hpath
              · exact (List.cons_prefix_cons.1 hpath).1.symm
              · simp at hpath
            subst hc
            refine ⟨⟨scheme, netloc, path, hscheme', hnetloc, hurl⟩, ?_⟩
            rw [hurl, pathAfter_origin hscheme' hnetloc]
            rw [List.takeWhile_cons_of_pos (by decide)] at hpath
            exact (List.cons_prefix_cons.1 hpath).2
  · intro ⟨⟨scheme, netloc, rest, hscheme, hnetloc, hurl⟩, hlead⟩
    have hs : splitSchemeOff (cleaned url) =
        ("https".toList, '/' :: '/' :: (netloc ++ '/' :: rest)) :=
      splitSchemeOff_eq.2 ⟨scheme, hscheme, hurl⟩
    have hn : splitNetloc ('/' :: '/' :: (netloc ++ '/' :: rest)) = (netloc, '/' :: rest) := by
      refine (splitNetloc_eq (ne_nil_of_host hnetloc)).2 (splitAuthority_eq.2 ?_)
      refine ⟨rfl, endsAuthority_of_host hnetloc, ?_⟩
      intro c hc
      have : '/' = c := by simpa using hc
      rw [← this]
      rfl
    rw [hurl, pathAfter_origin hscheme hnetloc] at hlead
    refine ⟨⟨"https".toList, netloc, '/' :: rest.takeWhile (!endsPath ·)⟩, ?_, rfl, hnetloc,
      List.cons_prefix_cons.2 ⟨rfl, hlead⟩⟩
    unfold urlsplit
    simp only [hs, hn, checkNetloc_of_host checks hnetloc]
    rw [takeWhile_query_fragment, List.takeWhile_cons_of_pos (by decide)]

/-- What is let through, and as what: the stripped text, of which `urlsplit` found
the parts asked for. -/
theorem validateCloudinaryUrl_ok {checks : NetlocChecks}
    {cloudinaryCloudName url url' : List Char} :
    validateCloudinaryUrl checks cloudinaryCloudName url = .ok url' ↔
      url' = strip url ∧ lower ((cleaned url').take origin.length) = origin ∧
        (cloudinaryCloudName ++ ['/']) <+: pathAfter (cleaned url') ∧ url'.length ≤ 2048 := by
  constructor
  · intro h
    unfold validateCloudinaryUrl at h
    simp only at h
    split at h
    · cases h
    · next parts hparts =>
      split at h
      · cases h
      · next hscheme =>
        split at h
        · cases h
        · next hnetloc =>
          split at h
          · cases h
          · next hpath =>
            split at h
            · cases h
            · next hlen =>
              injection h with h
              subst h
              have hsplit := urlsplit_iff.1 ⟨parts, hparts, Decidable.not_not.1 hscheme,
                Decidable.not_not.1 hnetloc, Decidable.not_not.1 hpath⟩
              exact ⟨rfl, hsplit.1, hsplit.2, by omega⟩
  · intro ⟨hurl, horigin, hpath, hlen⟩
    subst hurl
    obtain ⟨parts, hparts, hscheme, hnetloc, hpath⟩ :=
      (@urlsplit_iff checks _ _).2 ⟨horigin, hpath⟩
    unfold validateCloudinaryUrl
    simp only [hparts]
    rw [if_neg (by simp [hscheme]), if_neg (by simp [hnetloc]), if_neg (by simp [hpath]),
      if_neg (by omega)]

/-! ## When a client is led there -/

/-- `urlsplit` drops nothing of the text where the origin should stand. -/
def Unbroken (url : List Char) : Prop :=
  (∀ c ∈ url.head?, c0ControlOrSpace c = false) ∧
    ∀ c ∈ url.take origin.length, unsafeToRemove c = false

instance (url : List Char) : Decidable (Unbroken url) :=
  @instDecidableAnd _ _ (Option.decidableForallMem url.head?)
    (List.decidableBAll _ (url.take origin.length))

theorem c0ControlOrSpace_of_removed {c : Char} (h : unsafeToRemove c = true) :
    c0ControlOrSpace c = true := by
  simp only [unsafeToRemove, Bool.or_eq_true, decide_eq_true_eq] at h
  rcases h with (rfl | rfl) | rfl
  · rfl
  · rfl
  · rfl

/-- The origin has no control character and no space. -/
theorem c0ControlOrSpace_of_origin {text : List Char} (h : lower text = origin) :
    ∀ c ∈ text, c0ControlOrSpace c = false := by
  intro c hc
  cases hcontrol : c0ControlOrSpace c with
  | false => rfl
  | true =>
    have hup : c.isUpper = false := by
      simp only [c0ControlOrSpace, decide_eq_true_eq] at hcontrol
      have hval : c.val.toNat ≤ 32 := hcontrol
      simp only [Char.isUpper, decide_eq_false_iff_not, UInt32.le_iff_toNat_le]
      intro hboth
      have : 65 ≤ c.val.toNat := hboth.1
      omega
    have hall : origin.all (!c0ControlOrSpace ·) = true := by decide
    have hnot := List.all_eq_true.1 hall c (h ▸ mem_lower hup hc)
    rw [hcontrol] at hnot
    cases hnot

theorem head?_mem_take {c : Char} {url : List Char} (h : c ∈ url.head?) :
    c ∈ url.take origin.length := by
  cases url with
  | nil => simp at h
  | cons d url =>
    have : d = c := by simpa using h
    subst this
    exact List.mem_cons_self

theorem length_origin_le {url : List Char} (h : lower (url.take origin.length) = origin) :
    origin.length ≤ url.length := by
  have := congrArg List.length h
  rw [length_lower, List.length_take] at this
  omega

/-- The text itself starts with the origin if nothing was dropped there. -/
theorem unbroken_iff {url : List Char} (h : lower ((cleaned url).take origin.length) = origin) :
    lower (url.take origin.length) = origin ↔ Unbroken url := by
  constructor
  · intro horigin
    have hplain := c0ControlOrSpace_of_origin horigin
    refine ⟨fun c hc => hplain c (head?_mem_take hc), ?_⟩
    intro c hc
    cases hun : unsafeToRemove c with
    | false => rfl
    | true =>
      have := hplain c hc
      rw [c0ControlOrSpace_of_removed hun] at this
      cases this
  · intro ⟨hhead, hlead⟩
    have hdrop : url.dropWhile c0ControlOrSpace = url := by
      cases url with
      | nil => rfl
      | cons c url => exact List.dropWhile_cons_of_neg (by simp [hhead c rfl])
    have hkeep : (url.take origin.length).filter (!unsafeToRemove ·) = url.take origin.length := by
      rw [List.filter_eq_self]
      intro c hc
      simp [hlead c hc]
    have hcleaned : cleaned url = url.take origin.length ++
        (url.drop origin.length).filter (!unsafeToRemove ·) := by
      unfold cleaned
      rw [hdrop]
      conv_lhs => rw [← List.take_append_drop origin.length url, List.filter_append, hkeep]
    have hlen : (url.take origin.length).length = origin.length := by
      have := length_origin_le h
      have hle : (cleaned url).length ≤ url.length := by
        unfold cleaned
        rw [hdrop]
        exact List.length_filter_le _ _
      rw [List.length_take]
      omega
    rw [hcleaned, List.take_left' hlen] at h
    exact h

/-- A cloud name that `urlsplit` leaves whole. -/
def Plain (cloudinaryCloudName : List Char) : Prop :=
  ∀ c ∈ cloudinaryCloudName, endsPath c = false ∧ unsafeToRemove c = false

instance : DecidablePred Plain := fun _ => List.decidableBAll _ _

/-- The category `Cc`. -/
def isControl (c : Char) : Bool := c.toNat < 0x20 || (0x7F ≤ c.toNat && c.toNat ≤ 0x9F)

/-- No whitespace and no control character. -/
def Clean (rest : List Char) : Prop := ∀ c ∈ rest, isspace c = false ∧ isControl c = false

instance : DecidablePred Clean := fun _ => List.decidableBAll _ _

/-- `https://res.cloudinary.com/<cloud>/<rest>` -/
def homeUrl (cloudinaryCloudName rest : List Char) : List Char :=
  origin ++ (cloudinaryCloudName ++ '/' :: rest)

theorem removed_of_clean {rest : List Char} (h : Clean rest) :
    ∀ c ∈ rest, unsafeToRemove c = false := by
  intro c hc
  cases hun : unsafeToRemove c with
  | false => rfl
  | true =>
    have hcontrol := (h c hc).2
    simp only [unsafeToRemove, Bool.or_eq_true, decide_eq_true_eq] at hun
    rcases hun with (rfl | rfl) | rfl
    · exact absurd hcontrol (by decide)
    · exact absurd hcontrol (by decide)
    · exact absurd hcontrol (by decide)

theorem strip_homeUrl {rest : List Char} (cloudinaryCloudName : List Char) (h : Clean rest) :
    strip (homeUrl cloudinaryCloudName rest) = homeUrl cloudinaryCloudName rest := by
  have hlead : (homeUrl cloudinaryCloudName rest).dropWhile isspace =
      homeUrl cloudinaryCloudName rest := rfl
  unfold strip
  rw [hlead, List.rdropWhile_eq_self_iff]
  intro hne hspace
  have hlast : (homeUrl cloudinaryCloudName rest).getLast hne ∈ '/' :: rest := by
    have hget : (homeUrl cloudinaryCloudName rest).getLast hne =
        ('/' :: rest).getLast (by simp) := by
      simp only [homeUrl]
      rw [List.getLast_append_of_ne_nil _ (by simp), List.getLast_append_of_ne_nil _ (by simp)]
    rw [hget]
    exact List.getLast_mem _
  cases List.mem_cons.1 hlast with
  | inl hslash =>
    rw [hslash] at hspace
    exact absurd hspace (by decide)
  | inr hrest =>
    rw [(h _ hrest).1] at hspace
    cases hspace

/-- A text on the cloud is let through as it is if the name is left whole. -/
theorem homeUrl_ok_iff {checks : NetlocChecks} {cloudinaryCloudName rest : List Char}
    (hclean : Clean rest) (hlen : (homeUrl cloudinaryCloudName rest).length ≤ 2048) :
    validateCloudinaryUrl checks cloudinaryCloudName (homeUrl cloudinaryCloudName rest) =
      .ok (homeUrl cloudinaryCloudName rest) ↔ Plain cloudinaryCloudName := by
  rw [validateCloudinaryUrl_ok]
  constructor
  · intro ⟨_, _, hpath, _⟩ c hc
    have hmem : c ∈ pathAfter (cleaned (homeUrl cloudinaryCloudName rest)) :=
      hpath.subset (List.mem_append_left _ hc)
    have hends := List.mem_takeWhile_imp hmem
    have hclean : c ∈ cleaned (homeUrl cloudinaryCloudName rest) :=
      List.mem_of_mem_drop (List.takeWhile_subset _ hmem)
    have hun := (List.mem_filter.1 hclean).2
    exact ⟨by simpa using hends, by simpa using hun⟩
  · intro hplain
    have hcleaned : cleaned (homeUrl cloudinaryCloudName rest) =
        homeUrl cloudinaryCloudName rest := by
      have hlead : (homeUrl cloudinaryCloudName rest).dropWhile c0ControlOrSpace =
          homeUrl cloudinaryCloudName rest := rfl
      unfold cleaned
      rw [hlead, List.filter_eq_self]
      intro c hc
      have hun : unsafeToRemove c = false := by
        rcases List.mem_append.1 hc with hc | hc
        · have hall : origin.all (!unsafeToRemove ·) = true := by decide
          have hnot := List.all_eq_true.1 hall c hc
          simpa using hnot
        · rcases List.mem_append.1 hc with hc | hc
          · exact (hplain c hc).2
          · cases List.mem_cons.1 hc with
            | inl hslash =>
              rw [hslash]
              rfl
            | inr hrest => exact removed_of_clean hclean c hrest
      simp [hun]
    have hpath : pathAfter (homeUrl cloudinaryCloudName rest) =
        cloudinaryCloudName ++ '/' :: rest.takeWhile (!endsPath ·) := by
      unfold pathAfter homeUrl
      rw [List.drop_left, List.takeWhile_append_of_pos, List.takeWhile_cons_of_pos (by decide)]
      intro c hc
      simp [(hplain c hc).1]
    rw [hcleaned, hpath]
    refine ⟨(strip_homeUrl cloudinaryCloudName hclean).symm, ?_, ?_, hlen⟩
    · unfold homeUrl
      rw [List.take_left]
      decide
    · exact ⟨rest.takeWhile (!endsPath ·), by simp⟩

/-- Of the texts let through, those lead a client under our cloud of which
`urlsplit` dropped nothing at the origin and whose segments are rooted at the
cloud's name. A text on the cloud, whether or not it has dot segments, is let
through as it is if `urlsplit` leaves the name whole. -/
theorem accepted_confined_iff (checks : NetlocChecks) (cloudinaryCloudName : List Char) :
    (∀ url url', validateCloudinaryUrl checks cloudinaryCloudName url = .ok url' →
      (Confined cloudinaryCloudName url' ↔ Unbroken (strip url) ∧
        Rooted cloudinaryCloudName (segments (pathAfter (strip url))))) ∧
    (∀ rest, Clean rest → (homeUrl cloudinaryCloudName rest).length ≤ 2048 →
      (validateCloudinaryUrl checks cloudinaryCloudName (homeUrl cloudinaryCloudName rest) =
        .ok (homeUrl cloudinaryCloudName rest) ↔ Plain cloudinaryCloudName)) := by
  constructor
  · intro url url' h
    obtain ⟨rfl, horigin, -, -⟩ := validateCloudinaryUrl_ok.1 h
    rw [confined_iff, unbroken_iff horigin]
  · intro rest hclean hlen
    exact homeUrl_ok_iff hclean hlen

/-- On a text of ASCII characters without brackets both checks find nothing. -/
def noObjection : NetlocChecks := { bracketed := fun _ => none, normalized := fun _ => none }

theorem accepted_confined_iff_demo :
    Confined "demo".toList (homeUrl "demo".toList "a.png".toList) ∧
      validateCloudinaryUrl noObjection "demo".toList (homeUrl "demo".toList "a.png".toList) =
        .ok (homeUrl "demo".toList "a.png".toList) := by
  have hok := ((accepted_confined_iff noObjection "demo".toList).2 "a.png".toList
    (by decide) (by decide)).2 (by decide)
  refine ⟨((accepted_confined_iff noObjection "demo".toList).1 _ _ hok).2
    ⟨by decide, ?_⟩, hok⟩
  rw [← getLast?_iff_rooted]
  decide

/-- A text that climbs out of our cloud, and one that a tab keeps from naming any
host, are let through as they are. -/
theorem not_confined :
    (validateCloudinaryUrl noObjection "demo".toList
        "https://res.cloudinary.com/demo/../evil/a.png".toList =
          .ok "https://res.cloudinary.com/demo/../evil/a.png".toList ∧
      ¬Confined "demo".toList "https://res.cloudinary.com/demo/../evil/a.png".toList) ∧
    (validateCloudinaryUrl noObjection "demo".toList
        "https:\t//res.cloudinary.com/demo/a.png".toList =
          .ok "https:\t//res.cloudinary.com/demo/a.png".toList ∧
      ¬Confined "demo".toList "https:\t//res.cloudinary.com/demo/a.png".toList) := by
  refine ⟨⟨rfl, ?_⟩, rfl, ?_⟩
  · rw [confined_iff, ← getLast?_iff_rooted]
    decide
  · rw [confined_iff]
    intro h
    exact absurd h.1 (by decide)

end Adehun.Validators
