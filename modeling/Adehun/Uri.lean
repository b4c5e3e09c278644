import Mathlib.Data.List.Induction
import Mathlib.Data.List.TakeWhile
import Mathlib.Data.List.Infix

/-!
# Resolving an absolute URI

How a client takes an absolute URI apart, and what becomes of its path: the
generic syntax of URIs, and the removal of dot segments. The removal is
a loop over two buffers of characters; on a path that begins with a slash it
is a stack of segments, and this module says what ends up at the bottom of
the stack without running it.

A segment is at the bottom in the end if whatever comes before it has been
taken back by then, and nothing after it climbs as far as the segment itself.
-/

namespace Uri

/-! ## The generic syntax -/

/-- The parts of a URI that tell where it leads. -/
structure Reference where
  scheme : Option (List Char)
  authority : Option (List Char)
  path : List Char

def endsScheme (c : Char) : Bool := c = ':' || c = '/' || c = '?' || c = '#'

def endsAuthority (c : Char) : Bool := c = '/' || c = '?' || c = '#'

def endsPath (c : Char) : Bool := c = '?' || c = '#'

/-- `^(([^:/?#]+):)?` -/
def splitScheme (uri : List Char) : Option (List Char) × List Char :=
  match uri.takeWhile (!endsScheme ·), uri.dropWhile (!endsScheme ·) with
  | c :: cs, ':' :: rest => (some (c :: cs), rest)
  | _, _ => (none, uri)

/-- `(//([^/?#]*))?` -/
def splitAuthority : List Char → Option (List Char) × List Char
  | '/' :: '/' :: rest =>
      (some (rest.takeWhile (!endsAuthority ·)), rest.dropWhile (!endsAuthority ·))
  | rest => (none, rest)

/-- The path, `([^?#]*)`, is what follows up to the query or the fragment. -/
def parse (uri : List Char) : Reference :=
  let (scheme, rest) := splitScheme uri
  let (authority, rest) := splitAuthority rest
  { scheme := scheme, authority := authority, path := rest.takeWhile (!endsPath ·) }

theorem takeWhile_stop {p : Char → Bool} {cs rest : List Char} {c : Char}
    (hcs : ∀ x ∈ cs, p x = true) (hc : p c = false) : (cs ++ c :: rest).takeWhile p = cs := by
  rw [List.takeWhile_append_of_pos hcs, List.takeWhile_cons_of_neg (by simp [hc]),
    List.append_nil]

theorem dropWhile_stop {p : Char → Bool} {cs rest : List Char} {c : Char}
    (hcs : ∀ x ∈ cs, p x = true) (hc : p c = false) :
    (cs ++ c :: rest).dropWhile p = c :: rest := by
  rw [List.dropWhile_append_of_pos hcs, List.dropWhile_cons_of_neg (by simp [hc])]

theorem splitScheme_eq {uri scheme rest : List Char} :
    splitScheme uri = (some scheme, rest) ↔
      uri = scheme ++ ':' :: rest ∧ scheme ≠ [] ∧ ∀ c ∈ scheme, endsScheme c = false := by
  constructor
  · intro h
    unfold splitScheme at h
    split at h
    · next c cs rest' htake hdrop =>
      injection h with hscheme hrest
      injection hscheme with hscheme
      subst hrest
      rw [hscheme] at htake
      refine ⟨?_, by simp [← hscheme], ?_⟩
      · have := List.takeWhile_append_dropWhile (p := (!endsScheme ·)) (l := uri)
        rw [htake, hdrop] at this
        exact this.symm
      · intro x hx
        rw [← htake] at hx
        simpa using List.mem_takeWhile_imp hx
    · simp at h
  · intro ⟨heq, hne, hcs⟩
    subst heq
    have hcs : ∀ c ∈ scheme, (!endsScheme c) = true := by
      intro c hc
      simp [hcs c hc]
    obtain ⟨c, cs, rfl⟩ := List.exists_cons_of_ne_nil hne
    unfold splitScheme
    rw [takeWhile_stop hcs (by decide), dropWhile_stop hcs (by decide)]
    rfl

theorem splitAuthority_eq {rest authority path : List Char} :
    splitAuthority rest = (some authority, path) ↔
      rest = '/' :: '/' :: (authority ++ path) ∧ (∀ c ∈ authority, endsAuthority c = false) ∧
        ∀ c ∈ path.head?, endsAuthority c = true := by
  constructor
  · intro h
    unfold splitAuthority at h
    split at h
    · next rest =>
      injection h with hauthority hpath
      injection hauthority with hauthority
      subst hauthority
      subst hpath
      refine ⟨by rw [List.takeWhile_append_dropWhile], ?_, ?_⟩
      · intro x hx
        simpa using List.mem_takeWhile_imp hx
      · intro c hc
        have := List.head?_dropWhile_not (!endsAuthority ·) rest
        rw [hc] at this
        simpa using this
    · simp at h
  · intro ⟨heq, hcs, hpath⟩
    subst heq
    have hcs : ∀ c ∈ authority, (!endsAuthority c) = true := by
      intro c hc
      simp [hcs c hc]
    unfold splitAuthority
    cases path with
    | nil => simp_all
    | cons c path =>
      have hc : (!endsAuthority c) = false := by simp [hpath c rfl]
      show (some _, _) = _
      rw [takeWhile_stop hcs hc, dropWhile_stop hcs hc]

/-! ## The removal of dot segments -/

/-- The loop of the removal. The output is kept by the segments that were
moved to it, each with the slash before it, the last one first. -/
def removeDots (input : List Char) (output : List (List Char)) : List (List Char) :=
  match input with
  | [] => output
  | '.' :: '.' :: '/' :: rest => removeDots rest output
  | '.' :: '/' :: rest => removeDots rest output
  | '/' :: '.' :: '/' :: rest => removeDots ('/' :: rest) output
  | ['/', '.'] => removeDots ['/'] output
  | '/' :: '.' :: '.' :: '/' :: rest => removeDots ('/' :: rest) output.tail
  | ['/', '.', '.'] => removeDots ['/'] output.tail
  | ['.'] => output
  | ['.', '.'] => output
  | c :: rest =>
      removeDots (rest.dropWhile (· ≠ '/')) ((c :: rest.takeWhile (· ≠ '/')) :: output)
termination_by input.length
decreasing_by
  all_goals simp_wf
  all_goals have := (List.dropWhile_suffix (l := rest) (fun x => !decide (x = '/'))).length_le
  all_goals omega

def removeDotSegments (path : List Char) : List Char := (removeDots path []).reverse.flatten

/-- The first segment of an absolute path. -/
def firstSegment : List Char → Option (List Char)
  | '/' :: rest => some (rest.takeWhile (· ≠ '/'))
  | _ => none

/-! ## The stack of segments -/

/-- A segment that stands for itself. -/
def IsName (seg : List Char) : Prop := seg ≠ ['.'] ∧ seg ≠ ['.', '.']

instance : DecidablePred IsName := fun _ => inferInstanceAs (Decidable (_ ∧ _))

/-- What one segment does to the stack. -/
def move (stack : List (List Char)) (seg : List Char) : List (List Char) :=
  if seg = ['.'] then stack else if seg = ['.', '.'] then stack.tail else seg :: stack

/-- The segments, a dot segment at the end followed by an empty one: the slash
before it stays. -/
def closed : List (List Char) → List (List Char)
  | [] => []
  | [seg] => if IsName seg then [seg] else [seg, []]
  | seg :: next :: rest => seg :: closed (next :: rest)

/-- The segments of a path after its first slash. -/
def segments (path : List Char) : List (List Char) := closed (path.splitOn '/')

@[simp] theorem move_dot (stack : List (List Char)) : move stack ['.'] = stack := rfl

@[simp] theorem move_climb (stack : List (List Char)) : move stack ['.', '.'] = stack.tail := rfl

theorem move_name {seg : List Char} (h : IsName seg) (stack : List (List Char)) :
    move stack seg = seg :: stack := by
  unfold move
  rw [if_neg h.1, if_neg h.2]

theorem isName_nil : IsName [] := by decide

/-- A segment is a dot, a climb or a name. -/
theorem kinds (seg : List Char) : seg = ['.'] ∨ seg = ['.', '.'] ∨ IsName seg := by
  by_cases hdot : seg = ['.']
  · exact .inl hdot
  · by_cases hclimb : seg = ['.', '.']
    · exact .inr (.inl hclimb)
    · exact .inr (.inr ⟨hdot, hclimb⟩)

/-! ## The loop walks the segments -/

/-- What may follow a segment: nothing, or the next slash. -/
def Stops (rest : List Char) : Prop := rest = [] ∨ ∃ path, rest = '/' :: path

theorem takeWhile_segment {seg rest : List Char} (hseg : '/' ∉ seg) (hrest : Stops rest) :
    (seg ++ rest).takeWhile (· ≠ '/') = seg := by
  have hall : ∀ c ∈ seg, decide (c ≠ '/') = true := by
    intro c hc
    have : c ≠ '/' := fun h => hseg (h ▸ hc)
    simpa using this
  rw [List.takeWhile_append_of_pos hall]
  cases hrest with
  | inl h => simp [h]
  | inr h =>
    obtain ⟨path, rfl⟩ := h
    simp

theorem dropWhile_segment {seg rest : List Char} (hseg : '/' ∉ seg) (hrest : Stops rest) :
    (seg ++ rest).dropWhile (· ≠ '/') = rest := by
  have hall : ∀ c ∈ seg, decide (c ≠ '/') = true := by
    intro c hc
    have : c ≠ '/' := fun h => hseg (h ▸ hc)
    simpa using this
  rw [List.dropWhile_append_of_pos hall]
  cases hrest with
  | inl h => simp [h]
  | inr h =>
    obtain ⟨path, rfl⟩ := h
    simp

/-- The loop moves a name to the output. -/
theorem removeDots_name {seg rest : List Char} (hname : IsName seg) (hseg : '/' ∉ seg)
    (hrest : Stops rest) (output : List (List Char)) :
    removeDots ('/' :: (seg ++ rest)) output = removeDots rest (('/' :: seg) :: output) := by
  have htake := takeWhile_segment hseg hrest
  have hdrop := dropWhile_segment hseg hrest
  rw [removeDots.eq_def]
  split
  all_goals rename_i heq
  case h_4 | h_5 =>
    injection heq with _ heq
    rw [heq] at htake
    exact absurd (by simpa using htake.symm) hname.1
  case h_6 | h_7 =>
    injection heq with _ heq
    rw [heq] at htake
    exact absurd (by simpa using htake.symm) hname.2
  case h_10 =>
    injection heq with hc heq
    rw [← heq, ← hc, htake, hdrop]
  all_goals simp at heq

/-- A path up to its first slash, and from there on. -/
theorem exists_segment (path : List Char) :
    ∃ seg rest, path = seg ++ rest ∧ '/' ∉ seg ∧ Stops rest := by
  refine ⟨path.takeWhile (· ≠ '/'), path.dropWhile (· ≠ '/'), ?_, ?_, ?_⟩
  · exact (List.takeWhile_append_dropWhile).symm
  · intro hmem
    have := List.mem_takeWhile_imp hmem
    simp at this
  · cases hd : path.dropWhile (· ≠ '/') with
    | nil => exact .inl rfl
    | cons c rest =>
      have hc := List.head?_dropWhile_not (· ≠ '/') path
      rw [hd] at hc
      have hc : c = '/' := by simpa using hc
      exact .inr ⟨rest, by rw [hc]⟩

theorem closed_cons {seg : List Char} {rest : List (List Char)} (h : rest ≠ []) :
    closed (seg :: rest) = seg :: closed rest := by
  cases rest with
  | nil => exact absurd rfl h
  | cons next rest => rfl

theorem segments_cons {seg : List Char} (hseg : '/' ∉ seg) (path : List Char) :
    segments (seg ++ '/' :: path) = seg :: segments path := by
  unfold segments
  rw [List.splitOn_append_cons_self_of_not_mem hseg]
  exact closed_cons (List.splitOn_ne_nil _ _)

theorem segments_last {seg : List Char} (hseg : '/' ∉ seg) :
    segments seg = if IsName seg then [seg] else [seg, []] := by
  unfold segments
  rw [List.splitOn_eq_singleton hseg]
  rfl

/-- A slash at the end is moved to the output. -/
theorem removeDots_slash (output : List (List Char)) :
    removeDots ['/'] output = ['/'] :: output := by
  have h : removeDots ('/' :: ([] ++ [])) output = removeDots [] (['/'] :: output) :=
    removeDots_name isName_nil (by simp) (.inl rfl) output
  rw [List.nil_append] at h
  rw [h, removeDots]

/-- The loop, on the stack of segments. -/
theorem removeDots_segments (path : List Char) (stack : List (List Char)) :
    removeDots ('/' :: path) (stack.map ('/' :: ·)) =
      ((segments path).foldl move stack).map ('/' :: ·) := by
  obtain ⟨seg, rest, rfl, hseg, hrest⟩ := exists_segment path
  cases hrest with
  | inl hnil =>
    subst hnil
    rw [List.append_nil, segments_last hseg]
    rcases kinds seg with rfl | rfl | hname
    · rw [removeDots, removeDots_slash]
      rfl
    · rw [removeDots, removeDots_slash, ← List.map_tail]
      rfl
    · have h := removeDots_name hname hseg (.inl rfl) (stack.map ('/' :: ·))
      rw [List.append_nil] at h
      rw [h, removeDots, if_pos hname]
      simp [move_name hname]
  | inr hslash =>
    obtain ⟨path, rfl⟩ := hslash
    rw [segments_cons hseg, List.foldl_cons]
    rcases kinds seg with rfl | rfl | hname
    · show removeDots ('/' :: '.' :: '/' :: path) _ = _
      rw [removeDots, move_dot]
      exact removeDots_segments path stack
    · show removeDots ('/' :: '.' :: '.' :: '/' :: path) _ = _
      rw [removeDots, move_climb, ← List.map_tail]
      exact removeDots_segments path stack.tail
    · rw [removeDots_name hname hseg (.inr ⟨path, rfl⟩), move_name hname]
      exact removeDots_segments path (seg :: stack)
termination_by path.length
decreasing_by all_goals simp_all; try omega

/-! ## The bottom of the stack -/

def names (segs : List (List Char)) : Nat := segs.countP (decide <| IsName ·)

def climbs (segs : List (List Char)) : Nat := segs.count ['.', '.']

/-- However late one starts to read, at most `n` more names than climbs follow. -/
def LeavesAtMost (n : Nat) (segs : List (List Char)) : Prop :=
  ∀ tail, tail <:+ segs → names tail ≤ climbs tail + n

/-- However early one stops to read, at most `n` more climbs than names came. -/
def ClimbsAtMost (n : Nat) (segs : List (List Char)) : Prop :=
  ∀ lead, lead <+: segs → climbs lead ≤ names lead + n

/-- A name that has nothing left below it, and that nothing after it climbs to. -/
def Rooted (root : List Char) (segs : List (List Char)) : Prop :=
  ∃ before after, segs = before ++ root :: after ∧ IsName root ∧
    LeavesAtMost 0 before ∧ ClimbsAtMost 0 after

theorem names_append (segs segs' : List (List Char)) :
    names (segs ++ segs') = names segs + names segs' := List.countP_append

theorem climbs_append (segs segs' : List (List Char)) :
    climbs (segs ++ segs') = climbs segs + climbs segs' := List.count_append

@[simp] theorem names_nil : names [] = 0 := rfl

@[simp] theorem climbs_nil : climbs [] = 0 := rfl

@[simp] theorem names_dot : names [['.']] = 0 := rfl

@[simp] theorem climbs_dot : climbs [['.']] = 0 := rfl

@[simp] theorem names_climb : names [['.', '.']] = 0 := rfl

@[simp] theorem climbs_climb : climbs [['.', '.']] = 1 := rfl

theorem names_name {seg : List Char} (h : IsName seg) : names [seg] = 1 := by
  simp [names, h]

theorem climbs_name {seg : List Char} (h : IsName seg) : climbs [seg] = 0 := by
  have : ¬seg = ['.', '.'] := h.2
  simp [climbs, this]

theorem leavesAtMost_nil (n : Nat) : LeavesAtMost n [] := by
  intro tail h
  rw [List.suffix_nil.1 h]
  simp

theorem climbsAtMost_nil (n : Nat) : ClimbsAtMost n [] := by
  intro lead h
  rw [List.prefix_nil.1 h]
  simp

theorem leavesAtMost_append {n : Nat} {segs : List (List Char)} {seg : List Char} :
    LeavesAtMost n (segs ++ [seg]) ↔
      ∀ tail, tail <:+ segs → names tail + names [seg] ≤ climbs tail + climbs [seg] + n := by
  constructor
  · intro h tail htail
    have := h (tail ++ [seg]) (List.suffix_append_self_iff.2 htail)
    rw [names_append, climbs_append] at this
    exact this
  · intro h tail htail
    rcases List.suffix_concat_iff.1 htail with rfl | ⟨tail, rfl, htail⟩
    · simp
    · rw [names_append, climbs_append]
      exact h tail (List.suffix_append_self_iff.1 htail)

theorem climbsAtMost_cons {n : Nat} {segs : List (List Char)} {seg : List Char} :
    ClimbsAtMost n (seg :: segs) ↔
      ∀ lead, lead <+: segs → climbs [seg] + climbs lead ≤ names [seg] + names lead + n := by
  constructor
  · intro h lead hlead
    have := h (seg :: lead) (List.prefix_cons_inj seg |>.2 hlead)
    rw [← List.singleton_append, names_append, climbs_append] at this
    exact this
  · intro h lead hlead
    rcases List.prefix_cons_iff.1 hlead with rfl | ⟨lead, rfl, hlead⟩
    · simp
    · rw [← List.singleton_append, names_append, climbs_append]
      exact h lead ((List.prefix_cons_inj seg).1 hlead)

theorem climbsAtMost_append {n : Nat} {segs : List (List Char)} {seg : List Char}
    (h : ClimbsAtMost n segs)
    (hseg : climbs segs + climbs [seg] ≤ names segs + names [seg] + n) :
    ClimbsAtMost n (segs ++ [seg]) := by
  intro lead hlead
  rcases List.prefix_concat_iff.1 hlead with rfl | hlead
  · rw [names_append, climbs_append]
    exact hseg
  · exact h lead hlead

/-- How high the stack gets: by induction from the last segment read. -/
theorem length_le_iff {segs : List (List Char)} (n : Nat) :
    (segs.foldl move []).length ≤ n ↔ LeavesAtMost n segs := by
  induction segs using List.reverseRecOn generalizing n with
  | nil => simp [leavesAtMost_nil]
  | append_singleton segs seg ih =>
    rw [List.foldl_append, leavesAtMost_append]
    rcases kinds seg with rfl | rfl | hname
    · show (segs.foldl move []).length ≤ n ↔ _
      rw [ih n]
      exact Iff.rfl
    · show (segs.foldl move []).tail.length ≤ n ↔ _
      have hlen : (segs.foldl move []).tail.length ≤ n ↔ (segs.foldl move []).length ≤ n + 1 := by
        rw [List.length_tail]
        omega
      rw [hlen, ih (n + 1)]
      constructor
      · intro h tail htail
        have := h tail htail
        simp only [names_climb, climbs_climb]
        omega
      · intro h tail htail
        have := h tail htail
        simp only [names_climb, climbs_climb] at this
        omega
    · show (move (segs.foldl move []) seg).length ≤ n ↔ _
      rw [move_name hname, List.length_cons, names_name hname, climbs_name hname]
      cases n with
      | zero =>
        constructor
        · intro h
          omega
        · intro h
          have := h [] List.nil_suffix
          simp at this
      | succ n =>
        rw [Nat.add_le_add_iff_right, ih n]
        constructor
        · intro h tail htail
          have := h tail htail
          omega
        · intro h tail htail
          have := h tail htail
          omega

theorem foldl_move_eq_nil {segs : List (List Char)} (h : LeavesAtMost 0 segs) :
    segs.foldl move [] = [] := by
  have := (length_le_iff 0).2 h
  exact List.eq_nil_of_length_eq_zero (by omega)

/-- Segments that never climb past the upper part leave the lower one alone. -/
theorem foldl_move_append {segs : List (List Char)} (upper lower : List (List Char))
    (h : ClimbsAtMost upper.length segs) :
    segs.foldl move (upper ++ lower) = segs.foldl move upper ++ lower := by
  induction segs generalizing upper with
  | nil => rfl
  | cons seg segs ih =>
    rw [climbsAtMost_cons] at h
    simp only [List.foldl_cons]
    rcases kinds seg with rfl | rfl | hname
    · simp only [move_dot]
      exact ih upper (by simpa [ClimbsAtMost] using h)
    · cases upper with
      | nil =>
        have := h [] List.nil_prefix
        simp at this
      | cons top upper =>
        refine ih upper ?_
        intro lead hlead
        have := h lead hlead
        simp only [names_climb, climbs_climb, List.length_cons] at this
        omega
    · rw [move_name hname, move_name hname]
      refine ih (seg :: upper) ?_
      intro lead hlead
      have := h lead hlead
      rw [names_name hname, climbs_name hname] at this
      rw [List.length_cons]
      omega

theorem length_foldl_move {segs : List (List Char)} (stack : List (List Char))
    (h : ClimbsAtMost stack.length segs) :
    (segs.foldl move stack).length + climbs segs = names segs + stack.length := by
  induction segs using List.reverseRecOn with
  | nil => simp
  | append_singleton segs seg ih =>
    have hsegs : ClimbsAtMost stack.length segs := by
      intro lead hlead
      exact h lead (hlead.trans (List.prefix_append segs [seg]))
    have hall := h (segs ++ [seg]) (List.prefix_refl _)
    have := ih hsegs
    rw [names_append, climbs_append] at hall ⊢
    rw [List.foldl_append]
    rcases kinds seg with rfl | rfl | hname
    · simp only [List.foldl_cons, List.foldl_nil, move_dot, names_dot, climbs_dot]
      omega
    · simp only [List.foldl_cons, List.foldl_nil, move_climb, names_climb, climbs_climb,
        List.length_tail] at hall ⊢
      omega
    · simp only [List.foldl_cons, List.foldl_nil, move_name hname, List.length_cons,
        names_name hname, climbs_name hname]
      omega

theorem getLast?_of_rooted {root : List Char} {segs : List (List Char)} (h : Rooted root segs) :
    (segs.foldl move []).getLast? = some root := by
  obtain ⟨before, after, rfl, hroot, hbefore, hafter⟩ := h
  rw [List.foldl_append, List.foldl_cons, foldl_move_eq_nil hbefore, move_name hroot]
  have hkept := foldl_move_append [] [root] hafter
  rw [List.nil_append] at hkept
  rw [hkept]
  simp

/-- By induction from the last segment read: it leaves the bottom alone, or it
is the bottom. -/
theorem rooted_of_getLast? {root : List Char} {segs : List (List Char)}
    (h : (segs.foldl move []).getLast? = some root) : Rooted root segs := by
  induction segs using List.reverseRecOn with
  | nil => simp at h
  | append_singleton segs seg ih =>
    rw [List.foldl_append, List.foldl_cons, List.foldl_nil] at h
    rcases kinds seg with rfl | rfl | hname
    · obtain ⟨before, after, rfl, hroot, hbefore, hafter⟩ := ih h
      refine ⟨before, after ++ [['.']], by simp, hroot, hbefore, ?_⟩
      have := hafter after (List.prefix_refl _)
      exact climbsAtMost_append hafter (by simpa using this)
    · rw [move_climb] at h
      cases hstack : segs.foldl move [] with
      | nil =>
        rw [hstack] at h
        simp at h
      | cons top stack =>
        rw [hstack, List.tail_cons] at h
        have hne : stack ≠ [] := by
          intro hnil
          rw [hnil] at h
          simp at h
        have hlast : (segs.foldl move []).getLast? = some root := by
          rw [hstack, List.getLast?_cons_of_ne_nil hne]
          exact h
        obtain ⟨before, after, rfl, hroot, hbefore, hafter⟩ := ih hlast
        refine ⟨before, after ++ [['.', '.']], by simp, hroot, hbefore, ?_⟩
        refine climbsAtMost_append hafter ?_
        -- the stack still has a segment above the root
        rw [List.foldl_append, List.foldl_cons, foldl_move_eq_nil hbefore,
          move_name hroot] at hstack
        have hkept := foldl_move_append [] [root] hafter
        rw [List.nil_append] at hkept
        rw [hkept] at hstack
        have hlen := length_foldl_move [] hafter
        have := congrArg List.length hstack
        have := List.length_pos_of_ne_nil hne
        simp only [List.length_append, List.length_cons, List.length_nil, names_climb,
          climbs_climb] at *
        omega
    · rw [move_name hname] at h
      cases hstack : segs.foldl move [] with
      | nil =>
        rw [hstack] at h
        have hroot : seg = root := by simpa using h
        subst hroot
        refine ⟨segs, [], rfl, hname, ?_, climbsAtMost_nil 0⟩
        exact (length_le_iff 0).1 (by simp [hstack])
      | cons top stack =>
        have hlast : (segs.foldl move []).getLast? = some root := by
          rw [hstack] at h ⊢
          rw [List.getLast?_cons_of_ne_nil (by simp)] at h
          exact h
        obtain ⟨before, after, rfl, hroot, hbefore, hafter⟩ := ih hlast
        refine ⟨before, after ++ [seg], by simp, hroot, hbefore, ?_⟩
        have := hafter after (List.prefix_refl _)
        refine climbsAtMost_append hafter ?_
        rw [names_name hname, climbs_name hname]
        omega

theorem getLast?_iff_rooted (root : List Char) (segs : List (List Char)) :
    (segs.foldl move []).getLast? = some root ↔ Rooted root segs :=
  ⟨rooted_of_getLast?, getLast?_of_rooted⟩

/-! ## The first segment in the end -/

theorem slash_not_mem_segments (path : List Char) : ∀ seg ∈ segments path, '/' ∉ seg := by
  obtain ⟨seg, rest, rfl, hseg, hrest⟩ := exists_segment path
  cases hrest with
  | inl hnil =>
    subst hnil
    rw [List.append_nil, segments_last hseg]
    split
    · simpa using hseg
    · simpa using hseg
  | inr hslash =>
    obtain ⟨path, rfl⟩ := hslash
    rw [segments_cons hseg]
    have ih := slash_not_mem_segments path
    simpa using ⟨hseg, ih⟩
termination_by path.length
decreasing_by simp_all; try omega

theorem mem_foldl_move {seg : List Char} {segs stack : List (List Char)}
    (h : seg ∈ segs.foldl move stack) : seg ∈ stack ∨ seg ∈ segs := by
  induction segs generalizing stack with
  | nil => exact .inl h
  | cons next segs ih =>
    cases ih h with
    | inr hsegs => exact .inr (List.mem_cons_of_mem _ hsegs)
    | inl hmove =>
      unfold move at hmove
      split at hmove
      · exact .inl hmove
      · split at hmove
        · exact .inl (List.mem_of_mem_tail hmove)
        · cases List.mem_cons.1 hmove with
          | inl heq => exact .inr (by simp [heq])
          | inr hstack => exact .inl hstack

theorem stops_flatten (segs : List (List Char)) : Stops (segs.map ('/' :: ·)).flatten := by
  cases segs with
  | nil => exact .inl rfl
  | cons seg segs => exact .inr ⟨_, rfl⟩

/-- The path leads under `root` in the end if its segments do. -/
theorem firstSegment_removeDotSegments (path root : List Char) :
    firstSegment (removeDotSegments ('/' :: path)) = some root ↔
      Rooted root (segments path) := by
  rw [← getLast?_iff_rooted]
  have hloop := removeDots_segments path []
  rw [List.map_nil] at hloop
  unfold removeDotSegments
  rw [hloop, ← List.map_reverse]
  cases hstack : ((segments path).foldl move []).reverse with
  | nil =>
    rw [List.reverse_eq_nil_iff] at hstack
    simp [hstack, firstSegment]
  | cons bottom above =>
    have hlast : ((segments path).foldl move []).getLast? = some bottom := by
      rw [List.getLast?_eq_head?_reverse, hstack]
      rfl
    have hmem : bottom ∈ (segments path).foldl move [] := List.mem_of_getLast? hlast
    have hslash : '/' ∉ bottom := by
      cases mem_foldl_move hmem with
      | inl h => simp at h
      | inr h => exact slash_not_mem_segments path bottom h
    have hfirst := takeWhile_segment hslash (stops_flatten above)
    rw [hlast, List.map_cons, List.flatten_cons]
    show some ((bottom ++ (above.map ('/' :: ·)).flatten).takeWhile (· ≠ '/')) = some root ↔ _
    rw [hfirst]

end Uri
