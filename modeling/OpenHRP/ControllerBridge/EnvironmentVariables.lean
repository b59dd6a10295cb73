import OpenHRP.Foundations.Literals
import OpenHRP.Foundations.StdString
import Mathlib.Data.List.TakeWhile

/-!
# Environment variables in options

`expandEnvironmentVariables` looks for the variables `$NAME` of a string from left to right, notes
their positions, and then puts in their values from right to left. The start of the search is moved
by the lengths of the matches only, without the text between them. So the values of a string are put
in at the right places, whatever they are, if and only if no text stands before a variable other
than the last one (`expandsExactly_iff`).
-/

namespace OpenHRP

open StdString

/-! ### The pattern -/

/-- The range `A-z`, which contains `[`, `\`, `]`, `^`, `_` and the backquote. -/
def isNameStart (c : Char) : Bool := 'A' ≤ c && c ≤ 'z'

def isNameChar (c : Char) : Bool := 'A' ≤ c && c ≤ 'z' || c = '_' || '0' ≤ c && c ≤ '9'

/-- The string begins with a name. -/
def startsName (s : StdString) : Bool := s.head?.any isNameStart

/-- A match of the pattern, with the text on both sides. -/
structure VariableMatch where
  before : StdString
  name : StdString
  after : StdString

/-- The first match of the pattern. -/
def searchVariable : StdString → Option VariableMatch
  | [] => none
  | c :: s =>
    if c = '$' && startsName s then some ⟨[], s.takeWhile isNameChar, s.dropWhile isNameChar⟩
    else (searchVariable s).map fun m ↦ { m with before := c :: m.before }

/-! ### The two loops -/

/-- The positions and lengths of the names in a string that is searched from `pos` on. Every match
has two characters at least, so that the length of the string bounds the number of turns. -/
def findVariables : ℕ → ℕ → StdString → List (ℕ × ℕ)
  | 0, _, _ => []
  | fuel + 1, pos, s =>
    match searchVariable s with
    | none => []
    | some m => (pos + (m.before.length + 1), m.name.length) ::
        findVariables fuel (pos + (m.name.length + 1)) m.after

/-- A string as `c_str` gives it. -/
def cString (s : StdString) : StdString := s.takeWhile (· ≠ Char.ofNat 0)

section Replace

variable (getenv : StdString → Option StdString)

/-- The loop body of the replacement. -/
def replaceVariable (begin length : ℕ) (str : StdString) : Option StdString :=
  (substr str begin length).bind fun envName ↦
    match getenv (cString envName) with
    | some envValue => replace str (begin - 1) (length + 1) envValue
    | none => some str

/-- The variables are replaced in reverse order. -/
def replaceVariables : List (ℕ × ℕ) → StdString → Option StdString
  | [], str => some str
  | (begin, length) :: results, str =>
    (replaceVariables results str).bind (replaceVariable getenv begin length)

def expandEnvironmentVariables (str : StdString) : Option StdString :=
  replaceVariables getenv (findVariables str.length 0 str) str

end Replace

/-! ### What the function is for -/

/-- A name, from its first to its last character. -/
def IsName (name : StdString) : Prop :=
  startsName name = true ∧ ∀ c ∈ name, isNameChar c = true

/-- The second string is the first one with the values of its variables, the names of which are as
long as possible. A variable without a value stays. -/
inductive IsExpansion (getenv : StdString → Option StdString) : StdString → StdString → Prop
  | nil : IsExpansion getenv [] []
  | value {name rest out : StdString} (hname : IsName name)
      (hmax : ∀ c ∈ rest.head?, isNameChar c = false) (h : IsExpansion getenv rest out) :
      IsExpansion getenv ('$' :: (name ++ rest)) ((getenv name).getD ('$' :: name) ++ out)
  | other {c : Char} {s out : StdString} (hc : ¬(c = '$' ∧ startsName s = true))
      (h : IsExpansion getenv s out) : IsExpansion getenv (c :: s) (c :: out)

/-! ### The matches of a string -/

variable {getenv : StdString → Option StdString} {s out rest : StdString} {m : VariableMatch}

theorem isNameChar_of_isNameStart {c : Char} (h : isNameStart c = true) : isNameChar c = true := by
  rw [isNameChar, ← isNameStart, h]
  rfl

theorem startsName_append (h : startsName s = true) (s' : StdString) :
    startsName (s ++ s') = true := by
  rcases s with - | ⟨c, s⟩
  · exact absurd h Bool.false_ne_true
  · exact h

theorem isName_takeWhile (h : startsName s = true) :
    IsName (s.takeWhile isNameChar) := by
  refine ⟨?_, fun c hc ↦ List.mem_takeWhile_imp hc⟩
  rcases s with - | ⟨c, s⟩
  · exact h
  · have hc : isNameStart c = true := h
    rw [List.takeWhile_cons_of_pos (isNameChar_of_isNameStart hc)]
    exact hc

variable {name : StdString}

/-- A name is cut off where it ends. -/
theorem takeWhile_append_of_isName (hname : IsName name)
    (hmax : ∀ c ∈ rest.head?, isNameChar c = false) :
    (name ++ rest).takeWhile isNameChar = name ∧ (name ++ rest).dropWhile isNameChar = rest := by
  rw [List.takeWhile_append_of_pos hname.2, List.dropWhile_append_of_pos hname.2]
  rcases rest with - | ⟨c, rest⟩
  · exact ⟨List.append_nil _, rfl⟩
  · have hc : ¬isNameChar c = true := by
      rw [hmax c rfl]
      exact Bool.false_ne_true
    rw [List.takeWhile_cons_of_neg hc, List.dropWhile_cons_of_neg hc, List.append_nil]
    exact ⟨rfl, rfl⟩

theorem isExpansion_nil_iff : IsExpansion getenv [] out ↔ out = [] := by
  constructor
  · intro h
    cases h
    rfl
  · rintro rfl
    exact .nil

theorem isExpansion_other_iff {c : Char} (hc : ¬(c = '$' ∧ startsName s = true)) :
    IsExpansion getenv (c :: s) out ↔ ∃ out', out = c :: out' ∧ IsExpansion getenv s out' := by
  constructor
  · intro h
    cases h with
    | value hname hmax h => exact absurd ⟨rfl, startsName_append hname.1 _⟩ hc
    | other hc h => exact ⟨_, rfl, h⟩
  · rintro ⟨out', rfl, h⟩
    exact .other hc h

theorem isExpansion_value_iff (hs : startsName s = true) :
    IsExpansion getenv ('$' :: s) out ↔ ∃ out',
      out = (getenv (s.takeWhile isNameChar)).getD ('$' :: s.takeWhile isNameChar) ++ out' ∧
        IsExpansion getenv (s.dropWhile isNameChar) out' := by
  constructor
  · intro h
    cases h with
    | value hname hmax h =>
      obtain ⟨htake, hdrop⟩ := takeWhile_append_of_isName hname hmax
      rw [htake, hdrop]
      exact ⟨_, rfl, h⟩
    | other hc h => exact absurd ⟨rfl, hs⟩ hc
  · rintro ⟨out', rfl, h⟩
    have hmax : ∀ c ∈ (s.dropWhile isNameChar).head?, isNameChar c = false := fun c hc ↦ by
      have hhead := List.head?_dropWhile_not isNameChar s
      rwa [Option.mem_def.1 hc] at hhead
    have hv := IsExpansion.value (isName_takeWhile hs) hmax h
    rwa [List.takeWhile_append_dropWhile] at hv

theorem searchVariable_of_value (hs : startsName s = true) :
    searchVariable ('$' :: s) = some ⟨[], s.takeWhile isNameChar, s.dropWhile isNameChar⟩ := by
  rw [searchVariable, hs]
  rfl

theorem searchVariable_of_other {c : Char} (hc : ¬(c = '$' ∧ startsName s = true)) :
    searchVariable (c :: s) =
      (searchVariable s).map fun m ↦ { m with before := c :: m.before } := by
  rw [searchVariable, if_neg]
  rwa [Bool.and_eq_true, decide_eq_true_iff]

/-- Behind the first match the expansion goes on as for a string of its own. -/
theorem isExpansion_iff_of_search (h : searchVariable s = some m) :
    IsExpansion getenv s out ↔ ∃ out',
      out = m.before ++ ((getenv m.name).getD ('$' :: m.name) ++ out') ∧
        IsExpansion getenv m.after out' := by
  induction s generalizing m out with
  | nil => exact absurd h (Option.some_ne_none _).symm
  | cons c s ih =>
    by_cases hc : c = '$' ∧ startsName s = true
    · obtain ⟨rfl, hs⟩ := hc
      rw [searchVariable_of_value hs, Option.some_inj] at h
      rw [isExpansion_value_iff hs, ← h]
      rfl
    · rw [searchVariable_of_other hc, Option.map_eq_some_iff] at h
      obtain ⟨m', hm', rfl⟩ := h
      rw [isExpansion_other_iff hc]
      simp only [ih hm']
      constructor
      · rintro ⟨_, rfl, out', rfl, h⟩
        exact ⟨out', rfl, h⟩
      · rintro ⟨out', rfl, h⟩
        exact ⟨_, rfl, out', rfl, h⟩

theorem isExpansion_iff_of_search_eq_none (h : searchVariable s = none) :
    IsExpansion getenv s out ↔ out = s := by
  induction s generalizing out with
  | nil => exact isExpansion_nil_iff
  | cons c s ih =>
    by_cases hc : c = '$' ∧ startsName s = true
    · obtain ⟨rfl, hs⟩ := hc
      rw [searchVariable_of_value hs] at h
      exact absurd h (Option.some_ne_none _)
    · rw [searchVariable_of_other hc, Option.map_eq_none_iff] at h
      rw [isExpansion_other_iff hc]
      simp only [ih h]
      exact exists_eq_right

theorem eq_of_search (h : searchVariable s = some m) :
    s = m.before ++ ('$' :: m.name ++ m.after) ∧ IsName m.name := by
  induction s generalizing m with
  | nil => exact absurd h (Option.some_ne_none _).symm
  | cons c s ih =>
    by_cases hc : c = '$' ∧ startsName s = true
    · obtain ⟨rfl, hs⟩ := hc
      rw [searchVariable_of_value hs, Option.some_inj] at h
      rw [← h]
      refine ⟨?_, isName_takeWhile hs⟩
      rw [List.nil_append, List.cons_append, List.takeWhile_append_dropWhile]
    · rw [searchVariable_of_other hc, Option.map_eq_some_iff] at h
      obtain ⟨m', hm', rfl⟩ := h
      exact ⟨congrArg (c :: ·) (ih hm').1, (ih hm').2⟩

/-! ### The variables of a string -/

/-- A string is cut into its variables, each with the text before it, and the rest. -/
inductive IsCut : List (StdString × StdString) → StdString → StdString → Prop
  | nil {s : StdString} (h : searchVariable s = none) : IsCut [] s s
  | cons {s rest : StdString} {m : VariableMatch} {vars : List (StdString × StdString)}
      (h : searchVariable s = some m) (hcut : IsCut vars m.after rest) :
      IsCut ((m.before, m.name) :: vars) s rest

/-- The variables that a number of turns finds. -/
def variablesFrom : ℕ → StdString → List (StdString × StdString)
  | 0, _ => []
  | fuel + 1, s =>
    match searchVariable s with
    | none => []
    | some m => (m.before, m.name) :: variablesFrom fuel m.after

/-- The variables of a string, each with the text before it. -/
def variablesOf (s : StdString) : List (StdString × StdString) := variablesFrom s.length s

/-- The parts of a cut, with `f` in place of the variables. -/
def joinCut (f : StdString → StdString) : List (StdString × StdString) → StdString → StdString
  | [], rest => rest
  | v :: vars, rest => v.1 ++ (f v.2 ++ joinCut f vars rest)

/-- The positions that the loop over the matches notes. -/
def positions : ℕ → List (StdString × StdString) → List (ℕ × ℕ)
  | _, [] => []
  | pos, v :: vars =>
    (pos + (v.1.length + 1), v.2.length) :: positions (pos + (v.2.length + 1)) vars

variable {vars : List (StdString × StdString)} (f : StdString → StdString)

theorem joinCut_append (vars vars' : List (StdString × StdString)) (rest : StdString) :
    joinCut f (vars ++ vars') rest = joinCut f vars (joinCut f vars' rest) := by
  induction vars with
  | nil => rfl
  | cons v vars ih => rw [List.cons_append, joinCut, ih, joinCut]

theorem suffix_joinCut (vars : List (StdString × StdString)) (rest : StdString) :
    rest <:+ joinCut f vars rest := by
  induction vars with
  | nil => exact List.suffix_refl _
  | cons v vars ih => exact (ih.trans (List.suffix_append _ _)).trans (List.suffix_append _ _)

theorem length_joinCut (vars : List (StdString × StdString)) (rest : StdString) :
    (joinCut f vars rest).length = (joinCut f vars []).length + rest.length := by
  induction vars with
  | nil => exact (Nat.zero_add _).symm
  | cons v vars ih =>
    simp only [joinCut, List.length_append, ih]
    omega

theorem IsCut.isExpansion_iff (h : IsCut vars s rest) :
    IsExpansion getenv s out ↔
      out = joinCut (fun name ↦ (getenv name).getD ('$' :: name)) vars rest := by
  induction h generalizing out with
  | nil h => exact isExpansion_iff_of_search_eq_none h
  | cons h _ ih =>
    rw [isExpansion_iff_of_search h]
    simp only [ih]
    exact exists_eq_right

theorem IsCut.eq_joinCut (h : IsCut vars s rest) : s = joinCut ('$' :: ·) vars rest := by
  induction h with
  | nil h => rfl
  | cons h _ ih =>
    conv_lhs => rw [(eq_of_search h).1, ih]
    rfl

theorem IsCut.isName (h : IsCut vars s rest) : ∀ v ∈ vars, IsName v.2 := by
  induction h with
  | nil h => exact fun v hv ↦ absurd hv List.not_mem_nil
  | cons h _ ih => exact List.forall_mem_cons.2 ⟨(eq_of_search h).2, ih⟩

/-- The length of the string is enough for all turns. -/
theorem isCut_variables {fuel : ℕ} (h : s.length ≤ fuel) :
    ∃ rest, IsCut (variablesFrom fuel s) s rest := by
  induction fuel generalizing s with
  | zero =>
    obtain rfl := List.length_eq_zero_iff.1 (Nat.le_zero.1 h)
    exact ⟨[], .nil rfl⟩
  | succ fuel ih =>
    rcases hs : searchVariable s with - | m
    · rw [variablesFrom, hs]
      exact ⟨s, .nil hs⟩
    · have hlt : m.after.length ≤ fuel := by
        have hlen := congrArg List.length (eq_of_search hs).1
        simp only [List.length_append, List.length_cons] at hlen
        omega
      obtain ⟨rest, hrest⟩ := ih hlt
      rw [variablesFrom, hs]
      exact ⟨rest, .cons hs hrest⟩

theorem findVariables_eq (fuel pos : ℕ) (s : StdString) :
    findVariables fuel pos s = positions pos (variablesFrom fuel s) := by
  induction fuel generalizing pos s with
  | zero => rfl
  | succ fuel ih =>
    rw [findVariables, variablesFrom]
    rcases searchVariable s with - | m
    · rfl
    · exact congrArg (List.cons _) (ih _ _)

/-! ### The replacement -/

theorem cString_of_isName (h : IsName name) : cString name = name := by
  refine List.takeWhile_eq_self_iff.2 fun c hc ↦ decide_eq_true ?_
  rintro rfl
  exact absurd (h.2 _ hc) (by decide)

theorem replaceVariable_of_name (h : IsName name) (before after : StdString) :
    replaceVariable getenv (before.length + 1) name.length (before ++ ('$' :: name ++ after)) =
      some (before ++ ((getenv name).getD ('$' :: name) ++ after)) := by
  have hsub : substr (before ++ ('$' :: name ++ after)) (before.length + 1) name.length =
      some name := by
    have happ := substr_append (before ++ ['$']) name after
    rwa [List.length_append, List.append_assoc, List.append_assoc] at happ
  rw [replaceVariable, hsub, Option.bind_some, cString_of_isName h]
  rcases getenv name with - | value
  · rfl
  · have happ := replace_append before ('$' :: name) after value
    rwa [List.append_assoc, List.append_assoc] at happ

/-- The positions of the names in a string that is cut from `pos` on. -/
def truePositions : ℕ → List (StdString × StdString) → List (ℕ × ℕ)
  | _, [] => []
  | pos, v :: vars => (pos + (v.1.length + 1), v.2.length) ::
      truePositions (pos + (v.1.length + (v.2.length + 1))) vars

/-- At the true positions every variable gets its value. -/
theorem replaceVariables_truePositions (hvars : ∀ v ∈ vars, IsName v.2) (before rest : StdString) :
    replaceVariables getenv (truePositions before.length vars)
      (before ++ joinCut ('$' :: ·) vars rest) =
        some (before ++ joinCut (fun name ↦ (getenv name).getD ('$' :: name)) vars rest) := by
  induction vars generalizing before with
  | nil => rfl
  | cons v vars ih =>
    obtain ⟨hv, hvars⟩ := List.forall_mem_cons.1 hvars
    have htail := ih hvars (before ++ v.1 ++ '$' :: v.2)
    have hstr (f : StdString → StdString) : before ++ joinCut f (v :: vars) rest =
        before ++ v.1 ++ (f v.2 ++ joinCut f vars rest) := (List.append_assoc _ _ _).symm
    have hlen : before.length + (v.1.length + (v.2.length + 1)) =
        (before ++ v.1 ++ '$' :: v.2).length := by
      rw [List.length_append, List.length_append, List.length_cons, Nat.add_assoc]
    have hbegin : before.length + (v.1.length + 1) = (before ++ v.1).length + 1 := by
      rw [List.length_append, Nat.add_assoc]
    rw [truePositions, replaceVariables, hlen, hstr, hstr, ← List.append_assoc, htail,
      Option.bind_some, hbegin, List.append_assoc (before ++ v.1), replaceVariable_of_name hv]

theorem positions_eq_truePositions (pos : ℕ) (h : ∀ v ∈ vars.dropLast, v.1 = []) :
    positions pos vars = truePositions pos vars := by
  induction vars generalizing pos with
  | nil => rfl
  | cons v vars ih =>
    rcases vars with - | ⟨w, vars⟩
    · rfl
    · rw [List.dropLast_cons_cons, List.forall_mem_cons] at h
      rw [positions, truePositions, ih _ h.2, h.1, List.length_nil, Nat.zero_add (v.2.length + 1)]

theorem sum_le_length_joinCut (vars : List (StdString × StdString)) :
    (vars.map fun v ↦ v.2.length + 1).sum ≤ (joinCut ('$' :: ·) vars []).length := by
  induction vars with
  | nil => exact Nat.zero_le _
  | cons v vars ih =>
    rw [List.map_cons, List.sum_cons, joinCut, List.length_append, List.length_append,
      List.length_cons]
    omega

theorem exists_replaceVariable_eq (getenv : StdString → Option StdString) {begin : ℕ} (length : ℕ)
    (h : begin ≤ s.length) : ∃ out,
    replaceVariable getenv begin length s = some out ∧ s.length ≤ out.length + (length + 1) := by
  rw [replaceVariable, substr, if_pos h, Option.bind_some]
  rcases getenv (cString ((s.drop begin).take length)) with - | value
  · exact ⟨s, rfl, Nat.le_add_right _ _⟩
  · refine ⟨_, if_pos (by omega), ?_⟩
    simp only [List.length_append, List.length_take, List.length_drop]
    omega

/-- What the replaced variables take away is there, so that no position is out of range. -/
theorem exists_replaceVariables_eq (pos : ℕ) (vars : List (StdString × StdString))
    (h : pos + (joinCut ('$' :: ·) vars []).length ≤ s.length) :
    ∃ out, replaceVariables getenv (positions pos vars) s = some out ∧
      s.length ≤ out.length + (vars.map fun v ↦ v.2.length + 1).sum := by
  induction vars generalizing pos with
  | nil => exact ⟨s, rfl, Nat.le_refl _⟩
  | cons v vars ih =>
    rw [joinCut, List.length_append, List.length_append, List.length_cons] at h
    have hsum := sum_le_length_joinCut vars
    obtain ⟨str, hstr, hle⟩ := ih (pos + (v.2.length + 1)) (by omega)
    have hbegin : pos + (v.1.length + 1) ≤ str.length := by omega
    obtain ⟨out, hout, hle'⟩ := exists_replaceVariable_eq getenv v.2.length hbegin
    refine ⟨out, ?_, ?_⟩
    · rw [positions, replaceVariables, hstr, Option.bind_some, hout]
    · rw [List.map_cons, List.sum_cons]
      omega

/-- The expansion of a string always has a result. -/
theorem exists_expandEnvironmentVariables_eq (getenv : StdString → Option StdString)
    (str : StdString) : ∃ out, expandEnvironmentVariables getenv str = some out := by
  obtain ⟨rest, hcut⟩ := isCut_variables le_rfl (s := str)
  rw [expandEnvironmentVariables, findVariables_eq]
  have hlen : 0 + (joinCut ('$' :: ·) (variablesFrom str.length str) []).length ≤ str.length := by
    have heq := congrArg List.length hcut.eq_joinCut
    rw [length_joinCut] at heq
    omega
  obtain ⟨out, hout, -⟩ := exists_replaceVariables_eq 0 _ hlen
  exact ⟨out, hout⟩

/-! ### The end of the string -/

/-- A part at the end of the string is kept, when all that is replaced stands before it and no value
is shorter than what it replaces. -/
theorem suffix_of_replaceVariables {t : StdString} {n : ℕ} {results : List (ℕ × ℕ)}
    (hlong : ∀ r ∈ results, ∀ name value, getenv name = some value → r.2 + 1 ≤ value.length)
    (hends : ∀ r ∈ results, 0 < r.1 ∧ r.1 + r.2 + t.length ≤ n) (ht : t <:+ s) (hn : n ≤ s.length)
    (h : replaceVariables getenv results s = some out) : t <:+ out ∧ n ≤ out.length := by
  induction results generalizing out with
  | nil => exact Option.some.inj h ▸ ⟨ht, hn⟩
  | cons r results ih =>
    rw [List.forall_mem_cons] at hlong hends
    obtain ⟨str, hstr, h⟩ := Option.bind_eq_some_iff.1 h
    obtain ⟨envName, -, h⟩ := Option.bind_eq_some_iff.1 h
    obtain ⟨ht, hn⟩ := ih hlong.2 hends.2 hstr
    rcases hvalue : getenv (cString envName) with - | value
    · rw [hvalue] at h
      exact Option.some.inj h ▸ ⟨ht, hn⟩
    · rw [hvalue] at h
      refine ⟨suffix_of_replace h ht ?_, hn.trans (length_le_of_replace h (hlong.1 _ _ hvalue))⟩
      omega

theorem add_le_of_mem_positions {pos : ℕ} {r : ℕ × ℕ} (hr : r ∈ positions pos vars) :
    0 < r.1 ∧ r.1 + r.2 ≤ pos + (joinCut ('$' :: ·) vars []).length := by
  induction vars generalizing pos with
  | nil => exact absurd hr List.not_mem_nil
  | cons v vars ih =>
    rw [joinCut, List.length_append, List.length_append, List.length_cons]
    rcases List.mem_cons.1 hr with rfl | hr
    · dsimp only
      omega
    · have h := ih hr
      omega

/-- A text before another variable moves all positions away from the end. -/
theorem add_lt_of_mem_positions {pos : ℕ} {r : ℕ × ℕ} (hr : r ∈ positions pos vars)
    (h : ∃ v ∈ vars.dropLast, v.1 ≠ []) :
    r.1 + r.2 < pos + (joinCut ('$' :: ·) vars []).length := by
  induction vars generalizing pos with
  | nil => exact absurd hr List.not_mem_nil
  | cons v vars ih =>
    rw [joinCut, List.length_append, List.length_append, List.length_cons]
    obtain ⟨u, hu, hne⟩ := h
    rcases vars with - | ⟨w, vars⟩
    · exact absurd hu List.not_mem_nil
    rw [List.dropLast_cons_cons] at hu
    rcases List.mem_cons.1 hr with rfl | hr
    · rw [joinCut, List.length_append, List.length_append, List.length_cons]
      dsimp only
      omega
    · rcases List.mem_cons.1 hu with rfl | hu
      · have hpos := List.length_pos_iff.2 hne
        have hle := (add_le_of_mem_positions hr).2
        omega
      · have hlt := ih hr ⟨u, hu, hne⟩
        omega

theorem suffix_joinCut_concat {f : StdString → StdString} {t : StdString}
    (vars : List (StdString × StdString)) (v : StdString × StdString) (h : t <:+ f v.2 ++ rest) :
    t <:+ joinCut f (vars ++ [v]) rest := by
  rw [joinCut_append]
  exact (h.trans (List.suffix_append v.1 _)).trans (suffix_joinCut f vars _)

/-- A value of the last variable that is longer than the string and ends with another character
than the name shows that the end of the name has not been replaced. -/
theorem exists_ne_joinCut (hvars : ∀ v ∈ vars, IsName v.2) (h : ∃ v ∈ vars.dropLast, v.1 ≠ [])
    (rest : StdString) : ∃ getenv, replaceVariables getenv (positions 0 vars)
      (joinCut ('$' :: ·) vars rest) ≠
        some (joinCut (fun name ↦ (getenv name).getD ('$' :: name)) vars rest) := by
  obtain rfl | ⟨init, v, rfl⟩ := List.eq_nil_or_concat' vars
  · obtain ⟨v, hv, -⟩ := h
    exact absurd hv List.not_mem_nil
  obtain ⟨name, x, hname⟩ : ∃ name x, v.2 = name ++ [x] := by
    refine (List.eq_nil_or_concat' v.2).resolve_left fun hnil ↦ ?_
    have hv := (hvars v List.mem_concat_self).1
    rw [hnil] at hv
    exact absurd hv Bool.false_ne_true
  obtain ⟨z, hz⟩ : ∃ z, x ≠ z := by
    by_cases hx : x = 'a'
    · exact ⟨'b', by rw [hx]; decide⟩
    · exact ⟨'a', hx⟩
  set str := joinCut ('$' :: ·) (init ++ [v]) rest with hstr
  let getenv : StdString → Option StdString := fun name ↦
    if name = v.2 then some (List.replicate (str.length + 1) z) else none
  refine ⟨getenv, fun hout ↦ ?_⟩
  have hends : ∀ r ∈ positions 0 (init ++ [v]), 0 < r.1 ∧ r.1 + r.2 + (x :: rest).length ≤
      str.length := fun r hr ↦ by
    have hlt := add_lt_of_mem_positions hr h
    rw [hstr, length_joinCut, List.length_cons]
    exact ⟨(add_le_of_mem_positions hr).1, by omega⟩
  have hlong : ∀ r ∈ positions 0 (init ++ [v]), ∀ name value, getenv name = some value →
      r.2 + 1 ≤ value.length := fun r hr name value hvalue ↦ by
    have hend := hends r hr
    rw [← Option.some.inj (Option.ite_none_right_eq_some.1 hvalue).2, List.length_replicate]
    omega
  have hsuffix : x :: rest <:+ str := by
    refine suffix_joinCut_concat init v ⟨'$' :: name, ?_⟩
    rw [hname, List.cons_append, List.cons_append, List.append_assoc]
    rfl
  have hkept := (suffix_of_replaceVariables hlong hends hsuffix le_rfl hout).1
  have hvalue : z :: rest <:+
      joinCut (fun name ↦ (getenv name).getD ('$' :: name)) (init ++ [v]) rest := by
    refine suffix_joinCut_concat init v ⟨List.replicate str.length z, ?_⟩
    have hget : getenv v.2 = some (List.replicate (str.length + 1) z) := if_pos rfl
    rw [hget, Option.getD_some, List.replicate_succ', List.append_assoc]
    rfl
  have heq := (List.suffix_of_suffix_length_le hkept hvalue le_rfl).eq_of_length rfl
  exact hz (List.cons.inj heq).1

/-- Every string is expanded exactly, whatever the variables are, if and only if no text stands
before a variable other than the last one. -/
theorem expandsExactly_iff (str : StdString) :
    (∀ getenv, ∃ out, expandEnvironmentVariables getenv str = some out ∧
      IsExpansion getenv str out) ↔ ∀ v ∈ (variablesOf str).dropLast, v.1 = [] := by
  obtain ⟨rest, hcut⟩ := isCut_variables le_rfl (s := str)
  simp only [hcut.isExpansion_iff, exists_eq_right, expandEnvironmentVariables, findVariables_eq]
  rw [← variablesOf] at hcut ⊢
  constructor
  · intro h
    by_contra hne
    push Not at hne
    obtain ⟨getenv, hgetenv⟩ := exists_ne_joinCut hcut.isName hne rest
    rw [← hcut.eq_joinCut] at hgetenv
    exact hgetenv (h getenv)
  · intro h getenv
    rw [positions_eq_truePositions _ h]
    refine Eq.trans ?_ (replaceVariables_truePositions hcut.isName [] rest)
    exact congrArg (replaceVariables getenv (truePositions 0 (variablesOf str))) hcut.eq_joinCut

/-- With the values `1` of `X` and `2` of `Y`, the second variable stays. -/
theorem not_expandsExactly_gap : ¬∀ getenv, ∃ out,
    expandEnvironmentVariables getenv ['a', '$', 'X', ' ', 'b', '$', 'Y'] = some out ∧
      IsExpansion getenv ['a', '$', 'X', ' ', 'b', '$', 'Y'] out := fun h ↦ by
  obtain ⟨out, hout, hexp⟩ := h fun name ↦
    if name = ['X'] then some ['1'] else if name = ['Y'] then some ['2'] else none
  have hcode := hout.symm.trans (show _ = some ['a', '1', ' ', 'b', '$', 'Y'] by decide)
  have hX : searchVariable ['a', '$', 'X', ' ', 'b', '$', 'Y'] =
      some ⟨['a'], ['X'], [' ', 'b', '$', 'Y']⟩ := rfl
  have hY : searchVariable [' ', 'b', '$', 'Y'] = some ⟨[' ', 'b'], ['Y'], []⟩ := rfl
  obtain ⟨out', hout', hexp⟩ := (isExpansion_iff_of_search hX).1 hexp
  obtain ⟨out'', rfl, -⟩ := (isExpansion_iff_of_search hY).1 hexp
  rw [Option.some.inj hcode] at hout'
  simp at hout'

end OpenHRP
