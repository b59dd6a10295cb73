import Mathlib.Data.List.Basic

/-!
# Strings of the standard library

`substr`, `replace` and `find` of `std::string`, for lists of any type. A position behind the end of
the string has no result. `split` cuts a string at every occurrence of a delimiter, which it looks
for with `find` (`split_eq`).
-/

/-- The strings themselves. -/
abbrev StdString := List Char

namespace StdString

variable {α : Type*}

/-- The part of at most `len` characters from `pos` on. -/
def substr (s : List α) (pos len : ℕ) : Option (List α) :=
  if pos ≤ s.length then some ((s.drop pos).take len) else none

/-- The string with `str` in place of the part of at most `len` characters from `pos` on. -/
def replace (s : List α) (pos len : ℕ) (str : List α) : Option (List α) :=
  if pos ≤ s.length then some (s.take pos ++ str ++ s.drop (pos + len)) else none

section Split

variable [DecidableEq α]

/-- The first occurrence of `c` from `pos` on. -/
def find (s : List α) (c : α) (pos : ℕ) : Option ℕ :=
  ((s.drop pos).findIdx? (· == c)).map (pos + ·)

/-- The parts from `nowPos` on, in a number of turns. -/
def splitFrom (s : List α) (delimiter : α) : ℕ → ℕ → List (List α)
  | 0, _ => []
  | fuel + 1, nowPos =>
    match find s delimiter nowPos with
    | none => [s.drop nowPos]
    | some sepPos =>
      ((s.drop nowPos).take (sepPos - nowPos)) :: splitFrom s delimiter fuel (sepPos + 1)

/-- The parts between the delimiters. There is one part more than delimiters, so that the turns are
enough. -/
def split (s : List α) (delimiter : α) : List (List α) :=
  splitFrom s delimiter (s.length + 1) 0

theorem splitFrom_eq (s : List α) (delimiter : α) {fuel nowPos : ℕ}
    (h : s.length < fuel + nowPos) (hpos : nowPos ≤ s.length) :
    splitFrom s delimiter fuel nowPos = (s.drop nowPos).splitOn delimiter := by
  induction fuel generalizing nowPos with
  | zero => omega
  | succ fuel ih =>
    rw [splitFrom, find, List.splitOn_eq_splitOnP]
    rcases hfind : (s.drop nowPos).findIdx? (· == delimiter) with - | i
    · exact (List.splitOnP_eq_singleton (List.findIdx?_eq_none_iff.1 hfind)).symm
    · obtain ⟨hi, hdelim, hbefore⟩ := List.findIdx?_eq_some_iff_getElem.1 hfind
      have hlen : (s.drop nowPos).length = s.length - nowPos := List.length_drop
      have htake : ∀ x ∈ (s.drop nowPos).take i, (x == delimiter) = false := fun x hx ↦ by
        obtain ⟨j, hj, rfl⟩ := List.getElem_of_mem hx
        rw [List.getElem_take]
        rw [List.length_take] at hj
        exact Bool.not_eq_true _ ▸ hbefore j (by omega)
      rw [Option.map_some]
      dsimp only
      rw [ih (by omega) (by omega), Nat.add_sub_cancel_left, Nat.add_assoc, ← List.drop_drop,
        List.splitOn_eq_splitOnP,
        ← List.splitOnP_append_cons_of_forall_mem htake (s.drop nowPos)[i] hdelim,
        ← List.drop_eq_getElem_cons hi, List.take_append_drop]

/-- The parts are those between the delimiters. -/
theorem split_eq (s : List α) (delimiter : α) : split s delimiter = s.splitOn delimiter :=
  splitFrom_eq s delimiter (Nat.lt_succ_self _) (Nat.zero_le _)

end Split

variable {s s' t str : List α} {pos len : ℕ}

theorem substr_append (a b c : List α) :
    substr (a ++ b ++ c) a.length b.length = some b := by
  rw [substr, if_pos (by rw [List.append_assoc, List.length_append]; omega), List.append_assoc,
    List.drop_left, List.take_left]

theorem replace_append (a b c str : List α) :
    replace (a ++ b ++ c) a.length b.length str = some (a ++ str ++ c) := by
  rw [replace, if_pos (by rw [List.append_assoc, List.length_append]; omega),
    ← List.length_append, List.drop_left, List.append_assoc a b, List.take_left]

/-- What stands behind the replaced part is kept. -/
theorem suffix_of_replace (h : replace s pos len str = some s') (ht : t <:+ s)
    (hle : pos + len + t.length ≤ s.length) : t <:+ s' := by
  obtain ⟨u, rfl⟩ := ht
  rw [List.length_append] at hle
  rw [replace, if_pos (by rw [List.length_append]; omega), Option.some_inj] at h
  rw [← h, List.drop_append_of_le_length (by omega)]
  exact ⟨_, List.append_assoc _ _ _⟩

/-- The string does not get shorter when the new part is not shorter than the old one. -/
theorem length_le_of_replace (h : replace s pos len str = some s') (hlen : len ≤ str.length) :
    s.length ≤ s'.length := by
  rw [replace] at h
  split_ifs at h with hpos
  rw [← Option.some.inj h]
  simp only [List.length_append, List.length_take, List.length_drop]
  omega

end StdString
