import OpenHRP.SDims.LCPSolution

/-!
# Lemke's method

`SolvePivot` looks for a solution of a linear complementarity problem by pivots between `w` and `z`.
In each turn the variable in column `jr` of `z` comes into `w`, one of the rows of least ratio
leaves it, and the complement of the variable that has left is the next to come, until the
artificial variable leaves. Each turn computes the entries anew from `M` and `q`, by a block pivot
of all the rows and columns that have changed places.

The block pivot copies the entries `M12bar` that are in neither a row nor a column of the pivots;
its inner loop ends at the number of rows, and there is one column more. The entries of this column
are those the allocated memory holds. Numbers and inverses are exact.
-/

namespace OpenHRP.LCP

variable {n m : ℕ} {K : Type*}

section Pivot

variable [Field K]

/-- The product of matrices whose inner size is `k`. -/
def mul (k : ℕ) (A B : ℕ → ℕ → K) (i j : ℕ) : K :=
  ∑ t ∈ Finset.range k, A i t * B t j

/-- The product of a matrix with `k` columns and a vector. -/
def mulVec (k : ℕ) (A : ℕ → ℕ → K) (v : ℕ → K) (i : ℕ) : K :=
  ∑ t ∈ Finset.range k, A i t * v t

/-- The rows and columns of a matrix with the indices in two lists. -/
def subMatrix (M : Matrix (Fin n) (Fin m) K) (rows : List (Fin n)) (cols : List (Fin m))
    (i j : ℕ) : K :=
  rows[i]?.elim 0 fun a ↦ cols[j]?.elim 0 (M a)

/-- The elements of a vector with the indices in a list. -/
def subVector (q : Fin n → K) (rows : List (Fin n)) (i : ℕ) : K :=
  rows[i]?.elim 0 q

/-- The blocks of a pivot, by the positions in the lists of rows and columns. -/
structure Blocks (K : Type*) where
  m12 : ℕ → ℕ → K
  m1 : ℕ → ℕ → K
  m2 : ℕ → ℕ → K
  m12bar : ℕ → ℕ → K
  q1 : ℕ → K
  q1bar : ℕ → K

/-- `pivot_body`, for `nPivot` rows and columns; `inv` is `inv_svd`. -/
def pivotBody (inv : ℕ → (ℕ → ℕ → K) → ℕ → ℕ → K) (nPivot : ℕ) (B : Blocks K) : Blocks K :=
  let md12 := inv nPivot B.m12
  let md1 := fun i j ↦ -mul nPivot md12 B.m1 i j
  let qd1 := fun i ↦ -mulVec nPivot md12 B.q1 i
  { m12 := md12
    m1 := md1
    m2 := mul nPivot B.m2 md12
    m12bar := fun i j ↦ B.m12bar i j + mul nPivot B.m2 md1 i j
    q1 := qd1
    q1bar := fun i ↦ B.q1bar i + mulVec nPivot B.m2 qd1 i }

/-- The counter `i_bar` at row `i`: the rows before it that are not among the pivots. -/
def countBar (piv : Fin n → Option ℕ) (i : Fin n) : ℕ :=
  ((List.finRange n).take i).countP fun i' ↦ (piv i').isNone

/-- The entries of `M_new` from the blocks: `rowPiv` and `colPiv` are the positions of the rows and
columns among the pivots. -/
def Blocks.entries (B : Blocks K) (rowPiv : Fin n → Option ℕ) (colPiv : Fin m → Option ℕ) :
    Matrix (Fin n) (Fin m) K := fun i j ↦
  match rowPiv i, colPiv j with
  | some iPiv, some jPiv => B.m12 iPiv jPiv
  | some iPiv, none => B.m1 iPiv (countBar colPiv j)
  | none, some jPiv => B.m2 (countBar rowPiv i) jPiv
  | none, none => B.m12bar (countBar rowPiv i) (countBar colPiv j)

/-- The elements of `q_new` from the blocks. -/
def Blocks.elements (B : Blocks K) (rowPiv : Fin n → Option ℕ) (i : Fin n) : K :=
  match rowPiv i with
  | some iPiv => B.q1 iPiv
  | none => B.q1bar (countBar rowPiv i)

/-- `Pivot` for lists of rows and of columns: `M_new` and `q_new`. -/
def pivotIndices (inv : ℕ → (ℕ → ℕ → K) → ℕ → ℕ → K) (idx1 : List (Fin n)) (idx2 : List (Fin m))
    (M : Matrix (Fin n) (Fin m) K) (q : Fin n → K) : Matrix (Fin n) (Fin m) K × (Fin n → K) :=
  let rowPivotIndex : Fin n → Option ℕ := fun i ↦ idx1.idxOf? i
  let colPivotIndex : Fin m → Option ℕ := fun j ↦ idx2.idxOf? j
  let rowsBar := (List.finRange n).filter (· ∉ idx1)
  let colsBar := (List.finRange m).filter (· ∉ idx2)
  let B := pivotBody inv idx1.length
    { m12 := subMatrix M idx1 idx2
      m1 := subMatrix M idx1 colsBar
      m2 := subMatrix M rowsBar idx2
      m12bar := subMatrix M rowsBar colsBar
      q1 := subVector q idx1
      q1bar := subVector q rowsBar }
  (B.entries rowPivotIndex colPivotIndex, B.elements rowPivotIndex)

/-- The counters `i_piv` and `j_piv`: the positions of those elements of an array that are there. -/
def countPiv {α : Type*} (array : Fin n → Option α) (i : Fin n) : Option ℕ :=
  if (array i).isSome then some (((List.finRange n).take i).countP fun i' ↦ (array i').isSome)
  else none

/-- `Pivot` for index arrays: `M_new` and `q_new`. The memory of `M12bar` holds `fresh` when it is
allocated. -/
def pivotLabels (inv : ℕ → (ℕ → ℕ → K) → ℕ → ℕ → K) (fresh : ℕ → ℕ → K) (L : Labels n)
    (M : Matrix (Fin n) (Fin (n + 1)) K) (q : Fin n → K) :
    Matrix (Fin n) (Fin (n + 1)) K × (Fin n → K) :=
  let nPivot := L.gPiv.length
  if nPivot = 0 then (M, q)
  else
    let nRowBar := n - nPivot
    let B := pivotBody inv nPivot
      { m12 := subMatrix M L.aPiv L.gPiv
        m1 := subMatrix M L.aPiv L.gBar
        m2 := subMatrix M L.aBar L.gPiv
        m12bar := fun i j ↦ if j < nRowBar then subMatrix M L.aBar L.gBar i j else fresh i j
        q1 := subVector q L.aPiv
        q1bar := subVector q L.aBar }
    (B.entries (countPiv L.w2g) (countPiv L.z2a), B.elements (countPiv L.w2g))

end Pivot

variable [Field K] [LinearOrder K] [CMath K]

/-- `max_value`. -/
def maxValue (v : Fin n → K) : K :=
  ((List.finRange n).foldl (fun best i ↦
    if best.elim true fun maxVal ↦ maxVal < v i then some (v i) else best) none).getD 0

/-! ### Lemke's method -/

/-- What a call of `SolvePivot` does not change: the problem with the artificial variable, the
tolerance, `inv_svd`, and what the memory of the matrices holds that are allocated for `M12bar`, by
the number of the call of `Pivot`. -/
structure LemkeProblem (n : ℕ) (K : Type*) where
  N : Matrix (Fin n) (Fin n) K
  r : Fin n → K
  maxError : K
  inv : ℕ → (ℕ → ℕ → K) → ℕ → ℕ → K
  fresh : ℕ → ℕ → ℕ → K

/-- The variables of the loop of `SolvePivot`. -/
structure LemkeState (n : ℕ) (K : Type*) where
  labels : Labels n
  mNew : Matrix (Fin n) (Fin (n + 1)) K
  qNew : Fin n → K
  jr : Fin (n + 1)
  /-- The number of calls of `Pivot` for index arrays. -/
  calls : ℕ

/-- One turn of the loop that collects the rows of least ratio; with them, the ratio. -/
def addCandidate (maxError : K) (q mJr : Fin n → K) (s : List (Fin n) × K) (j : Fin n) :
    List (Fin n) × K :=
  if 0 ≤ q j ∧ mJr j < 0 then
    let qm := -q j / mJr j
    if s.1 = [] then ([j], qm)
    else if |qm - s.2| < maxError then
      (s.1 ++ [j], (s.2 * s.1.length + qm) / (s.1.length + 1))
    else if qm < s.2 then ([j], qm)
    else s
  else s

/-- `js_cand`. -/
def jsCand (maxError : K) (q mJr : Fin n → K) : List (Fin n) :=
  ((List.finRange n).foldl (addCandidate maxError q mJr) ([], 0)).1

/-- The loop over `js_cand`, with `js` and `min_q_negative`: `js`, and the number of calls of
`Pivot` after it. The labels are swapped back after each call. -/
def chooseRow (P : LemkeProblem n K) (L : Labels n) (jr : Fin (n + 1)) :
    List (Fin n) → Option (Fin n × K) → ℕ → Option (Fin n) × ℕ
  | [], best, calls => (best.map Prod.fst, calls)
  | j :: cands, best, calls =>
    let q := (pivotLabels P.inv (P.fresh calls) (L.swapIndex j jr) (extended P.N) P.r).2
    let qNegative := maxValue fun i ↦ -q i
    if L.w2g j = some (Fin.last n) ∧ qNegative ≤ P.maxError then (some j, calls + 1)
    else if best.elim true fun b ↦ qNegative < b.2 then
      chooseRow P L jr cands (some (j, qNegative)) (calls + 1)
    else chooseRow P L jr cands best (calls + 1)

/-- How a turn of the loop ends. -/
inductive Turn (n : ℕ) (K : Type*) where
  /-- `break`, with `terminate`. -/
  | stop (terminate : Bool) (s : LemkeState n K)
  /-- The next turn begins. -/
  | next (s : LemkeState n K)
  /-- An `assert` fails. -/
  | assertion

/-- The column of the complement of the variable that has left `w`. -/
def complementColumn (L : Labels n) (ysa : Option (Fin n)) (ysg : Option (Fin (n + 1))) :
    Option (Fin (n + 1)) :=
  match ysa, ysg with
  | none, some g => (List.finRange (n + 1)).find? fun j ↦ (L.z2a j).map Fin.castSucc = some g
  | some a, _ => (List.finRange (n + 1)).find? fun j ↦ L.z2g j = some a.castSucc
  | none, none => none

/-- One turn of the loop of `SolvePivot`. -/
def turn (P : LemkeProblem n K) (s : LemkeState n K) : Turn n K :=
  match chooseRow P s.labels s.jr (jsCand P.maxError s.qNew fun j ↦ s.mNew j s.jr) none s.calls with
  | (none, calls) => .stop false { s with calls := calls }
  | (some js, calls) =>
    let ysa := s.labels.w2a js
    let ysg := if ysa.isSome then none else s.labels.w2g js
    let labels := s.labels.swapIndex js s.jr
    let pivot := pivotLabels P.inv (P.fresh calls) labels (extended P.N) P.r
    let s' : LemkeState n K := ⟨labels, pivot.1, pivot.2, s.jr, calls + 1⟩
    if 1 / 100 < checkPivotResult P.N P.r s'.qNew labels then .stop false s'
    else if ysg = some (Fin.last n) then .stop true s'
    else
      match complementColumn labels ysa ysg with
      | some jr => .next { s' with jr := jr }
      | none => .assertion

/-- The loop of `SolvePivot`: `terminate`, the variables after the loop, and the number of full
turns. -/
def lemkeLoop (P : LemkeProblem n K) : ℕ → LemkeState n K → ℕ → Option (Bool × LemkeState n K × ℕ)
  | 0, s, nIter => some (false, s, nIter)
  | left + 1, s, nIter =>
    match turn P s with
    | .stop terminate s' => some (terminate, s', nIter)
    | .next s' => lemkeLoop P left s' (nIter + 1)
    | .assertion => none

/-- What `SolvePivot` returns and writes. -/
structure LemkeResult (n : ℕ) (K : Type*) where
  /-- The returned value, which is zero when a solution has been found. -/
  failed : Bool
  g : Fin n → K
  a : Fin n → K
  nIteration : ℕ
  /-- `_g2w`, unless it is left as it was. -/
  g2w : Option (Fin n → Option (Fin n))

/-- The row with the least `q(j) / M(j, n_vars)`, the first of them. -/
def firstRow (M : Matrix (Fin n) (Fin (n + 1)) K) (q : Fin n → K) : Option (Fin n × K) :=
  (List.finRange n).foldl (fun best j ↦
    let qc := q j / M j (Fin.last n)
    if best.elim true fun b ↦ qc < b.2 then some (j, qc) else best) none

/-- The variables of the loop before the first turn, with the artificial variable in `w`. -/
def LemkeProblem.start (P : LemkeProblem n K) (jr : Fin n) : LemkeState n K :=
  let pivot := pivotIndices P.inv [jr] [Fin.last n] (extended P.N) P.r
  { labels := (Labels.initial n).swapIndex jr (Fin.last n)
    mNew := pivot.1
    qNew := pivot.2
    jr := jr.castSucc
    calls := 0 }

/-- The loop that fills `_g2w`. -/
def g2wOf (L : Labels n) : Fin n → Option (Fin n) :=
  (List.finRange n).foldl (fun g2w i ↦ (L.w2g i).elim g2w fun g ↦
    if h : (g : ℕ) < n then Function.update g2w ⟨g, h⟩ (some i) else g2w) fun _ ↦ none

/-- `SolvePivot`; there is no result if an `assert` fails. -/
def solvePivot (P : LemkeProblem n K) (maxIteration : ℤ) : Option (LemkeResult n K) :=
  if ∀ j, 0 ≤ P.r j then some ⟨false, 0, P.r, 0, none⟩
  else
    match firstRow (extended P.N) P.r with
    | none => none
    | some (jr, _) =>
      match lemkeLoop P maxIteration.toNat (P.start jr) 0 with
      | none => none
      | some (false, s, nIter) => some ⟨true, 0, 0, nIter, some (g2wOf s.labels)⟩
      | some (true, s, nIter) =>
        if ∀ j, (s.labels.w2a j).isSome ∨ (s.labels.w2g j).any (· ≠ Fin.last n) then
          some ⟨false, fun i ↦ gValues s.labels s.qNew i.castSucc, aValues s.labels s.qNew, nIter,
            some (g2wOf s.labels)⟩
        else none

end OpenHRP.LCP
