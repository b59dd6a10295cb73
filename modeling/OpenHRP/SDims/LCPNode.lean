import OpenHRP.SDims.BestFirstSearch
import OpenHRP.SDims.LemkeMethod

/-!
# Pivots as a search

`SolvePivot2` looks for the pivots with the best-first search of `dpMain`. A node is a choice of
variables in `w` and `z`. Its children are the choices after one more pivot: any row may leave `w`
that keeps the right-hand side above `-max_error`, and the complement of the variable that has left
is the next to come. A node is a goal when the artificial variable leaves.

The entries of the column that comes are computed from the inverse of the pivots `Maa`, and this
inverse from that of the parent: a pivot replaces a row or a column of `Maa`, adds one of each, or
removes one of each. All matrices that are inverted have one entry. Numbers are exact.
-/

namespace OpenHRP.LCP

variable {n : ℕ} {K : Type*}

/-! ### The inverse after a pivot -/

section Inverse

variable [Field K]

/-- The product of a row with `k` elements and a column. -/
def dot (k : ℕ) (u v : ℕ → K) : K :=
  ∑ t ∈ Finset.range k, u t * v t

/-- The blocks of the inverse after a row and a column have been added. -/
structure Enlarged (K : Type*) where
  X : ℕ → ℕ → K
  y : ℕ → K
  z : ℕ → K
  w : K

/-- `inv_enlarge` for one row and one column. -/
def invEnlarge (nOrg : ℕ) (m12 m21 : ℕ → K) (m22 : K) (P : ℕ → ℕ → K) : Enlarged K :=
  if nOrg = 0 then ⟨fun _ _ ↦ 0, fun _ ↦ 0, fun _ ↦ 0, 1 / m22⟩
  else
    let Pm := mulVec nOrg P m12
    let w := 1 / (-dot nOrg m21 Pm + m22)
    let z := fun j ↦ -(w * dot nOrg m21 fun t ↦ P t j)
    ⟨fun i j ↦ -(Pm i * z j) + P i j, fun i ↦ -(Pm i * w), z, w⟩

/-- `inv_shrink` for one row and one column. `lineq_svd` divides by a square. -/
def invShrink (P : ℕ → ℕ → K) (q r : ℕ → K) (s : K) (i j : ℕ) : K :=
  P i j - q i * (s / (s * s) * r j)

/-- `inv_row_replaced` for one row: `X` and `y`. -/
def invRowReplaced (nOrg nTotal : ℕ) (P : ℕ → ℕ → K) (q m2d : ℕ → K) : (ℕ → ℕ → K) × (ℕ → K) :=
  if nOrg = 0 then (fun _ _ ↦ 0, fun _ ↦ 1 / m2d 0)
  else
    let y := fun i ↦ q i * (1 / dot nTotal m2d q)
    (fun i j ↦ -(y i * dot nTotal m2d fun t ↦ P t j) + P i j, y)

/-- `inv_col_replaced` for one column: `X` and `y`. -/
def invColReplaced (nOrg nTotal : ℕ) (P : ℕ → ℕ → K) (q m2d : ℕ → K) : (ℕ → ℕ → K) × (ℕ → K) :=
  if nOrg = 0 then (fun _ _ ↦ 0, fun _ ↦ 1 / m2d 0)
  else
    let y := fun j ↦ 1 / dot nTotal q m2d * q j
    (fun i j ↦ -(dot nTotal (P i) m2d * y j) + P i j, y)

section Positions

variable {α : Type*} [DecidableEq α]

/-- The positions in a list of the elements other than `x`. -/
def others (l : List α) (x : α) : List ℕ :=
  (List.range l.length).filter fun i ↦ l[i]? ≠ some x

/-- The counter at position `i`: the elements before it other than `x`. -/
def countOthers (l : List α) (x : α) (i : ℕ) : ℕ :=
  ((List.range l.length).take i).countP fun t ↦ l[t]? ≠ some x

end Positions

variable (M : Matrix (Fin n) (Fin (n + 1)) K) (oldMinv : ℕ → ℕ → K)

/-- The new inverse when an `a` leaves `w` and another one comes. -/
def rowReplaced (piv2g : List (Fin (n + 1))) (piv2a : List (Fin n)) (ys2a : Fin n) (i j : ℕ) : K :=
  let nPivot := piv2g.length
  let P := fun j count ↦ (others piv2a ys2a)[count]?.elim 0 (oldMinv j)
  let q := fun j ↦ oldMinv j (piv2a.idxOf ys2a)
  let m2d := fun j ↦ piv2g[j]?.elim 0 (M ys2a)
  let inv := invRowReplaced (nPivot - 1) nPivot P q m2d
  if piv2a[j]? = some ys2a then inv.2 i else inv.1 i (countOthers piv2a ys2a j)

/-- The new inverse when an `a` leaves `w` and a `g` comes. -/
def enlarge (piv2g : List (Fin (n + 1))) (piv2a : List (Fin n)) (ys2a : Fin n) (yr2g : Fin (n + 1))
    (i j : ℕ) : K :=
  let nPivot := piv2g.length
  let m12 := fun count ↦ (piv2a.filter (· ≠ ys2a))[count]?.elim 0 fun a ↦ M a yr2g
  let m21 := fun count ↦ (piv2g.filter (· ≠ yr2g))[count]?.elim 0 (M ys2a)
  let inv := invEnlarge (nPivot - 1) m12 m21 (M ys2a yr2g) oldMinv
  if piv2g[i]? = some yr2g then
    if piv2a[j]? = some ys2a then inv.w else inv.z (countOthers piv2a ys2a j)
  else if piv2a[j]? = some ys2a then inv.y (countOthers piv2g yr2g i)
  else inv.X (countOthers piv2g yr2g i) (countOthers piv2a ys2a j)

/-- The new inverse when a `g` leaves `w` and an `a` comes. -/
def shrink (oldPiv2g : List (Fin (n + 1))) (oldPiv2a : List (Fin n)) (ys2g : Fin (n + 1))
    (yr2a : Fin n) : ℕ → ℕ → K :=
  let rows := others oldPiv2g ys2g
  let cols := others oldPiv2a yr2a
  let i₀ := oldPiv2g.idxOf ys2g
  let j₀ := oldPiv2a.idxOf yr2a
  invShrink (fun count1 count2 ↦ rows[count1]?.elim 0 fun i ↦ cols[count2]?.elim 0 (oldMinv i))
    (fun count1 ↦ rows[count1]?.elim 0 fun i ↦ oldMinv i j₀)
    (fun count2 ↦ cols[count2]?.elim 0 (oldMinv i₀)) (oldMinv i₀ j₀)

/-- The new inverse when a `g` leaves `w` and another one comes. -/
def colReplaced (piv2g : List (Fin (n + 1))) (piv2a : List (Fin n)) (yr2g : Fin (n + 1))
    (i j : ℕ) : K :=
  let nPivot := piv2g.length
  let P := fun count j ↦ (others piv2g yr2g)[count]?.elim 0 fun i ↦ oldMinv i j
  let q := oldMinv (piv2g.idxOf yr2g)
  let m2d := fun j ↦ piv2a[j]?.elim 0 fun a ↦ M a yr2g
  let inv := invColReplaced (nPivot - 1) nPivot P q m2d
  if piv2g[i]? = some yr2g then inv.2 j else inv.1 (countOthers piv2g yr2g i) j

/-- `newMinv`, where `w` has held `ys` and `z` has held `yr`. -/
def newMinv (old L : Labels n) (ys2a : Option (Fin n)) (ys2g : Option (Fin (n + 1)))
    (yr2a : Option (Fin n)) (yr2g : Option (Fin (n + 1))) : ℕ → ℕ → K :=
  match ys2a, ys2g, yr2a, yr2g with
  | some ys2a, _, some _, _ => rowReplaced M oldMinv L.gPiv L.aPiv ys2a
  | some ys2a, _, none, some yr2g => enlarge M oldMinv L.gPiv L.aPiv ys2a yr2g
  | none, some ys2g, some yr2a, _ => shrink oldMinv old.gPiv old.aPiv ys2g yr2a
  | none, some _, none, some yr2g => colReplaced M oldMinv L.gPiv L.aPiv yr2g
  | _, _, _, _ => fun _ _ ↦ 0 -- `assert(0)`

/-! ### The column and the right-hand side -/

/-- `x.mul(newMinv, b)` for the column `jr`: `m_jr` at the `g` in `w`, by their positions. -/
def columnPiv (Minv : ℕ → ℕ → K) (L : Labels n) (jr : Fin (n + 1)) (i : ℕ) : K :=
  if (L.z2a jr).isSome then
    mulVec L.gPiv.length Minv (fun s ↦ if countPiv L.z2a jr = some s then 1 else 0) i
  else
    -mulVec L.gPiv.length Minv
      (fun s ↦ L.aPiv[s]?.elim 0 fun a ↦ (L.z2g jr).elim 0 (M a)) i

/-- `m_jr`. -/
def columnOf (Minv : ℕ → ℕ → K) (L : Labels n) (jr : Fin (n + 1)) (i : Fin n) : K :=
  match countPiv L.w2g i with
  | some t => columnPiv M Minv L jr t
  | none =>
    (L.w2a i).elim 0 fun nai ↦
      (if (L.z2a jr).isSome then 0 else (L.z2g jr).elim 0 (M nai)) +
        dot L.gPiv.length (fun t ↦ L.gPiv[t]?.elim 0 (M nai)) (columnPiv M Minv L jr)

/-- `q_new`. -/
def constOf (q : Fin n → K) (Minv : ℕ → ℕ → K) (L : Labels n) (i : Fin n) : K :=
  let x := fun t ↦ -mulVec L.gPiv.length Minv (subVector q L.aPiv) t
  match countPiv L.w2g i with
  | some t => x t
  | none =>
    (L.w2a i).elim 0 fun nai ↦ q nai + dot L.gPiv.length (fun t ↦ L.gPiv[t]?.elim 0 (M nai)) x

end Inverse

/-! ### The nodes -/

/-- The problem with the tolerance, and the exponential function. -/
structure LcpProblem (n : ℕ) (K : Type*) where
  N : Matrix (Fin n) (Fin n) K
  r : Fin n → K
  maxError : K
  exp : K → K

/-- An `LCPNode`. For the parent, it has what it reads of it. -/
structure LcpNode (n : ℕ) (K : Type*) where
  terminate : Bool
  qOld : Fin n → K
  labels : Labels n
  nSteps : ℕ
  /-- The row of the pivot, which the start node has not. -/
  js : Option (Fin n)
  ys2a : Option (Fin n)
  ys2g : Option (Fin (n + 1))
  yr2a : Option (Fin n)
  yr2g : Option (Fin (n + 1))
  gInW : List (Fin (n + 1))
  aInZ : List (Fin n)
  newJr : Option (Fin (n + 1))
  parentLabels : Labels n
  parentMinv : ℕ → ℕ → K

namespace LcpProblem

section Nodes

variable [Field K] [LinearOrder K] [CMath K] (P : LcpProblem n K)

/-- The constructor of `LCPNode`, but for the cost. -/
def newNode (parentMinv : ℕ → ℕ → K) (qOld : Fin n → K) (parentLabels : Labels n) (nSteps : ℕ)
    (js : Option (Fin n)) (jr : Fin (n + 1)) : LcpNode n K :=
  let ys2a := js.bind parentLabels.w2a
  let ys2g := js.bind parentLabels.w2g
  let yr2a := parentLabels.z2a jr
  let yr2g := parentLabels.z2g jr
  let terminate := decide (ys2g = some (Fin.last n))
  let labels := js.elim parentLabels fun js ↦ parentLabels.swapIndex js jr
  { terminate := terminate
    qOld :=
      if terminate then
        constOf (extended P.N) P.r
          (newMinv (extended P.N) parentMinv parentLabels labels ys2a ys2g yr2a yr2g) labels
      else qOld
    labels := labels
    nSteps := nSteps
    js := js
    ys2a := ys2a
    ys2g := ys2g
    yr2a := yr2a
    yr2g := yr2g
    gInW := labels.gPiv.insertionSort (· ≤ ·)
    aInZ := labels.aPiv.insertionSort (· ≤ ·)
    newJr := if js.isNone then some jr else complementColumn labels ys2a ys2g
    parentLabels := parentLabels
    parentMinv := parentMinv }

/-- The loop of `min_new_q`. -/
def minNewQLoop (maxError qm : K) (q mJr : Fin n → K) : List (Fin n) → K → K
  | [], minQ => minQ
  | i :: is, minQ =>
    let qi := q i + mJr i * qm
    if qi < -maxError then qi
    else minNewQLoop maxError qm q mJr is (if qi < minQ then qi else minQ)

/-- `min_new_q`. -/
def minNewQ (maxError : K) (q mJr : Fin n → K) (piv : Fin n) : K :=
  let qm := -q piv / mJr piv
  minNewQLoop maxError qm q mJr (List.finRange n) qm

/-- The loop over the rows in `create_child_nodes`: `g0_index`, and `js_cand` with `js_cost`. -/
def findRows (L : Labels n) (initial : Bool) (q mJr : Fin n → K) :
    List (Fin n) → List (Fin n × K) → Option (Fin n) × List (Fin n × K)
  | [], cand => (none, cand)
  | j :: js, cand =>
    if initial ∨ mJr j < 0 then
      let qm := minNewQ P.maxError q mJr j
      if L.w2g j = some (Fin.last n) ∧ -P.maxError ≤ qm then (some j, cand)
      else if -P.maxError ≤ qm then findRows L initial q mJr js (cand ++ [(j, qm)])
      else findRows L initial q mJr js cand
    else findRows L initial q mJr js cand

/-- `Maa_inv` of a node, which has no entries in the start node. -/
def maaInv (s : LcpNode n K) : ℕ → ℕ → K :=
  newMinv (extended P.N) s.parentMinv s.parentLabels s.labels s.ys2a s.ys2g s.yr2a s.yr2g

/-- The right-hand side at a node. -/
def qAt (s : LcpNode n K) : Fin n → K :=
  if s.js.isNone then s.qOld else constOf (extended P.N) P.r (P.maaInv s) s.labels

/-- The column that comes, at a node. -/
def columnAt (s : LcpNode n K) (jr : Fin (n + 1)) : Fin n → K :=
  if s.js.isNone then fun i ↦ extended P.N i jr
  else columnOf (extended P.N) (P.maaInv s) s.labels jr

/-- `create_child_nodes`, each child with its cost. A node that has no column `new_jr` is a goal,
and the search ends before it opens one. -/
def createChildNodes (s : LcpNode n K) : List (Option (LcpNode n K × K)) :=
  match s.newJr with
  | none => []
  | some newJr =>
    let q := P.qAt s
    if ¬ s.js.isNone ∧ P.maxError ≤ checkPivotResult P.N P.r q s.labels then []
    else
      let child := fun js cost ↦
        some (P.newNode (P.maaInv s) q s.labels (s.nSteps + 1) (some js) newJr, P.exp cost)
      match P.findRows s.labels s.js.isNone q (P.columnAt s newJr) (List.finRange n) [] with
      | (some js, _) => [child js (-1)]
      | (none, cand) => cand.map fun c ↦ child c.1 (-c.2)

/-- The virtual functions of `LCPNode`. -/
def searchProblem : SearchProblem (LcpNode n K) K where
  createChildNodes := P.createChildNodes
  calcAstarCost s _ := -s.nSteps
  sameState s ref :=
    !s.terminate &&
      match s.newJr, ref.newJr with
      | some newJr, some refJr =>
        decide (ref.labels.z2a refJr = s.labels.z2a newJr ∧
          ref.labels.z2g refJr = s.labels.z2g newJr ∧ ref.gInW = s.gInW ∧ ref.aInZ = s.aInZ)
      | _, _ => false
  isGoal s := s.terminate

/-- The start node, with the artificial variable as the one that comes. -/
def startNode : LcpNode n K :=
  P.newNode (fun _ _ ↦ 0) P.r (Labels.initial n) 0 none (Fin.last n)

/-- `SolvePivot2`; there is no result if an `assert` fails or the fuel does not suffice. The start
node's `total_astar_cost` is not initialized. -/
def solvePivot2 (maxNodes : ℤ) (totalAstarCost : Option K) (fuel : ℕ) : Option (LemkeResult n K) :=
  if ∀ j, 0 ≤ P.r j then some ⟨false, 0, P.r, 0, none⟩
  else
    match DpMain.search P.searchProblem maxNodes 1 fuel
      (DpMain.setStartNode P.searchProblem P.startNode totalAstarCost DpMain.new) with
    | none => none
    | some (_, dp) =>
      match dp.bestGoal P.searchProblem with
      | none => some ⟨true, 0, 0, dp.nNodes, none⟩
      | some goal =>
        let L := goal.state.labels
        if ∀ j, (L.w2a j).isSome ∨ (L.w2g j).any (· ≠ Fin.last n) then
          some ⟨false, fun i ↦ gValues L goal.state.qOld i.castSucc, aValues L goal.state.qOld,
            dp.nNodes, some (g2wOf L)⟩
        else none

end Nodes

end LcpProblem

end OpenHRP.LCP
