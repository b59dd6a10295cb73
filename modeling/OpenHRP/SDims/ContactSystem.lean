import OpenHRP.Foundations.Blocks
import OpenHRP.Foundations.Rotation
import OpenHRP.SDims.PrePivot

/-!
# The equations of the contact forces

`calc_contact_force` writes the force at a contact with a normal coefficient and one for every
direction of the friction cone. The normal velocities, the velocities along the directions and the
friction bounds of all contacts make up one linear complementarity problem `N`, `r`. It is solved
for the active contacts only: those that carry a force when there is no friction. Their system is
taken from the rows and columns of `N`, but for the row of the friction bound, which is written anew
and takes the coefficient of another contact (`Contacts.nActive`).

Matrices and vectors are filled by index, as in the source; what they hold is in
`assemble_coef_coef` and the lemmas after it. Numbers are exact.
-/

open Matrix

namespace OpenHRP.SDims

open LCP

variable {n : ℕ} {K : Type*}

/-! ### Parts of a matrix -/

/-- `set_submat`, for a matrix with `nRow` rows and `nCol` columns. -/
def setSubmat (rowStart colStart nRow nCol : ℕ) (subM M : ℕ → ℕ → K) (x y : ℕ) : K :=
  if (rowStart ≤ x ∧ x < rowStart + nRow) ∧ colStart ≤ y ∧ y < colStart + nCol then
    subM (x - rowStart) (y - colStart)
  else M x y

/-- `get_submat`. -/
def getSubmat (rowStart colStart : ℕ) (allM : ℕ → ℕ → K) (a b : ℕ) : K :=
  allM (rowStart + a) (colStart + b)

/-- `set_subvec`, for a vector of the length `nRow`. -/
def setSubvec (start nRow : ℕ) (subV v : ℕ → K) (x : ℕ) : K :=
  if start ≤ x ∧ x < start + nRow then subV (x - start) else v x

/-- `get_subvec`. -/
def getSubvec (start : ℕ) (allV : ℕ → K) (a : ℕ) : K :=
  allV (start + a)

/-- One turn of the loops that fill `N` and `N_active` for `k` contacts. -/
def assembleContact (nCoefs k : ℕ) (block : Fin k → Fin k → ℕ → ℕ → K) (e : ℕ → ℕ → K)
    (ehatT : Fin k → ℕ → ℕ → K) (N : ℕ → ℕ → K) (i : Fin k) : ℕ → ℕ → K :=
  let N := (List.finRange k).foldl (fun N (j : Fin k) ↦
    setSubmat (i * nCoefs) (j * nCoefs) nCoefs nCoefs (block i j) N) N
  let N := setSubmat (i * nCoefs) (nCoefs * k + i) nCoefs 1 e N
  setSubmat (nCoefs * k + i) (i * nCoefs) 1 nCoefs (ehatT i) N

/-- `N` or `N_active`, for `k` contacts. -/
def assemble [Zero K] (nCoefs k : ℕ) (block : Fin k → Fin k → ℕ → ℕ → K) (e : ℕ → ℕ → K)
    (ehatT : Fin k → ℕ → ℕ → K) : ℕ → ℕ → K :=
  (List.finRange k).foldl (assembleContact nCoefs k block e ehatT) fun _ _ ↦ 0

/-- The loops that fill `r` and `r_active`. -/
def assembleVec [Zero K] (nCoefs k : ℕ) (sub : Fin k → ℕ → K) : ℕ → K :=
  (List.finRange k).foldl (fun r (i : Fin k) ↦ setSubvec (i * nCoefs) nCoefs (sub i) r) fun _ ↦ 0

/-! ### The code -/

/-- What `calc_contact_force` reads of `n` contacts when it sets up the equations: the number of
directions `N_FRIC_CONE_DIV` and the directions, the friction coefficients, and the relative
velocities `Phi_hat * f + bias_hat` at the contacts. -/
structure Contacts (n : ℕ) (K : Type*) where
  nDiv : ℕ
  coneDir : ℕ → Vector3 K
  fricCoefs : ℕ → K
  phiHat : ℕ → ℕ → K
  biasHat : ℕ → K

/-- What `SolvePivot2` gives for the normal forces without friction. -/
structure Presolve (n : ℕ) (K : Type*) where
  failed : Bool
  g2 : Fin n → K
  g2w : Fin n → Option (Fin n)

/-- What `SolvePivot2` gives for the active contacts. -/
structure Answer (k : ℕ) (K : Type*) where
  failed : Bool
  g2 : Fin k → K
  a : Fin k → K

namespace Contacts

variable [Field K] (P : Contacts n K)

/-- `n_coefs`. -/
def nCoefs : ℕ := P.nDiv + 1

/-- `Ck`: the columns are the normal and the directions. -/
def ck : Matrix (Fin 3) ℕ K := .of fun c m ↦
  match m with
  | 0 => ![0, 0, 1] c
  | m + 1 => ![P.coneDir m 0, P.coneDir m 1, 0] c

/-- `E`. -/
def e (m _ : ℕ) : K :=
  if m = 0 then 0 else 1

/-- `Ehat_t[i]`. -/
def ehatT (i _ m : ℕ) : K :=
  if m = 0 then P.fricCoefs i else -1

/-- `Phi_ij`. -/
def phi (i j : Fin n) : Matrix33 K := .of fun c d ↦
  getSubmat (i * 3) (j * 3) P.phiHat c d

/-- `bias_i`. -/
def bias (i : Fin n) : Vector3 K := fun c ↦ getSubvec (i * 3) P.biasHat c

/-- `N_ij`. -/
def nIj (i j : Fin n) (a b : ℕ) : K := (P.ckᵀ * P.phi i j * P.ck) a b

/-- `N`. -/
def nAll : ℕ → ℕ → K :=
  assemble P.nCoefs n P.nIj e fun i ↦ P.ehatT i

/-- `r_i`. -/
def rI (i : Fin n) (a : ℕ) : K := (P.bias i ᵥ* P.ck) a

/-- `r`. -/
def rAll : ℕ → K :=
  assembleVec P.nCoefs n P.rI

variable (act : List (Fin n))

/-- `N_active`. The row of the friction bound has the index among the active contacts. -/
def nActive : ℕ → ℕ → K :=
  assemble P.nCoefs act.length
    (fun i j ↦ getSubmat (act.get i * P.nCoefs) (act.get j * P.nCoefs) P.nAll) e
    fun i ↦ P.ehatT i

/-- `r_active`. -/
def rActive : ℕ → K :=
  assembleVec P.nCoefs act.length fun i ↦ getSubvec (act.get i * P.nCoefs) P.rAll

/-- `n_active_coef`. -/
abbrev nActiveCoef : ℕ := act.length * P.nCoefs + act.length

/-- The normal coefficients of the active contacts. -/
def IsNormal (x : Fin (P.nActiveCoef act)) : Prop :=
  ∃ i : Fin act.length, (x : ℕ) = i * P.nCoefs

instance : DecidablePred (P.IsNormal act) := fun _ ↦ inferInstanceAs (Decidable (∃ _, _))

/-- The index arrays that are passed to `Pivot`. -/
def initialArrays : IndexArrays (P.nActiveCoef act) (P.nActiveCoef act) :=
  exchangeArrays (P.IsNormal act)

/-- `N_init` and `r_init`. -/
def prePivot (inv : ℕ → (ℕ → ℕ → K) → ℕ → ℕ → K) (fresh : ℕ → ℕ → K) :
    Matrix (Fin (P.nActiveCoef act)) (Fin (P.nActiveCoef act)) K ×
      (Fin (P.nActiveCoef act) → K) :=
  pivotArrays inv fresh (P.initialArrays act) (.of fun x y ↦ P.nActive act x y)
    fun x ↦ P.rActive act x

variable {act} in
/-- `g2` after the exchanged variables have been put back. -/
def putBack (ans : Answer (P.nActiveCoef act) K) (x : Fin (P.nActiveCoef act)) : K :=
  ((P.initialArrays act).w2g x).elim (ans.g2 x) ans.a

/-- The vector `g` as an array. -/
def toArray {k : ℕ} (g : Fin k → K) (x : ℕ) : K :=
  if h : x < k then g ⟨x, h⟩ else 0

/-- `Ck * g2_i`, for the coefficients that begin at `iN`. -/
def coefForce (g2 : ℕ → K) (iN : ℕ) : Vector3 K := fun c ↦
  ∑ m ∈ Finset.range P.nCoefs, P.ck c m * getSubvec iN g2 m

/-- The loop that writes `fk` for the active contacts. -/
def writeForces (g2 : ℕ → K) : Fin n → Vector3 K :=
  (List.finRange act.length).foldl (fun fk (i : Fin act.length) ↦
    Function.update fk (act.get i) (P.coefForce g2 (i * P.nCoefs))) 0

/-- `vk`. -/
def velocity (fk : Fin n → Vector3 K) (i : Fin n) : Vector3 K :=
  ∑ j, P.phi i j *ᵥ fk j + P.bias i

variable [LinearOrder K]

/-- `fk` after the turn for the active contacts, with what the solver gives. The tolerance is that
of `error.length()`, squared. -/
def activeForces (presolve : Presolve n K) (N : Matrix (Fin (P.nActiveCoef act))
    (Fin (P.nActiveCoef act)) K) (r : Fin (P.nActiveCoef act) → K)
    (ans : Answer (P.nActiveCoef act) K) : Fin n → Vector3 K :=
  let error := N *ᵥ ans.g2 + r - ans.a
  if ans.failed ∨ (1 / 10000) ^ 2 < error ⬝ᵥ error then
    if presolve.failed then 0 else fun i ↦ ![0, 0, presolve.g2 i]
  else P.writeForces act (toArray (P.putBack ans))

/-- `active2all` in the turn that solves the equations. Where the presolve finds no contact, a turn
without forces comes first, and the contacts that approach become active. -/
def solvedContacts (presolve : Presolve n K) : List (Fin n) :=
  let first := if presolve.failed then List.finRange n
    else (List.finRange n).filter fun i ↦ (presolve.g2w i).isSome
  if first = [] then (List.finRange n).filter fun i ↦ P.velocity 0 i 2 < -(1 / 1000) else first

/-- `calc_contact_force`: the forces `fk`. One turn only has active contacts, as
`max_global_iteration` is one. -/
def calcContactForce (inv : ℕ → (ℕ → ℕ → K) → ℕ → ℕ → K) (fresh : ℕ → ℕ → K)
    (solve : ∀ k, Matrix (Fin k) (Fin k) K → (Fin k → K) → Answer k K) (presolve : Presolve n K) :
    Fin n → Vector3 K :=
  let act := P.solvedContacts presolve
  if act = [] then 0
  else
    let init := P.prePivot act inv fresh
    P.activeForces act presolve init.1 init.2 (solve _ init.1 init.2)

end Contacts

/-! ### What the loops fill in -/

section Assemble

variable {rowStart colStart nRow nCol x y a b : ℕ} {subM M : ℕ → ℕ → K}

theorem setSubmat_of_row (h : ¬ (rowStart ≤ x ∧ x < rowStart + nRow)) :
    setSubmat rowStart colStart nRow nCol subM M x y = M x y :=
  if_neg fun hin ↦ h hin.1

theorem setSubmat_of_col (h : ¬ (colStart ≤ y ∧ y < colStart + nCol)) :
    setSubmat rowStart colStart nRow nCol subM M x y = M x y :=
  if_neg fun hin ↦ h hin.2

theorem setSubmat_add (ha : a < nRow) (hb : b < nCol) :
    setSubmat rowStart colStart nRow nCol subM M (rowStart + a) (colStart + b) = subM a b := by
  rw [setSubmat, if_pos ⟨⟨Nat.le_add_right _ _, by omega⟩, Nat.le_add_right _ _, by omega⟩,
    Nat.add_sub_cancel_left, Nat.add_sub_cancel_left]

/-- A coefficient belongs to one contact. -/
theorem eq_of_mem_block {nCoefs i i' : ℕ} (ha : a < nCoefs)
    (h : i' * nCoefs ≤ i * nCoefs + a ∧ i * nCoefs + a < i' * nCoefs + nCoefs) : i' = i := by
  have hle {i i' a a' : ℕ} (ha : a < nCoefs) (h : i' * nCoefs + a' = i * nCoefs + a) : i' ≤ i := by
    by_contra! hlt
    have := Nat.mul_le_mul_right nCoefs hlt
    rw [Nat.succ_mul] at this
    omega
  obtain ⟨a', ha'⟩ := Nat.exists_eq_add_of_le h.1
  exact (hle ha ha'.symm).antisymm (hle (a := a') (by omega) ha')

variable {nCoefs k : ℕ} {block : Fin k → Fin k → ℕ → ℕ → K} {e : ℕ → ℕ → K}
  {ehatT : Fin k → ℕ → ℕ → K} {N : ℕ → ℕ → K} {i j : Fin k}

/-- A coefficient comes before the places of the friction bounds. -/
theorem coef_lt (i : Fin k) (ha : a < nCoefs) : i * nCoefs + a < nCoefs * k := by
  have := Nat.mul_le_mul_right nCoefs i.2
  rw [Nat.succ_mul, Nat.mul_comm k] at this
  omega

/-- The coefficients end before the places of the friction bounds. -/
theorem coef_end_le (i : Fin k) : i * nCoefs + nCoefs ≤ nCoefs * k := by
  have := Nat.mul_le_mul_right nCoefs i.2
  rwa [Nat.succ_mul, Nat.mul_comm k] at this

/-- The rows of a contact are not touched in the turns for others. -/
theorem assembleContact_coef_of_ne (hne : j ≠ i) (ha : a < nCoefs) :
    assembleContact nCoefs k block e ehatT N j (i * nCoefs + a) y = N (i * nCoefs + a) y := by
  have hrow : ¬ ((j : ℕ) * nCoefs ≤ i * nCoefs + a ∧ i * nCoefs + a < j * nCoefs + nCoefs) :=
    fun h ↦ hne (Fin.ext (eq_of_mem_block ha h))
  have hlt := coef_lt i ha
  rw [assembleContact, setSubmat_of_row (by omega), setSubmat_of_row hrow]
  exact foldl_read_eq_self (fun N : ℕ → ℕ → K ↦ N (i * nCoefs + a) y)
    (fun _ _ _ ↦ setSubmat_of_row hrow) N

/-- Before the last step of a turn, the rows of the friction bounds are not touched. -/
theorem assembleContact_bound (i j : Fin k) :
    assembleContact nCoefs k block e ehatT N j (nCoefs * k + i) y =
      setSubmat (nCoefs * k + j) (j * nCoefs) 1 nCoefs (ehatT j) N (nCoefs * k + i) y := by
  have hle : j * nCoefs + nCoefs ≤ nCoefs * k := coef_end_le j
  rw [assembleContact]
  refine if_congr Iff.rfl rfl ?_
  rw [setSubmat_of_row (by omega)]
  exact foldl_read_eq_self (fun N : ℕ → ℕ → K ↦ N (nCoefs * k + i) y)
    (fun _ _ _ ↦ setSubmat_of_row (by omega)) N

variable [Zero K]

theorem assemble_coef_coef (i j : Fin k) (ha : a < nCoefs) (hb : b < nCoefs) :
    assemble nCoefs k block e ehatT (i * nCoefs + a) (j * nCoefs + b) = block i j a b := by
  have hlt := coef_lt i ha
  have hlt' := coef_lt j hb
  refine foldl_read_eq (fun N : ℕ → ℕ → K ↦ N (i * nCoefs + a) (j * nCoefs + b))
    (List.mem_finRange i) (fun N ↦ ?_) (fun _ _ hne _ ↦ assembleContact_coef_of_ne hne ha) _
  rw [assembleContact, setSubmat_of_row (by omega), setSubmat_of_col (by omega)]
  refine foldl_read_eq (fun N : ℕ → ℕ → K ↦ N (i * nCoefs + a) (j * nCoefs + b))
    (List.mem_finRange j) (fun _ ↦ setSubmat_add ha hb)
    (fun _ _ hne _ ↦ setSubmat_of_col fun h ↦ ?_) _
  exact hne (Fin.ext (eq_of_mem_block hb h))

/-- The entries of a contact and a friction bound. -/
theorem assemble_coef_bound (i j : Fin k) (ha : a < nCoefs) :
    assemble nCoefs k block e ehatT (i * nCoefs + a) (nCoefs * k + j) =
      if i = j then e a 0 else 0 := by
  have hlt := coef_lt i ha
  rcases eq_or_ne i j with rfl | hij
  · rw [if_pos rfl]
    refine foldl_read_eq (fun N : ℕ → ℕ → K ↦ N (i * nCoefs + a) (nCoefs * k + i))
      (List.mem_finRange i) (fun N ↦ ?_) (fun _ _ hne _ ↦ assembleContact_coef_of_ne hne ha) _
    rw [assembleContact, setSubmat_of_row (by omega)]
    exact setSubmat_add (b := 0) ha one_pos
  · rw [if_neg hij]
    refine foldl_read_eq_self (fun N : ℕ → ℕ → K ↦ N (i * nCoefs + a) (nCoefs * k + j))
      (fun i' _ N ↦ ?_) _
    rcases eq_or_ne i' i with rfl | hne
    · have hne := Fin.val_ne_of_ne hij
      rw [assembleContact, setSubmat_of_row (by omega), setSubmat_of_col (by omega)]
      refine foldl_read_eq_self (fun N : ℕ → ℕ → K ↦ N (i' * nCoefs + a) (nCoefs * k + j))
        (fun j' _ N ↦ ?_) N
      have hle : j' * nCoefs + nCoefs ≤ nCoefs * k := coef_end_le j'
      exact setSubmat_of_col (by omega)
    · exact assembleContact_coef_of_ne hne ha

/-- The entries of a friction bound and a contact. -/
theorem assemble_bound_coef (i j : Fin k) (hb : b < nCoefs) :
    assemble nCoefs k block e ehatT (nCoefs * k + i) (j * nCoefs + b) =
      if i = j then ehatT i 0 b else 0 := by
  rcases eq_or_ne i j with rfl | hij
  · rw [if_pos rfl]
    refine foldl_read_eq (fun N : ℕ → ℕ → K ↦ N (nCoefs * k + i) (i * nCoefs + b))
      (List.mem_finRange i) (fun N ↦ ?_) (fun i' _ hne N ↦ ?_) _
    · exact (assembleContact_bound i i).trans (setSubmat_add (a := 0) one_pos hb)
    · have hne := Fin.val_ne_of_ne hne
      exact (assembleContact_bound i i').trans (setSubmat_of_row (by omega))
  · rw [if_neg hij]
    refine foldl_read_eq_self (fun N : ℕ → ℕ → K ↦ N (nCoefs * k + i) (j * nCoefs + b))
      (fun i' _ N ↦ (assembleContact_bound i i').trans ?_) _
    rcases eq_or_ne i' i with rfl | hne
    · exact setSubmat_of_col fun h ↦ hij (Fin.ext (eq_of_mem_block hb h))
    · have hne := Fin.val_ne_of_ne hne
      exact setSubmat_of_row (by omega)

/-- The entries of two friction bounds. -/
theorem assemble_bound_bound (i j : Fin k) :
    assemble nCoefs k block e ehatT (nCoefs * k + i) (nCoefs * k + j) = 0 := by
  refine foldl_read_eq_self (fun N : ℕ → ℕ → K ↦ N (nCoefs * k + i) (nCoefs * k + j))
    (fun i' _ N ↦ (assembleContact_bound i i').trans (setSubmat_of_col ?_)) _
  have hle : i' * nCoefs + nCoefs ≤ nCoefs * k := coef_end_le i'
  omega

variable {sub : Fin k → ℕ → K}

theorem assembleVec_coef (i : Fin k) (ha : a < nCoefs) :
    assembleVec nCoefs k sub (i * nCoefs + a) = sub i a := by
  refine foldl_read_eq (fun r : ℕ → K ↦ r (i * nCoefs + a)) (List.mem_finRange i) (fun r ↦ ?_)
    (fun i' _ hne r ↦ if_neg fun h ↦ hne (Fin.ext (eq_of_mem_block ha h))) _
  rw [setSubvec, if_pos ⟨Nat.le_add_right _ _, by omega⟩, Nat.add_sub_cancel_left]

/-- The elements of the friction bounds. -/
theorem assembleVec_bound (i : Fin k) : assembleVec nCoefs k sub (nCoefs * k + i) = 0 := by
  refine foldl_read_eq_self (fun r : ℕ → K ↦ r (nCoefs * k + i)) (fun i' _ r ↦ if_neg ?_) _
  have hle : i' * nCoefs + nCoefs ≤ nCoefs * k := coef_end_le i'
  omega

end Assemble

end OpenHRP.SDims
