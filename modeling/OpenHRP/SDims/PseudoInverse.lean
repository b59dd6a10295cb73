import OpenHRP.Foundations.DampedInverse
import OpenHRP.Foundations.Literals

/-!
# The pseudo-inverse variants

`p_inv` and `sr_inv` exist as friends and as members, with two ways of inverting a matrix. The
friend `p_inv_svd` multiplies in the wrong order where the matrix is not square, so that the sizes
do not match, and the two `sr_inv_svd` multiply by the weights of the norm where `sr_inv` divides by
them (`variants_agree_iff`).
-/

open Matrix

namespace OpenHRP.FMat

variable {K : Type*} [Field K] {m n : ℕ}

/-! ### The code -/

section Code

/-- `fMat::mul`, for a receiver with `r` rows and `c` columns. The sizes have to match. -/
def mul {r c a b b' d : ℕ} (mat1 : Matrix (Fin a) (Fin b) K) (mat2 : Matrix (Fin b') (Fin d) K) :
    Option (Matrix (Fin r) (Fin c) K) :=
  if h : r = a ∧ c = d ∧ b = b' then
    some (of fun i j ↦ ∑ k, mat1 (i.cast h.1) k * mat2 (k.cast h.2.2) (j.cast h.2.1))
  else none

/-- `fMat::mul_tran`: the part below the diagonal is copied from the part above. -/
def mulTran (mat : Matrix (Fin m) (Fin n) K) : Matrix (Fin m) (Fin m) K :=
  of fun i j ↦ if i ≤ j then mat i ⬝ᵥ mat j else mat j ⬝ᵥ mat i

/-- The inverse of a matrix that has to be square at run time. -/
def onSquare (inv : Matrix (Fin n) (Fin n) K → Matrix (Fin n) (Fin n) K)
    (mat : Matrix (Fin m) (Fin n) K) : Option (Matrix (Fin n) (Fin m) K) :=
  if h : m = n then
    some ((inv (mat.submatrix (Fin.cast h.symm) id)).submatrix id (Fin.cast h))
  else none

variable (dgesvx dgelss : ∀ k, Matrix (Fin k) (Fin k) K → Matrix (Fin k) (Fin k) K)

/-- `fMat::inv_svd` for a square matrix. -/
def invSvd (k : ℕ) (mat : Matrix (Fin k) (Fin k) K) : Matrix (Fin k) (Fin k) K :=
  if k = 1 then of fun i j ↦ 1 / mat i j else dgelss k mat

/-- `p_inv`. -/
def pInv (mat : Matrix (Fin m) (Fin n) K) : Option (Matrix (Fin n) (Fin m) K) :=
  if m < n then do
    let MM : Matrix (Fin m) (Fin m) K ← mul mat matᵀ
    mul matᵀ (dgesvx m MM)
  else if n < m then do
    let MM : Matrix (Fin n) (Fin n) K ← mul matᵀ mat
    mul (dgesvx n MM) matᵀ
  else onSquare (dgesvx n) mat

/-- `fMat::p_inv` and `fMat::p_inv_svd`, for either inverse. -/
def pInvMemberWith (inv : ∀ k, Matrix (Fin k) (Fin k) K → Matrix (Fin k) (Fin k) K)
    (mat : Matrix (Fin m) (Fin n) K) : Option (Matrix (Fin n) (Fin m) K) :=
  if m < n then mul matᵀ (inv m (mulTran mat))
  else if n < m then mul (inv n (mulTran matᵀ)) matᵀ
  else onSquare (inv n) mat

/-- `fMat::p_inv`. -/
def pInvMember (mat : Matrix (Fin m) (Fin n) K) : Option (Matrix (Fin n) (Fin m) K) :=
  pInvMemberWith dgesvx mat

/-- `p_inv_svd`. -/
def pInvSvd (mat : Matrix (Fin m) (Fin n) K) : Option (Matrix (Fin n) (Fin m) K) :=
  if m < n then do
    let MM : Matrix (Fin m) (Fin m) K ← mul mat matᵀ
    mul (invSvd dgelss m MM) matᵀ
  else if n < m then do
    let MM : Matrix (Fin n) (Fin n) K ← mul matᵀ mat
    mul matᵀ (invSvd dgelss n MM)
  else onSquare (invSvd dgelss n) mat

/-- `fMat::p_inv_svd`. -/
def pInvSvdMember (mat : Matrix (Fin m) (Fin n) K) : Option (Matrix (Fin n) (Fin m) K) :=
  pInvMemberWith (invSvd dgelss) mat

variable [LinearOrder K]

/-- Weights that are too small are replaced by one. -/
def keptWeights {k : ℕ} (w : Fin k → K) : Fin k → K := fun i ↦
  if w i < 1 / 10 ^ 8 then 1 else w i

/-- What `sr_inv` returns and leaves behind: the matrix and the two vectors of weights. -/
structure SrInverse (K : Type*) (m n : ℕ) where
  /-- The returned matrix. -/
  ret : Matrix (Fin n) (Fin m) K
  /-- The weights of the error. -/
  w_err : Fin m → K
  /-- The weights of the norm. -/
  w_norm : Fin n → K

/-- The body of the four `sr_inv`, for either inverse and a scaling by the weights of the norm. -/
def srInvWith (inv : ∀ k, Matrix (Fin k) (Fin k) K → Matrix (Fin k) (Fin k) K)
    (scale : K → K → K) (mat : Matrix (Fin m) (Fin n) K) (w_err : Fin m → K) (w_norm : Fin n → K)
    (k : K) : SrInverse K m n :=
  let w_err := keptWeights w_err
  let w_norm := keptWeights w_norm
  let Jhat : Matrix (Fin m) (Fin n) K := of fun i j ↦ scale (mat i j * w_err i) (w_norm j)
  let tJhat := Jhatᵀ
  let ret :=
    if m < n then tJhat * inv m (Jhat * tJhat + k • 1) else inv n (tJhat * Jhat + k • 1) * tJhat
  ⟨of fun i j ↦ ret i j * (w_err j / w_norm i), w_err, w_norm⟩

/-- `sr_inv`. -/
def srInv (mat : Matrix (Fin m) (Fin n) K) (w_err : Fin m → K) (w_norm : Fin n → K) (k : K) :
    SrInverse K m n :=
  srInvWith dgesvx (· / ·) mat w_err w_norm k

/-- `fMat::sr_inv`. -/
def srInvMember (mat : Matrix (Fin m) (Fin n) K) (w_err : Fin m → K) (w_norm : Fin n → K) (k : K) :
    SrInverse K m n :=
  srInvWith dgesvx (· / ·) mat w_err w_norm k

/-- `sr_inv_svd`. -/
def srInvSvd (mat : Matrix (Fin m) (Fin n) K) (w_err : Fin m → K) (w_norm : Fin n → K) (k : K) :
    SrInverse K m n :=
  srInvWith (invSvd dgelss) (· * ·) mat w_err w_norm k

/-- `fMat::sr_inv_svd`. -/
def srInvSvdMember (mat : Matrix (Fin m) (Fin n) K) (w_err : Fin m → K) (w_norm : Fin n → K)
    (k : K) : SrInverse K m n :=
  srInvWith (invSvd dgelss) (· * ·) mat w_err w_norm k

end Code

/-! ### Products and inverses -/

section Products

variable {a b c : ℕ}

theorem mul_eq_some (mat1 : Matrix (Fin a) (Fin b) K) (mat2 : Matrix (Fin b) (Fin c) K) :
    mul mat1 mat2 = some (mat1 * mat2) :=
  dif_pos ⟨rfl, rfl, rfl⟩

theorem mulTran_eq (mat : Matrix (Fin m) (Fin n) K) : mulTran mat = mat * matᵀ := by
  ext i j
  show (if i ≤ j then mat i ⬝ᵥ mat j else mat j ⬝ᵥ mat i) = mat i ⬝ᵥ mat j
  rw [dotProduct_comm (mat j), ite_self]

omit [Field K] in
theorem onSquare_eq_some (inv : Matrix (Fin n) (Fin n) K → Matrix (Fin n) (Fin n) K)
    (mat : Matrix (Fin n) (Fin n) K) : onSquare inv mat = some (inv mat) :=
  dif_pos rfl

/-- An inverse of every invertible matrix. -/
def IsInverse (inv : ∀ k, Matrix (Fin k) (Fin k) K → Matrix (Fin k) (Fin k) K) : Prop :=
  ∀ k mat, IsUnit mat → inv k mat = mat⁻¹

/-- Dividing by the only element is the inverse of a matrix with one row. -/
theorem IsInverse.invSvd {dgelss : ∀ k, Matrix (Fin k) (Fin k) K → Matrix (Fin k) (Fin k) K}
    (h : IsInverse dgelss) : IsInverse (invSvd dgelss) := by
  intro k mat hmat
  by_cases hk : k = 1
  · subst hk
    have hne : mat 0 0 ≠ 0 := by
      have hdet := ((isUnit_iff_isUnit_det mat).1 hmat).ne_zero
      rwa [det_fin_one] at hdet
    refine (inv_eq_right_inv ?_).symm
    ext i j
    rw [Subsingleton.elim i 0, Subsingleton.elim j 0, mul_apply, Fin.sum_univ_one, one_apply_eq]
    exact mul_one_div_cancel hne
  · rw [FMat.invSvd, if_neg hk, h k mat hmat]

end Products

section Variants

variable {dgesvx dgelss : ∀ k, Matrix (Fin k) (Fin k) K → Matrix (Fin k) (Fin k) K}
  {mat : Matrix (Fin m) (Fin n) K}

/-! ### Pseudo-inverses -/

/-- The friend and the member multiply the same matrices. -/
theorem pInvMember_eq (mat : Matrix (Fin m) (Fin n) K) :
    pInvMember dgesvx mat = pInv dgesvx mat := by
  simp only [pInvMember, pInvMemberWith, pInv, mulTran_eq, transpose_transpose, mul_eq_some,
    Option.bind_eq_bind, Option.bind_some]

theorem exists_pInv (dgesvx : ∀ k, Matrix (Fin k) (Fin k) K → Matrix (Fin k) (Fin k) K)
    (mat : Matrix (Fin m) (Fin n) K) : ∃ ret, pInv dgesvx mat = some ret := by
  rw [pInv, mul_eq_some, mul_eq_some]
  split_ifs with hlt hgt
  · exact ⟨_, mul_eq_some _ _⟩
  · exact ⟨_, mul_eq_some _ _⟩
  · obtain rfl : m = n := by omega
    exact ⟨_, onSquare_eq_some _ mat⟩

/-- Where the matrix is not square, the factors have the wrong order. -/
theorem pInvSvd_of_ne (hne : m ≠ n) : pInvSvd dgelss mat = none := by
  rw [pInvSvd, mul_eq_some, mul_eq_some]
  split_ifs with hlt hgt
  · exact dif_neg fun h ↦ hne h.1.symm
  · exact dif_neg fun h ↦ hne h.2.1
  · omega

/-- A square matrix of full rank is inverted. -/
theorem pInvSvd_of_square (hlu : IsInverse dgesvx) (hsvd : IsInverse dgelss)
    {mat : Matrix (Fin n) (Fin n) K} (hmat : IsUnit mat) :
    pInvSvd dgelss mat = pInv dgesvx mat := by
  rw [pInvSvd, pInv, if_neg (lt_irrefl n), if_neg (lt_irrefl n), if_neg (lt_irrefl n),
    if_neg (lt_irrefl n), onSquare_eq_some, onSquare_eq_some, hsvd.invSvd n mat hmat,
    hlu n mat hmat]

variable [LinearOrder K] [IsStrictOrderedRing K]

/-- With exact inverses the members agree. -/
theorem pInvSvdMember_eq (hlu : IsInverse dgesvx) (hsvd : IsInverse dgelss)
    (hrank : mat.rank = min m n) : pInvSvdMember dgelss mat = pInv dgesvx mat := by
  rw [← pInvMember_eq, pInvSvdMember, pInvMember, pInvMemberWith, pInvMemberWith, mulTran_eq,
    mulTran_eq, transpose_transpose]
  split_ifs with hlt hgt
  · have hunit := isUnit_mul_transpose (A := mat)
      (by rw [hrank, Fintype.card_fin, min_eq_left hlt.le])
    rw [hsvd.invSvd m _ hunit, hlu m _ hunit]
  · have hunit := isUnit_mul_transpose (A := matᵀ)
      (by rw [rank_transpose, hrank, Fintype.card_fin, min_eq_right hgt.le])
    rw [transpose_transpose] at hunit
    rw [hsvd.invSvd n _ hunit, hlu n _ hunit]
  · obtain rfl : m = n := by omega
    have hunit := isUnit_of_rank_eq_card (A := mat) (by rw [hrank, Fintype.card_fin, min_self])
    rw [onSquare_eq_some, onSquare_eq_some, hsvd.invSvd m mat hunit, hlu m mat hunit]

/-- The four variants agree for square matrices only. -/
theorem pInv_agree_iff (hlu : IsInverse dgesvx) (hsvd : IsInverse dgelss)
    (hrank : mat.rank = min m n) :
    (∃ ret, pInv dgesvx mat = some ret ∧ pInvSvd dgelss mat = some ret ∧
      pInvMember dgesvx mat = some ret ∧ pInvSvdMember dgelss mat = some ret) ↔ m = n := by
  constructor
  · rintro ⟨ret, -, hret, -, -⟩
    by_contra hne
    rw [pInvSvd_of_ne hne] at hret
    cases hret
  · rintro rfl
    have hunit := isUnit_of_rank_eq_card (A := mat) (by rw [hrank, Fintype.card_fin, min_self])
    obtain ⟨ret, hret⟩ := exists_pInv dgesvx mat
    exact ⟨ret, hret, (pInvSvd_of_square hlu hsvd hunit).trans hret, (pInvMember_eq mat).trans hret,
      (pInvSvdMember_eq hlu hsvd hrank).trans hret⟩

/-! ### Inverses with weights -/

/-- The condition for dividing and multiplying by the weights of the norm to agree. -/
def ScalesAgree (mat : Matrix (Fin m) (Fin n) K) (w_err : Fin m → K) (w_norm : Fin n → K) (k : K) :
    Prop :=
  let A := diagonal w_err * mat
  let D := diagonal w_norm
  Aᵀ * A * (D * D - 1) * Aᵀ = k • ((D * D - 1) * Aᵀ)

variable {w_err : Fin m → K} {w_norm : Fin n → K} {k : K}

omit [IsStrictOrderedRing K] in
theorem keptWeights_eq {w : Fin n → K} (hw : ∀ i, 1 / 10 ^ 8 ≤ w i) : keptWeights w = w := by
  funext i
  exact if_neg (hw i).not_gt

/-- Both shapes compute the damped inverse of the scaled matrix. -/
theorem srInvWith_eq {inv : ∀ k, Matrix (Fin k) (Fin k) K → Matrix (Fin k) (Fin k) K}
    (hinv : IsInverse inv) (scale : K → K → K) (herr : ∀ i, 1 / 10 ^ 8 ≤ w_err i)
    (hnorm : ∀ j, 1 / 10 ^ 8 ≤ w_norm j) (hk : 0 < k) :
    srInvWith inv scale mat w_err w_norm k =
      ⟨of fun i j ↦ dampedInverse (of fun i j ↦ scale (mat i j * w_err i) (w_norm j)) k i j *
        (w_err j / w_norm i), w_err, w_norm⟩ := by
  rw [srInvWith, keptWeights_eq herr, keptWeights_eq hnorm]
  generalize of (fun i j ↦ scale (mat i j * w_err i) (w_norm j)) = Jhat
  have hret : (if m < n then Jhatᵀ * inv m (Jhat * Jhatᵀ + k • 1)
      else inv n (Jhatᵀ * Jhat + k • 1) * Jhatᵀ) = dampedInverse Jhat k := by
    have hunit := isUnit_damped Jhatᵀ hk
    rw [transpose_transpose] at hunit
    rw [hinv m _ (isUnit_damped Jhat hk), hinv n _ hunit, ← dampedInverse_eq Jhat hk]
    exact ite_self _
  simp only [hret]

/-- The variants agree where the scalings do. -/
theorem srInvSvd_eq_iff (mat : Matrix (Fin m) (Fin n) K) (hlu : IsInverse dgesvx)
    (hsvd : IsInverse dgelss)
    (herr : ∀ i, 1 / 10 ^ 8 ≤ w_err i) (hnorm : ∀ j, 1 / 10 ^ 8 ≤ w_norm j) (hk : 0 < k) :
    srInvSvd dgelss mat w_err w_norm k = srInv dgesvx mat w_err w_norm k ↔
      ScalesAgree mat w_err w_norm k := by
  have hpos : (0 : K) < 1 / 10 ^ 8 := by positivity
  have herr0 : ∀ i, w_err i ≠ 0 := fun i ↦ (hpos.trans_le (herr i)).ne'
  have hnorm0 : ∀ j, w_norm j ≠ 0 := fun j ↦ (hpos.trans_le (hnorm j)).ne'
  have hmul : (of fun i j ↦ mat i j * w_err i * w_norm j) =
      diagonal w_err * mat * diagonal w_norm := by
    ext i j
    rw [mul_diagonal, diagonal_mul, of_apply, mul_comm (mat i j)]
  have hdiv : (of fun i j ↦ mat i j * w_err i / w_norm j) =
      diagonal w_err * mat * diagonal fun j ↦ (w_norm j)⁻¹ := by
    ext i j
    rw [mul_diagonal, diagonal_mul, of_apply, mul_comm (mat i j), div_eq_mul_inv]
  have hDE : diagonal w_norm * diagonal (fun j ↦ (w_norm j)⁻¹) = 1 := by
    rw [diagonal_mul_diagonal, ← diagonal_one]
    exact congrArg diagonal (funext fun j ↦ mul_inv_cancel₀ (hnorm0 j))
  rw [srInvSvd, srInv, srInvWith_eq hsvd.invSvd _ herr hnorm hk,
    srInvWith_eq hlu _ herr hnorm hk, hmul, hdiv, ScalesAgree,
    ← dampedInverse_scaled_eq_iff _ (diagonal_transpose _) (diagonal_transpose _) hDE hk]
  constructor
  · intro heq
    ext i j
    have hentry := congrFun (congrFun (congrArg SrInverse.ret heq) i) j
    exact (mul_right_cancel₀ (div_ne_zero (herr0 j) (hnorm0 i)) hentry).symm
  · intro heq
    rw [heq]

/-! ### Which variants agree -/

/-- With exact inverses, the variants of the pseudo-inverse of a matrix of full rank agree for
square matrices only, and the variants with weights agree only where it does not matter whether the
columns are divided or multiplied by the weights of the norm. -/
theorem variants_agree_iff (hlu : IsInverse dgesvx) (hsvd : IsInverse dgelss)
    (hrank : mat.rank = min m n) (herr : ∀ i, 1 / 10 ^ 8 ≤ w_err i)
    (hnorm : ∀ j, 1 / 10 ^ 8 ≤ w_norm j) (hk : 0 < k) :
    ((∃ ret, pInv dgesvx mat = some ret ∧ pInvSvd dgelss mat = some ret ∧
        pInvMember dgesvx mat = some ret ∧ pInvSvdMember dgelss mat = some ret) ↔ m = n) ∧
      ((srInvSvd dgelss mat w_err w_norm k = srInv dgesvx mat w_err w_norm k ∧
        srInvMember dgesvx mat w_err w_norm k = srInv dgesvx mat w_err w_norm k ∧
        srInvSvdMember dgelss mat w_err w_norm k = srInv dgesvx mat w_err w_norm k) ↔
        ScalesAgree mat w_err w_norm k) := by
  refine ⟨pInv_agree_iff hlu hsvd hrank, ?_⟩
  have hiff := srInvSvd_eq_iff mat hlu hsvd herr hnorm hk
  exact ⟨fun h ↦ hiff.1 h.1, fun h ↦ ⟨hiff.2 h, rfl, hiff.2 h⟩⟩

omit [LinearOrder K] [IsStrictOrderedRing K] in
/-- Weights of the norm that are one do not matter. -/
theorem scalesAgree_one (mat : Matrix (Fin m) (Fin n) K) (w_err : Fin m → K) (k : K) :
    ScalesAgree mat w_err 1 k := by
  have hzero : diagonal (1 : Fin n → K) * diagonal 1 - 1 = 0 := by
    rw [show diagonal (1 : Fin n → K) = 1 from diagonal_one, Matrix.one_mul, sub_self]
  rw [ScalesAgree, hzero, Matrix.mul_zero, Matrix.zero_mul, smul_zero]

end Variants

theorem isInverse_inv : IsInverse fun k (mat : Matrix (Fin k) (Fin k) ℚ) ↦ mat⁻¹ := fun _ _ _ ↦
  rfl

/-- A shear, with weights of the error only. -/
theorem variants_agree_shear :
    (∃ ret, pInv (fun _ mat ↦ mat⁻¹) !![(1 : ℚ), 1; 0, 1] = some ret ∧
      pInvSvd (fun _ mat ↦ mat⁻¹) !![(1 : ℚ), 1; 0, 1] = some ret ∧
      pInvMember (fun _ mat ↦ mat⁻¹) !![(1 : ℚ), 1; 0, 1] = some ret ∧
      pInvSvdMember (fun _ mat ↦ mat⁻¹) !![(1 : ℚ), 1; 0, 1] = some ret) ∧
    srInvSvd (fun _ mat ↦ mat⁻¹) !![(1 : ℚ), 1; 0, 1] ![2, 3] 1 1 =
      srInv (fun _ mat ↦ mat⁻¹) !![(1 : ℚ), 1; 0, 1] ![2, 3] 1 1 := by
  have hunit : IsUnit !![(1 : ℚ), 1; 0, 1] := by
    rw [isUnit_iff_isUnit_det, det_fin_two_of]
    norm_num
  have hrank : (!![(1 : ℚ), 1; 0, 1] : Matrix (Fin 2) (Fin 2) ℚ).rank = min 2 2 :=
    rank_of_isUnit _ hunit
  have herr : ∀ i, 1 / 10 ^ 8 ≤ (![2, 3] : Fin 2 → ℚ) i := by decide +kernel
  have hnorm : ∀ j, 1 / 10 ^ 8 ≤ (1 : Fin 2 → ℚ) j := fun _ ↦ by norm_num
  obtain ⟨hp, hsr⟩ := variants_agree_iff isInverse_inv isInverse_inv hrank herr hnorm one_pos
  exact ⟨hp.2 rfl, (hsr.2 (scalesAgree_one _ _ _)).1⟩

/-- For one row and two columns the friend `p_inv_svd` has no result. -/
theorem not_variants_agree :
    ¬∀ (dgesvx dgelss : ∀ k, Matrix (Fin k) (Fin k) ℚ → Matrix (Fin k) (Fin k) ℚ) (m n : ℕ)
      (mat : Matrix (Fin m) (Fin n) ℚ) (w_err : Fin m → ℚ) (w_norm : Fin n → ℚ) (k : ℚ),
      IsInverse dgesvx → IsInverse dgelss → mat.rank = min m n → (∀ i, 1 / 10 ^ 8 ≤ w_err i) →
      (∀ j, 1 / 10 ^ 8 ≤ w_norm j) → 0 < k →
      (∃ ret, pInv dgesvx mat = some ret ∧ pInvSvd dgelss mat = some ret ∧
        pInvMember dgesvx mat = some ret ∧ pInvSvdMember dgelss mat = some ret) ∧
      srInvSvd dgelss mat w_err w_norm k = srInv dgesvx mat w_err w_norm k ∧
      srInvMember dgesvx mat w_err w_norm k = srInv dgesvx mat w_err w_norm k ∧
      srInvSvdMember dgelss mat w_err w_norm k = srInv dgesvx mat w_err w_norm k := by
  intro hall
  have hone : !![(1 : ℚ), 0] * !![(1 : ℚ), 0]ᵀ = 1 := by
    ext i j
    fin_cases i
    fin_cases j
    simp [mul_apply]
  have hrank : (!![(1 : ℚ), 0] : Matrix (Fin 1) (Fin 2) ℚ).rank = min 1 2 := by
    rw [← rank_self_mul_transpose, hone, rank_one]
    rfl
  obtain ⟨⟨ret, -, hsvd, -, -⟩, -⟩ := hall _ _ 1 2 !![1, 0] 1 1 1 isInverse_inv isInverse_inv hrank
    (fun _ ↦ by norm_num) (fun _ ↦ by norm_num) one_pos
  rw [pInvSvd_of_ne (by decide)] at hsvd
  cases hsvd

end OpenHRP.FMat
