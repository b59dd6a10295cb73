import OpenHRP.SDims.ContactSystem

/-!
# The friction law of a contact

A contact keeps its own law when its force is in its own friction cone and complementary to its own
velocity (`Contacts.FrictionLaw`). `calc_contact_force` is to keep it for the contacts that it
solves for: their equations are those of all contacts, restricted (`Contacts.IsRestricted`), and a
solution of the equations after the first pivots gives forces that obey the laws.

The row of the friction bound takes the coefficient with the index of the contact among the active
ones, so that this is so when those coefficients are the contacts' own (`keepsOwnLaws`).
-/

open Matrix

namespace OpenHRP.SDims

open LCP

variable {n : ℕ} {K : Type*}

/-! ### Indices -/

/-- The index of a variable of `k` contacts: a coefficient of a contact, or its friction bound. -/
def flatIndex (nCoefs k : ℕ) : Fin k × Fin nCoefs ⊕ Fin k → ℕ
  | .inl (i, m) => i * nCoefs + m
  | .inr i => nCoefs * k + i

/-- The variables of `k` contacts, by index. -/
def flatEquiv (nCoefs k : ℕ) : Fin k × Fin nCoefs ⊕ Fin k ≃ Fin (k * nCoefs + k) :=
  (finProdFinEquiv.sumCongr (.refl _)).trans finSumFinEquiv

theorem flatEquiv_val {nCoefs k : ℕ} (x : Fin k × Fin nCoefs ⊕ Fin k) :
    (flatEquiv nCoefs k x : ℕ) = flatIndex nCoefs k x := by
  rcases x with ⟨i, m⟩ | i
  · show (m : ℕ) + nCoefs * i = i * nCoefs + m
    rw [mul_comm, add_comm]
  · show k * nCoefs + (i : ℕ) = nCoefs * k + i
    rw [mul_comm]

/-- A variable of an active contact, among those of all contacts. -/
def toAll {nCoefs : ℕ} (act : List (Fin n)) :
    Fin act.length × Fin nCoefs ⊕ Fin act.length → Fin n × Fin nCoefs ⊕ Fin n :=
  Sum.map (Prod.map act.get id) act.get

theorem sum_flat [AddCommMonoid K] {nCoefs k : ℕ} (f : Fin (k * nCoefs + k) → K) :
    ∑ x, f x = ∑ i, ∑ m, f (flatEquiv nCoefs k (.inl (i, m))) +
      ∑ i, f (flatEquiv nCoefs k (.inr i)) := by
  rw [← (flatEquiv nCoefs k).sum_comp, Fintype.sum_sum_type, Fintype.sum_prod_type]

namespace Contacts

section Law

variable [Field K] [LinearOrder K] (P : Contacts n K)

/-- The force `f` and the velocity `v` at a contact obey the law of friction with the coefficient
`mu`: the tangential force has the coefficients `c` along the directions of the cone, and `l` is the
speed of sliding. -/
structure FrictionLaw (mu : K) (f v : Vector3 K) (c : ℕ → K) (l : K) : Prop where
  force : ∀ d : Fin 3, d ≠ 2 → f d = ∑ m ∈ Finset.range P.nDiv, P.coneDir m d * c m
  normal_nonneg : 0 ≤ f 2
  coef_nonneg : ∀ m < P.nDiv, 0 ≤ c m
  cone : ∑ m ∈ Finset.range P.nDiv, c m ≤ mu * f 2
  velocity_nonneg : 0 ≤ v 2
  normal_complementary : f 2 * v 2 = 0
  speed_nonneg : 0 ≤ l
  slide_nonneg : ∀ m < P.nDiv, 0 ≤ P.coneDir m 0 * v 0 + P.coneDir m 1 * v 1 + l
  slide_complementary : ∀ m < P.nDiv,
    c m * (P.coneDir m 0 * v 0 + P.coneDir m 1 * v 1 + l) = 0
  cone_complementary : l * (mu * f 2 - ∑ m ∈ Finset.range P.nDiv, c m) = 0

end Law

section Restricted

variable [Field K] (P : Contacts n K) (act : List (Fin n))

/-- The system of the active contacts is that of all contacts, restricted to their rows and
columns. -/
structure IsRestricted : Prop where
  matrix : ∀ x y, P.nActive act (flatIndex P.nCoefs act.length x)
      (flatIndex P.nCoefs act.length y) =
    P.nAll (flatIndex P.nCoefs n (toAll act x)) (flatIndex P.nCoefs n (toAll act y))
  vector : ∀ x, P.rActive act (flatIndex P.nCoefs act.length x) =
    P.rAll (flatIndex P.nCoefs n (toAll act x))

/-- The coefficients with the indices of the active contacts are their own. -/
def OwnCoefs : Prop :=
  ∀ i : Fin act.length, P.fricCoefs i = P.fricCoefs (act.get i)

/-- The normal velocities at the active contacts by the normal forces there. -/
def normalBlock : Matrix (Fin act.length) (Fin act.length) K :=
  .of fun i j ↦ P.phi (act.get i) (act.get j) 2 2

variable {P act}

theorem nActive_coef_coef (i j : Fin act.length) {a b : ℕ} (ha : a < P.nCoefs)
    (hb : b < P.nCoefs) : P.nActive act (i * P.nCoefs + a) (j * P.nCoefs + b) =
      P.nIj (act.get i) (act.get j) a b := by
  rw [nActive, assemble_coef_coef i j ha hb, getSubmat, nAll, assemble_coef_coef _ _ ha hb]

theorem rActive_coef (i : Fin act.length) {a : ℕ} (ha : a < P.nCoefs) :
    P.rActive act (i * P.nCoefs + a) = P.rI (act.get i) a := by
  rw [rActive, assembleVec_coef i ha, getSubvec, rAll, assembleVec_coef _ ha]

/-- The system is restricted as it should be when the coefficients are the contacts' own. -/
theorem isRestricted_iff (hact : act.Nodup) : P.IsRestricted act ↔ P.OwnCoefs act := by
  have hinj {i j : Fin act.length} : act.get i = act.get j ↔ i = j := hact.injective_get.eq_iff
  constructor
  · intro h i
    have hpos : 0 < P.nCoefs := Nat.succ_pos _
    -- the entry of the friction bound and the normal force
    have hentry : P.nActive act (P.nCoefs * act.length + i) (i * P.nCoefs + 0) =
        P.nAll (P.nCoefs * n + act.get i) (act.get i * P.nCoefs + 0) :=
      h.matrix (.inr i) (.inl (i, ⟨0, hpos⟩))
    rwa [nActive, assemble_bound_coef i i hpos, if_pos rfl, nAll,
      assemble_bound_coef _ _ hpos, if_pos rfl] at hentry
  · refine fun h ↦ ⟨fun x y ↦ ?_, fun x ↦ ?_⟩
    · rcases x with ⟨i, a⟩ | i <;> rcases y with ⟨j, b⟩ | j
      · exact (nActive_coef_coef i j a.2 b.2).trans (assemble_coef_coef _ _ a.2 b.2).symm
      · refine (assemble_coef_bound i j a.2).trans (Eq.trans ?_
          (assemble_coef_bound (act.get i) (act.get j) a.2).symm)
        exact if_congr hinj.symm rfl rfl
      · refine (assemble_bound_coef i j b.2).trans (Eq.trans ?_
          (assemble_bound_coef (act.get i) (act.get j) b.2).symm)
        refine if_congr hinj.symm ?_ rfl
        rw [ehatT, ehatT, h i]
      · exact (assemble_bound_bound i j).trans (assemble_bound_bound _ _).symm
    · rcases x with ⟨i, a⟩ | i
      · exact (rActive_coef i a.2).trans (assembleVec_coef _ a.2).symm
      · exact (assembleVec_bound i).trans (assembleVec_bound _).symm

end Restricted

section Forces

variable [Field K] {P : Contacts n K} {act : List (Fin n)}

theorem vecMul_ck_zero (v : Vector3 K) : (v ᵥ* P.ck) 0 = v 2 := by
  simp [Matrix.vecMul, dotProduct, Fin.sum_univ_three, ck]

theorem vecMul_ck_succ (v : Vector3 K) (m : ℕ) :
    (v ᵥ* P.ck) (m + 1) = P.coneDir m 0 * v 0 + P.coneDir m 1 * v 1 := by
  simp [Matrix.vecMul, dotProduct, Fin.sum_univ_three, ck, mul_comm]

/-- The entries of two contacts give the part of the velocity that the force at one makes at the
other. -/
theorem sum_nIj (i j : Fin n) (a : ℕ) (g : ℕ → K) :
    ∑ m ∈ Finset.range P.nCoefs, P.nIj i j a m * g m =
      ((P.phi i j *ᵥ fun c ↦ ∑ m ∈ Finset.range P.nCoefs, P.ck c m * g m) ᵥ* P.ck) a := by
  rw [← Matrix.mulVec_transpose, Matrix.mulVec_mulVec]
  calc ∑ m ∈ Finset.range P.nCoefs, P.nIj i j a m * g m
      = ∑ m ∈ Finset.range P.nCoefs, ∑ c, (P.ckᵀ * P.phi i j) a c * (P.ck c m * g m) :=
        Finset.sum_congr rfl fun m _ ↦ by
          rw [nIj, Matrix.mul_apply, Finset.sum_mul]
          simp only [mul_assoc]
    _ = ∑ c, ∑ m ∈ Finset.range P.nCoefs, (P.ckᵀ * P.phi i j) a c * (P.ck c m * g m) :=
        Finset.sum_comm
    _ = ∑ c, (P.ckᵀ * P.phi i j) a c * ∑ m ∈ Finset.range P.nCoefs, P.ck c m * g m := by
        simp only [Finset.mul_sum]

variable {g2 : ℕ → K}

theorem writeForces_get (hact : act.Nodup) (i : Fin act.length) :
    P.writeForces act g2 (act.get i) = P.coefForce g2 (i * P.nCoefs) :=
  foldl_read_eq (fun fk : Fin n → Vector3 K ↦ fk (act.get i)) (List.mem_finRange i)
    (fun _ ↦ Function.update_self _ _ _)
    (fun _ _ hne _ ↦ Function.update_of_ne (fun h ↦ hne (hact.injective_get h).symm) _ _) _

theorem writeForces_of_notMem {i : Fin n} (hi : i ∉ act) : P.writeForces act g2 i = 0 :=
  foldl_read_eq_self (fun fk : Fin n → Vector3 K ↦ fk i)
    (fun j _ _ ↦ Function.update_of_ne (by rintro rfl; exact hi (act.get_mem j)) _ _) _

/-- The velocities are those of the forces at the active contacts. -/
theorem velocity_writeForces (hact : act.Nodup) (i : Fin n) :
    P.velocity (P.writeForces act g2) i =
      ∑ j : Fin act.length, P.phi i (act.get j) *ᵥ P.coefForce g2 (j * P.nCoefs) + P.bias i := by
  rw [velocity]
  refine congrArg (· + _) (Fintype.sum_of_injective _ hact.injective_get _ _ (fun j hj ↦ ?_)
    fun j ↦ by rw [writeForces_get hact]).symm
  rw [writeForces_of_notMem fun hmem ↦ hj (List.mem_iff_get.1 hmem), Matrix.mulVec_zero]

theorem coefForce_normal (iN : ℕ) : P.coefForce g2 iN 2 = g2 iN := by
  rw [coefForce, nCoefs, Finset.sum_range_succ', Finset.sum_eq_zero fun m _ ↦ ?_, zero_add]
  · simp [ck, getSubvec]
  · simp [ck]

theorem coefForce_tangential (iN : ℕ) {d : Fin 3} (hd : d ≠ 2) :
    P.coefForce g2 iN d = ∑ m ∈ Finset.range P.nDiv, P.coneDir m d * g2 (iN + (m + 1)) := by
  rw [coefForce, nCoefs, Finset.sum_range_succ']
  fin_cases d
  · simp [ck, getSubvec]
  · simp [ck, getSubvec]
  · exact absurd rfl hd

end Forces

section Solution

variable [Field K] {P : Contacts n K} {act : List (Fin n)}

theorem toArray_flatIndex (g : Fin (P.nActiveCoef act) → K)
    (x : Fin act.length × Fin P.nCoefs ⊕ Fin act.length) :
    toArray g (flatIndex P.nCoefs act.length x) = g (flatEquiv P.nCoefs act.length x) := by
  have hval := flatEquiv_val x
  rw [toArray, dif_pos (hval ▸ (flatEquiv P.nCoefs act.length x).2)]
  exact congrArg g (Fin.ext hval.symm)

theorem sum_toArray (g : Fin (P.nActiveCoef act) → K) (f : ℕ → ℕ → K) (i : Fin act.length) :
    ∑ m : Fin P.nCoefs, f i m * g (flatEquiv P.nCoefs act.length (.inl (i, m))) =
      ∑ m ∈ Finset.range P.nCoefs, f i m * getSubvec (i * P.nCoefs) (toArray g) m := by
  rw [Finset.sum_range]
  exact Finset.sum_congr rfl fun m _ ↦ congrArg _ (toArray_flatIndex g (.inl (i, m))).symm

variable [LinearOrder K] {g w : Fin (P.nActiveCoef act) → K}

/-- The row of a coefficient: the velocity along its direction, and the speed of sliding. -/
theorem row_coef (hact : act.Nodup)
    (hs : IsSolution (.of fun x y ↦ P.nActive act x y) (fun x ↦ P.rActive act x) g w)
    (i : Fin act.length) (a : Fin P.nCoefs) :
    w (flatEquiv P.nCoefs act.length (.inl (i, a))) =
      (P.velocity (P.writeForces act (toArray g)) (act.get i) ᵥ* P.ck) a +
        e a 0 * g (flatEquiv P.nCoefs act.length (.inr i)) := by
  have hrow := congrFun hs.eq (flatEquiv P.nCoefs act.length (.inl (i, a)))
  rw [← hrow, Pi.add_apply, Matrix.mulVec, dotProduct, sum_flat]
  simp only [Matrix.of_apply, flatEquiv_val, flatIndex]
  rw [rActive_coef i a.2, velocity_writeForces hact, Matrix.add_vecMul, Pi.add_apply,
    Matrix.sum_vecMul, Finset.sum_apply]
  have hbound : ∑ j : Fin act.length, P.nActive act (i * P.nCoefs + a)
        (P.nCoefs * act.length + j) * g (flatEquiv P.nCoefs act.length (.inr j)) =
      e a 0 * g (flatEquiv P.nCoefs act.length (.inr i)) := by
    simp only [nActive, assemble_coef_bound i _ a.2, ite_mul, zero_mul, Finset.sum_ite_eq,
      Finset.mem_univ, if_true]
  have hcoef (j : Fin act.length) : ∑ m : Fin P.nCoefs, P.nActive act (i * P.nCoefs + a)
        (j * P.nCoefs + m) * g (flatEquiv P.nCoefs act.length (.inl (j, m))) =
      ((P.phi (act.get i) (act.get j) *ᵥ P.coefForce (toArray g) (j * P.nCoefs)) ᵥ* P.ck) a := by
    rw [sum_toArray g (fun j m ↦ P.nActive act (i * P.nCoefs + a) (j * P.nCoefs + m)) j]
    refine Eq.trans (Finset.sum_congr rfl fun m hm ↦ ?_) (sum_nIj _ _ _ _)
    rw [nActive_coef_coef i j a.2 (Finset.mem_range.1 hm)]
  rw [hbound, Finset.sum_congr rfl fun j _ ↦ hcoef j, rI]
  ring

theorem row_bound (hs : IsSolution (.of fun x y ↦ P.nActive act x y) (fun x ↦ P.rActive act x) g w)
    (i : Fin act.length) :
    w (flatEquiv P.nCoefs act.length (.inr i)) =
      P.fricCoefs i * toArray g (i * P.nCoefs) -
        ∑ m ∈ Finset.range P.nDiv, toArray g (i * P.nCoefs + (m + 1)) := by
  have hrow := congrFun hs.eq (flatEquiv P.nCoefs act.length (.inr i))
  rw [← hrow, Pi.add_apply, Matrix.mulVec, dotProduct, sum_flat]
  simp only [Matrix.of_apply, flatEquiv_val, flatIndex]
  have hbound : ∑ j : Fin act.length, P.nActive act (P.nCoefs * act.length + i)
      (P.nCoefs * act.length + j) * g (flatEquiv P.nCoefs act.length (.inr j)) = 0 :=
    Finset.sum_eq_zero fun j _ ↦ by rw [nActive, assemble_bound_bound, zero_mul]
  have hcoef (j : Fin act.length) : ∑ m : Fin P.nCoefs, P.nActive act (P.nCoefs * act.length + i)
        (j * P.nCoefs + m) * g (flatEquiv P.nCoefs act.length (.inl (j, m))) =
      if i = j then P.fricCoefs i * toArray g (i * P.nCoefs) -
        ∑ m ∈ Finset.range P.nDiv, toArray g (i * P.nCoefs + (m + 1)) else 0 := by
    rcases eq_or_ne i j with rfl | hij
    · rw [if_pos rfl, sum_toArray g (fun j m ↦ P.nActive act (P.nCoefs * act.length + i)
        (j * P.nCoefs + m)) i]
      have hentry : ∀ m ∈ Finset.range P.nCoefs, P.nActive act (P.nCoefs * act.length + i)
            (i * P.nCoefs + m) * getSubvec (i * P.nCoefs) (toArray g) m =
          P.ehatT i 0 m * toArray g (i * P.nCoefs + m) := fun m hm ↦ by
        rw [nActive, assemble_bound_coef i i (Finset.mem_range.1 hm), if_pos rfl, getSubvec]
      rw [Finset.sum_congr rfl hentry, nCoefs, Finset.sum_range_succ', add_comm]
      simp only [ehatT, if_true, Nat.succ_ne_zero, if_false, neg_one_mul, Finset.sum_neg_distrib,
        add_zero, sub_eq_add_neg]
    · rw [if_neg hij]
      exact Finset.sum_eq_zero fun m _ ↦ by
        rw [nActive, assemble_bound_coef i j m.2, if_neg hij, zero_mul]
  rw [hbound, Finset.sum_congr rfl fun j _ ↦ hcoef j, Finset.sum_ite_eq, if_pos (Finset.mem_univ _),
    rActive, assembleVec_bound, add_zero, add_zero]

variable [IsStrictOrderedRing K]

/-- **A solution of the equations obeys the friction law at every active contact**, with the
coefficient that stands in the row of the contact. -/
theorem frictionLaw_of_isSolution (hact : act.Nodup)
    (hs : IsSolution (.of fun x y ↦ P.nActive act x y) (fun x ↦ P.rActive act x) g w)
    (i : Fin act.length) :
    P.FrictionLaw (P.fricCoefs i) (P.writeForces act (toArray g) (act.get i))
      (P.velocity (P.writeForces act (toArray g)) (act.get i))
      (fun m ↦ toArray g (i * P.nCoefs + (m + 1)))
      (g (flatEquiv P.nCoefs act.length (.inr i))) := by
  set fk := P.writeForces act (toArray g)
  have hforce : fk (act.get i) = P.coefForce (toArray g) (i * P.nCoefs) := writeForces_get hact i
  have hnormal : fk (act.get i) 2 = toArray g (i * P.nCoefs) := by
    rw [hforce, coefForce_normal]
  -- the variables of the contact, by index
  have hg0 : toArray g (i * P.nCoefs) =
      g (flatEquiv P.nCoefs act.length (.inl (i, ⟨0, Nat.succ_pos _⟩))) :=
    toArray_flatIndex g (.inl (i, ⟨0, Nat.succ_pos _⟩))
  have hg {m : ℕ} (hm : m < P.nDiv) : toArray g (i * P.nCoefs + (m + 1)) =
      g (flatEquiv P.nCoefs act.length (.inl (i, ⟨m + 1, Nat.succ_lt_succ hm⟩))) :=
    toArray_flatIndex g (.inl (i, ⟨m + 1, Nat.succ_lt_succ hm⟩))
  -- their rows
  have hw0 : w (flatEquiv P.nCoefs act.length (.inl (i, ⟨0, Nat.succ_pos _⟩))) =
      P.velocity fk (act.get i) 2 := by
    rw [row_coef hact hs, vecMul_ck_zero, e, if_pos rfl, zero_mul, add_zero]
  have hw {m : ℕ} (hm : m < P.nDiv) :
      w (flatEquiv P.nCoefs act.length (.inl (i, ⟨m + 1, Nat.succ_lt_succ hm⟩))) =
        P.coneDir m 0 * P.velocity fk (act.get i) 0 + P.coneDir m 1 * P.velocity fk (act.get i) 1 +
          g (flatEquiv P.nCoefs act.length (.inr i)) := by
    rw [row_coef hact hs, vecMul_ck_succ, e, if_neg (Nat.succ_ne_zero m), one_mul]
  have hbound := row_bound hs i
  rw [← hnormal] at hbound
  exact
    { force := fun d hd ↦ hforce ▸ coefForce_tangential _ hd
      normal_nonneg := hnormal ▸ hg0 ▸ hs.g_nonneg _
      coef_nonneg := fun m hm ↦ hg hm ▸ hs.g_nonneg _
      cone := sub_nonneg.1 (hbound ▸ hs.a_nonneg _)
      velocity_nonneg := hw0 ▸ hs.a_nonneg _
      normal_complementary := hnormal ▸ hg0 ▸ hw0 ▸ hs.complementary _
      speed_nonneg := hs.g_nonneg _
      slide_nonneg := fun m hm ↦ hw hm ▸ hs.a_nonneg _
      slide_complementary := fun m hm ↦ hg hm ▸ hw hm ▸ hs.complementary _
      cone_complementary := hbound ▸ hs.complementary _ }

end Solution

section PrePivot

variable {P : Contacts n K} {act : List (Fin n)}

variable (P act) in
/-- The index of the normal coefficient of an active contact. -/
def normalIndex (i : Fin act.length) : Fin (P.nActiveCoef act) :=
  flatEquiv P.nCoefs act.length (.inl (i, ⟨0, Nat.succ_pos _⟩))

theorem normalIndex_val (i : Fin act.length) : (P.normalIndex act i : ℕ) = i * P.nCoefs :=
  flatEquiv_val _

theorem normalIndex_injective : Function.Injective (P.normalIndex act) := fun _ _ h ↦
  congrArg Prod.fst (Sum.inl_injective ((flatEquiv P.nCoefs act.length).injective h))

variable [Field K]

theorem sum_isNormal (f : Fin (P.nActiveCoef act) → K) :
    ∑ x with P.IsNormal act x, f x = ∑ i, f (P.normalIndex act i) := by
  refine (Finset.sum_nbij (P.normalIndex act) (fun i _ ↦ ?_) normalIndex_injective.injOn
    (fun x hx ↦ ?_) fun _ _ ↦ rfl).symm
  · exact Finset.mem_filter.2 ⟨Finset.mem_univ _, i, normalIndex_val i⟩
  · obtain ⟨i, hi⟩ := (Finset.mem_filter.1 hx).2
    exact ⟨i, Finset.mem_coe.2 (Finset.mem_univ i), Fin.ext ((normalIndex_val i).trans hi.symm)⟩

theorem nActive_normalIndex (i j : Fin act.length) :
    P.nActive act (P.normalIndex act i) (P.normalIndex act j) = P.normalBlock act i j := by
  have h := nActive_coef_coef (P := P) i j (Nat.succ_pos P.nDiv) (Nat.succ_pos P.nDiv)
  rw [add_zero, add_zero] at h
  rw [normalIndex_val, normalIndex_val, h, normalBlock, Matrix.of_apply, nIj]
  simp [Matrix.mul_apply, Fin.sum_univ_three, ck]

/-- The inverse of the normal block is that of the pivots. -/
theorem exists_isBlockInverse (h : IsUnit (P.normalBlock act)) :
    ∃ D, IsBlockInverse (P.IsNormal act) (.of fun x y ↦ P.nActive act x y) D := by
  obtain ⟨B, hB⟩ := h.exists_right_inv
  let contact (x : Fin (P.nActiveCoef act)) : Fin act.length :=
    ((flatEquiv P.nCoefs act.length).symm x).elim Prod.fst id
  have hcontact (i : Fin act.length) : contact (P.normalIndex act i) = i :=
    congrArg (Sum.elim Prod.fst id) ((flatEquiv P.nCoefs act.length).symm_apply_apply _)
  refine ⟨.of fun x y ↦ B (contact x) (contact y), fun x hx y hy ↦ ?_⟩
  obtain ⟨i, hi⟩ := hx
  obtain ⟨j, hj⟩ := hy
  obtain rfl : P.normalIndex act i = x := Fin.ext ((normalIndex_val i).trans hi.symm)
  obtain rfl : P.normalIndex act j = y := Fin.ext ((normalIndex_val j).trans hj.symm)
  rw [sum_isNormal]
  simp only [Matrix.of_apply, hcontact, nActive_normalIndex]
  rw [← Matrix.mul_apply, hB, Matrix.one_apply]
  exact if_congr normalIndex_injective.eq_iff.symm rfl rfl

variable [LinearOrder K] {inv : ℕ → (ℕ → ℕ → K) → ℕ → ℕ → K} {fresh : ℕ → ℕ → K}

/-- A solution after the first pivots is one of the equations, with the variables put back. -/
theorem isSolution_putBack (hinv : ExactInverse inv) (hunit : IsUnit (P.normalBlock act))
    {ans : Answer (P.nActiveCoef act) K}
    (hs : IsSolution (P.prePivot act inv fresh).1 (P.prePivot act inv fresh).2 ans.g2 ans.a) :
    IsSolution (.of fun x y ↦ P.nActive act x y) (fun x ↦ P.rActive act x) (P.putBack ans)
      fun x ↦ if P.IsNormal act x then ans.g2 x else ans.a x := by
  obtain ⟨D, hD⟩ := exists_isBlockInverse hunit
  have hpivot : P.prePivot act inv fresh = _ := pivotArrays_exchangeArrays hinv hD
  rw [hpivot] at hs
  have hput (x : Fin (P.nActiveCoef act)) :
      P.putBack ans x = if P.IsNormal act x then ans.a x else ans.g2 x := by
    show (if P.IsNormal act x then some x else none : Option _).elim _ _ = _
    split <;> rfl
  -- the equations, by the variables of both sides
  have hexchange : Satisfies (exchangedMatrix (P.IsNormal act) (.of fun x y ↦ P.nActive act x y) D)
      (exchangedVector (P.IsNormal act) (.of fun x y ↦ P.nActive act x y) D
        fun x ↦ P.rActive act x) (Sum.elim ans.a ans.g2) := fun x ↦ (congrFun hs.eq x).symm
  have hsat := satisfies_of_exchanged hD hexchange
  have hg : P.putBack ans = fun x ↦ (Sum.elim ans.a ans.g2 ∘ exchangeSides (P.IsNormal act))
      (.inr x) := funext fun x ↦ by
    rw [hput, Function.comp_apply, exchangeSides]
    split <;> rfl
  have hw : (fun x ↦ if P.IsNormal act x then ans.g2 x else ans.a x) = fun x ↦
      (Sum.elim ans.a ans.g2 ∘ exchangeSides (P.IsNormal act)) (.inl x) := funext fun x ↦ by
    rw [Function.comp_apply, exchangeSides]
    split <;> rfl
  refine ⟨?_, fun x ↦ ?_, fun x ↦ ?_, fun x ↦ ?_⟩
  · rw [hg, hw]
    exact funext fun x ↦ (hsat x).symm
  · rw [hput]
    split
    · exact hs.a_nonneg x
    · exact hs.g_nonneg x
  · split
    · exact hs.g_nonneg x
    · exact hs.a_nonneg x
  · rw [hput]
    split
    · rw [mul_comm]
      exact hs.complementary x
    · exact hs.complementary x

end PrePivot

section Main

variable [Field K] [LinearOrder K] {P : Contacts n K} {presolve : Presolve n K}
  {inv : ℕ → (ℕ → ℕ → K) → ℕ → ℕ → K} {fresh : ℕ → ℕ → K}

theorem nodup_solvedContacts : (P.solvedContacts presolve).Nodup := by
  have hfin := List.nodup_finRange n
  rw [solvedContacts]
  split_ifs
  · exact hfin.filter _
  · exact hfin
  · exact hfin.filter _
  · exact hfin.filter _

variable (P presolve inv fresh) in
/-- The active contacts keep their own laws: their equations are those of all contacts, restricted,
and where the solver returns an exact solution of the equations that it is given, the forces obey
the friction laws of the contacts. -/
structure KeepsOwnLaws : Prop where
  restricted : P.IsRestricted (P.solvedContacts presolve)
  obeys : ∀ solve : ∀ k, Matrix (Fin k) (Fin k) K → (Fin k → K) → Answer k K,
    let init := P.prePivot (P.solvedContacts presolve) inv fresh
    let ans := solve _ init.1 init.2
    ans.failed = false → IsSolution init.1 init.2 ans.g2 ans.a →
      let fk := P.calcContactForce inv fresh solve presolve
      ∀ i ∈ P.solvedContacts presolve,
        ∃ c l, P.FrictionLaw (P.fricCoefs i) (fk i) (P.velocity fk i) c l

variable [IsStrictOrderedRing K]

/-- The forces that are written for an exact solution. -/
theorem calcContactForce_eq {solve : ∀ k, Matrix (Fin k) (Fin k) K → (Fin k → K) → Answer k K}
    {init : Matrix (Fin _) (Fin _) K × (Fin _ → K)} {ans : Answer _ K}
    (hne : P.solvedContacts presolve ≠ [])
    (hinit : P.prePivot (P.solvedContacts presolve) inv fresh = init)
    (hans : solve _ init.1 init.2 = ans) (hok : ans.failed = false)
    (heq : init.1 *ᵥ ans.g2 + init.2 = ans.a) :
    P.calcContactForce inv fresh solve presolve =
      P.writeForces (P.solvedContacts presolve) (toArray (P.putBack ans)) := by
  rw [calcContactForce]
  refine (if_neg hne).trans ?_
  rw [hinit]
  dsimp only
  rw [hans, activeForces, heq, sub_self, dotProduct_zero]
  refine if_neg fun h ↦ ?_
  rcases h with hfail | hlarge
  · exact Bool.false_ne_true (hok.symm.trans hfail)
  · exact (sq_nonneg (1 / 10000 : K)).not_gt hlarge

/-- **Contacts keep their own laws** when the coefficients with the indices of the active contacts
are their own and the first pivots can be made; and they do not where a coefficient is not. -/
theorem keepsOwnLaws (hinv : ExactInverse inv) :
    (IsUnit (P.normalBlock (P.solvedContacts presolve)) ∧ P.OwnCoefs (P.solvedContacts presolve) →
      P.KeepsOwnLaws presolve inv fresh) ∧
    (P.KeepsOwnLaws presolve inv fresh → P.OwnCoefs (P.solvedContacts presolve)) := by
  have hact : (P.solvedContacts presolve).Nodup := nodup_solvedContacts
  refine ⟨fun ⟨hunit, hown⟩ ↦ ⟨(isRestricted_iff hact).2 hown, ?_⟩,
    fun h ↦ (isRestricted_iff hact).1 h.restricted⟩
  intro solve init ans hok hs fk i hi
  have hforces : fk = P.writeForces (P.solvedContacts presolve) (toArray (P.putBack ans)) :=
    calcContactForce_eq (List.ne_nil_of_mem hi) rfl rfl hok hs.eq
  obtain ⟨i', rfl⟩ := List.mem_iff_get.1 hi
  have hlaw := frictionLaw_of_isSolution hact (isSolution_putBack hinv hunit hs) i'
  rw [hown i'] at hlaw
  rw [hforces]
  exact ⟨_, _, hlaw⟩

end Main

end Contacts

/-! ### Two contacts -/

/-- The directions of the cone, rounded. -/
def octagon (m : ℕ) : Vector3 ℚ :=
  let diag : ℚ := 7071 / 10000
  match m with
  | 0 => ![1, 0, 0]
  | 1 => ![diag, diag, 0]
  | 2 => ![0, 1, 0]
  | 3 => ![-diag, diag, 0]
  | 4 => ![-1, 0, 0]
  | 5 => ![-diag, -diag, 0]
  | 6 => ![0, -1, 0]
  | _ => ![diag, -diag, 0]

/-- A rough contact that separates, and one without friction where a body that slides is pushed
in. -/
def roughAndSmooth : Contacts 2 ℚ where
  nDiv := 8
  coneDir := octagon
  fricCoefs i := if i = 0 then 1 else 0
  phiHat x y := if x = y then 1 else 0
  biasHat x := if x = 2 then 1 else if x = 3 then 1 / 2 else if x = 5 then -1 else 0

/-- Only the second contact carries a force. -/
def secondOnly : Presolve 2 ℚ where
  failed := false
  g2 i := if i = 1 then 1 else 0
  g2w i := if i = 1 then some 1 else none

theorem solvedContacts_secondOnly : roughAndSmooth.solvedContacts secondOnly = [1] := by
  decide +kernel

/-- The same contacts with one coefficient. -/
def equalContacts : Contacts 2 ℚ :=
  { roughAndSmooth with fricCoefs := fun _ ↦ 1 / 2 }

theorem keepsOwnLaws_equalContacts :
    equalContacts.KeepsOwnLaws secondOnly adjugateInverse fun _ _ ↦ 0 := by
  refine (Contacts.keepsOwnLaws exactInverse_adjugateInverse).1 ⟨?_, fun _ ↦ rfl⟩
  have hdet : (equalContacts.normalBlock (equalContacts.solvedContacts secondOnly)).det = 1 := by
    decide +kernel
  rw [Matrix.isUnit_iff_isUnit_det, hdet]
  exact isUnit_one

/-- A solver that finds the friction that stops the sliding. -/
def stopsSliding (k : ℕ) (N : Matrix (Fin k) (Fin k) ℚ) (r : Fin k → ℚ) : Answer k ℚ :=
  let g2 : Fin k → ℚ := fun x ↦ if (x : ℕ) = 5 then 1 / 2 else 0
  { failed := false
    g2 := g2
    a := N *ᵥ g2 + r }

/-- It solves the equations that it is given. -/
theorem isSolution_stopsSliding :
    let init := roughAndSmooth.prePivot (roughAndSmooth.solvedContacts secondOnly) adjugateInverse
      fun _ _ ↦ 0
    IsSolution init.1 init.2 (stopsSliding _ init.1 init.2).g2
      (stopsSliding _ init.1 init.2).a := by
  refine ⟨rfl, ?_, ?_, ?_⟩
  · decide +kernel
  · decide +kernel
  · decide +kernel

/-- Without friction there is no tangential force. -/
theorem Contacts.FrictionLaw.tangential_eq_zero [Field K] [LinearOrder K] [IsStrictOrderedRing K]
    {P : Contacts n K} {f v : Vector3 K} {c : ℕ → K} {l : K} (h : P.FrictionLaw 0 f v c l)
    {d : Fin 3} (hd : d ≠ 2) : f d = 0 := by
  have hcone := h.cone
  rw [zero_mul] at hcone
  have hnonneg : ∀ m ∈ Finset.range P.nDiv, 0 ≤ c m := fun m hm ↦
    h.coef_nonneg m (Finset.mem_range.1 hm)
  have hzero := (Finset.sum_eq_zero_iff_of_nonneg hnonneg).1
    (hcone.antisymm (Finset.sum_nonneg hnonneg))
  rw [h.force d hd]
  exact Finset.sum_eq_zero fun m hm ↦ by rw [hzero m hm, mul_zero]

/-- The smooth contact takes the coefficient of the rough one: its equations are not those of all
contacts, and an exact solution gives it a force of friction. -/
theorem not_keepsOwnLaws :
    ExactInverse adjugateInverse ∧
      ¬ roughAndSmooth.IsRestricted (roughAndSmooth.solvedContacts secondOnly) ∧
      (let fk := roughAndSmooth.calcContactForce adjugateInverse (fun _ _ ↦ 0) stopsSliding
        secondOnly
      fk 1 0 = -1 / 2 ∧ ¬ ∃ c l, roughAndSmooth.FrictionLaw (roughAndSmooth.fricCoefs 1) (fk 1)
        (roughAndSmooth.velocity fk 1) c l) ∧
      ¬ roughAndSmooth.KeepsOwnLaws secondOnly adjugateInverse fun _ _ ↦ 0 := by
  have hrestricted :
      ¬ roughAndSmooth.IsRestricted (roughAndSmooth.solvedContacts secondOnly) := fun h ↦ by
    have hown := (Contacts.isRestricted_iff Contacts.nodup_solvedContacts).1 h
    rw [solvedContacts_secondOnly] at hown
    have hcoef : (1 : ℚ) = 0 := hown 0
    exact one_ne_zero hcoef
  have hforce : roughAndSmooth.calcContactForce adjugateInverse (fun _ _ ↦ 0) stopsSliding
      secondOnly 1 0 = -1 / 2 := by
    rw [Contacts.calcContactForce_eq (solvedContacts_secondOnly ▸ List.cons_ne_nil _ _) rfl rfl rfl
      isSolution_stopsSliding.eq]
    decide +kernel
  refine ⟨exactInverse_adjugateInverse, hrestricted, ⟨hforce, ?_⟩, fun h ↦
    hrestricted h.restricted⟩
  rintro ⟨c, l, hlaw⟩
  have hzero := Contacts.FrictionLaw.tangential_eq_zero (d := 0) hlaw (by decide)
  rw [hforce] at hzero
  norm_num at hzero

end OpenHRP.SDims
