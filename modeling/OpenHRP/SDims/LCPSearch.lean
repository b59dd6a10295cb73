import OpenHRP.SDims.BestFirstStates
import OpenHRP.SDims.LCPInverse

/-!
# What the search for pivots returns

At every node that the search can create, the labels say where the variables are, and the inverse,
the column and the right-hand side are those of a dictionary of the equations (`IsNode`): a child is
one exchange of variables further than its parent (`IsNode.child`). While the artificial variable is
in `w`, one index has neither of its variables there.

`solvePivot2_spec` says that what is returned as a solution is one, up to the tolerance.
-/

namespace OpenHRP.LCP

variable {n : ℕ} {K : Type*} [Field K] [LinearOrder K]

/-! ### The rows that may leave -/

/-- What `min_new_q` has compared with the tolerance when it accepts a row. -/
theorem le_minNewQLoop {maxError qm minQ : K} {q mJr : Fin n → K} {rows : List (Fin n)}
    (h : -maxError ≤ LcpProblem.minNewQLoop maxError qm q mJr rows minQ) :
    -maxError ≤ minQ ∧ ∀ i ∈ rows, -maxError ≤ q i + mJr i * qm := by
  induction rows generalizing minQ with
  | nil => exact ⟨h, nofun⟩
  | cons i rows ih =>
    rw [LcpProblem.minNewQLoop] at h
    split at h
    · next hlt => exact absurd h hlt.not_ge
    · next hle =>
      obtain ⟨hmin, hrows⟩ := ih h
      refine ⟨?_, List.forall_mem_cons.2 ⟨not_lt.1 hle, hrows⟩⟩
      split at hmin
      · next hlt => exact hmin.trans hlt.le
      · exact hmin

/-- The right-hand side after the pivot is above the tolerance. -/
theorem le_exchangeConst {M : Matrix (Fin n) (Fin (n + 1)) K} {q : Fin n → K} {maxError : K}
    {js : Fin n} {jr : Fin (n + 1)}
    (h : -maxError ≤ LcpProblem.minNewQ maxError q (fun i ↦ M i jr) js) (i : Fin n) :
    -maxError ≤ exchangeConst M q js jr i := by
  obtain ⟨hqm, hrows⟩ := le_minNewQLoop h
  rw [exchangeConst]
  split
  · exact hqm
  · exact hrows i (List.mem_finRange i)

namespace LcpProblem

variable [CMath K] {P : LcpProblem n K}

/-- A row that the loop of `create_child_nodes` accepts. -/
def Accepts (P : LcpProblem n K) (initial : Bool) (q mJr : Fin n → K) (j : Fin n) : Prop :=
  (initial ∨ mJr j < 0) ∧ -P.maxError ≤ minNewQ P.maxError q mJr j

omit [CMath K] in
theorem findRows_spec (L : Labels n) (initial : Bool) (q mJr : Fin n → K) (rows : List (Fin n))
    {cand : List (Fin n × K)} (hcand : ∀ c ∈ cand, P.Accepts initial q mJr c.1) :
    (∀ j ∈ (P.findRows L initial q mJr rows cand).1, P.Accepts initial q mJr j) ∧
      ∀ c ∈ (P.findRows L initial q mJr rows cand).2, P.Accepts initial q mJr c.1 := by
  induction rows generalizing cand with
  | nil => exact ⟨nofun, hcand⟩
  | cons j rows ih =>
    rw [findRows]
    split
    · next hneg =>
      dsimp only
      split
      · next hg0 =>
        refine ⟨fun j' hj' ↦ ?_, hcand⟩
        cases hj'
        exact ⟨hneg, hg0.2⟩
      · split
        · next hle =>
          refine ih fun c hc ↦ ?_
          obtain hc | hc := List.mem_append.1 hc
          · exact hcand c hc
          · rw [List.mem_singleton.1 hc]
            exact ⟨hneg, hle⟩
        · exact ih hcand
    · exact ih hcand

/-- A child is a node for a row that is accepted. -/
theorem exists_newNode {s c : LcpNode n K} {cost : K} (h : some (c, cost) ∈ P.createChildNodes s) :
    ∃ newJr js, s.newJr = some newJr ∧
      P.Accepts s.js.isNone (P.qAt s) (P.columnAt s newJr) js ∧
      c = P.newNode (P.maaInv s) (P.qAt s) s.labels (s.nSteps + 1) (some js) newJr := by
  rw [createChildNodes] at h
  split at h
  · cases h
  · next newJr hjr =>
    dsimp only at h
    split at h
    · cases h
    · obtain ⟨hrow, hcand⟩ := P.findRows_spec s.labels s.js.isNone (P.qAt s)
        (P.columnAt s newJr) (List.finRange n) fun _ h ↦ absurd h List.not_mem_nil
      split at h
      · next js cand hfind =>
        rw [List.mem_singleton, Option.some_inj] at h
        rw [hfind] at hrow
        exact ⟨newJr, js, hjr, hrow js rfl, congrArg Prod.fst h⟩
      · next cand hfind =>
        obtain ⟨c', hc', heq⟩ := List.mem_map.1 h
        rw [hfind] at hcand
        exact ⟨newJr, c'.1, hjr, hcand c' hc', (congrArg Prod.fst (Option.some_inj.1 heq)).symm⟩

end LcpProblem

/-! ### The nodes -/

section Nodes

variable [CMath K] {P : LcpProblem n K} {s : LcpNode n K} {e : Var n ≃ Var n}
  {D : Dictionary (extended P.N) P.r e}

/-- The data of a node are those of a dictionary. -/
structure Agrees (P : LcpProblem n K) (s : LcpNode n K) (e : Var n ≃ Var n)
    (D : Dictionary (extended P.N) P.r e) : Prop where
  places : s.labels.Places e
  qAt : P.qAt s = D.const
  columnAt : ∀ jr, P.columnAt s jr = fun i ↦ D.coeff i jr
  maaInv : HoldsInverse s.labels D (P.maaInv s)

/-- The three kinds of nodes: the start, those where one index has no variable in `w`, whose
variable is the next to come, and the goals. -/
inductive Stage (P : LcpProblem n K) (s : LcpNode n K) (e : Var n ≃ Var n)
    (D : Dictionary (extended P.N) P.r e) : Prop
  | start (hgoal : s.terminate = false) (hjs : s.js = none) (hjr : s.newJr = some (Fin.last n))
    (he : e = Equiv.refl _)
  | lacks (k : Fin n) (jr : Fin (n + 1)) (hgoal : s.terminate = false) (hjs : s.js.isNone = false)
    (hjr : s.newJr = some jr) (hk : Lacks e k) (hisOf : IsOf k (e (.inr jr)))
  | goal (hgoal : s.terminate = true) (hjr : s.newJr = none) (he : Complementary e)
    (hq : s.qOld = D.const) (hle : ∀ i, -P.maxError ≤ D.const i)

/-- What holds of a node. -/
def IsNode (P : LcpProblem n K) (s : LcpNode n K) : Prop :=
  ∃ e D, Agrees P s e D ∧ Stage P s e D

omit [CMath K] in
theorem isNode_startNode (P : LcpProblem n K) : IsNode P P.startNode := by
  refine ⟨Equiv.refl _, Dictionary.refl _ _, ⟨Labels.places_initial n, rfl, fun _ ↦ rfl, ?_⟩,
    .start rfl rfl rfl rfl⟩
  intro t t' g a hg
  obtain ⟨i, hi⟩ := (Labels.places_initial n).inW_of_gPiv hg
  cases hi

omit [LinearOrder K] [CMath K] in
/-- The data of a child are those of the dictionary after the exchange. -/
theorem Agrees.child (h : Agrees P s e D) {js : Fin n} {jr : Fin (n + 1)}
    (hne : D.coeff js jr ≠ 0) (q : Fin n → K) (nSteps : ℕ) :
    Agrees P (P.newNode (P.maaInv s) q s.labels nSteps (some js) jr) (exchanged e js jr)
      (D.exchange js jr hne) := by
  have hplaces := h.places.swapIndex js jr
  have hinv := holdsInverse_newMinv hne h.places h.maaInv
  exact ⟨hplaces, constOf_eq hplaces hinv, fun jr' ↦ columnOf_eq hplaces hinv jr', hinv⟩

/-- Where neither variable of an index is in `w`, the complement of each has a column. -/
theorem exists_complementColumn {L : Labels n} (hL : L.Places e) {k : Fin n} {v : Var n}
    (hk : Lacks e k) (hv : IsOf k v) :
    ∃ jr, complementColumn L v.getLeft? v.getRight? = some jr ∧ IsOf k (e (.inr jr)) := by
  have hsome : (complementColumn L v.getLeft? v.getRight?).isSome := by
    rcases hv with rfl | rfl
    · obtain ⟨j, hj⟩ := not_inW_iff.1 hk.not_g
      exact List.find?_isSome.2 ⟨j, List.mem_finRange j, by simp [hL.z2g, hj]⟩
    · obtain ⟨j, hj⟩ := not_inW_iff.1 hk.not_a
      exact List.find?_isSome.2 ⟨j, List.mem_finRange j, by simp [hL.z2a, hj]⟩
  obtain ⟨jr, hjr⟩ := Option.isSome_iff_exists.1 hsome
  obtain ⟨i, hi, hi'⟩ := isOf_complementColumn hL hjr
  exact ⟨jr, hjr, hi.eq hv ▸ hi'⟩

theorem complementColumn_last (L : Labels n) :
    complementColumn L none (some (Fin.last n)) = none := by
  refine List.find?_eq_none.2 fun j _ h ↦ ?_
  obtain ⟨a, -, ha⟩ := Option.map_eq_some_iff.1 (of_decide_eq_true h)
  exact Fin.castSucc_ne_last a ha

omit [CMath K] in
/-- A child of a node, for a row whose pivot keeps the right-hand side above the tolerance. -/
theorem Agrees.stage_child (h : Agrees P s e D) {js : Fin n} {jr : Fin (n + 1)}
    (hne : D.coeff js jr ≠ 0) (hlacks : ∀ i, IsOf i (e (.inl js)) → Lacks (exchanged e js jr) i)
    (hcomplementary : e (.inl js) = .inr (Fin.last n) → Complementary (exchanged e js jr))
    (hle : ∀ i, -P.maxError ≤ exchangeConst D.coeff D.const js jr i) (q : Fin n → K) (nSteps : ℕ) :
    Stage P (P.newNode (P.maaInv s) q s.labels nSteps (some js) jr) (exchanged e js jr)
      (D.exchange js jr hne) := by
  have hchild := h.child hne q nSteps
  set c := P.newNode (P.maaInv s) q s.labels nSteps (some js) jr with hc
  have hys2a : s.labels.w2a js = (e (.inl js)).getLeft? := h.places.w2a js
  have hys2g : s.labels.w2g js = (e (.inl js)).getRight? := h.places.w2g js
  have hterminate : c.terminate = decide ((e (.inl js)).getRight? = some (Fin.last n)) := by
    rw [← hys2g]
    rfl
  have hnewJr : c.newJr =
      complementColumn c.labels (e (.inl js)).getLeft? (e (.inl js)).getRight? := by
    rw [← hys2a, ← hys2g]
    rfl
  have hlacks' (i : Fin n) (hi : IsOf i (e (.inl js))) (hgoal : c.terminate = false) :
      Stage P c (exchanged e js jr) (D.exchange js jr hne) := by
    obtain ⟨jr', hjr', hisOf⟩ := exists_complementColumn hchild.places (hlacks i hi) hi
    exact .lacks i jr' hgoal rfl (hnewJr.trans hjr') (hlacks i hi) hisOf
  rcases hv : e (.inl js) with a | g
  · exact hlacks' a (.inl hv) (by rw [hterminate, hv]; rfl)
  · rcases Fin.eq_castSucc_or_eq_last g with ⟨a, rfl⟩ | rfl
    · refine hlacks' a (.inr hv) (by rw [hterminate, hv]; simp [Fin.castSucc_ne_last])
    · have hgoal : c.terminate = true := by rw [hterminate, hv]; simp
      refine .goal hgoal ?_ (hcomplementary hv) ?_ hle
      · rw [hnewJr, hv]
        exact complementColumn_last _
      · rw [← hchild.qAt]
        exact if_pos hgoal

/-- **A child of a node is a node**, one exchange further. -/
theorem IsNode.child (h : IsNode P s) {c : LcpNode n K} {cost : K}
    (hc : some (c, cost) ∈ P.createChildNodes s) : IsNode P c := by
  obtain ⟨e, D, hagrees, hstage⟩ := h
  obtain ⟨newJr, js, hjr, ⟨hneg, hmin⟩, rfl⟩ := LcpProblem.exists_newNode hc
  rw [hagrees.qAt, hagrees.columnAt] at hmin
  rw [hagrees.columnAt] at hneg
  have hle := le_exchangeConst hmin
  rcases hstage with ⟨-, hjs, hlast, rfl⟩ | ⟨k, jr, -, hjs, hjr', hk, hisOf⟩ | ⟨-, hnone, -⟩
  · obtain rfl : newJr = Fin.last n := Option.some_inj.1 (hjr.symm.trans hlast)
    have hone : P.columnAt s (Fin.last n) js = 1 := by
      rw [LcpProblem.columnAt, hjs]
      exact Fin.snoc_last (α := fun _ ↦ K) _ _
    have hne : D.coeff js (Fin.last n) ≠ 0 := by
      rw [hagrees.columnAt] at hone
      exact ne_of_eq_of_ne hone one_ne_zero
    refine ⟨_, _, hagrees.child hne _ _, hagrees.stage_child hne (fun i hi ↦ ?_) nofun hle _ _⟩
    exact hi.eq (.inl rfl) ▸ lacks_start js
  · obtain rfl : newJr = jr := Option.some_inj.1 (hjr.symm.trans hjr')
    rw [hjs] at hneg
    have hne : D.coeff js newJr ≠ 0 := (hneg.resolve_left Bool.false_ne_true).ne
    exact ⟨_, _, hagrees.child hne _ _, hagrees.stage_child hne (fun i hi ↦ hk.exchange hisOf hi)
      (hk.complementary hisOf) hle _ _⟩
  · rw [hnone] at hjr
    cases hjr

/-- The nodes that the search can create: the start node, and those that `create_child_nodes` makes
of one that has been created. -/
def LcpProblem.Created (P : LcpProblem n K) (s : LcpNode n K) : Prop :=
  ∃ cost, WeightedPath P.searchProblem.Edge P.startNode s cost

theorem isNode_of_created (h : P.Created s) : IsNode P s := by
  obtain ⟨cost, hpath⟩ := h
  induction hpath with
  | nil => exact isNode_startNode P
  | snoc _ hedge ih => exact ih.child hedge

/-- An index that has neither of its variables in `w`. -/
def Labels.Missing (L : Labels n) (i : Fin n) : Prop :=
  (∀ j, L.w2a j ≠ some i) ∧ ∀ j, L.w2g j ≠ some i.castSucc

omit [Field K] [LinearOrder K] [CMath K] in
theorem Labels.Places.missing_iff {L : Labels n} (hL : L.Places e) {i : Fin n} :
    L.Missing i ↔ ¬InW e (.inl i) ∧ ¬InW e (.inr i.castSucc) := by
  simp only [Labels.Missing, InW, not_exists, hL.w2a, hL.w2g, ne_eq, Sum.getLeft?_eq_some_iff,
    Sum.getRight?_eq_some_iff]

omit [CMath K] in
/-- With the artificial variable in `w`, one index is missing there. -/
theorem IsNode.existsUnique_missing (h : IsNode P s)
    (hartificial : ∃ j, s.labels.w2g j = some (Fin.last n)) : ∃! i, s.labels.Missing i := by
  obtain ⟨e, D, hagrees, hstage⟩ := h
  have hin : InW e (.inr (Fin.last n)) := by
    obtain ⟨j, hj⟩ := hartificial
    rw [hagrees.places.w2g, Sum.getRight?_eq_some_iff] at hj
    exact ⟨j, hj⟩
  rcases hstage with ⟨-, -, -, rfl⟩ | ⟨k, jr, -, -, -, hk, -⟩ | ⟨-, -, he, -⟩
  · exact absurd hin (not_inW_iff.2 ⟨Fin.last n, rfl⟩)
  · refine ⟨k, hagrees.places.missing_iff.2 ⟨hk.not_a, hk.not_g⟩, fun i hi ↦ ?_⟩
    by_contra hik
    obtain ⟨ha, hg⟩ := hagrees.places.missing_iff.1 hi
    exact ha ((hk.one i hik).2 hg)
  · exact absurd hin he.artificial

/-- A solution of the complementarity problem up to a tolerance. -/
structure IsSolutionWithin (N : Matrix (Fin n) (Fin n) K) (r : Fin n → K) (maxError : K)
    (g a : Fin n → K) : Prop where
  eq : N.mulVec g + r = a
  le_g : ∀ i, -maxError ≤ g i
  le_a : ∀ i, -maxError ≤ a i
  complementary : ∀ i, g i = 0 ∨ a i = 0

omit [CMath K] in
/-- What is read from the labels of a goal is a solution. -/
theorem IsNode.isSolutionWithin [IsStrictOrderedRing K] (h : IsNode P s)
    (hgoal : s.terminate = true) (herror : 0 ≤ P.maxError) :
    IsSolutionWithin P.N P.r P.maxError (fun i ↦ gValues s.labels s.qOld i.castSucc)
      (aValues s.labels s.qOld) := by
  obtain ⟨e, D, hagrees, hstage⟩ := h
  rcases hstage with ⟨hnot, -⟩ | ⟨_, _, hnot, -⟩ | ⟨-, -, he, hq, hle⟩
  · rw [hnot] at hgoal
    cases hgoal
  · rw [hnot] at hgoal
    cases hgoal
  · obtain ⟨hsatisfies, hzero⟩ := basicSolution_complementary he D
    have hbound := le_basicSolution (neg_nonpos.2 herror) D hle
    have hg : (fun i : Fin n ↦ gValues s.labels s.qOld i.castSucc) =
        fun i ↦ D.basicSolution (.inr i.castSucc) :=
      funext fun i ↦ hq ▸ gValues_eq hagrees.places D i.castSucc
    have ha : aValues s.labels s.qOld = fun i ↦ D.basicSolution (.inl i) :=
      funext fun i ↦ hq ▸ aValues_eq hagrees.places D i
    rw [hg, ha]
    exact ⟨funext hsatisfies, fun i ↦ hbound _, fun i ↦ hbound _, hzero⟩

/-- **The search for pivots returns only solutions**, and at every node that it can create, the
labels place each variable exactly once, and with the artificial variable in `w`, exactly one index
has neither of its variables there. -/
theorem solvePivot2_spec [IsStrictOrderedRing K] (P : LcpProblem n K) (herror : 0 < P.maxError)
    (maxNodes : ℤ) (totalAstarCost : Option K) (fuel : ℕ) :
    (∀ res, P.solvePivot2 maxNodes totalAstarCost fuel = some res → res.failed = false →
        IsSolutionWithin P.N P.r P.maxError res.g res.a) ∧
      (∀ x dp, DpMain.search P.searchProblem maxNodes 1 fuel
          (DpMain.setStartNode P.searchProblem P.startNode totalAstarCost DpMain.new) =
            some (x, dp) → ∀ node ∈ dp.nodes, P.Created node.state) ∧
      ∀ s, P.Created s → (∃ e, s.labels.Places e) ∧
        ((∃ j, s.labels.w2g j = some (Fin.last n)) → ∃! i, s.labels.Missing i) := by
  refine ⟨fun res hsolve hok ↦ ?_, fun x dp hsearch node hnode ↦ ?_, fun s hs ↦ ?_⟩
  · rw [LcpProblem.solvePivot2] at hsolve
    split at hsolve
    · next hr =>
      cases hsolve
      refine ⟨by rw [Matrix.mulVec_zero, zero_add], fun _ ↦ neg_nonpos.2 herror.le, fun i ↦ ?_,
        fun _ ↦ .inl rfl⟩
      exact (neg_nonpos.2 herror.le).trans (hr i)
    · split at hsolve
      · cases hsolve
      · next x dp hsearch =>
        split at hsolve
        · cases hsolve
          cases hok
        · next goal hgoal =>
          obtain ⟨active, hmem, hterminate⟩ := DpQueue.mem_of_first hgoal
          have hnode : IsNode P goal.state :=
            isNode_of_created ⟨_, (DpMain.onPaths_search hsearch).queue _ hmem⟩
          dsimp only at hsolve
          split at hsolve
          · cases hsolve
            exact hnode.isSolutionWithin hterminate herror.le
          · cases hsolve
  · exact ⟨_, (DpMain.onPaths_search hsearch).nodes node hnode⟩
  · have hnode := isNode_of_created hs
    refine ⟨?_, hnode.existsUnique_missing⟩
    obtain ⟨e, D, hagrees, -⟩ := hnode
    exact ⟨e, hagrees.places⟩

/-- One contact that is pushed in, with a rational function for the costs. -/
def pushedContact : LcpProblem 1 ℚ where
  N := 1
  r _ := -1
  maxError := 1 / 1000
  exp x := 1 / (1 - x)

theorem solvePivot2_spec_pushedContact :
    ∃ res, pushedContact.solvePivot2 50 none 3 = some res ∧ res.failed = false ∧ res.g 0 = 1 ∧
      IsSolutionWithin pushedContact.N pushedContact.r pushedContact.maxError res.g res.a := by
  have hrun : (pushedContact.solvePivot2 50 none 3).map (fun res ↦ (res.failed, res.g 0)) =
      some (false, 1) := by
    decide +kernel
  obtain ⟨res, hres, hok⟩ := Option.map_eq_some_iff.1 hrun
  obtain ⟨hfailed, hg⟩ := Prod.ext_iff.1 hok
  have hspec := solvePivot2_spec pushedContact (by decide +kernel) 50 none 3
  exact ⟨res, hres, hfailed, hg, hspec.1 res hres hfailed⟩

end Nodes

end OpenHRP.LCP
