import OpenHRP.Foundations.ClosedSurface
import Mathlib.Data.List.Rotate

/-!
# Clipping a polygon

A cyclic list of vertices has an edge from each vertex to the next one. Clipping the vertex between
two others leaves a cycle in which these follow each other, and a triangle: the edges of both are
those of the old cycle and the new diagonal in both directions (`cycleEdges_clip`).

So whatever is clipped in whatever order, the edges of the triangles and of the rest of the cycle
are those of the polygon, and diagonals in both directions; and no edge occurs twice while three
vertices are left (`Clipped`).
-/

variable {V : Type*}

/-- The directed edges of a cycle: from each vertex to the next one. -/
def cycleEdges (w : List V) : List (V × V) :=
  w.zip (w.rotate 1)

/-- Each edge of a list, in both directions. -/
def bothWays (D : List (V × V)) : List (V × V) :=
  D.flatMap fun d ↦ [d, d.swap]

theorem cycleEdges_rotate (w : List V) (i : ℕ) : (cycleEdges (w.rotate i)).Perm (cycleEdges w) := by
  have hzip : cycleEdges (w.rotate i) = (cycleEdges w).rotate i := by
    rw [cycleEdges, cycleEdges, List.rotate_rotate, Nat.add_comm, ← List.rotate_rotate]
    exact (List.zipWith_rotate_distrib Prod.mk w (w.rotate 1) i (List.length_rotate w 1).symm).symm
  rw [hzip]
  exact List.rotate_perm _ i

theorem map_fst_cycleEdges (w : List V) : (cycleEdges w).map Prod.fst = w :=
  List.map_fst_zip (List.length_rotate w 1).ge

theorem nodup_cycleEdges {w : List V} (h : w.Nodup) : (cycleEdges w).Nodup :=
  List.Nodup.of_map Prod.fst ((map_fst_cycleEdges w).symm ▸ h)

/-- A vertex is followed by one vertex. -/
theorem eq_of_mem_cycleEdges {w : List V} (h : w.Nodup) {u v v' : V} (hv : (u, v) ∈ cycleEdges w)
    (hv' : (u, v') ∈ cycleEdges w) : v = v' := by
  have hfst : ((cycleEdges w).map Prod.fst).Nodup := (map_fst_cycleEdges w).symm ▸ h
  exact congrArg Prod.snd (List.inj_on_of_nodup_map hfst hv hv' rfl)

theorem cycleEdges_cons (x : V) (l : List V) : cycleEdges (x :: l) = (x :: l).zip (l ++ [x]) := by
  rw [cycleEdges, List.rotate_cons_succ, List.rotate_zero]

/-- The edges from vertex to vertex, and from the last one to `z`. -/
theorem zip_append_singleton (x z : V) (l : List V) :
    (x :: l).zip (l ++ [z]) = (x :: l).zip l ++ [((x :: l).getLast (List.cons_ne_nil x l), z)] := by
  induction l generalizing x with
  | nil => rfl
  | cons y l ih =>
    rw [List.cons_append, List.zip_cons_cons, ih, List.zip_cons_cons, List.cons_append,
      List.getLast_cons (List.cons_ne_nil y l)]

/-- The last vertex is followed by the first one. -/
theorem last_mem_cycleEdges {x y : V} {l : List V}
    (hy : (x :: l).getLast (List.cons_ne_nil x l) = y) : (y, x) ∈ cycleEdges (x :: l) := by
  rw [cycleEdges_cons, zip_append_singleton, hy]
  exact List.mem_append_right _ (List.mem_singleton_self _)

/-! ### Clipping a vertex -/

section Clip

variable {c x y : V} {l : List V}

/-- **Clipping a vertex** `c` between `y` and `x`. -/
theorem cycleEdges_clip (hy : (x :: l).getLast (List.cons_ne_nil x l) = y) :
    (cycleEdges (x :: l) ++ triangleEdges (y, c, x)).Perm
      ((y, x) :: (x, y) :: cycleEdges (c :: x :: l)) := by
  have hold : cycleEdges (c :: x :: l) = (c, x) :: ((x :: l).zip l ++ [(y, c)]) := by
    rw [cycleEdges_cons, List.cons_append, List.zip_cons_cons, zip_append_singleton, hy]
  have hnew : cycleEdges (x :: l) = (x :: l).zip l ++ [(y, x)] := by
    rw [cycleEdges_cons, zip_append_singleton, hy]
  classical
  rw [hold, hnew, List.perm_iff_count]
  intro e
  simp only [triangleEdges, List.count_append, List.count_cons, List.count_nil]
  omega

/-- If there are two more vertices, the diagonal is not an edge of the cycle. -/
theorem diagonal_notMem (hy : (x :: l).getLast (List.cons_ne_nil x l) = y)
    (hw : (c :: x :: l).Nodup) (hl : 2 ≤ l.length) :
    y ≠ x ∧ (y, x) ∉ cycleEdges (c :: x :: l) ∧ (x, y) ∉ cycleEdges (c :: x :: l) := by
  obtain ⟨z, l, rfl⟩ := List.exists_cons_of_ne_nil
    (List.ne_nil_of_length_pos (by omega : 0 < l.length))
  obtain ⟨z', l, rfl⟩ := List.exists_cons_of_ne_nil
    (List.ne_nil_of_length_pos (by rw [List.length_cons] at hl; omega : 0 < l.length))
  have hmem : y ∈ z' :: l := by
    rw [← hy, List.getLast_cons (List.cons_ne_nil _ _), List.getLast_cons (List.cons_ne_nil _ _)]
    exact List.getLast_mem _
  have hxl : x ∉ z :: z' :: l := (List.nodup_cons.1 (List.nodup_cons.1 hw).2).1
  have hcx : c ≠ x := fun h ↦ (List.nodup_cons.1 hw).1 (h ▸ List.mem_cons_self)
  have hzl : z ∉ z' :: l := (List.nodup_cons.1 (List.nodup_cons.1 (List.nodup_cons.1 hw).2).2).1
  refine ⟨fun h ↦ hxl (h ▸ List.mem_cons_of_mem z hmem), fun h ↦ hcx ?_, fun h ↦ hzl ?_⟩
  · refine eq_of_mem_cycleEdges hw (last_mem_cycleEdges ?_) h
    rw [List.getLast_cons (List.cons_ne_nil _ _), hy]
  · have hz : (x, z) ∈ cycleEdges (c :: x :: z :: z' :: l) := by
      rw [cycleEdges_cons]
      exact List.mem_cons_of_mem _ List.mem_cons_self
    exact eq_of_mem_cycleEdges hw hz h ▸ hmem

end Clip

/-- The edges `E` of the triangles that have been clipped from the polygon with the edges `P`, and
the cycle `w` that is left. -/
structure Clipped (P E : List (V × V)) (w : List V) : Prop where
  perm : ∃ D, (E ++ cycleEdges w).Perm (P ++ bothWays D)
  nodup : (E ++ cycleEdges w).Nodup
  alive : ∀ u ∈ w, ∀ v ∈ w, (u, v) ∈ E → (v, u) ∈ cycleEdges w

namespace Clipped

variable {P E E' : List (V × V)} {w l : List V} {c x y : V}

theorem polygon (hw : w.Nodup) : Clipped (cycleEdges w) [] w where
  perm := ⟨[], by rw [bothWays, List.flatMap_nil, List.append_nil, List.nil_append]⟩
  nodup := nodup_cycleEdges hw
  alive _ _ _ _ h := absurd h List.not_mem_nil

theorem congr (h : Clipped P E w) (hE : E.Perm E') : Clipped P E' w where
  perm := by
    obtain ⟨D, hD⟩ := h.perm
    exact ⟨D, (hE.symm.append_right _).trans hD⟩
  nodup := (hE.append_right _).nodup_iff.1 h.nodup
  alive u hu v hv he := h.alive u hu v hv (hE.mem_iff.2 he)

theorem rotate (h : Clipped P E w) (i : ℕ) : Clipped P E (w.rotate i) where
  perm := by
    obtain ⟨D, hD⟩ := h.perm
    exact ⟨D, ((cycleEdges_rotate w i).append_left E).trans hD⟩
  nodup := ((cycleEdges_rotate w i).append_left E).nodup_iff.2 h.nodup
  alive u hu v hv he := (cycleEdges_rotate w i).mem_iff.2
    (h.alive u (List.mem_rotate.1 hu) v (List.mem_rotate.1 hv) he)

/-- The total of the edges after a vertex has been clipped. -/
theorem perm_clip (E : List (V × V)) (hy : (x :: l).getLast (List.cons_ne_nil x l) = y) :
    (E ++ triangleEdges (y, c, x) ++ cycleEdges (x :: l)).Perm
      ((y, x) :: (x, y) :: (E ++ cycleEdges (c :: x :: l))) := by
  have h := ((List.perm_append_comm.trans (cycleEdges_clip (c := c) hy)).append_left E)
  rw [List.append_assoc]
  exact h.trans (List.perm_append_comm.trans (.cons _ (.cons _ List.perm_append_comm)))

/-- The balance is kept also when fewer than three vertices are left. -/
theorem balance_clip (h : ∃ D, (E ++ cycleEdges (c :: x :: l)).Perm (P ++ bothWays D))
    (hy : (x :: l).getLast (List.cons_ne_nil x l) = y) :
    ∃ D, (E ++ triangleEdges (y, c, x) ++ cycleEdges (x :: l)).Perm (P ++ bothWays D) := by
  obtain ⟨D, hD⟩ := h
  refine ⟨(y, x) :: D, (perm_clip E hy).trans (((hD.cons _).cons _).trans ?_)⟩
  exact (List.perm_middle.trans (.cons _ List.perm_middle)).symm

/-- **A vertex is clipped** and three are left. -/
theorem clip (h : Clipped P E (c :: x :: l))
    (hy : (x :: l).getLast (List.cons_ne_nil x l) = y) (hw : (c :: x :: l).Nodup)
    (hl : 2 ≤ l.length) : Clipped P (E ++ triangleEdges (y, c, x)) (x :: l) := by
  obtain ⟨hne, hyx, hxy⟩ := diagonal_notMem hy hw hl
  have hyl : y ∈ x :: l := hy ▸ List.getLast_mem _
  have hxl : x ∈ x :: l := List.mem_cons_self
  have hc : ∀ v ∈ x :: l, v ≠ c := fun v hv hvc ↦ (List.nodup_cons.1 hw).1 (hvc ▸ hv)
  refine ⟨balance_clip h.perm hy, ?_, fun u hu v hv he ↦ ?_⟩
  · rw [(perm_clip E hy).nodup_iff, List.nodup_cons, List.nodup_cons, List.mem_cons, not_or]
    refine ⟨⟨fun heq ↦ hne (Prod.mk.inj heq).1, fun he ↦ ?_⟩, fun he ↦ ?_, h.nodup⟩
    · rcases List.mem_append.1 he with he | he
      · exact hxy (h.alive y (.tail _ hyl) x (.tail _ hxl) he)
      · exact hyx he
    · rcases List.mem_append.1 he with he | he
      · exact hyx (h.alive x (.tail _ hxl) y (.tail _ hyl) he)
      · exact hxy he
  · rcases List.mem_append.1 he with he | he
    · have hold := h.alive u (.tail _ hu) v (.tail _ hv) he
      have hnew := (cycleEdges_clip hy).mem_iff.2 (.tail _ (.tail _ hold))
      rcases List.mem_append.1 hnew with hnew | hnew
      · exact hnew
      · rcases mem_triangleEdges.1 hnew with heq | heq | heq
        · exact absurd (Prod.mk.inj heq).2 (hc u hu)
        · exact absurd (Prod.mk.inj heq).1 (hc v hv)
        · exact absurd (heq ▸ hold) hxy
    · rcases mem_triangleEdges.1 he with heq | heq | heq
      · exact absurd (Prod.mk.inj heq).2 (hc v hv)
      · exact absurd (Prod.mk.inj heq).1 (hc u hu)
      · obtain ⟨rfl, rfl⟩ := Prod.mk.inj heq
        exact last_mem_cycleEdges hy

/-- The last three vertices make a triangle. -/
theorem clip_last (h : Clipped P E [c, x, y]) :
    (E ++ triangleEdges (y, c, x)).Nodup ∧
      ∃ D, (E ++ triangleEdges (y, c, x)).Perm (P ++ bothWays D) := by
  have hperm : (E ++ triangleEdges (y, c, x)).Perm (E ++ cycleEdges [c, x, y]) := by
    refine .append_left E ?_
    exact (List.Perm.swap _ _ _).trans (.cons _ (.swap _ _ _))
  obtain ⟨D, hD⟩ := h.perm
  exact ⟨hperm.nodup_iff.2 h.nodup, D, hperm.trans hD⟩

end Clipped

/-! ### Clipping the vertex at a place -/

section ClipAt

variable {w : List V} {i : ℕ} {c x y : V}

theorem rotate_eq_cons (hi : i < w.length) : w.rotate i = w[i] :: (w.eraseIdx i).rotate i := by
  have hlen : (w.take i).length = i := List.length_take_of_le hi.le
  have herase : (w.eraseIdx i).rotate i = w.drop (i + 1) ++ w.take i := by
    have h := List.rotate_append_length_eq (w.take i) (w.drop (i + 1))
    rw [hlen] at h
    rw [List.eraseIdx_eq_take_drop_succ, h]
  rw [herase, List.rotate_eq_drop_append_take hi.le, List.drop_eq_getElem_cons hi, List.cons_append]

/-- The list that begins with the vertex at a place, and what is left without it. -/
theorem exists_rotate_corner (hw : 2 ≤ w.length) (hy : w[(i + w.length - 1) % w.length]? = some y)
    (hc : w[i]? = some c) (hx : w[(i + 1) % w.length]? = some x) :
    ∃ l, w.rotate i = c :: x :: l ∧ (w.eraseIdx i).rotate i = x :: l ∧
      (x :: l).getLast (List.cons_ne_nil x l) = y := by
  obtain ⟨hi, hci⟩ := List.getElem?_eq_some_iff.1 hc
  have hrot := rotate_eq_cons hi
  rw [hci] at hrot
  have hlen : (w.rotate i).length = w.length := List.length_rotate w i
  rcases herase : (w.eraseIdx i).rotate i with - | ⟨x', l⟩
  · rw [hrot, herase, List.length_singleton] at hlen
    omega
  · rw [herase] at hrot
    rw [hrot, List.length_cons, List.length_cons] at hlen
    have hx' : x = x' := by
      have h1 : (w.rotate i)[1]? = some x := by
        rw [List.getElem?_rotate (by omega), Nat.add_comm 1 i, hx]
      rw [hrot] at h1
      exact (Option.some.inj h1).symm
    subst hx'
    refine ⟨l, hrot, rfl, ?_⟩
    have hlast : (w.rotate i)[l.length + 1]? = some y := by
      rw [List.getElem?_rotate (by omega), ← hy]
      congr 2
      omega
    rw [hrot, List.getElem?_cons_succ] at hlast
    rw [List.getLast_eq_getElem]
    obtain ⟨_, hlast⟩ := List.getElem?_eq_some_iff.1 hlast
    exact hlast

namespace Clipped

variable {P E : List (V × V)}

theorem of_rotate (h : Clipped P E (w.rotate i)) : Clipped P E w := by
  obtain ⟨k, hk⟩ := (List.IsRotated.symm ⟨i, rfl⟩ : (w.rotate i).IsRotated w)
  exact hk ▸ h.rotate k

/-- A vertex is clipped and three are left. -/
theorem eraseIdx (h : Clipped P E w) (hnodup : w.Nodup) (hw : 4 ≤ w.length)
    (hy : w[(i + w.length - 1) % w.length]? = some y) (hc : w[i]? = some c)
    (hx : w[(i + 1) % w.length]? = some x) :
    Clipped P (E ++ triangleEdges (y, c, x)) (w.eraseIdx i) := by
  obtain ⟨l, hrot, herase, hlast⟩ := exists_rotate_corner (by omega) hy hc hx
  have hlen : (w.rotate i).length = w.length := List.length_rotate w i
  rw [hrot, List.length_cons, List.length_cons] at hlen
  have hcl : Clipped P E (c :: x :: l) := hrot ▸ h.rotate i
  refine of_rotate (i := i) ?_
  rw [herase]
  exact hcl.clip hlast (hrot ▸ List.nodup_rotate.2 hnodup) (by omega)

/-- The last triangle is cut off: two vertices are left. -/
theorem eraseIdx_last (h : Clipped P E w) (hw : w.length = 3)
    (hy : w[(i + w.length - 1) % w.length]? = some y) (hc : w[i]? = some c)
    (hx : w[(i + 1) % w.length]? = some x) :
    (E ++ triangleEdges (y, c, x)).Nodup ∧
      (∃ D, (E ++ triangleEdges (y, c, x)).Perm (P ++ bothWays D)) ∧
      ∃ D, (E ++ triangleEdges (y, c, x) ++ cycleEdges (w.eraseIdx i)).Perm (P ++ bothWays D) := by
  obtain ⟨l, hrot, herase, hlast⟩ := exists_rotate_corner (by omega) hy hc hx
  have hlen : (w.rotate i).length = w.length := List.length_rotate w i
  rw [hrot, List.length_cons, List.length_cons] at hlen
  obtain ⟨z, rfl⟩ := List.length_eq_one_iff.1 (by omega : l.length = 1)
  have hzy : z = y := hlast
  subst hzy
  have hcl : Clipped P E [c, x, z] := hrot ▸ h.rotate i
  obtain ⟨hnodup, hD⟩ := hcl.clip_last
  obtain ⟨D, hbal⟩ := balance_clip hcl.perm hlast
  refine ⟨hnodup, hD, D, .trans (.append_left _ ?_) hbal⟩
  rw [← herase]
  exact (cycleEdges_rotate _ i).symm

end Clipped

end ClipAt
