import Mathlib.Data.List.Nodup
import Mathlib.Data.List.Perm.Basic
import Mathlib.Data.Set.Function

/-!
# Closed oriented surfaces

A list of triangles is a closed oriented surface if every directed edge occurs once and its reverse
occurs in another triangle. It is enough to tell for each directed edge in which triangle it is
(`IsClosedSurface.of_faceOf`).

The **capped tube** is the surface of rings of `n` vertices, one below the other, that strips of
triangles join and a fan of triangles closes at either end.
-/

variable {V W : Type*}

/-! ### Triangles and their edges -/

/-- The directed edges of a triangle. -/
def triangleEdges (t : V × V × V) : List (V × V) :=
  [(t.1, t.2.1), (t.2.1, t.2.2), (t.2.2, t.1)]

/-- The vertices of a triangle are distinct. -/
def IsProperTriangle (t : V × V × V) : Prop :=
  t.1 ≠ t.2.1 ∧ t.2.1 ≠ t.2.2 ∧ t.2.2 ≠ t.1

/-- Every directed edge is in one triangle, and its reverse is in another one. -/
structure IsClosedSurface (T : List (V × V × V)) : Prop where
  nodup : (T.flatMap triangleEdges).Nodup
  opposite : ∀ t ∈ T, ∀ e ∈ triangleEdges t, ∃ t' ∈ T, t' ≠ t ∧ e.swap ∈ triangleEdges t'

theorem mem_triangleEdges {t : V × V × V} {e : V × V} :
    e ∈ triangleEdges t ↔ e = (t.1, t.2.1) ∨ e = (t.2.1, t.2.2) ∨ e = (t.2.2, t.1) := by
  simp [triangleEdges]

theorem IsProperTriangle.nodup_triangleEdges {t : V × V × V} (h : IsProperTriangle t) :
    (triangleEdges t).Nodup := by
  obtain ⟨x, y, z⟩ := t
  obtain ⟨hxy, hyz, hzx⟩ := h
  simp [triangleEdges, hxy, hyz, hzx.symm]

/-- A triangle has no edge in both directions. -/
theorem IsProperTriangle.swap_notMem {t : V × V × V} (h : IsProperTriangle t) {e : V × V}
    (he : e ∈ triangleEdges t) : e.swap ∉ triangleEdges t := by
  obtain ⟨x, y, z⟩ := t
  obtain ⟨hxy, hyz, hzx⟩ := h
  rcases mem_triangleEdges.1 he with rfl | rfl | rfl
  · simp [triangleEdges, hxy, hyz, hzx.symm]
  · simp [triangleEdges, hxy.symm, hyz, hzx]
  · simp [triangleEdges, hxy, hyz.symm, hzx]

namespace IsClosedSurface

variable {T : List (V × V × V)}

/-- A surface is closed if a function tells the triangle of each directed edge, and knows the
reverse of each edge. -/
theorem of_faceOf (hT : T.Nodup) (hproper : ∀ t ∈ T, IsProperTriangle t)
    (faceOf : V × V → V × V × V)
    (hface : ∀ t ∈ T, ∀ e ∈ triangleEdges t, faceOf e = t)
    (hswap : ∀ t ∈ T, ∀ e ∈ triangleEdges t,
      faceOf e.swap ∈ T ∧ e.swap ∈ triangleEdges (faceOf e.swap)) : IsClosedSurface T where
  nodup := by
    refine List.nodup_flatMap.2 ⟨fun t ht ↦ (hproper t ht).nodup_triangleEdges, ?_⟩
    refine hT.imp_of_mem fun {t t'} ht ht' hne ↦ ?_
    exact List.disjoint_left.2 fun e he he' ↦
      hne ((hface t ht e he).symm.trans (hface t' ht' e he'))
  opposite t ht e he := by
    obtain ⟨hmem, hedge⟩ := hswap t ht e he
    refine ⟨_, hmem, fun heq ↦ ?_, hedge⟩
    rw [heq] at hedge
    exact (hproper t ht).swap_notMem he hedge

theorem perm {T' : List (V × V × V)} (h : IsClosedSurface T) (hp : T.Perm T') :
    IsClosedSurface T' where
  nodup := (hp.flatMap_right triangleEdges).nodup_iff.1 h.nodup
  opposite t ht e he := by
    obtain ⟨t', ht', hne, hmem⟩ := h.opposite t (hp.mem_iff.2 ht) e he
    exact ⟨t', hp.mem_iff.1 ht', hne, hmem⟩

end IsClosedSurface

/-! ### Other vertices -/

/-- A triangle with its vertices replaced. -/
def mapTriangle (g : V → W) (t : V × V × V) : W × W × W :=
  (g t.1, g t.2.1, g t.2.2)

theorem triangleEdges_mapTriangle (g : V → W) (t : V × V × V) :
    triangleEdges (mapTriangle g t) = (triangleEdges t).map (Prod.map g g) :=
  rfl

/-- Distinct numbers for the vertices of a surface. -/
theorem IsClosedSurface.map {T : List (V × V × V)} (h : IsClosedSurface T) {g : V → W} {S : Set V}
    (hg : Set.InjOn g S) (hS : ∀ t ∈ T, t.1 ∈ S ∧ t.2.1 ∈ S ∧ t.2.2 ∈ S) :
    IsClosedSurface (T.map (mapTriangle g)) where
  nodup := by
    have hedges : (T.map (mapTriangle g)).flatMap triangleEdges =
        (T.flatMap triangleEdges).map (Prod.map g g) := by
      rw [List.flatMap_map, List.map_flatMap]
      rfl
    rw [hedges]
    refine h.nodup.map_on fun e he e' he' heq ↦ ?_
    have hends : ∀ e ∈ T.flatMap triangleEdges, e.1 ∈ S ∧ e.2 ∈ S := by
      intro e he
      obtain ⟨t, ht, he⟩ := List.mem_flatMap.1 he
      obtain ⟨hx, hy, hz⟩ := hS t ht
      rcases mem_triangleEdges.1 he with rfl | rfl | rfl
      · exact ⟨hx, hy⟩
      · exact ⟨hy, hz⟩
      · exact ⟨hz, hx⟩
    obtain ⟨h₁, h₂⟩ := hends e he
    obtain ⟨h₁', h₂'⟩ := hends e' he'
    obtain ⟨heq₁, heq₂⟩ := Prod.mk.inj heq
    exact Prod.ext (hg h₁ h₁' heq₁) (hg h₂ h₂' heq₂)
  opposite := by
    rintro _ hmem _ he
    obtain ⟨t, ht, rfl⟩ := List.mem_map.1 hmem
    rw [triangleEdges_mapTriangle] at he
    obtain ⟨e, hedge, rfl⟩ := List.mem_map.1 he
    obtain ⟨t', ht', hne, hswap⟩ := h.opposite t ht e hedge
    refine ⟨_, List.mem_map_of_mem ht', fun heq ↦ hne ?_, ?_⟩
    · obtain ⟨hx, hyz⟩ := Prod.mk.inj heq
      obtain ⟨hy, hz⟩ := Prod.mk.inj hyz
      obtain ⟨hx₁, hy₁, hz₁⟩ := hS t ht
      obtain ⟨hx₂, hy₂, hz₂⟩ := hS t' ht'
      exact Prod.ext (hg hx₂ hx₁ hx) (Prod.ext (hg hy₂ hy₁ hy) (hg hz₂ hz₁ hz))
    · rw [triangleEdges_mapTriangle]
      exact List.mem_map_of_mem hswap

/-! ### The capped tube -/

/-- The vertices of a capped tube: the two ends, and the vertices of each ring. -/
inductive TubeVertex
  | top
  | bottom
  | ring (i j : ℕ)
  deriving DecidableEq

namespace CappedTube

/-- The next vertex on a ring of `n`. -/
def next (n j : ℕ) : ℕ :=
  (j + 1) % n

/-- The vertex before on a ring of `n`. -/
def prev (n j : ℕ) : ℕ :=
  (j + (n - 1)) % n

section Ring

variable {n j : ℕ}

theorem next_eq (h : j < n) : next n j = if j + 1 = n then 0 else j + 1 := by
  rw [next]
  split_ifs with hj
  · rw [hj, Nat.mod_self]
  · rw [Nat.mod_eq_of_lt (by omega)]

theorem next_lt (h : j < n) : next n j < n :=
  Nat.mod_lt _ (Nat.zero_lt_of_lt h)

theorem prev_lt (h : j < n) : prev n j < n :=
  Nat.mod_lt _ (Nat.zero_lt_of_lt h)

theorem prev_eq (h : j < n) : prev n j = if j = 0 then n - 1 else j - 1 := by
  rw [prev]
  split_ifs with hj
  · rw [hj, Nat.zero_add, Nat.mod_eq_of_lt (by omega)]
  · rw [show j + (n - 1) = j - 1 + n by omega, Nat.add_mod_right, Nat.mod_eq_of_lt (by omega)]

theorem prev_next (h : j < n) : prev n (next n j) = j := by
  have hnext := next_eq h
  rw [prev_eq (next_lt h)]
  split_ifs at hnext ⊢ <;> omega

theorem next_prev (h : j < n) : next n (prev n j) = j := by
  have hprev := prev_eq h
  rw [next_eq (prev_lt h)]
  split_ifs at hprev ⊢ <;> omega

theorem next_ne (hn : 2 ≤ n) (h : j < n) : next n j ≠ j := by
  rw [next_eq h]
  split_ifs <;> omega

theorem next_next_ne (hn : 3 ≤ n) (h : j < n) : next n (next n j) ≠ j := by
  have hnext := next_eq h
  rw [next_eq (next_lt h)]
  split_ifs at hnext ⊢ <;> omega

end Ring

open TubeVertex

/-- A triangle of the fan at the top. -/
def topFace (n j : ℕ) : TubeVertex × TubeVertex × TubeVertex :=
  (top, ring 0 (next n j), ring 0 j)

/-- A triangle that points to the upper ring of a strip. -/
def upFace (n i j : ℕ) : TubeVertex × TubeVertex × TubeVertex :=
  (ring i j, ring (i + 1) (next n j), ring (i + 1) j)

/-- A triangle that points to the lower ring of a strip. -/
def downFace (n i j : ℕ) : TubeVertex × TubeVertex × TubeVertex :=
  (ring i j, ring i (next n j), ring (i + 1) (next n j))

/-- A triangle of the fan at the bottom, below `k` strips. -/
def bottomFace (n k j : ℕ) : TubeVertex × TubeVertex × TubeVertex :=
  (bottom, ring k j, ring k (next n j))

/-- The triangles between the rings. -/
def strips (n k : ℕ) : List (TubeVertex × TubeVertex × TubeVertex) :=
  (List.range k).flatMap fun i ↦ (List.range n).flatMap fun j ↦ [upFace n i j, downFace n i j]

/-- The capped tube of `k` strips. -/
def faces (n k : ℕ) : List (TubeVertex × TubeVertex × TubeVertex) :=
  (List.range n).map (topFace n) ++ strips n k ++ (List.range n).map (bottomFace n k)

variable {n k i j : ℕ} {t : TubeVertex × TubeVertex × TubeVertex}

theorem mem_strips :
    t ∈ strips n k ↔ ∃ i < k, ∃ j < n, t = upFace n i j ∨ t = downFace n i j := by
  simp [strips]

theorem mem_faces : t ∈ faces n k ↔ (∃ j < n, topFace n j = t) ∨
    (∃ i < k, ∃ j < n, t = upFace n i j ∨ t = downFace n i j) ∨ ∃ j < n, bottomFace n k j = t := by
  simp [faces, mem_strips]

theorem nodup_strips (n k : ℕ) : (strips n k).Nodup := by
  refine List.nodup_flatMap.2 ⟨fun i _ ↦ List.nodup_flatMap.2 ⟨fun j _ ↦ ?_, ?_⟩, ?_⟩
  · simp [upFace, downFace]
  · refine List.nodup_range.imp fun {j j'} hne ↦ ?_
    show List.Disjoint [upFace n i j, downFace n i j] [upFace n i j', downFace n i j']
    simp [upFace, downFace, hne.symm]
  · refine List.nodup_range.imp fun {i i'} hne ↦ List.disjoint_left.2 fun t ht ht' ↦ hne ?_
    -- the first vertex of either triangle is on the upper ring
    obtain ⟨j, -, hj⟩ := List.mem_flatMap.1 ht
    obtain ⟨j', -, hj'⟩ := List.mem_flatMap.1 ht'
    have hi : t.1 = ring i j := by
      rcases List.mem_pair.1 hj with rfl | rfl <;> rfl
    have hi' : t.1 = ring i' j' := by
      rcases List.mem_pair.1 hj' with rfl | rfl <;> rfl
    exact (ring.inj (hi.symm.trans hi')).1

theorem nodup_faces (n k : ℕ) : (faces n k).Nodup := by
  refine List.nodup_append'.2 ⟨List.nodup_append'.2 ⟨?_, nodup_strips n k, ?_⟩, ?_, ?_⟩
  · exact List.nodup_range.map fun j j' h ↦ (ring.inj (Prod.mk.inj (Prod.mk.inj h).2).2).2
  · refine List.disjoint_left.2 fun t ht ht' ↦ ?_
    obtain ⟨j, -, rfl⟩ := List.mem_map.1 ht
    obtain ⟨i, -, j', -, h | h⟩ := mem_strips.1 ht' <;> cases h
  · exact List.nodup_range.map fun j j' h ↦ (ring.inj (Prod.mk.inj (Prod.mk.inj h).2).1).2
  · refine List.disjoint_left.2 fun t ht ht' ↦ ?_
    obtain ⟨j, -, rfl⟩ := List.mem_map.1 ht'
    rcases List.mem_append.1 ht with ht | ht
    · obtain ⟨j', -, h⟩ := List.mem_map.1 ht
      cases h
    · obtain ⟨i, -, j', -, h | h⟩ := mem_strips.1 ht <;> cases h

/-- The triangle of each directed edge. -/
def faceOf (n k : ℕ) : TubeVertex × TubeVertex → TubeVertex × TubeVertex × TubeVertex
  | (top, ring _ j) => topFace n (prev n j)
  | (ring _ j, top) => topFace n j
  | (bottom, ring _ j) => bottomFace n k j
  | (ring _ j, bottom) => bottomFace n k (prev n j)
  | (ring i j, ring i' j') =>
    if i' = i then
      -- along a ring
      if j' = next n j then if i = k then bottomFace n k j else downFace n i j
      else if i = 0 then topFace n j' else upFace n (i - 1) j'
    else if i' = i + 1 then if j' = j then downFace n i (prev n j) else upFace n i j
    else if j' = j then upFace n i' j else downFace n i' j'
  | e => (e.1, e.2, e.1)

variable {e : TubeVertex × TubeVertex}

theorem faceOf_edge (hn : 3 ≤ n) (ht : t ∈ faces n k) (he : e ∈ triangleEdges t) :
    faceOf n k e = t := by
  rcases mem_faces.1 ht with ⟨j, hj, rfl⟩ | ⟨i, hi, j, hj, rfl | rfl⟩ | ⟨j, hj, rfl⟩
  · rcases mem_triangleEdges.1 he with rfl | rfl | rfl
    · simp [topFace, faceOf, prev_next hj]
    · simp [topFace, faceOf, (next_next_ne hn hj).symm]
    · simp [topFace, faceOf]
  · rcases mem_triangleEdges.1 he with rfl | rfl | rfl
    · simp [upFace, faceOf, next_ne (by omega) hj]
    · simp [upFace, faceOf, (next_next_ne hn hj).symm]
    · simp [upFace, faceOf, show i ≠ i + 1 + 1 by omega]
  · rcases mem_triangleEdges.1 he with rfl | rfl | rfl
    · simp [downFace, faceOf, hi.ne]
    · simp [downFace, faceOf, prev_next hj]
    · simp [downFace, faceOf, (next_ne (by omega) hj).symm, show i ≠ i + 1 + 1 by omega]
  · rcases mem_triangleEdges.1 he with rfl | rfl | rfl
    · simp [bottomFace, faceOf]
    · simp [bottomFace, faceOf]
    · simp [bottomFace, faceOf, prev_next hj]

theorem topFace_mem (hj : j < n) : topFace n j ∈ faces n k :=
  mem_faces.2 (.inl ⟨j, hj, rfl⟩)

theorem upFace_mem (hi : i < k) (hj : j < n) : upFace n i j ∈ faces n k :=
  mem_faces.2 (.inr (.inl ⟨i, hi, j, hj, .inl rfl⟩))

theorem downFace_mem (hi : i < k) (hj : j < n) : downFace n i j ∈ faces n k :=
  mem_faces.2 (.inr (.inl ⟨i, hi, j, hj, .inr rfl⟩))

theorem bottomFace_mem (hj : j < n) : bottomFace n k j ∈ faces n k :=
  mem_faces.2 (.inr (.inr ⟨j, hj, rfl⟩))

/-- A triangle of the surface has the edge, and is the one that is told for it. -/
def FindsFace (n k : ℕ) (e : TubeVertex × TubeVertex) : Prop :=
  faceOf n k e ∈ faces n k ∧ e ∈ triangleEdges (faceOf n k e)

theorem FindsFace.of_eq (h : faceOf n k e = t) (ht : t ∈ faces n k) (he : e ∈ triangleEdges t) :
    FindsFace n k e := by
  subst h
  exact ⟨ht, he⟩

/-- Along a ring: below the last ring there is the fan, below the others a strip. -/
theorem findsFace_forward (hi : i ≤ k) (hj : j < n) :
    FindsFace n k (ring i j, ring i (next n j)) := by
  rcases hi.eq_or_lt with rfl | hi
  · exact .of_eq (by simp [faceOf]) (bottomFace_mem hj) (by simp [triangleEdges, bottomFace])
  · exact .of_eq (by simp [faceOf, hi.ne]) (downFace_mem hi hj)
      (by simp [triangleEdges, downFace])

/-- Back along a ring: above the first ring there is the fan, above the others a strip. -/
theorem findsFace_backward (hn : 3 ≤ n) (hi : i ≤ k) (hj : j < n) :
    FindsFace n k (ring i (next n j), ring i j) := by
  have hne := (next_next_ne hn hj).symm
  rcases i with - | i
  · exact .of_eq (by simp [faceOf, hne]) (topFace_mem hj) (by simp [triangleEdges, topFace])
  · exact .of_eq (by simp [faceOf, hne]) (upFace_mem hi hj) (by simp [triangleEdges, upFace])

/-- The reverse of every edge is found. -/
theorem findsFace_swap (hn : 3 ≤ n) (ht : t ∈ faces n k) (he : e ∈ triangleEdges t) :
    FindsFace n k e.swap := by
  rcases mem_faces.1 ht with ⟨j, hj, rfl⟩ | ⟨i, hi, j, hj, rfl | rfl⟩ | ⟨j, hj, rfl⟩
  · rcases mem_triangleEdges.1 he with rfl | rfl | rfl
    · refine .of_eq (t := topFace n (next n j)) rfl (topFace_mem (next_lt hj)) ?_
      simp [triangleEdges, topFace]
    · exact findsFace_forward (Nat.zero_le k) hj
    · refine .of_eq (t := topFace n (prev n j)) rfl (topFace_mem (prev_lt hj)) ?_
      simp [triangleEdges, topFace, next_prev hj]
  · rcases mem_triangleEdges.1 he with rfl | rfl | rfl
    · refine .of_eq (t := downFace n i j) ?_ (downFace_mem hi hj) ?_
      · simp [upFace, faceOf, (next_ne (by omega) hj).symm, show i ≠ i + 1 + 1 by omega]
      · simp [triangleEdges, upFace, downFace]
    · exact findsFace_forward hi hj
    · refine .of_eq (t := downFace n i (prev n j)) ?_ (downFace_mem hi (prev_lt hj)) ?_
      · simp [upFace, faceOf]
      · simp [triangleEdges, upFace, downFace, next_prev hj]
  · rcases mem_triangleEdges.1 he with rfl | rfl | rfl
    · exact findsFace_backward hn hi.le hj
    · refine .of_eq (t := upFace n i (next n j)) ?_ (upFace_mem hi (next_lt hj)) ?_
      · simp [downFace, faceOf, show i ≠ i + 1 + 1 by omega]
      · simp [triangleEdges, upFace, downFace]
    · refine .of_eq (t := upFace n i j) ?_ (upFace_mem hi hj) ?_
      · simp [downFace, faceOf, next_ne (by omega) hj]
      · simp [triangleEdges, upFace, downFace]
  · rcases mem_triangleEdges.1 he with rfl | rfl | rfl
    · refine .of_eq (t := bottomFace n k (prev n j)) rfl (bottomFace_mem (prev_lt hj)) ?_
      simp [triangleEdges, bottomFace, next_prev hj]
    · exact findsFace_backward hn le_rfl hj
    · refine .of_eq (t := bottomFace n k (next n j)) rfl (bottomFace_mem (next_lt hj)) ?_
      simp [triangleEdges, bottomFace]

theorem isProper_of_mem (hn : 2 ≤ n) (ht : t ∈ faces n k) : IsProperTriangle t := by
  rcases mem_faces.1 ht with ⟨j, hj, rfl⟩ | ⟨i, hi, j, hj, rfl | rfl⟩ | ⟨j, hj, rfl⟩
  · simp [IsProperTriangle, topFace, next_ne hn hj]
  · simp [IsProperTriangle, upFace, next_ne hn hj]
  · simp [IsProperTriangle, downFace, (next_ne hn hj).symm]
  · simp [IsProperTriangle, bottomFace, (next_ne hn hj).symm]

/-- **A capped tube is a closed oriented surface**, also without a strip. -/
theorem isClosedSurface (hn : 3 ≤ n) (k : ℕ) : IsClosedSurface (faces n k) :=
  .of_faceOf (nodup_faces n k) (fun _ ↦ isProper_of_mem (by omega)) (faceOf n k)
    (fun _ ht _ ↦ faceOf_edge hn ht) fun _ ht _ ↦ findsFace_swap hn ht

/-! ### Numbering the vertices -/

/-- The vertices of a tube. -/
def vertices (n k : ℕ) : Set TubeVertex :=
  fun
  | ring i j => i ≤ k ∧ j < n
  | _ => True

/-- The rings are numbered one after the other, and then the two ends. -/
def number (n k : ℕ) : TubeVertex → ℕ
  | top => (k + 1) * n
  | bottom => (k + 1) * n + 1
  | ring i j => j + i * n

theorem number_ring_lt (hi : i ≤ k) (hj : j < n) : number n k (ring i j) < (k + 1) * n :=
  calc
    j + i * n < n + i * n := Nat.add_lt_add_right hj _
    _ = (i + 1) * n := by rw [Nat.succ_mul, Nat.add_comm]
    _ ≤ (k + 1) * n := Nat.mul_le_mul_right n (Nat.succ_le_succ hi)

theorem number_lt {v : TubeVertex} (hv : v ∈ vertices n k) : number n k v < (k + 1) * n + 2 := by
  rcases v with - | - | ⟨i, j⟩
  · exact Nat.lt_add_of_pos_right Nat.two_pos
  · exact Nat.lt_succ_self _
  · exact (number_ring_lt hv.1 hv.2).trans (Nat.lt_add_of_pos_right Nat.two_pos)

theorem number_injOn (n k : ℕ) : Set.InjOn (number n k) (vertices n k) := by
  intro v hv w hw h
  rcases v with - | - | ⟨i, j⟩ <;> rcases w with - | - | ⟨i', j'⟩
  case ring.ring =>
    have hj : j = j' := by
      have hmod := congrArg (· % n) h
      simpa [number, Nat.mod_eq_of_lt hv.2, Nat.mod_eq_of_lt hw.2] using hmod
    subst hj
    have hi : i = i' := Nat.eq_of_mul_eq_mul_right (Nat.zero_lt_of_lt hv.2) (Nat.add_left_cancel h)
    rw [hi]
  case ring.top => exact absurd h (number_ring_lt hv.1 hv.2).ne
  case ring.bottom => exact absurd h ((number_ring_lt hv.1 hv.2).trans (Nat.lt_succ_self _)).ne
  case top.ring => exact absurd h (number_ring_lt hw.1 hw.2).ne'
  case bottom.ring => exact absurd h ((number_ring_lt hw.1 hw.2).trans (Nat.lt_succ_self _)).ne'
  case top.bottom => exact absurd h (Nat.lt_succ_self _).ne
  case bottom.top => exact absurd h (Nat.lt_succ_self _).ne'
  all_goals rfl

theorem mem_vertices (ht : t ∈ faces n k) :
    t.1 ∈ vertices n k ∧ t.2.1 ∈ vertices n k ∧ t.2.2 ∈ vertices n k := by
  rcases mem_faces.1 ht with ⟨j, hj, rfl⟩ | ⟨i, hi, j, hj, rfl | rfl⟩ | ⟨j, hj, rfl⟩
  · exact ⟨trivial, ⟨Nat.zero_le k, next_lt hj⟩, Nat.zero_le k, hj⟩
  · exact ⟨⟨hi.le, hj⟩, ⟨hi, next_lt hj⟩, hi, hj⟩
  · exact ⟨⟨hi.le, hj⟩, ⟨hi.le, next_lt hj⟩, hi, next_lt hj⟩
  · exact ⟨trivial, ⟨le_rfl, hj⟩, le_rfl, next_lt hj⟩

end CappedTube
