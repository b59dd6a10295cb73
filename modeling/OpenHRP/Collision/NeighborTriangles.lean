import OpenHRP.Foundations.Literals
import OpenHRP.Foundations.SharedLabels
import Mathlib.Data.Fintype.Card

/-!
# Neighbours of a triangle

When a triangle is set, a `ColdetModel` registers its edges one after the other. The second triangle
with an edge becomes a neighbour of the first one, and when a third triangle comes, these two are to
be neighbours no longer. `deleteNeighbor` looks for the neighbour in the first slot only.

So the neighbours of a triangle are those that share an edge of exactly two triangles with it, as
long as whenever a third triangle comes to an edge the other two are in the first slots of each
other, and later triangles do not find them there (`isNeighborhood_of_separates`).
-/

namespace OpenHRP.NeighborTriangles

/-! ### The program -/

/-- `Edge`: its vertices, in order. -/
structure Edge where
  vertex0 : ℤ
  vertex1 : ℤ
  le : vertex0 ≤ vertex1
  deriving DecidableEq

/-- The constructor of `Edge`. -/
def edge (vertexIndex1 vertexIndex2 : ℤ) : Edge :=
  if h : vertexIndex1 < vertexIndex2 then ⟨vertexIndex1, vertexIndex2, Int.le_of_lt h⟩
  else ⟨vertexIndex2, vertexIndex1, Int.not_lt.1 h⟩

/-- `NeighborTriangleSet`: three slots, of which those with a triangle come first. -/
structure NeighborTriangleSet (n : ℕ) where
  triangles : List (Fin n)
  length_le : triangles.length ≤ 3

namespace NeighborTriangleSet

variable {n : ℕ} (s : NeighborTriangleSet n) (neighbor : Fin n)

def empty : NeighborTriangleSet n :=
  ⟨[], Nat.zero_le 3⟩

/-- The neighbour gets the first free slot. -/
def addNeighbor : NeighborTriangleSet n :=
  if h : s.triangles.length < 3 then
    ⟨s.triangles ++ [neighbor], by rw [List.length_append, List.length_singleton]; exact h⟩
  else s

/-- The slots behind a deleted one move up. The loop over the slots ends in its first turn. -/
def deleteNeighbor : NeighborTriangleSet n :=
  if s.triangles.head? = some neighbor then
    ⟨s.triangles.tail, Nat.le_trans (by rw [List.length_tail]; exact Nat.sub_le _ _) s.length_le⟩
  else s

end NeighborTriangleSet

/-- `trianglePair`. There may be no second triangle. -/
structure TrianglePair (n : ℕ) where
  t0 : Fin n
  t1 : Option (Fin n)

/-- The members of a `ColdetModel` for `n` triangles. -/
structure ColdetModel (n : ℕ) where
  triangleMap : Edge → Option (TrianglePair n)
  neighbor : Fin n → NeighborTriangleSet n

section Model

variable {n : ℕ}

/-- A model after `setNumTriangles`. -/
def initial (n : ℕ) : ColdetModel n :=
  ⟨fun _ ↦ none, fun _ ↦ .empty⟩

/-- `neighbor[t] = f(neighbor[t])`. -/
def ColdetModel.modify (m : ColdetModel n) (t : Fin n)
    (f : NeighborTriangleSet n → NeighborTriangleSet n) : ColdetModel n :=
  { m with neighbor := Function.update m.neighbor t (f (m.neighbor t)) }

def ColdetModel.insert (m : ColdetModel n) (e : Edge) (p : TrianglePair n) : ColdetModel n :=
  { m with triangleMap := Function.update m.triangleMap e (some p) }

/-- `setNeighborTriangleSub`, of an edge. -/
def setNeighborTriangleSub (m : ColdetModel n) (triangle : Fin n) (e : Edge) : ColdetModel n :=
  match m.triangleMap e with
  | none => m.insert e ⟨triangle, none⟩
  | some ⟨t0, some t1⟩ => (m.modify t0 (·.deleteNeighbor t1)).modify t1 (·.deleteNeighbor t0)
  | some ⟨t0, none⟩ =>
    ((m.modify triangle (·.addNeighbor t0)).modify t0 (·.addNeighbor triangle)).insert e
      ⟨t0, some triangle⟩

/-- A call of `setTriangle`, for a triangle with three vertices. -/
structure SetTriangle (n : ℕ) where
  index : Fin n
  v1 : ℤ
  v2 : ℤ
  v3 : ℤ
  distinct : v1 ≠ v2 ∧ v2 ≠ v3 ∧ v3 ≠ v1

/-- `setTriangle`, with `setNeighborTriangle`. -/
def setTriangle (m : ColdetModel n) (c : SetTriangle n) : ColdetModel n :=
  let m := setNeighborTriangleSub m c.index (edge c.v1 c.v2)
  let m := setNeighborTriangleSub m c.index (edge c.v2 c.v3)
  setNeighborTriangleSub m c.index (edge c.v3 c.v1)

/-! ### Runs -/

/-- The edges that a call registers. -/
def SetTriangle.edges (c : SetTriangle n) : List Edge :=
  [edge c.v1 c.v2, edge c.v2 c.v3, edge c.v3 c.v1]

/-- The edges that a list of calls registers, with their triangles. -/
def registrations (calls : List (SetTriangle n)) : List (Fin n × Edge) :=
  calls.flatMap fun c ↦ c.edges.map fun e ↦ (c.index, e)

/-- The model after some edges have been registered. -/
def after (r : List (Fin n × Edge)) : ColdetModel n :=
  r.foldl (fun m p ↦ setNeighborTriangleSub m p.1 p.2) (initial n)

/-- The neighbours of a triangle are those with which it shares an edge that no other triangle
has. -/
def IsNeighborhood (r : List (Fin n × Edge)) (m : ColdetModel n) : Prop :=
  ∀ s t, s ∈ (m.neighbor t).triangles ↔ ∃ e, users r e = [t, s] ∨ users r e = [s, t]

/-- Where an edge already has two triangles, these are in the first slots of each other if the next
triangle is the third one, and otherwise neither is in the first slot of the other. -/
def Separates (r : List (Fin n × Edge)) (m : ColdetModel n) (e : Edge) : Prop :=
  ∀ a b rest, users r e = a :: b :: rest →
    if rest = [] then
      (m.neighbor a).triangles.head? = some b ∧ (m.neighbor b).triangles.head? = some a
    else (m.neighbor a).triangles.head? ≠ some b ∧ (m.neighbor b).triangles.head? ≠ some a

theorem foldl_setTriangle (calls : List (SetTriangle n)) :
    calls.foldl setTriangle (initial n) = after (registrations calls) := by
  rw [after, registrations, List.foldl_flatMap]
  rfl

@[simp] theorem after_append (r : List (Fin n × Edge)) (p : Fin n × Edge) :
    after (r ++ [p]) = setNeighborTriangleSub (after r) p.1 p.2 := by
  rw [after, List.foldl_append]
  rfl

/-! ### Registering an edge -/

@[simp] theorem neighbor_insert (m : ColdetModel n) (e : Edge) (p : TrianglePair n) :
    (m.insert e p).neighbor = m.neighbor := rfl

@[simp] theorem triangleMap_modify (m : ColdetModel n) (t : Fin n)
    (f : NeighborTriangleSet n → NeighborTriangleSet n) :
    (m.modify t f).triangleMap = m.triangleMap := rfl

@[simp] theorem neighbor_modify_self (m : ColdetModel n) (t : Fin n)
    (f : NeighborTriangleSet n → NeighborTriangleSet n) :
    (m.modify t f).neighbor t = f (m.neighbor t) :=
  Function.update_self t _ m.neighbor

theorem neighbor_modify_of_ne {s t : Fin n} (h : s ≠ t) (m : ColdetModel n)
    (f : NeighborTriangleSet n → NeighborTriangleSet n) :
    (m.modify t f).neighbor s = m.neighbor s :=
  Function.update_of_ne h _ m.neighbor

variable {s : NeighborTriangleSet n}

theorem triangles_addNeighbor (h : s.triangles.length < 3) (neighbor : Fin n) :
    (s.addNeighbor neighbor).triangles.Perm (neighbor :: s.triangles) := by
  rw [NeighborTriangleSet.addNeighbor, dif_pos h]
  exact List.perm_append_singleton neighbor s.triangles

theorem triangles_deleteNeighbor {neighbor : Fin n} (h : s.triangles.head? = some neighbor) :
    s.triangles = neighbor :: (s.deleteNeighbor neighbor).triangles := by
  rw [NeighborTriangleSet.deleteNeighbor, if_pos h]
  exact (List.cons_head?_tail h).symm

/-- What the map holds for an edge with these users. -/
def pairOf : List (Fin n) → Option (TrianglePair n)
  | [] => none
  | [a] => some ⟨a, none⟩
  | a :: b :: _ => some ⟨a, some b⟩

/-- The model holds what has been registered. -/
structure Registered (r : List (Fin n × Edge)) (m : ColdetModel n) : Prop where
  triangleMap : ∀ e, m.triangleMap e = pairOf (users r e)
  neighbor : ∀ t, (m.neighbor t).triangles.Perm (partners r t)

theorem registered_initial : Registered ([] : List (Fin n × Edge)) (initial n) :=
  ⟨fun _ ↦ rfl, fun _ ↦ .refl _⟩

section Step

variable {r : List (Fin n × Edge)} {m : ColdetModel n} {z : Fin n} {e : Edge}

theorem pairOf_append (l : List (Fin n)) (h : 2 ≤ l.length) (z : Fin n) :
    pairOf (l ++ [z]) = pairOf l := by
  match l, h with
  | _ :: _ :: _, _ => rfl

/-- Only the entry of the edge that is registered changes. -/
theorem Registered.triangleMap_of_ne {m' : ColdetModel n} (h : Registered r m)
    (hmap : m'.triangleMap = Function.update m.triangleMap e (pairOf (users r e ++ [z])))
    (e' : Edge) : m'.triangleMap e' = pairOf (users (r ++ [(z, e)]) e') := by
  rw [hmap]
  by_cases he : e' = e
  · subst he
    rw [Function.update_self, users_append]
  · rw [Function.update_of_ne he, users_append_of_ne he, h.triangleMap]

/-- The neighbours stay as they are when the partners by the edge do. -/
theorem Registered.neighbor_of_partnerAt (h : Registered r m) (hr : (r ++ [(z, e)]).Nodup)
    {t : Fin n} (ht : partnerAt (r ++ [(z, e)]) t e = partnerAt r t e) :
    (m.neighbor t).triangles.Perm (partners (r ++ [(z, e)]) t) := by
  have := partners_append_perm hr t
  rw [ht] at this
  exact (h.neighbor t).trans ((partners_perm (List.nodup_append.1 hr).1 t e).trans this.symm)

theorem partnerAt_of_users_ne {t : Fin n} (h : ∀ a b, users r e ≠ [a, b]) :
    partnerAt r t e = none := by
  rw [partnerAt]
  split
  · exact absurd ‹_› (h _ _)
  · rfl

/-- The first triangle with an edge. -/
theorem Registered.first (h : Registered r m) (hr : (r ++ [(z, e)]).Nodup) (he : users r e = []) :
    Registered (r ++ [(z, e)]) (setNeighborTriangleSub m z e) := by
  have hm : setNeighborTriangleSub m z e = m.insert e ⟨z, none⟩ := by
    rw [setNeighborTriangleSub, h.triangleMap, he]
    rfl
  rw [hm]
  refine ⟨h.triangleMap_of_ne (by rw [he]; rfl), fun t ↦ h.neighbor_of_partnerAt hr ?_⟩
  rw [partnerAt_of_users_ne (by simp [users_append, he]), partnerAt_of_users_ne (by simp [he])]

/-- The second triangle with an edge becomes a neighbour of the first one. -/
theorem Registered.second (h : Registered r m) (hr : (r ++ [(z, e)]).Nodup)
    (hlen : ∀ t, (partners (r ++ [(z, e)]) t).length ≤ 3) {a : Fin n} (he : users r e = [a]) :
    Registered (r ++ [(z, e)]) (setNeighborTriangleSub m z e) := by
  have hr' : r.Nodup := (List.nodup_append.1 hr).1
  have hm : setNeighborTriangleSub m z e =
      ((m.modify z (·.addNeighbor a)).modify a (·.addNeighbor z)).insert e ⟨a, some z⟩ := by
    rw [setNeighborTriangleSub, h.triangleMap, he]
    rfl
  have husers : users (r ++ [(z, e)]) e = [a, z] := by rw [users_append, he]; rfl
  have hne : a ≠ z := by
    have := nodup_users hr e
    rw [husers, List.nodup_cons, List.mem_singleton] at this
    exact this.1
  have hnone : ∀ t, partnerAt r t e = none := fun t ↦ partnerAt_of_users_ne (by simp [he])
  -- both triangles get a new neighbour, for which there is a slot
  have hnew : ∀ s t, partnerAt (r ++ [(z, e)]) t e = some s →
      ((m.neighbor t).addNeighbor s).triangles.Perm (partners (r ++ [(z, e)]) t) := by
    intro s t hs
    have hperm : (s :: (m.neighbor t).triangles).Perm (partners (r ++ [(z, e)]) t) := by
      refine .trans ?_ (partners_append_perm hr t).symm
      rw [hs]
      refine ((h.neighbor t).trans ?_).cons s
      have := partners_perm hr' t e
      rwa [hnone] at this
    have hlt : (m.neighbor t).triangles.length < 3 := by
      have := hperm.length_eq ▸ hlen t
      exact this
    exact (triangles_addNeighbor hlt s).trans hperm
  rw [hm]
  refine ⟨h.triangleMap_of_ne (by rw [he]; rfl), fun t ↦ ?_⟩
  rw [neighbor_insert]
  by_cases hta : t = a
  · subst hta
    rw [neighbor_modify_self, neighbor_modify_of_ne hne]
    exact hnew z t ((partnerAt_eq_some hr).2 (.inl husers))
  rw [neighbor_modify_of_ne hta]
  by_cases htz : t = z
  · subst htz
    rw [neighbor_modify_self]
    exact hnew a t ((partnerAt_eq_some hr).2 (.inr husers))
  · rw [neighbor_modify_of_ne htz]
    refine h.neighbor_of_partnerAt hr ?_
    rw [hnone, partnerAt, husers]
    simp [Ne.symm hta, Ne.symm htz]

variable {rest : List (Fin n)}

theorem setNeighborTriangleSub_of_pair (h : Registered r m) {a b : Fin n}
    (he : users r e = a :: b :: rest) :
    setNeighborTriangleSub m z e =
      (m.modify a (·.deleteNeighbor b)).modify b (·.deleteNeighbor a) := by
  rw [setNeighborTriangleSub, h.triangleMap, he]
  rfl

theorem deleteNeighbor_of_ne {neighbor : Fin n}
    (h : s.triangles.head? ≠ some neighbor) : s.deleteNeighbor neighbor = s := by
  rw [NeighborTriangleSet.deleteNeighbor, if_neg h]

theorem Registered.triangleMap_of_pair (h : Registered r m) {a b : Fin n}
    (he : users r e = a :: b :: rest) (e' : Edge) :
    (setNeighborTriangleSub m z e).triangleMap e' = pairOf (users (r ++ [(z, e)]) e') := by
  refine h.triangleMap_of_ne ?_ e'
  rw [setNeighborTriangleSub_of_pair h he, triangleMap_modify, triangleMap_modify,
    pairOf_append _ (by simp [he]), ← h.triangleMap, Function.update_eq_self]

/-- With the third triangle, the first two are neighbours no longer. -/
theorem Registered.third (h : Registered r m) (hr : (r ++ [(z, e)]).Nodup) {a b : Fin n}
    (he : users r e = [a, b]) (ha : (m.neighbor a).triangles.head? = some b)
    (hb : (m.neighbor b).triangles.head? = some a) :
    Registered (r ++ [(z, e)]) (setNeighborTriangleSub m z e) := by
  have hr' : r.Nodup := (List.nodup_append.1 hr).1
  have hne : a ≠ b := by
    have := nodup_users hr' e
    rw [he, List.nodup_cons, List.mem_singleton] at this
    exact this.1
  have hnone : ∀ t, partnerAt (r ++ [(z, e)]) t e = none := fun t ↦
    partnerAt_of_users_ne (by simp [users_append, he])
  -- what is left behind the first slot are the partners by other edges
  have hrest : ∀ s t, partnerAt r t e = some s → (m.neighbor t).triangles.head? = some s →
      ((m.neighbor t).deleteNeighbor s).triangles.Perm (partners (r ++ [(z, e)]) t) := by
    intro s t hs hhead
    have hold := (h.neighbor t).trans (partners_perm hr' t e)
    have hnew := partners_append_perm hr t
    rw [hs, triangles_deleteNeighbor hhead] at hold
    rw [hnone] at hnew
    exact (List.perm_cons s).1 hold |>.trans hnew.symm
  refine ⟨h.triangleMap_of_pair he, fun t ↦ ?_⟩
  rw [setNeighborTriangleSub_of_pair h he]
  by_cases htb : t = b
  · subst htb
    rw [neighbor_modify_self, neighbor_modify_of_ne (Ne.symm hne)]
    exact hrest a t ((partnerAt_eq_some hr').2 (.inr he)) hb
  rw [neighbor_modify_of_ne htb]
  by_cases hta : t = a
  · subst hta
    rw [neighbor_modify_self]
    exact hrest b t ((partnerAt_eq_some hr').2 (.inl he)) ha
  · rw [neighbor_modify_of_ne hta]
    refine h.neighbor_of_partnerAt hr ?_
    rw [hnone, partnerAt, he]
    simp [Ne.symm hta, Ne.symm htb]

/-- Later triangles change nothing if they find the first two separated. -/
theorem Registered.later (h : Registered r m) (hr : (r ++ [(z, e)]).Nodup) {a b c : Fin n}
    (he : users r e = a :: b :: c :: rest) (ha : (m.neighbor a).triangles.head? ≠ some b)
    (hb : (m.neighbor b).triangles.head? ≠ some a) :
    Registered (r ++ [(z, e)]) (setNeighborTriangleSub m z e) := by
  refine ⟨h.triangleMap_of_pair he, fun t ↦ ?_⟩
  have hsame : (setNeighborTriangleSub m z e).neighbor t = m.neighbor t := by
    have hne : a ≠ b := by
      have := nodup_users (List.nodup_append.1 hr).1 e
      rw [he, List.nodup_cons, List.mem_cons, not_or] at this
      exact this.1.1
    rw [setNeighborTriangleSub_of_pair h he]
    by_cases htb : t = b
    · subst htb
      rw [neighbor_modify_self, neighbor_modify_of_ne (Ne.symm hne), deleteNeighbor_of_ne hb]
    rw [neighbor_modify_of_ne htb]
    by_cases hta : t = a
    · subst hta
      rw [neighbor_modify_self, deleteNeighbor_of_ne ha]
    · rw [neighbor_modify_of_ne hta]
  rw [hsame]
  refine h.neighbor_of_partnerAt hr ?_
  rw [partnerAt_of_users_ne (by simp [users_append, he]), partnerAt_of_users_ne (by simp [he])]

theorem Registered.step (h : Registered r m) (hr : (r ++ [(z, e)]).Nodup)
    (hlen : ∀ t, (partners (r ++ [(z, e)]) t).length ≤ 3) (hsep : Separates r m e) :
    Registered (r ++ [(z, e)]) (setNeighborTriangleSub m z e) := by
  match he : users r e with
  | [] => exact h.first hr he
  | [a] => exact h.second hr hlen he
  | [a, b] =>
    have := hsep a b [] he
    rw [if_pos rfl] at this
    exact h.third hr he this.1 this.2
  | a :: b :: c :: rest =>
    have := hsep a b (c :: rest) he
    rw [if_neg (List.cons_ne_nil c rest)] at this
    exact h.later hr he this.1 this.2

end Step

/-! ### The edges of a list of triangles -/

theorem edge_eq_iff {a b c d : ℤ} : edge a b = edge c d ↔ a = c ∧ b = d ∨ a = d ∧ b = c := by
  unfold edge
  split <;> split <;> simp only [Edge.mk.injEq] <;> omega

theorem nodup_edges (c : SetTriangle n) : c.edges.Nodup := by
  obtain ⟨h12, h23, h31⟩ := c.distinct
  simp only [SetTriangle.edges, List.nodup_cons, List.mem_cons, List.not_mem_nil, or_false,
    edge_eq_iff, List.nodup_nil, not_false_eq_true, and_true]
  omega

variable {calls : List (SetTriangle n)}

theorem nodup_registrations (h : (calls.map SetTriangle.index).Nodup) :
    (registrations calls).Nodup := by
  rw [registrations, List.nodup_flatMap]
  refine ⟨fun c _ ↦ (nodup_edges c).map fun e e' he ↦ (Prod.mk.inj he).2, ?_⟩
  refine (List.pairwise_map.1 h).imp fun hne ↦ ?_
  simp only [Function.onFun, List.disjoint_left, List.mem_map, not_exists, not_and]
  rintro _ ⟨e, -, rfl⟩ e' - heq
  exact hne (Prod.mk.inj heq).1.symm

theorem length_labels_registrations (h : (calls.map SetTriangle.index).Nodup) (t : Fin n) :
    (labels (registrations calls) t).length ≤ 3 := by
  induction calls with
  | nil => exact Nat.zero_le 3
  | cons c calls ih =>
    rw [List.map_cons, List.nodup_cons] at h
    have hcons : labels (registrations (c :: calls)) t =
        labels (c.edges.map fun e ↦ (c.index, e)) t ++ labels (registrations calls) t := by
      rw [registrations, List.flatMap_cons, labels, List.filter_append, List.map_append]
      rfl
    rw [hcons, List.length_append]
    by_cases ht : c.index = t
    · have hnil : labels (registrations calls) t = [] := by
        rw [List.eq_nil_iff_forall_not_mem]
        intro e he
        rw [mem_labels, registrations, List.mem_flatMap] at he
        obtain ⟨c', hc', he⟩ := he
        obtain ⟨_, -, heq⟩ := List.mem_map.1 he
        exact h.1 (List.mem_map.2 ⟨c', hc', (Prod.mk.inj heq).1.trans ht.symm⟩)
      rw [hnil, labels, List.length_map]
      exact (List.length_filter_le _ _).trans (Nat.le_refl 3)
    · have hnil : labels (c.edges.map fun e ↦ (c.index, e)) t = [] := by
        simp [labels, SetTriangle.edges, ht]
      rw [hnil, List.length_nil, Nat.zero_add]
      exact ih h.2

variable {r : List (Fin n × Edge)}

theorem length_partners_le_three (h : (calls.map SetTriangle.index).Nodup)
    (hr : r <+: registrations calls) (t : Fin n) : (partners r t).length ≤ 3 := by
  have hsub : (labels r t).Sublist (labels (registrations calls) t) :=
    (hr.sublist.filter _).map _
  exact (length_partners_le r t).trans (hsub.length_le.trans (length_labels_registrations h t))

/-! ### The neighbourhood -/

theorem Registered.isNeighborhood {m : ColdetModel n}
    (h : Registered r m) (hr : r.Nodup) : IsNeighborhood r m := fun s t ↦ by
  rw [(h.neighbor t).mem_iff, mem_partners hr]

/-- Every edge so far has been registered in a state in which it separates its triangles. -/
theorem registered_after (h : (calls.map SetTriangle.index).Nodup)
    (hr : r <+: registrations calls) (hsep : ∀ r' p, r' ++ [p] <+: r → Separates r' (after r') p.2)
    : Registered r (after r) := by
  induction r using List.reverseRecOn with
  | nil => exact registered_initial
  | append_singleton r p ih =>
    have hfront : r <+: r ++ [p] := List.prefix_append r [p]
    rw [after_append]
    exact (ih (hfront.trans hr) fun r' p' hr' ↦ hsep r' p' (hr'.trans hfront)).step
      ((nodup_registrations h).sublist hr.sublist) (length_partners_le_three h hr)
      (hsep r p List.prefix_rfl)

/-- Where no edge has a third triangle, no triangles have to be separated. -/
theorem separates_of_manifold (h : ∀ e, (users (registrations calls) e).length ≤ 2)
    {p : Fin n × Edge} (hr : r ++ [p] <+: registrations calls) :
    Separates r (after r) p.2 := by
  intro a b rest he
  have hsub : (users (r ++ [p]) p.2).Sublist (users (registrations calls) p.2) :=
    (hr.sublist.filter _).map _
  have hle := hsub.length_le.trans (h p.2)
  have husers : users (r ++ [p]) p.2 = users r p.2 ++ [p.1] := users_append r p.1 p.2
  rw [husers, he] at hle
  simp at hle

/-- No two triangles have two edges in common. -/
def ShareOneEdge (calls : List (SetTriangle n)) : Prop :=
  ∀ s t e e', s ≠ t → (s, e) ∈ registrations calls → (t, e) ∈ registrations calls →
    (s, e') ∈ registrations calls → (t, e') ∈ registrations calls → e = e'

/-- For triangles of which no two have two edges in common, the triangles of an edge are only
separated if they are in the first slots of each other. -/
theorem separates_of_isNeighborhood (h : (calls.map SetTriangle.index).Nodup)
    (hshare : ShareOneEdge calls) {p : Fin n × Edge}
    (hr : r ++ [p] <+: registrations calls) (hm : Registered r (after r))
    (hp : IsNeighborhood (r ++ [p]) (after (r ++ [p]))) : Separates r (after r) p.2 := by
  obtain ⟨z, e⟩ := p
  dsimp only
  intro a b rest he
  have hnodup : (r ++ [(z, e)]).Nodup := (nodup_registrations h).sublist hr.sublist
  have hnodup' : r.Nodup := (List.nodup_append.1 hnodup).1
  have hr' : ∀ q ∈ r, q ∈ registrations calls := fun q hq ↦
    hr.subset (List.mem_append_left [(z, e)] hq)
  have hne : a ≠ b := by
    have := nodup_users hnodup' e
    rw [he, List.nodup_cons, List.mem_cons, not_or] at this
    exact this.1.1
  have hmem : ∀ {t}, t ∈ users r e → (t, e) ∈ registrations calls := fun ht ↦
    hr' _ (mem_users.1 ht)
  -- two triangles with this edge share no other one
  have honly : ∀ {s t e'}, s ∈ users r e → t ∈ users r e → s ≠ t →
      users r e' = [t, s] ∨ users r e' = [s, t] → e' = e := by
    intro s t e' hs ht hst he'
    have hs' : s ∈ users r e' := by rcases he' with he' | he' <;> simp [he']
    have ht' : t ∈ users r e' := by rcases he' with he' | he' <;> simp [he']
    exact (hshare s t e e' hst (hmem hs) (hmem ht) (hr' _ (mem_users.1 hs'))
      (hr' _ (mem_users.1 ht'))).symm
  have hamem : a ∈ users r e := by simp [he]
  have hbmem : b ∈ users r e := by simp [he]
  by_cases hrest : rest = []
  · subst hrest
    rw [if_pos rfl]
    -- otherwise the neighbour would still be there
    have hstays : ∀ s t, s ∈ users r e → t ∈ users r e → s ≠ t →
        users r e = [t, s] ∨ users r e = [s, t] →
        ((after r).neighbor t).triangles.head? ≠ some s →
        ((after (r ++ [(z, e)])).neighbor t).triangles ≠ ((after r).neighbor t).triangles := by
      intro s t hs ht hst hst' hhead heq
      have hin : s ∈ ((after r).neighbor t).triangles := (hm.isNeighborhood hnodup' s t).2 ⟨e, hst'⟩
      rw [← heq, hp] at hin
      obtain ⟨e', he'⟩ := hin
      by_cases hee : e' = e
      · subst hee
        rw [users_append, he] at he'
        simp at he'
      · rw [users_append_of_ne hee] at he'
        exact hee (honly hs ht hst he')
    have hafter : after (r ++ [(z, e)]) =
        ((after r).modify a (·.deleteNeighbor b)).modify b (·.deleteNeighbor a) := by
      rw [after_append, setNeighborTriangleSub_of_pair hm he]
    constructor
    · by_contra hhead
      refine hstays b a hbmem hamem (Ne.symm hne) (.inl he) hhead ?_
      rw [hafter, neighbor_modify_of_ne hne, neighbor_modify_self, deleteNeighbor_of_ne hhead]
    · by_contra hhead
      refine hstays a b hamem hbmem hne (.inr he) hhead ?_
      rw [hafter, neighbor_modify_self, neighbor_modify_of_ne (Ne.symm hne),
        deleteNeighbor_of_ne hhead]
  · rw [if_neg hrest]
    -- the edge has more than two triangles, so that the two are no neighbours
    have hno : ∀ s t, s ∈ users r e → t ∈ users r e → s ≠ t →
        ((after r).neighbor t).triangles.head? ≠ some s := by
      intro s t hs ht hst hhead
      obtain ⟨e', he'⟩ := (hm.isNeighborhood hnodup' s t).1 (List.mem_of_mem_head? hhead)
      have hee := honly hs ht hst he'
      subst hee
      rw [he] at he'
      simp [hrest] at he'
    exact ⟨hno b a hbmem hamem (Ne.symm hne), hno a b hamem hbmem hne⟩

/-- If every edge of a list of triangles separates its triangles when it is registered, then in
every state on the way and at the end the neighbours of a triangle are those with which it shares an
edge that no other triangle has. For triangles of which no two have two edges in common, this is the
only case. -/
theorem isNeighborhood_of_separates (calls : List (SetTriangle n))
    (h : (calls.map SetTriangle.index).Nodup) :
    calls.foldl setTriangle (initial n) = after (registrations calls) ∧
      ((∀ r p, r ++ [p] <+: registrations calls → Separates r (after r) p.2) →
        ∀ r, r <+: registrations calls → IsNeighborhood r (after r)) ∧
      (ShareOneEdge calls → (∀ r, r <+: registrations calls → IsNeighborhood r (after r)) →
        ∀ r p, r ++ [p] <+: registrations calls → Separates r (after r) p.2) := by
  refine ⟨foldl_setTriangle calls, fun hsep r hr ↦ ?_, fun hshare hall r p hr ↦ ?_⟩
  · have hm := registered_after h hr fun r' p hr' ↦ hsep r' p (hr'.trans hr)
    exact hm.isNeighborhood ((nodup_registrations h).sublist hr.sublist)
  · -- by induction on how many edges have been registered
    induction hn : r.length using Nat.strong_induction_on generalizing r p with
    | _ k ih =>
      have hr' : r <+: registrations calls := (List.prefix_append r [p]).trans hr
      have hm := registered_after h hr' fun r' p' hr'' ↦ by
        refine ih r'.length ?_ r' p' (hr''.trans hr') rfl
        have := hr''.length_le
        rw [List.length_append, List.length_singleton] at this
        omega
      exact separates_of_isNeighborhood h hshare hr hm (hall _ hr)

end Model

/-! ### Examples -/

/-- Two triangles with the edge from 0 to 1. -/
def twoTriangles : List (SetTriangle 2) :=
  [⟨0, 0, 1, 2, by decide⟩, ⟨1, 1, 0, 3, by decide⟩]

theorem isNeighborhood_of_separates_twoTriangles :
    IsNeighborhood (registrations twoTriangles) (twoTriangles.foldl setTriangle (initial 2)) := by
  have hnodup : (twoTriangles.map SetTriangle.index).Nodup := by decide
  obtain ⟨hrun, hall, -⟩ := isNeighborhood_of_separates twoTriangles hnodup
  rw [hrun]
  refine hall (fun r p hr ↦ separates_of_manifold (fun e ↦ ?_) hr) _ List.prefix_rfl
  exact (nodup_users (nodup_registrations hnodup) e).length_le_card

/-- The triangles 0 and 2 share the edge from 0 to 1 with the triangle 3, but the triangle 1 is the
first neighbour of the triangle 0. -/
def fan : List (SetTriangle 4) :=
  [⟨0, 0, 1, 2, by decide⟩, ⟨1, 1, 2, 3, by decide⟩, ⟨2, 0, 1, 4, by decide⟩,
    ⟨3, 0, 1, 5, by decide⟩]

theorem not_isNeighborhood_fan :
    ¬IsNeighborhood (registrations fan) (fan.foldl setTriangle (initial 4)) := by
  intro h
  have hmem : (2 : Fin 4) ∈ ((fan.foldl setTriangle (initial 4)).neighbor 0).triangles := by
    decide
  obtain ⟨e, he⟩ := (h 2 0).1 hmem
  have hpartner : (2 : Fin 4) ∈ partners (registrations fan) 0 :=
    (mem_partners (by decide)).2 ⟨e, he⟩
  exact absurd hpartner (by decide)

end OpenHRP.NeighborTriangles
