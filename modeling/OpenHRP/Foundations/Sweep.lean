import OpenHRP.Foundations.Literals
import Mathlib.Data.List.Induction
import Mathlib.Data.List.Nodup
import Mathlib.Data.Set.Insert

/-!
# Sweeps: loops that write one cell per step

A **sweep** runs over a duplicate-free list of indices and, at each index `i`, replaces the cell
`i` of a store `ι → α` by a value computed from the store as it stands. Inbound and outbound
passes over a tree are sweeps: at a node they read the cells of its children or of its parent,
which the order of the list has already finished or not yet touched.

Nothing here knows what the cells are. The order enters through `ReadsEarlier`: whatever a step
reads and the list contains stands earlier in the list. Under that order a sweep is characterised
by one equation per index (`sweep_eq_step`): the final cell is the step evaluated at the **final**
cells it reads and at the **initial** cell it overwrites. Two sweeps are then compared by induction
on the order (`ReadsEarlier.induction`), with no loop left.

* `Before l j i`: `j` stands strictly before `i` in `l`;
* `ReadsEarlier reads l`: every index read at `i` and contained in `l` stands before `i`;
* `LocalTo reads step`: the step at `i` looks at the cell `i` and the cells in `reads i` only.
-/

variable {ι α β : Type*}

/-! ### Order in a list -/

/-- `j` stands strictly before `i` in `l`. -/
def Before (l : List ι) (j i : ι) : Prop :=
  [j, i].Sublist l

variable {i j : ι} {l : List ι}

theorem Before.reverse (h : Before l j i) : Before l.reverse i j := by
  have := List.Sublist.reverse h
  simpa [Before] using this

theorem Before.mono {l l' : List ι} (h : Before l j i) (hl : l.Sublist l') : Before l' j i :=
  h.trans hl

theorem Before.mem_right (h : Before l j i) : i ∈ l :=
  h.subset (by simp)

theorem before_cons_of_mem (h : i ∈ l) : Before (j :: l) j i :=
  (List.singleton_sublist.2 h).cons_cons j

/-- In a duplicate-free list split at `i`, what stands before `i` is in the prefix. -/
theorem Before.mem_front {pre post : List ι} (hl : (pre ++ i :: post).Nodup)
    (h : Before (pre ++ i :: post) j i) : j ∈ pre := by
  have hi : i ∉ pre ∧ i ∉ post := by
    rw [List.nodup_append] at hl
    exact ⟨fun hp ↦ hl.2.2 i hp i (by simp) rfl, (List.nodup_cons.1 hl.2.1).1⟩
  obtain ⟨l₁, l₂, hsplit, h₁, h₂⟩ := List.sublist_append_iff.1 h
  match l₁, hsplit with
  | [], hs =>
    -- the pair would start at `i` or behind it, so its second entry `i` would repeat
    rw [List.nil_append] at hs
    subst hs
    rcases List.sublist_cons_iff.1 h₂ with h₃ | ⟨r, hr, h₃⟩
    · exact absurd (h₃.subset (by simp)) hi.2
    · obtain ⟨-, rfl⟩ := List.cons.inj hr
      exact absurd (h₃.subset (by simp)) hi.2
  | [x], hs =>
    obtain ⟨rfl, -⟩ := List.cons.inj hs
    exact h₁.subset (by simp)
  | x :: y :: r, hs =>
    have hy : i = y := (List.cons.inj (List.cons.inj hs).2).1
    exact absurd (h₁.subset (by simp [hy])) hi.1

/-- In a duplicate-free list, what stands before has the smaller position. -/
theorem Before.idxOf_lt [DecidableEq ι] (hl : l.Nodup) (h : Before l j i) :
    l.idxOf j < l.idxOf i := by
  obtain ⟨pre, post, rfl⟩ := List.append_of_mem h.mem_right
  have hj : j ∈ pre := h.mem_front hl
  have hi : i ∉ pre := fun hi ↦ (List.nodup_append.1 hl).2.2 i hi i (by simp) rfl
  rw [List.idxOf_append_of_mem hj, List.idxOf_append_of_notMem hi]
  have := List.idxOf_lt_length_of_mem hj
  omega

/-- Every index read at `i` and contained in `l` stands before `i` in `l`. -/
def ReadsEarlier (reads : ι → List ι) (l : List ι) : Prop :=
  ∀ i ∈ l, ∀ j ∈ reads i, j ∈ l → Before l j i

/-- Induction along the order of a sweep: a property that passes from the indices read at `i` to
`i` holds of every index of the list. -/
theorem ReadsEarlier.induction {reads : ι → List ι} (h : ReadsEarlier reads l) (hl : l.Nodup)
    {P : ι → Prop} (hstep : ∀ i ∈ l, (∀ j ∈ reads i, j ∈ l → P j) → P i) : ∀ i ∈ l, P i := by
  suffices H : ∀ pre post, pre ++ post = l → ∀ i ∈ pre, P i from H l [] (by simp)
  intro pre
  induction pre using List.reverseRecOn with
  | nil => simp
  | append_singleton pre x ih =>
    intro post hsplit i hi
    have hpre : ∀ i ∈ pre, P i := ih (x :: post) (by simpa using hsplit)
    rcases List.mem_append.1 hi with hi | hi
    · exact hpre i hi
    · obtain rfl : i = x := by simpa using hi
      have hx : l = pre ++ i :: post := by simpa using hsplit.symm
      refine hstep i (by simp [hx]) fun j hj hjl ↦ hpre j ?_
      have hbefore := h i (by simp [hx]) j hj hjl
      rw [hx] at hl hbefore
      exact hbefore.mem_front hl

/-! ### Sweeps -/

variable [DecidableEq ι]

/-- Run `step` at each index of the list in turn, writing its value into the cell of that
index. -/
def sweep (step : ι → (ι → α) → α) (l : List ι) (s : ι → α) : ι → α :=
  l.foldl (fun s i ↦ Function.update s i (step i s)) s

variable (step : ι → (ι → α) → α)

@[simp]
theorem sweep_nil (s : ι → α) : sweep step [] s = s :=
  rfl

@[simp]
theorem sweep_cons (i : ι) (l : List ι) (s : ι → α) :
    sweep step (i :: l) s = sweep step l (Function.update s i (step i s)) :=
  rfl

theorem sweep_append (l l' : List ι) (s : ι → α) :
    sweep step (l ++ l') s = sweep step l' (sweep step l s) := by
  simp [sweep]

/-- A sweep whose steps write what is there changes nothing. -/
theorem sweep_eq_self {step : ι → (ι → α) → α} {s : ι → α}
    (h : ∀ i ∈ l, step i s = s i) : sweep step l s = s := by
  induction l with
  | nil => rfl
  | cons i l ih =>
    rw [sweep_cons, h i (by simp), Function.update_eq_self]
    exact ih fun j hj ↦ h j (by simp [hj])

/-- A cell outside the list keeps its value. -/
theorem sweep_of_notMem {i : ι} (hi : i ∉ l) (s : ι → α) : sweep step l s i = s i := by
  induction l generalizing s with
  | nil => rfl
  | cons j l ih =>
    simp only [List.mem_cons, not_or] at hi
    rw [sweep_cons, ih hi.2, Function.update_of_ne hi.1]

/-- What a step leaves alone, the sweep leaves alone. -/
theorem sweep_field {step : ι → (ι → α) → α} (f : α → β) (hf : ∀ i s, f (step i s) = f (s i))
    (l : List ι) (s : ι → α) (i : ι) : f (sweep step l s i) = f (s i) := by
  induction l generalizing s with
  | nil => rfl
  | cons j l ih =>
    rw [sweep_cons, ih]
    by_cases h : i = j
    · subst h
      rw [Function.update_self, hf]
    · rw [Function.update_of_ne h]

/-- The step at `i` looks at the cell `i` and the cells in `reads i`, and at nothing else. -/
def LocalTo (reads : ι → List ι) (step : ι → (ι → α) → α) : Prop :=
  ∀ i (s s' : ι → α), s i = s' i → (∀ j ∈ reads i, s j = s' j) → step i s = step i s'

/-- **The equation of a sweep.** When every step reads earlier cells only, the final cell at `i`
is the step evaluated at the final cells, with the initial value restored at `i` itself. -/
theorem sweep_eq_step {step : ι → (ι → α) → α} {reads : ι → List ι}
    (hloc : LocalTo reads step) (hl : l.Nodup) (hord : ReadsEarlier reads l)
    (hself : ∀ i, i ∉ reads i) (s : ι → α) {i : ι} (hi : i ∈ l) :
    sweep step l s i = step i (Function.update (sweep step l s) i (s i)) := by
  obtain ⟨pre, post, rfl⟩ := List.append_of_mem hi
  have hnd := hl
  rw [List.nodup_append] at hnd
  have hpost : i ∉ post := (List.nodup_cons.1 hnd.2.1).1
  have hpre : i ∉ pre := fun h ↦ hnd.2.2 i h i (by simp) rfl
  have hcell : sweep step (pre ++ i :: post) s i = step i (sweep step pre s) := by
    rw [sweep_append, sweep_cons, sweep_of_notMem step hpost, Function.update_self]
  rw [hcell]
  refine hloc i _ _ ?_ fun j hj ↦ ?_
  · rw [Function.update_self, sweep_of_notMem step hpre]
  · have hji : j ≠ i := fun h ↦ hself i (h ▸ hj)
    rw [Function.update_of_ne hji]
    by_cases hjl : j ∈ pre ++ i :: post
    · -- `j` is in the prefix: nothing after the prefix writes it
      have hjpre : j ∈ pre := (hord i hi j hj hjl).mem_front hl
      have hjrest : j ∉ i :: post := fun h ↦ hnd.2.2 j hjpre j h rfl
      rw [sweep_append, sweep_of_notMem step hjrest]
    · rw [sweep_of_notMem step hjl,
        sweep_of_notMem step fun h ↦ hjl (List.mem_append_left _ h)]

/-! ### Sweeps along edges

A pass that goes from index to index instead of reading a fixed set of cells: each step reads the
cell it comes from and rewrites the cell it goes to. -/

section Edges

variable {ε : Type*} (src tgt : ε → ι)

omit [DecidableEq ι] in
/-- The edges grow the set `S`: each comes from an index already reached and goes to a new one. -/
def Grows : Set ι → List ε → Prop
  | _, [] => True
  | S, e :: l => src e ∈ S ∧ tgt e ∉ S ∧ Grows (insert (tgt e) S) l

/-- Run `step` along each edge in turn, writing into the cell the edge goes to. -/
def edgeSweep (step : ε → α → α → α) (l : List ε) (s : ι → α) : ι → α :=
  l.foldl (fun s e ↦ Function.update s (tgt e) (step e (s (src e)) (s (tgt e)))) s

variable {src tgt} {S : Set ι} {l : List ε}

section

omit [DecidableEq ι]

theorem Grows.notMem (h : Grows src tgt S l) {e : ε} (he : e ∈ l) : tgt e ∉ S := by
  induction l generalizing S with
  | nil => simp at he
  | cons e' l ih =>
    rcases List.mem_cons.1 he with rfl | he
    · exact h.2.1
    · exact fun hS ↦ ih h.2.2 he (Set.mem_insert_of_mem _ hS)

/-- What holds on `S` and passes along the edges holds wherever they lead. -/
theorem Grows.induction (h : Grows src tgt S l) {P : ι → Prop} (hS : ∀ i ∈ S, P i)
    (hstep : ∀ e ∈ l, P (src e) → P (tgt e)) : ∀ e ∈ l, P (tgt e) := by
  induction l generalizing S with
  | nil => simp
  | cons e' l ih =>
    have he' : P (tgt e') := hstep e' (by simp) (hS _ h.1)
    have hS' : ∀ i ∈ insert (tgt e') S, P i := by
      rintro i (rfl | hi)
      · exact he'
      · exact hS i hi
    intro e he
    rcases List.mem_cons.1 he with rfl | he
    · exact he'
    · exact ih h.2.2 hS' (fun e he ↦ hstep e (List.mem_cons_of_mem _ he)) e he

end

theorem edgeSweep_of_mem (step : ε → α → α → α) (h : Grows src tgt S l) {i : ι} (hi : i ∈ S)
    (s : ι → α) : edgeSweep src tgt step l s i = s i := by
  induction l generalizing S s with
  | nil => rfl
  | cons e l ih =>
    have hne : i ≠ tgt e := fun hie ↦ h.2.1 (hie ▸ hi)
    exact (ih h.2.2 (Set.mem_insert_of_mem _ hi) _).trans (Function.update_of_ne hne _ _)

/-- **The equation of an edge.** Along growing edges, the final cell an edge goes to is the step
evaluated at the final cell it comes from and the initial cell it overwrites. -/
theorem edgeSweep_edge (step : ε → α → α → α) (h : Grows src tgt S l) (s : ι → α) {e : ε}
    (he : e ∈ l) : edgeSweep src tgt step l s (tgt e) =
      step e (edgeSweep src tgt step l s (src e)) (s (tgt e)) := by
  induction l generalizing S s with
  | nil => simp at he
  | cons e' l ih =>
    set s' := Function.update s (tgt e') (step e' (s (src e')) (s (tgt e'))) with hs'
    rcases List.mem_cons.1 he with rfl | he
    · have hsrc : src e ≠ tgt e := fun hne ↦ h.2.1 (hne ▸ h.1)
      have hcell : s' (src e) = s (src e) := Function.update_of_ne hsrc _ _
      calc edgeSweep src tgt step l s' (tgt e)
          = s' (tgt e) := edgeSweep_of_mem step h.2.2 (Set.mem_insert _ _) s'
        _ = step e (s (src e)) (s (tgt e)) := Function.update_self _ _ _
        _ = step e (edgeSweep src tgt step l s' (src e)) (s (tgt e)) := by
            rw [edgeSweep_of_mem step h.2.2 (Set.mem_insert_of_mem _ h.1) s', hcell]
    · have hne : tgt e ≠ tgt e' := fun hne ↦ h.2.2.notMem he (hne ▸ Set.mem_insert _ _)
      have hcell : s' (tgt e) = s (tgt e) := Function.update_of_ne hne _ _
      exact (ih h.2.2 s' he).trans (by rw [hcell]; rfl)

/-- What a step leaves alone at the cell it writes, the pass leaves alone. -/
theorem edgeSweep_field {step : ε → α → α → α} (f : α → β) (hf : ∀ e a b, f (step e a b) = f b)
    (l : List ε) (s : ι → α) (i : ι) : f (edgeSweep src tgt step l s i) = f (s i) := by
  induction l generalizing s with
  | nil => rfl
  | cons e l ih =>
    refine (ih _).trans ?_
    rcases eq_or_ne i (tgt e) with rfl | h
    · exact (congrArg f (Function.update_self _ _ _)).trans (hf _ _ _)
    · exact congrArg f (Function.update_of_ne h _ _)

end Edges

/-! ### Cells that are named by a list -/

/-- A loop that rewrites the cells `f k`, each once. -/
theorem foldl_update_apply {κ : Type*} {f : κ → ι} (hf : Function.Injective f) (F : κ → α → α)
    {l : List κ} (hl : l.Nodup) (s : ι → α) :
    let s' := l.foldl (fun s k ↦ Function.update s (f k) (F k (s (f k)))) s
    (∀ k ∈ l, s' (f k) = F k (s (f k))) ∧ ∀ i, (∀ k ∈ l, i ≠ f k) → s' i = s i := by
  induction l generalizing s with
  | nil => exact ⟨by simp, fun _ _ ↦ rfl⟩
  | cons k l ih =>
    rw [List.nodup_cons] at hl
    obtain ⟨hin, hout⟩ := ih hl.2 (Function.update s (f k) (F k (s (f k))))
    refine ⟨fun k' hk' ↦ ?_, fun i hi ↦ ?_⟩
    · rcases List.mem_cons.1 hk' with rfl | hk'
      · have hne : ∀ k'' ∈ l, f k' ≠ f k'' := fun k'' hk'' e ↦ hl.1 (hf e ▸ hk'')
        rw [List.foldl_cons, hout _ hne, Function.update_self]
      · have hne : k' ≠ k := fun e ↦ hl.1 (e ▸ hk')
        rw [List.foldl_cons, hin k' hk', Function.update_of_ne (hf.ne hne)]
    · rw [List.foldl_cons, hout i fun k' hk' ↦ hi k' (List.mem_cons_of_mem k hk'),
        Function.update_of_ne (hi k List.mem_cons_self)]
