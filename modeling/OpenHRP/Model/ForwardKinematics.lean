import OpenHRP.Model.Link
import OpenHRP.Model.LinkTraverse

/-!
# Forward kinematics

`LinkTraverse::calcForwardKinematics` walks a traverse from its base, up and then down, and places
every link from the one it is connected to: pose, velocity and acceleration. `calcUpward` computes
a parent from its child, `calcDownward` a child from its parent.

Seen without the joint axes `sw` and `sv`, which an upward step also writes into the child, the
walk is a sweep along the connections of the traverse; so every connection satisfies one equation
between final cells (`calcForwardKinematics_up`, `calcForwardKinematics_down`), and poses do not
depend on whether velocities are calculated.
-/

open Matrix

namespace OpenHRP

variable {ι K : Type*} [Field K] [CMath K]

/-! ### One connection -/

/-- `case Link::ROTATIONAL_JOINT` of the upward switch. -/
def upwardRotational (calcVelocity calcAcceleration : Bool) (child link : Link K) : Link K :=
  let R := child.R * (rodrigues child.a child.q)ᵀ
  let arm := R *ᵥ child.b
  let link := { link with R := R, p := child.p - arm }
  if calcVelocity then
    let sw := R *ᵥ child.a
    let w := child.w - child.dq • sw
    let link := { link with w := w, v := child.v - cross w arm }
    if calcAcceleration then
      { link with
        dw := child.dw - child.dq • cross child.w sw - child.ddq • sw,
        dv := child.dv - cross child.w (cross child.w arm) - cross child.dw arm }
    else link
  else link

/-- `case Link::SLIDE_JOINT` of the upward switch. -/
def upwardSlide (calcVelocity calcAcceleration : Bool) (child link : Link K) : Link K :=
  let R := child.R
  let arm := R *ᵥ (child.b + child.q • child.d)
  let link := { link with R := R, p := child.p - arm }
  if calcVelocity then
    let sv := R *ᵥ child.d
    let link := { link with w := child.w, v := child.v - child.dq • sv }
    if calcAcceleration then
      { link with
        dw := child.dw,
        dv := child.dv - cross child.w (cross child.w arm) - cross child.dw arm -
          (2 * child.dq) • cross child.w sv - child.ddq • sv }
    else link
  else link

/-- `case Link::FIXED_JOINT` and `default` of the upward switch. -/
def upwardFixed (calcVelocity calcAcceleration : Bool) (child link : Link K) : Link K :=
  let link := { link with R := child.R, p := child.p - child.R *ᵥ child.b }
  if calcVelocity then
    let link := { link with w := child.w, v := child.v }
    if calcAcceleration then { link with dw := child.dw, dv := child.dv } else link
  else link

/-- The parent `link` of `child`, computed from the child. -/
def calcUpward (calcVelocity calcAcceleration : Bool) (child link : Link K) : Link K :=
  match child.jointType with
  | .rotationalJoint => upwardRotational calcVelocity calcAcceleration child link
  | .slideJoint => upwardSlide calcVelocity calcAcceleration child link
  | .fixedJoint | .freeJoint => upwardFixed calcVelocity calcAcceleration child link

/-- The joint axis an upward step leaves in the child, `link` being the parent it computed. -/
def calcUpwardAxis (calcVelocity : Bool) (link child : Link K) : Link K :=
  match child.jointType with
  | .rotationalJoint => if calcVelocity then { child with sw := link.R *ᵥ child.a } else child
  | .slideJoint => if calcVelocity then { child with sv := link.R *ᵥ child.d } else child
  | .fixedJoint | .freeJoint => child

/-- `case Link::ROTATIONAL_JOINT` of the downward switch. -/
def downwardRotational (calcVelocity calcAcceleration : Bool) (parent link : Link K) : Link K :=
  let arm := parent.R *ᵥ link.b
  let link := { link with R := parent.R * rodrigues link.a link.q, p := parent.p + arm }
  if calcVelocity then
    let sw := parent.R *ᵥ link.a
    let link :=
      { link with sw := sw, w := parent.w + link.dq • sw, v := parent.v + cross parent.w arm }
    if calcAcceleration then
      { link with
        dw := parent.dw + link.dq • cross parent.w sw + link.ddq • sw,
        dv := parent.dv + cross parent.w (cross parent.w arm) + cross parent.dw arm }
    else link
  else link

/-- `case Link::SLIDE_JOINT` of the downward switch. -/
def downwardSlide (calcVelocity calcAcceleration : Bool) (parent link : Link K) : Link K :=
  let arm := parent.R *ᵥ (link.b + link.q • link.d)
  let link := { link with R := parent.R, p := parent.p + arm }
  if calcVelocity then
    let sv := parent.R *ᵥ link.d
    let link := { link with sv := sv, w := parent.w, v := parent.v + link.dq • sv }
    if calcAcceleration then
      { link with
        dw := parent.dw,
        dv := parent.dv + cross parent.w (cross parent.w arm) + cross parent.dw arm +
          (2 * link.dq) • cross parent.w sv + link.ddq • sv }
    else link
  else link

/-- `case Link::FIXED_JOINT` and `default` of the downward switch. -/
def downwardFixed (calcVelocity calcAcceleration : Bool) (parent link : Link K) : Link K :=
  let link := { link with R := parent.R, p := parent.R *ᵥ link.b + parent.p }
  if calcVelocity then
    let link := { link with w := parent.w, v := parent.v }
    if calcAcceleration then { link with dw := parent.dw, dv := parent.dv } else link
  else link

/-- A link computed from its parent. -/
def calcDownward (calcVelocity calcAcceleration : Bool) (parent link : Link K) : Link K :=
  match link.jointType with
  | .rotationalJoint => downwardRotational calcVelocity calcAcceleration parent link
  | .slideJoint => downwardSlide calcVelocity calcAcceleration parent link
  | .fixedJoint | .freeJoint => downwardFixed calcVelocity calcAcceleration parent link

/-! ### The walk -/

section Walk

variable [DecidableEq ι]

/-- One turn of the upward loop: from `child` to its parent `link`. -/
def upwardStep (calcVelocity calcAcceleration : Bool) (s : Store ι K) (child link : ι) :
    Store ι K :=
  let link' := calcUpward calcVelocity calcAcceleration (s child) (s link)
  Function.update (Function.update s link link') child (calcUpwardAxis calcVelocity link' (s child))

/-- One turn of the downward loop. The parent is there: only the root has none. -/
def downwardStep (t : LinkTree ι) (calcVelocity calcAcceleration : Bool) (s : Store ι K)
    (link : ι) : Store ι K :=
  (t.parent link).elim s fun parent ↦
    Function.update s link (calcDownward calcVelocity calcAcceleration (s parent) (s link))

/-- `LinkTraverse::calcForwardKinematics`. -/
def calcForwardKinematics (t : LinkTree ι) (tr : LinkTraverse ι)
    (calcVelocity calcAcceleration : Bool) (s : Store ι K) : Store ι K :=
  let s := ((tr.links.zip tr.links.tail).take tr.numUpwardConnections).foldl
    (fun s e ↦ upwardStep calcVelocity calcAcceleration s e.1 e.2) s
  (tr.links.drop (tr.numUpwardConnections + 1)).foldl
    (downwardStep t calcVelocity calcAcceleration) s

end Walk

/-! ### Connections -/

/-- A connection of a traverse: the link it comes from, the link it computes, and whether it leads
from a child to its parent. -/
structure Connection (ι : Type*) where
  source : ι
  target : ι
  isUpward : Bool

/-- The connections of an upward part from `base`. -/
def upConnections : ι → List ι → List (Connection ι)
  | _, [] => []
  | c, p :: l => ⟨c, p, true⟩ :: upConnections p l

section Connections

variable [DecidableEq ι] (t : LinkTree ι)

/-- The connections of a downward part. -/
def downConnections (l : List ι) : List (Connection ι) :=
  l.filterMap fun i ↦ (t.parent i).map fun p ↦ ⟨p, i, false⟩

/-- The connections of a traverse. -/
def connections (base : ι) (ups downs : List ι) : List (Connection ι) :=
  upConnections base ups ++ downConnections t downs

variable {t}

section

omit [DecidableEq ι]

theorem grows_append {S : Set ι} {l l' : List (Connection ι)} :
    Grows Connection.source Connection.target S (l ++ l') ↔
      Grows Connection.source Connection.target S l ∧
        Grows Connection.source Connection.target
          (S ∪ { i | i ∈ l.map Connection.target }) l' := by
  induction l generalizing S with
  | nil => simp [Grows]
  | cons e l ih =>
    have hset : insert e.target S ∪ { i | i ∈ l.map Connection.target } =
        S ∪ { i | i ∈ (e :: l).map Connection.target } := by
      refine Set.ext fun j ↦ ?_
      simp only [Set.mem_union, Set.mem_insert_iff, Set.mem_ofPred_eq, List.map_cons,
        List.mem_cons]
      tauto
    rw [List.cons_append, Grows, Grows, ih, hset]
    tauto

theorem map_target_upConnections (base : ι) (ups : List ι) :
    (upConnections base ups).map Connection.target = ups := by
  induction ups generalizing base with
  | nil => rfl
  | cons p l ih => rw [upConnections, List.map_cons, ih]

end

variable {base : ι}

theorem grows_upConnections {ups : List ι} (h : Ascends t (base :: ups)) {S : Set ι}
    (hbase : base ∈ S) (hS : ∀ i ∈ ups, i ∉ S) :
    Grows Connection.source Connection.target S (upConnections base ups) := by
  induction ups generalizing base S with
  | nil => trivial
  | cons p l ih =>
    have htail : Ascends t (p :: l) := (List.isChain_cons_cons.1 h).2
    refine ⟨hbase, hS p (by simp), ih htail (Set.mem_insert p S) fun i hi ↦ ?_⟩
    rintro (hip | hiS)
    · have hlt := htail.idxOf_lt hi
      rw [hip] at hlt
      exact lt_irrefl _ hlt
    · exact hS i (by simp [hi]) hiS

theorem downConnections_cons {p i : ι} {l : List ι} (h : t.parent i = some p) :
    downConnections t (i :: l) = ⟨p, i, false⟩ :: downConnections t l := by
  rw [downConnections, List.filterMap_cons, h]
  rfl

theorem grows_downConnections {S : Set ι} {downs : List ι} (h : Descends t S downs) :
    Grows Connection.source Connection.target S (downConnections t downs) := by
  induction downs generalizing S with
  | nil => trivial
  | cons i l ih =>
    obtain ⟨⟨p, hp, hpi⟩, hi, hl⟩ := h
    rw [downConnections_cons hpi]
    exact ⟨hp, hi, ih hl⟩

variable {tr : LinkTraverse ι} {ups downs : List ι}

/-- The connections of a traverse reach every link from one reached before. -/
theorem IsTraverse.grows (h : IsTraverse t base ups downs tr) :
    Grows Connection.source Connection.target {base} (connections t base ups downs) := by
  refine grows_append.2 ⟨grows_upConnections h.ascends rfl fun i hi hib ↦ ?_, ?_⟩
  · have hlt := h.ascends.idxOf_lt hi
    rw [show i = base from hib] at hlt
    exact lt_irrefl _ hlt
  · refine grows_downConnections ((congrArg (Descends t · downs) (Set.ext fun j ↦ ?_)).mp
      h.descends)
    rw [map_target_upConnections]
    simp [List.mem_cons]

omit [DecidableEq ι] in
theorem mem_upConnections {base c p : ι} {ups l l' : List ι}
    (h : base :: ups = l ++ c :: p :: l') : ⟨c, p, true⟩ ∈ upConnections base ups := by
  induction l generalizing base ups with
  | nil =>
    obtain ⟨rfl, rfl⟩ := List.cons.inj h
    exact List.mem_cons_self
  | cons q l ih =>
    obtain ⟨rfl, rfl⟩ := List.cons.inj h
    cases l with
    | nil => exact List.mem_cons_of_mem _ (ih rfl)
    | cons q' l => exact List.mem_cons_of_mem _ (ih rfl)

theorem mem_downConnections {p c : ι} {downs : List ι} (h : t.parent c = some p)
    (hc : c ∈ downs) : ⟨p, c, false⟩ ∈ downConnections t downs :=
  List.mem_filterMap.2 ⟨c, hc, by rw [h]; rfl⟩

variable {e : Connection ι}

omit [DecidableEq ι] in
theorem exists_of_mem_upConnections {ups : List ι} (h : e ∈ upConnections base ups) :
    e.isUpward = true ∧ ∃ l l', base :: ups = l ++ e.source :: e.target :: l' := by
  induction ups generalizing base with
  | nil => simp [upConnections] at h
  | cons p l ih =>
    rcases List.mem_cons.1 h with rfl | h
    · exact ⟨rfl, [], l, rfl⟩
    · obtain ⟨hup, l₁, l₂, heq⟩ := ih h
      exact ⟨hup, base :: l₁, l₂, by rw [heq, List.cons_append]⟩

theorem of_mem_downConnections {downs : List ι} (h : e ∈ downConnections t downs) :
    e.isUpward = false ∧ e.target ∈ downs ∧ t.parent e.target = some e.source := by
  obtain ⟨i, hi, he⟩ := List.mem_filterMap.1 h
  obtain ⟨p, hp, rfl⟩ := Option.map_eq_some_iff.1 he
  exact ⟨rfl, hi, hp⟩

/-- What holds at the base and passes along connections holds on the whole traverse. -/
theorem IsTraverse.induction (h : IsTraverse t base ups downs tr) {P : ι → Prop} (hbase : P base)
    (hup : ∀ c p, (∃ l l', base :: ups = l ++ c :: p :: l') → P c → P p)
    (hdown : ∀ p, ∀ c ∈ downs, t.parent c = some p → P p → P c) : ∀ i ∈ tr.links, P i := by
  have htarget : ∀ e ∈ connections t base ups downs, P e.target := by
    refine h.grows.induction (fun i hi ↦ ?_) fun e he hsource ↦ ?_
    · obtain rfl : i = base := hi
      exact hbase
    · rcases List.mem_append.1 he with he | he
      · exact hup _ _ (exists_of_mem_upConnections he).2 hsource
      · obtain ⟨-, hmem, hparent⟩ := of_mem_downConnections he
        exact hdown _ _ hmem hparent hsource
  intro i hi
  rw [h.eq] at hi
  rcases List.mem_cons.1 hi with rfl | hi
  · exact hbase
  · rcases List.mem_append.1 hi with hi | hi
    · rw [← map_target_upConnections base ups] at hi
      obtain ⟨e, he, rfl⟩ := List.mem_map.1 hi
      exact htarget e (List.mem_append_left _ he)
    · obtain ⟨p, -, hp⟩ := h.descends.exists_parent hi
      exact htarget ⟨p, i, false⟩ (List.mem_append_right _ (mem_downConnections hp hi))

/-- A parent and a child that are both on a traverse are connected, one way or the other. -/
theorem IsTraverse.exists_connection (h : IsTraverse t base ups downs tr) {p c : ι}
    (hpc : t.parent c = some p) (hp : p ∈ tr.links) (hc : c ∈ tr.links) :
    ⟨c, p, true⟩ ∈ connections t base ups downs ∨
      ⟨p, c, false⟩ ∈ connections t base ups downs := by
  rcases h.neighbours hpc hp hc with ⟨l, l', hl⟩ | hc
  · exact .inl (List.mem_append_left _ (mem_upConnections hl))
  · exact .inr (List.mem_append_right _ (mem_downConnections hpc hc))

end Connections

/-! ### The walk as a sweep along connections -/

/-- A link without the joint axes. -/
def dropAxis (link : Link K) : Link K :=
  { link with sw := 0, sv := 0 }

/-- What a connection makes of the link it computes. -/
def connect (calcVelocity calcAcceleration : Bool) (e : Connection ι) (source target : Link K) :
    Link K :=
  dropAxis (if e.isUpward then calcUpward calcVelocity calcAcceleration source target
    else calcDownward calcVelocity calcAcceleration source target)

section View

variable (v a : Bool) (source target : Link K)

theorem dropAxis_upwardRotational : dropAxis (upwardRotational v a source target) =
    dropAxis (upwardRotational v a (dropAxis source) (dropAxis target)) := by
  cases v <;> cases a <;> dsimp only [upwardRotational, dropAxis] <;> rfl

theorem dropAxis_downwardRotational : dropAxis (downwardRotational v a source target) =
    dropAxis (downwardRotational v a (dropAxis source) (dropAxis target)) := by
  cases v <;> cases a <;> dsimp only [downwardRotational, dropAxis] <;> rfl

omit [CMath K]

theorem dropAxis_upwardSlide : dropAxis (upwardSlide v a source target) =
    dropAxis (upwardSlide v a (dropAxis source) (dropAxis target)) := by
  cases v <;> cases a <;> dsimp only [upwardSlide, dropAxis] <;> rfl

theorem dropAxis_upwardFixed : dropAxis (upwardFixed v a source target) =
    dropAxis (upwardFixed v a (dropAxis source) (dropAxis target)) := by
  cases v <;> cases a <;> dsimp only [upwardFixed, dropAxis] <;> rfl

theorem dropAxis_downwardSlide : dropAxis (downwardSlide v a source target) =
    dropAxis (downwardSlide v a (dropAxis source) (dropAxis target)) := by
  cases v <;> cases a <;> dsimp only [downwardSlide, dropAxis] <;> rfl

theorem dropAxis_downwardFixed : dropAxis (downwardFixed v a source target) =
    dropAxis (downwardFixed v a (dropAxis source) (dropAxis target)) := by
  cases v <;> cases a <;> dsimp only [downwardFixed, dropAxis] <;> rfl

theorem dropAxis_calcUpwardAxis :
    dropAxis (calcUpwardAxis v source target) = dropAxis target := by
  rw [calcUpwardAxis]
  split <;> cases v <;> rfl

end View

theorem dropAxis_calcUpward (v a : Bool) (child link : Link K) :
    dropAxis (calcUpward v a child link) =
      dropAxis (calcUpward v a (dropAxis child) (dropAxis link)) := by
  rw [calcUpward, calcUpward, show (dropAxis child).jointType = child.jointType from rfl]
  cases child.jointType with
  | rotationalJoint => exact dropAxis_upwardRotational v a child link
  | slideJoint => exact dropAxis_upwardSlide v a child link
  | fixedJoint => exact dropAxis_upwardFixed v a child link
  | freeJoint => exact dropAxis_upwardFixed v a child link

theorem dropAxis_calcDownward (v a : Bool) (parent link : Link K) :
    dropAxis (calcDownward v a parent link) =
      dropAxis (calcDownward v a (dropAxis parent) (dropAxis link)) := by
  rw [calcDownward, calcDownward, show (dropAxis link).jointType = link.jointType from rfl]
  cases link.jointType with
  | rotationalJoint => exact dropAxis_downwardRotational v a parent link
  | slideJoint => exact dropAxis_downwardSlide v a parent link
  | fixedJoint => exact dropAxis_downwardFixed v a parent link
  | freeJoint => exact dropAxis_downwardFixed v a parent link

section Sweep

variable [DecidableEq ι]

theorem dropAxis_upwardStep (v a : Bool) (s : Store ι K) {child link : ι} (h : child ≠ link) :
    dropAxis ∘ upwardStep v a s child link =
      Function.update (dropAxis ∘ s) link
        (dropAxis (calcUpward v a (dropAxis (s child)) (dropAxis (s link)))) := by
  have hchild : dropAxis (calcUpwardAxis v (calcUpward v a (s child) (s link)) (s child)) =
      (dropAxis ∘ s) child := dropAxis_calcUpwardAxis _ _ _
  rw [upwardStep, Function.comp_update, Function.comp_update, hchild, ← dropAxis_calcUpward,
    Function.update_comm h.symm]
  refine congrArg (Function.update · link _) (Function.update_eq_self_iff.2 rfl)

theorem dropAxis_downwardStep {t : LinkTree ι} (v a : Bool) (s : Store ι K) {parent link : ι}
    (h : t.parent link = some parent) :
    dropAxis ∘ downwardStep t v a s link =
      Function.update (dropAxis ∘ s) link
        (dropAxis (calcDownward v a (dropAxis (s parent)) (dropAxis (s link)))) := by
  rw [downwardStep, h, Option.elim_some, Function.comp_update, ← dropAxis_calcDownward]

variable {t : LinkTree ι} {base : ι} {ups downs : List ι} {tr : LinkTraverse ι}

theorem dropAxis_foldl_upwardStep (v a : Bool) (h : Ascends t (base :: ups)) (s : Store ι K) :
    dropAxis ∘ ((base :: ups).zip ups).foldl (fun s e ↦ upwardStep v a s e.1 e.2) s =
      edgeSweep Connection.source Connection.target (connect v a) (upConnections base ups)
        (dropAxis ∘ s) := by
  induction ups generalizing base s with
  | nil => rfl
  | cons p l ih =>
    obtain ⟨hp, hl⟩ := List.isChain_cons_cons.1 h
    rw [List.zip_cons_cons, List.foldl_cons, ih hl,
      dropAxis_upwardStep v a s (t.parent_ne_self hp).symm]
    rfl

theorem dropAxis_foldl_downwardStep (v a : Bool) {S : Set ι} (h : Descends t S downs)
    (s : Store ι K) :
    dropAxis ∘ downs.foldl (downwardStep t v a) s =
      edgeSweep Connection.source Connection.target (connect v a) (downConnections t downs)
        (dropAxis ∘ s) := by
  induction downs generalizing S s with
  | nil => rfl
  | cons i l ih =>
    obtain ⟨⟨p, -, hp⟩, -, hl⟩ := h
    rw [List.foldl_cons, ih hl, dropAxis_downwardStep v a s hp, downConnections_cons hp]
    rfl

omit [DecidableEq ι] in
/-- The pairs of neighbours at the front of a list. -/
theorem take_zip_tail (base : ι) (ups downs : List ι) :
    ((base :: (ups ++ downs)).zip (ups ++ downs)).take ups.length = (base :: ups).zip ups := by
  induction ups generalizing base with
  | nil => simp
  | cons p l ih =>
    rw [List.cons_append, List.zip_cons_cons, List.length_cons, List.take_succ_cons, ih,
      List.zip_cons_cons]

/-- **The walk is a sweep** along the connections of the traverse. -/
theorem dropAxis_calcForwardKinematics (h : IsTraverse t base ups downs tr) (v a : Bool)
    (s : Store ι K) :
    dropAxis ∘ calcForwardKinematics t tr v a s =
      edgeSweep Connection.source Connection.target (connect v a)
        (connections t base ups downs) (dropAxis ∘ s) := by
  have hdrop : (base :: (ups ++ downs)).drop (ups.length + 1) = downs := by
    rw [List.drop_succ_cons, List.drop_left]
  rw [h.eq, calcForwardKinematics, List.tail_cons, take_zip_tail, hdrop,
    dropAxis_foldl_downwardStep v a h.descends, dropAxis_foldl_upwardStep v a h.ascends,
    connections, edgeSweep, edgeSweep, edgeSweep, List.foldl_append]

theorem calcForwardKinematics_base (h : IsTraverse t base ups downs tr) (v a : Bool)
    (s : Store ι K) : dropAxis (calcForwardKinematics t tr v a s base) = dropAxis (s base) := by
  have hsweep := congrFun (dropAxis_calcForwardKinematics h v a s) base
  rw [edgeSweep_of_mem _ h.grows rfl] at hsweep
  exact hsweep

/-- The equation of a connection, between final links. -/
theorem calcForwardKinematics_connection (h : IsTraverse t base ups downs tr) (v a : Bool)
    (s : Store ι K) {e : Connection ι} (he : e ∈ connections t base ups downs) :
    dropAxis (calcForwardKinematics t tr v a s e.target) =
      connect v a e (dropAxis (calcForwardKinematics t tr v a s e.source))
        (dropAxis (s e.target)) := by
  have hsweep := dropAxis_calcForwardKinematics h v a s
  calc dropAxis (calcForwardKinematics t tr v a s e.target)
      = edgeSweep Connection.source Connection.target (connect v a)
          (connections t base ups downs) (dropAxis ∘ s) e.target := congrFun hsweep e.target
    _ = connect v a e (edgeSweep Connection.source Connection.target (connect v a)
          (connections t base ups downs) (dropAxis ∘ s) e.source) (dropAxis (s e.target)) :=
        edgeSweep_edge _ h.grows _ he
    _ = _ := by rw [← congrFun hsweep e.source]; rfl

end Sweep

/-! ### Poses -/

/-- The rotation of a link relative to its parent. -/
def jointRotation (link : Link K) : Matrix33 K :=
  match link.jointType with
  | .rotationalJoint => rodrigues link.a link.q
  | .slideJoint | .fixedJoint | .freeJoint => 1

omit [CMath K] in
/-- The position of a link relative to its parent. -/
def jointOffset (link : Link K) : Vector3 K :=
  match link.jointType with
  | .slideJoint => link.b + link.q • link.d
  | .rotationalJoint | .fixedJoint | .freeJoint => link.b

theorem calcDownward_pose (v a : Bool) (parent link : Link K) :
    let link' := calcDownward v a parent link
    link'.R = parent.R * jointRotation link ∧
      link'.p = parent.p + parent.R *ᵥ jointOffset link := by
  rw [calcDownward, jointRotation, jointOffset]
  cases link.jointType with
  | rotationalJoint => cases v <;> cases a <;> exact ⟨rfl, rfl⟩
  | slideJoint => cases v <;> cases a <;> exact ⟨(mul_one _).symm, rfl⟩
  | fixedJoint => cases v <;> cases a <;> exact ⟨(mul_one _).symm, add_comm _ _⟩
  | freeJoint => cases v <;> cases a <;> exact ⟨(mul_one _).symm, add_comm _ _⟩

theorem calcUpward_pose (v a : Bool) (child link : Link K) :
    let link' := calcUpward v a child link
    link'.R = child.R * (jointRotation child)ᵀ ∧
      link'.p = child.p - (child.R * (jointRotation child)ᵀ) *ᵥ jointOffset child := by
  rw [calcUpward, jointRotation, jointOffset]
  cases child.jointType with
  | rotationalJoint => cases v <;> cases a <;> exact ⟨rfl, rfl⟩
  | slideJoint =>
    rw [transpose_one, mul_one]
    cases v <;> cases a <;> exact ⟨rfl, rfl⟩
  | fixedJoint =>
    rw [transpose_one, mul_one]
    cases v <;> cases a <;> exact ⟨rfl, rfl⟩
  | freeJoint =>
    rw [transpose_one, mul_one]
    cases v <;> cases a <;> exact ⟨rfl, rfl⟩

/-! ### What the walk leaves alone -/

/-- A link without what the walk writes. -/
def constants (link : Link K) : Link K :=
  { link with p := 0, R := 0, v := 0, w := 0, dv := 0, dw := 0, sw := 0, sv := 0 }

theorem constants_calcUpward (v a : Bool) (child link : Link K) :
    constants (calcUpward v a child link) = constants link := by
  rw [calcUpward]
  split <;> cases v <;> cases a <;> rfl

theorem constants_calcDownward (v a : Bool) (parent link : Link K) :
    constants (calcDownward v a parent link) = constants link := by
  rw [calcDownward]
  split <;> cases v <;> cases a <;> rfl

theorem constants_calcForwardKinematics [DecidableEq ι] {t : LinkTree ι} {base : ι}
    {ups downs : List ι} {tr : LinkTraverse ι} (h : IsTraverse t base ups downs tr) (v a : Bool)
    (s : Store ι K) (i : ι) :
    constants (calcForwardKinematics t tr v a s i) = constants (s i) := by
  have hconnect : ∀ (e : Connection ι) (source target : Link K),
      constants (connect v a e source target) = constants target := fun e source target ↦ by
    rw [connect]
    split_ifs
    · exact constants_calcUpward v a source target
    · exact constants_calcDownward v a source target
  have hsweep := congrFun (dropAxis_calcForwardKinematics h v a s) i
  calc constants (calcForwardKinematics t tr v a s i)
      = constants ((dropAxis ∘ calcForwardKinematics t tr v a s) i) := rfl
    _ = constants ((dropAxis ∘ s) i) := by
        rw [hsweep]
        exact edgeSweep_field constants hconnect _ _ i
    _ = constants (s i) := rfl

end OpenHRP
