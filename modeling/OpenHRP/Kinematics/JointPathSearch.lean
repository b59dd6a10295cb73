import OpenHRP.Foundations.Runs
import OpenHRP.Kinematics.JointPath
import OpenHRP.Model.SimplePath

/-!
# Searches with one joint path

A `JointPath` can be searched again and again, from any link to any other. `find` refreshes the path
of links on every call, but extracts the joints only when a path was found: after a search that
fails, the joints of an earlier search are still there, `find` answers that there are joints, and
`calcJacobian` reads the end link of a path without links.

So a run of searches is right exactly when each search between two trees is made while no joints are
held (`along_rightSearch_iff`).
-/

namespace OpenHRP

variable {ι K : Type*} [DecidableEq ι]

/-! ### The program -/

namespace LinkPath

/-- `LinkPath::findPathFromRootSub`. The number bounds the recursion over the ancestors. -/
def findPathFromRootSub (t : LinkTree ι) : ℕ → ι → List ι → List ι
  | 0, _, links => links
  | depth + 1, link, links =>
    let links := links ++ [link]
    (t.parent link).elim links fun parent ↦ findPathFromRootSub t depth parent links

/-- `LinkPath::find(end)`. -/
def findFromRoot (t : LinkTree ι) (endLink : ι) : LinkTraverse ι :=
  ⟨(findPathFromRootSub t t.links.length endLink []).reverse, 0⟩

end LinkPath

/-- Links in trees: each link is in one. -/
structure LinkForest (ι : Type*) where
  treeOf : ι → LinkTree ι
  mem_treeOf : ∀ i, i ∈ (treeOf i).links
  treeOf_eq : ∀ i j, j ∈ (treeOf i).links → treeOf j = treeOf i

namespace JointPath

/-- `JointPath::find(end)`. -/
def findFromRoot (t : LinkTree ι) (s : Store ι K) (path : JointPath ι) (endLink : ι) :
    Bool × JointPath ι :=
  let path := extractJoints s { path with linkPath := LinkPath.findFromRoot t endLink }
  (!path.joints.isEmpty, path)

/-- A search: between two links, or from the root to a link. -/
inductive Search (ι : Type*) where
  | find (base endLink : ι)
  | findFromRoot (endLink : ι)

variable (f : LinkForest ι) (s : Store ι K)

/-- What a search returns, and the joint path it leaves. -/
def search (path : JointPath ι) : Search ι → Bool × JointPath ι
  | .find base endLink => find (f.treeOf base) s path base endLink
  | .findFromRoot endLink => findFromRoot (f.treeOf endLink) s path endLink

/-- A joint path that has just been constructed: `JointPath()`, `JointPath(base, end)` or
`JointPath(end)`. The counters that `JointPath()` leaves unset are given. -/
inductive Constructed : JointPath ι → Prop
  | empty (numUpwardConnections numUpwardJointConnections : ℕ) :
    Constructed ⟨⟨[], numUpwardConnections⟩, [], numUpwardJointConnections⟩
  | between (base endLink : ι) (path : JointPath ι)
    (h : path.linkPath = (LinkPath.find (f.treeOf base) base endLink).2) :
    Constructed (extractJoints s path)
  | fromRoot (endLink : ι) (path : JointPath ι)
    (h : path.linkPath = LinkPath.findFromRoot (f.treeOf endLink) endLink) :
    Constructed (extractJoints s path)

/-! ### What a search should leave -/

/-- The joints are links of the path. -/
def OnLinkPath (path : JointPath ι) : Prop :=
  path.joints ⊆ path.linkPath.links

/-- `calcJacobian` reads the end link of a path that has one. -/
def HasEndLink (path : JointPath ι) : Prop :=
  path.joints ≠ [] → ∃ targetLink, path.linkPath.links.getLast? = some targetLink

/-- The search leaves joints on the path, and none, with the answer `false`, if its ends are not in
one tree. -/
structure RightSearch (path : JointPath ι) (call : Search ι) : Prop where
  onLinkPath : (search f s path call).2.OnLinkPath
  hasEndLink : (search f s path call).2.HasEndLink
  noJoints : ∀ base endLink, call = .find base endLink → endLink ∉ (f.treeOf base).links →
    (search f s path call).1 = false ∧ (search f s path call).2.joints = []

/-- The ends of the search are in one tree, or no joints are held. -/
def SafeSearch (path : JointPath ι) : Search ι → Prop
  | .find base endLink => endLink ∈ (f.treeOf base).links ∨ path.joints = []
  | .findFromRoot _ => True

/-! ### What `extractJoints` and the searches leave -/

variable {f s}

section

omit [DecidableEq ι]

theorem OnLinkPath.hasEndLink {path : JointPath ι} (h : path.OnLinkPath) : path.HasEndLink := by
  intro hjoints
  obtain ⟨j, hj⟩ := List.exists_mem_of_ne_nil _ hjoints
  exact ⟨_, List.getLast?_eq_some_getLast (List.ne_nil_of_mem (h hj))⟩

/-- The loop of `extractJoints` takes links of the path. -/
theorem foldl_extractStep_subset (linkPath : LinkTraverse ι) (indices : List ℕ) (r : List ι × ℕ)
    (hr : r.1 ⊆ linkPath.links) :
    (indices.foldl (extractStep s linkPath) r).1 ⊆ linkPath.links := by
  induction indices generalizing r with
  | nil => exact hr
  | cons i indices ih =>
    refine ih _ ?_
    rw [extractStep]
    rcases hi : linkPath.links[i]? with _ | link
    · exact hr
    · rw [Option.elim_some]
      split
      · exact List.append_subset.2
          ⟨hr, List.cons_subset.2 ⟨List.mem_of_getElem? hi, List.nil_subset _⟩⟩
      · exact hr

end

variable (path : JointPath ι)

omit [DecidableEq ι] in
theorem linkPath_extractJoints : (extractJoints s path).linkPath = path.linkPath := by
  rw [extractJoints]
  split <;> rfl

variable {base endLink : ι}

/-- Forward kinematics can run along a path that is found. -/
theorem exists_isTraverse_find {t : LinkTree ι} (hbase : base ∈ t.links) (hend : endLink ∈ t.links)
    (path : JointPath ι) :
    ∃ ups downs, IsTraverse t base ups downs (find t s path base endLink).2.linkPath := by
  obtain ⟨ups, top, downs, hfind, hpath⟩ := LinkPath.exists_find hbase hend
  obtain ⟨ups', -, htr⟩ := hpath.exists_isTraverse
  have hlinkPath : (find t s path base endLink).2.linkPath = ⟨ups ++ top :: downs, ups.length⟩ := by
    rw [find, hfind]
    exact linkPath_extractJoints _
  exact ⟨ups', downs, hlinkPath ▸ htr⟩

omit [DecidableEq ι] in
theorem onLinkPath_extractJoints : (extractJoints s path).OnLinkPath := by
  rw [extractJoints]
  split
  · exact List.nil_subset _
  · refine List.append_subset.2 ⟨foldl_extractStep_subset _ _ _ (List.nil_subset _), ?_⟩
    intro link hlink
    have hlast := Option.mem_toList.1 (List.mem_of_mem_filter hlink)
    split at hlast
    · exact List.mem_of_getElem? hlast
    · cases hlast

/-- A search that fails changes the path of links only. -/
theorem find_of_notMem {t : LinkTree ι} (hbase : base ∈ t.links) (hend : endLink ∉ t.links)
    (path : JointPath ι) :
    find t s path base endLink =
      (!path.joints.isEmpty, { path with linkPath := ⟨[], 0⟩ }) := by
  have hfind : LinkPath.find t base endLink = (false, ⟨[], 0⟩) := by
    rw [LinkPath.find, LinkPath.findPathSub_of_notMem_links hend hbase,
      if_neg Bool.false_ne_true]
  rw [find, hfind]
  rfl

theorem onLinkPath_find {t : LinkTree ι} (hbase : base ∈ t.links) (hend : endLink ∈ t.links)
    (path : JointPath ι) : (find t s path base endLink).2.OnLinkPath := by
  obtain ⟨ups, top, downs, hfind, -⟩ := LinkPath.exists_find hbase hend
  rw [find, hfind]
  exact onLinkPath_extractJoints _

/-- **A search is right** exactly when its ends are in one tree or no joints are held before it. -/
theorem rightSearch_iff (call : Search ι) : RightSearch f s path call ↔ SafeSearch f path call := by
  rcases call with ⟨base, endLink⟩ | endLink
  · by_cases hend : endLink ∈ (f.treeOf base).links
    · have hpath := onLinkPath_find (s := s) (f.mem_treeOf base) hend path
      refine iff_of_true ⟨hpath, hpath.hasEndLink, fun base' endLink' h hnot ↦ ?_⟩ (.inl hend)
      obtain ⟨rfl, rfl⟩ := Search.find.inj h
      exact absurd hend hnot
    · have hsearch : search f s path (.find base endLink) =
          (!path.joints.isEmpty, { path with linkPath := ⟨[], 0⟩ }) :=
        find_of_notMem (f.mem_treeOf base) hend path
      refine ⟨fun h ↦ .inr ?_, fun h ↦ ?_⟩
      · have hjoints := (h.noJoints base endLink rfl hend).2
        rwa [hsearch] at hjoints
      · have hjoints : path.joints = [] := h.resolve_left hend
        refine ⟨?_, ?_, fun _ _ _ _ ↦ ?_⟩ <;> rw [hsearch]
        · show path.joints ⊆ []
          rw [hjoints]
          exact List.nil_subset _
        · exact fun h ↦ absurd hjoints h
        · exact ⟨by rw [hjoints]; rfl, hjoints⟩
  · have hpath : (findFromRoot (f.treeOf endLink) s path endLink).2.OnLinkPath :=
      onLinkPath_extractJoints _
    exact iff_of_true ⟨hpath, hpath.hasEndLink, nofun⟩ trivial

theorem Constructed.onLinkPath {path : JointPath ι} (h : Constructed f s path) :
    path.OnLinkPath := by
  rcases h with ⟨n, m⟩ | ⟨base, endLink, path, -⟩ | ⟨endLink, path, -⟩
  · exact List.nil_subset _
  · exact onLinkPath_extractJoints path
  · exact onLinkPath_extractJoints path

/-- **A run of searches is right** exactly when each search between two trees is made while no
joints are held. -/
theorem along_rightSearch_iff {path : JointPath ι} (hpath : Constructed f s path)
    (calls : List (Search ι)) :
    path.OnLinkPath ∧ path.HasEndLink ∧
      (Along (fun path call ↦ (search f s path call).2) (RightSearch f s) path calls ↔
        Along (fun path call ↦ (search f s path call).2) (SafeSearch f) path calls) := by
  have heq : RightSearch f s = SafeSearch f :=
    funext₂ fun path call ↦ propext (rightSearch_iff path call)
  rw [heq]
  exact ⟨hpath.onLinkPath, hpath.onLinkPath.hasEndLink, Iff.rfl⟩

/-! ### A joint path that stays behind -/

/-- A tree of the links 0 and 1, or one of the link 2 alone. -/
def twoTrees (single : Bool) : LinkTree (Fin 3) :=
  if single then ⟨2, .null, by decide⟩ else ⟨0, .link 1 .null .null, by decide⟩

/-- A link with a joint below link 0, and link 2 apart from them. -/
def twoTreesForest : LinkForest (Fin 3) where
  treeOf i := twoTrees (i = 2)
  mem_treeOf := by decide
  treeOf_eq i j h := by
    have hij : (j = 2) ↔ (i = 2) := by
      revert i j
      decide
    simp only [hij]

/-- Link 1 is a rotational joint. -/
def twoTreesStore : Store (Fin 3) ℚ := fun i ↦
  if i = 1 then { Link.blank with jointId := 0, jointType := .rotationalJoint } else Link.blank

/-- Within one tree nothing goes wrong. -/
theorem along_rightSearch_iff_oneTree :
    Along (fun path call ↦ (search twoTreesForest twoTreesStore path call).2)
      (RightSearch twoTreesForest twoTreesStore) ⟨⟨[], 0⟩, [], 0⟩
      [.find 0 2, .find 0 1, .findFromRoot 1, .find 1 0] :=
  ((along_rightSearch_iff (.empty 0 0) _).2.2).2
    ⟨.inr rfl, .inl (by decide), trivial, .inl (by decide), trivial⟩

/-- After a search that succeeds, a search for a link of another tree answers `true`: the joint of
the first search is still there, and the path has no links. -/
theorem find_stale :
    2 ∉ (twoTreesForest.treeOf 0).links ∧
      search twoTreesForest twoTreesStore
          (search twoTreesForest twoTreesStore ⟨⟨[], 0⟩, [], 0⟩ (.find 0 1)).2 (.find 0 2) =
        (true, ⟨⟨[], 0⟩, [1], 0⟩) ∧
      ¬Along (fun path call ↦ (search twoTreesForest twoTreesStore path call).2)
        (RightSearch twoTreesForest twoTreesStore) ⟨⟨[], 0⟩, [], 0⟩ [.find 0 1, .find 0 2] := by
  have hsearch : search twoTreesForest twoTreesStore
      (search twoTreesForest twoTreesStore ⟨⟨[], 0⟩, [], 0⟩ (.find 0 1)).2 (.find 0 2) =
        (true, ⟨⟨[], 0⟩, [1], 0⟩) := by decide
  refine ⟨by decide, hsearch, fun h ↦ ?_⟩
  have hfalse := (h.2.1.noJoints 0 2 rfl (by decide)).1
  rw [hsearch] at hfalse
  exact absurd hfalse (by decide)

end JointPath

end OpenHRP
