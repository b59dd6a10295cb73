import OpenHRP.Foundations.Literals
import Mathlib.Data.List.Chain
import Mathlib.Data.Option.Basic

/-!
# Following links

A linked structure is a partial function `next` from nodes to nodes. `walk next` follows it to the
end of the chain; `Leads next R Root n` says that the chain from `n` does end, at a node of `Root`,
and that consecutive nodes are related by `R`. A walk that returns then is a list with these
properties (`Leads.walk_spec`).

`Leads` is kept by every change of the links that leaves them alone on a set closed under them
(`Leads.congr`): the frame rule for a structure that grows by fresh nodes.
-/

variable {α : Type*}

/-- The nodes met from `n` by following `next` to its end, in order; `none` when `fuel` steps do
not reach the end. -/
def walk (next : α → Option α) : ℕ → α → Option (List α)
  | 0, _ => none
  | fuel + 1, n =>
    match next n with
    | none => some [n]
    | some m => (walk next fuel m).map fun l ↦ n :: l

/-- The links from a node lead to a node of `Root`, and each of them is in `R`. -/
inductive Leads (next : α → Option α) (R : α → α → Prop) (Root : α → Prop) : α → Prop
  | root {n : α} : next n = none → Root n → Leads next R Root n
  | link {n m : α} : next n = some m → R n m → Leads next R Root m → Leads next R Root n

namespace Leads

variable {next next' : α → Option α} {R R' : α → α → Prop} {Root Root' : α → Prop} {n : α}

/-- A chain inside a set closed under the links does not see changes outside of it. -/
theorem congr {S : α → Prop} (h : Leads next R Root n) (hn : S n)
    (hclosed : ∀ a b, S a → next a = some b → S b) (hnext : ∀ a, S a → next' a = next a)
    (hR : ∀ a b, S a → S b → R a b → R' a b) (hRoot : ∀ a, S a → Root a → Root' a) :
    Leads next' R' Root' n := by
  induction h with
  | root hnone hr => exact .root ((hnext _ hn).trans hnone) (hRoot _ hn hr)
  | link hsome hr _ ih =>
    have hm := hclosed _ _ hn hsome
    exact .link ((hnext _ hn).trans hsome) (hR _ _ hn hm hr) (ih hm)

/-- What a walk along the links returns: a chain from the node to a root. -/
theorem walk_spec (h : Leads next R Root n) {fuel : ℕ} {l : List α}
    (hw : walk next fuel n = some l) :
    (∃ tl, l = n :: tl) ∧ l.IsChain R ∧ ∃ r, l.getLast? = some r ∧ Root r := by
  induction h generalizing fuel l with
  | @root n hnone hr =>
    cases fuel with
    | zero => cases hw
    | succ fuel =>
      rw [walk, hnone] at hw
      cases hw
      exact ⟨⟨[], rfl⟩, .singleton n, n, rfl, hr⟩
  | @link n m hsome hr _ ih =>
    cases fuel with
    | zero => cases hw
    | succ fuel =>
      rw [walk, hsome] at hw
      obtain ⟨l', hl', rfl⟩ := Option.map_eq_some_iff.1 hw
      obtain ⟨⟨tl, rfl⟩, hchain, r, hlast, hroot⟩ := ih hl'
      exact ⟨⟨m :: tl, rfl⟩, .cons_cons hr hchain, r, hlast, hroot⟩

/-- A chain that ends can be walked. -/
theorem exists_walk (h : Leads next R Root n) :
    ∃ l N, ∀ fuel, N ≤ fuel → walk next fuel n = some l := by
  induction h with
  | @root n hnone _ =>
    refine ⟨[n], 1, fun fuel hfuel ↦ ?_⟩
    obtain ⟨fuel, rfl⟩ := Nat.exists_eq_add_of_le' hfuel
    rw [walk, hnone]
  | @link n m hsome _ _ ih =>
    obtain ⟨l, N, hwalk⟩ := ih
    refine ⟨n :: l, N + 1, fun fuel hfuel ↦ ?_⟩
    obtain ⟨fuel, rfl⟩ := Nat.exists_eq_add_of_le' (Nat.le_of_add_left_le hfuel)
    rw [walk, hsome]
    dsimp only
    rw [hwalk fuel (by omega), Option.map_some]

/-- A chain still ends when its end gets a link to a node without one. -/
theorem hang (h : Leads next (fun _ _ ↦ True) (fun _ ↦ True) n) {S : α → Prop} (hn : S n)
    (hclosed : ∀ a b, S a → next a = some b → S b)
    (hnext : ∀ a, S a → next' a = next a ∨ next a = none ∧ ∃ b, next' a = some b ∧ next' b = none) :
    Leads next' (fun _ _ ↦ True) (fun _ ↦ True) n := by
  induction h with
  | @root n hnone _ =>
    rcases hnext n hn with heq | ⟨-, b, hsome, hnone'⟩
    · exact .root (heq.trans hnone) trivial
    · exact .link hsome trivial (.root hnone' trivial)
  | @link n m hsome _ _ ih =>
    rcases hnext n hn with heq | ⟨hnone, -⟩
    · exact .link (heq.trans hsome) trivial (ih (hclosed n m hn hsome))
    · cases hnone.symm.trans hsome

end Leads
