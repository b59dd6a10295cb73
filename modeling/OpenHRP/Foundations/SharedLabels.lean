import Mathlib.Data.List.Nodup

/-!
# Labels that two agents share

Agents register labels, one after the other and no label twice. Two agents are partners by a label
that they have registered and nobody else has.

With a registration, an agent's partners by other labels stay as they are (`partners_append_perm`).
The second user of a label becomes the partner of the first one, and with the third user these two
are no longer partners by the label.
-/

namespace OpenHRP

variable {τ ε : Type*} {r : List (τ × ε)} {z t : τ} {e e' : ε}

/-! ### Users -/

section Users

variable [DecidableEq ε]

/-- The agents that have registered a label, in order. -/
def users (r : List (τ × ε)) (e : ε) : List τ :=
  (r.filter fun p ↦ p.2 = e).map Prod.fst

theorem mem_users : t ∈ users r e ↔ (t, e) ∈ r := by
  simp [users]

theorem nodup_users (h : r.Nodup) (e : ε) : (users r e).Nodup := by
  refine (h.filter _).map_on fun p hp q hq hpq ↦ ?_
  rw [List.mem_filter, decide_eq_true_eq] at hp hq
  exact Prod.ext hpq (hp.2.trans hq.2.symm)

theorem users_append (r : List (τ × ε)) (z : τ) (e : ε) :
    users (r ++ [(z, e)]) e = users r e ++ [z] := by
  simp [users]

theorem users_append_of_ne (h : e' ≠ e) (r : List (τ × ε)) (z : τ) :
    users (r ++ [(z, e)]) e' = users r e' := by
  simp [users, Ne.symm h]

end Users

/-! ### Labels of an agent -/

section Labels

variable [DecidableEq τ]

/-- The labels that an agent has registered, in order. -/
def labels (r : List (τ × ε)) (t : τ) : List ε :=
  (r.filter fun p ↦ p.1 = t).map Prod.snd

theorem mem_labels : e ∈ labels r t ↔ (t, e) ∈ r := by
  simp [labels]

theorem nodup_labels (h : r.Nodup) (t : τ) : (labels r t).Nodup := by
  refine (h.filter _).map_on fun p hp q hq hpq ↦ ?_
  rw [List.mem_filter, decide_eq_true_eq] at hp hq
  exact Prod.ext (hp.2.trans hq.2.symm) hpq

theorem labels_append (r : List (τ × ε)) (z : τ) (e : ε) :
    labels (r ++ [(z, e)]) z = labels r z ++ [e] := by
  simp [labels]

theorem labels_append_of_ne (h : t ≠ z) (r : List (τ × ε)) (e : ε) :
    labels (r ++ [(z, e)]) t = labels r t := by
  simp [labels, Ne.symm h]

end Labels

/-! ### Partners -/

variable [DecidableEq τ] [DecidableEq ε]

/-- The other one of the two users of a label. -/
def partnerAt (r : List (τ × ε)) (t : τ) (e : ε) : Option τ :=
  match users r e with
  | [a, b] => if a = t then some b else if b = t then some a else none
  | _ => none

/-- The partners of an agent, once for each label that they share with it. -/
def partners (r : List (τ × ε)) (t : τ) : List τ :=
  (labels r t).filterMap (partnerAt r t)

theorem partnerAt_eq_some {s : τ} (h : r.Nodup) :
    partnerAt r t e = some s ↔ users r e = [t, s] ∨ users r e = [s, t] := by
  have hnodup := nodup_users h e
  rw [partnerAt]
  split
  · next a b hab =>
    rw [hab, List.nodup_cons, List.mem_singleton] at hnodup
    have hne : a ≠ b := hnodup.1
    rw [hab]
    by_cases ha : a = t
    · subst ha
      simp [Ne.symm hne]
    · by_cases hb : b = t
      · subst hb
        simp [hne]
      · simp [ha, hb]
  · next hne => exact ⟨fun h ↦ (nomatch h), fun h ↦ (h.elim (hne t s) (hne s t)).elim⟩

theorem mem_partners {s : τ} (h : r.Nodup) :
    s ∈ partners r t ↔ ∃ e, users r e = [t, s] ∨ users r e = [s, t] := by
  rw [partners, List.mem_filterMap]
  constructor
  · rintro ⟨e, -, he⟩
    exact ⟨e, (partnerAt_eq_some h).1 he⟩
  · rintro ⟨e, he⟩
    refine ⟨e, mem_labels.2 (mem_users.1 ?_), (partnerAt_eq_some h).2 he⟩
    rcases he with he | he <;> simp [he]

theorem length_partners_le (r : List (τ × ε)) (t : τ) :
    (partners r t).length ≤ (labels r t).length :=
  List.length_filterMap_le _ _

/-- The partners by other labels. -/
def partnersBut (r : List (τ × ε)) (t : τ) (e : ε) : List τ :=
  ((labels r t).erase e).filterMap (partnerAt r t)

/-- The partner by a label, and those by other labels. -/
theorem partners_perm (h : r.Nodup) (t : τ) (e : ε) :
    (partners r t).Perm ((partnerAt r t e).toList ++ partnersBut r t e) := by
  by_cases he : e ∈ labels r t
  · refine ((List.perm_cons_erase he).filterMap _).trans ?_
    rw [List.filterMap_cons]
    cases partnerAt r t e <;> exact .refl _
  · have hnone : partnerAt r t e = none := by
      rw [Option.eq_none_iff_forall_ne_some]
      intro s hs
      have hmem : t ∈ users r e := by
        rcases (partnerAt_eq_some h).1 hs with hs | hs <;> simp [hs]
      exact he (mem_labels.2 (mem_users.1 hmem))
    rw [hnone, partnersBut, List.erase_of_not_mem he]
    exact .refl _

/-- With a registration, the partners by other labels stay as they are. -/
theorem partners_append_perm (h : (r ++ [(z, e)]).Nodup) (t : τ) :
    (partners (r ++ [(z, e)]) t).Perm
      ((partnerAt (r ++ [(z, e)]) t e).toList ++ partnersBut r t e) := by
  have hr : r.Nodup := (List.nodup_append.1 h).1
  have hlabels : (labels (r ++ [(z, e)]) t).erase e = (labels r t).erase e := by
    by_cases ht : t = z
    · subst ht
      have hnew : e ∉ labels r t := by
        rw [mem_labels]
        exact fun hmem ↦ (List.nodup_append.1 h).2.2 _ hmem _ (List.mem_singleton_self _) rfl
      rw [labels_append, List.erase_append_right _ hnew, List.erase_of_not_mem hnew]
      simp
    · rw [labels_append_of_ne ht]
  have hbut : partnersBut (r ++ [(z, e)]) t e = partnersBut r t e := by
    rw [partnersBut, partnersBut, hlabels]
    refine List.filterMap_congr fun e' he' ↦ ?_
    have hne : e' ≠ e := by
      rintro rfl
      exact (nodup_labels hr t).not_mem_erase he'
    rw [partnerAt, partnerAt, users_append_of_ne hne]
  rw [← hbut]
  exact partners_perm h t e

end OpenHRP
