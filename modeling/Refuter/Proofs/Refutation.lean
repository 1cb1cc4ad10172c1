import Mathlib.Logic.Relation
import Refuter.Derivation.Graph
import Refuter.Proofs.Replay

/-! # What a contradiction depends on

The refutation is what remains of a derivation when every step is left out that did not
help to reach the contradiction. It is read off a graph of numbers, and has to be
understood as a part of the derivation.

- **Lines of descent.** Going back one generation for each link reaches every node from
  which the last one descends: a round in which no further link is reached leaves nothing
  to add (`Link.mem_lineage_iff`). Nothing else is asked of whoever looks for the nodes
  (`Link.IsAncestry`).
- **Numbers and steps.** A number names one clause and one step at most derives it, and the
  parents of a step come before it. So what the graph says of numbers holds of steps, in
  their order (`Derivation.Extends.parent_cases`, `Derivation.Extends.before_of_parent`).

**Key result.** The refutation of a run that finds the contradiction is the least part of
its derivation that stands on its own (`refutation_core`).
-/

namespace Refuter

/-! ### Lines of descent -/

namespace Link

variable {ν : Type} [DecidableEq ν] {links : List (Link ν)} {needed : List ν} {n m node : ν}

/-- A link leads from `n` to `m`. -/
def Parent (links : List (Link ν)) (n m : ν) : Prop :=
  ∃ link ∈ links, link.resolvent = m ∧ (n = link.left ∨ n = link.right)

/-- Nothing is missing: with a node its parents are there. -/
def Closed (links : List (Link ν)) (needed : List ν) : Prop :=
  ∀ n m, Parent links n m → m ∈ needed → n ∈ needed

theorem mem_needParents :
    n ∈ needParents links needed ↔ n ∈ needed ∨ ∃ m ∈ needed, Parent links n m := by
  unfold needParents
  rw [Finite.mem_insertAll, List.mem_flatMap]
  refine or_congr_right ⟨?_, ?_⟩
  · intro hparent
    obtain ⟨link, hlink, hn⟩ := hparent
    by_cases hres : link.resolvent ∈ needed
    · rw [if_pos hres] at hn
      exact ⟨_, hres, link, hlink, rfl, by simpa using hn⟩
    · rw [if_neg hres] at hn
      cases hn
  · intro hparent
    obtain ⟨m, hm, link, hlink, rfl, hn⟩ := hparent
    refine ⟨link, hlink, ?_⟩
    rw [if_pos hm]
    simpa using hn

/-- **Sound:** only nodes with a line of descent are added. -/
theorem descends_of_mem_ancestors {fuel : Nat} (h : n ∈ ancestors links fuel needed) :
    ∃ m ∈ needed, Relation.ReflTransGen (Parent links) n m := by
  induction fuel generalizing needed with
  | zero => exact ⟨n, h, .refl⟩
  | succ fuel ih =>
    obtain ⟨m, hm, hline⟩ := ih h
    rcases mem_needParents.1 hm with hm | ⟨m', hm', hparent⟩
    · exact ⟨m, hm, hline⟩
    · exact ⟨m', hm', hline.tail hparent⟩

theorem mem_ancestors_of_mem {fuel : Nat} (h : n ∈ needed) : n ∈ ancestors links fuel needed := by
  induction fuel generalizing needed with
  | zero => exact h
  | succ fuel ih => exact ih (mem_needParents.2 (.inl h))

/-- The links that are reached. -/
def reached (links : List (Link ν)) (needed : List ν) : List (Link ν) :=
  links.filter (·.resolvent ∈ needed)

/-- A round reaches further links, or afterwards nothing is missing. -/
theorem closed_or_reached_lt (links : List (Link ν)) (needed : List ν) :
    Closed links (needParents links needed) ∨
      (reached links needed).length < (reached links (needParents links needed)).length := by
  have hsub : (reached links needed).Sublist (reached links (needParents links needed)) := by
    apply List.monotone_filter_right
    intro link h
    exact decide_eq_true (mem_needParents.2 (.inl (of_decide_eq_true h)))
  by_cases heq : (reached links needed).length = (reached links (needParents links needed)).length
  · left
    intro n m hparent hm
    obtain ⟨link, hlink, rfl, hn⟩ := hparent
    -- no more links are reached than before, so this one was reached before
    have hnow : link ∈ reached links (needParents links needed) :=
      List.mem_filter.2 ⟨hlink, decide_eq_true hm⟩
    rw [← hsub.eq_of_length heq] at hnow
    have hbefore : link.resolvent ∈ needed := of_decide_eq_true (List.mem_filter.1 hnow).2
    exact mem_needParents.2 (.inr ⟨_, hbefore, link, hlink, rfl, hn⟩)
  · right
    have hle := hsub.length_le
    omega

/-- Where nothing is missing, nothing is added. -/
theorem Closed.ancestors (h : Closed links needed) (fuel : Nat) :
    Closed links (ancestors links fuel needed) := by
  induction fuel generalizing needed with
  | zero => exact h
  | succ fuel ih =>
    have hsame : ∀ n, n ∈ needParents links needed ↔ n ∈ needed := by
      intro n
      rw [mem_needParents]
      refine or_iff_left_of_imp ?_
      intro hparent
      obtain ⟨m, hm, hparent⟩ := hparent
      exact h n m hparent hm
    apply ih
    intro n m hparent hm
    rw [hsame] at hm ⊢
    exact h n m hparent hm

/-- Enough rounds leave nothing missing: each one before reaches a further link. -/
theorem closed_ancestors {fuel : Nat}
    (h : links.length < (reached links needed).length + fuel) :
    Closed links (ancestors links fuel needed) := by
  induction fuel generalizing needed with
  | zero =>
    have hle : (reached links needed).length ≤ links.length := List.length_filter_le ..
    omega
  | succ fuel ih =>
    show Closed links (ancestors links fuel (needParents links needed))
    rcases closed_or_reached_lt links needed with hclosed | hless
    · exact hclosed.ancestors fuel
    · apply ih
      omega

theorem closed_lineage (links : List (Link ν)) (node : ν) : Closed links (lineage links node) := by
  unfold lineage
  by_cases hnone : (reached links [node]).length = 0
  · -- no link leads to the node, so it has no parents
    have hstart : Closed links [node] := by
      intro n m hparent hm
      obtain ⟨link, hlink, rfl, _⟩ := hparent
      have hmem : link ∈ reached links [node] := List.mem_filter.2 ⟨hlink, decide_eq_true hm⟩
      rw [List.eq_nil_of_length_eq_zero hnone] at hmem
      cases hmem
    exact hstart.ancestors _
  · apply closed_ancestors
    omega

/-- **The lineage of a node** is exactly what it descends from. -/
theorem mem_lineage_iff : n ∈ lineage links node ↔ Relation.ReflTransGen (Parent links) n node := by
  constructor
  · intro h
    obtain ⟨m, hm, hline⟩ := descends_of_mem_ancestors h
    rw [List.mem_singleton.1 hm] at hline
    exact hline
  · intro h
    induction h using Relation.ReflTransGen.head_induction_on with
    | refl => exact mem_ancestors_of_mem (List.mem_singleton_self node)
    | head hparent _ ih => exact closed_lineage links node _ _ hparent ih

/-- A function tells from which other nodes a node descends. Whether it names the node itself
    is left open. -/
def IsAncestry (ancestry : List (Link ν) → ν → List ν) : Prop :=
  ∀ links n node, n ≠ node →
    (n ∈ ancestry links node ↔ Relation.ReflTransGen (Parent links) n node)

theorem isAncestry_lineage : IsAncestry (lineage (ν := ν)) :=
  fun _ _ _ _ => mem_lineage_iff

theorem IsAncestry.mem_cons_iff {ancestry : List (Link ν) → ν → List ν} (h : IsAncestry ancestry) :
    n ∈ node :: ancestry links node ↔ Relation.ReflTransGen (Parent links) n node := by
  rw [List.mem_cons]
  by_cases heq : n = node
  · rw [heq]
    exact iff_of_true (.inl rfl) .refl
  · rw [or_iff_right heq, h links n node heq]

end Link

/-! ### Numbers and steps -/

/-- The parents of a step. -/
def Step.parents (s : Step) : List NumberedClause :=
  [s.left, s.right]

namespace Derivation.Extends

variable {start d : Derivation} {s t : Step} {c : NumberedClause} {k m : Nat}

/-- A parent stands before the clause derived. -/
theorem parent_place (h : start.Extends d) (hs : d.steps[k]? = some s) (hc : c ∈ s.parents) :
    ∃ i, i < start.working.size + k ∧ d.working.clauses[i]? = some c := by
  obtain ⟨i, j, hij, hj, hleft, hright⟩ := (h.checks k s hs).parents
  rcases List.mem_cons.1 hc with rfl | hc
  · exact ⟨i, by omega, hleft⟩
  · rw [List.mem_singleton.1 hc]
    exact ⟨j, hj, hright⟩

/-- **Where a parent comes from:** it was given, or an earlier step derived it. -/
theorem parent_cases (h : start.Extends d) (hs : d.steps[k]? = some s) (hc : c ∈ s.parents) :
    c ∈ start.working.clauses ∨ ∃ m t, m < k ∧ d.steps[m]? = some t ∧ t.resolvent = c := by
  obtain ⟨i, hi, hplace⟩ := h.parent_place hs hc
  rw [h.clauses] at hplace
  by_cases hgiven : i < start.working.clauses.length
  · rw [List.getElem?_append_left hgiven] at hplace
    exact .inl (List.mem_of_getElem? hplace)
  · rw [List.getElem?_append_right (Nat.le_of_not_lt hgiven), List.getElem?_map,
      Option.map_eq_some_iff] at hplace
    obtain ⟨t, ht, hresolvent⟩ := hplace
    refine .inr ⟨_, t, ?_, ht, hresolvent⟩
    unfold WorkingSet.size at hi
    omega

/-- **A number names one step:** what has the number of the clause it derives is that
    clause and stands at its place. -/
theorem place_of_id_eq (h : start.Extends d) (hids : (d.working.clauses.map (·.id)).Nodup)
    (ht : d.steps[m]? = some t) {i : Nat} (hc : d.working.clauses[i]? = some c)
    (hid : t.resolvent.id = c.id) : t.resolvent = c ∧ i = start.working.size + m := by
  have hplaced := (h.checks m t ht).placed
  have hi := eq_of_id_eq hids hplaced hc hid
  rw [hi, hc] at hplaced
  exact ⟨(Option.some.inj hplaced).symm, hi.symm⟩

/-- Steps that derive clauses of one number are one step. -/
theorem index_eq_of_id_eq (h : start.Extends d) (hids : (d.working.clauses.map (·.id)).Nodup)
    (hs : d.steps[k]? = some s) (ht : d.steps[m]? = some t)
    (hid : t.resolvent.id = s.resolvent.id) : m = k := by
  obtain ⟨_, hplace⟩ := h.place_of_id_eq hids ht (h.checks k s hs).placed hid
  omega

/-- **The step that derives a parent comes first.** -/
theorem before_of_parent (h : start.Extends d) (hids : (d.working.clauses.map (·.id)).Nodup)
    (hs : d.steps[k]? = some s) (hc : c ∈ s.parents) (ht : d.steps[m]? = some t)
    (hid : t.resolvent.id = c.id) : t.resolvent = c ∧ m < k := by
  obtain ⟨i, hi, hplace⟩ := h.parent_place hs hc
  obtain ⟨hsame, hat⟩ := h.place_of_id_eq hids ht hplace hid
  exact ⟨hsame, by omega⟩

end Derivation.Extends

theorem Derivation.parent_links_iff {d : Derivation} {n m : Int} :
    Link.Parent d.links n m ↔ ∃ s ∈ d.steps, s.resolvent.id = m ∧ ∃ c ∈ s.parents, c.id = n := by
  unfold Link.Parent Derivation.links
  simp only [List.mem_map, exists_exists_and_eq_and, Step.link, Step.parents, List.mem_cons,
    List.not_mem_nil, or_false, exists_eq_or_imp, exists_eq_left, eq_comm (a := n)]

/-! ### The part that is kept -/

/-- A part of the steps that stands on its own, given some clauses, and from which no step
    can be left out. -/
structure Step.Core (steps : List Step) (given : List NumberedClause) (core : List Step) :
    Prop where
  /-- The steps are in order. -/
  sublist : core.Sublist steps
  /-- The last one is the last of all. -/
  last : core.getLast? = steps.getLast?
  /-- Each parent was given, or an earlier step of the part derives it. -/
  supported : ∀ before s after, core = before ++ s :: after → ∀ c ∈ s.parents,
    c ∈ given ∨ ∃ t ∈ before, t.resolvent = c
  /-- Each step but the last derives a parent of a later one. -/
  used : ∀ before s after, core = before ++ s :: after → after ≠ [] →
    ∃ t ∈ after, s.resolvent ∈ t.parents
  /-- Whoever takes the last step, and with a step all that derive its parents, takes all. -/
  least : ∀ S : Set Step, (∀ s, steps.getLast? = some s → s ∈ S) →
    (∀ s ∈ S, ∀ t ∈ steps, t.resolvent ∈ s.parents → t ∈ S) → ∀ s ∈ core, s ∈ S

/-- Where an entry stands among those kept, and where among all. -/
theorem exists_split_of_filter_eq {α : Type} {p : α → Bool} {l before after : List α} {a : α}
    (h : l.filter p = before ++ a :: after) :
    ∃ l₁ l₂, l = l₁ ++ a :: l₂ ∧ l₁.filter p = before ∧ l₂.filter p = after := by
  obtain ⟨l₁, l', hl, hbefore, hrest⟩ := List.filter_eq_append_iff.1 h
  obtain ⟨skipped, l₂, hl', hskipped, _, hafter⟩ := List.filter_eq_cons_iff.1 hrest
  refine ⟨l₁ ++ skipped, l₂, ?_, ?_, hafter⟩
  · rw [hl, hl', List.append_assoc]
  · rw [List.filter_append, hbefore, List.filter_eq_nil_iff.2 hskipped, List.append_nil]

namespace Derivation

variable {ancestry : List (Link Int) → Int → List Int} {start d : Derivation} {last : Step}

theorem refutationBy_of_last (hlast : d.steps.getLast? = some last)
    (hempty : last.resolvent.toClause.isEmpty = true) :
    d.refutationBy ancestry
      = d.steps.filter (·.resolvent.id ∈
          last.resolvent.id :: ancestry d.links last.resolvent.id) := by
  have hclause : d.emptyClause = some last.resolvent := by
    unfold emptyClause
    rw [hlast]
    exact if_pos hempty
  unfold refutationBy
  rw [hclause]

/-- Without the contradiction at the end there is no refutation. -/
theorem refutationBy_eq_nil
    (h : ∀ s, d.steps.getLast? = some s → s.resolvent.toClause.isEmpty = false) :
    d.refutationBy ancestry = [] := by
  have hclause : d.emptyClause = none := by
    unfold emptyClause
    cases hlast : d.steps.getLast? with
    | none => rfl
    | some s =>
      show (if s.resolvent.toClause.isEmpty then some s.resolvent else none) = none
      rw [h s hlast]
      rfl
  unfold refutationBy
  rw [hclause]

section Refuted

variable (hlast : d.steps.getLast? = some last)
  (hempty : last.resolvent.toClause.isEmpty = true)
include hlast hempty

/-- A step of the refutation stands between steps of the derivation, and those of them that
    are needed are the others of the refutation. -/
theorem refutationBy_split {before after : List Step} {s : Step}
    (h : d.refutationBy ancestry = before ++ s :: after) :
    ∃ l₁ l₂, d.steps = l₁ ++ s :: l₂ ∧ (∀ t ∈ l₁, t ∈ d.refutationBy ancestry → t ∈ before) ∧
      (∀ t ∈ l₂, t ∈ d.refutationBy ancestry → t ∈ after) ∧ (l₂ = [] → after = []) := by
  have hfilter : d.refutationBy ancestry = _ := refutationBy_of_last hlast hempty
  obtain ⟨l₁, l₂, hsteps, hbefore, hafter⟩ := exists_split_of_filter_eq (hfilter.symm.trans h)
  have hneeded : ∀ t ∈ d.refutationBy ancestry,
      decide (t.resolvent.id ∈ last.resolvent.id :: ancestry d.links last.resolvent.id)
        = true := by
    intro t ht
    rw [hfilter] at ht
    exact (List.mem_filter.1 ht).2
  refine ⟨l₁, l₂, hsteps, ?_, ?_, ?_⟩
  · intro t ht hrefutation
    rw [← hbefore]
    exact List.mem_filter.2 ⟨ht, hneeded t hrefutation⟩
  · intro t ht hrefutation
    rw [← hafter]
    exact List.mem_filter.2 ⟨ht, hneeded t hrefutation⟩
  · intro hnil
    rw [← hafter, hnil]
    rfl

theorem getLast?_refutationBy : (d.refutationBy ancestry).getLast? = some last := by
  obtain ⟨before, hsteps⟩ := List.getLast?_eq_some_iff.1 hlast
  rw [refutationBy_of_last hlast hempty, hsteps, List.filter_append, List.filter_cons_of_pos]
  · exact List.getLast?_concat
  · exact decide_eq_true (List.mem_cons_self)

variable (hancestry : Link.IsAncestry ancestry)
include hancestry

/-- The steps of the refutation are those that a line of descent joins to the last. -/
theorem mem_refutationBy_iff {s : Step} :
    s ∈ d.refutationBy ancestry ↔ s ∈ d.steps ∧
      Relation.ReflTransGen (Link.Parent d.links) s.resolvent.id last.resolvent.id := by
  rw [refutationBy_of_last hlast hempty, List.mem_filter, decide_eq_true_eq,
    hancestry.mem_cons_iff]

theorem descends_of_split {before after : List Step} {s : Step}
    (h : d.refutationBy ancestry = before ++ s :: after) :
    s ∈ d.steps ∧
      Relation.ReflTransGen (Link.Parent d.links) s.resolvent.id last.resolvent.id :=
  (mem_refutationBy_iff hlast hempty hancestry).1 (h ▸ List.mem_append_cons_self)

end Refuted

end Derivation

namespace Derivation.Extends

variable {ancestry : List (Link Int) → Int → List Int} {start d : Derivation} {last : Step}
  (h : start.Extends d)
  (hlast : d.steps.getLast? = some last) (hempty : last.resolvent.toClause.isEmpty = true)
  (hancestry : Link.IsAncestry ancestry)
include h hlast hempty hancestry

/-- What the refutation uses was given or is part of it. -/
theorem refutationBy_supported {before after : List Step} {s : Step}
    (hcore : d.refutationBy ancestry = before ++ s :: after) {c : NumberedClause} (hc : c ∈ s.parents) :
    c ∈ start.working.clauses ∨ ∃ t ∈ before, t.resolvent = c := by
  obtain ⟨l₁, l₂, hsteps, hbefore, _, _⟩ := refutationBy_split hlast hempty hcore
  have hs : d.steps[l₁.length]? = some s := by
    simp [hsteps]
  rcases h.parent_cases hs hc with hgiven | ⟨m, t, hm, ht, hresolvent⟩
  · exact .inl hgiven
  · refine .inr ⟨t, ?_, hresolvent⟩
    have hfirst : t ∈ l₁ := by
      rw [hsteps, List.getElem?_append_left hm] at ht
      exact List.mem_of_getElem? ht
    apply hbefore t hfirst
    -- the line of descent from the step goes on to its parent
    obtain ⟨hmem, hline⟩ := descends_of_split hlast hempty hancestry hcore
    refine (mem_refutationBy_iff hlast hempty hancestry).2 ⟨List.mem_of_getElem? ht, hline.head ?_⟩
    exact parent_links_iff.2 ⟨s, hmem, rfl, c, hc, by rw [hresolvent]⟩

variable (hids : (d.working.clauses.map (·.id)).Nodup)
include hids

/-- What the refutation derives before the contradiction it uses. -/
theorem refutationBy_used {before after : List Step} {s : Step}
    (hcore : d.refutationBy ancestry = before ++ s :: after) (hafter : after ≠ []) :
    ∃ t ∈ after, s.resolvent ∈ t.parents := by
  obtain ⟨l₁, l₂, hsteps, _, hkept, hnil⟩ := refutationBy_split hlast hempty hcore
  have hs : d.steps[l₁.length]? = some s := by
    simp [hsteps]
  obtain ⟨_, hline⟩ := descends_of_split hlast hempty hancestry hcore
  rcases hline.cases_head with heq | ⟨n, hparent, hrest⟩
  · -- then it is the last step
    have hend : d.steps[d.steps.length - 1]? = some last := by
      rw [← List.getLast?_eq_getElem?]
      exact hlast
    have hindex := h.index_eq_of_id_eq hids hend hs heq
    rw [hsteps, List.length_append, List.length_cons] at hindex
    have hl₂ : l₂ = [] := List.eq_nil_of_length_eq_zero (by omega)
    exact absurd (hnil hl₂) hafter
  · obtain ⟨t, ht, rfl, c, hc, hid⟩ := parent_links_iff.1 hparent
    obtain ⟨m, hm⟩ := List.getElem?_of_mem ht
    obtain ⟨hresolvent, hlt⟩ := h.before_of_parent hids hm hc hs hid.symm
    rw [← hresolvent] at hc
    refine ⟨t, hkept t ?_ ((mem_refutationBy_iff hlast hempty hancestry).2 ⟨ht, hrest⟩), hc⟩
    rw [hsteps, List.getElem?_append_right (by omega)] at hm
    obtain ⟨j, hj⟩ : ∃ j, m - l₁.length = j + 1 := ⟨m - l₁.length - 1, by omega⟩
    rw [hj, List.getElem?_cons_succ] at hm
    exact List.mem_of_getElem? hm

/-- Nothing smaller will do. -/
theorem refutationBy_least {S : Set Step} (hS : last ∈ S)
    (hclosed : ∀ s ∈ S, ∀ t ∈ d.steps, t.resolvent ∈ s.parents → t ∈ S) {s : Step}
    (hs : s ∈ d.refutationBy ancestry) : s ∈ S := by
  -- along the line of descent, all steps that derive a clause of that number are in `S`
  have hall : ∀ n, Relation.ReflTransGen (Link.Parent d.links) n last.resolvent.id →
      ∀ t ∈ d.steps, t.resolvent.id = n → t ∈ S := by
    intro n hline
    induction hline using Relation.ReflTransGen.head_induction_on with
    | refl =>
      intro t ht hid
      obtain ⟨m, hm⟩ := List.getElem?_of_mem ht
      obtain ⟨k, hk⟩ := List.getElem?_of_mem (List.mem_of_getLast? hlast)
      obtain rfl := h.index_eq_of_id_eq hids hk hm hid
      rw [hm] at hk
      rw [Option.some.inj hk]
      exact hS
    | head hparent _ ih =>
      intro t ht hid
      obtain ⟨s, hs, hresolvent, c, hc, hcid⟩ := parent_links_iff.1 hparent
      obtain ⟨m, hm⟩ := List.getElem?_of_mem ht
      obtain ⟨k, hk⟩ := List.getElem?_of_mem hs
      obtain ⟨hsame, _⟩ := h.before_of_parent hids hk hc hm (hid.trans hcid.symm)
      rw [← hsame] at hc
      exact hclosed s (ih s hs hresolvent) t ht hc
  obtain ⟨hmem, hline⟩ := (mem_refutationBy_iff hlast hempty hancestry).1 hs
  exact hall _ hline s hmem rfl

/-- **The refutation is a core** of a derivation that ends with the contradiction. -/
theorem core_refutationBy :
    Step.Core d.steps start.working.clauses (d.refutationBy ancestry) where
  sublist := by
    rw [refutationBy_of_last hlast hempty]
    exact List.filter_sublist
  last := (getLast?_refutationBy hlast hempty).trans hlast.symm
  supported _ _ _ hcore _ hc := h.refutationBy_supported hlast hempty hancestry hcore hc
  used _ _ _ hcore hafter := h.refutationBy_used hlast hempty hancestry hids hcore hafter
  least _ hS hclosed _ hs := h.refutationBy_least hlast hempty hancestry hids (hS last hlast) hclosed hs

end Derivation.Extends

/-! ### The main result -/

/-- Adding clauses keeps the books. -/
theorem WorkingSet.Kept.addAll {ws : WorkingSet} (h : ws.Kept) (added : List Clause) :
    (added.foldl (fun ws c => (ws.add c).2) ws).Kept := by
  induction added generalizing ws with
  | nil => exact h
  | cons c rest ih => exact ih (h.add c)

/-- **The refutation is the least part that stands on its own.** Take any clauses with
    different numbers, add any others, and run any loop on a fresh derivation from them. If
    its last step derives the contradiction, the refutation is a core of the derivation,
    given the clauses of the start: in order, up to the last step, complete, without a step
    that is not used, and part of every other choice of steps that is complete. If not, or
    if there are no steps, it is empty. So it is for whatever tells from which other nodes
    a node descends. -/
theorem refutation_core {ancestry : List (Link Int) → Int → List Int}
    (hancestry : Link.IsAncestry ancestry) {clauses : List NumberedClause}
    (hids : (clauses.map (·.id)).Nodup) (added : List Clause) (loop : Loop) (query : Option String)
    (negatedQuery : Option NumberedClause) (trace : List Record) :
    ∃ fresh, WorkingSet.ofClauses (clauses.map NumberedClause.labelled) = .ok fresh ∧
      let working := added.foldl (fun ws c => (ws.add c).2) fresh
      let d := (loop.run { working, query, negatedQuery, trace }).derivation
      (∀ s, d.steps.getLast? = some s → s.resolvent.toClause.isEmpty = true →
        Step.Core d.steps working.clauses (d.refutationBy ancestry)) ∧
      ((∀ s, d.steps.getLast? = some s → s.resolvent.toClause.isEmpty = false) →
        d.refutationBy ancestry = []) := by
  refine ⟨.initial clauses, ofClauses_labelled hids, ?_⟩
  intro working d
  refine ⟨?_, Derivation.refutationBy_eq_nil⟩
  have hkept : d.working.Kept := loop.kept_run ((WorkingSet.kept_initial hids).addAll added)
  have hopen : { working, query, negatedQuery, trace : Derivation }.outcome = none := rfl
  obtain ⟨e, outcome, events, hrun, hext, _⟩ := loop.replays hopen rfl
  -- entering the outcome touches neither steps nor clauses
  have hclosed : d = e.close outcome := congrArg Run.derivation hrun
  rw [hclosed] at hkept ⊢
  intro s hlast hempty
  exact hext.core_refutationBy hlast hempty hancestry hkept.distinct

/-- A fact and a rule. -/
def factAndRule : List NumberedClause :=
  [{ literals := [{ name := "P" }], id := 4 },
   { literals := [{ name := "P", negated := true }, { name := "Q" }], id := 1 }]

/-- With `¬Q` added there are two ways to the contradiction. The search derives `Q` on its
    way and then takes the other one. -/
theorem refutation_core_factAndRule :
    Link.IsAncestry (Link.lineage (ν := Int)) ∧ (factAndRule.map (·.id)).Nodup ∧
    ∃ fresh, WorkingSet.ofClauses (factAndRule.map NumberedClause.labelled) = .ok fresh ∧
      let working := (fresh.add ⟨[{ name := "Q", negated := true }]⟩).2
      let d := (Loop.run ⟨.incremental, none⟩ { working }).derivation
      d.length = 3 ∧ d.refutation.map (·.number) = [2, 3] ∧
      Step.Core d.steps working.clauses d.refutation := by
  have hids : (factAndRule.map (·.id)).Nodup := by decide
  obtain ⟨fresh, hfresh, hcore, _⟩ := refutation_core Link.isAncestry_lineage hids
    [⟨[{ name := "Q", negated := true }]⟩] ⟨.incremental, none⟩ none none []
  refine ⟨Link.isAncestry_lineage, hids, fresh, hfresh, ?_⟩
  obtain rfl : .initial factAndRule = fresh :=
    Except.ok.inj ((ofClauses_labelled hids).symm.trans hfresh)
  intro working d
  have hlength : d.length = 3 := by decide +kernel
  have hlast : (d.steps.getLast?.map (·.resolvent.toClause.isEmpty)) = some true := by
    decide +kernel
  obtain ⟨s, hs, hempty⟩ := Option.map_eq_some_iff.1 hlast
  exact ⟨hlength, by decide +kernel, hcore s hs hempty⟩

end Refuter
