import Refuter.Proofs.Unifier
import Refuter.Resolution

/-! # The resolution rule, position by position

What a resolvent is made of, and when there is one: the first pair of
positions whose literals clash decides, and what is left over of both clauses
is carried through the unifier.
-/

namespace Refuter

/-- Two literals that clash have one name, opposite signs and a unifier. -/
theorem clash?_eq_some {l m : Literal} {σ : Substitution} (h : clash? l m = some σ) :
    l.negated ≠ m.negated ∧ unify l m = some σ := by
  unfold clash? at h
  split at h
  · rename_i hcomp
    simp only [Literal.isComplementary, Bool.and_eq_true, bne_iff_ne, ne_eq] at hcomp
    exact ⟨hcomp.2, h⟩
  · cases h

/-- A literal other than the one at a position stays when that one is taken
    away. -/
theorem eq_or_mem_eraseIdx {ls : List Literal} {i : Nat} {l k : Literal} (hl : ls[i]? = some l)
    (hk : k ∈ ls) : k = l ∨ k ∈ ls.eraseIdx i := by
  obtain ⟨j, hj⟩ := List.getElem?_of_mem hk
  by_cases hij : j = i
  · rw [hij, hl] at hj
    exact .inl (Option.some.inj hj).symm
  · exact .inr (List.mem_eraseIdx_iff_getElem?.2 ⟨j, hij, hj⟩)

/-- The literals of a resolvent, position by position. -/
theorem mem_remaining {left right : Clause} {i j : Nat} {σ : Substitution} {k : Literal} :
    k ∈ (remaining left right i j σ).literals ↔
      ∃ n, (n ∈ left.literals.eraseIdx i ∨ n ∈ right.literals.eraseIdx j) ∧
        σ.applyLiteral n = k := by
  simp only [remaining, Finite.mem_distinct, List.mem_map, List.mem_append]

theorem mem_positions {left right : Clause} {i j : Nat} {l m : Literal} :
    ((l, i), (m, j)) ∈ positions left right ↔
      left.literals[i]? = some l ∧ right.literals[j]? = some m := by
  simp only [positions, List.mem_flatMap, List.mem_map, Prod.mk.injEq]
  constructor
  · rintro ⟨p, hp, q, hq, rfl, rfl⟩
    exact ⟨List.mem_zipIdx_iff_getElem?.1 hp, List.mem_zipIdx_iff_getElem?.1 hq⟩
  · rintro ⟨hl, hm⟩
    exact ⟨_, List.mem_zipIdx_iff_getElem?.2 hl, _, List.mem_zipIdx_iff_getElem?.2 hm, rfl, rfl⟩

/-- **Clashing literals are enough** for a resolvent, though it may belong to an
    earlier pair of positions. -/
theorem exists_resolve_of_clash {left right : Clause} {l m : Literal} {σ : Substitution}
    (hl : l ∈ left.literals) (hm : m ∈ right.literals) (h : clash? l m = some σ) :
    ∃ r, resolve left right = some r := by
  obtain ⟨i, hi⟩ := List.getElem?_of_mem hl
  obtain ⟨j, hj⟩ := List.getElem?_of_mem hm
  cases hres : resolve left right with
  | some r => exact ⟨r, rfl⟩
  | none =>
    -- the pair is among the positions that were all found not to clash
    have hnone := List.findSome?_eq_none_iff.1 hres _ (mem_positions.2 ⟨hi, hj⟩)
    simp only [h, Option.map_some] at hnone
    cases hnone

/-- **The first clash wins.** -/
theorem resolve_of_first {left right : Clause}
    {first rest : List ((Literal × Nat) × (Literal × Nat))} {l m : Literal} {i j : Nat}
    {σ : Substitution} (hpos : positions left right = first ++ ((l, i), (m, j)) :: rest)
    (hfirst : ∀ p ∈ first, clash? p.1.1 p.2.1 = none) (hclash : clash? l m = some σ) :
    resolve left right = some ⟨i, j, σ, remaining left right i j σ⟩ := by
  rw [resolve, hpos, List.findSome?_append, List.findSome?_eq_none_iff.2, Option.none_or,
    List.findSome?_cons]
  · simp only [hclash, Option.map_some]
  · intro p hp
    obtain ⟨⟨k, i⟩, ⟨n, j⟩⟩ := p
    have hkn : clash? k n = none := hfirst _ hp
    simp only [hkn, Option.map_none]

/-! ### Resolving with a unit clause -/

section Unit

variable {c : Clause} {first rest : List Literal} {l m : Literal} {σ : Substitution}
  (hc : c.literals = first ++ l :: rest)
include hc

theorem eraseIdx_length : c.literals.eraseIdx first.length = first ++ rest := by
  rw [hc, List.eraseIdx_append_of_length_le (Nat.le_refl _), Nat.sub_self]
  rfl

/-- **A unit clause on the right** is resolved on the first literal that clashes
    with its only one. -/
theorem resolve_unit_right (hfirst : ∀ k ∈ first, clash? k m = none)
    (hl : clash? l m = some σ) :
    resolve c ⟨[m]⟩ = some ⟨first.length, 0, σ,
      ⟨Finite.distinct ((first ++ rest).map σ.applyLiteral)⟩⟩ := by
  have hpos : positions c ⟨[m]⟩ = first.zipIdx.map (fun p => (p, (m, 0)))
      ++ ((l, first.length), (m, 0)) ::
        (rest.zipIdx (first.length + 1)).map fun p => (p, (m, 0)) := by
    simp [positions, hc, List.zipIdx_append, List.map_eq_flatMap]
  rw [resolve_of_first hpos ?_ hl]
  · simp [remaining, eraseIdx_length hc]
  · intro p hp
    obtain ⟨q, hq, rfl⟩ := List.mem_map.1 hp
    exact hfirst q.1 (List.fst_mem_of_mem_zipIdx hq)

/-- **A unit clause on the left** likewise. -/
theorem resolve_unit_left (hfirst : ∀ k ∈ first, clash? m k = none)
    (hl : clash? m l = some σ) :
    resolve ⟨[m]⟩ c = some ⟨0, first.length, σ,
      ⟨Finite.distinct ((first ++ rest).map σ.applyLiteral)⟩⟩ := by
  have hpos : positions ⟨[m]⟩ c = first.zipIdx.map (fun p => ((m, 0), p))
      ++ ((m, 0), (l, first.length)) ::
        (rest.zipIdx (first.length + 1)).map fun p => ((m, 0), p) := by
    simp [positions, hc, List.zipIdx_append]
  rw [resolve_of_first hpos ?_ hl]
  · simp [remaining, eraseIdx_length hc]
  · intro p hp
    obtain ⟨q, hq, rfl⟩ := List.mem_map.1 hp
    exact hfirst q.1 (List.fst_mem_of_mem_zipIdx hq)

end Unit

end Refuter
