import Refuter.Finite.Distinct
import Refuter.Substitution.Unifier

/-! # The resolution rule

Binary resolution on the first complementary pair that unifies. Literals of
the left clause are scanned in order, and for each of them those of the right
clause; only the first success is used, so a pair of clauses has at most one
resolvent. Variables are not renamed.
-/

namespace Refuter

/-- A resolvent and how it came about. -/
structure Resolvent where
  /-- Position of the literal resolved on in the left clause. -/
  left : Nat
  /-- Position of the literal resolved on in the right clause. -/
  right : Nat
  /-- The unifier of the two atoms. -/
  unifier : Substitution
  /-- The remaining literals under the unifier, each once. -/
  clause : Clause
  deriving Repr, DecidableEq

/-- The name under which the rule is reported. -/
def resolutionName : String := "resolution"

/-- The unifier of two literals of opposite polarity. -/
def clash? (l r : Literal) : Option Substitution :=
  if l.isComplementary r then unify l r else none

/-- The positions of two clauses, left clause outer and right clause inner. -/
def positions (left right : Clause) : List ((Literal × Nat) × (Literal × Nat)) :=
  left.literals.zipIdx.flatMap fun l => right.literals.zipIdx.map fun r => (l, r)

/-- What is left of two clauses when the literals at `i` and `j` are resolved
    on. -/
def remaining (left right : Clause) (i j : Nat) (σ : Substitution) : Clause :=
  ⟨Finite.distinct ((left.literals.eraseIdx i ++ right.literals.eraseIdx j).map σ.applyLiteral)⟩

/-- Resolves two clauses on the first pair of literals that clash. -/
def resolve (left right : Clause) : Option Resolvent :=
  (positions left right).findSome? fun ((l, i), (r, j)) =>
    (clash? l r).map fun σ => ⟨i, j, σ, remaining left right i j σ⟩

/-! ### Where the literals of a resolvent come from -/

/-- **The resolvent belongs to a pair of positions** whose literals clash. -/
theorem resolve_eq_some {left right : Clause} {r : Resolvent} (h : resolve left right = some r) :
    ∃ l m, left.literals[r.left]? = some l ∧ right.literals[r.right]? = some m ∧
      clash? l m = some r.unifier ∧
      r.clause = remaining left right r.left r.right r.unifier := by
  obtain ⟨⟨⟨l, i⟩, ⟨m, j⟩⟩, hmem, hsome⟩ := List.exists_of_findSome?_eq_some h
  simp only [positions, List.mem_flatMap, List.mem_map, Prod.mk.injEq] at hmem
  obtain ⟨p, hp, q, hq, rfl, rfl⟩ := hmem
  obtain ⟨σ, hσ, rfl⟩ := Option.map_eq_some_iff.1 hsome
  exact ⟨l, m, List.mem_zipIdx_iff_getElem?.1 hp, List.mem_zipIdx_iff_getElem?.1 hq, hσ, rfl⟩

theorem exists_of_resolve {left right : Clause} {r : Resolvent} (h : resolve left right = some r) :
    ∃ l ∈ left.literals, ∃ m ∈ right.literals, clash? l m = some r.unifier ∧
      r.clause = remaining left right r.left r.right r.unifier := by
  obtain ⟨l, m, hl, hm, hclash, hc⟩ := resolve_eq_some h
  exact ⟨l, List.mem_of_getElem? hl, m, List.mem_of_getElem? hm, hclash, hc⟩

/-- **A resolvent makes no new symbols:** each of its literals has the name,
    arity and sign of a literal of a parent, and its terms occur in the parents. -/
theorem mem_resolvent {left right : Clause} {r : Resolvent} (h : resolve left right = some r)
    {P : Term → Prop} (hP : ∀ l, l ∈ left.literals ∨ l ∈ right.literals → ∀ t ∈ l.args, P t)
    {k : Literal} (hk : k ∈ r.clause.literals) :
    ∃ l, (l ∈ left.literals ∨ l ∈ right.literals) ∧ k.name = l.name ∧ k.arity = l.arity ∧
      k.negated = l.negated ∧ ∀ t ∈ k.args, P t := by
  obtain ⟨l, hl, m, hm, hσ, hc⟩ := exists_of_resolve h
  have hbind : ∀ b ∈ r.unifier.bindings, P b.2 := by
    unfold clash? at hσ
    split at hσ
    · exact unify_closed (hP l (.inl hl)) (hP m (.inr hm)) hσ
    · cases hσ
  rw [hc] at hk
  simp only [remaining, Finite.mem_distinct, List.mem_map, List.mem_append] at hk
  obtain ⟨n, hn, rfl⟩ := hk
  have hn' : n ∈ left.literals ∨ n ∈ right.literals :=
    hn.imp List.mem_of_mem_eraseIdx List.mem_of_mem_eraseIdx
  refine ⟨n, hn', rfl, ?_, rfl, ?_⟩
  · simp [Literal.arity, Substitution.applyLiteral, Literal.mapArgs]
  · intro t ht
    simp only [Substitution.applyLiteral, Literal.mapArgs, List.mem_map] at ht
    obtain ⟨u, hu, rfl⟩ := ht
    exact Substitution.resolve_closed hbind (hP n hn' u hu)

end Refuter
