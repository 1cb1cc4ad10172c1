import Mathlib.Data.List.Basic
import Refuter.Proofs.Rule

/-! # Truth

The meaning of clauses, against which the search is measured.

- An *assignment* gives every atom a truth value. A literal is true when its
  atom has the value that its sign asks for, and a clause when one of its
  literals is.
- A *structure* has a non-empty domain, an element for every constant and a
  relation for every name at every arity. Together with values for the
  variables it is an assignment; it *satisfies* a clause when the clause is
  true for all values of the variables.

**Key fact.** Substituting in a literal and changing the values of its
variables come to the same (`trueIn_mapArgs`), so an instance of a satisfied
clause is satisfied. No variable needs to be renamed for that.
-/

namespace Refuter

universe u

/-! ### Assignments -/

/-- Truth values for all atoms. The same name may be used at several arities. -/
def Assignment : Type :=
  String → List Term → Prop

/-- A literal is true when its atom has the value that its sign asks for. -/
def Literal.TrueIn (τ : Assignment) (l : Literal) : Prop :=
  τ l.name l.args ↔ l.negated = false

/-- A clause is true when one of its literals is. -/
def Clause.TrueIn (τ : Assignment) (c : Clause) : Prop :=
  ∃ l ∈ c.literals, l.TrueIn τ

/-- Of a literal and its negation exactly one is true. -/
theorem Literal.trueIn_negate {τ : Assignment} {l : Literal} :
    l.negate.TrueIn τ ↔ ¬ l.TrueIn τ := by
  simp only [TrueIn, negate]
  cases l.negated <;> simp

/-- The empty clause is never true. -/
theorem Clause.not_trueIn_of_isEmpty {τ : Assignment} {c : Clause} (h : c.isEmpty = true) :
    ¬ c.TrueIn τ := by
  rintro ⟨l, hl, _⟩
  rw [Clause.isEmpty, List.isEmpty_iff] at h
  rw [h] at hl
  cases hl

/-- Clauses with the same literals are true together. -/
theorem Clause.TrueIn.of_same {τ : Assignment} {c d : Clause} (h : c.same d = true)
    (hc : c.TrueIn τ) : d.TrueIn τ := by
  obtain ⟨l, hl, htrue⟩ := hc
  exact ⟨l, (Clause.same_iff.1 h l).1 hl, htrue⟩

/-! ### Structures -/

/-- A first-order structure for names of any arity. -/
structure Structure where
  /-- The individuals. -/
  Domain : Type u
  /-- There is one at least. -/
  nonempty : Nonempty Domain
  /-- The individual of a constant. -/
  const : String → Domain
  /-- The relation of a name, at every arity. -/
  holds : String → List Domain → Prop

namespace Structure

variable (M : Structure.{u})

/-- The individual of a term, given values for the variables. -/
def eval (v : String → M.Domain) : Term → M.Domain
  | .var x => v x
  | .const c => M.const c

/-- The truth values of the atoms, given values for the variables. -/
def atoms (v : String → M.Domain) : Assignment :=
  fun name args => M.holds name (args.map (M.eval v))

/-- Is the universal closure of a clause true? -/
def Satisfies (c : Clause) : Prop :=
  ∀ v, c.TrueIn (M.atoms v)

variable {M}

/-- A map of terms that leaves constants alone only changes the values of the
    variables. -/
theorem eval_map {f : Term → Term} (hf : ∀ c, f (.const c) = .const c) (v : String → M.Domain)
    (t : Term) : M.eval v (f t) = M.eval (fun x => M.eval v (f (.var x))) t := by
  cases t with
  | var x => rfl
  | const c => rw [hf]; rfl

/-- **Substitution and values:** a literal under such a map is true exactly when
    the literal is true for the changed values. -/
theorem trueIn_mapArgs {f : Term → Term} (hf : ∀ c, f (.const c) = .const c)
    (v : String → M.Domain) (l : Literal) :
    (l.mapArgs f).TrueIn (M.atoms v) ↔
      l.TrueIn (M.atoms fun x => M.eval v (f (.var x))) := by
  have hargs : (l.args.map f).map (M.eval v)
      = l.args.map (M.eval fun x => M.eval v (f (.var x))) := by
    rw [List.map_map]
    exact List.map_congr_left fun t _ => eval_map hf v t
  simp only [Literal.TrueIn, Literal.mapArgs, atoms, hargs]

theorem Satisfies.of_same {c d : Clause} (h : c.same d = true) (hc : M.Satisfies c) :
    M.Satisfies d :=
  fun v => (hc v).of_same h

/-- No structure satisfies the contradiction: there are values to try, since
    the domain is not empty. -/
theorem not_satisfies_of_isEmpty {c : Clause} (h : c.isEmpty = true) : ¬ M.Satisfies c := by
  intro hc
  obtain ⟨a⟩ := M.nonempty
  exact Clause.not_trueIn_of_isEmpty h (hc fun _ => a)

end Structure

/-! ### Soundness of the rule -/

/-- **The rule is sound:** a structure that satisfies both parents satisfies the
    resolvent, whether or not they share variables. -/
theorem Structure.Satisfies.resolvent {M : Structure.{u}} {left right : Clause} {r : Resolvent}
    (hl : M.Satisfies left) (hr : M.Satisfies right) (h : resolve left right = some r) :
    M.Satisfies r.clause := by
  obtain ⟨l, m, hi, hj, hclash, hc⟩ := resolve_eq_some h
  obtain ⟨hsign, hunify⟩ := clash?_eq_some hclash
  obtain ⟨_, hname, hargs⟩ := unify_sound hunify
  have hσ : ∀ c, r.unifier.resolve (.const c) = .const c :=
    fun c => Substitution.resolve_const r.unifier c
  intro v
  -- both parents are read under the values that the unifier gives their variables
  let w : String → M.Domain := fun x => M.eval v (r.unifier.resolve (.var x))
  -- a true literal that is left over makes the resolvent true
  have leftover : ∀ k, k ∈ left.literals.eraseIdx r.left ∨ k ∈ right.literals.eraseIdx r.right →
      k.TrueIn (M.atoms w) → r.clause.TrueIn (M.atoms v) := by
    intro k hk htrue
    refine ⟨r.unifier.applyLiteral k, ?_, (Structure.trueIn_mapArgs hσ v k).2 htrue⟩
    rw [hc]
    exact mem_remaining.2 ⟨k, hk, rfl⟩
  obtain ⟨k, hk, hktrue⟩ := hl w
  obtain ⟨n, hn, hntrue⟩ := hr w
  rcases eq_or_mem_eraseIdx hi hk with rfl | hk
  · rcases eq_or_mem_eraseIdx hj hn with rfl | hn
    · -- the two literals resolved on have one atom and cannot both be true
      have hatom : M.atoms w k.name k.args ↔ M.atoms w n.name n.args := by
        have values : ∀ l : Literal,
            l.args.map (M.eval w) = (l.args.map r.unifier.resolve).map (M.eval v) := by
          intro l
          rw [List.map_map]
          exact List.map_congr_left fun t _ => (Structure.eval_map hσ v t).symm
        simp only [Structure.atoms, hname, values, hargs]
      rw [Literal.TrueIn, hatom] at hktrue
      have : k.negated = false ↔ n.negated = false := hktrue.symm.trans hntrue
      cases hk' : k.negated <;> cases hn' : n.negated <;> simp_all
    · exact leftover n (.inr hn) hntrue
  · exact leftover k (.inl hk) hktrue

end Refuter
