import Refuter.Proofs.MostGeneral
import Refuter.Proofs.Rule

/-! # Resolution on the first clash

Two literals *clash* when they have one predicate symbol, opposite signs and a
unifying assignment. The rule is compared with this notion, which mentions
neither substitutions nor the order of a scan:

- there is a resolvent exactly when two literals clash (`resolve_eq_none_iff`);
- the positions resolved on are the least pair of clashing ones, left position
  first (`least_of_resolve`);
- the resolvent lists the literals at all other positions under the unifier,
  each at its first appearance.

**Key fact.** The scan visits the pairs of positions in increasing order
(`pairwise_positions`), so what comes before the first success is exactly what
is smaller.
-/

namespace Refuter

/-- One predicate symbol, opposite signs and a unifying assignment. -/
structure Clashes (l m : Literal) : Prop where
  /-- One predicate symbol. -/
  name : l.name = m.name
  /-- Opposite signs. -/
  signs : l.negated ≠ m.negated
  /-- Some assignment gives them one atom. -/
  unifiable : ∃ θ, Unifies θ l m

/-- **The rule's own test is clashing.** -/
theorem exists_clash?_iff {l m : Literal} : (∃ σ, clash? l m = some σ) ↔ Clashes l m := by
  constructor
  · rintro ⟨σ, hσ⟩
    obtain ⟨hsigns, hunify⟩ := clash?_eq_some hσ
    exact ⟨(unify_sound hunify).2.1, hsigns, exists_unify_iff.1 ⟨σ, hunify⟩⟩
  · rintro ⟨hname, hsigns, hunifiable⟩
    have hcomp : l.isComplementary m = true := by
      simp [Literal.isComplementary, hname, hsigns]
    obtain ⟨σ, hσ⟩ := exists_unify_iff.2 hunifiable
    exact ⟨σ, by rw [clash?, if_pos hcomp, hσ]⟩

/-! ### The order of the scan -/

/-- The left position counts first. -/
def Earlier (p q : (Literal × Nat) × (Literal × Nat)) : Prop :=
  p.1.2 < q.1.2 ∨ p.1.2 = q.1.2 ∧ p.2.2 < q.2.2

theorem pairwise_snd_zipIdx (ls : List Literal) :
    ls.zipIdx.Pairwise fun p q => p.2 < q.2 := by
  have h : (ls.zipIdx.map Prod.snd).Pairwise (· < ·) := by
    rw [List.zipIdx_map_snd]
    exact List.pairwise_lt_range'
  exact List.pairwise_map.1 h

/-- **Positions are visited in increasing order.** -/
theorem pairwise_positions (left right : Clause) : (positions left right).Pairwise Earlier := by
  refine List.pairwise_flatMap.2 ⟨?_, ?_⟩
  · -- one literal of the left clause, and those of the right clause in order
    intro p _
    refine List.pairwise_map.2 ((pairwise_snd_zipIdx right.literals).imp ?_)
    exact fun h => .inr ⟨rfl, h⟩
  · refine (pairwise_snd_zipIdx left.literals).imp ?_
    intro p q hpq a ha b hb
    obtain ⟨_, _, rfl⟩ := List.mem_map.1 ha
    obtain ⟨_, _, rfl⟩ := List.mem_map.1 hb
    exact .inl hpq

/-! ### When there is a resolvent, and where -/

/-- **No resolvent, no clash,** and the other way round. -/
theorem resolve_eq_none_iff {left right : Clause} :
    resolve left right = none ↔
      ∀ l ∈ left.literals, ∀ m ∈ right.literals, ¬ Clashes l m := by
  constructor
  · intro hnone l hl m hm hclash
    obtain ⟨σ, hσ⟩ := exists_clash?_iff.2 hclash
    obtain ⟨r, hr⟩ := exists_resolve_of_clash hl hm hσ
    rw [hnone] at hr
    cases hr
  · intro h
    rw [Option.eq_none_iff_forall_ne_some]
    intro r hr
    obtain ⟨l, hl, m, hm, hclash, _⟩ := exists_of_resolve hr
    exact h l hl m hm (exists_clash?_iff.1 ⟨_, hclash⟩)

/-- **The least clashing positions win.** -/
theorem least_of_resolve {left right : Clause} {r : Resolvent} (h : resolve left right = some r)
    {i j : Nat} {l m : Literal} (hl : left.literals[i]? = some l)
    (hm : right.literals[j]? = some m) (hclash : Clashes l m) :
    r.left < i ∨ r.left = i ∧ r.right ≤ j := by
  obtain ⟨σ, hσ⟩ := exists_clash?_iff.2 hclash
  obtain ⟨first, ⟨⟨k, a⟩, ⟨n, b⟩⟩, rest, hpos, hsome, hfirst⟩ :=
    List.findSome?_eq_some_iff.1 h
  obtain ⟨τ, _, rfl⟩ := Option.map_eq_some_iff.1 hsome
  show a < i ∨ a = i ∧ b ≤ j
  have hmem : ((l, i), (m, j)) ∈ first ++ ((k, a), (n, b)) :: rest := by
    rw [← hpos]
    exact mem_positions.2 ⟨hl, hm⟩
  rcases List.mem_append.1 hmem with hmem | hmem
  · -- what was visited before the success does not clash
    have hnone := hfirst _ hmem
    simp only [hσ, Option.map_some] at hnone
    cases hnone
  · rcases List.mem_cons.1 hmem with heq | hmem
    · cases heq
      exact .inr ⟨rfl, Nat.le_refl _⟩
    · have hsorted := pairwise_positions left right
      rw [hpos] at hsorted
      have hlater := (List.pairwise_cons.1 (List.pairwise_append.1 hsorted).2.1).1 _ hmem
      exact hlater.imp id fun ⟨hi, hj⟩ => ⟨hi, Nat.le_of_lt hj⟩

/-! ### What the resolvent is made of -/

/-- The literals of two clauses at all positions but `i` and `j`, left clause
    first, under a substitution. -/
def carried (left right : Clause) (i j : Nat) (σ : Substitution) : List Literal :=
  (left.literals.eraseIdx i ++ right.literals.eraseIdx j).map σ.applyLiteral

/-- **Binary resolution on the first clash.** -/
structure Resolvent.OnFirstClash (r : Resolvent) (left right : Clause) : Prop where
  /-- The literals at the reported positions clash, and the reported
      substitution is what unification gives for them, a most general
      unifier. -/
  clash : ∃ l m, left.literals[r.left]? = some l ∧ right.literals[r.right]? = some m ∧
    Clashes l m ∧ unify l m = some r.unifier ∧ r.unifier.MostGeneral l m
  /-- No clashing positions are smaller. -/
  least : ∀ i j l m, left.literals[i]? = some l → right.literals[j]? = some m →
    Clashes l m → r.left < i ∨ r.left = i ∧ r.right ≤ j
  /-- As a set, the resolvent is what is carried over from the parents. -/
  members : ∀ k, k ∈ r.clause.literals ↔ k ∈ carried left right r.left r.right r.unifier
  /-- It repeats no literal -/
  nodup : r.clause.literals.Nodup
  /-- and lists them as they first appear. -/
  ordered : r.clause.literals.Pairwise fun k n =>
    (carried left right r.left r.right r.unifier).idxOf k
      < (carried left right r.left r.right r.unifier).idxOf n
  /-- At least the two literals resolved on are gone. -/
  length : r.clause.literals.length + 2 ≤ left.literals.length + right.literals.length
  /-- Predicate symbols, with their arities, come from the parents, -/
  symbols : ∀ k ∈ r.clause.literals, ∃ l, (l ∈ left.literals ∨ l ∈ right.literals) ∧
    k.name = l.name ∧ k.arity = l.arity
  /-- and so do constants and variables. -/
  terms : ∀ k ∈ r.clause.literals, ∀ t ∈ k.args,
    ∃ l, (l ∈ left.literals ∨ l ∈ right.literals) ∧ t ∈ l.args

theorem length_carried {left right : Clause} {i j : Nat} (hi : i < left.literals.length)
    (hj : j < right.literals.length) (σ : Substitution) :
    (carried left right i j σ).length + 2 = left.literals.length + right.literals.length := by
  rw [carried, List.length_map, List.length_append, List.length_eraseIdx_of_lt hi,
    List.length_eraseIdx_of_lt hj]
  omega

theorem onFirstClash_of_resolve {left right : Clause} {r : Resolvent}
    (h : resolve left right = some r) : r.OnFirstClash left right := by
  obtain ⟨l, m, hl, hm, hclash, hclause⟩ := resolve_eq_some h
  have hlits : r.clause.literals
      = Finite.distinct (carried left right r.left r.right r.unifier) := by
    rw [hclause]
    rfl
  have hunify := (clash?_eq_some hclash).2
  -- every term of the parents is one of them, so nothing new can appear
  have origin := @mem_resolvent left right r h
    (fun t => ∃ l, (l ∈ left.literals ∨ l ∈ right.literals) ∧ t ∈ l.args)
    (fun l hl t ht => ⟨l, hl, ht⟩)
  constructor
  case clash =>
    exact ⟨l, m, hl, hm, exists_clash?_iff.1 ⟨_, hclash⟩, hunify, mostGeneral_of_unify hunify⟩
  case least => exact fun i j k n hk hn => least_of_resolve h hk hn
  case members =>
    intro k
    rw [hlits]
    exact Finite.mem_distinct
  case nodup =>
    rw [hlits]
    exact Finite.nodup_distinct _
  case ordered =>
    rw [hlits]
    exact Finite.pairwise_idxOf_distinct _
  case length =>
    have hcarried := length_carried (List.getElem?_eq_some_iff.1 hl).1
      (List.getElem?_eq_some_iff.1 hm).1 r.unifier
    have hle := (Finite.distinct_sublist (carried left right r.left r.right r.unifier)).length_le
    rw [hlits]
    omega
  case symbols =>
    intro k hk
    obtain ⟨n, hn, hname, harity, _, _⟩ := origin hk
    exact ⟨n, hn, hname, harity⟩
  case terms =>
    intro k hk
    obtain ⟨_, _, _, _, _, hterms⟩ := origin hk
    exact hterms

/-- **The rule is binary resolution on the first clash.** There is no resolvent
    exactly when no literal of the left clause clashes with one of the right
    clause; a resolvent is what is left of both at the least clashing pair. -/
theorem resolve_on_first_clash (left right : Clause) :
    (resolve left right = none ↔
      ∀ l ∈ left.literals, ∀ m ∈ right.literals, ¬ Clashes l m) ∧
    ∀ r, resolve left right = some r → r.OnFirstClash left right :=
  ⟨resolve_eq_none_iff, fun _ => onFirstClash_of_resolve⟩

/-- `P(x) ∨ P(A) ∨ ¬P(y) ∨ P(x)` and `Q(x) ∨ ¬P(A) ∨ P(A)`: of the literals
    that are repeated, complementary within a clause or made equal by the
    unifier, one of each is left. -/
theorem resolve_on_first_clash_repeated :
    let x : Term := .var "x"
    let a : Term := .const "A"
    let r : Resolvent :=
      ⟨0, 1, ⟨[("x", a)]⟩,
        ⟨[⟨"P", [a], false⟩, ⟨"P", [.var "y"], true⟩, ⟨"Q", [a], false⟩]⟩⟩
    r.OnFirstClash
      ⟨[⟨"P", [x], false⟩, ⟨"P", [a], false⟩, ⟨"P", [.var "y"], true⟩, ⟨"P", [x], false⟩]⟩
      ⟨[⟨"Q", [x], false⟩, ⟨"P", [a], true⟩, ⟨"P", [a], false⟩]⟩ :=
  (resolve_on_first_clash _ _).2 _ (by decide +kernel)

end Refuter
