import Refuter.Derivation.Basic

/-! # Loops

A loop decides which pairs of clauses a pass attempts, and when to give up.

- **Incremental.** Only pairs with a clause that joined in the previous pass;
  older pairs were attempted already.
- **Exhaustive.** Every pair on every pass; pairs attempted before are skipped
  one by one.

Pairs come in the order of the working set, the earlier clause on the left.
-/

namespace Refuter

/-- Which pairs a pass looks at. -/
inductive Strategy where
  /-- New clauses against all. -/
  | incremental
  /-- All against all. -/
  | exhaustive
  deriving Repr, DecidableEq, Inhabited

/-- A strategy with an optional cap on the clauses derived. -/
structure Loop where
  /-- Which pairs a pass looks at. -/
  strategy : Strategy
  /-- The search ends undecided once this many clauses are derived. -/
  cap : Option Nat := none
  deriving Repr, DecidableEq, Inhabited

namespace Loop

/-- A cap is at least one. -/
def checkCap : Option Int → Except Error (Option Nat)
  | none => .ok none
  | some n => if n < 1 then .error (.capNotPositive n) else .ok (some n.toNat)

/-- Sets the cap. -/
def setCap (loop : Loop) (cap : Option Int) : Except Error Loop :=
  match checkCap cap with
  | .error e => .error e
  | .ok cap => .ok { loop with cap }

/-- A loop of the given strategy and cap. -/
def make (strategy : Strategy) (cap : Option Int) : Except Error Loop :=
  setCap { strategy } cap

/-- Is the cap reached after `n` derived clauses? -/
def capReached (loop : Loop) (n : Nat) : Bool :=
  match loop.cap with
  | none => false
  | some cap => cap ≤ n

end Loop

/-- The pairs of positions `i < j` with `frontier ≤ j`, by `i`, then by `j`. -/
def pairsFrom (frontier : Nat) (clauses : List NumberedClause) :
    List (NumberedClause × NumberedClause) :=
  clauses.zipIdx.flatMap fun (left, i) =>
    (clauses.drop (max (i + 1) frontier)).map fun right => (left, right)

/-- The pairs of the coming pass. -/
def Strategy.pairs (strategy : Strategy) (ws : WorkingSet) :
    List (NumberedClause × NumberedClause) :=
  match strategy with
  | .incremental => pairsFrom ws.frontier ws.clauses
  | .exhaustive => pairsFrom 0 ws.clauses

theorem mem_pairsFrom {frontier : Nat} {clauses : List NumberedClause}
    {p : NumberedClause × NumberedClause} (h : p ∈ pairsFrom frontier clauses) :
    p.1 ∈ clauses ∧ p.2 ∈ clauses := by
  simp only [pairsFrom, List.mem_flatMap, List.mem_map] at h
  obtain ⟨⟨left, i⟩, hl, right, hr, rfl⟩ := h
  exact ⟨List.fst_mem_of_mem_zipIdx hl, List.mem_of_mem_drop hr⟩

/-- Pairs are pairs of clauses of the working set. -/
theorem mem_pairs {strategy : Strategy} {ws : WorkingSet} {p : NumberedClause × NumberedClause}
    (h : p ∈ strategy.pairs ws) : p.1 ∈ ws.clauses ∧ p.2 ∈ ws.clauses := by
  cases strategy <;> exact mem_pairsFrom h

end Refuter
