import Refuter.Clause
import Refuter.Finite.Distinct
import Refuter.Json.Basic

/-! # Fresh names

A supply hands out variable names `v1`, `v2`, … and never a reserved one. Each
clause gets its own names, so that no two clauses share a variable.

**A free name is near.** Among any `n + 1` different candidates one lies
outside a list of `n` names, so the search for a free number looks at no more
than one candidate per taken name.
-/

namespace Refuter

/-- The name `stem` followed by the digits of `n`. -/
def numberedName (stem : String) (n : Nat) : String :=
  stem ++ String.ofList (Nat.toDigits 10 n)

/-- The first number from `n` on whose name is not taken, trying `fuel`
    candidates before the last. -/
def firstFree (stem : String) (taken : List String) : Nat → Nat → Nat
  | 0, n => n
  | fuel + 1, n => if numberedName stem n ∈ taken then firstFree stem taken fuel (n + 1) else n

/-- The first number above `counter` whose name is not taken. -/
def nextFree (stem : String) (taken : List String) (counter : Nat) : Nat :=
  firstFree stem taken taken.length (counter + 1)

/-- A supply of variable names. -/
structure Supply where
  /-- What every name starts with. -/
  stem : String := "v"
  /-- The number used last. -/
  counter : Nat := 0
  /-- Names that are never handed out. -/
  reserved : List String := []
  deriving Repr, DecidableEq, Inhabited

namespace Supply

/-- Keeps names from being handed out. -/
def reserve (supply : Supply) (names : List String) : Supply :=
  { supply with reserved := Finite.insertAll supply.reserved names }

/-- A supply of names with the given stem that avoids the given names. -/
def ofReserved (stem : String) (names : List String) : Supply :=
  ({ stem } : Supply).reserve names

/-- Hands out a fresh name. -/
def fresh (supply : Supply) : String × Supply :=
  let n := nextFree supply.stem supply.reserved supply.counter
  (numberedName supply.stem n, { supply with counter := n })

/-- A fresh variable for each of the given names, in order. -/
def freshFor : List String → Supply → Members Term × Supply
  | [], supply => ([], supply)
  | name :: names, supply =>
    let (new, supply) := supply.fresh
    let (mapping, supply) := freshFor names supply
    ((name, .var new) :: mapping, supply)

/-- Renames variables in one step: a new name that equals an old one is not
    renamed again. -/
def renameTerm (mapping : Members Term) : Term → Term
  | .var x => (mapping.get? x).getD (.var x)
  | .const c => .const c

/-- Gives every variable of a clause a fresh name. Repeated occurrences stay
    linked. -/
def standardize (supply : Supply) (clause : Clause) : Clause × Supply :=
  let (mapping, supply) := freshFor (Finite.distinct clause.vars) supply
  (clause.mapTerms (renameTerm mapping), supply)

end Supply

end Refuter
