import Refuter.Derivation.Basic

/-! # The derivation graph

Clauses are the nodes, and each step draws an edge from both parents to the
clause derived. The *refutation* is the part of the graph on which the
contradiction depends.

What the graph says does not hang on how clauses are numbered, so links and
edges leave the type of nodes open; a derivation takes the numbers of its
clauses.
-/

namespace Refuter

/-- Where a clause of the working set came from. -/
inductive Origin where
  /-- It was given. -/
  | given
  /-- It negates the query. -/
  | query
  /-- A step derived it. -/
  | derived
  deriving Repr, DecidableEq

/-- The name of an origin. -/
def Origin.name : Origin → String
  | .given => "axiom"
  | .query => "query"
  | .derived => "derived"

/-! ### Links -/

/-- What a step joins. -/
structure Link (ν : Type) where
  /-- The node of the left parent. -/
  left : ν
  /-- The node of the right parent. -/
  right : ν
  /-- The node of the clause derived. -/
  resolvent : ν
  deriving Repr, DecidableEq

namespace Link

variable {ν : Type} [DecidableEq ν]

/-- Where a node came from, given the node of the negated query. -/
def origin (links : List (Link ν)) (query : Option ν) (node : ν) : Origin :=
  if links.any (·.resolvent = node) then .derived
  else if query = some node then .query
  else .given

/-- Adds the parents of every needed node. -/
def needParents (links : List (Link ν)) (needed : List ν) : List ν :=
  Finite.insertAll needed <| links.flatMap fun link =>
    if link.resolvent ∈ needed then [link.left, link.right] else []

/-- The nodes from which the nodes in `needed` descend, going back `fuel`
    generations. -/
def ancestors (links : List (Link ν)) : Nat → List ν → List ν
  | 0, needed => needed
  | fuel + 1, needed => ancestors links fuel (needParents links needed)

/-- Everything from which a node descends, and the node itself. A line of
    descent passes each link once, so as many generations as there are links
    suffice. -/
def lineage (links : List (Link ν)) (node : ν) : List ν :=
  ancestors links links.length [node]

end Link

/-! ### Edges -/

/-- An edge of the graph with the number of the step that drew it. -/
structure Edge (ν σ : Type) where
  /-- The node of the parent. -/
  source : ν
  /-- The node of the clause derived. -/
  target : ν
  /-- The number of the step. -/
  step : σ
  deriving Repr, DecidableEq

namespace Edge

variable {ν σ : Type} [DecidableEq ν]

/-- Do two edges join the same nodes? -/
def joinsSame (e f : Edge ν σ) : Bool :=
  e.source = f.source && e.target = f.target

/-- The order by source, then by target. -/
def le (nodeLe : ν → ν → Bool) (e f : Edge ν σ) : Bool :=
  if e.source = f.source then nodeLe e.target f.target else nodeLe e.source f.source

/-- Draws an edge; one between the same nodes is replaced. -/
def draw (edges : List (Edge ν σ)) (e : Edge ν σ) : List (Edge ν σ) :=
  edges.filter (!·.joinsSame e) ++ [e]

/-- The edges of numbered links, one for each pair of nodes, in order of their
    nodes. -/
def ofLinks (nodeLe : ν → ν → Bool) (links : List (σ × Link ν)) : List (Edge ν σ) :=
  let drawn := links.foldl (fun edges (step, link) =>
    draw (draw edges ⟨link.left, link.resolvent, step⟩) ⟨link.right, link.resolvent, step⟩) []
  drawn.mergeSort (le nodeLe)

end Edge

/-! ### The graph of a derivation -/

/-- What a step joins, by the numbers of its clauses. -/
def Step.link (step : Step) : Link Int :=
  ⟨step.left.id, step.right.id, step.resolvent.id⟩

namespace Derivation

/-- What the steps join. -/
def links (d : Derivation) : List (Link Int) :=
  d.steps.map Step.link

/-- The clauses of the working set with their origins. -/
def nodes (d : Derivation) : List (NumberedClause × Origin) :=
  d.working.clauses.map fun c => (c, Link.origin d.links (d.negatedQuery.map (·.id)) c.id)

/-- The edges, one for each pair of nodes, in order of their nodes. -/
def edges (d : Derivation) : List (Edge Int Int) :=
  Edge.ofLinks (fun a b => a ≤ b) (d.steps.map fun step => (step.number, step.link))

/-- The steps on which the contradiction depends, in order, where `ancestry` tells from which
    other nodes a node descends. -/
def refutationBy (ancestry : List (Link Int) → Int → List Int) (d : Derivation) : List Step :=
  match d.emptyClause with
  | none => []
  | some empty => d.steps.filter (·.resolvent.id ∈ empty.id :: ancestry d.links empty.id)

/-- The steps on which the contradiction depends, in order. -/
def refutation (d : Derivation) : List Step :=
  d.refutationBy Link.lineage

end Derivation

end Refuter
