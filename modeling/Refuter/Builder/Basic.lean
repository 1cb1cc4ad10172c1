import Refuter.Builder.Supply
import Refuter.Error
import Refuter.Sentence.Atom
import Refuter.Sentence.Quantifier
import Refuter.Substitution.Basic

/-! # From sentences to clauses

Each sentence is converted on its own:

- **Implication.** `A ⇒ B` becomes `¬A ∨ B`: one clause for each pair of an
  alternative of `A` and a conjunct of `B`.
- **Quantifiers.** A leading `∀` is dropped, since variables are universal
  anyway; a leading `∃` turns its variables into fresh Skolem constants. In an
  antecedent the two swap. An `∃` below a `∀` would need a Skolem function and
  is refused.
- **Conjunction.** `A ∧ B ∧ …` gives the clauses of each conjunct.
- **Disjunction.** `A ∨ B ∨ …` gives one clause.

The builder remembers every name it has seen, so that a Skolem constant never
meets a name of the input. What it remembers outlives a refused sentence:
hence the state stands below the error in `Build`.
-/

namespace Refuter

/-- What is kept between sentences. -/
structure Builder where
  /-- The supply of variable names. -/
  supply : Supply := {}
  /-- The number of the last Skolem constant. -/
  skolems : Nat := 0
  /-- Names written in the input and Skolem constants made so far. -/
  symbols : List String := []
  deriving Repr, DecidableEq, Inhabited

/-- A computation that may give up and keeps what it changed before. -/
abbrev Build := ExceptT Error (StateM Builder)

namespace Builder

/-- Keeps Skolem constants clear of every name in a text. -/
def noteSymbols (builder : Builder) (text : List Char) : Builder :=
  { builder with symbols := Finite.insertAll builder.symbols (Sentence.words text) }

/-- Makes a Skolem constant whose name is new. -/
def skolem (builder : Builder) : Term × Builder :=
  let n := nextFree "Sk" builder.symbols builder.skolems
  let name := numberedName "Sk" n
  (.const name, { builder with skolems := n, symbols := builder.symbols ++ [name] })

end Builder

/-! ### Inside one sentence -/

/-- The state while one sentence is converted. -/
structure Scope where
  /-- The builder. -/
  builder : Builder
  /-- The Skolem constants of this sentence by the variable they replace. -/
  skolems : Members Term := []

/-- A computation inside one sentence. -/
abbrev Conversion := ExceptT Fault (StateM Scope)

namespace Conversion

/-- Replaces a variable by a Skolem constant from now on. -/
def bindSkolem (name : String) : Conversion Unit :=
  modify fun scope =>
    let (term, builder) := scope.builder.skolem
    { builder, skolems := scope.skolems.set name term }

/-- Enters the scope of quantifier blocks. Names bound by `skolemized` become
    Skolem constants, which is only possible outside the scope of the other
    marker. Returns whether the formula now stands inside that scope. -/
def enter (skolemized : Sentence.Marker) (inScope : Bool) : List Sentence.Block → Conversion Bool
  | [] => pure inScope
  | block :: blocks =>
    if block.marker = skolemized then
      if inScope then throw .skolemFunction
      else do
        block.names.forM bindSkolem
        enter skolemized inScope blocks
    else enter skolemized true blocks

/-- Reads a literal inside a sentence. -/
def literal (negated : Bool) (text : List Char) : Conversion Literal :=
  match Sentence.readLiteral negated text with
  | .ok l => pure l
  | .error fault => throw fault

/-- One disjunct of a disjunction. -/
def disjunct (inScope : Bool) (text : List Char) : Conversion Literal := do
  let (blocks, body) := Sentence.leading text
  let _ ← enter .existential inScope blocks
  if 1 < (Sentence.splitTop '∧' body).length then throw .nestedConjunction
  literal false body

/-- A disjunction of literals. -/
def disjunction (inScope : Bool) (text : List Char) : Conversion (List Literal) := do
  let (blocks, body) := Sentence.leading text
  let inScope ← enter .existential inScope blocks
  (Sentence.splitTop '∨' body).mapM (disjunct inScope)

/-- One alternative of an antecedent: a conjunction of literals, negated. -/
def premise (text : List Char) : Conversion (List Literal) :=
  (Sentence.splitTop '∧' (Sentence.unwrap text)).mapM (literal true)

/-- Refuses a side of an implication that is empty or again an implication. -/
def checkSide (text : List Char) : Conversion Unit := do
  if text.isEmpty then throw .emptySide
  if 1 < (Sentence.splitTop '⇒' text).length then throw .nestedImplication

/-- An implication. `(∃x A) ⇒ B` is `∀x (A ⇒ B)`, and `(∀x A) ⇒ B` is
    `∃x (A ⇒ B)`, so the markers swap in front of the antecedent. -/
def implication (inScope : Bool) (antecedent consequent : List Char) :
    Conversion (List (List Literal)) := do
  let (blocks, antecedent) := Sentence.leading antecedent
  let _ ← enter .universal inScope blocks
  let (blocks, consequent) := Sentence.leading consequent
  let inScope ← enter .existential inScope blocks
  checkSide antecedent
  checkSide consequent
  let premises ← (Sentence.splitTop '∨' antecedent).mapM premise
  let conclusions ← (Sentence.splitTop '∧' consequent).mapM (disjunction inScope)
  return premises.flatMap fun p => conclusions.map (p ++ ·)

/-- The literal lists of a formula, one for each clause. -/
def formula (inScope : Bool) (text : List Char) : Conversion (List (List Literal)) := do
  let inScope ← enter .existential inScope (Sentence.leading text).1
  let body := (Sentence.leading text).2
  if body.isEmpty then throw .emptyFormula
  match Sentence.splitTop '⇒' body with
  | [antecedent, consequent] => implication inScope antecedent consequent
  | _ :: _ :: _ :: _ => throw .chainedImplication
  | _ =>
    let conjuncts := Sentence.splitTop '∧' body
    if _h : 1 < conjuncts.length then
      return (← conjuncts.attach.mapM fun ⟨conjunct, _⟩ => formula inScope conjunct).flatten
    else return [← disjunction inScope body]
termination_by text.length
decreasing_by
  have h₁ := Sentence.length_lt_of_mem_splitTop (by assumption) _h
  exact Nat.lt_of_lt_of_le h₁ (Sentence.length_leading_le text)

end Conversion

/-! ### The builder's operations -/

namespace Build

/-- Runs a conversion on behalf of a sentence: its fault is reported with the
    sentence, and its Skolem constants are put in place of their variables. -/
def convert {α : Type} (sentence : String) (conversion : Conversion α) : Build (α × Substitution) :=
  fun builder =>
    match conversion { builder } with
    | (.ok value, scope) => (.ok (value, ⟨scope.skolems⟩), scope.builder)
    | (.error fault, scope) => (.error (.malformed sentence fault), scope.builder)

/-- The normal form of a sentence, whose names are then known. -/
def normalize (sentence : String) : Build (List Char) := do
  match Sentence.normalize sentence with
  | .error fault => throw (.malformed sentence fault)
  | .ok text =>
    modify (·.noteSymbols text)
    return text

/-- The clauses of one sentence, with the variables as written. -/
def sentence (s : String) : Build (List Clause) := do
  let text ← normalize s
  let (literals, skolems) ← convert s (Conversion.formula false text)
  return literals.map fun ls => skolems.apply ⟨ls⟩

/-- Renames the variables of a clause apart from all others. -/
def standardize (clause : Clause) : Build Clause :=
  modifyGet fun builder =>
    let (clause, supply) := builder.supply.standardize clause
    (clause, { builder with supply })

/-- Converts sentences; the clauses are renamed apart and numbered from one.
    All names are noted before the first sentence is converted. -/
def sentences (texts : List String) : Build (List NumberedClause) := do
  texts.forM fun s => discard (normalize s)
  let clauses := (← texts.mapM sentence).flatten
  let renamed ← clauses.mapM standardize
  return renamed.zipIdx.map fun (clause, i) => clause.withId (i + 1)

/-- The literals of a query, each negated. -/
def queryLiterals (text : List Char) : Conversion (List Literal) := do
  let (blocks, body) := Sentence.leading text
  let _ ← Conversion.enter .universal false blocks
  if 1 < (Sentence.splitTop '⇒' body).length ∨ 1 < (Sentence.splitTop '∨' body).length then
    throw .queryShape
  (Sentence.splitTop '∧' body).mapM (Conversion.literal true)

/-- The negation of a query as one clause. A query is a literal or a
    conjunction of literals; its free and existential variables become
    universal, its universal ones Skolem constants. -/
def negate (query : String) : Build Clause := do
  let text ← normalize query
  let (literals, skolems) ← convert query (queryLiterals text)
  standardize (skolems.apply ⟨literals⟩)

/-- Makes a Skolem constant. -/
def skolem : Build Term :=
  modifyGet Builder.skolem

/-- Hands out a fresh variable name. -/
def fresh : Build String :=
  modifyGet fun builder =>
    let (name, supply) := builder.supply.fresh
    (name, { builder with supply })

/-! ### Values that should be sentences -/

/-- The text of a value that should be a sentence. -/
def textOf (value : Json) : Build String :=
  match value with
  | .str s => pure s
  | value => throw (.notText value)

/-- Converts values that should be sentences. The names of the sentences in
    front of a value that is none are noted all the same. -/
def values (vs : List Json) : Build (List NumberedClause) := do
  let texts ← vs.mapM fun v => do
    let s ← textOf v
    discard (normalize s)
    return s
  sentences texts

end Build

end Refuter
