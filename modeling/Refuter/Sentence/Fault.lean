import Refuter.Text.Quoted

/-! # What can be wrong with a sentence

Every way in which a text fails to be a sentence or a query, with the words a
report uses for it.
-/

namespace Refuter

/-- Why a text is refused. -/
inductive Fault where
  /-- An equivalence sign, which the language lacks. -/
  | unknownConnective (symbol : String)
  /-- A parenthesis without its partner. -/
  | unbalanced
  /-- Nothing but blanks. -/
  | emptySentence
  /-- Nothing between two commas. -/
  | emptyArgument
  /-- An argument that is no plain name. -/
  | unsupportedTerm (text : String)
  /-- Nothing where a literal is needed. -/
  | emptyLiteral
  /-- A connective where a single literal is needed. -/
  | notSingleLiteral (text : String)
  /-- No predicate can be read. -/
  | unreadable (text : String)
  /-- Nothing where a formula is needed. -/
  | emptyFormula
  /-- Two implications side by side. -/
  | chainedImplication
  /-- An implication without antecedent or consequent. -/
  | emptySide
  /-- An implication on one side of another. -/
  | nestedImplication
  /-- A conjunction below a disjunction. -/
  | nestedConjunction
  /-- An existential in the scope of a universal. -/
  | skolemFunction
  /-- A query that is no conjunction of literals. -/
  | queryShape
  deriving Repr, DecidableEq

/-- The words for a fault. -/
def Fault.reason : Fault → String
  | .unknownConnective symbol => "unknown connective " ++ Text.quoted symbol
  | .unbalanced => "unbalanced parentheses"
  | .emptySentence => "empty sentence"
  | .emptyArgument => "empty argument"
  | .unsupportedTerm text => "unsupported term " ++ Text.quoted text
  | .emptyLiteral => "empty literal"
  | .notSingleLiteral text => "expected a single literal, got " ++ Text.quoted text
  | .unreadable text => "cannot read " ++ Text.quoted text ++ " as a single predicate"
  | .emptyFormula => "empty formula"
  | .chainedImplication => "chained implications need parentheses"
  | .emptySide => "implication with an empty side"
  | .nestedImplication => "nested implication"
  | .nestedConjunction => "conjunction nested inside a disjunction"
  | .skolemFunction => "Skolem functions are not supported"
  | .queryShape => "a query must be a literal or a conjunction of literals"

/-- The report on a sentence with a fault. -/
def Fault.report (fault : Fault) (sentence : String) : String :=
  "Malformed sentence " ++ Text.quoted sentence ++ ": " ++ fault.reason

end Refuter
