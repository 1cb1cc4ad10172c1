import Refuter.Derivation.Graph
import Refuter.Engine

/-! # What a run prints

One line tells how a query ended, a line per step shows a refutation, and the
lines of the log follow a search from the inside.
-/

namespace Refuter.CommandLine

/-- A number in decimal digits. -/
def digits (n : Nat) : String :=
  intText n

/-- A text moved to the right, to a width of at least `width`. -/
def alignRight (width : Nat) (text : String) : String :=
  String.ofList (List.replicate (width - text.length) ' ') ++ text

/-! ### Results -/

/-- The mark and the words for an outcome. -/
def verdictText : Option Outcome → String
  | some .proved => "✓ PROVED"
  | some .saturated => "✗ NOT ENTAILED"
  | _ => "? INCONCLUSIVE"

/-- How a query ended, and the seconds it took. -/
def resultLine (d : Derivation) (seconds : String) : String :=
  verdictText d.outcome ++ ": " ++ d.query.getD "" ++ "  (" ++ digits d.length ++ " steps, "
    ++ digits d.working.size ++ " clauses, " ++ seconds ++ "s)"

/-- A clause behind its number. -/
def numberedText (c : NumberedClause) : String :=
  "[" ++ intText c.id ++ "] " ++ c.toClause.text

/-- How many clauses a problem has made. -/
def loadedLine (clauses : Nat) (problem : String) : String :=
  "Loaded " ++ digits clauses ++ " clauses from '" ++ problem ++ "'"

/-- One step of a refutation. -/
def stepLine (step : Step) : String :=
  "  " ++ alignRight 4 (intText step.number) ++ ". " ++ numberedText step.left ++ "  +  "
    ++ numberedText step.right ++ "  ⊢  " ++ numberedText step.resolvent

/-- The steps on which the contradiction depends. -/
def refutationLines (d : Derivation) : List String :=
  d.refutation.map stepLine

/-- The bar shown while there are several queries, as it stands at the start. -/
def progressBar (queries : Nat) : String :=
  "Queries:   0%|          | 0/" ++ digits queries ++ " [00:00<?, ?it/s]"

/-! ### The log -/

/-- The log line for the clauses of a problem. -/
def builtLine (clauses : Nat) : String :=
  "DEBUG resolvent.clausal.builder: Built " ++ digits clauses ++ " clauses"

/-- The log line for a new engine. -/
def engineLine (clauses : Nat) : String :=
  "DEBUG resolvent.engine: Engine initialized with " ++ digits clauses ++ " clauses"

/-- The log line for a pass. -/
def passLine (event : PassEvent) : String :=
  "DEBUG resolvent.loops.base: " ++ match event with
    | .completed number attempted added total =>
      "Pass " ++ intText number ++ ": " ++ digits attempted ++ " pairs attempted, " ++ digits added
        ++ " clauses added, " ++ digits total ++ " clauses in total"
    | .contradiction left right =>
      "Contradiction from clauses " ++ intText left ++ " and " ++ intText right
    | .capReached cap => "Step limit " ++ digits cap ++ " reached"

/-- The log line for what happens to a query. -/
def eventLine : QueryEvent → String
  | .searching query negated =>
    "DEBUG resolvent.engine: Searching " ++ Text.quoted query ++ ": negated query "
      ++ negated.toClause.text ++ " is clause " ++ intText negated.id
  | .pass event => passLine event
  | .decided query outcome steps passes =>
    "INFO resolvent.engine: Query " ++ Text.quoted query ++ ": " ++ outcome.name ++ " after "
      ++ digits steps ++ " steps in " ++ intText passes ++ " passes"

/-- Does an event come after the end of the search? -/
def isLate : QueryEvent → Bool
  | .decided .. => true
  | .searching .. | .pass _ => false

end Refuter.CommandLine
