import Refuter.Error
import Refuter.Text.Blank

/-! # Sentence files

A knowledge base is kept as a plain text: one sentence per line, a number sign
starts a comment, and a line that starts with a question mark holds a query.

Clauses are written back in the same layout, each behind a comment with its
number.
-/

namespace Refuter

/-- Sentences and queries as written. -/
structure KnowledgeBase where
  /-- The sentences in order. -/
  sentences : List String := []
  /-- The queries in order. -/
  queries : List String := []
  deriving Repr, DecidableEq, Inhabited

namespace KnowledgeBase

/-- The content of a line: what stands before a comment, without blanks at the
    ends. -/
def content (line : List Char) : List Char :=
  Text.trim (line.takeWhile (· ≠ '#'))

/-- The sentence of a line, if it holds one. -/
def sentence? (line : List Char) : Option String :=
  match content line with
  | [] | '?' :: _ => none
  | sentence => some (String.ofList sentence)

/-- The query of a line, if it holds one. -/
def query? (line : List Char) : Option String :=
  match content line with
  | '?' :: query => some (String.ofList (Text.trim query))
  | _ => none

/-- The knowledge base that lines make. -/
def ofLines (lines : List (List Char)) : KnowledgeBase :=
  { sentences := lines.filterMap sentence?, queries := lines.filterMap query? }

/-- **No line holds both a sentence and a query.** -/
theorem sentence?_eq_none_of_query? {line : List Char} {query : String}
    (h : query? line = some query) : sentence? line = none := by
  simp only [query?] at h
  split at h
  · rename_i heq
    simp [sentence?, heq]
  · simp at h

/-- Reads a knowledge base from a text. -/
def ofText (text : String) : KnowledgeBase :=
  ofLines (Text.lines text.toList)

/-- Reads a knowledge base from the content of a file, whose line ends are
    unified first. -/
def ofFile (text : String) : KnowledgeBase :=
  ofLines (Text.lines (Text.unifyBreaks text.toList))

/-- A clause behind a comment with its number; a clause without one counts its
    position. -/
def clauseLines (c : LabelledClause) (position : Nat) : String :=
  "# " ++ intText (c.id.getD position) ++ "\n" ++ c.toClause.text

/-- Clauses as a text. -/
def write (clauses : List LabelledClause) : String :=
  if clauses.isEmpty then ""
  else "\n".intercalate (clauses.zipIdx.map fun (c, i) => clauseLines c (i + 1)) ++ "\n"

end KnowledgeBase

end Refuter
