import Refuter.Literal
import Refuter.Sentence.Nesting

/-! # Terms and literals in a sentence

The text of a literal follows the grammar

    L ::= '(' L ')' | '¬' L | Name | Name '(' ')' | Name '(' Term (',' Term)* ')'

with blanks allowed around every part. A name starts with a letter or an
underscore; a term is a run of letters, digits and underscores, and is a
variable exactly when it starts with a lower-case letter.
-/

namespace Refuter.Sentence

open Text (isBlank trim)

/-- Letters, digits and the underscore, ASCII only. -/
def isWord (c : Char) : Bool :=
  c.isAlphanum || c = '_'

/-- A word character that may start the name of a predicate. -/
def isNameStart (c : Char) : Bool :=
  c.isAlpha || c = '_'

/-- Reads one argument. -/
def readTerm (text : List Char) : Except Fault Term :=
  match trim text with
  | [] => .error .emptyArgument
  | c :: rest =>
    let name := String.ofList (c :: rest)
    if (c :: rest).all isWord then .ok (Term.ofKind c.isLower name)
    else .error (.unsupportedTerm name)

/-- Peels off wrapping parentheses and negation signs; each sign toggles the
    polarity. -/
def polarity (negated : Bool) (text : List Char) : Bool × List Char :=
  match _h : unwrap text with
  | '¬' :: rest => polarity (!negated) rest
  | body => (negated, body)
termination_by text.length
decreasing_by
  have := length_unwrap_le text
  rw [_h] at this
  simp only [List.length_cons] at this
  omega

/-- The name and the argument text of an atom; without parentheses there is no
    argument text. -/
def atomParts? (text : List Char) : Option (List Char × Option (List Char)) :=
  match text with
  | [] => none
  | c :: _ =>
    if isNameStart c then
      let name := text.takeWhile isWord
      match (text.dropWhile isWord).dropWhile isBlank with
      | [] => some (name, none)
      | '(' :: rest =>
        let inner := rest.dropLast
        if rest.getLast? = some ')' ∧ inner.all (fun c => c ≠ '(' && c ≠ ')') then
          some (name, some inner)
        else none
      | _ => none
    else none

/-- Is a character one of the binary connectives? -/
def isConnective (c : Char) : Bool :=
  c = '⇒' || c = '∧' || c = '∨'

/-- Reads an argument list; nothing but blanks is an empty one. -/
def readArgs (text : List Char) : Except Fault (List Term) :=
  if (trim text).isEmpty then .ok [] else (Text.splitAt ',' text).mapM readTerm

/-- Reads one literal. `negated` is the polarity that the surroundings impose. -/
def readLiteral (negated : Bool) (text : List Char) : Except Fault Literal :=
  let (sign, body) := polarity negated text
  if body.isEmpty then .error .emptyLiteral
  else if body.any isConnective then .error (.notSingleLiteral (String.ofList body))
  else match atomParts? body with
    | none => .error (.unreadable (String.ofList body))
    | some (name, args) => do
      let terms ← match args with
        | none => pure []
        | some text => readArgs text
      return { name := String.ofList name, args := terms, negated := sign }

/-- The runs of word characters of a text, in order. -/
def words (text : List Char) : List String :=
  let rec go (word : List Char) : List Char → List String
    | [] => if word.isEmpty then [] else [String.ofList word.reverse]
    | c :: rest =>
      if isWord c then go (c :: word) rest
      else if word.isEmpty then go [] rest
      else String.ofList word.reverse :: go [] rest
  go [] text

end Refuter.Sentence
