import Refuter.Exchange.Value
import Refuter.Json.Reader

/-! # Reading clauses and derivations

Objects are recognised by their member `_type`, from the inside out: by the
time a clause is read its literals have been. A plain object stays as it is. Of
an object that stands for something the members in question are kept, whatever
they are, others are dropped, and missing ones are an error.

**Derivations** are checked as far as they refer to clauses. Each clause must
have a number of its own, and the negated query and the steps must name clauses
by their numbers. What is wrong is found in the order in which a derivation is
read: clauses, negated query, query, passes, steps, outcome.
-/

namespace Refuter.Exchange

/-- A member that must be there. -/
def field (members : Members Value) (name : String) : Except Error Value :=
  match members.get? name with
  | some v => .ok v
  | none => .error (.missingField name)

/-- The items of a value that must have items. -/
def itemsOf (v : Value) : Except Error (List Value) :=
  match v.items? with
  | some items => .ok items
  | none => .error (.noItems v.kindName)

/-! ### Terms, literals, clauses -/

/-- Reads a term. -/
def readTerm (members : Members Value) : Except Error Value := do
  let name ← field members "name"
  return .term name (← field members "is_variable")

/-- Reads a literal. -/
def readLiteral (members : Members Value) : Except Error Value := do
  let name ← field members "name"
  let terms ← field members "terms"
  let negated ← field members "negated"
  return .literal name (← itemsOf terms) negated

/-- Reads a clause; its number may be missing. -/
def readClause (members : Members Value) : Except Error Value := do
  let literals ← field members "predicates"
  return .clause ((members.get? "id").getD .null) (← itemsOf literals)

/-! ### Substitutions -/

/-- Binds the name of a key; a name bound before keeps its place. -/
def setBinding (key : String) (name v : Value) : List (Value × Value) → List (Value × Value)
  | [] => [(name, v)]
  | (n, w) :: rest =>
    if n.key? = some key then (n, v) :: rest else (n, w) :: setBinding key name v rest

/-- Reads bindings from pairs, the first of which is the pair number `index`. -/
def readPairs (index : Nat) (bindings : List (Value × Value)) :
    List Value → Except Error (List (Value × Value))
  | [] => .ok bindings
  | pair :: rest => do
    match pair.items? with
    | some [name, v] => readPairs (index + 1) (setBinding (← name.key) name v bindings) rest
    | some parts => throw (.wrongPair index parts.length)
    | none => throw (.notAPair index)

/-- Reads a substitution from an object or from a list of pairs; anything
    without content is the empty one. -/
def readSubstitution (members : Members Value) : Except Error Value := do
  let mapping ← field members "mapping"
  if mapping.isVoid then return .substitution []
  match mapping with
  | .obj bindings => return .substitution (bindings.map fun (name, v) => (.str name, v))
  | _ => return .substitution (← readPairs 0 [] (← itemsOf mapping))

/-! ### The clauses of a derivation -/

/-- Checks that values are clauses, each with a number of its own; `seen` are
    the keys of the numbers before. -/
def checkNumbers (seen : List String) : List Value → Except Error Unit
  | [] => .ok ()
  | .clause id literals :: rest =>
    match id with
    | .null => do throw (.unnumbered (← (Value.clause id literals).told))
    | _ => do
      let key ← id.key
      if key ∈ seen then throw (.duplicateNumber (← id.told))
      checkNumbers (key :: seen) rest
  | _ :: _ => .error .notAClause

/-- Checks that clauses can be told from one another, by their literals. -/
def checkLiterals : List Value → Except Error Unit
  | [] => .ok ()
  | v :: rest => do
    let _ ← v.key
    checkLiterals rest

/-- The larger one of two clause numbers, which must be comparable; of two equal
    ones the first. -/
def larger (best id : Value) : Except Error Value :=
  match best, id with
  | .str s, .str t => .ok (if s < t then id else best)
  | .scalar a, .scalar b =>
    if best.isNumber && id.isNumber then .ok (if b.exceeds a then id else best)
    else .error (.notComparable id.kindName best.kindName)
  | _, _ => .error (.notComparable id.kindName best.kindName)

/-- Checks that there is a number behind those of all clauses. -/
def checkKinds (clauses : List Value) : Except Error Unit := do
  let ids := clauses.filterMap fun
    | .clause id _ => some id
    | _ => none
  match ids with
  | [] => return ()
  | first :: rest =>
    let last ← rest.foldlM larger first
    if last.isNumber then return () else throw (.notANumber last.kindName)

/-- Reads the clauses of a derivation. -/
def readClauseList (v : Value) : Except Error (List Value) := do
  let clauses ← itemsOf v
  checkNumbers [] clauses
  checkLiterals clauses
  checkKinds clauses
  return clauses

/-- Is it the clause whose number has this key? -/
def hasKey (key : String) : Value → Bool
  | .clause id _ => id.key? = some key
  | _ => false

/-- The number, as it stands in its clause, of the clause that a value names. -/
def numberAt (clauses : List Value) (v : Value) : Except Error Value := do
  let key ← v.key
  match clauses.find? (hasKey key) with
  | some (.clause id _) => return id
  | _ => throw (.unknownClause (← v.toldShown))

/-! ### Derivations -/

/-- Reads a step, whose clauses must be among the given ones. -/
def readStep (clauses : List Value) : Value → Except Error Value
  | .obj members => do
    let number ← field members "step_number"
    let left ← numberAt clauses (← field members "left")
    let right ← numberAt clauses (← field members "right")
    let resolvent ← numberAt clauses (← field members "resolvent")
    return .step number left right resolvent (← field members "substitution")
  | v => .error (.noMembers v.kindName)

/-- Reads the number of the negated query, which may be absent. -/
def readNegated (clauses : List Value) : Value → Except Error Value
  | .null => .ok .null
  | v => numberAt clauses v

/-- Reads an outcome, which may be absent. -/
def readOutcome : Value → Except Error (Option Outcome)
  | .null => .ok none
  | v =>
    let named := match v with
      | .str s => Outcome.ofName? s
      | _ => none
    match named with
    | some outcome => .ok (some outcome)
    | none => do throw (.unknownOutcome (← v.toldShown))

/-- Reads a derivation. The clauses come first, because everything else refers
    to them. -/
def readDerivation (members : Members Value) : Except Error Value := do
  let clauses ← readClauseList (← field members "clauses")
  let negatedQuery ← readNegated clauses (← field members "negated_query")
  let query ← field members "query"
  let passes ← field members "passes"
  let steps ← (← itemsOf (← field members "steps")).mapM (readStep clauses)
  let outcome ← readOutcome (← field members "outcome")
  return .derivation query negatedQuery outcome passes clauses steps

/-! ### Whole texts -/

/-- Reads an object of a clause list. -/
def readObject (members : Members Value) : Except Error Value :=
  match members.get? tagField with
  | some (.str "Term") => readTerm members
  | some (.str "Predicate") => readLiteral members
  | some (.str "Clause") => readClause members
  | some (.str "Substitution") => readSubstitution members
  | _ => .ok (.obj members)

/-- Reads an object of a text that may hold derivations too. -/
def readAnyObject (members : Members Value) : Except Error Value :=
  match members.get? tagField with
  | some (.str "Proof") => readDerivation members
  | _ => readObject members

/-- Reads a text with the given treatment of objects. -/
def readTextWith (object : Members Value → Except Error Value) (text : String) :
    Except Error Value :=
  match Json.readWith { scalar := .scalar, arr := .arr, obj := object } text.toList with
  | .ok v => .ok v
  | .error .malformed => .error .malformedJson
  | .error (.oversized digits) => .error (.oversized digits)
  | .error (.refused e) => .error e

/-- Reads a text of clauses. Derivations in it stay plain objects. -/
def readClauses (text : String) : Except Error Value :=
  readTextWith readObject text

/-- Reads a text that may hold derivations. -/
def readDerivations (text : String) : Except Error Value :=
  readTextWith readAnyObject text

end Refuter.Exchange
